import IONet.Schema.SchemaBuilder

namespace IONet.SchemaBuilder

open IONet.Core

inductive Call
  | name (name : String)
  | version (version : String)
  | description (desc : String)
  | byteOrder (order : ByteOrder)
  | bigEndian
  | littleEndian
  | packet (id : UInt32) (name : String)
  | packetDescription (desc : String)
  | field (name : String) (type : DataType)
  | uint8 (name : String)
  | uint16 (name : String)
  | uint32 (name : String)
  | uint64 (name : String)
  | int8 (name : String)
  | int16 (name : String)
  | int32 (name : String)
  | int64 (name : String)
  | float32 (name : String)
  | float64 (name : String)
  | scaled (scale offset : Double)
  | scale (scale : Double)
  | offset (off : Double)
  | unit (u : String)
  | fieldDescription (desc : String)
  | bitfield (name : String) (bits : UInt8)
  | flag (bit : UInt8) (name desc : String)
  | string (name : String) (size : UInt64)
  | done

namespace Call

def method : Call → BuildM Unit
  | .name n => SchemaBuilder.name n
  | .version v => SchemaBuilder.version v
  | .description desc => SchemaBuilder.description desc
  | .byteOrder order => SchemaBuilder.byteOrder order
  | .bigEndian => SchemaBuilder.bigEndian
  | .littleEndian => SchemaBuilder.littleEndian
  | .packet id n => SchemaBuilder.packet id n
  | .packetDescription desc => SchemaBuilder.packetDescription desc
  | .field n t => SchemaBuilder.field n t
  | .uint8 n => SchemaBuilder.uint8 n
  | .uint16 n => SchemaBuilder.uint16 n
  | .uint32 n => SchemaBuilder.uint32 n
  | .uint64 n => SchemaBuilder.uint64 n
  | .int8 n => SchemaBuilder.int8 n
  | .int16 n => SchemaBuilder.int16 n
  | .int32 n => SchemaBuilder.int32 n
  | .int64 n => SchemaBuilder.int64 n
  | .float32 n => SchemaBuilder.float32 n
  | .float64 n => SchemaBuilder.float64 n
  | .scaled s o => SchemaBuilder.scaled s o
  | .scale s => SchemaBuilder.scale s
  | .offset off => SchemaBuilder.offset off
  | .unit u => SchemaBuilder.unit u
  | .fieldDescription desc => SchemaBuilder.fieldDescription desc
  | .bitfield n bits => SchemaBuilder.bitfield n bits
  | .flag bit n desc => SchemaBuilder.flag bit n desc
  | .string n size => SchemaBuilder.string n size
  | .done => SchemaBuilder.done

def outcome (c : Call) (b : SchemaBuilder) : Except String Unit × SchemaBuilder := c.method.run b

def after (c : Call) (b : SchemaBuilder) : SchemaBuilder := (c.outcome b).2

def Throws (c : Call) (b : SchemaBuilder) : Prop := ∃ what, (c.outcome b).1 = .error what

def startsPacket : Call → Option (UInt32 × String)
  | .packet id n => some (id, n)
  | _ => none

def addsField : Call → Option Field
  | .field n t => some { name := n, type := t }
  | .uint8 n => some { name := n, type := .uint8 }
  | .uint16 n => some { name := n, type := .uint16 }
  | .uint32 n => some { name := n, type := .uint32 }
  | .uint64 n => some { name := n, type := .uint64 }
  | .int8 n => some { name := n, type := .int8 }
  | .int16 n => some { name := n, type := .int16 }
  | .int32 n => some { name := n, type := .int32 }
  | .int64 n => some { name := n, type := .int64 }
  | .float32 n => some { name := n, type := .float32 }
  | .float64 n => some { name := n, type := .float64 }
  | .bitfield n bits => some { name := n, type := .bitfield, bitCount := some bits }
  | .string n size => some { name := n, type := .string, stringSize := some size }
  | _ => none

def withOffset (off : Double) (scaling : Option Scaling) : Scaling :=
  { scaling.getD {} with offset := off }

def onField : Call → Field → Field
  | .scaled s o, f => { f with scaling := some { scale := s, offset := o } }
  | .scale s, f => { f with scaling := some { scale := s } }
  | .offset off, f => { f with scaling := some (withOffset off f.scaling) }
  | .unit u, f => { f with unit := some u }
  | .fieldDescription desc, f => { f with description := desc }
  | .flag bit n desc, f =>
    if f.type = .bitfield then
      { f with bitFlags := f.bitFlags ++ [{ bit := bit, name := n, description := desc }] }
    else f
  | _, f => f

def onDescription : Call → String → String
  | .packetDescription desc, _ => desc
  | _, desc => desc

def onInfo : Call → SchemaInfo → SchemaInfo
  | .name n, info => { info with name := n }
  | .version v, info => { info with version := v }
  | .description desc, info => { info with description := desc }
  | _, info => info

def onOrder : Call → ByteOrder → ByteOrder
  | .byteOrder order, _ => order
  | .bigEndian, _ => .big
  | .littleEndian, _ => .little
  | _, order => order

def onPacket (c : Call) (p : Packet) : Packet where
  id := p.id
  name := p.name
  description := c.onDescription p.description
  fields :=
    match c.addsField with
    | some f => p.fields ++ [f]
    | none => p.fields.modifyLast c.onField

def effect (c : Call) (b : SchemaBuilder) : SchemaBuilder :=
  match c.startsPacket with
  | some (id, n) => { b.finishCurrentPacket with currentPacket_ := some { id := id, name := n } }
  | none => {
      info_ := c.onInfo b.info_
      byteOrder_ := c.onOrder b.byteOrder_
      packets_ := b.packets_
      currentPacket_ := b.currentPacket_.map c.onPacket }

/-- Whether the builder has what the call needs: a packet, a field, a bitfield. -/
def Accepted : Call → SchemaBuilder → Prop
  | .packetDescription _, b | .field .., b | .uint8 _, b | .uint16 _, b | .uint32 _, b
  | .uint64 _, b | .int8 _, b | .int16 _, b | .int32 _, b | .int64 _, b | .float32 _, b
  | .float64 _, b | .bitfield .., b | .string .., b => b.currentPacket_ ≠ none
  | .scaled .., b | .scale _, b | .offset _, b | .unit _, b | .fieldDescription _, b =>
    b.currentFields ≠ []
  | .flag .., b => ∃ f, b.currentFields.getLast? = some f ∧ f.type = .bitfield
  | _, _ => True

end Call

section

variable (m : BuildM Unit) {b : SchemaBuilder}

theorem run_ensurePacket_none (h : b.currentPacket_ = none) :
    (do ensurePacket; m : BuildM Unit).run b =
      (.error "No packet defined. Call packet() first.", b) := by
  obtain ⟨info, order, packets, current⟩ := b
  cases h
  rfl

theorem run_ensurePacket {p : Packet} (h : b.currentPacket_ = some p) :
    (do ensurePacket; m : BuildM Unit).run b = m.run b := by
  obtain ⟨info, order, packets, current⟩ := b
  cases h
  rfl

theorem run_ensureField_none (h : b.currentPacket_ = none) :
    (do ensureField; m : BuildM Unit).run b =
      (.error "No packet defined. Call packet() first.", b) := by
  obtain ⟨info, order, packets, current⟩ := b
  cases h
  rfl

theorem run_ensureField_nil {p : Packet} (h : b.currentPacket_ = some p) (hnil : p.fields = []) :
    (do ensureField; m : BuildM Unit).run b =
      (.error "No field defined. Call field() first.", b) := by
  obtain ⟨info, order, packets, current⟩ := b
  obtain ⟨id, name, desc, fields⟩ := p
  cases h
  cases hnil
  rfl

theorem run_ensureField {p : Packet} (h : b.currentPacket_ = some p) (hne : p.fields ≠ []) :
    (do ensureField; m : BuildM Unit).run b = m.run b := by
  obtain ⟨info, order, packets, current⟩ := b
  obtain ⟨id, name, desc, fields⟩ := p
  cases h
  cases fields with
  | nil => exact absurd rfl hne
  | cons f fs => rfl

end

theorem currentFields_of_some {b : SchemaBuilder} {p : Packet} (h : b.currentPacket_ = some p) :
    b.currentFields = p.fields := by
  rw [currentFields, h]
  rfl

theorem currentFields_of_none {b : SchemaBuilder} (h : b.currentPacket_ = none) :
    b.currentFields = [] := by
  rw [currentFields, h]
  rfl

/-- A run that becomes `b'` when it is accepted, and throws with the builder as
it was when it is not. -/
structure Guarded (accepted : Prop) (b b' : SchemaBuilder)
    (outcome : Except String Unit × SchemaBuilder) : Prop where
  returns : accepted → outcome = (.ok (), b')
  throws : ¬accepted → (∃ what, outcome = (.error what, b)) ∧ b' = b

section

variable (b : SchemaBuilder)

theorem guarded_packet (g : Packet → Packet) :
    Guarded (b.currentPacket_ ≠ none) b { b with currentPacket_ := b.currentPacket_.map g }
      ((do ensurePacket; onPacket g : BuildM Unit).run b) where
  returns hne := by
    obtain ⟨p, h⟩ := Option.ne_none_iff_exists'.mp hne
    rw [run_ensurePacket _ h]
    rfl
  throws hnone := by
    have h : b.currentPacket_ = none := not_not.mp hnone
    refine ⟨⟨_, run_ensurePacket_none _ h⟩, ?_⟩
    rw [h, Option.map_none, ← h]

theorem map_modifyLast_of_nil (h : b.currentFields = []) (g : Field → Field) :
    { b with currentPacket_ :=
      b.currentPacket_.map fun p => { p with fields := p.fields.modifyLast g } } = b := by
  cases hp : b.currentPacket_ with
  | none => rw [Option.map_none, ← hp]
  | some p =>
    rw [currentFields_of_some hp] at h
    have hsame : { p with fields := p.fields.modifyLast g } = p := by
      rw [h]
      change { p with fields := [] } = p
      rw [← h]
    rw [Option.map_some, hsame, ← hp]

theorem guarded_field (g : Field → Field) :
    Guarded (b.currentFields ≠ []) b
      { b with currentPacket_ :=
        b.currentPacket_.map fun p => { p with fields := p.fields.modifyLast g } }
      ((do ensureField; onBack g : BuildM Unit).run b) where
  returns hne := by
    cases hp : b.currentPacket_ with
    | none => exact absurd (currentFields_of_none hp) hne
    | some p =>
      rw [currentFields_of_some hp] at hne
      rw [run_ensureField _ hp hne, ← hp]
      rfl
  throws hnil := by
    have h : b.currentFields = [] := not_not.mp hnil
    refine ⟨?_, b.map_modifyLast_of_nil h g⟩
    cases hp : b.currentPacket_ with
    | none => exact ⟨_, run_ensureField_none _ hp⟩
    | some p =>
      rw [currentFields_of_some hp] at h
      exact ⟨_, run_ensureField_nil _ hp h⟩

theorem run_guard (cond : SchemaBuilder → Bool) (what : String) (m : BuildM Unit) :
    (do
      if cond (← get) then throw what
      m : BuildM Unit).run b = if cond b then (.error what, b) else m.run b := by
  change ExceptT.run (if cond b then (throw what >>= fun _ => m) else m : BuildM Unit) b = _
  cases cond b <;> rfl

theorem run_onBack (g : Field → Field) : (onBack g).run b =
    (.ok (), { b with currentPacket_ :=
      b.currentPacket_.map fun p => { p with fields := p.fields.modifyLast g } }) := rfl

theorem onField_flag_of_eq {f : Field} (h : f.type = .bitfield) (bit : UInt8) (n desc : String) :
    (Call.flag bit n desc).onField f =
      { f with bitFlags := f.bitFlags ++ [{ bit := bit, name := n, description := desc }] } :=
  if_pos h

theorem onField_flag_of_ne {f : Field} (h : f.type ≠ .bitfield) (bit : UInt8) (n desc : String) :
    (Call.flag bit n desc).onField f = f := if_neg h

theorem run_flag {p : Packet} (hp : b.currentPacket_ = some p) {fs : List Field} {f : Field}
    (hfields : p.fields = fs ++ [f]) (bit : UInt8) (n desc : String) :
    (flag bit n desc).run b =
      if f.type = .bitfield then
        (.ok (), { b with currentPacket_ := b.currentPacket_.map fun p =>
          { p with fields := p.fields.modifyLast (Call.flag bit n desc).onField } })
      else (.error "flag() can only be called after bitfield()", b) := by
  have hrun := run_ensureField (do
    if (← get).currentFields.getLast?.any fun f => f.type != .bitfield then
      throw "flag() can only be called after bitfield()"
    onBack fun f =>
      { f with bitFlags := f.bitFlags ++ [{ bit := bit, name := n, description := desc }] }) hp
    (by simp [hfields])
  rw [run_guard b fun b => b.currentFields.getLast?.any fun f => f.type != .bitfield] at hrun
  have hlast : b.currentFields.getLast? = some f := by
    rw [currentFields_of_some hp, hfields, List.getLast?_concat]
  rw [hlast, Option.any_some] at hrun
  refine hrun.trans ?_
  by_cases htype : f.type = .bitfield
  · rw [if_pos htype, if_neg (by simp [htype]), run_onBack, hp, Option.map_some, Option.map_some,
      hfields, List.modifyLast_concat, List.modifyLast_concat, onField_flag_of_eq htype]
  · rw [if_neg htype, if_pos (by simpa using htype)]

theorem guarded_flag (bit : UInt8) (n desc : String) :
    Guarded (∃ f, b.currentFields.getLast? = some f ∧ f.type = .bitfield) b
      { b with currentPacket_ := b.currentPacket_.map fun p =>
        { p with fields := p.fields.modifyLast (Call.flag bit n desc).onField } }
      ((flag bit n desc).run b) := by
  cases hp : b.currentPacket_ with
  | none =>
    have hnil := currentFields_of_none hp
    refine ⟨fun hlast => by simp [hnil] at hlast, fun _ => ⟨⟨_, run_ensureField_none _ hp⟩, ?_⟩⟩
    rw [Option.map_none, ← hp]
  | some p =>
    have hcurrent := currentFields_of_some hp
    rcases List.eq_nil_or_concat p.fields with hnil | ⟨fs, f, hfields⟩
    · rw [hcurrent, ← hp]
      refine ⟨fun hlast => by simp [hnil] at hlast, fun _ =>
        ⟨⟨_, run_ensureField_nil _ hp hnil⟩, ?_⟩⟩
      exact b.map_modifyLast_of_nil (hcurrent.trans hnil) _
    · rw [List.concat_eq_append] at hfields
      rw [b.run_flag hp hfields, hcurrent, hfields, List.getLast?_concat, ← hp]
      by_cases htype : f.type = .bitfield
      · rw [if_pos htype]
        exact ⟨fun _ => rfl, fun hnot => absurd ⟨f, rfl, htype⟩ hnot⟩
      · rw [if_neg htype]
        refine ⟨fun ⟨f', hf', htype'⟩ => ?_, fun _ => ⟨⟨_, rfl⟩, ?_⟩⟩
        · cases hf'
          exact absurd htype' htype
        · rw [hp, Option.map_some, hfields, List.modifyLast_concat, onField_flag_of_ne htype,
            ← hfields, ← hp]

end

theorem modifyLast_self {α : Type} (xs : List α) : xs.modifyLast (fun x => x) = xs := by
  rcases List.eq_nil_or_concat xs with rfl | ⟨ys, y, rfl⟩
  · rfl
  · rw [List.concat_eq_append, List.modifyLast_concat]

theorem onPacket_packetDescription (desc : String) :
    (Call.packetDescription desc).onPacket = fun p => { p with description := desc } := by
  funext p
  change Packet.mk _ _ _ (p.fields.modifyLast fun f => f) = _
  rw [modifyLast_self]
  rfl

theorem onField_offset (off : Double) : (Call.offset off).onField = fun f =>
    match f.scaling with
    | none => { f with scaling := some { scale := Double.ofInt 1, offset := off } }
    | some scaling => { f with scaling := some { scaling with offset := off } } := by
  funext f
  cases hs : f.scaling <;> simp [Call.onField, Call.withOffset, hs]

theorem effect_of_free {c : Call} (hstart : c.startsPacket = none) (hadds : c.addsField = none)
    (hfield : ∀ f, c.onField f = f) (hdesc : ∀ d, c.onDescription d = d) (b : SchemaBuilder) :
    c.effect b = { b with info_ := c.onInfo b.info_, byteOrder_ := c.onOrder b.byteOrder_ } := by
  have hpacket : c.onPacket = id := by
    funext p
    simp only [Call.onPacket, hadds, hdesc, funext hfield]
    rw [modifyLast_self]
    rfl
  rw [Call.effect, hstart, hpacket, Option.map_id_fun, id]

theorem Call.guarded (c : Call) (b : SchemaBuilder) :
    Guarded (c.Accepted b) b (c.effect b) (c.outcome b) := by
  cases c with
  | packet id n => exact ⟨fun _ => rfl, fun hnot => absurd trivial hnot⟩
  | packetDescription desc =>
    have hmethod : (Call.packetDescription desc).outcome b =
        (do ensurePacket; SchemaBuilder.onPacket (Call.packetDescription desc).onPacket :
          BuildM Unit).run b := by
      rw [onPacket_packetDescription]
      rfl
    rw [hmethod]
    exact b.guarded_packet _
  | field _ _ | uint8 _ | uint16 _ | uint32 _ | uint64 _ | int8 _ | int16 _ | int32 _ | int64 _
  | float32 _ | float64 _ | bitfield _ _ | string _ _ =>
    exact b.guarded_packet fun p => { p with fields := p.fields ++ [_] }
  | scaled _ _ | scale _ | unit _ | fieldDescription _ => exact b.guarded_field _
  | offset off =>
    have hmethod : (Call.offset off).outcome b =
        (do ensureField; onBack (Call.offset off).onField : BuildM Unit).run b := by
      rw [onField_offset]
      rfl
    rw [hmethod]
    exact b.guarded_field _
  | flag bit n desc => exact b.guarded_flag bit n desc
  | _ =>
    rw [effect_of_free rfl rfl (fun _ => rfl) (fun _ => rfl)]
    exact ⟨fun _ => rfl, fun hnot => absurd trivial hnot⟩

theorem Call.after_eq (c : Call) (b : SchemaBuilder) : c.after b = c.effect b := by
  by_cases h : c.Accepted b
  · rw [Call.after, (c.guarded b).returns h]
  · obtain ⟨⟨what, hout⟩, hsame⟩ := (c.guarded b).throws h
    rw [Call.after, hout, hsame]

theorem Call.throws_iff (c : Call) (b : SchemaBuilder) : c.Throws b ↔ ¬c.Accepted b := by
  constructor
  · rintro ⟨what, hwhat⟩ h
    rw [(c.guarded b).returns h] at hwhat
    cases hwhat
  · intro h
    obtain ⟨⟨what, hout⟩, -⟩ := (c.guarded b).throws h
    exact ⟨what, by rw [hout]⟩

theorem Call.after_of_throws {c : Call} {b : SchemaBuilder} (h : c.Throws b) : c.after b = b := by
  rw [Call.after_eq]
  exact ((c.guarded b).throws ((c.throws_iff b).mp h)).2

end IONet.SchemaBuilder
