import IONet.Schema.BuilderTrace
import IONet.Schema.SchemaParser

namespace IONet.SchemaBuilder

open IONet.Core SchemaParserBase Lib.Segments

/-- What the methods of the builder can make of a field. -/
structure Expressible (f : Field) : Prop where
  arraySize : f.arraySize = none
  constraints : f.constraints = {}
  bitCount : f.bitCount ≠ none → f.type = .bitfield
  stringSize : f.stringSize ≠ none → f.type = .string
  flags : FlagsOnBitfield f

inductive Runs : SchemaBuilder → List Call → SchemaBuilder → Prop
  | nil {b : SchemaBuilder} : Runs b [] b
  | cons {b b' : SchemaBuilder} {c : Call} {calls : List Call} (haccepted : c.Accepted b)
      (h : Runs (c.effect b) calls b') : Runs b (c :: calls) b'

variable {b b' b'' : SchemaBuilder} {calls calls' : List Call} {f g : Field} {p : Packet}
  {flags : List BitFlag}

theorem Runs.append (h : Runs b calls b') (h' : Runs b' calls' b'') :
    Runs b (calls ++ calls') b'' := by
  induction h with
  | nil => exact h'
  | cons haccepted _ ih => exact .cons haccepted (ih h')

theorem Runs.eq (h : Runs b calls b') : runFrom b calls = b' := by
  induction h with
  | nil => rfl
  | cons _ _ ih => rw [runFrom_cons, ih]

theorem Runs.not_throws (h : Runs b calls b') {pre post : List Call} {c : Call}
    (hcalls : calls = pre ++ c :: post) : ¬c.Throws (runFrom b pre) := by
  induction h generalizing pre with
  | nil => simp at hcalls
  | @cons b b' c' calls haccepted _ ih =>
    cases pre with
    | nil =>
      cases hcalls
      rw [c.throws_iff, not_not]
      exact haccepted
    | cons a pre =>
      cases hcalls
      rw [runFrom_cons]
      exact ih rfl

def adding (f : Field) : Call :=
  match f.bitCount, f.stringSize with
  | some bits, _ => .bitfield f.name bits
  | none, some size => .string f.name size
  | none, none => .field f.name f.type

def setting (f : Field) : List Call :=
  (f.scaling.map fun s => Call.scaled s.scale s.offset).toList ++ (f.unit.map Call.unit).toList ++
    .fieldDescription f.description ::
      f.bitFlags.map fun flag => .flag flag.bit flag.name flag.description

def fieldCalls (f : Field) : List Call := adding f :: setting f

theorem addsField_adding (h : Expressible f) : (adding f).addsField = some (asAdded f) := by
  obtain ⟨name, type, arraySize, stringSize, bitCount, scaling, unit, description, bitFlags,
    constraints⟩ := f
  obtain ⟨rfl, rfl, hbits, hsize, -⟩ := h
  cases bitCount with
  | some bits =>
    cases hbits nofun
    cases stringSize with
    | some size => cases hsize nofun
    | none => rfl
  | none =>
    cases stringSize with
    | some size =>
      cases hsize nofun
      rfl
    | none => rfl

inductive Sets (type : DataType) : Call → Prop
  | scaled (s o : Double) : Sets type (.scaled s o)
  | unit (u : String) : Sets type (.unit u)
  | fieldDescription (desc : String) : Sets type (.fieldDescription desc)
  | flag (bit : UInt8) (n desc : String) (htype : type = .bitfield) : Sets type (.flag bit n desc)

def grown (b : SchemaBuilder) (p : Packet) (f : Field) : SchemaBuilder :=
  { b with currentPacket_ := some { p with fields := p.fields ++ [f] } }

theorem effect_of_addsField {c : Call} (h : c.addsField = some f) (b : SchemaBuilder) (p : Packet) :
    c.effect { b with currentPacket_ := some p } = grown b p f := by
  cases c <;> cases h <;> rfl

theorem accepted_grown {c : Call} (h : Sets f.type c) : c.Accepted (grown b p f) := by
  have hlast : (grown b p f).currentFields = p.fields ++ [f] := rfl
  cases h with
  | flag bit n desc htype => exact ⟨f, by rw [hlast, List.getLast?_concat], htype⟩
  | _ => simp [Call.Accepted, hlast]

theorem effect_grown {c : Call} (h : Sets f.type c) :
    c.effect (grown b p f) = grown b p (c.onField f) := by
  cases h <;> simp [grown, Call.effect, Call.startsPacket, Call.onPacket, Call.addsField,
    Call.onInfo, Call.onOrder, Call.onDescription, List.modifyLast_concat]

theorem part_onField {α : Type} (part : Field → α) (hpart : ∀ f, part (asAdded f) = part f)
    (c : Call) (f : Field) : part (c.onField f) = part f := by
  rw [← hpart, asAdded_onField, hpart]

theorem type_onField (c : Call) (f : Field) : (c.onField f).type = f.type :=
  part_onField Field.type (fun _ => rfl) c f

theorem runs_sets (h : ∀ c ∈ calls, Sets f.type c) :
    Runs (grown b p f) calls (grown b p (finalField (f, calls))) := by
  induction calls generalizing f with
  | nil => exact .nil
  | cons c calls ih =>
    rw [List.forall_mem_cons] at h
    refine .cons (accepted_grown h.1) ?_
    rw [effect_grown h.1]
    exact ih (by rw [type_onField]; exact h.2)

theorem sets_setting (h : Expressible f) : ∀ c ∈ setting f, Sets (asAdded f).type c := by
  intro c hc
  simp only [setting, List.mem_append, List.mem_cons, List.mem_map, Option.mem_toList,
    Option.map_eq_some_iff] at hc
  rcases hc with (⟨s, -, rfl⟩ | ⟨u, -, rfl⟩) | rfl | ⟨flag, hflag, rfl⟩
  · exact .scaled _ _
  · exact .unit _
  · exact .fieldDescription _
  · exact .flag _ _ _ (h.flags (List.ne_nil_of_mem hflag))

theorem foldl_flags (hflags : ∀ flag ∈ flags, f.type = .bitfield) :
    (flags.map fun flag => Call.flag flag.bit flag.name flag.description).foldl
      (fun f c => c.onField f) f = { f with bitFlags := f.bitFlags ++ flags } := by
  induction flags generalizing f with
  | nil => simp
  | cons flag flags ih =>
    rw [List.forall_mem_cons] at hflags
    rw [List.map_cons, List.foldl_cons, onField_flag_of_eq hflags.1]
    have hrest := ih (f := { f with bitFlags := f.bitFlags ++ [flag] }) hflags.2
    rwa [List.append_assoc] at hrest

theorem finalField_setting (h : Expressible f) : finalField (asAdded f, setting f) = f := by
  obtain ⟨name, type, arraySize, stringSize, bitCount, scaling, unit, description, bitFlags,
    constraints⟩ := f
  have hflags : ∀ flag ∈ bitFlags, type = .bitfield := fun flag hflag =>
    h.flags (List.ne_nil_of_mem hflag)
  rw [finalField, setting, List.foldl_append, List.foldl_cons]
  cases scaling <;> cases unit <;> exact foldl_flags hflags

theorem runs_fieldCalls (h : Expressible f) (b : SchemaBuilder) (p : Packet) :
    Runs { b with currentPacket_ := some p } (fieldCalls f) (grown b p f) := by
  have hadds := addsField_adding h
  refine .cons ((accepted_iff_of_addsField hadds _).mpr nofun) ?_
  rw [effect_of_addsField hadds]
  have hrun := runs_sets (b := b) (p := p) (sets_setting h)
  rwa [finalField_setting h] at hrun

theorem runs_fields {fs : List Field} (h : ∀ f ∈ fs, Expressible f) (b : SchemaBuilder)
    (p : Packet) : Runs { b with currentPacket_ := some p } (fs.flatMap fieldCalls)
      { b with currentPacket_ := some { p with fields := p.fields ++ fs } } := by
  induction fs generalizing p with
  | nil =>
    rw [List.append_nil]
    exact .nil
  | cons f fs ih =>
    rw [List.forall_mem_cons] at h
    have hrest := ih h.2 { p with fields := p.fields ++ [f] }
    rw [List.append_assoc] at hrest
    exact (runs_fieldCalls h.1 b p).append hrest

def packetCalls (p : Packet) : List Call :=
  .packet p.id p.name :: .packetDescription p.description :: p.fields.flatMap fieldCalls

theorem runs_packetCalls (h : ∀ f ∈ p.fields, Expressible f) (b : SchemaBuilder) :
    Runs b (packetCalls p) { b.finishCurrentPacket with currentPacket_ := some p } := by
  refine .cons trivial (.cons nofun ?_)
  exact runs_fields h b.finishCurrentPacket
    { id := p.id, name := p.name, description := p.description }

theorem runs_packets {ps : List Packet} (h : ∀ p ∈ ps, ∀ f ∈ p.fields, Expressible f)
    (b : SchemaBuilder) : ∃ b', Runs b (ps.flatMap packetCalls) b' ∧
      b'.finishCurrentPacket.packets_ = b.finishCurrentPacket.packets_ ++ ps ∧
      b'.info_ = b.info_ ∧ b'.byteOrder_ = b.byteOrder_ := by
  induction ps generalizing b with
  | nil => exact ⟨b, .nil, by simp, rfl, rfl⟩
  | cons p ps ih =>
    rw [List.forall_mem_cons] at h
    obtain ⟨b', hruns, hpackets, hinfo, horder⟩ :=
      ih h.2 { b.finishCurrentPacket with currentPacket_ := some p }
    refine ⟨b', (runs_packetCalls h.1 b).append hruns, ?_, ?_, ?_⟩
    · rw [hpackets]
      simp [finishCurrentPacket]
    · rw [hinfo, info_finishCurrentPacket]
    · rw [horder, byteOrder_finishCurrentPacket]

def schemaCalls (s : Schema) : List Call :=
  .name s.info.name :: .version s.info.version :: .description s.info.description ::
    .byteOrder s.byteOrder :: s.packets.flatMap packetCalls

/-- The schemas hold the same; the indices follow from the packets. -/
structure SameContent (s s' : Schema) : Prop where
  info : s.info = s'.info
  byteOrder : s.byteOrder = s'.byteOrder
  packets : s.packets = s'.packets

theorem expressible_added {c : Call} (h : c.addsField = some f) : Expressible f := by
  cases c <;> cases h <;> exact ⟨rfl, rfl, by simp, by simp, by simp [FlagsOnBitfield]⟩

theorem expressible_onField (h : Expressible f) (c : Call) : Expressible (c.onField f) where
  arraySize := by
    rw [← h.arraySize]
    exact part_onField (·.arraySize) (fun _ => rfl) c f
  constraints := by
    rw [← h.constraints]
    exact part_onField (·.constraints) (fun _ => rfl) c f
  bitCount := by
    rw [part_onField (·.bitCount) (fun _ => rfl) c f, type_onField]
    exact h.bitCount
  stringSize := by
    rw [part_onField (·.stringSize) (fun _ => rfl) c f, type_onField]
    exact h.stringSize
  flags := flagsOnBitfield_onField h.flags c

theorem expressible_finalField {seg : Field × List Call} (h : Expressible seg.1) :
    Expressible (finalField seg) := by
  obtain ⟨f, calls⟩ := seg
  induction calls generalizing f with
  | nil => exact h
  | cons c calls ih => exact ih (c.onField f) (expressible_onField h c)

theorem expressible_of_built {s : Schema} (h : BuiltAsCalled calls s) :
    ∀ p ∈ s.packets, ∀ f ∈ p.fields, Expressible f := by
  intro p hp f hf
  rw [h.packets] at hp
  obtain ⟨seg, -, rfl⟩ := List.mem_map.mp hp
  obtain ⟨seg', hseg', rfl⟩ := List.mem_map.mp hf
  obtain ⟨c, -, hc⟩ := exists_start_of_mem hseg'
  exact expressible_finalField (expressible_added hc)

theorem runs_schemaCalls {s : Schema} (h : ∀ p ∈ s.packets, ∀ f ∈ p.fields, Expressible f) :
    ∃ b, Runs {} (schemaCalls s) b ∧ SameContent b.build s := by
  obtain ⟨b, hruns, hpackets, hinfo, horder⟩ :=
    runs_packets h { info_ := s.info, byteOrder_ := s.byteOrder }
  refine ⟨b, .cons trivial (.cons trivial (.cons trivial (.cons trivial hruns))), ?_, ?_, ?_⟩
  · rw [build, Schema.info_foldl_addPacket]
    exact (info_finishCurrentPacket b).trans hinfo
  · rw [build, Schema.byteOrder_foldl_addPacket]
    exact (byteOrder_finishCurrentPacket b).trans horder
  · rw [build, Schema.packets_foldl_addPacket]
    exact hpackets

theorem expressible_of_calls {s : Schema} (h : SameContent (run calls).build s) :
    ∀ p ∈ s.packets, ∀ f ∈ p.fields, Expressible f := by
  rw [← h.packets]
  exact expressible_of_built (builtAsCalled calls)

theorem exists_calls {s : Schema} (h : ∀ p ∈ s.packets, ∀ f ∈ p.fields, Expressible f) :
    ∃ calls, (∀ pre c post, calls = pre ++ c :: post → ¬c.Throws (run pre)) ∧
      SameContent (run calls).build s := by
  obtain ⟨b, hruns, hsame⟩ := runs_schemaCalls h
  refine ⟨schemaCalls s, fun pre c post hcalls => hruns.not_throws hcalls, ?_⟩
  rwa [run, hruns.eq]

/-- Any calls, those that throw included, build schemas of expressible fields
only, and each of these is built without a call that throws. -/
theorem expressible_iff (s : Schema) :
    ((∃ calls, SameContent (run calls).build s) ↔
      ∀ p ∈ s.packets, ∀ f ∈ p.fields, Expressible f) ∧
    ((∀ p ∈ s.packets, ∀ f ∈ p.fields, Expressible f) →
      ∃ calls, (∀ pre c post, calls = pre ++ c :: post → ¬c.Throws (run pre)) ∧
        SameContent (run calls).build s) := by
  refine ⟨⟨?_, fun h => ?_⟩, exists_calls⟩
  · rintro ⟨calls, hsame⟩
    exact expressible_of_calls hsame
  · obtain ⟨calls, -, hsame⟩ := exists_calls h
    exact ⟨calls, hsame⟩

/-- The entry says nothing that the builder has no method for. -/
structure Plain (ir : IRField) : Prop where
  min : ir.constraints.min = none
  max : ir.constraints.max = none
  bitCount : ir.bitCount ≠ none → ir.type = "bitfield"
  size : ir.size ≠ none → ir.type = "string"
  bitFlags : ir.bitFlags ≠ [] → ir.type = "bitfield"

theorem expressible_fieldOf_iff {ir : IRField} {type : DataType}
    (htype : ir.type = dataTypeToString type) :
    Expressible (fieldOf ir type) ↔ Plain ir := by
  have hbitfield : ir.type = "bitfield" ↔ type = .bitfield := type_eq_iff htype .bitfield
  have hstring : ir.type = "string" ↔ type = .string := type_eq_iff htype .string
  constructor
  · intro h
    have hconstraints := h.constraints
    rw [fieldOf, Constraints.mk.injEq] at hconstraints
    refine ⟨hconstraints.1, hconstraints.2, fun hbits => hbitfield.mpr (h.bitCount hbits),
      fun hsize => hstring.mpr ?_, fun hflags => hbitfield.mpr (h.flags ?_)⟩
    · by_contra hne
      have hnone := h.arraySize
      rw [fieldOf, if_neg hne] at hnone
      exact hsize hnone
    · simpa [fieldOf] using hflags
  · rintro ⟨hmin, hmax, hbits, hsize, hflags⟩
    refine ⟨?_, ?_, fun h => hbitfield.mp (hbits h), fun h => ?_, fun h => ?_⟩
    · by_cases hs : type = .string
      · simp [fieldOf, hs]
      · have hnone : ir.size = none := by
          by_contra hsome
          exact hs (hstring.mp (hsize hsome))
        simp [fieldOf, hnone]
    · simp [fieldOf, hmin, hmax]
    · by_contra hne
      simp only [fieldOf] at hne
      simp [fieldOf, hne] at h
    · exact hbitfield.mp (hflags (by simpa [fieldOf] using h))

theorem expressible_iff_plain {ir : IRSchema} {s : Schema} (h : buildSchema ir = .ok s) :
    (∀ p ∈ s.packets, ∀ f ∈ p.fields, Expressible f) ↔
      ∀ irPacket ∈ ir.packets, ∀ irField ∈ irPacket.fields, Plain irField := by
  rw [forall_fields_iff h]
  refine forall₄_congr fun irPacket hirPacket irField hirField => ?_
  obtain ⟨f, hf⟩ := exists_buildField h hirPacket hirField
  obtain ⟨type, -, htype, rfl⟩ := buildField_eq_ok_iff.mp hf
  rw [← expressible_fieldOf_iff htype]
  constructor
  · exact fun hall => hall _ hf
  · intro hexpressible f' hf'
    cases hf.symm.trans hf'
    exact hexpressible

/-- An accepted configuration can be replaced by calls to the builder exactly when
it says nothing that the builder has no method for. -/
theorem configured_expressible_iff {ir : IRSchema} {s : Schema} (h : buildSchema ir = .ok s) :
    (∃ calls, (∀ pre c post, calls = pre ++ c :: post → ¬c.Throws (run pre)) ∧
      SameContent (run calls).build s) ↔
        ∀ irPacket ∈ ir.packets, ∀ irField ∈ irPacket.fields, Plain irField := by
  constructor
  · rintro ⟨calls, -, hsame⟩
    exact (expressible_iff_plain h).mp (expressible_of_calls hsame)
  · intro hplain
    exact exists_calls ((expressible_iff_plain h).mpr hplain)

def thermometer : IRSchema where
  packets := [{ id := 1, name := "thermometer",
                fields := [{ name := "degrees", type := "int8", unit := "C" }] }]

theorem configured_expressible_iff_thermometer : ∃ s, buildSchema thermometer = .ok s ∧
    ∃ calls, (∀ pre c post, calls = pre ++ c :: post → ¬c.Throws (run pre)) ∧
      SameContent (run calls).build s := by
  have hbuilds : ∃ s, buildSchema thermometer = .ok s := ⟨_, rfl⟩
  obtain ⟨s, hs⟩ := hbuilds
  refine ⟨s, hs, (configured_expressible_iff hs).mpr ?_⟩
  simp only [thermometer, List.forall_mem_singleton]
  exact ⟨rfl, rfl, by simp, by simp, by simp⟩

end IONet.SchemaBuilder
