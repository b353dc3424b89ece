import IONet.Lib.Segments
import IONet.Schema.BuilderCalls

namespace IONet.SchemaBuilder

open IONet.Core Lib.Segments

/-- The calls one after the other; what is thrown is caught. -/
def runFrom (b : SchemaBuilder) (calls : List Call) : SchemaBuilder :=
  calls.foldl (fun b c => c.after b) b

def run (calls : List Call) : SchemaBuilder := runFrom {} calls

theorem runFrom_cons (b : SchemaBuilder) (c : Call) (calls : List Call) :
    runFrom b (c :: calls) = runFrom (c.effect b) calls := by
  rw [runFrom, List.foldl_cons, c.after_eq, runFrom]

/-- A field as it was added, and the calls up to the next field. -/
def finalField (s : Field × List Call) : Field := s.2.foldl (fun f c => c.onField f) s.1

/-- The arguments of a `packet` call, and the calls up to the next packet. -/
def finalPacket (s : (UInt32 × String) × List Call) : Packet where
  id := s.1.1
  name := s.1.2
  description := s.2.foldl (fun desc c => c.onDescription desc) ""
  fields := (segments Call.addsField s.2).2.map finalField

def extended (p : Packet) (calls : List Call) : Packet where
  id := p.id
  name := p.name
  description := calls.foldl (fun desc c => c.onDescription desc) p.description
  fields := p.fields.modifyLast (fun f => finalField (f, (segments Call.addsField calls).1)) ++
    (segments Call.addsField calls).2.map finalField

theorem extended_nil (p : Packet) : extended p [] = p := by
  have hfields : p.fields.modifyLast (fun f => finalField (f, [])) = p.fields :=
    modifyLast_self p.fields
  simp [extended, segments, hfields]

theorem extended_fresh (s : (UInt32 × String) × List Call) :
    extended { id := s.1.1, name := s.1.2 } s.2 = finalPacket s := rfl

theorem modifyLast_modifyLast {α : Type} (f g : α → α) (xs : List α) :
    (xs.modifyLast f).modifyLast g = xs.modifyLast fun x => g (f x) := by
  rcases List.eq_nil_or_concat xs with rfl | ⟨ys, y, rfl⟩
  · rfl
  · rw [List.concat_eq_append, List.modifyLast_concat, List.modifyLast_concat,
      List.modifyLast_concat]

theorem extended_cons (c : Call) (p : Packet) (calls : List Call) :
    extended (c.onPacket p) calls = extended p (c :: calls) := by
  unfold extended Call.onPacket
  cases hadds : c.addsField with
  | none => simp [segments_cons_none hadds, modifyLast_modifyLast, finalField]
  | some f =>
    have hsame : p.fields.modifyLast (fun f => finalField (f, [])) = p.fields :=
      modifyLast_self p.fields
    simp [segments_cons_some hadds, List.modifyLast_concat, hsame]

theorem packets_runFrom (b : SchemaBuilder) (calls : List Call) :
    (runFrom b calls).finishCurrentPacket.packets_ = b.packets_ ++
      (b.currentPacket_.map (extended · (segments Call.startsPacket calls).1)).toList ++
        (segments Call.startsPacket calls).2.map finalPacket := by
  induction calls generalizing b with
  | nil =>
    simp only [runFrom, List.foldl_nil, segments, List.map_nil, List.append_nil,
      finishCurrentPacket]
    cases b.currentPacket_ with
    | none => simp
    | some p => simp [extended_nil]
  | cons c calls ih =>
    rw [runFrom_cons, ih]
    cases hstart : c.startsPacket with
    | none =>
      rw [segments_cons_none hstart]
      simp only [Call.effect, hstart, Option.map_map, Function.comp_def, extended_cons]
    | some start =>
      rw [segments_cons_some hstart]
      obtain ⟨id, n⟩ := start
      simp only [Call.effect, hstart, Option.map_some, Option.toList_some, List.map_cons,
        finishCurrentPacket]
      rw [← extended_fresh]
      cases b.currentPacket_ <;> simp [extended_nil]

@[simp] theorem info_finishCurrentPacket (b : SchemaBuilder) :
    b.finishCurrentPacket.info_ = b.info_ := by
  unfold finishCurrentPacket
  cases b.currentPacket_ <;> rfl

@[simp] theorem byteOrder_finishCurrentPacket (b : SchemaBuilder) :
    b.finishCurrentPacket.byteOrder_ = b.byteOrder_ := by
  unfold finishCurrentPacket
  cases b.currentPacket_ <;> rfl

theorem info_effect (c : Call) (b : SchemaBuilder) : (c.effect b).info_ = c.onInfo b.info_ := by
  cases c <;> simp [Call.effect, Call.startsPacket, Call.onInfo]

theorem byteOrder_effect (c : Call) (b : SchemaBuilder) :
    (c.effect b).byteOrder_ = c.onOrder b.byteOrder_ := by
  cases c <;> simp [Call.effect, Call.startsPacket, Call.onOrder]

theorem part_runFrom {β : Type} {part : SchemaBuilder → β} {on : Call → β → β}
    (hstep : ∀ c b, part (c.effect b) = on c (part b)) (b : SchemaBuilder) (calls : List Call) :
    part (runFrom b calls) = calls.foldl (fun x c => on c x) (part b) := by
  induction calls generalizing b with
  | nil => rfl
  | cons c calls ih => rw [runFrom_cons, ih, hstep, List.foldl_cons]

theorem info_runFrom (b : SchemaBuilder) (calls : List Call) :
    (runFrom b calls).info_ = calls.foldl (fun info c => c.onInfo info) b.info_ :=
  part_runFrom info_effect b calls

theorem byteOrder_runFrom (b : SchemaBuilder) (calls : List Call) :
    (runFrom b calls).byteOrder_ = calls.foldl (fun order c => c.onOrder order) b.byteOrder_ :=
  part_runFrom byteOrder_effect b calls

def asAdded (f : Field) : Field :=
  { f with scaling := none, unit := none, description := "", bitFlags := [] }

theorem asAdded_onField (c : Call) (f : Field) : asAdded (c.onField f) = asAdded f := by
  cases c with
  | flag bit n desc =>
    by_cases htype : f.type = .bitfield
    · rw [onField_flag_of_eq htype]
      rfl
    · rw [onField_flag_of_ne htype]
  | _ => rfl

theorem asAdded_finalField (s : Field × List Call) : asAdded (finalField s) = asAdded s.1 := by
  obtain ⟨f, calls⟩ := s
  induction calls generalizing f with
  | nil => rfl
  | cons c calls ih => exact (ih (c.onField f)).trans (asAdded_onField c f)

theorem asAdded_of_addsField {c : Call} {f : Field} (h : c.addsField = some f) : asAdded f = f := by
  cases c <;> cases h <;> rfl

theorem fields_finalPacket (s : (UInt32 × String) × List Call) :
    (finalPacket s).fields.map asAdded = s.2.filterMap Call.addsField := by
  rw [← map_fst_segments, finalPacket, List.map_map]
  apply List.map_congr_left
  intro seg hseg
  obtain ⟨c, -, hc⟩ := exists_start_of_mem hseg
  exact (asAdded_finalField seg).trans (asAdded_of_addsField hc)

def FlagsOnBitfield (f : Field) : Prop := f.bitFlags ≠ [] → f.type = .bitfield

theorem flagsOnBitfield_onField {f : Field} (h : FlagsOnBitfield f) (c : Call) :
    FlagsOnBitfield (c.onField f) := by
  cases c with
  | flag bit n desc =>
    by_cases htype : f.type = .bitfield
    · rw [onField_flag_of_eq htype]
      exact fun _ => htype
    · rwa [onField_flag_of_ne htype]
  | _ => exact h

theorem flagsOnBitfield_finalField {s : Field × List Call} (h : FlagsOnBitfield s.1) :
    FlagsOnBitfield (finalField s) := by
  obtain ⟨f, calls⟩ := s
  induction calls generalizing f with
  | nil => exact h
  | cons c calls ih => exact ih (c.onField f) (flagsOnBitfield_onField h c)

theorem flagsOnBitfield_finalPacket (s : (UInt32 × String) × List Call) :
    ∀ f ∈ (finalPacket s).fields, FlagsOnBitfield f := by
  intro f hf
  obtain ⟨seg, hseg, rfl⟩ := List.mem_map.mp hf
  apply flagsOnBitfield_finalField
  obtain ⟨c, -, hc⟩ := exists_start_of_mem hseg
  rw [← asAdded_of_addsField hc]
  exact fun hne => absurd rfl hne

theorem currentPacket_runFrom (b : SchemaBuilder) (calls : List Call) :
    (runFrom b calls).currentPacket_ = none ↔
      b.currentPacket_ = none ∧ calls.filterMap Call.startsPacket = [] := by
  induction calls generalizing b with
  | nil => simp [runFrom]
  | cons c calls ih =>
    rw [runFrom_cons, ih]
    cases hstart : c.startsPacket with
    | none => simp [Call.effect, hstart]
    | some start => simp [Call.effect, hstart]

theorem accepted_iff_of_addsField {c : Call} {f : Field} (h : c.addsField = some f)
    (b : SchemaBuilder) : c.Accepted b ↔ b.currentPacket_ ≠ none := by
  cases c <;> cases h <;> rfl

theorem currentFields_after_of_addsField {c : Call} {f : Field} (h : c.addsField = some f)
    {b : SchemaBuilder} (hcurrent : b.currentPacket_ ≠ none) :
    (c.after b).currentFields = b.currentFields ++ [f] := by
  obtain ⟨p, hp⟩ := Option.ne_none_iff_exists'.mp hcurrent
  have hstart : c.startsPacket = none := by cases c <;> first | rfl | cases h
  rw [c.after_eq, Call.effect, hstart]
  simp [currentFields, hp, Call.onPacket, h]

theorem run_append_cons_of_throws {pre : List Call} {c : Call} (h : c.Throws (run pre))
    (post : List Call) : run (pre ++ c :: post) = run (pre ++ post) := by
  have hsame : c.after (runFrom {} pre) = runFrom {} pre := c.after_of_throws h
  unfold run runFrom at *
  rw [List.foldl_append, List.foldl_cons, hsame, List.foldl_append]

/-- The schema that a sequence of calls stands for. -/
structure BuiltAsCalled (calls : List Call) (s : Schema) : Prop where
  info : s.info = calls.foldl (fun info c => c.onInfo info) {}
  byteOrder : s.byteOrder = calls.foldl (fun order c => c.onOrder order) .big
  packets : s.packets = (segments Call.startsPacket calls).2.map finalPacket
  started : s.packets.map (fun p => (p.id, p.name)) = calls.filterMap Call.startsPacket
  added : ∀ seg ∈ (segments Call.startsPacket calls).2,
    (finalPacket seg).fields.map asAdded = seg.2.filterMap Call.addsField
  flags : ∀ p ∈ s.packets, ∀ f ∈ p.fields, FlagsOnBitfield f

theorem builtAsCalled (calls : List Call) : BuiltAsCalled calls (run calls).build := by
  have hpackets : (run calls).build.packets =
      (segments Call.startsPacket calls).2.map finalPacket := by
    rw [build, Schema.packets_foldl_addPacket]
    exact packets_runFrom {} calls
  refine ⟨?_, ?_, hpackets, ?_, fun seg _ => fields_finalPacket seg, ?_⟩
  · rw [build, Schema.info_foldl_addPacket]
    exact (info_finishCurrentPacket _).trans (info_runFrom {} calls)
  · rw [build, Schema.byteOrder_foldl_addPacket]
    exact (byteOrder_finishCurrentPacket _).trans (byteOrder_runFrom {} calls)
  · rw [hpackets, ← map_fst_segments, List.map_map]
    rfl
  · intro p hp
    rw [hpackets] at hp
    obtain ⟨seg, -, rfl⟩ := List.mem_map.mp hp
    exact flagsOnBitfield_finalPacket seg

/-- A call that neither starts a packet nor adds a field reaches, of all fields,
the last one of the packet under construction. -/
structure ReachesLast (c : Call) (b : SchemaBuilder) : Prop where
  finished : (c.after b).packets_ = b.packets_
  current : (c.after b).currentFields = b.currentFields.modifyLast c.onField

theorem reachesLast {c : Call} (hstart : c.startsPacket = none) (hadds : c.addsField = none)
    (b : SchemaBuilder) : ReachesLast c b := by
  constructor
  · rw [c.after_eq, Call.effect, hstart]
  · rw [c.after_eq, Call.effect, hstart, currentFields, currentFields]
    cases b.currentPacket_ with
    | none => rfl
    | some p => simp [Call.onPacket, hadds]

/-- The builder builds what was called.  A call throws when what it needs is
missing, and then it might as well not have been made. -/
theorem builds_as_called :
    (∀ calls, BuiltAsCalled calls (run calls).build) ∧
    (∀ (c : Call) (b : SchemaBuilder), c.Throws b ↔ ¬c.Accepted b) ∧
    (∀ (pre : List Call) (c : Call) (post : List Call), c.Throws (run pre) →
      (run (pre ++ c :: post)).build = (run (pre ++ post)).build) ∧
    (∀ (pre : List Call) (c : Call) (f : Field), c.addsField = some f →
      (c.Throws (run pre) ↔ pre.filterMap Call.startsPacket = [])) ∧
    ∀ (c : Call) (b : SchemaBuilder), c.startsPacket = none → c.addsField = none →
      ReachesLast c b := by
  refine ⟨builtAsCalled, Call.throws_iff, ?_, ?_, fun c b hstart hadds =>
    reachesLast hstart hadds b⟩
  · intro pre c post h
    rw [run_append_cons_of_throws h]
  · intro pre c f hadds
    rw [c.throws_iff, accepted_iff_of_addsField hadds, not_not, run, currentPacket_runFrom]
    exact and_iff_right rfl

example : (run [.uint8 "early", .packet 1 "status", .bitfield "bits" 8, .flag 0 "ready" "",
    .uint8 "level", .flag 1 "late" "", .unit "m"]).build.packets.map
      (fun p => p.fields.map fun f => (f.name, f.bitFlags.length, f.unit)) =
    [[("bits", 1, none), ("level", 0, some "m")]] := by rfl

end IONet.SchemaBuilder
