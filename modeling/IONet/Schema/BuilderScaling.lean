import IONet.Schema.BuilderTrace
import IONet.Schema.SchemaParser

namespace IONet.SchemaBuilder

open IONet.Core SchemaParserBase

namespace Call

def IsSetter : Call → Prop
  | .unit _ | .fieldDescription _ | .flag .. | .done | .scale _ | .offset _ => True
  | _ => False

def scaleArg : Call → Option Double
  | .scale s => some s
  | _ => none

def offsetArg : Call → Option Double
  | .offset o => some o
  | _ => none

def onScaling : Call → Option Scaling → Option Scaling
  | .scale s, _ => some { scale := s }
  | .offset o, scaling => some (withOffset o scaling)
  | _, scaling => scaling

def isScaling (c : Call) : Bool := c.scaleArg.isSome || c.offsetArg.isSome

end Call

/-- What a configuration with the numbers of the calls says. -/
def calledScaling (calls : List Call) : IRScaling where
  scale := (calls.filterMap Call.scaleArg).head?
  offset := (calls.filterMap Call.offsetArg).head?

section

variable {c : Call} {f : Field} {calls : List Call}

theorem startsPacket_of_isSetter (h : c.IsSetter) : c.startsPacket = none := by
  cases c <;> first | rfl | exact h.elim

theorem addsField_of_isSetter (h : c.IsSetter) : c.addsField = none := by
  cases c <;> first | rfl | exact h.elim

theorem scaling_onField (hsetter : c.IsSetter) : (c.onField f).scaling = c.onScaling f.scaling := by
  cases c with
  | flag bit n desc =>
    by_cases htype : f.type = .bitfield
    · rw [onField_flag_of_eq htype]
      rfl
    · rw [onField_flag_of_ne htype]
      rfl
  | scale s | offset o | unit u | fieldDescription desc | done => rfl
  | _ => exact hsetter.elim

theorem scaling_finalField (hsetters : ∀ c ∈ calls, c.IsSetter) :
    (finalField (f, calls)).scaling =
      calls.foldl (fun scaling c => c.onScaling scaling) f.scaling := by
  induction calls generalizing f with
  | nil => rfl
  | cons c calls ih =>
    rw [List.forall_mem_cons] at hsetters
    rw [List.foldl_cons, ← scaling_onField hsetters.1]
    exact ih hsetters.2

theorem onScaling_of_not_isScaling (h : c.isScaling = false) (hsetter : c.IsSetter)
    (scaling : Option Scaling) : c.onScaling scaling = scaling := by
  cases c <;> first | rfl | exact hsetter.elim | cases h

theorem foldl_onScaling_filter (hsetters : ∀ c ∈ calls, c.IsSetter) (scaling : Option Scaling) :
    calls.foldl (fun scaling c => c.onScaling scaling) scaling =
      (calls.filter Call.isScaling).foldl (fun scaling c => c.onScaling scaling) scaling := by
  induction calls generalizing scaling with
  | nil => rfl
  | cons c calls ih =>
    rw [List.forall_mem_cons] at hsetters
    rw [List.foldl_cons, ih hsetters.2]
    cases h : c.isScaling with
    | true => rw [List.filter_cons_of_pos h, List.foldl_cons]
    | false =>
      rw [List.filter_cons_of_neg (by simp [h]), onScaling_of_not_isScaling h hsetters.1]

theorem filterMap_scaleArg_filter (calls : List Call) :
    (calls.filter Call.isScaling).filterMap Call.scaleArg = calls.filterMap Call.scaleArg := by
  rw [List.filterMap_filter]
  apply List.filterMap_congr
  intro c _
  cases c <;> rfl

theorem filterMap_offsetArg_filter (calls : List Call) :
    (calls.filter Call.isScaling).filterMap Call.offsetArg = calls.filterMap Call.offsetArg := by
  rw [List.filterMap_filter]
  apply List.filterMap_congr
  intro c _
  cases c <;> rfl

theorem isScaling_iff (c : Call) :
    c.isScaling ↔ (∃ s, c = .scale s) ∨ ∃ o, c = .offset o := by
  constructor
  · intro h
    cases c <;> first | exact .inl ⟨_, rfl⟩ | exact .inr ⟨_, rfl⟩ | cases h
  · rintro (⟨s, rfl⟩ | ⟨o, rfl⟩) <;> rfl

theorem length_of_isScaling (honly : ∀ c ∈ calls, c.isScaling) : calls.length =
    (calls.filterMap Call.scaleArg).length + (calls.filterMap Call.offsetArg).length := by
  induction calls with
  | nil => rfl
  | cons c calls ih =>
    rw [List.forall_mem_cons] at honly
    have hcalls := ih honly.2
    rcases (isScaling_iff c).mp honly.1 with ⟨s, rfl⟩ | ⟨o, rfl⟩
    · have hs : (Call.scale s).scaleArg = some s := rfl
      have ho : (Call.scale s).offsetArg = none := rfl
      rw [List.filterMap_cons_some hs, List.filterMap_cons_none ho, List.length_cons,
        List.length_cons]
      omega
    · have hs : (Call.offset o).scaleArg = none := rfl
      have ho : (Call.offset o).offsetArg = some o := rfl
      rw [List.filterMap_cons_none hs, List.filterMap_cons_some ho, List.length_cons,
        List.length_cons]
      omega

theorem scaling_calls_cases (honly : ∀ c ∈ calls, c.isScaling)
    (hscale : (calls.filterMap Call.scaleArg).length ≤ 1)
    (hoffset : (calls.filterMap Call.offsetArg).length ≤ 1) :
    calls = [] ∨ (∃ s, calls = [.scale s]) ∨ (∃ o, calls = [.offset o]) ∨
      (∃ s o, calls = [.scale s, .offset o]) ∨ ∃ o s, calls = [.offset o, .scale s] := by
  have hlength := length_of_isScaling honly
  match calls with
  | [] => exact .inl rfl
  | [a] =>
    rcases (isScaling_iff a).mp (honly a List.mem_cons_self) with ⟨s, rfl⟩ | ⟨o, rfl⟩
    · exact .inr (.inl ⟨s, rfl⟩)
    · exact .inr (.inr (.inl ⟨o, rfl⟩))
  | [a, a'] =>
    rcases (isScaling_iff a).mp (honly a (by simp)) with ⟨s, rfl⟩ | ⟨o, rfl⟩ <;>
      rcases (isScaling_iff a').mp (honly a' (by simp)) with ⟨s', rfl⟩ | ⟨o', rfl⟩
    · simp [Call.scaleArg] at hscale
    · exact .inr (.inr (.inr (.inl ⟨s, o', rfl⟩)))
    · exact .inr (.inr (.inr (.inr ⟨o, s', rfl⟩)))
    · simp [Call.offsetArg] at hoffset
  | a :: a' :: a'' :: rest =>
    simp only [List.length_cons] at hlength
    omega

theorem pair_sublist_pair_iff {a a' c c' : Call} : [a, a'].Sublist [c, c'] ↔ a = c ∧ a' = c' := by
  constructor
  · intro hsub
    simpa using hsub.eq_of_length rfl
  · rintro ⟨rfl, rfl⟩
    exact .refl _

theorem pair_sublist_filter_iff (calls : List Call) (o s : Double) :
    [Call.offset o, Call.scale s].Sublist (calls.filter Call.isScaling) ↔
      [Call.offset o, Call.scale s].Sublist calls :=
  ⟨fun h => h.trans List.filter_sublist, fun h => h.filter Call.isScaling⟩

theorem scaling_finalField_iff (hnone : f.scaling = none) (hsetters : ∀ c ∈ calls, c.IsSetter)
    (hscale : (calls.filterMap Call.scaleArg).length ≤ 1)
    (hoffset : (calls.filterMap Call.offsetArg).length ≤ 1) :
    (finalField (f, calls)).scaling = buildScaling (calledScaling calls) ↔
      ∀ o s, [Call.offset o, Call.scale s].Sublist calls → o = Double.ofInt 0 := by
  rw [scaling_finalField hsetters, hnone, foldl_onScaling_filter hsetters, calledScaling,
    ← filterMap_scaleArg_filter, ← filterMap_offsetArg_filter]
  simp only [← pair_sublist_filter_iff calls]
  rw [← filterMap_scaleArg_filter] at hscale
  rw [← filterMap_offsetArg_filter] at hoffset
  have honly : ∀ c ∈ calls.filter Call.isScaling, c.isScaling := fun c hc =>
    (List.mem_filter.mp hc).2
  rcases scaling_calls_cases honly hscale hoffset with
    h | ⟨s, h⟩ | ⟨o, h⟩ | ⟨s, o, h⟩ | ⟨o, s, h⟩ <;> rw [h]
  · simp [buildScaling]
  · simp [Call.scaleArg, Call.offsetArg, buildScaling, Call.onScaling]
  · simp [Call.scaleArg, Call.offsetArg, buildScaling, Call.onScaling, Call.withOffset]
  · have hoffset : [Call.scale s, Call.offset o].filterMap Call.offsetArg = [o] := rfl
    have hscale : [Call.scale s, Call.offset o].filterMap Call.scaleArg = [s] := rfl
    simp [hoffset, hscale, buildScaling, Call.onScaling, Call.withOffset, pair_sublist_pair_iff]
  · have hoffset : [Call.offset o, Call.scale s].filterMap Call.offsetArg = [o] := rfl
    have hscale : [Call.offset o, Call.scale s].filterMap Call.scaleArg = [s] := rfl
    have hlost : some ({ scale := s } : Scaling) = some { scale := s, offset := o } ↔
        o = Double.ofInt 0 := by
      simp [eq_comm]
    simpa [hoffset, hscale, buildScaling, Call.onScaling, pair_sublist_pair_iff] using hlost

theorem currentFields_runFrom_setters {b : SchemaBuilder} {fs : List Field}
    (hlast : b.currentFields = fs ++ [f]) (hsetters : ∀ c ∈ calls, c.IsSetter) :
    (runFrom b calls).currentFields = fs ++ [finalField (f, calls)] := by
  induction calls generalizing b f with
  | nil => exact hlast
  | cons c calls ih =>
    rw [List.forall_mem_cons] at hsetters
    have hcurrent := (reachesLast (startsPacket_of_isSetter hsetters.1)
      (addsField_of_isSetter hsetters.1) b).current
    rw [hlast, List.modifyLast_concat] at hcurrent
    exact ih hcurrent hsetters.2

theorem currentFields_run_added {pre : List Call} {add : Call} (hadds : add.addsField = some f)
    (hstarted : pre.filterMap Call.startsPacket ≠ []) (hsetters : ∀ c ∈ calls, c.IsSetter) :
    (run (pre ++ add :: calls)).currentFields =
      (run pre).currentFields ++ [finalField (f, calls)] := by
  have hrun : run (pre ++ add :: calls) = runFrom (add.after (run pre)) calls := by
    rw [run, runFrom, List.foldl_append, List.foldl_cons]
    rfl
  have hcurrent : (run pre).currentPacket_ ≠ none := fun hnone =>
    hstarted ((currentPacket_runFrom {} pre).mp hnone).2
  rw [hrun]
  exact currentFields_runFrom_setters (currentFields_after_of_addsField hadds hcurrent) hsetters

end

/-- The builder scales a field as a configuration does as long as no offset is
set before the scale, for `scale` sets the offset as well. -/
theorem scaling_as_configured_iff {pre : List Call} {add : Call} {f : Field} {calls : List Call}
    (hstarted : pre.filterMap Call.startsPacket ≠ []) (hadds : add.addsField = some f)
    (hsetters : ∀ c ∈ calls, c.IsSetter) (hscale : (calls.filterMap Call.scaleArg).length ≤ 1)
    (hoffset : (calls.filterMap Call.offsetArg).length ≤ 1) :
    (∃ built, (run (pre ++ add :: calls)).currentFields = (run pre).currentFields ++ [built] ∧
      ∀ (ir : IRField) (field : Field), ir.scaling = calledScaling calls →
        buildField ir = .ok field →
          (built.scaling = field.scaling ↔
            ∀ o s, [Call.offset o, Call.scale s].Sublist calls → o = Double.ofInt 0)) ∧
    ∀ s o, (run (pre ++ [add, .scale s, .offset o])).currentFields =
      (run (pre ++ [add, .offset o, .scale s])).currentFields ↔ o = Double.ofInt 0 := by
  have hfresh : f.scaling = none := by
    rw [← asAdded_of_addsField hadds]
    rfl
  constructor
  · refine ⟨_, currentFields_run_added hadds hstarted hsetters, fun ir field hir hfield => ?_⟩
    obtain ⟨type, -, -, rfl⟩ := buildField_eq_ok_iff.mp hfield
    rw [fieldOf, hir]
    exact scaling_finalField_iff hfresh hsetters hscale hoffset
  · intro s o
    have hpair : ∀ c c' : Call, c.IsSetter → c'.IsSetter → ∀ a ∈ [c, c'], a.IsSetter := by
      intro c c' hc hc'
      simp [hc, hc']
    rw [currentFields_run_added hadds hstarted (hpair (.scale s) (.offset o) trivial trivial),
      currentFields_run_added hadds hstarted (hpair (.offset o) (.scale s) trivial trivial),
      List.append_cancel_left_eq, List.singleton_inj]
    simp [finalField, Call.onField, Call.withOffset]

def centidegrees : IRField where
  name := "temperature"
  type := "int16"
  scaling := { scale := some (Double.ofRat (1 / 100)), offset := some (Double.ofInt (-40)) }

theorem scaling_as_configured_iff_centidegrees : ∃ built field,
    (run [.packet 4 "ScaledPacket", .int16 "temperature", .scale (Double.ofRat (1 / 100)),
      .unit "°C", .offset (Double.ofInt (-40))]).currentFields = [built] ∧
    buildField centidegrees = .ok field ∧ built.scaling = field.scaling := by
  have hfield : buildField centidegrees = .ok (fieldOf centidegrees .int16) :=
    buildField_eq_ok_iff.mpr ⟨.int16, by decide, rfl, rfl⟩
  have hstarted : [Call.packet 4 "ScaledPacket"].filterMap Call.startsPacket ≠ [] :=
    List.cons_ne_nil _ _
  have hadds : (Call.int16 "temperature").addsField =
      some { name := "temperature", type := .int16 } := rfl
  have hsetters : ∀ c ∈ [Call.scale (Double.ofRat (1 / 100)), .unit "°C",
      .offset (Double.ofInt (-40))], c.IsSetter := by
    simp [Call.IsSetter]
  obtain ⟨⟨built, hbuilt, hiff⟩, -⟩ :=
    scaling_as_configured_iff hstarted hadds hsetters (Nat.le_refl 1) (Nat.le_refl 1)
  refine ⟨built, _, hbuilt, hfield, (hiff _ _ rfl hfield).mpr fun o s hsub => ?_⟩
  rw [← pair_sublist_filter_iff] at hsub
  cases (pair_sublist_pair_iff.mp hsub).1

/-- The offset first, and it is gone. -/
theorem offset_lost : ∃ built field,
    (run [.packet 4 "ScaledPacket", .int16 "temperature", .offset (Double.ofInt (-40)),
      .scale (Double.ofRat (1 / 100))]).currentFields = [built] ∧
    buildField centidegrees = .ok field ∧
    built.scaling = some { scale := Double.ofRat (1 / 100), offset := Double.ofInt 0 } ∧
    field.scaling = some { scale := Double.ofRat (1 / 100), offset := Double.ofInt (-40) } ∧
    built.scaling ≠ field.scaling := by
  have hfield : buildField centidegrees = .ok (fieldOf centidegrees .int16) :=
    buildField_eq_ok_iff.mpr ⟨.int16, by decide, rfl, rfl⟩
  refine ⟨_, _, rfl, hfield, rfl, rfl, ?_⟩
  decide +kernel

end IONet.SchemaBuilder
