import Mathlib.Data.List.Basic

/-! Machines that take one input after the other, and what holds of their runs:
invariants, simulations, and inputs that nobody notices. -/

universe u v w

namespace Lib.Machine

/-- What a machine puts out for an input, if anything, and its next state. -/
abbrev Step (σ : Type u) (ι : Type v) (ω : Type w) := σ → ι → Option ω × σ

variable {σ τ : Type u} {ι : Type v} {ω ω' : Type w}

def run (step : Step σ ι ω) : σ → List ι → List ω × σ
  | s, [] => ([], s)
  | s, i :: is =>
    ((step s i).1.toList ++ (run step (step s i).2 is).1, (run step (step s i).2 is).2)

theorem run_invariant {step : Step σ ι ω} {I : σ → Prop} (hstep : ∀ s i, I s → I (step s i).2)
    (is : List ι) {s : σ} (hs : I s) : I (run step s is).2 := by
  induction is generalizing s with
  | nil => exact hs
  | cons i is ih => exact ih (hstep s i hs)

/-- The first machine does what the second does, up to a relation of their
states and a reading of the outputs. -/
structure Simulates (step : Step σ ι ω) (step' : Step τ ι ω') (R : σ → τ → Prop) (g : ω' → ω)
    (P : ι → Prop) : Prop where
  output : ∀ s t i, P i → R s t → (step s i).1 = (step' t i).1.map g
  next : ∀ s t i, P i → R s t → R (step s i).2 (step' t i).2

theorem Simulates.runs {step : Step σ ι ω} {step' : Step τ ι ω'} {R : σ → τ → Prop} {g : ω' → ω}
    {P : ι → Prop} (h : Simulates step step' R g P) {is : List ι} (hP : ∀ i ∈ is, P i)
    {s : σ} {t : τ} (hR : R s t) :
    (run step s is).1 = (run step' t is).1.map g ∧ R (run step s is).2 (run step' t is).2 := by
  induction is generalizing s t with
  | nil => exact ⟨rfl, hR⟩
  | cons i is ih =>
    rw [List.forall_mem_cons] at hP
    obtain ⟨houtput, hnext⟩ := ih hP.2 (h.next s t i hP.1 hR)
    refine ⟨?_, hnext⟩
    simp only [run, List.map_append, houtput, h.output s t i hP.1 hR]
    cases (step' t i).1 <;> rfl

/-- Steps that put nothing out and leave the state related are never noticed:
the run without them puts out the same. -/
theorem Simulates.runs_filter {step : Step σ ι ω} {R : σ → σ → Prop} {P : ι → Prop}
    (visible : ι → Bool) (h : Simulates step step R id fun i => P i ∧ visible i = true)
    (hsilent : ∀ s i, P i → visible i = false → (step s i).1 = none)
    (hhidden : ∀ s t i, P i → visible i = false → R s t → R (step s i).2 t) {is : List ι}
    (hP : ∀ i ∈ is, P i) {s t : σ} (hR : R s t) :
    (run step s is).1 = (run step t (is.filter visible)).1 ∧
      R (run step s is).2 (run step t (is.filter visible)).2 := by
  induction is generalizing s t with
  | nil => exact ⟨rfl, hR⟩
  | cons i is ih =>
    rw [List.forall_mem_cons] at hP
    cases hvisible : visible i with
    | true =>
      rw [List.filter_cons_of_pos hvisible]
      obtain ⟨houtput, hnext⟩ := ih hP.2 (h.next s t i ⟨hP.1, hvisible⟩ hR)
      refine ⟨?_, hnext⟩
      simp only [run, houtput, h.output s t i ⟨hP.1, hvisible⟩ hR, Option.map_id_fun, id]
    | false =>
      rw [List.filter_cons_of_neg (by simp [hvisible])]
      obtain ⟨houtput, hnext⟩ := ih hP.2 (hhidden s t i hP.1 hvisible hR)
      refine ⟨?_, hnext⟩
      simp only [run, hsilent s i hP.1 hvisible, Option.toList_none, List.nil_append, houtput]

end Lib.Machine
