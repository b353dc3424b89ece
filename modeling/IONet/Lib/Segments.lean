import Mathlib.Data.List.Basic

universe u v

namespace Lib.Segments

variable {κ : Type u} {α : Type v}

/-- The items before the first start, and each start with the items up to the
next one. -/
def segments (start : κ → Option α) : List κ → List κ × List (α × List κ)
  | [] => ([], [])
  | c :: cs =>
    match start c with
    | none => (c :: (segments start cs).1, (segments start cs).2)
    | some a => ([], (a, (segments start cs).1) :: (segments start cs).2)

variable {start : κ → Option α} {c : κ} {cs : List κ}

theorem segments_cons_none (h : start c = none) : segments start (c :: cs) =
    (c :: (segments start cs).1, (segments start cs).2) := by
  rw [segments, h]

theorem segments_cons_some {a : α} (h : start c = some a) : segments start (c :: cs) =
    ([], (a, (segments start cs).1) :: (segments start cs).2) := by
  rw [segments, h]

theorem map_fst_segments (start : κ → Option α) (cs : List κ) :
    (segments start cs).2.map Prod.fst = cs.filterMap start := by
  induction cs with
  | nil => rfl
  | cons c cs ih =>
    cases h : start c with
    | none => rw [segments_cons_none h, List.filterMap_cons_none h, ih]
    | some a => rw [segments_cons_some h, List.filterMap_cons_some h, List.map_cons, ih]

theorem exists_start_of_mem {s : α × List κ} (hs : s ∈ (segments start cs).2) :
    ∃ c ∈ cs, start c = some s.1 := by
  have hstarts : s.1 ∈ cs.filterMap start := by
    rw [← map_fst_segments]
    exact List.mem_map_of_mem hs
  exact List.mem_filterMap.mp hstarts

end Lib.Segments
