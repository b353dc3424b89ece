import Mathlib.Algebra.Ring.Nat
import Mathlib.Algebra.BigOperators.Group.List.Basic

/-! Records laid out as consecutive fixed-width slots.  `readAll` reads every
slot at its own offset; `scan` and `sweep` move a cursor, and differ in what
they do with a slot that cannot be read. -/

universe u v

namespace Lib.Slots

variable {β : Type u} {α : Type v}

def window (data : List β) (p n : Nat) : List β := (data.drop p).take n

structure Slot (β : Type u) (α : Type v) where
  width : Nat
  parse : List β → Option α

def Slot.read (s : Slot β α) (data : List β) (p : Nat) : Option α :=
  if p + s.width ≤ data.length then s.parse (window data p s.width) else none

def span (ss : List (Slot β α)) : Nat := (ss.map Slot.width).sum

/-- Stateless: slot `j` is read at the start plus the widths before it. -/
def readAll : List (Slot β α) → List β → Nat → List (Option α)
  | [], _, _ => []
  | s :: ss, data, p => s.read data p :: readAll ss data (p + s.width)

/-- Stops at the first slot that cannot be read. -/
def scan : List (Slot β α) → List β → Nat → Option (List α × Nat)
  | [], _, p => some ([], p)
  | s :: ss, data, p =>
    match s.read data p with
    | none => none
    | some a => (scan ss data (p + s.width)).map fun r => (a :: r.1, r.2)

/-- Passes over a slot that cannot be read and leaves the cursor where it is. -/
def sweep : List (Slot β α) → List β → Nat → List (Option α) × Nat
  | [], _, p => ([], p)
  | s :: ss, data, p =>
    match s.read data p with
    | none => (none :: (sweep ss data p).1, (sweep ss data p).2)
    | some a => (some a :: (sweep ss data (p + s.width)).1, (sweep ss data (p + s.width)).2)

@[simp] theorem span_nil : span ([] : List (Slot β α)) = 0 := rfl

@[simp] theorem span_cons (s : Slot β α) (ss : List (Slot β α)) :
    span (s :: ss) = s.width + span ss := by
  simp [span]

theorem length_window {data : List β} {p n : Nat} (h : p + n ≤ data.length) :
    (window data p n).length = n := by
  simp only [window, List.length_take, List.length_drop]
  omega

theorem window_self (data : List β) : window data 0 data.length = data := by
  simp [window]

theorem window_append {b : List β} {p n : Nat} (h : p + n ≤ b.length) (pre post : List β) :
    window (pre ++ b ++ post) (pre.length + p) n = window b p n := by
  have hdrop : (pre ++ b ++ post).drop (pre.length + p) = b.drop p ++ post := by
    rw [List.append_assoc, List.drop_append, List.drop_eq_nil_of_le (by omega),
      Nat.add_sub_cancel_left, List.nil_append, List.drop_append_of_le_length (by omega)]
  have htake : n ≤ (b.drop p).length := by rw [List.length_drop]; omega
  rw [window, hdrop, List.take_append_of_le_length htake, window]

theorem append_prefix_iff {as bs l : List β} :
    as ++ bs <+: l ↔ as <+: l ∧ bs <+: l.drop as.length := by
  constructor
  · rintro ⟨t, rfl⟩
    simp
  · rintro ⟨⟨t, rfl⟩, hbs⟩
    rw [List.drop_left] at hbs
    exact (List.prefix_append_right_inj as).mpr hbs

theorem read_eq_none {s : Slot β α} {data : List β} {p : Nat} (h : data.length < p + s.width) :
    s.read data p = none := by
  simp [Slot.read, Nat.not_le.mpr h]

theorem read_eq_parse {s : Slot β α} {data : List β} {p : Nat} (h : p + s.width ≤ data.length) :
    s.read data p = s.parse (window data p s.width) := by
  simp [Slot.read, h]

theorem read_le {s : Slot β α} {data : List β} {p : Nat} {a : α} (h : s.read data p = some a) :
    p + s.width ≤ data.length := by
  by_contra hlt
  rw [read_eq_none (by omega)] at h
  cases h

theorem read_append {s : Slot β α} {pre b post : List β} {p : Nat} (h : p + s.width ≤ b.length) :
    s.read (pre ++ b ++ post) (pre.length + p) = s.read b p := by
  have hbig : pre.length + p + s.width ≤ (pre ++ b ++ post).length := by
    simp only [List.length_append]
    omega
  rw [read_eq_parse hbig, read_eq_parse h, window_append h]

@[simp] theorem length_readAll (ss : List (Slot β α)) (data : List β) (p : Nat) :
    (readAll ss data p).length = ss.length := by
  induction ss generalizing p with
  | nil => rfl
  | cons s ss ih => simp [readAll, ih]

theorem getElem?_readAll (ss : List (Slot β α)) (data : List β) (p j : Nat) :
    (readAll ss data p)[j]? = ss[j]?.map fun s => s.read data (p + span (ss.take j)) := by
  induction ss generalizing p j with
  | nil => simp [readAll]
  | cons s ss ih =>
    cases j with
    | zero => simp [readAll]
    | succ j => simp [readAll, ih, Nat.add_assoc]

theorem readAll_eq_none {ss : List (Slot β α)} {data : List β} {p : Nat} (h : data.length < p) :
    ∀ r ∈ readAll ss data p, r = none := by
  induction ss generalizing p with
  | nil => simp [readAll]
  | cons s ss ih =>
    intro r hr
    rw [readAll, List.mem_cons] at hr
    cases hr with
    | inl hr => rw [hr, read_eq_none (by omega)]
    | inr hr => exact ih (by omega) r hr

theorem readAll_eq_map_some_iff {ss : List (Slot β α)} {data : List β} {p : Nat} {as : List α} :
    readAll ss data p = as.map some ↔ as.length = ss.length ∧
      ∀ (j : Nat) (s : Slot β α), ss[j]? = some s →
        ∃ a, as[j]? = some a ∧ s.read data (p + span (ss.take j)) = some a := by
  constructor
  · intro h
    have hlen := congrArg List.length h
    rw [length_readAll, List.length_map] at hlen
    refine ⟨hlen.symm, fun j s hs => ?_⟩
    have hj := congrArg (fun l => l[j]?) h
    simp only [getElem?_readAll, hs, Option.map_some, List.getElem?_map] at hj
    obtain ⟨a, ha, hread⟩ := Option.map_eq_some_iff.mp hj.symm
    exact ⟨a, ha, hread.symm⟩
  · rintro ⟨hlen, h⟩
    apply List.ext_getElem?
    intro j
    rw [getElem?_readAll, List.getElem?_map]
    cases hs : ss[j]? with
    | none =>
      have hj : as.length ≤ j := hlen ▸ List.getElem?_eq_none_iff.mp hs
      simp [hj]
    | some s =>
      obtain ⟨a, ha, hread⟩ := h j s hs
      simp [ha, hread]

theorem scan_eq_some_iff {ss : List (Slot β α)} {data : List β} {p q : Nat} {as : List α} :
    scan ss data p = some (as, q) ↔ readAll ss data p = as.map some ∧ q = p + span ss := by
  induction ss generalizing p as with
  | nil =>
    simp only [scan, readAll, Option.some.injEq, Prod.mk.injEq, span_nil, Nat.add_zero]
    constructor
    · rintro ⟨rfl, rfl⟩
      simp
    · rintro ⟨has, rfl⟩
      exact ⟨by simpa using has, rfl⟩
  | cons s ss ih =>
    rw [scan, readAll, span_cons, ← Nat.add_assoc]
    cases hread : s.read data p with
    | none => cases as <;> simp
    | some a =>
      simp only [Option.map_eq_some_iff, Prod.exists, Prod.mk.injEq]
      constructor
      · rintro ⟨as', q', hscan, rfl, rfl⟩
        obtain ⟨hall, hq⟩ := ih.mp hscan
        exact ⟨by simp [hall], hq⟩
      · rintro ⟨hall, hq⟩
        cases as with
        | nil => simp at hall
        | cons a' as' =>
          simp only [List.map_cons, List.cons.injEq, Option.some.injEq] at hall
          exact ⟨as', q, ih.mpr ⟨hall.2, hq⟩, by rw [hall.1], rfl⟩

theorem scan_le {ss : List (Slot β α)} {data : List β} {p q : Nat} {as : List α}
    (hp : p ≤ data.length) (h : scan ss data p = some (as, q)) : q ≤ data.length := by
  induction ss generalizing p as with
  | nil =>
    simp only [scan, Option.some.injEq, Prod.mk.injEq] at h
    omega
  | cons s ss ih =>
    rw [scan] at h
    cases hread : s.read data p with
    | none => simp [hread] at h
    | some a =>
      simp only [hread, Option.map_eq_some_iff, Prod.exists, Prod.mk.injEq] at h
      obtain ⟨as', q', hscan, -, rfl⟩ := h
      exact ih (read_le hread) hscan

theorem scan_isSome {ss : List (Slot β α)} {data : List β} {p : Nat}
    (hread : ∀ s ∈ ss, ∀ q, q + s.width ≤ data.length → (s.read data q).isSome)
    (hfit : p + span ss ≤ data.length) : (scan ss data p).isSome := by
  induction ss generalizing p with
  | nil => rfl
  | cons s ss ih =>
    rw [span_cons] at hfit
    obtain ⟨a, ha⟩ := Option.isSome_iff_exists.mp (hread s List.mem_cons_self p (by omega))
    have hrest : (scan ss data (p + s.width)).isSome :=
      ih (fun t ht => hread t (List.mem_cons_of_mem s ht)) (by omega)
    simpa [scan, ha] using hrest

theorem scan_append {ss : List (Slot β α)} {b : List β} {p : Nat} (h : p + span ss ≤ b.length)
    (pre post : List β) :
    scan ss (pre ++ b ++ post) (pre.length + p) =
      (scan ss b p).map fun r => (r.1, pre.length + r.2) := by
  induction ss generalizing p with
  | nil => rfl
  | cons s ss ih =>
    rw [span_cons] at h
    rw [scan, scan, read_append (by omega)]
    cases s.read b p with
    | none => rfl
    | some a =>
      simp only [Nat.add_assoc]
      rw [ih (by omega), Option.map_map, Option.map_map]
      rfl

/-- After the first width that runs past the end, no later width fits in what
is left there, unless it is zero. -/
def NoStraggler (ws : List Nat) (len p : Nat) : Prop :=
  ∀ pre w post, ws = pre ++ w :: post → p + pre.sum ≤ len → len < p + pre.sum + w →
    ∀ v ∈ post, v = 0 ∨ len < p + pre.sum + v

theorem noStraggler_nil (len p : Nat) : NoStraggler [] len p := by
  intro pre w post h
  simp at h

theorem noStraggler_cons_of_le {w : Nat} {ws : List Nat} {len p : Nat} (h : p + w ≤ len) :
    NoStraggler (w :: ws) len p ↔ NoStraggler ws len (p + w) := by
  constructor
  · intro hns pre v post hws hle hlt
    subst hws
    have hw := hns (w :: pre) v post rfl
    simp only [List.sum_cons, ← Nat.add_assoc] at hw
    exact hw hle hlt
  · intro hns pre v post hws hle hlt
    cases pre with
    | nil =>
      simp only [List.nil_append, List.cons.injEq] at hws
      simp only [List.sum_nil] at hlt
      omega
    | cons u pre =>
      simp only [List.cons_append, List.cons.injEq] at hws
      obtain ⟨rfl, rfl⟩ := hws
      simp only [List.sum_cons, ← Nat.add_assoc] at hle hlt ⊢
      exact hns pre v post rfl hle hlt

theorem noStraggler_cons_of_lt {w : Nat} {ws : List Nat} {len p : Nat} (hp : p ≤ len)
    (h : len < p + w) :
    NoStraggler (w :: ws) len p ↔ ∀ v ∈ ws, v = 0 ∨ len < p + v := by
  constructor
  · intro hns
    simpa using hns [] w ws rfl (by simpa using hp) (by simpa using h)
  · intro hall pre v post hws hle hlt
    cases pre with
    | nil =>
      simp only [List.nil_append, List.cons.injEq] at hws
      obtain ⟨rfl, rfl⟩ := hws
      simpa using hall
    | cons u pre =>
      simp only [List.cons_append, List.cons.injEq] at hws
      obtain ⟨rfl, rfl⟩ := hws
      simp only [List.sum_cons] at hle
      omega

theorem read_of_getElem?_sweep {ss : List (Slot β α)} {data : List β} {p j : Nat} {a : α}
    (h : (sweep ss data p).1[j]? = some (some a)) :
    ∃ s q, ss[j]? = some s ∧ s.read data q = some a := by
  induction ss generalizing p j with
  | nil => simp [sweep] at h
  | cons s ss ih =>
    rw [sweep] at h
    cases hread : s.read data p with
    | none =>
      simp only [hread] at h
      cases j with
      | zero => simp at h
      | succ j => exact ih h
    | some b =>
      simp only [hread] at h
      cases j with
      | zero =>
        rw [List.getElem?_cons_zero, Option.some.injEq, Option.some.injEq] at h
        exact ⟨s, p, rfl, by rw [hread, h]⟩
      | succ j => exact ih h

theorem sweep_all_none_iff (ss : List (Slot β α)) (data : List β) (p : Nat) :
    (∀ r ∈ (sweep ss data p).1, r = none) ↔ ∀ s ∈ ss, s.read data p = none := by
  induction ss with
  | nil => simp [sweep]
  | cons s ss ih =>
    rw [sweep]
    cases hread : s.read data p with
    | none => simpa [hread] using ih
    | some a => simp [hread]

def Total (ss : List (Slot β α)) (data : List β) : Prop :=
  ∀ s ∈ ss, ∀ p, p + s.width ≤ data.length → ((s.read data p).isSome ↔ 0 < s.width)

theorem Total.tail {s : Slot β α} {ss : List (Slot β α)} {data : List β}
    (ht : Total (s :: ss) data) : Total ss data :=
  fun t hts => ht t (List.mem_cons_of_mem s hts)

theorem read_eq_none_iff {ss : List (Slot β α)} {data : List β} (ht : Total ss data)
    {s : Slot β α} (hs : s ∈ ss) (p : Nat) :
    s.read data p = none ↔ s.width = 0 ∨ data.length < p + s.width := by
  by_cases hfit : p + s.width ≤ data.length
  · have hread := ht s hs p hfit
    rw [← Option.not_isSome_iff_eq_none, hread]
    omega
  · have hlt : data.length < p + s.width := by omega
    simp [read_eq_none hlt, hlt]

theorem forall_found_cons_iff {x y : Option α} {xs ys : List (Option α)} :
    (∀ (j : Nat) (a : α), (x :: xs)[j]? = some (some a) → (y :: ys)[j]? = some (some a)) ↔
      (∀ a, x = some a → y = some a) ∧
        ∀ (j : Nat) (a : α), xs[j]? = some (some a) → ys[j]? = some (some a) := by
  constructor
  · intro h
    refine ⟨fun a hx => ?_, fun j a => h (j + 1) a⟩
    exact Option.some.inj (h 0 a (congrArg some hx))
  · rintro ⟨hhead, htail⟩ j a hj
    cases j with
    | zero => exact congrArg some (hhead a (Option.some.inj hj))
    | succ j => exact htail j a hj

theorem forall_found_of_all_none {xs ys : List (Option α)} (hnone : ∀ r ∈ ys, r = none) :
    (∀ (j : Nat) (a : α), xs[j]? = some (some a) → ys[j]? = some (some a)) ↔
      ∀ r ∈ xs, r = none := by
  constructor
  · intro h r hr
    obtain ⟨j, hj⟩ := List.mem_iff_getElem?.mp hr
    cases r with
    | none => rfl
    | some a => exact hnone _ (List.mem_of_getElem? (h j a hj))
  · intro h j a hj
    cases h _ (List.mem_of_getElem? hj)

/-- Exactly when a sweep attributes every value to the elements of its own slot. -/
theorem sweep_attributes_iff {ss : List (Slot β α)} {data : List β} (ht : Total ss data) {p : Nat}
    (hp : p ≤ data.length) :
    (∀ (j : Nat) (a : α), (sweep ss data p).1[j]? = some (some a) →
      (readAll ss data p)[j]? = some (some a)) ↔ NoStraggler (ss.map Slot.width) data.length p := by
  induction ss generalizing p with
  | nil => simp [sweep, noStraggler_nil]
  | cons s ss ih =>
    rw [List.map_cons, sweep, readAll]
    by_cases hfit : p + s.width ≤ data.length
    · rw [noStraggler_cons_of_le hfit, ← ih ht.tail hfit]
      cases hread : s.read data p with
      | none =>
        have hzero : s.width = 0 := by
          have hor := (read_eq_none_iff ht List.mem_cons_self p).mp hread
          omega
        simp only [hzero, Nat.add_zero]
        exact forall_found_cons_iff.trans (and_iff_right fun a ha => ha)
      | some b => exact forall_found_cons_iff.trans (and_iff_right fun a ha => ha)
    · -- The cursor is stuck at `p` from here on, while every true offset is past the end.
      have hlt : data.length < p + s.width := by omega
      have hnone : ∀ r ∈ readAll ss data (p + s.width), r = none := readAll_eq_none hlt
      have hall : (∀ r ∈ (sweep ss data p).1, r = none) ↔
          ∀ v ∈ ss.map Slot.width, v = 0 ∨ data.length < p + v := by
        rw [sweep_all_none_iff, List.forall_mem_map]
        exact forall₂_congr fun t hts => read_eq_none_iff ht.tail hts p
      rw [noStraggler_cons_of_lt hp hlt, read_eq_none hlt, ← hall, ← forall_found_of_all_none hnone]
      exact forall_found_cons_iff.trans (and_iff_right fun a ha => ha)

end Lib.Slots
