import Mathlib.Data.List.AList
import Mathlib.Data.List.Induction
import Mathlib.Data.List.Perm.Subperm

/-! An association list from keys to positions, filled while a list grows at
its end: every key leads to its last position. -/

universe u v

namespace Lib.LastIndex

variable {κ : Type u} [DecidableEq κ]

structure Indexes (ix : AList fun _ : κ => Nat) (ks : List κ) : Prop where
  mem : ∀ k, k ∈ ix ↔ k ∈ ks
  last : ∀ k i, ix.lookup k = some i → ks[i]? = some k ∧ ∀ j, i < j → ks[j]? ≠ some k

variable {ix : AList fun _ : κ => Nat} {ks : List κ}

theorem Indexes.empty : Indexes (∅ : AList fun _ : κ => Nat) [] where
  mem k := by simp
  last k i h := by simp at h

theorem Indexes.insert (h : Indexes ix ks) (k : κ) :
    Indexes (ix.insert k ks.length) (ks ++ [k]) where
  mem k' := by rw [AList.mem_insert, h.mem, List.mem_append, List.mem_singleton, or_comm]
  last k' i hlook := by
    by_cases hk : k' = k
    · subst hk
      rw [AList.lookup_insert, Option.some.injEq] at hlook
      subst hlook
      refine ⟨by simp, fun j hj => ?_⟩
      have hlen : (ks ++ [k']).length ≤ j := by
        rw [List.length_append, List.length_singleton]
        omega
      rw [List.getElem?_eq_none hlen]
      simp
    · rw [AList.lookup_insert_ne hk] at hlook
      obtain ⟨hi, hlast⟩ := h.last k' i hlook
      have hlt : i < ks.length := (List.getElem?_eq_some_iff.mp hi).1
      refine ⟨by rw [List.getElem?_append_left hlt, hi], fun j hj => ?_⟩
      by_cases hjlt : j < ks.length
      · rw [List.getElem?_append_left hjlt]
        exact hlast j hj
      · rw [List.getElem?_append_right (by omega), List.getElem?_singleton]
        split_ifs
        · simpa using Ne.symm hk
        · simp

theorem Indexes.lookup_eq_none_iff (h : Indexes ix ks) {k : κ} : ix.lookup k = none ↔ k ∉ ks := by
  rw [AList.lookup_eq_none, h.mem]

theorem Indexes.lookup_eq_some_iff (h : Indexes ix ks) {k : κ} {i : Nat} :
    ix.lookup k = some i ↔ ks[i]? = some k ∧ ∀ j, i < j → ks[j]? ≠ some k := by
  refine ⟨h.last k i, fun ⟨hi, hlast⟩ => ?_⟩
  have hmem : k ∈ ix := (h.mem k).mpr (List.mem_of_getElem? hi)
  obtain ⟨j, hj⟩ := Option.isSome_iff_exists.mp (AList.lookup_isSome.mpr hmem)
  obtain ⟨hkj, hlastj⟩ := h.last k j hj
  rcases Nat.lt_trichotomy i j with hlt | rfl | hlt
  · exact absurd hkj (hlast j hlt)
  · exact hj
  · exact absurd hi (hlastj i hlt)

theorem Indexes.lookup_of_getElem? (h : Indexes ix ks) (hks : ks.Nodup) {k : κ} {i : Nat}
    (hi : ks[i]? = some k) : ix.lookup k = some i := by
  refine h.lookup_eq_some_iff.mpr ⟨hi, fun j hj hjk => ?_⟩
  have hlt : j < ks.length := (List.getElem?_eq_some_iff.mp hjk).1
  exact absurd ((List.getElem?_inj hlt hks).mp (hjk.trans hi.symm)) (by omega)

theorem Indexes.idxOf?_eq_lookup_iff (h : Indexes ix ks) :
    (∀ k, ks.idxOf? k = ix.lookup k) ↔ ks.Nodup := by
  constructor
  · intro heq
    rw [List.nodup_iff_getElem?_ne_getElem?]
    intro i j hij hj hsame
    have hkj : ks[j]? = some ks[j] := List.getElem?_eq_getElem hj
    obtain ⟨first, hfirst⟩ := Option.isSome_iff_exists.mp
      (List.isSome_idxOf?.mpr (List.mem_of_getElem? hkj))
    obtain ⟨hlt, -, hbefore⟩ := List.idxOf?_eq_some_iff.mp hfirst
    have hlast := (h.lookup_eq_some_iff.mp ((heq _).symm.trans hfirst)).2
    rcases Nat.lt_or_ge first j with hfirstj | hjfirst
    · exact hlast j hfirstj hkj
    · have hki := List.getElem?_eq_some_iff.mp (hsame.trans hkj)
      exact hbefore i (by omega) hki.2
  · intro hks k
    cases hfirst : ks.idxOf? k with
    | none => exact (h.lookup_eq_none_iff.mpr (List.idxOf?_eq_none_iff.mp hfirst)).symm
    | some i =>
      obtain ⟨hlt, hk, -⟩ := List.idxOf?_eq_some_iff.mp hfirst
      exact (h.lookup_of_getElem? hks (List.getElem?_eq_some_iff.mpr ⟨hlt, hk⟩)).symm

def LastAt {α : Type v} (key : α → κ) (xs : List α) (i : Nat) (x : α) : Prop :=
  xs[i]? = some x ∧ ∀ j y, i < j → xs[j]? = some y → key y ≠ key x

theorem Indexes.find_eq_some_iff {α : Type v} {key : α → κ} {xs : List α}
    (h : Indexes ix (xs.map key)) {k : κ} {x : α} :
    ((ix.lookup k).bind fun i => xs[i]?) = some x ↔ ∃ i, LastAt key xs i x ∧ key x = k := by
  rw [Option.bind_eq_some_iff]
  refine exists_congr fun i => ?_
  rw [h.lookup_eq_some_iff]
  constructor
  · rintro ⟨⟨hi, hlast⟩, hx⟩
    have hk : key x = k := by simpa [hx] using hi
    refine ⟨⟨hx, fun j y hj hy hkey => hlast j hj ?_⟩, hk⟩
    rw [List.getElem?_map, hy, Option.map_some, hkey, hk]
  · rintro ⟨⟨hx, hlast⟩, rfl⟩
    refine ⟨⟨by rw [List.getElem?_map, hx, Option.map_some], fun j hj hkey => ?_⟩, hx⟩
    obtain ⟨y, hy, hyx⟩ := Option.map_eq_some_iff.mp ((List.getElem?_map ..).symm.trans hkey)
    exact hlast j y hj hy hyx

theorem Indexes.exists_lastAt {α : Type v} {key : α → κ} {xs : List α}
    (h : Indexes ix (xs.map key)) {i : Nat} {x : α} (hi : xs[i]? = some x) :
    ∃ k y, i ≤ k ∧ LastAt key xs k y ∧ key y = key x := by
  have hkey : (xs.map key)[i]? = some (key x) := by rw [List.getElem?_map, hi, Option.map_some]
  have hmem : key x ∈ ix := (h.mem _).mpr (List.mem_of_getElem? hkey)
  obtain ⟨k, hk⟩ := Option.isSome_iff_exists.mp (AList.lookup_isSome.mpr hmem)
  obtain ⟨hkx, hlast⟩ := h.lookup_eq_some_iff.mp hk
  obtain ⟨y, hy, hyx⟩ := Option.map_eq_some_iff.mp ((List.getElem?_map ..).symm.trans hkx)
  refine ⟨k, y, ?_, ⟨hy, fun j z hj hz hzy => ?_⟩, hyx⟩
  · by_contra hlt
    exact hlast i (by omega) hkey
  · exact hlast j hj (by rw [List.getElem?_map, hz, Option.map_some, hzy, hyx])

theorem find?_eq_idxOf? {α : Type v} (key : α → κ) (xs : List α) (k : κ) :
    (xs.find? fun x => key x = k) = ((xs.map key).idxOf? k).bind fun i => xs[i]? := by
  induction xs with
  | nil => rfl
  | cons x xs ih =>
    rw [List.map_cons, List.idxOf?_cons, List.find?_cons]
    by_cases hk : key x = k
    · simp [hk]
    · have hbeq : (key x == k) = false := by simpa using hk
      simp only [hk, hbeq, decide_false, Bool.false_eq_true, if_false, ih, Option.bind_map]
      rfl

/-- What stands at the position that a key leads to is the last item with that key. -/
theorem Indexes.find_eq {α : Type v} {key : α → κ} {xs : List α} (h : Indexes ix (xs.map key))
    (k : κ) : ((ix.lookup k).bind fun i => xs[i]?) = xs.findRev? fun x => key x = k := by
  rw [List.findRev?_eq_find?_reverse]
  cases hlook : ix.lookup k with
  | none =>
    rw [h.lookup_eq_none_iff, List.mem_map, not_exists] at hlook
    rw [Option.bind_none, eq_comm, List.find?_eq_none]
    exact fun x hx hk => hlook x ⟨List.mem_reverse.mp hx, of_decide_eq_true hk⟩
  | some i =>
    obtain ⟨hi, hlast⟩ := h.lookup_eq_some_iff.mp hlook
    rw [List.getElem?_map, Option.map_eq_some_iff] at hi
    obtain ⟨x, hx, hxk⟩ := hi
    obtain ⟨hlt, hget⟩ := List.getElem?_eq_some_iff.mp hx
    rw [Option.bind_some, hx, eq_comm, List.find?_eq_some_iff_append]
    refine ⟨by simpa using hxk, (xs.drop (i + 1)).reverse, (xs.take i).reverse, ?_, ?_⟩
    · have hsplit : xs = xs.take i ++ x :: xs.drop (i + 1) := by
        rw [← hget, ← List.drop_eq_getElem_cons hlt, List.take_append_drop]
      calc
        xs.reverse = (xs.take i ++ x :: xs.drop (i + 1)).reverse := by rw [← hsplit]
        _ = (xs.drop (i + 1)).reverse ++ x :: (xs.take i).reverse := by simp
    · intro y hy
      rw [List.mem_reverse, List.mem_iff_getElem?] at hy
      obtain ⟨j, hj⟩ := hy
      rw [List.getElem?_drop] at hj
      have hne := hlast (i + 1 + j) (by omega)
      simpa [hj] using hne

theorem Indexes.find_eq_some_iff_mem {α : Type v} {key : α → κ} {xs : List α}
    (h : Indexes ix (xs.map key)) (hks : (xs.map key).Nodup) {k : κ} {x : α} :
    ((ix.lookup k).bind fun i => xs[i]?) = some x ↔ x ∈ xs ∧ key x = k := by
  rw [h.find_eq_some_iff]
  constructor
  · rintro ⟨i, hlast, hk⟩
    exact ⟨List.mem_of_getElem? hlast.1, hk⟩
  · rintro ⟨hx, hk⟩
    obtain ⟨i, hi⟩ := List.mem_iff_getElem?.mp hx
    refine ⟨i, ⟨hi, fun j y hj hy hkey => ?_⟩, hk⟩
    have hlt : j < xs.length := (List.getElem?_eq_some_iff.mp hy).1
    have hsame : (xs.map key)[j]? = (xs.map key)[i]? := by
      rw [List.getElem?_map, List.getElem?_map, hy, hi, Option.map_some, Option.map_some, hkey]
    have hji := (List.getElem?_inj (by rwa [List.length_map]) hks).mp hsame
    omega

theorem Indexes.find_of_perm {α : Type v} {key : α → κ} {xs ys : List α}
    {ix' : AList fun _ : κ => Nat} (h : Indexes ix (xs.map key)) (h' : Indexes ix' (ys.map key))
    (hks : (xs.map key).Nodup) (hperm : xs.Perm ys) (k : κ) :
    ((ix.lookup k).bind fun i => xs[i]?) = (ix'.lookup k).bind fun i => ys[i]? := by
  have hks' : (ys.map key).Nodup := (hperm.map key).nodup_iff.mp hks
  apply Option.ext
  intro x
  rw [h.find_eq_some_iff_mem hks, h'.find_eq_some_iff_mem hks', hperm.mem_iff]

theorem Indexes.find_concat_of_ne {α : Type v} {key : α → κ} {xs : List α}
    (h : Indexes ix (xs.map key)) {x : α} {k : κ} (hk : k ≠ key x) :
    (((ix.insert (key x) xs.length).lookup k).bind fun i => (xs ++ [x])[i]?) =
      (ix.lookup k).bind fun i => xs[i]? := by
  rw [AList.lookup_insert_ne hk]
  cases hlook : ix.lookup k with
  | none => rfl
  | some i =>
    obtain ⟨hi, -⟩ := h.lookup_eq_some_iff.mp hlook
    have hlt := (List.getElem?_eq_some_iff.mp hi).1
    rw [List.length_map] at hlt
    rw [Option.bind_some, Option.bind_some, List.getElem?_append_left hlt]

theorem Indexes.length_keys_iff (h : Indexes ix ks) : ix.keys.length = ks.length ↔ ks.Nodup := by
  have hmem : ∀ k, k ∈ ix.keys ↔ k ∈ ks := fun k => by rw [← AList.mem_keys, h.mem]
  constructor
  · intro hlen
    have hsub : List.Subperm ix.keys ks :=
      List.subperm_of_subset ix.keys_nodup fun k hk => (hmem k).mp hk
    exact (hsub.perm_of_length_le (Nat.le_of_eq hlen.symm)).nodup_iff.mp ix.keys_nodup
  · intro hks
    exact ((List.perm_ext_iff_of_nodup ix.keys_nodup hks).mpr hmem).length_eq

section

variable {α : Type v} {ν : Type v} (key : α → κ) (val : α → ν) (xs : List α)

theorem lookup_foldl_insert (k : κ) :
    (xs.foldl (fun m x => m.insert (key x) (val x)) (∅ : AList fun _ : κ => ν)).lookup k =
      (xs.findRev? fun x => key x = k).map val := by
  rw [List.findRev?_eq_find?_reverse]
  induction xs using List.reverseRecOn with
  | nil => rfl
  | append_singleton xs x ih =>
    rw [List.foldl_concat, List.reverse_concat, List.find?_cons]
    by_cases hk : key x = k
    · subst hk
      simp
    · rw [AList.lookup_insert_ne (Ne.symm hk), ih]
      simp [hk]

theorem lookup_foldl_insert_eq_none_iff (k : κ) :
    (xs.foldl (fun m x => m.insert (key x) (val x)) (∅ : AList fun _ : κ => ν)).lookup k = none ↔
      k ∉ xs.map key := by
  simp [lookup_foldl_insert, List.findRev?_eq_find?_reverse]

theorem lookup_foldl_insert_own_iff :
    (∀ x ∈ xs, (xs.foldl (fun m x => m.insert (key x) (val x)) (∅ : AList fun _ : κ => ν)).lookup
      (key x) = some (val x)) ↔ ∀ x ∈ xs, ∀ y ∈ xs, key x = key y → val x = val y := by
  constructor
  · intro hown x hx y hy hkey
    have hfound := (hown x hx).symm.trans (hkey ▸ hown y hy)
    exact Option.some.inj hfound
  · intro hsame x hx
    rw [lookup_foldl_insert, List.findRev?_eq_find?_reverse]
    cases hfind : xs.reverse.find? fun y => key y = key x with
    | none =>
      have hne := List.find?_eq_none.mp hfind x (List.mem_reverse.mpr hx)
      simp at hne
    | some y =>
      have hkey : key y = key x := by simpa using List.find?_some hfind
      have hy : y ∈ xs := List.mem_reverse.mp (List.mem_of_find?_eq_some hfind)
      rw [Option.map_some, hsame y hy x hx hkey]

end

theorem findRev?_concat {α : Type v} (q : α → Bool) (xs : List α) (x : α) :
    (xs ++ [x]).findRev? q = if q x then some x else xs.findRev? q := by
  rw [List.findRev?_eq_find?_reverse, List.findRev?_eq_find?_reverse, List.reverse_append,
    List.reverse_singleton, List.singleton_append, List.find?_cons]
  cases q x <;> rfl

end Lib.LastIndex
