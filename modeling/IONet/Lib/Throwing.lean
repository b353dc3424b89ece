import Mathlib.Data.List.Forall2

/-! Computations that return or throw: when a sequence of them returns. -/

universe u v w

namespace Lib.Throwing

variable {ε : Type u} {α : Type v} {β : Type v} {σ : Type v}

theorem bind_eq_ok_iff {x : Except ε α} {f : α → Except ε β} {b : β} :
    x >>= f = .ok b ↔ ∃ a, x = .ok a ∧ f a = .ok b := by
  cases x with
  | error e => simp [bind, Except.bind]
  | ok a => simp [bind, Except.bind]

theorem pure_eq_ok_iff {a b : α} : (pure a : Except ε α) = .ok b ↔ b = a := by
  simp [pure, Except.pure, eq_comm]

@[simp] theorem ok_bind (a : α) (f : α → Except ε β) : (Except.ok a >>= f) = f a := rfl

theorem mapM_eq_ok_iff {f : α → Except ε β} {xs : List α} {ys : List β} :
    xs.mapM f = .ok ys ↔ List.Forall₂ (fun x y => f x = .ok y) xs ys := by
  induction xs generalizing ys with
  | nil => rw [List.mapM_nil, pure_eq_ok_iff, List.forall₂_nil_left_iff]
  | cons x xs ih =>
    simp only [List.mapM_cons, bind_eq_ok_iff, pure_eq_ok_iff, List.forall₂_cons_left_iff, ih]
    constructor
    · rintro ⟨y, hy, ys, hys, rfl⟩
      exact ⟨y, ys, hy, hys, rfl⟩
    · rintro ⟨y, ys, hy, hys, rfl⟩
      exact ⟨y, hy, ys, hys, rfl⟩

theorem exists_of_mem {f : α → Except ε β} {xs : List α} {ys : List β}
    (h : List.Forall₂ (fun x y => f x = .ok y) xs ys) {x : α} (hx : x ∈ xs) :
    ∃ y ∈ ys, f x = .ok y := by
  induction h with
  | nil => cases hx
  | cons hxy _ ih =>
    rcases List.mem_cons.mp hx with rfl | hx
    · exact ⟨_, List.mem_cons_self, hxy⟩
    · obtain ⟨y, hy, hfy⟩ := ih hx
      exact ⟨y, List.mem_cons_of_mem _ hy, hfy⟩

theorem exists_of_mem_results {f : α → Except ε β} {xs : List α} {ys : List β}
    (h : List.Forall₂ (fun x y => f x = .ok y) xs ys) {y : β} (hy : y ∈ ys) :
    ∃ x ∈ xs, f x = .ok y := by
  induction h with
  | nil => cases hy
  | cons hxy _ ih =>
    rcases List.mem_cons.mp hy with rfl | hy
    · exact ⟨_, List.mem_cons_self, hxy⟩
    · obtain ⟨x, hx, hfx⟩ := ih hy
      exact ⟨x, List.mem_cons_of_mem _ hx, hfx⟩

theorem exists_results_iff {f : α → Except ε β} {xs : List α} :
    (∃ ys, List.Forall₂ (fun x y => f x = .ok y) xs ys) ↔ ∀ x ∈ xs, ∃ y, f x = .ok y := by
  constructor
  · rintro ⟨ys, h⟩ x hx
    obtain ⟨y, -, hy⟩ := exists_of_mem h hx
    exact ⟨y, hy⟩
  · intro h
    induction xs with
    | nil => exact ⟨[], .nil⟩
    | cons x xs ih =>
      obtain ⟨y, hy⟩ := h x List.mem_cons_self
      obtain ⟨ys, hys⟩ := ih fun x' hx' => h x' (List.mem_cons_of_mem x hx')
      exact ⟨y :: ys, .cons hy hys⟩

theorem map_results_eq {γ : Type w} {f : α → Except ε β} {xs : List α} {ys : List β} {k : β → γ}
    {j : α → γ} (h : List.Forall₂ (fun x y => f x = .ok y) xs ys)
    (hkeep : ∀ x y, f x = .ok y → k y = j x) : ys.map k = xs.map j := by
  rw [← List.forall₂_eq_eq_eq, List.forall₂_map_left_iff, List.forall₂_map_right_iff]
  exact h.flip.imp fun y x hxy => hkeep x y hxy

theorem foldlM_eq_ok_iff {f : α → Except ε β} {g : σ → β → σ} {xs : List α} {s t : σ} :
    xs.foldlM (fun s x => do return g s (← f x)) s = .ok t ↔
      ∃ ys, List.Forall₂ (fun x y => f x = .ok y) xs ys ∧ t = ys.foldl g s := by
  induction xs generalizing s with
  | nil => simp [pure_eq_ok_iff]
  | cons x xs ih =>
    simp only [List.foldlM_cons, bind_assoc, pure_bind, bind_eq_ok_iff, ih,
      List.forall₂_cons_left_iff]
    constructor
    · rintro ⟨y, hy, ys, hys, rfl⟩
      exact ⟨y :: ys, ⟨y, ys, hy, hys, rfl⟩, rfl⟩
    · rintro ⟨-, ⟨y, ys, hy, hys, rfl⟩, rfl⟩
      exact ⟨y, hy, ys, hys, rfl⟩

section

variable {R : α → α → Prop} {S : β → β → Prop} {E : ε → ε → Prop}

/-- Both return, or both throw, what is related. -/
inductive Alike (E : ε → ε → Prop) (R : α → α → Prop) : Except ε α → Except ε α → Prop
  | ok {a a' : α} (h : R a a') : Alike E R (.ok a) (.ok a')
  | error {e e' : ε} (h : E e e') : Alike E R (.error e) (.error e')

theorem Alike.refl (hE : ∀ e, E e e) (hR : ∀ a, R a a) (x : Except ε α) : Alike E R x x := by
  cases x with
  | error e => exact .error (hE e)
  | ok a => exact .ok (hR a)

theorem Alike.mono {R' : α → α → Prop} {x y : Except ε α} (h : Alike E R x y)
    (hR : ∀ a a', R a a' → R' a a') : Alike E R' x y := by
  cases h with
  | ok h => exact .ok (hR _ _ h)
  | error h => exact .error h

theorem Alike.eq {x y : Except ε α} (h : Alike E Eq x y) (hE : ∀ e e', E e e' → e = e') :
    x = y := by
  cases h with
  | ok h => rw [h]
  | error h => rw [hE _ _ h]

theorem Alike.bind {x y : Except ε α} {f g : α → Except ε β} (h : Alike E R x y)
    (hf : ∀ a a', R a a' → Alike E S (f a) (g a')) : Alike E S (x >>= f) (y >>= g) := by
  cases h with
  | ok h => exact hf _ _ h
  | error h => exact .error h

theorem Alike.bind_eq {x y : Except ε α} {f g : α → Except ε β} (h : Alike E Eq x y)
    (hf : ∀ a, Alike E S (f a) (g a)) : Alike E S (x >>= f) (y >>= g) :=
  h.bind fun a _ heq => heq ▸ hf a

theorem Alike.mapM {γ : Type w} {R : γ → γ → Prop} {f g : γ → Except ε β} {xs ys : List γ}
    (h : List.Forall₂ R xs ys) (hf : ∀ x y, R x y → Alike E Eq (f x) (g y)) :
    Alike E Eq (xs.mapM f) (ys.mapM g) := by
  induction h with
  | nil => exact .ok rfl
  | cons hxy _ ih =>
    rw [List.mapM_cons, List.mapM_cons]
    exact (hf _ _ hxy).bind_eq fun y => ih.bind_eq fun ys => .ok rfl

end

def ThrowsOnly (E : ε → Prop) (x : Except ε α) : Prop := ∀ e, x = .error e → E e

section

variable {E : ε → Prop}

theorem ThrowsOnly.ok (a : α) : ThrowsOnly E (.ok a : Except ε α) := nofun

theorem ThrowsOnly.error {e : ε} (h : E e) : ThrowsOnly E (.error e : Except ε α) := by
  rintro _ ⟨⟩
  exact h

theorem ThrowsOnly.bind {x : Except ε α} {f : α → Except ε β} (h : ThrowsOnly E x)
    (hf : ∀ a, ThrowsOnly E (f a)) : ThrowsOnly E (x >>= f) := by
  cases x with
  | error e =>
    rintro _ ⟨⟩
    exact h e rfl
  | ok a => exact hf a

theorem ThrowsOnly.mapM {γ : Type w} {f : γ → Except ε β} (hf : ∀ x, ThrowsOnly E (f x))
    (xs : List γ) : ThrowsOnly E (xs.mapM f) := by
  induction xs with
  | nil => exact .ok []
  | cons x xs ih =>
    rw [List.mapM_cons]
    exact (hf x).bind fun y => ih.bind fun ys => .ok (y :: ys)

end

/-- The computation returns `a` when `P` holds, and otherwise throws an error in `E`. -/
structure Settles (E : ε → Prop) (P : Prop) (x : Except ε α) (a : α) : Prop where
  returns : P → x = .ok a
  throws : ¬P → ∃ e, E e ∧ x = .error e

variable {E : ε → Prop} {P Q : Prop} {x : Except ε α} {a : α}

theorem Settles.of_eq (h : x = .ok a) : Settles E True x a :=
  ⟨fun _ => h, fun hfalse => absurd trivial hfalse⟩

theorem Settles.congr (h : Settles E P x a) (hPQ : P ↔ Q) : Settles E Q x a :=
  ⟨fun hq => h.returns (hPQ.mpr hq), fun hq => h.throws (mt hPQ.mp hq)⟩

theorem Settles.bind {f : α → Except ε β} {b : β} (h : Settles E P x a) (hf : Settles E Q (f a) b) :
    Settles E (P ∧ Q) (x >>= f) b where
  returns hPQ := by
    rw [h.returns hPQ.1]
    exact hf.returns hPQ.2
  throws hPQ := by
    by_cases hP : P
    · rw [h.returns hP]
      exact hf.throws fun hQ => hPQ ⟨hP, hQ⟩
    · obtain ⟨e, he, hx⟩ := h.throws hP
      exact ⟨e, he, by rw [hx]; rfl⟩

theorem Settles.map {f : α → β} (h : Settles E P x a) :
    Settles E P (x >>= fun a => pure (f a)) (f a) := by
  have hbind : Settles E (P ∧ True) (x >>= fun a => pure (f a)) (f a) :=
    h.bind (Settles.of_eq rfl)
  exact hbind.congr (and_iff_left trivial)

theorem Settles.mapM {γ : Type w} {f : α → Except ε β} {R : α → γ → Prop} {P : γ → Prop} {k : γ → β}
    {xs : List α} {cs : List γ} (h : List.Forall₂ R xs cs)
    (hf : ∀ a c, R a c → Settles E (P c) (f a) (k c)) :
    Settles E (∀ c ∈ cs, P c) (xs.mapM f) (cs.map k) := by
  induction h with
  | nil => exact (Settles.of_eq rfl).congr (by simp)
  | cons hxc _ ih =>
    rw [List.mapM_cons, List.map_cons, List.forall_mem_cons]
    exact (hf _ _ hxc).bind ih.map

/-- The computation returns exactly when `Ok` holds, and throws `e` exactly when
`Bad` does. -/
structure Decided (e : ε) (Ok Bad : Prop) (x : Except ε α) : Prop where
  returns : (∃ a, x = .ok a) ↔ Ok
  throws : x = .error e ↔ Bad

/-- The items before the first bad one are all right. -/
def FirstBad {γ : Type w} (Ok Bad : γ → Prop) (xs : List γ) : Prop :=
  ∃ pre x post, xs = pre ++ x :: post ∧ (∀ y ∈ pre, Ok y) ∧ Bad x

theorem firstBad_cons_iff {γ : Type w} {Ok Bad : γ → Prop} {x : γ} {xs : List γ} :
    FirstBad Ok Bad (x :: xs) ↔ Bad x ∨ Ok x ∧ FirstBad Ok Bad xs := by
  constructor
  · rintro ⟨pre, y, post, hxs, hpre, hbad⟩
    cases pre with
    | nil =>
      cases hxs
      exact .inl hbad
    | cons z pre =>
      cases hxs
      rw [List.forall_mem_cons] at hpre
      exact .inr ⟨hpre.1, pre, y, post, rfl, hpre.2, hbad⟩
  · rintro (hbad | ⟨hok, pre, y, post, rfl, hpre, hbad⟩)
    · exact ⟨[], x, xs, rfl, by simp, hbad⟩
    · exact ⟨x :: pre, y, post, rfl, List.forall_mem_cons.mpr ⟨hok, hpre⟩, hbad⟩

theorem firstBad_append_iff {γ : Type w} {Ok Bad : γ → Prop} {xs ys : List γ} :
    FirstBad Ok Bad (xs ++ ys) ↔
      FirstBad Ok Bad xs ∨ (∀ x ∈ xs, Ok x) ∧ FirstBad Ok Bad ys := by
  induction xs with
  | nil => simp [FirstBad]
  | cons x xs ih =>
    rw [List.cons_append, firstBad_cons_iff, firstBad_cons_iff, ih, List.forall_mem_cons]
    tauto

theorem firstBad_flatMap_iff {γ δ : Type w} {Ok Bad : γ → Prop} {g : δ → List γ} {xs : List δ} :
    FirstBad Ok Bad (xs.flatMap g) ↔
      FirstBad (fun x => ∀ y ∈ g x, Ok y) (fun x => FirstBad Ok Bad (g x)) xs := by
  induction xs with
  | nil => simp [FirstBad]
  | cons x xs ih => rw [List.flatMap_cons, firstBad_append_iff, firstBad_cons_iff, ih]

theorem firstBad_iff_of_forall₂ {γ : Type v} {δ : Type w} {R : γ → δ → Prop} {Ok Bad : γ → Prop}
    {Ok' Bad' : δ → Prop} {xs : List γ} {ys : List δ} (h : List.Forall₂ R xs ys)
    (hok : ∀ x y, R x y → (Ok x ↔ Ok' y)) (hbad : ∀ x y, R x y → (Bad x ↔ Bad' y)) :
    FirstBad Ok Bad xs ↔ FirstBad Ok' Bad' ys := by
  induction h with
  | nil => simp [FirstBad]
  | cons hxy _ ih => rw [firstBad_cons_iff, firstBad_cons_iff, hok _ _ hxy, hbad _ _ hxy, ih]

theorem firstBad_iff_find {γ : Type w} {q : γ → Bool} {B : γ → Prop} {xs : List γ} :
    FirstBad (fun x => q x = false) (fun x => q x = true ∧ B x) xs ↔
      ∃ x, xs.find? q = some x ∧ B x := by
  induction xs with
  | nil => simp [FirstBad]
  | cons x xs ih =>
    rw [List.find?_cons, firstBad_cons_iff, ih]
    cases q x <;> simp

section

variable {e : ε} {Ok Bad Ok' Bad' : Prop}

theorem Decided.ok (a : α) : Decided e True False (.ok a : Except ε α) where
  returns := iff_true_intro ⟨a, rfl⟩
  throws := by simp

theorem Decided.error_of_ne {e' : ε} (h : e' ≠ e) :
    Decided e False False (.error e' : Except ε α) where
  returns := by simp
  throws := by simpa using h

theorem Decided.error (e : ε) : Decided e False True (.error e : Except ε α) where
  returns := by simp
  throws := by simp

theorem Decided.of_error {x : Except ε α} {e' : ε} (hok : (∃ a, x = .ok a) ↔ Ok)
    (herror : ∀ e, x = .error e → e = e') (e : ε) : Decided e Ok (¬Ok ∧ e = e') x := by
  refine ⟨hok, ?_⟩
  rw [← hok]
  cases x with
  | ok a => simp
  | error e'' =>
    have he := herror e'' rfl
    subst he
    simp [eq_comm]

theorem Decided.congr {x : Except ε α} (h : Decided e Ok Bad x) (hok : Ok ↔ Ok')
    (hbad : Bad ↔ Bad') : Decided e Ok' Bad' x :=
  ⟨h.returns.trans hok, h.throws.trans hbad⟩

theorem Decided.bind {x : Except ε α} {f : α → Except ε β} (h : Decided e Ok Bad x)
    (hf : ∀ a, x = .ok a → Decided e Ok' Bad' (f a)) :
    Decided e (Ok ∧ Ok') (Bad ∨ Ok ∧ Bad') (x >>= f) := by
  cases x with
  | error e' =>
    have hnot : ¬Ok := fun hok => by simpa using h.returns.mpr hok
    have hthrow : Except.error e' >>= f = .error e' := rfl
    rw [hthrow]
    constructor
    · simp [hnot]
    · simp [hnot, ← h.throws]
  | ok a =>
    have hok : Ok := h.returns.mp ⟨a, rfl⟩
    have hnot : ¬Bad := fun hbad => by simpa using h.throws.mpr hbad
    rw [ok_bind]
    exact (hf a rfl).congr (by simp [hok]) (by simp [hok, hnot])

theorem Decided.mapM {γ : Type w} {f : γ → Except ε β} {Ok Bad : γ → Prop}
    (hf : ∀ x, Decided e (Ok x) (Bad x) (f x)) (xs : List γ) :
    Decided e (∀ x ∈ xs, Ok x) (FirstBad Ok Bad xs) (xs.mapM f) := by
  induction xs with
  | nil => exact (Decided.ok []).congr (by simp) (by simp [FirstBad])
  | cons x xs ih =>
    rw [List.mapM_cons]
    refine ((hf x).bind fun b _ => ih.bind fun bs _ => Decided.ok (b :: bs)).congr ?_ ?_
    · simp
    · simp [firstBad_cons_iff]

theorem Decided.map {x : Except ε α} (h : Decided e Ok Bad x) (k : α → β) :
    Decided e Ok Bad (x >>= fun a => pure (k a)) :=
  (h.bind fun a _ => Decided.ok (k a)).congr (by simp) (by simp)

theorem Decided.foldlM {γ : Type w} {f : γ → Except ε β} {Ok Bad : γ → Prop}
    (hf : ∀ x, Decided e (Ok x) (Bad x) (f x)) (g : σ → β → σ) (xs : List γ) (s : σ) :
    Decided e (∀ x ∈ xs, Ok x) (FirstBad Ok Bad xs)
      (xs.foldlM (fun s x => do return g s (← f x)) s) := by
  induction xs generalizing s with
  | nil => exact (Decided.ok s).congr (by simp) (by simp [FirstBad])
  | cons x xs ih =>
    rw [List.foldlM_cons]
    refine (((hf x).map (g s)).bind fun t _ => ih t).congr ?_ ?_
    · simp
    · simp [firstBad_cons_iff]

end

end Lib.Throwing
