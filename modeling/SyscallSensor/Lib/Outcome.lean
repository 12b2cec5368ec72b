import Mathlib.Data.List.Forall2

/-! Computations that may fail: how a sequence of them succeeds. -/
namespace Lib.Outcome
universe u v w
variable {ε : Type u} {α β : Type v} {σ : Type v} {ι : Type w}

/-- A bind succeeds exactly when both of its parts do. -/
theorem bind_eq_ok {x : Except ε α} {f : α → Except ε β} {b : β} :
    (x >>= f) = .ok b ↔ ∃ a, x = .ok a ∧ f a = .ok b := by
  cases x with
  | error e => simp [bind, Except.bind]
  | ok a => simp [bind, Except.bind]

theorem map_eq_ok {x : Except ε α} {f : α → β} {b : β} :
    x.map f = .ok b ↔ ∃ a, x = .ok a ∧ f a = b := by
  cases x with
  | error e => simp [Except.map]
  | ok a => simp [Except.map]

theorem ok_bind (a : α) (f : α → Except ε β) : (Except.ok a >>= f) = f a := rfl

/-- A fold of fallible steps over `i :: is` succeeds through some state in between. -/
theorem foldlM_cons_eq_ok {f : σ → ι → Except ε σ} {s t : σ} {i : ι} {is : List ι} :
    (i :: is).foldlM f s = .ok t ↔ ∃ m, f s i = .ok m ∧ is.foldlM f m = .ok t := by
  rw [List.foldlM_cons, bind_eq_ok]

/-- A list of computations that agree with what a relation says of each of them succeeds where
every one does. -/
theorem mapM_eq_ok_of_forall₂ {f : α → Except ε β} {fine : β → Prop} {R : α → β → Prop}
    (hf : ∀ x y, R x y → ∀ z, f x = .ok z ↔ fine y ∧ z = y) {xs : List α} {ys zs : List β}
    (h : List.Forall₂ R xs ys) : xs.mapM f = .ok zs ↔ (∀ y ∈ ys, fine y) ∧ zs = ys := by
  induction h generalizing zs with
  | nil => simp [pure, Except.pure, eq_comm]
  | @cons x y xs ys hxy hrest ih =>
    rw [List.mapM_cons, bind_eq_ok]
    simp only [bind_eq_ok, hf x y hxy, ih, pure, Except.pure, Except.ok.injEq, List.forall_mem_cons]
    constructor
    · rintro ⟨_, ⟨hfine, rfl⟩, _, ⟨hall, rfl⟩, rfl⟩
      exact ⟨⟨hfine, hall⟩, rfl⟩
    · rintro ⟨⟨hfine, hall⟩, rfl⟩
      exact ⟨y, ⟨hfine, rfl⟩, ys, ⟨hall, rfl⟩, rfl⟩

/-- A guarded step that is taken was allowed, and leads where it is computed to. -/
theorem guarded_eq_some {c : Prop} [Decidable c] {a b : α}
    (h : (if c then some a else none) = some b) : c ∧ a = b := by
  obtain ⟨hc, ha⟩ := Option.ite_none_right_eq_some.mp h
  exact ⟨hc, Option.some.inj ha⟩

theorem mapM_some {f : α → Option β} {g : α → β} {xs : List α}
    (h : ∀ x ∈ xs, f x = some (g x)) : xs.mapM f = some (xs.map g) := by
  induction xs with
  | nil => rfl
  | cons x xs ih =>
    rw [List.forall_mem_cons] at h
    rw [List.mapM_cons, h.1, ih h.2]
    rfl

theorem mapM_eq_none {f : α → Option β} {xs : List α} {x : α} (hx : x ∈ xs) (h : f x = none) :
    xs.mapM f = none := by
  induction xs with
  | nil => cases hx
  | cons y ys ih =>
    rw [List.mapM_cons]
    cases List.mem_cons.mp hx with
    | inl heq =>
      rw [← heq, h]
      rfl
    | inr hmem =>
      rw [ih hmem]
      cases f y <;> rfl

/-- Every result comes from one of the elements. -/
theorem exists_of_mem_mapM {f : α → Option β} {xs : List α} {ys : List β}
    (h : xs.mapM f = some ys) {y : β} (hy : y ∈ ys) : ∃ x ∈ xs, f x = some y := by
  induction xs generalizing ys with
  | nil =>
    obtain rfl := Option.some.inj h
    cases hy
  | cons x xs ih =>
    simp only [List.mapM_cons, Option.bind_eq_bind, Option.bind_eq_some_iff, Option.pure_def,
      Option.some.injEq] at h
    obtain ⟨z, hz, zs, hzs, rfl⟩ := h
    cases List.mem_cons.mp hy with
    | inl hy => exact ⟨x, by simp, by rw [hy, hz]⟩
    | inr hy =>
      obtain ⟨w, hw, hfw⟩ := ih hzs hy
      exact ⟨w, List.mem_cons_of_mem x hw, hfw⟩

end Lib.Outcome
