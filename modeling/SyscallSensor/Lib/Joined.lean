import Mathlib.Data.List.Basic

/-! Texts joined by a separator. When the first text can be cut off whatever follows it, the
joined text determines the texts. -/
namespace Lib.Joined
variable {α : Type*} {sep : List α} {P : List α → Prop}

/- What stands behind the first text: the separator and the other texts, if there are any. -/
def rest (sep : List α) : List (List α) → List α
  | [] => []
  | y :: ys => sep ++ sep.intercalate (y :: ys)

/-- Nothing, or the separator and a text with property `P`. -/
def Follows (sep : List α) (P : List α → Prop) (r : List α) : Prop :=
  r = [] ∨ ∃ y r', P y ∧ r = sep ++ (y ++ r')

theorem intercalate_cons (sep x : List α) (xs : List (List α)) :
    sep.intercalate (x :: xs) = x ++ rest sep xs := by
  cases xs with
  | nil => simp [rest]
  | cons y ys => rw [List.intercalate_cons_cons, rest, List.append_assoc]

theorem follows_rest {xs : List (List α)} (h : ∀ x ∈ xs, P x) : Follows sep P (rest sep xs) := by
  cases xs with
  | nil => exact .inl rfl
  | cons y ys => exact .inr ⟨y, rest sep ys, h y (by simp), by rw [rest, intercalate_cons]⟩

theorem rest_injective {xs ys : List (List α)} (hx : ∀ x ∈ xs, P x) (hy : ∀ y ∈ ys, P y)
    (hne : ∀ x, P x → x ≠ []) (h : rest sep xs = rest sep ys) :
    sep.intercalate xs = sep.intercalate ys := by
  cases xs with
  | nil =>
    cases ys with
    | nil => rfl
    | cons y ys =>
      rw [rest, rest, intercalate_cons, eq_comm, List.append_eq_nil_iff,
        List.append_eq_nil_iff] at h
      exact absurd h.2.1 (hne y (hy y (by simp)))
  | cons x xs =>
    cases ys with
    | nil =>
      rw [rest, rest, intercalate_cons, List.append_eq_nil_iff, List.append_eq_nil_iff] at h
      exact absurd h.2.1 (hne x (hx x (by simp)))
    | cons y ys => exact List.append_cancel_left h

/-- Joined texts are equal only when the texts are. -/
theorem intercalate_injective (hne : ∀ x, P x → x ≠ [])
    (hcut : ∀ x y r r', P x → P y → Follows sep P r → Follows sep P r' → x ++ r = y ++ r' → x = y)
    {xs ys : List (List α)} (hx : ∀ x ∈ xs, P x) (hy : ∀ y ∈ ys, P y)
    (h : sep.intercalate xs = sep.intercalate ys) : xs = ys := by
  induction xs generalizing ys with
  | nil =>
    cases ys with
    | nil => rfl
    | cons y ys =>
      rw [List.intercalate_nil, intercalate_cons, eq_comm, List.append_eq_nil_iff] at h
      exact absurd h.1 (hne y (hy y (by simp)))
  | cons x xs ih =>
    cases ys with
    | nil =>
      rw [List.intercalate_nil, intercalate_cons, List.append_eq_nil_iff] at h
      exact absurd h.1 (hne x (hx x (by simp)))
    | cons y ys =>
      rw [List.forall_mem_cons] at hx hy
      rw [intercalate_cons, intercalate_cons] at h
      have hhead : x = y := hcut x y _ _ hx.1 hy.1 (follows_rest hx.2) (follows_rest hy.2) h
      rw [hhead] at h
      have htail := rest_injective hx.2 hy.2 hne (List.append_cancel_left h)
      rw [hhead, ih hx.2 hy.2 htail]

end Lib.Joined
