import Mathlib.Data.List.ReduceOption

/-! Streams of items closed by an end marker: `some` items followed by one `none`. -/
namespace Lib.EndMarked
variable {α β : Type*}

def marked (xs : List α) : List (Option α) := xs.map some ++ [none]

theorem reduceOption_map_some (xs : List α) : (xs.map some).reduceOption = xs := by
  induction xs with
  | nil => rfl
  | cons x xs ih => rw [List.map_cons, List.reduceOption_cons_of_some, ih]

/-- The items of a marked stream, read back. -/
@[simp] theorem reduceOption_marked (xs : List α) : (marked xs).reduceOption = xs := by
  simp [marked, List.reduceOption_append, reduceOption_map_some]

/-- An item at the front of a marked stream is its first item. -/
theorem some_cons_eq_marked {x : α} {q : List (Option α)} {xs : List α} :
    some x :: q = marked xs ↔ ∃ ys, xs = x :: ys ∧ q = marked ys := by
  cases xs with
  | nil => simp [marked]
  | cons y ys =>
    simp only [marked, List.map_cons, List.cons_append, List.cons.injEq, Option.some.injEq]
    constructor
    · intro h
      exact ⟨ys, ⟨h.1.symm, rfl⟩, h.2⟩
    · intro h
      obtain ⟨zs, ⟨rfl, rfl⟩, rfl⟩ := h
      exact ⟨rfl, rfl⟩

/-- Nothing stays behind the marker. -/
theorem none_cons_eq_marked {q : List (Option α)} {xs : List α} :
    none :: q = marked xs ↔ xs = [] ∧ q = [] := by
  cases xs with
  | nil => simp [marked]
  | cons y ys => simp [marked]

/-- Cutting a marked stream in two leaves the marker in one of the parts, with nothing behind
it. -/
theorem append_eq_marked {c d : List (Option α)} {xs : List α} :
    c ++ d = marked xs ↔
      (∃ ys zs, xs = ys ++ zs ∧ c = ys.map some ∧ d = marked zs) ∨ (c = marked xs ∧ d = []) := by
  constructor
  · intro h
    induction c generalizing xs with
    | nil => exact .inl ⟨[], xs, rfl, rfl, h⟩
    | cons item c ih =>
      cases item with
      | none =>
        obtain ⟨rfl, hnil⟩ := none_cons_eq_marked.mp h
        obtain ⟨rfl, rfl⟩ := List.append_eq_nil_iff.mp hnil
        exact .inr ⟨rfl, rfl⟩
      | some x =>
        obtain ⟨xs, rfl, hrest⟩ := some_cons_eq_marked.mp h
        cases ih hrest with
        | inl hleft =>
          obtain ⟨ys, zs, rfl, rfl, rfl⟩ := hleft
          exact .inl ⟨x :: ys, zs, rfl, rfl, rfl⟩
        | inr hright =>
          obtain ⟨rfl, rfl⟩ := hright
          exact .inr ⟨rfl, rfl⟩
  · intro h
    cases h with
    | inl hleft =>
      obtain ⟨ys, zs, rfl, rfl, rfl⟩ := hleft
      simp [marked]
    | inr hright =>
      obtain ⟨rfl, rfl⟩ := hright
      exact List.append_nil _

/-- What is under way between a sender and a receiver: items while the sender goes on, items
and the marker once it has closed, and no item once the receiver has seen the marker. -/
inductive Flow : List (Option α) → (closed seen : Bool) → Prop where
  | running (xs : List α) : Flow (xs.map some) false false
  | closed (xs : List α) : Flow (marked xs) true false
  | seen {c : List (Option α)} : c.reduceOption = [] → Flow c true true

namespace Flow
variable {c : List (Option α)} {closed seen : Bool}

theorem start : Flow ([] : List (Option α)) false false := .running []

theorem send (h : Flow c false seen) (xs : List α) : Flow (c ++ xs.map some) false seen := by
  cases h with
  | running ys =>
    rw [← List.map_append]
    exact .running (ys ++ xs)

theorem close (h : Flow c false seen) : Flow (c ++ [none]) true seen := by
  cases h with
  | running xs => exact .closed xs

/-- The receiver takes an item only before it has seen the marker. -/
theorem take_item {x : α} (h : Flow (some x :: c) closed seen) : seen = false ∧ Flow c closed seen := by
  generalize hc : some x :: c = c' at h
  cases h with
  | running xs =>
    cases xs with
    | nil => simp at hc
    | cons y ys =>
      rw [List.map_cons, List.cons.injEq] at hc
      rw [hc.2]
      exact ⟨rfl, .running ys⟩
  | closed xs =>
    obtain ⟨ys, -, rfl⟩ := some_cons_eq_marked.mp hc
    exact ⟨rfl, .closed ys⟩
  | seen hnil => simp [← hc] at hnil

/-- When the receiver takes the marker, the sender has closed and nothing is left. -/
theorem take_marker (h : Flow (none :: c) closed false) : closed = true ∧ c = [] := by
  generalize hc : none :: c = c' at h
  cases h with
  | running xs =>
    cases xs with
    | nil => simp at hc
    | cons y ys => simp at hc
  | closed xs => exact ⟨rfl, (none_cons_eq_marked.mp hc).2⟩

theorem items_seen (h : Flow c closed true) : closed = true ∧ c.reduceOption = [] := by
  cases h with
  | seen hnil => exact ⟨rfl, hnil⟩

/-- A marker put back behind the first one changes nothing. -/
theorem put_back (h : Flow c true true) : Flow (c ++ [none]) true true := by
  apply Flow.seen
  simp [List.reduceOption_append, h.items_seen.2]

end Flow
end Lib.EndMarked
