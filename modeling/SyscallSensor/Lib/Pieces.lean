import Mathlib.Data.List.Basic
import Mathlib.Data.List.Induction

/-! Splitting a list at a separator while it arrives in parts: the last piece of what has
been seen so far is all that the rest can still change. -/
namespace Lib.Pieces
variable {α : Type*} [BEq α]

/-- Appending to a list touches only the last of its pieces. -/
theorem splitOn_append_of_last {d : α} {x y t : List α} {ts : List (List α)}
    (h : x.splitOn d = ts ++ [t]) : (x ++ y).splitOn d = ts ++ (t ++ y).splitOn d := by
  induction x generalizing ts t with
  | nil =>
    rw [List.splitOn_nil] at h
    obtain ⟨rfl, rfl⟩ : ts = [] ∧ t = [] := by
      cases ts <;> simp_all
    rfl
  | cons a x ih =>
    rw [List.splitOn_cons_eq_if_modifyHead] at h
    rw [List.cons_append, List.splitOn_cons_eq_if_modifyHead]
    by_cases ha : (a == d) = true
    · rw [if_pos ha] at h ⊢
      cases ts with
      | nil => simp_all
      | cons p ts =>
        obtain ⟨rfl, htail⟩ := List.cons.inj h
        rw [ih htail]
        rfl
    · rw [if_neg ha] at h ⊢
      obtain ⟨p, ps, hx⟩ := List.exists_cons_of_ne_nil (List.splitOn_ne_nil d x)
      rw [hx, List.modifyHead_cons] at h
      cases ts with
      | nil =>
        obtain ⟨rfl, rfl⟩ := List.cons.inj h
        have hlast : x.splitOn d = [] ++ [p] := hx
        rw [ih hlast, List.nil_append, List.nil_append,
          List.cons_append, List.splitOn_cons_eq_if_modifyHead, if_neg ha]
      | cons q ts =>
        obtain ⟨rfl, rfl⟩ := List.cons.inj h
        have hlast : x.splitOn d = (p :: ts) ++ [t] := hx
        rw [ih hlast]
        rfl

/- What follows the last separator. -/
def behindLast (d : α) (x : List α) : List α := (x.splitOn d).getLastD []

theorem behindLast_eq {d : α} {x t : List α} {ts : List (List α)} (h : x.splitOn d = ts ++ [t]) :
    behindLast d x = t := by
  rw [behindLast, h, List.getLastD_concat]

/-- It is all of the list that a longer one needs for it. -/
theorem behindLast_append (d : α) (x y : List α) :
    behindLast d (x ++ y) = behindLast d (behindLast d x ++ y) := by
  obtain hnil | ⟨ts, t, hx⟩ := List.eq_nil_or_concat (x.splitOn d)
  · exact absurd hnil (List.splitOn_ne_nil d x)
  rw [List.concat_eq_append] at hx
  obtain hnil | ⟨ts', t', hy⟩ := List.eq_nil_or_concat ((t ++ y).splitOn d)
  · exact absurd hnil (List.splitOn_ne_nil d (t ++ y))
  rw [List.concat_eq_append] at hy
  have hxy := splitOn_append_of_last (y := y) hx
  rw [hy, ← List.append_assoc] at hxy
  rw [behindLast_eq hxy, behindLast_eq hx, behindLast_eq hy]

/-- There is one piece more than separators. -/
theorem length_splitOn (d : α) (x : List α) : (x.splitOn d).length = x.count d + 1 := by
  induction x with
  | nil => simp
  | cons a x ih =>
    rw [List.splitOn_cons_eq_if_modifyHead, List.count_cons]
    split
    · rw [List.length_cons, ih]
    · rw [List.length_modifyHead, ih]

variable [LawfulBEq α]

/-- The last piece is what follows the last separator. -/
theorem splitOn_last {d : α} {x t : List α} {ts : List (List α)}
    (h : x.splitOn d = ts ++ [t]) :
    d ∉ t ∧ ((ts = [] ∧ x = t) ∨ ∃ x', x = x' ++ d :: t ∧ x'.splitOn d = ts) := by
  induction x generalizing ts t with
  | nil =>
    rw [List.splitOn_nil] at h
    obtain ⟨rfl, rfl⟩ : ts = [] ∧ t = [] := by
      cases ts <;> simp_all
    simp
  | cons a x ih =>
    rw [List.splitOn_cons_eq_if_modifyHead] at h
    by_cases ha : (a == d) = true
    · rw [if_pos ha] at h
      obtain rfl := beq_iff_eq.mp ha
      cases ts with
      | nil => simp_all
      | cons p ts =>
        obtain ⟨rfl, htail⟩ := List.cons.inj h
        obtain ⟨hd, ⟨rfl, rfl⟩ | ⟨x', rfl, hx'⟩⟩ := ih htail
        · exact ⟨hd, .inr ⟨[], rfl, List.splitOn_nil _⟩⟩
        · refine ⟨hd, .inr ⟨a :: x', rfl, ?_⟩⟩
          rw [List.splitOn_cons_eq_if_modifyHead, if_pos ha, hx']
    · rw [if_neg ha] at h
      have hne : d ≠ a := fun he => ha (by simp [he])
      obtain ⟨p, ps, hx⟩ := List.exists_cons_of_ne_nil (List.splitOn_ne_nil d x)
      rw [hx, List.modifyHead_cons] at h
      cases ts with
      | nil =>
        obtain ⟨rfl, rfl⟩ := List.cons.inj h
        have hlast : x.splitOn d = [] ++ [p] := hx
        obtain ⟨hd, ⟨-, rfl⟩ | ⟨x', -, hx'⟩⟩ := ih hlast
        · exact ⟨by simp [hne, hd], .inl ⟨rfl, rfl⟩⟩
        · exact absurd hx' (List.splitOn_ne_nil d x')
      | cons q ts =>
        obtain ⟨rfl, rfl⟩ := List.cons.inj h
        have hlast : x.splitOn d = (p :: ts) ++ [t] := hx
        obtain ⟨hd, ⟨hnil, -⟩ | ⟨x', rfl, hx'⟩⟩ := ih hlast
        · cases hnil
        · refine ⟨hd, .inr ⟨a :: x', rfl, ?_⟩⟩
          rw [List.splitOn_cons_eq_if_modifyHead, if_neg ha, hx', List.modifyHead_cons]

/-- The list is its pieces, with the separator behind each but the last. -/
theorem eq_of_splitOn {d : α} {x t : List α} {ts : List (List α)} (h : x.splitOn d = ts ++ [t]) :
    x = (ts.flatMap fun p => p ++ [d]) ++ t := by
  induction ts using List.reverseRecOn generalizing x t with
  | nil =>
    obtain ⟨-, ⟨-, rfl⟩ | ⟨x', -, hx'⟩⟩ := splitOn_last h
    · rfl
    · exact absurd hx' (List.splitOn_ne_nil d x')
  | append_singleton ts p ih =>
    obtain ⟨-, ⟨hnil, -⟩ | ⟨x', rfl, hx'⟩⟩ := splitOn_last h
    · simp at hnil
    · rw [ih hx', List.flatMap_append, List.flatMap_singleton]
      simp

/-- Pieces longer than `m` that the separators of `block` complete: the first may be long
because of what was carried in, and every other one takes its length and its separator from
the block. -/
theorem long_pieces_le {d : α} {carry block t : List α} {ts : List (List α)} (hcarry : d ∉ carry)
    (h : (carry ++ block).splitOn d = ts ++ [t]) (m : Nat) :
    (ts.countP fun p => m < p.length) * (m + 2) ≤ block.length + (m + 1) := by
  have hlong : ∀ ps : List (List α), (ps.countP fun p => m < p.length) * (m + 2) ≤
      (ps.flatMap fun p => p ++ [d]).length := by
    intro ps
    induction ps with
    | nil => simp
    | cons p ps ih =>
      rw [List.countP_cons, List.flatMap_cons, List.length_append, List.length_append,
        List.length_singleton, Nat.add_mul]
      by_cases hp : m < p.length
      · simp only [hp, decide_true, if_true]
        omega
      · simp only [hp, decide_false, Bool.false_eq_true, if_false]
        omega
  have hwhole := eq_of_splitOn h
  cases ts with
  | nil => simp
  | cons p ps =>
    -- the first separator stands behind the carry
    have hfirst : carry.length ≤ p.length := by
      by_contra hshort
      apply hcarry
      have hat := congrArg (fun l => l[p.length]?) hwhole
      rw [List.flatMap_cons, List.append_assoc, List.append_assoc] at hat
      simp only [List.getElem?_append_left (Nat.lt_of_not_le hshort),
        List.getElem?_append_right (Nat.le_refl p.length), Nat.sub_self] at hat
      exact List.mem_of_getElem? hat
    have hlength := congrArg List.length hwhole
    have hrest := hlong ps
    simp only [List.flatMap_cons, List.length_append, List.length_singleton] at hlength
    rw [List.countP_cons, Nat.add_mul]
    split <;> omega

/-- The pieces determine the list. -/
theorem splitOn_injective (d : α) : Function.Injective (List.splitOn d) := by
  intro x y h
  have hx := @List.intercalate_splitOn _ x _ _ d
  rw [h, List.intercalate_splitOn] at hx
  exact hx.symm

theorem splitOn_snoc_separator {d : α} (x : List α) :
    (x ++ [d]).splitOn d = x.splitOn d ++ [[]] := by
  rw [List.splitOn_append_cons_self, List.splitOn_nil]

/-- Nothing but separators leaves nothing but empty pieces. -/
theorem splitOn_all_nil {d : α} (x : List α) :
    (∀ p ∈ x.splitOn d, p = []) ↔ ∀ a ∈ x, a = d := by
  induction x with
  | nil => simp
  | cons a x ih =>
    rw [List.splitOn_cons_eq_if_modifyHead, List.forall_mem_cons]
    by_cases ha : (a == d) = true
    · rw [if_pos ha, List.forall_mem_cons, ih]
      exact ⟨fun h => ⟨beq_iff_eq.mp ha, h.2⟩, fun h => ⟨rfl, h.2⟩⟩
    · obtain ⟨p, ps, hx⟩ := List.exists_cons_of_ne_nil (List.splitOn_ne_nil d x)
      rw [if_neg ha, hx, List.modifyHead_cons, List.forall_mem_cons]
      exact ⟨fun h => absurd h.1 (List.cons_ne_nil a p), fun h => absurd (beq_iff_eq.mpr h.1) ha⟩

theorem behindLast_of_not_mem {d : α} {x : List α} (h : d ∉ x) : behindLast d x = x := by
  have hone : x.splitOn d = [] ++ [x] := List.splitOn_eq_singleton h
  exact behindLast_eq hone

/-- The pieces of a list that ends with the separator, without the empty last one. -/
def cutEnded (d : α) (l : List α) : Option (List (List α)) := (l.splitOn d).dropSuffix? [[]]

theorem splitOn_ended {d : α} {ls : List (List α)} (h : ∀ l ∈ ls, d ∉ l) :
    (ls.flatMap fun l => l ++ [d]).splitOn d = ls ++ [[]] := by
  induction ls with
  | nil => exact List.splitOn_nil d
  | cons l ls ih =>
    have hl := h l (by simp)
    have hrest := ih fun m hm => h m (List.mem_cons_of_mem l hm)
    rw [List.flatMap_cons, List.append_assoc, List.singleton_append,
      List.splitOn_append_cons_self_of_not_mem hl, hrest, List.cons_append]

/-- Pieces written with the separator behind each of them are read back. -/
theorem cutEnded_flatMap {d : α} {ls : List (List α)} (h : ∀ l ∈ ls, d ∉ l) :
    cutEnded d (ls.flatMap fun l => l ++ [d]) = some ls := by
  rw [cutEnded, splitOn_ended h]
  exact List.dropSuffix?_eq_some_iff.mpr ⟨[[]], rfl, beq_self_eq_true _⟩

end Lib.Pieces
