import Mathlib.Data.List.DropRight
import Mathlib.Data.List.Basic
import SyscallSensor.Lib.Decimal

/-! Reading a text from its right end. What stands in front of the part that is read may be
anything, so a free text in the first field cannot disturb the fields behind it. -/
namespace Lib.RightEnd
variable {α : Type*}

/-- The part before the longest tail on which `p` holds, and that tail. -/
def cutTail (p : α → Bool) (l : List α) : List α × List α := (l.rdropWhile p, l.rtakeWhile p)

theorem cutTail_append {p : α → Bool} (l tail : List α) (htail : ∀ a ∈ tail, p a = true)
    (hstop : ∀ hl : l ≠ [], p (l.getLast hl) = false) : cutTail p (l ++ tail) = (l, tail) := by
  induction tail using List.reverseRecOn with
  | nil =>
    have hstop' : ∀ hl : l ≠ [], ¬ p (l.getLast hl) = true := by simpa using hstop
    rw [List.append_nil, cutTail, List.rdropWhile_eq_self_iff.mpr hstop',
      List.rtakeWhile_eq_nil_iff.mpr hstop']
  | append_singleton tail a ih =>
    have ha : p a = true := htail a (by simp)
    have hrest := ih fun b hb => htail b (by simp [hb])
    simp only [cutTail, Prod.mk.injEq] at hrest
    rw [← List.append_assoc, cutTail, List.rdropWhile_concat_pos _ _ _ ha,
      List.rtakeWhile_concat_pos _ _ _ ha, hrest.1, hrest.2]

/-- Without the longest head and tail on which `p` holds. -/
def trim (p : α → Bool) (l : List α) : List α := (l.rdropWhile p).dropWhile p

theorem trim_of_all {p : α → Bool} {l : List α} (h : ∀ a ∈ l, p a = true) : trim p l = [] := by
  rw [trim, List.rdropWhile_eq_nil_iff.mpr h, List.dropWhile_nil]

theorem dropWhile_append_stop {p : α → Bool} {a : α} (h : p a = false) (front tail : List α) :
    (front ++ a :: tail).dropWhile p = front.dropWhile p ++ a :: tail := by
  induction front with
  | nil => rw [List.nil_append, List.dropWhile_cons_of_neg (by simp [h]), List.dropWhile_nil,
      List.nil_append]
  | cons b front ih =>
    by_cases hb : p b = true
    · rw [List.cons_append, List.dropWhile_cons_of_pos hb, List.dropWhile_cons_of_pos hb, ih]
    · rw [List.cons_append, List.dropWhile_cons_of_neg hb, List.dropWhile_cons_of_neg hb,
        List.cons_append]

theorem trim_append {p : α → Bool} {a : α} (h : p a = false) (front : List α) {tail : List α}
    (htail : ∀ b ∈ tail, p b = true) :
    trim p (front ++ a :: tail) = front.dropWhile p ++ [a] := by
  have hstop : ∀ hl : front ++ [a] ≠ [], p ((front ++ [a]).getLast hl) = false := by
    intro hl
    rw [List.getLast_concat, h]
  have hcut := cutTail_append (front ++ [a]) tail htail hstop
  rw [cutTail, List.append_assoc, List.singleton_append, Prod.mk.injEq] at hcut
  rw [trim, hcut.1, dropWhile_append_stop h]

/-- The last element on which `p` fails. -/
theorem exists_last {p : α → Bool} {l : List α} (h : ¬ ∀ a ∈ l, p a = true) :
    ∃ front a tail, l = front ++ a :: tail ∧ p a = false ∧ ∀ b ∈ tail, p b = true := by
  induction l using List.reverseRecOn with
  | nil => exact absurd (by simp) h
  | append_singleton l a ih =>
    by_cases ha : p a = true
    · have hl : ¬ ∀ b ∈ l, p b = true := by
        intro hall
        apply h
        intro b hb
        cases List.mem_append.mp hb with
        | inl hb => exact hall b hb
        | inr hb => rwa [List.mem_singleton.mp hb]
      obtain ⟨front, c, tail, rfl, hc, htail⟩ := ih hl
      refine ⟨front, c, tail ++ [a], by simp, hc, ?_⟩
      intro b hb
      cases List.mem_append.mp hb with
      | inl hb => exact htail b hb
      | inr hb => rwa [List.mem_singleton.mp hb]
    · exact ⟨l, a, [], rfl, by simpa using ha, by simp⟩

/-- Dropping the head alone trims exactly the lists that do not end in what is dropped, and
those that are dropped as a whole. -/
theorem dropWhile_eq_trim_iff {p : α → Bool} {l : List α} :
    l.dropWhile p = trim p l ↔ (∀ a ∈ l.getLast?, p a = false) ∨ ∀ a ∈ l, p a = true := by
  by_cases hall : ∀ a ∈ l, p a = true
  · rw [trim_of_all hall, List.dropWhile_eq_nil_iff]
    exact iff_of_true hall (.inr hall)
  · obtain ⟨front, a, tail, rfl, ha, htail⟩ := exists_last hall
    rw [dropWhile_append_stop ha, trim_append ha _ htail, List.append_cancel_left_eq,
      or_iff_left hall]
    cases List.eq_nil_or_concat' tail with
    | inl hnil => simp [hnil, ha]
    | inr hlast =>
      obtain ⟨tail, b, rfl⟩ := hlast
      have hgetLast : (front ++ a :: (tail ++ [b])).getLast? = some b := by
        rw [← List.cons_append, ← List.append_assoc, List.getLast?_concat]
      refine iff_of_false (by simp) ?_
      intro hend
      have hb := hend b hgetLast
      rw [htail b (by simp)] at hb
      cases hb

theorem dropSuffix?_append [BEq α] [LawfulBEq α] (l s : List α) :
    (l ++ s).dropSuffix? s = some l :=
  List.dropSuffix?_eq_some_iff.mpr ⟨s, rfl, beq_self_eq_true s⟩

theorem dropPrefix?_append [BEq α] [LawfulBEq α] (p l : List α) :
    (p ++ l).dropPrefix? p = some l :=
  List.dropPrefix?_append_of_beq l (beq_self_eq_true p)

/-- The integer at the right end, and what stands before it. -/
def cutInt (l : List UInt8) : Option (List UInt8 × Int) :=
  (Lib.Decimal.readInt (cutTail Lib.Decimal.IsIntByte l).2).map
    fun v => ((cutTail Lib.Decimal.IsIntByte l).1, v)

/-- A separator that does not end like a number keeps the integer behind it apart. -/
theorem cutInt_append {sep : List UInt8}
    (hstop : sep.getLast?.map Lib.Decimal.IsIntByte = some false) (l : List UInt8) (v : Int) :
    cutInt (l ++ sep ++ Lib.Decimal.intText v) = some (l ++ sep, v) := by
  have hlast : ∀ hl : l ++ sep ≠ [], Lib.Decimal.IsIntByte ((l ++ sep).getLast hl) = false := by
    intro hl
    have hsep : sep ≠ [] := by
      intro he
      rw [he] at hstop
      cases hstop
    rw [List.getLast?_eq_some_getLast hsep, Option.map_some, Option.some.injEq] at hstop
    rw [List.getLast_append_of_ne_nil _ hsep, hstop]
  have hcut := cutTail_append (l ++ sep) (Lib.Decimal.intText v)
    (fun b hb => Lib.Decimal.intText_isIntByte hb) hlast
  rw [cutInt, hcut, Lib.Decimal.readInt_intText, Option.map_some]

end Lib.RightEnd
