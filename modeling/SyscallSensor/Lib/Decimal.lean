import Mathlib.Data.Nat.Digits.Lemmas

/-! Decimal text as ASCII bytes: the digits of a number, most significant first, the left
fold that reads them back, and readers that accept nothing but digits. -/
namespace Lib.Decimal

def digitByte (d : Nat) : UInt8 := UInt8.ofNat (48 + d)

/-- Decimal text of a natural number; zero is the single digit `0`. -/
def text (n : Nat) : List UInt8 :=
  if n = 0 then [48] else (Nat.digits 10 n).reverse.map digitByte

/-- Decimal text of an integer, with a minus sign in front of negative values. -/
def intText : Int → List UInt8
  | .ofNat n => text n
  | .negSucc n => 45 :: text (n + 1)

def IsDigit (b : UInt8) : Prop := 48 ≤ b.toNat ∧ b.toNat ≤ 57

instance (b : UInt8) : Decidable (IsDigit b) := inferInstanceAs (Decidable (_ ∧ _))

/-- The value of a digit text, read from the left. -/
def value (bs : List UInt8) : Nat := bs.foldl (fun v b => v * 10 + (b.toNat - 48)) 0

def readNat (bs : List UInt8) : Option Nat :=
  if bs ≠ [] ∧ bs.all (fun b => IsDigit b) = true then some (value bs) else none

/-- A number, or a minus sign and a number. -/
def readInt : List UInt8 → Option Int
  | [] => none
  | b :: bs =>
    if b = 45 then (readNat bs).map fun n => -Int.ofNat n
    else (readNat (b :: bs)).map Int.ofNat

/- The bytes that `intText` is made of. -/
def IsIntByte (b : UInt8) : Bool := b = 45 ∨ IsDigit b

theorem digitByte_toNat {d : Nat} (h : d < 10) : (digitByte d).toNat = 48 + d := by
  rw [digitByte, UInt8.toNat_ofNat']
  omega

theorem digitByte_isDigit {d : Nat} (h : d < 10) : IsDigit (digitByte d) := by
  rw [IsDigit, digitByte_toNat h]
  omega

theorem text_isDigit {n : Nat} {b : UInt8} (h : b ∈ text n) : IsDigit b := by
  by_cases hn : n = 0
  · simp only [text, hn, if_true, List.mem_singleton] at h
    subst h
    decide
  · simp only [text, hn, if_false, List.mem_map, List.mem_reverse] at h
    obtain ⟨d, hd, rfl⟩ := h
    exact digitByte_isDigit (Nat.digits_lt_base (by decide) hd)

theorem not_mem_text {b : UInt8} (hb : ¬ IsDigit b) (n : Nat) : b ∉ text n :=
  fun h => hb (text_isDigit h)

theorem text_ne_nil (n : Nat) : text n ≠ [] := by
  by_cases hn : n = 0
  · simp [text, hn]
  · simpa [text, hn] using Nat.digits_ne_nil_iff_ne_zero.mpr hn

theorem text_length_pos (n : Nat) : 0 < (text n).length :=
  List.length_pos_iff.mpr (text_ne_nil n)

theorem text_length_le {n k : Nat} (hk : 0 < k) (h : n < 10 ^ k) : (text n).length ≤ k := by
  by_cases hn : n = 0
  · simp only [text, hn, if_true, List.length_singleton]
    omega
  · simp only [text, hn, if_false, List.length_map, List.length_reverse]
    exact (Nat.digits_length_le_iff (by decide) n).mpr h

theorem value_snoc (bs : List UInt8) (b : UInt8) :
    value (bs ++ [b]) = value bs * 10 + (b.toNat - 48) := by
  simp [value]

theorem value_digits (ds : List Nat) (h : ∀ d ∈ ds, d < 10) :
    value (ds.reverse.map digitByte) = Nat.ofDigits 10 ds := by
  induction ds with
  | nil => rfl
  | cons d ds ih =>
    have hd : d < 10 := h d (by simp)
    have htail := ih fun e he => h e (List.mem_cons_of_mem d he)
    rw [List.reverse_cons, List.map_append, List.map_cons, List.map_nil, value_snoc, htail,
      digitByte_toNat hd, Nat.ofDigits_cons]
    simp only [Nat.add_sub_cancel_left]
    omega

/-- Reading the text of a number gives the number. -/
theorem value_text (n : Nat) : value (text n) = n := by
  by_cases hn : n = 0
  · simp [text, hn, value]
  · simp only [text, hn, if_false]
    rw [value_digits _ fun d hd => Nat.digits_lt_base (by decide) hd, Nat.ofDigits_digits]

theorem readNat_text (n : Nat) : readNat (text n) = some n := by
  have hdigits : (text n).all (fun b => IsDigit b) = true :=
    List.all_eq_true.mpr fun b hb => decide_eq_true (text_isDigit hb)
  rw [readNat, if_pos ⟨text_ne_nil n, hdigits⟩, value_text]

theorem readInt_text (n : Nat) : readInt (text n) = some (Int.ofNat n) := by
  have hread := readNat_text n
  cases htext : text n with
  | nil => exact absurd htext (text_ne_nil n)
  | cons b bs =>
    have hdigit : IsDigit b := text_isDigit (n := n) (by simp [htext])
    have hminus : b ≠ 45 := by
      intro he
      rw [he] at hdigit
      exact absurd hdigit (by decide)
    rw [htext] at hread
    simp only [readInt, hminus, if_false, hread, Option.map_some]

/-- Reading the text of an integer gives the integer. -/
theorem readInt_intText (v : Int) : readInt (intText v) = some v := by
  cases v with
  | ofNat n => exact readInt_text n
  | negSucc n =>
    simp only [intText, readInt, if_true, readNat_text, Option.map_some]
    exact congrArg some (Int.neg_ofNat_succ n)

theorem intText_ne_nil (v : Int) : intText v ≠ [] := by
  cases v with
  | ofNat n => exact text_ne_nil n
  | negSucc n => exact List.cons_ne_nil _ _

theorem intText_isIntByte {v : Int} {b : UInt8} (h : b ∈ intText v) : IsIntByte b = true := by
  rw [IsIntByte, decide_eq_true_eq]
  cases v with
  | ofNat n => exact .inr (text_isDigit h)
  | negSucc n =>
    cases List.mem_cons.mp h with
    | inl hb => exact .inl hb
    | inr hb => exact .inr (text_isDigit hb)

theorem not_mem_intText {b : UInt8} (hb : IsIntByte b = false) (v : Int) : b ∉ intText v := by
  intro h
  rw [intText_isIntByte h] at hb
  cases hb

end Lib.Decimal
