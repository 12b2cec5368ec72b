import Mathlib.Data.List.Basic
import Mathlib.Tactic.Ring

/-! Numbers as strings of bits, the most significant bit first, and lists that are padded to a
multiple of a length and cut into groups of it. -/
namespace Lib.Bits
variable {α β : Type*}

/-- The `n` low bits of `v`. -/
def bits : Nat → Nat → List Bool
  | 0, _ => []
  | n + 1, v => bits n (v / 2) ++ [decide (v % 2 = 1)]

def value (bs : List Bool) : Nat := bs.foldl (fun v b => 2 * v + b.toNat) 0

theorem bits_length (n v : Nat) : (bits n v).length = n := by
  induction n generalizing v with
  | zero => rfl
  | succ n ih => rw [bits, List.length_append, ih, List.length_singleton]

theorem bits_append (m n x : Nat) {y : Nat} (h : y < 2 ^ n) :
    bits (m + n) (x * 2 ^ n + y) = bits m x ++ bits n y := by
  induction n generalizing y with
  | zero =>
    obtain rfl : y = 0 := by omega
    simp [bits]
  | succ n ih =>
    have hpow : x * 2 ^ (n + 1) = 2 * (x * 2 ^ n) := by ring
    have hhalf : (2 * (x * 2 ^ n) + y) / 2 = x * 2 ^ n + y / 2 := by omega
    have hlow : (2 * (x * 2 ^ n) + y) % 2 = y % 2 := by omega
    have hy : y / 2 < 2 ^ n := by
      rw [Nat.pow_succ] at h
      omega
    rw [← Nat.add_assoc, bits, hpow, hhalf, hlow, ih hy, bits, List.append_assoc]

/-- The high and the low bits of a number. -/
theorem bits_cut (m n v : Nat) : bits (m + n) v = bits m (v / 2 ^ n) ++ bits n (v % 2 ^ n) := by
  rw [← bits_append m n _ (Nat.mod_lt v (Nat.two_pow_pos n)), Nat.div_add_mod']

theorem value_bits {n v : Nat} (h : v < 2 ^ n) : value (bits n v) = v := by
  induction n generalizing v with
  | zero =>
    obtain rfl : v = 0 := by omega
    rfl
  | succ n ih =>
    have hhalf := ih (show v / 2 < 2 ^ n by rw [Nat.pow_succ] at h; omega)
    rw [value] at hhalf
    rw [bits, value, List.foldl_append, hhalf, List.foldl_cons, List.foldl_nil]
    by_cases hodd : v % 2 = 1
    · simp only [hodd, decide_true, Bool.toNat_true]
      omega
    · simp only [hodd, decide_false, Bool.toNat_false]
      omega

/-- Groups of `n`; the last one may be shorter. -/
def chunks (n : Nat) (xs : List α) : List (List α) :=
  if _h : n = 0 ∨ xs = [] then [] else xs.take n :: chunks n (xs.drop n)
termination_by xs.length
decreasing_by
  have hpos := List.length_pos_iff.mpr (not_or.mp _h).2
  rw [List.length_drop]
  omega

theorem chunks_nil (n : Nat) : chunks n ([] : List α) = [] := by
  rw [chunks, dif_pos (.inr rfl)]

theorem chunks_append {n : Nat} (hn : 0 < n) {group : List α} (hlen : group.length = n)
    (rest : List α) : chunks n (group ++ rest) = group :: chunks n rest := by
  have hne : ¬ (n = 0 ∨ group ++ rest = []) := by
    intro h
    cases h with
    | inl hzero => omega
    | inr hnil =>
      rw [List.append_eq_nil_iff] at hnil
      rw [hnil.1, List.length_nil] at hlen
      omega
  rw [chunks, dif_neg hne, List.take_left' hlen, List.drop_left' hlen]

theorem chunks_flatMap {n : Nat} (hn : 0 < n) {f : β → List α} (hlen : ∀ x, (f x).length = n)
    (xs : List β) (rest : List α) :
    chunks n (xs.flatMap f ++ rest) = xs.map f ++ chunks n rest := by
  induction xs with
  | nil => rfl
  | cons x xs ih =>
    rw [List.flatMap_cons, List.append_assoc, chunks_append hn (hlen x), ih, List.map_cons,
      List.cons_append]

/-- Copies of `x` behind the list, as few as bring its length to a multiple of `n`. -/
def padTo (n : Nat) (x : α) (xs : List α) : List α :=
  xs ++ List.replicate ((n - xs.length % n) % n) x

theorem padTo_nil (n : Nat) (x : α) : padTo n x [] = [] := by
  simp [padTo]

theorem padTo_append {n : Nat} (x : α) {front : List α} (h : n ∣ front.length) (rest : List α) :
    padTo n x (front ++ rest) = front ++ padTo n x rest := by
  obtain ⟨k, hk⟩ := h
  have hmod : (front.length + rest.length) % n = rest.length % n := by
    rw [hk, Nat.mul_add_mod]
  rw [padTo, padTo, List.length_append, hmod, List.append_assoc]

end Lib.Bits
