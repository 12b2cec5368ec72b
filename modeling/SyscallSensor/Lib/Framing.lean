import Mathlib.Algebra.Ring.Nat
import Mathlib.Data.List.Basic
import Mathlib.Data.List.Infix

/-! Length-prefixed frames: a big-endian header of fixed width that counts the bytes of the
body, and the receiver that cuts a stream back into bodies. -/
namespace Lib.Framing

def bigEndian : Nat → Nat → List UInt8
  | 0, _ => []
  | width + 1, n => bigEndian width (n / 256) ++ [UInt8.ofNat n]

def readBigEndian (bs : List UInt8) : Nat := bs.foldl (fun v b => v * 256 + b.toNat) 0

def frame (width : Nat) (body : List UInt8) : List UInt8 := bigEndian width body.length ++ body

/-- Read a header of `width` bytes, then as many bytes as it says, until the stream is used up. -/
def cut (width : Nat) (stream : List UInt8) : Option (List (List UInt8)) :=
  if stream = [] then some []
  else if width = 0 ∨ stream.length < width then none
  else
    let n := readBigEndian (stream.take width)
    let rest := stream.drop width
    if rest.length < n then none
    else (cut width (rest.drop n)).map fun bodies => rest.take n :: bodies
termination_by stream.length
decreasing_by
  simp only [List.length_drop]
  omega

theorem bigEndian_length (width n : Nat) : (bigEndian width n).length = width := by
  induction width generalizing n with
  | zero => rfl
  | succ width ih => simp [bigEndian, ih]

theorem readBigEndian_bigEndian {width n : Nat} (h : n < 256 ^ width) :
    readBigEndian (bigEndian width n) = n := by
  induction width generalizing n with
  | zero =>
    have hn : n = 0 := by simpa using h
    simp [bigEndian, readBigEndian, hn]
  | succ width ih =>
    have hd : n / 256 < 256 ^ width := by
      apply Nat.div_lt_of_lt_mul
      rw [Nat.mul_comm, ← Nat.pow_succ]
      exact h
    have hstep := ih hd
    rw [readBigEndian] at hstep ⊢
    rw [bigEndian, List.foldl_append, hstep]
    simp only [List.foldl_cons, List.foldl_nil, UInt8.toNat_ofNat']
    omega

/-- The receiver takes one frame off the front and goes on with what follows. -/
theorem cut_frame_append {width : Nat} (hw : 0 < width) {body rest : List UInt8}
    (hbody : body.length < 256 ^ width) :
    cut width (frame width body ++ rest) = (cut width rest).map (body :: ·) := by
  have hhead := bigEndian_length width body.length
  have htake : (frame width body ++ rest).take width = bigEndian width body.length := by
    rw [frame, List.append_assoc, List.take_append_of_le_length (by omega),
      List.take_of_length_le (by omega)]
  have hdrop : (frame width body ++ rest).drop width = body ++ rest := by
    rw [frame, List.append_assoc, List.drop_append_of_le_length (by omega),
      List.drop_of_length_le (by omega), List.nil_append]
  have hlen : (frame width body ++ rest).length = width + (body.length + rest.length) := by
    rw [frame, List.length_append, List.length_append, hhead, Nat.add_assoc]
  have hne : frame width body ++ rest ≠ [] := by
    intro hnil
    rw [hnil, List.length_nil] at hlen
    omega
  have hroom : ¬ (width = 0 ∨ (frame width body ++ rest).length < width) := by omega
  have hfits : ¬ (body ++ rest).length < body.length := by
    rw [List.length_append]
    omega
  rw [cut, if_neg hne, if_neg hroom]
  simp only [htake, hdrop, readBigEndian_bigEndian hbody, if_neg hfits, List.drop_left,
    List.take_left]

/-- Cutting a stream of frames gives back the bodies, and nothing is left over. -/
theorem cut_frames {width : Nat} (hw : 0 < width) {bodies : List (List UInt8)}
    (h : ∀ body ∈ bodies, body.length < 256 ^ width) :
    cut width (bodies.flatMap (frame width)) = some bodies := by
  induction bodies with
  | nil => simp [cut]
  | cons body bodies ih =>
    rw [List.forall_mem_cons] at h
    rw [List.flatMap_cons, cut_frame_append hw h.1, ih h.2]
    rfl

/-- A list in front of which a gap can be put is known from the gap and its own length: two
frames of one length cannot both go on behind the same gap. -/
theorem eq_of_isPrefix_append {α : Type*} {gap x y : List α} (hgap : gap ≠ [])
    (hlength : x.length = y.length) (hx : x <+: gap ++ x) (hy : y <+: gap ++ y) : x = y := by
  have hpos := List.length_pos_of_ne_nil hgap
  refine List.ext_getElem hlength ?_
  intro i
  induction i using Nat.strong_induction_on with
  | h i ih =>
    intro hi hi'
    rw [hx.getElem hi, hy.getElem hi']
    by_cases hgap : i < gap.length
    · rw [List.getElem_append_left hgap, List.getElem_append_left hgap]
    · -- an element behind the gap repeats an earlier one
      rw [List.getElem_append_right (by omega), List.getElem_append_right (by omega)]
      exact ih (i - gap.length) (by omega) (by omega) (by omega)

end Lib.Framing
