import Mathlib.Data.List.Basic

/-! A file seen through one descriptor, while others may cut it to nothing: the offset of the
descriptor stays where it was, so the next write leaves a hole in front of it. -/
namespace Lib.SharedFile
variable {α : Type*}

/-- A write at `offset`: nothing is written for no bytes, and a gap is filled with `zero`. -/
def writeAt (zero : α) (content : List α) (offset : Nat) : List α → List α
  | [] => content
  | b :: bytes =>
    let padded := content ++ List.replicate (offset - content.length) zero
    padded.take offset ++ (b :: bytes) ++ padded.drop (offset + (b :: bytes).length)

/- `bytes` behind a hole, which is there only when something follows it. -/
def holed (zero : α) (gap : Nat) : List α → List α
  | [] => []
  | b :: bytes => List.replicate gap zero ++ (b :: bytes)

theorem holed_of_ne_nil (zero : α) (gap : Nat) {bytes : List α} (h : bytes ≠ []) :
    holed zero gap bytes = List.replicate gap zero ++ bytes := by
  cases bytes with
  | nil => exact absurd rfl h
  | cons b bytes => rfl

@[simp] theorem holed_zero (zero : α) (bytes : List α) : holed zero 0 bytes = bytes := by
  cases bytes <;> rfl

theorem holed_length_le (zero : α) (gap : Nat) (bytes : List α) :
    (holed zero gap bytes).length ≤ gap + bytes.length := by
  cases bytes <;> simp [holed]

/-- What a write at the end leaves, and past it. -/
theorem writeAt_past (zero : α) {content : List α} {offset : Nat} (h : content.length ≤ offset)
    {bytes : List α} (hbytes : bytes ≠ []) :
    writeAt zero content offset bytes =
      content ++ List.replicate (offset - content.length) zero ++ bytes := by
  cases bytes with
  | nil => exact absurd rfl hbytes
  | cons b bytes =>
    have hlength : (content ++ List.replicate (offset - content.length) zero).length = offset := by
      rw [List.length_append, List.length_replicate]
      omega
    rw [writeAt, List.take_of_length_le (Nat.le_of_eq hlength), List.drop_of_length_le,
      List.append_nil]
    omega

/-- A write extends what was written since the file was cut last, wherever that was. -/
theorem writeAt_holed (zero : α) {offset : Nat} {since : List α} (h : since.length ≤ offset)
    (bytes : List α) :
    writeAt zero (holed zero (offset - since.length) since) offset bytes =
      holed zero (offset - since.length) (since ++ bytes) := by
  have hwithin := holed_length_le zero (offset - since.length) since
  cases bytes with
  | nil => rw [writeAt, List.append_nil]
  | cons b bytes =>
    rw [writeAt_past zero (by omega) (List.cons_ne_nil b bytes)]
    cases since with
    | nil => simp [holed]
    | cons c since =>
      have hlength : (List.replicate (offset - (c :: since).length) zero ++ c :: since).length =
          offset := by
        rw [List.length_append, List.length_replicate]
        omega
      simp only [holed, List.cons_append, hlength, Nat.sub_self, List.replicate_zero,
        List.append_nil, List.append_assoc]

end Lib.SharedFile
