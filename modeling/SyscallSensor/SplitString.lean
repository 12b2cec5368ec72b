import SyscallSensor.StringRef
import SyscallSensor.Lib.Pieces

/-! `find` and `split_string` of utils.h, for a delimiter of one byte: the complete pieces
become `StringRef`s into the string, the piece after the last delimiter is carried over. -/
namespace SyscallSensor.Text

/-- `str.find(delimiter, start)`, with `none` for `npos`. -/
def find (str : List Byte) (delimiter : Byte) (start : Nat) : Option Nat :=
  ((str.drop start).findIdx? (· == delimiter)).map (start + ·)

theorem find_eq_none {str : List Byte} {delimiter : Byte} {start : Nat} :
    find str delimiter start = none ↔ delimiter ∉ str.drop start := by
  simp only [find, Option.map_eq_none_iff, List.findIdx?_eq_none_iff, beq_eq_false_iff_ne]
  constructor
  · intro h hmem
    exact h delimiter hmem rfl
  · rintro h c hmem rfl
    exact h hmem

/-- A hit cuts the rest of the string into a piece without the delimiter, the delimiter,
and what follows it. -/
theorem find_eq_some {str : List Byte} {delimiter : Byte} {start pos : Nat}
    (h : find str delimiter start = some pos) :
    start ≤ pos ∧ pos < str.length ∧ delimiter ∉ (str.drop start).take (pos - start) ∧
      str.drop start = (str.drop start).take (pos - start) ++ delimiter :: str.drop (pos + 1) := by
  simp only [find, Option.map_eq_some_iff, List.findIdx?_eq_some_iff_getElem] at h
  obtain ⟨i, ⟨hi, hhit, hbefore⟩, rfl⟩ := h
  have hlen : start + i < str.length := by
    rw [List.length_drop] at hi
    omega
  have hhead : (str.drop start)[i] = delimiter := beq_iff_eq.mp hhit
  refine ⟨by omega, hlen, ?_, ?_⟩
  · rw [Nat.add_sub_cancel_left]
    intro hmem
    obtain ⟨j, hj, hje⟩ := List.mem_take_iff_getElem.mp hmem
    exact hbefore j (by omega) (by simp [hje])
  · rw [Nat.add_sub_cancel_left]
    calc
      str.drop start = (str.drop start).take i ++ (str.drop start).drop i :=
          (List.take_append_drop i _).symm
      _ = (str.drop start).take i ++ delimiter :: str.drop (start + i + 1) := by
          rw [List.drop_eq_getElem_cons hi, hhead, List.drop_drop, ← Nat.add_assoc]

/-- The `while` loop of `split_string` from `prev` on; the second component is the final
value of `prev`. -/
def splitLoop (str : List Byte) (delimiter : Byte) (prev : Nat) : List StringRef × Nat :=
  match _hfind : find str delimiter prev with
  | none => ([], prev)
  | some pos =>
    let (strings, last) := splitLoop str delimiter (pos + 1)
    (⟨str, prev, pos - prev⟩ :: strings, last)
termination_by str.length - prev
decreasing_by
  have hpos := find_eq_some _hfind
  omega

/- `str.size() - 1` in `size_t`. -/
def sizeMinusOne (n : Nat) : Nat := if n = 0 then 2 ^ 64 - 1 else n - 1

structure SplitResult where
  strings : List StringRef
  str : List Byte
  last_line : List Byte

/-- `split_string`: the pieces, and the final values of its two reference arguments. -/
def splitString (str : List Byte) (delimiter : Byte) (last_line : List Byte) : SplitResult :=
  let (strings, prev) := splitLoop str delimiter 0
  if prev < sizeMinusOne str.length then
    ⟨strings, str.take prev, last_line ++ str.drop prev⟩
  else
    ⟨strings, str, last_line⟩

theorem splitLoop_le (str : List Byte) (delimiter : Byte) (prev : Nat) :
    prev ≤ (splitLoop str delimiter prev).2 := by
  fun_induction splitLoop str delimiter prev with
  | case1 prev h => exact Nat.le_refl prev
  | case2 prev pos h strings last hrec ih =>
    have hpos := (find_eq_some h).1
    rw [hrec] at ih
    simp only at ih ⊢
    omega

/-- A delimiter at the end alone makes one piece. -/
theorem splitLoop_ended {line : List Byte} {delimiter : Byte} (h : delimiter ∉ line) :
    splitLoop (line ++ [delimiter]) delimiter 0 =
      ([⟨line ++ [delimiter], 0, line.length⟩], line.length + 1) := by
  have hfirst : find (line ++ [delimiter]) delimiter 0 = some line.length := by
    have hnone : line.findIdx? (· == delimiter) = none := by
      rw [List.findIdx?_eq_none_iff]
      intro c hc
      exact beq_eq_false_iff_ne.mpr fun he => h (he ▸ hc)
    simp [find, List.findIdx?_append, hnone]
  have hbehind : find (line ++ [delimiter]) delimiter (line.length + 1) = none := by
    rw [find_eq_none, List.drop_of_length_le (by simp)]
    exact List.not_mem_nil
  have hrest : splitLoop (line ++ [delimiter]) delimiter (line.length + 1) =
      ([], line.length + 1) := by
    rw [splitLoop]
    split
    · rfl
    · rename_i pos hpos
      rw [hbehind] at hpos
      cases hpos
  rw [splitLoop]
  split
  · rename_i hnone
    rw [hfirst] at hnone
    cases hnone
  · rename_i pos hpos
    rw [hfirst] at hpos
    obtain rfl := Option.some.inj hpos
    rw [hrest, Nat.sub_zero]

/-- The loop cuts the rest of the string at every delimiter, and each piece, with the
delimiter after it, lies in front of the final `prev`. -/
theorem splitLoop_spec (str : List Byte) (delimiter : Byte) (prev : Nat) :
    (splitLoop str delimiter prev).1.map StringRef.text ++
        [str.drop (splitLoop str delimiter prev).2] = (str.drop prev).splitOn delimiter ∧
      (prev ≤ str.length → (splitLoop str delimiter prev).2 ≤ str.length) ∧
      ∀ ref ∈ (splitLoop str delimiter prev).1,
        ref.block = str ∧ ref.end_ < (splitLoop str delimiter prev).2 := by
  fun_induction splitLoop str delimiter prev with
  | case1 prev h =>
    have hnot := find_eq_none.mp h
    simp [List.splitOn_eq_singleton hnot]
  | case2 prev pos h strings last hrec ih =>
    obtain ⟨hle, hlt, hnot, hcut⟩ := find_eq_some h
    rw [hrec] at ih
    obtain ⟨htexts, hlast, hrefs⟩ := ih
    have hlast' := hlast (by omega)
    have hgrow := splitLoop_le str delimiter (pos + 1)
    rw [hrec] at hgrow
    refine ⟨?_, fun _ => hlast', ?_⟩
    · rw [hcut, List.splitOn_append_cons_self_of_not_mem hnot, ← htexts]
      simp [StringRef.text]
    · intro ref hmem
      obtain rfl | hmem := List.mem_cons.mp hmem
      · refine ⟨rfl, ?_⟩
        simp only [StringRef.end_]
        omega
      · exact hrefs ref hmem

/- What is carried over: nothing when the piece after the last delimiter is one byte long,
   since `prev < str.size()-1` then fails and the byte is neither emitted nor kept. -/
def carry (tail : List Byte) : List Byte := if tail.length = 1 then [] else tail

/-- One call of `split_string`, in terms of the pieces of the string: what it emits, what
it carries over, and that every `StringRef` reads bytes the truncated string still has. -/
theorem splitString_spec (str : List Byte) (delimiter : Byte) (last_line : List Byte) :
    ∃ tail, (splitString str delimiter last_line).strings.map StringRef.text ++ [tail] =
        str.splitOn delimiter ∧
      (splitString str delimiter last_line).last_line = last_line ++ carry tail ∧
      (splitString str delimiter last_line).str <+: str ∧
      ∀ ref ∈ (splitString str delimiter last_line).strings,
        ref.block = str ∧ ref.end_ ≤ (splitString str delimiter last_line).str.length := by
  obtain ⟨htexts, hlast, hrefs⟩ := splitLoop_spec str delimiter 0
  have hle := hlast (Nat.zero_le _)
  generalize hloop : splitLoop str delimiter 0 = result at htexts hle hrefs
  obtain ⟨strings, prev⟩ := result
  simp only [List.drop_zero] at htexts hle hrefs
  refine ⟨str.drop prev, ?_, ?_, ?_, ?_⟩
  · simp only [splitString, hloop]
    split <;> exact htexts
  · simp only [splitString, hloop, carry, List.length_drop, sizeMinusOne]
    by_cases hone : str.length - prev = 1
    · rw [if_neg (by split <;> omega), if_pos hone]
      simp
    · by_cases hend : prev = str.length
      · have hnil : str.drop prev = [] := by simp [hend]
        simp only [hnil]
        split_ifs <;> simp
      · rw [if_pos (by split <;> omega), if_neg hone]
  · simp only [splitString, hloop]
    split
    · exact List.take_prefix prev str
    · exact List.prefix_refl str
  · intro ref hmem
    have href : ref ∈ strings := by
      simp only [splitString, hloop] at hmem
      split at hmem <;> exact hmem
    obtain ⟨hblock, hend⟩ := hrefs ref href
    refine ⟨hblock, ?_⟩
    simp only [splitString, hloop]
    split
    · simp only [List.length_take]
      omega
    · change ref.end_ ≤ str.length
      omega

end SyscallSensor.Text
