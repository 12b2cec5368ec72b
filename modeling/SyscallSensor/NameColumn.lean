import SyscallSensor.Collect
import SyscallSensor.Lib.RightEnd

/-! The name that `set_name` stores, next to the name column without the blanks around it. The
right cursor starts at the byte behind the column, and the byte it stops at is left out. -/
namespace SyscallSensor.Trace
open Text
open Lib.RightEnd

def isBlank (c : Byte) : Bool := c = blank

theorem isBlank_iff {c : Byte} : isBlank c = true ↔ c = blank := decide_eq_true_iff

theorem firstNonBlank_of_cut {block blanks rest : List Byte} {b : Nat} {c : Byte}
    (hcut : block.drop b = blanks ++ c :: rest) (hblanks : ∀ d ∈ blanks, isBlank d = true)
    (hc : isBlank c = false) : FirstNonBlank block b (b + blanks.length) := by
  refine ⟨by omega, ⟨c, ?_, ?_⟩, ?_⟩
  · rw [← List.getElem?_drop, hcut]
    simp
  · intro he
    rw [isBlank_iff.mpr he] at hc
    cases hc
  · intro j hj hlt
    obtain ⟨i, rfl⟩ := Nat.exists_eq_add_of_le hj
    have hi : i < blanks.length := by omega
    have hblank := isBlank_iff.mp (hblanks _ (List.getElem_mem hi))
    rw [← List.getElem?_drop, hcut, List.getElem?_append_left hi, List.getElem?_eq_getElem hi,
      hblank]

theorem lastNonBlank_of_cut {block front tail rest : List Byte} {b : Nat} {c : Byte}
    (hcut : block.drop b = front ++ c :: (tail ++ rest)) (hc : isBlank c = false)
    (htail : ∀ d ∈ tail, isBlank d = true) :
    LastNonBlank block (b + (front.length + tail.length)) (b + front.length) := by
  refine ⟨by omega, ⟨c, ?_, ?_⟩, ?_⟩
  · rw [← List.getElem?_drop, hcut]
    simp
  · intro he
    rw [isBlank_iff.mpr he] at hc
    cases hc
  · intro j hj hle
    obtain ⟨i, rfl⟩ := Nat.exists_eq_add_of_lt hj
    have hi : i < tail.length := by omega
    have hblank := isBlank_iff.mp (htail _ (List.getElem_mem hi))
    have hpos : b + front.length + i + 1 = b + (front.length + (i + 1)) := by omega
    rw [hpos, ← List.getElem?_drop, hcut, List.getElem?_append_right (by omega),
      Nat.add_sub_cancel_left, List.getElem?_cons_succ, List.getElem?_append_left hi,
      List.getElem?_eq_getElem hi, hblank]

/-- The cursors stand at the first and the last byte that is no blank, the second of which is
not stored. -/
theorem set_name_of_cut {block front tail rest : List Byte} {b : Nat} {x : Byte}
    (hcut : block.drop b = front ++ x :: (tail ++ rest)) (hx : isBlank x = false)
    (htail : ∀ c ∈ tail, isBlank c = true) (r : SysParamsRecord) :
    r.set_name ⟨block, b, front.length + tail.length⟩ =
      .ok { r with _name := front.dropWhile isBlank } := by
  have hfront : front.takeWhile isBlank ++ front.dropWhile isBlank = front :=
    List.takeWhile_append_dropWhile
  have hlength := congrArg List.length hfront
  have hbehind := congrArg List.length hcut
  simp only [List.length_append, List.length_drop, List.length_cons] at hlength hbehind
  have hlast := lastNonBlank_of_cut hcut hx htail
  have hfirst : FirstNonBlank block b (b + (front.takeWhile isBlank).length) := by
    have hhead := List.head?_dropWhile_not isBlank (front ++ x :: (tail ++ rest))
    rw [dropWhile_append_stop hx] at hhead
    cases hrest : front.dropWhile isBlank ++ x :: (tail ++ rest) with
    | nil => simp at hrest
    | cons c later =>
      rw [hrest] at hhead
      have hbegin : block.drop b = front.takeWhile isBlank ++ c :: later := by
        rw [hcut, ← hrest, ← List.append_assoc, hfront]
      exact firstNonBlank_of_cut hbegin (fun d hd => List.mem_takeWhile_imp hd) hhead
  have hname : (block.drop (b + (front.takeWhile isBlank).length)).take
      (b + front.length - (b + (front.takeWhile isBlank).length)) =
        front.dropWhile isBlank := by
    have hbytes : block.drop b = front.takeWhile isBlank ++
        (front.dropWhile isBlank ++ x :: (tail ++ rest)) := by
      rw [hcut, ← List.append_assoc, hfront]
    rw [← List.drop_drop, hbytes, List.drop_left, List.take_left' (by omega)]
  rw [set_name_ok_iff (by rw [StringRef.end_]; simp only; omega)]
  exact ⟨_, _, hfirst, hlast, by omega, by rw [hname]⟩

/-- Without a byte that is no blank the right cursor is in front of the column, or outside the
block, and the left one behind it. -/
theorem set_name_of_blanks {block column rest : List Byte} {b n : Nat}
    (hcut : block.drop b = column ++ rest) (hn : n < column.length)
    (hblanks : ∀ c ∈ column, isBlank c = true) (r r' : SysParamsRecord) :
    r.set_name ⟨block, b, n⟩ ≠ .ok r' := by
  intro h
  have hbehind := congrArg List.length hcut
  simp only [List.length_append, List.length_drop] at hbehind
  rw [set_name_ok_iff (by rw [StringRef.end_]; simp only; omega)] at h
  obtain ⟨first, last, hfirst, hlast, hle, -⟩ := h
  have hstart := hfirst.from_start
  have hend := hlast.to_start
  simp only [StringRef.end_] at hstart hend
  obtain ⟨i, rfl⟩ := Nat.exists_eq_add_of_le hstart
  have hi : i < column.length := by omega
  obtain ⟨c, hc, hne⟩ := hfirst.stops
  simp only at hc
  rw [← List.getElem?_drop, hcut, List.getElem?_append_left hi] at hc
  exact hne (isBlank_iff.mp (hblanks c (List.mem_of_getElem? hc)))

theorem set_name_eq_iff {r : SysParamsRecord} {block name other : List Byte} {b n : Nat}
    (h : r.set_name ⟨block, b, n⟩ = .ok { r with _name := name }) :
    r.set_name ⟨block, b, n⟩ = .ok { r with _name := other } ↔ name = other := by
  rw [h, Except.ok.injEq, SysParamsRecord.mk.injEq]
  simp

/-- The column is stored trimmed exactly when a byte that is no blank follows it, and its own
last byte is no blank or all of them are. -/
theorem set_name_trims {block column rest : List Byte} {b : Nat} {next : Byte}
    (hcut : block.drop b = column ++ next :: rest) (r : SysParamsRecord) :
    r.set_name ⟨block, b, column.length⟩ = .ok { r with _name := trim isBlank column } ↔
      isBlank next = false ∧
        ((∀ c ∈ column.getLast?, isBlank c = false) ∨ ∀ c ∈ column, isBlank c = true) := by
  have hwindow : block.drop b = (column ++ [next]) ++ rest := by
    rw [hcut, List.append_assoc, List.singleton_append]
  by_cases hall : ∀ c ∈ column ++ [next], isBlank c = true
  · have hshort : column.length < (column ++ [next]).length := by simp
    have hfault := set_name_of_blanks hwindow hshort hall r
    have hnext := hall next (by simp)
    exact iff_of_false (hfault _) (by simp [hnext])
  · obtain ⟨front, x, tail, hlast, hx, htail⟩ := exists_last hall
    have hbytes : block.drop b = front ++ x :: (tail ++ rest) := by
      rw [hwindow, hlast, List.append_assoc, List.cons_append]
    have hstored := set_name_of_cut hbytes hx htail r
    have hlength : column.length = front.length + tail.length := by
      have hlengths := congrArg List.length hlast
      simp only [List.length_append, List.length_cons, List.length_nil] at hlengths
      omega
    rw [← hlength] at hstored
    rw [set_name_eq_iff hstored]
    cases List.eq_nil_or_concat' tail with
    | inl hnil =>
      -- the right cursor stays behind the column
      rw [hnil] at hlast
      obtain ⟨rfl, hsame⟩ := List.append_inj' hlast rfl
      obtain rfl := List.head_eq_of_cons_eq hsame
      rw [dropWhile_eq_trim_iff, hx]
      simp
    | inr hconcat =>
      -- it moves into the column, and the byte it stops at is lost
      obtain ⟨blanks, y, rfl⟩ := hconcat
      rw [← List.cons_append, ← List.append_assoc] at hlast
      obtain ⟨rfl, hsame⟩ := List.append_inj' hlast rfl
      obtain rfl := List.head_eq_of_cons_eq hsame
      have hnext := htail next (by simp)
      rw [trim_append hx front fun c hc => htail c (by simp [hc])]
      exact iff_of_false (by simp) (by simp [hnext])

/-- Whatever the line is, the name is the trimmed column exactly when the column is followed by
a byte that is no blank and, unless it is blank as a whole, does not end in a blank. -/
theorem set_name_trims_iff {line : StringRef} (hlong : 64 < line.size_)
    (hin : line.end_ ≤ line.block.length) (r : SysParamsRecord) :
    r.set_name ⟨line.block, line.begin_, 16⟩ =
        .ok { r with _name := trim isBlank (line.text.take 16) } ↔
      line.text[16]? ≠ some blank ∧
        (line.text[15]? ≠ some blank ∨ ∀ c ∈ line.text.take 16, c = blank) := by
  rw [StringRef.end_] at hin
  have hsize : line.text.length = line.size_ := by
    rw [StringRef.text, List.length_take, List.length_drop]
    omega
  have hcolumn : (line.text.take 16).length = 16 := by
    rw [List.length_take]
    omega
  have hnext : line.text[16]? = some line.text[16] := List.getElem?_eq_getElem (by omega)
  have hlast : (line.text.take 16).getLast? = line.text[15]? := by
    rw [List.getLast?_eq_getElem?, hcolumn, List.getElem?_take_of_lt (by decide)]
  have hcut : line.block.drop line.begin_ = line.text.take 16 ++
      line.text[16] :: (line.text.drop 17 ++ line.block.drop (line.begin_ + line.size_)) := by
    rw [← List.cons_append, ← List.drop_eq_getElem_cons (by omega), ← List.append_assoc,
      List.take_append_drop, StringRef.text, ← List.drop_drop, List.take_append_drop]
  have hiff := set_name_trims hcut r
  rw [hcolumn, hlast, List.getElem?_eq_getElem (show 15 < line.text.length by omega)] at hiff
  rw [hiff, hnext, List.getElem?_eq_getElem (show 15 < line.text.length by omega)]
  simp [isBlank]

/- A line with a full name column. -/
def namedLine : StringRef := .ofLine (ascii "            bash-812" ++ List.replicate 60 blank)

theorem set_name_trims_namedLine :
    (SysParamsRecord.mk ⟨812, 3⟩ [] []).set_name ⟨namedLine.block, namedLine.begin_, 16⟩ =
      .ok ⟨⟨812, 3⟩, trim isBlank (namedLine.text.take 16), []⟩ :=
  (set_name_trims_iff (by decide) (by decide) ⟨⟨812, 3⟩, [], []⟩).mpr
    ⟨by decide, .inl (by decide)⟩

/- A line whose name stands at the left end of its column. -/
def leftLine : StringRef := .ofLine (ascii "bash" ++ List.replicate 61 blank)

/-- The byte behind the column is a blank, and the name is stored without its last byte. -/
theorem last_byte_lost :
    ¬ ∀ (line : StringRef) (r : SysParamsRecord), 64 < line.size_ →
      line.end_ ≤ line.block.length →
        r.set_name ⟨line.block, line.begin_, 16⟩ =
          .ok { r with _name := trim isBlank (line.text.take 16) } := by
  intro hall
  have htrimmed := hall leftLine ⟨⟨812, 3⟩, [], []⟩ (by decide) (by decide)
  have hcut : leftLine.block.drop 0 =
      (ascii "bash" ++ List.replicate 12 blank) ++ blank :: List.replicate 48 blank := by decide
  have hfollowed := (set_name_trims hcut _).mp htrimmed
  exact absurd hfollowed.1 (by decide)

end SyscallSensor.Trace
