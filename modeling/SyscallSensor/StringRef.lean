import Mathlib.Tactic.Linarith
import SyscallSensor.Lib.Outcome

/-! Byte strings in memory. An iterator is a position in a block of bytes; a read where the
block has no byte is a fault, and so is `std::string(first, last)` on a reversed range, which
throws `std::length_error`. -/
namespace SyscallSensor.Text

abbrev Byte := UInt8

def blank : Byte := 32
def newline : Byte := 10

def ascii (s : String) : List Byte := s.toList.map fun c => UInt8.ofNat c.toNat

inductive Fault where
  | outside (pos : Int)
  | lengthError
  | overflow (value : Int)
deriving DecidableEq, Repr

/-- `*it` for an iterator at `pos`. -/
def readAt (block : List Byte) (pos : Nat) : Except Fault Byte :=
  match block[pos]? with
  | some c => .ok c
  | none => .error (.outside pos)

/-- `std::string(first, last)`. -/
def stringOf (block : List Byte) (first : Nat) (last : Int) : Except Fault (List Byte) :=
  if last < first then .error .lengthError
  else if last ≤ block.length then .ok ((block.drop first).take (last.toNat - first))
  else .error (.outside block.length)

/-- The `n` bytes from `first` on, one after the other. -/
def readBytes (block : List Byte) (first : Nat) : Nat → Except Fault (List Byte)
  | 0 => pure []
  | n + 1 => do
    let c ← readAt block first
    let rest ← readBytes block (first + 1) n
    pure (c :: rest)

/-- `StringRef`. The copy `buffer_` is read by nobody, so only the effect of making it is
kept, in `StringRef.make`. -/
structure StringRef where
  block : List Byte
  begin_ : Nat
  size_ : Nat
deriving DecidableEq, Repr

def StringRef.end_ (ref : StringRef) : Nat := ref.begin_ + ref.size_

def StringRef.text (ref : StringRef) : List Byte := (ref.block.drop ref.begin_).take ref.size_

/-- What is there from `begin()` to `end()` now. -/
def StringRef.read (ref : StringRef) : Except Fault (List Byte) :=
  readBytes ref.block ref.begin_ ref.size_

/-- A line in a block of its own: every byte around it is out of reach. -/
def StringRef.ofLine (line : List Byte) : StringRef := ⟨line, 0, line.length⟩

/- The constructor `StringRef(begin, size)`. A negative `size` arrives as a huge `size_t`;
   added to `begin` it wraps back to an end before the begin, which is what the copy
   `buffer_(begin, begin + size)` then throws on. -/
def StringRef.make (block : List Byte) (first : Nat) (size : Int) : Except Fault StringRef := do
  let _ ← stringOf block first (first + size)
  pure ⟨block, first, size.toNat⟩

theorem readAt_lt {block : List Byte} {pos : Nat} (h : pos < block.length) :
    readAt block pos = .ok block[pos] := by
  simp [readAt, h]

theorem readBytes_inside {block : List Byte} {first n : Nat} (h : first + n ≤ block.length) :
    readBytes block first n = .ok ((block.drop first).take n) := by
  induction n generalizing first with
  | zero => rfl
  | succ n ih =>
    have hfirst := readAt_lt (show first < block.length by omega)
    have hrest := ih (show first + 1 + n ≤ block.length by omega)
    simp only [readBytes, hfirst, hrest, bind, Except.bind, pure, Except.pure]
    rw [List.drop_eq_getElem_cons (show first < block.length by omega), List.take_succ_cons]

/- Where there is no memory only nothing can be read. -/
theorem readBytes_gone {first n : Nat} {bytes : List Byte} :
    readBytes [] first n = .ok bytes ↔ n = 0 ∧ bytes = [] := by
  cases n with
  | zero => simp [readBytes, pure, Except.pure, eq_comm]
  | succ n => simp [readBytes, readAt, bind, Except.bind]

theorem stringOf_ok_iff {block : List Byte} {first : Nat} {last : Int} {s : List Byte} :
    stringOf block first last = .ok s ↔
      (first : Int) ≤ last ∧ last ≤ block.length ∧
        (block.drop first).take (last.toNat - first) = s := by
  unfold stringOf
  by_cases hneg : last < first
  · simp only [hneg, if_true, reduceCtorEq, false_iff]
    omega
  · by_cases hin : last ≤ block.length
    · simp only [hneg, hin, if_false, if_true, Except.ok.injEq]
      constructor
      · intro h
        exact ⟨by omega, trivial, h⟩
      · intro h
        exact h.2.2
    · simp [hneg, hin]

theorem StringRef.make_ok_iff {block : List Byte} {first : Nat} {size : Int} {ref : StringRef} :
    StringRef.make block first size = .ok ref ↔
      0 ≤ size ∧ (first : Int) + size ≤ block.length ∧ ref = ⟨block, first, size.toNat⟩ := by
  simp only [StringRef.make, Lib.Outcome.bind_eq_ok, stringOf_ok_iff, pure, Except.pure,
    Except.ok.injEq]
  constructor
  · rintro ⟨_, ⟨hle, hin, -⟩, rfl⟩
    exact ⟨by omega, hin, rfl⟩
  · rintro ⟨hpos, hin, rfl⟩
    exact ⟨_, ⟨by omega, hin, rfl⟩, rfl⟩

theorem StringRef.make_ok (block : List Byte) (first size : Nat)
    (h : first + size ≤ block.length) :
    StringRef.make block first size = .ok ⟨block, first, size⟩ :=
  StringRef.make_ok_iff.mpr ⟨by omega, by omega, by simp⟩

/-- A negative size makes the constructor throw, whatever the memory holds. -/
theorem StringRef.make_negative (block : List Byte) (first : Nat) {size : Int} (h : size < 0) :
    StringRef.make block first size = .error .lengthError := by
  have hneg : (first : Int) + size < first := by omega
  simp [StringRef.make, stringOf, hneg, bind, Except.bind]

end SyscallSensor.Text
