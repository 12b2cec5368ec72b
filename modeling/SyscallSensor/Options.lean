import SyscallSensor.SplitString
import SyscallSensor.SysRecord
import SyscallSensor.AggrStream
import SyscallSensor.LinuxDaemon

/-! `setup_stream` of main.cpp: which stream a start makes of its arguments. -/
namespace SyscallSensor.Options
open Text
open Trace (inInt)
open Daemon (isSpace)
open Lib.Decimal (IsDigit value)

inductive Stream where
  | socket (hostname : List Byte) (port : Int)
  | file (name : List Byte)
  | aggr (name : List Byte)
  | dumy
deriving DecidableEq, Repr

/- `std::find`: the arguments from `iter` on, of which there are none at `args.end()`. -/
def findArg (option : List Byte) (args : List (List Byte)) : List (List Byte) :=
  args.dropWhile (· ≠ option)

/-- `*(iter + 1)`. The option may be the last argument. -/
def valueBehind (iter : List (List Byte)) : Except Fault (List Byte) :=
  match iter with
  | _ :: value :: _ => .ok value
  | _ => .error (.outside iter.length)

/-- `std::atoi`, where a value outside `int` is not defined. -/
def atoi (s : List Byte) : Except Fault Int :=
  match s.dropWhile isSpace with
  | [] => .ok 0
  | b :: rest =>
    if b = 45 then inInt (-Int.ofNat (value (rest.takeWhile fun c => IsDigit c)))
    else if b = 43 then inInt (Int.ofNat (value (rest.takeWhile fun c => IsDigit c)))
    else inInt (Int.ofNat (value ((b :: rest).takeWhile fun c => IsDigit c)))

/-- `hostname` and `port`. Without a `:` both are the whole value: `npos + 1` is zero. -/
def address (value : List Byte) : List Byte × List Byte :=
  match find value 58 0 with
  | some split => (value.take split, value.drop (split + 1))
  | none => (value, value)

def setup_stream (args : List (List Byte)) : Except Fault Stream :=
  if findArg (ascii "-h") args ≠ [] then do
    let value ← valueBehind (findArg (ascii "-h") args)
    let port ← atoi (address value).2
    pure (.socket (address value).1 port)
  else if findArg (ascii "-o") args ≠ [] then do
    let name ← valueBehind (findArg (ascii "-o") args)
    pure (.file name)
  else if findArg (ascii "-a") args ≠ [] then do
    let name ← valueBehind (findArg (ascii "-a") args)
    pure (.aggr name)
  else .ok .dumy

/- The file that the constructor of the stream opens for writing. -/
def Stream.opened : Stream → Option (List Byte)
  | .file name => some name
  | .aggr name => some (AggrStream.FileAggrStream.make name 1024)._file.name
  | .socket _ _ => none
  | .dumy => none

/- The file that `dispatch` of a `file_stream` writes to. -/
def Stream.log : Stream → Option (List Byte)
  | .file name => some name
  | _ => none

theorem address_colon {hostname : List Byte} (h : 58 ∉ hostname) (port : List Byte) :
    address (hostname ++ 58 :: port) = (hostname, port) := by
  have hnone : hostname.findIdx? (· == (58 : Byte)) = none := by
    rw [List.findIdx?_eq_none_iff]
    intro b hb
    exact beq_eq_false_iff_ne.mpr (ne_of_mem_of_not_mem hb h)
  have hfind : find (hostname ++ 58 :: port) 58 0 = some hostname.length := by
    rw [find, List.drop_zero, List.findIdx?_append, hnone, List.findIdx?_cons]
    simp
  have hport : (hostname ++ 58 :: port).drop (hostname.length + 1) = port :=
    List.drop_length_add_append 1
  simp only [address, hfind, List.take_left, hport]

theorem isDigit_not_skipped {b : Byte} (h : IsDigit b) : isSpace b = false ∧ b ≠ 45 ∧ b ≠ 43 := by
  have hrange : 48 ≤ b.toNat ∧ b.toNat ≤ 57 := h
  have hblank : b ≠ blank := by
    rintro rfl
    exact absurd h (by decide)
  refine ⟨?_, ?_, ?_⟩
  · rw [isSpace, decide_eq_false_iff_not, not_or]
    exact ⟨hblank, by omega⟩
  · rintro rfl
    exact absurd h (by decide)
  · rintro rfl
    exact absurd h (by decide)

theorem atoi_text {n : Nat} (hn : n < 2 ^ 31) : atoi (Lib.Decimal.text n) = .ok n := by
  have hdigits : ∀ b ∈ Lib.Decimal.text n, IsDigit b := fun b hb => Lib.Decimal.text_isDigit hb
  have htake : (Lib.Decimal.text n).takeWhile (fun c => IsDigit c) = Lib.Decimal.text n :=
    List.takeWhile_eq_self_iff.mpr fun b hb => decide_eq_true (hdigits b hb)
  have hvalue := Lib.Decimal.value_text n
  cases htext : Lib.Decimal.text n with
  | nil => exact absurd htext (Lib.Decimal.text_ne_nil n)
  | cons b bs =>
    obtain ⟨hspace, hminus, hplus⟩ := isDigit_not_skipped (hdigits b (by simp [htext]))
    rw [htext] at htake hvalue
    have hint : -2 ^ 31 ≤ Int.ofNat n ∧ Int.ofNat n < 2 ^ 31 := by
      rw [Int.ofNat_eq_natCast]
      omega
    rw [atoi, List.dropWhile_cons_of_neg (by simp [hspace])]
    dsimp only
    rw [if_neg hminus, if_neg hplus, htake, hvalue, inInt, if_pos hint]
    rfl

theorem findArg_first {option : List Byte} {before : List (List Byte)} (h : option ∉ before)
    (after : List (List Byte)) : findArg option (before ++ option :: after) = option :: after := by
  rw [findArg, List.dropWhile_append_of_pos]
  · exact List.dropWhile_cons_of_neg (by simp)
  · intro arg harg
    exact decide_eq_true (ne_of_mem_of_not_mem harg h)

/-- A start with an address connects to it, whatever the other options are. -/
theorem setup_stream_address {before : List (List Byte)} (hbefore : ascii "-h" ∉ before)
    {hostname : List Byte} (hhost : 58 ∉ hostname) {port : Nat} (hport : port < 2 ^ 31)
    (after : List (List Byte)) :
    setup_stream (before ++ ascii "-h" :: (hostname ++ 58 :: Lib.Decimal.text port) :: after) =
      .ok (.socket hostname port) := by
  have hport := atoi_text hport
  rw [setup_stream, findArg_first hbefore, if_pos (List.cons_ne_nil _ _)]
  simp only [valueBehind, Lib.Outcome.ok_bind, address_colon hhost, hport, pure, Except.pure]

end SyscallSensor.Options
