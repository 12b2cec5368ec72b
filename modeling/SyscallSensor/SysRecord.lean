import Mathlib.Algebra.Order.Ring.Int
import SyscallSensor.StringRef
import SyscallSensor.Lib.Decimal

/-! The trace records: the digit loops of `SysRecord`, the cursor loops of
`SysParamsRecord::set_name`, and `to_string`. Arithmetic that leaves `int` or `short` is a
fault, so a result is also a proof that nothing overflowed. -/
namespace SyscallSensor.Trace
open Text

/-- The value of a `char`, which is signed. -/
def charValue (c : Byte) : Int := if c.toNat < 128 then c.toNat else c.toNat - 256

def inInt (v : Int) : Except Fault Int :=
  if -2 ^ 31 ≤ v ∧ v < 2 ^ 31 then .ok v else .error (.overflow v)

/- `syscall_t` is `short int`. -/
def inSyscall (v : Int) : Except Fault Int :=
  if -2 ^ 15 ≤ v ∧ v < 2 ^ 15 then .ok v else .error (.overflow v)

/-- `value * 10 + (*begin - '0')`, computed in `int`. -/
def mulAdd (value : Int) (c : Byte) : Except Fault Int := do
  let tens ← inInt (value * 10)
  inInt (tens + (charValue c - 48))

/-- The loop of `set_pid` and `set_syscall` from `pos`, with `left` bytes before the end of
the range; `store` assigns to the member. -/
def digitLoop (store : Int → Except Fault Int) (block : List Byte) :
    Nat → Nat → Int → Except Fault Int
  | _, 0, value => .ok value
  | pos, left + 1, value => do
    let c ← readAt block pos
    if c = blank then .ok value
    else
      let sum ← mulAdd value c
      let value ← store sum
      digitLoop store block (pos + 1) left value

structure SysRecord where
  _pid : Int := 0
  _syscall : Int := 0
deriving DecidableEq, Repr

def SysRecord.set_pid (r : SysRecord) (pid : StringRef) : Except Fault SysRecord := do
  let v ← digitLoop inInt pid.block pid.begin_ pid.size_ r._pid
  pure { r with _pid := v }

def SysRecord.set_syscall (r : SysRecord) (syscall_id : StringRef) : Except Fault SysRecord := do
  let v ← digitLoop inSyscall syscall_id.block syscall_id.begin_ syscall_id.size_ r._syscall
  pure { r with _syscall := v }

def SysRecord.make (pid syscall : StringRef) : Except Fault SysRecord := do
  let r ← SysRecord.set_pid {} pid
  r.set_syscall syscall

/-- `while(*begin == ' ') ++begin;` over the bytes from `pos` on. -/
def skipRight : List Byte → Nat → Except Fault Nat
  | [], pos => .error (.outside pos)
  | c :: rest, pos => if c = blank then skipRight rest (pos + 1) else .ok pos

/-- `while(*end == ' ') --end;`. -/
def skipLeft (block : List Byte) : Nat → Except Fault Nat
  | 0 => do
    let c ← readAt block 0
    if c = blank then .error (.outside (-1)) else .ok 0
  | pos + 1 => do
    let c ← readAt block (pos + 1)
    if c = blank then skipLeft block pos else .ok (pos + 1)

structure SysParamsRecord extends SysRecord where
  _name : List Byte := []
  _arg : List Byte := []
deriving DecidableEq, Repr

def SysParamsRecord.set_name (r : SysParamsRecord) (name : StringRef) :
    Except Fault SysParamsRecord := do
  let first ← skipRight (name.block.drop name.begin_) name.begin_
  let last ← skipLeft name.block name.end_
  let s ← stringOf name.block first last
  pure { r with _name := s }

/- `set_arg` is commented out in the constructor, so `arg` is not read. -/
def SysParamsRecord.make (name pid syscall _arg : StringRef) : Except Fault SysParamsRecord := do
  let base ← SysRecord.make pid syscall
  SysParamsRecord.set_name { toSysRecord := base } name

/-- `'{0}','{1}','{2}','{3}'`. -/
def SysParamsRecord.to_string (r : SysParamsRecord) : List Byte :=
  ascii "'" ++ r._name ++ ascii "','" ++ Lib.Decimal.intText r._pid ++ ascii "','" ++
    Lib.Decimal.intText r._syscall ++ ascii "','" ++ r._arg ++ ascii "'"

/-- The number in front of the first blank, read digit by digit. -/
def digitFold (bs : List Byte) (value : Int) : Int :=
  (bs.takeWhile (· ≠ blank)).foldl (fun v c => v * 10 + (charValue c - 48)) value

/-- A byte that is in no number and no delimiter comes from the name or the argument. -/
theorem SysParamsRecord.not_mem_to_string {r : SysParamsRecord} {b : Byte}
    (hint : Lib.Decimal.IsIntByte b = false) (hsep : b ∉ ascii "','") (hname : b ∉ r._name)
    (harg : b ∉ r._arg) : b ∉ r.to_string := by
  have hquote : b ∉ ascii "'" := by
    intro hb
    rw [List.mem_singleton.mp hb] at hsep
    exact absurd hsep (by decide)
  have hnumber : ∀ v, b ∉ Lib.Decimal.intText v := Lib.Decimal.not_mem_intText hint
  simp [SysParamsRecord.to_string, hname, harg, hquote, hsep, hnumber]

theorem charValue_bounds (c : Byte) : -128 ≤ charValue c ∧ charValue c ≤ 127 := by
  have h := c.toNat_lt
  unfold charValue
  split <;> omega

theorem charValue_digit {b : Byte} (h : Lib.Decimal.IsDigit b) :
    charValue b - 48 = (b.toNat - 48 : Nat) := by
  obtain ⟨hlo, hhi⟩ := h
  rw [charValue, if_pos (by omega)]
  omega

/-- On digits the loop of the parser computes their decimal value. -/
theorem foldl_digits {ds : List Byte} (h : ∀ b ∈ ds, Lib.Decimal.IsDigit b) (v : Nat) :
    ds.foldl (fun (v : Int) c => v * 10 + (charValue c - 48)) v =
      (ds.foldl (fun v b => v * 10 + (b.toNat - 48)) v : Nat) := by
  induction ds generalizing v with
  | nil => rfl
  | cons b ds ih =>
    rw [List.forall_mem_cons] at h
    rw [List.foldl_cons, List.foldl_cons, charValue_digit h.1, ← ih h.2]
    push_cast
    rfl

/-- While the magnitude keeps room for `left` more digits, the loop stays inside its range
and its type. -/
theorem digitLoop_ok {store : Int → Except Fault Int} {block : List Byte} {limit : Int}
    (hstore : ∀ v : Int, |v| < limit → store v = .ok v) (hlimit : limit ≤ 2 ^ 31)
    {pos left : Nat} (value : Int) (hin : pos + left ≤ block.length)
    (hroom : (|value| + 20) * 10 ^ left ≤ limit) :
    digitLoop store block pos left value =
      .ok (digitFold ((block.drop pos).take left) value) := by
  induction left generalizing pos value with
  | zero => simp [digitLoop, digitFold]
  | succ left ih =>
    have hpos : pos < block.length := by omega
    have hcut : (block.drop pos).take (left + 1) =
        block[pos] :: (block.drop (pos + 1)).take left := by
      rw [List.drop_eq_getElem_cons hpos, List.take_succ_cons]
    simp only [digitLoop, readAt_lt hpos, hcut, bind, Except.bind]
    by_cases hblank : block[pos] = blank
    · simp [hblank, digitFold]
    · have hc := charValue_bounds block[pos]
      have hone : (1 : Int) ≤ 10 ^ left := one_le_pow₀ (by norm_num)
      have hgrow : (|value| + 20) * 10 ≤ limit := by
        rw [pow_succ] at hroom
        nlinarith [abs_nonneg value]
      have habs := abs_le.mp (le_refl |value|)
      have hnext : |value * 10 + (charValue block[pos] - 48)| + 20 ≤ (|value| + 20) * 10 := by
        rw [← le_sub_iff_add_le, abs_le]
        constructor <;> omega
      have htens : inInt (value * 10) = .ok (value * 10) := by
        rw [inInt, if_pos]
        constructor <;> omega
      have hsum : inInt (value * 10 + (charValue block[pos] - 48)) =
          .ok (value * 10 + (charValue block[pos] - 48)) := by
        rw [inInt, if_pos]
        constructor <;> omega
      have hstored := hstore (value * 10 + (charValue block[pos] - 48)) (by omega)
      have hroom' : (|value * 10 + (charValue block[pos] - 48)| + 20) * 10 ^ left ≤ limit := by
        calc
          (|value * 10 + (charValue block[pos] - 48)| + 20) * 10 ^ left
              ≤ (|value| + 20) * 10 * 10 ^ left := by
                exact mul_le_mul_of_nonneg_right hnext (by positivity)
          _ = (|value| + 20) * 10 ^ (left + 1) := by ring
          _ ≤ limit := hroom
      simp only [hblank, if_false, mulAdd, htens, hsum, hstored, bind, Except.bind]
      rw [ih _ (by omega) hroom']
      simp [digitFold, hblank]

/-- A window of five bytes never overflows `int`, one of three never overflows `short`,
whatever the bytes are. -/
theorem SysRecord.make_ok (block : List Byte) (p q : Nat) (hpid : p + 5 ≤ block.length)
    (hsyscall : q + 3 ≤ block.length) :
    SysRecord.make ⟨block, p, 5⟩ ⟨block, q, 3⟩ =
      .ok ⟨digitFold ((block.drop p).take 5) 0, digitFold ((block.drop q).take 3) 0⟩ := by
  have hint : ∀ v : Int, |v| < 2 ^ 31 → inInt v = .ok v := by
    intro v hv
    obtain ⟨hlo, hhi⟩ := abs_lt.mp hv
    rw [inInt, if_pos ⟨by omega, hhi⟩]
  have hshort : ∀ v : Int, |v| < 2 ^ 15 → inSyscall v = .ok v := by
    intro v hv
    obtain ⟨hlo, hhi⟩ := abs_lt.mp hv
    rw [inSyscall, if_pos ⟨by omega, hhi⟩]
  have h5 := digitLoop_ok hint (le_refl _) 0 hpid (by norm_num)
  have h3 := digitLoop_ok hshort (by norm_num) 0 hsyscall (by norm_num)
  simp only [SysRecord.make, SysRecord.set_pid, SysRecord.set_syscall, h5, h3, bind, Except.bind,
    pure, Except.pure]

/- Where the cursor loops of `set_name` stop. -/
structure FirstNonBlank (block : List Byte) (start first : Nat) : Prop where
  from_start : start ≤ first
  stops : ∃ c, block[first]? = some c ∧ c ≠ blank
  blanks : ∀ j, start ≤ j → j < first → block[j]? = some blank

structure LastNonBlank (block : List Byte) (start last : Nat) : Prop where
  to_start : last ≤ start
  stops : ∃ c, block[last]? = some c ∧ c ≠ blank
  blanks : ∀ j, last < j → j ≤ start → block[j]? = some blank

theorem skipRight_ok_iff {block : List Byte} {start first : Nat} :
    skipRight (block.drop start) start = .ok first ↔ FirstNonBlank block start first := by
  generalize hrest : block.drop start = rest
  induction rest generalizing start with
  | nil =>
    simp only [skipRight, reduceCtorEq, false_iff]
    intro h
    obtain ⟨c, hc, -⟩ := h.stops
    have hlen := List.drop_eq_nil_iff.mp hrest
    have hin := (List.getElem?_eq_some_iff.mp hc).1
    have hle := h.from_start
    omega
  | cons c rest ih =>
    have hlt : start < block.length := by
      by_contra hge
      rw [List.drop_of_length_le (by omega)] at hrest
      cases hrest
    rw [List.drop_eq_getElem_cons hlt] at hrest
    obtain ⟨hc, hrest⟩ := List.cons.inj hrest
    have hget : block[start]? = some c := by rw [List.getElem?_eq_getElem hlt, hc]
    by_cases hblank : c = blank
    · simp only [skipRight, hblank, if_true, ih hrest]
      constructor
      · intro h
        refine ⟨by have := h.from_start; omega, h.stops, ?_⟩
        intro j hj hlast
        obtain rfl | hj := Nat.eq_or_lt_of_le hj
        · rw [hget, hblank]
        · exact h.blanks j hj hlast
      · intro h
        have hne : start ≠ first := by
          intro he
          obtain ⟨e, hget', he'⟩ := h.stops
          rw [← he, hget] at hget'
          exact he' (Option.some.inj hget' ▸ hblank)
        refine ⟨by have := h.from_start; omega, h.stops, ?_⟩
        intro j hj hlast
        exact h.blanks j (by omega) hlast
    · simp only [skipRight, hblank, if_false, Except.ok.injEq]
      constructor
      · intro h
        subst h
        exact ⟨Nat.le_refl _, ⟨c, hget, hblank⟩, fun j hj hlast => by omega⟩
      · intro h
        by_contra hne
        have hstart := h.blanks start (Nat.le_refl _) (by have := h.from_start; omega)
        rw [hget] at hstart
        exact hblank (Option.some.inj hstart)

theorem skipLeft_ok_iff {block : List Byte} {start last : Nat} (hstart : start < block.length) :
    skipLeft block start = .ok last ↔ LastNonBlank block start last := by
  induction start with
  | zero =>
    have hget := List.getElem?_eq_getElem hstart
    simp only [skipLeft, readAt_lt hstart, bind, Except.bind]
    by_cases hblank : block[0] = blank
    · simp only [hblank, if_true, reduceCtorEq, false_iff]
      intro h
      obtain ⟨c, hc, hne⟩ := h.stops
      obtain rfl := Nat.le_zero.mp h.to_start
      rw [hget] at hc
      exact hne (Option.some.inj hc ▸ hblank)
    · simp only [hblank, if_false, Except.ok.injEq]
      constructor
      · intro h
        subst h
        exact ⟨Nat.le_refl _, ⟨_, hget, hblank⟩, fun j hj hle => by omega⟩
      · intro h
        exact (Nat.le_zero.mp h.to_start).symm
  | succ start ih =>
    have hget := List.getElem?_eq_getElem hstart
    simp only [skipLeft, readAt_lt hstart, bind, Except.bind]
    by_cases hblank : block[start + 1] = blank
    · simp only [hblank, if_true, ih (by omega)]
      constructor
      · intro h
        refine ⟨by have := h.to_start; omega, h.stops, ?_⟩
        intro j hj hle
        obtain rfl | hle := Nat.eq_or_lt_of_le hle
        · rw [hget, hblank]
        · exact h.blanks j hj (by omega)
      · intro h
        have hne : last ≠ start + 1 := by
          intro he
          obtain ⟨e, hget', he'⟩ := h.stops
          rw [he, hget] at hget'
          exact he' (Option.some.inj hget' ▸ hblank)
        refine ⟨by have := h.to_start; omega, h.stops, ?_⟩
        intro j hj hle
        exact h.blanks j hj (by omega)
    · simp only [hblank, if_false, Except.ok.injEq]
      constructor
      · intro h
        subst h
        exact ⟨Nat.le_refl _, ⟨_, hget, hblank⟩, fun j hj hle => by omega⟩
      · intro h
        by_contra hne
        have hstop := h.blanks (start + 1) (by have := h.to_start; omega) (Nat.le_refl _)
        rw [hget] at hstop
        exact hblank (Option.some.inj hstop)

theorem exists_firstNonBlank {block : List Byte} {start i : Nat} {c : Byte} (hi : start ≤ i)
    (hget : block[i]? = some c) (hne : c ≠ blank) :
    ∃ first, FirstNonBlank block start first ∧ first ≤ i := by
  classical
  let stops : Nat → Prop := fun j => start ≤ j ∧ ∃ c, block[j]? = some c ∧ c ≠ blank
  have hex : ∃ j, stops j := ⟨i, hi, c, hget, hne⟩
  have hmin : Nat.find hex ≤ i := Nat.find_le ⟨hi, c, hget, hne⟩
  refine ⟨Nat.find hex, ⟨(Nat.find_spec hex).1, (Nat.find_spec hex).2, ?_⟩, hmin⟩
  intro j hj hlt
  have hin : j < block.length := by
    have := (List.getElem?_eq_some_iff.mp hget).1
    omega
  have hnot := Nat.find_min hex hlt
  by_contra hblank
  refine hnot ⟨hj, block[j], List.getElem?_eq_getElem hin, ?_⟩
  intro he
  exact hblank (by rw [List.getElem?_eq_getElem hin, he])

theorem exists_lastNonBlank {block : List Byte} {start i : Nat} {c : Byte} (hi : i ≤ start)
    (hstart : start < block.length) (hget : block[i]? = some c) (hne : c ≠ blank) :
    ∃ last, LastNonBlank block start last ∧ i ≤ last := by
  classical
  let stops : Nat → Prop := fun j => ∃ c, block[j]? = some c ∧ c ≠ blank
  have hspec : stops (Nat.findGreatest stops start) := Nat.findGreatest_spec hi ⟨c, hget, hne⟩
  have hmax : i ≤ Nat.findGreatest stops start := Nat.le_findGreatest hi ⟨c, hget, hne⟩
  refine ⟨Nat.findGreatest stops start, ⟨Nat.findGreatest_le start, hspec, ?_⟩, hmax⟩
  intro j hj hle
  have hin : j < block.length := by omega
  have hnot := Nat.findGreatest_is_greatest hj hle
  by_contra hblank
  refine hnot ⟨block[j], List.getElem?_eq_getElem hin, ?_⟩
  intro he
  exact hblank (by rw [List.getElem?_eq_getElem hin, he])

/-- `set_name` stores the bytes from the first cursor up to, and without, the second. -/
theorem set_name_ok_iff {r r' : SysParamsRecord} {name : StringRef}
    (hin : name.end_ < name.block.length) :
    r.set_name name = .ok r' ↔
      ∃ first last, FirstNonBlank name.block name.begin_ first ∧
        LastNonBlank name.block name.end_ last ∧ first ≤ last ∧
        r' = { r with _name := (name.block.drop first).take (last - first) } := by
  simp only [SysParamsRecord.set_name, Lib.Outcome.bind_eq_ok, skipRight_ok_iff,
    skipLeft_ok_iff hin, stringOf_ok_iff, pure, Except.pure, Except.ok.injEq]
  constructor
  · intro h
    obtain ⟨first, hfirst, last, hlast, s, ⟨hle, -, rfl⟩, rfl⟩ := h
    exact ⟨first, last, hfirst, hlast, by omega, by simp⟩
  · intro h
    obtain ⟨first, last, hfirst, hlast, hle, rfl⟩ := h
    have hend := hlast.to_start
    exact ⟨first, hfirst, last, hlast, _, ⟨by omega, by omega, rfl⟩, by simp⟩

/-- On a column at the start of its block, `set_name` returns exactly when the column or
the byte after it has something other than a blank. -/
theorem set_name_returns_iff {r : SysParamsRecord} {block : List Byte} {size : Nat}
    (hin : size < block.length) :
    (∃ r', r.set_name ⟨block, 0, size⟩ = .ok r') ↔
      ∃ i ≤ size, ∃ c, block[i]? = some c ∧ c ≠ blank := by
  have hend : (StringRef.mk block 0 size).end_ = size := Nat.zero_add size
  constructor
  · intro h
    obtain ⟨r', hr'⟩ := h
    obtain ⟨first, last, -, hlast, -⟩ := (set_name_ok_iff (by rw [hend]; exact hin)).mp hr'
    rw [hend] at hlast
    exact ⟨last, hlast.to_start, hlast.stops⟩
  · intro h
    obtain ⟨i, hi, c, hget, hne⟩ := h
    obtain ⟨first, hfirst, hle⟩ := exists_firstNonBlank (Nat.zero_le i) hget hne
    obtain ⟨last, hlast, hge⟩ := exists_lastNonBlank hi hin hget hne
    refine ⟨_, (set_name_ok_iff (by rw [hend]; exact hin)).mpr ⟨first, last, hfirst, ?_, ?_, rfl⟩⟩
    · rw [hend]
      exact hlast
    · omega

end SyscallSensor.Trace
