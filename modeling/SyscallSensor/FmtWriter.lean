import SyscallSensor.SocketStream

/-! `fmt::MemoryWriter`: a buffer that grows, and the decimal writer, which computes how many
digits a number has before it stores them two at a time. -/
namespace SyscallSensor.Fmt
open Text Trace
open Lib.Decimal (text intText digitByte)

def DIGITS : List Byte :=
  ascii "0001020304050607080910111213141516171819" ++
    ascii "2021222324252627282930313233343536373839" ++
    ascii "4041424344454647484950515253545556575859" ++
    ascii "6061626364656667686970717273747576777879" ++
    ascii "8081828384858687888990919293949596979899"

def FMT_POWERS_OF_10 (factor : Nat) : List Nat :=
  [factor * 10, factor * 100, factor * 1000, factor * 10000, factor * 100000, factor * 1000000,
    factor * 10000000, factor * 100000000, factor * 1000000000]

def POWERS_OF_10_32 : List Nat := 0 :: FMT_POWERS_OF_10 1

def POWERS_OF_10_64 : List Nat :=
  0 :: (FMT_POWERS_OF_10 1 ++ FMT_POWERS_OF_10 1000000000 ++ [1000000000 * 1000000000 * 10])

/- The two unsigned types that integers are printed from. -/
inductive MainType where
  | uint32
  | uint64
deriving DecidableEq, Repr

def MainType.bits : MainType → Nat
  | .uint32 => 32
  | .uint64 => 64

def MainType.powers : MainType → List Nat
  | .uint32 => POWERS_OF_10_32
  | .uint64 => POWERS_OF_10_64

/- The zero bits in front of the first one of a number that is not 0. -/
def builtin_clz (type : MainType) (n : Nat) : Nat := type.bits - (n.log2 + 1)

def count_digits (type : MainType) (n : Nat) : Except Fault Nat :=
  let t := ((type.bits - builtin_clz type (n ||| 1)) * 1233) >>> 12
  match type.powers[t]? with
  | some power => .ok (t - (if n < power then 1 else 0) + 1)
  | none => .error (.outside t)

/-- The elements in use and the room for them, 500 at first. -/
structure Buffer where
  ptr_ : List Byte := []
  capacity_ : Nat := 500
  fits : ptr_.length ≤ capacity_ := by decide

/-- A new `MemoryBuffer`. -/
def MemoryBuffer : Buffer := {}

@[simp]
theorem MemoryBuffer_ptr : MemoryBuffer.ptr_ = [] := rfl

namespace Buffer

def size (b : Buffer) : Nat := b.ptr_.length

def grow (b : Buffer) (size : Nat) : Buffer where
  ptr_ := b.ptr_
  capacity_ := max size (b.capacity_ + b.capacity_ / 2)
  fits := Nat.le_trans b.fits (Nat.le_trans (Nat.le_add_right _ _) (Nat.le_max_right _ _))

def reserve (b : Buffer) (capacity : Nat) : Buffer :=
  if capacity > b.capacity_ then b.grow capacity else b

theorem reserve_spec (b : Buffer) (capacity : Nat) :
    (b.reserve capacity).ptr_ = b.ptr_ ∧ capacity ≤ (b.reserve capacity).capacity_ := by
  rw [reserve]
  split
  · exact ⟨rfl, Nat.le_max_left _ _⟩
  · rename_i hroom
    exact ⟨rfl, Nat.le_of_not_gt hroom⟩

/- `append`, `push_back` and `resize` make room and then use it. -/
def append (b : Buffer) (elements : List Byte) : Buffer where
  ptr_ := (b.reserve (b.size + elements.length)).ptr_ ++ elements
  capacity_ := (b.reserve (b.size + elements.length)).capacity_
  fits := by
    obtain ⟨hptr, hroom⟩ := b.reserve_spec (b.size + elements.length)
    rw [List.length_append, hptr]
    exact hroom

def push_back (b : Buffer) (value : Byte) : Buffer := b.append [value]

/- What new elements hold before they are stored to is left open by the language; it is a blank
   here. -/
def grow_buffer (b : Buffer) (n : Nat) : Buffer := b.append (List.replicate n blank)

def store (b : Buffer) (pos : Nat) (c : Byte) : Except Fault Buffer :=
  if pos < b.size then
    .ok { ptr_ := b.ptr_.set pos c, capacity_ := b.capacity_, fits := by simpa using b.fits }
  else .error (.outside pos)

@[simp] theorem append_ptr (b : Buffer) (elements : List Byte) :
    (b.append elements).ptr_ = b.ptr_ ++ elements :=
  congrArg (· ++ elements) (b.reserve_spec _).1

@[simp] theorem push_back_ptr (b : Buffer) (value : Byte) :
    (b.push_back value).ptr_ = b.ptr_ ++ [value] := b.append_ptr [value]

@[simp] theorem grow_buffer_ptr (b : Buffer) (n : Nat) :
    (b.grow_buffer n).ptr_ = b.ptr_ ++ List.replicate n blank := b.append_ptr _

/-- A store inside the elements changes one of them. -/
theorem store_spec {b : Buffer} (front : List Byte) (old : Byte) (back : List Byte) (c : Byte)
    (h : b.ptr_ = front ++ old :: back) :
    ∃ t, b.store front.length c = .ok t ∧ t.ptr_ = front ++ c :: back := by
  have hin : front.length < b.size := by
    rw [size, h, List.length_append, List.length_cons]
    omega
  refine ⟨_, by rw [store, if_pos hin], ?_⟩
  simp [h]

end Buffer

/- `unsigned` subtraction. -/
def sub32 (a b : Nat) : Nat := (a + 2 ^ 32 - b) % 2 ^ 32

/-- The `while` loop of `format_decimal`, behind `--num_digits`; `p` is where `buffer` points. -/
def decimalLoop (p : Nat) (buffer : Buffer) (value num_digits : Nat) : Except Fault (Buffer × Nat) :=
  if 100 ≤ value then do
    let index := value % 100 * 2
    let buffer ← buffer.store (p + num_digits) (DIGITS.getD (index + 1) 0)
    let buffer ← buffer.store (p + sub32 num_digits 1) (DIGITS.getD index 0)
    decimalLoop p buffer (value / 100) (sub32 num_digits 2)
  else .ok (buffer, value)
termination_by value

def format_decimal (p : Nat) (buffer : Buffer) (value num_digits : Nat) : Except Fault Buffer := do
  let (buffer, value) ← decimalLoop p buffer value (sub32 num_digits 1)
  if value < 10 then buffer.store p (UInt8.ofNat (48 + value))
  else
    let index := value * 2
    let buffer ← buffer.store (p + 1) (DIGITS.getD (index + 1) 0)
    buffer.store p (DIGITS.getD index 0)

/- `std::copy` into the buffer. -/
def copy (p : Nat) : List Byte → Buffer → Except Fault Buffer
  | [], buffer => .ok buffer
  | c :: bytes, buffer => do
    let buffer ← buffer.store p c
    copy (p + 1) bytes buffer

/-- `write_int` where the specification is empty: no width, no sign flag, type 0. -/
def write_int (type : MainType) (value : Int) (buffer : Buffer) : Except Fault Buffer := do
  let abs_value := (value % 2 ^ type.bits).toNat
  let (sign, abs_value) :=
    if value < 0 then ([45], (2 ^ type.bits - abs_value) % 2 ^ type.bits) else ([], abs_value)
  let num_digits ← count_digits type abs_value
  let p := buffer.size
  let buffer := buffer.grow_buffer (sign.length + num_digits)
  let buffer ← copy p sign buffer
  format_decimal (p + sign.length) buffer abs_value num_digits

theorem digits_table : ∀ v < 100, DIGITS.getD (v * 2) 0 = digitByte (v / 10) ∧
    DIGITS.getD (v * 2 + 1) 0 = digitByte (v % 10) := by
  decide +kernel

theorem text_digit {n : Nat} (h : n < 10) : text n = [digitByte n] := by
  cases n with
  | zero => rfl
  | succ n =>
    rw [text, if_neg (Nat.succ_ne_zero n), Nat.digits_of_lt 10 _ (Nat.succ_ne_zero n) h]
    rfl

theorem text_snoc {n : Nat} (h : 10 ≤ n) : text n = text (n / 10) ++ [digitByte (n % 10)] := by
  have hq : n / 10 ≠ 0 := by omega
  rw [text, if_neg (by omega), text, if_neg hq, Nat.digits_def' (by decide) (by omega),
    List.reverse_cons, List.map_append, List.map_singleton]

theorem text_two {n : Nat} (h : 100 ≤ n) :
    text n = text (n / 100) ++ [digitByte (n % 100 / 10), digitByte (n % 100 % 10)] := by
  have hq : n / 10 / 10 = n / 100 := by omega
  have htens : n / 10 % 10 = n % 100 / 10 := by omega
  have hones : n % 10 = n % 100 % 10 := by omega
  rw [text_snoc (by omega), text_snoc (n := n / 10) (by omega), hq, htens, hones, List.append_assoc]
  rfl

/-- The number of digits lies between two powers. -/
theorem text_length_eq {n d : Nat} (hlow : n ≠ 0 → 10 ^ d ≤ n) (hhigh : n < 10 ^ (d + 1))
    (hzero : n = 0 → d = 0) : (text n).length = d + 1 := by
  by_cases hn : n = 0
  · rw [hzero hn, hn]
    rfl
  · have hle := Lib.Decimal.text_length_le (Nat.succ_pos d) hhigh
    have hge : d < (Nat.digits 10 n).length := (Nat.lt_digits_length_iff (by decide) n).mpr (hlow hn)
    rw [text, if_neg hn, List.length_map, List.length_reverse] at hle ⊢
    omega

/- The estimate of the number of digits from the number of bits, against the table. -/
theorem powers_table : ∀ type : MainType, ∀ b ≤ type.bits, 1 ≤ b →
    type.powers[(b * 1233) >>> 12]? =
        some (if (b * 1233) >>> 12 = 0 then 0 else 10 ^ ((b * 1233) >>> 12)) ∧
      10 ^ ((b * 1233) >>> 12 - 1) ≤ 2 ^ (b - 1) ∧ 2 ^ b ≤ 10 ^ ((b * 1233) >>> 12 + 1) := by
  intro type
  cases type <;> decide

theorem log2_or_one {n : Nat} (h : n ≠ 0) : (n ||| 1).log2 = n.log2 := by
  have hle : n ≤ n ||| 1 := Nat.left_le_or
  have hlt : n ||| 1 < 2 ^ (n.log2 + 1) := Nat.or_lt_two_pow Nat.lt_log2_self (by simp)
  have hlow := Nat.log2_self_le h
  exact (Nat.log2_eq_iff (by omega)).mpr ⟨by omega, hlt⟩

/-- `count_digits` is exact on all numbers of its type. -/
theorem count_digits_spec (type : MainType) {n : Nat} (h : n < 2 ^ type.bits) :
    count_digits type n = .ok (text n).length := by
  by_cases hn : n = 0
  · obtain rfl := hn
    cases type <;> rfl
  have hlog : n.log2 < type.bits := (Nat.log2_lt hn).mpr h
  have hclz : type.bits - builtin_clz type (n ||| 1) = n.log2 + 1 := by
    rw [builtin_clz, log2_or_one hn]
    omega
  have hlow : 2 ^ n.log2 ≤ n := Nat.log2_self_le hn
  have hhigh : n < 2 ^ (n.log2 + 1) := Nat.lt_log2_self
  obtain ⟨hpower, hbelow, habove⟩ := powers_table type (n.log2 + 1) hlog (by omega)
  rw [Nat.add_sub_cancel] at hbelow
  simp only [count_digits, hclz, hpower, Except.ok.injEq]
  generalize ((n.log2 + 1) * 1233) >>> 12 = t at hbelow habove
  cases t with
  | zero =>
    rw [text_length_eq (d := 0) (by omega) (by omega) fun _ => rfl]
    simp
  | succ t =>
    rw [if_neg (Nat.succ_ne_zero t)]
    by_cases hless : n < 10 ^ (t + 1)
    · rw [if_pos hless, text_length_eq (d := t) (fun _ => Nat.le_trans hbelow hlow) hless
        fun hzero => absurd hzero hn]
      omega
    · rw [if_neg hless, text_length_eq (d := t + 1) (fun _ => Nat.le_of_not_lt hless)
        (Nat.lt_of_lt_of_le hhigh habove) fun hzero => absurd hzero hn]
      omega

theorem sub32_eq {a b : Nat} (h : b ≤ a) (ha : a < 2 ^ 32) : sub32 a b = a - b := by
  rw [sub32]
  omega

/- A place for the digits is given up two by two from its right end. -/
theorem exists_two {region : List Byte} {k : Nat} (h : region.length = k + 2) :
    ∃ region' x y, region = region' ++ [x, y] ∧ region'.length = k := by
  have hlast : (region.drop k).length = 2 := by
    rw [List.length_drop]
    omega
  obtain ⟨x, y, hdrop⟩ := List.length_eq_two.mp hlast
  refine ⟨region.take k, x, y, ?_, ?_⟩
  · rw [← hdrop, List.take_append_drop]
  · rw [List.length_take]
    omega

/-- The loop stores the last digits and leaves as much room as the rest needs. -/
theorem decimalLoop_spec {front region back : List Byte} {value : Nat} {b : Buffer}
    (hptr : b.ptr_ = front ++ region ++ back) (hregion : region.length = (text value).length)
    (hfits : region.length ≤ 2 ^ 32) :
    ∃ t v region' last, decimalLoop front.length b value (region.length - 1) = .ok (t, v) ∧
      v < 100 ∧ text value = text v ++ last ∧ region'.length = (text v).length ∧
      t.ptr_ = front ++ region' ++ last ++ back := by
  induction value using Nat.strongRecOn generalizing b region back with
  | ind value ih =>
    by_cases hvalue : 100 ≤ value
    · have htext := text_two hvalue
      have hlength : region.length = (text (value / 100)).length + 2 := by
        rw [hregion, htext, List.length_append]
        rfl
      have hpos := Lib.Decimal.text_length_pos (value / 100)
      obtain ⟨region', x, y, rfl, hregion'⟩ := exists_two hlength
      obtain ⟨htens, hones⟩ := digits_table (value % 100) (Nat.mod_lt _ (by decide))
      -- the ones
      obtain ⟨b', hstore, hptr'⟩ := Buffer.store_spec (b := b) (front ++ region' ++ [x]) y back
        (digitByte (value % 100 % 10)) (by simp [hptr])
      -- the tens in front of them
      obtain ⟨b'', hstore', hptr''⟩ := Buffer.store_spec (b := b') (front ++ region') x
        (digitByte (value % 100 % 10) :: back) (digitByte (value % 100 / 10)) (by simp [hptr'])
      have hstored : b''.ptr_ = front ++ region' ++
          digitByte (value % 100 / 10) :: digitByte (value % 100 % 10) :: back := by simp [hptr'']
      have hnum : (region' ++ [x, y]).length - 1 = region'.length + 1 := by simp
      have hsmall : region'.length + 1 < 2 ^ 32 := by
        rw [List.length_append] at hfits
        simp only [List.length_cons, List.length_nil] at hfits
        omega
      have hone : front.length + (region'.length + 1) = (front ++ region' ++ [x]).length := by
        simp only [List.length_append, List.length_singleton]
        omega
      have hten : front.length + sub32 (region'.length + 1) 1 = (front ++ region').length := by
        rw [sub32_eq (by omega) hsmall, List.length_append]
        rfl
      have hnext : sub32 (region'.length + 1) 2 = region'.length - 1 := by
        rw [sub32_eq (by omega) hsmall]
        omega
      obtain ⟨t, v, region'', last, hloop, hv, hlast, hroom, hend⟩ := ih (value / 100)
        (Nat.div_lt_self (by omega) (by decide)) hstored hregion' (by omega)
      refine ⟨t, v, region'', last ++ [digitByte (value % 100 / 10), digitByte (value % 100 % 10)],
        ?_, hv, ?_, hroom, ?_⟩
      · rw [decimalLoop, if_pos hvalue, hnum]
        dsimp only
        rw [htens, hones, hone, hstore, Lib.Outcome.ok_bind, hten, hstore', Lib.Outcome.ok_bind, hnext]
        exact hloop
      · rw [htext, hlast, List.append_assoc]
      · simp [hend]
    · refine ⟨b, value, region, [], ?_, by omega, by simp, hregion, by simp [hptr]⟩
      rw [decimalLoop, if_neg hvalue]

/-- The digits of `value`, in the place that `count_digits` has found for them. -/
theorem format_decimal_spec {front region back : List Byte} {value : Nat} {b : Buffer}
    (hptr : b.ptr_ = front ++ region ++ back) (hregion : region.length = (text value).length)
    (hfits : region.length < 2 ^ 32) :
    ∃ t, format_decimal front.length b value region.length = .ok t ∧
      t.ptr_ = front ++ text value ++ back := by
  have hpos := Lib.Decimal.text_length_pos value
  obtain ⟨b', v, region', last, hloop, hv, hlast, hroom, hend⟩ :=
    decimalLoop_spec hptr hregion (by omega)
  have hfirst : sub32 region.length 1 = region.length - 1 := sub32_eq (by omega) hfits
  rw [format_decimal, hfirst, hloop, Lib.Outcome.ok_bind]
  simp only
  by_cases hdigit : v < 10
  · rw [text_digit hdigit] at hroom hlast
    obtain ⟨x, rfl⟩ := List.length_eq_one_iff.mp hroom
    obtain ⟨t, hstore, ht⟩ := Buffer.store_spec (b := b') front x (last ++ back) (digitByte v)
      (by simp [hend])
    rw [if_pos hdigit]
    refine ⟨t, hstore, ?_⟩
    rw [ht, hlast]
    simp
  · have htwo : text v = [digitByte (v / 10), digitByte (v % 10)] := by
      rw [text_snoc (by omega), text_digit (n := v / 10) (by omega)]
      rfl
    rw [htwo] at hroom hlast
    obtain ⟨x, y, rfl⟩ := List.length_eq_two.mp hroom
    obtain ⟨htens, hones⟩ := digits_table v hv
    obtain ⟨b'', hstore, hptr''⟩ := Buffer.store_spec (b := b') (front ++ [x]) y (last ++ back)
      (digitByte (v % 10)) (by simp [hend])
    obtain ⟨t, hstore', ht⟩ := Buffer.store_spec (b := b'') front x
      (digitByte (v % 10) :: (last ++ back)) (digitByte (v / 10)) (by simp [hptr''])
    rw [List.length_append, List.length_singleton] at hstore
    rw [if_neg hdigit, hones, hstore, Lib.Outcome.ok_bind, htens]
    refine ⟨t, hstore', ?_⟩
    rw [ht, hlast]
    simp

theorem copy_spec {front region back : List Byte} (bytes : List Byte) {b : Buffer}
    (hptr : b.ptr_ = front ++ region ++ back) (hregion : region.length = bytes.length) :
    ∃ t, copy front.length bytes b = .ok t ∧ t.ptr_ = front ++ bytes ++ back := by
  induction bytes generalizing front region b with
  | nil =>
    rw [List.length_nil, List.length_eq_zero_iff] at hregion
    exact ⟨b, rfl, by rw [hptr, hregion]⟩
  | cons c bytes ih =>
    cases region with
    | nil => cases hregion
    | cons x region =>
      obtain ⟨b', hstore, hptr'⟩ := Buffer.store_spec (b := b) front x (region ++ back) c
        (by simp [hptr])
      have hstored : b'.ptr_ = front ++ [c] ++ region ++ back := by simp [hptr']
      obtain ⟨t, hcopy, ht⟩ := ih hstored (Nat.succ.inj hregion)
      rw [List.length_append, List.length_singleton] at hcopy
      refine ⟨t, ?_, by simp [ht]⟩
      rw [copy, hstore, Lib.Outcome.ok_bind, hcopy]

/- The numbers of the signed and the unsigned type. -/
def MainType.Holds (type : MainType) (value : Int) : Prop :=
  -2 ^ (type.bits - 1) ≤ value ∧ value < 2 ^ type.bits

/- A sign and a number behind what the buffer has. -/
theorem write_signed (type : MainType) (sign : List Byte) {n : Nat} (h : n < 2 ^ type.bits)
    (w : Buffer) :
    ∃ b t, copy w.size sign (w.grow_buffer (sign.length + (text n).length)) = .ok b ∧
      format_decimal (w.size + sign.length) b n (text n).length = .ok t ∧
      t.ptr_ = w.ptr_ ++ (sign ++ text n) := by
  have hbits : 2 ^ type.bits ≤ 10 ^ 20 := by cases type <;> decide
  have hlength : (text n).length ≤ 20 :=
    Lib.Decimal.text_length_le (by decide) (Nat.lt_of_lt_of_le h hbits)
  have hgrown : (w.grow_buffer (sign.length + (text n).length)).ptr_ =
      w.ptr_ ++ List.replicate sign.length blank ++ List.replicate (text n).length blank := by
    rw [Buffer.grow_buffer_ptr, List.append_assoc, List.replicate_append_replicate]
  obtain ⟨b, hcopy, hb⟩ := copy_spec sign hgrown List.length_replicate
  have hplace : b.ptr_ = w.ptr_ ++ sign ++ List.replicate (text n).length blank ++ [] := by
    rw [hb, List.append_nil]
  obtain ⟨t, hformat, ht⟩ := format_decimal_spec hplace List.length_replicate
    (by rw [List.length_replicate]; omega)
  rw [List.length_append, List.length_replicate] at hformat
  refine ⟨b, t, hcopy, hformat, ?_⟩
  rw [ht, List.append_nil, List.append_assoc]

theorem write_int_spec {type : MainType} {value : Int} (h : type.Holds value) (w : Buffer) :
    ∃ t, write_int type value w = .ok t ∧ t.ptr_ = w.ptr_ ++ intText value := by
  obtain ⟨hlow, hhigh⟩ := h
  have hhalf : (2 : Int) ^ type.bits = 2 * 2 ^ (type.bits - 1) := by cases type <;> decide
  have hcast : ((2 ^ type.bits : Nat) : Int) = 2 ^ type.bits := by push_cast; rfl
  cases value with
  | ofNat n =>
    have hn : n < 2 ^ type.bits := by
      have hcasted : ((n : Nat) : Int) < 2 ^ type.bits := hhigh
      omega
    have habs : (Int.ofNat n % 2 ^ type.bits).toNat = n := by
      rw [← hcast]
      exact Nat.mod_eq_of_lt hn
    have hsign : ¬ Int.ofNat n < 0 := Int.not_lt.mpr (Int.natCast_nonneg n)
    obtain ⟨b, t, hcopy, hformat, ht⟩ := write_signed type [] hn w
    refine ⟨t, ?_, ht⟩
    simp only [write_int, if_neg hsign, habs, count_digits_spec type hn, Lib.Outcome.ok_bind, hcopy,
      hformat]
  | negSucc n =>
    have hvalue : Int.negSucc n = -((n + 1 : Nat) : Int) := rfl
    have hn : n + 1 < 2 ^ type.bits := by
      rw [hvalue] at hlow
      have hpos : (0 : Int) < 2 ^ (type.bits - 1) := by positivity
      omega
    have habs : (2 ^ type.bits - (Int.negSucc n % 2 ^ type.bits).toNat) % 2 ^ type.bits = n + 1 := by
      have hmod : Int.negSucc n % 2 ^ type.bits = ((2 ^ type.bits - (n + 1) : Nat) : Int) := by
        rw [hvalue, ← Int.add_emod_right, Int.emod_eq_of_lt] <;> omega
      rw [hmod, Int.toNat_natCast, Nat.mod_eq_of_lt] <;> omega
    have hsign : Int.negSucc n < 0 := Int.negSucc_lt_zero n
    obtain ⟨b, t, hcopy, hformat, ht⟩ := write_signed type [45] hn w
    refine ⟨t, ?_, ht⟩
    simp only [write_int, if_pos hsign, habs, count_digits_spec type hn, Lib.Outcome.ok_bind, hcopy,
      hformat]

/-- Every number of its type is appended as its decimal text, inside the buffer, and the text is
read back as the number. -/
theorem write_int_reads_back {type : MainType} {value : Int} (h : type.Holds value) (w : Buffer) :
    ∃ t, write_int type value w = .ok t ∧ t.ptr_ = w.ptr_ ++ intText value ∧
      Lib.Decimal.readInt (t.ptr_.drop w.size) = some value := by
  obtain ⟨t, hwrite, ht⟩ := write_int_spec h w
  refine ⟨t, hwrite, ht, ?_⟩
  rw [ht, Buffer.size, List.drop_left]
  exact Lib.Decimal.readInt_intText value

/- The smallest `int`, whose absolute value is no `int`. -/
theorem write_int_reads_back_smallest :
    ∃ t, write_int .uint32 (-2147483648) MemoryBuffer = .ok t ∧
      t.ptr_ = [] ++ intText (-2147483648) ∧
      Lib.Decimal.readInt (t.ptr_.drop 0) = some (-2147483648) :=
  write_int_reads_back ⟨by decide, by decide⟩ MemoryBuffer

end SyscallSensor.Fmt
