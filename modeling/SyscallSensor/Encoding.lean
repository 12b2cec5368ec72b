import Mathlib.Data.Fin.Basic
import SyscallSensor.StringRef

/-! `base64_encode` and `base64_decode` of encoding.h. A window of `i` bytes is the list of
the first `i` entries of the source's array; arithmetic is that of `unsigned char`. -/
namespace SyscallSensor.Encoding
open Text

def base64_chars : List Byte :=
  ascii "ABCDEFGHIJKLMNOPQRSTUVWXYZabcdefghijklmnopqrstuvwxyz0123456789+/"

def pad : Byte := 61

def isalnum (c : Byte) : Bool :=
  (48 ≤ c && c ≤ 57) || (65 ≤ c && c ≤ 90) || (97 ≤ c && c ≤ 122)

def is_base64 (c : Byte) : Bool := isalnum c || c == 43 || c == 47

/-- `base64_chars[v]`. -/
def charAt (v : Byte) : Byte := base64_chars.getD v.toNat 0

/-- `base64_chars.find(c)` stored in an `unsigned char`: `npos` becomes 255. -/
def findChar (c : Byte) : Byte :=
  match base64_chars.idxOf? c with
  | some i => UInt8.ofNat i
  | none => 255

/-- `char_array_4` from `char_array_3`. -/
def sextets (a b c : Byte) : List Byte :=
  [(a &&& 0xfc) >>> 2, ((a &&& 0x03) <<< 4) + ((b &&& 0xf0) >>> 4),
    ((b &&& 0x0f) <<< 2) + ((c &&& 0xc0) >>> 6), c &&& 0x3f]

/-- `char_array_3` from `char_array_4`. -/
def octets (p q r s : Byte) : List Byte :=
  [(p <<< 2) + ((q &&& 0x30) >>> 4), ((q &&& 0xf) <<< 4) + ((r &&& 0x3c) >>> 2),
    ((r &&& 0x3) <<< 6) + s]

/- Entries of a window past its end are the zeros that the tail code fills in. -/
def encodeWindow (window : List Byte) : List Byte :=
  (sextets (window.getD 0 0) (window.getD 1 0) (window.getD 2 0)).map charAt

def decodeWindow (window : List Byte) : List Byte :=
  octets (findChar (window.getD 0 0)) (findChar (window.getD 1 0)) (findChar (window.getD 2 0))
    (findChar (window.getD 3 0))

/-- The `while` loop of `base64_encode`; it leaves the last window and `ret`. -/
def encodeLoop : List Byte → List Byte → List Byte → List Byte × List Byte
  | [], window, ret => (window, ret)
  | b :: bytes, window, ret =>
    if (window ++ [b]).length = 3 then encodeLoop bytes [] (ret ++ encodeWindow (window ++ [b]))
    else encodeLoop bytes (window ++ [b]) ret

def base64_encode (bytes_to_encode : List Byte) : List Byte :=
  let (window, ret) := encodeLoop bytes_to_encode [] []
  if window.length ≠ 0 then
    ret ++ (encodeWindow window).take (window.length + 1) ++
      List.replicate (3 - window.length) pad
  else ret

/-- The `while` loop of `base64_decode`, which stops at the first byte that is not of the
alphabet. -/
def decodeLoop : List Byte → List Byte → List Byte → List Byte × List Byte
  | [], window, ret => (window, ret)
  | c :: rest, window, ret =>
    if c ≠ pad ∧ is_base64 c then
      if (window ++ [c]).length = 4 then decodeLoop rest [] (ret ++ decodeWindow (window ++ [c]))
      else decodeLoop rest (window ++ [c]) ret
    else (window, ret)

/- For strings shorter than 2^31 bytes, whose size fits the `int in_len`. -/
def base64_decode (encoded_string : List Byte) : List Byte :=
  let (window, ret) := decodeLoop encoded_string [] []
  if window.length ≠ 0 then ret ++ (decodeWindow window).take (window.length - 1)
  else ret

/-- A mask that keeps `k` bits from the shift on, and a shift that brings them down. -/
theorem masked_right (a mask shift : Byte) {k : Nat}
    (h : mask.toNat >>> (shift.toNat % 8) = 2 ^ k - 1) :
    ((a &&& mask) >>> shift).toNat = a.toNat / 2 ^ (shift.toNat % 8) % 2 ^ k := by
  rw [UInt8.toNat_shiftRight, UInt8.toNat_and, Nat.shiftRight_and_distrib, h,
    Nat.and_two_pow_sub_one_eq_mod, Nat.shiftRight_eq_div_pow]

/-- A mask that keeps the low `k` bits, and a shift that takes them up. -/
theorem masked_left (a mask shift : Byte) {k : Nat} (h : mask.toNat = 2 ^ k - 1) :
    ((a &&& mask) <<< shift).toNat = a.toNat % 2 ^ k * 2 ^ (shift.toNat % 8) % 256 := by
  rw [UInt8.toNat_shiftLeft, UInt8.toNat_and, h, Nat.and_two_pow_sub_one_eq_mod, Nat.shiftLeft_eq]

/- What each mask and shift of the encoder and the decoder keeps of its byte. -/
theorem high6 (a : Byte) : ((a &&& 0xfc) >>> 2).toNat = a.toNat / 4 := by
  have hmask := masked_right a 0xfc 2 (k := 6) rfl
  have ha := a.toNat_lt
  change _ = a.toNat / 4 % 64 at hmask
  omega

theorem low2_up (a : Byte) : ((a &&& 0x03) <<< 4).toNat = a.toNat % 4 * 16 := by
  have hmask := masked_left a 0x03 4 (k := 2) rfl
  change _ = a.toNat % 4 * 16 % 256 at hmask
  omega

theorem high4 (b : Byte) : ((b &&& 0xf0) >>> 4).toNat = b.toNat / 16 := by
  have hmask := masked_right b 0xf0 4 (k := 4) rfl
  have hb := b.toNat_lt
  change _ = b.toNat / 16 % 16 at hmask
  omega

theorem low4_up (b : Byte) : ((b &&& 0x0f) <<< 2).toNat = b.toNat % 16 * 4 := by
  have hmask := masked_left b 0x0f 2 (k := 4) rfl
  change _ = b.toNat % 16 * 4 % 256 at hmask
  omega

theorem high2 (c : Byte) : ((c &&& 0xc0) >>> 6).toNat = c.toNat / 64 := by
  have hmask := masked_right c 0xc0 6 (k := 2) rfl
  have hc := c.toNat_lt
  change _ = c.toNat / 64 % 4 at hmask
  omega

theorem low6 (c : Byte) : (c &&& 0x3f).toNat = c.toNat % 64 := by
  rw [UInt8.toNat_and]
  exact Nat.and_two_pow_sub_one_eq_mod c.toNat 6

theorem sextet_up2 (p : Byte) : (p <<< 2).toNat = p.toNat * 4 % 256 := by
  rw [UInt8.toNat_shiftLeft, Nat.shiftLeft_eq]
  rfl

theorem sextet_high2 (q : Byte) : ((q &&& 0x30) >>> 4).toNat = q.toNat / 16 % 4 :=
  masked_right q 0x30 4 (k := 2) rfl

theorem sextet_low4 (q : Byte) : ((q &&& 0xf) <<< 4).toNat = q.toNat % 16 * 16 := by
  have hmask := masked_left q 0xf 4 (k := 4) rfl
  change _ = q.toNat % 16 * 16 % 256 at hmask
  omega

theorem sextet_high4 (r : Byte) : ((r &&& 0x3c) >>> 2).toNat = r.toNat / 4 % 16 :=
  masked_right r 0x3c 2 (k := 4) rfl

theorem sextet_low2 (r : Byte) : ((r &&& 0x3) <<< 6).toNat = r.toNat % 4 * 64 := by
  have hmask := masked_left r 0x3 6 (k := 2) rfl
  change _ = r.toNat % 4 * 64 % 256 at hmask
  omega

/-- The alphabet: its 64 characters pass the decoder's test, and are found where they are. -/
theorem charAt_spec {v : Byte} (h : v.toNat < 64) :
    charAt v ≠ pad ∧ is_base64 (charAt v) = true ∧ findChar (charAt v) = v := by
  have hall : ∀ i : Fin 64, charAt (UInt8.ofNat i) ≠ pad ∧
      is_base64 (charAt (UInt8.ofNat i)) = true ∧
      findChar (charAt (UInt8.ofNat i)) = UInt8.ofNat i := by
    decide +kernel
  have hv := hall ⟨v.toNat, h⟩
  rwa [UInt8.ofNat_toNat] at hv

/-- The values of the four sextets of three bytes. -/
theorem sextets_toNat (a b c : Byte) :
    (sextets a b c).map UInt8.toNat =
      [a.toNat / 4, a.toNat % 4 * 16 + b.toNat / 16, b.toNat % 16 * 4 + c.toNat / 64,
        c.toNat % 64] := by
  have ha := a.toNat_lt
  have hb := b.toNat_lt
  have hc := c.toNat_lt
  simp only [sextets, List.map_cons, List.map_nil, UInt8.toNat_add, high6, low2_up, high4, low4_up,
    high2, low6, List.cons.injEq, and_true, true_and]
  constructor <;> omega

theorem octet0 {p q a : Byte} (hp : p.toNat = a.toNat / 4) (hq : q.toNat / 16 % 4 = a.toNat % 4) :
    (p <<< 2) + ((q &&& 0x30) >>> 4) = a := by
  apply UInt8.toNat_inj.mp
  have ha := a.toNat_lt
  rw [UInt8.toNat_add, sextet_up2, sextet_high2]
  omega

theorem octet1 {q r b : Byte} (hq : q.toNat % 16 = b.toNat / 16)
    (hr : r.toNat / 4 % 16 = b.toNat % 16) :
    ((q &&& 0xf) <<< 4) + ((r &&& 0x3c) >>> 2) = b := by
  apply UInt8.toNat_inj.mp
  have hb := b.toNat_lt
  rw [UInt8.toNat_add, sextet_low4, sextet_high4]
  omega

theorem octet2 {r s c : Byte} (hr : r.toNat % 4 = c.toNat / 64) (hs : s.toNat = c.toNat % 64) :
    ((r &&& 0x3) <<< 6) + s = c := by
  apply UInt8.toNat_inj.mp
  have hc := c.toNat_lt
  rw [UInt8.toNat_add, sextet_low2]
  omega

theorem encodeLoop_ret (bytes window ret : List Byte) :
    encodeLoop bytes window ret =
      ((encodeLoop bytes window []).1, ret ++ (encodeLoop bytes window []).2) := by
  induction bytes generalizing window ret with
  | nil => simp [encodeLoop]
  | cons b bytes ih =>
    simp only [encodeLoop]
    split
    · rw [ih [] (ret ++ _), ih [] ([] ++ _)]
      simp
    · rw [ih]

theorem decodeLoop_ret (chars window ret : List Byte) :
    decodeLoop chars window ret =
      ((decodeLoop chars window []).1, ret ++ (decodeLoop chars window []).2) := by
  induction chars generalizing window ret with
  | nil => simp [decodeLoop]
  | cons c chars ih =>
    simp only [decodeLoop]
    split
    · split
      · rw [ih [] (ret ++ _), ih [] ([] ++ _)]
        simp
      · rw [ih]
    · simp

/-- Three bytes fill a window. -/
theorem base64_encode_three (a b c : Byte) (rest : List Byte) :
    base64_encode (a :: b :: c :: rest) = encodeWindow [a, b, c] ++ base64_encode rest := by
  have hloop : encodeLoop (a :: b :: c :: rest) [] [] =
      ((encodeLoop rest [] []).1, encodeWindow [a, b, c] ++ (encodeLoop rest [] []).2) := by
    simp only [encodeLoop, List.nil_append, List.cons_append, List.length_cons, List.length_nil]
    exact encodeLoop_ret rest [] _
  simp only [base64_encode, hloop]
  split <;> simp

/-- Four characters of the alphabet fill a window. -/
theorem base64_decode_four {p q r s : Byte} (hp : p.toNat < 64) (hq : q.toNat < 64)
    (hr : r.toNat < 64) (hs : s.toNat < 64) (rest : List Byte) :
    base64_decode (charAt p :: charAt q :: charAt r :: charAt s :: rest) =
      octets p q r s ++ base64_decode rest := by
  obtain ⟨hp1, hp2, hp3⟩ := charAt_spec hp
  obtain ⟨hq1, hq2, hq3⟩ := charAt_spec hq
  obtain ⟨hr1, hr2, hr3⟩ := charAt_spec hr
  obtain ⟨hs1, hs2, hs3⟩ := charAt_spec hs
  have hwindow : decodeWindow [charAt p, charAt q, charAt r, charAt s] = octets p q r s := by
    simp [decodeWindow, hp3, hq3, hr3, hs3]
  have hloop : decodeLoop (charAt p :: charAt q :: charAt r :: charAt s :: rest) [] [] =
      ((decodeLoop rest [] []).1, octets p q r s ++ (decodeLoop rest [] []).2) := by
    simp only [decodeLoop, hp1, hp2, hq1, hq2, hr1, hr2, hs1, hs2, ne_eq, not_false_eq_true,
      and_self, if_true, List.nil_append, List.cons_append, List.length_cons, List.length_nil,
      hwindow]
    exact decodeLoop_ret rest [] _
  simp only [base64_decode, hloop]
  split <;> simp

theorem decodeLoop_stop {rest : List Byte} (h : ∀ c ∈ rest.head?, c = pad)
    (window ret : List Byte) : decodeLoop rest window ret = (window, ret) := by
  cases rest with
  | nil => rfl
  | cons c rest =>
    have hc : c = pad := h c rfl
    simp [decodeLoop, hc]

/- A last window of two or three characters: the filler behind them is looked up to `npos`,
   and none of its bits reaches the bytes that are kept. -/
theorem base64_decode_two {p q : Byte} (hp : p.toNat < 64) (hq : q.toNat < 64)
    {rest : List Byte} (hrest : ∀ c ∈ rest.head?, c = pad) :
    base64_decode (charAt p :: charAt q :: rest) = [(p <<< 2) + ((q &&& 0x30) >>> 4)] := by
  obtain ⟨hp1, hp2, hp3⟩ := charAt_spec hp
  obtain ⟨hq1, hq2, hq3⟩ := charAt_spec hq
  have hloop : decodeLoop (charAt p :: charAt q :: rest) [] [] = ([charAt p, charAt q], []) := by
    simp [decodeLoop, hp1, hp2, hq1, hq2, decodeLoop_stop hrest]
  simp [base64_decode, hloop, decodeWindow, octets, hp3, hq3]

theorem base64_decode_three {p q r : Byte} (hp : p.toNat < 64) (hq : q.toNat < 64)
    (hr : r.toNat < 64) {rest : List Byte} (hrest : ∀ c ∈ rest.head?, c = pad) :
    base64_decode (charAt p :: charAt q :: charAt r :: rest) =
      [(p <<< 2) + ((q &&& 0x30) >>> 4), ((q &&& 0xf) <<< 4) + ((r &&& 0x3c) >>> 2)] := by
  obtain ⟨hp1, hp2, hp3⟩ := charAt_spec hp
  obtain ⟨hq1, hq2, hq3⟩ := charAt_spec hq
  obtain ⟨hr1, hr2, hr3⟩ := charAt_spec hr
  have hloop : decodeLoop (charAt p :: charAt q :: charAt r :: rest) [] [] =
      ([charAt p, charAt q, charAt r], []) := by
    simp [decodeLoop, hp1, hp2, hq1, hq2, hr1, hr2, decodeLoop_stop hrest]
  simp [base64_decode, hloop, decodeWindow, octets, hp3, hq3, hr3]

/-- The sextets of three bytes, as values below 64 tied to the bits of the bytes. -/
theorem sextets_spec (a b c : Byte) :
    ∃ p q r s, sextets a b c = [p, q, r, s] ∧
      (p.toNat < 64 ∧ q.toNat < 64 ∧ r.toNat < 64 ∧ s.toNat < 64) ∧
      p.toNat = a.toNat / 4 ∧ q.toNat = a.toNat % 4 * 16 + b.toNat / 16 ∧
      r.toNat = b.toNat % 16 * 4 + c.toNat / 64 ∧ s.toNat = c.toNat % 64 := by
  have hvalues := sextets_toNat a b c
  have ha := a.toNat_lt
  have hb := b.toNat_lt
  have hc := c.toNat_lt
  obtain ⟨p, q, r, s, hsextets⟩ : ∃ p q r s, sextets a b c = [p, q, r, s] := ⟨_, _, _, _, rfl⟩
  rw [hsextets] at hvalues
  simp only [List.map_cons, List.map_nil, List.cons.injEq, and_true] at hvalues
  obtain ⟨hp, hq, hr, hs⟩ := hvalues
  exact ⟨p, q, r, s, hsextets, by omega, hp, hq, hr, hs⟩

/-- The characters of a window are those of values from which the decoder gets it back. -/
theorem encodeWindow_spec (a b c : Byte) :
    ∃ p q r s, encodeWindow [a, b, c] = [charAt p, charAt q, charAt r, charAt s] ∧
      (p.toNat < 64 ∧ q.toNat < 64 ∧ r.toNat < 64 ∧ s.toNat < 64) ∧
      octets p q r s = [a, b, c] := by
  obtain ⟨p, q, r, s, hsextets, hlt, hp, hq, hr, hs⟩ := sextets_spec a b c
  have hb := b.toNat_lt
  have hc := c.toNat_lt
  refine ⟨p, q, r, s, ?_, hlt, ?_⟩
  · change (sextets a b c).map charAt = _
    rw [hsextets]
    rfl
  · rw [octets, octet0 (a := a) hp (by omega), octet1 (b := b) (by omega) (by omega),
      octet2 (c := c) (by omega) hs]

/-- A whole window in front of the rest is decoded to its three bytes. -/
theorem base64_decode_window (a b c : Byte) (rest : List Byte) :
    base64_decode (encodeWindow [a, b, c] ++ rest) = [a, b, c] ++ base64_decode rest := by
  obtain ⟨p, q, r, s, hwindow, ⟨hp, hq, hr, hs⟩, hoctets⟩ := encodeWindow_spec a b c
  have hfour := base64_decode_four hp hq hr hs rest
  rw [hoctets] at hfour
  rw [hwindow]
  exact hfour

/-- A window of one to three bytes becomes four characters. -/
theorem base64_encode_length : ∀ bs : List Byte,
    (base64_encode bs).length = 4 * ((bs.length + 2) / 3)
  | [] => rfl
  | [a] => by
    have hencode : (base64_encode [a]).length = 4 := rfl
    simp [hencode]
  | [a, b] => by
    have hencode : (base64_encode [a, b]).length = 4 := rfl
    simp [hencode]
  | a :: b :: c :: rest => by
    have hwindow : (encodeWindow [a, b, c]).length = 4 := rfl
    rw [base64_encode_three, List.length_append, hwindow, base64_encode_length rest]
    simp only [List.length_cons]
    omega

/-- Encoding never shortens. -/
theorem length_le_base64_encode (bs : List Byte) : bs.length ≤ (base64_encode bs).length := by
  rw [base64_encode_length]
  omega

/-- Decoding undoes encoding, for each of the three lengths of the last window. -/
theorem base64_decode_encode : ∀ bs : List Byte, base64_decode (base64_encode bs) = bs
  | [] => rfl
  | [a] => by
    obtain ⟨p, q, r, s, hsextets, ⟨hp64, hq64, -, -⟩, hp, hq, -, -⟩ := sextets_spec a 0 0
    have hencode : base64_encode [a] = charAt p :: charAt q :: [pad, pad] := by
      change ((sextets a 0 0).map charAt).take 2 ++ [pad, pad] = _
      rw [hsextets]
      rfl
    rw [UInt8.toNat_zero] at hq
    rw [hencode, base64_decode_two hp64 hq64 (by simp), octet0 (a := a) hp (by omega)]
  | [a, b] => by
    obtain ⟨p, q, r, s, hsextets, ⟨hp64, hq64, hr64, -⟩, hp, hq, hr, -⟩ := sextets_spec a b 0
    have hencode : base64_encode [a, b] = charAt p :: charAt q :: charAt r :: [pad] := by
      change ((sextets a b 0).map charAt).take 3 ++ [pad] = _
      rw [hsextets]
      rfl
    have hb := b.toNat_lt
    rw [UInt8.toNat_zero] at hr
    rw [hencode, base64_decode_three hp64 hq64 hr64 (by simp), octet0 (a := a) hp (by omega),
      octet1 (b := b) (by omega) (by omega)]
  | a :: b :: c :: rest => by
    rw [base64_encode_three, base64_decode_window, base64_decode_encode rest]
    rfl

end SyscallSensor.Encoding
