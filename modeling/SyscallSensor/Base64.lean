import SyscallSensor.Encoding
import SyscallSensor.Lib.Bits

/-! The text of RFC 4648, section 4, and what `base64_decode` makes of a part of it. -/
namespace SyscallSensor.Encoding
open Text
open Lib.Bits

/-- Table 1 of the RFC. -/
def alphabet (v : Nat) : Byte :=
  if v < 26 then UInt8.ofNat (65 + v)
  else if v < 52 then UInt8.ofNat (97 + (v - 26))
  else if v < 62 then UInt8.ofNat (48 + (v - 52))
  else if v = 62 then 43
  else 47

/-- The 6-bit groups of the bits of the bytes, filled up with zeros. -/
def groupValues (bytes : List Byte) : List Nat :=
  (chunks 6 (padTo 6 false (bytes.flatMap fun b => bits 8 b.toNat))).map value

def rfc4648 (bytes : List Byte) : List Byte := padTo 4 pad ((groupValues bytes).map alphabet)

theorem charAt_alphabet {v : Byte} (h : v.toNat < 64) : charAt v = alphabet v.toNat := by
  have hall : ∀ i : Fin 64, charAt (UInt8.ofNat i) = alphabet i := by decide +kernel
  have hv := hall ⟨v.toNat, h⟩
  rwa [UInt8.ofNat_toNat] at hv

theorem sextets_lt {a b c v : Byte} (h : v ∈ sextets a b c) : v.toNat < 64 := by
  obtain ⟨p, q, r, s, hsextets, hlt, -⟩ := sextets_spec a b c
  rw [hsextets] at h
  simp only [List.mem_cons, List.not_mem_nil, or_false] at h
  rcases h with rfl | rfl | rfl | rfl
  · exact hlt.1
  · exact hlt.2.1
  · exact hlt.2.2.1
  · exact hlt.2.2.2

/-- The bits of three bytes are those of their sextets. -/
theorem bits_sextets (a b c : Byte) :
    bits 8 a.toNat ++ bits 8 b.toNat ++ bits 8 c.toNat =
      (sextets a b c).flatMap fun v => bits 6 v.toNat := by
  obtain ⟨p, q, r, s, hsextets, -, hp, hq, hr, hs⟩ := sextets_spec a b c
  have hb := b.toNat_lt
  have hc := c.toNat_lt
  have hqbits : bits 6 q.toNat = bits 2 (a.toNat % 4) ++ bits 4 (b.toNat / 16) := by
    rw [hq]
    exact bits_append 2 4 _ (by omega)
  have hrbits : bits 6 r.toNat = bits 4 (b.toNat % 16) ++ bits 2 (c.toNat / 64) := by
    rw [hr]
    exact bits_append 4 2 _ (by omega)
  have ha := bits_cut 6 2 a.toNat
  have hb := bits_cut 4 4 b.toNat
  have hc := bits_cut 2 6 c.toNat
  rw [hsextets, ha, hb, hc]
  simp only [List.flatMap_cons, List.flatMap_nil, hqbits, hrbits, hp, hs, List.append_nil,
    List.append_assoc]
  rfl

/-- Sextets in front of the other bits are groups of their own. -/
theorem chunks_sextets {vs : List Byte} (hlt : ∀ v ∈ vs, v.toNat < 64) (rest : List Bool) :
    (chunks 6 ((vs.flatMap fun v => bits 6 v.toNat) ++ rest)).map value =
      vs.map UInt8.toNat ++ (chunks 6 rest).map value := by
  have hlen : ∀ v : Byte, (bits 6 v.toNat).length = 6 := fun v => bits_length 6 v.toNat
  have hvalue : ∀ v ∈ vs, (value ∘ fun v : Byte => bits 6 v.toNat) v = v.toNat := by
    intro v hv
    have h64 := hlt v hv
    exact value_bits (by omega)
  rw [chunks_flatMap (by decide) hlen, List.map_append, List.map_map, List.map_congr_left hvalue]

theorem groupValues_three (a b c : Byte) (rest : List Byte) :
    groupValues (a :: b :: c :: rest) =
      (sextets a b c).map UInt8.toNat ++ groupValues rest := by
  have hbits : (a :: b :: c :: rest).flatMap (fun b => bits 8 b.toNat) =
      ((sextets a b c).flatMap fun v => bits 6 v.toNat) ++
        rest.flatMap fun b => bits 8 b.toNat := by
    rw [← bits_sextets]
    simp only [List.flatMap_cons, List.append_assoc]
  have hdvd : 6 ∣ ((sextets a b c).flatMap fun v => bits 6 v.toNat).length := by
    rw [← bits_sextets]
    simp only [List.length_append, bits_length]
    decide
  rw [groupValues, hbits, padTo_append false hdvd,
    chunks_sextets fun v hv => sextets_lt hv]
  rfl

/-- Fewer than three bytes: the zeros behind them complete the last of their sextets. -/
theorem groupValues_tail {bytes vs : List Byte}
    (hbits : padTo 6 false (bytes.flatMap fun b => bits 8 b.toNat) =
      vs.flatMap fun v => bits 6 v.toNat)
    (hlt : ∀ v ∈ vs, v.toNat < 64) : groupValues bytes = vs.map UInt8.toNat := by
  have hchunks := chunks_sextets hlt []
  rw [List.append_nil, chunks_nil, List.map_nil, List.append_nil] at hchunks
  rw [groupValues, hbits, hchunks]

theorem groupValues_one (a : Byte) :
    groupValues [a] = ((sextets a 0 0).take 2).map UInt8.toNat := by
  have hzeros : padTo 6 false ([a].flatMap fun b => bits 8 b.toNat) ++ List.replicate 12 false =
      (((sextets a 0 0).take 2).flatMap fun v => bits 6 v.toNat) ++ List.replicate 12 false :=
    calc
      _ = bits 8 a.toNat ++ bits 8 (0 : Byte).toNat ++ bits 8 (0 : Byte).toNat := by
        simp only [padTo, List.flatMap_singleton, bits_length, List.append_assoc]
        rfl
      _ = (sextets a 0 0).flatMap fun v => bits 6 v.toNat := bits_sextets a 0 0
      _ = _ := by
        conv_lhs => rw [← List.take_append_drop 2 (sextets a 0 0), List.flatMap_append]
        rfl
  apply groupValues_tail (List.append_cancel_right hzeros)
  exact fun v hv => sextets_lt (List.mem_of_mem_take hv)

theorem groupValues_two (a b : Byte) :
    groupValues [a, b] = ((sextets a b 0).take 3).map UInt8.toNat := by
  have hzeros : padTo 6 false ([a, b].flatMap fun b => bits 8 b.toNat) ++
        List.replicate 6 false =
      (((sextets a b 0).take 3).flatMap fun v => bits 6 v.toNat) ++ List.replicate 6 false :=
    calc
      _ = bits 8 a.toNat ++ bits 8 b.toNat ++ bits 8 (0 : Byte).toNat := by
        simp only [padTo, List.flatMap_cons, List.flatMap_nil, List.append_nil,
          List.length_append, bits_length, List.append_assoc]
        rfl
      _ = (sextets a b 0).flatMap fun v => bits 6 v.toNat := bits_sextets a b 0
      _ = _ := by
        conv_lhs => rw [← List.take_append_drop 3 (sextets a b 0), List.flatMap_append]
        rfl
  apply groupValues_tail (List.append_cancel_right hzeros)
  exact fun v hv => sextets_lt (List.mem_of_mem_take hv)

theorem map_alphabet {vs : List Byte} (hlt : ∀ v ∈ vs, v.toNat < 64) :
    (vs.map UInt8.toNat).map alphabet = vs.map charAt := by
  rw [List.map_map]
  apply List.map_congr_left
  intro v hv
  exact (charAt_alphabet (hlt v hv)).symm

/-- `base64_encode` is the encoding of the RFC: a window of three bytes gives four groups, and
each of the two shorter last windows gives the groups and the padding of its bits. -/
theorem base64_encode_standard : ∀ bytes : List Byte, base64_encode bytes = rfc4648 bytes
  | [] => by
    rw [rfc4648, groupValues, List.flatMap_nil, padTo_nil, chunks_nil]
    rfl
  | [a] => by
    rw [rfc4648, groupValues_one,
      map_alphabet fun v hv => sextets_lt (List.mem_of_mem_take hv)]
    rfl
  | [a, b] => by
    rw [rfc4648, groupValues_two,
      map_alphabet fun v hv => sextets_lt (List.mem_of_mem_take hv)]
    rfl
  | a :: b :: c :: rest => by
    have hfour : 4 ∣ ((sextets a b c).map charAt).length := by
      rw [List.length_map]
      exact Nat.dvd_refl 4
    have hchars : ((sextets a b c).map UInt8.toNat).map alphabet = (sextets a b c).map charAt :=
      map_alphabet fun v hv => sextets_lt hv
    rw [base64_encode_three, base64_encode_standard rest, rfc4648, rfc4648, groupValues_three,
      List.map_append, hchars, padTo_append pad hfour]
    rfl

example : base64_encode (ascii "Ma") = ascii "TWE=" := by decide +kernel

/- The characters in front of the padding. -/
def body (encoded : List Byte) : List Byte := encoded.takeWhile (· ≠ pad)

/-- How many bytes `k` characters decode to: three for a window, and one less than the
characters of a shorter last window, which at one character is none. -/
def decodedLength (k : Nat) : Nat := 3 * (k / 4) + (k % 4 - 1)

theorem body_of_isPrefix {encoded whole : List Byte} (h : encoded <+: whole) :
    body encoded <+: body whole := by
  obtain ⟨rest, rfl⟩ := h
  rw [body, body, List.takeWhile_append]
  split
  · exact (List.takeWhile_prefix _).trans (List.prefix_append _ _)
  · exact List.prefix_rfl

theorem decodeLoop_append {rest : List Byte} (hrest : ∀ c ∈ rest.head?, c = pad)
    (front window ret : List Byte) :
    decodeLoop (front ++ rest) window ret = decodeLoop front window ret := by
  induction front generalizing window ret with
  | nil => exact decodeLoop_stop hrest window ret
  | cons c front ih => simp only [List.cons_append, decodeLoop, ih]

/-- The decoder sees nothing from the padding on. -/
theorem base64_decode_body (encoded : List Byte) :
    base64_decode (body encoded) = base64_decode encoded := by
  have hstop : ∀ c ∈ (encoded.dropWhile (· ≠ pad)).head?, c = pad := by
    intro c hc
    have hhead := List.head?_dropWhile_not (· ≠ pad) encoded
    rw [Option.mem_def.mp hc] at hhead
    simpa using hhead
  have hsplit : body encoded ++ encoded.dropWhile (· ≠ pad) = encoded :=
    List.takeWhile_append_dropWhile
  rw [← hsplit, base64_decode, base64_decode, decodeLoop_append hstop, hsplit]

/-- A part of a window decodes to the bytes whose eight bits it has. -/
theorem base64_decode_take (a b c : Byte) {k : Nat} (hk : k < 4) :
    base64_decode ((encodeWindow [a, b, c]).take k) = [a, b, c].take (k - 1) := by
  obtain ⟨p, q, r, s, hwindow, ⟨hp, hq, hr, hs⟩, hoctets⟩ := encodeWindow_spec a b c
  have hnone : ∀ x ∈ ([] : List Byte).head?, x = pad := by simp
  rw [hwindow, ← hoctets]
  match k with
  | 0 => rfl
  | 1 =>
    -- one character is looked up, and none of its bits is kept
    obtain ⟨hp1, hp2, -⟩ := charAt_spec hp
    simp [base64_decode, decodeLoop, hp1, hp2]
  | 2 => exact base64_decode_two hp hq hnone
  | 3 => exact base64_decode_three hp hq hr hnone

theorem encodeWindow_ne_pad {a b c x : Byte} (h : x ∈ encodeWindow [a, b, c]) : x ≠ pad := by
  obtain ⟨v, hv, rfl⟩ := List.mem_map.mp h
  exact (charAt_spec (sextets_lt hv)).1

theorem body_encode_three (a b c : Byte) (rest : List Byte) :
    body (base64_encode (a :: b :: c :: rest)) =
      encodeWindow [a, b, c] ++ body (base64_encode rest) := by
  rw [base64_encode_three, body, List.takeWhile_append_of_pos]
  · rfl
  · exact fun x hx => decide_eq_true (encodeWindow_ne_pad hx)

/- The characters of a shorter last window. -/
theorem body_encode_tail (a b c : Byte) (n m : Nat) :
    body ((encodeWindow [a, b, c]).take n ++ List.replicate (m + 1) pad) =
      (encodeWindow [a, b, c]).take n := by
  rw [body, List.takeWhile_append_of_pos, List.replicate_succ, List.takeWhile_cons_of_neg,
    List.append_nil]
  · simp
  · exact fun x hx => decide_eq_true (encodeWindow_ne_pad (List.mem_of_mem_take hx))

/-- The cuts of the characters of one or two bytes. -/
theorem decode_tail {a b c : Byte} {bytes : List Byte} (hbytes : bytes <+: [a, b, c])
    (hshort : bytes.length < 3) {k : Nat} (hk : k ≤ bytes.length + 1) :
    base64_decode (((encodeWindow [a, b, c]).take (bytes.length + 1)).take k) =
      bytes.take (decodedLength k) := by
  have hlength : decodedLength k = k - 1 := by
    rw [decodedLength]
    omega
  obtain ⟨rest, hrest⟩ := hbytes
  rw [List.take_take, Nat.min_eq_left hk, base64_decode_take a b c (by omega), hlength, ← hrest,
    List.take_append_of_le_length (by omega)]

/-- The induction goes by windows, and a cut in a later one leaves the first whole. -/
theorem decode_body_take : ∀ (bytes : List Byte) (k : Nat),
    k ≤ (body (base64_encode bytes)).length →
      base64_decode ((body (base64_encode bytes)).take k) = bytes.take (decodedLength k)
  | [], k, _ => by
    have hbody : body (base64_encode []) = [] := rfl
    rw [hbody, List.take_nil, List.take_nil]
    rfl
  | [a], k, hk => by
    have hbody : body (base64_encode [a]) = (encodeWindow [a, 0, 0]).take 2 :=
      body_encode_tail a 0 0 2 1
    have hbytes : [a] <+: [a, 0, 0] := List.prefix_append [a] [0, 0]
    rw [hbody] at hk ⊢
    exact decode_tail hbytes (by simp) hk
  | [a, b], k, hk => by
    have hbody : body (base64_encode [a, b]) = (encodeWindow [a, b, 0]).take 3 :=
      body_encode_tail a b 0 3 0
    have hbytes : [a, b] <+: [a, b, 0] := List.prefix_append [a, b] [0]
    rw [hbody] at hk ⊢
    exact decode_tail hbytes (by simp) hk
  | a :: b :: c :: rest, k, hk => by
    have hwindow : (encodeWindow [a, b, c]).length = 4 := rfl
    rw [body_encode_three] at hk ⊢
    by_cases hcut : k < 4
    · have hlength : decodedLength k = k - 1 := by
        rw [decodedLength]
        omega
      have hthree : ([a, b, c] ++ rest).take (k - 1) = [a, b, c].take (k - 1) := by
        apply List.take_append_of_le_length
        simp only [List.length_cons, List.length_nil]
        omega
      rw [List.take_append_of_le_length (by omega), base64_decode_take a b c hcut, hlength,
        ← hthree]
      rfl
    · obtain ⟨later, rfl⟩ : ∃ later, k = 4 + later := ⟨k - 4, by omega⟩
      have hlength : decodedLength (4 + later) = 3 + decodedLength later := by
        rw [decodedLength, decodedLength]
        omega
      rw [List.length_append, hwindow] at hk
      have hchars : (encodeWindow [a, b, c] ++ body (base64_encode rest)).take (4 + later) =
          encodeWindow [a, b, c] ++ (body (base64_encode rest)).take later := by
        rw [← hwindow, List.take_length_add_append]
      have hbytes : ([a, b, c] ++ rest).take ([a, b, c].length + decodedLength later) =
          [a, b, c] ++ rest.take (decodedLength later) :=
        List.take_length_add_append (decodedLength later)
      rw [hchars, base64_decode_window, decode_body_take rest later (by omega), hlength]
      exact hbytes.symm

theorem decodedLength_mono {k n : Nat} (h : k ≤ n) : decodedLength k ≤ decodedLength n := by
  rw [decodedLength, decodedLength]
  omega

theorem decode_of_isPrefix {bytes encoded : List Byte} (h : encoded <+: base64_encode bytes) :
    base64_decode encoded = bytes.take (decodedLength (body encoded).length) := by
  have hbody := body_of_isPrefix h
  have hcut := List.prefix_iff_eq_take.mp hbody
  have htake := decode_body_take bytes (body encoded).length hbody.length_le
  rw [← hcut, base64_decode_body] at htake
  exact htake

/-- What a cut leaves of an encoded text decodes to a prefix of the bytes, and a shorter rest
to a shorter one. -/
theorem base64_decode_prefix {bytes encoded : List Byte} (h : encoded <+: base64_encode bytes) :
    base64_decode encoded = bytes.take (decodedLength (body encoded).length) ∧
      ∀ shorter, shorter <+: encoded → base64_decode shorter <+: base64_decode encoded := by
  refine ⟨decode_of_isPrefix h, ?_⟩
  intro shorter hshorter
  have hless := decodedLength_mono (body_of_isPrefix hshorter).length_le
  rw [decode_of_isPrefix h, decode_of_isPrefix (hshorter.trans h)]
  exact List.take_prefix_take_left hless

/- A cut in the padding of one byte, and one in front of its second character. -/
theorem base64_decode_prefix_one :
    [81, 81, 61] <+: base64_encode [65] ∧
      base64_decode [81, 81, 61] = [65].take (decodedLength (body [81, 81, 61]).length) ∧
      base64_decode [81] <+: base64_decode [81, 81, 61] := by
  have hcut : [81, 81, 61] <+: base64_encode [65] := by decide +kernel
  have h := base64_decode_prefix hcut
  exact ⟨hcut, h.1, h.2 [81] (by decide)⟩

end SyscallSensor.Encoding
