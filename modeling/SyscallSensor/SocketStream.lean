import SyscallSensor.Encoding
import SyscallSensor.SysRecord
import SyscallSensor.Lib.Framing
import SyscallSensor.Lib.Transition

/-! The network stream: `sensor_packet_json::to_json`, the frames that
`socket_stream::dispatch` hands to the socket, and the connection they are sent over. -/
namespace SyscallSensor.SocketStream
open Text Trace Encoding
open Lib.Decimal (intText)
open Lib.Framing (bigEndian frame cut)

/- A brace is `\x7b` or `\x7d`. -/
def header (meta_ : List Byte) (timestamp : Int) : List Byte :=
  ascii "\x7b \"sensor_info\": \"" ++ meta_ ++ ascii "\"," ++ ascii "\"timestamp\": \"" ++
    intText timestamp ++ ascii "\"," ++ ascii "\"syscalls\":["

def item (r : SysParamsRecord) : List Byte := ascii "(" ++ r.to_string ++ ascii ")"

/-- The loop over the records, with a comma behind all but the last. -/
def writeRecords : List SysParamsRecord → List Byte
  | [] => []
  | [r] => item r
  | r :: r' :: records => item r ++ ascii "," ++ writeRecords (r' :: records)

/-- A `std::string` made from a `char` pointer ends before the first NUL. -/
def ofPointer (buffer : List Byte) : List Byte := buffer.takeWhile (· ≠ 0)

def to_json (meta_ : List Byte) (timestamp : Int) (records : List SysParamsRecord) : List Byte :=
  ofPointer (header meta_ timestamp ++ writeRecords records ++ ascii "]\x7d" ++ [0])

/-- What `dispatch` hands to `send`: four placeholder bytes and the base64 text, with the
length of the text (as `htonl` lays it out) patched over the placeholder. -/
def dispatch (meta_ : List Byte) (timestamp : Int) (records : List SysParamsRecord) : List Byte :=
  let json := to_json meta_ timestamp records
  let str := List.replicate 4 blank ++ base64_encode (json.take (json.length % 2 ^ 32))
  let n := str.length - 4
  let myByteArray := bigEndian 4 n
  myByteArray ++ str.drop 4

/- The text a packet carries. -/
def packetText (meta_ : List Byte) (timestamp : Int) (records : List SysParamsRecord) : List Byte :=
  header meta_ timestamp ++ (ascii ",").intercalate (records.map item) ++ ascii "]\x7d"

/- Four bytes of length, that many bytes of base64, and so on. -/
def receive (stream : List Byte) : Option (List (List Byte)) :=
  (cut 4 stream).map fun bodies => bodies.map base64_decode

theorem header_length (meta_ : List Byte) (timestamp : Int) :
    (header meta_ timestamp).length = meta_.length + (intText timestamp).length + 48 := by
  have hliterals : (ascii "\x7b \"sensor_info\": \"").length = 18 ∧ (ascii "\",").length = 2 ∧
      (ascii "\"timestamp\": \"").length = 14 ∧ (ascii "\"syscalls\":[").length = 12 := by decide
  simp only [header, List.length_append, hliterals]
  omega

theorem writeRecords_eq (records : List SysParamsRecord) :
    writeRecords records = (ascii ",").intercalate (records.map item) := by
  induction records with
  | nil => rfl
  | cons r records ih =>
    cases records with
    | nil => simp [writeRecords]
    | cons r' records =>
      rw [writeRecords, ih]
      simp only [List.map_cons, List.intercalate_cons_cons]

theorem ofPointer_append_nul {text : List Byte} (h : 0 ∉ text) : ofPointer (text ++ [0]) = text := by
  rw [ofPointer, List.takeWhile_append_of_pos (by
    intro b hb
    have hne : b ≠ 0 := fun he => h (he ▸ hb)
    simpa using hne)]
  simp

/- Names without a NUL byte. The same of `_arg` holds of every record the program makes: its
constructor leaves `_arg` empty. -/
def NulFree (r : SysParamsRecord) : Prop := 0 ∉ r._name ∧ 0 ∉ r._arg

instance (r : SysParamsRecord) : Decidable (NulFree r) :=
  inferInstanceAs (Decidable (0 ∉ r._name ∧ 0 ∉ r._arg))

theorem item_nulFree {r : SysParamsRecord} (h : NulFree r) : 0 ∉ item r := by
  have hparen : 0 ∉ ascii "(" ∧ 0 ∉ ascii ")" := by decide
  have htext : 0 ∉ r.to_string :=
    SysParamsRecord.not_mem_to_string (by decide) (by decide) h.1 h.2
  rw [item, List.mem_append, List.mem_append, not_or, not_or]
  exact ⟨⟨hparen.1, htext⟩, hparen.2⟩

theorem writeRecords_nulFree {records : List SysParamsRecord} (h : ∀ r ∈ records, NulFree r) :
    0 ∉ writeRecords records := by
  induction records with
  | nil => simp [writeRecords]
  | cons r records ih =>
    rw [List.forall_mem_cons] at h
    cases records with
    | nil => exact item_nulFree h.1
    | cons r' records =>
      have hcomma : 0 ∉ ascii "," := by decide
      rw [writeRecords, List.mem_append, List.mem_append, not_or, not_or]
      exact ⟨⟨item_nulFree h.1, hcomma⟩, ih h.2⟩

theorem packetText_nulFree {meta_ : List Byte} {timestamp : Int} {records : List SysParamsRecord}
    (hmeta : 0 ∉ meta_) (hrecords : ∀ r ∈ records, NulFree r) :
    0 ∉ packetText meta_ timestamp records := by
  have hliterals : 0 ∉ ascii "\x7b \"sensor_info\": \"" ∧ 0 ∉ ascii "\"," ∧
      0 ∉ ascii "\"timestamp\": \"" ∧ 0 ∉ ascii "\"syscalls\":[" ∧ 0 ∉ ascii "]\x7d" := by
    decide
  have hitems : 0 ∉ (ascii ",").intercalate (records.map item) := by
    rw [← writeRecords_eq]
    exact writeRecords_nulFree hrecords
  have hstamp : 0 ∉ intText timestamp := Lib.Decimal.not_mem_intText (by decide) timestamp
  simp [packetText, header, hliterals, hmeta, hstamp, hitems]

/-- The NUL that ends the writer's buffer is the only one, so the whole text comes back. -/
theorem to_json_eq {meta_ : List Byte} {timestamp : Int} {records : List SysParamsRecord}
    (hmeta : 0 ∉ meta_) (hrecords : ∀ r ∈ records, NulFree r) :
    to_json meta_ timestamp records = packetText meta_ timestamp records := by
  rw [to_json, writeRecords_eq]
  exact ofPointer_append_nul (packetText_nulFree hmeta hrecords)

/-- The patched string is one frame around the base64 text. -/
theorem dispatch_eq_frame {meta_ : List Byte} {timestamp : Int} {records : List SysParamsRecord}
    (h : (to_json meta_ timestamp records).length < 2 ^ 32) :
    dispatch meta_ timestamp records =
      frame 4 (base64_encode (to_json meta_ timestamp records)) := by
  have hplaceholder : (List.replicate 4 blank).length = 4 := rfl
  simp only [dispatch, Nat.mod_eq_of_lt h, List.take_length, List.length_append, hplaceholder,
    Nat.add_sub_cancel_left, frame]
  rw [List.drop_append_of_le_length (by simp), List.drop_of_length_le (by simp), List.nil_append]

theorem dispatch_flatMap {meta_ : List Byte} {packs : List (Int × List SysParamsRecord)}
    (h : ∀ pack ∈ packs, (to_json meta_ pack.1 pack.2).length < 2 ^ 32) :
    (packs.flatMap fun pack => dispatch meta_ pack.1 pack.2) =
      ((packs.map fun pack => to_json meta_ pack.1 pack.2).map base64_encode).flatMap
        (frame 4) := by
  induction packs with
  | nil => rfl
  | cons pack packs ih =>
    rw [List.forall_mem_cons] at h
    rw [List.flatMap_cons, List.map_cons, List.map_cons, List.flatMap_cons, dispatch_eq_frame h.1, ih h.2]

theorem receive_frames {texts : List (List Byte)}
    (h : ∀ text ∈ texts, (base64_encode text).length < 2 ^ 31) :
    receive ((texts.map base64_encode).flatMap (frame 4)) = some texts := by
  have hbodies : ∀ body ∈ texts.map base64_encode, body.length < 256 ^ 4 := by
    intro body hbody
    obtain ⟨text, htext, rfl⟩ := List.mem_map.mp hbody
    exact Nat.lt_trans (h text htext) (by norm_num)
  have hid : base64_decode ∘ base64_encode = id := funext base64_decode_encode
  rw [receive, Lib.Framing.cut_frames (by decide) hbodies, Option.map_some, List.map_map, hid,
    List.map_id]

/-- The receiver uses the stream up and gets the text of every packet, in order. -/
theorem receiver_recovers {meta_ : List Byte} {packs : List (Int × List SysParamsRecord)}
    (hmeta : 0 ∉ meta_) (hrecords : ∀ pack ∈ packs, ∀ r ∈ pack.2, NulFree r)
    (hsize : ∀ pack ∈ packs, (base64_encode (to_json meta_ pack.1 pack.2)).length < 2 ^ 31) :
    receive (packs.flatMap fun pack => dispatch meta_ pack.1 pack.2) =
        some (packs.map fun pack => to_json meta_ pack.1 pack.2) ∧
      ∀ pack ∈ packs, to_json meta_ pack.1 pack.2 = packetText meta_ pack.1 pack.2 := by
  have hshort : ∀ pack ∈ packs, (to_json meta_ pack.1 pack.2).length < 2 ^ 32 := by
    intro pack hpack
    have hencoded := Nat.lt_of_le_of_lt (length_le_base64_encode _) (hsize pack hpack)
    exact Nat.lt_trans hencoded (by norm_num)
  constructor
  · have htexts : ∀ text ∈ packs.map fun pack => to_json meta_ pack.1 pack.2,
        (base64_encode text).length < 2 ^ 31 := by
      intro text htext
      obtain ⟨pack, hpack, rfl⟩ := List.mem_map.mp htext
      exact hsize pack hpack
    rw [dispatch_flatMap hshort, receive_frames htexts]
  · intro pack hpack
    exact to_json_eq hmeta (hrecords pack hpack)

theorem receiver_recovers_two_packs :
    let packs : List (Int × List SysParamsRecord) :=
      [(1, [⟨⟨7, 3⟩, ascii "sh", []⟩, ⟨⟨9, 4⟩, ascii "ls", []⟩]), (2, [])]
    receive (packs.flatMap fun pack => dispatch (ascii "sensor1") pack.1 pack.2) =
        some (packs.map fun pack => to_json (ascii "sensor1") pack.1 pack.2) ∧
      ∀ pack ∈ packs, to_json (ascii "sensor1") pack.1 pack.2 =
        packetText (ascii "sensor1") pack.1 pack.2 := by
  exact receiver_recovers (by decide) (by decide) (by decide +kernel)

end SyscallSensor.SocketStream
