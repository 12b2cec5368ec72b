import SyscallSensor.FmtFormat

/-! What the sensor prints with `fmt`: `to_string` as the call of `fmt::format` that it is, and
`to_json` over a `MemoryWriter`. -/
namespace SyscallSensor.Fmt
open Text Trace
open Lib.Decimal (intText IsDigit)

/-- A record whose members hold values of their types. -/
structure PrintableRecord extends SysParamsRecord where
  pid_holds : -2 ^ 31 ≤ _pid ∧ _pid < 2 ^ 31
  syscall_holds : -2 ^ 15 ≤ _syscall ∧ _syscall < 2 ^ 15

namespace PrintableRecord

/- `short` arguments are passed as `int`. -/
def pidArg (r : PrintableRecord) : Arg :=
  .integer .uint32 r._pid ⟨r.pid_holds.1, Int.lt_trans r.pid_holds.2 (by decide)⟩

def syscallArg (r : PrintableRecord) : Arg :=
  .integer .uint32 r._syscall ⟨Int.le_trans (by decide) r.syscall_holds.1,
    Int.lt_trans r.syscall_holds.2 (by decide)⟩

def args (r : PrintableRecord) : List Arg :=
  [.string r._name, r.pidArg, r.syscallArg, .string r._arg]

end PrintableRecord

section
variable (format_spec : Arg → Int → List Byte → Buffer → Except Failure (Nat × Int × Buffer))

/-- `SysParamsRecord::to_string`. -/
def to_string (r : PrintableRecord) : Except Failure (List Byte) :=
  format format_spec r.args
    (ascii "'\x7b0\x7d','\x7b1\x7d','\x7b2\x7d','\x7b3\x7d'")

/-- `SysRecord::to_string`. -/
def pid_to_string (r : PrintableRecord) : Except Failure (List Byte) :=
  format format_spec [r.pidArg, r.syscallArg] (ascii "'\x7b0\x7d','\x7b1\x7d'")

/- The loop of `to_json` over the records. -/
def jsonLoop : List PrintableRecord → Buffer → Except Failure Buffer
  | [], w => .ok w
  | r :: records, w => do
    let item ← to_string format_spec r
    let w := ((w.append (ascii "(")).append item).append (ascii ")")
    jsonLoop records (if records ≠ [] then w.append (ascii ",") else w)

/-- `to_json`. The time stamp is a `long`. -/
def to_json (meta_ : List Byte) (timestamp : Int) (records : List PrintableRecord) :
    Except Failure (List Byte) := do
  let w := ((MemoryBuffer.append (ascii "\x7b \"sensor_info\": \"")).append meta_).append (ascii "\",")
  let w ← orFault (write_int .uint64 timestamp (w.append (ascii "\"timestamp\": \"")))
  let w ← jsonLoop format_spec records ((w.append (ascii "\",")).append (ascii "\"syscalls\":["))
  let w := (w.append (ascii "]\x7d")).push_back 0
  pure (SocketStream.ofPointer w.ptr_)

end

/- The pieces of the two formats. -/
def quote : Piece := .text (ascii "'") (by decide)

def between : Piece := .text (ascii "','") (by decide)

def field (c : Byte) (h : IsDigit c) : Piece :=
  .nth [c] ⟨List.cons_ne_nil c [], List.forall_mem_singleton.mpr h⟩

def pidFormat : List Piece :=
  [quote, field 48 (by decide), between, field 49 (by decide), quote]

def recordFormat : List Piece :=
  [quote, field 48 (by decide), between, field 49 (by decide), between, field 50 (by decide),
    between, field 51 (by decide), quote]

section
variable (format_spec : Arg → Int → List Byte → Buffer → Except Failure (Nat × Int × Buffer))

/-- `fmt` prints a record as the text that the packets and the files are made of. -/
theorem to_string_eq (r : PrintableRecord) :
    to_string format_spec r = .ok r.toSysParamsRecord.to_string := by
  have hrender : recordFormat.flatMap Piece.render =
      ascii "'\x7b0\x7d','\x7b1\x7d','\x7b2\x7d','\x7b3\x7d'" := by decide
  have hexpand : expand r.args (some 0) recordFormat = some r.toSysParamsRecord.to_string := by
    simp only [SysParamsRecord.to_string, List.append_assoc]
    rfl
  rw [to_string, ← hrender]
  exact format_expands format_spec hexpand

theorem pid_to_string_eq (r : PrintableRecord) :
    pid_to_string format_spec r =
      .ok (ascii "'" ++ intText r._pid ++ ascii "','" ++ intText r._syscall ++ ascii "'") := by
  have hrender : pidFormat.flatMap Piece.render = ascii "'\x7b0\x7d','\x7b1\x7d'" := by decide
  rw [pid_to_string, ← hrender]
  apply format_expands
  simp only [List.append_assoc]
  rfl

theorem jsonLoop_eq (records : List PrintableRecord) (w : Buffer) :
    ∃ t, jsonLoop format_spec records w = .ok t ∧ t.ptr_ = w.ptr_ ++
      SocketStream.writeRecords (records.map PrintableRecord.toSysParamsRecord) := by
  induction records generalizing w with
  | nil => exact ⟨w, rfl, (List.append_nil _).symm⟩
  | cons r records ih =>
    rw [jsonLoop, to_string_eq, Lib.Outcome.ok_bind]
    obtain ⟨t, hloop, ht⟩ := ih _
    refine ⟨t, hloop, ?_⟩
    rw [ht]
    cases records with
    | nil => simp [SocketStream.writeRecords, SocketStream.item]
    | cons r' records => simp [SocketStream.writeRecords, SocketStream.item]

/-- The writer produces the text of the packet; nothing is stored outside its buffer. -/
theorem to_json_eq (meta_ : List Byte) {timestamp : Int}
    (h : -2 ^ 63 ≤ timestamp ∧ timestamp < 2 ^ 63) (records : List PrintableRecord) :
    to_json format_spec meta_ timestamp records =
      .ok (SocketStream.to_json meta_ timestamp
        (records.map PrintableRecord.toSysParamsRecord)) := by
  have hholds : MainType.uint64.Holds timestamp := ⟨h.1, Int.lt_trans h.2 (by decide)⟩
  obtain ⟨w, hwrite, hw⟩ := write_int_spec hholds (((((MemoryBuffer.append
    (ascii "\x7b \"sensor_info\": \"")).append meta_).append (ascii "\","))).append
    (ascii "\"timestamp\": \""))
  obtain ⟨t, hloop, ht⟩ := jsonLoop_eq format_spec records
    ((w.append (ascii "\",")).append (ascii "\"syscalls\":["))
  simp only [to_json, hwrite, orFault, Lib.Outcome.ok_bind, hloop]
  show Except.ok _ = Except.ok _
  rw [SocketStream.to_json, SocketStream.header]
  simp [ht, hw]

end

/-- What is stored digit by digit holds a value of its type. -/
theorem digitLoop_keeps {P : Int → Prop} {store : Int → Except Fault Int}
    (hstore : ∀ v v', store v = .ok v' → P v') {block : List Byte} {pos left : Nat} {value v : Int}
    (h : P value) (hloop : digitLoop store block pos left value = .ok v) : P v := by
  induction left generalizing pos value with
  | zero =>
    obtain rfl := Except.ok.inj hloop
    exact h
  | succ left ih =>
    obtain ⟨c, -, hloop⟩ := Lib.Outcome.bind_eq_ok.mp hloop
    split at hloop
    · obtain rfl := Except.ok.inj hloop
      exact h
    · obtain ⟨sum, -, hloop⟩ := Lib.Outcome.bind_eq_ok.mp hloop
      obtain ⟨value', hvalue, hloop⟩ := Lib.Outcome.bind_eq_ok.mp hloop
      exact ih (hstore sum value' hvalue) hloop

theorem inInt_holds (v v' : Int) (h : inInt v = .ok v') : -2 ^ 31 ≤ v' ∧ v' < 2 ^ 31 := by
  rw [inInt] at h
  split at h
  · rename_i hin
    obtain rfl := Except.ok.inj h
    exact hin
  · cases h

theorem inSyscall_holds (v v' : Int) (h : inSyscall v = .ok v') : -2 ^ 15 ≤ v' ∧ v' < 2 ^ 15 := by
  rw [inSyscall] at h
  split at h
  · rename_i hin
    obtain rfl := Except.ok.inj h
    exact hin
  · cases h

/- A record that its constructor has returned. -/
def Made (r : SysParamsRecord) : Prop :=
  ∃ name pid syscall arg, SysParamsRecord.make name pid syscall arg = .ok r

/-- Every record that is made from columns of a trace can be printed. -/
theorem made_printable {r : SysParamsRecord} (h : Made r) :
    ∃ p : PrintableRecord, p.toSysParamsRecord = r := by
  obtain ⟨name, pid, syscall, arg, h⟩ := h
  have hzero : -2 ^ 15 ≤ (0 : Int) ∧ (0 : Int) < 2 ^ 15 := by decide
  obtain ⟨base, hbase, hname⟩ := Lib.Outcome.bind_eq_ok.mp h
  obtain ⟨withPid, hpid, hsyscall⟩ := Lib.Outcome.bind_eq_ok.mp hbase
  obtain ⟨v, hv, hpid⟩ := Lib.Outcome.bind_eq_ok.mp hpid
  obtain ⟨u, hu, hsyscall⟩ := Lib.Outcome.bind_eq_ok.mp hsyscall
  obtain ⟨first, -, hname⟩ := Lib.Outcome.bind_eq_ok.mp hname
  obtain ⟨last, -, hname⟩ := Lib.Outcome.bind_eq_ok.mp hname
  obtain ⟨text, -, hname⟩ := Lib.Outcome.bind_eq_ok.mp hname
  cases hpid
  cases hsyscall
  cases hname
  exact ⟨⟨_, digitLoop_keeps inInt_holds (by decide) hv,
    digitLoop_keeps inSyscall_holds hzero hu⟩, rfl⟩

/-- For whatever records the program can make, the writer gives the text that the packets are
made of, and nothing is stored outside its buffer. -/
theorem packet_printed
    (format_spec : Arg → Int → List Byte → Buffer → Except Failure (Nat × Int × Buffer))
    (meta_ : List Byte) {timestamp : Int} (h : -2 ^ 63 ≤ timestamp ∧ timestamp < 2 ^ 63)
    {records : List SysParamsRecord} (hmade : ∀ r ∈ records, Made r) :
    ∃ ps : List PrintableRecord, ps.map PrintableRecord.toSysParamsRecord = records ∧
      to_json format_spec meta_ timestamp ps =
        .ok (SocketStream.to_json meta_ timestamp records) := by
  have hprintable : ∃ ps : List PrintableRecord,
      ps.map PrintableRecord.toSysParamsRecord = records := by
    induction records with
    | nil => exact ⟨[], rfl⟩
    | cons r records ih =>
      rw [List.forall_mem_cons] at hmade
      obtain ⟨p, rfl⟩ := made_printable hmade.1
      obtain ⟨ps, rfl⟩ := ih hmade.2
      exact ⟨p :: ps, rfl⟩
  obtain ⟨ps, rfl⟩ := hprintable
  exact ⟨ps, rfl, to_json_eq format_spec meta_ h ps⟩

/- One record, from a name in front of its dash and two numbers in front of a blank. -/
theorem packet_printed_oneRecord :
    ∃ ps : List PrintableRecord,
      ps.map PrintableRecord.toSysParamsRecord = [⟨⟨7, 3⟩, ascii "sh", []⟩] ∧
      to_json (fun _ _ _ _ => .error (.format_error "no specification")) (ascii "sensor1") 1 ps =
        .ok (SocketStream.to_json (ascii "sensor1") 1 [⟨⟨7, 3⟩, ascii "sh", []⟩]) := by
  have hmade : SysParamsRecord.make ⟨ascii "sh-7", 0, 2⟩ (StringRef.ofLine (ascii "7 "))
      (StringRef.ofLine (ascii "3 ")) (StringRef.ofLine []) = .ok ⟨⟨7, 3⟩, ascii "sh", []⟩ := by
    decide +kernel
  exact packet_printed _ (ascii "sensor1") ⟨by decide, by decide⟩
    (List.forall_mem_singleton.mpr ⟨_, _, _, _, hmade⟩)

end SyscallSensor.Fmt
