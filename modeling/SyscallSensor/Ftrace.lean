import SyscallSensor.Collect

/-! The lines the kernel prints for `sys_enter` events (assumed ftrace format), and what
`collect` makes of them. The widths of the format are minimum widths. -/
namespace SyscallSensor.Trace
open Text Lib.Decimal

structure Event where
  comm : List Byte
  pid : Nat
  cpu : Nat
  flags : List Byte
  secs : Nat
  usecs : Nat
  nr : Nat
  args : List Byte
  flags_length : flags.length = 4

def padLeft (c : Byte) (width : Nat) (s : List Byte) : List Byte :=
  List.replicate (width - s.length) c ++ s

def padRight (c : Byte) (width : Nat) (s : List Byte) : List Byte :=
  s ++ List.replicate (width - s.length) c

/- The columns between the pid and the call number. -/
def Event.middle (e : Event) : List Byte :=
  ascii " [" ++ padLeft 48 3 (text e.cpu) ++ ascii "] " ++ e.flags ++ ascii " " ++
    padLeft blank 5 (text e.secs) ++ ascii "." ++ padLeft 48 6 (text e.usecs) ++
    ascii ": sys_enter: NR "

/-- `"%16s-%-5d [%03d] ffff %5lu.%06lu: sys_enter: NR %d (args)"`. -/
def Event.render (e : Event) : List Byte :=
  padLeft blank 16 e.comm ++ ascii "-" ++ padRight blank 5 (text e.pid) ++ e.middle ++
    text e.nr ++ ascii " (" ++ e.args ++ ascii ")"

/- The record that describes the event. -/
def Event.record (e : Event) : SysParamsRecord :=
  { _pid := e.pid, _syscall := e.nr, _name := e.comm }

structure FitsColumns (e : Event) : Prop where
  comm_length : e.comm.length ≤ 16
  comm_blank : e.comm.head? ≠ some blank
  pid : e.pid ≤ 99999
  cpu : e.cpu ≤ 999
  secs : e.secs ≤ 99999
  usecs : e.usecs ≤ 999999
  nr : e.nr ≤ 999

theorem padLeft_length {c : Byte} {width : Nat} {s : List Byte} (h : s.length ≤ width) :
    (padLeft c width s).length = width := by
  rw [padLeft, List.length_append, List.length_replicate]
  omega

theorem padRight_length {c : Byte} {width : Nat} {s : List Byte} (h : s.length ≤ width) :
    (padRight c width s).length = width := by
  rw [padRight, List.length_append, List.length_replicate]
  omega

theorem isDigit_ne_blank {b : UInt8} (h : IsDigit b) : b ≠ blank := by
  intro he
  subst he
  exact absurd h (by decide)

/-- A number followed by a blank, or by the end of the window, is read back. -/
theorem digitFold_text (n : Nat) {rest : List Byte} (h : ∀ c ∈ rest.head?, c = blank) :
    digitFold (text n ++ rest) 0 = n := by
  have hdigits : ∀ b ∈ text n, IsDigit b := fun b hb => text_isDigit hb
  have hword : (text n ++ rest).takeWhile (· ≠ blank) = text n := by
    rw [List.takeWhile_append_of_pos (by
      intro b hb
      simpa using isDigit_ne_blank (hdigits b hb))]
    cases rest with
    | nil => simp
    | cons c rest => simp [h c (by simp)]
  rw [digitFold, hword]
  have hfold := foldl_digits hdigits 0
  rw [Nat.cast_zero] at hfold
  rw [hfold]
  exact_mod_cast value_text n

theorem text_length_le_of_le {n k : Nat} (hk : 0 < k) (h : n ≤ 10 ^ k - 1) :
    (text n).length ≤ k :=
  text_length_le hk (by have := Nat.pow_pos (n := k) (show 0 < 10 by decide); omega)

theorem middle_length {e : Event} (h : FitsColumns e) : e.middle.length = 40 := by
  have hcpu := padLeft_length (c := 48) (text_length_le_of_le (k := 3) (by decide) h.cpu)
  have hsecs := padLeft_length (c := blank) (text_length_le_of_le (k := 5) (by decide) h.secs)
  have husecs := padLeft_length (c := 48) (text_length_le_of_le (k := 6) (by decide) h.usecs)
  have hopen : (ascii " [").length = 2 := rfl
  have hclose : (ascii "] ").length = 2 := rfl
  have hspace : (ascii " ").length = 1 := rfl
  have hdot : (ascii ".").length = 1 := rfl
  have hcall : (ascii ": sys_enter: NR ").length = 16 := rfl
  simp only [Event.middle, List.length_append, hcpu, hsecs, husecs, e.flags_length, hopen, hclose,
    hspace, hdot, hcall]

/-- The cursors of `set_name` on a right-aligned column that a dash follows. -/
theorem name_cursors {comm : List Byte} (rest : List Byte) (k : Nat) (hblank : comm.head? ≠ some blank) :
    FirstNonBlank (List.replicate k blank ++ comm ++ 45 :: rest) 0 k ∧
      LastNonBlank (List.replicate k blank ++ comm ++ 45 :: rest) (k + comm.length)
        (k + comm.length) := by
  have hdash : (List.replicate k blank ++ comm ++ 45 :: rest)[k + comm.length]? = some 45 := by
    rw [List.getElem?_append_right (by simp)]
    simp
  have hstop : ∃ c, (List.replicate k blank ++ comm ++ 45 :: rest)[k]? = some c ∧ c ≠ blank := by
    cases comm with
    | nil => exact ⟨45, by simp, by decide⟩
    | cons c comm =>
      refine ⟨c, ?_, fun he => hblank (by rw [he]; rfl)⟩
      rw [List.append_assoc, List.getElem?_append_right (by simp)]
      simp
  constructor
  · refine ⟨Nat.zero_le k, hstop, ?_⟩
    intro j _ hj
    rw [List.append_assoc, List.getElem?_append_left (by simpa using hj)]
    simp [hj]
  · exact ⟨Nat.le_refl _, ⟨45, hdash, by decide⟩, fun j hj hle => by omega⟩

/-- Every column of a rendered event lies where the parser looks for it. -/
theorem render_columns {e : Event} (h : FitsColumns e) :
    ∃ after, e.render = List.replicate (16 - e.comm.length) blank ++ e.comm ++ 45 :: after ∧
      (e.render.drop 17).take 5 = padRight blank 5 (text e.pid) ∧
      (e.render.drop 62).take 3 = (text e.nr ++ (ascii " (" ++ e.args ++ ascii ")")).take 3 ∧
      65 ≤ e.render.length := by
  have hname := padLeft_length (c := blank) h.comm_length
  have hpid := padRight_length (c := blank) (text_length_le_of_le (k := 5) (by decide) h.pid)
  have hmiddle := middle_length h
  have hnr := text_length_pos e.nr
  have hdash : ascii "-" = [45] := rfl
  have hopen : (ascii " (").length = 2 := rfl
  have hclose : (ascii ")").length = 1 := rfl
  let front := padLeft blank 16 e.comm ++ ascii "-"
  let call := text e.nr ++ (ascii " (" ++ e.args ++ ascii ")")
  have hfront : front.length = 17 := by simp [front, hname, hdash]
  have hcut : e.render = front ++ padRight blank 5 (text e.pid) ++ (e.middle ++ call) := by
    simp [Event.render, front, call, List.append_assoc]
  have hcall : e.render = (front ++ padRight blank 5 (text e.pid) ++ e.middle) ++ call ++ [] := by
    simp [hcut, List.append_assoc]
  have hbefore : (front ++ padRight blank 5 (text e.pid) ++ e.middle).length = 62 := by
    simp [hfront, hpid, hmiddle]
  have hcalllen : 4 ≤ call.length := by
    simp only [call, List.length_append, hopen, hclose]
    omega
  refine ⟨padRight blank 5 (text e.pid) ++ (e.middle ++ call), ?_, ?_, ?_, ?_⟩
  · rw [hcut]
    simp [front, padLeft, hdash, List.append_assoc]
  · have hslice := slice_inside front (padRight blank 5 (text e.pid)) (e.middle ++ call)
      (show 0 + 5 ≤ _ by omega)
    rw [hfront] at hslice
    rw [hcut, hslice, List.drop_zero, List.take_of_length_le (by omega)]
  · have hslice := slice_inside (front ++ padRight blank 5 (text e.pid) ++ e.middle) call []
      (show 0 + 3 ≤ _ by omega)
    rw [hbefore] at hslice
    rw [hcall, hslice, List.drop_zero]
  · rw [hcall, List.length_append, List.length_append, hbefore]
    omega

/-- The three-byte window over the call number and what follows it. -/
theorem digitFold_window {n : Nat} {rest : List Byte} (hn : n ≤ 999)
    (hrest : ∀ c ∈ rest.head?, c = blank) : digitFold ((text n ++ rest).take 3) 0 = n := by
  have hlen := text_length_le_of_le (k := 3) (by decide) hn
  rw [List.take_append, List.take_of_length_le hlen]
  apply digitFold_text
  intro c hc
  cases rest with
  | nil => simp at hc
  | cons b rest =>
    cases hk : 3 - (text n).length with
    | zero => simp [hk] at hc
    | succ k => exact hrest c (by simpa [hk] using hc)

/-- The line of an event that fits the columns becomes the record of that event. -/
theorem collectLine_render {e : Event} (h : FitsColumns e)
    (data : DataAggregator SysParamsRecord) :
    collectLine SysParamsRecord.make data (.ofLine e.render) = .ok (data.append e.record) := by
  obtain ⟨after, hname, hpid, hcall, hlong⟩ := render_columns h
  obtain ⟨hfirst, hlast⟩ := name_cursors after (16 - e.comm.length) h.comm_blank
  have hcomm := h.comm_length
  have hstop : 16 - e.comm.length + e.comm.length = 16 := by omega
  rw [← hname] at hfirst hlast
  rw [hstop] at hlast
  have hslice : (e.render.drop (16 - e.comm.length)).take (16 - (16 - e.comm.length)) = e.comm := by
    have hinside := slice_inside (List.replicate (16 - e.comm.length) blank) e.comm (45 :: after)
      (show 0 + e.comm.length ≤ e.comm.length by omega)
    rw [List.length_replicate, ← hname, List.drop_zero, List.take_length] at hinside
    rw [Nat.sub_sub_self hcomm]
    exact hinside
  refine (collectLine_record_iff hlong (by simp)).mpr ⟨_, 16, hfirst, hlast, by omega, ?_⟩
  have hpad : ∀ c ∈ (List.replicate (5 - (text e.pid).length) blank).head?, c = blank := by
    intro c hc
    exact List.eq_of_mem_replicate (List.mem_of_mem_head? hc)
  rw [Nat.zero_add, Nat.zero_add, hpid, hcall, hslice, padRight, digitFold_text e.pid hpad,
    digitFold_window h.nr (by simp [ascii]; rfl)]
  rfl

/- A line of the trace: an event that fits the columns, or something short. -/
inductive TraceLine where
  | event (e : Event) (fits : FitsColumns e)
  | other (line : List Byte) (short : line.length ≤ 60)

def TraceLine.bytes : TraceLine → List Byte
  | .event e _ => e.render
  | .other line _ => line

def TraceLine.record? : TraceLine → Option SysParamsRecord
  | .event e _ => some e.record
  | .other _ _ => none

/-- Parsing undoes rendering: the records appended are those of the events, in order, and no
value leaves its type on the way. -/
theorem collect_render (lines : List TraceLine) (data : DataAggregator SysParamsRecord) :
    collectRecords (lines.map fun line => .ofLine line.bytes) data =
      .ok (data.appendAll (lines.filterMap TraceLine.record?)) := by
  induction lines generalizing data with
  | nil => simp [collectRecords, collect, DataAggregator.appendAll, pure, Except.pure]
  | cons line lines ih =>
    refine Lib.Outcome.foldlM_cons_eq_ok.mpr ?_
    cases line with
    | event e fits =>
      refine ⟨_, collectLine_render fits data, ?_⟩
      have hrest := ih (data.append e.record)
      have happend : (data.append e.record).appendAll (lines.filterMap TraceLine.record?) =
          data.appendAll (e.record :: lines.filterMap TraceLine.record?) := by
        simp [DataAggregator.append, DataAggregator.appendAll]
      rw [happend] at hrest
      exact hrest
    | other line short =>
      exact ⟨data, collectLine_short short, ih data⟩

/- What the kernel can print: bounded pids, call numbers and microseconds, any CPU number
   and uptime. -/
structure Printable (e : Event) : Prop where
  comm_length : e.comm.length ≤ 15
  comm_blank : e.comm.head? ≠ some blank
  pid : e.pid ≤ 4194304
  usecs : e.usecs ≤ 999999
  nr : e.nr ≤ 999

/- The records of the two events agree on name, pid and call exactly when the events agree
   on process and call. -/
def SameRecordIff (e e' : Event) : Prop :=
  ∃ r r', collectRecords [.ofLine e.render] {} = .ok { __data := [r] } ∧
    collectRecords [.ofLine e'.render] {} = .ok { __data := [r'] } ∧
    ((r._name = r'._name ∧ r._pid = r'._pid ∧ r._syscall = r'._syscall) ↔
      (e.comm = e'.comm ∧ e.pid = e'.pid ∧ e.nr = e'.nr))

theorem sameRecordIff_of_fits {e e' : Event} (h : FitsColumns e) (h' : FitsColumns e') :
    SameRecordIff e e' := by
  have hcollect {e : Event} (h : FitsColumns e) :
      collectRecords [.ofLine e.render] {} = .ok { __data := [e.record] } :=
    collect_render [.event e h] {}
  refine ⟨e.record, e'.record, hcollect h, hcollect h', ?_⟩
  simp [Event.record]

/- The largest pid, CPU number and uptime (in seconds) that a machine puts into its trace. -/
structure Machine where
  pid_max : Nat
  cpu_max : Nat
  uptime : Nat
  pid_max_le : pid_max ≤ 4194304

structure Machine.Prints (m : Machine) (e : Event) : Prop extends Printable e where
  pid_le : e.pid ≤ m.pid_max
  cpu_le : e.cpu ≤ m.cpu_max
  secs_le : e.secs ≤ m.uptime

/- A process without a name that makes the call `nr`. -/
def plainEvent (pid cpu secs nr : Nat) : Event where
  comm := []
  pid := pid
  cpu := cpu
  flags := [46, 46, 46, 46]
  secs := secs
  usecs := 0
  nr := nr
  args := []
  flags_length := rfl

theorem plainEvent_printed {m : Machine} {pid cpu secs nr : Nat} (hpid : pid ≤ m.pid_max)
    (hcpu : cpu ≤ m.cpu_max) (hsecs : secs ≤ m.uptime) (hnr : nr ≤ 999) :
    m.Prints (plainEvent pid cpu secs nr) where
  comm_length := Nat.zero_le _
  comm_blank := by simp [plainEvent]
  pid := hpid.trans m.pid_max_le
  usecs := Nat.zero_le _
  nr := hnr
  pid_le := hpid
  cpu_le := hcpu
  secs_le := hsecs

/-- Two lines whose records are known tell whether the events are told apart. -/
theorem sameRecordIff_records {e e' : Event} (r r' : SysParamsRecord)
    (h : collectRecords [.ofLine e.render] {} = .ok { __data := [r] })
    (h' : collectRecords [.ofLine e'.render] {} = .ok { __data := [r'] }) :
    SameRecordIff e e' ↔ ((r._name = r'._name ∧ r._pid = r'._pid ∧ r._syscall = r'._syscall) ↔
      (e.comm = e'.comm ∧ e.pid = e'.pid ∧ e.nr = e'.nr)) := by
  constructor
  · intro hsame
    obtain ⟨s, s', hs, hs', hiff⟩ := hsame
    rw [h] at hs
    rw [h'] at hs'
    obtain rfl : r = s := by simpa using hs
    obtain rfl : r' = s' := by simpa using hs'
    exact hiff
  · intro hiff
    exact ⟨r, r', h, h', hiff⟩

theorem wide_pid_confused : ¬ SameRecordIff (plainEvent 100000 0 0 0) (plainEvent 10000 0 0 0) := by
  rw [sameRecordIff_records { _pid := 10000 } { _pid := 10000 } rfl rfl]
  decide

theorem wide_cpu_confused : ¬ SameRecordIff (plainEvent 0 0 0 1) (plainEvent 0 1000 0 1) := by
  rw [sameRecordIff_records { _syscall := 1 } {} rfl rfl]
  decide

theorem wide_secs_confused :
    ¬ SameRecordIff (plainEvent 0 0 99999 1) (plainEvent 0 0 100000 1) := by
  rw [sameRecordIff_records { _syscall := 1 } {} rfl rfl]
  decide

/-- One process making one call before and after 100000 seconds of uptime. -/
theorem record_depends_on_uptime :
    ¬ ∀ e e', Printable e → Printable e' → SameRecordIff e e' := by
  intro hall
  have hprintable (secs : Nat) : Printable (plainEvent 0 0 secs 1) :=
    (plainEvent_printed (m := ⟨0, 0, secs, by decide⟩) (Nat.le_refl _) (Nat.le_refl _)
      (Nat.le_refl _) (by decide)).toPrintable
  exact wide_secs_confused (hall _ _ (hprintable 99999) (hprintable 100000))

/-- Events that fit the columns have records that depend on the process and the call alone; and on
a machine, all events have exactly when no pid, CPU number or uptime outgrows the width of its
column. -/
theorem same_record_iff_columns (m : Machine) :
    (∀ e e', FitsColumns e → FitsColumns e' → SameRecordIff e e') ∧
      ((∀ e e', m.Prints e → m.Prints e' → SameRecordIff e e') ↔
        m.pid_max ≤ 99999 ∧ m.cpu_max ≤ 999 ∧ m.uptime ≤ 99999) := by
  refine ⟨fun e e' he he' => sameRecordIff_of_fits he he', ?_⟩
  constructor
  · intro hall
    refine ⟨?_, ?_, ?_⟩
    · by_contra hwide
      exact wide_pid_confused (hall _ _
        (plainEvent_printed (by omega) (Nat.zero_le _) (Nat.zero_le _) (by decide))
        (plainEvent_printed (by omega) (Nat.zero_le _) (Nat.zero_le _) (by decide)))
    · by_contra hwide
      exact wide_cpu_confused (hall _ _
        (plainEvent_printed (Nat.zero_le _) (Nat.zero_le _) (Nat.zero_le _) (by decide))
        (plainEvent_printed (Nat.zero_le _) (by omega) (Nat.zero_le _) (by decide)))
    · by_contra hwide
      exact wide_secs_confused (hall _ _
        (plainEvent_printed (Nat.zero_le _) (Nat.zero_le _) (by omega) (by decide))
        (plainEvent_printed (Nat.zero_le _) (Nat.zero_le _) (by omega) (by decide)))
  · intro hbounds e e' he he'
    obtain ⟨hpid, hcpu, huptime⟩ := hbounds
    have hfits {e : Event} (he : m.Prints e) : FitsColumns e :=
      ⟨he.comm_length.trans (by decide), he.comm_blank, he.pid_le.trans hpid, he.cpu_le.trans hcpu,
        he.secs_le.trans huptime, he.usecs, he.nr⟩
    exact sameRecordIff_of_fits (hfits he) (hfits he')

end SyscallSensor.Trace
