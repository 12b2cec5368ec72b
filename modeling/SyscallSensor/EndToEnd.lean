import SyscallSensor.AggrStream
import SyscallSensor.FileStream
import SyscallSensor.Ftrace
import SyscallSensor.LinuxSocket
import SyscallSensor.Sequential

/-! The whole sensor: from the bytes of the trace pipe, over every interleaving of its threads, to
what the log file, the network and the aggregated files hold. -/
namespace SyscallSensor.EndToEnd
open Text Trace
open Lib.Transition (System)
open Pipeline (SafeBulk syscallsParams)
open ReadStream
open SensorRun (Run Action sensor)

/-- When `collect` gets through the lines of all bulks, it gets through each bulk's. -/
theorem collect_each {bulks : List EventsBulk} {data data' : DataAggregator SysParamsRecord}
    (h : collect SysParamsRecord.make (linesOf bulks) data = .ok data') :
    ∀ bulk ∈ bulks, ∃ first, collect SysParamsRecord.make bulk._lines {} = .ok first := by
  induction bulks generalizing data with
  | nil => simp
  | cons bulk bulks ih =>
    rw [linesOf, List.flatMap_cons, collect, List.foldlM_append, Lib.Outcome.bind_eq_ok] at h
    obtain ⟨mid, hmid, hrest⟩ := h
    obtain ⟨records, hrecords, -⟩ := collect_appends hmid
    exact List.forall_mem_cons.mpr ⟨⟨_, hrecords {}⟩, ih hrest⟩

/-- Bulk by bulk, `collect` makes the records that it makes of all lines at once. -/
theorem collect_bulks (bulks : List (SafeBulk SysParamsRecord.make))
    (data : DataAggregator SysParamsRecord) :
    collect SysParamsRecord.make (linesOf (bulks.map Subtype.val)) data =
      .ok (data.appendAll (bulks.flatMap (syscallsParams SysParamsRecord.make).records)) := by
  induction bulks generalizing data with
  | nil =>
    rw [List.flatMap_nil, DataAggregator.appendAll, List.append_nil]
    rfl
  | cons bulk bulks ih =>
    have hbulk := Pipeline.syscallsParams_collect SysParamsRecord.make bulk data
    rw [(syscallsParams SysParamsRecord.make).collect_appends, collect] at hbulk
    have hrest := ih (data.appendAll ((syscallsParams SysParamsRecord.make).records bulk))
    rw [collect] at hrest
    rw [List.map_cons, linesOf, List.flatMap_cons, ← linesOf, collect, List.foldlM_append, hbulk,
      Lib.Outcome.ok_bind, hrest, appendAll_appendAll, List.flatMap_cons]

/-- The bulks that the reader makes of a content, and the records that the worker makes of them. -/
theorem reader_bulks {content : List Byte} {fuel : Nat} {run : ReadRun}
    (hrun : readStream fuel (.opened content) = some run)
    (hsafe : ∀ line ∈ (survivors content).splitOn newline, SafeLine line) :
    ∃ bulks : List (SafeBulk SysParamsRecord.make), bulks.map Subtype.val = run.groups.flatten ∧
      collectRecords (((survivors content).splitOn newline).map .ofLine) {} =
        .ok { __data := bulks.flatMap (syscallsParams SysParamsRecord.make).records } := by
  have hlines := readStream_lines hrun
  rw [ReadRun.lines, ReadRun.queue, Lib.EndMarked.reduceOption_marked] at hlines
  obtain ⟨data, hdata⟩ := (collect_returns_iff {}).mpr hsafe
  have hread := collect_keeps hlines hdata
  have hcollect := collect_each hread
  refine ⟨run.groups.flatten.attachWith _ hcollect, List.attachWith_map_subtype_val hcollect, ?_⟩
  have hbulks := collect_bulks (run.groups.flatten.attachWith _ hcollect) {}
  rw [List.attachWith_map_subtype_val hcollect] at hbulks
  rw [hdata, ← hread]
  exact hbulks

section
variable {β ρ : Type*} {tracer : Pipeline.Tracer β ρ} {bulks : List β} {s : Run β ρ}
  {actions : List Action}

/- The sensor without logging, as long as no exception of `dispatch` comes. -/
def quietly (tracer : Pipeline.Tracer β ρ) (bulks : List β) : System (Run β ρ) Action :=
  (sensor tracer false bulks).restrict fun action _ => action.Quiet

theorem threads_refine (h : (quietly tracer bulks).Reachable s) :
    (Pipeline.pipeline tracer bulks).Reachable s.threads :=
  (SensorRun.quiet_refines tracer false bulks).reachable h

/-- Where such a run can go no further, `run()` has returned and the sender has seen the marker. -/
theorem quietly_ends (h : (quietly tracer bulks).Run actions s)
    (hstuck : (quietly tracer bulks).Stuck s) :
    s.main = .returned ∧ s.threads.sender.at_ = .returned := by
  have hrun := h.unrestrict
  have hnone (action : Action) (hallowed : action.Allowed) (hquiet : action.Quiet) :
      action.step tracer false s = none :=
    Option.eq_none_iff_forall_ne_some.mpr fun t hstep => hstuck action t ⟨hquiet, hallowed, hstep⟩
  have hkept : ((sensor tracer false bulks).restrict
      fun action s => ¬ SensorRun.TakesMarker action s).Run actions s := by
    apply h.weaken
    intro action s hquiet
    cases action with
    | sender count throws =>
      obtain rfl : throws = false := hquiet
      exact not_false
    | reader | worker count | main outcome => exact not_false
  obtain ⟨hreader, hworker, hsender⟩ := SensorRun.stuck_threads hrun.reachable hnone
  have hat := hsender.mpr ((SensorRun.lost_iff hrun).mpr hkept)
  have hmain := Option.map_eq_none_iff.mp (hnone (.main .ok) trivial trivial)
  have hknows := (SensorRun.inv_reachable hrun.reachable).knows
  exact ⟨(SensorRun.main_none hknows hreader hworker hmain).resolve_right fun hnot => hnot hat, hat⟩

/-- What a run without exceptions comes to: the packs hold the first of the records, in order;
the run goes on to an end; and at every end `run()` has returned and no record is missing. -/
structure Completes (tracer : Pipeline.Tracer β ρ) (bulks : List β) (records : List ρ)
    (s : Run β ρ) : Prop where
  so_far : s.threads.sender.dispatched.flatten <+: records
  ends : ∃ t, (quietly tracer bulks).Leads s t ∧ (quietly tracer bulks).Stuck t
  all : (quietly tracer bulks).Stuck s →
    s.main = .returned ∧ s.threads.sender.dispatched.flatten = records

theorem quietly_completes (h : (quietly tracer bulks).Reachable s) :
    Completes tracer bulks (bulks.flatMap tracer.records) s := by
  obtain ⟨actions, hrun⟩ := h
  have hinv := Pipeline.inv_reachable (threads_refine hrun.reachable)
  have hmeasure := (SensorRun.work_measure tracer bulks).restrict fun action _ => action.Quiet
  refine ⟨?_, ?_, ?_⟩
  · rw [← hinv.conserved, Pipeline.Threads.all]
    simp only [List.append_assoc]
    exact List.prefix_append _ _
  · exact hmeasure.leads_stuck (hmeasure.invariant hrun.reachable)
  · intro hstuck
    obtain ⟨hmain, hat⟩ := quietly_ends hrun hstuck
    exact ⟨hmain, Pipeline.all_dispatched hinv (by rw [hat]; rfl)⟩

end

/- A trace as the kernel prints it, line by line. -/
def traceText (lines : List TraceLine) : List Byte := lines.flatMap fun line => line.bytes ++ [newline]

/- The records of its events. -/
def events (lines : List TraceLine) : List SysParamsRecord := lines.filterMap TraceLine.record?

/-- Its lines, and the empty one behind the last newline, are parsed into the records. -/
theorem trace_parsed {lines : List TraceLine} (hlines : ∀ line ∈ lines, newline ∉ line.bytes)
    (hblocks : NoLoneByte (traceText lines)) :
    collectRecords (((survivors (traceText lines)).splitOn newline).map .ofLine) {} =
      .ok { __data := events lines } := by
  have hplain : ∀ bytes ∈ lines.map TraceLine.bytes, newline ∉ bytes := by
    intro bytes hbytes
    obtain ⟨line, hline, rfl⟩ := List.mem_map.mp hbytes
    exact hlines line hline
  have hended := Lib.Pieces.splitOn_ended hplain
  have hpieces : (survivors (traceText lines)).splitOn newline =
      (lines ++ [TraceLine.other [] (by decide)]).map TraceLine.bytes := by
    rw [(survivors_eq_iff _).mpr hblocks, traceText, List.map_append]
    rw [List.flatMap_map] at hended
    exact hended
  have hparsed := collect_render (lines ++ [TraceLine.other [] (by decide)]) {}
  have hnone : [TraceLine.other [] (by decide)].filterMap TraceLine.record? = [] := rfl
  rw [← Function.comp_def, ← List.map_map, ← hpieces, List.filterMap_append, hnone,
    List.append_nil] at hparsed
  exact hparsed

theorem trace_safe {lines : List TraceLine} (hlines : ∀ line ∈ lines, newline ∉ line.bytes)
    (hblocks : NoLoneByte (traceText lines)) :
    ∀ line ∈ (survivors (traceText lines)).splitOn newline, SafeLine line :=
  (collect_returns_iff {}).mp ⟨_, trace_parsed hlines hblocks⟩

/-- The reader and the worker make the records of its events of it. -/
theorem trace_bulks {lines : List TraceLine} (hlines : ∀ line ∈ lines, newline ∉ line.bytes)
    (hblocks : NoLoneByte (traceText lines)) {fuel : Nat} {run : ReadRun}
    (hrun : readStream fuel (.opened (traceText lines)) = some run) :
    ∃ bulks : List (SafeBulk SysParamsRecord.make), bulks.map Subtype.val = run.groups.flatten ∧
      bulks.flatMap (syscallsParams SysParamsRecord.make).records = events lines := by
  obtain ⟨bulks, hbulks, hrecords⟩ := reader_bulks hrun (trace_safe hlines hblocks)
  rw [trace_parsed hlines hblocks, Except.ok.injEq] at hrecords
  exact ⟨bulks, hbulks, congrArg DataAggregator.__data hrecords.symm⟩

/- A header line and one system call. -/
def oneTrace : List TraceLine :=
  [.other (ascii "# tracer: nop") (by decide),
    .event (plainEvent 812 0 5 3) ⟨by decide, by decide, by decide, by decide, by decide, by decide,
      by decide⟩]

theorem oneTrace_plain : ∀ line ∈ oneTrace, newline ∉ line.bytes ∧ 0 ∉ line.bytes := by
  simp only [oneTrace, List.forall_mem_cons]
  exact ⟨by decide, by decide, by simp⟩

theorem oneTrace_blocks : NoLoneByte (traceText oneTrace) := by
  have hlength : (traceText oneTrace).length < 1024 := by decide
  intro k hk
  rw [READ_BUFFER_SIZE] at hk
  omega

/- The state in which the threads start. -/
theorem quietly_start {β ρ : Type*} (tracer : Pipeline.Tracer β ρ) (bulks : List β) :
    (quietly tracer bulks).Reachable { threads := { reader := .reading [] bulks [] } } :=
  ⟨[], .start ⟨bulks, [], by simp, rfl⟩⟩

/- The state in which some run of them ends. -/
theorem quietly_ended {β ρ : Type*} (tracer : Pipeline.Tracer β ρ) (bulks : List β) :
    ∃ s, (quietly tracer bulks).Reachable s ∧ (quietly tracer bulks).Stuck s := by
  have hstart := quietly_start tracer bulks
  obtain ⟨s, hleads, hstuck⟩ := (quietly_completes hstart).ends
  exact ⟨s, hstart.leads hleads, hstuck⟩

/- The records of a content, as `collect` makes them of its lines. -/
def IsParsed (content : List Byte) (records : List SysParamsRecord) : Prop :=
  collectRecords ((content.splitOn newline).map .ofLine) {} = .ok { __data := records }

/-- For every content of the trace pipe whose lines are safe, and in every interleaving of the
four threads in which no `dispatch` throws, what has been dispatched are the first of the
content's records, in order and without repetition; every such run ends, and at the end
`run()` has returned and all records have been dispatched. -/
theorem sensor_delivers {content : List Byte} {fuel : Nat} {run : ReadRun}
    (hrun : readStream fuel (.opened content) = some run)
    (hsafe : ∀ line ∈ (survivors content).splitOn newline, SafeLine line) :
    ∃ bulks : List (SafeBulk SysParamsRecord.make), ∃ records,
      bulks.map Subtype.val = run.groups.flatten ∧ IsParsed (survivors content) records ∧
        ∀ s, (quietly (syscallsParams SysParamsRecord.make) bulks).Reachable s →
          Completes (syscallsParams SysParamsRecord.make) bulks records s := by
  obtain ⟨bulks, hbulks, hrecords⟩ := reader_bulks hrun hsafe
  exact ⟨bulks, _, hbulks, hrecords, fun s h => quietly_completes h⟩

theorem sensor_delivers_oneTrace :
    ∃ bulks : List (SafeBulk SysParamsRecord.make), ∃ s records,
      (quietly (syscallsParams SysParamsRecord.make) bulks).Reachable s ∧ s.main = .returned ∧
        IsParsed (survivors (traceText oneTrace)) records ∧
        s.threads.sender.dispatched.flatten = records := by
  obtain ⟨fuel, run, hrun⟩ := readStream_returns (traceText oneTrace)
  obtain ⟨bulks, records, -, hparsed, hall⟩ := sensor_delivers hrun
    (trace_safe (fun line hline => (oneTrace_plain line hline).1) oneTrace_blocks)
  obtain ⟨s, hreach, hstuck⟩ := quietly_ended (syscallsParams SysParamsRecord.make) bulks
  obtain ⟨hmain, hflatten⟩ := (hall s hreach).all hstuck
  exact ⟨bulks, s, records, hreach, hmain, hparsed, hflatten⟩

/- The name of an event is part of its line. -/
theorem not_mem_comm {e : Event} {b : Byte} (h : b ∉ e.render) : b ∉ e.comm := by
  intro hmem
  apply h
  simp [Event.render, padLeft, hmem]

theorem events_collected {lines : List TraceLine} (hlines : ∀ line ∈ lines, newline ∉ line.bytes) :
    ∀ r ∈ events lines, FileLog.Collected r := by
  intro r hr
  obtain ⟨line, hline, hrecord⟩ := List.mem_filterMap.mp hr
  cases line with
  | event e fits =>
    obtain rfl := Option.some.inj hrecord
    exact ⟨not_mem_comm (hlines _ hline), rfl⟩
  | other line short => cases hrecord

/-- Logging to a file: at every moment the file decodes to the first of the trace's events, in
order, and when the run has ended to all of them. -/
theorem trace_logged {lines : List TraceLine} (hlines : ∀ line ∈ lines, newline ∉ line.bytes)
    (hblocks : NoLoneByte (traceText lines)) {fuel : Nat} {run : ReadRun}
    (hrun : readStream fuel (.opened (traceText lines)) = some run) :
    ∃ bulks : List (SafeBulk SysParamsRecord.make), bulks.map Subtype.val = run.groups.flatten ∧
      ∀ s, (quietly (syscallsParams SysParamsRecord.make) bulks).Reachable s →
        ∃ logged, FileLog.decodeFile (FileLog.fileOf s.threads.sender.dispatched) = some logged ∧
          logged <+: (events lines).map FileLog.fields ∧
          ((quietly (syscallsParams SysParamsRecord.make) bulks).Stuck s →
            s.main = .returned ∧ logged = (events lines).map FileLog.fields) := by
  obtain ⟨bulks, hbulks, hevents⟩ := trace_bulks hlines hblocks hrun
  refine ⟨bulks, hbulks, ?_⟩
  intro s hreach
  have hcompletes := quietly_completes hreach
  rw [hevents] at hcompletes
  have hcollected : ∀ r ∈ s.threads.sender.dispatched.flatten, FileLog.Collected r :=
    fun r hr => events_collected hlines r (hcompletes.so_far.subset hr)
  refine ⟨_, FileLog.decodeFile_fileOf hcollected, hcompletes.so_far.map _, ?_⟩
  intro hstuck
  obtain ⟨hmain, hall⟩ := hcompletes.all hstuck
  exact ⟨hmain, by rw [hall]⟩

theorem trace_logged_oneTrace :
    ∃ bulks : List (SafeBulk SysParamsRecord.make), ∃ s,
      (quietly (syscallsParams SysParamsRecord.make) bulks).Reachable s ∧ s.main = .returned ∧
        FileLog.decodeFile (FileLog.fileOf s.threads.sender.dispatched) = some [([], 812, 3)] := by
  obtain ⟨fuel, run, hrun⟩ := readStream_returns (traceText oneTrace)
  obtain ⟨bulks, -, hall⟩ :=
    trace_logged (fun line hline => (oneTrace_plain line hline).1) oneTrace_blocks hrun
  obtain ⟨s, hreach, hstuck⟩ := quietly_ended (syscallsParams SysParamsRecord.make) bulks
  obtain ⟨logged, hdecode, -, hend⟩ := hall s hreach
  obtain ⟨hmain, rfl⟩ := hend hstuck
  exact ⟨bulks, s, hreach, hmain, hdecode⟩

/-- Aggregating: for every process, what the file shows of it and what is still held back are its
first system calls in the trace, in order, and when the run has ended all of them. -/
theorem trace_aggregated {lines : List TraceLine} (hlines : ∀ line ∈ lines, newline ∉ line.bytes)
    (hblocks : NoLoneByte (traceText lines)) {fuel : Nat} {run : ReadRun}
    (hrun : readStream fuel (.opened (traceText lines)) = some run) :
    ∃ bulks : List (SafeBulk SysParamsRecord.make), bulks.map Subtype.val = run.groups.flatten ∧
      ∀ s, (quietly (syscallsParams SysParamsRecord.make) bulks).Reachable s →
        ∀ (name : List Byte) (size : AggrStream.SizeLimit) (calls : List AggrStream.Dispatch)
          (file : AggrStream.FileAggrStream), (AggrStream.stream name size).Run calls file →
          calls.map AggrStream.Dispatch.records = s.threads.sender.dispatched → ∀ pid,
            file.printed pid ++ (file.traces.lookup pid).getD [] <+:
              AggrStream.syscallsOf pid (events lines) ∧
            ((quietly (syscallsParams SysParamsRecord.make) bulks).Stuck s →
              file.printed pid ++ (file.traces.lookup pid).getD [] =
                AggrStream.syscallsOf pid (events lines)) := by
  obtain ⟨bulks, hbulks, hevents⟩ := trace_bulks hlines hblocks hrun
  refine ⟨bulks, hbulks, ?_⟩
  intro s hreach name size calls file hfile hcalls pid
  have hcompletes := quietly_completes hreach
  rw [hevents] at hcompletes
  have hrefines := AggrStream.run_refines hfile
  have hshown : file.printed pid ++ (file.traces.lookup pid).getD [] =
      AggrStream.syscallsOf pid s.threads.sender.dispatched.flatten := by
    rw [← hcalls, ← AggrStream.windows_flatten size.value.toNat, AggrStream.syscallsOf,
      Lib.Grouping.valuesAt_append, hrefines.traces, Lib.Grouping.lookup_group,
      AggrStream.FileAggrStream.printed, AggrStream.printed_shows hrefines.blocks]
    rfl
  constructor
  · obtain ⟨later, hlater⟩ := hcompletes.so_far
    rw [hshown, ← hlater, AggrStream.syscallsOf, AggrStream.syscallsOf, Lib.Grouping.valuesAt_append]
    exact List.prefix_append _ _
  · intro hstuck
    rw [hshown, (hcompletes.all hstuck).2]

/-- With a limit of one process, every pack is printed at once. -/
theorem trace_aggregated_oneTrace :
    ∃ bulks : List (SafeBulk SysParamsRecord.make), ∃ s calls file,
      (quietly (syscallsParams SysParamsRecord.make) bulks).Reachable s ∧ s.main = .returned ∧
        (AggrStream.stream (ascii "log") ⟨1, by decide, by decide⟩).Run calls file ∧
        calls.map AggrStream.Dispatch.records = s.threads.sender.dispatched ∧
        file.printed 812 = [3] := by
  obtain ⟨fuel, run, hrun⟩ := readStream_returns (traceText oneTrace)
  obtain ⟨bulks, -, hall⟩ :=
    trace_aggregated (fun line hline => (oneTrace_plain line hline).1) oneTrace_blocks hrun
  obtain ⟨s, hreach, hstuck⟩ := quietly_ended (syscallsParams SysParamsRecord.make) bulks
  obtain ⟨calls, file, hfile, hcalls⟩ :=
    AggrStream.takes_all (ascii "log") ⟨1, by decide, by decide⟩ s.threads.sender.dispatched
  have hprinted := (hall s hreach _ _ calls file hfile hcalls 812).2 hstuck
  have hheld : file.traces.lookup 812 = none := by
    have hempty := Finset.card_eq_zero.mp (Nat.lt_one_iff.mp (AggrStream.run_room hfile))
    rw [Finmap.lookup_eq_none, ← Finmap.mem_keys, hempty]
    exact Finset.notMem_empty 812
  rw [hheld, Option.getD_none, List.append_nil] at hprinted
  obtain ⟨actions, hquiet⟩ := hreach
  exact ⟨bulks, s, calls, file, ⟨actions, hquiet⟩, (quietly_ends hquiet hstuck).1, hfile, hcalls,
    hprinted⟩

section
open SocketStream Encoding
open Lib.Decimal (intText)

theorem intText_length_le {v : Int} {k : Nat} (hk : 0 < k) (h : v.natAbs < 10 ^ k) :
    (intText v).length ≤ k + 1 := by
  cases v with
  | ofNat n => exact Nat.le_succ_of_le (Lib.Decimal.text_length_le hk h)
  | negSucc n => exact Nat.succ_le_succ (Lib.Decimal.text_length_le hk h)

/- The record of an event in a packet. -/
theorem item_length_le {e : Event} (h : FitsColumns e) : (item e.record).length ≤ 40 := by
  have hcomm := h.comm_length
  have hpid : (intText e.record._pid).length ≤ 6 :=
    intText_length_le (k := 5) (by decide) (Nat.lt_succ_of_le h.pid)
  have hnr : (intText e.record._syscall).length ≤ 4 :=
    intText_length_le (k := 3) (by decide) (Nat.lt_succ_of_le h.nr)
  have hquotes : (ascii "(").length = 1 ∧ (ascii ")").length = 1 ∧ (ascii "'").length = 1 ∧
      (ascii "','").length = 3 := by decide
  have hname : e.record._name = e.comm := rfl
  have harg : e.record._arg = [] := rfl
  simp only [item, SysParamsRecord.to_string, List.length_append, hquotes, hname, harg,
    List.length_nil]
  omega

theorem writeRecords_length_le {records : List SysParamsRecord}
    (h : ∀ r ∈ records, (item r).length ≤ 40) :
    (writeRecords records).length ≤ 41 * records.length := by
  induction records with
  | nil => exact Nat.le_refl _
  | cons r records ih =>
    rw [List.forall_mem_cons] at h
    have hrest := ih h.2
    have hitem := h.1
    cases records with
    | nil => exact Nat.le_succ_of_le hitem
    | cons r' records =>
      have hcomma : (ascii ",").length = 1 := rfl
      rw [writeRecords, List.length_append, List.length_append, hcomma, List.length_cons]
      omega

/-- A pack of the pipeline is a small frame, whatever its records. -/
theorem frame_fits {meta_ : List Byte} {timestamp : Int} {records : List SysParamsRecord}
    (hmeta : meta_.length < 2 ^ 28) (hstamp : timestamp.natAbs < 10 ^ 19)
    (hmost : records.length ≤ 1040) (hitems : ∀ r ∈ records, (item r).length ≤ 40) :
    (base64_encode (to_json meta_ timestamp records)).length < 2 ^ 31 := by
  have hrecords := writeRecords_length_le hitems
  have hdigits := intText_length_le (k := 19) (by decide) hstamp
  have hend : (ascii "]\x7d").length = 2 := by decide
  have hjson : (to_json meta_ timestamp records).length ≤ meta_.length + 42800 := by
    refine Nat.le_trans (List.takeWhile_prefix _).length_le ?_
    simp only [header_length, List.length_append, hend, List.length_singleton]
    omega
  have hencoded := base64_encode_length (to_json meta_ timestamp records)
  omega

theorem pack_length_le {content : List Byte} {fuel : Nat} {run : ReadRun}
    (hrun : readStream fuel (.opened content) = some run)
    {bulks : List (SafeBulk SysParamsRecord.make)} (hbulks : bulks.map Subtype.val = run.groups.flatten)
    {s : Pipeline.Threads (SafeBulk SysParamsRecord.make) SysParamsRecord}
    (h : (Pipeline.pipeline (syscallsParams SysParamsRecord.make) bulks).Reachable s) :
    ∀ pack ∈ s.sender.dispatched, pack.length ≤ 1040 := by
  rw [readStream, Option.map_eq_some_iff] at hrun
  obtain ⟨⟨groups, r⟩, hloop, rfl⟩ := hrun
  have hsmall : ∀ bulk ∈ bulks, ((syscallsParams SysParamsRecord.make).records bulk).length ≤ 17 := by
    intro bulk hbulk
    rw [Pipeline.records_length]
    apply Pipeline.readLoop_longLines List.not_mem_nil hloop
    rw [← hbulks]
    exact List.mem_map_of_mem hbulk
  have hsized := Pipeline.sized_of_sizedAt (Pipeline.packing_reachable hsmall h).packs
  intro pack hpack
  exact hsized.most pack (List.mem_append_left _ hpack)

theorem events_fit {lines : List TraceLine} (hlines : ∀ line ∈ lines, 0 ∉ line.bytes) :
    ∀ r ∈ events lines, (item r).length ≤ 40 ∧ NulFree r := by
  intro r hr
  obtain ⟨line, hline, hrecord⟩ := List.mem_filterMap.mp hr
  cases line with
  | event e fits =>
    obtain rfl := Option.some.inj hrecord
    exact ⟨item_length_le fits, not_mem_comm (hlines _ hline), List.not_mem_nil⟩
  | other line short => cases hrecord

/-- Sending: as long as every send has taken its frame whole, the receiver makes one text of each
pack that has been dispatched, with the records that went into it, of the bytes that the connection
has accepted; the packs are small enough for their frames. -/
theorem trace_received {lines : List TraceLine}
    (hlines : ∀ line ∈ lines, newline ∉ line.bytes ∧ 0 ∉ line.bytes)
    (hblocks : NoLoneByte (traceText lines)) {fuel : Nat} {run : ReadRun}
    (hrun : readStream fuel (.opened (traceText lines)) = some run) {meta_ : List Byte}
    (hmeta : 0 ∉ meta_) (hshort : meta_.length < 2 ^ 28) :
    ∃ bulks : List (SafeBulk SysParamsRecord.make), bulks.map Subtype.val = run.groups.flatten ∧
      ∀ s, (quietly (syscallsParams SysParamsRecord.make) bulks).Reachable s →
        Completes (syscallsParams SysParamsRecord.make) bulks (events lines) s ∧
          ∀ calls network, (LinuxSocket.network meta_).Run calls network →
            calls.map LinuxSocket.Call.records = s.threads.sender.dispatched →
            (∀ call ∈ calls, call.timestamp.natAbs < 10 ^ 19) → LinuxSocket.Whole meta_ calls →
            receive network.socket.accepted =
              some (calls.map fun call => packetText meta_ call.timestamp call.records) := by
  obtain ⟨bulks, hbulks, hevents⟩ := trace_bulks (fun line hline => (hlines line hline).1) hblocks hrun
  refine ⟨bulks, hbulks, ?_⟩
  intro s hreach
  have hcompletes := quietly_completes hreach
  rw [hevents] at hcompletes
  refine ⟨hcompletes, ?_⟩
  intro calls network hnetwork hcalls hstamps hwhole
  have hmost := pack_length_le hrun hbulks (threads_refine hreach)
  have hfit := events_fit fun line hline => (hlines line hline).2
  have hdispatched : ∀ call ∈ calls, call.records ∈ s.threads.sender.dispatched := by
    intro call hcall
    rw [← hcalls]
    exact List.mem_map_of_mem hcall
  have hrecords : ∀ call ∈ calls, ∀ r ∈ call.records, (item r).length ≤ 40 ∧ NulFree r := by
    intro call hcall r hr
    apply hfit
    exact hcompletes.so_far.subset (List.mem_flatten.mpr ⟨call.records, hdispatched call hcall, hr⟩)
  have hsize : ∀ call ∈ calls,
      (base64_encode (to_json meta_ call.timestamp call.records)).length < 2 ^ 31 :=
    fun call hcall => frame_fits hshort (hstamps call hcall) (hmost _ (hdispatched call hcall))
      fun r hr => (hrecords call hcall r hr).1
  have hframes : calls.flatMap (LinuxSocket.Call.frame meta_) =
      (calls.map fun call => base64_encode (to_json meta_ call.timestamp call.records)).flatMap
        (Lib.Framing.frame 4) := by
    rw [List.flatMap_map]
    apply List.flatMap_congr
    intro call hcall
    have hencoded := Nat.lt_of_le_of_lt (length_le_base64_encode _) (hsize call hcall)
    exact dispatch_eq_frame (Nat.lt_trans hencoded (by norm_num))
  have htexts : ∀ text ∈ calls.map fun call => to_json meta_ call.timestamp call.records,
      (base64_encode text).length < 2 ^ 31 := by
    intro text htext
    obtain ⟨call, hcall, rfl⟩ := List.mem_map.mp htext
    exact hsize call hcall
  have hreceived := receive_frames htexts
  rw [List.map_map, Function.comp_def, ← hframes] at hreceived
  rw [LinuxSocket.accepted_of_whole hnetwork hwhole, hreceived, Option.some.injEq]
  apply List.map_congr_left
  intro call hcall
  exact to_json_eq hmeta fun r hr => (hrecords call hcall r hr).2

theorem trace_received_oneTrace :
    ∃ packs : List (List SysParamsRecord), packs.flatten = [(plainEvent 812 0 5 3).record] ∧
      ∃ calls network, (LinuxSocket.network (ascii "sensor1")).Run calls network ∧
        receive network.socket.accepted =
          some (packs.map fun pack => packetText (ascii "sensor1") 1 pack) := by
  obtain ⟨fuel, run, hrun⟩ := readStream_returns (traceText oneTrace)
  obtain ⟨bulks, -, hall⟩ := trace_received oneTrace_plain oneTrace_blocks hrun
    (show 0 ∉ ascii "sensor1" by decide) (by decide)
  obtain ⟨s, hreach, hstuck⟩ := quietly_ended (syscallsParams SysParamsRecord.make) bulks
  obtain ⟨hcompletes, hreceived⟩ := hall s hreach
  obtain ⟨network, hnetwork, -⟩ := LinuxSocket.takes_frames (ascii "sensor1")
    (s.threads.sender.dispatched.map fun pack => (1, pack))
  have hwhole := LinuxSocket.whole_calls (ascii "sensor1")
    (s.threads.sender.dispatched.map fun pack => (1, pack))
  rw [List.map_map] at hnetwork hwhole
  have htexts := hreceived _ network hnetwork ((List.map_map ..).trans (List.map_id _))
    (by simp [LinuxSocket.Call.whole]) hwhole
  rw [List.map_map] at htexts
  exact ⟨s.threads.sender.dispatched, (hcompletes.all hstuck).2, _, network, hnetwork, htexts⟩

end

end SyscallSensor.EndToEnd
