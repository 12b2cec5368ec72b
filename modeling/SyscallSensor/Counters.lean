import SyscallSensor.Pipeline

/-! The watches of the three threads while the main thread calls `now()` on them, as
`get_status` does: a call starts the count of the next second, and the sum over the run stays. -/
namespace SyscallSensor.Counters
open Lib.Transition (System)
open Pipeline
open SendStream (At)
open Text Trace
variable {β ρ : Type*}

inductive Watch where
  | reader
  | worker
  | sender

/- A step of a thread, or one call of `now()` with the seconds that the clock gives. -/
inductive Action where
  | thread (action : Pipeline.Action)
  | now (watch : Watch) (sec : Int)

def now (watch : Watch) (sec : Int) (s : Threads β ρ) : Threads β ρ :=
  match watch with
  | .reader => { s with _reader_watch := (s._reader_watch.now sec).2 }
  | .worker => { s with _worker_watch := (s._worker_watch.now sec).2 }
  | .sender => { s with sender := { s.sender with _watch := (s.sender._watch.now sec).2 } }

def Action.Allowed : Action → Prop
  | .thread action => action.Allowed
  | .now _ _ => True

def Action.step (tracer : Tracer β ρ) : Action → Threads β ρ → Option (Threads β ρ)
  | .thread action, s => action.step tracer s
  | .now watch sec, s => some (Counters.now watch sec s)

/-- All interleavings of the three threads with any calls of `now()`. -/
def monitored (tracer : Tracer β ρ) (bulks : List β) : System (Threads β ρ) Action where
  init := (pipeline tracer bulks).init
  step action s t := action.Allowed ∧ action.step tracer s = some t

def AllReturned (s : Threads β ρ) : Prop :=
  s.reader = .returned ∧ s.worker = .returned ∧ s.sender.at_ = .returned

def lineCount (tracer : Tracer β ρ) (bulks : List β) : Nat := (bulks.map tracer.lines).sum

/-- What the counters of the three stages say at the end. -/
structure Accounts (tracer : Tracer β ρ) (bulks : List β) (s : Threads β ρ) : Prop where
  reader : s._reader_watch.all_events = lineCount tracer bulks
  worker : s._worker_watch.all_events = lineCount tracer bulks
  sender : s.sender._watch.all_events = s.sender.dispatched.flatten.length

/- The bulks still to be read, and the pack that has been dispatched and not been counted. -/
def unread : Reader β → List β
  | .reading _ group groups => group ++ groups.flatten
  | _ => []

def uncounted : At (List ρ) → List ρ
  | .counting current _ => current
  | _ => []

/-- What every step keeps: the worker never touches its count. -/
structure Counted (tracer : Tracer β ρ) (bulks : List β) (s : Threads β ρ) : Prop where
  reader : s._reader_watch.all_events + lineCount tracer (unread s.reader) =
    lineCount tracer bulks
  worker : s._worker_watch.all_events = 0
  sender : s.sender._watch.all_events + (uncounted s.sender.at_).length =
    s.sender.dispatched.flatten.length

section
variable {tracer : Tracer β ρ} {bulks : List β} {s t : Threads β ρ} {count : Nat}

theorem counted_readerStep (h : Counted tracer bulks s) (hstep : readerStep tracer s = some t) :
    Counted tracer bulks t := by
  obtain ⟨hreader, hworker, hsender⟩ := h
  cases readerStep_move hstep with
  | made hat =>
    refine ⟨?_, hworker, hsender⟩
    rw [← hreader, hat]
    simp only [EventsWatch.all_events, EventsWatch.add, lineCount, unread, List.cons_append,
      List.map_cons, List.sum_cons]
    omega
  | @enqueued made groups hat =>
    refine ⟨?_, hworker, hsender⟩
    rw [← hreader, hat]
    cases groups with
    | nil => rfl
    | cons group groups => rfl
  | ended hat | stopped hat =>
    refine ⟨?_, hworker, hsender⟩
    rw [← hreader, hat]
    rfl

theorem counted_workerStep (h : Counted tracer bulks s)
    (hstep : workerStep tracer count s = some t) : Counted tracer bulks t := by
  obtain ⟨hreader, hworker, hsender⟩ := h
  cases workerStep_move hstep <;> exact ⟨hreader, hworker, hsender⟩

theorem counted_senderStep (h : Counted tracer bulks s) (hstep : senderStep count s = some t) :
    Counted tracer bulks t := by
  obtain ⟨hreader, hworker, hsender⟩ := h
  cases senderStep_move hstep with
  | dispatched hat =>
    refine ⟨hreader, hworker, ?_⟩
    rw [hat] at hsender
    simp only [uncounted, List.length_nil, List.flatten_append, List.flatten_singleton,
      List.length_append] at hsender ⊢
    omega
  | counted hat =>
    refine ⟨hreader, hworker, ?_⟩
    rw [hat] at hsender
    simp only [uncounted, EventsWatch.all_events, EventsWatch.add] at hsender ⊢
    exact hsender
  | dequeued hat _ | marked hat | stopped hat | finished hat =>
    refine ⟨hreader, hworker, ?_⟩
    rw [hat] at hsender
    exact hsender

theorem counted_now (h : Counted tracer bulks s) (watch : Watch) (sec : Int) :
    Counted tracer bulks (now watch sec s) := by
  obtain ⟨hreader, hworker, hsender⟩ := h
  cases watch with
  | reader =>
    have hkept := EventsWatch.now_all_events s._reader_watch sec
    exact ⟨(congrArg (· + _) hkept).trans hreader, hworker, hsender⟩
  | worker => exact ⟨hreader, (EventsWatch.now_all_events _ sec).trans hworker, hsender⟩
  | sender =>
    have hkept := EventsWatch.now_all_events s.sender._watch sec
    exact ⟨hreader, hworker, (congrArg (· + _) hkept).trans hsender⟩

theorem counted_reachable (h : (monitored tracer bulks).Reachable s) :
    Counted tracer bulks s := by
  refine h.invariant ?_ ?_
  · intro s hinit
    obtain ⟨group, groups, rfl, rfl⟩ := hinit
    exact ⟨Nat.zero_add _, rfl, rfl⟩
  · intro action s t hcounted hstep
    cases action with
    | now watch sec =>
      rw [← Option.some.inj hstep.2]
      exact counted_now hcounted watch sec
    | thread action =>
      cases action with
      | reader => exact counted_readerStep hcounted hstep.2
      | worker count => exact counted_workerStep hcounted hstep.2
      | sender count => exact counted_senderStep hcounted hstep.2

/-- At the end two of the three counters are right. -/
theorem all_events_returned (h : (monitored tracer bulks).Reachable s) (hreturned : AllReturned s) :
    s._reader_watch.all_events = lineCount tracer bulks ∧ s._worker_watch.all_events = 0 ∧
      s.sender._watch.all_events = s.sender.dispatched.flatten.length := by
  obtain ⟨hreader, hworker, hsender⟩ := counted_reachable h
  obtain ⟨hread, -, hsent⟩ := hreturned
  rw [hread] at hreader
  rw [hsent] at hsender
  exact ⟨hreader, hworker, hsender⟩

end

section
variable {T : Type}
  {construct : StringRef → StringRef → StringRef → StringRef → Except Fault T}

/-- The bulks have as many lines as the content, whatever bytes the reader drops. -/
theorem lineCount_readStream {content : List Byte} {fuel : Nat} {run : ReadStream.ReadRun}
    (hrun : ReadStream.readStream fuel (.opened content) = some run)
    {bulks : List (SafeBulk construct)} (hbulks : bulks.map Subtype.val = run.groups.flatten) :
    lineCount (syscallsParams construct) bulks = (content.splitOn newline).length := by
  have hlines := (ReadStream.readStream_lines hrun).length_eq
  rw [ReadStream.ReadRun.lines, ReadStream.ReadRun.queue, Lib.EndMarked.reduceOption_marked,
    ← hbulks, ReadStream.linesOf, List.flatMap_map, List.length_flatMap,
    ReadStream.survivors_lines] at hlines
  exact hlines

/-- The reader puts at least one line into its bulks, that of the newline it adds at the end. -/
theorem lineCount_pos {content : List Byte} {fuel : Nat} {run : ReadStream.ReadRun}
    (hrun : ReadStream.readStream fuel (.opened content) = some run)
    {bulks : List (SafeBulk construct)} (hbulks : bulks.map Subtype.val = run.groups.flatten) :
    0 < lineCount (syscallsParams construct) bulks := by
  rw [lineCount_readStream hrun hbulks]
  exact List.length_pos_iff.mpr (List.splitOn_ne_nil _ _)

/-- The reader's and the sender's counts are right at the end of every run on every content,
and the three together never are: the worker has not counted the lines. -/
theorem worker_uncounted {content : List Byte} {fuel : Nat} {run : ReadStream.ReadRun}
    (hrun : ReadStream.readStream fuel (.opened content) = some run)
    {bulks : List (SafeBulk construct)} (hbulks : bulks.map Subtype.val = run.groups.flatten)
    {s : Threads (SafeBulk construct) T}
    (h : (monitored (syscallsParams construct) bulks).Reachable s) (hreturned : AllReturned s) :
    s._reader_watch.all_events = lineCount (syscallsParams construct) bulks ∧
      s.sender._watch.all_events = s.sender.dispatched.flatten.length ∧
      ¬ Accounts (syscallsParams construct) bulks s := by
  obtain ⟨hreader, hworker, hsender⟩ := all_events_returned h hreturned
  refine ⟨hreader, hsender, ?_⟩
  intro haccounts
  have hpos := lineCount_pos hrun hbulks
  rw [← haccounts.worker, hworker] at hpos
  exact Nat.lt_irrefl 0 hpos

end

/-- The threads run one after the other, and the main thread calls `now()` in between. -/
theorem run_readLine :
    ∃ s, (monitored (syscallsParams SysParamsRecord.make) [readLine]).Reachable s ∧
      AllReturned s := by
  have hstart : (monitored (syscallsParams SysParamsRecord.make) [readLine]).Reachable
      { reader := .reading [] [readLine] [] } := ⟨[], .start ⟨[readLine], [], rfl, rfl⟩⟩
  have hallowed : ∀ action ∈ List.replicate 4 (Action.thread .reader) ++ [.now .reader 1] ++
      List.replicate 7 (.thread (.worker 512)) ++ [.now .worker 1] ++
      List.replicate 6 (.thread (.sender 512)), action.Allowed := by
    simp [Action.Allowed, Pipeline.Action.Allowed, ReadStream.BULK_CAPACITY, or_imp, forall_and]
  have hfinished := hstart.foldlM (fun s action => action.step _ s) _
    (fun action haction s t hstep => ⟨hallowed action haction, hstep⟩) rfl
  exact ⟨_, hfinished, rfl, rfl, rfl⟩

theorem worker_uncounted_readLine :
    ∃ s : Threads (SafeBulk SysParamsRecord.make) SysParamsRecord,
      s._reader_watch.all_events = 1 ∧
        s.sender._watch.all_events = s.sender.dispatched.flatten.length ∧
        ¬ Accounts (syscallsParams SysParamsRecord.make) [readLine] s := by
  obtain ⟨s, hreachable, hreturned⟩ := run_readLine
  exact ⟨s, worker_uncounted readStream_readLine rfl hreachable hreturned⟩

/-- One line is read and its record dispatched, and the worker's count is 0. -/
theorem lines_not_processed :
    ¬ ∀ (content : List Byte) (fuel : Nat) (run : ReadStream.ReadRun)
      (bulks : List (SafeBulk SysParamsRecord.make)),
      ReadStream.readStream fuel (.opened content) = some run →
        bulks.map Subtype.val = run.groups.flatten → ∀ s,
          (monitored (syscallsParams SysParamsRecord.make) bulks).Reachable s → AllReturned s →
            Accounts (syscallsParams SysParamsRecord.make) bulks s := by
  intro hall
  obtain ⟨s, hreachable, hreturned⟩ := run_readLine
  have haccounts := hall _ _ _ _ readStream_readLine rfl s hreachable hreturned
  have hworker := (all_events_returned hreachable hreturned).2.1
  rw [haccounts.worker] at hworker
  exact absurd hworker (by decide)

end SyscallSensor.Counters
