import SyscallSensor.Counters
import SyscallSensor.Sequential
import SyscallSensor.Status

/-! `run(true)` with what its client is sent: a connection gets a status each second, and the one
that is open at the end the summary. -/
namespace SyscallSensor.Sessions
open Lib.Chunks
open Lib.EndMarked (Flow)
open Lib.Transition (System)
open Pipeline (Tracer Threads SafeBulk readerStep workerStep readerStep_move workerStep_move
  syscallsParams readLine readStream_readLine)
open SensorRun
open Counters (Watch lineCount unread)
open Status (Report Counter get_status)
open Text
variable {β ρ : Type*}

/-- `client` are the reports that the last connection has taken; `summarized` says that a summary is
among them. -/
structure Session (β ρ : Type*) where
  run : Run β ρ
  client : List (Report β ρ) := []
  connected : Bool := false
  summarized : Bool := false

/- A step of another thread; one of the main thread, with what the clock says; and a call of `now()`
   in a `get_status` that throws later. -/
inductive Move where
  | thread (action : Action)
  | main (outcome : Outcome) (reader_sec worker_sec sender_sec : Int)
  | now (watch : Watch) (sec : Int)

def Session.goOn (s : Session β ρ) (main : Main) : Session β ρ :=
  { s with run := { s.run with main := main } }

/-- A report is one step; `send` takes the whole text or fails. -/
def Session.report (s : Session β ρ) (outcome : Outcome) (reader_sec worker_sec sender_sec : Int) :
    Session β ρ :=
  let threads := (get_status s.run.threads reader_sec worker_sec sender_sec).2
  match outcome with
  | .ok =>
    { s with
      run := ⟨threads, s.run.main⟩
      client := s.client ++ [.status s.run.threads reader_sec worker_sec sender_sec] }
  | .fails => { s with run := ⟨threads, s.run.main⟩, connected := false }
  | .throws => s

def Session.summarize (s : Session β ρ) (outcome : Outcome)
    (reader_sec worker_sec sender_sec : Int) : Session β ρ :=
  if outcome = .ok ∧ s.connected = true then
    { s with
      client := s.client ++ [.summary s.run.threads reader_sec worker_sec sender_sec]
      connected := false
      summarized := true }
  else { s with connected := false }

def Session.listen (s : Session β ρ) (outcome : Outcome) : Session β ρ :=
  if outcome = .ok then { s with client := [], connected := true } else s

def Move.step (tracer : Tracer β ρ) : Move → Session β ρ → Option (Session β ρ)
  | .thread (.main _), _ => none
  | .thread action, s => (action.step tracer true s.run).map fun run => { s with run := run }
  | .now watch sec, s =>
    if s.run.main = .reporting then
      some { s with run := { s.run with threads := Counters.now watch sec s.run.threads } }
    else none
  | .main outcome reader_sec worker_sec sender_sec, s =>
    (mainStep true outcome s.run.threads s.run.main).map fun main =>
      match s.run.main with
      | .listening => (s.listen outcome).goOn main
      | .reporting => (s.report outcome reader_sec worker_sec sender_sec).goOn main
      | .summarizing => (s.summarize outcome reader_sec worker_sec sender_sec).goOn main
      | _ => s.goOn main

def Move.Allowed : Move → Prop
  | .thread action => action.Allowed
  | _ => True

/-- All interleavings of the logging sensor, with any behaviour of the sockets and the clock. -/
def sessions (tracer : Tracer β ρ) (bulks : List β) : System (Session β ρ) Move where
  init s := ∃ run, (sensor tracer true bulks).init run ∧ s = { run := run }
  step move s t := move.Allowed ∧ move.step tracer s = some t

/-- What the threads keep, `now()` between their steps or not. -/
structure Kept (tracer : Tracer β ρ) (bulks : List β) (s : Threads β ρ) : Prop where
  plain : ∃ gone, Plain tracer bulks gone s
  marks : Marks s
  seen : Pipeline.seen s.sender.at_ = true → s.worker.closed = true
  counts : s._reader_watch.all_events + lineCount tracer (unread s.reader) = lineCount tracer bulks

section
variable {tracer : Tracer β ρ} {bulks : List β} {s t : Threads β ρ} {count : Nat}

theorem kept_reader (h : Kept tracer bulks s) (hstep : readerStep tracer s = some t) :
    Kept tracer bulks t := by
  obtain ⟨gone, hplain⟩ := h.plain
  have hothers : t.worker = s.worker ∧ t.sender = s.sender := by
    cases readerStep_move hstep <;> exact ⟨rfl, rfl⟩
  refine ⟨⟨gone, plain_readerStep hplain hstep⟩, (marks_reader h.marks hstep).1, ?_, ?_⟩
  · rw [hothers.1, hothers.2]
    exact h.seen
  · rw [← h.counts]
    cases readerStep_move hstep with
    | made hat =>
      rw [hat]
      simp only [EventsWatch.all_events, EventsWatch.add, lineCount, unread, List.cons_append,
        List.map_cons, List.sum_cons]
      omega
    | @enqueued made groups hat =>
      rw [hat]
      cases groups <;> rfl
    | ended hat | stopped hat =>
      rw [hat]
      rfl

theorem kept_worker (h : Kept tracer bulks s) (hstep : workerStep tracer count s = some t) :
    Kept tracer bulks t := by
  obtain ⟨gone, hplain⟩ := h.plain
  refine ⟨⟨gone, plain_workerStep hplain hstep⟩, (marks_worker h.marks hstep).1, ?_, ?_⟩
  · have hseen := h.seen
    cases workerStep_move hstep with
    | stopped hworker | closed hworker => exact fun _ => rfl
    | _ hworker =>
      rw [hworker] at hseen
      exact hseen
  · have hcounts := h.counts
    cases workerStep_move hstep <;> exact hcounts

/-- The sender sees the marker in its batch, and leaves the reader's watch alone. -/
theorem sees_senderStep {throws : Bool} (hstep : senderStep count throws s = some t) :
    t._reader_watch = s._reader_watch ∧ (Pipeline.seen t.sender.at_ = true →
      Pipeline.seen s.sender.at_ = true ∨ none ∈ Pipeline.events s.sender.at_) := by
  cases senderStep_move hstep with
  | dequeued | dispatched | threw | counted => exact ⟨rfl, fun h => by cases h⟩
  | marked hat =>
    refine ⟨rfl, fun _ => .inr ?_⟩
    rw [hat]
    exact List.mem_cons_self
  | stopped hat | finished hat =>
    refine ⟨rfl, fun _ => .inl ?_⟩
    rw [hat]
    rfl

theorem kept_sender {throws : Bool} (h : Kept tracer bulks s)
    (hstep : senderStep count throws s = some t) : Kept tracer bulks t := by
  obtain ⟨gone, hplain⟩ := h.plain
  obtain ⟨sent, taken, htakes, -⟩ := takes_senderStep hstep
  obtain ⟨hreader, hworker, -, -⟩ := htakes.others
  obtain ⟨hwatch, hsees⟩ := sees_senderStep hstep
  have hmarks : Marks t ∧ (Lost t ↔ Lost s ∨
      TakesMarker (.sender count throws) (⟨s, .filtering⟩ : Run β ρ)) := marks_sender h.marks hstep
  refine ⟨⟨_, plain_senderStep hplain htakes⟩, hmarks.1, ?_, ?_⟩
  · intro hseen
    rw [hworker]
    obtain hbefore | hmarker := hsees hseen
    · exact h.seen hbefore
    · -- the marker is under way, so it has been sent
      have hdown := h.marks.down
      have hpos := markers_pos.mpr hmarker
      rw [Threads.downstream, markers_append] at hdown
      by_contra hopen
      rw [if_neg hopen] at hdown
      omega
  · rw [hwatch, hreader]
    exact h.counts

theorem now_finished (w : EventsWatch) (sec : Int) : (w.now sec).2.finished = w.finished := by
  unfold EventsWatch.now
  split <;> rfl

/-- `now()` moves nobody. -/
theorem kept_now (h : Kept tracer bulks s) (watch : Watch) (sec : Int) :
    Kept tracer bulks (Counters.now watch sec s) := by
  obtain ⟨gone, hplain⟩ := h.plain
  cases watch with
  | reader =>
    refine ⟨⟨gone, hplain.upstream, hplain.packs⟩, ⟨h.marks.up, h.marks.down⟩, h.seen, ?_⟩
    rw [← h.counts]
    exact congrArg (· + _) (EventsWatch.now_all_events s._reader_watch sec)
  | worker | sender =>
    exact ⟨⟨gone, hplain.upstream, hplain.packs⟩, ⟨h.marks.up, h.marks.down⟩, h.seen, h.counts⟩

theorem watched_now (h : Watched s) (watch : Watch) (sec : Int) :
    Watched (Counters.now watch sec s) ∧ Later s (Counters.now watch sec s) := by
  cases watch with
  | reader =>
    have hreader := h.reader
    rw [← now_finished s._reader_watch sec] at hreader
    exact ⟨⟨hreader, h.worker, h.sender⟩, id, id, id, id⟩
  | worker =>
    have hworker := h.worker
    rw [← now_finished s._worker_watch sec] at hworker
    exact ⟨⟨h.reader, hworker, h.sender⟩, id, id, id, id⟩
  | sender => exact ⟨⟨h.reader, h.worker, h.sender⟩, id, id, id, id⟩

/-- When the flag is set, all bulks have been counted. -/
theorem all_events_finished (h : Kept tracer bulks s) (hw : Watched s)
    (hfinished : s.sender._finished = true) :
    s._reader_watch.all_events = lineCount tracer bulks := by
  obtain ⟨gone, hplain⟩ := h.plain
  have hflow := hplain.upstream
  have hclosed : s.worker.closed = true := h.seen (by rw [hw.sender hfinished]; rfl)
  have hseen : s.worker.seen = true := by
    cases hworker : s.worker <;> first | rfl | simp [hworker, Pipeline.Worker.closed] at hclosed
  rw [hseen] at hflow
  obtain ⟨hreader, -⟩ := Flow.items_seen hflow
  have hunread : unread s.reader = [] := by
    cases hr : s.reader with
    | reading made group groups => simp [hr, Pipeline.Reader.closed] at hreader
    | ending | stopping | returned => rfl
  have hcounts := h.counts
  rwa [hunread] at hcounts

end

/-- What every interleaving keeps: the client has been told the right total, or none. -/
structure Told (tracer : Tracer β ρ) (bulks : List β) (s : Session β ρ) : Prop where
  inv : Inv true s.run
  kept : Kept tracer bulks s.run.threads
  ended : s.summarized = true → s.run.main = .clearing ∨ s.run.main = .returned
  total : ∀ n, (Counter.all, n) ∈ s.client.flatMap Report.counters ↔
    s.summarized = true ∧ n = lineCount tracer bulks

section
variable {tracer : Tracer β ρ} {bulks : List β} {s t : Session β ρ} {main : Main}
  {outcome : Outcome} {reader_sec worker_sec sender_sec : Int}

theorem Told.goOn (h : Told tracer bulks s) (hknows : Knows true s.run.threads main)
    (hended : s.summarized = true → main = .clearing ∨ main = .returned) :
    Told tracer bulks (s.goOn main) :=
  ⟨⟨h.inv.watched, hknows⟩, h.kept, hended, h.total⟩

theorem listen_frame (s : Session β ρ) (outcome : Outcome) :
    (s.listen outcome).run = s.run ∧ (s.listen outcome).summarized = s.summarized := by
  unfold Session.listen
  split <;> exact ⟨rfl, rfl⟩

theorem report_summarized (s : Session β ρ) :
    (s.report outcome reader_sec worker_sec sender_sec).summarized = s.summarized := by
  cases outcome <;> rfl

theorem told_listen (h : Told tracer bulks s) (hrunning : s.summarized = false) :
    Told tracer bulks (s.listen outcome) := by
  unfold Session.listen
  split
  · exact ⟨h.inv, h.kept, h.ended, fun n => by simp [hrunning]⟩
  · exact h

/-- `get_status` is three calls of `now()`. -/
theorem get_status_now (s : Threads β ρ) (reader_sec worker_sec sender_sec : Int) :
    (get_status s reader_sec worker_sec sender_sec).2 =
      Counters.now .sender sender_sec (Counters.now .worker worker_sec
        (Counters.now .reader reader_sec s)) := rfl

theorem told_report (h : Told tracer bulks s) :
    Told tracer bulks (s.report outcome reader_sec worker_sec sender_sec) ∧
      Later s.run.threads (s.report outcome reader_sec worker_sec sender_sec).run.threads := by
  have hreader := watched_now h.inv.watched .reader reader_sec
  have hworker := watched_now hreader.1 .worker worker_sec
  have hsender := watched_now hworker.1 .sender sender_sec
  rw [← get_status_now] at hsender
  have hkept := kept_now (kept_now (kept_now h.kept .reader reader_sec) .worker worker_sec) .sender
    sender_sec
  rw [← get_status_now] at hkept
  have hlater : Later s.run.threads (get_status s.run.threads reader_sec worker_sec sender_sec).2 :=
    ⟨id, id, id, id⟩
  have hinv :
      Inv true ⟨(get_status s.run.threads reader_sec worker_sec sender_sec).2, s.run.main⟩ :=
    ⟨hsender.1, knows_later hlater h.inv.knows⟩
  cases outcome with
  | ok =>
    refine ⟨⟨hinv, hkept, h.ended, ?_⟩, hlater⟩
    intro n
    have htotal := h.total n
    simpa [Session.report, Report.counters] using htotal
  | fails => exact ⟨⟨hinv, hkept, h.ended, h.total⟩, hlater⟩
  | throws => exact ⟨h, ⟨id, id, id, id⟩⟩

/-- The flag is set by now, so the total is that of the whole trace. -/
theorem told_summarize (h : Told tracer bulks s) (hat : s.run.main = .summarizing) :
    Told tracer bulks ((s.summarize outcome reader_sec worker_sec sender_sec).goOn .clearing) := by
  have hknows := h.inv.knows
  rw [hat] at hknows
  have hrunning : s.summarized = false := by
    rw [Bool.eq_false_iff]
    intro hsummarized
    simpa [hat] using h.ended hsummarized
  have hall := all_events_finished h.kept h.inv.watched hknows.2
  unfold Session.summarize
  split
  · refine ⟨⟨h.inv.watched, .inr hknows⟩, h.kept, fun _ => .inl rfl, ?_⟩
    intro n
    have hbefore := h.total n
    simp only [hrunning, Bool.false_eq_true, false_and, iff_false] at hbefore
    simp [Session.goOn, Report.counters, List.flatMap_append, hbefore, hall]
  · exact Told.goOn ⟨h.inv, h.kept, h.ended, h.total⟩ (.inr hknows) fun _ => .inl rfl

theorem told_main {outcome : Outcome} {main : Main} (h : Told tracer bulks s)
    (hmain : mainStep true outcome s.run.threads s.run.main = some main)
    (hstep : (Move.main outcome reader_sec worker_sec sender_sec).step tracer s = some t) :
    Told tracer bulks t := by
  simp only [Move.step, hmain, Option.map_some, Option.some.injEq] at hstep
  obtain rfl := hstep
  have hnext := knows_next hmain h.inv.knows
  have hquiet (hat : s.run.main ≠ .clearing ∧ s.run.main ≠ .returned) : s.summarized = false := by
    rw [Bool.eq_false_iff]
    intro hsummarized
    exact (h.ended hsummarized).elim hat.1 hat.2
  cases hat : s.run.main with
  | listening =>
    have hfalse := hquiet (by simp [hat])
    obtain ⟨hrun, hsummarized⟩ := listen_frame s outcome
    rw [← hrun] at hnext
    exact (told_listen h hfalse).goOn hnext (by simp [hsummarized, hfalse])
  | reporting =>
    have hfalse := hquiet (by simp [hat])
    have hreport : Told tracer bulks (s.report outcome reader_sec worker_sec sender_sec) ∧ _ :=
      told_report h
    obtain ⟨htold, hlater⟩ := hreport
    exact htold.goOn (knows_later hlater hnext) (by simp [report_summarized, hfalse])
  | summarizing =>
    rw [hat] at hmain
    obtain rfl := Option.some.inj hmain
    exact told_summarize h hat
  | clearing =>
    rw [hat] at hmain
    obtain rfl := Option.some.inj hmain
    exact h.goOn hnext fun _ => .inr rfl
  | returned => simp [hat, mainStep] at hmain
  | _ => exact h.goOn hnext (by simp [hquiet (by simp [hat] : _ ∧ _)])

theorem told_step {move : Move} (h : Told tracer bulks s) (hstep : move.step tracer s = some t) :
    Told tracer bulks t := by
  cases move with
  | thread action =>
    cases action with
    | main outcome => cases hstep
    | reader =>
      obtain ⟨run, hrun, rfl⟩ := Option.map_eq_some_iff.mp hstep
      obtain ⟨threads, hthread, rfl⟩ := Option.map_eq_some_iff.mp hrun
      exact ⟨inv_step h.inv hrun, kept_reader h.kept hthread, h.ended, h.total⟩
    | worker count =>
      obtain ⟨run, hrun, rfl⟩ := Option.map_eq_some_iff.mp hstep
      obtain ⟨threads, hthread, rfl⟩ := Option.map_eq_some_iff.mp hrun
      exact ⟨inv_step h.inv hrun, kept_worker h.kept hthread, h.ended, h.total⟩
    | sender count throws =>
      obtain ⟨run, hrun, rfl⟩ := Option.map_eq_some_iff.mp hstep
      obtain ⟨threads, hthread, rfl⟩ := Option.map_eq_some_iff.mp hrun
      exact ⟨inv_step h.inv hrun, kept_sender h.kept hthread, h.ended, h.total⟩
  | now watch sec =>
    simp only [Move.step, Option.ite_none_right_eq_some] at hstep
    obtain ⟨-, hnow⟩ := hstep
    obtain rfl := Option.some.inj hnow
    obtain ⟨hwatched, hlater⟩ := watched_now h.inv.watched watch sec
    exact ⟨⟨hwatched, knows_later hlater h.inv.knows⟩, kept_now h.kept watch sec, h.ended, h.total⟩
  | main outcome reader_sec worker_sec sender_sec =>
    obtain ⟨main, hmain, -⟩ := Option.map_eq_some_iff.mp hstep
    exact told_main h hmain hstep

theorem told_init (hinit : (sessions tracer bulks).init s) : Told tracer bulks s := by
  obtain ⟨run, hrun, rfl⟩ := hinit
  -- a run starts in the same state with and without logging
  have hjoining : (sensor tracer false bulks).init run := hrun
  refine ⟨(inv_init hrun).1, ⟨⟨[], (plain_init hrun).1⟩, (marks_init hjoining).1, ?_, ?_⟩, ?_, ?_⟩
  · intro hseen
    obtain ⟨group, groups, -, rfl⟩ := hrun
    cases hseen
  · obtain ⟨group, groups, rfl, rfl⟩ := hrun
    exact Nat.zero_add _
  · intro hsummarized
    cases hsummarized
  · simp

theorem told_reachable (h : (sessions tracer bulks).Reachable s) : Told tracer bulks s :=
  h.invariant (I := Told tracer bulks) (fun _ hinit => told_init hinit)
    fun _ _ _ htold hstep => told_step htold hstep.2

end

/-- In every interleaving the client that reads its reports in whole lines is shown the number of
lines of the trace exactly when the summary has been sent to it, and never another total. -/
theorem client_sees_all_events {T : Type}
    {construct : StringRef → StringRef → StringRef → StringRef → Except Fault T}
    {content : List Byte} {fuel : Nat} {run : ReadStream.ReadRun}
    (hrun : ReadStream.readStream fuel (.opened content) = some run)
    {bulks : List (SafeBulk construct)} (hbulks : bulks.map Subtype.val = run.groups.flatten)
    {s : Session (SafeBulk construct) T}
    (h : (sessions (syscallsParams construct) bulks).Reachable s) {reads : List (List Byte)}
    (hreads : ∀ server_reply ∈ reads, server_reply ≠ [])
    (hsent : reads.flatten = s.client.flatMap Report.text) {closing : Option (List Byte)}
    (hclosing : Status.receive closing = []) (later : List (Option (List Byte)))
    (hcuts : ¬ CutsLine newline reads) :
    ∃ counters, Status.readOutput (Status.statusLoop (reads.map some ++ closing :: later)) =
        some counters ∧
      ∀ n, (Counter.all, n) ∈ counters ↔
        s.summarized = true ∧ n = (content.splitOn newline).length := by
  have hshown := Status.output_whole hreads hsent hclosing later hcuts
  refine ⟨_, hshown, ?_⟩
  intro n
  rw [(told_reachable h).total n, Counters.lineCount_readStream hrun hbulks]

/- The reports of a client that reads each in one piece. -/
theorem whole_reports (reports : List (Report β ρ)) :
    (∀ server_reply ∈ reports.map Report.text, server_reply ≠ []) ∧
      ¬ CutsLine newline (reports.map Report.text) := by
  constructor
  · intro server_reply hreply
    obtain ⟨report, -, rfl⟩ := List.mem_map.mp hreply
    rw [Status.text_lines, Report.lines]
    simp
  · rintro ⟨before, after, b, c, hcut, hb, hbd, -⟩
    obtain ⟨front, back, -, rfl, -⟩ := List.map_eq_append_iff.mp hcut
    rw [← List.flatMap_def, Status.texts_lines] at hb
    exact hbd (last_of_ended hb)

/- One line. The client gets a status before the threads start and the summary after they end. -/
def oneStatus : List Move :=
  [.main .ok 0 0 0, .main .ok 0 0 0, .main .ok 0 0 0, .main .ok 1 1 1] ++
    List.replicate 4 (.thread .reader) ++ List.replicate 7 (.thread (.worker 512)) ++
    List.replicate 6 (.thread (.sender 512 false)) ++
    [.main .ok 0 0 0, .main .ok 0 0 0, .main .ok 1 1 1]

theorem client_sees_all_events_oneStatus :
    ∃ s : Session (SafeBulk Trace.SysParamsRecord.make) Trace.SysParamsRecord,
      (sessions (syscallsParams Trace.SysParamsRecord.make) [readLine]).Reachable s ∧
        s.client.length = 2 ∧ ∃ counters,
        Status.readOutput (Status.statusLoop ((s.client.map Report.text).map some ++ none :: [])) =
          some counters ∧
        (Counter.all, 1) ∈ counters := by
  have hstart : (sessions (syscallsParams Trace.SysParamsRecord.make) [readLine]).Reachable
      { run := { threads := { reader := .reading [] [readLine] [] } } } :=
    ⟨[], .start ⟨_, ⟨[readLine], [], rfl, rfl⟩, rfl⟩⟩
  have hallowed : ∀ move ∈ oneStatus, move.Allowed := by
    simp [oneStatus, Move.Allowed, Action.Allowed, ReadStream.BULK_CAPACITY, or_imp, forall_and]
  have hrun := hstart.foldlM (fun s move => move.step _ s) oneStatus
    (fun move hmove s t hstep => ⟨hallowed move hmove, hstep⟩) rfl
  obtain ⟨hreads, hcuts⟩ := whole_reports _
  obtain ⟨counters, hshown, htotal⟩ := client_sees_all_events readStream_readLine rfl hrun hreads
    List.flatMap_def.symm (show Status.receive none = [] from rfl) [] hcuts
  have hone : lineCount (syscallsParams Trace.SysParamsRecord.make) [readLine] =
      ((List.replicate 66 (120 : Byte)).splitOn newline).length :=
    Counters.lineCount_readStream readStream_readLine rfl
  exact ⟨_, hrun, rfl, counters, hshown, (htotal 1).mpr ⟨rfl, hone⟩⟩

end SyscallSensor.Sessions
