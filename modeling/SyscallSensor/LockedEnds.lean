import SyscallSensor.LockedRun

/-! The sensor with its locks comes to an end: every wakeup for nothing costs a bounded number of
steps, and where only such wakeups are left, the threads are where the sensor without locks can
go no further. -/
namespace SyscallSensor.LockedRun
open Lib.Transition (System)
open Monitor (Op Position)
open Pipeline (Tracer Threads)
open SensorRun (Run)
variable {β ρ : Type*} {T : Type*}

/- The steps around the body of a call; the body itself may wake the others up. -/
def weight : Position T → Nat
  | .idle => 5
  | .locking _ => 4
  | .inside _ => 3
  | .parked _ => 2
  | .woken _ => 4
  | .leaving _ _ => 6

def total (thread : Thread → Position T) : Nat :=
  weight (thread .reader) + weight (thread .worker) + weight (thread .sender)

/-- What is left to do, with the locks. -/
def load (s : State β ρ) : Nat :=
  10 * SensorRun.work s.run + total s.stream.thread + total s.result.thread

def gain (action : Action) : Nat := if action.isSpurious then 3 else 0

theorem queue_gain (i : Thread) (moment : Moment) :
    gain (.stream i moment) = (if moment = .spurious then 3 else 0) ∧
      gain (.result i moment) = (if moment = .spurious then 3 else 0) := by
  cases moment <;> exact ⟨rfl, rfl⟩

theorem gain_sum (actions : List Action) :
    (actions.map gain).sum = 3 * actions.countP Action.isSpurious := by
  induction actions with
  | nil => rfl
  | cons action actions ih =>
    rw [List.map_cons, List.sum_cons, ih, List.countP_cons, gain]
    split <;> omega

theorem total_idle : total (fun _ => (.idle : Position T)) = 15 := rfl

theorem total_update (thread : Thread → Position T) (i : Thread) (position : Position T) :
    total (Function.update thread i position) + weight (thread i) = total thread + weight position := by
  cases i <;> simp [total, Function.update] <;> omega

theorem total_wake_le (thread : Thread → Position T) :
    total (fun j => (thread j).wake) ≤ total thread + 6 := by
  have hwake (position : Position T) : weight position.wake ≤ weight position + 2 := by
    cases position <;> simp [Position.wake, weight]
  have hreader := hwake (thread .reader)
  have hworker := hwake (thread .worker)
  have hsender := hwake (thread .sender)
  simp only [total]
  omega

section
variable {i : Thread} {next : Option (Op T)} {moment : Moment} {ran : Bool}
  {m m' : Monitor.State Thread T}

theorem queue_total (h : QueueMove i next m moment m' ran) :
    total m'.thread < total m.thread +
      (if ran then 10 else if moment = .spurious then 3 else 0) := by
  cases h with
  | @call op hcall hpos =>
    have hmove := total_update m.thread i (.locking op)
    simp only [hpos, weight] at hmove
    simp only [Monitor.State.move, Bool.false_eq_true, if_false, reduceCtorEq]
    omega
  | @lock op hpos howner =>
    have hmove := total_update m.thread i (.inside op)
    have hold : weight (m.thread i) = 4 := hpos.elim (fun h => by rw [h, weight]) fun h => by
      rw [h, weight]
    rw [hold, weight] at hmove
    simp only [Monitor.State.move, Bool.false_eq_true, if_false, reduceCtorEq]
    omega
  | @finish op result queue hpos hbody =>
    have hwake := total_wake_le m.thread
    simp only [Monitor.State.finish, if_true]
    cases hnotifies : op.notifies with
    | true =>
      have hmove := total_update (fun j => (m.thread j).wake) i (.leaving op result)
      have hold : weight (m.thread i).wake = 3 := by rw [hpos]; rfl
      rw [hold, weight] at hmove
      rw [if_pos rfl]
      omega
    | false =>
      have hmove := total_update m.thread i (.leaving op result)
      simp only [hpos, weight] at hmove
      rw [if_neg Bool.false_ne_true]
      omega
  | @park op hpos hbody =>
    have hmove := total_update m.thread i (.parked op)
    simp only [hpos, weight] at hmove
    simp only [Monitor.State.move, Bool.false_eq_true, if_false, reduceCtorEq]
    omega
  | @unlock op result hpos =>
    have hmove := total_update m.thread i .idle
    simp only [hpos, weight] at hmove
    simp only [Monitor.State.move, Bool.false_eq_true, if_false, reduceCtorEq]
    omega
  | @wake op hpos =>
    have hmove := total_update m.thread i (.woken op)
    simp only [hpos, weight] at hmove
    simp only [Monitor.State.move, Bool.false_eq_true, if_false, if_true]
    omega

end

section
variable {tracer : Tracer β ρ} {bulks : List β} {s t : State β ρ} {action : Action}

/- What the states of a run have. -/
def Good (s : State β ρ) : Prop := Inv s ∧ SensorRun.Inv false s.run

theorem good_init (hinit : (locked tracer false bulks).init s) : Good s := by
  obtain ⟨hinv, habove⟩ := (locked_refines tracer false bulks).init s hinit
  exact ⟨hinv, (SensorRun.inv_init habove).1⟩

theorem good_step (h : Good s) (hstep : (locked tracer false bulks).step action s t) : Good t := by
  have hrefines := locked_refines tracer false bulks
  refine ⟨hrefines.keep action s t h.1 hstep, ?_⟩
  cases hrefines.step action s t h.1 hstep with
  | inl hsame => exact hsame ▸ h.2
  | inr hmoved =>
    obtain ⟨shown, -, hshown⟩ := hmoved
    exact SensorRun.inv_step h.2 hshown.2

theorem load_step (h : Good s) (hstep : (locked tracer false bulks).step action s t) :
    load t < load s + gain action := by
  have hcan (i : Thread) : i.action.Allowed := by
    cases i <;> simp [Thread.action, SensorRun.Action.Allowed, ReadStream.BULK_CAPACITY]
  have hwork {action : SensorRun.Action} {run : Run β ρ} (hallowed : action.Allowed)
      (hrun : action.step tracer false s.run = some run) :
      SensorRun.work run < SensorRun.work s.run := SensorRun.work_step h.2
    (show (SensorRun.sensor tracer false bulks).step action s.run run from ⟨hallowed, hrun⟩)
  obtain ⟨hallowed, hstep⟩ := hstep
  unfold load
  cases action with
  | plain action =>
    simp only [Action.step, Option.ite_none_right_eq_some, Option.map_eq_some_iff] at hstep
    obtain ⟨-, run, hrun, rfl⟩ := hstep
    have hless := hwork hallowed hrun
    simp only
    omega
  | stream i moment =>
    obtain ⟨⟨m, ran⟩, hqueue, hmoved⟩ := Option.bind_eq_some_iff.mp hstep
    obtain ⟨run, hrun, rfl⟩ := Option.map_eq_some_iff.mp hmoved
    have htotal := queue_total (queueStep_move hqueue)
    cases ran with
    | true =>
      have hless := hwork (hcan i) hrun
      simp only [if_true] at htotal ⊢
      omega
    | false =>
      obtain rfl := Option.some.inj hrun
      rw [(queue_gain i moment).1]
      simp only [Bool.false_eq_true, if_false] at htotal ⊢
      omega
  | result i moment =>
    obtain ⟨⟨m, ran⟩, hqueue, hmoved⟩ := Option.bind_eq_some_iff.mp hstep
    obtain ⟨run, hrun, rfl⟩ := Option.map_eq_some_iff.mp hmoved
    have htotal := queue_total (queueStep_move hqueue)
    cases ran with
    | true =>
      have hless := hwork (hcan i) hrun
      simp only [if_true] at htotal ⊢
      omega
    | false =>
      obtain rfl := Option.some.inj hrun
      rw [(queue_gain i moment).2]
      simp only [Bool.false_eq_true, if_false] at htotal ⊢
      omega

/- Where only wakeups for nothing are left. -/
def AtRest (S : System (State β ρ) Action) (s : State β ρ) : Prop :=
  ∀ action t, S.step action s t → action.isSpurious = true

/-- However far a run has come, it can be brought to rest. -/
theorem leads_rest {S : System (State β ρ) Action} (hinit : ∀ s, S.init s → Good s)
    (hstep : ∀ action s t, S.step action s t → (locked tracer false bulks).step action s t)
    (h : Good s) : ∃ t, S.Leads s t ∧ AtRest S t := by
  have hmeasure : (S.restrict fun action _ => action.isSpurious = false).Measure Good load := by
    refine ⟨hinit, fun action s t hs ht => good_step hs (hstep action s t ht.2), ?_⟩
    intro action s t hs ht
    have hless := load_step hs (hstep action s t ht.2)
    rwa [gain, ht.1, if_neg Bool.false_ne_true] at hless
  obtain ⟨t, hleads, hstuck⟩ := hmeasure.leads_stuck h
  refine ⟨t, hleads.unrestrict, fun action u hmove => ?_⟩
  by_contra hwakes
  exact hstuck action u ⟨Bool.eq_false_iff.mpr hwakes, hmove⟩

/-- At rest, the sensor without locks can go no further. -/
theorem rest_stuck (h : Inv s) (hrest : AtRest (locked tracer false bulks) s) :
    (SensorRun.sensor tracer false bulks).Stuck s.run := by
  intro action run hstep
  obtain ⟨move, t, hmove, hawake, -⟩ := can_move bulks h hstep.1 hstep.2
  rw [hrest move t hmove] at hawake
  cases hawake

end

/- The state in which the threads start, with nobody at the queues. -/
def started (group : List β) (groups : List (List β)) : State β ρ where
  run := SensorRun.started group groups
  stream := ⟨⟨[]⟩, none, fun _ => .idle, [], []⟩
  result := ⟨⟨[]⟩, none, fun _ => .idle, [], []⟩

theorem started_init (tracer : Tracer β ρ) (logging : Bool) {group : List β}
    {groups : List (List β)} {bulks : List β} (hbulks : (group :: groups).flatten = bulks) :
    (locked tracer logging bulks).init (started group groups) :=
  ⟨⟨group, groups, hbulks, rfl⟩, rfl, rfl⟩

/- Every run starts with some groups of its bulks. -/
theorem run_started {tracer : Tracer β ρ} {logging : Bool} {bulks : List β} {actions : List Action}
    {s : State β ρ} (h : (locked tracer logging bulks).Run actions s) :
    ∃ group groups, (group :: groups).flatten = bulks ∧
      ((locked tracer logging bulks).startingIn (started group groups)).Run actions s := by
  obtain ⟨⟨run, stream, result⟩, ⟨⟨group, groups, hbulks, rfl⟩, rfl, rfl⟩, hrun⟩ := h.startingIn
  exact ⟨group, groups, hbulks, hrun⟩

/-- Every run is bounded by what its reader starts with and by the wakeups for nothing in it, and
can be brought to a state where only such wakeups are left. -/
theorem locked_bounded (tracer : Tracer β ρ) {group : List β} {groups : List (List β)}
    {bulks : List β} (hbulks : (group :: groups).flatten = bulks) {actions : List Action}
    {s : State β ρ}
    (h : ((locked tracer false bulks).startingIn (started group groups)).Run actions s) :
    actions.length + load s ≤ 10 * (7 * bulks.length + groups.length + 21) + 30 +
        3 * actions.countP Action.isSpurious ∧
      ∃ t, (locked tracer false bulks).Leads s t ∧ AtRest (locked tracer false bulks) t := by
  have hstart := started_init tracer false hbulks
  constructor
  · have hle := h.budget (fun _ => good_init) (fun _ _ _ => good_step) (fun _ _ _ => load_step) hstart
    have hload : load (started group groups : State β ρ) =
        10 * (7 * bulks.length + groups.length + 21) + 30 := by
      simp only [load, started, SensorRun.work_init hbulks, total_idle]
    rwa [hload, gain_sum] at hle
  · exact leads_rest (fun _ => good_init) (fun _ _ _ hstep => hstep)
      ((h.of_startingIn hstart).reachable.invariant (fun _ => good_init) fun _ _ _ => good_step)

/- The worker finds no bulk, sleeps, and wakes up for nothing before there is one. -/
def wokenForNothing : List Action :=
  [.stream .worker .call, .stream .worker .lock, .stream .worker .body, .stream .worker .spurious,
    .stream .worker .lock, .stream .worker .body]

theorem wokenForNothing_run :
    ∃ s : State (Pipeline.SafeBulk Trace.SysParamsRecord.make) Trace.SysParamsRecord,
      ((locked (Pipeline.syscallsParams Trace.SysParamsRecord.make) false
        [Pipeline.oneLine]).startingIn (started [Pipeline.oneLine] [])).Run wokenForNothing s ∧
      s.stream.thread .worker = .parked (.wait_dequeue_bulk 512 (by decide)) ∧
      SensorRun.Action.step (Pipeline.syscallsParams Trace.SysParamsRecord.make) false .reader s.run =
        some { threads := {
          reader := .reading [Pipeline.oneLine] [] []
          _reader_watch := ({} : EventsWatch).add 1 } } := by
  have hstart : ((locked (Pipeline.syscallsParams Trace.SysParamsRecord.make) false
      [Pipeline.oneLine]).startingIn (started [Pipeline.oneLine] [])).Run []
      (started [Pipeline.oneLine] []) := .start rfl
  have hallowed : ∀ action ∈ wokenForNothing, action.Allowed := by
    simp [wokenForNothing, Action.Allowed]
  have hrun := hstart.foldlM (fun s action => action.step _ false s) wokenForNothing
    (fun action haction s t hstep => ⟨hallowed action haction, hstep⟩) rfl
  exact ⟨_, hrun, rfl, rfl⟩

/-- Six steps, one of them a wakeup for nothing, which adds 3 to the bound. -/
theorem locked_bounded_wokenForNothing :
    ∃ s t : State (Pipeline.SafeBulk Trace.SysParamsRecord.make) Trace.SysParamsRecord,
      ((locked (Pipeline.syscallsParams Trace.SysParamsRecord.make) false
        [Pipeline.oneLine]).startingIn (started [Pipeline.oneLine] [])).Run wokenForNothing s ∧
        wokenForNothing.length = 6 ∧ wokenForNothing.length + load s ≤ 313 ∧
        s.stream.thread .worker = .parked (.wait_dequeue_bulk 512 (by decide)) ∧
        (locked (Pipeline.syscallsParams Trace.SysParamsRecord.make) false
          [Pipeline.oneLine]).Leads s t ∧
        AtRest (locked (Pipeline.syscallsParams Trace.SysParamsRecord.make) false
          [Pipeline.oneLine]) t := by
  obtain ⟨s, hrun, hparked, -⟩ := wokenForNothing_run
  obtain ⟨hlength, t, hleads, hrest⟩ := locked_bounded _ rfl hrun
  exact ⟨s, t, hrun, rfl, hlength, hparked, hleads, hrest⟩

/-- With logging or without, a run with the locks is a run of the sensor whose calls are one step
each, on the same queues, which are correct; and where the sensor can go on, so can some thread
that is not woken up for nothing. -/
theorem locked_linearizes (tracer : Tracer β ρ) (logging : Bool) (bulks : List β)
    {actions : List Action} {s : State β ρ} (h : (locked tracer logging bulks).Run actions s) :
    (∃ shown, shown.Sublist (actions.filterMap Action.shown) ∧
      (SensorRun.sensor tracer logging bulks).Run shown s.run) ∧
    (s.stream.queue = s.run.threads._stream_queue ∧ Monitor.Correct s.stream) ∧
    (s.result.queue = s.run.threads._result_queue ∧ Monitor.Correct s.result) ∧
    ((∃ action t, (SensorRun.sensor tracer logging bulks).step action s.run t) →
      ∃ move t, (locked tracer logging bulks).step move s t ∧ move.isSpurious = false) := by
  have hrefines := locked_refines tracer logging bulks
  have hinv := hrefines.invariant h.reachable
  refine ⟨hrefines.run h, ⟨hinv.stream.queue, hinv.stream.correct⟩,
    ⟨hinv.result.queue, hinv.result.correct⟩, ?_⟩
  rintro ⟨action, run, hallowed, hrun⟩
  obtain ⟨move, t, hmove, hawake, -⟩ := can_move bulks hinv hallowed hrun
  exact ⟨move, t, hmove, hawake⟩

theorem locked_linearizes_wokenForNothing :
    ∃ s : State (Pipeline.SafeBulk Trace.SysParamsRecord.make) Trace.SysParamsRecord,
      s.stream.thread .worker = .parked (.wait_dequeue_bulk 512 (by decide)) ∧
        Monitor.Correct s.stream ∧ ∃ move t, (locked (Pipeline.syscallsParams
          Trace.SysParamsRecord.make) false [Pipeline.oneLine]).step move s t ∧
            move.isSpurious = false := by
  obtain ⟨s, hrun, hparked, hreader⟩ := wokenForNothing_run
  obtain ⟨-, ⟨-, hcorrect⟩, -, hmoves⟩ :=
    locked_linearizes _ _ _ (hrun.of_startingIn (started_init _ false rfl))
  exact ⟨s, hparked, hcorrect, hmoves ⟨.reader, _, trivial, hreader⟩⟩

/- A step in which an exception of `dispatch` takes the end marker. -/
def TakesMarker (action : Action) (s : State β ρ) : Prop :=
  ∃ shown, action.shown = some shown ∧ SensorRun.TakesMarker shown s.run

theorem call_noMarker (i : Thread) (s : Run β ρ) : ¬ SensorRun.TakesMarker i.action s := by
  cases i <;> exact id

theorem queue_noMarker {i : Thread} {moment : Moment} (s : State β ρ) :
    ¬ TakesMarker (.stream i moment) s ∧ ¬ TakesMarker (.result i moment) s := by
  constructor
  · rintro ⟨shown, hshown, htakes⟩
    rw [queue_shown (.inl hshown)] at htakes
    exact call_noMarker i s.run htakes
  · rintro ⟨shown, hshown, htakes⟩
    rw [queue_shown (.inr hshown)] at htakes
    exact call_noMarker i s.run htakes

theorem lost_step {tracer : Tracer β ρ} {bulks : List β} {s t : State β ρ} {action : Action}
    (hreach : (locked tracer false bulks).Reachable s)
    (hstep : (locked tracer false bulks).step action s t) :
    SensorRun.Lost t.run.threads ↔ SensorRun.Lost s.run.threads ∨ TakesMarker action s := by
  have hrefines := locked_refines tracer false bulks
  have hinv := hrefines.invariant hreach
  have hmarks := SensorRun.marks_reachable (hrefines.reachable hreach)
  have hcall {i : Thread} (hmoved : t.run = s.run ∨
      ∃ moment, moment = Moment.body ∧ i.action.step tracer false s.run = some t.run) :
      SensorRun.Lost t.run.threads ↔ SensorRun.Lost s.run.threads := by
    obtain hsame | ⟨-, -, hrun⟩ := hmoved
    · rw [hsame]
    · rw [(SensorRun.marks_step hmarks hrun).2, or_iff_left (call_noMarker i s.run)]
  cases action with
  | plain action =>
    have hrun := (inv_plain hinv hstep.2).2
    have htakes : TakesMarker (.plain action) s ↔ SensorRun.TakesMarker action s.run := by
      simp [TakesMarker, Action.shown]
    rw [htakes]
    exact (SensorRun.marks_step hmarks hrun).2
  | stream i moment =>
    rw [or_iff_left (queue_noMarker s).1]
    exact hcall ((inv_stream hinv hstep.2).2.imp_right fun hran => ⟨moment, hran⟩)
  | result i moment =>
    rw [or_iff_left (queue_noMarker s).2]
    exact hcall ((inv_result hinv hstep.2).2.imp_right fun hran => ⟨moment, hran⟩)

/-- Where only wakeups for nothing are left, the reader and the worker have returned, and the main
thread has too exactly when no exception of `dispatch` has taken the end marker with it. -/
theorem locked_returns_iff (tracer : Tracer β ρ) (bulks : List β) {actions : List Action}
    {s : State β ρ} (h : (locked tracer false bulks).Run actions s)
    (hrest : AtRest (locked tracer false bulks) s) :
    s.run.threads.reader = .returned ∧ s.run.threads.worker = .returned ∧
      (s.run.main = .returned ↔ ((locked tracer false bulks).restrict
        fun action s => ¬ TakesMarker action s).Run actions s) := by
  have hrefines := locked_refines tracer false bulks
  have hinv := hrefines.invariant h.reachable
  obtain ⟨hreader, hworker, hmain⟩ :=
    SensorRun.stuck_returns (hrefines.reachable h.reachable) (rest_stuck hinv hrest)
  refine ⟨hreader, hworker, hmain.trans ?_⟩
  apply h.whole_iff (fun s => SensorRun.Lost s.run.threads)
  · intro s hinit
    exact (SensorRun.marks_init (hrefines.init s hinit).2).2
  · intro action s t hreach hstep
    exact lost_step hreach hstep

theorem locked_returns_rest :
    ∃ (actions : List Action)
      (s : State (Pipeline.SafeBulk Trace.SysParamsRecord.make) Trace.SysParamsRecord),
      AtRest (locked (Pipeline.syscallsParams Trace.SysParamsRecord.make) false
        [Pipeline.oneLine]) s ∧
      s.run.threads.reader = .returned ∧ s.run.threads.worker = .returned ∧
      (s.run.main = .returned ↔ ((locked (Pipeline.syscallsParams Trace.SysParamsRecord.make) false
        [Pipeline.oneLine]).restrict fun action s => ¬ TakesMarker action s).Run actions s) := by
  have hstart : (locked (Pipeline.syscallsParams Trace.SysParamsRecord.make) false
      [Pipeline.oneLine]).init (started [Pipeline.oneLine] []) := started_init _ _ rfl
  obtain ⟨s, hleads, hrest⟩ := leads_rest (fun _ => good_init) (fun _ _ _ hstep => hstep)
    (good_init hstart)
  obtain ⟨actions, hrun⟩ := (System.Run.start hstart).reachable.leads hleads
  exact ⟨actions, s, hrest, locked_returns_iff _ _ hrun hrest⟩

/- The runs in which no `dispatch` throws. -/
def lockedQuietly (tracer : Tracer β ρ) (bulks : List β) : System (State β ρ) Action :=
  (locked tracer false bulks).restrict fun action _ =>
    ∀ shown, action.shown = some shown → shown.Quiet

section
variable {tracer : Tracer β ρ} {bulks : List β} {s : State β ρ}

theorem quietly_refines (tracer : Tracer β ρ) (bulks : List β) :
    (lockedQuietly tracer bulks).Refines (EndToEnd.quietly tracer bulks) Inv State.run
      Action.shown :=
  (locked_refines tracer false bulks).restrict fun _ shown _ hshown hquiet => hquiet shown hshown

theorem quietly_rest_stuck (h : Inv s) (hrest : AtRest (lockedQuietly tracer bulks) s) :
    (EndToEnd.quietly tracer bulks).Stuck s.run := by
  intro action run hstep
  obtain ⟨hquiet, hallowed, hrun⟩ := hstep
  obtain ⟨move, t, hmove, hawake, hshown⟩ := can_move bulks h hallowed hrun
  have hmoveQuiet (shown : SensorRun.Action) (hmoveShown : move.shown = some shown) :
      shown.Quiet := by
    obtain rfl | ⟨i, rfl⟩ := hshown shown hmoveShown
    · exact hquiet
    · cases i <;> trivial
  rw [hrest move t ⟨hmoveQuiet, hmove⟩] at hawake
  cases hawake

/- What has been dispatched are the first of the records; a run can be brought to rest, and at
rest `run()` has returned and all records have been dispatched. -/
structure Completes (tracer : Tracer β ρ) (bulks : List β) (records : List ρ)
    (s : State β ρ) : Prop where
  so_far : s.run.threads.sender.dispatched.flatten <+: records
  ends : ∃ t, (lockedQuietly tracer bulks).Leads s t ∧ AtRest (lockedQuietly tracer bulks) t
  all : AtRest (lockedQuietly tracer bulks) s →
    s.run.main = .returned ∧ s.run.threads.sender.dispatched.flatten = records

theorem quietly_completes (h : (lockedQuietly tracer bulks).Reachable s) :
    Completes tracer bulks (bulks.flatMap tracer.records) s := by
  have hrefines := quietly_refines tracer bulks
  have hcompletes := EndToEnd.quietly_completes (hrefines.reachable h)
  have hgood : Good s := by
    refine h.invariant (fun s hinit => ?_) fun action s t hs hstep => ?_
    · exact good_init (show (locked tracer false bulks).init s from hinit)
    · exact good_step hs (show (locked tracer false bulks).step action s t from hstep.2)
  refine ⟨hcompletes.so_far, ?_, fun hrest => hcompletes.all ?_⟩
  · exact leads_rest (fun _ => good_init) (fun _ _ _ hstep => hstep.2) hgood
  · exact quietly_rest_stuck (hrefines.invariant h) hrest

end

/-- From the content of the trace pipe to the stream, with every lock and wakeup between the
threads: what `sensor_delivers` says of calls that are one step holds of the calls as they are. -/
theorem locked_delivers {content : List Text.Byte} {fuel : Nat} {run : ReadStream.ReadRun}
    (hrun : ReadStream.readStream fuel (.opened content) = some run)
    (hsafe : ∀ line ∈ (ReadStream.survivors content).splitOn Text.newline, Trace.SafeLine line) :
    ∃ bulks : List (Pipeline.SafeBulk Trace.SysParamsRecord.make), ∃ records,
      bulks.map Subtype.val = run.groups.flatten ∧
      EndToEnd.IsParsed (ReadStream.survivors content) records ∧
      ∀ s, (lockedQuietly (Pipeline.syscallsParams Trace.SysParamsRecord.make) bulks).Reachable s →
        Completes (Pipeline.syscallsParams Trace.SysParamsRecord.make) bulks records s := by
  obtain ⟨bulks, hbulks, hrecords⟩ := EndToEnd.reader_bulks hrun hsafe
  exact ⟨bulks, _, hbulks, hrecords, fun s h => quietly_completes h⟩

theorem locked_delivers_oneTrace :
    ∃ bulks : List (Pipeline.SafeBulk Trace.SysParamsRecord.make), ∃ s records,
      (lockedQuietly (Pipeline.syscallsParams Trace.SysParamsRecord.make) bulks).Reachable s ∧
        s.run.main = .returned ∧
        EndToEnd.IsParsed (ReadStream.survivors (EndToEnd.traceText EndToEnd.oneTrace)) records ∧
        s.run.threads.sender.dispatched.flatten = records := by
  obtain ⟨fuel, run, hrun⟩ := ReadStream.readStream_returns (EndToEnd.traceText EndToEnd.oneTrace)
  obtain ⟨bulks, records, -, hparsed, hall⟩ := locked_delivers hrun
    (EndToEnd.trace_safe (fun line hline => (EndToEnd.oneTrace_plain line hline).1)
      EndToEnd.oneTrace_blocks)
  have hstart : (lockedQuietly (Pipeline.syscallsParams Trace.SysParamsRecord.make) bulks).Reachable
      (started bulks []) := ⟨[], .start (started_init _ false (by simp))⟩
  obtain ⟨s, hleads, hrest⟩ := (hall _ hstart).ends
  have hreach := hstart.leads hleads
  obtain ⟨hmain, hflatten⟩ := (hall s hreach).all hrest
  exact ⟨bulks, s, records, hreach, hmain, hparsed, hflatten⟩

end SyscallSensor.LockedRun
