import SyscallSensor.PackSizes
import SyscallSensor.Termination
import SyscallSensor.Lib.Refinement

/-! The packs that the threads make of the bulks are those of one plain loop, which collects,
asks `ready()` and at the end flushes, whatever the threads do in between. -/
namespace SyscallSensor.SensorRun
open Lib.EndMarked
open Lib.Transition (System)
open Pipeline (Tracer Threads readerStep workerStep readerStep_move workerStep_move Reader Worker
  upcoming_next uncollected)
open SendStream (Sender At)
variable {β ρ : Type*}

/- The pack in the branch of the end marker. -/
def lastPack (ptr : List ρ) : List (List ρ) := if ptr.isEmpty then [] else [ptr]

/-- `_process_traces` on the bulks themselves, without queues. -/
def processAll (tracer : Tracer β ρ) : List β → DataAggregator ρ → List (List ρ)
  | [], data => lastPack data.make_new_pack.1
  | bulk :: bulks, data =>
    let data := tracer.collect bulk data
    if data.ready then
      let (ptr, data) := data.make_new_pack
      ptr :: processAll tracer bulks data
    else processAll tracer bulks data

/- The packs that the worker has not put into the result queue yet. -/
def coming (tracer : Tracer β ρ) (s : Threads β ρ) : List (List ρ) :=
  match s.worker with
  | .processing _ => processAll tracer (uncollected s) s._data
  | .handing ptr _ => ptr :: processAll tracer (uncollected s) s._data
  | .flushing ptr => lastPack ptr
  | _ => []

/-- The packs that have left the queue, those in it and those still to come. -/
structure Plain (tracer : Tracer β ρ) (bulks : List β) (gone : List (List ρ))
    (s : Threads β ρ) : Prop where
  upstream : Flow s.upstream s.reader.closed s.worker.seen
  packs : gone ++ s.downstream.reduceOption ++ coming tracer s = processAll tracer bulks {}

section
variable {tracer : Tracer β ρ} {bulks : List β} {gone : List (List ρ)} {s t : Threads β ρ}
  {count : Nat}

theorem processAll_ready {bulk : β} {data : DataAggregator ρ}
    (h : (data.appendAll (tracer.records bulk)).ready = true) :
    processAll tracer (bulk :: bulks) data =
      (data.__data ++ tracer.records bulk) :: processAll tracer bulks { data with __data := [] } := by
  rw [processAll, tracer.collect_appends]
  simp only [h, if_true]
  rfl

theorem processAll_waiting {bulk : β} {data : DataAggregator ρ}
    (h : (data.appendAll (tracer.records bulk)).ready = false) :
    processAll tracer (bulk :: bulks) data =
      processAll tracer bulks (data.appendAll (tracer.records bulk)) := by
  rw [processAll, tracer.collect_appends]
  simp only [h, Bool.false_eq_true, if_false]

/-- The reader only moves bulks on. -/
theorem uncollected_readerStep (hstep : readerStep tracer s = some t) :
    uncollected t = uncollected s := by
  cases readerStep_move hstep with
  | made hreader | ended hreader | stopped hreader =>
    simp [uncollected, Threads.upstream, hreader, List.reduceOption_append]
  | @enqueued made groups hreader =>
    have hupcoming := (upcoming_next groups).1
    simp [uncollected, Threads.upstream, hreader, hupcoming, List.reduceOption_append,
      reduceOption_map_some]

theorem plain_readerStep (h : Plain tracer bulks gone s) (hstep : readerStep tracer s = some t) :
    Plain tracer bulks gone t := by
  obtain ⟨hup, hpacks⟩ := h
  have hkeep : t.worker = s.worker ∧ t._data = s._data ∧ t.downstream = s.downstream := by
    cases readerStep_move hstep <;> exact ⟨rfl, rfl, rfl⟩
  obtain ⟨hworker, hdata, hdown⟩ := hkeep
  refine ⟨?_, ?_⟩
  · cases readerStep_move hstep with
    | made hreader | stopped hreader =>
      rw [hreader] at hup
      exact hup
    | @enqueued made groups hreader =>
      rw [hreader] at hup
      have hsent := Flow.send hup made
      rw [Threads.upstream, List.append_assoc] at hsent
      rw [(upcoming_next groups).2]
      exact hsent
    | ended hreader =>
      rw [hreader] at hup
      have hclosed := Flow.close hup
      rw [Threads.upstream, List.append_assoc] at hclosed
      exact hclosed
  · rw [coming, uncollected_readerStep hstep, hworker, hdata, hdown]
    exact hpacks

/-- Behind the end marker there is no bulk, in the queue or at the reader. -/
theorem uncollected_marker {lines : List (Option β)} (h : Flow s.upstream s.reader.closed false)
    (hworker : s.worker = .processing (none :: lines)) : uncollected s = [] := by
  rw [Threads.upstream, hworker] at h
  obtain ⟨hclosed, hnil⟩ := Flow.take_marker h
  have hupcoming : s.reader.upcoming = [] := by
    cases hr : s.reader with
    | reading made group groups => simp [hr, Reader.closed] at hclosed
    | _ => rfl
  obtain ⟨hlines, hqueue⟩ := List.append_eq_nil_iff.mp hnil
  simp [uncollected, Threads.upstream, hworker, hupcoming, hlines, hqueue]

theorem plain_workerStep (h : Plain tracer bulks gone s)
    (hstep : workerStep tracer count s = some t) : Plain tracer bulks gone t := by
  obtain ⟨hup, hpacks⟩ := h
  cases workerStep_move hstep with
  | dequeued hworker hqueue =>
    rw [Threads.upstream, hworker, hqueue] at hup
    refine ⟨hup, ?_⟩
    rw [← hpacks]
    simp [coming, uncollected, Threads.upstream, Threads.downstream, hworker, hqueue]
  | @collected bulk lines hworker hready =>
    rw [Threads.upstream, hworker] at hup
    obtain ⟨-, hrest⟩ := Flow.take_item hup
    refine ⟨hrest, ?_⟩
    rw [← hpacks]
    simp [coming, uncollected, Threads.upstream, Threads.downstream, hworker,
      processAll_waiting hready]
  | @packed bulk lines hworker hready =>
    rw [Threads.upstream, hworker] at hup
    obtain ⟨-, hrest⟩ := Flow.take_item hup
    refine ⟨hrest, ?_⟩
    rw [← hpacks]
    simp [coming, uncollected, Threads.upstream, Threads.downstream, hworker,
      processAll_ready hready]
  | marked hworker =>
    rw [hworker] at hup
    have hnone := uncollected_marker hup hworker
    rw [Threads.upstream, hworker] at hup
    obtain ⟨hclosed, hnil⟩ := Flow.take_marker hup
    obtain ⟨-, hqueue⟩ := List.append_eq_nil_iff.mp hnil
    refine ⟨?_, ?_⟩
    · rw [hclosed]
      exact .seen (by simp [Threads.upstream, hqueue])
    · rw [← hpacks]
      simp [coming, hnone, Threads.downstream, hworker, processAll, DataAggregator.make_new_pack]
  | @handed ptr lines hworker =>
    rw [Threads.upstream, hworker] at hup
    refine ⟨hup, ?_⟩
    rw [← hpacks]
    simp [coming, uncollected, Threads.upstream, Threads.downstream, hworker,
      List.reduceOption_append]
  | skipped hworker =>
    rw [Threads.upstream, hworker] at hup
    refine ⟨hup, ?_⟩
    rw [← hpacks]
    simp [coming, lastPack, Threads.downstream, hworker]
  | flushed hworker hne =>
    rw [Threads.upstream, hworker] at hup
    refine ⟨hup, ?_⟩
    rw [← hpacks]
    simp [coming, lastPack, Threads.downstream, hworker, hne, List.reduceOption_append]
  | released hworker =>
    rw [Threads.upstream, hworker] at hup
    refine ⟨?_, ?_⟩
    · obtain ⟨hclosed, -⟩ := Flow.items_seen hup
      rw [hclosed] at hup ⊢
      exact Flow.put_back hup
    · rw [← hpacks]
      simp [coming, Threads.downstream, hworker]
  | closed hworker =>
    rw [Threads.upstream, hworker] at hup
    refine ⟨hup, ?_⟩
    rw [← hpacks]
    simp [coming, Threads.downstream, hworker, List.reduceOption_append]
  | stopped hworker =>
    rw [Threads.upstream, hworker] at hup
    refine ⟨hup, ?_⟩
    rw [← hpacks]
    simp [coming, Threads.downstream, hworker]

/-- What a step of the sender takes out of the queue and its batch: a pack for `dispatch`, and
what an exception or the marker leaves behind with it. -/
structure Takes (s t : Threads β ρ) (sent taken : List (List ρ)) : Prop where
  dispatched : t.sender.dispatched = s.sender.dispatched ++ sent
  downstream : s.downstream.reduceOption = taken ++ t.downstream.reduceOption
  first : sent <+: taken
  others : t.reader = s.reader ∧ t.worker = s.worker ∧ t._stream_queue = s._stream_queue ∧
    t._data = s._data

theorem takes_senderStep {throws : Bool} (hstep : senderStep count throws s = some t) :
    ∃ sent taken, Takes s t sent taken ∧
      (throws = false → Flow s.downstream s.worker.closed (Pipeline.seen s.sender.at_) →
        sent = taken) := by
  cases senderStep_move hstep with
  | dequeued hat hdequeue =>
    have hqueue := SafeQueue.wait_dequeue_bulk_queue hdequeue
    exact ⟨[], [], ⟨by simp, by simp [Threads.downstream, hat, hqueue], List.prefix_rfl,
      rfl, rfl, rfl, rfl⟩, fun _ _ => rfl⟩
  | @marked _ events hat =>
    refine ⟨[], events.reduceOption, ⟨by simp, by simp [Threads.downstream, hat,
      List.reduceOption_append], List.nil_prefix, rfl, rfl, rfl, rfl⟩, ?_⟩
    intro _ hflow
    -- nothing is behind the marker as long as nothing in front of it has been lost
    rw [Threads.downstream, hat] at hflow
    obtain ⟨-, hnil⟩ := Flow.take_marker hflow
    rw [(List.append_eq_nil_iff.mp hnil).1]
    rfl
  | @dispatched current events hat =>
    exact ⟨[current], [current], ⟨rfl, by simp [Threads.downstream, hat], List.prefix_rfl,
      rfl, rfl, rfl, rfl⟩, fun _ _ => rfl⟩
  | @threw current events hat =>
    exact ⟨[current], current :: events.reduceOption, ⟨rfl, by simp [Threads.downstream, hat,
      List.reduceOption_append], ⟨_, rfl⟩, rfl, rfl, rfl, rfl⟩, by simp⟩
  | counted hat | stopped hat | finished hat =>
    exact ⟨[], [], ⟨by simp, by simp [Threads.downstream, hat], List.prefix_rfl,
      rfl, rfl, rfl, rfl⟩, fun _ _ => rfl⟩

theorem plain_senderStep {sent taken : List (List ρ)} (h : Plain tracer bulks gone s)
    (htakes : Takes s t sent taken) : Plain tracer bulks (gone ++ taken) t := by
  obtain ⟨hup, hpacks⟩ := h
  obtain ⟨-, hdown, -, hreader, hworker, hqueue, hdata⟩ := htakes
  have hupstream : t.upstream = s.upstream := by rw [Threads.upstream, hworker, hqueue, Threads.upstream]
  have hcoming : coming tracer t = coming tracer s := by
    rw [coming, coming, hworker, hdata, uncollected, uncollected, hupstream, hreader]
  refine ⟨?_, ?_⟩
  · rwa [hupstream, hreader, hworker]
  · rw [← hpacks, hdown, hcoming]
    simp only [List.append_assoc]

end

section
variable {tracer : Tracer β ρ} {logging : Bool} {bulks : List β} {gone : List (List ρ)}
  {s t : Run β ρ}

/- The step of the pipeline that a step is. -/
def Action.shown : Action → Option Pipeline.Action
  | .reader => some .reader
  | .worker count => some (.worker count)
  | .sender count _ => some (.sender count)
  | .main _ => none

/-- Beside the main thread, the three others run as the pipeline does, as long as no exception of
`dispatch` comes. -/
theorem quiet_refines (tracer : Tracer β ρ) (logging : Bool) (bulks : List β) :
    ((sensor tracer logging bulks).restrict fun action _ => action.Quiet).Refines
      (Pipeline.pipeline tracer bulks) (fun _ => True) Run.threads Action.shown where
  init s hinit := by
    obtain ⟨group, groups, hflatten, rfl⟩ := hinit
    exact ⟨trivial, group, groups, hflatten, rfl⟩
  keep _ _ _ _ _ := trivial
  step action s t _ hstep := by
    obtain ⟨hquiet, hallowed, hstep⟩ := hstep
    cases action with
    | reader =>
      obtain ⟨threads, hthread, rfl⟩ := Option.map_eq_some_iff.mp hstep
      exact .inr ⟨.reader, rfl, trivial, hthread⟩
    | worker count =>
      obtain ⟨threads, hthread, rfl⟩ := Option.map_eq_some_iff.mp hstep
      exact .inr ⟨.worker count, rfl, hallowed, hthread⟩
    | sender count throws =>
      obtain ⟨threads, hthread, rfl⟩ := Option.map_eq_some_iff.mp hstep
      obtain rfl : throws = false := hquiet
      exact .inr ⟨.sender count, rfl, hallowed, hthread⟩
    | main outcome =>
      obtain ⟨main, -, rfl⟩ := Option.map_eq_some_iff.mp hstep
      exact .inl rfl

/-- What a step adds to the packs that have left the queue. -/
theorem plain_step {action : Action} (h : Plain tracer bulks gone s.threads)
    (hstep : action.step tracer logging s = some t) :
    ∃ sent taken, Plain tracer bulks (gone ++ taken) t.threads ∧
      t.threads.sender.dispatched = s.threads.sender.dispatched ++ sent ∧ sent <+: taken ∧
      (action.Quiet → Flow s.threads.downstream s.threads.worker.closed
        (Pipeline.seen s.threads.sender.at_) → sent = taken) := by
  cases action with
  | reader =>
    obtain ⟨threads, hthread, rfl⟩ := Option.map_eq_some_iff.mp hstep
    have hkeep : threads.sender = s.threads.sender := by
      cases readerStep_move hthread <;> rfl
    refine ⟨[], [], ?_, by rw [hkeep, List.append_nil], List.prefix_rfl, fun _ _ => rfl⟩
    rw [List.append_nil]
    exact plain_readerStep h hthread
  | worker count =>
    obtain ⟨threads, hthread, rfl⟩ := Option.map_eq_some_iff.mp hstep
    have hkeep : threads.sender = s.threads.sender := by
      cases workerStep_move hthread <;> rfl
    refine ⟨[], [], ?_, by rw [hkeep, List.append_nil], List.prefix_rfl, fun _ _ => rfl⟩
    rw [List.append_nil]
    exact plain_workerStep h hthread
  | sender count throws =>
    obtain ⟨threads, hthread, rfl⟩ := Option.map_eq_some_iff.mp hstep
    obtain ⟨sent, taken, htakes, hquiet⟩ := takes_senderStep hthread
    exact ⟨sent, taken, plain_senderStep h htakes, htakes.dispatched, htakes.first, hquiet⟩
  | main outcome =>
    obtain ⟨main, -, rfl⟩ := Option.map_eq_some_iff.mp hstep
    refine ⟨[], [], ?_, (List.append_nil _).symm, List.prefix_rfl, fun _ _ => rfl⟩
    rwa [List.append_nil]

theorem plain_init (hinit : (sensor tracer logging bulks).init s) :
    Plain tracer bulks [] s.threads ∧ s.threads.sender.dispatched = [] := by
  obtain ⟨group, groups, hflatten, rfl⟩ := hinit
  refine ⟨⟨.start, ?_⟩, rfl⟩
  rw [← hflatten]
  simp [SensorRun.started, Threads.downstream, coming, uncollected, Threads.upstream]

/-- In every run, the dispatched packs are some of the packs that have left the queue. -/
theorem plain_reachable (h : (sensor tracer logging bulks).Reachable s) :
    ∃ gone, Plain tracer bulks gone s.threads ∧
      s.threads.sender.dispatched.Sublist gone := by
  refine h.invariant (I := fun s => ∃ gone, Plain tracer bulks gone s.threads ∧
    s.threads.sender.dispatched.Sublist gone) ?_ ?_
  · intro s hinit
    obtain ⟨hplain, hsent⟩ := plain_init hinit
    exact ⟨[], hplain, by rw [hsent]⟩
  · intro action s t hgone hstep
    obtain ⟨gone, hplain, hsent⟩ := hgone
    obtain ⟨sent, taken, hplain', hdispatched, hfirst, -⟩ := plain_step hplain hstep.2
    refine ⟨gone ++ taken, hplain', ?_⟩
    rw [hdispatched]
    exact hsent.append hfirst.sublist

/-- Without exceptions they are all of them. -/
theorem plain_quiet
    (h : ((sensor tracer logging bulks).restrict fun action _ => action.Quiet).Reachable s) :
    Plain tracer bulks s.threads.sender.dispatched s.threads := by
  obtain ⟨actions, hrun⟩ := h
  induction hrun with
  | @start s hinit =>
    have hstart : (sensor tracer logging bulks).init s := hinit
    obtain ⟨hplain, hsent⟩ := plain_init hstart
    rwa [hsent]
  | next hbefore hstep ih =>
    obtain ⟨hquiet, hallowed, hstep⟩ := hstep
    obtain ⟨sent, taken, hplain, hdispatched, -, hall⟩ := plain_step ih hstep
    have hpipeline := (quiet_refines tracer logging bulks).reachable hbefore.reachable
    rw [hdispatched, hall hquiet (Pipeline.inv_reachable hpipeline).downstream]
    exact hplain

/-- With the marker seen, all packs have left the queue. -/
theorem plain_seen (h : Plain tracer bulks gone s.threads)
    (hinv : Pipeline.Inv tracer bulks s.threads)
    (hseen : Pipeline.seen s.threads.sender.at_ = true) :
    gone = processAll tracer bulks {} := by
  have hdown := hinv.downstream
  rw [hseen] at hdown
  obtain ⟨hclosed, hnone⟩ := Flow.items_seen hdown
  have hcoming : coming tracer s.threads = [] := by
    rw [coming]
    cases hworker : s.threads.worker with
    | stopping | returned => rfl
    | _ => simp [hworker, Worker.closed] at hclosed
  rw [← h.packs, hnone, hcoming, List.append_nil, List.append_nil]

end

/-- Whatever the interleaving, the packs that reach `dispatch` are packs of the plain loop, in its
order and none twice; without exceptions the first of them, and all of them once `*_finished` is
set. -/
theorem dispatches_plain_packs (tracer : Tracer β ρ) (logging : Bool) (bulks : List β)
    {s : Run β ρ} (h : (sensor tracer logging bulks).Reachable s) :
    s.threads.sender.dispatched.Sublist (processAll tracer bulks {}) ∧
      (((sensor tracer logging bulks).restrict fun action _ => action.Quiet).Reachable s →
        s.threads.sender.dispatched <+: processAll tracer bulks {} ∧
        (s.threads.sender._finished = true →
          s.threads.sender.dispatched = processAll tracer bulks {})) := by
  constructor
  · obtain ⟨gone, hplain, hsent⟩ := plain_reachable h
    have hgone : gone <+: processAll tracer bulks {} := by
      rw [← hplain.packs, List.append_assoc]
      exact List.prefix_append _ _
    exact hsent.trans hgone.sublist
  · intro hquiet
    have hplain := plain_quiet hquiet
    have hinv := Pipeline.inv_reachable ((quiet_refines tracer logging bulks).reachable hquiet)
    refine ⟨?_, fun hfinished => plain_seen hplain hinv (hinv.finished hfinished)⟩
    rw [← hplain.packs, List.append_assoc]
    exact List.prefix_append _ _

/-- One line, with the threads one after the other. -/
theorem dispatches_plain_packs_oneLine :
    ∃ s : Run (Pipeline.SafeBulk Trace.SysParamsRecord.make) Trace.SysParamsRecord,
      s.threads.sender._finished = true ∧ s.threads.sender.dispatched.length = 1 ∧
        s.threads.sender.dispatched =
          processAll (Pipeline.syscallsParams Trace.SysParamsRecord.make) [Pipeline.oneLine] {} := by
  have hstart : ((sensor (Pipeline.syscallsParams Trace.SysParamsRecord.make) true
      [Pipeline.oneLine]).restrict fun action _ => action.Quiet).Run []
      { threads := { reader := .reading [] [Pipeline.oneLine] [] } } :=
    .start ⟨[Pipeline.oneLine], [], rfl, rfl⟩
  have hallowed : ∀ action ∈ List.replicate 4 Action.reader ++
      List.replicate 7 (Action.worker 512) ++ List.replicate 6 (Action.sender 512 false),
      action.Quiet ∧ action.Allowed := by
    simp [Action.Quiet, Action.Allowed, ReadStream.BULK_CAPACITY, or_imp, forall_and]
  have hrun := hstart.foldlM (fun s action => action.step _ true s) _
    (fun action haction s t hstep =>
      ⟨(hallowed action haction).1, (hallowed action haction).2, hstep⟩) rfl
  have hends := dispatches_plain_packs _ true _ hrun.unrestrict.reachable
  exact ⟨_, rfl, rfl, (hends.2 hrun.reachable).2 rfl⟩

end SyscallSensor.SensorRun
