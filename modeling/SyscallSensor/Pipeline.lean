import SyscallSensor.Collect
import SyscallSensor.ReadStream
import SyscallSensor.SafeQueue
import SyscallSensor.SendStream
import SyscallSensor.Lib.Transition

/-! The reader, worker and sender threads of `multithreaded_sensor` and the two queues between
them, interleaved step by step. -/
namespace SyscallSensor.Pipeline
open Lib.EndMarked
open Lib.Transition (System)
open ReadStream (BULK_CAPACITY)
open Text Trace
open SendStream (At Sender)
variable {β ρ : Type*} {T : Type}

/-- `collect` on bulks where it does not throw: it appends the bulk's records. -/
structure Tracer (β ρ : Type*) where
  lines : β → Nat
  records : β → List ρ
  collect : β → DataAggregator ρ → DataAggregator ρ
  collect_appends : ∀ bulk data, collect bulk data = data.appendAll (records bulk)

/- A bulk that `collect` gets through, for a record type with the constructor `construct`. -/
abbrev SafeBulk (construct : StringRef → StringRef → StringRef → StringRef → Except Fault T) :=
  { bulk : EventsBulk // ∃ data, collect construct bulk._lines {} = .ok data }

/-- The tracer of the sensor, on the bulks where `SyscallsParams::collect` returns. -/
def syscallsParams (construct : StringRef → StringRef → StringRef → StringRef → Except Fault T) :
    Tracer (SafeBulk construct) T where
  lines bulk := bulk.val._lines.length
  records bulk :=
    match collect construct bulk.val._lines {} with
    | .ok data => data.__data
    | .error _ => []
  collect bulk data :=
    match collect construct bulk.val._lines data with
    | .ok data => data
    | .error _ => data
  collect_appends := by
    intro bulk data
    obtain ⟨first, hfirst⟩ := bulk.property
    obtain ⟨records, hrecords, -⟩ := collect_appends hfirst
    simp only [hrecords]
    rfl

theorem syscallsParams_collect
    (construct : StringRef → StringRef → StringRef → StringRef → Except Fault T)
    (bulk : SafeBulk construct) (data : DataAggregator T) :
    collect construct bulk.val._lines data = .ok ((syscallsParams construct).collect bulk data) := by
  obtain ⟨first, hfirst⟩ := bulk.property
  obtain ⟨records, hrecords, -⟩ := collect_appends hfirst
  simp only [syscallsParams, hrecords]

/- Where `_read_stream` stands: filling `bulks` for the next `enqueue_bulk`, with the rest of
this group and the later groups still to be read; then the two calls behind the loop. -/
inductive Reader (β : Type*) where
  | reading (bulks group : List β) (groups : List (List β))
  | ending
  | stopping
  | returned

/- Where `_process_traces` stands: with no `lines` left it is about to call
`wait_dequeue_bulk`; `handing` is the `enqueue` behind `ready`, `flushing` to `stopping` the
branch of the end marker. -/
inductive Worker (β ρ : Type*) where
  | processing (lines : List (Option β))
  | handing (ptr : List ρ) (lines : List (Option β))
  | flushing (ptr : List ρ)
  | returning
  | ending
  | stopping
  | returned

structure Threads (β ρ : Type*) where
  reader : Reader β
  worker : Worker β ρ := .processing []
  sender : Sender (List ρ) := {}
  _stream_queue : SafeQueue (Option β) := {}
  _result_queue : SafeQueue (Option (List ρ)) := {}
  _data : DataAggregator ρ := {}
  _reader_watch : EventsWatch := {}
  _worker_watch : EventsWatch := {}

/-- Which thread moves, and how many items a `wait_dequeue_bulk` may take if it is at one. -/
inductive Action where
  | reader
  | worker (count : Nat)
  | sender (count : Nat)

def Action.Allowed : Action → Prop
  | .reader => True
  | .worker count => 1 ≤ count ∧ count ≤ BULK_CAPACITY
  | .sender count => 1 ≤ count ∧ count ≤ BULK_CAPACITY

/- The outer loop of the reader goes on while there is content. -/
def Reader.next : List (List β) → Reader β
  | [] => .ending
  | group :: groups => .reading [] group groups

section
variable (tracer : Tracer β ρ)

def readerStep (s : Threads β ρ) : Option (Threads β ρ) :=
  match s.reader with
  | .reading bulks (bulk :: group) groups =>
    some { s with
      reader := .reading (bulks ++ [bulk]) group groups
      _reader_watch := s._reader_watch.add (tracer.lines bulk) }
  | .reading bulks [] groups =>
    some { s with
      reader := .next groups
      _stream_queue := s._stream_queue.enqueue_bulk (bulks.map some) }
  | .ending =>
    some { s with reader := .stopping, _stream_queue := s._stream_queue.enqueue none }
  | .stopping => some { s with reader := .returned, _reader_watch := s._reader_watch.stop }
  | .returned => none

def workerStep (count : Nat) (s : Threads β ρ) : Option (Threads β ρ) :=
  match s.worker with
  | .processing [] =>
    (s._stream_queue.wait_dequeue_bulk count).map fun (lines, queue) =>
      { s with worker := .processing lines, _stream_queue := queue }
  | .processing (some bulk :: lines) =>
    let data := tracer.collect bulk s._data
    if data.ready then
      let (ptr, data) := data.make_new_pack
      some { s with worker := .handing ptr lines, _data := data }
    else some { s with worker := .processing lines, _data := data }
  | .processing (none :: _) =>
    let (ptr, data) := s._data.make_new_pack
    some { s with worker := .flushing ptr, _data := data }
  | .handing ptr lines =>
    some { s with
      worker := .processing lines
      _result_queue := s._result_queue.enqueue (some ptr) }
  | .flushing ptr =>
    if ptr.isEmpty then some { s with worker := .returning }
    else some { s with worker := .returning, _result_queue := s._result_queue.enqueue (some ptr) }
  | .returning =>
    some { s with worker := .ending, _stream_queue := s._stream_queue.enqueue none }
  | .ending =>
    some { s with worker := .stopping, _result_queue := s._result_queue.enqueue none }
  | .stopping => some { s with worker := .returned, _worker_watch := s._worker_watch.stop }
  | .returned => none

/- `dispatch` does not throw here. -/
def senderStep (count : Nat) (s : Threads β ρ) : Option (Threads β ρ) :=
  match s.sender.at_ with
  | .sending [] =>
    (s._result_queue.wait_dequeue_bulk count).map fun (events, queue) =>
      { s with sender := { s.sender with at_ := .sending events }, _result_queue := queue }
  | _ => (s.sender.step List.length fun _ => false).map fun sender => { s with sender := sender }

def Action.step : Action → Threads β ρ → Option (Threads β ρ)
  | .reader, s => readerStep tracer s
  | .worker count, s => workerStep tracer count s
  | .sender count, s => senderStep count s

/-- All interleavings for a given sequence of bulks, in any grouping. -/
def pipeline (bulks : List β) : System (Threads β ρ) Action where
  init s := ∃ group groups, (group :: groups).flatten = bulks ∧
    s = { reader := .reading [] group groups }
  step action s t := action.Allowed ∧ action.step tracer s = some t

end

/-- What a step of the reader does. -/
inductive ReaderMove (tracer : Tracer β ρ) (s : Threads β ρ) : Threads β ρ → Prop where
  | made {bulks group : List β} {bulk : β} {groups : List (List β)} :
    s.reader = .reading bulks (bulk :: group) groups →
      ReaderMove tracer s { s with
        reader := .reading (bulks ++ [bulk]) group groups
        _reader_watch := s._reader_watch.add (tracer.lines bulk) }
  | enqueued {bulks : List β} {groups : List (List β)} : s.reader = .reading bulks [] groups →
      ReaderMove tracer s { s with
        reader := .next groups
        _stream_queue := s._stream_queue.enqueue_bulk (bulks.map some) }
  | ended : s.reader = .ending →
      ReaderMove tracer s { s with
        reader := .stopping, _stream_queue := s._stream_queue.enqueue none }
  | stopped : s.reader = .stopping →
      ReaderMove tracer s { s with reader := .returned, _reader_watch := s._reader_watch.stop }

/- The same for the worker. -/
inductive WorkerMove (tracer : Tracer β ρ) (s : Threads β ρ) : Threads β ρ → Prop where
  | dequeued {lines : List (Option β)} {queue : SafeQueue (Option β)} :
    s.worker = .processing [] → s._stream_queue.q = lines ++ queue.q →
      WorkerMove tracer s { s with worker := .processing lines, _stream_queue := queue }
  | collected {bulk : β} {lines : List (Option β)} : s.worker = .processing (some bulk :: lines) →
    (s._data.appendAll (tracer.records bulk)).ready = false →
      WorkerMove tracer s { s with
        worker := .processing lines, _data := s._data.appendAll (tracer.records bulk) }
  | packed {bulk : β} {lines : List (Option β)} : s.worker = .processing (some bulk :: lines) →
    (s._data.appendAll (tracer.records bulk)).ready = true →
      WorkerMove tracer s { s with
        worker := .handing (s._data.__data ++ tracer.records bulk) lines
        _data := { s._data with __data := [] } }
  | marked {lines : List (Option β)} : s.worker = .processing (none :: lines) →
      WorkerMove tracer s { s with
        worker := .flushing s._data.__data, _data := { s._data with __data := [] } }
  | handed {ptr : List ρ} {lines : List (Option β)} : s.worker = .handing ptr lines →
      WorkerMove tracer s { s with
        worker := .processing lines
        _result_queue := s._result_queue.enqueue (some ptr) }
  | skipped : s.worker = .flushing [] → WorkerMove tracer s { s with worker := .returning }
  | flushed {ptr : List ρ} : s.worker = .flushing ptr → ptr ≠ [] →
      WorkerMove tracer s { s with
        worker := .returning, _result_queue := s._result_queue.enqueue (some ptr) }
  | released : s.worker = .returning →
      WorkerMove tracer s { s with
        worker := .ending, _stream_queue := s._stream_queue.enqueue none }
  | closed : s.worker = .ending →
      WorkerMove tracer s { s with
        worker := .stopping, _result_queue := s._result_queue.enqueue none }
  | stopped : s.worker = .stopping →
      WorkerMove tracer s { s with worker := .returned, _worker_watch := s._worker_watch.stop }

/- The same for the sender. -/
inductive SenderMove (s : Threads β ρ) : Threads β ρ → Prop where
  | dequeued {events : List (Option (List ρ))} {queue : SafeQueue (Option (List ρ))} :
    s.sender.at_ = .sending [] → s._result_queue.q = events ++ queue.q →
      SenderMove s { s with
        sender := { s.sender with at_ := .sending events }, _result_queue := queue }
  | dispatched {current : List ρ} {events : List (Option (List ρ))} :
    s.sender.at_ = .sending (some current :: events) →
      SenderMove s { s with
        sender := { s.sender with
          dispatched := s.sender.dispatched ++ [current], at_ := .counting current events } }
  | counted {current : List ρ} {events : List (Option (List ρ))} :
    s.sender.at_ = .counting current events →
      SenderMove s { s with
        sender := { s.sender with
          _watch := s.sender._watch.add current.length, at_ := .sending events } }
  | marked {events : List (Option (List ρ))} : s.sender.at_ = .sending (none :: events) →
      SenderMove s { s with sender := { s.sender with at_ := .stopping } }
  | stopped : s.sender.at_ = .stopping →
      SenderMove s { s with
        sender := { s.sender with _watch := s.sender._watch.stop, at_ := .finishing } }
  | finished : s.sender.at_ = .finishing →
      SenderMove s { s with sender := { s.sender with _finished := true, at_ := .returned } }

section
variable {tracer : Tracer β ρ} {s t : Threads β ρ} {count : Nat}

theorem readerStep_move (h : readerStep tracer s = some t) : ReaderMove tracer s t := by
  cases hreader : s.reader with
  | reading bulks group groups =>
    cases group with
    | nil =>
      simp only [readerStep, hreader, Option.some.injEq] at h
      rw [← h]
      exact .enqueued hreader
    | cons bulk group =>
      simp only [readerStep, hreader, Option.some.injEq] at h
      rw [← h]
      exact .made hreader
  | ending =>
    simp only [readerStep, hreader, Option.some.injEq] at h
    rw [← h]
    exact .ended hreader
  | stopping =>
    simp only [readerStep, hreader, Option.some.injEq] at h
    rw [← h]
    exact .stopped hreader
  | returned => simp [readerStep, hreader] at h

theorem workerStep_move (h : workerStep tracer count s = some t) : WorkerMove tracer s t := by
  cases hworker : s.worker with
  | processing lines =>
    cases lines with
    | nil =>
      simp only [workerStep, hworker, Option.map_eq_some_iff] at h
      obtain ⟨⟨lines, queue⟩, hfetch, rfl⟩ := h
      exact .dequeued hworker (SafeQueue.wait_dequeue_bulk_queue hfetch)
    | cons item lines =>
      cases item with
      | none =>
        simp only [workerStep, hworker, DataAggregator.make_new_pack, Option.some.injEq] at h
        rw [← h]
        exact .marked hworker
      | some bulk =>
        simp only [workerStep, hworker, tracer.collect_appends] at h
        cases hready : (s._data.appendAll (tracer.records bulk)).ready with
        | true =>
          simp only [hready, if_true, DataAggregator.make_new_pack, Option.some.injEq] at h
          rw [← h]
          exact .packed hworker hready
        | false =>
          simp only [hready, Bool.false_eq_true, if_false, Option.some.injEq] at h
          rw [← h]
          exact .collected hworker hready
  | handing ptr lines =>
    simp only [workerStep, hworker, Option.some.injEq] at h
    rw [← h]
    exact .handed hworker
  | flushing ptr =>
    simp only [workerStep, hworker] at h
    cases ptr with
    | nil =>
      simp only [List.isEmpty_nil, if_true, Option.some.injEq] at h
      rw [← h]
      exact .skipped hworker
    | cons r ptr =>
      simp only [List.isEmpty_cons, Bool.false_eq_true, if_false, Option.some.injEq] at h
      rw [← h]
      exact .flushed hworker (List.cons_ne_nil r ptr)
  | returning =>
    simp only [workerStep, hworker, Option.some.injEq] at h
    rw [← h]
    exact .released hworker
  | ending =>
    simp only [workerStep, hworker, Option.some.injEq] at h
    rw [← h]
    exact .closed hworker
  | stopping =>
    simp only [workerStep, hworker, Option.some.injEq] at h
    rw [← h]
    exact .stopped hworker
  | returned => simp [workerStep, hworker] at h

theorem senderStep_move (h : senderStep count s = some t) : SenderMove s t := by
  cases hat : s.sender.at_ with
  | sending events =>
    cases events with
    | nil =>
      simp only [senderStep, hat, Option.map_eq_some_iff] at h
      obtain ⟨⟨events, queue⟩, hfetch, rfl⟩ := h
      exact .dequeued hat (SafeQueue.wait_dequeue_bulk_queue hfetch)
    | cons event events =>
      cases event with
      | none =>
        simp only [senderStep, hat, Sender.step, Option.map_some, Option.some.injEq] at h
        rw [← h]
        exact .marked hat
      | some current =>
        simp only [senderStep, hat, Sender.step, Bool.false_eq_true, if_false, Option.map_some,
          Option.some.injEq] at h
        rw [← h]
        exact .dispatched hat
  | counting current events =>
    simp only [senderStep, hat, Sender.step, Option.map_some, Option.some.injEq] at h
    rw [← h]
    exact .counted hat
  | stopping =>
    simp only [senderStep, hat, Sender.step, Option.map_some, Option.some.injEq] at h
    rw [← h]
    exact .stopped hat
  | finishing =>
    simp only [senderStep, hat, Sender.step, Option.map_some, Option.some.injEq] at h
    rw [← h]
    exact .finished hat
  | returned => simp [senderStep, hat, Sender.step] at h

end

/- The bulks that the reader has not enqueued yet, and whether it has enqueued `nullptr`. -/
def Reader.upcoming : Reader β → List β
  | .reading bulks group groups => bulks ++ group ++ groups.flatten
  | _ => []

def Reader.closed : Reader β → Bool
  | .stopping => true
  | .returned => true
  | _ => false

/- The worker's local batch, the pack in its hands, and whether it has taken `nullptr` from one
queue and put it into the other. -/
def Worker.lines : Worker β ρ → List (Option β)
  | .processing lines => lines
  | .handing _ lines => lines
  | _ => []

def Worker.pack : Worker β ρ → List ρ
  | .handing ptr _ => ptr
  | .flushing ptr => ptr
  | _ => []

def Worker.seen : Worker β ρ → Bool
  | .processing _ => false
  | .handing _ _ => false
  | _ => true

def Worker.closed : Worker β ρ → Bool
  | .stopping => true
  | .returned => true
  | _ => false

/- The same for the sender. -/
def events : At (List ρ) → List (Option (List ρ))
  | .sending events => events
  | .counting _ events => events
  | _ => []

def seen : At (List ρ) → Bool
  | .sending _ => false
  | .counting _ _ => false
  | _ => true

section
variable {bulks group : List β} {groups : List (List β)} {lines : List (Option β)} {ptr : List ρ}

@[simp] theorem upcoming_reading :
    (Reader.reading bulks group groups).upcoming = bulks ++ group ++ groups.flatten := rfl
@[simp] theorem upcoming_ending : (Reader.ending : Reader β).upcoming = [] := rfl
@[simp] theorem upcoming_stopping : (Reader.stopping : Reader β).upcoming = [] := rfl
@[simp] theorem upcoming_returned : (Reader.returned : Reader β).upcoming = [] := rfl

@[simp] theorem lines_processing : (Worker.processing lines : Worker β ρ).lines = lines := rfl
@[simp] theorem lines_handing : (Worker.handing ptr lines).lines = lines := rfl
@[simp] theorem lines_flushing : (Worker.flushing ptr : Worker β ρ).lines = [] := rfl
@[simp] theorem lines_returning : (Worker.returning : Worker β ρ).lines = [] := rfl
@[simp] theorem lines_ending : (Worker.ending : Worker β ρ).lines = [] := rfl
@[simp] theorem lines_stopping : (Worker.stopping : Worker β ρ).lines = [] := rfl
@[simp] theorem lines_returned : (Worker.returned : Worker β ρ).lines = [] := rfl

@[simp] theorem pack_processing : (Worker.processing lines : Worker β ρ).pack = [] := rfl
@[simp] theorem pack_handing : (Worker.handing ptr lines).pack = ptr := rfl
@[simp] theorem pack_flushing : (Worker.flushing ptr : Worker β ρ).pack = ptr := rfl
@[simp] theorem pack_returning : (Worker.returning : Worker β ρ).pack = [] := rfl
@[simp] theorem pack_ending : (Worker.ending : Worker β ρ).pack = [] := rfl
@[simp] theorem pack_stopping : (Worker.stopping : Worker β ρ).pack = [] := rfl
@[simp] theorem pack_returned : (Worker.returned : Worker β ρ).pack = [] := rfl

end

section
variable {current : List ρ} {rest : List (Option (List ρ))}

@[simp] theorem events_sending : events (.sending rest) = rest := rfl
@[simp] theorem events_counting : events (.counting current rest) = rest := rfl
@[simp] theorem events_stopping : events (.stopping : At (List ρ)) = [] := rfl
@[simp] theorem events_finishing : events (.finishing : At (List ρ)) = [] := rfl
@[simp] theorem events_returned : events (.returned : At (List ρ)) = [] := rfl

end

/-- Bulks and packs on their way from one thread to the next. -/
def Threads.upstream (s : Threads β ρ) : List (Option β) := s.worker.lines ++ s._stream_queue.q

def Threads.downstream (s : Threads β ρ) : List (Option (List ρ)) :=
  events s.sender.at_ ++ s._result_queue.q

/-- The records in all five places, from the oldest on. -/
def Threads.all (tracer : Tracer β ρ) (s : Threads β ρ) : List ρ :=
  s.sender.dispatched.flatten ++ s.downstream.reduceOption.flatten ++ s.worker.pack ++
    s._data.__data ++ (s.upstream.reduceOption ++ s.reader.upcoming).flatMap tracer.records

/-- What every interleaving keeps. -/
structure Inv (tracer : Tracer β ρ) (bulks : List β) (s : Threads β ρ) : Prop where
  upstream : Flow s.upstream s.reader.closed s.worker.seen
  downstream : Flow s.downstream s.worker.closed (seen s.sender.at_)
  conserved : s.all tracer = bulks.flatMap tracer.records
  flushed : s.worker.seen = true → s._data.__data = []
  finished : s.sender._finished = true → seen s.sender.at_ = true

section
variable {tracer : Tracer β ρ} {bulks : List β} {s t : Threads β ρ} {count : Nat}

theorem inv_init {group : List β} {groups : List (List β)}
    (h : (group :: groups).flatten = bulks) :
    Inv tracer bulks { reader := .reading [] group groups } := by
  refine ⟨.start, .start, ?_, by simp [Worker.seen], by simp⟩
  rw [← h]
  simp [Threads.all, Threads.upstream, Threads.downstream]

theorem upcoming_next (groups : List (List β)) :
    (Reader.next groups).upcoming = groups.flatten ∧ (Reader.next groups).closed = false := by
  cases groups with
  | nil => exact ⟨rfl, rfl⟩
  | cons group groups => exact ⟨by simp [Reader.next, Reader.upcoming], rfl⟩

theorem inv_readerStep (h : Inv tracer bulks s) (hstep : readerStep tracer s = some t) :
    Inv tracer bulks t := by
  obtain ⟨hup, hdown, hall, hflushed, hfinished⟩ := h
  cases readerStep_move hstep with
  | made hreader =>
    rw [hreader] at hup
    refine ⟨hup, hdown, ?_, hflushed, hfinished⟩
    rw [← hall]
    simp [Threads.all, Threads.upstream, Threads.downstream, hreader]
  | @enqueued made groups hreader =>
    rw [hreader] at hup
    obtain ⟨hupcoming, hclosed⟩ := upcoming_next groups
    refine ⟨?_, hdown, ?_, hflushed, hfinished⟩
    · have hsent := Flow.send hup made
      rw [Threads.upstream, List.append_assoc] at hsent
      rw [hclosed]
      exact hsent
    · rw [← hall]
      simp [Threads.all, Threads.upstream, Threads.downstream, hreader, hupcoming,
        List.reduceOption_append, reduceOption_map_some]
  | ended hreader =>
    rw [hreader] at hup
    refine ⟨?_, hdown, ?_, hflushed, hfinished⟩
    · have hclosed := Flow.close hup
      rw [Threads.upstream, List.append_assoc] at hclosed
      exact hclosed
    · rw [← hall]
      simp [Threads.all, Threads.upstream, Threads.downstream, hreader, List.reduceOption_append]
  | stopped hreader =>
    rw [hreader] at hup
    refine ⟨hup, hdown, ?_, hflushed, hfinished⟩
    rw [← hall]
    simp [Threads.all, Threads.upstream, Threads.downstream, hreader]

/-- The worker puts a pack into the result queue while it has not closed it. -/
theorem flow_enqueue {s : Threads β ρ} (h : Flow s.downstream false (seen s.sender.at_))
    (ptr : List ρ) :
    Flow (events s.sender.at_ ++ (s._result_queue.enqueue (some ptr)).q) false
      (seen s.sender.at_) := by
  have hsent := Flow.send h [ptr]
  rw [Threads.downstream, List.append_assoc] at hsent
  exact hsent

theorem inv_workerStep (h : Inv tracer bulks s) (hstep : workerStep tracer count s = some t) :
    Inv tracer bulks t := by
  obtain ⟨hup, hdown, hall, hflushed, hfinished⟩ := h
  rw [Threads.upstream] at hup
  cases workerStep_move hstep with
  | dequeued hworker hqueue =>
    rw [hworker, hqueue] at hup
    rw [hworker] at hdown
    refine ⟨hup, hdown, ?_, by simp [Worker.seen], hfinished⟩
    rw [← hall]
    simp [Threads.all, Threads.upstream, Threads.downstream, hworker, hqueue]
  | collected hworker hready =>
    -- the records of the bulk join those in the aggregator
    rw [hworker] at hup hdown
    obtain ⟨-, hrest⟩ := Flow.take_item hup
    refine ⟨hrest, hdown, ?_, by simp [Worker.seen], hfinished⟩
    rw [← hall]
    simp [Threads.all, Threads.upstream, Threads.downstream, hworker, DataAggregator.appendAll]
  | packed hworker hready =>
    rw [hworker] at hup hdown
    obtain ⟨-, hrest⟩ := Flow.take_item hup
    refine ⟨hrest, hdown, ?_, by simp [Worker.seen], hfinished⟩
    rw [← hall]
    simp [Threads.all, Threads.upstream, Threads.downstream, hworker]
  | marked hworker =>
    -- nothing is behind the end marker, in the batch or in the queue
    rw [hworker] at hup hdown
    obtain ⟨hclosed, hnil⟩ := Flow.take_marker hup
    obtain ⟨hlines, hqueue⟩ := List.append_eq_nil_iff.mp hnil
    refine ⟨?_, hdown, ?_, fun _ => rfl, hfinished⟩
    · rw [hclosed]
      exact .seen (by simp [Threads.upstream, hqueue])
    · rw [← hall]
      simp [Threads.all, Threads.upstream, Threads.downstream, hworker, hlines, hqueue]
  | @handed ptr lines hworker =>
    rw [hworker] at hup hdown
    refine ⟨hup, flow_enqueue hdown ptr, ?_, by simp [Worker.seen], hfinished⟩
    rw [← hall]
    simp [Threads.all, Threads.upstream, Threads.downstream, hworker, List.reduceOption_append]
  | skipped hworker =>
    rw [hworker] at hup hdown hflushed
    refine ⟨hup, hdown, ?_, hflushed, hfinished⟩
    rw [← hall]
    simp [Threads.all, Threads.upstream, Threads.downstream, hworker]
  | @flushed ptr hworker hne =>
    -- the last pack is shorter than the others, and nothing is left in the aggregator
    rw [hworker] at hup hdown hflushed
    have hdata := hflushed rfl
    refine ⟨hup, flow_enqueue hdown ptr, ?_, hflushed, hfinished⟩
    rw [← hall]
    simp [Threads.all, Threads.upstream, Threads.downstream, hworker, hdata,
      List.reduceOption_append]
  | released hworker =>
    rw [hworker] at hup hdown hflushed
    refine ⟨?_, hdown, ?_, hflushed, hfinished⟩
    · obtain ⟨hclosed, -⟩ := Flow.items_seen hup
      rw [hclosed] at hup ⊢
      exact Flow.put_back hup
    · rw [← hall]
      simp [Threads.all, Threads.upstream, Threads.downstream, hworker, List.reduceOption_append]
  | closed hworker =>
    rw [hworker] at hup hdown hflushed
    refine ⟨hup, ?_, ?_, hflushed, hfinished⟩
    · have hclosed := Flow.close hdown
      rw [Threads.downstream, List.append_assoc] at hclosed
      exact hclosed
    · rw [← hall]
      simp [Threads.all, Threads.upstream, Threads.downstream, hworker, List.reduceOption_append]
  | stopped hworker =>
    rw [hworker] at hup hdown hflushed
    refine ⟨hup, hdown, ?_, hflushed, hfinished⟩
    rw [← hall]
    simp [Threads.all, Threads.upstream, Threads.downstream, hworker]

theorem inv_senderStep (h : Inv tracer bulks s) (hstep : senderStep count s = some t) :
    Inv tracer bulks t := by
  obtain ⟨hup, hdown, hall, hflushed, hfinished⟩ := h
  rw [Threads.downstream] at hdown
  -- before the marker the flag is not set, and after it the position says what is needed
  have hrunning : seen s.sender.at_ = false → s.sender._finished ≠ true := by
    intro hseen hset
    rw [hfinished hset] at hseen
    cases hseen
  cases senderStep_move hstep with
  | dequeued hat hqueue =>
    rw [hat, hqueue] at hdown
    rw [hat] at hrunning
    refine ⟨hup, hdown, ?_, hflushed, fun h => absurd h (hrunning rfl)⟩
    rw [← hall]
    simp [Threads.all, Threads.upstream, Threads.downstream, hat, hqueue]
  | dispatched hat =>
    rw [hat] at hdown hrunning
    obtain ⟨-, hrest⟩ := Flow.take_item hdown
    refine ⟨hup, hrest, ?_, hflushed, fun h => absurd h (hrunning rfl)⟩
    rw [← hall]
    simp [Threads.all, Threads.upstream, Threads.downstream, hat]
  | counted hat =>
    rw [hat] at hdown hrunning
    refine ⟨hup, hdown, ?_, hflushed, fun h => absurd h (hrunning rfl)⟩
    rw [← hall]
    simp [Threads.all, Threads.upstream, Threads.downstream, hat]
  | marked hat =>
    rw [hat] at hdown
    obtain ⟨hclosed, hnil⟩ := Flow.take_marker hdown
    obtain ⟨hitems, hqueue⟩ := List.append_eq_nil_iff.mp hnil
    refine ⟨hup, ?_, ?_, hflushed, fun _ => rfl⟩
    · rw [hclosed]
      exact .seen (by simp [Threads.downstream, hqueue])
    · rw [← hall]
      simp [Threads.all, Threads.upstream, Threads.downstream, hat, hitems, hqueue]
  | stopped hat =>
    rw [hat] at hdown
    refine ⟨hup, hdown, ?_, hflushed, fun _ => rfl⟩
    rw [← hall]
    simp [Threads.all, Threads.upstream, Threads.downstream, hat]
  | finished hat =>
    rw [hat] at hdown
    refine ⟨hup, hdown, ?_, hflushed, fun _ => rfl⟩
    rw [← hall]
    simp [Threads.all, Threads.upstream, Threads.downstream, hat]

theorem inv_reachable (h : (pipeline tracer bulks).Reachable s) : Inv tracer bulks s := by
  refine h.invariant ?_ ?_
  · intro s hinit
    obtain ⟨group, groups, hflatten, rfl⟩ := hinit
    exact inv_init hflatten
  · intro action s t hinv hstep
    cases action with
    | reader => exact inv_readerStep hinv hstep.2
    | worker count => exact inv_workerStep hinv hstep.2
    | sender count => exact inv_senderStep hinv hstep.2

/-- When the sender has seen the marker, no record is under way any more. -/
theorem all_dispatched (h : Inv tracer bulks s) (hseen : seen s.sender.at_ = true) :
    s.sender.dispatched.flatten = bulks.flatMap tracer.records := by
  obtain ⟨hup, hdown, hall, hflushed, -⟩ := h
  rw [hseen] at hdown
  obtain ⟨hclosed, hpacks⟩ := Flow.items_seen hdown
  have hworker : s.worker.seen = true ∧ s.worker.pack = [] := by
    cases hw : s.worker with
    | stopping => exact ⟨rfl, rfl⟩
    | returned => exact ⟨rfl, rfl⟩
    | _ => simp [hw, Worker.closed] at hclosed
  rw [hworker.1] at hup
  obtain ⟨hended, hbulks⟩ := Flow.items_seen hup
  have hupcoming : s.reader.upcoming = [] := by
    cases hr : s.reader with
    | reading made group groups => simp [hr, Reader.closed] at hended
    | _ => rfl
  rw [Threads.all, hpacks, hworker.2, hflushed hworker.1, hbulks, hupcoming] at hall
  simpa using hall

end

/-- In every reachable state the packs dispatched so far hold the first of the records, in
order, and all of them once `*_finished` is set. -/
theorem delivers_exactly_once (tracer : Tracer β ρ) (bulks : List β) {s : Threads β ρ}
    (h : (pipeline tracer bulks).Reachable s) :
    s.sender.dispatched.flatten <+: bulks.flatMap tracer.records ∧
      (s.sender._finished = true →
        s.sender.dispatched.flatten = bulks.flatMap tracer.records) := by
  have hinv := inv_reachable h
  refine ⟨?_, fun hfinished => all_dispatched hinv (hinv.finished hfinished)⟩
  rw [← hinv.conserved, Threads.all]
  simp only [List.append_assoc]
  exact List.prefix_append _ _

/- A bulk of one long line. -/
def oneLine : SafeBulk SysParamsRecord.make :=
  ⟨.make false (List.replicate 66 120) [.ofLine (List.replicate 66 120)], _, rfl⟩

/-- The threads run one after the other on one bulk. -/
theorem delivers_oneLine :
    ∃ s : Threads (SafeBulk SysParamsRecord.make) SysParamsRecord,
      (pipeline (syscallsParams SysParamsRecord.make) [oneLine]).Reachable s ∧
        s.sender._finished = true ∧ s.sender.dispatched.flatten.length = 1 ∧
        s.sender.dispatched.flatten =
          [oneLine].flatMap (syscallsParams SysParamsRecord.make).records := by
  have hstart : (pipeline (syscallsParams SysParamsRecord.make) [oneLine]).Reachable
      { reader := .reading [] [oneLine] [] } := ⟨[], .start ⟨[oneLine], [], rfl, rfl⟩⟩
  have hallowed : ∀ action ∈ List.replicate 4 Action.reader ++
      List.replicate 7 (Action.worker 512) ++ List.replicate 6 (Action.sender 512),
      action.Allowed := by
    simp [Action.Allowed, BULK_CAPACITY, or_imp, forall_and]
  have hfinished := hstart.foldlM (fun s action => action.step _ s) _
    (fun action haction s t hstep => ⟨hallowed action haction, hstep⟩) rfl
  exact ⟨_, hfinished, rfl, rfl, (delivers_exactly_once _ _ hfinished).2 rfl⟩

/- The bulk that the reader makes of one line of 66 bytes. -/
set_option maxRecDepth 1000 in
def readLine : SafeBulk SysParamsRecord.make :=
  ⟨.make false (List.replicate 66 120 ++ [newline])
    [⟨List.replicate 66 120 ++ [newline], 0, 66⟩], _, rfl⟩

theorem readStream_readLine :
    ReadStream.readStream 1 (.opened (List.replicate 66 120)) =
      some ⟨[[readLine.val]], ⟨1, 1, true⟩⟩ := by
  have hnot : newline ∉ List.replicate 66 120 := by decide
  exact ReadStream.readStream_line hnot (by decide)

/- The bulk that it makes of an empty trace: the newline that it adds ends an empty line. -/
def emptyTrace : SafeBulk SysParamsRecord.make :=
  ⟨.make true [newline] [⟨[newline], 0, 0⟩], _, rfl⟩

theorem readStream_emptyTrace :
    ReadStream.readStream 1 (.opened []) = some ⟨[[emptyTrace.val]], ⟨1, 1, true⟩⟩ :=
  ReadStream.readStream_line List.not_mem_nil (by decide)

end SyscallSensor.Pipeline
