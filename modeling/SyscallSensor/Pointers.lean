import SyscallSensor.Sequential
import SyscallSensor.Lib.Heap

/-! The threads with the objects that they hand to each other on the heap: the queues carry
pointers, `nullptr` among them, the reader makes the bulks and the worker deletes them, the worker
makes the packs and the sender deletes them. -/
namespace SyscallSensor.Pointers
open Lib (Heap Address)
open Lib.EndMarked (Flow reduceOption_map_some)
open Lib.Transition (System)
open Pipeline (Tracer Threads)
open ReadStream (BULK_CAPACITY)
open SendStream (At)
universe u
variable {α β ρ : Type u}

inductive Reader (β : Type u) where
  | reading (bulks : List Address) (group : List β) (groups : List (List β))
  | ending
  | stopping
  | returned

inductive Worker where
  | processing (lines : List (Option Address))
  | handing (ptr : Address) (lines : List (Option Address))
  | flushing (ptr : Address)
  | returning
  | ending
  | stopping
  | returned

/-- The threads, the queues of pointers and the two kinds of objects. `dispatched` are the contents
of the packs at the calls of `dispatch`; `lost` are the packs whose last pointer is gone, and no
step reads it. -/
structure Program (β ρ : Type u) where
  reader : Reader β
  worker : Worker := .processing []
  sender : At Address := .sending []
  _stream_queue : SafeQueue (Option Address) := {}
  _result_queue : SafeQueue (Option Address) := {}
  __limit : Nat := 1024
  __data : Address := 0
  _reader_watch : EventsWatch := {}
  _worker_watch : EventsWatch := {}
  _sender_watch : EventsWatch := {}
  _finished : Bool := false
  dispatched : List (List ρ) := []
  bulks : Heap β := {}
  packs : Heap (List ρ) := ⟨[some []]⟩
  lost : List Address := []

/- The access through a pointer to `a` that finds no object fails with `a`. -/
def through (a : Address) : Option α → Except Address α
  | none => .error a
  | some x => .ok x

def Reader.next : List (List β) → Reader β
  | [] => .ending
  | group :: groups => .reading [] group groups

namespace Program

/-- The old pack, and a new one in its place. -/
def make_new_pack (s : Program β ρ) : Address × Program β ρ :=
  (s.__data, { s with __data := (s.packs.new []).1, packs := (s.packs.new []).2 })

end Program

section
variable (tracer : Tracer β ρ)

def readerStep (s : Program β ρ) : Option (Except Address (Program β ρ)) :=
  match s.reader with
  | .reading bulks (bulk :: group) groups =>
    some (.ok { s with
      reader := .reading (bulks ++ [(s.bulks.new bulk).1]) group groups
      bulks := (s.bulks.new bulk).2
      _reader_watch := s._reader_watch.add (tracer.lines bulk) })
  | .reading bulks [] groups =>
    some (.ok { s with
      reader := .next groups
      _stream_queue := s._stream_queue.enqueue_bulk (bulks.map some) })
  | .ending =>
    some (.ok { s with reader := .stopping, _stream_queue := s._stream_queue.enqueue none })
  | .stopping => some (.ok { s with reader := .returned, _reader_watch := s._reader_watch.stop })
  | .returned => none

/- `collect` through `bulk` into `*__data`, then `delete bulk`. -/
def collect (bulk : Address) (s : Program β ρ) : Except Address (Program β ρ × Bool) := do
  let bulk_lines ← through bulk (s.bulks.deref bulk)
  let records ← through s.__data (s.packs.deref s.__data)
  let data := tracer.collect bulk_lines { __limit := s.__limit, __data := records }
  let packs ← through s.__data (s.packs.put s.__data data.__data)
  let bulks ← through bulk (s.bulks.delete bulk)
  pure ({ s with bulks := bulks, packs := packs }, data.ready)

def workerStep (count : Nat) (s : Program β ρ) : Option (Except Address (Program β ρ)) :=
  match s.worker with
  | .processing [] =>
    (s._stream_queue.wait_dequeue_bulk count).map fun (lines, queue) =>
      .ok { s with worker := .processing lines, _stream_queue := queue }
  | .processing (some bulk :: lines) => some do
    let (s, ready) ← collect tracer bulk s
    if ready then
      let (ptr, s) := s.make_new_pack
      pure { s with worker := .handing ptr lines }
    else pure { s with worker := .processing lines }
  | .processing (none :: _) =>
    let (ptr, s) := s.make_new_pack
    some (.ok { s with worker := .flushing ptr })
  | .handing ptr lines =>
    some (.ok { s with
      worker := .processing lines
      _result_queue := s._result_queue.enqueue (some ptr) })
  | .flushing ptr => some do
    let pack ← through ptr (s.packs.deref ptr)
    if pack.isEmpty then pure { s with worker := .returning, lost := ptr :: s.lost }
    else pure { s with
      worker := .returning
      _result_queue := s._result_queue.enqueue (some ptr) }
  | .returning =>
    some (.ok { s with worker := .ending, _stream_queue := s._stream_queue.enqueue none })
  | .ending =>
    some (.ok { s with worker := .stopping, _result_queue := s._result_queue.enqueue none })
  | .stopping => some (.ok { s with worker := .returned, _worker_watch := s._worker_watch.stop })
  | .returned => none

/- With an exception, the batch goes out of scope. -/
def senderStep (count : Nat) (throws : Bool) (s : Program β ρ) :
    Option (Except Address (Program β ρ)) :=
  match s.sender with
  | .sending [] =>
    (s._result_queue.wait_dequeue_bulk count).map fun (events, queue) =>
      .ok { s with sender := .sending events, _result_queue := queue }
  | .sending (some current :: events) => some do
    let pack ← through current (s.packs.deref current)
    let s := { s with dispatched := s.dispatched ++ [pack] }
    if throws then
      pure { s with sender := .sending [], lost := current :: (events.reduceOption ++ s.lost) }
    else pure { s with sender := .counting current events }
  | .sending (none :: events) =>
    some (.ok { s with sender := .stopping, lost := events.reduceOption ++ s.lost })
  | .counting current events => some do
    let pack ← through current (s.packs.deref current)
    let packs ← through current (s.packs.delete current)
    pure { s with
      _sender_watch := s._sender_watch.add pack.length
      packs := packs
      sender := .sending events }
  | .stopping => some (.ok { s with _sender_watch := s._sender_watch.stop, sender := .finishing })
  | .finishing => some (.ok { s with _finished := true, sender := .returned })
  | .returned => none

/-- Which of the three threads moves, as the actions of the sensor have it. -/
inductive Action where
  | reader
  | worker (count : Nat)
  | sender (count : Nat) (throws : Bool)

def Action.shown : Action → SensorRun.Action
  | .reader => .reader
  | .worker count => .worker count
  | .sender count throws => .sender count throws

def Action.step : Action → Program β ρ → Option (Except Address (Program β ρ))
  | .reader, s => readerStep tracer s
  | .worker count, s => workerStep tracer count s
  | .sender count throws, s => senderStep count throws s

/-- All interleavings of the three threads; a step that fails has no state behind it. -/
def program (bulks : List β) : System (Program β ρ) Action where
  init s := ∃ group groups, (group :: groups).flatten = bulks ∧
    s = { reader := .reading [] group groups }
  step action s t := action.shown.Allowed ∧ action.step tracer s = some (.ok t)

end

/- What is left of each position when the pointers are replaced by the objects. -/
def Reader.value (h : Heap β) : Reader β → Pipeline.Reader β
  | .reading bulks group groups => .reading (h.objects bulks) group groups
  | .ending => .ending
  | .stopping => .stopping
  | .returned => .returned

def packAt (h : Heap (List ρ)) (ptr : Address) : List ρ := (h.deref ptr).getD []

def Worker.value (h : Heap β) (g : Heap (List ρ)) : Worker → Pipeline.Worker β ρ
  | .processing lines => .processing (h.read lines)
  | .handing ptr lines => .handing (packAt g ptr) (h.read lines)
  | .flushing ptr => .flushing (packAt g ptr)
  | .returning => .returning
  | .ending => .ending
  | .stopping => .stopping
  | .returned => .returned

def senderValue (g : Heap (List ρ)) : At Address → At (List ρ)
  | .sending events => .sending (g.read events)
  | .counting current events => .counting (packAt g current) (g.read events)
  | .stopping => .stopping
  | .finishing => .finishing
  | .returned => .returned

def Program.value (s : Program β ρ) : Threads β ρ where
  reader := s.reader.value s.bulks
  worker := s.worker.value s.bulks s.packs
  sender := {
    dispatched := s.dispatched
    _finished := s._finished
    _watch := s._sender_watch
    at_ := senderValue s.packs s.sender }
  _stream_queue := ⟨s.bulks.read s._stream_queue.q⟩
  _result_queue := ⟨s.packs.read s._result_queue.q⟩
  _data := { __limit := s.__limit, __data := packAt s.packs s.__data }
  _reader_watch := s._reader_watch
  _worker_watch := s._worker_watch

/- The pointers that each thread holds. -/
def Reader.held : Reader β → List Address
  | .reading bulks _ _ => bulks
  | _ => []

def Worker.bulks : Worker → List Address
  | .processing lines => lines.reduceOption
  | .handing _ lines => lines.reduceOption
  | _ => []

def Worker.pack : Worker → List Address
  | .handing ptr _ => [ptr]
  | .flushing ptr => [ptr]
  | _ => []

def senderHeld : At Address → List Address
  | .sending events => events.reduceOption
  | .counting current events => current :: events.reduceOption
  | _ => []

def Program.bulkPointers (s : Program β ρ) : List Address :=
  s.worker.bulks ++ s._stream_queue.q.reduceOption ++ s.reader.held

def Program.packPointers (s : Program β ρ) : List Address :=
  s.worker.pack ++ senderHeld s.sender ++ s._result_queue.q.reduceOption

/-- Every object that lives is held by one pointer. -/
structure Inv (s : Program β ρ) : Prop where
  bulks : s.bulks.Owns s.bulkPointers
  packs : s.packs.Owns (s.__data :: (s.packPointers ++ s.lost))

section
variable {tracer : Tracer β ρ} {s : Program β ρ} {h h' : Heap β} {g g' : Heap (List ρ)} {count : Nat}

/- Only the objects that a thread points to matter for it. -/

theorem reader_congr {reader : Reader β} (hsame : ∀ a ∈ reader.held, h'.deref a = h.deref a) :
    reader.value h' = reader.value h := by
  cases reader with
  | reading bulks group groups =>
    have hobjects : h'.objects bulks = h.objects bulks := Heap.objects_congr hsame
    rw [Reader.value, hobjects, Reader.value]
  | ending | stopping | returned => rfl

theorem worker_congr {worker : Worker} (hbulks : ∀ a ∈ worker.bulks, h'.deref a = h.deref a)
    (hpack : ∀ a ∈ worker.pack, g'.deref a = g.deref a) :
    worker.value h' g' = worker.value h g := by
  cases worker with
  | processing lines => rw [Worker.value, Heap.read_congr hbulks, Worker.value]
  | handing ptr lines =>
    rw [Worker.value, Heap.read_congr hbulks, packAt, hpack ptr (List.mem_singleton_self ptr),
      Worker.value, packAt]
  | flushing ptr =>
    rw [Worker.value, packAt, hpack ptr (List.mem_singleton_self ptr), Worker.value, packAt]
  | returning | ending | stopping | returned => rfl

theorem sender_congr {sender : At Address} (hsame : ∀ a ∈ senderHeld sender, g'.deref a = g.deref a) :
    senderValue g' sender = senderValue g sender := by
  cases sender with
  | sending events => rw [senderValue, Heap.read_congr hsame, senderValue]
  | counting current events =>
    rw [senderHeld, List.forall_mem_cons] at hsame
    rw [senderValue, packAt, hsame.1, Heap.read_congr hsame.2, senderValue, packAt]
  | stopping | finishing | returned => rfl

/-- With other heaps that agree on what is pointed to, only the aggregator's pack may differ. -/
theorem value_congr (hbulks : ∀ a ∈ s.bulkPointers, h.deref a = s.bulks.deref a)
    (hpacks : ∀ a ∈ s.packPointers, g.deref a = s.packs.deref a) :
    ({ s with bulks := h, packs := g } : Program β ρ).value =
      { s.value with _data := { __limit := s.__limit, __data := packAt g s.__data } } := by
  simp only [Program.bulkPointers, Program.packPointers, List.forall_mem_append] at hbulks hpacks
  obtain ⟨⟨hworker, hqueue⟩, hreader⟩ := hbulks
  obtain ⟨⟨hpack, hsender⟩, hresults⟩ := hpacks
  simp only [Program.value, reader_congr hreader, worker_congr hworker hpack, sender_congr hsender,
    Heap.read_congr hqueue, Heap.read_congr hresults]

/-- A step with pointers that does what the step with values does, and keeps the invariant. -/
inductive Matches : Option (Except Address (Program β ρ)) → Option (Threads β ρ) → Prop where
  | waits : Matches none none
  | moves {t : Program β ρ} {v : Threads β ρ} : t.value = v → Inv t → Matches (some (.ok t)) (some v)

theorem wait_dequeue_bulk_read {γ : Type u} (h : Heap γ) (queue : SafeQueue (Option Address)) :
    (⟨h.read queue.q⟩ : SafeQueue (Option γ)).wait_dequeue_bulk count =
      (queue.wait_dequeue_bulk count).map fun (items, queue) => (h.read items, ⟨h.read queue.q⟩) := by
  unfold SafeQueue.wait_dequeue_bulk
  rw [SafeQueue.popLoop_eq, SafeQueue.popLoop_eq]
  cases hq : queue.q with
  | nil => rfl
  | cons item q => simp [Heap.read, List.map_take, List.map_drop]

/- A step that leaves the objects alone and hands pointers on. -/
theorem Inv.moved {t : Program β ρ} (hs : Inv s) (hbulks : t.bulks = s.bulks)
    (hpacks : t.packs = s.packs) (hheld : s.bulkPointers.Perm t.bulkPointers)
    (hkept : (s.__data :: (s.packPointers ++ s.lost)).Perm (t.__data :: (t.packPointers ++ t.lost))) :
    Inv t :=
  ⟨hbulks ▸ hs.bulks.perm hheld, hpacks ▸ hs.packs.perm hkept⟩

theorem reader_matches (hs : Inv s) :
    Matches (readerStep tracer s) (Pipeline.readerStep tracer s.value) := by
  have hbulks := hs.bulks
  rw [Program.bulkPointers] at hbulks
  cases hreader : s.reader with
  | reading bulks group groups =>
    have hvalue : s.value.reader = .reading (s.bulks.objects bulks) group groups := by
      rw [Program.value, hreader, Reader.value]
    rw [hreader, Reader.held] at hbulks
    cases group with
    | cons bulk group =>
      -- the new bulk is an object of its own
      simp only [readerStep, hreader, Pipeline.readerStep, hvalue]
      have hsame := hbulks.same_new bulk
      simp only [List.forall_mem_append] at hsame
      obtain ⟨⟨hworker, hqueue⟩, hmade⟩ := hsame
      have hnew : (s.bulks.new bulk).2.objects (bulks ++ [(s.bulks.new bulk).1]) =
          s.bulks.objects bulks ++ [bulk] := by
        rw [Heap.objects_append, Heap.objects_congr hmade, Heap.objects_new]
      refine .moves ?_ ⟨?_, hs.packs⟩
      · simp only [Program.value, Reader.value, hnew, worker_congr hworker fun _ _ => rfl,
          Heap.read_congr hqueue]
      · refine (hbulks.after_new bulk).perm ?_
        rw [Program.bulkPointers, Reader.held, ← List.append_assoc]
        exact (List.perm_append_singleton _ _).symm
    | nil =>
      simp only [readerStep, hreader, Pipeline.readerStep, hvalue]
      have hmade := Heap.read_map_some hbulks fun a ha => List.mem_append_right _ ha
      refine .moves ?_ (hs.moved rfl rfl ?_ (.refl _))
      · cases groups <;> simp [Program.value, SafeQueue.enqueue_bulk, hmade, Reader.next,
          Pipeline.Reader.next, Reader.value, Heap.objects]
      · cases groups <;> simp [Program.bulkPointers, hreader, Reader.held, Reader.next,
          List.reduceOption_append, reduceOption_map_some]
  | ending =>
    simp only [readerStep, hreader, Pipeline.readerStep, Program.value, Reader.value]
    refine .moves ?_ (hs.moved rfl rfl ?_ (.refl _))
    · simp [Program.value, Reader.value, SafeQueue.enqueue]
    · simp [Program.bulkPointers, hreader, Reader.held, List.reduceOption_append]
  | stopping =>
    simp only [readerStep, hreader, Pipeline.readerStep, Program.value, Reader.value]
    refine .moves ?_ (hs.moved rfl rfl ?_ (.refl _))
    · simp [Program.value, Reader.value]
    · simp [Program.bulkPointers, hreader, Reader.held]
  | returned =>
    simp only [readerStep, hreader, Pipeline.readerStep, Program.value, Reader.value]
    exact .waits

/-- `collect` finds both objects, and leaves the bulk's address dangling and unused. -/
theorem collect_matches (tracer : Tracer β ρ) {bulk : Address} {lines : List (Option Address)}
    (hs : Inv s)
    (hworker : s.worker = .processing (some bulk :: lines)) :
    ∃ x t, s.bulks.deref bulk = some x ∧
      collect tracer bulk s = .ok (t, (tracer.collect x s.value._data).ready) ∧
      ({ t with worker := .processing lines } : Program β ρ).value =
        { s.value with
          worker := .processing (s.bulks.read lines)
          _data := tracer.collect x s.value._data } ∧
      Inv { t with worker := .processing lines } := by
  obtain ⟨hbulks, hpacks⟩ := hs
  simp only [Program.bulkPointers, hworker, Worker.bulks, List.reduceOption_cons_of_some,
    List.cons_append] at hbulks
  simp only [Program.packPointers, hworker, Worker.pack, List.nil_append] at hpacks
  obtain ⟨x, hx⟩ := hbulks.deref List.mem_cons_self
  obtain ⟨records, hrecords⟩ := hpacks.deref List.mem_cons_self
  have hdata : packAt s.packs s.__data = records := by rw [packAt, hrecords, Option.getD_some]
  have hcollect : tracer.collect x { __limit := s.__limit, __data := records } =
      { __limit := s.__limit, __data := records ++ tracer.records x } := tracer.collect_appends _ _
  obtain ⟨g, hput⟩ := hpacks.put List.mem_cons_self (records ++ tracer.records x)
  obtain ⟨h, hdelete⟩ := hbulks.delete List.mem_cons_self
  refine ⟨x, { s with bulks := h, packs := g }, hx, ?_, ?_, ⟨?_, ?_⟩⟩
  · simp only [collect, through, hx, hrecords, Lib.Outcome.ok_bind, hcollect, hput, hdelete,
      Program.value, hdata]
    rfl
  · have hleft := value_congr (s := { s with worker := .processing lines }) (h := h) (g := g)
      (hbulks.same_delete hdelete) (fun a ha => hpacks.same_put hput a (List.mem_append_left _ ha))
    have hown : packAt g s.__data = records ++ tracer.records x := by
      rw [packAt, Heap.deref_put hput, if_pos rfl, Option.getD_some]
    rw [hleft, hown]
    simp only [Program.value, Worker.value, hdata, hcollect]
  · exact hbulks.after_delete hdelete
  · exact hpacks.after_put hput

/-- The old pack goes into the worker's hands. -/
theorem make_new_pack_matches (worker : Worker) (hs : Inv s) (hpack : s.worker.pack = [])
    (hbulks : worker.bulks = s.worker.bulks) (hptr : worker.pack = [s.__data]) :
    ({ s.make_new_pack.2 with worker := worker } : Program β ρ).value =
        { s.value with
          worker := worker.value s.bulks s.packs
          _data := { s.value._data with __data := [] } } ∧
      Inv { s.make_new_pack.2 with worker := worker } := by
  have hpacks := hs.packs
  rw [Program.packPointers, hpack, List.nil_append] at hpacks
  have hsame := hpacks.same_new []
  rw [List.forall_mem_cons] at hsame
  constructor
  · have hleft := value_congr (s := { s with worker := worker, __data := (s.packs.new []).1 })
      (h := s.bulks) (g := (s.packs.new []).2) (fun _ _ => rfl) ?_
    · have hnew : packAt (s.packs.new []).2 (s.packs.new []).1 = [] := by
        rw [packAt, Heap.deref_new, if_pos rfl, Option.getD_some]
      rw [hnew] at hleft
      exact hleft
    · simp only [Program.packPointers, hptr, List.append_assoc, List.singleton_append,
        List.forall_mem_cons, List.forall_mem_append] at hsame ⊢
      exact ⟨⟨hsame.1, hsame.2.1⟩, hsame.2.2.1⟩
  · refine ⟨?_, ?_⟩
    · rw [Program.bulkPointers, hbulks]
      exact hs.bulks
    · refine (hpacks.after_new []).perm ?_
      simp only [Program.packPointers, hptr, List.append_assoc, List.singleton_append]
      exact .refl _

/-- The pack goes from the worker's hands into the queue. -/
theorem Inv.handed {ptr : Address} {worker : Worker} (hs : Inv s) (hptr : s.worker.pack = [ptr])
    (hbulks : worker.bulks = s.worker.bulks) (hpack : worker.pack = []) :
    Inv { s with worker := worker, _result_queue := s._result_queue.enqueue (some ptr) } := by
  refine hs.moved rfl rfl ?_ ?_
  · rw [Program.bulkPointers, Program.bulkPointers, hbulks]
  · rw [List.perm_iff_count]
    intro a
    simp only [Program.packPointers, hptr, hpack, SafeQueue.enqueue_q, List.reduceOption_append,
      List.reduceOption_cons_of_some, List.reduceOption_nil, List.cons_append, List.nil_append,
      List.count_cons, List.count_nil, List.count_append]
    omega

theorem worker_takes (hs : Inv s) (hworker : s.worker = .processing []) :
    Matches (workerStep tracer count s) (Pipeline.workerStep tracer count s.value) := by
  have hvalue : s.value.worker = .processing [] := by
    rw [Program.value, hworker, Worker.value, Heap.read_nil]
  have hqueue : s.value._stream_queue = ⟨s.bulks.read s._stream_queue.q⟩ := rfl
  simp only [workerStep, hworker, Pipeline.workerStep, hvalue, hqueue, wait_dequeue_bulk_read,
    Option.map_map]
  cases hdequeue : s._stream_queue.wait_dequeue_bulk count with
  | none => exact .waits
  | some items =>
    obtain ⟨lines, queue⟩ := items
    have hitems := SafeQueue.wait_dequeue_bulk_queue hdequeue
    refine .moves rfl (hs.moved rfl rfl ?_ ?_)
    · simp [Program.bulkPointers, hworker, Worker.bulks, hitems, List.reduceOption_append]
    · simp [Program.packPointers, hworker, Worker.pack]

/-- The end marker, with nothing behind it. -/
theorem worker_ends {lines : List (Option Address)} (hs : Inv s)
    (hflow : Flow s.value.upstream s.value.reader.closed s.value.worker.seen)
    (hworker : s.worker = .processing (none :: lines)) :
    Matches (workerStep tracer count s) (Pipeline.workerStep tracer count s.value) := by
  have hvalue : s.value.worker = .processing (none :: s.bulks.read lines) := by
    rw [Program.value, hworker, Worker.value, Heap.read_none]
  rw [hvalue, Pipeline.Worker.seen, Threads.upstream, hvalue] at hflow
  obtain ⟨-, hnil⟩ := Flow.take_marker hflow
  have hlines : lines = [] := List.map_eq_nil_iff.mp (List.append_eq_nil_iff.mp hnil).1
  rw [hlines] at hworker
  obtain ⟨hnext, hinv⟩ := make_new_pack_matches (.flushing s.__data) hs
    (by rw [hworker]; rfl) (by rw [hworker]; rfl) rfl
  simp only [workerStep, hworker, Pipeline.workerStep, hvalue, DataAggregator.make_new_pack]
  exact .moves hnext hinv

theorem worker_collects {bulk : Address} {lines : List (Option Address)} (hs : Inv s)
    (hworker : s.worker = .processing (some bulk :: lines)) :
    Matches (workerStep tracer count s) (Pipeline.workerStep tracer count s.value) := by
  have hvalue : s.value.worker = .processing (s.bulks.read (some bulk :: lines)) := by
    rw [Program.value, hworker, Worker.value]
  obtain ⟨x, t, hx, hcollect, hleft, hinv⟩ := collect_matches tracer hs hworker
  simp only [workerStep, hworker, Pipeline.workerStep, hvalue, Heap.read_some, hx, hcollect,
    Lib.Outcome.ok_bind]
  cases hready : (tracer.collect x s.value._data).ready with
  | false =>
    simp only [Bool.false_eq_true, if_false]
    exact .moves hleft hinv
  | true =>
    simp only [if_true, DataAggregator.make_new_pack]
    obtain ⟨hnext, hinv⟩ := make_new_pack_matches (.handing t.__data lines) hinv rfl rfl rfl
    have hlines : t.bulks.read lines = s.bulks.read lines :=
      Pipeline.Worker.processing.inj (congrArg Threads.worker hleft)
    have hdata : packAt t.packs t.__data = (tracer.collect x s.value._data).__data :=
      congrArg (fun v : Threads β ρ => v._data.__data) hleft
    refine .moves (hnext.trans ?_) hinv
    rw [hleft, Worker.value, hlines, hdata]

theorem worker_hands {ptr : Address} {lines : List (Option Address)} (hs : Inv s)
    (hworker : s.worker = .handing ptr lines) :
    Matches (workerStep tracer count s) (Pipeline.workerStep tracer count s.value) := by
  have hptr : ptr ∈ s.__data :: (s.packPointers ++ s.lost) := by
    simp [Program.packPointers, hworker, Worker.pack]
  obtain ⟨pack, hpack⟩ := hs.packs.deref hptr
  simp only [workerStep, hworker, Pipeline.workerStep, Program.value, Worker.value]
  refine .moves ?_ (hs.handed (by rw [hworker]; rfl) (by rw [hworker]; rfl) rfl)
  simp [Program.value, Worker.value, SafeQueue.enqueue, packAt, hpack]

theorem worker_flushes {ptr : Address} (hs : Inv s) (hworker : s.worker = .flushing ptr) :
    Matches (workerStep tracer count s) (Pipeline.workerStep tracer count s.value) := by
  have hptr : ptr ∈ s.__data :: (s.packPointers ++ s.lost) := by
    simp [Program.packPointers, hworker, Worker.pack]
  obtain ⟨pack, hpack⟩ := hs.packs.deref hptr
  have hvalue : s.value.worker = .flushing pack := by
    rw [Program.value, hworker, Worker.value, packAt, hpack, Option.getD_some]
  simp only [workerStep, hworker, Pipeline.workerStep, hvalue, hpack, through, Lib.Outcome.ok_bind]
  cases hempty : pack.isEmpty with
  | true =>
    -- nobody has the empty pack any more
    simp only [if_true]
    refine .moves ?_ (hs.moved rfl rfl ?_ ?_)
    · simp [Program.value, Worker.value]
    · simp [Program.bulkPointers, hworker, Worker.bulks]
    · rw [List.perm_iff_count]
      intro a
      simp only [Program.packPointers, hworker, Worker.pack, List.cons_append, List.nil_append,
        List.count_cons, List.count_append]
      omega
  | false =>
    simp only [Bool.false_eq_true, if_false]
    refine .moves ?_ (hs.handed (by rw [hworker]; rfl) (by rw [hworker]; rfl) rfl)
    simp [Program.value, Worker.value, SafeQueue.enqueue, hpack]

theorem worker_matches (hs : Inv s)
    (hflow : Flow s.value.upstream s.value.reader.closed s.value.worker.seen) :
    Matches (workerStep tracer count s) (Pipeline.workerStep tracer count s.value) := by
  cases hworker : s.worker with
  | processing lines =>
    cases lines with
    | nil => exact worker_takes hs hworker
    | cons line lines =>
      cases line with
      | none => exact worker_ends hs hflow hworker
      | some bulk => exact worker_collects hs hworker
  | handing ptr lines => exact worker_hands hs hworker
  | flushing ptr => exact worker_flushes hs hworker
  | returning =>
    simp only [workerStep, hworker, Pipeline.workerStep, Program.value, Worker.value]
    refine .moves ?_ (hs.moved rfl rfl ?_ ?_)
    · simp [Program.value, Worker.value, SafeQueue.enqueue]
    · simp [Program.bulkPointers, hworker, Worker.bulks, List.reduceOption_append]
    · simp [Program.packPointers, hworker, Worker.pack]
  | ending =>
    simp only [workerStep, hworker, Pipeline.workerStep, Program.value, Worker.value]
    refine .moves ?_ (hs.moved rfl rfl ?_ ?_)
    · simp [Program.value, Worker.value, SafeQueue.enqueue]
    · simp [Program.bulkPointers, hworker, Worker.bulks]
    · simp [Program.packPointers, hworker, Worker.pack, List.reduceOption_append]
  | stopping =>
    simp only [workerStep, hworker, Pipeline.workerStep, Program.value, Worker.value]
    refine .moves ?_ (hs.moved rfl rfl ?_ ?_)
    · simp [Program.value, Worker.value]
    · simp [Program.bulkPointers, hworker, Worker.bulks]
    · simp [Program.packPointers, hworker, Worker.pack]
  | returned =>
    simp only [workerStep, hworker, Pipeline.workerStep, Program.value, Worker.value]
    exact .waits

theorem sender_takes {throws : Bool} (hs : Inv s) (hsender : s.sender = .sending []) :
    Matches (senderStep count throws s) (SensorRun.senderStep count throws s.value) := by
  have hat : s.value.sender.at_ = .sending [] := by
    rw [Program.value, hsender, senderValue, Heap.read_nil]
  have hqueue : s.value._result_queue = ⟨s.packs.read s._result_queue.q⟩ := rfl
  simp only [senderStep, hsender, SensorRun.senderStep, hat, hqueue, wait_dequeue_bulk_read,
    Option.map_map]
  cases hdequeue : s._result_queue.wait_dequeue_bulk count with
  | none => exact .waits
  | some items =>
    obtain ⟨events, queue⟩ := items
    have hitems := SafeQueue.wait_dequeue_bulk_queue hdequeue
    refine .moves rfl (hs.moved rfl rfl (.refl _) ?_)
    simp [Program.packPointers, hsender, senderHeld, hitems, List.reduceOption_append]

theorem sender_dispatches {throws : Bool} {current : Address} {events : List (Option Address)}
    (hs : Inv s) (hsender : s.sender = .sending (some current :: events)) :
    Matches (senderStep count throws s) (SensorRun.senderStep count throws s.value) := by
  have hat : s.value.sender.at_ = .sending (s.packs.read (some current :: events)) := by
    rw [Program.value, hsender, senderValue]
  have hcurrent : current ∈ s.__data :: (s.packPointers ++ s.lost) := by
    simp [Program.packPointers, hsender, senderHeld]
  obtain ⟨pack, hpack⟩ := hs.packs.deref hcurrent
  simp only [senderStep, hsender, SensorRun.senderStep, hat, Heap.read_some, hpack, through,
    SendStream.Sender.step, Option.map_some, Lib.Outcome.ok_bind]
  cases throws with
  | true =>
    -- the whole rest of the batch goes with the pack
    simp only [if_true]
    refine .moves rfl (hs.moved rfl rfl (.refl _) ?_)
    rw [List.perm_iff_count]
    intro a
    simp only [Program.packPointers, hsender, senderHeld, List.reduceOption_cons_of_some,
      List.reduceOption_nil, List.append_nil, List.count_cons, List.count_append]
    omega
  | false =>
    simp only [Bool.false_eq_true, if_false]
    refine .moves ?_ (hs.moved rfl rfl (.refl _) ?_)
    · simp [Program.value, senderValue, packAt, hpack]
    · simp [Program.packPointers, hsender, senderHeld]

/-- The dispatched pack is deleted. -/
theorem sender_deletes {throws : Bool} {current : Address} {events : List (Option Address)}
    (hs : Inv s) (hsender : s.sender = .counting current events) :
    Matches (senderStep count throws s) (SensorRun.senderStep count throws s.value) := by
  obtain ⟨hbulks, hpacks⟩ := hs
  have hperm : (s.__data :: (s.packPointers ++ s.lost)).Perm (current :: (s.__data ::
      (s.worker.pack ++ events.reduceOption ++ s._result_queue.q.reduceOption ++ s.lost))) := by
    rw [List.perm_iff_count]
    intro a
    simp only [Program.packPointers, hsender, senderHeld, List.count_cons, List.count_append]
    omega
  have hown := hpacks.perm hperm
  obtain ⟨pack, hpack⟩ := hown.deref List.mem_cons_self
  obtain ⟨g, hdelete⟩ := hown.delete List.mem_cons_self
  have hat : s.value.sender.at_ = .counting pack (s.packs.read events) := by
    rw [Program.value, hsender, senderValue, packAt, hpack, Option.getD_some]
  simp only [senderStep, hsender, SensorRun.senderStep, hat, hpack, hdelete, through,
    SendStream.Sender.step, Option.map_some, Lib.Outcome.ok_bind]
  have hsame := hown.same_delete hdelete
  refine .moves ?_ ⟨hbulks, hown.after_delete hdelete⟩
  have hleft := value_congr (s := { s with
      _sender_watch := s._sender_watch.add pack.length
      sender := .sending events }) (h := s.bulks) (g := g) (fun _ _ => rfl)
    fun a ha => hsame a (List.mem_cons_of_mem _ (List.mem_append_left _ ha))
  have hdata : packAt g s.__data = packAt s.packs s.__data := by
    rw [packAt, hsame _ List.mem_cons_self, packAt]
  rw [hdata] at hleft
  exact hleft

theorem sender_matches {throws : Bool} (hs : Inv s) :
    Matches (senderStep count throws s) (SensorRun.senderStep count throws s.value) := by
  cases hsender : s.sender with
  | sending events =>
    cases events with
    | nil => exact sender_takes hs hsender
    | cons event events =>
      cases event with
      | some current => exact sender_dispatches hs hsender
      | none =>
        have hat : s.value.sender.at_ = .sending (s.packs.read (none :: events)) := by
          rw [Program.value, hsender, senderValue]
        simp only [senderStep, hsender, SensorRun.senderStep, hat, Heap.read_none,
          SendStream.Sender.step, Option.map_some]
        refine .moves rfl (hs.moved rfl rfl (.refl _) ?_)
        rw [List.perm_iff_count]
        intro a
        simp only [Program.packPointers, hsender, senderHeld, List.reduceOption_cons_of_none,
          List.append_nil, List.count_cons, List.count_append]
        omega
  | counting current events => exact sender_deletes hs hsender
  | stopping =>
    simp only [senderStep, hsender, SensorRun.senderStep, Program.value, senderValue,
      SendStream.Sender.step, Option.map_some]
    exact .moves rfl (hs.moved rfl rfl (.refl _) (by simp [Program.packPointers, hsender, senderHeld]))
  | finishing =>
    simp only [senderStep, hsender, SensorRun.senderStep, Program.value, senderValue,
      SendStream.Sender.step, Option.map_some]
    exact .moves rfl (hs.moved rfl rfl (.refl _) (by simp [Program.packPointers, hsender, senderHeld]))
  | returned =>
    simp only [senderStep, hsender, SensorRun.senderStep, Program.value, senderValue,
      SendStream.Sender.step, Option.map_none]
    exact .waits

end

/- The main thread touches none of the objects, and is left where it starts. -/
def Program.run (s : Program β ρ) : SensorRun.Run β ρ := { threads := s.value }

section
variable {tracer : Tracer β ρ} {logging : Bool} {bulks : List β} {s t : Program β ρ}

theorem Matches.run {below : Option (Except Address (Program β ρ))} {above : Option (Threads β ρ)}
    (h : Matches below above) :
    below.map (Except.map Program.run) = (above.map fun threads => ({ threads } : SensorRun.Run β ρ)).map .ok ∧
      ∀ t, below = some (.ok t) → Inv t := by
  cases h with
  | waits => simp
  | moves hvalue hinv =>
    refine ⟨by simp [Except.map, Program.run, hvalue], ?_⟩
    intro t ht
    simp only [Option.some.injEq, Except.ok.injEq] at ht
    rwa [← ht]

theorem action_matches (hs : Inv s) (hreach : (SensorRun.sensor tracer logging bulks).Reachable s.run)
    (action : Action) :
    (action.step tracer s).map (Except.map Program.run) =
        (action.shown.step tracer logging s.run).map .ok ∧
      ∀ t, action.step tracer s = some (.ok t) → Inv t := by
  cases action with
  | reader => exact (reader_matches hs).run
  | worker count =>
    obtain ⟨gone, hplain, -⟩ := SensorRun.plain_reachable hreach
    exact (worker_matches hs hplain.upstream).run
  | sender count throws => exact (sender_matches hs).run

theorem inv_init (hinit : (program tracer bulks).init s) :
    Inv s ∧ (SensorRun.sensor tracer logging bulks).init s.run := by
  obtain ⟨group, groups, hflatten, rfl⟩ := hinit
  refine ⟨⟨⟨?_, ?_⟩, ⟨?_, ?_⟩⟩, group, groups, hflatten, rfl⟩
  · simp [Program.bulkPointers, Worker.bulks, Reader.held]
  · simp [Program.bulkPointers, Worker.bulks, Reader.held, Heap.deref]
  · simp [Program.packPointers, Worker.pack, senderHeld]
  · intro a
    cases a <;> simp [Program.packPointers, Worker.pack, senderHeld, Heap.deref]

/-- The program with pointers does what the sensor does, and keeps every object in one hand. -/
theorem program_refines (tracer : Tracer β ρ) (logging : Bool) (bulks : List β) :
    (program tracer bulks).Refines (SensorRun.sensor tracer logging bulks)
      (fun s => Inv s ∧ (SensorRun.sensor tracer logging bulks).Reachable s.run) Program.run
      (fun action => some action.shown) := by
  have hmoves (action : Action) (s t : Program β ρ) (hs : Inv s)
      (hreach : (SensorRun.sensor tracer logging bulks).Reachable s.run)
      (hstep : (program tracer bulks).step action s t) :
      Inv t ∧ (SensorRun.sensor tracer logging bulks).step action.shown s.run t.run := by
    obtain ⟨heq, hinv⟩ := action_matches hs hreach action
    refine ⟨hinv t hstep.2, hstep.1, ?_⟩
    rw [hstep.2] at heq
    obtain ⟨next, hnext, hsame⟩ := Option.map_eq_some_iff.mp heq.symm
    rw [hnext, Except.ok.inj hsame]
  refine ⟨?_, ?_, ?_⟩
  · intro s hinit
    have hfirst : Inv s ∧ (SensorRun.sensor tracer logging bulks).init s.run := inv_init hinit
    exact ⟨⟨hfirst.1, [], .start hfirst.2⟩, hfirst.2⟩
  · intro action s t hs hstep
    obtain ⟨hinv, hnext⟩ := hmoves action s t hs.1 hs.2 hstep
    obtain ⟨before, hrun⟩ := hs.2
    exact ⟨hinv, (hrun.next hnext).reachable⟩
  · intro action s t hs hstep
    exact .inr ⟨action.shown, rfl, (hmoves action s t hs.1 hs.2 hstep).2⟩

end

/- The runs without an exception of `dispatch`. -/
def quietly (tracer : Tracer β ρ) (bulks : List β) : System (Program β ρ) Action :=
  (program tracer bulks).restrict fun action _ => action.shown.Quiet

/- One line, with the threads one after the other. -/
theorem oneLine_run :
    ∃ s, (quietly (Pipeline.syscallsParams Trace.SysParamsRecord.make) [Pipeline.oneLine]).Reachable
      s ∧ s.worker = .returned ∧ s.sender = .returned ∧ s.dispatched.length = 1 := by
  have hstart : (quietly (Pipeline.syscallsParams Trace.SysParamsRecord.make)
      [Pipeline.oneLine]).Reachable { reader := .reading [] [Pipeline.oneLine] [] } :=
    ⟨[], .start ⟨[Pipeline.oneLine], [], rfl, rfl⟩⟩
  have hallowed : ∀ action ∈ List.replicate 4 Action.reader ++
      List.replicate 7 (Action.worker 512) ++ List.replicate 6 (Action.sender 512 false),
      action.shown.Quiet ∧ action.shown.Allowed := by
    simp [Action.shown, SensorRun.Action.Quiet, SensorRun.Action.Allowed, BULK_CAPACITY, or_imp,
      forall_and]
  have hstep (action : Action) (s t : Program _ _)
      (hquiet : action.shown.Quiet ∧ action.shown.Allowed)
      (h : (action.step (Pipeline.syscallsParams Trace.SysParamsRecord.make) s).bind Except.toOption =
        some t) :
      (quietly (Pipeline.syscallsParams Trace.SysParamsRecord.make) [Pipeline.oneLine]).step
        action s t := by
    obtain ⟨result, hresult, hok⟩ := Option.bind_eq_some_iff.mp h
    cases result with
    | error a => cases hok
    | ok u =>
      obtain rfl := Option.some.inj hok
      exact ⟨hquiet.1, hquiet.2, hresult⟩
  have hfinished := hstart.foldlM _ _
    (fun action haction s t => hstep action s t (hallowed action haction)) rfl
  exact ⟨_, hfinished, rfl, rfl, rfl⟩

/-- Over every interleaving and with any exceptions of `dispatch`, no thread ever reads or deletes
an object that is not there, and with the objects in place of the pointers the threads do what
they do in the sensor: each step of the one is the step of the other. -/
theorem never_dangles (tracer : Tracer β ρ) (logging : Bool) (bulks : List β) {s : Program β ρ}
    (h : (program tracer bulks).Reachable s) :
    (SensorRun.sensor tracer logging bulks).Reachable s.run ∧
      ∀ action : Action, (action.step tracer s).map (Except.map Program.run) =
        (action.shown.step tracer logging s.run).map .ok := by
  obtain ⟨hinv, hreach⟩ := (program_refines tracer logging bulks).invariant h
  exact ⟨hreach, fun action => (action_matches hinv hreach action).1⟩

theorem never_dangles_oneLine :
    ∃ s : Program (Pipeline.SafeBulk Trace.SysParamsRecord.make) Trace.SysParamsRecord,
      (program (Pipeline.syscallsParams Trace.SysParamsRecord.make)
        [Pipeline.oneLine]).Reachable s ∧ s.dispatched.length = 1 ∧
      (SensorRun.sensor (Pipeline.syscallsParams Trace.SysParamsRecord.make) false
        [Pipeline.oneLine]).Reachable s.run := by
  obtain ⟨s, hreachable, -, -, hdispatched⟩ := oneLine_run
  obtain ⟨actions, hrun⟩ := hreachable
  have hprogram := hrun.unrestrict.reachable
  exact ⟨s, hprogram, hdispatched, (never_dangles _ false _ hprogram).1⟩

end SyscallSensor.Pointers
