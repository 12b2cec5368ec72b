import SyscallSensor.Lib.Progress
import SyscallSensor.SensorRun

/-! `run()` without logging comes to an end: what is left to do gets less with every step of
every thread, and the threads stop short of the end in one case only, when an exception of
`dispatch` takes the end marker with it. -/
namespace SyscallSensor.SensorRun
open Lib.EndMarked
open Lib.Transition (System)
open ReadStream (BULK_CAPACITY)
open Pipeline (Tracer Threads readerStep workerStep readerStep_move workerStep_move Reader Worker)
open SendStream (Sender At)
variable {α β ρ : Type*}

/- The items of a queue or a batch, a marker being heavier than an item. -/
def weigh (item marker : Nat) : List (Option α) → Nat
  | [] => 0
  | some _ :: q => item + weigh item marker q
  | none :: q => marker + weigh item marker q

theorem weigh_append (item marker : Nat) (q q' : List (Option α)) :
    weigh item marker (q ++ q') = weigh item marker q + weigh item marker q' := by
  induction q with
  | nil => simp [weigh]
  | cons x q ih => cases x <;> simp [weigh, ih, Nat.add_assoc]

theorem weigh_map_some (item marker : Nat) (xs : List α) :
    weigh item marker (xs.map some) = item * xs.length := by
  induction xs with
  | nil => rfl
  | cons x xs ih =>
    rw [List.map_cons, weigh, ih, List.length_cons, Nat.mul_succ, Nat.add_comm]

/- Taken out of the queue, every item is lighter by one. -/
theorem weigh_succ (item marker : Nat) (q : List (Option α)) :
    weigh (item + 1) (marker + 1) q = weigh item marker q + q.length := by
  induction q with
  | nil => rfl
  | cons x q ih =>
    cases x <;> simp only [weigh, ih, List.length_cons] <;> omega

def readerWork : Reader β → Nat
  | .reading bulks group groups =>
    6 * bulks.length + 7 * group.length + (7 * groups.flatten.length + groups.length) + 16
  | .ending => 15
  | .stopping => 1
  | .returned => 0

def workerWork : Worker β ρ → Nat
  | .processing lines => weigh 5 12 lines
  | .handing _ lines => 4 + weigh 5 12 lines
  | .flushing _ => 11
  | .returning => 7
  | .ending => 6
  | .stopping => 1
  | .returned => 0

/- The queue in front of the worker, as long as it may take something out of it. -/
def streamWork (q : List (Option β)) : Worker β ρ → Nat
  | .processing _ | .handing _ _ => weigh 6 13 q
  | _ => 0

def senderWork : At (List ρ) → Nat
  | .sending events => weigh 2 3 events
  | .counting _ events => 1 + weigh 2 3 events
  | .stopping => 2
  | .finishing => 1
  | .returned => 0

def threadsWork (s : Threads β ρ) : Nat :=
  readerWork s.reader + workerWork s.worker + streamWork s._stream_queue.q s.worker +
    senderWork s.sender.at_ + weigh 3 4 s._result_queue.q

/- The steps of the main thread that joins the others. -/
def mainWork : Main → Nat
  | .filtering => 5
  | .joiningReader => 4
  | .joiningSender => 3
  | .joiningWorker => 2
  | .clearing => 1
  | _ => 0

/-- What is left to do of a run. -/
def work (s : Run β ρ) : Nat := threadsWork s.threads + mainWork s.main

section
variable {tracer : Tracer β ρ} {s t : Threads β ρ} {count : Nat}

theorem streamWork_append_le (q q' : List (Option β)) (worker : Worker β ρ) :
    streamWork (q ++ q') worker ≤ streamWork q worker + weigh 6 13 q' := by
  cases worker <;> simp [streamWork, weigh_append]

theorem readerWork_next (groups : List (List β)) :
    readerWork (Reader.next groups) + 1 = 7 * groups.flatten.length + groups.length + 16 := by
  cases groups with
  | nil => rfl
  | cons group groups =>
    simp only [Reader.next, readerWork, List.flatten_cons, List.length_append, List.length_cons,
      List.length_nil]
    omega

theorem reader_work (h : readerStep tracer s = some t) : threadsWork t < threadsWork s := by
  unfold threadsWork
  cases readerStep_move h with
  | made hreader =>
    simp only [hreader, readerWork, List.length_append, List.length_cons, List.length_nil]
    omega
  | @enqueued bulks groups hreader =>
    have hqueue := streamWork_append_le s._stream_queue.q (bulks.map some) s.worker
    have hnext := readerWork_next groups
    have hreading : readerWork (.reading bulks [] groups) =
        6 * bulks.length + 7 * 0 + (7 * groups.flatten.length + groups.length) + 16 := rfl
    rw [weigh_map_some] at hqueue
    simp only [hreader, hreading, SafeQueue.enqueue_bulk_q]
    omega
  | ended hreader =>
    have hqueue := streamWork_append_le s._stream_queue.q [none] s.worker
    simp only [hreader, readerWork, SafeQueue.enqueue_q, weigh] at hqueue ⊢
    omega
  | stopped hreader =>
    simp only [hreader, readerWork]
    omega

/- A `wait_dequeue_bulk` that returns makes at least one item lighter. -/
theorem dequeue_work {queue queue' : SafeQueue (Option α)} {items : List (Option α)}
    (hcount : 1 ≤ count) (item marker : Nat)
    (h : queue.wait_dequeue_bulk count = some (items, queue')) :
    weigh item marker items + weigh (item + 1) (marker + 1) queue'.q <
      weigh (item + 1) (marker + 1) queue.q := by
  obtain ⟨hne, hlength⟩ := SafeQueue.wait_dequeue_bulk_length h
  have hitems : 0 < items.length := by
    rw [hlength]
    exact Nat.lt_min.mpr ⟨hcount, List.length_pos_iff.mpr hne⟩
  have hitem := weigh_succ item marker items
  rw [SafeQueue.wait_dequeue_bulk_queue h, weigh_append]
  omega

theorem worker_work (hcount : 1 ≤ count) (h : workerStep tracer count s = some t) :
    threadsWork t < threadsWork s := by
  unfold threadsWork
  by_cases hwaiting : s.worker = .processing []
  · simp only [workerStep, hwaiting, Option.map_eq_some_iff] at h
    obtain ⟨⟨lines, queue⟩, hdequeue, rfl⟩ := h
    have hless : weigh 5 12 lines + weigh 6 13 queue.q < weigh 6 13 s._stream_queue.q :=
      dequeue_work hcount 5 12 hdequeue
    simp only [hwaiting, workerWork, streamWork, weigh]
    omega
  cases workerStep_move h with
  | dequeued hworker => exact absurd hworker hwaiting
  | collected hworker | packed hworker | marked hworker | handed hworker | skipped hworker
  | flushed hworker | released hworker | closed hworker | stopped hworker =>
    simp only [hworker, workerWork, streamWork, weigh, weigh_append, SafeQueue.enqueue_q]
    omega

/- An exception only drops what was left of the batch. -/
theorem sender_work {throws : Bool} (hcount : 1 ≤ count)
    (h : senderStep count throws s = some t) : threadsWork t < threadsWork s := by
  unfold threadsWork
  cases senderStep_move h with
  | @dequeued _ events queue hat hdequeue =>
    have hless : weigh 2 3 events + weigh 3 4 queue.q < weigh 3 4 s._result_queue.q :=
      dequeue_work hcount 2 3 hdequeue
    simp only [hat, senderWork, weigh]
    omega
  | dispatched hat | threw hat | counted hat | marked hat | stopped hat | finished hat =>
    simp only [hat, senderWork, weigh]
    omega

theorem main_work {outcome : Outcome} {main main' : Main} (hk : Knows false s main)
    (h : mainStep false outcome s main = some main') : mainWork main' < mainWork main := by
  cases main with
  | filtering =>
    obtain rfl := Option.some.inj h
    decide
  | joiningReader =>
    cases hreader : s.reader <;> simp [mainStep, hreader] at h
    rw [← h]
    decide
  | joiningSender =>
    cases hat : s.sender.at_ <;> simp [mainStep, hat] at h
    rw [← h]
    decide
  | joiningWorker =>
    cases hworker : s.worker <;> simp [mainStep, hworker] at h
    rw [← h]
    decide
  | clearing =>
    obtain rfl := Option.some.inj h
    decide
  | returned => cases h
  | summarizing => cases hk.1
  | listening | polling | reporting | checking => cases hk

end

def markers (q : List (Option α)) : Nat := weigh 0 1 q

@[simp] theorem markers_nil : markers ([] : List (Option α)) = 0 := rfl

@[simp] theorem markers_some (x : α) (q : List (Option α)) :
    markers (some x :: q) = markers q := Nat.zero_add _

@[simp] theorem markers_none (q : List (Option α)) : markers (none :: q) = 1 + markers q := rfl

@[simp] theorem markers_append (q q' : List (Option α)) :
    markers (q ++ q') = markers q + markers q' :=
  weigh_append 0 1 q q'

theorem markers_pos {q : List (Option α)} : 0 < markers q ↔ none ∈ q := by
  induction q with
  | nil => simp [markers, weigh]
  | cons x q ih => cases x <;> simp [ih]

/- No exception of `dispatch`. -/
def Action.Quiet : Action → Prop
  | .sender _ throws => throws = false
  | _ => True

/-- A dispatch throws while the end marker stands behind its pack in the batch. -/
def TakesMarker : Action → Run β ρ → Prop
  | .sender _ true, s =>
    ∃ current events, s.threads.sender.at_ = .sending (some current :: events) ∧ none ∈ events
  | _, _ => False

/- The worker has sent the marker, and it is neither under way nor seen by the sender. -/
structure Lost (s : Threads β ρ) : Prop where
  sent : s.worker.closed = true
  unseen : Pipeline.seen s.sender.at_ = false
  gone : markers s.downstream = 0

/-- What the threads keep about the two markers: the first arrives at the worker, and the second
is sent once. -/
structure Marks (s : Threads β ρ) : Prop where
  up : s.reader.closed = true → s.worker.seen = true ∨ none ∈ s.upstream
  down : markers s.downstream ≤ if s.worker.closed then 1 else 0

section
variable {tracer : Tracer β ρ} {s t : Threads β ρ} {count : Nat}

theorem lost_congr (hclosed : t.worker.closed = s.worker.closed)
    (hseen : Pipeline.seen t.sender.at_ = Pipeline.seen s.sender.at_)
    (hmarkers : markers t.downstream = markers s.downstream) : Lost t ↔ Lost s := by
  constructor
  · intro h
    exact ⟨hclosed ▸ h.sent, hseen ▸ h.unseen, hmarkers ▸ h.gone⟩
  · intro h
    exact ⟨hclosed ▸ h.sent, hseen ▸ h.unseen, hmarkers ▸ h.gone⟩

theorem marks_reader (h : Marks s) (hstep : readerStep tracer s = some t) :
    Marks t ∧ (Lost t ↔ Lost s) := by
  have hkeep : t.worker = s.worker ∧ t.downstream = s.downstream ∧ t.sender = s.sender := by
    cases readerStep_move hstep <;> exact ⟨rfl, rfl, rfl⟩
  obtain ⟨hworker, hdown, hsender⟩ := hkeep
  refine ⟨⟨?_, ?_⟩, lost_congr (by rw [hworker]) (by rw [hsender]) (by rw [hdown])⟩
  · intro hclosed
    rw [hworker]
    cases readerStep_move hstep with
    | made hreader => cases hclosed
    | @enqueued bulks groups hreader => cases groups <;> cases hclosed
    | ended hreader => simp [Threads.upstream]
    | stopped hreader => exact h.up (by rw [hreader]; rfl)
  · rw [hdown, hworker]
    exact h.down

/- In front of its own marker the worker only adds packs behind what is under way. -/
theorem marks_open (hopen : s.worker.closed = false) (hopen' : t.worker.closed = false)
    (hseen : Pipeline.seen t.sender.at_ = Pipeline.seen s.sender.at_)
    (hmarkers : markers t.downstream = markers s.downstream) (h : Marks s)
    (hup : t.reader.closed = true → t.worker.seen = true ∨ none ∈ t.upstream) :
    Marks t ∧ (Lost t ↔ Lost s) := by
  have hdown := h.down
  refine ⟨⟨hup, ?_⟩, lost_congr (hopen'.trans hopen.symm) hseen hmarkers⟩
  rw [hopen', hmarkers]
  rwa [hopen] at hdown

theorem marks_worker (h : Marks s) (hstep : workerStep tracer count s = some t) :
    Marks t ∧ (Lost t ↔ Lost s) := by
  have hup := h.up
  rw [Threads.upstream] at hup
  cases workerStep_move hstep with
  | dequeued hworker hqueue =>
    rw [hworker, hqueue] at hup
    exact marks_open (by rw [hworker]; rfl) rfl rfl rfl h hup
  | collected hworker hready | packed hworker hready =>
    rw [hworker] at hup
    refine marks_open (by rw [hworker]; rfl) rfl rfl rfl h ?_
    simpa [Worker.seen, Threads.upstream] using hup
  | marked hworker => exact marks_open (by rw [hworker]; rfl) rfl rfl rfl h fun _ => .inl rfl
  | handed hworker =>
    rw [hworker] at hup
    refine marks_open (by rw [hworker]; rfl) rfl rfl ?_ h hup
    simp [Threads.downstream]
  | skipped hworker => exact marks_open (by rw [hworker]; rfl) rfl rfl rfl h fun _ => .inl rfl
  | flushed hworker hne =>
    refine marks_open (by rw [hworker]; rfl) rfl rfl ?_ h fun _ => .inl rfl
    simp [Threads.downstream]
  | released hworker => exact marks_open (by rw [hworker]; rfl) rfl rfl rfl h fun _ => .inl rfl
  | closed hworker =>
    -- the only marker of the result queue
    have hdown := h.down
    simp only [hworker, Worker.closed, Bool.false_eq_true, if_false] at hdown
    have hsent : markers (Pipeline.events s.sender.at_ ++ (s._result_queue.enqueue none).q) = 1 := by
      rw [Threads.downstream, markers_append] at hdown
      simp only [SafeQueue.enqueue_q, markers_append, markers_none, markers_nil]
      omega
    refine ⟨⟨fun _ => .inl rfl, ?_⟩, ?_⟩
    · exact Nat.le_of_eq hsent
    · constructor <;> intro hlost
      · exact absurd (hlost.gone.symm.trans hsent) (by decide)
      · have hopen := hlost.sent
        rw [hworker] at hopen
        cases hopen
  | stopped hworker =>
    have hdown := h.down
    rw [hworker] at hdown
    exact ⟨⟨fun _ => .inl rfl, hdown⟩, lost_congr (by rw [hworker]; rfl) rfl rfl⟩

/- An exception leaves the rest of the batch behind, and the marker if it is there. -/
theorem marks_throw {current : List ρ} {events : List (Option (List ρ))} {main : Main}
    {sent : SendStream.Sent (List ρ)} (h : Marks s)
    (hat : s.sender.at_ = .sending (some current :: events)) :
    Marks { s with sender := { sent with at_ := .sending [] } } ∧
      (Lost { s with sender := { sent with at_ := .sending [] } } ↔
        Lost s ∨ TakesMarker (.sender count true) (⟨s, main⟩ : Run β ρ)) := by
  have hdown := h.down
  rw [Threads.downstream, markers_append, hat, Pipeline.events_sending, markers_some] at hdown
  refine ⟨⟨h.up, ?_⟩, ?_⟩
  · rw [Threads.downstream, markers_append, Pipeline.events_sending, markers_nil]
    dsimp only
    omega
  · by_cases hmem : none ∈ events
    · have hpos := markers_pos.mpr hmem
      have hclosed : s.worker.closed = true := by
        cases hclosed : s.worker.closed with
        | true => rfl
        | false => simp only [hclosed, Bool.false_eq_true, if_false] at hdown; omega
      rw [hclosed, if_pos rfl] at hdown
      have hgone : markers s._result_queue.q = 0 := by omega
      exact ⟨fun _ => .inr ⟨current, events, hat, hmem⟩, fun _ => ⟨hclosed, rfl, hgone⟩⟩
    · have hnone : markers events = 0 := Nat.eq_zero_of_not_pos (mt markers_pos.mp hmem)
      have hnot : ¬ TakesMarker (.sender count true) (⟨s, main⟩ : Run β ρ) := by
        simp [TakesMarker, hat, hmem]
      have hsame : Lost { s with sender := { sent with at_ := .sending [] } } ↔ Lost s :=
        lost_congr rfl (by rw [hat]; rfl) (by simp [Threads.downstream, hat, hnone])
      exact ⟨fun hlost => .inl (hsame.mp hlost), fun hor => hsame.mpr (hor.resolve_right hnot)⟩

/-- A step of the sender loses the marker exactly when an exception takes it. -/
theorem marks_sender {throws : Bool} {main : Main} (h : Marks s)
    (hstep : senderStep count throws s = some t) :
    Marks t ∧ (Lost t ↔ Lost s ∨ TakesMarker (.sender count throws) (⟨s, main⟩ : Run β ρ)) := by
  have hdown := h.down
  rw [Threads.downstream, markers_append] at hdown
  -- a step that drops nothing
  have hquiet (hup : t.reader = s.reader ∧ t.worker = s.worker ∧ t.upstream = s.upstream)
      (hseen : Pipeline.seen t.sender.at_ = Pipeline.seen s.sender.at_)
      (hmarkers : markers t.downstream = markers s.downstream)
      (hnot : ¬ TakesMarker (.sender count throws) (⟨s, main⟩ : Run β ρ)) :
      Marks t ∧ (Lost t ↔ Lost s ∨ TakesMarker (.sender count throws) (⟨s, main⟩ : Run β ρ)) := by
    obtain ⟨hreader, hworker, hupstream⟩ := hup
    refine ⟨⟨?_, ?_⟩, ?_⟩
    · rw [hreader, hworker, hupstream]
      exact h.up
    · rw [hmarkers, hworker]
      exact h.down
    · rw [lost_congr (by rw [hworker]) hseen hmarkers]
      exact ⟨.inl, fun hor => hor.resolve_right hnot⟩
  cases senderStep_move hstep with
  | dequeued hat hdequeue =>
    refine hquiet ⟨rfl, rfl, rfl⟩ ?_ ?_ ?_
    · simp [hat, Pipeline.seen]
    · simp [Threads.downstream, hat, SafeQueue.wait_dequeue_bulk_queue hdequeue]
    · cases throws <;> simp [TakesMarker, hat]
  | dispatched hat =>
    refine hquiet ⟨rfl, rfl, rfl⟩ ?_ ?_ ?_
    · simp [hat, Pipeline.seen]
    · simp [Threads.downstream, hat]
    · simp [TakesMarker]
  | threw hat => exact marks_throw h hat
  | marked hat =>
    rw [hat, Pipeline.events_sending, markers_none] at hdown
    refine ⟨⟨h.up, ?_⟩, ?_⟩
    · rw [Threads.downstream, markers_append, Pipeline.events_stopping, markers_nil]
      dsimp only
      omega
    · have hlost : ¬ Lost s := by
        intro hlost
        have hgone := hlost.gone
        rw [Threads.downstream, markers_append, hat, Pipeline.events_sending, markers_none] at hgone
        omega
      have hnot : ¬ TakesMarker (.sender count throws) (⟨s, main⟩ : Run β ρ) := by
        cases throws <;> simp [TakesMarker, hat]
      constructor
      · intro hnext
        cases hnext.unseen
      · intro hor
        exact absurd hor (not_or.mpr ⟨hlost, hnot⟩)
  | counted hat | stopped hat | finished hat =>
    refine hquiet ⟨rfl, rfl, rfl⟩ ?_ ?_ ?_
    · simp [hat, Pipeline.seen]
    · simp [Threads.downstream, hat]
    · cases throws <;> simp [TakesMarker, hat]

end

section
variable {tracer : Tracer β ρ} {s : Threads β ρ}

/- Who cannot move has returned, or waits for an item. -/
theorem reader_none (h : readerStep tracer s = none) : s.reader = .returned := by
  cases hreader : s.reader with
  | returned => rfl
  | reading bulks group groups => cases group <;> simp [readerStep, hreader] at h
  | ending | stopping => simp [readerStep, hreader] at h

theorem dequeue_none {queue : SafeQueue α} {count : Nat}
    (h : queue.wait_dequeue_bulk count = none) : queue.q = [] := by
  cases hq : queue.q with
  | nil => rfl
  | cons x q => simp [SafeQueue.wait_dequeue_bulk, hq] at h

theorem worker_none (h : workerStep tracer 1 s = none) :
    s.worker = .returned ∨ (s.worker = .processing [] ∧ s._stream_queue.q = []) := by
  cases hworker : s.worker with
  | returned => exact .inl rfl
  | processing lines =>
    cases lines with
    | nil =>
      simp only [workerStep, hworker, Option.map_eq_none_iff] at h
      exact .inr ⟨rfl, dequeue_none h⟩
    | cons item lines =>
      cases item with
      | none => simp [workerStep, hworker] at h
      | some bulk =>
        simp only [workerStep, hworker] at h
        split at h <;> cases h
  | flushing ptr => cases ptr <;> simp [workerStep, hworker] at h
  | handing ptr lines => simp [workerStep, hworker] at h
  | returning | ending | stopping => simp [workerStep, hworker] at h

theorem sender_none (h : senderStep 1 false s = none) :
    s.sender.at_ = .returned ∨ (s.sender.at_ = .sending [] ∧ s._result_queue.q = []) := by
  cases hat : s.sender.at_ with
  | returned => exact .inl rfl
  | sending events =>
    cases events with
    | nil =>
      simp only [senderStep, hat, Option.map_eq_none_iff] at h
      exact .inr ⟨rfl, dequeue_none h⟩
    | cons event events => cases event <;> simp [senderStep, hat, Sender.step] at h
  | counting current events => simp [senderStep, hat, Sender.step] at h
  | stopping | finishing => simp [senderStep, hat, Sender.step] at h

/- The main thread only waits in a `join()`. -/
theorem main_none {main : Main} (hk : Knows false s main) (hreader : s.reader = .returned)
    (hworker : s.worker = .returned) (h : mainStep false .ok s main = none) :
    main = .returned ∨ s.sender.at_ ≠ .returned := by
  cases main with
  | returned => exact .inl rfl
  | joiningSender =>
    right
    intro hat
    simp [mainStep, hat] at h
  | joiningReader => simp [mainStep, hreader] at h
  | joiningWorker => simp [mainStep, hworker] at h
  | filtering | clearing => cases h
  | summarizing => cases hk.1
  | listening | polling | reporting | checking => cases hk

end

section
variable {tracer : Tracer β ρ} {bulks : List β} {s t : Run β ρ} {action : Action}
  {actions : List Action}

theorem work_step (hinv : Inv false s) (h : (sensor tracer false bulks).step action s t) :
    work t < work s := by
  obtain ⟨hallowed, hstep⟩ := h
  unfold work
  cases action with
  | reader =>
    obtain ⟨threads, hthread, rfl⟩ := Option.map_eq_some_iff.mp hstep
    have hless := reader_work hthread
    dsimp only
    omega
  | worker count =>
    obtain ⟨threads, hthread, rfl⟩ := Option.map_eq_some_iff.mp hstep
    have hless := worker_work hallowed.1 hthread
    dsimp only
    omega
  | sender count throws =>
    obtain ⟨threads, hthread, rfl⟩ := Option.map_eq_some_iff.mp hstep
    have hless := sender_work hallowed.1 hthread
    dsimp only
    omega
  | main outcome =>
    obtain ⟨main, hmain, rfl⟩ := Option.map_eq_some_iff.mp hstep
    have hless := main_work hinv.knows hmain
    dsimp only
    omega

theorem work_measure (tracer : Tracer β ρ) (bulks : List β) :
    (sensor tracer false bulks).Measure (Inv false) work where
  init _ hinit := (inv_init hinit).1
  keep _ _ _ hinv hstep := inv_step hinv hstep.2
  less _ _ _ hinv hstep := work_step hinv hstep

theorem work_init {group : List β} {groups : List (List β)}
    (h : (group :: groups).flatten = bulks) :
    work (started group groups : Run β ρ) = 7 * bulks.length + groups.length + 21 := by
  rw [← h, List.flatten_cons, List.length_append]
  simp only [started, work, threadsWork, readerWork, workerWork, streamWork, senderWork, mainWork, weigh,
    List.length_nil]
  omega

theorem marks_step (h : Marks s.threads) (hstep : action.step tracer false s = some t) :
    Marks t.threads ∧ (Lost t.threads ↔ Lost s.threads ∨ TakesMarker action s) := by
  cases action with
  | reader =>
    obtain ⟨threads, hthread, rfl⟩ := Option.map_eq_some_iff.mp hstep
    obtain ⟨hmarks, hlost⟩ := marks_reader h hthread
    exact ⟨hmarks, hlost.trans (or_false _).symm.to_iff⟩
  | worker count =>
    obtain ⟨threads, hthread, rfl⟩ := Option.map_eq_some_iff.mp hstep
    obtain ⟨hmarks, hlost⟩ := marks_worker h hthread
    exact ⟨hmarks, hlost.trans (or_false _).symm.to_iff⟩
  | sender count throws =>
    obtain ⟨threads, hthread, rfl⟩ := Option.map_eq_some_iff.mp hstep
    exact marks_sender h hthread
  | main outcome =>
    obtain ⟨main, -, rfl⟩ := Option.map_eq_some_iff.mp hstep
    exact ⟨h, (or_false _).symm.to_iff⟩

theorem marks_init (hinit : (sensor tracer false bulks).init s) :
    Marks s.threads ∧ ¬ Lost s.threads := by
  obtain ⟨group, groups, -, rfl⟩ := hinit
  refine ⟨⟨?_, ?_⟩, ?_⟩
  · intro hclosed
    cases hclosed
  · simp [started, Threads.downstream]
  · intro hlost
    cases hlost.sent

theorem marks_reachable (h : (sensor tracer false bulks).Reachable s) : Marks s.threads :=
  h.invariant (I := fun s => Marks s.threads) (fun _ hinit => (marks_init hinit).1)
    fun _ _ _ hmarks hstep => (marks_step hmarks hstep.2).1

/-- The marker is lost at the end of a run exactly when a step of it has taken it. -/
theorem lost_iff (h : (sensor tracer false bulks).Run actions s) :
    ¬ Lost s.threads ↔ ((sensor tracer false bulks).restrict
      fun action s => ¬ TakesMarker action s).Run actions s :=
  h.whole_iff (fun s => Lost s.threads) (fun _ hinit => (marks_init hinit).2)
    fun _ _ _ hreach hstep => (marks_step (marks_reachable hreach) hstep.2).2

theorem stuck_none (hstuck : (sensor tracer false bulks).Stuck s) (hallowed : action.Allowed) :
    action.step tracer false s = none :=
  Option.eq_none_iff_forall_ne_some.mpr fun t hstep => hstuck action t ⟨hallowed, hstep⟩

/-- Where no thread can move, the reader and the worker have returned; the sender has too, unless
the marker is lost. -/
theorem stuck_threads (hreach : (sensor tracer false bulks).Reachable s)
    (hnone : ∀ action : Action, action.Allowed → action.Quiet → action.step tracer false s = none) :
    s.threads.reader = .returned ∧ s.threads.worker = .returned ∧
      (s.threads.sender.at_ = .returned ↔ ¬ Lost s.threads) := by
  have hmarks := marks_reachable hreach
  have hone : 1 ≤ 1 ∧ 1 ≤ BULK_CAPACITY := by decide
  have hreader := reader_none (Option.map_eq_none_iff.mp (hnone .reader trivial trivial))
  have hworker : s.threads.worker = .returned := by
    cases worker_none (Option.map_eq_none_iff.mp (hnone (.worker 1) hone trivial)) with
    | inl hworker => exact hworker
    | inr hwaits =>
      -- the reader's marker is still under way
      have hup := hmarks.up (by rw [hreader]; rfl)
      simp [hwaits, Threads.upstream, Worker.seen] at hup
  refine ⟨hreader, hworker, ?_⟩
  cases sender_none (Option.map_eq_none_iff.mp (hnone (.sender 1 false) hone rfl)) with
  | inl hat =>
    refine ⟨fun _ hlost => ?_, fun _ => hat⟩
    have hunseen := hlost.unseen
    rw [hat] at hunseen
    cases hunseen
  | inr hwaits =>
    have hlost : Lost s.threads :=
      ⟨by rw [hworker]; rfl, by rw [hwaits.1]; rfl, by simp [Threads.downstream, hwaits]⟩
    refine ⟨fun hat => ?_, fun hnot => absurd hlost hnot⟩
    rw [hwaits.1] at hat
    cases hat

/- Then the main thread has returned as well, or waits for the sender. -/
theorem stuck_returns (hreach : (sensor tracer false bulks).Reachable s)
    (hstuck : (sensor tracer false bulks).Stuck s) :
    s.threads.reader = .returned ∧ s.threads.worker = .returned ∧
      (s.main = .returned ↔ ¬ Lost s.threads) := by
  have hinv := inv_reachable hreach
  obtain ⟨hreader, hworker, hsender⟩ :=
    stuck_threads hreach fun action hallowed _ => stuck_none hstuck hallowed
  refine ⟨hreader, hworker, ?_⟩
  rw [← hsender]
  constructor
  · intro hmain
    have hknows := hinv.knows
    rw [hmain] at hknows
    cases hknows with
    | inl hjoined => exact hjoined.2.2.2
    | inr hpolled => cases hpolled.1
  · intro hat
    have hmain := Option.map_eq_none_iff.mp (stuck_none hstuck (show (Action.main .ok).Allowed from trivial))
    exact (main_none hinv.knows hreader hworker hmain).resolve_right fun hnot => hnot hat

end

/-- Every run of `run(false)` is bounded by the bulks and the groups that its reader starts with,
and goes on to a state in which no thread can move. -/
theorem run_bounded (tracer : Tracer β ρ) {group : List β} {groups : List (List β)}
    {bulks : List β} (hbulks : (group :: groups).flatten = bulks) {actions : List Action}
    {s : Run β ρ}
    (h : ((sensor tracer false bulks).startingIn (started group groups)).Run actions s) :
    actions.length + work s ≤ 7 * bulks.length + groups.length + 21 ∧
      ∃ t, (sensor tracer false bulks).Leads s t ∧ (sensor tracer false bulks).Stuck t := by
  have hmeasure := work_measure tracer bulks
  have hstart : (sensor tracer false bulks).init (started group groups) := ⟨group, groups, hbulks, rfl⟩
  constructor
  · rw [← work_init hbulks]
    exact hmeasure.run_length_le hstart h
  · exact hmeasure.leads_stuck (inv_reachable (h.of_startingIn hstart).reachable)

/- Every run starts with some groups of its bulks. -/
theorem run_started {tracer : Tracer β ρ} {logging : Bool} {bulks : List β} {actions : List Action}
    {s : Run β ρ} (h : (sensor tracer logging bulks).Run actions s) :
    ∃ group groups, (group :: groups).flatten = bulks ∧
      ((sensor tracer logging bulks).startingIn (started group groups)).Run actions s := by
  obtain ⟨start, ⟨group, groups, hbulks, rfl⟩, hrun⟩ := h.startingIn
  exact ⟨group, groups, hbulks, hrun⟩

/- One line, whose pack throws with the marker behind it in the batch. -/
def markerTaken : List Action :=
  List.replicate 4 .reader ++ List.replicate 7 (.worker 512) ++ [.sender 512 false, .sender 512 true] ++
    List.replicate 2 (.main .ok)

theorem markerTaken_run :
    ∃ s : Run (Pipeline.SafeBulk Trace.SysParamsRecord.make) Trace.SysParamsRecord,
      ((sensor (Pipeline.syscallsParams Trace.SysParamsRecord.make) false
        [Pipeline.oneLine]).startingIn (started [Pipeline.oneLine] [])).Run markerTaken s ∧
        s.threads.reader = .returned ∧ s.threads.worker = .returned ∧
        s.threads.sender.at_ = .sending [] ∧ s.threads._result_queue.q = [] ∧
        s.main = .joiningSender := by
  have hstart : ((sensor (Pipeline.syscallsParams Trace.SysParamsRecord.make) false
      [Pipeline.oneLine]).startingIn (started [Pipeline.oneLine] [])).Run []
      (started [Pipeline.oneLine] []) := .start rfl
  have hallowed : ∀ action ∈ markerTaken, action.Allowed := by
    simp [markerTaken, Action.Allowed, BULK_CAPACITY, or_imp, forall_and]
  have hrun := hstart.foldlM (fun s action => action.step _ false s) markerTaken
    (fun action haction s t hstep => ⟨hallowed action haction, hstep⟩) rfl
  exact ⟨_, hrun, rfl, rfl, rfl, rfl, rfl⟩

/-- These 15 steps are bounded by 7 for the bulk and 21. -/
theorem run_bounded_markerTaken :
    ∃ s t : Run (Pipeline.SafeBulk Trace.SysParamsRecord.make) Trace.SysParamsRecord,
      ((sensor (Pipeline.syscallsParams Trace.SysParamsRecord.make) false
        [Pipeline.oneLine]).startingIn (started [Pipeline.oneLine] [])).Run markerTaken s ∧
        markerTaken.length = 15 ∧ markerTaken.length + work s ≤ 28 ∧
        (sensor (Pipeline.syscallsParams Trace.SysParamsRecord.make) false
          [Pipeline.oneLine]).Leads s t ∧
        (sensor (Pipeline.syscallsParams Trace.SysParamsRecord.make) false
          [Pipeline.oneLine]).Stuck t := by
  obtain ⟨s, hrun, -⟩ := markerTaken_run
  obtain ⟨hlength, t, hleads, hstuck⟩ := run_bounded _ rfl hrun
  exact ⟨s, t, hrun, rfl, hlength, hleads, hstuck⟩

/-- Where it can go no further, `run(false)` has returned exactly when no exception of `dispatch`
has taken the end marker with it; the reader and the worker have returned in any case. -/
theorem returns_iff (tracer : Tracer β ρ) (bulks : List β) {actions : List Action} {s : Run β ρ}
    (h : (sensor tracer false bulks).Run actions s)
    (hstuck : (sensor tracer false bulks).Stuck s) :
    s.threads.reader = .returned ∧ s.threads.worker = .returned ∧
      (s.main = .returned ↔ ((sensor tracer false bulks).restrict
        fun action s => ¬ TakesMarker action s).Run actions s) := by
  obtain ⟨hreader, hworker, hmain⟩ := stuck_returns h.reachable hstuck
  exact ⟨hreader, hworker, hmain.trans (lost_iff h)⟩

theorem waits_stuck {tracer : Tracer β ρ} {bulks : List β} {s : Run β ρ}
    (hreader : s.threads.reader = .returned) (hworker : s.threads.worker = .returned)
    (hat : s.threads.sender.at_ = .sending []) (hqueue : s.threads._result_queue.q = [])
    (hmain : s.main = .joiningSender) : (sensor tracer false bulks).Stuck s := by
  intro action t hstep
  have hnone := hstep.2
  cases action with
  | reader => simp [Action.step, readerStep, hreader] at hnone
  | worker count => simp [Action.step, workerStep, hworker] at hnone
  | sender count throws =>
    simp [Action.step, senderStep, hat, SafeQueue.wait_dequeue_bulk, hqueue] at hnone
  | main outcome => simp [Action.step, mainStep, hmain, hat] at hnone

/-- There the main thread waits for the sender, and the sender for a marker. -/
theorem returns_markerTaken :
    ∃ s : Run (Pipeline.SafeBulk Trace.SysParamsRecord.make) Trace.SysParamsRecord,
      s.main = .joiningSender ∧ ¬ ((sensor (Pipeline.syscallsParams Trace.SysParamsRecord.make) false
        [Pipeline.oneLine]).restrict fun action s => ¬ TakesMarker action s).Run markerTaken s := by
  obtain ⟨s, hrun, hreader, hworker, hat, hqueue, hmain⟩ := markerTaken_run
  have hends := returns_iff _ _ (hrun.of_startingIn ⟨[Pipeline.oneLine], [], rfl, rfl⟩)
    (waits_stuck hreader hworker hat hqueue hmain)
  refine ⟨s, hmain, fun hkept => ?_⟩
  have hreturned := hends.2.2.mpr hkept
  rw [hmain] at hreturned
  cases hreturned

end SyscallSensor.SensorRun
