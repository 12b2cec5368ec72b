import SyscallSensor.EndToEnd
import SyscallSensor.Monitor
import SyscallSensor.Lib.Refinement

/-! The threads of the sensor over queues that are monitors: a call of a queue takes its mutex,
may sleep on its condition variable and wake up for nothing, and any step of the others may come
in between. -/
namespace SyscallSensor.LockedRun
open Lib.Transition (System)
open ReadStream (BULK_CAPACITY)
open Monitor (Op Position Change)
open Pipeline (Tracer Threads)
open SensorRun (Run)
variable {β ρ : Type*} {T : Type*}

/- The threads that call the queues. -/
inductive Thread where
  | reader
  | worker
  | sender
deriving DecidableEq, Repr

/- A call of `_stream_queue` or of `_result_queue`. -/
inductive Call (β ρ : Type*) where
  | stream (op : Op (Option β))
  | result (op : Op (Option (List ρ)))

/-- The call that a thread stands at. -/
def Thread.call (s : Threads β ρ) : Thread → Option (Call β ρ)
  | .reader =>
    match s.reader with
    | .reading bulks [] _ => some (.stream (.enqueue_bulk (bulks.map some)))
    | .ending => some (.stream (.enqueue none))
    | _ => none
  | .worker =>
    match s.worker with
    | .processing [] => some (.stream (.wait_dequeue_bulk BULK_CAPACITY (by decide)))
    | .handing ptr _ => some (.result (.enqueue (some ptr)))
    | .flushing (r :: ptr) => some (.result (.enqueue (some (r :: ptr))))
    | .returning => some (.stream (.enqueue none))
    | .ending => some (.result (.enqueue none))
    | _ => none
  | .sender =>
    match s.sender.at_ with
    | .sending [] => some (.result (.wait_dequeue_bulk BULK_CAPACITY (by decide)))
    | _ => none

def Call.stream? : Call β ρ → Option (Op (Option β))
  | .stream op => some op
  | .result _ => none

def Call.result? : Call β ρ → Option (Op (Option (List ρ)))
  | .stream _ => none
  | .result op => some op

/- What a call does to the thread that makes it. -/
def Thread.action : Thread → SensorRun.Action
  | .reader => .reader
  | .worker => .worker BULK_CAPACITY
  | .sender => .sender BULK_CAPACITY false

def actor : SensorRun.Action → Option Thread
  | .reader => some .reader
  | .worker _ => some .worker
  | .sender _ _ => some .sender
  | .main _ => none

/- The events of `Monitor`, without the calls they are about. -/
inductive Moment where
  | call
  | lock
  | body
  | unlock
  | spurious
deriving DecidableEq, Repr

structure State (β ρ : Type*) where
  run : Run β ρ
  stream : Monitor.State Thread (Option β)
  result : Monitor.State Thread (Option (List ρ))

inductive Action where
  | plain (action : SensorRun.Action)
  | stream (i : Thread) (moment : Moment)
  | result (i : Thread) (moment : Moment)

def isIdle : Position T → Bool
  | .idle => true
  | _ => false

def isLeaving : Position T → Bool
  | .leaving _ _ => true
  | _ => false

/-- A step of a queue, and whether it has run the body of a call to its end. -/
def queueStep (i : Thread) (call : Option (Op T)) (moment : Moment) (m : Monitor.State Thread T) :
    Option (Monitor.State Thread T × Bool) :=
  match moment with
  | .call => call.bind fun op => (Monitor.step i (.call op) m).map (·, false)
  | .lock => (Monitor.step i .lock m).map (·, false)
  | .body => (Monitor.step i .body m).map fun m => (m, isLeaving (m.thread i))
  | .unlock => (Monitor.step i .unlock m).map (·, false)
  | .spurious => (Monitor.step i .spurious m).map (·, false)

/- The thread of a step outside the queues is in none of them. -/
def State.free (s : State β ρ) : Option Thread → Bool
  | none => true
  | some i =>
    isIdle (s.stream.thread i) && isIdle (s.result.thread i) && (i.call s.run.threads).isNone

section
variable (tracer : Tracer β ρ) (logging : Bool)

def Action.step : Action → State β ρ → Option (State β ρ)
  | .plain action, s =>
    if s.free (actor action) then
      (action.step tracer logging s.run).map fun run => { s with run := run }
    else none
  | .stream i moment, s =>
    let call := if isIdle (s.result.thread i) then (i.call s.run.threads).bind Call.stream? else none
    (queueStep i call moment s.stream).bind fun (m, ran) =>
      (if ran then i.action.step tracer logging s.run else some s.run).map fun run =>
        { s with run := run, stream := m }
  | .result i moment, s =>
    let call := if isIdle (s.stream.thread i) then (i.call s.run.threads).bind Call.result? else none
    (queueStep i call moment s.result).bind fun (m, ran) =>
      (if ran then i.action.step tracer logging s.run else some s.run).map fun run =>
        { s with run := run, result := m }

end

def Action.Allowed : Action → Prop
  | .plain action => action.Allowed
  | _ => True

/-- All interleavings of the threads, the queues' locks and wakeups among them. -/
def locked (tracer : Tracer β ρ) (logging : Bool) (bulks : List β) : System (State β ρ) Action where
  init s := (SensorRun.sensor tracer logging bulks).init s.run ∧
    (Monitor.monitor Thread (Option β)).init s.stream ∧
    (Monitor.monitor Thread (Option (List ρ))).init s.result
  step action s t := action.Allowed ∧ action.step tracer logging s = some t

/- The step of the sensor that a step here can be. -/
def Action.shown : Action → Option SensorRun.Action
  | .plain action => some action
  | .stream i .body => some i.action
  | .result i .body => some i.action
  | _ => none

/- What a step of a queue does, with the guards it has passed. -/
inductive QueueMove (i : Thread) (call : Option (Op T)) (m : Monitor.State Thread T) :
    Moment → Monitor.State Thread T → Bool → Prop where
  | call {op : Op T} : call = some op → m.thread i = .idle →
      QueueMove i call m .call (m.move i (.locking op)) false
  | lock {op : Op T} : (m.thread i = .locking op ∨ m.thread i = .woken op) → m.owner = none →
      QueueMove i call m .lock { m.move i (.inside op) with owner := some i } false
  | finish {op : Op T} {result : List T} {queue : SafeQueue T} : m.thread i = .inside op →
      op.body m.queue = some (result, queue) →
      QueueMove i call m .body (m.finish i op result queue) true
  | park {op : Op T} : m.thread i = .inside op → op.body m.queue = none →
      QueueMove i call m .body { m.move i (.parked op) with owner := none } false
  | unlock {op : Op T} {result : List T} : m.thread i = .leaving op result →
      QueueMove i call m .unlock { m.move i .idle with owner := none } false
  | wake {op : Op T} : m.thread i = .parked op →
      QueueMove i call m .spurious (m.move i (.woken op)) false

theorem queueStep_move {i : Thread} {call : Option (Op T)} {moment : Moment} {ran : Bool}
    {m m' : Monitor.State Thread T} (h : queueStep i call moment m = some (m', ran)) :
    QueueMove i call m moment m' ran := by
  cases moment with
  | call =>
    cases call with
    | none => cases h
    | some op =>
      obtain ⟨m'', hstep, hpair⟩ := Option.map_eq_some_iff.mp h
      cases hpair
      cases hpos : m.thread i with
      | idle =>
        simp only [Monitor.step, hpos, Option.some.injEq] at hstep
        exact hstep ▸ .call rfl hpos
      | _ => simp [Monitor.step, hpos] at hstep
  | lock =>
    obtain ⟨m'', hstep, hpair⟩ := Option.map_eq_some_iff.mp h
    cases hpair
    cases hpos : m.thread i with
    | locking op =>
      simp only [Monitor.step, hpos, Option.ite_none_right_eq_some, Option.some.injEq,
        Option.isNone_iff_eq_none] at hstep
      exact hstep.2 ▸ .lock (.inl hpos) hstep.1
    | woken op =>
      simp only [Monitor.step, hpos, Option.ite_none_right_eq_some, Option.some.injEq,
        Option.isNone_iff_eq_none] at hstep
      exact hstep.2 ▸ .lock (.inr hpos) hstep.1
    | _ => simp [Monitor.step, hpos] at hstep
  | body =>
    obtain ⟨m'', hstep, hpair⟩ := Option.map_eq_some_iff.mp h
    cases hpair
    cases hpos : m.thread i with
    | inside op =>
      cases hbody : op.body m.queue with
      | none =>
        simp only [Monitor.step, hpos, hbody, Option.some.injEq] at hstep
        have hmove : QueueMove i call m .body _ _ := .park hpos hbody
        rw [← hstep]
        simpa [Monitor.State.move, isLeaving] using hmove
      | some out =>
        simp only [Monitor.step, hpos, hbody, Option.some.injEq] at hstep
        have hmove : QueueMove i call m .body _ _ := .finish hpos hbody
        rw [← hstep]
        simpa [Monitor.State.finish, isLeaving] using hmove
    | _ => simp [Monitor.step, hpos] at hstep
  | unlock =>
    obtain ⟨m'', hstep, hpair⟩ := Option.map_eq_some_iff.mp h
    cases hpair
    cases hpos : m.thread i with
    | leaving op result =>
      simp only [Monitor.step, hpos, Option.some.injEq] at hstep
      exact hstep ▸ .unlock hpos
    | _ => simp [Monitor.step, hpos] at hstep
  | spurious =>
    obtain ⟨m'', hstep, hpair⟩ := Option.map_eq_some_iff.mp h
    cases hpair
    cases hpos : m.thread i with
    | parked op =>
      simp only [Monitor.step, hpos, Option.some.injEq] at hstep
      exact hstep ▸ .wake hpos
    | _ => simp [Monitor.step, hpos] at hstep

theorem QueueMove.change {i : Thread} {call : Option (Op T)} {moment : Moment} {ran : Bool}
    {m m' : Monitor.State Thread T} (h : QueueMove i call m moment m' ran) : Change i m m' := by
  cases h with
  | @call op hcall hpos => exact .call op hpos
  | @lock op hpos howner => exact .lock op hpos howner
  | @finish op result queue hpos hbody => exact .finish op result queue hpos hbody
  | @park op hpos hbody => exact .park op hpos hbody
  | @unlock op result hpos => exact .unlock op result hpos
  | @wake op hpos => exact .wake op hpos

/- The call that a thread is in, up to its body. -/
def pending : Position T → Option (Op T)
  | .locking op | .inside op | .parked op | .woken op => some op
  | _ => none

@[simp] theorem pending_wake (position : Position T) : pending position.wake = pending position := by
  cases position <;> rfl

theorem isIdle_wake (position : Position T) : isIdle position.wake = isIdle position := by
  cases position <;> rfl

/-- A monitor as one of the queues of the sensor: it holds the items of `queue`, who is in it is
at his call, and who sleeps in it has nothing to take from an empty queue. -/
structure Tied (m : Monitor.State Thread T) (queue : SafeQueue T)
    (call : Thread → Option (Op T)) : Prop where
  queue : m.queue = queue
  correct : Monitor.Correct m
  called : ∀ i op, pending (m.thread i) = some op → call i = some op
  asleep : ∀ i op, m.thread i = .parked op → op.body ⟨[]⟩ = none

section
variable {i j : Thread} {op : Op T} {next : Option (Op T)} {call call' : Thread → Option (Op T)}
  {moment : Moment} {ran : Bool} {m m' : Monitor.State Thread T} {queue queue' : SafeQueue T}

theorem QueueMove.others (h : QueueMove i next m moment m' ran) (hj : j ≠ i) :
    pending (m'.thread j) = pending (m.thread j) := by
  cases h with
  | @finish op result queue hpos hbody =>
    simp only [Monitor.State.finish, Function.update_of_ne hj]
    split
    · exact pending_wake _
    · rfl
  | _ => simp only [Monitor.State.move, Function.update_of_ne hj]

theorem QueueMove.mine (h : QueueMove i next m moment m' ran)
    (hpending : pending (m'.thread i) = some op) :
    ran = false ∧ (next = some op ∨ pending (m.thread i) = some op) := by
  cases h with
  | call hcall hpos =>
    simp only [Monitor.State.move, Function.update_self, pending] at hpending
    exact ⟨rfl, .inl (hcall.trans hpending)⟩
  | lock hpos howner =>
    simp only [Monitor.State.move, Function.update_self, pending] at hpending
    refine ⟨rfl, .inr ?_⟩
    cases hpos with
    | inl hpos => rw [hpos, ← hpending, pending]
    | inr hpos => rw [hpos, ← hpending, pending]
  | park hpos hbody | wake hpos =>
    simp only [Monitor.State.move, Function.update_self, pending] at hpending
    exact ⟨rfl, .inr (by rw [hpos, ← hpending, pending])⟩
  | finish hpos hbody =>
    simp [Monitor.State.finish, pending] at hpending
  | unlock hpos => simp [Monitor.State.move, pending] at hpending

theorem QueueMove.asleep (h : QueueMove i next m moment m' ran)
    (hasleep : ∀ j op, m.thread j = .parked op → op.body ⟨[]⟩ = none) (j : Thread) (op : Op T)
    (hparked : m'.thread j = .parked op) : op.body ⟨[]⟩ = none := by
  by_cases hj : j = i
  · rw [hj] at hparked
    cases h with
    | park hpos hbody =>
      simp only [Monitor.State.move, Function.update_self, Position.parked.injEq] at hparked
      have hempty := Monitor.body_waits hbody
      have hqueue : m.queue = ⟨[]⟩ := congrArg SafeQueue.mk hempty
      rw [← hparked, ← hqueue]
      exact hbody
    | _ => simp [Monitor.State.move, Monitor.State.finish] at hparked
  · cases h with
    | @finish op' result queue hpos hbody =>
      simp only [Monitor.State.finish, Function.update_of_ne hj] at hparked
      split at hparked
      · exact absurd hparked (Monitor.wake_not_parked _ op)
      · exact hasleep j op hparked
    | _ =>
      simp only [Monitor.State.move, Function.update_of_ne hj] at hparked
      exact hasleep j op hparked

/-- A step of the queue itself. -/
theorem Tied.moved (h : Tied m queue call) (hmove : QueueMove i next m moment m' ran)
    (hqueue : m'.queue = queue') (hnext : ∀ op, next = some op → call i = some op)
    (hmine : ran = false → call' i = call i) (hothers : ∀ j, j ≠ i → call' j = call j) :
    Tied m' queue' call' where
  queue := hqueue
  correct := Monitor.correct_change h.correct hmove.change
  called j op hpending := by
    by_cases hj : j = i
    · rw [hj] at hpending ⊢
      obtain ⟨hran, hcall⟩ := hmove.mine hpending
      rw [hmine hran]
      exact hcall.elim (hnext op) (h.called i op)
    · rw [hmove.others hj] at hpending
      rw [hothers j hj]
      exact h.called j op hpending
  asleep := hmove.asleep h.asleep

/-- A step outside the queue, of a thread that is not in it. -/
theorem Tied.frame (h : Tied m queue call) (hidle : isIdle (m.thread i) = true)
    (hothers : ∀ j, j ≠ i → call' j = call j) : Tied m queue call' where
  queue := h.queue
  correct := h.correct
  called j op hpending := by
    by_cases hj : j = i
    · rw [hj] at hpending
      cases hpos : m.thread i with
      | idle => simp [hpos, pending] at hpending
      | _ => simp [hpos, isIdle] at hidle
    · rw [hothers j hj]
      exact h.called j op hpending
  asleep := h.asleep

end

/- A step of the sender takes a batch, or touches nothing but the sender. -/
theorem senderStep_touches {count : Nat} {throws : Bool} {s t : Threads β ρ}
    (h : SensorRun.senderStep count throws s = some t) :
    t.reader = s.reader ∧ t.worker = s.worker ∧ t._stream_queue = s._stream_queue ∧
      (s.sender.at_ ≠ .sending [] → t._result_queue = s._result_queue) := by
  cases SensorRun.senderStep_move h with
  | dequeued hat => exact ⟨rfl, rfl, rfl, fun hne => absurd hat hne⟩
  | dispatched | threw | counted | marked | stopped | finished =>
    exact ⟨rfl, rfl, rfl, fun _ => rfl⟩

section
variable {tracer : Tracer β ρ} {logging : Bool} {s t : Run β ρ} {i j : Thread}
  {action : SensorRun.Action}

theorem actor_action (i : Thread) : actor i.action = some i := by
  cases i <;> rfl

/-- A step of one thread leaves the others at their calls. -/
theorem step_others (hactor : actor action = some i)
    (hstep : action.step tracer logging s = some t) (hj : j ≠ i) :
    j.call t.threads = j.call s.threads := by
  cases action with
  | reader =>
    obtain ⟨threads, hthread, rfl⟩ := Option.map_eq_some_iff.mp hstep
    obtain rfl := Option.some.inj hactor
    have hkeep : threads.worker = s.threads.worker ∧ threads.sender = s.threads.sender := by
      cases Pipeline.readerStep_move hthread <;> exact ⟨rfl, rfl⟩
    cases j with
    | reader => exact absurd rfl hj
    | worker => simp only [Thread.call, hkeep.1]
    | sender => simp only [Thread.call, hkeep.2]
  | worker count =>
    obtain ⟨threads, hthread, rfl⟩ := Option.map_eq_some_iff.mp hstep
    obtain rfl := Option.some.inj hactor
    have hkeep : threads.reader = s.threads.reader ∧ threads.sender = s.threads.sender := by
      cases Pipeline.workerStep_move hthread <;> exact ⟨rfl, rfl⟩
    cases j with
    | reader => simp only [Thread.call, hkeep.1]
    | worker => exact absurd rfl hj
    | sender => simp only [Thread.call, hkeep.2]
  | sender count throws =>
    obtain ⟨threads, hthread, rfl⟩ := Option.map_eq_some_iff.mp hstep
    obtain rfl := Option.some.inj hactor
    have hkeep := senderStep_touches hthread
    cases j with
    | reader => simp only [Thread.call, hkeep.1]
    | worker => simp only [Thread.call, hkeep.2.1]
    | sender => exact absurd rfl hj
  | main outcome => cases hactor

/- A thread that is at no call leaves the queues alone. -/
theorem step_uncalled (hactor : actor action = some i) (hcall : i.call s.threads = none)
    (hstep : action.step tracer logging s = some t) :
    t.threads._stream_queue = s.threads._stream_queue ∧
      t.threads._result_queue = s.threads._result_queue := by
  cases action with
  | reader =>
    obtain ⟨threads, hthread, rfl⟩ := Option.map_eq_some_iff.mp hstep
    obtain rfl := Option.some.inj hactor
    cases Pipeline.readerStep_move hthread with
    | made hreader | stopped hreader => exact ⟨rfl, rfl⟩
    | enqueued hreader | ended hreader => simp [Thread.call, hreader] at hcall
  | worker count =>
    obtain ⟨threads, hthread, rfl⟩ := Option.map_eq_some_iff.mp hstep
    obtain rfl := Option.some.inj hactor
    cases Pipeline.workerStep_move hthread with
    | collected | packed | marked | skipped | stopped => exact ⟨rfl, rfl⟩
    | dequeued hworker hqueue => simp [Thread.call, hworker] at hcall
    | handed hworker | released hworker | closed hworker => simp [Thread.call, hworker] at hcall
    | @flushed ptr hworker hne =>
      cases ptr with
      | nil => exact absurd rfl hne
      | cons r ptr => simp [Thread.call, hworker] at hcall
  | sender count throws =>
    obtain ⟨threads, hthread, rfl⟩ := Option.map_eq_some_iff.mp hstep
    obtain rfl := Option.some.inj hactor
    have hkeep := senderStep_touches hthread
    refine ⟨hkeep.2.2.1, hkeep.2.2.2 ?_⟩
    intro hat
    simp [Thread.call, hat] at hcall
  | main outcome => cases hactor

end

section
variable (tracer : Tracer β ρ) (logging : Bool) {s : Run β ρ} {i : Thread}

/-- At a call of the queue of bulks, a thread does what the body of the call does. -/
theorem step_stream {op : Op (Option β)} {queue : SafeQueue (Option β)} {items : List (Option β)}
    (hcall : i.call s.threads = some (.stream op))
    (hbody : op.body s.threads._stream_queue = some (items, queue)) :
    ∃ t, i.action.step tracer logging s = some t ∧ t.threads._stream_queue = queue ∧
      t.threads._result_queue = s.threads._result_queue := by
  cases i with
  | reader =>
    cases hreader : s.threads.reader with
    | reading bulks group groups =>
      cases group with
      | nil =>
        simp only [Thread.call, hreader, Option.some.injEq, Call.stream.injEq] at hcall
        rw [← hcall] at hbody
        obtain ⟨-, rfl⟩ := Prod.mk.inj (Option.some.inj hbody)
        simp [Thread.action, SensorRun.Action.step, Pipeline.readerStep, hreader]
      | cons bulk group => simp [Thread.call, hreader] at hcall
    | ending =>
      simp only [Thread.call, hreader, Option.some.injEq, Call.stream.injEq] at hcall
      rw [← hcall] at hbody
      obtain ⟨-, rfl⟩ := Prod.mk.inj (Option.some.inj hbody)
      simp [Thread.action, SensorRun.Action.step, Pipeline.readerStep, hreader]
    | stopping | returned => simp [Thread.call, hreader] at hcall
  | worker =>
    cases hworker : s.threads.worker with
    | processing lines =>
      cases lines with
      | nil =>
        simp only [Thread.call, hworker, Option.some.injEq, Call.stream.injEq] at hcall
        rw [← hcall, Op.body] at hbody
        simp [Thread.action, SensorRun.Action.step, Pipeline.workerStep, hworker, hbody]
      | cons line lines => cases line <;> simp [Thread.call, hworker] at hcall
    | flushing ptr => cases ptr <;> simp [Thread.call, hworker] at hcall
    | returning =>
      simp only [Thread.call, hworker, Option.some.injEq, Call.stream.injEq] at hcall
      rw [← hcall] at hbody
      obtain ⟨-, rfl⟩ := Prod.mk.inj (Option.some.inj hbody)
      simp [Thread.action, SensorRun.Action.step, Pipeline.workerStep, hworker]
    | handing ptr lines | ending | stopping | returned => simp [Thread.call, hworker] at hcall
  | sender =>
    cases hat : s.threads.sender.at_ with
    | sending events => cases events <;> simp [Thread.call, hat] at hcall
    | _ => simp [Thread.call, hat] at hcall

/-- The same for the queue of packs. -/
theorem step_result {op : Op (Option (List ρ))} {queue : SafeQueue (Option (List ρ))}
    {items : List (Option (List ρ))} (hcall : i.call s.threads = some (.result op))
    (hbody : op.body s.threads._result_queue = some (items, queue)) :
    ∃ t, i.action.step tracer logging s = some t ∧ t.threads._result_queue = queue ∧
      t.threads._stream_queue = s.threads._stream_queue := by
  cases i with
  | reader =>
    cases hreader : s.threads.reader with
    | reading bulks group groups => cases group <;> simp [Thread.call, hreader] at hcall
    | _ => simp [Thread.call, hreader] at hcall
  | worker =>
    cases hworker : s.threads.worker with
    | processing lines =>
      cases lines with
      | nil => simp [Thread.call, hworker] at hcall
      | cons line lines => cases line <;> simp [Thread.call, hworker] at hcall
    | handing ptr lines =>
      simp only [Thread.call, hworker, Option.some.injEq, Call.result.injEq] at hcall
      rw [← hcall] at hbody
      obtain ⟨-, rfl⟩ := Prod.mk.inj (Option.some.inj hbody)
      simp [Thread.action, SensorRun.Action.step, Pipeline.workerStep, hworker]
    | flushing ptr =>
      cases ptr with
      | nil => simp [Thread.call, hworker] at hcall
      | cons r ptr =>
        simp only [Thread.call, hworker, Option.some.injEq, Call.result.injEq] at hcall
        rw [← hcall] at hbody
        obtain ⟨-, rfl⟩ := Prod.mk.inj (Option.some.inj hbody)
        simp [Thread.action, SensorRun.Action.step, Pipeline.workerStep, hworker]
    | ending =>
      simp only [Thread.call, hworker, Option.some.injEq, Call.result.injEq] at hcall
      rw [← hcall] at hbody
      obtain ⟨-, rfl⟩ := Prod.mk.inj (Option.some.inj hbody)
      simp [Thread.action, SensorRun.Action.step, Pipeline.workerStep, hworker]
    | returning | stopping | returned => simp [Thread.call, hworker] at hcall
  | sender =>
    cases hat : s.threads.sender.at_ with
    | sending events =>
      cases events with
      | nil =>
        simp only [Thread.call, hat, Option.some.injEq, Call.result.injEq] at hcall
        rw [← hcall, Op.body] at hbody
        simp [Thread.action, SensorRun.Action.step, SensorRun.senderStep, hat, hbody]
      | cons event events => simp [Thread.call, hat] at hcall
    | _ => simp [Thread.call, hat] at hcall


end

section
variable {i j : Thread} {next : Option (Op T)} {call : Thread → Option (Op T)}
  {moment : Moment} {ran : Bool} {m m' : Monitor.State Thread T} {queue : SafeQueue T}

theorem QueueMove.waits (h : QueueMove i next m moment m' false) : m'.queue = m.queue := by
  cases h <;> rfl

/-- A call whose body has run to its end, on the items of the queue. -/
theorem Tied.finished (h : Tied m queue call) (hmove : QueueMove i next m moment m' true) :
    moment = .body ∧ isIdle (m.thread i) = false ∧ ∃ op items, call i = some op ∧
      op.body queue = some (items, m'.queue) := by
  cases hmove with
  | @finish op items queue' hpos hbody =>
    have hcall := h.called i op (by rw [hpos, pending])
    rw [h.queue] at hbody
    exact ⟨rfl, by rw [hpos]; rfl, op, items, hcall, hbody⟩

/-- A thread that is in one queue does not get into the other. -/
theorem QueueMove.alone {other : Thread → Bool} (hmove : QueueMove i next m moment m' ran)
    (h : ∀ j, isIdle (m.thread j) = true ∨ other j = true)
    (hnext : other i = false → next = none) (j : Thread) :
    isIdle (m'.thread j) = true ∨ other j = true := by
  by_cases hj : j = i
  · rw [hj]
    cases hother : other i with
    | true => exact .inr rfl
    | false =>
      have hidle := (h i).resolve_right (by rw [hother]; decide)
      cases hmove with
      | call hcall hpos =>
        rw [hnext hother] at hcall
        cases hcall
      | lock hpos howner => cases hpos with | _ hpos => simp [hpos, isIdle] at hidle
      | finish hpos hbody | park hpos hbody => simp [hpos, isIdle] at hidle
      | unlock hpos | wake hpos => simp [hpos, isIdle] at hidle
  · have hsame : isIdle (m'.thread j) = isIdle (m.thread j) := by
      cases hmove with
      | finish hpos hbody =>
        simp only [Monitor.State.finish, Function.update_of_ne hj]
        split
        · exact isIdle_wake _
        · rfl
      | _ => simp only [Monitor.State.move, Function.update_of_ne hj]
    rw [hsame]
    exact h j

end

/- The calls of each queue. -/
def streamCall (s : Threads β ρ) (i : Thread) : Option (Op (Option β)) :=
  (i.call s).bind Call.stream?

def resultCall (s : Threads β ρ) (i : Thread) : Option (Op (Option (List ρ))) :=
  (i.call s).bind Call.result?

/-- Both queues hold what the threads have put there, and no thread is in two of them. -/
structure Inv (s : State β ρ) : Prop where
  stream : Tied s.stream s.run.threads._stream_queue (streamCall s.run.threads)
  result : Tied s.result s.run.threads._result_queue (resultCall s.run.threads)
  alone : ∀ i, isIdle (s.stream.thread i) = true ∨ isIdle (s.result.thread i) = true

section
variable {tracer : Tracer β ρ} {logging : Bool} {s t : State β ρ} {i : Thread} {moment : Moment}

theorem streamCall_eq {s : Threads β ρ} {op : Op (Option β)} (h : streamCall s i = some op) :
    i.call s = some (.stream op) := by
  obtain ⟨call, hcall, hop⟩ := Option.bind_eq_some_iff.mp h
  cases call with
  | stream op' => rw [hcall, Option.some.inj hop]
  | result op' => cases hop

theorem resultCall_eq {s : Threads β ρ} {op : Op (Option (List ρ))} (h : resultCall s i = some op) :
    i.call s = some (.result op) := by
  obtain ⟨call, hcall, hop⟩ := Option.bind_eq_some_iff.mp h
  cases call with
  | stream op' => cases hop
  | result op' => rw [hcall, Option.some.inj hop]

theorem inv_stream (h : Inv s) (hstep : (Action.stream i moment).step tracer logging s = some t) :
    Inv t ∧ (t.run = s.run ∨ moment = .body ∧ i.action.step tracer logging s.run = some t.run) := by
  obtain ⟨⟨m, ran⟩, hqueue, hmoved⟩ := Option.bind_eq_some_iff.mp hstep
  obtain ⟨run, hrun, rfl⟩ := Option.map_eq_some_iff.mp hmoved
  have hmove := queueStep_move hqueue
  have hnext (op : Op (Option β)) (hop : (if isIdle (s.result.thread i) then
      (i.call s.run.threads).bind Call.stream? else none) = some op) :
      streamCall s.run.threads i = some op := (Option.ite_none_right_eq_some.mp hop).2
  have halone := hmove.alone h.alone fun hbusy => if_neg (by rw [hbusy]; decide)
  cases ran with
  | false =>
    obtain rfl := Option.some.inj hrun
    have hstream := h.stream.moved hmove (hmove.waits.trans h.stream.queue) hnext (fun _ => rfl)
      fun _ _ => rfl
    exact ⟨⟨hstream, h.result, halone⟩, .inl rfl⟩
  | true =>
    obtain ⟨hmoment, hbusy, op, items, hcall, hbody⟩ := h.stream.finished hmove
    obtain ⟨run', hrun', hstream, hresult⟩ :=
      step_stream tracer logging (streamCall_eq hcall) hbody
    obtain rfl := Option.some.inj (hrun.symm.trans hrun')
    have hidle := (h.alone i).resolve_left (by rw [hbusy]; decide)
    have hothers (j : Thread) (hj : j ≠ i) := step_others (actor_action i) hrun' hj
    refine ⟨⟨?_, ?_, halone⟩, .inr ⟨hmoment, hrun'⟩⟩
    · exact h.stream.moved hmove hstream.symm hnext (fun hran => absurd hran (by decide))
        fun j hj => congrArg (·.bind Call.stream?) (hothers j hj)
    · rw [hresult]
      exact h.result.frame hidle fun j hj => congrArg (·.bind Call.result?) (hothers j hj)

theorem inv_result (h : Inv s) (hstep : (Action.result i moment).step tracer logging s = some t) :
    Inv t ∧ (t.run = s.run ∨ moment = .body ∧ i.action.step tracer logging s.run = some t.run) := by
  obtain ⟨⟨m, ran⟩, hqueue, hmoved⟩ := Option.bind_eq_some_iff.mp hstep
  obtain ⟨run, hrun, rfl⟩ := Option.map_eq_some_iff.mp hmoved
  have hmove := queueStep_move hqueue
  have hnext (op : Op (Option (List ρ))) (hop : (if isIdle (s.stream.thread i) then
      (i.call s.run.threads).bind Call.result? else none) = some op) :
      resultCall s.run.threads i = some op := (Option.ite_none_right_eq_some.mp hop).2
  have halone := hmove.alone (fun j => (h.alone j).symm)
    fun hbusy => if_neg (by rw [hbusy]; decide)
  cases ran with
  | false =>
    obtain rfl := Option.some.inj hrun
    have hresult := h.result.moved hmove (hmove.waits.trans h.result.queue) hnext (fun _ => rfl)
      fun _ _ => rfl
    exact ⟨⟨h.stream, hresult, fun j => (halone j).symm⟩, .inl rfl⟩
  | true =>
    obtain ⟨hmoment, hbusy, op, items, hcall, hbody⟩ := h.result.finished hmove
    obtain ⟨run', hrun', hresult, hstream⟩ :=
      step_result tracer logging (resultCall_eq hcall) hbody
    obtain rfl := Option.some.inj (hrun.symm.trans hrun')
    have hidle := (h.alone i).resolve_right (by rw [hbusy]; decide)
    have hothers (j : Thread) (hj : j ≠ i) := step_others (actor_action i) hrun' hj
    refine ⟨⟨?_, ?_, fun j => (halone j).symm⟩, .inr ⟨hmoment, hrun'⟩⟩
    · rw [hstream]
      exact h.stream.frame hidle fun j hj => congrArg (·.bind Call.stream?) (hothers j hj)
    · exact h.result.moved hmove hresult.symm hnext (fun hran => absurd hran (by decide))
        fun j hj => congrArg (·.bind Call.result?) (hothers j hj)

/-- A step outside the queues. -/
theorem inv_plain {action : SensorRun.Action} (h : Inv s)
    (hstep : (Action.plain action).step tracer logging s = some t) :
    Inv t ∧ action.step tracer logging s.run = some t.run := by
  simp only [Action.step, Option.ite_none_right_eq_some, Option.map_eq_some_iff] at hstep
  obtain ⟨hfree, run, hrun, rfl⟩ := hstep
  refine ⟨?_, hrun⟩
  cases hactor : actor action with
  | none =>
    cases action with
    | main outcome =>
      obtain ⟨main, -, rfl⟩ := Option.map_eq_some_iff.mp hrun
      exact ⟨h.stream, h.result, h.alone⟩
    | _ => cases hactor
  | some i =>
    simp only [hactor, State.free, Bool.and_eq_true, Option.isNone_iff_eq_none] at hfree
    obtain ⟨⟨hstream, hresult⟩, hcall⟩ := hfree
    have hqueues := step_uncalled hactor hcall hrun
    have hothers (j : Thread) (hj : j ≠ i) := step_others hactor hrun hj
    refine ⟨?_, ?_, h.alone⟩
    · rw [hqueues.1]
      exact h.stream.frame hstream fun j hj => congrArg (·.bind Call.stream?) (hothers j hj)
    · rw [hqueues.2]
      exact h.result.frame hresult fun j hj => congrArg (·.bind Call.result?) (hothers j hj)

end

theorem tied_init {m : Monitor.State Thread T} (h : (Monitor.monitor Thread T).init m)
    (call : Thread → Option (Op T)) : Tied m ⟨[]⟩ call := by
  rw [show m = ⟨⟨[]⟩, none, fun _ => .idle, [], []⟩ from h]
  refine ⟨rfl, ⟨rfl, ?_, ?_, ?_, ?_⟩, ?_, ?_⟩
  · intro i messages hcall
    cases hcall
  · intro i op result hpos
    cases hpos
  · intro hne
    exact absurd rfl hne
  · intro i
    simp [Position.Holds]
  · intro i op hpending
    cases hpending
  · intro i op hparked
    cases hparked

/-- The threads with their locks do what the threads with calls in one step do. -/
theorem locked_refines (tracer : Tracer β ρ) (logging : Bool) (bulks : List β) :
    (locked tracer logging bulks).Refines (SensorRun.sensor tracer logging bulks) Inv State.run
      Action.shown where
  init s hinit := by
    obtain ⟨⟨group, groups, hflatten, hrun⟩, hstream, hresult⟩ := hinit
    refine ⟨⟨?_, ?_, ?_⟩, ⟨group, groups, hflatten, hrun⟩⟩
    · rw [hrun]
      exact tied_init hstream _
    · rw [hrun]
      exact tied_init hresult _
    · intro i
      rw [show s.stream = ⟨⟨[]⟩, none, fun _ => .idle, [], []⟩ from hstream]
      exact .inl rfl
  keep action s t hs hstep := by
    cases action with
    | plain action => exact (inv_plain hs hstep.2).1
    | stream i moment => exact (inv_stream hs hstep.2).1
    | result i moment => exact (inv_result hs hstep.2).1
  step action s t hs hstep := by
    obtain ⟨hallowed, hstep⟩ := hstep
    have hcan (i : Thread) : i.action.Allowed := by
      cases i <;> simp [Thread.action, SensorRun.Action.Allowed, BULK_CAPACITY]
    cases action with
    | plain action => exact .inr ⟨action, rfl, hallowed, (inv_plain hs hstep).2⟩
    | stream i moment =>
      cases (inv_stream hs hstep).2 with
      | inl hsame => exact .inl hsame
      | inr hran =>
        obtain ⟨rfl, hrun⟩ := hran
        exact .inr ⟨i.action, rfl, hcan i, hrun⟩
    | result i moment =>
      cases (inv_result hs hstep).2 with
      | inl hsame => exact .inl hsame
      | inr hran =>
        obtain ⟨rfl, hrun⟩ := hran
        exact .inr ⟨i.action, rfl, hcan i, hrun⟩

/- A step that the environment takes for nothing. -/
def Action.isSpurious : Action → Bool
  | .stream _ .spurious => true
  | .result _ .spurious => true
  | _ => false

section
variable {i : Thread} {call : Thread → Option (Op T)} {m : Monitor.State Thread T}
  {queue : SafeQueue T}

/- A step that a queue can take, with no new call. -/
def Moves (m : Monitor.State Thread T) (i : Thread) (moment : Moment) : Prop :=
  (moment = .lock ∨ moment = .body ∨ moment = .unlock) ∧ (queueStep i none moment m).isSome = true

theorem Moves.next {moment : Moment} (h : Moves m i moment) :
    ∃ out, ∀ next, queueStep i next moment m = some out := by
  obtain ⟨out, hout⟩ := Option.isSome_iff_exists.mp h.2
  refine ⟨out, fun next => ?_⟩
  cases moment with
  | call => exact absurd h.1 (by decide)
  | lock | body | unlock | spurious => exact hout

theorem Moves.notSpurious {moment : Moment} (h : Moves m i moment) : moment ≠ .spurious := by
  rintro rfl
  exact absurd h.1 (by decide)

theorem isIdle_eq {position : Position T} (h : isIdle position = true) : position = .idle := by
  cases position with
  | idle => rfl
  | _ => cases h

theorem queueStep_call (op : Op T) (h : m.thread i = .idle) :
    queueStep i (some op) .call m = some (m.move i (.locking op), false) := by
  simp [queueStep, Monitor.step, h]

theorem holds_moves (h : (m.thread i).Holds) : ∃ moment, Moves m i moment := by
  cases hpos : m.thread i with
  | inside op =>
    refine ⟨.body, by simp, ?_⟩
    cases hbody : op.body m.queue with
    | none => simp [queueStep, Monitor.step, hpos, hbody]
    | some out => simp [queueStep, Monitor.step, hpos, hbody]
  | leaving op result => exact ⟨.unlock, by simp, by simp [queueStep, Monitor.step, hpos]⟩
  | _ => simp [hpos, Position.Holds] at h

/-- Where a thread is in a queue and not asleep, it or the one that holds the mutex can go on. -/
theorem Tied.moves (h : Tied m queue call) (hbusy : isIdle (m.thread i) = false) :
    (∃ op, m.thread i = .parked op) ∨ ∃ j moment, Moves m j moment := by
  have hwaiting (hlock : m.owner = none → (queueStep i none .lock m).isSome = true) :
      ∃ j moment, Moves m j moment := by
    cases howner : m.owner with
    | none => exact ⟨i, .lock, by simp, hlock howner⟩
    | some j =>
      obtain ⟨moment, hmoves⟩ := holds_moves ((h.correct.exclusive j).mpr howner)
      exact ⟨j, moment, hmoves⟩
  cases hpos : m.thread i with
  | idle => simp [hpos, isIdle] at hbusy
  | parked op => exact .inl ⟨op, rfl⟩
  | locking op | woken op =>
    exact .inr (hwaiting fun howner => by simp [queueStep, Monitor.step, hpos, howner])
  | inside op | leaving op result =>
    obtain ⟨moment, hmoves⟩ := holds_moves (m := m) (i := i) (by rw [hpos]; trivial)
    exact .inr ⟨i, moment, hmoves⟩

/-- Who sleeps has found the queue empty, and it still is. -/
theorem Tied.sleeps (h : Tied m queue call) {op : Op T} (hparked : m.thread i = .parked op) :
    call i = some op ∧ op.body queue = none := by
  have hempty : m.queue.q = [] := by
    by_contra hne
    exact h.correct.wakeup hne i op hparked
  have hqueue : queue = ⟨[]⟩ := h.queue.symm.trans (congrArg SafeQueue.mk hempty)
  rw [hqueue]
  exact ⟨h.called i op (by rw [hparked, pending]), h.asleep i op hparked⟩

end

section
variable {tracer : Tracer β ρ} {logging : Bool} {bulks : List β} {s : State β ρ} {i : Thread}
  {moment : Moment} {action : SensorRun.Action}

section
variable (tracer logging bulks)

/- The step of a queue, with what it does to the thread. -/
theorem stream_enabled (h : Inv s) {out : Monitor.State Thread (Option β) × Bool}
    (hout : queueStep i (if isIdle (s.result.thread i) then
      (i.call s.run.threads).bind Call.stream? else none) moment s.stream = some out) :
    ∃ t, (locked tracer logging bulks).step (.stream i moment) s t := by
  obtain ⟨m, ran⟩ := out
  cases ran with
  | false =>
    exact ⟨_, trivial, Option.bind_eq_some_iff.mpr ⟨_, hout, rfl⟩⟩
  | true =>
    obtain ⟨-, -, op, items, hcall, hbody⟩ := h.stream.finished (queueStep_move hout)
    obtain ⟨run, hrun, -, -⟩ :=
      step_stream tracer logging (streamCall_eq hcall) hbody
    exact ⟨_, trivial, Option.bind_eq_some_iff.mpr
      ⟨_, hout, Option.map_eq_some_iff.mpr ⟨run, hrun, rfl⟩⟩⟩

theorem result_enabled (h : Inv s) {out : Monitor.State Thread (Option (List ρ)) × Bool}
    (hout : queueStep i (if isIdle (s.stream.thread i) then
      (i.call s.run.threads).bind Call.result? else none) moment s.result = some out) :
    ∃ t, (locked tracer logging bulks).step (.result i moment) s t := by
  obtain ⟨m, ran⟩ := out
  cases ran with
  | false =>
    exact ⟨_, trivial, Option.bind_eq_some_iff.mpr ⟨_, hout, rfl⟩⟩
  | true =>
    obtain ⟨-, -, op, items, hcall, hbody⟩ := h.result.finished (queueStep_move hout)
    obtain ⟨run, hrun, -, -⟩ :=
      step_result tracer logging (resultCall_eq hcall) hbody
    exact ⟨_, trivial, Option.bind_eq_some_iff.mpr
      ⟨_, hout, Option.map_eq_some_iff.mpr ⟨run, hrun, rfl⟩⟩⟩

end

theorem body_none {op : Op T} {queue : SafeQueue T} (h : op.body queue = none) :
    op.notifies = false := by
  cases op with
  | enqueue t | enqueue_bulk messages => cases h
  | dequeue | wait_dequeue_bulk => rfl

/- Only the worker waits for bulks, and only the sender for packs. -/
theorem stream_waits {s : Threads β ρ} {op : Op (Option β)} (hcall : i.call s = some (.stream op))
    (hwaits : op.notifies = false) : i = .worker ∧ s.worker = .processing [] := by
  cases i with
  | reader =>
    rw [Thread.call] at hcall
    split at hcall <;> cases hcall <;> cases hwaits
  | worker =>
    rw [Thread.call] at hcall
    split at hcall <;> cases hcall
    · rename_i hworker
      exact ⟨rfl, hworker⟩
    · cases hwaits
  | sender =>
    rw [Thread.call] at hcall
    split at hcall <;> cases hcall

theorem result_waits {s : Threads β ρ} {op : Op (Option (List ρ))}
    (hcall : i.call s = some (.result op)) (hwaits : op.notifies = false) :
    i = .sender ∧ s.sender.at_ = .sending [] := by
  cases i with
  | reader =>
    rw [Thread.call] at hcall
    split at hcall <;> cases hcall
  | worker =>
    rw [Thread.call] at hcall
    split at hcall <;> cases hcall <;> cases hwaits
  | sender =>
    rw [Thread.call] at hcall
    split at hcall <;> cases hcall
    rename_i hat
    exact ⟨rfl, hat⟩

/- A call that sleeps on an empty queue leaves its thread where it is. -/
theorem stream_sleeps {s : Run β ρ} {op : Op (Option β)} (hactor : actor action = some i)
    (hcall : i.call s.threads = some (.stream op))
    (hbody : op.body s.threads._stream_queue = none) : action.step tracer logging s = none := by
  obtain ⟨rfl, hworker⟩ := stream_waits hcall (body_none hbody)
  have hempty := Monitor.body_waits hbody
  cases action with
  | worker count =>
    simp [SensorRun.Action.step, Pipeline.workerStep, hworker, SafeQueue.wait_dequeue_bulk, hempty]
  | _ => cases hactor

theorem result_sleeps {s : Run β ρ} {op : Op (Option (List ρ))} (hactor : actor action = some i)
    (hcall : i.call s.threads = some (.result op))
    (hbody : op.body s.threads._result_queue = none) : action.step tracer logging s = none := by
  obtain ⟨rfl, hat⟩ := result_waits hcall (body_none hbody)
  have hempty := Monitor.body_waits hbody
  cases action with
  | sender count throws =>
    simp [SensorRun.Action.step, SensorRun.senderStep, hat, SafeQueue.wait_dequeue_bulk, hempty]
  | _ => cases hactor

theorem queue_notSpurious (hmoment : moment ≠ .spurious) (j : Thread) :
    (Action.stream j moment).isSpurious = false ∧ (Action.result j moment).isSpurious = false := by
  cases moment with
  | spurious => exact absurd rfl hmoment
  | call | lock | body | unlock => exact ⟨rfl, rfl⟩

theorem queue_shown {shown : SensorRun.Action} (h : (Action.stream i moment).shown = some shown ∨
    (Action.result i moment).shown = some shown) : shown = i.action := by
  cases moment with
  | body => exact h.elim (fun h => (Option.some.inj h).symm) fun h => (Option.some.inj h).symm
  | call | lock | unlock | spurious => exact h.elim (fun h => by cases h) fun h => by cases h

/-- Whenever the sensor could make a step, some thread can: no wakeup is lost and no mutex is
kept. -/
theorem can_move (bulks : List β) (h : Inv s) (hallowed : action.Allowed) {run : Run β ρ}
    (hstep : action.step tracer logging s.run = some run) :
    ∃ move t, (locked tracer logging bulks).step move s t ∧ move.isSpurious = false ∧
      ∀ shown, move.shown = some shown → shown = action ∨ ∃ i : Thread, shown = i.action := by
  have hplain (hfree : s.free (actor action) = true) :
      ∃ t, (locked tracer logging bulks).step (.plain action) s t :=
    ⟨_, hallowed, by rw [Action.step, if_pos hfree, hstep]; rfl⟩
  cases hactor : actor action with
  | none =>
    obtain ⟨t, ht⟩ := hplain (by rw [hactor]; rfl)
    exact ⟨_, t, ht, rfl, fun shown hshown => .inl (Option.some.inj hshown).symm⟩
  | some i =>
    cases hstream : isIdle (s.stream.thread i) with
    | false =>
      cases h.stream.moves hstream with
      | inl hparked =>
        obtain ⟨op, hparked⟩ := hparked
        obtain ⟨hcall, hbody⟩ := h.stream.sleeps hparked
        rw [stream_sleeps hactor (streamCall_eq hcall) hbody] at hstep
        cases hstep
      | inr hmoves =>
        obtain ⟨j, moment, hmoves⟩ := hmoves
        obtain ⟨out, hout⟩ := hmoves.next
        obtain ⟨t, ht⟩ := stream_enabled tracer logging bulks h (hout _)
        exact ⟨_, t, ht, (queue_notSpurious hmoves.notSpurious j).1,
          fun shown hshown => .inr ⟨j, queue_shown (.inl hshown)⟩⟩
    | true =>
      cases hresult : isIdle (s.result.thread i) with
      | false =>
        cases h.result.moves hresult with
        | inl hparked =>
          obtain ⟨op, hparked⟩ := hparked
          obtain ⟨hcall, hbody⟩ := h.result.sleeps hparked
          rw [result_sleeps hactor (resultCall_eq hcall) hbody] at hstep
          cases hstep
        | inr hmoves =>
          obtain ⟨j, moment, hmoves⟩ := hmoves
          obtain ⟨out, hout⟩ := hmoves.next
          obtain ⟨t, ht⟩ := result_enabled tracer logging bulks h (hout _)
          exact ⟨_, t, ht, (queue_notSpurious hmoves.notSpurious j).2,
            fun shown hshown => .inr ⟨j, queue_shown (.inr hshown)⟩⟩
      | true =>
        cases hcall : i.call s.run.threads with
        | none =>
          obtain ⟨t, ht⟩ := hplain (by rw [hactor, State.free, hstream, hresult, hcall]; rfl)
          exact ⟨_, t, ht, rfl, fun shown hshown => .inl (Option.some.inj hshown).symm⟩
        | some call =>
          cases call with
          | stream op =>
            obtain ⟨t, ht⟩ := stream_enabled tracer logging bulks (i := i) h (by
                rw [hresult, hcall, if_pos rfl]
                exact queueStep_call op (isIdle_eq hstream))
            exact ⟨_, t, ht, rfl, fun shown hshown => by cases hshown⟩
          | result op =>
            obtain ⟨t, ht⟩ := result_enabled tracer logging bulks (i := i) h (by
                rw [hstream, hcall, if_pos rfl]
                exact queueStep_call op (isIdle_eq hresult))
            exact ⟨_, t, ht, rfl, fun shown hshown => by cases hshown⟩

end

end SyscallSensor.LockedRun
