import Mathlib.Data.List.Basic
import Mathlib.Logic.Function.Basic
import SyscallSensor.SafeQueue
import SyscallSensor.Lib.Transition

/-! `SafeQueue` as a monitor: any number of threads, one mutex, one condition variable. The part
of a call between taking the mutex and giving it up, or parking, is one step. -/
namespace SyscallSensor.Monitor
open Lib.Transition (System)
variable {ι T : Type*}

inductive Op (T : Type*) where
  | enqueue (t : T)
  | dequeue
  | enqueue_bulk (messages : List T)
  | wait_dequeue_bulk (capacity : Nat) (positive : 1 ≤ capacity)

/-- What the call does under the mutex: its result and the queue, or `none` when it finds the
queue empty and waits. -/
def Op.body : Op T → SafeQueue T → Option (List T × SafeQueue T)
  | .enqueue t, s => some ([], s.enqueue t)
  | .enqueue_bulk messages, s => some ([], s.enqueue_bulk messages)
  | .dequeue, s => s.dequeue.map fun (val, s) => ([val], s)
  | .wait_dequeue_bulk capacity _, s => s.wait_dequeue_bulk capacity

/- The items a call pushes. -/
def Op.pushes : Op T → List T
  | .enqueue t => [t]
  | .enqueue_bulk messages => messages
  | .dequeue => []
  | .wait_dequeue_bulk _ _ => []

/- Whether the call ends with `notify_all`. -/
def Op.notifies : Op T → Bool
  | .enqueue _ => true
  | .enqueue_bulk _ => true
  | _ => false

/-- What a result may be. -/
def Op.Returns : Op T → List T → Prop
  | .dequeue, result => result.length = 1
  | .wait_dequeue_bulk capacity _, result => 1 ≤ result.length ∧ result.length ≤ capacity
  | _, result => result = []

/- Where a thread is: outside, before the mutex, holding it, asleep on the condition variable,
   awake and before the mutex again, or holding the mutex with its result. -/
inductive Position (T : Type*) where
  | idle
  | locking (op : Op T)
  | inside (op : Op T)
  | parked (op : Op T)
  | woken (op : Op T)
  | leaving (op : Op T) (result : List T)

def Position.wake : Position T → Position T
  | .parked op => .woken op
  | position => position

def Position.Holds : Position T → Prop
  | .inside _ => True
  | .leaving _ _ => True
  | _ => False

/- `calls` and `results` record the bodies that have run, in the order of the mutex. -/
structure State (ι T : Type*) where
  queue : SafeQueue T
  owner : Option ι
  thread : ι → Position T
  calls : List (ι × Op T)
  results : List (List T)

inductive Event (T : Type*) where
  | call (op : Op T)
  | lock
  | body
  | unlock
  | spurious

variable [DecidableEq ι]

def State.move (s : State ι T) (i : ι) (position : Position T) : State ι T :=
  { s with thread := Function.update s.thread i position }

/- The body of a call that does not wait. -/
def State.finish (s : State ι T) (i : ι) (op : Op T) (result : List T) (queue : SafeQueue T) :
    State ι T where
  queue := queue
  owner := s.owner
  thread := Function.update
    (if op.notifies then fun j => (s.thread j).wake else s.thread) i (.leaving op result)
  calls := s.calls ++ [(i, op)]
  results := s.results ++ [result]

/-- One step of thread `i`. -/
def step (i : ι) (event : Event T) (s : State ι T) : Option (State ι T) :=
  match event, s.thread i with
  | .call op, .idle => some (s.move i (.locking op))
  | .lock, .locking op =>
    if s.owner.isNone then some { s.move i (.inside op) with owner := some i } else none
  | .lock, .woken op =>
    if s.owner.isNone then some { s.move i (.inside op) with owner := some i } else none
  | .body, .inside op =>
    match op.body s.queue with
    | some (result, queue) => some (s.finish i op result queue)
    -- `c.wait` gives the mutex up
    | none => some { s.move i (.parked op) with owner := none }
  | .unlock, .leaving _ _ => some { s.move i .idle with owner := none }
  | .spurious, .parked op => some (s.move i (.woken op))
  | _, _ => none

def monitor (ι T : Type*) [DecidableEq ι] : System (State ι T) (ι × Event T) where
  init s := s = ⟨⟨[]⟩, none, fun _ => .idle, [], []⟩
  step label s t := step label.1 label.2 s = some t

/- The items pushed and popped so far, in the order of the mutex. -/
def State.pushed (s : State ι T) : List T := s.calls.flatMap fun call => call.2.pushes

def State.popped (s : State ι T) : List T := s.results.flatten

/-- Every item once and in order, nobody left asleep beside a filled queue. -/
structure Correct (s : State ι T) : Prop where
  fifo : s.popped ++ s.queue.q = s.pushed
  contiguous : ∀ i messages, (i, Op.enqueue_bulk messages) ∈ s.calls →
    ∃ before after, s.pushed = before ++ messages ++ after
  returns : ∀ i op result, s.thread i = .leaving op result → op.Returns result
  wakeup : s.queue.q ≠ [] → ∀ i op, s.thread i ≠ .parked op
  exclusive : ∀ i, (s.thread i).Holds ↔ s.owner = some i

/- What a step of thread `i` can do, with the guards it has passed. -/
inductive Change (i : ι) (s : State ι T) : State ι T → Prop where
  | call (op : Op T) : s.thread i = .idle → Change i s (s.move i (.locking op))
  | lock (op : Op T) : (s.thread i = .locking op ∨ s.thread i = .woken op) → s.owner = none →
      Change i s { s.move i (.inside op) with owner := some i }
  | finish (op : Op T) (result : List T) (queue : SafeQueue T) : s.thread i = .inside op →
      op.body s.queue = some (result, queue) → Change i s (s.finish i op result queue)
  | park (op : Op T) : s.thread i = .inside op → op.body s.queue = none →
      Change i s { s.move i (.parked op) with owner := none }
  | unlock (op : Op T) (result : List T) : s.thread i = .leaving op result →
      Change i s { s.move i .idle with owner := none }
  | wake (op : Op T) : s.thread i = .parked op → Change i s (s.move i (.woken op))

theorem step_change {i : ι} {event : Event T} {s t : State ι T} (h : step i event s = some t) :
    Change i s t := by
  cases event with
  | call op =>
    cases hpos : s.thread i with
    | idle =>
      simp only [step, hpos, Option.some.injEq] at h
      exact h ▸ .call op hpos
    | _ => simp [step, hpos] at h
  | lock =>
    cases hpos : s.thread i with
    | locking op =>
      simp only [step, hpos, Option.ite_none_right_eq_some, Option.some.injEq,
        Option.isNone_iff_eq_none] at h
      exact h.2 ▸ .lock op (.inl hpos) h.1
    | woken op =>
      simp only [step, hpos, Option.ite_none_right_eq_some, Option.some.injEq,
        Option.isNone_iff_eq_none] at h
      exact h.2 ▸ .lock op (.inr hpos) h.1
    | _ => simp [step, hpos] at h
  | body =>
    cases hpos : s.thread i with
    | inside op =>
      cases hbody : op.body s.queue with
      | none =>
        simp only [step, hpos, hbody, Option.some.injEq] at h
        exact h ▸ .park op hpos hbody
      | some out =>
        simp only [step, hpos, hbody, Option.some.injEq] at h
        exact h ▸ .finish op out.1 out.2 hpos hbody
    | _ => simp [step, hpos] at h
  | unlock =>
    cases hpos : s.thread i with
    | leaving op result =>
      simp only [step, hpos, Option.some.injEq] at h
      exact h ▸ .unlock op result hpos
    | _ => simp [step, hpos] at h
  | spurious =>
    cases hpos : s.thread i with
    | parked op =>
      simp only [step, hpos, Option.some.injEq] at h
      exact h ▸ .wake op hpos
    | _ => simp [step, hpos] at h

/-- A body takes its result off the front of the queue, or adds its items behind it. -/
theorem body_queue {op : Op T} {s t : SafeQueue T} {result : List T}
    (h : op.body s = some (result, t)) : s.q ++ op.pushes = result ++ t.q := by
  cases op with
  | enqueue x =>
    obtain ⟨rfl, rfl⟩ := Prod.mk.inj (Option.some.inj h)
    rfl
  | enqueue_bulk messages =>
    obtain ⟨rfl, rfl⟩ := Prod.mk.inj (Option.some.inj h)
    rfl
  | dequeue =>
    cases hq : s.q with
    | nil => simp [Op.body, SafeQueue.dequeue, hq] at h
    | cons x q =>
      simp only [Op.body, SafeQueue.dequeue, hq, Option.map_some, Option.some.injEq,
        Prod.mk.injEq] at h
      rw [← h.1, ← h.2, Op.pushes, List.append_nil, List.singleton_append]
  | wait_dequeue_bulk capacity positive =>
    rw [Op.pushes, List.append_nil]
    exact SafeQueue.wait_dequeue_bulk_queue h

theorem body_returns {op : Op T} {s t : SafeQueue T} {result : List T}
    (h : op.body s = some (result, t)) : op.Returns result := by
  cases op with
  | enqueue x => exact (Prod.mk.inj (Option.some.inj h)).1.symm
  | enqueue_bulk messages => exact (Prod.mk.inj (Option.some.inj h)).1.symm
  | dequeue =>
    cases hq : s.q with
    | nil => simp [Op.body, SafeQueue.dequeue, hq] at h
    | cons x q =>
      simp only [Op.body, SafeQueue.dequeue, hq, Option.map_some, Option.some.injEq,
        Prod.mk.injEq] at h
      rw [Op.Returns, ← h.1, List.length_singleton]
  | wait_dequeue_bulk capacity positive =>
    have hlength := SafeQueue.wait_dequeue_bulk_length h
    have hpos := List.length_pos_iff.mpr hlength.1
    rw [Op.Returns, hlength.2]
    omega

/-- Only an empty queue makes a call wait. -/
theorem body_waits {op : Op T} {s : SafeQueue T} (h : op.body s = none) : s.q = [] := by
  cases op with
  | enqueue x => cases h
  | enqueue_bulk messages => cases h
  | dequeue =>
    cases hq : s.q with
    | nil => rfl
    | cons x q => simp [Op.body, SafeQueue.dequeue, hq] at h
  | wait_dequeue_bulk capacity positive =>
    cases hq : s.q with
    | nil => rfl
    | cons x q => simp [Op.body, SafeQueue.wait_dequeue_bulk, hq] at h

/-- A call that does not notify leaves a part of the queue it found. -/
theorem body_silent {op : Op T} {s t : SafeQueue T} {result : List T}
    (h : op.body s = some (result, t)) (hsilent : op.notifies = false) (ht : t.q ≠ []) :
    s.q ≠ [] := by
  intro hs
  have hqueue := body_queue h
  have hpushes : op.pushes = [] := by
    cases op with
    | enqueue x => cases hsilent
    | enqueue_bulk messages => cases hsilent
    | dequeue => rfl
    | wait_dequeue_bulk capacity positive => rfl
  rw [hs, hpushes, List.append_nil, eq_comm, List.append_eq_nil_iff] at hqueue
  exact ht hqueue.2

theorem wake_holds (position : Position T) : position.wake.Holds ↔ position.Holds := by
  cases position <;> rfl

theorem wake_leaving {position : Position T} {op : Op T} {result : List T}
    (h : position.wake = .leaving op result) : position = .leaving op result := by
  cases position with
  | leaving op' result' => exact h
  | _ => cases h

theorem wake_not_parked (position : Position T) (op : Op T) : position.wake ≠ .parked op := by
  cases position <;> (intro h; cases h)

/- A call has run its body exactly once when it is recorded, so the record is the history. -/
section Preserved
variable {i : ι} {s t : State ι T}

theorem fifo_change (h : Correct s) (hc : Change i s t) : t.popped ++ t.queue.q = t.pushed := by
  cases hc with
  | finish op result queue hpos hbody =>
    have hpopped : (s.finish i op result queue).popped = s.popped ++ result := by
      simp [State.popped, State.finish]
    have hpushed : (s.finish i op result queue).pushed = s.pushed ++ op.pushes := by
      simp [State.pushed, State.finish]
    calc
      (s.finish i op result queue).popped ++ queue.q = s.popped ++ (result ++ queue.q) := by
        rw [hpopped, List.append_assoc]
      _ = s.popped ++ s.queue.q ++ op.pushes := by
        rw [← body_queue hbody, List.append_assoc]
      _ = (s.finish i op result queue).pushed := by rw [h.fifo, hpushed]
  | call op hpos => exact h.fifo
  | lock op hpos howner => exact h.fifo
  | park op hpos hbody => exact h.fifo
  | unlock op result hpos => exact h.fifo
  | wake op hpos => exact h.fifo

theorem returns_change (h : Correct s) (hc : Change i s t) {j : ι} {op : Op T} {result : List T}
    (ht : t.thread j = .leaving op result) : op.Returns result := by
  by_cases hj : j = i
  · rw [hj] at ht
    cases hc with
    | finish op' result' queue hpos hbody =>
      simp only [State.finish, Function.update_self, Position.leaving.injEq] at ht
      rw [← ht.1, ← ht.2]
      exact body_returns hbody
    | _ => simp [State.move] at ht
  · cases hc with
    | finish op' result' queue hpos hbody =>
      simp only [State.finish, Function.update_of_ne hj] at ht
      cases hn : op'.notifies with
      | true =>
        rw [hn, if_pos rfl] at ht
        exact h.returns j op result (wake_leaving ht)
      | false =>
        rw [hn, if_neg Bool.false_ne_true] at ht
        exact h.returns j op result ht
    | _ =>
      simp only [State.move, Function.update_of_ne hj] at ht
      exact h.returns j op result ht

theorem wakeup_change (h : Correct s) (hc : Change i s t) (ht : t.queue.q ≠ []) (j : ι)
    (op : Op T) : t.thread j ≠ .parked op := by
  intro hparked
  cases hc with
  | finish op' result queue hpos hbody =>
    by_cases hj : j = i
    · simp [State.finish, hj] at hparked
    · simp only [State.finish, Function.update_of_ne hj] at hparked
      cases hn : op'.notifies with
      | true =>
        rw [hn, if_pos rfl] at hparked
        exact wake_not_parked _ op hparked
      | false =>
        rw [hn, if_neg Bool.false_ne_true] at hparked
        exact h.wakeup (body_silent hbody hn ht) j op hparked
  | park op' hpos hbody => exact ht (body_waits hbody)
  | _ =>
    by_cases hj : j = i
    · simp [State.move, hj] at hparked
    · simp only [State.move, Function.update_of_ne hj] at hparked
      exact h.wakeup ht j op hparked

theorem exclusive_change (h : Correct s) (hc : Change i s t) (j : ι) :
    (t.thread j).Holds ↔ t.owner = some j := by
  have hother : ∀ k, s.owner = some k → j ≠ k → ¬ (s.thread j).Holds := by
    intro k hk hj hholds
    rw [h.exclusive, hk] at hholds
    exact hj (Option.some.inj hholds).symm
  by_cases hj : j = i
  · rw [hj]
    have hi := h.exclusive i
    cases hc with
    | finish op result queue hpos hbody =>
      rw [hpos] at hi
      simpa [State.finish, Position.Holds] using hi
    | lock op hpos howner => simp [State.move, Position.Holds]
    | park op hpos hbody => simp [State.move, Position.Holds]
    | unlock op result hpos => simp [State.move, Position.Holds]
    | call op hpos =>
      rw [hpos] at hi
      simpa [State.move, Position.Holds] using hi
    | wake op hpos =>
      rw [hpos] at hi
      simpa [State.move, Position.Holds] using hi
  · have hmine := h.exclusive i
    cases hc with
    | finish op result queue hpos hbody =>
      simp only [State.finish, Function.update_of_ne hj]
      rw [← h.exclusive]
      cases op.notifies with
      | true => exact wake_holds (s.thread j)
      | false => rfl
    | lock op hpos howner =>
      have hfree := h.exclusive j
      simp only [howner, reduceCtorEq, iff_false] at hfree
      simp only [State.move, Function.update_of_ne hj, hfree, false_iff, Option.some.injEq]
      exact Ne.symm hj
    | park op hpos hbody =>
      rw [hpos] at hmine
      simpa [State.move, Function.update_of_ne hj] using hother i (hmine.mp trivial) hj
    | unlock op result hpos =>
      rw [hpos] at hmine
      simpa [State.move, Function.update_of_ne hj] using hother i (hmine.mp trivial) hj
    | _ =>
      simp only [State.move, Function.update_of_ne hj]
      exact h.exclusive j

theorem correct_change (h : Correct s) (hc : Change i s t) : Correct t := by
  refine ⟨fifo_change h hc, ?_, fun j op result => returns_change h hc,
    fun ht j op => wakeup_change h hc ht j op, exclusive_change h hc⟩
  intro j messages hcall
  obtain ⟨front, back, hsplit⟩ := List.append_of_mem hcall
  refine ⟨front.flatMap fun call => call.2.pushes, back.flatMap fun call => call.2.pushes, ?_⟩
  rw [State.pushed, hsplit, List.flatMap_append, List.flatMap_cons, Op.pushes, List.append_assoc]

end Preserved

/-- In every reachable state of any number of threads. -/
theorem queue_correct {s : State ι T} (h : (monitor ι T).Reachable s) : Correct s := by
  refine h.invariant ?_ ?_
  · intro s hinit
    rw [show s = ⟨⟨[]⟩, none, fun _ => .idle, [], []⟩ from hinit]
    refine ⟨rfl, ?_, ?_, ?_, ?_⟩
    · intro i messages hcall
      cases hcall
    · intro i op result hpos
      cases hpos
    · intro hne
      exact absurd rfl hne
    · intro i
      simp [Position.Holds]
  · intro label s t hcorrect hstep
    exact correct_change hcorrect (step_change hstep)

/- Thread 1 finds the queue empty and parks, thread 2 pushes a bulk, and thread 1 takes two of
   its three items. -/
def parkedConsumer : List (Nat × Event Nat) :=
  [(1, .call (.wait_dequeue_bulk 2 (by decide))), (1, .lock), (1, .body),
    (2, .call (.enqueue_bulk [7, 8, 9])), (2, .lock), (2, .body), (2, .unlock),
    (1, .lock), (1, .body)]

theorem queue_correct_parkedConsumer :
    ∃ s : State Nat Nat, (monitor Nat Nat).Reachable s ∧ s.results = [[], [7, 8]] ∧
      s.queue.q = [9] ∧ Correct s := by
  have hstart : (monitor Nat Nat).Reachable ⟨⟨[]⟩, none, fun _ => .idle, [], []⟩ := ⟨[], .start rfl⟩
  have hrun := hstart.foldlM (fun s label => step label.1 label.2 s) parkedConsumer
    (fun label _ s t hstep => hstep) rfl
  exact ⟨_, hrun, rfl, rfl, queue_correct hrun⟩

end SyscallSensor.Monitor
