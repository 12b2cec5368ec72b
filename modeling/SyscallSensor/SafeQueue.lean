import Mathlib.Data.List.Basic

/-! `SafeQueue`, one lock-protected call at a time. -/
namespace SyscallSensor

structure SafeQueue (T : Type*) where
  q : List T := []
deriving DecidableEq, Repr

namespace SafeQueue
variable {T : Type*}

def enqueue (s : SafeQueue T) (t : T) : SafeQueue T := ⟨s.q ++ [t]⟩

def enqueue_bulk (s : SafeQueue T) (messages : List T) : SafeQueue T := ⟨s.q ++ messages⟩

@[simp] theorem enqueue_q (s : SafeQueue T) (t : T) : (s.enqueue t).q = s.q ++ [t] := rfl

@[simp] theorem enqueue_bulk_q (s : SafeQueue T) (messages : List T) :
    (s.enqueue_bulk messages).q = s.q ++ messages := rfl

/-- `none` while the call waits for an item. -/
def dequeue (s : SafeQueue T) : Option (T × SafeQueue T) :=
  match s.q with
  | [] => none
  | val :: q => some (val, ⟨q⟩)

/- The `for` loop of `wait_dequeue_bulk`. -/
def popLoop : Nat → List T → List T × List T
  | 0, q => ([], q)
  | _ + 1, [] => ([], [])
  | capacity + 1, front :: q =>
    let (message, q) := popLoop capacity q
    (front :: message, q)

/-- `none` while the call waits for an item. -/
def wait_dequeue_bulk (s : SafeQueue T) (capacity : Nat) : Option (List T × SafeQueue T) :=
  if s.q.isEmpty then none
  else
    let (message, q) := popLoop capacity s.q
    some (message, ⟨q⟩)

theorem popLoop_eq (capacity : Nat) (q : List T) :
    popLoop capacity q = (q.take capacity, q.drop capacity) := by
  induction capacity generalizing q with
  | zero => rfl
  | succ capacity ih =>
    cases q with
    | nil => rfl
    | cons front q => rw [popLoop, ih, List.take_succ_cons, List.drop_succ_cons]

theorem wait_dequeue_bulk_eq_some {s t : SafeQueue T} {capacity : Nat} {message : List T} :
    s.wait_dequeue_bulk capacity = some (message, t) ↔
      s.q ≠ [] ∧ message = s.q.take capacity ∧ t = ⟨s.q.drop capacity⟩ := by
  rw [wait_dequeue_bulk, popLoop_eq]
  cases hq : s.q with
  | nil => simp
  | cons front q => simp [eq_comm]

/-- A call that returns has taken the front of the queue and left the rest as it was. -/
theorem wait_dequeue_bulk_queue {s t : SafeQueue T} {capacity : Nat} {message : List T}
    (h : s.wait_dequeue_bulk capacity = some (message, t)) : s.q = message ++ t.q := by
  obtain ⟨-, rfl, rfl⟩ := wait_dequeue_bulk_eq_some.mp h
  exact (List.take_append_drop _ _).symm

/-- It returns as many items as there are, up to `capacity`. -/
theorem wait_dequeue_bulk_length {s t : SafeQueue T} {capacity : Nat} {message : List T}
    (h : s.wait_dequeue_bulk capacity = some (message, t)) :
    s.q ≠ [] ∧ message.length = min capacity s.q.length := by
  obtain ⟨hne, rfl, -⟩ := wait_dequeue_bulk_eq_some.mp h
  exact ⟨hne, List.length_take⟩

end SafeQueue
end SyscallSensor
