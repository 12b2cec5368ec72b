import SyscallSensor.Events
import SyscallSensor.Lib.EndMarked
import Mathlib.Logic.Relation

/-! The sender thread, `_send_stream`: batches of packs from the result queue, each pack handed
to `dispatch`, which may throw. -/
namespace SyscallSensor.SendStream
open Lib.EndMarked
variable {π : Type*}

/- The calls of `dispatch` in order, the flag the main thread waits for, and the watch. -/
structure Sent (π : Type*) where
  dispatched : List π := []
  _finished : Bool := false
  _watch : EventsWatch := {}

section
variable (size : π → Nat) (throws : π → Bool)

/-- The `for` loop over one batch, and whether it ends in `return`. An exception leaves the
loop: the `catch` stands outside it. -/
def sendBatch : List (Option π) → Sent π → Sent π × Bool
  | [], s => (s, false)
  | some current :: events, s =>
    let s := { s with dispatched := s.dispatched ++ [current] }
    if throws current then (s, false)
    else sendBatch events { s with _watch := s._watch.add (size current) }
  | none :: _, s => ({ s with _watch := s._watch.stop, _finished := true }, true)

/-- The `while` loop, over the batches that `wait_dequeue_bulk` returns one after the other;
when they are used up the thread waits. -/
def sendStream : List (List (Option π)) → Sent π → Sent π × Bool
  | [], s => (s, false)
  | events :: batches, s =>
    let (s, returned) := sendBatch size throws events s
    if returned then (s, true) else sendStream batches s

/- Where the thread stands; with no `events` left it is about to call `wait_dequeue_bulk`. -/
inductive At (π : Type*) where
  | sending (events : List (Option π))
  | counting (current : π) (events : List (Option π))
  | stopping
  | finishing
  | returned

structure Sender (π : Type*) extends Sent π where
  at_ : At π := .sending []

/-- The same thread in single steps, as the other threads can see them. -/
def Sender.step (s : Sender π) : Option (Sender π) :=
  match s.at_ with
  | .sending [] => none
  | .sending (some current :: events) =>
    some { s with
      dispatched := s.dispatched ++ [current]
      at_ := if throws current then .sending [] else .counting current events }
  | .sending (none :: _) => some { s with at_ := .stopping }
  | .counting current events =>
    some { s with _watch := s._watch.add (size current), at_ := .sending events }
  | .stopping => some { s with _watch := s._watch.stop, at_ := .finishing }
  | .finishing => some { s with _finished := true, at_ := .returned }
  | .returned => none

/-- Run alone on a batch, the steps end where the loop does. -/
theorem sendBatch_steps (events : List (Option π)) (s : Sent π) :
    Relation.ReflTransGen (fun s t : Sender π => s.step size throws = some t)
      { s with at_ := .sending events }
      { (sendBatch size throws events s).1 with
        at_ := if (sendBatch size throws events s).2 then .returned else .sending [] } := by
  induction events generalizing s with
  | nil => exact .refl
  | cons event events ih =>
    cases event with
    | none => exact .head rfl (.head rfl (.single rfl))
    | some current =>
      cases hthrows : throws current with
      | true =>
        have hbatch : sendBatch size throws (some current :: events) s =
            ({ s with dispatched := s.dispatched ++ [current] }, false) := by
          simp [sendBatch, hthrows]
        rw [hbatch]
        exact .single (by simp [Sender.step, hthrows])
      | false =>
        have hbatch : sendBatch size throws (some current :: events) s =
            sendBatch size throws events
              { s with
                dispatched := s.dispatched ++ [current]
                _watch := s._watch.add (size current) } := by
          simp [sendBatch, hthrows]
        have hcall : Sender.step size throws { s with at_ := .sending (some current :: events) } =
            some { s with
              dispatched := s.dispatched ++ [current]
              at_ := .counting current events } := by
          simp [Sender.step, hthrows]
        rw [hbatch]
        exact .head hcall (.head rfl (ih _))

end

/- What `_send_stream` tries to dispatch of a batch without the end marker. -/
def attempted (throws : π → Bool) : List π → List π
  | [] => []
  | p :: packs => if throws p then [p] else p :: attempted throws packs

/-- A throwing pack has nothing behind it in its batch. -/
def ThrowsLast (throws : π → Bool) (events : List (Option π)) : Prop :=
  ∀ before p after, events = before ++ some p :: after → throws p = true → after = []

section
variable {throws : π → Bool}

theorem throwsLast_cons {event : Option π} {events : List (Option π)} :
    ThrowsLast throws (event :: events) ↔
      (∀ p, event = some p → throws p = true → events = []) ∧ ThrowsLast throws events := by
  constructor
  · intro h
    constructor
    · intro p hp hthrows
      exact h [] p events (by rw [hp]; rfl) hthrows
    · intro before p after hevents hthrows
      exact h (event :: before) p after (by rw [hevents]; rfl) hthrows
  · intro h before p after hevents hthrows
    cases before with
    | nil =>
      obtain ⟨hevent, hrest⟩ := List.cons.inj hevents
      rw [← hrest]
      exact h.1 p hevent hthrows
    | cons first before =>
      exact h.2 before p after (List.cons.inj hevents).2 hthrows

theorem throwsLast_nil : ThrowsLast throws [] := by
  intro before p after hevents
  simp at hevents

/-- All packs of a batch are tried exactly when a throwing one is the last. -/
theorem attempted_eq_iff {packs : List π} :
    attempted throws packs = packs ↔ ThrowsLast throws (packs.map some) := by
  induction packs with
  | nil => simp [attempted, throwsLast_nil]
  | cons p packs ih =>
    rw [List.map_cons, throwsLast_cons, ← ih, attempted]
    cases hthrows : throws p with
    | true =>
      cases packs with
      | nil => simp [attempted]
      | cons q packs => simp [hthrows]
    | false => simp [hthrows]

theorem attempted_length_lt {packs : List π} (h : attempted throws packs ≠ packs) :
    (attempted throws packs).length < packs.length := by
  induction packs with
  | nil => exact absurd rfl h
  | cons p packs ih =>
    rw [attempted] at h ⊢
    cases hthrows : throws p with
    | true =>
      cases packs with
      | nil => simp [hthrows] at h
      | cons q packs => simp
    | false =>
      have hne : attempted throws packs ≠ packs := by simpa [hthrows] using h
      simpa using ih hne

/-- The end marker ends a batch whose packs do not throw, and only such a batch is safe. -/
theorem throwsLast_marked {packs : List π} :
    ThrowsLast throws (marked packs) ↔ ∀ p ∈ packs, throws p = false := by
  induction packs with
  | nil => simp [marked, throwsLast_cons, throwsLast_nil]
  | cons p packs ih =>
    have hne : packs.map some ++ [none] ≠ ([] : List (Option π)) := by simp
    rw [marked] at ih
    rw [marked, List.map_cons, List.cons_append, throwsLast_cons, ih, List.forall_mem_cons]
    simp [hne]

end

section
variable (size : π → Nat) (throws : π → Bool)

theorem sendBatch_items (packs : List π) (s : Sent π) :
    (sendBatch size throws (packs.map some) s).1.dispatched =
        s.dispatched ++ attempted throws packs ∧
      (sendBatch size throws (packs.map some) s).2 = false := by
  induction packs generalizing s with
  | nil => simp [sendBatch, attempted]
  | cons p packs ih =>
    have hrest := ih { s with
      dispatched := s.dispatched ++ [p]
      _watch := s._watch.add (size p) }
    rw [List.map_cons, sendBatch, attempted]
    cases hthrows : throws p with
    | true => simp
    | false => simpa using hrest

theorem sendBatch_marked (packs : List π) (s : Sent π) (h : ∀ p ∈ packs, throws p = false) :
    (sendBatch size throws (marked packs) s).1.dispatched = s.dispatched ++ packs ∧
      (sendBatch size throws (marked packs) s).1._finished = true ∧
      (sendBatch size throws (marked packs) s).2 = true := by
  induction packs generalizing s with
  | nil => simp [marked, sendBatch]
  | cons p packs ih =>
    rw [List.forall_mem_cons] at h
    have hrest := ih { s with
      dispatched := s.dispatched ++ [p]
      _watch := s._watch.add (size p) } h.2
    rw [marked] at hrest ⊢
    simp only [List.map_cons, List.cons_append, sendBatch, h.1, Bool.false_eq_true, if_false]
    simpa using hrest

/-- A pack that throws in front of the marker takes the marker with it. -/
theorem sendBatch_marked_throws (packs : List π) (s : Sent π) (h : ∃ p ∈ packs, throws p = true) :
    (sendBatch size throws (marked packs) s).2 = false := by
  induction packs generalizing s with
  | nil => simp at h
  | cons p packs ih =>
    rw [marked, List.map_cons, List.cons_append, sendBatch]
    cases hthrows : throws p with
    | true => rfl
    | false =>
      obtain ⟨q, hq, hqthrows⟩ := h
      have hmem : q ∈ packs := by
        cases List.mem_cons.mp hq with
        | inl heq =>
          rw [heq, hthrows] at hqthrows
          cases hqthrows
        | inr hmem => exact hmem
      exact ih _ ⟨q, hmem, hqthrows⟩

theorem sendBatch_length_le (events : List (Option π)) (s : Sent π) :
    (sendBatch size throws events s).1.dispatched.length ≤
      s.dispatched.length + events.reduceOption.length := by
  induction events generalizing s with
  | nil => simp [sendBatch]
  | cons event events ih =>
    cases event with
    | none => simp [sendBatch]
    | some current =>
      have hrest := ih { s with
        dispatched := s.dispatched ++ [current]
        _watch := s._watch.add (size current) }
      rw [List.length_append, List.length_singleton] at hrest
      rw [sendBatch, List.reduceOption_cons_of_some, List.length_cons]
      cases hthrows : throws current with
      | true =>
        simp only [if_true, List.length_append, List.length_singleton]
        omega
      | false =>
        simp only [Bool.false_eq_true, if_false]
        omega

/-- No call of `dispatch` comes from nowhere. -/
theorem sendStream_length_le (batches : List (List (Option π))) (s : Sent π) :
    (sendStream size throws batches s).1.dispatched.length ≤
      s.dispatched.length + batches.flatten.reduceOption.length := by
  induction batches generalizing s with
  | nil => simp [sendStream]
  | cons events batches ih =>
    have hbatch := sendBatch_length_le size throws events s
    have hrest := ih (sendBatch size throws events s).1
    rw [sendStream, List.flatten_cons, List.reduceOption_append, List.length_append]
    by_cases hreturned : (sendBatch size throws events s).2 = true
    · simp only [if_pos hreturned]
      omega
    · simp only [if_neg hreturned]
      omega

theorem sendStream_empty {batches : List (List (Option π))} (h : batches.flatten = []) (s : Sent π) :
    sendStream size throws batches s = (s, false) := by
  induction batches with
  | nil => rfl
  | cons events batches ih =>
    obtain ⟨rfl, hrest⟩ := List.append_eq_nil_iff.mp h
    exact ih hrest

/-- Every pack has been handed to `dispatch` once, in order, and the thread has set its flag
and returned. -/
def Delivered (packs : List π) (r : Sent π × Bool) : Prop :=
  r.1.dispatched = packs ∧ r.1._finished = true ∧ r.2 = true

theorem delivered_from {batches : List (List (Option π))} {packs : List π}
    (h : batches.flatten = marked packs) (s : Sent π) :
    Delivered (s.dispatched ++ packs) (sendStream size throws batches s) ↔
      ∀ events ∈ batches, ThrowsLast throws events := by
  induction batches generalizing packs s with
  | nil => simp [marked] at h
  | cons events batches ih =>
    rw [List.forall_mem_cons, sendStream]
    cases append_eq_marked.mp h with
    | inl hitems =>
      -- the marker is in a later batch
      obtain ⟨ys, zs, rfl, rfl, hrest⟩ := hitems
      obtain ⟨hdispatched, hreturned⟩ := sendBatch_items size throws ys s
      simp only [hreturned, Bool.false_eq_true, if_false, ← attempted_eq_iff]
      by_cases hall : attempted throws ys = ys
      · have hlater := ih hrest (sendBatch size throws (ys.map some) s).1
        rw [hdispatched, hall, List.append_assoc] at hlater
        rw [hlater]
        exact ⟨fun hbatches => ⟨hall, hbatches⟩, fun hboth => hboth.2⟩
      · constructor
        · intro hdelivered
          have hlost := attempted_length_lt hall
          have hbound := sendStream_length_le size throws batches
            (sendBatch size throws (ys.map some) s).1
          rw [hdelivered.1, hdispatched, hrest, reduceOption_marked] at hbound
          simp only [List.length_append] at hbound
          omega
        · intro hboth
          exact absurd hboth.1 hall
    | inr hend =>
      -- the marker is in this batch, and only empty ones follow
      obtain ⟨rfl, hnil⟩ := hend
      by_cases hquiet : ∀ p ∈ packs, throws p = false
      · obtain ⟨hdispatched, hfinished, hreturned⟩ :=
          sendBatch_marked size throws packs s hquiet
        have hempty : ∀ events ∈ batches, ThrowsLast throws events := by
          intro events hmem
          rw [List.flatten_eq_nil_iff.mp hnil events hmem]
          exact throwsLast_nil
        simp only [hreturned, if_true]
        exact ⟨fun _ => ⟨throwsLast_marked.mpr hquiet, hempty⟩,
          fun _ => ⟨hdispatched, hfinished, rfl⟩⟩
      · have hthrower : ∃ p ∈ packs, throws p = true := by simpa using hquiet
        have hreturned := sendBatch_marked_throws size throws packs s hthrower
        simp only [hreturned, Bool.false_eq_true, if_false, sendStream_empty size throws hnil]
        constructor
        · intro hdelivered
          cases hdelivered.2.2
        · intro hboth
          exact absurd (throwsLast_marked.mp hboth.1) hquiet

/-- However the queue is cut into batches and whatever packs throw, all packs are dispatched
and the thread returns exactly when each throwing pack is the last of its batch. -/
theorem delivered_iff {batches : List (List (Option π))} {packs : List π}
    (h : batches.flatten = marked packs) :
    Delivered packs (sendStream size throws batches {}) ↔
      ∀ events ∈ batches, ThrowsLast throws events :=
  delivered_from size throws h {}

end

/-- The second pack throws, at the end of its batch. -/
theorem delivered_two_batches :
    Delivered [1, 2, 3] (sendStream id (· == 2) [[some 1, some 2], [some 3, none]] {}) := by
  refine (delivered_iff id (· == 2) rfl).mpr ?_
  simp [throwsLast_cons, throwsLast_nil]

/-- The same packs in one batch: the third pack and the end marker are lost. -/
theorem batch_lost :
    ¬ ∀ (throws : Nat → Bool) (packs : List Nat) (batches : List (List (Option Nat))),
      batches.flatten = marked packs → Delivered packs (sendStream id throws batches {}) := by
  intro hall
  have hdelivered := hall (· == 2) [1, 2, 3] [[some 1, some 2, some 3, none]] rfl
  exact absurd hdelivered.1 (by decide)

end SyscallSensor.SendStream
