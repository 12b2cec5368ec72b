import SyscallSensor.Pipeline

/-! `multithreaded_sensor::run`: the main thread beside the reader, the worker and the sender.
Without logging it joins all three; with logging it polls the flag that the sender sets. -/
namespace SyscallSensor.SensorRun
open Lib.Transition (System)
open ReadStream (BULK_CAPACITY)
open Pipeline (Tracer Threads readerStep workerStep readerStep_move workerStep_move Reader Worker)
open SendStream (Sender At)
variable {β ρ : Type*}

/- Where the main thread stands: `filtering` is what follows `start()`; `listening` to
   `checking` are the loops of the logging branch, `summarizing` the call of `get_summary()`. -/
inductive Main where
  | filtering
  | joiningReader
  | joiningSender
  | joiningWorker
  | listening
  | polling
  | reporting
  | checking
  | summarizing
  | clearing
  | returned
deriving DecidableEq, Repr

/- How a socket call of the main thread ends. -/
inductive Outcome where
  | ok
  | fails
  | throws
deriving DecidableEq, Repr

structure Run (β ρ : Type*) where
  threads : Threads β ρ
  main : Main := .filtering

/-- Which thread moves, with the choices of its environment. -/
inductive Action where
  | reader
  | worker (count : Nat)
  | sender (count : Nat) (throws : Bool)
  | main (outcome : Outcome)

def Action.Allowed : Action → Prop
  | .worker count => 1 ≤ count ∧ count ≤ BULK_CAPACITY
  | .sender count _ => 1 ≤ count ∧ count ≤ BULK_CAPACITY
  | _ => True

/- `dispatch` may throw. -/
def senderStep (count : Nat) (throws : Bool) (s : Threads β ρ) : Option (Threads β ρ) :=
  match s.sender.at_ with
  | .sending [] =>
    (s._result_queue.wait_dequeue_bulk count).map fun (events, queue) =>
      { s with sender := { s.sender with at_ := .sending events }, _result_queue := queue }
  | _ => (s.sender.step List.length fun _ => throws).map fun sender => { s with sender := sender }

def mainStep (logging : Bool) (outcome : Outcome) (s : Threads β ρ) : Main → Option Main
  | .filtering => some (if logging then .listening else .joiningReader)
  | .joiningReader =>
    match s.reader with
    | .returned => some .joiningSender
    | _ => none
  | .joiningSender =>
    match s.sender.at_ with
    | .returned => some .joiningWorker
    | _ => none
  | .joiningWorker =>
    match s.worker with
    | .returned => some .clearing
    | _ => none
  | .listening =>
    match outcome with
    | .ok => some .polling
    | .fails => some .listening
    | .throws => some .checking
  | .polling => some (if s.sender._finished then .checking else .reporting)
  | .reporting =>
    match outcome with
    | .ok => some .polling
    | _ => some .checking
  | .checking => some (if s.sender._finished then .summarizing else .listening)
  | .summarizing => some .clearing
  | .clearing => some .returned
  | .returned => none

section
variable (tracer : Tracer β ρ) (logging : Bool)

def Action.step : Action → Run β ρ → Option (Run β ρ)
  | .reader, s => (readerStep tracer s.threads).map fun threads => { s with threads := threads }
  | .worker count, s =>
    (workerStep tracer count s.threads).map fun threads => { s with threads := threads }
  | .sender count throws, s =>
    (senderStep count throws s.threads).map fun threads => { s with threads := threads }
  | .main outcome, s => (mainStep logging outcome s.threads s.main).map fun main => { s with main := main }

/- The threads have just been started; `group :: groups` are the bulks that the rounds of the
   reader's loop will make. -/
def started (group : List β) (groups : List (List β)) : Run β ρ where
  threads := { reader := .reading [] group groups }

/-- All interleavings of the four threads for a sequence of bulks, in any grouping. -/
def sensor (bulks : List β) : System (Run β ρ) Action where
  init s := ∃ group groups, (group :: groups).flatten = bulks ∧ s = started group groups
  step action s t := action.Allowed ∧ action.step tracer logging s = some t

end

/-- What the end of a run promises: at `get_summary()` the reader's and the worker's watches
are stopped, and the caller of `run()` finds no thread left. -/
structure Ended (s : Run β ρ) : Prop where
  summary : s.main = .summarizing →
    s.threads._reader_watch.finished = true ∧ s.threads._worker_watch.finished = true
  caller : s.main = .returned →
    s.threads.reader = .returned ∧ s.threads.worker = .returned ∧ s.threads.sender.at_ = .returned

/- The sender's `*_finished = true` comes last, unless the main thread joins. -/
def StoresLast (logging : Bool) : Action → Run β ρ → Prop
  | .sender _ _, s => logging = true → s.threads.sender.at_ = .finishing →
    s.threads.reader = .returned ∧ s.threads.worker = .returned
  | _, _ => True

/- What a thread's position says, kept by every step of every thread. -/
structure Watched (s : Threads β ρ) : Prop where
  reader : s.reader = .returned ↔ s._reader_watch.finished = true
  worker : s.worker = .returned ↔ s._worker_watch.finished = true
  sender : s.sender._finished = true → s.sender.at_ = .returned

/- What has ended stays ended. -/
structure Later (s t : Threads β ρ) : Prop where
  reader : s.reader = .returned → t.reader = .returned
  worker : s.worker = .returned → t.worker = .returned
  sender : s.sender.at_ = .returned → t.sender.at_ = .returned
  finished : s.sender._finished = true → t.sender._finished = true

/-- What the main thread has found out where it stands. -/
def Knows (logging : Bool) (s : Threads β ρ) : Main → Prop
  | .filtering => True
  | .joiningReader => logging = false
  | .joiningSender => logging = false ∧ s.reader = .returned
  | .joiningWorker => logging = false ∧ s.reader = .returned ∧ s.sender.at_ = .returned
  | .summarizing => logging = true ∧ s.sender._finished = true
  | .clearing | .returned =>
    (logging = false ∧ s.reader = .returned ∧ s.worker = .returned ∧ s.sender.at_ = .returned) ∨
      (logging = true ∧ s.sender._finished = true)
  | _ => logging = true

/-- What a step of the sender can do: an exception of `dispatch` ends its batch. -/
inductive SenderMove (count : Nat) (s : Threads β ρ) : Bool → Threads β ρ → Prop where
  | dequeued {throws : Bool} {events : List (Option (List ρ))}
      {queue : SafeQueue (Option (List ρ))} :
    s.sender.at_ = .sending [] → s._result_queue.wait_dequeue_bulk count = some (events, queue) →
      SenderMove count s throws { s with
        sender := { s.sender with at_ := .sending events }, _result_queue := queue }
  | dispatched {current : List ρ} {events : List (Option (List ρ))} :
    s.sender.at_ = .sending (some current :: events) →
      SenderMove count s false { s with
        sender := { s.sender with
          dispatched := s.sender.dispatched ++ [current], at_ := .counting current events } }
  | threw {current : List ρ} {events : List (Option (List ρ))} :
    s.sender.at_ = .sending (some current :: events) →
      SenderMove count s true { s with
        sender := { s.sender with
          dispatched := s.sender.dispatched ++ [current], at_ := .sending [] } }
  | counted {throws : Bool} {current : List ρ} {events : List (Option (List ρ))} :
    s.sender.at_ = .counting current events →
      SenderMove count s throws { s with
        sender := { s.sender with
          _watch := s.sender._watch.add current.length, at_ := .sending events } }
  | marked {throws : Bool} {events : List (Option (List ρ))} :
    s.sender.at_ = .sending (none :: events) →
      SenderMove count s throws { s with sender := { s.sender with at_ := .stopping } }
  | stopped {throws : Bool} : s.sender.at_ = .stopping →
      SenderMove count s throws { s with
        sender := { s.sender with _watch := s.sender._watch.stop, at_ := .finishing } }
  | finished {throws : Bool} : s.sender.at_ = .finishing →
      SenderMove count s throws { s with
        sender := { s.sender with _finished := true, at_ := .returned } }

section
variable {tracer : Tracer β ρ} {logging : Bool} {s t : Threads β ρ} {count : Nat}

theorem senderStep_move {throws : Bool} (h : senderStep count throws s = some t) :
    SenderMove count s throws t := by
  cases hat : s.sender.at_ with
  | sending events =>
    cases events with
    | nil =>
      simp only [senderStep, hat, Option.map_eq_some_iff] at h
      obtain ⟨⟨events, queue⟩, hfetch, rfl⟩ := h
      exact .dequeued hat hfetch
    | cons event events =>
      cases event with
      | none =>
        simp only [senderStep, hat, Sender.step, Option.map_some, Option.some.injEq] at h
        rw [← h]
        exact .marked hat
      | some current =>
        simp only [senderStep, hat, Sender.step, Option.map_some, Option.some.injEq] at h
        rw [← h]
        cases throws with
        | false => exact .dispatched hat
        | true => exact .threw hat
  | counting current events =>
    simp only [senderStep, hat, Sender.step, Option.map_some, Option.some.injEq] at h
    rw [← h]
    exact .counted hat
  | stopping =>
    simp only [senderStep, hat, Sender.step, Option.map_some, Option.some.injEq] at h
    rw [← h]
    exact .stopped hat
  | finishing =>
    simp only [senderStep, hat, Sender.step, Option.map_some, Option.some.injEq] at h
    rw [← h]
    exact .finished hat
  | returned => simp [senderStep, hat, Sender.step] at h

/-- A step of the reader moves nobody else, and its watch stops when it returns. -/
theorem readerStep_frame (h : readerStep tracer s = some t)
    (hs : s.reader = .returned ↔ s._reader_watch.finished = true) :
    s.reader ≠ .returned ∧ t.worker = s.worker ∧ t._worker_watch = s._worker_watch ∧
      t.sender = s.sender ∧ (t.reader = .returned ↔ t._reader_watch.finished = true) := by
  cases readerStep_move h with
  | made hreader | ended hreader =>
    rw [hreader] at hs
    simpa [hreader, EventsWatch.add] using hs
  | @enqueued made groups hreader =>
    rw [hreader] at hs
    cases groups <;> simpa [hreader, Reader.next] using hs
  | stopped hreader => simp [hreader, EventsWatch.stop]

/-- The same for the worker. -/
theorem workerStep_frame (h : workerStep tracer count s = some t)
    (hs : s.worker = .returned ↔ s._worker_watch.finished = true) :
    s.worker ≠ .returned ∧ t.reader = s.reader ∧ t._reader_watch = s._reader_watch ∧
      t.sender = s.sender ∧ (t.worker = .returned ↔ t._worker_watch.finished = true) := by
  cases workerStep_move h with
  | dequeued hworker _ | collected hworker _ | packed hworker _ | flushed hworker _ =>
    rw [hworker] at hs
    simpa [hworker] using hs
  | marked hworker | handed hworker | skipped hworker | released hworker | closed hworker =>
    rw [hworker] at hs
    simpa [hworker] using hs
  | stopped hworker => simp [hworker, EventsWatch.stop]

/-- A step of the sender moves nobody else; only the last one sets the flag. -/
theorem senderStep_frame {throws : Bool} (h : senderStep count throws s = some t)
    (hs : s.sender._finished = true → s.sender.at_ = .returned) :
    s.sender.at_ ≠ .returned ∧ s.sender._finished = false ∧ t.reader = s.reader ∧
      t._reader_watch = s._reader_watch ∧ t.worker = s.worker ∧
      t._worker_watch = s._worker_watch ∧ (t.sender.at_ = .returned ↔ s.sender.at_ = .finishing) ∧
      (t.sender._finished = true ↔ s.sender.at_ = .finishing) := by
  have hrunning : s.sender.at_ ≠ .returned → s.sender._finished = false := by
    intro hat
    rw [Bool.eq_false_iff]
    exact fun hfinished => hat (hs hfinished)
  cases senderStep_move h with
  | dequeued hat | dispatched hat | threw hat | counted hat | marked hat | stopped hat
  | finished hat =>
    have hfalse := hrunning (by rw [hat]; simp)
    simp [hat, hfalse]

theorem reader_watched (h : readerStep tracer s = some t) (hs : Watched s) :
    Watched t ∧ Later s t := by
  obtain ⟨hrunning, hworker, hwatch, hsender, hreturned⟩ := readerStep_frame h hs.reader
  refine ⟨⟨hreturned, ?_, ?_⟩, ⟨fun hr => absurd hr hrunning, ?_, ?_, ?_⟩⟩
  · rw [hworker, hwatch]
    exact hs.worker
  · rw [hsender]
    exact hs.sender
  · rw [hworker]
    exact id
  · rw [hsender]
    exact id
  · rw [hsender]
    exact id

theorem worker_watched (h : workerStep tracer count s = some t) (hs : Watched s) :
    Watched t ∧ Later s t := by
  obtain ⟨hrunning, hreader, hwatch, hsender, hreturned⟩ := workerStep_frame h hs.worker
  refine ⟨⟨?_, hreturned, ?_⟩, ⟨?_, fun hw => absurd hw hrunning, ?_, ?_⟩⟩
  · rw [hreader, hwatch]
    exact hs.reader
  · rw [hsender]
    exact hs.sender
  · rw [hreader]
    exact id
  · rw [hsender]
    exact id
  · rw [hsender]
    exact id

theorem sender_watched {throws : Bool} (h : senderStep count throws s = some t) (hs : Watched s) :
    Watched t ∧ Later s t := by
  obtain ⟨hrunning, hfalse, hreader, hrwatch, hworker, hwwatch, hat, hfinished⟩ :=
    senderStep_frame h hs.sender
  refine ⟨⟨?_, ?_, fun hf => hat.mpr (hfinished.mp hf)⟩, ⟨?_, ?_, fun hr => absurd hr hrunning, ?_⟩⟩
  · rw [hreader, hrwatch]
    exact hs.reader
  · rw [hworker, hwwatch]
    exact hs.worker
  · rw [hreader]
    exact id
  · rw [hworker]
    exact id
  · intro hf
    rw [hfalse] at hf
    cases hf

/-- What the main thread knows stays true while the others go on. -/
theorem knows_later (h : Later s t) {main : Main} (hk : Knows logging s main) :
    Knows logging t main := by
  cases main with
  | joiningSender => exact ⟨hk.1, h.reader hk.2⟩
  | joiningWorker => exact ⟨hk.1, h.reader hk.2.1, h.sender hk.2.2⟩
  | summarizing => exact ⟨hk.1, h.finished hk.2⟩
  | clearing =>
    cases hk with
    | inl hk => exact .inl ⟨hk.1, h.reader hk.2.1, h.worker hk.2.2.1, h.sender hk.2.2.2⟩
    | inr hk => exact .inr ⟨hk.1, h.finished hk.2⟩
  | returned =>
    cases hk with
    | inl hk => exact .inl ⟨hk.1, h.reader hk.2.1, h.worker hk.2.2.1, h.sender hk.2.2.2⟩
    | inr hk => exact .inr ⟨hk.1, h.finished hk.2⟩
  | _ => exact hk

/-- Each step of the main thread finds out what its next position says. -/
theorem knows_next {outcome : Outcome} {main main' : Main}
    (h : mainStep logging outcome s main = some main') (hk : Knows logging s main) :
    Knows logging s main' := by
  cases main with
  | filtering =>
    obtain rfl := Option.some.inj h
    cases logging <;> rfl
  | joiningReader =>
    cases hreader : s.reader with
    | returned =>
      simp only [mainStep, hreader, Option.some.injEq] at h
      rw [← h]
      exact ⟨hk, hreader⟩
    | _ => simp [mainStep, hreader] at h
  | joiningSender =>
    cases hat : s.sender.at_ with
    | returned =>
      simp only [mainStep, hat, Option.some.injEq] at h
      rw [← h]
      exact ⟨hk.1, hk.2, hat⟩
    | _ => simp [mainStep, hat] at h
  | joiningWorker =>
    cases hworker : s.worker with
    | returned =>
      simp only [mainStep, hworker, Option.some.injEq] at h
      rw [← h]
      exact .inl ⟨hk.1, hk.2.1, hworker, hk.2.2⟩
    | _ => simp [mainStep, hworker] at h
  | listening =>
    cases outcome <;> (obtain rfl := Option.some.inj h; exact hk)
  | polling =>
    obtain rfl := Option.some.inj h
    split <;> exact hk
  | reporting =>
    cases outcome <;> (obtain rfl := Option.some.inj h; exact hk)
  | checking =>
    obtain rfl := Option.some.inj h
    by_cases hf : s.sender._finished = true
    · rw [if_pos hf]
      exact ⟨hk, hf⟩
    · rw [if_neg hf]
      exact hk
  | summarizing =>
    obtain rfl := Option.some.inj h
    exact .inr hk
  | clearing =>
    obtain rfl := Option.some.inj h
    exact hk
  | returned => cases h

end

section
variable {tracer : Tracer β ρ} {bulks : List β} {logging : Bool} {s t : Run β ρ}

/-- What every interleaving keeps. -/
structure Inv (logging : Bool) (s : Run β ρ) : Prop where
  watched : Watched s.threads
  knows : Knows logging s.threads s.main

/- What the interleavings with `StoresLast` keep besides. -/
def Last (logging : Bool) (s : Run β ρ) : Prop :=
  logging = true → s.threads.sender._finished = true →
    s.threads.reader = .returned ∧ s.threads.worker = .returned

theorem inv_step {action : Action} (h : Inv logging s)
    (hstep : action.step tracer logging s = some t) : Inv logging t := by
  cases action with
  | reader =>
    obtain ⟨threads, hthread, rfl⟩ := Option.map_eq_some_iff.mp hstep
    have hnext := reader_watched hthread h.watched
    exact ⟨hnext.1, knows_later hnext.2 h.knows⟩
  | worker count =>
    obtain ⟨threads, hthread, rfl⟩ := Option.map_eq_some_iff.mp hstep
    have hnext := worker_watched hthread h.watched
    exact ⟨hnext.1, knows_later hnext.2 h.knows⟩
  | sender count throws =>
    obtain ⟨threads, hthread, rfl⟩ := Option.map_eq_some_iff.mp hstep
    have hnext := sender_watched hthread h.watched
    exact ⟨hnext.1, knows_later hnext.2 h.knows⟩
  | main outcome =>
    obtain ⟨main, hmain, rfl⟩ := Option.map_eq_some_iff.mp hstep
    exact ⟨h.watched, knows_next hmain h.knows⟩

theorem inv_init (hinit : (sensor tracer logging bulks).init s) :
    Inv logging s ∧ Last logging s := by
  obtain ⟨group, groups, -, rfl⟩ := hinit
  refine ⟨⟨⟨by simp [started], by simp [started], by simp [started]⟩, trivial⟩, ?_⟩
  intro _ hfinished
  cases hfinished

theorem last_step {action : Action} (hinv : Inv logging s) (h : Last logging s)
    (hguard : StoresLast logging action s) (hstep : action.step tracer logging s = some t) :
    Last logging t := by
  intro hlogging hfinished
  cases action with
  | reader =>
    obtain ⟨threads, hthread, rfl⟩ := Option.map_eq_some_iff.mp hstep
    obtain ⟨hrunning, -, -, hsender, -⟩ := readerStep_frame hthread hinv.watched.reader
    rw [show threads.sender = s.threads.sender from hsender] at hfinished
    exact absurd (h hlogging hfinished).1 hrunning
  | worker count =>
    obtain ⟨threads, hthread, rfl⟩ := Option.map_eq_some_iff.mp hstep
    obtain ⟨hrunning, -, -, hsender, -⟩ := workerStep_frame hthread hinv.watched.worker
    rw [show threads.sender = s.threads.sender from hsender] at hfinished
    exact absurd (h hlogging hfinished).2 hrunning
  | sender count throws =>
    obtain ⟨threads, hthread, rfl⟩ := Option.map_eq_some_iff.mp hstep
    obtain ⟨-, -, hreader, -, hworker, -, -, hstored⟩ :=
      senderStep_frame hthread hinv.watched.sender
    have hboth := hguard hlogging (hstored.mp hfinished)
    exact ⟨hreader.trans hboth.1, hworker.trans hboth.2⟩
  | main outcome =>
    obtain ⟨main, -, rfl⟩ := Option.map_eq_some_iff.mp hstep
    exact h hlogging hfinished

theorem ended_of_last (hinv : Inv logging s) (h : Last logging s) : Ended s := by
  have hknows := hinv.knows
  refine ⟨?_, ?_⟩
  · intro hmain
    rw [hmain] at hknows
    have hboth := h hknows.1 hknows.2
    exact ⟨hinv.watched.reader.mp hboth.1, hinv.watched.worker.mp hboth.2⟩
  · intro hmain
    rw [hmain] at hknows
    cases hknows with
    | inl hjoined => exact hjoined.2
    | inr hpolled =>
      have hboth := h hpolled.1 hpolled.2
      exact ⟨hboth.1, hboth.2, hinv.watched.sender hpolled.2⟩

theorem inv_reachable (h : (sensor tracer logging bulks).Reachable s) : Inv logging s :=
  h.invariant (fun _ hinit => (inv_init hinit).1) fun _ _ _ hinv hstep => inv_step hinv hstep.2

theorem ended_restricted
    (h : ((sensor tracer logging bulks).restrict (StoresLast logging)).Reachable s) : Ended s := by
  have hboth : Inv logging s ∧ Last logging s := by
    refine h.invariant (I := fun s => Inv logging s ∧ Last logging s) ?_ ?_
    · intro s hinit
      exact inv_init (show (sensor tracer logging bulks).init s from hinit)
    · intro action s t hboth hstep
      exact ⟨inv_step hboth.1 hstep.2.2, last_step hboth.1 hboth.2 hstep.1 hstep.2.2⟩
  exact ended_of_last hboth.1 hboth.2

theorem main_leads (outcome : Outcome) {threads : Threads β ρ} {main main' : Main}
    (h : mainStep logging outcome threads main = some main') :
    (sensor tracer logging bulks).Leads ⟨threads, main⟩ ⟨threads, main'⟩ := by
  have hstep : (Action.main outcome).step tracer logging ⟨threads, main⟩ =
      some ⟨threads, main'⟩ := by
    rw [Action.step, h, Option.map_some]
  exact .single ⟨.main outcome, trivial, hstep⟩

/-- Once the flag is set, the main thread can reach the summary by itself. -/
theorem leads_summary {threads : Threads β ρ} {main : Main}
    (hfinished : threads.sender._finished = true)
    (hmain : main = .filtering ∨ main = .listening ∨ main = .polling ∨ main = .reporting ∨
      main = .checking) :
    (sensor tracer true bulks).Leads ⟨threads, main⟩ ⟨threads, .summarizing⟩ := by
  have hcheck : (sensor tracer true bulks).Leads ⟨threads, .checking⟩ ⟨threads, .summarizing⟩ :=
    main_leads .ok (by rw [mainStep, if_pos hfinished])
  have hlisten : (sensor tracer true bulks).Leads ⟨threads, .listening⟩ ⟨threads, .summarizing⟩ :=
    .trans (main_leads .throws rfl) hcheck
  cases hmain with
  | inl h => exact h ▸ .trans (main_leads .ok rfl) hlisten
  | inr hmain =>
    cases hmain with
    | inl h => exact h ▸ hlisten
    | inr hmain =>
      cases hmain with
      | inl h =>
        exact h ▸ .trans (main_leads .ok (by rw [mainStep, if_pos hfinished])) hcheck
      | inr hmain =>
        cases hmain with
        | inl h => exact h ▸ .trans (main_leads .throws rfl) hcheck
        | inr h => exact h ▸ hcheck

/-- Before the flag is set, a logging main thread has not left its loops. -/
theorem before_summary {threads : Threads β ρ} {main : Main} (hk : Knows true threads main)
    (hrunning : threads.sender._finished = false) :
    main = .filtering ∨ main = .listening ∨ main = .polling ∨ main = .reporting ∨
      main = .checking := by
  cases main with
  | joiningReader => cases hk
  | joiningSender => cases hk.1
  | joiningWorker => cases hk.1
  | summarizing => simp [Knows, hrunning] at hk
  | clearing => simp [Knows, hrunning] at hk
  | returned => simp [Knows, hrunning] at hk
  | _ => simp

/-- An early store is enough: from there the summary can be taken too early. -/
theorem early_store_leads {action : Action} (hreach : (sensor tracer logging bulks).Reachable s)
    (hstep : (sensor tracer logging bulks).step action s t)
    (hearly : ¬ StoresLast logging action s) :
    ∃ u, (sensor tracer logging bulks).Leads t u ∧ ¬ Ended u := by
  have hinv := inv_reachable hreach
  have hinv' := inv_step hinv hstep.2
  cases action with
  | sender count throws =>
    rw [StoresLast, Classical.not_imp, Classical.not_imp] at hearly
    obtain ⟨hlogging, hat, hnot⟩ := hearly
    obtain ⟨threads, hthread, rfl⟩ := Option.map_eq_some_iff.mp hstep.2
    obtain ⟨-, hrunning, hreader, -, hworker, -, -, hstored⟩ :=
      senderStep_frame hthread hinv.watched.sender
    rw [hlogging] at hinv ⊢
    refine ⟨⟨threads, .summarizing⟩,
      leads_summary (hstored.mpr hat) (before_summary hinv.knows hrunning), ?_⟩
    intro hended
    have hwatches := hended.summary rfl
    exact hnot ⟨hreader.symm.trans (hinv'.watched.reader.mpr hwatches.1),
      hworker.symm.trans (hinv'.watched.worker.mpr hwatches.2)⟩
  | _ => exact absurd trivial hearly

end

/-- The end of a run is seen last in every interleaving in which the sender's flag is stored
last or the main thread joins; and after a store that comes too early it can be missed. -/
theorem run_ends_last (tracer : Tracer β ρ) (logging : Bool) (bulks : List β) :
    (∀ s, ((sensor tracer logging bulks).restrict (StoresLast logging)).Reachable s → Ended s) ∧
      ∀ action s t, (sensor tracer logging bulks).Reachable s →
        (sensor tracer logging bulks).step action s t → ¬ StoresLast logging action s →
        ∃ u, (sensor tracer logging bulks).Leads t u ∧ ¬ Ended u := by
  refine ⟨fun s h => ended_restricted h, ?_⟩
  intro action s t hreach hstep hearly
  exact early_store_leads hreach hstep hearly

/- An empty trace. The reader and the worker have passed the end marker on and stand before
   their last calls, the sender has set the flag, and the main thread has found it. -/
def earlySummary : List Action :=
  [.reader, .reader, .reader, .worker 1, .worker 1, .worker 1, .worker 1, .worker 1, .worker 1,
    .worker 1, .sender 1 false, .sender 1 false, .sender 1 false, .sender 1 false, .main .ok,
    .main .ok, .main .ok, .main .ok]

theorem summary_too_early :
    ¬ ∀ (content : List Text.Byte) (fuel : Nat) (read : ReadStream.ReadRun)
      (bulks : List (Pipeline.SafeBulk Trace.SysParamsRecord.make)),
      ReadStream.readStream fuel (.opened content) = some read →
        bulks.map Subtype.val = read.groups.flatten → ∀ s,
          (sensor (Pipeline.syscallsParams Trace.SysParamsRecord.make) true bulks).Reachable s →
            Ended s := by
  intro hall
  have hstart : (sensor (Pipeline.syscallsParams Trace.SysParamsRecord.make) true
      [Pipeline.emptyTrace]).Reachable (started [Pipeline.emptyTrace] []) :=
    ⟨[], .start ⟨[Pipeline.emptyTrace], [], rfl, rfl⟩⟩
  have hallowed : ∀ action ∈ earlySummary, action.Allowed := by
    simp [earlySummary, Action.Allowed, BULK_CAPACITY]
  have hrun := hstart.foldlM (fun s action => action.step _ true s) earlySummary
    (fun action haction s t hstep => ⟨hallowed action haction, hstep⟩) rfl
  have hended := hall _ _ _ _ Pipeline.readStream_emptyTrace rfl _ hrun
  exact absurd (hended.summary rfl).2 (by decide)

end SyscallSensor.SensorRun
