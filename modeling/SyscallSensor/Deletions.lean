import SyscallSensor.Pointers

/-! What the threads leave undeleted. -/
namespace SyscallSensor.Pointers
open Lib (Heap Address)
open Lib.EndMarked (Flow)
open Pipeline (Tracer Threads)
universe u
variable {β ρ : Type u}

/- Whether the worker is past the flush. -/
def Worker.flushed : Worker → Bool
  | .processing _ => false
  | .handing _ _ => false
  | .flushing _ => false
  | _ => true

/-- What is lost without exceptions: the pack of the flush, if it was empty. -/
structure Spared (s : Program β ρ) : Prop where
  empty : ∀ a ∈ s.lost, s.packs.deref a = some []
  once : s.lost.length ≤ if s.worker.flushed then 1 else 0

section
variable {tracer : Tracer β ρ} {bulks : List β} {s t : Program β ρ} {count : Nat}

/- A step that loses nothing and stays in front of the flush or behind it. -/
theorem Spared.kept (hs : Spared s) (hlost : t.lost = s.lost)
    (hsame : ∀ a ∈ s.lost, t.packs.deref a = s.packs.deref a)
    (hflushed : s.worker.flushed = true → t.worker.flushed = true) : Spared t := by
  refine ⟨?_, ?_⟩
  · intro a ha
    rw [hlost] at ha
    rw [hsame a ha]
    exact hs.empty a ha
  · have honce := hs.once
    rw [hlost]
    cases hbefore : s.worker.flushed with
    | true =>
      rw [hflushed hbefore]
      rwa [hbefore] at honce
    | false =>
      rw [hbefore, if_neg Bool.false_ne_true] at honce
      rw [Nat.le_zero.mp honce]
      exact Nat.zero_le _

theorem spared_reader (hs : Spared s) (hstep : readerStep tracer s = some (.ok t)) : Spared t := by
  have hkeep : t.lost = s.lost ∧ t.packs = s.packs ∧ t.worker = s.worker := by
    cases hreader : s.reader with
    | reading bulks group groups =>
      cases group <;> simp only [readerStep, hreader, Option.some.injEq, Except.ok.injEq] at hstep <;>
        simp [← hstep]
    | ending | stopping =>
      simp only [readerStep, hreader, Option.some.injEq, Except.ok.injEq] at hstep
      simp [← hstep]
    | returned => simp [readerStep, hreader] at hstep
  obtain ⟨hlost, hpacks, hworker⟩ := hkeep
  exact hs.kept hlost (fun a _ => by rw [hpacks]) (fun h => by rwa [hworker])

/-- `collect` stores into the aggregator's pack only. -/
theorem collect_keeps {bulk : Address} {ready : Bool} (hinv : Inv s)
    (hcollect : collect tracer bulk s = .ok (t, ready)) :
    t.lost = s.lost ∧ t.__data = s.__data ∧ ∀ a ∈ s.packPointers ++ s.lost,
      t.packs.deref a = s.packs.deref a := by
  simp only [collect, Lib.Outcome.bind_eq_ok] at hcollect
  obtain ⟨x, -, records, -, packs, hput, bulks, -, hlast⟩ := hcollect
  simp only [pure, Except.pure, Except.ok.injEq, Prod.mk.injEq] at hlast
  obtain ⟨rfl, -⟩ := hlast
  cases hstored : s.packs.put s.__data
      (tracer.collect x { __limit := s.__limit, __data := records }).__data with
  | none => simp [through, hstored] at hput
  | some g =>
    simp only [through, hstored, Except.ok.injEq] at hput
    rw [hput] at hstored
    exact ⟨rfl, rfl, hinv.packs.same_put hstored⟩

theorem spared_collects {bulk : Address} {lines : List (Option Address)} (hinv : Inv s)
    (hs : Spared s) (hworker : s.worker = .processing (some bulk :: lines))
    (hstep : workerStep tracer count s = some (.ok t)) : Spared t := by
  simp only [workerStep, hworker, Option.some.injEq, Lib.Outcome.bind_eq_ok] at hstep
  obtain ⟨⟨u, ready⟩, hcollect, hrest⟩ := hstep
  obtain ⟨hlost, hdata, hsame⟩ := collect_keeps hinv hcollect
  rw [List.forall_mem_append] at hsame
  cases ready with
  | false =>
    simp only [Bool.false_eq_true, if_false, pure, Except.pure, Except.ok.injEq] at hrest
    obtain rfl := hrest
    exact hs.kept hlost hsame.2 (by simp [hworker, Worker.flushed])
  | true =>
    simp only [if_true, Program.make_new_pack, pure, Except.pure, Except.ok.injEq] at hrest
    obtain rfl := hrest
    refine hs.kept hlost ?_ (by simp [hworker, Worker.flushed])
    intro a ha
    have hempty := hs.empty a ha
    rw [← hsame.2 a ha] at hempty
    rw [Heap.deref_new_live hempty, ← hempty, hsame.2 a ha]

/-- The one loss: an empty pack at the flush. -/
theorem spared_flushes {ptr : Address} (hs : Spared s) (hworker : s.worker = .flushing ptr)
    (hstep : workerStep tracer count s = some (.ok t)) : Spared t := by
  simp only [workerStep, hworker, Option.some.injEq, Lib.Outcome.bind_eq_ok] at hstep
  obtain ⟨pack, hpack, hrest⟩ := hstep
  cases hptr : s.packs.deref ptr with
  | none => simp [through, hptr] at hpack
  | some found =>
    simp only [through, hptr, Except.ok.injEq] at hpack
    obtain rfl := hpack
    cases found with
    | cons r pack =>
      simp only [List.isEmpty_cons, Bool.false_eq_true, if_false, pure, Except.pure,
        Except.ok.injEq] at hrest
      obtain rfl := hrest
      exact hs.kept rfl (fun _ _ => rfl) (by simp [Worker.flushed])
    | nil =>
      simp only [List.isEmpty_nil, if_true, pure, Except.pure, Except.ok.injEq] at hrest
      obtain rfl := hrest
      have honce := hs.once
      rw [hworker] at honce
      exact ⟨List.forall_mem_cons.mpr ⟨hptr, hs.empty⟩, Nat.succ_le_succ honce⟩

theorem spared_worker (hinv : Inv s) (hs : Spared s)
    (hstep : workerStep tracer count s = some (.ok t)) : Spared t := by
  have hnew := hinv.packs.same_new []
  rw [List.forall_mem_cons, List.forall_mem_append] at hnew
  cases hworker : s.worker with
  | processing lines =>
    cases lines with
    | nil =>
      simp only [workerStep, hworker, Option.map_eq_some_iff] at hstep
      obtain ⟨items, -, hok⟩ := hstep
      obtain rfl := Except.ok.inj hok
      exact hs.kept rfl (fun _ _ => rfl) (by simp [hworker, Worker.flushed])
    | cons line lines =>
      cases line with
      | none =>
        simp only [workerStep, hworker, Program.make_new_pack, Option.some.injEq,
          Except.ok.injEq] at hstep
        obtain rfl := hstep
        exact hs.kept rfl hnew.2.2 (by simp [hworker, Worker.flushed])
      | some bulk => exact spared_collects hinv hs hworker hstep
  | handing ptr lines =>
    simp only [workerStep, hworker, Option.some.injEq, Except.ok.injEq] at hstep
    obtain rfl := hstep
    exact hs.kept rfl (fun _ _ => rfl) (by simp [hworker, Worker.flushed])
  | flushing ptr => exact spared_flushes hs hworker hstep
  | returning | ending | stopping =>
    simp only [workerStep, hworker, Option.some.injEq, Except.ok.injEq] at hstep
    obtain rfl := hstep
    exact hs.kept rfl (fun _ _ => rfl) (by simp [Worker.flushed])
  | returned => simp [workerStep, hworker] at hstep

/-- The deleted pack is not one of the lost. -/
theorem spared_deletes {current : Address} {events : List (Option Address)} (hinv : Inv s)
    (hs : Spared s) (hsender : s.sender = .counting current events)
    (hstep : senderStep count false s = some (.ok t)) : Spared t := by
  simp only [senderStep, hsender, Option.some.injEq, Lib.Outcome.bind_eq_ok, pure, Except.pure,
    Except.ok.injEq] at hstep
  obtain ⟨pack, -, packs, hdelete, rfl⟩ := hstep
  cases hdeleted : s.packs.delete current with
  | none => simp [through, hdeleted] at hdelete
  | some g =>
    simp only [through, hdeleted, Except.ok.injEq] at hdelete
    obtain rfl := hdelete
    refine hs.kept rfl ?_ id
    intro a ha
    have hne : a ≠ current := by
      rintro rfl
      have hdistinct := (List.nodup_cons.mp hinv.packs.distinct).2
      refine (List.nodup_append.mp hdistinct).2.2 a ?_ a ha rfl
      simp [Program.packPointers, hsender, senderHeld]
    rw [Heap.deref_delete hdeleted, if_neg hne]

/-- Without an exception the sender loses nothing, the batch being empty behind the marker. -/
theorem spared_sender (hinv : Inv s) (hs : Spared s)
    (hflow : Flow s.value.downstream s.value.worker.closed (Pipeline.seen s.value.sender.at_))
    (hstep : senderStep count false s = some (.ok t)) : Spared t := by
  cases hsender : s.sender with
  | sending events =>
    cases events with
    | nil =>
      simp only [senderStep, hsender, Option.map_eq_some_iff] at hstep
      obtain ⟨items, -, hok⟩ := hstep
      obtain rfl := Except.ok.inj hok
      exact hs.kept rfl (fun _ _ => rfl) id
    | cons event events =>
      cases event with
      | none =>
        have hat : s.value.sender.at_ = .sending (s.packs.read (none :: events)) := by
          rw [Program.value, hsender, senderValue]
        rw [hat, Threads.downstream, hat] at hflow
        obtain ⟨-, hnil⟩ := Flow.take_marker hflow
        have hevents : events = [] := List.map_eq_nil_iff.mp (List.append_eq_nil_iff.mp hnil).1
        rw [hevents] at hsender
        simp only [senderStep, hsender, Option.some.injEq, Except.ok.injEq] at hstep
        obtain rfl := hstep
        exact hs.kept rfl (fun _ _ => rfl) id
      | some current =>
        simp only [senderStep, hsender, Option.some.injEq, Lib.Outcome.bind_eq_ok,
          Bool.false_eq_true, if_false, pure, Except.pure, Except.ok.injEq] at hstep
        obtain ⟨pack, -, rfl⟩ := hstep
        exact hs.kept rfl (fun _ _ => rfl) id
  | counting current events => exact spared_deletes hinv hs hsender hstep
  | stopping | finishing =>
    simp only [senderStep, hsender, Option.some.injEq, Except.ok.injEq] at hstep
    obtain rfl := hstep
    exact hs.kept rfl (fun _ _ => rfl) id
  | returned => simp [senderStep, hsender] at hstep

theorem quietly_pipeline (h : (quietly tracer bulks).Reachable s) :
    (Pipeline.pipeline tracer bulks).Reachable s.value := by
  have hquiet : (quietly tracer bulks).Refines
      ((SensorRun.sensor tracer false bulks).restrict fun action _ => action.Quiet) _ Program.run _ :=
    (program_refines tracer false bulks).restrict fun action shown s hshown hquiet =>
      Option.some.inj hshown ▸ hquiet
  exact (SensorRun.quiet_refines tracer false bulks).reachable (hquiet.reachable h)

theorem quietly_spared (h : (quietly tracer bulks).Reachable s) : Spared s := by
  obtain ⟨actions, hrun⟩ := h
  induction hrun with
  | start hinit =>
    obtain ⟨group, groups, -, rfl⟩ := hinit
    exact ⟨by simp, Nat.zero_le _⟩
  | @next actions action s t hbefore hstep ih =>
    obtain ⟨hquiet, hallowed, hstep⟩ := hstep
    have hinv := ((program_refines tracer false bulks).invariant hbefore.unrestrict.reachable).1
    cases action with
    | reader => exact spared_reader ih hstep
    | worker count => exact spared_worker hinv ih hstep
    | sender count throws =>
      obtain rfl : throws = false := hquiet
      have hpipeline := Pipeline.inv_reachable (quietly_pipeline hbefore.reachable)
      exact spared_sender hinv ih hpipeline.downstream hstep

/-- Behind the end marker the stream queue is empty, and no other thread holds a bulk. -/
theorem bulks_deleted (h : (program tracer bulks).Reachable s) (hworker : s.worker = .returned)
    (a : Address) : s.bulks.deref a = none := by
  obtain ⟨hinv, hreach⟩ := (program_refines tracer false bulks).invariant h
  obtain ⟨gone, hplain, -⟩ := SensorRun.plain_reachable hreach
  have hflow := hplain.upstream
  have hdone : s.value.worker = .returned := by rw [Program.value, hworker, Worker.value]
  rw [Program.run, Threads.upstream, hdone] at hflow
  obtain ⟨hclosed, hqueue⟩ := Flow.items_seen hflow
  have hreader : s.reader.held = [] := by
    cases hr : s.reader with
    | reading bulks group groups =>
      simp [Program.value, hr, Reader.value, Pipeline.Reader.closed] at hclosed
    | ending | stopping | returned => rfl
  have hnone : s._stream_queue.q.reduceOption = [] :=
    Heap.reduceOption_of_read hinv.bulks (by simp +contextual [Program.bulkPointers]) hqueue
  have hbulks := hinv.bulks
  rw [Program.bulkPointers, hreader, hnone, hworker] at hbulks
  exact hbulks.none_left a

/-- At the end the aggregator and the lost pointers are all that is left. -/
theorem packs_left (h : (quietly tracer bulks).Reachable s) (hworker : s.worker = .returned)
    (hsender : s.sender = .returned) :
    s.packs.Owns (s.__data :: s.lost) ∧ packAt s.packs s.__data = [] := by
  have hpipeline := Pipeline.inv_reachable (quietly_pipeline h)
  obtain ⟨actions, hrun⟩ := h
  have hinv := ((program_refines tracer false bulks).invariant hrun.unrestrict.reachable).1
  have hdone : s.value.sender.at_ = .returned := by rw [Program.value, hsender, senderValue]
  have hdown := hpipeline.downstream
  rw [Threads.downstream, hdone] at hdown
  obtain ⟨-, hqueue⟩ := Flow.items_seen hdown
  have hnone : s._result_queue.q.reduceOption = [] :=
    Heap.reduceOption_of_read hinv.packs (by simp +contextual [Program.packPointers]) hqueue
  have hpacks := hinv.packs
  rw [Program.packPointers, hnone, hworker, hsender] at hpacks
  exact ⟨hpacks, hpipeline.flushed (by rw [Program.value, hworker]; rfl)⟩

end

/-- When the worker has returned, every bulk has been deleted, exceptions or not. Without
exceptions, when the sender has returned too, every pack with a record in it has been deleted, and
of the empty ones at most two are left: the aggregator's, and the one of the flush. -/
theorem deletes_everything (tracer : Tracer β ρ) (bulks : List β) {s : Program β ρ}
    (h : (program tracer bulks).Reachable s) (hworker : s.worker = .returned) :
    (∀ a, s.bulks.deref a = none) ∧
      ((quietly tracer bulks).Reachable s → s.sender = .returned →
        (∀ a pack, s.packs.deref a = some pack → pack = []) ∧
          ∃ owned, s.packs.Owns owned ∧ owned.length ≤ 2) := by
  refine ⟨bulks_deleted h hworker, ?_⟩
  intro hquiet hsender
  have hspared := quietly_spared hquiet
  obtain ⟨hpacks, hdata⟩ := packs_left hquiet hworker hsender
  constructor
  · intro a pack hpack
    cases List.mem_cons.mp ((hpacks.live a).mpr ⟨pack, hpack⟩) with
    | inl haggregator =>
      rw [← haggregator, packAt, hpack] at hdata
      exact hdata
    | inr hlost =>
      rw [hspared.empty a hlost] at hpack
      exact (Option.some.inj hpack).symm
  · have honce := hspared.once
    rw [hworker] at honce
    exact ⟨_, hpacks, Nat.succ_le_succ honce⟩

theorem deletes_everything_oneLine :
    ∃ s : Program (Pipeline.SafeBulk Trace.SysParamsRecord.make) Trace.SysParamsRecord,
      s.dispatched.length = 1 ∧ (∀ a, s.bulks.deref a = none) ∧
        ∃ owned, s.packs.Owns owned ∧ owned.length ≤ 2 := by
  obtain ⟨s, hreachable, hworker, hsender, hdispatched⟩ := oneLine_run
  have hquiet := hreachable
  obtain ⟨actions, hrun⟩ := hreachable
  obtain ⟨hbulks, hpacks⟩ := deletes_everything _ _ hrun.unrestrict.reachable hworker
  exact ⟨s, hdispatched, hbulks, (hpacks hquiet hsender).2⟩

end SyscallSensor.Pointers
