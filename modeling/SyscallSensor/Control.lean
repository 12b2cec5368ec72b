import SyscallSensor.BaseSensor
import SyscallSensor.LogFiles
import SyscallSensor.Lib.Refinement

/-! The control files of ftrace beside the commands of `History`: a sensor writes them one after the
other, also while a `stop` clears them, and a sensor that dies leaves them as they are. -/
namespace SyscallSensor.Control
open Text Commands Utils Base
open Daemon (Effect get_sensor_pid killSteps killSteps_eq)
open History (Between history)
open LogFiles (unique_of_between running_of_perform pid_cases)
open Lib.Transition (System)

def tracing_on : List Byte := FTRACE_PATH ++ ascii "/tracing_on"
def filter : List Byte := SYSCALLS_PATH ++ ascii "/" ++ SYS_ENTRY ++ ascii "/" ++ ascii "filter"

/-- The writes of a sensor in order: `config_events` in `main`, the rest in `run`. -/
def controls (pids : List Int) : List Append :=
  config_events true false ++ [add_filter pids, set_trace true, set_trace false] ++ clear_filters

/- The lines that have been written to control files, and what each sensor has still to write. -/
structure World where
  machine : Machine
  written : List Append
  todo : Nat → List Append

/-- An event of a history, in which `get_pids` gives `pids` to the stop or to the sensor that is
started, and the sensor makes `turns` writes behind the writes of the stop, a number behind each;
and the next write of the sensor `p` between two commands. -/
inductive Event where
  | machine (pids : List Int) (turns : List Nat) (e : History.Event)
  | write (p : Nat) (a : Append)

def line? : Effect → Option Append
  | .append line => some line
  | _ => none

/- Only a start that read -1 forks. -/
def World.start (w : World) (machine : Machine) (pids : List Int) : Option Nat → Option World
  | none => some { w with machine := machine }
  | some c =>
    if get_sensor_pid w.machine.pid_file = -1 then
      some { w with machine := machine, todo := Function.update w.todo c (controls pids) }
    else none

/-- The writes of a stop, and behind each of them as many of the sensor's as its turn has. -/
def interleave : List Append → List Nat → List Append → List Append
  | [], _, _ => []
  | line :: lines, turns, todo =>
    line :: (todo.take (turns.headD 0) ++ interleave lines turns.tail (todo.drop (turns.headD 0)))

/- What the sensor that the pid file names has still to write. -/
def World.left (w : World) : List Append :=
  let p := (get_sensor_pid w.machine.pid_file).toNat
  if w.machine.proc p = .running then w.todo p else []

/- The writes that the sensor makes between the stop's last write and the kill of `pid`. -/
def late (turns : List Nat) : Nat := turns.getD clear_filters.length 0

/- A sensor that the stop hits through one of its thread ids is gone before the last write. -/
def World.stop (w : World) (machine : Machine) (p : Nat) (pids : List Int)
    (victims turns : List Nat) : Option World :=
  let pid := get_sensor_pid w.machine.pid_file
  if pid ≠ -1 then
    if pid.toNat ∈ victims ∧ 0 < late turns then none
    else
      some { w with
        machine := machine
        written := w.written ++ interleave ((killSteps p pid pids).filterMap line?) turns w.left }
  else some { w with machine := machine }

def perform (w : World) : Event → Option World
  | .machine pids turns (.complete p args child victims) => do
    let machine ← History.perform w.machine (.complete p args child victims)
    match command args with
    | some .start => w.start machine pids child
    | some .stop => w.stop machine p pids victims turns
    | _ => some { w with machine := machine }
  | .machine _ _ e => (History.perform w.machine e).map fun machine => { w with machine := machine }
  | .write p a =>
    if w.machine.proc p = .running ∧ (w.todo p).head? = some a then
      some { w with
        written := w.written ++ [a]
        todo := Function.update w.todo p (w.todo p).tail }
    else none

def Event.Assigned : Event → Prop
  | .machine _ _ e => e.Assigned
  | .write _ _ => True

/- What was written to a file last. -/
def lastTo (file : List Byte) (as : List Append) : Option Append :=
  as.reverse.find? fun a => a.filename = file

def TracingOn (as : List Append) : Prop := lastTo tracing_on as = some (set_trace true)

instance (as : List Append) : Decidable (TracingOn as) :=
  inferInstanceAs (Decidable (lastTo tracing_on as = some (set_trace true)))

/-- All histories with the writes of their sensors, where tracing is not on at first. -/
def system : System World Event where
  init w := history.init w.machine ∧ ¬ TracingOn w.written
  step e w t := e.Assigned ∧ perform w e = some t

def Event.history? : Event → Option History.Event
  | .machine _ _ e => some e
  | .write _ _ => none

/- The sensor stands before its `set_trace(true)` when a stop sets tracing off, and between its two
   `set_trace` calls when the stop kills it. -/
def Overtakes (turns : List Nat) (todo : List Append) : Prop :=
  let rest := todo.drop (turns.take clear_filters.length).sum
  set_trace true ∈ rest ∧ rest.drop (late turns) = set_trace false :: clear_filters

instance (turns : List Nat) (todo : List Append) : Decidable (Overtakes turns todo) :=
  inferInstanceAs (Decidable (_ ∧ _))

/-- No sensor overtakes the stop that kills it. -/
def InTime : Event → World → Prop
  | .machine _ turns (.complete _ args _ _), w =>
    command args = some .stop → ¬ Overtakes turns w.left
  | _, _ => True

/-- The running sensor writes alone, on a machine that did not trace. -/
def Alone (w : World) (p : Nat) : Prop :=
  ∃ pids base made,
    controls pids = made ++ w.todo p ∧ w.written = base ++ made ∧ ¬ TracingOn base

/- What the histories keep: without a pid file nobody traces. -/
structure Kept (w : World) : Prop where
  clean : get_sensor_pid w.machine.pid_file = -1 → ¬ TracingOn w.written
  sensor : ∀ p, w.machine.proc p = .running → Alone w p

theorem lastTo_append (file : List Byte) (as as' : List Append) :
    lastTo file (as ++ as') = (lastTo file as').or (lastTo file as) := by
  rw [lastTo, List.reverse_append, List.find?_append, lastTo, lastTo]

/-- A stop writes what the sensor itself writes at its end, the other way round. -/
theorem killSteps_lines (curr_pid pid : Int) (pids : List Int) :
    (killSteps curr_pid pid pids).filterMap line? = clear_filters ++ [set_trace false] := by
  have hkills : ((pids.filter fun itr => curr_pid ≠ itr).map fun itr =>
      Effect.kill itr Daemon.SIGKILL).filterMap line? = [] := by
    rw [List.filterMap_map, List.filterMap_eq_nil_iff]
    exact fun _ _ => rfl
  rw [killSteps_eq, List.filterMap_append, List.filterMap_append, hkills, List.append_nil]
  rfl

theorem interleave_append_singleton (lines : List Append) (line : Append) (turns : List Nat)
    (todo : List Append) :
    interleave (lines ++ [line]) turns todo =
      interleave lines turns todo ++
        line :: (todo.drop (turns.take lines.length).sum).take (turns.getD lines.length 0) := by
  induction lines generalizing turns todo with
  | nil => cases turns <;> simp [interleave]
  | cons first lines ih =>
    cases turns with
    | nil =>
      have hrest := ih [] todo
      simp only [List.take_nil, List.sum_nil, List.drop_zero, List.getD_nil] at hrest ⊢
      simp [interleave, hrest]
    | cons n turns =>
      simp [interleave, ih, List.drop_drop]

/-- Where a sensor stands between its writes, and what its own writes have left. -/
theorem stages {pids : List Int} {made todo : List Append} (h : controls pids = made ++ todo) :
    (set_trace true ∈ todo ∧ todo ≠ set_trace false :: clear_filters ∧
        lastTo tracing_on made = none) ∨
      (todo = set_trace false :: clear_filters ∧ lastTo tracing_on made = some (set_trace true) ∧
        lastTo filter made = some (add_filter pids)) ∨
      (todo <:+ clear_filters ∧ lastTo tracing_on made = some (set_trace false)) := by
  have height : (controls pids).length = 8 := rfl
  have hlength : made.length ≤ 8 := by
    rw [← height, h, List.length_append]
    exact Nat.le_add_right _ _
  have hmade : made = (controls pids).take made.length := by rw [h, List.take_left]
  have htodo : todo = (controls pids).drop made.length := by rw [h, List.drop_left]
  generalize made.length = n at hlength hmade htodo
  subst hmade htodo
  have hfour : (set_trace false :: clear_filters).length = 4 := rfl
  have hbefore (hn : n ≤ 3) : set_trace true ∈ (controls pids).drop n ∧
      (controls pids).drop n ≠ set_trace false :: clear_filters := by
    refine ⟨?_, ?_⟩
    · -- the fourth write
      refine List.mem_of_getElem? (i := 3 - n) ?_
      rw [List.getElem?_drop, Nat.add_sub_cancel' hn]
      rfl
    · intro hdrop
      have hrest := congrArg List.length hdrop
      rw [List.length_drop] at hrest
      omega
  have hbehind (hn : 5 ≤ n) : (controls pids).drop n <:+ clear_filters := by
    have hclear : (controls pids).drop 5 = clear_filters := rfl
    rw [← Nat.add_sub_cancel' hn, ← List.drop_drop, hclear]
    exact List.drop_suffix _ _
  interval_cases n
  · exact .inl ⟨(hbefore (by decide)).1, (hbefore (by decide)).2, rfl⟩
  · exact .inl ⟨(hbefore (by decide)).1, (hbefore (by decide)).2, rfl⟩
  · exact .inl ⟨(hbefore (by decide)).1, (hbefore (by decide)).2, rfl⟩
  · exact .inl ⟨(hbefore (by decide)).1, (hbefore (by decide)).2, rfl⟩
  · exact .inr (.inl ⟨rfl, rfl, rfl⟩)
  · exact .inr (.inr ⟨hbehind (by decide), rfl⟩)
  · exact .inr (.inr ⟨hbehind (by decide), rfl⟩)
  · exact .inr (.inr ⟨hbehind (by decide), rfl⟩)
  · exact .inr (.inr ⟨hbehind (by decide), rfl⟩)

theorem set_trace_ne : set_trace false ≠ set_trace true := by decide

/-- The writes `taken` set tracing on and not off again exactly when they bring the sensor from
before its two `set_trace` calls to between them. -/
theorem on_iff_between {pids : List Int} {made taken todo : List Append}
    (h : controls pids = made ++ (taken ++ todo)) :
    TracingOn taken ↔
      set_trace true ∈ taken ++ todo ∧ todo = set_trace false :: clear_filters := by
  have hboth : controls pids = (made ++ taken) ++ todo := by rw [h, List.append_assoc]
  have hmem (hon : TracingOn taken) : set_trace true ∈ taken ++ todo := by
    refine List.mem_append_left todo (List.mem_reverse.mp ?_)
    exact List.mem_of_find?_eq_some hon
  have hlate (hsuffix : taken ++ todo <:+ set_trace false :: clear_filters) :
      set_trace true ∉ taken ++ todo :=
    fun htrue => absurd (hsuffix.subset htrue) (by decide)
  have hlast := lastTo_append tracing_on made taken
  cases stages h with
  | inl hearly =>
    obtain ⟨htrue, -, hnone⟩ := hearly
    rw [hnone, Option.or_none] at hlast
    rw [TracingOn, ← hlast]
    cases stages hboth with
    | inl hstill => simp [hstill.2.1, hstill.2.2]
    | inr hset =>
      cases hset with
      | inl htracing => exact iff_of_true htracing.2.1 ⟨htrue, htracing.1⟩
      | inr hend =>
        refine iff_of_false ?_ ?_
        · rw [hend.2, Option.some.injEq]
          exact set_trace_ne
        · rintro ⟨-, rfl⟩
          exact absurd hend.1.length_le (by decide)
  | inr hset =>
    have hsuffix : taken ++ todo <:+ set_trace false :: clear_filters := by
      cases hset with
      | inl htracing => exact htracing.1 ▸ List.suffix_refl _
      | inr hend => exact hend.1.trans (List.suffix_cons _ _)
    exact iff_of_false (fun hon => hlate hsuffix (hmem hon)) fun hstop => hlate hsuffix hstop.1

/-- A stop leaves tracing on exactly when the sensor overtakes it. -/
theorem on_behind_stop {pids pids' : List Int} {made todo : List Append} (as : List Append)
    (curr_pid pid : Int) (turns : List Nat) (h : controls pids = made ++ todo) :
    TracingOn (as ++ interleave ((killSteps curr_pid pid pids').filterMap line?) turns todo) ↔
      Overtakes turns todo := by
  obtain ⟨done, rest, rfl, hdone⟩ : ∃ done rest, todo = done ++ rest ∧
      rest = todo.drop (turns.take clear_filters.length).sum :=
    ⟨_, _, (List.take_append_drop _ todo).symm, rfl⟩
  have hrest : controls pids =
      (made ++ done) ++ (rest.take (late turns) ++ rest.drop (late turns)) := by
    rw [List.take_append_drop, h, List.append_assoc]
  have hoff : lastTo tracing_on [set_trace false] = some (set_trace false) := rfl
  rw [Overtakes, ← hdone, killSteps_lines, interleave_append_singleton, ← hdone]
  have hiff := on_iff_between hrest
  rw [List.take_append_drop] at hiff
  rw [← hiff, TracingOn, TracingOn, lastTo_append, List.append_cons, lastTo_append, lastTo_append,
    hoff, Option.some_or, ← late]
  cases lastTo tracing_on (rest.take (late turns)) with
  | some last => rw [Option.some_or, Option.some_or]
  | none =>
    rw [Option.none_or, Option.some_or]
    exact iff_of_false (by simp [set_trace_ne]) (by simp)

/-- What a stop with a pid does to the machine. -/
theorem machine_of_stop {m t : Machine} {died : Prop} {p : Nat} {args : List (List Byte)}
    {child : Option Nat} {victims : List Nat} (hm : Between m died)
    (h : History.perform m (.complete p args child victims) = some t)
    (hstop : command args = some .stop) (hpid : get_sensor_pid m.pid_file ≠ -1) :
    t = ((m.remove_sensor_pid.killAll victims).killAll
      [(get_sensor_pid m.pid_file).toNat]).set p .absent := by
  obtain ⟨-, hend⟩ := History.perform_complete h
  rw [hstop, History.toEnd, if_pos hpid] at hend
  exact History.stop_ends ((pid_cases hm).resolve_left hpid) hend

/-- After a stop with a pid no sensor is left. -/
theorem none_running_of_stop {m t : Machine} {died : Prop} {p : Nat} {args : List (List Byte)}
    {child : Option Nat} {victims : List Nat} (hm : Between m died)
    (h : History.perform m (.complete p args child victims) = some t)
    (hstop : command args = some .stop) (hpid : get_sensor_pid m.pid_file ≠ -1) (q : Nat) :
    t.proc q ≠ .running := by
  intro hq
  rw [machine_of_stop hm h hstop hpid] at hq
  obtain ⟨hvictim, hkilled⟩ := History.running_of_killAll (History.running_of_set (by decide) hq).2
  have hran : m.proc q = .running := (History.running_of_killAll hkilled).2
  cases hm with
  | clean hdied hfile hproc => exact hproc q hran
  | stale hdied d hd hfile hproc => exact hproc q hran
  | live hdied d hd hfile hproc =>
    rw [hfile, History.get_sensor_pid_writePid hd, (hproc q).mp hran] at hvictim
    exact hvictim (List.mem_singleton.mpr (Int.toNat_natCast d).symm)

/- What a stop comes to in the world. -/
theorem World.stop_eq_some {w t : World} {machine : Machine} {p : Nat} {pids : List Int}
    {victims turns : List Nat} (h : w.stop machine p pids victims turns = some t) :
    get_sensor_pid w.machine.pid_file = -1 ∧ t = { w with machine := machine } ∨
      get_sensor_pid w.machine.pid_file ≠ -1 ∧
        t = { w with
          machine := machine
          written := w.written ++
            interleave ((killSteps p (get_sensor_pid w.machine.pid_file) pids).filterMap line?)
              turns w.left } := by
  rw [World.stop] at h
  by_cases hpid : get_sensor_pid w.machine.pid_file = -1
  · rw [if_neg (not_not_intro hpid)] at h
    exact .inl ⟨hpid, (Option.some.inj h).symm⟩
  · rw [if_pos hpid] at h
    exact .inr ⟨hpid, (Option.some.inj (Option.ite_none_left_eq_some.mp h).2).symm⟩

theorem perform_machine {w t : World} {pids : List Int} {turns : List Nat} {e : History.Event}
    (h : perform w (.machine pids turns e) = some t) :
    History.perform w.machine e = some t.machine := by
  cases e with
  | complete p args child victims =>
    simp only [perform, Option.bind_eq_bind, Option.bind_eq_some_iff] at h
    obtain ⟨machine, hmachine, ht⟩ := h
    rw [hmachine]
    cases hcommand : command args with
    | none =>
      rw [hcommand] at ht
      rw [← Option.some.inj ht]
    | some cmd =>
      rw [hcommand] at ht
      cases cmd with
      | start =>
        cases child with
        | none => rw [← Option.some.inj ht]
        | some c =>
          obtain ⟨-, rfl⟩ := Lib.Outcome.guarded_eq_some ht
          rfl
      | stop =>
        cases World.stop_eq_some ht with
        | inl hnone => rw [hnone.2]
        | inr hsome => rw [hsome.2]
      | status => rw [← Option.some.inj ht]
  | death p | spawn p | gone p =>
    obtain ⟨machine, hmachine, rfl⟩ := Option.map_eq_some_iff.mp h
    exact hmachine

/-- What the histories do to the machine is a history. -/
theorem refines_history : system.Refines history (fun _ => True) World.machine Event.history? where
  init _ hinit := ⟨trivial, hinit.1⟩
  keep _ _ _ _ _ := trivial
  step e w t _ hstep := by
    cases e with
    | machine pids turns e => exact .inr ⟨e, rfl, hstep.1, perform_machine hstep.2⟩
    | write p a =>
      obtain ⟨-, rfl⟩ := Lib.Outcome.guarded_eq_some hstep.2
      exact .inl rfl

theorem between_of_run {events : List Event} {w : World} (h : system.Run events w) :
    ∃ died, Between w.machine died := by
  obtain ⟨shown, -, hrun⟩ := refines_history.run h
  exact ⟨_, History.between_of_run hrun⟩

/- An event that writes nothing and starts nobody. -/
theorem Kept.quiet {w : World} {machine : Machine} (hw : Kept w)
    (hfile : machine.pid_file = w.machine.pid_file)
    (hproc : ∀ q, machine.proc q = .running → w.machine.proc q = .running) :
    Kept { w with machine := machine } :=
  ⟨fun hpid => hw.clean (hfile ▸ hpid), fun q hq => hw.sensor q (hproc q hq)⟩

/- A start that comes to its end forks, if it read -1 and the fork succeeds. -/
theorem start_forks {m t : Machine} {p : Nat} {args : List (List Byte)} {child : Option Nat}
    {victims : List Nat} (h : History.perform m (.complete p args child victims) = some t)
    (hstart : command args = some .start) :
    t = m ∨ get_sensor_pid m.pid_file = -1 ∧ ∃ c, child = some c := by
  obtain ⟨hfree, hend⟩ := History.perform_complete h
  rw [hstart] at hend
  by_cases hpid : get_sensor_pid m.pid_file = -1
  · rw [hpid] at hend
    refine (History.start_ends hfree hend).imp_right ?_
    rintro ⟨c, hchild, -⟩
    exact ⟨hpid, c, hchild⟩
  · exact .inl (History.ends_unchanged hfree (by simp) (fun _ => hpid) hend)

theorem Kept.left {w : World} (hw : Kept w) : ∃ pids made, controls pids = made ++ w.left := by
  rw [World.left]
  by_cases hp : w.machine.proc (get_sensor_pid w.machine.pid_file).toNat = .running
  · obtain ⟨pids, -, made, hcontrols, -⟩ := hw.sensor _ hp
    exact ⟨pids, made, (if_pos hp).symm ▸ hcontrols⟩
  · exact ⟨[], controls [], by rw [if_neg hp, List.append_nil]⟩

theorem Kept.complete {w t : World} {died : Prop} {pids : List Int} {turns : List Nat} {p : Nat}
    {args : List (List Byte)} {child : Option Nat} {victims : List Nat} (hw : Kept w)
    (hm : Between w.machine died)
    (htime : InTime (.machine pids turns (.complete p args child victims)) w)
    (h : perform w (.machine pids turns (.complete p args child victims)) = some t) : Kept t := by
  have hmachine := perform_machine h
  have hran (q : Nat) (hq : t.machine.proc q = .running) := running_of_perform hm hmachine hq
  simp only [perform, Option.bind_eq_bind, Option.bind_eq_some_iff] at h
  obtain ⟨machine, hperform, ht⟩ := h
  obtain ⟨hfree, hend⟩ := History.perform_complete hperform
  have hsame (heq : machine = w.machine) : Kept { w with machine := machine } :=
    hw.quiet (by rw [heq]) (by simp [heq])
  cases hcommand : command args with
  | none =>
    rw [hcommand] at ht hend
    rw [← Option.some.inj ht]
    exact hsame (History.ends_unchanged hfree (by simp) (by simp) hend)
  | some cmd =>
    rw [hcommand] at ht
    cases cmd with
    | start =>
      cases child with
      | none =>
        rw [← Option.some.inj ht]
        exact hsame ((start_forks hperform hcommand).resolve_right (by simp))
      | some c =>
        obtain ⟨hpid, rfl⟩ := Lib.Outcome.guarded_eq_some ht
        refine ⟨fun _ => hw.clean hpid, ?_⟩
        intro q hq
        by_cases hc : q = c
        · -- the sensor that was started
          refine ⟨pids, w.written, [], ?_, (List.append_nil _).symm, hw.clean hpid⟩
          rw [hc]
          exact (Function.update_self c (controls pids) w.todo).symm
        · have hbefore := (hran q hq).resolve_right (by simp [Ne.symm hc])
          have htodo : Function.update w.todo c (controls pids) q = w.todo q :=
            Function.update_of_ne hc _ _
          rw [Alone]
          dsimp only
          rw [htodo]
          exact hw.sensor q hbefore
    | stop =>
      cases World.stop_eq_some ht with
      | inl hnone =>
        rw [hcommand] at hend
        rw [hnone.2]
        exact hsame (History.ends_unchanged hfree (fun _ => hnone.1) (by simp) hend)
      | inr hsome =>
        obtain ⟨hpid, rfl⟩ := hsome
        obtain ⟨pids', made, hleft⟩ := hw.left
        refine ⟨fun _ hon => htime hcommand ((on_behind_stop _ _ _ _ hleft).mp hon), ?_⟩
        intro q hq
        exact absurd hq (none_running_of_stop hm hperform hcommand hpid q)
    | status =>
      rw [hcommand] at hend
      rw [← Option.some.inj ht]
      exact hsame (History.ends_unchanged hfree (by simp) (by simp) hend)

theorem Kept.machine {w t : World} {died : Prop} {pids : List Int} {turns : List Nat}
    {e : History.Event} (hw : Kept w) (hm : Between w.machine died)
    (htime : InTime (.machine pids turns e) w) (h : perform w (.machine pids turns e) = some t) :
    Kept t := by
  cases e with
  | complete p args child victims => exact hw.complete hm htime h
  | death p | gone p =>
    have hran (q : Nat) (hq : t.machine.proc q = .running) :=
      (running_of_perform hm (perform_machine h) hq).resolve_right (by simp)
    obtain ⟨machine, hmachine, rfl⟩ := Option.map_eq_some_iff.mp h
    have hexit := (Option.ite_none_left_eq_some.mp (Option.ite_none_right_eq_some.mp hmachine).2).2
    exact hw.quiet (by rw [← Option.some.inj hexit, Machine.set_pid_file]) hran
  | spawn p =>
    have hran (q : Nat) (hq : t.machine.proc q = .running) :=
      (running_of_perform hm (perform_machine h) hq).resolve_right (by simp)
    obtain ⟨machine, hmachine, rfl⟩ := Option.map_eq_some_iff.mp h
    obtain ⟨-, rfl⟩ := Lib.Outcome.guarded_eq_some hmachine
    exact hw.quiet rfl hran

theorem Kept.write {w : World} {died : Prop} {p : Nat} {a : Append} (hw : Kept w)
    (hm : Between w.machine died) (hp : w.machine.proc p = .running)
    (ha : (w.todo p).head? = some a) :
    Kept { w with
      written := w.written ++ [a]
      todo := Function.update w.todo p (w.todo p).tail } := by
  refine ⟨?_, ?_⟩
  · -- a sensor runs, so its pid is in the file
    intro hpid
    cases hm with
    | clean hdied hfile hproc => exact absurd hp (hproc p)
    | stale hdied d hd hfile hproc => exact absurd hp (hproc p)
    | live hdied d hd hfile hproc =>
      dsimp only at hpid
      rw [hfile, History.get_sensor_pid_writePid hd] at hpid
      omega
  · intro q hq
    -- only one sensor runs, so nobody else writes
    obtain rfl := unique_of_between hm hp hq
    obtain ⟨pids, base, made, hcontrols, hwritten, hbase⟩ := hw.sensor p hp
    obtain ⟨rest, hrest⟩ := List.head?_eq_some_iff.mp ha
    refine ⟨pids, base, made ++ [a], ?_, ?_, hbase⟩
    · rw [hcontrols, hrest]
      simp
    · rw [hwritten, List.append_assoc]

theorem kept_of_run {events : List Event} {w : World} (h : (system.restrict InTime).Run events w) :
    Kept w := by
  induction h with
  | start hw =>
    refine ⟨fun _ => hw.2, ?_⟩
    intro p hp
    exact absurd (IsDaemon.claims (.inr hp)) (not_claims_of_init hw.1 p)
  | @next events e w t hrun hstep ih =>
    obtain ⟨htime, hstep⟩ := hstep
    obtain ⟨died, hbetween⟩ := between_of_run hrun.unrestrict
    cases e with
    | machine pids turns e => exact ih.machine hbetween htime hstep.2
    | write p a =>
      obtain ⟨⟨hp, ha⟩, rfl⟩ := Lib.Outcome.guarded_eq_some hstep.2
      exact ih.write hbetween hp ha

/- A stop that reads -1 finds no sensor. -/
theorem left_eq_nil {w : World} {died : Prop} (hm : Between w.machine died)
    (hpid : get_sensor_pid w.machine.pid_file = -1) : w.left = [] := by
  refine if_neg ?_
  cases hm with
  | clean hdied hfile hproc => exact hproc _
  | stale hdied d hd hfile hproc => exact hproc _
  | live hdied d hd hfile hproc =>
    rw [hfile, History.get_sensor_pid_writePid hd] at hpid
    omega

/-- A sensor that is hit through its thread ids overtakes no stop. -/
theorem not_overtakes_of_hit {turns : List Nat} (h : late turns = 0) (todo : List Append) :
    ¬ Overtakes turns todo := by
  rintro ⟨htrue, hrest⟩
  rw [h, List.drop_zero] at hrest
  rw [hrest] at htrue
  exact absurd htrue (by decide)

/-- A sensor that overtakes the stop that kills it leaves tracing on. -/
theorem left_on {w t : World} {died : Prop} (hw : Kept w) (hm : Between w.machine died) {e : Event}
    (hstep : system.step e w t) (hlate : ¬ InTime e w) :
    get_sensor_pid t.machine.pid_file = -1 ∧ TracingOn t.written := by
  cases e with
  | write p a => exact absurd trivial hlate
  | machine pids turns e =>
    cases e with
    | death p | spawn p | gone p => exact absurd trivial hlate
    | complete p args child victims =>
      obtain ⟨hcommand, hovertakes⟩ := Classical.not_imp.mp hlate
      rw [not_not] at hovertakes
      have hperform := hstep.2
      simp only [perform, Option.bind_eq_bind, Option.bind_eq_some_iff, hcommand] at hperform
      obtain ⟨machine, hmachine, ht⟩ := hperform
      obtain ⟨pids', made, hleft⟩ := hw.left
      cases World.stop_eq_some ht with
      | inl hnone =>
        rw [left_eq_nil hm hnone.1, Overtakes, List.drop_nil] at hovertakes
        exact absurd hovertakes.1 List.not_mem_nil
      | inr hsome =>
        obtain ⟨hpid, rfl⟩ := hsome
        refine ⟨?_, (on_behind_stop _ _ _ _ hleft).mpr hovertakes⟩
        dsimp only
        rw [machine_of_stop hm hmachine hcommand hpid]
        rfl

/-- In every history of commands, deaths and writes in which no sensor overtakes the stop that kills
it, tracing is on while a sensor runs exactly between its two `set_trace` calls, and then under its
own filter; and without a pid file, as every start that forks finds it, tracing is off, whatever
became of the sensors before. A stop that is overtaken leaves it on without a pid file. -/
theorem tracing_on_iff {events : List Event} {w : World}
    (h : (system.restrict InTime).Run events w) :
    (∀ p, w.machine.proc p = .running →
      ∃ pids made, controls pids = made ++ w.todo p ∧ made <:+ w.written ∧
        (TracingOn w.written ↔ w.todo p = set_trace false :: clear_filters) ∧
        (TracingOn w.written → lastTo filter w.written = some (add_filter pids))) ∧
      (get_sensor_pid w.machine.pid_file = -1 → ¬ TracingOn w.written) ∧
      ∀ e t, system.step e w t → ¬ InTime e w →
        get_sensor_pid t.machine.pid_file = -1 ∧ TracingOn t.written := by
  have hkept := kept_of_run h
  obtain ⟨died, hbetween⟩ := between_of_run h.unrestrict
  refine ⟨?_, hkept.clean, fun e t hstep hlate => left_on hkept hbetween hstep hlate⟩
  intro p hp
  obtain ⟨pids, base, made, hcontrols, hwritten, hbase⟩ := hkept.sensor p hp
  rw [TracingOn] at hbase
  refine ⟨pids, made, hcontrols, ⟨base, hwritten.symm⟩, ?_⟩
  rw [TracingOn, hwritten, lastTo_append, lastTo_append]
  cases stages hcontrols with
  | inl hearly =>
    obtain ⟨-, htodo, hnone⟩ := hearly
    simp [htodo, hnone, hbase]
  | inr hset =>
    cases hset with
    | inl htracing =>
      obtain ⟨htodo, hlast, hfilter⟩ := htracing
      simp [htodo, hlast, hfilter]
    | inr hlate =>
      obtain ⟨htodo, hlast⟩ := hlate
      have hne : w.todo p ≠ set_trace false :: clear_filters := by
        intro heq
        rw [heq] at htodo
        exact absurd htodo.length_le (by decide)
      simp [hne, hlast, set_trace_ne]

/- A sensor that dies while it traces, a start that is refused, a stop, another sensor that goes
   on while it is stopped, and a third one. -/
def diedTracing : List Event :=
  .machine [11] [] (.complete 10 [ascii "start"] (some 11) []) ::
    ((controls [11]).take 4).map (.write 11) ++
      [.machine [] [] (.death 11), .machine [] [] (.complete 12 [ascii "start"] none []),
        .machine [] [] (.complete 12 [ascii "stop"] none []),
        .machine [14] [] (.complete 13 [ascii "start"] (some 14) []),
        .machine [14] [1, 2, 1] (.complete 15 [ascii "stop"] none []),
        .machine [17] [] (.complete 16 [ascii "start"] (some 17) [])] ++
    ((controls [17]).take 4).map (.write 17)

def fresh : World := ⟨idle, [], fun _ => []⟩

theorem run_diedTracing : (diedTracing.foldlM perform fresh).isSome = true := by decide +kernel

def tracedAgain : World := (diedTracing.foldlM perform fresh).get run_diedTracing

/- A stop that misses the sensor's threads, and the sensor wakes up behind its last write. -/
def overtaken : Event := .machine [] [0, 0, 0, 2] (.complete 18 [ascii "stop"] none [])

def begun : List Event :=
  .machine [11] [] (.complete 10 [ascii "start"] (some 11) []) ::
    ((controls [11]).take 2).map (.write 11)

theorem run_begun : (begun.foldlM perform fresh).isSome = true := by decide +kernel

def begunWorld : World := (begun.foldlM perform fresh).get run_begun

theorem tracing_on_iff_diedTracing :
    ((system.restrict InTime).Run diedTracing tracedAgain ∧ TracingOn tracedAgain.written ∧
      ∃ pids, lastTo filter tracedAgain.written = some (add_filter pids)) ∧
      ∃ t, (system.restrict InTime).Run begun begunWorld ∧ system.step overtaken begunWorld t ∧
        get_sensor_pid t.machine.pid_file = -1 ∧ TracingOn t.written := by
  have hinit : (system.restrict InTime).Run [] fresh :=
    .start ⟨⟨rfl, fun _ => .inl rfl, 0, fun _ _ => rfl⟩, by decide⟩
  have hintime {turns : List Nat} (hlate : late turns = 0) (pids : List Int)
      (e : History.Event) (w : World) : InTime (.machine pids turns e) w := by
    cases e with
    | complete p args child victims => exact fun _ => not_overtakes_of_hit hlate w.left
    | death p | spawn p | gone p => trivial
  have hsteps : ∀ e ∈ diedTracing, e.Assigned ∧ ∀ w, InTime e w := by
    simp only [diedTracing, List.forall_mem_append, List.forall_mem_cons, List.forall_mem_map]
    have hwrite : True ∧ (World → True) := ⟨trivial, fun _ => trivial⟩
    exact ⟨⟨⟨⟨show 11 ≤ 4194304 by decide, hintime rfl _ _⟩, fun _ _ => hwrite⟩,
      ⟨trivial, hintime rfl _ _⟩, ⟨trivial, hintime rfl _ _⟩, ⟨trivial, hintime rfl _ _⟩,
      ⟨show 14 ≤ 4194304 by decide, hintime rfl _ _⟩, ⟨trivial, hintime rfl _ _⟩,
      ⟨show 17 ≤ 4194304 by decide, hintime rfl _ _⟩, by simp⟩, fun _ _ => hwrite⟩
  have hrun : diedTracing.foldlM perform fresh = some tracedAgain := by
    rw [tracedAgain, Option.some_get]
  have htraced := hinit.foldlM perform diedTracing
    (fun e he s t hstep => ⟨(hsteps e he).2 s, (hsteps e he).1, hstep⟩) hrun
  have hrunning : tracedAgain.machine.proc 17 = .running := by decide +kernel
  obtain ⟨pids, made, -, -, hon, hfilter⟩ := (tracing_on_iff htraced).1 17 hrunning
  have htracing : TracingOn tracedAgain.written := hon.mpr (by decide +kernel)
  refine ⟨⟨htraced, htracing, pids, hfilter htracing⟩, ?_⟩
  have hbegin : ∀ e ∈ begun, e.Assigned ∧ ∀ w, InTime e w := by
    simp only [begun, List.forall_mem_cons, List.forall_mem_map]
    exact ⟨⟨show 11 ≤ 4194304 by decide, hintime rfl _ _⟩,
      fun _ _ => ⟨trivial, fun _ => trivial⟩⟩
  have hbegun := hinit.foldlM perform begun
    (fun e he s t hstep => ⟨(hbegin e he).2 s, (hbegin e he).1, hstep⟩)
    (show begun.foldlM perform fresh = some begunWorld by rw [begunWorld, Option.some_get])
  obtain ⟨t, ht⟩ : ∃ t, perform begunWorld overtaken = some t :=
    Option.isSome_iff_exists.mp (by decide +kernel)
  have hovertakes : Overtakes [0, 0, 0, 2] begunWorld.left := by decide +kernel
  exact ⟨t, hbegun, ⟨trivial, ht⟩,
    (tracing_on_iff hbegun).2.2 overtaken t ⟨trivial, ht⟩ fun hin => hin rfl hovertakes⟩

end SyscallSensor.Control
