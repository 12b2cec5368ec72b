import Mathlib.Data.List.DropRight
import SyscallSensor.Commands

/-! Commands one after the other, with deaths of the sensor between them: what `main`'s `pid`
says about the sensor after the stale-pid check. -/
namespace SyscallSensor.History
open Text Commands
open Daemon (get_sensor_pid writePid)
open Lib.Transition (System)

/- A complete command, the death of a sensor, and other programs that come and go. -/
inductive Event where
  | complete (p : Nat) (args : List (List Byte)) (child : Option Nat) (victims : List Nat)
  | death (p : Nat)
  | spawn (p : Nat)
  | gone (p : Nat)
deriving DecidableEq, Repr

/-- `main` up to its stale-pid check. -/
def upToCheck (p : Nat) (args : List (List Byte)) : List Label :=
  [.launch p args, .advance p none [], .advance p none []]

/- The steps that are left after the check, the write of a new sensor's pid included. -/
def toEnd (p : Nat) (child : Option Nat) (victims : List Nat) : Proc → List Label
  | .deciding (some .stop) pid =>
    if pid ≠ -1 then List.replicate 7 (.advance p child victims) else [.advance p child victims]
  | .deciding (some .start) pid =>
    if pid = -1 then .advance p child victims :: child.toList.map fun c => .advance c none []
    else [.advance p child victims]
  | _ => [.advance p child victims]

def perform (m : Machine) : Event → Option Machine
  | .complete p args child victims => do
    let checked ← (upToCheck p args).foldlM next m
    (toEnd p child victims (checked.proc p)).foldlM next checked
  | .death p => if m.proc p = .running then next m (.exit p) else none
  | .spawn p => next m (.spawn p)
  | .gone p => if m.proc p = .other then next m (.exit p) else none

/- The kernel hands out ids up to 2 ^ 22. -/
def Event.Assigned : Event → Prop
  | .complete _ _ (some c) _ => c ≤ 4194304
  | _ => True

/-- All histories, from no sensor and no pid file. -/
def history : System Machine Event where
  init := Commands.system.init
  step e m t := e.Assigned ∧ perform m e = some t

def Event.isStop : Event → Bool
  | .complete _ args _ _ => command args = some .stop
  | _ => false

/-- A sensor has died, and no stop was typed since. -/
def DiedSinceStop (events : List Event) : Prop :=
  ∃ p, Event.death p ∈ events.rtakeWhile fun e => !e.isStop

/-- `pid` is set exactly when it is the id of a running sensor. -/
def PidLive (m : Machine) (pid : Int) : Prop :=
  pid ≠ -1 ↔ ∃ d : Nat, pid = d ∧ m.proc d = .running

/- The pid file and the sensors between two commands: neither, the one sensor that the file
   names, or a file that names a dead one. -/
inductive Between (m : Machine) : Prop → Prop where
  | clean {died : Prop} (hdied : ¬ died) (hfile : m.pid_file = none)
    (hproc : ∀ q, m.proc q ≠ .running) : Between m died
  | live {died : Prop} (hdied : ¬ died) (d : Nat) (hd : 1 ≤ d ∧ d ≤ 4194304)
    (hfile : m.pid_file = writePid none d) (hproc : ∀ q, m.proc q = .running ↔ q = d) :
    Between m died
  | stale {died : Prop} (hdied : died) (d : Nat) (hd : 1 ≤ d ∧ d ≤ 4194304)
    (hfile : m.pid_file = writePid none d) (hproc : ∀ q, m.proc q ≠ .running) : Between m died

/-- A history is a run of the interleaved system. -/
theorem reachable_of_history {m : Machine} (h : history.Reachable m) :
    Commands.system.Reachable m := by
  have hnext (ls : List Label) {s t : Machine} (hs : Commands.system.Reachable s)
      (hrun : ls.foldlM next s = some t) : Commands.system.Reachable t :=
    hs.foldlM next ls (fun _ _ _ _ hstep => hstep) hrun
  have hone (l : Label) {s t : Machine} (hs : Commands.system.Reachable s)
      (hstep : next s l = some t) : Commands.system.Reachable t := by
    refine hnext [l] hs ?_
    rw [List.foldlM_cons, hstep]
    rfl
  refine h.invariant ?_ ?_
  · intro s hs
    exact ⟨[], .start hs⟩
  · intro e s t hs hstep
    cases e with
    | complete p args child victims =>
      have hcommand := Option.bind_eq_some_iff.mp hstep.2
      obtain ⟨checked, hcheck, hend⟩ := hcommand
      exact hnext _ (hnext _ hs hcheck) hend
    | death p => exact hone (.exit p) hs (Option.ite_none_right_eq_some.mp hstep.2).2
    | spawn p => exact hone (.spawn p) hs hstep.2
    | gone p => exact hone (.exit p) hs (Option.ite_none_right_eq_some.mp hstep.2).2

theorem get_sensor_pid_writePid {d : Nat} (hd : 1 ≤ d ∧ d ≤ 4194304) :
    get_sensor_pid (writePid none d) = d :=
  Daemon.get_sensor_pid_text (by omega) []

@[simp] theorem set_set (m : Machine) (p : Nat) (s s' : Proc) :
    (m.set p s).set p s' = m.set p s' := by
  simp [Machine.set, Function.update_idem]

theorem set_absent {m : Machine} {p : Nat} (hp : m.proc p = .absent) : m.set p .absent = m := by
  rw [Machine.set, ← hp, Function.update_eq_self]

/-- A command reaches its decision with the number that the pid file starts with. -/
theorem upToCheck_eq {m : Machine} {p : Nat} (args : List (List Byte)) (hp : 0 < p)
    (hfree : m.proc p = .absent) :
    (upToCheck p args).foldlM next m =
      some (m.set p (.deciding (command args) (get_sensor_pid m.pid_file))) := by
  have hlaunch : next m (.launch p args) = some (m.set p (.reading (command args))) := by
    simp only [next, hp, hfree, and_self, if_true]
  have hread : next (m.set p (.reading (command args))) (.advance p none []) =
      some (m.set p (.probing (command args) (get_sensor_pid m.pid_file))) := by
    simp only [next, Machine.advance, Machine.set_proc_self, Machine.set_pid_file, set_set]
  have hprobe : next (m.set p (.probing (command args) (get_sensor_pid m.pid_file)))
      (.advance p none []) =
      some (m.set p (.deciding (command args) (get_sensor_pid m.pid_file))) := by
    rw [next, Machine.advance_probing none [] (Machine.set_proc_self _ _ _), set_set]
  rw [upToCheck, List.foldlM_cons, hlaunch]
  simp only [Option.bind_eq_bind, Option.bind_some, List.foldlM_cons, hread, hprobe,
    List.foldlM_nil, Option.pure_def]

theorem perform_complete {m t : Machine} {p : Nat} {args : List (List Byte)} {child : Option Nat}
    {victims : List Nat} (h : perform m (.complete p args child victims) = some t) :
    m.proc p = .absent ∧
      (toEnd p child victims (.deciding (command args) (get_sensor_pid m.pid_file))).foldlM next
        (m.set p (.deciding (command args) (get_sensor_pid m.pid_file))) = some t := by
  by_cases hp : 0 < p ∧ m.proc p = .absent
  · refine ⟨hp.2, ?_⟩
    simpa only [perform, upToCheck_eq args hp.1 hp.2, Option.bind_eq_bind, Option.bind_some,
      Machine.set_proc_self] using h
  · simp only [perform, upToCheck, List.foldlM_cons, next, hp, if_false, Option.bind_eq_bind,
      Option.bind_none] at h
    cases h

theorem foldlM_singleton {m t : Machine} {l : Label} (h : [l].foldlM next m = some t) :
    next m l = some t := by
  simpa only [List.foldlM_cons, List.foldlM_nil, bind_pure] using h

/-- A command that neither starts a sensor nor stops one leaves everything as it was. -/
theorem ends_unchanged {m t : Machine} {p : Nat} {cmd : Option Command} {pid : Int}
    {child : Option Nat} {victims : List Nat} (hfree : m.proc p = .absent)
    (hstop : cmd = some .stop → pid = -1) (hstart : cmd = some .start → pid ≠ -1)
    (h : (toEnd p child victims (.deciding cmd pid)).foldlM next (m.set p (.deciding cmd pid)) =
      some t) : t = m := by
  have hlast : toEnd p child victims (.deciding cmd pid) = [.advance p child victims] ∧
      next (m.set p (.deciding cmd pid)) (.advance p child victims) = some (m.set p .absent) := by
    cases cmd with
    | none => simp [toEnd, next, Machine.advance]
    | some cmd =>
      cases cmd with
      | stop => simp [toEnd, next, Machine.advance, hstop rfl]
      | status => simp [toEnd, next, Machine.advance]
      | start => simp [toEnd, next, Machine.advance, hstart rfl]
  rw [hlast.1] at h
  have hnext := foldlM_singleton h
  rw [hlast.2, set_absent hfree] at hnext
  exact (Option.some.inj hnext).symm

theorem set_killAll {m : Machine} {p : Nat} (s : Proc) {victims : List Nat} (hp : p ∉ victims) :
    (m.set p s).killAll victims = (m.killAll victims).set p s := by
  have hproc : ∀ q,
      ((m.set p s).killAll victims).proc q = ((m.killAll victims).set p s).proc q := by
    intro q
    by_cases hq : q = p
    · rw [hq, Machine.killAll_of_not_mem _ hp, Machine.set_proc_self, Machine.set_proc_self]
    · rw [Machine.set_proc_of_ne _ _ hq]
      simp only [Machine.killAll, Machine.set_proc_of_ne _ _ hq]
  exact congrArg (Machine.mk m.pid_file) (funext hproc)

theorem killAll_set (m : Machine) (p : Nat) (s s' : Proc) (victims : List Nat) :
    ((m.set p s).killAll victims).set p s' = (m.killAll victims).set p s' := by
  have hproc : ∀ q, (((m.set p s).killAll victims).set p s').proc q =
      ((m.killAll victims).set p s').proc q := by
    intro q
    by_cases hq : q = p
    · rw [hq, Machine.set_proc_self, Machine.set_proc_self]
    · rw [Machine.set_proc_of_ne _ _ hq, Machine.set_proc_of_ne _ _ hq]
      simp only [Machine.killAll, Machine.set_proc_of_ne _ _ hq]
  exact congrArg (Machine.mk m.pid_file) (funext hproc)

theorem running_of_killAll {m : Machine} {victims : List Nat} {q : Nat}
    (h : (m.killAll victims).proc q = .running) : q ∉ victims ∧ m.proc q = .running := by
  by_cases hq : q ∈ victims
  · rw [Machine.killAll_of_mem _ hq] at h
    cases h
  · rw [Machine.killAll_of_not_mem _ hq] at h
    exact ⟨hq, h⟩

theorem running_of_set {m : Machine} {p q : Nat} {s : Proc} (hs : s ≠ .running)
    (h : (m.set p s).proc q = .running) : q ≠ p ∧ m.proc q = .running := by
  by_cases hq : q = p
  · rw [hq, Machine.set_proc_self] at h
    exact absurd h hs
  · rw [Machine.set_proc_of_ne _ _ hq] at h
    exact ⟨hq, h⟩

/-- A stop with a pid that comes to its end: the file is gone, and so are the process and the
victims, of which the stop was none. -/
theorem stop_ends {m t : Machine} {p : Nat} {pid : Int} {child : Option Nat} {victims : List Nat}
    (hpid : 0 < pid)
    (h : (List.replicate 7 (.advance p child victims)).foldlM next
      (m.set p (.deciding (some .stop) pid)) = some t) :
    t = ((m.remove_sensor_pid.killAll victims).killAll [pid.toNat]).set p .absent := by
  have hset : pid ≠ -1 := by omega
  have hremove : (m.set p (.removing pid)).remove_sensor_pid =
      m.remove_sensor_pid.set p (.removing pid) := rfl
  simp only [List.replicate_succ, List.replicate_zero, List.foldlM_cons, List.foldlM_nil, next,
    Machine.advance, Machine.set_proc_self, set_set, hset, hremove, ne_eq, not_false_eq_true,
    if_true, Option.bind_eq_bind, Option.bind_some] at h
  by_cases hp : p ∈ victims
  · have hkilled : ((m.remove_sensor_pid.set p (.untracing pid)).killAll victims).proc p =
        .absent := if_pos hp
    simp only [hkilled, Option.bind_none] at h
    cases h
  · simp only [set_killAll _ hp, Machine.set_proc_self, set_set, Option.bind_some, hpid, if_true,
      killAll_set, Option.pure_def, Option.some.injEq] at h
    exact h.symm

theorem Between.stop {m t : Machine} {died : Prop} {p : Nat} {child : Option Nat}
    {victims : List Nat} (hm : Between m died) (hfree : m.proc p = .absent)
    (h : (toEnd p child victims (.deciding (some .stop) (get_sensor_pid m.pid_file))).foldlM next
      (m.set p (.deciding (some .stop) (get_sensor_pid m.pid_file))) = some t) :
    Between t False := by
  -- whatever the file names is killed, and no other sensor is there
  have hkill : ∀ d, 1 ≤ d ∧ d ≤ 4194304 → m.pid_file = writePid none d →
      (∀ q, m.proc q = .running → q = d) → Between t False := by
    intro d hd hfile hproc
    rw [hfile, get_sensor_pid_writePid hd] at h
    rw [toEnd, if_pos (by omega)] at h
    rw [stop_ends (by omega) h, Int.toNat_natCast]
    refine .clean id rfl ?_
    intro q hq
    have hkilled := running_of_killAll (running_of_set (by decide) hq).2
    have hbefore := running_of_killAll hkilled.2
    exact hkilled.1 (List.mem_singleton.mpr (hproc q hbefore.2))
  cases hm with
  | clean hdied hfile hproc =>
    have ht := ends_unchanged hfree (fun _ => by rw [hfile]; rfl) (fun he => by cases he) h
    rw [ht]
    exact .clean id hfile hproc
  | live hdied d hd hfile hproc => exact hkill d hd hfile fun q hq => (hproc q).mp hq
  | stale hdied d hd hfile hproc => exact hkill d hd hfile fun q hq => absurd hq (hproc q)

/-- A start that comes to its end has left everything as it was, or made a sensor and appended
its pid. -/
theorem start_ends {m t : Machine} {p : Nat} {child : Option Nat} {victims : List Nat}
    (hfree : m.proc p = .absent)
    (h : (toEnd p child victims (.deciding (some .start) (-1))).foldlM next
      (m.set p (.deciding (some .start) (-1))) = some t) :
    t = m ∨ ∃ c, child = some c ∧ 0 < c ∧
      t = { m with pid_file := writePid m.pid_file c }.set c .running := by
  simp only [toEnd, if_true, List.foldlM_cons, next, Machine.advance, Machine.set_proc_self] at h
  cases child with
  | none =>
    simp only [Machine.setup_daemon, set_set, set_absent hfree, Option.toList_none, List.map_nil,
      List.foldlM_nil, Option.bind_eq_bind, Option.bind_some, Option.pure_def,
      Option.some.injEq] at h
    exact .inl h.symm
  | some c =>
    by_cases hc : 0 < c ∧ (m.set p (.deciding (some .start) (-1))).proc c = .absent
    · rw [Machine.setup_daemon_some hc.1 hc.2, set_set, set_absent hfree] at h
      have hwrite : next (m.set c .forked) (.advance c none []) =
          some ({ m with pid_file := writePid m.pid_file c }.set c .running) := by
        simp only [next, Machine.advance, Machine.set_proc_self]
        simp only [Machine.set, Function.update_idem]
      refine .inr ⟨c, rfl, hc.1, ?_⟩
      simpa only [Option.toList_some, List.map_cons, List.map_nil, List.foldlM_cons,
        List.foldlM_nil, Option.bind_eq_bind, Option.bind_some, hwrite, Option.pure_def,
        Option.some.injEq, eq_comm] using h
    · simp only [Machine.setup_daemon, hc, if_false, Option.bind_eq_bind, Option.bind_none] at h
      cases h

theorem Between.start {m t : Machine} {died : Prop} {p : Nat} {child : Option Nat}
    {victims : List Nat} (hm : Between m died) (hfree : m.proc p = .absent)
    (hchild : ∀ c, child = some c → c ≤ 4194304)
    (h : (toEnd p child victims (.deciding (some .start) (get_sensor_pid m.pid_file))).foldlM next
      (m.set p (.deciding (some .start) (get_sensor_pid m.pid_file))) = some t) :
    Between t died := by
  -- with a pid in the file the start is refused
  have hrefused : ∀ d, 1 ≤ d ∧ d ≤ 4194304 → m.pid_file = writePid none d → t = m := by
    intro d hd hfile
    rw [hfile, get_sensor_pid_writePid hd] at h
    exact ends_unchanged hfree (fun he => by cases he) (fun _ => by omega) h
  cases hm with
  | clean hdied hfile hproc =>
    have hpid : get_sensor_pid m.pid_file = -1 := by
      rw [hfile]
      rfl
    rw [hpid] at h
    cases start_ends hfree h with
    | inl hsame =>
      rw [hsame]
      exact .clean hdied hfile hproc
    | inr hforked =>
      obtain ⟨c, hsome, hc, rfl⟩ := hforked
      refine .live hdied c ⟨hc, hchild c hsome⟩ (by rw [Machine.set_pid_file, hfile]) ?_
      intro q
      by_cases hq : q = c
      · simp only [hq, Machine.set_proc_self]
      · simp only [hq, iff_false]
        rw [Machine.set_proc_of_ne _ _ hq]
        exact hproc q
  | live hdied d hd hfile hproc =>
    rw [hrefused d hd hfile]
    exact .live hdied d hd hfile hproc
  | stale hdied d hd hfile hproc =>
    rw [hrefused d hd hfile]
    exact .stale hdied d hd hfile hproc

/- A step that leaves the pid file and the sensors alone. -/
theorem Between.of_same {m t : Machine} {died : Prop} (hm : Between m died)
    (hfile : t.pid_file = m.pid_file) (hproc : ∀ q, t.proc q = .running ↔ m.proc q = .running) :
    Between t died := by
  cases hm with
  | clean hdied hempty hnone =>
    exact .clean hdied (hfile.trans hempty) fun q hq => hnone q ((hproc q).mp hq)
  | live hdied d hd hpid hone =>
    exact .live hdied d hd (hfile.trans hpid) fun q => (hproc q).trans (hone q)
  | stale hdied d hd hpid hnone =>
    exact .stale hdied d hd (hfile.trans hpid) fun q hq => hnone q ((hproc q).mp hq)

theorem Between.of_set {m : Machine} {died : Prop} {p : Nat} {s : Proc} (hm : Between m died)
    (hbefore : m.proc p ≠ .running) (hafter : s ≠ .running) : Between (m.set p s) died := by
  refine hm.of_same rfl ?_
  intro q
  by_cases hq : q = p
  · simp only [hq, Machine.set_proc_self, hbefore, hafter]
  · rw [Machine.set_proc_of_ne _ _ hq]

/-- The sensor that died was the one that the file names. -/
theorem Between.death {m : Machine} {died : Prop} {p : Nat} (hm : Between m died)
    (hp : m.proc p = .running) : Between (m.set p .absent) True := by
  cases hm with
  | clean hdied hfile hproc => exact absurd hp (hproc p)
  | stale hdied d hd hfile hproc => exact absurd hp (hproc p)
  | live hdied d hd hfile hproc =>
    refine .stale trivial d hd hfile ?_
    intro q hq
    have hbefore := running_of_set (by decide) hq
    exact hbefore.1 (((hproc q).mp hbefore.2).trans ((hproc p).mp hp).symm)

theorem Between.imp {m : Machine} {died died' : Prop} (hm : Between m died) (h : died ↔ died') :
    Between m died' := by
  rwa [← h]

theorem diedSinceStop_snoc (events : List Event) (e : Event) :
    DiedSinceStop (events ++ [e]) ↔
      e.isStop = false ∧ (DiedSinceStop events ∨ ∃ p, e = .death p) := by
  cases hstop : e.isStop with
  | true => simp [DiedSinceStop, hstop]
  | false => simp [DiedSinceStop, hstop, exists_or, eq_comm]

theorem diedSinceStop_quiet {events : List Event} {e : Event} (hstop : e.isStop = false)
    (hdeath : ∀ p, e ≠ .death p) : DiedSinceStop events ↔ DiedSinceStop (events ++ [e]) := by
  rw [diedSinceStop_snoc]
  simp [hstop, hdeath]

theorem Between.next {m t : Machine} {events : List Event} {e : Event}
    (hm : Between m (DiedSinceStop events)) (he : e.Assigned) (h : perform m e = some t) :
    Between t (DiedSinceStop (events ++ [e])) := by
  cases e with
  | complete p args child victims =>
    obtain ⟨hfree, hend⟩ := perform_complete h
    by_cases hcommand : command args = some .stop
    · rw [hcommand] at hend
      refine (hm.stop hfree hend).imp ?_
      simp [diedSinceStop_snoc, Event.isStop, hcommand]
    · refine Between.imp ?_ (diedSinceStop_quiet (by simp [Event.isStop, hcommand]) (by simp))
      by_cases hstart : command args = some .start
      · rw [hstart] at hend
        refine hm.start hfree ?_ hend
        intro c hc
        rw [hc] at he
        exact he
      · have hsame := ends_unchanged hfree (fun h => absurd h hcommand)
          (fun h => absurd h hstart) hend
        rw [hsame]
        exact hm
  | death p =>
    have hdeath := Option.ite_none_right_eq_some.mp h
    have hexit := (Option.ite_none_left_eq_some.mp hdeath.2).2
    rw [← Option.some.inj hexit]
    refine (hm.death hdeath.1).imp ?_
    simp [diedSinceStop_snoc, Event.isStop]
  | spawn p =>
    refine Between.imp ?_ (diedSinceStop_quiet rfl (by simp))
    obtain ⟨hspawn, rfl⟩ := Lib.Outcome.guarded_eq_some h
    exact hm.of_set (by simp [hspawn.2]) (by decide)
  | gone p =>
    refine Between.imp ?_ (diedSinceStop_quiet rfl (by simp))
    have hgone := Option.ite_none_right_eq_some.mp h
    have hexit := (Option.ite_none_left_eq_some.mp hgone.2).2
    rw [← Option.some.inj hexit]
    exact hm.of_set (by simp [hgone.1]) (by decide)

theorem between_of_run {events : List Event} {m : Machine} (h : history.Run events m) :
    Between m (DiedSinceStop events) := by
  refine h.invariant (I := fun events m => Between m (DiedSinceStop events)) ?_ ?_
  · intro m hm
    refine .clean (by simp [DiedSinceStop]) hm.1 ?_
    intro q hq
    exact not_claims_of_init hm q (IsDaemon.claims (.inr hq))
  · intro events e m t hm hstep
    exact hm.next hstep.1 hstep.2

theorem Between.pidLive_iff {m : Machine} {died : Prop} (hm : Between m died) :
    PidLive m (get_sensor_pid m.pid_file) ↔ ¬ died := by
  cases hm with
  | clean hdied hfile hproc =>
    have hpid : get_sensor_pid m.pid_file = -1 := by
      rw [hfile]
      rfl
    simp [PidLive, hpid, hproc, hdied]
  | live hdied d hd hfile hproc =>
    rw [hfile, get_sensor_pid_writePid hd]
    refine iff_of_true ⟨fun _ => ⟨d, rfl, (hproc d).mpr rfl⟩, fun _ => by omega⟩ hdied
  | stale hdied d hd hfile hproc =>
    rw [hfile, get_sensor_pid_writePid hd]
    refine iff_of_false ?_ (not_not_intro hdied)
    intro h
    obtain ⟨q, -, hq⟩ := h.mp (by omega)
    exact hproc q hq

/-- The next command acts on the pid of a running sensor, or on -1 when there is none, exactly
when no sensor has died since the last stop. -/
theorem pid_live_iff {events : List Event} {m : Machine} (h : history.Run events m) {p : Nat}
    (args : List (List Byte)) (hp : 0 < p) (hfree : m.proc p = .absent) :
    ∃ checked pid, (upToCheck p args).foldlM next m = some checked ∧
      checked.proc p = .deciding (command args) pid ∧
      (PidLive checked pid ↔ ¬ DiedSinceStop events) := by
  have hbetween := between_of_run h
  refine ⟨_, _, upToCheck_eq args hp hfree, Machine.set_proc_self _ _ _, ?_⟩
  have hchecked : Between (m.set p (.deciding (command args) (get_sensor_pid m.pid_file)))
      (DiedSinceStop events) := hbetween.of_set (by simp [hfree]) (by simp)
  exact hchecked.pidLive_iff

/- A start as process 10 that makes the sensor 11. -/
def firstStart : Event := .complete 10 [ascii "start"] (some 11) []

def started : Machine := (perform idle firstStart).getD idle

theorem run_started : history.Run [firstStart] started := by
  have hidle : history.Run [] idle := .start ⟨rfl, fun _ => .inl rfl, 0, fun _ _ => rfl⟩
  have hassigned : firstStart.Assigned := show 11 ≤ 4194304 by decide
  exact hidle.next ⟨hassigned, rfl⟩

theorem pid_live_iff_started :
    ∃ checked pid, (upToCheck 12 [ascii "status"]).foldlM next started = some checked ∧
      checked.proc 12 = .deciding (command [ascii "status"]) pid ∧
      (PidLive checked pid ↔ ¬ DiedSinceStop [firstStart]) :=
  pid_live_iff run_started [ascii "status"] (by decide) rfl

/-- The sensor of a start has died, and the next start takes its pid for a running sensor. -/
theorem dead_taken_for_running : ∃ events m checked, history.Run events m ∧
    (upToCheck 12 [ascii "start"]).foldlM next m = some checked ∧
    checked.proc 12 = .deciding (some .start) 11 ∧ ¬ PidLive checked 11 := by
  have hdeath : perform started (.death 11) = some (started.set 11 .absent) := rfl
  have hrun : history.Run [firstStart, .death 11] (started.set 11 .absent) :=
    run_started.next ⟨trivial, hdeath⟩
  refine ⟨_, _, _, hrun, upToCheck_eq [ascii "start"] (by decide) rfl, rfl, ?_⟩
  intro h
  obtain ⟨d, hd, hrunning⟩ := h.mp (by decide)
  rw [← Int.natCast_inj.mp hd] at hrunning
  exact absurd hrunning (by decide)

end SyscallSensor.History
