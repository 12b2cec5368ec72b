import Mathlib.Logic.Function.Basic
import SyscallSensor.LinuxDaemon
import SyscallSensor.Lib.Outcome
import SyscallSensor.Lib.Transition

/-! The command processes of `main.cpp` beside the daemons: any number of them, each taking one
access to the pid file or the process table at a time. -/
namespace SyscallSensor.Commands
open Text
open Daemon (get_sensor_pid writePid)
open Lib.Outcome (guarded_eq_some)
open Lib.Transition (System)

inductive Command where
  | stop
  | status
  | start
deriving DecidableEq, Repr

/- `main` looks for the three words in this order. -/
def command (args : List (List Byte)) : Option Command :=
  if ascii "stop" ∈ args then some .stop
  else if ascii "status" ∈ args then some .status
  else if ascii "start" ∈ args then some .start
  else none

/- What a process does next, with `main`'s local `pid`: `removing` to `killing` are a stop,
   `forked` and `running` the sensor before and after the write of its pid. -/
inductive Proc where
  | absent
  | other
  | reading (cmd : Option Command)
  | probing (cmd : Option Command) (pid : Int)
  | deciding (cmd : Option Command) (pid : Int)
  | removing (pid : Int)
  | clearing (pid : Int)
  | sleeping (pid : Int)
  | sweeping (pid : Int)
  | untracing (pid : Int)
  | killing (pid : Int)
  | forked
  | running
deriving DecidableEq, Repr

structure Machine where
  pid_file : Option (List Byte)
  proc : Nat → Proc

def Machine.set (m : Machine) (p : Nat) (s : Proc) : Machine :=
  { m with proc := Function.update m.proc p s }

def Machine.remove_sensor_pid (m : Machine) : Machine := { m with pid_file := none }

def ESRCH : Int := 3

/- `kill(pid, 0)`: the error code itself goes to `errno`. -/
def Machine.kill0 (m : Machine) (pid : Int) : Int :=
  if 0 < pid ∧ m.proc pid.toNat = .absent then -1 else 0

def Machine.killAll (m : Machine) (victims : List Nat) : Machine :=
  { m with proc := fun p => if p ∈ victims then .absent else m.proc p }

/- `fork()` with the child's id, or `none` for its failure; the parent exits either way. -/
def Machine.setup_daemon (m : Machine) (p : Nat) (child : Option Nat) : Option Machine :=
  match child with
  | none => some (m.set p .absent)
  | some c =>
    if 0 < c ∧ m.proc c = .absent then some ((m.set p .absent).set c .forked) else none

/-- The next step of process `p`. `victims` are the processes that the signals of a stop reach
through the listed thread ids, or through a `pid` that names a group. -/
def Machine.advance (m : Machine) (p : Nat) (child : Option Nat) (victims : List Nat) :
    Option Machine :=
  match m.proc p with
  | .absent | .other | .running => none
  | .reading cmd => some (m.set p (.probing cmd (get_sensor_pid m.pid_file)))
  | .probing cmd pid =>
    -- `pid` is not read again
    some ((if m.kill0 pid = ESRCH then m.remove_sensor_pid else m).set p (.deciding cmd pid))
  | .deciding (some .stop) pid => some (m.set p (if pid ≠ -1 then .removing pid else .absent))
  | .deciding (some .start) pid =>
    if pid = -1 then m.setup_daemon p child else some (m.set p .absent)
  | .deciding _ _ => some (m.set p .absent)
  | .removing pid => some (m.remove_sensor_pid.set p (.clearing pid))
  | .clearing pid => some (m.set p (.sleeping pid))
  | .sleeping pid => some (m.set p (.sweeping pid))
  | .sweeping pid => some ((m.set p (.untracing pid)).killAll victims)
  | .untracing pid => some (m.set p (.killing pid))
  | .killing pid =>
    some ((m.killAll (if 0 < pid then [pid.toNat] else victims)).set p .absent)
  | .forked => some ({ m with pid_file := writePid m.pid_file p }.set p .running)

/-- A command is typed, another program comes up, a process takes its next step, or one ends
(on its own or by a signal from outside). -/
inductive Label where
  | launch (p : Nat) (args : List (List Byte))
  | spawn (p : Nat)
  | advance (p : Nat) (child : Option Nat) (victims : List Nat)
  | exit (p : Nat)
deriving DecidableEq, Repr

def next (m : Machine) : Label → Option Machine
  | .launch p args =>
    if 0 < p ∧ m.proc p = .absent then some (m.set p (.reading (command args))) else none
  | .spawn p => if 0 < p ∧ m.proc p = .absent then some (m.set p .other) else none
  | .advance p child victims => m.advance p child victims
  | .exit p => if m.proc p = .absent then none else some (m.set p .absent)

/- Finitely many processes. -/
def Bounded (m : Machine) : Prop := ∃ n, ∀ p, n ≤ p → m.proc p = .absent

/-- All interleavings, from no daemon and no pid file. -/
def system : System Machine Label where
  init m := m.pid_file = none ∧ (∀ p, m.proc p = .absent ∨ m.proc p = .other) ∧ Bounded m
  step l m t := next m l = some t

def IsDaemon (s : Proc) : Prop := s = .forked ∨ s = .running

def AtMostOne (m : Machine) : Prop :=
  ∀ p q, IsDaemon (m.proc p) → IsDaemon (m.proc q) → p = q

/-- A sensor, or a start that read -1 and has not forked yet. -/
def Claims : Proc → Prop
  | .probing (some .start) pid => pid = -1
  | .deciding (some .start) pid => pid = -1
  | .forked => True
  | .running => True
  | _ => False

/- A start reads -1 only while there is neither. -/
def ReadsClear : Label → Machine → Prop
  | .advance p _ _, m => m.proc p = .reading (some .start) → get_sensor_pid m.pid_file = -1 →
    ∀ q, ¬ Claims (m.proc q)
  | _, _ => True

@[simp] theorem Machine.set_pid_file (m : Machine) (p : Nat) (s : Proc) :
    (m.set p s).pid_file = m.pid_file := rfl

@[simp] theorem Machine.set_proc_self (m : Machine) (p : Nat) (s : Proc) :
    (m.set p s).proc p = s := by
  simp [Machine.set]

@[simp] theorem Machine.set_proc_of_ne (m : Machine) {p q : Nat} (s : Proc) (h : q ≠ p) :
    (m.set p s).proc q = m.proc q := by
  simp [Machine.set, h]

theorem Machine.killAll_of_mem (m : Machine) {victims : List Nat} {p : Nat} (h : p ∈ victims) :
    (m.killAll victims).proc p = .absent := if_pos h

theorem Machine.killAll_of_not_mem (m : Machine) {victims : List Nat} {p : Nat}
    (h : p ∉ victims) : (m.killAll victims).proc p = m.proc p := if_neg h

theorem Machine.killAll_proc (m : Machine) (victims : List Nat) (q : Nat) :
    (m.killAll victims).proc q = m.proc q ∨ (m.killAll victims).proc q = .absent := by
  by_cases hq : q ∈ victims
  · exact .inr (m.killAll_of_mem hq)
  · exact .inl (m.killAll_of_not_mem hq)

theorem IsDaemon.claims {s : Proc} (h : IsDaemon s) : Claims s := by
  cases h with
  | inl h =>
    rw [h]
    trivial
  | inr h =>
    rw [h]
    trivial

/-- `kill` never returns the error code, so main's stale-pid check never removes the file. -/
theorem Machine.kill0_ne_ESRCH (m : Machine) (pid : Int) : m.kill0 pid ≠ ESRCH := by
  unfold Machine.kill0 ESRCH
  split <;> omega

theorem Machine.advance_probing {m : Machine} {p : Nat} {cmd : Option Command} {pid : Int}
    (child : Option Nat) (victims : List Nat) (h : m.proc p = .probing cmd pid) :
    m.advance p child victims = some (m.set p (.deciding cmd pid)) := by
  simp only [advance, h, m.kill0_ne_ESRCH, if_false]

theorem Machine.setup_daemon_some {m : Machine} {p c : Nat} (hc : 0 < c)
    (hfree : m.proc c = .absent) :
    m.setup_daemon p (some c) = some ((m.set p .absent).set c .forked) := by
  simp only [setup_daemon, hc, hfree, and_self, if_true]

/-- A start that reads -1. -/
def Reads (m : Machine) (p : Nat) : Prop :=
  m.proc p = .reading (some .start) ∧ get_sensor_pid m.pid_file = -1

/-- What a step does to the processes: one of them moves on while others may end, or a start
with -1 ends in a fork. -/
inductive Moved (m : Machine) : Label → Machine → Prop where
  | set {l : Label} {p : Nat} {s : Proc} {t : Machine}
    (hs : Claims s →
      Claims (m.proc p) ∨ (∃ child victims, l = .advance p child victims) ∧ Reads m p)
    (hproc : ∀ q, t.proc q = (m.set p s).proc q ∨ t.proc q = .absent) : Moved m l t
  | fork {p c : Nat} {victims : List Nat} (hp : Claims (m.proc p)) (hc : m.proc c = .absent) :
    Moved m (.advance p (some c) victims) ((m.set p .absent).set c .forked)

theorem Moved.quiet {m : Machine} (l : Label) (p : Nat) {s : Proc} (hs : ¬ Claims s) :
    Moved m l (m.set p s) :=
  .set (fun h => absurd h hs) fun _ => .inl rfl

theorem moved_of_setup_daemon {m t : Machine} {p : Nat} {child : Option Nat} (victims : List Nat)
    (hp : Claims (m.proc p)) (h : m.setup_daemon p child = some t) :
    Moved m (.advance p child victims) t := by
  cases child with
  | none =>
    rw [← Option.some.inj h]
    exact .quiet _ p id
  | some c =>
    obtain ⟨hfork, rfl⟩ := guarded_eq_some h
    exact .fork hp hfork.2

theorem moved_of_advance {m t : Machine} {p : Nat} {child : Option Nat} {victims : List Nat}
    (h : m.advance p child victims = some t) : Moved m (.advance p child victims) t := by
  cases hproc : m.proc p with
  | absent => simp [Machine.advance, hproc] at h
  | other => simp [Machine.advance, hproc] at h
  | running => simp [Machine.advance, hproc] at h
  | reading cmd =>
    simp only [Machine.advance, hproc, Option.some.injEq] at h
    rw [← h]
    refine .set ?_ fun _ => .inl rfl
    intro hclaims
    cases cmd with
    | none => exact absurd hclaims id
    | some cmd =>
      cases cmd with
      | stop => exact absurd hclaims id
      | status => exact absurd hclaims id
      | start => exact .inr ⟨⟨child, victims, rfl⟩, hproc, hclaims⟩
  | probing cmd pid =>
    rw [Machine.advance_probing child victims hproc] at h
    have ht := Option.some.inj h
    rw [← ht]
    refine .set ?_ fun _ => .inl rfl
    intro hclaims
    rw [hproc]
    cases cmd with
    | none => exact absurd hclaims id
    | some cmd =>
      cases cmd with
      | stop => exact absurd hclaims id
      | status => exact absurd hclaims id
      | start => exact .inl hclaims
  | deciding cmd pid =>
    cases cmd with
    | none =>
      simp only [Machine.advance, hproc, Option.some.injEq] at h
      rw [← h]
      exact .quiet _ p id
    | some cmd =>
      cases cmd with
      | stop =>
        simp only [Machine.advance, hproc, Option.some.injEq] at h
        rw [← h]
        refine .quiet _ p ?_
        split <;> exact id
      | status =>
        simp only [Machine.advance, hproc, Option.some.injEq] at h
        rw [← h]
        exact .quiet _ p id
      | start =>
        simp only [Machine.advance, hproc] at h
        split at h
        · rename_i hpid
          have hp : Claims (m.proc p) := by
            rw [hproc]
            exact hpid
          exact moved_of_setup_daemon victims hp h
        · have ht := Option.some.inj h
          rw [← ht]
          exact .quiet _ p id
  | removing pid =>
    simp only [Machine.advance, hproc, Option.some.injEq] at h
    rw [← h]
    exact .set (fun hclaims => absurd hclaims id) fun _ => .inl rfl
  | clearing pid =>
    simp only [Machine.advance, hproc, Option.some.injEq] at h
    rw [← h]
    exact .quiet _ p id
  | sleeping pid =>
    simp only [Machine.advance, hproc, Option.some.injEq] at h
    rw [← h]
    exact .quiet _ p id
  | sweeping pid =>
    simp only [Machine.advance, hproc, Option.some.injEq] at h
    rw [← h]
    exact .set (fun hclaims => absurd hclaims id) (Machine.killAll_proc _ _)
  | untracing pid =>
    simp only [Machine.advance, hproc, Option.some.injEq] at h
    rw [← h]
    exact .quiet _ p id
  | killing pid =>
    simp only [Machine.advance, hproc, Option.some.injEq] at h
    rw [← h]
    refine .set (p := p) (s := .absent) (fun hclaims => absurd hclaims id) ?_
    intro q
    by_cases hq : q = p
    · rw [hq, Machine.set_proc_self, Machine.set_proc_self]
      exact .inl rfl
    · rw [Machine.set_proc_of_ne _ _ hq, Machine.set_proc_of_ne _ _ hq]
      exact Machine.killAll_proc _ _ _
  | forked =>
    simp only [Machine.advance, hproc, Option.some.injEq] at h
    rw [← h]
    refine .set ?_ fun _ => .inl rfl
    intro _
    rw [hproc]
    exact .inl trivial

theorem moved_of_next {m t : Machine} {l : Label} (h : next m l = some t) : Moved m l t := by
  cases l with
  | launch p args =>
    obtain ⟨-, rfl⟩ := guarded_eq_some h
    exact .quiet _ p id
  | spawn p =>
    obtain ⟨-, rfl⟩ := guarded_eq_some h
    exact .quiet _ p id
  | advance p child victims => exact moved_of_advance h
  | exit p =>
    have ht := (Option.ite_none_left_eq_some.mp h).2
    rw [← Option.some.inj ht]
    exact .quiet _ p id

theorem not_claims_of_init {m : Machine} (h : system.init m) (p : Nat) : ¬ Claims (m.proc p) := by
  cases h.2.1 p with
  | inl hproc =>
    rw [hproc]
    exact id
  | inr hproc =>
    rw [hproc]
    exact id

/- At most one sensor or start on its way to one. -/
def Exclusive (m : Machine) : Prop := ∀ p q, Claims (m.proc p) → Claims (m.proc q) → p = q

/- Outside the processes that the step names nothing becomes a sensor. -/
theorem claims_of_set {m t : Machine} {p q : Nat} {s : Proc}
    (hproc : t.proc q = (m.set p s).proc q ∨ t.proc q = .absent) (hq : Claims (t.proc q)) :
    q = p ∧ Claims s ∨ q ≠ p ∧ Claims (m.proc q) := by
  cases hproc with
  | inl heq =>
    rw [heq] at hq
    by_cases hqp : q = p
    · rw [hqp, Machine.set_proc_self] at hq
      exact .inl ⟨hqp, hq⟩
    · rw [Machine.set_proc_of_ne _ _ hqp] at hq
      exact .inr ⟨hqp, hq⟩
  | inr heq =>
    rw [heq] at hq
    exact absurd hq id

theorem Exclusive.next {m t : Machine} {l : Label} (hm : Exclusive m) (hclear : ReadsClear l m)
    (h : Moved m l t) : Exclusive t := by
  cases h with
  | @set _ p s _ hs hproc =>
    by_cases hclaims : Claims s
    · cases hs hclaims with
      | inl hp =>
        have hold : ∀ q, Claims (t.proc q) → Claims (m.proc q) := by
          intro q hq
          cases claims_of_set (hproc q) hq with
          | inl hself => rw [hself.1]; exact hp
          | inr hother => exact hother.2
        intro q q' hq hq'
        exact hm q q' (hold q hq) (hold q' hq')
      | inr hreads =>
        -- the read is clear, so the reader is the only one
        obtain ⟨⟨child, victims, rfl⟩, hreads⟩ := hreads
        have honly : ∀ q, Claims (t.proc q) → q = p := by
          intro q hq
          cases claims_of_set (hproc q) hq with
          | inl hself => exact hself.1
          | inr hother => exact absurd hother.2 (hclear hreads.1 hreads.2 q)
        intro q q' hq hq'
        rw [honly q hq, honly q' hq']
    · have hold : ∀ q, Claims (t.proc q) → Claims (m.proc q) := by
        intro q hq
        cases claims_of_set (hproc q) hq with
        | inl hself => exact absurd hself.2 hclaims
        | inr hother => exact hother.2
      intro q q' hq hq'
      exact hm q q' (hold q hq) (hold q' hq')
  | @fork p c victims hp hc =>
    -- the parent was the only one, and the child takes its place
    have honly : ∀ q, Claims (((m.set p .absent).set c .forked).proc q) → q = c := by
      intro q hq
      cases claims_of_set (.inl rfl) hq with
      | inl hself => exact hself.1
      | inr hother =>
        cases claims_of_set (.inl rfl) hother.2 with
        | inl hparent => exact absurd hparent.2 id
        | inr hrest => exact absurd (hm q p hrest.2 hp) hrest.1
    intro q q' hq hq'
    rw [honly q hq, honly q' hq']

/-- A run whose reads are clear has one sensor, or one start on its way to it, at a time. -/
theorem exclusive_of_clear {m : Machine} (h : (system.restrict ReadsClear).Reachable m) :
    Exclusive m := by
  refine h.invariant ?_ ?_
  · intro m hm p q hp
    exact absurd hp (not_claims_of_init hm p)
  · intro l m t hm hstep
    exact hm.next hstep.1 (moved_of_next hstep.2)

theorem Bounded.next {m t : Machine} {l : Label} (hm : Bounded m) (h : Moved m l t) :
    Bounded t := by
  obtain ⟨n, hn⟩ := hm
  cases h with
  | @set _ p s _ _ hproc =>
    refine ⟨n + p + 1, ?_⟩
    intro q hq
    cases hproc q with
    | inl heq => rw [heq, Machine.set_proc_of_ne _ _ (by omega), hn q (by omega)]
    | inr heq => exact heq
  | @fork p c _ _ _ =>
    refine ⟨n + p + c + 1, ?_⟩
    intro q hq
    rw [Machine.set_proc_of_ne _ _ (by omega), Machine.set_proc_of_ne _ _ (by omega),
      hn q (by omega)]

theorem bounded_of_reachable {m : Machine} (h : system.Reachable m) : Bounded m := by
  refine h.invariant ?_ ?_
  · intro m hm
    exact hm.2.2
  · intro l m t hm hstep
    exact hm.next (moved_of_next hstep)

/- A later state with a sensor that `q` is or was on its way to, and all else as before. -/
structure Becomes (m : Machine) (q : Nat) (t : Machine) (d : Nat) : Prop where
  leads : system.Leads m t
  daemon : IsDaemon (t.proc d)
  fresh : d = q ∨ m.proc d = .absent
  others : ∀ p, p ≠ q → p ≠ d → t.proc p = m.proc p
  bounded : Bounded t

/-- A start with -1 in front of its fork becomes a sensor. -/
theorem becomes_of_deciding {m : Machine} {p : Nat} (hm : Bounded m)
    (hp : m.proc p = .deciding (some .start) (-1)) : ∃ t d, Becomes m p t d := by
  obtain ⟨n, hn⟩ := id hm
  have hfree : m.proc (n + 1) = .absent := hn (n + 1) (by omega)
  have hadvance : m.advance p (some (n + 1)) [] = m.setup_daemon p (some (n + 1)) := by
    simp only [Machine.advance, hp, if_true]
  have hstep : next m (.advance p (some (n + 1)) []) =
      some ((m.set p .absent).set (n + 1) .forked) := by
    rw [next, hadvance, Machine.setup_daemon_some (by omega) hfree]
  refine ⟨(m.set p .absent).set (n + 1) .forked, n + 1, ?_⟩
  constructor
  · exact .single ⟨_, hstep⟩
  · exact .inl (Machine.set_proc_self _ _ _)
  · exact .inr hfree
  · intro q hqp hqn
    rw [Machine.set_proc_of_ne _ _ hqn, Machine.set_proc_of_ne _ _ hqp]
  · exact hm.next (moved_of_next hstep)

/-- A step of a process that leaves the others alone, in front of the rest of its way. -/
theorem Becomes.after_set {m t : Machine} {p d : Nat} {s : Proc} {l : Label}
    (hstep : next m l = some (m.set p s)) (h : Becomes (m.set p s) p t d) : Becomes m p t d where
  leads := .head ⟨l, hstep⟩ h.leads
  daemon := h.daemon
  fresh := by
    by_cases hd : d = p
    · exact .inl hd
    · have hfresh := h.fresh
      rw [Machine.set_proc_of_ne _ _ hd] at hfresh
      exact hfresh
  others := by
    intro q hqp hqd
    rw [h.others q hqp hqd, Machine.set_proc_of_ne _ _ hqp]
  bounded := h.bounded

theorem becomes_of_probing {m : Machine} {p : Nat} (hm : Bounded m)
    (hp : m.proc p = .probing (some .start) (-1)) : ∃ t d, Becomes m p t d := by
  have hstep : next m (.advance p none []) = some (m.set p (.deciding (some .start) (-1))) :=
    Machine.advance_probing none [] hp
  obtain ⟨t, d, hdecided⟩ := becomes_of_deciding (hm.next (moved_of_next hstep))
    (Machine.set_proc_self m p _)
  exact ⟨t, d, hdecided.after_set hstep⟩

theorem becomes_of_reads {m : Machine} {p : Nat} (hm : Bounded m) (hp : Reads m p) :
    ∃ t d, Becomes m p t d := by
  have hstep : next m (.advance p none []) = some (m.set p (.probing (some .start) (-1))) := by
    simp only [next, Machine.advance, hp.1, hp.2]
  obtain ⟨t, d, hprobed⟩ := becomes_of_probing (hm.next (moved_of_next hstep))
    (Machine.set_proc_self m p _)
  exact ⟨t, d, hprobed.after_set hstep⟩

theorem becomes_of_claims {m : Machine} {q : Nat} (hm : Bounded m) (hq : Claims (m.proc q)) :
    ∃ t d, Becomes m q t d := by
  have hself (h : IsDaemon (m.proc q)) : Becomes m q m q :=
    ⟨.refl, h, .inl rfl, fun _ _ _ => rfl, hm⟩
  cases hproc : m.proc q with
  | forked => exact ⟨m, q, hself (.inl hproc)⟩
  | running => exact ⟨m, q, hself (.inr hproc)⟩
  | probing cmd pid =>
    rw [hproc] at hq
    match cmd, hq with
    | some .start, hpid => exact becomes_of_probing hm (by rw [hproc, show pid = -1 from hpid])
  | deciding cmd pid =>
    rw [hproc] at hq
    match cmd, hq with
    | some .start, hpid => exact becomes_of_deciding hm (by rw [hproc, show pid = -1 from hpid])
  | _ =>
    rw [hproc] at hq
    exact absurd hq id

/-- Behind a read that is not clear, two sensors can come up. -/
theorem two_of_unclear {m : Machine} (hm : Bounded m) {l : Label} (hl : ¬ ReadsClear l m) :
    ∃ t, system.Leads m t ∧ ¬ AtMostOne t := by
  cases l with
  | launch p args => exact absurd trivial hl
  | spawn p => exact absurd trivial hl
  | exit p => exact absurd trivial hl
  | advance p child victims =>
    simp only [ReadsClear, not_forall, not_not] at hl
    obtain ⟨hproc, hpid, q, hq⟩ := hl
    have hqp : q ≠ p := by
      intro he
      rw [he, hproc] at hq
      exact hq
    -- first the reader, then the one that was there already
    obtain ⟨t, d, hreader⟩ := becomes_of_reads hm ⟨hproc, hpid⟩
    have hqd : q ≠ d := by
      intro he
      cases hreader.fresh with
      | inl hself => exact hqp (he.trans hself)
      | inr habsent =>
        rw [he, habsent] at hq
        exact hq
    have hkept : Claims (t.proc q) := by
      rw [hreader.others q hqp hqd]
      exact hq
    obtain ⟨u, e, hother⟩ := becomes_of_claims hreader.bounded hkept
    have hde : d ≠ e := by
      intro he
      cases hother.fresh with
      | inl hself => exact hqd (he.trans hself).symm
      | inr habsent =>
        have hdaemon := hreader.daemon.claims
        rw [he, habsent] at hdaemon
        exact hdaemon
    have hstill : IsDaemon (u.proc d) := by
      rw [hother.others d (Ne.symm hqd) hde]
      exact hreader.daemon
    refine ⟨u, hreader.leads.trans hother.leads, ?_⟩
    intro hone
    exact hde (hone d e hstill hother.daemon)

/-- As long as starts read -1 only while there is no sensor and no other start on its way to
one, at most one sensor runs; after any other such read two can come up. -/
theorem at_most_one (m : Machine) :
    ((system.restrict ReadsClear).Reachable m → AtMostOne m) ∧
      ∀ l, system.Reachable m → ¬ ReadsClear l m → ∃ t, system.Leads m t ∧ ¬ AtMostOne t := by
  refine ⟨?_, ?_⟩
  · intro hm p q hp hq
    exact exclusive_of_clear hm p q hp.claims hq.claims
  · intro l hm hl
    exact two_of_unclear (bounded_of_reachable hm) hl

/- Nothing runs. -/
def idle : Machine := ⟨none, fun _ => .absent⟩

/-- Two starts read before either child has written its pid. -/
theorem both_start : ∃ m, system.Reachable m ∧ ¬ AtMostOne m := by
  have hinit : system.Reachable idle :=
    ⟨[], .start ⟨rfl, fun _ => .inl rfl, 0, fun _ _ => rfl⟩⟩
  obtain ⟨m, hrun, h12, h13⟩ : ∃ m, List.foldlM next idle
      [.launch 10 [ascii "start"], .launch 11 [ascii "start"], .advance 10 none [],
        .advance 11 none [], .advance 10 none [], .advance 11 none [], .advance 10 (some 12) [],
        .advance 11 (some 13) [], .advance 12 none [], .advance 13 none []] = some m ∧
      m.proc 12 = .running ∧ m.proc 13 = .running := ⟨_, rfl, rfl, rfl⟩
  refine ⟨m, hinit.foldlM next _ (fun _ _ _ _ h => h) hrun, ?_⟩
  intro hone
  exact absurd (hone 12 13 (.inr h12) (.inr h13)) (by decide)

end SyscallSensor.Commands
