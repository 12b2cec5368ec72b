import SyscallSensor.FileStream
import SyscallSensor.History
import SyscallSensor.Options
import SyscallSensor.Lib.Refinement
import SyscallSensor.Lib.SharedFile

/-! The files beside the commands of `History`. A start sets up its stream before it looks at the
pid, so also a start that is refused opens the log it names, which cuts the file to nothing. -/
namespace SyscallSensor.LogFiles
open Text Commands Options
open Trace (SysParamsRecord)
open Daemon (get_sensor_pid writePid)
open FileLog (FileStream fileOf fileOf_eq decodeRecord decodeFile fields Collected)
open History (Between history)
open Lib.Decimal (intText IsIntByte)
open Lib.SharedFile
open Lib.Transition (System)
variable {Path : Type} [DecidableEq Path]

/- The `ofstream` of a `file_stream`. -/
structure Log (Path : Type) where
  path : Path
  offset : Nat
deriving DecidableEq

/- What the files have in them, and the log of each process that has one. -/
structure World (Path : Type) where
  machine : Machine
  disk : Path → List Byte
  log : Nat → Option (Log Path)

/-- A command typed in the directory `dir`, or any other event of a history; and a pack that the
sensor `p` sends to its stream. -/
inductive Event where
  | machine (dir : List Byte) (e : History.Event)
  | dispatch (p : Nat) (pack : List SysParamsRecord)

/- Which file a name means in a directory. -/
variable (resolve : List Byte → List Byte → Path)

def World.open (w : World Path) (dir : List Byte) (stream : Stream) : Path → List Byte :=
  match stream.opened with
  | some name => Function.update w.disk (resolve dir name) []
  | none => w.disk

/-- The files after a start that takes the machine to `machine`. Only a start that read -1 forks. -/
def World.start (w : World Path) (machine : Machine) (dir : List Byte) (args : List (List Byte))
    (child : Option Nat) : Option (World Path) :=
  match setup_stream args with
  | .error _ => none
  | .ok stream =>
    match child with
    | none => some ⟨machine, w.open resolve dir stream, w.log⟩
    | some c =>
      if get_sensor_pid w.machine.pid_file = -1 then
        some ⟨machine, w.open resolve dir stream,
          Function.update w.log c (stream.log.map fun name => ⟨resolve dir name, 0⟩)⟩
      else none

/- `_file.write` and `flush`. -/
def World.dispatch (w : World Path) (p : Nat) (pack : List SysParamsRecord) : World Path :=
  match w.log p with
  | none => w
  | some log =>
    let json := (FileStream.dispatch {} pack)._file
    { w with
      disk := Function.update w.disk log.path (writeAt 0 (w.disk log.path) log.offset json)
      log := Function.update w.log p (some { log with offset := log.offset + json.length }) }

def perform (w : World Path) : Event → Option (World Path)
  | .machine dir (.complete p args child victims) => do
    let machine ← History.perform w.machine (.complete p args child victims)
    if command args = some .start then w.start resolve machine dir args child
    else some { w with machine := machine }
  | .machine _ e => (History.perform w.machine e).map fun machine => { w with machine := machine }
  | .dispatch p pack => if w.machine.proc p = .running then some (w.dispatch p pack) else none

def Event.Assigned : Event → Prop
  | .machine _ e => e.Assigned
  | .dispatch _ _ => True

/-- All histories with their files, which may hold anything at first. -/
def system : System (World Path) Event where
  init w := history.init w.machine
  step e w t := e.Assigned ∧ perform resolve w e = some t

/- The start that forks `p`. -/
def Event.startsAs (p : Nat) : Event → Bool
  | .machine _ (.complete _ args child _) => command args = some .start ∧ child = some p
  | _ => false

/- A start that opens the file, refused or not. -/
def Event.opens (path : Path) : Event → Bool
  | .machine dir (.complete _ args _ _) =>
    command args = some .start ∧
      ((setup_stream args).toOption.bind Stream.opened).map (resolve dir) = some path
  | _ => false

def Event.pack? (p : Nat) : Event → Option (List SysParamsRecord)
  | .dispatch q pack => if q = p then some pack else none
  | .machine _ _ => none

def Event.history? : Event → Option History.Event
  | .machine _ e => some e
  | .dispatch _ _ => none

/- The packs of the sensor `p` since the last event that `cut` holds of. -/
def packsSince (cut : Event → Bool) (p : Nat) (events : List Event) : List (List SysParamsRecord) :=
  (events.rtakeWhile fun e => !cut e).filterMap (Event.pack? p)

/-- The packs of the sensor `p` since it was started, and those since a start opened the file. -/
def sinceStart (p : Nat) (events : List Event) : List (List SysParamsRecord) :=
  packsSince (Event.startsAs p) p events

def sinceOpened (p : Nat) (path : Path) (events : List Event) : List (List SysParamsRecord) :=
  packsSince (Event.opens resolve path) p events

/-- What the log of `p` was written and what is left of it. -/
structure Kept (events : List Event) (w : World Path) (p : Nat) (log : Log Path) : Prop where
  offset : log.offset = (fileOf (sinceStart p events)).length
  suffix : sinceOpened resolve p log.path events <:+ sinceStart p events
  content : w.disk log.path =
    holed 0 (log.offset - (fileOf (sinceOpened resolve p log.path events)).length)
      (fileOf (sinceOpened resolve p log.path events))

theorem packsSince_keep {cut : Event → Bool} {p : Nat} {events : List Event} {e : Event}
    (h : cut e = false) :
    packsSince cut p (events ++ [e]) = packsSince cut p events ++ (e.pack? p).toList := by
  rw [packsSince, List.rtakeWhile_concat_pos _ _ _ (by simp [h]), List.filterMap_append,
    List.filterMap_cons]
  cases e.pack? p <;> rfl

theorem packsSince_cut {cut : Event → Bool} {p : Nat} (events : List Event) {e : Event}
    (h : cut e = true) : packsSince cut p (events ++ [e]) = [] := by
  rw [packsSince, List.rtakeWhile_concat_neg _ _ _ (by simp [h])]
  rfl

theorem fileOf_append (packs packs' : List (List SysParamsRecord)) :
    fileOf (packs ++ packs') = fileOf packs ++ fileOf packs' := by
  simp only [fileOf_eq, List.flatten_append, List.map_append, List.flatMap_append]

/-- The log of a fresh sensor. -/
theorem Kept.started {resolve : List Byte → List Byte → Path} {events : List Event}
    {t : World Path} {p : Nat} {path : Path} {e : Event} (hstarts : e.startsAs p = true)
    (hopens : e.opens resolve path = true) (hdisk : t.disk path = []) :
    Kept resolve (events ++ [e]) t p ⟨path, 0⟩ where
  offset := by
    rw [sinceStart, packsSince_cut events hstarts]
    rfl
  suffix := by
    rw [sinceOpened, packsSince_cut events hopens]
    exact List.nil_suffix
  content := by
    rw [sinceOpened, packsSince_cut events hopens]
    exact hdisk

/-- A start of somebody else, which may open the log. -/
theorem Kept.other {resolve : List Byte → List Byte → Path} {events : List Event}
    {w t : World Path} {p : Nat} {log : Log Path} {e : Event} (hw : Kept resolve events w p log)
    (hstarts : e.startsAs p = false) (hpack : e.pack? p = none)
    (hdisk : t.disk log.path = if e.opens resolve log.path then [] else w.disk log.path) :
    Kept resolve (events ++ [e]) t p log := by
  have hstart : sinceStart p (events ++ [e]) = sinceStart p events := by
    rw [sinceStart, packsSince_keep hstarts, hpack]
    exact List.append_nil _
  cases hopens : e.opens resolve log.path with
  | true =>
    have hopened : sinceOpened resolve p log.path (events ++ [e]) = [] := packsSince_cut events hopens
    rw [hopens, if_pos rfl] at hdisk
    exact ⟨by rw [hstart, hw.offset], by rw [hopened]; exact List.nil_suffix, by rw [hopened, hdisk]; rfl⟩
  | false =>
    have hopened : sinceOpened resolve p log.path (events ++ [e]) =
        sinceOpened resolve p log.path events := by
      rw [sinceOpened, packsSince_keep hopens, hpack]
      exact List.append_nil _
    rw [hopens, if_neg Bool.false_ne_true] at hdisk
    exact ⟨by rw [hstart, hw.offset], by rw [hopened, hstart]; exact hw.suffix,
      by rw [hopened, hdisk, hw.content]⟩

/-- The sensor writes where its descriptor stands. -/
theorem Kept.dispatch {resolve : List Byte → List Byte → Path} {events : List Event}
    {w : World Path} {p : Nat} {log : Log Path} (hw : Kept resolve events w p log)
    (hlog : w.log p = some log) (pack : List SysParamsRecord) {log' : Log Path}
    (hlog' : (w.dispatch p pack).log p = some log') :
    Kept resolve (events ++ [.dispatch p pack]) (w.dispatch p pack) p log' := by
  have hpack : (Event.dispatch p pack).pack? p = some pack := if_pos rfl
  have hstart : sinceStart p (events ++ [.dispatch p pack]) = sinceStart p events ++ [pack] := by
    rw [sinceStart, packsSince_keep rfl, hpack]
    rfl
  have hopened (path : Path) : sinceOpened resolve p path (events ++ [.dispatch p pack]) =
      sinceOpened resolve p path events ++ [pack] := by
    rw [sinceOpened, packsSince_keep rfl, hpack]
    rfl
  simp only [World.dispatch, hlog, Function.update_self, Option.some.injEq] at hlog'
  obtain ⟨before, hbefore⟩ := hw.suffix
  have hwithin : (fileOf (sinceOpened resolve p log.path events)).length ≤ log.offset := by
    rw [hw.offset, ← hbefore, fileOf_append, List.length_append]
    omega
  subst hlog'
  refine ⟨?_, ?_, ?_⟩
  · rw [hstart, fileOf_append, List.length_append, ← hw.offset]
    rfl
  · rw [hstart, hopened, ← hbefore, List.append_assoc]
    exact List.suffix_append _ _
  · simp only [World.dispatch, hlog, Function.update_self, hopened, fileOf_append, hw.content]
    rw [writeAt_holed 0 hwithin, List.length_append]
    congr 1
    have htext : fileOf [pack] = (FileStream.dispatch {} pack)._file := rfl
    rw [htext]
    omega

theorem unique_of_between {m : Machine} {died : Prop} (hm : Between m died) {p q : Nat}
    (hp : m.proc p = .running) (hq : m.proc q = .running) : p = q := by
  cases hm with
  | clean hdied hfile hproc => exact absurd hp (hproc p)
  | live hdied d hd hfile hproc => exact ((hproc p).mp hp).trans ((hproc q).mp hq).symm
  | stale hdied d hd hfile hproc => exact absurd hp (hproc p)

/- The pid file is absent, or a sensor has written it. -/
theorem pid_cases {m : Machine} {died : Prop} (hm : Between m died) :
    get_sensor_pid m.pid_file = -1 ∨ 0 < get_sensor_pid m.pid_file := by
  cases hm with
  | clean hdied hfile hproc => exact .inl (by rw [hfile]; rfl)
  | live hdied d hd hfile hproc =>
    rw [hfile, History.get_sensor_pid_writePid hd]
    omega
  | stale hdied d hd hfile hproc =>
    rw [hfile, History.get_sensor_pid_writePid hd]
    omega

theorem running_of_complete {m t : Machine} {died : Prop} {p : Nat} {args : List (List Byte)}
    {child : Option Nat} {victims : List Nat} (hm : Between m died)
    (h : History.perform m (.complete p args child victims) = some t) {q : Nat}
    (hq : t.proc q = .running) :
    m.proc q = .running ∨
      child = some q ∧ command args = some .start ∧ get_sensor_pid m.pid_file = -1 := by
  obtain ⟨hfree, hend⟩ := History.perform_complete h
  by_cases hstart : command args = some .start ∧ get_sensor_pid m.pid_file = -1
  · rw [hstart.1, hstart.2] at hend
    cases History.start_ends hfree hend with
    | inl hsame => exact .inl (hsame ▸ hq)
    | inr hforked =>
      obtain ⟨c, hchild, -, rfl⟩ := hforked
      by_cases hc : q = c
      · exact .inr ⟨by rw [hchild, hc], hstart⟩
      · rw [Machine.set_proc_of_ne _ _ hc] at hq
        exact .inl hq
  · refine .inl ?_
    by_cases hstop : command args = some .stop ∧ 0 < get_sensor_pid m.pid_file
    · rw [hstop.1, History.toEnd, if_pos (by omega)] at hend
      rw [History.stop_ends hstop.2 hend] at hq
      have hkilled := History.running_of_killAll (History.running_of_set (by decide) hq).2
      exact (History.running_of_killAll hkilled.2).2
    · have hsame := History.ends_unchanged hfree
        (fun hc => (pid_cases hm).resolve_right fun hpos => hstop ⟨hc, hpos⟩)
        (fun hc hneg => hstart ⟨hc, hneg⟩) hend
      rwa [hsame] at hq

/-- A sensor that runs after an event ran before it, or has just been forked. -/
theorem running_of_perform {m t : Machine} {died : Prop} {e : History.Event} (hm : Between m died)
    (h : History.perform m e = some t) {q : Nat} (hq : t.proc q = .running) :
    m.proc q = .running ∨ ∃ p args victims, e = .complete p args (some q) victims ∧
      command args = some .start ∧ get_sensor_pid m.pid_file = -1 := by
  cases e with
  | complete p args child victims =>
    refine (running_of_complete hm h hq).imp_right ?_
    rintro ⟨rfl, hstart⟩
    exact ⟨p, args, victims, rfl, hstart⟩
  | death p =>
    have hexit := (Option.ite_none_left_eq_some.mp (Option.ite_none_right_eq_some.mp h).2).2
    rw [← Option.some.inj hexit] at hq
    exact .inl (History.running_of_set (by decide) hq).2
  | spawn p =>
    obtain ⟨-, rfl⟩ := Lib.Outcome.guarded_eq_some h
    exact .inl (History.running_of_set (by decide) hq).2
  | gone p =>
    have hexit := (Option.ite_none_left_eq_some.mp (Option.ite_none_right_eq_some.mp h).2).2
    rw [← Option.some.inj hexit] at hq
    exact .inl (History.running_of_set (by decide) hq).2

/- What a start does to the files. -/
theorem World.start_eq_some {resolve : List Byte → List Byte → Path} {w t : World Path}
    {machine : Machine} {dir : List Byte} {args : List (List Byte)} {child : Option Nat}
    (h : w.start resolve machine dir args child = some t) :
    ∃ stream, setup_stream args = .ok stream ∧ t.machine = machine ∧
      t.disk = w.open resolve dir stream ∧
      t.log = child.elim w.log fun c =>
        Function.update w.log c (stream.log.map fun name => ⟨resolve dir name, 0⟩) := by
  cases hstream : setup_stream args with
  | error fault =>
    simp only [World.start, hstream] at h
    cases h
  | ok stream =>
    simp only [World.start, hstream] at h
    cases child with
    | none =>
      obtain rfl := Option.some.inj h
      exact ⟨stream, rfl, rfl, rfl, rfl⟩
    | some c =>
      obtain ⟨-, rfl⟩ := Lib.Outcome.guarded_eq_some h
      exact ⟨stream, rfl, rfl, rfl, rfl⟩

theorem World.open_at (resolve : List Byte → List Byte → Path) (w : World Path) (dir : List Byte)
    {args : List (List Byte)} {stream : Stream} (hstream : setup_stream args = .ok stream)
    (hstart : command args = some .start) (path : Path) (p : Nat) (child : Option Nat)
    (victims : List Nat) :
    w.open resolve dir stream path =
      if (Event.machine dir (.complete p args child victims)).opens resolve path then []
      else w.disk path := by
  simp only [World.open, Event.opens, hstream, hstart, Except.toOption, true_and,
    Option.bind_some]
  cases stream.opened with
  | none => simp
  | some name =>
    by_cases hpath : resolve dir name = path
    · simp [hpath]
    · simp [hpath, Function.update_of_ne (Ne.symm hpath)]

theorem perform_machine {resolve : List Byte → List Byte → Path} {w t : World Path}
    {dir : List Byte} {e : History.Event} (h : perform resolve w (.machine dir e) = some t) :
    History.perform w.machine e = some t.machine := by
  cases e with
  | complete p args child victims =>
    simp only [perform, Option.bind_eq_bind, Option.bind_eq_some_iff] at h
    obtain ⟨machine, hmachine, ht⟩ := h
    rw [hmachine]
    by_cases hstart : command args = some .start
    · rw [if_pos hstart] at ht
      obtain ⟨stream, -, hsame, -⟩ := World.start_eq_some ht
      rw [hsame]
    · rw [if_neg hstart] at ht
      rw [← Option.some.inj ht]
  | death p | spawn p | gone p =>
    obtain ⟨machine, hmachine, rfl⟩ := Option.map_eq_some_iff.mp h
    exact hmachine

@[simp] theorem World.dispatch_machine (w : World Path) (p : Nat) (pack : List SysParamsRecord) :
    (w.dispatch p pack).machine = w.machine := by
  unfold World.dispatch
  cases w.log p <;> rfl

/-- What the histories do to the machine is a history. -/
theorem refines_history (resolve : List Byte → List Byte → Path) :
    (system resolve).Refines history (fun _ => True) World.machine Event.history? where
  init _ hinit := ⟨trivial, hinit⟩
  keep _ _ _ _ _ := trivial
  step e w t _ hstep := by
    cases e with
    | machine dir e => exact .inr ⟨e, rfl, hstep.1, perform_machine hstep.2⟩
    | dispatch p pack =>
      obtain ⟨-, rfl⟩ := Lib.Outcome.guarded_eq_some hstep.2
      exact .inl (World.dispatch_machine w p pack)

theorem between_of_run {resolve : List Byte → List Byte → Path} {events : List Event}
    {w : World Path} (h : (system resolve).Run events w) : ∃ died, Between w.machine died := by
  obtain ⟨shown, -, hrun⟩ := (refines_history resolve).run h
  exact ⟨_, History.between_of_run hrun⟩

/- An event that is no start leaves the files alone. -/
theorem Kept.quiet {resolve : List Byte → List Byte → Path} {events : List Event}
    {w t : World Path} {p : Nat} {log : Log Path} {e : Event} (hw : Kept resolve events w p log)
    (hstarts : e.startsAs p = false) (hopens : e.opens resolve log.path = false)
    (hpack : e.pack? p = none) (hdisk : t.disk = w.disk) : Kept resolve (events ++ [e]) t p log :=
  hw.other hstarts hpack (by rw [hopens, hdisk]; rfl)

theorem opened_of_log {stream : Stream} {name : List Byte} (h : stream.log = some name) :
    stream.opened = some name := by
  cases stream with
  | file other => exact h
  | socket _ _ | aggr _ | dumy => cases h

def AllKept (resolve : List Byte → List Byte → Path) (events : List Event) (w : World Path) : Prop :=
  ∀ p log, w.machine.proc p = .running → w.log p = some log → Kept resolve events w p log

theorem AllKept.machine {resolve : List Byte → List Byte → Path} {events : List Event}
    {w t : World Path} {died : Prop} {dir : List Byte} {e : History.Event}
    (hw : AllKept resolve events w) (hm : Between w.machine died)
    (h : perform resolve w (.machine dir e) = some t) :
    AllKept resolve (events ++ [.machine dir e]) t := by
  intro q log hq hlog
  have hran := running_of_perform hm (perform_machine h) hq
  cases e with
  | complete p args child victims =>
    simp only [perform, Option.bind_eq_bind, Option.bind_eq_some_iff] at h
    obtain ⟨machine, hmachine, ht⟩ := h
    by_cases hstart : command args = some .start
    · rw [if_pos hstart] at ht
      obtain ⟨stream, hstream, -, hdisk, hlogs⟩ := World.start_eq_some ht
      have hat := World.open_at resolve w dir hstream hstart
      by_cases hchild : child = some q
      · -- the sensor that was started
        rw [hlogs, hchild, Option.elim_some, Function.update_self] at hlog
        obtain ⟨name, hname, rfl⟩ := Option.map_eq_some_iff.mp hlog
        have hopens : (Event.machine dir (.complete p args child victims)).opens resolve
            (resolve dir name) = true := by
          simp [Event.opens, hstart, hstream, Except.toOption, opened_of_log hname]
        refine Kept.started ?_ hopens ?_
        · simp [Event.startsAs, hstart, hchild]
        · rw [hdisk, hat (resolve dir name) p child victims, if_pos hopens]
      · have hbefore := hran.resolve_right (by simp [hchild])
        have hsame : t.log q = w.log q := by
          rw [hlogs]
          cases child with
          | none => rfl
          | some c => exact Function.update_of_ne (fun hc => hchild (congrArg some hc.symm)) _ _
        rw [hsame] at hlog
        refine (hw q log hbefore hlog).other (by simp [Event.startsAs, hchild]) rfl ?_
        rw [hdisk, hat log.path p child victims]
    · rw [if_neg hstart] at ht
      obtain rfl := Option.some.inj ht
      have hbefore := hran.resolve_right (by simp [hstart])
      exact (hw q log hbefore hlog).quiet (by simp [Event.startsAs, hstart])
        (by simp [Event.opens, hstart]) rfl rfl
  | death p | spawn p | gone p =>
    obtain ⟨machine, hmachine, rfl⟩ := Option.map_eq_some_iff.mp h
    have hbefore := hran.resolve_right (by simp)
    exact (hw q log hbefore hlog).quiet rfl rfl rfl rfl

theorem AllKept.dispatch {resolve : List Byte → List Byte → Path} {events : List Event}
    {w : World Path} {died : Prop} {p : Nat} {pack : List SysParamsRecord}
    (hw : AllKept resolve events w) (hm : Between w.machine died)
    (hp : w.machine.proc p = .running) :
    AllKept resolve (events ++ [.dispatch p pack]) (w.dispatch p pack) := by
  intro q log hq hlog
  rw [World.dispatch_machine] at hq
  -- only one sensor runs, so nobody else writes
  obtain rfl := unique_of_between hm hp hq
  cases hold : w.log p with
  | none =>
    rw [World.dispatch, hold] at hlog
    exact absurd (hold.symm.trans hlog) (by simp)
  | some old => exact (hw p old hp hold).dispatch hold pack hlog

theorem allKept_of_run {resolve : List Byte → List Byte → Path} {events : List Event}
    {w : World Path} (h : (system resolve).Run events w) : AllKept resolve events w := by
  induction h with
  | start hw =>
    intro p log hp
    exact absurd (IsDaemon.claims (.inr hp)) (not_claims_of_init hw p)
  | @next events e w t hrun hstep ih =>
    obtain ⟨died, hbetween⟩ := between_of_run hrun
    cases e with
    | machine dir e => exact ih.machine hbetween hstep.2
    | dispatch p pack =>
      obtain ⟨hp, rfl⟩ := Lib.Outcome.guarded_eq_some hstep.2
      exact ih.dispatch hbetween hp

/-- In every history of commands, deaths and packs, the log of the running sensor is the text of
the packs since a start opened it last, the refused ones among them, behind a hole as long as
everything the sensor wrote before. -/
theorem log_holed {resolve : List Byte → List Byte → Path} {events : List Event} {w : World Path}
    (h : (system resolve).Run events w) {p : Nat} (hp : w.machine.proc p = .running) {log : Log Path}
    (hlog : w.log p = some log) :
    w.disk log.path =
      holed 0 ((fileOf (sinceStart p events)).length -
          (fileOf (sinceOpened resolve p log.path events)).length)
        (fileOf (sinceOpened resolve p log.path events)) := by
  have hkept := allKept_of_run h p log hp hlog
  rw [hkept.content, hkept.offset]

/- Names relative to the root directory. -/
def inRoot (dir name : List Byte) : List Byte := dir ++ name

def startLogging (p : Nat) (child : Option Nat) : Event :=
  .machine (ascii "/") (.complete p [ascii "start", ascii "-o", ascii "log"] child [])

/- A start with a log, a pack, the same start again, and one more pack. -/
def startedTwice : List Event :=
  [startLogging 10 (some 11), .dispatch 11 [{ _name := ascii "sh", _pid := 7, _syscall := 0 }],
    startLogging 12 none, .dispatch 11 [{ _name := ascii "cat", _pid := 8, _syscall := 3 }]]

def empty : World (List Byte) := ⟨idle, fun _ => [], fun _ => none⟩

def overwritten : World (List Byte) :=
  (startedTwice.foldlM (perform inRoot) empty).get (by decide +kernel)

theorem run_startedTwice : (system inRoot).Run startedTwice overwritten := by
  have hinit : (system inRoot).Run [] empty := .start ⟨rfl, fun _ => .inl rfl, 0, fun _ _ => rfl⟩
  have hassigned : ∀ e ∈ startedTwice, e.Assigned := by
    simp only [startedTwice, List.forall_mem_cons]
    exact ⟨show 11 ≤ 4194304 by decide, trivial, trivial, trivial, by simp⟩
  have hrun : startedTwice.foldlM (perform inRoot) empty = some overwritten := by
    rw [overwritten, Option.some_get]
  exact hinit.foldlM (perform inRoot) startedTwice (fun e he s t hstep => ⟨hassigned e he, hstep⟩) hrun

theorem overwritten_running : overwritten.machine.proc 11 = .running := by decide +kernel

theorem overwritten_log : overwritten.log 11 = some ⟨ascii "/log", 33⟩ := by decide +kernel

theorem log_holed_startedTwice :
    overwritten.disk (ascii "/log") = List.replicate 16 0 ++ ascii "'cat','8','3',''\n" := by
  have hcontent := log_holed run_startedTwice overwritten_running overwritten_log
  rw [hcontent]
  decide +kernel

theorem fileOf_nil {packs : List (List SysParamsRecord)} (h : packs.flatten = []) :
    fileOf packs = [] := by
  rw [fileOf_eq, h]
  rfl

theorem fileOf_ne_nil {packs : List (List SysParamsRecord)} (h : packs.flatten ≠ []) :
    fileOf packs ≠ [] := by
  obtain ⟨r, records, hrecords⟩ := List.exists_cons_of_ne_nil h
  rw [fileOf_eq, hrecords]
  simp

theorem decodeRecord_behind (front : List Byte) {r : SysParamsRecord} (h : Collected r) :
    decodeRecord (front ++ r.to_string) =
      ((front ++ ascii "'" ++ r._name).dropPrefix? (ascii "'")).map
        fun name => (name, r._pid, r._syscall) := by
  have hsep : (ascii "','").getLast?.map IsIntByte = some false := by decide
  have hclose : ascii "','" ++ [] ++ ascii "'" = ascii "',''" := by decide
  have htext : front ++ r.to_string = front ++ ascii "'" ++ r._name ++ ascii "','" ++
      intText r._pid ++ ascii "','" ++ intText r._syscall ++ ascii "',''" := by
    rw [SysParamsRecord.to_string, h.2, ← hclose]
    simp only [List.append_assoc]
  simp only [decodeRecord, htext, Lib.RightEnd.dropSuffix?_append, Lib.RightEnd.cutInt_append hsep,
    Option.bind_eq_bind, Option.bind_some]
  cases (front ++ ascii "'" ++ r._name).dropPrefix? (ascii "'") <;> rfl

/-- A reader gets nothing from a log with a hole in it. -/
theorem decodeFile_hole {gap : Nat} (hgap : 0 < gap) {packs : List (List SysParamsRecord)}
    (h : ∀ r ∈ packs.flatten, Collected r) (hsome : packs.flatten ≠ []) :
    decodeFile (List.replicate gap 0 ++ fileOf packs) = none := by
  obtain ⟨r, records, hrecords⟩ := List.exists_cons_of_ne_nil hsome
  obtain ⟨n, rfl⟩ := Nat.exists_eq_succ_of_ne_zero hgap.ne'
  rw [hrecords, List.forall_mem_cons] at h
  have hzeros : newline ∉ List.replicate (n + 1) (0 : Byte) := by
    intro hmem
    exact absurd (List.eq_of_mem_replicate hmem) (by decide)
  have hlines : ∀ line ∈ (List.replicate (n + 1) 0 ++ r.to_string) ::
      records.map SysParamsRecord.to_string, newline ∉ line := by
    rw [List.forall_mem_cons, List.forall_mem_map]
    refine ⟨?_, fun s hs => FileLog.to_string_noNewline (h.2 s hs)⟩
    rw [List.mem_append, not_or]
    exact ⟨hzeros, FileLog.to_string_noNewline h.1⟩
  have hcontent : List.replicate (n + 1) 0 ++ fileOf packs =
      ((List.replicate (n + 1) 0 ++ r.to_string) ::
        records.map SysParamsRecord.to_string).flatMap fun line => line ++ [newline] := by
    rw [fileOf_eq, hrecords, List.map_cons, List.flatMap_cons, List.flatMap_cons]
    simp only [List.append_assoc]
  have hfirst : decodeRecord (List.replicate (n + 1) 0 ++ r.to_string) = none := by
    rw [decodeRecord_behind _ h.1, List.replicate_succ]
    rfl
  rw [decodeFile, hcontent, Lib.Pieces.cutEnded_flatMap hlines, Option.bind_eq_bind,
    Option.bind_some, List.mapM_cons, hfirst]
  rfl

/-- The log shows what the sensor has dispatched since it was started exactly when no start has
opened it after the first record. -/
theorem log_readable_iff {resolve : List Byte → List Byte → Path} {events : List Event}
    {w : World Path} (h : (system resolve).Run events w) {p : Nat}
    (hp : w.machine.proc p = .running) {log : Log Path} (hlog : w.log p = some log)
    (hcollected : ∀ r ∈ (sinceStart p events).flatten, Collected r) :
    decodeFile (w.disk log.path) = some ((sinceStart p events).flatten.map fields) ↔
      (sinceOpened resolve p log.path events).flatten = (sinceStart p events).flatten := by
  have hkept := allKept_of_run h p log hp hlog
  obtain ⟨before, hbefore⟩ := hkept.suffix
  have hcontent := hkept.content
  rw [hkept.offset] at hcontent
  rw [← hbefore, List.flatten_append] at hcollected ⊢
  rw [← hbefore, fileOf_append, List.length_append, Nat.add_sub_cancel] at hcontent
  generalize sinceOpened resolve p log.path events = since at *
  by_cases hnone : before.flatten = []
  · rw [hcontent, fileOf_nil hnone, List.length_nil, holed_zero, hnone, List.nil_append]
    rw [hnone, List.nil_append] at hcollected
    exact iff_of_true (FileLog.decodeFile_fileOf hcollected) rfl
  · refine iff_of_false ?_ ?_
    · rw [hcontent]
      by_cases hempty : since.flatten = []
      · have hdecode : decodeFile [] = some [] := rfl
        rw [fileOf_nil hempty, holed, hdecode, hempty]
        simpa using hnone
      · have hgap := List.length_pos_of_ne_nil (fileOf_ne_nil hnone)
        rw [holed_of_ne_nil 0 _ (fileOf_ne_nil hempty), decodeFile_hole hgap ?_ hempty]
        · simp
        · exact fun r hr => hcollected r (List.mem_append_right _ hr)
    · intro hsame
      exact hnone (List.self_eq_append_left.mp hsame)

theorem log_readable_iff_startedTwice :
    decodeFile (overwritten.disk (ascii "/log")) ≠
      some ((sinceStart 11 startedTwice).flatten.map fields) := by
  have hiff := log_readable_iff run_startedTwice overwritten_running overwritten_log (by decide)
  exact mt hiff.mp (by decide)

end SyscallSensor.LogFiles
