import SyscallSensor.BaseSensor

/-! `linux_daemon.h`: the pid file, and the processes that `kill_sensor` sends SIGKILL to. -/
namespace SyscallSensor.Daemon
open Text Utils Base

/- What `operator>>` skips. -/
def isSpace (b : Byte) : Bool := b = blank ∨ (9 ≤ b.toNat ∧ b.toNat ≤ 13)

def clampInt (v : Int) : Int := max (-2 ^ 31) (min (2 ^ 31 - 1) v)

/-- `pid_file >> pid`: nothing but space leaves `pid` as it was, a text without digits stores
zero, and a value outside `int` its nearest bound. -/
def extractInt (content : List Byte) (pid : Int) : Int :=
  match content.dropWhile isSpace with
  | [] => pid
  | b :: rest =>
    if b = 45 then
      clampInt (-Int.ofNat (Lib.Decimal.value (rest.takeWhile fun c => Lib.Decimal.IsDigit c)))
    else if b = 43 then
      clampInt (Int.ofNat (Lib.Decimal.value (rest.takeWhile fun c => Lib.Decimal.IsDigit c)))
    else
      clampInt (Int.ofNat (Lib.Decimal.value ((b :: rest).takeWhile fun c => Lib.Decimal.IsDigit c)))

/-- `get_sensor_pid`, where `none` is a missing pid file. -/
def get_sensor_pid (pid_file : Option (List Byte)) : Int :=
  match pid_file with
  | none => -1
  | some content => extractInt content (-1)

/- `setup_daemon` in the child, as far as the pid file goes: `write_to` appends. -/
def writePid (pid_file : Option (List Byte)) (pid : Nat) : Option (List Byte) :=
  some (pid_file.getD [] ++ (Lib.Decimal.text pid ++ [newline]))

/-- Only the first number of the pid file counts. -/
theorem get_sensor_pid_text {pid : Nat} (hpid : pid < 2 ^ 31) (rest : List Byte) :
    get_sensor_pid (some (Lib.Decimal.text pid ++ newline :: rest)) = pid := by
  have hdigits : ∀ b ∈ Lib.Decimal.text pid, Lib.Decimal.IsDigit b :=
    fun b hb => Lib.Decimal.text_isDigit hb
  have htake : (Lib.Decimal.text pid ++ newline :: rest).takeWhile
      (fun c => Lib.Decimal.IsDigit c) = Lib.Decimal.text pid := by
    rw [List.takeWhile_append_of_pos fun b hb => decide_eq_true (hdigits b hb)]
    simp [show ¬ Lib.Decimal.IsDigit newline by decide]
  cases htext : Lib.Decimal.text pid with
  | nil => exact absurd htext (Lib.Decimal.text_ne_nil pid)
  | cons b bs =>
    have hb := hdigits b (by simp [htext])
    have hspace : isSpace b = false := by
      have hrange : 48 ≤ b.toNat ∧ b.toNat ≤ 57 := hb
      rw [isSpace, decide_eq_false_iff_not, not_or]
      refine ⟨?_, by omega⟩
      intro he
      rw [he] at hb
      exact absurd hb (by decide)
    have hsign : b ≠ 45 ∧ b ≠ 43 := by
      constructor <;> (intro he; rw [he] at hb; exact absurd hb (by decide))
    rw [htext, List.cons_append] at htake
    rw [get_sensor_pid, extractInt, List.cons_append, List.dropWhile_cons_of_neg (by simp [hspace])]
    simp only [hsign.1, hsign.2, if_false, htake]
    rw [← htext, Lib.Decimal.value_text, clampInt]
    simp only [Int.ofNat_eq_natCast]
    omega

def SIGKILL : Nat := 9

/- What a call does outside its own process. -/
inductive Effect where
  | append (line : Append)
  | sleep (sec : Nat)
  | kill (pid : Int) (sig : Nat)
deriving DecidableEq, Repr

/- What `kill_sensor` does, given the ids that `get_pids` returns after the sleep. -/
def killSteps (curr_pid pid : Int) (pids : List Int) : List Effect :=
  [.append (write_to (SYSCALLS_PATH ++ ascii "/filter") (ascii "0")),
    .append (write_to (SYSCALLS_PATH ++ ascii "/" ++ SYS_ENTRY ++ ascii "/" ++ ascii "filter")
      (ascii "0")),
    .append (write_to (SYSCALLS_PATH ++ ascii "/" ++ SYS_EXIT ++ ascii "/filter") (ascii "0")),
    .sleep 5] ++
  (pids.filter fun itr => curr_pid ≠ itr).map (fun itr => Effect.kill itr SIGKILL) ++
  [.append (write_to (FTRACE_PATH ++ ascii "/tracing_on") (ascii "0")), .kill pid SIGKILL]

/-- `kill_sensor`, where `curr_pid` is the caller's own pid. -/
def kill_sensor (popen : List Byte → Option (List Byte)) (curr_pid pid : Int) :
    Except Fault (List Effect) := do
  let pids ← get_pids popen pid
  pure (killSteps curr_pid pid pids)

def Effect.target : Effect → Option Int
  | .kill pid sig => if sig = SIGKILL then some pid else none
  | _ => none

/-- The targets of SIGKILL, in the order they are hit. -/
def targets (effects : List Effect) : List Int := effects.filterMap Effect.target

/- What stop is for: the sensor's threads without the caller, and the sensor. -/
def SensorOnly (tasks : List TaskLine) (curr_pid pid : Int) (effects : List Effect) : Prop :=
  (∀ k, k ∈ targets effects ↔ (∃ task ∈ tasks, k = task.id ∧ k ≠ curr_pid) ∨ k = pid) ∧
    ∀ k ∈ targets effects, 0 < k

/- An id keeps its value as a `short`, or is hit anyway (or is the caller) while its short
   names the caller or is hit anyway. -/
def Harmless (tasks : List TaskLine) (curr_pid pid : Int) (id : Nat) : Prop :=
  id ≤ 32767 ∨ ((id = pid ∨ id = curr_pid) ∧
    (toShort id = curr_pid ∨ toShort id = pid ∨ ∃ task ∈ tasks, toShort id = task.id))

/-- The writes of `stop` are those of the sensor's own `clear_filters` and `set_trace`. -/
theorem killSteps_eq (curr_pid pid : Int) (pids : List Int) :
    killSteps curr_pid pid pids = clear_filters.map Effect.append ++ [.sleep 5] ++
      (pids.filter fun itr => curr_pid ≠ itr).map (fun itr => Effect.kill itr SIGKILL) ++
      [.append (set_trace false), .kill pid SIGKILL] := rfl

theorem targets_killSteps (curr_pid pid : Int) (pids : List Int) :
    targets (killSteps curr_pid pid pids) = (pids.filter fun itr => curr_pid ≠ itr) ++ [pid] := by
  have hwrites : (clear_filters.map Effect.append ++ [Effect.sleep 5]).filterMap Effect.target =
      [] := rfl
  have hkills : (fun itr => (Effect.kill itr SIGKILL).target) = fun itr => some itr := rfl
  have hlast : [Effect.append (set_trace false), .kill pid SIGKILL].filterMap Effect.target =
      [pid] := rfl
  rw [targets, killSteps_eq, List.filterMap_append, List.filterMap_append, hwrites, hlast,
    List.nil_append, List.filterMap_map, Function.comp_def, hkills, List.filterMap_some]

/-- The targets are the ids of the listing cut to 16 bits, without the caller, and `pid`. -/
theorem kill_sensor_targets {popen : List Byte → Option (List Byte)} (curr_pid : Int) {pid : Int}
    {tasks : List TaskLine} (hls : popen (lsCommand pid) = some (listing tasks)) :
    ∃ effects, kill_sensor popen curr_pid pid = .ok effects ∧
      ∀ k, k ∈ targets effects ↔ (∃ task ∈ tasks, k = toShort task.id ∧ k ≠ curr_pid) ∨ k = pid := by
  refine ⟨killSteps curr_pid pid (tasks.map fun task => toShort task.id), ?_, ?_⟩
  · rw [kill_sensor, get_pids_listing hls]
    rfl
  · intro k
    simp only [targets_killSteps, List.mem_append, List.mem_filter, List.mem_map,
      List.mem_singleton, decide_eq_true_eq]
    constructor
    · intro h
      cases h with
      | inl h =>
        obtain ⟨⟨task, htask, hk⟩, hcurr⟩ := h
        exact .inl ⟨task, htask, hk.symm, Ne.symm hcurr⟩
      | inr h => exact .inr h
    · intro h
      cases h with
      | inl h =>
        obtain ⟨task, htask, hk, hcurr⟩ := h
        exact .inl ⟨⟨task, htask, hk.symm⟩, Ne.symm hcurr⟩
      | inr h => exact .inr h

/- The two directions for any list of effects whose targets are the shorts of the ids. -/
section Targets
variable {effects : List Effect} {tasks : List TaskLine} {curr_pid pid : Int}

theorem harmless_of_exact
    (htargets : ∀ k, k ∈ targets effects ↔
      (∃ task ∈ tasks, k = toShort task.id ∧ k ≠ curr_pid) ∨ k = pid)
    (hexact : ∀ k, k ∈ targets effects ↔ (∃ task ∈ tasks, k = task.id ∧ k ≠ curr_pid) ∨ k = pid)
    {task : TaskLine} (htask : task ∈ tasks) : Harmless tasks curr_pid pid task.id := by
  simp only [htargets] at hexact
  by_cases hfits : task.id ≤ 32767
  · exact .inl hfits
  · refine .inr ⟨?_, ?_⟩
    · -- no short reaches a wide id, so it is a target only as `pid`
      by_contra hnot
      have hneither := not_or.mp hnot
      cases (hexact task.id).mpr (.inl ⟨task, htask, rfl, hneither.2⟩) with
      | inl hhit =>
        obtain ⟨task', -, hid, -⟩ := hhit
        have hrange := toShort_range task'.id
        omega
      | inr hhit => exact hneither.1 hhit
    · by_cases hcurr : toShort task.id = curr_pid
      · exact .inl hcurr
      · cases (hexact (toShort task.id)).mp (.inl ⟨task, htask, rfl, hcurr⟩) with
        | inl hhit =>
          obtain ⟨task', htask', hid, -⟩ := hhit
          exact .inr (.inr ⟨task', htask', hid⟩)
        | inr hhit => exact .inr (.inl hhit)

theorem exact_of_harmless
    (htargets : ∀ k, k ∈ targets effects ↔
      (∃ task ∈ tasks, k = toShort task.id ∧ k ≠ curr_pid) ∨ k = pid)
    (hharmless : ∀ task ∈ tasks, Harmless tasks curr_pid pid task.id) (k : Int) :
    k ∈ targets effects ↔ (∃ task ∈ tasks, k = task.id ∧ k ≠ curr_pid) ∨ k = pid := by
  rw [htargets]
  constructor
  · intro hk
    cases hk with
    | inl hk =>
      obtain ⟨task, htask, hid, hcurr⟩ := hk
      cases hharmless task htask with
      | inl hfits =>
        exact .inl ⟨task, htask, by rw [hid, (toShort_eq_self_iff _).mpr hfits], hcurr⟩
      | inr hwide =>
        cases hwide.2 with
        | inl hshort => exact absurd (hid.trans hshort) hcurr
        | inr hshort =>
          cases hshort with
          | inl hshort => exact .inr (hid.trans hshort)
          | inr hshort =>
            obtain ⟨task', htask', hid'⟩ := hshort
            exact .inl ⟨task', htask', hid.trans hid', hcurr⟩
    | inr hk => exact .inr hk
  · intro hk
    cases hk with
    | inl hk =>
      obtain ⟨task, htask, hid, hcurr⟩ := hk
      cases hharmless task htask with
      | inl hfits =>
        exact .inl ⟨task, htask, by rw [hid, (toShort_eq_self_iff _).mpr hfits], hcurr⟩
      | inr hwide =>
        cases hwide.1 with
        | inl hown => exact .inr (hid.trans hown)
        | inr hown => exact absurd (hid.trans hown) hcurr
    | inr hk => exact .inr hk

end Targets

/-- `stop` hits the sensor's threads and nothing else exactly when every thread id is
harmless as a `short`. -/
theorem kill_sensor_only_iff {popen : List Byte → Option (List Byte)} (curr_pid : Int) {pid : Int}
    {tasks : List TaskLine} (hpid : 1 ≤ pid)
    (hls : popen (lsCommand pid) = some (listing tasks)) :
    ∃ effects, kill_sensor popen curr_pid pid = .ok effects ∧
      (SensorOnly tasks curr_pid pid effects ↔
        ∀ task ∈ tasks, Harmless tasks curr_pid pid task.id) := by
  obtain ⟨effects, hkill, htargets⟩ := kill_sensor_targets curr_pid hls
  refine ⟨effects, hkill, ?_⟩
  constructor
  · intro h task htask
    exact harmless_of_exact htargets h.1 htask
  · intro h
    have hexact := exact_of_harmless htargets h
    refine ⟨hexact, ?_⟩
    intro k hk
    cases (hexact k).mp hk with
    | inl hk =>
      obtain ⟨task, -, hid, -⟩ := hk
      have hassigned := task.assigned
      omega
    | inr hk => omega

/-- A sensor of two threads, one of which has the caller's id. -/
theorem kill_sensor_only_812 :
    ∃ effects, kill_sensor (fun _ => some (listing twoTasks)) 813 812 = .ok effects ∧
      targets effects = [812, 812] ∧ SensorOnly twoTasks 813 812 effects := by
  have hnarrow : ∀ task ∈ twoTasks, task.id ≤ 32767 := by decide
  obtain ⟨effects, hkill, hiff⟩ := @kill_sensor_only_iff (fun _ => some (listing twoTasks)) 813 812
    twoTasks (by decide) rfl
  refine ⟨effects, hkill, ?_, hiff.mpr fun task htask => .inl (hnarrow task htask)⟩
  rw [kill_sensor, @get_pids_listing _ _ twoTasks rfl] at hkill
  rw [← Except.ok.inj hkill]
  decide +kernel

/-- A sensor with the pid 65536: the first SIGKILL goes to pid 0, the caller's own process
group. -/
theorem own_group_killed :
    ∃ effects, kill_sensor (fun _ => some (listing [task65536])) 900 65536 = .ok effects ∧
      targets effects = [0, 65536] ∧ ¬ SensorOnly [task65536] 900 65536 effects := by
  have hshort : toShort 65536 = 0 := by decide
  have hget : get_pids (fun _ => some (listing [task65536])) 65536 = .ok [0] := by
    rw [get_pids_listing rfl, ← hshort]
    rfl
  have htargets : targets (killSteps 900 65536 [0]) = [0, 65536] := by decide
  refine ⟨killSteps 900 65536 [0], by rw [kill_sensor, hget]; rfl, htargets, ?_⟩
  intro h
  have hzero := h.2 0 (by rw [htargets]; simp)
  exact absurd hzero (by decide)

end SyscallSensor.Daemon
