import SyscallSensor.Utils

/-! `BaseSensor`: the control files of ftrace, and the filter that keeps the sensor's own
threads out of the trace. -/
namespace SyscallSensor.Base
open Text Utils
open Lib.Decimal (intText readInt)

def FTRACE_PATH : List Byte := ascii "/sys/kernel/debug/tracing"
def SYSCALLS_PATH : List Byte := ascii "/sys/kernel/debug/tracing/events/raw_syscalls"
def SYS_ENTRY : List Byte := ascii "sys_enter"
def SYS_EXIT : List Byte := ascii "sys_exit"

def config_events (entry exit_ : Bool) : List Append :=
  [write_to (SYSCALLS_PATH ++ ascii "/" ++ SYS_ENTRY ++ ascii "/" ++ ascii "enable")
      (if entry then ascii "1" else ascii "0"),
    write_to (SYSCALLS_PATH ++ ascii "/" ++ SYS_EXIT ++ ascii "/" ++ ascii "enable")
      (if exit_ then ascii "1" else ascii "0")]

/- The loop of `add_filter`; `i < pids.size() - 1` fails at the last id only. -/
def filterLoop : List Int → List Byte → List Byte
  | [], filter => filter
  | [pid], filter => filter ++ (ascii "common_pid != " ++ intText pid)
  | pid :: pid' :: pids, filter =>
    filterLoop (pid' :: pids) (filter ++ (ascii "common_pid != " ++ intText pid) ++ ascii " && ")

/-- `add_filter`: what it appends, and to which file. -/
def add_filter (pids : List Int) : Append :=
  write_to (SYSCALLS_PATH ++ ascii "/" ++ SYS_ENTRY ++ ascii "/" ++ ascii "filter")
    (filterLoop pids [])

def set_trace (trace : Bool) : Append :=
  write_to (FTRACE_PATH ++ ascii "/tracing_on") (if trace then ascii "1" else ascii "0")

def clear_filters : List Append :=
  [write_to (SYSCALLS_PATH ++ ascii "/filter") (ascii "0"),
    write_to (SYSCALLS_PATH ++ ascii "/" ++ SYS_ENTRY ++ ascii "/" ++ ascii "filter") (ascii "0"),
    write_to (SYSCALLS_PATH ++ ascii "/" ++ SYS_EXIT ++ ascii "/filter") (ascii "0")]

/- The kernel's side: a conjunction of terms `common_pid != k`, word by word. -/
def parseTerms : List (List Byte) → Option (List Int)
  | [field, op, k] =>
    if field = ascii "common_pid" ∧ op = ascii "!=" then (readInt k).map fun k => [k] else none
  | field :: op :: k :: and_ :: words =>
    if field = ascii "common_pid" ∧ op = ascii "!=" ∧ and_ = ascii "&&" then do
      let k ← readInt k
      let ks ← parseTerms words
      some (k :: ks)
    else none
  | _ => none

/-- The terms of a well-formed filter line. -/
def parseFilter (text : List Byte) : Option (List Int) :=
  (text.dropSuffix? [newline]).bind fun line => parseTerms (line.splitOn blank)

/- An event is kept when every term holds of its pid. -/
def Keeps (terms : List Int) (pid : Int) : Prop := ∀ k ∈ terms, pid ≠ k

instance (terms : List Int) (pid : Int) : Decidable (Keeps terms pid) :=
  inferInstanceAs (Decidable (∀ k ∈ terms, pid ≠ k))

def filterWords : List Int → List (List Byte)
  | [] => []
  | [pid] => [ascii "common_pid", ascii "!=", intText pid]
  | pid :: pid' :: pids =>
    ascii "common_pid" :: ascii "!=" :: intText pid :: ascii "&&" :: filterWords (pid' :: pids)

theorem filterLoop_append (pids : List Int) (filter : List Byte) :
    filterLoop pids filter = filter ++ [blank].intercalate (filterWords pids) := by
  induction pids generalizing filter with
  | nil => simp [filterLoop, filterWords]
  | cons pid pids ih =>
    have hterm : ascii "common_pid != " = ascii "common_pid" ++ [blank] ++ ascii "!=" ++ [blank] := by
      decide
    have hand : ascii " && " = [blank] ++ ascii "&&" ++ [blank] := by decide
    cases pids with
    | nil => simp [filterLoop, filterWords, hterm, List.intercalate_cons_cons]
    | cons pid' pids =>
      have hne : filterWords (pid' :: pids) ≠ [] := by
        cases pids <;> simp [filterWords]
      rw [filterLoop, ih, filterWords, hterm, hand]
      simp [List.intercalate_cons_cons, List.intercalate_cons_of_ne_nil hne]

theorem filterWords_noBlank (pids : List Int) : ∀ word ∈ filterWords pids, blank ∉ word := by
  induction pids with
  | nil => simp [filterWords]
  | cons pid pids ih =>
    have hfield : blank ∉ ascii "common_pid" := by decide
    have hop : blank ∉ ascii "!=" := by decide
    have hand : blank ∉ ascii "&&" := by decide
    have hid : blank ∉ intText pid := Lib.Decimal.not_mem_intText (by decide) pid
    cases pids with
    | nil => simp [filterWords, hfield, hop, hid]
    | cons pid' pids => simpa [filterWords, hfield, hop, hid, hand] using ih

theorem parseTerms_filterWords {pids : List Int} (h : pids ≠ []) :
    parseTerms (filterWords pids) = some pids := by
  induction pids with
  | nil => exact absurd rfl h
  | cons pid pids ih =>
    cases pids with
    | nil => simp [filterWords, parseTerms, Lib.Decimal.readInt_intText]
    | cons pid' pids =>
      have hrest := ih (List.cons_ne_nil _ _)
      rw [filterWords, parseTerms.eq_2, if_pos ⟨rfl, rfl, rfl⟩, Lib.Decimal.readInt_intText, hrest]
      rfl

/-- The filter is well formed, and its terms are the ids it was made from. -/
theorem parseFilter_add_filter {pids : List Int} (h : pids ≠ []) :
    parseFilter (add_filter pids).text = some pids := by
  have hne : filterWords pids ≠ [] := by
    cases pids with
    | nil => exact absurd rfl h
    | cons pid pids => cases pids <;> simp [filterWords]
  rw [parseFilter, add_filter, write_to, Lib.RightEnd.dropSuffix?_append, Option.bind_some,
    filterLoop_append, List.nil_append,
    List.splitOn_intercalate blank (filterWords_noBlank pids) hne, parseTerms_filterWords h]

/-- The filter rejects exactly the ids of the listing when no id is too wide for a
`short`. -/
theorem filter_rejects_own_iff {popen : List Byte → Option (List Byte)} {cur_pid : Int}
    {tasks : List TaskLine} (hne : tasks ≠ [])
    (hls : popen (lsCommand cur_pid) = some (listing tasks)) :
    (∃ pids terms, get_pids popen cur_pid = .ok pids ∧
      parseFilter (add_filter pids).text = some terms ∧
      ∀ pid : Int, ¬ Keeps terms pid ↔ ∃ task ∈ tasks, pid = task.id) ↔
    ∀ task ∈ tasks, task.id ≤ 32767 := by
  have hpids := get_pids_listing hls
  have hparse : parseFilter (add_filter (tasks.map fun task => toShort task.id)).text =
      some (tasks.map fun task => toShort task.id) :=
    parseFilter_add_filter (by simpa using hne)
  have hrejects : ∀ pid : Int, ¬ Keeps (tasks.map fun task => toShort task.id) pid ↔
      ∃ task ∈ tasks, pid = toShort task.id := by
    intro pid
    simp [Keeps]
  constructor
  · intro h task htask
    obtain ⟨pids, terms, hget, hterms, hall⟩ := h
    rw [hpids, Except.ok.injEq] at hget
    rw [← hget, hparse, Option.some.injEq] at hterms
    rw [← hterms] at hall
    -- the id itself is rejected, so it is the short of some id, and a short is at most 32767
    obtain ⟨task', -, hid⟩ := (hrejects _).mp ((hall task.id).mpr ⟨task, htask, rfl⟩)
    have hrange := toShort_range task'.id
    omega
  · intro h
    refine ⟨_, _, hpids, hparse, ?_⟩
    intro pid
    rw [hrejects]
    constructor
    · intro hex
      obtain ⟨task, htask, hid⟩ := hex
      exact ⟨task, htask, by rw [hid, (toShort_eq_self_iff _).mpr (h task htask)]⟩
    · intro hex
      obtain ⟨task, htask, hid⟩ := hex
      exact ⟨task, htask, by rw [hid, (toShort_eq_self_iff _).mpr (h task htask)]⟩

theorem filter_rejects_own_812 :
    (add_filter [812, 813]).text =
        ascii "common_pid != 812 && common_pid != 813" ++ [newline] ∧
      ∃ pids terms, get_pids (fun _ => some (listing twoTasks)) 812 = .ok pids ∧
        parseFilter (add_filter pids).text = some terms ∧
        ∀ pid : Int, ¬ Keeps terms pid ↔ ∃ task ∈ twoTasks, pid = task.id := by
  refine ⟨by decide +kernel, ?_⟩
  exact (filter_rejects_own_iff (by decide) rfl).mpr (by decide)

/-- With the thread id 65536 the filter reads `common_pid != 0`. -/
theorem wide_id_not_filtered :
    get_pids (fun _ => some (listing [task65536])) 65536 = .ok [0] ∧
    parseFilter (add_filter [0]).text = some [0] ∧
    ¬ ∃ pids terms, get_pids (fun _ => some (listing [task65536])) 65536 = .ok pids ∧
      parseFilter (add_filter pids).text = some terms ∧
      ∀ pid : Int, ¬ Keeps terms pid ↔ ∃ task ∈ [task65536], pid = task.id := by
  have hshort : toShort 65536 = 0 := by decide
  have hget : get_pids (fun _ => some (listing [task65536])) 65536 = .ok [0] := by
    rw [get_pids_listing rfl, ← hshort]
    rfl
  have hparse : parseFilter (add_filter [0]).text = some [0] := parseFilter_add_filter (by decide)
  refine ⟨hget, hparse, ?_⟩
  intro h
  obtain ⟨pids, terms, hpids, hterms, hall⟩ := h
  rw [hget, Except.ok.injEq] at hpids
  rw [← hpids, hparse, Option.some.injEq] at hterms
  rw [← hterms] at hall
  have hkept : Keeps [0] 65536 := by decide
  exact (hall 65536).mpr ⟨task65536, by simp, rfl⟩ hkept

end SyscallSensor.Base
