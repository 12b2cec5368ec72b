import Mathlib.Tactic.Linarith
import SyscallSensor.SysRecord
import SyscallSensor.Lib.RightEnd

/-! `write_to`, and `get_pids`: the thread ids of a process, read from the output of `ls -l`
on its task directory. `str_to_short` accumulates in a `short`, which keeps the low 16
bits. -/
namespace SyscallSensor.Utils
open Text Trace

/- A line appended to a file. -/
structure Append where
  filename : List Byte
  text : List Byte
deriving DecidableEq, Repr

/- `write_to`; every call leaves `append` at its default. -/
def write_to (filename content : List Byte) : Append := ⟨filename, content ++ [newline]⟩

/-- Storing an `int` in a `short`. -/
def toShort (v : Int) : Int := v.bmod (2 ^ 16)

/-- The loop of `str_to_short` from `pos`, with `left` bytes before the end of the range. -/
def shortLoop (block : List Byte) : Nat → Nat → Int → Except Fault Int
  | _, 0, _pid => .ok _pid
  | pos, left + 1, _pid => do
    let c ← readAt block pos
    shortLoop block (pos + 1) left (toShort (_pid * 10 + (charValue c - 48)))

/- `begin != end` never fails on a reversed range, so the loop runs out of the block. -/
def str_to_short (block : List Byte) (first last : Nat) : Except Fault Int :=
  if last < first then .error (.outside block.length) else shortLoop block first (last - first) 0

/- The `FILE*` of `popen`: what it has not delivered yet, and its end flag. -/
structure Pipe where
  pending : List Byte
  feof : Bool := false
deriving DecidableEq, Repr

/-- At most `left` bytes up to and with a newline: the bytes, the rest, and whether the end
of the stream was met. -/
def takeLine : Nat → List Byte → List Byte × List Byte × Bool
  | 0, rest => ([], rest, false)
  | _ + 1, [] => ([], [], true)
  | left + 1, c :: rest =>
    if c = newline then ([c], rest, false)
    else (c :: (takeLine left rest).1, (takeLine left rest).2)

/- `fgets(buffer, size, pipe)`; no bytes at all is the null result. -/
def fgets (size : Nat) (pipe : Pipe) : Option (List Byte) × Pipe :=
  let line := takeLine (size - 1) pipe.pending
  (if line.1 = [] then none else some line.1, ⟨line.2.1, pipe.feof || line.2.2⟩)

/-- `std::string result = buffer`: up to the first NUL. -/
def cString (buffer : List Byte) : List Byte := buffer.takeWhile (· ≠ 0)

/- `find_last_of(" ") + 1`; without a blank `npos + 1` wraps to zero. -/
def afterLastBlank (result : List Byte) : Nat :=
  result.length - (result.rtakeWhile (· ≠ blank)).length

theorem takeLine_length (left : Nat) (pending : List Byte) :
    (takeLine left pending).1.length + (takeLine left pending).2.1.length = pending.length := by
  induction left generalizing pending with
  | zero => simp [takeLine]
  | succ left ih =>
    cases pending with
    | nil => simp [takeLine]
    | cons c rest =>
      have hrest := ih rest
      by_cases hc : c = newline
      · simp [takeLine, hc, Nat.add_comm]
      · simp only [takeLine, hc, if_false, List.length_cons, ← hrest]
        omega

theorem takeLine_empty (left : Nat) (pending : List Byte) (hleft : 0 < left)
    (h : (takeLine left pending).1 = []) : (takeLine left pending).2.2 = true := by
  cases left with
  | zero => omega
  | succ left =>
    cases pending with
    | nil => rfl
    | cons c rest =>
      by_cases hc : c = newline
      · simp [takeLine, hc] at h
      · simp [takeLine, hc] at h

/- What is left to read, the end flag included. -/
def Pipe.work (pipe : Pipe) : Nat := pipe.pending.length + if pipe.feof then 0 else 1

theorem fgets_work (pipe : Pipe) (h : pipe.feof = false) :
    (fgets 128 pipe).2.work < pipe.work := by
  have hlen := takeLine_length 127 pipe.pending
  have hempty := takeLine_empty 127 pipe.pending (by decide)
  simp only [Pipe.work, fgets, h, Bool.false_or, Nat.add_one_sub_one, Bool.false_eq_true, if_false]
  by_cases htext : (takeLine 127 pipe.pending).1 = []
  · simp only [htext, List.length_nil] at hlen
    rw [hempty htext, if_pos rfl]
    omega
  · have hpos := List.length_pos_iff.mpr htext
    split <;> omega

/-- `while(!feof(pipe))`. -/
def get_pidsLoop (pipe : Pipe) (pids : List Int) : Except Fault (List Int) :=
  if _ : pipe.feof = false then
    match (fgets 128 pipe).1 with
    | none => get_pidsLoop (fgets 128 pipe).2 pids
    | some buffer => do
      let result := cString buffer
      if result.length > 10 then
        let pid ← str_to_short result (afterLastBlank result) (result.length - 1)
        get_pidsLoop (fgets 128 pipe).2 (pids ++ [pid])
      else get_pidsLoop (fgets 128 pipe).2 pids
  else .ok pids
termination_by pipe.work
decreasing_by all_goals exact fgets_work pipe (by assumption)

/- The command line given to `popen`. -/
def lsCommand (ppid : Int) : List Byte :=
  ascii "ls -l /proc/" ++ Lib.Decimal.intText ppid ++ ascii "/task"

/-- `get_pids`, where `popen` answers a command with its output, or with a null `FILE*`. -/
def get_pids (popen : List Byte → Option (List Byte)) (ppid : Int) : Except Fault (List Int) :=
  match popen (lsCommand ppid) with
  | none => .ok []
  | some output => get_pidsLoop ⟨output, false⟩ []

/-- One line of the listing: mode, owner, size and date, a blank, and the thread id. -/
structure TaskLine where
  columns : List Byte
  id : Nat
  plain : newline ∉ columns ∧ 0 ∉ columns
  assigned : 1 ≤ id ∧ id ≤ 4194304
  long : 10 < columns.length + (Lib.Decimal.text id).length + 2
  fits : columns.length + (Lib.Decimal.text id).length + 2 ≤ 127

def TaskLine.text (task : TaskLine) : List Byte :=
  task.columns ++ [blank] ++ Lib.Decimal.text task.id ++ [newline]

/-- The output of `ls -l` on a task directory. -/
def listing (tasks : List TaskLine) : List Byte :=
  ascii "total 0" ++ [newline] ++ tasks.flatMap TaskLine.text

/- Lines as `ls` prints them. -/
def task812 : TaskLine where
  columns := ascii "dr-xr-xr-x 7 root root 0 Jan  8 10:12"
  id := 812
  plain := by decide
  assigned := by decide
  long := by decide
  fits := by decide

def task813 : TaskLine where
  columns := ascii "dr-xr-xr-x 7 root root 0 Jan 18 10:12"
  id := 813
  plain := by decide
  assigned := by decide
  long := by decide
  fits := by decide

def twoTasks : List TaskLine := [task812, task813]

def task65536 : TaskLine where
  columns := ascii "dr-xr-xr-x 7 root root 0 Jan  8 10:12"
  id := 65536
  plain := by decide
  assigned := by decide
  long := by decide
  fits := by decide

theorem toShort_range (v : Int) : -32768 ≤ toShort v ∧ toShort v ≤ 32767 := by
  have hlo := Int.le_bmod (x := v) (m := 2 ^ 16) (by decide)
  have hhi := Int.bmod_lt (x := v) (m := 2 ^ 16) (by decide)
  unfold toShort
  omega

/-- A thread id survives the `short` exactly when it is at most 32767. -/
theorem toShort_eq_self_iff (id : Nat) : toShort id = id ↔ id ≤ 32767 := by
  have hrange := toShort_range id
  constructor
  · intro h
    omega
  · intro h
    exact Int.bmod_eq_of_le (by omega) (by omega)

theorem toShort_step (v d : Int) : toShort (toShort v * 10 + d) = toShort (v * 10 + d) := by
  unfold toShort
  rw [← Int.bmod_add_bmod, Int.bmod_mul_bmod, Int.bmod_add_bmod]

/-- Wrapping at every digit is wrapping once at the end. -/
theorem shortLoop_eq (block : List Byte) (pos left : Nat) (v : Int)
    (h : pos + left ≤ block.length) :
    shortLoop block pos left (toShort v) = .ok (toShort
      (((block.drop pos).take left).foldl (fun v c => v * 10 + (charValue c - 48)) v)) := by
  induction left generalizing pos v with
  | zero => simp [shortLoop]
  | succ left ih =>
    have hpos : pos < block.length := by omega
    have hcut : (block.drop pos).take (left + 1) =
        block[pos] :: (block.drop (pos + 1)).take left := by
      rw [List.drop_eq_getElem_cons hpos, List.take_succ_cons]
    simp only [shortLoop, readAt_lt hpos, hcut, bind, Except.bind, List.foldl_cons]
    rw [toShort_step, ih _ _ (by omega)]

/-- `str_to_short` on the decimal text of an id between any two parts of a block. -/
theorem str_to_short_text (front back : List Byte) (id : Nat) :
    str_to_short (front ++ Lib.Decimal.text id ++ back) front.length
      (front.length + (Lib.Decimal.text id).length) = .ok (toShort id) := by
  have hslice : ((front ++ Lib.Decimal.text id ++ back).drop front.length).take
      (Lib.Decimal.text id).length = Lib.Decimal.text id := by
    simp
  have hdigits := foldl_digits (fun b hb => Lib.Decimal.text_isDigit (n := id) hb) 0
  have hvalue : (Lib.Decimal.text id).foldl (fun v b => v * 10 + (b.toNat - 48)) 0 = id :=
    Lib.Decimal.value_text id
  have hloop := shortLoop_eq (front ++ Lib.Decimal.text id ++ back) front.length
    (Lib.Decimal.text id).length 0 (by simp)
  rw [hslice] at hloop
  rw [str_to_short, if_neg (by omega), Nat.add_sub_cancel_left]
  rw [hvalue] at hdigits
  rw [Nat.cast_zero] at hdigits
  rw [hdigits] at hloop
  exact hloop

theorem takeLine_line (left : Nat) {body : List Byte} (rest : List Byte)
    (hplain : newline ∉ body) (hfits : body.length < left) :
    takeLine left (body ++ newline :: rest) = (body ++ [newline], rest, false) := by
  induction body generalizing left with
  | nil =>
    cases left with
    | zero => simp at hfits
    | succ left => simp [takeLine]
  | cons c body ih =>
    cases left with
    | zero => simp at hfits
    | succ left =>
      have hc : c ≠ newline := fun he => hplain (by simp [he])
      have hbody := ih left (fun hm => hplain (List.mem_cons_of_mem c hm)) (by simpa using hfits)
      simp [takeLine, hc, hbody]

/- One turn of the loop on a line that fits the buffer. -/
theorem get_pidsLoop_line {body : List Byte} (rest : List Byte) (pids : List Int)
    (hplain : newline ∉ body) (hfits : body.length < 127) :
    get_pidsLoop ⟨body ++ newline :: rest, false⟩ pids =
      (if (cString (body ++ [newline])).length > 10 then do
        let pid ← str_to_short (cString (body ++ [newline]))
          (afterLastBlank (cString (body ++ [newline])))
          ((cString (body ++ [newline])).length - 1)
        get_pidsLoop ⟨rest, false⟩ (pids ++ [pid])
      else get_pidsLoop ⟨rest, false⟩ pids) := by
  have hfgets : fgets 128 ⟨body ++ newline :: rest, false⟩ =
      (some (body ++ [newline]), ⟨rest, false⟩) := by
    rw [fgets, takeLine_line 127 rest hplain hfits]
    simp
  rw [get_pidsLoop, dif_pos rfl, hfgets]

theorem get_pidsLoop_end (pids : List Int) : get_pidsLoop ⟨[], false⟩ pids = .ok pids := by
  have hfgets : fgets 128 ⟨[], false⟩ = (none, ⟨[], true⟩) := rfl
  have hstop : get_pidsLoop ⟨[], true⟩ pids = .ok pids := by
    rw [get_pidsLoop, dif_neg (by decide)]
  rw [get_pidsLoop, dif_pos rfl, hfgets, hstop]

/- The part of a task line before its newline. -/
def TaskLine.body (task : TaskLine) : List Byte :=
  task.columns ++ [blank] ++ Lib.Decimal.text task.id

theorem TaskLine.text_eq (task : TaskLine) : task.text = task.body ++ [newline] := rfl

theorem TaskLine.body_plain (task : TaskLine) : newline ∉ task.body ∧ 0 ∉ task.body := by
  have hnewline : newline ∉ Lib.Decimal.text task.id := Lib.Decimal.not_mem_text (by decide) _
  have hnul : 0 ∉ Lib.Decimal.text task.id := Lib.Decimal.not_mem_text (by decide) _
  have hblank : newline ≠ blank ∧ 0 ≠ blank := by decide
  simp [TaskLine.body, task.plain, hnewline, hnul, hblank]

theorem TaskLine.body_length (task : TaskLine) :
    task.body.length = task.columns.length + 1 + (Lib.Decimal.text task.id).length := by
  simp only [TaskLine.body, List.length_append, List.length_singleton]

theorem TaskLine.cString_text (task : TaskLine) : cString task.text = task.text := by
  have hnul : 0 ∉ task.text := by
    rw [TaskLine.text_eq, List.mem_append, not_or]
    exact ⟨task.body_plain.2, by decide⟩
  rw [cString, List.takeWhile_eq_self_iff]
  intro c hc
  have hne : c ≠ 0 := fun he => hnul (he ▸ hc)
  simpa using hne

/-- The last blank of a task line is the one in front of the id. -/
theorem TaskLine.afterLastBlank_text (task : TaskLine) :
    afterLastBlank task.text = task.columns.length + 1 := by
  have htail : ∀ c ∈ Lib.Decimal.text task.id ++ [newline], decide (c ≠ blank) = true := by
    intro c hc
    rw [List.mem_append, List.mem_singleton] at hc
    cases hc with
    | inl hc =>
      rw [decide_eq_true_eq]
      intro he
      rw [he] at hc
      exact Lib.Decimal.not_mem_text (by decide) _ hc
    | inr hc =>
      rw [hc]
      decide
  have hcut := Lib.RightEnd.cutTail_append (task.columns ++ [blank]) _ htail (by simp)
  have htext : task.text =
      task.columns ++ [blank] ++ (Lib.Decimal.text task.id ++ [newline]) := by
    simp [TaskLine.text]
  have htake : task.text.rtakeWhile (· ≠ blank) = Lib.Decimal.text task.id ++ [newline] := by
    rw [htext]
    exact congrArg Prod.snd hcut
  rw [afterLastBlank, htake, htext, List.length_append, Nat.add_sub_cancel,
    List.length_append, List.length_singleton]

theorem TaskLine.str_to_short_text (task : TaskLine) :
    str_to_short task.text (afterLastBlank task.text) (task.text.length - 1) =
      .ok (toShort task.id) := by
  have hlast : task.text.length - 1 =
      (task.columns ++ [blank]).length + (Lib.Decimal.text task.id).length := by
    simp only [TaskLine.text, List.length_append, List.length_singleton, Nat.add_sub_cancel]
  have hfirst : task.columns.length + 1 = (task.columns ++ [blank]).length := by simp
  rw [task.afterLastBlank_text, hlast, hfirst]
  exact Utils.str_to_short_text _ _ _

theorem get_pidsLoop_tasks (tasks : List TaskLine) (pids : List Int) :
    get_pidsLoop ⟨tasks.flatMap TaskLine.text, false⟩ pids =
      .ok (pids ++ tasks.map fun task => toShort task.id) := by
  induction tasks generalizing pids with
  | nil =>
    rw [List.flatMap_nil, get_pidsLoop_end, List.map_nil, List.append_nil]
  | cons task tasks ih =>
    have hplain : newline ∉ task.body := task.body_plain.1
    have hfits : task.body.length < 127 := by
      have := task.body_length
      have := task.fits
      omega
    have hlong : task.text.length > 10 := by
      have hlen := task.body_length
      have hid := task.long
      rw [TaskLine.text_eq, List.length_append, List.length_singleton]
      omega
    have hline := get_pidsLoop_line (tasks.flatMap TaskLine.text) pids hplain hfits
    rw [← task.text_eq, task.cString_text, if_pos hlong, task.str_to_short_text] at hline
    have hsplit : (task :: tasks).flatMap TaskLine.text =
        task.body ++ newline :: tasks.flatMap TaskLine.text := by
      simp [TaskLine.text_eq]
    rw [hsplit, hline]
    simp only [bind, Except.bind]
    rw [ih, List.map_cons, List.append_assoc, List.singleton_append]

/-- `get_pids` on a task listing: every id, in order, cut to 16 bits. -/
theorem get_pids_listing {popen : List Byte → Option (List Byte)} {ppid : Int}
    {tasks : List TaskLine} (hls : popen (lsCommand ppid) = some (listing tasks)) :
    get_pids popen ppid = .ok (tasks.map fun task => toShort task.id) := by
  have hplain : newline ∉ ascii "total 0" := by decide
  have hline := get_pidsLoop_line (tasks.flatMap TaskLine.text) [] hplain (by decide)
  have hshort : ¬ (cString (ascii "total 0" ++ [newline])).length > 10 := by decide
  rw [if_neg hshort, get_pidsLoop_tasks, List.nil_append] at hline
  have htext : listing tasks = ascii "total 0" ++ newline :: tasks.flatMap TaskLine.text := by
    simp [listing]
  simp only [get_pids, hls, htext, hline]

end SyscallSensor.Utils
