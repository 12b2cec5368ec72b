import SyscallSensor.SysRecord
import SyscallSensor.Lib.Grouping
import SyscallSensor.Lib.Outcome
import SyscallSensor.Lib.Transition

/-! `memory_stream` and `file_aggr_stream`: system calls collected per process, in memory or in
windows that are written out when enough processes have been seen. -/
namespace SyscallSensor.AggrStream
open Text Trace
open Lib.Decimal (text intText)
open Lib.Grouping
open Lib.Transition (System)

abbrev Traces := Table Int (List Int)

structure MemoryStream where
  traces : Traces := ∅

def MemoryStream.dispatch (s : MemoryStream) (records : List SysParamsRecord) : MemoryStream :=
  records.foldl (fun s iter => { s with traces := push s.traces iter._pid iter._syscall }) s

/- What `print_all` writes for one process, and for one call. -/
structure Line where
  name : List Byte
  pid : Int
  syscalls : List Int

structure Block where
  processes : Nat
  timestamp : Int
  lines : List Line

def Line.text (line : Line) : List Byte :=
  line.name ++ ascii " == " ++ intText line.pid ++ ascii " ==> " ++
    line.syscalls.flatMap (fun call => intText call ++ ascii ",") ++ ascii "\n"

def Block.text (block : Block) : List Byte :=
  ascii "processes = " ++ Lib.Decimal.text block.processes ++ ascii " timestamp = " ++
    intText block.timestamp ++ ascii "\n" ++ block.lines.flatMap Line.text

/- An `ogzstream` and what has been written to it. -/
structure OutFile where
  name : List Byte
  blocks : List Block := []
  opened : Bool := true

def OutFile.content (file : OutFile) : List Byte := file.blocks.flatMap Block.text

structure FileAggrStream where
  /- Files closed before `_file`. -/
  finished : List OutFile := []
  _file : OutFile
  _file_name : List Byte
  traces : Traces := ∅
  pnames : Table Int (List Byte) := ∅
  _size : Int
  _file_index : Nat

def outName (_file_name : List Byte) (_file_index : Nat) : List Byte :=
  _file_name ++ ascii "_" ++ text _file_index ++ ascii ".gz"

def FileAggrStream.make (name : List Byte) (size : Int) : FileAggrStream where
  _file := { name := outName name 10 }
  _file_name := name
  _size := size
  _file_index := 11

/- The body of the loop in `dispatch`. -/
def FileAggrStream.add (s : FileAggrStream) (iter : SysParamsRecord) : FileAggrStream :=
  { s with
    traces := push s.traces iter._pid iter._syscall
    pnames := emplace s.pnames iter._pid iter._name }

def FileAggrStream.addAll (s : FileAggrStream) (records : List SysParamsRecord) : FileAggrStream :=
  records.foldl FileAggrStream.add s

/- One turn of the loop in `print_all`; `none` is a read through `pnames.end()`. -/
def FileAggrStream.line (s : FileAggrStream) (iter : Σ _ : Int, List Int) : Option Line :=
  (s.pnames.lookup iter.1).map fun name => ⟨name, iter.1, iter.2⟩

def FileAggrStream.reopen (s : FileAggrStream) : FileAggrStream :=
  if s._file_index % 10 = 0 then
    { s with
      finished := s.finished ++ [{ s._file with opened := false }]
      _file := { name := outName s._file_name s._file_index }
      _file_index := s._file_index + 1 }
  else s

/-- `order` is `traces` as its iterators walk it. -/
def FileAggrStream.print_all (s : FileAggrStream) (order : AList fun _ : Int => List Int)
    (ms : Int) : Option FileAggrStream := do
  let lines ← order.entries.mapM s.line
  let block : Block := ⟨s.traces.keys.card, ms, lines⟩
  pure { s with
    _file := { s._file with blocks := s._file.blocks ++ [block] }
    traces := ∅
    pnames := ∅ }.reopen

/- `_size` is converted to `size_t` for the comparison. -/
def toSizeT (v : Int) : Nat := (v % 2 ^ 64).toNat

/- One call: the pack, and the clock and the order in the map should it flush. -/
structure Dispatch where
  records : List SysParamsRecord
  ms : Int
  order : AList fun _ : Int => List Int

def FileAggrStream.dispatch (s : FileAggrStream) (call : Dispatch) : Option FileAggrStream :=
  let s := s.addAll call.records
  if toSizeT s._size ≤ s.traces.keys.card then s.print_all call.order call.ms else some s

/- The order is one of the map that is walked. -/
def Dispatch.Legal (call : Dispatch) (s : FileAggrStream) : Prop :=
  call.order.toFinmap = (s.addAll call.records).traces

instance (call : Dispatch) (s : FileAggrStream) : Decidable (call.Legal s) :=
  inferInstanceAs (Decidable (call.order.toFinmap = (s.addAll call.records).traces))

/- A positive `int`. -/
structure SizeLimit where
  value : Int
  positive : 0 < value
  fits : value < 2 ^ 31

def stream (name : List Byte) (size : SizeLimit) : System FileAggrStream Dispatch where
  init s := s = FileAggrStream.make name size.value
  step call s t := call.Legal s ∧ s.dispatch call = some t

/- The blocks that all calls of `print_all` have written, in order. -/
def FileAggrStream.blocks (s : FileAggrStream) : List Block :=
  s.finished.flatMap OutFile.blocks ++ s._file.blocks

def Block.printed (pid : Int) (block : Block) : List Int :=
  (block.lines.filter fun line => line.pid = pid).flatMap Line.syscalls

def FileAggrStream.printed (s : FileAggrStream) (pid : Int) : List Int :=
  s.blocks.flatMap (Block.printed pid)

/-- What the stream is for: the records cut into windows, a window being closed at the end of
the pack that brings it to `limit` processes. -/
structure Windows where
  closed : List (List SysParamsRecord) := []
  current : List SysParamsRecord := []

def processes (records : List SysParamsRecord) : Finset Int :=
  (records.map fun r => r._pid).toFinset

def syscallsOf (pid : Int) (records : List SysParamsRecord) : List Int :=
  valuesAt (fun r => r._pid) (fun r => r._syscall) pid records

/- The name of the first record of a process. -/
def nameOf (pid : Int) (records : List SysParamsRecord) : Option (List Byte) :=
  firstAt (fun r => r._pid) (fun r => r._name) pid records

def Windows.dispatch (limit : Nat) (w : Windows) (records : List SysParamsRecord) : Windows :=
  if limit ≤ (processes (w.current ++ records)).card then
    { closed := w.closed ++ [w.current ++ records], current := [] }
  else { w with current := w.current ++ records }

def windows (limit : Nat) (packs : List (List SysParamsRecord)) : Windows :=
  packs.foldl (Windows.dispatch limit) {}

/-- A block shows a window: every process with its calls in order, under its first name. -/
structure Shows (block : Block) (window : List SysParamsRecord) : Prop where
  count : block.processes = (processes window).card
  printed : ∀ pid, block.printed pid = syscallsOf pid window
  names : ∀ line ∈ block.lines, nameOf line.pid window = some line.name

/-- The maps are those of the current window, and the blocks show the closed ones. -/
structure Shown (size : Int) (s : FileAggrStream) (w : Windows) : Prop where
  limit : s._size = size
  traces : s.traces = group (fun r => r._pid) (fun r => r._syscall) w.current
  pnames : s.pnames = firsts (fun r => r._pid) (fun r => r._name) w.current
  blocks : List.Forall₂ Shows s.blocks w.closed

structure Refines (size : SizeLimit) (s : FileAggrStream) (w : Windows) : Prop
    extends Shown size.value s w where
  room : (processes w.current).card < size.value.toNat

theorem memory_traces (packs : List (List SysParamsRecord)) (s : MemoryStream) :
    (packs.foldl MemoryStream.dispatch s).traces =
      packs.flatten.foldl (fun m r => push m r._pid r._syscall) s.traces := by
  have hpack : ∀ (records : List SysParamsRecord) (s : MemoryStream),
      (s.dispatch records).traces =
        records.foldl (fun m r => push m r._pid r._syscall) s.traces := by
    intro records
    induction records with
    | nil => exact fun s => rfl
    | cons r records ih => exact fun s => ih _
  induction packs generalizing s with
  | nil => rfl
  | cons pack packs ih =>
    rw [List.foldl_cons, ih, hpack, List.flatten_cons, List.foldl_append]

/-- In memory each process has its calls in order, however the records are cut into packs. -/
theorem memory_syscalls (packs : List (List SysParamsRecord)) (pid : Int) :
    ((packs.foldl MemoryStream.dispatch {}).traces.lookup pid).getD [] =
      syscallsOf pid packs.flatten := by
  rw [memory_traces]
  exact lookup_group _ _ packs.flatten pid

theorem addAll_fields (s : FileAggrStream) (records : List SysParamsRecord) :
    s.addAll records =
      { s with
        traces := records.foldl (fun m r => push m r._pid r._syscall) s.traces
        pnames := records.foldl (fun m r => emplace m r._pid r._name) s.pnames } := by
  induction records generalizing s with
  | nil => rfl
  | cons r records ih =>
    rw [FileAggrStream.addAll, List.foldl_cons]
    exact ih (s.add r)

section
variable {s : FileAggrStream} {current : List SysParamsRecord}

theorem traces_addAll (h : s.traces = group (fun r => r._pid) (fun r => r._syscall) current)
    (records : List SysParamsRecord) :
    (s.addAll records).traces =
      group (fun r => r._pid) (fun r => r._syscall) (current ++ records) := by
  rw [addAll_fields, group, List.foldl_append, h]
  rfl

theorem pnames_addAll (h : s.pnames = firsts (fun r => r._pid) (fun r => r._name) current)
    (records : List SysParamsRecord) :
    (s.addAll records).pnames =
      firsts (fun r => r._pid) (fun r => r._name) (current ++ records) := by
  rw [addAll_fields, firsts, List.foldl_append, h]
  rfl

end

/-- Both maps have the processes of the current window as their keys. -/
theorem keys_addAll {size : Int} {s : FileAggrStream} {w : Windows} (h : Shown size s w)
    (records : List SysParamsRecord) :
    (s.addAll records).traces.keys = processes (w.current ++ records) ∧
      (s.addAll records).pnames.keys = processes (w.current ++ records) := by
  rw [traces_addAll h.traces, pnames_addAll h.pnames]
  exact ⟨keys_group _ _ _, keys_firsts _ _ _⟩

theorem blocks_reopen (s : FileAggrStream) : s.reopen.blocks = s.blocks := by
  rw [FileAggrStream.reopen]
  by_cases hindex : s._file_index % 10 = 0
  · rw [if_pos hindex]
    simp [FileAggrStream.blocks]
  · rw [if_neg hindex]

theorem maps_reopen (s : FileAggrStream) :
    s.reopen.traces = s.traces ∧ s.reopen.pnames = s.pnames ∧ s.reopen._size = s._size := by
  rw [FileAggrStream.reopen]
  by_cases hindex : s._file_index % 10 = 0
  · rw [if_pos hindex]
    exact ⟨rfl, rfl, rfl⟩
  · rw [if_neg hindex]
    exact ⟨rfl, rfl, rfl⟩

/-- `print_all` finds a name for every process and writes one block, which shows the window;
both maps are empty afterwards. -/
theorem print_all_shows {s : FileAggrStream} {window : List SysParamsRecord}
    {order : AList fun _ : Int => List Int} (ms : Int)
    (htraces : s.traces = group (fun r => r._pid) (fun r => r._syscall) window)
    (hpnames : s.pnames = firsts (fun r => r._pid) (fun r => r._name) window)
    (horder : order.toFinmap = s.traces) :
    ∃ t block, s.print_all order ms = some t ∧ t.blocks = s.blocks ++ [block] ∧
      Shows block window ∧ t.traces = ∅ ∧ t.pnames = ∅ ∧ t._size = s._size := by
  have hname : ∀ it ∈ order.entries, ∃ name, nameOf it.1 window = some name := by
    intro it hit
    have hkey : it.1 ∈ s.pnames.keys := by
      rw [hpnames, keys_firsts, ← keys_group _ (fun r => r._syscall), ← htraces, ← horder,
        Finmap.mem_keys, Finmap.mem_toFinmap, AList.mem_keys]
      exact List.mem_map.mpr ⟨it, hit, rfl⟩
    rw [hpnames, Finmap.mem_keys, Finmap.mem_iff] at hkey
    obtain ⟨name, hlookup⟩ := hkey
    exact ⟨name, by rw [nameOf, ← lookup_firsts, hlookup]⟩
  let shown (it : Σ _ : Int, List Int) : Line := ⟨(nameOf it.1 window).getD [], it.1, it.2⟩
  have hlines : order.entries.mapM s.line = some (order.entries.map shown) := by
    refine Lib.Outcome.mapM_some fun it hit => ?_
    obtain ⟨name, hfound⟩ := hname it hit
    rw [FileAggrStream.line, hpnames, lookup_firsts]
    change (nameOf it.1 window).map _ = _
    simp [shown, hfound]
  let block : Block := ⟨s.traces.keys.card, ms, order.entries.map shown⟩
  let s' : FileAggrStream :=
    { s with
      _file := { s._file with blocks := s._file.blocks ++ [block] }
      traces := ∅
      pnames := ∅ }
  obtain ⟨htraces', hpnames', hsize'⟩ := maps_reopen s'
  refine ⟨s'.reopen, block, ?_, ?_, ⟨?_, ?_, ?_⟩, htraces', hpnames', hsize'⟩
  · rw [FileAggrStream.print_all, hlines]
    rfl
  · rw [blocks_reopen]
    simp [s', FileAggrStream.blocks]
  · change s.traces.keys.card = _
    rw [htraces, keys_group]
    rfl
  · intro pid
    have hvalues := entries_values horder pid
    rw [htraces, lookup_group] at hvalues
    change _ = valuesAt _ _ pid window
    rw [← hvalues, Block.printed, List.filter_map, List.flatMap_map]
    rfl
  · intro line hline
    obtain ⟨it, hit, rfl⟩ := List.mem_map.mp hline
    obtain ⟨name, hfound⟩ := hname it hit
    simp [shown, hfound]

theorem toSizeT_size (size : SizeLimit) : toSizeT size.value = size.value.toNat := by
  have hpositive := size.positive
  have hfits := size.fits
  rw [toSizeT, Int.emod_eq_of_lt (by omega) (by omega)]

/-- One call never reads through `pnames.end()`, and does to the maps and the files what the
windows say. -/
theorem dispatch_shown {size : Int} {s : FileAggrStream} {w : Windows} (h : Shown size s w)
    {call : Dispatch} (hlegal : call.Legal s) :
    ∃ t, s.dispatch call = some t ∧ Shown size t (w.dispatch (toSizeT size) call.records) := by
  have htraces := traces_addAll h.traces call.records
  have hpnames := pnames_addAll h.pnames call.records
  have hlimit : (s.addAll call.records)._size = size := by
    rw [addAll_fields]
    exact h.limit
  have hblocks : (s.addAll call.records).blocks = s.blocks := by
    rw [addAll_fields]
    rfl
  simp only [FileAggrStream.dispatch, Windows.dispatch, hlimit, (keys_addAll h call.records).1]
  by_cases hfull : toSizeT size ≤ (processes (w.current ++ call.records)).card
  · obtain ⟨t, block, hprint, hshown, hblock, htraces', hpnames', hlimit'⟩ :=
      print_all_shows call.ms htraces hpnames hlegal
    rw [if_pos hfull, if_pos hfull]
    refine ⟨t, hprint, ?_, ?_, ?_, ?_⟩
    · rw [hlimit', hlimit]
    · rw [htraces']
      rfl
    · rw [hpnames']
      rfl
    · rw [hshown, hblocks]
      exact List.rel_append h.blocks (.cons hblock .nil)
  · rw [if_neg hfull, if_neg hfull]
    refine ⟨_, rfl, hlimit, htraces, hpnames, ?_⟩
    rw [hblocks]
    exact h.blocks

/-- Between two calls a window has less than `limit` processes. -/
theorem dispatch_room {limit : Nat} (hlimit : 0 < limit) (w : Windows)
    (records : List SysParamsRecord) :
    (processes (w.dispatch limit records).current).card < limit := by
  rw [Windows.dispatch]
  by_cases hfull : limit ≤ (processes (w.current ++ records)).card
  · rw [if_pos hfull]
    exact hlimit
  · rw [if_neg hfull]
    exact Nat.lt_of_not_le hfull

theorem dispatch_refines {size : SizeLimit} {s : FileAggrStream} {w : Windows}
    (h : Refines size s w) {call : Dispatch} (hlegal : call.Legal s) :
    ∃ t, s.dispatch call = some t ∧ Refines size t (w.dispatch size.value.toNat call.records) := by
  obtain ⟨t, hdispatch, hshown⟩ := dispatch_shown h.toShown hlegal
  rw [toSizeT_size] at hshown
  exact ⟨t, hdispatch, hshown, dispatch_room (Int.lt_toNat.mpr size.positive) w call.records⟩

theorem windows_snoc (limit : Nat) (packs : List (List SysParamsRecord))
    (pack : List SysParamsRecord) :
    windows limit (packs ++ [pack]) = (windows limit packs).dispatch limit pack := by
  rw [windows, List.foldl_append]
  rfl

/-- Over a whole run the stream refines its windows. -/
theorem run_refines {name : List Byte} {size : SizeLimit} {calls : List Dispatch}
    {s : FileAggrStream} (hrun : (stream name size).Run calls s) :
    Refines size s (windows size.value.toNat (calls.map Dispatch.records)) := by
  refine hrun.invariant (I := fun calls s =>
    Refines size s (windows size.value.toNat (calls.map Dispatch.records))) ?_ ?_
  · intro s hinit
    obtain rfl := hinit
    exact ⟨⟨rfl, rfl, rfl, .nil⟩, Int.lt_toNat.mpr size.positive⟩
  · intro calls call s t ih hstep
    obtain ⟨hlegal, hdispatch⟩ := hstep
    obtain ⟨t', hdispatch', hrefines⟩ := dispatch_refines ih hlegal
    rw [hdispatch] at hdispatch'
    obtain rfl := Option.some.inj hdispatch'
    rw [List.map_append, List.map_singleton, windows_snoc]
    exact hrefines

/-- Whatever packs come, the stream can take them all. -/
theorem takes_all (name : List Byte) (size : SizeLimit) (packs : List (List SysParamsRecord)) :
    ∃ calls s, (stream name size).Run calls s ∧ calls.map Dispatch.records = packs := by
  induction packs using List.reverseRecOn with
  | nil => exact ⟨[], _, .start rfl, rfl⟩
  | append_singleton packs pack ih =>
    obtain ⟨calls, s, hrun, hpacks⟩ := ih
    obtain ⟨order, horder⟩ : ∃ order : AList fun _ : Int => List Int,
        order.toFinmap = (s.addAll pack).traces :=
      Finmap.induction_on (s.addAll pack).traces fun order => ⟨order, rfl⟩
    let call : Dispatch := ⟨pack, 0, order⟩
    have hlegal : call.Legal s := horder
    obtain ⟨t, hdispatch, -⟩ := dispatch_refines (run_refines hrun) hlegal
    refine ⟨calls ++ [call], t, hrun.next ⟨hlegal, hdispatch⟩, ?_⟩
    rw [List.map_append, hpacks]
    rfl

/-- There are fewer processes in the map than the limit. -/
theorem run_room {name : List Byte} {size : SizeLimit} {calls : List Dispatch}
    {s : FileAggrStream} (hrun : (stream name size).Run calls s) :
    s.traces.keys.card < size.value.toNat := by
  have h := run_refines hrun
  have hkeys : s.traces.keys = processes (_ ++ []) := (keys_addAll h.toShown []).1
  rw [hkeys, List.append_nil]
  exact h.room

/-- The windows are a cut of the records. -/
theorem windows_flatten (limit : Nat) (packs : List (List SysParamsRecord)) :
    (windows limit packs).closed.flatten ++ (windows limit packs).current = packs.flatten := by
  induction packs using List.reverseRecOn with
  | nil => rfl
  | append_singleton packs pack ih =>
    rw [windows_snoc, Windows.dispatch, List.flatten_append, ← ih]
    by_cases hfull : limit ≤ (processes ((windows limit packs).current ++ pack)).card
    · rw [if_pos hfull]
      simp
    · rw [if_neg hfull]
      simp

theorem printed_shows {blocks : List Block} {closed : List (List SysParamsRecord)}
    (h : List.Forall₂ Shows blocks closed) (pid : Int) :
    blocks.flatMap (Block.printed pid) = syscallsOf pid closed.flatten := by
  induction h with
  | nil => rfl
  | cons hblock _ ih =>
    rw [List.flatMap_cons, List.flatten_cons, syscallsOf, valuesAt_append, hblock.printed, ih]
    rfl

/-- What holds of a stream after `calls`. The keys agree after every record of a further pack,
and in particular when `print_all` starts. -/
structure Conserves (size : SizeLimit) (calls : List Dispatch) (s : FileAggrStream) : Prop where
  keys : ∀ records, (s.addAll records).traces.keys = (s.addAll records).pnames.keys
  room : (s.traces.keys.card : Int) < s._size
  no_fault : ∀ call : Dispatch, call.Legal s → ∃ t, s.dispatch call = some t
  syscalls : ∀ packs : List (List SysParamsRecord),
    packs.flatten = (calls.map Dispatch.records).flatten → ∀ pid,
      s.printed pid ++ (s.traces.lookup pid).getD [] =
        ((packs.foldl MemoryStream.dispatch {}).traces.lookup pid).getD []
  name_kept : ∀ pid, s.pnames.lookup pid =
    nameOf pid (windows size.value.toNat (calls.map Dispatch.records)).current
  name_printed : List.Forall₂
    (fun block window => ∀ line ∈ block.lines, nameOf line.pid window = some line.name)
    s.blocks (windows size.value.toNat (calls.map Dispatch.records)).closed

/-- Every run conserves the traces, for any order of the maps and any cut into packs. -/
theorem aggregation_conserves {name : List Byte} {size : SizeLimit} {calls : List Dispatch}
    {s : FileAggrStream} (hrun : (stream name size).Run calls s) : Conserves size calls s := by
  have h := run_refines hrun
  refine ⟨?_, ?_, ?_, ?_, ?_, ?_⟩
  · intro records
    obtain ⟨htraces, hpnames⟩ := keys_addAll h.toShown records
    rw [htraces, hpnames]
  · have hroom := run_room hrun
    rw [h.limit]
    omega
  · intro call hlegal
    obtain ⟨t, hdispatch, -⟩ := dispatch_refines h hlegal
    exact ⟨t, hdispatch⟩
  · intro packs hcut pid
    rw [memory_syscalls, hcut, ← windows_flatten size.value.toNat, syscallsOf, valuesAt_append,
      h.traces, lookup_group, FileAggrStream.printed, printed_shows h.blocks]
    rfl
  · intro pid
    rw [h.pnames, lookup_firsts]
    rfl
  · exact h.blocks.imp fun _ _ hshows => hshows.names

/- Two packs, of which the second reaches a limit of two processes. -/
def twoPacks : List Dispatch :=
  [⟨[⟨⟨7, 3⟩, ascii "sh", []⟩], 0, List.toAList [⟨7, [3]⟩]⟩,
    ⟨[⟨⟨9, 4⟩, ascii "ls", []⟩], 1, List.toAList [⟨7, [3]⟩, ⟨9, [4]⟩]⟩]

theorem run_twoPacks :
    ∃ s, (stream (ascii "log") ⟨2, by decide, by decide⟩).Run twoPacks s := by
  have hstart : (stream (ascii "log") ⟨2, by decide, by decide⟩).Run [] (.make (ascii "log") 2) :=
    .start rfl
  have hfirst := hstart.next (l := twoPacks[0]) ⟨by decide, rfl⟩
  have hsecond := hfirst.next (l := twoPacks[1]) ⟨by decide, rfl⟩
  exact ⟨_, hsecond⟩

theorem aggregation_conserves_twoPacks :
    ∃ s, (stream (ascii "log") ⟨2, by decide, by decide⟩).Run twoPacks s ∧
      Conserves ⟨2, by decide, by decide⟩ twoPacks s := by
  obtain ⟨s, hrun⟩ := run_twoPacks
  exact ⟨s, hrun, aggregation_conserves hrun⟩

/- A stream that is still in the file that its constructor has opened. -/
structure FirstFile (s : FileAggrStream) : Prop where
  index : s._file_index = 11
  finished : s.finished = []
  opened : s._file.opened = true

theorem firstFile_make (name : List Byte) (size : Int) : FirstFile (.make name size) :=
  ⟨rfl, rfl, rfl⟩

theorem firstFile_addAll {s : FileAggrStream} (h : FirstFile s) (records : List SysParamsRecord) :
    FirstFile (s.addAll records) := by
  rw [addAll_fields]
  exact ⟨h.index, h.finished, h.opened⟩

/-- `print_all` finds the index where the constructor left it, and opens no other file. -/
theorem firstFile_print_all {s t : FileAggrStream} (h : FirstFile s)
    {order : AList fun _ : Int => List Int} {ms : Int} (hprint : s.print_all order ms = some t) :
    FirstFile t := by
  have hindex : ¬ s._file_index % 10 = 0 := by
    rw [h.index]
    decide
  simp only [FileAggrStream.print_all, Option.bind_eq_bind, Option.bind_eq_some_iff,
    Option.pure_def, Option.some.injEq] at hprint
  obtain ⟨lines, -, rfl⟩ := hprint
  rw [FileAggrStream.reopen, if_neg hindex]
  exact ⟨h.index, h.finished, h.opened⟩

theorem firstFile_dispatch {s t : FileAggrStream} (h : FirstFile s) {call : Dispatch}
    (hdispatch : s.dispatch call = some t) : FirstFile t := by
  have hadded := firstFile_addAll h call.records
  rw [FileAggrStream.dispatch] at hdispatch
  by_cases hfull : toSizeT (s.addAll call.records)._size ≤ (s.addAll call.records).traces.keys.card
  · rw [if_pos hfull] at hdispatch
    exact firstFile_print_all hadded hdispatch
  · rw [if_neg hfull] at hdispatch
    rw [← Option.some.inj hdispatch]
    exact hadded

theorem run_firstFile {name : List Byte} {size : SizeLimit} {calls : List Dispatch}
    {s : FileAggrStream} (hrun : (stream name size).Run calls s) : FirstFile s := by
  refine hrun.reachable.invariant (I := FirstFile) ?_ ?_
  · intro s hinit
    rw [show s = FileAggrStream.make name size.value from hinit]
    exact firstFile_make name size.value
  · intro call s t h hstep
    exact firstFile_dispatch h hstep.2

/-- The output files when `~BaseSensor` has deleted the stream. `delete _stream` goes through a
`sensor_stream` pointer, and `sensor_stream` has no virtual destructor: neither
`~file_aggr_stream` nor that of `_file` runs, and the open file is left as it is. -/
def FileAggrStream.destroy (s : FileAggrStream) : List OutFile := s.finished ++ [s._file]

/- A piece of a file's text, and the (process, call) pair that it completes. -/
structure Piece where
  text : List Byte
  call : Option (Int × Int) := none

def Line.pieces (line : Line) : List Piece :=
  ⟨line.name ++ ascii " == " ++ intText line.pid ++ ascii " ==> ", none⟩ ::
    (line.syscalls.map fun call => ⟨intText call ++ ascii ",", some (line.pid, call)⟩) ++
    [⟨ascii "\n", none⟩]

def Block.pieces (block : Block) : List Piece :=
  ⟨ascii "processes = " ++ Lib.Decimal.text block.processes ++ ascii " timestamp = " ++
    intText block.timestamp ++ ascii "\n", none⟩ :: block.lines.flatMap Line.pieces

def OutFile.pieces (file : OutFile) : List Piece := file.blocks.flatMap Block.pieces

theorem line_pieces (line : Line) : line.pieces.flatMap Piece.text = line.text := by
  simp [Line.pieces, Line.text, List.flatMap_map]

/-- The pieces of a file are its text. -/
theorem file_pieces (file : OutFile) : file.pieces.flatMap Piece.text = file.content := by
  have hblock (block : Block) : block.pieces.flatMap Piece.text = block.text := by
    rw [Block.pieces, List.flatMap_cons, List.flatMap_assoc, Block.text]
    congr 2
    exact funext line_pieces
  rw [OutFile.pieces, OutFile.content, List.flatMap_assoc]
  congr 1
  exact funext hblock

/- The pairs whose pieces are among the first `n` bytes. -/
def callsWithin : Nat → List Piece → List (Int × Int)
  | _, [] => []
  | n, piece :: pieces =>
    if piece.text.length ≤ n then piece.call.toList ++ callsWithin (n - piece.text.length) pieces
    else []

/- The number of bytes up to the last pair. -/
def upToLastCall : List Piece → Nat
  | [] => 0
  | piece :: pieces =>
    if (piece :: pieces).filterMap Piece.call = [] then 0
    else piece.text.length + upToLastCall pieces

/- How many of the bytes that it has taken zlib has let through to a file. `gzclose` writes all of
   them; before that, it is `zlib` that chooses. -/
def OutFile.reached (zlib : List Byte → Nat) (file : OutFile) : Nat :=
  if file.opened then zlib file.content else file.content.length

/- The (process, call) pairs that can be read in the files. -/
def pairsIn (zlib : List Byte → Nat) (files : List OutFile) : List (Int × Int) :=
  files.flatMap fun file => callsWithin (file.reached zlib) file.pieces

def pairs (records : List SysParamsRecord) : List (Int × Int) :=
  records.map fun r => (r._pid, r._syscall)

/-- Every record is in the output files, each exactly once. -/
def WrittenOnce (zlib : List Byte → Nat) (records : List SysParamsRecord)
    (files : List OutFile) : Prop :=
  (pairsIn zlib files).Perm (pairs records)

theorem callsWithin_sublist (n : Nat) (pieces : List Piece) :
    (callsWithin n pieces).Sublist (pieces.filterMap Piece.call) := by
  induction pieces generalizing n with
  | nil => exact .slnil
  | cons piece pieces ih =>
    have hcons : (piece :: pieces).filterMap Piece.call =
        piece.call.toList ++ pieces.filterMap Piece.call := by
      cases hcall : piece.call <;> simp [hcall]
    rw [callsWithin, hcons]
    split
    · exact (ih _).append_left _
    · exact List.nil_sublist _

/-- The first `n` bytes have all pairs exactly when they reach the last one. -/
theorem callsWithin_eq_iff (n : Nat) (pieces : List Piece) :
    callsWithin n pieces = pieces.filterMap Piece.call ↔ upToLastCall pieces ≤ n := by
  induction pieces generalizing n with
  | nil => simp [callsWithin, upToLastCall]
  | cons piece pieces ih =>
    have hcons : (piece :: pieces).filterMap Piece.call =
        piece.call.toList ++ pieces.filterMap Piece.call := by
      cases hcall : piece.call <;> simp [hcall]
    rw [upToLastCall]
    by_cases hnone : (piece :: pieces).filterMap Piece.call = []
    · have hsub := callsWithin_sublist n (piece :: pieces)
      rw [hnone] at hsub
      rw [if_pos hnone, hnone]
      exact ⟨fun _ => Nat.zero_le n, fun _ => List.sublist_nil.mp hsub⟩
    · rw [if_neg hnone, callsWithin]
      by_cases hin : piece.text.length ≤ n
      · rw [if_pos hin, hcons, List.append_cancel_left_eq, ih]
        omega
      · rw [if_neg hin]
        constructor
        · intro hnil
          exact absurd hnil.symm hnone
        · intro hle
          omega

theorem upToLastCall_le (pieces : List Piece) :
    upToLastCall pieces ≤ (pieces.flatMap Piece.text).length := by
  induction pieces with
  | nil => exact Nat.le_refl 0
  | cons piece pieces ih =>
    rw [upToLastCall, List.flatMap_cons, List.length_append]
    split
    · exact Nat.zero_le _
    · exact Nat.add_le_add_left ih _

/- All pairs of a file. -/
theorem file_calls (file : OutFile) :
    file.pieces.filterMap Piece.call = file.blocks.flatMap fun block =>
      block.lines.flatMap fun line => line.syscalls.map fun call => (line.pid, call) := by
  have hline (line : Line) : line.pieces.filterMap Piece.call =
      line.syscalls.map fun call => (line.pid, call) := by
    simp [Line.pieces, List.filterMap_map]
  rw [OutFile.pieces, List.filterMap_flatMap]
  congr 1
  funext block
  rw [Block.pieces, List.filterMap_cons_none rfl, List.filterMap_flatMap]
  congr 1
  exact funext hline

/- The (process, call) pairs that `print_all` has printed. -/
def FileAggrStream.printedPairs (s : FileAggrStream) : List (Int × Int) :=
  s.blocks.flatMap fun block => block.lines.flatMap fun line =>
    line.syscalls.map fun call => (line.pid, call)

theorem valuesAt_pairs (pid : Int) (records : List SysParamsRecord) :
    valuesAt Prod.fst Prod.snd pid (pairs records) = syscallsOf pid records := by
  rw [valuesAt, pairs, List.filter_map, List.map_map]
  rfl

theorem valuesAt_line (pid : Int) (line : Line) :
    valuesAt Prod.fst Prod.snd pid (line.syscalls.map fun call => (line.pid, call)) =
      if line.pid = pid then line.syscalls else [] := by
  rw [valuesAt, List.filter_map, List.map_map]
  by_cases hpid : line.pid = pid
  · simp [hpid, Function.comp_def]
  · simp [hpid, Function.comp_def]

theorem valuesAt_printedPairs (pid : Int) (s : FileAggrStream) :
    valuesAt Prod.fst Prod.snd pid s.printedPairs = s.printed pid := by
  have hlines : ∀ lines : List Line,
      valuesAt Prod.fst Prod.snd pid
          (lines.flatMap fun line => line.syscalls.map fun call => (line.pid, call)) =
        (lines.filter fun line => line.pid = pid).flatMap Line.syscalls := by
    intro lines
    induction lines with
    | nil => rfl
    | cons line lines ih =>
      rw [List.flatMap_cons, valuesAt_append, valuesAt_line, ih]
      by_cases hpid : line.pid = pid
      · simp [hpid]
      · simp [hpid]
  rw [FileAggrStream.printedPairs, FileAggrStream.printed]
  induction s.blocks with
  | nil => rfl
  | cons block blocks ih =>
    rw [List.flatMap_cons, List.flatMap_cons, valuesAt_append, hlines, ih]
    rfl

/-- The closed windows have been printed, and nothing else. -/
theorem printedPairs_perm {s : FileAggrStream} {closed : List (List SysParamsRecord)}
    (h : List.Forall₂ Shows s.blocks closed) : s.printedPairs.Perm (pairs closed.flatten) := by
  refine perm_of_valuesAt fun pid => ?_
  rw [valuesAt_printedPairs, valuesAt_pairs, FileAggrStream.printed, printed_shows h]

/-- The only file is never closed. -/
theorem pairsIn_destroy {s : FileAggrStream} (h : FirstFile s) (zlib : List Byte → Nat) :
    pairsIn zlib s.destroy = callsWithin (zlib s._file.content) s._file.pieces := by
  rw [FileAggrStream.destroy, h.finished, pairsIn, List.nil_append, List.flatMap_singleton,
    OutFile.reached, if_pos h.opened]

/-- What zlib lets through are some of the printed pairs, and all of them when it comes to the
last. -/
theorem pairsIn_printed {s : FileAggrStream} (h : FirstFile s) (zlib : List Byte → Nat) :
    (pairsIn zlib s.destroy).Sublist s.printedPairs ∧
      (pairsIn zlib s.destroy = s.printedPairs ↔
        upToLastCall s._file.pieces ≤ zlib s._file.content) := by
  have hprinted : s.printedPairs = s._file.pieces.filterMap Piece.call := by
    rw [file_calls, FileAggrStream.printedPairs, FileAggrStream.blocks, h.finished]
    rfl
  rw [pairsIn_destroy h, hprinted]
  exact ⟨callsWithin_sublist _ _, callsWithin_eq_iff _ _⟩

/-- With one zlib: the last window must be closed, and zlib must have let through the text up to
the last call. -/
theorem written_iff {name : List Byte} {size : SizeLimit} {calls : List Dispatch}
    {s : FileAggrStream} (hrun : (stream name size).Run calls s) (zlib : List Byte → Nat) :
    WrittenOnce zlib (calls.map Dispatch.records).flatten s.destroy ↔
      (windows size.value.toNat (calls.map Dispatch.records)).current = [] ∧
        upToLastCall s._file.pieces ≤ zlib s._file.content := by
  have hprinted := printedPairs_perm (run_refines hrun).blocks
  obtain ⟨hsub, hreached⟩ := pairsIn_printed (run_firstFile hrun) zlib
  rw [WrittenOnce, ← windows_flatten size.value.toNat, ← hreached]
  constructor
  · intro hall
    have hlength := hall.length_eq
    have hle := hsub.length_le
    have hclosed := hprinted.length_eq
    simp only [pairs, List.length_map, List.length_append] at hlength hclosed
    exact ⟨List.eq_nil_of_length_eq_zero (by omega), hsub.eq_of_length_le (by omega)⟩
  · rintro ⟨hnil, hsame⟩
    rw [hnil, List.append_nil, hsame]
    exact hprinted

/-- No text comes without a first byte. -/
theorem calls_nil_of_upToLastCall {file : OutFile} (h : upToLastCall file.pieces = 0) :
    file.pieces.filterMap Piece.call = [] := by
  rw [OutFile.pieces] at h ⊢
  cases hblocks : file.blocks with
  | nil => rfl
  | cons block blocks =>
    have hfirst : 0 < (ascii "processes = ").length := by decide
    rw [hblocks, List.flatMap_cons, Block.pieces, List.cons_append, upToLastCall] at h
    split at h
    · rename_i hnone
      rw [List.flatMap_cons, Block.pieces, List.cons_append, hnone]
    · simp only [List.length_append] at h
      omega

/-- After the end of a run, what is in the output files whatever zlib holds back are all records
only if there is none; with one zlib, exactly when the last window was closed and zlib has let
through the text up to the last call. -/
theorem written_once_iff {name : List Byte} {size : SizeLimit} {calls : List Dispatch}
    {s : FileAggrStream} (hrun : (stream name size).Run calls s) :
    ((∀ zlib, WrittenOnce zlib (calls.map Dispatch.records).flatten s.destroy) ↔
        (calls.map Dispatch.records).flatten = []) ∧
      ∀ zlib, WrittenOnce zlib (calls.map Dispatch.records).flatten s.destroy ↔
        (windows size.value.toNat (calls.map Dispatch.records)).current = [] ∧
          upToLastCall s._file.pieces ≤ zlib s._file.content := by
  refine ⟨⟨?_, ?_⟩, written_iff hrun⟩
  · intro hall
    have hreached := ((written_iff hrun fun _ => 0).mp (hall fun _ => 0)).2
    have hnone := calls_nil_of_upToLastCall (Nat.le_zero.mp hreached)
    have hnil : pairsIn (fun _ => 0) s.destroy = [] := by
      have hsub := callsWithin_sublist 0 s._file.pieces
      rw [hnone] at hsub
      rw [pairsIn_destroy (run_firstFile hrun)]
      exact List.sublist_nil.mp hsub
    have hperm := hall fun _ => 0
    rw [WrittenOnce, hnil] at hperm
    exact List.map_eq_nil_iff.mp hperm.symm.eq_nil
  · intro hnone zlib
    have hcut := windows_flatten size.value.toNat (calls.map Dispatch.records)
    rw [hnone, List.append_eq_nil_iff] at hcut
    have hprinted := printedPairs_perm (run_refines hrun).blocks
    rw [hcut.1] at hprinted
    have hsub := (pairsIn_printed (run_firstFile hrun) zlib).1
    rw [show s.printedPairs = [] from hprinted.eq_nil] at hsub
    rw [hnone, WrittenOnce, List.sublist_nil.mp hsub]
    exact .refl _

/-- Its window is closed by the second pack: with a zlib that lets everything through at once both
records are in the file, with one that waits for `gzclose` they are not. -/
theorem written_once_twoPacks :
    ∃ s, (stream (ascii "log") ⟨2, by decide, by decide⟩).Run twoPacks s ∧
      WrittenOnce List.length (twoPacks.map Dispatch.records).flatten s.destroy ∧
      ¬ ∀ zlib, WrittenOnce zlib (twoPacks.map Dispatch.records).flatten s.destroy := by
  obtain ⟨s, hrun⟩ := run_twoPacks
  obtain ⟨hnever, hone⟩ := written_once_iff hrun
  refine ⟨s, hrun, (hone List.length).mpr ⟨by decide, ?_⟩, ?_⟩
  · rw [← file_pieces]
    exact upToLastCall_le _
  · rw [hnever]
    decide

/-- One record. With the default limit it is written nowhere; with a limit of one it is printed, and
a zlib that waits for `gzclose` never writes it. -/
theorem last_window_lost :
    (∃ s, (stream (ascii "log") ⟨1024, by decide, by decide⟩).Run [twoPacks[0]] s ∧
      ∀ zlib, ¬ WrittenOnce zlib twoPacks[0].records s.destroy) ∧
    ∃ s, (stream (ascii "log") ⟨1, by decide, by decide⟩).Run [twoPacks[0]] s ∧
      ¬ WrittenOnce (fun _ => 0) twoPacks[0].records s.destroy := by
  have hstart (size : SizeLimit) : (stream (ascii "log") size).Run []
      (.make (ascii "log") size.value) := .start rfl
  constructor
  · have hrun := (hstart ⟨1024, by decide, by decide⟩).next (l := twoPacks[0]) ⟨by decide, rfl⟩
    refine ⟨_, hrun, fun zlib hwritten => ?_⟩
    exact absurd ((written_iff hrun zlib).mp hwritten).1 (by decide)
  · have hrun := (hstart ⟨1, by decide, by decide⟩).next (l := twoPacks[0]) ⟨by decide, rfl⟩
    refine ⟨_, hrun, fun hwritten => ?_⟩
    exact absurd ((written_iff hrun fun _ => 0).mp hwritten).2 (by decide)

end SyscallSensor.AggrStream
