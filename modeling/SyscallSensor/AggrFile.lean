import SyscallSensor.AggrStream
import SyscallSensor.Lib.Pieces
import SyscallSensor.Lib.RightEnd

/-! The text of the aggregated file, read back. A process line ends in a comma and a header in
a digit, so the last byte tells them apart; the rest of a line is read from its right end. -/
namespace SyscallSensor.AggrFile
open Text Trace AggrStream
open Lib.Decimal (intText readInt readNat IsIntByte)
open Lib.RightEnd
open Lib.Grouping (AllValues)

def comma : Byte := 44

/- The bytes of a list of calls. -/
def IsCallByte (b : Byte) : Bool := b = comma ∨ IsIntByte b

def decodeCalls (text : List Byte) : Option (List Int) := do
  let calls ← Lib.Pieces.cutEnded comma text
  calls.mapM readInt

/-- `name == pid ==> call,call,`. -/
def decodeLine (line : List Byte) : Option Line := do
  let (rest, calls) := cutTail IsCallByte line
  let syscalls ← decodeCalls calls
  let rest ← rest.dropSuffix? (ascii " ==> ")
  let (rest, pid) ← cutInt rest
  let name ← rest.dropSuffix? (ascii " == ")
  pure ⟨name, pid, syscalls⟩

/-- `processes = n timestamp = ms`. -/
def decodeHeader (line : List Byte) : Option (Nat × Int) := do
  let (rest, timestamp) ← cutInt line
  let rest ← rest.dropSuffix? (ascii " timestamp = ")
  let digits ← rest.dropPrefix? (ascii "processes = ")
  let processes ← readNat digits
  pure (processes, timestamp)

/- The process lines in front of the first header, and the blocks. -/
def decodeBlocks : List (List Byte) → Option (List Line × List Block)
  | [] => some ([], [])
  | line :: rest => do
    let (lines, blocks) ← decodeBlocks rest
    if line.getLast? = some comma then
      let l ← decodeLine line
      pure (l :: lines, blocks)
    else
      let (processes, timestamp) ← decodeHeader line
      pure ([], ⟨processes, timestamp, lines⟩ :: blocks)

def decodeFile (content : List Byte) : Option (List Block) := do
  let (lines, blocks) ← (Lib.Pieces.cutEnded newline content).bind decodeBlocks
  if lines.isEmpty then some blocks else none

/- What a line needs to be read back. -/
def Line.Readable (line : Line) : Prop := newline ∉ line.name ∧ line.syscalls ≠ []

def Block.Readable (block : Block) : Prop := ∀ line ∈ block.lines, Line.Readable line

/- The lines of a block without their newlines. -/
def callsText (calls : List Int) : List Byte := calls.flatMap fun call => intText call ++ ascii ","

def lineBody (line : Line) : List Byte :=
  line.name ++ ascii " == " ++ intText line.pid ++ ascii " ==> " ++ callsText line.syscalls

def headerBody (block : Block) : List Byte :=
  ascii "processes = " ++ Lib.Decimal.text block.processes ++ ascii " timestamp = " ++
    intText block.timestamp

def blockLines (block : Block) : List (List Byte) := headerBody block :: block.lines.map lineBody

theorem callsText_eq (calls : List Int) :
    callsText calls = (calls.map intText).flatMap fun call => call ++ [comma] := by
  have hcomma : ascii "," = [comma] := by decide
  rw [callsText, hcomma, List.flatMap_map]

theorem decodeCalls_callsText (calls : List Int) : decodeCalls (callsText calls) = some calls := by
  have hcommas : ∀ call ∈ calls.map intText, comma ∉ call := by
    intro text htext hmem
    obtain ⟨call, -, rfl⟩ := List.mem_map.mp htext
    exact Lib.Decimal.not_mem_intText (by decide) call hmem
  have hread : calls.mapM (readInt ∘ intText) = some (calls.map id) :=
    Lib.Outcome.mapM_some fun call _ => Lib.Decimal.readInt_intText call
  rw [decodeCalls, callsText_eq, Lib.Pieces.cutEnded_flatMap hcommas, Option.bind_eq_bind,
    Option.bind_some, List.mapM_map, hread, List.map_id]

theorem callsText_isCallByte {calls : List Int} {b : Byte} (h : b ∈ callsText calls) :
    IsCallByte b = true := by
  rw [callsText_eq, List.mem_flatMap] at h
  obtain ⟨text, htext, hb⟩ := h
  obtain ⟨call, -, rfl⟩ := List.mem_map.mp htext
  rw [IsCallByte, decide_eq_true_eq]
  cases List.mem_append.mp hb with
  | inl hb => exact .inr (Lib.Decimal.intText_isIntByte hb)
  | inr hb => exact .inl (List.mem_singleton.mp hb)

theorem getLast?_callsText {calls : List Int} (h : calls ≠ []) :
    (callsText calls).getLast? = some comma := by
  induction calls using List.reverseRecOn with
  | nil => exact absurd rfl h
  | append_singleton calls call ih =>
    have hcomma : ascii "," = [comma] := by decide
    rw [callsText, List.flatMap_append, List.flatMap_singleton, hcomma, ← List.append_assoc,
      List.getLast?_concat]

/-- A process line is read back from its right end, whatever its name is. -/
theorem decodeLine_lineBody (line : Line) : decodeLine (lineBody line) = some line := by
  have harrow : ascii " ==> " = ascii " ==>" ++ [blank] := by decide
  have hsep : (ascii " == ").getLast?.map IsIntByte = some false := by decide
  have hstop : ∀ hl : line.name ++ ascii " == " ++ intText line.pid ++ ascii " ==> " ≠ [],
      IsCallByte ((line.name ++ ascii " == " ++ intText line.pid ++ ascii " ==> ").getLast hl) =
        false := by
    rw [harrow, ← List.append_assoc]
    intro hl
    rw [List.getLast_concat]
    decide
  have hcut := cutTail_append _ (callsText line.syscalls)
    (fun b hb => callsText_isCallByte hb) hstop
  simp only [decodeLine, lineBody, hcut, decodeCalls_callsText, dropSuffix?_append,
    cutInt_append hsep, Option.bind_eq_bind, Option.bind_some]
  rfl

theorem decodeHeader_headerBody (block : Block) :
    decodeHeader (headerBody block) = some (block.processes, block.timestamp) := by
  have hsep : (ascii " timestamp = ").getLast?.map IsIntByte = some false := by decide
  simp only [decodeHeader, headerBody, cutInt_append hsep, dropSuffix?_append, dropPrefix?_append,
    Lib.Decimal.readNat_text, Option.bind_eq_bind, Option.bind_some]
  rfl

theorem getLast?_lineBody {line : Line} (h : Line.Readable line) :
    (lineBody line).getLast? = some comma := by
  rw [lineBody, List.getLast?_append, getLast?_callsText h.2]
  rfl

/-- A header ends in a digit. -/
theorem getLast?_headerBody (block : Block) : (headerBody block).getLast? ≠ some comma := by
  intro h
  rw [headerBody, List.getLast?_append_of_ne_nil _ (Lib.Decimal.intText_ne_nil _)] at h
  exact Lib.Decimal.not_mem_intText (by decide) _ (List.mem_of_getLast? h)

/-- Process lines in front of what has been decoded join the lines that wait for a header. -/
theorem decodeBlocks_lines {lines later : List Line} {blocks : List Block}
    {rest : List (List Byte)} (hreadable : ∀ line ∈ lines, Line.Readable line)
    (hrest : decodeBlocks rest = some (later, blocks)) :
    decodeBlocks (lines.map lineBody ++ rest) = some (lines ++ later, blocks) := by
  induction lines with
  | nil => exact hrest
  | cons line lines ih =>
    have htail := ih fun l hl => hreadable l (List.mem_cons_of_mem line hl)
    have hlast := getLast?_lineBody (hreadable line (by simp))
    rw [List.map_cons, List.cons_append, decodeBlocks, htail]
    simp only [hlast, if_true, decodeLine_lineBody, Option.bind_eq_bind, Option.bind_some]
    rfl

theorem decodeBlocks_block {block : Block} {blocks : List Block} {rest : List (List Byte)}
    (hreadable : Block.Readable block) (hrest : decodeBlocks rest = some ([], blocks)) :
    decodeBlocks (blockLines block ++ rest) = some ([], block :: blocks) := by
  have hlines := decodeBlocks_lines hreadable hrest
  have hlast := getLast?_headerBody block
  rw [List.append_nil] at hlines
  rw [blockLines, List.cons_append, decodeBlocks, hlines]
  simp only [hlast, if_false, decodeHeader_headerBody, Option.bind_eq_bind, Option.bind_some]
  rfl

theorem decodeBlocks_blocks {blocks : List Block} (h : ∀ block ∈ blocks, Block.Readable block) :
    decodeBlocks (blocks.flatMap blockLines) = some ([], blocks) := by
  induction blocks with
  | nil => rfl
  | cons block blocks ih =>
    have hrest := ih fun b hb => h b (List.mem_cons_of_mem block hb)
    rw [List.flatMap_cons]
    exact decodeBlocks_block (h block (by simp)) hrest

theorem blockText_eq (block : Block) :
    block.text = (blockLines block).flatMap fun line => line ++ [newline] := by
  have hnl : ascii "\n" = [newline] := by decide
  have hline : Line.text = fun line => lineBody line ++ [newline] := by
    funext line
    rw [Line.text, lineBody, callsText, hnl]
  rw [Block.text, blockLines, List.flatMap_cons, headerBody, hnl, List.flatMap_map, hline]

theorem blockLines_noNewline {block : Block} (h : Block.Readable block) :
    ∀ line ∈ blockLines block, newline ∉ line := by
  have hint : ∀ v, newline ∉ intText v := Lib.Decimal.not_mem_intText (by decide)
  have hnat : newline ∉ Lib.Decimal.text block.processes := Lib.Decimal.not_mem_text (by decide) _
  have hprocesses : newline ∉ ascii "processes = " := by decide
  have htimestamp : newline ∉ ascii " timestamp = " := by decide
  have hequals : newline ∉ ascii " == " := by decide
  have harrow : newline ∉ ascii " ==> " := by decide
  have hcalls : ∀ calls, newline ∉ callsText calls := by
    intro calls hmem
    exact absurd (callsText_isCallByte hmem) (by decide)
  intro text htext
  cases List.mem_cons.mp htext with
  | inl htext => simp [htext, headerBody, hint, hnat, hprocesses, htimestamp]
  | inr htext =>
    obtain ⟨line, hline, rfl⟩ := List.mem_map.mp htext
    simp [lineBody, (h line hline).1, hint, hequals, harrow, hcalls]

/-- The text of readable blocks is read back block by block. -/
theorem decodeFile_blocks {blocks : List Block} (h : ∀ block ∈ blocks, Block.Readable block) :
    decodeFile (blocks.flatMap Block.text) = some blocks := by
  have htext : blocks.flatMap Block.text =
      (blocks.flatMap blockLines).flatMap fun line => line ++ [newline] := by
    rw [List.flatMap_assoc]
    exact congrArg (List.flatMap · blocks) (funext blockText_eq)
  have hlines : ∀ line ∈ blocks.flatMap blockLines, newline ∉ line := by
    intro line hline
    obtain ⟨block, hblock, hline⟩ := List.mem_flatMap.mp hline
    exact blockLines_noNewline (h block hblock) line hline
  rw [decodeFile, htext, Lib.Pieces.cutEnded_flatMap hlines, Option.bind_some,
    decodeBlocks_blocks h]
  rfl

/- The stream with any `int` as its size: zero flushes at every call, and a negative one stands
   for a huge limit. -/
def sizedStream (name : List Byte) (size : Int) : Lib.Transition.System FileAggrStream Dispatch where
  init s := s = FileAggrStream.make name size
  step call s t := call.Legal s ∧ s.dispatch call = some t

/- What every call keeps: no list in `traces` is empty, and names have no newline. -/
structure Inv (s : FileAggrStream) : Prop where
  traces : AllValues (· ≠ []) s.traces
  pnames : AllValues (newline ∉ ·) s.pnames
  blocks : ∀ block ∈ s.blocks, Block.Readable block

theorem inv_addAll {s : FileAggrStream} (h : Inv s) {records : List SysParamsRecord}
    (hnames : ∀ r ∈ records, newline ∉ r._name) : Inv (s.addAll records) := by
  induction records generalizing s with
  | nil => exact h
  | cons r records ih =>
    have hadd : Inv (s.add r) :=
      ⟨Lib.Grouping.allValues_push h.traces _ _,
        Lib.Grouping.allValues_emplace h.pnames _ (hnames r (by simp)), h.blocks⟩
    rw [FileAggrStream.addAll, List.foldl_cons]
    exact ih hadd fun q hq => hnames q (List.mem_cons_of_mem r hq)

/-- A printed line has a list and a name of the maps. -/
theorem readable_line {s : FileAggrStream} (h : Inv s) {order : AList fun _ : Int => List Int}
    (horder : order.toFinmap = s.traces) {it : Σ _ : Int, List Int} (hit : it ∈ order.entries)
    {line : Line} (hline : s.line it = some line) : Line.Readable line := by
  have hlist : s.traces.lookup it.1 = some it.2 := by
    rw [← horder, Finmap.lookup_toFinmap]
    exact AList.mem_lookup_iff.mpr hit
  rw [FileAggrStream.line, Option.map_eq_some_iff] at hline
  obtain ⟨name, hname, rfl⟩ := hline
  exact ⟨h.pnames _ _ hname, h.traces _ _ hlist⟩

theorem inv_print_all {s t : FileAggrStream} (h : Inv s) {order : AList fun _ : Int => List Int}
    {ms : Int} (horder : order.toFinmap = s.traces) (hprint : s.print_all order ms = some t) :
    Inv t := by
  simp only [FileAggrStream.print_all, Option.bind_eq_bind, Option.bind_eq_some_iff,
    Option.pure_def, Option.some.injEq] at hprint
  obtain ⟨lines, hlines, rfl⟩ := hprint
  refine ⟨?_, ?_, ?_⟩
  · rw [(maps_reopen _).1]
    exact Lib.Grouping.allValues_empty _
  · rw [(maps_reopen _).2.1]
    exact Lib.Grouping.allValues_empty _
  · rw [blocks_reopen]
    intro block hblock
    simp only [FileAggrStream.blocks, ← List.append_assoc, List.mem_append,
      List.mem_singleton] at hblock
    cases hblock with
    | inl hold => exact h.blocks block (List.mem_append.mpr hold)
    | inr hnew =>
      intro line hline
      rw [hnew] at hline
      obtain ⟨it, hit, hfound⟩ := Lib.Outcome.exists_of_mem_mapM hlines hline
      exact readable_line h horder hit hfound

theorem inv_dispatch {s t : FileAggrStream} (h : Inv s) {call : Dispatch} (hlegal : call.Legal s)
    (hnames : ∀ r ∈ call.records, newline ∉ r._name) (hdispatch : s.dispatch call = some t) :
    Inv t := by
  have hadded := inv_addAll h hnames
  rw [FileAggrStream.dispatch] at hdispatch
  by_cases hfull : toSizeT (s.addAll call.records)._size ≤ (s.addAll call.records).traces.keys.card
  · rw [if_pos hfull] at hdispatch
    exact inv_print_all hadded hlegal hdispatch
  · rw [if_neg hfull] at hdispatch
    rw [← Option.some.inj hdispatch]
    exact hadded

theorem run_inv {name : List Byte} {size : Int} {calls : List Dispatch} {s : FileAggrStream}
    (hrun : (sizedStream name size).Run calls s)
    (hnames : ∀ call ∈ calls, ∀ r ∈ call.records, newline ∉ r._name) : Inv s := by
  refine hrun.invariant (I := fun calls s =>
    (∀ call ∈ calls, ∀ r ∈ call.records, newline ∉ r._name) → Inv s) ?_ ?_ hnames
  · intro s hinit _
    rw [show s = FileAggrStream.make name size from hinit]
    exact ⟨Lib.Grouping.allValues_empty _, Lib.Grouping.allValues_empty _, by
      simp [FileAggrStream.make, FileAggrStream.blocks]⟩
  · intro calls call s t ih hstep hall
    have hinv := ih fun c hc => hall c (by simp [hc])
    exact inv_dispatch hinv hstep.1 (hall call (by simp)) hstep.2

/-- Over a whole run the blocks show the windows that have been closed. -/
theorem run_shown {name : List Byte} {size : Int} {calls : List Dispatch} {s : FileAggrStream}
    (hrun : (sizedStream name size).Run calls s) :
    Shown size s (windows (toSizeT size) (calls.map Dispatch.records)) := by
  refine hrun.invariant (I := fun calls s =>
    Shown size s (windows (toSizeT size) (calls.map Dispatch.records))) ?_ ?_
  · intro s hinit
    rw [show s = FileAggrStream.make name size from hinit]
    exact ⟨rfl, rfl, rfl, .nil⟩
  · intro calls call s t ih hstep
    obtain ⟨t', hdispatch, hshown⟩ := dispatch_shown ih hstep.1
    rw [hstep.2] at hdispatch
    obtain rfl := Option.some.inj hdispatch
    rw [List.map_append, List.map_singleton, windows_snoc]
    exact hshown

/-- In every run whose names have no newline, what has been flushed is read back block by
block, over all files and in each of them, and every block shows the window that its maps were
collected from. -/
theorem aggregated_read_back {name : List Byte} {size : Int} {calls : List Dispatch}
    {s : FileAggrStream} (hrun : (sizedStream name size).Run calls s)
    (hnames : ∀ call ∈ calls, ∀ r ∈ call.records, newline ∉ r._name) :
    decodeFile (s.blocks.flatMap Block.text) = some s.blocks ∧
      (∀ file ∈ s.finished ++ [s._file], decodeFile file.content = some file.blocks) ∧
      List.Forall₂ Shows s.blocks
        (windows (toSizeT size) (calls.map Dispatch.records)).closed := by
  have hinv := run_inv hrun hnames
  refine ⟨decodeFile_blocks hinv.blocks, ?_, (run_shown hrun).blocks⟩
  intro file hfile
  refine decodeFile_blocks fun block hblock => hinv.blocks block ?_
  rw [FileAggrStream.blocks, List.mem_append, List.mem_flatMap]
  cases List.mem_append.mp hfile with
  | inl hfile => exact .inl ⟨file, hfile, hblock⟩
  | inr hfile =>
    rw [List.mem_singleton.mp hfile] at hblock
    exact .inr hblock

/- A name that looks like a process line, and one that looks like a header. -/
def hostilePacks : List Dispatch :=
  [⟨[⟨⟨7, 3⟩, ascii "sh == 9 ==> 4,", []⟩], 0, List.toAList [⟨7, [3]⟩]⟩,
    ⟨[⟨⟨9, 4⟩, ascii "processes = 1 timestamp = 5", []⟩, ⟨⟨7, 5⟩, ascii "sh", []⟩], 1,
      List.toAList [⟨7, [3, 5]⟩, ⟨9, [4]⟩]⟩]

theorem aggregated_read_back_hostilePacks :
    ∃ s, (sizedStream (ascii "log") 2).Run hostilePacks s ∧
      s.blocks = [⟨2, 1, [⟨ascii "sh == 9 ==> 4,", 7, [3, 5]⟩,
        ⟨ascii "processes = 1 timestamp = 5", 9, [4]⟩]⟩] ∧
      decodeFile (s.blocks.flatMap Block.text) = some s.blocks := by
  have hstart : (sizedStream (ascii "log") 2).Run [] (.make (ascii "log") 2) := .start rfl
  have hfirst := hstart.next (l := hostilePacks[0]) ⟨by decide, rfl⟩
  have hsecond := hfirst.next (l := hostilePacks[1]) ⟨by decide, rfl⟩
  exact ⟨_, hsecond, rfl, (aggregated_read_back hsecond (by decide)).1⟩

end SyscallSensor.AggrFile
