import SyscallSensor.AggrStream
import SyscallSensor.GzStream

/-! The aggregated files as they are on disk: `file_aggr_stream` writing through `ogzstream`, over
a zlib any of whose calls may fail and which writes what it has taken when it likes. -/
namespace SyscallSensor.AggrDisk
open Text Trace
open AggrStream GzStream
open Lib.Decimal (text intText)
open Lib.Transition (System)

/- What `print_all` hands to `operator<<`, one call after the other. -/
def linePieces (line : Line) : List (List Byte) :=
  [line.name, ascii " == ", intText line.pid, ascii " ==> "] ++
    line.syscalls.flatMap (fun call => [intText call, ascii ","]) ++ [ascii "\n"]

def blockPieces (block : Block) : List (List Byte) :=
  [ascii "processes = ", text block.processes, ascii " timestamp = ", intText block.timestamp,
    ascii "\n"] ++ block.lines.flatMap linePieces

section
variable (zlib : Zlib)

def writeAll (pieces : List (List Byte)) (out : OGzStream) : Except GzFault OGzStream :=
  pieces.foldlM (fun out bytes => out.write zlib bytes) out

/- The end of `print_all`. -/
def reopenFile (s : FileAggrStream) (out : OGzStream) : Except GzFault OGzStream :=
  if s._file_index % 10 = 0 then do
    let out ← out.flush zlib
    let out ← out.close zlib
    pure (out.open zlib (outName s._file_name s._file_index) { out := true })
  else pure out

/-- What one call of `dispatch` does to `_file`; `none` is a read through `pnames.end()`. -/
def dispatchFile (s : FileAggrStream) (call : Dispatch) (out : OGzStream) :
    Option (Except GzFault OGzStream) :=
  let s := s.addAll call.records
  if toSizeT s._size ≤ s.traces.keys.card then
    (call.order.entries.mapM s.line).map fun lines => do
      let out ← writeAll zlib (blockPieces ⟨s.traces.keys.card, call.ms, lines⟩) out
      let out ← out.flush zlib
      reopenFile zlib s out
  else some (.ok out)

/-- The aggregator and its stream, one `dispatch` after the other. -/
def disk (name : List Byte) (size : SizeLimit) : System (FileAggrStream × OGzStream) Dispatch where
  init s := s = (.make name size.value,
    ({} : OGzStream).open zlib (outName name 10) { out := true })
  step call s t := call.Legal s.1 ∧ s.1.dispatch call = some t.1 ∧
    dispatchFile zlib s.1 call s.2 = some (.ok t.2)

end

theorem linePieces_flatten (line : Line) : (linePieces line).flatten = line.text := by
  have hcalls : (line.syscalls.flatMap fun call => [intText call, ascii ","]).flatten =
      line.syscalls.flatMap fun call => intText call ++ ascii "," := by
    induction line.syscalls with
    | nil => rfl
    | cons call calls ih => simp [ih]
  simp only [linePieces, Line.text, List.flatten_append, hcalls]
  simp

theorem blockPieces_flatten (block : Block) : (blockPieces block).flatten = block.text := by
  have hlines : (block.lines.flatMap linePieces).flatten = block.lines.flatMap Line.text := by
    induction block.lines with
    | nil => rfl
    | cons line lines ih =>
      rw [List.flatMap_cons, List.flatten_append, linePieces_flatten, ih, List.flatMap_cons]
  simp only [blockPieces, Block.text, List.flatten_append, hlines]
  simp

/- A file for which zlib has taken what the program has printed, and has written the first
   `through` bytes of it. -/
def ofOutFile (file : OutFile) (through : Nat) : GzFile :=
  ⟨file.name, ascii "wb", file.content, through⟩

/- All of it, for a file that has been closed. -/
def closedFile (file : OutFile) : GzFile := ofOutFile file file.content.length

/- The texts of all blocks so far. -/
def allText (s : FileAggrStream) : List Byte := s.blocks.flatMap Block.text

/-- What there is of an aggregator behind `operator<<`: on a good stream every closed file with
every byte on disk, zlib has every byte of the open one, and there is nothing in the buffer;
otherwise the first bytes of what has been printed have been taken. -/
structure OnDisk (s : FileAggrStream) (out : OGzStream) : Prop where
  valid : out.Valid
  ready : out.buf.opened = true ∨ out.badbit = true
  good : out.badbit = false → out.buf.closed = s.finished.map closedFile ∧
    (∃ through, out.buf.file = ofOutFile s._file through) ∧ out.buf.pending = []
  wrote : Wrote (allText s) {} out

section
variable (zlib : Zlib) {s : FileAggrStream} {out : OGzStream}

theorem writeAll_spec (pieces : List (List Byte)) (hvalid : out.Valid) :
    ∃ t, writeAll zlib pieces out = .ok t ∧ t.Valid ∧ Wrote pieces.flatten out t ∧
      Kept out.buf t.buf := by
  induction pieces generalizing out with
  | nil => exact ⟨out, rfl, hvalid, .refl out, .refl out.buf⟩
  | cons bytes pieces ih =>
    obtain ⟨mid, hmid, hmidValid, hwrote, hkept⟩ := write_spec zlib bytes hvalid
    obtain ⟨t, ht, htValid, hwrote', hkept'⟩ := ih hmidValid
    refine ⟨t, ?_, htValid, hwrote.append hwrote', hkept.trans hkept'⟩
    exact Lib.Outcome.foldlM_cons_eq_ok.mpr ⟨mid, hmid, ht⟩

/-- A block goes through the buffer into the open file. -/
theorem print_spec (block : Block) (hvalid : out.Valid)
    (hready : out.buf.opened = true ∨ out.badbit = true) :
    ∃ mid t, writeAll zlib (blockPieces block) out = .ok mid ∧ mid.flush zlib = .ok t ∧
      t.Valid ∧ Wrote block.text out t ∧ (t.buf.opened = true ∨ t.badbit = true) ∧
      (t.badbit = false → out.badbit = false ∧ t.buf.closed = out.buf.closed ∧ t.buf.pending = [] ∧
        (out.buf.pending = [] → ∃ through, t.buf.file =
          ⟨out.buf.file.name, out.buf.file.fmode, out.buf.file.accepted ++ block.text,
            through⟩)) := by
  obtain ⟨mid, hmid, hmidValid, hwrote, hkept⟩ :=
    writeAll_spec zlib (blockPieces block) hvalid
  have hmidReady : mid.buf.opened = true ∨ mid.badbit = true := by
    cases hready with
    | inl hopen => exact .inl (hkept.opened.trans hopen)
    | inr hbad => exact .inr (hwrote.bad hbad).1
  obtain ⟨t, hflush, htValid, hflushed, hkept', hempty⟩ :=
    flush_spec zlib hmidValid (hmidReady.imp_right .inl)
  have hboth := hwrote.append hflushed
  rw [List.append_nil, blockPieces_flatten] at hboth
  refine ⟨mid, t, hmid, hflush, htValid, hboth, ?_, ?_⟩
  · cases hmidReady with
    | inl hopen => exact .inl (hkept'.opened.trans hopen)
    | inr hbad => exact .inr (hflushed.bad hbad).1
  · intro hgood
    have hkeeps := hkept.trans hkept'
    have hstart : out.badbit = false := by
      cases hbad : out.badbit with
      | false => rfl
      | true =>
        have hnot := (hboth.bad hbad).1
        rw [hgood] at hnot
        cases hnot
    refine ⟨hstart, hkeeps.closed, hempty hgood, ?_⟩
    intro hnil
    obtain ⟨front, -, houtput, hall⟩ := hboth.output
    rw [hall hgood, GzStreamBuf.output, GzStreamBuf.output, hkeeps.closed, hempty hgood, hnil,
      List.append_nil, List.append_nil, List.append_assoc] at houtput
    have hcontent := List.append_cancel_left houtput
    cases hfile : t.buf.file with
    | mk name fmode accepted through =>
      have hname := hkeeps.name
      have hfmode := hkeeps.fmode
      rw [hfile] at hname hfmode hcontent
      exact ⟨through, by rw [← hname, ← hfmode, ← hcontent]⟩

/- The aggregator when a block has been printed, before a new file is opened. -/
def shown (s : FileAggrStream) (block : Block) : FileAggrStream :=
  { s with
    _file := { s._file with blocks := s._file.blocks ++ [block] }
    traces := ∅
    pnames := ∅ }

theorem shown_onDisk (h : OnDisk s out) (block : Block) :
    ∃ mid t, writeAll zlib (blockPieces block) out = .ok mid ∧ mid.flush zlib = .ok t ∧
      OnDisk (shown s block) t := by
  obtain ⟨mid, t, hmid, hflush, hvalid, hwrote, hready, hgood⟩ :=
    print_spec zlib block h.valid h.ready
  refine ⟨mid, t, hmid, hflush, hvalid, hready, ?_, ?_⟩
  · intro hnot
    obtain ⟨hstart, hclosed, hpending, hfile⟩ := hgood hnot
    obtain ⟨hclosed', ⟨before, hfile'⟩, hpending'⟩ := h.good hstart
    obtain ⟨through, hthrough⟩ := hfile hpending'
    refine ⟨hclosed.trans hclosed', ⟨through, ?_⟩, hpending⟩
    rw [hthrough, hfile']
    simp [ofOutFile, shown, OutFile.content]
  · have hboth := h.wrote.append hwrote
    have htext : allText (shown s block) = allText s ++ block.text := by
      simp [allText, shown, FileAggrStream.blocks]
    rw [htext]
    exact hboth

theorem reopen_onDisk (h : OnDisk s out) :
    ∃ t, reopenFile zlib s out = .ok t ∧ OnDisk s.reopen t := by
  rw [reopenFile, FileAggrStream.reopen]
  by_cases hindex : s._file_index % 10 = 0
  · rw [if_pos hindex, if_pos hindex]
    have hidle : out.badbit = true ∨ out.buf.pending = [] := by
      cases hbad : out.badbit with
      | true => exact .inl rfl
      | false => exact .inr (h.good hbad).2.2
    obtain ⟨mid, hclose, hmidValid, hmidWrote, hclosed⟩ := close_spec zlib h.valid
    obtain ⟨t, hopen, hvalid, hwrote, hnew⟩ := open_spec zlib
      (outName s._file_name s._file_index) { out := true } hmidValid
    refine ⟨t, ?_, hvalid, ?_, ?_, ?_⟩
    · rw [flush_idle zlib hidle, Lib.Outcome.ok_bind, hclose, Lib.Outcome.ok_bind, hopen]
      rfl
    · cases hbad : t.badbit with
      | true => exact .inr rfl
      | false => exact .inl (hnew hbad).2.1
    · intro hgood
      obtain ⟨hmidGood, -, hfile, hsame, hpending⟩ := hnew hgood
      have hstart : out.badbit = false := by
        cases hbad : out.badbit with
        | false => rfl
        | true =>
          have hnot := (hmidWrote.bad hbad).1
          rw [hmidGood] at hnot
          cases hnot
      obtain ⟨hclosed', ⟨before, hfile'⟩, hpending'⟩ := h.good hstart
      have hopened := h.ready.resolve_right (by simp [hstart])
      obtain ⟨hmore, hempty⟩ := hclosed hopened hpending' hmidGood
      have hmode : OpenMode.fmode { out := true } = ascii "wb" := by decide
      refine ⟨?_, ⟨0, ?_⟩, hpending.trans hempty⟩
      · rw [hsame, hmore, hclosed', hfile', List.map_append]
        rfl
      · rw [hfile, hmode]
        rfl
    · have hboth := (h.wrote.append hmidWrote).append hwrote
      rw [List.append_nil, List.append_nil] at hboth
      have htext : allText s.reopen = allText s := by rw [allText, blocks_reopen, allText]
      rw [FileAggrStream.reopen, if_pos hindex] at htext
      rw [htext]
      exact hboth
  · rw [if_neg hindex, if_neg hindex]
    exact ⟨out, rfl, h⟩

/-- One call of `dispatch` keeps the disk with the aggregator. -/
theorem dispatch_onDisk {size : SizeLimit} {w : Windows} (hrefines : Refines size s w)
    (h : OnDisk s out) {call : Dispatch} (hlegal : call.Legal s) :
    ∃ t out', s.dispatch call = some t ∧ dispatchFile zlib s call out = some (.ok out') ∧
      OnDisk t out' := by
  have hadd : OnDisk (s.addAll call.records) out := by
    rw [addAll_fields]
    exact ⟨h.valid, h.ready, h.good, h.wrote⟩
  obtain ⟨t, hdispatch, -⟩ := dispatch_refines hrefines hlegal
  simp only [FileAggrStream.dispatch] at hdispatch
  simp only [FileAggrStream.dispatch, dispatchFile]
  by_cases hfull : toSizeT (s.addAll call.records)._size ≤ (s.addAll call.records).traces.keys.card
  · rw [if_pos hfull] at hdispatch ⊢
    rw [if_pos hfull]
    simp only [FileAggrStream.print_all, Option.bind_eq_bind, Option.bind_eq_some_iff] at hdispatch
    obtain ⟨lines, hlines, ht⟩ := hdispatch
    obtain ⟨mid, flushed, hmid, hflush, hshown⟩ := shown_onDisk zlib hadd
      ⟨(s.addAll call.records).traces.keys.card, call.ms, lines⟩
    obtain ⟨out', hreopen, hdisk⟩ := reopen_onDisk zlib hshown
    refine ⟨_, out', ?_, ?_, hdisk⟩
    · rw [FileAggrStream.print_all, hlines]
      rfl
    · rw [hlines, Option.map_some, hmid, Lib.Outcome.ok_bind, hflush, Lib.Outcome.ok_bind]
      exact congrArg some hreopen
  · rw [if_neg hfull, if_neg hfull]
    exact ⟨_, out, rfl, rfl, hadd⟩

end

theorem onDisk_init (zlib : Zlib) (name : List Byte) (size : SizeLimit) :
    OnDisk (.make name size.value)
      (({} : OGzStream).open zlib (outName name 10) { out := true }) := by
  have hvalid : OGzStream.Valid {} := ⟨Nat.zero_le _, fun _ => rfl, by simp⟩
  obtain ⟨t, hopen, hvalid', hwrote, hnew⟩ :=
    open_spec zlib (outName name 10) { out := true } hvalid
  rw [hopen]
  refine ⟨hvalid', ?_, ?_, hwrote⟩
  · cases hbad : t.badbit with
    | true => exact .inr rfl
    | false => exact .inl (hnew hbad).2.1
  · intro hgood
    obtain ⟨-, -, hfile, hclosed, hpending⟩ := hnew hgood
    have hmode : OpenMode.fmode { out := true } = ascii "wb" := by decide
    exact ⟨hclosed, ⟨0, by rw [hfile, hmode]; rfl⟩, hpending⟩

/-- Whatever zlib does, `dispatch` always comes to its end, without a store outside the buffer
and without a missing name. While the stream is good, a file that has been closed has on disk every
byte of its blocks, zlib has taken every byte of the open one's, and what it has written of it are
the first of them; and at any time, what zlib has taken and what is in the buffer are the first of
the bytes of all blocks. -/
theorem aggregated_on_disk {zlib : Zlib} {name : List Byte} {size : SizeLimit}
    {calls : List Dispatch} {s : FileAggrStream} {out : OGzStream}
    (h : (disk zlib name size).Run calls (s, out)) :
    (∀ call : Dispatch, call.Legal s → ∃ t, (disk zlib name size).step call (s, out) t) ∧
      (out.badbit = false →
        (out.buf.closed.map fun file => (file.name, file.onDisk)) =
            (s.finished.map fun file => (file.name, file.content)) ∧
          out.buf.file.name = s._file.name ∧ out.buf.file.accepted = s._file.content ∧
          out.buf.file.onDisk <+: s._file.content ∧ out.buf.pending = []) ∧
      out.buf.output <+: allText s := by
  have hboth : Refines size s (windows size.value.toNat (calls.map Dispatch.records)) ∧
      OnDisk s out := by
    refine h.invariant (I := fun calls s =>
      Refines size s.1 (windows size.value.toNat (calls.map Dispatch.records)) ∧
        OnDisk s.1 s.2) ?_ ?_
    · intro s hinit
      obtain rfl := hinit
      exact ⟨⟨⟨rfl, rfl, rfl, .nil⟩, Int.lt_toNat.mpr size.positive⟩, onDisk_init zlib name size⟩
    · intro calls call s t hboth hstep
      obtain ⟨hlegal, hdispatch, hfile⟩ := hstep
      obtain ⟨t', hdispatch', hrefines⟩ := dispatch_refines hboth.1 hlegal
      obtain ⟨t'', out', hdispatch'', hfile', hdisk⟩ :=
        dispatch_onDisk zlib hboth.1 hboth.2 hlegal
      rw [hdispatch, Option.some.injEq] at hdispatch' hdispatch''
      rw [hfile, Option.some.injEq, Except.ok.injEq] at hfile'
      rw [List.map_append, List.map_singleton, windows_snoc, hfile']
      rw [← hdispatch'] at hrefines
      rw [← hdispatch''] at hdisk
      exact ⟨hrefines, hdisk⟩
  obtain ⟨hrefines, hdisk⟩ := hboth
  refine ⟨?_, ?_, ?_⟩
  · intro call hlegal
    obtain ⟨t, out', hdispatch, hfile, -⟩ :=
      dispatch_onDisk zlib hrefines hdisk hlegal
    exact ⟨(t, out'), hlegal, hdispatch, hfile⟩
  · intro hgood
    obtain ⟨hclosed, ⟨through, hfile⟩, hpending⟩ := hdisk.good hgood
    refine ⟨?_, ?_, ?_, ?_, hpending⟩
    · rw [hclosed, List.map_map]
      apply List.map_congr_left
      intro file _
      simp [closedFile, ofOutFile, GzFile.onDisk]
    · rw [hfile, ofOutFile]
    · rw [hfile, ofOutFile]
    · rw [hfile]
      exact List.take_prefix through s._file.content
  · obtain ⟨front, hfront, houtput, -⟩ := hdisk.wrote.output
    rw [houtput]
    exact hfront

/- A zlib that never fails and waits for `gzclose`. -/
def waiting : Zlib := ⟨fun _ => true, fun _ => 0⟩

/-- With a full disk, the second pack finds it so; with a zlib that waits for `gzclose` nothing of
the block that it prints is on disk. -/
theorem aggregated_on_disk_twoPacks :
    (∃ s out, (disk fullDisk (ascii "log") ⟨2, by decide, by decide⟩).Run twoPacks (s, out) ∧
      out.badbit = true ∧ out.buf.output <+: allText s) ∧
    ∃ s out, (disk waiting (ascii "log") ⟨2, by decide, by decide⟩).Run twoPacks (s, out) ∧
      out.badbit = false ∧ s._file.content ≠ [] ∧ out.buf.file.accepted = s._file.content ∧
        out.buf.file.onDisk = [] := by
  have hstart (zlib : Zlib) : (disk zlib (ascii "log") ⟨2, by decide, by decide⟩).Run []
      (.make (ascii "log") 2, ({} : OGzStream).open zlib (outName (ascii "log") 10)
        { out := true }) := .start rfl
  constructor
  · have hfirst := (hstart fullDisk).next (l := twoPacks[0]) (t := (_, _)) ⟨by decide, rfl, rfl⟩
    have hsecond := hfirst.next (l := twoPacks[1]) (t := (_, _)) ⟨by decide, rfl, rfl⟩
    exact ⟨_, _, hsecond, rfl, (aggregated_on_disk hsecond).2.2⟩
  · have hfirst := (hstart waiting).next (l := twoPacks[0]) (t := (_, _)) ⟨by decide, rfl, rfl⟩
    have hsecond := hfirst.next (l := twoPacks[1]) (t := (_, _)) ⟨by decide, rfl, rfl⟩
    have hgood := (aggregated_on_disk hsecond).2.1 rfl
    exact ⟨_, _, hsecond, rfl, by decide, hgood.2.2.1, rfl⟩

end SyscallSensor.AggrDisk
