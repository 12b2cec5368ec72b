import SyscallSensor.Events
import SyscallSensor.Lib.EndMarked

/-! The reader thread, `_read_stream`: blocks of the trace pipe, cut into lines and enqueued
in groups. Both of its loops test `eof()` alone, so the outer one runs on fuel here. -/
namespace SyscallSensor.ReadStream
open Lib.Pieces
open Text

def READ_BUFFER_SIZE : Nat := 1024
def BULK_CAPACITY : Nat := 512

/- `std::ifstream`: the bytes the file still delivers, whether a read error follows them in
   place of the end of the file, and the state bits. -/
structure IfStream where
  pending : List Byte
  broken : Bool
  eofbit : Bool
  failbit : Bool
  badbit : Bool
deriving DecidableEq, Repr

def IfStream.opened (content : List Byte) : IfStream := ⟨content, false, false, false, false⟩

def IfStream.good (s : IfStream) : Bool := !(s.eofbit || s.failbit || s.badbit)

/-- `read(line, n)`: the `gcount()` bytes stored, and the stream after the call. -/
def IfStream.read (s : IfStream) (n : Nat) : List Byte × IfStream :=
  if s.good then
    if n ≤ s.pending.length then (s.pending.take n, { s with pending := s.pending.drop n })
    else if s.broken then ([], { s with pending := [], badbit := true })
    else (s.pending, { s with pending := [], eofbit := true, failbit := true })
  else ([], { s with failbit := true })

structure Reader where
  trace_pipe : IfStream
  last_line : List Byte
  watch : EventsWatch

/-- One turn of the inner loop. -/
def readBlock (r : Reader) : EventsBulk × Reader :=
  let (line, trace_pipe) := r.trace_pipe.read READ_BUFFER_SIZE
  let str_line := r.last_line ++ line
  let str_line := if trace_pipe.eofbit then str_line ++ [newline] else str_line
  -- `last_line` was moved from, so `split_string` appends to an empty string
  let split := splitString str_line newline []
  -- a buffer from the heap comes with the carry or with `append`, and `resize` keeps it
  (.make (decide (str_line.length ≤ LOCAL_CAPACITY)) split.str split.strings,
    ⟨trace_pipe, split.last_line, r.watch.add split.strings.length⟩)

/-- The inner loop, with `slots` entries of `bulks` left. -/
def readBulks : Nat → Reader → List EventsBulk × Reader
  | 0, r => ([], r)
  | slots + 1, r =>
    if r.trace_pipe.eofbit then ([], r)
    else
      let (bulk, r) := readBlock r
      let (bulks, r) := readBulks slots r
      (bulk :: bulks, r)

/-- The outer loop: one group of bulks for each call of `enqueue_bulk`. -/
def readLoop : Nat → Reader → Option (List (List EventsBulk) × Reader)
  | 0, _ => none
  | fuel + 1, r =>
    let (bulks, r) := readBulks BULK_CAPACITY r
    if r.trace_pipe.eofbit then some ([bulks], r)
    else (readLoop fuel r).map fun (groups, r) => (bulks :: groups, r)

structure ReadRun where
  groups : List (List EventsBulk)
  watch : EventsWatch

def readStream (fuel : Nat) (trace_pipe : IfStream) : Option ReadRun :=
  (readLoop fuel ⟨trace_pipe, [], {}⟩).map fun (groups, r) => ⟨groups, r.watch.stop⟩

/-- What a run puts into the stream queue, `nullptr` included. -/
def ReadRun.queue (run : ReadRun) : List (Option EventsBulk) :=
  Lib.EndMarked.marked run.groups.flatten

def linesOf (bulks : List EventsBulk) : List StringRef := bulks.flatMap EventsBulk._lines

def ReadRun.lines (run : ReadRun) : List StringRef := linesOf run.queue.reduceOption

/- A full block keeps its last byte unless that byte alone follows a newline. -/
def kept (block : List Byte) : List Byte :=
  if block[READ_BUFFER_SIZE - 2]? = some newline ∧
      block[READ_BUFFER_SIZE - 1]? ≠ some newline then block.dropLast
  else block

/-- The content without the bytes that the block boundaries make the reader drop. -/
def survivors (content : List Byte) : List Byte :=
  if READ_BUFFER_SIZE ≤ content.length then
    kept (content.take READ_BUFFER_SIZE) ++ survivors (content.drop READ_BUFFER_SIZE)
  else content
termination_by content.length
decreasing_by
  rw [READ_BUFFER_SIZE] at *
  rw [List.length_drop]
  omega

theorem read_opened_full {content : List Byte} (h : READ_BUFFER_SIZE ≤ content.length) :
    (IfStream.opened content).read READ_BUFFER_SIZE =
      (content.take READ_BUFFER_SIZE, .opened (content.drop READ_BUFFER_SIZE)) := by
  simp [IfStream.read, IfStream.opened, IfStream.good, h]

theorem read_opened_short {content : List Byte} (h : content.length < READ_BUFFER_SIZE) :
    (IfStream.opened content).read READ_BUFFER_SIZE = (content, ⟨[], false, true, true, false⟩) := by
  have hn : ¬ READ_BUFFER_SIZE ≤ content.length := by omega
  simp [IfStream.read, IfStream.opened, IfStream.good, hn]

/-- The bulk made from a string has the complete pieces as its lines. -/
theorem bulk_lines (str last_line : List Byte) :
    ∃ lines tail, lines ++ [tail] = str.splitOn newline ∧
      (splitString str newline last_line).last_line = last_line ++ carry tail ∧
      List.Forall₂ (StringRef.CutFrom (decide (str.length ≤ LOCAL_CAPACITY)))
        (EventsBulk.make (decide (str.length ≤ LOCAL_CAPACITY)) (splitString str newline last_line).str
          (splitString str newline last_line).strings)._lines lines := by
  obtain ⟨tail, htexts, hcarry, hbuffer, hrefs⟩ := splitString_spec str newline last_line
  exact ⟨_, tail, htexts, hcarry, EventsBulk.make_cut hbuffer of_decide_eq_true hrefs⟩

/-- The string of a full block has its bytes on the heap, and its lines can be read. -/
theorem readBlock_full {r : Reader} {content : List Byte} (hpipe : r.trace_pipe = .opened content)
    (h : READ_BUFFER_SIZE ≤ content.length) :
    ∃ lines tail, lines ++ [tail] =
        (r.last_line ++ content.take READ_BUFFER_SIZE).splitOn newline ∧
      List.Forall₂ StringRef.Holds (readBlock r).1._lines lines ∧
      (readBlock r).2.trace_pipe = .opened (content.drop READ_BUFFER_SIZE) ∧
      (readBlock r).2.last_line = carry tail := by
  obtain ⟨lines, tail, htexts, hcarry, hlines⟩ :=
    bulk_lines (r.last_line ++ content.take READ_BUFFER_SIZE) []
  rw [List.nil_append] at hcarry
  have hheap : decide ((r.last_line ++ content.take READ_BUFFER_SIZE).length ≤ LOCAL_CAPACITY) =
      false := by
    rw [decide_eq_false_iff_not, List.length_append, List.length_take, LOCAL_CAPACITY]
    rw [READ_BUFFER_SIZE] at *
    omega
  have heof (rest : List Byte) : (IfStream.opened rest).eofbit = false := rfl
  refine ⟨lines, tail, htexts, ?_, ?_, ?_⟩ <;>
    simp only [readBlock, hpipe, read_opened_full h, heof, Bool.false_eq_true, if_false]
  · rw [hheap] at hlines ⊢
    exact hlines
  · exact hcarry

/-- The short block ends the stream, and the newline added to it completes the last line. -/
theorem readBlock_short {r : Reader} {content : List Byte} (hpipe : r.trace_pipe = .opened content)
    (h : content.length < READ_BUFFER_SIZE) :
    List.Forall₂ (StringRef.CutFrom (decide ((r.last_line ++ content).length < LOCAL_CAPACITY)))
        (readBlock r).1._lines ((r.last_line ++ content).splitOn newline) ∧
      (readBlock r).2.trace_pipe.eofbit = true := by
  obtain ⟨lines, tail, htexts, -, hlines⟩ := bulk_lines (r.last_line ++ content ++ [newline]) []
  rw [Lib.Pieces.splitOn_snoc_separator] at htexts
  rw [(List.append_inj' htexts rfl).1] at hlines
  have hsize : decide ((r.last_line ++ content ++ [newline]).length ≤ LOCAL_CAPACITY) =
      decide ((r.last_line ++ content).length < LOCAL_CAPACITY) := by
    rw [List.length_append, List.length_singleton]
    rfl
  constructor <;> simp only [readBlock, hpipe, read_opened_short h]
  rw [hsize] at hlines
  simp only [if_true, hsize]
  exact hlines

/-- A block that ends with a newline and one other byte. -/
theorem exists_lone {block : List Byte} (hlen : block.length = READ_BUFFER_SIZE) :
    (block[READ_BUFFER_SIZE - 2]? = some newline ∧
      block[READ_BUFFER_SIZE - 1]? ≠ some newline) ↔
    ∃ front e, block = front ++ newline :: [e] ∧ e ≠ newline := by
  rw [READ_BUFFER_SIZE] at *
  constructor
  · intro h
    obtain ⟨hnl, hlast⟩ := h
    have h1023 : 1023 < block.length := by omega
    have hcut : block.drop 1022 = [block[1022], block[1023]] := by
      rw [List.drop_eq_getElem_cons (by omega), List.drop_eq_getElem_cons (by omega),
        List.drop_of_length_le (by omega)]
    refine ⟨block.take 1022, block[1023], ?_, ?_⟩
    · have hd : block[1022] = newline :=
        Option.some.inj ((List.getElem?_eq_getElem (by omega)).symm.trans hnl)
      rw [← hd, ← hcut, List.take_append_drop]
    · simpa [h1023] using hlast
  · intro h
    obtain ⟨front, e, rfl, he⟩ := h
    have hfront : front.length = 1022 := by simpa using hlen
    constructor
    · simp [hfront]
    · simpa [hfront] using he

/-- One full block: the lines emitted, and the carry in front of the rest, are the pieces of
what was carried in, the bytes kept of the block, and the rest. -/
theorem splitOn_block (rest : List Byte) {last_line block tail : List Byte} {ts : List (List Byte)}
    (hlen : block.length = READ_BUFFER_SIZE)
    (h : ts ++ [tail] = (last_line ++ block).splitOn newline) :
    ts ++ (carry tail ++ rest).splitOn newline =
      (last_line ++ (kept block ++ rest)).splitOn newline := by
  by_cases hlone : block[READ_BUFFER_SIZE - 2]? = some newline ∧
      block[READ_BUFFER_SIZE - 1]? ≠ some newline
  · obtain ⟨front, e, rfl, he⟩ := (exists_lone hlen).mp hlone
    have hsingle : [e].splitOn newline = [[e]] :=
      List.splitOn_eq_singleton (by simpa using he.symm)
    have hpieces : (last_line ++ (front ++ newline :: [e])).splitOn newline =
        (last_line ++ front).splitOn newline ++ [[e]] := by
      rw [← List.append_assoc, List.splitOn_append_cons_self, hsingle]
    rw [hpieces] at h
    obtain ⟨rfl, htail⟩ := List.append_inj' h rfl
    obtain rfl : tail = [e] := by simpa using htail
    have hkept : kept (front ++ newline :: [e]) = front ++ [newline] := by
      rw [kept, if_pos hlone]
      simp
    rw [hkept, List.append_assoc, List.singleton_append, ← List.append_assoc,
      List.splitOn_append_cons_self]
    rfl
  · have hkept : kept block = block := by rw [kept, if_neg hlone]
    have hcarry : carry tail = tail := by
      rw [carry, if_neg]
      intro hone
      obtain ⟨e, rfl⟩ := List.length_eq_one_iff.mp hone
      obtain ⟨hmem, ⟨-, hall⟩ | ⟨front, hcut, -⟩⟩ := Lib.Pieces.splitOn_last h.symm
      · have hshort := congrArg List.length hall
        rw [List.length_append, hlen, READ_BUFFER_SIZE] at hshort
        simp at hshort
      · apply hlone
        have hlength := congrArg List.length hcut
        have hlong : last_line.length ≤ front.length := by
          simp only [List.length_append, List.length_cons, List.length_nil, hlen,
            READ_BUFFER_SIZE] at hlength
          omega
        have hblock : block = front.drop last_line.length ++ newline :: [e] := by
          calc
            block = (last_line ++ block).drop last_line.length := by simp
            _ = front.drop last_line.length ++ newline :: [e] := by
                rw [hcut, List.drop_append_of_le_length hlong]
        refine (exists_lone hlen).mpr ⟨_, e, hblock, ?_⟩
        intro he
        exact hmem (by simp [he])
    rw [hkept, hcarry, ← List.append_assoc, Lib.Pieces.splitOn_append_of_last h.symm]

theorem survivors_full {content : List Byte} (h : READ_BUFFER_SIZE ≤ content.length) :
    survivors content = kept (content.take READ_BUFFER_SIZE) ++
      survivors (content.drop READ_BUFFER_SIZE) := by
  rw [survivors, if_pos h]

theorem survivors_short {content : List Byte} (h : content.length < READ_BUFFER_SIZE) :
    survivors content = content := by
  rw [survivors, if_neg (by omega)]

/- The bytes of the full blocks. -/
def fullBytes (content : List Byte) : Nat := READ_BUFFER_SIZE * (content.length / READ_BUFFER_SIZE)

/- The bytes whose lines the last turn of the loop cuts, with a carry in front of the content:
   what the full blocks leave behind their last newline, and the short block. -/
def turnFrom (carried content : List Byte) : List Byte :=
  behindLast newline (carried ++ survivors (content.take (fullBytes content))) ++
    content.drop (fullBytes content)

theorem fullBytes_full {content : List Byte} (h : READ_BUFFER_SIZE ≤ content.length) :
    fullBytes content = READ_BUFFER_SIZE + fullBytes (content.drop READ_BUFFER_SIZE) := by
  rw [fullBytes, fullBytes, List.length_drop, READ_BUFFER_SIZE] at *
  omega

theorem fullBytes_short {content : List Byte} (h : content.length < READ_BUFFER_SIZE) :
    fullBytes content = 0 := by
  rw [fullBytes, Nat.div_eq_of_lt h]
  rfl

theorem turnFrom_short {carried content : List Byte} (hcarried : newline ∉ carried)
    (h : content.length < READ_BUFFER_SIZE) : turnFrom carried content = carried ++ content := by
  have hnil : survivors [] = [] := survivors_short (by decide)
  rw [turnFrom, fullBytes_short h, List.take_zero, List.drop_zero, hnil, List.append_nil,
    behindLast_of_not_mem hcarried]

theorem not_mem_carry {tail : List Byte} (h : newline ∉ tail) : newline ∉ carry tail := by
  rw [carry]
  split
  · exact List.not_mem_nil
  · exact h

/-- A full block leaves its part of the last turn in the carry. -/
theorem turnFrom_full {carried content tail : List Byte} {lines : List (List Byte)}
    (h : READ_BUFFER_SIZE ≤ content.length)
    (hlines : lines ++ [tail] = (carried ++ content.take READ_BUFFER_SIZE).splitOn newline) :
    turnFrom (carry tail) (content.drop READ_BUFFER_SIZE) = turnFrom carried content := by
  have hlen : (content.take READ_BUFFER_SIZE).length = READ_BUFFER_SIZE := by
    rw [List.length_take]
    omega
  have hkept : behindLast newline (carried ++ kept (content.take READ_BUFFER_SIZE)) = carry tail := by
    have hblock := splitOn_block [] hlen hlines
    rw [List.append_nil, List.append_nil,
      List.splitOn_eq_singleton (not_mem_carry (splitOn_last hlines.symm).1)] at hblock
    exact behindLast_eq hblock.symm
  have htake (m : Nat) : survivors (content.take (READ_BUFFER_SIZE + m)) =
      kept (content.take READ_BUFFER_SIZE) ++
        survivors ((content.drop READ_BUFFER_SIZE).take m) := by
    rw [survivors_full (by rw [List.length_take]; omega), List.take_take, List.drop_take,
      Nat.min_eq_left (Nat.le_add_right _ _), Nat.add_sub_cancel_left]
  rw [turnFrom, turnFrom, fullBytes_full h, htake, ← List.append_assoc carried, behindLast_append,
    behindLast_append newline (carried ++ _), hkept, List.drop_drop,
    behindLast_of_not_mem (not_mem_carry (splitOn_last hlines.symm).1)]

/- Full blocks have been read: their lines can be read, and the carry stands in front of what is
   left as the old one stood in front of the content. -/
structure Passed (carried content carried' rest : List Byte) (refs : List StringRef)
    (lines : List (List Byte)) : Prop where
  holds : List.Forall₂ StringRef.Holds refs lines
  clean : newline ∉ carried'
  pieces : lines ++ (carried' ++ survivors rest).splitOn newline =
    (carried ++ survivors content).splitOn newline
  turn : turnFrom carried' rest = turnFrom carried content

/- All blocks have been read: the lines of the last turn stand behind lines that can be read. -/
def Emitted (turn : List Byte) (refs : List StringRef) (lines : List (List Byte)) : Prop :=
  ∃ front last first, refs = front ++ last ∧ lines = first ++ turn.splitOn newline ∧
    List.Forall₂ StringRef.Holds front first ∧
    List.Forall₂ (StringRef.CutFrom (decide (turn.length < LOCAL_CAPACITY))) last
      (turn.splitOn newline)

section
variable {carried content carried' rest : List Byte} {refs refs' : List StringRef}
  {lines lines' : List (List Byte)}

theorem Passed.trans {carried'' rest' : List Byte} (h : Passed carried content carried' rest refs lines)
    (h' : Passed carried' rest carried'' rest' refs' lines') :
    Passed carried content carried'' rest' (refs ++ refs') (lines ++ lines') where
  holds := List.rel_append h.holds h'.holds
  clean := h'.clean
  pieces := by rw [List.append_assoc, h'.pieces, h.pieces]
  turn := h'.turn.trans h.turn

theorem Passed.emitted (h : Passed carried content carried' rest refs lines)
    (h' : Emitted (turnFrom carried' rest) refs' ((carried' ++ survivors rest).splitOn newline)) :
    Emitted (turnFrom carried content) (refs ++ refs')
      ((carried ++ survivors content).splitOn newline) := by
  obtain ⟨front, last, first, rfl, hlines, hfront, hlast⟩ := h'
  rw [h.turn] at hlines hlast
  refine ⟨refs ++ front, last, lines ++ first, (List.append_assoc _ _ _).symm, ?_,
    List.rel_append h.holds hfront, hlast⟩
  rw [← h.pieces, hlines, List.append_assoc]

/-- The size of every line is right, and one that is too long for a short string can be read. -/
theorem Emitted.keeps {turn : List Byte} (h : Emitted turn refs lines) :
    List.Forall₂ StringRef.Keeps refs lines := by
  obtain ⟨front, last, first, rfl, rfl, hfront, hlast⟩ := h
  refine List.rel_append (hfront.imp ?_) (hlast.imp ?_)
  · intro ref line hholds
    have hcut : ref.CutFrom false line := hholds
    exact hcut.keeps
  · exact fun ref line hcut => hcut.keeps

end

/-- One turn with a full block. -/
theorem readBlock_passed {r : Reader} {content : List Byte} (hpipe : r.trace_pipe = .opened content)
    (h : READ_BUFFER_SIZE ≤ content.length) :
    ∃ lines, (readBlock r).2.trace_pipe = .opened (content.drop READ_BUFFER_SIZE) ∧
      Passed r.last_line content (readBlock r).2.last_line (content.drop READ_BUFFER_SIZE)
        (readBlock r).1._lines lines := by
  obtain ⟨lines, tail, htexts, hholds, hpipe', hcarry⟩ := readBlock_full hpipe h
  have hlen : (content.take READ_BUFFER_SIZE).length = READ_BUFFER_SIZE := by
    rw [List.length_take]
    omega
  have hblock := splitOn_block (survivors (content.drop READ_BUFFER_SIZE)) hlen htexts
  rw [← survivors_full h, ← hcarry] at hblock
  refine ⟨lines, hpipe', hholds, ?_, hblock, ?_⟩
  · rw [hcarry]
    exact not_mem_carry (splitOn_last htexts.symm).1
  · rw [hcarry]
    exact turnFrom_full h htexts

theorem readBulks_end {r : Reader} (slots : Nat) (h : r.trace_pipe.eofbit = true) :
    readBulks slots r = ([], r) := by
  cases slots with
  | zero => rfl
  | succ slots => rw [readBulks, if_pos h]

/-- The inner loop: it reaches the end of the file, or it fills all of its slots. Either way
no byte is lost or doubled but the ones `survivors` leaves out. -/
theorem readBulks_spec (slots : Nat) {r : Reader} {content : List Byte}
    (hpipe : r.trace_pipe = .opened content) (hclean : newline ∉ r.last_line) :
    ((readBulks slots r).2.trace_pipe.eofbit = true ∧
      Emitted (turnFrom r.last_line content) (linesOf (readBulks slots r).1)
        ((r.last_line ++ survivors content).splitOn newline)) ∨
    ∃ rest lines, (readBulks slots r).2.trace_pipe = .opened rest ∧
      rest.length + READ_BUFFER_SIZE * slots = content.length ∧
      Passed r.last_line content (readBulks slots r).2.last_line rest
        (linesOf (readBulks slots r).1) lines := by
  induction slots generalizing r content with
  | zero => exact .inr ⟨content, [], hpipe, by simp, .nil, hclean, by simp [readBulks], rfl⟩
  | succ slots ih =>
    have heof : r.trace_pipe.eofbit = false := by rw [hpipe]; rfl
    simp only [readBulks, heof, Bool.false_eq_true, if_false, linesOf, List.flatMap_cons]
    by_cases hlong : READ_BUFFER_SIZE ≤ content.length
    · obtain ⟨lines, hpipe', hpassed⟩ := readBlock_passed hpipe hlong
      obtain ⟨hend, hemitted⟩ | ⟨rest, lines', hpipe'', hused, hpassed'⟩ := ih hpipe' hpassed.clean
      · exact .inl ⟨hend, hpassed.emitted hemitted⟩
      · refine .inr ⟨rest, lines ++ lines', hpipe'', ?_, hpassed.trans hpassed'⟩
        rw [List.length_drop, READ_BUFFER_SIZE] at *
        omega
    · have hshort : content.length < READ_BUFFER_SIZE := by omega
      obtain ⟨hlines, hend⟩ := readBlock_short hpipe hshort
      have hstop := readBulks_end slots hend
      refine .inl ⟨?_, [], (readBlock r).1._lines, [], ?_, ?_, .nil, ?_⟩
      · rw [hstop]
        exact hend
      · rw [hstop, List.flatMap_nil, List.append_nil, List.nil_append]
      · rw [turnFrom_short hclean hshort, survivors_short hshort, List.nil_append]
      · rw [turnFrom_short hclean hshort]
        exact hlines

/-- The outer loop emits the pieces of the carry and the surviving bytes. -/
theorem readLoop_lines {fuel : Nat} {r : Reader} {content : List Byte}
    (hpipe : r.trace_pipe = .opened content) (hclean : newline ∉ r.last_line)
    {groups : List (List EventsBulk)} {r' : Reader} (h : readLoop fuel r = some (groups, r')) :
    Emitted (turnFrom r.last_line content) (linesOf groups.flatten)
      ((r.last_line ++ survivors content).splitOn newline) := by
  induction fuel generalizing r content groups r' with
  | zero => simp [readLoop] at h
  | succ fuel ih =>
    simp only [readLoop] at h
    obtain ⟨hend, hemitted⟩ | ⟨rest, lines, hpipe', -, hpassed⟩ :=
      readBulks_spec BULK_CAPACITY hpipe hclean
    · simp only [hend, if_true, Option.some.injEq, Prod.mk.injEq] at h
      rwa [← h.1, List.flatten_singleton]
    · have heof : (readBulks BULK_CAPACITY r).2.trace_pipe.eofbit = false := by rw [hpipe']; rfl
      simp only [heof, Bool.false_eq_true, if_false, Option.map_eq_some_iff] at h
      obtain ⟨⟨later, r''⟩, hrec, hpair⟩ := h
      obtain ⟨rfl, rfl⟩ := Prod.mk.inj hpair
      have hlater := hpassed.emitted (ih hpipe' hpassed.clean hrec)
      simpa [linesOf] using hlater

/-- Each turn of the outer loop that does not end it consumes bytes, so it ends. -/
theorem readLoop_returns {fuel : Nat} {r : Reader} {content : List Byte}
    (hpipe : r.trace_pipe = .opened content) (hclean : newline ∉ r.last_line)
    (h : content.length < fuel) :
    ∃ out, readLoop fuel r = some out := by
  induction fuel generalizing r content with
  | zero => omega
  | succ fuel ih =>
    simp only [readLoop]
    obtain ⟨hend, -⟩ | ⟨rest, lines, hpipe', hused, hpassed⟩ :=
      readBulks_spec BULK_CAPACITY hpipe hclean
    · exact ⟨_, by rw [if_pos hend]⟩
    · have heof : (readBulks BULK_CAPACITY r).2.trace_pipe.eofbit = false := by rw [hpipe']; rfl
      obtain ⟨out, hout⟩ := ih hpipe' hpassed.clean (by rw [READ_BUFFER_SIZE, BULK_CAPACITY] at hused; omega)
      exact ⟨_, by rw [heof, hout]; rfl⟩

/-- Every content is read to its end, and the lines enqueued are those of the bytes that
survive the block boundaries. -/
theorem readStream_emitted {fuel : Nat} {content : List Byte} {run : ReadRun}
    (h : readStream fuel (.opened content) = some run) :
    Emitted (turnFrom [] content) run.lines ((survivors content).splitOn newline) := by
  simp only [readStream, Option.map_eq_some_iff] at h
  obtain ⟨⟨groups, r⟩, hloop, rfl⟩ := h
  have hlines := readLoop_lines rfl List.not_mem_nil hloop
  rw [List.nil_append] at hlines
  rwa [ReadRun.lines, ReadRun.queue, Lib.EndMarked.reduceOption_marked]

theorem readStream_lines {fuel : Nat} {content : List Byte} {run : ReadRun}
    (h : readStream fuel (.opened content) = some run) :
    List.Forall₂ StringRef.Keeps run.lines ((survivors content).splitOn newline) :=
  (readStream_emitted h).keeps

theorem readStream_returns (content : List Byte) :
    ∃ fuel run, readStream fuel (.opened content) = some run := by
  obtain ⟨out, hout⟩ := readLoop_returns (r := ⟨.opened content, [], {}⟩) rfl List.not_mem_nil
    (Nat.lt_succ_self content.length)
  exact ⟨_, _, by rw [readStream, hout]; rfl⟩

/-- A short content without a newline is one line in one bulk. -/
theorem readStream_line {line : List Byte} (hnot : newline ∉ line)
    (hlen : line.length < READ_BUFFER_SIZE) :
    readStream 1 (.opened line) = some
      ⟨[[.make (decide (line.length < LOCAL_CAPACITY)) (line ++ [newline])
        [⟨line ++ [newline], 0, line.length⟩]]], ⟨1, 1, true⟩⟩ := by
  have hsplit : splitString (line ++ [newline]) newline [] =
      ⟨[⟨line ++ [newline], 0, line.length⟩], line ++ [newline], []⟩ := by
    have hend : ¬ line.length + 1 < sizeMinusOne (line ++ [newline]).length := by
      rw [sizeMinusOne, List.length_append, List.length_singleton, if_neg (by omega)]
      omega
    rw [splitString, splitLoop_ended hnot]
    exact if_neg hend
  have hlocal : decide ((line ++ [newline]).length ≤ LOCAL_CAPACITY) =
      decide (line.length < LOCAL_CAPACITY) := by
    rw [List.length_append, List.length_singleton]
    rfl
  have hblock : readBlock ⟨.opened line, [], {}⟩ =
      (.make (decide (line.length < LOCAL_CAPACITY)) (line ++ [newline])
        [⟨line ++ [newline], 0, line.length⟩],
        ⟨⟨[], false, true, true, false⟩, [], ⟨1, 1, false⟩⟩) := by
    simp only [readBlock, read_opened_short hlen, if_true, List.nil_append, hsplit, hlocal]
    rfl
  have hbulks (slots : Nat) : readBulks (slots + 1) ⟨.opened line, [], {}⟩ =
      ([.make (decide (line.length < LOCAL_CAPACITY)) (line ++ [newline])
        [⟨line ++ [newline], 0, line.length⟩]],
        ⟨⟨[], false, true, true, false⟩, [], ⟨1, 1, false⟩⟩) := by
    have hopen : ¬ (IfStream.opened line).eofbit = true := Bool.false_ne_true
    have hend : readBulks slots ⟨⟨[], false, true, true, false⟩, [], ⟨1, 1, false⟩⟩ =
        ([], ⟨⟨[], false, true, true, false⟩, [], ⟨1, 1, false⟩⟩) := readBulks_end slots rfl
    rw [readBulks, if_neg hopen, hblock]
    simp only [hend]
  have hcapacity := hbulks 511
  change readBulks BULK_CAPACITY _ = _ at hcapacity
  rw [readStream, readLoop, hcapacity]
  rfl

/- No full block ends with a newline and one byte more: the condition that keeps every byte. -/
def NoLoneByte (content : List Byte) : Prop :=
  ∀ k, READ_BUFFER_SIZE * (k + 1) ≤ content.length →
    content[READ_BUFFER_SIZE * (k + 1) - 2]? = some newline →
    content[READ_BUFFER_SIZE * (k + 1) - 1]? = some newline

theorem kept_eq_iff {block : List Byte} (hne : block ≠ []) :
    kept block = block ↔
      (block[READ_BUFFER_SIZE - 2]? = some newline →
        block[READ_BUFFER_SIZE - 1]? = some newline) := by
  have hdrop : block.dropLast ≠ block := by
    intro h
    have hlen := congrArg List.length h
    have hpos := List.length_pos_iff.mpr hne
    rw [List.length_dropLast] at hlen
    omega
  unfold kept
  split
  · rename_i hlone
    exact ⟨fun h => absurd h hdrop, fun h => absurd (h hlone.1) hlone.2⟩
  · rename_i hlone
    exact ⟨fun _ hnl => Classical.not_not.mp fun hlast => hlone ⟨hnl, hlast⟩, fun _ => rfl⟩

/-- The condition looks at one full block after the other. -/
theorem noLoneByte_full {content : List Byte} (h : READ_BUFFER_SIZE ≤ content.length) :
    NoLoneByte content ↔
      kept (content.take READ_BUFFER_SIZE) = content.take READ_BUFFER_SIZE ∧
        NoLoneByte (content.drop READ_BUFFER_SIZE) := by
  have hne : content.take READ_BUFFER_SIZE ≠ [] := by
    intro hnil
    have hlen := congrArg List.length hnil
    rw [List.length_take, List.length_nil, READ_BUFFER_SIZE] at hlen
    rw [READ_BUFFER_SIZE] at h
    omega
  rw [kept_eq_iff hne, List.getElem?_take_of_lt (by decide), List.getElem?_take_of_lt (by decide)]
  simp only [NoLoneByte, List.length_drop, List.getElem?_drop]
  constructor
  · intro hall
    refine ⟨fun hnl => hall 0 h hnl, ?_⟩
    intro k hk hnl
    have hnext := hall (k + 1)
    rw [READ_BUFFER_SIZE] at *
    have hminus (d : Nat) (hd : d ≤ 1024) :
        1024 * (k + 1 + 1) - d = 1024 + (1024 * (k + 1) - d) := by omega
    rw [hminus 2 (by omega), hminus 1 (by omega)] at hnext
    exact hnext (by omega) hnl
  · intro hboth k hk hnl
    cases k with
    | zero => exact hboth.1 hnl
    | succ k =>
      have hnext := hboth.2 k
      rw [READ_BUFFER_SIZE] at *
      have hminus (d : Nat) (hd : d ≤ 1024) :
          1024 * (k + 1 + 1) - d = 1024 + (1024 * (k + 1) - d) := by omega
      rw [hminus 2 (by omega)] at hnl
      rw [hminus 1 (by omega)]
      exact hnext (by omega) hnl

theorem kept_length_le (block : List Byte) : (kept block).length ≤ block.length := by
  unfold kept
  split
  · simp
  · exact Nat.le_refl _

theorem survivors_length_le (content : List Byte) :
    (survivors content).length ≤ content.length := by
  fun_induction survivors content with
  | case1 content h ih =>
    have hkept := kept_length_le (content.take READ_BUFFER_SIZE)
    rw [List.length_append]
    rw [List.length_take] at hkept
    rw [List.length_drop] at ih
    omega
  | case2 content h => exact Nat.le_refl _

theorem count_kept {block : List Byte} (h : block.length = READ_BUFFER_SIZE) :
    (kept block).count newline = block.count newline := by
  unfold kept
  split
  · rename_i hlone
    obtain rfl | ⟨front, last, rfl⟩ := List.eq_nil_or_concat' block
    · rfl
    · rw [List.length_append, List.length_singleton] at h
      -- the byte that is dropped is no newline
      have hlast : newline ≠ last := by
        rw [← h, Nat.add_sub_cancel, List.getElem?_concat_length] at hlone
        exact fun heq => hlone.2 (congrArg some heq.symm)
      rw [List.dropLast_concat, List.count_append, List.count_singleton, beq_false_of_ne hlast.symm]
      rfl
  · rfl

/-- What is dropped takes no line with it. -/
theorem survivors_lines (content : List Byte) :
    ((survivors content).splitOn newline).length = (content.splitOn newline).length := by
  rw [length_splitOn, length_splitOn, Nat.add_right_cancel_iff]
  fun_induction survivors content with
  | case1 content h ih =>
    rw [List.count_append, count_kept (List.length_take_of_le h), ih, ← List.count_append,
      List.take_append_drop]
  | case2 content h => rfl

/-- Every byte survives exactly when no block boundary leaves a lone byte. -/
theorem survivors_eq_iff (content : List Byte) :
    survivors content = content ↔ NoLoneByte content := by
  fun_induction survivors content with
  | case1 content h ih =>
    rw [noLoneByte_full h, ← ih]
    constructor
    · intro heq
      have hkept := kept_length_le (content.take READ_BUFFER_SIZE)
      have hrest := survivors_length_le (content.drop READ_BUFFER_SIZE)
      have hlen := congrArg List.length heq
      rw [List.length_append] at hlen
      have hblock : (kept (content.take READ_BUFFER_SIZE)).length =
          (content.take READ_BUFFER_SIZE).length := by
        rw [List.length_take] at hkept ⊢
        rw [List.length_drop] at hrest
        omega
      exact List.append_inj (heq.trans (List.take_append_drop READ_BUFFER_SIZE content).symm) hblock
    · intro hboth
      rw [hboth.1, hboth.2, List.take_append_drop]
  | case2 content h =>
    refine ⟨fun _ k hk => ?_, fun _ => rfl⟩
    rw [READ_BUFFER_SIZE] at *
    omega

/- What the last turn of the loop cuts into lines: the bytes behind the last newline of the full
   blocks, and the short block. -/
def lastTurn (content : List Byte) : List Byte :=
  behindLast newline (content.take (fullBytes content)) ++ content.drop (fullBytes content)

/- With the newline at its end it does not fit into a string without a buffer on the heap, or
   nothing has to be read from it. -/
def OutlivesMove (turn : List Byte) : Prop :=
  LOCAL_CAPACITY ≤ turn.length ∨ ∀ b ∈ turn, b = newline

/- The lines as they read when the bulks have been enqueued. -/
def ReadRun.read (run : ReadRun) : Except Fault (List (List Byte)) :=
  run.lines.mapM StringRef.read

/- The reader returns, and it has enqueued the lines of the whole content, in order. -/
def DeliversContent (content : List Byte) : Prop :=
  ∃ fuel run, readStream fuel (.opened content) = some run ∧
    run.read = .ok (content.splitOn newline)

theorem NoLoneByte.take {content : List Byte} (h : NoLoneByte content) (n : Nat) :
    NoLoneByte (content.take n) := by
  intro k hk hnl
  rw [List.length_take] at hk
  have hcut (d : Nat) (hd : 1 ≤ d) : (content.take n)[READ_BUFFER_SIZE * (k + 1) - d]? =
      content[READ_BUFFER_SIZE * (k + 1) - d]? :=
    List.getElem?_take_of_lt (by rw [READ_BUFFER_SIZE] at *; omega)
  rw [hcut 2 (by decide)] at hnl
  rw [hcut 1 (by decide)]
  exact h k (by omega) hnl

theorem turnFrom_nil {content : List Byte} (h : NoLoneByte content) :
    turnFrom [] content = lastTurn content := by
  rw [turnFrom, List.nil_append, (survivors_eq_iff _).mpr (h.take _), lastTurn]

/-- The lines of a run can be read when those of its last turn can. -/
theorem Emitted.read_iff {turn : List Byte} {refs : List StringRef} {lines bytes : List (List Byte)}
    (h : Emitted turn refs lines) :
    refs.mapM StringRef.read = .ok bytes ↔ OutlivesMove turn ∧ bytes = lines := by
  obtain ⟨front, last, first, rfl, rfl, hfront, hlast⟩ := h
  have hread {isLocal : Bool} {refs : List StringRef} {lines bytes : List (List Byte)}
      (hcut : List.Forall₂ (StringRef.CutFrom isLocal) refs lines) :
      refs.mapM StringRef.read = .ok bytes ↔
        (∀ line ∈ lines, isLocal = true → line = []) ∧ bytes = lines :=
    Lib.Outcome.mapM_eq_ok_of_forall₂ (fun ref line hline bytes => hline.read_iff) hcut
  have houtlives : (∀ line ∈ turn.splitOn newline,
      decide (turn.length < LOCAL_CAPACITY) = true → line = []) ↔ OutlivesMove turn := by
    rw [OutlivesMove, ← splitOn_all_nil]
    by_cases hshort : turn.length < LOCAL_CAPACITY
    · simp [hshort]
    · simp [hshort, Nat.le_of_not_lt hshort]
  have hheap : List.Forall₂ (StringRef.CutFrom false) front first := hfront
  have hall : ∀ line ∈ first, false = true → line = [] := fun _ _ hfalse => absurd hfalse (by decide)
  simp only [List.mapM_append, Lib.Outcome.bind_eq_ok, hread hheap, hread hlast,
    houtlives, pure, Except.pure, Except.ok.injEq]
  constructor
  · rintro ⟨_, ⟨-, rfl⟩, _, ⟨houtlives, rfl⟩, rfl⟩
    exact ⟨houtlives, rfl⟩
  · rintro ⟨houtlives, rfl⟩
    exact ⟨_, ⟨hall, rfl⟩, _, ⟨houtlives, rfl⟩, rfl⟩

/-- Chunked reading delivers every line of a content, wherever the block boundaries fall in
its lines, exactly when no full block ends one byte after a newline and the string of the last
turn of the loop outlives its move into the bulk. -/
theorem chunked_reading_iff (content : List Byte) :
    DeliversContent content ↔ NoLoneByte content ∧ OutlivesMove (lastTurn content) := by
  rw [← survivors_eq_iff]
  constructor
  · intro h
    obtain ⟨fuel, run, hrun, hread⟩ := h
    obtain ⟨houtlives, hlines⟩ := (readStream_emitted hrun).read_iff.mp hread
    have hsurvive := (splitOn_injective newline hlines).symm
    rw [turnFrom_nil ((survivors_eq_iff content).mp hsurvive)] at houtlives
    exact ⟨hsurvive, houtlives⟩
  · intro h
    obtain ⟨hsurvive, houtlives⟩ := h
    obtain ⟨fuel, run, hrun⟩ := readStream_returns content
    refine ⟨fuel, run, hrun, (readStream_emitted hrun).read_iff.mpr ⟨?_, by rw [hsurvive]⟩⟩
    rwa [turnFrom_nil ((survivors_eq_iff content).mp hsurvive)]

/-- A line of 1022 bytes, its newline, and a last line of one byte: the last line comes out
empty. -/
theorem lone_byte_lines {front : List Byte} {e : Byte} (hlen : front.length = 1022)
    (hfront : newline ∉ front) (he : e ≠ newline) {fuel : Nat} {run : ReadRun}
    (h : readStream fuel (.opened (front ++ [newline, e])) = some run) {lines : List (List Byte)}
    (hread : run.read = .ok lines) : lines = [front, []] := by
  have hfull : (front ++ [newline, e]).length = READ_BUFFER_SIZE := by
    simp [hlen, READ_BUFFER_SIZE]
  have hkept : kept (front ++ [newline, e]) = front ++ [newline] := by
    rw [kept, if_pos ((exists_lone hfull).mpr ⟨front, e, rfl, he⟩)]
    simp
  have hsurvivors : survivors (front ++ [newline, e]) = front ++ [newline] := by
    rw [survivors_full (by omega), List.take_of_length_le (by omega),
      List.drop_of_length_le (by omega), hkept, survivors_short (by decide), List.append_nil]
  rw [((readStream_emitted h).read_iff.mp hread).2, hsurvivors, List.splitOn_append_cons_self,
    List.splitOn_eq_singleton hfront, List.splitOn_nil]
  rfl

theorem lone_byte_lost :
    ¬ DeliversContent (List.replicate 1022 120 ++ [newline, 121]) := by
  intro h
  obtain ⟨fuel, run, hrun, hread⟩ := h
  have hlen : (List.replicate 1022 (120 : Byte)).length = 1022 := List.length_replicate
  have hfront : newline ∉ List.replicate 1022 (120 : Byte) := by
    intro hmem
    exact absurd (List.eq_of_mem_replicate hmem) (by decide)
  have hlast : [(121 : Byte)].splitOn newline = [[121]] := List.splitOn_eq_singleton (by decide)
  have hsplit := lone_byte_lines hlen hfront (by decide) hrun hread
  rw [List.splitOn_append_cons_self, List.splitOn_eq_singleton hfront, hlast] at hsplit
  exact absurd (List.cons.inj (List.cons.inj hsplit).2).1 (by decide)

/-- A trace of less than 15 bytes, unless they are all newlines: its lines are gone before
anybody can read them. -/
theorem short_trace_lost {content : List Byte} (hlen : content.length < LOCAL_CAPACITY) {b : Byte}
    (hb : b ∈ content) (hne : b ≠ newline) : ¬ DeliversContent content := by
  intro h
  obtain ⟨fuel, run, hrun, hread⟩ := h
  have houtlives := ((readStream_emitted hrun).read_iff.mp hread).1
  have hshort : content.length < READ_BUFFER_SIZE := Nat.lt_trans hlen (by decide)
  rw [turnFrom_short List.not_mem_nil hshort, List.nil_append] at houtlives
  cases houtlives with
  | inl hlong => exact absurd hlen (Nat.not_lt.mpr hlong)
  | inr hall => exact hne (hall b hb)

/-- A full block with a lone byte at its end, and a trace of three bytes. -/
theorem lines_lost :
    ¬ DeliversContent (List.replicate 1022 120 ++ [newline, 121]) ∧
      ¬ DeliversContent (ascii "a\nb") :=
  ⟨lone_byte_lost, short_trace_lost (b := 97) (by decide) (by decide) (by decide)⟩

/- How the constructor of the stream, and the file behind it, can start a run. -/
inductive Initial where
  | opened (content : List Byte)
  | notOpened
  | readError (content : List Byte)
deriving DecidableEq, Repr

def Initial.stream : Initial → IfStream
  | .opened content => .opened content
  | .notOpened => ⟨[], false, false, true, false⟩
  | .readError content => ⟨content, true, false, false, false⟩

/- The loops end, and the one `nullptr` of the run comes behind all of its bulks. -/
def EndsOnce (init : Initial) : Prop :=
  ∃ fuel run, readStream fuel init.stream = some run ∧
    ∃ bulks : List EventsBulk, run.queue = bulks.map some ++ [none]

/- Before the end of the file, and it cannot be reached any more. -/
def IfStream.Stuck (s : IfStream) : Prop :=
  s.eofbit = false ∧ (s.broken = true ∨ s.failbit = true ∨ s.badbit = true)

/-- A failed read never sets the bit that the loops test. -/
theorem stuck_read {s : IfStream} (h : s.Stuck) (n : Nat) : (s.read n).2.Stuck := by
  by_cases hgood : s.good = true
  · have hbits : s.failbit = false ∧ s.badbit = false := by
      simp only [IfStream.good, Bool.not_eq_true', Bool.or_eq_false_iff] at hgood
      exact ⟨hgood.1.2, hgood.2⟩
    have hbroken : s.broken = true := by
      cases h.2 with
      | inl hbroken => exact hbroken
      | inr hset => simp [hbits] at hset
    by_cases hn : n ≤ s.pending.length
    · simp only [IfStream.read, hgood, hn, if_true]
      exact ⟨h.1, .inl hbroken⟩
    · simp only [IfStream.read, hgood, hn, hbroken, if_true, if_false]
      exact ⟨h.1, .inl rfl⟩
  · simp only [IfStream.read, hgood]
    exact ⟨h.1, .inr (.inl rfl)⟩

theorem stuck_readBlock {r : Reader} (h : r.trace_pipe.Stuck) :
    (readBlock r).2.trace_pipe.Stuck := stuck_read h READ_BUFFER_SIZE

/-- Every slot gets a bulk, and the stream is no nearer to its end. -/
theorem stuck_readBulks (slots : Nat) {r : Reader} (h : r.trace_pipe.Stuck) :
    (readBulks slots r).1.length = slots ∧ (readBulks slots r).2.trace_pipe.Stuck := by
  induction slots generalizing r with
  | zero => exact ⟨rfl, h⟩
  | succ slots ih =>
    have hrest := ih (stuck_readBlock h)
    simp only [readBulks, h.1, Bool.false_eq_true, if_false, List.length_cons, hrest.1]
    exact ⟨trivial, hrest.2⟩

theorem stuck_readLoop (fuel : Nat) {r : Reader} (h : r.trace_pipe.Stuck) :
    readLoop fuel r = none := by
  induction fuel generalizing r with
  | zero => rfl
  | succ fuel ih =>
    have hturn := (stuck_readBulks BULK_CAPACITY h).2
    simp only [readLoop, hturn.1, Bool.false_eq_true, if_false, ih hturn, Option.map_none]

theorem stuck_readStream (fuel : Nat) {s : IfStream} (h : s.Stuck) : readStream fuel s = none := by
  have hloop : readLoop fuel ⟨s, [], {}⟩ = none := stuck_readLoop fuel h
  rw [readStream, hloop, Option.map_none]

/-- The reader ends, with one end marker, exactly on a stream that was opened and whose
content is followed by the end of the file. -/
theorem reader_ends_iff (init : Initial) :
    EndsOnce init ↔ ∃ content, init = .opened content := by
  constructor
  · intro h
    obtain ⟨fuel, run, hrun, -⟩ := h
    cases init with
    | opened content => exact ⟨content, rfl⟩
    | notOpened =>
      have hstuck : Initial.notOpened.stream.Stuck := ⟨rfl, .inr (.inl rfl)⟩
      rw [stuck_readStream fuel hstuck] at hrun
      cases hrun
    | readError content =>
      have hstuck : (Initial.readError content).stream.Stuck := ⟨rfl, .inl rfl⟩
      rw [stuck_readStream fuel hstuck] at hrun
      cases hrun
  · intro h
    obtain ⟨content, rfl⟩ := h
    obtain ⟨fuel, run, hrun⟩ := readStream_returns content
    exact ⟨fuel, run, hrun, run.groups.flatten, rfl⟩

/-- A trace pipe that does not open: no number of turns ends the loop. -/
theorem reader_never_ends :
    (∀ fuel, readStream fuel Initial.notOpened.stream = none) ∧ ¬ EndsOnce .notOpened := by
  have hstuck : Initial.notOpened.stream.Stuck := ⟨rfl, .inr (.inl rfl)⟩
  refine ⟨fun fuel => stuck_readStream fuel hstuck, ?_⟩
  intro h
  obtain ⟨fuel, run, hrun, -⟩ := h
  rw [stuck_readStream fuel hstuck] at hrun
  cases hrun

end SyscallSensor.ReadStream
