import SyscallSensor.Pipeline

/-! How large the packs of the worker are: a block of the trace pipe completes few long lines
however long the carried line is, and the worker looks at `ready()` after every bulk. -/
namespace SyscallSensor.Pipeline
open Lib.EndMarked
open ReadStream
open Text Trace
variable {β ρ : Type*} {T : Type}

/- The lines that `collect` makes a record of. -/
def longLines (bulk : EventsBulk) : Nat := bulk._lines.countP fun it => 60 < it.size_

theorem longLines_texts {isLocal : Bool} {buffer str : List Byte} {lines : List StringRef}
    (hbuffer : buffer <+: str)
    (hlines : ∀ ref ∈ lines, ref.block = str ∧ ref.end_ ≤ buffer.length) :
    longLines (.make isLocal buffer lines) =
      (lines.map StringRef.text).countP fun text => 60 < text.length := by
  rw [longLines, EventsBulk.make, List.countP_map, List.countP_map]
  apply List.countP_congr
  intro ref hmem
  obtain ⟨rfl, hend⟩ := hlines ref hmem
  have hlength := hbuffer.length_le
  rw [StringRef.end_] at hend
  simp only [Function.comp, StringRef.text, List.length_take, List.length_drop, decide_eq_true_eq]
  omega

/- The bytes that one turn of the inner loop adds to the carry. -/
def blockRead (trace_pipe : IfStream) : List Byte :=
  let (line, trace_pipe) := trace_pipe.read READ_BUFFER_SIZE
  if trace_pipe.eofbit then line ++ [newline] else line

/-- The newline at the end of the file comes behind a short block. -/
theorem blockRead_length_le (trace_pipe : IfStream) :
    (blockRead trace_pipe).length ≤ READ_BUFFER_SIZE := by
  rw [blockRead, IfStream.read]
  by_cases hgood : trace_pipe.good = true
  · have hopen : trace_pipe.eofbit = false := by
      cases heof : trace_pipe.eofbit with
      | false => rfl
      | true => simp [IfStream.good, heof] at hgood
    by_cases hfull : READ_BUFFER_SIZE ≤ trace_pipe.pending.length
    · simp [hgood, hfull, hopen]
    · cases hbroken : trace_pipe.broken with
      | true => simp [hgood, hfull, hopen]
      | false =>
        simp only [hgood, hfull, if_true, if_false, Bool.false_eq_true, List.length_append,
          List.length_singleton]
        omega
  · rw [if_neg hgood]
    cases heof : trace_pipe.eofbit with
    | false => simp
    | true => simp [READ_BUFFER_SIZE]

theorem readBlock_split (r : ReadStream.Reader) :
    (readBlock r).1 = .make
        (decide ((r.last_line ++ blockRead r.trace_pipe).length ≤ LOCAL_CAPACITY))
        (splitString (r.last_line ++ blockRead r.trace_pipe) newline []).str
        (splitString (r.last_line ++ blockRead r.trace_pipe) newline []).strings ∧
      (readBlock r).2.last_line =
        (splitString (r.last_line ++ blockRead r.trace_pipe) newline []).last_line := by
  cases hread : r.trace_pipe.read READ_BUFFER_SIZE with
  | mk line trace_pipe =>
    have hstr : (if trace_pipe.eofbit then r.last_line ++ line ++ [newline]
          else r.last_line ++ line) = r.last_line ++ blockRead r.trace_pipe := by
      rw [blockRead, hread]
      dsimp only
      cases trace_pipe.eofbit with
      | false => rfl
      | true => exact List.append_assoc _ _ _
    simp only [readBlock, hread, hstr, and_self]

/-- Whatever is carried into a block, it completes at most 17 lines longer than 60 bytes, and
what it carries over has no newline. -/
theorem readBlock_longLines {r : ReadStream.Reader} (h : newline ∉ r.last_line) :
    longLines (readBlock r).1 ≤ 17 ∧ newline ∉ (readBlock r).2.last_line := by
  obtain ⟨hbulk, hlast⟩ := readBlock_split r
  obtain ⟨tail, hpieces, hcarry, hprefix, hrefs⟩ :=
    splitString_spec (r.last_line ++ blockRead r.trace_pipe) newline []
  constructor
  · have hlong := Lib.Pieces.long_pieces_le h hpieces.symm 60
    have hblock := blockRead_length_le r.trace_pipe
    rw [hbulk, longLines_texts hprefix hrefs]
    rw [READ_BUFFER_SIZE] at hblock
    omega
  · rw [hlast, hcarry, List.nil_append]
    exact not_mem_carry (Lib.Pieces.splitOn_last hpieces.symm).1

theorem readBulks_longLines (slots : Nat) {r : ReadStream.Reader} (h : newline ∉ r.last_line) :
    (∀ bulk ∈ (readBulks slots r).1, longLines bulk ≤ 17) ∧
      newline ∉ (readBulks slots r).2.last_line := by
  induction slots generalizing r with
  | zero => exact ⟨by simp [readBulks], h⟩
  | succ slots ih =>
    cases heof : r.trace_pipe.eofbit with
    | true =>
      rw [readBulks_end _ heof]
      exact ⟨by simp, h⟩
    | false =>
      obtain ⟨hfirst, hnext⟩ := readBlock_longLines h
      obtain ⟨hrest, hlast⟩ := ih hnext
      simp only [readBulks, heof, Bool.false_eq_true, if_false, List.forall_mem_cons]
      exact ⟨⟨hfirst, hrest⟩, hlast⟩

/-- Every bulk of a run of the reader has at most 17 long lines. -/
theorem readLoop_longLines {fuel : Nat} {r r' : ReadStream.Reader}
    {groups : List (List EventsBulk)} (h : newline ∉ r.last_line)
    (hloop : readLoop fuel r = some (groups, r')) :
    ∀ bulk ∈ groups.flatten, longLines bulk ≤ 17 := by
  induction fuel generalizing r groups r' with
  | zero => simp [readLoop] at hloop
  | succ fuel ih =>
    obtain ⟨hbulks, hlast⟩ := readBulks_longLines BULK_CAPACITY h
    rw [readLoop] at hloop
    simp only at hloop
    cases heof : (readBulks BULK_CAPACITY r).2.trace_pipe.eofbit with
    | true =>
      rw [heof, if_pos rfl, Option.some.injEq, Prod.mk.injEq] at hloop
      rw [← hloop.1, List.flatten_singleton]
      exact hbulks
    | false =>
      rw [heof, if_neg Bool.false_ne_true, Option.map_eq_some_iff] at hloop
      obtain ⟨⟨later, r''⟩, hrec, hpair⟩ := hloop
      obtain ⟨rfl, -⟩ := Prod.mk.inj hpair
      intro bulk hbulk
      rw [List.flatten_cons] at hbulk
      cases List.mem_append.mp hbulk with
      | inl hbulk => exact hbulks bulk hbulk
      | inr hbulk => exact ih hlast hrec bulk hbulk

/- The packs that the worker has put into the result queue so far, in order, and the bulks that
it has not collected. -/
def handed (s : Threads β ρ) : List (List ρ) := s.sender.dispatched ++ s.downstream.reduceOption

def uncollected (s : Threads β ρ) : List β := s.upstream.reduceOption ++ s.reader.upcoming

/-- No pack is empty or has more than 1040 records, and all but the last are full. -/
structure Sized (packs : List (List ρ)) : Prop where
  nonempty : ∀ pack ∈ packs, pack ≠ []
  most : ∀ pack ∈ packs, pack.length ≤ 1040
  least : ∀ pack ∈ packs.dropLast, 1024 ≤ pack.length

/- A pack that `ready()` has let through. -/
def Full (pack : List ρ) : Prop := 1024 ≤ pack.length ∧ pack.length ≤ 1040

theorem sized_of_full {packs : List (List ρ)} (h : ∀ pack ∈ packs, Full pack) : Sized packs := by
  refine ⟨?_, fun pack hpack => (h pack hpack).2, ?_⟩
  · rintro pack hpack rfl
    have hfull := (h [] hpack).1
    simp at hfull
  · intro pack hpack
    exact (h pack (List.mem_of_mem_dropLast hpack)).1

/-- A last pack need not be full. -/
theorem sized_snoc {packs : List (List ρ)} {ptr : List ρ} (h : ∀ pack ∈ packs, Full pack)
    (hne : ptr ≠ []) (hlen : ptr.length ≤ 1040) : Sized (packs ++ [ptr]) := by
  obtain ⟨hnonempty, hmost, -⟩ := sized_of_full h
  refine ⟨?_, ?_, ?_⟩
  · intro pack hpack
    cases List.mem_append.mp hpack with
    | inl hold => exact hnonempty pack hold
    | inr hnew => rwa [List.mem_singleton.mp hnew]
  · intro pack hpack
    cases List.mem_append.mp hpack with
    | inl hold => exact hmost pack hold
    | inr hnew => rwa [List.mem_singleton.mp hnew]
  · rw [List.dropLast_concat]
    exact fun pack hpack => (h pack hpack).1

/-- What holds of the packs where the worker stands: up to the flush they are full. -/
def SizedAt (packs : List (List ρ)) : Worker β ρ → Prop
  | .processing _ => ∀ pack ∈ packs, Full pack
  | .handing ptr _ => (∀ pack ∈ packs, Full pack) ∧ Full ptr
  | .flushing ptr => (∀ pack ∈ packs, Full pack) ∧ ptr.length < 1024
  | _ => Sized packs

theorem sized_of_sizedAt {packs : List (List ρ)} {worker : Worker β ρ}
    (h : SizedAt packs worker) : Sized packs := by
  cases worker with
  | processing lines => exact sized_of_full h
  | handing ptr lines => exact sized_of_full h.1
  | flushing ptr => exact sized_of_full h.1
  | _ => exact h

/-- What every step keeps, for bulks of at most 17 records. -/
structure Packing (tracer : Tracer β ρ) (s : Threads β ρ) : Prop where
  limit : s._data.__limit = 1024
  room : s._data.__data.length < 1024
  bulks : ∀ bulk ∈ uncollected s, (tracer.records bulk).length ≤ 17
  packs : SizedAt (handed s) s.worker

section
variable {tracer : Tracer β ρ} {s t : Threads β ρ} {count : Nat}

theorem packing_readerStep (h : Packing tracer s) (hstep : readerStep tracer s = some t) :
    Packing tracer t := by
  obtain ⟨hlimit, hroom, hbulks, hpacks⟩ := h
  have hsame : uncollected t = uncollected s ∧ handed t = handed s ∧ t._data = s._data ∧
      t.worker = s.worker := by
    cases readerStep_move hstep with
    | made hreader | ended hreader | stopped hreader =>
      simp [uncollected, Threads.upstream, hreader, List.reduceOption_append, handed,
        Threads.downstream]
    | @enqueued made groups hreader =>
      have hupcoming := (upcoming_next groups).1
      simp [uncollected, Threads.upstream, hreader, hupcoming, List.reduceOption_append,
        reduceOption_map_some, handed, Threads.downstream]
  obtain ⟨huncollected, hhanded, hdata, hworker⟩ := hsame
  refine ⟨?_, ?_, ?_, ?_⟩
  · rwa [hdata]
  · rwa [hdata]
  · rwa [huncollected]
  · rwa [hhanded, hworker]

theorem packing_senderStep {bulks : List β} (hinv : Inv tracer bulks s) (h : Packing tracer s)
    (hstep : senderStep count s = some t) : Packing tracer t := by
  obtain ⟨hlimit, hroom, hbulks, hpacks⟩ := h
  have hsame : uncollected t = uncollected s ∧ handed t = handed s ∧ t._data = s._data ∧
      t.worker = s.worker := by
    cases senderStep_move hstep with
    | dequeued hat hqueue =>
      simp [uncollected, Threads.upstream, handed, Threads.downstream, hat, hqueue]
    | marked hat =>
      -- the batch that is left behind the marker is empty
      have hdown := hinv.downstream
      rw [Threads.downstream, hat] at hdown
      obtain ⟨-, hnil⟩ := Flow.take_marker hdown
      obtain ⟨hevents, -⟩ := List.append_eq_nil_iff.mp hnil
      simp [uncollected, Threads.upstream, handed, Threads.downstream, hat, hevents]
    | dispatched hat | counted hat | stopped hat | finished hat =>
      simp [uncollected, Threads.upstream, handed, Threads.downstream, hat]
  obtain ⟨huncollected, hhanded, hdata, hworker⟩ := hsame
  refine ⟨?_, ?_, ?_, ?_⟩
  · rwa [hdata]
  · rwa [hdata]
  · rwa [huncollected]
  · rwa [hhanded, hworker]

theorem uncollected_workerStep (hstep : workerStep tracer count s = some t) :
    ∀ bulk ∈ uncollected t, bulk ∈ uncollected s := by
  cases workerStep_move hstep with
  | dequeued hworker hqueue => simp [uncollected, Threads.upstream, hworker, hqueue]
  | collected hworker _ | packed hworker _ | flushed hworker _ =>
    simp +contextual [uncollected, Threads.upstream, hworker]
  | marked hworker | handed hworker | skipped hworker | released hworker | closed hworker
  | stopped hworker =>
    simp +contextual [uncollected, Threads.upstream, hworker, List.reduceOption_append]

/-- One bulk on top of an aggregator that is not ready. -/
theorem collected_length {bulk : β} {lines : List (Option β)} (h : Packing tracer s)
    (hworker : s.worker = .processing (some bulk :: lines)) :
    (s._data.__data ++ tracer.records bulk).length ≤ 1040 := by
  have hroom := h.room
  have hbulk := h.bulks bulk (by simp [uncollected, Threads.upstream, hworker])
  rw [List.length_append]
  omega

theorem ready_iff (hlimit : s._data.__limit = 1024) (records : List ρ) :
    (s._data.appendAll records).ready = true ↔ 1024 ≤ (s._data.__data ++ records).length := by
  rw [DataAggregator.ready, decide_eq_true_eq, ← hlimit]
  rfl

/- The worker puts a pack, or the end marker, into the result queue. -/
theorem handed_enqueue (s : Threads β ρ) (worker : Worker β ρ) (ptr : List ρ) :
    handed { s with worker := worker, _result_queue := s._result_queue.enqueue (some ptr) } =
      handed s ++ [ptr] := by
  simp [handed, Threads.downstream, List.reduceOption_append]

theorem handed_close (s : Threads β ρ) (worker : Worker β ρ) :
    handed { s with worker := worker, _result_queue := s._result_queue.enqueue none } =
      handed s := by
  simp [handed, Threads.downstream, List.reduceOption_append]

theorem packing_workerStep (h : Packing tracer s) (hstep : workerStep tracer count s = some t) :
    Packing tracer t := by
  obtain ⟨hlimit, hroom, hbulks, hpacks⟩ := h
  have hleft : ∀ bulk ∈ uncollected t, (tracer.records bulk).length ≤ 17 :=
    fun bulk hbulk => hbulks bulk (uncollected_workerStep hstep bulk hbulk)
  cases workerStep_move hstep with
  | dequeued hworker hqueue =>
    rw [hworker] at hpacks
    exact ⟨hlimit, hroom, hleft, hpacks⟩
  | collected hworker hready =>
    rw [hworker] at hpacks
    refine ⟨hlimit, ?_, hleft, hpacks⟩
    rw [Bool.eq_false_iff, ne_eq, ready_iff hlimit] at hready
    exact Nat.lt_of_not_le hready
  | packed hworker hready =>
    have hmost := collected_length ⟨hlimit, hroom, hbulks, hpacks⟩ hworker
    rw [hworker] at hpacks
    exact ⟨hlimit, Nat.zero_lt_succ _, hleft, hpacks, (ready_iff hlimit _).mp hready, hmost⟩
  | marked hworker =>
    rw [hworker] at hpacks
    exact ⟨hlimit, Nat.zero_lt_succ _, hleft, hpacks, hroom⟩
  | @handed ptr lines hworker =>
    rw [hworker] at hpacks
    refine ⟨hlimit, hroom, hleft, ?_⟩
    rw [handed_enqueue]
    exact List.forall_mem_append.mpr ⟨hpacks.1, List.forall_mem_singleton.mpr hpacks.2⟩
  | skipped hworker =>
    rw [hworker] at hpacks
    exact ⟨hlimit, hroom, hleft, sized_of_full hpacks.1⟩
  | @flushed ptr hworker hne =>
    rw [hworker] at hpacks
    refine ⟨hlimit, hroom, hleft, ?_⟩
    rw [handed_enqueue]
    exact sized_snoc hpacks.1 hne (by have := hpacks.2; omega)
  | released hworker =>
    rw [hworker] at hpacks
    exact ⟨hlimit, hroom, hleft, hpacks⟩
  | closed hworker =>
    rw [hworker] at hpacks
    refine ⟨hlimit, hroom, hleft, ?_⟩
    rw [handed_close]
    exact hpacks
  | stopped hworker =>
    rw [hworker] at hpacks
    exact ⟨hlimit, hroom, hleft, hpacks⟩

theorem packing_reachable {bulks : List β} (hsmall : ∀ bulk ∈ bulks, (tracer.records bulk).length ≤ 17)
    (h : (pipeline tracer bulks).Reachable s) : Packing tracer s := by
  have hboth : Inv tracer bulks s ∧ Packing tracer s := by
    refine h.invariant (I := fun s => Inv tracer bulks s ∧ Packing tracer s) ?_ ?_
    · intro s hinit
      obtain ⟨group, groups, hflatten, rfl⟩ := hinit
      rw [← hflatten] at hsmall
      exact ⟨inv_init hflatten, rfl, Nat.zero_lt_succ _, hsmall,
        by simp [handed, Threads.downstream, SizedAt]⟩
    · intro action s t hboth hstep
      obtain ⟨hinv, hpacking⟩ := hboth
      cases action with
      | reader => exact ⟨inv_readerStep hinv hstep.2, packing_readerStep hpacking hstep.2⟩
      | worker count => exact ⟨inv_workerStep hinv hstep.2, packing_workerStep hpacking hstep.2⟩
      | sender count =>
        exact ⟨inv_senderStep hinv hstep.2, packing_senderStep hinv hpacking hstep.2⟩
  exact hboth.2

end

/-- The records of a bulk are as many as its long lines. -/
theorem records_length {construct : StringRef → StringRef → StringRef → StringRef → Except Fault T}
    (bulk : SafeBulk construct) :
    ((syscallsParams construct).records bulk).length = longLines bulk.val := by
  obtain ⟨data, hdata⟩ := bulk.property
  obtain ⟨records, hrecords, hlength⟩ := collect_appends hdata
  have hcollect : collect construct bulk.val._lines {} = .ok ⟨1024, records⟩ := hrecords {}
  simp only [syscallsParams, hcollect, hlength, longLines, List.countP_eq_length_filter]

/-- For every content of the trace pipe that `collect` gets through, in every reachable state of
the threads, the packs handed over so far are neither empty nor longer than 1040 records, and
all but the last have at least 1024. -/
theorem pack_sizes {construct : StringRef → StringRef → StringRef → StringRef → Except Fault T}
    {content : List Byte} {fuel : Nat} {run : ReadRun}
    (hrun : readStream fuel (.opened content) = some run) {bulks : List (SafeBulk construct)}
    (hbulks : bulks.map Subtype.val = run.groups.flatten) {s : Threads (SafeBulk construct) T}
    (h : (pipeline (syscallsParams construct) bulks).Reachable s) : Sized (handed s) := by
  have hsmall : ∀ bulk ∈ bulks, ((syscallsParams construct).records bulk).length ≤ 17 := by
    intro bulk hbulk
    rw [readStream, Option.map_eq_some_iff] at hrun
    obtain ⟨⟨groups, r⟩, hloop, rfl⟩ := hrun
    rw [records_length]
    apply readLoop_longLines List.not_mem_nil hloop
    rw [← hbulks]
    exact List.mem_map_of_mem hbulk
  exact sized_of_sizedAt (packing_reachable hsmall h).packs

/-- One line, handed over as a pack of one record when the reader has ended. -/
theorem pack_sizes_readLine :
    ∃ s : Threads (SafeBulk SysParamsRecord.make) SysParamsRecord,
      (handed s).length = 1 ∧ Sized (handed s) := by
  have hstart : (pipeline (syscallsParams SysParamsRecord.make) [readLine]).Reachable
      { reader := .reading [] [readLine] [] } := ⟨[], .start ⟨[readLine], [], rfl, rfl⟩⟩
  have hallowed : ∀ action ∈ List.replicate 3 Action.reader ++
      List.replicate 4 (Action.worker 512), action.Allowed := by
    simp [Action.Allowed, BULK_CAPACITY, or_imp, forall_and]
  have hreachable := hstart.foldlM (fun s action => action.step _ s) _
    (fun action haction s t hstep => ⟨hallowed action haction, hstep⟩) rfl
  exact ⟨_, rfl, pack_sizes readStream_readLine rfl hreachable⟩

end SyscallSensor.Pipeline
