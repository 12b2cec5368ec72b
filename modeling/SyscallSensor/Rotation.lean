import SyscallSensor.AggrFile

/-! The rotation in `print_all`: `_file_index` is 11 when the constructor has opened the first
file, and it is advanced only where it is a multiple of ten. -/
namespace SyscallSensor.AggrFile
open Text Trace AggrStream

def outFiles (s : FileAggrStream) : List OutFile := s.finished ++ [s._file]

/-- No file has more than ten blocks, and no two files have the same name. -/
structure Rotates (s : FileAggrStream) : Prop where
  short : ∀ file ∈ outFiles s, file.blocks.length ≤ 10
  names : ((outFiles s).map OutFile.name).Nodup

theorem run_unrotated {name : List Byte} {size : Int} {calls : List Dispatch} {s : FileAggrStream}
    (hrun : (sizedStream name size).Run calls s) : FirstFile s := by
  refine hrun.reachable.invariant (I := FirstFile) ?_ ?_
  · intro s hinit
    rw [show s = FileAggrStream.make name size from hinit]
    exact firstFile_make name size
  · intro call s t h hstep
    exact firstFile_dispatch h hstep.2

/-- A stream that is still in its first file has a block in it for every closed window. -/
theorem rotates_of_firstFile {size : Int} {s : FileAggrStream} {w : Windows} (h : FirstFile s)
    (hshown : Shown size s w) : Rotates s ↔ w.closed.length ≤ 10 := by
  have hfiles : outFiles s = [s._file] := by
    rw [outFiles, h.finished, List.nil_append]
  have hblocks : s._file.blocks.length = w.closed.length := by
    have hlength := hshown.blocks.length_eq
    rwa [FileAggrStream.blocks, h.finished, List.flatMap_nil, List.nil_append] at hlength
  constructor
  · intro hrotates
    rw [← hblocks]
    exact hrotates.short s._file (by simp [hfiles])
  · intro hclosed
    constructor
    · intro file hfile
      rw [hfiles, List.mem_singleton] at hfile
      rw [hfile, hblocks]
      exact hclosed
    · rw [hfiles]
      exact List.nodup_singleton _

/-- The stream rotates exactly as long as nothing has to be rotated: up to the tenth flush. -/
theorem rotates_iff {name : List Byte} {size : Int} {calls : List Dispatch} {s : FileAggrStream}
    (hrun : (sizedStream name size).Run calls s) :
    Rotates s ↔ (windows (toSizeT size) (calls.map Dispatch.records)).closed.length ≤ 10 :=
  rotates_of_firstFile (run_unrotated hrun) (run_shown hrun)

theorem rotates_twoPacks : ∃ s, (sizedStream (ascii "log") 2).Run twoPacks s ∧ Rotates s := by
  obtain ⟨s, hrun⟩ := run_twoPacks
  exact ⟨s, hrun, (rotates_iff hrun).mpr (by decide)⟩

/- A call that flushes at a limit of one process. -/
def onePack : Dispatch := ⟨[⟨⟨7, 3⟩, ascii "sh", []⟩], 0, List.toAList [⟨7, [3]⟩]⟩

theorem run_onePack (n : Nat) :
    ∃ s, (sizedStream (ascii "log") 1).Run (List.replicate n onePack) s := by
  induction n with
  | zero => exact ⟨_, .start rfl⟩
  | succ n ih =>
    obtain ⟨s, hrun⟩ := ih
    have h : Refines ⟨1, by decide, by decide⟩ s _ := run_refines hrun
    -- at a limit of one no process waits in the window, so no record does
    have hempty := Finset.card_eq_zero.mp (Nat.lt_one_iff.mp h.room)
    rw [processes, List.toFinset_eq_empty_iff, List.map_eq_nil_iff] at hempty
    have hlegal : onePack.Legal s := by
      rw [Dispatch.Legal, traces_addAll h.traces, hempty]
      decide
    obtain ⟨t, hdispatch, -⟩ := dispatch_refines h hlegal
    rw [List.replicate_succ']
    exact ⟨t, hrun.next ⟨hlegal, hdispatch⟩⟩

/-- The eleventh flush goes into the first file too. -/
theorem eleventh_flush_unrotated :
    ¬ ∀ (size : Int) (calls : List Dispatch) (s : FileAggrStream),
      (sizedStream (ascii "log") size).Run calls s → Rotates s := by
  intro hall
  obtain ⟨s, hrun⟩ := run_onePack 11
  have hclosed := (rotates_of_firstFile (run_unrotated hrun) (run_shown hrun)).mp (hall _ _ s hrun)
  exact absurd hclosed (by decide)

end SyscallSensor.AggrFile
