import SyscallSensor.SysRecord
import SyscallSensor.Lib.Outcome
import SyscallSensor.Lib.Pieces
import SyscallSensor.Lib.RightEnd

/-! `file_stream`: one line of text for each record, and a reader that takes the fields off
each line from the right, so that the name may be any text without a newline. -/
namespace SyscallSensor.FileLog
open Text Trace
open Lib.Decimal (intText IsIntByte)
open Lib.RightEnd

/- `_file` is what has been written to the file. -/
structure FileStream where
  _file : List Byte := []
deriving DecidableEq, Repr

/-- `dispatch`: the text is built first and written with one call. -/
def FileStream.dispatch (s : FileStream) (records : List SysParamsRecord) : FileStream :=
  let json := records.foldl (fun json iter => json ++ iter.to_string ++ ascii "\n") []
  { s with _file := s._file ++ json }

def fileOf (packs : List (List SysParamsRecord)) : List Byte :=
  (packs.foldl FileStream.dispatch {})._file

/-- `'name','pid','syscall',''`, read from the right end. -/
def decodeRecord (line : List Byte) : Option (List Byte × Int × Int) := do
  let rest ← line.dropSuffix? (ascii "',''")
  let (rest, _syscall) ← cutInt rest
  let rest ← rest.dropSuffix? (ascii "','")
  let (rest, _pid) ← cutInt rest
  let rest ← rest.dropSuffix? (ascii "','")
  let _name ← rest.dropPrefix? (ascii "'")
  pure (_name, _pid, _syscall)

def decodeFile (content : List Byte) : Option (List (List Byte × Int × Int)) := do
  let lines ← Lib.Pieces.cutEnded newline content
  lines.mapM decodeRecord

def fields (r : SysParamsRecord) : List Byte × Int × Int := (r._name, r._pid, r._syscall)

/- What `collect` makes of a line: no newline in the name, and no argument. -/
def Collected (r : SysParamsRecord) : Prop := newline ∉ r._name ∧ r._arg = []

instance (r : SysParamsRecord) : Decidable (Collected r) :=
  inferInstanceAs (Decidable (newline ∉ r._name ∧ r._arg = []))

theorem json_eq (records : List SysParamsRecord) (json : List Byte) :
    records.foldl (fun json iter => json ++ iter.to_string ++ ascii "\n") json =
      json ++ (records.map SysParamsRecord.to_string).flatMap fun line => line ++ [newline] := by
  induction records generalizing json with
  | nil => simp
  | cons r records ih =>
    have hnl : ascii "\n" = [newline] := by decide
    rw [List.foldl_cons, ih, List.map_cons, List.flatMap_cons, hnl]
    simp only [List.append_assoc]

/-- The file is the lines of all packs, one after the other. -/
theorem fileOf_eq (packs : List (List SysParamsRecord)) :
    fileOf packs =
      (packs.flatten.map SysParamsRecord.to_string).flatMap fun line => line ++ [newline] := by
  have hfold : ∀ s : FileStream, (packs.foldl FileStream.dispatch s)._file = s._file ++
      (packs.flatten.map SysParamsRecord.to_string).flatMap fun line => line ++ [newline] := by
    induction packs with
    | nil => simp
    | cons pack packs ih =>
      intro s
      rw [List.foldl_cons, ih, FileStream.dispatch, json_eq, List.nil_append, List.flatten_cons,
        List.map_append, List.flatMap_append, List.append_assoc]
  exact hfold {}

theorem to_string_noNewline {r : SysParamsRecord} (h : Collected r) : newline ∉ r.to_string := by
  have harg : newline ∉ r._arg := by
    rw [h.2]
    exact List.not_mem_nil
  exact SysParamsRecord.not_mem_to_string (by decide) (by decide) h.1 harg

theorem decodeRecord_to_string {r : SysParamsRecord} (h : Collected r) :
    decodeRecord r.to_string = some (fields r) := by
  have hsep : (ascii "','").getLast?.map IsIntByte = some false := by decide
  have hclose : ascii "','" ++ [] ++ ascii "'" = ascii "',''" := by decide
  have htext : r.to_string = ascii "'" ++ r._name ++ ascii "','" ++ intText r._pid ++
      ascii "','" ++ intText r._syscall ++ ascii "',''" := by
    rw [SysParamsRecord.to_string, h.2, ← hclose]
    simp only [List.append_assoc]
  have hname : (ascii "'" ++ r._name).dropPrefix? (ascii "'") = some r._name :=
    dropPrefix?_append _ _
  simp only [decodeRecord, htext, dropSuffix?_append, cutInt_append hsep, hname,
    Option.bind_eq_bind, Option.bind_some]
  rfl

theorem decodeFile_fileOf {packs : List (List SysParamsRecord)}
    (h : ∀ r ∈ packs.flatten, Collected r) :
    decodeFile (fileOf packs) = some (packs.flatten.map fields) := by
  have hlines : ∀ line ∈ packs.flatten.map SysParamsRecord.to_string, newline ∉ line := by
    intro line hline
    obtain ⟨r, hr, rfl⟩ := List.mem_map.mp hline
    exact to_string_noNewline (h r hr)
  have hrecords : (packs.flatten.map SysParamsRecord.to_string).mapM decodeRecord =
      some (packs.flatten.map fields) := by
    rw [List.mapM_map]
    exact Lib.Outcome.mapM_some fun r hr => decodeRecord_to_string (h r hr)
  rw [decodeFile, fileOf_eq, Lib.Pieces.cutEnded_flatMap hlines]
  exact hrecords

/- A record without an argument from its fields. -/
def ofFields (f : List Byte × Int × Int) : SysParamsRecord :=
  { _name := f.1, _pid := f.2.1, _syscall := f.2.2 }

theorem ofFields_fields {r : SysParamsRecord} (h : Collected r) : ofFields (fields r) = r := by
  cases r with
  | mk base name arg =>
    have harg : arg = [] := h.2
    rw [harg]
    rfl

theorem map_ofFields {records : List SysParamsRecord} (h : ∀ r ∈ records, Collected r) :
    (records.map fields).map ofFields = records := by
  have hid : ∀ r ∈ records, (ofFields ∘ fields) r = id r := fun r hr => ofFields_fields (h r hr)
  rw [List.map_map, List.map_congr_left hid, List.map_id]

/-- Whatever the names contain, the file gives back every name, pid and system call, in the
order in which they were dispatched, so no two record sequences share a file. -/
theorem log_read_back {packs : List (List SysParamsRecord)}
    (h : ∀ r ∈ packs.flatten, Collected r) :
    decodeFile (fileOf packs) = some (packs.flatten.map fields) ∧
      ∀ packs' : List (List SysParamsRecord), (∀ r ∈ packs'.flatten, Collected r) →
        fileOf packs' = fileOf packs → packs'.flatten = packs.flatten := by
  have hread := decodeFile_fileOf h
  refine ⟨hread, ?_⟩
  intro packs' h' hfile
  have hread' := decodeFile_fileOf h'
  rw [hfile, hread, Option.some.injEq] at hread'
  calc
    packs'.flatten = (packs'.flatten.map fields).map ofFields := (map_ofFields h').symm
    _ = (packs.flatten.map fields).map ofFields := by rw [hread']
    _ = packs.flatten := map_ofFields h

/- Two packs; the second name reads like the fields of a record. -/
def hostilePacks : List (List SysParamsRecord) :=
  [[{ _name := ascii "sh", _pid := 812, _syscall := -1 }],
    [{ _name := ascii "a','7','8',''", _pid := -5, _syscall := 0 }]]

theorem log_read_back_hostile :
    decodeFile (fileOf hostilePacks) = some (hostilePacks.flatten.map fields) ∧
      ∀ packs' : List (List SysParamsRecord), (∀ r ∈ packs'.flatten, Collected r) →
        fileOf packs' = fileOf hostilePacks → packs'.flatten = hostilePacks.flatten :=
  log_read_back (by decide)

end SyscallSensor.FileLog
