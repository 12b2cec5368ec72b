import SyscallSensor.Events
import SyscallSensor.SysRecord

/-! `SyscallsParams::collect`: fixed columns of every line longer than 60 bytes become a
record. The guard and the columns are independent constants. -/
namespace SyscallSensor.Trace
open Text
variable {T : Type}

/-- The body of the loop of `collect`, for a record type with the constructor `construct`. -/
def collectLine (construct : StringRef → StringRef → StringRef → StringRef → Except Fault T)
    (data : DataAggregator T) (it : StringRef) : Except Fault (DataAggregator T) :=
  if it.size_ > 60 then do
    let name ← StringRef.make it.block it.begin_ 16
    let pid ← StringRef.make it.block (it.begin_ + 17) 5
    let syscall ← StringRef.make it.block (it.begin_ + 62) 3
    let param_it := it.begin_ + 63
    let args ← StringRef.make it.block param_it (it.end_ - param_it)
    let record ← construct name pid syscall args
    pure (data.append record)
  else pure data

/-- `SyscallsParams::collect`. A fault ends the thread, and the later lines with it. -/
def collect (construct : StringRef → StringRef → StringRef → StringRef → Except Fault T)
    (lines : List StringRef) (data : DataAggregator T) : Except Fault (DataAggregator T) :=
  lines.foldlM (collectLine construct) data

/- The record type of `main`. -/
def collectRecords (lines : List StringRef) (data : DataAggregator SysParamsRecord) :
    Except Fault (DataAggregator SysParamsRecord) :=
  collect SysParamsRecord.make lines data

theorem collectLine_short {construct : StringRef → StringRef → StringRef → StringRef → Except Fault T}
    {data : DataAggregator T} {it : StringRef} (h : it.size_ ≤ 60) :
    collectLine construct data it = .ok data := by
  rw [collectLine, if_neg (by omega)]
  rfl

/-- What a long line needs to become a record: its columns lie in the block, and the
constructor returns. -/
theorem collectLine_long_ok_iff
    {construct : StringRef → StringRef → StringRef → StringRef → Except Fault T}
    {data data' : DataAggregator T} {block : List Byte} {b n : Nat} (h : 60 < n)
    (hin : b + n ≤ block.length) :
    collectLine construct data ⟨block, b, n⟩ = .ok data' ↔
      63 ≤ n ∧ b + 65 ≤ block.length ∧
        ∃ record, construct ⟨block, b, 16⟩ ⟨block, b + 17, 5⟩ ⟨block, b + 62, 3⟩
            ⟨block, b + 63, n - 63⟩ = .ok record ∧ data' = data.append record := by
  simp only [collectLine, gt_iff_lt, h, if_true, StringRef.end_, Lib.Outcome.bind_eq_ok,
    StringRef.make_ok_iff, pure, Except.pure, Except.ok.injEq]
  have hargs : ((b + n : Nat) : Int) - ((b + 63 : Nat) : Int) = (n : Int) - 63 := by omega
  have hsize : ((n : Int) - 63).toNat = n - 63 := by omega
  rw [hargs, hsize]
  constructor
  · intro hok
    obtain ⟨name, ⟨-, -, rfl⟩, pid, ⟨-, -, rfl⟩, syscall, ⟨-, hsyscall, rfl⟩, args,
      ⟨hlong, -, rfl⟩, record, hrecord, rfl⟩ := hok
    exact ⟨by omega, by omega, record, hrecord, rfl⟩
  · intro hok
    obtain ⟨hlong, hsyscall, record, hrecord, rfl⟩ := hok
    exact ⟨_, ⟨by omega, by omega, rfl⟩, _, ⟨by omega, by omega, rfl⟩, _, ⟨by omega, by omega, rfl⟩,
      _, ⟨by omega, by omega, rfl⟩, record, hrecord, rfl⟩

/-- The record of a line of at least 65 bytes: the first three columns, with the name that
`set_name` found. -/
theorem collectLine_record_iff {data data' : DataAggregator SysParamsRecord} {block : List Byte}
    {b n : Nat} (hlong : 65 ≤ n) (hin : b + n ≤ block.length) :
    collectLine SysParamsRecord.make data ⟨block, b, n⟩ = .ok data' ↔
      ∃ first last, FirstNonBlank block b first ∧ LastNonBlank block (b + 16) last ∧
        first ≤ last ∧ data' = data.append
          { _pid := digitFold ((block.drop (b + 17)).take 5) 0
            _syscall := digitFold ((block.drop (b + 62)).take 3) 0
            _name := (block.drop first).take (last - first) } := by
  have hend : (StringRef.mk block b 16).end_ < (StringRef.mk block b 16).block.length := by
    change b + 16 < block.length
    omega
  have hbase := SysRecord.make_ok block (b + 17) (b + 62) (by omega) (by omega)
  rw [collectLine_long_ok_iff (by omega) hin]
  simp only [SysParamsRecord.make, hbase, bind, Except.bind]
  constructor
  · intro hok
    obtain ⟨-, -, record, hrecord, rfl⟩ := hok
    obtain ⟨first, last, hfirst, hlast, hle, rfl⟩ :=
      (set_name_ok_iff hend).mp hrecord
    exact ⟨first, last, hfirst, hlast, hle, rfl⟩
  · intro hok
    obtain ⟨first, last, hfirst, hlast, hle, rfl⟩ := hok
    refine ⟨by omega, by omega, _, ?_, rfl⟩
    exact (set_name_ok_iff hend).mpr ⟨first, last, hfirst, hlast, hle, rfl⟩

/-- A line of 61 or 62 bytes makes `collect` throw wherever it lies in memory: the length of
`args` is negative. -/
theorem collectLine_throws
    {construct : StringRef → StringRef → StringRef → StringRef → Except Fault T}
    {data : DataAggregator T} {block : List Byte} {b n : Nat} (hlo : 60 < n) (hhi : n < 63)
    (hin : b + 65 ≤ block.length) :
    collectLine construct data ⟨block, b, n⟩ = .error .lengthError := by
  have hname := StringRef.make_ok block b 16 (by omega)
  have hpid := StringRef.make_ok block (b + 17) 5 (by omega)
  have hsyscall := StringRef.make_ok block (b + 62) 3 (by omega)
  have hargs := StringRef.make_negative block (b + 63)
    (show ((b + n : Nat) : Int) - ((b + 63 : Nat) : Int) < 0 by omega)
  simp only [collectLine, gt_iff_lt, hlo, if_true, StringRef.end_]
  push_cast at hname hpid hsyscall hargs ⊢
  rw [hname, hpid, hsyscall, hargs]
  rfl

/-- What one line needs so that every read stays inside it. -/
def SafeLine (bytes : List Byte) : Prop :=
  bytes.length ≤ 60 ∨ (65 ≤ bytes.length ∧ ∃ i ≤ 16, ∃ c, bytes[i]? = some c ∧ c ≠ blank)

theorem collectLine_returns_iff {data : DataAggregator SysParamsRecord} {line : List Byte} :
    (∃ data', collectLine SysParamsRecord.make data (.ofLine line) = .ok data') ↔
      SafeLine line := by
  have hin : 0 + line.length ≤ line.length := by omega
  by_cases hshort : line.length ≤ 60
  · exact ⟨fun _ => .inl hshort, fun _ => ⟨data, collectLine_short hshort⟩⟩
  by_cases hlong : 65 ≤ line.length
  · constructor
    · intro h
      obtain ⟨data', hdata'⟩ := h
      obtain ⟨first, last, -, hlast, -⟩ := (collectLine_record_iff hlong hin).mp hdata'
      exact .inr ⟨hlong, last, by simpa using hlast.to_start, hlast.stops⟩
    · intro h
      obtain hle | ⟨-, i, hi, c, hget, hne⟩ := h
      · exact absurd hle hshort
      obtain ⟨first, hfirst, hle⟩ := exists_firstNonBlank (Nat.zero_le i) hget hne
      obtain ⟨last, hlast, hge⟩ := 
        exists_lastNonBlank (show i ≤ 0 + 16 by omega) (by omega) hget hne
      exact ⟨_, (collectLine_record_iff hlong hin).mpr ⟨first, last, hfirst, hlast, by omega, rfl⟩⟩
  · constructor
    · intro h
      obtain ⟨data', hdata'⟩ := h
      obtain ⟨-, hcolumn, -⟩ := (collectLine_long_ok_iff (by omega) hin).mp hdata'
      omega
    · intro h
      obtain hle | hge := h
      · exact absurd hle hshort
      · exact absurd hge.1 hlong

/-- A line that is processed adds one record when it is long and none when it is short,
whatever the aggregator holds. -/
theorem collectLine_appends
    {construct : StringRef → StringRef → StringRef → StringRef → Except Fault T}
    {data data' : DataAggregator T} {it : StringRef}
    (h : collectLine construct data it = .ok data') :
    ∃ records, (∀ other, collectLine construct other it = .ok (other.appendAll records)) ∧
      records.length = if 60 < it.size_ then 1 else 0 := by
  by_cases hlong : 60 < it.size_
  · simp only [collectLine, gt_iff_lt, hlong, if_true, Lib.Outcome.bind_eq_ok, pure, Except.pure,
      Except.ok.injEq] at h
    obtain ⟨name, hname, pid, hpid, syscall, hsyscall, args, hargs, record, hrecord, -⟩ := h
    refine ⟨[record], ?_, by simp [hlong]⟩
    intro other
    simp only [collectLine, gt_iff_lt, hlong, if_true, hname, hpid, hsyscall, hargs, hrecord, bind,
      Except.bind]
    rfl
  · refine ⟨[], ?_, by simp [hlong]⟩
    intro other
    rw [collectLine_short (by omega)]
    simp [DataAggregator.appendAll]

theorem appendAll_appendAll (data : DataAggregator T) (r r' : List T) :
    (data.appendAll r).appendAll r' = data.appendAll (r ++ r') := by
  simp [DataAggregator.appendAll]

/-- A run of `collect` only appends: one record for each long line. -/
theorem collect_appends
    {construct : StringRef → StringRef → StringRef → StringRef → Except Fault T}
    {lines : List StringRef} {data data' : DataAggregator T}
    (h : collect construct lines data = .ok data') :
    ∃ records, (∀ other, collect construct lines other = .ok (other.appendAll records)) ∧
      records.length = (lines.filter fun it => 60 < it.size_).length := by
  induction lines generalizing data with
  | nil => exact ⟨[], fun other => by simp [collect, DataAggregator.appendAll, pure, Except.pure], rfl⟩
  | cons it lines ih =>
    obtain ⟨mid, hmid, hrest⟩ := Lib.Outcome.foldlM_cons_eq_ok.mp h
    obtain ⟨first, hfirst, hfirstlen⟩ := collectLine_appends hmid
    obtain ⟨later, hlater, hlaterlen⟩ := ih hrest
    refine ⟨first ++ later, ?_, ?_⟩
    · intro other
      rw [← appendAll_appendAll]
      exact Lib.Outcome.foldlM_cons_eq_ok.mpr ⟨_, hfirst other, hlater _⟩
    · rw [List.length_append, hfirstlen, hlaterlen, List.filter_cons]
      by_cases hlong : 60 < it.size_
      · simp only [hlong, decide_true, if_true, List.length_cons]
        omega
      · simp [hlong]

/-- `collect` gets to the end of its list exactly when every line is safe. -/
theorem collect_returns_iff {lines : List (List Byte)} (data : DataAggregator SysParamsRecord) :
    (∃ data', collectRecords (lines.map .ofLine) data = .ok data') ↔
      ∀ line ∈ lines, SafeLine line := by
  induction lines generalizing data with
  | nil => exact ⟨fun _ => by simp, fun _ => ⟨data, rfl⟩⟩
  | cons line lines ih =>
    rw [List.forall_mem_cons]
    constructor
    · intro h
      obtain ⟨data', hdata'⟩ := h
      obtain ⟨mid, hmid, hrest⟩ := Lib.Outcome.foldlM_cons_eq_ok.mp hdata'
      exact ⟨collectLine_returns_iff.mp ⟨mid, hmid⟩, (ih mid).mp ⟨data', hrest⟩⟩
    · intro h
      obtain ⟨mid, hmid⟩ := collectLine_returns_iff.mpr h.1
      obtain ⟨data', hrest⟩ := (ih mid).mpr h.2
      exact ⟨data', Lib.Outcome.foldlM_cons_eq_ok.mpr ⟨mid, hmid, hrest⟩⟩

theorem slice_inside (before line after : List Byte) {k n : Nat} (h : k + n ≤ line.length) :
    ((before ++ line ++ after).drop (before.length + k)).take n = (line.drop k).take n := by
  rw [List.append_assoc, ← List.drop_drop, List.drop_left, List.drop_append_of_le_length (by omega),
    List.take_append_of_le_length (by rw [List.length_drop]; omega)]

theorem getElem?_inside {before bytes after : List Byte} {j : Nat} (h : j < bytes.length) :
    (before ++ bytes ++ after)[before.length + j]? = bytes[j]? := by
  rw [List.append_assoc, List.getElem?_append_right (by omega), Nat.add_sub_cancel_left,
    List.getElem?_append_left h]

theorem FirstNonBlank.inside {before line after : List Byte} {first : Nat}
    (h : FirstNonBlank line 0 first) :
    FirstNonBlank (before ++ line ++ after) before.length (before.length + first) := by
  obtain ⟨c, hc, hne⟩ := h.stops
  have hin := (List.getElem?_eq_some_iff.mp hc).1
  refine ⟨by omega, ⟨c, by rw [getElem?_inside hin, hc], hne⟩, ?_⟩
  intro j hj hlt
  obtain ⟨i, rfl⟩ := Nat.exists_eq_add_of_le hj
  rw [getElem?_inside (by omega)]
  exact h.blanks i (Nat.zero_le i) (by omega)

theorem LastNonBlank.inside {before line after : List Byte} {start last : Nat}
    (h : LastNonBlank line start last) (hstart : start < line.length) :
    LastNonBlank (before ++ line ++ after) (before.length + start) (before.length + last) := by
  obtain ⟨c, hc, hne⟩ := h.stops
  have hle := h.to_start
  refine ⟨by omega, ⟨c, by rw [getElem?_inside (by omega), hc], hne⟩, ?_⟩
  intro j hj hlt
  obtain ⟨i, rfl⟩ := Nat.exists_eq_add_of_le (show before.length ≤ j by omega)
  rw [getElem?_inside (by omega)]
  exact h.blanks i (by omega) (by omega)

/-- A line that needs no byte around it gives the same record wherever it lies. -/
theorem collectLine_inside (before after : List Byte) {line : List Byte}
    {data data' : DataAggregator SysParamsRecord}
    (h : collectLine SysParamsRecord.make data (.ofLine line) = .ok data') :
    collectLine SysParamsRecord.make data ⟨before ++ line ++ after, before.length, line.length⟩ =
      .ok data' := by
  obtain hshort | ⟨hlong, -⟩ := collectLine_returns_iff.mp ⟨data', h⟩
  · rw [← h, collectLine_short hshort, collectLine_short hshort]
  · obtain ⟨first, last, hfirst, hlast, hle, rfl⟩ :=
      (collectLine_record_iff hlong (by omega)).mp h
    have hend := hlast.to_start
    refine (collectLine_record_iff hlong (by simp)).mpr
      ⟨before.length + first, before.length + last, hfirst.inside,
        by simpa using hlast.inside (by omega), by omega, ?_⟩
    rw [slice_inside _ _ _ (by omega), slice_inside _ _ _ (by omega), slice_inside _ _ _ (by omega),
      Nat.add_sub_add_left]

theorem collectLine_ref {ref : StringRef} (hin : ref.end_ ≤ ref.block.length)
    {data data' : DataAggregator SysParamsRecord}
    (h : collectLine SysParamsRecord.make data (.ofLine ref.text) = .ok data') :
    collectLine SysParamsRecord.make data ref = .ok data' := by
  obtain ⟨block, b, n⟩ := ref
  rw [StringRef.end_] at hin
  simp only at hin
  have hbefore : (block.take b).length = b := by
    rw [List.length_take]
    omega
  have hsize : ((block.drop b).take n).length = n := by
    rw [List.length_take, List.length_drop]
    omega
  have hcut : block.take b ++ (block.drop b).take n ++ block.drop (b + n) = block := by
    rw [List.append_assoc, ← List.drop_drop, List.take_append_drop, List.take_append_drop]
  have hinside := collectLine_inside (block.take b) (block.drop (b + n)) h
  simp only [StringRef.text] at hinside
  rwa [hcut, hbefore, hsize] at hinside

/-- Only the size of a line with at most 60 bytes is looked at, wherever it points to; a longer
one reads from the bulk's buffer what it would read on its own. -/
theorem collectLine_keeps {ref : StringRef} {line : List Byte} (h : ref.Keeps line)
    {data data' : DataAggregator SysParamsRecord}
    (hline : collectLine SysParamsRecord.make data (.ofLine line) = .ok data') :
    collectLine SysParamsRecord.make data ref = .ok data' := by
  obtain ⟨hsize, hholds⟩ := h
  by_cases hshort : line.length ≤ 60
  · have hskipped : collectLine SysParamsRecord.make data (.ofLine line) = .ok data :=
      collectLine_short hshort
    rw [← hline, hskipped]
    exact collectLine_short (hsize ▸ hshort)
  · have hline' := hholds (by rw [LOCAL_CAPACITY]; omega)
    rw [← hline'.text] at hline
    exact collectLine_ref hline'.inside hline

theorem collect_keeps {refs : List StringRef} {lines : List (List Byte)}
    (h : List.Forall₂ StringRef.Keeps refs lines) {data data' : DataAggregator SysParamsRecord}
    (hlines : collectRecords (lines.map .ofLine) data = .ok data') :
    collectRecords refs data = .ok data' := by
  induction h generalizing data with
  | nil => exact hlines
  | cons hline _ ih =>
    obtain ⟨mid, hmid, hrest⟩ := Lib.Outcome.foldlM_cons_eq_ok.mp hlines
    exact Lib.Outcome.foldlM_cons_eq_ok.mpr ⟨mid, collectLine_keeps hline hmid, ih hrest⟩

/- Every read stays inside the line being processed, no length is negative, and each line
   longer than 60 bytes has become a record. -/
def ProcessesEveryLine (lines : List (List Byte)) (data : DataAggregator SysParamsRecord) : Prop :=
  ∃ records, collectRecords (lines.map .ofLine) data = .ok (data.appendAll records) ∧
    records.length = (lines.filter fun line => 60 < line.length).length

/-- Lines of any bytes and lengths are all processed, each from its own bytes alone, exactly
when none has 61 to 64 bytes and none of the longer ones starts with 17 blanks. -/
theorem collect_safe_iff (lines : List (List Byte)) (data : DataAggregator SysParamsRecord) :
    ProcessesEveryLine lines data ↔ ∀ line ∈ lines, SafeLine line := by
  rw [← collect_returns_iff data]
  constructor
  · intro h
    obtain ⟨records, hrecords, -⟩ := h
    exact ⟨_, hrecords⟩
  · intro h
    obtain ⟨data', hdata'⟩ := h
    obtain ⟨records, hrecords, hlen⟩ := collect_appends hdata'
    refine ⟨records, hrecords data, ?_⟩
    rw [hlen, List.filter_map, List.length_map]
    rfl

theorem line_of_61_not_processed :
    ¬ ProcessesEveryLine [List.replicate 61 120] {} := by
  intro h
  obtain ⟨records, hrecords, -⟩ := h
  have hfault : collectRecords [.ofLine (List.replicate 61 120)] {} = .error (.outside 61) := rfl
  rw [List.map_singleton, hfault] at hrecords
  cases hrecords

end SyscallSensor.Trace
