import SyscallSensor.Ftrace

/-! `Syscalls::collect`, which keeps the numbers of a line only, beside `SyscallsParams::collect`;
and `set_arg`, which would keep the parameters. -/
namespace SyscallSensor.Trace
open Text Lib.Decimal
variable {T : Type}

/-- The body of the loop of `Syscalls::collect`, for a record type with the constructor
`construct`. -/
def Syscalls.collectLine (construct : StringRef → StringRef → Except Fault T) (data : DataAggregator T)
    (it : StringRef) : Except Fault (DataAggregator T) :=
  if it.size_ > 60 then do
    let pid ← StringRef.make it.block (it.begin_ + 17) 5
    let syscall ← StringRef.make it.block (it.begin_ + 62) 3
    let record ← construct pid syscall
    pure (data.append record)
  else pure data

/- `Syscalls::collect`. -/
def Syscalls.collect (construct : StringRef → StringRef → Except Fault T) (lines : List StringRef)
    (data : DataAggregator T) : Except Fault (DataAggregator T) :=
  lines.foldlM (Syscalls.collectLine construct) data

/- What the records have in common. -/
def plain (data : DataAggregator SysParamsRecord) : DataAggregator SysRecord :=
  ⟨data.__limit, data.__data.map SysParamsRecord.toSysRecord⟩

theorem make_plain {name pid syscall arg : StringRef} {r : SysParamsRecord}
    (h : SysParamsRecord.make name pid syscall arg = .ok r) :
    SysRecord.make pid syscall = .ok r.toSysRecord := by
  simp only [SysParamsRecord.make, SysParamsRecord.set_name, Lib.Outcome.bind_eq_ok, pure,
    Except.pure, Except.ok.injEq] at h
  obtain ⟨base, hbase, first, -, last, -, s, -, rfl⟩ := h
  exact hbase

theorem syscallsLine_agrees {data data' : DataAggregator SysParamsRecord} {it : StringRef}
    (h : collectLine SysParamsRecord.make data it = .ok data') :
    Syscalls.collectLine SysRecord.make (plain data) it = .ok (plain data') := by
  by_cases hlong : 60 < it.size_
  · simp only [collectLine, gt_iff_lt, hlong, if_true, Lib.Outcome.bind_eq_ok, pure, Except.pure,
      Except.ok.injEq] at h
    obtain ⟨name, -, pid, hpid, syscall, hsyscall, args, -, record, hrecord, rfl⟩ := h
    simp only [Syscalls.collectLine, gt_iff_lt, hlong, if_true, hpid, hsyscall, make_plain hrecord,
      Lib.Outcome.ok_bind]
    simp [plain, DataAggregator.append, pure, Except.pure]
  · rw [collectLine_short (Nat.not_lt.mp hlong)] at h
    rw [Syscalls.collectLine, if_neg hlong, Except.ok.inj h]
    rfl

/-- One line is got through when its numbers lie in the block. -/
theorem syscallsLine_returns_iff {data : DataAggregator SysRecord} {it : StringRef} :
    (∃ data', Syscalls.collectLine SysRecord.make data it = .ok data') ↔
      (60 < it.size_ → it.begin_ + 65 ≤ it.block.length) := by
  by_cases hlong : 60 < it.size_
  · simp only [Syscalls.collectLine, gt_iff_lt, hlong, if_true, Lib.Outcome.bind_eq_ok, StringRef.make_ok_iff]
    constructor
    · rintro ⟨data', pid, -, syscall, ⟨-, hsyscall, -⟩, -⟩ -
      omega
    · intro hin
      have hblock := hin trivial
      exact ⟨_, _, ⟨by omega, by omega, rfl⟩, _, ⟨by omega, by omega, rfl⟩, _,
        SysRecord.make_ok it.block _ _ (by omega) (by omega), rfl⟩
  · simp only [Syscalls.collectLine, gt_iff_lt, hlong, if_false]
    exact ⟨fun _ h => absurd h not_false, fun _ => ⟨data, rfl⟩⟩

/-- Wherever the lines lie, the plain collector makes the records that the other one makes, without
their names; and it returns exactly when the numbers of every long line lie in the block, also where
the other one runs out of a blank name or throws on a length. -/
theorem collectors_agree (lines : List StringRef) (data : DataAggregator SysParamsRecord) :
    (∀ data', collectRecords lines data = .ok data' →
        Syscalls.collect SysRecord.make lines (plain data) = .ok (plain data')) ∧
      ((∃ data', Syscalls.collect SysRecord.make lines (plain data) = .ok data') ↔
        ∀ it ∈ lines, 60 < it.size_ → it.begin_ + 65 ≤ it.block.length) := by
  constructor
  · intro data' h
    induction lines generalizing data with
    | nil =>
      obtain rfl := Except.ok.inj h
      rfl
    | cons it lines ih =>
      obtain ⟨mid, hmid, hrest⟩ := Lib.Outcome.foldlM_cons_eq_ok.mp h
      exact Lib.Outcome.foldlM_cons_eq_ok.mpr ⟨_, syscallsLine_agrees hmid, ih mid hrest⟩
  · generalize plain data = data
    induction lines generalizing data with
    | nil => exact ⟨fun _ => by simp, fun _ => ⟨data, rfl⟩⟩
    | cons it lines ih =>
      rw [List.forall_mem_cons]
      constructor
      · rintro ⟨data', hdata'⟩
        obtain ⟨mid, hmid, hrest⟩ := Lib.Outcome.foldlM_cons_eq_ok.mp hdata'
        exact ⟨syscallsLine_returns_iff.mp ⟨mid, hmid⟩, (ih mid).mp ⟨data', hrest⟩⟩
      · intro h
        obtain ⟨mid, hmid⟩ := syscallsLine_returns_iff.mpr h.1
        obtain ⟨data', hrest⟩ := (ih mid).mpr h.2
        exact ⟨data', Lib.Outcome.foldlM_cons_eq_ok.mpr ⟨mid, hmid, hrest⟩⟩

/- `while(*begin != c) ++begin;` over the bytes from `pos` on, and `while(*end != c) --end;`. -/
def seekRight (c : Byte) : List Byte → Nat → Except Fault Nat
  | [], pos => .error (.outside pos)
  | b :: rest, pos => if b ≠ c then seekRight c rest (pos + 1) else .ok pos

def seekLeft (c : Byte) (block : List Byte) : Nat → Except Fault Nat
  | 0 => do
    let b ← readAt block 0
    if b ≠ c then .error (.outside (-1)) else .ok 0
  | pos + 1 => do
    let b ← readAt block (pos + 1)
    if b ≠ c then seekLeft c block pos else .ok (pos + 1)

/-- `set_arg`, whose call in the constructor is commented out. -/
def SysParamsRecord.set_arg (r : SysParamsRecord) (arg : StringRef) :
    Except Fault SysParamsRecord := do
  let first ← seekRight 40 (arg.block.drop arg.begin_) arg.begin_
  let last ← seekLeft 41 arg.block arg.end_
  let s ← stringOf arg.block first (last + 1)
  pure { r with _arg := s }

theorem seekRight_append {c : Byte} {front : List Byte} (h : c ∉ front) (rest : List Byte)
    (pos : Nat) : seekRight c (front ++ c :: rest) pos = .ok (pos + front.length) := by
  induction front generalizing pos with
  | nil => simp [seekRight]
  | cons b front ih =>
    rw [List.mem_cons, not_or] at h
    rw [List.cons_append, seekRight, if_pos (Ne.symm h.1), ih h.2, List.length_cons]
    congr 1
    omega

theorem seekLeft_found {c : Byte} {block : List Byte} {pos : Nat} (h : block[pos]? = some c) :
    seekLeft c block pos = .ok pos := by
  have hread : readAt block pos = .ok c := by rw [readAt, h]
  cases pos <;> simp [seekLeft, hread, Lib.Outcome.ok_bind]

theorem seekLeft_step {c b : Byte} {block : List Byte} {pos : Nat} (h : block[pos + 1]? = some b)
    (hne : b ≠ c) : seekLeft c block (pos + 1) = seekLeft c block pos := by
  have hread : readAt block (pos + 1) = .ok b := by rw [readAt, h]
  rw [seekLeft, hread, Lib.Outcome.ok_bind, if_pos hne]

/-- The first `(` of the column, and the `)` in front of the byte behind it. -/
theorem set_arg_between {front gap : List Byte} (hgap : 40 ∉ gap) (args after : List Byte)
    (r : SysParamsRecord) :
    r.set_arg ⟨front ++ (gap ++ 40 :: (args ++ 41 :: newline :: after)), front.length,
        gap.length + 1 + args.length + 1⟩ =
      .ok { r with _arg := 40 :: args ++ [41] } := by
  have hopen : seekRight 40 ((front ++ (gap ++ 40 :: (args ++ 41 :: newline :: after))).drop
      front.length) front.length = .ok (front.length + gap.length) := by
    rw [List.drop_left, seekRight_append hgap]
  have hat (k : Nat) : (front ++ (gap ++ 40 :: (args ++ 41 :: newline :: after)))[front.length +
      (gap.length + 1 + args.length + k)]? = (41 :: newline :: after)[k]? := by
    have hcut : front ++ (gap ++ 40 :: (args ++ 41 :: newline :: after)) =
        (front ++ gap ++ 40 :: args) ++ 41 :: newline :: after := by simp
    rw [hcut, List.getElem?_append_right]
    · congr 1
      simp only [List.length_append, List.length_cons]
      omega
    · simp only [List.length_append, List.length_cons]
      omega
  have hclose : seekLeft 41 (front ++ (gap ++ 40 :: (args ++ 41 :: newline :: after)))
      (front.length + (gap.length + 1 + args.length + 1)) =
        .ok (front.length + (gap.length + 1 + args.length)) := by
    have hstep := seekLeft_step (hat 1) (c := 41) (by decide)
    have hfound := seekLeft_found (hat 0)
    exact hstep.trans hfound
  have hstring : stringOf (front ++ (gap ++ 40 :: (args ++ 41 :: newline :: after)))
      (front.length + gap.length) ((front.length + (gap.length + 1 + args.length) : Nat) + 1) =
        .ok (40 :: args ++ [41]) := by
    rw [stringOf_ok_iff]
    refine ⟨by omega, by simp; omega, ?_⟩
    have hsize : ((front.length + (gap.length + 1 + args.length) : Nat) + 1 : Int).toNat -
        (front.length + gap.length) = (40 :: args ++ [41]).length := by
      simp only [List.length_append, List.length_cons, List.length_nil]
      omega
    have hcut : 40 :: (args ++ 41 :: newline :: after) = (40 :: args ++ [41]) ++ newline :: after := by
      simp
    rw [hsize, ← List.append_assoc, ← List.length_append, List.drop_left, hcut, List.take_left]
  rw [SysParamsRecord.set_arg, StringRef.end_]
  simp only [hopen, hclose, hstring, Lib.Outcome.ok_bind]
  rfl

/-- Where the column of the parameters starts in the line of an event: at the second digit of the
call. -/
theorem render_call {e : Event} (h : FitsColumns e) :
    ∃ front gap, front.length = 63 ∧ 40 ∉ gap ∧ e.render = front ++ (gap ++ 40 :: (e.args ++ [41])) := by
  have hname := padLeft_length (c := blank) h.comm_length
  have hpid := padRight_length (c := blank) (text_length_le_of_le (k := 5) (by decide) h.pid)
  have hdash : (ascii "-").length = 1 := rfl
  obtain ⟨d, digits, hnr⟩ := List.exists_cons_of_ne_nil (text_ne_nil e.nr)
  refine ⟨padLeft blank 16 e.comm ++ ascii "-" ++ padRight blank 5 (text e.pid) ++ e.middle ++ [d],
    digits ++ [blank], ?_, ?_, ?_⟩
  · simp only [List.length_append, hname, hpid, middle_length h, hdash, List.length_singleton]
  · rw [List.mem_append, List.mem_singleton]
    rintro (hdigit | hblank)
    · have hmem : 40 ∈ text e.nr := hnr ▸ List.mem_cons_of_mem d hdigit
      exact not_mem_text (by decide) e.nr hmem
    · exact absurd hblank (by decide)
  · have hbetween : ascii " (" = [blank, 40] := by decide
    have hend : ascii ")" = [41] := by decide
    simp [Event.render, hnr, hbetween, hend]

/-- From the line of any event that fits the columns `set_arg` takes the parameters with their
parentheses, whatever is between these and whatever lies around the line. -/
theorem set_arg_render {e : Event} (h : FitsColumns e) (before after : List Byte)
    (r : SysParamsRecord) :
    r.set_arg ⟨before ++ e.render ++ newline :: after, before.length + 63, e.render.length - 63⟩ =
      .ok { r with _arg := ascii "(" ++ e.args ++ ascii ")" } := by
  obtain ⟨front, gap, hfront, hgap, hrender⟩ := render_call h
  have hblock : before ++ e.render ++ newline :: after =
      (before ++ front) ++ (gap ++ 40 :: (e.args ++ 41 :: newline :: after)) := by
    simp [hrender]
  have hstart : before.length + 63 = (before ++ front).length := by
    rw [List.length_append, hfront]
  have hsize : e.render.length - 63 = gap.length + 1 + e.args.length + 1 := by
    rw [hrender]
    simp only [List.length_append, List.length_cons, List.length_nil, hfront]
    omega
  rw [hblock, hstart, hsize]
  exact set_arg_between hgap e.args after r

/- Parentheses among the parameters stay. -/
theorem set_arg_render_nested :
    ({} : SysParamsRecord).set_arg
        ⟨ascii "\n" ++ { plainEvent 812 0 5 3 with args := ascii "1), (2" }.render ++ [newline],
          64, { plainEvent 812 0 5 3 with args := ascii "1), (2" }.render.length - 63⟩ =
      .ok { _arg := ascii "(1), (2)" } :=
  set_arg_render ⟨by decide, by decide, by decide, by decide, by decide, by decide, by decide⟩
    (ascii "\n") [] {}

end SyscallSensor.Trace
