import SyscallSensor.StringRef
import SyscallSensor.Lib.Outcome
import SyscallSensor.Lib.Transition

/-! `ogzstream`: a buffer of 303 bytes in front of zlib, any of whose calls may fail and which
keeps what it has taken for as long as it likes. What the standard streams do around it (`sputc`,
`xsputn`, `flush`, the state bits) is written out. -/
namespace SyscallSensor.GzStream
open Text
open Lib.Transition (System)

def bufferSize : Nat := 47 + 256

/- `std::ios_base::openmode`, as far as `open` looks at it. -/
structure OpenMode where
  in_ : Bool := false
  out : Bool := false
  ate : Bool := false
  app : Bool := false
deriving DecidableEq, Repr

def OpenMode.fmode (mode : OpenMode) : List Byte :=
  (if mode.in_ then ascii "r" else if mode.out then ascii "w" else []) ++ ascii "b"

/- What zlib does with its calls, the first of them being number 0: which ones succeed, and how
   many of the bytes it has taken for a file it has written to it by then. -/
structure Zlib where
  succeeds : Nat → Bool
  through : Nat → Nat

/- A file that `gzopen` has opened, the bytes that `gzwrite` has taken for it, and how many of them
   zlib has written. -/
structure GzFile where
  name : List Byte := []
  fmode : List Byte := []
  accepted : List Byte := []
  through : Nat := 0
deriving DecidableEq, Repr

/-- What `gunzip` finds. -/
def GzFile.onDisk (file : GzFile) : List Byte := file.accepted.take file.through

/- What has been written stays, and nothing is written that has not been taken. -/
def GzFile.letThrough (file : GzFile) (n : Nat) : GzFile :=
  { file with through := max file.through (min n file.accepted.length) }

/- `gzclose` writes all that is left. -/
def GzFile.finish (file : GzFile) : GzFile := { file with through := file.accepted.length }

@[simp] theorem GzFile.letThrough_fields (file : GzFile) (n : Nat) :
    (file.letThrough n).name = file.name ∧ (file.letThrough n).fmode = file.fmode ∧
      (file.letThrough n).accepted = file.accepted := ⟨rfl, rfl, rfl⟩

theorem GzFile.onDisk_finish (file : GzFile) : file.finish.onDisk = file.accepted :=
  List.take_length

/- `pending` is what lies between `pbase()` and `pptr()`, `closed` the files closed before `file`,
   and `calls` counts the calls into zlib. -/
structure GzStreamBuf where
  closed : List GzFile := []
  file : GzFile := {}
  pending : List Byte := []
  opened : Bool := false
  mode : OpenMode := {}
  calls : Nat := 0
deriving DecidableEq, Repr

/- What may go wrong in memory: a store behind the buffer, or zlib called without a file. -/
inductive GzFault where
  | outside (pos : Nat)
  | notOpen
deriving DecidableEq, Repr

structure OGzStream where
  buf : GzStreamBuf := {}
  badbit : Bool := false
deriving DecidableEq, Repr

section
variable (zlib : Zlib)

/-- `gzwrite` takes everything or nothing, and nothing is always taken. -/
def flush_buffer (b : GzStreamBuf) : Except GzFault (Bool × GzStreamBuf) :=
  if b.opened then
    if zlib.succeeds b.calls || b.pending.isEmpty then
      .ok (true, { b with
        file := { b.file with accepted := b.file.accepted ++ b.pending }.letThrough
          (zlib.through b.calls)
        pending := []
        calls := b.calls + 1 })
    else .ok (false, { b with
      file := b.file.letThrough (zlib.through b.calls)
      calls := b.calls + 1 })
  else .error .notOpen

/-- `*pptr() = c` and `pbump(1)` come before the flush. -/
def overflow (c : Option Byte) (b : GzStreamBuf) : Except GzFault (Bool × GzStreamBuf) :=
  if !b.mode.out || !b.opened then .ok (false, b)
  else
    match c with
    | some c =>
      if b.pending.length < bufferSize then
        flush_buffer zlib { b with pending := b.pending ++ [c] }
      else .error (.outside b.pending.length)
    | none => flush_buffer zlib b

def sync (b : GzStreamBuf) : Except GzFault (Bool × GzStreamBuf) :=
  if b.pending.isEmpty then .ok (true, b) else flush_buffer zlib b

def GzStreamBuf.open (name : List Byte) (open_mode : OpenMode) (b : GzStreamBuf) :
    Bool × GzStreamBuf :=
  if b.opened then (false, b)
  else if open_mode.ate || open_mode.app || (open_mode.in_ && open_mode.out) then
    (false, { b with mode := open_mode })
  else if zlib.succeeds b.calls then
    (true, { b with
      file := { name := name, fmode := open_mode.fmode }
      opened := true
      mode := open_mode
      calls := b.calls + 1 })
  else (false, { b with mode := open_mode, calls := b.calls + 1 })

/-- What `sync` returns is not looked at. -/
def GzStreamBuf.close (b : GzStreamBuf) : Except GzFault (Bool × GzStreamBuf) :=
  if b.opened then do
    let (_, b) ← sync zlib b
    let done := zlib.succeeds b.calls
    let file := if done then b.file.finish else b.file.letThrough (zlib.through b.calls)
    pure (done, { b with
      closed := b.closed ++ [file]
      file := {}
      opened := false
      calls := b.calls + 1 })
  else pure (false, b)

/- `epptr()` is one before the end of the buffer. -/
def sputc (c : Byte) (b : GzStreamBuf) : Except GzFault (Bool × GzStreamBuf) :=
  if b.pending.length < bufferSize - 1 then .ok (true, { b with pending := b.pending ++ [c] })
  else overflow zlib (some c) b

def xsputn : List Byte → GzStreamBuf → Except GzFault (Bool × GzStreamBuf)
  | [], b => pure (true, b)
  | c :: s, b => do
    let (taken, b) ← sputc zlib c b
    if taken then xsputn s b else pure (false, b)

/-- `operator<<`: nothing on a stream that is not good. -/
def OGzStream.write (bytes : List Byte) (s : OGzStream) : Except GzFault OGzStream :=
  if s.badbit then pure s
  else do
    let (taken, buf) ← xsputn zlib bytes s.buf
    pure ⟨buf, !taken⟩

def OGzStream.flush (s : OGzStream) : Except GzFault OGzStream :=
  if s.badbit then pure s
  else do
    let (synced, buf) ← sync zlib s.buf
    pure ⟨buf, !synced⟩

/- The state bits are not cleared. -/
def OGzStream.open (name : List Byte) (open_mode : OpenMode) (s : OGzStream) : OGzStream :=
  let (opened, buf) := s.buf.open zlib name open_mode
  ⟨buf, s.badbit || !opened⟩

def OGzStream.close (s : OGzStream) : Except GzFault OGzStream :=
  if s.buf.opened then do
    let (closed, buf) ← s.buf.close zlib
    pure ⟨buf, s.badbit || !closed⟩
  else pure s

end

/-- Everything that has been taken: what `gzwrite` has taken for the files, and what is still in
the buffer. -/
def GzStreamBuf.output (b : GzStreamBuf) : List Byte :=
  b.closed.flatMap GzFile.accepted ++ b.file.accepted ++ b.pending

/- What writing does not touch. -/
structure Kept (b t : GzStreamBuf) : Prop where
  closed : t.closed = b.closed
  name : t.file.name = b.file.name
  fmode : t.file.fmode = b.file.fmode
  opened : t.opened = b.opened
  shut : b.opened = false → t.file = b.file

theorem Kept.refl (b : GzStreamBuf) : Kept b b := ⟨rfl, rfl, rfl, rfl, fun _ => rfl⟩

theorem Kept.trans {b t u : GzStreamBuf} (h : Kept b t) (h' : Kept t u) : Kept b u :=
  ⟨h'.closed.trans h.closed, h'.name.trans h.name, h'.fmode.trans h.fmode,
    h'.opened.trans h.opened,
    fun hshut => (h'.shut (h.opened.trans hshut)).trans (h.shut hshut)⟩

section
variable (zlib : Zlib) {b : GzStreamBuf}

theorem flush_buffer_spec (hopen : b.opened = true) :
    ∃ flushed t, flush_buffer zlib b = .ok (flushed, t) ∧ t.output = b.output ∧ Kept b t ∧
      (flushed = true → t.pending = []) ∧ (flushed = false → t.pending = b.pending) := by
  by_cases hwrites : (zlib.succeeds b.calls || b.pending.isEmpty) = true
  · refine ⟨true, _, by rw [flush_buffer, if_pos hopen, if_pos hwrites], ?_, ?_, ?_, ?_⟩
    · simp [GzStreamBuf.output]
    · exact ⟨rfl, rfl, rfl, rfl, fun hshut => absurd hopen (by simp [hshut])⟩
    · exact fun _ => rfl
    · intro hfalse
      cases hfalse
  · refine ⟨false, _, by rw [flush_buffer, if_pos hopen, if_neg hwrites], ?_, ?_, ?_, ?_⟩
    · simp [GzStreamBuf.output]
    · exact ⟨rfl, rfl, rfl, rfl, fun hshut => absurd hopen (by simp [hshut])⟩
    · intro htrue
      cases htrue
    · exact fun _ => rfl

/- What putting bytes into the buffer does: some of them are taken, from the front, and all of
   them unless the end is reported. -/
structure Puts (bytes : List Byte) (b t : GzStreamBuf) (taken : Bool) : Prop where
  output : ∃ front, front <+: bytes ∧ t.output = b.output ++ front ∧ (taken = true → front = bytes)
  kept : Kept b t
  room : t.pending.length ≤ if taken then bufferSize - 1 else bufferSize

/-- A byte put behind a buffer that has room is stored inside it. -/
theorem sputc_spec (c : Byte) (h : b.pending.length ≤ bufferSize - 1) :
    ∃ taken t, sputc zlib c b = .ok (taken, t) ∧ Puts [c] b t taken := by
  by_cases hroom : b.pending.length < bufferSize - 1
  · refine ⟨true, _, by rw [sputc, if_pos hroom], ?_, ?_, ?_⟩
    · exact ⟨[c], List.prefix_rfl, by simp [GzStreamBuf.output], fun _ => rfl⟩
    · exact ⟨rfl, rfl, rfl, rfl, fun _ => rfl⟩
    · rw [if_pos rfl, List.length_append, List.length_singleton]
      omega
  by_cases hshut : (!b.mode.out || !b.opened) = true
  · -- the end is reported before the byte is stored
    refine ⟨false, b, by rw [sputc, if_neg hroom, overflow, if_pos hshut], ?_, .refl b, ?_⟩
    · refine ⟨[], List.nil_prefix, by simp, ?_⟩
      intro htrue
      cases htrue
    · rw [if_neg Bool.false_ne_true]
      exact Nat.le_trans h (Nat.sub_le _ _)
  · have hopen : b.opened = true := by
      simp only [Bool.or_eq_true, Bool.not_eq_true', not_or, Bool.not_eq_false] at hshut
      exact hshut.2
    have hin : b.pending.length < bufferSize := Nat.lt_of_le_of_lt h (by decide)
    obtain ⟨flushed, t, hflush, houtput, hkept, hempty, hfull⟩ :=
      flush_buffer_spec zlib (b := { b with pending := b.pending ++ [c] }) hopen
    obtain ⟨hclosed, hname, hfmode, hopened, hsame⟩ := hkept
    refine ⟨flushed, t, ?_, ?_, ⟨hclosed, hname, hfmode, hopened, hsame⟩, ?_⟩
    · simp only [sputc, if_neg hroom, overflow, if_neg hshut, if_pos hin, hflush]
    · refine ⟨[c], List.prefix_rfl, ?_, fun _ => rfl⟩
      rw [houtput]
      simp [GzStreamBuf.output]
    · cases flushed with
      | true => simp [hempty rfl]
      | false =>
        rw [hfull rfl, if_neg Bool.false_ne_true, List.length_append, List.length_singleton]
        omega

theorem xsputn_spec (bytes : List Byte) (h : b.pending.length ≤ bufferSize - 1) :
    ∃ taken t, xsputn zlib bytes b = .ok (taken, t) ∧ Puts bytes b t taken := by
  induction bytes generalizing b with
  | nil => exact ⟨true, b, rfl, ⟨[], List.prefix_rfl, by simp, fun _ => rfl⟩, .refl b, h⟩
  | cons c bytes ih =>
    obtain ⟨taken, mid, hput, ⟨front, hfront, houtput, hall⟩, hkept, hroom⟩ :=
      sputc_spec zlib c h
    cases taken with
    | false =>
      refine ⟨false, mid, ?_, ?_, hkept, hroom⟩
      · rw [xsputn, hput]
        rfl
      · refine ⟨front, hfront.trans (List.prefix_append [c] bytes), houtput, ?_⟩
        intro htrue
        cases htrue
    | true =>
      obtain rfl := hall rfl
      obtain ⟨taken, t, hputs, ⟨rest, hrest, houtput', hall'⟩, hkept', hroom'⟩ := ih hroom
      refine ⟨taken, t, ?_, ?_, hkept.trans hkept', hroom'⟩
      · rw [xsputn, hput, ← hputs]
        rfl
      · refine ⟨c :: rest, (List.prefix_cons_inj c).mpr hrest, ?_, ?_⟩
        · rw [houtput', houtput, List.append_assoc]
          rfl
        · intro htaken
          rw [hall' htaken]

end

/-- A stream as its own operations leave it: on a good one there is room for a byte in front of
`epptr()`, on a bad one the byte behind may have been used; and a good one has closed its files
with all that they were given. -/
structure OGzStream.Valid (s : OGzStream) : Prop where
  room : s.buf.pending.length ≤ if s.badbit then bufferSize else bufferSize - 1
  shut : s.buf.opened = false → s.buf.file.accepted = []
  settled : s.badbit = false → ∀ file ∈ s.buf.closed, file.onDisk = file.accepted

/-- What writing `bytes` leads to: a good stream has taken all of them, a bad one the first of
them, and a stream that was bad before takes nothing. -/
structure Wrote (bytes : List Byte) (s t : OGzStream) : Prop where
  output : ∃ front, front <+: bytes ∧ t.buf.output = s.buf.output ++ front ∧
    (t.badbit = false → front = bytes)
  bad : s.badbit = true → t.badbit = true ∧ t.buf.output = s.buf.output

theorem Wrote.refl (s : OGzStream) : Wrote [] s s :=
  ⟨⟨[], List.prefix_rfl, by simp, fun _ => rfl⟩, fun h => ⟨h, rfl⟩⟩

theorem Wrote.bad_refl (bytes : List Byte) {s : OGzStream} (h : s.badbit = true) :
    Wrote bytes s s := by
  refine ⟨⟨[], List.nil_prefix, by simp, ?_⟩, fun h => ⟨h, rfl⟩⟩
  intro hgood
  rw [h] at hgood
  cases hgood

/- Nothing is written, and the stream may have become bad. -/
theorem Wrote.of_output {s t : OGzStream} (houtput : t.buf.output = s.buf.output)
    (hbad : s.badbit = true → t.badbit = true) : Wrote [] s t :=
  ⟨⟨[], List.prefix_rfl, by simp [houtput], fun _ => rfl⟩, fun h => ⟨hbad h, houtput⟩⟩

theorem Wrote.append {bytes bytes' : List Byte} {s t u : OGzStream} (h : Wrote bytes s t)
    (h' : Wrote bytes' t u) : Wrote (bytes ++ bytes') s u := by
  obtain ⟨⟨front, hfront, houtput, hall⟩, hbad⟩ := h
  obtain ⟨⟨front', hfront', houtput', hall'⟩, hbad'⟩ := h'
  refine ⟨?_, ?_⟩
  · cases hmid : t.badbit with
    | true =>
      obtain ⟨hend, hsame⟩ := hbad' hmid
      refine ⟨front, hfront.trans (List.prefix_append _ _), hsame.trans houtput, ?_⟩
      intro hgood
      rw [hend] at hgood
      cases hgood
    | false =>
      obtain rfl := hall hmid
      refine ⟨front ++ front', (List.prefix_append_right_inj front).mpr hfront', ?_, ?_⟩
      · rw [houtput', houtput, List.append_assoc]
      · intro hgood
        rw [hall' hgood]
  · intro hs
    obtain ⟨ht, hsame⟩ := hbad hs
    obtain ⟨hu, hsame'⟩ := hbad' ht
    exact ⟨hu, hsame'.trans hsame⟩

section
variable (zlib : Zlib) {s : OGzStream}

theorem write_spec (bytes : List Byte) (hs : s.Valid) :
    ∃ t, s.write zlib bytes = .ok t ∧ t.Valid ∧ Wrote bytes s t ∧ Kept s.buf t.buf := by
  cases hbad : s.badbit with
  | true =>
    exact ⟨s, by rw [OGzStream.write, if_pos hbad]; rfl, hs, .bad_refl bytes hbad, .refl s.buf⟩
  | false =>
    have hroom := hs.room
    rw [hbad, if_neg Bool.false_ne_true] at hroom
    obtain ⟨taken, buf, hputs, ⟨houtput, hkept, hroom'⟩⟩ :=
      xsputn_spec zlib bytes hroom
    refine ⟨⟨buf, !taken⟩, ?_, ⟨?_, ?_, ?_⟩, ⟨?_, ?_⟩, hkept⟩
    · rw [OGzStream.write, hbad, if_neg Bool.false_ne_true, hputs]
      rfl
    · cases taken <;> exact hroom'
    · intro hshut
      rw [hkept.shut (hkept.opened ▸ hshut)]
      exact hs.shut (hkept.opened ▸ hshut)
    · intro _
      rw [hkept.closed]
      exact hs.settled hbad
    · obtain ⟨front, hfront, hout, hall⟩ := houtput
      refine ⟨front, hfront, hout, ?_⟩
      intro hgood
      exact hall (by simpa using hgood)
    · intro htrue
      rw [hbad] at htrue
      cases htrue

theorem sync_spec {b : GzStreamBuf} (h : b.opened = true) :
    ∃ synced t, sync zlib b = .ok (synced, t) ∧ t.output = b.output ∧ Kept b t ∧
      (synced = true → t.pending = []) ∧ (synced = false → t.pending = b.pending) ∧
      (b.pending = [] → t = b) := by
  cases hpending : b.pending with
  | nil =>
    refine ⟨true, b, by rw [sync, hpending]; rfl, rfl, .refl b, fun _ => hpending, ?_, fun _ => rfl⟩
    intro hfalse
    cases hfalse
  | cons c rest =>
    obtain ⟨flushed, t, hflush, houtput, hkept, hempty, hfull⟩ :=
      flush_buffer_spec zlib h
    refine ⟨flushed, t, by rw [sync, hpending]; exact hflush, houtput, hkept, hempty, ?_, ?_⟩
    · rw [← hpending]
      exact hfull
    · intro hnil
      cases hnil

/- A flush with nothing to do. -/
theorem flush_idle (h : s.badbit = true ∨ s.buf.pending = []) : s.flush zlib = .ok s := by
  cases hbad : s.badbit with
  | true => rw [OGzStream.flush, if_pos hbad]; rfl
  | false =>
    have hpending := h.resolve_left (by simp [hbad])
    rw [OGzStream.flush, hbad, if_neg Bool.false_ne_true, sync, hpending]
    cases s with
    | mk buf badbit =>
      obtain rfl := hbad
      rfl

theorem flush_spec (hs : s.Valid)
    (hallowed : s.buf.opened = true ∨ s.badbit = true ∨ s.buf.pending = []) :
    ∃ t, s.flush zlib = .ok t ∧ t.Valid ∧ Wrote [] s t ∧ Kept s.buf t.buf ∧
      (t.badbit = false → t.buf.pending = []) := by
  by_cases hidle : s.badbit = true ∨ s.buf.pending = []
  · refine ⟨s, flush_idle zlib hidle, hs, .refl s, .refl s.buf, fun hgood => ?_⟩
    exact hidle.resolve_left (by simp [hgood])
  · rw [not_or, Bool.not_eq_true] at hidle
    obtain ⟨hbad, hpending⟩ := hidle
    have hopened : s.buf.opened = true := by
      simpa [hbad, hpending] using hallowed
    have hroom := hs.room
    rw [hbad, if_neg Bool.false_ne_true] at hroom
    obtain ⟨synced, buf, hsync, houtput, hkept, hempty, hfull, -⟩ :=
      sync_spec zlib hopened
    refine ⟨⟨buf, !synced⟩, ?_, ⟨?_, ?_, ?_⟩, .of_output houtput (by simp [hbad]), hkept, ?_⟩
    · rw [OGzStream.flush, hbad, if_neg Bool.false_ne_true, hsync]
      rfl
    · cases synced with
      | true => simp [hempty rfl]
      | false =>
        rw [hfull rfl]
        exact Nat.le_trans hroom (Nat.sub_le _ _)
    · intro hshut
      rw [hkept.opened, hopened] at hshut
      cases hshut
    · intro _
      rw [hkept.closed]
      exact hs.settled hbad
    · intro hgood
      exact hempty (by simpa using hgood)

/- How `gzstreambuf::open` ends. -/
theorem buf_open_cases (name : List Byte) (open_mode : OpenMode) (b : GzStreamBuf) :
    (∃ t, b.open zlib name open_mode = (false, t) ∧ t.closed = b.closed ∧ t.file = b.file ∧
      t.pending = b.pending ∧ t.opened = b.opened) ∨
    (b.opened = false ∧ ∃ t, b.open zlib name open_mode = (true, t) ∧ t.closed = b.closed ∧
      t.file = ⟨name, open_mode.fmode, [], 0⟩ ∧ t.pending = b.pending ∧ t.opened = true) := by
  cases hopened : b.opened with
  | true =>
    left
    exact ⟨b, by rw [GzStreamBuf.open, if_pos hopened], rfl, rfl, rfl, hopened⟩
  | false =>
    rw [GzStreamBuf.open, hopened, if_neg Bool.false_ne_true]
    split
    · exact .inl ⟨_, rfl, rfl, rfl, rfl, rfl⟩
    · split
      · exact .inr ⟨rfl, _, rfl, rfl, rfl, rfl, rfl⟩
      · exact .inl ⟨_, rfl, rfl, rfl, rfl, rfl⟩

/-- After an `open` that leaves it good, the stream has a new file. -/
theorem open_spec (name : List Byte) (open_mode : OpenMode) (hs : s.Valid) :
    ∃ t, s.open zlib name open_mode = t ∧ t.Valid ∧ Wrote [] s t ∧
      (t.badbit = false → s.badbit = false ∧ t.buf.opened = true ∧
        t.buf.file = ⟨name, open_mode.fmode, [], 0⟩ ∧ t.buf.closed = s.buf.closed ∧
        t.buf.pending = s.buf.pending) := by
  have hroom := hs.room
  cases buf_open_cases zlib name open_mode s.buf with
  | inl hfails =>
    obtain ⟨buf, hopen, hclosed, hfile, hpending, hopened⟩ := hfails
    have hgrow : s.buf.pending.length ≤ bufferSize := by
      refine Nat.le_trans hroom ?_
      split
      · exact Nat.le_refl _
      · exact Nat.sub_le _ _
    refine ⟨⟨buf, true⟩, ?_, ⟨?_, ?_, ?_⟩, .of_output ?_ fun _ => rfl, ?_⟩
    · rw [OGzStream.open, hopen]
      simp
    · exact hpending ▸ hgrow
    · intro hshut
      rw [hfile]
      exact hs.shut (hopened ▸ hshut)
    · intro hgood
      cases hgood
    · simp [GzStreamBuf.output, hclosed, hfile, hpending]
    · intro hgood
      cases hgood
  | inr hopens =>
    obtain ⟨hshut, buf, hopen, hclosed, hfile, hpending, hopened⟩ := hopens
    refine ⟨⟨buf, s.badbit⟩, ?_, ⟨?_, ?_, ?_⟩, .of_output ?_ id, ?_⟩
    · rw [OGzStream.open, hopen]
      simp
    · rw [hpending]
      exact hroom
    · intro hnot
      rw [hopened] at hnot
      cases hnot
    · intro hgood
      rw [hclosed]
      exact hs.settled hgood
    · simp [GzStreamBuf.output, hclosed, hfile, hpending, hs.shut hshut]
    · intro hgood
      exact ⟨hgood, hopened, hfile, hclosed, hpending⟩

/-- A `close` puts the open file behind the closed ones, with all that it was given on a stream
that is still good. -/
theorem close_spec (hs : s.Valid) :
    ∃ t, s.close zlib = .ok t ∧ t.Valid ∧ Wrote [] s t ∧
      (s.buf.opened = true → s.buf.pending = [] → t.badbit = false →
        t.buf.closed = s.buf.closed ++ [s.buf.file.finish] ∧ t.buf.pending = []) := by
  have hroom := hs.room
  cases hopened : s.buf.opened with
  | false =>
    refine ⟨s, by rw [OGzStream.close, hopened, if_neg Bool.false_ne_true]; rfl, hs, .refl s, ?_⟩
    intro htrue
    cases htrue
  | true =>
    obtain ⟨synced, buf, hsync, houtput, hkept, hempty, hfull, hnothing⟩ :=
      sync_spec zlib hopened
    -- `gzclose` fails, or the file has everything
    have hdone (hgood : (s.badbit || !zlib.succeeds buf.calls) = false) :
        s.badbit = false ∧ zlib.succeeds buf.calls = true := by
      simpa using hgood
    refine ⟨⟨{ buf with
        closed := buf.closed ++ [if zlib.succeeds buf.calls then buf.file.finish
          else buf.file.letThrough (zlib.through buf.calls)]
        file := {}
        opened := false
        calls := buf.calls + 1 }, s.badbit || !zlib.succeeds buf.calls⟩, ?_, ⟨?_, fun _ => rfl, ?_⟩,
      .of_output ?_ ?_, ?_⟩
    · rw [OGzStream.close, hopened, if_pos rfl, GzStreamBuf.close, hopened, if_pos rfl, hsync]
      rfl
    · have hpending : buf.pending.length ≤ s.buf.pending.length := by
        cases synced with
        | true => simp [hempty rfl]
        | false => rw [hfull rfl]
      refine Nat.le_trans hpending (Nat.le_trans hroom ?_)
      cases s.badbit with
      | true => exact Nat.le_refl _
      | false =>
        rw [if_neg Bool.false_ne_true]
        dsimp only
        cases zlib.succeeds buf.calls with
        | false => exact Nat.sub_le _ _
        | true => exact Nat.le_refl _
    · intro hgood
      obtain ⟨hstart, hsucceeds⟩ := hdone hgood
      have hold := hs.settled hstart
      rw [← hkept.closed] at hold
      refine List.forall_mem_append.mpr ⟨hold, List.forall_mem_singleton.mpr ?_⟩
      rw [if_pos hsucceeds]
      exact GzFile.onDisk_finish buf.file
    · rw [← houtput]
      cases zlib.succeeds buf.calls <;> simp [GzStreamBuf.output, GzFile.finish]
    · intro hbad
      rw [hbad]
      rfl
    · intro _ hnil hgood
      obtain rfl := hnothing hnil
      refine ⟨?_, hnil⟩
      rw [if_pos (hdone hgood).2]

end

/- What a program calls on a stream. -/
inductive Op where
  | write (bytes : List Byte)
  | flush
  | open (name : List Byte) (open_mode : OpenMode)
  | close

def Op.step (zlib : Zlib) : Op → OGzStream → Except GzFault OGzStream
  | .write bytes, s => s.write zlib bytes
  | .flush, s => s.flush zlib
  | .open name open_mode, s => pure (s.open zlib name open_mode)
  | .close, s => s.close zlib

/- What `sync` does not ask: with bytes in the buffer, `flush` goes to zlib on a good stream whether
   there is an open file or not. -/
def Op.Allowed : Op → OGzStream → Prop
  | .flush, s => s.buf.opened = true ∨ s.badbit = true ∨ s.buf.pending = []
  | _, _ => True

/-- All runs of a stream over one zlib, up to a call of zlib without a file. -/
def ogzstream (zlib : Zlib) : System OGzStream Op where
  init s := s = {}
  step op s t := op.step zlib s = .ok t

def Op.bytes : Op → List Byte
  | .write bytes => bytes
  | _ => []

theorem step_spec (zlib : Zlib) {s : OGzStream} (hs : s.Valid) {op : Op}
    (hallowed : op.Allowed s) :
    ∃ t, op.step zlib s = .ok t ∧ t.Valid ∧ Wrote op.bytes s t := by
  cases op with
  | write bytes =>
    obtain ⟨t, hstep, hvalid, hwrote, -⟩ := write_spec zlib bytes hs
    exact ⟨t, hstep, hvalid, hwrote⟩
  | flush =>
    obtain ⟨t, hstep, hvalid, hwrote, -⟩ := flush_spec zlib hs hallowed
    exact ⟨t, hstep, hvalid, hwrote⟩
  | «open» name open_mode =>
    obtain ⟨t, rfl, hvalid, hwrote, -⟩ := open_spec zlib name open_mode hs
    exact ⟨_, rfl, hvalid, hwrote⟩
  | close =>
    obtain ⟨t, hstep, hvalid, hwrote, -⟩ := close_spec zlib hs
    exact ⟨t, hstep, hvalid, hwrote⟩

/-- A flush that is not allowed calls `gzwrite` on a file that is not there. -/
theorem step_notOpen (zlib : Zlib) {s : OGzStream} {op : Op} (h : ¬ op.Allowed s) :
    op.step zlib s = .error .notOpen := by
  cases op with
  | flush =>
    simp only [Op.Allowed, not_or, Bool.not_eq_true] at h
    obtain ⟨hshut, hgood, hpending⟩ := h
    have hsync : sync zlib s.buf = .error .notOpen := by
      rw [sync, if_neg (by simpa using hpending), flush_buffer, hshut, if_neg Bool.false_ne_true]
    rw [Op.step, OGzStream.flush, hgood, if_neg Bool.false_ne_true, hsync]
    rfl
  | write bytes | «open» name open_mode | close => exact absurd trivial h

/-- Whatever zlib does, no operation stores anything outside the buffer, and only a flush without a
file calls zlib without one. What `gzwrite` has taken and what is in the buffer are the first of
the bytes written, all of them on a stream that is still good; and then every file that has been
closed has on disk what was taken for it. -/
theorem ogzstream_keeps {zlib : Zlib} {ops : List Op} {s : OGzStream}
    (h : (ogzstream zlib).Run ops s) :
    (∀ op : Op, (op.Allowed s → ∃ t, op.step zlib s = .ok t) ∧
        (¬ op.Allowed s → op.step zlib s = .error .notOpen)) ∧
      s.buf.output <+: ops.flatMap Op.bytes ∧
      (s.badbit = false → s.buf.output = ops.flatMap Op.bytes ∧
        ∀ file ∈ s.buf.closed, file.onDisk = file.accepted) := by
  have hboth : s.Valid ∧ Wrote (ops.flatMap Op.bytes) {} s := by
    refine h.invariant (I := fun ops s => s.Valid ∧ Wrote (ops.flatMap Op.bytes) {} s) ?_ ?_
    · intro s hinit
      obtain rfl := hinit
      exact ⟨⟨Nat.zero_le _, fun _ => rfl, by simp⟩, .refl _⟩
    · intro ops op s t hboth hstep
      have hstep : op.step zlib s = .ok t := hstep
      have hallowed : op.Allowed s := by
        by_contra hnot
        rw [step_notOpen zlib hnot] at hstep
        cases hstep
      obtain ⟨t', hstep', hvalid, hwrote⟩ := step_spec zlib hboth.1 hallowed
      rw [hstep, Except.ok.injEq] at hstep'
      obtain rfl := hstep'
      rw [List.flatMap_append, List.flatMap_singleton]
      exact ⟨hvalid, hboth.2.append hwrote⟩
  obtain ⟨hvalid, ⟨front, hfront, houtput, hall⟩, -⟩ := hboth
  have houtput : s.buf.output = front := houtput
  refine ⟨?_, ?_, ?_⟩
  · intro op
    refine ⟨fun hallowed => ?_, step_notOpen zlib⟩
    obtain ⟨t, hstep, -⟩ := step_spec zlib hvalid hallowed
    exact ⟨t, hstep⟩
  · rw [houtput]
    exact hfront
  · intro hgood
    exact ⟨by rw [houtput, hall hgood], hvalid.settled hgood⟩

/- The file is opened, and the disk is full. -/
def fullDisk : Zlib := ⟨fun n => n = 0, fun _ => 0⟩

/-- A flush in front of the first `open` is refused by nobody; what is written after a failed one
is not taken. -/
theorem ogzstream_keeps_fullDisk :
    (∃ s, (ogzstream fullDisk).Run [.write (ascii "812")] s ∧
      Op.step fullDisk .flush s = .error .notOpen) ∧
    ∃ s, (ogzstream fullDisk).Run
        [.open (ascii "log") { out := true }, .write (ascii "812"), .flush, .write (ascii ",")] s ∧
      s.badbit = true ∧ s.buf.output <+: ascii "812," := by
  have hstart : (ogzstream fullDisk).Run [] {} := .start rfl
  constructor
  · have hwritten := hstart.next (l := Op.write (ascii "812")) rfl
    have hnot : ¬ (Op.flush).Allowed ({ buf := { pending := ascii "812" } } : OGzStream) := by
      simp only [Op.Allowed]
      decide
    exact ⟨_, hwritten, ((ogzstream_keeps hwritten).1 .flush).2 hnot⟩
  · have hopened := hstart.next (l := Op.open (ascii "log") { out := true }) rfl
    have hwritten := hopened.next (l := Op.write (ascii "812")) rfl
    have hflushed := hwritten.next (l := Op.flush) rfl
    have hlast := hflushed.next (l := Op.write (ascii ",")) rfl
    exact ⟨_, hlast, rfl, (ogzstream_keeps hlast).2.1⟩

/- One byte more after a failed `overflow` would lie behind the buffer: it is the state bit that
   keeps it out. -/
set_option maxRecDepth 4096 in
example : sputc fullDisk 120
    { pending := List.replicate 303 120, opened := true, mode := { out := true } } =
      .error (.outside 303) := rfl

end SyscallSensor.GzStream
