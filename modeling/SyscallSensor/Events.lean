import SyscallSensor.SplitString

/-! What the sensor's threads hand to each other or keep: bulks of lines, the aggregator
that cuts records into packs, and the watches (their event counts; clock readings are
left out). -/
namespace SyscallSensor
open Text

structure EventsBulk where
  _buffer : List Byte
  _lines : List StringRef

/- The bytes that a `std::string` holds in itself before it takes a buffer from the heap. -/
def LOCAL_CAPACITY : Nat := 15

/- The constructor moves the string. A buffer from the heap changes hands: the iterators in
   `lines` now read the bulk's own buffer, which ends with the terminating NUL. The bytes of a
   string that holds them in itself (`isLocal`) are copied, and the iterators still point into the
   string that was moved from, a local variable that is gone when the bulk is looked at. -/
def EventsBulk.make (isLocal : Bool) (buffer : List Byte) (lines : List StringRef) : EventsBulk :=
  ⟨buffer, lines.map fun ref => { ref with block := if isLocal then [] else buffer ++ [0] }⟩

/-- The line can be read where it points to. -/
structure Text.StringRef.Holds (ref : StringRef) (line : List Byte) : Prop where
  inside : ref.end_ ≤ ref.block.length
  text : ref.text = line

/-- The line has its size, but what it points to is gone. -/
structure Text.StringRef.Dangles (ref : StringRef) (line : List Byte) : Prop where
  gone : ref.block = []
  size : ref.size_ = line.length
  short : line.length ≤ LOCAL_CAPACITY

/- One of the two, as the string says that the line was cut from. -/
def Text.StringRef.CutFrom (isLocal : Bool) (ref : StringRef) (line : List Byte) : Prop :=
  if isLocal then ref.Dangles line else ref.Holds line

/-- The size of a line is right in any case, and a line that was not cut from a short string can
be read. -/
def Text.StringRef.Keeps (ref : StringRef) (line : List Byte) : Prop :=
  ref.size_ = line.length ∧ (LOCAL_CAPACITY < line.length → ref.Holds line)

section
variable {ref : StringRef} {line : List Byte} {isLocal : Bool}

theorem Text.StringRef.Holds.size (h : ref.Holds line) : ref.size_ = line.length := by
  have hin := h.inside
  rw [StringRef.end_] at hin
  rw [← h.text, StringRef.text, List.length_take, List.length_drop]
  omega

theorem Text.StringRef.CutFrom.keeps (h : ref.CutFrom isLocal line) : ref.Keeps line := by
  cases isLocal with
  | false => exact ⟨Holds.size h, fun _ => h⟩
  | true =>
    have hdangles : ref.Dangles line := h
    exact ⟨hdangles.size, fun hlong => absurd hlong (Nat.not_lt.mpr hdangles.short)⟩

/-- Of a line that dangles, only nothing can be read. -/
theorem Text.StringRef.CutFrom.read_iff (h : ref.CutFrom isLocal line) {bytes : List Byte} :
    ref.read = .ok bytes ↔ (isLocal = true → line = []) ∧ bytes = line := by
  cases isLocal with
  | false =>
    have hholds : ref.Holds line := h
    rw [StringRef.read, readBytes_inside hholds.inside, Except.ok.injEq]
    have htext : (ref.block.drop ref.begin_).take ref.size_ = line := hholds.text
    rw [htext]
    exact ⟨fun heq => ⟨fun hlocal => absurd hlocal Bool.false_ne_true, heq.symm⟩, fun h => h.2.symm⟩
  | true =>
    have hdangles : ref.Dangles line := h
    rw [StringRef.read, hdangles.gone, readBytes_gone, hdangles.size, List.length_eq_zero_iff]
    constructor
    · rintro ⟨rfl, rfl⟩
      exact ⟨fun _ => rfl, rfl⟩
    · rintro ⟨hempty, rfl⟩
      exact ⟨hempty rfl, hempty rfl⟩

/-- The lines of a bulk, after the string was cut, truncated and moved. -/
theorem EventsBulk.make_cut {str buffer : List Byte} {lines : List StringRef}
    (hbuffer : buffer <+: str) (hlocal : isLocal = true → str.length ≤ LOCAL_CAPACITY)
    (hlines : ∀ ref ∈ lines, ref.block = str ∧ ref.end_ ≤ buffer.length) :
    List.Forall₂ (StringRef.CutFrom isLocal) (EventsBulk.make isLocal buffer lines)._lines
      (lines.map StringRef.text) := by
  rw [EventsBulk.make, List.forall₂_map_left_iff, List.forall₂_map_right_iff, List.forall₂_same]
  intro ref hmem
  obtain ⟨rfl, hend⟩ := hlines ref hmem
  have hshort := hbuffer.length_le
  have hsize : ref.size_ = ref.text.length := by
    rw [StringRef.end_] at hend
    rw [StringRef.text, List.length_take, List.length_drop]
    omega
  cases isLocal with
  | true =>
    refine ⟨rfl, hsize, ?_⟩
    have hstr := hlocal rfl
    rw [StringRef.end_] at hend
    omega
  | false =>
    refine ⟨?_, ?_⟩
    · change ref.end_ ≤ (buffer ++ [0]).length
      rw [List.length_append]
      omega
    · obtain ⟨rest, hrest⟩ := hbuffer
      have hin : ref.size_ ≤ (buffer.drop ref.begin_).length := by
        rw [StringRef.end_] at hend
        rw [List.length_drop]
        omega
      have hcut (after : List Byte) : ((buffer ++ after).drop ref.begin_).take ref.size_ =
          (buffer.drop ref.begin_).take ref.size_ := by
        rw [List.drop_append, List.take_append_of_le_length hin]
      change ((buffer ++ [0]).drop ref.begin_).take ref.size_ = _
      rw [StringRef.text, ← hrest, hcut, hcut]

end

structure EventsWatch where
  events : Nat := 0
  total_events : Nat := 0
  finished : Bool := false
deriving DecidableEq, Repr

def EventsWatch.add (w : EventsWatch) (events : Nat) : EventsWatch :=
  { w with events := w.events + events, total_events := w.total_events + events }

def EventsWatch.stop (w : EventsWatch) : EventsWatch := { w with finished := true }

def EventsWatch.reset (w : EventsWatch) : EventsWatch := { w with events := 0 }

/- The events of each second since the last reset. `sec` is what the clock gives, a signed
   number that the division converts to `size_t`. -/
def EventsWatch.now (w : EventsWatch) (sec : Int) : Nat × EventsWatch :=
  if sec = 0 then (0, w) else (w.events / (sec % 2 ^ 64).toNat, w.reset)

def EventsWatch.all_events (w : EventsWatch) : Nat := w.total_events

theorem EventsWatch.now_all_events (w : EventsWatch) (sec : Int) :
    (w.now sec).2.all_events = w.all_events := by
  rw [EventsWatch.now]
  by_cases hsec : sec = 0
  · rw [if_pos hsec]
  · rw [if_neg hsec]
    rfl

structure DataAggregator (T : Type*) where
  __limit : Nat := 1024
  __data : List T := []
deriving DecidableEq, Repr

namespace DataAggregator
variable {T : Type*}

def append (data : DataAggregator T) (record : T) : DataAggregator T :=
  { data with __data := data.__data ++ [record] }

def appendAll (data : DataAggregator T) (records : List T) : DataAggregator T :=
  { data with __data := data.__data ++ records }

def ready (data : DataAggregator T) : Bool := decide (data.__limit ≤ data.__data.length)

/-- The old pack, and the aggregator that starts over with an empty one. -/
def make_new_pack (data : DataAggregator T) : List T × DataAggregator T :=
  (data.__data, { data with __data := [] })

end DataAggregator
end SyscallSensor
