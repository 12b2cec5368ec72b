import SyscallSensor.SocketStream

/-! `linux_socket::send` over a connection that may accept only part of a buffer. -/
namespace SyscallSensor.LinuxSocket
open Text Trace SocketStream
open Lib.Transition (System)

/- What the operating system has accepted, and whether the connection has failed. -/
structure Connection where
  accepted : List Byte
  failed : Bool
deriving DecidableEq

inductive SendOutcome where
  | accepts (n : Nat)
  | fails
deriving DecidableEq

/-- A call accepts a non-empty prefix of its buffer or fails; a failed connection stays failed. -/
def Allowed (c : Connection) (buffer : List Byte) : SendOutcome → Prop
  | .accepts n => c.failed = false ∧ 0 < n ∧ n ≤ buffer.length
  | .fails => True

/- `::send`, with its return value. -/
def osSend (c : Connection) (buffer : List Byte) : SendOutcome → Connection × Int
  | .accepts n => ({ c with accepted := c.accepted ++ buffer.take n }, n)
  | .fails => ({ c with failed := true }, -1)

/- `linux_socket::send` drops the return value. -/
def send (c : Connection) (buffer : List Byte) (outcome : SendOutcome) : Connection :=
  (osSend c buffer outcome).1

/- One call of `socket_stream::dispatch`: the clock reading, the pack, and what becomes of
its single `send`. -/
structure Call where
  timestamp : Int
  records : List SysParamsRecord
  outcome : SendOutcome

def Call.frame (meta_ : List Byte) (call : Call) : List Byte :=
  dispatch meta_ call.timestamp call.records

structure Stream where
  frames : List (List Byte)
  socket : Connection
deriving DecidableEq

def Stream.dispatch (meta_ : List Byte) (s : Stream) (call : Call) : Stream where
  frames := s.frames ++ [call.frame meta_]
  socket := send s.socket (call.frame meta_) call.outcome

/- `connect` may have failed before the first packet. -/
def network (meta_ : List Byte) : System Stream Call where
  init s := s.frames = [] ∧ s.socket.accepted = []
  step call s t := Allowed s.socket (call.frame meta_) call.outcome ∧ t = s.dispatch meta_ call

def Framed (s : Stream) : Prop := s.socket.accepted <+: s.frames.flatten

instance (s : Stream) : Decidable (Framed s) :=
  inferInstanceAs (Decidable (s.socket.accepted <+: s.frames.flatten))

/- The call accepts something, but not the whole frame. -/
def Call.Short (meta_ : List Byte) (call : Call) : Prop :=
  ∃ n, call.outcome = .accepts n ∧ n < (call.frame meta_).length

/-- No call accepts anything after one that accepted only part of its frame. -/
def SilentAfterShort (meta_ : List Byte) (calls : List Call) : Prop :=
  calls.Pairwise fun call later => call.Short meta_ → later.outcome = .fails

section
variable {meta_ : List Byte} {s : Stream} {call : Call}

@[simp] theorem frames_dispatch : (s.dispatch meta_ call).frames = s.frames ++ [call.frame meta_] :=
  rfl

theorem socket_fails (h : call.outcome = .fails) :
    (s.dispatch meta_ call).socket = { s.socket with failed := true } := by
  rw [Stream.dispatch, h]
  rfl

theorem socket_accepts {n : Nat} (h : call.outcome = .accepts n) :
    (s.dispatch meta_ call).socket =
      { s.socket with accepted := s.socket.accepted ++ (call.frame meta_).take n } := by
  rw [Stream.dispatch, h]
  rfl

theorem framed_fails (h : Framed s) (hfails : call.outcome = .fails) :
    Framed (s.dispatch meta_ call) := by
  rw [Framed, socket_fails hfails, frames_dispatch, List.flatten_append]
  exact h.trans (List.prefix_append _ _)

theorem framed_accepts {n : Nat} (h : s.socket.accepted = s.frames.flatten)
    (haccepts : call.outcome = .accepts n) : Framed (s.dispatch meta_ call) := by
  rw [Framed, socket_accepts haccepts, frames_dispatch, List.flatten_append, h]
  exact (List.prefix_append_right_inj _).mpr (by simpa using List.take_prefix _ _)

end

theorem run_dispatch {meta_ : List Byte} {calls : List Call} {s : Stream} (call : Call)
    (h : (network meta_).Run calls s)
    (hallowed : Allowed s.socket (call.frame meta_) call.outcome) :
    (network meta_).Run (calls ++ [call]) (s.dispatch meta_ call) :=
  .next h ⟨hallowed, rfl⟩

/- As long as every call so far was whole, all frames so far are on the wire. -/
def Whole (meta_ : List Byte) (calls : List Call) : Prop :=
  ∀ call ∈ calls, call.outcome ≠ .fails ∧ ¬ call.Short meta_

/-- What a run keeps: frames on the wire in order, a connection that has failed once any call
has, and nothing missing while every call was whole. -/
structure Kept (meta_ : List Byte) (calls : List Call) (s : Stream) : Prop where
  framed : Framed s
  failed : (∃ call ∈ calls, call.outcome = .fails) → s.socket.failed = true
  whole : Whole meta_ calls → s.socket.accepted = s.frames.flatten

theorem kept_step {meta_ : List Byte} {calls : List Call} {call : Call} {s : Stream}
    (h : Kept meta_ calls s) (hallowed : Allowed s.socket (call.frame meta_) call.outcome)
    (hsilent : ∀ earlier ∈ calls, earlier.Short meta_ → call.outcome = .fails) :
    Kept meta_ (calls ++ [call]) (s.dispatch meta_ call) := by
  cases hcall : call.outcome with
  | fails =>
    refine ⟨framed_fails h.framed hcall, ?_, ?_⟩
    · intro _
      rw [socket_fails hcall]
    · intro hwhole
      exact absurd hcall (hwhole call (by simp)).1
  | accepts n =>
    rw [hcall] at hallowed
    obtain ⟨hopen, -, hn⟩ := hallowed
    -- the connection is open and the call is not silent, so every earlier call was whole
    have hearlier : Whole meta_ calls := by
      intro earlier hearlier
      constructor
      · intro hfails
        have hfailed := h.failed ⟨earlier, hearlier, hfails⟩
        rw [hopen] at hfailed
        cases hfailed
      · intro hshort
        have hfails := hsilent earlier hearlier hshort
        rw [hcall] at hfails
        cases hfails
    have hall := h.whole hearlier
    refine ⟨framed_accepts hall hcall, ?_, ?_⟩
    · intro ⟨other, hother, hfails⟩
      rw [List.mem_append, List.mem_singleton] at hother
      cases hother with
      | inl hmem => exact absurd hfails (hearlier other hmem).1
      | inr heq =>
        rw [heq, hcall] at hfails
        cases hfails
    · intro hwhole
      have hlength : n = (call.frame meta_).length := by
        have hnot := (hwhole call (by simp)).2
        by_contra hne
        exact hnot ⟨n, hcall, by omega⟩
      rw [socket_accepts hcall, frames_dispatch, List.flatten_append, hall, hlength]
      simp

theorem kept_silent {meta_ : List Byte} {calls : List Call} {s : Stream}
    (hrun : (network meta_).Run calls s) : SilentAfterShort meta_ calls → Kept meta_ calls s := by
  refine hrun.invariant (I := fun calls s => SilentAfterShort meta_ calls → Kept meta_ calls s)
    ?_ ?_
  · intro s hinit _
    obtain ⟨hframes, haccepted⟩ := hinit
    refine ⟨?_, by simp, ?_⟩ <;> simp [Framed, hframes, haccepted]
  · intro calls call s t ih hstep hsilent
    obtain ⟨hallowed, rfl⟩ := hstep
    rw [SilentAfterShort, List.pairwise_append] at hsilent
    obtain ⟨hcalls, -, hcross⟩ := hsilent
    exact kept_step (ih hcalls) hallowed fun earlier hmem => hcross earlier hmem call (by simp)

theorem run_frames {meta_ : List Byte} {calls : List Call} {s : Stream}
    (hrun : (network meta_).Run calls s) : s.frames = calls.map (Call.frame meta_) := by
  refine hrun.invariant (I := fun calls s => s.frames = calls.map (Call.frame meta_)) ?_ ?_
  · exact fun s hinit => hinit.1
  · intro calls call s t ih hstep
    rw [hstep.2, frames_dispatch, ih, List.map_append, List.map_singleton]

/-- While every send takes its frame whole, all frames are on the wire. -/
theorem accepted_of_whole {meta_ : List Byte} {calls : List Call} {s : Stream}
    (hrun : (network meta_).Run calls s) (hwhole : Whole meta_ calls) :
    s.socket.accepted = calls.flatMap (Call.frame meta_) := by
  have hsilent : SilentAfterShort meta_ calls :=
    List.pairwise_of_forall_mem_list fun call hcall _ _ hshort => absurd hshort (hwhole call hcall).2
  rw [(kept_silent hrun hsilent).whole hwhole, run_frames hrun, List.flatMap_def]

/- A connection takes a frame whole. -/
def Call.whole (meta_ : List Byte) (pack : Int × List SysParamsRecord) : Call :=
  ⟨pack.1, pack.2, .accepts (SocketStream.dispatch meta_ pack.1 pack.2).length⟩

theorem frame_pos (meta_ : List Byte) (call : Call) : 0 < (call.frame meta_).length := by
  rw [Call.frame, SocketStream.dispatch, List.length_append, Lib.Framing.bigEndian_length]
  omega

theorem whole_calls (meta_ : List Byte) (packs : List (Int × List SysParamsRecord)) :
    Whole meta_ (packs.map (Call.whole meta_)) := by
  intro call hcall
  obtain ⟨pack, -, rfl⟩ := List.mem_map.mp hcall
  refine ⟨SendOutcome.noConfusion, ?_⟩
  rintro ⟨n, hn, hless⟩
  obtain rfl := SendOutcome.accepts.inj hn
  exact Nat.lt_irrefl _ hless

/-- An open connection can take the frames of any packs. -/
theorem takes_frames (meta_ : List Byte) (packs : List (Int × List SysParamsRecord)) :
    ∃ s, (network meta_).Run (packs.map (Call.whole meta_)) s ∧ s.socket.failed = false := by
  induction packs using List.reverseRecOn with
  | nil => exact ⟨⟨[], [], false⟩, .start ⟨rfl, rfl⟩, rfl⟩
  | append_singleton packs pack ih =>
    obtain ⟨s, hrun, hopen⟩ := ih
    have hnext := run_dispatch (Call.whole meta_ pack) hrun
      ⟨hopen, frame_pos meta_ (Call.whole meta_ pack), Nat.le_refl _⟩
    rw [List.map_append, List.map_singleton]
    exact ⟨_, hnext, hopen⟩

/-- Bytes that a short call leaves out stay out. -/
theorem accepted_length {meta_ : List Byte} {calls : List Call} {s : Stream}
    (hrun : (network meta_).Run calls s) :
    s.socket.accepted.length ≤ s.frames.flatten.length ∧
      ((∃ call ∈ calls, call.Short meta_) →
        s.socket.accepted.length < s.frames.flatten.length) := by
  refine hrun.invariant (I := fun calls s => s.socket.accepted.length ≤ s.frames.flatten.length ∧
    ((∃ call ∈ calls, call.Short meta_) → s.socket.accepted.length < s.frames.flatten.length))
    ?_ ?_
  · intro s hinit
    rw [hinit.1, hinit.2]
    simp
  · intro calls call s t ih hstep
    obtain ⟨hallowed, rfl⟩ := hstep
    obtain ⟨hle, hlt⟩ := ih
    rw [frames_dispatch, List.flatten_append, List.flatten_singleton, List.length_append]
    simp only [List.mem_append, List.mem_singleton, or_and_right, exists_or, exists_eq_left]
    cases hcall : call.outcome with
    | fails =>
      have hwhole : ¬ call.Short meta_ := by
        rintro ⟨n, hn, -⟩
        rw [hcall] at hn
        cases hn
      rw [socket_fails hcall]
      refine ⟨Nat.le_add_right_of_le hle, ?_⟩
      intro hshort
      exact Nat.lt_add_right _ (hlt (hshort.resolve_right hwhole))
    | accepts n =>
      rw [hcall] at hallowed
      rw [socket_accepts hcall, List.length_append, List.length_take,
        Nat.min_eq_left hallowed.2.2]
      have hn := hallowed.2.2
      refine ⟨by omega, ?_⟩
      intro hshort
      cases hshort with
      | inl hearlier =>
        have hbefore := hlt hearlier
        omega
      | inr hshort =>
        obtain ⟨k, hk, hless⟩ := hshort
        rw [hcall] at hk
        obtain rfl := SendOutcome.accepts.inj hk
        omega

/- The next pack, and the one a second later, which take frames of one length. -/
theorem two_frames {meta_ : List Byte} (hmeta : 0 ∉ meta_) (hshort : meta_.length < 2 ^ 28) :
    (dispatch meta_ 1 []).length = (dispatch meta_ 2 []).length ∧
      dispatch meta_ 1 [] ≠ dispatch meta_ 2 [] := by
  have htext (timestamp : Int) : to_json meta_ timestamp [] =
      packetText meta_ timestamp [] := to_json_eq hmeta (by simp)
  have hlength {timestamp : Int} (hdigit : (Lib.Decimal.intText timestamp).length = 1) :
      (packetText meta_ timestamp []).length = meta_.length + 51 := by
    have hend : (ascii "]\x7d").length = 2 := by decide
    have hnone : ((ascii ",").intercalate (([] : List SysParamsRecord).map item)).length = 0 := rfl
    simp only [packetText, List.length_append, header_length, hdigit, hend, hnone]
  have hone := hlength (show (Lib.Decimal.intText 1).length = 1 by decide)
  have htwo := hlength (show (Lib.Decimal.intText 2).length = 1 by decide)
  have hframe {timestamp : Int} (hfits : (packetText meta_ timestamp []).length = meta_.length + 51) :
      dispatch meta_ timestamp [] =
        Lib.Framing.frame 4 (Encoding.base64_encode (packetText meta_ timestamp [])) := by
    rw [dispatch_eq_frame (by rw [htext, hfits]; omega), htext]
  rw [hframe hone, hframe htwo]
  constructor
  · simp only [Lib.Framing.frame, List.length_append, Lib.Framing.bigEndian_length,
      Encoding.base64_encode_length, hone, htwo]
  · intro heq
    have hbodies := (List.append_inj' heq (by
      rw [Encoding.base64_encode_length, Encoding.base64_encode_length, hone, htwo])).2
    have htexts := congrArg Encoding.base64_decode hbodies
    rw [Encoding.base64_decode_encode, Encoding.base64_decode_encode] at htexts
    simp only [packetText, header, List.append_assoc, List.append_cancel_left_eq] at htexts
    exact absurd (List.append_inj' htexts rfl).1 (by decide)

/-- Behind bytes that are missing in the middle, a frame can follow that shows it. -/
theorem unframed_of_missing {meta_ : List Byte} {s : Stream} (hmeta : 0 ∉ meta_)
    (hshort : meta_.length < 2 ^ 28) (hopen : s.socket.failed = false)
    (hmissing : s.socket.accepted.length < s.frames.flatten.length) :
    ∃ t, (network meta_).Leads s t ∧ ¬ Framed t := by
  by_contra hnone
  push Not at hnone
  obtain ⟨gap, hgap⟩ := hnone s .refl
  have hne : gap ≠ [] := by
    rintro rfl
    rw [← hgap, List.append_nil] at hmissing
    exact Nat.lt_irrefl _ hmissing
  -- if the frame of every timestamp went on behind the gap, two different ones would be the same
  have hshifted (timestamp : Int) :
      dispatch meta_ timestamp [] <+: gap ++ dispatch meta_ timestamp [] := by
    let call := Call.whole meta_ (timestamp, [])
    have hallowed : Allowed s.socket (call.frame meta_) call.outcome :=
      ⟨hopen, frame_pos meta_ call, Nat.le_refl _⟩
    have hframed := hnone (s.dispatch meta_ call) (.single ⟨call, hallowed, rfl⟩)
    have hwhole : call.outcome = .accepts (dispatch meta_ timestamp []).length := rfl
    have hframe : call.frame meta_ = dispatch meta_ timestamp [] := rfl
    rw [Framed, socket_accepts hwhole, frames_dispatch, List.flatten_append, List.flatten_singleton,
      ← hgap, List.append_assoc, List.prefix_append_right_inj, hframe, List.take_length] at hframed
    exact hframed
  obtain ⟨hlength, hdiffer⟩ := two_frames hmeta hshort
  exact hdiffer (Lib.Framing.eq_of_isPrefix_append hne hlength (hshifted 1) (hshifted 2))

/-- In every run whose calls are silent after a short one, the bytes on the wire are a prefix
of the frames; and the first call that breaks the silence can lead to bytes that are none. -/
theorem framed_of_silentAfterShort {meta_ : List Byte} {calls : List Call} {s : Stream}
    (hrun : (network meta_).Run calls s) (hsilent : SilentAfterShort meta_ calls) :
    Framed s ∧ (0 ∉ meta_ → meta_.length < 2 ^ 28 →
      ∀ call, Allowed s.socket (call.frame meta_) call.outcome →
        ¬ SilentAfterShort meta_ (calls ++ [call]) →
        ∃ t, (network meta_).Leads (s.dispatch meta_ call) t ∧ ¬ Framed t) := by
  refine ⟨(kept_silent hrun hsilent).framed, ?_⟩
  intro hmeta hshort call hallowed hbroken
  have hafter := run_dispatch call hrun hallowed
  rw [SilentAfterShort, List.pairwise_append] at hbroken
  simp only [SilentAfterShort] at hsilent
  have hspoken : call.outcome ≠ .fails ∧ ∃ earlier ∈ calls, earlier.Short meta_ := by
    by_contra hquiet
    refine hbroken ⟨hsilent, List.pairwise_singleton _ _, ?_⟩
    intro earlier hearlier later hlater hcut
    obtain rfl := List.mem_singleton.mp hlater
    by_contra hfails
    exact hquiet ⟨hfails, earlier, hearlier, hcut⟩
  obtain ⟨hnot, earlier, hearlier, hcut⟩ := hspoken
  cases hcall : call.outcome with
  | fails => exact absurd hcall hnot
  | accepts n =>
    rw [hcall] at hallowed
    refine unframed_of_missing hmeta hshort ?_ ((accepted_length hafter).2
      ⟨earlier, List.mem_append_left _ hearlier, hcut⟩)
    rw [socket_accepts hcall]
    exact hallowed.1

/-- A whole frame, five bytes of the next, and a failure or another whole frame. -/
theorem framed_after_failure :
    let s := [⟨1, [], .accepts 84⟩, ⟨2, [], .accepts 5⟩].foldl
      (Stream.dispatch (ascii "sensor1")) ⟨[], [], false⟩
    Framed (s.dispatch (ascii "sensor1") ⟨3, [], .fails⟩) ∧
      ∃ t, (network (ascii "sensor1")).Leads
        (s.dispatch (ascii "sensor1") ⟨3, [], .accepts 84⟩) t ∧ ¬ Framed t := by
  have hstart : (network (ascii "sensor1")).Run [] ⟨[], [], false⟩ := .start ⟨rfl, rfl⟩
  have hfirst := run_dispatch ⟨1, [], .accepts 84⟩ hstart ⟨rfl, by decide, by decide +kernel⟩
  have hsecond := run_dispatch ⟨2, [], .accepts 5⟩ hfirst ⟨rfl, by decide, by decide +kernel⟩
  have hthird := run_dispatch ⟨3, [], .fails⟩ hsecond trivial
  have hwhole : ¬ Call.Short (ascii "sensor1") ⟨1, [], .accepts 84⟩ := by
    intro hshort
    obtain ⟨n, hn, hlt⟩ := hshort
    obtain rfl := SendOutcome.accepts.inj hn
    exact absurd hlt (by decide +kernel)
  have hcut : Call.Short (ascii "sensor1") ⟨2, [], .accepts 5⟩ := ⟨5, rfl, by decide +kernel⟩
  have hsilent : SilentAfterShort (ascii "sensor1") [⟨1, [], .accepts 84⟩, ⟨2, [], .accepts 5⟩] := by
    simp [SilentAfterShort, hwhole]
  refine ⟨(framed_of_silentAfterShort hthird (by simp [SilentAfterShort, hwhole])).1, ?_⟩
  refine (framed_of_silentAfterShort hsecond hsilent).2 (by decide) (by decide)
    ⟨3, [], .accepts 84⟩ ⟨rfl, by decide, by decide +kernel⟩ ?_
  simp [SilentAfterShort, hcut]

/-- All but the last byte of the first frame, then the whole second frame: the receiver takes
the first byte of a length for base64 text. -/
theorem short_send_breaks_framing :
    ¬ ∀ s, (network (ascii "sensor1")).Reachable s → Framed s := by
  intro hall
  have hstart : (network (ascii "sensor1")).Run [] ⟨[], [], false⟩ := .start ⟨rfl, rfl⟩
  have hfirst := run_dispatch ⟨1, [], .accepts 83⟩ hstart ⟨rfl, by decide, by decide +kernel⟩
  have hsecond := run_dispatch ⟨2, [], .accepts 84⟩ hfirst ⟨rfl, by decide, by decide +kernel⟩
  exact absurd (hall _ hsecond.reachable) (by decide +kernel)

end SyscallSensor.LinuxSocket
