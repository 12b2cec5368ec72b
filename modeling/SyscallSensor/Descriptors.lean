import SyscallSensor.Lib.Ledger
import SyscallSensor.Lib.Outcome
import SyscallSensor.SensorRun

/-! The descriptors of `linux_server_socket` and `linux_socket`: what a socket object obtains
from the kernel and what it closes, in the logging branch of `multithreaded_sensor::run` and in
the `status` command. -/
namespace SyscallSensor.Descriptors
open Lib.Ledger
open Lib.Outcome (guarded_eq_some)
open Lib.Transition (System)

/- What one socket object has obtained and closed so far, and what the rest of the process
   has open. -/
structure Process where
  log : List (Event Int)
  others : List Int
deriving DecidableEq

def Process.held (p : Process) : List Int := Lib.Ledger.held p.log

/-- Open nowhere in the process. -/
def Process.Free (p : Process) (fd : Int) : Prop := 0 ≤ fd ∧ fd ∉ p.held ∧ fd ∉ p.others

/- What `socket` and `accept` may return. -/
def Process.Returns (p : Process) (fd : Int) : Prop := fd = -1 ∨ p.Free fd

instance (p : Process) (fd : Int) : Decidable (p.Free fd) :=
  inferInstanceAs (Decidable (0 ≤ fd ∧ fd ∉ p.held ∧ fd ∉ p.others))

instance (p : Process) (fd : Int) : Decidable (p.Returns fd) :=
  inferInstanceAs (Decidable (fd = -1 ∨ p.Free fd))

def Process.obtain (p : Process) (fd : Int) : Process :=
  if fd = -1 then p else { p with log := p.log ++ [.acquire fd] }

/-- `::close`: an open descriptor is closed whoever holds it; no descriptor is negative. -/
def Process.close (p : Process) (fd : Int) : Process :=
  if fd < 0 then p
  else { log := p.log ++ [.release fd]
         others := if fd ∈ p.held then p.others else p.others.erase fd }

structure linux_server_socket where
  socket_id : Int
  socket_client_id : Int
  process : Process
deriving DecidableEq

/- What the three system calls of `listen` return; those that are not made are not looked at. -/
structure Answers where
  socket : Int
  bind : Int
  accept : Int
deriving DecidableEq, Repr

def linux_server_socket.listen (s : linux_server_socket) (answers : Answers) :
    linux_server_socket × Bool :=
  let s := { s with socket_id := answers.socket, process := s.process.obtain answers.socket }
  if s.socket_id = -1 then (s, false)
  else if answers.bind = -1 then (s, false)
  else
    let s := { s with
      socket_client_id := answers.accept, process := s.process.obtain answers.accept }
    if s.socket_client_id = -1 then (s, false) else (s, true)

def linux_server_socket.close (s : linux_server_socket) : linux_server_socket :=
  { s with process := (s.process.close s.socket_client_id).close s.socket_id }

def linux_server_socket.clean_up (s : linux_server_socket) : linux_server_socket :=
  { s with process := (s.process.close s.socket_client_id).close s.socket_id }

/- `~linux_server_socket` -/
def linux_server_socket.destroy (s : linux_server_socket) : linux_server_socket := s.clean_up

structure linux_socket where
  socket_id : Int
  process : Process
deriving DecidableEq

def linux_socket.clean_up (c : linux_socket) : linux_socket :=
  { c with process := c.process.close c.socket_id }

def linux_socket.connect (c : linux_socket) (socket_ connect_ : Int) : linux_socket × Bool :=
  let c := { socket_id := socket_, process := c.process.obtain socket_ }
  if c.socket_id < 0 then (c, false)
  else if connect_ ≠ 0 then (if c.socket_id ≠ 0 then c.clean_up else c, false)
  else (c, true)

/- `~linux_socket` -/
def linux_socket.destroy (c : linux_socket) : linux_socket := c.clean_up

/-- `connect` with what its two calls return, then destruction. -/
def linux_socket.life (c : linux_socket) (socket_ connect_ : Int) : linux_socket :=
  (c.connect socket_ connect_).1.destroy

/- Where `run(true)` stands; `caught` is its catch block, `leaving` what follows its last
   `close()`. -/
inductive At where
  | listening
  | polling
  | reporting
  | caught
  | checking
  | summarizing
  | leaving
  | destroyed
deriving DecidableEq, Repr

structure Sensor where
  at_ : At
  finished : Bool
  _socket : linux_server_socket
deriving DecidableEq

def Sensor.log (s : Sensor) : List (Event Int) := s._socket.process.log

/- `finish` is the sender's store to the flag, `opens` and `closes` are other threads;
   `status` is `get_status()` with the return value of `send`, or `none` when it throws. -/
inductive Move where
  | finish
  | opens (fd : Int)
  | closes (fd : Int)
  | listen (answers : Answers)
  | poll
  | status (ret : Option Int)
  | check
  | summary
  | destroy
deriving DecidableEq, Repr

def Answers.Allowed (answers : Answers) (s : linux_server_socket) : Prop :=
  s.process.Returns answers.socket ∧ (s.process.obtain answers.socket).Returns answers.accept

instance (answers : Answers) (s : linux_server_socket) : Decidable (answers.Allowed s) :=
  inferInstanceAs (Decidable (_ ∧ _))

def Sensor.setOthers (s : Sensor) (others : List Int) : Sensor :=
  { s with _socket := { s._socket with process := { s._socket.process with others := others } } }

def Sensor.listen (s : Sensor) (answers : Answers) : Sensor :=
  { s with
    _socket := (s._socket.listen answers).1
    at_ := if (s._socket.listen answers).2 then .polling else .listening }

def Move.step : Move → Sensor → Option Sensor
  | .finish, s => some { s with finished := true }
  | .opens fd, s =>
    if s._socket.process.Free fd then some (s.setOthers (fd :: s._socket.process.others)) else none
  | .closes fd, s => some (s.setOthers (s._socket.process.others.erase fd))
  | .listen answers, s =>
    if s.at_ = .listening ∧ answers.Allowed s._socket then some (s.listen answers) else none
  | .poll, s =>
    if s.at_ = .polling then some { s with at_ := if s.finished then .checking else .reporting }
    else none
  | .status none, s => if s.at_ = .reporting then some { s with at_ := .caught } else none
  | .status (some ret), s =>
    if s.at_ = .reporting then
      if ret = -1 then some { s with _socket := s._socket.close, at_ := .checking }
      else some { s with at_ := .polling }
    else none
  | .check, s =>
    if s.at_ = .caught ∨ s.at_ = .checking then
      some { s with at_ := if s.finished then .summarizing else .listening }
    else none
  | .summary, s =>
    if s.at_ = .summarizing then some { s with _socket := s._socket.close, at_ := .leaving }
    else none
  | .destroy, s =>
    if s.at_ = .leaving then some { s with _socket := s._socket.destroy, at_ := .destroyed }
    else none

/-- The logging branch, with any other activity of the process in between. -/
def logging : System Sensor Move where
  init s := s.at_ = .listening ∧ s.log = []
  step move s t := move.step s = some t

/-- Neither `bind` nor `accept` fails, and no exception is followed by another `listen`. -/
def Tight : Move → Sensor → Prop
  | .listen answers, _ => answers.socket = -1 ∨ answers.bind ≠ -1 ∧ answers.accept ≠ -1
  | .check, s => s.at_ = .caught → s.finished = true
  | _, _ => True

/- The two descriptors in the fields are the last ones obtained; `lost` are those that no
   field names any more. -/
structure Connected (s : linux_server_socket) (lost : List Int) : Prop where
  held : s.process.held = s.socket_client_id :: s.socket_id :: lost
  client : 0 ≤ s.socket_client_id ∧ s.socket_client_id ∉ s.socket_id :: lost
  server : 0 ≤ s.socket_id ∧ s.socket_id ∉ lost

/- The fields still name the two, but they are closed. -/
structure Closed (s : linux_server_socket) (lost : List Int) : Prop where
  held : s.process.held = lost
  client : 0 ≤ s.socket_client_id ∧ s.socket_client_id ∉ lost
  server : 0 ≤ s.socket_id ∧ s.socket_id ∉ lost

/-- What is held where `run` stands. -/
def Fields (s : Sensor) (lost : List Int) : Prop :=
  match s.at_ with
  | .listening => s._socket.process.held = lost
  | .polling | .reporting | .caught => Connected s._socket lost
  | .checking => s.finished = true ∧ Connected s._socket lost ∨ Closed s._socket lost
  | .summarizing => Connected s._socket lost ∨ Closed s._socket lost
  | .leaving | .destroyed => Closed s._socket lost

section
variable {p : Process} {fd : Int}

@[simp] theorem obtain_log (h : 0 ≤ fd) : (p.obtain fd).log = p.log ++ [.acquire fd] := by
  rw [Process.obtain, if_neg (by omega)]

@[simp] theorem obtain_held (h : 0 ≤ fd) : (p.obtain fd).held = fd :: p.held := by
  simp [Process.held, h]

@[simp] theorem obtain_failed : p.obtain (-1) = p := by
  simp [Process.obtain]

@[simp] theorem close_log (h : 0 ≤ fd) : (p.close fd).log = p.log ++ [.release fd] := by
  rw [Process.close, if_neg (by omega)]

@[simp] theorem close_held (h : 0 ≤ fd) : (p.close fd).held = p.held.erase fd := by
  simp [Process.held, h]

theorem Process.Free.ne (h : p.Free fd) : fd ≠ -1 := by
  have hfd := h.1
  omega

/- Closed without being held: somebody else's. -/
theorem close_others (hfd : 0 ≤ fd) (h : fd ∉ p.held) :
    (p.close fd).others = p.others.erase fd := by
  rw [Process.close, if_neg (by omega), if_neg h]

theorem not_mem_close_others {other : Int} (h : fd ∉ p.others) : fd ∉ (p.close other).others := by
  unfold Process.close
  split
  · exact h
  · split
    · exact h
    · exact fun hmem => h (List.mem_of_mem_erase hmem)

theorem Process.Returns.free (h : p.Returns fd) (hfd : fd ≠ -1) : p.Free fd := by
  cases h with
  | inl heq => exact absurd heq hfd
  | inr hfree => exact hfree

end

section
variable {s : linux_server_socket} {answers : Answers} {lost : List Int}

theorem listen_failed (h : answers.socket = -1) :
    s.listen answers = ({ s with socket_id := -1 }, false) := by
  simp [linux_server_socket.listen, h]

/- The early returns behind `socket` leave its descriptor open. -/
theorem listen_lost (h : answers.socket ≠ -1) (hlost : answers.bind = -1 ∨ answers.accept = -1) :
    (s.listen answers).2 = false ∧
      (s.listen answers).1.process = s.process.obtain answers.socket := by
  by_cases hbind : answers.bind = -1
  · simp [linux_server_socket.listen, h, hbind]
  · have haccept := hlost.resolve_left hbind
    simp [linux_server_socket.listen, h, hbind, haccept]

theorem listen_accepted (h : answers.socket ≠ -1) (hbind : answers.bind ≠ -1)
    (haccept : answers.accept ≠ -1) :
    s.listen answers = (⟨answers.socket, answers.accept,
      (s.process.obtain answers.socket).obtain answers.accept⟩, true) := by
  simp [linux_server_socket.listen, h, hbind, haccept]

theorem close_log_both (hclient : 0 ≤ s.socket_client_id) (hserver : 0 ≤ s.socket_id) :
    s.close.process.log =
      s.process.log ++ [.release s.socket_client_id] ++ [.release s.socket_id] := by
  rw [linux_server_socket.close, close_log hserver, close_log hclient]

theorem Connected.close (h : Connected s lost) : Closed s.close lost := by
  have hheld : s.close.process.held = lost := by
    rw [linux_server_socket.close, close_held h.server.1, close_held h.client.1, h.held]
    simp
  have hclient : s.socket_client_id ∉ lost := fun hmem => h.client.2 (List.mem_cons_of_mem _ hmem)
  exact ⟨hheld, ⟨h.client.1, hclient⟩, h.server⟩

theorem Connected.sound_close (h : Connected s lost) (hsound : Sound s.process.log) :
    Sound s.close.process.log := by
  have hheld : Lib.Ledger.held s.process.log = s.socket_client_id :: s.socket_id :: lost := h.held
  rw [close_log_both h.client.1 h.server.1]
  refine sound_release.mpr ⟨sound_release.mpr ⟨hsound, ?_⟩, ?_⟩
  · simp [hheld]
  · rw [held_concat, hheld]
    simp

theorem Closed.close (h : Closed s lost) : Closed s.close lost := by
  have hheld : s.close.process.held = lost := by
    rw [linux_server_socket.close, close_held h.server.1, close_held h.client.1, h.held,
      List.erase_of_not_mem h.client.2, List.erase_of_not_mem h.server.2]
  exact ⟨hheld, h.client, h.server⟩

/-- Closing twice is closing what is not held. -/
theorem Closed.not_sound (h : Closed s lost) : ¬ Sound s.close.process.log := by
  intro hsound
  rw [close_log_both h.client.1 h.server.1] at hsound
  have hfirst := (sound_release.mp (sound_release.mp hsound).1).2
  have hheld : s.socket_client_id ∈ s.process.held := hfirst
  rw [h.held] at hheld
  exact h.client.2 hheld

end

/-- What a step can do. -/
inductive Moved (s : Sensor) : Move → Sensor → Prop where
  | finish : Moved s .finish { s with finished := true }
  | others (move : Move) (others : List Int) (hmove : Tight move s) :
    Moved s move (s.setOthers others)
  | failed (answers : Answers) (socket : linux_server_socket) (hat : s.at_ = .listening)
    (hanswer : answers.socket = -1) (hprocess : socket.process = s._socket.process) :
    Moved s (.listen answers) { s with _socket := socket }
  | lost (answers : Answers) (socket : linux_server_socket) (hat : s.at_ = .listening)
    (hfree : s._socket.process.Free answers.socket)
    (hlost : answers.bind = -1 ∨ answers.accept = -1)
    (hprocess : socket.process = s._socket.process.obtain answers.socket) :
    Moved s (.listen answers) { s with _socket := socket }
  | accepted (answers : Answers) (hat : s.at_ = .listening)
    (hfree : s._socket.process.Free answers.socket)
    (hclient : (s._socket.process.obtain answers.socket).Free answers.accept)
    (hbind : answers.bind ≠ -1) :
    Moved s (.listen answers)
      { s with
        at_ := .polling
        _socket := ⟨answers.socket, answers.accept,
          (s._socket.process.obtain answers.socket).obtain answers.accept⟩ }
  | poll (hat : s.at_ = .polling) :
    Moved s .poll { s with at_ := if s.finished then .checking else .reporting }
  | threw (hat : s.at_ = .reporting) : Moved s (.status none) { s with at_ := .caught }
  | sent (ret : Int) (hat : s.at_ = .reporting) :
    Moved s (.status (some ret)) { s with at_ := .polling }
  | hungUp (ret : Int) (hat : s.at_ = .reporting) :
    Moved s (.status (some ret)) { s with at_ := .checking, _socket := s._socket.close }
  | check (hat : s.at_ = .caught ∨ s.at_ = .checking) :
    Moved s .check { s with at_ := if s.finished then .summarizing else .listening }
  | summary (hat : s.at_ = .summarizing) :
    Moved s .summary { s with at_ := .leaving, _socket := s._socket.close }
  | destroy (hat : s.at_ = .leaving) :
    Moved s .destroy { s with at_ := .destroyed, _socket := s._socket.close }

theorem moved_of_listen {s : Sensor} {answers : Answers} (hat : s.at_ = .listening)
    (h : answers.Allowed s._socket) : Moved s (.listen answers) (s.listen answers) := by
  by_cases hsocket : answers.socket = -1
  · rw [Sensor.listen, listen_failed hsocket]
    have hmoved := Moved.failed answers { s._socket with socket_id := -1 } hat hsocket rfl
    simpa [hat] using hmoved
  have hfree := h.1.free hsocket
  by_cases hlost : answers.bind = -1 ∨ answers.accept = -1
  · obtain ⟨hfalse, hprocess⟩ := listen_lost (s := s._socket) hsocket hlost
    rw [Sensor.listen, hfalse]
    simpa [hat] using Moved.lost answers _ hat hfree hlost hprocess
  · rw [not_or] at hlost
    rw [Sensor.listen, listen_accepted hsocket hlost.1 hlost.2]
    exact .accepted answers hat hfree (h.2.free hlost.2) hlost.1

theorem moved_of_step {s t : Sensor} {move : Move} (h : move.step s = some t) : Moved s move t := by
  cases move with
  | finish =>
    obtain rfl := Option.some.inj h
    exact .finish
  | opens fd =>
    obtain ⟨-, rfl⟩ := guarded_eq_some h
    exact .others _ _ trivial
  | closes fd =>
    obtain rfl := Option.some.inj h
    exact .others _ _ trivial
  | listen answers =>
    obtain ⟨⟨hat, hallowed⟩, rfl⟩ := guarded_eq_some h
    exact moved_of_listen hat hallowed
  | poll =>
    obtain ⟨hat, rfl⟩ := guarded_eq_some h
    exact .poll hat
  | status ret =>
    cases ret with
    | none =>
      obtain ⟨hat, rfl⟩ := guarded_eq_some h
      exact .threw hat
    | some ret =>
      obtain ⟨hat, hret⟩ := Option.ite_none_right_eq_some.mp h
      by_cases hfails : ret = -1
      · rw [if_pos hfails] at hret
        obtain rfl := Option.some.inj hret
        exact .hungUp ret hat
      · rw [if_neg hfails] at hret
        obtain rfl := Option.some.inj hret
        exact .sent ret hat
  | check =>
    obtain ⟨hat, rfl⟩ := guarded_eq_some h
    exact .check hat
  | summary =>
    obtain ⟨hat, rfl⟩ := guarded_eq_some h
    exact .summary hat
  | destroy =>
    obtain ⟨hat, rfl⟩ := guarded_eq_some h
    exact .destroy hat

/-- Nothing but what is held is closed before the last `close()`, but the destructor does it. -/
structure Fair (s : Sensor) : Prop where
  sound : s.at_ ≠ .leaving → s.at_ ≠ .destroyed → Sound s.log
  unsound : s.at_ = .destroyed → ¬ Sound s.log

/-- What a run keeps. `lost` are the descriptors left open behind the fields. -/
structure Counted (s : Sensor) (lost : List Int) : Prop where
  fields : Fields s lost
  few : lost = [] → Within 2 s.log
  many : lost ≠ [] → s.at_ ≠ .listening → ¬ Within 2 s.log
  fair : Fair s

section
variable {s t : Sensor} {lost : List Int}

theorem Fields.listening (h : Fields s lost) (hat : s.at_ = .listening) :
    s._socket.process.held = lost := by
  simpa [Fields, hat] using h

theorem Fields.open (h : Fields s lost)
    (hat : s.at_ = .polling ∨ s.at_ = .reporting ∨ s.at_ = .caught) : Connected s._socket lost := by
  obtain hat | hat | hat := hat <;> simpa [Fields, hat] using h

theorem Fields.left (h : Fields s lost) (hat : s.at_ = .leaving ∨ s.at_ = .destroyed) :
    Closed s._socket lost := by
  obtain hat | hat := hat <;> simpa [Fields, hat] using h

theorem Fair.frame (h : Fair s) (hat : t.at_ = s.at_) (hlog : t.log = s.log) : Fair t := by
  refine ⟨?_, ?_⟩ <;> rw [hat, hlog]
  · exact h.sound
  · exact h.unsound

theorem fair_of_sound (h : Sound t.log) (hat : t.at_ ≠ .destroyed) : Fair t :=
  ⟨fun _ _ => h, fun ht => absurd ht hat⟩

/- A step that leaves the socket alone, in the place where it stands or from one loop position
   to another. -/
theorem Counted.quiet (h : Counted s lost) (hlog : t.log = s.log) (hfields : Fields t lost)
    (hat : s.at_ = .listening → t.at_ = .listening) (hfair : Fair t) : Counted t lost := by
  refine ⟨hfields, ?_, ?_, hfair⟩
  · rw [hlog]
    exact h.few
  · intro hlost ht
    rw [hlog]
    exact h.many hlost fun hs => ht (hat hs)

/- A step from one position of the loops to another. -/
theorem Counted.jump (h : Counted s lost) (hlog : t.log = s.log) (hfields : Fields t lost)
    (hat : s.at_ = .polling ∨ s.at_ = .reporting ∨ s.at_ = .caught ∨ s.at_ = .checking)
    (ht : t.at_ ≠ .destroyed) : Counted t lost := by
  have hsound : Sound s.log := by
    refine h.fair.sound ?_ ?_ <;> obtain hat | hat | hat | hat := hat <;> simp [hat]
  refine h.quiet hlog hfields ?_ (fair_of_sound (hlog ▸ hsound) ht)
  obtain hat | hat | hat | hat := hat <;> simp [hat]

theorem Fields.frame (h : Fields s lost) (hat : t.at_ = s.at_)
    (hfinished : s.finished = true → t.finished = true)
    (hclient : t._socket.socket_client_id = s._socket.socket_client_id)
    (hserver : t._socket.socket_id = s._socket.socket_id)
    (hheld : t._socket.process.held = s._socket.process.held) : Fields t lost := by
  have hopen : Connected s._socket lost → Connected t._socket lost := by
    intro h
    refine ⟨?_, ?_, ?_⟩
    · rw [hheld, hclient, hserver, h.held]
    · rw [hclient, hserver]
      exact h.client
    · rw [hserver]
      exact h.server
  have hclosed : Closed s._socket lost → Closed t._socket lost := by
    intro h
    refine ⟨hheld.trans h.held, ?_, ?_⟩
    · rw [hclient]
      exact h.client
    · rw [hserver]
      exact h.server
  unfold Fields at h ⊢
  rw [hat]
  cases hs : s.at_ with
  | listening =>
    rw [hs] at h
    exact hheld.trans h
  | polling | reporting | caught =>
    rw [hs] at h
    exact hopen h
  | checking =>
    rw [hs] at h
    exact h.imp (fun h => ⟨hfinished h.1, hopen h.2⟩) hclosed
  | summarizing =>
    rw [hs] at h
    exact h.imp hopen hclosed
  | leaving | destroyed =>
    rw [hs] at h
    exact hclosed h

/- Back in front of `listen` with something lost, the count is up to the next success. -/
theorem counted_listening (hfields : Fields t lost) (hat : t.at_ = .listening) (hlost : lost ≠ [])
    (hsound : Sound t.log) : Counted t lost := by
  refine ⟨hfields, fun hnil => absurd hnil hlost, fun _ ht => absurd hat ht, ?_⟩
  exact fair_of_sound hsound (by simp [hat])

/- The final `close()`, and that behind a failed `send`. -/
theorem Counted.close (h : Counted s lost) (hat : s.at_ ≠ .listening)
    (hclient : 0 ≤ s._socket.socket_client_id) (hserver : 0 ≤ s._socket.socket_id)
    (hsocket : t._socket = s._socket.close) (hfields : Fields t lost)
    (hfair : Fair t) : Counted t lost := by
  have hlog : t.log = s.log ++ [.release s._socket.socket_client_id] ++
      [.release s._socket.socket_id] := by
    rw [Sensor.log, hsocket, close_log_both hclient hserver]
    rfl
  refine ⟨hfields, ?_, ?_, hfair⟩
  · intro hlost
    rw [hlog]
    exact within_release (within_release (h.few hlost))
  · intro hlost _ hwithin
    rw [hlog, List.append_assoc] at hwithin
    exact h.many hlost hat (hwithin.mono (List.prefix_append _ _))

/- A successful `listen` obtains two. -/
theorem Counted.accepted (h : Counted s lost) (hat : s.at_ = .listening)
    (ht : t.at_ = .polling) (hfields : Connected t._socket lost) {server client : Int}
    (hlog : t.log = s.log ++ [.acquire server] ++ [.acquire client]) : Counted t lost := by
  have hheld := h.fields.listening hat
  have hlength : (held t.log).length = lost.length + 2 := by
    exact congrArg List.length hfields.held
  refine ⟨?_, ?_, ?_, ?_⟩
  · simpa [Fields, ht] using hfields
  · intro hlost
    have hnil : held s.log = [] := hheld.trans hlost
    rw [hlog, within_concat, within_concat]
    simp [h.few hlost, hnil]
  · intro hlost _ hwithin
    have htwo := hwithin t.log List.prefix_rfl
    have hpos := List.length_pos_iff.mpr hlost
    omega
  · have hsound : Sound s.log := h.fair.sound (by simp [hat]) (by simp [hat])
    refine fair_of_sound ?_ (by simp [ht])
    rw [hlog]
    exact sound_acquire (sound_acquire hsound)

end

/-- One step loses descriptors exactly when it is not a tight one. -/
theorem Counted.step {s t : Sensor} {lost : List Int} {move : Move} (h : Counted s lost)
    (hmoved : Moved s move t) : ∃ more, Counted t (more ++ lost) ∧ (more = [] ↔ Tight move s) := by
  cases hmoved with
  | finish =>
    refine ⟨[], h.quiet rfl ?_ id (h.fair.frame rfl rfl), by simp [Tight]⟩
    exact h.fields.frame rfl (fun _ => rfl) rfl rfl rfl
  | others _ others hmove =>
    refine ⟨[], h.quiet rfl ?_ id (h.fair.frame rfl rfl), by simp [hmove]⟩
    exact h.fields.frame rfl id rfl rfl rfl
  | failed answers socket hat hanswer hprocess =>
    have hheld := h.fields.listening hat
    have hlog : socket.process.log = s.log := congrArg Process.log hprocess
    refine ⟨[], h.quiet hlog ?_ id (h.fair.frame rfl hlog), by simp [Tight, hanswer]⟩
    simpa [Fields, hat, hprocess] using hheld
  | lost answers socket hat hfree hlost hprocess =>
    have hheld := h.fields.listening hat
    have hsound : Sound s.log := h.fair.sound (by simp [hat]) (by simp [hat])
    have hlog : socket.process.log = s.log ++ [.acquire answers.socket] := by
      rw [hprocess, obtain_log hfree.1]
      rfl
    refine ⟨[answers.socket], counted_listening ?_ hat (by simp) ?_, ?_⟩
    · simpa [Fields, hat, hprocess, hfree.1] using hheld
    · rw [Sensor.log, hlog]
      exact sound_acquire hsound
    · simp only [Tight, hfree.ne, false_or, List.cons_ne_nil, false_iff, not_and_or, not_not]
      exact hlost
  | accepted answers hat hfree hclient hbind =>
    have hheld := h.fields.listening hat
    have hlog : ((s._socket.process.obtain answers.socket).obtain answers.accept).log =
        s.log ++ [.acquire answers.socket] ++ [.acquire answers.accept] := by
      rw [obtain_log hclient.1, obtain_log hfree.1]
      rfl
    refine ⟨[], h.accepted hat rfl ?_ hlog, by simp [Tight, hbind, hclient.ne]⟩
    have hnew := hfree.2.1
    have hnewClient := hclient.2.1
    rw [obtain_held hfree.1, hheld] at hnewClient
    rw [hheld] at hnew
    refine ⟨?_, ⟨hclient.1, hnewClient⟩, ⟨hfree.1, hnew⟩⟩
    rw [obtain_held hclient.1, obtain_held hfree.1, hheld]
  | poll hat =>
    have hopen := h.fields.open (.inl hat)
    refine ⟨[], h.jump rfl ?_ (.inl hat) ?_, by simp [Tight]⟩
    · cases hfinished : s.finished <;> simp [Fields, hopen]
    · cases hfinished : s.finished <;> simp
  | threw hat =>
    have hopen := h.fields.open (.inr (.inl hat))
    exact ⟨[], h.jump rfl hopen (.inr (.inl hat)) (by simp), by simp [Tight]⟩
  | sent ret hat =>
    have hopen := h.fields.open (.inr (.inl hat))
    exact ⟨[], h.jump rfl hopen (.inr (.inl hat)) (by simp), by simp [Tight]⟩
  | hungUp ret hat =>
    have hopen := h.fields.open (.inr (.inl hat))
    have hsound : Sound s.log := h.fair.sound (by simp [hat]) (by simp [hat])
    refine ⟨[], h.close ?_ hopen.client.1 hopen.server.1 rfl (.inr hopen.close) ?_, by simp [Tight]⟩
    · simp [hat]
    · exact fair_of_sound (hopen.sound_close hsound) (by simp)
  | check hat =>
    cases hat with
    | inl hat =>
      have hopen := h.fields.open (.inr (.inr hat))
      have hsound : Sound s.log := h.fair.sound (by simp [hat]) (by simp [hat])
      cases hfinished : s.finished with
      | true =>
        refine ⟨[], h.jump rfl (.inl hopen) (.inr (.inr (.inl hat))) (by simp), ?_⟩
        simp [Tight, hfinished]
      | false =>
        -- the next `listen` overwrites both fields
        refine ⟨[s._socket.socket_client_id, s._socket.socket_id],
          counted_listening hopen.held rfl (by simp) hsound, ?_⟩
        simp [Tight, hat, hfinished]
    | inr hat =>
      have hfields := h.fields
      rw [Fields, hat] at hfields
      cases hfinished : s.finished with
      | true =>
        refine ⟨[], h.jump rfl ?_ (.inr (.inr (.inr hat))) (by simp), by simp [Tight, hat]⟩
        exact hfields.imp And.right id
      | false =>
        have hclosed : Closed s._socket lost := by
          cases hfields with
          | inl hopen => simp [hfinished] at hopen
          | inr hclosed => exact hclosed
        refine ⟨[], h.jump rfl hclosed.held (.inr (.inr (.inr hat))) (by simp), ?_⟩
        simp [Tight, hat]
  | summary hat =>
    have hfields := h.fields
    rw [Fields, hat] at hfields
    have hnonneg : 0 ≤ s._socket.socket_client_id ∧ 0 ≤ s._socket.socket_id :=
      hfields.elim (fun h => ⟨h.client.1, h.server.1⟩) fun h => ⟨h.client.1, h.server.1⟩
    have hclosed : Closed s._socket.close lost := hfields.elim Connected.close Closed.close
    refine ⟨[], h.close ?_ hnonneg.1 hnonneg.2 rfl hclosed ⟨?_, ?_⟩, by simp [Tight]⟩
    · simp [hat]
    · simp
    · simp
  | destroy hat =>
    have hclosed := h.fields.left (.inl hat)
    have hunsound := hclosed.not_sound
    refine ⟨[], h.close ?_ hclosed.client.1 hclosed.server.1 rfl hclosed.close ⟨?_, ?_⟩, ?_⟩
    · simp [hat]
    · simp
    · exact fun _ => hunsound
    · simp [Tight]

section
variable {s : Sensor} {moves : List Move}

theorem counted_init (h : logging.init s) : Counted s [] := by
  obtain ⟨hat, hlog⟩ := h
  refine ⟨?_, ?_, fun hlost => absurd rfl hlost, ?_⟩
  · rw [Fields, hat]
    exact congrArg held hlog
  · rw [hlog]
    simp
  · exact fair_of_sound (by simp [hlog]) (by simp [hat])

/-- A run that is not tight has lost something. -/
theorem counted_run (h : logging.Run moves s) :
    ∃ lost, Counted s lost ∧ (lost = [] → (logging.restrict Tight).Run moves s) := by
  induction h with
  | start hinit => exact ⟨[], counted_init hinit, fun _ => .start hinit⟩
  | next _ hstep ih =>
    obtain ⟨lost, hcounted, htight⟩ := ih
    obtain ⟨more, hnext, hmore⟩ := hcounted.step (moved_of_step hstep)
    refine ⟨more ++ lost, hnext, ?_⟩
    intro hnil
    rw [List.append_eq_nil_iff] at hnil
    exact (htight hnil.2).next ⟨hmore.mp hnil.1, hstep⟩

theorem counted_tight (h : (logging.restrict Tight).Reachable s) : Counted s [] := by
  refine System.Reachable.invariant (S := logging.restrict Tight) (I := fun s => Counted s [])
    (fun s hinit => counted_init hinit) ?_ h
  intro move s t hcounted hstep
  obtain ⟨more, hnext, hmore⟩ := hcounted.step (moved_of_step hstep.2)
  rw [hmore.mpr hstep.1] at hnext
  exact hnext

/-- At most two at any time, in every state of a tight run. -/
theorem within_two_of_tight (h : (logging.restrict Tight).Reachable s) : Within 2 s.log :=
  (counted_tight h).few rfl

theorem held_nil_iff (h : logging.Run moves s) (hat : s.at_ = .destroyed) :
    s._socket.process.held = [] ↔ (logging.restrict Tight).Run moves s := by
  constructor
  · intro hheld
    obtain ⟨lost, hcounted, htight⟩ := counted_run h
    exact htight ((hcounted.fields.left (.inr hat)).held.symm.trans hheld)
  · intro htight
    exact ((counted_tight htight.reachable).fields.left (.inr hat)).held

theorem within_two_iff (h : logging.Run moves s) (hat : s.at_ = .destroyed) :
    Within 2 s.log ↔ (logging.restrict Tight).Run moves s := by
  constructor
  · intro hwithin
    obtain ⟨lost, hcounted, htight⟩ := counted_run h
    refine htight ?_
    by_contra hlost
    exact hcounted.many hlost (by simp [hat]) hwithin
  · intro htight
    exact within_two_of_tight htight.reachable

theorem not_sound_destroyed (h : logging.Run moves s) (hat : s.at_ = .destroyed) :
    ¬ Sound s.log := by
  obtain ⟨lost, hcounted, -⟩ := counted_run h
  exact hcounted.fair.unsound hat

/-- Up to the last `close()` only what is held is closed, also behind failures. -/
theorem sound_in_loop (h : logging.Reachable s) (hleaving : s.at_ ≠ .leaving)
    (hdestroyed : s.at_ ≠ .destroyed) : Sound s.log := by
  obtain ⟨moves, hrun⟩ := h
  obtain ⟨lost, hcounted, -⟩ := counted_run hrun
  exact hcounted.fair.sound hleaving hdestroyed

/-- Another thread may be given a number between the last `close()` and the destructor, which
then closes that thread's descriptor. -/
theorem destructor_closes_foreign (h : logging.Reachable s) (hat : s.at_ = .leaving)
    (hfree : s._socket.socket_client_id ∉ s._socket.process.others) :
    ∃ t u, logging.step (.opens s._socket.socket_client_id) s t ∧ logging.step .destroy t u ∧
      s._socket.socket_client_id ∈ t._socket.process.others ∧
      s._socket.socket_client_id ∉ u._socket.process.others := by
  obtain ⟨moves, hrun⟩ := h
  obtain ⟨lost, hcounted, -⟩ := counted_run hrun
  have hclosed := hcounted.fields.left (.inl hat)
  have hnot : s._socket.socket_client_id ∉ s._socket.process.held := by
    rw [hclosed.held]
    exact hclosed.client.2
  let reused : Process :=
    { s._socket.process with others := s._socket.socket_client_id :: s._socket.process.others }
  have hgone : s._socket.socket_client_id ∉ (reused.close s._socket.socket_client_id).others := by
    rw [close_others (p := reused) hclosed.client.1 hnot]
    simpa [reused] using hfree
  exact ⟨s.setOthers reused.others, _, if_pos ⟨hclosed.client.1, hnot, hfree⟩, if_pos hat,
    by simp [Sensor.setOthers, reused], not_mem_close_others hgone⟩

end

section
variable {c : linux_socket} {socket_ connect_ : Int}

theorem life_failed (h : socket_ = -1) (hlog : c.process.log = []) :
    (c.life socket_ connect_).process.log = [] := by
  simp [linux_socket.life, linux_socket.connect, linux_socket.destroy, linux_socket.clean_up,
    Process.close, h, hlog]

/- Connected, or the descriptor that the test in `connect` takes for none. -/
theorem life_once (hfd : 0 ≤ socket_) (h : connect_ = 0 ∨ socket_ = 0) (hlog : c.process.log = []) :
    (c.life socket_ connect_).process.log = [.acquire socket_, .release socket_] := by
  have hkept : (c.connect socket_ connect_).1 = ⟨socket_, c.process.obtain socket_⟩ := by
    have hnonneg : ¬ socket_ < 0 := by omega
    cases h with
    | inl h => simp [linux_socket.connect, hnonneg, h]
    | inr h => by_cases hconnect : connect_ = 0 <;> simp [linux_socket.connect, h, hconnect]
  rw [linux_socket.life, hkept, linux_socket.destroy, linux_socket.clean_up, close_log hfd,
    obtain_log hfd, hlog]
  rfl

theorem life_twice (hfd : 0 < socket_) (h : connect_ ≠ 0) (hlog : c.process.log = []) :
    (c.life socket_ connect_).process.log =
      [.acquire socket_, .release socket_, .release socket_] := by
  have hclosed : (c.connect socket_ connect_).1 =
      ⟨socket_, (c.process.obtain socket_).close socket_⟩ := by
    have hnonneg : ¬ socket_ < 0 := by omega
    have hnonzero : socket_ ≠ 0 := by omega
    simp [linux_socket.connect, linux_socket.clean_up, hnonneg, hnonzero, h]
  have hfree : 0 ≤ socket_ := by omega
  rw [linux_socket.life, hclosed, linux_socket.destroy, linux_socket.clean_up, close_log hfree,
    close_log hfree, obtain_log hfree, hlog]
  rfl

theorem owned_nil : Owned 2 ([] : List (Event Int)) := by
  refine ⟨onceEach_of_released fresh_nil sound_nil rfl, sound_nil, within_nil⟩

theorem owned_once : Owned 2 [Event.acquire socket_, .release socket_] := by
  have hfresh : Fresh ([] ++ [Event.acquire socket_] ++ [.release socket_]) :=
    fresh_release (fresh_acquire fresh_nil (by simp))
  have hsound : Sound ([] ++ [Event.acquire socket_] ++ [.release socket_]) :=
    sound_release.mpr ⟨sound_acquire sound_nil, by rw [held_concat]; simp⟩
  refine ⟨onceEach_of_released hfresh hsound (by simp [held, after]), hsound, ?_⟩
  exact within_release (within_concat.mpr ⟨within_nil, by simp⟩)

/-- A socket whose `connect` fails is closed there and in the destructor; descriptor 0 escapes
the first by the test `if (socket_id)`. -/
theorem life_owned_iff (hsocket : c.process.Returns socket_) (hlog : c.process.log = []) :
    Owned 2 (c.life socket_ connect_).process.log ↔
      socket_ = -1 ∨ connect_ = 0 ∨ socket_ = 0 := by
  by_cases hfailed : socket_ = -1
  · rw [life_failed hfailed hlog]
    simp [hfailed, owned_nil]
  have hfd := (hsocket.free hfailed).1
  by_cases honce : connect_ = 0 ∨ socket_ = 0
  · simp [life_once hfd honce hlog, honce, owned_once]
  · simp only [hfailed, honce, false_or, iff_false]
    intro howned
    rw [not_or] at honce
    rw [life_twice (by omega) honce.1 hlog] at howned
    have hsound : Sound ([.acquire socket_, .release socket_] ++ [.release socket_]) := howned.sound
    simpa [held, after] using (sound_release.mp hsound).2

end

/-- In no run does the server object close what it holds and nothing else; it leaves nothing
open, and holds at most two at any time, exactly in the tight runs. -/
theorem descriptors_owned_iff {moves : List Move} {s : Sensor} (hrun : logging.Run moves s)
    (hdestroyed : s.at_ = .destroyed) {c : linux_socket} {socket_ connect_ : Int}
    (hlog : c.process.log = []) (hsocket : c.process.Returns socket_) :
    (¬ Owned 2 s.log ∧ (s._socket.process.held = [] ↔ (logging.restrict Tight).Run moves s) ∧
        (Within 2 s.log ↔ (logging.restrict Tight).Run moves s)) ∧
      (Owned 2 (c.life socket_ connect_).process.log ↔
        socket_ = -1 ∨ connect_ = 0 ∨ socket_ = 0) := by
  refine ⟨⟨?_, held_nil_iff hrun hdestroyed, within_two_iff hrun hdestroyed⟩,
    life_owned_iff hsocket hlog⟩
  intro howned
  exact not_sound_destroyed hrun hdestroyed howned.sound

/- The socket is set up at once, and the flag is found set. -/
def quickEnd (answers : Answers) : List Move :=
  [.listen answers, .finish, .poll, .check, .summary, .destroy]

def start : Sensor := ⟨.listening, false, ⟨0, 0, ⟨[], []⟩⟩⟩

theorem run_start (moves : List Move) {s : Sensor}
    (h : moves.foldlM (fun s move => move.step s) start = some s) : logging.Run moves s := by
  have hstart : logging.Run [] start := .start ⟨rfl, rfl⟩
  exact hstart.foldlM (fun s move => move.step s) moves (fun _ _ _ _ hstep => hstep) h

theorem descriptors_owned_quickEnd :
    let log := [Event.acquire 4, .acquire 5, .release 5, .release 4, .release 5, .release 4]
    let s : Sensor := ⟨.destroyed, true, ⟨4, 5, ⟨log, []⟩⟩⟩
    let c : linux_socket := ⟨0, ⟨[], []⟩⟩
    (¬ Owned 2 s.log ∧
        (s._socket.process.held = [] ↔ (logging.restrict Tight).Run (quickEnd ⟨4, 0, 5⟩) s) ∧
        (Within 2 s.log ↔ (logging.restrict Tight).Run (quickEnd ⟨4, 0, 5⟩) s)) ∧
      (Owned 2 (c.life 3 0).process.log ↔ (3 : Int) = -1 ∨ (0 : Int) = 0 ∨ (3 : Int) = 0) := by
  intro log s c
  have hrun : logging.Run (quickEnd ⟨4, 0, 5⟩) s := run_start _ rfl
  exact descriptors_owned_iff hrun rfl (c := c) rfl (by decide)

/-- `bind` refuses once: its descriptor is never closed, three are held at a time, and the
destructor closes the other two a second time. -/
theorem bind_refused_leaks :
    ¬ ((∀ s, logging.Reachable s → s.at_ = .destroyed → Owned 2 s.log) ∧
      ∀ (c : linux_socket) (socket_ connect_ : Int), c.process.log = [] →
        c.process.Returns socket_ → Owned 2 (c.life socket_ connect_).process.log) := by
  intro hall
  have hrun := run_start (.listen ⟨3, -1, -1⟩ :: quickEnd ⟨4, 0, 5⟩) rfl
  have hwithin := (hall.1 _ hrun.reachable rfl).within
  have htwo := hwithin [.acquire 3, .acquire 4, .acquire 5] (by decide)
  exact absurd htwo (by decide)

/- The same positions in the model of all threads. -/
def At.main : At → SensorRun.Main
  | .listening => .listening
  | .polling => .polling
  | .reporting => .reporting
  | .caught | .checking => .checking
  | .summarizing => .summarizing
  | .leaving => .clearing
  | .destroyed => .returned

/-- Seen from the threads, a step is one of the main thread or none at all. -/
theorem main_step {β ρ : Type*} {threads : Pipeline.Threads β ρ} {s t : Sensor} {move : Move}
    (hfinished : threads.sender._finished = s.finished) (hstep : logging.step move s t) :
    t.at_.main = s.at_.main ∨
      ∃ outcome, SensorRun.mainStep true outcome threads s.at_.main = some t.at_.main := by
  cases moved_of_step hstep with
  | finish | others => exact .inl rfl
  | failed answers socket hat => exact .inl rfl
  | lost answers socket hat => exact .inl rfl
  | accepted answers hat => exact .inr ⟨.ok, by simp [At.main, SensorRun.mainStep, hat]⟩
  | poll hat =>
    refine .inr ⟨.ok, ?_⟩
    cases hflag : s.finished <;> simp [At.main, SensorRun.mainStep, hat, hfinished, hflag]
  | threw hat => exact .inr ⟨.throws, by simp [At.main, SensorRun.mainStep, hat]⟩
  | sent ret hat => exact .inr ⟨.ok, by simp [At.main, SensorRun.mainStep, hat]⟩
  | hungUp ret hat => exact .inr ⟨.fails, by simp [At.main, SensorRun.mainStep, hat]⟩
  | check hat =>
    refine .inr ⟨.ok, ?_⟩
    cases hflag : s.finished <;> obtain hat | hat := hat <;>
      simp [At.main, SensorRun.mainStep, hat, hfinished, hflag]
  | summary hat => exact .inr ⟨.ok, by simp [At.main, SensorRun.mainStep, hat]⟩
  | destroy hat => exact .inr ⟨.ok, by simp [At.main, SensorRun.mainStep, hat]⟩

end SyscallSensor.Descriptors
