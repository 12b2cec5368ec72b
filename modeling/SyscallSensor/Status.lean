import Mathlib.Algebra.Order.BigOperators.Group.List
import SyscallSensor.Ftrace
import SyscallSensor.Pipeline
import SyscallSensor.Lib.Chunks

/-! What a logging sensor tells its client: the texts of `get_status` and `get_summary`, the
client's loop over `receive`, and the counters read back from what it prints. -/
namespace SyscallSensor.Status
open Text Trace
open Lib.Decimal (text IsDigit)
open Lib.Chunks
open Pipeline (Threads)
variable {β ρ : Type*}

/- `comma_numpunct`. -/
def do_thousands_sep : Byte := 44

/-- Separators between groups of three, from the units on: `do_grouping` is `"\03"`. -/
def separate : List Byte → List Byte
  | a :: b :: c :: d :: digits => a :: b :: c :: do_thousands_sep :: separate (d :: digits)
  | digits => digits

/- `<<` of a `size_t` under the locale. -/
def number (n : Nat) : List Byte := (separate (text n).reverse).reverse

/- `EventsWatch::total`; `sec` is the time between `start()` and `stop()`. -/
def total (w : EventsWatch) (sec : Int) : Nat :=
  if sec = 0 then 0 else w.total_events / (sec % 2 ^ 64).toNat

inductive Counter where
  | all
  | read
  | process
  | send
  | stream
  | result
deriving DecidableEq, Repr

def Counter.label : Counter → List Byte
  | .all => ascii "All Events "
  | .read => ascii "Read Events "
  | .process => ascii "Process Events "
  | .send => ascii "Send Events "
  | .stream => ascii "Stream Queue size "
  | .result => ascii "Result Queue size "

def Counter.unit : Counter → List Byte
  | .all => ascii " events"
  | .stream => []
  | .result => []
  | _ => ascii " events/sec"

/- A line; `setw` holds for the next item only, `left` from then on. -/
def field (counter : Counter) (n : Nat) : List Byte :=
  padRight blank 25 counter.label ++ ascii "= " ++ padRight blank 15 (number n) ++ counter.unit ++
    ascii "\n"

/-- The text that is sent each second, and the watches with their counts started over. -/
def get_status (s : Threads β ρ) (reader_sec worker_sec sender_sec : Int) :
    List Byte × Threads β ρ :=
  let (read, _reader_watch) := s._reader_watch.now reader_sec
  let (process, _worker_watch) := s._worker_watch.now worker_sec
  let (send, _sender_watch) := s.sender._watch.now sender_sec
  (field .read read ++ field .process process ++ field .send send ++
      field .stream s._stream_queue.q.length ++ field .result s._result_queue.q.length ++ ascii "\n",
    { s with
      _reader_watch := _reader_watch
      _worker_watch := _worker_watch
      sender := { s.sender with _watch := _sender_watch } })

def get_summary (s : Threads β ρ) (reader_sec worker_sec sender_sec : Int) : List Byte :=
  field .all s._reader_watch.all_events ++ field .read (total s._reader_watch reader_sec) ++
    field .process (total s._worker_watch worker_sec) ++
    field .send (total s.sender._watch sender_sec) ++ ascii "\n"

/- `linux_socket::receive`: an error and the end of the connection are both an empty string. -/
def receive : Option (List Byte) → List Byte
  | none => []
  | some server_reply => server_reply

/-- What the loop of the `status` command prints, over what `read` gives one call after another. -/
def statusLoop : List (Option (List Byte)) → List Byte
  | [] => []
  | reply :: replies =>
    let reciv := receive reply
    if reciv.isEmpty then [] else reciv ++ ascii "\n" ++ statusLoop replies

/- A line of the output without its newline. -/
def readNumber (digits : List Byte) : Option Nat :=
  Lib.Decimal.readNat (digits.filter fun b => b ≠ do_thousands_sep)

def readField (line : List Byte) : Option (Counter × Nat) := do
  let counter ← [.all, .read, .process, .send, .stream, .result].find? fun counter : Counter =>
    padRight blank 25 counter.label ++ ascii "= " = line.take 27
  let n ← readNumber ((line.drop 27).takeWhile fun b => b ≠ blank)
  pure (counter, n)

/-- The counters in what the client has printed; empty lines say nothing. -/
def readOutput (output : List Byte) : Option (List (Counter × Nat)) := do
  let lines ← Lib.Pieces.cutEnded newline output
  (lines.filter fun line => line ≠ []).mapM readField

/-- The separators are taken out again; what is left are the digits. -/
theorem filter_separate {digits : List Byte} (h : do_thousands_sep ∉ digits) :
    (separate digits).filter (fun b => b ≠ do_thousands_sep) = digits := by
  have hkeep (ds : List Byte) (hds : do_thousands_sep ∉ ds) :
      ds.filter (fun b => b ≠ do_thousands_sep) = ds := by
    rw [List.filter_eq_self]
    intro b hb
    exact decide_eq_true fun heq => hds (heq ▸ hb)
  induction digits using separate.induct with
  | case1 a b c d digits ih =>
    have hrest := ih fun hmem => h (by simp [List.mem_cons.mp hmem])
    have hgroup := hkeep [a, b, c] fun hmem => h (List.mem_append_left (d :: digits) hmem)
    have hcut : separate (a :: b :: c :: d :: digits) =
        [a, b, c] ++ [do_thousands_sep] ++ separate (d :: digits) := rfl
    rw [hcut, List.filter_append, List.filter_append, hgroup, hrest]
    rfl
  | case2 digits hshort =>
    rw [separate.eq_2 digits hshort]
    exact hkeep digits h

theorem mem_separate {digits : List Byte} {x : Byte} (h : x ∈ separate digits) :
    x = do_thousands_sep ∨ x ∈ digits := by
  induction digits using separate.induct with
  | case1 a b c d digits ih =>
    have hcut : separate (a :: b :: c :: d :: digits) =
        [a, b, c] ++ [do_thousands_sep] ++ separate (d :: digits) := rfl
    rw [hcut, List.mem_append, List.mem_append, List.mem_singleton] at h
    obtain (hgroup | hsep) | hrest := h
    · exact .inr (List.mem_append_left (d :: digits) hgroup)
    · exact .inl hsep
    · exact (ih hrest).imp_right (List.mem_append_right [a, b, c])
  | case2 digits hshort =>
    rw [separate.eq_2 digits hshort] at h
    exact .inr h

theorem separate_length (digits : List Byte) :
    (separate digits).length ≤ digits.length + digits.length / 3 := by
  induction digits using separate.induct with
  | case1 a b c d digits ih =>
    simp only [separate, List.length_cons] at ih ⊢
    omega
  | case2 digits hshort =>
    rw [separate.eq_2 digits hshort]
    omega

example : number 1234567 = ascii "1,234,567" := by decide +kernel

theorem filter_number (n : Nat) : (number n).filter (fun b => b ≠ do_thousands_sep) = text n := by
  have hdigits : do_thousands_sep ∉ (text n).reverse := by
    rw [List.mem_reverse]
    exact Lib.Decimal.not_mem_text (by decide) n
  rw [number, List.filter_reverse, filter_separate hdigits, List.reverse_reverse]

theorem readNumber_number (n : Nat) : readNumber (number n) = some n := by
  rw [readNumber, filter_number, Lib.Decimal.readNat_text]

theorem number_byte {n : Nat} {b : Byte} (h : b ∈ number n) : b = do_thousands_sep ∨ IsDigit b := by
  rw [number, List.mem_reverse] at h
  refine (mem_separate h).imp_right fun hdigit => ?_
  rw [List.mem_reverse] at hdigit
  exact Lib.Decimal.text_isDigit hdigit

theorem not_mem_number {b : Byte} (hsep : b ≠ do_thousands_sep) (hdigit : ¬ IsDigit b) (n : Nat) :
    b ∉ number n :=
  fun h => (number_byte h).elim hsep hdigit

/- A line without its newline. -/
def body (counter : Counter) (n : Nat) : List Byte :=
  padRight blank 25 counter.label ++ ascii "= " ++ padRight blank 15 (number n) ++ counter.unit

theorem label_length (counter : Counter) :
    (padRight blank 25 counter.label ++ ascii "= ").length = 27 := by
  cases counter <;> decide

theorem find_label (counter : Counter) :
    [Counter.all, .read, .process, .send, .stream, .result].find? (fun other : Counter =>
      padRight blank 25 other.label ++ ascii "= " =
        padRight blank 25 counter.label ++ ascii "= ") = some counter := by
  cases counter <;> decide +kernel

/- Behind the number there is padding, or the unit with its blank, or nothing. -/
theorem stops_at_blank (counter : Counter) (k : Nat) :
    (List.replicate k blank ++ counter.unit).takeWhile (fun b => b ≠ blank) = [] := by
  cases k with
  | succ k => rfl
  | zero => cases counter <;> rfl

theorem readField_body (counter : Counter) (n : Nat) :
    readField (body counter n) = some (counter, n) := by
  have hlength := label_length counter
  have htake : (body counter n).take 27 = padRight blank 25 counter.label ++ ascii "= " := by
    rw [body, List.append_assoc, List.take_left' hlength]
  have hdrop : (body counter n).drop 27 = padRight blank 15 (number n) ++ counter.unit := by
    rw [body, List.append_assoc, List.drop_left' hlength]
  have hblank : ∀ b ∈ number n, decide (b ≠ blank) = true := by
    intro b hb
    rw [decide_eq_true_eq]
    rintro rfl
    exact not_mem_number (by decide) (by decide) n hb
  have hnumber : (padRight blank 15 (number n) ++ counter.unit).takeWhile (fun b => b ≠ blank) =
      number n := by
    rw [padRight, List.append_assoc, List.takeWhile_append_of_pos hblank, stops_at_blank,
      List.append_nil]
  rw [readField]
  simp only [htake, hdrop, hnumber, find_label, readNumber_number, Option.bind_eq_bind,
    Option.bind_some]
  rfl

theorem body_line (counter : Counter) (n : Nat) : newline ∉ body counter n ∧ body counter n ≠ [] := by
  have hlabel : newline ∉ padRight blank 25 counter.label ++ ascii "= " := by
    cases counter <;> decide +kernel
  have hunit : newline ∉ counter.unit := by cases counter <;> decide
  have hnumber : newline ∉ padRight blank 15 (number n) := by
    rw [padRight, List.mem_append, List.mem_replicate]
    rintro (hmem | ⟨-, hnewline⟩)
    · exact not_mem_number (by decide) (by decide) n hmem
    · exact absurd hnewline (by decide)
  constructor
  · simp only [body, List.mem_append, not_or] at hlabel ⊢
    exact ⟨⟨hlabel, hnumber⟩, hunit⟩
  · intro hnil
    have hlength := congrArg List.length hnil
    rw [body, List.append_assoc, List.length_append, label_length, List.length_nil] at hlength
    omega

/-- A call of `get_status` or `get_summary` in a state of the threads, with what the clock says for
the three watches. -/
inductive Report (β ρ : Type*) where
  | status (s : Threads β ρ) (reader_sec worker_sec sender_sec : Int)
  | summary (s : Threads β ρ) (reader_sec worker_sec sender_sec : Int)

def Report.text : Report β ρ → List Byte
  | .status s reader_sec worker_sec sender_sec => (get_status s reader_sec worker_sec sender_sec).1
  | .summary s reader_sec worker_sec sender_sec => get_summary s reader_sec worker_sec sender_sec

/- The counters that the call looks at. -/
def Report.counters : Report β ρ → List (Counter × Nat)
  | .status s reader_sec worker_sec sender_sec =>
    [(.read, (s._reader_watch.now reader_sec).1), (.process, (s._worker_watch.now worker_sec).1),
      (.send, (s.sender._watch.now sender_sec).1), (.stream, s._stream_queue.q.length),
      (.result, s._result_queue.q.length)]
  | .summary s reader_sec worker_sec sender_sec =>
    [(.all, s._reader_watch.all_events), (.read, total s._reader_watch reader_sec),
      (.process, total s._worker_watch worker_sec), (.send, total s.sender._watch sender_sec)]

/- Its lines, with the empty one at the end. -/
def Report.lines (report : Report β ρ) : List (List Byte) :=
  report.counters.map (fun counter => body counter.1 counter.2) ++ [[]]

theorem text_lines (report : Report β ρ) :
    report.text = report.lines.flatMap fun line => line ++ [newline] := by
  have hnl : ascii "\n" = [newline] := by decide
  cases report <;>
    simp [Report.text, get_status, get_summary, Report.lines, Report.counters, field, body, hnl]

/-- A report on 64 bit counters fits into one read of 1024 bytes. -/
theorem text_fits {report : Report β ρ} (h : ∀ counter ∈ report.counters, counter.2 < 2 ^ 64) :
    report.text.length ≤ 1024 := by
  have hbody (counter : Counter × Nat) (hmem : counter ∈ report.counters) :
      (body counter.1 counter.2 ++ [newline]).length ≤ 65 := by
    have hdigits : (text counter.2).length ≤ 20 :=
      Lib.Decimal.text_length_le (by decide) (Nat.lt_trans (h counter hmem) (by decide))
    have hseparate := separate_length (text counter.2).reverse
    have hnumber : (number counter.2).length = (separate (text counter.2).reverse).length :=
      List.length_reverse
    have hunit : counter.1.unit.length ≤ 11 := by cases counter.1 <;> decide
    rw [List.length_reverse] at hseparate
    rw [body, List.append_assoc, List.append_assoc, List.length_append, label_length,
      List.length_append, List.length_append, padRight, List.length_append, List.length_replicate,
      List.length_singleton]
    omega
  have hlines : (report.counters.flatMap fun counter =>
      body counter.1 counter.2 ++ [newline]).length ≤ report.counters.length * 65 := by
    rw [List.length_flatMap]
    refine (List.sum_le_card_nsmul _ 65 ?_).trans (by simp)
    intro length hlength
    obtain ⟨counter, hmem, rfl⟩ := List.mem_map.mp hlength
    exact hbody counter hmem
  have hcounters : report.counters.length ≤ 5 := by cases report <;> simp [Report.counters]
  rw [text_lines, Report.lines, List.flatMap_append, List.flatMap_map, List.length_append]
  have hempty : (List.flatMap (fun line => line ++ [newline]) [([] : List Byte)]).length = 1 := rfl
  rw [hempty]
  omega

/- What the client prints: each reply, and a newline behind it. -/
theorem statusLoop_reads {reads : List (List Byte)} (h : ∀ server_reply ∈ reads, server_reply ≠ [])
    {closing : Option (List Byte)} (hclosing : receive closing = [])
    (later : List (Option (List Byte))) :
    statusLoop (reads.map some ++ closing :: later) =
      reads.flatMap fun server_reply => server_reply ++ [newline] := by
  have hnl : ascii "\n" = [newline] := by decide
  induction reads with
  | nil =>
    rw [List.map_nil, List.nil_append, statusLoop]
    simp [hclosing]
  | cons server_reply reads ih =>
    rw [List.forall_mem_cons] at h
    rw [List.map_cons, List.cons_append, statusLoop, ih h.2, List.flatMap_cons]
    simp [receive, h.1, hnl]

/-- The lines with something in them are those of the counters. -/
theorem filter_lines (reports : List (Report β ρ)) :
    (reports.flatMap Report.lines).filter (fun line => !line.isEmpty) =
      (reports.flatMap Report.counters).map fun counter => body counter.1 counter.2 := by
  induction reports with
  | nil => rfl
  | cons report reports ih =>
    have hbodies : (report.counters.map fun counter => body counter.1 counter.2).filter
        (fun line => !line.isEmpty) =
          report.counters.map fun counter => body counter.1 counter.2 := by
      rw [List.filter_eq_self]
      intro line hline
      obtain ⟨counter, -, rfl⟩ := List.mem_map.mp hline
      simp [(body_line counter.1 counter.2).2]
    rw [List.flatMap_cons, List.filter_append, ih, Report.lines, List.filter_append, hbodies,
      List.flatMap_cons, List.map_append]
    simp

theorem lines_noNewline (reports : List (Report β ρ)) :
    ∀ line ∈ reports.flatMap Report.lines, newline ∉ line := by
  intro line hline
  obtain ⟨report, -, hmem⟩ := List.mem_flatMap.mp hline
  rw [Report.lines, List.mem_append, List.mem_singleton] at hmem
  obtain hcounter | rfl := hmem
  · obtain ⟨counter, -, rfl⟩ := List.mem_map.mp hcounter
    exact (body_line counter.1 counter.2).1
  · exact List.not_mem_nil

theorem texts_lines (reports : List (Report β ρ)) :
    reports.flatMap Report.text =
      (reports.flatMap Report.lines).flatMap fun line => line ++ [newline] := by
  rw [List.flatMap_assoc]
  exact List.flatMap_congr fun report _ => text_lines report

theorem readOutput_reads (reads : List (List Byte)) :
    readOutput (reads.flatMap fun server_reply => server_reply ++ [newline]) =
      ((reads.flatMap (List.splitOn newline)).filter fun line => !line.isEmpty).mapM readField := by
  have hkeep : (fun line : List Byte => decide (line ≠ [])) = fun line => !line.isEmpty := by
    funext line
    cases line <;> rfl
  rw [readOutput, Lib.Chunks.cutEnded_shown, Option.bind_eq_bind, Option.bind_some, hkeep]

/-- The `=` stands in one place only. -/
theorem body_equals (counter : Counter) (n : Nat) :
    ∃ before after, body counter n = before ++ 61 :: after ∧ before.length = 25 ∧ 61 ∉ after := by
  have hnumber : 61 ∉ padRight blank 15 (number n) := by
    rw [padRight, List.mem_append, List.mem_replicate]
    rintro (hmem | ⟨-, hblank⟩)
    · exact not_mem_number (by decide) (by decide) n hmem
    · exact absurd hblank (by decide)
  have hunit : 61 ∉ counter.unit := by cases counter <;> decide
  have hequals : ascii "= " = [61, blank] := by decide
  refine ⟨padRight blank 25 counter.label, blank :: (padRight blank 15 (number n) ++ counter.unit),
    ?_, ?_, ?_⟩
  · simp [body, hequals]
  · cases counter <;> decide
  · rw [List.mem_cons, List.mem_append, not_or, not_or]
    exact ⟨by decide, hnumber, hunit⟩

/-- What starts inside a line is no line. -/
theorem readField_inside {counter : Counter} {n : Nat} {front piece tail : List Byte}
    (h : front ++ piece ++ tail = body counter n) (hfront : front ≠ []) : readField piece = none := by
  obtain ⟨before, after, hbody, hbefore, hafter⟩ := body_equals counter n
  have hnone : [Counter.all, .read, .process, .send, .stream, .result].find? (fun other : Counter =>
      padRight blank 25 other.label ++ ascii "= " = piece.take 27) = none := by
    rw [List.find?_eq_none]
    intro other _ hlabel
    rw [decide_eq_true_eq] at hlabel
    -- then the line has another `=` further back
    have hpiece : piece[25]? = some 61 := by
      have hequals : (padRight blank 25 other.label ++ ascii "= ")[25]? = some 61 := by
        cases other <;> decide
      rwa [hlabel, List.getElem?_take_of_lt (by decide)] at hequals
    obtain ⟨hlength, -⟩ := List.getElem?_eq_some_iff.mp hpiece
    have hline : (front ++ piece ++ tail)[front.length + 25]? = some 61 := by
      rw [List.append_assoc, List.getElem?_append_right (Nat.le_add_right _ _),
        Nat.add_sub_cancel_left, List.getElem?_append_left hlength, hpiece]
    obtain ⟨k, hk⟩ := Nat.exists_eq_succ_of_ne_zero (List.length_pos_of_ne_nil hfront).ne'
    rw [h, hbody, List.getElem?_append_right (by omega), hk, hbefore,
      Nat.add_sub_cancel, List.getElem?_cons_succ] at hline
    exact hafter (List.mem_of_getElem? hline)
  rw [readField, hnone]
  rfl

section
variable {reads : List (List Byte)} {reports : List (Report β ρ)} {closing : Option (List Byte)}

theorem output_whole (hreads : ∀ server_reply ∈ reads, server_reply ≠ [])
    (hsent : reads.flatten = reports.flatMap Report.text) (hclosing : receive closing = [])
    (later : List (Option (List Byte))) (hcuts : ¬ CutsLine newline reads) :
    readOutput (statusLoop (reads.map some ++ closing :: later)) =
      some (reports.flatMap Report.counters) := by
  rw [texts_lines] at hsent
  rw [statusLoop_reads hreads hclosing, readOutput_reads,
    filter_pieces (lines_noNewline reports) hsent hcuts, filter_lines, List.mapM_map]
  rw [Lib.Outcome.mapM_some (g := id) fun counter _ => readField_body counter.1 counter.2,
    List.map_id]

theorem output_cut (hreads : ∀ server_reply ∈ reads, server_reply ≠ [])
    (hsent : reads.flatten = reports.flatMap Report.text) (hclosing : receive closing = [])
    (later : List (Option (List Byte))) (hcuts : CutsLine newline reads) :
    readOutput (statusLoop (reads.map some ++ closing :: later)) = none := by
  rw [texts_lines] at hsent
  obtain ⟨front, piece, tail, hline, hfront, hpiece, hmem⟩ :=
    exists_inside (lines_noNewline reports) hsent hcuts
  have hsome : front ++ piece ++ tail ∈
      (reports.flatMap Report.lines).filter fun line => !line.isEmpty :=
    List.mem_filter.mpr ⟨hline, by simp [hfront]⟩
  rw [filter_lines, List.mem_map] at hsome
  obtain ⟨counter, -, hbody⟩ := hsome
  rw [statusLoop_reads hreads hclosing, readOutput_reads]
  exact Lib.Outcome.mapM_eq_none (List.mem_filter.mpr ⟨hmem, by simp [hpiece]⟩)
    (readField_inside hbody.symm hfront)

/-- However the connection cuts the reports into reads, the client's output shows their counters, in
order, exactly when no read ends inside a line. -/
theorem output_shows_counters (hreads : ∀ server_reply ∈ reads, server_reply ≠ [])
    (hsent : reads.flatten = reports.flatMap Report.text) (hclosing : receive closing = [])
    (later : List (Option (List Byte))) :
    readOutput (statusLoop (reads.map some ++ closing :: later)) =
        some (reports.flatMap Report.counters) ↔ ¬ CutsLine newline reads := by
  constructor
  · intro hshown hcuts
    rw [output_cut hreads hsent hclosing later hcuts] at hshown
    cases hshown
  · exact output_whole hreads hsent hclosing later

end

/- A summary of 1,234,567 events. -/
def someSummary : Report Unit Unit :=
  .summary { reader := .returned, _reader_watch := ⟨0, 1234567, true⟩ } 1 1 1

def inTwoReads : List (List Byte) := [someSummary.text.take 30, someSummary.text.drop 30]

/-- The first of two reads ends behind `1,2`. -/
theorem output_shows_counters_cut :
    readOutput (statusLoop (inTwoReads.map some ++ none :: [])) ≠
      some [(.all, 1234567), (.read, 1234567), (.process, 0), (.send, 0)] := by
  have hreads : ∀ server_reply ∈ inTwoReads, server_reply ≠ [] := by decide +kernel
  have hsent : inTwoReads.flatten = [someSummary].flatMap Report.text := by decide +kernel
  have hcuts : CutsLine newline inTwoReads := by
    refine ⟨[_], [_], 50, 51, rfl, ?_, ?_, ?_, ?_⟩ <;> decide +kernel
  have hiff := output_shows_counters hreads hsent (show receive none = [] from rfl) []
  exact fun hshown => hiff.mp hshown hcuts

end SyscallSensor.Status
