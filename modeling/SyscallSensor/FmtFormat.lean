import Mathlib.Data.List.TakeWhile
import SyscallSensor.FmtWriter

/-! `fmt::format`: the loop over a format string and the choice of its arguments. What follows a
colon in a replacement field is left to the parameter `format_spec`; no format string of the
sensor has one. -/
namespace SyscallSensor.Fmt
open Text Trace
open Lib.Decimal (text intText IsDigit)

/- A `FormatError` with its text, or an access outside a buffer. -/
inductive Failure where
  | format_error (message : String)
  | fault (f : Fault)
deriving DecidableEq, Repr

def orFault {α : Type} : Except Fault α → Except Failure α
  | .ok a => .ok a
  | .error f => .error (.fault f)

/-- An argument: an integer of one of the types, or a `std::string`. -/
inductive Arg where
  | integer (type : MainType) (value : Int) (holds : type.Holds value)
  | string (value : List Byte)

def MAX_ARGS : Nat := 16

/- `ArgList::operator[]`; `none` is the type `NONE`. -/
def argAt (args : List Arg) (index : Nat) : Option Arg :=
  if index ≥ MAX_ARGS then none else args[index]?

def do_get_arg (args : List Arg) (arg_index : Nat) : Except String Arg :=
  match argAt args arg_index with
  | some arg => .ok arg
  | none => .error "argument index out of range"

def next_arg (args : List Arg) (next_arg_index_ : Int) : Except String Arg × Int :=
  if next_arg_index_ ≥ 0 then (do_get_arg args next_arg_index_.toNat, next_arg_index_ + 1)
  else (.error "cannot switch from manual to automatic argument indexing", next_arg_index_)

def get_arg (args : List Arg) (arg_index : Nat) (next_arg_index_ : Int) : Except String Arg × Int :=
  if next_arg_index_ ≤ 0 then (do_get_arg args arg_index, -1)
  else (.error "cannot switch from automatic to manual argument indexing", next_arg_index_)

/- `*s`, with the NUL behind the string. -/
def peek (s : List Byte) : Byte := s.headD 0

/-- The loop of `parse_nonnegative_int`, in `unsigned`. -/
def digitsLoop : List Byte → Nat → Nat × List Byte
  | [], value => (value, [])
  | c :: s, value =>
    if IsDigit c then
      let new_value := (value * 10 + (c.toNat - 48)) % 2 ^ 32
      if new_value < value then (2 ^ 32 - 1, s) else digitsLoop s new_value
    else (value, c :: s)

def parse_nonnegative_int (s : List Byte) : Except Failure (Nat × List Byte) :=
  if (digitsLoop s 0).1 > 2 ^ 31 - 1 then .error (.format_error "number is too big")
  else .ok (digitsLoop s 0)

/- The argument of a field, by its index where the field starts with one. -/
def selected (args : List Arg) (next_arg_index_ : Int) (s : List Byte) :
    Except Failure ((Except String Arg × Int) × List Byte) :=
  if IsDigit (peek s) then do
    let (index, s) ← parse_nonnegative_int s
    pure (get_arg args index next_arg_index_, s)
  else pure (next_arg args next_arg_index_, s)

def parse_arg_index (args : List Arg) (next_arg_index_ : Int) (s : List Byte) :
    Except Failure (Arg × Int × List Byte) := do
  let ((arg, next_arg_index_), s) ← selected args next_arg_index_ s
  match arg with
  | .ok arg => pure (arg, next_arg_index_, s)
  | .error error =>
    throw (.format_error (if peek s ≠ 125 ∧ peek s ≠ 58 then "invalid format string" else error))

/- `ArgFormatter` with the default specification: no width, no precision, type 0. -/
def visit (w : Buffer) : Arg → Except Fault Buffer
  | .integer type value _ => write_int type value w
  | .string value => copy w.size value (w.grow_buffer value.length)

/- `write(writer_, start_, s)`; `start` is the text between the two. -/
def write (w : Buffer) (start : List Byte) : Buffer := if start ≠ [] then w.append start else w

section
variable (format_spec : Arg → Int → List Byte → Buffer → Except Failure (Nat × Int × Buffer))
  (args : List Arg)

/-- A replacement field behind its brace. A specification says how many characters it has. -/
def replace (next_arg_index_ : Int) (s : List Byte) (w : Buffer) :
    Except Failure (Int × List Byte × Buffer) := do
  let (arg, next_arg_index_, s) ← parse_arg_index args next_arg_index_ s
  if peek s = 58 then do
    let (count, next_arg_index_, w) ← format_spec arg next_arg_index_ s w
    if peek (s.drop count) ≠ 125 then throw (.format_error "missing '\x7d' in format string")
    else pure (next_arg_index_, s.drop (count + 1), w)
  else if peek s ≠ 125 then throw (.format_error "missing '\x7d' in format string")
  else do
    let w ← orFault (visit w arg)
    pure (next_arg_index_, s.tail, w)

end

theorem digitsLoop_length (s : List Byte) (value : Nat) :
    (digitsLoop s value).2.length ≤ s.length := by
  induction s generalizing value with
  | nil => exact Nat.le_refl _
  | cons c s ih =>
    rw [digitsLoop]
    split
    · dsimp only
      split
      · exact Nat.le_succ _
      · exact Nat.le_succ_of_le (ih _)
    · exact Nat.le_refl _

theorem parse_nonnegative_int_length {s s' : List Byte} {index : Nat}
    (h : parse_nonnegative_int s = .ok (index, s')) : s'.length ≤ s.length := by
  have hlength := digitsLoop_length s 0
  rw [parse_nonnegative_int] at h
  split at h
  · cases h
  · rw [Except.ok.inj h] at hlength
    exact hlength

theorem parse_arg_index_length {args : List Arg} {next next' : Int} {s s' : List Byte} {arg : Arg}
    (h : parse_arg_index args next s = .ok (arg, next', s')) : s'.length ≤ s.length := by
  obtain ⟨⟨⟨found, index⟩, rest⟩, hselected, h⟩ := Lib.Outcome.bind_eq_ok.mp h
  have hrest : rest.length ≤ s.length := by
    rw [selected] at hselected
    split at hselected
    · obtain ⟨⟨index, rest⟩, hindex, hpair⟩ := Lib.Outcome.bind_eq_ok.mp hselected
      obtain rfl := (Prod.mk.inj (Except.ok.inj hpair)).2
      exact parse_nonnegative_int_length hindex
    · obtain rfl := (Prod.mk.inj (Except.ok.inj hselected)).2
      exact Nat.le_refl _
  cases found with
  | ok arg =>
    cases h
    exact hrest
  | error error => cases h

theorem replace_length {format_spec : Arg → Int → List Byte → Buffer →
      Except Failure (Nat × Int × Buffer)} {args : List Arg} {next next' : Int}
    {s s' : List Byte} {w w' : Buffer}
    (h : replace format_spec args next s w = .ok (next', s', w')) : s'.length ≤ s.length := by
  obtain ⟨⟨arg, index, rest⟩, hparsed, h⟩ := Lib.Outcome.bind_eq_ok.mp h
  have hrest := parse_arg_index_length hparsed
  dsimp only at h
  split at h
  · obtain ⟨⟨count, index', w''⟩, -, h⟩ := Lib.Outcome.bind_eq_ok.mp h
    dsimp only at h
    split at h
    · cases h
    · cases h
      rw [List.length_drop]
      omega
  · split at h
    · cases h
    · obtain ⟨w'', -, h⟩ := Lib.Outcome.bind_eq_ok.mp h
      cases h
      rw [List.length_tail]
      omega

section
variable (format_spec : Arg → Int → List Byte → Buffer → Except Failure (Nat × Int × Buffer))
  (args : List Arg)

/-- The loop over a format string that ends at its NUL; `start` is what stands between `start_`
and `s`. -/
def formatLoop (next_arg_index_ : Int) (start : List Byte) (s : List Byte) (w : Buffer) :
    Except Failure Buffer :=
  match s with
  | [] => .ok (write w start)
  | c :: s =>
    if c ≠ 123 ∧ c ≠ 125 then formatLoop next_arg_index_ (start ++ [c]) s w
    else if peek s = c then formatLoop next_arg_index_ [] s.tail (write w (start ++ [c]))
    else if c = 125 then .error (.format_error "unmatched '\x7d' in format string")
    else
      match h : replace format_spec args next_arg_index_ s (write w start) with
      | .error e => .error e
      | .ok (next_arg_index_, s', w) =>
        have := replace_length h
        formatLoop next_arg_index_ [] s' w
termination_by s.length
decreasing_by
  all_goals simp_wf
  all_goals omega

/-- `fmt::format`. -/
def format (format_str : List Byte) : Except Failure (List Byte) :=
  (formatLoop format_spec args 0 [] (SocketStream.ofPointer format_str) MemoryBuffer).map Buffer.ptr_

end

/- What a format string is made of: text without a NUL, fields `{}`, and fields `{digits}`. -/
inductive Piece where
  | text (bytes : List Byte) (nulFree : 0 ∉ bytes)
  | next
  | nth (digits : List Byte) (isIndex : digits ≠ [] ∧ ∀ c ∈ digits, IsDigit c)

/- A brace of the text is written twice. -/
def escape (bytes : List Byte) : List Byte :=
  bytes.flatMap fun c => if c = 123 ∨ c = 125 then [c, c] else [c]

def Piece.render : Piece → List Byte
  | .text bytes _ => escape bytes
  | .next => [123, 125]
  | .nth digits _ => 123 :: (digits ++ [125])

def Arg.text : Arg → List Byte
  | .integer _ value _ => intText value
  | .string value => value

/-- The text that a format stands for. `some n`: `n` fields without an index so far and none
with one; `none`: there has been an index. -/
def expand (args : List Arg) : Option Nat → List Piece → Option (List Byte)
  | _, [] => some []
  | fields, .text bytes _ :: ps => (expand args fields ps).map (bytes ++ ·)
  | some n, .next :: ps => do
    let arg ← argAt args n
    (expand args (some (n + 1)) ps).map (arg.text ++ ·)
  | none, .next :: _ => none
  | some (_ + 1), .nth _ _ :: _ => none
  | some 0, .nth digits _ :: ps | none, .nth digits _ :: ps => do
    let arg ← argAt args (Lib.Decimal.value digits)
    (expand args none ps).map (arg.text ++ ·)

/- The numbers that the loop can have read while none has wrapped around unnoticed. -/
def digitsFrom (value : Nat) (digits : List Byte) : Nat :=
  digits.foldl (fun v c => v * 10 + (c.toNat - 48)) value

theorem digitsFrom_mono (digits : List Byte) {v v' : Nat} (h : v ≤ v') :
    digitsFrom v digits ≤ digitsFrom v' digits := by
  induction digits generalizing v v' with
  | nil => exact h
  | cons c digits ih => exact ih (Nat.add_le_add_right (Nat.mul_le_mul_right 10 h) _)

theorem le_digitsFrom (digits : List Byte) (v : Nat) : v ≤ digitsFrom v digits := by
  induction digits generalizing v with
  | nil => exact Nat.le_refl v
  | cons c digits ih =>
    have hstep : v ≤ v * 10 + (c.toNat - 48) := by omega
    exact Nat.le_trans hstep (ih _)

/-- A number that wraps around is noticed only when it gets smaller, but one that ends below 16
has not wrapped: the index of an argument is never wrong. -/
theorem digitsLoop_spec {digits rest : List Byte} (hdigits : ∀ c ∈ digits, IsDigit c)
    (hrest : ¬ IsDigit (peek rest)) {value : Nat} (hvalue : value < 2 ^ 32) :
    ((digitsLoop (digits ++ rest) value).1 = 2 ^ 32 - 1 ∧ 16 ≤ digitsFrom value digits) ∨
      ∃ r, digitsLoop (digits ++ rest) value = (r, rest) ∧ value ≤ r ∧
        r ≤ digitsFrom value digits ∧ (r < 16 → r = digitsFrom value digits) := by
  induction digits generalizing value with
  | nil =>
    right
    refine ⟨value, ?_, Nat.le_refl _, Nat.le_refl _, fun _ => rfl⟩
    cases rest with
    | nil => rfl
    | cons c rest => exact if_neg hrest
  | cons c digits ih =>
    rw [List.forall_mem_cons] at hdigits
    obtain ⟨hc, hdigits⟩ := hdigits
    have hsub : c.toNat - 48 ≤ 9 := by
      have hhigh := hc.2
      omega
    have htotal : digitsFrom value (c :: digits) =
        digitsFrom (value * 10 + (c.toNat - 48)) digits := rfl
    rw [List.cons_append, digitsLoop, if_pos hc, htotal]
    generalize c.toNat - 48 = d at hsub
    have hgrown := le_digitsFrom digits (value * 10 + d)
    by_cases hwrap : (value * 10 + d) % 2 ^ 32 < value
    · left
      rw [if_pos hwrap]
      refine ⟨rfl, ?_⟩
      omega
    · rw [if_neg hwrap]
      have hmono := digitsFrom_mono digits (Nat.mod_le (value * 10 + d) (2 ^ 32))
      obtain ⟨hover, hbig⟩ | ⟨r, hloop, hle, hbelow, hexact⟩ :=
        ih hdigits (Nat.mod_lt (value * 10 + d) (by decide))
      · exact .inl ⟨hover, Nat.le_trans hbig hmono⟩
      · right
        refine ⟨r, hloop, by omega, Nat.le_trans hbelow hmono, ?_⟩
        intro hr
        have hstep : (value * 10 + d) % 2 ^ 32 = value * 10 + d := by omega
        rw [hexact hr, hstep]

theorem write_ptr (w : Buffer) (start : List Byte) : (write w start).ptr_ = w.ptr_ ++ start := by
  rw [write]
  split
  · exact w.append_ptr start
  · rename_i hempty
    rw [not_not.mp hempty, List.append_nil]

/-- Every argument is appended as its text, inside the buffer. -/
theorem visit_spec (w : Buffer) (arg : Arg) :
    ∃ t, visit w arg = .ok t ∧ t.ptr_ = w.ptr_ ++ arg.text := by
  cases arg with
  | integer type value holds => exact write_int_spec holds w
  | string value =>
    have hgrown : (w.grow_buffer value.length).ptr_ =
        w.ptr_ ++ List.replicate value.length blank ++ [] := by simp
    obtain ⟨t, hcopy, ht⟩ := copy_spec value hgrown List.length_replicate
    rw [List.append_nil] at ht
    exact ⟨t, hcopy, ht⟩

theorem argAt_large (args : List Arg) {index : Nat} (h : 16 ≤ index) : argAt args index = none :=
  if_pos h

theorem peek_digits {digits : List Byte} (h : digits ≠ [] ∧ ∀ c ∈ digits, IsDigit c)
    (rest : List Byte) : IsDigit (peek (digits ++ rest)) := by
  obtain ⟨hne, hdigits⟩ := h
  cases digits with
  | nil => exact absurd rfl hne
  | cons c digits => exact hdigits c List.mem_cons_self

theorem digits_brace {digits : List Byte} (h : digits ≠ [] ∧ ∀ c ∈ digits, IsDigit c)
    (rest : List Byte) : peek (digits ++ rest) ≠ 123 := by
  intro hbrace
  have hdigit := peek_digits h rest
  rw [hbrace] at hdigit
  exact absurd hdigit (by decide)

/-- An index is read as it stands, or as one that no argument has. -/
theorem selected_nth (args : List Arg) (next : Int) {digits : List Byte} (rest : List Byte)
    (hindex : digits ≠ [] ∧ ∀ c ∈ digits, IsDigit c) :
    (selected args next (digits ++ 125 :: rest) = .error (.format_error "number is too big") ∧
        argAt args (Lib.Decimal.value digits) = none) ∨
      ∃ r, selected args next (digits ++ 125 :: rest) = .ok (get_arg args r next, 125 :: rest) ∧
        argAt args r = argAt args (Lib.Decimal.value digits) := by
  have hfirst := peek_digits hindex (125 :: rest)
  have hbrace : ¬ IsDigit (peek (125 :: rest)) := by
    show ¬ IsDigit 125
    decide
  have hvalue : digitsFrom 0 digits = Lib.Decimal.value digits := rfl
  rw [selected, if_pos hfirst, parse_nonnegative_int, ← hvalue]
  obtain ⟨hover, hbig⟩ | ⟨r, hloop, -, hbelow, hexact⟩ :=
    digitsLoop_spec hindex.2 hbrace (Nat.two_pow_pos 32)
  · left
    rw [hover, if_pos (by decide)]
    exact ⟨rfl, argAt_large args hbig⟩
  · rw [hloop]
    by_cases hbig : r > 2 ^ 31 - 1
    · left
      rw [if_pos hbig]
      exact ⟨rfl, argAt_large args (by omega)⟩
    · right
      rw [if_neg hbig]
      refine ⟨r, rfl, ?_⟩
      by_cases hr : r < 16
      · rw [hexact hr]
      · rw [argAt_large args (by omega), argAt_large args (by omega)]

section
variable (format_spec : Arg → Int → List Byte → Buffer → Except Failure (Nat × Int × Buffer))
  (args : List Arg)

theorem replace_found {next next' : Int} {s rest : List Byte} {arg : Arg}
    (h : selected args next s = .ok ((.ok arg, next'), 125 :: rest)) (w : Buffer) :
    ∃ w', replace format_spec args next s w = .ok (next', rest, w') ∧
      w'.ptr_ = w.ptr_ ++ arg.text := by
  obtain ⟨w', hvisit, hw'⟩ := visit_spec w arg
  refine ⟨w', ?_, hw'⟩
  rw [replace, parse_arg_index, h, Lib.Outcome.ok_bind]
  show (do let w ← orFault (visit w arg); pure (next', rest, w)) = _
  rw [hvisit]
  rfl

theorem replace_missing {next next' : Int} {s rest : List Byte} {error : String}
    (h : selected args next s = .ok ((.error error, next'), 125 :: rest)) (w : Buffer) :
    replace format_spec args next s w = .error (.format_error error) := by
  rw [replace, parse_arg_index, h]
  rfl

/- The loop at the brace of a field. -/
theorem formatLoop_field (next : Int) (start : List Byte) {s : List Byte} (w : Buffer)
    (h : peek s ≠ 123) :
    formatLoop format_spec args next start (123 :: s) w =
      (replace format_spec args next s (write w start)).bind fun (next, s, w) =>
        formatLoop format_spec args next [] s w := by
  rw [formatLoop, if_neg (by decide), if_neg h, if_neg (by decide)]
  split <;> rename_i heq <;> simp only [heq, Except.bind]

/-- Text goes through, with its braces single again. -/
theorem formatLoop_text (next : Int) (start bytes s : List Byte) (w : Buffer) :
    ∃ w' start', w'.ptr_ ++ start' = w.ptr_ ++ start ++ bytes ∧
      formatLoop format_spec args next start (escape bytes ++ s) w =
        formatLoop format_spec args next start' s w' := by
  induction bytes generalizing start w with
  | nil => exact ⟨w, start, (List.append_nil _).symm, rfl⟩
  | cons c bytes ih =>
    by_cases hbrace : c = 123 ∨ c = 125
    · obtain ⟨w', start', hptr, hloop⟩ := ih [] (write w (start ++ [c]))
      refine ⟨w', start', ?_, ?_⟩
      · rw [hptr, write_ptr]
        simp
      · have hplain : ¬ (c ≠ 123 ∧ c ≠ 125) := by
          rw [not_and_or, not_not, not_not]
          exact hbrace
        rw [escape, List.flatMap_cons, if_pos hbrace, ← hloop]
        exact (formatLoop.eq_2 ..).trans ((if_neg hplain).trans (if_pos rfl))
    · obtain ⟨w', start', hptr, hloop⟩ := ih (start ++ [c]) w
      refine ⟨w', start', ?_, ?_⟩
      · rw [hptr]
        simp
      · rw [escape, List.flatMap_cons, if_neg hbrace, ← hloop]
        exact (formatLoop.eq_2 ..).trans (if_pos (not_or.mp hbrace))

end

section
variable (format_spec : Arg → Int → List Byte → Buffer → Except Failure (Nat × Int × Buffer))
  {args : List Arg}

/- The result of the loop for text that is still to come, and for none. -/
def Meets (result : Except Failure Buffer) (front : List Byte) : Option (List Byte) → Prop
  | some text => ∃ w, result = .ok w ∧ w.ptr_ = front ++ text
  | none => ∃ message, result = .error (.format_error message)

theorem Meets.map {result : Except Failure Buffer} {front text : List Byte}
    {rest : Option (List Byte)} (h : Meets result (front ++ text) rest) :
    Meets result front (rest.map (text ++ ·)) := by
  cases rest with
  | none => exact h
  | some more =>
    obtain ⟨w, hok, hptr⟩ := h
    exact ⟨w, hok, by rw [hptr, List.append_assoc]⟩

/- `next_arg_index_` for a number of fields without an index. -/
def indexOf : Option Nat → Int
  | some n => n
  | none => -1

/-- The argument of a field and what the rest of the format is expanded to. -/
theorem meets_field {found : Except String Arg} (index : Option Arg) {next : Int}
    {s tail start : List Byte} {w : Buffer} (fields : Option Nat) (rest : Option (List Byte))
    (hbrace : peek s ≠ 123)
    (hselected : selected args next s = .ok ((found, indexOf fields), 125 :: tail))
    (hfound : index = found.toOption)
    (hrest : ∀ w, Meets (formatLoop format_spec args (indexOf fields) [] tail w) w.ptr_ rest) :
    Meets (formatLoop format_spec args next start (123 :: s) w) (w.ptr_ ++ start)
      (index.bind fun arg => rest.map (arg.text ++ ·)) := by
  rw [formatLoop_field format_spec args next start w hbrace, hfound]
  cases found with
  | error message =>
    rw [replace_missing format_spec args hselected]
    exact ⟨message, rfl⟩
  | ok arg =>
    obtain ⟨w', hreplace, hptr⟩ := replace_found format_spec args hselected (write w start)
    rw [hreplace]
    apply Meets.map
    rw [← write_ptr, ← hptr]
    exact hrest w'

theorem do_get_arg_toOption (args : List Arg) (index : Nat) :
    argAt args index = (do_get_arg args index).toOption := by
  rw [do_get_arg]
  cases argAt args index <;> rfl

/- A field whose index is no number for the formatter. -/
theorem meets_unread {next : Int} {s : List Byte} {message : String}
    (hbrace : peek s ≠ 123) (hselected : selected args next s = .error (.format_error message))
    (start front : List Byte) (w : Buffer) :
    Meets (formatLoop format_spec args next start (123 :: s) w) front none := by
  rw [formatLoop_field format_spec args next start w hbrace, replace, parse_arg_index, hselected]
  exact ⟨message, rfl⟩

/-- A field with an index, where no field has been without one. -/
theorem meets_nth {digits tail start : List Byte} {w : Buffer} {next : Int}
    {rest : Option (List Byte)} (hindex : digits ≠ [] ∧ ∀ c ∈ digits, IsDigit c) (hnext : next ≤ 0)
    (hrest : ∀ w, Meets (formatLoop format_spec args (-1) [] tail w) w.ptr_ rest) :
    Meets (formatLoop format_spec args next start (123 :: (digits ++ 125 :: tail)) w)
      (w.ptr_ ++ start)
      ((argAt args (Lib.Decimal.value digits)).bind fun arg => rest.map (arg.text ++ ·)) := by
  have hbrace := digits_brace hindex (125 :: tail)
  obtain ⟨hbig, hnone⟩ | ⟨r, hselected, hsame⟩ := selected_nth args next tail hindex
  · rw [hnone]
    exact meets_unread format_spec hbrace hbig start _ w
  · rw [get_arg, if_pos hnext] at hselected
    rw [← hsame]
    exact meets_field format_spec _ none _ hbrace hselected (do_get_arg_toOption args r) hrest

theorem formatLoop_render (ps : List Piece) (fields : Option Nat) (start : List Byte) (w : Buffer) :
    Meets (formatLoop format_spec args (indexOf fields) start (ps.flatMap Piece.render) w)
      (w.ptr_ ++ start) (expand args fields ps) := by
  induction ps generalizing fields start w with
  | nil =>
    rw [List.flatMap_nil, formatLoop, expand]
    exact ⟨_, rfl, by rw [write_ptr, List.append_nil]⟩
  | cons p ps ih =>
    have hrest (fields : Option Nat) (w : Buffer) := ih fields [] w
    simp only [List.append_nil] at hrest
    rw [List.flatMap_cons]
    cases p with
    | text bytes nulFree =>
      obtain ⟨w', start', hptr, hloop⟩ := formatLoop_text format_spec args (indexOf fields) start
        bytes (ps.flatMap Piece.render) w
      rw [Piece.render, hloop, expand]
      apply Meets.map
      rw [← hptr]
      exact ih fields start' w'
    | next =>
      have hbrace : peek (125 :: ps.flatMap Piece.render) ≠ 123 := by
        show (125 : Byte) ≠ 123
        decide
      cases fields with
      | none =>
        exact meets_field format_spec none none (expand args none ps) hbrace rfl rfl (hrest none)
      | some n =>
        exact meets_field format_spec _ (some (n + 1)) _ hbrace rfl (do_get_arg_toOption args n)
          (hrest (some (n + 1)))
    | nth digits isIndex =>
      rw [Piece.render, List.cons_append, List.append_assoc]
      cases fields with
      | none => exact meets_nth format_spec isIndex (by decide) (hrest none)
      | some n =>
        cases n with
        | zero => exact meets_nth format_spec isIndex (by decide) (hrest none)
        | succ n =>
          have hbrace := digits_brace isIndex (125 :: ps.flatMap Piece.render)
          obtain ⟨hbig, -⟩ | ⟨r, hselected, -⟩ :=
            selected_nth args (indexOf (some (n + 1))) (ps.flatMap Piece.render) isIndex
          · exact meets_unread format_spec hbrace hbig start _ w
          · have hauto : ¬ indexOf (some (n + 1)) ≤ 0 := by
              show ¬ ((n + 1 : Nat) : Int) ≤ 0
              omega
            rw [get_arg, if_neg hauto] at hselected
            exact meets_field format_spec none (some (n + 1)) (expand args (some (n + 1)) ps) hbrace
              hselected rfl (hrest (some (n + 1)))

end

theorem escape_nulFree {bytes : List Byte} (h : 0 ∉ bytes) : 0 ∉ escape bytes := by
  intro hmem
  obtain ⟨c, hc, hzero⟩ := List.mem_flatMap.mp hmem
  have hsame : 0 = c := by
    split at hzero <;> simpa using hzero
  exact h (hsame ▸ hc)

theorem render_nulFree (p : Piece) : 0 ∉ p.render := by
  cases p with
  | text bytes nulFree => exact escape_nulFree nulFree
  | next => decide
  | nth digits isIndex =>
    have hdigits : 0 ∉ digits := fun hzero => absurd (isIndex.2 0 hzero) (by decide)
    simp [Piece.render, hdigits]

theorem ofPointer_nulFree {s : List Byte} (h : 0 ∉ s) : SocketStream.ofPointer s = s := by
  rw [SocketStream.ofPointer, List.takeWhile_eq_self_iff]
  intro c hc
  exact decide_eq_true fun hzero => h (hzero ▸ hc)

section
variable (format_spec : Arg → Int → List Byte → Buffer → Except Failure (Nat × Int × Buffer))
  (args : List Arg)

/- The result for the string that some pieces are rendered to. -/
theorem format_meets (ps : List Piece) :
    ∃ result, format format_spec args (ps.flatMap Piece.render) = result.map Buffer.ptr_ ∧
      Meets result [] (expand args (some 0) ps) := by
  have hnul : 0 ∉ ps.flatMap Piece.render := by
    intro hmem
    obtain ⟨p, -, hzero⟩ := List.mem_flatMap.mp hmem
    exact render_nulFree p hzero
  refine ⟨_, ?_, formatLoop_render format_spec ps (some 0) [] MemoryBuffer⟩
  rw [format, ofPointer_nulFree hnul]
  rfl

variable {args}

theorem format_expands {ps : List Piece} {text : List Byte}
    (h : expand args (some 0) ps = some text) :
    format format_spec args (ps.flatMap Piece.render) = .ok text := by
  obtain ⟨result, hformat, hmeets⟩ := format_meets format_spec args ps
  rw [h] at hmeets
  obtain ⟨w, rfl, hptr⟩ := hmeets
  exact hformat.trans (congrArg Except.ok hptr)

theorem format_refuses {ps : List Piece} (h : expand args (some 0) ps = none) :
    ∃ message,
      format format_spec args (ps.flatMap Piece.render) = .error (.format_error message) := by
  obtain ⟨result, hformat, hmeets⟩ := format_meets format_spec args ps
  rw [h] at hmeets
  obtain ⟨message, rfl⟩ := hmeets
  exact ⟨message, hformat⟩

variable (args)

/-- A format string without specifications is formatted to what its pieces stand for, and where
they stand for nothing a `FormatError` says so. -/
theorem format_render (ps : List Piece) :
    (∀ text, format format_spec args (ps.flatMap Piece.render) = .ok text ↔
      expand args (some 0) ps = some text) ∧
    (expand args (some 0) ps = none ↔ ∃ message,
      format format_spec args (ps.flatMap Piece.render) = .error (.format_error message)) := by
  cases hexpand : expand args (some 0) ps with
  | none =>
    obtain ⟨message, hrefused⟩ := format_refuses format_spec hexpand
    simp [hrefused]
  | some text =>
    simp [format_expands format_spec hexpand]

end

/- No result of a step is an access outside a buffer. -/
def NoFault {α : Type} (r : Except Failure α) : Prop := ∀ f, r ≠ .error (.fault f)

theorem NoFault.error {α β : Type} {e : Failure} (h : NoFault (.error e : Except Failure α)) :
    NoFault (.error e : Except Failure β) :=
  fun f hfault => h f (congrArg Except.error (Except.error.inj hfault))

theorem NoFault.bind {α β : Type} {r : Except Failure α} {g : α → Except Failure β}
    (h : NoFault r) (hg : ∀ a, NoFault (g a)) : NoFault (r >>= g) := by
  cases r with
  | error e => exact h.error
  | ok a => exact hg a

theorem noFault_ok {α : Type} (a : α) : NoFault (.ok a : Except Failure α) := by
  intro f he
  cases he

theorem noFault_error {α : Type} (message : String) :
    NoFault (.error (.format_error message) : Except Failure α) := by
  intro f he
  cases he

theorem parse_arg_index_noFault (args : List Arg) (next : Int) (s : List Byte) :
    NoFault (parse_arg_index args next s) := by
  apply NoFault.bind
  · rw [selected]
    split
    · apply NoFault.bind
      · rw [parse_nonnegative_int]
        split
        · exact noFault_error _
        · exact noFault_ok _
      · exact fun _ => noFault_ok _
    · exact noFault_ok _
  · intro found
    match found with
    | ((.ok arg, next), s) => exact noFault_ok _
    | ((.error error, next), s) => exact noFault_error _

section
variable {format_spec : Arg → Int → List Byte → Buffer → Except Failure (Nat × Int × Buffer)}
  (hspec : ∀ arg next s w, NoFault (format_spec arg next s w))
include hspec

theorem replace_noFault (args : List Arg) (next : Int) (s : List Byte) (w : Buffer) :
    NoFault (replace format_spec args next s w) := by
  apply (parse_arg_index_noFault args next s).bind
  intro (arg, next, s)
  dsimp only
  split
  · apply (hspec arg next s w).bind
    intro (count, next, w)
    dsimp only
    split
    · exact noFault_error _
    · exact noFault_ok _
  · split
    · exact noFault_error _
    · obtain ⟨t, hvisit, -⟩ := visit_spec w arg
      rw [hvisit]
      exact noFault_ok _

theorem formatLoop_noFault (args : List Arg) (next : Int) (start s : List Byte) (w : Buffer) :
    NoFault (formatLoop format_spec args next start s w) := by
  induction next, start, s, w using formatLoop.induct format_spec args with
  | case1 next start w =>
    rw [formatLoop]
    exact noFault_ok _
  | case2 next start w c s hplain ih =>
    rw [formatLoop, if_pos hplain]
    exact ih
  | case3 next start w s hplain ih =>
    rw [formatLoop, if_neg hplain, if_pos rfl]
    exact ih
  | case4 next start w s hplain hpeek =>
    rw [formatLoop, if_neg hplain, if_neg hpeek, if_pos rfl]
    exact noFault_error _
  | case5 next start w c s hplain hpeek hclose e he =>
    obtain rfl : c = 123 := not_not.mp fun hne => hplain ⟨hne, hclose⟩
    have hreplace := replace_noFault hspec args next s (write w start)
    rw [formatLoop_field format_spec args next start w hpeek, he]
    rw [he] at hreplace
    exact hreplace.error
  | case6 next start w c s hplain hpeek hclose next' s' w' hok _ ih =>
    obtain rfl : c = 123 := not_not.mp fun hne => hplain ⟨hne, hclose⟩
    rw [formatLoop_field format_spec args next start w hpeek, hok]
    exact ih

/-- Whatever the format string is, no byte is stored outside the buffer. -/
theorem format_noFault (args : List Arg) (format_str : List Byte) (f : Fault) :
    format format_spec args format_str ≠ .error (.fault f) := by
  have hloop := formatLoop_noFault hspec args 0 [] (SocketStream.ofPointer format_str) MemoryBuffer
  exact (hloop.bind fun w => noFault_ok w.ptr_) f

end

/- A specification that passes over its letter and prints nothing. -/
def skipsLetter (_ : Arg) (next_arg_index_ : Int) (_ : List Byte) (w : Buffer) :
    Except Failure (Nat × Int × Buffer) := .ok (2, next_arg_index_, w)

/- An unmatched brace behind a field, an index that does not fit, and a field with a
   specification. -/
theorem format_noFault_unmatched :
    let args := [.string (ascii "b")]
    let unmatched := format skipsLetter args (ascii "a\x7b0\x7d\x7d")
    let wide := format skipsLetter args (ascii "\x7b99999999999\x7d")
    let specified := format skipsLetter args (ascii "a\x7b0:x\x7dc\x7b0\x7d")
    (NoFault unmatched ∧ NoFault wide ∧ NoFault specified) ∧
      unmatched = .error (.format_error "unmatched '\x7d' in format string") ∧
      wide = .error (.format_error "number is too big") ∧ specified = .ok (ascii "acb") := by
  have hspec (arg : Arg) (next : Int) (s : List Byte) (w : Buffer) :
      NoFault (skipsLetter arg next s w) := noFault_ok _
  refine ⟨⟨?_, ?_, ?_⟩, ?_⟩
  · exact fun f => format_noFault hspec _ _ f
  · exact fun f => format_noFault hspec _ _ f
  · exact fun f => format_noFault hspec _ _ f
  · decide +kernel

end SyscallSensor.Fmt
