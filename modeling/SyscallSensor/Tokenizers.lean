import SyscallSensor.SplitString

/-! `split3`, a scanner with two states, and `split_fast`, which searches for the delimiter:
the tokens of a string. -/
namespace SyscallSensor.Tokenizers
open Text

inductive State where
  | inSpace
  | inToken
deriving DecidableEq, Repr

/-- Storing a distance in an `int`. -/
def toInt (v : Int) : Int := v.bmod (2 ^ 32)

/-- The `for` loop of `split3` over the bytes from `it` on. -/
def split3Loop (str : List Byte) (delimiter : Byte) :
    List Byte → Nat → State → Nat → List StringRef → Except Fault (State × Nat × List StringRef)
  | [], _, state, pTokenBegin, result => .ok (state, pTokenBegin, result)
  | c :: rest, it, state, pTokenBegin, result =>
    let newState := if c = delimiter then State.inSpace else State.inToken
    if newState ≠ state then
      match newState with
      | .inSpace => do
        let token ← StringRef.make str pTokenBegin ((pTokenBegin : Int) - it).natAbs
        split3Loop str delimiter rest (it + 1) newState pTokenBegin (result ++ [token])
      | .inToken => split3Loop str delimiter rest (it + 1) newState it result
    else split3Loop str delimiter rest (it + 1) newState pTokenBegin result

def split3 (str : List Byte) (delimiter : Byte) : Except Fault (List StringRef) := do
  let (state, pTokenBegin, result) ← split3Loop str delimiter str 0 .inSpace 0 []
  if state = .inToken then
    let token ← StringRef.make str pTokenBegin (toInt ((str.length : Int) - pTokenBegin).natAbs)
    pure (result ++ [token])
  else pure result

/-- `split_fast`: its loop is that of `split_string`; the length given to the last token is the
length of the whole string. -/
def split_fast (str : List Byte) (delimiter : Byte) : Except Fault (List StringRef) := do
  let (strings, prev) := splitLoop str delimiter 0
  if prev < str.length then
    let token ← StringRef.make str prev str.length
    pure (strings ++ [token])
  else pure strings

/- The token lies in the string. -/
def Inside (str : List Byte) (ref : StringRef) : Prop := ref.block = str ∧ ref.end_ ≤ str.length

/-- A maximal run of other bytes than the delimiter. -/
structure IsRun (str : List Byte) (delimiter : Byte) (ref : StringRef) : Prop where
  inside : Inside str ref
  nonempty : 0 < ref.size_
  free : ∀ i, ref.begin_ ≤ i → i < ref.end_ → str[i]? ≠ some delimiter
  left : ref.begin_ = 0 ∨ str[ref.begin_ - 1]? = some delimiter
  right : ref.end_ = str.length ∨ str[ref.end_]? = some delimiter

/- All maximal runs, from left to right. -/
structure Runs (str : List Byte) (delimiter : Byte) (tokens : List StringRef) : Prop where
  all : ∀ ref, ref ∈ tokens ↔ IsRun str delimiter ref
  sorted : tokens.Pairwise fun a b => a.end_ < b.begin_

/-- What the two tokenizers have in common. -/
def Agree (str : List Byte) (delimiter : Byte) : Prop :=
  ∃ tokens fast, split3 str delimiter = .ok tokens ∧ split_fast str delimiter = .ok fast ∧
    (∀ ref ∈ tokens ++ fast, Inside str ref) ∧ Runs str delimiter tokens ∧
    fast.filter (fun ref => ref.size_ ≠ 0) = tokens

theorem not_delimiter_of_find_none {str : List Byte} {delimiter : Byte} {start : Nat}
    (h : find str delimiter start = none) {i : Nat} (hi : start ≤ i) :
    str[i]? ≠ some delimiter := by
  intro hget
  apply find_eq_none.mp h
  rw [List.mem_iff_getElem?]
  exact ⟨i - start, by rw [List.getElem?_drop, Nat.add_sub_cancel' hi, hget]⟩

theorem delimiter_of_find_some {str : List Byte} {delimiter : Byte} {start pos : Nat}
    (h : find str delimiter start = some pos) :
    str[pos]? = some delimiter ∧ ∀ i, start ≤ i → i < pos → str[i]? ≠ some delimiter := by
  obtain ⟨hle, hlt, hnot, hcut⟩ := find_eq_some h
  constructor
  · have hlen : ((str.drop start).take (pos - start)).length = pos - start := by
      rw [List.length_take, List.length_drop]
      omega
    have hat := congrArg (fun bs => bs[pos - start]?) hcut
    simp only [List.getElem?_drop, Nat.add_sub_cancel' hle] at hat
    rw [hat, List.getElem?_append_right (by rw [hlen]), hlen, Nat.sub_self,
      List.getElem?_cons_zero]
  · intro i hi hipos hget
    apply hnot
    rw [List.mem_iff_getElem?]
    refine ⟨i - start, ?_⟩
    rw [List.getElem?_take_of_lt (by omega), List.getElem?_drop, Nat.add_sub_cancel' hi, hget]

/-- Inside a token the scanner only moves on. -/
theorem split3Loop_token (str rest : List Byte) {run : List Byte} {delimiter : Byte}
    (h : delimiter ∉ run) (it b : Nat) (result : List StringRef) :
    split3Loop str delimiter (run ++ rest) it .inToken b result =
      split3Loop str delimiter rest (it + run.length) .inToken b result := by
  induction run generalizing it with
  | nil => rfl
  | cons c run ih =>
    have hc : c ≠ delimiter := fun he => h (by simp [he])
    have hrest := ih (fun hmem => h (List.mem_cons_of_mem c hmem)) (it + 1)
    simp only [List.cons_append, split3Loop, hc, if_false, ne_eq, not_true_eq_false, hrest,
      List.length_cons]
    congr 1
    omega

/- The state behind the delimiter-free bytes from `first` up to `last`, from a space on. -/
def stateAfter (first last : Nat) : State := if first < last then .inToken else .inSpace

/-- From a space on, the next byte that is not a delimiter begins a token. -/
theorem split3Loop_run (str rest : List Byte) {run : List Byte} {delimiter : Byte}
    (h : delimiter ∉ run) (it b : Nat) (result : List StringRef) :
    ∃ b', split3Loop str delimiter (run ++ rest) it .inSpace b result =
        split3Loop str delimiter rest (it + run.length) (stateAfter it (it + run.length)) b'
          result ∧ (run ≠ [] → b' = it) := by
  cases run with
  | nil => exact ⟨b, by simp [stateAfter], fun hne => absurd rfl hne⟩
  | cons c run =>
    have hc : c ≠ delimiter := fun he => h (by simp [he])
    have hrest := split3Loop_token str rest
      (fun hmem => h (List.mem_cons_of_mem c hmem)) (it + 1) it result
    have hstate : stateAfter it (it + (c :: run).length) = .inToken := by
      rw [stateAfter, if_pos (by simp)]
    refine ⟨it, ?_, fun _ => rfl⟩
    rw [hstate, List.cons_append, split3Loop]
    simp only [hc, if_false, ne_eq, reduceCtorEq, not_false_eq_true, if_true, hrest,
      List.length_cons]
    congr 1
    omega

/-- The scanner behind the last delimiter: it has emitted the nonempty ones of the pieces that
the find loop cuts off, and it stands in the token that the last piece is, if it is one. -/
theorem split3Loop_spec (str : List Byte) (delimiter : Byte) {prev : Nat} (hprev : prev ≤ str.length)
    (b : Nat) (result : List StringRef) :
    ∃ b', split3Loop str delimiter (str.drop prev) prev .inSpace b result =
        .ok (stateAfter (splitLoop str delimiter prev).2 str.length, b',
          result ++ (splitLoop str delimiter prev).1.filter fun ref => ref.size_ ≠ 0) ∧
      ((splitLoop str delimiter prev).2 < str.length →
        b' = (splitLoop str delimiter prev).2) := by
  fun_induction splitLoop str delimiter prev generalizing b result with
  | case1 prev h =>
    have hrun := split3Loop_run str [] (find_eq_none.mp h) prev b result
    obtain ⟨b', hloop, hb⟩ := hrun
    have hend : prev + (str.drop prev).length = str.length := by
      rw [List.length_drop]
      omega
    rw [List.append_nil, hend, split3Loop] at hloop
    refine ⟨b', by simpa using hloop, ?_⟩
    intro hlt
    exact hb (List.drop_eq_nil_iff.not.mpr (by omega))
  | case2 prev pos h strings last hrec ih =>
    obtain ⟨hle, hlt, hnot, hcut⟩ := find_eq_some h
    have hlen : prev + ((str.drop prev).take (pos - prev)).length = pos := by
      rw [List.length_take, List.length_drop]
      omega
    have hrun := split3Loop_run str (delimiter :: str.drop (pos + 1)) hnot prev b result
    obtain ⟨b', hloop, hb⟩ := hrun
    rw [← hcut, hlen] at hloop
    rw [hloop]
    by_cases hempty : prev = pos
    · -- two delimiters in a row, and no token between them
      have hstate : stateAfter prev pos = .inSpace := by rw [stateAfter, if_neg (by omega)]
      have hstep : split3Loop str delimiter (delimiter :: str.drop (pos + 1)) pos .inSpace b' result =
          split3Loop str delimiter (str.drop (pos + 1)) (pos + 1) .inSpace b' result := by
        simp [split3Loop]
      have hnext := ih (by omega) b' result
      rw [hrec] at hnext
      rw [hstate, hstep, List.filter_cons_of_neg (by simp [hempty])]
      exact hnext
    · have hstate : stateAfter prev pos = .inToken := by rw [stateAfter, if_pos (by omega)]
      have hbegin : b' = prev := by
        apply hb
        intro hnil
        rw [hnil, List.length_nil] at hlen
        omega
      have habs : ((prev : Int) - pos).natAbs = pos - prev := by omega
      have htoken := StringRef.make_ok str prev (pos - prev) (by omega)
      have hstep : split3Loop str delimiter (delimiter :: str.drop (pos + 1)) pos .inToken prev
            result =
          split3Loop str delimiter (str.drop (pos + 1)) (pos + 1) .inSpace prev
            (result ++ [⟨str, prev, pos - prev⟩]) := by
        simp [split3Loop, habs, htoken, bind, Except.bind]
      have hnext := ih (by omega) prev (result ++ [⟨str, prev, pos - prev⟩])
      rw [hrec] at hnext
      rw [hstate, hbegin, hstep, List.filter_cons_of_pos (by simp; omega)]
      simpa only [List.append_assoc, List.singleton_append] using hnext

/-- The last piece, behind the last delimiter. -/
def lastPiece (str : List Byte) (delimiter : Byte) : StringRef :=
  let prev := (splitLoop str delimiter 0).2
  ⟨str, prev, str.length - prev⟩

/- The pieces without the last one that hold a byte. -/
def fullPieces (str : List Byte) (delimiter : Byte) : List StringRef :=
  (splitLoop str delimiter 0).1.filter fun ref => ref.size_ ≠ 0

theorem lastPiece_end (str : List Byte) (delimiter : Byte) :
    (lastPiece str delimiter).begin_ + (lastPiece str delimiter).size_ = str.length := by
  have hle := (splitLoop_spec str delimiter 0).2.1 (Nat.zero_le _)
  simp only [lastPiece]
  omega

theorem split3_eq (str : List Byte) (delimiter : Byte) :
    split3 str delimiter =
      if 0 < (lastPiece str delimiter).size_ then
        (StringRef.make str (lastPiece str delimiter).begin_
          (toInt (lastPiece str delimiter).size_)).map fun token =>
            fullPieces str delimiter ++ [token]
      else .ok (fullPieces str delimiter) := by
  have hspec := split3Loop_spec str delimiter (Nat.zero_le _) 0 []
  rw [List.drop_zero, List.nil_append] at hspec
  unfold split3 lastPiece fullPieces
  generalize splitLoop str delimiter 0 = loop at hspec ⊢
  obtain ⟨strings, last⟩ := loop
  obtain ⟨b, hloop, hb⟩ := hspec
  rw [hloop, Lib.Outcome.ok_bind]
  by_cases hlast : last < str.length
  · have hpos : 0 < str.length - last := by omega
    have habs : ((str.length : Int) - last).natAbs = str.length - last := by omega
    simp only [stateAfter, hlast, if_true, hb hlast, habs, hpos]
    generalize StringRef.make str last (toInt ((str.length - last : Nat) : Int)) = made
    cases made with
    | error fault => rfl
    | ok token => rfl
  · have hzero : ¬ 0 < str.length - last := by omega
    simp only [stateAfter, hlast, hzero, if_false, reduceCtorEq]
    rfl

theorem split_fast_eq (str : List Byte) (delimiter : Byte) :
    split_fast str delimiter =
      if 0 < (lastPiece str delimiter).size_ then
        (StringRef.make str (lastPiece str delimiter).begin_ str.length).map fun token =>
          (splitLoop str delimiter 0).1 ++ [token]
      else .ok (splitLoop str delimiter 0).1 := by
  unfold split_fast lastPiece
  generalize splitLoop str delimiter 0 = loop
  obtain ⟨strings, prev⟩ := loop
  by_cases hlast : prev < str.length
  · have hpos : 0 < str.length - prev := by omega
    simp only [hlast, if_true, hpos]
    cases StringRef.make str prev str.length with
    | error fault => rfl
    | ok token => rfl
  · have hzero : ¬ 0 < str.length - prev := by omega
    simp only [hlast, if_false, hzero]
    rfl

/- A delimiter, or the start of the string, stands in front of `pos`. -/
def Cut (str : List Byte) (delimiter : Byte) (pos : Nat) : Prop :=
  pos = 0 ∨ str[pos - 1]? = some delimiter

theorem cut_behind {str : List Byte} {delimiter : Byte} {start pos : Nat}
    (h : find str delimiter start = some pos) : Cut str delimiter (pos + 1) := by
  refine .inr ?_
  rw [Nat.add_sub_cancel]
  exact (delimiter_of_find_some h).1

theorem splitLoop_last {str : List Byte} {delimiter : Byte} {prev : Nat}
    (hcut : Cut str delimiter prev) :
    Cut str delimiter (splitLoop str delimiter prev).2 ∧
      ∀ i, (splitLoop str delimiter prev).2 ≤ i → str[i]? ≠ some delimiter := by
  fun_induction splitLoop str delimiter prev with
  | case1 prev h => exact ⟨hcut, fun i hi => not_delimiter_of_find_none h hi⟩
  | case2 prev pos h strings last hrec ih =>
    have hrest := ih (cut_behind h)
    rw [hrec] at hrest
    exact hrest

/-- The pieces start where the loop does, and stand one behind the other. -/
theorem splitLoop_sorted (str : List Byte) (delimiter : Byte) (prev : Nat) :
    (∀ ref ∈ (splitLoop str delimiter prev).1, prev ≤ ref.begin_) ∧
      (splitLoop str delimiter prev).1.Pairwise fun a b => a.end_ < b.begin_ := by
  fun_induction splitLoop str delimiter prev with
  | case1 prev h => simp
  | case2 prev pos h strings last hrec ih =>
    have hle := (find_eq_some h).1
    rw [hrec] at ih
    have hfirst : (StringRef.mk str prev (pos - prev)).end_ = pos := Nat.add_sub_cancel' hle
    refine ⟨?_, List.pairwise_cons.mpr ⟨?_, ih.2⟩⟩
    · intro ref hmem
      cases List.mem_cons.mp hmem with
      | inl heq => rw [heq]
      | inr hlater =>
        have := ih.1 ref hlater
        omega
    · intro ref hmem
      have := ih.1 ref hmem
      omega

/-- The bytes between a cut and the next delimiter, or the end, are the only run that begins
there. -/
theorem isRun_first {str : List Byte} {delimiter : Byte} {prev stop : Nat}
    (hcut : Cut str delimiter prev) (hle : prev ≤ stop)
    (hstop : stop = str.length ∨ stop < str.length ∧ str[stop]? = some delimiter)
    (hfree : ∀ i, prev ≤ i → i < stop → str[i]? ≠ some delimiter) {ref : StringRef}
    (hprev : prev ≤ ref.begin_) (hbefore : ref.begin_ ≤ stop) :
    IsRun str delimiter ref ↔ ref.size_ ≠ 0 ∧ ref = ⟨str, prev, stop - prev⟩ := by
  constructor
  · intro hrun
    obtain ⟨block, first, size⟩ := ref
    obtain ⟨⟨rfl, hin⟩, hpos, hnone, hleft, hright⟩ := hrun
    simp only [StringRef.end_] at *
    -- a cut behind `prev` and in front of `stop` would be a delimiter between them
    have hfirst : first = prev := by
      cases hleft with
      | inl hzero => omega
      | inr hdelimiter =>
        by_contra hne
        exact hfree (first - 1) (by omega) (by omega) hdelimiter
    have hlast : first + size = stop := by
      rcases Nat.lt_trichotomy (first + size) stop with hlt | heq | hgt
      · cases hright with
        | inl hend => omega
        | inr hdelimiter => exact absurd hdelimiter (hfree _ (by omega) hlt)
      · exact heq
      · cases hstop with
        | inl hend => omega
        | inr hdelimiter => exact absurd hdelimiter.2 (hnone stop (by omega) hgt)
    refine ⟨by omega, ?_⟩
    rw [StringRef.mk.injEq]
    exact ⟨rfl, hfirst, by omega⟩
  · intro h
    obtain ⟨hsize, rfl⟩ := h
    have hend : (StringRef.mk str prev (stop - prev)).end_ = stop := Nat.add_sub_cancel' hle
    refine ⟨⟨rfl, ?_⟩, Nat.pos_of_ne_zero hsize, ?_, hcut, ?_⟩
    · rw [hend]
      cases hstop with
      | inl hlen => exact hlen.le
      | inr hdelimiter => exact hdelimiter.1.le
    · rw [hend]
      exact hfree
    · rw [hend]
      cases hstop with
      | inl hlen => exact .inl hlen
      | inr hdelimiter => exact .inr hdelimiter.2

/-- The runs from a cut on are the nonempty pieces. -/
theorem isRun_iff {str : List Byte} {delimiter : Byte} {prev : Nat} (hle : prev ≤ str.length)
    (hcut : Cut str delimiter prev) {ref : StringRef} (hprev : prev ≤ ref.begin_) :
    IsRun str delimiter ref ↔ ref.size_ ≠ 0 ∧
      ref ∈ (splitLoop str delimiter prev).1 ++
        [⟨str, (splitLoop str delimiter prev).2,
          str.length - (splitLoop str delimiter prev).2⟩] := by
  fun_induction splitLoop str delimiter prev with
  | case1 prev h =>
    rw [List.nil_append, List.mem_singleton]
    by_cases hin : ref.begin_ ≤ str.length
    · exact isRun_first hcut hle (.inl rfl) (fun i hi _ => not_delimiter_of_find_none h hi) hprev hin
    · refine iff_of_false ?_ ?_
      · intro hrun
        have hend := hrun.inside.2
        rw [StringRef.end_] at hend
        omega
      · intro hlast
        rw [hlast.2] at hin
        exact hin hle
  | case2 prev pos h strings last hrec ih =>
    obtain ⟨hpos, hlt, -, -⟩ := find_eq_some h
    have hdelimiter := delimiter_of_find_some h
    have hsorted := (splitLoop_sorted str delimiter (pos + 1)).1
    have hgrow := splitLoop_le str delimiter (pos + 1)
    rw [hrec] at ih hsorted hgrow
    have hlater : ∀ later ∈ strings ++ [StringRef.mk str last (str.length - last)],
        pos < later.begin_ := by
      intro later hmem
      cases List.mem_append.mp hmem with
      | inl hmem => exact hsorted later hmem
      | inr hmem =>
        rw [List.mem_singleton.mp hmem]
        exact hgrow
    rw [List.cons_append, List.mem_cons]
    by_cases hbefore : ref.begin_ ≤ pos
    · have hnot : ref ∉ strings ++ [StringRef.mk str last (str.length - last)] := by
        intro hmem
        have := hlater ref hmem
        omega
      rw [isRun_first hcut hpos (.inr ⟨hlt, hdelimiter.1⟩) hdelimiter.2 hprev hbefore,
        or_iff_left hnot]
    · have hne : ref ≠ ⟨str, prev, pos - prev⟩ := by
        intro heq
        rw [heq] at hbefore
        exact hbefore hpos
      rw [ih (by omega) (cut_behind h) (by omega), or_iff_right hne]

/-- `Runs` holds of the nonempty pieces, and so of what the scanner is after. -/
theorem runs_pieces (str : List Byte) (delimiter : Byte) :
    Runs str delimiter (((splitLoop str delimiter 0).1 ++ [lastPiece str delimiter]).filter
      fun ref => ref.size_ ≠ 0) := by
  have hsorted := splitLoop_sorted str delimiter 0
  have hbefore := (splitLoop_spec str delimiter 0).2.2
  constructor
  · intro ref
    rw [isRun_iff (Nat.zero_le _) (.inl rfl) (Nat.zero_le _), List.mem_filter, decide_eq_true_eq,
      and_comm]
    rfl
  · refine List.Pairwise.filter _ (List.pairwise_append.mpr ⟨hsorted.2, by simp, ?_⟩)
    intro ref hmem last hlast
    rw [List.mem_singleton.mp hlast]
    exact (hbefore ref hmem).2

/-- Behind the last delimiter, or the start, the last piece has none. -/
theorem lastPiece_cut (str : List Byte) (delimiter : Byte) :
    Cut str delimiter (lastPiece str delimiter).begin_ ∧
      ∀ i, (lastPiece str delimiter).begin_ ≤ i → str[i]? ≠ some delimiter := by
  have hstart : Cut str delimiter 0 := .inl rfl
  exact splitLoop_last hstart

theorem lastPiece_empty_iff (str : List Byte) (delimiter : Byte) :
    (lastPiece str delimiter).size_ = 0 ↔ str = [] ∨ str.getLast? = some delimiter := by
  have hlast := lastPiece_cut str delimiter
  have hend := lastPiece_end str delimiter
  rw [List.getLast?_eq_getElem?]
  constructor
  · intro hzero
    rw [hzero, Nat.add_zero] at hend
    cases hlast.1 with
    | inl hbegin => exact .inl (List.eq_nil_of_length_eq_zero (by omega))
    | inr hdelimiter =>
      rw [hend] at hdelimiter
      exact .inr hdelimiter
  · intro h
    cases h with
    | inl hnil =>
      have hlen : str.length = 0 := by rw [hnil, List.length_nil]
      omega
    | inr hdelimiter =>
      by_contra hsize
      exact hlast.2 (str.length - 1) (by omega) hdelimiter

theorem lastPiece_whole_iff (str : List Byte) (delimiter : Byte) :
    (lastPiece str delimiter).begin_ = 0 ↔ delimiter ∉ str := by
  have hlast := lastPiece_cut str delimiter
  rw [List.mem_iff_getElem?]
  constructor
  · intro hbegin hmem
    obtain ⟨i, hi⟩ := hmem
    exact hlast.2 i (by omega) hi
  · intro hnot
    cases hlast.1 with
    | inl hbegin => exact hbegin
    | inr hdelimiter => exact absurd ⟨_, hdelimiter⟩ hnot

theorem toInt_eq_self_iff (n : Nat) : toInt n = n ↔ n < 2 ^ 31 := by
  have hlo := Int.le_bmod (x := n) (m := 2 ^ 32) (by decide)
  have hhi := Int.bmod_lt (x := n) (m := 2 ^ 32) (by decide)
  constructor
  · intro h
    rw [toInt] at h
    omega
  · intro h
    exact Int.bmod_eq_of_le (by omega) (by omega)

theorem pieces_inside (str : List Byte) (delimiter : Byte) :
    ∀ ref ∈ (splitLoop str delimiter 0).1 ++ [lastPiece str delimiter], Inside str ref := by
  obtain ⟨-, hlast, hrefs⟩ := splitLoop_spec str delimiter 0
  have hle := hlast (Nat.zero_le _)
  intro ref hmem
  cases List.mem_append.mp hmem with
  | inl hmem =>
    have href := hrefs ref hmem
    exact ⟨href.1, by omega⟩
  | inr hmem =>
    rw [List.mem_singleton.mp hmem]
    exact ⟨rfl, (lastPiece_end str delimiter).le⟩

/-- The tokenizers agree when what they return are the pieces, with or without the empty
ones. -/
theorem agree_of_pieces {str : List Byte} {delimiter : Byte} (fast : List StringRef)
    (hsub : ∀ ref ∈ fast, ref ∈ (splitLoop str delimiter 0).1 ++ [lastPiece str delimiter])
    (hnonempty : fast.filter (fun ref => ref.size_ ≠ 0) =
      ((splitLoop str delimiter 0).1 ++ [lastPiece str delimiter]).filter
        fun ref => ref.size_ ≠ 0)
    (hfast : split_fast str delimiter = .ok fast)
    (htokens : split3 str delimiter = .ok (fast.filter fun ref => ref.size_ ≠ 0)) :
    Agree str delimiter := by
  refine ⟨_, fast, htokens, hfast, ?_, ?_, rfl⟩
  · intro ref hmem
    apply pieces_inside str delimiter
    cases List.mem_append.mp hmem with
    | inl hmem => exact hsub ref (List.mem_of_mem_filter hmem)
    | inr hmem => exact hsub ref hmem
  · rw [hnonempty]
    exact runs_pieces str delimiter

/-- Without a byte in the last piece neither tokenizer makes a token of it. -/
theorem agree_of_empty {str : List Byte} {delimiter : Byte}
    (h : (lastPiece str delimiter).size_ = 0) : Agree str delimiter := by
  refine agree_of_pieces (splitLoop str delimiter 0).1 ?_ ?_ ?_ ?_
  · exact fun ref hmem => List.mem_append_left _ hmem
  · rw [List.filter_append, List.filter_singleton]
    simp [h]
  · rw [split_fast_eq, if_neg (by omega)]
  · rw [split3_eq, if_neg (by omega)]
    rfl

/-- A string without the delimiter is one token, which both take from its begin. -/
theorem agree_of_whole {str : List Byte} {delimiter : Byte} (hnot : delimiter ∉ str)
    (hlen : str.length < 2 ^ 31) : Agree str delimiter := by
  by_cases hsize : (lastPiece str delimiter).size_ = 0
  · exact agree_of_empty hsize
  · have hbegin := (lastPiece_whole_iff str delimiter).mpr hnot
    have hend := lastPiece_end str delimiter
    have hwhole : (lastPiece str delimiter).size_ = str.length := by omega
    have hmake : StringRef.make str (lastPiece str delimiter).begin_ str.length =
        .ok (lastPiece str delimiter) := by
      rw [hbegin, StringRef.make_ok str 0 str.length (by omega), ← hwhole, ← hbegin]
      rfl
    refine agree_of_pieces ((splitLoop str delimiter 0).1 ++ [lastPiece str delimiter])
      (fun ref hmem => hmem) rfl ?_ ?_
    · rw [split_fast_eq, if_pos (by omega), hmake]
      rfl
    · rw [split3_eq, if_pos (by omega), hwhole, (toInt_eq_self_iff _).mpr hlen, hmake,
        List.filter_append, List.filter_singleton]
      simp [hsize, fullPieces, Except.map]

/-- A last token that `split3` makes and that is a run has its whole length. -/
theorem lastPiece_fits {str : List Byte} {delimiter : Byte} {token : StringRef}
    (hmake : StringRef.make str (lastPiece str delimiter).begin_
      (toInt (lastPiece str delimiter).size_) = .ok token)
    (hrun : IsRun str delimiter token) : (lastPiece str delimiter).size_ < 2 ^ 31 := by
  obtain ⟨hpos, -, rfl⟩ := StringRef.make_ok_iff.mp hmake
  have hpiece := ((isRun_iff (Nat.zero_le _) (.inl rfl) (Nat.zero_le _)).mp hrun).2
  cases List.mem_append.mp hpiece with
  | inl hearly =>
    have hend := ((splitLoop_spec str delimiter 0).2.2 _ hearly).2
    simp only [StringRef.end_, lastPiece] at hend
    omega
  | inr hlast =>
    have hsize := congrArg StringRef.size_ (List.mem_singleton.mp hlast)
    dsimp only at hsize
    apply (toInt_eq_self_iff _).mp
    -- as a variable, so that nothing evaluates the conversion
    generalize toInt (lastPiece str delimiter).size_ = stored at hpos hsize ⊢
    rw [← Int.toNat_of_nonneg hpos, hsize]
    rfl

/-- `split_fast` reads behind the end of the string unless the last token is all of it. -/
theorem whole_of_split_fast {str : List Byte} {delimiter : Byte} {fast : List StringRef}
    (hfast : split_fast str delimiter = .ok fast) (hsize : (lastPiece str delimiter).size_ ≠ 0) :
    delimiter ∉ str := by
  rw [split_fast_eq, if_pos (by omega), Lib.Outcome.map_eq_ok] at hfast
  obtain ⟨token, htoken, -⟩ := hfast
  have hinside := (StringRef.make_ok_iff.mp htoken).2.1
  have hend := lastPiece_end str delimiter
  apply (lastPiece_whole_iff str delimiter).mp
  omega

/-- The tokenizers agree exactly on the strings that end with the delimiter, and on those
below 2^31 bytes that do not contain it. -/
theorem agree_iff (str : List Byte) (delimiter : Byte) :
    Agree str delimiter ↔
      delimiter ∉ str ∧ str.length < 2 ^ 31 ∨ str.getLast? = some delimiter := by
  constructor
  · intro h
    obtain ⟨tokens, fast, htokens, hfast, -, hruns, -⟩ := h
    by_cases hsize : (lastPiece str delimiter).size_ = 0
    · cases (lastPiece_empty_iff str delimiter).mp hsize with
      | inl hnil =>
        rw [hnil]
        exact .inl ⟨List.not_mem_nil, by decide⟩
      | inr hlast => exact .inr hlast
    · have hnot := whole_of_split_fast hfast hsize
      have hbegin := (lastPiece_whole_iff str delimiter).mpr hnot
      have hend := lastPiece_end str delimiter
      rw [split3_eq, if_pos (by omega), Lib.Outcome.map_eq_ok] at htokens
      obtain ⟨token, htoken, rfl⟩ := htokens
      have hfits := lastPiece_fits htoken ((hruns.all token).mp (by simp))
      exact .inl ⟨hnot, by omega⟩
  · intro h
    cases h with
    | inl hwhole => exact agree_of_whole hwhole.1 hwhole.2
    | inr hlast => exact agree_of_empty ((lastPiece_empty_iff str delimiter).mpr (.inr hlast))

/-- Behind the blank the last token of `split_fast` would need three bytes, and one is left. -/
theorem last_token_overruns : ¬ Agree (ascii "a b") blank := by
  intro h
  obtain ⟨tokens, fast, -, hfast, -⟩ := h
  apply whole_of_split_fast hfast
  · rw [ne_eq, lastPiece_empty_iff]
    decide
  · decide

end SyscallSensor.Tokenizers
