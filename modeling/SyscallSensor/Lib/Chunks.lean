import SyscallSensor.Lib.Pieces

/-! A text of lines that arrives in chunks, each of which is shown with a line end behind it: the
lines are seen again exactly when no chunk ends inside one. -/
namespace Lib.Chunks
open Lib.Pieces
variable {α : Type*} {d : α}

def CutsLine (d : α) (chunks : List (List α)) : Prop :=
  ∃ before after b c, chunks = before ++ after ∧ before.flatten.getLast? = some b ∧ b ≠ d ∧
    after.flatten.head? = some c ∧ c ≠ d

/-- A start without a separator lies in the first line. -/
theorem start_in_line {x y : List α} {lines : List (List α)} (hx : d ∉ x) (hne : x ≠ [])
    (h : x ++ y = lines.flatMap fun l => l ++ [d]) :
    ∃ tail rest, lines = (x ++ tail) :: rest ∧ y = tail ++ d :: rest.flatMap fun l => l ++ [d] := by
  cases lines with
  | nil => exact absurd (List.append_eq_nil_iff.mp h).1 hne
  | cons l rest =>
    rw [List.flatMap_cons, List.append_assoc, List.singleton_append] at h
    obtain ⟨tail, rfl, hy⟩ | ⟨more, hmore, hrest⟩ := List.append_eq_append_iff.mp h
    · exact ⟨tail, rest, rfl, hy⟩
    · cases more with
      | nil =>
        rw [List.append_nil] at hmore
        exact ⟨[], rest, by rw [hmore, List.append_nil], hrest.symm⟩
      | cons b more =>
        rw [List.cons_append, List.cons.injEq] at hrest
        rw [hmore, ← hrest.1] at hx
        exact absurd (List.mem_append_right l List.mem_cons_self) hx

theorem CutsLine.cons {chunk : List α} {chunks : List (List α)} (h : CutsLine d chunks) :
    CutsLine d (chunk :: chunks) := by
  obtain ⟨before, after, b, c, rfl, hb, hbd, hc, hcd⟩ := h
  refine ⟨chunk :: before, after, b, c, rfl, ?_, hbd, hc, hcd⟩
  rw [List.flatten_cons, List.getLast?_append, hb]
  rfl

/- What ends with a line ends with the separator. -/
theorem last_of_ended {lines : List (List α)} {b : α}
    (h : (lines.flatMap fun l => l ++ [d]).getLast? = some b) : b = d := by
  induction lines using List.reverseRecOn with
  | nil => simp at h
  | append_singleton lines l _ => simpa [eq_comm] using h

theorem exists_first_chunk {chunks : List (List α)} {c : α} (h : chunks.flatten.head? = some c) :
    ∃ x, (c :: x) ∈ chunks ∧ ∃ later, chunks.flatten = c :: x ++ later := by
  induction chunks with
  | nil => simp at h
  | cons chunk chunks ih =>
    cases chunk with
    | nil =>
      obtain ⟨x, hx, hlater⟩ := ih h
      exact ⟨x, List.mem_cons_of_mem _ hx, hlater⟩
    | cons b x =>
      obtain rfl : b = c := by simpa using h
      exact ⟨x, List.mem_cons_self, chunks.flatten, rfl⟩

variable [BEq α] [LawfulBEq α]

/-- What is shown are the pieces of the chunks. -/
theorem splitOn_shown (d : α) (chunks : List (List α)) :
    (chunks.flatMap fun chunk => chunk ++ [d]).splitOn d = chunks.flatMap (List.splitOn d) ++ [[]] := by
  induction chunks with
  | nil => exact List.splitOn_nil d
  | cons chunk chunks ih =>
    rw [List.flatMap_cons, List.append_assoc, List.singleton_append, List.splitOn_append_cons_self,
      ih, List.flatMap_cons, List.append_assoc]

theorem cutEnded_shown (d : α) (chunks : List (List α)) :
    cutEnded d (chunks.flatMap fun chunk => chunk ++ [d]) = some (chunks.flatMap (List.splitOn d)) := by
  rw [cutEnded, splitOn_shown]
  exact List.dropSuffix?_eq_some_iff.mpr ⟨[[]], rfl, beq_self_eq_true _⟩

/-- A text of lines cut in two: the lines of the first part, and what a line that lies on both sides
begins with. -/
theorem cut_lines {x y : List α} {lines : List (List α)} (hlines : ∀ l ∈ lines, d ∉ l)
    (h : x ++ y = lines.flatMap fun l => l ++ [d]) :
    ∃ ts t rest, x.splitOn d = ts ++ [t] ∧ x = (ts.flatMap fun l => l ++ [d]) ++ t ∧ d ∉ t ∧
      lines = ts ++ rest ∧ t ++ y = rest.flatMap fun l => l ++ [d] := by
  obtain ⟨ts, t, hx⟩ := List.eq_nil_or_concat' (x.splitOn d) |>.resolve_left (List.splitOn_ne_nil d x)
  have hwhole := eq_of_splitOn hx
  have hpieces : ts ++ (t ++ y).splitOn d = lines ++ [[]] := by
    rw [← splitOn_append_of_last hx, h, splitOn_ended hlines]
  obtain ⟨ss, s, hs⟩ := List.eq_nil_or_concat' ((t ++ y).splitOn d) |>.resolve_left
    (List.splitOn_ne_nil d _)
  rw [hs, ← List.append_assoc] at hpieces
  obtain ⟨hrest, hlast⟩ := List.append_inj' hpieces rfl
  rw [hlast] at hs
  refine ⟨ts, t, ss, hx, hwhole, (splitOn_last hx).1, hrest.symm, ?_⟩
  rw [eq_of_splitOn hs, List.append_nil]

/-- When no chunk ends inside a line, the pieces with something in them are the lines. -/
theorem filter_pieces {chunks lines : List (List α)} (hlines : ∀ l ∈ lines, d ∉ l)
    (h : chunks.flatten = lines.flatMap fun l => l ++ [d]) (hcuts : ¬ CutsLine d chunks) :
    (chunks.flatMap (List.splitOn d)).filter (fun p => !p.isEmpty) =
      lines.filter fun p => !p.isEmpty := by
  induction chunks generalizing lines with
  | nil =>
    cases lines with
    | nil => rfl
    | cons l rest => simp at h
  | cons chunk chunks ih =>
    obtain ⟨ts, t, rest, hpieces, hchunk, hfree, rfl, hrest⟩ := cut_lines hlines h
    have htail : ¬ CutsLine d chunks := fun hcut => hcuts hcut.cons
    have hlater : ∀ l ∈ rest, d ∉ l := fun l hl => hlines l (List.mem_append_right ts hl)
    rw [List.flatMap_cons, hpieces, List.filter_append, List.filter_append, List.filter_append]
    by_cases ht : t = []
    · -- behind a line end
      rw [ht, List.nil_append] at hrest
      rw [ih hlater hrest htail, ht]
      simp
    · -- in front of one
      obtain ⟨tail, later, rfl, hy⟩ := start_in_line hfree ht hrest
      have hend : tail = [] := by
        by_contra hsome
        obtain ⟨c, cs, rfl⟩ := List.exists_cons_of_ne_nil hsome
        apply hcuts
        refine ⟨[chunk], chunks, t.getLast ht, c, rfl, ?_, ?_, ?_, ?_⟩
        · rw [List.flatten_singleton, hchunk, List.getLast?_append, List.getLast?_eq_some_getLast ht]
          rfl
        · exact fun he => hfree (he ▸ List.getLast_mem ht)
        · rw [hy]
          rfl
        · rintro rfl
          exact hlater _ List.mem_cons_self (by simp)
      rw [hend, List.nil_append] at hy
      rw [List.forall_mem_cons] at hlater
      have hnext : ∀ l ∈ [] :: later, d ∉ l :=
        List.forall_mem_cons.mpr ⟨List.not_mem_nil, hlater.2⟩
      rw [ih hnext hy htail, hend]
      simp [ht]

/-- The first piece of a list. -/
theorem first_piece {c : α} (hc : c ≠ d) (x : List α) :
    ∃ y z, d ∉ c :: y ∧ c :: x = c :: y ++ z ∧ c :: y ∈ (c :: x).splitOn d := by
  by_cases hd : d ∈ x
  · obtain ⟨y, z, rfl, hy⟩ := List.eq_append_cons_of_mem hd
    have hfree : d ∉ c :: y := by
      rw [List.mem_cons, not_or]
      exact ⟨hc.symm, hy⟩
    refine ⟨y, d :: z, hfree, rfl, ?_⟩
    rw [← List.cons_append, List.splitOn_append_cons_self_of_not_mem hfree]
    exact List.mem_cons_self
  · have hfree : d ∉ c :: x := by
      rw [List.mem_cons, not_or]
      exact ⟨hc.symm, hd⟩
    refine ⟨x, [], hfree, (List.append_nil _).symm, ?_⟩
    rw [List.splitOn_eq_singleton hfree]
    exact List.mem_singleton_self _

/-- A chunk that ends inside a line leaves a piece that starts inside one. -/
theorem exists_inside {chunks lines : List (List α)} (hlines : ∀ l ∈ lines, d ∉ l)
    (h : chunks.flatten = lines.flatMap fun l => l ++ [d]) (hcuts : CutsLine d chunks) :
    ∃ front piece tail, front ++ piece ++ tail ∈ lines ∧ front ≠ [] ∧ piece ≠ [] ∧
      piece ∈ chunks.flatMap (List.splitOn d) := by
  obtain ⟨before, after, b, c, rfl, hb, hbd, hc, hcd⟩ := hcuts
  rw [List.flatten_append] at h
  obtain ⟨ts, t, rest, -, hbefore, hfree, rfl, hrest⟩ := cut_lines hlines h
  have ht : t ≠ [] := by
    rintro rfl
    rw [List.append_nil] at hbefore
    exact hbd (last_of_ended (hbefore ▸ hb))
  obtain ⟨x, hx, later, hafter⟩ := exists_first_chunk hc
  obtain ⟨y, z, hpiece, hstart, hmem⟩ := first_piece hcd x
  rw [hafter, hstart, List.append_assoc, ← List.append_assoc t] at hrest
  have hboth : d ∉ t ++ c :: y := by
    rw [List.mem_append, not_or]
    exact ⟨hfree, hpiece⟩
  obtain ⟨tail, last, rfl, -⟩ := start_in_line hboth (by simp) hrest
  refine ⟨t, c :: y, tail, ?_, ht, List.cons_ne_nil c y, ?_⟩
  · exact List.mem_append_right ts List.mem_cons_self
  · rw [List.flatMap_append, List.mem_append]
    exact .inr (List.mem_flatMap.mpr ⟨_, hx, hmem⟩)

end Lib.Chunks
