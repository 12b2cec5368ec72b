import SyscallSensor.Lib.Transition

/-! Systems whose steps use something up: their runs are bounded, and every run goes on to a
state without a step. -/
namespace Lib.Transition
variable {σ Λ : Type*} {S : System σ Λ}

def System.Stuck (S : System σ Λ) (s : σ) : Prop := ∀ l t, ¬ S.step l s t

theorem System.Reachable.leads {s t : σ} (hs : S.Reachable s) (h : S.Leads s t) : S.Reachable t := by
  induction h with
  | refl => exact hs
  | tail _ hstep ih =>
    obtain ⟨before, hrun⟩ := ih
    obtain ⟨l, hstep⟩ := hstep
    exact (hrun.next hstep).reachable

/-- A measure that every step brings down, in the states with `I`. -/
structure System.Measure (S : System σ Λ) (I : σ → Prop) (work : σ → Nat) : Prop where
  init : ∀ s, S.init s → I s
  keep : ∀ l s t, I s → S.step l s t → I t
  less : ∀ l s t, I s → S.step l s t → work t < work s

section
variable {I : σ → Prop} {work : σ → Nat} {s : σ} {ls : List Λ}

theorem System.Measure.invariant (h : S.Measure I work) (hs : S.Reachable s) : I s :=
  hs.invariant h.init h.keep

/-- A run is no longer than the measure of the state that it starts in. -/
theorem System.Measure.run_length_le {start : σ} (h : S.Measure I work) (hstart : S.init start)
    (hrun : (S.startingIn start).Run ls s) : ls.length + work s ≤ work start := by
  induction hrun with
  | start hs => simp [show _ = start from hs]
  | next hbefore hstep ih =>
    have hless := h.less _ _ _ (h.invariant (hbefore.of_startingIn hstart).reachable) hstep
    rw [List.length_append, List.length_singleton]
    omega

/-- However far a run has come, it can be brought to an end. -/
theorem System.Measure.leads_stuck (h : S.Measure I work) (hs : I s) :
    ∃ t, S.Leads s t ∧ S.Stuck t := by
  induction hn : work s using Nat.strongRecOn generalizing s with
  | ind n ih =>
    by_cases hstuck : S.Stuck s
    · exact ⟨s, .refl, hstuck⟩
    · simp only [System.Stuck, not_forall, not_not] at hstuck
      obtain ⟨l, t, hstep⟩ := hstuck
      have hless := h.less l s t hs hstep
      obtain ⟨u, hleads, hu⟩ := ih (work t) (by omega) (h.keep l s t hs hstep) rfl
      exact ⟨u, .head ⟨l, hstep⟩ hleads, hu⟩

/- The same in the runs that a condition leaves. -/
theorem System.Measure.restrict (h : S.Measure I work) (allows : Λ → σ → Prop) :
    (S.restrict allows).Measure I work where
  init s hinit := h.init s hinit
  keep l s t hs hstep := h.keep l s t hs hstep.2
  less l s t hs hstep := h.less l s t hs hstep.2

/-- A run with a condition is one with any weaker condition. -/
theorem System.Run.weaken {allows allows' : Λ → σ → Prop} (h : ∀ l s, allows l s → allows' l s)
    (hrun : (S.restrict allows).Run ls s) : (S.restrict allows').Run ls s := by
  induction hrun with
  | start hinit => exact .start hinit
  | next _ hstep ih => exact .next ih ⟨h _ _ hstep.1, hstep.2⟩

theorem System.Run.unrestrict {allows : Λ → σ → Prop} (hrun : (S.restrict allows).Run ls s) :
    S.Run ls s := by
  induction hrun with
  | start hinit => exact .start hinit
  | next _ hstep ih => exact .next ih hstep.2

theorem System.Leads.unrestrict {allows : Λ → σ → Prop} {t : σ}
    (h : (S.restrict allows).Leads s t) : S.Leads s t := by
  induction h with
  | refl => exact .refl
  | tail _ hstep ih =>
    obtain ⟨l, hstep⟩ := hstep
    exact ih.tail ⟨l, hstep.2⟩

/-- What some steps spoil for good is whole at the end of a run exactly when the run has none of
these steps. -/
theorem System.Run.whole_iff (spoiled : σ → Prop) {spoils : Λ → σ → Prop}
    (hinit : ∀ s, S.init s → ¬ spoiled s)
    (hstep : ∀ l s t, S.Reachable s → S.step l s t → (spoiled t ↔ spoiled s ∨ spoils l s))
    (hrun : S.Run ls s) :
    ¬ spoiled s ↔ (S.restrict fun l s => ¬ spoils l s).Run ls s := by
  constructor
  · induction hrun with
    | start hstart => exact fun _ => .start hstart
    | next hbefore hnext ih =>
      intro hwhole
      rw [hstep _ _ _ hbefore.reachable hnext, not_or] at hwhole
      exact .next (ih hwhole.1) ⟨hwhole.2, hnext⟩
  · intro hkept
    induction hkept with
    | start hstart => exact hinit _ hstart
    | next hbefore hnext ih =>
      rw [hstep _ _ _ hbefore.unrestrict.reachable hnext.2, not_or]
      exact ⟨ih hbefore.unrestrict, hnext.1⟩

end
end Lib.Transition
