import Mathlib.Algebra.Order.BigOperators.Group.List
import Mathlib.Algebra.Ring.Nat
import SyscallSensor.Lib.Progress

/-! Refinement of one system by another that takes more steps: each of them is a step of the
system above, or changes nothing there. -/
namespace Lib.Transition
variable {σ τ Λ M : Type*}

/-- `C` refines `A` along `abs`, in the states of `C` with `I`. A step labelled `l` shows above
as nothing, or as the step `label l`. -/
structure System.Refines (C : System σ Λ) (A : System τ M) (I : σ → Prop) (abs : σ → τ)
    (label : Λ → Option M) : Prop where
  init : ∀ s, C.init s → I s ∧ A.init (abs s)
  keep : ∀ l s t, I s → C.step l s t → I t
  step : ∀ l s t, I s → C.step l s t →
    abs t = abs s ∨ ∃ m, label l = some m ∧ A.step m (abs s) (abs t)

section
variable {C : System σ Λ} {A : System τ M} {I : σ → Prop} {abs : σ → τ} {label : Λ → Option M}
  {s : σ} {ls : List Λ}

theorem System.Refines.invariant (h : C.Refines A I abs label) (hs : C.Reachable s) : I s :=
  hs.invariant (fun s hinit => (h.init s hinit).1) h.keep

/-- A run below is a run above, of some of the steps that its labels show. -/
theorem System.Refines.run (h : C.Refines A I abs label) (hrun : C.Run ls s) :
    ∃ ms, ms.Sublist (ls.filterMap label) ∧ A.Run ms (abs s) := by
  induction hrun with
  | start hinit => exact ⟨[], .slnil, .start (h.init _ hinit).2⟩
  | @next before l s t hbefore hstep ih =>
    obtain ⟨ms, hms, habove⟩ := ih
    have hlist : (before ++ [l]).filterMap label = before.filterMap label ++ [l].filterMap label :=
      List.filterMap_append
    rw [hlist]
    cases h.step l s t (h.invariant hbefore.reachable) hstep with
    | inl hsame => exact ⟨ms, hms.trans (List.sublist_append_left _ _), hsame ▸ habove⟩
    | inr hmoved =>
      obtain ⟨m, hlabel, hmove⟩ := hmoved
      have hlast : [l].filterMap label = [m] := by simp [hlabel]
      rw [hlast]
      exact ⟨ms ++ [m], hms.append (.refl _), habove.next hmove⟩

theorem System.Refines.reachable (h : C.Refines A I abs label) (hs : C.Reachable s) :
    A.Reachable (abs s) := by
  obtain ⟨ls, hrun⟩ := hs
  obtain ⟨ms, -, habove⟩ := h.run hrun
  exact habove.reachable

/-- A condition on the steps below that carries over to the steps above. -/
theorem System.Refines.restrict (h : C.Refines A I abs label) {below : Λ → σ → Prop}
    {above : M → τ → Prop}
    (hcarry : ∀ l m s, label l = some m → below l s → above m (abs s)) :
    (C.restrict below).Refines (A.restrict above) I abs label where
  init := h.init
  keep l s t hs hstep := h.keep l s t hs hstep.2
  step l s t hs hstep := by
    cases h.step l s t hs hstep.2 with
    | inl hsame => exact .inl hsame
    | inr hmoved =>
      obtain ⟨m, hlabel, hmove⟩ := hmoved
      exact .inr ⟨m, hlabel, hcarry l m s hlabel hstep.1, hmove⟩

end

section
variable {S : System σ Λ} {I : σ → Prop} {work : σ → Nat} {gain : Λ → Nat} {s : σ} {ls : List Λ}

/-- Where some steps give back a part of the measure, a run is no longer than what it starts with
and is given. -/
theorem System.Run.budget {start : σ} (hinit : ∀ s, S.init s → I s)
    (hkeep : ∀ l s t, I s → S.step l s t → I t)
    (hless : ∀ l s t, I s → S.step l s t → work t < work s + gain l) (hstart : S.init start)
    (hrun : (S.startingIn start).Run ls s) :
    ls.length + work s ≤ work start + (ls.map gain).sum := by
  induction hrun with
  | start hs => simp [show _ = start from hs]
  | next hbefore hstep ih =>
    have hreach := (hbefore.of_startingIn hstart).reachable
    have hnext := hless _ _ _ (hreach.invariant hinit hkeep) hstep
    rw [List.length_append, List.map_append, List.sum_append, List.length_singleton,
      List.map_singleton, List.sum_singleton]
    omega

end
end Lib.Transition
