import Mathlib.Logic.Relation
import Mathlib.Order.Basic

/-! Labelled transition systems and their runs. The label of a step carries every
nondeterministic choice, so a run is a list of labels together with the state it ends in. -/
namespace Lib.Transition
variable {σ τ Λ M : Type*}

structure System (σ Λ : Type*) where
  init : σ → Prop
  step : Λ → σ → σ → Prop

/-- `S.Run ls s`: the labels `ls`, in this order, lead from an initial state to `s`. -/
inductive System.Run (S : System σ Λ) : List Λ → σ → Prop where
  | start {s : σ} : S.init s → S.Run [] s
  | next {ls : List Λ} {l : Λ} {s t : σ} : S.Run ls s → S.step l s t → S.Run (ls ++ [l]) t

def System.Reachable (S : System σ Λ) (s : σ) : Prop := ∃ ls, S.Run ls s

theorem System.Run.reachable {S : System σ Λ} {ls : List Λ} {s : σ} (h : S.Run ls s) :
    S.Reachable s := ⟨ls, h⟩

/-- The invariant rule: what the initial states have and each step preserves holds in
every reachable state. -/
theorem System.Reachable.invariant {S : System σ Λ} {I : σ → Prop}
    (hinit : ∀ s, S.init s → I s)
    (hstep : ∀ l s t, I s → S.step l s t → I t) {s : σ} (h : S.Reachable s) : I s := by
  obtain ⟨ls, h⟩ := h
  induction h with
  | start hs => exact hinit _ hs
  | next _ hs ih => exact hstep _ _ _ ih hs

/-- The same rule for a relation between the labels taken so far and the state. -/
theorem System.Run.invariant {S : System σ Λ} {I : List Λ → σ → Prop}
    (hinit : ∀ s, S.init s → I [] s)
    (hstep : ∀ ls l s t, I ls s → S.step l s t → I (ls ++ [l]) t)
    {ls : List Λ} {s : σ} (h : S.Run ls s) : I ls s := by
  induction h with
  | start hs => exact hinit _ hs
  | next _ hs ih => exact hstep _ _ _ _ ih hs

/-- What a step function computes is a run of the system. -/
theorem System.Run.foldlM {S : System σ Λ} {s t : σ} {before : List Λ} (h : S.Run before s)
    (f : σ → Λ → Option σ) (ls : List Λ) (hf : ∀ l ∈ ls, ∀ s t, f s l = some t → S.step l s t)
    (hrun : ls.foldlM f s = some t) : S.Run (before ++ ls) t := by
  induction ls generalizing before s with
  | nil =>
    obtain rfl := Option.some.inj hrun
    rwa [List.append_nil]
  | cons l ls ih =>
    rw [List.forall_mem_cons] at hf
    rw [List.foldlM_cons] at hrun
    obtain ⟨mid, hmid, hrest⟩ := Option.bind_eq_some_iff.mp hrun
    have hnext := ih (h.next (hf.1 s mid hmid)) hf.2 hrest
    rwa [List.append_assoc] at hnext

theorem System.Reachable.foldlM {S : System σ Λ} {s t : σ} (h : S.Reachable s)
    (f : σ → Λ → Option σ) (ls : List Λ) (hf : ∀ l ∈ ls, ∀ s t, f s l = some t → S.step l s t)
    (hrun : ls.foldlM f s = some t) : S.Reachable t := by
  obtain ⟨before, hbefore⟩ := h
  exact (hbefore.foldlM f ls hf hrun).reachable

/-- The runs in which every step is taken in a state that allows it. -/
def System.restrict (S : System σ Λ) (allows : Λ → σ → Prop) : System σ Λ where
  init := S.init
  step l s t := allows l s ∧ S.step l s t

/-- The runs from one state. -/
def System.startingIn (S : System σ Λ) (start : σ) : System σ Λ where
  init s := s = start
  step := S.step

/-- Every run is one from some initial state. -/
theorem System.Run.startingIn {S : System σ Λ} {ls : List Λ} {s : σ} (h : S.Run ls s) :
    ∃ start, S.init start ∧ (S.startingIn start).Run ls s := by
  induction h with
  | start hinit => exact ⟨_, hinit, .start rfl⟩
  | next _ hstep ih =>
    obtain ⟨start, hinit, hrun⟩ := ih
    exact ⟨start, hinit, hrun.next hstep⟩

theorem System.Run.of_startingIn {S : System σ Λ} {start s : σ} {ls : List Λ}
    (hinit : S.init start) (h : (S.startingIn start).Run ls s) : S.Run ls s := by
  induction h with
  | start hs => exact hs ▸ .start hinit
  | next _ hstep ih => exact ih.next hstep

/-- Any number of further steps. -/
def System.Leads (S : System σ Λ) : σ → σ → Prop := Relation.ReflTransGen fun s t => ∃ l, S.step l s t

end Lib.Transition
