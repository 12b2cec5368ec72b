import Mathlib.Data.List.Basic
import Mathlib.Data.List.Infix

/-! Ledgers: what is acquired and released in the course of a run, what is held at each moment,
and the discipline that everything acquired is released exactly once. -/
namespace Lib.Ledger
variable {ι : Type*}

inductive Event (ι : Type*) where
  | acquire (i : ι)
  | release (i : ι)
deriving DecidableEq, Repr

def Event.subject : Event ι → ι
  | .acquire i | .release i => i

variable [DecidableEq ι]

/- A release of what is not held changes nothing. -/
def after (held : List ι) : Event ι → List ι
  | .acquire i => i :: held
  | .release i => held.erase i

def held (log : List (Event ι)) : List ι := log.foldl after []

/-- Nothing is acquired while it is held. -/
def Fresh (log : List (Event ι)) : Prop :=
  ∀ before i, before ++ [.acquire i] <+: log → i ∉ held before

/-- Only what is held is released. -/
def Sound (log : List (Event ι)) : Prop :=
  ∀ before i, before ++ [.release i] <+: log → i ∈ held before

/-- Every acquisition is followed by exactly one release, before the next acquisition of the
same thing. -/
def OnceEach (log : List (Event ι)) : Prop :=
  ∀ i, ∃ n, log.filter (fun event => event.subject = i) =
    (List.replicate n [Event.acquire i, Event.release i]).flatten

/-- Never more than `n` at a time. -/
def Within (n : Nat) (log : List (Event ι)) : Prop :=
  ∀ before, before <+: log → (held before).length ≤ n

structure Owned (n : Nat) (log : List (Event ι)) : Prop where
  once : OnceEach log
  sound : Sound log
  within : Within n log

section
variable {log : List (Event ι)} {event : Event ι} {i : ι} {n : Nat}

@[simp] theorem held_nil : held ([] : List (Event ι)) = [] := rfl

@[simp] theorem held_concat : held (log ++ [event]) = after (held log) event := by
  rw [held, List.foldl_append]
  rfl

@[simp] theorem after_acquire (l : List ι) : after l (.acquire i) = i :: l := rfl

@[simp] theorem after_release (l : List ι) : after l (.release i) = l.erase i := rfl

theorem Sound.mono {before : List (Event ι)} (h : Sound log) (hbefore : before <+: log) :
    Sound before :=
  fun earlier i hearlier => h earlier i (hearlier.trans hbefore)

theorem Within.mono {before : List (Event ι)} (h : Within n log) (hbefore : before <+: log) :
    Within n before :=
  fun earlier hearlier => h earlier (hearlier.trans hbefore)

theorem Fresh.mono {before : List (Event ι)} (h : Fresh log) (hbefore : before <+: log) :
    Fresh before :=
  fun earlier i hearlier => h earlier i (hearlier.trans hbefore)

@[simp] theorem sound_nil : Sound ([] : List (Event ι)) := by
  intro before i h
  simpa using h.length_le

@[simp] theorem fresh_nil : Fresh ([] : List (Event ι)) := by
  intro before i h
  simpa using h.length_le

@[simp] theorem within_nil : Within n ([] : List (Event ι)) := by
  intro before h
  rw [List.prefix_nil] at h
  simp [h]

theorem sound_acquire (h : Sound log) : Sound (log ++ [.acquire i]) := by
  intro before j hj
  rw [List.prefix_concat_iff] at hj
  cases hj with
  | inl heq => simpa using congrArg List.getLast? heq
  | inr hbefore => exact h before j hbefore

theorem sound_release : Sound (log ++ [.release i]) ↔ Sound log ∧ i ∈ held log := by
  constructor
  · intro h
    exact ⟨h.mono (List.prefix_append _ _), h log i List.prefix_rfl⟩
  · intro ⟨h, hheld⟩ before j hj
    rw [List.prefix_concat_iff] at hj
    cases hj with
    | inl heq =>
      obtain ⟨rfl, hlast⟩ := List.append_inj' heq rfl
      simp only [List.cons.injEq, Event.release.injEq, and_true] at hlast
      exact hlast ▸ hheld
    | inr hbefore => exact h before j hbefore

theorem fresh_acquire (h : Fresh log) (hfresh : i ∉ held log) : Fresh (log ++ [.acquire i]) := by
  intro before j hj
  rw [List.prefix_concat_iff] at hj
  cases hj with
  | inl heq =>
    obtain ⟨rfl, hlast⟩ := List.append_inj' heq rfl
    simp only [List.cons.injEq, Event.acquire.injEq, and_true] at hlast
    exact hlast ▸ hfresh
  | inr hbefore => exact h before j hbefore

theorem fresh_release (h : Fresh log) : Fresh (log ++ [.release i]) := by
  intro before j hj
  rw [List.prefix_concat_iff] at hj
  cases hj with
  | inl heq => simpa using congrArg List.getLast? heq
  | inr hbefore => exact h before j hbefore

theorem within_concat :
    Within n (log ++ [event]) ↔ Within n log ∧ (after (held log) event).length ≤ n := by
  constructor
  · intro h
    exact ⟨h.mono (List.prefix_append _ _), by simpa using h _ List.prefix_rfl⟩
  · intro ⟨h, hlength⟩ before hbefore
    rw [List.prefix_concat_iff] at hbefore
    cases hbefore with
    | inl heq => rwa [heq, held_concat]
    | inr hbefore => exact h before hbefore

/- A release never makes more. -/
theorem within_release (h : Within n log) : Within n (log ++ [.release i]) := by
  rw [within_concat]
  refine ⟨h, ?_⟩
  have hlog := h log List.prefix_rfl
  have herase := List.length_erase_le (a := i) (l := held log)
  rw [after_release]
  omega

theorem held_nodup (h : Fresh log) : (held log).Nodup := by
  induction log using List.reverseRecOn with
  | nil => simp
  | append_singleton log event ih =>
    have hnodup := ih (h.mono (List.prefix_append _ _))
    rw [held_concat]
    cases event with
    | acquire i => exact List.nodup_cons.mpr ⟨h log i List.prefix_rfl, hnodup⟩
    | release i => exact hnodup.erase i

/- What the ledger says of one thing: acquired and released in turn, the last release missing
while it is held. -/
theorem events_of (hfresh : Fresh log) (hsound : Sound log) (i : ι) :
    ∃ n, log.filter (fun event => event.subject = i) =
      (List.replicate n [Event.acquire i, Event.release i]).flatten ++
        if i ∈ held log then [.acquire i] else [] := by
  induction log using List.reverseRecOn with
  | nil => exact ⟨0, by simp⟩
  | append_singleton log event ih =>
    have hbefore := hfresh.mono (List.prefix_append log [event])
    obtain ⟨n, hn⟩ := ih hbefore (hsound.mono (List.prefix_append _ _))
    rw [List.filter_append, hn, held_concat]
    cases event with
    | acquire j =>
      have hj : j ∉ held log := hfresh log j List.prefix_rfl
      by_cases hij : j = i
      · subst hij
        exact ⟨n, by simp [hj, Event.subject]⟩
      · have hji : i ≠ j := fun h => hij h.symm
        exact ⟨n, by simp [hij, hji, Event.subject]⟩
    | release j =>
      have hj : j ∈ held log := hsound log j List.prefix_rfl
      by_cases hij : j = i
      · subst hij
        have hgone : j ∉ (held log).erase j := (held_nodup hbefore).not_mem_erase
        refine ⟨n + 1, ?_⟩
        simp [hj, hgone, Event.subject, List.replicate_succ']
      · have hji : i ≠ j := fun h => hij h.symm
        exact ⟨n, by simp [hij, List.mem_erase_of_ne hji, Event.subject]⟩

/-- With nothing released that is not held and nothing held at the end, everything acquired has
been released exactly once. -/
theorem onceEach_of_released (hfresh : Fresh log) (hsound : Sound log) (hheld : held log = []) :
    OnceEach log := by
  intro i
  obtain ⟨n, hn⟩ := events_of hfresh hsound i
  exact ⟨n, by simpa [hheld] using hn⟩

end
end Lib.Ledger
