import Mathlib

/-!
# Runs of a transition system

A system is a partial step function: an action either is not enabled or leads to one state. A run
is a sequence of enabled actions, and `Reaches step C` collects the states reached by runs all of
whose steps meet a condition `C`. What holds at the start and is kept by every such step holds in
every state reached.

## Main definitions

* `Reaches` — the states reached by steps that meet a condition
* `runMeeting` — a sequence of actions, as long as each is enabled and meets a decidable condition

## Main results

* `Reaches.invariant` — induction over runs
* `exists_reaches` — states reached by a computed run
-/

namespace Transition

variable {σ α : Type} {step : α → σ → Option σ} {C D : α → σ → Prop} {s₀ s s' : σ}

/-- The states reached from `s₀` by enabled steps that all meet `C`. -/
inductive Reaches (step : α → σ → Option σ) (C : α → σ → Prop) (s₀ : σ) : σ → Prop
  | start : Reaches step C s₀ s₀
  | next {a : α} {s s' : σ} :
      Reaches step C s₀ s → C a s → step a s = some s' → Reaches step C s₀ s'

/-- **Induction over runs.** -/
theorem Reaches.invariant {I : σ → Prop} (h₀ : I s₀)
    (hstep : ∀ {a s s'}, Reaches step C s₀ s → C a s → step a s = some s' → I s → I s')
    (h : Reaches step C s₀ s) : I s := by
  induction h with
  | start => exact h₀
  | next hs hC ha ih => exact hstep hs hC ha ih

theorem Reaches.trans (h : Reaches step C s₀ s) (h' : Reaches step C s s') :
    Reaches step C s₀ s' := by
  induction h' with
  | start => exact h
  | next _ hC ha ih => exact ih.next hC ha

/-- The actions one after the other, as long as each is enabled and meets `C`. -/
def runMeeting (step : α → σ → Option σ) (C : α → σ → Prop) [∀ a s, Decidable (C a s)] :
    List α → σ → Option σ
  | [], s => some s
  | a :: as, s => if C a s then (step a s).bind (runMeeting step C as) else none

theorem reaches_of_runMeeting [∀ a s, Decidable (C a s)] {as : List α} {s t : σ}
    (hs : Reaches step C s₀ s) (h : runMeeting step C as s = some t) : Reaches step C s₀ t := by
  induction as generalizing s with
  | nil =>
    cases h
    exact hs
  | cons a as ih =>
    rw [runMeeting] at h
    split at h
    next hC =>
      obtain ⟨s', ha, h⟩ := Option.bind_eq_some_iff.mp h
      exact ih (hs.next hC ha) h
    · cases h

/-- A computed run that ends in a state with a decidable property. -/
theorem exists_reaches [∀ a s, Decidable (C a s)] {P : σ → Prop} [DecidablePred P] {as : List α}
    (h : (runMeeting step C as s₀).any (fun s => decide (P s)) = true) :
    ∃ s, Reaches step C s₀ s ∧ P s := by
  obtain ⟨s, hs, hP⟩ := (Option.any_eq_true _ _).mp h
  exact ⟨s, reaches_of_runMeeting .start hs, of_decide_eq_true hP⟩

end Transition
