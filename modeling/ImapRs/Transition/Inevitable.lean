import Mathlib
import ImapRs.Transition.Reach

/-!
# What happens on every run

`Inevitably step C P s`: whichever enabled action that meets `C` is taken at each point, a run from
`s` reaches a state with `P` after finitely many steps, and does not get stuck before. No fairness
is assumed, so the rule to prove it asks for a measure that every step decreases; a run that gets
stuck refutes it.

## Main definitions

* `Inevitably` — on every run whose steps meet a condition, after finitely many steps

## Main results

* `inevitably_of_variant` — an invariant, a measure, and something to do until then
* `Inevitably.mono` — consequence
* `not_inevitably_of_stuck` — a run that gets stuck
-/

namespace Transition

variable {σ α : Type} {step : α → σ → Option σ} {C : α → σ → Prop} {P Q : σ → Prop} {s₀ s : σ}

/-- Every run whose steps meet `C` reaches a state with `P`. -/
inductive Inevitably (step : α → σ → Option σ) (C : α → σ → Prop) (P : σ → Prop) : σ → Prop
  | now {s : σ} : P s → Inevitably step C P s
  | later {s : σ} : (∃ a s', C a s ∧ step a s = some s') →
      (∀ a s', C a s → step a s = some s' → Inevitably step C P s') → Inevitably step C P s

/-- **The rule for inevitability.** -/
theorem inevitably_of_variant {I : σ → Prop} (μ : σ → ℕ)
    (hstep : ∀ {a s s'}, I s → C a s → step a s = some s' → I s')
    (hless : ∀ {a s s'}, I s → C a s → step a s = some s' → μ s' < μ s)
    (hgoal : ∀ {s}, I s → P s ∨ ∃ a s', C a s ∧ step a s = some s') (h₀ : I s₀) :
    Inevitably step C P s₀ := by
  induction hn : μ s₀ using Nat.strongRecOn generalizing s₀ with
  | _ n ih =>
    rcases hgoal h₀ with hP | henabled
    · exact .now hP
    · refine .later henabled fun a s' hC ha => ?_
      exact ih (μ s') (hn ▸ hless h₀ hC ha) (hstep h₀ hC ha) rfl

/-- A measure that every step decreases. -/
theorem inevitably_of_measure {I : σ → Prop} (μ : σ → ℕ)
    (hstep : ∀ {a s s'}, I s → C a s → step a s = some s' → I s')
    (hless : ∀ {a s s'}, step a s = some s' → μ s' < μ s)
    (hgoal : ∀ {s}, I s → P s ∨ ∃ a s', C a s ∧ step a s = some s') (h₀ : I s₀) :
    Inevitably step C P s₀ :=
  inevitably_of_variant μ hstep (fun _ _ ha => hless ha) hgoal h₀

theorem Inevitably.mono (h : Inevitably step C P s) (hPQ : ∀ s, P s → Q s) :
    Inevitably step C Q s := by
  induction h with
  | now hP => exact .now (hPQ _ hP)
  | later henabled _ ih => exact .later henabled ih

/-- What is inevitable remains so until it happens. -/
theorem Inevitably.of_reaches {t : σ} (h : Inevitably step C P s)
    (hrun : Reaches step (fun a s => C a s ∧ ¬ P s) s t) : Inevitably step C P t := by
  induction hrun with
  | start => exact h
  | next _ hC ha ih =>
    cases ih with
    | now hP => exact absurd hP hC.2
    | later _ hnext => exact hnext _ _ hC.1 ha

/-- **A run that gets stuck.** It does not pass through `P`, and nothing can be done at its end. -/
theorem not_inevitably_of_stuck {t : σ} (hrun : Reaches step (fun a s => C a s ∧ ¬ P s) s t)
    (hP : ¬ P t) (hstuck : ∀ a, step a t = none) : ¬ Inevitably step C P s := by
  intro h
  cases h.of_reaches hrun with
  | now hPt => exact hP hPt
  | later henabled _ =>
    obtain ⟨a, s', -, ha⟩ := henabled
    cases (hstuck a).symm.trans ha

end Transition
