import ImapRs.Incremental.Cursor

/-!
# The errors of a reader

`Raises E p`: whatever the cursor, an error of the reader `p` is in `E`. Errors come from the
primitives, so a sequence or a loop has the errors of its parts and no others.

## Main definitions

* `Raises` — a bound on the errors of a reader

## Main results

* `Raises.bind`, `Raises.iterate` — sequencing and loops
-/

namespace Incremental

open Cursor

variable {τ σ ε α β : Type} {E : ε → Prop}

/-- Every error of the reader is in `E`. -/
def Raises (E : ε → Prop) (p : Reader τ σ ε α) : Prop := ∀ ⦃s e⦄, p s = .error e → E e

namespace Raises

theorem pure (a : α) : Raises E (pure a : Reader τ σ ε α) := by
  intro s e h
  cases h

theorem fail {e : ε} (h : E e) : Raises E (fail e : Reader τ σ ε α) := by
  intro s e' h'
  cases h'
  exact h

theorem advance : Raises E (advance : Reader τ σ ε Unit) := by
  intro s e h
  cases h

theorem position : Raises E (position : Reader τ σ ε ℕ) := by
  intro s e h
  cases h

theorem sliceFrom (start : ℕ) : Raises E (sliceFrom start : Reader τ σ ε (List τ)) := by
  intro s e h
  cases h

theorem peek {inc : ε} (h : E inc) : Raises E (peek inc : Reader τ σ ε τ) := by
  intro s e h'
  rw [Incremental.peek] at h'
  split at h'
  · cases h'
  · cases h'
    exact h

theorem ite {c : Prop} [Decidable c] {p q : Reader τ σ ε α} (hp : Raises E p) (hq : Raises E q) :
    Raises E (if c then p else q) := by
  split
  · exact hp
  · exact hq

/-- **Sequencing.** -/
theorem bind {p : Reader τ σ ε α} {q : α → Reader τ σ ε β} (hp : Raises E p)
    (hq : ∀ a, Raises E (q a)) : Raises E (p >>= q) := by
  intro s e h
  cases hps : p s with
  | error e' =>
    rw [run_bind_error hps] at h
    cases h
    exact hp hps
  | ok r =>
    obtain ⟨a, t⟩ := r
    rw [run_bind_ok hps] at h
    exact hq a h

/-- A loop, by induction on its fuel. -/
theorem iterate {stuck : ε} {body : α → Reader τ σ ε (Flow α β)} (hstuck : E stuck)
    (hbody : ∀ a, Raises E (body a)) (a : α) : Raises E (iterate stuck body a) := by
  have hfuel : ∀ (n : ℕ) (a : α), Raises E (iterateN stuck body n a) := by
    intro n
    induction n with
    | zero => exact fun _ => .fail hstuck
    | succ n ih =>
      intro a
      refine .bind (hbody a) fun r => ?_
      cases r with
      | again a' => exact ih a'
      | done b => exact .pure b
  exact fun s e h => hfuel _ a h

end Raises

end Incremental
