import ImapRs.Incremental.Laws

/-!
# What an error may say

An error that names a place should name one in the buffer, and a text in it should be one of those
the reader was written with. `Blames E lo next p`: whatever the cursor, an error of the reader `p`
is one that `E` allows over the buffer it was given. Unlike the errors themselves, where a reader
has got to matters here, so the judgment also keeps the cursor in the buffer. A loop that makes
progress has no errors but those of its rounds.

## Main definitions

* `Blames` — a bound on the errors of a reader, over the buffer it reads

## Main results

* `Blames.bind`, `Blames.peek_bind`, `Blames.iterate` — sequencing and loops
-/

namespace Incremental

open Cursor

variable {τ σ ε α β : Type}

/-- Every error of the reader is one that `E` allows, and the cursor stays in the buffer. -/
structure Blames (E : List τ → ε → Prop) (lo : ℕ) (next : Option τ) (p : Reader τ σ ε α) :
    Prop where
  bounded : Bounded lo next p
  allowed : ∀ ⦃s e⦄, s.Meets lo next → p s = .error e → E s.input e

namespace Blames

variable {E : List τ → ε → Prop} {lo : ℕ} {next : Option τ}

theorem pure (a : α) : Blames E lo next (pure a : Reader τ σ ε α) where
  bounded := .pure a
  allowed _ _ _ h := by cases h

theorem fail {e : ε} (h : ∀ x, E x e) : Blames E lo next (fail e : Reader τ σ ε α) where
  bounded := .fail e
  allowed _ _ _ h' := by
    cases h'
    exact h _

theorem ite {c : Prop} [Decidable c] {p q : Reader τ σ ε α} (hp : c → Blames E lo next p)
    (hq : ¬ c → Blames E lo next q) : Blames E lo next (if c then p else q) := by
  by_cases hc : c
  · rw [if_pos hc]
    exact hp hc
  · rw [if_neg hc]
    exact hq hc

/-- **Sequencing.** -/
theorem bind {p : Reader τ σ ε α} {q : α → Reader τ σ ε β} (hp : Blames E lo next p)
    (hq : ∀ a, Blames E lo none (q a)) : Blames E lo next (p >>= q) where
  bounded := .bind hp.bounded fun a => (hq a).bounded
  allowed s e hs h := by
    rcases run_bind_eq_error h with hpe | ⟨a, t, hpt, hqe⟩
    · exact hp.allowed hs hpe
    · have hm := hp.bounded hs hpt
      rw [← hm.input]
      exact (hq a).allowed (hs.moves hm) hqe

theorem peek_bind {inc : ε} {f : τ → Reader τ σ ε β} (hinc : ∀ x, E x inc)
    (hf : ∀ c, Blames E lo (some c) (f c)) : Blames E lo next (peek inc >>= f) where
  bounded := .peek_bind fun c => (hf c).bounded
  allowed s e hs h := by
    rcases run_bind_eq_error h with hpe | ⟨c, t, hpt, hfe⟩
    · rw [peek] at hpe
      split at hpe
      · cases hpe
      · cases hpe
        exact hinc _
    · obtain ⟨hc, rfl⟩ := peek_eq_ok hpt
      exact (hf c).allowed (hs.see hc) hfe

theorem advance_bind {c : τ} {p : Reader τ σ ε β} (hp : Blames E lo none p) :
    Blames E lo (some c) (advance >>= fun _ => p) where
  bounded := .advance_bind hp.bounded
  allowed s _ hs h :=
    hp.allowed (s := { s with pos := s.pos + 1 }) (hs.moves hs.moves_succ) h

theorem advance {c : τ} : Blames E lo (some c) (advance : Reader τ σ ε Unit) where
  bounded _ _ _ hs h := by
    cases h
    exact hs.moves_succ
  allowed _ _ _ h := by cases h

/-- The place of an item that was seen. -/
theorem position_fail {c : τ} {e : ℕ → ε} (h : ∀ x k, k < x.length → E x (e k)) :
    Blames E lo (some c) (position >>= fun k => (Incremental.fail (e k) : Reader τ σ ε α)) where
  bounded _ _ _ _ h' := by cases h'
  allowed s _ hs h' := by
    cases h'
    exact h _ _ hs.pos_lt

/-- A place to look back to. -/
theorem position_bind {f : ℕ → Reader τ σ ε β} (hf : ∀ k, Blames E k next (f k)) :
    Blames E lo next (position >>= f) where
  bounded s _ _ hs h := (hf s.pos).bounded hs.mark h
  allowed s _ hs h := (hf s.pos).allowed hs.mark h

theorem slice_bind {start : ℕ} {f : List τ → Reader τ σ ε β} (hf : ∀ v, Blames E lo next (f v)) :
    Blames E lo next (sliceFrom start >>= f) where
  bounded _ _ _ hs h := (hf _).bounded hs h
  allowed _ _ hs h := (hf _).allowed hs h

theorem tryConsume [DecidableEq τ] (c : τ) :
    Blames E lo next (tryConsume c : Reader τ σ ε Bool) where
  bounded := .tryConsume c
  allowed s e _ h := by
    rw [Incremental.tryConsume] at h
    split at h
    · split at h <;> cases h
    · cases h

theorem skipWhile (p : τ → Bool) : Blames E lo next (skipWhile p : Reader τ σ ε Unit) where
  bounded s _ _ hs h := by
    rw [skipWhile_eq] at h
    cases h
    exact ⟨rfl, le_scanStop p s, scanStop_le hs.valid⟩
  allowed s _ _ h := by
    rw [skipWhile_eq] at h
    cases h

theorem charge {f : σ → Except ε σ} (h : ∀ a e, f a = .error e → ∀ x, E x e) :
    Blames E lo next (charge f : Reader τ σ ε Unit) where
  bounded s _ _ hs hok := by
    rw [Incremental.charge] at hok
    cases hf : f s.aux with
    | error e =>
      rw [hf] at hok
      cases hok
    | ok a =>
      rw [hf] at hok
      cases hok
      exact ⟨rfl, Nat.le_refl _, hs.valid⟩
  allowed s e _ herr := by
    rw [Incremental.charge] at herr
    cases hf : f s.aux with
    | error e' =>
      rw [hf] at herr
      cases herr
      exact h _ _ hf _
    | ok a =>
      rw [hf] at herr
      cases herr

/-- A loop that makes progress, by induction on its rounds. -/
theorem iterate {stuck : ε} {body : α → Reader τ σ ε (Flow α β)} (hp : Progress lo body)
    (hbody : ∀ a, Blames E lo none (body a)) (a : α) :
    Blames E lo none (iterate stuck body a) where
  bounded := iterate_bounded (fun a => (hbody a).bounded) hp a
  allowed s e hs := by
    have hb := fun a => (hbody a).bounded
    revert e
    refine iterate_induction hb hp (motive := fun a s => ∀ e,
      Incremental.iterate stuck body a s = .error e → E s.input e) ?_ a s hs
    intro a s hs ih e h
    rw [iterate_eq hb hp hs] at h
    split at h
    next a' t hround =>
      have hm := hb a hs hround
      rw [← hm.input]
      exact ih a' t hround e h
    · cases h
    next e' hround =>
      cases h
      exact (hbody a).allowed hs hround

end Blames

end Incremental
