import Mathlib

/-!
# Programs that may fail

A program over a state that may fail keeps the state it had reached: `ExceptT ε (StateM σ)`. The
lemmas here run such a program step by step, two judgments say what any run of it does to the
state, and one what it fails with.

## Main definitions

* `Between R p` — every run of `p` leads from a state to an `R`-related one
* `Guarded R p` — every run does, or it is refused and leaves the state as it was
* `Throws I E p` — from a state in `I`, `p` fails with nothing but errors in `E`

## Main results

* `Between.bind`, `Guarded.bind`, `Guarded.lift_bind`, `Throws.bind` — the rules for sequencing
-/

namespace Transition

variable {σ ε α β : Type} {p : ExceptT ε (StateM σ) α} {q : α → ExceptT ε (StateM σ) β}
  {R R' : σ → σ → Prop} {s s' : σ}

/-! ### Running a program -/

theorem run_bind_ok {a : α} (h : p s = (.ok a, s')) : (p >>= q) s = q a s' := by
  change (ExceptT.bind p q) s = _
  simp only [ExceptT.bind, ExceptT.mk, bind, StateT.bind, h]
  rfl

theorem run_bind_error {e : ε} (h : p s = (.error e, s')) : (p >>= q) s = (.error e, s') := by
  change (ExceptT.bind p q) s = _
  simp only [ExceptT.bind, ExceptT.mk, bind, StateT.bind, h]
  rfl

/-- A sequence that succeeds is two successes. -/
theorem run_bind_eq_ok {b : β} (h : (p >>= q) s = (.ok b, s')) :
    ∃ a t, p s = (.ok a, t) ∧ q a t = (.ok b, s') := by
  match hrun : p s with
  | (.error e, t) =>
    rw [run_bind_error hrun] at h
    cases h
  | (.ok a, t) =>
    rw [run_bind_ok hrun] at h
    exact ⟨a, t, rfl, h⟩

theorem run_map (f : α → β) (p : ExceptT ε (StateM σ) α) (s : σ) :
    (f <$> p) s = ((p s).1.map f, (p s).2) := by
  rw [map_eq_pure_bind]
  match hrun : p s with
  | (.error e, s') => exact run_bind_error hrun
  | (.ok a, s') => exact run_bind_ok hrun

theorem run_get_bind {q : σ → ExceptT ε (StateM σ) β} : (get >>= q) s = q s s := rfl

theorem run_lift (x : Except ε α) : (liftM x : ExceptT ε (StateM σ) α) s = (x, s) := by
  cases x <;> rfl

theorem run_lift_eq_ok {a : α} {x : Except ε α}
    (h : (liftM x : ExceptT ε (StateM σ) α) s = (.ok a, s')) : x = .ok a ∧ s = s' := by
  rw [run_lift] at h
  cases h
  exact ⟨rfl, rfl⟩

theorem run_lift_bind_ok {a : α} {x : Except ε α} (h : x = .ok a) :
    ((liftM x : ExceptT ε (StateM σ) α) >>= q) s = q a s :=
  run_bind_ok (by rw [run_lift, h])

theorem run_lift_bind_error {e : ε} {x : Except ε α} (h : x = .error e) :
    ((liftM x : ExceptT ε (StateM σ) α) >>= q) s = (.error e, s) :=
  run_bind_error (by rw [run_lift, h])

/-! ### What runs do to the state -/

/-- Every run leads from a state to an `R`-related one. -/
def Between (R : σ → σ → Prop) (p : ExceptT ε (StateM σ) α) : Prop := ∀ s, R s (p s).2

/-- Every run leads to an `R`-related state, or is refused and changes nothing. -/
def Guarded (R : σ → σ → Prop) (p : ExceptT ε (StateM σ) α) : Prop :=
  ∀ s, (∃ e, p s = (.error e, s)) ∨ R s (p s).2

/-- Sequencing, where what was reached is kept. -/
theorem Between.bind (htrans : ∀ {a b c}, R a b → R' b c → R a c) (hp : Between R p)
    (hq : ∀ a, Between R' (q a)) : Between R (p >>= q) := by
  intro s
  have hps := hp s
  match hrun : p s with
  | (.error e, s') =>
    rw [hrun] at hps
    rw [run_bind_error hrun]
    exact hps
  | (.ok a, s') =>
    rw [hrun] at hps
    rw [run_bind_ok hrun]
    exact htrans hps (hq a s')

/-- Once a run is past its first part, the rest need not be refusable. -/
theorem Guarded.bind (htrans : ∀ {a b c}, R a b → R' b c → R a c) (hp : Guarded R p)
    (hq : ∀ a, Between R' (q a)) : Guarded R (p >>= q) := by
  intro s
  have hps := hp s
  match hrun : p s with
  | (.error e, s') =>
    rw [hrun] at hps
    rw [run_bind_error hrun]
    rcases hps with ⟨e', he'⟩ | hR
    · cases he'
      exact .inl ⟨e, rfl⟩
    · exact .inr hR
  | (.ok a, s') =>
    rw [hrun] at hps
    rw [run_bind_ok hrun]
    rcases hps with ⟨e', he'⟩ | hR
    · cases he'
    · exact .inr (htrans hR (hq a s'))

/-- A check in front of a program. -/
theorem Guarded.lift_bind {x : Except ε α} (hq : ∀ a, x = .ok a → Guarded R (q a)) :
    Guarded R ((liftM x : ExceptT ε (StateM σ) α) >>= q) := by
  intro s
  cases hx : x with
  | error e => exact .inl ⟨e, run_lift_bind_error rfl⟩
  | ok a =>
    have hqa := hq a hx s
    rwa [run_lift_bind_ok rfl]

theorem Guarded.throw (e : ε) : Guarded R (throw e : ExceptT ε (StateM σ) α) :=
  fun _ => .inl ⟨e, rfl⟩

theorem Guarded.ite {c : Prop} [Decidable c] {p' : ExceptT ε (StateM σ) α} (h : c → Guarded R p)
    (h' : ¬ c → Guarded R p') : Guarded R (if c then p else p') := by
  by_cases hc : c
  · rw [if_pos hc]
    exact h hc
  · rw [if_neg hc]
    exact h' hc

/-! ### What runs fail with -/

section Throws

variable {I : σ → Prop} {E : ε → Prop}

/-- From a state in `I`, a run stays in `I`, and if it fails, then with an error in `E`. -/
def Throws (I : σ → Prop) (E : ε → Prop) (p : ExceptT ε (StateM σ) α) : Prop :=
  ∀ s, I s → I (p s).2 ∧ ∀ e, (p s).1 = .error e → E e

theorem Throws.pure (a : α) : Throws I E (pure a : ExceptT ε (StateM σ) α) :=
  fun _ hs => ⟨hs, fun _ h => by cases h⟩

theorem Throws.throw {e : ε} (h : E e) : Throws I E (throw e : ExceptT ε (StateM σ) α) := by
  refine fun _ hs => ⟨hs, fun _ h' => ?_⟩
  cases h'
  exact h

theorem Throws.lift {x : Except ε α} (h : ∀ e, x = .error e → E e) :
    Throws I E (liftM x : ExceptT ε (StateM σ) α) := by
  intro s hs
  rw [run_lift]
  exact ⟨hs, h⟩

/-- Sequencing, where the second part may rely on what the first returned. -/
theorem Throws.bind_of (hp : Throws I E p)
    (hq : ∀ s a s', I s → p s = (.ok a, s') → Throws I E (q a)) : Throws I E (p >>= q) := by
  intro s hs
  obtain ⟨hI, hE⟩ := hp s hs
  match hrun : p s with
  | (.error e, s') =>
    rw [hrun] at hI hE
    rw [run_bind_error hrun]
    refine ⟨hI, fun e' h => ?_⟩
    cases h
    exact hE e rfl
  | (.ok a, s') =>
    rw [hrun] at hI
    rw [run_bind_ok hrun]
    exact hq s a s' hs hrun s' hI

/-- Sequencing. -/
theorem Throws.bind (hp : Throws I E p) (hq : ∀ a, Throws I E (q a)) : Throws I E (p >>= q) :=
  hp.bind_of fun _ a _ _ _ => hq a

/-- What is read is a state in `I`. -/
theorem Throws.get_bind {q : σ → ExceptT ε (StateM σ) β} (hq : ∀ s, I s → Throws I E (q s)) :
    Throws I E (get >>= q) := by
  intro s hs
  rw [run_get_bind]
  exact hq s hs s hs

theorem Throws.ite {c : Prop} [Decidable c] {p' : ExceptT ε (StateM σ) α} (h : c → Throws I E p)
    (h' : ¬ c → Throws I E p') : Throws I E (if c then p else p') := by
  by_cases hc : c
  · rw [if_pos hc]
    exact h hc
  · rw [if_neg hc]
    exact h' hc

theorem Throws.set {s' : σ} (h : I s') : Throws I E (set s' : ExceptT ε (StateM σ) PUnit) :=
  fun _ _ => ⟨h, fun _ h => by cases h⟩

theorem Throws.modify {f : σ → σ} (h : ∀ s, I s → I (f s)) :
    Throws I E (modify f : ExceptT ε (StateM σ) PUnit) :=
  fun s hs => ⟨h s hs, fun _ h => by cases h⟩

end Throws

end Transition
