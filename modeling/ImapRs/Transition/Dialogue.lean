import ImapRs.Transition.Fallible

/-!
# Programs that ask

A program that asks questions and goes on according to the answers. What the questions mean is kept
apart from the programs, and is given in two ways. A handler answers a question from a state. An
environment may give one of many answers, and changes as it does.

A handler can stand for an environment if it is told beforehand what the environment will turn out
to answer. What it is told is an oracle, and an environment that has come to a certain point limits
what the oracle may have said. Looked at backwards, a step of the environment lifts a limit, so that
an oracle that fits the end of a run fits every point of it.

## Main definitions

* `Dialogue` — a program that asks
* `Dialogue.eval`, `Dialogue.interp` — its run with a handler
* `Dialogue.Plays` — its runs in an environment
* `Dialogue.Asks` — what a program may ask

## Main results

* `Dialogue.interp_bind` — a handler runs the parts of a program one after the other
* `Dialogue.Plays.eval` — a run in an environment is that of a handler with a fitting oracle
-/

namespace Transition

variable {Q : Type} {A : Q → Type} {α β ε σ τ : Type}

/-- A program over the questions `Q`, where the answers to `q` are those of type `A q`. -/
inductive Dialogue (A : Q → Type) (α : Type) where
  | done (a : α)
  | ask (q : Q) (k : A q → Dialogue A α)

namespace Dialogue

/-- One program after the other. -/
def bind : Dialogue A α → (α → Dialogue A β) → Dialogue A β
  | .done a, f => f a
  | .ask q k, f => .ask q fun b => (k b).bind f

instance : Monad (Dialogue A) where
  pure := .done
  bind := bind

/-- A question on its own. -/
def lift (q : Q) : Dialogue A (A q) := .ask q .done

/-! ### Questions -/

/-- All that the program asks meets `P`. -/
inductive Asks (P : Q → Prop) : Dialogue A α → Prop
  | done {a : α} : Asks P (.done a)
  | ask {q : Q} {k : A q → Dialogue A α} : P q → (∀ b, Asks P (k b)) → Asks P (.ask q k)

theorem Asks.bind {P : Q → Prop} {p : Dialogue A α} {f : α → Dialogue A β}
    (hp : p.Asks P) (hf : ∀ a, (f a).Asks P) : (p >>= f).Asks P := by
  induction hp with
  | done => exact hf _
  | ask hq _ ih => exact .ask hq ih

/-! ### Handlers -/

section Handler

variable (h : ∀ q, StateM σ (A q))

/-- The run of a program whose questions `h` answers. -/
def eval : Dialogue A α → StateM σ α
  | .done a, s => (a, s)
  | .ask q k, s => (k (h q s).1).eval (h q s).2

/-- The run of a program that may fail. -/
def interp (p : ExceptT ε (Dialogue A) α) : ExceptT ε (StateM σ) α := fun s => p.run.eval h s

theorem eval_bind (p : Dialogue A α) (f : α → Dialogue A β) (s : σ) :
    (p >>= f).eval h s = (f (p.eval h s).1).eval h (p.eval h s).2 := by
  induction p generalizing s with
  | done a => rfl
  | ask q k ih => exact ih (h q s).1 (h q s).2

theorem interp_pure (a : α) :
    interp h (pure a : ExceptT ε (Dialogue A) α) = (pure a : ExceptT ε (StateM σ) α) := rfl

theorem interp_throw (e : ε) :
    interp h (throw e : ExceptT ε (Dialogue A) α) = (throw e : ExceptT ε (StateM σ) α) := rfl

/-- **Sequencing.** -/
theorem interp_bind (p : ExceptT ε (Dialogue A) α) (f : α → ExceptT ε (Dialogue A) β) :
    interp h (p >>= f) = interp h p >>= fun a => interp h (f a) := by
  funext s
  have hbind : interp h (p >>= f) s
      = ((ExceptT.bindCont f (p.run.eval h s).1 : Dialogue A (Except ε β)).eval h
          (p.run.eval h s).2) := eval_bind h p.run (ExceptT.bindCont f) s
  rw [hbind]
  cases hrun : p.run.eval h s with
  | mk r s' =>
    cases r with
    | ok a =>
      rw [run_bind_ok (show interp h p s = (.ok a, s') from hrun)]
      rfl
    | error e =>
      rw [run_bind_error (show interp h p s = (.error e, s') from hrun)]
      rfl

theorem interp_lift (x : Except ε α) :
    interp h (liftM x : ExceptT ε (Dialogue A) α) = (liftM x : ExceptT ε (StateM σ) α) := rfl

theorem interp_ite {c : Prop} [Decidable c] (p p' : ExceptT ε (Dialogue A) α) :
    interp h (if c then p else p') = if c then interp h p else interp h p' := by
  split <;> rfl

end Handler

/-! ### Environments -/

/-- `serves q t b t'`: in the state `t`, the environment may answer `q` with `b`, and is in `t'`
then. From there it goes on with the rest of the program. -/
inductive Plays (serves : ∀ q, τ → A q → τ → Prop) : Dialogue A α → τ → α → τ → Prop
  | done {a : α} {t : τ} : Plays serves (.done a) t a t
  | ask {q : Q} {k : A q → Dialogue A α} {t t' t'' : τ} {b : A q} {r : α} :
      serves q t b t' → Plays serves (k b) t' r t'' → Plays serves (.ask q k) t r t''

section Foresight

variable {serves : ∀ q, τ → A q → τ → Prop} {I : τ → Prop}

/-- What every answer keeps, a program keeps. -/
theorem Plays.invariant (hkeep : ∀ {q t b t'}, I t → serves q t b t' → I t') {p : Dialogue A α}
    {t t' : τ} {r : α} (hp : Plays serves p t r t') (ht : I t) : I t' := by
  induction hp with
  | done => exact ht
  | ask hserve _ ih => exact ih (hkeep ht hserve)

/-- What the answers to these questions keep, the program keeps. -/
theorem Plays.invariant_of_asks {P : Q → Prop}
    (hkeep : ∀ {q t b t'}, P q → I t → serves q t b t' → I t')
    {p : Dialogue A α} {t t' : τ} {r : α} (hp : p.Plays serves t r t') (hasks : p.Asks P)
    (ht : I t) : I t' := by
  induction hp with
  | done => exact ht
  | ask hserve _ ih =>
    cases hasks with
    | ask hq hrest => exact ih (hrest _) (hkeep hq ht hserve)

variable {O : Type} {Fits : τ → O → Prop} {view : τ → O → σ} {h : ∀ q, StateM σ (A q)}

/-- **Foresight.** Let `view t o` be the handler's state for the environment `t`, when the oracle
has said `o`. If the handler gives each answer of the environment, provided the oracle fits what
comes of it, then it runs every program as the environment does. -/
theorem Plays.eval (hkeep : ∀ {q t b t'}, I t → serves q t b t' → I t')
    (hserve : ∀ {q t b t' o}, I t → serves q t b t' → Fits t' o →
      Fits t o ∧ h q (view t o) = (b, view t' o))
    {p : Dialogue A α} {t t' : τ} {r : α} {o : O} (hp : Plays serves p t r t') (ht : I t)
    (ho : Fits t' o) : Fits t o ∧ p.eval h (view t o) = (r, view t' o) := by
  induction hp with
  | done => exact ⟨ho, rfl⟩
  | ask hq _ ih =>
    obtain ⟨hfits, hrest⟩ := ih (hkeep ht hq) ho
    obtain ⟨hfits, hq⟩ := hserve ht hq hfits
    refine ⟨hfits, ?_⟩
    rw [Dialogue.eval, hq]
    exact hrest

end Foresight

end Dialogue

end Transition
