import ImapRs.Incremental.Laws

/-!
# Readers that can go wrong

The readers of `Cursor` are total: a slice with its bounds out of order is the empty list, a
position may lie anywhere, and a loop that does not move runs out of fuel. A program has no such
luck. Here the same operations stop the run with a *fault* where the program would panic, move its
cursor where it must not, or go round a loop for ever.

`Refines c p` says that `c`, which may fault, computes exactly what `p` does, and in particular
that it does not fault.

## Main definitions

* `Fault`, `Stop` — how a run ends without a value
* `sum`, `diff`, `moveTo`, `moveBy`, `sliceOf`, `slice`, `loop` — operations that check themselves
* `Refines` — the checked reader is the plain one

## Main results

* `Refines.bind`, `Refines.loop` — the rules a checked reader is compared by
-/

namespace Incremental

open Cursor

variable {τ σ ε α β : Type}

/-- What a run must not do. -/
inductive Fault where
  /-- Add up to more than a machine word holds. -/
  | overflow
  /-- Subtract below zero. -/
  | underflow
  /-- Take a slice whose bounds are out of order, or beyond the buffer. -/
  | bounds
  /-- Move the cursor back, or out of the buffer. -/
  | cursor
  /-- Go round a loop without having made progress. -/
  | spin
  deriving DecidableEq, Repr

/-- How a run ends without a value: by a fault, or by an error of its own. -/
inductive Stop (ε : Type) where
  | fault (f : Fault)
  | error (e : ε)
  deriving DecidableEq, Repr

/-- A result that did not come about by a fault. -/
def Stop.lift : Except ε α → Except (Stop ε) α
  | .ok a => .ok a
  | .error e => .error (.error e)

/-! ### Operations that check themselves -/

/-- `a + b` in words of at most `max`. -/
def sum (max a b : ℕ) : Reader τ σ (Stop ε) ℕ :=
  if a + b ≤ max then pure (a + b) else fail (.fault .overflow)

/-- `a - b`. -/
def diff (a b : ℕ) : Reader τ σ (Stop ε) ℕ :=
  if b ≤ a then pure (a - b) else fail (.fault .underflow)

/-- Put the cursor on `p`. -/
def moveTo (p : ℕ) : Reader τ σ (Stop ε) Unit := fun s =>
  if s.pos ≤ p ∧ p ≤ s.input.length then .ok ((), { s with pos := p })
  else .error (.fault .cursor)

/-- `pos += n`. -/
def moveBy (max n : ℕ) : Reader τ σ (Stop ε) Unit := do
  let p ← sum max (← position) n
  moveTo p

/-- `l[a..b]`. -/
def sliceOf (l : List τ) (a b : ℕ) : Reader τ σ (Stop ε) (List τ) :=
  if a ≤ b ∧ b ≤ l.length then pure ((l.take b).drop a) else fail (.fault .bounds)

/-- `input[a..b]`. -/
def slice (a b : ℕ) : Reader τ σ (Stop ε) (List τ) := fun s => sliceOf s.input a b s

/-- `input[a..pos]`. -/
def sliceToPos (a : ℕ) : Reader τ σ (Stop ε) (List τ) := do slice a (← position)

/-- `input.len()`. -/
def inputLen : Reader τ σ ε ℕ := fun s => .ok (s.input.length, s)

/-- `input.get(i)`. -/
def get (i : ℕ) : Reader τ σ ε (Option τ) := fun s => .ok (s.input[i]?, s)

/-- At most `fuel` rounds of `body`; a round that goes on has moved the cursor. -/
def loopN (body : α → Reader τ σ (Stop ε) (Flow α β)) : ℕ → α → Reader τ σ (Stop ε) β
  | 0, _ => fail (.fault .spin)
  | fuel + 1, a => do
    let before ← position
    match ← body a with
    | .again a' => if before < (← position) then loopN body fuel a' else fail (.fault .spin)
    | .done b => pure b

/-- Repeat `body` until it is done. A cursor that moves on every round leaves the buffer after as
many rounds as there are items left, so running out of them is a fault too. -/
def loop (body : α → Reader τ σ (Stop ε) (Flow α β)) (a : α) : Reader τ σ (Stop ε) β := fun s =>
  loopN body (s.input.length - s.pos + 1) a s

/-! ### Refinement -/

/-- On every buffer that fits into memory, `c` computes what `p` computes, and does not fault. -/
def Refines (max lo : ℕ) (next : Option τ) (c : Reader τ σ (Stop ε) α) (p : Reader τ σ ε α) :
    Prop :=
  ∀ ⦃s⦄, s.Meets lo next → s.input.length ≤ max → c s = Stop.lift (p s)

namespace Refines

variable {max lo : ℕ} {next : Option τ}

theorem pure (a : α) : Refines max lo next (pure a : Reader τ σ (Stop ε) α) (pure a) :=
  fun _ _ _ => rfl

theorem fail (e : ε) :
    Refines max lo next (fail (.error e) : Reader τ σ (Stop ε) α) (fail e) := fun _ _ _ => rfl

theorem ite {d : Prop} [Decidable d] {c c' : Reader τ σ (Stop ε) α} {p p' : Reader τ σ ε α}
    (h : Refines max lo next c p) (h' : Refines max lo next c' p') :
    Refines max lo next (if d then c else c') (if d then p else p') := by
  split
  · exact h
  · exact h'

theorem weaken {c : Reader τ σ (Stop ε) α} {p : Reader τ σ ε α} (h : Refines max lo none c p) :
    Refines max lo next c p := fun _ hs hmax => h hs.forget hmax

/-- **Sequencing.** -/
theorem bind {c : Reader τ σ (Stop ε) α} {p : Reader τ σ ε α}
    {c' : α → Reader τ σ (Stop ε) β} {q : α → Reader τ σ ε β} (h : Refines max lo next c p)
    (hb : Bounded lo next p) (h' : ∀ a, Refines max lo none (c' a) (q a)) :
    Refines max lo next (c >>= c') (p >>= q) := by
  intro s hs hmax
  rw [run_bind, run_bind, h hs hmax]
  cases hp : p s with
  | error e => rfl
  | ok r =>
    have hm := hb hs (show p s = .ok (r.1, r.2) from hp)
    exact h' r.1 (hs.moves hm) (by rw [hm.input]; exact hmax)

theorem peek_bind {inc : ε} {f : τ → Reader τ σ (Stop ε) β} {g : τ → Reader τ σ ε β}
    (h : ∀ d, Refines max lo (some d) (f d) (g d)) :
    Refines max lo next (peek (.error inc) >>= f) (peek inc >>= g) := by
  intro s hs hmax
  rw [run_bind, run_bind, peek, peek]
  cases hd : s.input[s.pos]? with
  | none => rfl
  | some d => exact h d (hs.see hd) hmax

theorem position_bind {f : ℕ → Reader τ σ (Stop ε) β} {g : ℕ → Reader τ σ ε β}
    (h : ∀ start, Refines max start next (f start) (g start)) :
    Refines max lo next (position >>= f) (position >>= g) :=
  fun s hs hmax => h s.pos hs.mark hmax

/-- Where the cursor is may be compared with a mark, as long as it stays one. -/
theorem here_bind {f : ℕ → Reader τ σ (Stop ε) β} {g : ℕ → Reader τ σ ε β}
    (h : ∀ here, Refines max lo next (f here) (g here)) :
    Refines max lo next (position >>= f) (position >>= g) :=
  fun s hs hmax => h s.pos hs hmax

theorem moveBy_run {s : Cursor τ σ} {n : ℕ} (hle : s.pos + n ≤ s.input.length)
    (hmax : s.input.length ≤ max) :
    (moveBy max n : Reader τ σ (Stop ε) Unit) s = .ok ((), { s with pos := s.pos + n }) := by
  have hsum : s.pos + n ≤ max := Nat.le_trans hle hmax
  rw [moveBy, run_position_bind, run_bind, sum, if_pos hsum, run_pure]
  exact if_pos ⟨Nat.le_add_right _ _, hle⟩

/-- Moving past an item that was seen. -/
theorem advance_bind {d : τ} {f : Unit → Reader τ σ (Stop ε) β} {q : Unit → Reader τ σ ε β}
    (h : ∀ a, Refines max lo none (f a) (q a)) :
    Refines max lo (some d) (moveBy max 1 >>= f) (advance >>= q) := by
  intro s hs hmax
  rw [run_bind, moveBy_run hs.pos_lt hmax]
  exact h () (hs.moves hs.moves_succ) hmax

theorem sliceToPos_run {s : Cursor τ σ} (hs : s.Meets lo next) :
    (sliceToPos lo : Reader τ σ (Stop ε) (List τ)) s
      = .ok ((s.input.take s.pos).drop lo, s) := by
  rw [sliceToPos, run_position_bind, slice, sliceOf, if_pos ⟨hs.lo_le, hs.valid⟩]
  rfl

/-- A slice from a mark to the cursor. -/
theorem slice_bind {f : List τ → Reader τ σ (Stop ε) β} {g : List τ → Reader τ σ ε β}
    (h : ∀ v, Refines max lo next (f v) (g v)) :
    Refines max lo next (sliceToPos lo >>= f) (sliceFrom lo >>= g) := by
  intro s hs hmax
  rw [run_bind, sliceToPos_run hs]
  exact h _ hs hmax

/-! ### Loops -/

theorem loopN_run {stuck : ε} {body : α → Reader τ σ (Stop ε) (Flow α β)}
    {body' : α → Reader τ σ ε (Flow α β)} (h : ∀ a, Refines max lo none (body a) (body' a))
    (hb : ∀ a, Bounded lo none (body' a)) (hp : Progress lo body') :
    ∀ (fuel : ℕ) (a : α) (s : Cursor τ σ), s.Meets lo none → s.input.length ≤ max →
      s.input.length - s.pos < fuel →
      loopN body fuel a s = Stop.lift (iterateN stuck body' fuel a s) := by
  intro fuel
  induction fuel with
  | zero => exact fun _ _ _ _ hfuel => absurd hfuel (Nat.not_lt_zero _)
  | succ fuel ih =>
    intro a s hs hmax hfuel
    rw [loopN, iterateN_succ, run_position_bind, run_bind, h a hs hmax]
    cases hbody : body' a s with
    | error e => rfl
    | ok r =>
      obtain ⟨r, t⟩ := r
      cases r with
      | done b => rfl
      | again a' =>
        have hm := hb a hs hbody
        have hlt := hp a hs hbody
        have hle := hm.pos_le
        have hgo : (if s.pos < t.pos then loopN body fuel a'
            else Incremental.fail (.fault .spin) : Reader τ σ (Stop ε) β) t
            = Stop.lift (iterateN stuck body' fuel a' t) := by
          rw [if_pos hlt]
          exact ih a' t (hs.moves hm) (by rw [hm.input]; exact hmax) (by rw [hm.input]; omega)
        exact hgo

/-- **Loops.** Every round that goes on moves the cursor, so none of them spins. -/
theorem loop {stuck : ε} {body : α → Reader τ σ (Stop ε) (Flow α β)}
    {body' : α → Reader τ σ ε (Flow α β)} (h : ∀ a, Refines max lo none (body a) (body' a))
    (hb : ∀ a, Bounded lo none (body' a)) (hp : Progress lo body') (a : α) :
    Refines max lo next (loop body a) (iterate stuck body' a) :=
  fun s hs hmax => loopN_run h hb hp _ a s hs.forget hmax (Nat.lt_succ_self _)

end Refines

end Incremental
