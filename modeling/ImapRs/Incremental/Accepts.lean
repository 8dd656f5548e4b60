import ImapRs.Incremental.Laws

/-!
# What a reader accepts

`Accepts next p R`: whenever `p` succeeds, the items it consumed are related by `R` to the value it
returned. This is the converse of `Reads`: there a text is given and the reader is shown to take it,
here the reader has taken a text and is asked what it was. The rules follow the combinators a
reader is put together from; a loop needs an invariant between the state of a round and what is
consumed from there on.

## Main definitions

* `Accepts` — what is consumed, and what it is taken for

## Main results

* `Accepts.bind` — sequencing
* `Accepts.token` — scanning
* `Accepts.iterate` — loops
-/

namespace Incremental

open Cursor

variable {τ σ ε α β : Type} {next : Option τ}

/-- What `p` consumes is related to what it returns. -/
def Accepts (next : Option τ) (p : Reader τ σ ε α) (R : α → List τ → Prop) : Prop :=
  ∀ ⦃s v t⦄, s.Meets 0 next → p s = .ok (v, t) → t.Valid ∧ ∃ x, s.rest = x ++ t.rest ∧ R v x

namespace Accepts

variable {p : Reader τ σ ε α} {q : α → Reader τ σ ε β} {P R : α → List τ → Prop}
  {S : β → List τ → Prop}

theorem mono (h : Accepts next p P) (hR : ∀ v x, P v x → R v x) : Accepts next p R := by
  intro s v t hs hp
  obtain ⟨hv, x, hrest, hx⟩ := h hs hp
  exact ⟨hv, x, hrest, hR v x hx⟩

theorem pure {v : α} (h : R v []) : Accepts next (pure v : Reader τ σ ε α) R := by
  intro s w t hs hp
  cases hp
  exact ⟨hs.valid, [], rfl, h⟩

theorem fail {e : ε} : Accepts next (fail e : Reader τ σ ε α) R := by
  intro s v t _ hp
  cases hp

theorem ite {c : Prop} [Decidable c] {p' : Reader τ σ ε α} (h : c → Accepts next p R)
    (h' : ¬ c → Accepts next p' R) : Accepts next (if c then p else p') R := by
  split
  next hc => exact h hc
  next hc => exact h' hc

/-- **Sequencing.** -/
theorem bind (hp : Accepts next p P)
    (hq : ∀ a x, P a x → Accepts none (q a) fun b y => S b (x ++ y)) :
    Accepts next (p >>= q) S := by
  intro s b u hs h
  obtain ⟨a, t, hpt, hqt⟩ := run_bind_eq_ok h
  obtain ⟨ht, x, hx, hP⟩ := hp hs hpt
  obtain ⟨hu, y, hy, hS⟩ := hq a x hP (.zero ht) hqt
  exact ⟨hu, x ++ y, by rw [hx, hy, List.append_assoc], hS⟩

/-- What is returned is changed. -/
theorem map (hp : Accepts next p P) {g : α → β} (hg : ∀ v x, P v x → S (g v) x) :
    Accepts next (p >>= fun v => Pure.pure (g v)) S :=
  hp.bind fun v x hv => .pure (by rw [List.append_nil]; exact hg v x hv)

theorem position_bind {f : ℕ → Reader τ σ ε β} (h : ∀ n, Accepts next (f n) S) :
    Accepts next (position >>= f) S := fun s _ _ hs hf => h s.pos hs hf

/-- What was read is kept as a slice. -/
theorem capture (hb : Bounded 0 none p) (hp : Accepts none p P) {g : ℕ → List τ → β}
    (hg : ∀ n v x, P v x → S (g n x) x) :
    Accepts next (position >>= fun start => p >>= fun _ =>
      sliceFrom start >>= fun bytes => Pure.pure (g start bytes)) S := by
  intro s b u hs h
  rw [run_position_bind] at h
  obtain ⟨v, t, hpt, hrun⟩ := run_bind_eq_ok h
  obtain ⟨ht, x, hx, hP⟩ := hp hs.forget hpt
  have hm := hb hs.forget hpt
  -- the cursor is as far behind the start as the text is long
  have hpos : t.pos = s.pos + x.length := by
    have hlen := congrArg List.length hx
    rw [s.length_rest, List.length_append, t.length_rest, hm.input] at hlen
    have hle := hm.le
    have hend := hm.pos_le
    omega
  rw [run_sliceFrom_bind, hm.input, hpos, slice_behind hx] at hrun
  cases hrun
  exact ⟨ht, x, hx, hg s.pos v x hP⟩

/-- A look at the next item. -/
theorem peek_bind {inc : ε} {f : τ → Reader τ σ ε β} (h : ∀ c, Accepts (some c) (f c) S) :
    Accepts next (peek inc >>= f) S := by
  intro s b u hs hrun
  obtain ⟨c, t, hpt, hft⟩ := run_bind_eq_ok hrun
  obtain ⟨hc, rfl⟩ := peek_eq_ok hpt
  exact h c (hs.see hc) hft

theorem advance_bind {c : τ} {f : Unit → Reader τ σ ε β}
    (h : Accepts none (f ()) fun b y => S b (c :: y)) :
    Accepts (some c) (advance >>= f) S := by
  intro s b u hs hrun
  obtain ⟨hu, y, hy, hS⟩ := h (hs.moves hs.moves_succ) hrun
  exact ⟨hu, c :: y, by rw [rest_eq_cons (hs.sees c rfl), hy, List.cons_append], hS⟩

theorem try_bind [DecidableEq τ] {c : τ} {f : Bool → Reader τ σ ε β}
    (h : Accepts none (f true) fun b y => S b (c :: y)) (h' : Accepts none (f false) S) :
    Accepts next (tryConsume c >>= f) S := by
  intro s b u hs hrun
  rw [run_tryConsume_bind] at hrun
  split at hrun
  next hc => exact advance_bind (f := fun _ => f true) h (hs.see hc) hrun
  · exact h' hs.forget hrun

theorem charge_bind {c : σ → Except ε σ} {f : Unit → Reader τ σ ε β} (h : Accepts next (f ()) S) :
    Accepts next (charge c >>= f) S := by
  intro s b u hs hrun
  obtain ⟨_, t, hct, hft⟩ := run_bind_eq_ok hrun
  rw [charge] at hct
  split at hct
  next aux _ =>
    cases hct
    exact h (s := ⟨s.input, s.pos, aux⟩) ⟨hs.valid, hs.lo_le, hs.sees⟩ hft
  · cases hct

/-- **Scanning.** The items are of one kind, and they have been judged. -/
theorem token {k : τ → Bool} {f : List τ → Option τ → Except ε α} :
    Accepts next (position >>= fun start => tokenFrom start k f : Reader τ σ ε α)
      fun v x => (∀ b ∈ x, k b = true) ∧ ∃ next, f x next = .ok v := by
  intro s v t hs h
  have hstop := moves_scanStop (p := k) hs.valid
  rw [run_position_bind, tokenFrom_eq] at h
  obtain ⟨hf, rfl⟩ := settle_eq_ok h
  have hrest := rest_eq_takeWhile_append k s
  rw [scanStop, slice_behind hrest] at hf
  exact ⟨hstop.valid, s.rest.takeWhile k, hrest, fun b hb => List.mem_takeWhile_imp hb, _, hf⟩

/-- **Loops.** `R a b x` is what is consumed from a round with `a` to the result `b`. -/
theorem iterate {stuck : ε} {body : α → Reader τ σ ε (Flow α β)} {R : α → β → List τ → Prop}
    (hb : ∀ a, Bounded 0 none (body a)) (hp : Progress 0 body)
    (hagain : ∀ a, Accepts none (body a) fun v x => ∀ a', v = .again a' →
      ∀ b y, R a' b y → R a b (x ++ y))
    (hdone : ∀ a, Accepts none (body a) fun v x => ∀ b, v = .done b → R a b x) (a : α) :
    Accepts next (Incremental.iterate stuck body a) (R a) := by
  intro s b u hs
  revert b u
  refine iterate_induction hb hp (motive := fun a s => ∀ ⦃b u⦄,
    Incremental.iterate stuck body a s = .ok (b, u) →
      u.Valid ∧ ∃ x, s.rest = x ++ u.rest ∧ R a b x) ?_ a s hs.forget
  intro a s hs ih b u hrun
  rw [iterate_eq hb hp hs] at hrun
  split at hrun
  next a' t h =>
    obtain ⟨_, x, hx, hR⟩ := hagain a hs h
    obtain ⟨hu, y, hy, hS⟩ := ih a' t h hrun
    exact ⟨hu, x ++ y, by rw [hx, hy, List.append_assoc], hR a' rfl b y hS⟩
  next h =>
    cases hrun
    obtain ⟨hu, x, hx, hR⟩ := hdone a hs h
    exact ⟨hu, x, hx, hR b rfl⟩
  · cases hrun

end Accepts

end Incremental
