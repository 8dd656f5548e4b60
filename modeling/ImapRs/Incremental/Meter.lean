import ImapRs.Incremental.Laws

/-!
# Readers on a budget

A reader may keep a counter in its auxiliary state and give up when the counter runs out. How such
a reader fares on a smaller budget is known from its run on a larger one: it ends the same way as
long as what was spent fits, and gives up otherwise.

What was spent is read off the result. `Metered c w p` says that `p` adds `w v - c` to the bill when
it returns `v`: `w` weighs results, and `c` is what had been paid for before (the elements already
collected by a loop).

## Main definitions

* `Meter` — a counter in the auxiliary state, and the error of an empty one
* `Blind` — readers that do not look at the counter
* `Metered` — readers whose bill is the weight of their result
* `Solvent` — readers for which one unit for each item of the buffer is enough

## Main results

* `Metered.bind`, `Metered.iterate` — bills add up
* `Solvent.bind`, `Solvent.iterate` — and never exceed what there is to read
-/

namespace Incremental

variable {τ σ ε α β : Type}

/-- A counter in the auxiliary state. -/
structure Meter (σ ε : Type) where
  get : σ → ℕ
  set : ℕ → σ → σ
  /-- The error of a budget that is used up. -/
  overrun : ε
  get_set : ∀ n a, get (set n a) = n
  set_set : ∀ n m a, set n (set m a) = set n a
  set_get : ∀ a, set (get a) a = a

namespace Meter

variable (M : Meter σ ε)

/-- One unit, or `overrun`. -/
def cost (a : σ) : Except ε σ :=
  match M.get a with
  | 0 => .error M.overrun
  | n + 1 => .ok (M.set n a)

/-- The cursor with `n` units left. -/
def fill (n : ℕ) (s : Cursor τ σ) : Cursor τ σ := { s with aux := M.set n s.aux }

/-- The units left. -/
def left (s : Cursor τ σ) : ℕ := M.get s.aux

@[simp] theorem fill_input (n : ℕ) (s : Cursor τ σ) : (M.fill n s).input = s.input := rfl
@[simp] theorem fill_pos (n : ℕ) (s : Cursor τ σ) : (M.fill n s).pos = s.pos := rfl
@[simp] theorem left_fill (n : ℕ) (s : Cursor τ σ) : M.left (M.fill n s) = n := M.get_set n s.aux
@[simp] theorem fill_rest (n : ℕ) (s : Cursor τ σ) : (M.fill n s).rest = s.rest := rfl

@[simp] theorem fill_fill (n m : ℕ) (s : Cursor τ σ) : M.fill n (M.fill m s) = M.fill n s := by
  simp [fill, M.set_set]

@[simp] theorem fill_left (s : Cursor τ σ) : M.fill (M.left s) s = s := by
  simp [fill, left, M.set_get]

theorem charge_fill_zero (s : Cursor τ σ) :
    (charge M.cost : Reader τ σ ε Unit) (M.fill 0 s) = .error M.overrun := by
  rw [charge, cost, show (M.fill 0 s).aux = M.set 0 s.aux from rfl, M.get_set]

theorem charge_fill_succ (n : ℕ) (s : Cursor τ σ) :
    (charge M.cost : Reader τ σ ε Unit) (M.fill (n + 1) s) = .ok ((), M.fill n s) := by
  rw [charge, cost, show (M.fill (n + 1) s).aux = M.set (n + 1) s.aux from rfl, M.get_set]
  simp only [fill, M.set_set]

end Meter

variable {M : Meter σ ε}

/-! ### Readers that do not look at the counter -/

/-- `p` neither reads nor changes the counter, does not complain about it, and does not go back. -/
structure Blind (M : Meter σ ε) (p : Reader τ σ ε α) : Prop where
  run : ∀ (s : Cursor τ σ) (n : ℕ), p (M.fill n s) = (p s).map fun r => (r.1, M.fill n r.2)
  le : ∀ ⦃s v t⦄, p s = .ok (v, t) → s.pos ≤ t.pos
  spares : ∀ s, p s ≠ .error M.overrun

namespace Blind

theorem pure (a : α) : Blind M (pure a : Reader τ σ ε α) :=
  ⟨fun _ _ => rfl, fun _ _ _ h => by cases h; exact Nat.le_refl _, fun _ h => nomatch h⟩

theorem fail {e : ε} (he : e ≠ M.overrun) : Blind M (fail e : Reader τ σ ε α) :=
  ⟨fun _ _ => rfl, fun _ _ _ h => (nomatch h), fun _ h => he (Except.error.inj h)⟩

theorem bind {p : Reader τ σ ε α} {q : α → Reader τ σ ε β} (hp : Blind M p)
    (hq : ∀ a, Blind M (q a)) : Blind M (p >>= q) where
  run s n := by
    rw [run_bind, run_bind, hp.run]
    cases p s with
    | error e => rfl
    | ok r => exact (hq r.1).run r.2 n
  le s v u h := by
    obtain ⟨a, t, hp', hq'⟩ := run_bind_eq_ok h
    exact Nat.le_trans (hp.le hp') ((hq a).le hq')
  spares s h := by
    rcases run_bind_eq_error h with hp' | ⟨a, t, -, hq'⟩
    · exact hp.spares s hp'
    · exact (hq a).spares t hq'

theorem ite {c : Prop} [Decidable c] {p q : Reader τ σ ε α} (hp : Blind M p) (hq : Blind M q) :
    Blind M (if c then p else q) := by
  split
  · exact hp
  · exact hq

/-- A reader that looks at the buffer and moves on, or not. -/
theorem of_input {p : Reader τ σ ε α} (f : List τ → ℕ → Except ε (α × ℕ))
    (h : ∀ s, p s = (f s.input s.pos).map fun r => (r.1, { s with pos := r.2 }))
    (hle : ∀ x i v j, f x i = .ok (v, j) → i ≤ j) (hspares : ∀ x i, f x i ≠ .error M.overrun) :
    Blind M p where
  run s n := by
    rw [h, h]
    simp only [Meter.fill_input, Meter.fill_pos]
    cases f s.input s.pos <;> rfl
  le s v t hr := by
    rw [h] at hr
    cases hf : f s.input s.pos with
    | error e =>
      rw [hf] at hr
      cases hr
    | ok r =>
      rw [hf] at hr
      cases hr
      exact hle _ _ _ _ hf
  spares s hr := by
    rw [h] at hr
    cases hf : f s.input s.pos with
    | error e =>
      rw [hf] at hr
      cases hr
      exact hspares _ _ hf
    | ok r =>
      rw [hf] at hr
      cases hr

theorem position : Blind M (position : Reader τ σ ε ℕ) :=
  of_input (fun _ i => .ok (i, i)) (fun _ => rfl) (fun _ _ _ _ h => by cases h; exact Nat.le_refl _)
    fun _ _ h => nomatch h

theorem advance : Blind M (advance : Reader τ σ ε Unit) :=
  of_input (fun _ i => .ok ((), i + 1)) (fun _ => rfl)
    (fun _ i _ _ h => by cases h; exact Nat.le_succ i) fun _ _ h => nomatch h

theorem sliceFrom (start : ℕ) : Blind M (sliceFrom start : Reader τ σ ε (List τ)) :=
  of_input (fun x i => .ok ((x.take i).drop start, i)) (fun _ => rfl)
    (fun _ _ _ _ h => by cases h; exact Nat.le_refl _) fun _ _ h => nomatch h

theorem peek {inc : ε} (hinc : inc ≠ M.overrun) : Blind M (peek inc : Reader τ σ ε τ) := by
  refine of_input (fun x i => x[i]?.elim (.error inc) fun c => .ok (c, i)) (fun s => ?_)
    (fun x i v j h => ?_) fun x i h => ?_
  · rw [Incremental.peek]
    cases s.input[s.pos]? <;> rfl
  · cases hx : x[i]? with
    | none => rw [hx] at h; cases h
    | some c =>
      rw [hx] at h
      cases h
      exact Nat.le_refl _
  · cases hx : x[i]? with
    | none => rw [hx] at h; exact hinc (Except.error.inj h)
    | some c => rw [hx] at h; cases h

theorem tryConsume [DecidableEq τ] (c : τ) : Blind M (tryConsume c : Reader τ σ ε Bool) := by
  refine of_input (fun x i => if x[i]? = some c then .ok (true, i + 1) else .ok (false, i))
    (fun s => ?_) (fun x i v j h => ?_) fun x i h => ?_
  · rw [Incremental.tryConsume]
    cases s.input[s.pos]? with
    | none => rfl
    | some d => by_cases hd : d = c <;> simp [hd, Except.map]
  · split at h <;> cases h
    · exact Nat.le_succ i
    · exact Nat.le_refl _
  · split at h <;> cases h

theorem skipWhile (p : τ → Bool) : Blind M (skipWhile p : Reader τ σ ε Unit) :=
  of_input (fun x i => .ok ((), i + ((x.drop i).takeWhile p).length)) (fun s => skipWhile_eq p s)
    (fun _ i _ _ h => by cases h; exact Nat.le_add_right i _) fun _ _ h => nomatch h

theorem iterateN {stuck : ε} {body : α → Reader τ σ ε (Flow α β)} (hstuck : stuck ≠ M.overrun)
    (h : ∀ a, Blind M (body a)) :
    ∀ (fuel : ℕ) (a : α), Blind M (iterateN stuck body fuel a) := by
  intro fuel
  induction fuel with
  | zero => exact fun a => fail hstuck
  | succ fuel ih =>
    intro a
    refine (h a).bind fun r => ?_
    cases r with
    | again a' => exact ih a'
    | done b => exact pure b

theorem iterate {stuck : ε} {body : α → Reader τ σ ε (Flow α β)} (hstuck : stuck ≠ M.overrun)
    (h : ∀ a, Blind M (body a)) (a : α) : Blind M (iterate stuck body a) where
  run s n := (iterateN hstuck h _ a).run s n
  le _ _ _ hr := (iterateN hstuck h _ a).le hr
  spares s hr := (iterateN hstuck h _ a).spares s hr

end Blind

/-! ### Readers whose bill is the weight of their result -/

/-- The weight of what a round of a loop returns. -/
def Flow.weight (wa : α → ℕ) (wb : β → ℕ) : Flow α β → ℕ
  | .again a => wa a
  | .done b => wb b

/-- `p`, of which `c` has been paid for, spends what its result weighs beyond that: on a smaller
budget it ends the same way, or gives up, and it gives up when the result does not fit. No result
weighs more than what was read. -/
def Metered (M : Meter σ ε) (c : ℕ) (w : α → ℕ) (p : Reader τ σ ε α) : Prop :=
  ∀ (s : Cursor τ σ) (n N : ℕ), n ≤ N →
    match p (M.fill N s) with
    | .ok (v, t) => c ≤ w v ∧ w v + s.pos ≤ c + t.pos ∧ M.left t + w v = N + c ∧
        p (M.fill n s) = if w v ≤ n + c then .ok (v, M.fill (n + c - w v) t) else .error M.overrun
    | .error e => p (M.fill n s) = .error e ∨ p (M.fill n s) = .error M.overrun

namespace Metered

variable {c : ℕ}

/-- What a successful run says about the same run on a smaller budget. -/
theorem ok {w : α → ℕ} {p : Reader τ σ ε α} (h : Metered M c w p)
    {s t : Cursor τ σ} {n N : ℕ} {v : α}
    (hle : n ≤ N) (hr : p (M.fill N s) = .ok (v, t)) :
    c ≤ w v ∧ w v + s.pos ≤ c + t.pos ∧ M.left t + w v = N + c ∧
      p (M.fill n s)
        = if w v ≤ n + c then .ok (v, M.fill (n + c - w v) t) else .error M.overrun := by
  have := h s n N hle
  rwa [hr] at this

theorem error {w : α → ℕ} {p : Reader τ σ ε α} (h : Metered M c w p)
    {s : Cursor τ σ} {n N : ℕ} {e : ε}
    (hle : n ≤ N) (hr : p (M.fill N s) = .error e) :
    p (M.fill n s) = .error e ∨ p (M.fill n s) = .error M.overrun := by
  have := h s n N hle
  rwa [hr] at this

/-- Readers that do not look at the counter spend nothing. -/
theorem blind {p : Reader τ σ ε α} (h : Blind M p) (c : ℕ) : Metered M c (fun _ => c) p := by
  intro s n N _
  rw [h.run s N, h.run s n]
  cases hp : p s with
  | error e => exact .inl rfl
  | ok r =>
    have hle := h.le (show p s = .ok (r.1, r.2) from hp)
    refine ⟨Nat.le_refl c, Nat.add_le_add_left hle c, by simp, ?_⟩
    rw [if_pos (Nat.le_add_left c n), Nat.add_sub_cancel]
    simp [Except.map]

theorem pure {w : α → ℕ} (a : α) (h : w a = c) : Metered M c w (pure a : Reader τ σ ε α) := by
  subst h
  exact fun s n N hle => blind (.pure a) (w a) s n N hle

theorem fail {w : α → ℕ} (e : ε) : Metered M c w (fail e : Reader τ σ ε α) :=
  fun _ _ _ _ => .inl rfl

theorem ite {d : Prop} [Decidable d] {w : α → ℕ} {p q : Reader τ σ ε α} (hp : Metered M c w p)
    (hq : Metered M c w q) : Metered M c w (if d then p else q) := by
  split
  · exact hp
  · exact hq

/-- **Bills add up.** -/
theorem bind {w : α → ℕ} {w' : β → ℕ} {p : Reader τ σ ε α} {q : α → Reader τ σ ε β}
    (hp : Metered M c w p) (hq : ∀ a, Metered M (w a) w' (q a)) : Metered M c w' (p >>= q) := by
  intro s n N hle
  rw [run_bind, run_bind]
  cases hrun : p (M.fill N s) with
  | error e =>
    rcases hp.error hle hrun with h | h <;> rw [h]
    · exact .inl rfl
    · exact .inr rfl
  | ok r =>
    obtain ⟨a, t⟩ := r
    obtain ⟨hc, hpos, hleft, hsmall⟩ := hp.ok hle hrun
    have ht : t = M.fill (M.left t) t := (M.fill_left t).symm
    by_cases hfit : w a ≤ n + c
    · rw [if_pos hfit] at hsmall
      rw [hsmall]
      have hle' : n + c - w a ≤ M.left t := by omega
      simp only
      cases hrun' : q a t with
      | error e =>
        rw [ht] at hrun'
        rcases (hq a).error hle' hrun' with h | h
        · exact .inl h
        · exact .inr h
      | ok r' =>
        obtain ⟨b, u⟩ := r'
        rw [ht] at hrun'
        obtain ⟨hc', hpos', hleft', hsmall'⟩ := (hq a).ok hle' hrun'
        refine ⟨Nat.le_trans hc hc', by omega, by omega, ?_⟩
        rw [hsmall']
        have hsame : n + c - w a + w a = n + c := by omega
        rw [hsame]
    · rw [if_neg hfit] at hsmall
      rw [hsmall]
      simp only
      cases hrun' : q a t with
      | error e => exact .inr trivial
      | ok r' =>
        obtain ⟨b, u⟩ := r'
        rw [ht] at hrun'
        obtain ⟨hc', hpos', hleft', -⟩ := (hq a).ok (Nat.le_refl _) hrun'
        refine ⟨Nat.le_trans hc hc', by omega, by omega, ?_⟩
        rw [if_neg (by omega)]

/-- A reader that spends nothing, and then another. -/
theorem blind_bind {w : β → ℕ} {p : Reader τ σ ε α} {q : α → Reader τ σ ε β} (hp : Blind M p)
    (hq : ∀ a, Metered M c w (q a)) : Metered M c w (p >>= q) :=
  (blind hp c).bind hq

/-- More had been paid for before. -/
theorem shift {w : α → ℕ} {p : Reader τ σ ε α} (h : Metered M c w p) (k : ℕ) :
    Metered M (k + c) (fun v => k + w v) p := by
  intro s n N hle
  cases hrun : p (M.fill N s) with
  | error e => exact h.error hle hrun
  | ok r =>
    obtain ⟨hc, hpos, hleft, hsmall⟩ := h.ok hle hrun
    change k + c ≤ k + w r.1 ∧ k + w r.1 + s.pos ≤ k + c + r.2.pos ∧
      M.left r.2 + (k + w r.1) = N + (k + c) ∧ _
    refine ⟨by omega, by omega, by omega, ?_⟩
    rw [hsmall]
    have hfit : w r.1 ≤ n + c ↔ k + w r.1 ≤ n + (k + c) := by omega
    have hrest : n + c - w r.1 = n + (k + c) - (k + w r.1) := by omega
    simp only [hfit, hrest]

/-- An element that was read is charged one unit; it was at least one item long. -/
theorem charged {w : α → ℕ} {p : Reader τ σ ε α} (h : Metered M c w p)
    (hlt : ∀ ⦃s v t⦄, p s = .ok (v, t) → w v + 1 + s.pos ≤ c + t.pos) :
    Metered M c (fun v => w v + 1) (p >>= fun v => charge M.cost >>= fun _ => Pure.pure v) := by
  intro s n N hle
  rw [run_bind, run_bind]
  cases hrun : p (M.fill N s) with
  | error e =>
    rcases h.error hle hrun with hs | hs <;> rw [hs]
    · exact .inl rfl
    · exact .inr rfl
  | ok r =>
    obtain ⟨v, t⟩ := r
    obtain ⟨hc, -, hleft, hsmall⟩ := h.ok hle hrun
    have hpos := hlt hrun
    rw [M.fill_pos] at hpos
    rw [hsmall]
    simp only
    -- what is left after the element, on either budget
    rw [← M.fill_left t]
    cases hN : M.left t with
    | zero =>
      rw [run_bind, M.charge_fill_zero]
      refine .inr ?_
      split
      next hr =>
        split at hr <;> cases hr
        rw [M.fill_fill, show n + c - w v = 0 by omega, run_bind, M.charge_fill_zero]
      next hr => split at hr <;> cases hr; rfl
    | succ m =>
      rw [run_bind, M.charge_fill_succ]
      change c ≤ w v + 1 ∧ w v + 1 + s.pos ≤ c + t.pos ∧ M.left (M.fill m t) + (w v + 1) = N + c ∧ _
      rw [M.left_fill]
      refine ⟨by omega, hpos, by omega, ?_⟩
      split
      next hr =>
        split at hr <;> cases hr
        cases hn : n + c - w v with
        | zero => rw [M.fill_fill, run_bind, M.charge_fill_zero, if_neg (by omega)]
        | succ k =>
          rw [M.fill_fill, run_bind, M.charge_fill_succ, if_pos (by omega), M.fill_fill,
            show n + c - (w v + 1) = k by omega]
          rfl
      next hr =>
        split at hr <;> cases hr
        rw [if_neg (by omega)]

/-- An element, its charge, and what is done with it. -/
theorem item_bind {w : α → ℕ} {w' : β → ℕ} {p : Reader τ σ ε α} {q : α → Reader τ σ ε β}
    (hp : Metered M c w p) (hlt : ∀ ⦃s v t⦄, p s = .ok (v, t) → w v + 1 + s.pos ≤ c + t.pos)
    (hq : ∀ a, Metered M (w a + 1) w' (q a)) :
    Metered M c w' (p >>= fun a => charge M.cost >>= fun _ => q a) := by
  have hsplit : (p >>= fun a => charge M.cost >>= fun _ => q a)
      = (p >>= fun a => charge M.cost >>= fun _ => Pure.pure a) >>= q := by
    simp only [bind_assoc, pure_bind]
  rw [hsplit]
  exact (hp.charged hlt).bind hq

theorem iterateN {stuck : ε} {wa : α → ℕ} {wb : β → ℕ} {body : α → Reader τ σ ε (Flow α β)}
    (h : ∀ a, Metered M (wa a) (Flow.weight wa wb) (body a)) :
    ∀ (fuel : ℕ) (a : α), Metered M (wa a) wb (iterateN stuck body fuel a) := by
  intro fuel
  induction fuel with
  | zero => exact fun a => fail stuck
  | succ fuel ih =>
    intro a
    refine (h a).bind fun r => ?_
    cases r with
    | again a' => exact ih a'
    | done b => exact pure b rfl

theorem iterate {stuck : ε} {wa : α → ℕ} {wb : β → ℕ} {body : α → Reader τ σ ε (Flow α β)}
    (h : ∀ a, Metered M (wa a) (Flow.weight wa wb) (body a)) (a : α) :
    Metered M (wa a) wb (iterate stuck body a) :=
  fun s n N hle => iterateN h _ a s n N hle

/-- What is left and what was read make up for each other. -/
theorem left_add_pos_le {w : α → ℕ} {p : Reader τ σ ε α} (h : Metered M c w p) {s t : Cursor τ σ}
    {v : α} (hr : p s = .ok (v, t)) : M.left s + s.pos ≤ M.left t + t.pos := by
  rw [← M.fill_left s] at hr
  obtain ⟨-, hpos, hleft, -⟩ := h.ok (Nat.le_refl _) hr
  omega

end Metered

/-! ### Budgets that last -/

/-- A budget of one unit for each item of the buffer is enough. -/
def Solvent (M : Meter σ ε) (lo : ℕ) (next : Option τ) (p : Reader τ σ ε α) : Prop :=
  ∀ ⦃s⦄, s.Meets lo next → p s = .error M.overrun → M.left s + s.pos < s.input.length

namespace Solvent

variable {lo : ℕ} {next : Option τ} {c : ℕ}

theorem blind {p : Reader τ σ ε α} (h : Blind M p) : Solvent M lo next p :=
  fun s _ hr => absurd hr (h.spares s)

theorem ite {d : Prop} [Decidable d] {p q : Reader τ σ ε α} (hp : Solvent M lo next p)
    (hq : Solvent M lo next q) : Solvent M lo next (if d then p else q) := by
  split
  · exact hp
  · exact hq

theorem bind {w : α → ℕ} {p : Reader τ σ ε α} {q : α → Reader τ σ ε β} (hb : Bounded lo next p)
    (hw : Metered M c w p) (hp : Solvent M lo next p) (hq : ∀ a, Solvent M lo none (q a)) :
    Solvent M lo next (p >>= q) := by
  intro s hs herr
  rcases run_bind_eq_error herr with hpe | ⟨a, t, hpt, hqe⟩
  · exact hp hs hpe
  · have hm := hb hs hpt
    have hlt := hq a (hs.moves hm) hqe
    have hle := hw.left_add_pos_le hpt
    rw [hm.input] at hlt
    omega

/-- A reader that spends nothing, and then another. -/
theorem blind_bind {p : Reader τ σ ε α} {q : α → Reader τ σ ε β} (hb : Bounded lo next p)
    (hp : Blind M p) (hq : ∀ a, Solvent M lo none (q a)) : Solvent M lo next (p >>= q) :=
  bind hb (.blind hp 0) (blind hp) hq

theorem position_bind {f : ℕ → Reader τ σ ε β} (hf : ∀ start, Solvent M start next (f start)) :
    Solvent M lo next (position >>= f) :=
  fun s hs herr => hf s.pos hs.mark herr

/-- An element is paid for after it was read. -/
theorem item_bind {w : α → ℕ} {p : Reader τ σ ε α} {q : α → Reader τ σ ε β} (hb : Bounded lo next p)
    (hw : Metered M c w p) (hlt : ∀ ⦃s v t⦄, p s = .ok (v, t) → w v + 1 + s.pos ≤ c + t.pos)
    (hp : Solvent M lo next p) (hq : ∀ a, Solvent M lo none (q a)) :
    Solvent M lo next (p >>= fun a => charge M.cost >>= fun _ => q a) := by
  intro s hs herr
  rcases run_bind_eq_error herr with hpe | ⟨a, t, hpt, hce⟩
  · exact hp hs hpe
  · have hm := hb hs hpt
    have hvalid := hm.pos_le
    have hread := hlt hpt
    have hleft : M.left t + w a = M.left s + c := by
      have hpt' := hpt
      rw [← M.fill_left s] at hpt'
      exact (hw.ok (Nat.le_refl _) hpt').2.2.1
    rw [← M.fill_left t] at hce
    cases hn : M.left t with
    | zero => omega
    | succ n =>
      rw [hn, run_bind, M.charge_fill_succ] at hce
      have hmeets := hs.moves hm
      have hspent := hq a (s := M.fill n t) ⟨hmeets.valid, hmeets.lo_le, hmeets.sees⟩ hce
      rw [M.left_fill, M.fill_pos, M.fill_input, hm.input] at hspent
      omega

theorem iterateN {stuck : ε} {wa : α → ℕ} {wb : β → ℕ} {body : α → Reader τ σ ε (Flow α β)}
    (hstuck : stuck ≠ M.overrun) (hb : ∀ a, Bounded lo none (body a))
    (hw : ∀ a, Metered M (wa a) (Flow.weight wa wb) (body a))
    (h : ∀ a, Solvent M lo none (body a)) :
    ∀ (fuel : ℕ) (a : α), Solvent M lo none (iterateN stuck body fuel a) := by
  intro fuel
  induction fuel with
  | zero => exact fun a => blind (.fail hstuck)
  | succ fuel ih =>
    intro a
    refine bind (hb a) (hw a) (h a) fun r => ?_
    cases r with
    | again a' => exact ih a'
    | done b => exact blind (.pure b)

theorem iterate {stuck : ε} {wa : α → ℕ} {wb : β → ℕ} {body : α → Reader τ σ ε (Flow α β)}
    (hstuck : stuck ≠ M.overrun) (hb : ∀ a, Bounded lo none (body a))
    (hw : ∀ a, Metered M (wa a) (Flow.weight wa wb) (body a))
    (h : ∀ a, Solvent M lo none (body a)) (a : α) :
    Solvent M lo next (Incremental.iterate stuck body a) :=
  fun _ hs herr => iterateN hstuck hb hw h _ a hs.forget herr

end Solvent

end Incremental
