import ImapRs.Incremental.Laws
import Mathlib

/-!
# Readers assembled from a kit

`Assembled K lo next p` says that `p` is put together from the primitives of a kit `K` by the
combinators whose laws are in `Laws`. A grammar is walked through once, to show that each of its
productions is assembled; every law of productions is then one induction over `Assembled`, with
one case for each combinator, and the laws of the kit's own primitives as hypotheses.

`K.Step` says which items a production may step over one at a time. It does not matter for the
laws here, but it is what a law about the *contents* of the consumed items is about.

## What a run consumed

A `Trace` relates the items a run consumed, and where they began, to the auxiliary state before
and after it. If the kit's primitives keep to a trace that composes, so does everything assembled
from them.

## Auxiliary state that decides nothing

Two auxiliary states may be related so that the costs and the primitives of the kit cannot tell
them apart. Then nothing assembled from the kit can.

## Main results

* `Assembled.lawful` — assembled readers are lawful
* `Assembled.simulates` — related auxiliary states give the same results
* `Assembled.traces` — assembled readers keep to the trace of their kit
-/

namespace Incremental

open Cursor

variable {τ σ ε α β : Type}

/-- What productions are assembled from. -/
structure Kit (τ σ ε : Type) where
  /-- The error that asks for more input. -/
  inc : ε
  /-- The error of a loop that makes no progress. -/
  stuck : ε
  /-- What a list element costs. -/
  cost : σ → Except ε σ
  /-- The items that may be stepped over one at a time. -/
  Step : τ → Prop
  /-- The primitive readers, each with the mark it may look back to. -/
  Prim : ℕ → {α : Type} → Reader τ σ ε α → Prop

/-- `p`, started at or after the mark `lo` and with `next` under the cursor, is assembled from
the kit. -/
inductive Assembled (K : Kit τ σ ε) : ℕ → Option τ → {α : Type} → Reader τ σ ε α → Prop
  | prim {lo : ℕ} {next : Option τ} {α : Type} {p : Reader τ σ ε α} :
      K.Prim lo p → Assembled K lo next p
  | pure {lo : ℕ} {next : Option τ} {α : Type} (a : α) : Assembled K lo next (pure a)
  | fail {lo : ℕ} {next : Option τ} {α : Type} {e : ε} :
      e ≠ K.inc → Assembled K lo next (fail e : Reader τ σ ε α)
  | peek {lo : ℕ} {next : Option τ} {β : Type} {f : τ → Reader τ σ ε β} :
      (∀ c, Assembled K lo (some c) (f c)) → Assembled K lo next (peek K.inc >>= f)
  | advance {lo : ℕ} {c : τ} {β : Type} {p : Reader τ σ ε β} :
      K.Step c → Assembled K lo none p → Assembled K lo (some c) (advance >>= fun _ => p)
  | position {lo : ℕ} {next : Option τ} {β : Type} {f : ℕ → Reader τ σ ε β} :
      (∀ start, Assembled K start next (f start)) → Assembled K lo next (position >>= f)
  | slice {lo : ℕ} {next : Option τ} {β : Type} {f : List τ → Reader τ σ ε β} :
      (∀ v, Assembled K lo next (f v)) → Assembled K lo next (sliceFrom lo >>= f)
  | attempt [DecidableEq τ] {lo : ℕ} {next : Option τ} {β : Type} {c : τ}
      {f : Bool → Reader τ σ ε β} :
      K.Step c → (∀ b, Assembled K lo none (f b)) → Patient K.inc (f false) →
      Assembled K lo next (tryConsume c >>= f)
  | token {lo : ℕ} {next : Option τ} {α : Type} {p : τ → Bool}
      {f : List τ → Option τ → Except ε α} :
      (∀ c, p c = true → K.Step c) → (∀ bs e, f bs none = .error e → e = K.inc) →
      (∀ bs c e, f bs (some c) = .error e → e ≠ K.inc) →
      Assembled K lo next (tokenFrom lo p f)
  | charge {lo : ℕ} {next : Option τ} {β : Type} {p : Reader τ σ ε β} :
      Assembled K lo next p → Assembled K lo next (charge K.cost >>= fun _ => p)
  | bind {lo : ℕ} {next : Option τ} {α β : Type} {p : Reader τ σ ε α} {q : α → Reader τ σ ε β} :
      Assembled K lo next p → (∀ a, Assembled K lo none (q a)) →
      (Firm lo next p ∨ ∀ a, Patient K.inc (q a)) → Assembled K lo next (p >>= q)
  | item {lo : ℕ} {next : Option τ} {α β : Type} {p : Reader τ σ ε α} {q : α → Reader τ σ ε β} :
      Assembled K lo next p → Soft K.inc lo next p → (∀ a, Assembled K lo none (q a)) →
      (∀ a, Patient K.inc (q a)) →
      Assembled K lo next (p >>= fun a => Incremental.charge K.cost >>= fun _ => q a)
  | loop {lo : ℕ} {next : Option τ} {α β : Type} {body : α → Reader τ σ ε (Flow α β)} {a : α} :
      (∀ a, Assembled K lo none (body a)) → Progress lo body → (∀ a, Patient K.inc (body a)) →
      Assembled K lo next (iterate K.stuck body a)

theorem Assembled.ite {K : Kit τ σ ε} {c : Prop} [Decidable c] {lo : ℕ} {next : Option τ}
    {p q : Reader τ σ ε α} (hp : Assembled K lo next p) (hq : Assembled K lo next q) :
    Assembled K lo next (if c then p else q) := by
  split
  · exact hp
  · exact hq

/-- The hypotheses on a kit under which everything assembled from it is lawful. -/
structure Kit.Sound (K : Kit τ σ ε) : Prop where
  cost_ne : ∀ a e, K.cost a = .error e → e ≠ K.inc
  prim : ∀ lo {α : Type} (p : Reader τ σ ε α), K.Prim lo p → Lawful K.inc lo none p

/-- **Assembled readers are lawful.** -/
theorem Assembled.lawful {K : Kit τ σ ε} (hK : K.Sound) {lo : ℕ} {next : Option τ}
    {p : Reader τ σ ε α} (h : Assembled K lo next p) : Lawful K.inc lo next p := by
  induction h with
  | prim hp => exact (hK.prim _ _ hp).weaken
  | pure a => exact .pure a
  | fail he => exact .fail he
  | peek _ ih => exact .peek_bind ih
  | advance _ _ ih => exact .advance_bind ih
  | position _ ih => exact .position_bind ih
  | slice _ ih => exact .slice_bind ih
  | attempt _ _ hpat ih => exact .try_bind ih hpat
  | token _ hf _ => exact .token hf
  | charge _ ih => exact .charge_bind hK.cost_ne ih
  | bind _ _ h ihp ihq => exact .bind ihp ihq h
  | item _ hsoft _ hpat ihp ihq => exact .item_bind hK.cost_ne ihp hsoft ihq hpat
  | loop _ hprog hpat ih => exact .iterate ih hprog hpat _

/-! ### What a run consumed -/

namespace Cursor

/-- The items from the cursor up to `n`. -/
def upTo (s : Cursor τ σ) (n : ℕ) : List τ := (s.input.take n).drop s.pos

@[simp] theorem upTo_pos (s : Cursor τ σ) : s.upTo s.pos = [] := by simp [upTo]

theorem length_upTo {s : Cursor τ σ} {n : ℕ} (h : n ≤ s.input.length) :
    (s.upTo n).length = n - s.pos := by
  rw [upTo, List.length_drop, List.length_take, Nat.min_eq_left h]

theorem upTo_append {s t : Cursor τ σ} (hm : s.Moves t) {n : ℕ} (hn : t.pos ≤ n) :
    s.upTo n = s.upTo t.pos ++ t.upTo n := by
  have hle := hm.le
  have hlen := hm.pos_le
  have htake : s.input.take t.pos = (s.input.take n).take t.pos := by
    rw [List.take_take, Nat.min_eq_left hn]
  rw [upTo, upTo, upTo, hm.input, htake]
  conv_lhs => rw [← List.take_append_drop t.pos (s.input.take n)]
  rw [List.drop_append_of_le_length]
  simp only [List.length_take]
  omega

/-- A scan consumes the items it accepts. -/
theorem upTo_scanStop (p : τ → Bool) (s : Cursor τ σ) :
    s.upTo (scanStop p s) = s.rest.takeWhile p := by
  rw [upTo, List.drop_take, scanStop, Nat.add_sub_cancel_left]
  exact (List.prefix_iff_eq_take.mp (List.takeWhile_prefix p)).symm

theorem upTo_succ {s : Cursor τ σ} {c : τ} (h : s.input[s.pos]? = some c) :
    s.upTo (s.pos + 1) = [c] := by
  have hlt := (List.getElem?_eq_some_iff.mp h).1
  rw [upTo, List.take_add_one, h, List.drop_append_of_le_length (by rw [List.length_take]; omega)]
  simp

end Cursor

/-- A relation between the items a run consumed, the position where they begin, and the auxiliary
state before and after. -/
abbrev Trace (τ σ : Type) := ℕ → List τ → σ → σ → Prop

/-- Every success of `p` keeps to the trace. -/
def Traces (R : Trace τ σ) (lo : ℕ) (next : Option τ) (p : Reader τ σ ε α) : Prop :=
  ∀ ⦃s v t⦄, s.Meets lo next → p s = .ok (v, t) → R s.pos (s.upTo t.pos) s.aux t.aux

/-- A trace that composes and that the primitives of the kit keep to. -/
structure Kit.Keeps (K : Kit τ σ ε) (R : Trace τ σ) : Prop where
  nil : ∀ n a, R n [] a a
  append : ∀ {n xs ys a b c}, R n xs a b → R (n + xs.length) ys b c → R n (xs ++ ys) a c
  step : ∀ n a {c}, K.Step c → R n [c] a a
  cost : ∀ n {a b}, K.cost a = .ok b → R n [] a b
  prim : ∀ lo {α : Type} (p : Reader τ σ ε α), K.Prim lo p → Traces R lo none p

section Trace

variable {K : Kit τ σ ε} {R : Trace τ σ} {lo : ℕ} {next : Option τ}

theorem Kit.Keeps.trans (hR : K.Keeps R) {s t u : Cursor τ σ} (hm : s.Moves t) (hm' : t.Moves u)
    (h : R s.pos (s.upTo t.pos) s.aux t.aux) (h' : R t.pos (t.upTo u.pos) t.aux u.aux) :
    R s.pos (s.upTo u.pos) s.aux u.aux := by
  rw [upTo_append hm hm'.le]
  refine hR.append h ?_
  rwa [length_upTo hm.pos_le, Nat.add_sub_cancel' hm.le]

theorem Kit.Keeps.steps (hR : K.Keeps R) (n : ℕ) (a : σ) {xs : List τ}
    (h : ∀ c ∈ xs, K.Step c) : R n xs a a := by
  induction xs generalizing n with
  | nil => exact hR.nil n a
  | cons c cs ih =>
    exact hR.append (hR.step n a (h c List.mem_cons_self))
      (ih (n + 1) fun d hd => h d (List.mem_cons_of_mem _ hd))

theorem Traces.bind (hR : K.Keeps R) {p : Reader τ σ ε α} {q : α → Reader τ σ ε β}
    (hb : Bounded lo next p) (hp : Traces R lo next p) (hbq : ∀ a, Bounded lo none (q a))
    (hq : ∀ a, Traces R lo none (q a)) : Traces R lo next (p >>= q) := by
  intro s v u hs hok
  obtain ⟨a, t, hpt, hqt⟩ := run_bind_eq_ok hok
  have hm := hb hs hpt
  exact hR.trans hm (hbq a (hs.moves hm) hqt) (hp hs hpt) (hq a (hs.moves hm) hqt)

theorem Traces.charge_bind (hR : K.Keeps R) {p : Reader τ σ ε β} (hp : Traces R lo next p) :
    Traces R lo next (charge K.cost >>= fun _ => p) := by
  intro s v u hs hok
  obtain ⟨_, t, hct, hpt⟩ := run_bind_eq_ok hok
  rw [charge] at hct
  split at hct
  next aux haux =>
    cases hct
    exact hR.append (hR.cost s.pos haux) (hp (s := { s with aux := aux })
      ⟨hs.valid, hs.lo_le, hs.sees⟩ hpt)
  · cases hct

theorem Traces.iterate (hR : K.Keeps R) {body : α → Reader τ σ ε (Flow α β)}
    (hb : ∀ a, Bounded lo none (body a)) (hprog : Progress lo body)
    (hbody : ∀ a, Traces R lo none (body a)) (a : α) :
    Traces R lo next (Incremental.iterate K.stuck body a) := by
  intro s v u hs
  revert v u
  refine iterate_induction hb hprog (motive := fun a s => ∀ v u,
    Incremental.iterate K.stuck body a s = .ok (v, u) → R s.pos (s.upTo u.pos) s.aux u.aux)
    ?_ a s hs.forget
  intro a s hs ih v u hok
  rw [iterate_eq hb hprog hs] at hok
  split at hok
  next a' t h =>
    have hm := hb a hs h
    exact hR.trans hm (iterate_bounded hb hprog a' (hs.moves hm) hok) (hbody a hs h)
      (ih a' t h v u hok)
  next b t h => cases hok; exact hbody a hs h
  · cases hok

/-- **Assembled readers keep to the trace of their kit.** -/
theorem Assembled.traces (hK : K.Sound) (hR : K.Keeps R) {p : Reader τ σ ε α}
    (h : Assembled K lo next p) : Traces R lo next p := by
  induction h with
  | prim hp => exact fun _ _ _ hs => hR.prim _ _ hp hs.forget
  | pure a =>
    intro s v t _ hok
    cases hok
    rw [upTo_pos]
    exact hR.nil _ _
  | fail _ => exact fun _ _ _ _ hok => nomatch hok
  | peek _ ih =>
    intro s v u hs hok
    obtain ⟨c, t, hpt, hft⟩ := run_bind_eq_ok hok
    obtain ⟨hc, rfl⟩ := peek_eq_ok hpt
    exact ih c (hs.see hc) hft
  | advance hc hp ih =>
    intro s v u hs hok
    have hm := hs.moves_succ
    refine hR.trans hm ((hp.lawful hK).bounded (hs.moves hm) hok) ?_ (ih (hs.moves hm) hok)
    rw [upTo_succ (hs.sees _ rfl)]
    exact hR.step _ _ hc
  | position _ ih => exact fun s _ _ hs hok => ih s.pos hs.mark hok
  | slice _ ih => exact fun _ _ _ hs hok => ih _ hs hok
  | attempt hc hf _ ih =>
    intro s v u hs hok
    rw [run_tryConsume_bind] at hok
    split at hok
    next hsees =>
      have hm := (hs.see hsees).moves_succ
      refine hR.trans hm (((hf true).lawful hK).bounded (hs.moves hm) hok) ?_
        (ih true (hs.moves hm) hok)
      rw [upTo_succ hsees]
      exact hR.step _ _ hc
    · exact ih false hs.forget hok
  | token hp _ _ =>
    intro s v t hs hok
    rw [tokenFrom_eq] at hok
    obtain ⟨_, rfl⟩ := settle_eq_ok hok
    refine hR.steps _ _ fun c hc => hp c ?_
    rw [upTo_scanStop] at hc
    exact List.mem_takeWhile_imp hc
  | charge _ ih => exact ih.charge_bind hR
  | bind hp hq _ ihp ihq =>
    exact .bind hR (hp.lawful hK).bounded ihp (fun a => ((hq a).lawful hK).bounded) ihq
  | item hp _ hq _ ihp ihq =>
    refine .bind hR (hp.lawful hK).bounded ihp (fun a => ?_) fun a => (ihq a).charge_bind hR
    exact .bind (charge_bounded _) fun _ => ((hq a).lawful hK).bounded
  | loop hbody hprog _ ih =>
    exact .iterate hR (fun a => ((hbody a).lawful hK).bounded) hprog ih _

end Trace

/-! ### Auxiliary state that decides nothing -/

/-- Started in a related auxiliary state, `p` has the same success. -/
def Simulates (R : σ → σ → Prop) (lo : ℕ) (next : Option τ) (p : Reader τ σ ε α) : Prop :=
  ∀ ⦃s v t a⦄, s.Meets lo next → R s.aux a → p s = .ok (v, t) →
    ∃ a', R t.aux a' ∧ p { s with aux := a } = .ok (v, { t with aux := a' })

/-- The costs and the primitives of the kit cannot tell related states apart. -/
structure Kit.Respects (K : Kit τ σ ε) (R : σ → σ → Prop) : Prop where
  cost : ∀ {a b a'}, R a b → K.cost a = .ok a' → ∃ b', R a' b' ∧ K.cost b = .ok b'
  prim : ∀ lo {α : Type} (p : Reader τ σ ε α), K.Prim lo p → Simulates R lo none p

section Simulation

variable {K : Kit τ σ ε} {R : σ → σ → Prop} {lo : ℕ} {next : Option τ}

theorem Cursor.Meets.withAux {s : Cursor τ σ} (hs : s.Meets lo next) (a : σ) :
    ({ s with aux := a } : Cursor τ σ).Meets lo next :=
  ⟨hs.valid, hs.lo_le, hs.sees⟩

theorem Simulates.bind {p : Reader τ σ ε α} {q : α → Reader τ σ ε β} (hb : Bounded lo next p)
    (hp : Simulates R lo next p) (hq : ∀ a, Simulates R lo none (q a)) :
    Simulates R lo next (p >>= q) := by
  intro s v u a hs hR hok
  obtain ⟨b, t, hpt, hqt⟩ := run_bind_eq_ok hok
  obtain ⟨a', hR', hpt'⟩ := hp hs hR hpt
  obtain ⟨a'', hR'', hqt'⟩ := hq b (hs.moves (hb hs hpt)) hR' hqt
  exact ⟨a'', hR'', by rw [run_bind_ok hpt', hqt']⟩

theorem Simulates.charge_bind (hK : K.Respects R) {p : Reader τ σ ε β}
    (hp : Simulates R lo next p) : Simulates R lo next (charge K.cost >>= fun _ => p) := by
  intro s v u a hs hR hok
  obtain ⟨_, t, hct, hpt⟩ := run_bind_eq_ok hok
  rw [charge] at hct
  split at hct
  next b hb =>
    cases hct
    obtain ⟨a', hR', ha'⟩ := hK.cost hR hb
    obtain ⟨a'', hR'', hpt'⟩ := hp (hs.withAux b) hR' hpt
    refine ⟨a'', hR'', ?_⟩
    rw [run_bind, charge, ha']
    exact hpt'
  · cases hct

theorem Simulates.iterate {stuck : ε} {body : α → Reader τ σ ε (Flow α β)}
    (hb : ∀ a, Bounded lo none (body a)) (hprog : Progress lo body)
    (hbody : ∀ a, Simulates R lo none (body a)) (a : α) :
    Simulates R lo next (Incremental.iterate stuck body a) := by
  intro s v u a₁ hs
  revert v u a₁
  refine iterate_induction hb hprog (motive := fun a s => ∀ v u a₁, R s.aux a₁ →
    Incremental.iterate stuck body a s = .ok (v, u) → ∃ a₂, R u.aux a₂ ∧
      Incremental.iterate stuck body a { s with aux := a₁ } = .ok (v, { u with aux := a₂ }))
    ?_ a s hs.forget
  intro a s hs ih v u a₁ hR hok
  rw [iterate_eq hb hprog hs] at hok
  rw [iterate_eq hb hprog (hs.withAux a₁)]
  split at hok
  next a' t h =>
    obtain ⟨a₂, hR', h'⟩ := hbody a hs hR h
    rw [h']
    exact ih a' t h v u a₂ hR' hok
  next b t h =>
    cases hok
    obtain ⟨a₂, hR', h'⟩ := hbody a hs hR h
    exact ⟨a₂, hR', by rw [h']⟩
  · cases hok

/-- **Related auxiliary states give the same results.** -/
theorem Assembled.simulates (hK : K.Sound) (hR : K.Respects R) {p : Reader τ σ ε α}
    (h : Assembled K lo next p) : Simulates R lo next p := by
  induction h with
  | prim hp => exact fun _ _ _ _ hs => hR.prim _ _ hp hs.forget
  | pure a =>
    intro s v t b _ hb hok
    cases hok
    exact ⟨b, hb, rfl⟩
  | fail _ => exact fun _ _ _ _ _ _ hok => nomatch hok
  | peek _ ih =>
    intro s v u a hs ha hok
    obtain ⟨c, t, hpt, hft⟩ := run_bind_eq_ok hok
    obtain ⟨hc, rfl⟩ := peek_eq_ok hpt
    obtain ⟨a', ha', hft'⟩ := ih c (hs.see hc) ha hft
    exact ⟨a', ha', by rw [run_bind_ok (peek_of_some (s := { t with aux := a }) hc), hft']⟩
  | advance _ _ ih => exact fun _ _ _ _ hs ha hok => ih (hs.moves hs.moves_succ) ha hok
  | position _ ih => exact fun s _ _ _ hs ha hok => ih s.pos hs.mark ha hok
  | slice _ ih => exact fun _ _ _ _ hs ha hok => ih _ hs ha hok
  | attempt _ _ _ ih =>
    intro s v u a hs ha hok
    rw [run_tryConsume_bind] at hok ⊢
    split at hok
    next hc =>
      rw [if_pos hc]
      exact ih true (hs.moves (hs.see hc).moves_succ) ha hok
    next hc =>
      rw [if_neg hc]
      exact ih false hs.forget ha hok
  | token _ _ _ =>
    intro s v t a _ ha hok
    rw [tokenFrom_eq] at hok
    obtain ⟨hver, rfl⟩ := settle_eq_ok hok
    exact ⟨a, ha, congrArg (settle _) hver⟩
  | charge _ ih => exact ih.charge_bind hR
  | bind hp _ _ ihp ihq => exact .bind (hp.lawful hK).bounded ihp ihq
  | item hp _ _ _ ihp ihq =>
    exact .bind (hp.lawful hK).bounded ihp fun a => (ihq a).charge_bind hR
  | loop hbody hprog _ ih =>
    exact .iterate (fun a => ((hbody a).lawful hK).bounded) hprog ih _

end Simulation

end Incremental
