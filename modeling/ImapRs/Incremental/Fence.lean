import ImapRs.Incremental.Assembled

/-!
# Readers in front of a fence

A fence is an item that no production steps over, with nothing but calm items between the cursor
and it. A reader that is decisive comes to a verdict without looking past the fence: it does not
ask for more input, and it does not leave the fenced stretch.

## Main results

* `Assembled.decisive` — assembled readers are decisive if their primitives are
-/

namespace Incremental

open Cursor

variable {τ σ ε α β : Type}

/-- The items before the fence are calm and the fence is at index `b`, at or after the cursor. -/
structure Fenced (Calm : τ → Prop) (fence : τ) (b : ℕ) (s : Cursor τ σ) : Prop where
  pos_le : s.pos ≤ b
  fence : s.input[b]? = some fence
  calm : ∀ i c, s.pos ≤ i → i < b → s.input[i]? = some c → Calm c

/-- In front of a fence, `p` does not ask for more input and stops at the fence or before it. -/
structure Decisive (inc : ε) (Calm : τ → Prop) (fence : τ) (lo : ℕ) (next : Option τ)
    (p : Reader τ σ ε α) : Prop where
  error : ∀ ⦃s b e⦄, s.Meets lo next → Fenced Calm fence b s → p s = .error e → e ≠ inc
  ok : ∀ ⦃s b v t⦄, s.Meets lo next → Fenced Calm fence b s → p s = .ok (v, t) → t.pos ≤ b

section Fence

variable {inc : ε} {Calm : τ → Prop} {fence : τ} {lo b : ℕ} {next : Option τ}

theorem Fenced.moves {s t : Cursor τ σ} (h : Fenced Calm fence b s) (hm : s.Moves t)
    (hle : t.pos ≤ b) : Fenced Calm fence b t where
  pos_le := hle
  fence := by rw [hm.input]; exact h.fence
  calm i c h₁ h₂ h₃ := by
    rw [hm.input] at h₃
    exact h.calm i c (Nat.le_trans hm.le h₁) h₂ h₃

theorem Fenced.lt {s : Cursor τ σ} (h : Fenced Calm fence b s) : s.pos < s.input.length :=
  Nat.lt_of_le_of_lt h.pos_le (List.getElem?_eq_some_iff.mp h.fence).1

/-- An item that differs from the fence is in front of it. -/
theorem Fenced.lt_of_ne {s : Cursor τ σ} (h : Fenced Calm fence b s) {c : τ}
    (hc : s.input[s.pos]? = some c) (hne : c ≠ fence) : s.pos < b := by
  refine Nat.lt_of_le_of_ne h.pos_le fun heq => hne ?_
  rw [heq, h.fence] at hc
  exact (Option.some.inj hc).symm

theorem Fenced.advance {s : Cursor τ σ} (h : Fenced Calm fence b s) {c : τ}
    (hs : s.Meets lo (some c)) (hne : c ≠ fence) :
    Fenced Calm fence b { s with pos := s.pos + 1 } :=
  h.moves hs.moves_succ (h.lt_of_ne (hs.sees c rfl) hne)

/-- A scan that does not accept the fence stops at it or before it. -/
theorem Fenced.scanStop_le {s : Cursor τ σ} (h : Fenced Calm fence b s) {p : τ → Bool}
    (hp : p fence = false) : scanStop p s ≤ b := by
  by_contra hlt
  have hle := h.pos_le
  have hget : (s.rest.takeWhile p)[b - s.pos]? = some fence := by
    have hpre : s.rest.takeWhile p <+: s.rest := List.takeWhile_prefix p
    rw [List.prefix_iff_eq_take.mp hpre, List.getElem?_take_of_lt (by rw [scanStop] at hlt; omega),
      ← getElem?_pos_add, Nat.add_sub_cancel' hle, h.fence]
  have hmem := List.mem_takeWhile_imp (List.mem_of_getElem? hget)
  rw [hp] at hmem
  cases hmem

theorem Decisive.weaken {p : Reader τ σ ε α} (h : Decisive inc Calm fence lo none p) :
    Decisive inc Calm fence lo next p where
  error _ _ _ hs := h.error hs.forget
  ok _ _ _ _ hs := h.ok hs.forget

theorem Decisive.bind {p : Reader τ σ ε α} {q : α → Reader τ σ ε β} (hb : Bounded lo next p)
    (hp : Decisive inc Calm fence lo next p) (hq : ∀ a, Decisive inc Calm fence lo none (q a)) :
    Decisive inc Calm fence lo next (p >>= q) where
  error s b e hs hf herr := by
    rcases run_bind_eq_error herr with hpe | ⟨a, t, hpt, hqe⟩
    · exact hp.error hs hf hpe
    · have hm := hb hs hpt
      exact (hq a).error (hs.moves hm) (hf.moves hm (hp.ok hs hf hpt)) hqe
  ok s b v u hs hf hok := by
    obtain ⟨a, t, hpt, hqt⟩ := run_bind_eq_ok hok
    have hm := hb hs hpt
    exact (hq a).ok (hs.moves hm) (hf.moves hm (hp.ok hs hf hpt)) hqt

theorem Decisive.charge_bind {c : σ → Except ε σ} (hc : ∀ a e, c a = .error e → e ≠ inc)
    {p : Reader τ σ ε β} (hp : Decisive inc Calm fence lo next p) :
    Decisive inc Calm fence lo next (charge c >>= fun _ => p) := by
  have hmeets : ∀ {s : Cursor τ σ} aux, s.Meets lo next →
      ({ s with aux := aux } : Cursor τ σ).Meets lo next := fun _ hs =>
    ⟨hs.valid, hs.lo_le, hs.sees⟩
  have hfenced : ∀ {s : Cursor τ σ} {b} aux, Fenced Calm fence b s →
      Fenced Calm fence b ({ s with aux := aux } : Cursor τ σ) := fun _ hf =>
    ⟨hf.pos_le, hf.fence, hf.calm⟩
  refine ⟨fun s b e hs hf herr => ?_, fun s b v u hs hf hok => ?_⟩
  · cases hca : c s.aux with
    | error e' =>
      rw [run_charge_bind_error hca] at herr
      cases herr
      exact hc _ _ hca
    | ok aux =>
      rw [run_charge_bind_ok hca] at herr
      exact hp.error (hmeets _ hs) (hfenced _ hf) herr
  · cases hca : c s.aux with
    | error e' => rw [run_charge_bind_error hca] at hok; cases hok
    | ok aux =>
      rw [run_charge_bind_ok hca] at hok
      exact hp.ok (hmeets _ hs) (hfenced _ hf) hok

theorem Decisive.peek_bind {f : τ → Reader τ σ ε β}
    (hf : ∀ c, Decisive inc Calm fence lo (some c) (f c)) :
    Decisive inc Calm fence lo next (peek inc >>= f) where
  error s b e hs hfen herr := by
    rcases run_bind_eq_error herr with hpe | ⟨c, t, hpt, hfe⟩
    · rw [peek_of_some (List.getElem?_eq_getElem hfen.lt)] at hpe
      cases hpe
    · obtain ⟨hc, rfl⟩ := peek_eq_ok hpt
      exact (hf c).error (hs.see hc) hfen hfe
  ok s b v u hs hfen hok := by
    obtain ⟨c, t, hpt, hft⟩ := run_bind_eq_ok hok
    obtain ⟨hc, rfl⟩ := peek_eq_ok hpt
    exact (hf c).ok (hs.see hc) hfen hft

theorem Decisive.iterate {stuck : ε} {body : α → Reader τ σ ε (Flow α β)}
    (hb : ∀ a, Bounded lo none (body a)) (hprog : Progress lo body)
    (hbody : ∀ a, Decisive inc Calm fence lo none (body a)) (a : α) :
    Decisive inc Calm fence lo next (Incremental.iterate stuck body a) := by
  have key : ∀ a (s : Cursor τ σ), s.Meets lo none → ∀ b, Fenced Calm fence b s →
      (∀ e, Incremental.iterate stuck body a s = .error e → e ≠ inc) ∧
        ∀ v t, Incremental.iterate stuck body a s = .ok (v, t) → t.pos ≤ b := by
    refine iterate_induction hb hprog fun a s hs ih b hf => ?_
    rw [iterate_eq hb hprog hs]
    split
    next a' t h => exact ih a' t h b (hf.moves (hb a hs h) ((hbody a).ok hs hf h))
    next r t h =>
      refine ⟨fun e he => (nomatch he), fun v u hu => ?_⟩
      cases hu
      exact (hbody a).ok hs hf h
    next e h =>
      refine ⟨fun e' he => ?_, fun v u hu => nomatch hu⟩
      cases he
      exact (hbody a).error hs hf h
  exact ⟨fun s b e hs hf => (key a s hs.forget b hf).1 e,
    fun s b v t hs hf => (key a s hs.forget b hf).2 v t⟩

/-- A token that stops at the fence has seen its terminator. -/
theorem Decisive.token {p : τ → Bool} {f : List τ → Option τ → Except ε α}
    (hp : p fence = false) (hf : ∀ bs c e, f bs (some c) = .error e → e ≠ inc) :
    Decisive inc Calm fence lo next (tokenFrom lo p f : Reader τ σ ε α) where
  error s b e _ hfen herr := by
    have hlt : scanStop p s < s.input.length :=
      Nat.lt_of_le_of_lt (hfen.scanStop_le hp) (List.getElem?_eq_some_iff.mp hfen.fence).1
    rw [tokenFrom_eq, List.getElem?_eq_getElem hlt] at herr
    exact hf _ _ _ (settle_eq_error herr)
  ok s b v t _ hfen hok := by
    rw [tokenFrom_eq] at hok
    rw [(settle_eq_ok hok).2]
    exact hfen.scanStop_le hp

/-- **Assembled readers are decisive** in front of an item that may not be stepped over. -/
theorem Assembled.decisive {K : Kit τ σ ε} (hK : K.Sound) (hfence : ¬ K.Step fence)
    (hprim : ∀ lo {α : Type} (p : Reader τ σ ε α), K.Prim lo p →
      Decisive K.inc Calm fence lo none p) {p : Reader τ σ ε α} (h : Assembled K lo next p) :
    Decisive K.inc Calm fence lo next p := by
  induction h with
  | prim hp => exact (hprim _ _ hp).weaken
  | pure a =>
    refine ⟨fun _ _ _ _ _ herr => (nomatch herr), fun s b v t _ hf hok => ?_⟩
    cases hok
    exact hf.pos_le
  | fail he =>
    refine ⟨fun s b e' _ _ herr => ?_, fun _ _ _ _ _ _ hok => nomatch hok⟩
    cases herr
    exact he
  | peek _ ih => exact .peek_bind ih
  | advance hc _ ih =>
    have hne : _ ≠ fence := fun h => hfence (h ▸ hc)
    exact ⟨fun s b e hs hf => ih.error (hs.moves hs.moves_succ) (hf.advance hs hne),
      fun s b v t hs hf => ih.ok (hs.moves hs.moves_succ) (hf.advance hs hne)⟩
  | position _ ih =>
    exact ⟨fun s b e hs hf => (ih s.pos).error hs.mark hf,
      fun s b v t hs hf => (ih s.pos).ok hs.mark hf⟩
  | slice _ ih =>
    exact ⟨fun s b e hs hf => (ih _).error hs hf, fun s b v t hs hf => (ih _).ok hs hf⟩
  | @attempt _ _ _ _ c f hc _ _ ih =>
    have hne : c ≠ fence := fun h => hfence (h ▸ hc)
    refine ⟨fun s b e hs hf herr => ?_, fun s b v t hs hf hok => ?_⟩
    · rw [run_tryConsume_bind] at herr
      split at herr
      next hsees =>
        exact (ih true).error (hs.moves (hs.see hsees).moves_succ) (hf.advance (hs.see hsees) hne)
          herr
      · exact (ih false).error hs.forget hf herr
    · rw [run_tryConsume_bind] at hok
      split at hok
      next hsees =>
        exact (ih true).ok (hs.moves (hs.see hsees).moves_succ) (hf.advance (hs.see hsees) hne) hok
      · exact (ih false).ok hs.forget hf hok
  | @token _ _ _ p f hp _ hf =>
    exact .token (Bool.eq_false_iff.mpr fun h => hfence (hp _ h)) hf
  | charge _ ih => exact ih.charge_bind hK.cost_ne
  | bind hp _ _ ihp ihq => exact .bind (hp.lawful hK).bounded ihp ihq
  | item hp _ _ _ ihp ihq =>
    exact .bind (hp.lawful hK).bounded ihp fun a => (ihq a).charge_bind hK.cost_ne
  | loop hbody hprog _ ih =>
    exact .iterate (fun a => ((hbody a).lawful hK).bounded) hprog ih _

end Fence

end Incremental
