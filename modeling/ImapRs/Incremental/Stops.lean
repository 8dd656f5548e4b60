import ImapRs.Incremental.Laws

/-!
# What a terminator guards

A reader that stops at a delimiter does the same at any other delimiter: the item under the final
cursor matters only for being one. So a text that was accepted up to its terminator is read up to
the same place when another delimiter follows, and if that is not the terminator, it is refused
there, whatever comes behind.

## Main definitions

* `Stops` — a success does not depend on which delimiter follows
* `Refuses` — a text accepted up to its terminator is refused without it

## Main results

* `Stops.bind`, `Stops.iterate` — sequencing and loops of readers that stop
* `Refuses.bind` — a reader that stops, then one that is refused without its terminator
-/

namespace Incremental

open Cursor

variable {τ σ ε α β : Type} {K : τ → Prop} {inc : ε} {lo : ℕ} {next : Option τ}

/-- The item at `i` is a delimiter. -/
def DelimiterAt (K : τ → Prop) (x : List τ) (i : ℕ) : Prop := ∃ c, x[i]? = some c ∧ K c

/-- A success that ends at a delimiter depends on the items from the mark up to it, and then only
on its being one. -/
def Stops (K : τ → Prop) (lo : ℕ) (next : Option τ) (p : Reader τ σ ε α) : Prop :=
  ∀ ⦃s v t⦄, s.Meets lo next → p s = .ok (v, t) →
    ∀ ⦃x : List τ⦄, (∀ i, lo ≤ i → i < t.pos → x[i]? = s.input[i]?) →
      DelimiterAt K s.input t.pos → DelimiterAt K x t.pos →
        p (s.withInput x) = .ok (v, t.withInput x)

theorem Exact.pure (a : α) : Exact lo next (pure a : Reader τ σ ε α) := by
  intro s v t _ hok x _
  cases hok
  rfl

theorem Exact.fail (e : ε) : Exact lo next (fail e : Reader τ σ ε α) := by
  intro s v t _ hok
  cases hok

theorem Exact.advance_bind {c : τ} {p : Reader τ σ ε α} (hp : Exact lo none p) :
    Exact lo (some c) (advance >>= fun _ => p) :=
  fun _ _ _ hs hok _ hx => hp (hs.moves hs.moves_succ) hok hx

theorem Exact.charge_bind {c : σ → Except ε σ} {p : Reader τ σ ε α} (hp : Exact lo next p) :
    Exact lo next (charge c >>= fun _ => p) := by
  intro s v t hs hok x hx
  cases haux : c s.aux with
  | error e =>
    rw [run_charge_bind_error haux] at hok
    cases hok
  | ok aux =>
    rw [run_charge_bind_ok haux] at hok
    rw [run_charge_bind_ok (s := s.withInput x) haux]
    exact hp (s := { s with aux := aux }) ⟨hs.valid, hs.lo_le, hs.sees⟩ hok hx

theorem Consumes.fail (e : ε) : Consumes lo next (fail e : Reader τ σ ε α) := by
  intro s v t _ hok
  cases hok

theorem Consumes.advance_bind {c : τ} {p : Reader τ σ ε α} (hp : Bounded lo none p) :
    Consumes lo (some c) (advance >>= fun _ => p) :=
  fun _ _ _ hs hok => (hp (hs.moves hs.moves_succ) hok).le

theorem Consumes.peek_bind {f : τ → Reader τ σ ε β} (hf : ∀ c, Consumes lo (some c) (f c)) :
    Consumes lo next (peek inc >>= f) := by
  intro s v u hs hok
  obtain ⟨c, t, hpt, hft⟩ := run_bind_eq_ok hok
  obtain ⟨hc, rfl⟩ := peek_eq_ok hpt
  exact hf c (hs.see hc) hft

theorem Consumes.bind_right {p : Reader τ σ ε α} {q : α → Reader τ σ ε β}
    (hb : Bounded lo next p) (hq : ∀ a, Consumes lo none (q a)) : Consumes lo next (p >>= q) := by
  intro s v u hs hok
  obtain ⟨a, t, hpt, hqt⟩ := run_bind_eq_ok hok
  have hm := hb hs hpt
  exact Nat.lt_of_le_of_lt hm.le (hq a (hs.moves hm) hqt)

theorem Exact.stops {p : Reader τ σ ε α} (h : Exact lo next p) : Stops K lo next p :=
  fun _ _ _ hs hok _ hx _ _ => h hs hok hx

/-- Sequencing: what is read first either stops in front of something or at the delimiter. -/
theorem Stops.bind {p : Reader τ σ ε α} {q : α → Reader τ σ ε β} (hp : Lawful inc lo next p)
    (hstop : Stops K lo next p) (hb : ∀ a, Bounded lo none (q a))
    (hq : ∀ a, Stops K lo none (q a)) : Stops K lo next (p >>= q) := by
  intro s v u hs hok x hx hend hend'
  obtain ⟨a, t, hpt, hqt⟩ := run_bind_eq_ok hok
  have hm := hp.bounded hs hpt
  have hle := (hb a (hs.moves hm) hqt).le
  have hrun : p (s.withInput x) = .ok (a, t.withInput x) := by
    rcases Nat.lt_or_eq_of_le hle with hlt | heq
    · have hule : u.pos ≤ s.input.length := by
        rw [← hm.input]
        exact (hb a (hs.moves hm) hqt).pos_le
      exact hp.determined hs hpt (Nat.lt_of_lt_of_le hlt hule) fun i h₁ h₂ =>
        hx i h₁ (Nat.lt_of_le_of_lt h₂ hlt)
    · rw [← heq] at hx hend hend'
      exact hstop hs hpt hx hend hend'
  rw [run_bind_ok hrun]
  rw [← hm.input] at hx hend
  exact hq a (hs.moves hm) hqt hx hend hend'

/-- Sequencing, when something is consumed behind what is read first. -/
theorem Stops.bind_of_consumes {p : Reader τ σ ε α} {q : α → Reader τ σ ε β}
    (hp : Lawful inc lo next p) (hb : ∀ a, Bounded lo none (q a))
    (hq : ∀ a, Stops K lo none (q a)) (hc : ∀ a, Consumes lo none (q a)) :
    Stops K lo next (p >>= q) := by
  intro s v u hs hok x hx hend hend'
  obtain ⟨a, t, hpt, hqt⟩ := run_bind_eq_ok hok
  have hm := hp.bounded hs hpt
  have hlt : t.pos < u.pos := hc a (hs.moves hm) hqt
  have hule : u.pos ≤ s.input.length := by
    rw [← hm.input]
    exact (hb a (hs.moves hm) hqt).pos_le
  rw [run_bind_ok (hp.determined hs hpt (Nat.lt_of_lt_of_le hlt hule) fun i h₁ h₂ =>
    hx i h₁ (Nat.lt_of_le_of_lt h₂ hlt))]
  rw [← hm.input] at hx hend
  exact hq a (hs.moves hm) hqt hx hend hend'

/-- What was consumed is still there in a buffer that agrees on it. -/
theorem Cursor.rest_withInput {s t : Cursor τ σ} {x w : List τ} (hrest : s.rest = w ++ t.rest)
    (hm : s.Moves t) (hx : ∀ i, s.pos ≤ i → i < t.pos → x[i]? = s.input[i]?) :
    (s.withInput x).rest = w ++ (t.withInput x).rest := by
  have hpos : t.pos = s.pos + w.length := by
    have hlen := congrArg List.length hrest
    have hle := hm.le
    have hend := hm.pos_le
    rw [List.length_append, length_rest, length_rest, hm.input] at hlen
    omega
  refine List.ext_getElem? fun i => ?_
  rw [Cursor.rest, Cursor.rest, withInput_input, withInput_pos, withInput_input, withInput_pos,
    List.getElem?_drop]
  rcases Nat.lt_or_ge i w.length with hlt | hge
  · rw [List.getElem?_append_left hlt, hx (s.pos + i) (Nat.le_add_right _ _) (by omega),
      getElem?_pos_add, hrest, List.getElem?_append_left hlt]
  · rw [List.getElem?_append_right hge, List.getElem?_drop, hpos]
    congr 1
    omega

theorem Stops.map {p : Reader τ σ ε α} (hp : Lawful inc lo next p) (hstop : Stops K lo next p)
    (g : α → β) : Stops K lo next (p >>= fun a => pure (g a)) := by
  refine .bind hp hstop (fun a => .pure (g a)) fun a => ?_
  intro s v t _ hok x _ _ _
  cases hok
  rfl

theorem Stops.peek_bind {f : τ → Reader τ σ ε β} (hf : ∀ c, Stops K lo (some c) (f c))
    (hc : ∀ c, Consumes lo (some c) (f c)) : Stops K lo next (peek inc >>= f) := by
  intro s v u hs hok x hx hend hend'
  obtain ⟨c, t, hpt, hft⟩ := run_bind_eq_ok hok
  obtain ⟨hcs, rfl⟩ := peek_eq_ok hpt
  have hxc : x[t.pos]? = some c := by rw [hx t.pos hs.lo_le (hc c (hs.see hcs) hft), hcs]
  rw [run_bind_ok (peek_of_some (s := t.withInput x) hxc)]
  exact hf c (hs.see hcs) hft hx hend hend'

theorem Stops.position_bind {f : ℕ → Reader τ σ ε β} (hf : ∀ start, Stops K start next (f start)) :
    Stops K lo next (position >>= f) :=
  fun s _ _ hs hok _ hx hend hend' =>
    hf s.pos hs.mark hok (fun i h₁ h₂ => hx i (Nat.le_trans hs.lo_le h₁) h₂) hend hend'

/-- A probe for something that is not a delimiter. -/
theorem Stops.try_bind [DecidableEq τ] {c : τ} {f : Bool → Reader τ σ ε β} (hc : ¬ K c)
    (hb : Bounded lo none (f true)) (ht : Stops K lo none (f true))
    (hf : Stops K lo none (f false)) (hbf : Bounded lo none (f false)) :
    Stops K lo next (tryConsume c >>= f) := by
  intro s v u hs hok x hx hend hend'
  rw [run_tryConsume_bind] at hok ⊢
  split at hok
  next hcs =>
    have hm := (hs.see hcs).moves_succ
    have hle := (hb (hs.see hcs |>.moves hm) hok).le
    have hxc : x[s.pos]? = some c := by rw [hx s.pos hs.lo_le hle, hcs]
    rw [withInput_input, withInput_pos, if_pos hxc]
    exact ht ((hs.see hcs).moves hm) hok hx hend hend'
  next hcs =>
    have hle := (hbf hs.forget hok).le
    have hxc : x[s.pos]? ≠ some c := by
      rcases Nat.lt_or_eq_of_le hle with hlt | heq
      · rw [hx s.pos hs.lo_le hlt]
        exact hcs
      · rintro hxc
        obtain ⟨d, hd, hKd⟩ := hend'
        rw [← heq, hxc] at hd
        exact hc (Option.some.inj hd ▸ hKd)
    rw [withInput_input, withInput_pos, if_neg hxc]
    exact hf hs.forget hok hx hend hend'

/-- A token stops at any delimiter, if its verdict does not tell them apart. -/
theorem Stops.token {p : τ → Bool} {f : List τ → Option τ → Except ε α}
    (hp : ∀ c, K c → p c = false) (hf : ∀ bs c d, K c → K d → f bs (some c) = f bs (some d)) :
    Stops K lo next (tokenFrom lo p f : Reader τ σ ε α) := by
  intro s v t hs hok x hx hend hend'
  rw [tokenFrom_eq] at hok ⊢
  obtain ⟨hver, rfl⟩ := settle_eq_ok hok
  obtain ⟨c, hc, hKc⟩ := hend
  obtain ⟨d, hd, hKd⟩ := hend'
  dsimp only at hx hc hd
  have hpos := le_scanStop p s
  have hlt : scanStop p s < x.length := (List.getElem?_eq_some_iff.mp hd).1
  have hslice : ∀ m, lo ≤ m →
      (x.take (scanStop p s)).drop m = (s.input.take (scanStop p s)).drop m := by
    intro m hm
    refine List.ext_getElem? fun i => ?_
    rw [List.getElem?_drop, List.getElem?_drop, List.getElem?_take, List.getElem?_take]
    split
    next hi => exact hx (m + i) (by omega) hi
    · rfl
  -- the scan takes the same items and stops at the delimiter
  have hrest : (s.withInput x).rest
      = s.rest.takeWhile p ++ d :: x.drop (scanStop p s + 1) := by
    have htake : (x.take (scanStop p s)).drop s.pos = s.rest.takeWhile p := by
      rw [hslice s.pos hs.lo_le]
      exact slice_behind (rest_eq_takeWhile_append p s)
    have hdrop : x.drop (scanStop p s) = d :: x.drop (scanStop p s + 1) := by
      rw [List.drop_eq_getElem_cons hlt, (List.getElem?_eq_some_iff.mp hd).2]
    rw [← htake, ← hdrop, ← List.drop_append_of_le_length (by rw [List.length_take]; omega),
      List.take_append_drop]
    rfl
  have hstop : scanStop p (s.withInput x) = scanStop p s := by
    rw [scanStop, hrest, List.takeWhile_append_of_pos fun b hb => List.mem_takeWhile_imp hb,
      List.takeWhile_cons_of_neg (by rw [hp d hKd]; exact Bool.false_ne_true), List.append_nil]
    rfl
  rw [hstop, withInput_input, hslice lo (Nat.le_refl _), hd, hf _ d c hKd hKc, ← hc, hver]
  rfl

/-- A loop of rounds that stop. -/
theorem Stops.iterate {stuck : ε} {body : α → Reader τ σ ε (Flow α β)}
    (hbody : ∀ a, Lawful inc lo none (body a)) (hstop : ∀ a, Stops K lo none (body a))
    (hp : Progress lo body) (a : α) : Stops K lo next (Incremental.iterate stuck body a) := by
  have hb : ∀ a, Bounded lo none (body a) := fun a => (hbody a).bounded
  intro s v u hs
  revert v u
  refine iterate_induction hb hp (motive := fun a s => ∀ v u,
    Incremental.iterate stuck body a s = .ok (v, u) → ∀ ⦃x⦄,
      (∀ i, lo ≤ i → i < u.pos → x[i]? = s.input[i]?) → DelimiterAt K s.input u.pos →
        DelimiterAt K x u.pos →
          Incremental.iterate stuck body a (s.withInput x) = .ok (v, u.withInput x))
    ?_ a s hs.forget
  intro a s hs ih v u hok x hx hend hend'
  have hle : s.pos ≤ u.pos := (iterate_bounded hb hp a hs hok).le
  have hmeets : (s.withInput x).Meets lo none := by
    obtain ⟨d, hd, _⟩ := hend'
    have hlt := (List.getElem?_eq_some_iff.mp hd).1
    exact ⟨Nat.le_of_lt (Nat.lt_of_le_of_lt hle hlt), hs.lo_le, by simp⟩
  rw [iterate_eq hb hp hmeets]
  rw [iterate_eq hb hp hs] at hok
  split at hok
  next a' t h =>
    have hm := hb a hs h
    have hmt := iterate_bounded hb hp a' (hs.moves hm) hok
    have hround : body a (s.withInput x) = .ok (.again a', t.withInput x) := by
      rcases Nat.lt_or_eq_of_le hmt.le with hlt | heq
      · have hule : u.pos ≤ s.input.length := by
          rw [← hm.input]
          exact hmt.pos_le
        exact (hbody a).determined hs h (Nat.lt_of_lt_of_le hlt hule) fun i h₁ h₂ =>
          hx i h₁ (Nat.lt_of_le_of_lt h₂ hlt)
      · rw [← heq] at hx hend hend'
        exact hstop a hs h hx hend hend'
    rw [hround]
    rw [← hm.input] at hx hend
    exact ih a' t h v u hok hx hend hend'
  next b t h =>
    cases hok
    rw [hstop a hs h hx hend hend']
  · cases hok

/-! ### Refusal -/

/-- How a text ends, and what happens when it does not. -/
structure Terminator (τ ε : Type) where
  /-- The items at which readers stop. -/
  Delimiter : τ → Prop
  /-- How many items the terminator is made of. -/
  width : ℕ
  /-- A delimiter no terminator begins with. -/
  wrong : τ
  wrong_delimiter : Delimiter wrong
  /-- What is said of it. -/
  error : ε

variable {T : Terminator τ ε} {P : α → Prop} {Q : β → Prop}

/-- A text of which `p` makes a value in `P` ends in a terminator, and is refused when the wrong
delimiter stands in its place. -/
def Refuses (T : Terminator τ ε) (P : α → Prop) (lo : ℕ) (next : Option τ) (p : Reader τ σ ε α) :
    Prop :=
  ∀ ⦃s v t⦄, s.Meets lo next → p s = .ok (v, t) → P v →
    ∃ k, s.pos ≤ k ∧ t.pos = k + T.width ∧ DelimiterAt T.Delimiter s.input k ∧
      ∀ ⦃x : List τ⦄, (∀ i, lo ≤ i → i < k → x[i]? = s.input[i]?) → x[k]? = some T.wrong →
        p (s.withInput x) = .error T.error

namespace Refuses

/-- **A reader that stops, then one that is refused.** -/
theorem bind {p : Reader τ σ ε α} {q : α → Reader τ σ ε β} (hp : Lawful inc lo next p)
    (hstop : Stops T.Delimiter lo next p) (hq : ∀ a, Refuses T Q lo none (q a)) :
    Refuses T Q lo next (p >>= q) := by
  intro s v u hs hok hv
  obtain ⟨a, t, hpt, hqt⟩ := run_bind_eq_ok hok
  have hm := hp.bounded hs hpt
  obtain ⟨k, hk, hu, hend, hrefuse⟩ := hq a (hs.moves hm) hqt hv
  rw [hm.input] at hend
  refine ⟨k, Nat.le_trans hm.le hk, hu, hend, fun x hx hwrong => ?_⟩
  have hrun : p (s.withInput x) = .ok (a, t.withInput x) := by
    rcases Nat.lt_or_eq_of_le hk with hlt | rfl
    · obtain ⟨c, hc, _⟩ := hend
      have hkle := (List.getElem?_eq_some_iff.mp hc).1
      exact hp.determined hs hpt (Nat.lt_trans hlt hkle) fun i h₁ h₂ =>
        hx i h₁ (Nat.lt_of_le_of_lt h₂ hlt)
    · exact hstop hs hpt hx hend ⟨_, hwrong, T.wrong_delimiter⟩
  rw [run_bind_ok hrun]
  refine hrefuse ?_ hwrong
  rw [hm.input]
  exact hx

/-- A reader that makes no such value. -/
theorem of_yields {p : Reader τ σ ε α} (h : Yields (fun v => ¬ P v) p) : Refuses T P lo next p :=
  fun _ _ _ _ hok hv => absurd hv (h hok)

theorem ite {c : Prop} [Decidable c] {p q : Reader τ σ ε α} (hp : Refuses T P lo next p)
    (hq : Refuses T P lo next q) : Refuses T P lo next (if c then p else q) := by
  split
  · exact hp
  · exact hq

theorem position_bind {f : ℕ → Reader τ σ ε β} (hf : ∀ start, Refuses T Q start next (f start)) :
    Refuses T Q lo next (position >>= f) := by
  intro s v t hs hok hv
  obtain ⟨k, hk, ht, hend, hrefuse⟩ := hf s.pos hs.mark hok hv
  exact ⟨k, hk, ht, hend, fun x hx => hrefuse fun i h₁ h₂ => hx i (Nat.le_trans hs.lo_le h₁) h₂⟩

/-- A look ahead that does not tell delimiters apart. -/
theorem peek_bind {f : τ → Reader τ σ ε β} (hf : ∀ c, Refuses T Q lo (some c) (f c))
    (hsame : ∀ c, T.Delimiter c → f T.wrong = f c) : Refuses T Q lo next (peek inc >>= f) := by
  intro s v u hs hok hv
  obtain ⟨c, t, hpt, hft⟩ := run_bind_eq_ok hok
  obtain ⟨hcs, rfl⟩ := peek_eq_ok hpt
  obtain ⟨k, hk, hu, hend, hrefuse⟩ := hf c (hs.see hcs) hft hv
  refine ⟨k, hk, hu, hend, fun x hx hwrong => ?_⟩
  rcases Nat.lt_or_eq_of_le hk with hlt | rfl
  · have hxc : x[t.pos]? = some c := by rw [hx t.pos hs.lo_le hlt, hcs]
    rw [run_bind_ok (peek_of_some (s := t.withInput x) hxc)]
    exact hrefuse hx hwrong
  · obtain ⟨d, hd, hKd⟩ := hend
    obtain rfl : c = d := Option.some.inj (hcs.symm.trans hd)
    rw [run_bind_ok (peek_of_some (s := t.withInput x) hwrong), hsame c hKd]
    exact hrefuse hx hwrong

end Refuses

end Incremental
