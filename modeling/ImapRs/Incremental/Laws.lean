import ImapRs.Incremental.Cursor

/-!
# When a verdict survives more input

A reader over a growing buffer is re-run from the start each time input arrives, so what matters
is how its verdict on a buffer relates to its verdict on a longer one. Three laws are enough,
and all three are kept by every way of putting readers together:

* `Bounded` — the cursor only moves forward and stays inside the buffer;
* `Determined` — a success depends on nothing but the items consumed and the *one* item after
  them. It is stated against an arbitrary second buffer, so it covers adding input, cutting input
  off and replacing what comes later;
* `Permanent` — a failure other than `inc` stays a failure other than `inc`.

## Reading a slice back

A production often remembers where it started and later takes the slice from there to the
cursor, which reads items *before* the cursor. The laws therefore carry a mark `lo`: the reader
may look back as far as `lo` and no further. A reader that looks back only to its own starting
point satisfies the laws for every mark.

## Success at the end of the buffer

A success that ends exactly at the end of the buffer has not seen the item after it, and
`Determined` says nothing about it. `Firm` readers do not care about that item; for the others,
what follows must be `Patient`, able to fail at the end of the buffer only with `inc`. `Soft` is
the middle ground needed by a list element whose cost is charged before its terminator is seen.

## Main results

* `Lawful.bind`, `Lawful.iterate` and the other closure lemmas
* `iterate_eq`, `iterate_induction` — a loop without its fuel
-/

namespace Incremental

variable {τ σ ε α β : Type}

namespace Cursor

/-- `t` is `s` moved forward inside the same buffer. -/
structure Moves (s t : Cursor τ σ) : Prop where
  /-- The buffer is untouched. -/
  input : t.input = s.input
  /-- The cursor does not go back. -/
  le : s.pos ≤ t.pos
  /-- The cursor does not leave the buffer. -/
  valid : t.Valid

theorem Moves.refl {s : Cursor τ σ} (h : s.Valid) : s.Moves s := ⟨rfl, Nat.le_refl _, h⟩

theorem Moves.trans {s t u : Cursor τ σ} (h : s.Moves t) (h' : t.Moves u) : s.Moves u :=
  ⟨h'.input.trans h.input, Nat.le_trans h.le h'.le, h'.valid⟩

theorem Moves.pos_le {s t : Cursor τ σ} (h : s.Moves t) : t.pos ≤ s.input.length := by
  rw [← h.input]; exact h.valid

theorem Moves.withInput_ext {s t : Cursor τ σ} (h : s.Moves t) (y : List τ) :
    t.withInput (s.input ++ y) = t.ext y := by
  rw [withInput, ext, h.input]

/-- What a reader may rely on when it starts: a valid cursor at or after the mark `lo`, and, when
`next` is `some c`, that `c` is under the cursor. -/
structure Meets (s : Cursor τ σ) (lo : ℕ) (next : Option τ) : Prop where
  valid : s.Valid
  lo_le : lo ≤ s.pos
  sees : ∀ c, next = some c → s.input[s.pos]? = some c

theorem Meets.of_valid {s : Cursor τ σ} (h : s.Valid) : s.Meets s.pos none :=
  ⟨h, Nat.le_refl _, fun _ hc => nomatch hc⟩

theorem Meets.zero {s : Cursor τ σ} (h : s.Valid) : s.Meets 0 none :=
  ⟨h, Nat.zero_le _, fun _ hc => nomatch hc⟩

theorem Meets.forget {s : Cursor τ σ} {lo : ℕ} {next : Option τ} (h : s.Meets lo next) :
    s.Meets lo none :=
  ⟨h.valid, h.lo_le, fun _ hc => nomatch hc⟩

theorem Meets.see {s : Cursor τ σ} {lo : ℕ} {next : Option τ} (h : s.Meets lo next) {c : τ}
    (hc : s.input[s.pos]? = some c) : s.Meets lo (some c) :=
  ⟨h.valid, h.lo_le, fun _ hd => by rw [hc, hd]⟩

theorem Meets.mark {s : Cursor τ σ} {lo : ℕ} {next : Option τ} (h : s.Meets lo next) :
    s.Meets s.pos next :=
  ⟨h.valid, Nat.le_refl _, h.sees⟩

theorem Meets.moves {s t : Cursor τ σ} {lo : ℕ} {next : Option τ} (h : s.Meets lo next)
    (hm : s.Moves t) : t.Meets lo none :=
  ⟨hm.valid, Nat.le_trans h.lo_le hm.le, fun _ hc => nomatch hc⟩

theorem Meets.ext {s : Cursor τ σ} {lo : ℕ} {next : Option τ} (h : s.Meets lo next)
    (y : List τ) : (s.ext y).Meets lo next := by
  refine ⟨h.valid.ext y, h.lo_le, fun c hc => ?_⟩
  have hs := h.sees c hc
  rw [ext_input, ext_pos, List.getElem?_append_left (List.getElem?_eq_some_iff.mp hs).1, hs]

theorem Meets.pos_lt {s : Cursor τ σ} {lo : ℕ} {c : τ} (h : s.Meets lo (some c)) :
    s.pos < s.input.length :=
  (List.getElem?_eq_some_iff.mp (h.sees c rfl)).1

theorem Meets.moves_succ {s : Cursor τ σ} {lo : ℕ} {c : τ} (h : s.Meets lo (some c)) :
    s.Moves { s with pos := s.pos + 1 } :=
  ⟨rfl, Nat.le_succ _, h.pos_lt⟩

end Cursor

open Cursor

/-- The buffers `x` and `x'` agree from `lo` up to and including `hi`. -/
def AgreeOn (lo hi : ℕ) (x x' : List τ) : Prop := ∀ i, lo ≤ i → i ≤ hi → x'[i]? = x[i]?

theorem AgreeOn.mono {lo lo' hi hi' : ℕ} {x x' : List τ} (h : AgreeOn lo hi x x')
    (hlo : lo ≤ lo') (hhi : hi' ≤ hi) : AgreeOn lo' hi' x x' := fun i hi₁ hi₂ =>
  h i (Nat.le_trans hlo hi₁) (Nat.le_trans hi₂ hhi)

theorem AgreeOn.append {lo hi : ℕ} {x : List τ} (h : hi < x.length) (y : List τ) :
    AgreeOn lo hi x (x ++ y) := fun _ _ hi₂ =>
  List.getElem?_append_left (Nat.lt_of_le_of_lt hi₂ h)

theorem AgreeOn.lt_length {lo hi : ℕ} {x x' : List τ} (h : AgreeOn lo hi x x') (hlo : lo ≤ hi)
    (hhi : hi < x.length) : hi < x'.length := by
  have heq := h hi hlo (Nat.le_refl _)
  rw [List.getElem?_eq_getElem hhi] at heq
  exact (List.getElem?_eq_some_iff.mp heq).1

theorem Cursor.Meets.withInput {s : Cursor τ σ} {lo hi : ℕ} {next : Option τ} {x : List τ}
    (h : s.Meets lo next) (hx : AgreeOn lo hi s.input x) (hle : s.pos ≤ hi)
    (hlt : hi < s.input.length) : (s.withInput x).Meets lo none := by
  refine ⟨?_, h.lo_le, fun _ hc => nomatch hc⟩
  have := hx.lt_length (Nat.le_trans h.lo_le hle) hlt
  rw [Valid, withInput_pos, withInput_input]
  omega

/-- Slices inside the region of agreement are equal. -/
theorem AgreeOn.slice_eq {lo hi a b : ℕ} {x x' : List τ} (h : AgreeOn lo hi x x') (ha : lo ≤ a)
    (hb : b ≤ hi + 1) : (x'.take b).drop a = (x.take b).drop a := by
  refine List.ext_getElem? fun i => ?_
  rw [List.getElem?_drop, List.getElem?_drop, List.getElem?_take, List.getElem?_take]
  split
  · exact h (a + i) (by omega) (by omega)
  · rfl

/-! ### The laws -/

/-- The cursor moves forward and stays inside the buffer. -/
def Bounded (lo : ℕ) (next : Option τ) (p : Reader τ σ ε α) : Prop :=
  ∀ ⦃s v t⦄, s.Meets lo next → p s = .ok (v, t) → s.Moves t

/-- A success that ends inside the buffer depends only on the items from the mark up to and
including the one under the final cursor. -/
def Determined (lo : ℕ) (next : Option τ) (p : Reader τ σ ε α) : Prop :=
  ∀ ⦃s v t⦄, s.Meets lo next → p s = .ok (v, t) → t.pos < s.input.length →
    ∀ ⦃x⦄, AgreeOn lo t.pos s.input x → p (s.withInput x) = .ok (v, t.withInput x)

/-- A failure that does not ask for more input remains one when input is added. -/
def Permanent (inc : ε) (lo : ℕ) (next : Option τ) (p : Reader τ σ ε α) : Prop :=
  ∀ ⦃s e⦄, s.Meets lo next → p s = .error e → e ≠ inc →
    ∀ y, ∃ e', e' ≠ inc ∧ p (s.ext y) = .error e'

/-- The three laws together. -/
structure Lawful (inc : ε) (lo : ℕ) (next : Option τ) (p : Reader τ σ ε α) : Prop where
  bounded : Bounded lo next p
  determined : Determined lo next p
  permanent : Permanent inc lo next p

/-- A success is unchanged by more input, even when it ends at the end of the buffer. -/
def Firm (lo : ℕ) (next : Option τ) (p : Reader τ σ ε α) : Prop :=
  ∀ ⦃s v t⦄, s.Meets lo next → p s = .ok (v, t) → ∀ y, p (s.ext y) = .ok (v, t.ext y)

/-- At the end of the buffer, the only possible failure is `inc`. -/
def Patient (inc : ε) (p : Reader τ σ ε α) : Prop :=
  ∀ ⦃s e⦄, s.Valid → s.AtEnd → p s = .error e → e = inc

/-- At the end of the buffer, the reader asks for more input. -/
def Stuck (inc : ε) (p : Reader τ σ ε α) : Prop :=
  ∀ ⦃s⦄, s.Valid → s.AtEnd → p s = .error inc

/-- At the end of the buffer, the reader does not succeed. -/
def Hungry (p : Reader τ σ ε α) : Prop :=
  ∀ ⦃s v t⦄, s.Valid → s.AtEnd → p s ≠ .ok (v, t)

/-- A success that ends at the end of the buffer does not turn into `inc` when input is added,
and what it charged does not depend on that input. -/
def Soft (inc : ε) (lo : ℕ) (next : Option τ) (p : Reader τ σ ε α) : Prop :=
  ∀ ⦃s v t⦄, s.Meets lo next → p s = .ok (v, t) → t.AtEnd → ∀ y,
    (∃ v' t', p (s.ext y) = .ok (v', t') ∧ t'.aux = t.aux) ∨
      ∃ e, e ≠ inc ∧ p (s.ext y) = .error e

variable {inc : ε} {lo : ℕ} {next : Option τ}

theorem Stuck.patient {p : Reader τ σ ε α} (h : Stuck inc p) : Patient inc p := by
  intro s e hv hend he
  rw [h hv hend] at he
  exact (Except.error.inj he).symm

theorem Stuck.hungry {p : Reader τ σ ε α} (h : Stuck inc p) : Hungry p := by
  intro s v t hv hend hok
  rw [h hv hend] at hok
  cases hok

theorem Firm.soft {p : Reader τ σ ε α} (h : Firm lo next p) : Soft inc lo next p :=
  fun _ _ _ hs hok _ y => .inl ⟨_, _, h hs hok y, rfl⟩

/-- A success inside the buffer is unchanged by more input. -/
theorem Lawful.ext_ok {p : Reader τ σ ε α} (h : Lawful inc lo next p) {s t : Cursor τ σ} {v : α}
    (hs : s.Meets lo next) (hok : p s = .ok (v, t)) (hlt : t.pos < s.input.length) (y : List τ) :
    p (s.ext y) = .ok (v, t.ext y) := by
  have hd := h.determined hs hok hlt (AgreeOn.append hlt y)
  rwa [(h.bounded hs hok).withInput_ext] at hd

theorem Lawful.weaken {p : Reader τ σ ε α} (h : Lawful inc lo none p) : Lawful inc lo next p where
  bounded _ _ _ hs := h.bounded hs.forget
  determined _ _ _ hs := h.determined hs.forget
  permanent _ _ hs := h.permanent hs.forget

/-! ### Primitives and sequencing -/

theorem Bounded.pure (a : α) : Bounded lo next (pure a : Reader τ σ ε α) := by
  intro s v t hs h
  cases h
  exact Moves.refl hs.valid

theorem Bounded.fail (e : ε) : Bounded lo next (fail e : Reader τ σ ε α) :=
  fun _ _ _ _ h => nomatch h

theorem Bounded.bind {p : Reader τ σ ε α} {q : α → Reader τ σ ε β} (hp : Bounded lo next p)
    (hq : ∀ a, Bounded lo none (q a)) : Bounded lo next (p >>= q) := by
  intro s v u hs hok
  obtain ⟨a, t, hpt, hqt⟩ := run_bind_eq_ok hok
  have hm := hp hs hpt
  exact hm.trans (hq a (hs.moves hm) hqt)

theorem Lawful.pure (a : α) : Lawful inc lo next (pure a : Reader τ σ ε α) where
  bounded := .pure a
  determined _ _ _ _ h _ _ _ := by cases h; rfl
  permanent _ _ _ h := nomatch h

theorem Lawful.fail {e : ε} (he : e ≠ inc) : Lawful inc lo next (fail e : Reader τ σ ε α) where
  bounded := .fail e
  determined _ _ _ _ h := nomatch h
  permanent _ _ _ _ _ _ := ⟨e, he, rfl⟩

theorem Permanent.bind {p : Reader τ σ ε α} {q : α → Reader τ σ ε β} (hp : Lawful inc lo next p)
    (hq : ∀ a, Permanent inc lo none (q a)) (h : Firm lo next p ∨ ∀ a, Patient inc (q a)) :
    Permanent inc lo next (p >>= q) := by
  intro s e hs herr hne y
  rcases run_bind_eq_error herr with hpe | ⟨a, t, hpt, hqe⟩
  · obtain ⟨e', hne', he'⟩ := hp.permanent hs hpe hne y
    exact ⟨e', hne', run_bind_error he'⟩
  · have hm := hp.bounded hs hpt
    have hsame : p (s.ext y) = .ok (a, t.ext y) := by
      rcases h with hfirm | hpat
      · exact hfirm hs hpt y
      · refine hp.ext_ok hs hpt ?_ y
        by_contra hge
        refine hne (hpat a hm.valid ?_ hqe)
        rw [AtEnd, hm.input]
        exact Nat.le_of_not_lt hge
    obtain ⟨e', hne', he'⟩ := hq a (hs.moves hm) hqe hne y
    exact ⟨e', hne', by rw [run_bind_ok hsame, he']⟩

/-- **Sequencing.** When the first half may succeed provisionally at the end of the buffer, the
second half has to be patient there. -/
theorem Lawful.bind {p : Reader τ σ ε α} {q : α → Reader τ σ ε β} (hp : Lawful inc lo next p)
    (hq : ∀ a, Lawful inc lo none (q a)) (h : Firm lo next p ∨ ∀ a, Patient inc (q a)) :
    Lawful inc lo next (p >>= q) where
  bounded := .bind hp.bounded fun a => (hq a).bounded
  determined s v u hs hok hlt x hx := by
    obtain ⟨a, t, hpt, hqt⟩ := run_bind_eq_ok hok
    have hm := hp.bounded hs hpt
    have hm' := (hq a).bounded (hs.moves hm) hqt
    have htlt : t.pos < s.input.length := Nat.lt_of_le_of_lt hm'.le hlt
    rw [run_bind_ok (hp.determined hs hpt htlt (hx.mono (Nat.le_refl _) hm'.le))]
    refine (hq a).determined (hs.moves hm) hqt (by rw [hm.input]; exact hlt) ?_
    rw [hm.input]
    exact hx
  permanent := .bind hp (fun a => (hq a).permanent) h

theorem peek_eq_ok {s t : Cursor τ σ} {c : τ}
    (h : (peek inc : Reader τ σ ε τ) s = .ok (c, t)) : s.input[s.pos]? = some c ∧ t = s := by
  rw [peek] at h
  split at h
  · cases h; exact ⟨‹_›, rfl⟩
  · cases h

theorem peek_of_some {s : Cursor τ σ} {c : τ} (h : s.input[s.pos]? = some c) :
    (peek inc : Reader τ σ ε τ) s = .ok (c, s) := by
  rw [peek, h]

theorem peek_atEnd {s : Cursor τ σ} (h : s.AtEnd) :
    (peek inc : Reader τ σ ε τ) s = .error inc := by
  rw [peek, List.getElem?_eq_none h]

theorem Bounded.peek_bind {f : τ → Reader τ σ ε β} (hf : ∀ c, Bounded lo (some c) (f c)) :
    Bounded lo next (peek inc >>= f) := by
  intro s v u hs hok
  obtain ⟨c, t, hpt, hft⟩ := run_bind_eq_ok hok
  obtain ⟨hc, rfl⟩ := peek_eq_ok hpt
  exact hf c (hs.see hc) hft

theorem Bounded.advance_bind {c : τ} {p : Reader τ σ ε β} (hp : Bounded lo none p) :
    Bounded lo (some c) (advance >>= fun _ => p) := fun _ _ _ hs hok =>
  hs.moves_succ.trans (hp (hs.moves hs.moves_succ) hok)

theorem Permanent.peek_bind {f : τ → Reader τ σ ε β}
    (hf : ∀ c, Permanent inc lo (some c) (f c)) : Permanent inc lo next (peek inc >>= f) := by
  intro s e hs herr hne y
  rcases run_bind_eq_error herr with hpe | ⟨c, t, hpt, hfe⟩
  · rw [peek] at hpe
    split at hpe <;> cases hpe
    exact absurd rfl hne
  · obtain ⟨hc, rfl⟩ := peek_eq_ok hpt
    obtain ⟨e', hne', he'⟩ := hf c (hs.see hc) hfe hne y
    exact ⟨e', hne', by rw [run_bind_ok (peek_of_some (((hs.see hc).ext y).sees c rfl)), he']⟩

/-- Looking at the next item and then acting on it: each continuation may rely on what was
seen. -/
theorem Lawful.peek_bind {f : τ → Reader τ σ ε β} (hf : ∀ c, Lawful inc lo (some c) (f c)) :
    Lawful inc lo next (peek inc >>= f) where
  bounded := .peek_bind fun c => (hf c).bounded
  determined s v u hs hok hlt x hx := by
    obtain ⟨c, t, hpt, hft⟩ := run_bind_eq_ok hok
    obtain ⟨hc, rfl⟩ := peek_eq_ok hpt
    have hle := ((hf c).bounded (hs.see hc) hft).le
    have hxc : x[t.pos]? = some c := by rw [hx t.pos hs.lo_le hle, hc]
    rw [run_bind_ok (peek_of_some (s := t.withInput x) hxc)]
    exact (hf c).determined (hs.see hc) hft hlt hx
  permanent := .peek_bind fun c => (hf c).permanent

/-- Stepping over an item that has been seen. -/
theorem Lawful.advance_bind {c : τ} {p : Reader τ σ ε β} (hp : Lawful inc lo none p) :
    Lawful inc lo (some c) (advance >>= fun _ => p) where
  bounded := .advance_bind hp.bounded
  determined s v u hs hok hlt x hx := by
    have hm := hs.moves_succ
    exact hp.determined (hs.moves hm) hok hlt hx
  permanent s e hs herr hne y :=
    hp.permanent (hs.moves hs.moves_succ) herr hne y

/-- Remembering the position lowers nothing: the mark moves up to it. -/
theorem Lawful.position_bind {f : ℕ → Reader τ σ ε β}
    (hf : ∀ start, Lawful inc start next (f start)) : Lawful inc lo next (position >>= f) where
  bounded s _ _ hs hok := (hf s.pos).bounded hs.mark hok
  determined s _ _ hs hok hlt _ hx :=
    (hf s.pos).determined hs.mark hok hlt (hx.mono hs.lo_le (Nat.le_refl _))
  permanent s _ hs herr hne y := (hf s.pos).permanent hs.mark herr hne y

/-- Taking the slice back to the mark. -/
theorem Lawful.slice_bind {f : List τ → Reader τ σ ε β} (hf : ∀ v, Lawful inc lo next (f v)) :
    Lawful inc lo next (sliceFrom lo >>= f) where
  bounded s v u hs hok := (hf _).bounded hs hok
  determined s v u hs hok hlt x hx := by
    have hle := ((hf _).bounded hs hok).le
    have hslice : (x.take s.pos).drop lo = (s.input.take s.pos).drop lo :=
      hx.slice_eq (Nat.le_refl _) (Nat.le_succ_of_le hle)
    change f ((x.take s.pos).drop lo) (s.withInput x) = _
    rw [hslice]
    exact (hf _).determined hs hok hlt hx
  permanent s e hs herr hne y := by
    have hslice : ((s.input ++ y).take s.pos).drop lo = (s.input.take s.pos).drop lo := by
      rw [List.take_append_of_le_length hs.valid]
    obtain ⟨e', hne', he'⟩ := (hf _).permanent hs herr hne y
    refine ⟨e', hne', ?_⟩
    change f (((s.input ++ y).take s.pos).drop lo) (s.ext y) = _
    rw [hslice]
    exact he'

/-- An item that has been seen is still there after more input has arrived. -/
theorem Cursor.getElem?_ext {s : Cursor τ σ} (h : ¬ s.AtEnd) (y : List τ) :
    (s.ext y).input[(s.ext y).pos]? = s.input[s.pos]? :=
  List.getElem?_append_left (Nat.lt_of_not_le h)

theorem Bounded.tryConsume [DecidableEq τ] (c : τ) :
    Bounded lo next (tryConsume c : Reader τ σ ε Bool) := by
  intro s v t hs hok
  rw [Incremental.tryConsume] at hok
  split at hok
  next d hd =>
    split at hok <;> cases hok
    · exact (hs.see hd).moves_succ
    · exact .refl hs.valid
  next =>
    cases hok
    exact .refl hs.valid

/-- An optional item. The reader taken when it is absent must be patient, since the end of the
buffer looks like absence. -/
theorem Lawful.try_bind [DecidableEq τ] {c : τ} {f : Bool → Reader τ σ ε β}
    (hf : ∀ b, Lawful inc lo none (f b)) (hpat : Patient inc (f false)) :
    Lawful inc lo next (tryConsume c >>= f) where
  bounded s v u hs hok := by
    rw [run_tryConsume_bind] at hok
    split at hok
    next hc =>
      have hm := (hs.see hc).moves_succ
      exact hm.trans ((hf true).bounded (hs.moves hm) hok)
    · exact (hf false).bounded hs.forget hok
  determined s v u hs hok hlt x hx := by
    rw [run_tryConsume_bind] at hok ⊢
    split at hok
    next hc =>
      have hm := (hs.see hc).moves_succ
      have hle := ((hf true).bounded (hs.moves hm) hok).le
      rw [if_pos (by rw [withInput_input, withInput_pos, hx _ hs.lo_le (Nat.le_of_lt hle), hc])]
      exact (hf true).determined (hs.moves hm) hok hlt hx
    next hc =>
      have hle := ((hf false).bounded hs.forget hok).le
      rw [if_neg (by rwa [withInput_input, withInput_pos, hx _ hs.lo_le hle])]
      exact (hf false).determined hs.forget hok hlt hx
  permanent s e hs herr hne y := by
    rw [run_tryConsume_bind] at herr ⊢
    by_cases hend : s.AtEnd
    · rw [if_neg (by rw [List.getElem?_eq_none hend]; nofun)] at herr
      exact absurd (hpat hs.valid hend herr) hne
    · rw [getElem?_ext hend y]
      split at herr
      next hc =>
        rw [if_pos hc]
        exact (hf true).permanent (hs.moves (hs.see hc).moves_succ) herr hne y
      next hc =>
        rw [if_neg hc]
        exact (hf false).permanent hs.forget herr hne y

/-! ### Scanning a token -/

/-- Where a scan over `p` stops. -/
def scanStop (p : τ → Bool) (s : Cursor τ σ) : ℕ := s.pos + (s.rest.takeWhile p).length

theorem tokenFrom_eq (start : ℕ) (p : τ → Bool) (f : List τ → Option τ → Except ε α)
    (s : Cursor τ σ) : (tokenFrom start p f : Reader τ σ ε α) s
      = settle { s with pos := scanStop p s }
          (f ((s.input.take (scanStop p s)).drop start) s.input[scanStop p s]?) := rfl

theorem scanStop_le {p : τ → Bool} {s : Cursor τ σ} (h : s.Valid) :
    scanStop p s ≤ s.input.length := by
  have hlen : (s.rest.takeWhile p).length ≤ s.rest.length :=
    (List.takeWhile_prefix p).length_le
  rw [s.length_rest] at hlen
  simp only [Valid] at h
  rw [scanStop]
  omega

theorem le_scanStop (p : τ → Bool) (s : Cursor τ σ) : s.pos ≤ scanStop p s := Nat.le_add_right _ _

theorem rest_eq_takeWhile_append (p : τ → Bool) (s : Cursor τ σ) :
    s.rest = s.rest.takeWhile p ++ (⟨s.input, scanStop p s, s.aux⟩ : Cursor τ σ).rest := by
  conv_lhs => rw [← List.takeWhile_append_dropWhile (p := p) (l := s.rest)]
  have hscan : s.rest = s.rest.takeWhile p ++ s.rest.dropWhile p :=
    List.takeWhile_append_dropWhile.symm
  rw [scanStop, rest_behind hscan]

theorem moves_scanStop {p : τ → Bool} {s : Cursor τ σ} (h : s.Valid) :
    s.Moves { s with pos := scanStop p s } :=
  ⟨rfl, le_scanStop p s, scanStop_le h⟩

/-- A scan that stops before the end of a list only looks at the list up to the item that
stopped it. -/
theorem takeWhile_eq_of_take_eq {p : τ → Bool} {l l' : List τ}
    (hlt : (l.takeWhile p).length < l.length)
    (h : l'.take ((l.takeWhile p).length + 1) = l.take ((l.takeWhile p).length + 1)) :
    l'.takeWhile p = l.takeWhile p := by
  induction l generalizing l' with
  | nil => simp at hlt
  | cons c cs ih =>
    by_cases hc : p c
    · rw [List.takeWhile_cons_of_pos hc] at hlt h ⊢
      rw [List.length_cons] at hlt h
      cases l' with
      | nil => simp at h
      | cons d ds =>
        simp only [List.take_succ_cons, List.cons.injEq] at h
        obtain ⟨rfl, h⟩ := h
        rw [List.takeWhile_cons_of_pos hc, ih (by simpa using hlt) h]
    · rw [List.takeWhile_cons_of_neg hc] at h ⊢
      cases l' with
      | nil => rfl
      | cons d ds =>
        simp only [List.length_nil, Nat.zero_add, List.take_succ_cons, List.take_zero,
          List.cons.injEq, and_true] at h
        rw [h, List.takeWhile_cons_of_neg hc]

theorem scanStop_withInput {p : τ → Bool} {s : Cursor τ σ} {x : List τ}
    (hlt : scanStop p s < s.input.length) (hx : AgreeOn s.pos (scanStop p s) s.input x) :
    scanStop p (s.withInput x) = scanStop p s := by
  have htake : (s.withInput x).rest.take ((s.rest.takeWhile p).length + 1)
      = s.rest.take ((s.rest.takeWhile p).length + 1) := by
    have hslice := hx.slice_eq (Nat.le_refl _) (b := scanStop p s + 1) (Nat.le_refl _)
    simp only [List.drop_take] at hslice
    rwa [show scanStop p s + 1 - s.pos = (s.rest.takeWhile p).length + 1 by
      rw [scanStop]; omega] at hslice
  have hlen : (s.rest.takeWhile p).length < s.rest.length := by
    rw [s.length_rest]
    rw [scanStop] at hlt
    omega
  rw [scanStop, takeWhile_eq_of_take_eq hlen htake, withInput_pos, scanStop]

theorem tokenFrom_bounded (p : τ → Bool) (f : List τ → Option τ → Except ε α) :
    Bounded lo next (tokenFrom lo p f : Reader τ σ ε α) := by
  intro s v t hs hok
  rw [tokenFrom_eq] at hok
  rw [(settle_eq_ok hok).2]
  exact moves_scanStop hs.valid

theorem tokenFrom_withInput {p : τ → Bool} {f : List τ → Option τ → Except ε α} {s : Cursor τ σ}
    {x : List τ} (hs : s.Meets lo next) (hlt : scanStop p s < s.input.length)
    (hx : AgreeOn lo (scanStop p s) s.input x) :
    (tokenFrom lo p f : Reader τ σ ε α) (s.withInput x)
      = settle { s.withInput x with pos := scanStop p s }
          (f ((s.input.take (scanStop p s)).drop lo) s.input[scanStop p s]?) := by
  have hstop := scanStop_withInput hlt (hx.mono hs.lo_le (Nat.le_refl _))
  have hle : lo ≤ scanStop p s := Nat.le_trans hs.lo_le (le_scanStop p s)
  rw [tokenFrom_eq, hstop, withInput_input, hx.slice_eq (Nat.le_refl _) (Nat.le_succ _),
    hx _ hle (Nat.le_refl _)]
  rfl

theorem tokenFrom_determined (p : τ → Bool) (f : List τ → Option τ → Except ε α) :
    Determined lo next (tokenFrom lo p f : Reader τ σ ε α) := by
  intro s v t hs hok hlt x hx
  rw [tokenFrom_eq] at hok
  obtain ⟨hf, rfl⟩ := settle_eq_ok hok
  rw [tokenFrom_withInput hs hlt hx, hf]
  rfl

/-- A verdict on a token whose terminator was seen does not change. -/
theorem tokenFrom_ext {p : τ → Bool} {f : List τ → Option τ → Except ε α} {s : Cursor τ σ}
    (hs : s.Meets lo next) (hlt : scanStop p s < s.input.length) (y : List τ) {e : ε}
    (he : (tokenFrom lo p f : Reader τ σ ε α) s = .error e) :
    (tokenFrom lo p f : Reader τ σ ε α) (s.ext y) = .error e := by
  have h := tokenFrom_withInput (f := f) hs hlt (AgreeOn.append hlt y)
  rw [tokenFrom_eq] at he
  rw [settle_eq_error he] at h
  exact h

/-- A token whose judge asks for more input whenever it has not seen the terminator. -/
theorem Lawful.token {p : τ → Bool} {f : List τ → Option τ → Except ε α}
    (hf : ∀ bs e, f bs none = .error e → e = inc) :
    Lawful inc lo next (tokenFrom lo p f : Reader τ σ ε α) where
  bounded := tokenFrom_bounded p f
  determined := tokenFrom_determined p f
  permanent s e hs herr hne y := by
    refine ⟨e, hne, tokenFrom_ext hs ?_ y herr⟩
    by_contra hge
    rw [tokenFrom_eq, List.getElem?_eq_none (Nat.le_of_not_lt hge)] at herr
    exact hne (hf _ _ (settle_eq_error herr))

theorem tokenFrom_firm {p : τ → Bool} {f : List τ → Option τ → Except ε α}
    (hf : ∀ bs v, f bs none ≠ .ok v) : Firm lo next (tokenFrom lo p f : Reader τ σ ε α) := by
  intro s v t hs hok y
  have hok' := hok
  rw [tokenFrom_eq] at hok'
  obtain ⟨hfv, rfl⟩ := settle_eq_ok hok'
  have hlt : scanStop p s < s.input.length := by
    by_contra hge
    rw [List.getElem?_eq_none (Nat.le_of_not_lt hge)] at hfv
    exact hf _ _ hfv
  exact tokenFrom_determined p f hs hok hlt (AgreeOn.append hlt y)

theorem tokenFrom_stuck_of_none {p : τ → Bool} {f : List τ → Option τ → Except ε α} (start : ℕ)
    (hf : ∀ bs, f bs none = .error inc) : Stuck inc (tokenFrom start p f : Reader τ σ ε α) := by
  intro s hv hend
  have hstop : s.input.length ≤ scanStop p s := Nat.le_trans hend (le_scanStop p s)
  rw [tokenFrom_eq, List.getElem?_eq_none hstop, hf]
  rfl

theorem tokenFrom_stuck {p : τ → Bool} {f : List τ → Option τ → Except ε α}
    (hf : f [] none = .error inc) :
    Stuck inc (position >>= fun start => tokenFrom start p f : Reader τ σ ε α) := by
  intro s hv hend
  change (tokenFrom s.pos p f : Reader τ σ ε α) s = _
  have hrest := rest_eq_nil_of_atEnd hend
  have hstop : scanStop p s = s.pos := by rw [scanStop, hrest]; rfl
  have hslice : (s.input.take s.pos).drop s.pos = [] := by simp
  rw [tokenFrom_eq, hstop, hslice, List.getElem?_eq_none hend, hf]
  rfl

/-! ### Charging for an item -/

/-- Charging the auxiliary state, then going on. The failures of `c` do not depend on the
buffer. -/
theorem Lawful.charge_bind {c : σ → Except ε σ} (hc : ∀ a e, c a = .error e → e ≠ inc)
    {p : Reader τ σ ε β} (hp : Lawful inc lo next p) :
    Lawful inc lo next (charge c >>= fun _ => p) := by
  have hmeets : ∀ {s : Cursor τ σ} aux, s.Meets lo next →
      ({ s with aux := aux } : Cursor τ σ).Meets lo next := fun _ hs =>
    ⟨hs.valid, hs.lo_le, hs.sees⟩
  refine ⟨fun s v u hs hok => ?_, fun s v u hs hok hlt x hx => ?_, fun s e hs herr hne y => ?_⟩
  · cases hca : c s.aux with
    | error e => rw [run_charge_bind_error hca] at hok; cases hok
    | ok aux =>
      rw [run_charge_bind_ok hca] at hok
      have hm := hp.bounded (hmeets _ hs) hok
      exact ⟨hm.input, hm.le, hm.valid⟩
  · cases hca : c s.aux with
    | error e => rw [run_charge_bind_error hca] at hok; cases hok
    | ok aux =>
      have hcx : c (s.withInput x).aux = .ok aux := hca
      rw [run_charge_bind_ok hca] at hok
      rw [run_charge_bind_ok hcx]
      exact hp.determined (hmeets _ hs) hok hlt hx
  · cases hca : c s.aux with
    | error e' =>
      have hcy : c (s.ext y).aux = .error e' := hca
      exact ⟨e', hc _ _ hca, run_charge_bind_error hcy _⟩
    | ok aux =>
      have hcy : c (s.ext y).aux = .ok aux := hca
      rw [run_charge_bind_ok hca] at herr
      rw [run_charge_bind_ok hcy]
      exact hp.permanent (hmeets _ hs) herr hne y

theorem charge_bounded (c : σ → Except ε σ) :
    Bounded lo next (charge c : Reader τ σ ε Unit) := by
  intro s v t hs hok
  rw [charge] at hok
  split at hok
  · cases hok; exact ⟨rfl, Nat.le_refl _, hs.valid⟩
  · cases hok

/-- **A list element charged before its terminator is seen.** The element may succeed
provisionally at the end of the buffer; if the charge then fails, it also fails, or the element
itself does, on every longer buffer. -/
theorem Lawful.item_bind {c : σ → Except ε σ} (hc : ∀ a e, c a = .error e → e ≠ inc)
    {p : Reader τ σ ε α} {q : α → Reader τ σ ε β} (hp : Lawful inc lo next p)
    (hsoft : Soft inc lo next p) (hq : ∀ a, Lawful inc lo none (q a))
    (hpat : ∀ a, Patient inc (q a)) :
    Lawful inc lo next (p >>= fun a => charge c >>= fun _ => q a) := by
  have hcq : ∀ a, Lawful inc lo none (charge c >>= fun _ => q a) := fun a =>
    Lawful.charge_bind hc (hq a)
  refine ⟨.bind hp.bounded fun a => (hcq a).bounded, fun s v u hs hok hlt x hx => ?_,
    fun s e hs herr hne y => ?_⟩
  · obtain ⟨a, t, hpt, hqt⟩ := run_bind_eq_ok hok
    have hm := hp.bounded hs hpt
    have hm' := (hcq a).bounded (hs.moves hm) hqt
    have htlt : t.pos < s.input.length := Nat.lt_of_le_of_lt hm'.le hlt
    rw [run_bind_ok (hp.determined hs hpt htlt (hx.mono (Nat.le_refl _) hm'.le))]
    refine (hcq a).determined (hs.moves hm) hqt (by rw [hm.input]; exact hlt) ?_
    rw [hm.input]
    exact hx
  · rcases run_bind_eq_error herr with hpe | ⟨a, t, hpt, hqe⟩
    · obtain ⟨e', hne', he'⟩ := hp.permanent hs hpe hne y
      exact ⟨e', hne', run_bind_error he'⟩
    have hm := hp.bounded hs hpt
    by_cases hlt : t.pos < s.input.length
    · obtain ⟨e', hne', he'⟩ := (hcq a).permanent (hs.moves hm) hqe hne y
      exact ⟨e', hne', by rw [run_bind_ok (hp.ext_ok hs hpt hlt y), he']⟩
    -- the element ended at the end of the buffer, so only the charge can have failed
    have hend : t.AtEnd := by rw [AtEnd, hm.input]; exact Nat.le_of_not_lt hlt
    have hce : c t.aux = .error e := by
      rcases run_bind_eq_error hqe with hce | ⟨_, u, hcu, hqe'⟩
      · rw [charge] at hce
        split at hce <;> cases hce
        assumption
      · rw [charge] at hcu
        split at hcu
        next aux _ =>
          cases hcu
          exact absurd (hpat a (s := { t with aux := aux }) hm.valid hend hqe') hne
        · cases hcu
    rcases hsoft hs hpt hend y with ⟨v', t', hpt', haux⟩ | ⟨e', hne', he'⟩
    · refine ⟨e, hne, ?_⟩
      rw [run_bind_ok hpt', run_bind, charge, haux, hce]
    · exact ⟨e', hne', run_bind_error he'⟩

/-! ### Patience and firmness -/

theorem Stuck.bind {p : Reader τ σ ε α} (hp : Stuck inc p) (q : α → Reader τ σ ε β) :
    Stuck inc (p >>= q) := fun _ hv hend => run_bind_error (hp hv hend)

theorem Hungry.bind {p : Reader τ σ ε α} (hp : Hungry p) (q : α → Reader τ σ ε β) :
    Hungry (p >>= q) := by
  intro s v u hv hend hok
  obtain ⟨a, t, hpt, _⟩ := run_bind_eq_ok hok
  exact hp hv hend hpt

theorem Hungry.charge_bind {c : σ → Except ε σ} {p : Reader τ σ ε β} (hp : Hungry p) :
    Hungry (charge c >>= fun _ => p) := by
  intro s v u hv hend hok
  obtain ⟨_, t, hct, hpt⟩ := run_bind_eq_ok hok
  rw [charge] at hct
  split at hct
  next aux _ => cases hct; exact hp (s := { s with aux := aux }) hv hend hpt
  · cases hct

theorem Patient.pure (a : α) : Patient inc (pure a : Reader τ σ ε α) := fun _ _ _ _ h => nomatch h

theorem Patient.try_bind [DecidableEq τ] {c : τ} {f : Bool → Reader τ σ ε β}
    (h : Patient inc (f false)) : Patient inc (tryConsume c >>= f) := by
  intro s e hv hend herr
  rw [run_tryConsume_bind, if_neg (by rw [List.getElem?_eq_none hend]; nofun)] at herr
  exact h hv hend herr

theorem peek_stuck : Stuck inc (peek inc : Reader τ σ ε τ) := fun _ _ hend => peek_atEnd hend

theorem Firm.pure (a : α) : Firm lo next (pure a : Reader τ σ ε α) := by
  intro s v t _ h y
  cases h
  rfl

theorem Firm.fail (e : ε) : Firm lo next (fail e : Reader τ σ ε α) := fun _ _ _ _ h => nomatch h

theorem Firm.peek_bind {f : τ → Reader τ σ ε β} (hf : ∀ c, Firm lo (some c) (f c)) :
    Firm lo next (peek inc >>= f) := by
  intro s v u hs hok y
  obtain ⟨c, t, hpt, hft⟩ := run_bind_eq_ok hok
  obtain ⟨hc, rfl⟩ := peek_eq_ok hpt
  rw [run_bind_ok (peek_of_some (((hs.see hc).ext y).sees c rfl))]
  exact hf c (hs.see hc) hft y

theorem Firm.advance_bind {c : τ} {p : Reader τ σ ε β} (hp : Firm lo none p) :
    Firm lo (some c) (advance >>= fun _ => p) :=
  fun _ _ _ hs hok y => hp (hs.moves hs.moves_succ) hok y

theorem Firm.position_bind {f : ℕ → Reader τ σ ε β} (hf : ∀ start, Firm start next (f start)) :
    Firm lo next (position >>= f) :=
  fun s _ _ hs hok y => hf s.pos hs.mark hok y

theorem Firm.slice_bind {start : ℕ} {f : List τ → Reader τ σ ε β}
    (hf : ∀ v, Firm lo next (f v)) : Firm lo next (sliceFrom start >>= f) := by
  intro s v u hs hok y
  rw [run_sliceFrom_bind] at hok ⊢
  rw [ext_input, ext_pos, List.take_append_of_le_length hs.valid]
  exact hf _ hs hok y

theorem Firm.charge_bind {c : σ → Except ε σ} {p : Reader τ σ ε β} (hp : Firm lo next p) :
    Firm lo next (charge c >>= fun _ => p) := by
  intro s v u hs hok y
  rw [run_bind, charge] at hok ⊢
  rw [ext_aux]
  cases hc : c s.aux with
  | error e => rw [hc] at hok; cases hok
  | ok aux =>
    rw [hc] at hok
    exact hp (s := { s with aux := aux }) ⟨hs.valid, hs.lo_le, hs.sees⟩ hok y

/-- An optional item is firm when the end of the buffer cannot pass for its absence. -/
theorem Firm.try_bind [DecidableEq τ] {c : τ} {f : Bool → Reader τ σ ε β}
    (hf : ∀ b, Firm lo none (f b)) (hfalse : Hungry (f false)) :
    Firm lo next (tryConsume c >>= f) := by
  intro s v u hs hok y
  rw [run_tryConsume_bind] at hok ⊢
  by_cases hend : s.AtEnd
  · rw [if_neg (by rw [List.getElem?_eq_none hend]; nofun)] at hok
    exact absurd hok (hfalse hs.valid hend)
  rw [getElem?_ext hend y]
  split at hok
  next hc =>
    rw [if_pos hc]
    exact hf true (hs.moves (hs.see hc).moves_succ) hok y
  next hc =>
    rw [if_neg hc]
    exact hf false hs.forget hok y

/-- A success followed by something that cannot succeed at the end of the buffer is unchanged by
more input. -/
theorem Lawful.ext_ok_of_hungry {p : Reader τ σ ε α} {q : α → Reader τ σ ε β}
    (hp : Lawful inc lo next p) (h : Firm lo next p ∨ ∀ a, Hungry (q a)) {s t u : Cursor τ σ}
    {a : α} {v : β} (hs : s.Meets lo next) (hpt : p s = .ok (a, t)) (hqt : q a t = .ok (v, u))
    (y : List τ) : p (s.ext y) = .ok (a, t.ext y) := by
  rcases h with hfirm | hhungry
  · exact hfirm hs hpt y
  · have hm := hp.bounded hs hpt
    refine hp.ext_ok hs hpt ?_ y
    by_contra hge
    exact hhungry a hm.valid (by rw [AtEnd, hm.input]; exact Nat.le_of_not_lt hge) hqt

/-- The first half may be provisional when the second cannot succeed at the end of the buffer. -/
theorem Firm.bind {p : Reader τ σ ε α} {q : α → Reader τ σ ε β} (hp : Lawful inc lo next p)
    (h : Firm lo next p ∨ ∀ a, Hungry (q a)) (hq : ∀ a, Firm lo none (q a)) :
    Firm lo next (p >>= q) := by
  intro s v u hs hok y
  obtain ⟨a, t, hpt, hqt⟩ := run_bind_eq_ok hok
  rw [run_bind_ok (hp.ext_ok_of_hungry h hs hpt hqt y)]
  exact hq a (hs.moves (hp.bounded hs hpt)) hqt y

theorem Soft.bind {p : Reader τ σ ε α} {q : α → Reader τ σ ε β} (hp : Lawful inc lo next p)
    (h : Firm lo next p ∨ ∀ a, Hungry (q a)) (hq : ∀ a, Soft inc lo none (q a)) :
    Soft inc lo next (p >>= q) := by
  intro s v u hs hok hend y
  obtain ⟨a, t, hpt, hqt⟩ := run_bind_eq_ok hok
  rw [run_bind_ok (hp.ext_ok_of_hungry h hs hpt hqt y)]
  exact hq a (hs.moves (hp.bounded hs hpt)) hqt hend y

/-- A reader that cannot fail and leaves the cursor where it is. -/
def Still (p : Reader τ σ ε α) : Prop := ∀ s, ∃ a, p s = .ok (a, s)

theorem Still.pure (a : α) : Still (pure a : Reader τ σ ε α) := fun _ => ⟨a, rfl⟩

theorem Still.position_bind {f : ℕ → Reader τ σ ε β} (hf : ∀ n, Still (f n)) :
    Still (position >>= f) := fun s => hf s.pos s

theorem Still.slice_bind {start : ℕ} {f : List τ → Reader τ σ ε β} (hf : ∀ v, Still (f v)) :
    Still (sliceFrom start >>= f) := fun s => hf _ s

theorem Still.patient {p : Reader τ σ ε α} (h : Still p) : Patient inc p := by
  intro s e _ _ he
  obtain ⟨a, ha⟩ := h s
  rw [ha] at he
  cases he

theorem Soft.still {p : Reader τ σ ε α} {q : α → Reader τ σ ε β} (hp : Soft inc lo next p)
    (hq : ∀ a, Still (q a)) : Soft inc lo next (p >>= q) := by
  intro s v u hs hok hend y
  obtain ⟨a, t, hpt, hqt⟩ := run_bind_eq_ok hok
  obtain ⟨b, hb⟩ := hq a t
  rw [hb] at hqt
  cases hqt
  rcases hp hs hpt hend y with ⟨a', t', hpt', haux⟩ | ⟨e, hne, he⟩
  · obtain ⟨b', hb'⟩ := hq a' t'
    exact .inl ⟨b', t', by rw [run_bind_ok hpt', hb'], haux⟩
  · exact .inr ⟨e, hne, run_bind_error he⟩

theorem Soft.peek_bind {f : τ → Reader τ σ ε β} (hf : ∀ c, Soft inc lo (some c) (f c)) :
    Soft inc lo next (peek inc >>= f) := by
  intro s v u hs hok hend y
  obtain ⟨c, t, hpt, hft⟩ := run_bind_eq_ok hok
  obtain ⟨hc, rfl⟩ := peek_eq_ok hpt
  rw [run_bind_ok (peek_of_some (((hs.see hc).ext y).sees c rfl))]
  exact hf c (hs.see hc) hft hend y

theorem Soft.ite {c : Prop} [Decidable c] {p q : Reader τ σ ε α} (hp : Soft inc lo next p)
    (hq : Soft inc lo next q) : Soft inc lo next (if c then p else q) := by
  split
  · exact hp
  · exact hq

theorem Soft.try_bind [DecidableEq τ] {c : τ} {f : Bool → Reader τ σ ε β}
    (hf : ∀ b, Soft inc lo none (f b)) (hfalse : Hungry (f false)) :
    Soft inc lo next (tryConsume c >>= f) := by
  intro s v u hs hok hend y
  rw [run_tryConsume_bind] at hok ⊢
  by_cases hs' : s.AtEnd
  · rw [if_neg (by rw [List.getElem?_eq_none hs']; nofun)] at hok
    exact absurd hok (hfalse hs.valid hs')
  rw [getElem?_ext hs' y]
  split at hok
  next hc =>
    rw [if_pos hc]
    exact hf true (hs.moves (hs.see hc).moves_succ) hok hend y
  next hc =>
    rw [if_neg hc]
    exact hf false hs.forget hok hend y

/-! ### Exact readers

A reader that ends by consuming a terminator depends on what it consumed and on nothing after
it, so it is unchanged by cutting the buffer off exactly where it stopped. -/

/-- Every success consumes something. -/
def Consumes (lo : ℕ) (next : Option τ) (p : Reader τ σ ε α) : Prop :=
  ∀ ⦃s v t⦄, s.Meets lo next → p s = .ok (v, t) → s.pos < t.pos

/-- A success depends only on the items from the mark up to, but not including, the one under the
final cursor. -/
def Exact (lo : ℕ) (next : Option τ) (p : Reader τ σ ε α) : Prop :=
  ∀ ⦃s v t⦄, s.Meets lo next → p s = .ok (v, t) →
    ∀ ⦃x : List τ⦄, (∀ i, lo ≤ i → i < t.pos → x[i]? = s.input[i]?) →
      p (s.withInput x) = .ok (v, t.withInput x)

theorem Exact.bind {p : Reader τ σ ε α} {q : α → Reader τ σ ε β} (hp : Lawful inc lo next p)
    (hb : ∀ a, Bounded lo none (q a)) (hq : ∀ a, Exact lo none (q a))
    (hc : ∀ a, Consumes lo none (q a)) : Exact lo next (p >>= q) := by
  intro s v u hs hok x hx
  obtain ⟨a, t, hpt, hqt⟩ := run_bind_eq_ok hok
  have hm := hp.bounded hs hpt
  have hlt : t.pos < u.pos := hc a (hs.moves hm) hqt
  have hule : u.pos ≤ s.input.length := by rw [← hm.input]; exact (hb a (hs.moves hm) hqt).pos_le
  rw [run_bind_ok (hp.determined hs hpt (Nat.lt_of_lt_of_le hlt hule) fun i h₁ h₂ =>
    hx i h₁ (Nat.lt_of_le_of_lt h₂ hlt))]
  refine hq a (hs.moves hm) hqt ?_
  rw [hm.input]
  exact hx

theorem Exact.peek_bind {f : τ → Reader τ σ ε β} (hf : ∀ c, Exact lo (some c) (f c))
    (hc : ∀ c, Consumes lo (some c) (f c)) : Exact lo next (peek inc >>= f) := by
  intro s v u hs hok x hx
  obtain ⟨c, t, hpt, hft⟩ := run_bind_eq_ok hok
  obtain ⟨hcs, rfl⟩ := peek_eq_ok hpt
  have hxc : x[t.pos]? = some c := by rw [hx t.pos hs.lo_le (hc c (hs.see hcs) hft), hcs]
  rw [run_bind_ok (peek_of_some (s := t.withInput x) hxc)]
  exact hf c (hs.see hcs) hft hx

theorem Exact.firm {p : Reader τ σ ε α} (hb : Bounded lo next p) (h : Exact lo next p) :
    Firm lo next p := by
  intro s v t hs hok y
  have hm := hb hs hok
  have hx := h hs hok (x := s.input ++ y) fun i _ hi =>
    List.getElem?_append_left (Nat.lt_of_lt_of_le hi hm.pos_le)
  rwa [hm.withInput_ext] at hx

theorem Consumes.bind_left {p : Reader τ σ ε α} {q : α → Reader τ σ ε β}
    (hb : Bounded lo next p) (hp : Consumes lo next p) (hq : ∀ a, Bounded lo none (q a)) :
    Consumes lo next (p >>= q) := by
  intro s v u hs hok
  obtain ⟨a, t, hpt, hqt⟩ := run_bind_eq_ok hok
  exact Nat.lt_of_lt_of_le (hp hs hpt) (hq a (hs.moves (hb hs hpt)) hqt).le

theorem Consumes.position_bind {f : ℕ → Reader τ σ ε β}
    (hf : ∀ start, Consumes start next (f start)) : Consumes lo next (position >>= f) :=
  fun s _ _ hs hok => hf s.pos hs.mark hok

/-! ### Loops -/

/-- A round that goes on has consumed something. -/
def Advances (lo : ℕ) (next : Option τ) (p : Reader τ σ ε (Flow α β)) : Prop :=
  ∀ ⦃s a' t⦄, s.Meets lo next → p s = .ok (.again a', t) → s.pos < t.pos

/-- Every round that goes on has consumed something. -/
def Progress (lo : ℕ) (body : α → Reader τ σ ε (Flow α β)) : Prop :=
  ∀ a, Advances lo none (body a)

theorem Advances.done (b : β) :
    Advances lo next (pure (.done b) : Reader τ σ ε (Flow α β)) := fun _ _ _ _ h => nomatch h

theorem Advances.fail (e : ε) : Advances lo next (fail e : Reader τ σ ε (Flow α β)) :=
  fun _ _ _ _ h => nomatch h

theorem Advances.peek_bind {f : τ → Reader τ σ ε (Flow α β)}
    (hf : ∀ c, Advances lo (some c) (f c)) : Advances lo next (peek inc >>= f) := by
  intro s a' u hs hok
  obtain ⟨c, t, hpt, hft⟩ := run_bind_eq_ok hok
  obtain ⟨hc, rfl⟩ := peek_eq_ok hpt
  exact hf c (hs.see hc) hft

theorem Advances.advance_bind {c : τ} {p : Reader τ σ ε (Flow α β)} (hp : Bounded lo none p) :
    Advances lo (some c) (advance >>= fun _ => p) :=
  fun _ _ _ hs hok => (hp (hs.moves hs.moves_succ) hok).le

theorem Advances.slice_bind {start : ℕ} {f : List τ → Reader τ σ ε (Flow α β)}
    (hf : ∀ v, Advances lo next (f v)) : Advances lo next (sliceFrom start >>= f) :=
  fun _ _ _ hs hok => hf _ hs hok

theorem Advances.try_bind [DecidableEq τ] {c : τ} {f : Bool → Reader τ σ ε (Flow α β)}
    (ht : Bounded lo none (f true)) (hf : Advances lo none (f false)) :
    Advances lo next (tryConsume c >>= f) := by
  intro s a' u hs hok
  rw [run_tryConsume_bind] at hok
  split at hok
  next hc => exact (ht (hs.moves (hs.see hc).moves_succ) hok).le
  · exact hf hs.forget hok

theorem Advances.bind_left {γ : Type} {p : Reader τ σ ε γ} {q : γ → Reader τ σ ε (Flow α β)}
    (hb : Bounded lo next p) (hc : Consumes lo next p) (hq : ∀ a, Bounded lo none (q a)) :
    Advances lo next (p >>= q) := by
  intro s a' u hs hok
  exact hc.bind_left hb hq hs hok

theorem Advances.bind_right {γ : Type} {p : Reader τ σ ε γ} {q : γ → Reader τ σ ε (Flow α β)}
    (hb : Bounded lo next p) (hq : ∀ a, Advances lo none (q a)) : Advances lo next (p >>= q) := by
  intro s a' u hs hok
  obtain ⟨a, t, hpt, hqt⟩ := run_bind_eq_ok hok
  have hm := hb hs hpt
  exact Nat.lt_of_le_of_lt hm.le (hq a (hs.moves hm) hqt)

section Loop

variable {stuck : ε} {body : α → Reader τ σ ε (Flow α β)}

theorem iterateN_succ (fuel : ℕ) (a : α) (s : Cursor τ σ) :
    iterateN stuck body (fuel + 1) a s = match body a s with
      | .ok (.again a', t) => iterateN stuck body fuel a' t
      | .ok (.done b, t) => .ok (b, t)
      | .error e => .error e := by
  rw [iterateN, run_bind]
  cases body a s with
  | error e => rfl
  | ok r =>
    obtain ⟨r, t⟩ := r
    cases r <;> rfl

/-- Any two amounts of fuel above the number of items left give the same result. -/
theorem iterateN_fuel (hb : ∀ a, Bounded lo none (body a)) (hp : Progress lo body) :
    ∀ (n m : ℕ) (a : α) (s : Cursor τ σ), s.Meets lo none → s.input.length - s.pos < n →
      s.input.length - s.pos < m → iterateN stuck body n a s = iterateN stuck body m a s := by
  intro n
  induction n with
  | zero => intro m a s _ h; exact absurd h (Nat.not_lt_zero _)
  | succ n ih =>
    intro m a s hs hn hm
    obtain ⟨m, rfl⟩ : ∃ k, m = k + 1 := ⟨m - 1, by omega⟩
    rw [iterateN_succ, iterateN_succ]
    cases hbody : body a s with
    | error e => rfl
    | ok r =>
      obtain ⟨r, t⟩ := r
      cases r with
      | done b => rfl
      | again a' =>
        have hmv := hb a hs hbody
        have hlt := hp a hs hbody
        have hle := hmv.pos_le
        refine ih m a' t (hs.moves hmv) ?_ ?_ <;> rw [hmv.input] <;> omega

/-- **The loop equation.** The fuel is gone: one round, then the loop again. -/
theorem iterate_eq (hb : ∀ a, Bounded lo none (body a)) (hp : Progress lo body) {s : Cursor τ σ}
    (hs : s.Meets lo none) (a : α) :
    iterate stuck body a s = match body a s with
      | .ok (.again a', t) => iterate stuck body a' t
      | .ok (.done b, t) => .ok (b, t)
      | .error e => .error e := by
  rw [iterate, iterateN_succ]
  cases hbody : body a s with
  | error e => rfl
  | ok r =>
    obtain ⟨r, t⟩ := r
    cases r with
    | done b => rfl
    | again a' =>
      have hmv := hb a hs hbody
      have hlt := hp a hs hbody
      have hle := hmv.pos_le
      refine iterateN_fuel hb hp _ _ a' t (hs.moves hmv) ?_ ?_ <;> rw [hmv.input] <;> omega

/-- Induction along a loop: what holds of a round given that it holds of the next one holds of
every round. -/
theorem iterate_induction (hb : ∀ a, Bounded lo none (body a)) (hp : Progress lo body)
    {motive : α → Cursor τ σ → Prop}
    (step : ∀ a s, s.Meets lo none →
      (∀ a' t, body a s = .ok (.again a', t) → motive a' t) → motive a s) :
    ∀ a s, s.Meets lo none → motive a s := by
  have key : ∀ (n : ℕ) a s, s.Meets lo none → s.input.length - s.pos ≤ n → motive a s := by
    intro n
    induction n with
    | zero =>
      intro a s hs hn
      refine step a s hs fun a' t hbody => ?_
      have hmv := hb a hs hbody
      have := hp a hs hbody
      have := hmv.pos_le
      omega
    | succ n ih =>
      intro a s hs hn
      refine step a s hs fun a' t hbody => ?_
      have hmv := hb a hs hbody
      have := hp a hs hbody
      have := hmv.pos_le
      refine ih a' t (hs.moves hmv) ?_
      rw [hmv.input]
      omega
  exact fun a s hs => key _ a s hs (Nat.le_refl _)

/-- A loop asks for more input at the end of the buffer if its body does. -/
theorem iterate_stuck (hb : ∀ a, Bounded 0 none (body a)) (hp : Progress 0 body)
    (h : ∀ a, Stuck inc (body a)) (a : α) : Stuck inc (iterate stuck body a) := by
  intro s hv hend
  rw [iterate_eq hb hp (Meets.zero hv), h a hv hend]

theorem iterate_bounded (hb : ∀ a, Bounded lo none (body a)) (hp : Progress lo body) (a : α) :
    Bounded lo none (iterate stuck body a) := by
  intro s v u hs
  revert v u
  refine iterate_induction hb hp (motive := fun a s => ∀ v u,
    iterate stuck body a s = .ok (v, u) → s.Moves u) ?_ a s hs
  intro a s hs ih v u hok
  rw [iterate_eq hb hp hs] at hok
  split at hok
  next a' t h => exact (hb a hs h).trans (ih a' t h v u hok)
  next b t h => cases hok; exact hb a hs h
  · cases hok

theorem iterate_determined (hbody : ∀ a, Lawful inc lo none (body a)) (hp : Progress lo body)
    (a : α) : Determined lo none (iterate stuck body a) := by
  have hb : ∀ a, Bounded lo none (body a) := fun a => (hbody a).bounded
  intro s v u hs
  revert v u
  refine iterate_induction hb hp (motive := fun a s => ∀ v u,
    iterate stuck body a s = .ok (v, u) → u.pos < s.input.length → ∀ ⦃x⦄,
      AgreeOn lo u.pos s.input x →
        iterate stuck body a (s.withInput x) = .ok (v, u.withInput x)) ?_ a s hs
  intro a s hs ih v u hok hlt x hx
  have hle : s.pos ≤ u.pos := (iterate_bounded hb hp a hs hok).le
  rw [iterate_eq hb hp (hs.withInput hx hle hlt)]
  rw [iterate_eq hb hp hs] at hok
  split at hok
  next a' t h =>
    have hm := hb a hs h
    have htu : t.pos ≤ u.pos := (iterate_bounded hb hp a' (hs.moves hm) hok).le
    rw [(hbody a).determined hs h (Nat.lt_of_le_of_lt htu hlt) (hx.mono (Nat.le_refl _) htu)]
    rw [← hm.input] at hlt hx
    exact ih a' t h v u hok hlt hx
  next b t h =>
    cases hok
    rw [(hbody a).determined hs h hlt hx]
  · cases hok

theorem iterate_permanent (hbody : ∀ a, Lawful inc lo none (body a)) (hp : Progress lo body)
    (hpat : ∀ a, Patient inc (body a)) (a : α) : Permanent inc lo none (iterate stuck body a) := by
  have hb : ∀ a, Bounded lo none (body a) := fun a => (hbody a).bounded
  intro s e hs
  refine iterate_induction hb hp (motive := fun a s => iterate stuck body a s = .error e →
    e ≠ inc → ∀ y, ∃ e', e' ≠ inc ∧ iterate stuck body a (s.ext y) = .error e') ?_ a s hs
  intro a s hs ih herr hne y
  rw [iterate_eq hb hp (hs.ext y)]
  have hround : iterate stuck body a s = _ := iterate_eq hb hp hs a
  rw [herr] at hround
  split at hround
  next a' t h =>
    have hm := hb a hs h
    -- the next round failed for good, so it did not start at the end of the buffer
    have hlt : t.pos < s.input.length := by
      by_contra hge
      have hend : t.AtEnd := by rw [AtEnd, hm.input]; exact Nat.le_of_not_lt hge
      rw [iterate_eq hb hp (hs.moves hm)] at hround
      split at hround
      next a'' t' h' =>
        have := hp a' (hs.moves hm) h'
        have := (hb a' (hs.moves hm) h').pos_le
        rw [AtEnd] at hend
        omega
      · cases hround
      next e' h' => cases hround; exact hne (hpat a' hm.valid hend h')
    rw [(hbody a).ext_ok hs h hlt y]
    exact ih a' t h hround.symm hne y
  · cases hround
  next e' h =>
    cases hround
    obtain ⟨e', hne', he'⟩ := (hbody a).permanent hs h hne y
    exact ⟨e', hne', by rw [he']⟩

theorem iterate_firm (hbody : ∀ a, Firm lo none (body a)) (hb : ∀ a, Bounded lo none (body a))
    (hp : Progress lo body) (a : α) : Firm lo next (iterate stuck body a) := by
  intro s v u hs
  revert v u
  refine iterate_induction hb hp (motive := fun a s => ∀ v u,
    iterate stuck body a s = .ok (v, u) → ∀ y,
      iterate stuck body a (s.ext y) = .ok (v, u.ext y)) ?_ a s hs.forget
  intro a s hs ih v u hok y
  rw [iterate_eq hb hp (hs.ext y)]
  rw [iterate_eq hb hp hs] at hok
  split at hok
  next a' t h =>
    rw [hbody a hs h y]
    exact ih a' t h v u hok y
  next b t h =>
    cases hok
    rw [hbody a hs h y]
  · cases hok

/-- **Loops.** A loop is lawful if its body is, makes progress, and is patient. -/
theorem Lawful.iterate (hbody : ∀ a, Lawful inc lo none (body a)) (hp : Progress lo body)
    (hpat : ∀ a, Patient inc (body a)) (a : α) :
    Lawful inc lo next (Incremental.iterate stuck body a) :=
  Lawful.weaken ⟨iterate_bounded (fun a => (hbody a).bounded) hp a, iterate_determined hbody hp a,
    iterate_permanent hbody hp hpat a⟩

end Loop

/-! ### What a reader returns -/

section Yields

variable {P : α → Prop} {Q : β → Prop}

/-- Whatever `p` returns satisfies `P`. -/
def Yields (P : α → Prop) (p : Reader τ σ ε α) : Prop := ∀ ⦃s v t⦄, p s = .ok (v, t) → P v

theorem Yields.pure {a : α} (h : P a) : Yields P (pure a : Reader τ σ ε α) := by
  intro s v t hok
  cases hok
  exact h

theorem Yields.bind {p : Reader τ σ ε α} {q : α → Reader τ σ ε β} (hp : Yields P p)
    (hq : ∀ a, P a → Yields Q (q a)) : Yields Q (p >>= q) := by
  intro s v t hok
  obtain ⟨a, u, hpu, hqt⟩ := run_bind_eq_ok hok
  exact hq a (hp hpu) hqt

/-- Only the second half matters. -/
theorem Yields.bind_right {p : Reader τ σ ε α} {q : α → Reader τ σ ε β}
    (hq : ∀ a, Yields Q (q a)) : Yields Q (p >>= q) :=
  .bind (P := fun _ => True) (fun _ _ _ _ => trivial) fun a _ => hq a

end Yields

end Incremental
