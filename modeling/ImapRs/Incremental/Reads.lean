import ImapRs.Incremental.Laws

/-!
# Reading back what was written

`Reads left x cost follow p Q`: in front of `x`, followed by anything that `follow` allows, the
reader `p` consumes exactly `x` and returns a value with `Q`, and of a resource measured by `left`
it uses up exactly `cost`. A round trip is then proved one production at a time: what a sequence of
readers reads is the concatenation of what each of them reads, as long as what comes after the first
is allowed to follow it.

## Main definitions

* `Reads` — a reader in front of a text
* `Starts` — the text goes on, and with an item of a certain kind

## Main results

* `Reads.bind` — sequencing
* `Reads.token` — scanning
* `Reads.iterate_again`, `Reads.iterate_done` — loops
-/

namespace Incremental

open Cursor

variable {τ σ ε α β : Type} {left : σ → ℕ} {x x' : List τ} {c d : ℕ} {F G : List τ → Prop}
  {Q R : α → Prop}

/-- In front of `x` and whatever may follow it, `p` consumes `x` and returns a value with `Q`. -/
def Reads (left : σ → ℕ) (x : List τ) (cost : ℕ) (follow : List τ → Prop) (p : Reader τ σ ε α)
    (Q : α → Prop) : Prop :=
  ∀ (s : Cursor τ σ) (y : List τ), s.Valid → s.rest = x ++ y → follow y → cost ≤ left s.aux →
    ∃ v a, p s = .ok (v, ⟨s.input, s.pos + x.length, a⟩) ∧ left a + cost = left s.aux ∧ Q v

/-- The text goes on with an item in `P`. -/
def Starts (P : τ → Prop) (y : List τ) : Prop := ∃ c t, y = c :: t ∧ P c

theorem Starts.cons {P : τ → Prop} {c : τ} (h : P c) (t : List τ) : Starts P (c :: t) :=
  ⟨c, t, rfl, h⟩

theorem Starts.self (c : τ) (t : List τ) : Starts (· = c) (c :: t) := ⟨c, t, rfl, rfl⟩

theorem Starts.append {P : τ → Prop} {y : List τ} (h : Starts P y) (z : List τ) :
    Starts P (y ++ z) := by
  obtain ⟨c, t, rfl, hc⟩ := h
  exact .cons hc (t ++ z)

theorem Starts.mono {P P' : τ → Prop} {y : List τ} (h : Starts P y) (hP : ∀ c, P c → P' c) :
    Starts P' y := by
  obtain ⟨c, t, rfl, hc⟩ := h
  exact .cons (hP c hc) t

namespace Reads

variable {p : Reader τ σ ε α} {q : α → Reader τ σ ε β} {S : β → Prop}

theorem mono (h : Reads left x c F p Q) (hF : ∀ y, G y → F y) (hQ : ∀ v, Q v → R v) :
    Reads left x c G p R := by
  intro s y hv hrest hG hc
  obtain ⟨v, a, hp, hleft, hQv⟩ := h s y hv hrest (hF y hG) hc
  exact ⟨v, a, hp, hleft, hQ v hQv⟩

theorem following (h : Reads left x c F p Q) (hF : ∀ y, G y → F y) : Reads left x c G p Q :=
  h.mono hF fun _ hQ => hQ

theorem pure {v : α} (h : Q v) : Reads left [] 0 F (pure v : Reader τ σ ε α) Q := by
  intro s y _ _ _ _
  exact ⟨v, s.aux, rfl, Nat.add_zero _, h⟩

/-- **Sequencing.** -/
theorem bind (hp : Reads left x c G p R) (hq : ∀ v, R v → Reads left x' d F (q v) S)
    (hF : ∀ y, F y → G (x' ++ y)) : Reads left (x ++ x') (c + d) F (p >>= q) S := by
  intro s y hv hrest hFy hc
  rw [List.append_assoc] at hrest
  obtain ⟨v, a, hpv, hleft, hR⟩ := hp s (x' ++ y) hv hrest (hF y hFy) (by omega)
  obtain ⟨w, b, hqw, hleft', hS⟩ := hq v hR ⟨s.input, s.pos + x.length, a⟩ y
    (valid_behind hv hrest a) (rest_behind hrest a) hFy (by dsimp only; omega)
  refine ⟨w, b, ?_, ?_, hS⟩
  · rw [run_bind_ok hpv, hqw, List.length_append, ← Nat.add_assoc]
  · dsimp only at hleft'
    omega

/-- What follows only decides on the result. -/
theorem bind_pure (hp : Reads left x c F p R)
    (hq : ∀ v, R v → ∃ w, q v = Pure.pure w ∧ S w) : Reads left x c F (p >>= q) S := by
  intro s y hv hrest hFy hc
  obtain ⟨v, a, hpv, hleft, hR⟩ := hp s y hv hrest hFy hc
  obtain ⟨w, hqv, hS⟩ := hq v hR
  exact ⟨w, a, by rw [run_bind_ok hpv, hqv]; rfl, hleft, hS⟩

/-- What is returned is changed. -/
theorem map (hp : Reads left x c F p R) {g : α → β} (hg : ∀ v, R v → S (g v)) :
    Reads left x c F (p >>= fun v => Pure.pure (g v)) S :=
  hp.bind_pure fun v hv => ⟨g v, rfl, hg v hv⟩

/-- Sequencing, when the first reader costs nothing. -/
theorem free_bind (hp : Reads left x 0 G p R) (hq : ∀ v, R v → Reads left x' c F (q v) S)
    (hF : ∀ y, F y → G (x' ++ y)) : Reads left (x ++ x') c F (p >>= q) S := by
  have h := hp.bind hq hF
  rwa [Nat.zero_add] at h

/-- Sequencing, when the second reader costs nothing. -/
theorem bind_free (hp : Reads left x c G p R) (hq : ∀ v, R v → Reads left x' 0 F (q v) S)
    (hF : ∀ y, F y → G (x' ++ y)) : Reads left (x ++ x') c F (p >>= q) S :=
  hp.bind hq hF

/-- Sequencing, when the second reader consumes nothing. -/
theorem bind_nil (hp : Reads left x c G p R) (hq : ∀ v, R v → Reads left [] d F (q v) S)
    (hF : ∀ y, F y → G y) : Reads left x (c + d) F (p >>= q) S := by
  have h := hp.bind hq hF
  rwa [List.append_nil] at h

/-- What was read is kept as a slice. -/
theorem capture (hp : Reads left x c F p R) {g : ℕ → List τ → β} (hg : ∀ start, S (g start x)) :
    Reads left x c F (position >>= fun start => p >>= fun _ =>
      sliceFrom start >>= fun bytes => Pure.pure (g start bytes)) S := by
  intro s y hv hrest hFy hc
  obtain ⟨v, a, hpv, hleft, _⟩ := hp s y hv hrest hFy hc
  refine ⟨g s.pos x, a, ?_, hleft, hg s.pos⟩
  rw [run_position_bind, run_bind_ok hpv, run_sliceFrom_bind, slice_behind hrest]
  rfl

theorem position_bind {f : ℕ → Reader τ σ ε β} (h : ∀ n, Reads left x c F (f n) S) :
    Reads left x c F (position >>= f) S := by
  intro s y hv hrest hFy hc
  rw [run_position_bind]
  exact h s.pos s y hv hrest hFy hc

/-- A look at the first item. -/
theorem peek_bind {inc : ε} {f : τ → Reader τ σ ε β} {b : τ} {t : List τ}
    (h : Reads left (b :: t) c F (f b) S) : Reads left (b :: t) c F (peek inc >>= f) S := by
  intro s y hv hrest hFy hc
  have hget : s.input[s.pos]? = some b := by
    rw [s.getElem?_pos, hrest]
    rfl
  rw [run_bind_ok (peek_of_some hget)]
  exact h s y hv hrest hFy hc

theorem advance_bind {f : Unit → Reader τ σ ε β} {b : τ} {t : List τ}
    (h : Reads left t c F (f ()) S) : Reads left (b :: t) c F (advance >>= f) S := by
  intro s y hv hrest hFy hc
  have hrest' : s.rest = [b] ++ (t ++ y) := hrest
  obtain ⟨v, a, hv', hleft, hS⟩ := h ⟨s.input, s.pos + 1, s.aux⟩ y (valid_behind hv hrest' s.aux)
    (rest_behind hrest' s.aux) hFy hc
  refine ⟨v, a, ?_, hleft, hS⟩
  rw [run_advance_bind, hv', List.length_cons]
  simp only [Nat.add_assoc, Nat.add_comm 1]

/-- The item looked for is there. -/
theorem try_pos [DecidableEq τ] {f : Bool → Reader τ σ ε β} {b : τ} {t : List τ}
    (h : Reads left t c F (f true) S) : Reads left (b :: t) c F (tryConsume b >>= f) S := by
  intro s y hv hrest hFy hc
  have hget : s.input[s.pos]? = some b := by
    rw [s.getElem?_pos, hrest]
    rfl
  have hadvance := advance_bind (b := b) (f := fun _ => f true) h s y hv hrest hFy hc
  rwa [run_tryConsume_bind, if_pos hget]

/-- The item looked for is not there. -/
theorem try_neg [DecidableEq τ] {f : Bool → Reader τ σ ε β} {b : τ}
    (hb : ∀ y, F y → (x ++ y).head? ≠ some b) (h : Reads left x c F (f false) S) :
    Reads left x c F (tryConsume b >>= f) S := by
  intro s y hv hrest hFy hc
  have hget : s.input[s.pos]? ≠ some b := by
    rw [s.getElem?_pos, hrest]
    exact hb y hFy
  rw [run_tryConsume_bind, if_neg hget]
  exact h s y hv hrest hFy hc

/-- **Scanning.** The items in front are of one kind, and the next one is not. -/
theorem token {k : τ → Bool} {f : List τ → Option τ → Except ε α} {v : α}
    (hx : ∀ b ∈ x, k b = true) (hQ : Q v) :
    Reads left x 0 (Starts fun b => k b = false ∧ f x (some b) = .ok v)
      (position >>= fun start => tokenFrom start k f) Q := by
  intro s y hv hrest hF _
  obtain ⟨b, t, rfl, hb, hf⟩ := hF
  have hscan : s.rest.takeWhile k = x := by
    rw [hrest, List.takeWhile_append_of_pos hx, List.takeWhile_cons_of_neg (by rw [hb]; decide),
      List.append_nil]
  have hstop : scanStop k s = s.pos + x.length := by rw [scanStop, hscan]
  have hnext : s.input[s.pos + x.length]? = some b := by
    rw [s.getElem?_pos_add, hrest]
    simp
  refine ⟨v, s.aux, ?_, Nat.add_zero _, hQ⟩
  rw [run_position_bind, tokenFrom_eq, hstop, hnext, slice_behind hrest, hf]
  rfl

/-! ### Loops -/

section Loops

variable {stuck : ε} {body : α → Reader τ σ ε (Flow α β)} {a : α}

/-- **One more round.** -/
theorem iterate_again (hb : ∀ a, Bounded 0 none (body a)) (hp : Progress 0 body)
    (hround : Reads left x c G (body a) fun v => ∃ a', v = .again a' ∧ R a')
    (hrest : ∀ a', R a' → Reads left x' d F (iterate stuck body a') S)
    (hF : ∀ y, F y → G (x' ++ y)) : Reads left (x ++ x') (c + d) F (iterate stuck body a) S := by
  intro s y hv hxs hFy hc
  rw [List.append_assoc] at hxs
  obtain ⟨v, b, hbody, hleft, a', rfl, hR⟩ := hround s (x' ++ y) hv hxs (hF y hFy) (by omega)
  obtain ⟨w, b', hloop, hleft', hS⟩ := hrest a' hR ⟨s.input, s.pos + x.length, b⟩ y
    (valid_behind hv hxs b) (rest_behind hxs b) hFy (by dsimp only; omega)
  refine ⟨w, b', ?_, ?_, hS⟩
  · rw [iterate_eq hb hp (.zero hv), hbody]
    dsimp only
    rw [hloop, List.length_append, ← Nat.add_assoc]
  · dsimp only at hleft'
    omega

/-- **The last round.** -/
theorem iterate_done (hb : ∀ a, Bounded 0 none (body a)) (hp : Progress 0 body)
    (hround : Reads left x c F (body a) fun v => ∃ b, v = .done b ∧ S b) :
    Reads left x c F (iterate stuck body a) S := by
  intro s y hv hxs hFy hc
  obtain ⟨v, b, hbody, hleft, w, rfl, hS⟩ := hround s y hv hxs hFy hc
  refine ⟨w, b, ?_, hleft, hS⟩
  rw [iterate_eq hb hp (.zero hv), hbody]

end Loops

end Reads

end Incremental
