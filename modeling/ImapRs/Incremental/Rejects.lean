import ImapRs.Incremental.Reads

/-!
# Rejecting what was written

`Rejects left x cost follow p E`: in front of `x`, followed by anything that `follow` allows, the
reader `p` fails with an error in `E`, if of a resource measured by `left` there is at least `cost`
to spend. It is the counterpart of `Reads`: a text is rejected by a sequence of readers when the
first of them rejects how it starts, or reads how it starts and the others reject what is left.

## Main definitions

* `Rejects` — a reader that fails in front of a text

## Main results

* `Rejects.first`, `Rejects.bind` — sequencing
* `Rejects.iterate_now`, `Rejects.iterate_later` — loops
-/

namespace Incremental

open Cursor

variable {τ σ ε α β : Type} {left : σ → ℕ} {x x' : List τ} {c d : ℕ} {F G : List τ → Prop}
  {R : α → Prop} {E : ε → Prop}

/-- In front of `x` and whatever may follow it, `p` fails with an error in `E`. -/
def Rejects (left : σ → ℕ) (x : List τ) (cost : ℕ) (follow : List τ → Prop) (p : Reader τ σ ε α)
    (E : ε → Prop) : Prop :=
  ∀ (s : Cursor τ σ) (y : List τ), s.Valid → s.rest = x ++ y → follow y → cost ≤ left s.aux →
    ∃ e, p s = .error e ∧ E e

namespace Rejects

variable {p : Reader τ σ ε α} {q : α → Reader τ σ ε β}

theorem fail {e : ε} (h : E e) : Rejects left x c F (fail e : Reader τ σ ε α) E :=
  fun _ _ _ _ _ _ => ⟨e, rfl, h⟩

/-- There may be more to spend, and more text. -/
theorem weaken (h : Rejects left x c G p E) (hc : c ≤ d) (hF : ∀ y, F y → G (x' ++ y)) :
    Rejects left (x ++ x') d F p E := by
  intro s y hv hrest hFy hd
  rw [List.append_assoc] at hrest
  exact h s (x' ++ y) hv hrest (hF y hFy) (Nat.le_trans hc hd)

theorem following (h : Rejects left x c F p E) (hF : ∀ y, G y → F y) : Rejects left x c G p E :=
  fun s y hv hrest hG hc => h s y hv hrest (hF y hG) hc

theorem mono {E' : ε → Prop} (h : Rejects left x c F p E) (hE : ∀ e, E e → E' e) :
    Rejects left x c F p E' := by
  intro s y hv hrest hFy hc
  obtain ⟨e, he, hEe⟩ := h s y hv hrest hFy hc
  exact ⟨e, he, hE e hEe⟩

/-- What comes first is rejected. -/
theorem first (h : Rejects left x c F p E) : Rejects left x c F (p >>= q) E := by
  intro s y hv hrest hFy hc
  obtain ⟨e, he, hE⟩ := h s y hv hrest hFy hc
  exact ⟨e, run_bind_error he, hE⟩

/-- **What comes first is read, what comes next is rejected.** -/
theorem bind (hp : Reads left x c G p R) (hq : ∀ v, R v → Rejects left x' d F (q v) E)
    (hF : ∀ y, F y → G (x' ++ y)) : Rejects left (x ++ x') (c + d) F (p >>= q) E := by
  intro s y hv hrest hFy hc
  rw [List.append_assoc] at hrest
  obtain ⟨v, a, hpv, hleft, hR⟩ := hp s (x' ++ y) hv hrest (hF y hFy) (by omega)
  obtain ⟨e, he, hE⟩ := hq v hR ⟨s.input, s.pos + x.length, a⟩ y
    (valid_behind hv hrest a) (rest_behind hrest a) hFy (by dsimp only; omega)
  exact ⟨e, by rw [run_bind_ok hpv, he], hE⟩

/-- Sequencing, when the first reader costs nothing. -/
theorem free_bind (hp : Reads left x 0 G p R) (hq : ∀ v, R v → Rejects left x' c F (q v) E)
    (hF : ∀ y, F y → G (x' ++ y)) : Rejects left (x ++ x') c F (p >>= q) E := by
  have h := bind hp hq hF
  rwa [Nat.zero_add] at h

theorem position_bind {f : ℕ → Reader τ σ ε β} (h : ∀ n, Rejects left x c F (f n) E) :
    Rejects left x c F (position >>= f) E := by
  intro s y hv hrest hFy hc
  rw [run_position_bind]
  exact h s.pos s y hv hrest hFy hc

/-- A look at the first item. -/
theorem peek_bind {inc : ε} {f : τ → Reader τ σ ε β} {b : τ} {t : List τ}
    (h : Rejects left (b :: t) c F (f b) E) : Rejects left (b :: t) c F (peek inc >>= f) E := by
  intro s y hv hrest hFy hc
  have hget : s.input[s.pos]? = some b := by
    rw [s.getElem?_pos, hrest]
    rfl
  rw [run_bind_ok (peek_of_some hget)]
  exact h s y hv hrest hFy hc

/-- The item looked for is not there. -/
theorem try_neg [DecidableEq τ] {f : Bool → Reader τ σ ε β} {b : τ}
    (hb : ∀ y, F y → (x ++ y).head? ≠ some b) (h : Rejects left x c F (f false) E) :
    Rejects left x c F (tryConsume b >>= f) E := by
  intro s y hv hrest hFy hc
  have hget : s.input[s.pos]? ≠ some b := by
    rw [s.getElem?_pos, hrest]
    exact hb y hFy
  rw [run_tryConsume_bind, if_neg hget]
  exact h s y hv hrest hFy hc

/-! ### Loops -/

section Loops

variable {stuck : ε} {body : α → Reader τ σ ε (Flow α β)} {a : α}

/-- **This round rejects.** -/
theorem iterate_now (hb : ∀ a, Bounded 0 none (body a)) (hp : Progress 0 body)
    (hround : Rejects left x c F (body a) E) : Rejects left x c F (iterate stuck body a) E := by
  intro s y hv hxs hFy hc
  obtain ⟨e, he, hE⟩ := hround s y hv hxs hFy hc
  exact ⟨e, by rw [iterate_eq hb hp (.zero hv), he], hE⟩

/-- **A later round rejects.** -/
theorem iterate_later (hb : ∀ a, Bounded 0 none (body a)) (hp : Progress 0 body)
    (hround : Reads left x c G (body a) fun v => ∃ a', v = .again a' ∧ R a')
    (hrest : ∀ a', R a' → Rejects left x' d F (iterate stuck body a') E)
    (hF : ∀ y, F y → G (x' ++ y)) : Rejects left (x ++ x') (c + d) F (iterate stuck body a) E := by
  intro s y hv hxs hFy hc
  rw [List.append_assoc] at hxs
  obtain ⟨v, b, hbody, hleft, a', rfl, hR⟩ := hround s (x' ++ y) hv hxs (hF y hFy) (by omega)
  obtain ⟨e, he, hE⟩ := hrest a' hR ⟨s.input, s.pos + x.length, b⟩ y
    (valid_behind hv hxs b) (rest_behind hxs b) hFy (by dsimp only; omega)
  refine ⟨e, ?_, hE⟩
  rw [iterate_eq hb hp (.zero hv), hbody]
  exact he

end Loops

end Rejects

end Incremental
