import Mathlib

/-!
# Depth

The depth of a word whose letters open and close brackets is the sum of what its letters add. A word
is a value when its depth is zero at its end and nowhere on the way; when no letter closes more than
one bracket, that is the same as staying above zero on the way, since a depth cannot jump over zero.

## Main definitions

* `depth` — the sum over a word
* `FirstZero` — from a depth on, the word first reaches zero at its end
* `Below` — the depth stays below a bound

## Main results

* `firstZero_cons`, `below_cons` — the conditions, letter by letter
* `firstZero_of_ne` — not being zero on the way is enough
-/

namespace Brackets

variable {α : Type} {weight : α → ℤ} {n m : ℤ} {a : α} {l : List α}

/-- What the letters of a word add up to. -/
def depth (weight : α → ℤ) (l : List α) : ℤ := (l.map weight).sum

@[simp] theorem depth_nil : depth weight [] = 0 := rfl

@[simp] theorem depth_cons : depth weight (a :: l) = weight a + depth weight l := by
  rw [depth, List.map_cons, List.sum_cons, depth]

/-- From depth `n`, zero is reached at the end of the word and not before. -/
def FirstZero (weight : α → ℤ) (n : ℤ) (l : List α) : Prop :=
  n + depth weight l = 0 ∧ ∀ p, p <+: l → p ≠ l → 0 < n + depth weight p

/-- From depth `n`, the depth stays below `m`. -/
def Below (weight : α → ℤ) (m n : ℤ) (l : List α) : Prop :=
  ∀ p, p <+: l → n + depth weight p < m

theorem firstZero_nil : FirstZero weight n [] ↔ n = 0 := by
  constructor
  · rintro ⟨h, -⟩
    simpa using h
  · rintro rfl
    exact ⟨rfl, fun p hp hne => absurd (List.prefix_nil.mp hp) hne⟩

theorem firstZero_cons :
    FirstZero weight n (a :: l) ↔ 0 < n ∧ FirstZero weight (n + weight a) l := by
  constructor
  · rintro ⟨hend, hway⟩
    refine ⟨by simpa using hway [] List.nil_prefix (List.cons_ne_nil a l).symm, ?_,
      fun p hp hne => ?_⟩
    · rwa [depth_cons, ← add_assoc] at hend
    · have hpos := hway (a :: p) (List.cons_prefix_cons.mpr ⟨rfl, hp⟩) (by simpa using hne)
      rwa [depth_cons, ← add_assoc] at hpos
  · rintro ⟨hn, hend, hway⟩
    refine ⟨by rwa [depth_cons, ← add_assoc], fun p hp hne => ?_⟩
    cases p with
    | nil => simpa using hn
    | cons b p =>
      obtain ⟨rfl, htail⟩ := List.cons_prefix_cons.mp hp
      have hpos := hway p htail (by simpa using hne)
      rwa [depth_cons, ← add_assoc]

theorem below_nil : Below weight m n [] ↔ n < m := by
  constructor
  · intro h
    simpa using h [] List.nil_prefix
  · intro h p hp
    rw [List.prefix_nil.mp hp, depth_nil, add_zero]
    exact h

theorem below_cons : Below weight m n (a :: l) ↔ n < m ∧ Below weight m (n + weight a) l := by
  constructor
  · intro h
    refine ⟨by simpa using h [] List.nil_prefix, fun p hp => ?_⟩
    have hlt := h (a :: p) (List.cons_prefix_cons.mpr ⟨rfl, hp⟩)
    rwa [depth_cons, ← add_assoc] at hlt
  · rintro ⟨hn, h⟩ p hp
    cases p with
    | nil => simpa using hn
    | cons b p =>
      obtain ⟨rfl, htail⟩ := List.cons_prefix_cons.mp hp
      rw [depth_cons, ← add_assoc]
      exact h p htail

/-- **Zero is not jumped over.** -/
theorem firstZero_of_ne (hw : ∀ a, -1 ≤ weight a) (hn : 0 ≤ n) (hend : n + depth weight l = 0)
    (hway : ∀ p, p <+: l → p ≠ l → n + depth weight p ≠ 0) : FirstZero weight n l := by
  induction l generalizing n with
  | nil =>
    rw [depth_nil, add_zero] at hend
    exact firstZero_nil.mpr hend
  | cons a l ih =>
    have hne : n ≠ 0 := by simpa using hway [] List.nil_prefix (List.cons_ne_nil a l).symm
    have hstep := hw a
    rw [depth_cons, ← add_assoc] at hend
    refine firstZero_cons.mpr ⟨by omega, ih (by omega) hend fun p hp hpl => ?_⟩
    have hzero := hway (a :: p) (List.cons_prefix_cons.mpr ⟨rfl, hp⟩) (by simpa using hpl)
    rwa [depth_cons, ← add_assoc] at hzero

end Brackets
