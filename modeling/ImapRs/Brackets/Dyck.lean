import Mathlib.Data.List.Basic

/-!
# Words of several kinds of brackets

The Dyck language over any number of kinds of brackets, as a grammar, and the machine that decides
it with a stack of the brackets still open. A stack that a word takes to the empty one says what the
word is: one Dyck word, then the bracket that closes the top of the stack, then the same for the
rest of it.

## Main definitions

* `Dyck` — the language
* `readBracket` — one step of the machine

## Main results

* `dyck_iff` — the machine accepts exactly the language
-/

namespace Brackets

/-- A bracket of some kind. -/
inductive Bracket (κ : Type) where
  | opening (kind : κ)
  | closing (kind : κ)
  deriving DecidableEq, Repr

variable {κ : Type} {k : κ} {u v w : List (Bracket κ)} {stack : List κ}

/-- Every closing bracket matches the last open one, of its own kind, and none is left open. -/
inductive Dyck : List (Bracket κ) → Prop
  | nil : Dyck []
  | group {k : κ} {u v : List (Bracket κ)} : Dyck u → Dyck v →
      Dyck (.opening k :: (u ++ .closing k :: v))

/-- The word closes the brackets of the stack, the top of it first. -/
inductive Closes : List κ → List (Bracket κ) → Prop
  | nil {w : List (Bracket κ)} : Dyck w → Closes [] w
  | cons {k : κ} {stack : List κ} {u v : List (Bracket κ)} : Dyck u → Closes stack v →
      Closes (k :: stack) (u ++ .closing k :: v)

theorem Closes.opening (h : Closes (k :: stack) w) : Closes stack (.opening k :: w) := by
  cases h with
  | @cons _ _ u v hu hv =>
    cases hv with
    | nil hv => exact .nil (.group hu hv)
    | @cons k' stack u' v' hu' hv' =>
      have hword : Bracket.opening k :: (u ++ .closing k :: (u' ++ .closing k' :: v'))
          = (.opening k :: (u ++ .closing k :: u')) ++ .closing k' :: v' := by simp
      rw [hword]
      exact .cons (.group hu hu') hv'

variable [DecidableEq κ]

/-- One bracket: push it, or pop the one it matches. -/
def readBracket (stack : List κ) : Bracket κ → Option (List κ)
  | .opening k => some (k :: stack)
  | .closing k => if stack.head? = some k then some stack.tail else none

theorem readBracket_closing_eq_some {next : List κ}
    (h : readBracket stack (.closing k) = some next) : stack = k :: next := by
  cases stack with
  | nil => cases h
  | cons top rest =>
    rw [readBracket] at h
    split at h
    next htop =>
      cases htop
      cases h
      rfl
    · cases h

/-- A Dyck word leaves the stack as it was. -/
theorem Dyck.foldlM (h : Dyck w) :
    ∀ (stack : List κ) (z : List (Bracket κ)),
      (w ++ z).foldlM readBracket stack = z.foldlM readBracket stack := by
  induction h with
  | nil => exact fun _ _ => rfl
  | @group k u v _ _ ihu ihv =>
    intro stack z
    calc (Bracket.opening k :: (u ++ .closing k :: v) ++ z).foldlM readBracket stack
        = (u ++ .closing k :: (v ++ z)).foldlM readBracket (k :: stack) := by simp [readBracket]
      _ = (.closing k :: (v ++ z)).foldlM readBracket (k :: stack) := ihu _ _
      _ = (v ++ z).foldlM readBracket stack := by simp [readBracket]
      _ = z.foldlM readBracket stack := ihv _ _

/-- By induction on the word; the stack is what its end still has to close. -/
theorem closes_of_foldlM (h : w.foldlM readBracket stack = some []) : Closes stack w := by
  induction w generalizing stack with
  | nil =>
    cases h
    exact .nil .nil
  | cons b w ih =>
    rw [List.foldlM_cons] at h
    obtain ⟨next, hstep, hrest⟩ := Option.bind_eq_some_iff.mp h
    cases b with
    | opening k =>
      cases hstep
      exact (ih hrest).opening
    | closing k =>
      rw [readBracket_closing_eq_some hstep]
      exact .cons .nil (ih hrest)

/-- **The machine decides the language.** -/
theorem dyck_iff : Dyck w ↔ w.foldlM readBracket [] = some [] := by
  constructor
  · intro h
    have hrun := h.foldlM [] []
    rwa [List.append_nil] at hrun
  · intro h
    cases closes_of_foldlM h with
    | nil hw => exact hw

end Brackets
