import ImapRs.Brackets.Dyck
import ImapRs.Client.Wire

/-!
# The language of FETCH item lists

Which item lists `fetch_items` lets into a command: printable ASCII without `{` whose brackets are a
Dyck word of the two kinds.

The scan of the source pops its stack in the guards of two arms of a `match`. `bracketArms` has the
arms one behind the other, each with the stack the one before it leaves, so that a closing bracket
that matches is seen to fall through to the last arm with one bracket popped.

## Main results

* `bracketsClose_eq` — the scan is a run of the arms
* `fetchItems_eq_ok` — the language
-/

namespace ImapRs

open Brackets

/-! ### The arms of the scan -/

/-- `')' if open.pop() != Some('(')` and its like: whether the arm is taken, and the stack. The
guard pops only where the pattern matches. -/
def guardedArm (closer opener c : UInt8) (stack : Bytes) : Bool × Bytes :=
  if c = closer then (stack.head? != some opener, stack.tail) else (false, stack)

/-- One round of the scan; `none` where it returns false. -/
def bracketArms (stack : Bytes) (c : UInt8) : Option Bytes :=
  if c = byte '(' ∨ c = byte '[' then some (c :: stack)
  else
    let round := guardedArm (byte ')') (byte '(') c stack
    if round.1 then none
    else
      let square := guardedArm (byte ']') (byte '[') c round.2
      if square.1 then none else some square.2

/-- The first kind of closing bracket pops once, in its own guard. -/
theorem bracketArms_round (stack : Bytes) :
    bracketArms stack (byte ')') =
      if stack.head? = some (byte '(') then some stack.tail else none := by
  have hne : byte ')' ≠ byte ']' := by decide
  rw [bracketArms, if_neg (by decide)]
  simp only [guardedArm, if_pos, if_neg hne, bne_iff_ne]
  by_cases htop : stack.head? = some (byte '(')
  · rw [if_neg (not_not.mpr htop), if_pos htop, if_neg Bool.false_ne_true]
  · rw [if_pos htop, if_neg htop]

/-- The second kind falls through the guard of the first. -/
theorem bracketArms_square (stack : Bytes) :
    bracketArms stack (byte ']') =
      if stack.head? = some (byte '[') then some stack.tail else none := by
  have hne : byte ']' ≠ byte ')' := by decide
  rw [bracketArms, if_neg (by decide)]
  simp only [guardedArm, if_pos, if_neg hne, bne_iff_ne]
  by_cases htop : stack.head? = some (byte '[')
  · rw [if_neg Bool.false_ne_true, if_neg (not_not.mpr htop), if_pos htop]
  · rw [if_neg Bool.false_ne_true, if_pos htop, if_neg htop]

/-- Everything else leaves the stack alone. -/
theorem bracketArms_other {c : UInt8} (hopen : ¬ (c = byte '(' ∨ c = byte '['))
    (hround : c ≠ byte ')') (hsquare : c ≠ byte ']') (stack : Bytes) :
    bracketArms stack c = some stack := by
  rw [bracketArms, if_neg hopen]
  simp only [guardedArm, if_neg hround, if_neg hsquare, if_neg Bool.false_ne_true]

/-- **The scan of the brackets is a run of the arms.** -/
theorem bracketsClose_eq (stack text : Bytes) :
    bracketsClose stack text = (text.foldlM bracketArms stack == some []) := by
  induction text generalizing stack with
  | nil => cases stack <;> rfl
  | cons c text ih =>
    rw [bracketsClose, List.foldlM_cons]
    by_cases hopen : c = byte '(' ∨ c = byte '['
    · rw [if_pos hopen, bracketArms, if_pos hopen]
      exact ih (c :: stack)
    rw [if_neg hopen]
    by_cases hround : c = byte ')'
    · rw [if_pos hround, hround, bracketArms_round]
      split
      · exact ih stack.tail
      · rfl
    rw [if_neg hround]
    by_cases hsquare : c = byte ']'
    · rw [if_pos hsquare, hsquare, bracketArms_square]
      split
      · exact ih stack.tail
      · rfl
    rw [if_neg hsquare, bracketArms_other hopen hround hsquare]
    exact ih stack

/-! ### The brackets of a text -/

/-- The two kinds of brackets. -/
inductive BracketKind where
  | round
  | square
  deriving DecidableEq, Repr

def BracketKind.opener : BracketKind → UInt8
  | .round => byte '('
  | .square => byte '['

def bracketOf (c : UInt8) : Option (Bracket BracketKind) :=
  if c = byte '(' then some (.opening .round)
  else if c = byte '[' then some (.opening .square)
  else if c = byte ')' then some (.closing .round)
  else if c = byte ']' then some (.closing .square)
  else none

/-- The brackets among the bytes of a text, in order. -/
def bracketsOf (text : Bytes) : List (Bracket BracketKind) := text.filterMap bracketOf

theorem opener_inj {k k' : BracketKind} (h : k.opener = k'.opener) : k = k' := by
  cases k <;> cases k' <;> first | rfl | exact absurd h (by decide)

/-- A closing bracket pops the same from both stacks. -/
theorem readBracket_closing (k : BracketKind) (kinds : List BracketKind) :
    (if (kinds.map BracketKind.opener).head? = some k.opener
      then some (kinds.map BracketKind.opener).tail else none)
      = (readBracket kinds (.closing k)).map (List.map BracketKind.opener) := by
  cases kinds with
  | nil => rfl
  | cons top rest =>
    by_cases htop : top = k
    · simp [readBracket, htop]
    · have hne : top.opener ≠ k.opener := fun h => htop (opener_inj h)
      simp [readBracket, htop, hne]

/-- A round of the scan is a step of the machine, or none. -/
theorem bracketArms_eq (kinds : List BracketKind) (c : UInt8) :
    bracketArms (kinds.map BracketKind.opener) c =
      ((bracketOf c).elim (some kinds) (readBracket kinds)).map (List.map BracketKind.opener) := by
  by_cases h₁ : c = byte '('
  · rw [h₁]
    rfl
  by_cases h₂ : c = byte '['
  · rw [h₂]
    rfl
  by_cases h₃ : c = byte ')'
  · rw [h₃, bracketArms_round]
    exact readBracket_closing .round kinds
  by_cases h₄ : c = byte ']'
  · rw [h₄, bracketArms_square]
    exact readBracket_closing .square kinds
  rw [bracketArms_other (not_or.mpr ⟨h₁, h₂⟩) h₃ h₄, bracketOf, if_neg h₁, if_neg h₂, if_neg h₃,
    if_neg h₄]
  rfl

theorem foldlM_bracketArms (text : Bytes) (kinds : List BracketKind) :
    text.foldlM bracketArms (kinds.map BracketKind.opener) =
      ((bracketsOf text).foldlM readBracket kinds).map (List.map BracketKind.opener) := by
  induction text generalizing kinds with
  | nil => rfl
  | cons c text ih =>
    rw [List.foldlM_cons, bracketArms_eq, bracketsOf, List.filterMap_cons]
    cases bracketOf c with
    | none => exact ih kinds
    | some b =>
      rw [List.foldlM_cons]
      show ((readBracket kinds b).map _).bind _ = _
      cases readBracket kinds b with
      | none => rfl
      | some next => exact ih next

theorem hasBalancedBrackets_iff {text : Bytes} :
    hasBalancedBrackets text = true ↔ Dyck (bracketsOf text) := by
  have hrun := foldlM_bracketArms text []
  rw [List.map_nil] at hrun
  rw [hasBalancedBrackets, bracketsClose_eq, beq_iff_eq, hrun, Option.map_eq_some_iff, dyck_iff]
  constructor
  · rintro ⟨kinds, hkinds, hnil⟩
    rwa [List.map_eq_nil_iff.mp hnil] at hkinds
  · intro h
    exact ⟨[], h, rfl⟩

/-! ### Main result -/

/-- **The language of the validator.** An item list is let through, as it is, exactly when it is not
empty, has printable ASCII other than `{` only, and its brackets match. -/
theorem fetchItems_eq_ok (items : Str) :
    fetchItems items = .ok items.bytes ↔
      items.bytes ≠ [] ∧
        (∀ b ∈ items.bytes, byte ' ' ≤ b ∧ b ≤ byte '~' ∧ b ≠ byte '{') ∧
        Dyck (bracketsOf items.bytes) := by
  have hempty : items.isEmpty = false ↔ items.bytes ≠ [] := by
    rw [Str.isEmpty, List.isEmpty_eq_false_iff]
  have hprintable : (items.bytes.all fun b => isPrintableAscii b && b != byte '{') = true ↔
      ∀ b ∈ items.bytes, byte ' ' ≤ b ∧ b ≤ byte '~' ∧ b ≠ byte '{' := by
    simp only [List.all_eq_true, isPrintableAscii, Bool.and_eq_true, decide_eq_true_eq, bne_iff_ne,
      and_assoc]
  rw [← hempty, ← hprintable, ← hasBalancedBrackets_iff, ← Bool.not_eq_true', ← and_assoc,
    ← Bool.and_eq_true, ← Bool.and_eq_true, fetchItems]
  split
  next h => exact ⟨fun _ => h, fun _ => rfl⟩
  next h =>
    refine ⟨fun hok => ?_, fun hall => absurd hall h⟩
    cases hok

end ImapRs
