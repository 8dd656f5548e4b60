import Mathlib.Data.List.Basic

/-!
# Prefix codes

Words over an alphabet each of whose letters stands for a list of items. When no letter's items can
be taken for the beginning of another's, a list of items is read as letters in one way only: of two
words that are read off its front, one goes on where the other ends.

## Main results

* `PrefixCode.prefix_total` — two words read off the same list
-/

namespace Incremental

variable {α τ : Type}

/-- The items of a letter are not the beginning of anything another letter begins. -/
def PrefixCode (code : α → List τ) : Prop := ∀ ⦃a b x y⦄, code a ++ x = code b ++ y → a = b

/-- **Two words read off the same list.** By induction on both; as long as both go on, they go on
with the same letter. -/
theorem PrefixCode.prefix_total {code : α → List τ} (h : PrefixCode code) :
    ∀ {v w : List α} {x y : List τ}, v.flatMap code ++ x = w.flatMap code ++ y →
      v <+: w ∨ w <+: v := by
  intro v
  induction v with
  | nil => exact fun _ => .inl List.nil_prefix
  | cons a v ih =>
    intro w x y heq
    cases w with
    | nil => exact .inr List.nil_prefix
    | cons b w =>
      rw [List.flatMap_cons, List.flatMap_cons, List.append_assoc, List.append_assoc] at heq
      obtain rfl := h heq
      rcases ih (List.append_cancel_left heq) with hle | hle
      · exact .inl (List.cons_prefix_cons.mpr ⟨rfl, hle⟩)
      · exact .inr (List.cons_prefix_cons.mpr ⟨rfl, hle⟩)

end Incremental
