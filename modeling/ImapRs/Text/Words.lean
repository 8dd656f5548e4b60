import Mathlib.Data.List.Basic

/-!
# Words

Separators cut a list into words. A word is a maximal run of elements that are no separators: there
is something in it, and on either side stands a separator or nothing at all.

## Main definitions

* `words` — the pieces between separators, the empty ones left out
* `IsWord` — a maximal run of elements that are no separators

## Main results

* `mem_splitOnP_iff` — where a piece stands
* `mem_words_iff` — the words are the maximal runs
-/

namespace Text

variable {α : Type} {sep : α → Bool} {l l' w : List α} {a : α}

/-- The pieces between separators, the empty ones left out. -/
def words (sep : α → Bool) (l : List α) : List (List α) :=
  (l.splitOnP sep).filter fun w => !w.isEmpty

/-- There is nothing in front of a piece, or a separator. -/
def Opens (sep : α → Bool) (l : List α) : Prop := l = [] ∨ ∃ l' a, l = l' ++ [a] ∧ sep a = true

/-- There is nothing behind a piece, or a separator. -/
def Closes (sep : α → Bool) (l : List α) : Prop := l = [] ∨ ∃ a l', l = a :: l' ∧ sep a = true

/-- A maximal run of elements that are no separators. -/
structure IsWord (sep : α → Bool) (l w : List α) : Prop where
  ne_nil : w ≠ []
  free : ∀ a ∈ w, sep a = false
  bounded : ∃ front back, l = front ++ w ++ back ∧ Opens sep front ∧ Closes sep back

/-- A list without a separator, or its first one. -/
theorem free_or_first (sep : α → Bool) (l : List α) : (∀ a ∈ l, sep a = false) ∨
    ∃ w a l', l = w ++ a :: l' ∧ (∀ b ∈ w, sep b = false) ∧ sep a = true := by
  induction l with
  | nil => exact .inl fun a ha => absurd ha List.not_mem_nil
  | cons b l ih =>
    cases hb : sep b with
    | true =>
      exact .inr ⟨[], b, l, rfl, fun a ha => absurd ha List.not_mem_nil, hb⟩
    | false =>
      rcases ih with hfree | ⟨w, a, l', rfl, hw, ha⟩
      · exact .inl (List.forall_mem_cons.mpr ⟨hb, hfree⟩)
      · exact .inr ⟨b :: w, a, l', rfl, List.forall_mem_cons.mpr ⟨hb, hw⟩, ha⟩

/-- A separator can be put in front of what opens a piece. -/
theorem Opens.append_cons (h : Opens sep l) (hw : sep a = true) (w : List α) :
    Opens sep (w ++ a :: l) := by
  rcases h with rfl | ⟨l', b, rfl, hb⟩
  · exact .inr ⟨w, a, rfl, hw⟩
  · exact .inr ⟨w ++ a :: l', b, by simp, hb⟩

theorem splitOnP_of_opens (h : Opens sep l) (l' : List α) :
    ∃ pieces, (l ++ l').splitOnP sep = pieces ++ l'.splitOnP sep := by
  rcases h with rfl | ⟨l, a, rfl, ha⟩
  · exact ⟨[], rfl⟩
  · exact ⟨l.splitOnP sep, by rw [List.append_assoc, List.singleton_append,
      List.splitOnP_append_cons l l' ha]⟩

theorem splitOnP_of_closes (hw : ∀ a ∈ w, sep a = false) (h : Closes sep l) :
    ∃ pieces, (w ++ l).splitOnP sep = w :: pieces := by
  rcases h with rfl | ⟨a, l, rfl, ha⟩
  · exact ⟨[], by rw [List.append_nil, List.splitOnP_eq_singleton hw]⟩
  · exact ⟨l.splitOnP sep, List.splitOnP_append_cons_of_forall_mem hw a ha l⟩

/-- **Where a piece stands.** -/
theorem mem_splitOnP_iff : w ∈ l.splitOnP sep ↔ (∀ a ∈ w, sep a = false) ∧
    ∃ front back, l = front ++ w ++ back ∧ Opens sep front ∧ Closes sep back := by
  constructor
  · -- The list is cut at its first separator; the induction is on its length.
    intro hw
    induction hn : l.length using Nat.strongRecOn generalizing l with
    | ind n ih =>
      rcases free_or_first sep l with hfree | ⟨first, a, l', rfl, hfirst, ha⟩
      · rw [List.splitOnP_eq_singleton hfree, List.mem_singleton] at hw
        subst hw
        exact ⟨hfree, [], [], by simp, .inl rfl, .inl rfl⟩
      rw [List.splitOnP_append_cons_of_forall_mem hfirst a ha, List.mem_cons] at hw
      rcases hw with rfl | hw
      · exact ⟨hfirst, [], a :: l', by simp, .inl rfl, .inr ⟨a, l', rfl, ha⟩⟩
      · have hlt : l'.length < n := by
          rw [← hn, List.length_append, List.length_cons]
          omega
        obtain ⟨hfree, front, back, rfl, hfront, hback⟩ := ih _ hlt hw rfl
        exact ⟨hfree, first ++ a :: front, back, by simp, hfront.append_cons ha first, hback⟩
  · rintro ⟨hfree, front, back, rfl, hfront, hback⟩
    obtain ⟨before, hbefore⟩ := splitOnP_of_opens hfront (w ++ back)
    obtain ⟨after, hafter⟩ := splitOnP_of_closes hfree hback
    rw [List.append_assoc, hbefore, hafter]
    exact List.mem_append_right before List.mem_cons_self

/-- **The words are the maximal runs.** -/
theorem mem_words_iff : w ∈ words sep l ↔ IsWord sep l w := by
  rw [words, List.mem_filter, mem_splitOnP_iff, Bool.not_eq_true', List.isEmpty_eq_false_iff]
  constructor
  · rintro ⟨⟨hfree, hbounded⟩, hne⟩
    exact ⟨hne, hfree, hbounded⟩
  · rintro ⟨hne, hfree, hbounded⟩
    exact ⟨⟨hfree, hbounded⟩, hne⟩

end Text
