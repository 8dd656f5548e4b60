import Mathlib

/-!
# Fields of a line, lines of a stream

A stream is cut into lines at a two-element terminator, and a line is read from the left, field by
field, with one separator between them. `Takes p x v` says that the reader `p` takes exactly `x`
from the front of a line and makes `v` of it, whatever follows the next separator.

## Main definitions

* `FieldReader` — reads from the front of a line, or refuses it
* `Takes` — what a reader takes, and what it makes of it
* `cutLines` — the lines of a stream

## Main results

* `Takes.bind_last`, `Takes.then_last` — one field after another
* `cutLines_flatMap` — lines written one after the other are cut apart again
* `prefix_lines` — what has come of them so far
-/

namespace Text

variable {α β γ : Type} {sep a : α} {x y line : List α} {v : β} {w : γ}

/-! ### Reading a line -/

/-- Reads from the front of a line, or refuses it. -/
abbrev FieldReader (α : Type) := StateT (List α) Option

/-- Everything that is left. -/
def remainder : FieldReader α (List α) := fun line => some (line, [])

/-- What stands behind a field: a separator or nothing. -/
def EndsField (sep : α) (rest : List α) : Prop := ∀ c ∈ rest.head?, c = sep

/-- The reader takes `x` from the front of a line, up to a separator or the end, and makes `v` of
it. -/
def Takes (sep : α) (p : FieldReader α β) (x : List α) (v : β) : Prop :=
  ∀ rest, EndsField sep rest → p (x ++ rest) = some (v, rest)

theorem endsField_nil : EndsField sep [] := by simp [EndsField]

theorem endsField_cons : EndsField sep (sep :: line) := by simp [EndsField]

/-- At the end of a line, what a reader takes is all there is. -/
theorem Takes.run {p : FieldReader α β} (h : Takes sep p x v) : p x = some (v, []) := by
  simpa using h [] endsField_nil

theorem takes_pure (v : β) : Takes sep (pure v) [] v := fun _ _ => rfl

/-- What is made of a field is passed on. -/
theorem Takes.bind {p : FieldReader α β} {q : β → FieldReader α γ} (hp : Takes sep p x v)
    (hq : Takes sep (q v) [] w) : Takes sep (p >>= q) x w := by
  intro rest hrest
  have hrun : (p >>= q) (x ++ rest) = (p (x ++ rest)).bind fun r => q r.1 r.2 := rfl
  rw [hrun, hp rest hrest]
  exact hq rest hrest

/-- A check that is passed. -/
theorem takes_guard {c : Prop} [Decidable c] {p : FieldReader α β} (hc : c)
    (hp : Takes sep p x v) : Takes sep (do guard c; p) x v := by
  intro rest hrest
  have hguard : (guard c : FieldReader α Unit) = pure () := if_pos hc
  rw [hguard, pure_bind]
  exact hp rest hrest

/-- **A field in front of the rest of a line.** -/
theorem Takes.bind_last {p : FieldReader α β} {q : β → FieldReader α γ} (hp : Takes sep p x v)
    (hy : EndsField sep y) (hq : q v y = some (w, [])) : (p >>= q) (x ++ y) = some (w, []) := by
  have hrun : (p >>= q) (x ++ y) = (p (x ++ y)).bind fun r => q r.1 r.2 := rfl
  rw [hrun, hp y hy]
  exact hq

/-- A value that is there. -/
theorem lift_last {o : Option β} {q : β → FieldReader α γ} (ho : o = some v)
    (hq : q v y = some (w, [])) : (do let b ← o; q b : FieldReader α γ) y = some (w, []) := by
  subst ho
  exact hq

theorem remainder_last {q : List α → FieldReader α γ} (hq : q y [] = some (w, [])) :
    (remainder >>= q) y = some (w, []) := hq

variable [DecidableEq α]

/-- Everything up to the next separator. -/
def field (sep : α) : FieldReader α (List α) := fun line =>
  some (line.takeWhile (· ≠ sep), line.dropWhile (· ≠ sep))

/-- One element that has to be there. -/
def skip (a : α) : FieldReader α Unit := fun line =>
  if line.head? = some a then some ((), line.tail) else none

theorem skip_cons : skip a (a :: line) = some ((), line) := by simp [skip]

theorem takes_field (h : sep ∉ x) : Takes sep (field sep) x x := by
  intro rest hrest
  have hall : ∀ c ∈ x, decide (c ≠ sep) = true := by
    intro c hc
    simpa using fun heq : c = sep => h (heq ▸ hc)
  have hstop : rest.takeWhile (· ≠ sep) = [] ∧ rest.dropWhile (· ≠ sep) = rest := by
    cases rest with
    | nil => exact ⟨rfl, rfl⟩
    | cons c rest => simp [hrest c rfl]
  rw [field, List.takeWhile_append_of_pos hall, List.dropWhile_append_of_pos hall, hstop.1,
    hstop.2, List.append_nil]

theorem skip_last {q : FieldReader α γ} (hq : q y = some (w, [])) :
    (do skip sep; q) (sep :: y) = some (w, []) := by
  have hrun : (do skip sep; q) (sep :: y) = (skip sep (sep :: y)).bind fun r => q r.2 := rfl
  rw [hrun, skip_cons]
  exact hq

/-- One field after another, with a separator between them. -/
theorem Takes.then_last {p : FieldReader α β} {q : β → FieldReader α γ} (hp : Takes sep p x v)
    (hq : q v y = some (w, [])) :
    (do let b ← p; skip sep; q b) (x ++ sep :: y) = some (w, []) :=
  hp.bind_last endsField_cons (skip_last hq)

/-! ### Cutting a stream -/

/-- A line that ends in the first half of the terminator, without it. -/
def chomp (cr : α) (line : List α) : Option (List α) :=
  if line.getLast? = some cr then some line.dropLast else none

/-- The lines of a stream, each ended by `cr` and `lf`; none if the stream ends inside a line, or if
an `lf` stands alone. -/
def cutLines (cr lf : α) (stream : List α) : Option (List (List α)) :=
  let pieces := stream.splitOn lf
  if pieces.getLast? = some [] then pieces.dropLast.mapM (chomp cr) else none

variable {cr lf : α}

theorem chomp_append (line : List α) : chomp cr (line ++ [cr]) = some line := by simp [chomp]

theorem splitOn_line (hlf : lf ≠ cr) (h : lf ∉ line) (rest : List α) :
    (line ++ cr :: lf :: rest).splitOn lf = (line ++ [cr]) :: rest.splitOn lf := by
  have hfree : ∀ c ∈ line ++ [cr], (c == lf) = false := by
    intro c hc
    rcases List.mem_append.mp hc with hc | hc
    · simpa using fun heq : c = lf => h (heq ▸ hc)
    · rw [List.mem_singleton.mp hc]
      simpa using hlf.symm
  have hsplit := List.splitOnP_append_cons_of_forall_mem hfree lf (beq_self_eq_true lf) rest
  rwa [List.append_assoc] at hsplit

/-- **Lines written one after the other are cut apart again.** -/
theorem cutLines_flatMap (hlf : lf ≠ cr) {lines : List (List α)} (h : ∀ line ∈ lines, lf ∉ line) :
    cutLines cr lf (lines.flatMap fun line => line ++ [cr, lf]) = some lines := by
  have hsplit : (lines.flatMap fun line => line ++ [cr, lf]).splitOn lf
      = lines.map (· ++ [cr]) ++ [[]] := by
    induction lines with
    | nil => rfl
    | cons line lines ih =>
      obtain ⟨hline, hlines⟩ := List.forall_mem_cons.mp h
      have hcons : ((line :: lines).flatMap fun line => line ++ [cr, lf])
          = line ++ cr :: lf :: lines.flatMap fun line => line ++ [cr, lf] := by simp
      rw [hcons, splitOn_line hlf hline, ih hlines, List.map_cons, List.cons_append]
  have hchomp : (lines.map (· ++ [cr])).mapM (chomp cr) = some lines := by
    clear h hsplit
    induction lines with
    | nil => rfl
    | cons line lines ih => rw [List.map_cons, List.mapM_cons, chomp_append, ih]; rfl
  rw [cutLines]
  simp only [hsplit, List.getLast?_concat, if_true, List.dropLast_concat, hchomp]

omit [DecidableEq α] in
/-- What has come of a sequence of lines so far: whole lines, and the beginning of one. -/
theorem prefix_lines (hlf : lf ≠ cr) {lines : List (List α)} {w : List α}
    (h : ∀ line ∈ lines, lf ∉ line) (hw : w <+: lines.flatMap fun line => line ++ [cr, lf]) :
    ∃ n part, w = ((lines.take n).flatMap fun line => line ++ [cr, lf]) ++ part ∧ lf ∉ part := by
  induction lines generalizing w with
  | nil => exact ⟨0, [], by simpa using hw, List.not_mem_nil⟩
  | cons line lines ih =>
    obtain ⟨hline, hlines⟩ := List.forall_mem_cons.mp h
    rw [List.flatMap_cons] at hw
    rcases List.prefix_or_prefix_of_prefix hw (List.prefix_append _ _) with hpart | ⟨rest, rfl⟩
    · -- the first line is not out in full, or it is all there is
      have hconcat : line ++ [cr, lf] = (line ++ [cr]) ++ [lf] := by simp
      rw [hconcat, List.prefix_concat_iff] at hpart
      rcases hpart with rfl | hpart
      · exact ⟨1, [], by simp, List.not_mem_nil⟩
      · refine ⟨0, w, rfl, fun hmem => ?_⟩
        rcases List.mem_append.mp (hpart.subset hmem) with hmem | hmem
        · exact hline hmem
        · exact hlf (List.mem_singleton.mp hmem)
    · obtain ⟨n, part, rfl, hpart⟩ := ih hlines ((List.prefix_append_right_inj _).mp hw)
      exact ⟨n + 1, part, by simp, hpart⟩

end Text
