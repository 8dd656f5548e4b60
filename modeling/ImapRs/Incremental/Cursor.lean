import Mathlib

/-!
# Readers over a growing buffer

A reader walks a cursor over a finite buffer and either returns a value or fails. Nothing here
is specific to one grammar: the buffer holds items of any type `τ`, the cursor carries any
auxiliary state `σ`, and errors are any type `ε`.

The buffer is a *prefix* of what will eventually arrive, so one error, `inc`, plays a special
part: it means "the buffer ended too early". The laws that say when a verdict survives the
arrival of more input are in `Laws`; this module has the cursor, the primitives and the loop.

## Loops

`iterate` is an unbounded loop. It is given one unit of fuel more than there are items left, so
a body that consumes something on every round never runs out: `iterate_eq` is the loop's
unfolding equation, with no fuel in it, and `iterate_induction` is the induction rule every law
about loops goes through.

## Main definitions

* `Cursor`, `Reader` — the buffer with its position, and computations over it
* `peek`, `advance`, `position`, `sliceFrom`, `skipWhile`, `tryConsume`, `tokenFrom`, `charge` —
  the primitives
* `Flow`, `iterate` — loops
-/

namespace Incremental

/-- A buffer, a position in it, and whatever else the reader keeps. -/
structure Cursor (τ σ : Type) where
  /-- The items received so far. -/
  input : List τ
  /-- How many of them have been consumed. -/
  pos : ℕ
  /-- State that does not depend on the buffer. -/
  aux : σ
  deriving DecidableEq, Repr

/-- A computation that moves a cursor and may fail. -/
abbrev Reader (τ σ ε : Type) := StateT (Cursor τ σ) (Except ε)

variable {τ σ ε α β : Type}

namespace Cursor

/-- What is left to read. -/
def rest (s : Cursor τ σ) : List τ := s.input.drop s.pos

/-- The position lies inside the buffer. -/
def Valid (s : Cursor τ σ) : Prop := s.pos ≤ s.input.length

/-- Nothing is left to read. -/
def AtEnd (s : Cursor τ σ) : Prop := s.input.length ≤ s.pos

/-- The same cursor over another buffer. -/
def withInput (s : Cursor τ σ) (x : List τ) : Cursor τ σ := { s with input := x }

/-- The same cursor after more input has arrived. -/
def ext (s : Cursor τ σ) (y : List τ) : Cursor τ σ := { s with input := s.input ++ y }

@[simp] theorem withInput_input (s : Cursor τ σ) (x : List τ) : (s.withInput x).input = x := rfl
@[simp] theorem withInput_pos (s : Cursor τ σ) (x : List τ) : (s.withInput x).pos = s.pos := rfl
@[simp] theorem withInput_aux (s : Cursor τ σ) (x : List τ) : (s.withInput x).aux = s.aux := rfl
@[simp] theorem ext_input (s : Cursor τ σ) (y : List τ) : (s.ext y).input = s.input ++ y := rfl
@[simp] theorem ext_pos (s : Cursor τ σ) (y : List τ) : (s.ext y).pos = s.pos := rfl
@[simp] theorem ext_aux (s : Cursor τ σ) (y : List τ) : (s.ext y).aux = s.aux := rfl

theorem Valid.ext {s : Cursor τ σ} (h : s.Valid) (y : List τ) : (s.ext y).Valid := by
  simp only [Valid, ext_pos, ext_input, List.length_append] at *
  omega

theorem rest_ext {s : Cursor τ σ} (h : s.Valid) (y : List τ) : (s.ext y).rest = s.rest ++ y := by
  simp only [rest, ext_input, ext_pos]
  exact List.drop_append_of_le_length h

theorem length_rest (s : Cursor τ σ) : s.rest.length = s.input.length - s.pos := List.length_drop

theorem getElem?_pos (s : Cursor τ σ) : s.input[s.pos]? = s.rest.head? := by
  simp [rest, List.head?_drop]

theorem getElem?_pos_add (s : Cursor τ σ) (n : ℕ) : s.input[s.pos + n]? = s.rest[n]? := by
  simp [rest]

/-- An item and what is behind it. -/
theorem rest_eq_cons {s : Cursor τ σ} {c : τ} (h : s.input[s.pos]? = some c) :
    s.rest = c :: (⟨s.input, s.pos + 1, s.aux⟩ : Cursor τ σ).rest := by
  obtain ⟨hlt, rfl⟩ := List.getElem?_eq_some_iff.mp h
  exact List.drop_eq_getElem_cons hlt

/-- The cursor behind a text. -/
theorem rest_behind {s : Cursor τ σ} {x y : List τ} (h : s.rest = x ++ y) (a : σ) :
    (⟨s.input, s.pos + x.length, a⟩ : Cursor τ σ).rest = y := by
  change s.input.drop (s.pos + x.length) = y
  rw [← List.drop_drop, show s.input.drop s.pos = x ++ y from h, List.drop_left]

/-- The items read since the cursor was at `s`. -/
theorem slice_behind {s : Cursor τ σ} {x y : List τ} (h : s.rest = x ++ y) :
    (s.input.take (s.pos + x.length)).drop s.pos = x := by
  rw [List.drop_take, Nat.add_sub_cancel_left, show s.input.drop s.pos = x ++ y from h,
    List.take_left]

theorem valid_behind {s : Cursor τ σ} {x y : List τ} (hv : s.Valid) (h : s.rest = x ++ y) (a : σ) :
    (⟨s.input, s.pos + x.length, a⟩ : Cursor τ σ).Valid := by
  have hlen := congrArg List.length h
  rw [s.length_rest, List.length_append] at hlen
  simp only [Valid] at hv ⊢
  omega

theorem rest_eq_nil_of_atEnd {s : Cursor τ σ} (h : s.AtEnd) : s.rest = [] := by
  rw [rest]
  exact List.drop_eq_nil_of_le h

end Cursor

/-! ### Running a reader -/

theorem run_pure (a : α) (s : Cursor τ σ) : (pure a : Reader τ σ ε α) s = .ok (a, s) := rfl

theorem run_bind (p : Reader τ σ ε α) (q : α → Reader τ σ ε β) (s : Cursor τ σ) :
    (p >>= q) s = match p s with
      | .ok (a, t) => q a t
      | .error e => .error e := by
  change (StateT.bind p q) s = _
  simp only [StateT.bind]
  cases p s <;> rfl

theorem run_bind_ok {p : Reader τ σ ε α} {q : α → Reader τ σ ε β} {s t : Cursor τ σ} {a : α}
    (h : p s = .ok (a, t)) : (p >>= q) s = q a t := by
  rw [run_bind, h]

theorem run_bind_error {p : Reader τ σ ε α} {q : α → Reader τ σ ε β} {s : Cursor τ σ} {e : ε}
    (h : p s = .error e) : (p >>= q) s = .error e := by
  rw [run_bind, h]

/-- A sequence succeeds through an intermediate state. -/
theorem run_bind_eq_ok {p : Reader τ σ ε α} {q : α → Reader τ σ ε β} {s u : Cursor τ σ} {b : β}
    (h : (p >>= q) s = .ok (b, u)) : ∃ a t, p s = .ok (a, t) ∧ q a t = .ok (b, u) := by
  rw [run_bind] at h
  cases hp : p s with
  | error e => rw [hp] at h; cases h
  | ok r => rw [hp] at h; exact ⟨r.1, r.2, rfl, h⟩

/-- A sequence fails in its first half or in its second. -/
theorem run_bind_eq_error {p : Reader τ σ ε α} {q : α → Reader τ σ ε β} {s : Cursor τ σ} {e : ε}
    (h : (p >>= q) s = .error e) :
    p s = .error e ∨ ∃ a t, p s = .ok (a, t) ∧ q a t = .error e := by
  rw [run_bind] at h
  cases hp : p s with
  | error e' => rw [hp] at h; cases h; exact .inl rfl
  | ok r => rw [hp] at h; exact .inr ⟨r.1, r.2, rfl, h⟩

/-! ### Primitives -/

/-- Give up with `e`. -/
def fail (e : ε) : Reader τ σ ε α := fun _ => .error e

/-- The item under the cursor, or `inc` when the buffer ends here. -/
def peek (inc : ε) : Reader τ σ ε τ := fun s =>
  match s.input[s.pos]? with
  | some c => .ok (c, s)
  | none => .error inc

/-- Where the cursor is. -/
def position : Reader τ σ ε ℕ := fun s => .ok (s.pos, s)

/-- Move on by one item, whether or not there is one. -/
def advance : Reader τ σ ε Unit := fun s => .ok ((), { s with pos := s.pos + 1 })

/-- The items between `start` and the cursor. -/
def sliceFrom (start : ℕ) : Reader τ σ ε (List τ) := fun s =>
  .ok ((s.input.take s.pos).drop start, s)

theorem run_position_bind (f : ℕ → Reader τ σ ε β) (s : Cursor τ σ) :
    (position >>= f) s = f s.pos s := rfl

theorem run_sliceFrom_bind (start : ℕ) (f : List τ → Reader τ σ ε β) (s : Cursor τ σ) :
    (sliceFrom start >>= f) s = f ((s.input.take s.pos).drop start) s := rfl

/-- Consume `c` if it is next; the end of the buffer counts as "not next". -/
def tryConsume [DecidableEq τ] (c : τ) : Reader τ σ ε Bool := fun s =>
  match s.input[s.pos]? with
  | some d => if d = c then .ok (true, { s with pos := s.pos + 1 }) else .ok (false, s)
  | none => .ok (false, s)

theorem run_advance_bind (f : Unit → Reader τ σ ε β) (s : Cursor τ σ) :
    (advance >>= f) s = f () { s with pos := s.pos + 1 } := rfl

theorem run_tryConsume_bind [DecidableEq τ] (c : τ) (f : Bool → Reader τ σ ε β)
    (s : Cursor τ σ) : (tryConsume c >>= f) s
      = if s.input[s.pos]? = some c then f true { s with pos := s.pos + 1 } else f false s := by
  rw [run_bind, tryConsume]
  cases s.input[s.pos]? with
  | none => rfl
  | some d =>
    by_cases hd : d = c
    · rw [if_pos (congrArg some hd)]
      simp only [hd, if_true]
    · rw [if_neg fun h => hd (Option.some.inj h)]
      simp only [hd, if_false]

/-- Advance over items that satisfy `p`, at most `fuel` of them. -/
def skipWhileN (p : τ → Bool) : ℕ → Cursor τ σ → Cursor τ σ
  | 0, s => s
  | fuel + 1, s =>
    match s.input[s.pos]? with
    | some c => if p c then skipWhileN p fuel { s with pos := s.pos + 1 } else s
    | none => s

/-- Advance while the item under the cursor satisfies `p`. The buffer bounds the number of
rounds, so the fuel is never what stops the scan: see `skipWhile_eq`. -/
def skipWhile (p : τ → Bool) : Reader τ σ ε Unit := fun s =>
  .ok ((), skipWhileN p (s.input.length - s.pos) s)

theorem skipWhileN_eq (p : τ → Bool) : ∀ (fuel : ℕ) (s : Cursor τ σ), s.rest.length ≤ fuel →
    skipWhileN p fuel s = { s with pos := s.pos + (s.rest.takeWhile p).length } := by
  intro fuel
  induction fuel with
  | zero =>
    intro s h
    have hnil : s.rest = [] := List.length_eq_zero_iff.mp (Nat.le_zero.mp h)
    simp [skipWhileN, hnil]
  | succ fuel ih =>
    intro s h
    rw [skipWhileN, s.getElem?_pos]
    cases hr : s.rest with
    | nil => simp
    | cons c cs =>
      -- the rest of the advanced cursor is the tail, which is what the recursion scans
      have htail : ({ s with pos := s.pos + 1 } : Cursor τ σ).rest = cs := by
        simp only [Cursor.rest] at hr ⊢
        rw [← List.drop_drop, hr, List.drop_one, List.tail_cons]
      have hlen : cs.length ≤ fuel := by rw [hr, List.length_cons] at h; omega
      simp only [List.head?_cons]
      by_cases hc : p c
      · rw [if_pos hc, ih _ (by rw [htail]; exact hlen), htail, List.takeWhile_cons_of_pos hc,
          List.length_cons]
        simp only [Nat.add_assoc, Nat.add_comm 1]
      · rw [if_neg hc, List.takeWhile_cons_of_neg hc]
        rfl

/-- The scan stops at the first item outside `p`, or at the end of the buffer. -/
theorem skipWhile_eq (p : τ → Bool) (s : Cursor τ σ) :
    (skipWhile p : Reader τ σ ε Unit) s
      = .ok ((), { s with pos := s.pos + (s.rest.takeWhile p).length }) := by
  rw [skipWhile, skipWhileN_eq p _ s (Nat.le_of_eq s.length_rest)]

/-- End on the cursor `t` with the verdict `r`. -/
def settle (t : Cursor τ σ) (r : Except ε α) : Except ε (α × Cursor τ σ) :=
  match r with
  | .ok v => .ok (v, t)
  | .error e => .error e

theorem settle_eq_ok {t u : Cursor τ σ} {r : Except ε α} {v : α} (h : settle t r = .ok (v, u)) :
    r = .ok v ∧ u = t := by
  cases r with
  | ok w => cases h; exact ⟨rfl, rfl⟩
  | error e => cases h

theorem settle_eq_error {t : Cursor τ σ} {r : Except ε α} {e : ε} (h : settle t r = .error e) :
    r = .error e := by
  cases r with
  | ok w => cases h
  | error e' => cases h; rfl

/-- Scan from the cursor over items in `p`, then let `f` judge everything since `start` in the
light of the item that stopped the scan (`none` at the end of the buffer). The cursor ends on
that item. -/
def tokenFrom (start : ℕ) (p : τ → Bool) (f : List τ → Option τ → Except ε α) :
    Reader τ σ ε α := fun s =>
  let stop := s.pos + (s.rest.takeWhile p).length
  settle { s with pos := stop } (f ((s.input.take stop).drop start) s.input[stop]?)

/-- Change the auxiliary state, or fail because of it. -/
def charge (c : σ → Except ε σ) : Reader τ σ ε Unit := fun s =>
  match c s.aux with
  | .ok aux => .ok ((), { s with aux := aux })
  | .error e => .error e

theorem run_charge_bind_ok {c : σ → Except ε σ} {s : Cursor τ σ} {aux : σ}
    (h : c s.aux = .ok aux) (f : Unit → Reader τ σ ε β) :
    (charge c >>= f) s = f () { s with aux := aux } := by
  rw [run_bind, charge, h]

theorem run_charge_bind_error {c : σ → Except ε σ} {s : Cursor τ σ} {e : ε}
    (h : c s.aux = .error e) (f : Unit → Reader τ σ ε β) : (charge c >>= f) s = .error e := by
  rw [run_bind, charge, h]

/-! ### Loops -/

/-- What one round of a loop decides: go round again, or leave with a result. -/
inductive Flow (α β : Type) where
  | again (a : α)
  | done (b : β)
  deriving DecidableEq, Repr

/-- At most `fuel` rounds of `body`. -/
def iterateN (stuck : ε) (body : α → Reader τ σ ε (Flow α β)) : ℕ → α → Reader τ σ ε β
  | 0, _ => fail stuck
  | fuel + 1, a => do
    match ← body a with
    | .again a' => iterateN stuck body fuel a'
    | .done b => pure b

/-- Repeat `body` until it is done. One round more than there are items left is always enough
for a body that consumes something each time; `stuck` is what a body that does not would end
in. -/
def iterate (stuck : ε) (body : α → Reader τ σ ε (Flow α β)) (a : α) : Reader τ σ ε β := fun s =>
  iterateN stuck body (s.input.length - s.pos + 1) a s

end Incremental
