import Mathlib.Data.List.Basic

/-!
# Growable buffers

A buffer is made with a capacity and grows when what is appended does not fit. Growing moves the
contents to a larger allocation and gives the old one up with the contents still in it. What a
buffer gave up, and how long it was after each operation, is kept with it, so that a program that
reserves exactly what it appends can be told from one that is short.

The capacity an allocator hands out is only known to be enough: a buffer is not known to grow where
it is short, but it never grows where what was asked for is not exceeded.

## Main definitions

* `Allocator`, `Buffer` — buffers and where they come from
* `Buffer.Exact` — filled to what was asked for, and never moved
* `Holds` — the invariant of a buffer that has been filled so far

## Main results

* `Holds.extend` — appending what still fits
* `Holds.exact` — a buffer that has been filled up
-/

namespace Storage

/-- The capacities an allocator hands out: at least what was asked for. -/
structure Allocator where
  initial : ℕ → ℕ
  grown : ℕ → ℕ → ℕ
  le_initial : ∀ n, n ≤ initial n
  le_grown : ∀ capacity needed, needed ≤ grown capacity needed

/-- The allocator that hands out what was asked for and no more. -/
instance : Inhabited Allocator := ⟨⟨id, fun _ needed => needed, Nat.le_refl, fun _ => Nat.le_refl⟩⟩

/-- A growable buffer. -/
structure Buffer (τ : Type) where
  contents : List τ
  /-- What was asked for when it was made. -/
  requested : ℕ
  capacity : ℕ
  /-- Its length after each operation. -/
  lengths : List ℕ
  /-- What the allocations held that were given up. -/
  freed : List (List τ)
  deriving DecidableEq, Repr

variable {τ : Type} {n : ℕ} {x : List τ} {b : Buffer τ}

namespace Buffer

def withCapacity (al : Allocator) (n : ℕ) : Buffer τ := ⟨[], n, al.initial n, [], []⟩

/-- Append; where that does not fit, into a larger allocation. -/
def extend (al : Allocator) (b : Buffer τ) (x : List τ) : Buffer τ :=
  let length := b.contents.length + x.length
  if length ≤ b.capacity then
    { b with contents := b.contents ++ x, lengths := b.lengths ++ [length] }
  else
    { b with
      contents := b.contents ++ x
      capacity := al.grown b.capacity length
      lengths := b.lengths ++ [length]
      freed := b.freed ++ [b.contents] }

def push (al : Allocator) (b : Buffer τ) (a : τ) : Buffer τ := b.extend al [a]

/-- What was asked for is what was appended, no length on the way was above it, and no copy of the
contents was left behind. -/
structure Exact (b : Buffer τ) : Prop where
  length_eq : b.contents.length = b.requested
  lengths_le : ∀ m ∈ b.lengths, m ≤ b.requested
  freed_eq : b.freed = []

end Buffer

/-- The buffer holds `x`, was made for `n` items, was never longer and was never moved. -/
structure Holds (n : ℕ) (x : List τ) (b : Buffer τ) : Prop where
  contents_eq : b.contents = x
  requested_eq : b.requested = n
  le_capacity : n ≤ b.capacity
  lengths_le : ∀ m ∈ b.lengths, m ≤ n
  freed_eq : b.freed = []

namespace Holds

theorem withCapacity (al : Allocator) (n : ℕ) :
    Holds n ([] : List τ) (Buffer.withCapacity al n) where
  contents_eq := rfl
  requested_eq := rfl
  le_capacity := al.le_initial n
  lengths_le := by simp [Buffer.withCapacity]
  freed_eq := rfl

/-- **Appending what still fits.** -/
theorem extend (h : Holds n x b) (al : Allocator) (y : List τ) (hle : x.length + y.length ≤ n) :
    Holds n (x ++ y) (b.extend al y) := by
  have hlen : b.contents.length + y.length ≤ n := by rwa [h.contents_eq]
  rw [Buffer.extend, if_pos (Nat.le_trans hlen h.le_capacity)]
  refine ⟨by rw [h.contents_eq], h.requested_eq, h.le_capacity, ?_, h.freed_eq⟩
  intro m hm
  rcases List.mem_append.mp hm with hm | hm
  · exact h.lengths_le m hm
  · rwa [List.mem_singleton.mp hm]

theorem push (h : Holds n x b) (al : Allocator) (a : τ) (hle : x.length + 1 ≤ n) :
    Holds n (x ++ [a]) (b.push al a) :=
  h.extend al [a] hle

/-- **A buffer that has been filled up.** -/
theorem exact (h : Holds n x b) (hlen : x.length = n) : b.Exact where
  length_eq := by rw [h.contents_eq, h.requested_eq, hlen]
  lengths_le := by
    rw [h.requested_eq]
    exact h.lengths_le
  freed_eq := h.freed_eq

end Holds

end Storage
