import Mathlib

/-!
# Cutting a stream into frames

A framer takes one frame off the front of a buffer, or says that the buffer holds none. Three laws
make it usable on a stream that arrives in pieces: a frame is a non-empty prefix that is a frame on
its own, more input does not change a frame that was found, and more input does not cure an error.

A stream is then frames followed by a tail that holds none, and everything received of it so far
has that shape too: some of the frames, and either a proper prefix of the next one or a prefix of
the tail.

## Main definitions

* `Framer` — one frame off the front, with its laws
* `Framer.Undecided` — no frame at the front
* `wire` — frames back to back

## Main results

* `Framer.incomplete_of_prefix` — a proper prefix of a frame asks for more
* `wire_prefix_split` — a prefix of a framed stream is a framed stream
-/

namespace Incremental

variable {τ ε ρ : Type}

/-- One frame off the front of a buffer; `inc` asks for more input. -/
structure Framer (τ ε ρ : Type) where
  decode : List τ → Except ε (List τ × ρ)
  inc : ε
  decode_nil : decode [] = .error inc
  frame : ∀ {x rest r}, decode x = .ok (rest, r) →
    ∃ f, f ≠ [] ∧ x = f ++ rest ∧ decode f = .ok ([], r)
  append_ok : ∀ {x rest r}, decode x = .ok (rest, r) → ∀ y, decode (x ++ y) = .ok (rest ++ y, r)
  append_error : ∀ {x e}, decode x = .error e → e ≠ inc →
    ∀ y, ∃ e', e' ≠ inc ∧ decode (x ++ y) = .error e'

/-- The bytes of a run of frames, back to back. -/
def wire (fs : List (List τ × ρ)) : List τ := (fs.map Prod.fst).flatten

@[simp] theorem wire_nil : wire ([] : List (List τ × ρ)) = [] := rfl

@[simp] theorem wire_cons (f : List τ × ρ) (fs : List (List τ × ρ)) :
    wire (f :: fs) = f.1 ++ wire fs := rfl

@[simp] theorem wire_append (fs gs : List (List τ × ρ)) : wire (fs ++ gs) = wire fs ++ wire gs := by
  simp [wire]

/-- **What has been received of a framed stream.** Some of the frames, then a proper prefix of the
next frame or a prefix of the tail. -/
theorem wire_prefix_split {fs : List (List τ × ρ)} {x t : List τ} (hx : x <+: wire fs ++ t) :
    ∃ gs hs u, fs = gs ++ hs ∧ x = wire gs ++ u ∧
      ((∃ h hs', hs = h :: hs' ∧ u <+: h.1 ∧ u ≠ h.1) ∨ (hs = [] ∧ u <+: t)) := by
  induction fs generalizing x with
  | nil => exact ⟨[], [], x, rfl, rfl, .inr ⟨rfl, hx⟩⟩
  | cons f fs ih =>
    rw [wire_cons, List.append_assoc] at hx
    -- whatever goes past the first frame is received of the others
    have past : ∀ y, y <+: wire fs ++ t → x = f.1 ++ y → ∃ gs hs u, f :: fs = gs ++ hs ∧
        x = wire gs ++ u ∧
        ((∃ h hs', hs = h :: hs' ∧ u <+: h.1 ∧ u ≠ h.1) ∨ (hs = [] ∧ u <+: t)) := by
      intro y hy hxy
      obtain ⟨gs, hs, u, hsplit, hu, hcase⟩ := ih hy
      refine ⟨f :: gs, hs, u, by rw [hsplit]; rfl, ?_, hcase⟩
      rw [hxy, hu, wire_cons, List.append_assoc]
    rcases List.prefix_or_prefix_of_prefix hx (List.prefix_append f.1 _) with hxf | ⟨y, hy⟩
    · by_cases heq : x = f.1
      · exact past [] List.nil_prefix (by rw [heq, List.append_nil])
      · exact ⟨[], f :: fs, x, rfl, rfl, .inl ⟨f, fs, rfl, hxf, heq⟩⟩
    · refine past y ?_ hy.symm
      rw [← hy] at hx
      exact (List.prefix_append_right_inj f.1).mp hx

namespace Framer

variable (F : Framer τ ε ρ)

/-- `f` is a complete frame: decoding it consumes exactly it. -/
def Complete (f : List τ × ρ) : Prop := F.decode f.1 = .ok ([], f.2)

/-- No frame at the front. -/
def Undecided (x : List τ) : Prop := ∀ rest r, F.decode x ≠ .ok (rest, r)

variable {F} {f : List τ × ρ} {x y t u : List τ}

theorem Complete.ne_nil (h : F.Complete f) : f.1 ≠ [] := by
  intro hnil
  rw [Complete, hnil, F.decode_nil] at h
  cases h

theorem Complete.decode_append (h : F.Complete f) (y : List τ) :
    F.decode (f.1 ++ y) = .ok (y, f.2) :=
  F.append_ok h y

theorem undecided_nil : F.Undecided [] := by
  intro rest r h
  rw [F.decode_nil] at h
  cases h

/-- Every prefix of an undecided buffer is undecided. -/
theorem Undecided.of_prefix (ht : F.Undecided t) (h : u <+: t) : F.Undecided u := by
  obtain ⟨y, rfl⟩ := h
  intro rest r hok
  exact ht _ _ (F.append_ok hok y)

/-- **A proper prefix of a frame asks for more.** -/
theorem incomplete_of_prefix (h : F.Complete f) (hu : u <+: f.1) (hne : u ≠ f.1) :
    F.decode u = .error F.inc := by
  obtain ⟨y, hy⟩ := hu
  have hy' : F.decode (u ++ y) = .ok ([], f.2) := by rw [hy]; exact h
  cases hd : F.decode u with
  | ok v =>
    rw [F.append_ok hd y] at hy'
    have hnil : v.1 ++ y = [] := congrArg Prod.fst (Except.ok.inj hy')
    obtain ⟨_, rfl⟩ := List.append_eq_nil_iff.mp hnil
    exact absurd (by rw [← hy, List.append_nil]) hne
  | error e =>
    by_contra hinc
    obtain ⟨e', _, he'⟩ := F.append_error hd (fun he => hinc (by rw [he])) y
    rw [he'] at hy'
    cases hy'

end Framer

end Incremental
