import Mathlib.Data.List.Basic

/-!
# Debug output

What a formatter for debugging writes is put together from what it writes for the parts of a value:
for a tuple or a record its name and its fields, for a list its items. `Formatter` is any such way
to put it together, and `Formatter.standard` the one on a single line. How a string is shown is left
open, since escapes make no difference here.

## Main definitions

* `Formatter`, `Formatter.standard` — how output is put together

## Main results

* `commas_number_injective` — the items can be read off a list of numbers
-/

namespace Format

variable {σ R : Type}

/-- How the output for a value is put together from that for its parts. -/
structure Formatter (σ R : Type) where
  str : σ → R
  number : ℕ → R
  /-- A name without fields. -/
  unit : String → R
  tuple : String → List R → R
  record : String → List (String × R) → R
  list : List R → R
  /-- Text around a part. -/
  around : String → R → String → R

def Formatter.option (fmt : Formatter σ R) : Option R → R
  | none => fmt.unit "None"
  | some r => fmt.tuple "Some" [r]

/-- Parts with a comma and a space between them. -/
def commas : List (List Char) → List Char
  | [] => []
  | [x] => x
  | x :: y :: t => x ++ ',' :: ' ' :: commas (y :: t)

/-- The output on a single line. -/
def Formatter.standard (str : σ → List Char) : Formatter σ (List Char) where
  str := str
  number := Nat.toDigits 10
  unit := String.toList
  tuple name fields := name.toList ++ '(' :: (commas fields ++ [')'])
  record name fields := name.toList ++ ' ' :: '\x7b' :: ' ' ::
    (commas (fields.map fun field => field.1.toList ++ ':' :: ' ' :: field.2) ++ [' ', '\x7d'])
  list items := '[' :: (commas items ++ [']'])
  around front part back := front.toList ++ part ++ back.toList

/-! ### Lists of numbers -/

theorem toDigits_injective {m n : ℕ} (h : Nat.toDigits 10 m = Nat.toDigits 10 n) : m = n := by
  have hread : ∀ k : ℕ, Nat.ofDigitChars 10 (Nat.toDigits 10 k) 0 = k := fun k =>
    Nat.ofDigitChars_toDigits (by decide) (by decide)
  rw [← hread m, h, hread n]

/-- A number ends where the digits do. -/
theorem takeWhile_toDigits (n : ℕ) {t : List Char}
    (ht : ∀ c, t.head? = some c → c.isDigit = false) :
    (Nat.toDigits 10 n ++ t).takeWhile Char.isDigit = Nat.toDigits 10 n := by
  have hdigits : ∀ c ∈ Nat.toDigits 10 n, c.isDigit = true := fun c hc =>
    Nat.isDigit_of_mem_toDigits (by decide) (by decide) hc
  rw [List.takeWhile_append_of_pos hdigits]
  cases t with
  | nil => exact List.append_nil _
  | cons c t => rw [List.takeWhile_cons_of_neg (by rw [ht c rfl]; decide), List.append_nil]

/-- What follows the first number of a list. -/
def tailText (l : List ℕ) : List Char :=
  l.flatMap fun n => ',' :: ' ' :: Nat.toDigits 10 n

theorem commas_number_cons (n : ℕ) (l : List ℕ) :
    commas ((n :: l).map (Nat.toDigits 10)) = Nat.toDigits 10 n ++ tailText l := by
  induction l generalizing n with
  | nil => exact (List.append_nil _).symm
  | cons m l ih =>
    have hrest := ih m
    rw [List.map_cons] at hrest
    rw [List.map_cons, List.map_cons, commas, hrest, tailText, tailText, List.flatMap_cons]
    rfl

theorem tailText_head (l : List ℕ) {c : Char} (h : (tailText l).head? = some c) :
    c.isDigit = false := by
  cases l with
  | nil => cases h
  | cons m l =>
    obtain rfl := Option.some.inj h
    decide

theorem tailText_injective : Function.Injective tailText := by
  intro l
  induction l with
  | nil =>
    intro l' h
    cases l' with
    | nil => rfl
    | cons n l' => cases h
  | cons m l ih =>
    intro l' h
    cases l' with
    | nil => cases h
    | cons n l' =>
      have htext : Nat.toDigits 10 m ++ tailText l = Nat.toDigits 10 n ++ tailText l' :=
        (List.cons.inj (List.cons.inj h).2).2
      have hdigits : Nat.toDigits 10 m = Nat.toDigits 10 n := by
        rw [← takeWhile_toDigits m fun c => tailText_head l, htext,
          takeWhile_toDigits n fun c => tailText_head l']
      rw [hdigits] at htext
      rw [toDigits_injective hdigits, ih (List.append_cancel_left htext)]

/-- **The numbers can be read off.** -/
theorem commas_number_injective {l l' : List ℕ}
    (h : commas (l.map (Nat.toDigits 10)) = commas (l'.map (Nat.toDigits 10))) : l = l' := by
  cases l with
  | nil =>
    cases l' with
    | nil => rfl
    | cons n l' =>
      rw [commas_number_cons] at h
      exact absurd (List.append_eq_nil_iff.mp h.symm).1 Nat.toDigits_ne_nil
  | cons m l =>
    cases l' with
    | nil =>
      rw [commas_number_cons] at h
      exact absurd (List.append_eq_nil_iff.mp h).1 Nat.toDigits_ne_nil
    | cons n l' =>
      have hcons : tailText (m :: l) = tailText (n :: l') := by
        rw [commas_number_cons, commas_number_cons] at h
        exact congrArg (fun t => ',' :: ' ' :: t) h
      exact tailText_injective hcons

end Format
