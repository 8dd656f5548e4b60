import ImapRs.Client.Wire

/-!
# The grammar of sequence sets

`wire::sequence_set` splits a set at its commas, each piece at its colons, and tries to read what
is left as a number. Here is the grammar those splits stand for, and the two are the same.

## Main definitions

* `SeqNumber`, `SeqRange`, `SeqSet` — the grammar, one constructor for each alternative

## Main results

* `isSeqNumber_iff`, `isSeqRange_iff` — the pieces
* `sequenceSet_iff` — exactly the derivable sets are accepted
-/

namespace ImapRs

/-! ### The grammar -/

/-- The value of a decimal numeral. -/
def numeralValue (ds : Bytes) : ℕ := Nat.ofDigits 10 (ds.map fun d => d.toNat - 48).reverse

/-- `num`: `*`, or a decimal numeral without leading zero from 1 to 4294967295. -/
inductive SeqNumber : Bytes → Prop where
  | star : SeqNumber (ascii "*")
  | numeral {ds : Bytes} : (∀ d ∈ ds, isAsciiDigit d = true) → ds ≠ [] →
      ds.head? ≠ some (byte '0') → 1 ≤ numeralValue ds → numeralValue ds ≤ 4294967295 → SeqNumber ds

/-- `range`: one number, or two with a colon between them. -/
inductive SeqRange : Bytes → Prop where
  | one {x : Bytes} : SeqNumber x → SeqRange x
  | two {x y : Bytes} : SeqNumber x → SeqNumber y → SeqRange (x ++ byte ':' :: y)

/-- `set`: ranges with commas between them. -/
inductive SeqSet : Bytes → Prop where
  | one {x : Bytes} : SeqRange x → SeqSet x
  | more {x y : Bytes} : SeqRange x → SeqSet y → SeqSet (x ++ byte ',' :: y)

/-! ### Numbers -/

theorem numeralValue_eq (ds : Bytes) : numeralValue ds = decimalValue ds := by
  rw [numeralValue, Nat.ofDigits_eq_foldr, List.foldr_reverse, List.foldl_map, decimalValue]
  congr 1
  funext n d
  show (d.toNat - 48) + 10 * n = n * 10 + (d.toNat - 48)
  omega

/-- A numeral that does not begin with a zero is not zero. -/
theorem decimalValue_pos {d : UInt8} {ds : Bytes} (hd : isAsciiDigit d = true)
    (hzero : d ≠ byte '0') : 1 ≤ decimalValue (d :: ds) := by
  have hfirst : 1 ≤ d.toNat - 48 := by
    have hle := UInt8.le_iff_toNat_le.mp (Parser.isAsciiDigit_iff.mp hd).1
    have hne : d.toNat ≠ 48 := fun h => hzero (UInt8.toNat_inj.mp h)
    have : (48 : UInt8).toNat = 48 := rfl
    omega
  have hgrow : ∀ (ds : Bytes) (n : ℕ), 1 ≤ n →
      1 ≤ ds.foldl (fun n d => n * 10 + (d.toNat - 48)) n := by
    intro ds
    induction ds with
    | nil => exact fun n hn => hn
    | cons d ds ih =>
      intro n hn
      exact ih (n * 10 + (d.toNat - 48)) (by omega)
  exact hgrow ds (0 * 10 + (d.toNat - 48)) (by omega)

/-- **The numbers.** -/
theorem isSeqNumber_iff {x : Bytes} : isSeqNumber x = true ↔ SeqNumber x := by
  constructor
  · intro h
    rw [isSeqNumber, Bool.or_eq_true, beq_iff_eq] at h
    rcases h with rfl | h
    · exact .star
    · simp only [Bool.and_eq_true, bne_iff_ne, ne_eq, List.all_eq_true] at h
      obtain ⟨⟨hhead, hall⟩, hparse⟩ := h
      cases x with
      | nil => exact absurd hparse (by decide)
      | cons d ds =>
        rw [Parser.parseU32_digits (List.cons_ne_nil d ds) hall] at hparse
        have hlt : decimalValue (d :: ds) < 2 ^ 32 := by
          by_contra hge
          rw [dif_neg hge] at hparse
          cases hparse
        refine .numeral hall (List.cons_ne_nil d ds) hhead ?_ ?_
        · rw [numeralValue_eq]
          exact decimalValue_pos (hall d List.mem_cons_self) fun hd => hhead (by rw [hd]; rfl)
        · rw [numeralValue_eq]
          omega
  · rintro (_ | ⟨hall, hne, hhead, -, hle⟩)
    · decide
    · rw [numeralValue_eq] at hle
      rw [isSeqNumber, Bool.or_eq_true]
      right
      rw [Parser.parseU32_digits hne hall, dif_pos (by omega)]
      simp only [Bool.and_eq_true, bne_iff_ne, ne_eq, List.all_eq_true]
      exact ⟨⟨hhead, hall⟩, rfl⟩

/-! ### Ranges -/

/-- The separators are no part of a number. -/
theorem SeqNumber.not_mem {x : Bytes} (h : SeqNumber x) {c : UInt8} (hc : isAsciiDigit c = false)
    (hstar : c ≠ byte '*') : c ∉ x := by
  intro hmem
  cases h with
  | star => exact hstar (List.mem_singleton.mp hmem)
  | numeral hall =>
    have := hall c hmem
    rw [hc] at this
    cases this

theorem SeqRange.comma_not_mem {x : Bytes} (h : SeqRange x) : byte ',' ∉ x := by
  have hnum : ∀ {y : Bytes}, SeqNumber y → byte ',' ∉ y :=
    fun hy => hy.not_mem (by decide) (by decide)
  cases h with
  | one hx => exact hnum hx
  | two hx hy =>
    simp only [List.mem_append, List.mem_cons, not_or]
    exact ⟨hnum hx, by decide, hnum hy⟩

/-- **The ranges.** -/
theorem isSeqRange_iff {x : Bytes} : isSeqRange x = true ↔ SeqRange x := by
  have hcolon : ∀ {y : Bytes}, SeqNumber y → byte ':' ∉ y :=
    fun hy => hy.not_mem (by decide) (by decide)
  constructor
  · intro h
    have hjoin : [byte ':'].intercalate (x.splitOn (byte ':')) = x := List.intercalate_splitOn _
    rw [isSeqRange] at h
    split at h
    next only hsplit =>
      rw [hsplit, List.intercalate_singleton] at hjoin
      rw [← hjoin]
      exact .one (isSeqNumber_iff.mp h)
    next first last hsplit =>
      rw [hsplit, List.intercalate_cons_cons, List.intercalate_singleton,
        List.append_assoc] at hjoin
      rw [← hjoin]
      obtain ⟨hfirst, hlast⟩ := Bool.and_eq_true_iff.mp h
      exact .two (isSeqNumber_iff.mp hfirst) (isSeqNumber_iff.mp hlast)
    · cases h
  · rintro (hx | ⟨hx, hy⟩)
    · have hsplit : ([byte ':'].intercalate [x]).splitOn (byte ':') = [x] :=
        List.splitOn_intercalate _ (by simpa using hcolon hx) (List.cons_ne_nil _ _)
      rw [List.intercalate_singleton] at hsplit
      rw [isSeqRange, hsplit]
      exact isSeqNumber_iff.mpr hx
    · have hparts : ∀ part ∈ [_, _], byte ':' ∉ part :=
        List.forall_mem_cons.mpr ⟨hcolon hx, by simpa using hcolon hy⟩
      have hsplit := List.splitOn_intercalate (byte ':') hparts (List.cons_ne_nil _ _)
      rw [List.intercalate_cons_cons, List.intercalate_singleton, List.append_assoc,
        List.singleton_append] at hsplit
      rw [isSeqRange, hsplit]
      exact Bool.and_eq_true_iff.mpr ⟨isSeqNumber_iff.mpr hx, isSeqNumber_iff.mpr hy⟩

/-! ### Sets -/

theorem seqSet_of_parts {parts : List Bytes} (hne : parts ≠ [])
    (h : ∀ part ∈ parts, SeqRange part) :
    SeqSet ([byte ','].intercalate parts) := by
  induction parts with
  | nil => exact absurd rfl hne
  | cons x parts ih =>
    obtain ⟨hx, hparts⟩ := List.forall_mem_cons.mp h
    cases parts with
    | nil =>
      rw [List.intercalate_singleton]
      exact .one hx
    | cons y parts =>
      rw [List.intercalate_cons_cons, List.append_assoc, List.singleton_append]
      exact .more hx (ih (List.cons_ne_nil y parts) hparts)

theorem SeqSet.parts {x : Bytes} (h : SeqSet x) :
    ∃ parts, parts ≠ [] ∧ (∀ part ∈ parts, SeqRange part) ∧ x = [byte ','].intercalate parts := by
  induction h with
  | @one x hx => exact ⟨[x], List.cons_ne_nil x [], by simpa using hx, by simp⟩
  | @more x y hx _ ih =>
    obtain ⟨parts, hne, hparts, rfl⟩ := ih
    obtain ⟨z, parts, rfl⟩ := List.exists_cons_of_ne_nil hne
    refine ⟨x :: z :: parts, List.cons_ne_nil _ _, List.forall_mem_cons.mpr ⟨hx, hparts⟩, ?_⟩
    rw [List.intercalate_cons_cons, List.append_assoc, List.singleton_append]

theorem SeqNumber.ne_nil {x : Bytes} (h : SeqNumber x) : x ≠ [] := by
  cases h with
  | star => decide
  | numeral _ hne => exact hne

theorem SeqSet.ne_nil {x : Bytes} (h : SeqSet x) : x ≠ [] := by
  cases h with
  | one hx =>
    cases hx with
    | one hx => exact hx.ne_nil
    | two => simp
  | more => simp

/-- What the check splits, joined again. -/
theorem splitOn_all_iff {x : Bytes} :
    (x ≠ [] ∧ (x.splitOn (byte ',')).all isSeqRange = true) ↔ SeqSet x := by
  constructor
  · rintro ⟨-, hall⟩
    have hjoin : [byte ','].intercalate (x.splitOn (byte ',')) = x := List.intercalate_splitOn _
    rw [← hjoin]
    exact seqSet_of_parts (List.splitOn_ne_nil _ _)
      fun part hpart => isSeqRange_iff.mp (List.all_eq_true.mp hall part hpart)
  · intro h
    refine ⟨h.ne_nil, ?_⟩
    obtain ⟨parts, hne, hparts, rfl⟩ := h.parts
    rw [List.splitOn_intercalate _ (fun part hpart => (hparts part hpart).comma_not_mem) hne,
      List.all_eq_true]
    exact fun part hpart => isSeqRange_iff.mpr (hparts part hpart)

/-- The whole check. -/
theorem check_iff {s : Str} :
    (!s.isEmpty && (s.bytes.splitOn (byte ',')).all isSeqRange) = true ↔ SeqSet s.bytes := by
  rw [← splitOn_all_iff, Bool.and_eq_true, Str.isEmpty, Bool.not_eq_true',
    List.isEmpty_eq_false_iff]

theorem sequenceSet_of_seqSet {s : Str} (h : SeqSet s.bytes) : sequenceSet s = .ok s.bytes :=
  if_pos (check_iff.mpr h)

/-- **The sequence-set check accepts its grammar**, and nothing else; what it accepts it returns
unchanged. -/
theorem sequenceSet_iff (s : Str) :
    (sequenceSet s = .ok s.bytes ↔ SeqSet s.bytes) ∧
      (¬ SeqSet s.bytes → sequenceSet s = .error (.invalidArgument "sequence set")) := by
  constructor
  · constructor
    · intro h
      by_contra hno
      rw [sequenceSet, if_neg fun hset => hno (check_iff.mp hset)] at h
      cases h
    · exact sequenceSet_of_seqSet
  · intro h
    rw [sequenceSet, if_neg fun hset => h (check_iff.mp hset)]

theorem sequenceSet_ok {s : Str} {bytes : Bytes} (h : sequenceSet s = .ok bytes) :
    bytes = s.bytes := by
  rw [sequenceSet] at h
  split at h
  · exact (Except.ok.inj h).symm
  · cases h

end ImapRs
