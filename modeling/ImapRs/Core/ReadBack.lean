import ImapRs.Core.Render
import ImapRs.Core.Framing
import ImapRs.Incremental.Reads

/-!
# Reading tokens and lists back

What each scanner of the grammar reads in front of a token that was written for it, and what the
lists and the parenthesised values are read as. Every production states the bytes that may follow
it; the productions of `RoundTrip` are put together from these.

## Main definitions

* `ReadsBack` — a parser method in front of a text
* `isNameChar` — the bytes of the keywords

## Main results

* `statusKeyword_readsBack`, `noStatusKeyword_readsBack` — a keyword is recognised, and no other
  word is taken for one
* `parenList_readsBack`, `spaced_readsBack`, `parenthesised_readsBack` — lists of any length and
  values of any depth
-/

namespace ImapRs

open Incremental Incremental.Cursor

/-! ### Keywords in any letter case -/

/-- A keyword compares with other words as its name does. -/
theorem Spells.eqIgnoreAsciiCase_eq {name : String} {x : Bytes} (h : Spells name x) (w : Bytes) :
    eqIgnoreAsciiCase x w = eqIgnoreAsciiCase (ascii name) w := by
  rw [Bool.eq_iff_iff, eqIgnoreAsciiCase_iff, eqIgnoreAsciiCase_iff, eqIgnoreAsciiCase_iff.mp h]

theorem Spells.eqCi_eq {name : String} {s : Str} (h : Spells name s.bytes) (keyword : String) :
    s.eqCi keyword = eqIgnoreAsciiCase (ascii name) (ascii keyword) :=
  h.eqIgnoreAsciiCase_eq _

theorem Spells.length_eq {name : String} {x : Bytes} (h : Spells name x) :
    x.length = (ascii name).length := by
  simpa using congrArg List.length (eqIgnoreAsciiCase_iff.mp h)

theorem Spells.ne_nil {name : String} {x : Bytes} (h : Spells name x) (hname : ascii name ≠ []) :
    x ≠ [] := by
  rintro rfl
  have hmap := eqIgnoreAsciiCase_iff.mp h
  exact hname (List.map_eq_nil_iff.mp hmap.symm)

/-- What is true of the bytes of the name in either case is true of the bytes of the keyword. -/
theorem Spells.forall {name : String} {x : Bytes} {P : UInt8 → Bool} (h : Spells name x)
    (hP : ∀ b, P (asciiLower b) = P b) (hname : ∀ b ∈ ascii name, P b = true) :
    ∀ b ∈ x, P b = true := by
  intro b hb
  have hmem : asciiLower b ∈ (ascii name).map asciiLower := by
    rw [← eqIgnoreAsciiCase_iff.mp h]
    exact List.mem_map_of_mem hb
  obtain ⟨c, hc, heq⟩ := List.mem_map.mp hmem
  rw [← hP b, ← heq, hP c]
  exact hname c hc

/-- A letter. -/
def isLetter (b : UInt8) : Bool := (65 ≤ b && b ≤ 90) || (97 ≤ b && b ≤ 122)

/-- The bytes of the keywords. -/
def isNameChar (b : UInt8) : Bool := isLetter b || isAsciiDigit b || b == byte '-' || b == byte '.'

theorem forall_byte {P : UInt8 → Prop} (h : ∀ n : Fin 256, P (UInt8.ofFin n)) (b : UInt8) : P b :=
  h b.toFin

theorem isLetter_asciiLower (b : UInt8) : isLetter (asciiLower b) = isLetter b :=
  forall_byte (P := fun b => isLetter (asciiLower b) = isLetter b) (by decide +kernel) b

theorem isNameChar_asciiLower (b : UInt8) : isNameChar (asciiLower b) = isNameChar b :=
  forall_byte (P := fun b => isNameChar (asciiLower b) = isNameChar b) (by decide +kernel) b

/-- The name of every keyword is made of name characters. -/
structure IsName (name : String) : Prop where
  ne_nil : ascii name ≠ []
  all : ∀ b ∈ ascii name, isNameChar b = true

theorem Spells.isNameChar {name : String} {x : Bytes} (h : Spells name x) (hname : IsName name) :
    ∀ b ∈ x, isNameChar b = true :=
  h.forall isNameChar_asciiLower hname.all

/-- The classes of bytes a name character is in. -/
structure NameByte (b : UInt8) : Prop where
  lt : b < 0x80
  atom : isAtomChar b = true
  att : Parser.isAttNameChar b = true
  code : (!((b == byte ']' || b == SP) || b == CR || b == LF)) = true
  word : Parser.isBoundary b = false
  quote : b ≠ byte '"'
  brace : b ≠ byte '{'

theorem nameByte {b : UInt8} (h : isNameChar b = true) : NameByte b := by
  have key : ∀ n : Fin 256, isNameChar (UInt8.ofFin n) = true →
      UInt8.ofFin n < 0x80 ∧ isAtomChar (UInt8.ofFin n) = true ∧
      Parser.isAttNameChar (UInt8.ofFin n) = true ∧
      (!((UInt8.ofFin n == byte ']' || UInt8.ofFin n == SP) || UInt8.ofFin n == CR ||
        UInt8.ofFin n == LF)) = true ∧ Parser.isBoundary (UInt8.ofFin n) = false ∧
      UInt8.ofFin n ≠ byte '"' ∧ UInt8.ofFin n ≠ byte '{' := by
    decide +kernel
  obtain ⟨h₁, h₂, h₃, h₄, h₅, h₆, h₇⟩ := key b.toFin h
  exact ⟨h₁, h₂, h₃, h₄, h₅, h₆, h₇⟩

/-- The text of a keyword. -/
theorem Spells.validUtf8 {name : String} {x : Bytes} (h : Spells name x) (hname : IsName name) :
    validUtf8 x = true :=
  Parser.validUtf8_of_lt fun b hb => (nameByte (h.isNameChar hname b hb)).lt

theorem Spells.not_isBoundary {name : String} {x : Bytes} (h : Spells name x)
    (hname : IsName name) : ∀ c ∈ x, Parser.isBoundary c = false :=
  fun c hc => (nameByte (h.isNameChar hname c hc)).word

namespace Parser

variable {α β γ : Type} {x y t : Bytes} {c : ℕ} {F : Bytes → Prop} {S : β → Prop}

/-- A parser method in front of a text that it is to consume. -/
abbrev ReadsBack (x : Bytes) (cost : ℕ) (follow : Bytes → Prop) (p : ParserM α) (Q : α → Prop) :
    Prop :=
  Reads Budget.itemsLeft x cost follow p Q

/-! ### Single bytes -/

theorem byte_bind {b : UInt8} {f : Unit → ParserM β} (h : ReadsBack t c F (f ()) S) :
    ReadsBack (b :: t) c F (consumeByte b >>= f) S := by
  rw [consumeByte, bind_assoc]
  refine .peek_bind ?_
  rw [if_pos rfl]
  exact .advance_bind h

theorem sp_bind {f : Unit → ParserM β} (h : ReadsBack t c F (f ()) S) :
    ReadsBack (SP :: t) c F (consumeSp >>= f) S :=
  byte_bind h

/-- The end of the line. -/
theorem crlf_readsBack {v : β} (h : S v) :
    ReadsBack CRLF 0 F (consumeCrlf >>= fun _ => pure v) S := by
  intro s y _ hrest _ _
  refine ⟨v, s.aux, ?_, Nat.add_zero _, h⟩
  rw [run_bind_ok (consumeCrlf_of_rest hrest)]
  rfl

theorem charge_readsBack : ReadsBack [] 1 F (charge chargeItem) fun _ => True := by
  intro s y _ _ _ hc
  obtain ⟨n, hn⟩ : ∃ n, s.aux.itemsLeft = n + 1 := ⟨s.aux.itemsLeft - 1, by omega⟩
  refine ⟨(), { s.aux with itemsLeft := n }, ?_, hn.symm, trivial⟩
  rw [charge, chargeItem, hn]
  rfl

/-! ### Scans -/

theorem utf8Verdict_str (s : Str) : utf8Verdict s.bytes = .ok s := by
  rw [utf8Verdict, fromUtf8, dif_pos s.utf8]

theorem toStr_str (s : Str) : (toStr s.bytes : ParserM Str) = pure s := by
  rw [toStr, fromUtf8, dif_pos s.utf8]

/-- A word, in front of a byte that ends it. -/
theorem word_readsBack {p : UInt8 → Bool} {what : String} {s : Str} (hne : s.bytes ≠ [])
    (hall : ∀ b ∈ s.bytes, p b = true) : ReadsBack s.bytes 0 (Starts fun b => p b = false)
      (position >>= fun start => tokenFrom start p (wordVerdict what)) (· = s) := by
  refine Reads.following (Reads.token hall rfl) fun y hy => hy.mono fun b hb => ⟨hb, ?_⟩
  rw [wordVerdict, if_neg hne, utf8Verdict_str]

theorem atom_readsBack {s : Str} (h : IsAtom s.bytes) :
    ReadsBack s.bytes 0 (Starts fun b => isAtomChar b = false) parseAtom (· = s) := by
  rw [parseAtom_eq]
  exact word_readsBack h.1 h.2

theorem tag_readsBack {s : Str} (h : IsTag s.bytes) :
    ReadsBack s.bytes 0 (Starts (· = SP)) parseTag (· = s) := by
  rw [parseTag_eq]
  have hall : ∀ b ∈ s.bytes, isTagChar b = true := by
    intro b hb
    have hne := h.2.1 b hb
    simp [isTagChar, hne]
  refine (word_readsBack h.1 hall).following fun y hy => hy.mono ?_
  rintro _ rfl
  decide

theorem attName_readsBack {s : Str} (hne : s.bytes ≠ [])
    (hall : ∀ b ∈ s.bytes, isAttNameChar b = true) :
    ReadsBack s.bytes 0 (Starts fun b => isAttNameChar b = false) parseFetchAttName (· = s) := by
  rw [parseFetchAttName_eq]
  exact word_readsBack hne hall

theorem text_readsBack {s : Str} (h : IsText s.bytes) :
    ReadsBack s.bytes 0 (Starts (· = CR)) parseText (· = s) := by
  rw [parseText_eq]
  have hall : ∀ b ∈ s.bytes, isTextChar b = true := by
    intro b hb
    have hne := h b hb
    simp [isTextChar, hne]
  refine Reads.following (Reads.token hall rfl) fun y hy => hy.mono ?_
  rintro _ rfl
  exact ⟨by decide, utf8Verdict_str s⟩

theorem bracketed_readsBack {s : Str} (h : IsBracketed s.bytes) :
    ReadsBack s.bytes 0 (Starts (· = byte ']')) (readUntilByte (byte ']')) (· = s) := by
  rw [readUntilByte_eq]
  have hall : ∀ b ∈ s.bytes, (!(b == byte ']' || b == CR || b == LF)) = true := by
    intro b hb
    have hne := h b hb
    simp [hne]
  refine Reads.following (Reads.token hall rfl) fun y hy => hy.mono ?_
  rintro _ rfl
  exact ⟨by decide, utf8Verdict_str s⟩

/-- The bytes that end the name of a response code. -/
def EndsCode (y : Bytes) : Prop := Starts (fun b => b = byte ']' ∨ b = SP) y

theorem codeAtom_readsBack {s : Str} (hne : s.bytes ≠ [])
    (hall : ∀ b ∈ s.bytes, (!((b == byte ']' || b == SP) || b == CR || b == LF)) = true) :
    ReadsBack s.bytes 0 EndsCode parseCodeAtom (· = s) := by
  rw [parseCodeAtom_eq]
  refine Reads.following (Reads.token hall rfl) fun y hy => hy.mono ?_
  rintro b (rfl | rfl) <;> refine ⟨by decide, ?_⟩ <;>
    · rw [codeVerdict, if_pos (by decide), if_neg hne, utf8Verdict_str]

theorem number_readsBack {n : UInt32} (h : Decimal n x) :
    ReadsBack x 0 (Starts fun b => isAsciiDigit b = false) parseNumber (· = n) := by
  intro s y _ hrest hy _
  obtain ⟨⟨hne, hdig⟩, hval⟩ := h
  obtain ⟨b, z, rfl, hb⟩ := hy
  have hlt : decimalValue x < 2 ^ 32 := by
    rw [hval]
    exact n.toNat_lt
  refine ⟨_, s.aux, parseNumber_of_rest hne hdig hlt ?_ hrest, Nat.add_zero _, ?_⟩
  · intro c hc
    cases hc
    exact hb
  · refine UInt32.toNat_inj.mp ?_
    rw [UInt32.toNat_ofNatLT, hval]

/-! ### Strings -/

theorem quoted_readsBack {s : Str} (h : RendersQuoted s.bytes x) :
    ReadsBack x 0 F parseQuoted (· = s) := by
  intro r y hv hrest _ _
  obtain ⟨hesc, rfl⟩ := h
  rw [List.cons_append, List.append_assoc, List.singleton_append] at hrest
  refine ⟨_, r.aux, ?_, Nat.add_zero _, rfl⟩
  rw [parseQuoted_of_rest hv hesc s.utf8 hrest, List.length_cons, List.length_append]
  rfl

theorem literal_readsBack {data : Bytes} (h : RendersLiteral data x) :
    ReadsBack x 0 F parseLiteral fun v => v.bytes = data := by
  intro s y hv hrest _ _
  obtain ⟨hmax, ds, ⟨hne, hdig⟩, hval, rfl⟩ := h
  rw [List.append_assoc] at hrest
  have hread := parseLiteral_of_rest hv hne hdig hval.symm (by rwa [hval]) hrest
  rw [← length_literalHeader, Nat.add_assoc, ← List.length_append] at hread
  exact ⟨_, _, hread, rfl, rfl⟩

theorem literalStr_readsBack {s : Str} (h : RendersLiteral s.bytes x) :
    ReadsBack x 0 F (parseLiteral >>= fun data => toStr data.bytes) (· = s) := by
  refine (literal_readsBack h).bind_pure fun data hdata => ⟨s, ?_, rfl⟩
  rw [hdata, toStr_str]

/-! ### Keywords -/

/-- The byte that ends a keyword. -/
def EndsWord (y : Bytes) : Prop := Starts (fun b => isBoundary b = true) y

/-- In front of a word, a keyword is there if it is that word. -/
theorem keywordAt_word {kw : Bytes} {b : UInt8} (hx : ∀ c ∈ x, isBoundary c = false)
    (hb : isBoundary b = true) (hkw : ∀ c ∈ kw, byteEqCi b c = false) (z : Bytes) :
    keywordAt (x ++ b :: z) kw = eqIgnoreAsciiCase x kw := by
  have hle : kw.length ≤ (x ++ b :: z).length ↔ kw.length ≤ x.length + z.length + 1 := by
    rw [List.length_append, List.length_cons, Nat.add_assoc]
  rw [keywordAt, eqIgnoreAsciiCase]
  rcases Nat.lt_trichotomy kw.length x.length with hlt | heq | hgt
  · -- the word goes on
    have hnext : (x ++ b :: z)[kw.length]? = some x[kw.length] := by
      rw [List.getElem?_append_left hlt, List.getElem?_eq_getElem hlt]
    rw [hnext, beq_eq_false_iff_ne.mpr (Nat.ne_of_gt hlt)]
    simp only [hx _ (List.getElem_mem hlt), Bool.and_false, Bool.false_and]
  · have hnext : (x ++ b :: z)[kw.length]? = some b := by
      rw [heq, List.getElem?_append_right (Nat.le_refl _), Nat.sub_self]
      rfl
    rw [hnext, agreesCi_of_length_le (Nat.le_of_eq heq), decide_eq_true (hle.mpr (by omega)),
      beq_iff_eq.mpr heq.symm]
    simp only [hb, Bool.and_true]
    rfl
  · -- the word ends where the keyword goes on
    have hno : agreesCi (x ++ b :: z) kw = false := by
      rw [agreesCi_append, List.drop_eq_getElem_cons hgt, agreesCi, agreesCi, List.zip_cons_cons,
        List.all_cons, hkw _ (List.getElem_mem hgt), Bool.false_and, Bool.and_false]
    rw [hno, beq_eq_false_iff_ne.mpr (Nat.ne_of_lt hgt)]
    simp only [Bool.and_false, Bool.false_and]

theorem byteEqCi_boundary {b c : UInt8} (hb : isBoundary b = true) (hc : isNameChar c = true) :
    byteEqCi b c = false := by
  rw [byteEqCi, beq_eq_false_iff_ne]
  intro heq
  have hname : isNameChar b = true := by
    rw [← isNameChar_asciiLower, heq, isNameChar_asciiLower, hc]
  rw [(nameByte hname).word] at hb
  cases hb

/-- The keywords of a status response. -/
theorem statusKeywords_isNameChar : ∀ k ∈ statusKeywords, ∀ b ∈ k.2, isNameChar b = true := by
  decide +kernel

/-- In front of a word, the status keyword is the one that is that word. -/
theorem statusKeywordAt_word (hx : ∀ c ∈ x, isBoundary c = false) (hy : EndsWord y) :
    statusKeywordAt (x ++ y) = statusKeywords.find? fun k => eqIgnoreAsciiCase x k.2 := by
  obtain ⟨b, z, rfl, hb⟩ := hy
  rw [statusKeywordAt, ← List.head?_filter, ← List.head?_filter]
  refine congrArg List.head? (List.filter_congr fun k hk => ?_)
  exact keywordAt_word hx hb
    (fun c hc => byteEqCi_boundary hb (statusKeywords_isNameChar k hk c hc)) z

theorem statusKeywordAt_spells {name : String} (h : Spells name x) (hname : IsName name)
    (hy : EndsWord y) : statusKeywordAt (x ++ y)
      = statusKeywords.find? fun k => eqIgnoreAsciiCase (ascii name) k.2 := by
  rw [statusKeywordAt_word (h.not_isBoundary hname) hy]
  simp only [h.eqIgnoreAsciiCase_eq]

/-- **A status keyword is recognised.** -/
theorem statusKeyword_readsBack {status : Status} (h : Spells status.name x) :
    ReadsBack x 0 EndsWord tryParseStatusKeyword (· = some status) := by
  intro s y hv hrest hy _
  have hname : IsName status.name := by cases status <;> exact ⟨by decide, by decide +kernel⟩
  have hfind : ∃ k, statusKeywordAt (x ++ y) = some k ∧ k.1 = status ∧
      k.2.length = (ascii status.name).length := by
    rw [statusKeywordAt_spells h hname hy]
    cases status <;> exact ⟨_, rfl, rfl, rfl⟩
  obtain ⟨k, hk, hstatus, hlen⟩ := hfind
  refine ⟨_, s.aux, ?_, Nat.add_zero _, rfl⟩
  rw [tryParseStatusKeyword_run hv, hrest, hk, ← hstatus, h.length_eq, ← hlen]

/-- **No other word is taken for a status keyword.** -/
theorem noStatusKeyword_readsBack :
    ReadsBack [] 0 (fun y => statusKeywordAt y = none) tryParseStatusKeyword (· = none) := by
  intro s y hv hrest hy _
  refine ⟨none, s.aux, ?_, Nat.add_zero _, rfl⟩
  rw [tryParseStatusKeyword_run hv, hrest, List.nil_append, hy]
  rfl

theorem isName_NIL : IsName "NIL" := ⟨by decide, by decide +kernel⟩

theorem nil_readsBack (h : Spells "NIL" x) : ReadsBack x 0 EndsWord expectNil fun _ => True := by
  intro s y hv hrest hy _
  obtain ⟨b, z, rfl, hb⟩ := hy
  have hkw : keywordAt s.rest (ascii "NIL") = true := by
    rw [hrest, keywordAt_word (h.not_isBoundary isName_NIL) hb
      (fun c hc => byteEqCi_boundary hb (isName_NIL.all c hc))]
    exact h
  have hlen : x.length = 3 := h.length_eq
  refine ⟨(), s.aux, ?_, Nat.add_zero _, trivial⟩
  rw [expectNil_run hv, if_pos hkw, hlen]

/-! ### Strings of several forms -/

theorem RendersQuoted_eq {raw : Bytes} (h : RendersQuoted raw x) :
    ∃ t, x = byte '"' :: t := ⟨_, h.2⟩

theorem RendersLiteral_eq {data : Bytes} (h : RendersLiteral data x) :
    ∃ t, x = byte '{' :: t := by
  obtain ⟨-, ds, -, -, rfl⟩ := h
  exact ⟨_, rfl⟩

/-- A word starts with a byte of it. -/
theorem exists_cons {P : UInt8 → Prop} (hne : x ≠ []) (hall : ∀ b ∈ x, P b) :
    ∃ b t, x = b :: t ∧ P b := by
  obtain ⟨b, t, rfl⟩ := List.exists_cons_of_ne_nil hne
  exact ⟨b, t, rfl, hall b (List.mem_cons_self ..)⟩

theorem isAtomChar_ne {b : UInt8} (h : isAtomChar b = true) :
    b ≠ byte '"' ∧ b ≠ byte '{' ∧ b ≠ byte '\\' ∧ b ≠ byte ')' ∧ b ≠ SP := by
  refine ⟨?_, ?_, ?_, ?_, ?_⟩ <;>
    · rintro rfl
      exact absurd h (by decide)

section Forms

variable {raw : Bytes} {quoted literal word : ParserM α} {S : α → Prop}

/-- The first byte picks the form: here a quoted string. -/
theorem quotedForm_readsBack (h : RendersQuoted raw x) (hread : ReadsBack x 0 F quoted S) :
    ReadsBack x 0 F (peek >>= fun c =>
      if c = byte '"' then quoted else if c = byte '{' then literal else word) S := by
  obtain ⟨t, rfl⟩ := RendersQuoted_eq h
  refine .peek_bind ?_
  rwa [if_pos rfl]

/-- Here a literal. -/
theorem literalForm_readsBack (h : RendersLiteral raw x) (hread : ReadsBack x 0 F literal S) :
    ReadsBack x 0 F (peek >>= fun c =>
      if c = byte '"' then quoted else if c = byte '{' then literal else word) S := by
  obtain ⟨t, rfl⟩ := RendersLiteral_eq h
  refine .peek_bind ?_
  rwa [if_neg (by decide), if_pos rfl]

/-- Here neither. -/
theorem wordForm_readsBack (h : ∃ b t, x = b :: t ∧ b ≠ byte '"' ∧ b ≠ byte '{')
    (hread : ReadsBack x 0 F word S) : ReadsBack x 0 F (peek >>= fun c =>
      if c = byte '"' then quoted else if c = byte '{' then literal else word) S := by
  obtain ⟨b, t, rfl, hquote, hbrace⟩ := h
  refine .peek_bind ?_
  rwa [if_neg hquote, if_neg hbrace]

end Forms

/-- A mailbox name. -/
theorem astring_readsBack {s : Str} (h : RendersAstring s x) :
    ReadsBack x 0 (Starts fun b => isAtomChar b = false) parseAstring (· = s) := by
  rw [parseAstring]
  cases h with
  | quoted h => exact quotedForm_readsBack h (quoted_readsBack h)
  | literal h => exact literalForm_readsBack h (literalStr_readsBack h)
  | atom h =>
    obtain ⟨b, t, heq, hb⟩ := exists_cons h.1 h.2
    obtain ⟨hquote, hbrace, -⟩ := isAtomChar_ne hb
    exact wordForm_readsBack ⟨b, t, heq, hquote, hbrace⟩ (atom_readsBack h)

/-- NIL starts like no string. -/
theorem nil_eq (h : Spells "NIL" x) : ∃ b t, x = b :: t ∧ b ≠ byte '"' ∧ b ≠ byte '{' := by
  obtain ⟨b, t, rfl, hb⟩ := exists_cons (h.ne_nil isName_NIL.ne_nil) (h.isNameChar isName_NIL)
  exact ⟨b, t, rfl, (nameByte hb).quote, (nameByte hb).brace⟩

/-- A hierarchy delimiter. -/
theorem nstring_readsBack {o : Option Str} (h : RendersNstring o x) :
    ReadsBack x 0 EndsWord parseNstring (· = o) := by
  rw [parseNstring]
  cases h with
  | nil h => exact wordForm_readsBack (nil_eq h) ((nil_readsBack h).map fun _ _ => rfl)
  | quoted h =>
    exact quotedForm_readsBack h ((quoted_readsBack h).map fun _ hv => congrArg some hv)
  | literal h =>
    refine literalForm_readsBack h ((literal_readsBack h).bind_pure fun data hdata => ⟨_, ?_, rfl⟩)
    rw [hdata, toStr_str]
    rfl

/-- Message data that is there. -/
theorem bytes_readsBack {data : Bytes} (h : RendersLiteral data x) :
    ReadsBack x 0 F parseNstringBytes fun v => v.bytes = data := by
  rw [parseNstringBytes]
  exact literalForm_readsBack h (literal_readsBack h)

theorem Slice.contents_eq {v w : Slice} (h : v.bytes = w.bytes) : v.contents = w.contents := by
  rw [Slice.contents, Slice.contents, h]

theorem message_readsBack {o : Option Slice} (h : RendersMessage o x) :
    ReadsBack x 0 EndsWord parseNstringBytesOptional
      fun v => v.map Slice.contents = o.map Slice.contents := by
  rw [parseNstringBytesOptional]
  cases h with
  | nil h => exact wordForm_readsBack (nil_eq h) ((nil_readsBack h).map fun _ _ => rfl)
  | literal h =>
    exact literalForm_readsBack h
      ((literal_readsBack h).map fun v hv => congrArg some (Slice.contents_eq hv))

/-! ### Flags -/

/-- What stands behind an element of a list. -/
def EndsElement (y : Bytes) : Prop := Starts (fun b => b = SP ∨ b = byte ')') y

theorem EndsElement.not_atom {y : Bytes} (h : EndsElement y) :
    Starts (fun b => isAtomChar b = false) y := by
  refine h.mono ?_
  rintro b (rfl | rfl) <;> decide

theorem EndsElement.endsWord {y : Bytes} (h : EndsElement y) : EndsWord y := by
  refine h.mono ?_
  rintro b (rfl | rfl) <;> decide

theorem EndsElement.not_digit {y : Bytes} (h : EndsElement y) :
    Starts (fun b => isAsciiDigit b = false) y := by
  refine h.mono ?_
  rintro b (rfl | rfl) <;> decide

/-- The scan of a flag behind its backslash. -/
theorem flagTail_run {s : Str} {r : Parser} (hall : ∀ b ∈ t, isAtomChar b = true)
    (hs : s.bytes = byte '\\' :: t) (hrest : r.rest = s.bytes ++ y)
    (hy : Starts (fun b => isAtomChar b = false) y) :
    tokenFrom r.pos isAtomChar (wordVerdict "expected flag/atom") ⟨r.input, r.pos + 1, r.aux⟩
      = .ok (s, ⟨r.input, r.pos + s.bytes.length, r.aux⟩) := by
  obtain ⟨b, z, rfl, hb⟩ := hy
  have hbehind : (⟨r.input, r.pos + 1, r.aux⟩ : Parser).rest = t ++ b :: z :=
    rest_behind (x := [byte '\\']) (by rw [hrest, hs]; rfl) r.aux
  have hscan : (⟨r.input, r.pos + 1, r.aux⟩ : Parser).rest.takeWhile isAtomChar = t := by
    rw [hbehind, List.takeWhile_append_of_pos hall,
      List.takeWhile_cons_of_neg (by rw [hb]; decide), List.append_nil]
  have hstop : scanStop isAtomChar (⟨r.input, r.pos + 1, r.aux⟩ : Parser)
      = r.pos + s.bytes.length := by
    rw [scanStop, hscan, hs, List.length_cons, Nat.add_comm t.length, ← Nat.add_assoc]
  have hnext : r.input[r.pos + s.bytes.length]? = some b := by
    rw [r.getElem?_pos_add, hrest]
    simp
  rw [tokenFrom_eq, hstop, hnext, slice_behind hrest, wordVerdict, if_neg (by rw [hs]; simp),
    utf8Verdict_str]
  rfl

/-- **A flag.** -/
theorem flag_readsBack {s : Str} (h : IsFlag s.bytes) :
    ReadsBack s.bytes 0 EndsElement parseFlagOrAtom (· = s) := by
  rw [parseFlagOrAtom_eq]
  intro r y hv hrest hy hc
  rw [run_position_bind]
  rcases h with h | ⟨t, ht, hall⟩ | hstar
  · obtain ⟨b, t, heq, hb⟩ := exists_cons h.1 h.2
    obtain ⟨-, -, hslash, -⟩ := isAtomChar_ne hb
    have hpeek : peek r = .ok (b, r) := peek_of_some (by rw [r.getElem?_pos, hrest, heq]; rfl)
    rw [run_bind_ok hpeek, if_neg hslash]
    exact word_readsBack h.1 h.2 r y hv hrest hy.not_atom hc
  · have hpeek : peek r = .ok (byte '\\', r) :=
      peek_of_some (by rw [r.getElem?_pos, hrest, ht]; rfl)
    -- what comes after the backslash is not the star
    have hnext : r.input[r.pos + 1]? ≠ some (byte '*') := by
      rw [r.getElem?_pos_add, hrest, ht]
      obtain ⟨b, z, rfl, hb⟩ := hy
      cases t with
      | nil => rcases hb with rfl | rfl <;> simp <;> decide
      | cons d t =>
        have hd := hall d (List.mem_cons_self ..)
        simp only [List.cons_append, List.getElem?_cons_succ, List.getElem?_cons_zero, ne_eq,
          Option.some.injEq]
        rintro rfl
        exact absurd hd (by decide)
    refine ⟨s, r.aux, ?_, Nat.add_zero _, rfl⟩
    rw [run_bind_ok hpeek, if_pos rfl, run_advance_bind, run_tryConsume_bind, if_neg hnext]
    exact flagTail_run hall ht hrest hy.not_atom
  · have hpeek : peek r = .ok (byte '\\', r) :=
      peek_of_some (by rw [r.getElem?_pos, hrest, hstar]; rfl)
    have hnext : r.input[r.pos + 1]? = some (byte '*') := by
      rw [r.getElem?_pos_add, hrest, hstar]
      rfl
    have hslice : (r.input.take (r.pos + 1 + 1)).drop r.pos = s.bytes := by
      have hlen : s.bytes.length = 1 + 1 := by rw [hstar]; rfl
      rw [Nat.add_assoc, ← hlen]
      exact slice_behind hrest
    refine ⟨s, r.aux, ?_, Nat.add_zero _, rfl⟩
    rw [run_bind_ok hpeek, if_pos rfl, run_advance_bind, run_tryConsume_bind, if_pos hnext,
      if_pos rfl, run_sliceFrom_bind, hslice, toStr_str, hstar]
    rfl

/-! ### Lists -/

section Lists

variable {R : α → Bytes → Prop} {G : Bytes → Prop} {l : List α}

/-- What a list asks of the texts of its elements. An element is compared by `g`, and what it has
of lists of its own counts too. -/
structure ReadsElement (R : α → Bytes → Prop) (inner : α → ℕ) (g : α → γ) (element : ParserM α) :
    Prop where
  reads : ∀ {a x}, R a x → ReadsBack x (inner a) EndsElement element fun v => g v = g a
  starts : ∀ {a x}, R a x → Starts (· ≠ byte ')') x

variable {inner : α → ℕ} {g : α → γ} {element : ParserM α} {expected : String} {att : Bool}

theorem countItems_cons (inner : α → ℕ) (a : α) (l : List α) :
    countItems inner (a :: l) = inner a + 1 + countItems inner l := by
  rw [countItems, List.map_cons, List.sum_cons]
  rfl

theorem parenListStep_again {a : α} (h : ReadsElement R inner g element) (hx : R a x)
    (items : List α) :
    ReadsBack (x ++ [SP]) (inner a + 1) F (parenListStep element expected items)
      fun v => ∃ l, v = .again l ∧ l.map g = items.map g ++ [g a] := by
  rw [parenListStep_eq]
  refine (h.reads hx).bind (fun v hv => ?_) fun y _ => .cons (.inl rfl) y
  refine Reads.bind_free (x := []) (charge_readsBack (F := fun _ => True)) (fun _ _ => ?_)
    fun _ _ => trivial
  refine .peek_bind ?_
  rw [if_pos rfl]
  exact .advance_bind (.pure ⟨_, rfl, by rw [List.map_append, List.map_singleton, hv]⟩)

theorem parenListStep_done {a : α} (h : ReadsElement R inner g element) (hx : R a x)
    (items : List α) :
    ReadsBack (x ++ [byte ')']) (inner a + 1) F (parenListStep element expected items)
      fun v => ∃ l, v = .done l ∧ l.map g = items.map g ++ [g a] := by
  rw [parenListStep_eq]
  refine (h.reads hx).bind (fun v hv => ?_) fun y _ => .cons (.inr rfl) y
  refine Reads.bind_free (x := []) (charge_readsBack (F := fun _ => True)) (fun _ _ => ?_)
    fun _ _ => trivial
  refine .peek_bind ?_
  rw [if_neg (by decide), if_pos rfl]
  exact .advance_bind (.pure ⟨_, rfl, by rw [List.map_append, List.map_singleton, hv]⟩)

/-- The loop of a list, by induction on the elements behind the first. -/
theorem parenListLoop_readsBack (he : Element att element) (h : ReadsElement R inner g element)
    (hl : Spaced R l y) : ∀ {a : α} {x : Bytes} (items : List α), R a x →
      ReadsBack (x ++ (y ++ [byte ')'])) (countItems inner (a :: l)) F
        (iterate .unexpectedEof (parenListStep element expected) items)
        fun v => v.map g = items.map g ++ (a :: l).map g := by
  have hb : ∀ items, Bounded 0 none (parenListStep element expected items) :=
    fun items => (parenListStep_lawful he items).bounded
  have hp : Progress 0 (parenListStep element expected) := parenListStep_progress he
  induction hl with
  | nil =>
    intro a x items hx
    exact .iterate_done hb hp (parenListStep_done h hx items)
  | @cons a' l x' y' hx' _ ih =>
    intro a x items hx
    have htext : x ++ (SP :: (x' ++ y') ++ [byte ')'])
        = (x ++ [SP]) ++ (x' ++ (y' ++ [byte ')'])) := by simp
    rw [htext, countItems_cons]
    refine .iterate_again hb hp (parenListStep_again h hx items) (fun items' hitems => ?_)
      (F := F) (G := fun _ => True) fun _ _ => trivial
    have hrest := ih items' hx'
    rwa [hitems, List.append_assoc] at hrest

/-- **A parenthesised list.** -/
theorem parenList_readsBack (he : Element att element) (h : ReadsElement R inner g element)
    (hl : Parens R l x) : ReadsBack x (countItems inner l) F (parseParenList element expected)
      fun v => v.map g = l.map g := by
  rw [parseParenList]
  cases hl with
  | nil => exact byte_bind (.try_pos (.pure rfl))
  | cons hx hl =>
    refine byte_bind (.try_neg (fun z _ => ?_) (parenListLoop_readsBack he h hl [] hx))
    obtain ⟨b, t, rfl, hb⟩ := h.starts hx
    simpa using hb

/-- **A list with a space in front of each element.** -/
theorem spaced_readsBack {body : List α → ParserM (Flow (List α) (List α))} {w : ℕ}
    (hb : ∀ items, Bounded 0 none (body items)) (hp : Progress 0 body)
    (hmore : ∀ items {a x}, R a x →
      ReadsBack (SP :: x) w G (body items) (· = .again (items ++ [a])))
    (hdone : ∀ items, ReadsBack [] 0 F (body items) (· = .done items))
    (hsep : ∀ z, G (SP :: z)) (hend : ∀ z, F z → G z) (hl : Spaced R l x) :
    ∀ items, ReadsBack x (w * l.length) F (iterate .unexpectedEof body items) (· = items ++ l) := by
  induction hl with
  | nil =>
    intro items
    refine .iterate_done hb hp ((hdone items).mono (fun _ h => h) fun v hv => ?_)
    exact ⟨items, hv, (List.append_nil items).symm⟩
  | @cons a l x y hx hl ih =>
    intro items
    rw [List.length_cons, Nat.mul_succ, Nat.add_comm]
    refine .iterate_again (x := SP :: x) hb hp
      ((hmore items hx).mono (fun _ h => h) fun v hv => ⟨_, hv, rfl⟩) (fun items' hitems => ?_) ?_
    · rw [show items ++ a :: l = items' ++ l by rw [← hitems, List.append_assoc]; rfl]
      exact ih items'
    · intro z hz
      cases hl with
      | nil => exact hend z hz
      | cons _ _ => exact hsep _

end Lists

/-- What stands behind a list without parentheses. -/
def EndsList (y : Bytes) : Prop := Starts (fun b => b = byte ']' ∨ b = CR) y

theorem EndsList.head_ne {y : Bytes} (h : EndsList y) : y.head? ≠ some SP := by
  obtain ⟨b, t, rfl, rfl | rfl⟩ := h <;> simp <;> decide

theorem capabilities_readsBack {caps : List Str} (h : Spaced (Verbatim IsAtom) caps x) :
    ReadsBack x caps.length EndsList parseCapabilities (· = caps) := by
  have hb : ∀ items, Bounded 0 none (capabilityStep items) := fun items =>
    bounded_of_assembled (capabilityStep_assembled items)
  have hread := spaced_readsBack (w := 1) (F := EndsList)
    (G := Starts fun b => isAtomChar b = false) hb capabilityStep_progress ?_ ?_
    (fun z => .cons (by decide) z) ?_ h []
  · rwa [Nat.one_mul] at hread
  · rintro items a _ ⟨ha, rfl⟩
    rw [capabilityStep_eq]
    refine .try_pos ?_
    rw [if_pos rfl, ← Nat.zero_add 1]
    refine (atom_readsBack ha).bind_nil (fun cap hcap => ?_) fun _ hy => hy
    exact charge_readsBack.map fun _ _ => by rw [hcap]
  · intro items
    rw [capabilityStep_eq]
    exact .try_neg (fun y hy => hy.head_ne) (.pure rfl)
  · intro z hz
    refine hz.mono ?_
    rintro b (rfl | rfl) <;> decide

theorem searchIds_readsBack {ids : List UInt32} (h : Spaced Decimal ids x) :
    ReadsBack x 0 EndsList parseSearchIds (· = ids) := by
  have hb : ∀ items, Bounded 0 none (searchStep items) := fun items =>
    bounded_of_assembled (searchStep_assembled items)
  have hread := spaced_readsBack (w := 0) (F := EndsList)
    (G := Starts fun b => isAsciiDigit b = false) hb searchStep_progress ?_ ?_
    (fun z => .cons (by decide) z) ?_ h []
  · rwa [Nat.zero_mul] at hread
  · intro items n x hn
    exact .try_pos ((number_readsBack hn).map fun _ hv => by rw [hv])
  · intro items
    exact .try_neg (fun y hy => hy.head_ne) (.pure rfl)
  · intro z hz
    refine hz.mono ?_
    rintro b (rfl | rfl) <;> decide

/-! ### Parenthesised values -/

theorem balancedStep_plain {b : UInt8} {depth : ℕ} (hb : isPlainByte b = true) (hd : depth ≠ 0) :
    ReadsBack [b] 0 F (balancedStep depth) fun v => ∃ n, v = .again n ∧ n = depth := by
  simp only [isPlainByte, Bool.not_eq_true', Bool.or_eq_false_iff, beq_eq_false_iff_ne] at hb
  obtain ⟨⟨⟨⟨⟨hopen, hclose⟩, hquote⟩, hbrace⟩, hcr⟩, hlf⟩ := hb
  rw [balancedStep, if_neg hd]
  refine .peek_bind ?_
  rw [if_neg hopen, if_neg hclose, if_neg hquote, if_neg hbrace, if_neg (not_or.mpr ⟨hcr, hlf⟩)]
  exact .advance_bind (.pure ⟨depth, rfl, rfl⟩)

theorem balancedStep_open {depth : ℕ} (hd : depth ≠ 0) (hlt : depth + 1 < 2 ^ 32) :
    ReadsBack [byte '('] 0 F (balancedStep depth) fun v => ∃ n, v = .again n ∧ n = depth + 1 := by
  rw [balancedStep, if_neg hd]
  refine .peek_bind ?_
  rw [if_pos rfl, if_pos hlt]
  exact .advance_bind (.pure ⟨depth + 1, rfl, rfl⟩)

theorem balancedStep_close {depth : ℕ} :
    ReadsBack [byte ')'] 0 F (balancedStep (depth + 1)) fun v => ∃ n, v = .again n ∧ n = depth := by
  rw [balancedStep, if_neg (Nat.succ_ne_zero depth)]
  refine .peek_bind ?_
  rw [if_neg (by decide), if_pos rfl]
  exact .advance_bind (.pure ⟨depth, rfl, rfl⟩)

theorem balancedStep_quoted {s : Str} {depth : ℕ} (h : RendersQuoted s.bytes x) (hd : depth ≠ 0) :
    ReadsBack x 0 F (balancedStep depth) fun v => ∃ n, v = .again n ∧ n = depth := by
  have hread := quoted_readsBack (F := F) h
  obtain ⟨t, rfl⟩ := RendersQuoted_eq h
  rw [balancedStep, if_neg hd]
  refine .peek_bind ?_
  rw [if_neg (by decide), if_neg (by decide), if_pos rfl]
  exact hread.map fun _ _ => ⟨depth, rfl, rfl⟩

theorem balancedStep_literal {data : Bytes} {depth : ℕ} (h : RendersLiteral data x)
    (hd : depth ≠ 0) :
    ReadsBack x 0 F (balancedStep depth) fun v => ∃ n, v = .again n ∧ n = depth := by
  have hread := literal_readsBack (F := F) h
  obtain ⟨t, rfl⟩ := RendersLiteral_eq h
  rw [balancedStep, if_neg hd]
  refine .peek_bind ?_
  rw [if_neg (by decide), if_neg (by decide), if_neg (by decide), if_pos rfl]
  exact hread.map fun _ _ => ⟨depth, rfl, rfl⟩

/-- One round of the loop, when it goes on at depth `m`. -/
theorem balanced_again {S : Unit → Prop} {depth m : ℕ}
    (hround : ReadsBack x 0 (fun _ => True) (balancedStep depth) fun v => ∃ n, v = .again n ∧ n = m)
    (hrest : ReadsBack y 0 F (iterate .unexpectedEof balancedStep m) S) :
    ReadsBack (x ++ y) 0 F (iterate .unexpectedEof balancedStep depth) S := by
  refine Reads.iterate_again (c := 0) (d := 0) balancedStep_bounded balancedStep_progress hround ?_
    fun _ _ => trivial
  rintro _ rfl
  exact hrest

/-- The inside of a value leaves the depth as it was. -/
theorem inside_readsBack {S : Unit → Prop} {n : ℕ} (h : Inside n x) :
    ∀ {depth : ℕ} {y : Bytes}, depth ≠ 0 → depth + n < 2 ^ 32 →
      ReadsBack y 0 F (iterate .unexpectedEof balancedStep depth) S →
      ReadsBack (x ++ y) 0 F (iterate .unexpectedEof balancedStep depth) S := by
  induction h with
  | nil => exact fun _ _ hy => hy
  | plain hb _ ih =>
    intro depth y hd hlt hy
    exact balanced_again (x := [_]) (balancedStep_plain hb hd) (ih hd hlt hy)
  | @quoted n raw x y' hutf hx _ ih =>
    intro depth y hd hlt hy
    rw [List.append_assoc]
    exact balanced_again (balancedStep_quoted (s := ⟨raw, hutf⟩) hx hd) (ih hd hlt hy)
  | literal hx _ ih =>
    intro depth y hd hlt hy
    rw [List.append_assoc]
    exact balanced_again (balancedStep_literal hx hd) (ih hd hlt hy)
  | @group n x y' _ _ ih ih' =>
    intro depth y hd hlt hy
    rw [List.cons_append, List.append_assoc]
    refine balanced_again (x := [byte '(']) (balancedStep_open hd (by omega)) ?_
    refine ih (Nat.succ_ne_zero depth) (by omega) ?_
    exact balanced_again (x := [byte ')']) balancedStep_close (ih' hd hlt hy)

/-- **A parenthesised value.** -/
theorem parenthesised_readsBack (h : IsParenthesised x) :
    ReadsBack x 0 F parseBalancedParens fun v => v.bytes = x := by
  obtain ⟨y, hy, hx⟩ := h
  have hend : ReadsBack [] 0 F (iterate .unexpectedEof balancedStep 0) fun _ => True :=
    .iterate_done balancedStep_bounded balancedStep_progress (.pure ⟨(), rfl, trivial⟩)
  have hclose : ReadsBack [byte ')'] 0 F (iterate .unexpectedEof balancedStep 1) fun _ => True :=
    balanced_again (x := [byte ')']) balancedStep_close hend
  have hloop := inside_readsBack hy Nat.one_ne_zero (by decide) hclose
  have hvalue : ReadsBack x 0 F
      (consumeByte (byte '(') >>= fun _ => iterate .unexpectedEof balancedStep 1)
      fun _ => True := by
    rw [hx]
    exact byte_bind hloop
  have hread := hvalue.capture (g := fun start bytes => (⟨start, bytes⟩ : Slice))
    (S := fun v => v.bytes = x) fun _ => rfl
  simp only [bind_assoc] at hread
  exact hread

end Parser

end ImapRs
