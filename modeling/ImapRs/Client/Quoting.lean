import ImapRs.Client.Characters

/-!
# Quoting is undone by reading

`wire::quote` writes a text as a quoted string, character by character; `parse_quoted` reads one
back, byte by byte, and leaves the escapes in. The two are inverse to each other up to `unescape`:
what is written is read back whatever follows, and whatever is read has been written so.

## Main definitions

* `quoteChars` — the quoted string of a text, as characters
* `IsQuotable` — what a quoted string can hold

## Main results

* `encode_quoteChars` — quoting characters and quoting their bytes come to the same
* `parseQuoted_quoteChars` — the round trip, both ways
-/

namespace ImapRs

open Incremental Cursor

/-! ### Characters that are one byte -/

/-- A character is an ASCII byte, or holds none. -/
theorem IsChar.ascii_or {c : Char} {x : Bytes} (h : IsChar c x) :
    (∃ a : UInt8, a < 0x80 ∧ x = [a] ∧ c = .ofNat a.toNat) ∨ ∀ b ∈ x, 0x80 ≤ b := by
  cases h with
  | one ha => exact .inl ⟨_, ha, rfl, rfl⟩
  | two ha hb =>
    have ha' := UInt8.le_trans (by decide : (0x80 : UInt8) ≤ 0xC2) ha.1
    simp [ha', le_of_isContinuation hb]
  | three ha hb hc =>
    have ha' := UInt8.le_trans (by decide : (0x80 : UInt8) ≤ 0xE0) ha.1
    simp [ha', le_of_second (by decide) (by decide) hb, le_of_isContinuation hc]
  | four ha hb hc hd =>
    have ha' := UInt8.le_trans (by decide : (0x80 : UInt8) ≤ 0xF0) ha.1
    simp [ha', le_of_second (by decide) (by decide) hb, le_of_isContinuation hc,
      le_of_isContinuation hd]

theorem utf8EncodeChar_ascii {d : Char} (hd : d.toNat < 0x80) :
    String.utf8EncodeChar d = [byte d] := by
  have hbyte : (byte d).toNat = d.toNat := toNat_ofNat_of_lt (by omega)
  have hlow : byte d < 0x80 := UInt8.lt_iff_toNat_lt.mpr (by rw [hbyte]; exact hd)
  have hchar := IsChar.one hlow
  rw [hbyte, Char.ofNat_toNat] at hchar
  exact hchar.bytes_eq

/-- The byte of an ASCII character is no part of any other. -/
theorem byte_mem_utf8EncodeChar {c d : Char} (hd : d.toNat < 0x80) :
    byte d ∈ String.utf8EncodeChar c ↔ c = d := by
  have hbyte : (byte d).toNat = d.toNat := toNat_ofNat_of_lt (by omega)
  constructor
  · intro hmem
    rcases (isChar_utf8EncodeChar c).ascii_or with ⟨a, -, hx, hc⟩ | hhigh
    · rw [hx, List.mem_singleton] at hmem
      rw [hc, ← hmem, hbyte, Char.ofNat_toNat]
    · have hle := UInt8.le_iff_toNat_le.mp (hhigh _ hmem)
      rw [hbyte] at hle
      exact absurd hd (Nat.not_lt.mpr hle)
  · rintro rfl
    rw [utf8EncodeChar_ascii hd]
    exact List.mem_singleton_self _

theorem byte_mem_encode {text : List Char} {d : Char} (hd : d.toNat < 0x80) :
    byte d ∈ encode text ↔ d ∈ text := by
  simp [encode, byte_mem_utf8EncodeChar hd]

theorem encode_append (x y : List Char) : encode (x ++ y) = encode x ++ encode y :=
  List.flatMap_append

/-! ### Quoting a text -/

/-- What a character of the text becomes between quotes. -/
def escapeChar (c : Char) : List Char := if c = '"' ∨ c = '\\' then ['\\', c] else [c]

/-- `wire::quote`, over the characters of the text. -/
def quoteChars (text : List Char) : List Char := '"' :: (text.flatMap escapeChar ++ ['"'])

/-- What a quoted string can hold: no CR, LF or NUL. -/
def IsQuotable (text : List Char) : Prop := ∀ c ∈ text, c ≠ '\r' ∧ c ≠ '\n' ∧ c ≠ '\x00'

instance (text : List Char) : Decidable (IsQuotable text) :=
  inferInstanceAs (Decidable (∀ c ∈ text, c ≠ '\r' ∧ c ≠ '\n' ∧ c ≠ '\x00'))

theorem isQuotable_encode {text : List Char} :
    isQuotable (encode text) = true ↔ IsQuotable text := by
  have hcr : CR ∈ encode text ↔ '\r' ∈ text := byte_mem_encode (d := '\r') (by decide)
  have hlf : LF ∈ encode text ↔ '\n' ∈ text := byte_mem_encode (d := '\n') (by decide)
  have hnul : 0 ∈ encode text ↔ '\x00' ∈ text := byte_mem_encode (d := '\x00') (by decide)
  have hleft : isQuotable (encode text) = true
      ↔ CR ∉ encode text ∧ LF ∉ encode text ∧ 0 ∉ encode text := by
    simp only [isQuotable, List.all_eq_true, Bool.not_eq_true', Bool.or_eq_false_iff,
      beq_eq_false_iff_ne]
    grind
  rw [hleft, hcr, hlf, hnul, IsQuotable]
  grind

/-- Bytes that need no escape. -/
theorem escape_of_plain {x : Bytes} (h : ∀ b ∈ x, b ≠ byte '"' ∧ b ≠ byte '\\') : escape x = x := by
  induction x with
  | nil => rfl
  | cons b t ih =>
    obtain ⟨⟨hquote, hslash⟩, ht⟩ := List.forall_mem_cons.mp h
    rw [escape_cons, escapeByte, if_neg (by simp [hquote, hslash]), List.singleton_append, ih ht]

theorem encode_escapeChar (c : Char) :
    encode (escapeChar c) = escape (String.utf8EncodeChar c) := by
  by_cases hc : c = '"' ∨ c = '\\'
  · rcases hc with rfl | rfl <;> decide
  · have hplain : ∀ b ∈ String.utf8EncodeChar c, b ≠ byte '"' ∧ b ≠ byte '\\' := by
      simp only [not_or] at hc
      intro b hb
      constructor
      · rintro rfl
        exact hc.1 ((byte_mem_utf8EncodeChar (by decide)).mp hb)
      · rintro rfl
        exact hc.2 ((byte_mem_utf8EncodeChar (by decide)).mp hb)
    rw [escapeChar, if_neg hc, escape_of_plain hplain, encode, List.flatMap_singleton]

theorem escape_append (x y : Bytes) : escape (x ++ y) = escape x ++ escape y :=
  List.flatMap_append

theorem encode_flatMap_escapeChar (text : List Char) :
    encode (text.flatMap escapeChar) = escape (encode text) := by
  induction text with
  | nil => rfl
  | cons c t ih =>
    rw [List.flatMap_cons, encode_append, ih, encode_escapeChar, encode_cons, escape_append]

/-- **Quoting the characters is quoting the bytes.** -/
theorem encode_quoteChars (text : List Char) : encode (quoteChars text) = quote (encode text) := by
  rw [quoteChars, encode_cons, encode_append, encode_flatMap_escapeChar, quote]
  rfl

theorem quote_injective : Function.Injective quote := by
  intro x y h
  have hesc : escape x = escape y := List.append_cancel_right (List.cons.inj h).2
  rw [← unescape_escape x, hesc, unescape_escape]

/-! ### Unescaping a text -/

theorem unescape_append {x : Bytes} (h : byte '\\' ∉ x) (t : Bytes) :
    unescape (x ++ t) = x ++ unescape t := by
  induction x with
  | nil => rfl
  | cons b x ih =>
    obtain ⟨hb, hx⟩ := not_or.mp fun hor => h (List.mem_cons.mpr hor)
    rw [List.cons_append, unescape_cons (Ne.symm hb), ih hx, List.cons_append]

theorem isEscaped_of_append {x t : Bytes} (h : byte '\\' ∉ x) (hesc : isEscaped (x ++ t) = true) :
    isEscaped t = true := by
  induction x with
  | nil => exact hesc
  | cons b x ih =>
    obtain ⟨hb, hx⟩ := not_or.mp fun hor => h (List.mem_cons.mpr hor)
    rw [List.cons_append, isEscaped_cons (Ne.symm hb)] at hesc
    exact ih hx (Bool.and_eq_true_iff.mp hesc).2

/-- What an escaped text stands for is a text: escapes do not break characters. -/
theorem exists_encode_unescape (raw : List Char) (h : isEscaped (encode raw) = true) :
    ∃ text, unescape (encode raw) = encode text := by
  have hplain {c : Char} (hc : c ≠ '\\') : byte '\\' ∉ String.utf8EncodeChar c :=
    fun hmem => hc ((byte_mem_utf8EncodeChar (by decide)).mp hmem)
  induction raw using List.twoStepInduction with
  | nil => exact ⟨[], rfl⟩
  | singleton c =>
    by_cases hc : c = '\\'
    · subst hc
      exact absurd h (by decide)
    · refine ⟨[c], ?_⟩
      rw [encode_cons, unescape_append (hplain hc)]
      rfl
  | cons_cons c d t iht ihdt =>
    by_cases hc : c = '\\'
    · subst hc
      rw [encode_cons, utf8EncodeChar_ascii (by decide), List.singleton_append] at h ⊢
      -- only a quote or a backslash may follow, and each is one byte
      obtain ⟨b, x, hx⟩ := List.exists_cons_of_length_pos (isChar_utf8EncodeChar d).length_pos
      rw [encode_cons, hx, List.cons_append, isEscaped, if_pos rfl] at h
      obtain ⟨hb, hesc⟩ := Bool.and_eq_true_iff.mp h
      have hd : d.toNat < 0x80 := by
        have hmem : b ∈ String.utf8EncodeChar d := by simp [hx]
        rcases (by simpa using hb : b = byte '"' ∨ b = byte '\\') with rfl | rfl
        · rw [(byte_mem_utf8EncodeChar (by decide)).mp hmem]
          decide
        · rw [(byte_mem_utf8EncodeChar (by decide)).mp hmem]
          decide
      obtain ⟨rfl, rfl⟩ := List.cons.inj (hx.symm.trans (utf8EncodeChar_ascii hd))
      obtain ⟨text, htext⟩ := iht hesc
      refine ⟨d :: text, ?_⟩
      rw [encode_cons, encode_cons, utf8EncodeChar_ascii hd, List.singleton_append, unescape,
        if_pos rfl, htext, List.singleton_append]
    · rw [encode_cons] at h ⊢
      obtain ⟨text, htext⟩ := ihdt d (isEscaped_of_append (hplain hc) h)
      exact ⟨c :: text, by rw [unescape_append (hplain hc), htext, encode_cons]⟩

/-! ### Both ways -/

section
variable {s t : Parser} {content : Str}

/-- A quoted text is read back, whatever follows it. -/
theorem parseQuoted_of_quoteChars {text : List Char} {y : Bytes} (hv : s.Valid)
    (hquotable : IsQuotable text) (h : s.rest = encode (quoteChars text) ++ y) :
    ∃ content, Parser.parseQuoted s
        = .ok (content, { s with pos := s.pos + (encode (quoteChars text)).length }) ∧
      unescape content.bytes = encode text := by
  rw [encode_quoteChars] at h ⊢
  have hrest : s.rest = byte '"' :: (escape (encode text) ++ byte '"' :: y) := by
    rw [h, quote, List.cons_append, List.append_assoc, List.singleton_append]
  have hlen : (quote (encode text)).length = (escape (encode text)).length + 2 := by
    simp [quote]
  rw [hlen]
  exact ⟨_, Parser.parseQuoted_of_rest hv (isEscaped_escape (isQuotable_encode.mpr hquotable))
    (validUtf8_escape (validUtf8_encode text)) hrest, unescape_escape _⟩

/-- Whatever is read as a quoted string is a quoted text. -/
theorem quoteChars_of_parseQuoted (hv : s.Valid) (h : Parser.parseQuoted s = .ok (content, t)) :
    ∃ text, IsQuotable text ∧ unescape content.bytes = encode text ∧
      s.rest = encode (quoteChars text) ++ t.rest ∧
      t = { s with pos := s.pos + (encode (quoteChars text)).length } := by
  obtain ⟨hesc, hrest, ht⟩ := Parser.parseQuoted_ok hv h
  obtain ⟨raw, hraw⟩ := exists_encode content.utf8
  obtain ⟨text, htext⟩ := exists_encode_unescape raw (by rw [← hraw]; exact hesc)
  rw [← hraw] at htext
  have hquote : encode (quoteChars text) = byte '"' :: (content.bytes ++ [byte '"']) := by
    rw [encode_quoteChars, quote, ← htext, escape_unescape hesc]
  refine ⟨text, ?_, htext, ?_, ?_⟩
  · rw [← isQuotable_encode, ← htext]
    exact isQuotable_unescape hesc
  · rw [hrest, hquote]
    simp
  · rw [ht, hquote]
    simp

end

theorem quoteChars_injective : Function.Injective quoteChars := by
  intro x y h
  have hquote : quote (encode x) = quote (encode y) := by
    rw [← encode_quoteChars, h, encode_quoteChars]
  exact encode_injective (quote_injective hquote)

theorem imapQuoted_ok {s : Str} {q : Bytes} (h : imapQuoted s = .ok q) :
    IsQuotable s.chars ∧ q = encode (quoteChars s.chars) := by
  have hchars : encode s.chars = s.bytes := encode_utf8Chars s.utf8
  rw [imapQuoted] at h
  split at h
  · cases h
  · next hany =>
    cases h
    refine ⟨?_, by rw [encode_quoteChars, hchars]⟩
    rw [← isQuotable_encode, hchars, isQuotable, List.all_eq_true]
    intro b hb
    simp only [List.any_eq_true, not_exists, not_and, Bool.not_eq_true, Bool.or_eq_false_iff]
      at hany
    simp [(hany b hb).1]

/-- **Quoting and reading are inverse.** A text without CR, LF and NUL is read back from its quoted
form, whatever follows; and what is read as a quoted string is always the quoted form of the text
that its content stands for. -/
theorem parseQuoted_quoteChars :
    (∀ (s : Parser) (text : List Char) (y : Bytes), s.Valid → IsQuotable text →
      s.rest = encode (quoteChars text) ++ y →
      ∃ content, Parser.parseQuoted s
          = .ok (content, { s with pos := s.pos + (encode (quoteChars text)).length }) ∧
        unescape content.bytes = encode text) ∧
    (∀ (s t : Parser) (content : Str), s.Valid → Parser.parseQuoted s = .ok (content, t) →
      ∃ text, IsQuotable text ∧ unescape content.bytes = encode text ∧
        s.rest = encode (quoteChars text) ++ t.rest ∧
        t = { s with pos := s.pos + (encode (quoteChars text)).length }) ∧
    (∀ (s : Str) (q : Bytes), imapQuoted s = .ok q →
      IsQuotable s.chars ∧ q = encode (quoteChars s.chars)) ∧
    Function.Injective quoteChars ∧
    ∀ q : Bytes, (∃ text, IsQuotable text ∧ encode (quoteChars text) = q) ↔
      ∃ content t, Parser.parseQuoted (Parser.new q) = .ok (content, t) ∧ t.rest = [] := by
  refine ⟨fun s text y => parseQuoted_of_quoteChars, fun s t content => quoteChars_of_parseQuoted,
    fun s q => imapQuoted_ok, quoteChars_injective, fun q => ?_⟩
  have hv : (Parser.new q).Valid := Nat.zero_le _
  constructor
  · rintro ⟨text, hquotable, rfl⟩
    have hrest : (Parser.new (encode (quoteChars text))).rest = encode (quoteChars text) ++ [] := by
      simp [Cursor.rest, Parser.new]
    obtain ⟨content, hrun, -⟩ := parseQuoted_of_quoteChars hv hquotable hrest
    exact ⟨content, _, hrun, rest_behind hrest _⟩
  · rintro ⟨content, t, hrun, hend⟩
    obtain ⟨text, hquotable, -, hrest, -⟩ := quoteChars_of_parseQuoted hv hrun
    rw [hend, List.append_nil] at hrest
    exact ⟨text, hquotable, hrest.symm⟩

/-- A password with a quote and a backslash, and more on the line. -/
theorem parseQuoted_quoteChars_password :
    ∃ content, Parser.parseQuoted (Parser.new (ascii "\"a\\\"b\\\\\" \"c\""))
        = .ok (content, ⟨ascii "\"a\\\"b\\\\\" \"c\"", 8, ⟨MAX_ITEMS_PER_RESPONSE, []⟩⟩) ∧
      unescape content.bytes = ascii "a\"b\\" :=
  parseQuoted_quoteChars.1 (Parser.new (ascii "\"a\\\"b\\\\\" \"c\"")) ['a', '"', 'b', '\\']
    (ascii " \"c\"") (Nat.zero_le _) (by simp [IsQuotable]) (by decide +kernel)

end ImapRs
