import ImapRs.Client.Wire
import Mathlib

/-!
# Search criteria

A translation of `imap-client/src/search.rs`, and what a server makes of the rendered text: `lex`
cuts a line into atoms, parentheses, spaces and quoted strings, the last read by `parse_quoted`
itself.

A text is quoted, so it is one token whatever it holds: the tokens of a rendered criterion are
those of the tree, with each text in its place.

## Main definitions

* `SearchKey`, `SearchKey.toImapString` — the criteria and their wire form
* `Token`, `lex` — the tokens of a line
* `Word`, `SearchKey.words` — the tokens without spaces, and those a tree stands for

## Main results

* `lex_toImapString` — what the rendered tree is cut into
* `search_structure` — texts cannot change it
-/

namespace ImapRs

open Incremental

/-! ### Criteria -/

/-- A search criterion. -/
inductive SearchKey where
  | from_ (text : Str)
  | to (text : Str)
  | subject (text : Str)
  | body (text : Str)
  | text (text : Str)
  | all
  | answered
  | deleted
  | draft
  | flagged
  | recent
  | seen
  | unanswered
  | undeleted
  | undraft
  | unflagged
  | unseen
  /-- All of the contained keys must match. -/
  | and (keys : List SearchKey)
  | or (left right : SearchKey)
  | not (key : SearchKey)

/-- `format!("<keyword> {}", quote(text))`. -/
def textKey (keyword : String) (text : Str) : Bytes := ascii keyword ++ SP :: quote text.bytes

/-- `[..].join(" ")`. -/
def joinSp (parts : List Bytes) : Bytes := [SP].intercalate parts

mutual

/-- Render the criterion for a `SEARCH` command. -/
def SearchKey.toImapString : SearchKey → Bytes
  | .from_ s => textKey "FROM" s
  | .to s => textKey "TO" s
  | .subject s => textKey "SUBJECT" s
  | .body s => textKey "BODY" s
  | .text s => textKey "TEXT" s
  | .all => ascii "ALL"
  | .answered => ascii "ANSWERED"
  | .deleted => ascii "DELETED"
  | .draft => ascii "DRAFT"
  | .flagged => ascii "FLAGGED"
  | .recent => ascii "RECENT"
  | .seen => ascii "SEEN"
  | .unanswered => ascii "UNANSWERED"
  | .undeleted => ascii "UNDELETED"
  | .undraft => ascii "UNDRAFT"
  | .unflagged => ascii "UNFLAGGED"
  | .unseen => ascii "UNSEEN"
  | .and keys => joinSp (toImapStrings keys)
  | .or left right =>
    ascii "OR (" ++ left.toImapString ++ ascii ") (" ++ right.toImapString ++ ascii ")"
  | .not key => ascii "NOT (" ++ key.toImapString ++ ascii ")"

/-- The members of a conjunction, rendered. -/
def SearchKey.toImapStrings : List SearchKey → List Bytes
  | [] => []
  | key :: keys => key.toImapString :: toImapStrings keys

end

/-- A query is one criterion. -/
structure SearchQuery where
  key : SearchKey

def SearchQuery.build (query : SearchQuery) : Bytes := query.key.toImapString

/-! ### Tokens -/

/-- A token of a command line. -/
inductive Token where
  | atom (name : Bytes)
  | lparen
  | rparen
  | space
  /-- A quoted string, as `parse_quoted` returns it. -/
  | quoted (raw : Str)
  deriving DecidableEq, Repr

/-- The first token of a line, and what follows it. -/
def nextToken (line : Bytes) : Option (Token × Bytes) :=
  match line with
  | [] => none
  | c :: t =>
    if c = SP then some (.space, t)
    else if c = byte '(' then some (.lparen, t)
    else if c = byte ')' then some (.rparen, t)
    else if c = byte '"' then
      match Parser.parseQuoted (Parser.new line) with
      | .ok (raw, parser) => some (.quoted raw, parser.rest)
      | .error _ => none
    else if isAtomChar c then
      some (.atom (line.takeWhile isAtomChar), line.dropWhile isAtomChar)
    else none

/-- The tokens of a line, or `none` if it cannot be cut into tokens. -/
def lex (line : Bytes) : Option (List Token) :=
  if line = [] then some []
  else
    match nextToken line with
    | none => none
    | some (token, rest) =>
      if rest.length < line.length then (lex rest).map (token :: ·) else none
termination_by line.length

/-- A token other than a space, with texts unescaped. -/
inductive Word where
  | atom (name : Bytes)
  | lparen
  | rparen
  | text (text : Bytes)
  deriving DecidableEq, Repr

def Token.word : Token → Option Word
  | .atom name => some (.atom name)
  | .lparen => some .lparen
  | .rparen => some .rparen
  | .space => none
  | .quoted raw => some (.text (unescape raw.bytes))

mutual

/-- The words a tree stands for. -/
def SearchKey.words : SearchKey → List Word
  | .from_ s => [.atom (ascii "FROM"), .text s.bytes]
  | .to s => [.atom (ascii "TO"), .text s.bytes]
  | .subject s => [.atom (ascii "SUBJECT"), .text s.bytes]
  | .body s => [.atom (ascii "BODY"), .text s.bytes]
  | .text s => [.atom (ascii "TEXT"), .text s.bytes]
  | .all => [.atom (ascii "ALL")]
  | .answered => [.atom (ascii "ANSWERED")]
  | .deleted => [.atom (ascii "DELETED")]
  | .draft => [.atom (ascii "DRAFT")]
  | .flagged => [.atom (ascii "FLAGGED")]
  | .recent => [.atom (ascii "RECENT")]
  | .seen => [.atom (ascii "SEEN")]
  | .unanswered => [.atom (ascii "UNANSWERED")]
  | .undeleted => [.atom (ascii "UNDELETED")]
  | .undraft => [.atom (ascii "UNDRAFT")]
  | .unflagged => [.atom (ascii "UNFLAGGED")]
  | .unseen => [.atom (ascii "UNSEEN")]
  | .and keys => allWords keys
  | .or left right => .atom (ascii "OR") :: .lparen :: (left.words ++
      .rparen :: .lparen :: (right.words ++ [.rparen]))
  | .not key => .atom (ascii "NOT") :: .lparen :: (key.words ++ [.rparen])

/-- The words of a conjunction, member after member. -/
def SearchKey.allWords : List SearchKey → List Word
  | [] => []
  | key :: keys => key.words ++ allWords keys

end

mutual

/-- The texts of a tree. -/
def SearchKey.texts : SearchKey → List Str
  | .from_ s | .to s | .subject s | .body s | .text s => [s]
  | .and keys => allTexts keys
  | .or left right => left.texts ++ right.texts
  | .not key => key.texts
  | _ => []

def SearchKey.allTexts : List SearchKey → List Str
  | [] => []
  | key :: keys => key.texts ++ allTexts keys

end

/-- Whether every text can stand in a quoted string: no CR, LF or NUL. -/
def SearchKey.quotable (t : SearchKey) : Bool := t.texts.all fun s => isQuotable s.bytes

mutual

/-- The tree with its texts taken out: its shape. -/
def SearchKey.shape : SearchKey → SearchKey
  | .from_ _ => .from_ .empty
  | .to _ => .to .empty
  | .subject _ => .subject .empty
  | .body _ => .body .empty
  | .text _ => .text .empty
  | .and keys => .and (allShapes keys)
  | .or left right => .or left.shape right.shape
  | .not key => .not key.shape
  | key => key

def SearchKey.allShapes : List SearchKey → List SearchKey
  | [] => []
  | key :: keys => key.shape :: allShapes keys

end

/-- The word with its text taken out. -/
def Word.skeleton : Word → Word
  | .text _ => .text []
  | w => w

/-! ### The tokens of a rendered tree -/

/-- The bytes of a token. -/
def Token.bytes : Token → Bytes
  | .atom name => name
  | .lparen => [byte '(']
  | .rparen => [byte ')']
  | .space => [SP]
  | .quoted raw => byte '"' :: (raw.bytes ++ [byte '"'])

/-- The bytes of a line of tokens. -/
def spell (tokens : List Token) : Bytes := tokens.flatMap Token.bytes

/-- A token that can be read back. -/
def Token.Readable : Token → Prop
  | .atom name => name ≠ [] ∧ ∀ c ∈ name, isAtomChar c = true
  | .quoted raw => isEscaped raw.bytes = true
  | _ => True

def Token.isAtom : Token → Bool
  | .atom _ => true
  | _ => false

/-- Two tokens that can stand side by side: two atoms cannot. -/
def Apart (a b : Token) : Prop := a.isAtom = false ∨ b.isAtom = false

theorem isChain_delim {d : Token} (hd : d.isAtom = false) {l : List Token} :
    (d :: l).IsChain Apart ↔ l.IsChain Apart := by
  rw [List.isChain_cons]
  exact and_iff_right fun _ _ => .inl hd

theorem isChain_append_delim {d : Token} (hd : d.isAtom = false) {l r : List Token} :
    (l ++ d :: r).IsChain Apart ↔ l.IsChain Apart ∧ r.IsChain Apart := by
  rw [List.isChain_append, isChain_delim hd]
  refine and_congr_right fun _ => and_iff_left fun x _ y hy => .inr ?_
  obtain rfl : d = y := by simpa using hy
  exact hd

theorem spell_nil : spell [] = [] := rfl

theorem spell_cons (token : Token) (tokens : List Token) :
    spell (token :: tokens) = token.bytes ++ spell tokens := rfl

theorem spell_append (l r : List Token) : spell (l ++ r) = spell l ++ spell r :=
  List.flatMap_append

theorem lex_of_nextToken {line rest : Bytes} {token : Token}
    (h : nextToken line = some (token, rest)) (hlt : rest.length < line.length) :
    lex line = (lex rest).map (token :: ·) := by
  have hne : line ≠ [] := by
    rintro rfl
    simp at hlt
  rw [lex, if_neg hne, h]
  simp only [if_pos hlt]

theorem nextToken_atom {name z : Bytes} (hne : name ≠ []) (hname : ∀ c ∈ name, isAtomChar c = true)
    (hz : ∀ c ∈ z.head?, isAtomChar c = false) :
    nextToken (name ++ z) = some (.atom name, z) := by
  obtain ⟨c, t, rfl⟩ := List.exists_cons_of_ne_nil hne
  have hc : isAtomChar c = true := hname c (by simp)
  have hdelim : c ≠ SP ∧ c ≠ byte '(' ∧ c ≠ byte ')' ∧ c ≠ byte '"' := by
    refine ⟨?_, ?_, ?_, ?_⟩ <;> rintro rfl <;> exact absurd hc (by decide)
  have hscan : z.takeWhile isAtomChar = [] ∧ z.dropWhile isAtomChar = z := by
    cases z with
    | nil => exact ⟨rfl, rfl⟩
    | cons d z => simp [hz d (by simp)]
  have htake : ((c :: t) ++ z).takeWhile isAtomChar = c :: t := by
    rw [List.takeWhile_append_of_pos hname, hscan.1, List.append_nil]
  have hdrop : ((c :: t) ++ z).dropWhile isAtomChar = z := by
    rw [List.dropWhile_append_of_pos hname, hscan.2]
  rw [List.cons_append] at htake hdrop ⊢
  unfold nextToken
  simp only [if_neg hdelim.1, if_neg hdelim.2.1, if_neg hdelim.2.2.1, if_neg hdelim.2.2.2,
    if_pos hc, htake, hdrop]

theorem nextToken_quoted {raw : Str} {z : Bytes} (h : isEscaped raw.bytes = true) :
    nextToken (Token.bytes (.quoted raw) ++ z) = some (.quoted raw, z) := by
  have hline : Token.bytes (.quoted raw) ++ z = byte '"' :: (raw.bytes ++ byte '"' :: z) := by
    simp [Token.bytes]
  rw [hline]
  have hvalid : (Parser.new (byte '"' :: (raw.bytes ++ byte '"' :: z))).Valid := Nat.zero_le _
  have hparse := Parser.parseQuoted_of_rest hvalid h raw.utf8 rfl
  have hlen : (byte '"' :: (raw.bytes ++ [byte '"'])).length = raw.bytes.length + 2 := by simp
  have hrest : (Parser.new (byte '"' :: (raw.bytes ++ byte '"' :: z))).rest
      = byte '"' :: (raw.bytes ++ [byte '"']) ++ z := by
    simp [Cursor.rest, Parser.new]
  have hbehind := Cursor.rest_behind hrest
    (Parser.new (byte '"' :: (raw.bytes ++ byte '"' :: z))).aux
  rw [hlen] at hbehind
  unfold nextToken
  simp only [hparse, hbehind]
  rfl

/-- After an atom comes a byte that ends it. -/
theorem head?_spell {tokens : List Token} {name : Bytes}
    (h : ∀ token ∈ tokens.head?, Apart (.atom name) token) :
    ∀ c ∈ (spell tokens).head?, isAtomChar c = false := by
  cases tokens with
  | nil => simp [spell]
  | cons token tokens =>
    have hap := h token rfl
    rw [spell_cons]
    cases token with
    | atom _ => simp [Apart, Token.isAtom] at hap
    | lparen | rparen | space | quoted _ =>
      simp only [Token.bytes, List.cons_append, List.head?_cons, Option.mem_some_iff, forall_eq']
      decide

theorem nextToken_spell {token : Token} {tokens : List Token} (hread : token.Readable)
    (hap : (token :: tokens).IsChain Apart) :
    nextToken (token.bytes ++ spell tokens) = some (token, spell tokens) := by
  cases token with
  | atom name => exact nextToken_atom hread.1 hread.2 (head?_spell (List.isChain_cons.mp hap).1)
  | quoted raw => exact nextToken_quoted hread
  | lparen | rparen | space => rfl

theorem Token.Readable.length_pos {token : Token} (h : token.Readable) :
    0 < token.bytes.length := by
  cases token with
  | atom name => exact List.length_pos_iff.mpr h.1
  | lparen | rparen | space | quoted _ => simp [Token.bytes]

theorem lex_spell_cons {token : Token} {tokens : List Token} (hread : token.Readable)
    (hap : (token :: tokens).IsChain Apart) :
    lex (spell (token :: tokens)) = (lex (spell tokens)).map (token :: ·) := by
  have hlen := hread.length_pos
  rw [spell_cons]
  exact lex_of_nextToken (nextToken_spell hread hap) (by rw [List.length_append]; omega)

/-- **Tokens are read back**, when no two atoms touch. -/
theorem lex_spell {tokens : List Token} (hread : ∀ token ∈ tokens, token.Readable)
    (hap : tokens.IsChain Apart) : lex (spell tokens) = some tokens := by
  induction tokens with
  | nil => rw [spell_nil, lex, if_pos rfl]
  | cons token tokens ih =>
    rw [lex_spell_cons (hread _ List.mem_cons_self) hap,
      ih (fun u hu => hread u (List.mem_cons_of_mem _ hu)) hap.tail, Option.map_some]

/-- The text as `parse_quoted` returns it. -/
def Str.escaped (s : Str) : Str := ⟨escape s.bytes, validUtf8_escape s.utf8⟩

/-- `<keyword> <text>` as tokens. -/
def textTokens (keyword : String) (text : Str) : List Token :=
  [.atom (ascii keyword), .space, .quoted text.escaped]

mutual

/-- The tokens of the rendered tree, spaces included. -/
def SearchKey.tokens : SearchKey → List Token
  | .from_ s => textTokens "FROM" s
  | .to s => textTokens "TO" s
  | .subject s => textTokens "SUBJECT" s
  | .body s => textTokens "BODY" s
  | .text s => textTokens "TEXT" s
  | .all => [.atom (ascii "ALL")]
  | .answered => [.atom (ascii "ANSWERED")]
  | .deleted => [.atom (ascii "DELETED")]
  | .draft => [.atom (ascii "DRAFT")]
  | .flagged => [.atom (ascii "FLAGGED")]
  | .recent => [.atom (ascii "RECENT")]
  | .seen => [.atom (ascii "SEEN")]
  | .unanswered => [.atom (ascii "UNANSWERED")]
  | .undeleted => [.atom (ascii "UNDELETED")]
  | .undraft => [.atom (ascii "UNDRAFT")]
  | .unflagged => [.atom (ascii "UNFLAGGED")]
  | .unseen => [.atom (ascii "UNSEEN")]
  | .and keys => [Token.space].intercalate (allTokens keys)
  | .or left right => .atom (ascii "OR") :: .space :: .lparen :: (left.tokens ++
      .rparen :: .space :: .lparen :: (right.tokens ++ [.rparen]))
  | .not key => .atom (ascii "NOT") :: .space :: .lparen :: (key.tokens ++ [.rparen])

def SearchKey.allTokens : List SearchKey → List (List Token)
  | [] => []
  | key :: keys => key.tokens :: allTokens keys

end

theorem spell_textTokens (keyword : String) (text : Str) :
    spell (textTokens keyword text) = textKey keyword text := by
  simp [spell, textTokens, Token.bytes, textKey, quote, Str.escaped]

theorem spell_intercalate (parts : List (List Token)) :
    spell ([Token.space].intercalate parts) = joinSp (parts.map spell) := by
  induction parts with
  | nil => rfl
  | cons part parts ih =>
    cases parts with
    | nil => simp [List.intercalate, joinSp]
    | cons next parts =>
      simp only [joinSp, List.intercalate_cons_cons, List.map_cons, spell_append] at ih ⊢
      rw [ih]
      rfl

mutual

theorem SearchKey.spell_tokens : ∀ t : SearchKey, spell t.tokens = t.toImapString
  | .from_ s | .to s | .subject s | .body s | .text s => spell_textTokens _ s
  | .and keys => by
    rw [tokens, spell_intercalate, spell_allTokens keys, toImapString]
  | .or left right => by
    have hfirst : ascii "OR (" = ascii "OR" ++ [SP, byte '('] := by decide
    have hsecond : ascii ") (" = [byte ')', SP, byte '('] := by decide
    have hlast : ascii ")" = [byte ')'] := by decide
    simp [tokens, spell_cons, spell_append, spell_tokens left, spell_tokens right,
      toImapString, hfirst, hsecond, hlast, Token.bytes, spell_nil]
  | .not key => by
    have hfirst : ascii "NOT (" = ascii "NOT" ++ [SP, byte '('] := by decide
    have hlast : ascii ")" = [byte ')'] := by decide
    simp [tokens, spell_cons, spell_append, spell_tokens key, toImapString, hfirst, hlast,
      Token.bytes, spell_nil]
  | .all | .answered | .deleted | .draft | .flagged | .recent | .seen | .unanswered
  | .undeleted | .undraft | .unflagged | .unseen => by
    simp only [tokens, toImapString, spell, List.flatMap_singleton, Token.bytes]

theorem SearchKey.spell_allTokens : ∀ keys : List SearchKey,
    (allTokens keys).map spell = toImapStrings keys
  | [] => rfl
  | key :: keys => by
    rw [allTokens, List.map_cons, spell_tokens key, spell_allTokens keys, toImapStrings]

end

theorem intercalate_space_cons (part : List Token) {parts : List (List Token)} (h : parts ≠ []) :
    [Token.space].intercalate (part :: parts)
      = part ++ .space :: [Token.space].intercalate parts := by
  obtain ⟨next, parts, rfl⟩ := List.exists_cons_of_ne_nil h
  rw [List.intercalate_cons_cons]
  simp

/-- A token of a tree with the given texts. -/
def Token.OfTexts (texts : List Str) : Token → Prop
  | .atom name => name ≠ [] ∧ ∀ c ∈ name, isAtomChar c = true
  | .quoted raw => ∃ s ∈ texts, raw = s.escaped
  | _ => True

/-- The tokens of a tree with the given texts: no two atoms touch, and the quoted strings are the
texts. -/
structure Rendered (texts : List Str) (tokens : List Token) : Prop where
  apart : tokens.IsChain Apart
  ofTexts : ∀ token ∈ tokens, token.OfTexts texts
  quoted : ∀ s ∈ texts, Token.quoted s.escaped ∈ tokens

theorem Token.OfTexts.mono {texts texts' : List Str} {token : Token} (h : token.OfTexts texts)
    (hsub : texts ⊆ texts') : token.OfTexts texts' := by
  cases token with
  | quoted raw =>
    obtain ⟨s, hs, hraw⟩ := h
    exact ⟨s, hsub hs, hraw⟩
  | atom _ | lparen | rparen | space => exact h

theorem rendered_nil : Rendered [] [] := ⟨.nil, by simp, by simp⟩

theorem rendered_atom {name : Bytes} (h : (Token.atom name).Readable) : Rendered [] [.atom name] :=
  ⟨.singleton _, by rw [List.forall_mem_singleton]; exact h, by simp⟩

theorem Rendered.append {texts texts' : List Str} {l r : List Token} (hl : Rendered texts l)
    (hr : Rendered texts' r) {d : Token} (hd : d.isAtom = false) (hread : d.OfTexts []) :
    Rendered (texts ++ texts') (l ++ d :: r) := by
  refine ⟨(isChain_append_delim hd).mpr ⟨hl.apart, hr.apart⟩, fun token hmem => ?_, fun s hs => ?_⟩
  · rcases List.mem_append.mp hmem with hmem | hmem
    · exact (hl.ofTexts token hmem).mono (List.subset_append_left _ _)
    · rcases List.mem_cons.mp hmem with rfl | hmem
      · exact hread.mono (List.nil_subset _)
      · exact (hr.ofTexts token hmem).mono (List.subset_append_right _ _)
  · rcases List.mem_append.mp hs with hs | hs
    · exact List.mem_append_left _ (hl.quoted s hs)
    · exact List.mem_append_right _ (List.mem_cons_of_mem _ (hr.quoted s hs))

theorem Rendered.cons {texts : List Str} {l : List Token} (h : Rendered texts l) {d : Token}
    (hd : d.isAtom = false) (hread : d.OfTexts []) : Rendered texts (d :: l) :=
  rendered_nil.append h hd hread

theorem rendered_textTokens {keyword : String} (h : (Token.atom (ascii keyword)).Readable)
    (text : Str) : Rendered [text] (textTokens keyword text) := by
  have hquoted : Rendered [text] [.quoted text.escaped] :=
    ⟨.singleton _, by simp [Token.OfTexts], by simp⟩
  exact (rendered_atom h).append (d := .space) hquoted rfl trivial

theorem Rendered.group {texts texts' : List Str} {l r : List Token} {name : Bytes}
    (h : (Token.atom name).Readable) (hl : Rendered texts l) (hr : Rendered texts' r) :
    Rendered (texts ++ texts') (.atom name :: .space :: .lparen :: (l ++ .rparen :: r)) := by
  have hgroup : Rendered (texts ++ texts') (l ++ .rparen :: r) := hl.append hr rfl trivial
  exact (rendered_atom h).append (d := .space) (hgroup.cons (d := .lparen) rfl trivial) rfl trivial

/-- The keywords of the criteria are atoms. -/
theorem keywords_readable : ∀ keyword ∈ ["FROM", "TO", "SUBJECT", "BODY", "TEXT", "ALL", "ANSWERED",
      "DELETED", "DRAFT", "FLAGGED", "RECENT", "SEEN", "UNANSWERED", "UNDELETED", "UNDRAFT",
      "UNFLAGGED", "UNSEEN", "OR", "NOT"], (Token.atom (ascii keyword)).Readable := by
  have h : ∀ keyword ∈ ["FROM", "TO", "SUBJECT", "BODY", "TEXT", "ALL", "ANSWERED", "DELETED",
      "DRAFT", "FLAGGED", "RECENT", "SEEN", "UNANSWERED", "UNDELETED", "UNDRAFT", "UNFLAGGED",
      "UNSEEN", "OR", "NOT"], ascii keyword ≠ [] ∧ (ascii keyword).all isAtomChar = true := by
    decide +kernel
  intro keyword hk
  exact ⟨(h keyword hk).1, List.all_eq_true.mp (h keyword hk).2⟩

mutual

theorem SearchKey.rendered : ∀ t : SearchKey, Rendered t.texts t.tokens
  | .from_ s | .to s | .subject s | .body s | .text s =>
    rendered_textTokens (keywords_readable _ (by decide)) s
  | .and keys => rendered_all keys
  | .or left right => by
    have hlast : Rendered (right.texts ++ []) (right.tokens ++ [.rparen]) :=
      right.rendered.append rendered_nil rfl trivial
    rw [List.append_nil] at hlast
    exact left.rendered.group (keywords_readable _ (by decide))
      ((hlast.cons (d := .lparen) rfl trivial).cons (d := .space) rfl trivial)
  | .not key => by
    have hnot : (Token.atom (ascii "NOT")).Readable := keywords_readable _ (by decide)
    have h := key.rendered.group hnot rendered_nil
    rw [List.append_nil] at h
    exact h
  | .all | .answered | .deleted | .draft | .flagged | .recent | .seen | .unanswered
  | .undeleted | .undraft | .unflagged | .unseen =>
    rendered_atom (keywords_readable _ (by decide))

theorem SearchKey.rendered_all : ∀ keys : List SearchKey,
    Rendered (allTexts keys) ([Token.space].intercalate (allTokens keys))
  | [] => rendered_nil
  | [key] => by
    have h := key.rendered
    simpa [allTexts, allTokens, List.intercalate] using h
  | key :: next :: keys => by
    rw [allTokens, intercalate_space_cons _ (by simp [allTokens]), allTexts]
    exact key.rendered.append (rendered_all (next :: keys)) rfl trivial

end

theorem Rendered.readable {texts : List Str} {tokens : List Token} (h : Rendered texts tokens)
    (hq : ∀ s ∈ texts, isQuotable s.bytes = true) : ∀ token ∈ tokens, token.Readable := by
  intro token hmem
  have hof := h.ofTexts token hmem
  cases token with
  | quoted raw =>
    obtain ⟨s, hs, rfl⟩ := hof
    exact isEscaped_escape (hq s hs)
  | atom _ | lparen | rparen | space => exact hof

/-- **The rendered tree is cut into the tokens of the tree.** -/
theorem lex_toImapString {t : SearchKey} (h : t.quotable = true) :
    lex t.toImapString = some t.tokens := by
  rw [← t.spell_tokens]
  exact lex_spell (t.rendered.readable (List.all_eq_true.mp h)) t.rendered.apart

/-- A text with CR, LF or NUL cannot be read. -/
theorem nextToken_break {s : Str} (h : isQuotable s.bytes = false) (z : Bytes) :
    nextToken (Token.bytes (.quoted s.escaped) ++ z) = none := by
  have hline : Token.bytes (.quoted s.escaped) ++ z
      = byte '"' :: (escape s.bytes ++ byte '"' :: z) := by
    simp [Token.bytes, Str.escaped]
  obtain ⟨e, he⟩ := Parser.parseQuoted_of_break
    (s := Parser.new (byte '"' :: (escape s.bytes ++ byte '"' :: z))) (Nat.zero_le _) h rfl
  rw [hline]
  unfold nextToken
  simp only [he]
  rfl

/-- A line with such a text cannot be cut into tokens. -/
theorem lex_spell_eq_none {texts : List Str} {tokens : List Token}
    (hof : ∀ token ∈ tokens, token.OfTexts texts) (hap : tokens.IsChain Apart) {s : Str}
    (hs : isQuotable s.bytes = false) (hmem : Token.quoted s.escaped ∈ tokens) :
    lex (spell tokens) = none := by
  induction tokens with
  | nil => cases hmem
  | cons token tokens ih =>
    have hbad : ∀ s' : Str, isQuotable s'.bytes = false → token = .quoted s'.escaped →
        lex (spell (token :: tokens)) = none := by
      rintro s' hs' rfl
      rw [lex, if_neg (by simp [spell_cons, Token.bytes]), spell_cons, nextToken_break hs']
    rcases List.mem_cons.mp hmem with heq | hmem
    · exact hbad s hs heq.symm
    · have hnone := ih (fun u hu => hof u (List.mem_cons_of_mem _ hu)) hap.tail hmem
      have hgood : token.Readable → lex (spell (token :: tokens)) = none := by
        intro hread
        rw [lex_spell_cons hread hap, hnone, Option.map_none]
      have htoken := hof token List.mem_cons_self
      cases token with
      | quoted raw =>
        obtain ⟨s', -, rfl⟩ := htoken
        cases hq : isQuotable s'.bytes with
        | false => exact hbad s' hq rfl
        | true => exact hgood (isEscaped_escape hq)
      | atom _ | lparen | rparen | space => exact hgood htoken

theorem lex_toImapString_eq_none {t : SearchKey} (h : t.quotable = false) :
    lex t.toImapString = none := by
  obtain ⟨s, hs, hq⟩ := List.all_eq_false.mp h
  rw [← t.spell_tokens]
  exact lex_spell_eq_none t.rendered.ofTexts t.rendered.apart (Bool.eq_false_iff.mpr hq)
    (t.rendered.quoted s hs)

/-! ### Structure -/

/-- The words of a list of tokens: spaces dropped, texts unescaped. -/
def wordsOf (tokens : List Token) : List Word := tokens.filterMap Token.word

theorem wordsOf_append (l r : List Token) : wordsOf (l ++ r) = wordsOf l ++ wordsOf r :=
  List.filterMap_append

theorem wordsOf_textTokens (keyword : String) (text : Str) :
    wordsOf (textTokens keyword text) = [.atom (ascii keyword), .text text.bytes] := by
  simp [wordsOf, textTokens, List.filterMap_cons, Token.word, Str.escaped, unescape_escape]

theorem wordsOf_intercalate (parts : List (List Token)) :
    wordsOf ([Token.space].intercalate parts) = (parts.map wordsOf).flatten := by
  induction parts with
  | nil => rfl
  | cons part parts ih =>
    by_cases hne : parts = []
    · subst hne
      simp [List.intercalate]
    · rw [intercalate_space_cons part hne, wordsOf_append, List.map_cons, List.flatten_cons, ← ih]
      rfl

mutual

theorem SearchKey.wordsOf_tokens : ∀ t : SearchKey, wordsOf t.tokens = t.words
  | .from_ s | .to s | .subject s | .body s | .text s => wordsOf_textTokens _ s
  | .and keys => by rw [tokens, wordsOf_intercalate, wordsOf_allTokens keys, words]
  | .or left right => by
    rw [tokens, words, ← wordsOf_tokens left, ← wordsOf_tokens right]
    simp [wordsOf, List.filterMap_cons, Token.word]
  | .not key => by
    rw [tokens, words, ← wordsOf_tokens key]
    simp [wordsOf, List.filterMap_cons, Token.word]
  | .all | .answered | .deleted | .draft | .flagged | .recent | .seen | .unanswered
  | .undeleted | .undraft | .unflagged | .unseen => rfl

theorem SearchKey.wordsOf_allTokens : ∀ keys : List SearchKey,
    ((allTokens keys).map wordsOf).flatten = allWords keys
  | [] => rfl
  | key :: keys => by
    rw [allTokens, List.map_cons, List.flatten_cons, wordsOf_tokens key, wordsOf_allTokens keys,
      allWords]

end

mutual

/-- The words of a tree, texts taken out, are those of its shape. -/
theorem SearchKey.skeleton_words : ∀ t : SearchKey,
    t.words.map Word.skeleton = t.shape.words.map Word.skeleton
  | .and keys => by rw [words, shape, words, skeleton_allWords keys]
  | .or left right => by
    simp only [words, shape, List.map_cons, List.map_append, skeleton_words left,
      skeleton_words right]
  | .not key => by
    simp only [words, shape, List.map_cons, List.map_append, skeleton_words key]
  | .from_ _ | .to _ | .subject _ | .body _ | .text _ | .all | .answered | .deleted | .draft
  | .flagged | .recent | .seen | .unanswered | .undeleted | .undraft | .unflagged | .unseen => rfl

theorem SearchKey.skeleton_allWords : ∀ keys : List SearchKey,
    (allWords keys).map Word.skeleton = (allWords (allShapes keys)).map Word.skeleton
  | [] => rfl
  | key :: keys => by
    simp only [allWords, allShapes, List.map_append, skeleton_words key, skeleton_allWords keys]

end

/-- **Search text cannot change the search structure.** The rendered tree is cut into the words of
the tree: each text is one quoted string that unescapes to the text. Two trees of one shape differ
in the contents of their quoted strings and nowhere else. -/
theorem search_structure (t : SearchKey) (h : t.quotable = true) :
    (lex t.toImapString).map wordsOf = some t.words ∧
      ∀ t' : SearchKey, t'.quotable = true → t'.shape = t.shape →
        (lex t'.toImapString).map (fun tokens => (wordsOf tokens).map Word.skeleton)
          = (lex t.toImapString).map fun tokens => (wordsOf tokens).map Word.skeleton := by
  refine ⟨by rw [lex_toImapString h, Option.map_some, t.wordsOf_tokens], fun t' h' hshape => ?_⟩
  rw [lex_toImapString h, lex_toImapString h', Option.map_some, Option.map_some,
    t.wordsOf_tokens, t'.wordsOf_tokens, t.skeleton_words, t'.skeleton_words, hshape]

/-- A subject made to look like the end of the string and two further keys. -/
theorem search_structure_injection :
    let text : Str := ⟨ascii "x\" OR (ALL) DELETED", by decide +kernel⟩
    (SearchKey.not (.subject text)).quotable = true ∧
      (lex (SearchKey.not (.subject text)).toImapString).map wordsOf
        = some [.atom (ascii "NOT"), .lparen, .atom (ascii "SUBJECT"), .text text.bytes, .rparen] :=
  ⟨by decide +kernel, (search_structure (.not (.subject _)) (by decide +kernel)).1⟩

end ImapRs
