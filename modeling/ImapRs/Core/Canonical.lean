import ImapRs.Core.Render

/-!
# A canonical rendering

Not every value of the AST can be written down: a tag may not hold a space, a text no line break,
and a list element has to be an atom. `Response.Expressible` collects these conditions, and
`render` writes every expressible response: keywords in upper case, numbers without leading zeros,
names in quotes where they are in escaped form already and as literals where they are not.

## Main definitions

* `Response.Expressible` — the responses that can be written down
* `render` — how

## Main results

* `renders_render` — the canonical rendering is a rendering
-/

namespace ImapRs

/-! ### Expressible values -/

/-- A mailbox name: an atom, or in escaped form already, or short enough for a literal. -/
def Str.ExpressibleName (s : Str) : Prop :=
  IsAtom s.bytes ∨ isEscaped s.bytes = true ∨ s.bytes.length ≤ MAX_LITERAL_SIZE

/-- A hierarchy delimiter that is there. -/
def Str.ExpressibleDelimiter (s : Str) : Prop :=
  isEscaped s.bytes = true ∨ s.bytes.length ≤ MAX_LITERAL_SIZE

def ResponseCode.Expressible : ResponseCode → Prop
  | .badCharset l | .permanentFlags l => ∀ s ∈ l, IsFlag s.bytes
  | .capability l => ∀ s ∈ l, IsAtom s.bytes
  | .other name extra => IsCodeName name ∧ ∀ s ∈ extra, IsBracketed s.bytes
  | _ => True

/-- A code and a text. Without a code, the text must not look like one. -/
def ExpressibleText (code : Option ResponseCode) (text : Str) : Prop :=
  IsText text.bytes ∧ (code = none → text.bytes.head? ≠ some (byte '[')) ∧
    ∀ c ∈ code, c.Expressible

/-- Message data that fits into a literal. -/
def Slice.FitsLiteral (data : Slice) : Prop := data.bytes.length ≤ MAX_LITERAL_SIZE

def FetchAttribute.Expressible : FetchAttribute → Prop
  | .flags l => ∀ s ∈ l, IsFlag s.bytes
  | .internalDate date => isEscaped date.bytes = true
  | .rfc822 data | .rfc822Header data | .rfc822Text data => data.FitsLiteral
  | .envelope raw | .body raw | .bodyStructure raw => IsParenthesised raw.bytes
  | .bodySection sect _ data =>
    (∀ s ∈ sect, s.bytes ≠ [] ∧ IsBracketed s.bytes) ∧ ∀ d ∈ data, d.FitsLiteral
  | .rfc822Size _ | .uid _ => True

def DataResponse.Expressible : DataResponse → Prop
  | .capability l => ∀ s ∈ l, IsAtom s.bytes
  | .list l delimiter name | .lsub l delimiter name =>
    (∀ s ∈ l, IsFlag s.bytes) ∧ (∀ s ∈ delimiter, s.ExpressibleDelimiter) ∧ name.ExpressibleName
  | .status mailbox _ => mailbox.ExpressibleName
  | .flags l => ∀ s ∈ l, IsFlag s.bytes
  | .fetch _ attributes => ∀ a ∈ attributes, a.Expressible
  | .search _ | .exists _ | .recent _ | .expunge _ => True
  | .other _ => False

/-- The responses that can be written down. -/
def Response.Expressible : Response → Prop
  | .status s => (∀ tag ∈ s.tag, IsTag tag.bytes) ∧ ExpressibleText s.code s.text
  | .data d => d.Expressible
  | .continue c => ExpressibleText c.code c.text

/-! ### The rendering -/

/-- A number in decimal, without leading zeros. -/
def decimal (n : ℕ) : Bytes := (Nat.toDigits 10 n).map byte

def renderLiteral (data : Bytes) : Bytes := literalHeader (decimal data.length) ++ data

def renderQuoted (raw : Bytes) : Bytes := byte '"' :: (raw ++ [byte '"'])

/-- A string that is there. -/
def renderString (s : Str) : Bytes :=
  if isEscaped s.bytes then renderQuoted s.bytes else renderLiteral s.bytes

def renderNstring : Option Str → Bytes
  | none => ascii "NIL"
  | some s => renderString s

def renderSpaced {α : Type} (f : α → Bytes) : List α → Bytes
  | [] => []
  | a :: l => SP :: (f a ++ renderSpaced f l)

def renderParens {α : Type} (f : α → Bytes) : List α → Bytes
  | [] => [byte '(', byte ')']
  | a :: l => byte '(' :: (f a ++ (renderSpaced f l ++ [byte ')']))

def renderFlags : List Str → Bytes := renderParens Str.bytes

/-- A name and its value. -/
def renderField (name : String) (value : Bytes) : Bytes := ascii name ++ SP :: value

def renderCode : ResponseCode → Bytes
  | .alert => ascii "ALERT"
  | .parse => ascii "PARSE"
  | .readOnly => ascii "READ-ONLY"
  | .readWrite => ascii "READ-WRITE"
  | .tryCreate => ascii "TRYCREATE"
  | .uidNext n => renderField "UIDNEXT" (decimal n.toNat)
  | .uidValidity n => renderField "UIDVALIDITY" (decimal n.toNat)
  | .unseen n => renderField "UNSEEN" (decimal n.toNat)
  | .capability caps => ascii "CAPABILITY" ++ renderSpaced Str.bytes caps
  | .permanentFlags flags => renderField "PERMANENTFLAGS" (renderFlags flags)
  | .badCharset charsets => renderField "BADCHARSET" (renderFlags charsets)
  | .other name none => name.bytes
  | .other name (some extra) => name.bytes ++ SP :: extra.bytes

def renderText (code : Option ResponseCode) (text : Str) : Bytes :=
  match code with
  | none => text.bytes
  | some code => byte '[' :: (renderCode code ++ byte ']' :: SP :: text.bytes)

def renderSection : Option Str → Bytes
  | none => []
  | some sect => sect.bytes

def renderOrigin : Option UInt32 → Bytes
  | none => []
  | some n => byte '<' :: (decimal n.toNat ++ [byte '>'])

def renderMessage : Option Slice → Bytes
  | none => ascii "NIL"
  | some data => renderLiteral data.bytes

def renderAttribute : FetchAttribute → Bytes
  | .flags flags => renderField "FLAGS" (renderFlags flags)
  | .internalDate date => renderField "INTERNALDATE" (renderQuoted date.bytes)
  | .rfc822Size n => renderField "RFC822.SIZE" (decimal n.toNat)
  | .rfc822 data => renderField "RFC822" (renderLiteral data.bytes)
  | .rfc822Header data => renderField "RFC822.HEADER" (renderLiteral data.bytes)
  | .rfc822Text data => renderField "RFC822.TEXT" (renderLiteral data.bytes)
  | .envelope raw => renderField "ENVELOPE" raw.bytes
  | .body raw => renderField "BODY" raw.bytes
  | .bodyStructure raw => renderField "BODYSTRUCTURE" raw.bytes
  | .bodySection sect origin data => ascii "BODY" ++ byte '[' ::
      (renderSection sect ++ byte ']' :: (renderOrigin origin ++ SP :: renderMessage data))
  | .uid n => renderField "UID" (decimal n.toNat)

def renderItem : StatusItem → Bytes
  | .messages n => renderField "MESSAGES" (decimal n.toNat)
  | .recent n => renderField "RECENT" (decimal n.toNat)
  | .uidNext n => renderField "UIDNEXT" (decimal n.toNat)
  | .uidValidity n => renderField "UIDVALIDITY" (decimal n.toNat)
  | .unseen n => renderField "UNSEEN" (decimal n.toNat)
  -- the AST does not keep the name of an item it does not know
  | .other n => renderField "X" (decimal n.toNat)

def renderListing (flags : List Str) (delimiter : Option Str) (name : Str) : Bytes :=
  renderFlags flags ++ SP :: (renderNstring delimiter ++ SP :: renderString name)

/-- A number and what there are so many of. -/
def renderCount (n : UInt32) (kind : Bytes) : Bytes := decimal n.toNat ++ SP :: kind

def renderData : DataResponse → Bytes
  | .capability caps => ascii "CAPABILITY" ++ renderSpaced Str.bytes caps
  | .list flags delimiter name => renderField "LIST" (renderListing flags delimiter name)
  | .lsub flags delimiter name => renderField "LSUB" (renderListing flags delimiter name)
  | .status mailbox items =>
    renderField "STATUS" (renderString mailbox ++ SP :: renderParens renderItem items)
  | .search ids => ascii "SEARCH" ++ renderSpaced (fun n => decimal n.toNat) ids
  | .flags flags => renderField "FLAGS" (renderFlags flags)
  | .exists n => renderCount n (ascii "EXISTS")
  | .recent n => renderCount n (ascii "RECENT")
  | .expunge n => renderCount n (ascii "EXPUNGE")
  | .fetch n attributes =>
    renderCount n (renderField "FETCH" (renderParens renderAttribute attributes))
  | .other line => line.bytes

/-- The canonical rendering of a response. -/
def render : Response → Bytes
  | .status s =>
    let rest := SP :: (ascii s.status.name ++ SP :: (renderText s.code s.text ++ CRLF))
    match s.tag with
    | none => byte '*' :: rest
    | some tag => tag.bytes ++ rest
  | .data d => byte '*' :: SP :: (renderData d ++ CRLF)
  | .continue c => byte '+' :: SP :: (renderText c.code c.text ++ CRLF)

/-! ### It is a rendering -/

/-- A digit, as a character and as a byte. -/
theorem toNat_byte_digit {c : Char} (h : c.isDigit = true) :
    (byte c).toNat = c.toNat ∧ 48 ≤ c.toNat ∧ c.toNat ≤ 57 := by
  simp only [Char.isDigit, Bool.and_eq_true, decide_eq_true_eq] at h
  have hge : 48 ≤ c.toNat := UInt32.le_iff_toNat_le.mp h.1
  have hle : c.toNat ≤ 57 := UInt32.le_iff_toNat_le.mp h.2
  exact ⟨UInt8.toNat_ofNat_of_lt' (Nat.lt_of_le_of_lt hle (by decide)), hge, hle⟩

theorem isDigit_of_mem_decimal {n : ℕ} {c : Char} (h : c ∈ Nat.toDigits 10 n) :
    c.isDigit = true :=
  Nat.isDigit_of_mem_toDigits (by decide) (by decide) h

theorem decimal_digits (n : ℕ) : Digits (decimal n) := by
  constructor
  · rw [decimal, ne_eq, List.map_eq_nil_iff]
    exact Nat.toDigits_ne_nil
  · intro d hd
    obtain ⟨c, hc, rfl⟩ := List.mem_map.mp hd
    obtain ⟨hbyte, hge, hle⟩ := toNat_byte_digit (isDigit_of_mem_decimal hc)
    rw [Parser.isAsciiDigit_iff, UInt8.le_iff_toNat_le, UInt8.le_iff_toNat_le, hbyte]
    exact ⟨hge, hle⟩

/-- Both readings of a string of digits take one digit at a time. -/
theorem foldl_digits {l : List Char} (h : ∀ c ∈ l, c.isDigit = true) (init : ℕ) :
    (l.map byte).foldl (fun n d => n * 10 + (d.toNat - 48)) init = Nat.ofDigitChars 10 l init := by
  induction l generalizing init with
  | nil => simp
  | cons c l ih =>
    obtain ⟨hc, hl⟩ := List.forall_mem_cons.mp h
    rw [List.map_cons, List.foldl_cons, ih hl, Nat.ofDigitChars_cons, (toNat_byte_digit hc).1,
      Nat.mul_comm]
    rfl

theorem decimalValue_decimal (n : ℕ) : decimalValue (decimal n) = n := by
  rw [decimalValue, decimal, foldl_digits fun c hc => isDigit_of_mem_decimal hc,
    Nat.ofDigitChars_ten_toDigits]

theorem decimal_renders (n : UInt32) : Decimal n (decimal n.toNat) :=
  ⟨decimal_digits _, decimalValue_decimal _⟩

theorem renderLiteral_renders {data : Bytes} (h : data.length ≤ MAX_LITERAL_SIZE) :
    RendersLiteral data (renderLiteral data) :=
  ⟨h, decimal data.length, decimal_digits _, decimalValue_decimal _, rfl⟩

theorem isEscaped_of_isAtom {w : Bytes} (h : ∀ b ∈ w, isAtomChar b = true) :
    isEscaped w = true := by
  induction w with
  | nil => rfl
  | cons b w ih =>
    obtain ⟨hb, hw⟩ := List.forall_mem_cons.mp h
    have hslash : b ≠ byte '\\' := by
      rintro rfl
      exact absurd hb (by decide)
    have hquoted : isQuotedChar b = true := by
      have key : ∀ n : Fin 256, isAtomChar (UInt8.ofFin n) = true →
          isQuotedChar (UInt8.ofFin n) = true := by
        decide +kernel
      exact key b.toFin hb
    rw [isEscaped_cons hslash, hquoted, ih hw]
    rfl

theorem renderString_renders {s : Str} (h : s.ExpressibleDelimiter) :
    RendersNstring (some s) (renderString s) := by
  rw [renderString]
  split
  next hesc => exact .quoted ⟨hesc, rfl⟩
  next hesc => exact .literal (renderLiteral_renders (h.resolve_left hesc))

theorem renderName_renders {s : Str} (h : s.ExpressibleName) :
    RendersAstring s (renderString s) := by
  rw [renderString]
  split
  next hesc => exact .quoted ⟨hesc, rfl⟩
  next hesc =>
    have hlong := h.resolve_left fun hatom => hesc (isEscaped_of_isAtom hatom.2)
    exact .literal (renderLiteral_renders (hlong.resolve_left hesc))

theorem renderNstring_renders {o : Option Str} (h : ∀ s ∈ o, s.ExpressibleDelimiter) :
    RendersNstring o (renderNstring o) := by
  cases o with
  | none => exact .nil (spells_ascii _)
  | some s => exact renderString_renders (h s rfl)

section Lists

variable {α : Type} {R : α → Bytes → Prop} {f : α → Bytes} {l : List α}

theorem renderSpaced_renders (h : ∀ a ∈ l, R a (f a)) : Spaced R l (renderSpaced f l) := by
  induction l with
  | nil => exact .nil
  | cons a l ih =>
    obtain ⟨ha, hl⟩ := List.forall_mem_cons.mp h
    exact .cons ha (ih hl)

theorem renderParens_renders (h : ∀ a ∈ l, R a (f a)) : Parens R l (renderParens f l) := by
  cases l with
  | nil => exact .nil
  | cons a l =>
    obtain ⟨ha, hl⟩ := List.forall_mem_cons.mp h
    exact .cons ha (renderSpaced_renders hl)

end Lists

theorem renderFlags_renders {flags : List Str} (h : ∀ s ∈ flags, IsFlag s.bytes) :
    RendersFlags flags (renderFlags flags) :=
  renderParens_renders fun s hs => ⟨h s hs, rfl⟩

theorem renderCapabilities_renders {caps : List Str} (h : ∀ s ∈ caps, IsAtom s.bytes) :
    Spaced (Verbatim IsAtom) caps (renderSpaced Str.bytes caps) :=
  renderSpaced_renders fun s hs => ⟨h s hs, rfl⟩

theorem renderCode_renders {code : ResponseCode} (h : code.Expressible) :
    RendersCode code (renderCode code) := by
  cases code with
  | alert => exact .alert (spells_ascii _)
  | parse => exact .parse (spells_ascii _)
  | readOnly => exact .readOnly (spells_ascii _)
  | readWrite => exact .readWrite (spells_ascii _)
  | tryCreate => exact .tryCreate (spells_ascii _)
  | uidNext n => exact .uidNext (spells_ascii _) (decimal_renders n)
  | uidValidity n => exact .uidValidity (spells_ascii _) (decimal_renders n)
  | unseen n => exact .unseen (spells_ascii _) (decimal_renders n)
  | capability caps => exact .capability (spells_ascii _) (renderCapabilities_renders h)
  | permanentFlags flags => exact .permanentFlags (spells_ascii _) (renderFlags_renders h)
  | badCharset charsets => exact .badCharset (spells_ascii _) (renderFlags_renders h)
  | other name extra =>
    cases extra with
    | none => exact .other h.1
    | some extra => exact .otherWith h.1 (h.2 extra rfl)

theorem renderText_renders {code : Option ResponseCode} {text : Str}
    (h : ExpressibleText code text) : RendersText code text (renderText code text) := by
  obtain ⟨htext, hplain, hcode⟩ := h
  cases code with
  | none => exact .plain htext (hplain rfl)
  | some code => exact .coded (renderCode_renders (hcode code rfl)) htext

theorem renderMessage_renders {data : Option Slice} (h : ∀ d ∈ data, d.FitsLiteral) :
    RendersMessage data (renderMessage data) := by
  cases data with
  | none => exact .nil (spells_ascii _)
  | some d => exact .literal (renderLiteral_renders (h d rfl))

theorem renderSection_renders {sect : Option Str}
    (h : ∀ s ∈ sect, s.bytes ≠ [] ∧ IsBracketed s.bytes) :
    RendersSection sect (renderSection sect) := by
  cases sect with
  | none => exact .whole
  | some s => exact .part (h s rfl).1 (h s rfl).2

theorem renderOrigin_renders (origin : Option UInt32) :
    RendersOrigin origin (renderOrigin origin) := by
  cases origin with
  | none => exact .none
  | some n => exact .some (decimal_renders n)

theorem renderAttribute_renders {a : FetchAttribute} (h : a.Expressible) :
    RendersAttribute a (renderAttribute a) := by
  cases a with
  | flags flags => exact .flags (spells_ascii _) (renderFlags_renders h)
  | internalDate date => exact .internalDate (spells_ascii _) ⟨h, rfl⟩
  | rfc822Size n => exact .rfc822Size (spells_ascii _) (decimal_renders n)
  | rfc822 data => exact .rfc822 (spells_ascii _) (renderLiteral_renders h)
  | rfc822Header data => exact .rfc822Header (spells_ascii _) (renderLiteral_renders h)
  | rfc822Text data => exact .rfc822Text (spells_ascii _) (renderLiteral_renders h)
  | envelope raw => exact .envelope (spells_ascii _) h
  | body raw => exact .body (spells_ascii _) h
  | bodyStructure raw => exact .bodyStructure (spells_ascii _) h
  | bodySection sect origin data =>
    exact .bodySection (spells_ascii _) (renderSection_renders h.1) (renderOrigin_renders origin)
      (renderMessage_renders h.2)
  | uid n => exact .uid (spells_ascii _) (decimal_renders n)

theorem renderItem_renders (item : StatusItem) : RendersItem item (renderItem item) := by
  cases item with
  | messages n => exact .messages (spells_ascii _) (decimal_renders n)
  | recent n => exact .recent (spells_ascii _) (decimal_renders n)
  | uidNext n => exact .uidNext (spells_ascii _) (decimal_renders n)
  | uidValidity n => exact .uidValidity (spells_ascii _) (decimal_renders n)
  | unseen n => exact .unseen (spells_ascii _) (decimal_renders n)
  | other n =>
    have hname : IsAtom (⟨ascii "X", by decide⟩ : Str).bytes := ⟨by decide, by decide +kernel⟩
    exact .other hname (by decide +kernel) (decimal_renders n)

theorem renderListing_renders {flags : List Str} {delimiter : Option Str} {name : Str}
    (hflags : ∀ s ∈ flags, IsFlag s.bytes) (hdelimiter : ∀ s ∈ delimiter, s.ExpressibleDelimiter)
    (hname : name.ExpressibleName) :
    RendersListing flags delimiter name (renderListing flags delimiter name) :=
  .mk (renderFlags_renders hflags) (renderNstring_renders hdelimiter) (renderName_renders hname)

theorem renderData_renders {d : DataResponse} (h : d.Expressible) :
    RendersData d (renderData d) := by
  cases d with
  | capability caps => exact .capability (spells_ascii _) (renderCapabilities_renders h)
  | list flags delimiter name =>
    exact .list (spells_ascii _) (renderListing_renders h.1 h.2.1 h.2.2)
  | lsub flags delimiter name =>
    exact .lsub (spells_ascii _) (renderListing_renders h.1 h.2.1 h.2.2)
  | status mailbox items =>
    exact .status (spells_ascii _) (renderName_renders h)
      (renderParens_renders fun item _ => renderItem_renders item)
  | search ids => exact .search (spells_ascii _) (renderSpaced_renders fun n _ => decimal_renders n)
  | flags flags => exact .flags (spells_ascii _) (renderFlags_renders h)
  | «exists» n => exact .exists (decimal_renders n) (spells_ascii _)
  | recent n => exact .recent (decimal_renders n) (spells_ascii _)
  | expunge n => exact .expunge (decimal_renders n) (spells_ascii _)
  | fetch n attributes =>
    exact .fetch (decimal_renders n) (spells_ascii _)
      (renderParens_renders fun a ha => renderAttribute_renders (h a ha))
  | other line => exact h.elim

/-- **The canonical rendering is a rendering.** -/
theorem renders_render {r : Response} (h : r.Expressible) : Renders r (render r) := by
  cases r with
  | status s =>
    obtain ⟨tag, status, code, text⟩ := s
    obtain ⟨htag, htext⟩ := h
    cases tag with
    | none => exact .untagged (spells_ascii _) (renderText_renders htext)
    | some tag => exact .tagged (htag tag rfl) (spells_ascii _) (renderText_renders htext)
  | data d => exact .data (renderData_renders h)
  | «continue» c => exact .continue (renderText_renders h)

end ImapRs
