import ImapRs.Core.Items
import ImapRs.Core.Quoted

/-!
# Responses on the wire

`Renders r x`: the bytes `x` are a rendering of the response `r`. A renderer has choices, and all of
them are in the relation: keywords stand in any letter case, numbers may have leading zeros, and a
mailbox name is an atom, a quoted string or a literal. The conditions under which a value can be
rendered at all stand with the production that needs them; a value whose parts meet them has a
rendering.

Only the bytes of a slice are rendered, not its place in some other buffer, so a response is what it
is up to `Response.contents`; this is also what `==` compares in the source.

## Main definitions

* `Renders` — responses
* `RendersCode`, `RendersText`, `RendersAttribute`, `RendersData` — their parts
* `Response.contents` — a response, wherever it was parsed
-/

namespace ImapRs

/-! ### Tokens -/

/-- A keyword, in any letter case. -/
def Spells (name : String) (x : Bytes) : Prop := eqIgnoreAsciiCase x (ascii name) = true

theorem eqIgnoreAsciiCase_iff {a b : Bytes} :
    eqIgnoreAsciiCase a b = true ↔ a.map asciiLower = b.map asciiLower := by
  rw [eqIgnoreAsciiCase]
  induction a generalizing b with
  | nil => cases b <;> simp
  | cons c a ih =>
    cases b with
    | nil => simp
    | cons d b =>
      have ih := ih (b := b)
      simp only [Bool.and_eq_true, beq_iff_eq] at ih
      simp only [List.length_cons, List.zip_cons_cons, List.all_cons, List.map_cons,
        List.cons.injEq, ← ih, byteEqCi, Bool.and_eq_true, beq_iff_eq, Nat.add_right_cancel_iff]
      tauto

/-- A keyword as it is named. -/
theorem spells_ascii (name : String) : Spells name (ascii name) := eqIgnoreAsciiCase_iff.mpr rfl

/-- The bytes are decimal digits. -/
def Digits (ds : Bytes) : Prop := ds ≠ [] ∧ ∀ d ∈ ds, isAsciiDigit d = true

/-- A number in decimal. -/
def Decimal (n : UInt32) (x : Bytes) : Prop := Digits x ∧ decimalValue x = n.toNat

/-- A literal that the parser does not refuse for its length. -/
def RendersLiteral (data x : Bytes) : Prop :=
  data.length ≤ MAX_LITERAL_SIZE ∧
    ∃ ds, Digits ds ∧ decimalValue ds = data.length ∧ x = literalHeader ds ++ data

/-- A quoted string, for a value that is in escaped form already. -/
def RendersQuoted (raw x : Bytes) : Prop :=
  isEscaped raw = true ∧ x = byte '"' :: (raw ++ [byte '"'])

def IsAtom (w : Bytes) : Prop := w ≠ [] ∧ ∀ b ∈ w, isAtomChar b = true

/-- An atom, `\` and an atom, or `\*`. -/
def IsFlag (w : Bytes) : Prop :=
  IsAtom w ∨ (∃ t, w = byte '\\' :: t ∧ ∀ b ∈ t, isAtomChar b = true) ∨ w = ascii "\\*"

inductive RendersAstring (s : Str) : Bytes → Prop
  | quoted {x : Bytes} : RendersQuoted s.bytes x → RendersAstring s x
  | literal {x : Bytes} : RendersLiteral s.bytes x → RendersAstring s x
  | atom : IsAtom s.bytes → RendersAstring s s.bytes

inductive RendersNstring : Option Str → Bytes → Prop
  | nil {x : Bytes} : Spells "NIL" x → RendersNstring none x
  | quoted {s : Str} {x : Bytes} : RendersQuoted s.bytes x → RendersNstring (some s) x
  | literal {s : Str} {x : Bytes} : RendersLiteral s.bytes x → RendersNstring (some s) x

/-! ### Lists -/

/-- Elements with a space in front of each. -/
inductive Spaced {α : Type} (R : α → Bytes → Prop) : List α → Bytes → Prop
  | nil : Spaced R [] []
  | cons {a : α} {l : List α} {x y : Bytes} : R a x → Spaced R l y →
      Spaced R (a :: l) (SP :: (x ++ y))

/-- Elements in parentheses, with spaces between them. -/
inductive Parens {α : Type} (R : α → Bytes → Prop) : List α → Bytes → Prop
  | nil : Parens R [] [byte '(', byte ')']
  | cons {a : α} {l : List α} {x y : Bytes} : R a x → Spaced R l y →
      Parens R (a :: l) (byte '(' :: (x ++ (y ++ [byte ')'])))

/-- A value that stands for itself, if it may. -/
def Verbatim (P : Bytes → Prop) (s : Str) (x : Bytes) : Prop := P s.bytes ∧ x = s.bytes

abbrev RendersFlags : List Str → Bytes → Prop := Parens (Verbatim IsFlag)

/-! ### Response codes and text -/

/-- The names of the response codes the parser knows. -/
def codeNames : List String :=
  ["ALERT", "PARSE", "READ-ONLY", "READ-WRITE", "TRYCREATE", "UIDNEXT", "UIDVALIDITY", "UNSEEN",
    "CAPABILITY", "PERMANENTFLAGS", "BADCHARSET"]

/-- The name of any other code. -/
def IsCodeName (name : Str) : Prop :=
  name.bytes ≠ [] ∧ (∀ b ∈ name.bytes, b ≠ byte ']' ∧ b ≠ SP ∧ b ≠ CR ∧ b ≠ LF) ∧
    ∀ known ∈ codeNames, name.eqCi known = false

/-- Text in brackets. -/
def IsBracketed (w : Bytes) : Prop := ∀ b ∈ w, b ≠ byte ']' ∧ b ≠ CR ∧ b ≠ LF

inductive RendersCode : ResponseCode → Bytes → Prop
  | alert {x : Bytes} : Spells "ALERT" x → RendersCode .alert x
  | parse {x : Bytes} : Spells "PARSE" x → RendersCode .parse x
  | readOnly {x : Bytes} : Spells "READ-ONLY" x → RendersCode .readOnly x
  | readWrite {x : Bytes} : Spells "READ-WRITE" x → RendersCode .readWrite x
  | tryCreate {x : Bytes} : Spells "TRYCREATE" x → RendersCode .tryCreate x
  | uidNext {n : UInt32} {x y : Bytes} : Spells "UIDNEXT" x → Decimal n y →
      RendersCode (.uidNext n) (x ++ SP :: y)
  | uidValidity {n : UInt32} {x y : Bytes} : Spells "UIDVALIDITY" x → Decimal n y →
      RendersCode (.uidValidity n) (x ++ SP :: y)
  | unseen {n : UInt32} {x y : Bytes} : Spells "UNSEEN" x → Decimal n y →
      RendersCode (.unseen n) (x ++ SP :: y)
  | capability {caps : List Str} {x y : Bytes} : Spells "CAPABILITY" x →
      Spaced (Verbatim IsAtom) caps y → RendersCode (.capability caps) (x ++ y)
  | permanentFlags {flags : List Str} {x y : Bytes} : Spells "PERMANENTFLAGS" x →
      RendersFlags flags y → RendersCode (.permanentFlags flags) (x ++ SP :: y)
  | badCharset {charsets : List Str} {x y : Bytes} : Spells "BADCHARSET" x →
      RendersFlags charsets y → RendersCode (.badCharset charsets) (x ++ SP :: y)
  | badCharsetNone {x : Bytes} : Spells "BADCHARSET" x → RendersCode (.badCharset []) x
  | other {name : Str} : IsCodeName name → RendersCode (.other name none) name.bytes
  | otherWith {name extra : Str} : IsCodeName name → IsBracketed extra.bytes →
      RendersCode (.other name (some extra)) (name.bytes ++ SP :: extra.bytes)

/-- The text of a line. -/
def IsText (w : Bytes) : Prop := ∀ b ∈ w, b ≠ CR ∧ b ≠ LF

inductive RendersText : Option ResponseCode → Str → Bytes → Prop
  | plain {text : Str} : IsText text.bytes → text.bytes.head? ≠ some (byte '[') →
      RendersText none text text.bytes
  | coded {code : ResponseCode} {text : Str} {x : Bytes} : RendersCode code x → IsText text.bytes →
      RendersText (some code) text (byte '[' :: (x ++ byte ']' :: SP :: text.bytes))

/-! ### FETCH attributes -/

/-- A byte without a meaning of its own inside parentheses. -/
def isPlainByte (b : UInt8) : Bool :=
  !(b == byte '(' || b == byte ')' || b == byte '"' || b == byte '{' || b == CR || b == LF)

/-- The inside of a parenthesised value that nests at most `n` levels. -/
inductive Inside : ℕ → Bytes → Prop
  | nil {n : ℕ} : Inside n []
  | plain {n : ℕ} {b : UInt8} {y : Bytes} : isPlainByte b = true → Inside n y → Inside n (b :: y)
  | quoted {n : ℕ} {raw x y : Bytes} : validUtf8 raw = true → RendersQuoted raw x → Inside n y →
      Inside n (x ++ y)
  | literal {n : ℕ} {data x y : Bytes} : RendersLiteral data x → Inside n y → Inside n (x ++ y)
  | group {n : ℕ} {x y : Bytes} : Inside n x → Inside (n + 1) y →
      Inside (n + 1) (byte '(' :: (x ++ byte ')' :: y))

/-- The levels of parentheses a 32-bit counter can count, the outermost aside. -/
def MAX_NESTING : ℕ := 2 ^ 32 - 2

def IsParenthesised (raw : Bytes) : Prop :=
  ∃ x, Inside MAX_NESTING x ∧ raw = byte '(' :: (x ++ [byte ')'])

inductive RendersSection : Option Str → Bytes → Prop
  | whole : RendersSection none []
  | part {sect : Str} : sect.bytes ≠ [] → IsBracketed sect.bytes →
      RendersSection (some sect) sect.bytes

inductive RendersOrigin : Option UInt32 → Bytes → Prop
  | none : RendersOrigin none []
  | some {n : UInt32} {x : Bytes} : Decimal n x →
      RendersOrigin (some n) (byte '<' :: (x ++ [byte '>']))

/-- Message data: a literal, or NIL for none. -/
inductive RendersMessage : Option Slice → Bytes → Prop
  | nil {x : Bytes} : Spells "NIL" x → RendersMessage none x
  | literal {data : Slice} {x : Bytes} : RendersLiteral data.bytes x → RendersMessage (some data) x

inductive RendersAttribute : FetchAttribute → Bytes → Prop
  | flags {flags : List Str} {x y : Bytes} : Spells "FLAGS" x → RendersFlags flags y →
      RendersAttribute (.flags flags) (x ++ SP :: y)
  | internalDate {date : Str} {x y : Bytes} : Spells "INTERNALDATE" x →
      RendersQuoted date.bytes y → RendersAttribute (.internalDate date) (x ++ SP :: y)
  | rfc822Size {n : UInt32} {x y : Bytes} : Spells "RFC822.SIZE" x → Decimal n y →
      RendersAttribute (.rfc822Size n) (x ++ SP :: y)
  | rfc822 {data : Slice} {x y : Bytes} : Spells "RFC822" x → RendersLiteral data.bytes y →
      RendersAttribute (.rfc822 data) (x ++ SP :: y)
  | rfc822Header {data : Slice} {x y : Bytes} : Spells "RFC822.HEADER" x →
      RendersLiteral data.bytes y → RendersAttribute (.rfc822Header data) (x ++ SP :: y)
  | rfc822Text {data : Slice} {x y : Bytes} : Spells "RFC822.TEXT" x →
      RendersLiteral data.bytes y → RendersAttribute (.rfc822Text data) (x ++ SP :: y)
  | envelope {raw : Slice} {x : Bytes} : Spells "ENVELOPE" x → IsParenthesised raw.bytes →
      RendersAttribute (.envelope raw) (x ++ SP :: raw.bytes)
  | body {raw : Slice} {x : Bytes} : Spells "BODY" x → IsParenthesised raw.bytes →
      RendersAttribute (.body raw) (x ++ SP :: raw.bytes)
  | bodyStructure {raw : Slice} {x : Bytes} : Spells "BODYSTRUCTURE" x →
      IsParenthesised raw.bytes → RendersAttribute (.bodyStructure raw) (x ++ SP :: raw.bytes)
  | bodySection {sect : Option Str} {origin : Option UInt32} {data : Option Slice}
      {x y z w : Bytes} : Spells "BODY" x → RendersSection sect y → RendersOrigin origin z →
      RendersMessage data w → RendersAttribute (.bodySection sect origin data)
        (x ++ byte '[' :: (y ++ byte ']' :: (z ++ SP :: w)))
  | uid {n : UInt32} {x y : Bytes} : Spells "UID" x → Decimal n y →
      RendersAttribute (.uid n) (x ++ SP :: y)

/-! ### Data responses -/

/-- The names of the STATUS items the parser knows. -/
def itemNames : List String := ["MESSAGES", "RECENT", "UIDNEXT", "UIDVALIDITY", "UNSEEN"]

inductive RendersItem : StatusItem → Bytes → Prop
  | messages {n : UInt32} {x y : Bytes} : Spells "MESSAGES" x → Decimal n y →
      RendersItem (.messages n) (x ++ SP :: y)
  | recent {n : UInt32} {x y : Bytes} : Spells "RECENT" x → Decimal n y →
      RendersItem (.recent n) (x ++ SP :: y)
  | uidNext {n : UInt32} {x y : Bytes} : Spells "UIDNEXT" x → Decimal n y →
      RendersItem (.uidNext n) (x ++ SP :: y)
  | uidValidity {n : UInt32} {x y : Bytes} : Spells "UIDVALIDITY" x → Decimal n y →
      RendersItem (.uidValidity n) (x ++ SP :: y)
  | unseen {n : UInt32} {x y : Bytes} : Spells "UNSEEN" x → Decimal n y →
      RendersItem (.unseen n) (x ++ SP :: y)
  | other {n : UInt32} {name : Str} {y : Bytes} : IsAtom name.bytes →
      (∀ known ∈ itemNames, name.eqCi known = false) → Decimal n y →
      RendersItem (.other n) (name.bytes ++ SP :: y)

/-- `(flags) SP delimiter SP name`. -/
inductive RendersListing : List Str → Option Str → Str → Bytes → Prop
  | mk {flags : List Str} {delimiter : Option Str} {name : Str} {x y z : Bytes} :
      RendersFlags flags x → RendersNstring delimiter y → RendersAstring name z →
      RendersListing flags delimiter name (x ++ SP :: (y ++ SP :: z))

inductive RendersData : DataResponse → Bytes → Prop
  | capability {caps : List Str} {x y : Bytes} : Spells "CAPABILITY" x →
      Spaced (Verbatim IsAtom) caps y → RendersData (.capability caps) (x ++ y)
  | list {flags : List Str} {delimiter : Option Str} {name : Str} {x y : Bytes} :
      Spells "LIST" x → RendersListing flags delimiter name y →
      RendersData (.list flags delimiter name) (x ++ SP :: y)
  | lsub {flags : List Str} {delimiter : Option Str} {name : Str} {x y : Bytes} :
      Spells "LSUB" x → RendersListing flags delimiter name y →
      RendersData (.lsub flags delimiter name) (x ++ SP :: y)
  | status {mailbox : Str} {items : List StatusItem} {x y z : Bytes} : Spells "STATUS" x →
      RendersAstring mailbox y → Parens RendersItem items z →
      RendersData (.status mailbox items) (x ++ SP :: (y ++ SP :: z))
  | search {ids : List UInt32} {x y : Bytes} : Spells "SEARCH" x → Spaced Decimal ids y →
      RendersData (.search ids) (x ++ y)
  | flags {flags : List Str} {x y : Bytes} : Spells "FLAGS" x → RendersFlags flags y →
      RendersData (.flags flags) (x ++ SP :: y)
  | exists {n : UInt32} {x y : Bytes} : Decimal n x → Spells "EXISTS" y →
      RendersData (.exists n) (x ++ SP :: y)
  | recent {n : UInt32} {x y : Bytes} : Decimal n x → Spells "RECENT" y →
      RendersData (.recent n) (x ++ SP :: y)
  | expunge {n : UInt32} {x y : Bytes} : Decimal n x → Spells "EXPUNGE" y →
      RendersData (.expunge n) (x ++ SP :: y)
  | fetch {n : UInt32} {attributes : List FetchAttribute} {x y z : Bytes} : Decimal n x →
      Spells "FETCH" y → Parens RendersAttribute attributes z →
      RendersData (.fetch n attributes) (x ++ SP :: (y ++ SP :: z))

/-! ### Responses -/

def Status.name : Status → String
  | .ok => "OK"
  | .no => "NO"
  | .bad => "BAD"
  | .preAuth => "PREAUTH"
  | .bye => "BYE"

/-- A tag: neither of the two marks that stand in its place. -/
def IsTag (w : Bytes) : Prop :=
  w ≠ [] ∧ (∀ b ∈ w, b ≠ SP ∧ b ≠ CR ∧ b ≠ LF) ∧
    w.head? ≠ some (byte '+') ∧ w.head? ≠ some (byte '*')

/-- The bytes are a rendering of the response. -/
inductive Renders : Response → Bytes → Prop
  | continue {code : Option ResponseCode} {text : Str} {x : Bytes} : RendersText code text x →
      Renders (.continue ⟨code, text⟩) (byte '+' :: SP :: (x ++ CRLF))
  | untagged {status : Status} {code : Option ResponseCode} {text : Str} {x y : Bytes} :
      Spells status.name x → RendersText code text y →
      Renders (.status ⟨none, status, code, text⟩) (byte '*' :: SP :: (x ++ SP :: (y ++ CRLF)))
  | tagged {tag : Str} {status : Status} {code : Option ResponseCode} {text : Str} {x y : Bytes} :
      IsTag tag.bytes → Spells status.name x → RendersText code text y →
      Renders (.status ⟨some tag, status, code, text⟩)
        (tag.bytes ++ SP :: (x ++ SP :: (y ++ CRLF)))
  | data {d : DataResponse} {x : Bytes} : RendersData d x →
      Renders (.data d) (byte '*' :: SP :: (x ++ CRLF))

/-! ### Contents -/

/-- The bytes of a slice, wherever they are. -/
def Slice.contents (s : Slice) : Slice := ⟨0, s.bytes⟩

def FetchAttribute.contents : FetchAttribute → FetchAttribute
  | .rfc822 data => .rfc822 data.contents
  | .rfc822Header data => .rfc822Header data.contents
  | .rfc822Text data => .rfc822Text data.contents
  | .envelope raw => .envelope raw.contents
  | .body raw => .body raw.contents
  | .bodyStructure raw => .bodyStructure raw.contents
  | .bodySection sect origin data => .bodySection sect origin (data.map Slice.contents)
  | a => a

def DataResponse.contents : DataResponse → DataResponse
  | .fetch n attributes => .fetch n (attributes.map FetchAttribute.contents)
  | .other line => .other line.contents
  | d => d

/-- The response, wherever it was parsed. -/
def Response.contents : Response → Response
  | .data d => .data d.contents
  | r => r

end ImapRs
