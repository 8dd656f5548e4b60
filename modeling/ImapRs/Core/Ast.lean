import Mathlib

/-!
# Bytes, borrowed slices and the response grammar

The data model of `imap-core`: the error type of `error.rs` and the borrowed AST of `ast.rs`,
over the two slice types the AST borrows.

## Slices

The Rust AST is zero-copy: a `&'a [u8]` is a window into the input buffer. `Slice` keeps where
that window starts, because "this attribute carries *that* region of the input" is a statement
about the window and not about its contents: two attributes may carry equal bytes. A `&'a str`
is compared by contents only, so `Str` keeps the bytes, together with the UTF-8 check that
`core::str::from_utf8` performed to build it.

## UTF-8

`validUtf8` follows the documented behaviour of `core::str::from_utf8`: shortest forms only, no
surrogates, nothing above U+10FFFF.

## Main definitions

* `Slice`, `Str`, `validUtf8` — borrowed byte and text slices
* `ParseError` — the verdicts a parse can end in
* `Response`, `StatusResponse`, `ResponseCode`, `DataResponse`, `FetchAttribute` — the AST
-/

namespace ImapRs

/-- A byte string; the model of `[u8]`. -/
abbrev Bytes := List UInt8

/-- The bytes of an ASCII literal such as `b"NIL"`. -/
def ascii (s : String) : Bytes := s.toUTF8.data.toList

/-- Carriage return. -/
abbrev CR : UInt8 := 13

/-- Line feed. -/
abbrev LF : UInt8 := 10

/-- Space. -/
abbrev SP : UInt8 := 32

/-- The line terminator `b"\r\n"`. -/
abbrev CRLF : Bytes := [CR, LF]

/-! ### ASCII classes and case -/

/-- `u8::to_ascii_lowercase`. -/
def asciiLower (b : UInt8) : UInt8 := if 65 ≤ b ∧ b ≤ 90 then b + 32 else b

/-- `u8::eq_ignore_ascii_case`. -/
def byteEqCi (a b : UInt8) : Bool := asciiLower a == asciiLower b

/-- `str::eq_ignore_ascii_case`, on the bytes of both sides. -/
def eqIgnoreAsciiCase (a b : Bytes) : Bool :=
  a.length == b.length && (a.zip b).all fun p => byteEqCi p.1 p.2

/-- `u8::is_ascii_digit`. -/
def isAsciiDigit (b : UInt8) : Bool := 48 ≤ b && b ≤ 57

/-! ### UTF-8 -/

/-- A continuation byte, `10xxxxxx`. -/
def isContinuation (b : UInt8) : Bool := 0x80 ≤ b && b ≤ 0xBF

/-- The bytes `core::str::from_utf8` accepts. The first byte fixes the length of the sequence
and, for `E0`, `ED`, `F0` and `F4`, narrows the second byte: no overlong form, no surrogate,
nothing above U+10FFFF. -/
def validUtf8 : Bytes → Bool
  | [] => true
  | a :: t =>
    if a < 0x80 then validUtf8 t
    else if 0xC2 ≤ a ∧ a ≤ 0xDF then
      match t with
      | b :: t => isContinuation b && validUtf8 t
      | _ => false
    else if 0xE0 ≤ a ∧ a ≤ 0xEF then
      match t with
      | b :: c :: t =>
        (if a = 0xE0 then 0xA0 ≤ b && b ≤ 0xBF
          else if a = 0xED then 0x80 ≤ b && b ≤ 0x9F
          else isContinuation b) && isContinuation c && validUtf8 t
      | _ => false
    else if 0xF0 ≤ a ∧ a ≤ 0xF4 then
      match t with
      | b :: c :: d :: t =>
        (if a = 0xF0 then 0x90 ≤ b && b ≤ 0xBF
          else if a = 0xF4 then 0x80 ≤ b && b ≤ 0x8F
          else isContinuation b) && isContinuation c && isContinuation d && validUtf8 t
      | _ => false
    else false

/-! ### Slices -/

/-- A borrowed `&'a [u8]`: where it starts in the input, and what it holds. -/
structure Slice where
  /-- Offset of the first byte in the input buffer. -/
  offset : ℕ
  /-- The bytes themselves. -/
  bytes : Bytes
  deriving DecidableEq, Repr

/-- A borrowed `&'a str`: bytes that passed `core::str::from_utf8`. -/
structure Str where
  /-- The bytes of the text. -/
  bytes : Bytes
  /-- The check that built it. -/
  utf8 : validUtf8 bytes = true
  deriving DecidableEq, Repr

/-- The static `""`. -/
def Str.empty : Str := ⟨[], rfl⟩

/-- `str::is_empty`. -/
def Str.isEmpty (s : Str) : Bool := s.bytes.isEmpty

/-- `str::eq_ignore_ascii_case` against an ASCII literal. -/
def Str.eqCi (s : Str) (keyword : String) : Bool := eqIgnoreAsciiCase s.bytes (ascii keyword)

/-! ### Parse errors -/

/-- Errors produced by the response parser (`error.rs`). -/
inductive ParseError where
  /-- Input ended before a complete response could be parsed. -/
  | incomplete
  /-- A byte that is invalid at the current grammar position, and its offset. -/
  | invalidChar (offset : ℕ)
  /-- An expected literal token was not present at the given offset. -/
  | expectedLiteral (expected : String) (offset : ℕ)
  /-- Input ended unexpectedly in the middle of a token. -/
  | unexpectedEof
  /-- A numeric field could not be parsed as a valid integer. -/
  | invalidNumber
  /-- A literal whose declared length exceeds the parser's hard cap. -/
  | literalTooLarge (got max : ℕ)
  /-- A response holds more list elements than the per-response budget. -/
  | tooManyItems (max : ℕ)
  /-- Well-formed bytes that nonetheless violate the response grammar. -/
  | malformed (what : String)
  /-- A parsing error that does not fit any of the more specific variants. -/
  | other (what : String)
  deriving DecidableEq, Repr

/-! ### The response grammar -/

/-- The status condition of a status response. -/
inductive Status where
  | ok | no | bad | preAuth | bye
  deriving DecidableEq, Repr

/-- A machine-readable response code carried in `[...]`. -/
inductive ResponseCode where
  | alert
  | badCharset (charsets : List Str)
  | capability (caps : List Str)
  | parse
  | permanentFlags (flags : List Str)
  | readOnly
  | readWrite
  | tryCreate
  | uidNext (n : UInt32)
  | uidValidity (n : UInt32)
  | unseen (n : UInt32)
  /-- Unrecognized code: `[ATOM]` or `[ATOM SP rest]`. -/
  | other (atom : Str) (extra : Option Str)
  deriving DecidableEq, Repr

/-- A status response: `<tag|*> <status> [code] text`. -/
structure StatusResponse where
  /-- The command tag this response answers, or `none` for an untagged response. -/
  tag : Option Str
  status : Status
  code : Option ResponseCode
  text : Str
  deriving DecidableEq, Repr

/-- A single item in a `STATUS` data response. -/
inductive StatusItem where
  | messages (n : UInt32)
  | recent (n : UInt32)
  | uidNext (n : UInt32)
  | uidValidity (n : UInt32)
  | unseen (n : UInt32)
  | other (n : UInt32)
  deriving DecidableEq, Repr

/-- A single attribute returned in a `FETCH` data response. -/
inductive FetchAttribute where
  | flags (flags : List Str)
  | internalDate (date : Str)
  | rfc822Size (n : UInt32)
  | rfc822 (data : Slice)
  | rfc822Header (data : Slice)
  | rfc822Text (data : Slice)
  | envelope (raw : Slice)
  | body (raw : Slice)
  | bodyStructure (raw : Slice)
  /-- `BODY[<section>]<<origin>>` with the data as raw bytes, `none` for `NIL`. -/
  | bodySection (section_ : Option Str) (origin : Option UInt32) (data : Option Slice)
  | uid (n : UInt32)
  deriving DecidableEq, Repr

/-- An untagged data response. -/
inductive DataResponse where
  | capability (caps : List Str)
  | list (flags : List Str) (delimiter : Option Str) (name : Str)
  | lsub (flags : List Str) (delimiter : Option Str) (name : Str)
  | status (mailbox : Str) (items : List StatusItem)
  | search (ids : List UInt32)
  | flags (flags : List Str)
  | exists (n : UInt32)
  | recent (n : UInt32)
  | expunge (n : UInt32)
  | fetch (seq : UInt32) (attributes : List FetchAttribute)
  /-- Unrecognized untagged data response: the raw line bytes, without CRLF. -/
  | other (line : Slice)
  deriving DecidableEq, Repr

/-- A command-continuation request: `+ [code] text`. -/
structure ContinueReq where
  code : Option ResponseCode
  text : Str
  deriving DecidableEq, Repr

/-- A single parsed server response. -/
inductive Response where
  | status (s : StatusResponse)
  | data (d : DataResponse)
  | continue (c : ContinueReq)
  deriving DecidableEq, Repr

end ImapRs
