import ImapRs.Client.Dispatcher
import ImapRs.Core.Quoted

/-!
# Caller values on a command line

A translation of `imap-client/src/wire.rs`, of `imap_quoted` in `credentials.rs` and of `flags.rs`:
how values an application may take from its own users are checked, and how they are written into a
command line.

A `&str` argument is a `Str`. The checks and the renderers look for ASCII only, and an ASCII byte
is never part of a longer character, so they go over the bytes of the text.
-/

namespace ImapRs

/-! ### Checks -/

/-- Reject a command line containing CR, LF or NUL. -/
def rejectLineBreaks (cmd : Bytes) : Except ClientError Unit :=
  if hasLineBreaks cmd then .error (.invalidArgument "command contains CR, LF or NUL") else .ok ()

/-- `*`, or a non-zero 32-bit number without leading zeros. -/
def isSeqNumber (number : Bytes) : Bool :=
  number == ascii "*" ||
    (number.head? != some (byte '0') && number.all isAsciiDigit && (parseU32 number).isSome)

def isSeqRange (range : Bytes) : Bool :=
  match range.splitOn (byte ':') with
  | [only] => isSeqNumber only
  | [first, last] => isSeqNumber first && isSeqNumber last
  | _ => false

/-- Validate a `sequence-set` such as `1:5,7,9:*`. -/
def sequenceSet (set : Str) : Except ClientError Bytes :=
  if !set.isEmpty && (set.bytes.splitOn (byte ',')).all isSeqRange then .ok set.bytes
  else .error (.invalidArgument "sequence set")

def isPrintableAscii (b : UInt8) : Bool := byte ' ' ≤ b && b ≤ byte '~'

/-- The scan of `has_balanced_brackets`, with the brackets still open. -/
def bracketsClose : Bytes → Bytes → Bool
  | stack, [] => stack.isEmpty
  | stack, c :: t =>
    if c = byte '(' ∨ c = byte '[' then bracketsClose (c :: stack) t
    else if c = byte ')' then
      if stack.head? = some (byte '(') then bracketsClose stack.tail t else false
    else if c = byte ']' then
      if stack.head? = some (byte '[') then bracketsClose stack.tail t else false
    else bracketsClose stack t

def hasBalancedBrackets (text : Bytes) : Bool := bracketsClose [] text

/-- Validate the item list of a `FETCH` command: printable ASCII with balanced brackets and no `{`,
so that no literal can be announced from inside the list. -/
def fetchItems (items : Str) : Except ClientError Bytes :=
  let printable := items.bytes.all fun b => isPrintableAscii b && b != byte '{'
  if !items.isEmpty && printable && hasBalancedBrackets items.bytes then .ok items.bytes
  else .error (.invalidArgument "fetch items")

/-- `ATOM-CHAR`: printable ASCII other than SP and the atom-specials. -/
def isKeywordChar (b : UInt8) : Bool :=
  isPrintableAscii b && !(b == byte ' ' || b == byte '(' || b == byte ')' || b == byte '{' ||
    b == byte '%' || b == byte '*' || b == byte '"' || b == byte '\\' || b == byte ']')

/-- An atom, optionally preceded by a single `\`. -/
def isFlagKeyword (keyword : Bytes) : Bool :=
  let atom := if keyword.head? = some (byte '\\') then keyword.tail else keyword
  !atom.isEmpty && atom.all isKeywordChar

/-! ### Flags -/

/-- A message flag. -/
inductive Flag where
  | seen | answered | flagged | deleted | draft | recent
  /-- A server- or client-defined keyword, rendered as it is. -/
  | custom (keyword : Str)
  deriving DecidableEq, Repr

/-- `Display` for `Flag`. -/
def Flag.toBytes : Flag → Bytes
  | .seen => ascii "\\Seen"
  | .answered => ascii "\\Answered"
  | .flagged => ascii "\\Flagged"
  | .deleted => ascii "\\Deleted"
  | .draft => ascii "\\Draft"
  | .recent => ascii "\\Recent"
  | .custom keyword => keyword.bytes

/-- `wire::flag`: system flags are constants and always valid; a custom one must be a keyword. -/
def checkFlag : Flag → Except ClientError Unit
  | .custom keyword =>
    if isFlagKeyword keyword.bytes then .ok () else .error (.invalidArgument "flag keyword")
  | _ => .ok ()

/-- How a `STORE` command modifies the flags of a message. -/
inductive StoreAction where
  | add | remove | set
  deriving DecidableEq, Repr

/-- The item name of the action. -/
def StoreAction.toImapPrefix : StoreAction → Bool → Bytes
  | .add, true => ascii "+FLAGS.SILENT"
  | .add, false => ascii "+FLAGS"
  | .remove, true => ascii "-FLAGS.SILENT"
  | .remove, false => ascii "-FLAGS"
  | .set, true => ascii "FLAGS.SILENT"
  | .set, false => ascii "FLAGS"

/-! ### Quoting -/

/-- Render text as a quoted string, escaping `"` and `\`. -/
def quote (text : Bytes) : Bytes := byte '"' :: (escape text ++ [byte '"'])

/-- Render text as a quoted string, or refuse what a quoted string cannot hold. -/
def imapQuoted (s : Str) : Except ClientError Bytes :=
  if s.bytes.any fun b => b == CR || b == LF || b == 0 || 0x7F < b then
    .error (.commandFailed ("value contains characters disallowed in IMAP quoted string; " ++
      "use AUTHENTICATE for 8-bit or control-byte values").toList)
  else .ok (quote s.bytes)

end ImapRs
