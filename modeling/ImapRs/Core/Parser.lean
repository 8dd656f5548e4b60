import ImapRs.Core.Ast
import ImapRs.Incremental.Cursor

/-!
# The response parser

A translation of `imap-core/src/parser.rs`, function by function. `Parser` is the Rust struct:
the buffer and the cursor come from `Incremental.Cursor`, the item budget is auxiliary state.
A method taking `&mut self` and returning `Result<T, ParseError>` becomes a `ParserM T`; `?` is
sequencing.

## Conventions

* `while let Ok(c) = self.peek() { if p(c) { pos += 1 } else { break } }` is `skipWhile p`.
* A Rust `loop` or `while` with a body that parses is `iterate` of its body.
* `pos.checked_add(n)` cannot fail: positions index a buffer in memory and `n` is at most
  `MAX_LITERAL_SIZE`, so it is plain addition.
* The three parenthesised lists of the grammar share `parseParenList`; each keeps its own
  element parser and its own message.

## Ghost state

`Budget.literals` records the literals consumed so far. The Rust struct has no such field and
nothing reads it; it is what lets a theorem speak of the literals *the parser consumed*.
-/

namespace ImapRs

open Incremental

/-- Hard cap on a single literal's declared length, in octets. -/
def MAX_LITERAL_SIZE : ℕ := 64 * 1024 * 1024

/-- Hard cap on the list elements in one response. -/
def MAX_ITEMS_PER_RESPONSE : ℕ := 64 * 1024

/-- A literal as it stood on the wire: `{n}` CRLF, then `n` octets. -/
structure Literal where
  header : Slice
  payload : Slice
  deriving DecidableEq, Repr

/-- What the parser keeps besides the buffer and the cursor. -/
structure Budget where
  /-- List elements this response may still allocate. -/
  itemsLeft : ℕ
  /-- Ghost: the literals consumed so far. -/
  literals : List Literal
  deriving DecidableEq, Repr

/-- The parser state. -/
abbrev Parser := Cursor UInt8 Budget

/-- A parser method. -/
abbrev ParserM := Reader UInt8 Budget ParseError

/-- The byte of an ASCII character. -/
def byte (c : Char) : UInt8 := c.toNat.toUInt8

/-- `core::str::from_utf8`. -/
def fromUtf8 (bs : Bytes) : Option Str :=
  if h : validUtf8 bs = true then some ⟨bs, h⟩ else none

/-- The number a string of decimal digits denotes. -/
def decimalValue (ds : Bytes) : ℕ := ds.foldl (fun n d => n * 10 + (d.toNat - 48)) 0

/-- `str::parse::<u32>`: an optional `+`, then digits, with overflow rejected. -/
def parseU32 (s : Bytes) : Option UInt32 :=
  let ds := if s.head? = some (byte '+') then s.tail else s
  if ds ≠ [] ∧ ds.all isAsciiDigit then
    if h : decimalValue ds < 2 ^ 32 then some (UInt32.ofNatLT (decimalValue ds) h) else none
  else none

/-- True if `c` is a valid ATOM-CHAR per RFC 9051 grammar. -/
def isAtomChar (c : UInt8) : Bool :=
  !(c ≤ 0x1F || c == 0x7F || c == byte '(' || c == byte ')' || c == byte '{' || c == byte ' ' ||
    c == byte '%' || c == byte '*' || c == byte '"' || c == byte '\\' || c == byte ']')

/-- True iff `bytes` is a (possibly empty) case-insensitive strict prefix of a status keyword. -/
def couldBeStatusKeywordPrefix (bytes : Bytes) : Bool :=
  [ascii "OK", ascii "NO", ascii "BAD", ascii "BYE", ascii "PREAUTH"].any fun kw =>
    bytes.length < kw.length && ((kw.take bytes.length).zip bytes).all fun p => byteEqCi p.1 p.2

namespace Parser

/-- `Parser::new`. -/
def new (input : Bytes) : Parser := ⟨input, 0, ⟨MAX_ITEMS_PER_RESPONSE, []⟩⟩

/-! ### The cursor -/

/-- `items_left.checked_sub(1)`. -/
def chargeItem (b : Budget) : Except ParseError Budget :=
  match b.itemsLeft with
  | 0 => .error (.tooManyItems MAX_ITEMS_PER_RESPONSE)
  | n + 1 => .ok { b with itemsLeft := n }

/-- Append `item` to `list`, charging it against the per-response item budget. -/
def pushItem {α : Type} (list : List α) (item : α) : ParserM (List α) := do
  charge chargeItem
  pure (list ++ [item])

def isEof : ParserM Bool := fun s => .ok (decide (s.input.length ≤ s.pos), s)

/-- `Err(ParseError::Other("Invalid UTF-8"))` unless the bytes are text. -/
def toStr (bs : Bytes) : ParserM Str :=
  match fromUtf8 bs with
  | some s => pure s
  | none => fail (.other "Invalid UTF-8")

/-- The bytes from `start` to the cursor as text, once a scan has stopped. A scan that stopped at
the end of the buffer saw a truncated token. -/
def scannedText (start : ℕ) : ParserM Str := do
  if ← isEof then fail .incomplete
  else toStr (← sliceFrom start)

abbrev peek : ParserM UInt8 := Incremental.peek .incomplete

def consumeByte (b : UInt8) : ParserM Unit := do
  if (← peek) = b then advance
  else fail (.invalidChar (← position))

abbrev tryConsumeByte (b : UInt8) : ParserM Bool := tryConsume b

/-- Match `expected` case-insensitively at the current position. -/
def matchesCi (s : Parser) (expected : Bytes) : Bool :=
  if s.pos + expected.length ≤ s.input.length then
    (((s.input.drop s.pos).take expected.length).zip expected).all fun p => byteEqCi p.1 p.2
  else false

/-- The bytes after which a keyword ends. -/
def isBoundary (b : UInt8) : Bool :=
  b == SP || b == CR || b == LF || b == byte ']' || b == byte ')'

/-- Consume `expected` case-insensitively iff the byte after the match is a token boundary. -/
def tryConsumeKeywordCi (expected : Bytes) : ParserM Bool := fun s =>
  if !matchesCi s expected then .ok (false, s)
  else
    let boundary := match s.input[s.pos + expected.length]? with
      | none => true
      | some b => isBoundary b
    if !boundary then .ok (false, s)
    else .ok (true, { s with pos := s.pos + expected.length })

def consumeCrlf : ParserM Unit := do
  if (← peek) ≠ CR then fail (.malformed "expected CR")
  else fun s =>
    match s.input[s.pos + 1]? with
    | some b =>
      if b = LF then .ok ((), { s with pos := s.pos + 2 })
      else .error (.malformed "expected LF after CR")
    | none => .error .incomplete

def consumeSp : ParserM Unit := consumeByte SP

/-- Consume `NIL`, or classify why it is absent. -/
def expectNil : ParserM Unit := do
  if ← tryConsumeKeywordCi (ascii "NIL") then pure ()
  else fun s =>
    let rest := s.rest
    if rest.length < (ascii "NIL").length && (rest.zip (ascii "NIL")).all fun p => byteEqCi p.1 p.2
    then .error .incomplete
    else .error (.malformed "expected nstring")

/-! ### Tokens -/

/-- Decimal number, `1*DIGIT`, as `u32`. -/
def parseNumber : ParserM UInt32 := do
  let start ← position
  skipWhile isAsciiDigit
  if start = (← position) then
    if ← isEof then fail .incomplete else fail .invalidNumber
  else
    match fromUtf8 (← sliceFrom start) with
    | none => fail .invalidNumber
    | some s =>
      match parseU32 s.bytes with
      | some n => pure n
      | none => fail .invalidNumber

def parseAtom : ParserM Str := do
  let start ← position
  skipWhile isAtomChar
  if start = (← position) then
    if ← isEof then fail .incomplete else fail (.malformed "expected atom")
  else scannedText start

/-- The bytes a tag may hold: anything but SP, CR and LF. -/
def isTagChar (c : UInt8) : Bool := !(c == SP || c == CR || c == LF)

def parseTag : ParserM Str := do
  let start ← position
  skipWhile isTagChar
  if start = (← position) then
    if ← isEof then fail .incomplete else fail (.malformed "expected tag")
  else scannedText start

/-- One round of the scan inside a quoted string. -/
def quotedStep (start : ℕ) (_ : Unit) : ParserM (Flow Unit Str) := do
  let c ← peek
  if c = byte '"' then do
    let s ← toStr (← sliceFrom start)
    advance
    pure (.done s)
  else if c = byte '\\' then do
    -- RFC 9051 only lets `\` escape the quoted-specials
    advance
    let d ← peek
    if d = byte '"' ∨ d = byte '\\' then do
      advance
      pure (.again ())
    else fail (.malformed "invalid escape in quoted string")
  else if c = CR ∨ c = LF then fail (.malformed "CR/LF inside quoted string")
  else if c = 0 then fail (.malformed "NUL inside quoted string")
  else do
    advance
    pure (.again ())

/-- Quoted string. Returns the bytes between the quotes; escapes are not processed. -/
def parseQuoted : ParserM Str := do
  consumeByte (byte '"')
  let start ← position
  iterate .unexpectedEof (quotedStep start) ()

/-- The payload of a literal whose header, from `brace` to the cursor, has been consumed. -/
def literalPayload (brace n : ℕ) : ParserM Slice := fun s =>
  if s.input.length < s.pos + n then .error .incomplete
  else
    let data : Slice := ⟨s.pos, (s.input.drop s.pos).take n⟩
    let header : Slice := ⟨brace, (s.input.take s.pos).drop brace⟩
    .ok (data, { s with
      pos := s.pos + n
      aux := { s.aux with literals := s.aux.literals ++ [⟨header, data⟩] } })

/-- Literal: `{n}` CRLF, then `n` octets. -/
def parseLiteral : ParserM Slice := do
  let brace ← position
  consumeByte (byte '{')
  let n ← parseNumber
  consumeByte (byte '}')
  consumeCrlf
  if MAX_LITERAL_SIZE < n.toNat then fail (.literalTooLarge n.toNat MAX_LITERAL_SIZE)
  else literalPayload brace n.toNat

/-- `astring` = atom / quoted / literal. -/
def parseAstring : ParserM Str := do
  let c ← peek
  if c = byte '"' then parseQuoted
  else if c = byte '{' then do
    let data ← parseLiteral
    toStr data.bytes
  else parseAtom

/-- `nstring` = string / NIL. Returns `none` for NIL. -/
def parseNstring : ParserM (Option Str) := do
  let c ← peek
  if c = byte '"' then return some (← parseQuoted)
  else if c = byte '{' then do
    let data ← parseLiteral
    return some (← toStr data.bytes)
  else do
    expectNil
    return none

/-- A flag is `\<atom>` or just `<atom>`; `\*` is the "all keywords" marker. -/
def parseFlagOrAtom : ParserM Str := do
  let start ← position
  let c ← peek
  if c = byte '\\' then do
    advance
    if ← tryConsumeByte (byte '*') then toStr (← sliceFrom start)
    else flagTail start
  else flagTail start
where
  /-- The atom characters of the flag and the check on what was scanned. -/
  flagTail (start : ℕ) : ParserM Str := do
    skipWhile isAtomChar
    if start = (← position) then
      if ← isEof then fail .incomplete else fail (.malformed "expected flag/atom")
    else scannedText start

/-- One round of a parenthesised list: an element, then SP or the closing parenthesis. -/
def parenListStep {α : Type} (element : ParserM α) (expected : String) (items : List α) :
    ParserM (Flow (List α) (List α)) := do
  let item ← element
  let items ← pushItem items item
  let c ← peek
  if c = SP then do
    advance
    pure (.again items)
  else if c = byte ')' then do
    advance
    pure (.done items)
  else fail (.malformed expected)

/-- `"(" [element *(SP element)] ")"`, each element charged to the item budget. -/
def parseParenList {α : Type} (element : ParserM α) (expected : String) : ParserM (List α) := do
  consumeByte (byte '(')
  if ← tryConsumeByte (byte ')') then pure []
  else iterate .unexpectedEof (parenListStep element expected) []

/-- A parenthesized atom list, e.g. `(\Seen \Draft)`. -/
def parseParenAtomList : ParserM (List Str) :=
  parseParenList parseFlagOrAtom "expected SP or ) in list"

/-- One round inside a balanced expression at nesting `depth`. -/
def balancedStep (depth : ℕ) : ParserM (Incremental.Flow ℕ Unit) := do
  if depth = 0 then pure (.done ())
  else do
    let c ← peek
    if c = byte '(' then do
      advance
      if depth + 1 < 2 ^ 32 then pure (.again (depth + 1))
      else fail (.other "paren depth overflow")
    else if c = byte ')' then do
      advance
      pure (.again (depth - 1))
    else if c = byte '"' then do
      let _ ← parseQuoted
      pure (.again depth)
    else if c = byte '{' then do
      let _ ← parseLiteral
      pure (.again depth)
    else if c = CR ∨ c = LF then fail (.malformed "CR/LF inside parenthesised value")
    else do
      advance
      pure (.again depth)

/-- A balanced parenthesized expression, as the slice including the outer parentheses. Quoted
strings and literals inside it are opaque. -/
def parseBalancedParens : ParserM Slice := do
  let start ← position
  consumeByte (byte '(')
  iterate .unexpectedEof balancedStep 1
  let bytes ← sliceFrom start
  pure ⟨start, bytes⟩

/-- The bytes of a line: anything but CR and LF. -/
def isTextChar (c : UInt8) : Bool := !(c == CR || c == LF)

/-- The rest of the current line. Does not consume the CRLF. -/
def parseText : ParserM Str := do
  let start ← position
  skipWhile isTextChar
  scannedText start

/-- Scan up to a byte in `stop`, refusing CR and LF on the way; the end of the buffer also stops
the scan. -/
def scanUntil (stop : UInt8 → Bool) (err : ParseError) : ParserM Unit := do
  skipWhile fun c => !(stop c || c == CR || c == LF)
  fun s =>
    match s.input[s.pos]? with
    | some c => if stop c then .ok ((), s) else .error err
    | none => .ok ((), s)

def readUntilByte (terminator : UInt8) : ParserM Str := do
  let start ← position
  scanUntil (· == terminator) (.malformed "CR/LF before terminator")
  scannedText start

/-- nstring as a byte slice. NIL becomes an empty slice. -/
def parseNstringBytes : ParserM Slice := do
  let c ← peek
  if c = byte '"' then do
    let start ← position
    let s ← parseQuoted
    -- the content starts after the opening quote
    pure ⟨start + 1, s.bytes⟩
  else if c = byte '{' then parseLiteral
  else do
    expectNil
    pure ⟨← position, []⟩

/-- Like `parseNstringBytes` but returns `none` for NIL. -/
def parseNstringBytesOptional : ParserM (Option Slice) := do
  let c ← peek
  if c = byte '"' then do
    let start ← position
    let s ← parseQuoted
    pure (some ⟨start + 1, s.bytes⟩)
  else if c = byte '{' then return some (← parseLiteral)
  else do
    expectNil
    pure none

/-! ### resp-text and response codes -/

/-- `while self.try_consume_byte(b' ')` over charged atoms, the body of a capability list. -/
def capabilityStep (caps : List Str) : ParserM (Flow (List Str) (List Str)) := do
  if ← tryConsumeByte SP then do
    let cap ← parseAtom
    let caps ← pushItem caps cap
    pure (.again caps)
  else pure (.done caps)

def parseCapabilities : ParserM (List Str) := iterate .unexpectedEof capabilityStep []

/-- The code atom, up to `]` or SP. -/
def parseCodeAtom : ParserM Str := do
  let start ← position
  scanUntil (fun c => c == byte ']' || c == SP) (.malformed "CR/LF inside response code")
  if ← isEof then fail .incomplete
  else if start = (← position) then fail (.malformed "empty response code")
  else toStr (← sliceFrom start)

/-- What follows a code atom, by the atom. -/
def respTextCodeArgs (atom : Str) : ParserM ResponseCode := do
  if atom.eqCi "ALERT" then pure .alert
  else if atom.eqCi "PARSE" then pure .parse
  else if atom.eqCi "READ-ONLY" then pure .readOnly
  else if atom.eqCi "READ-WRITE" then pure .readWrite
  else if atom.eqCi "TRYCREATE" then pure .tryCreate
  else if atom.eqCi "UIDNEXT" then do
    consumeSp
    return .uidNext (← parseNumber)
  else if atom.eqCi "UIDVALIDITY" then do
    consumeSp
    return .uidValidity (← parseNumber)
  else if atom.eqCi "UNSEEN" then do
    consumeSp
    return .unseen (← parseNumber)
  else if atom.eqCi "CAPABILITY" then return .capability (← parseCapabilities)
  else if atom.eqCi "PERMANENTFLAGS" then do
    consumeSp
    return .permanentFlags (← parseParenAtomList)
  else if atom.eqCi "BADCHARSET" then do
    if ← tryConsumeByte SP then return .badCharset (← parseParenAtomList)
    else pure (.badCharset [])
  else do
    if ← tryConsumeByte SP then return .other atom (some (← readUntilByte (byte ']')))
    else pure (.other atom none)

def parseRespTextCode : ParserM ResponseCode := do
  let atom ← parseCodeAtom
  respTextCodeArgs atom

/-- The optional `"[" resp-text-code "]" [SP]`. -/
def parseRespTextPrefix : ParserM (Option ResponseCode) := do
  if ← tryConsumeByte (byte '[') then do
    let c ← parseRespTextCode
    consumeByte (byte ']')
    -- RFC: SP follows. Some servers omit it when text is empty.
    let _ ← tryConsumeByte SP
    pure (some c)
  else pure none

/-- resp-text = ["[" resp-text-code "]" SP] text -/
def parseRespText : ParserM (Option ResponseCode × Str) := do
  let code ← parseRespTextPrefix
  let text ← parseText
  pure (code, text)

/-- resp-text following a status keyword; no SP means empty text. -/
def parseRespTextAfterKeyword : ParserM (Option ResponseCode × Str) := do
  if ← tryConsumeByte SP then parseRespText
  else pure (none, Str.empty)

def tryParseStatusKeyword : ParserM (Option Status) := do
  if ← tryConsumeKeywordCi (ascii "PREAUTH") then pure (some .preAuth)
  else if ← tryConsumeKeywordCi (ascii "OK") then pure (some .ok)
  else if ← tryConsumeKeywordCi (ascii "NO") then pure (some .no)
  else if ← tryConsumeKeywordCi (ascii "BAD") then pure (some .bad)
  else if ← tryConsumeKeywordCi (ascii "BYE") then pure (some .bye)
  else pure none

/-! ### FETCH attributes -/

/-- The bytes an attribute name may hold: anything up to SP, `[` or `)`. -/
def isAttNameChar (c : UInt8) : Bool := !(c == SP || c == byte '[' || c == byte ')')

/-- FETCH attribute names can include `.`; we read up to SP, `[` or `)`. -/
def parseFetchAttName : ParserM Str := do
  let start ← position
  skipWhile isAttNameChar
  if ← isEof then fail .incomplete
  else if start = (← position) then fail (.malformed "expected FETCH att name")
  else toStr (← sliceFrom start)

/-- `["<" number ">"]`, the origin of a partial fetch. -/
def parseOrigin : ParserM (Option UInt32) := do
  if ← tryConsumeByte (byte '<') then do
    let n ← parseNumber
    consumeByte (byte '>')
    pure (some n)
  else pure none

/-- `section "]" [origin] SP nstring`, after `BODY[`. -/
def parseBodySection : ParserM FetchAttribute := do
  let sect ← readUntilByte (byte ']')
  consumeByte (byte ']')
  let origin ← parseOrigin
  consumeSp
  let data ← parseNstringBytesOptional
  pure (.bodySection (if sect.isEmpty then none else some sect) origin data)

/-- The value of the attribute called `name`. -/
def fetchAttValue (name : Str) : ParserM FetchAttribute := do
  if name.eqCi "UID" then do
    consumeSp
    return .uid (← parseNumber)
  else if name.eqCi "FLAGS" then do
    consumeSp
    return .flags (← parseParenAtomList)
  else if name.eqCi "INTERNALDATE" then do
    consumeSp
    return .internalDate (← parseQuoted)
  else if name.eqCi "RFC822.SIZE" then do
    consumeSp
    return .rfc822Size (← parseNumber)
  else if name.eqCi "RFC822" then do
    consumeSp
    return .rfc822 (← parseNstringBytes)
  else if name.eqCi "RFC822.HEADER" then do
    consumeSp
    return .rfc822Header (← parseNstringBytes)
  else if name.eqCi "RFC822.TEXT" then do
    consumeSp
    return .rfc822Text (← parseNstringBytes)
  else if name.eqCi "ENVELOPE" then do
    consumeSp
    return .envelope (← parseBalancedParens)
  else if name.eqCi "BODYSTRUCTURE" then do
    consumeSp
    return .bodyStructure (← parseBalancedParens)
  else if name.eqCi "BODY" then do
    -- `BODY[<section>]<<origin>> <nstring>`, or `BODY <body>`
    if ← tryConsumeByte (byte '[') then parseBodySection
    else do
      consumeSp
      return .body (← parseBalancedParens)
  else fail (.malformed "unknown FETCH attribute")

def parseOneFetchAtt : ParserM FetchAttribute := do
  let name ← parseFetchAttName
  fetchAttValue name

def parseFetchMsgAtt : ParserM (List FetchAttribute) :=
  parseParenList parseOneFetchAtt "expected SP or ) in FETCH atts"

/-! ### Data responses -/

/-- The STATUS item called `key`. -/
def statusItem (key : Str) (value : UInt32) : StatusItem :=
  if key.eqCi "MESSAGES" then .messages value
  else if key.eqCi "RECENT" then .recent value
  else if key.eqCi "UIDNEXT" then .uidNext value
  else if key.eqCi "UIDVALIDITY" then .uidValidity value
  else if key.eqCi "UNSEEN" then .unseen value
  else .other value

def parseStatusItem : ParserM StatusItem := do
  let key ← parseAtom
  consumeSp
  let value ← parseNumber
  pure (statusItem key value)

def parseStatusItems : ParserM (List StatusItem) :=
  parseParenList parseStatusItem "expected SP or ) in STATUS items"

def parseListLsubBody : ParserM (List Str × Option Str × Str) := do
  let flags ← parseParenAtomList
  consumeSp
  let delimiter ← parseNstring
  consumeSp
  let name ← parseAstring
  pure (flags, delimiter, name)

/-- `while self.try_consume_byte(b' ')` over message numbers. -/
def searchStep (ids : List UInt32) : ParserM (Flow (List UInt32) (List UInt32)) := do
  if ← tryConsumeByte SP then do
    let n ← parseNumber
    pure (.again (ids ++ [n]))
  else pure (.done ids)

def parseSearchIds : ParserM (List UInt32) := iterate .unexpectedEof searchStep []

/-- Walk backward from `i` until a CRLF or the start of the input. -/
def findCurrentLineStart (input : Bytes) : ℕ → ℕ
  | 0 => 0
  | i + 1 =>
    if 2 ≤ i + 1 ∧ (input.take (i + 1)).drop (i - 1) = CRLF then i + 1
    else findCurrentLineStart input i

/-- The scan of both salvage paths: everything up to CR. -/
def isRawLineChar (c : UInt8) : Bool := !(c == CR)

/-- Salvage path for unrecognized numeric data responses: the whole line as raw bytes. -/
def finishOtherDataWithPrefix : ParserM Response := do
  let lineStart ← (fun s => .ok (findCurrentLineStart s.input s.pos, s) : ParserM ℕ)
  skipWhile isRawLineChar
  let line ← sliceFrom lineStart
  consumeCrlf
  pure (.data (.other ⟨lineStart, line⟩))

def parseNumericDataResponse : ParserM Response := do
  let n ← parseNumber
  consumeSp
  let kind ← parseAtom
  if kind.eqCi "EXISTS" then do
    consumeCrlf
    pure (.data (.exists n))
  else if kind.eqCi "RECENT" then do
    consumeCrlf
    pure (.data (.recent n))
  else if kind.eqCi "EXPUNGE" then do
    consumeCrlf
    pure (.data (.expunge n))
  else if kind.eqCi "FETCH" then do
    consumeSp
    let attributes ← parseFetchMsgAtt
    consumeCrlf
    pure (.data (.fetch n attributes))
  else finishOtherDataWithPrefix

/-- The recognised named data responses, up to but not including the CRLF; `none` when the name
is not one of them. -/
def namedData (name : Str) : Option (ParserM DataResponse) :=
  if name.eqCi "CAPABILITY" then some do
    return .capability (← parseCapabilities)
  else if name.eqCi "LIST" then some do
    consumeSp
    let (flags, delimiter, name) ← parseListLsubBody
    return .list flags delimiter name
  else if name.eqCi "LSUB" then some do
    consumeSp
    let (flags, delimiter, name) ← parseListLsubBody
    return .lsub flags delimiter name
  else if name.eqCi "STATUS" then some do
    consumeSp
    let mailbox ← parseAstring
    consumeSp
    let items ← parseStatusItems
    return .status mailbox items
  else if name.eqCi "SEARCH" then some do
    return .search (← parseSearchIds)
  else if name.eqCi "FLAGS" then some do
    consumeSp
    return .flags (← parseParenAtomList)
  else none

def parseNamedDataResponse : ParserM Response := do
  let lineStart ← position
  let name ← parseAtom
  match namedData name with
  | some body => do
    let resp ← body
    consumeCrlf
    pure (.data resp)
  | none => do
    -- unknown: capture the raw line
    skipWhile isRawLineChar
    let line ← sliceFrom lineStart
    consumeCrlf
    pure (.data (.other ⟨lineStart, line⟩))

/-! ### Top-level dispatch -/

def parseContinueReq : ParserM Response := do
  consumeByte (byte '+')
  consumeSp
  let (code, text) ← parseRespText
  consumeCrlf
  pure (.continue ⟨code, text⟩)

/-- The rest of a status response, after its keyword. -/
def finishStatus (tag : Option Str) (status : Status) : ParserM Response := do
  let (code, text) ← parseRespTextAfterKeyword
  consumeCrlf
  pure (.status ⟨tag, status, code, text⟩)

def parseUntagged : ParserM Response := do
  consumeByte (byte '*')
  consumeSp
  match ← tryParseStatusKeyword with
  | some status => finishStatus none status
  | none =>
    if isAsciiDigit (← peek) then parseNumericDataResponse
    else parseNamedDataResponse

def parseTagged : ParserM Response := do
  let tag ← parseTag
  consumeSp
  match ← tryParseStatusKeyword with
  | some status => finishStatus (some tag) status
  | none => fun s =>
    if couldBeStatusKeywordPrefix (s.input.drop s.pos) then .error .incomplete
    else .error (.malformed "expected tagged status keyword")

def parseResponse : ParserM Response := do
  if ← isEof then fail .incomplete
  else do
    let c ← peek
    if c = byte '+' then parseContinueReq
    else if c = byte '*' then parseUntagged
    else parseTagged

end Parser

/-- Parse a single server response from `input`: the unparsed remainder and the response. -/
def parseResponse (input : Bytes) : Except ParseError (Bytes × Response) :=
  match Parser.parseResponse (Parser.new input) with
  | .ok (response, parser) => .ok (parser.rest, response)
  | .error e => .error e

end ImapRs
