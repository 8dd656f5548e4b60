import ImapRs.Core.Parser
import ImapRs.Incremental.Faults

/-!
# The response parser, with every operation checked

A second translation of `imap-core/src/parser.rs`, closer to the machine than the one in `Parser`.
Positions are machine words of at most `usizeMax`, and each operation that could go wrong in Rust
checks itself and faults: `pos += n` when the sum overflows, or moves the cursor back or out of the
buffer; `&input[a..b]` when its bounds are not in order; `a - b` when it is negative; and a loop
when a round that goes on has not moved the cursor. `checked_add` and `get` do not fault, as in
Rust.

Names and order are those of `Parser`.
-/

namespace ImapRs

open Incremental

namespace Checked

/-- A parser method, with faults. -/
abbrev CheckedM := Reader UInt8 Budget (Stop ParseError)

/-- `return Err(e)`. -/
def throw {α : Type} (e : ParseError) : CheckedM α := fail (.error e)

variable (usizeMax : ℕ)

/-- `a.checked_add(b)`. -/
def checkedAdd (a b : ℕ) : Option ℕ := if a + b ≤ usizeMax then some (a + b) else none

/-! ### The cursor -/

/-- `items_left.checked_sub(1)`. -/
def chargeItem (b : Budget) : Except (Stop ParseError) Budget := Stop.lift (Parser.chargeItem b)

def pushItem {α : Type} (list : List α) (item : α) : CheckedM (List α) := do
  charge chargeItem
  pure (list ++ [item])

/-- `&self.input[self.pos..]`. -/
def remaining : CheckedM Bytes := do slice (← position) (← inputLen)

def isEof : CheckedM Bool := do
  return decide ((← inputLen) ≤ (← position))

def toStr (bs : Bytes) : CheckedM Str :=
  match fromUtf8 bs with
  | some s => pure s
  | none => throw (.other "Invalid UTF-8")

def scannedText (start : ℕ) : CheckedM Str := do
  if ← isEof then throw .incomplete
  else toStr (← sliceToPos start)

def peek : CheckedM UInt8 := Incremental.peek (.error .incomplete)

/-- `self.peek_at(offset)`, with `none` for its error. -/
def peekAt (offset : ℕ) : CheckedM (Option UInt8) := do
  match checkedAdd usizeMax (← position) offset with
  | none => pure none
  | some i => get i

def consumeByte (b : UInt8) : CheckedM Unit := do
  if (← peek) = b then moveBy usizeMax 1
  else throw (.invalidChar (← position))

def tryConsumeByte (b : UInt8) : CheckedM Bool := do
  match ← get (← position) with
  | some c =>
    if c = b then do
      moveBy usizeMax 1
      pure true
    else pure false
  | none => pure false

def matchesCi (expected : Bytes) : CheckedM Bool := do
  let pos ← position
  match checkedAdd usizeMax pos expected.length with
  | none => pure false
  | some stop =>
    if stop ≤ (← inputLen) then do
      let found ← slice pos stop
      pure ((found.zip expected).all fun p => byteEqCi p.1 p.2)
    else pure false

def tryConsumeKeywordCi (expected : Bytes) : CheckedM Bool := do
  if !(← matchesCi usizeMax expected) then pure false
  else do
    let after ← sum usizeMax (← position) expected.length
    let boundary := match ← get after with
      | none => true
      | some b => Parser.isBoundary b
    if !boundary then pure false
    else do
      moveBy usizeMax expected.length
      pure true

def consumeCrlf : CheckedM Unit := do
  if (← peek) ≠ CR then throw (.malformed "expected CR")
  else
    match ← peekAt usizeMax 1 with
    | some b => if b = LF then moveBy usizeMax 2 else throw (.malformed "expected LF after CR")
    | none => throw .incomplete

def consumeSp : CheckedM Unit := consumeByte usizeMax SP

def expectNil : CheckedM Unit := do
  if ← tryConsumeKeywordCi usizeMax (ascii "NIL") then pure ()
  else do
    let rest ← remaining
    if rest.length < (ascii "NIL").length && (rest.zip (ascii "NIL")).all fun p => byteEqCi p.1 p.2
    then throw .incomplete
    else throw (.malformed "expected nstring")

/-! ### Tokens -/

/-- One round of `while let Ok(c) = self.peek()` over bytes in `p`; `verdict` judges the first byte
that is not. -/
def scanStep (p : UInt8 → Bool) (verdict : UInt8 → CheckedM Unit) (_ : Unit) :
    CheckedM (Incremental.Flow Unit Unit) := do
  match ← get (← position) with
  | some c =>
    if p c then do
      moveBy usizeMax 1
      pure (.again ())
    else do
      verdict c
      pure (.done ())
  | none => pure (.done ())

def skipWhile (p : UInt8 → Bool) : CheckedM Unit :=
  loop (scanStep usizeMax p fun _ => pure ()) ()

/-- Up to a byte in `stop`, refusing CR and LF on the way. -/
def scanUntil (stop : UInt8 → Bool) (err : ParseError) : CheckedM Unit :=
  loop (scanStep usizeMax (fun c => !(stop c || c == CR || c == LF)) fun c =>
    if stop c then pure () else throw err) ()

def parseNumber : CheckedM UInt32 := do
  let start ← position
  skipWhile usizeMax isAsciiDigit
  if start = (← position) then
    if ← isEof then throw .incomplete else throw .invalidNumber
  else
    match fromUtf8 (← sliceToPos start) with
    | none => throw .invalidNumber
    | some s =>
      match parseU32 s.bytes with
      | some n => pure n
      | none => throw .invalidNumber

/-- The scan of atoms, tags and flags, and the check on what was scanned. -/
def word (p : UInt8 → Bool) (what : String) (start : ℕ) : CheckedM Str := do
  skipWhile usizeMax p
  if start = (← position) then
    if ← isEof then throw .incomplete else throw (.malformed what)
  else scannedText start

def parseAtom : CheckedM Str := do
  let start ← position
  word usizeMax isAtomChar "expected atom" start

def parseTag : CheckedM Str := do
  let start ← position
  word usizeMax Parser.isTagChar "expected tag" start

def quotedStep (start : ℕ) (_ : Unit) : CheckedM (Flow Unit Str) := do
  let c ← peek
  if c = byte '"' then do
    let s ← toStr (← sliceToPos start)
    moveBy usizeMax 1
    pure (.done s)
  else if c = byte '\\' then do
    moveBy usizeMax 1
    let d ← peek
    if d = byte '"' ∨ d = byte '\\' then do
      moveBy usizeMax 1
      pure (.again ())
    else throw (.malformed "invalid escape in quoted string")
  else if c = CR ∨ c = LF then throw (.malformed "CR/LF inside quoted string")
  else if c = 0 then throw (.malformed "NUL inside quoted string")
  else do
    moveBy usizeMax 1
    pure (.again ())

def parseQuoted : CheckedM Str := do
  consumeByte usizeMax (byte '"')
  let start ← position
  loop (quotedStep usizeMax start) ()

/-- Ghost: the literal goes into the record of those consumed. -/
def noteLiteral (brace pos : ℕ) (data : Bytes) : CheckedM Unit := fun s =>
  let header : Slice := ⟨brace, (s.input.take pos).drop brace⟩
  .ok ((), { s with aux := { s.aux with literals := s.aux.literals ++ [⟨header, ⟨pos, data⟩⟩] } })

def literalPayload (brace n : ℕ) : CheckedM Slice := do
  let pos ← position
  match checkedAdd usizeMax pos n with
  | none => throw .incomplete
  | some stop =>
    if (← inputLen) < stop then throw .incomplete
    else do
      let data ← slice pos stop
      moveTo stop
      noteLiteral brace pos data
      pure ⟨pos, data⟩

def parseLiteral : CheckedM Slice := do
  let brace ← position
  consumeByte usizeMax (byte '{')
  let n ← parseNumber usizeMax
  consumeByte usizeMax (byte '}')
  consumeCrlf usizeMax
  if MAX_LITERAL_SIZE < n.toNat then throw (.literalTooLarge n.toNat MAX_LITERAL_SIZE)
  else literalPayload usizeMax brace n.toNat

def parseAstring : CheckedM Str := do
  let c ← peek
  if c = byte '"' then parseQuoted usizeMax
  else if c = byte '{' then do
    let data ← parseLiteral usizeMax
    toStr data.bytes
  else parseAtom usizeMax

def parseNstring : CheckedM (Option Str) := do
  let c ← peek
  if c = byte '"' then return some (← parseQuoted usizeMax)
  else if c = byte '{' then do
    let data ← parseLiteral usizeMax
    return some (← toStr data.bytes)
  else do
    expectNil usizeMax
    return none

def parseFlagOrAtom : CheckedM Str := do
  let start ← position
  let c ← peek
  if c = byte '\\' then do
    moveBy usizeMax 1
    if ← tryConsumeByte usizeMax (byte '*') then toStr (← sliceToPos start)
    else word usizeMax isAtomChar "expected flag/atom" start
  else word usizeMax isAtomChar "expected flag/atom" start

def parenListStep {α : Type} (element : CheckedM α) (expected : String) (items : List α) :
    CheckedM (Flow (List α) (List α)) := do
  let item ← element
  let items ← pushItem items item
  let c ← peek
  if c = SP then do
    moveBy usizeMax 1
    pure (.again items)
  else if c = byte ')' then do
    moveBy usizeMax 1
    pure (.done items)
  else throw (.malformed expected)

def parseParenList {α : Type} (element : CheckedM α) (expected : String) : CheckedM (List α) := do
  consumeByte usizeMax (byte '(')
  if ← tryConsumeByte usizeMax (byte ')') then pure []
  else loop (parenListStep usizeMax element expected) []

def parseParenAtomList : CheckedM (List Str) :=
  parseParenList usizeMax (parseFlagOrAtom usizeMax) "expected SP or ) in list"

def balancedStep (depth : ℕ) : CheckedM (Incremental.Flow ℕ Unit) := do
  if depth = 0 then pure (.done ())
  else do
    let c ← peek
    if c = byte '(' then do
      moveBy usizeMax 1
      -- `depth: u32`
      match checkedAdd (2 ^ 32 - 1) depth 1 with
      | some depth => pure (.again depth)
      | none => throw (.other "paren depth overflow")
    else if c = byte ')' then do
      moveBy usizeMax 1
      let depth ← diff depth 1
      pure (.again depth)
    else if c = byte '"' then do
      let _ ← parseQuoted usizeMax
      pure (.again depth)
    else if c = byte '{' then do
      let _ ← parseLiteral usizeMax
      pure (.again depth)
    else if c = CR ∨ c = LF then throw (.malformed "CR/LF inside parenthesised value")
    else do
      moveBy usizeMax 1
      pure (.again depth)

def parseBalancedParens : CheckedM Slice := do
  let start ← position
  consumeByte usizeMax (byte '(')
  loop (balancedStep usizeMax) 1
  let bytes ← sliceToPos start
  pure ⟨start, bytes⟩

def parseText : CheckedM Str := do
  let start ← position
  skipWhile usizeMax Parser.isTextChar
  scannedText start

def readUntilByte (terminator : UInt8) : CheckedM Str := do
  let start ← position
  scanUntil usizeMax (· == terminator) (.malformed "CR/LF before terminator")
  scannedText start

def parseNstringBytes : CheckedM Slice := do
  let c ← peek
  if c = byte '"' then do
    let start ← position
    let s ← parseQuoted usizeMax
    pure ⟨start + 1, s.bytes⟩
  else if c = byte '{' then parseLiteral usizeMax
  else do
    expectNil usizeMax
    -- `&self.input[self.pos..self.pos]`
    let start ← position
    let nothing ← sliceToPos start
    pure ⟨start, nothing⟩

def parseNstringBytesOptional : CheckedM (Option Slice) := do
  let c ← peek
  if c = byte '"' then do
    let start ← position
    let s ← parseQuoted usizeMax
    pure (some ⟨start + 1, s.bytes⟩)
  else if c = byte '{' then return some (← parseLiteral usizeMax)
  else do
    expectNil usizeMax
    pure none

/-! ### resp-text and response codes -/

def capabilityStep (caps : List Str) : CheckedM (Flow (List Str) (List Str)) := do
  if ← tryConsumeByte usizeMax SP then do
    let cap ← parseAtom usizeMax
    let caps ← pushItem caps cap
    pure (.again caps)
  else pure (.done caps)

def parseCapabilities : CheckedM (List Str) := loop (capabilityStep usizeMax) []

def parseCodeAtom : CheckedM Str := do
  let start ← position
  scanUntil usizeMax (fun c => c == byte ']' || c == SP) (.malformed "CR/LF inside response code")
  if ← isEof then throw .incomplete
  else if start = (← position) then throw (.malformed "empty response code")
  else toStr (← sliceToPos start)

def respTextCodeArgs (atom : Str) : CheckedM ResponseCode := do
  if atom.eqCi "ALERT" then pure .alert
  else if atom.eqCi "PARSE" then pure .parse
  else if atom.eqCi "READ-ONLY" then pure .readOnly
  else if atom.eqCi "READ-WRITE" then pure .readWrite
  else if atom.eqCi "TRYCREATE" then pure .tryCreate
  else if atom.eqCi "UIDNEXT" then do
    consumeSp usizeMax
    return .uidNext (← parseNumber usizeMax)
  else if atom.eqCi "UIDVALIDITY" then do
    consumeSp usizeMax
    return .uidValidity (← parseNumber usizeMax)
  else if atom.eqCi "UNSEEN" then do
    consumeSp usizeMax
    return .unseen (← parseNumber usizeMax)
  else if atom.eqCi "CAPABILITY" then return .capability (← parseCapabilities usizeMax)
  else if atom.eqCi "PERMANENTFLAGS" then do
    consumeSp usizeMax
    return .permanentFlags (← parseParenAtomList usizeMax)
  else if atom.eqCi "BADCHARSET" then do
    if ← tryConsumeByte usizeMax SP then return .badCharset (← parseParenAtomList usizeMax)
    else pure (.badCharset [])
  else do
    if ← tryConsumeByte usizeMax SP then
      return .other atom (some (← readUntilByte usizeMax (byte ']')))
    else pure (.other atom none)

def parseRespTextCode : CheckedM ResponseCode := do
  let atom ← parseCodeAtom usizeMax
  respTextCodeArgs usizeMax atom

def parseRespTextPrefix : CheckedM (Option ResponseCode) := do
  if ← tryConsumeByte usizeMax (byte '[') then do
    let c ← parseRespTextCode usizeMax
    consumeByte usizeMax (byte ']')
    let _ ← tryConsumeByte usizeMax SP
    pure (some c)
  else pure none

def parseRespText : CheckedM (Option ResponseCode × Str) := do
  let code ← parseRespTextPrefix usizeMax
  let text ← parseText usizeMax
  pure (code, text)

def parseRespTextAfterKeyword : CheckedM (Option ResponseCode × Str) := do
  if ← tryConsumeByte usizeMax SP then parseRespText usizeMax
  else pure (none, Str.empty)

def tryParseStatusKeyword : CheckedM (Option Status) := do
  if ← tryConsumeKeywordCi usizeMax (ascii "PREAUTH") then pure (some .preAuth)
  else if ← tryConsumeKeywordCi usizeMax (ascii "OK") then pure (some .ok)
  else if ← tryConsumeKeywordCi usizeMax (ascii "NO") then pure (some .no)
  else if ← tryConsumeKeywordCi usizeMax (ascii "BAD") then pure (some .bad)
  else if ← tryConsumeKeywordCi usizeMax (ascii "BYE") then pure (some .bye)
  else pure none

/-! ### FETCH attributes -/

def parseFetchAttName : CheckedM Str := do
  let start ← position
  skipWhile usizeMax Parser.isAttNameChar
  if ← isEof then throw .incomplete
  else if start = (← position) then throw (.malformed "expected FETCH att name")
  else toStr (← sliceToPos start)

def parseOrigin : CheckedM (Option UInt32) := do
  if ← tryConsumeByte usizeMax (byte '<') then do
    let n ← parseNumber usizeMax
    consumeByte usizeMax (byte '>')
    pure (some n)
  else pure none

def parseBodySection : CheckedM FetchAttribute := do
  let sect ← readUntilByte usizeMax (byte ']')
  consumeByte usizeMax (byte ']')
  let origin ← parseOrigin usizeMax
  consumeSp usizeMax
  let data ← parseNstringBytesOptional usizeMax
  pure (.bodySection (if sect.isEmpty then none else some sect) origin data)

def fetchAttValue (name : Str) : CheckedM FetchAttribute := do
  if name.eqCi "UID" then do
    consumeSp usizeMax
    return .uid (← parseNumber usizeMax)
  else if name.eqCi "FLAGS" then do
    consumeSp usizeMax
    return .flags (← parseParenAtomList usizeMax)
  else if name.eqCi "INTERNALDATE" then do
    consumeSp usizeMax
    return .internalDate (← parseQuoted usizeMax)
  else if name.eqCi "RFC822.SIZE" then do
    consumeSp usizeMax
    return .rfc822Size (← parseNumber usizeMax)
  else if name.eqCi "RFC822" then do
    consumeSp usizeMax
    return .rfc822 (← parseNstringBytes usizeMax)
  else if name.eqCi "RFC822.HEADER" then do
    consumeSp usizeMax
    return .rfc822Header (← parseNstringBytes usizeMax)
  else if name.eqCi "RFC822.TEXT" then do
    consumeSp usizeMax
    return .rfc822Text (← parseNstringBytes usizeMax)
  else if name.eqCi "ENVELOPE" then do
    consumeSp usizeMax
    return .envelope (← parseBalancedParens usizeMax)
  else if name.eqCi "BODYSTRUCTURE" then do
    consumeSp usizeMax
    return .bodyStructure (← parseBalancedParens usizeMax)
  else if name.eqCi "BODY" then do
    if ← tryConsumeByte usizeMax (byte '[') then parseBodySection usizeMax
    else do
      consumeSp usizeMax
      return .body (← parseBalancedParens usizeMax)
  else throw (.malformed "unknown FETCH attribute")

def parseOneFetchAtt : CheckedM FetchAttribute := do
  let name ← parseFetchAttName usizeMax
  fetchAttValue usizeMax name

def parseFetchMsgAtt : CheckedM (List FetchAttribute) :=
  parseParenList usizeMax (parseOneFetchAtt usizeMax) "expected SP or ) in FETCH atts"

/-! ### Data responses -/

def parseStatusItem : CheckedM StatusItem := do
  let key ← parseAtom usizeMax
  consumeSp usizeMax
  let value ← parseNumber usizeMax
  pure (Parser.statusItem key value)

def parseStatusItems : CheckedM (List StatusItem) :=
  parseParenList usizeMax (parseStatusItem usizeMax) "expected SP or ) in STATUS items"

def parseListLsubBody : CheckedM (List Str × Option Str × Str) := do
  let flags ← parseParenAtomList usizeMax
  consumeSp usizeMax
  let delimiter ← parseNstring usizeMax
  consumeSp usizeMax
  let name ← parseAstring usizeMax
  pure (flags, delimiter, name)

def searchStep (ids : List UInt32) : CheckedM (Flow (List UInt32) (List UInt32)) := do
  if ← tryConsumeByte usizeMax SP then do
    let n ← parseNumber usizeMax
    pure (.again (ids ++ [n]))
  else pure (.done ids)

def parseSearchIds : CheckedM (List UInt32) := loop (searchStep usizeMax) []

/-- `i >= 2 && &self.input[i - 2..i] == b"\r\n"`. -/
def atLineStart (i : ℕ) : CheckedM Bool := do
  if 2 ≤ i then do
    let j ← diff i 2
    let two ← slice j i
    return decide (two = CRLF)
  else pure false

/-- The backward scan, at most `fuel` rounds of it; a round that goes on has a smaller index. -/
def lineStartN : ℕ → ℕ → CheckedM ℕ
  | 0, _ => fail (.fault .spin)
  | fuel + 1, i => do
    if 0 < i then
      if ← atLineStart i then pure i
      else do
        let j ← diff i 1
        if j < i then lineStartN fuel j else fail (.fault .spin)
    else pure i

def findCurrentLineStart : CheckedM ℕ := do
  let pos ← position
  lineStartN (pos + 1) pos

/-- The raw line from `lineStart`, and its end. -/
def rawLine (lineStart : ℕ) : CheckedM Response := do
  skipWhile usizeMax Parser.isRawLineChar
  let line ← sliceToPos lineStart
  consumeCrlf usizeMax
  pure (.data (.other ⟨lineStart, line⟩))

def finishOtherDataWithPrefix : CheckedM Response := do
  let lineStart ← findCurrentLineStart
  rawLine usizeMax lineStart

def parseNumericDataResponse : CheckedM Response := do
  let n ← parseNumber usizeMax
  consumeSp usizeMax
  let kind ← parseAtom usizeMax
  if kind.eqCi "EXISTS" then do
    consumeCrlf usizeMax
    pure (.data (.exists n))
  else if kind.eqCi "RECENT" then do
    consumeCrlf usizeMax
    pure (.data (.recent n))
  else if kind.eqCi "EXPUNGE" then do
    consumeCrlf usizeMax
    pure (.data (.expunge n))
  else if kind.eqCi "FETCH" then do
    consumeSp usizeMax
    let attributes ← parseFetchMsgAtt usizeMax
    consumeCrlf usizeMax
    pure (.data (.fetch n attributes))
  else finishOtherDataWithPrefix usizeMax

def namedData (name : Str) : Option (CheckedM DataResponse) :=
  if name.eqCi "CAPABILITY" then some do
    return .capability (← parseCapabilities usizeMax)
  else if name.eqCi "LIST" then some do
    consumeSp usizeMax
    let (flags, delimiter, name) ← parseListLsubBody usizeMax
    return .list flags delimiter name
  else if name.eqCi "LSUB" then some do
    consumeSp usizeMax
    let (flags, delimiter, name) ← parseListLsubBody usizeMax
    return .lsub flags delimiter name
  else if name.eqCi "STATUS" then some do
    consumeSp usizeMax
    let mailbox ← parseAstring usizeMax
    consumeSp usizeMax
    let items ← parseStatusItems usizeMax
    return .status mailbox items
  else if name.eqCi "SEARCH" then some do
    return .search (← parseSearchIds usizeMax)
  else if name.eqCi "FLAGS" then some do
    consumeSp usizeMax
    return .flags (← parseParenAtomList usizeMax)
  else none

def parseNamedDataResponse : CheckedM Response := do
  let lineStart ← position
  let name ← parseAtom usizeMax
  match namedData usizeMax name with
  | some body => do
    let resp ← body
    consumeCrlf usizeMax
    pure (.data resp)
  | none => rawLine usizeMax lineStart

/-! ### Top-level dispatch -/

def parseContinueReq : CheckedM Response := do
  consumeByte usizeMax (byte '+')
  consumeSp usizeMax
  let (code, text) ← parseRespText usizeMax
  consumeCrlf usizeMax
  pure (.continue ⟨code, text⟩)

def finishStatus (tag : Option Str) (status : Status) : CheckedM Response := do
  let (code, text) ← parseRespTextAfterKeyword usizeMax
  consumeCrlf usizeMax
  pure (.status ⟨tag, status, code, text⟩)

def parseUntagged : CheckedM Response := do
  consumeByte usizeMax (byte '*')
  consumeSp usizeMax
  match ← tryParseStatusKeyword usizeMax with
  | some status => finishStatus usizeMax none status
  | none =>
    if isAsciiDigit (← peek) then parseNumericDataResponse usizeMax
    else parseNamedDataResponse usizeMax

/-- `kw[..bytes.len()]` for one keyword after the other. -/
def couldBeStatusKeywordPrefix (bytes : Bytes) : List Bytes → CheckedM Bool
  | [] => pure false
  | kw :: kws => do
    if bytes.length < kw.length then do
      let head ← sliceOf kw 0 bytes.length
      if (head.zip bytes).all fun p => byteEqCi p.1 p.2 then pure true
      else couldBeStatusKeywordPrefix bytes kws
    else couldBeStatusKeywordPrefix bytes kws

def parseTagged : CheckedM Response := do
  let tag ← parseTag usizeMax
  consumeSp usizeMax
  match ← tryParseStatusKeyword usizeMax with
  | some status => finishStatus usizeMax (some tag) status
  | none => do
    let rem ← remaining
    if ← couldBeStatusKeywordPrefix rem
        [ascii "OK", ascii "NO", ascii "BAD", ascii "BYE", ascii "PREAUTH"] then throw .incomplete
    else throw (.malformed "expected tagged status keyword")

def parseResponse : CheckedM Response := do
  if ← isEof then throw .incomplete
  else do
    let c ← peek
    if c = byte '+' then parseContinueReq usizeMax
    else if c = byte '*' then parseUntagged usizeMax
    else parseTagged usizeMax

end Checked

/-- `parse_response`, with every operation checked. -/
def checkedParseResponse (usizeMax : ℕ) (input : Bytes) :
    Except (Stop ParseError) (Bytes × Response) :=
  let parse : Checked.CheckedM (Bytes × Response) := do
    let response ← Checked.parseResponse usizeMax
    let remaining ← Checked.remaining
    pure (remaining, response)
  match parse (Parser.new input) with
  | .ok (result, _) => .ok result
  | .error e => .error e

end ImapRs
