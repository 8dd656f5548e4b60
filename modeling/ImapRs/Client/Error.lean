import ImapRs.Core.Ast

/-!
# Errors of the client

A translation of `imap-client/src/error.rs`. Text from the server that ends up in an error goes
through `ClientError.ofCommandFailed` (`ClientError::command_failed`), which cuts it and replaces
what is unsafe to display.
-/

namespace ImapRs

/-- `str::chars`: the scalar values a text encodes. -/
def utf8Chars : Bytes → List Char
  | [] => []
  | a :: t =>
    if a < 0x80 then .ofNat a.toNat :: utf8Chars t
    else if a < 0xE0 then
      match t with
      | b :: t => .ofNat (a.toNat % 32 * 64 + b.toNat % 64) :: utf8Chars t
      | _ => []
    else if a < 0xF0 then
      match t with
      | b :: c :: t =>
        .ofNat ((a.toNat % 16 * 64 + b.toNat % 64) * 64 + c.toNat % 64) :: utf8Chars t
      | _ => []
    else
      match t with
      | b :: c :: d :: t =>
        .ofNat (((a.toNat % 8 * 64 + b.toNat % 64) * 64 + c.toNat % 64) * 64 + d.toNat % 64)
          :: utf8Chars t
      | _ => []

/-- `str::chars`. -/
def Str.chars (s : Str) : List Char := utf8Chars s.bytes

/-- The errors of the client. -/
inductive ClientError where
  /-- An underlying socket I/O error. -/
  | io
  /-- A server response could not be parsed. -/
  | parse (e : ParseError)
  /-- The connection was closed before the operation completed. -/
  | connectionClosed
  /-- A single response frame exceeded the client's in-flight size cap. -/
  | frameTooLarge (max : ℕ)
  /-- The server returned a tagged `NO` / `BAD`; the text is its resp-text, made safe. -/
  | commandFailed (text : List Char)
  /-- A command required a capability the server did not advertise. -/
  | unsupportedCapability (name : String)
  /-- The command did not receive its tagged response within the timeout. -/
  | timeout
  /-- A caller-supplied argument cannot be sent safely. -/
  | invalidArgument (what : String)
  deriving DecidableEq, Repr

/-- Longest server-supplied text kept in an error, in characters. -/
def MAX_SERVER_TEXT_CHARS : ℕ := 512

/-- Stand-in for a character that is unsafe to display. -/
def REPLACEMENT : Char := '\uFFFD'

/-- Whether `c` can change how surrounding text is rendered: controls, separators and bidirectional
formatting. -/
def isUnsafeToDisplay (c : Char) : Bool :=
  let n := c.toNat
  -- `char::is_control` is the category Cc
  n ≤ 0x1F || 0x7F ≤ n && n ≤ 0x9F || n == 0x061C || n == 0x200E || n == 0x200F ||
    n == 0x2028 || n == 0x2029 || 0x202A ≤ n && n ≤ 0x202E || 0x2066 ≤ n && n ≤ 0x2069

/-- `ClientError::command_failed`, of the characters of its argument. -/
def ClientError.ofChars (chars : List Char) : ClientError :=
  let safe := (chars.take MAX_SERVER_TEXT_CHARS).map fun c =>
    if isUnsafeToDisplay c then REPLACEMENT else c
  if MAX_SERVER_TEXT_CHARS < chars.length then .commandFailed (safe ++ ['…'])
  else .commandFailed safe

/-- `ClientError::command_failed` of a text as the server sent it. -/
def ClientError.ofCommandFailed (text : Str) : ClientError := .ofChars text.chars

end ImapRs
