import ImapRs.Storage.Buffer
import ImapRs.Client.Base64
import ImapRs.Client.Quoting

/-!
# The buffers that carry a secret

A password passes through four buffers on its way to the server: the quoted string, the `LOGIN`
command, the command line, and for `AUTHENTICATE PLAIN` the payload and its base64 line. All of them
are wiped when they are dropped, but a buffer that grows gives up an allocation that is not. So each
is made with a capacity computed beforehand, and the computation has to agree with what the code
then appends, character by character and group by group.

The functions are those of the source once more, over buffers: what is appended and in which order.
A string is never longer than the address space, so no length overflows.

## Main definitions

* `quoteBuffer`, `loginBuffer`, `lineBuffer`, `saslPlainBuffers` — the functions over buffers

## Main results

* `secretBuffers_exact` — every buffer is filled to its capacity and never moved
-/

namespace ImapRs

open Storage

variable {n : ℕ} {x : Bytes} {out : Buffer UInt8}

/-! ### The functions over buffers -/

/-- `String::push`: the bytes of one character. -/
def pushChar (al : Allocator) (out : Buffer UInt8) (c : Char) : Buffer UInt8 :=
  out.extend al (String.utf8EncodeChar c)

/-- One character of the loop of `wire::quote`. -/
def quoteRound (al : Allocator) (out : Buffer UInt8) (c : Char) : Buffer UInt8 :=
  let out := if c = '"' ∨ c = '\\' then pushChar al out '\\' else out
  pushChar al out c

/-- How many bytes of a text need an escape. -/
def escapes (text : Bytes) : ℕ := text.countP fun b => b == byte '"' || b == byte '\\'

/-- The opening and closing quote. -/
def QUOTES : ℕ := 2

/-- `wire::quote`. -/
def quoteBuffer (al : Allocator) (text : List Char) : Buffer UInt8 :=
  let bytes := encode text
  let out := Buffer.withCapacity al (bytes.length + escapes bytes + QUOTES)
  let out := pushChar al out '"'
  let out := text.foldl (quoteRound al) out
  pushChar al out '"'

/-- `login_command`. -/
def loginBuffer (al : Allocator) (userQ passQ : Str) : Buffer UInt8 :=
  let verb := ascii "LOGIN "
  let cmd := Buffer.withCapacity al (verb.length + userQ.bytes.length + 1 + passQ.bytes.length)
  let cmd := cmd.extend al verb
  let cmd := cmd.extend al userQ.bytes
  let cmd := pushChar al cmd ' '
  cmd.extend al passQ.bytes

/-- `command_line`. -/
def lineBuffer (al : Allocator) (tag cmd : Str) : Buffer UInt8 :=
  let line := Buffer.withCapacity al (tag.bytes.length + 1 + cmd.bytes.length + CRLF.length)
  let line := line.extend al tag.bytes
  let line := line.push al SP
  let line := line.extend al cmd.bytes
  line.extend al CRLF

/-- `base64::encode_into`: groups of three, then what is left. -/
def encodeIntoBuffer (al : Allocator) : Bytes → Buffer UInt8 → Buffer UInt8
  | a :: b :: c :: rest, out => encodeIntoBuffer al rest (out.extend al (Base64.encodeGroup a b c))
  | [a, b], out => out.extend al ((Base64.encodeGroup a b 0).take 3 ++ [Base64.PAD])
  | [a], out => out.extend al ((Base64.encodeGroup a 0 0).take 2 ++ [Base64.PAD, Base64.PAD])
  | [], out => out

/-- `sasl_plain_line`: the payload and the line. -/
def saslPlainBuffers (al : Allocator) (user pass : Str) : Buffer UInt8 × Buffer UInt8 :=
  let sasl := Buffer.withCapacity al (2 + user.bytes.length + pass.bytes.length)
  let sasl := sasl.push al 0
  let sasl := sasl.extend al user.bytes
  let sasl := sasl.push al 0
  let sasl := sasl.extend al pass.bytes
  let line := Buffer.withCapacity al (Base64.encodedLen sasl.contents.length + CRLF.length)
  let line := encodeIntoBuffer al sasl.contents line
  (sasl, line.extend al CRLF)

/-! ### What they hold -/

/-- Every escape is one byte more. -/
theorem length_escape (text : Bytes) : (escape text).length = text.length + escapes text := by
  induction text with
  | nil => rfl
  | cons b t ih =>
    rw [escape_cons, List.length_append, ih, escapes, escapes, List.countP_cons, escapeByte,
      List.length_cons]
    by_cases hb : b = byte '"' ∨ b = byte '\\'
    · rw [if_pos hb, if_pos (by simpa using hb)]
      simp only [List.length_cons, List.length_nil]
      omega
    · rw [if_neg hb, if_neg (by simpa using hb)]
      simp only [List.length_cons, List.length_nil]
      omega

theorem holds_quoteRound (al : Allocator) (h : Holds n x out) (c : Char)
    (hle : x.length + (encode (escapeChar c)).length ≤ n) :
    Holds n (x ++ encode (escapeChar c)) (quoteRound al out c) := by
  by_cases hc : c = '"' ∨ c = '\\'
  · rw [quoteRound, escapeChar, if_pos hc] at *
    rw [encode_cons, encode_cons, List.length_append, List.length_append] at hle
    rw [encode_cons, encode_cons, ← List.append_assoc, ← List.append_assoc]
    have hslash := h.extend al (String.utf8EncodeChar '\\') (by omega)
    have hchar := hslash.extend al (String.utf8EncodeChar c) (by
      rw [List.length_append]
      omega)
    rw [show encode [] = [] from rfl, List.append_nil, if_pos hc]
    exact hchar
  · rw [escapeChar, if_neg hc, encode_cons, show encode [] = [] from rfl, List.append_nil] at hle ⊢
    rw [quoteRound, if_neg hc]
    exact h.extend al _ hle

/-- The loop, by induction on the characters that are left. -/
theorem holds_quoteLoop (al : Allocator) (text : List Char) :
    ∀ {x : Bytes} {out : Buffer UInt8}, Holds n x out →
      x.length + (encode (text.flatMap escapeChar)).length ≤ n →
      Holds n (x ++ encode (text.flatMap escapeChar)) (text.foldl (quoteRound al) out) := by
  induction text with
  | nil =>
    intro x out h _
    rwa [List.flatMap_nil, show encode [] = [] from rfl, List.append_nil]
  | cons c text ih =>
    intro x out h hle
    rw [List.flatMap_cons, encode_append, List.length_append] at hle
    rw [List.flatMap_cons, encode_append, ← List.append_assoc]
    refine ih (holds_quoteRound al h c (by omega)) ?_
    rw [List.length_append]
    omega

theorem quoteBuffer_exact (al : Allocator) (text : List Char) :
    (quoteBuffer al text).Exact ∧ (quoteBuffer al text).contents = quote (encode text) := by
  have hquote : String.utf8EncodeChar '"' = [byte '"'] := utf8EncodeChar_ascii (by decide)
  have hlen := length_escape (encode text)
  rw [← encode_flatMap_escapeChar] at hlen
  have hopen := (Holds.withCapacity (τ := UInt8) al
    ((encode text).length + escapes (encode text) + QUOTES)).extend al
    (String.utf8EncodeChar '"') (by rw [hquote]; simp [QUOTES])
  have htext := holds_quoteLoop al text hopen (by
    rw [hlen, hquote]
    simp only [QUOTES, List.length_append, List.length_cons, List.length_nil]
    omega)
  have hclose := htext.extend al (String.utf8EncodeChar '"') (by
    rw [List.length_append, hlen, hquote]
    simp only [QUOTES, List.length_append, List.length_cons, List.length_nil]
    omega)
  refine ⟨hclose.exact ?_, ?_⟩
  · rw [List.length_append, List.length_append, hlen, hquote]
    simp only [QUOTES, List.length_append, List.length_cons, List.length_nil]
    omega
  · rw [show (quoteBuffer al text).contents = _ from hclose.contents_eq, hquote,
      encode_flatMap_escapeChar]
    rfl

theorem loginBuffer_exact (al : Allocator) (userQ passQ : Str) :
    (loginBuffer al userQ passQ).Exact ∧
      (loginBuffer al userQ passQ).contents = Session.loginCommand userQ.bytes passQ.bytes := by
  have hspace : String.utf8EncodeChar ' ' = [SP] := utf8EncodeChar_ascii (by decide)
  have hverb := (Holds.withCapacity (τ := UInt8) al
    ((ascii "LOGIN ").length + userQ.bytes.length + 1 + passQ.bytes.length)).extend al
    (ascii "LOGIN ") (by rw [List.length_nil]; omega)
  have huser := hverb.extend al userQ.bytes (by rw [List.nil_append]; omega)
  have hsep := huser.extend al (String.utf8EncodeChar ' ') (by
    rw [List.nil_append, List.length_append, hspace, List.length_singleton]
    omega)
  have hpass := hsep.extend al passQ.bytes (by
    rw [List.nil_append, List.length_append, List.length_append, hspace, List.length_singleton])
  refine ⟨hpass.exact ?_, ?_⟩
  · rw [List.nil_append, List.length_append, List.length_append, List.length_append, hspace,
      List.length_singleton]
  · rw [show (loginBuffer al userQ passQ).contents = _ from hpass.contents_eq, hspace]
    simp [Session.loginCommand]

theorem lineBuffer_exact (al : Allocator) (tag cmd : Str) :
    (lineBuffer al tag cmd).Exact ∧
      (lineBuffer al tag cmd).contents = commandLine tag.bytes cmd.bytes := by
  have htag := (Holds.withCapacity (τ := UInt8) al
    (tag.bytes.length + 1 + cmd.bytes.length + CRLF.length)).extend al tag.bytes
    (by rw [List.length_nil]; omega)
  have hsep := htag.push al SP (by rw [List.nil_append]; omega)
  have hcmd := hsep.extend al cmd.bytes (by
    rw [List.nil_append, List.length_append, List.length_singleton]
    omega)
  have hline := hcmd.extend al CRLF (by
    rw [List.nil_append, List.length_append, List.length_append, List.length_singleton])
  refine ⟨hline.exact ?_, ?_⟩
  · rw [List.nil_append, List.length_append, List.length_append, List.length_append,
      List.length_singleton]
  · rw [show (lineBuffer al tag cmd).contents = _ from hline.contents_eq]
    simp [commandLine]

/-- The encoder, by induction on its groups: each adds four bytes, the padded one too. -/
theorem holds_encodeIntoBuffer (al : Allocator) (input x : Bytes) :
    ∀ {out : Buffer UInt8}, Holds n x out → x.length + Base64.encodedLen input.length ≤ n →
      Holds n (Base64.encodeInto input x) (encodeIntoBuffer al input out) := by
  fun_induction Base64.encodeInto input x with
  | case1 a b c rest x ih =>
    intro out h hle
    have hgroup : (Base64.encodeGroup a b c).length = 4 := rfl
    simp only [Base64.encodedLen, Base64.INPUT_GROUP, Base64.OUTPUT_GROUP, List.length_cons]
      at hle ih
    refine ih (h.extend al _ (by omega)) ?_
    rw [List.length_append]
    omega
  | case2 a b x =>
    intro out h hle
    have hlast : ((Base64.encodeGroup a b 0).take 3 ++ [Base64.PAD]).length = 4 := rfl
    have htwo : Base64.encodedLen 2 = 4 := by decide
    exact h.extend al _ (by rw [hlast, ← htwo]; exact hle)
  | case3 a x =>
    intro out h hle
    have hlast : ((Base64.encodeGroup a 0 0).take 2 ++ [Base64.PAD, Base64.PAD]).length = 4 := rfl
    have hone : Base64.encodedLen 1 = 4 := by decide
    exact h.extend al _ (by rw [hlast, ← hone]; exact hle)
  | case4 x =>
    intro out h _
    exact h

theorem saslPlainBuffers_exact (al : Allocator) (user pass : Str) :
    (saslPlainBuffers al user pass).1.Exact ∧ (saslPlainBuffers al user pass).2.Exact ∧
      (saslPlainBuffers al user pass).1.contents = 0 :: (user.bytes ++ 0 :: pass.bytes) ∧
      (saslPlainBuffers al user pass).2.contents = Session.saslPlainLine user pass := by
  have hzero := (Holds.withCapacity (τ := UInt8) al
    (2 + user.bytes.length + pass.bytes.length)).push al 0 (by rw [List.length_nil]; omega)
  have huser := hzero.extend al user.bytes (by
    rw [List.nil_append, List.length_singleton]
    omega)
  have hsep := huser.push al 0 (by
    rw [List.nil_append, List.length_append, List.length_singleton]
    omega)
  have hpass := hsep.extend al pass.bytes (by
    rw [List.nil_append, List.length_append, List.length_append, List.length_singleton]
    omega)
  have hsasl : (saslPlainBuffers al user pass).1.contents
      = 0 :: (user.bytes ++ 0 :: pass.bytes) := by
    rw [show (saslPlainBuffers al user pass).1.contents = _ from hpass.contents_eq]
    simp
  have hencoded := holds_encodeIntoBuffer al (saslPlainBuffers al user pass).1.contents []
    (Holds.withCapacity al (Base64.encodedLen (saslPlainBuffers al user pass).1.contents.length
      + CRLF.length)) (by rw [List.length_nil]; omega)
  rw [Base64.encodeInto_eq, List.nil_append] at hencoded
  have hline := hencoded.extend al CRLF (by rw [Base64.length_base64Encode])
  refine ⟨hpass.exact ?_, hline.exact ?_, hsasl, ?_⟩
  · simp only [List.nil_append, List.length_append, List.length_singleton]
    omega
  · rw [List.length_append, Base64.length_base64Encode]
  · rw [show (saslPlainBuffers al user pass).2.contents = _ from hline.contents_eq, hsasl,
      Session.saslPlainLine]

/-! ### Main result -/

/-- **No buffer that carries a secret ever grows.** Whatever the texts and whatever the allocator
hands out beyond what is asked for, each of the functions fills the buffer it makes exactly, never
goes above what it reserved on the way, leaves no copy behind, and returns what it should. -/
theorem secretBuffers_exact (al : Allocator) :
    (∀ text : List Char, (quoteBuffer al text).Exact ∧
      (quoteBuffer al text).contents = quote (encode text)) ∧
    (∀ userQ passQ : Str, (loginBuffer al userQ passQ).Exact ∧
      (loginBuffer al userQ passQ).contents = Session.loginCommand userQ.bytes passQ.bytes) ∧
    (∀ tag cmd : Str, (lineBuffer al tag cmd).Exact ∧
      (lineBuffer al tag cmd).contents = commandLine tag.bytes cmd.bytes) ∧
    ∀ user pass : Str, (saslPlainBuffers al user pass).1.Exact ∧
      (saslPlainBuffers al user pass).2.Exact ∧
      (saslPlainBuffers al user pass).1.contents = 0 :: (user.bytes ++ 0 :: pass.bytes) ∧
      (saslPlainBuffers al user pass).2.contents = Session.saslPlainLine user pass :=
  ⟨quoteBuffer_exact al, loginBuffer_exact al, lineBuffer_exact al, saslPlainBuffers_exact al⟩

end ImapRs
