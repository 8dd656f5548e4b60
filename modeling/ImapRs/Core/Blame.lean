import ImapRs.Core.Framing
import ImapRs.Incremental.Blames

/-!
# What the errors of the parser say

An error of `imap-core/src/error.rs` may name a byte offset, a length, a limit or a text. Here each
of them is what it should be: an offset is that of a byte of the buffer, a length is above the limit
it is held against, the limits are the two constants, and a text is one of those the parser is
written with. `ExpectedLiteral` and `UnexpectedEof` do not occur.

## Main definitions

* `parserTexts` — the texts the parser is written with
* `ParseError.Accurate` — what an error says is so

## Main results

* `parseResponse_blames` — every error of the parser is accurate
-/

namespace ImapRs

open Incremental

/-- The texts the parser is written with. -/
def parserTexts : List String :=
  ["Invalid UTF-8", "expected CR", "expected LF after CR", "expected nstring", "expected atom",
    "expected tag", "invalid escape in quoted string", "CR/LF inside quoted string",
    "NUL inside quoted string", "expected flag/atom", "expected SP or ) in list",
    "paren depth overflow", "CR/LF inside parenthesised value", "CR/LF before terminator",
    "CR/LF inside response code", "empty response code", "expected FETCH att name",
    "unknown FETCH attribute", "expected SP or ) in FETCH atts",
    "expected SP or ) in STATUS items", "expected tagged status keyword"]

/-- What an error says of the buffer `x` is so. -/
def ParseError.Accurate (x : Bytes) : ParseError → Prop
  | .incomplete | .invalidNumber => True
  | .invalidChar offset => offset < x.length
  | .expectedLiteral _ _ | .unexpectedEof => False
  | .literalTooLarge got max => max = MAX_LITERAL_SIZE ∧ max < got ∧ got < 2 ^ 32
  | .tooManyItems max => max = MAX_ITEMS_PER_RESPONSE
  | .malformed what | .other what => what ∈ parserTexts

namespace Parser

variable {lo : ℕ} {next : Option UInt8} {α : Type}

/-- A reader whose errors are accurate. -/
abbrev Sincere (lo : ℕ) (next : Option UInt8) (p : ParserM α) : Prop :=
  Blames ParseError.Accurate lo next p

theorem incomplete_accurate (x : Bytes) : ParseError.incomplete.Accurate x := trivial

theorem invalidNumber_accurate (x : Bytes) : ParseError.invalidNumber.Accurate x := trivial

/-- A text the parser is written with. -/
theorem malformed_accurate {what : String} (h : what ∈ parserTexts) (x : Bytes) :
    (ParseError.malformed what).Accurate x := h

/-! ### The cursor -/

theorem isEof_blames : Sincere lo next isEof where
  bounded := isEof_bounded
  allowed _ _ _ h := by cases h

theorem toStr_blames (bs : Bytes) : Sincere lo next (toStr bs) := by
  rw [toStr]
  cases fromUtf8 bs with
  | none => exact .fail fun _ => (by decide : "Invalid UTF-8" ∈ parserTexts)
  | some s => exact .pure s

theorem scannedText_blames (start : ℕ) : Sincere lo next (scannedText start) :=
  .bind isEof_blames fun _ => .ite (fun _ => .fail incomplete_accurate) fun _ =>
    .slice_bind fun bs => toStr_blames bs

theorem pushItem_blames (items : List α) (item : α) : Sincere lo next (pushItem items item) := by
  refine .bind (.charge fun b e h => ?_) fun _ => .pure _
  rw [chargeItem] at h
  split at h
  · cases h
    exact fun _ => rfl
  · cases h

theorem consumeByte_blames (b : UInt8) : Sincere lo next (consumeByte b) :=
  .peek_bind incomplete_accurate fun _ => .ite (fun _ => .advance) fun _ =>
    .position_fail fun _ _ h => h

theorem tryConsumeKeywordCi_blames (kw : Bytes) : Sincere lo next (tryConsumeKeywordCi kw) where
  bounded := tryConsumeKeywordCi_bounded kw
  allowed s e hs h := by
    rw [tryConsumeKeywordCi_run hs.valid] at h
    split at h <;> cases h

theorem consumeCrlf_blames : Sincere lo next consumeCrlf where
  bounded := consumeCrlf_bounded
  allowed s e hs h := by
    rw [consumeCrlf] at h
    rcases run_bind_eq_error h with hpeek | ⟨c, t, hpeek, hrest⟩
    · have hblames : Sincere lo next (peek >>= fun _ => pure ()) :=
        .peek_bind incomplete_accurate fun _ => .pure ()
      exact hblames.allowed hs (run_bind_error hpeek)
    · obtain ⟨-, rfl⟩ := peek_eq_ok hpeek
      split at hrest
      · cases hrest
        exact malformed_accurate (by decide) _
      · dsimp only at hrest
        split at hrest
        · split at hrest <;> cases hrest
          exact malformed_accurate (by decide) _
        · cases hrest
          exact incomplete_accurate _

theorem expectNil_blames : Sincere lo next expectNil where
  bounded := expectNil_bounded
  allowed s e hs h := by
    rw [expectNil] at h
    rcases run_bind_eq_error h with hkeyword | ⟨b, t, hkeyword, hrest⟩
    · exact (tryConsumeKeywordCi_blames _).allowed hs hkeyword
    · split at hrest
      · cases hrest
      · dsimp only at hrest
        split at hrest
        · cases hrest
          exact incomplete_accurate _
        · cases hrest
          exact malformed_accurate (by decide) _

/-! ### Tokens -/

/-- The characters of a word, and the check on what was scanned. -/
theorem word_blames (start : ℕ) (p : UInt8 → Bool) {what : String} (h : what ∈ parserTexts) :
    Sincere lo next (do
      skipWhile p
      if start = (← position) then
        if ← isEof then fail .incomplete else fail (.malformed what)
      else scannedText start) :=
  .bind (.skipWhile p) fun _ => .position_bind fun _ => .ite
    (fun _ => .bind isEof_blames fun _ => .ite (fun _ => .fail incomplete_accurate)
      fun _ => .fail (malformed_accurate h))
    fun _ => scannedText_blames start

theorem parseAtom_blames : Sincere lo next parseAtom :=
  .position_bind fun start => word_blames start isAtomChar (by decide)

theorem parseTag_blames : Sincere lo next parseTag :=
  .position_bind fun start => word_blames start isTagChar (by decide)

theorem parseNumber_blames : Sincere lo next parseNumber := by
  refine .position_bind fun start => .bind (.skipWhile _) fun _ => .position_bind fun _ => .ite
    (fun _ => .bind isEof_blames fun _ => .ite (fun _ => .fail incomplete_accurate)
      fun _ => .fail invalidNumber_accurate) fun _ => .slice_bind fun bs => ?_
  cases fromUtf8 bs with
  | none => exact .fail invalidNumber_accurate
  | some s =>
    dsimp only
    cases parseU32 s.bytes with
    | none => exact .fail invalidNumber_accurate
    | some n => exact .pure n

theorem quotedStep_blames (start : ℕ) (a : Unit) : Sincere start none (quotedStep start a) := by
  refine .peek_bind incomplete_accurate fun c => .ite (fun _ => ?_) fun _ => .ite (fun _ => ?_)
    fun _ => .ite (fun _ => .fail (malformed_accurate (by decide))) fun _ =>
      .ite (fun _ => .fail (malformed_accurate (by decide))) fun _ => ?_
  · refine .slice_bind fun bs => ?_
    rw [toStr]
    cases fromUtf8 bs with
    | none => exact .fail fun _ => (by decide : "Invalid UTF-8" ∈ parserTexts)
    | some s => exact .advance_bind (.pure _)
  · exact .advance_bind (.peek_bind incomplete_accurate fun d =>
      .ite (fun _ => .advance_bind (.pure _)) fun _ => .fail (malformed_accurate (by decide)))
  · exact .advance_bind (.pure _)

theorem parseQuoted_blames : Sincere lo next parseQuoted :=
  .bind (consumeByte_blames _) fun _ => .position_bind fun start =>
    .iterate (quotedStep_progress start) (quotedStep_blames start) ()

theorem parseLiteral_blames : Sincere lo next parseLiteral := by
  refine .position_bind fun brace => .bind (consumeByte_blames _) fun _ =>
    .bind parseNumber_blames fun n => .bind (consumeByte_blames _) fun _ =>
      .bind consumeCrlf_blames fun _ => .ite (fun hlarge => ?_) fun _ => ?_
  · exact .fail fun _ => ⟨rfl, hlarge, n.toNat_lt⟩
  · refine ⟨literalPayload_bounded _, fun s e _ h => ?_⟩
    rw [literalPayload] at h
    split at h
    · cases h
      exact incomplete_accurate _
    · cases h

theorem parseAstring_blames : Sincere lo next parseAstring :=
  .peek_bind incomplete_accurate fun _ => .ite (fun _ => parseQuoted_blames) fun _ =>
    .ite (fun _ => .bind parseLiteral_blames fun _ => toStr_blames _) fun _ => parseAtom_blames

theorem parseNstring_blames : Sincere lo next parseNstring :=
  .peek_bind incomplete_accurate fun _ =>
    .ite (fun _ => .bind parseQuoted_blames fun _ => .pure _) fun _ =>
      .ite (fun _ => .bind parseLiteral_blames fun _ => .bind (toStr_blames _) fun _ => .pure _)
        fun _ => .bind expectNil_blames fun _ => .pure _

theorem parseFlagOrAtom_blames : Sincere lo next parseFlagOrAtom := by
  have htail : ∀ start lo next, Sincere lo next (parseFlagOrAtom.flagTail start) := by
    intro start lo next
    rw [parseFlagOrAtom.flagTail]
    exact word_blames start isAtomChar (by decide)
  refine .position_bind fun start => .peek_bind incomplete_accurate fun _ =>
    .ite (fun _ => .advance_bind (.bind (.tryConsume _) fun _ => .ite (fun _ => ?_)
      fun _ => htail _ _ _)) fun _ => htail _ _ _
  exact .slice_bind fun bs => toStr_blames bs

theorem parseParenList_blames {element : ParserM α} {expected : String} {att : Bool}
    (h : Element att element) (hblames : ∀ lo, Sincere lo none element)
    (hexpected : expected ∈ parserTexts) : Sincere lo next (parseParenList element expected) := by
  refine .bind (consumeByte_blames _) fun _ => .bind (.tryConsume _) fun _ => .ite
    (fun _ => .pure _) fun _ => .iterate (parenListStep_progress h) (fun items => ?_) []
  refine .bind (hblames lo) fun item => .bind (pushItem_blames items item) fun items' =>
    .peek_bind incomplete_accurate fun c => .ite (fun _ => .advance_bind (.pure _)) fun _ =>
      .ite (fun _ => .advance_bind (.pure _)) fun _ => .fail (malformed_accurate hexpected)

theorem parseParenAtomList_blames : Sincere lo next parseParenAtomList :=
  parseParenList_blames (parseFlagOrAtom_element : Element false _)
    (fun _ => parseFlagOrAtom_blames) (by decide)

theorem balancedStep_blames (depth : ℕ) : Sincere lo none (balancedStep depth) := by
  refine .ite (fun _ => .pure _) fun _ => .peek_bind incomplete_accurate fun c => .ite (fun _ => ?_)
    fun _ => .ite (fun _ => .advance_bind (.pure _)) fun _ =>
      .ite (fun _ => .bind parseQuoted_blames fun _ => .pure _) fun _ =>
        .ite (fun _ => .bind parseLiteral_blames fun _ => .pure _) fun _ =>
          .ite (fun _ => .fail (malformed_accurate (by decide))) fun _ => .advance_bind (.pure _)
  exact .advance_bind (.ite (fun _ => .pure _)
    fun _ => .fail fun _ => (by decide : "paren depth overflow" ∈ parserTexts))

theorem parseBalancedParens_blames : Sincere lo next parseBalancedParens :=
  .position_bind fun _ => .bind (consumeByte_blames _) fun _ =>
    .bind (.iterate balancedStep_progress balancedStep_blames 1) fun _ =>
      .slice_bind fun _ => .pure _

theorem parseText_blames : Sincere lo next parseText :=
  .position_bind fun start => .bind (.skipWhile _) fun _ => scannedText_blames start

theorem scanUntil_blames (stop : UInt8 → Bool) {what : String} (h : what ∈ parserTexts) :
    Sincere lo next (scanUntil stop (.malformed what)) := by
  refine .bind (.skipWhile _) fun _ => ⟨fun s v t hs hok => ?_, fun s e _ herr => ?_⟩
  · split at hok
    · split at hok <;> cases hok
      exact .refl hs.valid
    · cases hok
      exact .refl hs.valid
  · split at herr
    · split at herr <;> cases herr
      exact malformed_accurate h _
    · cases herr

theorem readUntilByte_blames (terminator : UInt8) :
    Sincere lo next (readUntilByte terminator) :=
  .position_bind fun start => .bind (scanUntil_blames _ (by decide)) fun _ =>
    scannedText_blames start

theorem parseNstringBytes_blames : Sincere lo next parseNstringBytes :=
  .peek_bind incomplete_accurate fun _ =>
    .ite (fun _ => .position_bind fun _ => .bind parseQuoted_blames fun _ => .pure _) fun _ =>
      .ite (fun _ => parseLiteral_blames) fun _ => .bind expectNil_blames fun _ =>
        .position_bind fun _ => .pure _

theorem parseNstringBytesOptional_blames : Sincere lo next parseNstringBytesOptional :=
  .peek_bind incomplete_accurate fun _ =>
    .ite (fun _ => .position_bind fun _ => .bind parseQuoted_blames fun _ => .pure _) fun _ =>
      .ite (fun _ => .bind parseLiteral_blames fun _ => .pure _) fun _ =>
        .bind expectNil_blames fun _ => .pure _

/-! ### Response codes and text -/

theorem parseCapabilities_blames : Sincere lo none parseCapabilities := by
  refine .iterate capabilityStep_progress (fun caps => ?_) []
  exact .bind (.tryConsume _) fun _ => .ite
    (fun _ => .bind parseAtom_blames fun cap => .bind (pushItem_blames caps cap) fun _ => .pure _)
    fun _ => .pure _

theorem parseCodeAtom_blames : Sincere lo next parseCodeAtom :=
  .position_bind fun _ => .bind (scanUntil_blames _ (by decide)) fun _ => .bind isEof_blames
    fun _ => .ite (fun _ => .fail incomplete_accurate) fun _ => .position_bind fun _ =>
      .ite (fun _ => .fail (malformed_accurate (by decide))) fun _ =>
        .slice_bind fun bs => toStr_blames bs

/-- The argument of an attribute or a code: SP, then a value. -/
theorem arg_blames {β : Type} {p : ParserM α} (hp : ∀ lo, Sincere lo none p) (f : α → β) :
    Sincere lo next (do
      consumeSp
      let a ← p
      return f a) :=
  .bind (consumeByte_blames _) fun _ => .bind (hp _) fun _ => .pure _

theorem respTextCodeArgs_blames (atom : Str) : Sincere lo none (respTextCodeArgs atom) := by
  refine .ite (fun _ => .pure _) fun _ => .ite (fun _ => .pure _) fun _ => .ite (fun _ => .pure _)
    fun _ => .ite (fun _ => .pure _) fun _ => .ite (fun _ => .pure _) fun _ => ?_
  refine .ite (fun _ => arg_blames (fun _ => parseNumber_blames) _) fun _ =>
    .ite (fun _ => arg_blames (fun _ => parseNumber_blames) _) fun _ =>
      .ite (fun _ => arg_blames (fun _ => parseNumber_blames) _) fun _ =>
        .ite (fun _ => .bind parseCapabilities_blames fun _ => .pure _) fun _ => ?_
  refine .ite (fun _ => arg_blames (fun _ => parseParenAtomList_blames) _) fun _ =>
    .ite (fun _ => ?_) fun _ => ?_
  · exact .bind (.tryConsume _) fun _ =>
      .ite (fun _ => .bind parseParenAtomList_blames fun _ => .pure _) fun _ => .pure _
  · exact .bind (.tryConsume _) fun _ =>
      .ite (fun _ => .bind (readUntilByte_blames _) fun _ => .pure _) fun _ => .pure _

theorem parseRespText_blames : Sincere lo next parseRespText := by
  have hprefix : Sincere lo next parseRespTextPrefix :=
    .bind (.tryConsume _) fun _ => .ite (fun _ => .bind
      (.bind parseCodeAtom_blames fun atom => respTextCodeArgs_blames atom) fun _ =>
        .bind (consumeByte_blames _) fun _ => .bind (.tryConsume _) fun _ => .pure _)
      fun _ => .pure _
  exact .bind hprefix fun _ => .bind parseText_blames fun _ => .pure _

theorem tryParseStatusKeyword_blames : Sincere lo next tryParseStatusKeyword :=
  .bind (tryConsumeKeywordCi_blames _) fun _ => .ite (fun _ => .pure _) fun _ =>
  .bind (tryConsumeKeywordCi_blames _) fun _ => .ite (fun _ => .pure _) fun _ =>
  .bind (tryConsumeKeywordCi_blames _) fun _ => .ite (fun _ => .pure _) fun _ =>
  .bind (tryConsumeKeywordCi_blames _) fun _ => .ite (fun _ => .pure _) fun _ =>
  .bind (tryConsumeKeywordCi_blames _) fun _ => .ite (fun _ => .pure _) fun _ => .pure _

/-! ### Data responses -/

theorem parseFetchAttName_blames : Sincere lo next parseFetchAttName :=
  .position_bind fun _ => .bind (.skipWhile _) fun _ => .bind isEof_blames fun _ =>
    .ite (fun _ => .fail incomplete_accurate) fun _ => .position_bind fun _ =>
      .ite (fun _ => .fail (malformed_accurate (by decide))) fun _ =>
        .slice_bind fun bs => toStr_blames bs

theorem parseBodySection_blames : Sincere lo none parseBodySection := by
  have horigin : ∀ lo, Sincere lo none parseOrigin := fun lo =>
    .bind (.tryConsume _) fun _ => .ite (fun _ => .bind parseNumber_blames fun _ =>
      .bind (consumeByte_blames _) fun _ => .pure _) fun _ => .pure _
  exact .bind (readUntilByte_blames _) fun _ => .bind (consumeByte_blames _) fun _ =>
    .bind (horigin _) fun _ => .bind (consumeByte_blames _) fun _ =>
      .bind parseNstringBytesOptional_blames fun _ => .pure _

theorem fetchAttValue_blames (name : Str) : Sincere lo none (fetchAttValue name) := by
  refine .ite (fun _ => arg_blames (fun _ => parseNumber_blames) _) fun _ =>
    .ite (fun _ => arg_blames (fun _ => parseParenAtomList_blames) _) fun _ =>
    .ite (fun _ => arg_blames (fun _ => parseQuoted_blames) _) fun _ =>
    .ite (fun _ => arg_blames (fun _ => parseNumber_blames) _) fun _ =>
    .ite (fun _ => arg_blames (fun _ => parseNstringBytes_blames) _) fun _ =>
    .ite (fun _ => arg_blames (fun _ => parseNstringBytes_blames) _) fun _ =>
    .ite (fun _ => arg_blames (fun _ => parseNstringBytes_blames) _) fun _ =>
    .ite (fun _ => arg_blames (fun _ => parseBalancedParens_blames) _) fun _ =>
    .ite (fun _ => arg_blames (fun _ => parseBalancedParens_blames) _) fun _ =>
    .ite (fun _ => ?_) fun _ => .fail (malformed_accurate (by decide))
  exact .bind (.tryConsume _) fun _ => .ite (fun _ => parseBodySection_blames)
    fun _ => arg_blames (fun _ => parseBalancedParens_blames) _

theorem parseFetchMsgAtt_blames : Sincere lo next parseFetchMsgAtt :=
  parseParenList_blames parseOneFetchAtt_element
    (fun _ => .bind parseFetchAttName_blames fun name => fetchAttValue_blames name) (by decide)

theorem parseStatusItems_blames : Sincere lo next parseStatusItems :=
  parseParenList_blames (parseStatusItem_element : Element false _)
    (fun _ => .bind parseAtom_blames fun _ => .bind (consumeByte_blames _) fun _ =>
      .bind parseNumber_blames fun _ => .pure _) (by decide)

theorem parseListLsubBody_blames : Sincere lo next parseListLsubBody :=
  .bind parseParenAtomList_blames fun _ => .bind (consumeByte_blames _) fun _ =>
    .bind parseNstring_blames fun _ => .bind (consumeByte_blames _) fun _ =>
      .bind parseAstring_blames fun _ => .pure _

theorem parseSearchIds_blames : Sincere lo none parseSearchIds := by
  refine .iterate searchStep_progress (fun ids => ?_) []
  exact .bind (.tryConsume _) fun _ => .ite
    (fun _ => .bind parseNumber_blames fun _ => .pure _) fun _ => .pure _

theorem namedData_blames {name : Str} {body : ParserM DataResponse}
    (h : namedData name = some body) : Sincere lo none body := by
  have hlist : ∀ f : List Str × Option Str × Str → DataResponse, Sincere lo none (do
      consumeSp
      let r ← parseListLsubBody
      return f r) := fun f => arg_blames (fun _ => parseListLsubBody_blames) f
  rw [namedData] at h
  split at h
  · cases h
    exact .bind parseCapabilities_blames fun _ => .pure _
  split at h
  · cases h
    exact hlist fun r => .list r.1 r.2.1 r.2.2
  split at h
  · cases h
    exact hlist fun r => .lsub r.1 r.2.1 r.2.2
  split at h
  · cases h
    exact .bind (consumeByte_blames _) fun _ => .bind parseAstring_blames fun _ =>
      .bind (consumeByte_blames _) fun _ => .bind parseStatusItems_blames fun _ => .pure _
  split at h
  · cases h
    exact .bind parseSearchIds_blames fun _ => .pure _
  split at h
  · cases h
    exact arg_blames (fun _ => parseParenAtomList_blames) _
  · cases h

theorem line_blames (f : Bytes → Response) {start : ℕ} : Sincere lo next (do
    skipWhile isRawLineChar
    let line ← sliceFrom start
    consumeCrlf
    pure (f line)) :=
  .bind (.skipWhile _) fun _ => .slice_bind fun _ => .bind consumeCrlf_blames fun _ => .pure _

theorem finishOtherDataWithPrefix_blames : Sincere lo next finishOtherDataWithPrefix where
  bounded s _ _ hs h :=
    (line_blames fun line => .data (.other ⟨findCurrentLineStart s.input s.pos, line⟩)).bounded hs h
  allowed s _ hs h :=
    (line_blames fun line => .data (.other ⟨findCurrentLineStart s.input s.pos, line⟩)).allowed hs h

theorem crlf_blames (r : Response) : Sincere lo next (do
    consumeCrlf
    pure r) :=
  .bind consumeCrlf_blames fun _ => .pure r

theorem parseNumericDataResponse_blames : Sincere lo next parseNumericDataResponse :=
  .bind parseNumber_blames fun _ => .bind (consumeByte_blames _) fun _ =>
    .bind parseAtom_blames fun _ => .ite (fun _ => crlf_blames _) fun _ =>
      .ite (fun _ => crlf_blames _) fun _ => .ite (fun _ => crlf_blames _) fun _ =>
        .ite (fun _ => .bind (consumeByte_blames _) fun _ => .bind parseFetchMsgAtt_blames
          fun _ => crlf_blames _) fun _ => finishOtherDataWithPrefix_blames

theorem parseNamedDataResponse_blames : Sincere lo next parseNamedDataResponse := by
  refine .position_bind fun start => .bind parseAtom_blames fun name => ?_
  cases hbody : namedData name with
  | some body => exact .bind (namedData_blames hbody) fun _ => crlf_blames _
  | none => exact line_blames fun line => .data (.other ⟨start, line⟩)

/-! ### Top-level dispatch -/

theorem finishStatus_blames (tag : Option Str) (status : Status) :
    Sincere lo none (finishStatus tag status) := by
  have htext : Sincere lo none parseRespTextAfterKeyword :=
    .bind (.tryConsume _) fun _ => .ite (fun _ => parseRespText_blames) fun _ => .pure _
  exact .bind htext fun _ => crlf_blames _

theorem parseContinueReq_blames : Sincere lo next parseContinueReq :=
  .bind (consumeByte_blames _) fun _ => .bind (consumeByte_blames _) fun _ =>
    .bind parseRespText_blames fun _ => crlf_blames _

theorem parseUntagged_blames : Sincere lo next parseUntagged := by
  refine .bind (consumeByte_blames _) fun _ => .bind (consumeByte_blames _) fun _ =>
    .bind tryParseStatusKeyword_blames fun status => ?_
  cases status with
  | some status => exact finishStatus_blames none status
  | none =>
    exact .peek_bind incomplete_accurate fun _ =>
      .ite (fun _ => parseNumericDataResponse_blames) fun _ => parseNamedDataResponse_blames

theorem parseTagged_blames : Sincere lo next parseTagged := by
  refine .bind parseTag_blames fun tag => .bind (consumeByte_blames _) fun _ =>
    .bind tryParseStatusKeyword_blames fun status => ?_
  cases status with
  | some status => exact finishStatus_blames (some tag) status
  | none =>
    refine ⟨fun s v t _ h => ?_, fun s e _ h => ?_⟩
    · dsimp only at h
      split at h <;> cases h
    · dsimp only at h
      split at h <;> cases h
      · exact incomplete_accurate _
      · exact malformed_accurate (by decide) _

theorem parseResponse_sincere : Sincere lo next parseResponse :=
  .bind isEof_blames fun _ => .ite (fun _ => .fail incomplete_accurate) fun _ =>
    .peek_bind incomplete_accurate fun _ => .ite (fun _ => parseContinueReq_blames) fun _ =>
      .ite (fun _ => parseUntagged_blames) fun _ => parseTagged_blames

end Parser

/-- **The errors of the parser are accurate.** Whatever the bytes: an offset in an error is that of
one of them, a literal length in an error is above the limit named with it, the limits are those of
the parser, and every text is one the parser is written with. -/
theorem parseResponse_blames {data : Bytes} {e : ParseError} (h : parseResponse data = .error e) :
    e.Accurate data := by
  rw [parseResponse] at h
  have hs : (Parser.new data).Valid := Nat.zero_le _
  cases hrun : Parser.parseResponse (Parser.new data) with
  | ok r =>
    rw [hrun] at h
    cases h
  | error e' =>
    rw [hrun] at h
    cases h
    exact Parser.parseResponse_sincere.allowed (.zero hs) hrun

/-- The second byte of `*x`. -/
theorem parseResponse_blames_star :
    parseResponse (ascii "*x") = .error (.invalidChar 1) ∧
      (ParseError.invalidChar 1).Accurate (ascii "*x") := by
  have h : parseResponse (ascii "*x") = .error (.invalidChar 1) := by decide +kernel
  exact ⟨h, parseResponse_blames h⟩

end ImapRs
