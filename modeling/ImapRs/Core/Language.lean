import ImapRs.Core.Accepted

/-!
# The language of the parser

Which bytes the parser takes for which response, over the whole format. A renderer that keeps to the
grammar writes one of the renderings; a server may also leave out the space between a response code
and its text, stop after a status keyword, and send message data in the other forms of an nstring.
Beside these there are only the lines that the parser does not know and keeps as they stand.

With both directions, what is accepted is well formed and can be written down again: rendering what
was parsed, and parsing that, gives the same response.

## Main definitions

* `Accepted` — a response, and the bytes the parser takes for it

## Main results

* `accepted_of_parseResponse`, `parseResponse_of_accepted` — the language
* `parseResponse_language` — both, for the parser as a whole
* `parseResponse_normal` — what was parsed can be written down again
-/

namespace ImapRs

open Incremental Incremental.Cursor

/-- The text of a response. The space behind a code may be missing. -/
inductive AcceptedText : Option ResponseCode → Str → Bytes → Prop
  | rendered {code : Option ResponseCode} {text : Str} {x : Bytes} : RendersText code text x →
      AcceptedText code text x
  | joined {code : ResponseCode} {text : Str} {x : Bytes} : RendersCode code x →
      IsText text.bytes → text.bytes.head? ≠ some SP →
      AcceptedText (some code) text (byte '[' :: (x ++ byte ']' :: text.bytes))

/-- What follows a status keyword: nothing, or a space and the text. -/
inductive AcceptedEnding : Option ResponseCode → Str → Bytes → Prop
  | bare : AcceptedEnding none Str.empty []
  | text {code : Option ResponseCode} {text : Str} {x : Bytes} : AcceptedText code text x →
      AcceptedEnding code text (SP :: x)

/-- The bytes are taken for the response. -/
inductive Accepted : Response → Bytes → Prop
  | continue {code : Option ResponseCode} {text : Str} {x : Bytes} : AcceptedText code text x →
      Accepted (.continue ⟨code, text⟩) (byte '+' :: SP :: (x ++ CRLF))
  | untagged {status : Status} {code : Option ResponseCode} {text : Str} {x y : Bytes} :
      Spells status.name x → AcceptedEnding code text y →
      Accepted (.status ⟨none, status, code, text⟩) (byte '*' :: SP :: (x ++ (y ++ CRLF)))
  | tagged {tag : Str} {status : Status} {code : Option ResponseCode} {text : Str} {x y : Bytes} :
      IsTag tag.bytes → Spells status.name x → AcceptedEnding code text y →
      Accepted (.status ⟨some tag, status, code, text⟩) (tag.bytes ++ SP :: (x ++ (y ++ CRLF)))
  | data {d : DataResponse} {x : Bytes} : RendersData d x →
      Accepted (.data d) (byte '*' :: SP :: (x ++ CRLF))
  | fetch {n : UInt32} {attributes : List FetchAttribute} {x : Bytes} :
      AcceptedFetch n attributes x → Accepted (.data (.fetch n attributes)) x

/-- A line that the parser does not know. -/
def Response.IsRaw (r : Response) : Prop := ∃ line, r = .data (.other line)

namespace Parser

variable {next : Option UInt8} {α β : Type} {x y : Bytes}

/-! ### Tokens -/

/-- After a byte that is not there, the rest starts with another. -/
theorem try_bind_accepts {c : UInt8} {f : Bool → ParserM β} {S : β → Bytes → Prop}
    (h : Accepts none (f true) fun b y => S b (c :: y))
    (h' : ∀ ⦃s v t⦄, s.Valid → s.rest.head? ≠ some c → f false s = .ok (v, t) →
      t.Valid ∧ ∃ x, s.rest = x ++ t.rest ∧ S v x) :
    Accepts next (tryConsumeByte c >>= f) S := by
  intro s v t hs hrun
  rw [run_tryConsume_bind] at hrun
  split at hrun
  next hc => exact Accepts.advance_bind (f := fun _ => f true) h (hs.see hc) hrun
  next hc =>
    refine h' hs.valid ?_ hrun
    rwa [Cursor.rest, List.head?_drop]

theorem text_accepts : Accepts next parseText (Verbatim IsText) := by
  rw [parseText_eq]
  refine Accepts.token.mono ?_
  rintro s x ⟨hall, next, hs⟩
  cases next with
  | none => cases hs
  | some c =>
    have hx := utf8Verdict_bytes hs
    refine ⟨fun b hb => ?_, hx.symm⟩
    have hb := hall b (hx ▸ hb)
    simpa [isTextChar] using hb

/-- Text takes the rest of the line, so it starts where the rest does. -/
theorem text_head {s t : Parser} {v : Str} {c : UInt8} (hs : s.Valid)
    (h : parseText s = .ok (v, t)) (hc : s.rest.head? ≠ some c) :
    t.Valid ∧ s.rest = v.bytes ++ t.rest ∧ IsText v.bytes ∧ v.bytes.head? ≠ some c := by
  obtain ⟨ht, _, hrest, htext, rfl⟩ := text_accepts (Meets.zero hs) h
  refine ⟨ht, hrest, htext, fun hhead => hc ?_⟩
  rw [hrest, List.head?_append, hhead]
  rfl

theorem toStr_accepts {bs : Bytes} :
    Accepts next (toStr bs) fun s x => s.bytes = bs ∧ x = [] := by
  intro s v t hs h
  obtain ⟨hv, rfl⟩ := toStr_eq_ok h
  exact ⟨hs.valid, [], rfl, hv, rfl⟩

/-- A literal that is text. -/
theorem literalText_accepts {f : Str → β} {S : β → Bytes → Prop}
    (h : ∀ s x, RendersLiteral s.bytes x → S (f s) x) :
    Accepts next (parseLiteral >>= fun data => toStr data.bytes >>= fun s => pure (f s)) S := by
  refine literal_accepts.bind fun data x hx => toStr_accepts.map ?_
  rintro s _ ⟨hs, rfl⟩
  rw [List.append_nil]
  exact h s x (hs ▸ hx)

theorem astring_accepts : Accepts next parseAstring RendersAstring := by
  rw [parseAstring]
  refine .peek_bind fun c => .ite (fun _ => ?_) fun _ => .ite (fun _ => ?_) fun _ => ?_
  · exact quoted_accepts.mono fun _ _ h => .quoted h
  · have hread := @literalText_accepts (some c) _ id RendersAstring
      fun _ _ h => .literal h
    simpa using hread
  · exact atom_accepts.mono fun s x h => h.2 ▸ .atom h.1

theorem nstring_accepts : Accepts next parseNstring RendersNstring := by
  rw [parseNstring]
  refine .peek_bind fun c => .ite (fun _ => ?_) fun _ => .ite (fun _ => ?_) fun _ => ?_
  · exact quoted_accepts.map fun _ _ h => .quoted h
  · exact literalText_accepts fun _ _ h => .literal h
  · exact nil_accepts.map fun _ _ h => .nil h

theorem tag_accepts : Accepts next parseTag
    (Verbatim fun w => w ≠ [] ∧ ∀ b ∈ w, b ≠ SP ∧ b ≠ CR ∧ b ≠ LF) := by
  rw [parseTag_eq]
  refine word_accepts.mono ?_
  rintro s x ⟨⟨hne, hall⟩, hx⟩
  refine ⟨⟨hne, fun b hb => ?_⟩, hx⟩
  have hb := hall b hb
  simpa [isTagChar, and_assoc] using hb

theorem crlf_accepts : Accepts next consumeCrlf fun _ x => x = CRLF := by
  intro s v t hs h
  exact ⟨(consumeCrlf_bounded hs h).valid, CRLF, consumeCrlf_rest h, rfl⟩

/-- A keyword that is there is what the rest starts with. -/
theorem spells_of_keywordAt {name : String} {l : Bytes} (h : keywordAt l (ascii name) = true) :
    Spells name (l.take (ascii name).length) := by
  have hlen : (l.take (ascii name).length).length = (ascii name).length :=
    List.length_take_of_le (length_le_of_keywordAt h)
  simp only [keywordAt, Bool.and_eq_true] at h
  show ((l.take (ascii name).length).length == (ascii name).length &&
    agreesCi (l.take (ascii name).length) (ascii name)) = true
  rw [agreesCi_take, h.1.2, hlen, beq_self_eq_true]
  rfl

theorem statusKeywords_named : ∀ k ∈ statusKeywords, k.2 = ascii k.1.name := by
  decide +kernel

/-- A status keyword, or nothing. -/
theorem statusKeyword_accepts : Accepts next tryParseStatusKeyword fun o x =>
    (∃ status, o = some status ∧ Spells status.name x) ∨ o = none ∧ x = [] := by
  intro s v t hs h
  rw [tryParseStatusKeyword_run hs.valid] at h
  split at h
  next k hk =>
    cases h
    have hkey := keywordAt_of_statusKeywordAt hk
    have hle := length_le_of_keywordAt hkey
    rw [statusKeywords_named k (List.mem_of_find?_eq_some hk)] at hkey hle ⊢
    refine ⟨?_, s.rest.take (ascii k.1.name).length, ?_, .inl ⟨k.1, rfl, spells_of_keywordAt hkey⟩⟩
    · rw [s.length_rest] at hle
      show s.pos + _ ≤ s.input.length
      have := hs.valid
      rw [Cursor.Valid] at this
      omega
    · rw [rest_add, List.take_append_drop]
  · cases h
    exact ⟨hs.valid, [], rfl, .inr ⟨rfl, rfl⟩⟩

/-! ### Lists without parentheses -/

/-- Elements with a space in front of each, as long as there is a space. -/
theorem spacedLoop_accepts {R : α → Bytes → Prop} {step : List α → ParserM (Flow (List α) (List α))}
    (hb : ∀ l, Bounded 0 none (step l)) (hp : Progress 0 step)
    (hstep : ∀ l, Accepts none (step l) fun v x =>
      (∃ a y, R a y ∧ v = .again (l ++ [a]) ∧ x = SP :: y) ∨ v = .done l ∧ x = []) :
    Accepts next (iterate .unexpectedEof step []) (Spaced R) := by
  refine (Accepts.iterate (R := fun l l' x => ∃ m, l' = l ++ m ∧ Spaced R m x) hb hp
    (fun l => ?_) (fun l => ?_) []).mono ?_
  · refine (hstep l).mono ?_
    rintro v x (⟨a, y, ha, rfl, rfl⟩ | ⟨rfl, -⟩) l' hl'
    · obtain rfl := Flow.again.inj hl'
      rintro _ z ⟨m, rfl, hm⟩
      exact ⟨a :: m, by simp, .cons ha hm⟩
    · cases hl'
  · refine (hstep l).mono ?_
    rintro v x (⟨a, y, -, rfl, -⟩ | ⟨rfl, rfl⟩) l' hl'
    · cases hl'
    · obtain rfl := Flow.done.inj hl'
      exact ⟨[], by simp, .nil⟩
  · rintro _ x ⟨m, rfl, hm⟩
    exact hm

theorem capabilities_accepts : Accepts next parseCapabilities (Spaced (Verbatim IsAtom)) := by
  refine spacedLoop_accepts (fun caps => ?_) capabilityStep_progress fun caps => ?_
  · exact ((@capabilityStep_assembled 0 false caps).lawful (kit_sound false)).bounded
  · rw [capabilityStep_eq]
    refine .try_bind ?_ (.pure (.inr ⟨rfl, rfl⟩))
    refine atom_accepts.bind fun cap x hx => .charge_bind (.pure (.inl ⟨cap, x, hx, rfl, ?_⟩))
    rw [List.append_nil]

theorem searchIds_accepts : Accepts next parseSearchIds (Spaced Decimal) := by
  refine spacedLoop_accepts (fun ids => ?_) searchStep_progress fun ids => ?_
  · exact ((@searchStep_assembled 0 false ids).lawful (kit_sound false)).bounded
  · rw [searchStep]
    refine .try_bind ?_ (.pure (.inr ⟨rfl, rfl⟩))
    exact number_accepts.map fun n x hx => .inl ⟨n, x, hx, rfl, rfl⟩

/-! ### Response codes and text -/

theorem codeAtom_accepts : Accepts next parseCodeAtom
    (Verbatim fun w => w ≠ [] ∧ ∀ b ∈ w, b ≠ byte ']' ∧ b ≠ SP ∧ b ≠ CR ∧ b ≠ LF) := by
  rw [parseCodeAtom_eq]
  refine Accepts.token.mono ?_
  rintro s x ⟨hall, next, hs⟩
  cases next with
  | none => cases hs
  | some c =>
    rw [codeVerdict] at hs
    split at hs
    · split at hs
      · cases hs
      next hne =>
        have hx := utf8Verdict_bytes hs
        refine ⟨⟨by rwa [hx], fun b hb => ?_⟩, hx.symm⟩
        have hb := hall b (hx ▸ hb)
        simpa [not_or, and_assoc] using hb
    · cases hs

/-- What a code name selects. -/
theorem codeArgs_accepts (name : Str)
    (hname : name.bytes ≠ [] ∧ ∀ b ∈ name.bytes, b ≠ byte ']' ∧ b ≠ SP ∧ b ≠ CR ∧ b ≠ LF) :
    Accepts next (respTextCodeArgs name) fun code y => RendersCode code (name.bytes ++ y) := by
  rw [respTextCodeArgs]
  refine .ite (fun h => ?_) fun h₁ => .ite (fun h => ?_) fun h₂ => .ite (fun h => ?_) fun h₃ =>
    .ite (fun h => ?_) fun h₄ => .ite (fun h => ?_) fun h₅ => .ite (fun h => ?_) fun h₆ =>
    .ite (fun h => ?_) fun h₇ => .ite (fun h => ?_) fun h₈ => .ite (fun h => ?_) fun h₉ =>
    .ite (fun h => ?_) fun h₁₀ => .ite (fun h => ?_) fun h₁₁ => ?_
  · exact .pure (by rw [List.append_nil]; exact .alert h)
  · exact .pure (by rw [List.append_nil]; exact .parse h)
  · exact .pure (by rw [List.append_nil]; exact .readOnly h)
  · exact .pure (by rw [List.append_nil]; exact .readWrite h)
  · exact .pure (by rw [List.append_nil]; exact .tryCreate h)
  · exact spacedValue_accepts number_accepts fun n y hn => .uidNext h hn
  · exact spacedValue_accepts number_accepts fun n y hn => .uidValidity h hn
  · exact spacedValue_accepts number_accepts fun n y hn => .unseen h hn
  · exact capabilities_accepts.map fun caps y hy => .capability h hy
  · exact spacedValue_accepts flags_accepts fun l y hl => .permanentFlags h hl
  · refine .try_bind (flags_accepts.map fun l y hl => .badCharset h hl) (.pure ?_)
    rw [List.append_nil]
    exact .badCharsetNone h
  · have hknown : IsCodeName name := by
      refine ⟨hname.1, hname.2, ?_⟩
      simp only [codeNames, List.forall_mem_cons, ← Bool.not_eq_true]
      exact ⟨h₁, h₂, h₃, h₄, h₅, h₆, h₇, h₈, h₉, h₁₀, h₁₁, by simp⟩
    refine .try_bind (bracketed_accepts.map ?_) (.pure ?_)
    · rintro extra _ ⟨hextra, rfl⟩
      exact .otherWith hknown hextra
    · rw [List.append_nil]
      exact .other hknown

theorem code_accepts : Accepts next parseRespTextCode RendersCode := by
  rw [parseRespTextCode]
  refine codeAtom_accepts.bind ?_
  rintro name _ ⟨hname, rfl⟩
  exact codeArgs_accepts name hname

/-- **The text of a response.** -/
theorem respText_accepts :
    Accepts next parseRespText fun v x => AcceptedText v.1 v.2 x := by
  have hcode : Accepts none (parseRespTextCode >>= fun code => consumeByte (byte ']') >>= fun _ =>
      tryConsumeByte SP >>= fun _ => parseText >>= fun text => pure (some code, text))
      fun v x => AcceptedText v.1 v.2 (byte '[' :: x) := by
    refine code_accepts.bind fun code x hx => byte_bind_accepts (try_bind_accepts ?_ ?_)
    · refine text_accepts.map ?_
      rintro text _ ⟨htext, rfl⟩
      exact .rendered (.coded hx htext)
    · intro s v t hs hhead hrun
      obtain ⟨text, u, htext, hrun⟩ := run_bind_eq_ok hrun
      cases hrun
      obtain ⟨hu, hrest, htext, hsp⟩ := text_head hs htext hhead
      exact ⟨hu, text.bytes, hrest, .joined hx htext hsp⟩
  rw [parseRespText, parseRespTextPrefix]
  simp only [bind_assoc]
  refine try_bind_accepts ?_ ?_
  · simpa [bind_assoc] using hcode
  · intro s v t hs hhead hrun
    obtain ⟨code, u, hcode, hrun⟩ := run_bind_eq_ok hrun
    cases hcode
    obtain ⟨text, u, htext, hrun⟩ := run_bind_eq_ok hrun
    cases hrun
    obtain ⟨hu, hrest, htext, hbracket⟩ := text_head hs htext hhead
    exact ⟨hu, text.bytes, hrest, .rendered (.plain htext hbracket)⟩

/-- What follows a status keyword. -/
theorem ending_accepts : Accepts next parseRespTextAfterKeyword
    fun v x => AcceptedEnding v.1 v.2 x := by
  rw [parseRespTextAfterKeyword]
  exact .try_bind (respText_accepts.mono fun _ _ h => .text h) (.pure .bare)

theorem finishStatus_accepts {tag : Option Str} {status : Status} :
    Accepts next (finishStatus tag status) fun r x => ∃ code text y,
      r = .status ⟨tag, status, code, text⟩ ∧ AcceptedEnding code text y ∧ x = y ++ CRLF := by
  rw [finishStatus]
  refine ending_accepts.bind fun v y hy => crlf_accepts.map ?_
  rintro _ _ rfl
  exact ⟨v.1, v.2, y, rfl, hy, rfl⟩

/-! ### Data responses -/

theorem statusItem_renders {key : Str} {n : UInt32} (hkey : IsAtom key.bytes) (hn : Decimal n y) :
    RendersItem (statusItem key n) (key.bytes ++ SP :: y) := by
  rw [statusItem]
  split
  next h => exact .messages h hn
  next h₁ =>
    split
    next h => exact .recent h hn
    next h₂ =>
      split
      next h => exact .uidNext h hn
      next h₃ =>
        split
        next h => exact .uidValidity h hn
        next h₄ =>
          split
          next h => exact .unseen h hn
          next h₅ =>
            refine .other hkey ?_ hn
            simp only [itemNames, List.forall_mem_cons, ← Bool.not_eq_true]
            exact ⟨h₁, h₂, h₃, h₄, h₅, by simp⟩

theorem item_accepts : Accepts next parseStatusItem RendersItem := by
  rw [parseStatusItem]
  refine atom_accepts.bind ?_
  rintro key _ ⟨hkey, rfl⟩
  exact spacedValue_accepts number_accepts fun n y hn => statusItem_renders hkey hn

theorem listing_accepts : Accepts next parseListLsubBody
    fun v x => RendersListing v.1 v.2.1 v.2.2 x := by
  rw [parseListLsubBody]
  refine flags_accepts.bind fun flags x hx => byte_bind_accepts (nstring_accepts.bind
    fun delimiter y hy => byte_bind_accepts (astring_accepts.map fun name z hz => ?_))
  exact .mk hx hy hz

theorem namedData_accepts {name : Str} {body : ParserM DataResponse}
    (h : namedData name = some body) :
    Accepts next body fun d y => RendersData d (name.bytes ++ y) := by
  rw [namedData] at h
  split at h
  next hname =>
    cases h
    exact capabilities_accepts.map fun caps y hy => .capability hname hy
  split at h
  next hname =>
    cases h
    exact byte_bind_accepts (listing_accepts.map fun v y hy => .list hname hy)
  split at h
  next hname =>
    cases h
    exact byte_bind_accepts (listing_accepts.map fun v y hy => .lsub hname hy)
  split at h
  next hname =>
    cases h
    refine byte_bind_accepts (astring_accepts.bind fun mailbox x hx => byte_bind_accepts ?_)
    have helement : Element false parseStatusItem := parseStatusItem_element
    exact (parenList_accepts helement item_accepts).map fun items y hy => .status hname hx hy
  split at h
  next hname =>
    cases h
    exact searchIds_accepts.map fun ids y hy => .search hname hy
  split at h
  next hname =>
    cases h
    exact spacedValue_accepts flags_accepts fun l y hl => .flags hname hl
  · cases h

/-- Nothing is said of the bytes a reader consumes. -/
theorem yields_accepts {p : ParserM α} {P : α → Prop} (hb : Bounded 0 next p) (h : Yields P p) :
    Accepts next p fun v _ => P v := by
  intro s v t hs hrun
  have hm := hb hs hrun
  refine ⟨hm.valid, s.rest.take (t.pos - s.pos), ?_, h hrun⟩
  rw [Cursor.rest, Cursor.rest, hm.input, ← Nat.add_sub_of_le hm.le, ← List.drop_drop,
    Nat.add_sub_cancel_left, List.take_append_drop]

theorem numericRaw_accepts : Accepts next finishOtherDataWithPrefix fun r _ => r.IsRaw := by
  refine yields_accepts finishOtherDataWithPrefix_framed.bounded fun s r t h => ?_
  rw [finishOtherDataWithPrefix_run] at h
  obtain ⟨line, u, -, h⟩ := run_bind_eq_ok h
  obtain ⟨_, v, -, h⟩ := run_bind_eq_ok h
  cases h
  exact ⟨_, rfl⟩

theorem namedRaw_accepts {start : ℕ} : Accepts next (skipWhile isRawLineChar >>= fun _ =>
    sliceFrom start >>= fun line => consumeCrlf >>= fun _ =>
      pure (.data (.other ⟨start, line⟩)) : ParserM Response) fun r _ => r.IsRaw := by
  refine yields_accepts ?_ (.bind_right fun _ => .bind_right fun _ => .bind_right fun _ =>
    .pure ⟨_, rfl⟩)
  refine (skipWhile_bounded _).bind fun _ => ?_
  intro s r t hs h
  rw [run_sliceFrom_bind] at h
  exact consumeCrlf_bounded.bind (fun _ => .pure _) hs h

/-- A data response, or a raw line, behind the star. -/
def TakenData (r : Response) (x : Bytes) : Prop :=
  r.IsRaw ∨ Accepted r (byte '*' :: SP :: x)

/-- A data response that ends with its kind. -/
theorem countLine_accepts {kind : Bytes} {d : DataResponse}
    (h : RendersData d (x ++ SP :: kind)) : Accepts next (consumeCrlf >>= fun _ =>
      pure (.data d)) fun r y => TakenData r (x ++ SP :: (kind ++ y)) := by
  refine crlf_accepts.map ?_
  rintro _ _ rfl
  right
  have hline := Accepted.data h
  simpa using hline

theorem numericKind_accepts {n : UInt32} {kind : Str} (hx : Decimal n x) :
    Accepts next (numericKind n kind) fun r y => TakenData r (x ++ SP :: (kind.bytes ++ y)) := by
  rw [numericKind]
  refine .ite (fun h => countLine_accepts (.exists hx h)) fun _ =>
    .ite (fun h => countLine_accepts (.recent hx h)) fun _ =>
    .ite (fun h => countLine_accepts (.expunge hx h)) fun _ => .ite (fun h => ?_) fun _ => ?_
  · refine byte_bind_accepts ((parenList_accepts parseOneFetchAtt_element attribute_accepts).bind
      fun attributes z hz => crlf_accepts.map ?_)
    rintro _ _ rfl
    exact .inr (.fetch (.mk hx h hz))
  · exact numericRaw_accepts.mono fun _ _ h => .inl h

theorem numericData_accepts : Accepts next parseNumericDataResponse TakenData := by
  rw [parseNumericDataResponse_eq]
  refine number_accepts.bind fun n x hx => byte_bind_accepts (atom_accepts.bind ?_)
  rintro kind _ ⟨-, rfl⟩
  exact numericKind_accepts hx

theorem namedDataResponse_accepts : Accepts next parseNamedDataResponse TakenData := by
  rw [parseNamedDataResponse]
  refine .position_bind fun start => atom_accepts.bind ?_
  rintro name _ ⟨-, rfl⟩
  cases hbody : namedData name with
  | some body =>
    refine (namedData_accepts hbody).bind fun d y hd => crlf_accepts.map ?_
    rintro _ _ rfl
    right
    have hline := Accepted.data hd
    simpa using hline
  | none => exact namedRaw_accepts.mono fun _ _ h => .inl h

/-! ### Responses -/

theorem continue_accepts : Accepts next parseContinueReq Accepted := by
  rw [parseContinueReq]
  refine byte_bind_accepts (byte_bind_accepts (respText_accepts.bind fun v x hx =>
    crlf_accepts.map ?_))
  rintro _ _ rfl
  exact .continue hx

theorem untagged_accepts : Accepts next parseUntagged fun r x => r.IsRaw ∨ Accepted r x := by
  rw [parseUntagged]
  refine byte_bind_accepts (byte_bind_accepts (statusKeyword_accepts.bind ?_))
  rintro _ x (⟨status, rfl, hx⟩ | ⟨rfl, rfl⟩)
  · refine finishStatus_accepts.mono ?_
    rintro _ _ ⟨code, text, y, rfl, hy, rfl⟩
    exact .inr (.untagged hx hy)
  · exact .peek_bind fun c =>
      .ite (fun _ => numericData_accepts) fun _ => namedDataResponse_accepts

/-- A response with a tag, when it does not start with one of the marks. -/
theorem tagged_accepts : Accepts next parseTagged fun r x => x ≠ [] ∧
    (x.head? ≠ some (byte '+') → x.head? ≠ some (byte '*') → Accepted r x) := by
  rw [parseTagged]
  refine tag_accepts.bind ?_
  rintro tag _ ⟨⟨hne, hall⟩, rfl⟩
  have hhead : ∀ y : Bytes, (tag.bytes ++ y).head? = tag.bytes.head? := fun y =>
    List.head?_append_of_ne_nil _ hne
  refine byte_bind_accepts (statusKeyword_accepts.bind ?_)
  rintro _ x (⟨status, rfl, hx⟩ | ⟨rfl, rfl⟩)
  · refine finishStatus_accepts.mono ?_
    rintro _ _ ⟨code, text, y, rfl, hy, rfl⟩
    refine ⟨List.append_ne_nil_of_left_ne_nil hne _, fun hplus hstar => ?_⟩
    rw [hhead] at hplus hstar
    exact .tagged ⟨hne, hall, hplus, hstar⟩ hx hy
  · intro s r t hs h
    simp only at h
    split at h <;> cases h

/-- **What is accepted as a response.** -/
theorem response_accepts : Accepts next parseResponse fun r x => r.IsRaw ∨ Accepted r x := by
  rw [parseResponse_eq]
  refine .peek_bind fun c => .ite (fun _ => continue_accepts.mono fun _ _ h => .inr h) fun hplus =>
    .ite (fun _ => untagged_accepts) fun hstar => ?_
  intro s r t hs h
  obtain ⟨ht, x, hrest, hne, hx⟩ := tagged_accepts hs h
  have hhead : x.head? = some c := by
    have hfirst := congrArg List.head? (rest_eq_cons (hs.sees c rfl))
    rwa [hrest, List.head?_append_of_ne_nil _ hne] at hfirst
  refine ⟨ht, x, hrest, .inr (hx ?_ ?_)⟩
  · rw [hhead]
    simpa using hplus
  · rw [hhead]
    simpa using hstar

/-! ### Reading the accepted forms -/

variable {F : Bytes → Prop}

/-- A code with the text directly behind it. -/
theorem joined_readsBack {code : ResponseCode} {text : Str} (hcode : RendersCode code x)
    (htext : IsText text.bytes) (hsp : text.bytes.head? ≠ some SP) :
    ReadsBack (byte '[' :: (x ++ byte ']' :: text.bytes)) (codeItems (some code))
      (Starts (· = CR)) parseRespText (· = (some code, text)) := by
  have hcoded : ReadsBack (byte '[' :: (x ++ [byte ']'])) code.items (fun y => y.head? ≠ some SP)
      parseRespTextPrefix (· = some code) := by
    refine .try_pos ((code_readsBack hcode).bind_free (fun c hc => ?_) fun y _ => .self _ _)
    exact byte_bind (.try_neg (fun _ hy => hy) (.pure (by rw [hc])))
  have hjoined : byte '[' :: (x ++ byte ']' :: text.bytes)
      = byte '[' :: (x ++ [byte ']']) ++ text.bytes := by
    simp
  rw [parseRespText, hjoined]
  refine hcoded.bind_free (fun c hc => ?_) fun y hy => ?_
  · exact (text_readsBack htext).map fun _ hv => by rw [hc, hv]
  · rw [List.head?_append]
    cases hb : text.bytes.head? with
    | none => exact head_ne_of_starts hy (by decide)
    | some b => rwa [hb] at hsp

theorem acceptedText_readsBack {code : Option ResponseCode} {text : Str}
    (h : AcceptedText code text x) :
    ReadsBack x (codeItems code) (Starts (· = CR)) parseRespText (· = (code, text)) := by
  cases h with
  | rendered h => exact text_code_readsBack h
  | joined hcode htext hsp => exact joined_readsBack hcode htext hsp

/-- The rest of a status response. -/
theorem ending_readsBack {tag : Option Str} {status : Status} {code : Option ResponseCode}
    {text : Str} (h : AcceptedEnding code text x) :
    ReadsBack (x ++ CRLF) (codeItems code) F (finishStatus tag status)
      (· = .status ⟨tag, status, code, text⟩) := by
  have hread : ReadsBack x (codeItems code) (Starts (· = CR)) parseRespTextAfterKeyword
      (· = (code, text)) := by
    cases h with
    | bare => exact .try_neg (fun y hy => head_ne_of_starts hy (by decide)) (.pure rfl)
    | text h => exact .try_pos (acceptedText_readsBack h)
  rw [finishStatus]
  refine hread.bind_free ?_ fun y _ => .self _ _
  rintro _ rfl
  exact crlf_readsBack rfl

/-- A status keyword ends in front of what may follow it. -/
theorem AcceptedEnding.endsWord {code : Option ResponseCode} {text : Str}
    (h : AcceptedEnding code text x) (y : Bytes) : EndsWord (x ++ CRLF ++ y) := by
  cases h with
  | bare => exact .cons (by decide) _
  | text _ => exact .cons (by decide) _

/-- **A response is read as what it was accepted as.** -/
theorem accepted_readsBack {r : Response} (h : Accepted r x) :
    ReadsBack x r.items F parseResponse fun r' => r'.contents = r.contents := by
  cases h with
  | data h => exact response_readsBack (.data h)
  | fetch h => exact fetch_reads h
  | «continue» htext =>
    rw [parseResponse_eq]
    refine .peek_bind ?_
    rw [if_pos rfl]
    refine byte_bind (sp_bind ((acceptedText_readsBack htext).bind_free ?_ fun _ _ => .self _ _))
    rintro _ rfl
    exact crlf_readsBack rfl
  | untagged hstatus hending =>
    rw [parseResponse_eq]
    refine .peek_bind ?_
    rw [if_neg (by decide), if_pos rfl]
    refine byte_bind (sp_bind ((statusKeyword_readsBack hstatus).free_bind ?_
      fun y _ => AcceptedEnding.endsWord hending y))
    rintro _ rfl
    exact (ending_readsBack hending).mono (fun _ h => h) fun _ hv => by rw [hv]
  | @tagged tag status code text x y htag hstatus hending =>
    have hline : ReadsBack (tag.bytes ++ SP :: (x ++ (y ++ CRLF))) (codeItems code) F
        parseTagged fun r' => r'.contents =
          (Response.status ⟨tag, status, code, text⟩).contents := by
      refine (tag_readsBack htag).free_bind (fun _ htag => ?_) fun _ _ => .self _ _
      refine sp_bind ((statusKeyword_readsBack hstatus).free_bind ?_
        fun y _ => AcceptedEnding.endsWord hending y)
      rintro _ rfl
      exact (ending_readsBack hending).mono (fun _ h => h) fun _ hv => by rw [hv, htag]
    obtain ⟨hne, -, hplus, hstar⟩ := htag
    obtain ⟨b, t, hb⟩ := List.exists_cons_of_ne_nil hne
    rw [hb, List.head?_cons, ne_eq, Option.some.injEq] at hplus hstar
    rw [hb] at hline ⊢
    rw [parseResponse_eq]
    refine .peek_bind ?_
    rwa [if_neg hplus, if_neg hstar]

end Parser

/-! ### The language -/

/-- **What is accepted as a response.** Whatever is not kept as a raw line is in the language. -/
theorem accepted_of_parseResponse {data rest : Bytes} {r : Response}
    (h : parseResponse data = .ok (rest, r)) (hraw : ¬ r.IsRaw) :
    ∃ x, Accepted r x ∧ data = x ++ rest := by
  obtain ⟨t, hrun, rfl⟩ := parseResponse_eq_ok h
  obtain ⟨-, x, hrest, hx⟩ := Parser.response_accepts (Parser.new_meets data) hrun
  exact ⟨x, hx.resolve_left hraw, hrest⟩

/-- **Every such text is accepted**, with anything behind it. -/
theorem parseResponse_of_accepted {r : Response} {x : Bytes} (h : Accepted r x)
    (hitems : r.items ≤ MAX_ITEMS_PER_RESPONSE) (tail : Bytes) :
    ∃ r', parseResponse (x ++ tail) = .ok (tail, r') ∧ r'.contents = r.contents := by
  obtain ⟨r', a, hrun, -, hr'⟩ := Parser.accepted_readsBack (F := fun _ => True) h
    (Parser.new (x ++ tail)) tail (Nat.zero_le _) rfl trivial hitems
  refine ⟨r', ?_, hr'⟩
  rw [parseResponse, hrun]
  simp [Cursor.rest, Parser.new]

/-- **The language of the parser.** What it accepts, other than as a raw line, is within the item
budget and starts with a text that stands for the response; and every text that stands for a
response within the budget is accepted as that response, whatever follows. -/
theorem parseResponse_language :
    (∀ data rest r, parseResponse data = .ok (rest, r) → ¬ r.IsRaw →
      r.items ≤ MAX_ITEMS_PER_RESPONSE ∧ ∃ x, Accepted r x ∧ data = x ++ rest) ∧
    ∀ r x, Accepted r x → r.items ≤ MAX_ITEMS_PER_RESPONSE → ∀ rest,
      ∃ r', parseResponse (x ++ rest) = .ok (rest, r') ∧ r'.contents = r.contents :=
  ⟨fun _ _ _ h hraw => ⟨items_le_of_ok h, accepted_of_parseResponse h hraw⟩,
    fun _ _ h hitems rest => parseResponse_of_accepted h hitems rest⟩

/-- A server that leaves out a space. -/
def joinedAlert : Bytes := ascii "a1 OK [ALERT]watch out\r\n"

theorem parseResponse_joinedAlert : ∃ r, parseResponse joinedAlert = .ok ([], r) ∧
    render r = ascii "a1 OK [ALERT] watch out\r\n" ∧ ∀ d, r ≠ .data d := by
  have hany : ((parseResponse joinedAlert).toOption.any fun v => decide (v.1 = [] ∧
      render v.2 = ascii "a1 OK [ALERT] watch out\r\n")) = true := by
    decide +kernel
  cases hparse : parseResponse joinedAlert with
  | error e =>
    rw [hparse] at hany
    cases hany
  | ok v =>
    obtain ⟨rest, r⟩ := v
    rw [hparse] at hany
    obtain ⟨hrest, hrender⟩ : rest = [] ∧ _ := of_decide_eq_true hany
    subst hrest
    refine ⟨r, rfl, hrender, ?_⟩
    rintro d rfl
    have hstar : some (byte '*') = (ascii "a1 OK [ALERT] watch out\r\n").head? :=
      congrArg List.head? hrender
    exact absurd hstar (by decide +kernel)

/-- What is accepted is in the language, and is accepted with anything behind it. -/
theorem parseResponse_language_joined :
    ∃ r x, parseResponse joinedAlert = .ok ([], r) ∧ Accepted r x ∧ joinedAlert = x ++ [] ∧
      ∀ tail, ∃ r', parseResponse (x ++ tail) = .ok (tail, r') ∧ r'.contents = r.contents := by
  obtain ⟨r, hparse, -, hdata⟩ := parseResponse_joinedAlert
  have hraw : ¬ r.IsRaw := fun ⟨line, hline⟩ => hdata _ hline
  obtain ⟨hitems, x, hx, hsplit⟩ := parseResponse_language.1 _ _ _ hparse hraw
  exact ⟨r, x, hparse, hx, hsplit, parseResponse_language.2 r x hx hitems⟩

/-! ### What was parsed can be written down -/

section Lists

variable {α : Type} {R : α → Bytes → Prop} {l : List α} {x : Bytes}

theorem Spaced.forall (h : Spaced R l x) : ∀ a ∈ l, ∃ y, R a y := by
  induction h with
  | nil => simp
  | cons ha _ ih => exact List.forall_mem_cons.mpr ⟨⟨_, ha⟩, ih⟩

theorem Parens.forall (h : Parens R l x) : ∀ a ∈ l, ∃ y, R a y := by
  cases h with
  | nil => simp
  | cons ha hl => exact List.forall_mem_cons.mpr ⟨⟨_, ha⟩, hl.forall⟩

end Lists

variable {x : Bytes}

theorem isAtom_of_spaced {l : List Str} (h : Spaced (Verbatim IsAtom) l x) :
    ∀ s ∈ l, IsAtom s.bytes := by
  intro s hs
  obtain ⟨_, hs, -⟩ := h.forall s hs
  exact hs

theorem isFlag_of_flags {l : List Str} (h : RendersFlags l x) : ∀ s ∈ l, IsFlag s.bytes := by
  intro s hs
  obtain ⟨_, hs, -⟩ := h.forall s hs
  exact hs

theorem RendersCode.expressible {code : ResponseCode} (h : RendersCode code x) :
    code.Expressible := by
  cases h with
  | capability _ h => exact isAtom_of_spaced h
  | permanentFlags _ h => exact isFlag_of_flags h
  | badCharset _ h => exact isFlag_of_flags h
  | badCharsetNone _ => exact fun _ hs => absurd hs (by simp)
  | other h => exact ⟨h, by simp⟩
  | otherWith h hextra => exact ⟨h, by simpa using hextra⟩
  | _ => trivial

theorem AcceptedText.expressible {code : Option ResponseCode} {text : Str}
    (h : AcceptedText code text x) : ExpressibleText code text := by
  rcases h with (⟨htext, hhead⟩ | ⟨hcode, htext⟩) | ⟨hcode, htext, -⟩
  · exact ⟨htext, fun _ => hhead, by simp⟩
  · exact ⟨htext, by simp, by simpa using hcode.expressible⟩
  · exact ⟨htext, by simp, by simpa using hcode.expressible⟩

theorem AcceptedEnding.expressible {code : Option ResponseCode} {text : Str}
    (h : AcceptedEnding code text x) : ExpressibleText code text := by
  cases h with
  | bare => exact ⟨by simp [IsText, Str.empty], by simp [Str.empty], by simp⟩
  | text h => exact h.expressible

theorem RendersAstring.expressible {s : Str} (h : RendersAstring s x) : s.ExpressibleName := by
  cases h with
  | quoted h => exact .inr (.inl h.1)
  | literal h => exact .inr (.inr h.1)
  | atom h => exact .inl h

theorem RendersNstring.expressible {o : Option Str} (h : RendersNstring o x) :
    ∀ s ∈ o, s.ExpressibleDelimiter := by
  cases h with
  | nil => simp
  | quoted h => simpa using .inl h.1
  | literal h => simpa using .inr h.1

/-- The message data of an attribute. -/
def FetchAttribute.message : FetchAttribute → Option Slice
  | .rfc822 data | .rfc822Header data | .rfc822Text data => some data
  | .bodySection _ _ data => data
  | _ => none

/-- The message data would fit into literals. What comes in quotes has no limit of its own. -/
def Response.FitsLiterals : Response → Prop
  | .data (.fetch _ attributes) => ∀ a ∈ attributes, ∀ data ∈ a.message, data.FitsLiteral
  | _ => True

theorem AcceptedAttribute.expressible {a : FetchAttribute} (h : AcceptedAttribute a x)
    (hfit : ∀ data ∈ a.message, data.FitsLiteral) : a.Expressible := by
  have hsection : ∀ {sect : Option Str} {y}, RendersSection sect y →
      ∀ s ∈ sect, s.bytes ≠ [] ∧ IsBracketed s.bytes := by
    intro sect y h
    cases h with
    | whole => simp
    | part hne h => simpa using ⟨hne, h⟩
  cases h with
  | rfc822 | rfc822Header | rfc822Text => exact hfit _ rfl
  | bodySection _ hsect _ _ => exact ⟨hsection hsect, hfit⟩
  | rendered h =>
    cases h with
    | flags _ h => exact isFlag_of_flags h
    | internalDate _ h => exact h.1
    | rfc822 | rfc822Header | rfc822Text => exact hfit _ rfl
    | envelope _ h | body _ h | bodyStructure _ h => exact h
    | bodySection _ hsect _ _ => exact ⟨hsection hsect, hfit⟩
    | rfc822Size | uid => trivial

theorem RendersListing.expressible {flags : List Str} {delimiter : Option Str} {name : Str}
    (h : RendersListing flags delimiter name x) : (∀ s ∈ flags, IsFlag s.bytes) ∧
      (∀ s ∈ delimiter, s.ExpressibleDelimiter) ∧ name.ExpressibleName := by
  obtain ⟨hflags, hdelimiter, hname⟩ := h
  exact ⟨isFlag_of_flags hflags, hdelimiter.expressible, hname.expressible⟩

theorem RendersData.expressible {d : DataResponse} (h : RendersData d x)
    (hfit : (Response.data d).FitsLiterals) : d.Expressible := by
  cases h with
  | capability _ h => exact isAtom_of_spaced h
  | list _ h | lsub _ h => exact h.expressible
  | status _ h _ => exact h.expressible
  | flags _ h => exact isFlag_of_flags h
  | fetch _ _ h =>
    intro a ha
    obtain ⟨y, hy⟩ := h.forall a ha
    exact AcceptedAttribute.expressible (.rendered hy) (hfit a ha)
  | _ => trivial

/-- What stands for a response has the parts that a response can be written with. -/
theorem Accepted.expressible {r : Response} (h : Accepted r x) (hfit : r.FitsLiterals) :
    r.Expressible := by
  cases h with
  | «continue» h => exact h.expressible
  | untagged _ h => exact ⟨by simp, h.expressible⟩
  | tagged htag _ h => exact ⟨by simpa using htag, h.expressible⟩
  | data h => exact h.expressible hfit
  | fetch h =>
    obtain ⟨-, -, h⟩ := h
    intro a ha
    obtain ⟨y, hy⟩ := h.forall a ha
    exact hy.expressible (hfit a ha)

/-- **What was parsed can be written down again.** Unless it was kept as a raw line, a response that
the parser returned is one the canonical renderer can write, and its rendering is read back as the
same response, whatever follows. -/
theorem parseResponse_normal {data rest : Bytes} {r : Response}
    (h : parseResponse data = .ok (rest, r)) (hraw : ¬ r.IsRaw) (hfit : r.FitsLiterals) :
    r.Expressible ∧ ∀ tail, ∃ r', parseResponse (render r ++ tail) = .ok (tail, r') ∧
      r'.contents = r.contents := by
  obtain ⟨x, hx, -⟩ := accepted_of_parseResponse h hraw
  have hexpressible := hx.expressible hfit
  exact ⟨hexpressible, fun tail =>
    parseResponse_of_renders (renders_render hexpressible) (items_le_of_ok h) tail⟩

theorem parseResponse_normal_joined :
    ∃ r, parseResponse joinedAlert = .ok ([], r) ∧
      render r = ascii "a1 OK [ALERT] watch out\r\n" ∧ r.Expressible ∧
      ∀ tail, ∃ r', parseResponse (render r ++ tail) = .ok (tail, r') ∧
        r'.contents = r.contents := by
  obtain ⟨r, hparse, hrender, hdata⟩ := parseResponse_joinedAlert
  have hraw : ¬ r.IsRaw := fun ⟨line, hline⟩ => hdata _ hline
  have hfit : r.FitsLiterals := by
    cases r with
    | data d => exact absurd rfl (hdata d)
    | _ => trivial
  exact ⟨r, hparse, hrender, parseResponse_normal hparse hraw hfit⟩

end ImapRs
