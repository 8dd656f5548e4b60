import ImapRs.Core.Accepted
import ImapRs.Incremental.Stops

/-!
# Text behind a recognised response

Every recognised data response but two reads up to its last token, which stops at SP just as it
stops at CR, and then insists on CRLF. So a response that was accepted is refused as soon as a
space and anything else stand in front of its CRLF: the tolerance of trailing text that the module
documentation of the parser claims is there for unknown responses only.

## Main definitions

* `lineEnd` — CRLF as the terminator of a response
* `DataResponse.Terminated` — the data responses that end in a token

## Main results

* `parseResponse_trailing` — trailing text is refused, never skipped
-/

namespace ImapRs

open Incremental Incremental.Cursor

/-- A recognised data response that ends in a token. The lists of CAPABILITY and SEARCH go on
behind a space. -/
def DataResponse.Terminated : DataResponse → Prop
  | .exists _ | .recent _ | .expunge _ | .fetch .. | .list .. | .lsub .. | .status .. | .flags _ =>
    True
  | _ => False

namespace Parser

variable {lo : ℕ} {next : Option UInt8} {att : Bool} {α β : Type}

/-- The bytes at which every token stops: the end of the line, and the space between tokens. -/
def StopsToken (c : UInt8) : Prop := c = CR ∨ c = SP

/-- CRLF, with a space as the delimiter that may stand in its place. -/
def lineEnd : Terminator UInt8 ParseError where
  Delimiter := StopsToken
  width := 2
  wrong := SP
  wrong_delimiter := .inr rfl
  error := .malformed "expected CR"

theorem consumeCrlf_refuses {P : β → Prop} (v : β) :
    Refuses lineEnd P lo next (consumeCrlf >>= fun _ => pure v) := by
  intro s w t hs hok _
  obtain ⟨_, u, hcrlf, hpure⟩ := run_bind_eq_ok hok
  cases hpure
  obtain ⟨hcr, _, rfl⟩ := consumeCrlf_eq_ok hcrlf
  refine ⟨s.pos, Nat.le_refl _, rfl, ⟨CR, hcr, .inl rfl⟩, fun x _ hwrong => ?_⟩
  have hsp : (s.withInput x).input[(s.withInput x).pos]? = some SP := hwrong
  refine run_bind_error ?_
  rw [consumeCrlf_run, hsp]
  rfl

/-! ### Tokens that stop -/

theorem parseAtom_stops : Stops StopsToken lo next parseAtom := by
  rw [parseAtom_eq]
  refine .position_bind fun start => .token ?_ ?_
  · rintro c (rfl | rfl) <;> decide
  · rintro bs c d _ _
    rfl

theorem parseNumber_stops : Stops StopsToken lo next parseNumber := by
  rw [parseNumber_eq]
  refine .position_bind fun start => .token ?_ ?_
  · rintro c (rfl | rfl) <;> decide
  · rintro bs c d _ _
    rfl

theorem parseAtom_consumes : Consumes lo next parseAtom := by
  intro s name t hs hok
  obtain ⟨_, _, hrest, ⟨hne, _⟩, rfl⟩ := atom_accepts (Meets.zero hs.valid) hok
  have hlen := congrArg List.length hrest
  have hpos := List.length_pos_iff.mpr hne
  rw [List.length_append, length_rest, length_rest,
    ((parseAtom_assembled.lawful (kit_sound false)).bounded hs hok).input] at hlen
  omega

theorem consumeByte_stops (b : UInt8) : Stops StopsToken lo next (consumeByte b) :=
  (consumeByte_exact b).stops

/-- A buffer that agrees with another on what a run consumed is a buffer to run on. -/
theorem valid_withInput {s t : Parser} {x : Bytes} (hlt : s.pos < t.pos)
    (ht : t.pos ≤ s.input.length) (hx : ∀ i, s.pos ≤ i → i < t.pos → x[i]? = s.input[i]?) :
    (s.withInput x).Valid := by
  have hlast := hx s.pos (Nat.le_refl _) hlt
  rw [List.getElem?_eq_getElem (Nat.lt_of_lt_of_le hlt ht)] at hlast
  exact Nat.le_of_lt (List.getElem?_eq_some_iff.mp hlast).1

theorem parseQuoted_exact : Exact lo next parseQuoted := by
  intro s v t hs hok x hx
  have hm := parseQuoted_lawful.bounded hs hok
  have hlt := parseQuoted_consumes hs hok
  have hx' : ∀ i, s.pos ≤ i → i < t.pos → x[i]? = s.input[i]? := fun i h₁ =>
    hx i (Nat.le_trans hs.lo_le h₁)
  obtain ⟨hesc, hrest, ht⟩ := parseQuoted_ok hs.valid hok
  have hrest' := Cursor.rest_withInput (w := byte '"' :: (v.bytes ++ [byte '"']))
    (by rw [hrest]; simp) hm hx'
  rw [parseQuoted_of_rest (valid_withInput hlt hm.pos_le hx') hesc v.utf8
    (z := (t.withInput x).rest) (by rw [hrest']; simp), ht]
  rfl

theorem parseLiteral_exact : Exact lo next parseLiteral := by
  intro s v t hs hok x hx
  have hm := parseLiteral_lawful.bounded hs hok
  have hlt := parseLiteral_consumes hs hok
  have hx' : ∀ i, s.pos ≤ i → i < t.pos → x[i]? = s.input[i]? := fun i h₁ =>
    hx i (Nat.le_trans hs.lo_le h₁)
  obtain ⟨ds, hne, hdig, hlen, hmax, hrest, hoff, hpos, haux⟩ := parseLiteral_eq_ok hs.valid hok
  have hrest' := Cursor.rest_withInput (w := literalHeader ds ++ v.bytes)
    (by rw [hrest, List.append_assoc]) hm hx'
  rw [List.append_assoc] at hrest'
  rw [parseLiteral_of_rest (valid_withInput hlt hm.pos_le hx') hne hdig hlen hmax hrest']
  obtain ⟨input, pos, aux⟩ := t
  obtain ⟨offset, bytes⟩ := v
  simp only at hoff hpos haux
  subst hoff hpos haux
  rfl

theorem toStr_exact (bs : Bytes) : Exact lo next (toStr bs) := by
  intro s v t _ hok x _
  rw [toStr_run] at hok ⊢
  obtain ⟨hver, rfl⟩ := settle_eq_ok hok
  rw [hver]
  rfl

theorem parseAstring_stops : Stops StopsToken lo next parseAstring := by
  have htext : ∀ data : Slice, Bounded lo none (toStr data.bytes) := fun _ =>
    ((toStr_assembled _).lawful (kit_sound false)).bounded
  refine .peek_bind (fun c => ?_) fun c => ?_
  · split
    · exact parseQuoted_exact.stops
    split
    · exact .bind parseLiteral_lawful parseLiteral_exact.stops htext fun _ => (toStr_exact _).stops
    · exact parseAtom_stops
  · split
    · exact parseQuoted_consumes
    split
    · exact .bind_left parseLiteral_lawful.bounded parseLiteral_consumes htext
    · exact parseAtom_consumes

/-! ### Lists that stop -/

section List

variable {element : ParserM α} {expected : String}

/-- A round of a list ends in SP or in the closing parenthesis. -/
theorem parenListStep_exact (h : Element att element) (items : List α) :
    Exact lo none (parenListStep element expected items) := by
  rw [parenListStep_eq]
  refine .bind ((h.assembled lo).lawful (kit_sound att)) (fun item => ?_) (fun item => ?_)
    fun item => ?_
  · refine .bind (charge_bounded _) fun _ => .peek_bind fun c => ?_
    split
    · exact .advance_bind (.pure _)
    split
    · exact .advance_bind (.pure _)
    · exact .fail _
  · refine .charge_bind (.peek_bind (fun c => ?_) fun c => ?_)
    · split
      · exact .advance_bind (.pure _)
      split
      · exact .advance_bind (.pure _)
      · exact .fail _
    · split
      · exact .advance_bind (.pure _)
      split
      · exact .advance_bind (.pure _)
      · exact .fail _
  · refine .bind_right (charge_bounded _) fun _ => .peek_bind fun c => ?_
    split
    · exact .advance_bind (.pure _)
    split
    · exact .advance_bind (.pure _)
    · exact .fail _

theorem parseParenList_stops (h : Element att element) :
    Stops StopsToken lo next (parseParenList element expected) := by
  have hloop : Stops StopsToken lo none
      (iterate .unexpectedEof (parenListStep element expected) []) :=
    .iterate (fun items => parenListStep_lawful h items)
      (fun items => (parenListStep_exact h items).stops) (parenListStep_progress h) []
  have hb : Bounded lo none (iterate .unexpectedEof (parenListStep element expected) []) :=
    ((parenListLoop_assembled h []).lawful (kit_sound att)).bounded
  refine .bind (consumeByte_lawful _) (consumeByte_stops _) (fun _ => ?_) fun _ => ?_
  · exact (Bounded.tryConsume _).bind fun b => by
      split
      · exact .pure _
      · exact hb
  · refine .try_bind ?_ ?_ ?_ ?_ ?_
    · rintro (h | h) <;> revert h <;> decide
    · exact .pure _
    · exact (Exact.pure _).stops
    · exact hloop
    · exact hb

end List

/-! ### Data responses -/

/-- The response carries data that ends in a token. -/
def TerminatedResponse : Response → Prop
  | .data d => d.Terminated
  | _ => False

theorem finishOtherDataWithPrefix_notTerminated :
    Yields (fun r => ¬ TerminatedResponse r) finishOtherDataWithPrefix :=
  .bind_right fun _ => .bind_right fun _ => .bind_right fun _ => .bind_right fun _ => .pure id

theorem parseNumericDataResponse_refuses :
    Refuses lineEnd TerminatedResponse lo next parseNumericDataResponse := by
  refine .bind parseNumber_lawful parseNumber_stops fun n => ?_
  refine .bind (consumeByte_lawful _) (consumeByte_stops _) fun _ => ?_
  refine .bind (parseAtom_assembled.lawful (kit_sound false)) parseAtom_stops fun kind => ?_
  refine .ite (consumeCrlf_refuses _) (.ite (consumeCrlf_refuses _) (.ite (consumeCrlf_refuses _)
    (.ite ?_ (.of_yields finishOtherDataWithPrefix_notTerminated))))
  refine .bind (consumeByte_lawful _) (consumeByte_stops _) fun _ => ?_
  exact .bind (parseFetchMsgAtt_assembled.lawful (kit_sound true))
    (parseParenList_stops parseOneFetchAtt_element) fun _ => consumeCrlf_refuses _

theorem parseListLsubBody_stops : Stops StopsToken lo next parseListLsubBody := by
  have hspaced : Lawful .incomplete lo none (consumeSp : ParserM Unit) := consumeByte_lawful _
  have hname : ∀ (g : Str → List Str × Option Str × Str), Assembled (kit false) lo none
      (consumeSp >>= fun _ => parseAstring >>= fun name => pure (g name)) := fun g =>
    spaced_assembled parseAstring_assembled g
  refine .bind (parseParenAtomList_assembled.lawful (kit_sound false))
    (parseParenList_stops (parseFlagOrAtom_element : Element false _)) (fun flags => ?_)
    fun flags => ?_
  · refine (consumeByte_bounded _).bind fun _ => ?_
    exact (parseNstring_assembled.lawful (kit_sound false)).bounded.bind fun delimiter =>
      ((hname _).lawful (kit_sound false)).bounded
  · refine .bind hspaced (consumeByte_stops _) (fun _ => ?_) fun _ => ?_
    · exact (parseNstring_assembled.lawful (kit_sound false)).bounded.bind fun delimiter =>
        ((hname _).lawful (kit_sound false)).bounded
    · refine .bind_of_consumes (parseNstring_assembled.lawful (kit_sound false))
        (fun delimiter => ((hname _).lawful (kit_sound false)).bounded) (fun delimiter => ?_)
        fun delimiter => ?_
      · exact .bind hspaced (consumeByte_stops _)
          (fun _ => ((parseAstring_assembled.lawful (kit_sound false)).bounded).bind
            fun _ => .pure _)
          fun _ => .map (parseAstring_assembled.lawful (kit_sound false)) parseAstring_stops _
      · exact .bind_left (consumeByte_bounded _) (consumeByte_consumes _) fun _ =>
          ((parseAstring_assembled.lawful (kit_sound false)).bounded).bind fun _ => .pure _

/-- A space and a value that stops. -/
theorem spaced_stops {p : ParserM α} {g : α → β} (hp : Assembled (kit false) lo none p)
    (hstop : Stops StopsToken lo none p) :
    Stops StopsToken lo next (consumeSp >>= fun _ => p >>= fun v => pure (g v)) :=
  .bind (consumeByte_lawful _) (consumeByte_stops _)
    (fun _ => (hp.lawful (kit_sound false)).bounded.bind fun _ => .pure _)
    fun _ => .map (hp.lawful (kit_sound false)) hstop _

/-- A recognised name: its data ends in a token, or is a list that goes on behind a space. -/
theorem namedData_stops {name : Str} {body : ParserM DataResponse}
    (h : namedData name = some body) :
    Stops StopsToken lo next body ∨ Yields (fun d => ¬ d.Terminated) body := by
  rw [namedData] at h
  split at h
  · cases h
    exact .inr (.bind_right fun _ => .pure id)
  split at h
  · cases h
    exact .inl (spaced_stops parseListLsubBody_assembled parseListLsubBody_stops)
  split at h
  · cases h
    exact .inl (spaced_stops parseListLsubBody_assembled parseListLsubBody_stops)
  split at h
  · cases h
    have hitems : Stops StopsToken lo none parseStatusItems :=
      parseParenList_stops (parseStatusItem_element : Element false _)
    have hbounded : ∀ mailbox, Bounded lo none (consumeSp >>= fun _ => parseStatusItems >>= fun
        items => pure (DataResponse.status mailbox items)) := fun mailbox =>
      ((spaced_assembled parseStatusItems_assembled _).lawful (kit_sound false)).bounded
    refine .inl (.bind (consumeByte_lawful _) (consumeByte_stops _) (fun _ => ?_) fun _ => ?_)
    · exact (parseAstring_assembled.lawful (kit_sound false)).bounded.bind hbounded
    · exact .bind (parseAstring_assembled.lawful (kit_sound false)) parseAstring_stops hbounded
        fun mailbox => spaced_stops parseStatusItems_assembled hitems
  split at h
  · cases h
    exact .inr (.bind_right fun _ => .pure id)
  split at h
  · cases h
    exact .inl (spaced_stops parseParenAtomList_assembled
      (parseParenList_stops (parseFlagOrAtom_element : Element false _)))
  · cases h

theorem parseNamedDataResponse_refuses :
    Refuses lineEnd TerminatedResponse lo next parseNamedDataResponse := by
  refine .position_bind fun lineStart =>
    .bind (parseAtom_assembled.lawful (kit_sound false)) parseAtom_stops fun name => ?_
  cases hbody : namedData name with
  | some body =>
    rcases namedData_stops hbody with hstop | hother
    · exact .bind ((namedData_assembled hbody).lawful (kit_sound true)) hstop
        fun _ => consumeCrlf_refuses _
    · exact .of_yields (.bind hother fun d hd => .bind_right fun _ => .pure hd)
  | none =>
    exact .of_yields (.bind_right fun _ => .bind_right fun _ => .bind_right fun _ => .pure id)

/-- **A data response is refused where its CRLF should begin.** -/
theorem untaggedData_refuses : Refuses lineEnd TerminatedResponse lo next untaggedData := by
  refine .peek_bind (fun c => ?_) ?_
  · exact .ite parseNumericDataResponse_refuses parseNamedDataResponse_refuses
  · rintro c (rfl | rfl)
    · rfl
    · rfl

/-! ### The status keyword -/

theorem isKeywordByte_delimiter {c : UInt8} (h : StopsToken c) : isKeywordByte c = false := by
  rcases h with rfl | rfl <;> decide +kernel

/-- A keyword ends at one delimiter just as it ends at another. -/
theorem keywordAt_delimiter {l : Bytes} {c d : UInt8} (hc : StopsToken c) (hd : StopsToken d)
    {k : Status × Bytes} (hk : k ∈ statusKeywords) :
    keywordAt (l ++ [c]) k.2 = keywordAt (l ++ [d]) k.2 := by
  rcases Nat.lt_or_ge l.length k.2.length with hlt | hle
  · -- the delimiter would be a byte of the keyword
    have hno : ∀ {c : UInt8}, StopsToken c → keywordAt (l ++ [c]) k.2 = false := by
      intro c hc
      have hagree : agreesCi (l ++ [c]) k.2 = false := by
        refine agreesCi_eq_false (List.mem_append_right l (List.mem_singleton_self c))
          (by rw [List.length_append]; exact hlt) fun b hb => ?_
        have hkey := isKeywordByte_delimiter hc
        rw [isKeywordByte, List.any_eq_false] at hkey
        have hbytes := hkey k hk
        rw [Bool.not_eq_true, List.any_eq_false] at hbytes
        exact Bool.eq_false_iff.mpr (hbytes b hb)
      rw [keywordAt, hagree, Bool.and_false, Bool.false_and]
    rw [hno hc, hno hd]
  · have hlen : ∀ c : UInt8, k.2.length ≤ (l ++ [c]).length := fun c => by
      rw [List.length_append]
      exact Nat.le_add_right_of_le hle
    rw [keywordAt, keywordAt, agreesCi_of_length_le hle, agreesCi_of_length_le hle,
      decide_eq_true (hlen c), decide_eq_true (hlen d)]
    rcases Nat.lt_or_eq_of_le hle with hlt | heq
    · rw [List.getElem?_append_left hlt, List.getElem?_append_left hlt]
    · rw [heq, List.getElem?_concat_length, List.getElem?_concat_length]
      rcases hc with rfl | rfl <;> rcases hd with rfl | rfl <;> rfl

theorem statusKeywordAt_delimiter {l w w' : Bytes} {c d : UInt8} (hc : StopsToken c)
    (hd : StopsToken d) : statusKeywordAt (l ++ c :: w) = statusKeywordAt (l ++ d :: w') := by
  have hone : ∀ {c : UInt8} {w : Bytes}, StopsToken c →
      statusKeywordAt (l ++ c :: w) = statusKeywordAt (l ++ [c]) := by
    intro c w hc
    rw [← statusKeywordAt_append (List.mem_append_right l (List.mem_singleton_self c))
      (isKeywordByte_delimiter hc) w, List.append_assoc, List.singleton_append]
  rw [hone hc, hone hd, statusKeywordAt, statusKeywordAt, ← List.head?_filter, ← List.head?_filter]
  exact congrArg List.head? (List.filter_congr fun k hk => keywordAt_delimiter hc hd hk)

end Parser

/-! ### Whole responses -/

/-- Let a frame be accepted as a data response that ends in a token. With a space and anything else
in place of its CRLF, it is an error. -/
theorem parseResponse_of_trailing {g : Bytes} {d : DataResponse}
    (h : parseResponse (g ++ CRLF) = .ok ([], .data d)) (hd : d.Terminated) (z : Bytes) :
    parseResponse (g ++ SP :: z) = .error (.malformed "expected CR") := by
  obtain ⟨t, hrun, hrest⟩ := parseResponse_eq_ok h
  obtain ⟨hs, hx, hkey, hdata⟩ := Parser.untaggedData_of_data hrun
  have hm := Parser.untaggedData_framed.bounded (Meets.zero hs) hdata
  obtain ⟨k, hk, ht, _, hrefuse⟩ := Parser.untaggedData_refuses (Meets.zero hs) hdata hd
  have hk : 2 ≤ k := hk
  -- the CRLF is at the end of `g`
  have hlen : k = g.length := by
    have hend := congrArg List.length hrest
    have hpos := hm.pos_le
    rw [length_rest, hm.input] at hend
    simp only [Parser.afterStar, Parser.lineEnd, List.length_append, List.length_cons,
      List.length_nil] at hend hpos ht
    omega
  obtain ⟨l, rfl⟩ : ∃ l, g = byte '*' :: SP :: l := by
    refine ⟨g.drop 2, ?_⟩
    have htake := congrArg (List.take 2) hx
    rw [List.take_append_of_le_length (by omega)] at htake
    conv_lhs => rw [← List.take_append_drop 2 g, htake]
    rfl
  have hsame : Parser.statusKeywordAt (l ++ SP :: z) = none :=
    (Parser.statusKeywordAt_delimiter (.inr rfl) (.inl rfl)).trans hkey
  have hagree : ∀ i, 0 ≤ i → i < k →
      (byte '*' :: SP :: (l ++ SP :: z))[i]? = (byte '*' :: SP :: l ++ CRLF)[i]? := by
    intro i _ hi
    rw [hlen] at hi
    rw [List.getElem?_append_left hi]
    exact List.getElem?_append_left hi
  have hwrong : (byte '*' :: SP :: (l ++ SP :: z))[k]? = some SP := by
    rw [hlen]
    show ((byte '*' :: SP :: l) ++ SP :: z)[(byte '*' :: SP :: l).length]? = some SP
    rw [List.getElem?_append_right (Nat.le_refl _), Nat.sub_self]
    rfl
  have herr := hrefuse hagree hwrong
  show parseResponse (byte '*' :: SP :: (l ++ SP :: z)) = _
  rw [parseResponse, Parser.parseResponse_untagged hsame]
  rw [show (Parser.afterStar _).withInput _ = Parser.afterStar (byte '*' :: SP :: (l ++ SP :: z))
    from rfl] at herr
  rw [herr]
  rfl

/-- **Trailing text is never skipped.** Whatever stands between a space and the CRLF, and whatever
comes behind it, the response is not returned. -/
theorem parseResponse_trailing {g : Bytes} {d : DataResponse}
    (h : parseResponse (g ++ CRLF) = .ok ([], .data d)) (hd : d.Terminated) (t y : Bytes) :
    parseResponse (g ++ SP :: t ++ CRLF ++ y) ≠ .ok (y, .data d) := by
  rw [List.append_assoc, List.append_assoc, List.cons_append, parseResponse_of_trailing h hd]
  nofun

theorem parseResponse_trailing_exists :
    parseResponse (ascii "* 5 EXISTS" ++ SP :: ascii "x" ++ CRLF ++ [])
      ≠ .ok ([], .data (.exists 5)) :=
  parseResponse_trailing (d := .exists 5) (by decide +kernel) trivial (ascii "x") []

/-- The tolerance the documentation of the parser claims. -/
theorem trailing_not_tolerated : ¬ ∀ g d t y,
    parseResponse (g ++ CRLF) = .ok ([], .data d) → d.Terminated → CR ∉ t → LF ∉ t →
      parseResponse (g ++ SP :: t ++ CRLF ++ y) = .ok (y, .data d) := by
  intro h
  have hparse : parseResponse (ascii "* 5 EXISTS" ++ CRLF) = .ok ([], .data (.exists 5)) := by
    decide +kernel
  have htail := h _ (.exists 5) (ascii "x") [] hparse trivial (by decide) (by decide)
  have herr : parseResponse (ascii "* 5 EXISTS" ++ SP :: ascii "x" ++ CRLF ++ [])
      = .error (.malformed "expected CR") := by decide +kernel
  rw [herr] at htail
  cases htail

end ImapRs
