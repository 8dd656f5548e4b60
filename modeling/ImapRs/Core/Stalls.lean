import ImapRs.Core.Framing
import ImapRs.Incremental.Fence

/-!
# A line that has ended is decided, with one exception

A complete line without a literal should never be reported as incomplete. The CR at its end is a
fence for every scanner of the grammar but one: the scan of a FETCH attribute name runs through
CR and LF into whatever follows. The exact condition under which a complete line still comes out
as incomplete is `StopsInAttName` together with a following input that holds none of the bytes an
attribute name stops at.

## Main definitions

* `AttStart`, `StopsInAttName` — a FETCH line that breaks off inside an attribute name

## Main results

* `parseResponse_line_decided_iff` — when a complete line is decided
* `parseResponse_line_settled` — when it is, whatever follows, and that it is settled then
* `parseResponse_line_stalls` — a line that is not
-/

namespace ImapRs

open Incremental Incremental.Cursor

namespace Parser

variable {lo b : ℕ} {next : Option UInt8} {α β : Type}

/-! ### The end of the line as a fence -/

/-- No literal is open before the CR at index `b`. -/
abbrev LineFenced (b : ℕ) (s : Parser) : Prop := Fenced (· ≠ byte '{') CR b s

/-- Decisive in front of the end of a line. -/
abbrev LineDecisive (lo : ℕ) (next : Option UInt8) (p : ParserM α) : Prop :=
  Decisive .incomplete (· ≠ byte '{') CR lo next p

theorem parseNumber_decisive : LineDecisive lo next parseNumber := by
  refine ⟨fun s b e _ hf herr => ?_, fun s b v t _ hf hok => ?_⟩
  · have hlt : scanStop isAsciiDigit s < s.input.length :=
      Nat.lt_of_le_of_lt (hf.scanStop_le (by decide)) (List.getElem?_eq_some_iff.mp hf.fence).1
    rw [parseNumber_run, List.getElem?_eq_getElem hlt] at herr
    have herr := settle_eq_error herr
    by_cases hnil : s.rest.takeWhile isAsciiDigit = []
    · rw [hnil] at herr
      cases herr
      nofun
    · rw [numberVerdict_digits hnil (takeWhile_digits _)] at herr
      split at herr <;> cases herr
      nofun
  · rw [parseNumber_run] at hok
    rw [(settle_eq_ok hok).2]
    exact hf.scanStop_le (by decide)

/-- The CR at the end of the line is not part of a keyword. -/
theorem le_of_agreesCi {s : Parser} (hf : LineFenced b s) {kw : Bytes}
    (hkw : ∀ c ∈ kw, byteEqCi CR c = false) (hagree : agreesCi s.rest kw = true) :
    kw.length ≤ b - s.pos := by
  by_contra hlt
  have hmem : CR ∈ s.rest.take kw.length := by
    refine List.mem_of_getElem? (i := b - s.pos) ?_
    rw [List.getElem?_take_of_lt (by omega), ← getElem?_pos_add,
      Nat.add_sub_cancel' hf.pos_le, hf.fence]
  have hno : agreesCi (s.rest.take kw.length) kw = false :=
    agreesCi_eq_false hmem (List.length_take_le _ _) hkw
  rw [agreesCi_take, hagree] at hno
  cases hno

theorem expectNil_decisive : LineDecisive lo next expectNil := by
  refine ⟨fun s b e hs hf herr => ?_, fun s b v t hs hf hok => ?_⟩
  · rw [expectNil_run hs.valid] at herr
    split at herr
    · cases herr
    split at herr
    next hshort =>
      rw [Bool.and_eq_true, decide_eq_true_eq, s.length_rest] at hshort
      have hle := le_of_agreesCi hf (by decide +kernel) hshort.2
      have h3 : (ascii "NIL").length = 3 := rfl
      have := (List.getElem?_eq_some_iff.mp hf.fence).1
      omega
    · cases herr
      nofun
  · obtain ⟨hk, rfl⟩ := expectNil_eq_ok hs.valid hok
    simp only [keywordAt, Bool.and_eq_true] at hk
    have hle := le_of_agreesCi hf (by decide +kernel) hk.1.2
    have h3 : (ascii "NIL").length = 3 := rfl
    have := hf.pos_le
    simp only
    omega

/-- There is no literal in front of the fence. -/
theorem parseLiteral_of_fenced {s : Parser} (hf : LineFenced b s) :
    parseLiteral s = .error (.invalidChar s.pos) := by
  obtain ⟨c, hget⟩ : ∃ c, s.input[s.pos]? = some c := ⟨_, List.getElem?_eq_getElem hf.lt⟩
  have hne : c ≠ byte '{' := by
    by_cases heq : c = CR
    · rw [heq]
      decide
    · exact hf.calm s.pos c (Nat.le_refl _) (hf.lt_of_ne hget heq) hget
  rw [parseLiteral_eq, run_position_bind]
  exact run_bind_error (consumeByte_of_ne hget hne)

theorem parseLiteral_decisive : LineDecisive lo next parseLiteral := by
  refine ⟨fun s b e _ hf herr => ?_, fun s b v t _ hf hok => ?_⟩
  · rw [parseLiteral_of_fenced hf] at herr
    cases herr
    nofun
  · rw [parseLiteral_of_fenced hf] at hok
    cases hok

/-- **Productions without an attribute name are decisive.** -/
theorem decisive_of_assembled {p : ParserM α} (h : Assembled (kit false) lo next p) :
    LineDecisive lo next p := by
  refine h.decisive (kit_sound false) (fun hne => hne rfl) ?_
  rintro lo α p (_ | _ | _)
  · exact parseNumber_decisive
  · exact expectNil_decisive
  · exact parseLiteral_decisive

/-! ### Productions that reach the end of the line -/

/-- In front of CRLF, `p` does not ask for more input. -/
def Concludes (lo : ℕ) (next : Option UInt8) (p : ParserM α) : Prop :=
  ∀ ⦃s b⦄, s.Meets lo next → LineFenced b s → s.input[b + 1]? = some LF →
    p s ≠ .error .incomplete

theorem Concludes.bind {p : ParserM α} {q : α → ParserM β} (hp : Assembled (kit false) lo next p)
    (hq : ∀ a, Concludes lo none (q a)) : Concludes lo next (p >>= q) := by
  intro s b hs hf hlf herr
  rcases run_bind_eq_error herr with hpe | ⟨a, t, hpt, hqe⟩
  · exact (decisive_of_assembled hp).error hs hf hpe rfl
  · have hm := (hp.lawful (kit_sound false)).bounded hs hpt
    have hle := (decisive_of_assembled hp).ok hs hf hpt
    exact hq a (hs.moves hm) (hf.moves hm hle) (hm.input ▸ hlf) hqe

theorem Concludes.position_bind {f : ℕ → ParserM β} (hf : ∀ start, Concludes start next (f start)) :
    Concludes lo next (position >>= f) := fun s _ hs hfen hlf =>
  hf s.pos hs.mark hfen hlf

theorem consumeCrlf_concludes (a : α) :
    Concludes lo next (consumeCrlf >>= fun _ => pure a : ParserM α) := by
  intro s b _ hf hlf herr
  rcases run_bind_eq_error herr with he | ⟨_, _, _, hpe⟩
  · obtain ⟨c, hc⟩ : ∃ c, s.input[s.pos]? = some c := ⟨_, List.getElem?_eq_getElem hf.lt⟩
    rw [consumeCrlf_run, hc] at he
    simp only at he
    split at he
    · obtain ⟨d, hd⟩ : ∃ d, s.input[s.pos + 1]? = some d := by
        refine ⟨_, List.getElem?_eq_getElem ?_⟩
        have := (List.getElem?_eq_some_iff.mp hlf).1
        have := hf.pos_le
        omega
      rw [hd] at he
      simp only at he
      split at he <;> cases he
    · cases he
  · cases hpe

theorem line_concludes {p : ParserM α} (hp : Assembled (kit false) lo next p) (g : α → β) :
    Concludes lo next (p >>= fun a => consumeCrlf >>= fun _ => pure (g a)) :=
  .bind hp fun a => consumeCrlf_concludes (g a)

theorem finishOtherDataWithPrefix_concludes : Concludes 0 next finishOtherDataWithPrefix := by
  intro s b hs hf hlf
  have hrun : finishOtherDataWithPrefix s
      = (tokenFrom (findCurrentLineStart s.input s.pos) isRawLineChar (fun bs _ => .ok bs) >>=
          fun line => consumeCrlf >>= fun _ =>
            pure (.data (.other ⟨findCurrentLineStart s.input s.pos, line⟩)) :
            ParserM Response) s := by
    rw [← rawLine_eq]
    exact run_bind_ok rfl
  rw [hrun]
  exact line_concludes (rawLine_assembled _) (fun line => Response.data (.other ⟨_, line⟩))
    ⟨hs.valid, findCurrentLineStart_le _ _, hs.sees⟩ hf hlf

theorem parseNamedDataResponse_concludes : Concludes lo next parseNamedDataResponse := by
  refine .position_bind fun lineStart => .bind parseAtom_assembled fun name => ?_
  cases hbody : namedData name with
  | some body => exact line_concludes (namedData_assembled hbody) Response.data
  | none =>
    simp only [rawLine_eq]
    exact line_concludes (rawLine_assembled lineStart)
      fun line => Response.data (.other ⟨lineStart, line⟩)

theorem finishStatus_concludes (tag : Option Str) (status : Status) :
    Concludes lo next (finishStatus tag status) :=
  line_concludes parseRespTextAfterKeyword_assembled fun r =>
    Response.status ⟨tag, status, r.1, r.2⟩

theorem parseContinueReq_concludes : Concludes lo next parseContinueReq := by
  refine .bind (consumeByte_assembled (by decide)) fun _ => ?_
  refine .bind (consumeByte_assembled (by decide)) fun _ => ?_
  exact line_concludes parseRespText_assembled fun r => Response.continue ⟨r.1, r.2⟩

/-- The keyword stays inside the line. -/
theorem tryParseStatusKeyword_le {s t : Parser} {o : Option Status} (hs : s.Meets lo next)
    (hf : LineFenced b s) (hok : tryParseStatusKeyword s = .ok (o, t)) : t.pos ≤ b := by
  rw [tryParseStatusKeyword_run hs.valid] at hok
  split at hok
  next k hk =>
    cases hok
    have hmem : k ∈ statusKeywords := List.mem_of_find?_eq_some hk
    have hkey := keywordAt_of_statusKeywordAt hk
    simp only [keywordAt, Bool.and_eq_true] at hkey
    have := le_of_agreesCi hf (statusKeywords_not_cr k hmem) hkey.1.2
    have := hf.pos_le
    simp only
    omega
  · cases hok
    exact hf.pos_le

theorem statusDispatch_concludes {f : Option Status → ParserM β}
    (hf : ∀ o, Concludes lo none (f o)) : Concludes lo next (tryParseStatusKeyword >>= f) := by
  intro s b hs hfen hlf herr
  rcases run_bind_eq_error herr with hke | ⟨o, t, hkt, hfe⟩
  · rw [tryParseStatusKeyword_run hs.valid] at hke
    split at hke <;> cases hke
  · have hm := tryParseStatusKeyword_bounded hs hkt
    exact hf o (hs.moves hm) (hfen.moves hm (tryParseStatusKeyword_le hs hfen hkt))
      (hm.input ▸ hlf) hfe

theorem noTaggedStatus_concludes : Concludes lo next noTaggedStatus := by
  intro s b hs hf _ herr
  rw [noTaggedStatus] at herr
  split at herr
  next hpre =>
    rw [couldBeStatusKeywordPrefix_eq, List.any_eq_true] at hpre
    obtain ⟨k, hk, hshort⟩ := hpre
    rw [Bool.and_eq_true, decide_eq_true_eq] at hshort
    have hle := le_of_agreesCi hf (statusKeywords_not_cr k hk) hshort.2
    have := (List.getElem?_eq_some_iff.mp hf.fence).1
    have hlen := hshort.1
    rw [List.length_drop] at hlen
    omega
  · cases herr

theorem parseTagged_concludes : Concludes lo next parseTagged := by
  refine .bind parseTag_assembled fun tag => ?_
  refine .bind (consumeByte_assembled (by decide)) fun _ => statusDispatch_concludes fun o => ?_
  cases o with
  | some status => exact finishStatus_concludes (some tag) status
  | none => exact noTaggedStatus_concludes

/-! ### Attributes that reach the end of the line -/

/-- Where an attribute of a FETCH line begins, and the budget left there. Every attribute before
it is complete and followed by SP. -/
inductive AttStart (line : Bytes) : ℕ → Budget → Prop
  | first {ds kind z : Bytes} :
      line = ascii "* " ++ (ds ++ (SP :: (kind ++ (ascii " (" ++ z)))) → ds ≠ [] →
      (∀ d ∈ ds, isAsciiDigit d = true) → decimalValue ds < 2 ^ 32 →
      eqIgnoreAsciiCase kind (ascii "FETCH") = true → z.head? ≠ some (byte ')') →
      AttStart line (ds.length + kind.length + 5) ⟨MAX_ITEMS_PER_RESPONSE, []⟩
  | next {n : ℕ} {b b' : Budget} {a : FetchAttribute} {t : Parser} :
      AttStart line n b → parseOneFetchAtt ⟨line, n, b⟩ = .ok (a, t) →
      chargeItem t.aux = .ok b' → (line)[t.pos]? = some SP → AttStart line (t.pos + 1) b'

/-- The line is a FETCH response that breaks off inside an attribute name. -/
def StopsInAttName (line : Bytes) : Prop :=
  ∃ n b, AttStart line n b ∧ ∀ c ∈ line.drop n, isAttNameChar c = true

theorem AttStart.le_length {line : Bytes} {n : ℕ} {b : Budget} (h : AttStart line n b) :
    n ≤ line.length := by
  cases h with
  | first hline =>
    have h₁ : (ascii "* ").length = 2 := rfl
    have h₂ : (ascii " (").length = 2 := rfl
    rw [hline]
    simp only [List.length_append, List.length_cons]
    omega
  | next _ _ _ hsp => exact (List.getElem?_eq_some_iff.mp hsp).1

/-- An attribute name that is followed by none of the bytes it stops at is incomplete. -/
theorem parseOneFetchAtt_of_all {s : Parser} (h : ∀ c ∈ s.rest, isAttNameChar c = true) :
    parseOneFetchAtt s = .error .incomplete := by
  have hscan : s.rest.takeWhile isAttNameChar = s.rest := List.takeWhile_eq_self_iff.mpr h
  have hstop : s.input.length ≤ scanStop isAttNameChar s := by
    rw [scanStop, hscan, s.length_rest]
    omega
  have hname : parseFetchAttName s = .error .incomplete := by
    rw [parseFetchAttName_eq, run_position_bind, tokenFrom_eq, List.getElem?_eq_none hstop]
    rfl
  exact run_bind_error hname

/-- An attribute name that was read stays inside the line. -/
theorem checkedAttName_le {s t : Parser} {name : Str} (hf : LineFenced b s)
    (hok : checkedAttName s = .ok (name, t)) : t.pos ≤ b := by
  rw [checkedAttName, run_position_bind, tokenFrom_eq] at hok
  obtain ⟨hver, rfl⟩ := settle_eq_ok hok
  rw [attNameVerdict] at hver
  split at hver
  · split at hver
    · cases hver
    next hcr =>
      by_contra hlt
      rw [slice_scanStop] at hcr
      have hlt : b < scanStop isAttNameChar s := Nat.lt_of_not_le hlt
      refine hcr (List.mem_of_getElem? (i := b - s.pos) ?_)
      rw [List.prefix_iff_eq_take.mp (List.takeWhile_prefix isAttNameChar),
        List.getElem?_take_of_lt (by have := hf.pos_le; rw [scanStop] at hlt; omega),
        ← getElem?_pos_add, Nat.add_sub_cancel' hf.pos_le, hf.fence]
  · cases hver

theorem parseOneFetchAtt_le {s t : Parser} {a : FetchAttribute} (hv : s.Valid)
    (hf : LineFenced b s) (hok : parseOneFetchAtt s = .ok (a, t)) : t.pos ≤ b := by
  rw [parseOneFetchAtt_eq] at hok
  obtain ⟨name, u, hname, hval⟩ := run_bind_eq_ok hok
  have hs := Meets.zero hv
  have hm := checkedAttName_lawful.bounded hs hname
  exact (decisive_of_assembled (fetchAttValue_assembled name)).ok (hs.moves hm)
    (hf.moves hm (checkedAttName_le hf hname)) hval

/-- Only the name of an attribute can ask for more input in front of the end of the line. -/
theorem all_of_parseOneFetchAtt {s : Parser} (hv : s.Valid) (hf : LineFenced b s)
    (herr : parseOneFetchAtt s = .error .incomplete) : ∀ c ∈ s.rest, isAttNameChar c = true := by
  rw [parseOneFetchAtt_eq] at herr
  have hs := Meets.zero hv
  rcases run_bind_eq_error herr with hname | ⟨name, u, hname, hval⟩
  · rw [checkedAttName, run_position_bind, tokenFrom_eq] at hname
    have hver := settle_eq_error hname
    cases hn : s.input[scanStop isAttNameChar s]? with
    | none =>
      have hlen : (s.rest.takeWhile isAttNameChar).length = s.rest.length := by
        have hle := (List.takeWhile_prefix isAttNameChar (l := s.rest)).length_le
        have := List.getElem?_eq_none_iff.mp hn
        rw [s.length_rest] at hle ⊢
        rw [scanStop] at this
        simp only [Valid] at hv
        omega
      exact List.takeWhile_eq_self_iff.mp ((List.takeWhile_prefix _).eq_of_length hlen)
    | some c =>
      rw [hn, attNameVerdict] at hver
      split at hver
      · split at hver <;> cases hver
      next e he =>
        cases hver
        exact absurd rfl (wordVerdict_ne he)
  · have hm := checkedAttName_lawful.bounded hs hname
    exact absurd rfl ((decisive_of_assembled (fetchAttValue_assembled name)).error (hs.moves hm)
      (hf.moves hm (checkedAttName_le hf hname)) hval)

/-! ### The attribute list of a complete line -/

section Line

variable {line y : Bytes} (hbrace : byte '{' ∉ line)

/-- One round of the attribute list. -/
abbrev fetchStep : List FetchAttribute →
    ParserM (Flow (List FetchAttribute) (List FetchAttribute)) :=
  parenListStep parseOneFetchAtt "expected SP or ) in FETCH atts"

/-- The attribute list after its opening parenthesis. -/
abbrev fetchLoop : List FetchAttribute → ParserM (List FetchAttribute) :=
  iterate .unexpectedEof fetchStep

theorem fetchStep_bounded (items : List FetchAttribute) : Bounded lo none (fetchStep items) :=
  (parenListStep_lawful parseOneFetchAtt_element items).bounded

theorem fetchStep_progress : Progress lo fetchStep :=
  parenListStep_progress parseOneFetchAtt_element

include hbrace in
theorem lineFenced {s : Parser} (hin : s.input = line ++ (CRLF ++ y)) (hle : s.pos ≤ line.length) :
    LineFenced line.length s where
  pos_le := hle
  fence := by rw [hin]; simp
  calm i c _ hi hc := by
    rw [hin, List.getElem?_append_left hi] at hc
    rintro rfl
    exact hbrace (List.mem_of_getElem? hc)

/-- A position in front of the end of the line that does not hold its CR is inside the line. -/
theorem lt_length_of_ne {s : Parser} (hin : s.input = line ++ (CRLF ++ y)) {n : ℕ} {c : UInt8}
    (hle : n ≤ line.length) (hc : s.input[n]? = some c) (hne : c ≠ CR) : n < line.length := by
  refine Nat.lt_of_le_of_ne hle fun heq => hne ?_
  rw [heq, hin] at hc
  simpa using hc.symm

/-- What one round does with an attribute that was read. -/
theorem fetchStep_of_ok {items : List FetchAttribute} {s t : Parser} {a : FetchAttribute}
    {b' : Budget} (hatt : parseOneFetchAtt s = .ok (a, t)) (hc : chargeItem t.aux = .ok b')
    {c : UInt8} (hget : t.input[t.pos]? = some c) :
    fetchStep items s
      = if c = SP then .ok (.again (items ++ [a]), ⟨t.input, t.pos + 1, b'⟩)
        else if c = byte ')' then .ok (.done (items ++ [a]), ⟨t.input, t.pos + 1, b'⟩)
        else .error (.malformed "expected SP or ) in FETCH atts") := by
  have hcharge : (charge chargeItem : ParserM Unit) t = .ok ((), ⟨t.input, t.pos, b'⟩) := by
    rw [charge, hc]
  have hpeek : peek ⟨t.input, t.pos, b'⟩ = .ok (c, ⟨t.input, t.pos, b'⟩) := peek_of_some hget
  rw [fetchStep, parenListStep_eq, run_bind_ok hatt, run_bind_ok hcharge, run_bind_ok hpeek]
  by_cases hsp : c = SP
  · rw [if_pos hsp, if_pos hsp]
    rfl
  · rw [if_neg hsp, if_neg hsp]
    by_cases hpar : c = byte ')'
    · rw [if_pos hpar, if_pos hpar]
      rfl
    · rw [if_neg hpar, if_neg hpar]
      rfl

theorem fetchStep_of_error {items : List FetchAttribute} {s : Parser} {e : ParseError}
    (hatt : parseOneFetchAtt s = .error e) : fetchStep items s = .error e :=
  run_bind_error hatt

theorem fetchStep_of_charge_error {items : List FetchAttribute} {s t : Parser}
    {a : FetchAttribute} {e : ParseError} (hatt : parseOneFetchAtt s = .ok (a, t))
    (hc : chargeItem t.aux = .error e) : fetchStep items s = .error e := by
  have hcharge : (charge chargeItem : ParserM Unit) t = .error e := by rw [charge, hc]
  rw [fetchStep, parenListStep_eq, run_bind_ok hatt, run_bind_error hcharge]

/-- An attribute that ends inside the line is read from the line alone. -/
theorem parseOneFetchAtt_line {s t : Parser} {a : FetchAttribute}
    (hin : s.input = line ++ (CRLF ++ y)) (hv : s.Valid) (hatt : parseOneFetchAtt s = .ok (a, t))
    (hlt : t.pos < line.length) :
    parseOneFetchAtt ⟨line, s.pos, s.aux⟩ = .ok (a, ⟨line, t.pos, t.aux⟩) := by
  have hlaw : Lawful .incomplete 0 none parseOneFetchAtt :=
    (parseOneFetchAtt_element.assembled 0).lawful (kit_sound true)
  refine hlaw.determined (Meets.zero hv) hatt ?_ fun i _ hi => ?_
  · rw [hin, List.length_append]
    omega
  · rw [hin, List.getElem?_append_left (Nat.lt_of_le_of_lt hi hlt)]

include hbrace in
/-- **The list of a complete line.** It asks for more input only when the line breaks off inside
an attribute name, and otherwise stays inside the line. -/
theorem fetchLoop_line : ∀ (items : List FetchAttribute) (s : Parser), s.Meets 0 none →
    s.input = line ++ (CRLF ++ y) → AttStart line s.pos s.aux →
    (fetchLoop items s = .error .incomplete →
      StopsInAttName line ∧ ∀ c ∈ y, isAttNameChar c = true) ∧
    ∀ v t, fetchLoop items s = .ok (v, t) → t.pos ≤ line.length := by
  refine iterate_induction fetchStep_bounded fetchStep_progress fun items s hs ih hin hstart => ?_
  have hf : LineFenced line.length s := lineFenced hbrace hin hstart.le_length
  rw [fetchLoop, iterate_eq fetchStep_bounded fetchStep_progress hs]
  cases hatt : parseOneFetchAtt s with
  | error e =>
    rw [fetchStep_of_error hatt]
    refine ⟨fun he => ?_, fun v t ht => by cases ht⟩
    cases he
    have hall := all_of_parseOneFetchAtt hs.valid hf hatt
    rw [rest, hin, List.drop_append_of_le_length hstart.le_length] at hall
    refine ⟨⟨s.pos, s.aux, hstart, fun c hc => hall c (by simp [hc])⟩, fun c hc => ?_⟩
    exact hall c (by simp [hc])
  | ok r =>
    obtain ⟨a, t⟩ := r
    have hm := parseOneFetchAtt_element.bounded hs hatt
    have htin : t.input = line ++ (CRLF ++ y) := hm.input.trans hin
    have hle := parseOneFetchAtt_le hs.valid hf hatt
    obtain ⟨c, hget⟩ : ∃ c, t.input[t.pos]? = some c :=
      ⟨_, List.getElem?_eq_getElem (lineFenced hbrace htin hle).lt⟩
    cases hc : chargeItem t.aux with
    | error e =>
      rw [fetchStep_of_charge_error hatt hc]
      refine ⟨fun he => ?_, fun v t ht => by cases ht⟩
      cases he
      exact absurd rfl (chargeItem_ne hc)
    | ok b' =>
      have hstep : fetchStep items s = _ := fetchStep_of_ok hatt hc hget
      by_cases hsp : c = SP
      · rw [if_pos hsp] at hstep
        have hlt := lt_length_of_ne htin hle hget (by rw [hsp]; decide)
        have hline := parseOneFetchAtt_line hin hs.valid hatt hlt
        rw [htin, List.getElem?_append_left hlt, hsp] at hget
        have hnext := ih _ _ hstep htin (.next (t := ⟨line, t.pos, t.aux⟩) hstart hline hc hget)
        rw [hstep]
        exact hnext
      · rw [if_neg hsp] at hstep
        by_cases hpar : c = byte ')'
        · rw [if_pos hpar] at hstep
          rw [hstep]
          refine ⟨fun he => (by cases he), fun v u hu => ?_⟩
          cases hu
          exact lt_length_of_ne htin hle hget (by rw [hpar]; decide)
        · rw [if_neg hpar] at hstep
          rw [hstep]
          exact ⟨fun he => (by cases he), fun v u hu => (by cases hu)⟩

end Line

/-! ### The header of a FETCH response -/

/-- The end of a FETCH response. -/
def fetchEnd (n : UInt32) (attributes : List FetchAttribute) : ParserM Response := do
  consumeCrlf
  pure (.data (.fetch n attributes))

theorem isAtomChar_of_asciiLower {b : UInt8} (h : 97 ≤ asciiLower b ∧ asciiLower b ≤ 122) :
    isAtomChar b = true ∧ b < 0x80 := by
  have key : ∀ n : Fin 256, 97 ≤ asciiLower (UInt8.ofFin n) ∧ asciiLower (UInt8.ofFin n) ≤ 122 →
      isAtomChar (UInt8.ofFin n) = true ∧ UInt8.ofFin n < 0x80 := by
    decide +kernel
  exact key b.toFin h

/-- The bytes of the word FETCH, in either case. -/
theorem isAtomChar_of_fetch {b c : UInt8} (hc : c ∈ ascii "FETCH") (h : byteEqCi b c = true) :
    isAtomChar b = true ∧ b < 0x80 := by
  have hletters : ∀ c ∈ ascii "FETCH", 97 ≤ asciiLower c ∧ asciiLower c ≤ 122 := by
    decide +kernel
  refine isAtomChar_of_asciiLower ?_
  rw [byteEqCi, beq_iff_eq] at h
  rw [h]
  exact hletters c hc

theorem fetch_bytes {kind : Bytes} (h : eqIgnoreAsciiCase kind (ascii "FETCH") = true) :
    kind.length = 5 ∧ ∀ b ∈ kind, isAtomChar b = true ∧ b < 0x80 := by
  rw [eqIgnoreAsciiCase, Bool.and_eq_true, beq_iff_eq, List.all_eq_true] at h
  obtain ⟨hlen, hall⟩ := h
  refine ⟨hlen, fun b hb => ?_⟩
  obtain ⟨i, hi, rfl⟩ := List.getElem_of_mem hb
  have hzip : i < (kind.zip (ascii "FETCH")).length := by
    rw [List.length_zip]
    omega
  have hmem : (kind[i], (ascii "FETCH")[i]) ∈ kind.zip (ascii "FETCH") :=
    List.mem_iff_getElem.mpr ⟨i, hzip, List.getElem_zip⟩
  exact isAtomChar_of_fetch (List.getElem_mem _) (hall _ hmem)

theorem parseAtom_of_rest {s : Parser} {w z : Bytes} {c : UInt8} (hne : w ≠ [])
    (hw : ∀ b ∈ w, isAtomChar b = true) (hutf : validUtf8 w = true) (hc : isAtomChar c = false)
    (hrest : s.rest = w ++ c :: z) :
    parseAtom s = .ok (⟨w, hutf⟩, { s with pos := s.pos + w.length }) := by
  have hscan : s.rest.takeWhile isAtomChar = w := by
    rw [hrest, List.takeWhile_append_of_pos hw,
      List.takeWhile_cons_of_neg (by rw [hc]; decide), List.append_nil]
  have hnext : s.input[s.pos + w.length]? = some c := by
    rw [s.getElem?_pos_add, hrest]
    simp
  have hstop : scanStop isAtomChar s = s.pos + w.length := by rw [scanStop, hscan]
  have hslice := slice_scanStop isAtomChar s
  rw [hscan, hstop] at hslice
  rw [parseAtom_eq, run_position_bind, tokenFrom_eq, hstop, hnext, hslice, wordVerdict, if_neg hne,
    utf8Verdict, fromUtf8, dif_pos hutf]
  rfl

/-- A number is not a status keyword. -/
theorem statusKeywordAt_digit {d : UInt8} (hd : isAsciiDigit d = true) (z : Bytes) :
    statusKeywordAt (d :: z) = none := by
  have hkey : isKeywordByte d = false := by
    refine Bool.eq_false_iff.mpr fun h => ?_
    rw [(isAtomChar_of_isKeywordByte h).2] at hd
    cases hd
  have happ := statusKeywordAt_append (l := [d]) (List.mem_singleton_self d) hkey z
  rw [List.singleton_append] at happ
  rw [happ, statusKeywordAt, List.find?_eq_none]
  intro k hk hcon
  have hlen : ∀ k ∈ statusKeywords, 2 ≤ k.2.length := by decide
  have := hlen k hk
  have hle := length_le_of_keywordAt hcon
  rw [List.length_singleton] at hle
  omega

theorem eqCi_eq_false_of_length {w : Str} {keyword : String}
    (h : w.bytes.length ≠ (ascii keyword).length) : w.eqCi keyword = false := by
  rw [Str.eqCi, eqIgnoreAsciiCase, beq_eq_false_iff_ne.mpr h, Bool.false_and]

/-- **Reading the header of a FETCH response.** -/
theorem parseResponse_fetch {ds kind z : Bytes} (hne : ds ≠ [])
    (hdig : ∀ d ∈ ds, isAsciiDigit d = true) (hlt : decimalValue ds < 2 ^ 32)
    (hkind : eqIgnoreAsciiCase kind (ascii "FETCH") = true)
    (hz : z.head? ≠ some (byte ')')) {x : Bytes}
    (hx : x = ascii "* " ++ (ds ++ (SP :: (kind ++ (ascii " (" ++ z))))) :
    parseResponse (new x) = (fetchLoop [] >>= fetchEnd (UInt32.ofNatLT (decimalValue ds) hlt))
      ⟨x, ds.length + kind.length + 5, ⟨MAX_ITEMS_PER_RESPONSE, []⟩⟩ := by
  obtain ⟨hlen, hbytes⟩ := fetch_bytes hkind
  have hutf : validUtf8 kind = true := validUtf8_of_lt fun b hb => (hbytes b hb).2
  have hkne : kind ≠ [] := by
    rintro rfl
    cases hlen
  let num := UInt32.ofNatLT (decimalValue ds) hlt
  let aux : Budget := ⟨MAX_ITEMS_PER_RESPONSE, []⟩
  -- the cursor in front of each part of the header
  have h₂ : (⟨x, 2, aux⟩ : Parser).rest = ds ++ (SP :: (kind ++ (ascii " (" ++ z))) := by
    rw [rest, hx]
    rfl
  have h₃ : (⟨x, 2 + ds.length, aux⟩ : Parser).rest = SP :: (kind ++ (ascii " (" ++ z)) :=
    (rest_add ⟨x, 2, aux⟩ ds.length aux).trans (by rw [h₂, List.drop_left])
  have h₄ : (⟨x, 2 + ds.length + 1, aux⟩ : Parser).rest = kind ++ (SP :: byte '(' :: z) :=
    (rest_add ⟨x, 2 + ds.length, aux⟩ 1 aux).trans (by rw [h₃]; rfl)
  have h₅ : (⟨x, 2 + ds.length + 1 + kind.length, aux⟩ : Parser).rest = SP :: byte '(' :: z :=
    (rest_add ⟨x, 2 + ds.length + 1, aux⟩ kind.length aux).trans (by rw [h₄, List.drop_left])
  have h₆ : (⟨x, 2 + ds.length + 1 + kind.length + 1, aux⟩ : Parser).rest = byte '(' :: z :=
    (rest_add ⟨x, 2 + ds.length + 1 + kind.length, aux⟩ 1 aux).trans (by rw [h₅]; rfl)
  have h₇ : (⟨x, 2 + ds.length + 1 + kind.length + 1 + 1, aux⟩ : Parser).rest = z :=
    (rest_add ⟨x, 2 + ds.length + 1 + kind.length + 1, aux⟩ 1 aux).trans (by rw [h₆]; rfl)
  obtain ⟨d, ds', rfl⟩ := List.exists_cons_of_ne_nil hne
  have hd : isAsciiDigit d = true := hdig d List.mem_cons_self
  have hstart : parseResponse (new x) = untaggedData ⟨x, 2, aux⟩ := by
    rw [hx]
    exact parseResponse_untagged (statusKeywordAt_digit hd _)
  have hlist : parseFetchMsgAtt ⟨x, 2 + (d :: ds').length + 1 + kind.length + 1, aux⟩
      = fetchLoop [] ⟨x, 2 + (d :: ds').length + 1 + kind.length + 1 + 1, aux⟩ := by
    rw [parseFetchMsgAtt, parseParenList, run_bind_ok (consumeByte_of_rest h₆),
      run_tryConsume_bind, if_neg (by rwa [Cursor.getElem?_pos, h₇])]
    rfl
  have hpeek : ∀ {n : ℕ} {c : UInt8} {w : Bytes}, (⟨x, n, aux⟩ : Parser).rest = c :: w →
      peek ⟨x, n, aux⟩ = .ok (c, ⟨x, n, aux⟩) := fun h =>
    peek_of_some (by rw [Cursor.getElem?_pos, h]; rfl)
  have e₂ : parseNumber ⟨x, 2, aux⟩ = .ok (num, ⟨x, 2 + (d :: ds').length, aux⟩) :=
    parseNumber_of_rest hne hdig hlt (by simp; decide) h₂
  have e₃ : consumeSp ⟨x, 2 + (d :: ds').length, aux⟩
      = .ok ((), ⟨x, 2 + (d :: ds').length + 1, aux⟩) := consumeByte_of_rest h₃
  have e₄ : parseAtom ⟨x, 2 + (d :: ds').length + 1, aux⟩
      = .ok (⟨kind, hutf⟩, ⟨x, 2 + (d :: ds').length + 1 + kind.length, aux⟩) :=
    parseAtom_of_rest hkne (fun b hb => (hbytes b hb).1) hutf (by decide) h₄
  have e₅ : consumeSp ⟨x, 2 + (d :: ds').length + 1 + kind.length, aux⟩
      = .ok ((), ⟨x, 2 + (d :: ds').length + 1 + kind.length + 1, aux⟩) := consumeByte_of_rest h₅
  have hno : ∀ keyword, (ascii keyword).length ≠ 5 → (⟨kind, hutf⟩ : Str).eqCi keyword = false :=
    fun _ h => eqCi_eq_false_of_length (by rw [hlen]; exact h.symm)
  have hfetch : (⟨kind, hutf⟩ : Str).eqCi "FETCH" = true := hkind
  have hnum : parseNumericDataResponse ⟨x, 2, aux⟩
      = (fetchLoop [] >>= fetchEnd num)
        ⟨x, 2 + (d :: ds').length + 1 + kind.length + 1 + 1, aux⟩ := by
    rw [parseNumericDataResponse, run_bind_ok e₂, run_bind_ok e₃, run_bind_ok e₄,
      hno "EXISTS" (by decide), hno "RECENT" (by decide), hno "EXPUNGE" (by decide),
      if_neg Bool.false_ne_true, if_neg Bool.false_ne_true, if_neg Bool.false_ne_true,
      if_pos hfetch, run_bind_ok e₅, run_bind, run_bind, hlist]
    rfl
  have hpos : 2 + (d :: ds').length + 1 + kind.length + 1 + 1
      = (d :: ds').length + kind.length + 5 := by omega
  rw [hstart, untaggedData, run_bind_ok (hpeek h₂), if_pos hd, hnum, hpos]

/-- A failure for want of input in front of the end of the line comes from the second half. -/
theorem peel {p : ParserM α} {q : α → ParserM β} {s : Parser} (hp : Assembled (kit false) 0 none p)
    (hv : s.Valid) (hf : LineFenced b s) (herr : (p >>= q) s = .error .incomplete) :
    ∃ a t, p s = .ok (a, t) ∧ q a t = .error .incomplete ∧ s.Moves t ∧ LineFenced b t := by
  have hs := Meets.zero hv
  rcases run_bind_eq_error herr with hpe | ⟨a, t, hpt, hqe⟩
  · exact absurd rfl ((decisive_of_assembled hp).error hs hf hpe)
  · have hm := (hp.lawful (kit_sound false)).bounded hs hpt
    exact ⟨a, t, hpt, hqe, hm, hf.moves hm ((decisive_of_assembled hp).ok hs hf hpt)⟩

theorem parseAtom_rest {s t : Parser} {w : Str} (h : parseAtom s = .ok (w, t)) :
    s.rest = w.bytes ++ t.rest := by
  rw [parseAtom_eq, run_position_bind, tokenFrom_eq] at h
  obtain ⟨hver, rfl⟩ := settle_eq_ok h
  rw [wordVerdict_bytes hver, slice_scanStop]
  exact rest_eq_takeWhile_append _ s

/-- A data response that asks for more input in front of the end of the line is a FETCH response
whose attribute list is not empty. -/
theorem fetch_of_untaggedData {s : Parser} (hv : s.Valid) (hf : LineFenced b s)
    (hlf : s.input[b + 1]? = some LF) (h : untaggedData s = .error .incomplete) :
    ∃ ds kind z, s.rest = ds ++ (SP :: (kind ++ (ascii " (" ++ z))) ∧ ds ≠ [] ∧
      (∀ d ∈ ds, isAsciiDigit d = true) ∧ decimalValue ds < 2 ^ 32 ∧
      eqIgnoreAsciiCase kind (ascii "FETCH") = true ∧ z.head? ≠ some (byte ')') ∧
      s.pos + (ds.length + kind.length + 3) ≤ b := by
  have hs := Meets.zero hv
  obtain ⟨c, hget⟩ : ∃ c, s.input[s.pos]? = some c := ⟨_, List.getElem?_eq_getElem hf.lt⟩
  have hpeek : peek s = .ok (c, s) := peek_of_some hget
  rw [untaggedData, run_bind_ok hpeek] at h
  split at h
  case isFalse => exact absurd h (parseNamedDataResponse_concludes hs hf hlf)
  rw [parseNumericDataResponse] at h
  obtain ⟨n, t₁, h₁, h, hm₁, hf₁⟩ := peel parseNumber_assembled hv hf h
  obtain ⟨_, t₂, h₂, h, hm₂, hf₂⟩ := peel (consumeByte_assembled (by decide)) hm₁.valid hf₁ h
  obtain ⟨kind, t₃, h₃, h, hm₃, hf₃⟩ := peel parseAtom_assembled hm₂.valid hf₂ h
  have hlf₃ : t₃.input[b + 1]? = some LF := by
    rw [hm₃.input, hm₂.input, hm₁.input]
    exact hlf
  have hs₃ : t₃.Meets 0 none := .zero hm₃.valid
  split at h
  · exact absurd h (consumeCrlf_concludes _ hs₃ hf₃ hlf₃)
  split at h
  · exact absurd h (consumeCrlf_concludes _ hs₃ hf₃ hlf₃)
  split at h
  · exact absurd h (consumeCrlf_concludes _ hs₃ hf₃ hlf₃)
  split at h
  case isFalse => exact absurd h (finishOtherDataWithPrefix_concludes hs₃ hf₃ hlf₃)
  next hkind =>
    obtain ⟨_, t₄, h₄, h, hm₄, hf₄⟩ := peel (consumeByte_assembled (by decide)) hm₃.valid hf₃ h
    rw [parseFetchMsgAtt, parseParenList, bind_assoc] at h
    obtain ⟨_, t₅, h₅, h, hm₅, hf₅⟩ := peel (consumeByte_assembled (by decide)) hm₄.valid hf₄ h
    obtain ⟨ds, hne, hdig, hn, hds⟩ := parseNumber_rest h₁
    have hlf₅ : t₅.input[b + 1]? = some LF := by
      rw [hm₅.input, hm₄.input]
      exact hlf₃
    have hrest : s.rest = ds ++ (SP :: (kind.bytes ++ (ascii " (" ++ t₅.rest))) := by
      rw [hds, consumeByte_rest h₂, parseAtom_rest h₃, consumeByte_rest h₄, consumeByte_rest h₅]
      rfl
    refine ⟨ds, kind.bytes, t₅.rest, hrest, hne, hdig, hn ▸ n.toNat_lt, hkind, fun hpar => ?_, ?_⟩
    · rw [bind_assoc, run_tryConsume_bind, if_pos (by rw [t₅.getElem?_pos, hpar]), if_pos rfl,
        pure_bind] at h
      have hs₅ : t₅.Meets 0 (some (byte ')')) :=
        ⟨hm₅.valid, Nat.zero_le _, fun c hc => by cases hc; rw [t₅.getElem?_pos, hpar]⟩
      exact absurd h (consumeCrlf_concludes _ (hs₅.moves hs₅.moves_succ)
        (hf₅.advance hs₅ (by decide)) hlf₅)
    · have hlen := congrArg List.length hrest
      have h₂ : (ascii " (").length = 2 := rfl
      have hin₅ : t₅.input.length = s.input.length := by
        rw [hm₅.input, hm₄.input, hm₃.input, hm₂.input, hm₁.input]
      have hv₅ := hm₅.valid
      have hle := hf₅.pos_le
      simp only [List.length_append, List.length_cons, length_rest] at hlen
      simp only [Valid] at hv hv₅
      omega

/-- **Only FETCH can stall.** In front of the end of the line, a response that asks for more input
is a FETCH response whose attribute list is not empty. -/
theorem fetch_of_incomplete {x : Bytes} (hf : LineFenced b (new x)) (hlf : x[b + 1]? = some LF)
    (h : parseResponse (new x) = .error .incomplete) :
    ∃ ds kind z, x = ascii "* " ++ (ds ++ (SP :: (kind ++ (ascii " (" ++ z)))) ∧ ds ≠ [] ∧
      (∀ d ∈ ds, isAsciiDigit d = true) ∧ decimalValue ds < 2 ^ 32 ∧
      eqIgnoreAsciiCase kind (ascii "FETCH") = true ∧ z.head? ≠ some (byte ')') ∧
      ds.length + kind.length + 5 ≤ b := by
  have hs : (new x).Meets 0 none := new_meets x
  rw [parseResponse_eq] at h
  obtain ⟨c, hget⟩ : ∃ c, (new x).input[(new x).pos]? = some c :=
    ⟨_, List.getElem?_eq_getElem hf.lt⟩
  have hpeek : peek (new x) = .ok (c, new x) := peek_of_some hget
  rw [run_bind_ok hpeek] at h
  split at h
  · exact absurd h (parseContinueReq_concludes hs hf hlf)
  split at h
  case isFalse => exact absurd h (parseTagged_concludes hs hf hlf)
  rw [parseUntagged] at h
  obtain ⟨_, t₁, h₁, h, hm₁, hf₁⟩ := peel (consumeByte_assembled (by decide)) hs.valid hf h
  obtain ⟨_, t₂, h₂, h, hm₂, hf₂⟩ := peel (consumeByte_assembled (by decide)) hm₁.valid hf₁ h
  have hin₂ : t₂.input = x := hm₂.input.trans hm₁.input
  -- no status keyword
  rcases run_bind_eq_error h with hke | ⟨o, t₃, hkt, hdata⟩
  · rw [tryParseStatusKeyword_run hm₂.valid] at hke
    split at hke <;> cases hke
  have hm₃ := tryParseStatusKeyword_bounded (Meets.zero hm₂.valid) hkt
  have hf₃ := hf₂.moves hm₃ (tryParseStatusKeyword_le (Meets.zero hm₂.valid) hf₂ hkt)
  have hlf₃ : t₃.input[b + 1]? = some LF := by rw [hm₃.input, hin₂]; exact hlf
  cases o with
  | some status =>
    exact absurd hdata (finishStatus_concludes none status (Meets.zero hm₃.valid) hf₃ hlf₃)
  | none =>
    have ht₃ : t₃ = t₂ := by
      rw [tryParseStatusKeyword_run hm₂.valid] at hkt
      split at hkt
      · cases hkt
      · cases hkt
        rfl
    obtain ⟨ds, kind, z, hrest, hne, hdig, hlt, hkind, hz, hle⟩ :=
      fetch_of_untaggedData hm₃.valid hf₃ hlf₃ hdata
    have hx : x = byte '*' :: SP :: t₃.rest := by
      rw [ht₃, ← consumeByte_rest h₂]
      exact consumeByte_rest h₁
    have hpos : t₃.pos = 2 := by
      have hlen := congrArg List.length hx
      have hv := hm₃.valid
      simp only [Valid] at hv
      simp only [List.length_cons, length_rest] at hlen
      rw [hm₃.input, hin₂] at hlen hv
      omega
    refine ⟨ds, kind, z, ?_, hne, hdig, hlt, hkind, hz, by omega⟩
    rw [hx, hrest]
    rfl

/-- The run of a FETCH line up to the start of an attribute. -/
theorem AttStart.run {line y : Bytes} {n : ℕ} {b : Budget} (h : AttStart line n b) :
    ∃ num items, parseResponse (new (line ++ (CRLF ++ y)))
      = (fetchLoop items >>= fetchEnd num) ⟨line ++ (CRLF ++ y), n, b⟩ := by
  induction h with
  | @first ds kind z hline hne hdig hlt hkind hz =>
    refine ⟨_, [], parseResponse_fetch (z := z ++ (CRLF ++ y)) hne hdig hlt hkind ?_ ?_⟩
    · cases z with
      | nil => exact fun h => absurd (Option.some.inj h) (by decide)
      | cons c cs => exact hz
    · rw [hline]
      simp only [List.append_assoc, List.cons_append]
  | @next n b b' a t hstart hatt hc hsp ih =>
    obtain ⟨num, items, hrun⟩ := ih
    have hlt : t.pos < line.length := (List.getElem?_eq_some_iff.mp hsp).1
    have hlaw : Lawful .incomplete 0 none parseOneFetchAtt :=
      (parseOneFetchAtt_element.assembled 0).lawful (kit_sound true)
    have hv : (⟨line, n, b⟩ : Parser).Valid := hstart.le_length
    have hm := hlaw.bounded (.zero hv) hatt
    have hext := hlaw.ext_ok (.zero hv) hatt hlt (CRLF ++ y)
    have htin : (t.ext (CRLF ++ y)).input = line ++ (CRLF ++ y) := by rw [ext_input, hm.input]
    have hget : (t.ext (CRLF ++ y)).input[t.pos]? = some SP := by
      rw [htin, List.getElem?_append_left hlt, hsp]
    have hstep : fetchStep items ⟨line ++ (CRLF ++ y), n, b⟩
        = .ok (.again (items ++ [a]), ⟨line ++ (CRLF ++ y), t.pos + 1, b'⟩) := by
      have hstep : fetchStep items ⟨line ++ (CRLF ++ y), n, b⟩ = _ := fetchStep_of_ok hext hc hget
      rw [hstep, if_pos rfl, htin]
      rfl
    have hs : (⟨line ++ (CRLF ++ y), n, b⟩ : Parser).Meets 0 none := by
      refine .zero ?_
      simp only [Valid, List.length_append] at hv ⊢
      omega
    refine ⟨num, items ++ [a], ?_⟩
    rw [hrun, run_bind, run_bind, fetchLoop, iterate_eq fetchStep_bounded fetchStep_progress hs,
      hstep]

/-- A header that ends inside the line is a header of the line. -/
theorem AttStart.of_append {line y ds kind z : Bytes}
    (hx : line ++ (CRLF ++ y) = ascii "* " ++ (ds ++ (SP :: (kind ++ (ascii " (" ++ z)))))
    (hne : ds ≠ []) (hdig : ∀ d ∈ ds, isAsciiDigit d = true) (hlt : decimalValue ds < 2 ^ 32)
    (hkind : eqIgnoreAsciiCase kind (ascii "FETCH") = true) (hz : z.head? ≠ some (byte ')'))
    (hle : ds.length + kind.length + 5 ≤ line.length) :
    AttStart line (ds.length + kind.length + 5) ⟨MAX_ITEMS_PER_RESPONSE, []⟩ := by
  have hhead : ∀ w, ascii "* " ++ (ds ++ (SP :: (kind ++ (ascii " (" ++ w))))
      = (ascii "* " ++ (ds ++ (SP :: (kind ++ ascii " (")))) ++ w := by simp
  rw [hhead] at hx
  have hpre : ascii "* " ++ (ds ++ (SP :: (kind ++ ascii " ("))) <+: line := by
    refine List.prefix_of_prefix_length_le ⟨z, hx.symm⟩ (List.prefix_append _ _) ?_
    have h₁ : (ascii "* ").length = 2 := rfl
    have h₂ : (ascii " (").length = 2 := rfl
    simp only [List.length_append, List.length_cons]
    omega
  obtain ⟨w, hw⟩ := hpre
  rw [← hw, List.append_assoc] at hx
  have hzw : w ++ (CRLF ++ y) = z := List.append_cancel_left hx
  refine .first (z := w) (by rw [← hw, hhead]) hne hdig hlt hkind fun hcon => hz ?_
  rw [← hzw, List.head?_append, hcon]
  rfl

/-- **When a complete line is incomplete.** -/
theorem parseResponse_incomplete_iff {line y : Bytes} (hbrace : byte '{' ∉ line) :
    parseResponse (new (line ++ (CRLF ++ y))) = .error .incomplete ↔
      StopsInAttName line ∧ ∀ c ∈ y, isAttNameChar c = true := by
  constructor
  · intro h
    have hf : LineFenced line.length (new (line ++ (CRLF ++ y))) :=
      lineFenced hbrace rfl (Nat.zero_le _)
    have hlf : (line ++ (CRLF ++ y))[line.length + 1]? = some LF := by simp
    obtain ⟨ds, kind, z, hx, hne, hdig, hlt, hkind, hz, hle⟩ := fetch_of_incomplete hf hlf h
    rw [parseResponse_fetch hne hdig hlt hkind hz hx] at h
    have hstart := AttStart.of_append hx hne hdig hlt hkind hz hle
    have hs : (⟨line ++ (CRLF ++ y), ds.length + kind.length + 5, ⟨MAX_ITEMS_PER_RESPONSE, []⟩⟩ :
        Parser).Meets 0 none := by
      refine .zero ?_
      simp only [Valid, List.length_append]
      omega
    obtain ⟨hinc, hok⟩ := fetchLoop_line hbrace [] _ hs rfl hstart
    rcases run_bind_eq_error h with hloop | ⟨v, t, hloop, hend⟩
    · exact hinc hloop
    · have hm := iterate_bounded fetchStep_bounded fetchStep_progress [] hs hloop
      exact absurd hend (consumeCrlf_concludes _ (hs.moves hm)
        (lineFenced hbrace hm.input (hok v t hloop)) (by rw [hm.input]; exact hlf))
  · rintro ⟨⟨n, b, hstart, hline⟩, hy⟩
    obtain ⟨num, items, hrun⟩ := hstart.run (y := y)
    have hs : (⟨line ++ (CRLF ++ y), n, b⟩ : Parser).Meets 0 none := by
      refine .zero ?_
      have := hstart.le_length
      simp only [Valid, List.length_append]
      omega
    have hall : ∀ c ∈ (⟨line ++ (CRLF ++ y), n, b⟩ : Parser).rest, isAttNameChar c = true := by
      intro c hc
      rw [rest, List.drop_append_of_le_length hstart.le_length] at hc
      simp only [List.mem_append] at hc
      rcases hc with hc | hc | hc
      · exact hline c hc
      · revert c
        decide +kernel
      · exact hy c hc
    rw [hrun]
    refine run_bind_error ?_
    rw [fetchLoop, iterate_eq fetchStep_bounded fetchStep_progress hs,
      fetchStep_of_error (parseOneFetchAtt_of_all hall)]

end Parser

/-! ### Complete lines -/

theorem parseResponse_line_ne_incomplete {line : Bytes} (hbrace : byte '{' ∉ line) (y : Bytes) :
    parseResponse (line ++ CRLF ++ y) ≠ .error .incomplete ↔
      ¬ (Parser.StopsInAttName line ∧ ∀ c ∈ y, Parser.isAttNameChar c = true) := by
  rw [← Parser.parseResponse_incomplete_iff hbrace, List.append_assoc]
  refine not_congr ⟨parseResponse_eq_error, fun h => ?_⟩
  rw [parseResponse, h]

/-- **A complete line is decided** unless it breaks off inside a FETCH attribute name and nothing
after it ends that name. The line may hold anything but the brace of a literal. -/
theorem parseResponse_line_decided_iff (line y : Bytes) (hbrace : byte '{' ∉ line) :
    parseResponse (line ++ CRLF ++ y) ≠ .error .incomplete ↔
      ¬ (Parser.StopsInAttName line ∧ ∀ c ∈ y, Parser.isAttNameChar c = true) :=
  parseResponse_line_ne_incomplete hbrace y

/-- A line that breaks off inside a name, followed by the beginning of a tagged response. -/
theorem parseResponse_line_decided_iff_uid :
    parseResponse (ascii "* 1 FETCH (UID" ++ CRLF ++ ascii "A0001 OK") ≠ .error .incomplete ↔
      ¬ (Parser.StopsInAttName (ascii "* 1 FETCH (UID") ∧
        ∀ c ∈ ascii "A0001 OK", Parser.isAttNameChar c = true) :=
  parseResponse_line_decided_iff _ _ (by decide)

/-- A line is decided whatever follows exactly if it does not break off inside a name. Then nothing
that follows is looked at: the response is the same, or the line is an error. -/
theorem parseResponse_line_settled {line : Bytes} (hbrace : byte '{' ∉ line) :
    ((∀ y, parseResponse (line ++ CRLF ++ y) ≠ .error .incomplete) ↔
      ¬ Parser.StopsInAttName line) ∧
    (¬ Parser.StopsInAttName line →
      (∃ rest r, ∀ y, parseResponse (line ++ CRLF ++ y) = .ok (rest ++ y, r)) ∨
        ∀ y, ∃ e, e ≠ .incomplete ∧ parseResponse (line ++ CRLF ++ y) = .error e) := by
  have hdecided : ∀ {y}, ¬ Parser.StopsInAttName line →
      parseResponse (line ++ CRLF ++ y) ≠ .error .incomplete := fun h =>
    (parseResponse_line_ne_incomplete hbrace _).mpr fun hstops => h hstops.1
  refine ⟨⟨fun hall hstops => ?_, fun h y => hdecided h⟩, fun h => ?_⟩
  · exact (parseResponse_line_ne_incomplete hbrace []).mp (hall []) ⟨hstops, by simp⟩
  · have hline := hdecided (y := []) h
    rw [List.append_nil] at hline
    cases hparse : parseResponse (line ++ CRLF) with
    | ok v => exact .inl ⟨v.1, v.2, parseResponse_append_ok hparse⟩
    | error e =>
      have hne : e ≠ .incomplete := fun he => hline (hparse.trans (by rw [he]))
      exact .inr (parseResponse_append_error hparse hne)

/-- **A complete line can be reported as incomplete.** -/
theorem parseResponse_line_stalls :
    ¬ ∀ line y : Bytes, CR ∉ line → LF ∉ line → byte '{' ∉ line →
      parseResponse (line ++ CRLF ++ y) ≠ .error .incomplete := fun h =>
  h (ascii "* 1 FETCH (UID") [] (by decide) (by decide) (by decide) (by decide)

end ImapRs
