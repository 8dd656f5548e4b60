import ImapRs.Core.Parser
import ImapRs.Incremental.Assembled
import Mathlib

/-!
# Tokens of the grammar

The scanners of the parser, each brought to the form `tokenFrom start p verdict`: scan over a
class of bytes, then judge the slice in the light of the byte that stopped the scan. All of them
ask for more input when they have not seen that byte, with two exceptions that are treated on
their own: `parseNumber` and `expectNil` may succeed at the end of the buffer.

## Main definitions

* `wordVerdict`, `textVerdict`, `untilVerdict`, `codeVerdict`, `numberVerdict` — the judges
* `Prim`, `kit` — the primitives the productions are assembled from

## Main results

* `parseAtom_eq` and its siblings — the scanners as tokens
* `kit_sound` — the primitives are lawful
-/

namespace ImapRs

open Incremental Incremental.Cursor

namespace Parser

/-! ### Judges -/

/-- `core::str::from_utf8(..).map_err(|_| ParseError::Other("Invalid UTF-8"))`. -/
def utf8Verdict (bs : Bytes) : Except ParseError Str :=
  match fromUtf8 bs with
  | some s => .ok s
  | none => .error (.other "Invalid UTF-8")

/-- A non-empty token. -/
def wordVerdict (what : String) (bs : Bytes) : Option UInt8 → Except ParseError Str
  | none => .error .incomplete
  | some _ => if bs = [] then .error (.malformed what) else utf8Verdict bs

/-- A possibly empty token. -/
def textVerdict (bs : Bytes) : Option UInt8 → Except ParseError Str
  | none => .error .incomplete
  | some _ => utf8Verdict bs

/-- A token that has to be ended by a byte in `stop`. -/
def untilVerdict (stop : UInt8 → Bool) (err : ParseError) (bs : Bytes) :
    Option UInt8 → Except ParseError Str
  | none => .error .incomplete
  | some c => if stop c then utf8Verdict bs else .error err

/-- A non-empty token that has to be ended by a byte in `stop`. -/
def codeVerdict (stop : UInt8 → Bool) (err : ParseError) (what : String) (bs : Bytes) :
    Option UInt8 → Except ParseError Str
  | none => .error .incomplete
  | some c =>
    if stop c then if bs = [] then .error (.malformed what) else utf8Verdict bs else .error err

/-- A run of digits; unlike the others it may end at the end of the buffer. -/
def numberVerdict (bs : Bytes) (next : Option UInt8) : Except ParseError UInt32 :=
  if bs = [] then if next = none then .error .incomplete else .error .invalidNumber
  else
    match fromUtf8 bs with
    | none => .error .invalidNumber
    | some s =>
      match parseU32 s.bytes with
      | some n => .ok n
      | none => .error .invalidNumber

/-! ### The scanners as tokens -/

theorem slice_scanStop (p : UInt8 → Bool) (s : Parser) :
    (s.input.take (scanStop p s)).drop s.pos = s.rest.takeWhile p :=
  upTo_scanStop p s

theorem skipWhile_bind {β : Type} (p : UInt8 → Bool) (f : Unit → ParserM β) (s : Parser) :
    (skipWhile p >>= f) s = f () { s with pos := scanStop p s } :=
  run_bind_ok (skipWhile_eq p s)

theorem isEof_iff {s : Parser} : s.input.length ≤ s.pos ↔ s.input[s.pos]? = none :=
  List.getElem?_eq_none_iff.symm

theorem toStr_run (bs : Bytes) (s : Parser) :
    toStr bs s = settle s (utf8Verdict bs) := by
  rw [toStr, utf8Verdict]
  cases fromUtf8 bs <;> rfl

theorem isEof_bind {β : Type} (f : Bool → ParserM β) (s : Parser) :
    (isEof >>= f) s = f (decide (s.input.length ≤ s.pos)) s := rfl

theorem scannedText_run (start : ℕ) (s : Parser) :
    scannedText start s
      = settle s (textVerdict ((s.input.take s.pos).drop start) s.input[s.pos]?) := by
  rw [scannedText, isEof_bind]
  cases hn : s.input[s.pos]? with
  | none =>
    rw [decide_eq_true (isEof_iff.mpr hn)]
    rfl
  | some c =>
    rw [decide_eq_false fun h => by rw [isEof_iff.mp h] at hn; cases hn]
    exact toStr_run _ s

/-- The scan shared by atoms, tags and flags, when it starts at or after `start`. -/
theorem word_run {p : UInt8 → Bool} {what : String} {start : ℕ} {s : Parser}
    (hle : start ≤ s.pos) :
    (do
      skipWhile p
      if start = (← position) then
        if ← isEof then fail .incomplete else fail (.malformed what)
      else scannedText start : ParserM Str) s = tokenFrom start p (wordVerdict what) s := by
  have hge : start ≤ scanStop p s := Nat.le_trans hle (le_scanStop p s)
  rw [skipWhile_bind, tokenFrom_eq]
  change (if start = scanStop p s then _ else _ : ParserM Str) _ = _
  cases hn : s.input[scanStop p s]? with
  | none =>
    by_cases heq : start = scanStop p s
    · rw [if_pos heq, isEof_bind, decide_eq_true (isEof_iff.mpr hn)]
      rfl
    · rw [if_neg heq, scannedText_run]
      simp only [hn]
      rfl
  | some c =>
    have hlt : scanStop p s < s.input.length := (List.getElem?_eq_some_iff.mp hn).1
    have hlen : ((s.input.take (scanStop p s)).drop start).length = scanStop p s - start := by
      rw [List.length_drop, List.length_take, Nat.min_eq_left (Nat.le_of_lt hlt)]
    by_cases heq : start = scanStop p s
    · have hnil : (s.input.take (scanStop p s)).drop start = [] :=
        List.length_eq_zero_iff.mp (by omega)
      rw [if_pos heq, hnil, isEof_bind, decide_eq_false fun h => by
        rw [isEof_iff.mp h] at hn; cases hn]
      rfl
    · have hne : (s.input.take (scanStop p s)).drop start ≠ [] := fun h => by
        rw [h, List.length_nil] at hlen
        omega
      rw [if_neg heq, scannedText_run, wordVerdict, if_neg hne]
      simp only [hn, textVerdict]

/-- A scan that remembers its own starting point. -/
theorem word_eq (p : UInt8 → Bool) (what : String) :
    (do
      let start ← position
      skipWhile p
      if start = (← position) then
        if ← isEof then fail .incomplete else fail (.malformed what)
      else scannedText start : ParserM Str)
      = position >>= fun start => tokenFrom start p (wordVerdict what) := by
  funext s
  exact word_run (Nat.le_refl _)

theorem parseAtom_eq :
    parseAtom = position >>= fun start => tokenFrom start isAtomChar
      (wordVerdict "expected atom") :=
  word_eq _ _

theorem parseTag_eq :
    parseTag = position >>= fun start => tokenFrom start isTagChar (wordVerdict "expected tag") :=
  word_eq _ _

theorem parseText_eq :
    parseText = position >>= fun start => tokenFrom start isTextChar textVerdict := by
  funext s
  rw [parseText, run_position_bind, skipWhile_bind, scannedText_run]
  rfl

theorem parseFetchAttName_eq :
    parseFetchAttName = position >>= fun start =>
      tokenFrom start isAttNameChar (wordVerdict "expected FETCH att name") := by
  funext s
  have hslice := slice_scanStop isAttNameChar s
  rw [parseFetchAttName, run_position_bind, run_position_bind, skipWhile_bind, tokenFrom_eq,
    isEof_bind]
  cases hn : s.input[scanStop isAttNameChar s]? with
  | none =>
    rw [decide_eq_true (isEof_iff.mpr hn)]
    rfl
  | some c =>
    rw [decide_eq_false fun h => by rw [isEof_iff.mp h] at hn; cases hn]
    change (if s.pos = scanStop isAttNameChar s then _ else _ : ParserM Str) _ = _
    rw [wordVerdict, hslice]
    by_cases heq : s.pos = scanStop isAttNameChar s
    · have hnil : s.rest.takeWhile isAttNameChar = [] :=
        List.length_eq_zero_iff.mp (by rw [scanStop] at heq; omega)
      rw [if_pos heq, if_pos hnil]
      rfl
    · have hne : s.rest.takeWhile isAttNameChar ≠ [] := fun h => heq (by
        rw [scanStop, h, List.length_nil, Nat.add_zero])
      rw [if_neg heq, if_neg hne]
      change toStr ((s.input.take (scanStop isAttNameChar s)).drop s.pos) _ = _
      rw [hslice, toStr_run]

theorem parseNumber_eq :
    parseNumber = position >>= fun start => tokenFrom start isAsciiDigit numberVerdict := by
  funext s
  have hslice := slice_scanStop isAsciiDigit s
  rw [parseNumber, run_position_bind, run_position_bind, skipWhile_bind, tokenFrom_eq,
    numberVerdict, hslice]
  change (if s.pos = scanStop isAsciiDigit s then _ else _ : ParserM UInt32) _ = _
  by_cases heq : s.pos = scanStop isAsciiDigit s
  · have hnil : s.rest.takeWhile isAsciiDigit = [] :=
      List.length_eq_zero_iff.mp (by rw [scanStop] at heq; omega)
    rw [if_pos heq, if_pos hnil, isEof_bind]
    cases hn : s.input[scanStop isAsciiDigit s]? with
    | none =>
      rw [decide_eq_true (isEof_iff.mpr hn)]
      rfl
    | some c =>
      rw [decide_eq_false fun h => by rw [isEof_iff.mp h] at hn; cases hn]
      rfl
  · have hne : s.rest.takeWhile isAsciiDigit ≠ [] := fun h => heq (by
      rw [scanStop, h, List.length_nil, Nat.add_zero])
    rw [if_neg heq, if_neg hne]
    change (match fromUtf8 ((s.input.take (scanStop isAsciiDigit s)).drop s.pos) with
      | none => fail .invalidNumber
      | some t => match parseU32 t.bytes with
        | some n => pure n
        | none => fail .invalidNumber : ParserM UInt32) _ = _
    rw [hslice]
    cases fromUtf8 (s.rest.takeWhile isAsciiDigit) with
    | none => rfl
    | some t =>
      simp only
      cases parseU32 t.bytes <;> rfl

theorem scanUntil_bind {β : Type} (stop : UInt8 → Bool) (err : ParseError)
    (f : Unit → ParserM β) (s : Parser) :
    (scanUntil stop err >>= f) s
      = match s.input[scanStop (fun c => !(stop c || c == CR || c == LF)) s]? with
        | some c => if stop c then f () { s with
            pos := scanStop (fun c => !(stop c || c == CR || c == LF)) s } else .error err
        | none => f () { s with pos := scanStop (fun c => !(stop c || c == CR || c == LF)) s } := by
  rw [run_bind, scanUntil, skipWhile_bind]
  simp only
  cases s.input[scanStop (fun c => !(stop c || c == CR || c == LF)) s]? with
  | none => rfl
  | some c =>
    simp only
    by_cases hc : stop c
    · rw [if_pos hc, if_pos hc]
    · rw [if_neg hc, if_neg hc]

theorem readUntilByte_eq (terminator : UInt8) :
    readUntilByte terminator = position >>= fun start =>
      tokenFrom start (fun c => !(c == terminator || c == CR || c == LF))
        (untilVerdict (· == terminator) (.malformed "CR/LF before terminator")) := by
  funext s
  rw [readUntilByte, run_position_bind, run_position_bind, scanUntil_bind, tokenFrom_eq]
  simp only [scannedText_run]
  cases hn : s.input[scanStop (fun c => !(c == terminator || c == CR || c == LF)) s]? with
  | none => rfl
  | some c =>
    simp only [textVerdict, untilVerdict]
    split <;> rfl

theorem parseCodeAtom_eq :
    parseCodeAtom = position >>= fun start =>
      tokenFrom start (fun c => !((c == byte ']' || c == SP) || c == CR || c == LF))
        (codeVerdict (fun c => c == byte ']' || c == SP)
          (.malformed "CR/LF inside response code") "empty response code") := by
  funext s
  have hslice := slice_scanStop (fun c => !((c == byte ']' || c == SP) || c == CR || c == LF)) s
  rw [parseCodeAtom, run_position_bind, run_position_bind, scanUntil_bind, tokenFrom_eq, hslice]
  generalize hstop : scanStop (fun c => !((c == byte ']' || c == SP) || c == CR || c == LF)) s = n
    at hslice ⊢
  cases hn : s.input[n]? with
  | none =>
    simp only
    rw [isEof_bind, decide_eq_true (isEof_iff.mpr hn)]
    rfl
  | some c =>
    simp only
    rw [isEof_bind, decide_eq_false fun h => by
      rw [isEof_iff (s := { s with pos := n })] at h
      rw [h] at hn
      cases hn]
    simp only [codeVerdict]
    split
    · change (if s.pos = n then _ else _ : ParserM Str) _ = _
      by_cases heq : s.pos = n
      · have hnil : s.rest.takeWhile
            (fun c => !((c == byte ']' || c == SP) || c == CR || c == LF)) = [] :=
          List.length_eq_zero_iff.mp (by rw [← hstop, scanStop] at heq; omega)
        rw [if_pos heq, if_pos hnil]
        rfl
      · have hne : s.rest.takeWhile
            (fun c => !((c == byte ']' || c == SP) || c == CR || c == LF)) ≠ [] := fun h => heq (by
          rw [← hstop, scanStop, h, List.length_nil, Nat.add_zero])
        rw [if_neg heq, if_neg hne]
        change toStr ((s.input.take n).drop s.pos) _ = _
        rw [hslice, toStr_run]
    · rfl

/-! ### Words and texts at the end of the buffer -/

variable {lo : ℕ} {next : Option UInt8}

theorem wordVerdict_none {what : String} {bs : Bytes} {e : ParseError}
    (h : wordVerdict what bs none = .error e) : e = .incomplete := by
  cases h; rfl

theorem parseAtom_firm : Firm lo next parseAtom := by
  rw [parseAtom_eq]
  exact .position_bind fun _ => tokenFrom_firm fun _ _ h => nomatch h

theorem parseAtom_stuck : Stuck .incomplete parseAtom := by
  rw [parseAtom_eq]
  exact tokenFrom_stuck rfl

theorem parseTag_firm : Firm lo next parseTag := by
  rw [parseTag_eq]
  exact .position_bind fun _ => tokenFrom_firm fun _ _ h => nomatch h

theorem parseText_stuck : Stuck .incomplete parseText := by
  rw [parseText_eq]
  exact tokenFrom_stuck rfl

theorem parseFetchAttName_stuck : Stuck .incomplete parseFetchAttName := by
  rw [parseFetchAttName_eq]
  exact tokenFrom_stuck rfl

theorem parseCodeAtom_firm : Firm lo next parseCodeAtom := by
  rw [parseCodeAtom_eq]
  exact .position_bind fun _ => tokenFrom_firm fun _ _ h => nomatch h

/-! ### Single bytes -/

theorem peek_stuck : Stuck .incomplete peek := Incremental.peek_stuck

theorem consumeByte_of_eq {b : UInt8} {s : Parser} (h : s.input[s.pos]? = some b) :
    consumeByte b s = .ok ((), { s with pos := s.pos + 1 }) := by
  rw [consumeByte, run_bind_ok (peek_of_some h), if_pos rfl]
  rfl

theorem consumeByte_of_ne {b c : UInt8} {s : Parser} (h : s.input[s.pos]? = some c)
    (hne : c ≠ b) : consumeByte b s = .error (.invalidChar s.pos) := by
  rw [consumeByte, run_bind_ok (peek_of_some h), if_neg hne]
  rfl

theorem consumeByte_eq_ok {b : UInt8} {s t : Parser} {v : Unit}
    (h : consumeByte b s = .ok (v, t)) :
    s.input[s.pos]? = some b ∧ t = { s with pos := s.pos + 1 } := by
  rw [consumeByte] at h
  obtain ⟨c, u, hp, hu⟩ := run_bind_eq_ok h
  obtain ⟨hc, rfl⟩ := peek_eq_ok hp
  split at hu
  next heq => cases hu; exact ⟨heq ▸ hc, rfl⟩
  · cases hu

theorem consumeByte_stuck (b : UInt8) : Stuck .incomplete (consumeByte b) := peek_stuck.bind _

theorem consumeByte_consumes (b : UInt8) : Consumes lo next (consumeByte b) := by
  intro s v t _ h
  rw [(consumeByte_eq_ok h).2]
  exact Nat.lt_succ_self _

theorem consumeByte_exact (b : UInt8) : Exact lo next (consumeByte b) := by
  intro s v t hs h x hx
  obtain ⟨hb, rfl⟩ := consumeByte_eq_ok h
  have hxb : x[s.pos]? = some b := by rw [hx s.pos hs.lo_le (Nat.lt_succ_self _), hb]
  rw [consumeByte_of_eq (s := s.withInput x) hxb]
  rfl

theorem consumeByte_bounded (b : UInt8) : Bounded lo next (consumeByte b) := by
  intro s v t hs h
  obtain ⟨hb, rfl⟩ := consumeByte_eq_ok h
  exact (hs.see hb).moves_succ

theorem consumeByte_firm (b : UInt8) : Firm lo next (consumeByte b) :=
  (consumeByte_exact b).firm (consumeByte_bounded b)

/-! ### The end of the line -/

theorem consumeCrlf_run (s : Parser) : consumeCrlf s = match s.input[s.pos]? with
    | none => .error .incomplete
    | some c =>
      if c = CR then
        match s.input[s.pos + 1]? with
        | some b =>
          if b = LF then .ok ((), { s with pos := s.pos + 2 })
          else .error (.malformed "expected LF after CR")
        | none => .error .incomplete
      else .error (.malformed "expected CR") := by
  cases hc : s.input[s.pos]? with
  | none => exact run_bind_error (peek_atEnd (isEof_iff.mpr hc))
  | some c =>
    rw [consumeCrlf, run_bind_ok (peek_of_some hc), ite_not]
    simp only
    by_cases h : c = CR
    · rw [if_pos h]
      refine Eq.trans ?_ (if_pos h).symm
      cases s.input[s.pos + 1]? <;> rfl
    · rw [if_neg h]
      exact (if_neg h).symm

theorem consumeCrlf_eq_ok {s t : Parser} {v : Unit} (h : consumeCrlf s = .ok (v, t)) :
    s.input[s.pos]? = some CR ∧ s.input[s.pos + 1]? = some LF ∧
      t = { s with pos := s.pos + 2 } := by
  rw [consumeCrlf_run] at h
  split at h
  · cases h
  next c hc =>
    split at h
    next hcr =>
      split at h
      next b hb =>
        split at h
        next hlf => cases h; exact ⟨hcr ▸ hc, hlf ▸ hb, rfl⟩
        · cases h
      · cases h
    · cases h

theorem consumeCrlf_of_eq {s : Parser} (hc : s.input[s.pos]? = some CR)
    (hl : s.input[s.pos + 1]? = some LF) :
    consumeCrlf s = .ok ((), { s with pos := s.pos + 2 }) := by
  rw [consumeCrlf_run, hc, hl]
  rfl

theorem consumeCrlf_stuck : Stuck .incomplete consumeCrlf := peek_stuck.bind _

theorem consumeCrlf_bounded : Bounded lo next consumeCrlf := by
  intro s v t hs h
  obtain ⟨_, hl, rfl⟩ := consumeCrlf_eq_ok h
  exact ⟨rfl, Nat.le_add_right _ _, (List.getElem?_eq_some_iff.mp hl).1⟩

theorem consumeCrlf_exact : Exact lo next consumeCrlf := by
  intro s v t hs h x hx
  obtain ⟨hc, hl, rfl⟩ := consumeCrlf_eq_ok h
  have hle := hs.lo_le
  have hxc : x[s.pos]? = some CR := by rw [hx s.pos hle (by simp), hc]
  have hxl : x[s.pos + 1]? = some LF := by rw [hx (s.pos + 1) (by omega) (by simp), hl]
  rw [consumeCrlf_of_eq (s := s.withInput x) hxc hxl]
  rfl

theorem consumeCrlf_firm : Firm lo next consumeCrlf := consumeCrlf_exact.firm consumeCrlf_bounded

theorem consumeCrlf_lawful : Lawful .incomplete lo next consumeCrlf where
  bounded := consumeCrlf_bounded
  determined s v t hs h hlt x hx :=
    consumeCrlf_exact hs h fun i h₁ h₂ => hx i h₁ (Nat.le_of_lt h₂)
  permanent s e hs h hne y := by
    refine ⟨e, hne, ?_⟩
    rw [consumeCrlf_run] at h ⊢
    rw [ext_input, ext_pos]
    cases hc : s.input[s.pos]? with
    | none => rw [hc] at h; cases h; exact absurd rfl hne
    | some c =>
      rw [List.getElem?_append_left (List.getElem?_eq_some_iff.mp hc).1, hc]
      rw [hc] at h
      simp only at h ⊢
      split at h
      next hcr =>
        rw [if_pos hcr]
        cases hl : s.input[s.pos + 1]? with
        | none => rw [hl] at h; cases h; exact absurd rfl hne
        | some b =>
          rw [List.getElem?_append_left (List.getElem?_eq_some_iff.mp hl).1, hl]
          rw [hl] at h
          simp only at h ⊢
          split at h
          · cases h
          next hlf => rw [if_neg hlf]; exact h
      next hcr => rw [if_neg hcr]; exact h

/-! ### Numbers -/

theorem decimalValue_append (ds es : Bytes) : decimalValue ds ≤ decimalValue (ds ++ es) := by
  have hgrow : ∀ (es : Bytes) (n : ℕ), n ≤ es.foldl (fun n d => n * 10 + (d.toNat - 48)) n := by
    intro es
    induction es with
    | nil => intro n; exact Nat.le_refl _
    | cons d es ih => intro n; exact Nat.le_trans (by omega) (ih (n * 10 + (d.toNat - 48)))
  rw [decimalValue, decimalValue, List.foldl_append]
  exact hgrow es _

theorem validUtf8_of_lt {bs : Bytes} (h : ∀ b ∈ bs, b < 0x80) : validUtf8 bs = true := by
  induction bs with
  | nil => rfl
  | cons b bs ih =>
    rw [validUtf8.eq_def]
    simp only
    rw [if_pos (h b List.mem_cons_self)]
    exact ih fun c hc => h c (List.mem_cons_of_mem _ hc)

theorem isAsciiDigit_iff {b : UInt8} : isAsciiDigit b = true ↔ 48 ≤ b ∧ b ≤ 57 := by
  simp [isAsciiDigit]

theorem lt_of_isAsciiDigit {b : UInt8} (h : isAsciiDigit b = true) : b < 0x80 := by
  have := (isAsciiDigit_iff.mp h).2
  exact UInt8.lt_of_le_of_lt this (by decide)

theorem fromUtf8_digits {ds : Bytes} (h : ∀ d ∈ ds, isAsciiDigit d = true) :
    fromUtf8 ds = some ⟨ds, validUtf8_of_lt fun b hb => lt_of_isAsciiDigit (h b hb)⟩ := by
  rw [fromUtf8, dif_pos]

/-- On digits alone, `parse::<u32>` is the bound on the value. -/
theorem parseU32_digits {ds : Bytes} (hne : ds ≠ []) (h : ∀ d ∈ ds, isAsciiDigit d = true) :
    parseU32 ds
      = if h : decimalValue ds < 2 ^ 32 then some (UInt32.ofNatLT (decimalValue ds) h)
        else none := by
  have hhead : ds.head? ≠ some (byte '+') := by
    intro hplus
    have := h _ (List.mem_of_mem_head? hplus)
    exact absurd this (by decide)
  rw [parseU32]
  simp only [if_neg hhead]
  rw [if_pos ⟨hne, List.all_eq_true.mpr h⟩]

/-- The verdict on a run of digits, whatever follows it. -/
theorem numberVerdict_digits {ds : Bytes} (hne : ds ≠ []) (h : ∀ d ∈ ds, isAsciiDigit d = true)
    (next : Option UInt8) : numberVerdict ds next
      = if h : decimalValue ds < 2 ^ 32 then .ok (UInt32.ofNatLT (decimalValue ds) h)
        else .error .invalidNumber := by
  rw [numberVerdict, if_neg hne, fromUtf8_digits h]
  simp only
  rw [parseU32_digits hne h]
  by_cases hlt : decimalValue ds < 2 ^ 32
  · rw [dif_pos hlt, dif_pos hlt]
  · rw [dif_neg hlt, dif_neg hlt]

theorem parseNumber_run (s : Parser) : parseNumber s
    = settle { s with pos := scanStop isAsciiDigit s }
        (numberVerdict (s.rest.takeWhile isAsciiDigit) s.input[scanStop isAsciiDigit s]?) := by
  rw [parseNumber_eq, run_position_bind, tokenFrom_eq, slice_scanStop]

theorem takeWhile_digits (l : Bytes) : ∀ d ∈ l.takeWhile isAsciiDigit, isAsciiDigit d = true :=
  fun _ hd => List.mem_takeWhile_imp hd

/-- A run of digits that reaches the end of the buffer only gets longer. -/
theorem takeWhile_rest_ext {p : UInt8 → Bool} {s : Parser} (hv : s.Valid)
    (hend : s.input.length ≤ scanStop p s) (y : Bytes) :
    (s.ext y).rest.takeWhile p = s.rest.takeWhile p ++ y.takeWhile p := by
  have hlen : (s.rest.takeWhile p).length = s.rest.length := by
    have hle := (List.takeWhile_prefix p (l := s.rest)).length_le
    rw [s.length_rest] at hle ⊢
    rw [scanStop] at hend
    simp only [Valid] at hv
    omega
  have hall : s.rest.takeWhile p = s.rest := (List.takeWhile_prefix p).eq_of_length hlen
  rw [rest_ext hv, List.takeWhile_append, if_pos hlen, hall]

theorem parseNumber_lawful : Lawful .incomplete lo next parseNumber := by
  have htok : Bounded lo next parseNumber ∧ Determined lo next parseNumber := by
    rw [parseNumber_eq]
    refine ⟨fun s v t hs h => tokenFrom_bounded _ _ hs.mark h, fun s v t hs h hlt x hx => ?_⟩
    exact tokenFrom_determined _ _ hs.mark h hlt (hx.mono hs.lo_le (Nat.le_refl _))
  refine ⟨htok.1, htok.2, fun s e hs herr hne y => ?_⟩
  by_cases hlt : scanStop isAsciiDigit s < s.input.length
  · refine ⟨e, hne, ?_⟩
    rw [parseNumber_eq] at herr ⊢
    exact tokenFrom_ext hs.mark hlt y herr
  · -- overflow on the digits seen so far is overflow on all of them
    have hend := Nat.le_of_not_lt hlt
    rw [parseNumber_run, List.getElem?_eq_none hend] at herr
    have herr := settle_eq_error herr
    by_cases hnil : s.rest.takeWhile isAsciiDigit = []
    · rw [hnil] at herr
      cases herr
      exact absurd rfl hne
    rw [numberVerdict_digits hnil (takeWhile_digits _)] at herr
    split at herr
    · cases herr
    next hbig =>
      refine ⟨.invalidNumber, by decide, ?_⟩
      have hmore := takeWhile_rest_ext hs.valid hend y
      have hnil' : (s.ext y).rest.takeWhile isAsciiDigit ≠ [] := by
        rw [hmore]
        exact List.append_ne_nil_of_left_ne_nil hnil _
      rw [parseNumber_run, numberVerdict_digits hnil' (takeWhile_digits _), dif_neg]
      · rfl
      · rw [hmore]
        exact fun h => hbig (Nat.lt_of_le_of_lt (decimalValue_append _ _) h)

theorem parseNumber_soft : Soft .incomplete lo next parseNumber := by
  intro s v t hs hok hend y
  rw [parseNumber_run] at hok
  obtain ⟨hver, rfl⟩ := settle_eq_ok hok
  have hmore := takeWhile_rest_ext hs.valid hend y
  have hnil : s.rest.takeWhile isAsciiDigit ≠ [] := by
    intro hnil
    rw [hnil, List.getElem?_eq_none hend] at hver
    cases hver
  have hnil' : (s.ext y).rest.takeWhile isAsciiDigit ≠ [] := by
    rw [hmore]
    exact List.append_ne_nil_of_left_ne_nil hnil _
  rw [parseNumber_run, numberVerdict_digits hnil' (takeWhile_digits _)]
  split
  · exact .inl ⟨_, _, rfl, rfl⟩
  · exact .inr ⟨_, by decide, rfl⟩

/-! ### Keywords

A keyword is compared with as much of the rest as there is, so what matters is the comparison of
the common prefix: `agreesCi rest kw`. -/

/-- The two agree, up to case, as far as the shorter one goes. -/
def agreesCi (l kw : Bytes) : Bool := (l.zip kw).all fun p => byteEqCi p.1 p.2

theorem agreesCi_append (l y kw : Bytes) :
    agreesCi (l ++ y) kw = (agreesCi l kw && agreesCi y (kw.drop l.length)) := by
  induction l generalizing kw with
  | nil => simp [agreesCi]
  | cons a l ih =>
    cases kw with
    | nil => simp [agreesCi]
    | cons k kw =>
      have h := ih kw
      simp only [agreesCi, List.cons_append, List.zip_cons_cons, List.all_cons, List.length_cons,
        List.drop_succ_cons] at h ⊢
      rw [h, Bool.and_assoc]

theorem agreesCi_of_length_le {l kw : Bytes} (h : kw.length ≤ l.length) (y : Bytes) :
    agreesCi (l ++ y) kw = agreesCi l kw := by
  rw [agreesCi_append, List.drop_eq_nil_of_le h]
  simp [agreesCi]

theorem agreesCi_eq_false {l kw : Bytes} {b : UInt8} (hb : b ∈ l) (hlen : l.length ≤ kw.length)
    (h : ∀ c ∈ kw, byteEqCi b c = false) : agreesCi l kw = false := by
  obtain ⟨i, hi, rfl⟩ := List.getElem_of_mem hb
  by_contra hcon
  rw [Bool.not_eq_false, agreesCi, List.all_eq_true] at hcon
  have hzip : i < (l.zip kw).length := by rw [List.length_zip]; omega
  have hmem : (l[i], kw[i]) ∈ l.zip kw := List.mem_iff_getElem.mpr ⟨i, hzip, List.getElem_zip⟩
  have := hcon _ hmem
  rw [h _ (List.getElem_mem _)] at this
  cases this

theorem agreesCi_take (l kw : Bytes) : agreesCi (l.take kw.length) kw = agreesCi l kw := by
  rcases Nat.le_total l.length kw.length with h | h
  · rw [List.take_of_length_le h]
  · have hlen : (l.take kw.length).length = kw.length := by rw [List.length_take]; omega
    conv_rhs => rw [← List.take_append_drop kw.length l]
    rw [agreesCi_of_length_le (Nat.le_of_eq hlen.symm)]

theorem matchesCi_eq {s : Parser} (hv : s.Valid) (kw : Bytes) :
    matchesCi s kw = (decide (kw.length ≤ s.rest.length) && agreesCi s.rest kw) := by
  have hiff : s.pos + kw.length ≤ s.input.length ↔ kw.length ≤ s.rest.length := by
    rw [s.length_rest]
    simp only [Valid] at hv
    omega
  rw [matchesCi]
  by_cases h : kw.length ≤ s.rest.length
  · rw [if_pos (hiff.mpr h), decide_eq_true h, Bool.true_and, ← agreesCi_take]
    rfl
  · rw [if_neg (fun h' => h (hiff.mp h')), decide_eq_false h, Bool.false_and]

/-- The keyword is there in full and is not the beginning of a longer word. -/
def keywordAt (rest kw : Bytes) : Bool :=
  decide (kw.length ≤ rest.length) && agreesCi rest kw &&
    match rest[kw.length]? with
    | none => true
    | some b => isBoundary b

theorem tryConsumeKeywordCi_run {s : Parser} (hv : s.Valid) (kw : Bytes) :
    tryConsumeKeywordCi kw s = if keywordAt s.rest kw then
      .ok (true, { s with pos := s.pos + kw.length }) else .ok (false, s) := by
  rw [tryConsumeKeywordCi, matchesCi_eq hv, s.getElem?_pos_add]
  simp only [keywordAt]
  by_cases hm : (decide (kw.length ≤ s.rest.length) && agreesCi s.rest kw) = true
  · simp only [hm, Bool.not_true, Bool.false_eq_true, if_false, Bool.true_and]
    cases s.rest[kw.length]? with
    | none => rfl
    | some b =>
      simp only [Bool.not_eq_true']
      by_cases hb : isBoundary b = true
      · rw [if_pos hb, if_neg (by rw [hb]; decide)]
      · rw [if_neg hb, if_pos (Bool.not_eq_true _ ▸ hb)]
  · rw [Bool.not_eq_true] at hm
    simp only [hm, Bool.not_false, if_true, Bool.false_and, Bool.false_eq_true, if_false]

theorem length_le_of_keywordAt {rest kw : Bytes} (h : keywordAt rest kw = true) :
    kw.length ≤ rest.length := by
  simp only [keywordAt, Bool.and_eq_true, decide_eq_true_eq] at h
  exact h.1.1

/-- A keyword followed by a byte is decided by what has been seen. -/
theorem tryConsumeKeywordCi_bounded (kw : Bytes) : Bounded lo next (tryConsumeKeywordCi kw) := by
  intro s v t hs h
  rw [tryConsumeKeywordCi_run hs.valid] at h
  split at h
  next hkw =>
    cases h
    have hle := length_le_of_keywordAt hkw
    have hv := hs.valid
    rw [s.length_rest] at hle
    simp only [Valid] at hv
    exact ⟨rfl, Nat.le_add_right _ _, by simp only [Valid]; omega⟩
  · cases h
    exact Moves.refl hs.valid

theorem keywordAt_append {l kw : Bytes} (h : kw.length < l.length) (y : Bytes) :
    keywordAt (l ++ y) kw = keywordAt l kw := by
  have hle : kw.length ≤ l.length := Nat.le_of_lt h
  have hle' : kw.length ≤ (l ++ y).length := by rw [List.length_append]; omega
  rw [keywordAt, keywordAt, agreesCi_of_length_le hle, List.getElem?_append_left h,
    decide_eq_true hle, decide_eq_true hle']

/-! ### NIL -/

theorem expectNil_run {s : Parser} (hv : s.Valid) : expectNil s
    = if keywordAt s.rest (ascii "NIL") then .ok ((), { s with pos := s.pos + 3 })
      else if s.rest.length < 3 && agreesCi s.rest (ascii "NIL") then .error .incomplete
      else .error (.malformed "expected nstring") := by
  rw [expectNil, run_bind, tryConsumeKeywordCi_run hv]
  by_cases h : keywordAt s.rest (ascii "NIL")
  · rw [if_pos h, if_pos h]
    rfl
  · rw [if_neg h, if_neg h]
    rfl

theorem expectNil_eq_ok {s t : Parser} {v : Unit} (hv : s.Valid) (h : expectNil s = .ok (v, t)) :
    keywordAt s.rest (ascii "NIL") = true ∧ t = { s with pos := s.pos + 3 } := by
  rw [expectNil_run hv] at h
  split at h
  next hk => cases h; exact ⟨hk, rfl⟩
  · split at h <;> cases h

theorem expectNil_bounded : Bounded lo next expectNil := by
  intro s v t hs h
  obtain ⟨hk, rfl⟩ := expectNil_eq_ok hs.valid h
  have hlen := length_le_of_keywordAt hk
  rw [s.length_rest] at hlen
  have h3 : (ascii "NIL").length = 3 := rfl
  have hv := hs.valid
  simp only [Valid] at hv
  exact ⟨rfl, Nat.le_add_right _ _, by simp only [Valid]; omega⟩

/-- A refused `NIL` stays refused. -/
theorem expectNil_ext_of_malformed {s : Parser} (hv : s.Valid)
    (hk : keywordAt s.rest (ascii "NIL") = false)
    (hp : (decide (s.rest.length < 3) && agreesCi s.rest (ascii "NIL")) = false) (y : Bytes) :
    expectNil (s.ext y) = .error (.malformed "expected nstring") := by
  have h3 : (ascii "NIL").length = 3 := rfl
  rw [expectNil_run (hv.ext y), rest_ext hv]
  rcases Nat.lt_trichotomy s.rest.length 3 with hlt | heq | hgt
  · have hno : agreesCi s.rest (ascii "NIL") = false := by simpa [hlt] using hp
    have hno' : agreesCi (s.rest ++ y) (ascii "NIL") = false := by
      rw [agreesCi_append, hno, Bool.false_and]
    simp [keywordAt, hno']
  · have hno : agreesCi s.rest (ascii "NIL") = false := by
      rw [keywordAt, List.getElem?_eq_none (by omega)] at hk
      simpa [heq, h3] using hk
    have hno' : agreesCi (s.rest ++ y) (ascii "NIL") = false := by
      rw [agreesCi_append, hno, Bool.false_and]
    simp [keywordAt, hno']
  · have hlen : ¬ (s.rest ++ y).length < 3 := by rw [List.length_append]; omega
    rw [keywordAt_append (by omega), hk]
    simp only [Bool.false_eq_true, if_false, hlen, decide_false, Bool.false_and]

theorem expectNil_lawful : Lawful .incomplete lo next expectNil where
  bounded := expectNil_bounded
  determined s v t hs h hlt x hx := by
    obtain ⟨hk, rfl⟩ := expectNil_eq_ok hs.valid h
    have h3 : (ascii "NIL").length = 3 := rfl
    have hm := hs.withInput hx (Nat.le_add_right _ _) hlt
    -- the rest agrees on the keyword and the byte after it
    have htake : (s.withInput x).rest.take 4 = s.rest.take 4 := by
      have hslice := hx.slice_eq hs.lo_le (b := s.pos + 4) (Nat.le_refl _)
      simp only [List.drop_take, Nat.add_sub_cancel_left] at hslice
      exact hslice
    have hlen : 4 ≤ s.rest.length := by
      rw [s.length_rest]
      simp only at hlt
      omega
    have hkey : ∀ l : Bytes, 4 ≤ l.length →
        keywordAt l (ascii "NIL") = keywordAt (l.take 4) (ascii "NIL") := by
      intro l hl
      conv_lhs => rw [← List.take_append_drop 4 l]
      exact keywordAt_append (by rw [List.length_take]; omega) _
    have hlen' : 4 ≤ (s.withInput x).rest.length := by
      have := congrArg List.length htake
      rw [List.length_take, List.length_take] at this
      omega
    rw [expectNil_run hm.valid, hkey _ hlen', htake, ← hkey _ hlen, hk]
    rfl
  permanent s e hs h hne y := by
    rw [expectNil_run hs.valid] at h
    split at h
    · cases h
    next hk =>
      split at h
      · cases h; exact absurd rfl hne
      next hp =>
        exact ⟨_, by decide, expectNil_ext_of_malformed hs.valid (by simpa using hk)
          (by simpa using hp) y⟩

theorem expectNil_soft : Soft .incomplete lo next expectNil := by
  intro s v t hs h hend y
  have hv := hs.valid
  obtain ⟨hk, rfl⟩ := expectNil_eq_ok hv h
  have h3 : (ascii "NIL").length = 3 := rfl
  have hlen := length_le_of_keywordAt hk
  have hlen' : ¬ (s.ext y).rest.length < 3 := by
    rw [rest_ext hv, List.length_append]
    omega
  rw [expectNil_run (hv.ext y)]
  split
  · exact .inl ⟨_, _, rfl, rfl⟩
  · refine .inr ⟨_, ?_, if_neg ?_⟩
    · decide
    · simp [hlen']

/-! ### Literals -/

theorem literalPayload_run (brace n : ℕ) (s : Parser) : literalPayload brace n s
    = if s.input.length < s.pos + n then .error .incomplete
      else .ok (⟨s.pos, (s.input.drop s.pos).take n⟩, { s with
        pos := s.pos + n
        aux := { s.aux with literals := s.aux.literals ++
          [⟨⟨brace, (s.input.take s.pos).drop brace⟩,
            ⟨s.pos, (s.input.drop s.pos).take n⟩⟩] } }) := rfl

theorem literalPayload_bounded (n : ℕ) : Bounded lo next (literalPayload lo n) := by
  intro s v t hs h
  rw [literalPayload_run] at h
  split at h
  · cases h
  next hle => cases h; exact ⟨rfl, Nat.le_add_right _ _, Nat.le_of_not_lt hle⟩

theorem literalPayload_determined (n : ℕ) : Determined lo next (literalPayload lo n) := by
  intro s v t hs h hlt x hx
  rw [literalPayload_run] at h ⊢
  split at h
  · cases h
  next hle =>
    cases h
    simp only at hlt hx
    have hlen := hx.lt_length (Nat.le_trans hs.lo_le (Nat.le_add_right _ _)) hlt
    have hheader : (x.take s.pos).drop lo = (s.input.take s.pos).drop lo :=
      hx.slice_eq (Nat.le_refl _) (by omega)
    have hdata : (x.drop s.pos).take n = (s.input.drop s.pos).take n := by
      have hslice := hx.slice_eq hs.lo_le (b := s.pos + n) (Nat.le_succ _)
      simpa only [List.drop_take, Nat.add_sub_cancel_left] using hslice
    rw [withInput_input, withInput_pos, withInput_aux, if_neg (by omega), hheader, hdata]
    rfl

theorem literalPayload_lawful (n : ℕ) : Lawful .incomplete lo next (literalPayload lo n) where
  bounded := literalPayload_bounded n
  determined := literalPayload_determined n
  permanent s e hs h hne y := by
    rw [literalPayload_run] at h
    split at h
    · cases h; exact absurd rfl hne
    · cases h

theorem literalPayload_firm (brace n : ℕ) : Firm lo next (literalPayload brace n) := by
  intro s v t hs h y
  have hv := hs.valid
  rw [literalPayload_run] at h ⊢
  split at h
  · cases h
  next hle =>
    cases h
    have hle := Nat.le_of_not_lt hle
    have hlen : n ≤ (s.input.drop s.pos).length := by rw [List.length_drop]; omega
    simp only [Valid] at hv
    rw [ext_input, ext_pos, ext_aux, if_neg (by rw [List.length_append]; omega),
      List.take_append_of_le_length hv, List.drop_append_of_le_length hv,
      List.take_append_of_le_length hlen]
    rfl

/-- What follows the header of a literal. -/
def literalBody (brace : ℕ) (n : UInt32) : ParserM Slice :=
  if MAX_LITERAL_SIZE < n.toNat then fail (.literalTooLarge n.toNat MAX_LITERAL_SIZE)
  else literalPayload brace n.toNat

theorem literalBody_lawful (n : UInt32) : Lawful .incomplete lo next (literalBody lo n) := by
  rw [literalBody]
  split
  · exact .fail nofun
  · exact literalPayload_lawful _

theorem literalBody_firm (brace : ℕ) (n : UInt32) : Firm lo next (literalBody brace n) := by
  rw [literalBody]
  split
  · exact fun _ _ _ _ h => nomatch h
  · exact literalPayload_firm _ _

theorem consumeByte_lawful (b : UInt8) : Lawful .incomplete lo next (consumeByte b) where
  bounded := consumeByte_bounded b
  determined s v t hs h hlt x hx :=
    consumeByte_exact b hs h fun i h₁ h₂ => hx i h₁ (Nat.le_of_lt h₂)
  permanent s e hs h hne y := by
    cases hc : s.input[s.pos]? with
    | none =>
      rw [consumeByte_stuck b hs.valid (isEof_iff.mpr hc)] at h
      cases h
      exact absurd rfl hne
    | some c =>
      have hcy : (s.ext y).input[(s.ext y).pos]? = some c := (hs.see hc).ext y |>.sees c rfl
      by_cases hcb : c = b
      · rw [consumeByte_of_eq (hcb ▸ hc)] at h
        cases h
      · exact ⟨.invalidChar s.pos, nofun, consumeByte_of_ne hcy hcb⟩

/-- What follows the opening brace of a literal. -/
def literalTail (brace : ℕ) : ParserM Slice := do
  let n ← parseNumber
  consumeByte (byte '}')
  consumeCrlf
  literalBody brace n

theorem parseLiteral_eq : parseLiteral = position >>= fun brace =>
    consumeByte (byte '{') >>= fun _ => literalTail brace := rfl

theorem literalTail_lawful : Lawful .incomplete lo next (literalTail lo) := by
  refine .bind parseNumber_lawful (fun n => ?_) (.inr fun n => ?_)
  · refine .bind (consumeByte_lawful _) (fun _ => ?_) (.inl (consumeByte_firm _))
    exact .bind consumeCrlf_lawful (fun _ => literalBody_lawful n) (.inl consumeCrlf_firm)
  · exact ((consumeByte_stuck _).bind _).patient

theorem literalTail_firm (brace : ℕ) : Firm lo next (literalTail brace) := by
  refine .bind parseNumber_lawful (.inr fun n => (consumeByte_stuck _).hungry.bind _) fun n => ?_
  refine .bind (consumeByte_lawful _) (.inl (consumeByte_firm _)) fun _ => ?_
  exact .bind consumeCrlf_lawful (.inl consumeCrlf_firm) fun _ => literalBody_firm _ n

theorem parseLiteral_lawful : Lawful .incomplete lo next parseLiteral := by
  rw [parseLiteral_eq]
  refine .position_bind fun brace => ?_
  exact .bind (consumeByte_lawful _) (fun _ => literalTail_lawful) (.inl (consumeByte_firm _))

theorem parseLiteral_firm : Firm lo next parseLiteral := by
  rw [parseLiteral_eq]
  refine .position_bind fun brace => ?_
  exact .bind (consumeByte_lawful _) (.inl (consumeByte_firm _)) fun _ => literalTail_firm brace

theorem parseLiteral_consumes : Consumes lo next parseLiteral := by
  rw [parseLiteral_eq]
  refine .position_bind fun brace => ?_
  exact .bind_left (consumeByte_bounded _) (consumeByte_consumes _) fun _ =>
    literalTail_lawful.bounded

/-! ### Attribute names

The scan of an attribute name runs through CR and LF, but no attribute has such a name. Refusing
the name on the spot gives the same parser, and one whose successes stay inside a line. -/

/-- The verdict on an attribute name, with names that hold a CR refused as unknown. -/
def attNameVerdict (bs : Bytes) (next : Option UInt8) : Except ParseError Str :=
  match wordVerdict "expected FETCH att name" bs next with
  | .ok name => if CR ∈ bs then .error (.malformed "unknown FETCH attribute") else .ok name
  | .error e => .error e

/-- An attribute name without a CR. -/
def checkedAttName : ParserM Str := do
  let start ← position
  tokenFrom start isAttNameChar attNameVerdict

theorem utf8Verdict_ne {bs : Bytes} {e : ParseError} (h : utf8Verdict bs = .error e) :
    e ≠ .incomplete := by
  rw [utf8Verdict] at h
  split at h <;> cases h
  nofun

theorem wordVerdict_ne {what : String} {bs : Bytes} {c : UInt8} {e : ParseError}
    (h : wordVerdict what bs (some c) = .error e) : e ≠ .incomplete := by
  rw [wordVerdict] at h
  split at h
  · cases h; nofun
  · exact utf8Verdict_ne h

theorem checkedAttName_lawful : Lawful .incomplete lo next checkedAttName :=
  .position_bind fun _ => .token fun _ _ h => by cases h; rfl

theorem checkedAttName_firm : Firm lo next checkedAttName :=
  .position_bind fun _ => tokenFrom_firm fun _ _ h => nomatch h

/-! ### The kit -/

/-- The primitive readers of the grammar; everything else is assembled from them. Attribute names
are primitive only when `att` is set: a law that they break holds of the rest of the grammar. -/
inductive Prim : Bool → ℕ → {α : Type} → ParserM α → Prop
  | number (att : Bool) (lo : ℕ) : Prim att lo parseNumber
  | nil (att : Bool) (lo : ℕ) : Prim att lo expectNil
  | literal (att : Bool) (lo : ℕ) : Prim att lo parseLiteral
  | attName (lo : ℕ) : Prim true lo checkedAttName

/-- What productions are assembled from. Only CR may not be stepped over. -/
def kit (att : Bool) : Kit UInt8 Budget ParseError where
  inc := .incomplete
  stuck := .unexpectedEof
  cost := chargeItem
  Step := (· ≠ CR)
  Prim := Prim att

theorem chargeItem_ne {b : Budget} {e : ParseError} (h : chargeItem b = .error e) :
    e ≠ .incomplete := by
  rw [chargeItem] at h
  split at h
  · cases h; nofun
  · cases h

theorem kit_sound (att : Bool) : (kit att).Sound where
  cost_ne _ _ h := chargeItem_ne h
  prim lo _ p h := by
    cases h with
    | number => exact parseNumber_lawful
    | nil => exact expectNil_lawful
    | literal => exact parseLiteral_lawful
    | attName => exact checkedAttName_lawful

end Parser

end ImapRs
