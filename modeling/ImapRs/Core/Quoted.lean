import ImapRs.Core.Lines

/-!
# Quoted strings, written and read back

A quoted string holds any text without CR, LF and NUL, once the quote and the backslash are
escaped. `parse_quoted` returns the bytes between the quotes as they stand, so what it returns is
the *escaped* text: reading undoes quoting up to `unescape`.

## Main definitions

* `escape`, `unescape` — one byte, or two where the byte needs an escape
* `isEscaped` — the bytes that may stand between the quotes

## Main results

* `parseQuoted_of_rest` — any escaped text between quotes is read back as it stands
* `isEscaped_escape`, `unescape_escape` — escaping makes it so, and is undone
* `parseQuoted_ok`, `escape_unescape` — whatever is read is the escape of what it stands for
-/

namespace ImapRs

open Incremental Cursor

/-- What a byte of the text becomes between quotes. -/
def escapeByte (b : UInt8) : Bytes :=
  if b = byte '"' ∨ b = byte '\\' then [byte '\\', b] else [b]

/-- The text as it stands between quotes. -/
def escape (text : Bytes) : Bytes := text.flatMap escapeByte

/-- The text that an escaped text stands for. -/
def unescape : Bytes → Bytes
  | [] => []
  | c :: t =>
    if c = byte '\\' then
      match t with
      | d :: t => d :: unescape t
      | [] => []
    else c :: unescape t

/-- The bytes that stand for themselves between quotes. -/
def isQuotedChar (c : UInt8) : Bool :=
  !(c == byte '"' || c == byte '\\' || c == CR || c == LF || c == 0)

/-- Whether the bytes can stand between quotes: escapes are complete, and escape what they may. -/
def isEscaped : Bytes → Bool
  | [] => true
  | c :: t =>
    if c = byte '\\' then
      match t with
      | d :: t => (d == byte '"' || d == byte '\\') && isEscaped t
      | [] => false
    else isQuotedChar c && isEscaped t

/-- The text of a quoted string: no CR, LF or NUL. -/
def isQuotable (text : Bytes) : Bool := text.all fun b => !(b == CR || b == LF || b == 0)

theorem escape_cons (b : UInt8) (t : Bytes) : escape (b :: t) = escapeByte b ++ escape t := rfl

theorem unescape_cons {c : UInt8} (h : c ≠ byte '\\') (t : Bytes) :
    unescape (c :: t) = c :: unescape t := by
  cases t <;> simp [unescape, h]

theorem isEscaped_cons {c : UInt8} (h : c ≠ byte '\\') (t : Bytes) :
    isEscaped (c :: t) = (isQuotedChar c && isEscaped t) := by
  cases t <;> simp [isEscaped, h]

theorem unescape_escape (text : Bytes) : unescape (escape text) = text := by
  induction text with
  | nil => rfl
  | cons b t ih =>
    rw [escape_cons, escapeByte]
    by_cases h : b = byte '"' ∨ b = byte '\\'
    · rw [if_pos h]
      simp [unescape, ih]
    · rw [if_neg h, List.singleton_append, unescape_cons fun hb => h (.inr hb), ih]

theorem isEscaped_escape {text : Bytes} (h : isQuotable text = true) :
    isEscaped (escape text) = true := by
  induction text with
  | nil => rfl
  | cons b t ih =>
    obtain ⟨hb, ht⟩ : _ ∧ isQuotable t = true := by simpa [isQuotable] using h
    rw [escape_cons, escapeByte]
    by_cases hq : b = byte '"' ∨ b = byte '\\'
    · rw [if_pos hq]
      simp [isEscaped, hq, ih ht]
    · rw [if_neg hq, List.singleton_append, isEscaped_cons fun hb => hq (.inr hb), ih ht]
      simp only [not_or] at hq
      simp [isQuotedChar, hq.1, hq.2, hb]

theorem escape_unescape {raw : Bytes} (h : isEscaped raw = true) : escape (unescape raw) = raw := by
  fun_induction isEscaped raw with
  | case1 => rfl
  | case2 d t ih =>
    obtain ⟨hd, ht⟩ := Bool.and_eq_true_iff.mp h
    have hd : d = byte '"' ∨ d = byte '\\' := by simpa using hd
    rw [unescape, if_pos rfl, escape_cons, ih ht, escapeByte, if_pos hd, List.cons_append,
      List.singleton_append]
  | case3 => cases h
  | case4 c t hc ih =>
    obtain ⟨hchar, ht⟩ := Bool.and_eq_true_iff.mp h
    have hquote : c ≠ byte '"' := by
      rintro rfl
      exact absurd hchar (by decide)
    rw [unescape_cons hc, escape_cons, ih ht, escapeByte, if_neg (by simp [hquote, hc]),
      List.singleton_append]

theorem isQuotable_unescape {raw : Bytes} (h : isEscaped raw = true) :
    isQuotable (unescape raw) = true := by
  fun_induction isEscaped raw with
  | case1 => rfl
  | case2 d t ih =>
    obtain ⟨hd, ht⟩ := Bool.and_eq_true_iff.mp h
    have hd : d = byte '"' ∨ d = byte '\\' := by simpa using hd
    have hplain : !(d == CR || d == LF || d == 0) := by
      rcases hd with rfl | rfl <;> decide
    rw [unescape, if_pos rfl, isQuotable, List.all_cons, hplain, Bool.true_and]
    exact ih ht
  | case3 => cases h
  | case4 c t hc ih =>
    obtain ⟨hchar, ht⟩ := Bool.and_eq_true_iff.mp h
    have hplain : !(c == CR || c == LF || c == 0) := by
      simp only [isQuotedChar, Bool.not_eq_true', Bool.or_eq_false_iff] at hchar
      simp [hchar]
    rw [unescape_cons hc, isQuotable, List.all_cons, hplain, Bool.true_and]
    exact ih ht

/-! ### Escaping keeps text valid -/

theorem escapeByte_of_le {b : UInt8} (h : 0x80 ≤ b) : escapeByte b = [b] := by
  refine if_neg ?_
  rintro (rfl | rfl) <;> exact absurd h (by decide)

theorem le_of_isContinuation {b : UInt8} (h : isContinuation b = true) : 0x80 ≤ b := by
  simp only [isContinuation, Bool.and_eq_true, decide_eq_true_eq] at h
  exact h.1

theorem validUtf8_cons_of_lt {a : UInt8} (h : a < 0x80) (t : Bytes) :
    validUtf8 (a :: t) = validUtf8 t := by
  conv_lhs => unfold validUtf8
  exact if_pos h

theorem validUtf8_escapeByte_append {a : UInt8} (h : a < 0x80) (t : Bytes) :
    validUtf8 (escapeByte a ++ t) = validUtf8 t := by
  rw [escapeByte]
  split
  · rw [List.cons_append, List.singleton_append, validUtf8_cons_of_lt (by decide),
      validUtf8_cons_of_lt h]
  · exact validUtf8_cons_of_lt h t

theorem escape_cons_of_le {b : UInt8} (h : 0x80 ≤ b) (t : Bytes) :
    escape (b :: t) = b :: escape t := by
  rw [escape_cons, escapeByte_of_le h, List.singleton_append]

/-- The second byte of a longer sequence, whatever range the first byte leaves it. -/
theorem le_of_second {p q : Prop} [Decidable p] [Decidable q] {b l u l' u' : UInt8}
    (hl : 0x80 ≤ l) (hl' : 0x80 ≤ l')
    (h : (if p then decide (l ≤ b) && decide (b ≤ u)
      else if q then decide (l' ≤ b) && decide (b ≤ u') else isContinuation b) = true) :
    0x80 ≤ b := by
  split at h
  · simp only [Bool.and_eq_true, decide_eq_true_eq] at h
    exact UInt8.le_trans hl h.1
  split at h
  · simp only [Bool.and_eq_true, decide_eq_true_eq] at h
    exact UInt8.le_trans hl' h.1
  · exact le_of_isContinuation h

/-- The bytes of a character beyond ASCII are not escaped, so the text stays UTF-8. -/
theorem validUtf8_escape {text : Bytes} (h : validUtf8 text = true) :
    validUtf8 (escape text) = true := by
  fun_induction validUtf8 text with
  | case1 => rfl
  | case2 a t ha ih => rw [escape_cons, validUtf8_escapeByte_append ha, ih h]
  | case3 a ha ha' b t ih =>
    obtain ⟨hb, ht⟩ := Bool.and_eq_true_iff.mp h
    rw [escape_cons_of_le (UInt8.not_lt.mp ha), escape_cons_of_le (le_of_isContinuation hb)]
    simp [validUtf8, ha, ha', hb, ih ht]
  | case5 a ha ha' ha'' b c t ih =>
    obtain ⟨hbc, ht⟩ := Bool.and_eq_true_iff.mp h
    obtain ⟨hb, hc⟩ := Bool.and_eq_true_iff.mp hbc
    rw [escape_cons_of_le (UInt8.not_lt.mp ha),
      escape_cons_of_le (le_of_second (by decide) (by decide) hb),
      escape_cons_of_le (le_of_isContinuation hc)]
    simp only [validUtf8, if_neg ha, if_neg ha', if_pos ha'', hb, hc, ih ht, Bool.and_self]
  | case7 a ha ha' ha'' ha₄ b c d t ih =>
    obtain ⟨hbcd, ht⟩ := Bool.and_eq_true_iff.mp h
    obtain ⟨hbc, hd⟩ := Bool.and_eq_true_iff.mp hbcd
    obtain ⟨hb, hc⟩ := Bool.and_eq_true_iff.mp hbc
    rw [escape_cons_of_le (UInt8.not_lt.mp ha),
      escape_cons_of_le (le_of_second (by decide) (by decide) hb),
      escape_cons_of_le (le_of_isContinuation hc), escape_cons_of_le (le_of_isContinuation hd)]
    simp only [validUtf8, if_neg ha, if_neg ha', if_neg ha'', if_pos ha₄, hb, hc, hd, ih ht,
      Bool.and_self]
  | _ => cases h

/-! ### Reading a quoted string -/

namespace Parser

variable {s t : Parser} {start : ℕ} {raw z : Bytes}

/-- One round of the scan: a byte that stands for itself. -/
theorem quotedStep_of_plain {c : UInt8} (hc : isQuotedChar c = true) (h : s.rest = c :: z) :
    quotedStep start () s = .ok (.again (), { s with pos := s.pos + 1 }) := by
  have hpeek : peek s = .ok (c, s) := peek_of_some (by rw [s.getElem?_pos, h]; rfl)
  simp only [isQuotedChar, Bool.not_eq_true', Bool.or_eq_false_iff, beq_eq_false_iff_ne] at hc
  obtain ⟨⟨⟨⟨hq, hb⟩, hcr⟩, hlf⟩, h0⟩ := hc
  rw [quotedStep, run_bind_ok hpeek]
  simp only [if_neg hq, if_neg hb, if_neg (not_or.mpr ⟨hcr, hlf⟩), if_neg h0]
  rfl

/-- One round of the scan: an escape. -/
theorem quotedStep_of_escape {d : UInt8} (hd : d = byte '"' ∨ d = byte '\\')
    (h : s.rest = byte '\\' :: d :: z) :
    quotedStep start () s = .ok (.again (), { s with pos := s.pos + 2 }) := by
  have hpeek : peek s = .ok (byte '\\', s) := peek_of_some (by rw [s.getElem?_pos, h]; rfl)
  have hnext : peek { s with pos := s.pos + 1 } = .ok (d, { s with pos := s.pos + 1 }) :=
    peek_of_some (by
      change s.input[s.pos + 1]? = some d
      rw [s.getElem?_pos_add, h]
      rfl)
  rw [quotedStep, run_bind_ok hpeek, if_neg (by decide), if_pos rfl, run_advance_bind,
    run_bind_ok hnext, if_pos hd]
  rfl

/-- The last round: the closing quote. -/
theorem quotedStep_of_quote (h : s.rest = byte '"' :: z)
    (hutf : validUtf8 ((s.input.take s.pos).drop start) = true) :
    quotedStep start () s = .ok (.done ⟨_, hutf⟩, { s with pos := s.pos + 1 }) := by
  have hpeek : peek s = .ok (byte '"', s) := peek_of_some (by rw [s.getElem?_pos, h]; rfl)
  have hstr : toStr ((s.input.take s.pos).drop start) s = .ok (⟨_, hutf⟩, s) := by
    rw [toStr_run, utf8Verdict, fromUtf8, dif_pos hutf]
    rfl
  rw [quotedStep, run_bind_ok hpeek, if_pos rfl, run_sliceFrom_bind, run_bind_ok hstr]
  rfl

/-- The loop reads on to the closing quote. -/
theorem quotedLoop_run (raw : Bytes) : ∀ {s : Parser}, s.Meets start none → isEscaped raw = true →
    s.rest = raw ++ byte '"' :: z →
    (hutf : validUtf8 ((s.input.take (s.pos + raw.length)).drop start) = true) →
    iterate .unexpectedEof (quotedStep start) () s
      = .ok (⟨_, hutf⟩, { s with pos := s.pos + raw.length + 1 }) := by
  have hb := fun a => (quotedStep_lawful start a).bounded
  have hp := quotedStep_progress start
  fun_induction isEscaped raw with
  | case1 =>
    intro s hs _ h hutf
    rw [iterate_eq hb hp hs, quotedStep_of_quote h hutf]
    rfl
  | case2 d t ih =>
    intro s hs hesc h hutf
    obtain ⟨hd, hesc⟩ := Bool.and_eq_true_iff.mp hesc
    have hstep : quotedStep start () s = _ := quotedStep_of_escape (by simpa using hd) h
    rw [iterate_eq hb hp hs, hstep]
    have hlen : s.pos + (byte '\\' :: d :: t).length = s.pos + 2 + t.length := by
      simp only [List.length_cons]
      omega
    simp only [hlen] at hutf ⊢
    exact ih (hs.moves (hb _ hs hstep)) hesc (rest_behind (x := [byte '\\', d]) h _) hutf
  | case3 =>
    intro s _ h
    cases h
  | case4 c t hc ih =>
    intro s hs hesc h hutf
    obtain ⟨hchar, hesc⟩ := Bool.and_eq_true_iff.mp hesc
    have hstep : quotedStep start () s = _ := quotedStep_of_plain hchar h
    rw [iterate_eq hb hp hs, hstep]
    have hlen : s.pos + (c :: t).length = s.pos + 1 + t.length := by
      simp only [List.length_cons]
      omega
    simp only [hlen] at hutf ⊢
    exact ih (hs.moves (hb _ hs hstep)) hesc (rest_behind (x := [c]) h _) hutf

/-- **Reading a quoted string back.** -/
theorem parseQuoted_of_rest (hv : s.Valid) (hesc : isEscaped raw = true)
    (hutf : validUtf8 raw = true) (h : s.rest = byte '"' :: (raw ++ byte '"' :: z)) :
    parseQuoted s = .ok (⟨raw, hutf⟩, { s with pos := s.pos + (raw.length + 2) }) := by
  have hrest : ({ s with pos := s.pos + 1 } : Parser).rest = raw ++ byte '"' :: z :=
    rest_behind (x := [byte '"']) h _
  have hquote := consumeByte_of_rest h
  have hs : ({ s with pos := s.pos + 1 } : Parser).Meets (s.pos + 1) none :=
    .of_valid (consumeByte_bounded (byte '"') (Meets.of_valid hv) hquote).valid
  have hslice := slice_behind hrest
  have hloop := quotedLoop_run raw hs hesc hrest (by rw [hslice]; exact hutf)
  have hpos : s.pos + 1 + raw.length + 1 = s.pos + (raw.length + 2) := by omega
  rw [parseQuoted, run_bind_ok hquote, run_position_bind, hloop]
  simp only [hslice, hpos]

/-- A byte that cannot stand in a quoted string ends the scan. -/
theorem quotedStep_of_break {c : UInt8} (hc : c = CR ∨ c = LF ∨ c = 0) (h : s.rest = c :: z) :
    ∃ e, quotedStep start () s = .error e := by
  have hpeek : peek s = .ok (c, s) := peek_of_some (by rw [s.getElem?_pos, h]; rfl)
  rw [quotedStep, run_bind_ok hpeek]
  rcases hc with rfl | rfl | rfl <;> exact ⟨_, rfl⟩

theorem quotedLoop_error {c : UInt8} (hc : c = CR ∨ c = LF ∨ c = 0) (raw : Bytes) :
    ∀ {s : Parser}, s.Meets start none → isEscaped raw = true → s.rest = raw ++ c :: z →
      ∃ e, iterate .unexpectedEof (quotedStep start) () s = .error e := by
  have hb := fun a => (quotedStep_lawful start a).bounded
  have hp := quotedStep_progress start
  fun_induction isEscaped raw with
  | case1 =>
    intro s hs _ h
    obtain ⟨e, he⟩ : ∃ e, quotedStep start () s = .error e := quotedStep_of_break hc h
    rw [iterate_eq hb hp hs, he]
    exact ⟨e, rfl⟩
  | case2 d t ih =>
    intro s hs hesc h
    obtain ⟨hd, hesc⟩ := Bool.and_eq_true_iff.mp hesc
    have hstep : quotedStep start () s = _ := quotedStep_of_escape (by simpa using hd) h
    rw [iterate_eq hb hp hs, hstep]
    exact ih (hs.moves (hb _ hs hstep)) hesc (rest_behind (x := [byte '\\', d]) h _)
  | case3 => exact fun _ h => nomatch h
  | case4 d t _ ih =>
    intro s hs hesc h
    obtain ⟨hchar, hesc⟩ := Bool.and_eq_true_iff.mp hesc
    have hstep : quotedStep start () s = _ := quotedStep_of_plain hchar h
    rw [iterate_eq hb hp hs, hstep]
    exact ih (hs.moves (hb _ hs hstep)) hesc (rest_behind (x := [d]) h _)

/-- Up to its first CR, LF or NUL. -/
theorem exists_break {text : Bytes} (h : isQuotable text = false) :
    ∃ x c y, text = x ++ c :: y ∧ isQuotable x = true ∧ (c = CR ∨ c = LF ∨ c = 0) := by
  induction text with
  | nil => cases h
  | cons b t ih =>
    by_cases hb : b = CR ∨ b = LF ∨ b = 0
    · exact ⟨[], b, t, rfl, rfl, hb⟩
    · simp only [not_or] at hb
      have ht : isQuotable t = false := by simpa [isQuotable, hb] using h
      obtain ⟨x, c, y, rfl, hx, hc⟩ := ih ht
      exact ⟨b :: x, c, y, rfl, by simpa [isQuotable, hb] using hx, hc⟩

/-- A text with CR, LF or NUL is refused. -/
theorem parseQuoted_of_break {text : Bytes} (hv : s.Valid) (hbreak : isQuotable text = false)
    (h : s.rest = byte '"' :: (escape text ++ z)) : ∃ e, parseQuoted s = .error e := by
  obtain ⟨x, c, y, rfl, hx, hc⟩ := exists_break hbreak
  have hplain : escapeByte c = [c] := by
    rcases hc with rfl | rfl | rfl <;> rfl
  have hrest : ({ s with pos := s.pos + 1 } : Parser).rest = escape x ++ c :: (escape y ++ z) := by
    refine rest_behind (x := [byte '"']) ?_ _
    rw [h]
    simp [escape, hplain]
  have hquote := consumeByte_of_rest h
  have hs : ({ s with pos := s.pos + 1 } : Parser).Meets (s.pos + 1) none :=
    .of_valid (consumeByte_bounded (byte '"') (Meets.of_valid hv) hquote).valid
  obtain ⟨e, he⟩ := quotedLoop_error hc (escape x) hs (isEscaped_escape hx) hrest
  exact ⟨e, by rw [parseQuoted, run_bind_ok hquote, run_position_bind, he]⟩

/-! ### What a quoted string was -/

theorem toStr_eq_ok {bs : Bytes} {text : Str} (h : toStr bs s = .ok (text, t)) :
    text.bytes = bs ∧ t = s := by
  rw [toStr_run] at h
  obtain ⟨hverdict, rfl⟩ := settle_eq_ok h
  exact ⟨utf8Verdict_bytes hverdict, rfl⟩

/-- Everything one round of the scan can do. -/
theorem quotedStep_cases {r : Incremental.Flow Unit Str}
    (h : quotedStep start () s = .ok (r, t)) :
    (∃ c z, isQuotedChar c = true ∧ s.rest = c :: z ∧ r = .again () ∧
      t = { s with pos := s.pos + 1 }) ∨
    (∃ d z, (d = byte '"' ∨ d = byte '\\') ∧ s.rest = byte '\\' :: d :: z ∧ r = .again () ∧
      t = { s with pos := s.pos + 2 }) ∨
    (∃ z content, s.rest = byte '"' :: z ∧ content.bytes = (s.input.take s.pos).drop start ∧
      r = .done content ∧ t = { s with pos := s.pos + 1 }) := by
  rw [quotedStep] at h
  obtain ⟨c, u, hpeek, hround⟩ := run_bind_eq_ok h
  obtain ⟨hget, rfl⟩ := peek_eq_ok hpeek
  have hrest := rest_eq_cons hget
  by_cases hquote : c = byte '"'
  · subst hquote
    rw [if_pos rfl, run_sliceFrom_bind] at hround
    obtain ⟨content, v, hstr, hdone⟩ := run_bind_eq_ok hround
    rw [run_advance_bind] at hdone
    cases hdone
    obtain ⟨hutf, rfl⟩ := toStr_eq_ok hstr
    exact .inr (.inr ⟨_, content, hrest, hutf, rfl, rfl⟩)
  rw [if_neg hquote] at hround
  by_cases hslash : c = byte '\\'
  · subst hslash
    rw [if_pos rfl, run_advance_bind] at hround
    obtain ⟨d, v, hpeek', hescape⟩ := run_bind_eq_ok hround
    obtain ⟨hget', rfl⟩ := peek_eq_ok hpeek'
    have hnext := rest_eq_cons hget'
    by_cases hd : d = byte '"' ∨ d = byte '\\'
    · rw [if_pos hd, run_advance_bind] at hescape
      cases hescape
      exact .inr (.inl ⟨d, _, hd, by rw [hrest, hnext], rfl, rfl⟩)
    · rw [if_neg hd] at hescape
      cases hescape
  rw [if_neg hslash] at hround
  by_cases hline : c = CR ∨ c = LF
  · rw [if_pos hline] at hround
    cases hround
  rw [if_neg hline] at hround
  by_cases hnul : c = 0
  · rw [if_pos hnul] at hround
    cases hround
  rw [if_neg hnul, run_advance_bind] at hround
  cases hround
  refine .inl ⟨c, _, ?_, hrest, rfl, rfl⟩
  simp only [not_or] at hline
  simp [isQuotedChar, hquote, hslash, hline, hnul]

/-- Where the scan stops, it has read an escaped text and the closing quote. -/
theorem quotedLoop_ok {content : Str} (hs : s.Meets start none)
    (h : iterate .unexpectedEof (quotedStep start) () s = .ok (content, t)) :
    ∃ raw z, isEscaped raw = true ∧ s.rest = raw ++ byte '"' :: z ∧
      content.bytes = (s.input.take (s.pos + raw.length)).drop start ∧
      t = { s with pos := s.pos + raw.length + 1 } := by
  have hb := fun a => (quotedStep_lawful start a).bounded
  have hp := quotedStep_progress start
  revert h
  refine iterate_induction hb hp (motive := fun _ s =>
    iterate .unexpectedEof (quotedStep start) () s = .ok (content, t) →
      ∃ raw z, isEscaped raw = true ∧ s.rest = raw ++ byte '"' :: z ∧
        content.bytes = (s.input.take (s.pos + raw.length)).drop start ∧
        t = { s with pos := s.pos + raw.length + 1 }) (fun _ s hs ih h => ?_) () s hs
  rw [iterate_eq hb hp hs] at h
  cases hstep : quotedStep start () s with
  | error e =>
    rw [hstep] at h
    cases h
  | ok r =>
    obtain ⟨r, u⟩ := r
    rw [hstep] at h
    rcases quotedStep_cases hstep with ⟨c, z, hc, hrest, rfl, rfl⟩ | ⟨d, z, hd, hrest, rfl, rfl⟩ |
      ⟨z, content', hrest, hbytes, rfl, rfl⟩
    · obtain ⟨raw, z', hraw, hrest', hbytes, rfl⟩ := ih _ _ hstep h
      have hz : z = raw ++ byte '"' :: z' := (rest_behind (x := [c]) hrest _).symm.trans hrest'
      have hslash : c ≠ byte '\\' := by
        rintro rfl
        exact absurd hc (by decide)
      refine ⟨c :: raw, z', by rw [isEscaped_cons hslash, hc, hraw, Bool.and_self],
        by rw [hrest, hz, List.cons_append], ?_, ?_⟩
      · rw [hbytes, List.length_cons, Nat.add_assoc, Nat.add_comm 1]
      · simp only [List.length_cons]
        congr 1
        omega
    · obtain ⟨raw, z', hraw, hrest', hbytes, rfl⟩ := ih _ _ hstep h
      have hz : z = raw ++ byte '"' :: z' :=
        (rest_behind (x := [byte '\\', d]) hrest _).symm.trans hrest'
      refine ⟨byte '\\' :: d :: raw, z', by simpa [isEscaped, hraw] using hd,
        by rw [hrest, hz, List.cons_append, List.cons_append], ?_, ?_⟩
      · rw [hbytes]
        simp only [List.length_cons]
        congr 2
        omega
      · simp only [List.length_cons]
        congr 1
        omega
    · cases h
      exact ⟨[], z, rfl, hrest, hbytes, rfl⟩

/-- **What `parse_quoted` consumed** is its content between two quotes. -/
theorem parseQuoted_ok {content : Str} (hv : s.Valid) (h : parseQuoted s = .ok (content, t)) :
    isEscaped content.bytes = true ∧ s.rest = byte '"' :: (content.bytes ++ byte '"' :: t.rest) ∧
      t = { s with pos := s.pos + (content.bytes.length + 2) } := by
  rw [parseQuoted] at h
  obtain ⟨_, u, hquote, h⟩ := run_bind_eq_ok h
  have hs : u.Meets u.pos none :=
    .of_valid (consumeByte_bounded (byte '"') (Meets.of_valid hv) hquote).valid
  obtain ⟨hget, rfl⟩ := consumeByte_eq_ok hquote
  rw [run_position_bind] at h
  obtain ⟨raw, z, hraw, hrest, hbytes, rfl⟩ := quotedLoop_ok hs h
  have hslice := slice_behind hrest
  rw [show content.bytes = raw from hbytes.trans hslice]
  have hz := (rest_eq_cons hget).trans (congrArg (byte '"' :: ·) hrest)
  have hpos : s.pos + 1 + raw.length + 1 = s.pos + (raw.length + 2) := by omega
  have hbehind : ({ s with pos := s.pos + 1 + raw.length + 1 } : Parser).rest = z := by
    have hz' : s.rest = (byte '"' :: (raw ++ [byte '"'])) ++ z := by simpa using hz
    have := rest_behind hz' s.aux
    simpa [hpos] using this
  exact ⟨hraw, by simp only [hbehind]; exact hz, by simp only [hpos]⟩

end Parser

end ImapRs
