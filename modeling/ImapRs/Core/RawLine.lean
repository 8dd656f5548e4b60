import ImapRs.Core.Accepted

/-!
# Data that is not recognised

A data response whose name or whose kind is unknown is salvaged: `finish_other_data_with_prefix`
looks back for the start of the line, the named path remembers it, and both then scan up to CR.
What is captured is the whole line: nothing before the response is taken, since no CR has been
consumed in it, and nothing behind it. The scan stops at CR only, so a bare LF is captured as well.

## Main definitions

* `CapturesLine` — a frame and the line captured from it

## Main results

* `other_line` — the captured bytes are the line of the response
* `other_capturesLine_iff` — they hold no line break unless a bare LF comes before the first CR
-/

namespace ImapRs

open Incremental Incremental.Cursor

/-- The response behind `* ` starts with a number. -/
def StartsWithNumber (f : Bytes) : Prop := f[2]?.any isAsciiDigit = true

/-- `line` is the line of the frame: all of it when it starts with a number, and what is behind
`* ` when it starts with a name. -/
def IsLineOf (line f : Bytes) : Prop :=
  (StartsWithNumber f → f = line ++ CRLF) ∧
    (¬ StartsWithNumber f → f = ascii "* " ++ line ++ CRLF)

/-- `line` is the line of the frame, and a single one. -/
structure CapturesLine (f line : Bytes) : Prop where
  whole : IsLineOf line f
  noCr : CR ∉ line
  noLf : LF ∉ line

namespace Parser

theorem findCurrentLineStart_eq_zero {input : Bytes} {i : ℕ} (h : CR ∉ input.take i) :
    findCurrentLineStart input i = 0 := by
  induction i with
  | zero => rfl
  | succ i ih =>
    rw [findCurrentLineStart, if_neg]
    · refine ih fun hmem => h ?_
      exact List.take_subset_take_left _ (Nat.le_succ i) hmem
    · rintro ⟨_, hcrlf⟩
      exact h (List.mem_of_mem_drop (i := i - 1) (by rw [hcrlf]; exact List.mem_cons_self))

theorem CR_not_mem_takeWhile_raw (l : Bytes) : CR ∉ l.takeWhile isRawLineChar := by
  intro h
  exact absurd (List.mem_takeWhile_imp h) (by decide)

/-- The salvage scan from a mark `s` on: what was consumed since the mark, and everything up to
CR. -/
theorem rawLine_captures {s u t : Parser} {w : Bytes} {line : Slice} (hrest : s.rest = w ++ u.rest)
    (hm : s.Moves u) (hw : CR ∉ w)
    (h : (tokenFrom s.pos isRawLineChar (fun bs _ => .ok bs) >>= fun line =>
      consumeCrlf >>= fun _ => pure (.data (.other ⟨s.pos, line⟩)) : ParserM Response) u
        = .ok (.data (.other line), t)) :
    s.rest = line.bytes ++ CRLF ++ t.rest ∧ CR ∉ line.bytes := by
  obtain ⟨bytes, v, htoken, h⟩ := run_bind_eq_ok h
  obtain ⟨_, _, hcrlf, h⟩ := run_bind_eq_ok h
  cases h
  rw [tokenFrom_eq] at htoken
  obtain ⟨hline, rfl⟩ := settle_eq_ok htoken
  have hpos : u.pos = s.pos + w.length := by
    have hlen := congrArg List.length hrest
    have hle := hm.le
    have hend := hm.pos_le
    rw [List.length_append, length_rest, length_rest, hm.input] at hlen
    omega
  have hwhole : s.rest = (w ++ u.rest.takeWhile isRawLineChar) ++ (CRLF ++ t.rest) := by
    rw [hrest, ← consumeCrlf_rest hcrlf, List.append_assoc]
    exact congrArg (w ++ ·) (rest_eq_takeWhile_append isRawLineChar u)
  have hbytes : bytes = w ++ u.rest.takeWhile isRawLineChar := by
    have hstop : scanStop isRawLineChar u
        = s.pos + (w ++ u.rest.takeWhile isRawLineChar).length := by
      rw [scanStop, hpos, List.length_append, Nat.add_assoc]
    rw [hstop, hm.input, slice_behind hwhole] at hline
    exact (Except.ok.inj hline).symm
  refine ⟨?_, ?_⟩
  · show s.rest = bytes ++ CRLF ++ t.rest
    rw [hbytes, List.append_assoc]
    exact hwhole
  show CR ∉ bytes
  rw [hbytes, List.mem_append, not_or]
  exact ⟨hw, CR_not_mem_takeWhile_raw _⟩

/-- **The named path** captures what is behind `* `. -/
theorem parseNamedDataResponse_other {s t : Parser} {line : Slice} (hs : s.Valid)
    (h : parseNamedDataResponse s = .ok (.data (.other line), t)) :
    s.rest = line.bytes ++ CRLF ++ t.rest ∧ CR ∉ line.bytes := by
  rw [parseNamedDataResponse, run_position_bind] at h
  obtain ⟨name, u, hatom, h⟩ := run_bind_eq_ok h
  have hm := (parseAtom_assembled.lawful (kit_sound false)).bounded (Meets.zero hs) hatom
  obtain ⟨_, _, hx, ⟨_, hname⟩, rfl⟩ := atom_accepts (Meets.zero hs) hatom
  cases hbody : namedData name with
  | some body =>
    rw [hbody] at h
    obtain ⟨d, _, hd, h⟩ := run_bind_eq_ok h
    obtain ⟨_, _, _, h⟩ := run_bind_eq_ok h
    cases h
    exact absurd (namedData_isNamed hbody hd) id
  | none =>
    rw [hbody] at h
    simp only [rawLine_eq] at h
    exact rawLine_captures hx hm (fun hmem => ne_CR_of_isAtomChar (hname CR hmem) rfl) h

/-- **The numeric path** looks back to the start of the response and captures all of it. -/
theorem parseNumericDataResponse_other {s t : Parser} {line : Slice} (hs : s.Valid)
    (hcr : CR ∉ s.input.take s.pos)
    (h : parseNumericDataResponse s = .ok (.data (.other line), t)) :
    s.input = line.bytes ++ CRLF ++ t.rest ∧ CR ∉ line.bytes := by
  rw [parseNumericDataResponse] at h
  obtain ⟨n, t₁, h₁, h⟩ := run_bind_eq_ok h
  obtain ⟨_, t₂, h₂, h⟩ := run_bind_eq_ok h
  obtain ⟨kind, u, h₃, h⟩ := run_bind_eq_ok h
  split at h
  · obtain ⟨_, _, _, h⟩ := run_bind_eq_ok h
    cases h
  split at h
  · obtain ⟨_, _, _, h⟩ := run_bind_eq_ok h
    cases h
  split at h
  · obtain ⟨_, _, _, h⟩ := run_bind_eq_ok h
    cases h
  split at h
  · obtain ⟨_, _, _, h⟩ := run_bind_eq_ok h
    obtain ⟨_, _, _, h⟩ := run_bind_eq_ok h
    obtain ⟨_, _, _, h⟩ := run_bind_eq_ok h
    cases h
  have hm₁ := parseNumber_lawful.bounded (Meets.zero hs) h₁
  have hm₂ := (consumeByte_lawful _).bounded (Meets.zero hm₁.valid) h₂
  have hm₃ := (parseAtom_assembled.lawful (kit_sound false)).bounded (Meets.zero hm₂.valid) h₃
  obtain ⟨ds, _, hdig, _, hds⟩ := parseNumber_rest h₁
  obtain ⟨_, _, hx, ⟨_, hkind⟩, rfl⟩ := atom_accepts (Meets.zero hm₂.valid) h₃
  -- the mark is the start of the input
  obtain ⟨start, hstart⟩ : ∃ start : Parser, start = ⟨s.input, 0, s.aux⟩ := ⟨_, rfl⟩
  have hzero : start.Moves s := by
    rw [hstart]
    exact ⟨rfl, Nat.zero_le _, hs⟩
  have hrest : start.rest = (s.input.take s.pos ++ (ds ++ SP :: kind.bytes)) ++ u.rest := by
    rw [hstart, List.append_assoc, List.append_assoc, List.cons_append, ← hx, ← consumeByte_rest h₂,
      ← hds]
    exact (List.take_append_drop s.pos s.input).symm
  have hnone : CR ∉ s.input.take s.pos ++ (ds ++ SP :: kind.bytes) := by
    rw [List.mem_append, List.mem_append, List.mem_cons, not_or, not_or, not_or]
    exact ⟨hcr, CR_not_mem_digits hdig, by decide, fun h => ne_CR_of_isAtomChar (hkind CR h) rfl⟩
  have hm := hzero.trans (hm₁.trans (hm₂.trans hm₃))
  have hback : findCurrentLineStart u.input u.pos = start.pos := by
    have hpos : u.pos = (s.input.take s.pos ++ (ds ++ SP :: kind.bytes)).length := by
      have hlen := congrArg List.length hrest
      have hend := hm.pos_le
      rw [List.length_append, length_rest, length_rest, hm.input] at hlen
      rw [hstart] at hlen hend
      simp only at hlen hend
      omega
    have hin : u.input = (s.input.take s.pos ++ (ds ++ SP :: kind.bytes)) ++ u.rest := by
      rw [← hrest, hm.input, hstart]
      rfl
    rw [hstart]
    refine findCurrentLineStart_eq_zero ?_
    rw [hin, hpos, List.take_left]
    exact hnone
  have hrun : (tokenFrom start.pos isRawLineChar (fun bs _ => .ok bs) >>= fun line =>
      consumeCrlf >>= fun _ => pure (.data (.other ⟨start.pos, line⟩)) : ParserM Response) u
        = .ok (.data (.other line), t) := by
    rw [← hback, ← finishOtherDataWithPrefix_run, h]
  obtain ⟨hline, hclean⟩ := rawLine_captures hrest hm hnone hrun
  refine ⟨?_, hclean⟩
  rw [← hline, hstart]
  rfl

end Parser

/-! ### Whole responses -/

/-- **What is captured is the line of the response**, and holds no CR. -/
theorem other_line {x rest : Bytes} {line : Slice}
    (h : parseResponse x = .ok (rest, .data (.other line))) :
    ∃ f, x = f ++ rest ∧ IsLineOf line.bytes f ∧ CR ∉ line.bytes := by
  obtain ⟨t, hrun, rfl⟩ := parseResponse_eq_ok h
  obtain ⟨hs, hx, _, hdata⟩ := Parser.untaggedData_of_data hrun
  obtain ⟨s, hstart⟩ : ∃ s, s = Parser.afterStar x := ⟨_, rfl⟩
  have hin : s.input = x := by rw [hstart]; rfl
  have hpos : s.pos = 2 := by rw [hstart]; rfl
  rw [← hstart] at hs hx hdata
  have hm := Parser.untaggedData_framed.bounded (Meets.zero hs) hdata
  have hlt := Parser.untaggedData_framed.consumes (Meets.zero hs) hdata
  have hsplit : x = x.take t.pos ++ t.rest := by
    rw [Cursor.rest, hm.input, hin, List.take_append_drop]
  refine ⟨x.take t.pos, hsplit, ?_⟩
  rw [Parser.untaggedData] at hdata
  obtain ⟨c, u, hpeek, hdata⟩ := run_bind_eq_ok hdata
  obtain ⟨hc, hu⟩ := peek_eq_ok hpeek
  rw [hu] at hdata
  -- the byte behind `* ` decides the path, and belongs to the frame
  have hthird : (x.take t.pos)[2]? = some c := by
    rw [List.getElem?_take_of_lt (by omega), ← hpos, ← hin, hc]
  have hstarts : StartsWithNumber (x.take t.pos) ↔ isAsciiDigit c = true := by
    rw [StartsWithNumber, hthird, Option.any_some]
  have hframe : ∀ {f}, x = f ++ CRLF ++ t.rest → x.take t.pos = f ++ CRLF := fun hf =>
    List.append_cancel_right (hsplit.symm.trans hf)
  split at hdata
  next hdig =>
    have hcr : CR ∉ s.input.take s.pos := by
      rw [hin, hpos, hx]
      exact (by decide : CR ∉ ascii "* ")
    obtain ⟨hline, hclean⟩ := Parser.parseNumericDataResponse_other hs hcr hdata
    refine ⟨⟨fun _ => hframe (hin ▸ hline), fun hname => absurd (hstarts.mpr hdig) hname⟩, hclean⟩
  next hdig =>
    obtain ⟨hline, hclean⟩ := Parser.parseNamedDataResponse_other hs hdata
    refine ⟨⟨fun hnum => absurd (hstarts.mp hnum) hdig, fun _ => hframe ?_⟩, hclean⟩
    rw [hx, hline]
    simp only [List.append_assoc]

/-- **The captured line is clean exactly when no bare LF comes before the first CR.** -/
theorem other_capturesLine_iff {x rest : Bytes} {line : Slice}
    (h : parseResponse x = .ok (rest, .data (.other line))) :
    (∃ f, x = f ++ rest ∧ CapturesLine f line.bytes) ↔ LF ∉ x.takeWhile (· ≠ CR) := by
  obtain ⟨f, hx, hwhole, hcr⟩ := other_line h
  have htake : ∀ p : Bytes, CR ∉ p → x = p ++ CRLF ++ rest → x.takeWhile (· ≠ CR) = p := by
    intro p hp hxp
    have hall : ∀ b ∈ p, decide (b ≠ CR) = true := fun b hb =>
      decide_eq_true fun hbc => hp (hbc ▸ hb)
    rw [hxp, List.append_assoc, List.takeWhile_append_of_pos hall, CRLF, List.cons_append,
      List.takeWhile_cons_of_neg (by decide), List.append_nil]
  have hlf : LF ∈ x.takeWhile (· ≠ CR) ↔ LF ∈ line.bytes := by
    by_cases hnum : StartsWithNumber f
    · rw [htake line.bytes hcr (by rw [hx, hwhole.1 hnum])]
    · have hstar : ascii "* " = [byte '*', SP] := rfl
      rw [htake (ascii "* " ++ line.bytes) ?_ (by rw [hx, hwhole.2 hnum])]
      · rw [List.mem_append, or_iff_right (by decide)]
      · rw [List.mem_append, not_or]
        exact ⟨by decide, hcr⟩
  rw [hlf]
  constructor
  · rintro ⟨g, hg, hclean⟩
    exact hclean.noLf
  · intro hclean
    exact ⟨f, hx, hwhole, hcr, hclean⟩

/-- A clean line. -/
theorem other_capturesLine_iff_clean :
    (∃ f, ascii "* 7 XFOO (1 2)\r\n* 3" = f ++ ascii "* 3" ∧
        CapturesLine f (ascii "* 7 XFOO (1 2)"))
      ↔ LF ∉ (ascii "* 7 XFOO (1 2)\r\n* 3").takeWhile (· ≠ CR) := by
  have hparse : parseResponse (ascii "* 7 XFOO (1 2)\r\n* 3")
      = .ok (ascii "* 3", .data (.other ⟨0, ascii "* 7 XFOO (1 2)"⟩)) := by decide +kernel
  exact other_capturesLine_iff hparse

/-- A bare LF is captured. -/
theorem other_captures_bareLf : ¬ ∀ x rest line,
    parseResponse x = .ok (rest, .data (.other line)) →
      ∃ f, x = f ++ rest ∧ CapturesLine f line.bytes := by
  intro h
  have hparse : parseResponse (ascii "* XFOO a\nb\r\n")
      = .ok ([], .data (.other ⟨2, ascii "XFOO a\nb"⟩)) := by decide +kernel
  obtain ⟨f, _, hclean⟩ := h _ _ _ hparse
  exact hclean.noLf (by decide +kernel)

end ImapRs
