import ImapRs.Core.Lines

/-!
# A response is decided by its own bytes

`parseResponse` is run again from the start each time bytes arrive, so its verdict has to be
stable. Here the response productions are taken together: a response depends on the bytes of its
frame and on nothing after them, the frame ends in CRLF, a truncated frame asks for more input
and a rejected one stays rejected.

## The status keyword

`tryParseStatusKeyword` counts the end of the buffer as a word boundary, so on its own it is not
stable under more input. What follows it is what makes the whole stable: after a keyword at the
end of the buffer the response is incomplete, and a word that is not a keyword is read again, as
an atom that has to see its terminator or by the test for a truncated keyword.

## Main definitions

* `Framed` — the laws of a production that ends a frame

## Main results

* `parseResponse_framed` — every response is framed
* `parseResponse_frame_exact` — the frame alone gives the same response, its strict prefixes are
  incomplete
* `parseResponse_verdict_permanent` — more input never changes a decided verdict
-/

namespace ImapRs

open Incremental Incremental.Cursor

namespace Parser

variable {lo : ℕ} {next : Option UInt8} {att : Bool} {α β : Type}

/-! ### Productions that end a frame -/

/-- The run from `s` to `t` consumed lined text and then CRLF. -/
def EndsLine (s t : Parser) : Prop :=
  ∃ k, s.pos ≤ k ∧ t.pos = k + 2 ∧ s.input[k]? = some CR ∧ s.input[k + 1]? = some LF ∧
    linedTrace s.pos (s.upTo k) s.aux t.aux

/-- A production that ends a frame. -/
structure Framed (lo : ℕ) (next : Option UInt8) (p : ParserM α) : Prop where
  bounded : Bounded lo next p
  exact : Exact lo next p
  permanent : Permanent .incomplete lo next p
  endsLine : ∀ ⦃s v t⦄, s.Meets lo next → p s = .ok (v, t) → EndsLine s t

theorem EndsLine.lt {s t : Parser} (h : EndsLine s t) : s.pos < t.pos := by
  obtain ⟨k, hk, ht, _⟩ := h
  omega

theorem EndsLine.of_moves {s t u : Parser} (hm : s.Moves t)
    (hst : linedTrace s.pos (s.upTo t.pos) s.aux t.aux) (h : EndsLine t u) : EndsLine s u := by
  obtain ⟨k, hk, hu, hcr, hlf, htu⟩ := h
  refine ⟨k, Nat.le_trans hm.le hk, hu, hm.input ▸ hcr, hm.input ▸ hlf, ?_⟩
  rw [upTo_append hm hk]
  refine (kit_keeps true).append hst ?_
  rwa [length_upTo hm.pos_le, Nat.add_sub_cancel' hm.le]

theorem Framed.consumes {p : ParserM α} (h : Framed lo next p) : Consumes lo next p :=
  fun _ _ _ hs hok => (h.endsLine hs hok).lt

theorem Framed.bind {p : ParserM α} {q : α → ParserM β} (hp : Assembled (kit true) lo next p)
    (hq : ∀ a, Framed lo none (q a)) (h : Firm lo next p ∨ ∀ a, Patient .incomplete (q a)) :
    Framed lo next (p >>= q) where
  bounded := .bind (hp.lawful (kit_sound true)).bounded fun a => (hq a).bounded
  exact := .bind (hp.lawful (kit_sound true)) (fun a => (hq a).bounded) (fun a => (hq a).exact)
    fun a => (hq a).consumes
  permanent := .bind (hp.lawful (kit_sound true)) (fun a => (hq a).permanent) h
  endsLine s v u hs hok := by
    obtain ⟨a, t, hpt, hqt⟩ := run_bind_eq_ok hok
    have hm := (hp.lawful (kit_sound true)).bounded hs hpt
    exact ((hq a).endsLine (hs.moves hm) hqt).of_moves hm (lined_of_assembled hp hs hpt)

theorem Framed.peek_bind {f : UInt8 → ParserM β} (hf : ∀ c, Framed lo (some c) (f c)) :
    Framed lo next (peek >>= f) where
  bounded := .peek_bind fun c => (hf c).bounded
  exact := .peek_bind (fun c => (hf c).exact) fun c => (hf c).consumes
  permanent := .peek_bind fun c => (hf c).permanent
  endsLine s v u hs hok := by
    obtain ⟨c, t, hpt, hft⟩ := run_bind_eq_ok hok
    obtain ⟨hc, rfl⟩ := peek_eq_ok hpt
    exact (hf c).endsLine (hs.see hc) hft

theorem Framed.position_bind {f : ℕ → ParserM β} (hf : ∀ start, Framed start next (f start)) :
    Framed lo next (position >>= f) where
  bounded s _ _ hs hok := (hf s.pos).bounded hs.mark hok
  exact s _ _ hs hok _ hx :=
    (hf s.pos).exact hs.mark hok fun i h₁ h₂ => hx i (Nat.le_trans hs.lo_le h₁) h₂
  permanent s _ hs herr hne y := (hf s.pos).permanent hs.mark herr hne y
  endsLine s _ _ hs hok := (hf s.pos).endsLine hs.mark hok

theorem Framed.ite {c : Prop} [Decidable c] {p q : ParserM α} (hp : Framed lo next p)
    (hq : Framed lo next q) : Framed lo next (if c then p else q) := by
  split
  · exact hp
  · exact hq

/-- The end of every response: CRLF, then the result. -/
theorem consumeCrlf_framed (a : α) :
    Framed lo next (consumeCrlf >>= fun _ => pure a : ParserM α) where
  bounded := .bind consumeCrlf_bounded fun _ => .pure a
  exact s v u hs hok x hx := by
    obtain ⟨_, t, hct, hpt⟩ := run_bind_eq_ok hok
    cases hpt
    rw [run_bind_ok (consumeCrlf_exact hs hct hx)]
    rfl
  permanent := .bind consumeCrlf_lawful (fun _ => (Lawful.pure a).permanent) (.inl consumeCrlf_firm)
  endsLine s v u hs hok := by
    obtain ⟨_, t, hct, hpt⟩ := run_bind_eq_ok hok
    cases hpt
    obtain ⟨hcr, hlf, rfl⟩ := consumeCrlf_eq_ok hct
    exact ⟨s.pos, Nat.le_refl _, rfl, hcr, hlf, linedTrace_plain _ _ (by simp)⟩

theorem consumeCrlf_pure_patient (a : α) :
    Patient .incomplete (consumeCrlf >>= fun _ => pure a : ParserM α) :=
  (consumeCrlf_stuck.bind _).patient

/-- A body followed by the end of the line. -/
theorem line_framed {p : ParserM α} (hp : Assembled (kit true) lo next p) (g : α → β) :
    Framed lo next (p >>= fun a => consumeCrlf >>= fun _ => pure (g a)) :=
  .bind hp (fun a => consumeCrlf_framed (g a))
    (.inr fun a => consumeCrlf_pure_patient (g a))

/-! ### Raw lines -/

/-- The salvage scan with the slice it returns, as a token. -/
theorem rawLine_eq (start : ℕ) (q : Bytes → ParserM β) :
    (skipWhile isRawLineChar >>= fun _ => sliceFrom start >>= q)
      = tokenFrom start isRawLineChar (fun bs _ => .ok bs) >>= q := by
  funext s
  rw [skipWhile_bind, run_sliceFrom_bind, run_bind, tokenFrom_eq]
  rfl

theorem rawLine_assembled (lineStart : ℕ) : Assembled (kit att) lineStart next
    (tokenFrom lineStart isRawLineChar (fun bs _ => .ok bs) : ParserM Bytes) := by
  refine .token ?_ (fun _ _ h => nomatch h) fun _ _ _ h => nomatch h
  rintro c hc rfl
  exact absurd hc (by decide)

theorem rawLine_framed (lineStart : ℕ) : Framed lineStart next
    (tokenFrom lineStart isRawLineChar (fun bs _ => .ok bs) >>= fun line =>
      consumeCrlf >>= fun _ => pure (.data (.other ⟨lineStart, line⟩)) : ParserM Response) :=
  line_framed (rawLine_assembled lineStart) fun line => Response.data (.other ⟨lineStart, line⟩)

theorem findCurrentLineStart_le (input : Bytes) (i : ℕ) : findCurrentLineStart input i ≤ i := by
  induction i with
  | zero => exact Nat.le_refl _
  | succ i ih =>
    rw [findCurrentLineStart]
    split
    · exact Nat.le_refl _
    · exact Nat.le_succ_of_le ih

theorem findCurrentLineStart_congr {x x' : Bytes} {i : ℕ} (h : x'.take i = x.take i) :
    findCurrentLineStart x' i = findCurrentLineStart x i := by
  induction i with
  | zero => rfl
  | succ i ih =>
    have hi : x'.take i = x.take i := by
      have := congrArg (List.take i) h
      rwa [List.take_take, List.take_take, Nat.min_eq_left (Nat.le_succ i)] at this
    rw [findCurrentLineStart, findCurrentLineStart, h, ih hi]

/-- The salvage path as a token from the start of the line. -/
theorem finishOtherDataWithPrefix_run (s : Parser) : finishOtherDataWithPrefix s
    = (tokenFrom (findCurrentLineStart s.input s.pos) isRawLineChar (fun bs _ => .ok bs) >>=
        fun line => consumeCrlf >>= fun _ =>
          pure (.data (.other ⟨findCurrentLineStart s.input s.pos, line⟩)) :
          ParserM Response) s := by
  rw [← rawLine_eq]
  exact run_bind_ok rfl

/-- Looking back to the start of the line reads only what is before the cursor. -/
theorem finishOtherDataWithPrefix_framed : Framed 0 next finishOtherDataWithPrefix := by
  have hrun := finishOtherDataWithPrefix_run
  have hmeets : ∀ {s : Parser}, s.Meets 0 next →
      s.Meets (findCurrentLineStart s.input s.pos) next := fun hs =>
    ⟨hs.valid, findCurrentLineStart_le _ _, hs.sees⟩
  refine ⟨fun s v u hs hok => ?_, fun s v u hs hok x hx => ?_, fun s e hs herr hne y => ?_,
    fun s v u hs hok => ?_⟩
  · rw [hrun] at hok
    exact (rawLine_framed _).bounded (hmeets hs) hok
  · rw [hrun] at hok ⊢
    have hle := ((rawLine_framed _).bounded (hmeets hs) hok).le
    have hsame : findCurrentLineStart x s.pos = findCurrentLineStart s.input s.pos := by
      refine findCurrentLineStart_congr (List.ext_getElem? fun i => ?_)
      rw [List.getElem?_take, List.getElem?_take]
      split
      · exact hx i (Nat.zero_le _) (by omega)
      · rfl
    rw [withInput_input, withInput_pos, hsame]
    exact (rawLine_framed _).exact (hmeets hs) hok fun i _ => hx i (Nat.zero_le _)
  · rw [hrun] at herr ⊢
    have hsame : findCurrentLineStart (s.input ++ y) s.pos = findCurrentLineStart s.input s.pos :=
      findCurrentLineStart_congr (List.take_append_of_le_length hs.valid)
    rw [ext_input, ext_pos, hsame]
    exact (rawLine_framed _).permanent (hmeets hs) herr hne y
  · rw [hrun] at hok
    exact (rawLine_framed _).endsLine (hmeets hs) hok

/-! ### Data responses -/

theorem parseNumericDataResponse_framed : Framed 0 next parseNumericDataResponse := by
  refine .bind parseNumber_assembled (fun n => ?_)
    (.inr fun _ => ((consumeByte_stuck _).bind _).patient)
  refine .bind (consumeByte_assembled (by decide)) (fun _ => ?_) (.inl (consumeByte_firm _))
  refine .bind parseAtom_assembled (fun kind => ?_) (.inl parseAtom_firm)
  refine .ite (consumeCrlf_framed _) (.ite (consumeCrlf_framed _) (.ite (consumeCrlf_framed _) ?_))
  refine .ite ?_ finishOtherDataWithPrefix_framed
  refine .bind (consumeByte_assembled (by decide)) (fun _ => ?_) (.inl (consumeByte_firm _))
  exact line_framed parseFetchMsgAtt_assembled _

theorem parseNamedDataResponse_framed : Framed lo next parseNamedDataResponse := by
  refine .position_bind fun lineStart => ?_
  refine .bind parseAtom_assembled (fun name => ?_) (.inl parseAtom_firm)
  cases hbody : namedData name with
  | some body => exact line_framed (namedData_assembled hbody) Response.data
  | none =>
    simp only [rawLine_eq]
    exact rawLine_framed lineStart

/-! ### The status keyword -/

/-- The status keywords, in the order they are tried. -/
def statusKeywords : List (Status × Bytes) :=
  [(.preAuth, ascii "PREAUTH"), (.ok, ascii "OK"), (.no, ascii "NO"), (.bad, ascii "BAD"),
    (.bye, ascii "BYE")]

/-- The keyword at the start of `rest`. -/
def statusKeywordAt (rest : Bytes) : Option (Status × Bytes) :=
  statusKeywords.find? fun k => keywordAt rest k.2

theorem tryConsumeKeywordCi_bind {s : Parser} (hv : s.Valid) (kw : Bytes) (f : Bool → ParserM β) :
    (tryConsumeKeywordCi kw >>= f) s
      = if keywordAt s.rest kw then f true { s with pos := s.pos + kw.length } else f false s := by
  rw [run_bind, tryConsumeKeywordCi_run hv]
  by_cases h : keywordAt s.rest kw
  · rw [if_pos h, if_pos h]
  · rw [if_neg h, if_neg h]

/-- Try the keywords of a list in turn. -/
def tryKeywords : List (Status × Bytes) → ParserM (Option Status)
  | [] => pure none
  | k :: ks => do
    if ← tryConsumeKeywordCi k.2 then pure (some k.1) else tryKeywords ks

theorem tryKeywords_run {s : Parser} (hv : s.Valid) (ks : List (Status × Bytes)) :
    tryKeywords ks s = match ks.find? (fun k => keywordAt s.rest k.2) with
      | some k => .ok (some k.1, { s with pos := s.pos + k.2.length })
      | none => .ok (none, s) := by
  induction ks with
  | nil => rfl
  | cons k ks ih =>
    rw [tryKeywords, tryConsumeKeywordCi_bind hv, List.find?_cons]
    by_cases h : keywordAt s.rest k.2 = true
    · rw [if_pos h, h]
      rfl
    · rw [if_neg h, if_neg Bool.false_ne_true, ih]
      rw [Bool.not_eq_true] at h
      rw [h]

theorem tryParseStatusKeyword_run {s : Parser} (hv : s.Valid) :
    tryParseStatusKeyword s = match statusKeywordAt s.rest with
      | some k => .ok (some k.1, { s with pos := s.pos + k.2.length })
      | none => .ok (none, s) :=
  tryKeywords_run hv statusKeywords

/-- The bytes of the status keywords, in either case. -/
def isKeywordByte (b : UInt8) : Bool := statusKeywords.any fun k => k.2.any fun c => byteEqCi b c

/-- Text that holds some byte no keyword has decides the keyword. -/
theorem statusKeywordAt_append {l : Bytes} {b : UInt8} (hb : b ∈ l)
    (hkey : isKeywordByte b = false) (y : Bytes) :
    statusKeywordAt (l ++ y) = statusKeywordAt l := by
  rw [statusKeywordAt, statusKeywordAt, ← List.head?_filter, ← List.head?_filter]
  refine congrArg List.head? (List.filter_congr fun k hk => ?_)
  rcases Nat.lt_or_ge k.2.length l.length with hlt | hge
  · exact keywordAt_append hlt y
  · have hno : agreesCi l k.2 = false := by
      refine agreesCi_eq_false hb hge fun c hc => ?_
      rw [isKeywordByte, List.any_eq_false] at hkey
      have hno := hkey k hk
      rw [List.any_eq_true] at hno
      exact Bool.eq_false_iff.mpr fun hbc => hno ⟨c, hc, hbc⟩
    have hno' : agreesCi (l ++ y) k.2 = false := by rw [agreesCi_append, hno, Bool.false_and]
    simp [keywordAt, hno, hno']

theorem all_zip_take_eq (l kw : Bytes) :
    (((kw.take l.length).zip l).all fun p => byteEqCi p.1 p.2) = agreesCi l kw := by
  induction l generalizing kw with
  | nil => simp [agreesCi]
  | cons b l ih =>
    cases kw with
    | nil => simp [agreesCi]
    | cons k kw =>
      have h := ih kw
      simp only [agreesCi, List.length_cons, List.take_succ_cons, List.zip_cons_cons,
        List.all_cons] at h ⊢
      rw [h, byteEqCi, byteEqCi, Bool.beq_comm]

theorem couldBeStatusKeywordPrefix_eq (l : Bytes) : couldBeStatusKeywordPrefix l
    = statusKeywords.any fun k => l.length < k.2.length && agreesCi l k.2 := by
  simp only [couldBeStatusKeywordPrefix, all_zip_take_eq]
  simp only [statusKeywords, List.any_cons, List.any_nil, Bool.or_false]
  ac_rfl

theorem couldBeStatusKeywordPrefix_append {l : Bytes}
    (h : couldBeStatusKeywordPrefix l = false) (y : Bytes) :
    couldBeStatusKeywordPrefix (l ++ y) = false := by
  rw [couldBeStatusKeywordPrefix_eq, List.any_eq_false] at h ⊢
  intro k hk hkey
  refine h k hk ?_
  rw [Bool.and_eq_true, decide_eq_true_eq, List.length_append, agreesCi_append,
    Bool.and_eq_true] at hkey
  rw [Bool.and_eq_true, decide_eq_true_eq]
  exact ⟨by omega, hkey.2.1⟩

/-- Text that cannot be the beginning of a keyword, and is none, does not become one. -/
theorem statusKeywordAt_append_of_not_prefix {l : Bytes}
    (hpre : couldBeStatusKeywordPrefix l = false) (hnone : statusKeywordAt l = none) (y : Bytes) :
    statusKeywordAt (l ++ y) = none := by
  rw [couldBeStatusKeywordPrefix_eq, List.any_eq_false] at hpre
  rw [statusKeywordAt, List.find?_eq_none] at hnone ⊢
  intro k hk hkey
  have hagree : agreesCi l k.2 = true := by
    simp only [keywordAt, agreesCi_append, Bool.and_eq_true] at hkey
    exact hkey.1.2.1
  have hle : k.2.length ≤ l.length := by
    by_contra hlt
    exact hpre k hk (by rw [hagree, Bool.and_true, decide_eq_true_eq]; omega)
  rcases Nat.lt_or_eq_of_le hle with hlt | heq
  · rw [keywordAt_append hlt] at hkey
    exact hnone k hk hkey
  · -- the whole text is a keyword, and the end of the buffer counts as its boundary
    refine hnone k hk ?_
    rw [keywordAt, hagree, decide_eq_true hle, List.getElem?_eq_none (Nat.le_of_eq heq.symm)]
    rfl

/-- The keyword is decided by a stretch of the rest that ends a line. -/
theorem statusKeywordAt_rest {s u : Parser} {x : Bytes} (hend : EndsLine s u)
    (hx : ∀ i, s.pos ≤ i → i < u.pos → x[i]? = s.input[i]?) :
    statusKeywordAt (s.withInput x).rest = statusKeywordAt s.rest := by
  obtain ⟨k, hk, hu, hcr, _⟩ := hend
  have htake : (s.withInput x).rest.take (u.pos - s.pos) = s.rest.take (u.pos - s.pos) := by
    refine List.ext_getElem? fun i => ?_
    rw [List.getElem?_take, List.getElem?_take]
    split
    · rw [← getElem?_pos_add, ← getElem?_pos_add]
      exact hx (s.pos + i) (Nat.le_add_right _ _) (by omega)
    · rfl
  have hmem : CR ∈ s.rest.take (u.pos - s.pos) := by
    refine List.mem_of_getElem? (i := k - s.pos) ?_
    rw [List.getElem?_take, if_pos (by omega), ← getElem?_pos_add,
      show s.pos + (k - s.pos) = k by omega, hcr]
  rw [← List.take_append_drop (u.pos - s.pos) s.rest,
    ← List.take_append_drop (u.pos - s.pos) (s.withInput x).rest, htake,
    statusKeywordAt_append hmem (by decide), statusKeywordAt_append hmem (by decide)]

theorem keywordAt_of_statusKeywordAt {rest : Bytes} {k : Status × Bytes}
    (h : statusKeywordAt rest = some k) : keywordAt rest k.2 = true := by
  have hk := List.find?_some h
  exact hk

theorem length_le_of_statusKeywordAt {rest : Bytes} {k : Status × Bytes}
    (h : statusKeywordAt rest = some k) : k.2.length ≤ rest.length :=
  length_le_of_keywordAt (keywordAt_of_statusKeywordAt h)

theorem tryParseStatusKeyword_bounded : Bounded lo next tryParseStatusKeyword := by
  intro s v t hs hok
  rw [tryParseStatusKeyword_run hs.valid] at hok
  split at hok
  next k hk =>
    cases hok
    have hle := length_le_of_statusKeywordAt hk
    have hv := hs.valid
    rw [s.length_rest] at hle
    simp only [Valid] at hv
    exact ⟨rfl, Nat.le_add_right _ _, by simp only [Valid]; omega⟩
  · cases hok
    exact Moves.refl hs.valid

/-- No keyword has an end of line in it. -/
theorem statusKeywords_not_cr : ∀ k ∈ statusKeywords, ∀ c ∈ k.2, byteEqCi CR c = false := by
  decide +kernel

theorem tryParseStatusKeyword_traces : Traces linedTrace lo next tryParseStatusKeyword := by
  intro s v t hs hok
  rw [tryParseStatusKeyword_run hs.valid] at hok
  split at hok
  next k hk =>
    cases hok
    have hslice : s.upTo (s.pos + k.2.length) = s.rest.take k.2.length := by
      rw [upTo, List.drop_take, Nat.add_sub_cancel_left]
      rfl
    have hkey := keywordAt_of_statusKeywordAt hk
    simp only [keywordAt, Bool.and_eq_true] at hkey
    refine linedTrace_plain _ _ fun hcr => ?_
    rw [hslice] at hcr
    have hmem : k ∈ statusKeywords := List.mem_of_find?_eq_some hk
    have hno : agreesCi (s.rest.take k.2.length) k.2 = false := by
      refine agreesCi_eq_false hcr (List.length_take_le _ _) ?_
      exact statusKeywords_not_cr k hmem
    rw [agreesCi_take, hkey.1.2] at hno
    cases hno
  · cases hok
    exact linedTrace_plain _ _ (by simp)

/-- A keyword that is not the last thing in the buffer is followed by a byte no keyword has. -/
theorem statusKeywordAt_append_of_some {rest : Bytes} {k : Status × Bytes}
    (h : statusKeywordAt rest = some k) (hlt : k.2.length < rest.length) (y : Bytes) :
    statusKeywordAt (rest ++ y) = some k := by
  have hkey := keywordAt_of_statusKeywordAt h
  have hbyte : ∀ b : UInt8, isBoundary b = true → isKeywordByte b = false := by
    intro b hb
    simp only [isBoundary, Bool.or_eq_true, beq_iff_eq] at hb
    rcases hb with (((rfl | rfl) | rfl) | rfl) | rfl <;> decide
  rw [keywordAt, List.getElem?_eq_getElem hlt, Bool.and_eq_true] at hkey
  rw [statusKeywordAt_append (List.getElem_mem hlt) (hbyte _ hkey.2), h]

/-- **Dispatch on the status keyword.** The keyword is provisional, but what follows makes the
whole stable: after a keyword the end of the buffer is incomplete, and without one a final
failure rules out that a keyword appears later. -/
theorem statusDispatch_framed {f : Option Status → ParserM β} (hf : ∀ o, Framed lo none (f o))
    (hsome : ∀ status, Stuck .incomplete (f (some status)))
    (hnone : ∀ (s : Parser) e y, s.Valid → statusKeywordAt s.rest = none →
      f none s = .error e → e ≠ .incomplete → statusKeywordAt (s.rest ++ y) = none) :
    Framed lo next (tryParseStatusKeyword >>= f) where
  bounded := .bind tryParseStatusKeyword_bounded fun o => (hf o).bounded
  exact s v u hs hok x hx := by
    obtain ⟨o, t, hkt, hft⟩ := run_bind_eq_ok hok
    have hm := tryParseStatusKeyword_bounded hs hkt
    have hend : EndsLine s u :=
      ((hf o).endsLine (hs.moves hm) hft).of_moves hm (tryParseStatusKeyword_traces hs hkt)
    have hule : u.pos ≤ s.input.length := by
      rw [← hm.input]
      exact ((hf o).bounded (hs.moves hm) hft).pos_le
    have hv : (s.withInput x).Valid := by
      have hlast := hx (u.pos - 1) (by have := hend.lt; have := hs.lo_le; omega)
        (by have := hend.lt; omega)
      have hlt : u.pos - 1 < s.input.length := by have := hend.lt; omega
      rw [List.getElem?_eq_getElem hlt] at hlast
      have := (List.getElem?_eq_some_iff.mp hlast).1
      have := hend.lt
      simp only [Valid, withInput_pos, withInput_input]
      omega
    have hkey : tryParseStatusKeyword (s.withInput x) = .ok (o, t.withInput x) := by
      rw [tryParseStatusKeyword_run hs.valid] at hkt
      rw [tryParseStatusKeyword_run hv,
        statusKeywordAt_rest hend fun i h₁ => hx i (Nat.le_trans hs.lo_le h₁)]
      split at hkt <;> cases hkt <;> rfl
    rw [run_bind_ok hkey]
    refine (hf o).exact (hs.moves hm) hft ?_
    rw [hm.input]
    exact hx
  permanent s e hs herr hne y := by
    have hrun := tryParseStatusKeyword_run hs.valid
    have hrun' := tryParseStatusKeyword_run (hs.valid.ext y)
    rw [rest_ext hs.valid] at hrun'
    cases hkey : statusKeywordAt s.rest with
    | none =>
      rw [hkey] at hrun
      rw [run_bind_ok hrun] at herr
      rw [hnone s e y hs.valid hkey herr hne] at hrun'
      obtain ⟨e', hne', he'⟩ := (hf none).permanent hs.forget herr hne y
      exact ⟨e', hne', by rw [run_bind_ok hrun', he']⟩
    | some k =>
      rw [hkey] at hrun
      rw [run_bind_ok hrun] at herr
      have hm := tryParseStatusKeyword_bounded hs hrun
      have hlt : k.2.length < s.rest.length := by
        by_contra hge
        refine hne ?_
        rw [hsome k.1 hm.valid (by rw [s.length_rest] at hge; simp only [AtEnd]; omega)] at herr
        exact (Except.error.inj herr).symm
      rw [statusKeywordAt_append_of_some hkey hlt] at hrun'
      obtain ⟨e', hne', he'⟩ := (hf (some k.1)).permanent (hs.moves hm) herr hne y
      exact ⟨e', hne', by rw [run_bind_ok hrun', ← he']; rfl⟩
  endsLine s v u hs hok := by
    obtain ⟨o, t, hkt, hft⟩ := run_bind_eq_ok hok
    have hm := tryParseStatusKeyword_bounded hs hkt
    exact ((hf o).endsLine (hs.moves hm) hft).of_moves hm (tryParseStatusKeyword_traces hs hkt)

/-! ### Responses -/

theorem finishStatus_framed (tag : Option Str) (status : Status) :
    Framed lo next (finishStatus tag status) :=
  line_framed parseRespTextAfterKeyword_assembled fun r =>
    Response.status ⟨tag, status, r.1, r.2⟩

theorem finishStatus_stuck (tag : Option Str) (status : Status) :
    Stuck .incomplete (finishStatus tag status) := by
  intro s hv hend
  rw [finishStatus, parseRespTextAfterKeyword, bind_assoc, run_tryConsume_bind,
    if_neg (by rw [List.getElem?_eq_none hend]; nofun), if_neg Bool.false_ne_true, pure_bind]
  exact consumeCrlf_stuck.bind _ hv hend

theorem parseContinueReq_framed : Framed lo next parseContinueReq := by
  refine .bind (consumeByte_assembled (by decide)) (fun _ => ?_) (.inl (consumeByte_firm _))
  refine .bind (consumeByte_assembled (by decide)) (fun _ => ?_) (.inl (consumeByte_firm _))
  exact line_framed parseRespText_assembled fun r => Response.continue ⟨r.1, r.2⟩

/-- What an untagged response without a status keyword goes on with. -/
def untaggedData : ParserM Response := do
  if isAsciiDigit (← peek) then parseNumericDataResponse
  else parseNamedDataResponse

theorem untaggedData_framed : Framed 0 next untaggedData :=
  .peek_bind fun _ => .ite parseNumericDataResponse_framed parseNamedDataResponse_framed

theorem isAtomChar_of_isKeywordByte {b : UInt8} (h : isKeywordByte b = true) :
    isAtomChar b = true ∧ isAsciiDigit b = false := by
  have key : ∀ n : Fin 256, isKeywordByte (UInt8.ofFin n) = true →
      isAtomChar (UInt8.ofFin n) = true ∧ isAsciiDigit (UInt8.ofFin n) = false := by
    decide +kernel
  exact key b.toFin h

/-- A rest made of keyword bytes alone is a word whose end has not been seen. -/
theorem untaggedData_of_keywordBytes {s : Parser} (hv : s.Valid)
    (h : ∀ b ∈ s.rest, isKeywordByte b = true) : untaggedData s = .error .incomplete := by
  cases hc : s.input[s.pos]? with
  | none => exact (peek_stuck.bind _) hv (isEof_iff.mpr hc)
  | some c =>
    have hmem : c ∈ s.rest := by
      rw [s.getElem?_pos] at hc
      exact List.mem_of_mem_head? hc
    have hscan : s.rest.takeWhile isAtomChar = s.rest :=
      List.takeWhile_eq_self_iff.mpr fun b hb => (isAtomChar_of_isKeywordByte (h b hb)).1
    have hstop : s.input.length ≤ scanStop isAtomChar s := by
      rw [scanStop, hscan, s.length_rest]
      omega
    have hatom : parseAtom s = .error .incomplete := by
      rw [parseAtom_eq, run_position_bind, tokenFrom_eq, List.getElem?_eq_none hstop]
      rfl
    rw [untaggedData, run_bind_ok (peek_of_some hc), (isAtomChar_of_isKeywordByte (h c hmem)).2,
      if_neg Bool.false_ne_true, parseNamedDataResponse, run_position_bind]
    exact run_bind_error hatom

theorem parseUntagged_framed : Framed 0 next parseUntagged := by
  refine .bind (consumeByte_assembled (by decide)) (fun _ => ?_) (.inl (consumeByte_firm _))
  refine .bind (consumeByte_assembled (by decide)) (fun _ => ?_) (.inl (consumeByte_firm _))
  refine statusDispatch_framed (fun o => ?_) (finishStatus_stuck none) ?_
  · cases o with
    | some status => exact finishStatus_framed none status
    | none => exact untaggedData_framed
  · intro s e y hv hkey herr hne
    by_cases hall : ∀ b ∈ s.rest, isKeywordByte b = true
    · have hinc : Except.error e = .error .incomplete :=
        herr.symm.trans (untaggedData_of_keywordBytes hv hall)
      exact absurd (Except.error.inj hinc) hne
    · simp only [not_forall, Bool.not_eq_true] at hall
      obtain ⟨b, hb, hkb⟩ := hall
      rw [statusKeywordAt_append hb hkb, hkey]

/-- The verdict on a tagged line without a status keyword. -/
def noTaggedStatus : ParserM Response := fun s =>
  if couldBeStatusKeywordPrefix (s.input.drop s.pos) then .error .incomplete
  else .error (.malformed "expected tagged status keyword")

theorem noTaggedStatus_eq_error {s : Parser} {e : ParseError} (h : noTaggedStatus s = .error e)
    (hne : e ≠ .incomplete) : couldBeStatusKeywordPrefix s.rest = false := by
  rw [noTaggedStatus] at h
  split at h
  · cases h; exact absurd rfl hne
  next hpre => exact Bool.eq_false_iff.mpr hpre

theorem noTaggedStatus_ne_ok {s t : Parser} {v : Response} : noTaggedStatus s ≠ .ok (v, t) := by
  rw [noTaggedStatus]
  split <;> nofun

theorem noTaggedStatus_framed : Framed lo next noTaggedStatus where
  bounded _ _ _ _ hok := absurd hok noTaggedStatus_ne_ok
  exact _ _ _ _ hok := absurd hok noTaggedStatus_ne_ok
  permanent s e hs herr hne y := by
    have hpre := couldBeStatusKeywordPrefix_append (noTaggedStatus_eq_error herr hne) y
    rw [← rest_ext hs.valid, rest] at hpre
    refine ⟨_, ?_, by rw [noTaggedStatus, hpre]; exact if_neg Bool.false_ne_true⟩
    simp
  endsLine _ _ _ _ hok := absurd hok noTaggedStatus_ne_ok

theorem parseTagged_framed : Framed lo next parseTagged := by
  refine .bind parseTag_assembled (fun tag => ?_) (.inl parseTag_firm)
  refine .bind (consumeByte_assembled (by decide)) (fun _ => ?_) (.inl (consumeByte_firm _))
  refine statusDispatch_framed (fun o => ?_) (finishStatus_stuck (some tag)) ?_
  · cases o with
    | some status => exact finishStatus_framed (some tag) status
    | none => exact noTaggedStatus_framed
  · intro s e y _ hkey herr hne
    exact statusKeywordAt_append_of_not_prefix (noTaggedStatus_eq_error herr hne) hkey y

/-- The check for an empty buffer says what `peek` would say. -/
theorem parseResponse_eq : parseResponse = (do
    let c ← peek
    if c = byte '+' then parseContinueReq
    else if c = byte '*' then parseUntagged
    else parseTagged) := by
  funext s
  rw [parseResponse, isEof_bind]
  by_cases hend : s.input.length ≤ s.pos
  · rw [decide_eq_true hend, if_pos rfl]
    exact (run_bind_error (peek_atEnd hend)).symm
  · rw [decide_eq_false hend, if_neg Bool.false_ne_true]

/-- **Every response is framed.** -/
theorem parseResponse_framed : Framed 0 next parseResponse := by
  rw [parseResponse_eq]
  exact .peek_bind fun c =>
    .ite parseContinueReq_framed (.ite parseUntagged_framed parseTagged_framed)

theorem new_meets (input : Bytes) : (new input).Meets 0 none := .zero (Nat.zero_le _)

/-- The parser behind `* `. -/
def afterStar (input : Bytes) : Parser := ⟨input, 2, ⟨MAX_ITEMS_PER_RESPONSE, []⟩⟩

/-- A line that starts with `* ` and no status keyword is a data response. -/
theorem parseResponse_untagged {z : Bytes} (hkey : statusKeywordAt z = none) :
    parseResponse (new (byte '*' :: SP :: z)) = untaggedData (afterStar (byte '*' :: SP :: z)) := by
  obtain ⟨x, hx⟩ : ∃ x, x = byte '*' :: SP :: z := ⟨_, rfl⟩
  rw [← hx]
  have h₀ : (new x).input[(new x).pos]? = some (byte '*') := by rw [hx]; rfl
  have h₁ : ({ new x with pos := 1 } : Parser).input[1]? = some SP := by rw [new, hx]; rfl
  have h₂ : (afterStar x).Valid := by
    rw [afterStar, hx]
    exact Nat.le_add_left 2 _
  have hpeek : peek (new x) = .ok (byte '*', new x) := peek_of_some h₀
  have hstar : consumeByte (byte '*') (new x) = .ok ((), { new x with pos := 1 }) :=
    consumeByte_of_eq h₀
  have hsp : consumeSp { new x with pos := 1 } = .ok ((), afterStar x) := consumeByte_of_eq h₁
  have hnone : tryParseStatusKeyword (afterStar x) = .ok (none, afterStar x) := by
    rw [tryParseStatusKeyword_run h₂, show (afterStar x).rest = z by rw [afterStar, hx]; rfl, hkey]
  rw [parseResponse_eq, run_bind_ok hpeek, if_neg (by decide), if_pos rfl, parseUntagged,
    run_bind_ok hstar, run_bind_ok hsp, run_bind_ok hnone]
  rfl

end Parser

/-! ### Whole buffers -/

theorem parseResponse_eq_ok {data rest : Bytes} {r : Response}
    (h : parseResponse data = .ok (rest, r)) :
    ∃ t, Parser.parseResponse (Parser.new data) = .ok (r, t) ∧ t.rest = rest := by
  rw [parseResponse] at h
  split at h
  next r' t ht => cases h; exact ⟨t, ht, rfl⟩
  · cases h

theorem parseResponse_eq_error {data : Bytes} {e : ParseError}
    (h : parseResponse data = .error e) :
    Parser.parseResponse (Parser.new data) = .error e := by
  rw [parseResponse] at h
  split at h
  · cases h
  next e' he => cases h; exact he

theorem parseResponse_of_ok {data : Bytes} {r : Response} {t : Parser}
    (h : Parser.parseResponse (Parser.new data) = .ok (r, t)) :
    parseResponse data = .ok (t.rest, r) := by
  rw [parseResponse, h]

/-- A buffer that agrees with `data` on the frame gives the same response. -/
theorem parseResponse_congr {data x : Bytes} {r : Response} {t : Parser}
    (h : Parser.parseResponse (Parser.new data) = .ok (r, t))
    (hx : ∀ i, i < t.pos → x[i]? = data[i]?) :
    parseResponse x = .ok (x.drop t.pos, r) :=
  parseResponse_of_ok (Parser.parseResponse_framed.exact (Parser.new_meets data) h fun i _ => hx i)

theorem parseResponse_append_ok {x rest : Bytes} {r : Response}
    (h : parseResponse x = .ok (rest, r)) (y : Bytes) :
    parseResponse (x ++ y) = .ok (rest ++ y, r) := by
  obtain ⟨t, ht, rfl⟩ := parseResponse_eq_ok h
  have hm := Parser.parseResponse_framed.bounded (Parser.new_meets x) ht
  have hle : t.pos ≤ x.length := hm.pos_le
  rw [parseResponse_congr ht fun i hi => List.getElem?_append_left (Nat.lt_of_lt_of_le hi hle),
    List.drop_append_of_le_length hle, rest, hm.input]
  rfl

theorem parseResponse_append_error {x : Bytes} {e : ParseError} (h : parseResponse x = .error e)
    (hne : e ≠ .incomplete) (y : Bytes) :
    ∃ e', e' ≠ .incomplete ∧ parseResponse (x ++ y) = .error e' := by
  obtain ⟨e', hne', he'⟩ := Parser.parseResponse_framed.permanent (Parser.new_meets x)
    (parseResponse_eq_error h) hne y
  refine ⟨e', hne', ?_⟩
  change Parser.parseResponse (Parser.new (x ++ y)) = .error e' at he'
  rw [parseResponse, he']

/-- Ghost: the literals consumed by the response at the start of `data`. -/
def consumedLiterals (data : Bytes) : List Literal :=
  match Parser.parseResponse (Parser.new data) with
  | .ok (_, t) => t.aux.literals
  | .error _ => []

/-- The bytes of a frame: lined text and CRLF, and the same response with nothing left over. -/
theorem parseResponse_frame {data rest : Bytes} {r : Response}
    (h : parseResponse data = .ok (rest, r)) :
    ∃ body, data = body ++ CRLF ++ rest ∧ parseResponse (body ++ CRLF) = .ok ([], r) ∧
      Lined 0 body (consumedLiterals data) := by
  obtain ⟨t, ht, rfl⟩ := parseResponse_eq_ok h
  have hm := Parser.parseResponse_framed.bounded (Parser.new_meets data) ht
  have hdata : t.input = data := hm.input
  obtain ⟨k, _, hk, hcr, hlf, ls, hls, hlined⟩ :=
    Parser.parseResponse_framed.endsLine (Parser.new_meets data) ht
  have hcr : data[k]? = some CR := hcr
  have hlf : data[k + 1]? = some LF := hlf
  have hframe : data.take k ++ CRLF = data.take t.pos := by
    rw [hk, List.take_add_one, List.take_add_one, hcr, hlf, List.append_assoc]
    rfl
  refine ⟨data.take k, ?_, ?_, ?_⟩
  · rw [hframe, rest, hdata, List.take_append_drop]
  · rw [hframe, parseResponse_congr ht fun i hi => List.getElem?_take_of_lt hi, List.drop_take,
      Nat.sub_self, List.take_zero]
  · rw [consumedLiterals, ht]
    simp only [hls]
    exact hlined

/-- **A frame is exact.** A successful parse consumes a non-empty frame that ends in CRLF; the
frame alone gives the same response with nothing left over, and every strict prefix of it asks
for more input. -/
theorem parseResponse_frame_exact {data rest : Bytes} {r : Response}
    (h : parseResponse data = .ok (rest, r)) :
    ∃ f, data = f ++ rest ∧ f ≠ [] ∧ CRLF <:+ f ∧ parseResponse f = .ok ([], r) ∧
      ∀ p, p <+: f → p ≠ f → parseResponse p = .error .incomplete := by
  obtain ⟨body, hdata, hf, _⟩ := parseResponse_frame h
  refine ⟨body ++ CRLF, hdata, by simp, List.suffix_append _ _, hf, ?_⟩
  · rintro p ⟨z, hpz⟩ hne
    rw [← hpz] at hf hne
    have hz : z ≠ [] := by
      rintro rfl
      exact hne (List.append_nil p).symm
    cases hp : parseResponse p with
    | ok q =>
      -- a response inside the frame would leave the rest of the frame over
      obtain ⟨rest', r'⟩ := q
      have hcon := (parseResponse_append_ok hp z).symm.trans hf
      simp only [Except.ok.injEq, Prod.mk.injEq, List.append_eq_nil_iff] at hcon
      exact absurd hcon.1.2 hz
    | error e =>
      by_contra hcon
      obtain ⟨e', _, he'⟩ := parseResponse_append_error hp (fun he => hcon (by rw [he])) z
      rw [hf] at he'
      cases he'

/-- A line followed by the beginning of the next one. -/
theorem parseResponse_frame_exact_exists :
    ∃ f, ascii "* 3 EXISTS\r\n* 4" = f ++ ascii "* 4" ∧ f ≠ [] ∧ CRLF <:+ f ∧
      parseResponse f = .ok ([], .data (.exists 3)) ∧
      ∀ p, p <+: f → p ≠ f → parseResponse p = .error .incomplete :=
  parseResponse_frame_exact (by decide)

/-- **Verdicts are permanent.** More input never changes a decided verdict. -/
theorem parseResponse_verdict_permanent (x y : Bytes) :
    (∀ rest r, parseResponse x = .ok (rest, r) →
      parseResponse (x ++ y) = .ok (rest ++ y, r)) ∧
    (∀ e, parseResponse x = .error e → e ≠ .incomplete →
      ∃ e', e' ≠ .incomplete ∧ parseResponse (x ++ y) = .error e') :=
  ⟨fun _ _ h => parseResponse_append_ok h y, fun _ h hne => parseResponse_append_error h hne y⟩

/-- One decided verdict of each kind. -/
theorem parseResponse_verdict_permanent_exists :
    parseResponse (ascii "* 3 EXISTS\r\n" ++ ascii "* 4")
      = .ok ([] ++ ascii "* 4", .data (.exists 3)) ∧
    ∃ e', e' ≠ .incomplete ∧ parseResponse (ascii "* 3 EXISTS (" ++ ascii "\r\n") = .error e' :=
  ⟨(parseResponse_verdict_permanent _ _).1 [] (.data (.exists 3)) (by decide),
    (parseResponse_verdict_permanent _ _).2 (.malformed "expected CR") (by decide) nofun⟩

/-! ### Lines are never merged -/

/-- Text without a CR in front of a CRLF ends before any other CRLF. -/
theorem prefix_of_CR_not_mem {body rest pre post : Bytes} (hbody : CR ∉ body)
    (h : body ++ CRLF ++ rest = pre ++ CRLF ++ post) : body <+: pre := by
  rw [List.append_assoc, List.append_assoc, List.append_eq_append_iff] at h
  rcases h with ⟨z, hz, _⟩ | ⟨z, hz, hcrlf⟩
  · exact ⟨z, hz.symm⟩
  · cases z with
    | nil => exact ⟨[], by rw [hz]; simp⟩
    | cons c cs =>
      -- the other CRLF would begin inside the text
      have hc : CR = c := by simpa using congrArg List.head? hcrlf
      exact absurd (by rw [hz, ← hc]; simp) hbody

/-- **Lines are never merged.** A frame is stretches without a CR and consumed literals, then
CRLF; without a literal it is the input up to and including the first CRLF. -/
theorem parseResponse_lines {data rest : Bytes} {r : Response}
    (h : parseResponse data = .ok (rest, r)) :
    ∃ body, data = body ++ CRLF ++ rest ∧ Lined 0 body (consumedLiterals data) ∧
      (consumedLiterals data = [] →
        CR ∉ body ∧ ∀ pre post, data = pre ++ CRLF ++ post → body <+: pre) := by
  obtain ⟨body, hdata, _, hlined⟩ := parseResponse_frame h
  refine ⟨body, hdata, hlined, fun hnil => ?_⟩
  have hbody : CR ∉ body := (hnil ▸ hlined).not_mem_of_nil
  exact ⟨hbody, fun pre post hpre => prefix_of_CR_not_mem hbody (hdata ▸ hpre)⟩

/-- A frame with one literal that holds a line of its own. -/
theorem parseResponse_lines_literal :
    ∃ body, ascii "* 1 FETCH (BODY[] \x7b4\x7d\r\nx\r\ny)\r\n" = body ++ CRLF ++ [] ∧
      Lined 0 body (consumedLiterals (ascii "* 1 FETCH (BODY[] \x7b4\x7d\r\nx\r\ny)\r\n")) ∧
      (consumedLiterals (ascii "* 1 FETCH (BODY[] \x7b4\x7d\r\nx\r\ny)\r\n") = [] →
        CR ∉ body ∧ ∀ pre post, ascii "* 1 FETCH (BODY[] \x7b4\x7d\r\nx\r\ny)\r\n"
          = pre ++ CRLF ++ post → body <+: pre) :=
  parseResponse_lines (r := .data (.fetch 1 [.bodySection none none (some ⟨23, ascii "x\r\ny"⟩)]))
    (by decide)

end ImapRs
