import ImapRs.Core.Tokens

/-!
# The productions are assembled from the kit

Every production below the level of a whole response is walked through once: it is assembled
from the scanners and primitives of `Tokens`. What happens to a production at the end of the
buffer (whether it is stuck, patient, firm or soft there) is proved alongside, since that is what
the rules for sequencing ask for.

## Main results

* `parseQuoted_assembled`, `parseParenList_assembled`, `parseRespText_assembled`,
  `namedData_assembled`, `parseFetchMsgAtt_assembled` and their siblings
-/

namespace ImapRs

open Incremental Incremental.Cursor

namespace Parser

variable {lo : ℕ} {next : Option UInt8} {att : Bool} {α β : Type}

theorem bounded_of_assembled {p : ParserM α} (h : Assembled (kit true) lo next p) :
    Bounded lo next p :=
  (h.lawful (kit_sound true)).bounded

/-! ### Single bytes and words -/

theorem peek_bounded : Bounded lo next peek := by
  intro s v t hs h
  obtain ⟨-, rfl⟩ := peek_eq_ok h
  exact .refl hs.valid

theorem isEof_bounded : Bounded lo next isEof := by
  intro s v t hs h
  cases h
  exact .refl hs.valid

theorem skipWhile_bounded (p : UInt8 → Bool) : Bounded lo next (skipWhile p : ParserM Unit) := by
  intro s v t hs h
  rw [skipWhile_eq] at h
  cases h
  refine ⟨rfl, Nat.le_add_right _ _, ?_⟩
  have hle := (List.takeWhile_prefix (l := s.rest) p).length_le
  have hrest := s.length_rest
  have hvalid := hs.valid
  simp only [Valid] at hvalid ⊢
  omega

theorem advance_eq : (advance : ParserM Unit) = advance >>= fun _ => pure () :=
  (bind_pure advance).symm

theorem consumeByte_assembled {b : UInt8} (hb : b ≠ CR) :
    Assembled (kit att) lo next (consumeByte b) := by
  refine .peek fun c => ?_
  by_cases hc : c = b
  · rw [if_pos hc, advance_eq]
    exact .advance (hc ▸ hb) (.pure ())
  · rw [if_neg hc]
    exact .position fun _ => .fail nofun

/-- Stepping over a byte that was seen to be `b`. -/
theorem advance_assembled {b c : UInt8} (hc : c = b) (hb : b ≠ CR) {p : ParserM β}
    (hp : Assembled (kit att) lo none p) :
    Assembled (kit att) lo (some c) (advance >>= fun _ => p) :=
  .advance (ne_of_eq_of_ne hc hb) hp

theorem tryConsumeByte_assembled {b : UInt8} (hb : b ≠ CR) {f : Bool → ParserM β}
    (hf : ∀ b, Assembled (kit att) lo none (f b)) (hpat : Patient .incomplete (f false)) :
    Assembled (kit att) lo next (tryConsumeByte b >>= f) :=
  .attempt hb hf hpat

/-- A byte, then the rest: nothing is provisional here. -/
theorem consumeByte_bind_assembled {b : UInt8} (hb : b ≠ CR) {q : Unit → ParserM β}
    (hq : Assembled (kit att) lo none (q ())) :
    Assembled (kit att) lo next (consumeByte b >>= q) :=
  .bind (consumeByte_assembled hb) (fun _ => hq) (.inl (consumeByte_firm b))

theorem consumeByte_bind_soft {b : UInt8} {q : Unit → ParserM β}
    (hq : Soft .incomplete lo none (q ())) : Soft .incomplete lo next (consumeByte b >>= q) :=
  .bind (consumeByte_lawful b) (.inl (consumeByte_firm b)) fun _ => hq

theorem consumeByte_bind_firm {b : UInt8} {q : Unit → ParserM β} (hq : Firm lo none (q ())) :
    Firm lo next (consumeByte b >>= q) :=
  .bind (consumeByte_lawful b) (.inl (consumeByte_firm b)) fun _ => hq

/-- What decoding text decides does not depend on the buffer. -/
theorem toStr_bind_cases {bs : Bytes} {q : Str → ParserM β} {P : ParserM β → Prop}
    (hq : ∀ s, P (q s)) (hfail : P (fail (.other "Invalid UTF-8"))) : P (toStr bs >>= q) := by
  rw [toStr]
  cases fromUtf8 bs with
  | none => exact hfail
  | some s => exact hq s

theorem toStr_assembled (bs : Bytes) : Assembled (kit att) lo next (toStr bs) := by
  rw [← bind_pure (toStr bs)]
  exact toStr_bind_cases (fun s => .pure s) (.fail nofun)

theorem toStr_firm (bs : Bytes) : Firm lo next (toStr bs) := by
  rw [← bind_pure (toStr bs)]
  exact toStr_bind_cases (fun s => .pure s) (.fail _)

theorem ne_CR_of_isAtomChar {c : UInt8} (h : isAtomChar c = true) : c ≠ CR := by
  rintro rfl
  exact absurd h (by decide)

theorem word_assembled {p : UInt8 → Bool} (hp : ∀ c, p c = true → c ≠ CR) (what : String) :
    Assembled (kit att) lo next (tokenFrom lo p (wordVerdict what)) :=
  .token hp (fun _ _ => wordVerdict_none) fun _ _ _ => wordVerdict_ne

theorem word_stuck (start : ℕ) (p : UInt8 → Bool) (what : String) :
    Stuck .incomplete (tokenFrom start p (wordVerdict what) : ParserM Str) :=
  tokenFrom_stuck_of_none start fun _ => rfl

theorem parseAtom_assembled : Assembled (kit att) lo next parseAtom := by
  rw [parseAtom_eq]
  exact .position fun _ => word_assembled (fun _ => ne_CR_of_isAtomChar) _

theorem parseTag_assembled : Assembled (kit att) lo next parseTag := by
  rw [parseTag_eq]
  refine .position fun _ => word_assembled ?_ _
  rintro c hc rfl
  exact absurd hc (by decide)

theorem parseText_assembled : Assembled (kit att) lo next parseText := by
  rw [parseText_eq]
  refine .position fun _ => .token ?_ ?_ ?_
  · rintro c hc rfl
    exact absurd hc (by decide)
  · rintro bs e h
    cases h
    rfl
  · exact fun _ _ _ => utf8Verdict_ne

theorem readUntilByte_assembled (b : UInt8) : Assembled (kit att) lo next (readUntilByte b) := by
  rw [readUntilByte_eq]
  refine .position fun _ => .token ?_ ?_ ?_
  · rintro c hc rfl
    simp at hc
  · rintro bs e h
    cases h
    rfl
  · intro bs c e h
    rw [untilVerdict] at h
    split at h
    · exact utf8Verdict_ne h
    · cases h; simp [kit]

theorem parseCodeAtom_assembled : Assembled (kit att) lo next parseCodeAtom := by
  rw [parseCodeAtom_eq]
  refine .position fun _ => .token ?_ ?_ ?_
  · rintro c hc rfl
    simp at hc
  · rintro bs e h
    cases h
    rfl
  · intro bs c e h
    rw [codeVerdict] at h
    split at h
    · split at h
      · cases h; simp [kit]
      · exact utf8Verdict_ne h
    · cases h; simp [kit]

theorem parseNumber_assembled : Assembled (kit att) lo next parseNumber := .prim (.number att lo)

theorem expectNil_assembled : Assembled (kit att) lo next expectNil := .prim (.nil att lo)

theorem parseLiteral_assembled : Assembled (kit att) lo next parseLiteral :=
  .prim (.literal att lo)

/-! ### Quoted strings -/

theorem quotedStep_assembled (start : ℕ) (a : Unit) :
    Assembled (kit att) start none (quotedStep start a) := by
  refine .peek fun c => ?_
  by_cases hq : c = byte '"'
  · rw [if_pos hq]
    refine .slice fun bs => toStr_bind_cases (fun s => ?_) (.fail nofun)
    exact advance_assembled hq (by decide) (.pure _)
  rw [if_neg hq]
  by_cases hb : c = byte '\\'
  · rw [if_pos hb]
    refine advance_assembled hb (by decide) (.peek fun d => ?_)
    by_cases hd : d = byte '"' ∨ d = byte '\\'
    · rw [if_pos hd]
      refine .advance ?_ (.pure _)
      rcases hd with hd | hd <;> exact ne_of_eq_of_ne hd (by decide)
    · rw [if_neg hd]
      exact .fail nofun
  rw [if_neg hb]
  by_cases hcr : c = CR ∨ c = LF
  · rw [if_pos hcr]
    exact .fail nofun
  rw [if_neg hcr]
  by_cases h0 : c = 0
  · rw [if_pos h0]
    exact .fail nofun
  rw [if_neg h0]
  exact .advance (fun h => hcr (.inl h)) (.pure _)

theorem quotedStep_lawful (start : ℕ) (a : Unit) :
    Lawful .incomplete start none (quotedStep start a) :=
  (@quotedStep_assembled false start a).lawful (kit_sound false)

theorem quotedStep_stuck (start : ℕ) (a : Unit) : Stuck .incomplete (quotedStep start a) :=
  peek_stuck.bind _

theorem quotedStep_firm (start : ℕ) (a : Unit) : Firm start none (quotedStep start a) := by
  refine .peek_bind fun c => ?_
  split
  · exact .slice_bind fun bs => toStr_bind_cases (fun s => .advance_bind (.pure _)) (.fail _)
  split
  · refine .advance_bind (.peek_bind fun d => ?_)
    split
    · exact .advance_bind (.pure _)
    · exact .fail _
  split
  · exact .fail _
  split
  · exact .fail _
  · exact .advance_bind (.pure _)

theorem quotedStep_progress (start : ℕ) : Progress start (quotedStep start) := by
  refine fun a => .peek_bind fun c => ?_
  split
  · refine .slice_bind fun bs => toStr_bind_cases (fun s => ?_) (.fail _)
    exact .advance_bind (.pure _)
  split
  · refine .advance_bind (.peek_bind fun d => ?_)
    split
    · exact .advance_bind (.pure _)
    · exact .fail _
  split
  · exact .fail _
  split
  · exact .fail _
  · exact .advance_bind (.pure _)

theorem quotedTail_assembled : Assembled (kit att) lo next
    (position >>= fun start => iterate .unexpectedEof (quotedStep start) () : ParserM Str) :=
  .position fun start => .loop (quotedStep_assembled start) (quotedStep_progress start)
    fun a => (quotedStep_stuck start a).patient

theorem parseQuoted_assembled : Assembled (kit att) lo next parseQuoted :=
  consumeByte_bind_assembled (by decide) quotedTail_assembled

theorem parseQuoted_firm : Firm lo next parseQuoted :=
  consumeByte_bind_firm (.position_bind fun start =>
    iterate_firm (quotedStep_firm start) (fun a => (quotedStep_lawful start a).bounded)
      (quotedStep_progress start) ())

theorem parseQuoted_lawful : Lawful .incomplete lo next parseQuoted :=
  (@parseQuoted_assembled lo next false).lawful (kit_sound false)

theorem parseQuoted_consumes : Consumes lo next parseQuoted :=
  .bind_left (consumeByte_bounded _) (consumeByte_consumes _) fun _ =>
    ((@quotedTail_assembled lo none false).lawful (kit_sound false)).bounded

/-! ### Strings -/

theorem parseAstring_assembled : Assembled (kit att) lo next parseAstring := by
  refine .peek fun c => ?_
  split
  · exact parseQuoted_assembled
  split
  · exact .bind parseLiteral_assembled (fun _ => toStr_assembled _) (.inl parseLiteral_firm)
  · exact parseAtom_assembled

theorem parseNstring_assembled : Assembled (kit att) lo next parseNstring := by
  refine .peek fun c => ?_
  split
  · exact .bind parseQuoted_assembled (fun _ => .pure _) (.inl parseQuoted_firm)
  split
  · refine .bind parseLiteral_assembled (fun data => ?_) (.inl parseLiteral_firm)
    exact toStr_bind_cases (fun _ => .pure _) (.fail nofun)
  · exact .bind expectNil_assembled (fun _ => .pure _) (.inr fun _ => .pure _)

theorem parseNstringBytes_assembled : Assembled (kit att) lo next parseNstringBytes := by
  refine .peek fun c => ?_
  split
  · refine .position fun start => ?_
    exact .bind parseQuoted_assembled (fun _ => .pure _) (.inl parseQuoted_firm)
  split
  · exact parseLiteral_assembled
  · exact .bind expectNil_assembled (fun _ => .position fun _ => .pure _)
      (.inr fun _ => (Still.position_bind fun _ => .pure _).patient)

theorem parseNstringBytes_soft : Soft .incomplete lo next parseNstringBytes := by
  refine .peek_bind fun c => ?_
  split
  · exact (Firm.position_bind fun _ =>
      .bind parseQuoted_lawful (.inl parseQuoted_firm) fun _ => .pure _).soft
  split
  · exact parseLiteral_firm.soft
  · exact expectNil_soft.still fun _ => .position_bind fun _ => .pure _

theorem parseNstringBytesOptional_assembled :
    Assembled (kit att) lo next parseNstringBytesOptional := by
  refine .peek fun c => ?_
  split
  · refine .position fun start => ?_
    exact .bind parseQuoted_assembled (fun _ => .pure _) (.inl parseQuoted_firm)
  split
  · exact .bind parseLiteral_assembled (fun _ => .pure _) (.inl parseLiteral_firm)
  · exact .bind expectNil_assembled (fun _ => .pure _) (.inr fun _ => .pure _)

theorem parseNstringBytesOptional_soft : Soft .incomplete lo next parseNstringBytesOptional := by
  refine .peek_bind fun c => ?_
  split
  · exact (Firm.position_bind fun _ =>
      .bind parseQuoted_lawful (.inl parseQuoted_firm) fun _ => .pure _).soft
  split
  · exact parseLiteral_firm.soft.still fun _ => .pure _
  · exact expectNil_soft.still fun _ => .pure _

/-! ### Flags -/

/-- The flag parser with its scan as a token. -/
theorem parseFlagOrAtom_eq : parseFlagOrAtom = (do
    let start ← position
    let c ← peek
    if c = byte '\\' then do
      advance
      if ← tryConsumeByte (byte '*') then toStr (← sliceFrom start)
      else tokenFrom start isAtomChar (wordVerdict "expected flag/atom")
    else tokenFrom start isAtomChar (wordVerdict "expected flag/atom")) := by
  funext s
  rw [parseFlagOrAtom, run_position_bind, run_position_bind, run_bind, run_bind]
  cases hp : peek s with
  | error e => rfl
  | ok r =>
    obtain ⟨c, t⟩ := r
    obtain ⟨hc, rfl⟩ := peek_eq_ok hp
    simp only
    by_cases hb : c = byte '\\'
    · rw [if_pos hb, if_pos hb, run_advance_bind, run_advance_bind, run_tryConsume_bind,
        run_tryConsume_bind]
      split
      · rfl
      · exact word_run (Nat.le_succ _)
    · rw [if_neg hb, if_neg hb]
      exact word_run (Nat.le_refl _)

theorem parseFlagOrAtom_assembled : Assembled (kit att) lo next parseFlagOrAtom := by
  rw [parseFlagOrAtom_eq]
  refine .position fun start => .peek fun c => ?_
  split
  next hc =>
    refine advance_assembled hc (by decide) (tryConsumeByte_assembled (by decide) (fun b => ?_) ?_)
    · split
      · exact .slice fun bs => toStr_assembled bs
      · exact word_assembled (fun _ => ne_CR_of_isAtomChar) _
    · rw [if_neg Bool.false_ne_true]
      exact (word_stuck start _ _).patient
  · exact word_assembled (fun _ => ne_CR_of_isAtomChar) _

theorem parseFlagOrAtom_firm : Firm lo next parseFlagOrAtom := by
  rw [parseFlagOrAtom_eq]
  have htail : ∀ start next, Firm start next
      (tokenFrom start isAtomChar (wordVerdict "expected flag/atom") : ParserM Str) :=
    fun _ _ => tokenFrom_firm fun _ _ h => nomatch h
  refine .position_bind fun start => .peek_bind fun c => ?_
  split
  · refine .advance_bind (.try_bind (fun b => ?_) ?_)
    · split
      · exact .slice_bind fun bs => toStr_firm bs
      · exact htail start _
    · rw [if_neg Bool.false_ne_true]
      exact (word_stuck start _ _).hungry
  · exact htail start _

theorem parseFlagOrAtom_stuck : Stuck .incomplete parseFlagOrAtom := by
  intro s hv hend
  rw [parseFlagOrAtom_eq, run_position_bind]
  exact peek_stuck.bind _ hv hend

/-! ### Parenthesised lists -/

/-- What a list asks of its element parser. -/
structure Element (att : Bool) (element : ParserM α) : Prop where
  assembled : ∀ lo, Assembled (kit att) lo none element
  soft : ∀ lo, Soft .incomplete lo none element
  stuck : Stuck .incomplete element

theorem pushItem_bind (items : List α) (item : α) (q : List α → ParserM β) :
    (pushItem items item >>= q) = charge chargeItem >>= fun _ => q (items ++ [item]) := by
  rw [pushItem, bind_assoc]
  simp only [pure_bind]

section List

variable {element : ParserM α} {expected : String}

theorem parenListStep_eq (items : List α) : parenListStep element expected items = (do
    let item ← element
    charge chargeItem
    let c ← peek
    if c = SP then do
      advance
      pure (.again (items ++ [item]))
    else if c = byte ')' then do
      advance
      pure (.done (items ++ [item]))
    else fail (.malformed expected)) := by
  rw [parenListStep]
  simp only [pushItem_bind]

theorem parenListStep_assembled (h : Element att element) (items : List α) :
    Assembled (kit att) lo none (parenListStep element expected items) := by
  rw [parenListStep_eq]
  refine .item (h.assembled lo) (h.soft lo) (fun item => .peek fun c => ?_)
    fun _ => (peek_stuck.bind _).patient
  split
  next hc => exact advance_assembled hc (by decide) (.pure _)
  split
  next hc => exact advance_assembled hc (by decide) (.pure _)
  · exact .fail nofun

theorem parenListStep_lawful (h : Element att element) (items : List α) :
    Lawful .incomplete lo none (parenListStep element expected items) :=
  (parenListStep_assembled h items).lawful (kit_sound att)

theorem Element.bounded (h : Element att element) : Bounded lo none element :=
  ((h.assembled lo).lawful (kit_sound att)).bounded

theorem parenListStep_progress (h : Element att element) :
    Progress lo (parenListStep element expected) := by
  intro items
  rw [parenListStep_eq]
  refine .bind_right h.bounded fun item => .bind_right (charge_bounded _) fun _ =>
    .peek_bind fun c => ?_
  split
  · exact .advance_bind (.pure _)
  split
  · exact .advance_bind (.pure _)
  · exact .fail _

theorem parenListStep_stuck (h : Element att element) (items : List α) :
    Stuck .incomplete (parenListStep element expected items) :=
  h.stuck.bind _

/-- The loop of a list. -/
theorem parenListLoop_stuck (h : Element att element) (items : List α) :
    Stuck .incomplete (iterate .unexpectedEof (parenListStep element expected) items) :=
  iterate_stuck (fun items => (parenListStep_lawful h items).bounded) (parenListStep_progress h)
    (parenListStep_stuck h) items

theorem parenListLoop_assembled (h : Element att element) (items : List α) :
    Assembled (kit att) lo next
      (iterate .unexpectedEof (parenListStep element expected) items) :=
  .loop (parenListStep_assembled h) (parenListStep_progress h)
    fun items => (parenListStep_stuck h items).patient

theorem parseParenList_assembled (h : Element att element) :
    Assembled (kit att) lo next (parseParenList element expected) := by
  refine consumeByte_bind_assembled (by decide) (tryConsumeByte_assembled (by decide)
      (fun b => ?_) ?_)
  · split
    · exact .pure _
    · exact parenListLoop_assembled h []
  · exact (parenListLoop_stuck h []).patient

theorem parenListStep_firm (h : Element att element) (items : List α) :
    Firm lo none (parenListStep element expected items) := by
  rw [parenListStep_eq]
  refine .bind ((h.assembled lo).lawful (kit_sound att)) (.inr fun _ => ?_) fun item =>
    .charge_bind (.peek_bind fun c => ?_)
  · exact (peek_stuck.hungry.bind _).charge_bind
  · split
    · exact .advance_bind (.pure _)
    split
    · exact .advance_bind (.pure _)
    · exact .fail _

theorem parseParenList_firm (h : Element att element) :
    Firm lo next (parseParenList element expected) := by
  refine consumeByte_bind_firm (.try_bind (fun b => ?_) ?_)
  · split
    · exact .pure _
    · exact iterate_firm (parenListStep_firm h)
        (fun items => (parenListStep_lawful h items).bounded) (parenListStep_progress h) []
  · exact (parenListLoop_stuck h []).hungry

end List

theorem parseFlagOrAtom_element : Element att parseFlagOrAtom where
  assembled _ := parseFlagOrAtom_assembled
  soft _ := parseFlagOrAtom_firm.soft
  stuck := parseFlagOrAtom_stuck

theorem parseParenAtomList_assembled : Assembled (kit att) lo next parseParenAtomList :=
  parseParenList_assembled parseFlagOrAtom_element

theorem parseParenAtomList_firm : Firm lo next parseParenAtomList :=
  parseParenList_firm (parseFlagOrAtom_element : Element false _)

/-! ### Balanced parentheses -/

theorem balancedStep_assembled (depth : ℕ) :
    Assembled (kit att) lo none (balancedStep depth) := by
  rw [balancedStep]
  split
  · exact .pure _
  refine .peek fun c => ?_
  split
  next hc =>
    refine advance_assembled hc (by decide) ?_
    split
    · exact .pure _
    · exact .fail nofun
  split
  next hc => exact advance_assembled hc (by decide) (.pure _)
  split
  · exact .bind parseQuoted_assembled (fun _ => .pure _) (.inl parseQuoted_firm)
  split
  · exact .bind parseLiteral_assembled (fun _ => .pure _) (.inl parseLiteral_firm)
  split
  · exact .fail nofun
  next hcr => exact .advance (fun h => hcr (.inl h)) (.pure _)

theorem balancedStep_bounded (depth : ℕ) : Bounded lo none (balancedStep depth) :=
  ((@balancedStep_assembled lo false depth).lawful (kit_sound false)).bounded

theorem balancedStep_patient (depth : ℕ) : Patient .incomplete (balancedStep depth) := by
  rw [balancedStep]
  split
  · exact .pure _
  · exact (peek_stuck.bind _).patient

theorem balancedStep_firm (depth : ℕ) : Firm lo none (balancedStep depth) := by
  rw [balancedStep]
  split
  · exact .pure _
  refine .peek_bind fun c => ?_
  split
  · refine .advance_bind ?_
    split
    · exact .pure _
    · exact .fail _
  split
  · exact .advance_bind (.pure _)
  split
  · exact .bind parseQuoted_lawful (.inl parseQuoted_firm) fun _ => .pure _
  split
  · exact .bind parseLiteral_lawful (.inl parseLiteral_firm) fun _ => .pure _
  split
  · exact .fail _
  · exact .advance_bind (.pure _)

theorem balancedStep_progress : Progress lo balancedStep := by
  intro depth
  rw [balancedStep]
  split
  · exact .done _
  refine .peek_bind fun c => ?_
  split
  · refine .advance_bind ?_
    split
    · exact .pure _
    · exact .fail _
  split
  · exact .advance_bind (.pure _)
  split
  · exact .bind_left parseQuoted_lawful.bounded parseQuoted_consumes fun _ => .pure _
  split
  · exact .bind_left parseLiteral_lawful.bounded parseLiteral_consumes fun _ => .pure _
  split
  · exact .fail _
  · exact .advance_bind (.pure _)

theorem parseBalancedParens_assembled : Assembled (kit att) lo next parseBalancedParens := by
  refine .position fun start => consumeByte_bind_assembled (by decide) ?_
  refine .bind (.loop balancedStep_assembled balancedStep_progress balancedStep_patient)
    (fun _ => .slice fun _ => .pure _) (.inr fun _ => ?_)
  exact (Still.slice_bind fun _ => .pure _).patient

theorem parseBalancedParens_firm : Firm lo next parseBalancedParens := by
  refine .position_bind fun start => consumeByte_bind_firm ?_
  have hloop : Lawful .incomplete start none (iterate .unexpectedEof balancedStep 1) :=
    .iterate (fun depth => (@balancedStep_assembled start false depth).lawful (kit_sound false))
      balancedStep_progress balancedStep_patient 1
  refine .bind hloop (.inl ?_) fun _ => .slice_bind fun _ => .pure _
  exact iterate_firm balancedStep_firm balancedStep_bounded balancedStep_progress 1

/-! ### Response codes and text -/

theorem capabilityStep_eq (caps : List Str) : capabilityStep caps = (do
    if ← tryConsumeByte SP then do
      let cap ← parseAtom
      charge chargeItem
      pure (.again (caps ++ [cap]))
    else pure (.done caps)) := by
  rw [capabilityStep]
  simp only [pushItem_bind]

theorem capabilityStep_assembled (caps : List Str) :
    Assembled (kit att) lo none (capabilityStep caps) := by
  rw [capabilityStep_eq]
  refine tryConsumeByte_assembled (by decide) (fun b => ?_) (.pure _)
  split
  · exact .item parseAtom_assembled parseAtom_firm.soft (fun _ => .pure _) fun _ => .pure _
  · exact .pure _

theorem capabilityStep_progress : Progress lo capabilityStep := by
  intro caps
  refine .try_bind ?_ (.done _)
  rw [if_pos rfl]
  have hatom : Lawful .incomplete lo none parseAtom :=
    (@parseAtom_assembled lo none false).lawful (kit_sound false)
  refine .bind hatom.bounded fun cap => ?_
  rw [pushItem_bind]
  exact .bind (charge_bounded _) fun _ => .pure _

theorem parseCapabilities_assembled : Assembled (kit att) lo next parseCapabilities :=
  .loop capabilityStep_assembled capabilityStep_progress fun _ => .try_bind (.pure _)

/-- The argument of an attribute or a code: SP, then a value. -/
theorem spaced_assembled {p : ParserM α} (hp : Assembled (kit att) lo none p) (g : α → β) :
    Assembled (kit att) lo next (consumeSp >>= fun _ => p >>= fun a => pure (g a)) :=
  consumeByte_bind_assembled (by decide) (.bind hp (fun _ => .pure _) (.inr fun _ => .pure _))

theorem respTextCodeArgs_assembled (atom : Str) :
    Assembled (kit att) lo next (respTextCodeArgs atom) := by
  rw [respTextCodeArgs]
  refine .ite (.pure _) (.ite (.pure _) (.ite (.pure _) (.ite (.pure _) (.ite (.pure _) ?_))))
  refine .ite (spaced_assembled parseNumber_assembled _) ?_
  refine .ite (spaced_assembled parseNumber_assembled _) ?_
  refine .ite (spaced_assembled parseNumber_assembled _) ?_
  refine .ite (.bind parseCapabilities_assembled (fun _ => .pure _) (.inr fun _ => .pure _)) ?_
  refine .ite (spaced_assembled parseParenAtomList_assembled _) (.ite ?_ ?_)
  · refine tryConsumeByte_assembled (by decide) (fun b => .ite ?_ (.pure _)) (.pure _)
    exact .bind parseParenAtomList_assembled (fun _ => .pure _) (.inr fun _ => .pure _)
  · refine tryConsumeByte_assembled (by decide) (fun b => .ite ?_ (.pure _)) (.pure _)
    exact .bind (readUntilByte_assembled _) (fun _ => .pure _) (.inr fun _ => .pure _)

theorem parseRespTextCode_assembled : Assembled (kit att) lo next parseRespTextCode :=
  .bind parseCodeAtom_assembled respTextCodeArgs_assembled (.inl parseCodeAtom_firm)

theorem parseRespTextPrefix_assembled : Assembled (kit att) lo next parseRespTextPrefix := by
  refine tryConsumeByte_assembled (by decide) (fun b => ?_) (.pure _)
  split
  · refine .bind parseRespTextCode_assembled (fun code => ?_)
      (.inr fun _ => ((consumeByte_stuck _).bind _).patient)
    refine consumeByte_bind_assembled (by decide) ?_
    exact tryConsumeByte_assembled (by decide) (fun _ => .pure _) (.pure _)
  · exact .pure _

theorem parseRespText_assembled : Assembled (kit att) lo next parseRespText := by
  refine .bind parseRespTextPrefix_assembled (fun code => ?_)
    (.inr fun _ => (parseText_stuck.bind _).patient)
  exact .bind parseText_assembled (fun _ => .pure _) (.inr fun _ => .pure _)

theorem parseRespTextAfterKeyword_assembled :
    Assembled (kit att) lo next parseRespTextAfterKeyword := by
  refine tryConsumeByte_assembled (by decide) (fun b => ?_) (.pure _)
  split
  · exact parseRespText_assembled
  · exact .pure _

/-! ### FETCH attributes -/

theorem parseOrigin_assembled : Assembled (kit att) lo next parseOrigin := by
  refine tryConsumeByte_assembled (by decide) (fun b => .ite ?_ (.pure _)) (.pure _)
  refine .bind parseNumber_assembled (fun n => ?_)
    (.inr fun _ => ((consumeByte_stuck _).bind _).patient)
  exact consumeByte_bind_assembled (by decide) (.pure _)

theorem parseBodySection_assembled : Assembled (kit att) lo next parseBodySection := by
  refine .bind (readUntilByte_assembled _) (fun sect => ?_)
    (.inr fun _ => ((consumeByte_stuck _).bind _).patient)
  refine consumeByte_bind_assembled (by decide) ?_
  refine .bind parseOrigin_assembled (fun origin => ?_)
    (.inr fun _ => ((consumeByte_stuck _).bind _).patient)
  exact spaced_assembled parseNstringBytesOptional_assembled _

theorem spaced_soft {p : ParserM α} (hp : Soft .incomplete lo none p) (g : α → β) :
    Soft .incomplete lo next (consumeSp >>= fun _ => p >>= fun a => pure (g a)) :=
  consumeByte_bind_soft (hp.still fun _ => .pure _)

theorem parseBodySection_soft : Soft .incomplete lo next parseBodySection := by
  refine .bind ((@readUntilByte_assembled lo next false _).lawful (kit_sound false))
    (.inr fun _ => (consumeByte_stuck _).hungry.bind _) fun sect => ?_
  refine consumeByte_bind_soft ?_
  refine .bind ((@parseOrigin_assembled lo none false).lawful (kit_sound false))
    (.inr fun _ => (consumeByte_stuck _).hungry.bind _) fun origin => ?_
  exact spaced_soft parseNstringBytesOptional_soft _

theorem fetchAttValue_assembled (name : Str) :
    Assembled (kit att) lo next (fetchAttValue name) := by
  rw [fetchAttValue]
  refine .ite (spaced_assembled parseNumber_assembled _) ?_
  refine .ite (spaced_assembled parseParenAtomList_assembled _) ?_
  refine .ite (spaced_assembled parseQuoted_assembled _) ?_
  refine .ite (spaced_assembled parseNumber_assembled _) ?_
  refine .ite (spaced_assembled parseNstringBytes_assembled _) ?_
  refine .ite (spaced_assembled parseNstringBytes_assembled _) ?_
  refine .ite (spaced_assembled parseNstringBytes_assembled _) ?_
  refine .ite (spaced_assembled parseBalancedParens_assembled _) ?_
  refine .ite (spaced_assembled parseBalancedParens_assembled _) (.ite ?_ (.fail nofun))
  refine tryConsumeByte_assembled (by decide) (fun b => ?_) ((consumeByte_stuck _).bind _).patient
  exact .ite parseBodySection_assembled (spaced_assembled parseBalancedParens_assembled _)

theorem fetchAttValue_soft (name : Str) : Soft .incomplete lo next (fetchAttValue name) := by
  rw [fetchAttValue]
  refine .ite (spaced_soft parseNumber_soft _) ?_
  refine .ite (spaced_soft parseParenAtomList_firm.soft _) ?_
  refine .ite (spaced_soft parseQuoted_firm.soft _) ?_
  refine .ite (spaced_soft parseNumber_soft _) ?_
  refine .ite (spaced_soft parseNstringBytes_soft _) ?_
  refine .ite (spaced_soft parseNstringBytes_soft _) ?_
  refine .ite (spaced_soft parseNstringBytes_soft _) ?_
  refine .ite (spaced_soft parseBalancedParens_firm.soft _) ?_
  refine .ite (spaced_soft parseBalancedParens_firm.soft _) (.ite ?_ (Firm.fail _).soft)
  refine .try_bind (fun b => ?_) ((consumeByte_stuck _).bind _).hungry
  exact .ite parseBodySection_soft (spaced_soft parseBalancedParens_firm.soft _)

/-- No keyword holds a CR. -/
theorem eqCi_of_CR_mem {name : Str} (h : CR ∈ name.bytes) {keyword : String}
    (hk : ∀ b ∈ ascii keyword, byteEqCi CR b = false) : name.eqCi keyword = false := by
  rw [Str.eqCi, eqIgnoreAsciiCase]
  by_cases hlen : name.bytes.length = (ascii keyword).length
  · have hno : agreesCi name.bytes (ascii keyword) = false :=
      agreesCi_eq_false h (Nat.le_of_eq hlen) hk
    rw [agreesCi] at hno
    rw [hno, Bool.and_false]
  · rw [beq_eq_false_iff_ne.mpr hlen, Bool.false_and]

theorem fetchAttValue_of_CR_mem {name : Str} (h : CR ∈ name.bytes) :
    fetchAttValue name = fail (.malformed "unknown FETCH attribute") := by
  rw [fetchAttValue, eqCi_of_CR_mem h (by decide +kernel), eqCi_of_CR_mem h (by decide +kernel),
    eqCi_of_CR_mem h (by decide +kernel), eqCi_of_CR_mem h (by decide +kernel),
    eqCi_of_CR_mem h (by decide +kernel), eqCi_of_CR_mem h (by decide +kernel),
    eqCi_of_CR_mem h (by decide +kernel), eqCi_of_CR_mem h (by decide +kernel),
    eqCi_of_CR_mem h (by decide +kernel), eqCi_of_CR_mem h (by decide +kernel)]
  rfl

theorem utf8Verdict_bytes {bs : Bytes} {text : Str} (h : utf8Verdict bs = .ok text) :
    text.bytes = bs := by
  rw [utf8Verdict, fromUtf8] at h
  split at h
  next hu =>
    split at hu <;> cases hu
    cases h
    rfl
  · cases h

theorem wordVerdict_bytes {what : String} {bs : Bytes} {next : Option UInt8} {name : Str}
    (h : wordVerdict what bs next = .ok name) : name.bytes = bs := by
  cases next with
  | none => cases h
  | some c =>
    rw [wordVerdict] at h
    split at h
    · cases h
    · exact utf8Verdict_bytes h

theorem parseFetchAttName_bounded : Bounded lo next parseFetchAttName := by
  rw [parseFetchAttName_eq]
  exact fun s v t hs h => tokenFrom_bounded _ _ hs.mark h

/-- Refusing names that hold a CR on the spot changes nothing. -/
theorem parseOneFetchAtt_eq : parseOneFetchAtt = checkedAttName >>= fetchAttValue := by
  funext s
  rw [parseOneFetchAtt, parseFetchAttName_eq, checkedAttName, bind_assoc, bind_assoc,
    run_position_bind, run_position_bind, run_bind, run_bind, tokenFrom_eq, tokenFrom_eq,
    attNameVerdict]
  cases hw : wordVerdict "expected FETCH att name"
      ((s.input.take (scanStop isAttNameChar s)).drop s.pos)
      s.input[scanStop isAttNameChar s]? with
  | error e => rfl
  | ok name =>
    by_cases hcr : CR ∈ (s.input.take (scanStop isAttNameChar s)).drop s.pos
    · simp only [if_pos hcr, settle]
      rw [fetchAttValue_of_CR_mem (by rwa [wordVerdict_bytes hw])]
      rfl
    · simp only [if_neg hcr, settle]

theorem parseOneFetchAtt_element : Element true parseOneFetchAtt where
  assembled lo := by
    rw [parseOneFetchAtt_eq]
    exact .bind (.prim (.attName lo)) fetchAttValue_assembled (.inl checkedAttName_firm)
  soft lo := by
    rw [parseOneFetchAtt_eq]
    exact .bind checkedAttName_lawful (.inl checkedAttName_firm) fetchAttValue_soft
  stuck := parseFetchAttName_stuck.bind _

theorem parseFetchMsgAtt_assembled : Assembled (kit true) lo next parseFetchMsgAtt :=
  parseParenList_assembled parseOneFetchAtt_element

/-! ### Data responses -/

theorem parseStatusItem_element : Element att parseStatusItem where
  assembled _ := .bind parseAtom_assembled
    (fun key => spaced_assembled parseNumber_assembled (statusItem key)) (.inl parseAtom_firm)
  soft lo := .bind ((@parseAtom_assembled lo none false).lawful (kit_sound false))
    (.inl parseAtom_firm) fun key => spaced_soft parseNumber_soft (statusItem key)
  stuck := parseAtom_stuck.bind _

theorem parseStatusItems_assembled : Assembled (kit att) lo next parseStatusItems :=
  parseParenList_assembled parseStatusItem_element

theorem parseListLsubBody_assembled : Assembled (kit att) lo next parseListLsubBody := by
  refine .bind parseParenAtomList_assembled (fun flags => ?_) (.inl parseParenAtomList_firm)
  refine consumeByte_bind_assembled (by decide) ?_
  refine .bind parseNstring_assembled (fun delimiter => ?_)
    (.inr fun _ => ((consumeByte_stuck _).bind _).patient)
  exact spaced_assembled parseAstring_assembled _

theorem searchStep_assembled (ids : List UInt32) :
    Assembled (kit att) lo none (searchStep ids) := by
  refine tryConsumeByte_assembled (by decide) (fun b => .ite ?_ (.pure _)) (.pure _)
  exact .bind parseNumber_assembled (fun _ => .pure _) (.inr fun _ => .pure _)

theorem searchStep_progress : Progress lo searchStep := by
  intro ids
  refine .try_bind ?_ (.done _)
  rw [if_pos rfl]
  exact .bind parseNumber_lawful.bounded fun _ => .pure _

theorem parseSearchIds_assembled : Assembled (kit att) lo next parseSearchIds :=
  .loop searchStep_assembled searchStep_progress fun _ => .try_bind (.pure _)

/-- Every recognised data response is assembled. -/
theorem namedData_assembled {name : Str} {body : ParserM DataResponse}
    (h : namedData name = some body) : Assembled (kit att) lo next body := by
  have hlist : ∀ g : List Str × Option Str × Str → DataResponse, Assembled (kit att) lo next
      (consumeSp >>= fun _ => parseListLsubBody >>= fun r => pure (g r)) := fun g =>
    spaced_assembled parseListLsubBody_assembled g
  rw [namedData] at h
  split at h
  · cases h
    exact .bind parseCapabilities_assembled (fun _ => .pure _) (.inr fun _ => .pure _)
  split at h
  · cases h
    exact hlist _
  split at h
  · cases h
    exact hlist _
  split at h
  · cases h
    refine consumeByte_bind_assembled (by decide) ?_
    refine .bind parseAstring_assembled (fun mailbox => ?_)
      (.inr fun _ => ((consumeByte_stuck _).bind _).patient)
    exact spaced_assembled parseStatusItems_assembled _
  split at h
  · cases h
    exact .bind parseSearchIds_assembled (fun _ => .pure _) (.inr fun _ => .pure _)
  split at h
  · cases h
    exact spaced_assembled parseParenAtomList_assembled _
  · cases h

end Parser

end ImapRs
