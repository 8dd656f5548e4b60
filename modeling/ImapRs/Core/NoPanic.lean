import ImapRs.Core.Checked
import ImapRs.Core.Framing

/-!
# The parser cannot panic or loop

The checked parser of `Checked` computes what the parser of `Parser` computes, on every input that
fits into memory. It does not fault, then: no sum overflows and no difference is negative, every
slice has its bounds in order, the cursor only moves forward and stays inside the buffer, and every
round of every loop moves it on or leaves the loop.

## Main results

* `checkedParseResponse_eq` — the checked parser is the parser
* `parseResponse_no_panic` — it does not fault, and what it leaves is strictly shorter
-/

namespace ImapRs

open Incremental Cursor

namespace Checked

variable {usizeMax lo : ℕ} {next : Option UInt8} {α β : Type}

/-- On every buffer that fits into memory, the checked reader is the plain one. -/
abbrev Agrees (usizeMax lo : ℕ) (next : Option UInt8) (c : CheckedM α) (p : ParserM α) : Prop :=
  Refines usizeMax lo next c p

/-! ### The cursor -/

theorem isEof_agrees : Agrees usizeMax lo next isEof Parser.isEof := fun _ _ _ => rfl

theorem toStr_agrees (bs : Bytes) : Agrees usizeMax lo next (toStr bs) (Parser.toStr bs) := by
  rw [toStr, Parser.toStr]
  cases fromUtf8 bs with
  | none => exact .fail _
  | some s => exact .pure s

theorem scannedText_agrees :
    Agrees usizeMax lo none (scannedText lo) (Parser.scannedText lo) :=
  .bind isEof_agrees Parser.isEof_bounded fun _ => .ite (.fail _) (.slice_bind toStr_agrees)

theorem advance_agrees {d : UInt8} :
    Agrees usizeMax lo (some d) (moveBy usizeMax 1) (advance : ParserM Unit) :=
  fun _ hs hmax => Refines.moveBy_run hs.pos_lt hmax

theorem consumeByte_agrees (b : UInt8) :
    Agrees usizeMax lo next (consumeByte usizeMax b) (Parser.consumeByte b) :=
  .peek_bind fun _ => .ite advance_agrees (.here_bind fun _ => .fail _)

theorem tryConsumeByte_agrees (b : UInt8) :
    Agrees usizeMax lo next (tryConsumeByte usizeMax b) (Parser.tryConsumeByte b) := by
  intro s hs hmax
  have hget_bind : ∀ f : Option UInt8 → CheckedM Bool,
      (position >>= fun pos => get pos >>= f) s = f s.input[s.pos]? s := fun _ => rfl
  rw [tryConsumeByte, hget_bind, show Parser.tryConsumeByte b s = tryConsume b s from rfl,
    tryConsume]
  cases hget : s.input[s.pos]? with
  | none => rfl
  | some c =>
    by_cases hc : c = b
    · simp only [if_pos hc]
      rw [run_bind, Refines.moveBy_run (hs.see hget).pos_lt hmax]
      rfl
    · simp only [if_neg hc]
      rfl

theorem consumeByte_bind_agrees {b : UInt8} {c : Unit → CheckedM β} {p : Unit → ParserM β}
    (h : ∀ a, Agrees usizeMax lo none (c a) (p a)) :
    Agrees usizeMax lo next (consumeByte usizeMax b >>= c) (Parser.consumeByte b >>= p) :=
  .bind (consumeByte_agrees b) (Parser.consumeByte_bounded b) h

theorem consumeSp_bind_agrees {c : Unit → CheckedM β} {p : Unit → ParserM β}
    (h : ∀ a, Agrees usizeMax lo none (c a) (p a)) :
    Agrees usizeMax lo next (consumeSp usizeMax >>= c) (Parser.consumeSp >>= p) :=
  consumeByte_bind_agrees h

theorem tryConsumeByte_bind_agrees {b : UInt8} {c : Bool → CheckedM β} {p : Bool → ParserM β}
    (h : ∀ a, Agrees usizeMax lo none (c a) (p a)) :
    Agrees usizeMax lo next (tryConsumeByte usizeMax b >>= c) (Parser.tryConsumeByte b >>= p) :=
  .bind (tryConsumeByte_agrees b) (.tryConsume b) h

theorem matchesCi_run {s : Parser} (hmax : s.input.length ≤ usizeMax) (kw : Bytes) :
    matchesCi usizeMax kw s = .ok (Parser.matchesCi s kw, s) := by
  rw [matchesCi, run_position_bind, checkedAdd, Parser.matchesCi]
  by_cases hfits : s.pos + kw.length ≤ s.input.length
  · rw [if_pos (Nat.le_trans hfits hmax), if_pos hfits]
    change (if s.pos + kw.length ≤ s.input.length then _ else _ : CheckedM Bool) s = _
    rw [if_pos hfits, run_bind, slice, sliceOf, if_pos ⟨Nat.le_add_right _ _, hfits⟩, run_pure,
      List.drop_take, Nat.add_sub_cancel_left]
    rfl
  · rw [if_neg hfits]
    by_cases hword : s.pos + kw.length ≤ usizeMax
    · rw [if_pos hword]
      change (if s.pos + kw.length ≤ s.input.length then _ else _ : CheckedM Bool) s = _
      rw [if_neg hfits, run_pure]
    · rw [if_neg hword]
      rfl

theorem tryConsumeKeywordCi_agrees (kw : Bytes) : Agrees usizeMax lo next
    (tryConsumeKeywordCi usizeMax kw) (Parser.tryConsumeKeywordCi kw) := by
  intro s hs hmax
  rw [tryConsumeKeywordCi, run_bind, matchesCi_run hmax, Parser.tryConsumeKeywordCi]
  dsimp only
  cases hmatch : Parser.matchesCi s kw with
  | false => rfl
  | true =>
    have hfits : s.pos + kw.length ≤ s.input.length := by
      by_contra hlong
      rw [Parser.matchesCi, if_neg hlong] at hmatch
      cases hmatch
    have hmove : (moveBy usizeMax kw.length : Reader UInt8 Budget (Stop ParseError) Unit) s = _ :=
      Refines.moveBy_run hfits hmax
    simp only [Bool.not_true, Bool.false_eq_true, if_false]
    rw [run_position_bind, run_bind, sum, if_pos (Nat.le_trans hfits hmax), run_pure]
    change (if _ then _ else _ : CheckedM Bool) s = _
    cases hget : s.input[s.pos + kw.length]? with
    | none =>
      change (moveBy usizeMax kw.length >>= fun _ => pure true : CheckedM Bool) s = _
      rw [run_bind, hmove]
      rfl
    | some b =>
      cases hb : Parser.isBoundary b with
      | false => simp only [hb, Bool.not_false, if_true, run_pure]; rfl
      | true =>
        simp only [hb, Bool.not_true, Bool.false_eq_true, if_false]
        rw [run_bind, hmove]
        rfl

theorem consumeCrlf_agrees :
    Agrees usizeMax lo next (consumeCrlf usizeMax) Parser.consumeCrlf := by
  refine .peek_bind fun c => .ite (.fail _) fun s hs hmax => ?_
  have hrun : peekAt usizeMax 1 s = .ok (s.input[s.pos + 1]?, s) := by
    rw [peekAt, run_position_bind, checkedAdd, if_pos (Nat.le_trans hs.pos_lt hmax)]
    rfl
  rw [run_bind, hrun]
  cases hget : s.input[s.pos + 1]? with
  | none => rfl
  | some b =>
    by_cases hb : b = LF
    · simp only [if_pos hb]
      rw [Refines.moveBy_run (List.getElem?_eq_some_iff.mp hget).1 hmax]
      rfl
    · simp only [if_neg hb]
      rfl

theorem remaining_run {s : Parser} (hs : s.Valid) : remaining s = .ok (s.rest, s) := by
  have hrun : remaining s = sliceOf s.input s.pos s.input.length s := rfl
  rw [hrun, sliceOf, if_pos ⟨hs, Nat.le_refl _⟩, List.take_length]
  rfl

theorem expectNil_agrees :
    Agrees usizeMax lo next (expectNil usizeMax) Parser.expectNil := by
  refine .bind (tryConsumeKeywordCi_agrees _) (Parser.tryConsumeKeywordCi_bounded _) fun b =>
    .ite (.pure _) fun s hs hmax => ?_
  rw [run_bind, remaining_run hs.valid]
  dsimp only
  split <;> rfl

/-! ### Scans -/

/-- A scan with a verdict on the byte that stops it. -/
def plainScan (p : UInt8 → Bool) (verdict : UInt8 → ParserM Unit) : ParserM Unit := do
  Incremental.skipWhile p
  fun s =>
    match s.input[s.pos]? with
    | some c => verdict c s
    | none => .ok ((), s)

theorem skipWhile_step {p : UInt8 → Bool} {s : Parser} {b : UInt8}
    (hb : s.input[s.pos]? = some b) : (Incremental.skipWhile p : ParserM Unit) s
      = if p b then Incremental.skipWhile p { s with pos := s.pos + 1 } else .ok ((), s) := by
  have hlt := (List.getElem?_eq_some_iff.mp hb).1
  have hrest : s.rest = b :: ({ s with pos := s.pos + 1 } : Parser).rest := by
    rw [Cursor.rest, Cursor.rest, List.drop_eq_getElem_cons hlt]
    rw [List.getElem?_eq_getElem hlt] at hb
    rw [Option.some.inj hb]
  rw [skipWhile_eq, skipWhile_eq, hrest, List.takeWhile_cons]
  split
  · rw [List.length_cons, Nat.add_right_comm]
    rfl
  · rfl

theorem plainScan_of_none {p : UInt8 → Bool} {v : UInt8 → ParserM Unit} {s : Parser}
    (hs : s.input[s.pos]? = none) : plainScan p v s = .ok ((), s) := by
  have hrest := rest_eq_nil_of_atEnd (List.getElem?_eq_none_iff.mp hs)
  rw [plainScan, run_bind_ok (skipWhile_eq p s), hrest]
  simp [hs]

theorem plainScan_of_some {p : UInt8 → Bool} {v : UInt8 → ParserM Unit} {s : Parser} {b : UInt8}
    (hb : s.input[s.pos]? = some b) : plainScan p v s
      = if p b then plainScan p v { s with pos := s.pos + 1 } else v b s := by
  rw [plainScan, run_bind, run_bind, skipWhile_step hb]
  by_cases hp : p b
  · rw [if_pos hp, if_pos hp]
  · rw [if_neg hp, if_neg hp]
    simp only [hb]

/-- The scan stops where `skipWhile` stops, with the verdict on the byte it stopped at. -/
theorem scan_run {p : UInt8 → Bool} {c : UInt8 → CheckedM Unit} {v : UInt8 → ParserM Unit}
    (h : ∀ b, Agrees usizeMax lo (some b) (c b) (v b)) :
    ∀ (fuel : ℕ) (s : Parser), s.Meets lo none → s.input.length ≤ usizeMax →
      s.input.length - s.pos ≤ fuel →
      loopN (scanStep usizeMax p c) (fuel + 1) () s = Stop.lift (plainScan p v s) := by
  intro fuel
  induction fuel with
  | zero =>
    intro s hs hmax hfuel
    have hnone : s.input[s.pos]? = none := List.getElem?_eq_none (by omega)
    have hstep : scanStep usizeMax p c () s = .ok (.done (), s) := by
      rw [scanStep, run_position_bind, run_bind,
        show Incremental.get s.pos s = .ok (s.input[s.pos]?, s) from rfl, hnone]
      rfl
    rw [loopN, run_position_bind, run_bind, hstep, plainScan_of_none hnone]
    rfl
  | succ fuel ih =>
    intro s hs hmax hfuel
    rw [loopN, run_position_bind, run_bind]
    have hround : scanStep usizeMax p c () s = (match s.input[s.pos]? with
      | some b => if p b then do
          moveBy usizeMax 1
          pure (.again ())
        else do
          c b
          pure (.done ())
      | none => pure (.done ()) : CheckedM (Incremental.Flow Unit Unit)) s := rfl
    rw [hround]
    cases hget : s.input[s.pos]? with
    | none =>
      rw [plainScan_of_none hget]
      rfl
    | some b =>
      rw [plainScan_of_some hget]
      have hsee := hs.see hget
      by_cases hb : p b
      · simp only [if_pos hb]
        rw [run_bind, Refines.moveBy_run hsee.pos_lt hmax]
        have hgo := ih { s with pos := s.pos + 1 } (hs.moves hsee.moves_succ) hmax
          (show s.input.length - (s.pos + 1) ≤ fuel by omega)
        change (if s.pos < s.pos + 1 then loopN (scanStep usizeMax p c) (fuel + 1) ()
          else fail (.fault .spin) : CheckedM Unit) { s with pos := s.pos + 1 } = _
        rw [if_pos (Nat.lt_succ_self _)]
        exact hgo
      · simp only [if_neg hb]
        rw [run_bind, h b hsee hmax]
        cases v b s <;> rfl

theorem scan_agrees {p : UInt8 → Bool} {c : UInt8 → CheckedM Unit} {v : UInt8 → ParserM Unit}
    (h : ∀ b, Agrees usizeMax lo (some b) (c b) (v b)) :
    Agrees usizeMax lo next (loop (scanStep usizeMax p c) ()) (plainScan p v) :=
  fun s hs hmax => scan_run h _ s hs.forget hmax (Nat.le_refl _)

theorem skipWhile_agrees (p : UInt8 → Bool) :
    Agrees usizeMax lo next (skipWhile usizeMax p) (Incremental.skipWhile p) := by
  have hplain : plainScan p (fun _ => pure ()) = (Incremental.skipWhile p : ParserM Unit) := by
    funext s
    rw [plainScan, run_bind_ok (skipWhile_eq p s), skipWhile_eq]
    split <;> rfl
  rw [← hplain]
  exact scan_agrees fun _ => .pure _

theorem scanUntil_agrees (stop : UInt8 → Bool) (err : ParseError) :
    Agrees usizeMax lo next (scanUntil usizeMax stop err) (Parser.scanUntil stop err) := by
  have hplain : plainScan (fun c => !(stop c || c == CR || c == LF))
      (fun c => if stop c then pure () else fail err) = Parser.scanUntil stop err := by
    funext s
    rw [plainScan, Parser.scanUntil, run_bind_ok (skipWhile_eq _ s),
      run_bind_ok (skipWhile_eq _ s)]
    dsimp only
    cases s.input[s.pos + (s.rest.takeWhile fun c => !(stop c || c == CR || c == LF)).length]? with
    | none => rfl
    | some c => by_cases hstop : stop c <;> simp only [hstop] <;> rfl
  rw [← hplain]
  exact scan_agrees fun _ => .ite (.pure _) (.fail _)

/-! ### Tokens -/

theorem parseNumber_agrees :
    Agrees usizeMax lo next (parseNumber usizeMax) Parser.parseNumber := by
  refine .position_bind fun start => .bind (skipWhile_agrees _) (Parser.skipWhile_bounded _)
    fun _ => .here_bind fun here => .ite ?_ (.slice_bind fun bs => ?_)
  · exact .bind isEof_agrees Parser.isEof_bounded fun _ => .ite (.fail _) (.fail _)
  · cases fromUtf8 bs with
    | none => exact .fail _
    | some s =>
      dsimp only
      cases parseU32 s.bytes with
      | none => exact .fail _
      | some n => exact .pure n

/-- The scan of atoms, tags and flags. -/
theorem word_agrees (p : UInt8 → Bool) (what : String) : Agrees usizeMax lo none
    (word usizeMax p what lo) (do
      Incremental.skipWhile p
      if lo = (← position) then
        if ← Parser.isEof then fail .incomplete else fail (.malformed what)
      else Parser.scannedText lo) := by
  refine .bind (skipWhile_agrees _) (Parser.skipWhile_bounded _) fun _ => .here_bind fun here =>
    .ite ?_ scannedText_agrees
  exact .bind isEof_agrees Parser.isEof_bounded fun _ => .ite (.fail _) (.fail _)

theorem parseAtom_agrees : Agrees usizeMax lo next (parseAtom usizeMax) Parser.parseAtom :=
  .position_bind fun _ => .weaken (word_agrees _ _)

theorem parseTag_agrees : Agrees usizeMax lo next (parseTag usizeMax) Parser.parseTag :=
  .position_bind fun _ => .weaken (word_agrees _ _)

theorem quotedStep_agrees (a : Unit) :
    Agrees usizeMax lo none (quotedStep usizeMax lo a) (Parser.quotedStep lo a) := by
  refine .peek_bind fun c => .ite ?_ (.ite ?_ (.ite (.fail _) (.ite (.fail _) ?_)))
  · refine .slice_bind fun bs => ?_
    rw [toStr, Parser.toStr]
    cases fromUtf8 bs with
    | none => exact fun _ _ _ => rfl
    | some s =>
      simp only [pure_bind]
      exact .advance_bind fun _ => .pure _
  · exact .advance_bind fun _ => .peek_bind fun _ =>
      .ite (.advance_bind fun _ => .pure _) (.fail _)
  · exact .advance_bind fun _ => .pure _

theorem parseQuoted_agrees : Agrees usizeMax lo next (parseQuoted usizeMax) Parser.parseQuoted :=
  consumeByte_bind_agrees fun _ => .position_bind fun start => .loop quotedStep_agrees
    (fun a => (Parser.quotedStep_lawful start a).bounded) (Parser.quotedStep_progress start) ()

theorem literalPayload_agrees (n : ℕ) : Agrees usizeMax lo next
    (literalPayload usizeMax lo n) (Parser.literalPayload lo n) := by
  intro s hs hmax
  rw [literalPayload, run_position_bind, checkedAdd, Parser.literalPayload]
  by_cases hlong : s.input.length < s.pos + n
  · rw [if_pos hlong]
    by_cases hword : s.pos + n ≤ usizeMax
    · rw [if_pos hword]
      change (if s.input.length < s.pos + n then _ else _ : CheckedM Slice) s = _
      rw [if_pos hlong]
      rfl
    · rw [if_neg hword]
      rfl
  · have hfits : s.pos + n ≤ s.input.length := Nat.le_of_not_lt hlong
    rw [if_pos (Nat.le_trans hfits hmax), if_neg hlong]
    change (if s.input.length < s.pos + n then _ else _ : CheckedM Slice) s = _
    rw [if_neg hlong, run_bind, slice, sliceOf, if_pos ⟨Nat.le_add_right _ _, hfits⟩, run_pure]
    dsimp only
    rw [run_bind, moveTo, if_pos ⟨Nat.le_add_right _ _, hfits⟩, List.drop_take,
      Nat.add_sub_cancel_left]
    rfl

theorem parseLiteral_agrees :
    Agrees usizeMax lo next (parseLiteral usizeMax) Parser.parseLiteral :=
  .position_bind fun _ => consumeByte_bind_agrees fun _ =>
    .bind parseNumber_agrees Parser.parseNumber_lawful.bounded fun n =>
      consumeByte_bind_agrees fun _ => .bind consumeCrlf_agrees Parser.consumeCrlf_bounded fun _ =>
        .ite (.fail _) (literalPayload_agrees n.toNat)

theorem parseLiteral_bind_agrees {c : Slice → CheckedM β} {p : Slice → ParserM β}
    (h : ∀ a, Agrees usizeMax lo none (c a) (p a)) :
    Agrees usizeMax lo next (parseLiteral usizeMax >>= c) (Parser.parseLiteral >>= p) :=
  .bind parseLiteral_agrees Parser.parseLiteral_lawful.bounded h

theorem parseQuoted_bind_agrees {c : Str → CheckedM β} {p : Str → ParserM β}
    (h : ∀ a, Agrees usizeMax lo none (c a) (p a)) :
    Agrees usizeMax lo next (parseQuoted usizeMax >>= c) (Parser.parseQuoted >>= p) :=
  .bind parseQuoted_agrees Parser.parseQuoted_lawful.bounded h

theorem toStr_bind_agrees {bs : Bytes} {c : Str → CheckedM β} {p : Str → ParserM β}
    (h : ∀ a, Agrees usizeMax lo none (c a) (p a)) :
    Agrees usizeMax lo next (toStr bs >>= c) (Parser.toStr bs >>= p) :=
  .bind (toStr_agrees bs) (Parser.bounded_of_assembled (Parser.toStr_assembled bs)) h

theorem expectNil_bind_agrees {c : Unit → CheckedM β} {p : Unit → ParserM β}
    (h : ∀ a, Agrees usizeMax lo none (c a) (p a)) :
    Agrees usizeMax lo next (expectNil usizeMax >>= c) (Parser.expectNil >>= p) :=
  .bind expectNil_agrees Parser.expectNil_bounded h

theorem parseNumber_bind_agrees {c : UInt32 → CheckedM β} {p : UInt32 → ParserM β}
    (h : ∀ a, Agrees usizeMax lo none (c a) (p a)) :
    Agrees usizeMax lo next (parseNumber usizeMax >>= c) (Parser.parseNumber >>= p) :=
  .bind parseNumber_agrees Parser.parseNumber_lawful.bounded h

theorem parseAtom_bind_agrees {c : Str → CheckedM β} {p : Str → ParserM β}
    (h : ∀ a, Agrees usizeMax lo none (c a) (p a)) :
    Agrees usizeMax lo next (parseAtom usizeMax >>= c) (Parser.parseAtom >>= p) :=
  .bind parseAtom_agrees (Parser.bounded_of_assembled Parser.parseAtom_assembled) h

theorem parseAstring_agrees :
    Agrees usizeMax lo next (parseAstring usizeMax) Parser.parseAstring :=
  .peek_bind fun _ => .ite parseQuoted_agrees
    (.ite (parseLiteral_bind_agrees fun _ => toStr_agrees _) parseAtom_agrees)

theorem parseNstring_agrees :
    Agrees usizeMax lo next (parseNstring usizeMax) Parser.parseNstring :=
  .peek_bind fun _ => .ite (parseQuoted_bind_agrees fun _ => .pure _)
    (.ite (parseLiteral_bind_agrees fun _ => toStr_bind_agrees fun _ => .pure _)
      (expectNil_bind_agrees fun _ => .pure _))

theorem parseFlagOrAtom_agrees :
    Agrees usizeMax lo next (parseFlagOrAtom usizeMax) Parser.parseFlagOrAtom := by
  refine .position_bind fun start => .peek_bind fun c => .ite ?_ (.weaken (word_agrees _ _))
  exact .advance_bind fun _ => tryConsumeByte_bind_agrees fun _ =>
    .ite (.slice_bind toStr_agrees) (word_agrees _ _)

theorem pushItem_bind_agrees {items : List α} {item : α} {c : List α → CheckedM β}
    {p : List α → ParserM β} (h : ∀ a, Agrees usizeMax lo none (c a) (p a)) :
    Agrees usizeMax lo none (pushItem items item >>= c) (Parser.pushItem items item >>= p) := by
  refine .bind (fun s _ _ => ?_) (fun s v t hs hr => ?_) h
  · rw [pushItem, Parser.pushItem, run_bind, run_bind, charge, charge, chargeItem]
    cases Parser.chargeItem s.aux <;> rfl
  · exact ((charge_bounded _).bind fun _ => .pure _) hs hr

theorem parenListStep_agrees {c : CheckedM α} {p : ParserM α} (h : Agrees usizeMax lo none c p)
    (hb : Bounded lo none p) (expected : String) (items : List α) : Agrees usizeMax lo none
      (parenListStep usizeMax c expected items) (Parser.parenListStep p expected items) :=
  .bind h hb fun _ => pushItem_bind_agrees fun _ => .peek_bind fun _ =>
    .ite (.advance_bind fun _ => .pure _) (.ite (.advance_bind fun _ => .pure _) (.fail _))

theorem parseParenList_agrees {c : CheckedM α} {p : ParserM α} (h : Agrees usizeMax lo none c p)
    (hp : Parser.Element true p) (expected : String) : Agrees usizeMax lo next
      (parseParenList usizeMax c expected) (Parser.parseParenList p expected) :=
  consumeByte_bind_agrees fun _ => tryConsumeByte_bind_agrees fun _ => .ite (.pure _)
    (.loop (parenListStep_agrees h hp.bounded expected)
      (fun items => (Parser.parenListStep_lawful hp items).bounded)
      (Parser.parenListStep_progress hp) [])

theorem parseParenAtomList_agrees :
    Agrees usizeMax lo next (parseParenAtomList usizeMax) Parser.parseParenAtomList :=
  parseParenList_agrees parseFlagOrAtom_agrees Parser.parseFlagOrAtom_element _

theorem parseParenAtomList_bind_agrees {c : List Str → CheckedM β} {p : List Str → ParserM β}
    (h : ∀ a, Agrees usizeMax lo none (c a) (p a)) : Agrees usizeMax lo next
      (parseParenAtomList usizeMax >>= c) (Parser.parseParenAtomList >>= p) :=
  .bind parseParenAtomList_agrees
    (Parser.bounded_of_assembled Parser.parseParenAtomList_assembled) h

/-- The depth is at least one when it goes down, and at most `u32::MAX` when it goes up. -/
theorem balancedStep_agrees (depth : ℕ) :
    Agrees usizeMax lo none (balancedStep usizeMax depth) (Parser.balancedStep depth) := by
  rw [balancedStep, Parser.balancedStep]
  by_cases hdepth : depth = 0
  · rw [if_pos hdepth, if_pos hdepth]
    exact .pure _
  rw [if_neg hdepth, if_neg hdepth]
  refine .peek_bind fun c => .ite ?_ (.ite ?_ (.ite ?_ (.ite ?_ (.ite (.fail _) ?_))))
  · refine .advance_bind fun _ => ?_
    rw [checkedAdd]
    by_cases hfits : depth + 1 < 2 ^ 32
    · rw [if_pos (Nat.le_sub_one_of_lt hfits), if_pos hfits]
      exact .pure _
    · rw [if_neg fun h => hfits (Nat.lt_of_le_sub_one (by decide) h), if_neg hfits]
      exact .fail _
  · refine .advance_bind fun _ => ?_
    rw [diff, if_pos (Nat.one_le_iff_ne_zero.mpr hdepth), pure_bind]
    exact .pure _
  · exact parseQuoted_bind_agrees fun _ => .pure _
  · exact parseLiteral_bind_agrees fun _ => .pure _
  · exact .advance_bind fun _ => .pure _

theorem parseBalancedParens_agrees :
    Agrees usizeMax lo next (parseBalancedParens usizeMax) Parser.parseBalancedParens :=
  .position_bind fun _ => consumeByte_bind_agrees fun _ =>
    .bind (.loop balancedStep_agrees Parser.balancedStep_bounded Parser.balancedStep_progress 1)
      (iterate_bounded Parser.balancedStep_bounded Parser.balancedStep_progress 1) fun _ =>
        .slice_bind fun _ => .pure _

theorem parseText_agrees : Agrees usizeMax lo next (parseText usizeMax) Parser.parseText :=
  .position_bind fun _ => .bind (skipWhile_agrees _) (Parser.skipWhile_bounded _) fun _ =>
    scannedText_agrees

theorem scanUntil_bounded (stop : UInt8 → Bool) (err : ParseError) :
    Bounded lo next (Parser.scanUntil stop err) := by
  refine (Parser.skipWhile_bounded _).bind fun _ s v t hs h => ?_
  split at h
  · split at h <;> cases h
    exact .refl hs.valid
  · cases h
    exact .refl hs.valid

theorem readUntilByte_agrees (b : UInt8) :
    Agrees usizeMax lo next (readUntilByte usizeMax b) (Parser.readUntilByte b) :=
  .position_bind fun _ => .bind (scanUntil_agrees _ _) (scanUntil_bounded _ _) fun _ =>
    scannedText_agrees

theorem parseNstringBytes_agrees :
    Agrees usizeMax lo next (parseNstringBytes usizeMax) Parser.parseNstringBytes := by
  refine .peek_bind fun _ => .ite ?_ (.ite parseLiteral_agrees ?_)
  · exact .here_bind fun _ => parseQuoted_bind_agrees fun _ => .pure _
  · refine expectNil_bind_agrees fun _ s hs hmax => ?_
    have hnothing : (s.input.take s.pos).drop s.pos = [] :=
      List.drop_eq_nil_of_le (List.length_take_le _ _)
    rw [run_position_bind, run_bind, Refines.sliceToPos_run hs.mark, hnothing]
    rfl

theorem parseNstringBytesOptional_agrees : Agrees usizeMax lo next
    (parseNstringBytesOptional usizeMax) Parser.parseNstringBytesOptional := by
  refine .peek_bind fun _ => .ite ?_ (.ite (parseLiteral_bind_agrees fun _ => .pure _) ?_)
  · exact .here_bind fun _ => parseQuoted_bind_agrees fun _ => .pure _
  · exact expectNil_bind_agrees fun _ => .pure _

/-! ### Response codes and text -/

theorem capabilityStep_agrees (caps : List Str) :
    Agrees usizeMax lo none (capabilityStep usizeMax caps) (Parser.capabilityStep caps) :=
  tryConsumeByte_bind_agrees fun _ => .ite
    (parseAtom_bind_agrees fun _ => pushItem_bind_agrees fun _ => .pure _) (.pure _)

theorem parseCapabilities_agrees :
    Agrees usizeMax lo next (parseCapabilities usizeMax) Parser.parseCapabilities :=
  .loop capabilityStep_agrees
    (fun caps => Parser.bounded_of_assembled (Parser.capabilityStep_assembled caps))
    Parser.capabilityStep_progress []

theorem parseCapabilities_bind_agrees {c : List Str → CheckedM β} {p : List Str → ParserM β}
    (h : ∀ a, Agrees usizeMax lo none (c a) (p a)) : Agrees usizeMax lo next
      (parseCapabilities usizeMax >>= c) (Parser.parseCapabilities >>= p) :=
  .bind parseCapabilities_agrees
    (Parser.bounded_of_assembled Parser.parseCapabilities_assembled) h

theorem parseCodeAtom_agrees :
    Agrees usizeMax lo next (parseCodeAtom usizeMax) Parser.parseCodeAtom :=
  .position_bind fun _ => .bind (scanUntil_agrees _ _) (scanUntil_bounded _ _) fun _ =>
    .bind isEof_agrees Parser.isEof_bounded fun _ => .ite (.fail _) (.here_bind fun _ =>
      .ite (.fail _) (.slice_bind toStr_agrees))

theorem respTextCodeArgs_agrees (atom : Str) :
    Agrees usizeMax lo none (respTextCodeArgs usizeMax atom) (Parser.respTextCodeArgs atom) := by
  have hnumber : ∀ g : UInt32 → ResponseCode, Agrees usizeMax lo none
      (consumeSp usizeMax >>= fun _ => parseNumber usizeMax >>= fun n => pure (g n))
      (Parser.consumeSp >>= fun _ => Parser.parseNumber >>= fun n => pure (g n)) := fun g =>
    consumeSp_bind_agrees fun _ => parseNumber_bind_agrees fun _ => .pure _
  refine .ite (.pure _) (.ite (.pure _) (.ite (.pure _) (.ite (.pure _) (.ite (.pure _) ?_))))
  refine .ite (hnumber _) (.ite (hnumber _) (.ite (hnumber _) ?_))
  refine .ite (parseCapabilities_bind_agrees fun _ => .pure _) ?_
  refine .ite (consumeSp_bind_agrees fun _ => parseParenAtomList_bind_agrees fun _ => .pure _) ?_
  refine .ite (tryConsumeByte_bind_agrees fun _ =>
    .ite (parseParenAtomList_bind_agrees fun _ => .pure _) (.pure _)) ?_
  exact tryConsumeByte_bind_agrees fun _ => .ite (.bind (readUntilByte_agrees _)
    (Parser.bounded_of_assembled (Parser.readUntilByte_assembled _)) fun _ => .pure _) (.pure _)

theorem parseRespTextCode_agrees :
    Agrees usizeMax lo next (parseRespTextCode usizeMax) Parser.parseRespTextCode :=
  .bind parseCodeAtom_agrees (Parser.bounded_of_assembled Parser.parseCodeAtom_assembled)
    respTextCodeArgs_agrees

theorem parseRespTextPrefix_agrees :
    Agrees usizeMax lo next (parseRespTextPrefix usizeMax) Parser.parseRespTextPrefix :=
  tryConsumeByte_bind_agrees fun _ => .ite (.bind parseRespTextCode_agrees
    (Parser.bounded_of_assembled Parser.parseRespTextCode_assembled) fun _ =>
      consumeByte_bind_agrees fun _ => tryConsumeByte_bind_agrees fun _ => .pure _) (.pure _)

theorem parseRespText_agrees :
    Agrees usizeMax lo next (parseRespText usizeMax) Parser.parseRespText :=
  .bind parseRespTextPrefix_agrees
    (Parser.bounded_of_assembled Parser.parseRespTextPrefix_assembled) fun _ =>
      .bind parseText_agrees (Parser.bounded_of_assembled Parser.parseText_assembled) fun _ =>
        .pure _

theorem parseRespTextAfterKeyword_agrees : Agrees usizeMax lo next
    (parseRespTextAfterKeyword usizeMax) Parser.parseRespTextAfterKeyword :=
  tryConsumeByte_bind_agrees fun _ => .ite parseRespText_agrees (.pure _)

theorem keyword_bind_agrees {kw : Bytes} {c : Bool → CheckedM β} {p : Bool → ParserM β}
    (h : ∀ a, Agrees usizeMax lo none (c a) (p a)) : Agrees usizeMax lo next
      (tryConsumeKeywordCi usizeMax kw >>= c) (Parser.tryConsumeKeywordCi kw >>= p) :=
  .bind (tryConsumeKeywordCi_agrees kw) (Parser.tryConsumeKeywordCi_bounded kw) h

theorem tryParseStatusKeyword_agrees : Agrees usizeMax lo next
    (tryParseStatusKeyword usizeMax) Parser.tryParseStatusKeyword :=
  keyword_bind_agrees fun _ => .ite (.pure _) <| keyword_bind_agrees fun _ => .ite (.pure _) <|
    keyword_bind_agrees fun _ => .ite (.pure _) <| keyword_bind_agrees fun _ => .ite (.pure _) <|
      keyword_bind_agrees fun _ => .ite (.pure _) (.pure _)

/-! ### FETCH attributes -/

theorem parseFetchAttName_agrees :
    Agrees usizeMax lo next (parseFetchAttName usizeMax) Parser.parseFetchAttName :=
  .position_bind fun _ => .bind (skipWhile_agrees _) (Parser.skipWhile_bounded _) fun _ =>
    .bind isEof_agrees Parser.isEof_bounded fun _ => .ite (.fail _) (.here_bind fun _ =>
      .ite (.fail _) (.slice_bind toStr_agrees))

theorem parseOrigin_agrees : Agrees usizeMax lo next (parseOrigin usizeMax) Parser.parseOrigin :=
  tryConsumeByte_bind_agrees fun _ => .ite (parseNumber_bind_agrees fun _ =>
    consumeByte_bind_agrees fun _ => .pure _) (.pure _)

theorem parseBodySection_agrees :
    Agrees usizeMax lo next (parseBodySection usizeMax) Parser.parseBodySection :=
  .bind (readUntilByte_agrees _) (Parser.bounded_of_assembled (Parser.readUntilByte_assembled _))
    fun _ => consumeByte_bind_agrees fun _ => .bind parseOrigin_agrees
      (Parser.bounded_of_assembled Parser.parseOrigin_assembled) fun _ =>
        consumeSp_bind_agrees fun _ => .bind parseNstringBytesOptional_agrees
          (Parser.bounded_of_assembled Parser.parseNstringBytesOptional_assembled) fun _ => .pure _

/-- An argument after SP. -/
theorem spaced_agrees {c : CheckedM α} {p : ParserM α} (h : Agrees usizeMax lo none c p)
    (hb : Bounded lo none p) (g : α → β) : Agrees usizeMax lo next
      (consumeSp usizeMax >>= fun _ => c >>= fun a => pure (g a))
      (Parser.consumeSp >>= fun _ => p >>= fun a => pure (g a)) :=
  consumeSp_bind_agrees fun _ => .bind h hb fun _ => .pure _

theorem fetchAttValue_agrees (name : Str) :
    Agrees usizeMax lo none (fetchAttValue usizeMax name) (Parser.fetchAttValue name) := by
  have hnumber : ∀ g : UInt32 → FetchAttribute, Agrees usizeMax lo none
      (consumeSp usizeMax >>= fun _ => parseNumber usizeMax >>= fun n => pure (g n))
      (Parser.consumeSp >>= fun _ => Parser.parseNumber >>= fun n => pure (g n)) :=
    spaced_agrees parseNumber_agrees Parser.parseNumber_lawful.bounded
  have hbytes : ∀ g : Slice → FetchAttribute, Agrees usizeMax lo none
      (consumeSp usizeMax >>= fun _ => parseNstringBytes usizeMax >>= fun n => pure (g n))
      (Parser.consumeSp >>= fun _ => Parser.parseNstringBytes >>= fun n => pure (g n)) :=
    spaced_agrees parseNstringBytes_agrees
      (Parser.bounded_of_assembled Parser.parseNstringBytes_assembled)
  have hparens : ∀ g : Slice → FetchAttribute, Agrees usizeMax lo none
      (consumeSp usizeMax >>= fun _ => parseBalancedParens usizeMax >>= fun n => pure (g n))
      (Parser.consumeSp >>= fun _ => Parser.parseBalancedParens >>= fun n => pure (g n)) :=
    spaced_agrees parseBalancedParens_agrees
      (Parser.bounded_of_assembled Parser.parseBalancedParens_assembled)
  refine .ite (hnumber _) (.ite
    (consumeSp_bind_agrees fun _ => parseParenAtomList_bind_agrees fun _ => .pure _) ?_)
  refine .ite (consumeSp_bind_agrees fun _ => parseQuoted_bind_agrees fun _ => .pure _)
    (.ite (hnumber _) ?_)
  refine .ite (hbytes _) (.ite (hbytes _) (.ite (hbytes _) ?_))
  refine .ite (hparens _) (.ite (hparens _) (.ite ?_ (.fail _)))
  exact tryConsumeByte_bind_agrees fun _ => .ite parseBodySection_agrees (hparens _)

theorem parseOneFetchAtt_agrees :
    Agrees usizeMax lo next (parseOneFetchAtt usizeMax) Parser.parseOneFetchAtt :=
  .bind parseFetchAttName_agrees Parser.parseFetchAttName_bounded fetchAttValue_agrees

theorem parseFetchMsgAtt_agrees :
    Agrees usizeMax lo next (parseFetchMsgAtt usizeMax) Parser.parseFetchMsgAtt :=
  parseParenList_agrees parseOneFetchAtt_agrees Parser.parseOneFetchAtt_element _

/-! ### Data responses -/

theorem parseStatusItem_agrees :
    Agrees usizeMax lo next (parseStatusItem usizeMax) Parser.parseStatusItem :=
  parseAtom_bind_agrees fun _ => consumeSp_bind_agrees fun _ => parseNumber_bind_agrees fun _ =>
    .pure _

theorem parseStatusItems_agrees :
    Agrees usizeMax lo next (parseStatusItems usizeMax) Parser.parseStatusItems :=
  parseParenList_agrees parseStatusItem_agrees Parser.parseStatusItem_element _

theorem parseAstring_bind_agrees {c : Str → CheckedM β} {p : Str → ParserM β}
    (h : ∀ a, Agrees usizeMax lo none (c a) (p a)) :
    Agrees usizeMax lo next (parseAstring usizeMax >>= c) (Parser.parseAstring >>= p) :=
  .bind parseAstring_agrees (Parser.bounded_of_assembled Parser.parseAstring_assembled) h

theorem parseListLsubBody_agrees :
    Agrees usizeMax lo next (parseListLsubBody usizeMax) Parser.parseListLsubBody :=
  parseParenAtomList_bind_agrees fun _ => consumeSp_bind_agrees fun _ =>
    .bind parseNstring_agrees (Parser.bounded_of_assembled Parser.parseNstring_assembled) fun _ =>
      consumeSp_bind_agrees fun _ => parseAstring_bind_agrees fun _ => .pure _

theorem searchStep_agrees (ids : List UInt32) :
    Agrees usizeMax lo none (searchStep usizeMax ids) (Parser.searchStep ids) :=
  tryConsumeByte_bind_agrees fun _ => .ite (parseNumber_bind_agrees fun _ => .pure _) (.pure _)

theorem parseSearchIds_agrees :
    Agrees usizeMax lo next (parseSearchIds usizeMax) Parser.parseSearchIds :=
  .loop searchStep_agrees
    (fun ids => Parser.bounded_of_assembled (Parser.searchStep_assembled ids))
    Parser.searchStep_progress []

/-! ### Raw lines -/

theorem atLineStart_run {s : Parser} {i : ℕ} (hi : i ≤ s.input.length) : atLineStart i s
    = .ok (decide (2 ≤ i ∧ (s.input.take i).drop (i - 2) = CRLF), s) := by
  rw [atLineStart]
  by_cases htwo : 2 ≤ i
  · rw [if_pos htwo, run_bind, diff, if_pos htwo, run_pure]
    dsimp only
    rw [run_bind, slice, sliceOf, if_pos ⟨Nat.sub_le _ _, hi⟩, run_pure]
    simp only [htwo, true_and]
    rfl
  · rw [if_neg htwo]
    simp only [htwo, false_and, decide_false]
    rfl

/-- The index goes down by one on every round. -/
theorem lineStartN_run {s : Parser} : ∀ (fuel i : ℕ), i ≤ s.input.length → i < fuel →
    lineStartN fuel i s = .ok (Parser.findCurrentLineStart s.input i, s) := by
  intro fuel
  induction fuel with
  | zero => exact fun i _ h => absurd h (Nat.not_lt_zero i)
  | succ fuel ih =>
    intro i hi hfuel
    cases i with
    | zero => rfl
    | succ i =>
      rw [lineStartN, if_pos (Nat.succ_pos i), run_bind, atLineStart_run hi,
        Parser.findCurrentLineStart, show i + 1 - 2 = i - 1 from rfl]
      by_cases hline : 2 ≤ i + 1 ∧ (s.input.take (i + 1)).drop (i - 1) = CRLF
      · simp only [decide_eq_true hline, if_pos hline, if_true]
        rfl
      · simp only [decide_eq_false hline, if_neg hline, Bool.false_eq_true, if_false]
        rw [run_bind, diff, if_pos (Nat.le_add_left 1 i), run_pure, Nat.add_sub_cancel]
        dsimp only
        rw [if_pos (Nat.lt_succ_self i)]
        exact ih i (Nat.le_of_succ_le hi) (Nat.lt_of_succ_lt_succ hfuel)

theorem findCurrentLineStart_run {s : Parser} (hs : s.Valid) :
    findCurrentLineStart s = .ok (Parser.findCurrentLineStart s.input s.pos, s) :=
  lineStartN_run _ _ hs (Nat.lt_succ_self _)

theorem rawLine_agrees : Agrees usizeMax lo none (rawLine usizeMax lo) (do
    Incremental.skipWhile Parser.isRawLineChar
    let line ← sliceFrom lo
    Parser.consumeCrlf
    pure (.data (.other ⟨lo, line⟩))) :=
  .bind (skipWhile_agrees _) (Parser.skipWhile_bounded _) fun _ => .slice_bind fun _ =>
    .bind consumeCrlf_agrees Parser.consumeCrlf_bounded fun _ => .pure _

/-- The start of the line is not after the cursor. -/
theorem finishOtherDataWithPrefix_agrees : Agrees usizeMax lo none
    (finishOtherDataWithPrefix usizeMax) Parser.finishOtherDataWithPrefix := by
  intro s hs hmax
  rw [finishOtherDataWithPrefix, run_bind, findCurrentLineStart_run hs.valid]
  exact rawLine_agrees ⟨hs.valid, Parser.findCurrentLineStart_le _ _, hs.sees⟩ hmax

theorem crlf_agrees (r : Response) : Agrees usizeMax lo none
    (consumeCrlf usizeMax >>= fun _ => pure r) (Parser.consumeCrlf >>= fun _ => pure r) :=
  .bind consumeCrlf_agrees Parser.consumeCrlf_bounded fun _ => .pure _

theorem parseNumericDataResponse_agrees : Agrees usizeMax lo none
    (parseNumericDataResponse usizeMax) Parser.parseNumericDataResponse := by
  refine parseNumber_bind_agrees fun n => consumeSp_bind_agrees fun _ =>
    parseAtom_bind_agrees fun kind => ?_
  refine .ite (crlf_agrees _) (.ite (crlf_agrees _) (.ite (crlf_agrees _) (.ite ?_
    finishOtherDataWithPrefix_agrees)))
  exact consumeSp_bind_agrees fun _ => .bind parseFetchMsgAtt_agrees
    (Parser.bounded_of_assembled Parser.parseFetchMsgAtt_assembled) fun _ => crlf_agrees _

/-- Both parsers know the same names, and their bodies agree. -/
theorem namedData_agrees (name : Str) :
    match namedData usizeMax name, Parser.namedData name with
    | some c, some p => Agrees usizeMax lo none c p
    | none, none => True
    | _, _ => False := by
  have hlist : ∀ g : List Str × Option Str × Str → DataResponse, Agrees usizeMax lo none
      (consumeSp usizeMax >>= fun _ => parseListLsubBody usizeMax >>= fun r => pure (g r))
      (Parser.consumeSp >>= fun _ => Parser.parseListLsubBody >>= fun r => pure (g r)) :=
    spaced_agrees parseListLsubBody_agrees
      (Parser.bounded_of_assembled Parser.parseListLsubBody_assembled)
  rw [namedData, Parser.namedData]
  by_cases hcapability : name.eqCi "CAPABILITY"
  · rw [if_pos hcapability, if_pos hcapability]
    exact parseCapabilities_bind_agrees fun _ => .pure _
  rw [if_neg hcapability, if_neg hcapability]
  by_cases hlist' : name.eqCi "LIST"
  · rw [if_pos hlist', if_pos hlist']
    exact hlist _
  rw [if_neg hlist', if_neg hlist']
  by_cases hlsub : name.eqCi "LSUB"
  · rw [if_pos hlsub, if_pos hlsub]
    exact hlist _
  rw [if_neg hlsub, if_neg hlsub]
  by_cases hstatus : name.eqCi "STATUS"
  · rw [if_pos hstatus, if_pos hstatus]
    exact consumeSp_bind_agrees fun _ => parseAstring_bind_agrees fun _ => spaced_agrees
      parseStatusItems_agrees (Parser.bounded_of_assembled Parser.parseStatusItems_assembled) _
  rw [if_neg hstatus, if_neg hstatus]
  by_cases hsearch : name.eqCi "SEARCH"
  · rw [if_pos hsearch, if_pos hsearch]
    exact .bind parseSearchIds_agrees
      (Parser.bounded_of_assembled Parser.parseSearchIds_assembled) fun _ => .pure _
  rw [if_neg hsearch, if_neg hsearch]
  by_cases hflags : name.eqCi "FLAGS"
  · rw [if_pos hflags, if_pos hflags]
    exact consumeSp_bind_agrees fun _ => parseParenAtomList_bind_agrees fun _ => .pure _
  rw [if_neg hflags, if_neg hflags]
  trivial

theorem parseNamedDataResponse_agrees : Agrees usizeMax lo none
    (parseNamedDataResponse usizeMax) Parser.parseNamedDataResponse := by
  refine .position_bind fun lineStart => parseAtom_bind_agrees fun name => ?_
  have hnamed := @namedData_agrees usizeMax lineStart name
  cases hc : namedData usizeMax name with
  | none =>
    cases hp : Parser.namedData name with
    | none => exact rawLine_agrees
    | some p => rw [hc, hp] at hnamed; exact hnamed.elim
  | some c =>
    cases hp : Parser.namedData name with
    | none => rw [hc, hp] at hnamed; exact hnamed.elim
    | some p =>
      rw [hc, hp] at hnamed
      exact .bind hnamed (Parser.bounded_of_assembled (Parser.namedData_assembled hp)) fun _ =>
        crlf_agrees _

/-! ### Top-level dispatch -/

theorem finishStatus_agrees (tag : Option Str) (status : Status) : Agrees usizeMax lo none
    (finishStatus usizeMax tag status) (Parser.finishStatus tag status) :=
  .bind parseRespTextAfterKeyword_agrees
    (Parser.bounded_of_assembled Parser.parseRespTextAfterKeyword_assembled) fun _ => crlf_agrees _

theorem parseContinueReq_agrees :
    Agrees usizeMax lo next (parseContinueReq usizeMax) Parser.parseContinueReq :=
  consumeByte_bind_agrees fun _ => consumeSp_bind_agrees fun _ => .bind parseRespText_agrees
    (Parser.bounded_of_assembled Parser.parseRespText_assembled) fun _ => crlf_agrees _

theorem parseUntagged_agrees :
    Agrees usizeMax lo next (parseUntagged usizeMax) Parser.parseUntagged := by
  refine consumeByte_bind_agrees fun _ => consumeSp_bind_agrees fun _ =>
    .bind tryParseStatusKeyword_agrees Parser.tryParseStatusKeyword_bounded fun status => ?_
  cases status with
  | some status => exact finishStatus_agrees none status
  | none =>
    exact .peek_bind fun _ => .ite (.weaken parseNumericDataResponse_agrees)
      (.weaken parseNamedDataResponse_agrees)

/-- A keyword is only cut where it is longer than what it is compared with. -/
theorem couldBeStatusKeywordPrefix_run (bytes : Bytes) (kws : List Bytes) (s : Parser) :
    couldBeStatusKeywordPrefix bytes kws s = .ok (kws.any fun kw => bytes.length < kw.length &&
      ((kw.take bytes.length).zip bytes).all fun p => byteEqCi p.1 p.2, s) := by
  induction kws with
  | nil => rfl
  | cons kw kws ih =>
    rw [couldBeStatusKeywordPrefix, List.any_cons]
    by_cases hlt : bytes.length < kw.length
    · rw [if_pos hlt, run_bind, sliceOf, if_pos ⟨Nat.zero_le _, Nat.le_of_lt hlt⟩, run_pure,
        List.drop_zero]
      dsimp only
      rw [decide_eq_true hlt, Bool.true_and]
      split
      next hall => rw [hall, Bool.true_or]; rfl
      next hall => rw [Bool.eq_false_iff.mpr hall, Bool.false_or]; exact ih
    · rw [if_neg hlt, decide_eq_false hlt, Bool.false_and, Bool.false_or]
      exact ih

theorem parseTagged_agrees : Agrees usizeMax lo next (parseTagged usizeMax) Parser.parseTagged := by
  refine .bind parseTag_agrees (Parser.bounded_of_assembled Parser.parseTag_assembled) fun tag =>
    consumeSp_bind_agrees fun _ => .bind tryParseStatusKeyword_agrees
      Parser.tryParseStatusKeyword_bounded fun status => ?_
  cases status with
  | some status => exact finishStatus_agrees (some tag) status
  | none =>
    intro s hs hmax
    dsimp only
    rw [run_bind, remaining_run hs.valid]
    dsimp only
    rw [run_bind, couldBeStatusKeywordPrefix_run]
    change (if ImapRs.couldBeStatusKeywordPrefix s.rest then _ else _ : CheckedM Response) s
      = Stop.lift (if ImapRs.couldBeStatusKeywordPrefix s.rest then _ else _)
    split <;> rfl

theorem parseResponse_agrees :
    Agrees usizeMax lo next (parseResponse usizeMax) Parser.parseResponse :=
  .bind isEof_agrees Parser.isEof_bounded fun _ => .ite (.fail _) <| .peek_bind fun _ =>
    .ite parseContinueReq_agrees (.ite parseUntagged_agrees parseTagged_agrees)

end Checked

/-- **The checked parser is the parser.** -/
theorem checkedParseResponse_eq {usizeMax : ℕ} {input : Bytes} (h : input.length ≤ usizeMax) :
    checkedParseResponse usizeMax input = Stop.lift (parseResponse input) := by
  have hmeets := Parser.new_meets input
  rw [checkedParseResponse, parseResponse, run_bind, Checked.parseResponse_agrees hmeets h]
  cases hrun : Parser.parseResponse (Parser.new input) with
  | error e => rfl
  | ok run =>
    have hvalid := (Parser.parseResponse_framed.bounded hmeets hrun).valid
    have hremaining : (Checked.remaining >>= fun rest => pure (rest, run.1)
        : Checked.CheckedM (Bytes × Response)) run.2 = .ok ((run.2.rest, run.1), run.2) := by
      rw [run_bind, Checked.remaining_run hvalid]
      rfl
    simp only [Stop.lift, hremaining]

/-- What the parser leaves is the end of its input, and strictly shorter. -/
theorem parseResponse_rest {input rest : Bytes} {r : Response}
    (h : parseResponse input = .ok (rest, r)) : rest <:+ input ∧ rest.length < input.length := by
  obtain ⟨body, rfl, -⟩ := parseResponse_frame h
  refine ⟨List.suffix_append _ _, ?_⟩
  rw [List.length_append, List.length_append]
  exact Nat.lt_add_of_pos_left (Nat.lt_of_lt_of_le (by decide) (Nat.le_add_left CRLF.length _))

/-- **The parser cannot panic or loop.** On every input that fits into memory the run with all of
its checks is the run without them: no step of it faults. A response takes at least one byte off
the input. -/
theorem parseResponse_no_panic (usizeMax : ℕ) (input : Bytes) (h : input.length ≤ usizeMax) :
    checkedParseResponse usizeMax input = Stop.lift (parseResponse input) ∧
    (∀ f, checkedParseResponse usizeMax input ≠ .error (.fault f)) ∧
    ∀ rest r, checkedParseResponse usizeMax input = .ok (rest, r) →
      rest <:+ input ∧ rest.length < input.length := by
  have hsame := checkedParseResponse_eq h
  rw [hsame]
  refine ⟨rfl, fun f hf => ?_, fun rest r hr => ?_⟩
  · cases hp : parseResponse input <;> rw [hp] at hf <;> cases hf
  · cases hp : parseResponse input with
    | error e =>
      rw [hp] at hr
      cases hr
    | ok run =>
      rw [hp] at hr
      cases hr
      exact parseResponse_rest hp

theorem parseResponse_no_panic_exists :
    (ascii "* 3 EXISTS\r\n").length ≤ 2 ^ 64 - 1 ∧
    checkedParseResponse (2 ^ 64 - 1) (ascii "* 3 EXISTS\r\n")
      = Stop.lift (parseResponse (ascii "* 3 EXISTS\r\n")) ∧
    parseResponse (ascii "* 3 EXISTS\r\n") = .ok ([], .data (.exists 3)) :=
  ⟨by decide, (parseResponse_no_panic (2 ^ 64 - 1) _ (by decide)).1, by decide⟩

end ImapRs
