import ImapRs.Core.Framing
import ImapRs.Incremental.Meter

/-!
# The item budget is exact

The parser charges every list element of a response to one counter. With the counter out of the
way the result of a parse would be the same, unless the response holds more elements than the
counter allowed, and then the parser gives up: nothing is charged twice, and nothing is forgotten.

## Main definitions

* `Response.items` — the list elements a response holds
* `parseResponseWith` — the parser on another budget
* `parseResponseUnbudgeted` — the parser on a budget that no input can use up

## Main results

* `parseResponse_items` — the budget is exact
-/

namespace ImapRs

open Incremental Cursor

/-! ### Counting -/

/-- Elements, with what each of them holds. -/
def countItems {α : Type} (inner : α → ℕ) (l : List α) : ℕ := (l.map fun a => inner a + 1).sum

/-- The list elements of a response code. -/
def ResponseCode.items : ResponseCode → ℕ
  | .badCharset l | .capability l | .permanentFlags l => l.length
  | _ => 0

def codeItems (code : Option ResponseCode) : ℕ := code.elim 0 ResponseCode.items

/-- The flags in a FETCH attribute. -/
def FetchAttribute.items : FetchAttribute → ℕ
  | .flags l => l.length
  | _ => 0

/-- The list elements of a data response; the numbers of a SEARCH are not counted. -/
def DataResponse.items : DataResponse → ℕ
  | .capability l | .flags l => l.length
  | .list l _ _ | .lsub l _ _ => l.length
  | .status _ l => l.length
  | .fetch _ attributes => countItems FetchAttribute.items attributes
  | _ => 0

/-- The list elements of a response, over all of its lists together. -/
def Response.items : Response → ℕ
  | .status s => codeItems s.code
  | .data d => d.items
  | .continue c => codeItems c.code

/-- `parse_response` with another budget. -/
def parseResponseWith (budget : ℕ) (input : Bytes) : Except ParseError (Bytes × Response) :=
  match Parser.parseResponse ⟨input, 0, ⟨budget, []⟩⟩ with
  | .ok (response, parser) => .ok (parser.rest, response)
  | .error e => .error e

/-- `parse_response` without the budget: an element is at least one byte long, so a budget as large
as the input is never used up. -/
def parseResponseUnbudgeted (input : Bytes) : Except ParseError (Bytes × Response) :=
  parseResponseWith input.length input

theorem countItems_append {α : Type} (inner : α → ℕ) (l : List α) (a : α) :
    countItems inner (l ++ [a]) = countItems inner l + inner a + 1 := by
  simp [countItems, Nat.add_assoc]

theorem countItems_zero {α : Type} (l : List α) : countItems (fun _ => 0) l = l.length := by
  simp [countItems]

namespace Parser

/-- The item counter. -/
def itemMeter : Meter Budget ParseError where
  get b := b.itemsLeft
  set n b := { b with itemsLeft := n }
  overrun := .tooManyItems MAX_ITEMS_PER_RESPONSE
  get_set _ _ := rfl
  set_set _ _ _ := rfl
  set_get _ := rfl

@[simp] theorem itemMeter_overrun : itemMeter.overrun = .tooManyItems MAX_ITEMS_PER_RESPONSE := rfl

theorem chargeItem_eq : chargeItem = itemMeter.cost := by
  funext b
  rw [chargeItem, Meter.cost]
  rfl

/-- Readers that do not look at the item counter. -/
abbrev Uncharged {α : Type} (p : ParserM α) : Prop := Blind itemMeter p

/-- Readers that charge for what they return. -/
abbrev Charged {α : Type} (c : ℕ) (w : α → ℕ) (p : ParserM α) : Prop := Metered itemMeter c w p

/-! ### Tokens -/

theorem peek_uncharged : Uncharged peek := .peek nofun

theorem isEof_uncharged : Uncharged isEof :=
  .of_input (fun x i => .ok (decide (x.length ≤ i), i)) (fun _ => rfl)
    (fun _ _ _ _ h => by cases h; exact Nat.le_refl _) fun _ _ h => nomatch h

theorem toStr_uncharged (bs : Bytes) : Uncharged (toStr bs) := by
  rw [toStr]
  cases fromUtf8 bs with
  | none => exact .fail (by simp)
  | some s => exact .pure s

theorem scannedText_uncharged (start : ℕ) : Uncharged (scannedText start) := by
  refine isEof_uncharged.bind fun b => .ite (.fail (by simp)) ?_
  exact (Blind.sliceFrom start).bind toStr_uncharged

theorem consumeByte_uncharged (b : UInt8) : Uncharged (consumeByte b) :=
  peek_uncharged.bind fun _ => .ite .advance (Blind.position.bind fun _ => .fail (by simp))

theorem consumeSp_uncharged : Uncharged consumeSp := consumeByte_uncharged SP

theorem tryConsumeKeywordCi_uncharged (kw : Bytes) : Uncharged (tryConsumeKeywordCi kw) where
  run s n := by
    have hmatch : matchesCi (itemMeter.fill n s) kw = matchesCi s kw := rfl
    rw [tryConsumeKeywordCi, tryConsumeKeywordCi, hmatch, Meter.fill_input, Meter.fill_pos]
    split
    · rfl
    cases s.input[s.pos + kw.length]? with
    | none => rfl
    | some b =>
      dsimp only
      split <;> rfl
  le s v t h := by
    rw [tryConsumeKeywordCi] at h
    dsimp only at h
    split at h
    · cases h
      exact Nat.le_refl _
    cases hget : s.input[s.pos + kw.length]? with
    | none =>
      rw [hget] at h
      cases h
      exact Nat.le_add_right _ _
    | some b =>
      rw [hget] at h
      dsimp only at h
      split at h <;> cases h
      · exact Nat.le_refl _
      · exact Nat.le_add_right _ _
  spares s h := by
    rw [tryConsumeKeywordCi] at h
    dsimp only at h
    split at h
    · cases h
    cases hget : s.input[s.pos + kw.length]? with
    | none =>
      rw [hget] at h
      cases h
    | some b =>
      rw [hget] at h
      dsimp only at h
      split at h <;> cases h

theorem consumeCrlf_uncharged : Uncharged consumeCrlf := by
  refine peek_uncharged.bind fun c => .ite (.fail (by simp)) ?_
  refine .of_input (fun x i => x[i + 1]?.elim (.error .incomplete) fun b =>
    if b = LF then .ok ((), i + 2) else .error (.malformed "expected LF after CR")) (fun s => ?_)
    (fun x i v j h => ?_) fun x i h => ?_
  · cases s.input[s.pos + 1]? with
    | none => rfl
    | some b => by_cases hb : b = LF <;> simp only [hb, if_true, if_false, Option.elim] <;> rfl
  · cases hx : x[i + 1]? with
    | none => rw [hx] at h; cases h
    | some b =>
      rw [hx, Option.elim] at h
      split at h <;> cases h
      exact Nat.le_add_right i 2
  · cases hx : x[i + 1]? with
    | none => rw [hx] at h; cases h
    | some b =>
      rw [hx, Option.elim] at h
      split at h <;> cases h

theorem expectNil_uncharged : Uncharged expectNil := by
  refine (tryConsumeKeywordCi_uncharged _).bind fun b =>
    .ite (.pure _) ⟨fun s n => ?_, fun s v t h => ?_, fun s h => ?_⟩
  · rw [Meter.fill_rest]
    dsimp only
    split <;> rfl
  · dsimp only at h
    split at h <;> cases h
  · dsimp only at h
    split at h <;> cases h

theorem literalPayload_uncharged (brace n : ℕ) : Uncharged (literalPayload brace n) where
  run s k := by
    rw [literalPayload_run, literalPayload_run, Meter.fill_input, Meter.fill_pos]
    split <;> rfl
  le s v t h := by
    rw [literalPayload_run] at h
    split at h <;> cases h
    exact Nat.le_add_right _ _
  spares s h := by
    rw [literalPayload_run] at h
    split at h <;> cases h

theorem scanUntil_uncharged (stop : UInt8 → Bool) {err : ParseError}
    (herr : err ≠ itemMeter.overrun) : Uncharged (scanUntil stop err) := by
  refine (Blind.skipWhile _).bind fun _ =>
    ⟨fun s n => ?_, fun s v t h => ?_, fun s h => ?_⟩
  · rw [Meter.fill_input, Meter.fill_pos]
    split
    · split <;> rfl
    · rfl
  · split at h
    · split at h <;> cases h
      exact Nat.le_refl _
    · cases h
      exact Nat.le_refl _
  · split at h
    · split at h
      · cases h
      · exact herr (Except.error.inj h)
    · cases h

theorem parseNumber_uncharged : Uncharged parseNumber := by
  refine Blind.position.bind fun start => (Blind.skipWhile _).bind fun _ =>
    Blind.position.bind fun stop => .ite ?_ ?_
  · exact isEof_uncharged.bind fun b => .ite (.fail (by simp)) (.fail (by simp))
  · refine (Blind.sliceFrom _).bind fun bs => ?_
    cases fromUtf8 bs with
    | none => exact .fail (by simp)
    | some s =>
      simp only
      cases parseU32 s.bytes with
      | none => exact .fail (by simp)
      | some n => exact .pure n

/-- The scan shared by atoms, tags and flags. -/
theorem word_uncharged (p : UInt8 → Bool) (what : String) (start : ℕ) : Uncharged (do
    skipWhile p
    if start = (← position) then
      if ← isEof then fail .incomplete else fail (.malformed what)
    else scannedText start : ParserM Str) :=
  (Blind.skipWhile p).bind fun _ => Blind.position.bind fun _ =>
    .ite (isEof_uncharged.bind fun _ => .ite (.fail (by simp)) (.fail (by simp)))
      (scannedText_uncharged start)

theorem parseAtom_uncharged : Uncharged parseAtom :=
  Blind.position.bind fun start => word_uncharged _ _ start

theorem parseTag_uncharged : Uncharged parseTag :=
  Blind.position.bind fun start => word_uncharged _ _ start

theorem quotedStep_uncharged (start : ℕ) (a : Unit) : Uncharged (quotedStep start a) := by
  refine peek_uncharged.bind fun c =>
    .ite ?_ (.ite ?_ (.ite (.fail (by simp)) (.ite (.fail (by simp)) ?_)))
  · exact (Blind.sliceFrom start).bind fun bs => (toStr_uncharged bs).bind fun _ =>
      Blind.advance.bind fun _ => .pure _
  · exact Blind.advance.bind fun _ => peek_uncharged.bind fun _ =>
      .ite (Blind.advance.bind fun _ => .pure _) (.fail (by simp))
  · exact Blind.advance.bind fun _ => .pure _

theorem parseQuoted_uncharged : Uncharged parseQuoted :=
  (consumeByte_uncharged _).bind fun _ => Blind.position.bind fun start =>
    .iterate (by simp) (quotedStep_uncharged start) ()

theorem parseLiteral_uncharged : Uncharged parseLiteral :=
  Blind.position.bind fun brace => (consumeByte_uncharged _).bind fun _ =>
    parseNumber_uncharged.bind fun n => (consumeByte_uncharged _).bind fun _ =>
      consumeCrlf_uncharged.bind fun _ => .ite (.fail (by simp))
        (literalPayload_uncharged brace n.toNat)

theorem literalStr_uncharged : Uncharged (parseLiteral >>= fun data => toStr data.bytes) :=
  parseLiteral_uncharged.bind fun _ => toStr_uncharged _

theorem parseAstring_uncharged : Uncharged parseAstring :=
  peek_uncharged.bind fun _ => .ite parseQuoted_uncharged
    (.ite literalStr_uncharged parseAtom_uncharged)

theorem parseNstring_uncharged : Uncharged parseNstring := by
  refine peek_uncharged.bind fun _ => .ite (parseQuoted_uncharged.bind fun _ => .pure _)
    (.ite ?_ ?_)
  · exact parseLiteral_uncharged.bind fun _ => (toStr_uncharged _).bind fun _ => .pure _
  · exact expectNil_uncharged.bind fun _ => .pure _

theorem parseNstringBytes_uncharged : Uncharged parseNstringBytes := by
  refine peek_uncharged.bind fun _ => .ite ?_ (.ite parseLiteral_uncharged ?_)
  · exact Blind.position.bind fun _ => parseQuoted_uncharged.bind fun _ => .pure _
  · exact expectNil_uncharged.bind fun _ => Blind.position.bind fun _ => .pure _

theorem parseNstringBytesOptional_uncharged : Uncharged parseNstringBytesOptional := by
  refine peek_uncharged.bind fun _ =>
    .ite ?_ (.ite (parseLiteral_uncharged.bind fun _ => .pure _) ?_)
  · exact Blind.position.bind fun _ => parseQuoted_uncharged.bind fun _ => .pure _
  · exact expectNil_uncharged.bind fun _ => .pure _

theorem parseFlagOrAtom_uncharged : Uncharged parseFlagOrAtom := by
  refine Blind.position.bind fun start => peek_uncharged.bind fun _ =>
    .ite ?_ (word_uncharged _ _ start)
  refine Blind.advance.bind fun _ => (Blind.tryConsume _).bind fun _ =>
    .ite ?_ (word_uncharged _ _ start)
  exact (Blind.sliceFrom start).bind toStr_uncharged

theorem balancedStep_uncharged (depth : ℕ) : Uncharged (balancedStep depth) := by
  refine .ite (.pure _) (peek_uncharged.bind fun _ => .ite ?_ (.ite ?_ (.ite ?_ (.ite ?_
    (.ite (.fail (by simp)) ?_)))))
  · exact Blind.advance.bind fun _ => .ite (.pure _) (.fail (by simp))
  · exact Blind.advance.bind fun _ => .pure _
  · exact parseQuoted_uncharged.bind fun _ => .pure _
  · exact parseLiteral_uncharged.bind fun _ => .pure _
  · exact Blind.advance.bind fun _ => .pure _

theorem parseBalancedParens_uncharged : Uncharged parseBalancedParens :=
  Blind.position.bind fun start => (consumeByte_uncharged _).bind fun _ =>
    (Blind.iterate (by simp) balancedStep_uncharged 1).bind fun _ =>
      (Blind.sliceFrom start).bind fun _ =>
      .pure _

theorem parseText_uncharged : Uncharged parseText :=
  Blind.position.bind fun start => (Blind.skipWhile _).bind fun _ => scannedText_uncharged start

theorem readUntilByte_uncharged (b : UInt8) : Uncharged (readUntilByte b) :=
  Blind.position.bind fun start => (scanUntil_uncharged _ (by simp)).bind fun _ =>
    scannedText_uncharged start

theorem parseCodeAtom_uncharged : Uncharged parseCodeAtom :=
  Blind.position.bind fun start => (scanUntil_uncharged _ (by simp)).bind fun _ =>
    isEof_uncharged.bind fun _ => .ite (.fail (by simp)) (Blind.position.bind fun _ =>
      .ite (.fail (by simp)) ((Blind.sliceFrom start).bind toStr_uncharged))

theorem parseFetchAttName_uncharged : Uncharged parseFetchAttName :=
  Blind.position.bind fun start => (Blind.skipWhile _).bind fun _ =>
    isEof_uncharged.bind fun _ => .ite (.fail (by simp)) (Blind.position.bind fun _ =>
      .ite (.fail (by simp)) ((Blind.sliceFrom start).bind toStr_uncharged))

theorem parseOrigin_uncharged : Uncharged parseOrigin :=
  (Blind.tryConsume _).bind fun _ => .ite (parseNumber_uncharged.bind fun _ =>
    (consumeByte_uncharged _).bind fun _ => .pure _) (.pure _)

theorem searchStep_uncharged (ids : List UInt32) : Uncharged (searchStep ids) :=
  (Blind.tryConsume _).bind fun _ => .ite (parseNumber_uncharged.bind fun _ => .pure _) (.pure _)

theorem tryParseStatusKeyword_uncharged : Uncharged tryParseStatusKeyword :=
  (tryConsumeKeywordCi_uncharged _).bind fun _ => .ite (.pure _) <|
    (tryConsumeKeywordCi_uncharged _).bind fun _ => .ite (.pure _) <|
      (tryConsumeKeywordCi_uncharged _).bind fun _ => .ite (.pure _) <|
        (tryConsumeKeywordCi_uncharged _).bind fun _ => .ite (.pure _) <|
          (tryConsumeKeywordCi_uncharged _).bind fun _ => .ite (.pure _) (.pure _)

/-! ### Elements are not empty -/

/-- The scan shared by atoms, tags and flags moves on. -/
theorem word_lt {p : UInt8 → Bool} {what : String} {start : ℕ} {s t : Parser} {v : Str}
    (hstart : start ≤ s.pos) (h : (do
      skipWhile p
      if start = (← position) then
        if ← isEof then fail .incomplete else fail (.malformed what)
      else scannedText start : ParserM Str) s = .ok (v, t)) : start < t.pos := by
  obtain ⟨_, t₁, hskip, h⟩ := run_bind_eq_ok h
  have hle := (Blind.skipWhile (M := itemMeter) p).le hskip
  obtain ⟨_, t₂, hposition, h⟩ := run_bind_eq_ok h
  cases hposition
  by_cases hmoved : start = t₁.pos
  · rw [if_pos hmoved] at h
    obtain ⟨b, t₃, -, h⟩ := run_bind_eq_ok h
    cases b <;> cases h
  · rw [if_neg hmoved] at h
    have := (scannedText_uncharged start).le h
    omega

theorem parseAtom_lt {s t : Parser} {v : Str} (h : parseAtom s = .ok (v, t)) : s.pos < t.pos := by
  obtain ⟨_, t₁, hposition, h⟩ := run_bind_eq_ok h
  cases hposition
  exact word_lt (Nat.le_refl _) h

theorem parseFlagOrAtom_lt {s t : Parser} {v : Str} (h : parseFlagOrAtom s = .ok (v, t)) :
    s.pos < t.pos := by
  obtain ⟨_, t₁, hposition, h⟩ := run_bind_eq_ok h
  cases hposition
  obtain ⟨c, t₂, hpeek, h⟩ := run_bind_eq_ok h
  have hle := peek_uncharged.le hpeek
  by_cases hc : c = byte '\\'
  · rw [if_pos hc] at h
    obtain ⟨_, t₃, hadvance, h⟩ := run_bind_eq_ok h
    cases hadvance
    have hrest : Uncharged (do
        if ← tryConsumeByte (byte '*') then toStr (← sliceFrom s.pos)
        else parseFlagOrAtom.flagTail s.pos) :=
      (Blind.tryConsume _).bind fun _ => .ite ((Blind.sliceFrom _).bind toStr_uncharged)
        (word_uncharged _ _ _)
    have := hrest.le h
    exact Nat.lt_of_lt_of_le (Nat.lt_succ_of_le hle) this
  · rw [if_neg hc] at h
    exact word_lt hle h

theorem parseFetchAttName_lt {s t : Parser} {v : Str} (h : parseFetchAttName s = .ok (v, t)) :
    s.pos < t.pos := by
  obtain ⟨_, t₁, hposition, h⟩ := run_bind_eq_ok h
  cases hposition
  obtain ⟨_, t₂, hskip, h⟩ := run_bind_eq_ok h
  have hle := (Blind.skipWhile (M := itemMeter) isAttNameChar).le hskip
  obtain ⟨b, t₃, heof, h⟩ := run_bind_eq_ok h
  cases heof
  split at h
  · cases h
  · obtain ⟨_, t₃, hposition, h⟩ := run_bind_eq_ok h
    cases hposition
    by_cases hmoved : s.pos = t₂.pos
    · rw [if_pos hmoved] at h
      cases h
    · rw [if_neg hmoved] at h
      have := ((Blind.sliceFrom s.pos).bind toStr_uncharged).le h
      omega

/-! ### Lists -/

section Charged

variable {α β : Type} {c : ℕ}

/-- What was read is wrapped up. -/
theorem Charged.map {w : α → ℕ} {w' : β → ℕ} {p : ParserM α} (hp : Charged c w p) (g : α → β)
    (h : ∀ a, w' (g a) = w a) : Charged c w' (p >>= fun a => pure (g a)) :=
  Metered.bind hp fun a => .pure _ (h a)

/-- What was read costs nothing. -/
theorem Uncharged.map {w : β → ℕ} {p : ParserM α} (hp : Uncharged p) (g : α → β)
    (h : ∀ a, w (g a) = c) : Charged c w (p >>= fun a => pure (g a)) :=
  .blind_bind hp fun a => .pure _ (h a)

/-- One round of a list charges for the element it read, and for what is inside it. -/
theorem parenListStep_charged {element : ParserM α} {inner : α → ℕ}
    (helement : Charged 0 inner element)
    (hlt : ∀ ⦃s v t⦄, element s = .ok (v, t) → inner v + 1 + s.pos ≤ t.pos) (expected : String)
    (items : List α) : Charged (countItems inner items)
      (Flow.weight (countItems inner) (countItems inner))
      (parenListStep element expected items) := by
  rw [parenListStep_eq, chargeItem_eq]
  refine Metered.item_bind (w := fun v => countItems inner items + inner v)
    (helement.shift (countItems inner items)) (fun s v t h => ?_) fun item => ?_
  · have := hlt h
    omega
  · have hw : ∀ items' : List α, items' = items ++ [item] →
        countItems inner items' = countItems inner items + inner item + 1 := by
      rintro _ rfl
      exact countItems_append inner items item
    refine .blind_bind peek_uncharged fun d => .ite ?_ (.ite ?_ (.fail _))
    · exact .blind_bind .advance fun _ => .pure _ (hw _ rfl)
    · exact .blind_bind .advance fun _ => .pure _ (hw _ rfl)

theorem parseParenList_charged {element : ParserM α} {inner : α → ℕ}
    (helement : Charged 0 inner element)
    (hlt : ∀ ⦃s v t⦄, element s = .ok (v, t) → inner v + 1 + s.pos ≤ t.pos) (expected : String) :
    Charged 0 (countItems inner) (parseParenList element expected) := by
  have hloop : Charged (countItems inner []) (countItems inner)
      (iterate .unexpectedEof (parenListStep element expected) []) :=
    Metered.iterate (parenListStep_charged helement hlt expected) []
  refine .blind_bind (consumeByte_uncharged _) fun _ => .blind_bind (.tryConsume _) fun _ => ?_
  exact .ite (.pure _ rfl) hloop

theorem parseParenAtomList_charged : Charged 0 List.length parseParenAtomList := by
  have hlist := parseParenList_charged (Metered.blind parseFlagOrAtom_uncharged 0)
    (fun s v t h => by have := parseFlagOrAtom_lt h; omega) "expected SP or ) in list"
  rwa [show countItems (fun _ => 0) = List.length from funext countItems_zero] at hlist

theorem capabilityStep_charged (caps : List Str) :
    Charged caps.length (Flow.weight List.length List.length) (capabilityStep caps) := by
  rw [capabilityStep_eq, chargeItem_eq]
  refine .blind_bind (.tryConsume _) fun b => .ite ?_ (.pure _ rfl)
  refine Metered.item_bind (.blind parseAtom_uncharged caps.length) (fun s v t h => ?_)
    fun cap => ?_
  · have := parseAtom_lt h
    omega
  · exact .pure _ (List.length_append ..)

theorem parseCapabilities_charged : Charged 0 List.length parseCapabilities := by
  have hloop : Charged ([] : List Str).length List.length
      (iterate .unexpectedEof capabilityStep []) := Metered.iterate capabilityStep_charged []
  exact hloop

/-- An argument after SP. -/
theorem spaced_charged {w : α → ℕ} {w' : β → ℕ} {p : ParserM α} (hp : Charged c w p) (g : α → β)
    (h : ∀ a, w' (g a) = w a) : Charged c w' (consumeSp >>= fun _ => p >>= fun a => pure (g a)) :=
  .blind_bind consumeSp_uncharged fun _ => Charged.map hp g h

end Charged

/-! ### Response codes and text -/

theorem respTextCodeArgs_charged (atom : Str) :
    Charged 0 ResponseCode.items (respTextCodeArgs atom) := by
  have hnumber := Metered.blind parseNumber_uncharged 0
  refine .ite (.pure _ rfl) (.ite (.pure _ rfl) (.ite (.pure _ rfl) (.ite (.pure _ rfl)
    (.ite (.pure _ rfl) ?_))))
  refine .ite (spaced_charged hnumber _ fun _ => rfl) (.ite (spaced_charged hnumber _ fun _ => rfl)
    (.ite (spaced_charged hnumber _ fun _ => rfl) ?_))
  refine .ite (Charged.map parseCapabilities_charged _ fun _ => rfl) ?_
  refine .ite (spaced_charged parseParenAtomList_charged _ fun _ => rfl) (.ite ?_ ?_)
  · exact .blind_bind (.tryConsume _) fun _ =>
      .ite (Charged.map parseParenAtomList_charged _ fun _ => rfl) (.pure _ rfl)
  · exact .blind_bind (.tryConsume _) fun _ =>
      .ite (Uncharged.map (readUntilByte_uncharged _) _ fun _ => rfl) (.pure _ rfl)

theorem parseRespTextPrefix_charged : Charged 0 codeItems parseRespTextPrefix := by
  refine .blind_bind (.tryConsume _) fun _ => .ite ?_ (.pure _ rfl)
  refine Metered.bind (w := ResponseCode.items)
    (.blind_bind parseCodeAtom_uncharged respTextCodeArgs_charged) fun code => ?_
  exact .blind_bind (consumeByte_uncharged _) fun _ =>
    Uncharged.map (.tryConsume _) (fun _ => some code) fun _ => rfl

theorem parseRespText_charged : Charged 0 (fun r => codeItems r.1) parseRespText :=
  Metered.bind parseRespTextPrefix_charged fun code =>
    Uncharged.map parseText_uncharged (fun text => (code, text)) fun _ => rfl

theorem parseRespTextAfterKeyword_charged :
    Charged 0 (fun r => codeItems r.1) parseRespTextAfterKeyword :=
  .blind_bind (.tryConsume _) fun _ => .ite parseRespText_charged (.pure _ rfl)

/-! ### FETCH attributes -/

theorem parseBodySection_charged : Charged 0 FetchAttribute.items parseBodySection :=
  .blind_bind (readUntilByte_uncharged _) fun _ => .blind_bind (consumeByte_uncharged _) fun _ =>
    .blind_bind parseOrigin_uncharged fun _ => .blind_bind consumeSp_uncharged fun _ =>
      Uncharged.map parseNstringBytesOptional_uncharged _ fun _ => rfl

theorem fetchAttValue_charged (name : Str) :
    Charged 0 FetchAttribute.items (fetchAttValue name) := by
  have hnumber := Metered.blind parseNumber_uncharged 0
  have hbytes := Metered.blind parseNstringBytes_uncharged 0
  have hparens := Metered.blind parseBalancedParens_uncharged 0
  refine .ite (spaced_charged hnumber _ fun _ => rfl)
    (.ite (spaced_charged parseParenAtomList_charged _ fun _ => rfl) ?_)
  refine .ite (spaced_charged (.blind parseQuoted_uncharged 0) _ fun _ => rfl)
    (.ite (spaced_charged hnumber _ fun _ => rfl) ?_)
  refine .ite (spaced_charged hbytes _ fun _ => rfl) (.ite (spaced_charged hbytes _ fun _ => rfl)
    (.ite (spaced_charged hbytes _ fun _ => rfl) ?_))
  refine .ite (spaced_charged hparens _ fun _ => rfl) (.ite (spaced_charged hparens _ fun _ => rfl)
    (.ite ?_ (.fail _)))
  exact .blind_bind (.tryConsume _) fun _ =>
    .ite parseBodySection_charged (spaced_charged hparens _ fun _ => rfl)

theorem parseOneFetchAtt_charged : Charged 0 FetchAttribute.items parseOneFetchAtt :=
  .blind_bind parseFetchAttName_uncharged fetchAttValue_charged

/-- The name of an attribute is not part of any list inside it. -/
theorem parseOneFetchAtt_lt ⦃s : Parser⦄ ⦃v : FetchAttribute⦄ ⦃t : Parser⦄
    (h : parseOneFetchAtt s = .ok (v, t)) : v.items + 1 + s.pos ≤ t.pos := by
  obtain ⟨name, u, hname, hvalue⟩ := run_bind_eq_ok h
  have hlt := parseFetchAttName_lt hname
  rw [← itemMeter.fill_left u] at hvalue
  have hle := ((fetchAttValue_charged name).ok (Nat.le_refl _) hvalue).2.1
  omega

theorem parseFetchMsgAtt_charged : Charged 0 (countItems FetchAttribute.items) parseFetchMsgAtt :=
  parseParenList_charged parseOneFetchAtt_charged parseOneFetchAtt_lt _

/-! ### Data responses -/

theorem parseStatusItem_uncharged : Uncharged parseStatusItem :=
  parseAtom_uncharged.bind fun _ => consumeSp_uncharged.bind fun _ =>
    parseNumber_uncharged.bind fun _ => .pure _

theorem parseStatusItem_lt ⦃s : Parser⦄ ⦃v : StatusItem⦄ ⦃t : Parser⦄
    (h : parseStatusItem s = .ok (v, t)) : s.pos < t.pos := by
  obtain ⟨key, u, hkey, hvalue⟩ := run_bind_eq_ok h
  have hle := (consumeSp_uncharged.bind fun _ => parseNumber_uncharged.bind fun n =>
    Blind.pure (statusItem key n)).le hvalue
  exact Nat.lt_of_lt_of_le (parseAtom_lt hkey) hle

theorem parseStatusItems_charged : Charged 0 List.length parseStatusItems := by
  have hlist := parseParenList_charged (Metered.blind parseStatusItem_uncharged 0)
    (fun s v t h => by have := parseStatusItem_lt h; omega) "expected SP or ) in STATUS items"
  rwa [show countItems (fun _ => 0) = List.length from funext countItems_zero] at hlist

theorem parseListLsubBody_charged : Charged 0 (fun r => r.1.length) parseListLsubBody :=
  Metered.bind parseParenAtomList_charged fun flags => .blind_bind consumeSp_uncharged fun _ =>
    .blind_bind parseNstring_uncharged fun delimiter => .blind_bind consumeSp_uncharged fun _ =>
      Uncharged.map parseAstring_uncharged (fun name => (flags, delimiter, name)) fun _ => rfl

theorem parseSearchIds_uncharged : Uncharged parseSearchIds :=
  .iterate (by simp) searchStep_uncharged []

theorem namedData_charged {name : Str} {body : ParserM DataResponse}
    (h : namedData name = some body) : Charged 0 DataResponse.items body := by
  rw [namedData] at h
  split at h
  · cases h
    exact Charged.map parseCapabilities_charged _ fun _ => rfl
  split at h
  · cases h
    exact spaced_charged parseListLsubBody_charged _ fun _ => rfl
  split at h
  · cases h
    exact spaced_charged parseListLsubBody_charged _ fun _ => rfl
  split at h
  · cases h
    exact .blind_bind consumeSp_uncharged fun _ => .blind_bind parseAstring_uncharged fun _ =>
      spaced_charged parseStatusItems_charged _ fun _ => rfl
  split at h
  · cases h
    exact Uncharged.map parseSearchIds_uncharged _ fun _ => rfl
  split at h
  · cases h
    exact spaced_charged parseParenAtomList_charged _ fun _ => rfl
  · cases h

theorem rawLine_charged (lineStart : ℕ) : Charged 0 Response.items (do
    skipWhile isRawLineChar
    let line ← sliceFrom lineStart
    consumeCrlf
    pure (.data (.other ⟨lineStart, line⟩))) :=
  .blind_bind (.skipWhile _) fun _ => .blind_bind (.sliceFrom _) fun line =>
    Uncharged.map consumeCrlf_uncharged
      (fun _ => Response.data (.other ⟨lineStart, line⟩)) fun _ => rfl

theorem currentLineStart_uncharged :
    Uncharged (fun s => .ok (findCurrentLineStart s.input s.pos, s) : ParserM ℕ) :=
  .of_input (fun x i => .ok (findCurrentLineStart x i, i)) (fun _ => rfl)
    (fun _ _ _ _ h => by cases h; exact Nat.le_refl _) fun _ _ h => nomatch h

theorem finishOtherDataWithPrefix_charged :
    Charged 0 Response.items finishOtherDataWithPrefix :=
  .blind_bind currentLineStart_uncharged rawLine_charged

/-- The end of the line after a response of `n` items. -/
theorem line_charged {α : Type} {c : ℕ} {w : α → ℕ} {p : ParserM α} (hp : Charged c w p)
    (g : α → Response) (h : ∀ a, (g a).items = w a) :
    Charged c Response.items (p >>= fun a => consumeCrlf >>= fun _ => pure (g a)) :=
  Metered.bind hp fun a => Uncharged.map consumeCrlf_uncharged (fun _ => g a) fun _ => h a

theorem parseNumericDataResponse_charged :
    Charged 0 Response.items parseNumericDataResponse := by
  have hcrlf : ∀ d : DataResponse, d.items = 0 → Charged 0 Response.items
      (consumeCrlf >>= fun _ => pure (.data d)) := fun d hd =>
    Uncharged.map consumeCrlf_uncharged (fun _ => Response.data d) fun _ => hd
  refine .blind_bind parseNumber_uncharged fun n => .blind_bind consumeSp_uncharged fun _ =>
    .blind_bind parseAtom_uncharged fun kind => ?_
  refine .ite (hcrlf _ rfl) (.ite (hcrlf _ rfl) (.ite (hcrlf _ rfl) (.ite ?_
    finishOtherDataWithPrefix_charged)))
  exact .blind_bind consumeSp_uncharged fun _ =>
    line_charged parseFetchMsgAtt_charged (fun attributes => .data (.fetch n attributes))
      fun _ => rfl

theorem parseNamedDataResponse_charged : Charged 0 Response.items parseNamedDataResponse := by
  refine .blind_bind .position fun lineStart => .blind_bind parseAtom_uncharged fun name => ?_
  cases hbody : namedData name with
  | some body => exact line_charged (namedData_charged hbody) Response.data fun _ => rfl
  | none => exact rawLine_charged lineStart

/-! ### Top-level dispatch -/

theorem finishStatus_charged (tag : Option Str) (status : Status) :
    Charged 0 Response.items (finishStatus tag status) :=
  line_charged parseRespTextAfterKeyword_charged
    (fun r => .status ⟨tag, status, r.1, r.2⟩) fun _ => rfl

theorem parseContinueReq_charged : Charged 0 Response.items parseContinueReq :=
  .blind_bind (consumeByte_uncharged _) fun _ => .blind_bind consumeSp_uncharged fun _ =>
    line_charged parseRespText_charged (fun r => .continue ⟨r.1, r.2⟩) fun _ => rfl

theorem parseUntagged_charged : Charged 0 Response.items parseUntagged := by
  refine .blind_bind (consumeByte_uncharged _) fun _ => .blind_bind consumeSp_uncharged fun _ =>
    .blind_bind tryParseStatusKeyword_uncharged fun status => ?_
  cases status with
  | some status => exact finishStatus_charged none status
  | none =>
    exact .blind_bind peek_uncharged fun _ =>
      .ite parseNumericDataResponse_charged parseNamedDataResponse_charged

theorem parseTagged_charged : Charged 0 Response.items parseTagged := by
  refine .blind_bind parseTag_uncharged fun tag => .blind_bind consumeSp_uncharged fun _ =>
    .blind_bind tryParseStatusKeyword_uncharged fun status => ?_
  cases status with
  | some status => exact finishStatus_charged (some tag) status
  | none =>
    intro s n N _
    by_cases hkeyword : couldBeStatusKeywordPrefix (s.input.drop s.pos) = true <;>
      simp [hkeyword]

theorem parseResponse_charged : Charged 0 Response.items parseResponse :=
  .blind_bind isEof_uncharged fun _ => .ite (.fail _) <| .blind_bind peek_uncharged fun _ =>
    .ite parseContinueReq_charged (.ite parseUntagged_charged parseTagged_charged)

/-! ### A budget that lasts -/

/-- Readers that never use up a budget as large as what is left to read. -/
abbrev Lasting {α : Type} (lo : ℕ) (p : ParserM α) : Prop := Solvent itemMeter lo none p

section Lasting

variable {α β : Type} {lo : ℕ}

theorem Lasting.uncharged_bind {p : ParserM α} {q : α → ParserM β} (hp : Uncharged p)
    (hb : Bounded lo none p) (hq : ∀ a, Lasting lo (q a)) : Lasting lo (p >>= q) :=
  .blind_bind hb hp hq

theorem Lasting.sp_bind {q : Unit → ParserM β} (hq : ∀ a, Lasting lo (q a)) :
    Lasting lo (consumeSp >>= q) :=
  .blind_bind (consumeByte_lawful _).bounded consumeSp_uncharged hq

theorem Lasting.try_bind {b : UInt8} {q : Bool → ParserM β} (hq : ∀ a, Lasting lo (q a)) :
    Lasting lo (tryConsumeByte b >>= q) :=
  .blind_bind (.tryConsume b) (.tryConsume b) hq

/-- A charged reader followed by one that charges nothing. -/
theorem Lasting.then_uncharged {w : α → ℕ} {p : ParserM α} {q : α → ParserM β}
    (hb : Bounded lo none p) (hw : Charged 0 w p) (hp : Lasting lo p)
    (hq : ∀ a, Uncharged (q a)) : Lasting lo (p >>= q) :=
  .bind hb hw hp fun a => .blind (hq a)

theorem parenListStep_lasting {element : ParserM α} {inner : α → ℕ}
    (helement : Element true element)
    (hw : Charged 0 inner element)
    (hlt : ∀ ⦃s v t⦄, element s = .ok (v, t) → inner v + 1 + s.pos ≤ t.pos)
    (h : Lasting lo element) (expected : String) (items : List α) :
    Lasting lo (parenListStep element expected items) := by
  rw [parenListStep_eq, chargeItem_eq]
  refine .item_bind helement.bounded hw (fun s v t hr => ?_) h fun item => .blind ?_
  · rw [Nat.zero_add]
    exact hlt hr
  · exact peek_uncharged.bind fun _ => .ite (Blind.advance.bind fun _ => .pure _)
      (.ite (Blind.advance.bind fun _ => .pure _) (.fail (by simp)))

theorem parseParenList_lasting {element : ParserM α} {inner : α → ℕ}
    (helement : Element true element) (hw : Charged 0 inner element)
    (hlt : ∀ ⦃s v t⦄, element s = .ok (v, t) → inner v + 1 + s.pos ≤ t.pos)
    (h : Lasting lo element) (expected : String) :
    Lasting lo (parseParenList element expected) := by
  refine Lasting.uncharged_bind (consumeByte_uncharged _) (consumeByte_lawful _).bounded fun _ =>
    Lasting.try_bind fun _ => .ite (.blind (.pure _)) ?_
  exact .iterate (by simp) (fun items => (parenListStep_lawful helement items).bounded)
    (parenListStep_charged hw hlt expected) (parenListStep_lasting helement hw hlt h expected) []

theorem parseParenAtomList_lasting : Lasting lo parseParenAtomList :=
  parseParenList_lasting parseFlagOrAtom_element (.blind parseFlagOrAtom_uncharged 0)
    (fun s v t h => by have := parseFlagOrAtom_lt h; omega) (.blind parseFlagOrAtom_uncharged) _

theorem capabilityStep_lasting (caps : List Str) : Lasting lo (capabilityStep caps) := by
  rw [capabilityStep_eq, chargeItem_eq]
  refine Lasting.try_bind fun _ => .ite ?_ (.blind (.pure _))
  refine .item_bind (bounded_of_assembled parseAtom_assembled) (.blind parseAtom_uncharged 0)
    (fun s v t h => ?_) (.blind parseAtom_uncharged) fun cap => .blind (.pure _)
  have := parseAtom_lt h
  omega

theorem parseCapabilities_lasting : Lasting lo parseCapabilities :=
  .iterate (by simp) (fun caps => bounded_of_assembled (capabilityStep_assembled caps))
    capabilityStep_charged capabilityStep_lasting []

/-- An argument after SP. -/
theorem spaced_lasting {w : α → ℕ} {p : ParserM α} (hb : Bounded lo none p) (hw : Charged 0 w p)
    (hp : Lasting lo p) (g : α → β) :
    Lasting lo (consumeSp >>= fun _ => p >>= fun a => pure (g a)) :=
  Lasting.sp_bind fun _ => Lasting.then_uncharged hb hw hp fun _ => .pure _

theorem respTextCodeArgs_lasting (atom : Str) : Lasting lo (respTextCodeArgs atom) := by
  have hspaced : ∀ {γ : Type} (p : ParserM γ) (g : γ → ResponseCode), Uncharged p →
      Lasting lo (consumeSp >>= fun _ => p >>= fun a => pure (g a)) := fun p g hp =>
    .blind (consumeSp_uncharged.bind fun _ => hp.bind fun _ => .pure _)
  have hlist : Bounded lo none parseParenAtomList :=
    bounded_of_assembled parseParenAtomList_assembled
  refine .ite (.blind (.pure _)) (.ite (.blind (.pure _)) (.ite (.blind (.pure _))
    (.ite (.blind (.pure _)) (.ite (.blind (.pure _)) ?_))))
  refine .ite (hspaced _ _ parseNumber_uncharged) (.ite (hspaced _ _ parseNumber_uncharged)
    (.ite (hspaced _ _ parseNumber_uncharged) ?_))
  refine .ite (Lasting.then_uncharged (bounded_of_assembled parseCapabilities_assembled)
    parseCapabilities_charged parseCapabilities_lasting fun _ => .pure _) ?_
  refine .ite (spaced_lasting hlist parseParenAtomList_charged parseParenAtomList_lasting _)
    (.ite ?_ (.blind ?_))
  · exact Lasting.try_bind fun _ => .ite (Lasting.then_uncharged hlist parseParenAtomList_charged
      parseParenAtomList_lasting fun _ => .pure _) (.blind (.pure _))
  · exact (Blind.tryConsume _).bind fun _ =>
      .ite ((readUntilByte_uncharged _).bind fun _ => .pure _) (.pure _)

theorem parseRespTextCode_charged : Charged 0 ResponseCode.items parseRespTextCode :=
  .blind_bind parseCodeAtom_uncharged respTextCodeArgs_charged

theorem parseRespTextPrefix_lasting : Lasting lo parseRespTextPrefix := by
  refine Lasting.try_bind fun _ => .ite ?_ (.blind (.pure _))
  refine Lasting.then_uncharged (bounded_of_assembled parseRespTextCode_assembled)
    parseRespTextCode_charged ?_ fun _ => ?_
  · exact Lasting.uncharged_bind parseCodeAtom_uncharged
      (bounded_of_assembled parseCodeAtom_assembled)
      respTextCodeArgs_lasting
  · exact (consumeByte_uncharged _).bind fun _ => (Blind.tryConsume _).bind fun _ => .pure _

theorem parseRespText_lasting : Lasting lo parseRespText :=
  Lasting.then_uncharged (bounded_of_assembled parseRespTextPrefix_assembled)
    parseRespTextPrefix_charged
    parseRespTextPrefix_lasting fun _ => parseText_uncharged.bind fun _ => .pure _

theorem parseRespTextAfterKeyword_lasting : Lasting lo parseRespTextAfterKeyword :=
  Lasting.try_bind fun _ => .ite parseRespText_lasting (.blind (.pure _))

theorem fetchAttValue_lasting (name : Str) : Lasting lo (fetchAttValue name) := by
  have hspaced : ∀ {γ : Type} {p : ParserM γ} (g : γ → FetchAttribute), Uncharged p →
      Lasting lo (consumeSp >>= fun _ => p >>= fun a => pure (g a)) := fun g hp =>
    .blind (consumeSp_uncharged.bind fun _ => hp.bind fun _ => .pure _)
  have hsection : Uncharged parseBodySection :=
    (readUntilByte_uncharged _).bind fun _ => (consumeByte_uncharged _).bind fun _ =>
      parseOrigin_uncharged.bind fun _ => consumeSp_uncharged.bind fun _ =>
        parseNstringBytesOptional_uncharged.bind fun _ => .pure _
  refine .ite (hspaced _ parseNumber_uncharged) (.ite (spaced_lasting
    (bounded_of_assembled parseParenAtomList_assembled) parseParenAtomList_charged
    parseParenAtomList_lasting _) ?_)
  refine .ite (hspaced _ parseQuoted_uncharged) (.ite (hspaced _ parseNumber_uncharged) ?_)
  refine .ite (hspaced _ parseNstringBytes_uncharged) (.ite (hspaced _ parseNstringBytes_uncharged)
    (.ite (hspaced _ parseNstringBytes_uncharged) ?_))
  refine .ite (hspaced _ parseBalancedParens_uncharged)
    (.ite (hspaced _ parseBalancedParens_uncharged) (.ite ?_ (.blind (.fail (by simp)))))
  exact Lasting.try_bind fun _ => .ite (.blind hsection) (hspaced _ parseBalancedParens_uncharged)

theorem parseOneFetchAtt_lasting : Lasting lo parseOneFetchAtt :=
  Lasting.uncharged_bind parseFetchAttName_uncharged parseFetchAttName_bounded fetchAttValue_lasting

theorem parseFetchMsgAtt_lasting : Lasting lo parseFetchMsgAtt :=
  parseParenList_lasting parseOneFetchAtt_element parseOneFetchAtt_charged parseOneFetchAtt_lt
    parseOneFetchAtt_lasting _

theorem parseStatusItems_lasting : Lasting lo parseStatusItems :=
  parseParenList_lasting parseStatusItem_element (.blind parseStatusItem_uncharged 0)
    (fun s v t h => by have := parseStatusItem_lt h; omega) (.blind parseStatusItem_uncharged) _

theorem parseListLsubBody_lasting : Lasting lo parseListLsubBody :=
  Lasting.then_uncharged (bounded_of_assembled parseParenAtomList_assembled)
    parseParenAtomList_charged
    parseParenAtomList_lasting fun _ => consumeSp_uncharged.bind fun _ =>
      parseNstring_uncharged.bind fun _ => consumeSp_uncharged.bind fun _ =>
        parseAstring_uncharged.bind fun _ => .pure _

theorem namedData_lasting {name : Str} {body : ParserM DataResponse}
    (h : namedData name = some body) : Lasting lo body := by
  have hlist : ∀ g : List Str × Option Str × Str → DataResponse, Lasting lo
      (consumeSp >>= fun _ => parseListLsubBody >>= fun r => pure (g r)) :=
    spaced_lasting (bounded_of_assembled parseListLsubBody_assembled) parseListLsubBody_charged
      parseListLsubBody_lasting
  rw [namedData] at h
  split at h
  · cases h
    exact Lasting.then_uncharged (bounded_of_assembled parseCapabilities_assembled)
      parseCapabilities_charged parseCapabilities_lasting fun _ => .pure _
  split at h
  · cases h
    exact hlist _
  split at h
  · cases h
    exact hlist _
  split at h
  · cases h
    exact Lasting.sp_bind fun _ => Lasting.uncharged_bind parseAstring_uncharged
      (bounded_of_assembled parseAstring_assembled) fun _ => spaced_lasting
        (bounded_of_assembled parseStatusItems_assembled) parseStatusItems_charged
        parseStatusItems_lasting _
  split at h
  · cases h
    exact .blind (parseSearchIds_uncharged.bind fun _ => .pure _)
  split at h
  · cases h
    exact spaced_lasting (bounded_of_assembled parseParenAtomList_assembled)
      parseParenAtomList_charged parseParenAtomList_lasting _
  · cases h

theorem rawLine_uncharged (lineStart : ℕ) : Uncharged (do
    skipWhile isRawLineChar
    let line ← sliceFrom lineStart
    consumeCrlf
    pure (.data (.other ⟨lineStart, line⟩)) : ParserM Response) :=
  (Blind.skipWhile _).bind fun _ => (Blind.sliceFrom _).bind fun _ =>
    consumeCrlf_uncharged.bind fun _ => .pure _

theorem parseNumericDataResponse_lasting : Lasting lo parseNumericDataResponse := by
  have hcrlf : ∀ r : Response, Lasting lo (consumeCrlf >>= fun _ => pure r) := fun r =>
    .blind (consumeCrlf_uncharged.bind fun _ => .pure _)
  refine Lasting.uncharged_bind parseNumber_uncharged parseNumber_lawful.bounded fun n =>
    Lasting.sp_bind fun _ => Lasting.uncharged_bind parseAtom_uncharged
      (bounded_of_assembled parseAtom_assembled) fun kind => ?_
  refine .ite (hcrlf _) (.ite (hcrlf _) (.ite (hcrlf _) (.ite ?_ ?_)))
  · exact Lasting.sp_bind fun _ => Lasting.then_uncharged
      (bounded_of_assembled parseFetchMsgAtt_assembled) parseFetchMsgAtt_charged
      parseFetchMsgAtt_lasting fun _ => consumeCrlf_uncharged.bind fun _ => .pure _
  · exact .blind (currentLineStart_uncharged.bind rawLine_uncharged)

theorem parseNamedDataResponse_lasting : Lasting lo parseNamedDataResponse := by
  refine .position_bind fun lineStart => Lasting.uncharged_bind parseAtom_uncharged
    (bounded_of_assembled parseAtom_assembled) fun name => ?_
  cases hbody : namedData name with
  | some body =>
    exact Lasting.then_uncharged (bounded_of_assembled (namedData_assembled hbody))
      (namedData_charged hbody) (namedData_lasting hbody) fun _ =>
        consumeCrlf_uncharged.bind fun _ => .pure _
  | none => exact .blind (rawLine_uncharged lineStart)

theorem finishStatus_lasting (tag : Option Str) (status : Status) :
    Lasting lo (finishStatus tag status) :=
  Lasting.then_uncharged (bounded_of_assembled parseRespTextAfterKeyword_assembled)
    parseRespTextAfterKeyword_charged parseRespTextAfterKeyword_lasting fun _ =>
      consumeCrlf_uncharged.bind fun _ => .pure _

theorem parseContinueReq_lasting : Lasting lo parseContinueReq :=
  Lasting.uncharged_bind (consumeByte_uncharged _) (consumeByte_lawful _).bounded fun _ =>
    Lasting.sp_bind fun _ => Lasting.then_uncharged
      (bounded_of_assembled parseRespText_assembled) parseRespText_charged parseRespText_lasting
      fun _ => consumeCrlf_uncharged.bind fun _ => .pure _

theorem parseUntagged_lasting : Lasting lo parseUntagged := by
  refine Lasting.uncharged_bind (consumeByte_uncharged _) (consumeByte_lawful _).bounded fun _ =>
    Lasting.sp_bind fun _ => Lasting.uncharged_bind tryParseStatusKeyword_uncharged
      tryParseStatusKeyword_bounded fun status => ?_
  cases status with
  | some status => exact finishStatus_lasting none status
  | none =>
    exact Lasting.uncharged_bind peek_uncharged peek_bounded fun _ =>
      .ite parseNumericDataResponse_lasting parseNamedDataResponse_lasting

theorem parseTagged_lasting : Lasting lo parseTagged := by
  refine Lasting.uncharged_bind parseTag_uncharged (bounded_of_assembled parseTag_assembled)
    fun tag => Lasting.sp_bind fun _ => Lasting.uncharged_bind tryParseStatusKeyword_uncharged
      tryParseStatusKeyword_bounded fun status => ?_
  cases status with
  | some status => exact finishStatus_lasting (some tag) status
  | none =>
    intro s _ h
    exact absurd h (by dsimp only; split <;> simp)

theorem parseResponse_lasting : Lasting lo parseResponse :=
  Lasting.uncharged_bind isEof_uncharged
    (fun s v t hs h => by cases h; exact .refl hs.valid) fun _ => .ite (.blind (.fail (by simp))) <|
      Lasting.uncharged_bind peek_uncharged peek_bounded fun _ =>
        .ite parseContinueReq_lasting (.ite parseUntagged_lasting parseTagged_lasting)

end Lasting

end Parser

/-! ### The budget is exact -/

/-- The parser on a budget of `n`. -/
theorem parseResponseWith_eq (n : ℕ) (input : Bytes) : parseResponseWith n input
    = match Parser.parseResponse (Parser.itemMeter.fill n (Parser.new input)) with
      | .ok (response, parser) => .ok (parser.rest, response)
      | .error e => .error e := rfl

theorem filled_meets (n : ℕ) (input : Bytes) :
    (Parser.itemMeter.fill n (Parser.new input)).Meets 0 none := .zero (Nat.zero_le _)

/-- A run on a budget of `N` says what happens on a smaller one. -/
theorem parseResponseWith_of_ok {n N : ℕ} {input rest : Bytes} {r : Response} (hle : n ≤ N)
    (h : parseResponseWith N input = .ok (rest, r)) : r.items ≤ input.length ∧
      parseResponseWith n input = if r.items ≤ n then .ok (rest, r)
        else .error (.tooManyItems MAX_ITEMS_PER_RESPONSE) := by
  rw [parseResponseWith_eq] at h ⊢
  cases hrun : Parser.parseResponse (Parser.itemMeter.fill N (Parser.new input)) with
  | error e =>
    rw [hrun] at h
    cases h
  | ok run =>
    rw [hrun] at h
    cases h
    obtain ⟨-, hread, -, hsmall⟩ := Parser.parseResponse_charged.ok hle hrun
    have hpos := (Parser.parseResponse_framed.bounded (filled_meets _ input) hrun).pos_le
    refine ⟨?_, ?_⟩
    · simp only [Meter.fill_input, Parser.new] at hread hpos
      omega
    · rw [hsmall, Nat.add_zero]
      by_cases hfits : run.1.items ≤ n
      · rw [if_pos hfits, if_pos hfits]
        rfl
      · rw [if_neg hfits, if_neg hfits]
        rfl

theorem parseResponseWith_of_error {n N : ℕ} {input : Bytes} {e : ParseError} (hle : n ≤ N)
    (h : parseResponseWith N input = .error e) : parseResponseWith n input = .error e ∨
      parseResponseWith n input = .error (.tooManyItems MAX_ITEMS_PER_RESPONSE) := by
  rw [parseResponseWith_eq] at h ⊢
  cases hrun : Parser.parseResponse (Parser.itemMeter.fill N (Parser.new input)) with
  | ok run =>
    rw [hrun] at h
    cases h
  | error e' =>
    rw [hrun] at h
    cases h
    rcases Parser.parseResponse_charged.error hle hrun with h | h <;> rw [h]
    · exact .inl rfl
    · exact .inr rfl

/-- A budget as large as the input is not used up. -/
theorem parseResponseWith_ne_over {n : ℕ} {input : Bytes} (hle : input.length ≤ n) :
    parseResponseWith n input ≠ .error (.tooManyItems MAX_ITEMS_PER_RESPONSE) := by
  intro h
  rw [parseResponseWith_eq] at h
  cases hrun : Parser.parseResponse (Parser.itemMeter.fill n (Parser.new input)) with
  | ok run =>
    rw [hrun] at h
    cases h
  | error e =>
    rw [hrun] at h
    cases h
    have hlt := Parser.parseResponse_lasting (filled_meets _ input) hrun
    rw [Parser.itemMeter.left_fill] at hlt
    exact absurd hle (Nat.not_le_of_lt hlt)

/-- So larger ones make no difference. -/
theorem parseResponseWith_of_length_le {n : ℕ} {input : Bytes} (hle : input.length ≤ n) :
    parseResponseWith n input = parseResponseUnbudgeted input := by
  cases h : parseResponseWith n input with
  | ok run =>
    obtain ⟨hitems, hsmall⟩ := parseResponseWith_of_ok hle h
    rw [parseResponseUnbudgeted, hsmall, if_pos hitems]
  | error e =>
    rcases parseResponseWith_of_error hle h with hsmall | hsmall
    · exact hsmall.symm
    · exact absurd hsmall (parseResponseWith_ne_over (Nat.le_refl _))

/-- An accepted response is within the budget. -/
theorem items_le_of_ok {input rest : Bytes} {r : Response}
    (h : parseResponse input = .ok (rest, r)) : r.items ≤ MAX_ITEMS_PER_RESPONSE := by
  have hreal : parseResponseWith MAX_ITEMS_PER_RESPONSE input = .ok (rest, r) := h
  have hself := (parseResponseWith_of_ok (Nat.le_refl _) hreal).2
  rw [hreal] at hself
  by_contra hover
  rw [if_neg hover] at hself
  cases hself

/-- **The item budget is exact.** The parser without a budget is the parser on any budget that the
input cannot use up. Where it returns a response whose lists hold no more than the budget, so does
`parse_response`; where they hold more, `parse_response` gives up; and where it fails,
`parse_response` fails. -/
theorem parseResponse_items (input : Bytes) :
    (∀ n, input.length ≤ n → parseResponseWith n input = parseResponseUnbudgeted input ∧
      parseResponseWith n input ≠ .error (.tooManyItems MAX_ITEMS_PER_RESPONSE)) ∧
    (∀ rest r, parseResponseUnbudgeted input = .ok (rest, r) →
      r.items ≤ MAX_ITEMS_PER_RESPONSE → parseResponse input = .ok (rest, r)) ∧
    (∀ rest r, parseResponseUnbudgeted input = .ok (rest, r) → MAX_ITEMS_PER_RESPONSE < r.items →
      parseResponse input = .error (.tooManyItems MAX_ITEMS_PER_RESPONSE)) ∧
    (∀ e, parseResponseUnbudgeted input = .error e → parseResponse input = .error e ∨
      parseResponse input = .error (.tooManyItems MAX_ITEMS_PER_RESPONSE)) ∧
    ∀ rest r, parseResponse input = .ok (rest, r) → r.items ≤ MAX_ITEMS_PER_RESPONSE := by
  -- a budget at least as large as the input and as the real one
  have hlarge := parseResponseWith_of_length_le
    (Nat.le_max_left input.length MAX_ITEMS_PER_RESPONSE)
  have hsmall := Nat.le_max_right input.length MAX_ITEMS_PER_RESPONSE
  have hreal : parseResponse input = parseResponseWith MAX_ITEMS_PER_RESPONSE input := rfl
  rw [hreal, ← hlarge]
  refine ⟨fun n hle => ⟨?_, parseResponseWith_ne_over hle⟩, fun rest r h hitems => ?_,
    fun rest r h hitems => ?_, fun e h => parseResponseWith_of_error hsmall h,
    fun rest r h => items_le_of_ok h⟩
  · rw [parseResponseWith_of_length_le hle, hlarge]
  · rw [(parseResponseWith_of_ok hsmall h).2, if_pos hitems]
  · rw [(parseResponseWith_of_ok hsmall h).2, if_neg (Nat.not_le_of_lt hitems)]

end ImapRs
