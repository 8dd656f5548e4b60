import ImapRs.Core.Stalls

/-!
# Message content cannot influence framing

Two buffers that differ only inside the payload of a literal, and agree in its length, are parsed
in lockstep. Up to the payload the two runs read the same bytes; the literal is taken by its
announced length, whatever it holds; after it both runs read the same bytes again, and the only
thing they have kept of the payload is the attribute that carries it.

## Main definitions

* `FetchAttribute.payload`, `FetchAttribute.withPayload` — the message data of an attribute

## Main results

* `parseResponse_payload` — replacing a payload replaces one attribute's data and nothing else
-/

namespace ImapRs

open Incremental Incremental.Cursor

/-- The message data an attribute carries. -/
def FetchAttribute.payload : FetchAttribute → Option Slice
  | .rfc822 data | .rfc822Header data | .rfc822Text data => some data
  | .bodySection _ _ data => data
  | _ => none

/-- The attribute with other message data. -/
def FetchAttribute.withPayload (data : Slice) : FetchAttribute → FetchAttribute
  | .rfc822 _ => .rfc822 data
  | .rfc822Header _ => .rfc822Header data
  | .rfc822Text _ => .rfc822Text data
  | .bodySection sect origin _ => .bodySection sect origin (some data)
  | a => a

namespace Parser

variable {lo : ℕ} {next : Option UInt8} {att : Bool} {α β : Type}

/-! ### The literals decide nothing -/

/-- The same budget; the recorded literals may differ. -/
def SameBudget (a b : Budget) : Prop := a.itemsLeft = b.itemsLeft

theorem parseLiteral_simulates : Simulates SameBudget lo next parseLiteral := by
  intro s v t a hs ha hok
  obtain ⟨ds, hne, hdig, hlen, hmax, hrest, hoff, hpos, haux⟩ := parseLiteral_eq_ok hs.valid hok
  have hin := (parseLiteral_lawful.bounded hs hok).input
  have hrun := parseLiteral_of_rest (s := { s with aux := a }) hs.valid hne hdig hlen hmax hrest
  refine ⟨⟨a.itemsLeft, a.literals ++ [⟨⟨s.pos, literalHeader ds⟩, v⟩]⟩, ?_, ?_⟩
  · rw [haux]
    exact ha
  · rw [hin, hpos, hrun]
    simp only [← hoff]

theorem kit_respects (att : Bool) : (kit att).Respects SameBudget where
  cost := by
    intro a b a' hab h
    have h : chargeItem a = .ok a' := h
    rw [chargeItem] at h
    split at h
    · cases h
    next n hn =>
      cases h
      refine ⟨{ b with itemsLeft := n }, rfl, ?_⟩
      change chargeItem b = _
      rw [chargeItem, ← hab, hn]
  prim := by
    rintro lo α p (_ | _ | _ | _)
    · intro s v t a _ ha hok
      rw [parseNumber_run] at hok
      obtain ⟨hver, rfl⟩ := settle_eq_ok hok
      refine ⟨a, ha, ?_⟩
      rw [parseNumber_run]
      exact congrArg (settle _) hver
    · intro s v t a hs ha hok
      obtain ⟨hk, rfl⟩ := expectNil_eq_ok hs.valid hok
      refine ⟨a, ha, ?_⟩
      rw [expectNil_run (s := { s with aux := a }) hs.valid]
      exact if_pos hk
    · exact parseLiteral_simulates
    · intro s v t a _ ha hok
      rw [checkedAttName, run_position_bind, tokenFrom_eq] at hok
      obtain ⟨hver, rfl⟩ := settle_eq_ok hok
      exact ⟨a, ha, congrArg (settle _) hver⟩

/-! ### The list keeps what it has -/

theorem fetchLoop_eq {s : Parser} (hs : s.Meets 0 none) (items : List FetchAttribute) :
    fetchLoop items s = match fetchStep items s with
      | .ok (.again items', t) => fetchLoop items' t
      | .ok (.done items', t) => .ok (items', t)
      | .error e => .error e := by
  rw [fetchLoop, iterate_eq fetchStep_bounded fetchStep_progress hs]
  rcases fetchStep items s with e | ⟨_ | _, t⟩ <;> rfl

theorem fetchLoop_bounded (items : List FetchAttribute) : Bounded lo next (fetchLoop items) :=
  ((@parenListLoop_assembled _ _ _ _ _ _ parseOneFetchAtt_element items).lawful
    (kit_sound true)).bounded

/-- What one round adds, and that it does not depend on what the list holds. -/
theorem fetchStep_eq_ok {items : List FetchAttribute} {s t : Parser}
    {r : Flow (List FetchAttribute) (List FetchAttribute)} (h : fetchStep items s = .ok (r, t)) :
    ∃ a w b' c, parseOneFetchAtt s = .ok (a, w) ∧ chargeItem w.aux = .ok b' ∧
      w.input[w.pos]? = some c ∧ t = ⟨w.input, w.pos + 1, b'⟩ ∧
      (c = SP ∧ r = .again (items ++ [a]) ∨ c ≠ SP ∧ c = byte ')' ∧ r = .done (items ++ [a])) := by
  have hstep := h
  rw [fetchStep, parenListStep_eq] at hstep
  obtain ⟨a, w, hatt, hstep⟩ := run_bind_eq_ok hstep
  obtain ⟨_, w₁, hcharge, hstep⟩ := run_bind_eq_ok hstep
  obtain ⟨c, w₂, hpeek, _⟩ := run_bind_eq_ok hstep
  rw [charge] at hcharge
  split at hcharge
  case h_2 => cases hcharge
  next b' hb =>
    cases hcharge
    obtain ⟨hget, _⟩ := peek_eq_ok hpeek
    rw [fetchStep_of_ok hatt hb hget] at h
    by_cases hsp : c = SP
    · rw [if_pos hsp] at h
      cases h
      exact ⟨a, w, b', c, hatt, hb, hget, rfl, .inl ⟨hsp, rfl⟩⟩
    · rw [if_neg hsp] at h
      by_cases hpar : c = byte ')'
      · rw [if_pos hpar] at h
        cases h
        exact ⟨a, w, b', c, hatt, hb, hget, rfl, .inr ⟨hsp, hpar, rfl⟩⟩
      · rw [if_neg hpar] at h
        cases h

/-- **A round of the list.** The attribute that was read, and either the end of the list or the
rounds after it. -/
theorem fetchLoop_eq_ok {items v : List FetchAttribute} {s t : Parser} (hs : s.Meets 0 none)
    (h : fetchLoop items s = .ok (v, t)) :
    ∃ a w b' c, parseOneFetchAtt s = .ok (a, w) ∧ chargeItem w.aux = .ok b' ∧
      w.input[w.pos]? = some c ∧
      (c = SP ∧ fetchLoop (items ++ [a]) ⟨w.input, w.pos + 1, b'⟩ = .ok (v, t) ∨
        c ≠ SP ∧ c = byte ')' ∧ v = items ++ [a] ∧ t = ⟨w.input, w.pos + 1, b'⟩) := by
  rw [fetchLoop_eq hs] at h
  split at h
  next items' u hstep =>
    obtain ⟨a, w, b', c, hatt, hb, hget, rfl, ⟨hsp, hr⟩ | ⟨_, _, hr⟩⟩ := fetchStep_eq_ok hstep
    · cases hr
      exact ⟨a, w, b', c, hatt, hb, hget, .inl ⟨hsp, h⟩⟩
    · cases hr
  next items' u hstep =>
    obtain ⟨a, w, b', c, hatt, hb, hget, rfl, ⟨_, hr⟩ | ⟨hsp, hpar, hr⟩⟩ := fetchStep_eq_ok hstep
    · cases hr
    · cases hr
      cases h
      exact ⟨a, w, b', c, hatt, hb, hget, .inr ⟨hsp, hpar, rfl, rfl⟩⟩
  · cases h

theorem fetchLoop_of_sp {items : List FetchAttribute} {s w : Parser} {a : FetchAttribute}
    {b' : Budget} (hs : s.Meets 0 none) (hatt : parseOneFetchAtt s = .ok (a, w))
    (hb : chargeItem w.aux = .ok b') (hget : w.input[w.pos]? = some SP) :
    fetchLoop items s = fetchLoop (items ++ [a]) ⟨w.input, w.pos + 1, b'⟩ := by
  rw [fetchLoop_eq hs, fetchStep_of_ok hatt hb hget, if_pos rfl]

theorem fetchLoop_of_paren {items : List FetchAttribute} {s w : Parser} {a : FetchAttribute}
    {b' : Budget} (hs : s.Meets 0 none) (hatt : parseOneFetchAtt s = .ok (a, w))
    (hb : chargeItem w.aux = .ok b') (hget : w.input[w.pos]? = some (byte ')')) :
    fetchLoop items s = .ok (items ++ [a], ⟨w.input, w.pos + 1, b'⟩) := by
  rw [fetchLoop_eq hs, fetchStep_of_ok hatt hb hget, if_neg (by decide), if_pos rfl]

/-- What is already on the list is kept in front and decides nothing. -/
theorem fetchLoop_items : ∀ (items : List FetchAttribute) (s : Parser), s.Meets 0 none →
    ∀ v t, fetchLoop items s = .ok (v, t) →
      ∃ l, v = items ++ l ∧ ∀ items', fetchLoop items' s = .ok (items' ++ l, t) := by
  refine iterate_induction fetchStep_bounded fetchStep_progress fun items s hs ih v t hok => ?_
  obtain ⟨a, w, b', c, hatt, hb, hget, ⟨rfl, hrest⟩ | ⟨_, rfl, rfl, rfl⟩⟩ := fetchLoop_eq_ok hs hok
  · have hstep : fetchStep items s = .ok (.again (items ++ [a]), ⟨w.input, w.pos + 1, b'⟩) := by
      rw [fetchStep_of_ok hatt hb hget, if_pos rfl]
    obtain ⟨l, hl, hall⟩ := ih _ _ hstep v t hrest
    refine ⟨a :: l, by rw [hl]; simp, fun items' => ?_⟩
    rw [fetchLoop_of_sp hs hatt hb hget, hall]
    simp
  · exact ⟨[a], rfl, fun items' => fetchLoop_of_paren hs hatt hb hget⟩

/-! ### Two runs side by side -/

section Swap

variable {pre p p' suf : Bytes} (hlen : p'.length = p.length)

variable (p') in
theorem getElem?_before {i : ℕ} (h : i < pre.length) :
    (pre ++ (p' ++ suf))[i]? = (pre ++ (p ++ suf))[i]? := by
  rw [List.getElem?_append_left h, List.getElem?_append_left h]

include hlen in
theorem getElem?_after {i : ℕ} (h : pre.length + p.length ≤ i) :
    (pre ++ (p' ++ suf))[i]? = (pre ++ (p ++ suf))[i]? := by
  rw [List.getElem?_append_right (by omega), List.getElem?_append_right (by omega),
    List.getElem?_append_right (by omega), List.getElem?_append_right (by omega), hlen]

variable (p') in
/-- A reader that stops in front of the payload does the same in both runs. -/
theorem swap_before {r : ParserM α} (hr : Lawful .incomplete 0 none r) {s t : Parser} {v : α}
    (hv : s.Valid) (hin : s.input = pre ++ (p ++ suf)) (hok : r s = .ok (v, t))
    (hlt : t.pos < pre.length) :
    r ⟨pre ++ (p' ++ suf), s.pos, s.aux⟩ = .ok (v, ⟨pre ++ (p' ++ suf), t.pos, t.aux⟩) := by
  refine hr.determined (Meets.zero hv) hok ?_ fun i _ hi => ?_
  · rw [hin, List.length_append]
    omega
  · rw [hin]
    exact getElem?_before p' (Nat.lt_of_le_of_lt hi hlt)

/-- In the second run, `f` reads the same attribute with the payload replaced, and ends behind
the payload. -/
def Swaps (pre p p' suf : Bytes) (f : ParserM FetchAttribute) : Prop :=
  ∀ ⦃s a w⦄, s.Valid → s.input = pre ++ (p ++ suf) → f s = .ok (a, w) →
    a.payload = some ⟨pre.length, p⟩ →
    s.pos < pre.length ∧ w.pos = pre.length + p.length ∧ ∃ aux, SameBudget w.aux aux ∧
      f ⟨pre ++ (p' ++ suf), s.pos, s.aux⟩
        = .ok (a.withPayload ⟨pre.length, p'⟩, ⟨pre ++ (p' ++ suf), w.pos, aux⟩)

theorem Swaps.bind {r : ParserM α} {f : α → ParserM FetchAttribute}
    (hr : Lawful .incomplete 0 none r) (hf : ∀ v, Swaps pre p p' suf (f v)) :
    Swaps pre p p' suf (r >>= f) := by
  intro s a w hv hin hok hpay
  obtain ⟨v, u, hru, hfu⟩ := run_bind_eq_ok hok
  have hm := hr.bounded (Meets.zero hv) hru
  obtain ⟨hlt, hpos, aux, haux, hrun⟩ := hf v hm.valid (hm.input.trans hin) hfu hpay
  refine ⟨Nat.lt_of_le_of_lt hm.le hlt, hpos, aux, haux, ?_⟩
  rw [run_bind_ok (swap_before p' hr hv hin hru hlt), hrun]

theorem Swaps.pure {a : FetchAttribute} (h : a.payload = none) :
    Swaps pre p p' suf (pure a) := by
  intro s a' w _ _ hok hpay
  cases hok
  rw [h] at hpay
  cases hpay

theorem Swaps.fail (e : ParseError) : Swaps pre p p' suf (fail e) :=
  fun _ _ _ _ _ hok => nomatch hok

theorem Swaps.ite {c : Prop} [Decidable c] {f g : ParserM FetchAttribute}
    (hf : Swaps pre p p' suf f) (hg : Swaps pre p p' suf g) :
    Swaps pre p p' suf (if c then f else g) := by
  split
  · exact hf
  · exact hg

include hlen in
/-- **The literal itself.** It is taken by its announced length. -/
theorem parseLiteral_swap {s w : Parser} (hv : s.Valid) (hin : s.input = pre ++ (p ++ suf))
    (hok : parseLiteral s = .ok (⟨pre.length, p⟩, w)) :
    s.pos < pre.length ∧ w.pos = pre.length + p.length ∧ ∃ aux, SameBudget w.aux aux ∧
      parseLiteral ⟨pre ++ (p' ++ suf), s.pos, s.aux⟩
        = .ok (⟨pre.length, p'⟩, ⟨pre ++ (p' ++ suf), w.pos, aux⟩) := by
  obtain ⟨ds, hne, hdig, hp, hmax, hrest, hoff, hpos, haux⟩ := parseLiteral_eq_ok hv hok
  simp only at hp hrest hoff hpos haux
  have hlt : s.pos < pre.length := by omega
  -- the header is the end of what stands in front of the payload
  have hheader : pre.drop s.pos = literalHeader ds := by
    rw [rest, hin, List.drop_append_of_le_length (Nat.le_of_lt hlt)] at hrest
    refine (List.append_inj hrest ?_).1
    rw [List.length_drop, length_literalHeader]
    omega
  have hrest' : (⟨pre ++ (p' ++ suf), s.pos, s.aux⟩ : Parser).rest
      = literalHeader ds ++ (p' ++ suf) := by
    rw [rest, List.drop_append_of_le_length (Nat.le_of_lt hlt), hheader]
  have hv' : (⟨pre ++ (p' ++ suf), s.pos, s.aux⟩ : Parser).Valid := by
    simp only [Valid, List.length_append]
    omega
  have hrun := parseLiteral_of_rest hv' hne hdig (hlen.trans hp) hmax hrest'
  refine ⟨hlt, hpos, ⟨s.aux.itemsLeft,
    s.aux.literals ++ [⟨⟨s.pos, literalHeader ds⟩, ⟨pre.length, p'⟩⟩]⟩, ?_, ?_⟩
  · rw [haux]
    rfl
  · rw [hrun]
    simp only [← hoff, hpos, hlen]

/-- A quoted string does not start where a literal's header ends. -/
theorem quote_ne_header_end (hlf : pre.getLast? = some LF) {s : Parser}
    (hin : s.input = pre ++ (p ++ suf)) (hquote : s.input[s.pos]? = some (byte '"')) :
    s.pos + 1 ≠ pre.length := by
  intro hpos
  rw [hin, List.getElem?_append_left (by omega), show s.pos = pre.length - 1 by omega,
    ← List.getLast?_eq_getElem?, hlf] at hquote
  exact absurd hquote (by decide)

theorem parseNstringBytes_of_brace {s : Parser} (h : s.input[s.pos]? = some (byte '{')) :
    parseNstringBytes s = parseLiteral s := by
  have hpeek : peek s = .ok (byte '{', s) := peek_of_some h
  rw [parseNstringBytes, run_bind_ok hpeek, if_neg (by decide), if_pos rfl]

theorem parseNstringBytesOptional_of_brace {s : Parser}
    (h : s.input[s.pos]? = some (byte '{')) :
    parseNstringBytesOptional s = (parseLiteral >>= fun data => pure (some data)) s := by
  have hpeek : peek s = .ok (byte '{', s) := peek_of_some h
  rw [parseNstringBytesOptional, run_bind_ok hpeek, if_neg (by decide), if_pos rfl]

/-- A string that covers the region of a payload is a literal. -/
theorem parseNstringBytes_region (hne : p ≠ []) (hlf : pre.getLast? = some LF) {s w : Parser}
    (hin : s.input = pre ++ (p ++ suf)) (hok : parseNstringBytes s = .ok (⟨pre.length, p⟩, w)) :
    s.input[s.pos]? = some (byte '{') := by
  rw [parseNstringBytes] at hok
  obtain ⟨c, t, hpeek, hval⟩ := run_bind_eq_ok hok
  obtain ⟨hget, rfl⟩ := peek_eq_ok hpeek
  clear hok
  split at hval
  next hc =>
    subst hc
    rw [run_position_bind] at hval
    obtain ⟨str, t, _, hval⟩ := run_bind_eq_ok hval
    simp only [run_pure, Except.ok.injEq, Prod.mk.injEq, Slice.mk.injEq] at hval
    exact absurd hval.1.1 (quote_ne_header_end hlf hin hget)
  next =>
    split at hval
    next hc => rwa [← hc]
    next =>
      obtain ⟨_, t, _, hval⟩ := run_bind_eq_ok hval
      rw [run_position_bind] at hval
      simp only [run_pure, Except.ok.injEq, Prod.mk.injEq, Slice.mk.injEq] at hval
      exact absurd hval.1.2.symm hne

theorem parseNstringBytesOptional_region (hlf : pre.getLast? = some LF) {s w : Parser}
    (hin : s.input = pre ++ (p ++ suf))
    (hok : parseNstringBytesOptional s = .ok (some ⟨pre.length, p⟩, w)) :
    s.input[s.pos]? = some (byte '{') := by
  rw [parseNstringBytesOptional] at hok
  obtain ⟨c, t, hpeek, hval⟩ := run_bind_eq_ok hok
  obtain ⟨hget, rfl⟩ := peek_eq_ok hpeek
  clear hok
  split at hval
  next hc =>
    subst hc
    rw [run_position_bind] at hval
    obtain ⟨str, t, _, hval⟩ := run_bind_eq_ok hval
    simp only [run_pure, Except.ok.injEq, Prod.mk.injEq, Option.some.injEq,
      Slice.mk.injEq] at hval
    exact absurd hval.1.1 (quote_ne_header_end hlf hin hget)
  next =>
    split at hval
    next hc => rwa [← hc]
    next =>
      obtain ⟨_, t, _, hval⟩ := run_bind_eq_ok hval
      cases hval

/-- An attribute made of a string. -/
theorem Swaps.nstringBytes (hlen : p'.length = p.length) (hne : p ≠ [])
    (hlf : pre.getLast? = some LF) {mk : Slice → FetchAttribute}
    (hpayload : ∀ d, (mk d).payload = some d) (hwith : ∀ d d', (mk d).withPayload d' = mk d') :
    Swaps pre p p' suf (parseNstringBytes >>= fun d => Pure.pure (mk d)) := by
  intro s a w hv hin hok hpay
  obtain ⟨d, t, hd, hok⟩ := run_bind_eq_ok hok
  cases hok
  obtain rfl : d = ⟨pre.length, p⟩ := by simpa [hpayload] using hpay
  have hbrace := parseNstringBytes_region hne hlf hin hd
  rw [parseNstringBytes_of_brace hbrace] at hd
  obtain ⟨hlt, hpos, aux, haux, hrun⟩ := parseLiteral_swap hlen hv hin hd
  refine ⟨hlt, hpos, aux, haux, ?_⟩
  rw [hin, ← getElem?_before p' hlt] at hbrace
  rw [← parseNstringBytes_of_brace hbrace] at hrun
  rw [run_bind_ok hrun, hwith]
  rfl

theorem Swaps.nstringBytesOptional (hlen : p'.length = p.length)
    (hlf : pre.getLast? = some LF) {mk : Option Slice → FetchAttribute}
    (hpayload : ∀ d, (mk d).payload = d)
    (hwith : ∀ d d', (mk d).withPayload d' = mk (some d')) :
    Swaps pre p p' suf (parseNstringBytesOptional >>= fun d => Pure.pure (mk d)) := by
  intro s a w hv hin hok hpay
  obtain ⟨d, t, hd, hok⟩ := run_bind_eq_ok hok
  cases hok
  obtain rfl : d = some ⟨pre.length, p⟩ := by simpa [hpayload] using hpay
  have hbrace := parseNstringBytesOptional_region hlf hin hd
  rw [parseNstringBytesOptional_of_brace hbrace] at hd
  obtain ⟨d, t', hd, hok⟩ := run_bind_eq_ok hd
  cases hok
  obtain ⟨hlt, hpos, aux, haux, hrun⟩ := parseLiteral_swap hlen hv hin hd
  refine ⟨hlt, hpos, aux, haux, ?_⟩
  rw [hin, ← getElem?_before p' hlt] at hbrace
  have hrun' := parseNstringBytesOptional_of_brace (s := ⟨_, s.pos, s.aux⟩) hbrace
  rw [run_bind_ok hrun] at hrun'
  rw [run_bind_ok hrun', hwith]
  rfl

theorem tryConsume_lawful (c : UInt8) :
    Lawful .incomplete lo next (tryConsumeByte c) := by
  have h : Lawful .incomplete lo next (tryConsumeByte c >>= (pure : Bool → ParserM Bool)) :=
    .try_bind (fun b => .pure b) (.pure _)
  rwa [bind_pure] at h

/-- An attribute that carries no message data. -/
theorem Swaps.spaced {r : ParserM α} {mk : α → FetchAttribute}
    (hr : Lawful .incomplete 0 none r) (hmk : ∀ v, (mk v).payload = none) :
    Swaps pre p p' suf (consumeSp >>= fun _ => r >>= fun v => Pure.pure (mk v)) :=
  .bind (consumeByte_lawful _) fun _ => .bind hr fun v => .pure (hmk v)

theorem fetchAttValue_swaps (hlen : p'.length = p.length) (hne : p ≠ [])
    (hlf : pre.getLast? = some LF) (name : Str) :
    Swaps pre p p' suf (fetchAttValue name) := by
  have hnumber : Lawful .incomplete 0 none parseNumber := parseNumber_lawful
  have hparens : Lawful .incomplete 0 none parseBalancedParens :=
    (@parseBalancedParens_assembled 0 none false).lawful (kit_sound false)
  have hatoms : Lawful .incomplete 0 none parseParenAtomList :=
    (@parseParenAtomList_assembled 0 none false).lawful (kit_sound false)
  have hbody : ∀ mk : Slice → FetchAttribute, (∀ d, (mk d).payload = some d) →
      (∀ d d', (mk d).withPayload d' = mk d') → Swaps pre p p' suf
        (consumeSp >>= fun _ => parseNstringBytes >>= fun d => Pure.pure (mk d)) :=
    fun mk h h' => .bind (consumeByte_lawful _) fun _ => .nstringBytes hlen hne hlf h h'
  rw [fetchAttValue]
  refine .ite (.spaced hnumber fun _ => rfl) ?_
  refine .ite (.spaced hatoms fun _ => rfl) ?_
  refine .ite (.spaced parseQuoted_lawful fun _ => rfl) ?_
  refine .ite (.spaced hnumber fun _ => rfl) ?_
  refine .ite (hbody _ (fun _ => rfl) fun _ _ => rfl) ?_
  refine .ite (hbody _ (fun _ => rfl) fun _ _ => rfl) ?_
  refine .ite (hbody _ (fun _ => rfl) fun _ _ => rfl) ?_
  refine .ite (.spaced hparens fun _ => rfl) ?_
  refine .ite (.spaced hparens fun _ => rfl) (.ite ?_ (.fail _))
  refine .bind (tryConsume_lawful _) fun b => .ite ?_ (.spaced hparens fun _ => rfl)
  refine .bind ((@readUntilByte_assembled 0 none false _).lawful (kit_sound false)) fun sect => ?_
  refine .bind (consumeByte_lawful _) fun _ => ?_
  refine .bind ((@parseOrigin_assembled 0 none false).lawful (kit_sound false)) fun origin => ?_
  exact .bind (consumeByte_lawful _) fun _ =>
    .nstringBytesOptional hlen hlf (fun _ => rfl) fun _ _ => rfl

/-- **The attribute that carries the payload.** -/
theorem parseOneFetchAtt_swaps (hlen : p'.length = p.length) (hne : p ≠ [])
    (hlf : pre.getLast? = some LF) : Swaps pre p p' suf parseOneFetchAtt := by
  rw [parseOneFetchAtt_eq]
  exact .bind checkedAttName_lawful (fetchAttValue_swaps hlen hne hlf)

/-- Behind the payload the list goes on as it did, whatever it already holds. -/
theorem fetchLoop_after (hlen : p'.length = p.length) {items l : List FetchAttribute}
    {s t : Parser} (hv : s.Valid) (hin : s.input = pre ++ (p ++ suf))
    (hpos : pre.length + p.length ≤ s.pos) (hok : fetchLoop items s = .ok (items ++ l, t))
    (hend : t.pos < s.input.length) {aux : Budget} (haux : SameBudget s.aux aux)
    (items' : List FetchAttribute) :
    ∃ aux', fetchLoop items' ⟨pre ++ (p' ++ suf), s.pos, aux⟩
      = .ok (items' ++ l, ⟨pre ++ (p' ++ suf), t.pos, aux'⟩) := by
  have hs : s.Meets s.pos none := .of_valid hv
  have hloop : Assembled (kit true) s.pos none (fetchLoop items') :=
    parenListLoop_assembled parseOneFetchAtt_element items'
  obtain ⟨l', hl, hall⟩ := fetchLoop_items items s (.zero hv) _ _ hok
  rw [← List.append_cancel_left hl] at hall
  obtain ⟨aux', _, hrun⟩ := hloop.simulates (kit_sound true) (kit_respects true) hs haux
    (hall items')
  refine ⟨aux', (hloop.lawful (kit_sound true)).determined (hs.withAux aux) hrun hend ?_⟩
  intro i hi _
  change _ = s.input[i]?
  rw [hin]
  exact getElem?_after hlen (Nat.le_trans hpos hi)

/-- **The attribute list.** By induction over the rounds: the payload belongs to this round's
attribute, and the rest of the list lies behind it, or to a later one, and this round lies in
front of it. -/
theorem fetchLoop_swap (hlen : p'.length = p.length) (hne : p ≠ [])
    (hlf : pre.getLast? = some LF) : ∀ (items : List FetchAttribute) (s : Parser),
    s.Meets 0 none → s.input = pre ++ (p ++ suf) → ∀ l t j a,
      fetchLoop items s = .ok (items ++ l, t) → t.pos < s.input.length → l[j]? = some a →
      a.payload = some ⟨pre.length, p⟩ →
      s.pos < pre.length ∧ pre.length + p.length ≤ t.pos ∧ ∃ aux,
        fetchLoop items ⟨pre ++ (p' ++ suf), s.pos, s.aux⟩
          = .ok (items ++ l.set j (a.withPayload ⟨pre.length, p'⟩),
            ⟨pre ++ (p' ++ suf), t.pos, aux⟩) := by
  refine iterate_induction fetchStep_bounded fetchStep_progress
    fun items s hs ih hin l t j a hok hend hj hpay => ?_
  have hv' : s.pos < pre.length → (⟨pre ++ (p' ++ suf), s.pos, s.aux⟩ : Parser).Meets 0 none := by
    intro hlt
    refine .zero ?_
    simp only [Valid, List.length_append]
    omega
  obtain ⟨a₀, w, b', c, hatt, hb, hget, hround⟩ := fetchLoop_eq_ok hs hok
  have hm := parseOneFetchAtt_element.bounded hs hatt
  have hinw := hm.input.trans hin
  have hwlt : w.pos < w.input.length := (List.getElem?_eq_some_iff.mp hget).1
  have hvw : (⟨w.input, w.pos + 1, b'⟩ : Parser).Meets 0 none := .zero hwlt
  -- what this round does when the payload is its own
  have own : a₀.payload = some ⟨pre.length, p⟩ → s.pos < pre.length ∧
      w.pos = pre.length + p.length ∧ ∃ aux b'', SameBudget b' b'' ∧ chargeItem aux = .ok b'' ∧
        (pre ++ (p' ++ suf))[w.pos]? = some c ∧
        parseOneFetchAtt ⟨pre ++ (p' ++ suf), s.pos, s.aux⟩
          = .ok (a₀.withPayload ⟨pre.length, p'⟩, ⟨pre ++ (p' ++ suf), w.pos, aux⟩) := by
    intro hpay₀
    obtain ⟨hlt, hpos, aux, haux, hrun⟩ :=
      parseOneFetchAtt_swaps hlen hne hlf hs.valid hin hatt hpay₀
    obtain ⟨b'', hb'', hcharge⟩ := (kit_respects true).cost haux hb
    refine ⟨hlt, hpos, aux, b'', hb'', hcharge, ?_, hrun⟩
    rw [getElem?_after hlen (Nat.le_of_eq hpos.symm), ← hinw, hget]
  rcases hround with ⟨rfl, hrest⟩ | ⟨_, rfl, hl, rfl⟩
  · have hstep : fetchStep items s = .ok (.again (items ++ [a₀]), ⟨w.input, w.pos + 1, b'⟩) := by
      rw [fetchStep_of_ok hatt hb hget, if_pos rfl]
    obtain ⟨l', hl, _⟩ := fetchLoop_items _ _ hvw _ _ hrest
    obtain rfl : l = a₀ :: l' := by simpa using hl
    rw [hl] at hrest
    have hend' : t.pos < w.input.length := by rwa [hm.input]
    cases j with
    | zero =>
      obtain rfl : a₀ = a := by simpa using hj
      obtain ⟨hlt, hpos, aux, b'', hb'', hcharge, hsp, hrun⟩ := own hpay
      obtain ⟨aux', hloop⟩ := fetchLoop_after hlen hvw.valid hinw (by simp only; omega) hrest
        hend' hb'' (items ++ [a₀.withPayload ⟨pre.length, p'⟩])
      have hmt := (fetchLoop_bounded (items ++ [a₀]) hvw hrest).le
      refine ⟨hlt, by simp only at hmt; omega, aux', ?_⟩
      rw [fetchLoop_of_sp (hv' hlt) hrun hcharge hsp, hloop]
      simp
    | succ j =>
      have hj' : l'[j]? = some a := by simpa using hj
      obtain ⟨hlt, hle, aux, hrun⟩ := ih _ _ hstep hinw l' t j a hrest hend' hj' hpay
      have hlt' : w.pos < pre.length := Nat.lt_of_succ_lt hlt
      have hatt' := swap_before p'
        ((parseOneFetchAtt_element.assembled 0).lawful (kit_sound true)) hs.valid hin hatt hlt'
      have hget' : (pre ++ (p' ++ suf))[w.pos]? = some SP := by
        rw [getElem?_before p' hlt', ← hinw, hget]
      have hslt := Nat.lt_of_le_of_lt hm.le hlt'
      refine ⟨hslt, hle, aux, ?_⟩
      rw [fetchLoop_of_sp (hv' hslt) hatt' hb hget', hrun]
      simp
  · obtain rfl : l = [a₀] := List.append_cancel_left hl
    obtain ⟨rfl, rfl⟩ : j = 0 ∧ a₀ = a := by
      cases j with
      | zero => simpa using hj
      | succ j => simp at hj
    obtain ⟨hlt, hpos, aux, b'', _, hcharge, hpar, hrun⟩ := own hpay
    refine ⟨hlt, by simp only; omega, b'', ?_⟩
    rw [fetchLoop_of_paren (hv' hlt) hrun hcharge hpar]
    simp

end Swap

/-! ### Only one path returns a FETCH response -/

/-- Anything but a FETCH response. -/
def NotFetchResponse (r : Response) : Prop := ∀ n attributes, r ≠ .data (.fetch n attributes)

/-- Anything but a data response. -/
def NotData (r : Response) : Prop := ∀ d, r ≠ .data d

theorem parseContinueReq_notData : Yields NotData parseContinueReq :=
  .bind_right fun _ => .bind_right fun _ => .bind_right fun _ => .bind_right fun _ => .pure nofun

theorem finishStatus_notData (tag : Option Str) (status : Status) :
    Yields NotData (finishStatus tag status) :=
  .bind_right fun _ => .bind_right fun _ => .pure nofun

theorem parseTagged_notData : Yields NotData parseTagged := by
  refine .bind_right fun tag => .bind_right fun _ => .bind_right fun o => ?_
  cases o with
  | some status => exact finishStatus_notData _ _
  | none =>
    intro s v t hok
    simp only at hok
    split at hok <;> cases hok

theorem finishOtherDataWithPrefix_notFetch :
    Yields NotFetchResponse finishOtherDataWithPrefix :=
  .bind_right fun _ => .bind_right fun _ => .bind_right fun _ => .bind_right fun _ => .pure nofun

/-- The data of a response that starts with a name that is recognised. -/
def IsNamed : DataResponse → Prop
  | .capability _ | .list .. | .lsub .. | .status .. | .search _ | .flags _ => True
  | _ => False

theorem namedData_isNamed {name : Str} {body : ParserM DataResponse}
    (h : namedData name = some body) : Yields IsNamed body := by
  rw [namedData] at h
  split at h
  · cases h
    exact .bind_right fun _ => .pure trivial
  split at h
  · cases h
    exact .bind_right fun _ => .bind_right fun _ => .pure trivial
  split at h
  · cases h
    exact .bind_right fun _ => .bind_right fun _ => .pure trivial
  split at h
  · cases h
    exact .bind_right fun _ => .bind_right fun _ => .bind_right fun _ => .bind_right fun _ =>
      .pure trivial
  split at h
  · cases h
    exact .bind_right fun _ => .pure trivial
  split at h
  · cases h
    exact .bind_right fun _ => .bind_right fun _ => .pure trivial
  · cases h

theorem parseNamedDataResponse_notFetch : Yields NotFetchResponse parseNamedDataResponse := by
  refine .bind_right fun lineStart => .bind_right fun name => ?_
  cases hbody : namedData name with
  | some body =>
    refine .bind (namedData_isNamed hbody) fun d hd => .bind_right fun _ => .pure ?_
    rintro n attributes heq
    rw [Response.data.inj heq] at hd
    exact hd
  | none =>
    exact .bind_right fun _ => .bind_right fun _ => .bind_right fun _ => .pure nofun

/-- What was run for a FETCH response, behind `* `. -/
theorem fetch_runs {s t : Parser} {n : UInt32} {attributes : List FetchAttribute}
    (h : untaggedData s = .ok (.data (.fetch n attributes), t)) :
    ∃ kind t₁ t₂ t₃ t₄ t₅, parseNumber s = .ok (n, t₁) ∧ consumeSp t₁ = .ok ((), t₂) ∧
      parseAtom t₂ = .ok (kind, t₃) ∧ kind.eqCi "FETCH" = true ∧ consumeSp t₃ = .ok ((), t₄) ∧
      parseFetchMsgAtt t₄ = .ok (attributes, t₅) ∧ consumeCrlf t₅ = .ok ((), t) := by
  rw [untaggedData] at h
  obtain ⟨c, u, hpeek, hdata⟩ := run_bind_eq_ok h
  obtain ⟨_, rfl⟩ := peek_eq_ok hpeek
  split at hdata
  case isFalse => exact absurd rfl (parseNamedDataResponse_notFetch hdata n attributes)
  rw [parseNumericDataResponse] at hdata
  obtain ⟨num, t₁, h₁, hdata⟩ := run_bind_eq_ok hdata
  obtain ⟨_, t₂, h₂, hdata⟩ := run_bind_eq_ok hdata
  obtain ⟨kind, t₃, h₃, hdata⟩ := run_bind_eq_ok hdata
  split at hdata
  · obtain ⟨_, _, _, hdata⟩ := run_bind_eq_ok hdata
    cases hdata
  split at hdata
  · obtain ⟨_, _, _, hdata⟩ := run_bind_eq_ok hdata
    cases hdata
  split at hdata
  · obtain ⟨_, _, _, hdata⟩ := run_bind_eq_ok hdata
    cases hdata
  split at hdata
  case isFalse => exact absurd rfl (finishOtherDataWithPrefix_notFetch hdata n attributes)
  next hkind =>
    obtain ⟨_, t₄, h₄, hdata⟩ := run_bind_eq_ok hdata
    obtain ⟨attributes', t₅, hlist, hdata⟩ := run_bind_eq_ok hdata
    obtain ⟨_, _, hcrlf, hdata⟩ := run_bind_eq_ok hdata
    cases hdata
    exact ⟨kind, t₁, t₂, t₃, t₄, t₅, h₁, h₂, h₃, hkind, h₄, hlist, hcrlf⟩

/-- **Only an untagged line is a data response.** -/
theorem untaggedData_of_data {x : Bytes} {t : Parser} {d : DataResponse}
    (h : parseResponse (new x) = .ok (.data d, t)) :
    (afterStar x).Valid ∧ x = ascii "* " ++ (afterStar x).rest ∧
      statusKeywordAt (afterStar x).rest = none ∧
      untaggedData (afterStar x) = .ok (.data d, t) := by
  rw [parseResponse_eq] at h
  obtain ⟨c, t₀, hpeek, hbody⟩ := run_bind_eq_ok h
  obtain ⟨_, rfl⟩ := peek_eq_ok hpeek
  split at hbody
  · exact absurd rfl (parseContinueReq_notData hbody d)
  split at hbody
  case isFalse => exact absurd rfl (parseTagged_notData hbody d)
  rw [parseUntagged] at hbody
  obtain ⟨_, t₁, h₁, hbody⟩ := run_bind_eq_ok hbody
  obtain ⟨_, t₂, h₂, hbody⟩ := run_bind_eq_ok hbody
  obtain ⟨o, t₃, h₃, hbody⟩ := run_bind_eq_ok hbody
  have hm₁ := (consumeByte_lawful _).bounded (new_meets x) h₁
  have hm₂ := (consumeByte_lawful _).bounded (Meets.zero hm₁.valid) h₂
  have hx : x = byte '*' :: t₁.rest := consumeByte_rest h₁
  have hrest := consumeByte_rest h₂
  obtain ⟨_, rfl⟩ := consumeByte_eq_ok h₁
  obtain ⟨_, rfl⟩ := consumeByte_eq_ok h₂
  rw [tryParseStatusKeyword_run hm₂.valid] at h₃
  split at h₃
  · cases h₃
    exact absurd rfl (finishStatus_notData _ _ hbody d)
  next hkey =>
    cases h₃
    exact ⟨hm₂.valid, hx.trans (by rw [hrest]; rfl), hkey, hbody⟩

/-- The header of a FETCH response with attributes. -/
theorem fetch_of_ok {x : Bytes} {t : Parser} {n : UInt32} {attributes : List FetchAttribute}
    (hne : attributes ≠ [])
    (h : parseResponse (new x) = .ok (.data (.fetch n attributes), t)) :
    ∃ ds kind z, x = ascii "* " ++ (ds ++ (SP :: (kind ++ (ascii " (" ++ z)))) ∧ ds ≠ [] ∧
      (∀ d ∈ ds, isAsciiDigit d = true) ∧ decimalValue ds < 2 ^ 32 ∧
      eqIgnoreAsciiCase kind (ascii "FETCH") = true ∧ z.head? ≠ some (byte ')') := by
  obtain ⟨_, hx, _, hdata⟩ := untaggedData_of_data h
  obtain ⟨kind, t₁, t₂, t₃, t₄, t₅, h₁, h₂, h₃, hkind, h₄, hlist, _⟩ := fetch_runs hdata
  rw [parseFetchMsgAtt, parseParenList] at hlist
  obtain ⟨_, t₆, h₆, hlist⟩ := run_bind_eq_ok hlist
  obtain ⟨ds, hdsne, hdig, hn, hds⟩ := parseNumber_rest h₁
  refine ⟨ds, kind.bytes, t₆.rest, ?_, hdsne, hdig, hn ▸ n.toNat_lt, hkind, fun hpar => ?_⟩
  · rw [hx, hds, consumeByte_rest h₂, parseAtom_rest h₃, consumeByte_rest h₄,
      consumeByte_rest h₆]
    rfl
  · rw [run_tryConsume_bind, if_pos (by rw [t₆.getElem?_pos, hpar]), if_pos rfl] at hlist
    cases hlist
    exact hne rfl

/-- **Replacing the payload, at the level of the parser.** -/
theorem parseResponse_swap {pre p p' suf : Bytes} (hlen : p'.length = p.length) (hne : p ≠ [])
    (hlf : pre.getLast? = some LF) {n : UInt32} {attributes : List FetchAttribute} {t : Parser}
    {i : ℕ} {a : FetchAttribute} (hi : attributes[i]? = some a)
    (hpay : a.payload = some ⟨pre.length, p⟩)
    (h : parseResponse (new (pre ++ (p ++ suf))) = .ok (.data (.fetch n attributes), t)) :
    ∃ t', parseResponse (new (pre ++ (p' ++ suf)))
        = .ok (.data (.fetch n (attributes.set i (a.withPayload ⟨pre.length, p'⟩))), t') ∧
      t'.rest = t.rest := by
  have hatts : attributes ≠ [] := by
    rintro rfl
    cases hi
  obtain ⟨ds, kind, z, hx, hdsne, hdig, hlt, hkind, hz⟩ := fetch_of_ok hatts h
  rw [parseResponse_fetch hdsne hdig hlt hkind hz hx] at h
  -- the list, then the end of the line
  obtain ⟨attributes', u, hloop, hend⟩ := run_bind_eq_ok h
  rw [fetchEnd] at hend
  obtain ⟨_, w, hcrlf, hend⟩ := run_bind_eq_ok hend
  obtain ⟨hcr, hlfu, rfl⟩ := consumeCrlf_eq_ok hcrlf
  cases hend
  have hlenx := congrArg List.length hx
  have hs : (⟨pre ++ (p ++ suf), ds.length + kind.length + 5,
      ⟨MAX_ITEMS_PER_RESPONSE, []⟩⟩ : Parser).Meets 0 none := by
    refine .zero ?_
    rw [show ascii "* " = [byte '*', SP] from rfl,
      show ascii " (" = [SP, byte '('] from rfl] at hlenx
    simp only [Valid, List.length_append, List.length_cons] at hlenx ⊢
    omega
  have hin := (fetchLoop_bounded [] hs hloop).input
  have hup : u.pos < (pre ++ (p ++ suf)).length := by
    have := (List.getElem?_eq_some_iff.mp hcr).1
    rwa [hin] at this
  obtain ⟨hstart, hstop, aux, hrun⟩ :=
    fetchLoop_swap hlen hne hlf [] _ hs rfl attributes u i a hloop hup hi hpay
  -- the header is in front of the payload, so the second buffer has it too
  obtain ⟨header, hheader⟩ : ∃ l, l = ascii "* " ++ (ds ++ (SP :: (kind ++ ascii " ("))) :=
    ⟨_, rfl⟩
  have hsplit : pre ++ (p ++ suf) = header ++ z := by
    rw [hx, hheader]
    simp
  have hhlen : header.length = ds.length + kind.length + 5 := by
    rw [hheader, show ascii "* " = [byte '*', SP] from rfl,
      show ascii " (" = [SP, byte '('] from rfl]
    simp only [List.length_append, List.length_cons, List.length_nil]
    omega
  simp only at hstart
  obtain ⟨z₁, hpre, hz₁⟩ : ∃ z₁, pre = header ++ z₁ ∧ z = z₁ ++ (p ++ suf) := by
    rcases List.append_eq_append_iff.mp hsplit with ⟨c, hc, _⟩ | ⟨z₁, hpre, hz₁⟩
    · have := congrArg List.length hc
      rw [List.length_append] at this
      omega
    · exact ⟨z₁, hpre, hz₁⟩
  have hz₁ne : z₁ ≠ [] := by
    rintro rfl
    rw [hpre, List.append_nil] at hstart
    omega
  have hx' : pre ++ (p' ++ suf)
      = ascii "* " ++ (ds ++ (SP :: (kind ++ (ascii " (" ++ (z₁ ++ (p' ++ suf)))))) := by
    rw [hpre, hheader]
    simp
  have hz' : (z₁ ++ (p' ++ suf)).head? ≠ some (byte ')') := by
    rw [hz₁] at hz
    rwa [List.head?_append_of_ne_nil _ hz₁ne] at hz ⊢
  have hcrlf' : consumeCrlf ⟨pre ++ (p' ++ suf), u.pos, aux⟩
      = .ok ((), ⟨pre ++ (p' ++ suf), u.pos + 2, aux⟩) := by
    rw [hin] at hcr hlfu
    refine consumeCrlf_of_eq ?_ ?_
    · exact (getElem?_after hlen hstop).trans hcr
    · exact (getElem?_after hlen (Nat.le_succ_of_le hstop)).trans hlfu
  refine ⟨⟨pre ++ (p' ++ suf), u.pos + 2, aux⟩, ?_, ?_⟩
  · rw [parseResponse_fetch hdsne hdig hlt hkind hz' hx', run_bind_ok hrun, fetchEnd,
      run_bind_ok hcrlf']
    rfl
  · rw [rest, rest, hin]
    refine List.ext_getElem? fun k => ?_
    rw [List.getElem?_drop, List.getElem?_drop]
    refine getElem?_after hlen ?_
    change _ ≤ u.pos + 2 + k
    omega

end Parser

/-- `pre` ends with `{n}` CRLF, the header of a literal of `n` octets. -/
def EndsWithLiteralHeader (pre : Bytes) (n : ℕ) : Prop :=
  ∃ q ds, pre = q ++ literalHeader ds ∧ ds ≠ [] ∧ (∀ d ∈ ds, isAsciiDigit d = true) ∧
    decimalValue ds = n

theorem EndsWithLiteralHeader.getLast? {pre : Bytes} {n : ℕ} (h : EndsWithLiteralHeader pre n) :
    pre.getLast? = some LF := by
  obtain ⟨q, ds, rfl, _⟩ := h
  rw [literalHeader, ← List.append_assoc]
  exact List.getLast?_append_of_ne_nil _ (by simp)

theorem FetchAttribute.withPayload_self {a : FetchAttribute} {data : Slice}
    (h : a.payload = some data) : a.withPayload data = a := by
  cases a with
  | bodySection sect origin d =>
    cases h
    rfl
  | _ => first | rfl | (cases h; rfl)

/-- **Message content cannot influence framing.** When an attribute of a FETCH response carries
the payload `p` of a literal, any other payload of the same length in its place gives the same
response with that attribute's data replaced, and the same remainder. -/
theorem parseResponse_payload {pre p p' suf rest : Bytes}
    (hpre : EndsWithLiteralHeader pre p.length)
    (hlen : p'.length = p.length) {n : UInt32} {attributes : List FetchAttribute} {i : ℕ}
    {a : FetchAttribute}
    (h : parseResponse (pre ++ p ++ suf) = .ok (rest, .data (.fetch n attributes)))
    (hi : attributes[i]? = some a) (hpay : a.payload = some ⟨pre.length, p⟩) :
    parseResponse (pre ++ p' ++ suf)
      = .ok (rest, .data (.fetch n (attributes.set i (a.withPayload ⟨pre.length, p'⟩)))) := by
  by_cases hne : p = []
  · -- nothing to replace
    obtain rfl : p' = p := by
      rw [hne] at hlen ⊢
      exact List.length_eq_zero_iff.mp hlen
    obtain ⟨_, rfl⟩ := List.getElem?_eq_some_iff.mp hi
    rw [h, FetchAttribute.withPayload_self hpay, List.set_getElem_self]
  · rw [List.append_assoc] at h ⊢
    obtain ⟨t, ht, hrest⟩ := parseResponse_eq_ok h
    obtain ⟨t', ht', hrest'⟩ := Parser.parseResponse_swap hlen hne hpre.getLast? hi hpay ht
    rw [parseResponse_of_ok ht', hrest', hrest]

/-- A mail body shaped like server responses stays the data of its attribute. -/
theorem parseResponse_payload_crafted :
    parseResponse (ascii "* 1 FETCH (BODY[] \x7b31\x7d\r\n"
        ++ ascii "* 999 EXISTS\r\nA0001 OK done\r\n.." ++ ascii " UID 7)\r\n* 2 EXISTS\r\n")
      = .ok (ascii "* 2 EXISTS\r\n", .data (.fetch 1
        [.bodySection none none (some ⟨24, ascii "* 999 EXISTS\r\nA0001 OK done\r\n.."⟩),
          .uid 7])) := by
  have hplain : parseResponse (ascii "* 1 FETCH (BODY[] \x7b31\x7d\r\n"
        ++ ascii "Hello, this is a normal message" ++ ascii " UID 7)\r\n* 2 EXISTS\r\n")
      = .ok (ascii "* 2 EXISTS\r\n", .data (.fetch 1
        [.bodySection none none (some ⟨24, ascii "Hello, this is a normal message"⟩),
          .uid 7])) := by
    decide +kernel
  exact parseResponse_payload (i := 0) ⟨ascii "* 1 FETCH (BODY[] ", ascii "31", by decide +kernel,
    by decide +kernel, by decide +kernel, by decide +kernel⟩ (by decide +kernel) hplain rfl
    (by decide +kernel)

end ImapRs
