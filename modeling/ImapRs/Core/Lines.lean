import ImapRs.Core.Productions

/-!
# What a production consumes

A production consumes stretches without a CR and literals, and nothing else. The stretches and
the literals are in the order of the wire, and the literals are exactly those recorded by
`parseLiteral`.

## Main definitions

* `Literal.Announced` — a header `{n}` CRLF with a payload of `n` octets
* `Lined` — text made of CR-free stretches and announced literals

## Main results

* `parseLiteral_eq_ok`, `parseLiteral_of_rest` — literals, read and written out
* `lined_of_assembled` — assembled productions consume lined text
-/

namespace ImapRs

open Incremental Incremental.Cursor

/-- The bytes of a literal header. -/
def literalHeader (ds : Bytes) : Bytes := [byte '{'] ++ ds ++ [byte '}'] ++ CRLF

@[simp] theorem length_literalHeader (ds : Bytes) : (literalHeader ds).length = ds.length + 4 := by
  simp [literalHeader]

/-- The header is `{n}` CRLF and the payload has `n` octets. -/
def Literal.Announced (l : Literal) : Prop :=
  ∃ ds, ds ≠ [] ∧ (∀ d ∈ ds, isAsciiDigit d = true) ∧ decimalValue ds = l.payload.bytes.length ∧
    l.header.bytes = literalHeader ds

/-- The text at offset `n` is made of stretches without a CR and the literals of the list, in
order and each at the offset it records. -/
inductive Lined : ℕ → Bytes → List Literal → Prop
  | plain {n : ℕ} {s : Bytes} : CR ∉ s → Lined n s []
  | literal {n : ℕ} {s rest : Bytes} {l : Literal} {ls : List Literal} :
      CR ∉ s → l.Announced → l.header.offset = n + s.length →
      l.payload.offset = l.header.offset + l.header.bytes.length →
      Lined (l.payload.offset + l.payload.bytes.length) rest ls →
      Lined n (s ++ (l.header.bytes ++ (l.payload.bytes ++ rest))) (l :: ls)

/-- A stretch without a CR in front changes nothing. -/
theorem Lined.plain_append {n : ℕ} {s t : Bytes} {ls : List Literal} (hs : CR ∉ s)
    (h : Lined (n + s.length) t ls) : Lined n (s ++ t) ls := by
  cases h with
  | plain ht => exact .plain (by simp [hs, ht])
  | literal ht hl hoff hpay hrest =>
    rw [← List.append_assoc]
    refine .literal (by simp [hs, ht]) hl ?_ hpay hrest
    rw [hoff, List.length_append, Nat.add_assoc]

theorem Lined.append {n : ℕ} {s t : Bytes} {ls ls' : List Literal} (h : Lined n s ls)
    (h' : Lined (n + s.length) t ls') : Lined n (s ++ t) (ls ++ ls') := by
  induction h with
  | plain hs => exact h'.plain_append hs
  | @literal n s rest l ls hs hl hoff hpay _ ih =>
    simp only [List.append_assoc, List.cons_append]
    refine .literal hs hl hoff hpay (ih ?_)
    have hlen : l.payload.offset + l.payload.bytes.length + rest.length
        = n + (s ++ (l.header.bytes ++ (l.payload.bytes ++ rest))).length := by
      simp only [List.length_append]
      omega
    rw [hlen]
    exact h'

theorem Lined.not_mem_of_nil {n : ℕ} {s : Bytes} (h : Lined n s []) : CR ∉ s := by
  cases h with
  | plain hs => exact hs

namespace Parser

variable {lo : ℕ} {next : Option UInt8} {att : Bool} {α : Type}

/-! ### Literals -/

/-- The cursor moved on by `k` bytes. -/
theorem rest_add (s : Parser) (k : ℕ) (aux : Budget) :
    ({ s with pos := s.pos + k, aux := aux } : Parser).rest = s.rest.drop k := by
  simp [rest]

theorem consumeByte_of_rest {s : Parser} {b : UInt8} {z : Bytes} (h : s.rest = b :: z) :
    consumeByte b s = .ok ((), { s with pos := s.pos + 1 }) :=
  consumeByte_of_eq (by rw [s.getElem?_pos, h]; rfl)

theorem consumeCrlf_of_rest {s : Parser} {z : Bytes} (h : s.rest = CR :: LF :: z) :
    consumeCrlf s = .ok ((), { s with pos := s.pos + 2 }) :=
  consumeCrlf_of_eq (by rw [s.getElem?_pos, h]; rfl) (by rw [s.getElem?_pos_add, h]; rfl)

theorem literalPayload_of_rest {s : Parser} {brace : ℕ} {data z : Bytes} (hv : s.Valid)
    (h : s.rest = data ++ z) : literalPayload brace data.length s
      = .ok (⟨s.pos, data⟩, { s with
        pos := s.pos + data.length
        aux := { s.aux with literals := s.aux.literals ++
          [⟨⟨brace, (s.input.take s.pos).drop brace⟩, ⟨s.pos, data⟩⟩] } }) := by
  have hlen := congrArg List.length h
  rw [s.length_rest, List.length_append] at hlen
  simp only [Valid] at hv
  have hdata : (s.input.drop s.pos).take data.length = data := by
    change s.rest.take data.length = data
    rw [h, List.take_left]
  rw [literalPayload_run, if_neg (by omega), hdata]

theorem parseNumber_of_rest {s : Parser} {ds z : Bytes} (hne : ds ≠ [])
    (hdig : ∀ d ∈ ds, isAsciiDigit d = true) (hlt : decimalValue ds < 2 ^ 32)
    (hz : ∀ c, z.head? = some c → isAsciiDigit c = false) (hrest : s.rest = ds ++ z) :
    parseNumber s = .ok (UInt32.ofNatLT (decimalValue ds) hlt,
      { s with pos := s.pos + ds.length }) := by
  have hscan : s.rest.takeWhile isAsciiDigit = ds := by
    rw [hrest, List.takeWhile_append_of_pos hdig]
    cases z with
    | nil => simp
    | cons c cs => rw [List.takeWhile_cons_of_neg (by rw [hz c rfl]; decide), List.append_nil]
  rw [parseNumber_run, numberVerdict_digits (by rwa [hscan]) (takeWhile_digits _), scanStop]
  simp only [hscan, dif_pos hlt]
  rfl

/-- **Reading a literal back.** -/
theorem parseLiteral_of_rest {s : Parser} {ds data z : Bytes} (hv : s.Valid) (hne : ds ≠ [])
    (hdig : ∀ d ∈ ds, isAsciiDigit d = true) (hlen : data.length = decimalValue ds)
    (hmax : decimalValue ds ≤ MAX_LITERAL_SIZE)
    (hrest : s.rest = literalHeader ds ++ (data ++ z)) :
    parseLiteral s = .ok (⟨s.pos + (ds.length + 4), data⟩, { s with
      pos := s.pos + (ds.length + 4) + data.length
      aux := { s.aux with literals := s.aux.literals ++
        [⟨⟨s.pos, literalHeader ds⟩, ⟨s.pos + (ds.length + 4), data⟩⟩] } }) := by
  have hlt : decimalValue ds < 2 ^ 32 := Nat.lt_of_le_of_lt hmax (by decide)
  rw [literalHeader] at hrest
  -- the cursor after the brace, after the digits and after the closing brace
  have h₁ : (⟨s.input, s.pos + 1, s.aux⟩ : Parser).rest
      = ds ++ ([byte '}'] ++ CRLF ++ (data ++ z)) := by
    rw [rest_add, hrest]
    simp
  have h₂ : (⟨s.input, s.pos + 1 + ds.length, s.aux⟩ : Parser).rest
      = byte '}' :: (CRLF ++ (data ++ z)) := by
    rw [Nat.add_assoc, rest_add, hrest]
    simp [Nat.add_comm 1]
  have h₃ : (⟨s.input, s.pos + 1 + ds.length + 1, s.aux⟩ : Parser).rest
      = CR :: LF :: (data ++ z) := by
    rw [Nat.add_assoc, Nat.add_assoc, rest_add, hrest]
    simp [Nat.add_comm 1]
  have h₄ : (⟨s.input, s.pos + 1 + ds.length + 1 + 2, s.aux⟩ : Parser).rest = data ++ z := by
    rw [Nat.add_assoc, Nat.add_assoc, Nat.add_assoc, rest_add, hrest]
    simp [Nat.add_comm 1]
  have hslice : (s.input.take (s.pos + 1 + ds.length + 1 + 2)).drop s.pos = literalHeader ds := by
    rw [List.drop_take, show s.pos + 1 + ds.length + 1 + 2 - s.pos = (literalHeader ds).length by
      rw [length_literalHeader]; omega]
    change s.rest.take _ = _
    rw [hrest, ← literalHeader, List.take_left]
  have hv₄ : (⟨s.input, s.pos + 1 + ds.length + 1 + 2, s.aux⟩ : Parser).Valid := by
    have hlen := congrArg List.length hrest
    rw [s.length_rest, ← literalHeader, List.length_append, length_literalHeader] at hlen
    simp only [Valid] at hv ⊢
    omega
  rw [parseLiteral_eq, run_position_bind, run_bind_ok (consumeByte_of_rest hrest), literalTail,
    run_bind_ok (parseNumber_of_rest hne hdig hlt (by simp; decide) h₁),
    run_bind_ok (consumeByte_of_rest h₂), run_bind_ok (consumeCrlf_of_rest h₃), literalBody,
    UInt32.toNat_ofNatLT, if_neg (Nat.not_lt.mpr hmax), ← hlen, literalPayload_of_rest hv₄ h₄]
  rw [hslice]
  simp only [show s.pos + 1 + ds.length + 1 + 2 = s.pos + (ds.length + 4) by omega]

theorem consumeByte_rest {s t : Parser} {b : UInt8} {v : Unit}
    (h : consumeByte b s = .ok (v, t)) : s.rest = b :: t.rest := by
  obtain ⟨hb, rfl⟩ := consumeByte_eq_ok h
  exact rest_eq_cons hb

theorem consumeCrlf_rest {s t : Parser} {v : Unit} (h : consumeCrlf s = .ok (v, t)) :
    s.rest = CRLF ++ t.rest := by
  obtain ⟨hcr, hlf, rfl⟩ := consumeCrlf_eq_ok h
  rw [rest_eq_cons hcr, rest_eq_cons hlf]
  rfl

theorem parseNumber_rest {s t : Parser} {n : UInt32} (h : parseNumber s = .ok (n, t)) :
    ∃ ds, ds ≠ [] ∧ (∀ d ∈ ds, isAsciiDigit d = true) ∧ n.toNat = decimalValue ds ∧
      s.rest = ds ++ t.rest := by
  rw [parseNumber_run] at h
  obtain ⟨hver, rfl⟩ := settle_eq_ok h
  have hne : s.rest.takeWhile isAsciiDigit ≠ [] := by
    intro hnil
    rw [hnil, numberVerdict, if_pos rfl] at hver
    split at hver <;> cases hver
  rw [numberVerdict_digits hne (takeWhile_digits _)] at hver
  split at hver
  · cases hver
    exact ⟨_, hne, takeWhile_digits _, UInt32.toNat_ofNatLT, rest_eq_takeWhile_append _ s⟩
  · cases hver

theorem literalBody_rest {s t : Parser} {brace : ℕ} {n : UInt32} {v : Slice}
    (h : literalBody brace n s = .ok (v, t)) :
    n.toNat ≤ MAX_LITERAL_SIZE ∧ v.bytes.length = n.toNat ∧ s.rest = v.bytes ++ t.rest := by
  rw [literalBody] at h
  split at h
  · cases h
  next hmax =>
    rw [literalPayload_run] at h
    split at h
    · cases h
    next hlen =>
      cases h
      refine ⟨Nat.le_of_not_lt hmax, ?_, ?_⟩
      · simp only [List.length_take, List.length_drop]
        omega
      · rw [rest_add]
        exact (List.take_append_drop _ _).symm

/-- **A literal that was read.** -/
theorem parseLiteral_rest {s t : Parser} {v : Slice} (h : parseLiteral s = .ok (v, t)) :
    ∃ ds, ds ≠ [] ∧ (∀ d ∈ ds, isAsciiDigit d = true) ∧ v.bytes.length = decimalValue ds ∧
      decimalValue ds ≤ MAX_LITERAL_SIZE ∧ s.rest = literalHeader ds ++ (v.bytes ++ t.rest) := by
  rw [parseLiteral_eq, run_position_bind] at h
  obtain ⟨_, t₁, h₁, h⟩ := run_bind_eq_ok h
  rw [literalTail] at h
  obtain ⟨n, t₂, h₂, h⟩ := run_bind_eq_ok h
  obtain ⟨_, t₃, h₃, h⟩ := run_bind_eq_ok h
  obtain ⟨_, t₄, h₄, h⟩ := run_bind_eq_ok h
  obtain ⟨ds, hne, hdig, hn, hds⟩ := parseNumber_rest h₂
  obtain ⟨hmax, hlen, hdata⟩ := literalBody_rest h
  refine ⟨ds, hne, hdig, hlen.trans hn, hn ▸ hmax, ?_⟩
  rw [consumeByte_rest h₁, hds, consumeByte_rest h₃, consumeCrlf_rest h₄, hdata, literalHeader]
  simp

/-- The literal, and the cursor and the record after it. -/
theorem parseLiteral_eq_ok {s t : Parser} {v : Slice} (hv : s.Valid)
    (h : parseLiteral s = .ok (v, t)) :
    ∃ ds, ds ≠ [] ∧ (∀ d ∈ ds, isAsciiDigit d = true) ∧ v.bytes.length = decimalValue ds ∧
      decimalValue ds ≤ MAX_LITERAL_SIZE ∧ s.rest = literalHeader ds ++ (v.bytes ++ t.rest) ∧
      v.offset = s.pos + (ds.length + 4) ∧ t.pos = v.offset + v.bytes.length ∧
      t.aux = { s.aux with literals := s.aux.literals ++ [⟨⟨s.pos, literalHeader ds⟩, v⟩] } := by
  obtain ⟨ds, hne, hdig, hlen, hmax, hrest⟩ := parseLiteral_rest h
  rw [parseLiteral_of_rest hv hne hdig hlen hmax hrest] at h
  obtain ⟨bytes, hbytes⟩ : ∃ b, v.bytes = b := ⟨_, rfl⟩
  rw [hbytes] at h hlen hrest
  cases h
  exact ⟨ds, hne, hdig, hlen, hmax, hrest, rfl, rfl, rfl⟩

/-! ### Lined text -/

/-- What was consumed is lined, with the literals that were recorded. -/
def linedTrace : Trace UInt8 Budget := fun n xs a b =>
  ∃ ls, b.literals = a.literals ++ ls ∧ Lined n xs ls

theorem linedTrace_plain (n : ℕ) (a : Budget) {xs : Bytes} (h : CR ∉ xs) :
    linedTrace n xs a a :=
  ⟨[], (List.append_nil _).symm, .plain h⟩

theorem CR_not_mem_digits {ds : Bytes} (h : ∀ d ∈ ds, isAsciiDigit d = true) : CR ∉ ds :=
  fun hcr => absurd (h CR hcr) (by decide)

theorem parseNumber_traces : Traces linedTrace lo next parseNumber := by
  intro s v t _ hok
  rw [parseNumber_run] at hok
  obtain ⟨_, rfl⟩ := settle_eq_ok hok
  rw [upTo_scanStop]
  exact linedTrace_plain _ _ (CR_not_mem_digits (takeWhile_digits _))

theorem expectNil_traces : Traces linedTrace lo next expectNil := by
  intro s v t hs hok
  obtain ⟨hk, rfl⟩ := expectNil_eq_ok hs.valid hok
  have hslice : s.upTo (s.pos + 3) = s.rest.take (ascii "NIL").length := by
    rw [upTo, List.drop_take, Nat.add_sub_cancel_left]
    rfl
  simp only [keywordAt, Bool.and_eq_true] at hk
  refine linedTrace_plain _ _ fun hcr => ?_
  rw [hslice] at hcr
  have hno : agreesCi (s.rest.take (ascii "NIL").length) (ascii "NIL") = false :=
    agreesCi_eq_false hcr (List.length_take_le _ _) (by decide +kernel)
  rw [agreesCi_take, hk.1.2] at hno
  cases hno

theorem parseLiteral_traces : Traces linedTrace lo next parseLiteral := by
  intro s v t hs hok
  have hm := parseLiteral_lawful.bounded hs hok
  obtain ⟨ds, hne, hdig, hlen, _, hrest, hoff, hpos, haux⟩ := parseLiteral_eq_ok hs.valid hok
  have hslice : s.upTo t.pos = literalHeader ds ++ v.bytes := by
    rw [upTo, List.drop_take]
    change s.rest.take _ = _
    rw [hrest, ← List.append_assoc]
    refine List.take_left' ?_
    rw [List.length_append, length_literalHeader]
    omega
  refine ⟨[⟨⟨s.pos, literalHeader ds⟩, v⟩], by rw [haux], ?_⟩
  have hline : Lined s.pos ([] ++ (literalHeader ds ++ (v.bytes ++ [])))
      [⟨⟨s.pos, literalHeader ds⟩, v⟩] := by
    refine .literal (l := ⟨⟨s.pos, literalHeader ds⟩, v⟩) List.not_mem_nil
      ⟨ds, hne, hdig, hlen.symm, rfl⟩ rfl ?_ (.plain List.not_mem_nil)
    rw [hoff, length_literalHeader]
  simpa [hslice] using hline

theorem checkedAttName_traces : Traces linedTrace lo next checkedAttName := by
  intro s v t _ hok
  rw [checkedAttName, run_position_bind, tokenFrom_eq] at hok
  obtain ⟨hver, rfl⟩ := settle_eq_ok hok
  rw [attNameVerdict] at hver
  split at hver
  · split at hver
    · cases hver
    next hcr => exact linedTrace_plain _ _ hcr
  · cases hver

theorem kit_keeps (att : Bool) : (kit att).Keeps linedTrace where
  nil n a := linedTrace_plain n a (by simp)
  append := by
    rintro n xs ys a b c ⟨ls, hb, hxs⟩ ⟨ls', hc, hys⟩
    exact ⟨ls ++ ls', by rw [hc, hb, List.append_assoc], hxs.append hys⟩
  step n a c hc := linedTrace_plain n a (by simpa using fun h : CR = c => hc h.symm)
  cost := by
    intro n a b h
    have h : chargeItem a = .ok b := h
    rw [chargeItem] at h
    split at h
    · cases h
    · cases h
      exact ⟨[], (List.append_nil _).symm, .plain (by simp)⟩
  prim := by
    rintro lo α p (_ | _ | _ | _)
    · exact parseNumber_traces
    · exact expectNil_traces
    · exact parseLiteral_traces
    · exact checkedAttName_traces

/-- **Assembled productions consume lined text.** -/
theorem lined_of_assembled {p : ParserM α} (h : Assembled (kit att) lo next p) :
    Traces linedTrace lo next p :=
  h.traces (kit_sound att) (kit_keeps att)

end Parser

end ImapRs
