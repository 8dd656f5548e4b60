import ImapRs.Core.RoundTrip
import ImapRs.Core.Payload
import ImapRs.Incremental.Accepts

/-!
# What is accepted as a FETCH response

The converse of the round trip, for FETCH: what the parser has taken for a FETCH response is a
header, a parenthesised list of attribute texts and the end of the line. The attribute texts are
the renderings, and beside them the forms that only a server writes: message data may be a quoted
string, which the parser keeps as it stands, and NIL may stand for any of it.

Together with the readings of these forms this says which bytes are FETCH responses, and what the
attributes of each of them are.

## Main definitions

* `AcceptedMessage`, `AcceptedAttribute` — message data and attributes in every accepted form
* `AcceptedFetch` — FETCH responses

## Main results

* `attribute_accepts`, `attribute_reads` — the texts of attributes
* `acceptedFetch_of_parseResponse`, `parseResponse_of_acceptedFetch` — the language of FETCH
-/

namespace ImapRs

open Incremental Incremental.Cursor

/-- Message data, and the bytes the parser takes it for. -/
inductive AcceptedMessage : Option Bytes → Bytes → Prop
  | nil {x : Bytes} : Spells "NIL" x → AcceptedMessage none x
  | quoted {raw x : Bytes} : validUtf8 raw = true → RendersQuoted raw x →
      AcceptedMessage (some raw) x
  | literal {data x : Bytes} : RendersLiteral data x → AcceptedMessage (some data) x

/-- An attribute in any form the parser accepts. -/
inductive AcceptedAttribute : FetchAttribute → Bytes → Prop
  | rendered {a : FetchAttribute} {x : Bytes} : RendersAttribute a x → AcceptedAttribute a x
  | rfc822 {data : Slice} {o : Option Bytes} {x y : Bytes} : Spells "RFC822" x →
      AcceptedMessage o y → data.bytes = o.getD [] →
      AcceptedAttribute (.rfc822 data) (x ++ SP :: y)
  | rfc822Header {data : Slice} {o : Option Bytes} {x y : Bytes} : Spells "RFC822.HEADER" x →
      AcceptedMessage o y → data.bytes = o.getD [] →
      AcceptedAttribute (.rfc822Header data) (x ++ SP :: y)
  | rfc822Text {data : Slice} {o : Option Bytes} {x y : Bytes} : Spells "RFC822.TEXT" x →
      AcceptedMessage o y → data.bytes = o.getD [] →
      AcceptedAttribute (.rfc822Text data) (x ++ SP :: y)
  | bodySection {sect : Option Str} {origin : Option UInt32} {data : Option Slice}
      {x y z w : Bytes} : Spells "BODY" x → RendersSection sect y → RendersOrigin origin z →
      AcceptedMessage (data.map Slice.bytes) w → AcceptedAttribute (.bodySection sect origin data)
        (x ++ byte '[' :: (y ++ byte ']' :: (z ++ SP :: w)))

/-- A FETCH response. -/
inductive AcceptedFetch (n : UInt32) (attributes : List FetchAttribute) : Bytes → Prop
  | mk {x y z : Bytes} : Decimal n x → Spells "FETCH" y → Parens AcceptedAttribute attributes z →
      AcceptedFetch n attributes (byte '*' :: SP :: (x ++ SP :: (y ++ SP :: (z ++ CRLF))))

namespace Parser

variable {next : Option UInt8} {α β : Type} {x y : Bytes}

/-! ### Tokens -/

theorem byte_accepts {b : UInt8} : Accepts next (consumeByte b) fun _ x => x = [b] := by
  intro s v t hs h
  exact ⟨(consumeByte_bounded b hs h).valid, [b], consumeByte_rest h, rfl⟩

/-- A byte, and what is behind it. -/
theorem byte_bind_accepts {b : UInt8} {f : Unit → ParserM β} {S : β → Bytes → Prop}
    (h : Accepts none (f ()) fun v x => S v (b :: x)) : Accepts next (consumeByte b >>= f) S := by
  refine byte_accepts.bind ?_
  rintro _ _ rfl
  exact h

theorem number_accepts : Accepts next parseNumber Decimal := by
  intro s n t hs h
  obtain ⟨ds, hne, hdig, hval, hrest⟩ := parseNumber_rest h
  exact ⟨(parseNumber_lawful.bounded hs h).valid, ds, hrest, ⟨hne, hdig⟩, hval.symm⟩

theorem quoted_accepts : Accepts next parseQuoted fun s x => RendersQuoted s.bytes x := by
  intro s v t hs h
  obtain ⟨hesc, hrest, _⟩ := parseQuoted_ok hs.valid h
  exact ⟨(parseQuoted_lawful.bounded hs h).valid, _, by simpa using hrest, hesc, rfl⟩

theorem literal_accepts : Accepts next parseLiteral fun v x => RendersLiteral v.bytes x := by
  intro s v t hs h
  obtain ⟨ds, hne, hdig, hlen, hmax, hrest⟩ := parseLiteral_rest h
  refine ⟨(parseLiteral_lawful.bounded hs h).valid, literalHeader ds ++ v.bytes, ?_, hlen ▸ hmax,
    ds, ⟨hne, hdig⟩, hlen.symm, rfl⟩
  rw [hrest, List.append_assoc]

theorem nil_accepts : Accepts next expectNil fun _ x => Spells "NIL" x := by
  intro s v t hs h
  have hvalid := (expectNil_bounded hs h).valid
  obtain ⟨hkw, rfl⟩ := expectNil_eq_ok hs.valid h
  have hlen := length_le_of_keywordAt hkw
  simp only [keywordAt, Bool.and_eq_true] at hkw
  refine ⟨hvalid, s.rest.take 3, ?_, ?_⟩
  · rw [rest_add, List.take_append_drop]
  · show (((s.rest.take 3).length == 3) && agreesCi (s.rest.take 3) (ascii "NIL")) = true
    have hkey : agreesCi (s.rest.take 3) (ascii "NIL") = true :=
      (agreesCi_take s.rest (ascii "NIL")).trans hkw.1.2
    have hthree : (s.rest.take 3).length = 3 := List.length_take_of_le hlen
    rw [hkey, hthree]
    rfl

/-- A word of the bytes in `k`. -/
theorem word_accepts {k : UInt8 → Bool} {what : String} :
    Accepts next (position >>= fun start => tokenFrom start k (wordVerdict what) : ParserM Str)
      (Verbatim fun w => w ≠ [] ∧ ∀ b ∈ w, k b = true) := by
  refine Accepts.token.mono ?_
  rintro s x ⟨hall, next, hs⟩
  cases next with
  | none => cases hs
  | some c =>
    rw [wordVerdict] at hs
    split at hs
    · cases hs
    next hne =>
      have hx := utf8Verdict_bytes hs
      exact ⟨by rw [hx]; exact ⟨hne, hall⟩, hx.symm⟩

theorem atom_accepts : Accepts next parseAtom (Verbatim IsAtom) := by
  rw [parseAtom_eq]
  exact word_accepts

theorem attName_accepts : Accepts next parseFetchAttName fun s x => x = s.bytes := by
  rw [parseFetchAttName_eq]
  exact word_accepts.mono fun _ _ h => h.2

theorem bracketed_accepts : Accepts next (readUntilByte (byte ']')) (Verbatim IsBracketed) := by
  rw [readUntilByte_eq]
  refine Accepts.token.mono ?_
  rintro s x ⟨hall, next, hs⟩
  cases next with
  | none => cases hs
  | some c =>
    rw [untilVerdict] at hs
    split at hs
    · have hx := utf8Verdict_bytes hs
      refine ⟨fun b hb => ?_, hx.symm⟩
      have hb := hall b (hx ▸ hb)
      simpa [not_or, and_assoc] using hb
    · cases hs

/-- **A flag.** -/
theorem flag_accepts : Accepts next parseFlagOrAtom (Verbatim IsFlag) := by
  intro s v t hs h
  have hvalid := (bounded_of_assembled parseFlagOrAtom_assembled hs h).valid
  rw [parseFlagOrAtom_eq, run_position_bind] at h
  obtain ⟨c, s, hpeek, h⟩ := run_bind_eq_ok h
  obtain ⟨hc, rfl⟩ := peek_eq_ok hpeek
  split at h
  next hslash =>
    rw [run_advance_bind, run_tryConsume_bind] at h
    have hfirst := rest_eq_cons hc
    rw [hslash] at hfirst
    split at h
    next hstar =>
      have hrest : s.rest = ascii "\\*" ++ (⟨s.input, s.pos + 1 + 1, s.aux⟩ : Parser).rest := by
        rw [hfirst, rest_eq_cons hstar]
        rfl
      rw [if_pos rfl, run_sliceFrom_bind] at h
      obtain ⟨hv, rfl⟩ := toStr_eq_ok h
      have hslice : (s.input.take (s.pos + 1 + 1)).drop s.pos = ascii "\\*" := slice_behind hrest
      exact ⟨hvalid, ascii "\\*", hrest, by rw [hv, hslice]; exact .inr (.inr rfl),
        by rw [hv, hslice]⟩
    · rw [if_neg Bool.false_ne_true, tokenFrom_eq] at h
      obtain ⟨hver, rfl⟩ := settle_eq_ok h
      have hscan := rest_eq_takeWhile_append isAtomChar (⟨s.input, s.pos + 1, s.aux⟩ : Parser)
      have hrest := hfirst.trans (congrArg (byte '\\' :: ·) hscan)
      have hstop : scanStop isAtomChar (⟨s.input, s.pos + 1, s.aux⟩ : Parser) = s.pos +
          (byte '\\' ::
            (⟨s.input, s.pos + 1, s.aux⟩ : Parser).rest.takeWhile isAtomChar).length := by
        rw [List.length_cons, Nat.add_comm (List.length _) 1]
        exact Nat.add_assoc _ _ _
      have hv := wordVerdict_bytes hver
      rw [hstop, slice_behind (y := (⟨s.input, _, s.aux⟩ : Parser).rest) hrest] at hv
      refine ⟨hvalid, _, hrest, .inr (.inl ⟨_, hv, fun b hb => ?_⟩), hv.symm⟩
      exact List.mem_takeWhile_imp hb
  · obtain ⟨ht, x, hrest, ⟨hne, hall⟩, hx⟩ := word_accepts hs.forget h
    exact ⟨ht, x, hrest, .inl ⟨hne, hall⟩, hx⟩

/-! ### Lists -/

section Lists

variable {R : α → Bytes → Prop} {element : ParserM α} {expected : String} {att : Bool}

/-- What a list consumes from an element on. -/
def FromElement (R : α → Bytes → Prop) (items result : List α) (x : Bytes) : Prop :=
  ∃ a l y z, result = items ++ a :: l ∧ R a y ∧ Spaced R l z ∧ x = y ++ (z ++ [byte ')'])

/-- One round of a list: an element, and a space when the list goes on. -/
theorem parenListStep_accepts (h : Accepts none element R) (items : List α) :
    Accepts none (parenListStep element expected items) fun v x => ∃ a y, R a y ∧
      (v = .again (items ++ [a]) ∧ x = y ++ [SP] ∨
        v = .done (items ++ [a]) ∧ x = y ++ [byte ')']) := by
  rw [parenListStep_eq]
  refine h.bind fun a y ha => .charge_bind (.peek_bind fun c => .ite ?_ fun _ => .ite ?_ ?_)
  · rintro rfl
    exact .advance_bind (.pure ⟨a, y, ha, .inl ⟨rfl, rfl⟩⟩)
  · rintro rfl
    exact .advance_bind (.pure ⟨a, y, ha, .inr ⟨rfl, rfl⟩⟩)
  · exact fun _ => .fail

theorem parenListLoop_accepts (he : Element att element) (h : Accepts none element R)
    (items : List α) : Accepts next (iterate .unexpectedEof (parenListStep element expected) items)
      (FromElement R items) := by
  refine .iterate (fun items => (parenListStep_lawful he items).bounded)
    (parenListStep_progress he) (fun items => ?_) (fun items => ?_) items
  · refine (parenListStep_accepts h items).mono ?_
    rintro v x ⟨a, y, ha, ⟨rfl, rfl⟩ | ⟨rfl, -⟩⟩ items' hitems
    · obtain rfl := Flow.again.inj hitems
      rintro result z ⟨b, l, w, w', rfl, hb, hl, rfl⟩
      exact ⟨a, b :: l, y, SP :: (w ++ w'), by simp, ha, .cons hb hl, by simp⟩
    · cases hitems
  · refine (parenListStep_accepts h items).mono ?_
    rintro v x ⟨a, y, ha, ⟨rfl, -⟩ | ⟨rfl, rfl⟩⟩ result hresult
    · cases hresult
    · obtain rfl := Flow.done.inj hresult
      exact ⟨a, [], y, [], rfl, ha, .nil, rfl⟩

/-- **A parenthesised list.** -/
theorem parenList_accepts (he : Element att element) (h : Accepts none element R) :
    Accepts next (parseParenList element expected) (Parens R) := by
  rw [parseParenList]
  refine byte_bind_accepts (.try_bind ?_ ?_)
  · exact .pure .nil
  · refine (parenListLoop_accepts he h []).mono ?_
    rintro result x ⟨a, l, y, z, rfl, ha, hl, rfl⟩
    exact .cons ha hl

end Lists

theorem flags_accepts : Accepts next parseParenAtomList RendersFlags :=
  parenList_accepts (parseFlagOrAtom_element : Element false _) flag_accepts

/-! ### Parenthesised values -/

/-- Text that closes all of `n` parentheses that are open, the innermost first. -/
def ClosesParens : ℕ → Bytes → Prop
  | 0, x => x = []
  | n + 1, x => ∃ y z, x = y ++ byte ')' :: z ∧ Inside (MAX_NESTING - n) y ∧ ClosesParens n z

/-- Text in front, inside the innermost parenthesis. -/
theorem ClosesParens.extend {n : ℕ} (h : ClosesParens (n + 1) y)
    (hx : ∀ {z}, Inside (MAX_NESTING - n) z → Inside (MAX_NESTING - n) (x ++ z)) :
    ClosesParens (n + 1) (x ++ y) := by
  obtain ⟨u, v, rfl, hu, hv⟩ := h
  exact ⟨x ++ u, v, (List.append_assoc ..).symm, hx hu, hv⟩

theorem ClosesParens.closing {n : ℕ} (h : ClosesParens n y) :
    ClosesParens (n + 1) (byte ')' :: y) :=
  ⟨[], y, rfl, .nil, h⟩

/-- One more parenthesis, which is closed before the others. -/
theorem ClosesParens.opening {n : ℕ} (hlt : n + 2 < 2 ^ 32) (h : ClosesParens (n + 2) y) :
    ClosesParens (n + 1) (byte '(' :: y) := by
  obtain ⟨u, _, rfl, hu, v, w, rfl, hv, hw⟩ := h
  have hlevel : MAX_NESTING - n = MAX_NESTING - (n + 1) + 1 := by
    rw [MAX_NESTING]
    omega
  rw [hlevel] at hv
  refine ⟨byte '(' :: (u ++ byte ')' :: v), w, by simp, ?_, hw⟩
  rw [hlevel]
  exact .group hu hv

/-- One round inside a parenthesised value. -/
theorem balancedStep_accepts (depth : ℕ) : Accepts none (balancedStep depth) fun v x =>
    (v = .done () ∧ depth = 0 ∧ x = []) ∨
      ∃ m, v = .again m ∧ ∀ y, ClosesParens m y → ClosesParens depth (x ++ y) := by
  rw [balancedStep]
  refine .ite (fun h => .pure (.inl ⟨rfl, h, rfl⟩)) fun h => ?_
  obtain ⟨n, rfl⟩ := Nat.exists_eq_succ_of_ne_zero h
  refine .peek_bind fun c => .ite ?_ fun hopen => .ite ?_ fun hclose => .ite ?_ fun hquote =>
    .ite ?_ fun hbrace => .ite ?_ fun hline => ?_
  · rintro rfl
    refine .advance_bind (.ite (fun hlt => .pure (.inr ⟨_, rfl, fun y hy => ?_⟩)) fun _ => .fail)
    exact .opening hlt hy
  · rintro rfl
    exact .advance_bind (.pure (.inr ⟨_, rfl, fun y hy => hy.closing⟩))
  · intro _
    exact quoted_accepts.map fun s x hs =>
      .inr ⟨_, rfl, fun y hy => hy.extend fun hz => .quoted s.utf8 hs hz⟩
  · intro _
    exact literal_accepts.map fun v x hv =>
      .inr ⟨_, rfl, fun y hy => hy.extend fun hz => .literal hv hz⟩
  · exact fun _ => .fail
  · have hplain : isPlainByte c = true := by
      rw [not_or] at hline
      simp [isPlainByte, hopen, hclose, hquote, hbrace, hline]
    exact .advance_bind (.pure (.inr ⟨_, rfl, fun y hy =>
      hy.extend (x := [c]) fun hz => .plain hplain hz⟩))

theorem balanced_accepts (depth : ℕ) :
    Accepts next (iterate .unexpectedEof balancedStep depth) fun _ x => ClosesParens depth x := by
  refine .iterate (R := fun depth _ x => ClosesParens depth x) balancedStep_bounded
    balancedStep_progress (fun depth => ?_) (fun depth => ?_) depth
  · refine (balancedStep_accepts depth).mono ?_
    rintro v x (⟨rfl, -⟩ | ⟨m, rfl, hm⟩) m' hm' b y hy
    · cases hm'
    · obtain rfl := Flow.again.inj hm'
      exact hm y hy
  · refine (balancedStep_accepts depth).mono ?_
    rintro v x (⟨rfl, rfl, rfl⟩ | ⟨m, rfl, -⟩) b hb
    · exact rfl
    · cases hb

/-- **A parenthesised value.** -/
theorem parenthesised_accepts :
    Accepts next parseBalancedParens fun v x => x = v.bytes ∧ IsParenthesised v.bytes := by
  have hvalue : Accepts none (consumeByte (byte '(') >>= fun _ =>
      iterate .unexpectedEof balancedStep 1) fun _ x => IsParenthesised x := by
    refine byte_bind_accepts ((balanced_accepts 1).mono ?_)
    rintro _ x ⟨y, z, rfl, hy, rfl⟩
    exact ⟨y, hy, rfl⟩
  have hb : Bounded 0 none (consumeByte (byte '(') >>= fun _ =>
      iterate .unexpectedEof balancedStep 1) :=
    (consumeByte_bounded _).bind fun _ => iterate_bounded balancedStep_bounded
      balancedStep_progress 1
  have hread : Accepts next _ _ := Accepts.capture
    (g := fun start bytes => (⟨start, bytes⟩ : Slice))
    (S := fun v x => x = v.bytes ∧ IsParenthesised v.bytes) hb hvalue fun _ _ _ hx => ⟨rfl, hx⟩
  simp only [bind_assoc] at hread
  exact hread

/-! ### Attributes -/

theorem nstringBytes_accepts :
    Accepts next parseNstringBytes fun v x => ∃ o, AcceptedMessage o x ∧ v.bytes = o.getD [] := by
  rw [parseNstringBytes]
  refine .peek_bind fun c => .ite (fun _ => ?_) fun _ => .ite (fun _ => ?_) fun _ => ?_
  · exact .position_bind fun start => quoted_accepts.map fun s x hs =>
      ⟨some s.bytes, .quoted s.utf8 hs, rfl⟩
  · exact literal_accepts.mono fun v x hv => ⟨some v.bytes, .literal hv, rfl⟩
  · refine nil_accepts.bind fun _ x hx => .position_bind fun _ => .pure ⟨none, ?_, rfl⟩
    rw [List.append_nil]
    exact .nil hx

theorem nstringBytesOptional_accepts : Accepts next parseNstringBytesOptional
    fun v x => AcceptedMessage (v.map Slice.bytes) x := by
  rw [parseNstringBytesOptional]
  refine .peek_bind fun c => .ite (fun _ => ?_) fun _ => .ite (fun _ => ?_) fun _ => ?_
  · exact .position_bind fun start => quoted_accepts.map fun s x hs => .quoted s.utf8 hs
  · exact literal_accepts.map fun v x hv => .literal hv
  · exact nil_accepts.map fun _ x hx => .nil hx

theorem origin_accepts : Accepts next parseOrigin RendersOrigin := by
  rw [parseOrigin]
  refine .try_bind (number_accepts.bind fun n x hn => ?_) (.pure .none)
  exact byte_bind_accepts (.pure (.some hn))

theorem bodySection_accepts {x : Bytes} (hx : Spells "BODY" x) : Accepts next parseBodySection
    fun a y => AcceptedAttribute a (x ++ byte '[' :: y) := by
  rw [parseBodySection]
  refine bracketed_accepts.bind ?_
  rintro sect _ ⟨hsect, rfl⟩
  have hrenders : RendersSection (if sect.isEmpty then none else some sect) sect.bytes := by
    by_cases hnil : sect.bytes = []
    · rw [Str.isEmpty, hnil]
      exact .whole
    · rw [Str.isEmpty, List.isEmpty_eq_false_iff.mpr hnil]
      exact .part hnil hsect
  refine byte_bind_accepts (origin_accepts.bind fun origin z hz => byte_bind_accepts ?_)
  refine nstringBytesOptional_accepts.map fun data w hw => ?_
  exact .bodySection hx hrenders hz hw

/-- A space and a value behind a name. -/
theorem spacedValue_accepts {p : ParserM α} {f : α → β} {P : α → Bytes → Prop}
    {S : β → Bytes → Prop} (hp : Accepts none p P) (hf : ∀ v y, P v y → S (f v) (x ++ SP :: y)) :
    Accepts next (consumeSp >>= fun _ => p >>= fun v => pure (f v)) fun b y => S b (x ++ y) :=
  byte_bind_accepts (hp.map hf)

/-- What an attribute name selects. -/
theorem fetchAttValue_accepts (name : Str) : Accepts next (fetchAttValue name)
    fun a y => AcceptedAttribute a (name.bytes ++ y) := by
  rw [fetchAttValue]
  refine .ite (fun h => ?_) fun _ => .ite (fun h => ?_) fun _ => .ite (fun h => ?_) fun _ =>
    .ite (fun h => ?_) fun _ => .ite (fun h => ?_) fun _ => .ite (fun h => ?_) fun _ =>
    .ite (fun h => ?_) fun _ => .ite (fun h => ?_) fun _ => .ite (fun h => ?_) fun _ =>
    .ite (fun h => ?_) fun _ => .fail
  · exact spacedValue_accepts number_accepts fun n y hn => .rendered (.uid h hn)
  · exact spacedValue_accepts flags_accepts fun l y hl => .rendered (.flags h hl)
  · exact spacedValue_accepts quoted_accepts fun s y hs => .rendered (.internalDate h hs)
  · exact spacedValue_accepts number_accepts fun n y hn => .rendered (.rfc822Size h hn)
  · refine spacedValue_accepts nstringBytes_accepts ?_
    rintro v y ⟨o, ho, hv⟩
    exact .rfc822 h ho hv
  · refine spacedValue_accepts nstringBytes_accepts ?_
    rintro v y ⟨o, ho, hv⟩
    exact .rfc822Header h ho hv
  · refine spacedValue_accepts nstringBytes_accepts ?_
    rintro v y ⟨o, ho, hv⟩
    exact .rfc822Text h ho hv
  · refine spacedValue_accepts parenthesised_accepts ?_
    rintro v _ ⟨rfl, hv⟩
    exact .rendered (.envelope h hv)
  · refine spacedValue_accepts parenthesised_accepts ?_
    rintro v _ ⟨rfl, hv⟩
    exact .rendered (.bodyStructure h hv)
  · refine .try_bind (bodySection_accepts h) ?_
    refine spacedValue_accepts parenthesised_accepts ?_
    rintro v _ ⟨rfl, hv⟩
    exact .rendered (.body h hv)

/-- **What is accepted as an attribute.** -/
theorem attribute_accepts : Accepts next parseOneFetchAtt AcceptedAttribute := by
  rw [parseOneFetchAtt]
  refine attName_accepts.bind ?_
  rintro name _ rfl
  exact fetchAttValue_accepts name

/-! ### Reading the accepted forms -/

variable {F : Bytes → Prop}

/-- A form of message data, by its first byte. -/
theorem message_reads {S : α → Prop} {o : Option Bytes} {quoted : ParserM α} {literal : ParserM α}
    {nil : ParserM α} (h : AcceptedMessage o x)
    (hquoted : ∀ s : Str, RendersQuoted s.bytes x → o = some s.bytes → ReadsBack x 0 F quoted S)
    (hliteral : ∀ data, RendersLiteral data x → o = some data → ReadsBack x 0 F literal S)
    (hnil : Spells "NIL" x → o = none → ReadsBack x 0 F nil S) :
    ReadsBack x 0 F (peek >>= fun c =>
      if c = byte '"' then quoted else if c = byte '{' then literal else nil) S := by
  cases h with
  | nil h => exact wordForm_readsBack (nil_eq h) (hnil h rfl)
  | @quoted raw _ hutf h => exact quotedForm_readsBack h (hquoted ⟨raw, hutf⟩ h rfl)
  | literal h => exact literalForm_readsBack h (hliteral _ h rfl)

theorem nstringBytes_reads {o : Option Bytes} (h : AcceptedMessage o x) :
    ReadsBack x 0 EndsWord parseNstringBytes fun v => v.bytes = o.getD [] := by
  rw [parseNstringBytes]
  refine message_reads h ?_ ?_ ?_
  · rintro s hs rfl
    exact .position_bind fun start => (quoted_readsBack hs).map fun v hv => by rw [hv]; rfl
  · rintro data hdata rfl
    exact literal_readsBack hdata
  · rintro hnil rfl
    exact (nil_readsBack hnil).bind_nil (d := 0) (fun _ _ => .position_bind fun _ => .pure rfl)
      fun _ hy => hy

theorem nstringBytesOptional_reads {o : Option Bytes} (h : AcceptedMessage o x) :
    ReadsBack x 0 EndsWord parseNstringBytesOptional fun v => v.map Slice.bytes = o := by
  rw [parseNstringBytesOptional]
  refine message_reads h ?_ ?_ ?_
  · rintro s hs rfl
    exact .position_bind fun start => (quoted_readsBack hs).map fun v hv => by rw [hv]; rfl
  · rintro data hdata rfl
    exact (literal_readsBack hdata).map fun v hv => congrArg some hv
  · rintro hnil rfl
    exact (nil_readsBack hnil).map fun _ _ => rfl

/-- **An attribute is read as what it was accepted as.** -/
theorem attribute_reads {a : FetchAttribute} (h : AcceptedAttribute a x) :
    ReadsBack x a.items EndsElement parseOneFetchAtt fun v => v.contents = a.contents := by
  cases h with
  | rendered h => exact attribute_readsBack h
  | rfc822 h hdata hbytes =>
    refine attValue_readsBack (f := .rfc822) h ⟨by decide, by decide +kernel⟩ (fun s hs => ?_)
      ((nstringBytes_reads hdata).following fun _ hy => hy.endsWord)
      fun _ hv => congrArg FetchAttribute.rfc822 (Slice.contents_eq (hv.trans hbytes.symm))
    simp +decide only [fetchAttValue, hs.eqCi_eq, if_true, if_false]
  | rfc822Header h hdata hbytes =>
    refine attValue_readsBack (f := .rfc822Header) h ⟨by decide, by decide +kernel⟩
      (fun s hs => ?_) ((nstringBytes_reads hdata).following fun _ hy => hy.endsWord)
      fun _ hv => congrArg FetchAttribute.rfc822Header (Slice.contents_eq (hv.trans hbytes.symm))
    simp +decide only [fetchAttValue, hs.eqCi_eq, if_true, if_false]
  | rfc822Text h hdata hbytes =>
    refine attValue_readsBack (f := .rfc822Text) h ⟨by decide, by decide +kernel⟩
      (fun s hs => ?_) ((nstringBytes_reads hdata).following fun _ hy => hy.endsWord)
      fun _ hv => congrArg FetchAttribute.rfc822Text (Slice.contents_eq (hv.trans hbytes.symm))
    simp +decide only [fetchAttValue, hs.eqCi_eq, if_true, if_false]
  | @bodySection sect origin data _ _ _ _ h hsect horigin hdata =>
    refine bodySection_readsBack h hsect horigin
      ((nstringBytesOptional_reads hdata).mono (fun _ hy => hy) fun v hv => ?_)
    have hcontents := congrArg (Option.map (Slice.mk 0)) hv
    rw [Option.map_map, Option.map_map] at hcontents
    exact hcontents

theorem accepted_starts {a : FetchAttribute} (h : AcceptedAttribute a x) :
    Starts (· ≠ byte ')') x := by
  cases h with
  | rendered h => exact attribute_starts h
  | _ => exact (spells_starts ‹Spells _ _› ⟨by decide, by decide +kernel⟩).append _

/-- **A FETCH response is read as what it was accepted as.** -/
theorem fetch_reads {n : UInt32} {attributes : List FetchAttribute}
    (h : AcceptedFetch n attributes x) :
    ReadsBack x (countItems FetchAttribute.items attributes) F parseResponse
      fun r => r.contents = (Response.data (.fetch n attributes)).contents := by
  obtain ⟨hn, hk, hlist⟩ := h
  have hread : ∀ F, ReadsBack _ _ F
      (parseParenList parseOneFetchAtt "expected SP or ) in FETCH atts") _ := fun F =>
    parenList_readsBack parseOneFetchAtt_element ⟨attribute_reads, accepted_starts⟩ hlist
  rw [parseResponse_eq]
  refine .peek_bind ?_
  rw [if_neg (by decide), if_pos rfl]
  refine numeric_readsBack hn hk ⟨by decide, by decide +kernel⟩ (fun s hs => ?_)
    fun _ => .cons (.inl rfl) _
  simp +decide only [numericKind, hs.eqCi_eq, if_true, if_false]
  refine sp_bind ((hread fun _ => True).bind_free (fun v hv => ?_) fun _ _ => trivial)
  exact crlf_readsBack (by rw [Response.contents, DataResponse.contents, hv]; rfl)

end Parser

/-- **What is accepted as a FETCH response.** -/
theorem acceptedFetch_of_parseResponse {frame rest : Bytes} {n : UInt32}
    {attributes : List FetchAttribute}
    (h : parseResponse frame = .ok (rest, .data (.fetch n attributes))) :
    ∃ x, AcceptedFetch n attributes x ∧ frame = x ++ rest := by
  obtain ⟨t, hrun, rfl⟩ := parseResponse_eq_ok h
  obtain ⟨hs, hframe, _, hdata⟩ := Parser.untaggedData_of_data hrun
  obtain ⟨kind, t₁, t₂, t₃, t₄, t₅, h₁, h₂, h₃, hkind, h₄, hlist, hcrlf⟩ := Parser.fetch_runs hdata
  obtain ⟨hv₁, x, hx, hn⟩ := Parser.number_accepts (Meets.zero hs) h₁
  obtain ⟨hv₂, _, hsp, rfl⟩ := Parser.byte_accepts (Meets.zero hv₁) h₂
  obtain ⟨hv₃, _, hy, -, rfl⟩ := Parser.atom_accepts (Meets.zero hv₂) h₃
  obtain ⟨hv₄, _, hsp', rfl⟩ := Parser.byte_accepts (Meets.zero hv₃) h₄
  obtain ⟨hv₅, z, hz, hlist⟩ := Parser.parenList_accepts Parser.parseOneFetchAtt_element
    Parser.attribute_accepts (Meets.zero hv₄) hlist
  refine ⟨_, .mk hn hkind hlist, ?_⟩
  rw [hframe, hx, hsp, hy, hsp', hz, Parser.consumeCrlf_rest hcrlf]
  simp [show ascii "* " = [byte '*', SP] from rfl]

/-- A response with the contents of a FETCH response is one. -/
theorem fetch_of_contents {r : Response} {n : UInt32} {attributes : List FetchAttribute}
    (h : r.contents = (Response.data (.fetch n attributes)).contents) :
    ∃ attributes', r = .data (.fetch n attributes') ∧
      attributes'.map FetchAttribute.contents = attributes.map FetchAttribute.contents := by
  cases r with
  | data d =>
    have hd := Response.data.inj h
    cases d with
    | fetch m attributes' =>
      obtain ⟨rfl, hattributes⟩ := DataResponse.fetch.inj hd
      exact ⟨attributes', rfl, hattributes⟩
    | _ => cases hd
  | _ => cases h

/-- **Every such text is accepted**, with anything behind it. -/
theorem parseResponse_of_acceptedFetch {x : Bytes} {n : UInt32} {attributes : List FetchAttribute}
    (h : AcceptedFetch n attributes x)
    (hitems : countItems FetchAttribute.items attributes ≤ MAX_ITEMS_PER_RESPONSE)
    (tail : Bytes) :
    ∃ attributes', parseResponse (x ++ tail) = .ok (tail, .data (.fetch n attributes')) ∧
      attributes'.map FetchAttribute.contents = attributes.map FetchAttribute.contents := by
  obtain ⟨r, a, hrun, -, hr⟩ := Parser.fetch_reads (F := fun _ => True) h
    (Parser.new (x ++ tail)) tail (Nat.zero_le _) rfl trivial hitems
  obtain ⟨attributes', rfl, hattributes⟩ := fetch_of_contents hr
  refine ⟨attributes', ?_, hattributes⟩
  rw [parseResponse, hrun]
  simp [Cursor.rest, Parser.new]

end ImapRs
