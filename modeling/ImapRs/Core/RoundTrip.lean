import ImapRs.Core.Canonical
import ImapRs.Core.ReadBack
import ImapRs.Core.Stalls

/-!
# Parsing undoes rendering

Every rendering of a response, whatever follows it in the buffer, is parsed as that response, and
exactly the rendering is consumed. The proof goes through the grammar from the inside out; at each
production, a keyword in any letter case selects the one branch that reads the rest of it.

## Main results

* `code_readsBack`, `attribute_readsBack`, `item_readsBack` — the parts of a response
* `parseResponse_renders` — the round trip
-/

namespace ImapRs

open Incremental Incremental.Cursor

namespace Parser

variable {x y z : Bytes} {c : ℕ} {F : Bytes → Prop} {α β : Type} {Q : α → Prop} {S : β → Prop}

theorem head_ne_of_starts {b d : UInt8} (h : Starts (· = b) y) (hne : b ≠ d) :
    y.head? ≠ some d := by
  obtain ⟨_, t, rfl, rfl⟩ := h
  simpa using hne

/-- A space and a value behind a name. -/
theorem spacedValue_readsBack {p : ParserM α} {f : α → β} (hp : ReadsBack y c F p Q)
    (hf : ∀ v, Q v → S (f v)) :
    ReadsBack (SP :: y) c F (consumeSp >>= fun _ => p >>= fun v => pure (f v)) S :=
  sp_bind (hp.map hf)

theorem flags_readsBack {flags : List Str} (h : RendersFlags flags x) :
    ReadsBack x flags.length F parseParenAtomList (· = flags) := by
  have helement : ReadsElement (Verbatim IsFlag) (fun _ => 0) id parseFlagOrAtom := by
    constructor
    · rintro s _ ⟨hs, rfl⟩
      exact flag_readsBack hs
    · rintro s _ ⟨hs, rfl⟩
      rcases hs with hs | ⟨t, hs, -⟩ | hs
      · obtain ⟨b, t, heq, hb⟩ := exists_cons hs.1 hs.2
        exact ⟨b, t, heq, (isAtomChar_ne hb).2.2.2.1⟩
      · exact ⟨_, _, hs, by decide⟩
      · exact ⟨byte '\\', [byte '*'], hs, by decide⟩
  have hread : ReadsBack x (countItems (fun _ => 0) flags) F parseParenAtomList
      fun v => v.map id = flags.map id :=
    parenList_readsBack (parseFlagOrAtom_element : Element false _) helement h
  simp only [countItems_zero, List.map_id] at hread
  exact hread

/-! ### Response codes -/

/-- The name of a code, and what the name selects. -/
theorem codeName_readsBack {name : String} {code : ResponseCode} (h : Spells name x)
    (hname : IsName name)
    (hargs : ∀ s : Str, Spells name s.bytes →
      ReadsBack y c (Starts (· = byte ']')) (respTextCodeArgs s) (· = code))
    (hy : ∀ z, Starts (· = byte ']') z → EndsCode (y ++ z)) :
    ReadsBack (x ++ y) c (Starts (· = byte ']')) parseRespTextCode (· = code) := by
  have hread : ReadsBack x 0 EndsCode parseCodeAtom (· = ⟨x, h.validUtf8 hname⟩) :=
    codeAtom_readsBack (s := ⟨x, h.validUtf8 hname⟩) (h.ne_nil hname.ne_nil)
      fun b hb => (nameByte (h.isNameChar hname b hb)).code
  refine hread.free_bind ?_ hy
  rintro _ rfl
  exact hargs _ h

/-- A code that is only its name. -/
theorem codeAlone_readsBack {name : String} {code : ResponseCode} (h : Spells name x)
    (hname : IsName name)
    (hargs : ∀ s : Str, Spells name s.bytes → respTextCodeArgs s = pure code) :
    ReadsBack x 0 (Starts (· = byte ']')) parseRespTextCode (· = code) := by
  rw [← List.append_nil x]
  refine codeName_readsBack h hname (fun s hs => ?_) fun z hz => hz.mono fun _ hb => .inl hb
  rw [hargs s hs]
  exact .pure rfl

/-- A code with a value. -/
theorem codeValue_readsBack {name : String} {p : ParserM α} {f : α → ResponseCode} {v : α}
    (h : Spells name x) (hname : IsName name)
    (hargs : ∀ s : Str, Spells name s.bytes → respTextCodeArgs s
      = consumeSp >>= fun _ => p >>= fun v => pure (f v))
    (hp : ReadsBack y c (Starts (· = byte ']')) p (· = v)) :
    ReadsBack (x ++ SP :: y) c (Starts (· = byte ']')) parseRespTextCode (· = f v) := by
  refine codeName_readsBack h hname (fun s hs => ?_) fun z _ => .cons (.inr rfl) _
  rw [hargs s hs]
  exact spacedValue_readsBack hp fun _ hw => congrArg f hw

theorem codeNumber_readsBack {n : UInt32} (h : Decimal n x) :
    ReadsBack x 0 (Starts (· = byte ']')) parseNumber (· = n) := by
  refine (number_readsBack h).following fun y hy => hy.mono ?_
  rintro _ rfl
  decide

/-- Any other code. -/
theorem otherArgs {s : Str} (h : ∀ known ∈ codeNames, s.eqCi known = false) :
    respTextCodeArgs s = (do
      if ← tryConsumeByte SP then return .other s (some (← readUntilByte (byte ']')))
      else pure (.other s none)) := by
  have hall : ∀ known ∈ codeNames, s.eqCi known = false := h
  simp only [codeNames, List.forall_mem_cons] at hall
  obtain ⟨h₁, h₂, h₃, h₄, h₅, h₆, h₇, h₈, h₉, h₁₀, h₁₁, -⟩ := hall
  simp only [respTextCodeArgs, h₁, h₂, h₃, h₄, h₅, h₆, h₇, h₈, h₉, h₁₀, h₁₁, Bool.false_eq_true,
    if_false]

theorem otherName_readsBack {name : Str} (h : IsCodeName name) :
    ReadsBack name.bytes 0 EndsCode parseCodeAtom (· = name) := by
  refine codeAtom_readsBack h.1 fun b hb => ?_
  have hne := h.2.1 b hb
  simp [hne]

/-- **A response code.** -/
theorem code_readsBack {code : ResponseCode} (h : RendersCode code x) :
    ReadsBack x code.items (Starts (· = byte ']')) parseRespTextCode (· = code) := by
  cases h with
  | alert h =>
    refine codeAlone_readsBack h ⟨by decide, by decide +kernel⟩ fun s hs => ?_
    simp +decide only [respTextCodeArgs, hs.eqCi_eq, if_true]
  | parse h =>
    refine codeAlone_readsBack h ⟨by decide, by decide +kernel⟩ fun s hs => ?_
    simp +decide only [respTextCodeArgs, hs.eqCi_eq, if_true, if_false]
  | readOnly h =>
    refine codeAlone_readsBack h ⟨by decide, by decide +kernel⟩ fun s hs => ?_
    simp +decide only [respTextCodeArgs, hs.eqCi_eq, if_true, if_false]
  | readWrite h =>
    refine codeAlone_readsBack h ⟨by decide, by decide +kernel⟩ fun s hs => ?_
    simp +decide only [respTextCodeArgs, hs.eqCi_eq, if_true, if_false]
  | tryCreate h =>
    refine codeAlone_readsBack h ⟨by decide, by decide +kernel⟩ fun s hs => ?_
    simp +decide only [respTextCodeArgs, hs.eqCi_eq, if_true, if_false]
  | uidNext h hn =>
    refine codeValue_readsBack h ⟨by decide, by decide +kernel⟩ (fun s hs => ?_)
      (codeNumber_readsBack hn)
    simp +decide only [respTextCodeArgs, hs.eqCi_eq, if_true, if_false]
  | uidValidity h hn =>
    refine codeValue_readsBack h ⟨by decide, by decide +kernel⟩ (fun s hs => ?_)
      (codeNumber_readsBack hn)
    simp +decide only [respTextCodeArgs, hs.eqCi_eq, if_true, if_false]
  | unseen h hn =>
    refine codeValue_readsBack h ⟨by decide, by decide +kernel⟩ (fun s hs => ?_)
      (codeNumber_readsBack hn)
    simp +decide only [respTextCodeArgs, hs.eqCi_eq, if_true, if_false]
  | capability h hcaps =>
    refine codeName_readsBack h ⟨by decide, by decide +kernel⟩ (fun s hs => ?_) fun z hz => ?_
    · simp +decide only [respTextCodeArgs, hs.eqCi_eq, if_true, if_false]
      refine ((capabilities_readsBack hcaps).following fun y hy => ?_).map fun _ hv => by rw [hv]
      exact hy.mono fun _ hb => .inl hb
    · cases hcaps with
      | nil => exact hz.mono fun _ hb => .inl hb
      | cons _ _ => exact .cons (.inr rfl) _
  | permanentFlags h hflags =>
    refine codeValue_readsBack h ⟨by decide, by decide +kernel⟩ (fun s hs => ?_)
      (flags_readsBack hflags)
    simp +decide only [respTextCodeArgs, hs.eqCi_eq, if_true, if_false]
  | badCharset h hflags =>
    refine codeName_readsBack h ⟨by decide, by decide +kernel⟩ (fun s hs => ?_)
      fun z _ => .cons (.inr rfl) _
    simp +decide only [respTextCodeArgs, hs.eqCi_eq, if_true, if_false]
    exact .try_pos ((flags_readsBack hflags).map fun _ hv => by rw [hv])
  | badCharsetNone h =>
    rw [← List.append_nil x]
    refine codeName_readsBack h ⟨by decide, by decide +kernel⟩ (fun s hs => ?_)
      fun z hz => hz.mono fun _ hb => .inl hb
    simp +decide only [respTextCodeArgs, hs.eqCi_eq, if_true, if_false]
    exact .try_neg (fun y hy => head_ne_of_starts hy (by decide)) (.pure rfl)
  | @other name hname =>
    have hread := (otherName_readsBack hname).bind_nil (q := respTextCodeArgs) (d := 0)
      (F := Starts (· = byte ']')) (S := (· = .other name none)) ?_ ?_
    · exact hread
    · rintro _ rfl
      rw [otherArgs hname.2.2]
      exact .try_neg (fun y hy => head_ne_of_starts hy (by decide)) (.pure rfl)
    · exact fun z hz => hz.mono fun _ hb => .inl hb
  | otherWith hname hextra =>
    refine (otherName_readsBack hname).free_bind ?_ fun z _ => .cons (.inr rfl) _
    rintro _ rfl
    rw [otherArgs hname.2.2]
    exact .try_pos ((bracketed_readsBack hextra).map fun _ hv => by rw [hv])

/-! ### Text -/

/-- **The text of a response, with or without a code.** -/
theorem text_code_readsBack {code : Option ResponseCode} {text : Str}
    (h : RendersText code text x) :
    ReadsBack x (codeItems code) (Starts (· = CR)) parseRespText (· = (code, text)) := by
  rw [parseRespText]
  cases h with
  | plain htext hhead =>
    have hnone : ReadsBack [] 0 (fun y => y.head? ≠ some (byte '[')) parseRespTextPrefix
      (· = none) :=
      .try_neg (fun _ hy => hy) (.pure rfl)
    refine hnone.free_bind (x := []) (fun _ hcode => ?_) fun y hy => ?_
    · exact (text_readsBack htext).map fun _ hv => by rw [hcode, hv]
    · rw [List.head?_append]
      cases hb : text.bytes.head? with
      | none => exact head_ne_of_starts hy (by decide)
      | some b => rwa [hb] at hhead
  | @coded code _ x hcode htext =>
    have hcoded : ReadsBack (byte '[' :: (x ++ [byte ']', SP])) code.items (fun _ => True)
        parseRespTextPrefix (· = some code) := by
      refine .try_pos ((code_readsBack hcode).bind_free (fun c hc => ?_) fun y _ => .self _ _)
      exact byte_bind (.try_pos (.pure (by rw [hc])))
    have htext' : byte '[' :: (x ++ byte ']' :: SP :: text.bytes)
        = byte '[' :: (x ++ [byte ']', SP]) ++ text.bytes := by
      simp
    rw [htext']
    refine hcoded.bind_free (fun c hc => ?_) fun _ _ => trivial
    exact (text_readsBack htext).map fun _ hv => by rw [hc, hv]

/-- The rest of a status response. -/
theorem finishStatus_readsBack {tag : Option Str} {status : Status} {code : Option ResponseCode}
    {text : Str} (h : RendersText code text x) :
    ReadsBack (SP :: (x ++ CRLF)) (codeItems code) F (finishStatus tag status)
      (· = .status ⟨tag, status, code, text⟩) := by
  have hread : ReadsBack (SP :: x) (codeItems code) (Starts (· = CR)) parseRespTextAfterKeyword
      (· = (code, text)) := .try_pos (text_code_readsBack h)
  rw [finishStatus]
  refine hread.bind_free (x := SP :: x) ?_ fun y _ => .self _ _
  rintro _ rfl
  exact crlf_readsBack rfl

/-! ### FETCH attributes -/

/-- The name of an attribute, and what the name selects. -/
theorem attName_bind {name : String} {S : FetchAttribute → Prop} (h : Spells name x)
    (hname : IsName name) (hvalue : ∀ s : Str, Spells name s.bytes →
      ReadsBack y c EndsElement (fetchAttValue s) S)
    (hy : ∀ z, Starts (fun b => isAttNameChar b = false) (y ++ z)) :
    ReadsBack (x ++ y) c EndsElement parseOneFetchAtt S := by
  have hread : ReadsBack x 0 (Starts fun b => isAttNameChar b = false) parseFetchAttName
      (· = ⟨x, h.validUtf8 hname⟩) :=
    attName_readsBack (s := ⟨x, h.validUtf8 hname⟩) (h.ne_nil hname.ne_nil)
      fun b hb => (nameByte (h.isNameChar hname b hb)).att
  refine hread.free_bind ?_ fun z _ => hy z
  rintro _ rfl
  exact hvalue _ h

/-- An attribute with one value behind a space. -/
theorem attValue_readsBack {name : String} {p : ParserM α} {f : α → FetchAttribute}
    {S : FetchAttribute → Prop} (h : Spells name x) (hname : IsName name)
    (hvalue : ∀ s : Str, Spells name s.bytes → fetchAttValue s
      = consumeSp >>= fun _ => p >>= fun v => pure (f v))
    (hp : ReadsBack y c EndsElement p Q) (hf : ∀ v, Q v → S (f v)) :
    ReadsBack (x ++ SP :: y) c EndsElement parseOneFetchAtt S := by
  refine attName_bind h hname (fun s hs => ?_) fun z => .cons (by decide) _
  rw [hvalue s hs]
  exact spacedValue_readsBack hp hf

theorem elementNumber_readsBack {n : UInt32} (h : Decimal n x) :
    ReadsBack x 0 EndsElement parseNumber (· = n) :=
  (number_readsBack h).following fun _ hy => hy.not_digit

theorem section_readsBack {sect : Option Str} (h : RendersSection sect x) :
    ReadsBack x 0 (Starts (· = byte ']')) (readUntilByte (byte ']'))
      fun s => (if s.isEmpty then none else some s) = sect := by
  cases h with
  | whole =>
    refine (bracketed_readsBack (s := Str.empty) nofun).mono (fun _ h => h) ?_
    rintro _ rfl
    rfl
  | @part sect hne h =>
    refine (bracketed_readsBack h).mono (fun _ h => h) ?_
    rintro _ rfl
    rw [Str.isEmpty, List.isEmpty_eq_false_iff.mpr hne]
    rfl

theorem origin_readsBack {origin : Option UInt32} (h : RendersOrigin origin x) :
    ReadsBack x 0 (Starts (· = SP)) parseOrigin (· = origin) := by
  rw [parseOrigin]
  cases h with
  | none => exact .try_neg (fun y hy => head_ne_of_starts hy (by decide)) (.pure rfl)
  | some hn =>
    refine .try_pos ((number_readsBack hn).free_bind (fun n hn => ?_)
      fun y _ => .cons (by decide) _)
    exact byte_bind (.pure (by rw [hn]))

/-- `BODY[` section `]`, an origin, and the data behind a space. -/
theorem bodySection_readsBack {sect : Option Str} {origin : Option UInt32} {data : Option Slice}
    {w : Bytes} (h : Spells "BODY" x) (hsect : RendersSection sect y)
    (horigin : RendersOrigin origin z)
    (hdata : ReadsBack w 0 EndsWord parseNstringBytesOptional
      fun v => v.map Slice.contents = data.map Slice.contents) :
    ReadsBack (x ++ byte '[' :: (y ++ byte ']' :: (z ++ SP :: w))) 0 EndsElement parseOneFetchAtt
      fun v => v.contents = (FetchAttribute.bodySection sect origin data).contents := by
  refine attName_bind h ⟨by decide, by decide +kernel⟩
    (fun s hs => ?_) fun z => .cons (by decide) _
  simp +decide only [fetchAttValue, hs.eqCi_eq, if_true, if_false]
  refine .try_pos ((section_readsBack hsect).free_bind (fun sect hsect => ?_)
    fun _ _ => .self _ _)
  refine byte_bind ((origin_readsBack horigin).free_bind (fun origin horigin => ?_)
    fun _ _ => .self _ _)
  refine sp_bind ((hdata.following fun _ hy => hy.endsWord).map fun v hv => ?_)
  rw [FetchAttribute.contents, hsect, horigin, hv]
  rfl

/-- **A FETCH attribute.** -/
theorem attribute_readsBack {a : FetchAttribute} (h : RendersAttribute a x) :
    ReadsBack x a.items EndsElement parseOneFetchAtt fun v => v.contents = a.contents := by
  cases h with
  | flags h hflags =>
    refine attValue_readsBack h ⟨by decide, by decide +kernel⟩
      (fun s hs => ?_) (flags_readsBack hflags)
      fun _ hv => by rw [hv]
    simp +decide only [fetchAttValue, hs.eqCi_eq, if_true, if_false]
  | internalDate h hdate =>
    refine attValue_readsBack h ⟨by decide, by decide +kernel⟩
      (fun s hs => ?_) (quoted_readsBack hdate)
      fun _ hv => by rw [hv]
    simp +decide only [fetchAttValue, hs.eqCi_eq, if_true, if_false]
  | rfc822Size h hn =>
    refine attValue_readsBack h ⟨by decide, by decide +kernel⟩
      (fun s hs => ?_) (elementNumber_readsBack hn)
      fun _ hv => by rw [hv]
    simp +decide only [fetchAttValue, hs.eqCi_eq, if_true, if_false]
  | rfc822 h hdata =>
    refine attValue_readsBack (f := .rfc822) h ⟨by decide, by decide +kernel⟩ (fun s hs => ?_)
      (bytes_readsBack hdata)
      fun _ hv => congrArg FetchAttribute.rfc822 (Slice.contents_eq hv)
    simp +decide only [fetchAttValue, hs.eqCi_eq, if_true, if_false]
  | rfc822Header h hdata =>
    refine attValue_readsBack (f := .rfc822Header) h ⟨by decide, by decide +kernel⟩ (fun s hs => ?_)
      (bytes_readsBack hdata)
      fun _ hv => congrArg FetchAttribute.rfc822Header (Slice.contents_eq hv)
    simp +decide only [fetchAttValue, hs.eqCi_eq, if_true, if_false]
  | rfc822Text h hdata =>
    refine attValue_readsBack (f := .rfc822Text) h ⟨by decide, by decide +kernel⟩ (fun s hs => ?_)
      (bytes_readsBack hdata)
      fun _ hv => congrArg FetchAttribute.rfc822Text (Slice.contents_eq hv)
    simp +decide only [fetchAttValue, hs.eqCi_eq, if_true, if_false]
  | envelope h hraw =>
    refine attValue_readsBack (f := .envelope) h ⟨by decide, by decide +kernel⟩ (fun s hs => ?_)
      (parenthesised_readsBack hraw) fun _ hv =>
        congrArg FetchAttribute.envelope (Slice.contents_eq hv)
    simp +decide only [fetchAttValue, hs.eqCi_eq, if_true, if_false]
  | body h hraw =>
    refine attName_bind h ⟨by decide, by decide +kernel⟩
      (fun s hs => ?_) fun z => .cons (by decide) _
    simp +decide only [fetchAttValue, hs.eqCi_eq, if_true, if_false]
    refine .try_neg (fun _ _ => ?_) (spacedValue_readsBack (parenthesised_readsBack hraw)
      fun _ hv => congrArg FetchAttribute.body (Slice.contents_eq hv))
    simp
    decide
  | bodyStructure h hraw =>
    refine attValue_readsBack (f := .bodyStructure) h ⟨by decide, by decide +kernel⟩
      (fun s hs => ?_)
      (parenthesised_readsBack hraw) fun _ hv =>
        congrArg FetchAttribute.bodyStructure (Slice.contents_eq hv)
    simp +decide only [fetchAttValue, hs.eqCi_eq, if_true, if_false]
  | bodySection h hsect horigin hdata =>
    exact bodySection_readsBack h hsect horigin (message_readsBack hdata)
  | uid h hn =>
    refine attValue_readsBack h ⟨by decide, by decide +kernel⟩
      (fun s hs => ?_) (elementNumber_readsBack hn)
      fun _ hv => by rw [hv]
    simp +decide only [fetchAttValue, hs.eqCi_eq, if_true, if_false]

theorem isNameChar_ne {b : UInt8} (h : isNameChar b = true) : b ≠ byte ')' :=
  (isAtomChar_ne (nameByte h).atom).2.2.2.1

theorem spells_starts {name : String} (h : Spells name x) (hname : IsName name) :
    Starts (· ≠ byte ')') x := by
  obtain ⟨b, t, rfl, hb⟩ := exists_cons (h.ne_nil hname.ne_nil) (h.isNameChar hname)
  exact ⟨b, t, rfl, isNameChar_ne hb⟩

theorem attribute_starts {a : FetchAttribute} (h : RendersAttribute a x) :
    Starts (· ≠ byte ')') x := by
  cases h <;> exact (spells_starts ‹Spells _ _› ⟨by decide, by decide +kernel⟩).append _

/-- **The attributes of a FETCH response.** -/
theorem attributes_readsBack {attributes : List FetchAttribute}
    (h : Parens RendersAttribute attributes x) :
    ReadsBack x (countItems FetchAttribute.items attributes) F parseFetchMsgAtt
      fun v => v.map FetchAttribute.contents = attributes.map FetchAttribute.contents :=
  parenList_readsBack parseOneFetchAtt_element ⟨attribute_readsBack, attribute_starts⟩ h

/-! ### STATUS items and mailbox listings -/

theorem itemValue_readsBack {key : Str} {n : UInt32} (hkey : IsAtom key.bytes) (hn : Decimal n y) :
    ReadsBack (key.bytes ++ SP :: y) 0 EndsElement parseStatusItem (· = statusItem key n) := by
  refine (atom_readsBack hkey).free_bind ?_ fun _ _ => .cons (by decide) _
  rintro _ rfl
  exact spacedValue_readsBack (elementNumber_readsBack hn) fun _ hv => by rw [hv]

theorem spells_isAtom {name : String} (h : Spells name x) (hname : IsName name) : IsAtom x :=
  ⟨h.ne_nil hname.ne_nil, fun b hb => (nameByte (h.isNameChar hname b hb)).atom⟩

/-- An item that the parser knows. -/
theorem knownItem_readsBack {name : String} {item : StatusItem} {n : UInt32} (h : Spells name x)
    (hname : IsName name) (hn : Decimal n y)
    (hitem : ∀ s : Str, Spells name s.bytes → statusItem s n = item) :
    ReadsBack (x ++ SP :: y) 0 EndsElement parseStatusItem (· = item) := by
  have hatom : IsAtom (⟨x, h.validUtf8 hname⟩ : Str).bytes := spells_isAtom h hname
  have hread := itemValue_readsBack hatom hn
  rwa [hitem ⟨x, h.validUtf8 hname⟩ h] at hread

/-- **A STATUS item.** -/
theorem item_readsBack {item : StatusItem} (h : RendersItem item x) :
    ReadsBack x 0 EndsElement parseStatusItem (· = item) := by
  cases h with
  | messages h hn =>
    refine knownItem_readsBack h ⟨by decide, by decide +kernel⟩ hn fun s hs => ?_
    simp +decide only [statusItem, hs.eqCi_eq, if_true]
  | recent h hn =>
    refine knownItem_readsBack h ⟨by decide, by decide +kernel⟩ hn fun s hs => ?_
    simp +decide only [statusItem, hs.eqCi_eq, if_true, if_false]
  | uidNext h hn =>
    refine knownItem_readsBack h ⟨by decide, by decide +kernel⟩ hn fun s hs => ?_
    simp +decide only [statusItem, hs.eqCi_eq, if_true, if_false]
  | uidValidity h hn =>
    refine knownItem_readsBack h ⟨by decide, by decide +kernel⟩ hn fun s hs => ?_
    simp +decide only [statusItem, hs.eqCi_eq, if_true, if_false]
  | unseen h hn =>
    refine knownItem_readsBack h ⟨by decide, by decide +kernel⟩ hn fun s hs => ?_
    simp +decide only [statusItem, hs.eqCi_eq, if_true, if_false]
  | @other n name _ hname hknown hn =>
    have hread := itemValue_readsBack hname hn
    simp only [itemNames, List.forall_mem_cons] at hknown
    obtain ⟨h₁, h₂, h₃, h₄, h₅, -⟩ := hknown
    rwa [show statusItem name n = .other n by
      simp only [statusItem, h₁, h₂, h₃, h₄, h₅, Bool.false_eq_true, if_false]] at hread

theorem item_starts {item : StatusItem} (h : RendersItem item x) : Starts (· ≠ byte ')') x := by
  cases h with
  | other hname _ _ =>
    obtain ⟨b, t, heq, hb⟩ := exists_cons hname.1 hname.2
    rw [heq]
    exact ⟨b, _, rfl, (isAtomChar_ne hb).2.2.2.1⟩
  | _ => exact (spells_starts ‹Spells _ _› ⟨by decide, by decide +kernel⟩).append _

theorem items_readsBack {items : List StatusItem} (h : Parens RendersItem items x) :
    ReadsBack x items.length F parseStatusItems (· = items) := by
  have hread : ReadsBack x (countItems (fun _ => 0) items) F parseStatusItems
      fun v => v.map id = items.map id :=
    parenList_readsBack (parseStatusItem_element : Element false _) ⟨item_readsBack, item_starts⟩ h
  simp only [countItems_zero, List.map_id] at hread
  exact hread

/-- The body of LIST and LSUB. -/
theorem listing_readsBack {flags : List Str} {delimiter : Option Str} {name : Str}
    (h : RendersListing flags delimiter name x) :
    ReadsBack x flags.length (Starts (· = CR)) parseListLsubBody
      (· = (flags, delimiter, name)) := by
  obtain ⟨hflags, hdelimiter, hname⟩ := h
  refine (flags_readsBack (F := fun _ => True) hflags).bind_free (fun _ hv => ?_) fun _ _ => trivial
  refine sp_bind ((nstring_readsBack hdelimiter).free_bind (fun _ hd => ?_)
    fun _ _ => .cons (by decide) _)
  refine spacedValue_readsBack ((astring_readsBack hname).following fun y hy => ?_)
    fun _ hn => by rw [hv, hd, hn]
  refine hy.mono ?_
  rintro _ rfl
  decide

/-! ### Data responses -/

/-- A keyword of letters that is not a status keyword. -/
structure IsDataName (name : String) : Prop where
  isName : IsName name
  letters : ∀ b ∈ ascii name, isLetter b = true
  noStatus : ∀ k ∈ statusKeywords, eqIgnoreAsciiCase (ascii name) k.2 = false

theorem isLetter_not_digit {b : UInt8} (h : isLetter b = true) : isAsciiDigit b = false := by
  have key : ∀ n : Fin 256, isLetter (UInt8.ofFin n) = true →
      isAsciiDigit (UInt8.ofFin n) = false := by
    decide +kernel
  exact key b.toFin h

/-- An untagged line that does not start with a status keyword. -/
theorem untagged_readsBack {S : Response → Prop} (hstatus : ∀ z, statusKeywordAt (x ++ z) = none)
    (h : ReadsBack x c F untaggedData S) :
    ReadsBack (byte '*' :: SP :: x) c F parseUntagged S := by
  refine byte_bind (sp_bind (noStatusKeyword_readsBack.free_bind (x := []) ?_ fun z _ => hstatus z))
  rintro _ rfl
  exact h

/-- **A data response with a name.** -/
theorem named_readsBack {name : String} {body : ParserM DataResponse} {d : DataResponse}
    (h : Spells name x) (hname : IsDataName name)
    (hbody : ∀ s : Str, Spells name s.bytes → namedData s = some body)
    (hread : ReadsBack y c (Starts (· = CR)) body fun v => v.contents = d.contents)
    (hy : ∀ z, Starts (fun b => b = SP ∨ b = CR) (y ++ (CRLF ++ z))) :
    ReadsBack (byte '*' :: SP :: (x ++ y ++ CRLF)) c F parseUntagged
      fun r => r.contents = (Response.data d).contents := by
  rw [List.append_assoc]
  refine untagged_readsBack (fun z => ?_) ?_
  · have hend : EndsWord (y ++ (CRLF ++ z)) := by
      refine (hy z).mono ?_
      rintro b (rfl | rfl) <;> decide
    rw [List.append_assoc, List.append_assoc, statusKeywordAt_spells h hname.isName hend,
      List.find?_eq_none]
    intro k hk
    rw [hname.noStatus k hk]
    decide
  · have hatom := atom_readsBack (s := ⟨x, h.validUtf8 hname.isName⟩) (spells_isAtom h hname.isName)
    have hline : ReadsBack (x ++ (y ++ CRLF)) c F parseNamedDataResponse
        fun r => r.contents = (Response.data d).contents := by
      rw [parseNamedDataResponse]
      refine .position_bind fun _ => hatom.free_bind (fun s hs => ?_) fun z _ => ?_
      · rw [hs, hbody _ h]
        refine hread.bind_free (fun v hv => ?_) fun _ _ => .self _ _
        exact crlf_readsBack (congrArg Response.data hv)
      · rw [List.append_assoc]
        refine (hy z).mono ?_
        rintro b (rfl | rfl) <;> decide
    obtain ⟨b, t, hx, hb⟩ := exists_cons (h.ne_nil hname.isName.ne_nil)
      (h.forall isLetter_asciiLower hname.letters)
    rw [untaggedData]
    rw [hx] at hline ⊢
    refine .peek_bind ?_
    rwa [if_neg (by rw [isLetter_not_digit hb]; decide)]

/-- What a number and a word select. -/
def numericKind (n : UInt32) (kind : Str) : ParserM Response := do
  if kind.eqCi "EXISTS" then do
    consumeCrlf
    pure (.data (.exists n))
  else if kind.eqCi "RECENT" then do
    consumeCrlf
    pure (.data (.recent n))
  else if kind.eqCi "EXPUNGE" then do
    consumeCrlf
    pure (.data (.expunge n))
  else if kind.eqCi "FETCH" then do
    consumeSp
    let attributes ← parseFetchMsgAtt
    consumeCrlf
    pure (.data (.fetch n attributes))
  else finishOtherDataWithPrefix

theorem parseNumericDataResponse_eq : parseNumericDataResponse = (do
    let n ← parseNumber
    consumeSp
    let kind ← parseAtom
    numericKind n kind) := rfl

/-- **A data response with a number.** -/
theorem numeric_readsBack {kind : String} {n : UInt32} {d : DataResponse} (hn : Decimal n x)
    (hk : Spells kind y) (hkind : IsName kind)
    (hread : ∀ s : Str, Spells kind s.bytes →
      ReadsBack z c F (numericKind n s) fun r => r.contents = (Response.data d).contents)
    (hz : ∀ w, Starts (fun b => b = SP ∨ b = CR) (z ++ w)) :
    ReadsBack (byte '*' :: SP :: (x ++ SP :: (y ++ z))) c F parseUntagged
      fun r => r.contents = (Response.data d).contents := by
  obtain ⟨b, t, hx, hb⟩ := exists_cons hn.1.1 hn.1.2
  refine untagged_readsBack (fun w => ?_) ?_
  · rw [hx]
    exact statusKeywordAt_digit hb _
  · have hatom := atom_readsBack (s := ⟨y, hk.validUtf8 hkind⟩) (spells_isAtom hk hkind)
    have hline : ReadsBack (x ++ SP :: (y ++ z)) c F parseNumericDataResponse
        fun r => r.contents = (Response.data d).contents := by
      rw [parseNumericDataResponse_eq]
      refine (number_readsBack hn).free_bind (fun m hm => ?_) fun _ _ => .cons (by decide) _
      refine sp_bind (hatom.free_bind (fun s hs => ?_) fun w _ => ?_)
      · rw [hm, hs]
        exact hread _ hk
      · refine (hz w).mono ?_
        rintro b (rfl | rfl) <;> decide
    rw [untaggedData]
    rw [hx] at hline ⊢
    refine .peek_bind ?_
    rwa [if_pos hb]

/-- A number and a word that end the line. -/
theorem count_readsBack {kind : String} {n : UInt32} {d : DataResponse} (hn : Decimal n x)
    (hk : Spells kind y) (hkind : IsName kind)
    (hsel : ∀ s : Str, Spells kind s.bytes →
      numericKind n s = consumeCrlf >>= fun _ => pure (.data d)) :
    ReadsBack (byte '*' :: SP :: (x ++ SP :: y ++ CRLF)) 0 F parseUntagged
      fun r => r.contents = (Response.data d).contents := by
  rw [List.append_assoc, List.cons_append]
  refine numeric_readsBack hn hk hkind (fun s hs => ?_) fun _ => .cons (.inr rfl) _
  rw [hsel s hs]
  exact crlf_readsBack rfl

theorem spaced_starts {R : α → Bytes → Prop} {l : List α} (h : Spaced R l y) (z : Bytes) :
    Starts (fun b => b = SP ∨ b = CR) (y ++ (CRLF ++ z)) := by
  cases h with
  | nil => exact .cons (.inr rfl) _
  | cons _ _ => exact .cons (.inl rfl) _

/-- **A data response.** -/
theorem data_readsBack {d : DataResponse} (h : RendersData d x) :
    ReadsBack (byte '*' :: SP :: (x ++ CRLF)) d.items F parseUntagged
      fun r => r.contents = (Response.data d).contents := by
  cases h with
  | capability h hcaps =>
    refine named_readsBack h ⟨⟨by decide, by decide +kernel⟩, by decide +kernel, by decide⟩
      (fun s hs => ?_)
      (((capabilities_readsBack hcaps).following fun y hy => hy.mono fun _ hb => .inr hb).map
        (g := .capability) fun _ hv => by rw [hv]) (spaced_starts hcaps)
    simp +decide only [namedData, hs.eqCi_eq, if_true]
  | list h hlisting =>
    refine named_readsBack h ⟨⟨by decide, by decide +kernel⟩, by decide +kernel, by decide⟩
      (fun s hs => ?_)
      (spacedValue_readsBack (f := fun r => .list r.1 r.2.1 r.2.2) (listing_readsBack hlisting)
        fun _ hv => by rw [hv]) fun _ => .cons (.inl rfl) _
    simp +decide only [namedData, hs.eqCi_eq, if_true, if_false]
  | lsub h hlisting =>
    refine named_readsBack h ⟨⟨by decide, by decide +kernel⟩, by decide +kernel, by decide⟩
      (fun s hs => ?_)
      (spacedValue_readsBack (f := fun r => .lsub r.1 r.2.1 r.2.2) (listing_readsBack hlisting)
        fun _ hv => by rw [hv]) fun _ => .cons (.inl rfl) _
    simp +decide only [namedData, hs.eqCi_eq, if_true, if_false]
  | @status mailbox items x y z h hmailbox hitems =>
    have hread : ReadsBack (SP :: (y ++ SP :: z)) items.length (Starts (· = CR)) (do
        consumeSp
        let mailbox ← parseAstring
        consumeSp
        let items ← parseStatusItems
        return DataResponse.status mailbox items)
        fun v => v.contents = (DataResponse.status mailbox items).contents := by
      refine sp_bind ((astring_readsBack hmailbox).free_bind (fun _ hm => ?_)
        fun _ _ => .cons (by decide) _)
      exact spacedValue_readsBack (items_readsBack hitems) fun _ hv => by rw [hm, hv]
    refine named_readsBack h ⟨⟨by decide, by decide +kernel⟩, by decide +kernel, by decide⟩
      (fun s hs => ?_) hread
      fun _ => .cons (.inl rfl) _
    simp +decide only [namedData, hs.eqCi_eq, if_true, if_false]
  | search h hids =>
    refine named_readsBack h ⟨⟨by decide, by decide +kernel⟩, by decide +kernel, by decide⟩
      (fun s hs => ?_)
      (((searchIds_readsBack hids).following fun y hy => hy.mono fun _ hb => .inr hb).map
        (g := .search) fun _ hv => by rw [hv]) (spaced_starts hids)
    simp +decide only [namedData, hs.eqCi_eq, if_true, if_false]
  | flags h hflags =>
    refine named_readsBack h ⟨⟨by decide, by decide +kernel⟩, by decide +kernel, by decide⟩
      (fun s hs => ?_)
      (spacedValue_readsBack (f := .flags) (flags_readsBack hflags) fun _ hv => by rw [hv])
      fun _ => .cons (.inl rfl) _
    simp +decide only [namedData, hs.eqCi_eq, if_true, if_false]
  | «exists» hn hk =>
    refine count_readsBack hn hk ⟨by decide, by decide +kernel⟩ fun s hs => ?_
    simp +decide only [numericKind, hs.eqCi_eq, if_true]
  | recent hn hk =>
    refine count_readsBack hn hk ⟨by decide, by decide +kernel⟩ fun s hs => ?_
    simp +decide only [numericKind, hs.eqCi_eq, if_true, if_false]
  | expunge hn hk =>
    refine count_readsBack hn hk ⟨by decide, by decide +kernel⟩ fun s hs => ?_
    simp +decide only [numericKind, hs.eqCi_eq, if_true, if_false]
  | @fetch n attributes x y z hn hk hattributes =>
    have htext : x ++ SP :: (y ++ SP :: z) ++ CRLF = x ++ SP :: (y ++ SP :: (z ++ CRLF)) := by simp
    rw [htext]
    refine numeric_readsBack hn hk ⟨by decide, by decide +kernel⟩ (fun s hs => ?_)
      fun _ => .cons (.inl rfl) _
    simp +decide only [numericKind, hs.eqCi_eq, if_true, if_false]
    refine sp_bind ((attributes_readsBack (F := fun _ => True) hattributes).bind_free
      (fun v hv => ?_) fun _ _ => trivial)
    exact crlf_readsBack (by rw [Response.contents, DataResponse.contents, hv]; rfl)

/-! ### Responses -/

/-- **A response, by the byte it starts with.** -/
theorem response_readsBack {r : Response} (h : Renders r x) :
    ReadsBack x r.items F parseResponse fun r' => r'.contents = r.contents := by
  rw [parseResponse_eq]
  cases h with
  | «continue» htext =>
    refine .peek_bind ?_
    rw [if_pos rfl]
    refine byte_bind (sp_bind ((text_code_readsBack htext).bind_free ?_ fun _ _ => .self _ _))
    rintro _ rfl
    exact crlf_readsBack rfl
  | untagged hstatus htext =>
    refine .peek_bind ?_
    rw [if_neg (by decide), if_pos rfl]
    refine byte_bind (sp_bind ((statusKeyword_readsBack hstatus).free_bind ?_
      fun _ _ => .cons (by decide) _))
    rintro _ rfl
    exact (finishStatus_readsBack htext).mono (fun _ h => h) fun _ hv => by rw [hv]
  | @tagged tag status code text x y htag hstatus htext =>
    have hline : ReadsBack (tag.bytes ++ SP :: (x ++ SP :: (y ++ CRLF))) (codeItems code) F
        parseTagged fun r' => r'.contents =
          (Response.status ⟨tag, status, code, text⟩).contents := by
      refine (tag_readsBack htag).free_bind (fun _ htag => ?_) fun _ _ => .self _ _
      refine sp_bind ((statusKeyword_readsBack hstatus).free_bind ?_ fun _ _ => .cons (by decide) _)
      rintro _ rfl
      exact (finishStatus_readsBack htext).mono (fun _ h => h) fun _ hv => by rw [hv, htag]
    obtain ⟨hne, -, hplus, hstar⟩ := htag
    obtain ⟨b, t, hb⟩ := List.exists_cons_of_ne_nil hne
    rw [hb, List.head?_cons, ne_eq, Option.some.injEq] at hplus hstar
    rw [hb] at hline ⊢
    refine .peek_bind ?_
    rwa [if_neg hplus, if_neg hstar]
  | data hdata =>
    refine .peek_bind ?_
    rw [if_neg (by decide), if_pos rfl]
    exact data_readsBack hdata

end Parser

/-- A rendering that stays within the item budget, with anything behind it. -/
theorem parseResponse_of_renders {r : Response} {x : Bytes} (h : Renders r x)
    (hitems : r.items ≤ MAX_ITEMS_PER_RESPONSE) (tail : Bytes) :
    ∃ r', parseResponse (x ++ tail) = .ok (tail, r') ∧ r'.contents = r.contents := by
  obtain ⟨r', a, hrun, -, hr'⟩ := Parser.response_readsBack (F := fun _ => True) h
    (Parser.new (x ++ tail)) tail (Nat.zero_le _) rfl trivial hitems
  refine ⟨r', ?_, hr'⟩
  rw [parseResponse, hrun]
  simp [Cursor.rest, Parser.new]

/-- **Parsing undoes rendering.** An expressible response within the item budget has a rendering,
and each of its renderings, with anything behind it, is parsed as that response; what is behind it
is left. -/
theorem parseResponse_renders {r : Response} (h : r.Expressible)
    (hitems : r.items ≤ MAX_ITEMS_PER_RESPONSE) :
    Renders r (render r) ∧ ∀ x, Renders r x → ∀ tail,
      ∃ r', parseResponse (x ++ tail) = .ok (tail, r') ∧ r'.contents = r.contents :=
  ⟨renders_render h, fun _ hx tail => parseResponse_of_renders hx hitems tail⟩

/-- A response with a list of lists, a partial body, a nested value and a literal. -/
def sampleFetch : Response :=
  .data (.fetch 12 [.flags [⟨ascii "\\Seen", by decide⟩, ⟨ascii "\\*", by decide⟩],
    .bodySection (some ⟨ascii "TEXT", by decide⟩) (some 7) (some ⟨0, ascii "a)b"⟩),
    .envelope ⟨0, ascii "((NIL))"⟩])

theorem sampleFetch_expressible : sampleFetch.Expressible := by
  have hnil : ∀ n, Inside n (ascii "NIL") := fun n =>
    .plain (by decide) (.plain (by decide) (.plain (by decide) .nil))
  have hinside : Inside MAX_NESTING (byte '(' :: (ascii "NIL" ++ byte ')' :: [])) :=
    Inside.group (n := 4294967293) (hnil _) .nil
  change ∀ a ∈ _, FetchAttribute.Expressible a
  simp only [List.forall_mem_cons]
  refine ⟨?_, ⟨?_, ?_⟩, ⟨_, hinside, rfl⟩, by simp⟩
  · change ∀ s ∈ _, IsFlag (Str.bytes s)
    simp only [List.forall_mem_cons]
    exact ⟨.inr (.inl ⟨ascii "Seen", rfl, by decide +kernel⟩), .inr (.inr rfl), by simp⟩
  · rintro _ ⟨⟩
    exact ⟨by decide, by rw [IsBracketed]; decide +kernel⟩
  · rintro _ ⟨⟩
    rw [Slice.FitsLiteral]
    decide

theorem parseResponse_renders_fetch :
    render sampleFetch = ascii "* 12 FETCH (FLAGS (\\Seen \\*) " ++
      ascii "BODY[TEXT]<7> \x7b3\x7d\r\na)b ENVELOPE ((NIL)))\r\n"
      ∧ Renders sampleFetch (render sampleFetch) ∧ ∀ x, Renders sampleFetch x → ∀ tail,
        ∃ r, parseResponse (x ++ tail) = .ok (tail, r) ∧ r.contents = sampleFetch.contents :=
  ⟨by decide +kernel, parseResponse_renders sampleFetch_expressible (by decide)⟩

end ImapRs
