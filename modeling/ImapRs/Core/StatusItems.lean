import ImapRs.Incremental.Rejects
import ImapRs.Core.RoundTrip

/-!
# STATUS responses with wide numbers

A STATUS response names a mailbox and gives pairs of an attribute and a number. Five of the
attributes carry 32-bit numbers; of the newer ones some carry more, a mod-sequence or a size in
octets up to 63 bits. The parser knows the five by name and keeps the number of any other, but it
reads every number the same way, as 32 bits wide. So a pair with a wide number does not become an
item that is surfaced and not decoded further: it is an error, and the response is lost.

## Main definitions

* `WritesStatus` — the line of a STATUS response, in every way to write it
* `Carries` — the item that surfaces a pair

## Main results

* `parseResponse_status` — a STATUS response is accepted exactly when no number is too wide, with
  one item per pair
-/

namespace ImapRs

open Incremental Incremental.Cursor

/-- How a mailbox name is written. -/
inductive Encoding where
  | atom
  | quoted
  | literal
  deriving DecidableEq, Repr

/-- The bytes are a mailbox name in an encoding. What a quoted string stands for is kept in escaped
form, and a literal may announce any length. -/
def Encoding.Writes (mailbox : Str) (x : Bytes) : Encoding → Prop
  | .atom => IsAtom mailbox.bytes ∧ x = mailbox.bytes
  | .quoted => RendersQuoted mailbox.bytes x
  | .literal => ∃ ds, Digits ds ∧ decimalValue ds = mailbox.bytes.length ∧
      x = literalHeader ds ++ mailbox.bytes

/-- An attribute and a number of any size. -/
def WritesPair (pair : Str × ℕ) (x : Bytes) : Prop :=
  IsAtom pair.1.bytes ∧
    ∃ ds, Digits ds ∧ decimalValue ds = pair.2 ∧ x = pair.1.bytes ++ SP :: ds

/-- The line of a STATUS response. -/
def WritesStatus (enc : Encoding) (mailbox : Str) (pairs : List (Str × ℕ)) (x : Bytes) : Prop :=
  ∃ name y z, Spells "STATUS" name ∧ enc.Writes mailbox y ∧ Parens WritesPair pairs z ∧
    x = byte '*' :: SP :: (name ++ SP :: (y ++ SP :: z) ++ CRLF)

/-- The item that surfaces a pair: the number under the attribute's name, or by itself. -/
inductive Carries : Str × ℕ → StatusItem → Prop
  | messages {s : Str} {n : UInt32} : Spells "MESSAGES" s.bytes → Carries (s, n.toNat) (.messages n)
  | recent {s : Str} {n : UInt32} : Spells "RECENT" s.bytes → Carries (s, n.toNat) (.recent n)
  | uidNext {s : Str} {n : UInt32} : Spells "UIDNEXT" s.bytes → Carries (s, n.toNat) (.uidNext n)
  | uidValidity {s : Str} {n : UInt32} : Spells "UIDVALIDITY" s.bytes →
      Carries (s, n.toNat) (.uidValidity n)
  | unseen {s : Str} {n : UInt32} : Spells "UNSEEN" s.bytes → Carries (s, n.toNat) (.unseen n)
  | other {s : Str} {n : UInt32} : (∀ known ∈ itemNames, s.eqCi known = false) →
      Carries (s, n.toNat) (.other n)

/-- The numbers an attribute may carry: 32 bits for the five that are known, 63 for the others. -/
def Admissible (pair : Str × ℕ) : Prop :=
  pair.2 < 2 ^ 63 ∧ ∀ known ∈ itemNames, pair.1.eqCi known = true → pair.2 < 2 ^ 32

/-! ### Accepted -/

variable {enc : Encoding} {mailbox : Str} {pair : Str × ℕ} {pairs : List (Str × ℕ)}
  {item : StatusItem} {x y : Bytes}

theorem Encoding.Writes.rendersAstring (h : enc.Writes mailbox x)
    (hlit : enc = .literal → mailbox.bytes.length ≤ MAX_LITERAL_SIZE) :
    RendersAstring mailbox x := by
  cases enc with
  | atom =>
    obtain ⟨hatom, rfl⟩ := h
    exact .atom hatom
  | quoted => exact .quoted h
  | literal => exact .literal ⟨hlit rfl, h⟩

/-- A number that is not too wide has an item to carry it. -/
theorem exists_carries (pair : Str × ℕ) (hn : pair.2 < 2 ^ 32) : ∃ item, Carries pair item := by
  obtain ⟨s, n⟩ := pair
  obtain ⟨m, rfl⟩ : ∃ m : UInt32, n = m.toNat := ⟨.ofNatLT n hn, UInt32.toNat_ofNatLT.symm⟩
  by_cases h₁ : s.eqCi "MESSAGES" = true
  · exact ⟨_, .messages h₁⟩
  by_cases h₂ : s.eqCi "RECENT" = true
  · exact ⟨_, .recent h₂⟩
  by_cases h₃ : s.eqCi "UIDNEXT" = true
  · exact ⟨_, .uidNext h₃⟩
  by_cases h₄ : s.eqCi "UIDVALIDITY" = true
  · exact ⟨_, .uidValidity h₄⟩
  by_cases h₅ : s.eqCi "UNSEEN" = true
  · exact ⟨_, .unseen h₅⟩
  refine ⟨_, .other fun known hknown => ?_⟩
  simp only [itemNames, List.mem_cons, List.not_mem_nil, or_false] at hknown
  rcases hknown with rfl | rfl | rfl | rfl | rfl <;> exact Bool.eq_false_iff.mpr ‹_›

theorem WritesPair.rendersItem (h : WritesPair pair x) (hitem : Carries pair item) :
    RendersItem item x := by
  obtain ⟨hatom, ds, hds, hval, rfl⟩ := h
  cases hitem with
  | messages hname => exact .messages hname ⟨hds, hval⟩
  | recent hname => exact .recent hname ⟨hds, hval⟩
  | uidNext hname => exact .uidNext hname ⟨hds, hval⟩
  | uidValidity hname => exact .uidValidity hname ⟨hds, hval⟩
  | unseen hname => exact .unseen hname ⟨hds, hval⟩
  | other hname => exact .other hatom hname ⟨hds, hval⟩

theorem spaced_pairs (h : Spaced WritesPair pairs x) (hn : ∀ p ∈ pairs, p.2 < 2 ^ 32) :
    ∃ items, Spaced RendersItem items x ∧ List.Forall₂ Carries pairs items := by
  induction h with
  | nil => exact ⟨[], .nil, .nil⟩
  | @cons pair pairs x y hpair _ ih =>
    obtain ⟨hhead, htail⟩ := List.forall_mem_cons.mp hn
    obtain ⟨item, hitem⟩ := exists_carries pair hhead
    obtain ⟨items, hrenders, hitems⟩ := ih htail
    exact ⟨item :: items, .cons (hpair.rendersItem hitem) hrenders, .cons hitem hitems⟩

/-- Pairs whose numbers are not too wide are items on the wire. -/
theorem parens_pairs (h : Parens WritesPair pairs x) (hn : ∀ p ∈ pairs, p.2 < 2 ^ 32) :
    ∃ items, Parens RendersItem items x ∧ List.Forall₂ Carries pairs items := by
  cases h with
  | nil => exact ⟨[], .nil, .nil⟩
  | cons hpair hpairs =>
    obtain ⟨hhead, htail⟩ := List.forall_mem_cons.mp hn
    obtain ⟨item, hitem⟩ := exists_carries _ hhead
    obtain ⟨items, hrenders, hitems⟩ := spaced_pairs hpairs htail
    exact ⟨item :: items, .cons (hpair.rendersItem hitem) hrenders, .cons hitem hitems⟩

theorem accepts_status (h : WritesStatus enc mailbox pairs x)
    (hmax : pairs.length ≤ MAX_ITEMS_PER_RESPONSE) (hn : ∀ p ∈ pairs, p.2 < 2 ^ 32)
    (hlit : enc = .literal → mailbox.bytes.length ≤ MAX_LITERAL_SIZE) :
    ∃ items, parseResponse x = .ok ([], .data (.status mailbox items)) ∧
      List.Forall₂ Carries pairs items := by
  obtain ⟨name, y, z, hname, hy, hz, rfl⟩ := h
  obtain ⟨items, hitems, hcarries⟩ := parens_pairs hz hn
  rw [hcarries.length_eq] at hmax
  obtain ⟨r, hrun, hr⟩ := parseResponse_of_renders
    (.data (.status hname (hy.rendersAstring hlit) hitems)) hmax []
  rw [List.append_nil] at hrun
  refine ⟨items, ?_, hcarries⟩
  cases r with
  | data d =>
    cases d with
    | status m l =>
      cases hr
      exact hrun
    | _ => cases hr
  | _ => cases hr

/-! ### Rejected -/

namespace Parser

variable {β : Type} {F : Bytes → Prop} {E : ParseError → Prop} {c : ℕ} {t : Bytes}

/-- What is read in front of the end of a computation is read by itself. -/
theorem alone_readsBack {p : ParserM Unit}
    (h : ReadsBack x 0 F (p >>= fun _ => pure ()) fun _ => True) :
    ReadsBack x 0 F p fun _ => True := by
  rwa [show (p >>= fun _ => pure ()) = p from bind_pure p] at h

theorem byte_rejects {b : UInt8} {f : Unit → ParserM β}
    (h : Rejects Budget.itemsLeft t c F (f ()) E) :
    Rejects Budget.itemsLeft (b :: t) c F (consumeByte b >>= f) E :=
  .free_bind (x := [b]) (G := fun _ => True) (alone_readsBack (byte_bind (.pure trivial)))
    (fun _ _ => h) fun _ _ => trivial

/-- A number that is too wide. -/
theorem number_rejects {ds : Bytes} (hds : Digits ds) (hwide : 2 ^ 32 ≤ decimalValue ds)
    (hE : E .invalidNumber) :
    Rejects Budget.itemsLeft ds 0 (Starts fun b => isAsciiDigit b = false) parseNumber E := by
  intro s y hv hrest hy _
  obtain ⟨b, z, rfl, hb⟩ := hy
  have hscan : s.rest.takeWhile isAsciiDigit = ds := by
    rw [hrest, List.takeWhile_append_of_pos hds.2, List.takeWhile_cons_of_neg (by rw [hb]; decide),
      List.append_nil]
  refine ⟨.invalidNumber, ?_, hE⟩
  rw [parseNumber_run, hscan, numberVerdict_digits hds.1 hds.2, dif_neg (Nat.not_lt.mpr hwide)]
  rfl

/-- A literal that is too long. -/
theorem literal_rejects {ds data : Bytes} (hds : Digits ds)
    (hlong : MAX_LITERAL_SIZE < decimalValue ds) :
    Rejects Budget.itemsLeft (literalHeader ds ++ data) 0 F parseLiteral fun _ => True := by
  have hdigit : ∀ w, Starts (fun b => isAsciiDigit b = false) (byte '}' :: w) :=
    fun w => .cons (by decide) w
  have htext : literalHeader ds ++ data = byte '{' :: (ds ++ byte '}' :: (CRLF ++ data)) := by
    simp [literalHeader]
  rw [htext, parseLiteral]
  refine .position_bind fun brace => byte_rejects ?_
  rcases Nat.lt_or_ge (decimalValue ds) (2 ^ 32) with hlt | hge
  · have hnumber := number_readsBack (n := .ofNatLT _ hlt) ⟨hds, UInt32.toNat_ofNatLT.symm⟩
    refine .free_bind hnumber ?_ fun y _ => hdigit _
    rintro _ rfl
    refine byte_rejects (.free_bind (G := fun _ => True)
      (alone_readsBack (crlf_readsBack trivial)) (fun _ _ => ?_) fun _ _ => trivial)
    rw [if_pos (by rwa [UInt32.toNat_ofNatLT])]
    exact .fail trivial
  · exact .first ((number_rejects hds hge trivial).weaken (Nat.le_refl _) fun y _ => hdigit _)

/-- A mailbox name in a literal that is too long. -/
theorem astring_rejects (hy : Encoding.literal.Writes mailbox y)
    (hlong : MAX_LITERAL_SIZE < mailbox.bytes.length) :
    Rejects Budget.itemsLeft y 0 F parseAstring fun _ => True := by
  obtain ⟨ds, hds, hval, rfl⟩ := hy
  have hread : Rejects Budget.itemsLeft (literalHeader ds ++ mailbox.bytes) 0 F
      (parseLiteral >>= fun data => toStr data.bytes) fun _ => True :=
    .first (literal_rejects hds (hval ▸ hlong))
  rw [parseAstring]
  refine .peek_bind (b := byte '{') ?_
  rwa [if_neg (by decide), if_pos rfl]

/-- The mailbox name, if it is not too long. -/
theorem mailbox_readsBack (hy : enc.Writes mailbox y)
    (hlit : enc = .literal → mailbox.bytes.length ≤ MAX_LITERAL_SIZE) :
    ReadsBack y 0 (Starts (· = SP)) parseAstring (· = mailbox) :=
  (astring_readsBack (hy.rendersAstring hlit)).following fun _ hz =>
    hz.mono fun _ hb => by rw [hb]; decide

theorem pair_rejects (hpair : WritesPair pair x) (hwide : 2 ^ 32 ≤ pair.2) :
    Rejects Budget.itemsLeft x 0 EndsElement parseStatusItem (· = .invalidNumber) := by
  obtain ⟨hatom, ds, hds, hval, rfl⟩ := hpair
  rw [parseStatusItem]
  refine .free_bind (atom_readsBack hatom) (fun _ _ => ?_) fun _ _ => .cons (by decide) _
  refine byte_rejects (.first ?_)
  exact Rejects.following (number_rejects (E := (· = .invalidNumber)) hds (hval ▸ hwide) rfl)
    fun _ hz => EndsElement.not_digit hz

section Loop

variable {expected : String}

theorem statusStep_bounded (items : List StatusItem) :
    Bounded 0 none (parenListStep parseStatusItem expected items) :=
  (parenListStep_lawful (parseStatusItem_element : Element false _) items).bounded

theorem statusStep_progress : Progress 0 (parenListStep parseStatusItem expected) :=
  parenListStep_progress (parseStatusItem_element : Element false _)

/-- A round whose own number is too wide. -/
theorem statusRound_rejects (items : List StatusItem) (hpair : WritesPair pair x)
    (hwide : 2 ^ 32 ≤ pair.2) (hy : ∀ z, EndsElement (y ++ z)) :
    Rejects Budget.itemsLeft (x ++ y) c F
      (iterate .unexpectedEof (parenListStep parseStatusItem expected) items)
      (· = .invalidNumber) := by
  refine .iterate_now statusStep_bounded statusStep_progress ?_
  rw [parenListStep_eq]
  exact .first ((pair_rejects hpair hwide).weaken (Nat.zero_le c) fun z _ => hy z)

/-- The loop of the list, by induction on the pairs behind the first: the pairs in front of the
first number that is too wide are read. -/
theorem statusLoop_rejects (hl : Spaced WritesPair pairs y) :
    ∀ {pair : Str × ℕ} {x : Bytes} (items : List StatusItem), WritesPair pair x →
      (∃ p ∈ pair :: pairs, 2 ^ 32 ≤ p.2) →
        Rejects Budget.itemsLeft (x ++ (y ++ [byte ')'])) (pairs.length + 1) F
          (iterate .unexpectedEof (parenListStep parseStatusItem expected) items)
          (· = .invalidNumber) := by
  have hitem : ReadsElement RendersItem (fun _ => 0) id parseStatusItem :=
    ⟨item_readsBack, item_starts⟩
  induction hl with
  | nil =>
    rintro pair x items hpair ⟨p, hmem, hwide⟩
    rw [List.mem_singleton] at hmem
    rw [hmem] at hwide
    exact statusRound_rejects items hpair hwide fun z => .cons (.inr rfl) z
  | @cons pair' pairs x' y' hpair' _ ih =>
    intro pair x items hpair hex
    rcases Nat.lt_or_ge pair.2 (2 ^ 32) with hlt | hge
    · obtain ⟨item, hcarries⟩ := exists_carries pair hlt
      have htext : x ++ (SP :: (x' ++ y') ++ [byte ')'])
          = (x ++ [SP]) ++ (x' ++ (y' ++ [byte ')'])) := by simp
      rw [htext, List.length_cons, Nat.add_comm]
      refine .iterate_later statusStep_bounded statusStep_progress (G := fun _ => True)
        (parenListStep_again hitem (hpair.rendersItem hcarries) items) (fun items' _ => ?_)
        fun _ _ => trivial
      refine ih items' hpair' ?_
      obtain ⟨p, hmem, hwide⟩ := hex
      rcases List.mem_cons.mp hmem with rfl | hmem
      · omega
      · exact ⟨p, hmem, hwide⟩
    · exact statusRound_rejects items hpair hge fun z => .cons (.inl rfl) _

end Loop

/-- **A list with a number that is too wide.** -/
theorem statusItems_rejects (hz : Parens WritesPair pairs x)
    (hwide : ∃ p ∈ pairs, 2 ^ 32 ≤ p.2) :
    Rejects Budget.itemsLeft x pairs.length F parseStatusItems (· = .invalidNumber) := by
  rw [parseStatusItems, parseParenList]
  cases hz with
  | nil =>
    obtain ⟨p, hmem, _⟩ := hwide
    exact absurd hmem List.not_mem_nil
  | cons hpair hpairs =>
    refine byte_rejects (.try_neg (fun z _ => ?_) (statusLoop_rejects hpairs [] hpair hwide))
    obtain ⟨hatom, ds, _, _, rfl⟩ := hpair
    obtain ⟨b, t, heq, hb⟩ := exists_cons hatom.1 hatom.2
    rw [heq]
    simpa using (isAtomChar_ne hb).2.2.2.1

/-- What follows the name of a STATUS response. -/
def statusBody : ParserM DataResponse := do
  consumeSp
  let mailbox ← parseAstring
  consumeSp
  let items ← parseStatusItems
  return .status mailbox items

theorem namedData_status {s : Str} (h : Spells "STATUS" s.bytes) :
    namedData s = some statusBody := by
  simp +decide only [namedData, statusBody, h.eqCi_eq, if_true, if_false]

/-- The body of a STATUS response with a literal that is too long or a number that is too wide. -/
theorem statusBody_rejects (hy : enc.Writes mailbox y) (hz : Parens WritesPair pairs x)
    (hbad : (∃ p ∈ pairs, 2 ^ 32 ≤ p.2) ∨
      (enc = .literal ∧ MAX_LITERAL_SIZE < mailbox.bytes.length)) :
    Rejects Budget.itemsLeft (SP :: (y ++ SP :: x)) pairs.length F statusBody fun _ => True := by
  rw [statusBody]
  refine byte_rejects ?_
  by_cases hlong : enc = .literal ∧ MAX_LITERAL_SIZE < mailbox.bytes.length
  · obtain ⟨rfl, hlong⟩ := hlong
    exact .first ((astring_rejects (F := fun _ => True) hy hlong).weaken (Nat.zero_le _)
      fun _ _ => trivial)
  · obtain ⟨p, hmem, hwide⟩ := hbad.resolve_right hlong
    refine .free_bind (mailbox_readsBack hy fun henc => ?_) (fun _ _ => ?_) fun _ _ => .self _ _
    · exact Nat.le_of_not_lt fun hlt => hlong ⟨henc, hlt⟩
    · refine byte_rejects (.first ?_)
      exact (statusItems_rejects (F := F) hz ⟨p, hmem, hwide⟩).mono fun _ _ => trivial

/-- **A line with a name whose body is rejected.** -/
theorem named_rejects {name : String} {body : ParserM DataResponse} (h : Spells name x)
    (hname : IsDataName name) (hbody : ∀ s : Str, Spells name s.bytes → namedData s = some body)
    (hreject : Rejects Budget.itemsLeft y c (Starts (· = CR)) body E)
    (hy : ∀ z, Starts (fun b => b = SP ∨ b = CR) (y ++ (CRLF ++ z))) :
    Rejects Budget.itemsLeft (byte '*' :: SP :: (x ++ y ++ CRLF)) c F parseResponse E := by
  have hline : Rejects Budget.itemsLeft (x ++ (y ++ CRLF)) c F parseNamedDataResponse E := by
    rw [parseNamedDataResponse]
    refine .position_bind fun _ => .free_bind
      (atom_readsBack (s := ⟨x, h.validUtf8 hname.isName⟩) (spells_isAtom h hname.isName))
      (fun s hs => ?_) fun z _ => ?_
    · rw [hs, hbody _ h]
      exact .first (hreject.weaken (Nat.le_refl _) fun _ _ => .self _ _)
    · rw [List.append_assoc]
      refine (hy z).mono ?_
      rintro b (rfl | rfl) <;> decide
  have hdata : Rejects Budget.itemsLeft (x ++ (y ++ CRLF)) c F untaggedData E := by
    obtain ⟨b, t, hx, hb⟩ := exists_cons (h.ne_nil hname.isName.ne_nil)
      (h.forall isLetter_asciiLower hname.letters)
    rw [untaggedData]
    rw [hx] at hline ⊢
    refine .peek_bind ?_
    rwa [if_neg (by rw [isLetter_not_digit hb]; decide)]
  rw [parseResponse_eq, List.append_assoc]
  refine .peek_bind ?_
  rw [if_neg (by decide), if_pos rfl]
  refine byte_rejects (byte_rejects
    (.free_bind (x := []) noStatusKeyword_readsBack ?_ fun z _ => ?_))
  · rintro _ rfl
    exact hdata
  · have hend : EndsWord (y ++ (CRLF ++ z)) := by
      refine (hy z).mono ?_
      rintro b (rfl | rfl) <;> decide
    show statusKeywordAt (x ++ (y ++ CRLF) ++ z) = none
    rw [List.append_assoc, List.append_assoc, statusKeywordAt_spells h hname.isName hend,
      List.find?_eq_none]
    intro k hk
    rw [hname.noStatus k hk]
    decide

end Parser

/-- A literal that is too long or a number that is too wide: the response is an error. -/
theorem rejects_status (h : WritesStatus enc mailbox pairs x)
    (hmax : pairs.length ≤ MAX_ITEMS_PER_RESPONSE)
    (hbad : (∃ p ∈ pairs, 2 ^ 32 ≤ p.2) ∨
      (enc = .literal ∧ MAX_LITERAL_SIZE < mailbox.bytes.length)) :
    ∃ e, parseResponse x = .error e := by
  obtain ⟨name, y, z, hname, hy, hz, rfl⟩ := h
  have hreject := Parser.named_rejects (F := fun _ => True) hname
    ⟨⟨by decide, by decide +kernel⟩, by decide +kernel, by decide⟩
    (fun s hs => Parser.namedData_status hs) (Parser.statusBody_rejects hy hz hbad)
    fun _ => .cons (.inl rfl) _
  obtain ⟨e, he, _⟩ := hreject (Parser.new _) [] (Nat.zero_le _) (List.append_nil _).symm trivial
    hmax
  exact ⟨e, by rw [parseResponse, he]⟩

/-! ### Main result -/

/-- **Which STATUS responses are accepted.** For a mailbox name in any encoding and any number of
pairs that a response may hold, there is one item per pair, in order, if no number is wider than 32
bits and a literal is not too long, and otherwise there is no response. -/
theorem parseResponse_status (h : WritesStatus enc mailbox pairs x)
    (hmax : pairs.length ≤ MAX_ITEMS_PER_RESPONSE) :
    (∃ items, parseResponse x = .ok ([], .data (.status mailbox items)) ∧
      List.Forall₂ Carries pairs items) ↔
    (∀ p ∈ pairs, p.2 < 2 ^ 32) ∧
      (enc = .literal → mailbox.bytes.length ≤ MAX_LITERAL_SIZE) := by
  constructor
  · rintro ⟨items, hrun, -⟩
    by_contra hbad
    rw [not_and_or] at hbad
    push Not at hbad
    obtain ⟨e, he⟩ := rejects_status h hmax hbad
    rw [hrun] at he
    cases he
  · rintro ⟨hn, hlit⟩
    exact accepts_status h hmax hn hlit

/-- A pair and the bytes of it. -/
theorem writesPair_ascii (name : Str) (n : ℕ) (ds : Bytes) (hname : IsAtom name.bytes)
    (hds : Digits ds) (hn : decimalValue ds = n) :
    WritesPair (name, n) (name.bytes ++ SP :: ds) :=
  ⟨hname, ds, hds, hn, rfl⟩

theorem parseResponse_status_two :
    (∃ items, parseResponse (ascii "* STATUS \"X\" (UIDNEXT 5 HIGHESTMODSEQ 100)\r\n")
        = .ok ([], .data (.status ⟨ascii "X", by decide⟩ items)) ∧
      List.Forall₂ Carries [(⟨ascii "UIDNEXT", by decide⟩, 5),
        (⟨ascii "HIGHESTMODSEQ", by decide⟩, 100)] items) ↔
    (∀ p ∈ ([(⟨ascii "UIDNEXT", by decide⟩, 5), (⟨ascii "HIGHESTMODSEQ", by decide⟩, 100)] :
        List (Str × ℕ)), p.2 < 2 ^ 32) ∧
      (Encoding.quoted = .literal → (ascii "X").length ≤ MAX_LITERAL_SIZE) := by
  have hnext := writesPair_ascii ⟨ascii "UIDNEXT", by decide⟩ 5 (ascii "5")
    ⟨by decide, by decide +kernel⟩ ⟨by decide, by decide +kernel⟩ (by decide +kernel)
  have hmodseq := writesPair_ascii ⟨ascii "HIGHESTMODSEQ", by decide⟩ 100 (ascii "100")
    ⟨by decide, by decide +kernel⟩ ⟨by decide, by decide +kernel⟩ (by decide +kernel)
  have henc : Encoding.quoted.Writes ⟨ascii "X", by decide⟩ (ascii "\"X\"") :=
    ⟨by decide, by decide⟩
  exact parseResponse_status
    ⟨ascii "STATUS", ascii "\"X\"", _, spells_ascii _, henc,
      .cons hnext (.cons hmodseq .nil), by decide +kernel⟩ (by decide)

/-- A mod-sequence of 33 bits, in a response that is well formed. -/
theorem wide_status_rejected : ¬ ∀ enc mailbox pairs x, WritesStatus enc mailbox pairs x →
    pairs ≠ [] → pairs.length ≤ MAX_ITEMS_PER_RESPONSE → (∀ p ∈ pairs, Admissible p) →
      ∃ items, parseResponse x = .ok ([], .data (.status mailbox items)) ∧
        List.Forall₂ Carries pairs items := by
  intro h
  have hpair := writesPair_ascii ⟨ascii "HIGHESTMODSEQ", by decide⟩ 4294967296
    (ascii "4294967296") ⟨by decide, by decide +kernel⟩ ⟨by decide, by decide +kernel⟩
    (by decide +kernel)
  have hrun : parseResponse (ascii "* STATUS X (HIGHESTMODSEQ 4294967296)\r\n")
      = .error .invalidNumber := by decide +kernel
  obtain ⟨items, hok, -⟩ := h .atom ⟨ascii "X", by decide⟩ [_]
    (ascii "* STATUS X (HIGHESTMODSEQ 4294967296)\r\n")
    ⟨ascii "STATUS", ascii "X", _, spells_ascii _, ⟨⟨by decide, by decide +kernel⟩, rfl⟩,
      .cons hpair .nil, by decide +kernel⟩ (by simp) (by decide) (by
      rw [List.forall_mem_singleton]
      exact ⟨by decide, by decide +kernel⟩)
  rw [hrun] at hok
  cases hok

end ImapRs
