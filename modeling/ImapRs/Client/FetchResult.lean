import ImapRs.Client.CommandLines
import ImapRs.Client.Flags
import ImapRs.Client.Quoting
import ImapRs.Core.Accepted

/-!
# What a FETCH response is decoded to

`fetchResult` folds the attributes of a response into a result, and each attribute that sets a field
overwrites what an earlier one has put there. So a result is made of the last UID and the last bytes
that may be a body, and it depends on the order of the attributes exactly when two of them disagree.

The bytes of an attribute are what the parser has kept of them: the payload of a literal, but the
inside of a quoted string with its escapes still in it.

## Main definitions

* `FetchAttribute.carried`, `FetchAttribute.content` — what is taken for a body, and what is one
* `fetchFrame` — a FETCH response, attribute by attribute
* `Session.Answered` — what the connection does with the next command

## Main results

* `Session.fetchResult_fetchFrame`, `Session.fetch_of_answered` — the result of a frame, and of a
  command
* `fetchResult_encoding_iff` — when the encoding of a body does not matter
* `fetchResult_order_iff` — when the order of the attributes does not matter
-/

namespace ImapRs

open Incremental Transition

/-! ### The last of many -/

section LastOf

variable {α β : Type} {f : α → Option β} {l l' : List α}

/-- What the last element with a value has. -/
def lastOf (f : α → Option β) (l : List α) : Option β := (l.filterMap f).getLast?

theorem lastOf_append (f : α → Option β) (l l' : List α) :
    lastOf f (l ++ l') = (lastOf f l').or (lastOf f l) := by
  rw [lastOf, List.filterMap_append, List.getLast?_append]
  rfl

theorem lastOf_singleton (f : α → Option β) (a : α) : lastOf f [a] = f a := by
  rw [lastOf, List.filterMap_cons]
  cases f a <;> rfl

theorem lastOf_eq_none : lastOf f l = none ↔ ∀ a ∈ l, f a = none := by
  rw [lastOf, List.getLast?_eq_none_iff, List.filterMap_eq_nil_iff]

theorem lastOf_eq_some {b : β} (h : lastOf f l = some b) : ∃ a ∈ l, f a = some b := by
  rw [lastOf] at h
  exact List.mem_filterMap.mp (List.mem_of_getLast? h)

/-- Every element may come last. -/
theorem exists_perm_lastOf {a : α} (ha : a ∈ l) :
    ∃ l', l'.Perm l ∧ ∀ b, f a = some b → lastOf f l' = some b := by
  obtain ⟨l₁, l₂, rfl⟩ := List.append_of_mem ha
  refine ⟨l₁ ++ l₂ ++ [a], ?_, fun b hb => ?_⟩
  · rw [List.append_assoc]
    exact (List.perm_append_singleton a l₂).append_left l₁
  · rw [lastOf_append, lastOf_singleton, hb]
    rfl

/-- **The order does not matter** exactly if there is only one value. -/
theorem lastOf_perm_iff : (∀ l', l'.Perm l → lastOf f l' = lastOf f l) ↔
    ∀ a ∈ l, ∀ b ∈ l, ∀ x y, f a = some x → f b = some y → x = y := by
  constructor
  · intro h a ha b hb x y hx hy
    obtain ⟨l₁, hl₁, hlast₁⟩ := exists_perm_lastOf (f := f) ha
    obtain ⟨l₂, hl₂, hlast₂⟩ := exists_perm_lastOf (f := f) hb
    have heq := (h l₁ hl₁).trans (h l₂ hl₂).symm
    rw [hlast₁ x hx, hlast₂ y hy] at heq
    exact Option.some.inj heq
  · intro h l' hl'
    cases hlast : lastOf f l with
    | none =>
      rw [lastOf_eq_none] at hlast ⊢
      exact fun a ha => hlast a (hl'.mem_iff.mp ha)
    | some x =>
      obtain ⟨a, ha, hx⟩ := lastOf_eq_some hlast
      cases hlast' : lastOf f l' with
      | none =>
        rw [lastOf_eq_none] at hlast'
        rw [hlast' a (hl'.mem_iff.mpr ha)] at hx
        cases hx
      | some y =>
        obtain ⟨b, hb, hy⟩ := lastOf_eq_some hlast'
        rw [h b (hl'.mem_iff.mp hb) a ha y x hy hx]

end LastOf

/-! ### The fields of a result -/

/-- The bytes that a result takes for its body. -/
def FetchAttribute.carried : FetchAttribute → Option Bytes
  | .bodySection _ _ data => data.map Slice.bytes
  | .body raw => some raw.bytes
  | .rfc822 data => some data.bytes
  | _ => none

/-- The bytes of a message or of a section of one. -/
def FetchAttribute.content : FetchAttribute → Option Bytes
  | .bodySection _ _ data => data.map Slice.bytes
  | .rfc822 data => some data.bytes
  | _ => none

def FetchAttribute.uidValue : FetchAttribute → Option UInt32
  | .uid u => some u
  | _ => none

theorem FetchAttribute.carried_contents (a : FetchAttribute) : a.contents.carried = a.carried := by
  cases a with
  | bodySection sect origin data => cases data <;> rfl
  | _ => rfl

theorem FetchAttribute.uidValue_contents (a : FetchAttribute) :
    a.contents.uidValue = a.uidValue := by
  cases a <;> rfl

/-- A value that is in the contents of an attribute. -/
theorem lastOf_contents {β : Type} {f : FetchAttribute → Option β} (hf : ∀ a, f a.contents = f a)
    (attributes : List FetchAttribute) :
    lastOf f (attributes.map FetchAttribute.contents) = lastOf f attributes := by
  have hcomp : f ∘ FetchAttribute.contents = f := funext hf
  rw [lastOf, List.filterMap_map, hcomp]
  rfl

namespace Session

/-- The result of a FETCH response. -/
def resultOf (n : UInt32) (attributes : List FetchAttribute) : FetchResult :=
  ⟨n, lastOf FetchAttribute.uidValue attributes, lastOf FetchAttribute.carried attributes⟩

/-- One attribute after the others. -/
theorem resultOf_append (n : UInt32) (attributes : List FetchAttribute) (a : FetchAttribute) :
    resultOf n (attributes ++ [a]) = (resultOf n attributes).withAttribute a := by
  simp only [resultOf, lastOf_append, lastOf_singleton]
  cases a with
  | bodySection sect origin data => cases data <;> rfl
  | _ => rfl

theorem foldl_withAttribute (n : UInt32) (attributes : List FetchAttribute) :
    attributes.foldl FetchResult.withAttribute ⟨n, none, none⟩ = resultOf n attributes := by
  induction attributes using List.reverseRecOn with
  | nil => rfl
  | append_singleton attributes a ih =>
    rw [List.foldl_append, ih, resultOf_append]
    rfl

/-- **The fold is made of the last values.** -/
theorem fetchResult_of_ok {frame rest : Bytes} {n : UInt32} {attributes : List FetchAttribute}
    (h : parseResponse frame = .ok (rest, .data (.fetch n attributes))) :
    fetchResult frame = some (resultOf n attributes) := by
  rw [fetchResult, h, ← foldl_withAttribute]

/-- Where the bytes were parsed does not matter. -/
theorem resultOf_contents (n : UInt32) (attributes : List FetchAttribute) :
    resultOf n (attributes.map FetchAttribute.contents) = resultOf n attributes := by
  rw [resultOf, lastOf_contents FetchAttribute.uidValue_contents,
    lastOf_contents FetchAttribute.carried_contents]
  rfl

end Session

/-! ### Frames, attribute by attribute -/

/-- A FETCH response with these attribute texts. -/
def fetchFrame (ds word : Bytes) (texts : List Bytes) : Bytes :=
  byte '*' :: SP :: (ds ++ SP :: (word ++ SP :: (parenText texts ++ CRLF)))

/-- **The FETCH responses** are the frames of this form. -/
theorem acceptedFetch_iff {n : UInt32} {attributes : List FetchAttribute} {x : Bytes} :
    AcceptedFetch n attributes x ↔ ∃ ds word texts, Decimal n ds ∧ Spells "FETCH" word ∧
      List.Forall₂ AcceptedAttribute attributes texts ∧ x = fetchFrame ds word texts := by
  constructor
  · rintro ⟨hn, hword, hlist⟩
    obtain ⟨texts, htexts, rfl⟩ := parens_iff.mp hlist
    exact ⟨_, _, texts, hn, hword, htexts, rfl⟩
  · rintro ⟨ds, word, texts, hn, hword, htexts, rfl⟩
    exact .mk hn hword (parens_iff.mpr ⟨texts, htexts, rfl⟩)

namespace Session

/-- **The result of a frame.** -/
theorem fetchResult_fetchFrame {n : UInt32} {ds word : Bytes} {texts : List Bytes}
    {attributes : List FetchAttribute} (hn : Decimal n ds) (hword : Spells "FETCH" word)
    (htexts : List.Forall₂ AcceptedAttribute attributes texts)
    (hitems : countItems FetchAttribute.items attributes ≤ MAX_ITEMS_PER_RESPONSE) :
    fetchResult (fetchFrame ds word texts) = some (resultOf n attributes) := by
  obtain ⟨attributes', hparse, hcontents⟩ := parseResponse_of_acceptedFetch
    (acceptedFetch_iff.mpr ⟨ds, word, texts, hn, hword, htexts, rfl⟩) hitems []
  rw [List.append_nil] at hparse
  rw [fetchResult_of_ok hparse, ← resultOf_contents, hcontents, resultOf_contents]

/-! ### Commands that are answered -/

/-- The next command is taken, these are the frames that it waits for, and it ends with OK. -/
structure Answered (s : Session) (wants : FrameFilter) (frames : List ServerFrame) : Prop where
  accepted : (s.raw.answers s.raw.issued).accepted = true
  streamed : (s.raw.answers s.raw.issued).streamed wants = frames
  ended : ∃ f, (s.raw.answers s.raw.issued).reply = .resolved (.ok f)

variable {s : Session} {frames : List ServerFrame} {set items : Str} {cmd : Bytes}

theorem executeStreaming_of_answered {wants : FrameFilter} (h : s.Answered wants frames)
    (hbreaks : hasLineBreaks cmd = false) : ∃ f, RawClient.executeStreaming cmd wants s
      = (.ok (frames, .ok f), RawClient.afterCommand s cmd (some wants)) := by
  obtain ⟨haccepted, rfl, f, hreply⟩ := h
  have hclean : rejectLineBreaks cmd = .ok () := by
    rw [rejectLineBreaks, hbreaks, if_neg Bool.false_ne_true]
  have hqueued : RawClient.enqueueCommand cmd (some wants) s
      = (.ok s.raw.issued, RawClient.afterCommand s cmd (some wants)) := by
    rw [RawClient.enqueueCommand, run_lift_bind_ok hclean, run_get_bind, if_pos haccepted]
    rfl
  refine ⟨f, ?_⟩
  rw [RawClient.executeStreaming, run_bind_ok hqueued, run_get_bind]
  show (Except.ok (_, Reply.await (s.raw.answers s.raw.issued).reply), _) = _
  rw [hreply]
  rfl

/-- **What `fetch` returns.** -/
theorem fetch_of_answered (h : s.Answered isFetch frames)
    (hcmd : fetchCommand set items = .ok cmd) : fetch set items s
      = (.ok (frames.filterMap fun f => fetchResult f.bytes),
        RawClient.afterCommand s cmd (some isFetch)) := by
  obtain ⟨f, hrun⟩ := executeStreaming_of_answered h
    ((noBreaks_iff cmd).mp (fetchCommand_noBreaks hcmd))
  rw [fetch, run_lift_bind_ok hcmd, run_bind_ok hrun]
  rfl

/-- The command of `fetch_body`. -/
def bodyCommand (set : Str) : Bytes := ascii "FETCH " ++ set.bytes ++ SP :: ascii "BODY[]"

/-- **What `fetch_body` returns.** -/
theorem fetchBody_of_answered (h : s.Answered isFetch frames)
    (hset : sequenceSet set = .ok set.bytes) : fetchBody set s
      = (.ok (((frames.filterMap fun f => fetchResult f.bytes).head?.bind FetchResult.body).map
          utf8Lossy), RawClient.afterCommand s (bodyCommand set) (some isFetch)) := by
  have hitems : fetchItems ⟨ascii "BODY[]", rfl⟩ = .ok (ascii "BODY[]") := by decide +kernel
  have hcmd : fetchCommand set ⟨ascii "BODY[]", rfl⟩ = .ok (bodyCommand set) := by
    rw [fetchCommand, hset, hitems]
    rfl
  rw [fetchBody, run_bind_ok (fetch_of_answered h hcmd)]
  rfl

end Session

/-! ### The two encodings of a body -/

/-- Everything of a `BODY[…]` or an `RFC822` attribute in front of the space and the data. -/
inductive IsBodyHead : (Slice → FetchAttribute) → Bytes → Prop
  | rfc822 {x : Bytes} : Spells "RFC822" x → IsBodyHead .rfc822 x
  | bodySection {sect : Option Str} {origin : Option UInt32} {x y z : Bytes} : Spells "BODY" x →
      RendersSection sect y → RendersOrigin origin z →
      IsBodyHead (fun data => .bodySection sect origin (some data))
        (x ++ byte '[' :: (y ++ byte ']' :: z))

/-- The text has to be escaped between quotes. -/
def NeedsEscape (text : List Char) : Prop := ∃ c ∈ text, c = '"' ∨ c = '\\'

theorem IsBodyHead.accepted {item : Slice → FetchAttribute} {head enc data : Bytes}
    (h : IsBodyHead item head) (henc : AcceptedMessage (some data) enc) :
    AcceptedAttribute (item ⟨0, data⟩) (head ++ SP :: enc) := by
  cases h with
  | rfc822 h => exact .rfc822 h henc rfl
  | @bodySection sect origin x y z h hsect horigin =>
    have htext : x ++ byte '[' :: (y ++ byte ']' :: z) ++ SP :: enc
        = x ++ byte '[' :: (y ++ byte ']' :: (z ++ SP :: enc)) := by simp
    rw [htext]
    exact .bodySection h hsect horigin henc

theorem IsBodyHead.carried {item : Slice → FetchAttribute} {head : Bytes}
    (h : IsBodyHead item head) (data : Bytes) : (item ⟨0, data⟩).carried = some data := by
  cases h <;> rfl

theorem IsBodyHead.uidValue {item : Slice → FetchAttribute} {head : Bytes}
    (h : IsBodyHead item head) (data : Slice) : (item data).uidValue = none := by
  cases h <;> rfl

theorem IsBodyHead.items {item : Slice → FetchAttribute} {head : Bytes}
    (h : IsBodyHead item head) (data : Slice) : (item data).items = 0 := by
  cases h <;> rfl

/-- Between quotes, the content of a text is its escaped form. -/
theorem accepted_quote {text : List Char} (h : IsQuotable text) :
    AcceptedMessage (some (escape (encode text))) (quote (encode text)) :=
  .quoted (validUtf8_escape (validUtf8_encode text))
    ⟨isEscaped_escape (isQuotable_encode.mpr h), rfl⟩

theorem length_flatMap_escapeChar (text : List Char) :
    text.length ≤ (text.flatMap escapeChar).length := by
  induction text with
  | nil => exact Nat.le_refl 0
  | cons c text ih =>
    have hc : 1 ≤ (escapeChar c).length := by
      rw [escapeChar]
      split <;> simp
    rw [List.flatMap_cons, List.length_append, List.length_cons]
    omega

theorem length_lt_of_needsEscape {text : List Char} (h : NeedsEscape text) :
    text.length < (text.flatMap escapeChar).length := by
  obtain ⟨c, hc, hspecial⟩ := h
  obtain ⟨x, y, rfl⟩ := List.append_of_mem hc
  have hx := length_flatMap_escapeChar x
  have hy := length_flatMap_escapeChar y
  rw [List.flatMap_append, List.flatMap_cons, escapeChar, if_pos hspecial]
  simp only [List.length_append, List.length_cons, List.length_nil]
  omega

/-- **Escaping shows** where there is something to escape. -/
theorem escape_encode_eq_iff {text : List Char} :
    escape (encode text) = encode text ↔ ¬ NeedsEscape text := by
  constructor
  · intro h hneeds
    rw [← encode_flatMap_escapeChar] at h
    have hlen := length_lt_of_needsEscape hneeds
    rw [encode_injective h] at hlen
    exact Nat.lt_irrefl _ hlen
  · intro h
    refine escape_of_plain fun b hb => ⟨?_, ?_⟩
    · rintro rfl
      exact h ⟨_, (byte_mem_encode (by decide)).mp hb, .inl rfl⟩
    · rintro rfl
      exact h ⟨_, (byte_mem_encode (by decide)).mp hb, .inr rfl⟩

/-- The result of a frame, when one of its attributes is a body item. -/
theorem resultOf_item {item : Slice → FetchAttribute} {head : Bytes} (hhead : IsBodyHead item head)
    (n : UInt32) (before after : List FetchAttribute) (data : Bytes) :
    Session.resultOf n (before ++ item ⟨0, data⟩ :: after)
      = ⟨n, (lastOf FetchAttribute.uidValue after).or (lastOf FetchAttribute.uidValue before),
        (lastOf FetchAttribute.carried after).or (some data)⟩ := by
  rw [← List.singleton_append, Session.resultOf]
  simp only [lastOf_append, lastOf_singleton, hhead.uidValue, hhead.carried, Option.or_none,
    Option.or_assoc, Option.some_or]

/-- The result of a frame with a body item, in any accepted encoding. -/
theorem fetchResult_item {n : UInt32} {ds word head data enc : Bytes}
    {item : Slice → FetchAttribute} {before after : List FetchAttribute}
    {texts texts' : List Bytes} (hn : Decimal n ds) (hword : Spells "FETCH" word)
    (hhead : IsBodyHead item head) (hbefore : List.Forall₂ AcceptedAttribute before texts)
    (hafter : List.Forall₂ AcceptedAttribute after texts')
    (hitems : countItems FetchAttribute.items (before ++ after) < MAX_ITEMS_PER_RESPONSE)
    (henc : AcceptedMessage (some data) enc) :
    Session.fetchResult (fetchFrame ds word (texts ++ (head ++ SP :: enc) :: texts'))
      = some ⟨n, (lastOf FetchAttribute.uidValue after).or (lastOf FetchAttribute.uidValue before),
        (lastOf FetchAttribute.carried after).or (some data)⟩ := by
  have hcost : countItems FetchAttribute.items (before ++ item ⟨0, data⟩ :: after)
      = countItems FetchAttribute.items (before ++ after) + 1 := by
    simp only [countItems, List.map_append, List.map_cons, List.sum_append, List.sum_cons,
      hhead.items]
    omega
  rw [← resultOf_item hhead]
  exact Session.fetchResult_fetchFrame hn hword
    (List.rel_append hbefore (.cons (hhead.accepted henc) hafter)) (by rw [hcost]; exact hitems)

/-- Two frames that carry a text in different encodings are the same to every caller: the results
are equal, and where nothing else may be the body it is the text, for `fetch` and `fetch_body`
too. -/
structure EncodingHidden (frame frame' : Bytes) (text : List Char) (sole : Prop) : Prop where
  same : ∃ r, Session.fetchResult frame = some r ∧ Session.fetchResult frame' = some r
  body : sole → ∀ x, x = frame ∨ x = frame' → ∀ r, Session.fetchResult x = some r →
    r.body = some (encode text)
  fetch : sole → ∀ f : ServerFrame, f.bytes = frame ∨ f.bytes = frame' →
    ∀ (s : Session) (set items : Str) (cmd : Bytes), s.Answered isFetch [f] →
      Session.fetchCommand set items = .ok cmd →
      ∃ r, (Session.fetch set items s).1 = .ok [r] ∧ r.body = some (encode text)
  fetchBody : sole → ∀ f : ServerFrame, f.bytes = frame ∨ f.bytes = frame' →
    ∀ (s : Session) (set : Str), s.Answered isFetch [f] → sequenceSet set = .ok set.bytes →
      (Session.fetchBody set s).1 = .ok (some text)

/-- The callers see what `fetchResult` gives them. -/
theorem encodingHidden_of_results {frame frame' : Bytes} {text : List Char} {sole : Prop}
    {r : FetchResult} (h : Session.fetchResult frame = some r)
    (h' : Session.fetchResult frame' = some r) (hbody : sole → r.body = some (encode text)) :
    EncodingHidden frame frame' text sole := by
  have hboth : ∀ x, x = frame ∨ x = frame' → Session.fetchResult x = some r := by
    rintro x (rfl | rfl)
    · exact h
    · exact h'
  have hstream : ∀ f : ServerFrame, f.bytes = frame ∨ f.bytes = frame' →
      ([f].filterMap fun f => Session.fetchResult f.bytes) = [r] := by
    intro f hf
    rw [List.filterMap_cons, hboth _ hf]
    rfl
  constructor
  · exact ⟨r, h, h'⟩
  · intro hsole x hx r' hr'
    rw [hboth x hx] at hr'
    obtain rfl := Option.some.inj hr'
    exact hbody hsole
  · intro hsole f hf s set items cmd hanswered hcmd
    refine ⟨r, ?_, hbody hsole⟩
    rw [Session.fetch_of_answered hanswered hcmd, hstream f hf]
  · intro hsole f hf s set hanswered hset
    rw [Session.fetchBody_of_answered hanswered hset, hstream f hf]
    show Except.ok (r.body.map Session.utf8Lossy) = _
    rw [hbody hsole, Option.map_some, utf8Lossy_encode]

/-- **When the encoding of a body does not matter.** A FETCH response carries a text as the data of
one `BODY[…]` or `RFC822` attribute, once in a literal and once between quotes. The two are the same
to every caller exactly if there is nothing to escape in the text, or a later attribute of the
response puts something else in its place. -/
theorem fetchResult_encoding_iff {n : UInt32} {ds word head lit : Bytes}
    {item : Slice → FetchAttribute} {before after : List FetchAttribute}
    {texts texts' : List Bytes} {text : List Char} (hn : Decimal n ds)
    (hword : Spells "FETCH" word) (hhead : IsBodyHead item head)
    (hbefore : List.Forall₂ AcceptedAttribute before texts)
    (hafter : List.Forall₂ AcceptedAttribute after texts')
    (hitems : countItems FetchAttribute.items (before ++ after) < MAX_ITEMS_PER_RESPONSE)
    (htext : IsQuotable text) (hlit : RendersLiteral (encode text) lit) :
    EncodingHidden (fetchFrame ds word (texts ++ (head ++ SP :: lit) :: texts'))
        (fetchFrame ds word (texts ++ (head ++ SP :: quote (encode text)) :: texts')) text
        (∀ a ∈ before ++ after, a.carried = none) ↔
      ¬ NeedsEscape text ∨ ∃ a ∈ after, a.carried ≠ none := by
  have hliteral :=
    fetchResult_item hn hword hhead hbefore hafter hitems (.literal hlit)
  have hquoted := fetchResult_item hn hword hhead hbefore hafter hitems (accepted_quote htext)
  have hnone : lastOf FetchAttribute.carried after = none
      ↔ ¬ ∃ a ∈ after, a.carried ≠ none := by
    rw [lastOf_eq_none]
    simp
  constructor
  · intro h
    obtain ⟨r, hr, hr'⟩ := h.same
    by_cases hlast : lastOf FetchAttribute.carried after = none
    · -- both bodies are kept, and the second has its escapes in it
      rw [hlast, Option.none_or] at hliteral hquoted
      have heq := Option.some.inj ((hliteral.symm.trans (hr.trans hr'.symm)).trans hquoted)
      have hbody := Option.some.inj (congrArg FetchResult.body heq)
      exact .inl (escape_encode_eq_iff.mp hbody.symm)
    · exact .inr (not_not.mp fun hno => hlast (hnone.mpr hno))
  · intro h
    have hsame : (lastOf FetchAttribute.carried after).or (some (escape (encode text)))
        = (lastOf FetchAttribute.carried after).or (some (encode text)) := by
      rcases h with hplain | hlater
      · rw [escape_encode_eq_iff.mpr hplain]
      · cases hlast : lastOf FetchAttribute.carried after with
        | none => exact absurd hlater (hnone.mp hlast)
        | some b => rfl
    rw [hsame] at hquoted
    refine encodingHidden_of_results hliteral hquoted fun hsole => ?_
    have hlast : lastOf FetchAttribute.carried after = none :=
      lastOf_eq_none.mpr fun a ha => hsole a (List.mem_append_right _ ha)
    show (lastOf FetchAttribute.carried after).or _ = _
    rw [hlast, Option.none_or]

/-- A body without a quote, between a UID and a size. -/
theorem fetchResult_encoding_iff_plain : EncodingHidden
    (ascii "* 1 FETCH (UID 7 BODY[] \x7b2\x7d\r\nhi RFC822.SIZE 2)\r\n")
    (ascii "* 1 FETCH (UID 7 BODY[] \"hi\" RFC822.SIZE 2)\r\n") ['h', 'i']
    (∀ a ∈ [FetchAttribute.uid 7] ++ [.rfc822Size 2], a.carried = none) := by
  have hdecimal : Decimal 1 (ascii "1") ∧ Decimal 7 (ascii "7") ∧ Decimal 2 (ascii "2") := by
    refine ⟨⟨⟨?_, ?_⟩, ?_⟩, ⟨⟨?_, ?_⟩, ?_⟩, ⟨⟨?_, ?_⟩, ?_⟩⟩ <;> decide +kernel
  obtain ⟨hn, huid, hsize⟩ := hdecimal
  have hbefore : List.Forall₂ AcceptedAttribute [.uid 7] [ascii "UID" ++ SP :: ascii "7"] :=
    .cons (.rendered (.uid (spells_ascii _) huid)) .nil
  have hafter : List.Forall₂ AcceptedAttribute [.rfc822Size 2]
      [ascii "RFC822.SIZE" ++ SP :: ascii "2"] :=
    .cons (.rendered (.rfc822Size (spells_ascii _) hsize)) .nil
  have hlit : RendersLiteral (encode ['h', 'i']) (literalHeader (ascii "2") ++ ascii "hi") :=
    ⟨by decide +kernel, ascii "2", hsize.1, by decide +kernel, by decide +kernel⟩
  have hhidden := (fetchResult_encoding_iff hn (spells_ascii "FETCH")
    (.bodySection (spells_ascii "BODY") .whole .none) hbefore hafter (by decide)
    (by simp [IsQuotable]) hlit).mpr (.inl (by simp [NeedsEscape]))
  have hframe : fetchFrame (ascii "1") (ascii "FETCH") ([ascii "UID" ++ SP :: ascii "7"] ++
      (ascii "BODY" ++ byte '[' :: ([] ++ byte ']' :: []) ++ SP ::
        (literalHeader (ascii "2") ++ ascii "hi")) :: [ascii "RFC822.SIZE" ++ SP :: ascii "2"])
      = ascii "* 1 FETCH (UID 7 BODY[] \x7b2\x7d\r\nhi RFC822.SIZE 2)\r\n" := by decide +kernel
  have hframe' : fetchFrame (ascii "1") (ascii "FETCH") ([ascii "UID" ++ SP :: ascii "7"] ++
      (ascii "BODY" ++ byte '[' :: ([] ++ byte ']' :: []) ++ SP :: quote (encode ['h', 'i'])) ::
        [ascii "RFC822.SIZE" ++ SP :: ascii "2"])
      = ascii "* 1 FETCH (UID 7 BODY[] \"hi\" RFC822.SIZE 2)\r\n" := by decide +kernel
  rwa [hframe, hframe'] at hhidden

/-- Between quotes, the body `a"b` comes back with a backslash. -/
theorem fetchResult_encoding_quote :
    Session.fetchResult (ascii "* 1 FETCH (BODY[] \x7b3\x7d\r\na\"b)\r\n")
        = some ⟨1, none, some (ascii "a\"b")⟩ ∧
      Session.fetchResult (ascii "* 1 FETCH (BODY[] \"a\\\"b\")\r\n")
        = some ⟨1, none, some (ascii "a\\\"b")⟩ ∧
      ¬ EncodingHidden (ascii "* 1 FETCH (BODY[] \x7b3\x7d\r\na\"b)\r\n")
        (ascii "* 1 FETCH (BODY[] \"a\\\"b\")\r\n") ['a', '"', 'b'] True := by
  have hliteral : Session.fetchResult (ascii "* 1 FETCH (BODY[] \x7b3\x7d\r\na\"b)\r\n")
      = some ⟨1, none, some (ascii "a\"b")⟩ := by decide +kernel
  have hquoted : Session.fetchResult (ascii "* 1 FETCH (BODY[] \"a\\\"b\")\r\n")
      = some ⟨1, none, some (ascii "a\\\"b")⟩ := by decide +kernel
  refine ⟨hliteral, hquoted, fun h => ?_⟩
  obtain ⟨r, hr, hr'⟩ := h.same
  rw [hliteral] at hr
  rw [hquoted, ← hr] at hr'
  revert hr'
  decide +kernel

/-! ### The order of the attributes -/

/-- The item an attribute is about: its name, and for `BODY[…]` the section. -/
def FetchAttribute.item : FetchAttribute → String × Option Str
  | .flags _ => ("FLAGS", none)
  | .internalDate _ => ("INTERNALDATE", none)
  | .rfc822Size _ => ("RFC822.SIZE", none)
  | .rfc822 _ => ("RFC822", none)
  | .rfc822Header _ => ("RFC822.HEADER", none)
  | .rfc822Text _ => ("RFC822.TEXT", none)
  | .envelope _ => ("ENVELOPE", none)
  | .body _ => ("BODY", none)
  | .bodyStructure _ => ("BODYSTRUCTURE", none)
  | .bodySection sect _ _ => ("BODY[]", sect)
  | .uid _ => ("UID", none)

/-- Every frame with the same attributes, in whatever order, is decoded to the same sequence
number, UID and body, and the body is the content of one of the attributes. -/
def OrderFree (frame : Bytes) (n : UInt32) (attributes : List FetchAttribute) : Prop :=
  ∀ frame' attributes', parseResponse frame' = .ok ([], .data (.fetch n attributes')) →
    (attributes'.map FetchAttribute.contents).Perm (attributes.map FetchAttribute.contents) →
    ∃ r r', Session.fetchResult frame = some r ∧ Session.fetchResult frame' = some r' ∧
      r'.seq = r.seq ∧ r'.uid = r.uid ∧ r'.body = r.body ∧
      ∀ b, r'.body = some b → ∃ a ∈ attributes, a.content = some b

/-- All attributes that may set the body agree on it, and one of them has the content of a
message. -/
structure BodiesAgree (attributes : List FetchAttribute) : Prop where
  agree : ∀ a ∈ attributes, ∀ b ∈ attributes, ∀ x y, a.carried = some x → b.carried = some y → x = y
  content : (∃ a ∈ attributes, a.carried ≠ none) → ∃ a ∈ attributes, a.content ≠ none

theorem FetchAttribute.carried_of_content {a : FetchAttribute} {b : Bytes}
    (h : a.content = some b) : a.carried = some b := by
  cases a <;> first | exact h | cases h

/-- Another order of the attributes of a frame is another frame. -/
theorem exists_frame_of_perm {frame : Bytes} {n : UInt32}
    {attributes attributes' : List FetchAttribute}
    (h : parseResponse frame = .ok ([], .data (.fetch n attributes)))
    (hperm : attributes'.Perm attributes) :
    ∃ frame' parsed, parseResponse frame' = .ok ([], .data (.fetch n parsed)) ∧
      parsed.map FetchAttribute.contents = attributes'.map FetchAttribute.contents := by
  obtain ⟨x, hx, -⟩ := acceptedFetch_of_parseResponse h
  obtain ⟨ds, word, texts, hn, hword, htexts, -⟩ := acceptedFetch_iff.mp hx
  obtain ⟨texts', htexts', -⟩ := List.perm_comp_forall₂ hperm htexts
  have hcount : countItems FetchAttribute.items attributes'
      = countItems FetchAttribute.items attributes := (hperm.map _).sum_eq
  have hitems : countItems FetchAttribute.items attributes' ≤ MAX_ITEMS_PER_RESPONSE := by
    rw [hcount]
    exact items_le_of_ok h
  obtain ⟨parsed, hparse, hcontents⟩ := parseResponse_of_acceptedFetch
    (acceptedFetch_iff.mpr ⟨ds, word, texts', hn, hword, htexts', rfl⟩) hitems []
  rw [List.append_nil] at hparse
  exact ⟨_, parsed, hparse, hcontents⟩

/-- Attributes that agree on a value have it in every order. -/
theorem lastOf_eq_of_perm {β : Type} {f : FetchAttribute → Option β}
    (hf : ∀ a, f a.contents = f a) {l l' : List FetchAttribute}
    (hperm : (l'.map FetchAttribute.contents).Perm (l.map FetchAttribute.contents))
    (hagree : ∀ a ∈ l, ∀ b ∈ l, ∀ x y, f a = some x → f b = some y → x = y) :
    lastOf f l' = lastOf f l := by
  rw [← lastOf_contents hf l', ← lastOf_contents hf l]
  refine lastOf_perm_iff.mpr ?_ _ hperm
  simp only [List.mem_map]
  rintro _ ⟨a, ha, rfl⟩ _ ⟨b, hb, rfl⟩ x y
  rw [hf, hf]
  exact hagree a ha b hb x y

/-- Attributes of the same item are the same attribute, so there is only one UID. -/
theorem uid_eq_of_nodup {attributes : List FetchAttribute}
    (h : (attributes.map FetchAttribute.item).Nodup) {a b : FetchAttribute}
    (ha : a ∈ attributes) (hb : b ∈ attributes) {x y : UInt32} (hx : a.uidValue = some x)
    (hy : b.uidValue = some y) : x = y := by
  have hitem : ∀ {c : FetchAttribute} {z : UInt32}, c.uidValue = some z →
      c.item = ("UID", none) := by
    intro c z hz
    cases c <;> first | rfl | cases hz
  have heq := List.inj_on_of_nodup_map h ha hb ((hitem hx).trans (hitem hy).symm)
  rw [heq, hy] at hx
  exact (Option.some.inj hx).symm

/-- **When the order of the attributes does not matter.** The attributes of a FETCH response are
different items. However they are ordered, the sequence number, the UID and the body come out the
same and the body is the content of one of them, exactly if all attributes that may set the body
agree on it and one of them is not the BODY structure. -/
theorem fetchResult_order_iff {frame : Bytes} {n : UInt32} {attributes : List FetchAttribute}
    (h : parseResponse frame = .ok ([], .data (.fetch n attributes)))
    (hitems : (attributes.map FetchAttribute.item).Nodup) :
    OrderFree frame n attributes ↔ BodiesAgree attributes := by
  have hresult := Session.fetchResult_of_ok h
  constructor
  · intro hfree
    have hlast : ∀ l, l.Perm attributes → lastOf FetchAttribute.carried l
          = lastOf FetchAttribute.carried attributes ∧
        ∀ b, lastOf FetchAttribute.carried l = some b → ∃ a ∈ attributes, a.content = some b := by
      intro l hl
      obtain ⟨frame', parsed, hparse, hcontents⟩ := exists_frame_of_perm h hl
      obtain ⟨r, r', hr, hr', -, -, hbody, hcontent⟩ :=
        hfree frame' parsed hparse (by rw [hcontents]; exact hl.map _)
      rw [hresult] at hr
      rw [Session.fetchResult_of_ok hparse, ← Session.resultOf_contents, hcontents,
        Session.resultOf_contents] at hr'
      obtain rfl := Option.some.inj hr
      obtain rfl := Option.some.inj hr'
      exact ⟨hbody, hcontent⟩
    refine ⟨lastOf_perm_iff.mp fun l hl => (hlast l hl).1, ?_⟩
    rintro ⟨a, ha, hcarried⟩
    obtain ⟨b, hb⟩ := Option.ne_none_iff_exists'.mp hcarried
    obtain ⟨l, hl, hend⟩ := exists_perm_lastOf (f := FetchAttribute.carried) ha
    obtain ⟨c, hc, hcontent⟩ := (hlast l hl).2 b (hend b hb)
    exact ⟨c, hc, by rw [hcontent]; exact Option.some_ne_none b⟩
  · rintro ⟨hagree, hcontent⟩ frame' attributes' hparse hperm
    have huid := lastOf_eq_of_perm FetchAttribute.uidValue_contents hperm
      fun a ha b hb x y => uid_eq_of_nodup hitems ha hb
    have hbody := lastOf_eq_of_perm FetchAttribute.carried_contents hperm hagree
    refine ⟨_, _, hresult, Session.fetchResult_of_ok hparse, rfl, huid, hbody, fun b hb => ?_⟩
    obtain ⟨a, ha, hcarried⟩ := lastOf_eq_some (hbody.symm.trans hb)
    obtain ⟨c, hc, hsome⟩ := hcontent ⟨a, ha, by rw [hcarried]; exact Option.some_ne_none b⟩
    obtain ⟨d, hd⟩ := Option.ne_none_iff_exists'.mp hsome
    refine ⟨c, hc, ?_⟩
    rw [hd, hagree c hc a ha d b (FetchAttribute.carried_of_content hd) hcarried]

/-- One body, and a UID in front of it. -/
theorem fetchResult_order_iff_uid :
    OrderFree (ascii "* 1 FETCH (UID 7 BODY[] \x7b2\x7d\r\nhi)\r\n") 1
      [.uid 7, .bodySection none none (some ⟨29, ascii "hi"⟩)] := by
  refine (fetchResult_order_iff (by decide +kernel) (by decide +kernel)).mpr ⟨?_, ?_⟩
  · simp [FetchAttribute.carried]
  · exact fun _ => ⟨_, List.mem_cons_of_mem _ List.mem_cons_self, Option.some_ne_none _⟩

/-- The BODY structure behind the body takes its place. -/
theorem fetchResult_order_structure :
    Session.fetchResult (ascii "* 1 FETCH (BODY (\"TEXT\") BODY[] \x7b2\x7d\r\nhi)\r\n")
        = some ⟨1, none, some (ascii "hi")⟩ ∧
      Session.fetchResult (ascii "* 1 FETCH (BODY[] \x7b2\x7d\r\nhi BODY (\"TEXT\"))\r\n")
        = some ⟨1, none, some (ascii "(\"TEXT\")")⟩ ∧
      ¬ ∀ frame n attributes, parseResponse frame = .ok ([], .data (.fetch n attributes)) →
        (attributes.map FetchAttribute.item).Nodup → OrderFree frame n attributes := by
  have hfirst : parseResponse (ascii "* 1 FETCH (BODY (\"TEXT\") BODY[] \x7b2\x7d\r\nhi)\r\n")
      = .ok ([], .data (.fetch 1 [.body ⟨16, ascii "(\"TEXT\")"⟩,
        .bodySection none none (some ⟨37, ascii "hi"⟩)])) := by decide +kernel
  have hlast : parseResponse (ascii "* 1 FETCH (BODY[] \x7b2\x7d\r\nhi BODY (\"TEXT\"))\r\n")
      = .ok ([], .data (.fetch 1 [.bodySection none none (some ⟨23, ascii "hi"⟩),
        .body ⟨31, ascii "(\"TEXT\")"⟩])) := by decide +kernel
  refine ⟨Session.fetchResult_of_ok hfirst, Session.fetchResult_of_ok hlast, fun h => ?_⟩
  obtain ⟨r, r', hr, hr', -, -, hbody, -⟩ := h _ _ _ hfirst (by decide +kernel) _ _ hlast
    (List.Perm.swap ..)
  rw [Session.fetchResult_of_ok hfirst] at hr
  rw [Session.fetchResult_of_ok hlast] at hr'
  rw [← Option.some.inj hr, ← Option.some.inj hr'] at hbody
  revert hbody
  decide +kernel

end ImapRs
