import ImapRs.Format.Debug
import ImapRs.Client.FetchResult

/-!
# What debug output shows of a message

Logging a response must not leak an e-mail, so `FetchAttribute` writes its own debug output, with
the length of message content in place of the content. Everything around it derives its output from
its fields and adds nothing. `FetchResult`, one layer up, carries a body too, and derives its
output: the bytes are all there, in decimal.

`blank` forgets content but not its length. Two responses are alike but for their content when they
are the same after it.

## Main definitions

* `Response.debug`, `FetchResult.debug` — the output, for any formatter
* `FetchAttribute.blank` — an attribute without its content

## Main results

* `Response.debug_blank` — content makes no difference to the output for a response
* `debug_redacts_iff` — when it makes none to the output for a result
-/

namespace ImapRs

open Format

variable {R : Type}

/-! ### Responses -/

/-- `Debug` for `ByteCount`: the length of message content. -/
def debugByteCount (fmt : Formatter Str R) (n : ℕ) : R := fmt.around "<" (fmt.number n) " bytes>"

/-- A content-carrying tuple variant as `Name(<N bytes>)`. -/
def debugContent (fmt : Formatter Str R) (name : String) (bytes : Bytes) : R :=
  fmt.tuple name [debugByteCount fmt bytes.length]

/-- A byte slice, as derived: its bytes in decimal. -/
def debugBytes (fmt : Formatter Str R) (bytes : Bytes) : R :=
  fmt.list (bytes.map fun b => fmt.number b.toNat)

def debugNumber (fmt : Formatter Str R) (n : UInt32) : R := fmt.number n.toNat

def debugStrs (fmt : Formatter Str R) (strs : List Str) : R := fmt.list (strs.map fmt.str)

/-- `Debug` for `FetchAttribute`, written by hand. -/
def FetchAttribute.debug (fmt : Formatter Str R) : FetchAttribute → R
  | .flags strs => fmt.tuple "Flags" [debugStrs fmt strs]
  | .internalDate date => fmt.tuple "InternalDate" [fmt.str date]
  | .rfc822Size size => fmt.tuple "Rfc822Size" [debugNumber fmt size]
  | .rfc822 b => debugContent fmt "Rfc822" b.bytes
  | .rfc822Header b => debugContent fmt "Rfc822Header" b.bytes
  | .rfc822Text b => debugContent fmt "Rfc822Text" b.bytes
  | .envelope b => debugContent fmt "Envelope" b.bytes
  | .body b => debugContent fmt "Body" b.bytes
  | .bodyStructure b => debugContent fmt "BodyStructure" b.bytes
  | .bodySection sect origin data =>
    fmt.record "BodySection" [("section", fmt.option (sect.map fmt.str)),
      ("origin", fmt.option (origin.map (debugNumber fmt))),
      ("data", fmt.option (data.map fun d => debugByteCount fmt d.bytes.length))]
  | .uid n => fmt.tuple "Uid" [debugNumber fmt n]

def Status.debug (fmt : Formatter Str R) : Status → R
  | .ok => fmt.unit "Ok"
  | .no => fmt.unit "No"
  | .bad => fmt.unit "Bad"
  | .preAuth => fmt.unit "PreAuth"
  | .bye => fmt.unit "Bye"

def ResponseCode.debug (fmt : Formatter Str R) : ResponseCode → R
  | .alert => fmt.unit "Alert"
  | .badCharset charsets => fmt.tuple "BadCharset" [debugStrs fmt charsets]
  | .capability caps => fmt.tuple "Capability" [debugStrs fmt caps]
  | .parse => fmt.unit "Parse"
  | .permanentFlags flags => fmt.tuple "PermanentFlags" [debugStrs fmt flags]
  | .readOnly => fmt.unit "ReadOnly"
  | .readWrite => fmt.unit "ReadWrite"
  | .tryCreate => fmt.unit "TryCreate"
  | .uidNext n => fmt.tuple "UidNext" [debugNumber fmt n]
  | .uidValidity n => fmt.tuple "UidValidity" [debugNumber fmt n]
  | .unseen n => fmt.tuple "Unseen" [debugNumber fmt n]
  | .other atom extra => fmt.tuple "Other" [fmt.str atom, fmt.option (extra.map fmt.str)]

def StatusItem.debug (fmt : Formatter Str R) : StatusItem → R
  | .messages n => fmt.tuple "Messages" [debugNumber fmt n]
  | .recent n => fmt.tuple "Recent" [debugNumber fmt n]
  | .uidNext n => fmt.tuple "UidNext" [debugNumber fmt n]
  | .uidValidity n => fmt.tuple "UidValidity" [debugNumber fmt n]
  | .unseen n => fmt.tuple "Unseen" [debugNumber fmt n]
  | .other n => fmt.tuple "Other" [debugNumber fmt n]

def debugListing (fmt : Formatter Str R) (variant : String) (flags : List Str)
    (delimiter : Option Str) (name : Str) : R :=
  fmt.record variant [("flags", debugStrs fmt flags),
    ("delimiter", fmt.option (delimiter.map fmt.str)), ("name", fmt.str name)]

def DataResponse.debug (fmt : Formatter Str R) : DataResponse → R
  | .capability caps => fmt.tuple "Capability" [debugStrs fmt caps]
  | .list strs delimiter name => debugListing fmt "List" strs delimiter name
  | .lsub strs delimiter name => debugListing fmt "Lsub" strs delimiter name
  | .status mailbox items =>
    fmt.record "Status" [("mailbox", fmt.str mailbox),
      ("items", fmt.list (items.map (StatusItem.debug fmt)))]
  | .search ids => fmt.tuple "Search" [fmt.list (ids.map (debugNumber fmt))]
  | .flags strs => fmt.tuple "Flags" [debugStrs fmt strs]
  | .exists n => fmt.tuple "Exists" [debugNumber fmt n]
  | .recent n => fmt.tuple "Recent" [debugNumber fmt n]
  | .expunge n => fmt.tuple "Expunge" [debugNumber fmt n]
  | .fetch seq attributes =>
    fmt.record "Fetch" [("seq", debugNumber fmt seq),
      ("attributes", fmt.list (attributes.map (FetchAttribute.debug fmt)))]
  | .other line => fmt.tuple "Other" [debugBytes fmt line.bytes]

def StatusResponse.debug (fmt : Formatter Str R) (s : StatusResponse) : R :=
  fmt.record "StatusResponse" [("tag", fmt.option (s.tag.map fmt.str)),
    ("status", s.status.debug fmt), ("code", fmt.option (s.code.map (ResponseCode.debug fmt))),
    ("text", fmt.str s.text)]

def ContinueReq.debug (fmt : Formatter Str R) (c : ContinueReq) : R :=
  fmt.record "ContinueReq" [("code", fmt.option (c.code.map (ResponseCode.debug fmt))),
    ("text", fmt.str c.text)]

def Response.debug (fmt : Formatter Str R) : Response → R
  | .status s => fmt.tuple "Status" [s.debug fmt]
  | .data d => fmt.tuple "Data" [d.debug fmt]
  | .continue c => fmt.tuple "Continue" [c.debug fmt]

/-! ### Results -/

/-- `Debug` for `FetchResult`, derived. -/
def FetchResult.debug (fmt : Formatter Str R) (r : FetchResult) : R :=
  fmt.record "FetchResult" [("seq", debugNumber fmt r.seq),
    ("uid", fmt.option (r.uid.map (debugNumber fmt))),
    ("body", fmt.option (r.body.map (debugBytes fmt)))]

/-! ### Without the content -/

/-- As many bytes, all the same, from nowhere in particular. -/
def Slice.blank (s : Slice) : Slice := ⟨0, List.replicate s.bytes.length 0⟩

/-- The attribute without its content. -/
def FetchAttribute.blank : FetchAttribute → FetchAttribute
  | .rfc822 data => .rfc822 data.blank
  | .rfc822Header data => .rfc822Header data.blank
  | .rfc822Text data => .rfc822Text data.blank
  | .envelope raw => .envelope raw.blank
  | .body raw => .body raw.blank
  | .bodyStructure raw => .bodyStructure raw.blank
  | .bodySection sect origin data => .bodySection sect origin (data.map Slice.blank)
  | a => a

theorem Slice.length_blank (s : Slice) : s.blank.bytes.length = s.bytes.length :=
  List.length_replicate

theorem debugContent_blank (fmt : Formatter Str R) (name : String) (s : Slice) :
    debugContent fmt name s.blank.bytes = debugContent fmt name s.bytes := by
  rw [debugContent, debugContent, s.length_blank]

/-- **An attribute's output does not depend on its content.** -/
theorem FetchAttribute.debug_blank (fmt : Formatter Str R) (a : FetchAttribute) :
    a.blank.debug fmt = a.debug fmt := by
  cases a with
  | bodySection sect origin data =>
    cases data with
    | none => rfl
    | some d => simp only [blank, debug, Option.map_some, Slice.length_blank]
  | rfc822 d => exact debugContent_blank fmt _ d
  | rfc822Header d => exact debugContent_blank fmt _ d
  | rfc822Text d => exact debugContent_blank fmt _ d
  | envelope d => exact debugContent_blank fmt _ d
  | body d => exact debugContent_blank fmt _ d
  | bodyStructure d => exact debugContent_blank fmt _ d
  | _ => rfl

/-- **A response's output does not depend on the content of its attributes.** -/
theorem Response.debug_fetch (fmt : Formatter Str R) {seq : UInt32}
    {attributes attributes' : List FetchAttribute}
    (h : attributes.map FetchAttribute.blank = attributes'.map FetchAttribute.blank) :
    (Response.data (.fetch seq attributes)).debug fmt
      = (Response.data (.fetch seq attributes')).debug fmt := by
  have hmap : ∀ as : List FetchAttribute,
      as.map (FetchAttribute.debug fmt)
        = (as.map FetchAttribute.blank).map (FetchAttribute.debug fmt) := by
    intro as
    rw [List.map_map]
    exact List.map_congr_left fun a _ => (a.debug_blank fmt).symm
  rw [Response.debug, Response.debug, DataResponse.debug, DataResponse.debug, hmap attributes, h,
    ← hmap attributes']

/-! ### The output for a result -/

theorem FetchAttribute.uidValue_blank (a : FetchAttribute) : a.blank.uidValue = a.uidValue := by
  cases a <;> rfl

theorem lastOf_uidValue_blank (attributes : List FetchAttribute) :
    lastOf FetchAttribute.uidValue (attributes.map FetchAttribute.blank)
      = lastOf FetchAttribute.uidValue attributes := by
  have hcomp : FetchAttribute.uidValue ∘ FetchAttribute.blank = FetchAttribute.uidValue :=
    funext FetchAttribute.uidValue_blank
  rw [lastOf, List.filterMap_map, hcomp]
  rfl

/-- On a single line, the bytes can be read off. -/
theorem debugBytes_injective (str : Str → List Char) :
    Function.Injective (debugBytes (.standard str)) := by
  intro x y h
  have hitems := List.append_cancel_right (List.cons.inj h).2
  have hnumbers : ∀ bs : Bytes, bs.map (fun b => Nat.toDigits 10 b.toNat)
      = (bs.map UInt8.toNat).map (Nat.toDigits 10) := fun bs => by
    rw [List.map_map]
    rfl
  have hnat : x.map UInt8.toNat = y.map UInt8.toNat := by
    refine commas_number_injective ?_
    rw [← hnumbers, ← hnumbers]
    exact hitems
  exact List.map_injective_iff.mpr (fun a b => UInt8.toNat_inj.mp) hnat

theorem option_debugBytes_injective (str : Str → List Char) {x y : Option Bytes}
    (h : (Formatter.standard str).option (x.map (debugBytes (.standard str)))
      = (Formatter.standard str).option (y.map (debugBytes (.standard str)))) : x = y := by
  cases x with
  | none =>
    cases y with
    | none => rfl
    | some y => cases h
  | some x =>
    cases y with
    | none => cases h
    | some y =>
      have hbytes : debugBytes (.standard str) x ++ [')']
          = debugBytes (.standard str) y ++ [')'] := by
        have hsome : ∀ z : List Char, (Formatter.standard str).tuple "Some" [z]
            = "Some(".toList ++ (z ++ [')']) := fun _ => rfl
        rw [Option.map_some, Option.map_some, Formatter.option, Formatter.option, hsome, hsome] at h
        exact List.append_cancel_left h
      rw [debugBytes_injective str (List.append_cancel_right hbytes)]

/-- A result's output, on a single line, shows its body. -/
theorem FetchResult.debug_inj (str : Str → List Char) {seq : UInt32} {uid : Option UInt32}
    {body body' : Option Bytes} :
    FetchResult.debug (.standard str) ⟨seq, uid, body⟩
      = FetchResult.debug (.standard str) ⟨seq, uid, body'⟩ ↔ body = body' := by
  obtain ⟨front, hfront⟩ : ∃ front : List Char, ∀ body : Option Bytes,
      FetchResult.debug (.standard str) ⟨seq, uid, body⟩ = front ++
        ((Formatter.standard str).option (body.map (debugBytes (.standard str)))
          ++ [' ', '\x7d']) := by
    refine ⟨"FetchResult".toList ++ ' ' :: '\x7b' :: ' ' ::
      ("seq: ".toList ++ (debugNumber (.standard str) seq ++ (", uid: ".toList ++
        ((Formatter.standard str).option (uid.map (debugNumber (.standard str)))
          ++ ", body: ".toList)))), fun body => ?_⟩
    simp [FetchResult.debug, Formatter.standard, commas]
  constructor
  · intro h
    rw [hfront, hfront] at h
    exact option_debugBytes_injective str (List.append_cancel_right (List.append_cancel_left h))
  · rintro rfl
    rfl

/-! ### Main result -/

/-- **When debug output does not reveal content.** Let two frames be FETCH responses that are alike
but for content, of the same length everywhere. What is written for the two responses is the same,
with any formatter. What is written for the two results is the same, on a single line, exactly when
the last attribute with a body has the same one in both. -/
theorem debug_redacts_iff (str : Str → List Char) {x x' rest rest' : Bytes} {seq : UInt32}
    {attributes attributes' : List FetchAttribute}
    (h : parseResponse x = .ok (rest, .data (.fetch seq attributes)))
    (h' : parseResponse x' = .ok (rest', .data (.fetch seq attributes')))
    (hsame : attributes.map FetchAttribute.blank = attributes'.map FetchAttribute.blank) :
    ((∀ (R : Type) (fmt : Formatter Str R),
        (Response.data (.fetch seq attributes)).debug fmt
          = (Response.data (.fetch seq attributes')).debug fmt) ∧
      (Session.fetchResult x).map (FetchResult.debug (.standard str))
        = (Session.fetchResult x').map (FetchResult.debug (.standard str))) ↔
    lastOf FetchAttribute.carried attributes = lastOf FetchAttribute.carried attributes' := by
  have huid : lastOf FetchAttribute.uidValue attributes
      = lastOf FetchAttribute.uidValue attributes' := by
    rw [← lastOf_uidValue_blank, hsame, lastOf_uidValue_blank]
  rw [and_iff_right fun R fmt => Response.debug_fetch fmt hsame, Session.fetchResult_of_ok h,
    Session.fetchResult_of_ok h', Session.resultOf, Session.resultOf, huid, Option.map_some,
    Option.map_some, Option.some.injEq, FetchResult.debug_inj]

theorem debug_redacts_uid :
    ((∀ (R : Type) (fmt : Formatter Str R),
        (Response.data (.fetch 1 [.rfc822Text ⟨28, [byte 'a']⟩, .uid 7])).debug fmt
          = (Response.data (.fetch 1 [.rfc822Text ⟨28, [byte 'b']⟩, .uid 7])).debug fmt) ∧
      (Session.fetchResult (ascii "* 1 FETCH (RFC822.TEXT \x7b1\x7d\r\na UID 7)\r\n")).map
          (FetchResult.debug (.standard fun _ => []))
        = (Session.fetchResult (ascii "* 1 FETCH (RFC822.TEXT \x7b1\x7d\r\nb UID 7)\r\n")).map
          (FetchResult.debug (.standard fun _ => []))) ↔
    lastOf FetchAttribute.carried [.rfc822Text ⟨28, [byte 'a']⟩, .uid 7]
      = lastOf FetchAttribute.carried [.rfc822Text ⟨28, [byte 'b']⟩, .uid 7] := by
  have ha : parseResponse (ascii "* 1 FETCH (RFC822.TEXT \x7b1\x7d\r\na UID 7)\r\n")
      = .ok ([], .data (.fetch 1 [.rfc822Text ⟨28, [byte 'a']⟩, .uid 7])) := by decide +kernel
  have hb : parseResponse (ascii "* 1 FETCH (RFC822.TEXT \x7b1\x7d\r\nb UID 7)\r\n")
      = .ok ([], .data (.fetch 1 [.rfc822Text ⟨28, [byte 'b']⟩, .uid 7])) := by decide +kernel
  exact debug_redacts_iff (fun _ => []) ha hb rfl

/-- The output for a result tells two messages of the same length apart. -/
theorem debug_leaks_body : ¬ ∀ (str : Str → List Char) (x x' rest rest' : Bytes) (seq : UInt32)
    (attributes attributes' : List FetchAttribute),
    parseResponse x = .ok (rest, .data (.fetch seq attributes)) →
    parseResponse x' = .ok (rest', .data (.fetch seq attributes')) →
    attributes.map FetchAttribute.blank = attributes'.map FetchAttribute.blank →
      (∀ (R : Type) (fmt : Formatter Str R),
        (Response.data (.fetch seq attributes)).debug fmt
          = (Response.data (.fetch seq attributes')).debug fmt) ∧
      (Session.fetchResult x).map (FetchResult.debug (.standard str))
        = (Session.fetchResult x').map (FetchResult.debug (.standard str)) := by
  intro h
  have ha : parseResponse (ascii "* 1 FETCH (BODY[] \x7b1\x7d\r\na)\r\n")
      = .ok ([], .data (.fetch 1 [.bodySection none none (some ⟨23, [byte 'a']⟩)])) := by
    decide +kernel
  have hb : parseResponse (ascii "* 1 FETCH (BODY[] \x7b1\x7d\r\nb)\r\n")
      = .ok ([], .data (.fetch 1 [.bodySection none none (some ⟨23, [byte 'b']⟩)])) := by
    decide +kernel
  obtain ⟨-, hresults⟩ := h (fun _ => []) _ _ _ _ _ _ _ ha hb rfl
  rw [Session.fetchResult_of_ok ha, Session.fetchResult_of_ok hb, Option.map_some, Option.map_some,
    Option.some.injEq] at hresults
  have hbodies := (FetchResult.debug_inj _).mp hresults
  exact absurd hbodies (by decide +kernel)

end ImapRs
