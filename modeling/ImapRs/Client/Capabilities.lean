import ImapRs.Core.Parser
import Mathlib

/-!
# Capabilities

A translation of `imap-client/src/capabilities.rs`. A server sends its capability list in a
`CAPABILITY` data response or as the code of a status response; each list replaces what was known
before.

## Main definitions

* `Capabilities`, `Capabilities.fromAtoms`, `Capabilities.tryUpdateFrom` — the code
* `Response.capabilityList` — the list a response carries
* `lastCapabilityList` — the last list in a sequence of responses
* `Capability` — the atoms the client looks for

## Main results

* `Capabilities.updateAll_eq` — after a sequence of responses, the last list counts
* `Capabilities.fromAtoms_has` — what a list turns on
-/

namespace ImapRs

/-- `u8::to_ascii_uppercase`. -/
def asciiUpper (b : UInt8) : UInt8 := if 97 ≤ b ∧ b ≤ 122 then b - 32 else b

/-- The capabilities the client knows about. -/
structure Capabilities where
  imap4rev1 : Bool := false
  imap4rev2 : Bool := false
  starttls : Bool := false
  loginDisabled : Bool := false
  idle : Bool := false
  unselect : Bool := false
  condstore : Bool := false
  qresync : Bool := false
  moveExt : Bool := false
  uidplus : Bool := false
  literalPlus : Bool := false
  literalMinus : Bool := false
  enable : Bool := false
  authPlain : Bool := false
  authLogin : Bool := false
  authXoauth2 : Bool := false
  authOauthbearer : Bool := false
  deriving DecidableEq, Repr

namespace Capabilities

/-- `Capabilities::default`. -/
def none : Capabilities := {}

def setFromAtom (caps : Capabilities) (atom : Str) : Capabilities :=
  let upper := atom.bytes.map asciiUpper
  if upper = ascii "IMAP4REV1" then { caps with imap4rev1 := true }
  else if upper = ascii "IMAP4REV2" then { caps with imap4rev2 := true }
  else if upper = ascii "STARTTLS" then { caps with starttls := true }
  else if upper = ascii "LOGINDISABLED" then { caps with loginDisabled := true }
  else if upper = ascii "IDLE" then { caps with idle := true }
  else if upper = ascii "UNSELECT" then { caps with unselect := true }
  else if upper = ascii "CONDSTORE" then { caps with condstore := true }
  else if upper = ascii "QRESYNC" then { caps with qresync := true }
  else if upper = ascii "MOVE" then { caps with moveExt := true }
  else if upper = ascii "UIDPLUS" then { caps with uidplus := true }
  else if upper = ascii "LITERAL+" then { caps with literalPlus := true }
  else if upper = ascii "LITERAL-" then { caps with literalMinus := true }
  else if upper = ascii "ENABLE" then { caps with enable := true }
  else if upper = ascii "AUTH=PLAIN" then { caps with authPlain := true }
  else if upper = ascii "AUTH=LOGIN" then { caps with authLogin := true }
  else if upper = ascii "AUTH=XOAUTH2" then { caps with authXoauth2 := true }
  else if upper = ascii "AUTH=OAUTHBEARER" then { caps with authOauthbearer := true }
  else caps

/-- Build from a list of capability atoms. Unknown atoms are ignored. -/
def fromAtoms (atoms : List Str) : Capabilities := atoms.foldl setFromAtom none

end Capabilities

/-- The capability list a response carries: that of a data response, or that of a response code. -/
def Response.capabilityList : Response → Option (List Str)
  | .data (.capability caps) => some caps
  | .status s =>
    match s.code with
    | some (.capability caps) => some caps
    | _ => none
  | _ => none

namespace Capabilities

/-- Whether `response` carries a capability list. -/
def isCapabilityResponse (response : Response) : Bool :=
  match response with
  | .data (.capability _) => true
  | .status s =>
    match s.code with
    | some (.capability _) => true
    | _ => false
  | _ => false

/-- Update from a response that carries capabilities; whether anything was updated. -/
def tryUpdateFrom (caps : Capabilities) (response : Response) : Capabilities × Bool :=
  match response with
  | .data (.capability atoms) => (fromAtoms atoms, true)
  | .status s =>
    match s.code with
    | some (.capability atoms) => (fromAtoms atoms, true)
    | _ => (caps, false)
  | _ => (caps, false)

/-- An update replaces everything. -/
theorem tryUpdateFrom_eq (caps : Capabilities) (r : Response) : caps.tryUpdateFrom r
    = match r.capabilityList with
      | some atoms => (fromAtoms atoms, true)
      | Option.none => (caps, false) := by
  cases r with
  | data d => cases d <;> rfl
  | «continue» c => rfl
  | status s =>
    simp only [tryUpdateFrom, Response.capabilityList]
    cases s.code with
    | none => rfl
    | some code => cases code <;> rfl

theorem isCapabilityResponse_eq (r : Response) :
    isCapabilityResponse r = r.capabilityList.isSome := by
  cases r with
  | data d => cases d <;> rfl
  | «continue» c => rfl
  | status s =>
    simp only [isCapabilityResponse, Response.capabilityList]
    cases s.code with
    | none => rfl
    | some code => cases code <;> rfl

/-- The updates of a sequence of responses. -/
def updateAll (caps : Capabilities) (rs : List Response) : Capabilities :=
  rs.foldl (fun caps r => (caps.tryUpdateFrom r).1) caps

end Capabilities

/-- The last capability list in a sequence of responses. -/
def lastCapabilityList (rs : List Response) : Option (List Str) :=
  (rs.filterMap Response.capabilityList).getLast?

namespace Capabilities

/-- **The last list counts.** -/
theorem updateAll_eq (caps : Capabilities) (rs : List Response) : caps.updateAll rs
    = match lastCapabilityList rs with
      | some atoms => fromAtoms atoms
      | Option.none => caps := by
  induction rs generalizing caps with
  | nil => rfl
  | cons r rs ih =>
    rw [updateAll, List.foldl_cons, ← updateAll, ih, tryUpdateFrom_eq, lastCapabilityList,
      lastCapabilityList, List.filterMap_cons]
    cases hr : r.capabilityList with
    | none => rfl
    | some atoms =>
      cases hrest : rs.filterMap Response.capabilityList with
      | nil => rfl
      | cons l ls =>
        rw [List.getLast?_cons_cons]
        cases hlast : (l :: ls).getLast? with
        | none => exact absurd (List.getLast?_eq_none_iff.mp hlast) (List.cons_ne_nil l ls)
        | some last => rfl

/-! ### Letter case -/

theorem ascii_inj {a b : String} : ascii a = ascii b ↔ a = b := by
  rw [ascii, ascii, Array.toList_inj]
  constructor
  · intro h
    exact String.toByteArray_inj.mp (ByteArray.ext h)
  · rintro rfl
    rfl

theorem asciiUpper_eq_iff {a b : UInt8} (hb : ¬ (97 ≤ b ∧ b ≤ 122)) :
    asciiUpper a = b ↔ byteEqCi a b = true := by
  have ha' := a.toNat_lt
  have hb' := b.toNat_lt
  rw [byteEqCi, beq_iff_eq, asciiUpper, asciiLower, asciiLower]
  simp only [UInt8.le_iff_toNat_le, ← UInt8.toNat_inj] at hb ⊢
  split <;> split <;> split <;> simp_all [UInt8.toNat_add, UInt8.toNat_sub] <;> omega

/-- Comparing the upper-case form of an atom with an upper-case name is comparing without case. -/
theorem map_asciiUpper_eq_iff {a name : Bytes} (h : ∀ b ∈ name, ¬ (97 ≤ b ∧ b ≤ 122)) :
    a.map asciiUpper = name ↔ eqIgnoreAsciiCase a name = true := by
  induction a generalizing name with
  | nil => cases name <;> simp [eqIgnoreAsciiCase]
  | cons b a ih =>
    cases name with
    | nil => simp [eqIgnoreAsciiCase]
    | cons c name =>
      have hhead := asciiUpper_eq_iff (a := b) (h c List.mem_cons_self)
      have htail := ih fun d hd => h d (List.mem_cons_of_mem c hd)
      rw [List.map_cons, List.cons.injEq, hhead, htail]
      simp only [eqIgnoreAsciiCase, List.length_cons, List.zip_cons_cons, List.all_cons,
        Bool.and_eq_true, beq_iff_eq, Nat.add_right_cancel_iff]
      constructor
      · rintro ⟨hb, hlen, hall⟩
        exact ⟨hlen, hb, hall⟩
      · rintro ⟨hlen, hb, hall⟩
        exact ⟨hb, hlen, hall⟩

end Capabilities

/-! ### What a list turns on -/

/-- The atoms the client looks for. -/
inductive Capability where
  | imap4rev1 | imap4rev2 | starttls | loginDisabled | idle | unselect | condstore | qresync
  | moveExt | uidplus | literalPlus | literalMinus | enable | authPlain | authLogin | authXoauth2
  | authOauthbearer
  deriving DecidableEq, Repr

namespace Capability

/-- How an atom is written, apart from the letter case. -/
def name : Capability → String
  | imap4rev1 => "IMAP4REV1"
  | imap4rev2 => "IMAP4REV2"
  | starttls => "STARTTLS"
  | loginDisabled => "LOGINDISABLED"
  | idle => "IDLE"
  | unselect => "UNSELECT"
  | condstore => "CONDSTORE"
  | qresync => "QRESYNC"
  | moveExt => "MOVE"
  | uidplus => "UIDPLUS"
  | literalPlus => "LITERAL+"
  | literalMinus => "LITERAL-"
  | enable => "ENABLE"
  | authPlain => "AUTH=PLAIN"
  | authLogin => "AUTH=LOGIN"
  | authXoauth2 => "AUTH=XOAUTH2"
  | authOauthbearer => "AUTH=OAUTHBEARER"

theorem name_upper (c : Capability) : ∀ b ∈ ascii c.name, ¬ (97 ≤ b ∧ b ≤ 122) := by
  cases c <;> decide +kernel

end Capability

namespace Capabilities

/-- The field an atom turns on. -/
def has (caps : Capabilities) : Capability → Bool
  | .imap4rev1 => caps.imap4rev1
  | .imap4rev2 => caps.imap4rev2
  | .starttls => caps.starttls
  | .loginDisabled => caps.loginDisabled
  | .idle => caps.idle
  | .unselect => caps.unselect
  | .condstore => caps.condstore
  | .qresync => caps.qresync
  | .moveExt => caps.moveExt
  | .uidplus => caps.uidplus
  | .literalPlus => caps.literalPlus
  | .literalMinus => caps.literalMinus
  | .enable => caps.enable
  | .authPlain => caps.authPlain
  | .authLogin => caps.authLogin
  | .authXoauth2 => caps.authXoauth2
  | .authOauthbearer => caps.authOauthbearer

/-- The fields are all there is. -/
theorem eq_of_has {caps caps' : Capabilities} (h : ∀ c, caps.has c = caps'.has c) :
    caps = caps' := by
  obtain ⟨⟩ := caps
  obtain ⟨⟩ := caps'
  rw [mk.injEq]
  exact ⟨h .imap4rev1, h .imap4rev2, h .starttls, h .loginDisabled, h .idle, h .unselect,
    h .condstore, h .qresync, h .moveExt, h .uidplus, h .literalPlus, h .literalMinus, h .enable,
    h .authPlain, h .authLogin, h .authXoauth2, h .authOauthbearer⟩

@[simp] theorem none_has (c : Capability) : none.has c = false := by
  cases c <;> rfl

/-- An atom turns on the field of its name and leaves the others alone. -/
theorem setFromAtom_has (caps : Capabilities) (atom : Str) (c : Capability) :
    (caps.setFromAtom atom).has c = (caps.has c || atom.eqCi c.name) := by
  have hiff : atom.bytes.map asciiUpper = ascii c.name ↔ atom.eqCi c.name = true :=
    map_asciiUpper_eq_iff c.name_upper
  by_cases hc : atom.bytes.map asciiUpper = ascii c.name
  · rw [hiff.mp hc, Bool.or_true, setFromAtom, hc]
    cases c <;> simp only [Capability.name, ascii_inj, String.reduceEq, has, if_true, if_false]
  · rw [Bool.eq_false_iff.mpr fun h => hc (hiff.mpr h), Bool.or_false, setFromAtom]
    simp only [apply_ite fun caps : Capabilities => caps.has c]
    cases c <;> rw [Capability.name] at hc <;> simp only [has, if_neg hc, ite_self]

/-- **What a list turns on.** -/
theorem fromAtoms_has (atoms : List Str) (c : Capability) :
    (fromAtoms atoms).has c = atoms.any fun a => a.eqCi c.name := by
  have hgen : ∀ caps : Capabilities, (atoms.foldl setFromAtom caps).has c
      = (caps.has c || atoms.any fun a => a.eqCi c.name) := by
    induction atoms with
    | nil => simp
    | cons a atoms ih =>
      intro caps
      rw [List.foldl_cons, ih, setFromAtom_has, List.any_cons, Bool.or_assoc]
  rw [fromAtoms, hgen, none_has, Bool.false_or]

/-- **What it takes to have `STARTTLS`.** -/
theorem fromAtoms_starttls (atoms : List Str) :
    (fromAtoms atoms).starttls = atoms.any fun a => a.eqCi "STARTTLS" :=
  fromAtoms_has atoms .starttls

/-- Nothing is turned on by a list that knows none of the names. -/
theorem fromAtoms_eq_none_iff {atoms : List Str} :
    fromAtoms atoms = none ↔ ∀ a ∈ atoms, ∀ c : Capability, a.eqCi c.name = false := by
  constructor
  · intro h a ha c
    have hc := fromAtoms_has atoms c
    rw [h, none_has, eq_comm, List.any_eq_false] at hc
    exact Bool.eq_false_iff.mpr (hc a ha)
  · intro h
    refine eq_of_has fun c => ?_
    rw [fromAtoms_has, none_has, List.any_eq_false]
    exact fun a ha => Bool.eq_false_iff.mp (h a ha c)

end Capabilities

end ImapRs
