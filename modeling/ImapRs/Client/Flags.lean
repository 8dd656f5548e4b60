import ImapRs.Client.CommandLines
import ImapRs.Client.SequenceSet
import ImapRs.Core.RoundTrip

/-!
# The flags of a STORE command

The client checks each flag against its own idea of an atom and joins them with spaces; the parser
of the other crate splits a list of flags by its own. What was checked comes back as it was given:
no keyword closes the list, falls in two or runs into the next one.

## Main definitions

* `Flag.text` — the wire form of a flag, as a string
* `flagList` — the list a `STORE` command carries

## Main results

* `parseParenAtomList_flagList` — the list is read back flag by flag
* `storeCommand_ok` — a command is only built from flags that pass their check
* `storeFlags_readBack` — what `store` and `uid_store` send, and that it is read back
-/

namespace ImapRs

open Incremental Cursor Transition

/-! ### One flag -/

theorem Flag.validUtf8_toBytes (f : Flag) : validUtf8 f.toBytes = true := by
  cases f with
  | custom keyword => exact keyword.utf8
  | _ => decide +kernel

/-- The wire form of a flag. -/
def Flag.text (f : Flag) : Str := ⟨f.toBytes, f.validUtf8_toBytes⟩

/-- What the client takes for an atom character, the parser does too. -/
theorem isAtomChar_of_isKeywordChar {b : UInt8} (h : isKeywordChar b = true) :
    isAtomChar b = true := by
  simp only [isKeywordChar, isPrintableAscii, Bool.and_eq_true, decide_eq_true_eq,
    Bool.not_eq_true', Bool.or_eq_false_iff] at h
  obtain ⟨⟨hlow, hhigh⟩, hspecials⟩ := h
  have hlow' : ¬ b ≤ 0x1F := by
    rw [UInt8.not_le]
    exact UInt8.lt_of_lt_of_le (by decide) hlow
  have hdel : b ≠ 0x7F := by
    rintro rfl
    exact absurd hhigh (by decide)
  simp only [isAtomChar, hlow', hdel, hspecials, decide_false, Bool.false_or,
    Bool.not_eq_true', beq_eq_false_iff_ne, ne_eq, not_false_eq_true, Bool.or_false]

theorem isFlag_of_isFlagKeyword {w : Bytes} (h : isFlagKeyword w = true) : IsFlag w := by
  simp only [isFlagKeyword, Bool.and_eq_true, Bool.not_eq_true', List.isEmpty_eq_false_iff,
    List.all_eq_true] at h
  obtain ⟨hne, hall⟩ := h
  by_cases hslash : w.head? = some (byte '\\')
  · rw [if_pos hslash] at hall
    exact .inr (.inl ⟨w.tail, List.eq_cons_of_mem_head? hslash,
      fun b hb => isAtomChar_of_isKeywordChar (hall b hb)⟩)
  · rw [if_neg hslash] at hne hall
    exact .inl ⟨hne, fun b hb => isAtomChar_of_isKeywordChar (hall b hb)⟩

theorem Flag.isFlag_of_check {f : Flag} (h : checkFlag f = .ok ()) : IsFlag f.toBytes := by
  cases f with
  | custom keyword =>
    rw [checkFlag] at h
    split at h
    · next hkeyword => exact isFlag_of_isFlagKeyword hkeyword
    · cases h
  | _ => exact isFlag_of_isFlagKeyword (by decide +kernel)

/-! ### The list -/

/-- The list a `STORE` command carries. -/
def flagList (flags : List Flag) : Bytes :=
  byte '(' :: (joinSp (flags.map Flag.toBytes) ++ [byte ')'])

theorem joinSp_cons (x : Bytes) (l : List Bytes) :
    joinSp (x :: l) = x ++ l.flatMap fun y => SP :: y := by
  induction l generalizing x with
  | nil => simp [joinSp, List.intercalate]
  | cons y l ih =>
    have hnext := ih y
    rw [joinSp] at hnext ⊢
    rw [List.intercalate_cons_cons, hnext, List.flatMap_cons]
    simp

/-- Texts in parentheses, with a space between them. -/
def parenText (texts : List Bytes) : Bytes := byte '(' :: (joinSp texts ++ [byte ')'])

theorem spaced_iff {α : Type} {R : α → Bytes → Prop} {l : List α} {y : Bytes} :
    Spaced R l y ↔ ∃ texts, List.Forall₂ R l texts ∧ y = texts.flatMap fun x => SP :: x := by
  constructor
  · intro h
    induction h with
    | nil => exact ⟨[], .nil, rfl⟩
    | @cons a l x y ha _ ih =>
      obtain ⟨texts, htexts, rfl⟩ := ih
      exact ⟨x :: texts, .cons ha htexts, by rw [List.flatMap_cons, List.cons_append]⟩
  · rintro ⟨texts, htexts, rfl⟩
    induction htexts with
    | nil => exact .nil
    | cons ha _ ih =>
      rw [List.flatMap_cons, List.cons_append]
      exact .cons ha ih

/-- The elements of a list, text by text. -/
theorem parens_iff {α : Type} {R : α → Bytes → Prop} {l : List α} {z : Bytes} :
    Parens R l z ↔ ∃ texts, List.Forall₂ R l texts ∧ z = parenText texts := by
  constructor
  · intro h
    cases h with
    | nil => exact ⟨[], .nil, rfl⟩
    | @cons a l x y ha hl =>
      obtain ⟨texts, htexts, rfl⟩ := spaced_iff.mp hl
      exact ⟨x :: texts, .cons ha htexts, by rw [parenText, joinSp_cons, List.append_assoc]⟩
  · rintro ⟨texts, htexts, rfl⟩
    cases htexts with
    | nil => exact .nil
    | cons ha hl =>
      rw [parenText, joinSp_cons, List.append_assoc]
      exact .cons ha (spaced_iff.mpr ⟨_, hl, rfl⟩)

theorem renders_flagList {flags : List Flag} (h : ∀ f ∈ flags, checkFlag f = .ok ()) :
    RendersFlags (flags.map Flag.text) (flagList flags) := by
  refine parens_iff.mpr ⟨flags.map Flag.toBytes, ?_, rfl⟩
  rw [List.forall₂_map_left_iff, List.forall₂_map_right_iff, List.forall₂_same]
  exact fun f hf => ⟨f.isFlag_of_check (h f hf), rfl⟩

/-- **The list is read back flag by flag**, whatever follows it. -/
theorem parseParenAtomList_flagList {flags : List Flag}
    (hlen : flags.length ≤ MAX_ITEMS_PER_RESPONSE) (h : ∀ f ∈ flags, checkFlag f = .ok ())
    (y : Bytes) :
    ∃ t, Parser.parseParenAtomList (Parser.new (flagList flags ++ y))
      = .ok (flags.map Flag.text, t) ∧ t.rest = y := by
  have hrest : (Parser.new (flagList flags ++ y)).rest = flagList flags ++ y := by
    simp [Cursor.rest, Parser.new]
  have hread := Parser.flags_readsBack (F := fun _ => True) (renders_flagList h)
    (Parser.new (flagList flags ++ y)) y (Nat.zero_le _) hrest trivial
    (by rw [List.length_map]; exact hlen)
  obtain ⟨read, a, hrun, -, rfl⟩ := hread
  exact ⟨_, hrun, rest_behind hrest a⟩

/-! ### The command -/

theorem forM_checkFlag_ok {flags : List Flag} {u : PUnit} :
    flags.forM checkFlag = .ok u ↔ ∀ f ∈ flags, checkFlag f = .ok () := by
  induction flags with
  | nil => exact ⟨fun _ => by simp, fun _ => rfl⟩
  | cons f flags ih =>
    rw [List.forall_mem_cons, ← ih]
    show (checkFlag f >>= fun _ => flags.forM checkFlag) = .ok u ↔ _
    cases hf : checkFlag f with
    | error e =>
      constructor
      · intro h
        cases h
      · rintro ⟨h, -⟩
        cases h
    | ok v => exact ⟨fun h => ⟨rfl, h⟩, fun h => h.2⟩

theorem forM_checkFlag_error {flags : List Flag} (h : ∃ f ∈ flags, checkFlag f ≠ .ok ()) :
    ∃ e, flags.forM checkFlag = .error e := by
  obtain ⟨f, hf, hne⟩ := h
  cases hflags : flags.forM checkFlag with
  | error e => exact ⟨e, rfl⟩
  | ok u => exact absurd (forM_checkFlag_ok.mp hflags f hf) hne

/-- A `STORE` command, written out. -/
def storeText (verb : String) (set : Str) (action : StoreAction) (flags : List Flag) : Bytes :=
  ascii verb ++ set.bytes ++ SP :: (action.toImapPrefix false ++ SP :: flagList flags)

/-- **When a command is built, and what from.** Every flag and the set have to pass; the command
ends in the list of the flags. -/
theorem storeCommand_ok {verb : String} {set : Str} {action : StoreAction} {flags : List Flag}
    {cmd : Bytes} : Session.storeCommand verb set action flags = .ok cmd ↔
      (∀ f ∈ flags, checkFlag f = .ok ()) ∧ sequenceSet set = .ok set.bytes ∧
        cmd = storeText verb set action flags := by
  have hopen : ascii " (" = [SP, byte '('] := by decide +kernel
  have hclose : ascii ")" = [byte ')'] := by decide +kernel
  rw [Session.storeCommand, ← forM_checkFlag_ok (u := ⟨⟩)]
  cases hflags : flags.forM checkFlag with
  | error e =>
    constructor
    · intro h
      cases h
    · rintro ⟨h, -⟩
      cases h
  | ok u =>
    cases hset : sequenceSet set with
    | error e =>
      constructor
      · intro h
        cases h
      · rintro ⟨-, h, -⟩
        cases h
    | ok bytes =>
      rw [sequenceSet_ok hset]
      have htext : ascii verb ++ set.bytes ++ SP :: (action.toImapPrefix false ++ ascii " (" ++
          joinSp (flags.map Flag.toBytes) ++ ascii ")") = storeText verb set action flags := by
        simp [storeText, flagList, hopen, hclose]
      rw [← htext]
      constructor
      · intro h
        cases h
        exact ⟨rfl, rfl, rfl⟩
      · rintro ⟨-, -, rfl⟩
        rfl

/-! ### No line breaks in it -/

theorem isAtomChar_noBreaks {w : Bytes} (h : ∀ b ∈ w, isAtomChar b = true) : NoBreaks w := by
  intro b hb
  refine ⟨?_, ?_, ?_⟩ <;> rintro rfl <;> exact absurd (h _ hb) (by decide)

theorem IsFlag.noBreaks {w : Bytes} (h : IsFlag w) : NoBreaks w := by
  rcases h with ⟨-, hatom⟩ | ⟨t, rfl, ht⟩ | rfl
  · exact isAtomChar_noBreaks hatom
  · exact NoBreaks.append (by decide : NoBreaks [byte '\\']) (isAtomChar_noBreaks ht)
  · decide

theorem flagList_noBreaks {flags : List Flag} (h : ∀ f ∈ flags, checkFlag f = .ok ()) :
    NoBreaks (flagList flags) := by
  have hparts : NoBreaks (joinSp (flags.map Flag.toBytes)) := by
    refine noBreaks_of_not_mem fun c hc => ?_
    have hsp : c ≠ SP := by
      rintro rfl
      exact absurd hc (by decide)
    refine not_mem_intercalate hsp fun part hpart hmem => ?_
    obtain ⟨f, hf, rfl⟩ := List.mem_map.mp hpart
    obtain ⟨hcr, hlf, hnul⟩ := (f.isFlag_of_check (h f hf)).noBreaks c hmem
    simp [hcr, hlf, hnul] at hc
  exact NoBreaks.append (by decide : NoBreaks [byte '(']) (hparts.append (by decide))

theorem sequenceSet_noBreaks {set : Str} {bytes : Bytes} (h : sequenceSet set = .ok bytes) :
    NoBreaks bytes := by
  refine noBreaks_of_not_mem fun c hc => not_mem_of_sequenceSet ?_ h
  simp only [List.mem_cons, List.not_mem_nil, or_false] at hc
  rcases hc with rfl | rfl | rfl <;> decide

theorem storeText_noBreaks {verb : String} (hverb : NoBreaks (ascii verb)) {set : Str}
    (hset : sequenceSet set = .ok set.bytes) (action : StoreAction) {flags : List Flag}
    (hflags : ∀ f ∈ flags, checkFlag f = .ok ()) :
    NoBreaks (storeText verb set action flags) := by
  have hsp : NoBreaks [SP] := by decide
  have haction : NoBreaks (action.toImapPrefix false) := by cases action <;> decide
  exact (hverb.append (sequenceSet_noBreaks hset)).append
    (hsp.append (haction.append (hsp.append (flagList_noBreaks hflags))))

/-! ### What a session does with it -/

/-- The request for a `STORE` command in a session. -/
def storeRequest (verb : String) (set : Str) (action : StoreAction) (flags : List Flag)
    (s : Session) : WriteRequest :=
  let tag := formatTag s.raw.tagCounter.toNat
  .command (commandLine tag (storeText verb set action flags)) tag s.raw.issued none

/-- A session does not get past a flag that fails. -/
theorem run_storeCommand_error {α : Type} {verb : String} {set : Str} {action : StoreAction}
    {flags : List Flag} (h : ∃ f ∈ flags, checkFlag f ≠ .ok ()) (q : Bytes → SessionM α)
    (s : Session) :
    ∃ e, ((liftM (Session.storeCommand verb set action flags) : SessionM Bytes) >>= q) s
      = (.error e, s) := by
  obtain ⟨e, he⟩ := forM_checkFlag_error h
  have hcmd : Session.storeCommand verb set action flags = .error e := by
    rw [Session.storeCommand, he]
    rfl
  exact ⟨e, run_lift_bind_error hcmd⟩

/-- A call queues the one line of its command, or nothing. -/
theorem RawClient.executeCommand_queued (cmd : Bytes) (s : Session) :
    (RawClient.executeCommand cmd s).2.raw.queued = s.raw.queued ∨
      (RawClient.executeCommand cmd s).2 = RawClient.afterCommand s cmd none := by
  rcases RawClient.enqueueCommand_cases cmd none s with ⟨-, e, hrun⟩ | ⟨-, hrun⟩ | ⟨-, hrun⟩
  · rw [RawClient.executeCommand, run_bind_error hrun]
    exact .inl rfl
  · rw [RawClient.executeCommand, run_bind_error hrun]
    exact .inl rfl
  · rw [RawClient.executeCommand, run_bind_ok hrun, run_get_bind, run_lift]
    exact .inr rfl

/-- Looking at the answer changes nothing. -/
theorem executeCommand_map_snd {α : Type} (cmd : Bytes) (f : ServerFrame → α) (s : Session) :
    ((do let frame ← RawClient.executeCommand cmd; return f frame : SessionM α) s).2
      = (RawClient.executeCommand cmd s).2 := by
  rcases hrun : RawClient.executeCommand cmd s with ⟨e | frame, t⟩
  · rw [run_bind_error hrun]
  · rw [run_bind_ok hrun]
    rfl

/-- What `store` and `uid_store` do once they know their verb. -/
structure StoresFlags (verb : String) (set : Str) (action : StoreAction) (flags : List Flag)
    (run : SessionM Bytes) (s : Session) : Prop where
  /-- The only line that can be queued is that of the flags asked for. -/
  only : (run s).2.raw.queued = s.raw.queued ∨
    (∀ f ∈ flags, checkFlag f = .ok ()) ∧
      (run s).2.raw.queued = s.raw.queued ++ [storeRequest verb set action flags s]
  /-- With every flag and the set accepted and the write loop taking the command, it is queued. -/
  sent : (∀ f ∈ flags, checkFlag f = .ok ()) → (∃ bytes, sequenceSet set = .ok bytes) →
    (s.raw.answers s.raw.issued).accepted = true →
      (run s).2.raw.queued = s.raw.queued ++ [storeRequest verb set action flags s]
  /-- A flag that is not accepted is an error, and the session is left as it was. -/
  refused : (∃ f ∈ flags, checkFlag f ≠ .ok ()) → ∃ e, run s = (.error e, s)

theorem storesFlags {verb : String} (hverb : NoBreaks (ascii verb)) (set : Str)
    (action : StoreAction) (flags : List Flag) (s : Session) :
    StoresFlags verb set action flags (do
      let cmd ← Session.storeCommand verb set action flags
      let frame ← RawClient.executeCommand cmd
      return frame.bytes) s where
  only := by
    cases hcmd : Session.storeCommand verb set action flags with
    | error e =>
      rw [run_lift_bind_error rfl]
      exact .inl rfl
    | ok cmd =>
      obtain ⟨hflags, -, rfl⟩ := storeCommand_ok.mp hcmd
      rw [run_lift_bind_ok rfl, executeCommand_map_snd]
      rcases RawClient.executeCommand_queued (storeText verb set action flags) s with h | h
      · exact .inl h
      · rw [h]
        exact .inr ⟨hflags, rfl⟩
  sent := by
    rintro hflags ⟨bytes, hset⟩ haccepted
    have hset : sequenceSet set = .ok set.bytes := by
      rw [hset, sequenceSet_ok hset]
    have hcmd : Session.storeCommand verb set action flags = .ok _ :=
      storeCommand_ok.mpr ⟨hflags, hset, rfl⟩
    have hbreaks := storeText_noBreaks hverb hset action hflags
    rw [run_lift_bind_ok hcmd, executeCommand_map_snd, executeCommand_accepted hbreaks haccepted]
    rfl
  refused h := run_storeCommand_error h _ s

/-- **`STORE` sends exactly the flags asked for.** The list of checked flags is read back flag by
flag, whatever follows it; with every flag accepted, `store` and `uid_store` queue exactly one line,
the command with that list; and if a flag fails its check the session is left as it was. -/
theorem storeFlags_readBack :
    (∀ (flags : List Flag) (y : Bytes), flags.length ≤ MAX_ITEMS_PER_RESPONSE →
      (∀ f ∈ flags, checkFlag f = .ok ()) →
      ∃ read t, Parser.parseParenAtomList (Parser.new (flagList flags ++ y)) = .ok (read, t) ∧
        t.rest = y ∧ read.map Str.bytes = flags.map Flag.toBytes) ∧
    ∀ (set : Str) (action : StoreAction) (flags : List Flag) (s : Session),
      StoresFlags "STORE " set action flags (Session.store set action flags) s ∧
      StoresFlags "UID STORE " set action flags (Session.uidStore set action flags) s := by
  constructor
  · intro flags y hlen hflags
    obtain ⟨t, hrun, hrest⟩ := parseParenAtomList_flagList hlen hflags y
    refine ⟨_, t, hrun, hrest, ?_⟩
    rw [List.map_map]
    rfl
  · intro set action flags s
    exact ⟨storesFlags (by decide) set action flags s, storesFlags (by decide) set action flags s⟩

theorem validUtf8_junk : validUtf8 (ascii "$Junk") = true := by decide +kernel

/-- A system flag and a keyword. -/
def seenAndJunk : List Flag := [.seen, .custom ⟨ascii "$Junk", validUtf8_junk⟩]

theorem validUtf8_firstThree : validUtf8 (ascii "1:3") = true := by decide +kernel

/-- The set of the first three messages. -/
def firstThree : Str := ⟨ascii "1:3", validUtf8_firstThree⟩

/-- A session that is about to send its first command, on a connection that takes everything. -/
def takenSession : Session :=
  ⟨⟨1, 0, [], fun _ => ⟨true, [], true, .late⟩⟩, {}⟩

/-- The list with the end of the command behind it, and both methods with it. -/
theorem storeFlags_readBack_junk :
    (∃ read t, Parser.parseParenAtomList (Parser.new (flagList seenAndJunk ++ CRLF))
        = .ok (read, t) ∧
      t.rest = CRLF ∧ read.map Str.bytes = [ascii "\\Seen", ascii "$Junk"]) ∧
    (Session.store firstThree .add seenAndJunk takenSession).2.raw.queued
      = [.command (ascii "A0001 STORE 1:3 +FLAGS (\\Seen $Junk)\r\n") (ascii "A0001") 0 none] ∧
    (Session.uidStore firstThree .remove seenAndJunk takenSession).2.raw.queued
      = [.command (ascii "A0001 UID STORE 1:3 -FLAGS (\\Seen $Junk)\r\n") (ascii "A0001") 0
          none] := by
  have hflags : ∀ f ∈ seenAndJunk, checkFlag f = .ok () := by decide +kernel
  have hset : ∃ bytes, sequenceSet firstThree = .ok bytes := ⟨ascii "1:3", by decide +kernel⟩
  have htag : formatTag 1 = ascii "A0001" := by decide +kernel
  have hstore : commandLine (ascii "A0001") (storeText "STORE " firstThree .add seenAndJunk)
      = ascii "A0001 STORE 1:3 +FLAGS (\\Seen $Junk)\r\n" := by decide +kernel
  have huidStore :
      commandLine (ascii "A0001") (storeText "UID STORE " firstThree .remove seenAndJunk)
        = ascii "A0001 UID STORE 1:3 -FLAGS (\\Seen $Junk)\r\n" := by decide +kernel
  refine ⟨storeFlags_readBack.1 seenAndJunk CRLF (by decide) hflags, ?_, ?_⟩
  · rw [(storeFlags_readBack.2 firstThree .add seenAndJunk takenSession).1.sent hflags hset rfl,
      ← hstore, ← htag]
    rfl
  · rw [(storeFlags_readBack.2 firstThree .remove seenAndJunk takenSession).2.sent hflags hset rfl,
      ← huidStore, ← htag]
    rfl

end ImapRs
