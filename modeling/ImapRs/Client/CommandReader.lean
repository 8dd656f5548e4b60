import ImapRs.Client.CommandLines
import ImapRs.Client.Flags
import ImapRs.Client.Quoting
import ImapRs.Client.Routing
import ImapRs.Text.Fields

/-!
# The server's side of a command line

A server cuts what it receives at CRLF. A line that holds a space is a command: a tag, a name in any
letter case, and arguments of the kinds that name asks for. A line without one continues what was
asked for before it. None of this is in the repository; it is the grammar its command lines are
written for, so that what a caller asks for can be compared with what a server is told.

The items of a `FETCH` are left as they are written, and the criteria of a `SEARCH` are tokens.

## Main definitions

* `Command`, `readCommand` — a command, and the reading of its text
* `ClientLine`, `readLine`, `readStream` — a line, and the reading of everything a client sends

## Main results

* `readStream_flatMap` — lines written one after the other are read one after the other
* `readCommand_login`, `readCommand_search`, … — what each command line is read as
-/

namespace ImapRs

open Incremental Text

/-! ### Commands -/

/-- A command, with the values its arguments stand for. -/
inductive Command where
  | capability
  | noop
  | logout
  | login (user pass : Bytes)
  | authenticatePlain
  | select (mailbox : Bytes)
  | examine (mailbox : Bytes)
  | list (reference mailbox : Bytes)
  | fetch (set items : Bytes)
  | search (uid : Bool) (criteria : List Token)
  | store (uid : Bool) (set : Bytes) (action : StoreAction) (silent : Bool) (flags : List Bytes)
  | expunge
  | close
  | unselect
  | check
  | idle
  | move (set mailbox : Bytes)
  deriving DecidableEq, Repr

/-- The names of commands. -/
inductive Verb where
  | capability | noop | logout | login | authenticate | select | examine | list | fetch | search
  | store | expunge | close | unselect | check | idle | move | uid
  deriving DecidableEq, Repr

def verbs : List (String × Verb) :=
  [("CAPABILITY", .capability), ("NOOP", .noop), ("LOGOUT", .logout), ("LOGIN", .login),
    ("AUTHENTICATE", .authenticate), ("SELECT", .select), ("EXAMINE", .examine), ("LIST", .list),
    ("FETCH", .fetch), ("SEARCH", .search), ("STORE", .store), ("EXPUNGE", .expunge),
    ("CLOSE", .close), ("UNSELECT", .unselect), ("CHECK", .check), ("IDLE", .idle),
    ("MOVE", .move), ("UID", .uid)]

/-- The verb a name spells, in any letter case. -/
def verb? (name : Bytes) : Option Verb :=
  (verbs.find? fun v => eqIgnoreAsciiCase name (ascii v.1)).map (·.2)

def storeActions : List (String × StoreAction × Bool) :=
  [("+FLAGS", .add, false), ("+FLAGS.SILENT", .add, true), ("-FLAGS", .remove, false),
    ("-FLAGS.SILENT", .remove, true), ("FLAGS", .set, false), ("FLAGS.SILENT", .set, true)]

/-- The action a name spells, and whether the server is to keep quiet about it. -/
def storeAction? (name : Bytes) : Option (StoreAction × Bool) :=
  (storeActions.find? fun a => eqIgnoreAsciiCase name (ascii a.1)).map (·.2)

/-! ### Arguments -/

instance : DecidablePred SeqSet := fun _ => decidable_of_iff _ splitOn_all_iff

instance : DecidablePred IsAtom := fun w =>
  inferInstanceAs (Decidable (w ≠ [] ∧ ∀ b ∈ w, isAtomChar b = true))

/-- A keyword, or a system flag. -/
def IsFlagName (w : Bytes) : Prop := IsAtom w ∨ (w.head? = some (byte '\\') ∧ IsAtom w.tail)

instance : DecidablePred IsFlagName := fun _ => inferInstanceAs (Decidable (_ ∨ _))

/-- A quoted string. -/
def readText : FieldReader UInt8 Bytes := fun line =>
  match Parser.parseQuoted (Parser.new line) with
  | .ok (raw, parser) => some (unescape raw.bytes, parser.rest)
  | .error _ => none

def readSet : FieldReader UInt8 Bytes := do
  let set ← field SP
  guard (SeqSet set)
  return set

/-- Flags in parentheses. -/
def readFlags : FieldReader UInt8 (List Bytes) := do
  skip (byte '(')
  let inside ← field (byte ')')
  skip (byte ')')
  let flags := if inside = [] then [] else inside.splitOn SP
  guard (∀ f ∈ flags, IsFlagName f)
  return flags

def readSearch (uid : Bool) : FieldReader UInt8 Command := do
  skip SP
  let line ← remainder
  let tokens ← lex line
  return .search uid tokens

def readStore (uid : Bool) : FieldReader UInt8 Command := do
  skip SP
  let set ← readSet
  skip SP
  let name ← field SP
  skip SP
  let action ← storeAction? name
  return .store uid set action.1 action.2 (← readFlags)

/-- The arguments of a command whose name stands behind `UID`. -/
def Verb.uidArguments : Verb → FieldReader UInt8 Command
  | .search => readSearch true
  | .store => readStore true
  | _ => failure

/-- The arguments of a command. -/
def Verb.arguments : Verb → FieldReader UInt8 Command
  | .capability => return .capability
  | .noop => return .noop
  | .logout => return .logout
  | .login => do
    skip SP
    let user ← readText
    skip SP
    return .login user (← readText)
  | .authenticate => do
    skip SP
    let mechanism ← field SP
    guard (eqIgnoreAsciiCase mechanism (ascii "PLAIN"))
    return .authenticatePlain
  | .select => do
    skip SP
    return .select (← readText)
  | .examine => do
    skip SP
    return .examine (← readText)
  | .list => do
    skip SP
    let reference ← readText
    skip SP
    return .list reference (← readText)
  | .fetch => do
    skip SP
    let set ← readSet
    skip SP
    return .fetch set (← remainder)
  | .search => readSearch false
  | .store => readStore false
  | .expunge => return .expunge
  | .close => return .close
  | .unselect => return .unselect
  | .check => return .check
  | .idle => return .idle
  | .move => do
    skip SP
    let set ← readSet
    skip SP
    return .move set (← readText)
  | .uid => do
    skip SP
    let name ← field SP
    let verb ← verb? name
    verb.uidArguments

/-- A command, up to the end of the line. -/
def readCommand : FieldReader UInt8 Command := do
  let name ← field SP
  let verb ← verb? name
  verb.arguments

/-! ### Lines -/

/-- What a line says. -/
inductive Said where
  | command (command : Command)
  /-- The answer to a continuation request. -/
  | data (line : Bytes)
  deriving DecidableEq, Repr

structure ClientLine where
  /-- The tag of a command. -/
  tag : Option Bytes
  said : Said
  deriving DecidableEq, Repr

/-- A line without its CRLF. -/
def readLine (line : Bytes) : Option ClientLine :=
  match line.dropWhile (· ≠ SP) with
  | [] => some ⟨none, .data line⟩
  | _ :: rest =>
    if IsAtom (line.takeWhile (· ≠ SP)) then
      match readCommand rest with
      | some (command, []) => some ⟨some (line.takeWhile (· ≠ SP)), .command command⟩
      | _ => none
    else none

/-- Everything a client has sent; none if it ends inside a line or a line cannot be read. -/
def readStream (stream : Bytes) : Option (List ClientLine) := do
  (← cutLines CR LF stream).mapM readLine

/-! ### Arguments are read back -/

theorem takes_readText {s : Str} {quoted : Bytes} (h : imapQuoted s = .ok quoted) :
    Takes SP readText quoted s.bytes := by
  intro rest _
  obtain ⟨hquotable, rfl⟩ := imapQuoted_ok h
  have hrest : (Parser.new (encode (quoteChars s.chars) ++ rest)).rest
      = encode (quoteChars s.chars) ++ rest := by
    simp [Cursor.rest, Parser.new]
  obtain ⟨content, hparse, hcontent⟩ := parseQuoted_of_quoteChars (Nat.zero_le _) hquotable hrest
  have hbehind := Cursor.rest_behind hrest
    (Parser.new (encode (quoteChars s.chars) ++ rest)).aux
  rw [readText, hparse]
  dsimp only
  rw [hbehind, hcontent, Str.chars, encode_utf8Chars s.utf8]

theorem takes_readSet {s : Str} {bytes : Bytes} (h : sequenceSet s = .ok bytes) :
    Takes SP readSet bytes bytes := by
  have hset : SeqSet bytes := by
    rw [sequenceSet] at h
    split at h
    next hcheck =>
      cases h
      exact check_iff.mp hcheck
    · cases h
  exact (takes_field (not_mem_of_sequenceSet (by decide) h)).bind
    (takes_guard hset (takes_pure bytes))

theorem isFlagName_of_check {f : Flag} (h : checkFlag f = .ok ()) : IsFlagName f.toBytes := by
  have hkeyword : isFlagKeyword f.toBytes = true := by
    cases f with
    | custom keyword =>
      rw [checkFlag] at h
      split at h
      · assumption
      · cases h
    | _ => decide +kernel
  simp only [isFlagKeyword, Bool.and_eq_true, Bool.not_eq_true', List.isEmpty_eq_false_iff,
    List.all_eq_true] at hkeyword
  obtain ⟨hne, hall⟩ := hkeyword
  by_cases hslash : f.toBytes.head? = some (byte '\\')
  · rw [if_pos hslash] at hne hall
    exact .inr ⟨hslash, hne, fun b hb => isAtomChar_of_isKeywordChar (hall b hb)⟩
  · rw [if_neg hslash] at hne hall
    exact .inl ⟨hne, fun b hb => isAtomChar_of_isKeywordChar (hall b hb)⟩

theorem IsAtom.not_mem {w : Bytes} (h : IsAtom w) {c : UInt8} (hc : isAtomChar c = false) :
    c ∉ w := by
  intro hmem
  cases hc.symm.trans (h.2 c hmem)

theorem IsFlagName.not_mem {w : Bytes} (h : IsFlagName w) {c : UInt8} (hc : isAtomChar c = false)
    (hslash : c ≠ byte '\\') : c ∉ w := by
  rcases h with h | ⟨hhead, h⟩
  · exact h.not_mem hc
  · rw [List.eq_cons_of_mem_head? hhead, List.mem_cons, not_or]
    exact ⟨hslash, h.not_mem hc⟩

theorem IsFlagName.ne_nil {w : Bytes} (h : IsFlagName w) : w ≠ [] := by
  rcases h with h | ⟨hhead, -⟩
  · exact h.1
  · rintro rfl
    cases hhead

theorem readFlags_flagList {flags : List Flag} (h : ∀ f ∈ flags, checkFlag f = .ok ()) :
    readFlags (flagList flags) = some (flags.map Flag.toBytes, []) := by
  have hnames : ∀ w ∈ flags.map Flag.toBytes, IsFlagName w := by
    intro w hw
    obtain ⟨f, hf, rfl⟩ := List.mem_map.mp hw
    exact isFlagName_of_check (h f hf)
  generalize hnames' : flags.map Flag.toBytes = names at hnames
  have hparen : byte ')' ∉ joinSp names :=
    not_mem_intercalate (by decide) fun w hw => (hnames w hw).not_mem (by decide) (by decide)
  have hsplit : (if joinSp names = [] then [] else (joinSp names).splitOn SP) = names := by
    cases names with
    | nil => rfl
    | cons w names =>
      have hne : joinSp (w :: names) ≠ [] := by
        rw [joinSp_cons]
        exact List.append_ne_nil_of_left_ne_nil (hnames w List.mem_cons_self).ne_nil _
      rw [if_neg hne, joinSp]
      exact List.splitOn_intercalate SP
        (fun w hw => (hnames w hw).not_mem (by decide) (by decide)) (List.cons_ne_nil w names)
  rw [flagList, hnames', readFlags]
  refine skip_last ?_
  refine (takes_field hparen).then_last ?_
  rw [hsplit]
  exact (takes_guard hnames (takes_pure names) : Takes SP _ [] names).run

/-! ### Commands are read back -/

/-- Every name of the table spells its own verb. -/
theorem verb?_of_mem {name : String} {verb : Verb} (h : (name, verb) ∈ verbs) :
    verb? (ascii name) = some verb ∧ SP ∉ ascii name := by
  have hall : ∀ v ∈ verbs, verb? (ascii v.1) = some v.2 ∧ SP ∉ ascii v.1 := by decide +kernel
  exact hall (name, verb) h

/-- A name, and what the command of that name asks for. -/
theorem readCommand_append {name : String} {args : Bytes} {verb : Verb} {command : Command}
    (h : (name, verb) ∈ verbs) (hends : EndsField SP args)
    (hargs : verb.arguments args = some (command, [])) :
    readCommand (ascii name ++ args) = some (command, []) := by
  obtain ⟨hverb, hname⟩ := verb?_of_mem h
  exact (takes_field hname).bind_last hends (lift_last hverb hargs)

/-- The commands without arguments of their own. -/
def bareCommands : List (String × Command) :=
  [("CAPABILITY", .capability), ("NOOP", .noop), ("LOGOUT", .logout),
    ("AUTHENTICATE PLAIN", .authenticatePlain), ("EXPUNGE", .expunge), ("CLOSE", .close),
    ("UNSELECT", .unselect), ("CHECK", .check), ("IDLE", .idle)]

theorem readCommand_bare {line : String} {command : Command} (h : (line, command) ∈ bareCommands) :
    readCommand (ascii line) = some (command, []) := by
  have hall : ∀ c ∈ bareCommands, readCommand (ascii c.1) = some (c.2, []) := by decide +kernel
  exact hall (line, command) h

section

variable {s t : Str} {x y : Bytes}

theorem readCommand_login (hx : imapQuoted s = .ok x) (hy : imapQuoted t = .ok y) :
    readCommand (Session.loginCommand x y) = some (.login s.bytes t.bytes, []) := by
  have hline : Session.loginCommand x y = ascii "LOGIN" ++ SP :: (x ++ SP :: y) := by
    rw [Session.loginCommand, (by decide : ascii "LOGIN " = ascii "LOGIN" ++ [SP])]
    simp
  rw [hline]
  refine readCommand_append (by decide : ("LOGIN", .login) ∈ verbs) endsField_cons ?_
  exact skip_last ((takes_readText hx).then_last
    ((takes_readText hy).bind (takes_pure (Command.login s.bytes t.bytes))).run)

/-- A command whose argument is a mailbox. -/
theorem readCommand_mailbox (hx : imapQuoted s = .ok x) {name : String} {verb : Verb}
    {make : Bytes → Command} (h : (name, verb) ∈ verbs)
    (hargs : verb.arguments = (do skip SP; return make (← readText))) :
    readCommand (ascii name ++ SP :: x) = some (make s.bytes, []) := by
  refine readCommand_append h endsField_cons ?_
  rw [hargs]
  exact skip_last ((takes_readText hx).bind (takes_pure (make s.bytes))).run

theorem readCommand_select (hx : imapQuoted s = .ok x) :
    readCommand (ascii "SELECT " ++ x) = some (.select s.bytes, []) := by
  rw [(by decide : ascii "SELECT " = ascii "SELECT" ++ [SP]), List.append_assoc,
    List.singleton_append]
  exact readCommand_mailbox hx (by decide : ("SELECT", .select) ∈ verbs) rfl

theorem readCommand_examine (hx : imapQuoted s = .ok x) :
    readCommand (ascii "EXAMINE " ++ x) = some (.examine s.bytes, []) := by
  rw [(by decide : ascii "EXAMINE " = ascii "EXAMINE" ++ [SP]), List.append_assoc,
    List.singleton_append]
  exact readCommand_mailbox hx (by decide : ("EXAMINE", .examine) ∈ verbs) rfl

theorem readCommand_list (hx : imapQuoted s = .ok x) (hy : imapQuoted t = .ok y) :
    readCommand (ascii "LIST " ++ x ++ SP :: y) = some (.list s.bytes t.bytes, []) := by
  have hline : ascii "LIST " ++ x ++ SP :: y = ascii "LIST" ++ SP :: (x ++ SP :: y) := by
    rw [(by decide : ascii "LIST " = ascii "LIST" ++ [SP])]
    simp
  rw [hline]
  refine readCommand_append (by decide : ("LIST", .list) ∈ verbs) endsField_cons ?_
  exact skip_last ((takes_readText hx).then_last
    ((takes_readText hy).bind (takes_pure (Command.list s.bytes t.bytes))).run)

theorem readCommand_move (hx : sequenceSet s = .ok x) (hy : imapQuoted t = .ok y) :
    readCommand (ascii "MOVE " ++ x ++ SP :: y) = some (.move x t.bytes, []) := by
  have hline : ascii "MOVE " ++ x ++ SP :: y = ascii "MOVE" ++ SP :: (x ++ SP :: y) := by
    rw [(by decide : ascii "MOVE " = ascii "MOVE" ++ [SP])]
    simp
  rw [hline]
  refine readCommand_append (by decide : ("MOVE", .move) ∈ verbs) endsField_cons ?_
  exact skip_last ((takes_readSet hx).then_last
    ((takes_readText hy).bind (takes_pure (Command.move x t.bytes))).run)

theorem readCommand_fetch (hx : sequenceSet s = .ok x) (items : Bytes) :
    readCommand (ascii "FETCH " ++ x ++ SP :: items) = some (.fetch x items, []) := by
  have hline : ascii "FETCH " ++ x ++ SP :: items = ascii "FETCH" ++ SP :: (x ++ SP :: items) := by
    rw [(by decide : ascii "FETCH " = ascii "FETCH" ++ [SP])]
    simp
  rw [hline]
  refine readCommand_append (by decide : ("FETCH", .fetch) ∈ verbs) endsField_cons ?_
  exact skip_last ((takes_readSet hx).then_last rfl)

end

/-- `UID` in front of a name. -/
theorem readCommand_uid {name : String} {args : Bytes} {verb : Verb} {command : Command}
    (h : (name, verb) ∈ verbs) (hends : EndsField SP args)
    (hargs : verb.uidArguments args = some (command, [])) :
    readCommand (ascii "UID" ++ SP :: (ascii name ++ args)) = some (command, []) := by
  obtain ⟨hverb, hname⟩ := verb?_of_mem h
  refine readCommand_append (by decide : ("UID", .uid) ∈ verbs) endsField_cons ?_
  exact skip_last ((takes_field hname).bind_last hends (lift_last hverb hargs))

/-! ### Searches -/

theorem subset_escape (text : Bytes) : text ⊆ escape text := by
  intro b hb
  refine List.mem_flatMap.mpr ⟨b, hb, ?_⟩
  rw [escapeByte]
  split <;> simp

theorem subset_textKey (keyword : String) (s : Str) : s.bytes ⊆ textKey keyword s := by
  intro b hb
  have hquote : b ∈ quote s.bytes :=
    List.mem_cons_of_mem _ (List.mem_append_left _ (subset_escape s.bytes hb))
  exact List.mem_append_right _ (List.mem_cons_of_mem _ hquote)

theorem subset_joinSp {part : Bytes} {parts : List Bytes} (h : part ∈ parts) :
    part ⊆ joinSp parts := by
  induction parts with
  | nil => cases h
  | cons x parts ih =>
    rw [joinSp_cons]
    rcases List.mem_cons.mp h with rfl | h
    · exact List.subset_append_left _ _
    · intro b hb
      exact List.mem_append_right _ (List.mem_flatMap.mpr ⟨part, h, List.mem_cons_of_mem SP hb⟩)

mutual

/-- Every text of a criterion is in the line, whatever it holds. -/
theorem SearchKey.texts_subset : ∀ t : SearchKey, ∀ s ∈ t.texts, s.bytes ⊆ t.toImapString
  | .from_ x, s, hs | .to x, s, hs | .subject x, s, hs | .body x, s, hs | .text x, s, hs => by
    rw [texts, List.mem_singleton] at hs
    rw [hs, toImapString]
    exact subset_textKey _ x
  | .and keys, s, hs => by
    rw [texts] at hs
    obtain ⟨part, hpart, hsub⟩ := allTexts_subset keys s hs
    rw [toImapString]
    exact List.Subset.trans hsub (subset_joinSp hpart)
  | .or left right, s, hs => by
    rw [texts] at hs
    intro b hb
    rw [toImapString]
    rcases List.mem_append.mp hs with hs | hs
    · have := texts_subset left s hs hb
      simp [this]
    · have := texts_subset right s hs hb
      simp [this]
  | .not key, s, hs => by
    rw [texts] at hs
    intro b hb
    have := texts_subset key s hs hb
    rw [toImapString]
    simp [this]
  | .all, s, hs | .answered, s, hs | .deleted, s, hs | .draft, s, hs | .flagged, s, hs
  | .recent, s, hs | .seen, s, hs | .unanswered, s, hs | .undeleted, s, hs | .undraft, s, hs
  | .unflagged, s, hs | .unseen, s, hs => by
    simp [texts] at hs

theorem SearchKey.allTexts_subset : ∀ keys : List SearchKey, ∀ s ∈ allTexts keys,
    ∃ part ∈ toImapStrings keys, s.bytes ⊆ part
  | [], s, hs => by simp [allTexts] at hs
  | key :: keys, s, hs => by
    rw [allTexts] at hs
    rcases List.mem_append.mp hs with hs | hs
    · exact ⟨_, List.mem_cons_self, texts_subset key s hs⟩
    · obtain ⟨part, hpart, hsub⟩ := allTexts_subset keys s hs
      exact ⟨part, List.mem_cons_of_mem _ hpart, hsub⟩

end

/-- A criterion that can be sent has texts that can be quoted. -/
theorem SearchKey.quotable_of_noBreaks {t : SearchKey} {verb : Bytes}
    (h : NoBreaks (verb ++ t.toImapString)) : t.quotable = true := by
  rw [quotable, List.all_eq_true]
  intro s hs
  rw [isQuotable, List.all_eq_true]
  intro b hb
  obtain ⟨hcr, hlf, hnul⟩ := h b (List.mem_append_right _ (t.texts_subset s hs hb))
  simp [hcr, hlf, hnul]

theorem readSearch_eq {query : SearchQuery} (h : query.key.quotable = true) (uid : Bool) :
    readSearch uid (SP :: query.build) = some (.search uid query.key.tokens, []) := by
  refine skip_last (remainder_last ?_)
  exact lift_last (lex_toImapString h) rfl

theorem readCommand_search {query : SearchQuery} (h : query.key.quotable = true) :
    readCommand (ascii "SEARCH " ++ query.build)
      = some (.search false query.key.tokens, []) := by
  rw [(by decide : ascii "SEARCH " = ascii "SEARCH" ++ [SP]), List.append_assoc,
    List.singleton_append]
  exact readCommand_append (by decide : ("SEARCH", .search) ∈ verbs) endsField_cons
    (readSearch_eq h false)

theorem readCommand_uidSearch {query : SearchQuery} (h : query.key.quotable = true) :
    readCommand (ascii "UID SEARCH " ++ query.build)
      = some (.search true query.key.tokens, []) := by
  have hline : ascii "UID SEARCH " ++ query.build
      = ascii "UID" ++ SP :: (ascii "SEARCH" ++ SP :: query.build) := by
    rw [(by decide : ascii "UID SEARCH " = ascii "UID" ++ SP :: (ascii "SEARCH" ++ [SP]))]
    simp
  rw [hline]
  exact readCommand_uid (by decide : ("SEARCH", .search) ∈ verbs) endsField_cons
    (readSearch_eq h true)

/-! ### Stores -/

theorem storeAction?_toImapPrefix (action : StoreAction) (silent : Bool) :
    SP ∉ action.toImapPrefix silent ∧
      storeAction? (action.toImapPrefix silent) = some (action, silent) := by
  cases action <;> cases silent <;> decide +kernel

theorem readStore_eq {set : Bytes} {flags : List Flag} (hset : Takes SP readSet set set)
    (hflags : ∀ f ∈ flags, checkFlag f = .ok ()) (action : StoreAction) (uid : Bool) :
    readStore uid (SP :: (set ++ SP :: (action.toImapPrefix false ++ SP :: flagList flags)))
      = some (.store uid set action false (flags.map Flag.toBytes), []) := by
  obtain ⟨hsp, haction⟩ := storeAction?_toImapPrefix action false
  refine skip_last (hset.then_last ((takes_field hsp).then_last (lift_last haction ?_)))
  change (readFlags >>= fun flags => pure (Command.store uid set action false flags)) _ = _
  have hrun : (readFlags >>= fun flags => pure (Command.store uid set action false flags))
      (flagList flags) = (readFlags (flagList flags)).bind fun r =>
        some (Command.store uid set action false r.1, r.2) := rfl
  rw [hrun, readFlags_flagList hflags]
  rfl

theorem readCommand_store {set : Str} {action : StoreAction} {flags : List Flag} {cmd : Bytes}
    (h : Session.storeCommand "STORE " set action flags = .ok cmd) :
    readCommand cmd
      = some (.store false set.bytes action false (flags.map Flag.toBytes), []) := by
  obtain ⟨hflags, hset, rfl⟩ := storeCommand_ok.mp h
  rw [storeText, (by decide : ascii "STORE " = ascii "STORE" ++ [SP]), List.append_assoc,
    List.append_assoc, List.singleton_append]
  exact readCommand_append (by decide : ("STORE", .store) ∈ verbs) endsField_cons
    (readStore_eq (takes_readSet hset) hflags action false)

theorem readCommand_uidStore {set : Str} {action : StoreAction} {flags : List Flag} {cmd : Bytes}
    (h : Session.storeCommand "UID STORE " set action flags = .ok cmd) :
    readCommand cmd
      = some (.store true set.bytes action false (flags.map Flag.toBytes), []) := by
  obtain ⟨hflags, hset, rfl⟩ := storeCommand_ok.mp h
  rw [storeText, (by decide : ascii "UID STORE " = ascii "UID" ++ SP :: (ascii "STORE" ++ [SP]))]
  simp only [List.append_assoc, List.cons_append, List.nil_append]
  exact readCommand_uid (by decide : ("STORE", .store) ∈ verbs) endsField_cons
    (readStore_eq (takes_readSet hset) hflags action true)

/-! ### Lines are read back -/

theorem isAtom_formatTag (n : ℕ) : IsAtom (formatTag n) := by
  refine ⟨List.cons_ne_nil _ _, ?_⟩
  have hdigit : ∀ k < 58, 48 ≤ k → isAtomChar k.toUInt8 = true := by decide
  intro b hb
  obtain ⟨c, hc, rfl⟩ := List.mem_map.mp hb
  rcases List.mem_cons.mp hc with rfl | hc
  · decide
  · have h : c.isDigit = true := isDigit_of_mem_tagDigits hc
    simp only [Char.isDigit, Bool.and_eq_true, decide_eq_true_eq] at h
    have hlow : 48 ≤ c.toNat := UInt32.le_iff_toNat_le.mp h.1
    have hhigh : c.toNat ≤ 57 := UInt32.le_iff_toNat_le.mp h.2
    exact hdigit c.toNat (by omega) hlow

theorem readLine_command {tag cmd : Bytes} {command : Command} (htag : IsAtom tag)
    (h : readCommand cmd = some (command, [])) :
    readLine (tag ++ SP :: cmd) = some ⟨some tag, .command command⟩ := by
  have htake := takes_field (htag.not_mem (c := SP) (by decide)) (SP :: cmd) endsField_cons
  obtain ⟨htake, hdrop⟩ := Prod.mk.inj (Option.some.inj htake)
  rw [readLine, hdrop]
  dsimp only
  rw [htake, if_pos htag, h]

theorem readLine_data {line : Bytes} (h : SP ∉ line) : readLine line = some ⟨none, .data line⟩ := by
  have hdrop : line.dropWhile (· ≠ SP) = [] := by
    rw [List.dropWhile_eq_nil_iff]
    intro b hb
    simpa using fun heq : b = SP => h (heq ▸ hb)
  rw [readLine, hdrop]

/-- **Lines are read one after the other.** -/
theorem readStream_flatMap {lines : List (Bytes × ClientLine)}
    (h : ∀ l ∈ lines, LF ∉ l.1 ∧ readLine l.1 = some l.2) :
    readStream (lines.flatMap fun l => l.1 ++ CRLF) = some (lines.map (·.2)) := by
  have hcut : cutLines CR LF (lines.flatMap fun l => l.1 ++ CRLF) = some (lines.map (·.1)) := by
    have hfree : ∀ line ∈ lines.map (·.1), LF ∉ line := by
      intro line hline
      obtain ⟨l, hl, rfl⟩ := List.mem_map.mp hline
      exact (h l hl).1
    have hcut := cutLines_flatMap (by decide : LF ≠ CR) hfree
    rwa [List.flatMap_map] at hcut
  rw [readStream, hcut]
  change (lines.map (·.1)).mapM readLine = _
  clear hcut
  induction lines with
  | nil => rfl
  | cons l lines ih =>
    obtain ⟨hl, hlines⟩ := List.forall_mem_cons.mp h
    rw [List.map_cons, List.mapM_cons, hl.2, ih hlines]
    rfl

end ImapRs
