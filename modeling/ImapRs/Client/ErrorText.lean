import ImapRs.Client.Bounds
import ImapRs.Core.Blame
import ImapRs.Tls.Connect

/-!
# What a user is shown

The texts of the errors of `imap-core/src/error.rs` and `imap-client/src/error.rs`. A hostile server
must not drive the terminal or the log viewer that displays an error, so text of the server only
gets into one through `ClientError::command_failed`, which cuts it and replaces what is unsafe to
display. All other texts are the client's own, with numbers in them.

Errors start in the read loop and in the checks of the methods, and every other part only hands them
on. So there is one invariant of the two loops, one judgment for the methods, and one for the way to
a session.

## Main definitions

* `ParseError.display`, `ClientError.display` — the texts
* `Harmless` — a short text that is safe to display
* `ClientError.Presentable` — an error that the client may hand out

## Main results

* `Presentable.display` — what is handed out is harmless
* `Dispatcher.resolved_presentable` — the loops hand out nothing else
* `operation_error_harmless`, `starttlsWithConnector_error_harmless` — what the caller of a method,
  or of a connect function, is shown
-/

namespace ImapRs

open Incremental Transition

/-! ### Texts -/

/-- `Display` for `ParseError`. How a string is shown for debugging is left open. -/
def ParseError.display (debug : String → List Char) : ParseError → List Char
  | .incomplete => "Incomplete input".toList
  | .invalidChar offset => "Invalid character at offset ".toList ++ Nat.toDigits 10 offset
  | .expectedLiteral expected offset =>
    "Expected literal ".toList ++ debug expected ++ " at offset ".toList ++ Nat.toDigits 10 offset
  | .unexpectedEof => "Unexpected end of input".toList
  | .invalidNumber => "Number parsing error".toList
  | .literalTooLarge got max =>
    "Literal length ".toList ++ Nat.toDigits 10 got ++ " exceeds maximum ".toList ++
      Nat.toDigits 10 max
  | .tooManyItems max =>
    "response has more than ".toList ++ Nat.toDigits 10 max ++ " list items".toList
  | .malformed what => "Malformed response: ".toList ++ what.toList
  | .other what => "Other parsing error: ".toList ++ what.toList

/-- `Display` for `ClientError`. An I/O error has its own text: that of the operating system, or of
the TLS library, whose errors are I/O errors too. -/
def ClientError.display (debug : String → List Char) (io : List Char) : ClientError → List Char
  | .io => "I/O error: ".toList ++ io
  | .parse e => "Parse error: ".toList ++ e.display debug
  | .connectionClosed => "Connection closed".toList
  | .frameTooLarge max =>
    "response frame exceeded the maximum size of ".toList ++ Nat.toDigits 10 max ++
      " bytes".toList
  | .commandFailed text => "Command failed: ".toList ++ text
  | .unsupportedCapability name => "Capability not supported: ".toList ++ name.toList
  | .timeout => "Command timed out".toList
  | .invalidArgument what => "invalid argument: ".toList ++ what.toList

/-- At most `n` characters, none of which can change how the text around them is rendered. -/
def Harmless (n : ℕ) (text : List Char) : Prop :=
  (∀ c ∈ text, isUnsafeToDisplay c = false) ∧ text.length ≤ n

instance (n : ℕ) (text : List Char) : Decidable (Harmless n text) :=
  @instDecidableAnd _ _ (List.decidableBAll _ text) (Nat.decLe _ _)

section Harmless

variable {m n : ℕ} {text text' : List Char}

theorem Harmless.append (h : Harmless m text) (h' : Harmless n text') :
    Harmless (m + n) (text ++ text') := by
  refine ⟨fun c hc => ?_, ?_⟩
  · rcases List.mem_append.mp hc with hc | hc
    · exact h.1 c hc
    · exact h'.1 c hc
  · rw [List.length_append]
    exact Nat.add_le_add h.2 h'.2

theorem Harmless.mono (h : Harmless m text) (hle : m ≤ n) : Harmless n text :=
  ⟨h.1, h.2.trans hle⟩

theorem harmless_of_isDigit {c : Char} (h : c.isDigit = true) : isUnsafeToDisplay c = false := by
  have hdigit : 0x30 ≤ c.toNat ∧ c.toNat ≤ 0x39 := by
    simpa [Char.isDigit, UInt32.le_iff_toNat_le] using h
  simp only [isUnsafeToDisplay, Bool.or_eq_false_iff, Bool.and_eq_false_iff, beq_eq_false_iff_ne,
    decide_eq_false_iff_not]
  omega

/-- A machine word in decimals. -/
theorem harmless_toDigits {k : ℕ} (h : k < 2 ^ 64) : Harmless 20 (Nat.toDigits 10 k) := by
  refine ⟨fun c hc => ?_, ?_⟩
  · exact harmless_of_isDigit (Nat.isDigit_of_mem_toDigits (by decide) (by decide) hc)
  · exact (Nat.length_toDigits_le_iff (by decide) (by decide)).mpr (h.trans (by decide))

/-- What replaces an unsafe character is safe. -/
theorem harmless_sanitized (chars : List Char) :
    Harmless MAX_SERVER_TEXT_CHARS ((chars.take MAX_SERVER_TEXT_CHARS).map fun c =>
      if isUnsafeToDisplay c then REPLACEMENT else c) := by
  refine ⟨fun c hc => ?_, ?_⟩
  · obtain ⟨d, -, rfl⟩ := List.mem_map.mp hc
    by_cases hd : isUnsafeToDisplay d = true
    · rw [if_pos hd]
      decide
    · rw [if_neg hd]
      simpa using hd
  · rw [List.length_map]
    exact List.length_take_le _ _

end Harmless

/-! ### Errors -/

/-- The texts of the client's own checks. -/
def clientTexts : List String :=
  ["command contains CR, LF or NUL", "sequence set", "fetch items", "flag keyword", "UNSELECT",
    "IDLE", "MOVE"]

/-- An error that may be handed out by a client that keeps no more than `limit` bytes of a frame. -/
def ClientError.Presentable (limit : ℕ) : ClientError → Prop
  | .io => False
  | .parse e => ∃ x : Bytes, x.length ≤ limit ∧ e.Accurate x
  | .connectionClosed | .timeout => True
  | .frameTooLarge max => max ≤ limit
  | .commandFailed text => Harmless (MAX_SERVER_TEXT_CHARS + 1) text
  | .unsupportedCapability name | .invalidArgument name => name ∈ clientTexts

variable {limit : ℕ}

theorem ofChars_presentable (chars : List Char) :
    (ClientError.ofChars chars).Presentable limit := by
  have hsafe := harmless_sanitized chars
  rw [ClientError.ofChars]
  split
  · exact hsafe.append (by decide +kernel : Harmless 1 ['…'])
  · exact hsafe.mono (Nat.le_succ _)

theorem ofCommandFailed_presentable (text : Str) :
    (ClientError.ofCommandFailed text).Presentable limit :=
  ofChars_presentable text.chars

theorem harmless_parserTexts {what : String} (h : what ∈ parserTexts) :
    Harmless 40 what.toList := by
  have hall : ∀ what ∈ parserTexts, Harmless 40 what.toList := by decide +kernel
  exact hall what h

theorem harmless_clientTexts {what : String} (h : what ∈ clientTexts) :
    Harmless 40 what.toList := by
  have hall : ∀ what ∈ clientTexts, Harmless 40 what.toList := by decide +kernel
  exact hall what h

/-- What an accurate error says is harmless. -/
theorem ParseError.Accurate.harmless {x : Bytes} {e : ParseError} (h : e.Accurate x)
    (hx : x.length ≤ limit) (hlimit : limit < 2 ^ 64) (debug : String → List Char) :
    Harmless 90 (e.display debug) := by
  cases e with
  | incomplete => exact (by decide +kernel : Harmless 90 "Incomplete input".toList)
  | invalidNumber => exact (by decide +kernel : Harmless 90 "Number parsing error".toList)
  | expectedLiteral expected offset => exact h.elim
  | unexpectedEof => exact h.elim
  | invalidChar offset =>
    have hoffset : offset < x.length := h
    exact ((by decide +kernel : Harmless 40 "Invalid character at offset ".toList).append
      (harmless_toDigits (by omega))).mono (by decide)
  | literalTooLarge got max =>
    obtain ⟨rfl, -, hgot⟩ := h
    exact ((((by decide +kernel : Harmless 20 "Literal length ".toList).append
      (harmless_toDigits (by omega))).append
        (by decide +kernel : Harmless 20 " exceeds maximum ".toList)).append
          (harmless_toDigits (by decide))).mono (by decide)
  | tooManyItems max =>
    cases h
    exact ((by decide +kernel : Harmless 23 "response has more than ".toList).append
      (harmless_toDigits (by decide))).append (by decide +kernel : Harmless 47 " list items".toList)
  | malformed what =>
    exact ((by decide +kernel : Harmless 20 "Malformed response: ".toList).append
      (harmless_parserTexts h)).mono (by decide)
  | other what =>
    exact ((by decide +kernel : Harmless 21 "Other parsing error: ".toList).append
      (harmless_parserTexts h)).mono (by decide)

/-- The longest text an error has. -/
def MAX_ERROR_CHARS : ℕ := MAX_SERVER_TEXT_CHARS + 17

/-- **What is handed out is harmless.** -/
theorem ClientError.Presentable.display {e : ClientError} (h : e.Presentable limit)
    (hlimit : limit < 2 ^ 64) (debug : String → List Char) (io : List Char) :
    Harmless MAX_ERROR_CHARS (e.display debug io) := by
  cases e with
  | io => exact h.elim
  | parse e =>
    obtain ⟨x, hx, he⟩ := h
    exact ((by decide +kernel : Harmless 13 "Parse error: ".toList).append
      (he.harmless hx hlimit debug)).mono (by decide)
  | connectionClosed =>
    exact (by decide +kernel : Harmless MAX_ERROR_CHARS "Connection closed".toList)
  | timeout => exact (by decide +kernel : Harmless MAX_ERROR_CHARS "Command timed out".toList)
  | frameTooLarge max =>
    have hmax : max ≤ limit := h
    have hfront : Harmless 50 "response frame exceeded the maximum size of ".toList := by
      decide +kernel
    exact ((hfront.append (harmless_toDigits (by omega))).append
      (by decide +kernel : Harmless 6 " bytes".toList)).mono (by decide)
  | commandFailed text =>
    exact ((by decide +kernel : Harmless 16 "Command failed: ".toList).append h).mono (by decide)
  | unsupportedCapability name =>
    exact ((by decide +kernel : Harmless 26 "Capability not supported: ".toList).append
      (harmless_clientTexts h)).mono (by decide)
  | invalidArgument what =>
    exact ((by decide +kernel : Harmless 18 "invalid argument: ".toList).append
      (harmless_clientTexts h)).mono (by decide)

/-! ### The two loops -/

namespace Dispatcher

variable {maxFrameSize chunk : ℕ} {a : Action} {s s' : Dispatcher}

/-- Every error a command was resolved with, and the one the read loop is about to give up with. -/
structure Polite (maxFrameSize chunk : ℕ) (s : Dispatcher) : Prop where
  bounded : Bounded maxFrameSize chunk s
  failing : ∀ e, s.reader = .failing e → e.Presentable (maxFrameSize + chunk)
  resolved : ∀ r ∈ s.resolved, ∀ e, r.result = .error e → e.Presentable (maxFrameSize + chunk)

theorem polite_new : Polite maxFrameSize chunk new where
  bounded := bounded_new
  failing _ h := by cases h
  resolved := by simp [new]

/-- A step that neither fails nor resolves anything. -/
theorem Polite.keep (h : Polite maxFrameSize chunk s) (hb : Bounded maxFrameSize chunk s')
    (hreader : s'.reader = s.reader ∨ ∀ e, s'.reader ≠ .failing e)
    (hresolved : s'.resolved = s.resolved) : Polite maxFrameSize chunk s' where
  bounded := hb
  failing e he := by
    rcases hreader with hsame | hnot
    · exact h.failing e (hsame.symm.trans he)
    · exact absurd he (hnot e)
  resolved := by
    rw [hresolved]
    exact h.resolved

/-- What a tagged status means for a command. -/
theorem taggedResult_presentable {limit : ℕ} {status : Status} {text : Str} {frame : Bytes}
    {e : ClientError} (h : taggedResult status text frame = .error e) : e.Presentable limit := by
  cases status with
  | ok => cases h
  | no | bad | preAuth =>
    cases h
    exact ofCommandFailed_presentable text
  | bye =>
    cases h
    trivial

/-- What the read loop stops with at a buffer. -/
theorem scan_stop_presentable {buffer : Bytes} {e : ClientError}
    (h : scan maxFrameSize buffer = .stop e) (hle : buffer.length ≤ maxFrameSize + chunk) :
    e.Presentable (maxFrameSize + chunk) := by
  rcases scan_cases maxFrameSize buffer with ⟨f, rest, hframe, -⟩ | ⟨hwait, -⟩ | ⟨e', hstop, hwhy⟩
  · cases hframe.symm.trans h
  · cases hwait.symm.trans h
  · cases hstop.symm.trans h
    rcases hwhy with ⟨pe, rfl, -, hparse⟩ | ⟨rfl, -, -⟩
    · exact ⟨buffer, hle, parseResponse_blames hparse⟩
    · exact Nat.le_add_right _ _

theorem readBuf_failing {r : ReadResult} (h : s.readBuf r = some s') {e : ClientError}
    (he : s'.reader = .failing e) : e = .connectionClosed := by
  rw [readBuf] at h
  split at h
  · split at h <;> cases h <;> cases he <;> rfl
  · cases h

theorem scanBuffer_failing {owner : Option CommandId}
    (h : s.scanBuffer maxFrameSize owner = some s') {e : ClientError}
    (he : s'.reader = .failing e) :
    ∃ buffer, s.reader = .scanning buffer ∧ scan maxFrameSize buffer = .stop e := by
  rw [scanBuffer] at h
  split at h
  next buffer hr =>
    cases hscan : scan maxFrameSize buffer with
    | frame f rest =>
      rw [hscan] at h
      cases h
      cases he
    | wait =>
      rw [hscan] at h
      cases h
      cases he
    | stop e' =>
      rw [hscan] at h
      cases h
      cases he
      exact ⟨buffer, hr, hscan⟩
  · cases h

/-- **One step.** -/
theorem Polite.step (h : Polite maxFrameSize chunk s) (hread : ReadsAtMost chunk a s)
    (hstep : step maxFrameSize a s = some s') : Polite maxFrameSize chunk s' := by
  have hb := h.bounded.step hread hstep
  cases moves_of_step hstep with
  | readEnd hr =>
    refine ⟨hb, fun e he => ?_, h.resolved⟩
    rw [readBuf_failing hstep he]
    trivial
  | scanStop hr =>
    refine ⟨hb, fun e he => ?_, h.resolved⟩
    obtain ⟨buffer, hbuffer, hscan⟩ := scanBuffer_failing hstep he
    have hheld := h.bounded.held
    rw [hbuffer] at hheld
    exact scan_stop_presentable hscan hheld
  | resolve hr _ =>
    refine ⟨hb, fun e he => (by cases he), fun r hmem e he => ?_⟩
    rcases List.mem_append.mp hmem with hmem | hmem
    · exact h.resolved r hmem e he
    · obtain rfl := List.mem_singleton.mp hmem
      exact taggedResult_presentable he
  | failAll hr =>
    refine ⟨hb, fun e he => (by cases he), fun r hmem e he => ?_⟩
    rcases List.mem_append.mp hmem with hmem | hmem
    · exact h.resolved r hmem e he
    · obtain ⟨reply, -, rfl⟩ := List.mem_map.mp hmem
      cases he
      exact h.failing _ hr
  | _ =>
    first
    | exact h.keep hb (.inl rfl) rfl
    | exact h.keep hb (.inr fun e he => by cases he) rfl

/-- **The loops hand out nothing else.** -/
theorem resolved_presentable (h : ReachableBy maxFrameSize (ReadsAtMost chunk) s) {r : Resolution}
    (hr : r ∈ s.resolved) {e : ClientError} (he : r.result = .error e) :
    e.Presentable (maxFrameSize + chunk) := by
  have hpolite : Polite maxFrameSize chunk s :=
    h.invariant polite_new fun _ hread hstep hs => hs.step hread hstep
  exact hpolite.resolved r hr e he

end Dispatcher

/-! ### The methods -/

/-- Every error in the answers is one that the loops may hand out. -/
def PoliteAnswers (limit : ℕ) (answers : CommandId → Answer) : Prop :=
  ∀ i e, (answers i).reply = .resolved (.error e) → e.Presentable limit

/-- The program fails only with what may be handed out, as long as the answers do. -/
abbrev Discreet {α : Type} (limit : ℕ) (answers : CommandId → Answer) (p : SessionM α) : Prop :=
  Throws (fun s => s.raw.answers = answers) (ClientError.Presentable limit) p

section Session

open RawClient

variable {α : Type} {answers : CommandId → Answer} {cmd : Bytes} {e : ClientError}

theorem await_presentable (h : PoliteAnswers limit answers) (i : CommandId)
    (he : (answers i).reply.await = .error e) : e.Presentable limit := by
  cases hreply : (answers i).reply with
  | resolved result =>
    rw [hreply] at he
    exact h i e (hreply.trans (congrArg Reply.resolved he))
  | dropped | late =>
    rw [hreply] at he
    cases he
    trivial

theorem rejectLineBreaks_presentable (he : rejectLineBreaks cmd = .error e) :
    e.Presentable limit := by
  rw [rejectLineBreaks] at he
  split at he <;> cases he
  exact (by decide : "command contains CR, LF or NUL" ∈ clientTexts)

theorem imapQuoted_presentable {s : Str} (he : imapQuoted s = .error e) : e.Presentable limit := by
  rw [imapQuoted] at he
  split at he <;> cases he
  exact (by decide +kernel : Harmless (MAX_SERVER_TEXT_CHARS + 1)
    ("value contains characters disallowed in IMAP quoted string; " ++
      "use AUTHENTICATE for 8-bit or control-byte values").toList)

theorem sequenceSet_presentable {set : Str} (he : sequenceSet set = .error e) :
    e.Presentable limit := by
  rw [sequenceSet] at he
  split at he <;> cases he
  exact (by decide : "sequence set" ∈ clientTexts)

theorem fetchItems_presentable {items : Str} (he : fetchItems items = .error e) :
    e.Presentable limit := by
  rw [fetchItems] at he
  split at he <;> cases he
  exact (by decide : "fetch items" ∈ clientTexts)

theorem checkFlags_presentable {flags : List Flag} (he : flags.forM checkFlag = .error e) :
    e.Presentable limit := by
  induction flags with
  | nil => cases he
  | cons flag flags ih =>
    change (checkFlag flag >>= fun _ => flags.forM checkFlag) = .error e at he
    cases hflag : checkFlag flag with
    | ok _ =>
      rw [hflag] at he
      exact ih he
    | error e' =>
      rw [hflag] at he
      cases he
      cases flag with
      | custom keyword =>
        rw [checkFlag] at hflag
        split at hflag <;> cases hflag
        exact (by decide : "flag keyword" ∈ clientTexts)
      | _ => cases hflag

theorem enqueueCommand_discreet (collector : Option FrameFilter) :
    Discreet limit answers (enqueueCommand cmd collector) := by
  refine .bind (.lift fun e he => rejectLineBreaks_presentable he) fun _ => .get_bind fun s hs => ?_
  exact .ite (fun _ => .bind (.set hs) fun _ => .pure _) fun _ =>
    .bind (.set hs) fun _ => .throw trivial

theorem executeCommand_discreet (h : PoliteAnswers limit answers) (cmd : Bytes) :
    Discreet limit answers (executeCommand cmd) := by
  refine .bind (enqueueCommand_discreet none) fun i => .get_bind fun s hs => .lift fun e he => ?_
  rw [hs] at he
  exact await_presentable h i he

/-- A method that streams its frames: what it does with the reply is up to the reply. -/
theorem executeStreaming_discreet (h : PoliteAnswers limit answers) {wants : FrameFilter}
    {q : List ServerFrame × Except ClientError ServerFrame → SessionM α}
    (hq : ∀ frames reply, (∀ e, reply = .error e → e.Presentable limit) →
      Discreet limit answers (q (frames, reply))) :
    Discreet limit answers (executeStreaming cmd wants >>= q) := by
  have hstream : Discreet limit answers (executeStreaming cmd wants) :=
    .bind (enqueueCommand_discreet _) fun i => .get_bind fun s hs => .pure _
  refine hstream.bind_of fun s r s' hs hrun => ?_
  rcases executeStreaming_cases cmd wants s with ⟨-, e, hrefused⟩ | hlost | ⟨-, hsent⟩
  · rw [hrefused] at hrun
    cases hrun
  · rw [hlost] at hrun
    cases hrun
  · rw [hsent] at hrun
    cases hrun
    exact hq _ _ fun e he => await_presentable h _ (hs ▸ he)

theorem refreshCapabilities_discreet (h : PoliteAnswers limit answers) :
    Discreet limit answers Session.refreshCapabilities :=
  executeStreaming_discreet h fun _ _ hreply => .bind (.modify fun _ hs => hs) fun _ =>
    .bind (.lift hreply) fun _ => .pure _

theorem refreshCapabilitiesFromFrame_discreet (h : PoliteAnswers limit answers) (frame : Bytes) :
    Discreet limit answers (Session.refreshCapabilitiesFromFrame frame) := by
  refine .get_bind fun s hs => ?_
  cases parseResponse frame with
  | error e => exact refreshCapabilities_discreet h
  | ok r => exact .ite (fun _ => .set hs) fun _ => refreshCapabilities_discreet h

/-- A check in front of a command that is sent and awaited. -/
theorem checked_discreet {β : Type} {x : Except ClientError β} {q : β → SessionM α}
    (hx : ∀ e, x = .error e → e.Presentable limit) (hq : ∀ b, Discreet limit answers (q b)) :
    Discreet limit answers ((liftM x : SessionM β) >>= q) :=
  .bind (.lift hx) hq

theorem logout_discreet (h : PoliteAnswers limit answers) :
    Discreet limit answers Session.logout := by
  intro s hs
  obtain ⟨hI, hE⟩ := executeCommand_discreet h (ascii "LOGOUT") s hs
  rw [Session.logout]
  cases hrun : executeCommand (ascii "LOGOUT") s with
  | mk r s' =>
    rw [hrun] at hI hE
    cases r with
    | ok frame => exact ⟨hI, fun _ he => by cases he⟩
    | error e =>
      cases e with
      | connectionClosed => exact ⟨hI, fun _ he => by cases he⟩
      | _ =>
        refine ⟨hI, fun _ he => ?_⟩
        cases he
        exact hE _ rfl

theorem continuation_presentable (h : PoliteAnswers limit answers) (i : CommandId)
    (he : Session.continuation (answers i) = .error e) : e.Presentable limit := by
  rw [Session.continuation] at he
  split at he
  · cases he
  · cases he
    trivial
  · cases he
    trivial
  next hreply =>
    cases he
    exact h i _ hreply
  · cases he
    exact (by decide +kernel : Harmless (MAX_SERVER_TEXT_CHARS + 1)
      "server completed the command without a continuation request".toList)

/-- What awaits the tagged response behind a continuation request. -/
theorem awaitContinuation_discreet (h : PoliteAnswers limit answers) {i : CommandId}
    {q : Reply → SessionM α}
    (hq : Discreet limit answers (q (answers i).reply)) :
    Discreet limit answers (Session.awaitContinuation i >>= q) := by
  have hawait : Discreet limit answers (Session.awaitContinuation i) :=
    .get_bind fun s hs => .lift fun e he => continuation_presentable h i (hs ▸ he)
  refine hawait.bind_of fun s reply s' hs hrun => ?_
  obtain ⟨rfl, -⟩ := Session.awaitContinuation_ok hrun
  rw [hs]
  exact hq

theorem sendSecret_discreet (i : CommandId) (bytes : Bytes) :
    Discreet limit answers (sendSecret i bytes) :=
  .get_bind fun _ hs => .ite (fun _ => .set hs) fun _ => .throw trivial

theorem authenticatePlain_discreet (h : PoliteAnswers limit answers) (user pass : Str) :
    Discreet limit answers (Session.authenticatePlain user pass) := by
  refine .ite (fun _ => .throw ?_) fun _ => .ite (fun _ => .throw ?_) fun _ => ?_
  · exact (by decide +kernel : Harmless (MAX_SERVER_TEXT_CHARS + 1)
      "username must not contain NUL".toList)
  · exact (by decide +kernel : Harmless (MAX_SERVER_TEXT_CHARS + 1)
      "password must not contain NUL".toList)
  · refine .bind (enqueueCommand_discreet _) fun i => awaitContinuation_discreet h ?_
    exact .bind (sendSecret_discreet i _) fun _ =>
      .bind (.lift fun e he => await_presentable h i he) fun frame =>
        refreshCapabilitiesFromFrame_discreet h frame.bytes

theorem fetchCommand_presentable {set items : Str}
    (he : Session.fetchCommand set items = .error e) :
    e.Presentable limit := by
  rw [Session.fetchCommand] at he
  cases hset : sequenceSet set with
  | error e' =>
    rw [hset] at he
    cases he
    exact sequenceSet_presentable hset
  | ok _ =>
    cases hitems : fetchItems items with
    | error e' =>
      rw [hset, hitems] at he
      cases he
      exact fetchItems_presentable hitems
    | ok _ =>
      rw [hset, hitems] at he
      cases he

theorem storeCommand_presentable {verb : String} {set : Str} {action : StoreAction}
    {flags : List Flag} (he : Session.storeCommand verb set action flags = .error e) :
    e.Presentable limit := by
  rw [Session.storeCommand] at he
  cases hflags : flags.forM checkFlag with
  | error e' =>
    rw [hflags] at he
    cases he
    exact checkFlags_presentable hflags
  | ok _ =>
    cases hset : sequenceSet set with
    | error e' =>
      rw [hflags, hset] at he
      cases he
      exact sequenceSet_presentable hset
    | ok _ =>
      rw [hflags, hset] at he
      cases he

/-- A capability that has to be known. -/
theorem gated_discreet {gate : Session → Bool} {name : String} {q : SessionM α}
    (hname : name ∈ clientTexts) (hq : Discreet limit answers q) :
    Discreet limit answers (do
      if !gate (← get) then throw (.unsupportedCapability name)
      else q) :=
  .get_bind fun _ _ => .ite (fun _ => .throw hname) fun _ => hq

theorem fetch_discreet (h : PoliteAnswers limit answers) (set items : Str) :
    Discreet limit answers (Session.fetch set items) :=
  checked_discreet (fun _ he => fetchCommand_presentable he) fun _ =>
    executeStreaming_discreet h fun _ _ hreply => .bind (.lift hreply) fun _ => .pure _

theorem runSearch_discreet (h : PoliteAnswers limit answers) (cmd : Bytes) :
    Discreet limit answers (Session.runSearch cmd) :=
  executeStreaming_discreet h fun _ _ hreply => .bind (.lift hreply) fun _ => .pure _

/-- **Every method** fails only with what may be handed out, as long as the answers do. -/
theorem Operation.discreet {t : Transport} {p q : Phase} (op : Operation t p q)
    (h : PoliteAnswers limit answers) : Discreet limit answers op.run := by
  have hquoted : ∀ {β : Type} {s : Str} {q : Bytes → SessionM β},
      (∀ b, Discreet limit answers (q b)) → Discreet limit answers (do
        let b ← imapQuoted s
        q b) := fun hq => checked_discreet (fun _ he => imapQuoted_presentable he) hq
  have hsent : ∀ {β : Type} (cmd : Bytes) (f : ServerFrame → β), Discreet limit answers (do
      let frame ← executeCommand cmd
      return f frame) := fun cmd f => .bind (executeCommand_discreet h cmd) fun _ => .pure _
  cases op with
  | refreshCapabilities => exact refreshCapabilities_discreet h
  | logout => exact logout_discreet h
  | noop => exact hsent _ _
  | login user pass =>
    exact hquoted fun _ => hquoted fun _ => .bind (executeCommand_discreet h _) fun frame =>
      refreshCapabilitiesFromFrame_discreet h frame.bytes
  | authenticatePlain user pass => exact authenticatePlain_discreet h user pass
  | select mailbox => exact hquoted fun _ => hsent _ _
  | examine mailbox => exact hquoted fun _ => hsent _ _
  | list reference mailboxMask => exact hquoted fun _ => hquoted fun _ => hsent _ _
  | fetchRaw set items =>
    exact checked_discreet (fun _ he => fetchCommand_presentable he) fun _ => hsent _ _
  | fetch set items => exact fetch_discreet h set items
  | fetchBody set => exact .bind (fetch_discreet h set _) fun _ => .pure _
  | search query => exact runSearch_discreet h _
  | uidSearch query => exact runSearch_discreet h _
  | store set action flags =>
    exact checked_discreet (fun _ he => storeCommand_presentable he) fun _ => hsent _ _
  | uidStore set action flags =>
    exact checked_discreet (fun _ he => storeCommand_presentable he) fun _ => hsent _ _
  | expunge => exact hsent _ _
  | closeMailbox => exact hsent _ _
  | unselect => exact gated_discreet (by decide) (hsent _ _)
  | check => exact hsent _ _
  | idle =>
    exact gated_discreet (by decide) (.bind (enqueueCommand_discreet _) fun _ =>
      awaitContinuation_discreet h (.pure _))
  | moveMessages set mailbox =>
    exact gated_discreet (by decide) (checked_discreet (fun _ he => sequenceSet_presentable he)
      fun _ => hquoted fun _ => hsent _ _)

theorem IdleHandle.stop_discreet {handle : IdleHandle} {i : CommandId}
    (h : PoliteAnswers limit answers) (hreply : handle.reply = (answers i).reply) :
    Discreet limit answers handle.stop :=
  .bind (sendSecret_discreet _ _) fun _ =>
    .bind (.lift fun _ he => await_presentable h i (hreply ▸ he)) fun _ => .pure _

end Session

/-! ### The way to a session -/

/-- An error that may be handed out, or an I/O error, which has a text of its own. -/
def ClientError.Shown (limit : ℕ) (e : ClientError) : Prop := e = .io ∨ e.Presentable limit

/-- A part of the exchange before the handshake that fails only with such an error. -/
abbrev Careful {α : Type} (p : StartM α) : Prop :=
  Throws (fun _ => True) (ClientError.Shown MAX_PRE_TLS_FRAME) p

section Connect

variable {e : ClientError}

theorem preTlsScan_stop_presentable {buf : Bytes} (h : preTlsScan buf = .stop e) :
    e.Presentable MAX_PRE_TLS_FRAME := by
  have hresidue : preTlsResidue buf = .stop e → e.Presentable MAX_PRE_TLS_FRAME := by
    intro h
    rw [preTlsResidue] at h
    split at h <;> cases h
    exact le_refl MAX_PRE_TLS_FRAME
  rw [preTlsScan] at h
  split at h
  · exact hresidue h
  split at h
  · cases h
  · exact hresidue h
  · cases h
    exact (by decide +kernel : Harmless (MAX_SERVER_TEXT_CHARS + 1)
      "malformed pre-TLS response".toList)

theorem readFrameFrom_shown {c : Conn} {cuts : List ℕ} (h : (readFrameFrom c cuts).1 = .error e) :
    e.Shown MAX_PRE_TLS_FRAME := by
  induction cuts generalizing c with
  | nil =>
    rw [readFrameFrom] at h
    cases hscan : preTlsScan c.buf with
    | frame f rest =>
      rw [hscan] at h
      cases h
    | stop e' =>
      rw [hscan] at h
      cases h
      exact .inr (preTlsScan_stop_presentable hscan)
    | wait =>
      rw [hscan] at h
      dsimp only at h
      split at h <;> cases h
      · exact .inl rfl
      · exact .inr trivial
  | cons n cuts ih =>
    rw [readFrameFrom] at h
    cases hscan : preTlsScan c.buf with
    | frame f rest =>
      rw [hscan] at h
      cases h
    | stop e' =>
      rw [hscan] at h
      cases h
      exact .inr (preTlsScan_stop_presentable hscan)
    | wait =>
      rw [hscan] at h
      dsimp only at h
      split at h
      · cases h
        exact .inr trivial
      · exact ih h

theorem readOneFrame_careful : Careful readOneFrame :=
  fun _ _ => ⟨trivial, fun _ h => readFrameFrom_shown h⟩

theorem writeAll_careful (bytes : Bytes) : Careful (writeAll bytes) := by
  refine fun c _ => ⟨trivial, fun e h => ?_⟩
  rw [writeAll] at h
  cases haccepts : c.accepts with
  | none =>
    rw [haccepts] at h
    cases h
  | some n =>
    rw [haccepts] at h
    dsimp only at h
    split at h <;> cases h
    exact .inl rfl

section Rounds

variable {σ β : Type} (tag : String) (other : σ → Response → σ)
  (answer : σ → StatusResponse → StartM β)

theorem untilAnswer_careful (hanswer : ∀ a s, Careful (answer a s)) (a : σ) :
    Careful (untilAnswer tag other answer a) := by
  have hrounds : ∀ fuel a, Careful (answerRounds tag other answer fuel a) := by
    intro fuel
    induction fuel with
    | zero => exact fun _ => .throw (.inr trivial)
    | succ fuel ih =>
      refine fun a => readOneFrame_careful.bind fun frame => ?_
      cases parseResponse frame with
      | error e => exact ih a
      | ok parsed =>
        dsimp only
        cases parsed.2.answerTo tag with
        | some s => exact hanswer a s
        | none => exact ih _
  exact .get_bind fun c _ => hrounds _ a

end Rounds

theorem starttlsSteps_careful : Careful starttlsSteps := by
  have hcaps : Careful awaitCapabilities := untilAnswer_careful _ _ _
    (fun _ _ => .ite (fun _ => .throw (.inr (ofChars_presentable _))) fun _ => .pure _) _
  have hafter : (ClientError.commandFailed
      "server sent cleartext data after STARTTLS OK".toList).Presentable MAX_PRE_TLS_FRAME :=
    (by decide +kernel : Harmless (MAX_SERVER_TEXT_CHARS + 1)
      "server sent cleartext data after STARTTLS OK".toList)
  have hstart : Careful awaitStarttls := untilAnswer_careful _ _ _
    (fun _ _ => .ite (fun _ => .throw (.inr (ofChars_presentable _))) fun _ =>
      .get_bind fun _ _ => .ite (fun _ => .throw (.inr hafter)) fun _ => .pure _) _
  refine readOneFrame_careful.bind fun _ => (writeAll_careful _).bind fun _ => hcaps.bind fun _ =>
    .ite (fun _ => .throw (.inr ?_)) fun _ => (writeAll_careful _).bind fun _ => hstart
  exact (by decide +kernel : Harmless (MAX_SERVER_TEXT_CHARS + 1)
    "server does not advertise STARTTLS".toList)

theorem finalizeSession_discreet {answers : CommandId → Answer} (h : PoliteAnswers limit answers)
    (greeting : Option ServerFrame) : Discreet limit answers (finalizeSession greeting) := by
  have htrip : Discreet limit answers capabilityRoundTrip :=
    executeStreaming_discreet h fun _ _ hreply => .bind (.modify fun _ hs => hs) fun _ =>
      .bind (.lift hreply) fun _ => .modify fun _ hs => hs
  refine .get_bind fun s hs => ?_
  exact .bind (.set hs) fun _ => .ite (fun _ => htrip) fun _ => .pure _

theorem handshakeWithConnector_shown {connector : TlsConnector} {domain : Str} {stream : Conn}
    (hconnect : ∀ e, connector.connect domain stream = .error e → e = .io ∨ e = .timeout)
    (hinside : ∀ inside, connector.connect domain stream = .ok inside →
      PoliteAnswers limit inside.answers)
    (he : handshakeWithConnector connector domain stream = .error e) : e.Shown limit := by
  rw [handshakeWithConnector] at he
  split at he
  · cases hconnected : connector.connect domain stream with
    | error e' =>
      rw [hconnected] at he
      cases he
      rcases hconnect e hconnected with rfl | rfl
      · exact .inl rfl
      · exact .inr trivial
    | ok inside =>
      rw [hconnected] at he
      dsimp only [bind, Except.bind] at he
      have hfails := (finalizeSession_discreet (hinside inside hconnected) inside.greeting
        (.fresh inside.answers) rfl).2
      cases hrun : finalizeSession inside.greeting (.fresh inside.answers) with
      | mk result session =>
        rw [hrun] at he hfails
        cases result with
        | ok _ => cases he
        | error e' =>
          cases he
          exact .inr (hfails e rfl)
  · cases he
    exact .inr (by decide +kernel : Harmless (MAX_SERVER_TEXT_CHARS + 1)
      "Invalid domain for TLS".toList)

end Connect

/-- The errors in the answers are those that commands were resolved with, in some run of the two
loops. -/
def FromLoops (maxFrameSize chunk : ℕ) (answers : CommandId → Answer) : Prop :=
  ∀ i e, (answers i).reply = .resolved (.error e) →
    ∃ d r, Dispatcher.ReachableBy maxFrameSize (Dispatcher.ReadsAtMost chunk) d ∧
      r ∈ d.resolved ∧ r.result = .error e

section Main

variable {maxFrameSize chunk : ℕ} {answers : CommandId → Answer}

theorem FromLoops.polite (h : FromLoops maxFrameSize chunk answers) :
    PoliteAnswers (maxFrameSize + chunk) answers := by
  intro i e he
  obtain ⟨d, r, hd, hr, hresult⟩ := h i e he
  exact Dispatcher.resolved_presentable hd hr hresult

/-- **What the caller of a method is shown is harmless.** The text of every error that a method
returns, or the end of an `IDLE`, is short and safe to display, whatever the server sent and however
the two loops and the callers took turns. -/
theorem operation_error_harmless {t : Transport} {p q : Phase} (op : Operation t p q) {s : Session}
    (hlimit : maxFrameSize + chunk < 2 ^ 64) (hanswers : FromLoops maxFrameSize chunk s.raw.answers)
    {e : ClientError}
    (he : (op.run s).1 = .error e ∨ ∃ (handle : IdleHandle) (i : CommandId),
      handle.reply = (s.raw.answers i).reply ∧ (handle.stop s).1 = .error e)
    (debug : String → List Char) (io : List Char) :
    Harmless MAX_ERROR_CHARS (e.display debug io) := by
  have hpresentable : e.Presentable (maxFrameSize + chunk) := by
    rcases he with he | ⟨handle, i, hreply, he⟩
    · exact (op.discreet hanswers.polite s rfl).2 e he
    · exact (IdleHandle.stop_discreet hanswers.polite hreply s rfl).2 e he
  exact hpresentable.display hlimit debug io

/-- A `NOOP` that is refused with an escape sequence. -/
def refusedNoop : List Dispatcher.Action :=
  [.enqueueCommand (ascii "NOOP") none, .recvRequest, .register,
    .readBuf (.ok (ascii "A0001 NO " ++ 0x1B :: ascii "[2J\r\n")), .scanBuffer none, .dispatchFrame]

/-- The escape character does not get through. -/
theorem operation_error_harmless_noop :
    ∃ s : Session, (Session.noop s).1
        = .error (.commandFailed [REPLACEMENT, '[', '2', 'J']) ∧
      Harmless MAX_ERROR_CHARS ((ClientError.commandFailed [REPLACEMENT, '[', '2', 'J']).display
        String.toList []) := by
  have hrun : (runMeeting (Dispatcher.step 1024) (Dispatcher.ReadsAtMost 64) refusedNoop
      .new).any (fun d => decide (d.resolved.map (·.result)
        = [.error (.commandFailed [REPLACEMENT, '[', '2', 'J'])])) = true := by
    decide +kernel
  obtain ⟨d, hd, hresolved⟩ := exists_reaches hrun
  obtain ⟨r, rest, hsplit, hresult, -⟩ := List.map_eq_cons_iff.mp hresolved
  have hr : r ∈ d.resolved := by
    rw [hsplit]
    exact List.mem_cons_self
  have hloops : FromLoops 1024 64 fun _ => ⟨true, [], true,
      .resolved (.error (.commandFailed [REPLACEMENT, '[', '2', 'J']))⟩ := by
    intro i e he
    cases he
    exact ⟨d, r, hd, hr, hresult⟩
  have hnoop : (Session.noop (.fresh fun _ => ⟨true, [], true,
      .resolved (.error (.commandFailed [REPLACEMENT, '[', '2', 'J']))⟩)).1
      = .error (.commandFailed [REPLACEMENT, '[', '2', 'J']) := by
    decide +kernel
  exact ⟨_, hnoop, operation_error_harmless (.noop : Operation .tls .selected .selected)
    (by decide) hloops (.inl hnoop) String.toList []⟩

/-- **What the caller of a connect function is shown is harmless**, unless it is the text of an I/O
error, which the operating system or the TLS library has written. This is so for the part of the
conversation that anyone on the way can write. -/
theorem starttlsWithConnector_error_harmless {connector : TlsConnector} {domain : Str}
    {stream : Conn} (hlimit : maxFrameSize + chunk < 2 ^ 64)
    (hconnect : ∀ stream e, connector.connect domain stream = .error e → e = .io ∨ e = .timeout)
    (hinside : ∀ stream inside, connector.connect domain stream = .ok inside →
      FromLoops maxFrameSize chunk inside.answers)
    {e : ClientError} (he : starttlsWithConnector connector domain stream = .error e)
    (debug : String → List Char) (io : List Char) :
    e = .io ∨ Harmless MAX_ERROR_CHARS (e.display debug io) := by
  rw [starttlsWithConnector] at he
  cases hrun : starttlsSteps stream with
  | mk result stream' =>
    rw [hrun] at he
    cases result with
    | ok _ =>
      rcases handshakeWithConnector_shown (hconnect stream')
        (fun inside h => (hinside stream' inside h).polite) he with rfl | hpresentable
      · exact .inl rfl
      · exact .inr (hpresentable.display hlimit debug io)
    | error e' =>
      cases he
      have hfails := (starttlsSteps_careful stream trivial).2 e
      rw [hrun] at hfails
      rcases hfails rfl with rfl | hpresentable
      · exact .inl rfl
      · exact .inr (hpresentable.display (by decide) debug io)

/-- The refusal of a server, or of someone on the way to it, with an escape sequence in it. -/
def refusedUpgrade : Bytes :=
  ascii "* OK hi\r\n* CAPABILITY STARTTLS\r\nT0001 OK done\r\nT0002 NO " ++
    0x1B :: ascii "[2J\r\n"

/-- The escape character does not get through here either. -/
theorem starttlsWithConnector_error_harmless_refused :
    ∃ e, starttlsWithConnector ⟨fun _ => true, fun _ _ => .error .io⟩ ⟨ascii "host", rfl⟩
        (Conn.start refusedUpgrade [100] false none) = .error e ∧
      e = .commandFailed ("STARTTLS rejected: ".toList ++ [REPLACEMENT, '[', '2', 'J']) ∧
      (e = .io ∨ Harmless MAX_ERROR_CHARS (e.display String.toList [])) := by
  have hrefused : starttlsWithConnector ⟨fun _ => true, fun _ _ => .error .io⟩
      ⟨ascii "host", rfl⟩ (Conn.start refusedUpgrade [100] false none)
      = .error (.commandFailed ("STARTTLS rejected: ".toList ++ [REPLACEMENT, '[', '2', 'J'])) := by
    have hsteps : (starttlsSteps (Conn.start refusedUpgrade [100] false none)).1 = .error
        (.commandFailed ("STARTTLS rejected: ".toList ++ [REPLACEMENT, '[', '2', 'J'])) := by
      decide +kernel
    rw [starttlsWithConnector]
    cases hrun : starttlsSteps (Conn.start refusedUpgrade [100] false none) with
    | mk result stream =>
      rw [hrun] at hsteps
      cases hsteps
      rfl
  refine ⟨_, hrefused, rfl, ?_⟩
  exact @starttlsWithConnector_error_harmless 1024 64 _ _ _ (by decide)
    (fun _ _ h => by cases h; exact .inl rfl) (fun _ _ h => by cases h) _ hrefused String.toList []

end Main

end ImapRs
