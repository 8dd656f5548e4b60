import ImapRs.Client.Capabilities
import ImapRs.Client.Search
import ImapRs.Transition.Fallible

/-!
# Sessions

A translation of `imap-client/src/session.rs` and `idle.rs`, over the calls of `RawClient` they use.
A session does one thing at a time (every method borrows or consumes it), so a method is a program
that runs from the session before it to the session after it.

What happens to a command once it is queued is not up to the session. An `Answer` says it for one
command: whether the write loop takes it, which untagged frames arrive while it is in flight, and
what becomes of its tagged response. The answers are given in advance, one for each command in the
order of their tags, and nothing restricts them: they stand for every server, every connection and
every timeout. A call whose future is dropped half-way has queued what it had queued, as one that
times out.

## Main definitions

* `RawClient`, `Answer` — the client a session drives, and what the connection does
* `RawClient.executeCommand`, `RawClient.executeStreaming` — the calls
* `Session.login`, `Session.fetch`, `Session.search`, … — the methods
* `Operation` — all of them, with the phases they lead from and to

## Main results

* `RawClient.enqueueCommand_cases` — everything queueing a command can do
-/

namespace ImapRs

open Incremental Transition

/-! ### What the connection does -/

/-- A frame the read loop has taken off the stream. -/
structure ServerFrame where
  bytes : Bytes
  response : Response
  /-- The parse that made it a frame. -/
  parses : parseResponse bytes = .ok ([], response)

/-- What the receiver of a tagged response gets. -/
inductive Reply where
  | resolved (result : Except ClientError ServerFrame)
  /-- The sending half is dropped: the connection is gone. -/
  | dropped
  /-- Nothing within the timeout. -/
  | late

/-- What the connection does with one command. -/
structure Answer where
  /-- Whether the write loop takes the command. -/
  accepted : Bool
  /-- The untagged frames that arrive while the command is in flight. -/
  untagged : List ServerFrame
  /-- Whether the write loop takes the line that answers a continuation request. -/
  rawAccepted : Bool
  reply : Reply

/-- Awaiting a tagged response under a timeout. -/
def Reply.await : Reply → Except ClientError ServerFrame
  | .resolved result => result
  | .dropped => .error .connectionClosed
  | .late => .error .timeout

/-- The frames a stream yields: those its filter accepts, in wire order. -/
def Answer.streamed (a : Answer) (wants : FrameFilter) : List ServerFrame :=
  a.untagged.filter fun f => wants f.response

/-- The client of a session, as far as the session sees it. -/
structure RawClient where
  tagCounter : UInt64
  /-- Tags allocated so far. -/
  issued : ℕ
  /-- Everything handed to the write loop, in order. -/
  queued : List WriteRequest
  /-- What the connection does with each command. -/
  answers : CommandId → Answer

structure Session where
  raw : RawClient
  capabilities : Capabilities

/-- A method: it may fail, and the session remains as far as it got. -/
abbrev SessionM := ExceptT ClientError (StateM Session)

/-- The decoded result of a `FETCH` for a single message. -/
structure FetchResult where
  seq : UInt32
  uid : Option UInt32
  body : Option Bytes
  deriving DecidableEq, Repr

/-- What one attribute adds to a result. -/
def FetchResult.withAttribute (result : FetchResult) : FetchAttribute → FetchResult
  | .uid u => { result with uid := some u }
  | .bodySection _ _ (some d) => { result with body := some d.bytes }
  | .body b | .rfc822 b => { result with body := some b.bytes }
  | _ => result

/-- A handle to an active IDLE. It owns a clone of the write side, not the session. -/
structure IdleHandle where
  command : CommandId
  reply : Reply

/-! ### The calls of `RawClient` -/

namespace RawClient

/-- `next_tag`, without the tag itself. -/
def allocate (raw : RawClient) : RawClient :=
  { raw with tagCounter := raw.tagCounter + 1, issued := raw.issued + 1 }

/-- Hand a request to the write loop. -/
def push (raw : RawClient) (request : WriteRequest) : RawClient :=
  { raw with queued := raw.queued ++ [request] }

/-- `enqueue_command`: the command queued, by its number. -/
def enqueueCommand (cmd : Bytes) (collector : Option FrameFilter) : SessionM CommandId := do
  rejectLineBreaks cmd
  let s ← get
  let i := s.raw.issued
  let tag := formatTag s.raw.tagCounter.toNat
  if (s.raw.answers i).accepted then
    set { s with raw := s.raw.allocate.push (.command (commandLine tag cmd) tag i collector) }
    return i
  else
    set { s with raw := s.raw.allocate }
    throw .connectionClosed

/-- The session after a command was queued. -/
def afterCommand (s : Session) (cmd : Bytes) (collector : Option FrameFilter) : Session :=
  let tag := formatTag s.raw.tagCounter.toNat
  { s with raw := s.raw.allocate.push (.command (commandLine tag cmd) tag s.raw.issued collector) }

/-- **Everything queueing a command can do.** -/
theorem enqueueCommand_cases (cmd : Bytes) (collector : Option FrameFilter) (s : Session) :
    (hasLineBreaks cmd = true ∧ ∃ e, enqueueCommand cmd collector s = (.error e, s)) ∨
    (hasLineBreaks cmd = false ∧ enqueueCommand cmd collector s
      = (.error .connectionClosed, { s with raw := s.raw.allocate })) ∨
    (hasLineBreaks cmd = false ∧
      enqueueCommand cmd collector s = (.ok s.raw.issued, afterCommand s cmd collector)) := by
  cases hbreaks : hasLineBreaks cmd with
  | true => exact .inl ⟨rfl, _, run_lift_bind_error (if_pos hbreaks)⟩
  | false =>
    have hok : rejectLineBreaks cmd = .ok () := by
      rw [rejectLineBreaks, hbreaks, if_neg Bool.false_ne_true]
    rw [enqueueCommand, run_lift_bind_ok hok, run_get_bind]
    cases (s.raw.answers s.raw.issued).accepted with
    | true => exact .inr (.inr ⟨rfl, rfl⟩)
    | false => exact .inr (.inl ⟨rfl, rfl⟩)

/-- A command that the write loop takes. -/
theorem enqueueCommand_accepted {cmd : Bytes} {s : Session} (hbreaks : hasLineBreaks cmd = false)
    (h : (s.raw.answers s.raw.issued).accepted = true) (collector : Option FrameFilter) :
    enqueueCommand cmd collector s = (.ok s.raw.issued, afterCommand s cmd collector) := by
  have hok : rejectLineBreaks cmd = .ok () := by
    rw [rejectLineBreaks, hbreaks, if_neg Bool.false_ne_true]
  rw [enqueueCommand, run_lift_bind_ok hok, run_get_bind, if_pos h]
  rfl

theorem enqueueCommand_ok {cmd : Bytes} {collector : Option FrameFilter} {s s' : Session}
    {i : CommandId} (h : enqueueCommand cmd collector s = (.ok i, s')) :
    i = s.raw.issued ∧ s' = afterCommand s cmd collector := by
  rcases enqueueCommand_cases cmd collector s with ⟨-, e, hrun⟩ | ⟨-, hrun⟩ | ⟨-, hrun⟩
  · rw [hrun] at h
    cases h
  · rw [hrun] at h
    cases h
  · rw [hrun] at h
    cases h
    exact ⟨rfl, rfl⟩

def executeCommand (cmd : Bytes) : SessionM ServerFrame := do
  let i ← enqueueCommand cmd none
  ((← get).raw.answers i).reply.await

/-- `execute_streaming`: the frames for `on_frame`, and what the tagged response means. The frames
are there even when the command fails. -/
def executeStreaming (cmd : Bytes) (wants : FrameFilter) :
    SessionM (List ServerFrame × Except ClientError ServerFrame) := do
  let i ← enqueueCommand cmd (some wants)
  let a := (← get).raw.answers i
  return (a.streamed wants, a.reply.await)

/-- `send_secret`, for the command whose continuation request it answers. -/
def sendSecret (i : CommandId) (bytes : Bytes) : SessionM Unit := do
  let s ← get
  if (s.raw.answers i).rawAccepted then
    set { s with raw := s.raw.push (.raw bytes) }
  else throw .connectionClosed

theorem sendSecret_ok {i : CommandId} {bytes : Bytes} {s s' : Session}
    (h : sendSecret i bytes s = (.ok (), s')) :
    s' = { s with raw := s.raw.push (.raw bytes) } := by
  rw [sendSecret, run_get_bind] at h
  split at h
  · cases h
    rfl
  · cases h

end RawClient

namespace Session

open RawClient

def isContinuationReq : FrameFilter
  | .continue _ => true
  | _ => false

/-- What `await_continuation` makes of an answer. If the tagged response comes first, the command
has ended. -/
def continuation (a : Answer) : Except ClientError Reply :=
  match a.streamed isContinuationReq, a.reply with
  | _ :: _, reply => .ok reply
  | [], .late => .error .timeout
  | [], .dropped => .error .connectionClosed
  | [], .resolved (.error e) => .error e
  | [], .resolved (.ok _) => .error (.commandFailed
      "server completed the command without a continuation request".toList)

/-- The reply receiver, once the continuation request is there. -/
def awaitContinuation (i : CommandId) : SessionM Reply := do
  continuation ((← get).raw.answers i)

theorem awaitContinuation_ok {i : CommandId} {reply : Reply} {s s' : Session}
    (h : awaitContinuation i s = (.ok reply, s')) :
    (s.raw.answers i).reply = reply ∧ s = s' := by
  rw [awaitContinuation, run_get_bind] at h
  obtain ⟨hreply, rfl⟩ := run_lift_eq_ok h
  rw [continuation] at hreply
  split at hreply <;> cases hreply
  exact ⟨rfl, rfl⟩

/-! ### Any state -/

/-- Update the cached set from each frame. -/
def updateFrom (caps : Capabilities) (frames : List ServerFrame) : Capabilities :=
  frames.foldl (fun caps f =>
    match parseResponse f.bytes with
    | .ok (_, response) => (caps.tryUpdateFrom response).1
    | .error _ => caps) caps

/-- Issue an explicit `CAPABILITY` command and update the cached set. -/
def refreshCapabilities : SessionM Unit := do
  let (frames, reply) ← executeStreaming (ascii "CAPABILITY") Capabilities.isCapabilityResponse
  modify fun s => { s with capabilities := updateFrom s.capabilities frames }
  let _ ← reply
  return

/-- If the frame carries a capability list, use it; else issue an explicit `CAPABILITY`. -/
def refreshCapabilitiesFromFrame (frame : Bytes) : SessionM Unit := do
  let s ← get
  match parseResponse frame with
  | .ok (_, response) =>
    let (capabilities, updated) := s.capabilities.tryUpdateFrom response
    if updated then set { s with capabilities := capabilities } else refreshCapabilities
  | .error _ => refreshCapabilities

/-- `LOGOUT`: a closed connection is an acceptable outcome. -/
def logout : SessionM Unit := fun s =>
  match executeCommand (ascii "LOGOUT") s with
  | (.ok _, s) => (.ok (), s)
  | (.error .connectionClosed, s) => (.ok (), s)
  | (.error e, s) => (.error e, s)

def noop : SessionM Unit := do
  let _ ← executeCommand (ascii "NOOP")
  return

/-! ### Before authentication -/

/-- `LOGIN <user> <pass>`, from quoted arguments. -/
def loginCommand (userQ passQ : Bytes) : Bytes := ascii "LOGIN " ++ userQ ++ SP :: passQ

def login (user pass : Str) : SessionM Unit := do
  let userQ ← imapQuoted user
  let passQ ← imapQuoted pass
  let frame ← executeCommand (loginCommand userQ passQ)
  refreshCapabilitiesFromFrame frame.bytes

/-- The alphabet of `base64.rs`. -/
def ALPHABET : Bytes :=
  ascii "ABCDEFGHIJKLMNOPQRSTUVWXYZabcdefghijklmnopqrstuvwxyz0123456789+/"

/-- One sextet of a 24-bit quantum. -/
def sextet (n i : ℕ) : UInt8 := ALPHABET.getD (n / 64 ^ i % 64) 0

/-- Encode one quantum as four characters. -/
def encodeGroup (a b c : UInt8) : Bytes :=
  let n := a.toNat * 2 ^ 16 + b.toNat * 2 ^ 8 + c.toNat
  [sextet n 3, sextet n 2, sextet n 1, sextet n 0]

/-- `base64::encode_into`: the padded encoding. -/
def base64Encode : Bytes → Bytes
  | a :: b :: c :: t => encodeGroup a b c ++ base64Encode t
  | [a, b] => (encodeGroup a b 0).take 3 ++ [byte '=']
  | [a] => (encodeGroup a 0 0).take 2 ++ [byte '=', byte '=']
  | [] => []

theorem sextet_mem (n i : ℕ) : sextet n i ∈ ALPHABET := by
  have hlen : n / 64 ^ i % 64 < ALPHABET.length := Nat.mod_lt _ (by decide)
  rw [sextet, List.getD_eq_getElem _ _ hlen]
  exact List.getElem_mem hlen

theorem encodeGroup_subset (a b c : UInt8) : encodeGroup a b c ⊆ ALPHABET := by
  intro x hx
  simp only [encodeGroup, List.mem_cons, List.not_mem_nil, or_false] at hx
  rcases hx with rfl | rfl | rfl | rfl <;> exact sextet_mem _ _

/-- The alphabet and the padding. -/
theorem base64Encode_subset (bytes : Bytes) : base64Encode bytes ⊆ byte '=' :: ALPHABET := by
  have hgroup {a b c : UInt8} : encodeGroup a b c ⊆ byte '=' :: ALPHABET :=
    fun _ hx => List.mem_cons_of_mem _ (encodeGroup_subset a b c hx)
  have htake {a b c : UInt8} {n : ℕ} : (encodeGroup a b c).take n ⊆ byte '=' :: ALPHABET :=
    fun _ hx => hgroup (List.mem_of_mem_take hx)
  have hpad {n : ℕ} : List.replicate n (byte '=') ⊆ byte '=' :: ALPHABET := by
    intro x hx
    rw [List.eq_of_mem_replicate hx]
    exact List.mem_cons_self
  fun_induction base64Encode bytes with
  | case1 a b c t ih => exact List.append_subset.mpr ⟨hgroup, ih⟩
  | case2 a b => exact List.append_subset.mpr ⟨htake, hpad (n := 1)⟩
  | case3 a => exact List.append_subset.mpr ⟨htake, hpad (n := 2)⟩
  | case4 => simp

/-- What is neither in the alphabet nor the padding is not in the encoding. -/
theorem not_mem_base64Encode {c : UInt8} (hc : c ∉ byte '=' :: ALPHABET) (bytes : Bytes) :
    c ∉ base64Encode bytes :=
  fun hmem => hc (base64Encode_subset bytes hmem)

/-- The client response of `AUTHENTICATE PLAIN`. -/
def saslPlainLine (user pass : Str) : Bytes :=
  base64Encode (0 :: (user.bytes ++ 0 :: pass.bytes)) ++ CRLF

def authenticatePlain (user pass : Str) : SessionM Unit := do
  if user.bytes.contains 0 then throw (.commandFailed "username must not contain NUL".toList)
  else if pass.bytes.contains 0 then throw (.commandFailed "password must not contain NUL".toList)
  else do
    let i ← enqueueCommand (ascii "AUTHENTICATE PLAIN") (some isContinuationReq)
    let reply ← awaitContinuation i
    sendSecret i (saslPlainLine user pass)
    let frame ← reply.await
    refreshCapabilitiesFromFrame frame.bytes

/-! ### Authenticated -/

def select (mailbox : Str) : SessionM Unit := do
  let mb ← imapQuoted mailbox
  let _ ← executeCommand (ascii "SELECT " ++ mb)
  return

def examine (mailbox : Str) : SessionM Unit := do
  let mb ← imapQuoted mailbox
  let _ ← executeCommand (ascii "EXAMINE " ++ mb)
  return

def list (reference mailboxMask : Str) : SessionM Bytes := do
  let reference ← imapQuoted reference
  let mailboxMask ← imapQuoted mailboxMask
  let frame ← executeCommand (ascii "LIST " ++ reference ++ SP :: mailboxMask)
  return frame.bytes

/-! ### Selected -/

/-- `FETCH <set> <items>`, once both have passed their check. -/
def fetchCommand (sequenceSet_ items : Str) : Except ClientError Bytes := do
  let set ← sequenceSet sequenceSet_
  let items ← fetchItems items
  return ascii "FETCH " ++ set ++ SP :: items

def fetchRaw (sequenceSet_ items : Str) : SessionM Bytes := do
  let cmd ← fetchCommand sequenceSet_ items
  let frame ← executeCommand cmd
  return frame.bytes

/-- Build a result from one untagged `FETCH` frame. -/
def fetchResult (frame : Bytes) : Option FetchResult :=
  match parseResponse frame with
  | .ok (_, .data (.fetch seq attributes)) =>
    some (attributes.foldl FetchResult.withAttribute ⟨seq, none, none⟩)
  | _ => none

def fetch (sequenceSet_ items : Str) : SessionM (List FetchResult) := do
  let cmd ← fetchCommand sequenceSet_ items
  let (frames, reply) ← executeStreaming cmd isFetch
  let _ ← reply
  return frames.filterMap fun f => fetchResult f.bytes

/-- The sequence at the front of a byte string: how many bytes it takes, and whether it is a whole
character. What is broken takes up the bytes that could have begun a character. -/
def utf8Front : Bytes → ℕ × Bool
  | [] => (0, false)
  | a :: t =>
    let continues (i : ℕ) : Bool := t[i]?.any isContinuation
    if a < 0x80 then (1, true)
    else if 0xC2 ≤ a ∧ a ≤ 0xDF then if continues 0 then (2, true) else (1, false)
    else if 0xE0 ≤ a ∧ a ≤ 0xEF then
      if !(t.head?.any fun b =>
        if a = 0xE0 then 0xA0 ≤ b && b ≤ 0xBF
        else if a = 0xED then 0x80 ≤ b && b ≤ 0x9F
        else isContinuation b) then (1, false)
      else if !continues 1 then (2, false)
      else (3, true)
    else if 0xF0 ≤ a ∧ a ≤ 0xF4 then
      if !(t.head?.any fun b =>
        if a = 0xF0 then 0x90 ≤ b && b ≤ 0xBF
        else if a = 0xF4 then 0x80 ≤ b && b ≤ 0x8F
        else isContinuation b) then (1, false)
      else if !continues 1 then (2, false)
      else if !continues 2 then (3, false)
      else (4, true)
    else (1, false)

/-- `String::from_utf8_lossy`. -/
def utf8Lossy : Bytes → List Char
  | [] => []
  | a :: t =>
    let (n, whole) := utf8Front (a :: t)
    (if whole then utf8Chars ((a :: t).take n) else [REPLACEMENT]) ++ utf8Lossy (t.drop (n - 1))
termination_by bytes => bytes.length
decreasing_by simp only [List.length_drop, List.length_cons]; omega

/-- The body of the first message. -/
def fetchBody (sequenceSet_ : Str) : SessionM (Option (List Char)) := do
  let results ← fetch sequenceSet_ ⟨ascii "BODY[]", rfl⟩
  return (results.head?.bind FetchResult.body).map utf8Lossy

/-- The ids of one untagged `SEARCH` frame. -/
def searchIds (frame : Bytes) : List UInt32 :=
  match parseResponse frame with
  | .ok (_, .data (.search ids)) => ids
  | _ => []

def runSearch (cmd : Bytes) : SessionM (List UInt32) := do
  let (frames, reply) ← executeStreaming cmd isSearch
  let _ ← reply
  return frames.flatMap fun f => searchIds f.bytes

def search (query : SearchQuery) : SessionM (List UInt32) :=
  runSearch (ascii "SEARCH " ++ query.build)

def uidSearch (query : SearchQuery) : SessionM (List UInt32) :=
  runSearch (ascii "UID SEARCH " ++ query.build)

/-- The two `STORE` commands: every flag is checked before the set is. -/
def storeCommand (verb : String) (sequenceSet_ : Str) (action : StoreAction) (flags : List Flag) :
    Except ClientError Bytes := do
  flags.forM checkFlag
  let set ← sequenceSet sequenceSet_
  return ascii verb ++ set ++ SP :: (action.toImapPrefix false ++ ascii " (" ++
    joinSp (flags.map Flag.toBytes) ++ ascii ")")

def store (sequenceSet_ : Str) (action : StoreAction) (flags : List Flag) : SessionM Bytes := do
  let cmd ← storeCommand "STORE " sequenceSet_ action flags
  let frame ← executeCommand cmd
  return frame.bytes

def uidStore (uidSet : Str) (action : StoreAction) (flags : List Flag) : SessionM Bytes := do
  let cmd ← storeCommand "UID STORE " uidSet action flags
  let frame ← executeCommand cmd
  return frame.bytes

def expunge : SessionM Bytes := do
  let frame ← executeCommand (ascii "EXPUNGE")
  return frame.bytes

def closeMailbox : SessionM Unit := do
  let _ ← executeCommand (ascii "CLOSE")
  return

def unselect : SessionM Unit := do
  if !(← get).capabilities.unselect then throw (.unsupportedCapability "UNSELECT")
  else do
    let _ ← executeCommand (ascii "UNSELECT")
    return

def check : SessionM Unit := do
  let _ ← executeCommand (ascii "CHECK")
  return

def idle : SessionM IdleHandle := do
  if !(← get).capabilities.idle then throw (.unsupportedCapability "IDLE")
  else do
    let i ← enqueueCommand (ascii "IDLE") (some isContinuationReq)
    let reply ← awaitContinuation i
    return ⟨i, reply⟩

def moveMessages (sequenceSet_ mailbox : Str) : SessionM Bytes := do
  if !(← get).capabilities.moveExt then throw (.unsupportedCapability "MOVE")
  else do
    let set ← sequenceSet sequenceSet_
    let mailbox ← imapQuoted mailbox
    let frame ← executeCommand (ascii "MOVE " ++ set ++ SP :: mailbox)
    return frame.bytes

end Session

/-- The line that ends an IDLE. -/
def DONE : Bytes := ascii "DONE\r\n"

/-- Send `DONE` and await the tagged response. -/
def IdleHandle.stop (handle : IdleHandle) : SessionM Unit := do
  RawClient.sendSecret handle.command DONE
  let _ ← handle.reply.await
  return

/-! ### The methods and the phases -/

/-- The state markers. -/
inductive Phase where
  | unauthenticated | authenticated | selected
  deriving DecidableEq, Repr

/-- The transport markers. -/
inductive Transport where
  | plainText | tls
  deriving DecidableEq, Repr

/-- A method with its arguments, and the phases it leads from and to. -/
inductive Operation : Transport → Phase → Phase → Type where
  | refreshCapabilities {t p} : Operation t p p
  | logout {t p} : Operation t p p
  | noop {t p} : Operation t p p
  | login (user pass : Str) : Operation .tls .unauthenticated .authenticated
  | authenticatePlain (user pass : Str) : Operation .tls .unauthenticated .authenticated
  | select {t} (mailbox : Str) : Operation t .authenticated .selected
  | examine {t} (mailbox : Str) : Operation t .authenticated .selected
  | list {t} (reference mailboxMask : Str) : Operation t .authenticated .authenticated
  | fetchRaw {t} (sequenceSet items : Str) : Operation t .selected .selected
  | fetch {t} (sequenceSet items : Str) : Operation t .selected .selected
  | fetchBody {t} (sequenceSet : Str) : Operation t .selected .selected
  | search {t} (query : SearchQuery) : Operation t .selected .selected
  | uidSearch {t} (query : SearchQuery) : Operation t .selected .selected
  | store {t} (sequenceSet : Str) (action : StoreAction) (flags : List Flag) :
      Operation t .selected .selected
  | uidStore {t} (uidSet : Str) (action : StoreAction) (flags : List Flag) :
      Operation t .selected .selected
  | expunge {t} : Operation t .selected .selected
  | closeMailbox {t} : Operation t .selected .authenticated
  | unselect {t} : Operation t .selected .authenticated
  | check {t} : Operation t .selected .selected
  | idle {t} : Operation t .selected .selected
  | moveMessages {t} (sequenceSet mailbox : Str) : Operation t .selected .selected

/-- What a method returns. -/
def Operation.Result {t p q} : Operation t p q → Type
  | .list _ _ | .fetchRaw _ _ | .store _ _ _ | .uidStore _ _ _
  | .expunge | .moveMessages _ _ => Bytes
  | .fetch _ _ => List FetchResult
  | .fetchBody _ => Option (List Char)
  | .search _ | .uidSearch _ => List UInt32
  | .idle => IdleHandle
  | _ => Unit

def Operation.run {t p q} : (op : Operation t p q) → SessionM op.Result
  | .refreshCapabilities => Session.refreshCapabilities
  | .logout => Session.logout
  | .noop => Session.noop
  | .login user pass => Session.login user pass
  | .authenticatePlain user pass => Session.authenticatePlain user pass
  | .select mailbox => Session.select mailbox
  | .examine mailbox => Session.examine mailbox
  | .list reference mailboxMask => Session.list reference mailboxMask
  | .fetchRaw set items => Session.fetchRaw set items
  | .fetch set items => Session.fetch set items
  | .fetchBody set => Session.fetchBody set
  | .search query => Session.search query
  | .uidSearch query => Session.uidSearch query
  | .store set action flags => Session.store set action flags
  | .uidStore set action flags => Session.uidStore set action flags
  | .expunge => Session.expunge
  | .closeMailbox => Session.closeMailbox
  | .unselect => Session.unselect
  | .check => Session.check
  | .idle => Session.idle
  | .moveMessages set mailbox => Session.moveMessages set mailbox

end ImapRs
