import ImapRs.Client.CommandReader
import ImapRs.Client.Refresh

/-!
# What a call can come to

Every method opens with one command line, and only the two that authenticate can send more: the
response to a continuation request, and a `CAPABILITY` of their own. `Course` lists the ways a call
can go, whatever the connection does: it is refused and leaves no trace, its tag is spent on a
connection that is gone, or its lines are out and the answers decide. What is asked for is said as
the server reads it.

## Main definitions

* `Operation.command`, `Operation.gate` — what a method asks for, and the capability it needs
* `Exchanges` — one command, and what becomes of it
* `Course` — all a call can come to

## Main results

* `course_of_run` — the list is complete
-/

namespace ImapRs

open Incremental Transition Text

/-! ### What a method asks for -/

/-- The command a method opens with, as a server reads it. -/
def Operation.command {t p q} : Operation t p q → Command
  | .refreshCapabilities => .capability
  | .logout => .logout
  | .noop => .noop
  | .login user pass => .login user.bytes pass.bytes
  | .authenticatePlain _ _ => .authenticatePlain
  | .select mailbox => .select mailbox.bytes
  | .examine mailbox => .examine mailbox.bytes
  | .list reference mailboxMask => .list reference.bytes mailboxMask.bytes
  | .fetchRaw set items | .fetch set items => .fetch set.bytes items.bytes
  | .fetchBody set => .fetch set.bytes (ascii "BODY[]")
  | .search query => .search false query.key.tokens
  | .uidSearch query => .search true query.key.tokens
  | .store set action flags => .store false set.bytes action false (flags.map Flag.toBytes)
  | .uidStore set action flags => .store true set.bytes action false (flags.map Flag.toBytes)
  | .expunge => .expunge
  | .closeMailbox => .close
  | .unselect => .unselect
  | .check => .check
  | .idle => .idle
  | .moveMessages set mailbox => .move set.bytes mailbox.bytes

/-- Whether the session may ask for the command, by what it knows of the server. -/
def Command.gate (caps : Capabilities) : Command → Bool
  | .unselect => caps.unselect
  | .idle => caps.idle
  | .move _ _ => caps.moveExt
  | _ => true

/-- The line that answers the continuation request of a command. -/
def Operation.response? {t p q} : Operation t p q → Option Bytes
  | .authenticatePlain user pass => some (Session.saslPlainLine user pass)
  | _ => none

/-- Whether the session may go on to ask for the capabilities. -/
def Operation.authenticates {t p q} : Operation t p q → Bool
  | .login _ _ | .authenticatePlain _ _ => true
  | _ => false

/-! ### One command -/

/-- The line is read as the command. -/
structure Asks (command : Command) (cmd : Bytes) : Prop where
  noBreaks : NoBreaks cmd
  reads : readCommand cmd = some (command, [])

/-- A frame of the answer brought the capability list that replaced the old one, if any did. -/
def Answer.Teaches (a : Answer) (before after : Capabilities) : Prop :=
  after = before ∨ ∃ frame atoms, (frame ∈ a.untagged ∨ a.okFrame = some frame) ∧
    frame.response.capabilityList = some atoms ∧ after = .fromAtoms atoms

/-- The server asked for more. -/
def Answer.Continues (a : Answer) : Prop :=
  ∃ frame ∈ a.untagged, Session.isContinuationReq frame.response = true

/-- Whether the session can take the command for done. A `LOGOUT` is done whatever is answered, and
an `IDLE` once it is granted. -/
def Answer.Settles (a : Answer) : Command → Prop
  | .logout => True
  | .idle => a.Continues
  | _ => a.okFrame.isSome = true

/-- One command, and what becomes of it. -/
inductive Exchanges (command : Command) (s : Session) : Bool → Session → Prop
  /-- The connection is gone. -/
  | lost {ok : Bool} : (ok = true → command = .logout) →
      Exchanges command s ok { s with raw := s.raw.allocate }
  | sent {cmd : Bytes} {collector : Option FrameFilter} {capabilities : Capabilities} {ok : Bool} :
      Asks command cmd → (s.raw.answers s.raw.issued).Teaches s.capabilities capabilities →
      (ok = true → (s.raw.answers s.raw.issued).Settles command) →
      Exchanges command s ok { RawClient.afterCommand s cmd collector with capabilities }

/-- The session once a command and the response it calls for are out. -/
def opened (s : Session) (cmd : Bytes) (collector : Option FrameFilter) (response : Option Bytes) :
    Session :=
  let s := RawClient.afterCommand s cmd collector
  match response with
  | some bytes => { s with raw := s.raw.push (.raw bytes) }
  | none => s

/-- All a call can come to: whether it succeeds, and the session it leaves. -/
inductive Course {t : Transport} {p q : Phase} (op : Operation t p q) (s : Session) :
    Bool → Session → Prop
  | refused : Course op s false s
  | exchange {ok : Bool} {s' : Session} : op.command.gate s.capabilities = true →
      Exchanges op.command s ok s' → Course op s ok s'
  /-- Authenticated, or not; the list of the tagged OK, if there is one, is taken over. -/
  | responded {cmd : Bytes} {collector : Option FrameFilter} {capabilities : Capabilities}
      {ok : Bool} : op.authenticates = true → Asks op.command cmd →
      (s.raw.answers s.raw.issued).Continues →
      (s.raw.answers s.raw.issued).Teaches s.capabilities capabilities →
      (ok = true → (s.raw.answers s.raw.issued).okFrame.isSome = true) →
      Course op s ok { opened s cmd collector op.response? with capabilities }
  /-- Authenticated, and asked for the capabilities. -/
  | refreshed {cmd : Bytes} {collector : Option FrameFilter} {ok : Bool} {s' : Session} :
      op.authenticates = true → Asks op.command cmd →
      (op.response?.isSome = true → (s.raw.answers s.raw.issued).Continues) →
      (s.raw.answers s.raw.issued).okFrame.isSome = true →
      Exchanges .capability (opened s cmd collector op.response?) ok s' → Course op s ok s'

/-! ### The calls of the client -/

section Calls

variable {cmd : Bytes} {command : Command} {s : Session} {α : Type}

/-- Refused, or an exchange. -/
def Asking (command : Command) (p : SessionM α) (s : Session) : Prop :=
  (∃ e, p s = (.error e, s)) ∨ Exchanges command s (p s).1.isOk (p s).2

/-- A command whose answer teaches nothing. -/
theorem exchanges_afterCommand (hasks : Asks command cmd) (collector : Option FrameFilter)
    {ok : Bool} (hok : ok = true → (s.raw.answers s.raw.issued).Settles command) :
    Exchanges command s ok (RawClient.afterCommand s cmd collector) := by
  show Exchanges command s ok
    { RawClient.afterCommand s cmd collector with capabilities := s.capabilities }
  exact .sent hasks (.inl rfl) hok

theorem isSome_okFrame_of_await {a : Answer} (h : a.reply.await.isOk = true) :
    a.okFrame.isSome = true := by
  cases hreply : a.reply.await with
  | error e =>
    rw [hreply] at h
    cases h
  | ok frame => rw [okFrame_of_await hreply, Option.isSome_some]

/-- A check in front of a call. -/
theorem asking_lift {β : Type} {x : Except ClientError β} {q : β → SessionM α}
    (h : ∀ b, x = .ok b → Asking command (q b) s) :
    Asking command ((liftM x : SessionM β) >>= q) s := by
  cases hx : x with
  | error e => exact .inl ⟨e, run_lift_bind_error rfl⟩
  | ok b =>
    rw [Asking, run_lift_bind_ok rfl]
    exact h b hx

/-- What a call returns does not matter. -/
theorem Asking.map {β : Type} {p : SessionM α} (h : Asking command p s) (f : α → β) :
    Asking command (do let a ← p; return f a) s := by
  match hrun : p s with
  | (.error e, s') =>
    rw [Asking, hrun] at h
    rw [Asking, run_bind_error hrun]
    rcases h with ⟨e', he⟩ | h
    · cases he
      exact .inl ⟨e, rfl⟩
    · exact .inr h
  | (.ok a, s') =>
    rw [Asking, hrun] at h
    rw [Asking, run_bind_ok hrun]
    rcases h with ⟨e', he⟩ | h
    · cases he
    · exact .inr h

theorem executeCommand_cases (cmd : Bytes) (s : Session) :
    (hasLineBreaks cmd = true ∧ ∃ e, RawClient.executeCommand cmd s = (.error e, s)) ∨
    RawClient.executeCommand cmd s
      = (.error .connectionClosed, { s with raw := s.raw.allocate }) ∨
    (NoBreaks cmd ∧ RawClient.executeCommand cmd s
      = ((s.raw.answers s.raw.issued).reply.await, RawClient.afterCommand s cmd none)) := by
  rcases RawClient.enqueueCommand_cases cmd none s with
    ⟨h, e, hrun⟩ | ⟨-, hrun⟩ | ⟨hbreaks, hrun⟩
  · exact .inl ⟨h, e, run_bind_error hrun⟩
  · exact .inr (.inl (run_bind_error hrun))
  · refine .inr (.inr ⟨(noBreaks_iff cmd).mpr hbreaks, ?_⟩)
    rw [RawClient.executeCommand, run_bind_ok hrun, run_get_bind, run_lift]
    rfl

theorem executeStreaming_cases (cmd : Bytes) (wants : FrameFilter) (s : Session) :
    (hasLineBreaks cmd = true ∧ ∃ e, RawClient.executeStreaming cmd wants s = (.error e, s)) ∨
    RawClient.executeStreaming cmd wants s
      = (.error .connectionClosed, { s with raw := s.raw.allocate }) ∨
    (NoBreaks cmd ∧ RawClient.executeStreaming cmd wants s
      = (.ok ((s.raw.answers s.raw.issued).streamed wants,
          (s.raw.answers s.raw.issued).reply.await),
        RawClient.afterCommand s cmd (some wants))) := by
  rcases RawClient.enqueueCommand_cases cmd (some wants) s with
    ⟨h, e, hrun⟩ | ⟨-, hrun⟩ | ⟨hbreaks, hrun⟩
  · exact .inl ⟨h, e, run_bind_error hrun⟩
  · exact .inr (.inl (run_bind_error hrun))
  · refine .inr (.inr ⟨(noBreaks_iff cmd).mpr hbreaks, ?_⟩)
    rw [RawClient.executeStreaming, run_bind_ok hrun, run_get_bind]
    rfl

/-- A method that sends one command and awaits its tagged response. -/
theorem asking_executeCommand (hreads : readCommand cmd = some (command, []))
    (hsettles : ∀ a : Answer, a.okFrame.isSome = true → a.Settles command) :
    Asking command (RawClient.executeCommand cmd) s := by
  rcases executeCommand_cases cmd s with ⟨-, hrefused⟩ | hlost | ⟨hbreaks, hsent⟩
  · exact .inl hrefused
  · rw [Asking, hlost]
    exact .inr (.lost fun h => by cases h)
  · rw [Asking, hsent]
    exact .inr (exchanges_afterCommand ⟨hbreaks, hreads⟩ none
      fun h => hsettles _ (isSome_okFrame_of_await h))

/-- A method that streams its frames before it awaits the tagged response. -/
theorem asking_executeStreaming (hreads : NoBreaks cmd → readCommand cmd = some (command, []))
    (hsettles : ∀ a : Answer, a.okFrame.isSome = true → a.Settles command) (wants : FrameFilter)
    (f : List ServerFrame → α) :
    Asking command (do
      let (frames, reply) ← RawClient.executeStreaming cmd wants
      let _ ← reply
      return f frames) s := by
  rcases executeStreaming_cases cmd wants s with ⟨-, e, hrefused⟩ | hlost | ⟨hbreaks, hsent⟩
  · exact .inl ⟨e, run_bind_error hrefused⟩
  · rw [Asking, run_bind_error hlost]
    exact .inr (.lost fun h => by cases h)
  · rw [Asking, run_bind_ok hsent]
    refine .inr ?_
    have hexchange : ∀ ok : Bool, (ok = true →
        (s.raw.answers s.raw.issued).reply.await.isOk = true) →
        Exchanges command s ok (RawClient.afterCommand s cmd (some wants)) := fun ok hok =>
      exchanges_afterCommand ⟨hbreaks, hreads hbreaks⟩ (some wants)
        fun h => hsettles _ (isSome_okFrame_of_await (hok h))
    cases hreply : (s.raw.answers s.raw.issued).reply.await with
    | error e => exact hexchange false fun h => by cases h
    | ok frame => exact hexchange true fun _ => by rw [hreply]; rfl

theorem enqueueCommand_accepted {cmd : Bytes} {s : Session} (hbreaks : hasLineBreaks cmd = false)
    (haccepted : (s.raw.answers s.raw.issued).accepted = true) (collector : Option FrameFilter) :
    RawClient.enqueueCommand cmd collector s
      = (.ok s.raw.issued, RawClient.afterCommand s cmd collector) := by
  have hok : rejectLineBreaks cmd = .ok () := by
    rw [rejectLineBreaks, hbreaks, if_neg Bool.false_ne_true]
  rw [RawClient.enqueueCommand, run_lift_bind_ok hok, run_get_bind, if_pos haccepted]
  rfl

theorem sendSecret_accepted {i : CommandId} {bytes : Bytes}
    (h : (s.raw.answers i).rawAccepted = true) :
    RawClient.sendSecret i bytes s = (.ok (), { s with raw := s.raw.push (.raw bytes) }) := by
  rw [RawClient.sendSecret, run_get_bind, if_pos h]
  rfl

theorem sendSecret_refused {i : CommandId} {bytes : Bytes}
    (h : (s.raw.answers i).rawAccepted = false) :
    RawClient.sendSecret i bytes s = (.error .connectionClosed, s) := by
  rw [RawClient.sendSecret, run_get_bind, if_neg (by simp [h])]
  rfl

end Calls

/-! ### The methods -/

namespace Session

variable {s : Session}

/-- The list that is left after the untagged frames is from one of them, or the old one. -/
theorem teaches_updateFrom (a : Answer) (caps : Capabilities) :
    a.Teaches caps (updateFrom caps (a.streamed Capabilities.isCapabilityResponse)) := by
  rw [updateFrom_streamed]
  cases hlist : a.untaggedList with
  | none => exact .inl rfl
  | some atoms =>
    have hmem := List.mem_of_getLast? hlist
    obtain ⟨response, hresponse, hatoms⟩ := List.mem_filterMap.mp hmem
    obtain ⟨frame, hframe, rfl⟩ := List.mem_map.mp hresponse
    exact .inr ⟨frame, atoms, .inl hframe, hatoms, rfl⟩

theorem refreshCapabilities_exchanges :
    Exchanges .capability s (refreshCapabilities s).1.isOk (refreshCapabilities s).2 := by
  have hreads := readCommand_bare (by decide : ("CAPABILITY", .capability) ∈ bareCommands)
  rcases executeStreaming_cases (ascii "CAPABILITY") Capabilities.isCapabilityResponse s with
    ⟨h, -⟩ | hlost | ⟨hbreaks, hsent⟩
  · exact absurd h (by decide)
  · rw [refreshCapabilities, run_bind_error hlost]
    exact .lost fun h => by cases h
  · have hexchange : ∀ ok : Bool, (ok = true →
        (s.raw.answers s.raw.issued).reply.await.isOk = true) →
        Exchanges .capability s ok { RawClient.afterCommand s (ascii "CAPABILITY")
            (some Capabilities.isCapabilityResponse) with
          capabilities := updateFrom s.capabilities
            ((s.raw.answers s.raw.issued).streamed Capabilities.isCapabilityResponse) } :=
      fun ok hok => .sent ⟨hbreaks, hreads⟩ (teaches_updateFrom _ s.capabilities)
        fun h => isSome_okFrame_of_await (hok h)
    rw [refreshCapabilities, run_bind_ok hsent]
    cases hreply : (s.raw.answers s.raw.issued).reply.await with
    | error e => exact hexchange false fun h => by cases h
    | ok frame => exact hexchange true fun _ => by rw [hreply]; rfl

/-- After authentication: the list of the tagged OK, or a `CAPABILITY`. -/
theorem refreshCapabilitiesFromFrame_cases (frame : ServerFrame) (s : Session) :
    (∃ atoms, frame.response.capabilityList = some atoms ∧
      refreshCapabilitiesFromFrame frame.bytes s
        = (.ok (), { s with capabilities := .fromAtoms atoms })) ∨
    refreshCapabilitiesFromFrame frame.bytes s = refreshCapabilities s := by
  rw [refreshCapabilitiesFromFrame, run_get_bind, frame.parses]
  dsimp only
  rw [Capabilities.tryUpdateFrom_eq]
  cases frame.response.capabilityList with
  | some atoms => exact .inl ⟨atoms, rfl, rfl⟩
  | none => exact .inr rfl

theorem course_login (user pass : Str) :
    Course (.login user pass) s (login user pass s).1.isOk (login user pass s).2 := by
  rw [login]
  cases hx : imapQuoted user with
  | error e =>
    rw [run_lift_bind_error rfl]
    exact .refused
  | ok x =>
  cases hy : imapQuoted pass with
  | error e =>
    rw [run_lift_bind_ok rfl, run_lift_bind_error rfl]
    exact .refused
  | ok y =>
  rw [run_lift_bind_ok rfl, run_lift_bind_ok rfl]
  have hreads := readCommand_login hx hy
  rcases executeCommand_cases (loginCommand x y) s with
    ⟨-, e, hrefused⟩ | hlost | ⟨hbreaks, hsent⟩
  · rw [run_bind_error hrefused]
    exact .refused
  · rw [run_bind_error hlost]
    exact .exchange rfl (.lost fun h => by cases h)
  · have hasks : Asks (.login user.bytes pass.bytes) (loginCommand x y) := ⟨hbreaks, hreads⟩
    cases hreply : (s.raw.answers s.raw.issued).reply.await with
    | error e =>
      rw [hreply] at hsent
      rw [run_bind_error hsent]
      exact .exchange rfl (exchanges_afterCommand hasks none fun h => by cases h)
    | ok frame =>
      rw [hreply] at hsent
      have hframe := okFrame_of_await hreply
      have hsome : (s.raw.answers s.raw.issued).okFrame.isSome = true := by rw [hframe]; rfl
      rw [run_bind_ok hsent]
      rcases refreshCapabilitiesFromFrame_cases frame
        (RawClient.afterCommand s (loginCommand x y) none) with ⟨atoms, hatoms, hrun⟩ | hrun
      · rw [hrun]
        exact .exchange rfl (.sent hasks (.inr ⟨frame, atoms, .inr hframe, hatoms, rfl⟩)
          fun _ => hsome)
      · rw [hrun]
        exact .refreshed rfl hasks (fun h => by cases h) hsome refreshCapabilities_exchanges

theorem continues_of_continuation {a : Answer} {reply : Reply} (h : continuation a = .ok reply) :
    a.Continues ∧ reply = a.reply := by
  rw [continuation] at h
  split at h <;> cases h
  next frame rest hstreamed =>
    have hmem : frame ∈ a.streamed isContinuationReq := by
      rw [hstreamed]
      exact List.mem_cons_self
    obtain ⟨huntagged, hwants⟩ := List.mem_filter.mp hmem
    exact ⟨⟨frame, huntagged, hwants⟩, rfl⟩

theorem course_authenticatePlain (user pass : Str) :
    Course (.authenticatePlain user pass) s (authenticatePlain user pass s).1.isOk
      (authenticatePlain user pass s).2 := by
  rw [authenticatePlain]
  split
  · exact .refused
  split
  · exact .refused
  have hreads := readCommand_bare
    (by decide : ("AUTHENTICATE PLAIN", .authenticatePlain) ∈ bareCommands)
  rcases RawClient.enqueueCommand_cases (ascii "AUTHENTICATE PLAIN") (some isContinuationReq) s with
    ⟨h, -⟩ | ⟨-, hlost⟩ | ⟨hbreaks, hsent⟩
  · exact absurd h (by decide)
  · rw [run_bind_error hlost]
    exact .exchange rfl (.lost fun h => by cases h)
  have hasks : Asks .authenticatePlain (ascii "AUTHENTICATE PLAIN") :=
    ⟨(noBreaks_iff _).mpr hbreaks, hreads⟩
  rw [run_bind_ok hsent]
  have hfails : Course (.authenticatePlain user pass) s false
      (RawClient.afterCommand s (ascii "AUTHENTICATE PLAIN") (some isContinuationReq)) :=
    .exchange rfl (exchanges_afterCommand hasks _ fun h => by cases h)
  have hawait : awaitContinuation s.raw.issued
      (RawClient.afterCommand s (ascii "AUTHENTICATE PLAIN") (some isContinuationReq))
      = (continuation (s.raw.answers s.raw.issued), RawClient.afterCommand s
          (ascii "AUTHENTICATE PLAIN") (some isContinuationReq)) := by
    rw [awaitContinuation, run_get_bind, run_lift]
    rfl
  cases hcontinue : continuation (s.raw.answers s.raw.issued) with
  | error e =>
    rw [hcontinue] at hawait
    rw [run_bind_error hawait]
    exact hfails
  | ok reply =>
  rw [hcontinue] at hawait
  rw [run_bind_ok hawait]
  obtain ⟨hcontinues, rfl⟩ := continues_of_continuation hcontinue
  cases haccepted : (s.raw.answers s.raw.issued).rawAccepted with
  | false =>
    have hsecret : RawClient.sendSecret s.raw.issued (saslPlainLine user pass)
        (RawClient.afterCommand s (ascii "AUTHENTICATE PLAIN") (some isContinuationReq))
        = (.error .connectionClosed, RawClient.afterCommand s
            (ascii "AUTHENTICATE PLAIN") (some isContinuationReq)) :=
      sendSecret_refused haccepted
    rw [run_bind_error hsecret]
    exact hfails
  | true =>
  have hsecret : RawClient.sendSecret s.raw.issued (saslPlainLine user pass)
      (RawClient.afterCommand s (ascii "AUTHENTICATE PLAIN") (some isContinuationReq))
      = (.ok (), opened s (ascii "AUTHENTICATE PLAIN") (some isContinuationReq)
          (some (saslPlainLine user pass))) :=
    sendSecret_accepted haccepted
  rw [run_bind_ok hsecret]
  have hresponded : ∀ (ok : Bool) (capabilities : Capabilities),
      (s.raw.answers s.raw.issued).Teaches s.capabilities capabilities →
      (ok = true → (s.raw.answers s.raw.issued).okFrame.isSome = true) →
      Course (.authenticatePlain user pass) s ok { opened s (ascii "AUTHENTICATE PLAIN")
          (some isContinuationReq) (some (saslPlainLine user pass)) with capabilities } :=
    fun ok capabilities hteaches hok => .responded rfl hasks hcontinues hteaches hok
  cases hreply : (s.raw.answers s.raw.issued).reply.await with
  | error e =>
    rw [run_lift_bind_error rfl]
    exact hresponded false s.capabilities (.inl rfl) fun h => by cases h
  | ok frame =>
    rw [run_lift_bind_ok rfl]
    have hframe := okFrame_of_await hreply
    have hsome : (s.raw.answers s.raw.issued).okFrame.isSome = true := by rw [hframe]; rfl
    rcases refreshCapabilitiesFromFrame_cases frame (opened s (ascii "AUTHENTICATE PLAIN")
      (some isContinuationReq) (some (saslPlainLine user pass))) with ⟨atoms, hatoms, hrun⟩ | hrun
    · rw [hrun]
      exact hresponded true _ (.inr ⟨frame, atoms, .inr hframe, hatoms, rfl⟩) fun _ => hsome
    · rw [hrun]
      exact .refreshed rfl hasks (fun _ => hcontinues) hsome refreshCapabilities_exchanges

/-- A `LOGOUT` on a connection that is gone is done. -/
theorem logout_exchanges : Asking .logout logout s := by
  have hreads := readCommand_bare (by decide : ("LOGOUT", .logout) ∈ bareCommands)
  rcases executeCommand_cases (ascii "LOGOUT") s with ⟨h, -⟩ | hlost | ⟨hbreaks, hsent⟩
  · exact absurd h (by decide)
  · rw [Asking, logout, hlost]
    exact .inr (.lost fun _ => rfl)
  · rw [Asking, logout, hsent]
    have hexchange : ∀ ok : Bool, Exchanges .logout s ok
        (RawClient.afterCommand s (ascii "LOGOUT") none) := fun ok =>
      exchanges_afterCommand ⟨hbreaks, hreads⟩ none fun _ => trivial
    cases (s.raw.answers s.raw.issued).reply.await with
    | ok frame => exact .inr (hexchange true)
    | error e => cases e <;> exact .inr (hexchange _)

end Session

/-- A method that opens an exchange. -/
theorem Course.of_asking {t : Transport} {p q : Phase} {op : Operation t p q} {s : Session}
    (hgate : op.command.gate s.capabilities = true) (h : Asking op.command op.run s) :
    Course op s (op.run s).1.isOk (op.run s).2 := by
  rcases h with ⟨e, he⟩ | h
  · rw [he]
    exact .refused
  · exact .exchange hgate h

/-- An `IDLE` that is granted is under way. -/
theorem course_idle {t : Transport} (s : Session) :
    Course (.idle : Operation t .selected .selected) s (Session.idle s).1.isOk
      (Session.idle s).2 := by
  have hreads := readCommand_bare (by decide : ("IDLE", .idle) ∈ bareCommands)
  rw [Session.idle, run_get_bind]
  cases hgate : s.capabilities.idle with
  | false => exact .refused
  | true =>
  rw [if_neg (by decide)]
  rcases RawClient.enqueueCommand_cases (ascii "IDLE") (some Session.isContinuationReq) s with
    ⟨h, -⟩ | ⟨-, hlost⟩ | ⟨hbreaks, hsent⟩
  · exact absurd h (by decide)
  · rw [run_bind_error hlost]
    exact .exchange hgate (.lost fun h => by cases h)
  rw [run_bind_ok hsent]
  have hexchange : ∀ ok : Bool, (ok = true → (s.raw.answers s.raw.issued).Continues) →
      Course (.idle : Operation t .selected .selected) s ok
        (RawClient.afterCommand s (ascii "IDLE") (some Session.isContinuationReq)) := fun ok hok =>
    .exchange hgate (exchanges_afterCommand ⟨(noBreaks_iff _).mpr hbreaks, hreads⟩ _ hok)
  have hawait : Session.awaitContinuation s.raw.issued
      (RawClient.afterCommand s (ascii "IDLE") (some Session.isContinuationReq))
      = (Session.continuation (s.raw.answers s.raw.issued), RawClient.afterCommand s
          (ascii "IDLE") (some Session.isContinuationReq)) := by
    rw [Session.awaitContinuation, run_get_bind, run_lift]
    rfl
  cases hcontinue : Session.continuation (s.raw.answers s.raw.issued) with
  | error e =>
    rw [hcontinue] at hawait
    rw [run_bind_error hawait]
    exact hexchange false fun h => by cases h
  | ok reply =>
    rw [hcontinue] at hawait
    rw [run_bind_ok hawait]
    exact hexchange true fun _ => (Session.continues_of_continuation hcontinue).1

theorem course_unselect {t : Transport} (s : Session) :
    Course (.unselect : Operation t .selected .authenticated) s (Session.unselect s).1.isOk
      (Session.unselect s).2 := by
  have hreads := readCommand_bare (by decide : ("UNSELECT", .unselect) ∈ bareCommands)
  rw [Session.unselect, run_get_bind]
  cases hgate : s.capabilities.unselect with
  | false => exact .refused
  | true =>
    rw [if_neg (by decide)]
    rcases (asking_executeCommand (s := s) hreads fun _ h => h).map fun _ => () with ⟨e, he⟩ | h
    · rw [he]
      exact .refused
    · exact .exchange hgate h

theorem course_moveMessages {t : Transport} (set mailbox : Str) (s : Session) :
    Course (.moveMessages set mailbox : Operation t .selected .selected) s
      (Session.moveMessages set mailbox s).1.isOk (Session.moveMessages set mailbox s).2 := by
  rw [Session.moveMessages, run_get_bind]
  cases hgate : s.capabilities.moveExt with
  | false => exact .refused
  | true =>
    rw [if_neg (by decide)]
    have hasking : Asking (.move set.bytes mailbox.bytes) (do
        let set ← sequenceSet set
        let mailbox ← imapQuoted mailbox
        let frame ← RawClient.executeCommand (ascii "MOVE " ++ set ++ SP :: mailbox)
        return frame.bytes) s := by
      refine asking_lift fun x hx => asking_lift fun y hy => ?_
      have hreads := readCommand_move hx hy
      rw [sequenceSet_ok hx] at hreads ⊢
      exact (asking_executeCommand hreads fun _ h => h).map _
    rcases hasking with ⟨e, he⟩ | h
    · rw [he]
      exact .refused
    · exact .exchange hgate h

theorem readCommand_fetchCommand {set items : Str} {cmd : Bytes}
    (h : Session.fetchCommand set items = .ok cmd) :
    readCommand cmd = some (.fetch set.bytes items.bytes, []) := by
  rw [Session.fetchCommand] at h
  cases hset : sequenceSet set with
  | error e =>
    rw [hset] at h
    cases h
  | ok bytes =>
  cases hitems : fetchItems items with
  | error e =>
    rw [hset, hitems] at h
    cases h
  | ok items' =>
    rw [hset, hitems] at h
    cases h
    have hbytes : items' = items.bytes := by
      rw [fetchItems] at hitems
      split at hitems <;> cases hitems
      rfl
    rw [readCommand_fetch hset, sequenceSet_ok hset, hbytes]

/-- **All a call can come to.** -/
theorem course_of_run {t : Transport} {p q : Phase} (op : Operation t p q) (s : Session) :
    Course op s (op.run s).1.isOk (op.run s).2 := by
  cases op with
  | refreshCapabilities => exact .exchange rfl Session.refreshCapabilities_exchanges
  | logout => exact .of_asking rfl Session.logout_exchanges
  | noop =>
    have hreads := readCommand_bare (by decide : ("NOOP", .noop) ∈ bareCommands)
    exact .of_asking rfl ((asking_executeCommand hreads fun _ h => h).map _)
  | login user pass => exact Session.course_login user pass
  | authenticatePlain user pass => exact Session.course_authenticatePlain user pass
  | select mailbox =>
    exact .of_asking rfl (asking_lift fun _ hx =>
      (asking_executeCommand (readCommand_select hx) fun _ h => h).map _)
  | examine mailbox =>
    exact .of_asking rfl (asking_lift fun _ hx =>
      (asking_executeCommand (readCommand_examine hx) fun _ h => h).map _)
  | list reference mailboxMask =>
    exact .of_asking rfl (asking_lift fun _ hx => asking_lift fun _ hy =>
      (asking_executeCommand (readCommand_list hx hy) fun _ h => h).map _)
  | fetchRaw set items =>
    exact .of_asking rfl (asking_lift fun _ hcmd =>
      (asking_executeCommand (readCommand_fetchCommand hcmd) fun _ h => h).map _)
  | fetch set items =>
    exact .of_asking rfl (asking_lift fun _ hcmd =>
      asking_executeStreaming (fun _ => readCommand_fetchCommand hcmd) (fun _ h => h) _ _)
  | fetchBody set =>
    exact .of_asking rfl (.map (asking_lift fun _ hcmd =>
      asking_executeStreaming (fun _ => readCommand_fetchCommand hcmd) (fun _ h => h) _ _) _)
  | search query =>
    exact .of_asking rfl (asking_executeStreaming
      (fun h => readCommand_search (SearchKey.quotable_of_noBreaks h)) (fun _ h => h) _ _)
  | uidSearch query =>
    exact .of_asking rfl (asking_executeStreaming
      (fun h => readCommand_uidSearch (SearchKey.quotable_of_noBreaks h)) (fun _ h => h) _ _)
  | store set action flags =>
    exact .of_asking rfl (asking_lift fun _ hcmd =>
      (asking_executeCommand (readCommand_store hcmd) fun _ h => h).map _)
  | uidStore set action flags =>
    exact .of_asking rfl (asking_lift fun _ hcmd =>
      (asking_executeCommand (readCommand_uidStore hcmd) fun _ h => h).map _)
  | expunge =>
    have hreads := readCommand_bare (by decide : ("EXPUNGE", .expunge) ∈ bareCommands)
    exact .of_asking rfl ((asking_executeCommand hreads fun _ h => h).map _)
  | closeMailbox =>
    have hreads := readCommand_bare (by decide : ("CLOSE", .close) ∈ bareCommands)
    exact .of_asking rfl ((asking_executeCommand hreads fun _ h => h).map _)
  | unselect => exact course_unselect s
  | check =>
    have hreads := readCommand_bare (by decide : ("CHECK", .check) ∈ bareCommands)
    exact .of_asking rfl ((asking_executeCommand hreads fun _ h => h).map _)
  | idle => exact course_idle s
  | moveMessages set mailbox => exact course_moveMessages set mailbox s

end ImapRs
