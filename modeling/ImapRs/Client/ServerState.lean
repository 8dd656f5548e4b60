import ImapRs.Client.Transcript

/-!
# The states of the server

A server takes a command only in some of its states, and its state depends on how it answers the
commands before. The client's phases are types; what they are for is that no command reaches a
server in a state in which it is not allowed.

The client does not always know how a command ended: an answer can be late, or the connection gone.
A server may then have moved or not. `Serves` follows every state it can be in, and a method that
could leave it in more than one takes the session away with it.

The states are the four of the protocol, and a server starts in the one that the phase of the
session stands for: a server that greets with `PREAUTH` does not, as a new session is not
authenticated. That a server takes no command while an `IDLE` is in progress is not a matter of
these states but of the caller: `LeavesIdleAlone` says what it has to do.

## Main definitions

* `ServerState`, `Command.allowedIn`, `Command.target` — the rules of the protocol
* `Serves` — the states a server can be in, after what it was sent
* `KeepsState` — the session's phase is the only state the server can be in

## Main results

* `Course.keepsState` — one call
* `commands_allowed` — no history sends a command in a state in which it is not allowed
-/

namespace ImapRs

open Incremental Transition Text

/-! ### The rules -/

/-- The four states of a connection. A command in progress, such as `IDLE`, is not one of them. -/
inductive ServerState where
  | notAuthenticated | authenticated | selected | logout
  deriving DecidableEq, Repr

/-- The states in which a server takes a command. -/
def Command.allowedIn : Command → ServerState → Bool
  | .capability, st | .noop, st | .logout, st => st != .logout
  | .login _ _, st | .authenticatePlain, st => st == .notAuthenticated
  | .select _, st | .examine _, st | .list _ _, st | .idle, st =>
    st == .authenticated || st == .selected
  | .fetch _ _, st | .search _ _, st | .store _ _ _ _ _, st | .expunge, st | .close, st
  | .unselect, st | .check, st | .move _ _, st => st == .selected

/-- The state after a command that was done. -/
def Command.target (st : ServerState) : Command → ServerState
  | .login _ _ | .authenticatePlain | .close | .unselect => .authenticated
  | .select _ | .examine _ => .selected
  | .logout => .logout
  | _ => st

/-- The state after a command that was refused: a mailbox is left before another is opened. -/
def Command.fallback (st : ServerState) : Command → ServerState
  | .select _ | .examine _ => if st = .selected then .authenticated else st
  | _ => st

def Said.command? : Said → Option Command
  | .command asked => some asked
  | .data _ => none

/-- The command a request is read as. -/
def WriteRequest.asks (request : WriteRequest) : Option Command :=
  match readStream request.bytes with
  | some [l] => l.said.command?
  | _ => none

/-- The states a server can go to. A tagged OK says that the command was done; without one it may
have been or not. -/
def Answer.Moves (a : Answer) (command : Command) (st st' : ServerState) : Prop :=
  if a.okFrame.isSome = true then st' = command.target st
  else st' = st ∨ st' = command.target st ∨ st' = command.fallback st

/-- A server gets a request. -/
def WriteRequest.Serves (answers : CommandId → Answer) (request : WriteRequest)
    (st st' : ServerState) : Prop :=
  match request.command?, request.asks with
  | some i, some asked => (answers i).Moves asked st st'
  | _, _ => st' = st

/-- The states a server can be in after the requests. -/
def Serves (answers : CommandId → Answer) : ServerState → List WriteRequest → ServerState → Prop
  | st, [], st' => st' = st
  | st, request :: requests, st' =>
    ∃ mid, request.Serves answers st mid ∧ Serves answers mid requests st'

/-- The state a phase stands for. -/
def Phase.serverState : Phase → ServerState
  | .unauthenticated => .notAuthenticated
  | .authenticated => .authenticated
  | .selected => .selected

variable {answers : CommandId → Answer} {st₀ st st' : ServerState}
  {requests : List WriteRequest} {request : WriteRequest}

theorem serves_append {xs ys : List WriteRequest} :
    Serves answers st (xs ++ ys) st' ↔
      ∃ mid, Serves answers st xs mid ∧ Serves answers mid ys st' := by
  induction xs generalizing st with
  | nil => simp [Serves]
  | cons x xs ih =>
    simp only [List.cons_append, Serves, ih]
    constructor
    · rintro ⟨mid, hx, next, hxs, hys⟩
      exact ⟨next, ⟨mid, hx, hxs⟩, hys⟩
    · rintro ⟨next, ⟨mid, hx, hxs⟩, hys⟩
      exact ⟨mid, hx, next, hxs, hys⟩

/-! ### What the requests are read as -/

theorem asks_of_tells {l : ClientLine} (h : Tells request l) : request.asks = l.said.command? := by
  have hstream : readStream request.bytes = some [l] := by
    have hread := readStream_of_tells (.cons h .nil)
    simpa using hread
  rw [WriteRequest.asks, hstream]

/-! ### One server state -/

/-- Every request finds the server in a state in which it is allowed. -/
def AllAllowed (answers : CommandId → Answer) (st₀ : ServerState) (requests : List WriteRequest) :
    Prop :=
  ∀ before request after command st, requests = before ++ request :: after →
    request.asks = some command → Serves answers st₀ before st → command.allowedIn st = true

/-- There is one state the server can be in. -/
def Surely (answers : CommandId → Answer) (st₀ : ServerState) (requests : List WriteRequest)
    (st : ServerState) : Prop :=
  ∀ st', Serves answers st₀ requests st' → st' = st

theorem allAllowed_nil : AllAllowed answers st₀ [] := by
  intro before request after command st hsplit
  exact absurd hsplit.symm (by simp)

/-- One more request, which is allowed wherever the server can be. -/
theorem AllAllowed.snoc (h : AllAllowed answers st₀ requests)
    (hnext : ∀ command st, request.asks = some command → Serves answers st₀ requests st →
      command.allowedIn st = true) :
    AllAllowed answers st₀ (requests ++ [request]) := by
  intro before r after command st hsplit hasks hserves
  rcases append_eq_append_cons hsplit with ⟨e, rfl, -⟩ | ⟨e, hlast, rfl⟩
  · exact h before r e command st rfl hasks hserves
  · obtain ⟨rfl, rfl, -⟩ : e = [] ∧ request = r ∧ after = [] := by
      cases e with
      | nil => simpa [eq_comm] using hlast
      | cons x e => simp at hlast
    rw [List.append_nil] at hserves
    exact hnext command st hasks hserves

theorem Surely.snoc (h : Surely answers st₀ requests st)
    (hnext : ∀ next, request.Serves answers st next → next = st') :
    Surely answers st₀ (requests ++ [request]) st' := by
  intro next hserves
  obtain ⟨mid, hmid, next', hnext', hnil⟩ := serves_append.mp hserves
  rw [h mid hmid] at hnext'
  rw [hnil]
  exact hnext next' hnext'

/-- Everything the session has sent was allowed. -/
structure Sound (answers : CommandId → Answer) (st₀ : ServerState) (s : Session) : Prop where
  answers_eq : s.raw.answers = answers
  counted : s.Counted
  allowed : AllAllowed answers st₀ s.raw.queued

/-- And there is one state the server can be in. -/
structure InState (answers : CommandId → Answer) (st₀ : ServerState) (s : Session)
    (st : ServerState) : Prop extends Sound answers st₀ s where
  surely : Surely answers st₀ s.raw.queued st

variable {s s' : Session} {command : Command} {ok : Bool} {cmd line : Bytes}

theorem InState.allocate (h : InState answers st₀ s st) :
    InState answers st₀ { s with raw := s.raw.allocate } st :=
  ⟨⟨h.answers_eq, h.counted.allocate, h.allowed⟩, h.surely⟩

/-- A command that is allowed, whatever becomes of it. -/
theorem InState.sound_afterCommand (h : InState answers st₀ s st) (hasks : Asks command cmd)
    (hallowed : command.allowedIn st = true) (collector : Option FrameFilter)
    (capabilities : Capabilities) :
    Sound answers st₀ { RawClient.afterCommand s cmd collector with capabilities } := by
  refine ⟨h.answers_eq, h.counted.allocate, ?_⟩
  show AllAllowed answers st₀ (s.raw.queued ++ [s.request cmd collector])
  refine h.allowed.snoc fun asked now hasked hserves => ?_
  rw [asks_of_tells (tells_request h.counted hasks collector)] at hasked
  cases hasked
  rw [h.surely now hserves]
  exact hallowed

/-- A command that is allowed, and where it leads. -/
theorem InState.afterCommand (h : InState answers st₀ s st) (hasks : Asks command cmd)
    (hallowed : command.allowedIn st = true)
    (hmoves : ∀ next, (s.raw.answers s.raw.issued).Moves command st next → next = st')
    (collector : Option FrameFilter) (capabilities : Capabilities) :
    InState answers st₀ { RawClient.afterCommand s cmd collector with capabilities } st' := by
  refine ⟨h.sound_afterCommand hasks hallowed collector capabilities, ?_⟩
  show Surely answers st₀ (s.raw.queued ++ [s.request cmd collector]) st'
  refine h.surely.snoc fun next hnext => hmoves next ?_
  rw [WriteRequest.Serves, asks_of_tells (tells_request h.counted hasks collector)] at hnext
  rw [h.answers_eq]
  exact hnext

/-- A line that is no command. -/
theorem Sound.push (h : Sound answers st₀ s) (hsp : SP ∉ line) (hlf : LF ∉ line) :
    Sound answers st₀ { s with raw := s.raw.push (.raw (line ++ CRLF)) } := by
  refine ⟨h.answers_eq, h.counted, h.allowed.snoc fun asked now hasked _ => ?_⟩
  cases (asks_of_tells (tells_raw hsp hlf)).symm.trans hasked

theorem InState.push (h : InState answers st₀ s st) (hsp : SP ∉ line) (hlf : LF ∉ line) :
    InState answers st₀ { s with raw := s.raw.push (.raw (line ++ CRLF)) } st :=
  ⟨h.toSound.push hsp hlf, h.surely.snoc fun _ hnext => hnext⟩

/-- A command that was done. -/
theorem Answer.Moves.of_okFrame {a : Answer} (h : a.Moves command st st')
    (ha : a.okFrame.isSome = true) : st' = command.target st := by
  rwa [Answer.Moves, if_pos ha] at h

/-- A command that leads nowhere, whether it was done or not. -/
theorem Answer.Moves.of_still {a : Answer} (h : a.Moves command st st')
    (htarget : command.target st = st) (hfallback : command.fallback st = st) : st' = st := by
  rw [Answer.Moves] at h
  split at h
  · rw [h, htarget]
  · rcases h with rfl | rfl | rfl
    · rfl
    · exact htarget
    · exact hfallback

/-! ### One exchange -/

theorem Exchanges.sound (h : Exchanges command s ok s') (hs : InState answers st₀ s st)
    (hallowed : command.allowedIn st = true) : Sound answers st₀ s' := by
  cases h with
  | lost => exact hs.allocate.toSound
  | sent hasks => exact hs.sound_afterCommand hasks hallowed _ _

/-- A command that leads nowhere. -/
theorem Exchanges.still (h : Exchanges command s ok s') (hs : InState answers st₀ s st)
    (hallowed : command.allowedIn st = true) (htarget : command.target st = st)
    (hfallback : command.fallback st = st) : InState answers st₀ s' st := by
  cases h with
  | lost => exact hs.allocate
  | sent hasks =>
    exact hs.afterCommand hasks hallowed (fun _ h => h.of_still htarget hfallback) _ _

/-- A command the session takes for done. -/
theorem Exchanges.done (h : Exchanges command s true s') (hs : InState answers st₀ s st)
    (hallowed : command.allowedIn st = true)
    (hsettles : ∀ a : Answer, a.Settles command → a.okFrame.isSome = true)
    (hlogout : command ≠ .logout) : InState answers st₀ s' (command.target st) := by
  cases h with
  | lost hok => exact absurd (hok rfl) hlogout
  | sent hasks _ hok =>
    exact hs.afterCommand hasks hallowed (fun _ h => h.of_okFrame (hsettles _ (hok rfl))) _ _

/-! ### One call -/

/-- The phase of the session after a method that succeeds or fails. -/
def Operation.next {t p q} (op : Operation t p q) (ok : Bool) : Option Phase :=
  match op, ok with
  | .logout, _ => none
  | op, true => if op.consumes then some q else some p
  | op, false => if op.consumes then none else some p

theorem phaseAfter_eq {t : Transport} {p q : Phase} (op : Operation t p q)
    (r : Except ClientError op.Result) : op.phaseAfter r = op.next r.isOk := by
  cases op <;> cases r <;> rfl

section

variable {t : Transport} {p q : Phase} {op : Operation t p q}

/-- A method's command is allowed in the phase it is called in. -/
theorem allowedIn_phase (op : Operation t p q) :
    op.command.allowedIn p.serverState = true := by
  cases op <;> first | rfl | (cases p <;> rfl)

/-- A method leads to the phase its type says. -/
theorem target_phase (op : Operation t p q) :
    op.command = .logout ∨ op.command.target p.serverState = q.serverState := by
  cases op <;> first | exact .inl rfl | exact .inr rfl

/-- A method that leaves the session where it is leads nowhere. -/
theorem still_phase (hop : op.consumes = false) :
    op.command.target p.serverState = p.serverState ∧
      op.command.fallback p.serverState = p.serverState := by
  cases op <;> first | exact ⟨rfl, rfl⟩ | cases hop

theorem settles_consumes (hop : op.consumes = true) (hlogout : op.command ≠ .logout) (a : Answer)
    (h : a.Settles op.command) : a.okFrame.isSome = true := by
  cases op <;> first | exact h | exact absurd rfl hlogout | cases hop

theorem next_cases {ok : Bool} {p' : Phase} (h : op.next ok = some p') :
    (op.consumes = false ∧ p' = p) ∨
      (ok = true ∧ op.consumes = true ∧ op.command ≠ .logout ∧ p' = q) := by
  cases op <;> cases ok <;> cases h <;>
    first | exact .inl ⟨rfl, rfl⟩ | exact .inr ⟨rfl, rfl, Command.noConfusion, rfl⟩

/-- A method that authenticates, once all its lines are out. -/
theorem Sound.opened (hop : op.authenticates = true) {capabilities : Capabilities}
    {collector : Option FrameFilter}
    (h : Sound answers st₀ { RawClient.afterCommand s cmd collector with capabilities }) :
    Sound answers st₀ { opened s cmd collector op.response? with capabilities } := by
  cases op with
  | login user pass => exact h
  | authenticatePlain user pass =>
    obtain ⟨hsp, hlf⟩ := base64Encode_plain (0 :: (user.bytes ++ 0 :: pass.bytes))
    exact h.push hsp hlf
  | _ => cases hop

theorem InState.opened (hop : op.authenticates = true) {capabilities : Capabilities}
    {collector : Option FrameFilter}
    (h : InState answers st₀ { RawClient.afterCommand s cmd collector with capabilities } st) :
    InState answers st₀ { opened s cmd collector op.response? with capabilities } st := by
  cases op with
  | login user pass => exact h
  | authenticatePlain user pass =>
    obtain ⟨hsp, hlf⟩ := base64Encode_plain (0 :: (user.bytes ++ 0 :: pass.bytes))
    exact h.push hsp hlf
  | _ => cases hop

theorem authenticates_consumes (hop : op.authenticates = true) :
    op.consumes = true ∧ op.command ≠ .logout ∧ q = .authenticated := by
  cases op <;> first | exact ⟨rfl, Command.noConfusion, rfl⟩ | cases hop

/-- **One call.** What it sends is allowed, and if it leaves a session, the phase of that session
says where the server is. -/
theorem Course.inState (h : Course op s ok s') (hs : InState answers st₀ s p.serverState) :
    Sound answers st₀ s' ∧
      ∀ p', op.next ok = some p' → InState answers st₀ s' p'.serverState := by
  have hallowed := allowedIn_phase op
  cases h with
  | refused =>
    refine ⟨hs.toSound, fun p' hp' => ?_⟩
    rcases next_cases hp' with ⟨-, rfl⟩ | ⟨hok, -⟩
    · exact hs
    · cases hok
  | exchange _ h =>
    refine ⟨h.sound hs hallowed, fun p' hp' => ?_⟩
    rcases next_cases hp' with ⟨hstill, rfl⟩ | ⟨rfl, hop, hlogout, rfl⟩
    · obtain ⟨htarget, hfallback⟩ := still_phase hstill
      exact h.still hs hallowed htarget hfallback
    · have hdone := h.done hs hallowed (settles_consumes hop hlogout) hlogout
      rwa [(target_phase op).resolve_left hlogout] at hdone
  | responded hop hasks _ _ hok =>
    obtain ⟨hconsumes, hlogout, -⟩ := authenticates_consumes hop
    refine ⟨(hs.sound_afterCommand hasks hallowed _ _).opened hop, fun p' hp' => ?_⟩
    rcases next_cases hp' with ⟨hstill, -⟩ | ⟨rfl, -, -, rfl⟩
    · cases hconsumes.symm.trans hstill
    · refine InState.opened hop (hs.afterCommand hasks hallowed (fun next hnext => ?_) _ _)
      rw [hnext.of_okFrame (hok rfl), (target_phase op).resolve_left hlogout]
  | @refreshed cmd collector ok s' hop hasks _ hframe h =>
    obtain ⟨hconsumes, hlogout, hq⟩ := authenticates_consumes hop
    have htarget := (target_phase op).resolve_left hlogout
    have hopened := InState.opened hop (hs.afterCommand hasks hallowed
      (fun next hnext => hnext.of_okFrame hframe) collector s.capabilities)
    rw [htarget, ← opened_capabilities cmd collector op.response?] at hopened
    subst hq
    have hstill : InState answers st₀ s' Phase.authenticated.serverState :=
      h.still hopened rfl rfl rfl
    refine ⟨hstill.toSound, fun p' hp' => ?_⟩
    rcases next_cases hp' with ⟨hno, -⟩ | ⟨-, -, -, rfl⟩
    · cases hconsumes.symm.trans hno
    · exact hstill

end

/-! ### Histories -/

/-- A caller whose session, if it still has one, says where the server is. -/
structure Caller.Agrees (answers : CommandId → Answer) (st₀ : ServerState) (c : Caller) : Prop where
  sound : Sound answers st₀ c.session
  state : ∀ p, c.phase = some p → InState answers st₀ c.session p.serverState

theorem Caller.agrees_new (phase : Phase) (capabilities : Capabilities)
    (answers : CommandId → Answer) :
    (Caller.new phase capabilities answers).Agrees answers phase.serverState := by
  have hstate : InState answers phase.serverState
      (Caller.new phase capabilities answers).session phase.serverState :=
    ⟨⟨rfl, rfl, allAllowed_nil⟩, fun _ h => h⟩
  refine ⟨hstate.toSound, fun p hp => ?_⟩
  cases hp
  exact hstate

theorem Caller.Agrees.step {t : Transport} {a : Caller.Action t} {c c' : Caller}
    (h : c.Agrees answers st₀) (hstep : Caller.step a c = some c') : c'.Agrees answers st₀ := by
  cases a with
  | drop k =>
    cases hstep
    exact ⟨h.sound, h.state⟩
  | @call p q op =>
    change (if c.phase = some p then _ else none) = some c' at hstep
    split at hstep
    next hp =>
      cases hstep
      obtain ⟨hsound, hstate⟩ := (course_of_run op c.session).inState (h.state p hp)
      exact ⟨hsound, fun p' hp' => hstate p' ((phaseAfter_eq op _).symm.trans hp')⟩
    · cases hstep
  | stop k =>
    obtain ⟨handle, -, rfl⟩ := Option.map_eq_some_iff.mp hstep
    rcases handle.stop_cases c.session with hsame | hdone
    · refine ⟨?_, fun p hp => ?_⟩
      · show Sound answers st₀ (handle.stop c.session).2
        rw [hsame]
        exact h.sound
      · show InState answers st₀ (handle.stop c.session).2 p.serverState
        rw [hsame]
        exact h.state p hp
    · have hsp : SP ∉ ascii "DONE" := by decide
      have hlf : LF ∉ ascii "DONE" := by decide
      refine ⟨?_, fun p hp => ?_⟩
      · show Sound answers st₀ (handle.stop c.session).2
        rw [hdone]
        exact h.sound.push hsp hlf
      · show InState answers st₀ (handle.stop c.session).2 p.serverState
        rw [hdone]
        exact (h.state p hp).push hsp hlf

/-- **No command reaches a server in a state in which it is not allowed.** In every history of a
caller, and wherever the answers can have left the server, as long as it began in the state of the
caller's first phase and moves by the commands it is sent. -/
theorem commands_allowed {t : Transport} {phase : Phase} {capabilities : Capabilities}
    {answers : CommandId → Answer} {c : Caller}
    (h : Reaches (Caller.step (t := t)) (fun _ _ => True)
      (Caller.new phase capabilities answers) c)
    {before after : List WriteRequest} {request : WriteRequest} {command : Command}
    {st : ServerState} (hqueued : c.session.raw.queued = before ++ request :: after)
    (hasks : request.asks = some command) (hst : Serves answers phase.serverState before st) :
    command.allowedIn st = true := by
  have hagrees : c.Agrees answers phase.serverState :=
    h.invariant (Caller.agrees_new phase capabilities answers) fun _ _ hstep hc => hc.step hstep
  exact hagrees.sound.allowed before request after command st hqueued hasks hst

/-- A server that grants everything. -/
def okAnswers : CommandId → Answer := fun _ => ⟨true, [], true, .resolved (.ok plainOk)⟩

/-- `login`, which asks for the capabilities too, and `select`. -/
def loginSelect : List (Caller.Action .tls) :=
  [.call (.login ⟨ascii "u", rfl⟩ ⟨ascii "p", rfl⟩), .call (.select ⟨ascii "INBOX", rfl⟩)]

/-- The `SELECT` finds the server authenticated. -/
theorem commands_allowed_select :
    ∃ c before request, Reaches (Caller.step (t := .tls)) (fun _ _ => True)
        (Caller.new .unauthenticated {} okAnswers) c ∧
      c.session.raw.queued = before ++ [request] ∧
      request.asks = some (.select (ascii "INBOX")) ∧
      Serves okAnswers .notAuthenticated before .authenticated ∧
      (Command.select (ascii "INBOX")).allowedIn .authenticated = true := by
  have hrun : ∃ c, Reaches (Caller.step (t := .tls)) (fun _ _ => True)
      (Caller.new .unauthenticated {} okAnswers) c ∧
      c.session.raw.queued.map (fun r => (r.command?, r.asks))
        = [(some 0, some (.login (ascii "u") (ascii "p"))), (some 1, some .capability),
          (some 2, some (.select (ascii "INBOX")))] :=
    @exists_reaches _ _ _ _ _ _ _ _ loginSelect (by decide +kernel)
  obtain ⟨c, hc, hqueued⟩ := hrun
  obtain ⟨login, rest, hsplit, hlogin, hrest⟩ := List.map_eq_cons_iff.mp hqueued
  obtain ⟨capability, rest, rfl, hcapability, hrest⟩ := List.map_eq_cons_iff.mp hrest
  obtain ⟨select, rest, rfl, hselect, hrest⟩ := List.map_eq_cons_iff.mp hrest
  obtain rfl := List.map_eq_nil_iff.mp hrest
  obtain ⟨hlogin, hlogin'⟩ := Prod.mk.inj hlogin
  obtain ⟨hcapability, hcapability'⟩ := Prod.mk.inj hcapability
  have hasks := (Prod.mk.inj hselect).2
  have hserves : Serves okAnswers .notAuthenticated [login, capability] .authenticated := by
    refine ⟨.authenticated, ?_, .authenticated, ?_, rfl⟩
    · rw [WriteRequest.Serves, hlogin, hlogin']
      exact (if_pos rfl).mpr rfl
    · rw [WriteRequest.Serves, hcapability, hcapability']
      exact (if_pos rfl).mpr rfl
  exact ⟨c, [login, capability], select, hc, hsplit, hasks, hserves,
    commands_allowed hc hsplit hasks hserves⟩

end ImapRs
