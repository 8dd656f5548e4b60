import ImapRs.Client.ServerState

/-!
# What entitles a client to a line

A client may only use an extension the server has offered, and it may only send a line that is no
command when the server has asked for one: the response to `AUTHENTICATE`, which holds the password,
and the end of an `IDLE`. Each line a caller queues is traced back here to the frame of the server
that allows it.

## Main definitions

* `Knows` — what a session can know of the server's capabilities, and from which answers
* `Offered`, `Invited` — what entitles a client to a command, and to any other line
* `Warranted` — a session all of whose lines are entitled

## Main results

* `Course.warranted` — one call
* `extensions_offered` — no command without its capability
* `data_invited` — no other line without a continuation request
-/

namespace ImapRs

open Incremental Transition

/-! ### Entitlements -/

/-- What is known of the server before command `n`: what was known at the start, or a list that came
with the answer to an earlier command. -/
def Knows (answers : CommandId → Answer) (caps₀ : Capabilities) (n : CommandId)
    (caps : Capabilities) : Prop :=
  caps = caps₀ ∨ ∃ i < n, ∃ frame atoms,
    (frame ∈ (answers i).untagged ∨ (answers i).okFrame = some frame) ∧
    frame.response.capabilityList = some atoms ∧ caps = .fromAtoms atoms

/-- A command that needs no capability, or one that is known. -/
def Offered (answers : CommandId → Answer) (caps₀ : Capabilities) (request : WriteRequest) : Prop :=
  ∀ command n, request.asks = some command → request.command? = some n →
    ∃ caps, Knows answers caps₀ n caps ∧ command.gate caps = true

/-- A line that is no command answers a continuation request: that of the `AUTHENTICATE` right
before it, with credentials, or that of an earlier `IDLE`, which it ends. -/
def Invited (answers : CommandId → Answer) (before : List WriteRequest) (request : WriteRequest) :
    Prop :=
  request.command? = none → ∃ earlier i, earlier.command? = some i ∧ (answers i).Continues ∧
    ((before.getLast? = some earlier ∧ earlier.asks = some .authenticatePlain ∧
        ∃ user pass, request = .raw (Session.saslPlainLine user pass)) ∨
      (earlier ∈ before ∧ earlier.asks = some .idle ∧ request = .raw DONE))

/-- Every line of a session is entitled. -/
structure Warranted (answers : CommandId → Answer) (caps₀ : Capabilities) (s : Session) : Prop where
  answers_eq : s.raw.answers = answers
  counted : s.Counted
  knows : Knows answers caps₀ s.raw.issued s.capabilities
  offered : ∀ request ∈ s.raw.queued, Offered answers caps₀ request
  invited : ∀ before request after, s.raw.queued = before ++ request :: after →
    Invited answers before request

variable {answers : CommandId → Answer} {caps₀ caps : Capabilities} {s s' : Session}
  {command : Command} {ok : Bool} {cmd : Bytes} {n m : CommandId}

theorem Knows.mono (h : Knows answers caps₀ n caps) (hle : n ≤ m) : Knows answers caps₀ m caps := by
  rcases h with h | ⟨i, hi, h⟩
  · exact .inl h
  · exact .inr ⟨i, hi.trans_le hle, h⟩

/-- What an answer teaches is known from then on. -/
theorem Knows.teaches {after : Capabilities} (h : Knows answers caps₀ n caps)
    (hteaches : (answers n).Teaches caps after) : Knows answers caps₀ (n + 1) after := by
  rcases hteaches with rfl | ⟨frame, atoms, hframe, hatoms, hafter⟩
  · exact h.mono (Nat.le_succ n)
  · exact .inr ⟨n, Nat.lt_succ_self n, frame, atoms, hframe, hatoms, hafter⟩

/-- One more request that is invited. -/
theorem invited_snoc {requests : List WriteRequest} {request : WriteRequest}
    (h : ∀ before request after, requests = before ++ request :: after →
      Invited answers before request) (hnext : Invited answers requests request) :
    ∀ before r after, requests ++ [request] = before ++ r :: after → Invited answers before r := by
  intro before r after hsplit
  rcases append_eq_append_cons hsplit with ⟨e, rfl, -⟩ | ⟨e, hlast, rfl⟩
  · exact h before r e rfl
  · obtain ⟨rfl, rfl, -⟩ : e = [] ∧ request = r ∧ after = [] := by
      cases e with
      | nil => simpa [eq_comm] using hlast
      | cons x e => simp at hlast
    rwa [List.append_nil]

theorem Warranted.allocate (h : Warranted answers caps₀ s) :
    Warranted answers caps₀ { s with raw := s.raw.allocate } :=
  ⟨h.answers_eq, h.counted.allocate, h.knows.mono (Nat.le_succ _), h.offered, h.invited⟩

/-- A command whose capability is known. -/
theorem Warranted.afterCommand (h : Warranted answers caps₀ s) (hasks : Asks command cmd)
    (hgate : command.gate s.capabilities = true) (collector : Option FrameFilter)
    (hteaches : (s.raw.answers s.raw.issued).Teaches s.capabilities caps) :
    Warranted answers caps₀
      { RawClient.afterCommand s cmd collector with capabilities := caps } where
  answers_eq := h.answers_eq
  counted := h.counted.allocate
  knows := h.knows.teaches (h.answers_eq ▸ hteaches)
  offered := by
    intro request hrequest
    rcases List.mem_append.mp hrequest with hmem | hmem
    · exact h.offered request hmem
    · obtain rfl : request = s.request cmd collector := List.mem_singleton.mp hmem
      intro asked number hasked hnumber
      rw [asks_of_tells (tells_request h.counted hasks collector)] at hasked
      cases hasked
      cases hnumber
      exact ⟨s.capabilities, h.knows, hgate⟩
  invited := by
    show ∀ before request after, s.raw.queued ++ [s.request cmd collector]
      = before ++ request :: after → Invited answers before request
    exact invited_snoc h.invited fun hnone => by cases hnone

/-- A line that is no command, and is invited. -/
theorem Warranted.push (h : Warranted answers caps₀ s) {bytes : Bytes}
    (hinvited : Invited answers s.raw.queued (.raw bytes)) :
    Warranted answers caps₀ { s with raw := s.raw.push (.raw bytes) } where
  answers_eq := h.answers_eq
  counted := h.counted
  knows := h.knows
  offered := by
    intro request hrequest
    rcases List.mem_append.mp hrequest with hmem | hmem
    · exact h.offered request hmem
    · obtain rfl : request = .raw bytes := List.mem_singleton.mp hmem
      intro asked number hasked hnumber
      cases hnumber
  invited := by
    show ∀ before request after, s.raw.queued ++ [.raw bytes] = before ++ request :: after →
      Invited answers before request
    exact invited_snoc h.invited hinvited

/-! ### One call -/

theorem Exchanges.warranted (h : Exchanges command s ok s') (hs : Warranted answers caps₀ s)
    (hgate : command.gate s.capabilities = true) : Warranted answers caps₀ s' := by
  cases h with
  | lost => exact hs.allocate
  | sent hasks hteaches => exact hs.afterCommand hasks hgate _ hteaches

section

variable {t : Transport} {p q : Phase} {op : Operation t p q}

/-- A method that authenticates, once all its lines are out. -/
theorem Warranted.opened (hop : op.authenticates = true) (hs : Warranted answers caps₀ s)
    (hasks : Asks op.command cmd) (collector : Option FrameFilter)
    (hcontinues : op.response?.isSome = true → (s.raw.answers s.raw.issued).Continues)
    (hteaches : (s.raw.answers s.raw.issued).Teaches s.capabilities caps) :
    Warranted answers caps₀ { opened s cmd collector op.response? with capabilities := caps } := by
  cases op with
  | login user pass => exact hs.afterCommand hasks rfl collector hteaches
  | authenticatePlain user pass =>
    refine (hs.afterCommand hasks rfl collector hteaches).push fun _ => ?_
    refine ⟨s.request cmd collector, s.raw.issued, rfl, hs.answers_eq ▸ hcontinues rfl,
      .inl ⟨?_, asks_of_tells (tells_request hs.counted hasks collector), user, pass, rfl⟩⟩
    show (s.raw.queued ++ [s.request cmd collector]).getLast? = _
    rw [List.getLast?_concat]
  | _ => cases hop

/-- **One call.** -/
theorem Course.warranted (h : Course op s ok s') (hs : Warranted answers caps₀ s) :
    Warranted answers caps₀ s' := by
  cases h with
  | refused => exact hs
  | exchange hgate h => exact h.warranted hs hgate
  | responded hop hasks hcontinues hteaches =>
    exact hs.opened hop hasks _ (fun _ => hcontinues) hteaches
  | @refreshed cmd collector ok s' hop hasks hcontinues _ h =>
    have hopened := hs.opened hop hasks collector hcontinues (.inl rfl)
    rw [← opened_capabilities cmd collector op.response?] at hopened
    exact h.warranted hopened rfl

end

/-! ### Histories -/

/-- A caller whose lines are entitled, and whose handles come from an `IDLE` that was granted. -/
structure Caller.Entitled (answers : CommandId → Answer) (caps₀ : Capabilities) (c : Caller) :
    Prop where
  warranted : Warranted answers caps₀ c.session
  handles : ∀ handle ∈ c.handles, (answers handle.command).Continues ∧
    ∃ earlier ∈ c.session.raw.queued, earlier.command? = some handle.command ∧
      earlier.asks = some .idle

theorem Caller.entitled_new (phase : Phase) (caps₀ : Capabilities) (answers : CommandId → Answer) :
    (Caller.new phase caps₀ answers).Entitled answers caps₀ where
  warranted := ⟨rfl, rfl, .inl rfl, by simp [Caller.new],
    fun before request after h => absurd h.symm (by simp [Caller.new])⟩
  handles := by simp [Caller.new]

/-- A handle comes from an `IDLE` that was granted. -/
theorem granted_of_handle? {t : Transport} {p q : Phase} (op : Operation t p q)
    (hs : Warranted answers caps₀ s) {handle : IdleHandle}
    (h : op.handle? (op.run s).1 = some handle) :
    (answers handle.command).Continues ∧ ∃ earlier ∈ (op.run s).2.raw.queued,
      earlier.command? = some handle.command ∧ earlier.asks = some .idle := by
  obtain ⟨hcommand, hrun⟩ := run_of_handle? op h
  have hok : (op.run s).1.isOk = true := by
    cases hresult : (op.run s).1 with
    | ok r => rfl
    | error e =>
      rw [hresult] at h
      cases op <;> cases h
  have hcourse := course_of_run op s
  rw [hok] at hcourse
  have hidle : op.command = .idle ∧ op.authenticates = false := by
    cases op <;> first | exact ⟨rfl, rfl⟩ | cases h
  constructor
  · rw [hcommand, ← hs.answers_eq]
    generalize (op.run s).2 = s' at hcourse
    cases hcourse with
    | exchange _ hex =>
      rw [hidle.1] at hex
      cases hex with
      | lost hlogout => cases hlogout rfl
      | sent _ _ hsettles => exact hsettles rfl
    | responded hop => cases hidle.2.symm.trans hop
    | refreshed hop => cases hidle.2.symm.trans hop
  · have hasks : Asks .idle (ascii "IDLE") :=
      ⟨by decide, readCommand_bare (by decide : ("IDLE", .idle) ∈ bareCommands)⟩
    rw [hrun, hcommand]
    exact ⟨s.request (ascii "IDLE") (some Session.isContinuationReq),
      List.mem_append_right _ (List.mem_singleton_self _), rfl,
      asks_of_tells (tells_request hs.counted hasks _)⟩

theorem Caller.Entitled.step {t : Transport} {a : Caller.Action t} {c c' : Caller}
    (h : c.Entitled answers caps₀) (hstep : Caller.step a c = some c') :
    c'.Entitled answers caps₀ := by
  cases a with
  | drop k =>
    cases hstep
    exact ⟨h.warranted, fun handle hmem => h.handles handle (List.mem_of_mem_eraseIdx hmem)⟩
  | @call p q op =>
    change (if c.phase = some p then _ else none) = some c' at hstep
    split at hstep
    · cases hstep
      have hcourse := course_of_run op c.session
      refine ⟨hcourse.warranted h.warranted, fun handle hmem => ?_⟩
      rcases List.mem_append.mp hmem with hmem | hmem
      · obtain ⟨hcontinues, earlier, hearlier, hidle⟩ := h.handles handle hmem
        obtain ⟨said, hsaid, -⟩ := hcourse.uttered h.warranted.counted
        obtain ⟨new, hnew, -⟩ := hsaid.lines
        refine ⟨hcontinues, earlier, ?_, hidle⟩
        show earlier ∈ (op.run c.session).2.raw.queued
        rw [hnew]
        exact List.mem_append_left _ hearlier
      · exact granted_of_handle? op h.warranted (Option.mem_toList.mp hmem)
    · cases hstep
  | stop k =>
    obtain ⟨handle, hhandle, rfl⟩ := Option.map_eq_some_iff.mp hstep
    have hmem : handle ∈ c.handles := List.mem_of_getElem? hhandle
    obtain ⟨hcontinues, earlier, hearlier, hnumber, hidle⟩ := h.handles handle hmem
    have hinvited : Invited answers c.session.raw.queued (.raw DONE) := fun _ =>
      ⟨earlier, handle.command, hnumber, hcontinues, .inr ⟨hearlier, hidle, rfl⟩⟩
    have hqueue : ∀ request ∈ c.session.raw.queued,
        request ∈ (handle.stop c.session).2.raw.queued ∧
          Warranted answers caps₀ (handle.stop c.session).2 := by
      intro request hrequest
      rcases handle.stop_cases c.session with hsame | hdone
      · rw [hsame]
        exact ⟨hrequest, h.warranted⟩
      · rw [hdone]
        exact ⟨List.mem_append_left _ hrequest, h.warranted.push hinvited⟩
    refine ⟨(hqueue earlier hearlier).2, fun handle' hmem' => ?_⟩
    obtain ⟨hcontinues', earlier', hearlier', hidle'⟩ :=
      h.handles handle' (List.mem_of_mem_eraseIdx hmem')
    exact ⟨hcontinues', earlier', (hqueue earlier' hearlier').1, hidle'⟩

/-- **No command without its capability.** In every history of a caller, a command that needs an
extension comes after a list in which the server offers it: that of an earlier answer, or what was
known at the start. -/
theorem extensions_offered {t : Transport} {phase : Phase} {capabilities : Capabilities}
    {answers : CommandId → Answer} {c : Caller}
    (h : Reaches (Caller.step (t := t)) (fun _ _ => True)
      (Caller.new phase capabilities answers) c)
    {request : WriteRequest} {command : Command} {n : CommandId}
    (hqueued : request ∈ c.session.raw.queued) (hasks : request.asks = some command)
    (hnumber : request.command? = some n) :
    command.gate capabilities = true ∨ ∃ i < n, ∃ frame atoms,
      (frame ∈ (answers i).untagged ∨ (answers i).okFrame = some frame) ∧
      frame.response.capabilityList = some atoms ∧ command.gate (.fromAtoms atoms) = true := by
  have hentitled : c.Entitled answers capabilities :=
    h.invariant (Caller.entitled_new phase capabilities answers) fun _ _ hstep hc => hc.step hstep
  obtain ⟨caps, hknows, hgate⟩ := hentitled.warranted.offered request hqueued command n hasks
    hnumber
  rcases hknows with rfl | ⟨i, hi, frame, atoms, hframe, hatoms, rfl⟩
  · exact .inl hgate
  · exact .inr ⟨i, hi, frame, atoms, hframe, hatoms, hgate⟩

theorem validUtf8_move : validUtf8 (ascii "MOVE") = true := rfl

theorem parseResponse_move : parseResponse (ascii "* CAPABILITY MOVE\r\n")
    = .ok ([], .data (.capability [⟨ascii "MOVE", validUtf8_move⟩])) := by
  decide +kernel

/-- `* CAPABILITY MOVE`. -/
def moveListFrame : ServerFrame where
  bytes := ascii "* CAPABILITY MOVE\r\n"
  response := .data (.capability [⟨ascii "MOVE", validUtf8_move⟩])
  parses := parseResponse_move

/-- A server that offers `MOVE` when it is asked. -/
def movingAnswers : CommandId → Answer :=
  fun _ => ⟨true, [moveListFrame], true, .resolved (.ok plainOk)⟩

/-- A `MOVE`, after the session has asked. -/
theorem extensions_offered_move :
    ∃ c request, Reaches (Caller.step (t := .tls)) (fun _ _ => True)
        (Caller.new .selected {} movingAnswers) c ∧
      request ∈ c.session.raw.queued ∧
      request.asks = some (.move (ascii "1:3") (ascii "Trash")) ∧ request.command? = some 1 ∧
      ((Command.move (ascii "1:3") (ascii "Trash")).gate {} = true ∨ ∃ i < 1, ∃ frame atoms,
        (frame ∈ (movingAnswers i).untagged ∨ (movingAnswers i).okFrame = some frame) ∧
        frame.response.capabilityList = some atoms ∧
        (Command.move (ascii "1:3") (ascii "Trash")).gate (.fromAtoms atoms) = true) := by
  have hrun : ((runMeeting (Caller.step (t := .tls)) (fun _ _ => True)
      [.call (.refreshCapabilities : Operation .tls .selected .selected),
        .call (.moveMessages ⟨ascii "1:3", rfl⟩ ⟨ascii "Trash", rfl⟩)]
      (Caller.new .selected {} movingAnswers)).any fun c =>
        decide (c.session.raw.queued.map (fun r => (r.command?, r.asks))
          = [(some 0, some .capability),
            (some 1, some (.move (ascii "1:3") (ascii "Trash")))])) = true := by
    decide +kernel
  obtain ⟨c, hc, hqueued⟩ := exists_reaches hrun
  obtain ⟨list, rest, hsplit, -, hrest⟩ := List.map_eq_cons_iff.mp hqueued
  obtain ⟨move, rest, rfl, hmove, -⟩ := List.map_eq_cons_iff.mp hrest
  obtain ⟨hnumber, hasks⟩ := Prod.mk.inj hmove
  have hmem : move ∈ c.session.raw.queued := by simp [hsplit]
  exact ⟨c, move, hc, hmem, hasks, hnumber, extensions_offered hc hmem hasks hnumber⟩

/-- **No other line without a continuation request.** In every history of a caller, a line that is
no command answers a continuation request the server has sent: it is the encoding of a user and a
password as the response to the `AUTHENTICATE` right before it, or the `DONE` of an earlier `IDLE`.
-/
theorem data_invited {t : Transport} {phase : Phase} {capabilities : Capabilities}
    {answers : CommandId → Answer} {c : Caller}
    (h : Reaches (Caller.step (t := t)) (fun _ _ => True)
      (Caller.new phase capabilities answers) c)
    {before after : List WriteRequest} {bytes : Bytes}
    (hqueued : c.session.raw.queued = before ++ .raw bytes :: after) :
    ∃ earlier i, earlier.command? = some i ∧ (answers i).Continues ∧
      ((before.getLast? = some earlier ∧ earlier.asks = some .authenticatePlain ∧
          ∃ user pass, bytes = Session.saslPlainLine user pass) ∨
        (earlier ∈ before ∧ earlier.asks = some .idle ∧ bytes = DONE)) := by
  have hentitled : c.Entitled answers capabilities :=
    h.invariant (Caller.entitled_new phase capabilities answers) fun _ _ hstep hc => hc.step hstep
  obtain ⟨earlier, i, hnumber, hcontinues, hasks⟩ :=
    hentitled.warranted.invited before (.raw bytes) after hqueued rfl
  refine ⟨earlier, i, hnumber, hcontinues, ?_⟩
  rcases hasks with ⟨hlast, hplain, user, pass, hbytes⟩ | ⟨hmem, hidle, hdone⟩
  · cases hbytes
    exact .inl ⟨hlast, hplain, user, pass, rfl⟩
  · cases hdone
    exact .inr ⟨hmem, hidle, rfl⟩

/-- An `AUTHENTICATE` whose response was asked for, on a session that is not authenticated. -/
def askedCaller : Caller := .new .unauthenticated {} grantingAnswers

/-- The end of an `IDLE`, and the response to an `AUTHENTICATE`. -/
theorem data_invited_done :
    (∃ c idle, Reaches (Caller.step (t := .tls)) (fun _ _ => True) grantedCaller c ∧
      c.session.raw.queued = [idle, .raw DONE] ∧
      ∃ earlier i, earlier.command? = some i ∧ (grantingAnswers i).Continues ∧
        (([idle].getLast? = some earlier ∧ earlier.asks = some .authenticatePlain ∧
            ∃ user pass, DONE = Session.saslPlainLine user pass) ∨
          (earlier ∈ [idle] ∧ earlier.asks = some .idle ∧ DONE = DONE))) ∧
    ∃ c line bytes, Reaches (Caller.step (t := .tls)) (fun _ _ => True) askedCaller c ∧
      c.session.raw.queued = [line, .raw bytes] ∧ bytes = ascii "AHRpbQB0YW5zdGFhZg==\r\n" ∧
      ∃ earlier i, earlier.command? = some i ∧ (grantingAnswers i).Continues ∧
        [line].getLast? = some earlier ∧ earlier.asks = some .authenticatePlain ∧
        ∃ user pass, bytes = Session.saslPlainLine user pass := by
  constructor
  · have h₁ : Reaches (Caller.step (t := .tls)) (fun _ _ => True) grantedCaller _ :=
      .next (a := .call .idle) .start trivial rfl
    have h₂ := h₁.next (a := .stop 0) trivial rfl
    exact ⟨_, _, h₂, rfl, data_invited h₂ rfl⟩
  · have h₁ : Reaches (Caller.step (t := .tls)) (fun _ _ => True) askedCaller _ :=
      .next (a := .call (.authenticatePlain ⟨ascii "tim", validUtf8_tim⟩
        ⟨ascii "tanstaaf", validUtf8_tanstaaf⟩)) .start trivial rfl
    have hbytes : Session.saslPlainLine ⟨ascii "tim", validUtf8_tim⟩
        ⟨ascii "tanstaaf", validUtf8_tanstaaf⟩ = ascii "AHRpbQB0YW5zdGFhZg==\r\n" := by
      decide +kernel
    obtain ⟨earlier, i, hnumber, hcontinues, hline⟩ := data_invited h₁ rfl
    refine ⟨_, _, _, h₁, rfl, hbytes, earlier, i, hnumber, hcontinues, ?_⟩
    refine hline.resolve_right fun hdone => absurd (hbytes.symm.trans hdone.2.2) ?_
    decide +kernel

end ImapRs
