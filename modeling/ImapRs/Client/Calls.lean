import ImapRs.Client.Session
import ImapRs.Transition.Dialogue

/-!
# Methods as dialogues

The methods of `session.rs` and `idle.rs` once more, as programs that ask: what they make of an
answer is written out, and what the connection answers is left open. A method of the session model
is such a program, run with a handler that looks the answers up.

## Main definitions

* `Call` — what a method asks of the client it drives
* `Operation.method`, `IdleHandle.stopping` — the methods
* `Call.run` — the answers of the session model

## Main results

* `Operation.interp_method`, `IdleHandle.interp_stopping` — the methods are those of the session
  model
-/

namespace ImapRs

open Incremental Transition

/-! ### Calls -/

/-- What a method asks of its session's fields and of the client. -/
inductive Call where
  | capabilities
  | setCapabilities (capabilities : Capabilities)
  /-- `execute_command`. -/
  | execute (cmd : Bytes)
  /-- `execute_streaming`. -/
  | stream (cmd : Bytes) (wants : FrameFilter)
  /-- `send_command_streaming` for a continuation request, and `await_continuation`. -/
  | converse (cmd : Bytes)
  /-- `send_secret` or `send_raw` behind the continuation request, and the tagged response. -/
  | conclude (i : CommandId) (bytes : Bytes)

/-- What comes back. A stream gives its frames even when the command fails. -/
abbrev Call.Returns : Call → Type
  | .capabilities => Capabilities
  | .setCapabilities _ => Unit
  | .execute _ => Except ClientError Bytes
  | .stream _ _ => Except ClientError (List Bytes × Except ClientError Bytes)
  | .converse _ => Except ClientError CommandId
  | .conclude _ _ => Except ClientError Bytes

abbrev Method := ExceptT ClientError (Dialogue Call.Returns)

namespace Method

def capabilities : Method Capabilities := .lift (Dialogue.lift Call.capabilities)

def setCapabilities (capabilities : Capabilities) : Method Unit :=
  .lift (Dialogue.lift (Call.setCapabilities capabilities))

def execute (cmd : Bytes) : Method Bytes := .mk (Dialogue.lift (Call.execute cmd))

def stream (cmd : Bytes) (wants : FrameFilter) :
    Method (List Bytes × Except ClientError Bytes) :=
  .mk (Dialogue.lift (Call.stream cmd wants))

def converse (cmd : Bytes) : Method CommandId := .mk (Dialogue.lift (Call.converse cmd))

def conclude (i : CommandId) (bytes : Bytes) : Method Bytes :=
  .mk (Dialogue.lift (Call.conclude i bytes))

/-! ### Any state -/

/-- Update the cached set from each frame. -/
def updateFrom (caps : Capabilities) (frames : List Bytes) : Capabilities :=
  frames.foldl (fun caps frame =>
    match parseResponse frame with
    | .ok (_, response) => (caps.tryUpdateFrom response).1
    | .error _ => caps) caps

def refreshCapabilities : Method Unit := do
  let (frames, reply) ← stream (ascii "CAPABILITY") Capabilities.isCapabilityResponse
  setCapabilities (updateFrom (← capabilities) frames)
  let _ ← reply
  return

def refreshCapabilitiesFromFrame (frame : Bytes) : Method Unit := do
  let caps ← capabilities
  match parseResponse frame with
  | .ok (_, response) =>
    let (caps, updated) := caps.tryUpdateFrom response
    if updated then setCapabilities caps else refreshCapabilities
  | .error _ => refreshCapabilities

/-- A closed connection is an acceptable outcome of `LOGOUT`. -/
def loggedOut : Except ClientError Bytes → Except ClientError Unit
  | .ok _ => .ok ()
  | .error .connectionClosed => .ok ()
  | .error e => .error e

def logout : Method Unit := .mk do return loggedOut (← (execute (ascii "LOGOUT")).run)

def noop : Method Unit := do
  let _ ← execute (ascii "NOOP")
  return

/-! ### Before authentication -/

def login (user pass : Str) : Method Unit := do
  let userQ ← imapQuoted user
  let passQ ← imapQuoted pass
  let frame ← execute (Session.loginCommand userQ passQ)
  refreshCapabilitiesFromFrame frame

def authenticatePlain (user pass : Str) : Method Unit := do
  if user.bytes.contains 0 then throw (.commandFailed "username must not contain NUL".toList)
  else if pass.bytes.contains 0 then throw (.commandFailed "password must not contain NUL".toList)
  else do
    let i ← converse (ascii "AUTHENTICATE PLAIN")
    let frame ← conclude i (Session.saslPlainLine user pass)
    refreshCapabilitiesFromFrame frame

/-! ### Authenticated -/

def select (mailbox : Str) : Method Unit := do
  let mb ← imapQuoted mailbox
  let _ ← execute (ascii "SELECT " ++ mb)
  return

def examine (mailbox : Str) : Method Unit := do
  let mb ← imapQuoted mailbox
  let _ ← execute (ascii "EXAMINE " ++ mb)
  return

def list (reference mailboxMask : Str) : Method Bytes := do
  let reference ← imapQuoted reference
  let mailboxMask ← imapQuoted mailboxMask
  execute (ascii "LIST " ++ reference ++ SP :: mailboxMask)

/-! ### Selected -/

def fetchRaw (sequenceSet_ items : Str) : Method Bytes := do
  let cmd ← Session.fetchCommand sequenceSet_ items
  execute cmd

def fetch (sequenceSet_ items : Str) : Method (List FetchResult) := do
  let cmd ← Session.fetchCommand sequenceSet_ items
  let (frames, reply) ← stream cmd isFetch
  let _ ← reply
  return frames.filterMap Session.fetchResult

theorem utf8_wholeBody : validUtf8 (ascii "BODY[]") = true := rfl

def fetchBody (sequenceSet_ : Str) : Method (Option (List Char)) := do
  let results ← fetch sequenceSet_ ⟨ascii "BODY[]", utf8_wholeBody⟩
  return (results.head?.bind FetchResult.body).map Session.utf8Lossy

def runSearch (cmd : Bytes) : Method (List UInt32) := do
  let (frames, reply) ← stream cmd isSearch
  let _ ← reply
  return frames.flatMap Session.searchIds

def search (query : SearchQuery) : Method (List UInt32) :=
  runSearch (ascii "SEARCH " ++ query.build)

def uidSearch (query : SearchQuery) : Method (List UInt32) :=
  runSearch (ascii "UID SEARCH " ++ query.build)

def store (sequenceSet_ : Str) (action : StoreAction) (flags : List Flag) : Method Bytes := do
  let cmd ← Session.storeCommand "STORE " sequenceSet_ action flags
  execute cmd

def uidStore (uidSet : Str) (action : StoreAction) (flags : List Flag) : Method Bytes := do
  let cmd ← Session.storeCommand "UID STORE " uidSet action flags
  execute cmd

def expunge : Method Bytes := execute (ascii "EXPUNGE")

def closeMailbox : Method Unit := do
  let _ ← execute (ascii "CLOSE")
  return

def unselect : Method Unit := do
  if !(← capabilities).unselect then throw (.unsupportedCapability "UNSELECT")
  else do
    let _ ← execute (ascii "UNSELECT")
    return

def check : Method Unit := do
  let _ ← execute (ascii "CHECK")
  return

/-- The handle of an IDLE is that of its command. -/
def idle : Method CommandId := do
  if !(← capabilities).idle then throw (.unsupportedCapability "IDLE")
  else converse (ascii "IDLE")

def moveMessages (sequenceSet_ mailbox : Str) : Method Bytes := do
  if !(← capabilities).moveExt then throw (.unsupportedCapability "MOVE")
  else do
    let set ← sequenceSet sequenceSet_
    let mailbox ← imapQuoted mailbox
    execute (ascii "MOVE " ++ set ++ SP :: mailbox)

end Method

/-- What a method hands out. -/
def Operation.Outcome {t p q} : Operation t p q → Type
  | .list _ _ | .fetchRaw _ _ | .store _ _ _ | .uidStore _ _ _
  | .expunge | .moveMessages _ _ => Bytes
  | .fetch _ _ => List FetchResult
  | .fetchBody _ => Option (List Char)
  | .search _ | .uidSearch _ => List UInt32
  | .idle => CommandId
  | _ => Unit

def Operation.method {t p q} : (op : Operation t p q) → Method op.Outcome
  | .refreshCapabilities => Method.refreshCapabilities
  | .logout => Method.logout
  | .noop => Method.noop
  | .login user pass => Method.login user pass
  | .authenticatePlain user pass => Method.authenticatePlain user pass
  | .select mailbox => Method.select mailbox
  | .examine mailbox => Method.examine mailbox
  | .list reference mailboxMask => Method.list reference mailboxMask
  | .fetchRaw set items => Method.fetchRaw set items
  | .fetch set items => Method.fetch set items
  | .fetchBody set => Method.fetchBody set
  | .search query => Method.search query
  | .uidSearch query => Method.uidSearch query
  | .store set action flags => Method.store set action flags
  | .uidStore set action flags => Method.uidStore set action flags
  | .expunge => Method.expunge
  | .closeMailbox => Method.closeMailbox
  | .unselect => Method.unselect
  | .check => Method.check
  | .idle => Method.idle
  | .moveMessages set mailbox => Method.moveMessages set mailbox

/-- `stop`, on the handle of a command. -/
def IdleHandle.stopping (i : CommandId) : Method Unit := do
  let _ ← Method.conclude i DONE
  return

/-! ### Methods that conclude nothing -/

/-- A call that ends no conversation. -/
def Call.Plain (q : Call) : Prop := ∀ i bytes, q ≠ .conclude i bytes

namespace Method

/-- The method ends no conversation. -/
def Plain {α : Type} (m : Method α) : Prop := Dialogue.Asks Call.Plain m.run

section Plain

variable {α β : Type}

theorem Plain.bind {m : Method α} {f : α → Method β} (hm : m.Plain) (hf : ∀ a, (f a).Plain) :
    (m >>= f).Plain := by
  refine Dialogue.Asks.bind hm fun r => ?_
  cases r with
  | error e => exact .done
  | ok a => exact hf a

theorem plain_pure (a : α) : (pure a : Method α).Plain := .done

theorem plain_throw (e : ClientError) : (throw e : Method α).Plain := .done

theorem plain_lift (x : Except ClientError α) : (liftM x : Method α).Plain := .done

theorem plain_capabilities : capabilities.Plain :=
  .ask (fun _ _ h => Call.noConfusion h) fun _ => .done

theorem plain_setCapabilities (caps : Capabilities) : (setCapabilities caps).Plain :=
  .ask (fun _ _ h => Call.noConfusion h) fun _ => .done

theorem plain_execute (cmd : Bytes) : (execute cmd).Plain :=
  .ask (fun _ _ h => Call.noConfusion h) fun _ => .done

theorem plain_stream (cmd : Bytes) (wants : FrameFilter) : (stream cmd wants).Plain :=
  .ask (fun _ _ h => Call.noConfusion h) fun _ => .done

theorem plain_converse (cmd : Bytes) : (converse cmd).Plain :=
  .ask (fun _ _ h => Call.noConfusion h) fun _ => .done

theorem plain_refreshCapabilities : refreshCapabilities.Plain :=
  (plain_stream _ _).bind fun _ => plain_capabilities.bind fun _ =>
    (plain_setCapabilities _).bind fun _ => (plain_lift _).bind fun _ => plain_pure _

theorem plain_refreshCapabilitiesFromFrame (frame : Bytes) :
    (refreshCapabilitiesFromFrame frame).Plain := by
  refine plain_capabilities.bind fun caps => ?_
  split
  · dsimp only
    split
    · exact plain_setCapabilities _
    · exact plain_refreshCapabilities
  · exact plain_refreshCapabilities

theorem plain_executed (cmd : Bytes) : (do let _ ← execute cmd; return : Method Unit).Plain :=
  (plain_execute cmd).bind fun _ => plain_pure _

theorem plain_fetch (set items : Str) : (fetch set items).Plain :=
  (plain_lift _).bind fun _ => (plain_stream _ _).bind fun _ => (plain_lift _).bind fun _ =>
    plain_pure _

theorem plain_runSearch (cmd : Bytes) : (runSearch cmd).Plain :=
  (plain_stream _ _).bind fun _ => (plain_lift _).bind fun _ => plain_pure _

theorem plain_if {c : Prop} [Decidable c] {m m' : Method α} (h : m.Plain) (h' : m'.Plain) :
    (if c then m else m').Plain := by
  split
  · exact h
  · exact h'

end Plain

end Method

/-! ### The session model -/

/-- What the session model answers. -/
def Call.run : (q : Call) → StateM Session q.Returns
  | .capabilities => fun s => (s.capabilities, s)
  | .setCapabilities caps => fun s => ((), { s with capabilities := caps })
  | .execute cmd => ((·.bytes) <$> RawClient.executeCommand cmd : SessionM Bytes).run
  | .stream cmd wants =>
    ((fun (frames, reply) => (frames.map (·.bytes), reply.map (·.bytes))) <$>
      RawClient.executeStreaming cmd wants :
        SessionM (List Bytes × Except ClientError Bytes)).run
  | .converse cmd => (do
    let i ← RawClient.enqueueCommand cmd (some Session.isContinuationReq)
    let _ ← Session.awaitContinuation i
    return i : SessionM CommandId).run
  | .conclude i bytes => (do
    RawClient.sendSecret i bytes
    let frame ← ((← get).raw.answers i).reply.await
    return frame.bytes : SessionM Bytes).run

abbrev Method.interp {α : Type} (p : Method α) : SessionM α := Dialogue.interp Call.run p

/-- What a method hands out, to a caller who is told what its handle will get. -/
def Operation.result {t p q} (answers : CommandId → Answer) :
    (op : Operation t p q) → op.Outcome → op.Result
  | .list _ _, r | .fetchRaw _ _, r | .store _ _ _, r | .uidStore _ _ _, r | .expunge, r
  | .moveMessages _ _, r | .fetch _ _, r | .fetchBody _, r | .search _, r | .uidSearch _, r
  | .refreshCapabilities, r | .logout, r | .noop, r | .login _ _, r | .authenticatePlain _ _, r
  | .select _, r | .examine _, r | .closeMailbox, r | .unselect, r | .check, r => r
  | .idle, i => ⟨i, (answers i).reply⟩

namespace Method

section Interp

variable {α β : Type}

theorem interp_execute (cmd : Bytes) :
    (execute cmd).interp = (·.bytes) <$> RawClient.executeCommand cmd := rfl

theorem interp_stream (cmd : Bytes) (wants : FrameFilter) :
    (stream cmd wants).interp
      = (fun (frames, reply) => (frames.map (·.bytes), reply.map (·.bytes))) <$>
        RawClient.executeStreaming cmd wants := rfl

theorem interp_capabilities : capabilities.interp = (·.capabilities) <$> get := rfl

theorem interp_bind (p : Method α) (f : α → Method β) :
    (p >>= f).interp = p.interp >>= fun a => (f a).interp := Dialogue.interp_bind _ p f

theorem interp_pure (a : α) : (pure a : Method α).interp = pure a := Dialogue.interp_pure _ a

theorem interp_throw (e : ClientError) : (throw e : Method α).interp = throw e :=
  Dialogue.interp_throw _ e

theorem interp_lift (x : Except ClientError α) : (liftM x : Method α).interp = liftM x :=
  Dialogue.interp_lift _ x

theorem interp_ite {c : Prop} [Decidable c] (p p' : Method α) :
    (if c then p else p').interp = if c then p.interp else p'.interp :=
  Dialogue.interp_ite _ p p'

end Interp

/-! ### Method by method -/

theorem updateFrom_map (caps : Capabilities) (frames : List ServerFrame) :
    updateFrom caps (frames.map (·.bytes)) = Session.updateFrom caps frames := List.foldl_map

/-- Reading the cached set and writing it. -/
theorem interp_update {α : Type} (f : Capabilities → Capabilities) (p : Method α) :
    (capabilities >>= fun caps => setCapabilities (f caps) >>= fun _ => p).interp
      = (modify fun s => { s with capabilities := f s.capabilities } : SessionM Unit) >>=
        fun _ => p.interp := rfl

theorem lift_map {α β : Type} (f : α → β) (x : Except ClientError α) :
    (liftM (x.map f) : SessionM β) = f <$> (liftM x : SessionM α) := by
  cases x <;> rfl

theorem interp_refreshCapabilities :
    refreshCapabilities.interp = Session.refreshCapabilities := by
  rw [refreshCapabilities, interp_bind, interp_stream, bind_map_left, Session.refreshCapabilities]
  congr 1
  funext ⟨frames, reply⟩
  refine (interp_update (updateFrom · (frames.map (·.bytes))) _).trans ?_
  simp only [interp_bind, interp_lift, interp_pure, lift_map, bind_map_left, updateFrom_map]

theorem interp_refreshCapabilitiesFromFrame (frame : Bytes) :
    (refreshCapabilitiesFromFrame frame).interp = Session.refreshCapabilitiesFromFrame frame := by
  funext s
  rw [refreshCapabilitiesFromFrame, interp_bind, interp_capabilities, bind_map_left, run_get_bind,
    Session.refreshCapabilitiesFromFrame, run_get_bind]
  cases parseResponse frame with
  | error e => exact congrFun interp_refreshCapabilities s
  | ok r =>
    dsimp only
    rw [interp_ite, interp_refreshCapabilities]
    split <;> rfl

theorem run_execute (cmd : Bytes) (s : Session) :
    Call.run (.execute cmd) s = ((RawClient.executeCommand cmd s).1.map (·.bytes),
      (RawClient.executeCommand cmd s).2) := run_map _ _ s

theorem interp_logout : logout.interp = Session.logout := by
  funext s
  have hlogout : logout.interp s = (loggedOut (Call.run (.execute (ascii "LOGOUT")) s).1,
      (Call.run (.execute (ascii "LOGOUT")) s).2) := rfl
  rw [hlogout, run_execute, Session.logout]
  cases RawClient.executeCommand (ascii "LOGOUT") s with
  | mk r s' =>
    cases r with
    | ok frame => rfl
    | error e => cases e <;> rfl

/-- A command whose frame is not needed. -/
theorem interp_executed (cmd : Bytes) :
    (do let _ ← execute cmd; return : Method Unit).interp
      = do let _ ← RawClient.executeCommand cmd; return := by
  rw [interp_bind, interp_execute, bind_map_left]
  rfl

/-- A command whose frame is handed out. -/
theorem interp_executed_frame (cmd : Bytes) :
    (execute cmd).interp = do let frame ← RawClient.executeCommand cmd; return frame.bytes := by
  rw [interp_execute, map_eq_pure_bind]

theorem interp_login (user pass : Str) : (login user pass).interp = Session.login user pass := by
  simp only [login, Session.login, interp_bind, interp_lift, interp_execute, bind_map_left,
    interp_refreshCapabilitiesFromFrame]

theorem interp_select (mailbox : Str) : (select mailbox).interp = Session.select mailbox := by
  simp only [select, Session.select, interp_bind, interp_lift, interp_execute, interp_pure,
    bind_map_left]

theorem interp_examine (mailbox : Str) : (examine mailbox).interp = Session.examine mailbox := by
  simp only [examine, Session.examine, interp_bind, interp_lift, interp_execute, interp_pure,
    bind_map_left]

theorem interp_list (reference mailboxMask : Str) :
    (list reference mailboxMask).interp = Session.list reference mailboxMask := by
  simp only [list, Session.list, interp_bind, interp_lift, interp_executed_frame]

theorem interp_fetchRaw (set items : Str) :
    (fetchRaw set items).interp = Session.fetchRaw set items := by
  simp only [fetchRaw, Session.fetchRaw, interp_bind, interp_lift, interp_executed_frame]

theorem interp_fetch (set items : Str) : (fetch set items).interp = Session.fetch set items := by
  simp only [fetch, Session.fetch, interp_bind, interp_lift, interp_stream, interp_pure,
    bind_map_left, lift_map, List.filterMap_map]
  rfl

theorem interp_fetchBody (set : Str) : (fetchBody set).interp = Session.fetchBody set := by
  simp only [fetchBody, Session.fetchBody, interp_bind, interp_fetch, interp_pure]

theorem interp_runSearch (cmd : Bytes) : (runSearch cmd).interp = Session.runSearch cmd := by
  simp only [runSearch, Session.runSearch, interp_bind, interp_lift, interp_stream, interp_pure,
    bind_map_left, lift_map, List.flatMap_map]

theorem interp_store (set : Str) (action : StoreAction) (flags : List Flag) :
    (store set action flags).interp = Session.store set action flags := by
  simp only [store, Session.store, interp_bind, interp_lift, interp_executed_frame]

theorem interp_uidStore (set : Str) (action : StoreAction) (flags : List Flag) :
    (uidStore set action flags).interp = Session.uidStore set action flags := by
  simp only [uidStore, Session.uidStore, interp_bind, interp_lift, interp_executed_frame]

theorem interp_unselect : unselect.interp = Session.unselect := by
  simp only [unselect, Session.unselect, interp_bind, interp_capabilities, bind_map_left,
    interp_ite, interp_throw, interp_execute, interp_pure]

theorem interp_moveMessages (set mailbox : Str) :
    (moveMessages set mailbox).interp = Session.moveMessages set mailbox := by
  simp only [moveMessages, Session.moveMessages, interp_bind, interp_capabilities, bind_map_left,
    interp_ite, interp_throw, interp_lift, interp_executed_frame]

/-! ### Conversations -/

/-- What the continuation request leads to is the reply of the command, whoever holds it. -/
theorem awaitContinuation_bind {α : Type} (i : CommandId) (q : Reply → SessionM α) :
    (Session.awaitContinuation i >>= q)
      = Session.awaitContinuation i >>= fun _ => (do q ((← get).raw.answers i).reply) := by
  funext s
  cases hawait : Session.awaitContinuation i s with
  | mk r s' =>
    cases r with
    | error e => rw [run_bind_error hawait, run_bind_error hawait]
    | ok reply =>
      obtain ⟨rfl, rfl⟩ := Session.awaitContinuation_ok hawait
      rw [run_bind_ok hawait, run_bind_ok hawait, run_get_bind]

/-- The line behind a continuation request changes nothing about the reply. -/
theorem sendSecret_bind {α : Type} (i : CommandId) (bytes : Bytes) (q : Reply → SessionM α)
    (s : Session) :
    (RawClient.sendSecret i bytes >>= fun _ => q (s.raw.answers i).reply) s
      = (RawClient.sendSecret i bytes >>= fun _ => do q ((← get).raw.answers i).reply) s := by
  cases hsend : RawClient.sendSecret i bytes s with
  | mk r s' =>
    cases r with
    | error e => rw [run_bind_error hsend, run_bind_error hsend]
    | ok _ =>
      rw [run_bind_ok hsend, run_bind_ok hsend, run_get_bind, RawClient.sendSecret_ok hsend]
      rfl

theorem interp_conclude (i : CommandId) (bytes : Bytes) :
    (conclude i bytes).interp = (RawClient.sendSecret i bytes >>= fun _ => do
      let frame ← ((← get).raw.answers i).reply.await
      return frame.bytes) := rfl

theorem interp_converse (cmd : Bytes) :
    (converse cmd).interp = (do
      let i ← RawClient.enqueueCommand cmd (some Session.isContinuationReq)
      let _ ← Session.awaitContinuation i
      return i) := rfl

theorem interp_authenticatePlain (user pass : Str) :
    (authenticatePlain user pass).interp = Session.authenticatePlain user pass := by
  have hend : ∀ i (q : Bytes → SessionM Unit),
      ((conclude i (Session.saslPlainLine user pass)).interp >>= q)
        = (get >>= fun s => RawClient.sendSecret i (Session.saslPlainLine user pass) >>= fun _ =>
          liftM (s.raw.answers i).reply.await >>= fun frame => q frame.bytes) := by
    intro i q
    funext s
    rw [interp_conclude, bind_assoc, run_get_bind,
      sendSecret_bind i _ (fun reply => liftM reply.await >>= fun frame => q frame.bytes)]
    simp only [bind_assoc, pure_bind]
  have hgranted : (do
      let i ← converse (ascii "AUTHENTICATE PLAIN")
      let frame ← conclude i (Session.saslPlainLine user pass)
      refreshCapabilitiesFromFrame frame : Method Unit).interp = (do
      let i ← RawClient.enqueueCommand (ascii "AUTHENTICATE PLAIN") (some Session.isContinuationReq)
      let reply ← Session.awaitContinuation i
      RawClient.sendSecret i (Session.saslPlainLine user pass)
      let frame ← reply.await
      Session.refreshCapabilitiesFromFrame frame.bytes) := by
    simp only [interp_bind, interp_converse, hend, interp_refreshCapabilitiesFromFrame, bind_assoc,
      pure_bind]
    congr 1
    funext i
    exact (awaitContinuation_bind i fun reply => do
      RawClient.sendSecret i (Session.saslPlainLine user pass)
      let frame ← reply.await
      Session.refreshCapabilitiesFromFrame frame.bytes).symm
  rw [authenticatePlain, Session.authenticatePlain, interp_ite, interp_ite, hgranted]
  rfl

theorem interp_idle (s : Session) :
    Session.idle s = ((idle.interp s).1.map (fun i => ⟨i, (s.raw.answers i).reply⟩),
      (idle.interp s).2) := by
  have hinterp : idle.interp = (get >>= fun s =>
      if !s.capabilities.idle then throw (.unsupportedCapability "IDLE")
      else do
        let i ← RawClient.enqueueCommand (ascii "IDLE") (some Session.isContinuationReq)
        let _ ← Session.awaitContinuation i
        return i) := by
    simp only [idle, interp_bind, interp_capabilities, bind_map_left, interp_ite, interp_throw,
      interp_converse]
  rw [hinterp, Session.idle, run_get_bind, run_get_bind]
  cases s.capabilities.idle with
  | false => rfl
  | true =>
    rw [if_neg (by decide), if_neg (by decide)]
    cases hqueued : RawClient.enqueueCommand (ascii "IDLE") (some Session.isContinuationReq) s with
    | mk r s' =>
      cases r with
      | error e =>
        rw [run_bind_error hqueued, run_bind_error hqueued]
        rfl
      | ok i =>
        obtain ⟨rfl, rfl⟩ := RawClient.enqueueCommand_ok hqueued
        rw [run_bind_ok hqueued, run_bind_ok hqueued]
        cases hawait : Session.awaitContinuation s.raw.issued (RawClient.afterCommand s
            (ascii "IDLE") (some Session.isContinuationReq)) with
        | mk r s' =>
          cases r with
          | error e =>
            rw [run_bind_error hawait, run_bind_error hawait]
            rfl
          | ok reply =>
            obtain ⟨rfl, rfl⟩ := Session.awaitContinuation_ok hawait
            rw [run_bind_ok hawait, run_bind_ok hawait]
            rfl

end Method

/-- The handle of a command is one that gets the reply of the command. -/
theorem IdleHandle.interp_stopping (i : CommandId) (s : Session) :
    (IdleHandle.stopping i).interp s = IdleHandle.stop ⟨i, (s.raw.answers i).reply⟩ s := by
  rw [IdleHandle.stopping, IdleHandle.stop, Method.interp_bind, Method.interp_conclude,
    Method.sendSecret_bind i DONE (fun reply => liftM reply.await >>= fun _ => pure ())]
  simp only [bind_assoc, pure_bind, Method.interp_pure]

/-- **The methods are those of the session model.** -/
theorem Operation.interp_method {t : Transport} {p q : Phase} (op : Operation t p q)
    (s : Session) : op.run s
      = ((op.method.interp s).1.map (op.result s.raw.answers), (op.method.interp s).2) := by
  have hsame : ∀ {α : Type} {m : Method α} {n : SessionM α}, m.interp = n →
      n s = ((m.interp s).1.map (fun r => r), (m.interp s).2) := by
    intro α m n h
    rw [h]
    cases n s with
    | mk r s' => cases r <;> rfl
  cases op with
  | refreshCapabilities => exact hsame Method.interp_refreshCapabilities
  | logout => exact hsame Method.interp_logout
  | noop => exact hsame (Method.interp_executed _)
  | login user pass => exact hsame (Method.interp_login user pass)
  | authenticatePlain user pass => exact hsame (Method.interp_authenticatePlain user pass)
  | select mailbox => exact hsame (Method.interp_select mailbox)
  | examine mailbox => exact hsame (Method.interp_examine mailbox)
  | list reference mailboxMask => exact hsame (Method.interp_list reference mailboxMask)
  | fetchRaw set items => exact hsame (Method.interp_fetchRaw set items)
  | fetch set items => exact hsame (Method.interp_fetch set items)
  | fetchBody set => exact hsame (Method.interp_fetchBody set)
  | search query => exact hsame (Method.interp_runSearch _)
  | uidSearch query => exact hsame (Method.interp_runSearch _)
  | store set action flags => exact hsame (Method.interp_store set action flags)
  | uidStore set action flags => exact hsame (Method.interp_uidStore set action flags)
  | expunge => exact hsame (Method.interp_executed_frame _)
  | closeMailbox => exact hsame (Method.interp_executed _)
  | unselect => exact hsame Method.interp_unselect
  | check => exact hsame (Method.interp_executed _)
  | idle => exact Method.interp_idle s
  | moveMessages set mailbox => exact hsame (Method.interp_moveMessages set mailbox)

end ImapRs
