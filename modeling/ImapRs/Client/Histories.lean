import ImapRs.Client.Beside

/-!
# Histories of a caller beside the loops

A caller holds a session and the handles it got from it, as in the session model, but its calls are
made beside the two loops. What can be observed of a history is the calls, in order, and what each
of them returned. Every history that can be observed so is one of the session model: the results
about histories of the session model are results about interleavings.

## Main definitions

* `Observed` — a call, and what it returned
* `LiveCaller`, `Turn`, `Lives` — a caller beside the loops, and its histories
* `Caller.Shows` — the histories of the session model

## Main results

* `live_refines` — every history beside the loops is one of the session model
* `Lives.exists_stop` — a handle can be stopped whatever was called in between
-/

namespace ImapRs

open Incremental Transition

/-! ### What is observed -/

/-- A step of a caller, with what it returned. -/
inductive Observed (t : Transport) where
  | called {p q : Phase} (op : Operation t p q) (r : Except ClientError op.Outcome)
  | stopped (k : ℕ) (r : Except ClientError Unit)
  | dropped (k : ℕ)

/-- The step alone. -/
def Observed.action {t : Transport} : Observed t → Caller.Action t
  | .called op _ => .call op
  | .stopped k _ => .stop k
  | .dropped k => .drop k

/-- In the session model, the step returns the same. -/
def Observed.Agrees {t : Transport} : Observed t → Caller → Prop
  | .called op r, c => (op.run c.session).1 = r.map (op.result c.session.raw.answers)
  | .stopped k r, c => ∃ handle, c.handles[k]? = some handle ∧ (handle.stop c.session).1 = r
  | .dropped _, _ => True

/-- The histories of the session model. -/
inductive Caller.Shows {t : Transport} (c : Caller) : List (Observed t) → Caller → Prop
  | start : Shows c [] c
  | next {os : List (Observed t)} {o : Observed t} {c' c'' : Caller} : Shows c os c' →
      o.Agrees c' → Caller.step o.action c' = some c'' → Shows c (os ++ [o]) c''

/-! ### Callers beside the loops -/

/-- The handle a method hands out. -/
def Operation.granted? {t p q} : (op : Operation t p q) → Except ClientError op.Outcome →
    Option CommandId
  | .idle, .ok i => some i
  | _, _ => none

/-- Whether the method is an `idle` that gave up, from what came of it. -/
def Operation.gaveUpOn {t p q} : (op : Operation t p q) → Except ClientError op.Outcome → Bool
  | .idle, .error .timeout => true
  | _, _ => false

/-- What a caller holds, and what became of its IDLE commands. -/
structure LiveCaller where
  live : Live
  /-- The phase of the session; none once it is consumed. -/
  phase : Option Phase
  /-- The handles that were neither stopped nor dropped. -/
  handles : List CommandId
  /-- The IDLE commands that `idle` returned a handle for. -/
  granted : List CommandId
  /-- Those of them for which no `stop` has queued a `DONE`. -/
  unstopped : List CommandId
  /-- The IDLE commands whose continuation request `idle` did not wait for any longer. -/
  timedOut : List CommandId

namespace LiveCaller

/-- A fresh session. -/
def new (phase : Phase) (capabilities : Capabilities) : LiveCaller where
  live := ⟨.new, capabilities, [], fun _ => .lost, []⟩
  phase := some phase
  handles := []
  granted := []
  unstopped := []
  timedOut := []

/-- After a method. -/
def called {t p q} (c : LiveCaller) (op : Operation t p q) (r : Except ClientError op.Outcome)
    (live : Live) : LiveCaller where
  live := live
  phase := op.phaseAfter (r.map (op.result live.seen))
  handles := c.handles ++ (op.granted? r).toList
  granted := c.granted ++ (op.granted? r).toList
  unstopped := c.unstopped ++ (op.granted? r).toList
  timedOut := c.timedOut ++ if op.gaveUpOn r then [c.live.client.issued] else []

/-- After `stop` on the handle of `i`. -/
def stopped (c : LiveCaller) (k : ℕ) (i : CommandId) (live : Live) : LiveCaller :=
  { c with
    live
    handles := c.handles.eraseIdx k
    unstopped :=
      if (live.seen i).rawAccepted then c.unstopped.filter (· ≠ i) else c.unstopped }

/-- After the handle of `i` was dropped, and its receiver with it. -/
def dropped (c : LiveCaller) (k : ℕ) (i : CommandId) (client : Dispatcher) : LiveCaller :=
  { c with
    live := { c.live with client, waiting := c.live.waiting.filter (· ≠ i) }
    handles := c.handles.eraseIdx k }

/-- The caller of the session model, with an oracle. -/
def caller (c : LiveCaller) (answers : CommandId → Answer) : Caller where
  session := c.live.session answers
  phase := c.phase
  handles := c.handles.map fun i => ⟨i, (answers i).reply⟩
  granted := c.granted
  unstopped := c.unstopped
  timedOut := c.timedOut

end LiveCaller

section Lives

variable (maxFrameSize : ℕ) {t : Transport}

open Dispatcher

/-- A turn of the caller, beside the loops. -/
inductive Turn (c : LiveCaller) : Observed t → LiveCaller → Prop
  | call {p q : Phase} {op : Operation t p q} {r : Except ClientError op.Outcome} {l : Live} :
      c.phase = some p → Dialogue.Plays (Fulfils maxFrameSize) op.method.run c.live r l →
      Turn c (.called op r) (c.called op r l)
  | stop {k : ℕ} {i : CommandId} {r : Except ClientError Unit} {l : Live} :
      c.handles[k]? = some i →
      Dialogue.Plays (Fulfils maxFrameSize) (IdleHandle.stopping i).run c.live r l →
      Turn c (.stopped k r) (c.stopped k i l)
  | drop {k : ℕ} {i : CommandId} {s : Dispatcher} :
      c.handles[k]? = some i → c.live.client.dropReply i = some s →
      Turn c (.dropped k) (c.dropped k i s)

/-- The histories of a caller. The loops go on between the turns, and at any time the caller may
drop what it has, after which it can send nothing. -/
inductive Lives (c : LiveCaller) : List (Observed t) → LiveCaller → Prop
  | start : Lives c [] c
  | loops {os : List (Observed t)} {c' : LiveCaller} {s : Dispatcher} : Lives c os c' →
      Loops maxFrameSize c'.live.client s →
      Lives c os { c' with live := { c'.live with client := s } }
  | leave {os : List (Observed t)} {c' : LiveCaller} {s : Dispatcher} : Lives c os c' →
      c'.live.client.dropHandles = some s →
      Lives c os { c' with live := { c'.live with client := s } }
  | turn {os : List (Observed t)} {o : Observed t} {c' c'' : LiveCaller} : Lives c os c' →
      Turn maxFrameSize c' o c'' → Lives c (os ++ [o]) c''

end Lives

/-! ### Turn by turn -/

section Shows

variable {maxFrameSize : ℕ} {t : Transport} {p q : Phase} {c c' : LiveCaller} {o : Observed t}
  {answers : CommandId → Answer} {i : CommandId}

open Dispatcher

/-- Whether a method succeeds decides the phase. -/
theorem Operation.phaseAfter_map (op : Operation t p q) (r : Except ClientError op.Outcome)
    (f g : op.Outcome → op.Result) : op.phaseAfter (r.map f) = op.phaseAfter (r.map g) := by
  cases r with
  | error e => rfl
  | ok r => cases op <;> rfl

/-- The handle of the session model is that of the command, with the reply it will get. -/
theorem Operation.handle?_map (op : Operation t p q) (r : Except ClientError op.Outcome) :
    (op.handle? (r.map (op.result answers))).toList
      = (op.granted? r).toList.map fun i => ⟨i, (answers i).reply⟩ := by
  cases r with
  | error e => cases op <;> rfl
  | ok r => cases op <;> rfl

theorem Operation.gaveUp_map (op : Operation t p q) (r : Except ClientError op.Outcome)
    (f : op.Outcome → op.Result) : op.gaveUp (r.map f) = op.gaveUpOn r := by
  cases r with
  | error e => cases op <;> cases e <;> rfl
  | ok r => cases op <;> rfl

theorem LiveCaller.call_eq {op : Operation t p q} {r : Except ClientError op.Outcome} {l : Live}
    (hphase : c.phase = some p) (hrun : op.run (c.live.session answers)
      = (r.map (op.result answers), l.session answers)) :
    (c.caller answers).call op = some ((c.called op r l).caller answers) := by
  have hids : ((op.granted? r).toList.map fun i => (⟨i, (answers i).reply⟩ : IdleHandle)).map
      (·.command) = (op.granted? r).toList := by
    rw [List.map_map]
    exact List.map_id _
  unfold Caller.call
  rw [if_pos (show (c.caller answers).phase = some p from hphase),
    show op.run (c.caller answers).session = _ from hrun]
  dsimp only
  rw [op.handle?_map, hids, op.gaveUp_map,
    op.phaseAfter_map r (op.result answers) (op.result l.seen)]
  simp only [LiveCaller.caller, LiveCaller.called, List.map_append]
  rfl

/-- What `stop` asks, and what comes of it. -/
theorem IdleHandle.serves_of_stopping {l l' : Live} {r : Except ClientError Unit}
    (h : Dialogue.Plays (Fulfils maxFrameSize) (IdleHandle.stopping i).run l r l') :
    ∃ r', Fulfils maxFrameSize (.conclude i DONE) l r' l' := by
  cases h with
  | @ask _ _ _ l₁ _ b _ hserve hrest =>
    have hend : l₁ = l' := by
      cases b <;> cases hrest <;> rfl
    exact ⟨b, hend ▸ hserve⟩

/-- What was seen of a conversation is final once it has come to its end. -/
theorem Fulfils.seen_of_conclude {l l' : Live} {bytes : Bytes} {r : Except ClientError Bytes}
    (h : Fulfils maxFrameSize (.conclude i bytes) l r l') (hl : l.Sound maxFrameSize)
    (hfits : l'.Fits answers) : answers i = l'.seen i := by
  have hissued := (h.sound hl).reachable
  cases h with
  | unsent hi hloops _ hdrop =>
    have hquiet := Silently.quiet ((Silently.of_loops hloops).trans (Silently.dropReply hdrop))
    exact (hfits i (hquiet.issued ▸ hl.waiting_lt i hi)).1 (by simp)
  | concluded hi hloops hsend hawait =>
    have hquiet := ((Silently.of_loops hloops).quiet.trans (quiet_sendRaw hsend)).trans
      hawait.silently.quiet
    exact (hfits i (hquiet.issued ▸ hl.waiting_lt i hi)).1 (by simp)

theorem LiveCaller.stop_eq {k : ℕ} {r : Except ClientError Unit} {l : Live}
    (hi : c.handles[k]? = some i) (hanswer : answers i = l.seen i)
    (hrun : IdleHandle.stop ⟨i, (answers i).reply⟩ (c.live.session answers)
      = (r, l.session answers)) :
    (c.caller answers).stop k = some ((c.stopped k i l).caller answers) := by
  have hhandle : (c.caller answers).handles[k]? = some ⟨i, (answers i).reply⟩ := by
    rw [LiveCaller.caller, List.getElem?_map, hi]
    rfl
  unfold Caller.stop
  rw [hhandle, Option.map_some, show (c.caller answers).session = c.live.session answers from rfl,
    hrun]
  simp only [LiveCaller.caller, LiveCaller.stopped, Live.session, List.eraseIdx_map, hanswer]

/-- An oracle that fits after a handle was dropped fitted before. -/
theorem fits_of_drop {l : Live} {s : Dispatcher} (hdrop : l.client.dropReply i = some s)
    (h : Live.Fits { l with client := s, waiting := l.waiting.filter (· ≠ i) } answers) :
    l.Fits answers := by
  cases hdrop
  intro j hj
  have hfits := h j hj
  refine ⟨fun hnot => hfits.1 fun hmem => hnot (List.mem_of_mem_filter hmem), hfits.2⟩

/-- **Every turn is a step of the session model**, with an oracle that fits what comes of it. -/
theorem Turn.shows (h : Turn maxFrameSize c o c') (hc : c.live.Sound maxFrameSize)
    (hfits : c'.live.Fits answers) : c.live.Fits answers ∧ o.Agrees (c.caller answers) ∧
      Caller.step o.action (c.caller answers) = some (c'.caller answers) := by
  cases h with
  | @call p q op r l hphase hplays =>
    obtain ⟨hfits, hrun⟩ := op.run_of_plays hplays hc hfits
    exact ⟨hfits, congrArg Prod.fst hrun, LiveCaller.call_eq hphase hrun⟩
  | @stop k i r l hi hplays =>
    obtain ⟨r', hserve⟩ := IdleHandle.serves_of_stopping hplays
    have hanswer := hserve.seen_of_conclude hc hfits
    obtain ⟨hfits, hrun⟩ := IdleHandle.stop_of_plays hplays hc hfits
    refine ⟨hfits, ⟨⟨i, (answers i).reply⟩, ?_, congrArg Prod.fst hrun⟩,
      LiveCaller.stop_eq hi hanswer hrun⟩
    rw [LiveCaller.caller, List.getElem?_map, hi]
    rfl
  | @drop k i s hi hdrop =>
    refine ⟨fits_of_drop hdrop hfits, trivial, ?_⟩
    cases hdrop
    show some _ = some _
    simp only [LiveCaller.caller, LiveCaller.dropped, Live.session, List.eraseIdx_map]

theorem Turn.sound (h : Turn maxFrameSize c o c') (hc : c.live.Sound maxFrameSize) :
    c'.live.Sound maxFrameSize := by
  cases h with
  | call _ hplays => exact hplays.invariant (fun hl h => h.sound hl) hc
  | stop _ hplays => exact hplays.invariant (fun hl h => h.sound hl) hc
  | @drop k i s _ hdrop => exact (hc.client (Silently.dropReply hdrop)).conclude

/-! ### Histories -/

theorem LiveCaller.caller_client {s : Dispatcher} (hquiet : Quiet c.live.client s) :
    LiveCaller.caller { c with live := { c.live with client := s } } answers
      = c.caller answers := by
  show Caller.mk (Live.session { c.live with client := s } answers) _ _ _ _ _ = _
  rw [session_client hquiet]
  rfl

theorem Lives.sound {os : List (Observed t)} (h : Lives maxFrameSize c os c')
    (hc : c.live.Sound maxFrameSize) : c'.live.Sound maxFrameSize := by
  induction h with
  | start => exact hc
  | loops _ hloops ih => exact ih.client (Silently.of_loops hloops)
  | leave _ hleave ih => exact ih.client (Silently.dropHandles hleave)
  | turn _ hturn ih => exact hturn.sound ih

theorem Lives.shows {os : List (Observed t)} (h : Lives maxFrameSize c os c')
    (hc : c.live.Sound maxFrameSize) (hfits : c'.live.Fits answers) :
    c.live.Fits answers ∧ (c.caller answers).Shows os (c'.caller answers) := by
  induction h with
  | start => exact ⟨hfits, .start⟩
  | @loops os c' s _ hloops ih =>
    have hquiet := (Silently.of_loops hloops).quiet
    obtain ⟨hfits, hshows⟩ := ih (fits_client hquiet hfits)
    refine ⟨hfits, ?_⟩
    rwa [LiveCaller.caller_client hquiet]
  | @leave os c' s _ hleave ih =>
    have hquiet := Silently.quiet (Silently.dropHandles hleave : Silently maxFrameSize _ s)
    obtain ⟨hfits, hshows⟩ := ih (fits_client hquiet hfits)
    refine ⟨hfits, ?_⟩
    rwa [LiveCaller.caller_client hquiet]
  | turn hlives hturn ih =>
    obtain ⟨hfits, hagrees, hstep⟩ := hturn.shows (hlives.sound hc) hfits
    obtain ⟨hfits, hshows⟩ := ih hfits
    exact ⟨hfits, hshows.next hagrees hstep⟩

theorem LiveCaller.sound_new (phase : Phase) (capabilities : Capabilities) :
    (LiveCaller.new phase capabilities).live.Sound maxFrameSize where
  reachable := .start
  waiting_lt _ hj := absurd hj List.not_mem_nil

/-- **Every history beside the loops is one of the session model.** Take what was seen of each
command for the oracle. Then the session model goes through the same calls in the same order, each
of them returns the same, and in the end the session has queued the same and knows the same, and
the caller holds the same. -/
theorem live_refines {phase : Phase} {capabilities : Capabilities} {os : List (Observed t)}
    (h : Lives maxFrameSize (LiveCaller.new phase capabilities) os c) :
    (Caller.new phase capabilities c.live.seen).Shows os (c.caller c.live.seen) :=
  (h.shows (LiveCaller.sound_new phase capabilities) (Live.fits_seen _)).2

end Shows

section Idle

open Dispatcher

/-- The loops write the line of an `IDLE`, and the server asks for more. -/
def grantingSteps : List Action :=
  [.recvRequest, .register, .writeBytes 20, .writeBytes 0, .readBuf (.ok (ascii "+ idling\r\n")),
    .scanBuffer none, .dispatchFrame, .scanBuffer none]

/-- They write its `DONE`, and the server ends the command. -/
def endingSteps : List Action :=
  [.recvRequest, .writeBytes 20, .writeBytes 0, .readBuf (.ok (ascii "A0001 OK done\r\n")),
    .scanBuffer (some 0), .dispatchFrame]

/-- The steps of the two loops, as far as they go. -/
def runLoops : List Action → Dispatcher → Option Dispatcher :=
  runMeeting (step MAX_FRAME_SIZE) fun a _ => a.ofLoops = true

/-- An IDLE that is granted and stopped. -/
def idleHistory : List (Observed .tls) :=
  [.called (.idle : Operation .tls .selected .selected) (.ok (0 : CommandId)),
    .stopped 0 (.ok ())]

theorem nextFrame_of_head? {s : Dispatcher} {i : CommandId} {f : Parsed}
    (h : (s.streams i).queue.head? = some f) : s.nextFrame i = .ready (some f) := by
  obtain ⟨rest, hqueue⟩ := List.head?_eq_some_iff.mp h
  rw [nextFrame, hqueue]

theorem lives_idleHistory : ∃ c,
    Lives MAX_FRAME_SIZE (LiveCaller.new .selected { idle := true }) idleHistory c := by
  have hrun : (do
      let s₁ ← Dispatcher.new.enqueueCommand (ascii "IDLE") (some Session.isContinuationReq)
      let s₂ ← runLoops grantingSteps s₁
      let _ ← (s₂.streams 0).queue.head?
      let s₃ ← s₂.pollStream 0
      let s₄ ← s₃.closeStream 0
      let s₅ ← s₄.drainStream 0
      guard ((s₅.streams 0).receiver = Receiver.gone)
      let s₆ ← s₅.sendRaw DONE
      let s₇ ← runLoops endingSteps s₆
      let r ← s₇.pollReply 0
      r.toOption).isSome = true := by decide +kernel
  obtain ⟨bytes, hrun⟩ := Option.isSome_iff_exists.mp hrun
  simp only [Option.bind_eq_bind, Option.bind_eq_some_iff] at hrun
  obtain ⟨s₁, h₁, s₂, h₂, f, hf, s₃, h₃, s₄, h₄, s₅, h₅, _, hgone, s₆, h₆, s₇, h₇, r, h₈, h₉⟩ :=
    hrun
  have hloops : ∀ {as : List Action} {s s' : Dispatcher}, runLoops as s = some s' →
      Loops MAX_FRAME_SIZE s s' := fun h => reaches_of_runMeeting .start h
  have hgranted : Fulfils MAX_FRAME_SIZE (.converse (ascii "IDLE"))
      (LiveCaller.new .selected { idle := true }).live (.ok 0) _ :=
    .granted (.queued rfl .start h₁)
      (.frame (.start (hloops h₂)) (nextFrame_of_head? hf) h₃ .start)
      ⟨s₄, h₄, .next .start (.inr rfl) h₅, of_decide_eq_true (by simpa using hgone)⟩
  obtain ⟨r, rfl⟩ : ∃ frame, r = .ok frame := by
    cases r with
    | ok frame => exact ⟨frame, rfl⟩
    | error e => cases h₉
  obtain ⟨c, hidle, hclient, hwaiting, hhandles⟩ : ∃ c,
      Turn MAX_FRAME_SIZE (LiveCaller.new .selected { idle := true })
        (.called (.idle : Operation .tls .selected .selected) (.ok (0 : CommandId))) c ∧
      c.live.client = s₅ ∧ 0 ∈ c.live.waiting ∧ c.handles[0]? = some 0 :=
    ⟨_, .call rfl (.ask .capabilities (.ask hgranted .done)), rfl, List.mem_singleton_self 0, rfl⟩
  have hstopped : Fulfils MAX_FRAME_SIZE (.conclude 0 DONE) c.live (.ok r) _ :=
    .concluded hwaiting .start (hclient ▸ h₆) (.intime (.received (hloops h₇) h₈))
  exact ⟨_, (Lives.start.turn hidle).turn (.stop hhandles (.ask hstopped .done))⟩

theorem live_refines_idle : ∃ c,
    Lives MAX_FRAME_SIZE (LiveCaller.new .selected { idle := true }) idleHistory c ∧
    (Caller.new .selected { idle := true } c.live.seen).Shows idleHistory
      (c.caller c.live.seen) := by
  obtain ⟨c, hlives⟩ := lives_idleHistory
  exact ⟨c, hlives, live_refines hlives⟩

end Idle

/-! ### What the calls keep of a conversation -/

section Held

open Dispatcher

variable {maxFrameSize : ℕ} {t : Transport} {p q : Phase} {l l' : Live} {c c' : LiveCaller}
  {i : CommandId}

/-- Only `authenticatePlain` ends a conversation. -/
theorem Operation.plain (op : Operation t p q) (h : op.response? = none) : op.method.Plain := by
  cases op with
  | refreshCapabilities => exact Method.plain_refreshCapabilities
  | logout => exact Dialogue.Asks.bind (Method.plain_execute (ascii "LOGOUT")) fun _ => .done
  | noop => exact Method.plain_executed _
  | login user pass =>
    exact (Method.plain_lift _).bind fun _ => (Method.plain_lift _).bind fun _ =>
      (Method.plain_execute _).bind fun _ => Method.plain_refreshCapabilitiesFromFrame _
  | authenticatePlain user pass => cases h
  | select mailbox => exact (Method.plain_lift _).bind fun _ => Method.plain_executed _
  | examine mailbox => exact (Method.plain_lift _).bind fun _ => Method.plain_executed _
  | list reference mailboxMask =>
    exact (Method.plain_lift _).bind fun _ => (Method.plain_lift _).bind fun _ =>
      Method.plain_execute _
  | fetchRaw set items => exact (Method.plain_lift _).bind fun _ => Method.plain_execute _
  | fetch set items => exact Method.plain_fetch set items
  | fetchBody set => exact (Method.plain_fetch _ _).bind fun _ => Method.plain_pure _
  | search query => exact Method.plain_runSearch _
  | uidSearch query => exact Method.plain_runSearch _
  | store set action flags => exact (Method.plain_lift _).bind fun _ => Method.plain_execute _
  | uidStore set action flags => exact (Method.plain_lift _).bind fun _ => Method.plain_execute _
  | expunge => exact Method.plain_execute _
  | closeMailbox => exact Method.plain_executed _
  | unselect =>
    exact Method.plain_capabilities.bind fun _ =>
      Method.plain_if (Method.plain_throw _) (Method.plain_executed _)
  | check => exact Method.plain_executed _
  | idle =>
    exact Method.plain_capabilities.bind fun _ =>
      Method.plain_if (Method.plain_throw _) (Method.plain_converse _)
  | moveMessages set mailbox =>
    exact Method.plain_capabilities.bind fun _ => Method.plain_if (Method.plain_throw _)
      ((Method.plain_lift _).bind fun _ => (Method.plain_lift _).bind fun _ =>
        Method.plain_execute _)

theorem Enqueues.keeps_waiting {cmd : Bytes} {collector : Option FrameFilter}
    {r : Except ClientError CommandId} (h : Enqueues maxFrameSize cmd collector l r l') :
    l.waiting ⊆ l'.waiting := by
  cases h <;> exact List.Subset.refl _

/-- Only the end of a conversation takes it off. -/
theorem Fulfils.keeps_waiting {q : Call} {b : q.Returns} (h : Fulfils maxFrameSize q l b l')
    (hq : q.Plain) : l.waiting ⊆ l'.waiting := by
  cases h with
  | capabilities => exact List.Subset.refl _
  | setCapabilities => exact List.Subset.refl _
  | notExecuted h => exact h.keeps_waiting
  | notStreamed h => exact h.keeps_waiting
  | notConversed h => exact h.keeps_waiting
  | executed h => exact h.keeps_waiting
  | streamed h => exact h.keeps_waiting
  | streamedLate h => exact h.keeps_waiting
  | granted h => exact List.subset_cons_of_subset _ h.keeps_waiting
  | declined h => exact h.keeps_waiting
  | notGranted h => exact h.keeps_waiting
  | unsent => exact absurd rfl (hq _ _)
  | concluded => exact absurd rfl (hq _ _)

theorem Fulfils.number_of_converse {cmd : Bytes}
    (h : Fulfils maxFrameSize (.converse cmd) l (.ok i) l') (hl : l.Sound maxFrameSize) :
    i = l.client.issued ∧ i ∈ l'.waiting := by
  cases h with
  | granted h => exact ⟨(h.queued_ok hl).number, List.mem_cons_self⟩

theorem Fulfils.waiting_of_conclude {bytes : Bytes} {r : Except ClientError Bytes}
    (h : Fulfils maxFrameSize (.conclude i bytes) l r l') :
    l'.waiting = l.waiting.filter (· ≠ i) := by
  cases h <;> rfl

theorem Method.Plain.keeps_waiting {α : Type} {m : Method α} {r : Except ClientError α}
    (hm : m.Plain) (h : Dialogue.Plays (Fulfils maxFrameSize) m.run l r l') :
    l.waiting ⊆ l'.waiting :=
  h.invariant_of_asks (I := fun l' => l.waiting ⊆ l'.waiting)
    (fun hq hsub h => List.Subset.trans hsub (h.keeps_waiting hq)) hm (List.Subset.refl _)

/-- `authenticatePlain` ends the conversation it began, and no other. -/
theorem Method.authenticatePlain_keeps_waiting {user pass : Str} {r : Except ClientError Unit}
    (h : Dialogue.Plays (Fulfils maxFrameSize) (Method.authenticatePlain user pass).run l r l')
    (hl : l.Sound maxFrameSize) : l.waiting ⊆ l'.waiting := by
  unfold Method.authenticatePlain at h
  split at h
  · exact (Method.plain_throw _).keeps_waiting h
  split at h
  · exact (Method.plain_throw _).keeps_waiting h
  cases h with
  | @ask _ _ _ l₁ _ b _ hconverse h =>
    have hkept : l.waiting ⊆ l₁.waiting :=
      hconverse.keeps_waiting fun _ _ h => Call.noConfusion h
    cases b with
    | error e =>
      cases h
      exact hkept
    | ok i =>
      have hnumber := (hconverse.number_of_converse hl).1
      cases h with
      | @ask _ _ _ l₂ _ b _ hconclude h =>
        have hkept : l.waiting ⊆ l₂.waiting := by
          intro j hj
          rw [hconclude.waiting_of_conclude]
          have hne : j ≠ i := hnumber ▸ Nat.ne_of_lt (hl.waiting_lt j hj)
          exact List.mem_filter.mpr ⟨hkept hj, by simpa using hne⟩
        cases b with
        | error e =>
          cases h
          exact hkept
        | ok frame =>
          exact List.Subset.trans hkept
            ((Method.plain_refreshCapabilitiesFromFrame frame).keeps_waiting h)

theorem Operation.keeps_waiting (op : Operation t p q) {r : Except ClientError op.Outcome}
    (h : Dialogue.Plays (Fulfils maxFrameSize) op.method.run l r l') (hl : l.Sound maxFrameSize) :
    l.waiting ⊆ l'.waiting := by
  cases hresponse : op.response? with
  | none => exact (op.plain hresponse).keeps_waiting h
  | some line =>
    cases op with
    | authenticatePlain user pass => exact Method.authenticatePlain_keeps_waiting h hl
    | _ => cases hresponse

/-- The handle of `idle` is that of a new command, whose reply is still to come. -/
theorem Operation.handle_waits (op : Operation t p q) {r : Except ClientError op.Outcome}
    (h : Dialogue.Plays (Fulfils maxFrameSize) op.method.run l r l') (hl : l.Sound maxFrameSize)
    (hi : op.granted? r = some i) : i = l.client.issued ∧ i ∈ l'.waiting := by
  cases op with
  | idle =>
    cases h with
    | @ask _ _ _ l₁ _ caps _ hcaps h =>
      cases hcaps
      replace h : Dialogue.Plays (Fulfils maxFrameSize)
          (if !l.capabilities.idle then throw (.unsupportedCapability "IDLE")
            else Method.converse (ascii "IDLE") : Method CommandId).run l r l' := h
      split at h
      · cases h
        cases hi
      · cases h with
        | ask hconverse h =>
          cases h
          cases r with
          | error e => cases hi
          | ok j =>
            cases hi
            exact hconverse.number_of_converse hl
  | _ => cases r <;> cases hi

/-- The handles are of different commands, each waiting for its reply. -/
structure LiveCaller.Held (c : LiveCaller) : Prop where
  nodup : c.handles.Nodup
  waits : ∀ i ∈ c.handles, i ∈ c.live.waiting

theorem Turn.held {o : Observed t} (h : Turn maxFrameSize c o c')
    (hc : c.live.Sound maxFrameSize) (hheld : c.Held) : c'.Held := by
  have hoff : ∀ {k : ℕ} {i : CommandId}, c.handles[k]? = some i →
      (c.handles.eraseIdx k).Nodup ∧
        ∀ j ∈ c.handles.eraseIdx k, j ∈ c.live.waiting.filter (· ≠ i) := by
    intro k i hi
    obtain ⟨hk, rfl⟩ := List.getElem?_eq_some_iff.mp hi
    rw [← hheld.nodup.erase_getElem k hk]
    refine ⟨hheld.nodup.erase _, fun j hj => ?_⟩
    obtain ⟨hne, hj⟩ := hheld.nodup.mem_erase_iff.mp hj
    exact List.mem_filter.mpr ⟨hheld.waits j hj, by simpa using hne⟩
  cases h with
  | @call p q op r l hphase hplays =>
    have hkept := op.keeps_waiting hplays hc
    cases hr : op.granted? r with
    | none =>
      refine ⟨?_, fun i hi => ?_⟩
      · simpa [LiveCaller.called, hr] using hheld.nodup
      · exact hkept (hheld.waits i (by simpa [LiveCaller.called, hr] using hi))
    | some i =>
      obtain ⟨hnumber, hwaits⟩ := op.handle_waits hplays hc hr
      have hnew : i ∉ c.handles := fun hmem =>
        Nat.lt_irrefl _ (hnumber ▸ hc.waiting_lt i (hheld.waits i hmem))
      refine ⟨?_, fun j hj => ?_⟩
      · simpa [LiveCaller.called, hr, List.nodup_append, hheld.nodup] using
          fun a ha (heq : a = i) => hnew (heq ▸ ha)
      · have hj : j ∈ c.handles ∨ j = i := by simpa [LiveCaller.called, hr] using hj
        rcases hj with hj | rfl
        · exact hkept (hheld.waits j hj)
        · exact hwaits
  | @stop k i r l hi hplays =>
    obtain ⟨r', hserve⟩ := IdleHandle.serves_of_stopping hplays
    refine ⟨(hoff hi).1, fun j hj => ?_⟩
    show j ∈ l.waiting
    rw [hserve.waiting_of_conclude]
    exact (hoff hi).2 j hj
  | drop hi _ => exact ⟨(hoff hi).1, (hoff hi).2⟩

theorem Lives.held {os : List (Observed t)} (h : Lives maxFrameSize c os c')
    (hc : c.live.Sound maxFrameSize) (hheld : c.Held) : c'.Held := by
  induction h with
  | start => exact hheld
  | loops _ _ ih => exact ⟨ih.nodup, ih.waits⟩
  | leave _ _ ih => exact ⟨ih.nodup, ih.waits⟩
  | turn hlives hturn ih => exact hturn.held (hlives.sound hc) ih

/-- **A handle can be stopped**, whatever was called in between: its command still waits for the
reply, so that only the way to the write loop matters. -/
theorem Lives.exists_stop {phase : Phase} {capabilities : Capabilities} {os : List (Observed t)}
    (h : Lives maxFrameSize (LiveCaller.new phase capabilities) os c) {k : ℕ}
    (hk : k < c.handles.length) (hway : c.live.client.writer = .stopped ∨
      ∃ s, c.live.client.sendRaw DONE = some s) :
    ∃ r c', Lives maxFrameSize (LiveCaller.new phase capabilities)
      (os ++ [.stopped (t := t) k r]) c' := by
  have hheld := h.held (LiveCaller.sound_new phase capabilities)
    ⟨List.nodup_nil, fun _ hi => absurd hi List.not_mem_nil⟩
  have hi : c.handles[k]? = some c.handles[k] := List.getElem?_eq_getElem hk
  have hwaits := hheld.waits _ (List.getElem_mem hk)
  rcases hway with hstopped | ⟨s, hsend⟩
  · exact ⟨_, _, h.turn (.stop hi (.ask (.unsent hwaits .start hstopped rfl) .done))⟩
  · exact ⟨_, _, h.turn (.stop hi (.ask (.concluded hwaits .start hsend (.late .start rfl))
      .done))⟩

end Held

end ImapRs
