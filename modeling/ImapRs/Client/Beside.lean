import ImapRs.Client.Attribution
import ImapRs.Client.Calls
import ImapRs.Client.Courses
import ImapRs.Client.Genuine
import ImapRs.Client.Idle

/-!
# A session beside its loops

The session model takes what the connection does to each command from an oracle. Here a session is
put where it lives: beside the write loop and the read loop, which take their steps at any time,
also in the middle of a method. What a method asks for is done by the steps of the dispatcher, a
timeout fires whenever it likes, and nothing is known beforehand.

The session model says the same. After any history there is an oracle, what was seen of each
command, with which the session model goes through the same calls with the same results, and hands
the same requests to the write loop.

## Main definitions

* `Live`, `Fulfils` — a session beside its loops, and what becomes of a call
* `Live.session` — what the session model has for it

## Main results

* `Fulfils.run` — the session model foresees each answer
* `Operation.run_of_plays` — and with the answers, each method
-/

namespace ImapRs

open Incremental Transition

/-! ### What the dispatcher does for a call -/

namespace Dispatcher

/-- The steps of the two loops. -/
def Action.ofLoops : Action → Bool
  | .recvRequest | .register | .writeBytes _ | .failWrite | .readBuf _ | .scanBuffer _
  | .dispatchFrame | .failAllPending => true
  | _ => false

/-- The steps that hand nothing to the write loop. -/
def Action.silent : Action → Bool
  | .enqueueCommand _ _ | .enqueueLost _ | .sendRaw _ => false
  | _ => true

section

variable (maxFrameSize : ℕ)

/-- The two loops take steps. -/
abbrev Loops (s s' : Dispatcher) : Prop :=
  Reaches (step maxFrameSize) (fun a _ => a.ofLoops = true) s s'

/-- Whatever happens, nothing is handed to the write loop. -/
abbrev Silently (s s' : Dispatcher) : Prop :=
  Reaches (step maxFrameSize) (fun a _ => a.silent = true) s s'

/-- The pending table is dropped with the two loops. -/
def Ended (s : Dispatcher) : Prop := s.reader = .stopped ∧ s.writer = .stopped

/-- The receiver of a tagged response gets it, or finds that the sending half is gone. -/
inductive Receives (i : CommandId) (s : Dispatcher) :
    Except ClientError Bytes → Dispatcher → Prop
  | received {s' r} : Loops maxFrameSize s s' → s'.pollReply i = some r → Receives i s r s'
  | orphaned {s'} : Loops maxFrameSize s s' → s'.Ended →
      Receives i s (.error .connectionClosed) s'

/-- Under a timeout. -/
inductive Awaits (i : CommandId) (s : Dispatcher) : Except ClientError Bytes → Dispatcher → Prop
  | intime {s' r} : Receives maxFrameSize i s r s' → Awaits i s r s'
  | late {s' s''} : Loops maxFrameSize s s' → s'.dropReply i = some s'' →
      Awaits i s (.error .timeout) s''

/-- `next_frame` returns these frames, one after the other. -/
inductive Listens (i : CommandId) (s : Dispatcher) : List Parsed → Dispatcher → Prop
  | start {s'} : Loops maxFrameSize s s' → Listens i s [] s'
  | frame {fs f s' t u} : Listens i s fs s' → s'.nextFrame i = .ready (some f) →
      s'.pollStream i = some t → Loops maxFrameSize t u → Listens i s (fs ++ [f]) u

/-- `next_frame` returns `None`. -/
def StreamEnds (s : Dispatcher) (i : CommandId) : Prop :=
  s.nextFrame i = .ready none ∨ ((s.streams i).queue = [] ∧ s.Ended)

/-- `into_reply` closes the channel, and moves to the broadcast what is in it. -/
def IntoReply (i : CommandId) (s s' : Dispatcher) : Prop :=
  ∃ t, s.closeStream i = some t ∧
    Reaches (step maxFrameSize) (fun a _ => a.ofLoops = true ∨ a = .drainStream i) t s' ∧
    (s'.streams i).receiver = .gone

end

end Dispatcher

/-! ### Sessions -/

/-- A frame the read loop has taken off, as the session model has it. -/
def ServerFrame.ofBytes? (bytes : Bytes) : Option ServerFrame :=
  match h : parseResponse bytes with
  | .ok ([], response) => some ⟨bytes, response, h⟩
  | _ => none

/-- The frames a stream yielded. -/
def serverFrames (fs : List Parsed) : List ServerFrame :=
  fs.filterMap fun f => ServerFrame.ofBytes? f.frame.1

/-- A tagged response, as the session model has it. -/
def Reply.ofResult : Except ClientError Bytes → Reply
  | .error e => .resolved (.error e)
  | .ok bytes =>
    match ServerFrame.ofBytes? bytes with
    | some frame => .resolved (.ok frame)
    | none => .dropped

/-- What is seen of a command that is not taken. -/
def Answer.lost : Answer := ⟨false, [], false, .dropped⟩

/-- A session beside its loops. -/
structure Live where
  client : Dispatcher
  capabilities : Capabilities
  /-- Ghost: everything handed to the write loop, in order. -/
  queued : List WriteRequest
  /-- Ghost: what was seen of each command. -/
  seen : CommandId → Answer
  /-- The commands whose continuation request was received, and whose reply was not awaited. -/
  waiting : List CommandId

/-- A command has come to its end. -/
def Live.settle (l : Live) (client : Dispatcher) (i : CommandId) (a : Answer) : Live :=
  { l with client, seen := Function.update l.seen i a }

section Fulfils

variable (maxFrameSize : ℕ)

open Dispatcher

/-- `enqueue_command`. The send fails when the write loop is gone. -/
inductive Enqueues (cmd : Bytes) (collector : Option FrameFilter) (l : Live) :
    Except ClientError CommandId → Live → Prop
  | refused {e} : rejectLineBreaks cmd = .error e → Enqueues cmd collector l (.error e) l
  | lost {s s'} : rejectLineBreaks cmd = .ok () → Loops maxFrameSize l.client s →
      s.writer = .stopped → s.enqueueLost cmd = some s' →
      Enqueues cmd collector l (.error .connectionClosed) (l.settle s' s.issued .lost)
  | queued {s s'} : rejectLineBreaks cmd = .ok () → Loops maxFrameSize l.client s →
      s.enqueueCommand cmd collector = some s' →
      Enqueues cmd collector l (.ok s.issued) { l with
        client := s'
        queued := l.queued ++
          [.command (commandLine s.nextTag.1 cmd) s.nextTag.1 s.issued collector] }

/-- What `await_continuation` makes of a tagged response that comes first. -/
def declined : Except ClientError Bytes → ClientError
  | .error e => e
  | .ok _ => .commandFailed
      "server completed the command without a continuation request".toList

/-- What may become of a call, beside the two loops. -/
inductive Fulfils : (q : Call) → Live → q.Returns → Live → Prop
  | capabilities {l} : Fulfils .capabilities l l.capabilities l
  | setCapabilities {l caps} : Fulfils (.setCapabilities caps) l () { l with capabilities := caps }
  | notExecuted {l l' cmd e} : Enqueues maxFrameSize cmd none l (.error e) l' →
      Fulfils (.execute cmd) l (.error e) l'
  | executed {l l' cmd i r s} : Enqueues maxFrameSize cmd none l (.ok i) l' →
      Awaits maxFrameSize i l'.client r s →
      Fulfils (.execute cmd) l r (l'.settle s i ⟨true, [], true, .ofResult r⟩)
  | notStreamed {l l' cmd wants e} : Enqueues maxFrameSize cmd (some wants) l (.error e) l' →
      Fulfils (.stream cmd wants) l (.error e) l'
  | streamed {l l' cmd wants i fs s t r u} :
      Enqueues maxFrameSize cmd (some wants) l (.ok i) l' →
      Listens maxFrameSize i l'.client fs s → s.StreamEnds i → IntoReply maxFrameSize i s t →
      Awaits maxFrameSize i t r u →
      Fulfils (.stream cmd wants) l (.ok (fs.map (·.frame.1), r))
        (l'.settle u i ⟨true, serverFrames fs, true, .ofResult r⟩)
  | streamedLate {l l' cmd wants i fs s t} :
      Enqueues maxFrameSize cmd (some wants) l (.ok i) l' →
      Listens maxFrameSize i l'.client fs s → s.dropStream i = some t →
      Fulfils (.stream cmd wants) l (.ok (fs.map (·.frame.1), .error .timeout))
        (l'.settle t i ⟨true, serverFrames fs, true, .late⟩)
  | notConversed {l l' cmd e} :
      Enqueues maxFrameSize cmd (some Session.isContinuationReq) l (.error e) l' →
      Fulfils (.converse cmd) l (.error e) l'
  | granted {l l' cmd i f s t} :
      Enqueues maxFrameSize cmd (some Session.isContinuationReq) l (.ok i) l' →
      Listens maxFrameSize i l'.client [f] s → IntoReply maxFrameSize i s t →
      Fulfils (.converse cmd) l (.ok i) { l'.settle t i ⟨true, serverFrames [f], true, .late⟩ with
        waiting := i :: l'.waiting }
  | declined {l l' cmd i s t r u} :
      Enqueues maxFrameSize cmd (some Session.isContinuationReq) l (.ok i) l' →
      Listens maxFrameSize i l'.client [] s → s.StreamEnds i → IntoReply maxFrameSize i s t →
      Receives maxFrameSize i t r u →
      Fulfils (.converse cmd) l (.error (declined r)) (l'.settle u i ⟨true, [], true, .ofResult r⟩)
  | notGranted {l l' cmd i s t} :
      Enqueues maxFrameSize cmd (some Session.isContinuationReq) l (.ok i) l' →
      Listens maxFrameSize i l'.client [] s → s.dropStream i = some t →
      Fulfils (.converse cmd) l (.error .timeout) (l'.settle t i ⟨true, [], true, .late⟩)
  | unsent {l i bytes s s'} : i ∈ l.waiting → Loops maxFrameSize l.client s →
      s.writer = .stopped → s.dropReply i = some s' →
      Fulfils (.conclude i bytes) l (.error .connectionClosed)
        { l.settle s' i { l.seen i with rawAccepted := false } with
          waiting := l.waiting.filter (· ≠ i) }
  | concluded {l i bytes s t r u} : i ∈ l.waiting → Loops maxFrameSize l.client s →
      s.sendRaw bytes = some t → Awaits maxFrameSize i t r u →
      Fulfils (.conclude i bytes) l r
        { l.settle u i { l.seen i with rawAccepted := true, reply := .ofResult r } with
          queued := l.queued ++ [.raw bytes]
          waiting := l.waiting.filter (· ≠ i) }

end Fulfils

/-! ### What the session model has -/

/-- The session, with an oracle. -/
def Live.session (l : Live) (answers : CommandId → Answer) : Session :=
  ⟨⟨l.client.tagCounter, l.client.issued, l.queued, answers⟩, l.capabilities⟩

/-- The oracle has said what was seen. Of a command whose reply is still to be awaited, it has said
that its continuation request comes. -/
def Live.Fits (l : Live) (answers : CommandId → Answer) : Prop :=
  ∀ i < l.client.issued,
    (i ∉ l.waiting → answers i = l.seen i) ∧
    (answers i).accepted = (l.seen i).accepted ∧ (answers i).untagged = (l.seen i).untagged

/-- What every call keeps. -/
structure Live.Sound (maxFrameSize : ℕ) (l : Live) : Prop where
  reachable : Dispatcher.Reachable maxFrameSize l.client
  waiting_lt : ∀ i ∈ l.waiting, i < l.client.issued

/-! ### The steps of the dispatcher -/

namespace Dispatcher

variable {maxFrameSize : ℕ} {a : Action} {i : CommandId} {s s' t : Dispatcher}

theorem silent_of_ofLoops (h : a.ofLoops = true) : a.silent = true := by
  cases a <;> first | rfl | cases h

theorem Silently.of_loops (h : Loops maxFrameSize s s') : Silently maxFrameSize s s' :=
  h.invariant .start fun _ hloops hstep ih => ih.next (silent_of_ofLoops hloops) hstep

theorem Silently.reachable (h : Silently maxFrameSize s s') (hs : Reachable maxFrameSize s) :
    Reachable maxFrameSize s' :=
  h.invariant hs fun _ _ hstep ih => ih.next trivial hstep

theorem Silently.dropStream (h : s.dropStream i = some s') : Silently maxFrameSize s s' :=
  .next .start rfl (show step maxFrameSize (.dropStream i) s = _ from h)

theorem Silently.dropHandles (h : s.dropHandles = some s') : Silently maxFrameSize s s' :=
  .next .start rfl (show step maxFrameSize .dropHandles s = _ from h)

theorem Silently.dropReply (h : s.dropReply i = some s') : Silently maxFrameSize s s' :=
  .next .start rfl (show step maxFrameSize (.dropReply i) s = _ from h)

/-- What a step leaves of a command that was issued before. -/
structure Quiet (s s' : Dispatcher) : Prop where
  tagCounter : s'.tagCounter = s.tagCounter
  issued : s'.issued = s.issued
  filter : ∀ i < s.issued, (s'.streams i).filter = (s.streams i).filter

theorem Quiet.trans (h : Quiet s t) (h' : Quiet t s') : Quiet s s' where
  tagCounter := h'.tagCounter.trans h.tagCounter
  issued := h'.issued.trans h.issued
  filter i hi := (h'.filter i (h.issued ▸ hi)).trans (h.filter i hi)

theorem Moves.quiet (hm : Moves maxFrameSize s a s') (h : a.silent = true) : Quiet s s' := by
  refine ⟨?_, ?_, fun i hi => (hm.evolves hi).filter⟩
  all_goals cases hm <;> first | rfl | cases h

theorem Silently.quiet (h : Silently maxFrameSize s s') : Quiet s s' :=
  h.invariant ⟨rfl, rfl, fun _ _ => rfl⟩ fun _ hsilent hstep ih =>
    ih.trans ((moves_of_step hstep).quiet hsilent)

theorem Receives.silently {r : Except ClientError Bytes} (h : Receives maxFrameSize i s r s') :
    Silently maxFrameSize s s' := by
  cases h with
  | received hloops _ => exact .of_loops hloops
  | orphaned hloops _ => exact .of_loops hloops

theorem Awaits.silently {r : Except ClientError Bytes} (h : Awaits maxFrameSize i s r s') :
    Silently maxFrameSize s s' := by
  cases h with
  | intime h => exact h.silently
  | late hloops hdrop => exact (Silently.of_loops hloops).trans (Silently.dropReply hdrop)

theorem Listens.silently {fs : List Parsed} (h : Listens maxFrameSize i s fs s') :
    Silently maxFrameSize s s' := by
  induction h with
  | start hloops => exact .of_loops hloops
  | frame _ _ hpoll hloops ih =>
    exact (ih.next rfl (show step maxFrameSize (.pollStream i) _ = _ from hpoll)).trans
      (Silently.of_loops hloops)

theorem IntoReply.silently (h : IntoReply maxFrameSize i s s') : Silently maxFrameSize s s' := by
  obtain ⟨t, hclose, hdrain, -⟩ := h
  have hclosed : Silently maxFrameSize s t :=
    .next .start rfl (show step maxFrameSize (.closeStream i) _ = _ from hclose)
  refine hdrain.invariant hclosed fun _ hC hstep ih => ?_
  rcases hC with hloops | rfl
  · exact ih.next (silent_of_ofLoops hloops) hstep
  · exact ih.next rfl hstep

/-! ### What a caller gets -/

theorem pollStream_open (h : s.pollStream i = some s') : (s.streams i).receiver = .open := by
  unfold pollStream at h
  dsimp only at h
  split at h
  next hopen _ => exact hopen
  next hopen _ => exact hopen
  · cases h

theorem Listens.genuine {fs : List Parsed} {wants : FrameFilter}
    (h : Listens maxFrameSize i s fs s') (hs : Reachable maxFrameSize s) (hi : i < s.issued)
    (hfilter : (s.streams i).filter = some wants) :
    ∀ f ∈ fs, responseFramer.Complete f.frame ∧ wants f.frame.2 = true := by
  induction h with
  | start => simp
  | @frame fs f s' t u hbefore hnext hpoll _ ih =>
    intro g hg
    rcases List.mem_append.mp hg with hg | hg
    · exact ih g hg
    · obtain rfl := List.mem_singleton.mp hg
      have hs' : Reachable maxFrameSize s' := hbefore.silently.reachable hs
      obtain ⟨hcomplete, wants', hfilter', hwants⟩ := (genuine_of_reachable hs').of_nextFrame
        (conserved_of_reachable hs') (pollStream_open hpoll) hnext
      have hsame : some wants' = some wants :=
        hfilter'.symm.trans ((hbefore.silently.quiet.filter i hi).trans hfilter)
      cases hsame
      exact ⟨hcomplete, hwants⟩

theorem Receives.genuine {bytes : Bytes} (h : Receives maxFrameSize i s (.ok bytes) s')
    (hs : Reachable maxFrameSize s) : ∃ response, responseFramer.Complete (bytes, response) := by
  cases h with
  | received hloops hpoll =>
    exact (genuine_of_reachable ((Silently.of_loops hloops).reachable hs)).of_pollReply hpoll

theorem Awaits.genuine {bytes : Bytes} (h : Awaits maxFrameSize i s (.ok bytes) s')
    (hs : Reachable maxFrameSize s) : ∃ response, responseFramer.Complete (bytes, response) := by
  cases h with
  | intime h => exact h.genuine hs

end Dispatcher

/-! ### Frames and replies in the session model -/

theorem ServerFrame.ofBytes?_of_complete {f : Frame} (h : responseFramer.Complete f) :
    ServerFrame.ofBytes? f.1 = some ⟨f.1, f.2, h⟩ := by
  have hparse : parseResponse f.1 = .ok ([], f.2) := h
  rw [ServerFrame.ofBytes?]
  split
  next response hok =>
    cases hparse.symm.trans hok
    rfl
  next hnot => exact absurd hparse (hnot _)

theorem serverFrames_bytes {fs : List Parsed} (h : ∀ f ∈ fs, responseFramer.Complete f.frame) :
    (serverFrames fs).map (·.bytes) = fs.map (·.frame.1) := by
  induction fs with
  | nil => rfl
  | cons f fs ih =>
    obtain ⟨hf, hfs⟩ := List.forall_mem_cons.mp h
    rw [serverFrames, List.filterMap_cons, ServerFrame.ofBytes?_of_complete hf, List.map_cons,
      List.map_cons]
    exact congrArg _ (ih hfs)

/-- The filter of the session model keeps all that the stream brought. -/
theorem serverFrames_filter {fs : List Parsed} {wants : FrameFilter}
    (h : ∀ f ∈ fs, responseFramer.Complete f.frame ∧ wants f.frame.2 = true) :
    (serverFrames fs).filter (fun frame => wants frame.response) = serverFrames fs := by
  refine List.filter_eq_self.mpr fun frame hframe => ?_
  obtain ⟨f, hf, hframe⟩ := List.mem_filterMap.mp hframe
  obtain ⟨hcomplete, hwants⟩ := h f hf
  rw [ServerFrame.ofBytes?_of_complete hcomplete] at hframe
  cases hframe
  exact hwants

theorem await_ofResult {r : Except ClientError Bytes}
    (h : ∀ bytes, r = .ok bytes → ∃ response, responseFramer.Complete (bytes, response)) :
    (Reply.ofResult r).await.map (·.bytes) = r := by
  cases r with
  | error e => rfl
  | ok bytes =>
    obtain ⟨response, hcomplete⟩ := h bytes rfl
    rw [Reply.ofResult, ServerFrame.ofBytes?_of_complete hcomplete]
    rfl

/-! ### Each call is foreseen -/

section Foreseen

open Dispatcher

variable {maxFrameSize : ℕ} {l l' : Live} {answers : CommandId → Answer} {i : CommandId}

theorem hasLineBreaks_of_rejected {cmd : Bytes} (h : rejectLineBreaks cmd = .ok ()) :
    hasLineBreaks cmd = false := by
  rw [rejectLineBreaks] at h
  split at h
  · cases h
  next hbreaks => simpa using hbreaks

/-- What queueing a command leaves, when it goes through. -/
structure Queued (maxFrameSize : ℕ) (cmd : Bytes) (collector : Option FrameFilter) (l : Live)
    (i : CommandId) (l' : Live) : Prop where
  number : i = l.client.issued
  issued : l'.client.issued = l.client.issued + 1
  seen : l'.seen = l.seen
  waiting : l'.waiting = l.waiting
  reachable : Reachable maxFrameSize l'.client
  filter : ∀ wants, collector = some wants → (l'.client.streams i).filter = some wants
  /-- The session model queues the same, if the oracle has said that the command is taken. -/
  run : ∀ answers : CommandId → Answer, (answers i).accepted = true →
    RawClient.enqueueCommand cmd collector (l.session answers) = (.ok i, l'.session answers)

/-- A command that is queued, and the channel made for it. -/
theorem enqueueCommand_eq_some {cmd : Bytes} {collector : Option FrameFilter} {s s' : Dispatcher}
    (hbreaks : hasLineBreaks cmd = false) (h : s.enqueueCommand cmd collector = some s') :
    ∃ streams, s' = { s with
        tagCounter := s.tagCounter + 1
        issued := s.issued + 1
        queue := s.queue ++ [.command (commandLine s.nextTag.1 cmd) s.nextTag.1 s.issued collector]
        streams := streams } ∧
      ∀ wants, collector = some wants → (streams s.issued).filter = some wants := by
  unfold Dispatcher.enqueueCommand at h
  rw [if_neg (by simp [hbreaks])] at h
  split at h
  · cases h
  · cases h
  · split at h
    · cases h
      refine ⟨_, rfl, ?_⟩
      rintro wants rfl
      simp
    · cases h

theorem Enqueues.queued_ok {cmd : Bytes} {collector : Option FrameFilter}
    (h : Enqueues maxFrameSize cmd collector l (.ok i) l') (hl : l.Sound maxFrameSize) :
    Queued maxFrameSize cmd collector l i l' := by
  cases h with
  | @queued s s' hok hloops hstep =>
    have hquiet := (Silently.of_loops hloops).quiet
    have hbreaks := hasLineBreaks_of_rejected hok
    have hreach : Reachable maxFrameSize s' :=
      ((Silently.of_loops hloops).reachable hl.reachable).next trivial
        (show step maxFrameSize (.enqueueCommand cmd collector) _ = _ from hstep)
    obtain ⟨streams, rfl, hfilter⟩ := enqueueCommand_eq_some hbreaks hstep
    refine ⟨hquiet.issued, congrArg (· + 1) hquiet.issued, rfl, rfl, hreach, hfilter, ?_⟩
    intro answers haccepted
    rw [hquiet.issued] at haccepted ⊢
    rw [enqueueCommand_accepted hbreaks haccepted collector, RawClient.afterCommand]
    simp only [Live.session, nextTag, hquiet.tagCounter, RawClient.allocate, RawClient.push]

/-- An oracle that fits the end of a command fits its beginning, and has said what was seen. -/
theorem fits_of_settle {s : Dispatcher} {a : Answer} (hl : l.Sound maxFrameSize)
    (hi : i = l.client.issued) (hissued : s.issued = l.client.issued + 1) (hseen : l'.seen = l.seen)
    (hwaiting : l'.waiting = l.waiting) (h : (l'.settle s i a).Fits answers) :
    l.Fits answers ∧ answers i = a := by
  have hi' : i ∉ l.waiting := fun hmem => Nat.lt_irrefl _ (hi ▸ hl.waiting_lt i hmem)
  refine ⟨fun j hj => ?_, ?_⟩
  · have hfits := h j (show j < s.issued from hissued ▸ Nat.lt_succ_of_lt hj)
    have hne : j ≠ i := hi ▸ Nat.ne_of_lt hj
    simp only [Live.settle, Function.update_of_ne hne, hseen, hwaiting] at hfits
    exact hfits
  · have hlt : i < s.issued := hissued ▸ hi ▸ Nat.lt_succ_self _
    have hfits := (h i hlt).1 (by rwa [Live.settle, hwaiting])
    simpa [Live.settle] using hfits

/-- A command that is refused, or that nobody takes any more. -/
theorem Enqueues.run_error {cmd : Bytes} {collector : Option FrameFilter} {e : ClientError}
    (h : Enqueues maxFrameSize cmd collector l (.error e) l') (hl : l.Sound maxFrameSize)
    (hfits : l'.Fits answers) : l.Fits answers ∧
      RawClient.enqueueCommand cmd collector (l.session answers)
        = (.error e, l'.session answers) := by
  cases h with
  | refused he => exact ⟨hfits, run_lift_bind_error he⟩
  | @lost s s' hok hloops hstopped hstep =>
    have hquiet := (Silently.of_loops hloops).quiet
    unfold Dispatcher.enqueueLost at hstep
    rw [if_neg (by simp [hasLineBreaks_of_rejected hok])] at hstep
    split at hstep
    · cases hstep
      obtain ⟨hfits, hlost⟩ := fits_of_settle hl hquiet.issued
        (congrArg (· + 1) hquiet.issued) rfl rfl hfits
      refine ⟨hfits, ?_⟩
      have haccepted : ((l.session answers).raw.answers (l.session answers).raw.issued).accepted
          = false := by
        rw [show (l.session answers).raw.issued = s.issued from hquiet.issued.symm]
        exact congrArg Answer.accepted hlost
      rw [RawClient.enqueueCommand, run_lift_bind_ok hok, run_get_bind,
        if_neg (by simp [haccepted])]
      simp only [Live.session, Live.settle, nextTag, hquiet.tagCounter, hquiet.issued,
        RawClient.allocate]
      rfl
    · cases hstep

/-- A conversation that comes to its end. -/
theorem fits_of_conclude {s : Dispatcher} {a : Answer} {queued : List WriteRequest}
    (hl : l.Sound maxFrameSize) (hi : i ∈ l.waiting) (hissued : s.issued = l.client.issued)
    (h : Live.Fits { l.settle s i a with queued, waiting := l.waiting.filter (· ≠ i) } answers)
    (haccepted : a.accepted = (l.seen i).accepted)
    (huntagged : a.untagged = (l.seen i).untagged) : l.Fits answers ∧ answers i = a := by
  have hanswer : answers i = a := by
    have hfits := (h i (show i < s.issued from hissued ▸ hl.waiting_lt i hi)).1 (by simp)
    simpa [Live.settle] using hfits
  refine ⟨fun j hj => ?_, hanswer⟩
  by_cases hne : j = i
  · subst hne
    exact ⟨fun hnot => absurd hi hnot, by rw [hanswer, haccepted], by rw [hanswer, huntagged]⟩
  · have hfits := h j (show j < s.issued from hissued ▸ hj)
    simp only [Live.settle, Function.update_of_ne hne] at hfits
    exact ⟨fun hnot => hfits.1 fun hmem => hnot (List.mem_of_mem_filter hmem), hfits.2⟩

/-- A conversation that begins. -/
theorem fits_of_grant {s : Dispatcher} {a : Answer}
    (hi : i = l.client.issued) (hissued : s.issued = l.client.issued + 1) (hseen : l'.seen = l.seen)
    (hwaiting : l'.waiting = l.waiting)
    (h : Live.Fits { l'.settle s i a with waiting := i :: l'.waiting } answers) :
    l.Fits answers ∧ (answers i).accepted = a.accepted ∧ (answers i).untagged = a.untagged := by
  refine ⟨fun j hj => ?_, ?_⟩
  · have hfits := h j (show j < s.issued from hissued ▸ Nat.lt_succ_of_lt hj)
    have hne : j ≠ i := hi ▸ Nat.ne_of_lt hj
    simp only [Live.settle, Function.update_of_ne hne, hseen, hwaiting, List.mem_cons, hne,
      false_or] at hfits
    exact hfits
  · have hfits := (h i (show i < s.issued from hissued ▸ hi ▸ Nat.lt_succ_self _)).2
    simpa [Live.settle] using hfits

/-- A line behind a continuation request changes the queue only. -/
theorem quiet_sendRaw {s s' : Dispatcher} {bytes : Bytes} (h : s.sendRaw bytes = some s') :
    Quiet s s' := by
  unfold Dispatcher.sendRaw at h
  split at h
  · cases h
  · cases h
  · split at h
    · cases h
      exact ⟨rfl, rfl, fun _ _ => rfl⟩
    · cases h

/-- What the session model does not see. -/
theorem session_client {s : Dispatcher} (hquiet : Quiet l.client s) :
    Live.session { l with client := s } answers = l.session answers := by
  simp only [Live.session, hquiet.tagCounter, hquiet.issued]

theorem session_settle {s : Dispatcher} {a : Answer} (hquiet : Quiet l.client s) :
    (l.settle s i a).session answers = l.session answers := session_client hquiet

theorem Live.fits_seen (l : Live) : l.Fits l.seen := fun _ _ => ⟨fun _ => rfl, rfl, rfl⟩

theorem fits_client {s : Dispatcher} (hquiet : Quiet l.client s)
    (h : Live.Fits { l with client := s } answers) : l.Fits answers :=
  fun j hj => h j (hquiet.issued.symm ▸ hj)

/-! ### Call by call -/

theorem Queued.run_execute {cmd : Bytes} (hq : Queued maxFrameSize cmd none l i l')
    (haccepted : (answers i).accepted = true) :
    Call.run (.execute cmd) (l.session answers)
      = ((answers i).reply.await.map (·.bytes), l'.session answers) := by
  have hrun : RawClient.executeCommand cmd (l.session answers)
      = ((answers i).reply.await, l'.session answers) := by
    rw [RawClient.executeCommand, run_bind_ok (hq.run answers haccepted), run_get_bind, run_lift]
    rfl
  rw [Method.run_execute, hrun]

theorem Queued.run_stream {cmd : Bytes} {wants : FrameFilter}
    (hq : Queued maxFrameSize cmd (some wants) l i l') (haccepted : (answers i).accepted = true) :
    Call.run (.stream cmd wants) (l.session answers)
      = (.ok (((answers i).streamed wants).map (·.bytes),
          (answers i).reply.await.map (·.bytes)), l'.session answers) := by
  have hrun : RawClient.executeStreaming cmd wants (l.session answers)
      = (.ok ((answers i).streamed wants, (answers i).reply.await), l'.session answers) := by
    rw [RawClient.executeStreaming, run_bind_ok (hq.run answers haccepted), run_get_bind]
    rfl
  refine (run_map _ _ _).trans ?_
  rw [hrun]
  rfl

theorem Queued.run_converse {cmd : Bytes}
    (hq : Queued maxFrameSize cmd (some Session.isContinuationReq) l i l')
    (haccepted : (answers i).accepted = true) :
    Call.run (.converse cmd) (l.session answers)
      = ((Session.continuation (answers i)).map (fun _ => i), l'.session answers) := by
  have hawait : Session.awaitContinuation i (l'.session answers)
      = (Session.continuation (answers i), l'.session answers) := by
    rw [Session.awaitContinuation, run_get_bind, run_lift]
    rfl
  refine (run_bind_ok (hq.run answers haccepted)).trans ?_
  cases hcontinue : Session.continuation (answers i) with
  | error e => exact run_bind_error (hawait.trans (by rw [hcontinue]))
  | ok reply => exact run_bind_ok (hawait.trans (by rw [hcontinue]))

theorem run_conclude {bytes : Bytes} (s : Session) (h : (s.raw.answers i).rawAccepted = true) :
    Call.run (.conclude i bytes) s = ((s.raw.answers i).reply.await.map (·.bytes),
      { s with raw := s.raw.push (.raw bytes) }) := by
  refine (run_bind_ok (sendSecret_accepted h)).trans ?_
  rw [run_get_bind]
  cases hreply : (s.raw.answers i).reply.await with
  | error e => exact run_lift_bind_error hreply
  | ok frame => exact run_lift_bind_ok hreply

/-- What `await_continuation` makes of a timeout. -/
theorem continuation_late {a : Answer} (h : a.untagged = []) (hreply : a.reply = .late) :
    Session.continuation a = .error .timeout := by
  have hstreamed : a.streamed Session.isContinuationReq = [] := by
    rw [Answer.streamed, h]
    rfl
  rw [Session.continuation, hstreamed, hreply]

/-- What it makes of a tagged response without a continuation request. -/
theorem continuation_declined {a : Answer} {r : Except ClientError Bytes} (h : a.untagged = [])
    (hreply : a.reply = .ofResult r)
    (hgenuine : ∀ bytes, r = .ok bytes → ∃ response, responseFramer.Complete (bytes, response)) :
    Session.continuation a = .error (declined r) := by
  have hstreamed : a.streamed Session.isContinuationReq = [] := by
    rw [Answer.streamed, h]
    rfl
  rw [Session.continuation, hstreamed, hreply]
  cases r with
  | error e => rfl
  | ok bytes =>
    obtain ⟨response, hcomplete⟩ := hgenuine bytes rfl
    rw [Reply.ofResult, ServerFrame.ofBytes?_of_complete hcomplete]
    rfl

/-- What it makes of a continuation request. -/
theorem continuation_granted {a : Answer} {f : Parsed} (h : a.untagged = serverFrames [f])
    (hcomplete : responseFramer.Complete f.frame)
    (hwants : Session.isContinuationReq f.frame.2 = true) :
    Session.continuation a = .ok a.reply := by
  have hstreamed : a.streamed Session.isContinuationReq = [⟨f.frame.1, f.frame.2, hcomplete⟩] := by
    rw [Answer.streamed, h, serverFrames, List.filterMap_cons,
      ServerFrame.ofBytes?_of_complete hcomplete]
    simp [hwants]
  rw [Session.continuation, hstreamed]

/-- **The session model foresees each answer**, with an oracle that fits what comes of it. -/
theorem Fulfils.run {q : Call} {b : q.Returns} (h : Fulfils maxFrameSize q l b l')
    (hl : l.Sound maxFrameSize) (hfits : l'.Fits answers) :
    l.Fits answers ∧ q.run (l.session answers) = (b, l'.session answers) := by
  cases h with
  | capabilities => exact ⟨hfits, rfl⟩
  | setCapabilities => exact ⟨hfits, rfl⟩
  | notExecuted h =>
    obtain ⟨hfits, hrun⟩ := h.run_error hl hfits
    refine ⟨hfits, (Method.run_execute _ _).trans ?_⟩
    rw [RawClient.executeCommand, run_bind_error hrun]
    rfl
  | notStreamed h =>
    obtain ⟨hfits, hrun⟩ := h.run_error hl hfits
    refine ⟨hfits, (run_map _ _ _).trans ?_⟩
    rw [RawClient.executeStreaming, run_bind_error hrun]
    rfl
  | notConversed h =>
    obtain ⟨hfits, hrun⟩ := h.run_error hl hfits
    exact ⟨hfits, run_bind_error hrun⟩
  | @executed _ l₁ cmd i r s hq hawait =>
    have hq := hq.queued_ok hl
    have hquiet := hawait.silently.quiet
    obtain ⟨hfits, hanswer⟩ := fits_of_settle hl hq.number (hquiet.issued.trans hq.issued) hq.seen
      hq.waiting hfits
    refine ⟨hfits, ?_⟩
    rw [session_settle hquiet, hq.run_execute (by rw [hanswer]), hanswer]
    exact Prod.ext (await_ofResult fun bytes hok => (hok ▸ hawait).genuine hq.reachable) rfl
  | @streamed _ l₁ cmd wants i fs s t r u hq hlisten _ hinto hawait =>
    have hq := hq.queued_ok hl
    have hreach : Reachable maxFrameSize t := hinto.silently.reachable
      (hlisten.silently.reachable hq.reachable)
    have hquiet := (hlisten.silently.quiet.trans hinto.silently.quiet).trans hawait.silently.quiet
    obtain ⟨hfits, hanswer⟩ := fits_of_settle hl hq.number (hquiet.issued.trans hq.issued) hq.seen
      hq.waiting hfits
    have hgenuine := hlisten.genuine hq.reachable (hq.number ▸ hq.issued ▸ Nat.lt_succ_self _)
      (hq.filter wants rfl)
    refine ⟨hfits, ?_⟩
    rw [session_settle hquiet, hq.run_stream (by rw [hanswer]), hanswer, Answer.streamed,
      serverFrames_filter hgenuine, serverFrames_bytes fun f hf => (hgenuine f hf).1,
      await_ofResult fun bytes hok => (hok ▸ hawait).genuine hreach]
  | @streamedLate _ l₁ cmd wants i fs s t hq hlisten hdrop =>
    have hq := hq.queued_ok hl
    have hquiet := Silently.quiet (hlisten.silently.trans (Silently.dropStream hdrop))
    obtain ⟨hfits, hanswer⟩ := fits_of_settle hl hq.number (hquiet.issued.trans hq.issued) hq.seen
      hq.waiting hfits
    have hgenuine := hlisten.genuine hq.reachable (hq.number ▸ hq.issued ▸ Nat.lt_succ_self _)
      (hq.filter wants rfl)
    refine ⟨hfits, ?_⟩
    rw [session_settle hquiet, hq.run_stream (by rw [hanswer]), hanswer, Answer.streamed,
      serverFrames_filter hgenuine, serverFrames_bytes fun f hf => (hgenuine f hf).1]
    rfl
  | @granted _ l₁ cmd i f s t hq hlisten hinto =>
    have hq := hq.queued_ok hl
    have hquiet := hlisten.silently.quiet.trans hinto.silently.quiet
    obtain ⟨hfits, haccepted, huntagged⟩ := fits_of_grant hq.number
      (hquiet.issued.trans hq.issued) hq.seen hq.waiting hfits
    obtain ⟨hcomplete, hwants⟩ := hlisten.genuine hq.reachable
      (hq.number ▸ hq.issued ▸ Nat.lt_succ_self _) (hq.filter _ rfl) f (List.mem_singleton_self f)
    refine ⟨hfits, ?_⟩
    rw [hq.run_converse haccepted, continuation_granted huntagged hcomplete hwants]
    refine Prod.ext rfl ?_
    simp only [Live.session, Live.settle, hquiet.tagCounter, hquiet.issued]
  | @declined _ l₁ cmd i s t r u hq hlisten _ hinto hreceive =>
    have hq := hq.queued_ok hl
    have hreach : Reachable maxFrameSize t := hinto.silently.reachable
      (hlisten.silently.reachable hq.reachable)
    have hquiet := (hlisten.silently.quiet.trans hinto.silently.quiet).trans hreceive.silently.quiet
    obtain ⟨hfits, hanswer⟩ := fits_of_settle hl hq.number (hquiet.issued.trans hq.issued) hq.seen
      hq.waiting hfits
    refine ⟨hfits, ?_⟩
    rw [session_settle hquiet, hq.run_converse (by rw [hanswer]), continuation_declined
      (by rw [hanswer]) (congrArg Answer.reply hanswer)
      fun bytes hok => (hok ▸ hreceive).genuine hreach]
    rfl
  | @notGranted _ l₁ cmd i s t hq hlisten hdrop =>
    have hq := hq.queued_ok hl
    have hquiet := Silently.quiet (hlisten.silently.trans (Silently.dropStream hdrop))
    obtain ⟨hfits, hanswer⟩ := fits_of_settle hl hq.number (hquiet.issued.trans hq.issued) hq.seen
      hq.waiting hfits
    refine ⟨hfits, ?_⟩
    rw [session_settle hquiet, hq.run_converse (by rw [hanswer]),
      continuation_late (by rw [hanswer]) (by rw [hanswer])]
    rfl
  | @unsent _ i bytes s s' hi hloops _ hdrop =>
    have hquiet := Silently.quiet ((Silently.of_loops hloops).trans (Silently.dropReply hdrop))
    obtain ⟨hfits, hanswer⟩ := fits_of_conclude hl hi hquiet.issued hfits rfl rfl
    refine ⟨hfits, (run_bind_error (sendSecret_refused ?_)).trans ?_⟩
    · show (answers i).rawAccepted = false
      rw [hanswer]
    · simp only [Live.session, Live.settle, hquiet.tagCounter, hquiet.issued]
  | @concluded _ i bytes s t r u hi hloops hsend hawait =>
    have hloops := Silently.of_loops hloops
    have hreach : Reachable maxFrameSize t := (hloops.reachable hl.reachable).next trivial
      (show step maxFrameSize (.sendRaw bytes) _ = _ from hsend)
    have hquiet := (hloops.quiet.trans (quiet_sendRaw hsend)).trans hawait.silently.quiet
    obtain ⟨hfits, hanswer⟩ := fits_of_conclude hl hi hquiet.issued hfits rfl rfl
    refine ⟨hfits, (run_conclude _ ?_).trans ?_⟩
    · show (answers i).rawAccepted = true
      rw [hanswer]
    · refine Prod.ext ?_ ?_
      · show (answers i).reply.await.map (·.bytes) = r
        rw [hanswer]
        exact await_ofResult fun bytes hok => (hok ▸ hawait).genuine hreach
      · simp only [Live.session, Live.settle, hquiet.tagCounter, hquiet.issued, RawClient.push]

/-! ### What every call keeps -/

/-- Steps that hand nothing over. -/
theorem Live.Sound.client {s : Dispatcher} (hl : l.Sound maxFrameSize)
    (h : Silently maxFrameSize l.client s) :
    Live.Sound maxFrameSize { l with client := s } where
  reachable := h.reachable hl.reachable
  waiting_lt j hj := by
    show j < s.issued
    rw [h.quiet.issued]
    exact hl.waiting_lt j hj

theorem Live.Sound.settle {s : Dispatcher} (hl : l.Sound maxFrameSize)
    (h : Silently maxFrameSize l.client s) (a : Answer) : (l.settle s i a).Sound maxFrameSize where
  reachable := h.reachable hl.reachable
  waiting_lt := (hl.client h).waiting_lt

theorem Queued.sound {cmd : Bytes} {collector : Option FrameFilter}
    (hq : Queued maxFrameSize cmd collector l i l') (hl : l.Sound maxFrameSize) :
    l'.Sound maxFrameSize where
  reachable := hq.reachable
  waiting_lt j hj := by
    rw [hq.issued]
    exact Nat.lt_succ_of_lt (hl.waiting_lt j (hq.waiting ▸ hj))

theorem Enqueues.sound_error {cmd : Bytes} {collector : Option FrameFilter} {e : ClientError}
    (h : Enqueues maxFrameSize cmd collector l (.error e) l') (hl : l.Sound maxFrameSize) :
    l'.Sound maxFrameSize := by
  cases h with
  | refused => exact hl
  | @lost s s' hok hloops _ hstep =>
    have hloops := Silently.of_loops hloops
    refine ⟨(hloops.reachable hl.reachable).next trivial
      (show step maxFrameSize (.enqueueLost cmd) _ = _ from hstep), fun j hj => ?_⟩
    unfold Dispatcher.enqueueLost at hstep
    rw [if_neg (by simp [hasLineBreaks_of_rejected hok])] at hstep
    split at hstep
    · cases hstep
      show j < s.issued + 1
      rw [hloops.quiet.issued]
      exact Nat.lt_succ_of_lt (hl.waiting_lt j hj)
    · cases hstep

/-- A conversation that comes to its end is not waited for any more. -/
theorem Live.Sound.conclude {queued : List WriteRequest} (hl : l.Sound maxFrameSize) :
    Live.Sound maxFrameSize { l with queued, waiting := l.waiting.filter (· ≠ i) } where
  reachable := hl.reachable
  waiting_lt j hj := hl.waiting_lt j (List.mem_of_mem_filter hj)

theorem Fulfils.sound {q : Call} {b : q.Returns} (h : Fulfils maxFrameSize q l b l')
    (hl : l.Sound maxFrameSize) : l'.Sound maxFrameSize := by
  cases h with
  | capabilities => exact hl
  | setCapabilities => exact ⟨hl.reachable, hl.waiting_lt⟩
  | notExecuted h => exact h.sound_error hl
  | notStreamed h => exact h.sound_error hl
  | notConversed h => exact h.sound_error hl
  | executed hq hawait => exact ((hq.queued_ok hl).sound hl).settle hawait.silently _
  | streamed hq hlisten _ hinto hawait =>
    exact ((hq.queued_ok hl).sound hl).settle
      ((hlisten.silently.trans hinto.silently).trans hawait.silently) _
  | streamedLate hq hlisten hdrop =>
    exact ((hq.queued_ok hl).sound hl).settle (hlisten.silently.trans (Silently.dropStream hdrop)) _
  | @granted _ l₁ cmd i f s t hq hlisten hinto =>
    have hq := hq.queued_ok hl
    have hquiet : Silently maxFrameSize l₁.client t := hlisten.silently.trans hinto.silently
    have hsound := (hq.sound hl).settle (i := i) hquiet
      ⟨true, serverFrames [f], true, .late⟩
    refine ⟨hsound.reachable, fun j hj => ?_⟩
    rcases List.mem_cons.mp hj with rfl | hj
    · show j < t.issued
      rw [hquiet.quiet.issued, hq.issued, ← hq.number]
      exact Nat.lt_succ_self j
    · exact hsound.waiting_lt j hj
  | declined hq hlisten _ hinto hreceive =>
    exact ((hq.queued_ok hl).sound hl).settle
      ((hlisten.silently.trans hinto.silently).trans hreceive.silently) _
  | notGranted hq hlisten hdrop =>
    exact ((hq.queued_ok hl).sound hl).settle (hlisten.silently.trans (Silently.dropStream hdrop)) _
  | unsent _ hloops _ hdrop =>
    exact (hl.settle ((Silently.of_loops hloops).trans (Silently.dropReply hdrop)) _).conclude
  | @concluded _ i bytes s t r u _ hloops hsend hawait =>
    have hloops := Silently.of_loops hloops
    have hsent : Live.Sound maxFrameSize { l with client := t } := by
      refine ⟨(hloops.reachable hl.reachable).next trivial
        (show step maxFrameSize (.sendRaw bytes) _ = _ from hsend), fun j hj => ?_⟩
      show j < t.issued
      rw [(hloops.quiet.trans (quiet_sendRaw hsend)).issued]
      exact hl.waiting_lt j hj
    exact (hsent.settle hawait.silently _).conclude

/-- A program beside the loops is the program of the session model, for an oracle that fits. -/
theorem Method.interp_of_plays {α : Type} {m : Method α} {r : Except ClientError α}
    (h : Dialogue.Plays (Fulfils maxFrameSize) m.run l r l') (hl : l.Sound maxFrameSize)
    (hfits : l'.Fits answers) : l.Fits answers ∧
      m.interp (l.session answers) = (r, l'.session answers) := by
  have heval : l.Fits answers ∧
      m.run.eval Call.run (l.session answers) = (r, l'.session answers) :=
    h.eval (fun hl h => h.sound hl) (fun hl h hfits => h.run hl hfits) hl hfits
  exact heval

/-- **A method beside the loops** is the method of the session model. -/
theorem Operation.run_of_plays {t : Transport} {p q : Phase} (op : Operation t p q)
    {r : Except ClientError op.Outcome}
    (h : Dialogue.Plays (Fulfils maxFrameSize) op.method.run l r l') (hl : l.Sound maxFrameSize)
    (hfits : l'.Fits answers) : l.Fits answers ∧
      op.run (l.session answers) = (r.map (op.result answers), l'.session answers) := by
  obtain ⟨hfits, hinterp⟩ := Method.interp_of_plays h hl hfits
  refine ⟨hfits, ?_⟩
  rw [Operation.interp_method, hinterp]
  rfl

/-- So is `stop`. -/
theorem IdleHandle.stop_of_plays {r : Except ClientError Unit}
    (h : Dialogue.Plays (Fulfils maxFrameSize) (IdleHandle.stopping i).run l r l')
    (hl : l.Sound maxFrameSize) (hfits : l'.Fits answers) : l.Fits answers ∧
      IdleHandle.stop ⟨i, (answers i).reply⟩ (l.session answers) = (r, l'.session answers) := by
  obtain ⟨hfits, hinterp⟩ := Method.interp_of_plays h hl hfits
  exact ⟨hfits, (IdleHandle.interp_stopping i (l.session answers)).symm.trans hinterp⟩

end Foreseen

end ImapRs
