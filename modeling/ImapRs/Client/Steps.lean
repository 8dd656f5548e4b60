import ImapRs.Client.Dispatcher

/-!
# What a step can do

`Moves` lists the steps of the dispatcher one by one: the guard under which each is taken and the
state it leads to. `moves_of_step` says that the list is complete, so that an invariant is one case
a line of it.
-/

namespace ImapRs.Dispatcher

open Transition

variable {maxFrameSize : ℕ} {a : Action} {s s' : Dispatcher}

/-- The steps of the dispatcher. -/
inductive Moves (maxFrameSize : ℕ) (s : Dispatcher) : Action → Dispatcher → Prop
  /-- A refused command, or a poll that returns `None`. -/
  | stay {a : Action} : Moves maxFrameSize s a s
  | enqueue {cmd collector} : s.writer ≠ .stopped →
      Moves maxFrameSize s (.enqueueCommand cmd collector) { s with
        tagCounter := s.tagCounter + 1
        issued := s.issued + 1
        queue := s.queue ++ [.command (commandLine (formatTag s.tagCounter.toNat) cmd)
          (formatTag s.tagCounter.toNat) s.issued collector]
        streams := match collector with
          | some wants => Function.update s.streams s.issued ⟨some wants, .open, [], [], [], []⟩
          | none => s.streams }
  | lost {cmd} : Moves maxFrameSize s (.enqueueLost cmd)
      { s with tagCounter := s.tagCounter + 1, issued := s.issued + 1 }
  | raw {bytes} : Moves maxFrameSize s (.sendRaw bytes) { s with queue := s.queue ++ [.raw bytes] }
  | dropHandles : Moves maxFrameSize s .dropHandles { s with handles := false }
  | dropReply {i} : Moves maxFrameSize s (.dropReply i) { s with abandoned := i :: s.abandoned }
  | yield {i f rest} : (s.streams i).receiver = .open → (s.streams i).queue = f :: rest →
      Moves maxFrameSize s (.pollStream i) (s.setStream i { s.streams i with
        queue := rest, yielded := (s.streams i).yielded ++ [f] })
  | close {i} : (s.streams i).receiver = .open →
      Moves maxFrameSize s (.closeStream i) (s.setStream i { s.streams i with receiver := .closed })
  | drain {i f rest} : (s.streams i).receiver = .closed → (s.streams i).queue = f :: rest →
      Moves maxFrameSize s (.drainStream i) { s.setStream i { s.streams i with queue := rest } with
        broadcast := s.broadcast ++ [f] }
  | drained {i} : (s.streams i).receiver = .closed → (s.streams i).queue = [] →
      Moves maxFrameSize s (.drainStream i) (s.setStream i { s.streams i with receiver := .gone })
  | dropStream {i} : (s.streams i).receiver = .open →
      Moves maxFrameSize s (.dropStream i) { s.setStream i { s.streams i with
          receiver := .gone
          queue := []
          discarded := (s.streams i).discarded ++ (s.streams i).queue } with
        abandoned := i :: s.abandoned }
  | recvCommand {bytes tag i collector queue} : s.writer = .idle →
      s.queue = .command bytes tag i collector :: queue →
      Moves maxFrameSize s .recvRequest
        { s with queue, writer := .registering bytes tag i collector }
  | recvRaw {bytes queue} : s.writer = .idle → s.queue = .raw bytes :: queue →
      Moves maxFrameSize s .recvRequest { s with queue, writer := .writing none bytes }
  | recvNone : s.writer = .idle → s.queue = [] →
      Moves maxFrameSize s .recvRequest { s with writer := .stopped }
  | register {bytes tag i collector} : s.writer = .registering bytes tag i collector →
      Moves maxFrameSize s .register { s with
        pending := s.pending.register tag i collector
        registered := s.registered ++ [i]
        writer := .writing (some i) bytes }
  | wrote {n command rest} : s.writer = .writing command rest →
      Moves maxFrameSize s (.writeBytes n) { s with
        writer := .writing command (rest.drop n)
        sent := s.sent ++ [(command, rest.take n)] }
  | written {n command} : s.writer = .writing command [] →
      Moves maxFrameSize s (.writeBytes n)
        { s with writer := .idle, received := s.received ++ command.toList }
  | writeFailed {command rest} : s.writer = .writing command rest →
      Moves maxFrameSize s .failWrite { s with writer := .stopped, queue := [] }
  | readEnd {buffer r e} : s.reader = .reading buffer →
      Moves maxFrameSize s (.readBuf r) { s with reader := .failing e }
  | readMore {buffer r bytes} : s.reader = .reading buffer →
      Moves maxFrameSize s (.readBuf r) { s with reader := .scanning (buffer ++ bytes) }
  | scanFrame {buffer owner frame rest} : s.reader = .scanning buffer →
      scan maxFrameSize buffer = .frame frame rest →
      Moves maxFrameSize s (.scanBuffer owner) { s with
        reader := .dispatching (s.routeFor frame.2) ⟨frame, s.parsed.length, owner⟩ rest
        parsed := s.parsed ++ [⟨frame, s.parsed.length, owner⟩]
        streams := s.markRouted (s.routeFor frame.2) ⟨frame, s.parsed.length, owner⟩ }
  | scanWait {buffer owner} : s.reader = .scanning buffer →
      Moves maxFrameSize s (.scanBuffer owner) { s with reader := .reading buffer }
  | scanStop {buffer owner e} : s.reader = .scanning buffer →
      Moves maxFrameSize s (.scanBuffer owner) { s with reader := .failing e }
  | resolve {tag status text p buffer tx} :
      s.reader = .dispatching (.tagged tag status text) p buffer →
      s.pending.replies.lookup tag.bytes = some tx →
      Moves maxFrameSize s .dispatchFrame { s with
        pending := (s.pending.complete tag.bytes).2
        resolved := s.resolved ++ [⟨tx, taggedResult status text p.frame.1, some p,
          !s.abandoned.contains tx⟩]
        reader := .scanning buffer }
  | unclaimed {tag status text p buffer} :
      s.reader = .dispatching (.tagged tag status text) p buffer →
      s.pending.replies.lookup tag.bytes = none →
      Moves maxFrameSize s .dispatchFrame { s with
        pending := (s.pending.complete tag.bytes).2
        broadcast := s.broadcast ++ [p]
        reader := .scanning buffer }
  | push {tx p buffer} : s.reader = .dispatching (.stream tx) p buffer →
      (s.streams tx).receiver = .open →
      Moves maxFrameSize s .dispatchFrame { s.setStream tx { s.streams tx with
          queue := (s.streams tx).queue ++ [p] } with reader := .scanning buffer }
  | unsent {tx p buffer} : s.reader = .dispatching (.stream tx) p buffer →
      (s.streams tx).receiver ≠ .open →
      Moves maxFrameSize s .dispatchFrame
        { s with broadcast := s.broadcast ++ [p], reader := .scanning buffer }
  | publish {p buffer} : s.reader = .dispatching .broadcast p buffer →
      Moves maxFrameSize s .dispatchFrame
        { s with broadcast := s.broadcast ++ [p], reader := .scanning buffer }
  | failAll {e} : s.reader = .failing e →
      Moves maxFrameSize s .failAllPending { s with
        pending := ⟨[], []⟩
        resolved := s.resolved ++ s.pending.replies.map fun r =>
          ⟨r.2, .error e, none, !s.abandoned.contains r.2⟩
        reader := .stopped }

theorem moves_enqueueCommand {cmd : Bytes} {collector : Option FrameFilter}
    (h : s.enqueueCommand cmd collector = some s') :
    Moves maxFrameSize s (.enqueueCommand cmd collector) s' := by
  unfold enqueueCommand at h
  split at h
  · cases h
    exact .stay
  split at h
  · cases h
  · cases h
  next hw =>
    split at h
    · cases h
      exact .enqueue hw
    · cases h

theorem moves_sendRaw {bytes : Bytes} (h : s.sendRaw bytes = some s') :
    Moves maxFrameSize s (.sendRaw bytes) s' := by
  unfold sendRaw at h
  split at h
  · cases h
  · cases h
  next =>
    split at h
    · cases h
      exact .raw
    · cases h

theorem moves_pollStream {i : CommandId} (h : s.pollStream i = some s') :
    Moves maxFrameSize s (.pollStream i) s' := by
  unfold pollStream at h
  simp only at h
  split at h
  next f hopen hnext =>
    cases h
    rw [nextFrame] at hnext
    split at hnext
    next f' rest hq =>
      cases hnext
      rw [hq]
      exact .yield hopen hq
    · split at hnext <;> cases hnext
  · cases h
    exact .stay
  · cases h

theorem moves_drainStream {i : CommandId} (h : s.drainStream i = some s') :
    Moves maxFrameSize s (.drainStream i) s' := by
  unfold drainStream at h
  simp only at h
  split at h
  next f rest hc hq =>
    cases h
    exact .drain hc hq
  next hc hq =>
    cases h
    exact .drained hc hq
  · cases h

theorem moves_recvRequest (h : s.recvRequest = some s') : Moves maxFrameSize s .recvRequest s' := by
  unfold recvRequest at h
  split at h
  next hw hq =>
    cases h
    exact .recvCommand hw hq
  next hw hq =>
    cases h
    exact .recvRaw hw hq
  next hw hq =>
    split at h
    · cases h
    · cases h
      exact .recvNone hw hq
  · cases h

theorem moves_writeBytes {n : ℕ} (h : s.writeBytes n = some s') :
    Moves maxFrameSize s (.writeBytes n) s' := by
  unfold writeBytes at h
  split at h
  next hw =>
    cases h
    exact .written hw
  next hw =>
    split at h
    · cases h
      exact .wrote hw
    · cases h
  · cases h

theorem moves_readBuf {r : ReadResult} (h : s.readBuf r = some s') :
    Moves maxFrameSize s (.readBuf r) s' := by
  unfold readBuf at h
  split at h
  next hr =>
    split at h <;> cases h
    · exact .readEnd hr
    · exact .readMore hr
    · exact .readEnd hr
  · cases h

theorem moves_scanBuffer {owner : Option CommandId}
    (h : s.scanBuffer maxFrameSize owner = some s') :
    Moves maxFrameSize s (.scanBuffer owner) s' := by
  unfold scanBuffer at h
  split at h
  next hr =>
    split at h
    next hs =>
      cases h
      exact .scanFrame hr hs
    · cases h
      exact .scanWait hr
    · cases h
      exact .scanStop hr
  · cases h

theorem moves_dispatchFrame (h : s.dispatchFrame = some s') :
    Moves maxFrameSize s .dispatchFrame s' := by
  unfold dispatchFrame at h
  split at h
  next tag status text p buffer hr =>
    split at h
    next pending hc =>
      cases h
      obtain ⟨hl, rfl⟩ := Prod.mk.inj hc
      exact .unclaimed hr hl
    next tx pending hc =>
      cases h
      obtain ⟨hl, rfl⟩ := Prod.mk.inj hc
      exact .resolve hr hl
  next tx p buffer hr =>
    simp only at h
    split at h
    next hopen =>
      split at h
      · cases h
        exact .push hr hopen
      · cases h
    next hclosed =>
      cases h
      exact .unsent hr hclosed
  next p buffer hr =>
    cases h
    exact .publish hr
  · cases h

/-- **The list of steps is complete.** -/
theorem moves_of_step (h : step maxFrameSize a s = some s') : Moves maxFrameSize s a s' := by
  cases a with
  | enqueueCommand cmd collector => exact moves_enqueueCommand h
  | enqueueLost cmd =>
    have h : s.enqueueLost cmd = some s' := h
    unfold enqueueLost at h
    split at h
    · cases h
      exact .stay
    split at h
    · cases h
      exact .lost
    · cases h
  | sendRaw bytes => exact moves_sendRaw h
  | dropHandles =>
    cases h
    exact .dropHandles
  | dropReply i =>
    cases h
    exact .dropReply
  | pollStream i => exact moves_pollStream h
  | closeStream i =>
    have h : s.closeStream i = some s' := h
    unfold closeStream at h
    simp only at h
    split at h
    next hopen =>
      cases h
      exact .close hopen
    · cases h
  | drainStream i => exact moves_drainStream h
  | dropStream i =>
    have h : s.dropStream i = some s' := h
    unfold dropStream at h
    simp only at h
    split at h
    next hopen =>
      cases h
      exact .dropStream hopen
    · cases h
  | recvRequest => exact moves_recvRequest h
  | register =>
    have h : s.register = some s' := h
    unfold register at h
    split at h
    next hw =>
      cases h
      exact .register hw
    · cases h
  | writeBytes n => exact moves_writeBytes h
  | failWrite =>
    have h : s.failWrite = some s' := h
    unfold failWrite at h
    split at h
    next hw =>
      cases h
      exact .writeFailed hw
    · cases h
  | readBuf r => exact moves_readBuf h
  | scanBuffer owner => exact moves_scanBuffer h
  | dispatchFrame => exact moves_dispatchFrame h
  | failAllPending =>
    have h : s.failAllPending = some s' := h
    unfold failAllPending at h
    split at h
    next hr =>
      cases h
      exact .failAll hr
    · cases h

end ImapRs.Dispatcher
