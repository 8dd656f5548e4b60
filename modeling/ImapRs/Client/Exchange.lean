import ImapRs.Client.Conservation
import ImapRs.Client.CommandLines
import ImapRs.Client.Teardown
import ImapRs.Transition.Inevitable

/-!
# A streaming command from end to end

`execute_streaming` as a party of its own, beside the write loop, the read loop and a server. The
caller borrows the session, so nothing else is sent in the meantime; every interleaving of the four
is a run.

The server's bytes are of three kinds: those under way when the call is made, the frames it sends
for the command, and what comes after: a tagged response, or something that is not a frame, or the
end of the connection. They arrive in pieces of any size. Nothing in the client makes sure that the
command is registered before the connection ends, so this is a condition on a step.

## Main definitions

* `Script` — what the server sends
* `Exchange`, `Exchange.step` — the four parties
* `Exchange.AnswersInTime` — nothing of the answer comes before the command is registered
* `Exchange.measure` — how much is left to do

## Main results

* `Exchange.measure_lt` — every step leaves less to do
-/

namespace ImapRs

open Incremental Transition

/-! ### The server -/

/-- How the answer to the command ends. -/
inductive Ending where
  /-- A tagged response, and any bytes after it. -/
  | tagged (frame : Frame) (more : Bytes)
  /-- Bytes that do not begin with a frame. -/
  | broken (tail : Bytes)

def Ending.bytes : Ending → Bytes
  | .tagged frame more => frame.1 ++ more
  | .broken tail => tail

/-- What the server sends. -/
structure Script where
  /-- Frames under way when the call is made. -/
  early : List Frame
  /-- The frames of the answer. -/
  frames : List Frame
  ending : Ending
  /-- Whether the connection ends after the last byte, and if so, whether by an error. -/
  closes : Option Bool

/-- What a read returns at the end of the connection. -/
def endOfStream (failed : Bool) : ReadResult := if failed then .error else .ok []

/-- What the server sends for the command. -/
def Script.answer (script : Script) : Bytes := wire script.frames ++ script.ending.bytes

/-! ### The parties -/

/-- Where `execute_streaming` stands. -/
inductive Stage where
  /-- In `send_command_streaming`. -/
  | calling
  /-- In the loop over `next_frame`. -/
  | polling
  /-- In `into_reply`, before and after the channel is closed. -/
  | closing
  | draining
  /-- Waiting for the tagged response. -/
  | awaiting
  | returned (result : Except ClientError Bytes)
  deriving DecidableEq

/-- What the call returned. -/
def Stage.result? : Stage → Option (Except ClientError Bytes)
  | .returned result => some result
  | _ => none

/-- The caller, the client with its two loops, and the connection. -/
structure Exchange where
  client : Dispatcher
  stage : Stage
  /-- The frames given to `on_frame`. -/
  frames : List Bytes
  /-- Bytes sent by the server and not read yet. -/
  incoming : Bytes
  /-- The answer, as long as the server has not sent it. -/
  withheld : Bytes

/-- The call is made, with `incoming` under way. -/
def Exchange.start (client : Dispatcher) (incoming : Bytes) (script : Script) : Exchange :=
  ⟨client, .calling, [], incoming, script.answer⟩

namespace Exchange

/-- The steps of the exchange. -/
inductive Action where
  | enqueue
  | poll
  | close
  | drain
  | reply
  | recvRequest
  | register
  | writeBytes (n : ℕ)
  | answer
  | read (n : ℕ)
  | finish
  | scan
  | dispatch
  | failAll

/-- Whether the answer, or the end of the connection, arrives. -/
def Action.answers : Action → Bool
  | .answer | .finish => true
  | _ => false

/-- The answer, and the end of the connection, come after the command is registered. -/
def AnswersInTime (i : CommandId) (a : Action) (x : Exchange) : Prop :=
  a.answers = true → i ∈ x.client.registered

end Exchange

/-- What the receiver of `i`'s reply gets: the first thing sent on it, or an error once the sending
half is gone. -/
def Dispatcher.pollReply (s : Dispatcher) (i : CommandId) :
    Option (Except ClientError Bytes) :=
  match s.resolved.find? (·.command == i) with
  | some r => some r.result
  | none => if s.hasReplySender i then none else some (.error .connectionClosed)

namespace Exchange

section Step

variable (maxFrameSize : ℕ) (cmd : Bytes) (wants : FrameFilter) (i : CommandId) (script : Script)

/-- A step of the client's loops. -/
def loop (f : Dispatcher → Option Dispatcher) (x : Exchange) : Option Exchange :=
  (f x.client).map fun client => { x with client }

/-- `send_command_streaming`: a command with a line break is refused, any other is queued. -/
def enqueue (x : Exchange) : Option Exchange :=
  if x.stage = .calling then
    match rejectLineBreaks cmd with
    | .error e => some { x with stage := .returned (.error e) }
    | .ok () =>
      (x.client.enqueueCommand cmd (some wants)).map fun client =>
        { x with client, stage := .polling }
  else none

/-- `next_frame`: a frame goes to `on_frame`, `None` ends the loop. -/
def poll (x : Exchange) : Option Exchange :=
  if x.stage = .polling then
    match x.client.nextFrame i with
    | .pending => none
    | .ready (some f) =>
      (x.client.pollStream i).map fun client => { x with client, frames := x.frames ++ [f.frame.1] }
    | .ready none => some { x with stage := .closing }
  else none

/-- `into_reply` closes the channel. -/
def close (x : Exchange) : Option Exchange :=
  if x.stage = .closing then
    (x.client.closeStream i).map fun client => { x with client, stage := .draining }
  else none

/-- `into_reply` takes one frame out of the closed channel, or is done. -/
def drain (x : Exchange) : Option Exchange :=
  if x.stage = .draining then
    (x.client.drainStream i).map fun client =>
      { x with
        client
        stage := if (client.streams i).receiver = .gone then .awaiting else .draining }
  else none

def reply (x : Exchange) : Option Exchange :=
  if x.stage = .awaiting then
    (x.client.pollReply i).map fun result => { x with stage := .returned result }
  else none

/-- The server answers. -/
def answer (x : Exchange) : Option Exchange :=
  if x.withheld ≠ [] then
    some { x with incoming := x.incoming ++ x.withheld, withheld := [] }
  else none

/-- A read returns some of the bytes that are there. -/
def read (n : ℕ) (x : Exchange) : Option Exchange :=
  if x.incoming.take n ≠ [] then
    (x.client.readBuf (.ok (x.incoming.take n))).map fun client =>
      { x with client, incoming := x.incoming.drop n }
  else none

/-- The read after the last byte. -/
def finish (x : Exchange) : Option Exchange :=
  match script.closes with
  | some failed =>
    if x.incoming = [] ∧ x.withheld = [] then
      loop (Dispatcher.readBuf (endOfStream failed)) x
    else none
  | none => none

def step : Action → Exchange → Option Exchange
  | .enqueue => enqueue cmd wants
  | .poll => poll i
  | .close => close i
  | .drain => drain i
  | .reply => reply i
  | .recvRequest => loop Dispatcher.recvRequest
  | .register => loop Dispatcher.register
  | .writeBytes n => loop (Dispatcher.writeBytes n)
  | .answer => answer
  | .read n => read n
  | .finish => finish script
  | .scan => loop (Dispatcher.scanBuffer maxFrameSize none)
  | .dispatch => loop Dispatcher.dispatchFrame
  | .failAll => loop Dispatcher.failAllPending

end Step

/-! ### What a step can do -/

/-- The steps of the write loop. -/
def OfWriter : Dispatcher.Action → Prop
  | .recvRequest | .register | .writeBytes _ => True
  | _ => False

/-- The steps of the exchange. -/
inductive Moves (maxFrameSize : ℕ) (cmd : Bytes) (wants : FrameFilter) (i : CommandId)
    (script : Script) (x : Exchange) : Action → Exchange → Prop
  | refuse {e} : x.stage = .calling → hasLineBreaks cmd = true →
      Moves maxFrameSize cmd wants i script x .enqueue { x with stage := .returned (.error e) }
  | enqueue {client} : x.stage = .calling → hasLineBreaks cmd = false →
      x.client.enqueueCommand cmd (some wants) = some client →
      Moves maxFrameSize cmd wants i script x .enqueue { x with client, stage := .polling }
  | frame {f rest} : x.stage = .polling → (x.client.streams i).queue = f :: rest →
      Moves maxFrameSize cmd wants i script x .poll { x with
        client := x.client.setStream i { x.client.streams i with
          queue := rest, yielded := (x.client.streams i).yielded ++ [f] }
        frames := x.frames ++ [f.frame.1] }
  | ended : x.stage = .polling → x.client.nextFrame i = .ready none →
      Moves maxFrameSize cmd wants i script x .poll { x with stage := .closing }
  | close : x.stage = .closing → (x.client.streams i).receiver = .open →
      Moves maxFrameSize cmd wants i script x .close { x with
        client := x.client.setStream i { x.client.streams i with receiver := .closed }
        stage := .draining }
  | drain {f rest} : x.stage = .draining → (x.client.streams i).receiver = .closed →
      (x.client.streams i).queue = f :: rest →
      Moves maxFrameSize cmd wants i script x .drain { x with
        client := { x.client.setStream i { x.client.streams i with queue := rest } with
          broadcast := x.client.broadcast ++ [f] } }
  | drained : x.stage = .draining → (x.client.streams i).receiver = .closed →
      Moves maxFrameSize cmd wants i script x .drain { x with
        client := x.client.setStream i { x.client.streams i with receiver := .gone }
        stage := .awaiting }
  | reply {result} : x.stage = .awaiting → x.client.pollReply i = some result →
      Moves maxFrameSize cmd wants i script x .reply { x with stage := .returned result }
  | write {a b client} : OfWriter b → Dispatcher.step maxFrameSize b x.client = some client →
      Moves maxFrameSize cmd wants i script x a { x with client }
  | answer : x.withheld ≠ [] → Moves maxFrameSize cmd wants i script x .answer
      { x with incoming := x.incoming ++ x.withheld, withheld := [] }
  | read {n buffer} : x.incoming.take n ≠ [] → x.client.reader = .reading buffer →
      Moves maxFrameSize cmd wants i script x (.read n) { x with
        client := { x.client with reader := .scanning (buffer ++ x.incoming.take n) }
        incoming := x.incoming.drop n }
  | finish {buffer} : x.incoming = [] → x.withheld = [] → x.client.reader = .reading buffer →
      Moves maxFrameSize cmd wants i script x .finish { x with
        client := { x.client with reader := .failing .connectionClosed } }
  | scan {client} : x.client.scanBuffer maxFrameSize none = some client →
      Moves maxFrameSize cmd wants i script x .scan { x with client }
  | dispatch {client} : x.client.dispatchFrame = some client →
      Moves maxFrameSize cmd wants i script x .dispatch { x with client }
  | failAll {client} : x.client.failAllPending = some client →
      Moves maxFrameSize cmd wants i script x .failAll { x with client }

section Moves

variable {maxFrameSize : ℕ} {cmd : Bytes} {wants : FrameFilter} {i : CommandId} {script : Script}
  {x x' : Exchange} {s s' : Dispatcher}

theorem readBuf_bytes {bytes : Bytes} (hne : bytes ≠ []) (h : s.readBuf (.ok bytes) = some s') :
    ∃ buffer, s.reader = .reading buffer ∧
      s' = { s with reader := .scanning (buffer ++ bytes) } := by
  unfold Dispatcher.readBuf at h
  split at h
  next buffer hr =>
    cases bytes with
    | nil => exact absurd rfl hne
    | cons b bytes =>
      cases h
      exact ⟨buffer, hr, rfl⟩
  · cases h

theorem readBuf_end {failed : Bool} (h : s.readBuf (endOfStream failed) = some s') :
    ∃ buffer, s.reader = .reading buffer ∧
      s' = { s with reader := .failing .connectionClosed } := by
  unfold Dispatcher.readBuf at h
  split at h
  next buffer hr => cases failed <;> cases h <;> exact ⟨buffer, hr, rfl⟩
  · cases h

/-- A poll that returns a frame. -/
theorem pollStream_some {f : Parsed} (hnext : s.nextFrame i = .ready (some f))
    (h : s.pollStream i = some s') :
    ∃ rest, (s.streams i).receiver = .open ∧ (s.streams i).queue = f :: rest ∧
      s' = s.setStream i { s.streams i with
        queue := rest, yielded := (s.streams i).yielded ++ [f] } := by
  have hqueue : ∃ rest, (s.streams i).queue = f :: rest := by
    rw [Dispatcher.nextFrame] at hnext
    split at hnext
    next f' rest hq =>
      cases hnext
      exact ⟨rest, hq⟩
    · split at hnext <;> cases hnext
  obtain ⟨rest, hq⟩ := hqueue
  unfold Dispatcher.pollStream at h
  simp only [hnext] at h
  split at h
  next hopen heq =>
    cases heq
    cases h
    exact ⟨rest, hopen, hq, by rw [hq]; rfl⟩
  next heq => cases heq
  · cases h

/-- What `into_reply` does with a closed channel. -/
theorem drainStream_cases (h : s.drainStream i = some s') :
    (∃ f rest, (s.streams i).queue = f :: rest ∧ (s.streams i).receiver = .closed ∧
      s' = { s.setStream i { s.streams i with queue := rest } with
        broadcast := s.broadcast ++ [f] }) ∨
    ((s.streams i).queue = [] ∧ (s.streams i).receiver = .closed ∧
      s' = s.setStream i { s.streams i with receiver := .gone }) := by
  unfold Dispatcher.drainStream at h
  simp only at h
  split at h
  next f rest hclosed hq =>
    cases h
    exact .inl ⟨f, rest, hq, hclosed, rfl⟩
  next hclosed hq =>
    cases h
    exact .inr ⟨hq, hclosed, rfl⟩
  · cases h

theorem closeStream_eq (h : s.closeStream i = some s') :
    (s.streams i).receiver = .open ∧
      s' = s.setStream i { s.streams i with receiver := .closed } := by
  unfold Dispatcher.closeStream at h
  simp only at h
  split at h
  next hopen =>
    cases h
    exact ⟨hopen, rfl⟩
  · cases h

theorem moves_enqueue (h : enqueue cmd wants x = some x') :
    Moves maxFrameSize cmd wants i script x .enqueue x' := by
  unfold enqueue at h
  split at h
  next hstage =>
    cases hbreaks : hasLineBreaks cmd with
    | true =>
      rw [rejectLineBreaks, if_pos hbreaks] at h
      cases h
      exact .refuse hstage hbreaks
    | false =>
      rw [rejectLineBreaks, hbreaks, if_neg Bool.false_ne_true] at h
      obtain ⟨client, hclient, rfl⟩ := Option.map_eq_some_iff.mp h
      exact .enqueue hstage hbreaks hclient
  · cases h

theorem moves_close (h : close i x = some x') :
    Moves maxFrameSize cmd wants i script x .close x' := by
  unfold close at h
  split at h
  next hstage =>
    obtain ⟨client, hclient, rfl⟩ := Option.map_eq_some_iff.mp h
    obtain ⟨hopen, rfl⟩ := closeStream_eq hclient
    exact .close hstage hopen
  · cases h

theorem moves_poll (h : poll i x = some x') : Moves maxFrameSize cmd wants i script x .poll x' := by
  unfold poll at h
  split at h
  next hstage =>
    split at h
    · cases h
    next f hnext =>
      obtain ⟨client, hclient, rfl⟩ := Option.map_eq_some_iff.mp h
      obtain ⟨rest, -, hq, rfl⟩ := pollStream_some hnext hclient
      exact .frame hstage hq
    next hnext =>
      cases h
      exact .ended hstage hnext
  · cases h

theorem moves_drain (h : drain i x = some x') :
    Moves maxFrameSize cmd wants i script x .drain x' := by
  unfold drain at h
  split at h
  next hstage =>
    obtain ⟨client, hclient, rfl⟩ := Option.map_eq_some_iff.mp h
    rcases drainStream_cases hclient with ⟨f, rest, hq, hclosed, rfl⟩ | ⟨hq, hclosed, rfl⟩
    · have hstays : ((x.client.setStream i
          { x.client.streams i with queue := rest }).streams i).receiver ≠ .gone := by
        simp [Dispatcher.setStream, hclosed]
      simp only [if_neg hstays, ← hstage]
      exact .drain hstage hclosed hq
    · have hgone : ((x.client.setStream i
          { x.client.streams i with receiver := .gone }).streams i).receiver = .gone := by
        simp [Dispatcher.setStream]
      simp only [if_pos hgone]
      exact .drained hstage hclosed
  · cases h

theorem moves_read {n : ℕ} (h : read n x = some x') :
    Moves maxFrameSize cmd wants i script x (.read n) x' := by
  unfold read at h
  split at h
  next hne =>
    obtain ⟨client, hclient, rfl⟩ := Option.map_eq_some_iff.mp h
    obtain ⟨buffer, hr, rfl⟩ := readBuf_bytes hne hclient
    exact .read hne hr
  · cases h

theorem moves_finish (h : finish script x = some x') :
    Moves maxFrameSize cmd wants i script x .finish x' := by
  unfold finish at h
  split at h
  · split at h
    next hnone =>
      obtain ⟨client, hclient, rfl⟩ := Option.map_eq_some_iff.mp h
      obtain ⟨buffer, hr, rfl⟩ := readBuf_end hclient
      exact .finish hnone.1 hnone.2 hr
    · cases h
  · cases h

/-- **The list of steps is complete.** -/
theorem moves_of_step {a : Action} (h : step maxFrameSize cmd wants i script a x = some x') :
    Moves maxFrameSize cmd wants i script x a x' := by
  cases a with
  | enqueue => exact moves_enqueue h
  | poll => exact moves_poll h
  | close => exact moves_close h
  | drain => exact moves_drain h
  | reply =>
    have h : reply i x = some x' := h
    unfold reply at h
    split at h
    next hstage =>
      obtain ⟨result, hresult, rfl⟩ := Option.map_eq_some_iff.mp h
      exact .reply hstage hresult
    · cases h
  | recvRequest =>
    obtain ⟨client, hclient, rfl⟩ := Option.map_eq_some_iff.mp h
    exact .write (b := .recvRequest) trivial hclient
  | register =>
    obtain ⟨client, hclient, rfl⟩ := Option.map_eq_some_iff.mp h
    exact .write (b := .register) trivial hclient
  | writeBytes n =>
    obtain ⟨client, hclient, rfl⟩ := Option.map_eq_some_iff.mp h
    exact .write (b := .writeBytes n) trivial hclient
  | answer =>
    have h : answer x = some x' := h
    unfold answer at h
    split at h
    next hne =>
      cases h
      exact .answer hne
    · cases h
  | read n => exact moves_read h
  | finish => exact moves_finish h
  | scan =>
    obtain ⟨client, hclient, rfl⟩ := Option.map_eq_some_iff.mp h
    exact .scan hclient
  | dispatch =>
    obtain ⟨client, hclient, rfl⟩ := Option.map_eq_some_iff.mp h
    exact .dispatch hclient
  | failAll =>
    obtain ⟨client, hclient, rfl⟩ := Option.map_eq_some_iff.mp h
    exact .failAll hclient

end Moves

/-! ### How much is left to do -/

/-- What is left of the call. Queueing the command makes work for the write loop. -/
def callWork (cmd : Bytes) (x : Exchange) : ℕ :=
  match x.stage with
  | .calling => (commandLine (formatTag x.client.tagCounter.toNat) cmd).length + 10
  | .polling => 4
  | .closing => 3
  | .draining => 2
  | .awaiting => 1
  | .returned _ => 0

def requestWork : WriteRequest → ℕ
  | .command bytes _ _ _ => bytes.length + 3
  | .raw bytes => bytes.length + 2

def writerWork : Writer → ℕ
  | .stopped => 0
  | .idle => 1
  | .registering bytes _ _ _ => bytes.length + 3
  | .writing _ rest => rest.length + 2

/-- Every byte has to be scanned; a frame in hand has to be delivered and taken out again. -/
def readerWork : Reader → ℕ
  | .reading buffer => 6 * buffer.length + 2
  | .scanning buffer => 6 * buffer.length + 3
  | .dispatching _ _ buffer => 6 * buffer.length + 8
  | .failing _ => 1
  | .stopped => 0

def loopsWork (s : Dispatcher) : ℕ :=
  (s.queue.map requestWork).sum + writerWork s.writer + readerWork s.reader

/-- How much is left to do. -/
def measure (cmd : Bytes) (i : CommandId) (x : Exchange) : ℕ :=
  callWork cmd x + loopsWork x.client + 4 * (x.client.streams i).queue.length +
    8 * x.incoming.length + 9 * x.withheld.length

section Measure

variable {maxFrameSize : ℕ} {cmd : Bytes} {wants : FrameFilter} {i : CommandId} {script : Script}
  {x x' : Exchange} {s s' : Dispatcher}

/-- What the loops do with the work that is left: the channel of `i` may take up a frame. -/
def Lightens (i : CommandId) (s s' : Dispatcher) : Prop :=
  s'.tagCounter = s.tagCounter ∧
    loopsWork s' + 4 * (s'.streams i).queue.length < loopsWork s + 4 * (s.streams i).queue.length

theorem recvRequest_lightens (h : s.recvRequest = some s') : Lightens i s s' := by
  unfold Dispatcher.recvRequest at h
  split at h
  next hw hq =>
    cases h
    simp [Lightens, loopsWork, hw, hq, requestWork, writerWork]
    omega
  next hw hq =>
    cases h
    simp [Lightens, loopsWork, hw, hq, requestWork, writerWork]
    omega
  next hw hq =>
    split at h
    · cases h
    · cases h
      simp [Lightens, loopsWork, hw, writerWork]
  · cases h

theorem register_lightens (h : s.register = some s') : Lightens i s s' := by
  unfold Dispatcher.register at h
  split at h
  next hw =>
    cases h
    simp [Lightens, loopsWork, hw, writerWork]
  · cases h

theorem writeBytes_lightens {n : ℕ} (h : s.writeBytes n = some s') : Lightens i s s' := by
  unfold Dispatcher.writeBytes at h
  split at h
  next hw =>
    cases h
    simp [Lightens, loopsWork, hw, writerWork]
  next command rest hne hw =>
    split at h
    next hn =>
      cases h
      have hpos : 0 < rest.length := List.length_pos_iff.mpr hne
      simp only [Lightens, loopsWork, hw, writerWork, List.length_drop, true_and]
      omega
    · cases h
  · cases h

theorem scanBuffer_lightens {owner : Option CommandId}
    (h : s.scanBuffer maxFrameSize owner = some s') : Lightens i s s' := by
  unfold Dispatcher.scanBuffer at h
  split at h
  next buffer hr =>
    split at h
    next frame rest hscan =>
      cases h
      obtain ⟨hcomplete, rfl⟩ := scan_eq_frame hscan
      have hpos : 0 < frame.1.length := List.length_pos_iff.mpr hcomplete.ne_nil
      refine ⟨rfl, ?_⟩
      simp only [loopsWork, hr, readerWork, List.length_append,
        Dispatcher.markRouted_apply s _ _ rest i]
      omega
    · cases h
      simp [Lightens, loopsWork, hr, readerWork]
    · cases h
      simp only [Lightens, loopsWork, hr, readerWork, true_and]
      omega
  · cases h

/-- A frame that is dispatched leaves the hands of the read loop. -/
theorem dispatchFrame_reader (h : s.dispatchFrame = some s') :
    ∃ route p buffer, s.reader = .dispatching route p buffer ∧ s'.reader = .scanning buffer := by
  unfold Dispatcher.dispatchFrame at h
  split at h
  next hr =>
    split at h <;> cases h <;> exact ⟨_, _, _, hr, rfl⟩
  next hr =>
    dsimp only at h
    split at h
    · split at h
      · cases h
        exact ⟨_, _, _, hr, rfl⟩
      · cases h
    · cases h
      exact ⟨_, _, _, hr, rfl⟩
  next hr =>
    cases h
    exact ⟨_, _, _, hr, rfl⟩
  · cases h

theorem dispatchFrame_lightens (h : s.dispatchFrame = some s') : Lightens i s s' := by
  have hm : Dispatcher.Moves 0 s .dispatchFrame s' := Dispatcher.moves_dispatchFrame h
  cases hm with
  | stay =>
    obtain ⟨_, _, _, hr, hr'⟩ := dispatchFrame_reader h
    cases hr.symm.trans hr'
  | resolve hr | unclaimed hr | publish hr | unsent hr =>
    simp only [Lightens, loopsWork, hr, readerWork, true_and]
    omega
  | @push tx p buffer hr hopen =>
    refine ⟨rfl, ?_⟩
    by_cases htx : i = tx
    · subst htx
      simp only [loopsWork, hr, readerWork, Dispatcher.setStream, Function.update_self,
        List.length_append, List.length_singleton]
      omega
    · simp only [loopsWork, hr, readerWork, Dispatcher.setStream, Function.update_of_ne htx]
      omega

theorem failAllPending_lightens (h : s.failAllPending = some s') : Lightens i s s' := by
  unfold Dispatcher.failAllPending at h
  split at h
  next hr =>
    cases h
    simp [Lightens, loopsWork, hr, readerWork]
  · cases h

theorem enqueue_measure_lt (hstage : x.stage = .calling)
    (hclient : x.client.enqueueCommand cmd (some wants) = some s') :
    measure cmd i { x with client := s', stage := .polling } < measure cmd i x := by
  have hm : Dispatcher.Moves 0 x.client (.enqueueCommand cmd (some wants)) s' :=
    Dispatcher.moves_enqueueCommand hclient
  cases hm with
  | stay =>
    simp only [measure, callWork, hstage]
    omega
  | enqueue =>
    have hchannel : (Function.update x.client.streams x.client.issued
        ⟨some wants, .open, [], [], [], []⟩ i).queue.length
          ≤ (x.client.streams i).queue.length := by
      by_cases hi : i = x.client.issued
      · rw [hi, Function.update_self]
        exact Nat.zero_le _
      · rw [Function.update_of_ne hi]
    simp only [measure, callWork, hstage, loopsWork, List.map_append, List.map_cons, List.map_nil,
      List.sum_append, List.sum_cons, List.sum_nil, requestWork]
    omega

theorem writer_lightens {b : Dispatcher.Action} (hb : OfWriter b)
    (h : Dispatcher.step maxFrameSize b s = some s') : Lightens i s s' := by
  cases b with
  | recvRequest => exact recvRequest_lightens h
  | register => exact register_lightens h
  | writeBytes n => exact writeBytes_lightens h
  | _ => cases hb

theorem Lightens.measure_lt (h : Lightens i x.client s') :
    measure cmd i { x with client := s' } < measure cmd i x := by
  obtain ⟨htag, hless⟩ := h
  simp only [measure, callWork, htag]
  omega

/-- **Every step leaves less to do.** -/
theorem measure_lt {a : Action} (h : step maxFrameSize cmd wants i script a x = some x') :
    measure cmd i x' < measure cmd i x := by
  cases moves_of_step h with
  | refuse hstage =>
    simp only [measure, callWork, hstage]
    omega
  | enqueue hstage _ hclient => exact enqueue_measure_lt hstage hclient
  | frame hstage hq =>
    simp only [measure, callWork, hstage, loopsWork, hq, Dispatcher.setStream,
      Function.update_self, List.length_cons]
    omega
  | ended hstage =>
    simp only [measure, callWork, hstage]
    omega
  | close hstage hopen =>
    simp only [measure, callWork, hstage, loopsWork, Dispatcher.setStream, Function.update_self]
    omega
  | drain hstage hclosed hq =>
    simp only [measure, callWork, hstage, hq, loopsWork, Dispatcher.setStream,
      Function.update_self, List.length_cons]
    omega
  | drained hstage hclosed =>
    simp only [measure, callWork, hstage, loopsWork, Dispatcher.setStream, Function.update_self]
    omega
  | reply hstage =>
    simp only [measure, callWork, hstage]
    omega
  | write hb hclient => exact (writer_lightens hb hclient).measure_lt
  | answer hne =>
    have hpos : 0 < x.withheld.length := List.length_pos_iff.mpr hne
    simp only [measure, callWork, List.length_append, List.length_nil]
    omega
  | @read n buffer hne hr =>
    have hpos : 0 < (x.incoming.take n).length := List.length_pos_iff.mpr hne
    have hsplit : (x.incoming.take n).length + (x.incoming.drop n).length = x.incoming.length := by
      rw [← List.length_append, List.take_append_drop]
    simp only [measure, callWork, loopsWork, hr, readerWork, List.length_append]
    omega
  | finish _ _ hr =>
    simp only [measure, callWork, loopsWork, hr, readerWork]
    omega
  | scan hclient => exact (scanBuffer_lightens hclient).measure_lt
  | dispatch hclient => exact (dispatchFrame_lightens hclient).measure_lt
  | failAll hclient => exact (failAllPending_lightens hclient).measure_lt

end Measure

end Exchange

end ImapRs
