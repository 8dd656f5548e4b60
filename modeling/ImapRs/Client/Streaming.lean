import ImapRs.Client.Attribution
import ImapRs.Client.Exchange

/-!
# A streaming command is not disturbed

The command is in line, then in the pending table, then settled. Before it is registered no stream
gets a frame; while it is in the table, the frames its stream was given and the wanted ones among
those still to come are together the frames it wants; once it is settled, nothing is on the way to
its stream and the caller collects what it was given.

## Main definitions

* `Script.Valid`, `Quiet` — a server, and a connection with no streaming command in flight
* `Script.Outcome` — what the call returns
* `Exchange.Invariant` — the stages of the command

## Main results

* `scan_of_wire` — one look at a piece of a framed stream
* `Exchange.Entered.routeFor` — while the command streams, its stream gets exactly what it wants
* `Exchange.Invariant.step` — every step keeps the invariant
-/

namespace ImapRs

open Incremental Transition

namespace Dispatcher

variable {maxFrameSize : ℕ} {a : Action} {s s' : Dispatcher}

/-! ### Two more invariants of the client -/

/-- The pending table and the replies speak of registered commands. -/
structure Tabled (s : Dispatcher) : Prop where
  collectors : ∀ c ∈ s.pending.collectors, c.tx ∈ s.registered
  replies : ∀ r ∈ s.pending.replies, r.2 ∈ s.registered
  resolved : ∀ r ∈ s.resolved, r.command ∈ s.registered

theorem tabled_new : Tabled new := ⟨by simp [new], by simp [new], by simp [new]⟩

theorem Tabled.complete (h : Tabled s) (tag : Bytes) :
    (∀ c ∈ (s.pending.complete tag).2.collectors, c.tx ∈ s.registered) ∧
      ∀ r ∈ (s.pending.complete tag).2.replies, r.2 ∈ s.registered :=
  ⟨fun c hc => h.collectors c (List.mem_of_mem_filter hc),
    fun r hr => h.replies r (List.mem_of_mem_filter hr)⟩

theorem Moves.tabled (hm : Moves maxFrameSize s a s') (h : Tabled s) : Tabled s' := by
  cases hm with
  | @register bytes tag i collector hw =>
    refine ⟨fun c hc => ?_, fun r hr => ?_, fun r hr => List.mem_append_left _ (h.resolved r hr)⟩
    · rcases List.mem_append.mp hc with hc | hc
      · exact List.mem_append_left _ (h.collectors c hc)
      · cases collector with
        | none => cases hc
        | some wants =>
          rw [List.mem_singleton.mp hc]
          exact List.mem_append_right _ (List.mem_singleton_self i)
    · rcases List.mem_append.mp hr with hr | hr
      · exact List.mem_append_left _ (h.replies r (List.mem_of_mem_filter hr))
      · rw [List.mem_singleton.mp hr]
        exact List.mem_append_right _ (List.mem_singleton_self i)
  | @resolve tag status text p buffer tx hr hlookup =>
    refine ⟨(h.complete _).1, (h.complete _).2, fun r hr => ?_⟩
    rcases List.mem_append.mp hr with hr | hr
    · exact h.resolved r hr
    · rw [List.mem_singleton.mp hr]
      exact h.replies _ (mem_of_lookup hlookup)
  | unclaimed hr => exact ⟨(h.complete _).1, (h.complete _).2, h.resolved⟩
  | failAll hr =>
    refine ⟨by simp, by simp, fun r hr => ?_⟩
    rcases List.mem_append.mp hr with hr | hr
    · exact h.resolved r hr
    · obtain ⟨q, hq, rfl⟩ := List.mem_map.mp hr
      exact h.replies q hq
  | _ => exact { h with }

theorem tabled_of_reachable {C : Action → Dispatcher → Prop}
    (h : ReachableBy maxFrameSize C s) : Tabled s :=
  h.invariant tabled_new fun _ _ hstep ih => (moves_of_step hstep).tabled ih

/-- The read loop reads only when it has to. -/
def Waits (s : Dispatcher) : Prop :=
  ∀ buffer, s.reader = .reading buffer → parseResponse buffer = .error .incomplete

theorem Moves.waits (hstep : step maxFrameSize a s = some s') (h : Waits s) : Waits s' := by
  intro buffer hr'
  have hm := moves_of_step hstep
  cases hm with
  | @scanWait buffer owner hr =>
    cases hr'
    have hscan : s.scanBuffer maxFrameSize owner = some _ := hstep
    unfold scanBuffer at hscan
    simp only [hr] at hscan
    rcases scan_cases maxFrameSize buffer with ⟨f, rest, hs, -⟩ | ⟨-, hinc, -⟩ | ⟨e, hs, -⟩
    · rw [hs] at hscan
      simp at hscan
    · exact hinc
    · rw [hs] at hscan
      simp at hscan
  | _ => first | exact h _ hr' | cases hr'

theorem waits_of_reachable {C : Action → Dispatcher → Prop}
    (h : ReachableBy maxFrameSize C s) : Waits s :=
  h.invariant (fun _ hr => by cases hr; rfl) fun _ _ hstep ih => Moves.waits hstep ih

end Dispatcher

/-! ### Looking at a stream of frames -/

/-- **One look at a piece of a framed stream.** A frame that is found is the next one, and nothing
stops the loop before the frames are at an end. -/
theorem scan_of_wire {maxFrameSize : ℕ} {gs : List Frame} {buffer y tail : Bytes}
    (hgs : ∀ g ∈ gs, responseFramer.Complete g ∧ g.1.length ≤ maxFrameSize)
    (hsplit : buffer ++ y = wire gs ++ tail) (htail : responseFramer.Undecided tail ∨ gs ≠ []) :
    (∀ f rest, scan maxFrameSize buffer = .frame f rest →
      ∃ gs', gs = f :: gs' ∧ rest ++ y = wire gs' ++ tail) ∧
    ∀ e, scan maxFrameSize buffer = .stop e → gs = [] := by
  cases gs with
  | nil =>
    have htail : responseFramer.Undecided tail := htail.resolve_right fun h => h rfl
    refine ⟨fun f rest hscan => ?_, fun _ _ => rfl⟩
    obtain ⟨hf, rfl⟩ := scan_eq_frame hscan
    have hfront : f.1 ++ rest <+: tail := ⟨y, hsplit⟩
    exact absurd (hf.decode_append rest) (htail.of_prefix hfront rest f.2)
  | cons g gs =>
    obtain ⟨hg, hlen⟩ := hgs g List.mem_cons_self
    rw [wire_cons, List.append_assoc] at hsplit
    have hwhole : parseResponse (buffer ++ y) = .ok (wire gs ++ tail, g.2) := by
      rw [hsplit]
      exact hg.decode_append _
    refine ⟨fun f rest hscan => ?_, fun e hscan => ?_⟩
    · obtain ⟨hf, rfl⟩ := scan_eq_frame hscan
      rw [List.append_assoc] at hwhole hsplit
      have hwhole' : parseResponse (f.1 ++ (rest ++ y)) = .ok (rest ++ y, f.2) :=
        hf.decode_append _
      rw [hwhole] at hwhole'
      obtain ⟨hrest, hresponse⟩ := Prod.mk.inj (Except.ok.inj hwhole')
      rw [hrest] at hsplit
      have hbytes : f.1 = g.1 := List.append_cancel_right hsplit
      exact ⟨gs, by rw [Prod.ext hbytes hresponse.symm], hrest.symm⟩
    · rcases scan_cases maxFrameSize buffer with ⟨f, rest, hs, -⟩ | ⟨hs, -⟩ | ⟨e', hs, hstops⟩
      · cases hs.symm.trans hscan
      · cases hs.symm.trans hscan
      rcases hstops with ⟨pe, -, hne, hparse⟩ | ⟨-, hinc, hlong⟩
      · obtain ⟨e'', -, hbad⟩ := parseResponse_append_error hparse hne y
        cases hbad.symm.trans hwhole
      · -- the buffer is longer than the frame, so it holds the frame
        have hfront : g.1 <+: buffer := by
          refine List.prefix_of_prefix_length_le (List.prefix_append g.1 (wire gs ++ tail)) ?_
            (hlen.trans hlong.le)
          exact ⟨y, hsplit⟩
        obtain ⟨z, rfl⟩ := hfront
        have hok : parseResponse (g.1 ++ z) = .ok (z, g.2) := hg.decode_append z
        cases hok.symm.trans hinc

/-! ### The server and the connection -/

namespace Script

/-- The tagged response as the last frame. -/
def last (script : Script) : List Frame :=
  match script.ending with
  | .tagged frame _ => [frame]
  | .broken _ => []

/-- What comes after the last frame. -/
def tail (script : Script) : Bytes :=
  match script.ending with
  | .tagged _ more => more
  | .broken tail => tail

theorem answer_eq (script : Script) :
    script.answer = wire (script.frames ++ script.last) ++ script.tail := by
  rw [answer, last, tail, wire_append]
  cases script.ending <;> simp [Ending.bytes]

/-- A server that answers a command with this tag: complete frames of a size the client accepts,
none of which answers the command; then the frame that does, or something that is no frame, or the
end of the connection. -/
structure Valid (maxFrameSize : ℕ) (tag : Bytes) (script : Script) : Prop where
  frames : ∀ f ∈ script.early ++ script.frames, responseFramer.Complete f ∧
    f.1.length ≤ maxFrameSize ∧ f.2.tag? ≠ some tag
  ending : match script.ending with
    | .tagged t _ => responseFramer.Complete t ∧ t.1.length ≤ maxFrameSize ∧ t.2.tag? = some tag
    | .broken tail => responseFramer.Undecided tail ∧
        (parseResponse tail = .error .incomplete → script.closes.isSome = true)

/-- A frame for the stream: untagged, and accepted by the filter. -/
def wanted (wants : FrameFilter) (f : Frame) : Bool := f.2.tag?.isNone && wants f.2

/-- What the call comes to: the result of the tagged response and the frames for the stream, among
those still under way when the command was registered and those of the answer; or an error. -/
def Outcome (script : Script) (wants : FrameFilter) (result : Except ClientError Bytes)
    (frames : List Bytes) : Prop :=
  match script.ending with
  | .tagged t _ => ∃ tag status code text late, t.2 = .status ⟨some tag, status, code, text⟩ ∧
      result = Dispatcher.taggedResult status text t.1 ∧ late <:+ script.early ∧
      frames = ((late ++ script.frames).filter (wanted wants)).map Prod.fst
  | .broken _ => ∃ e, result = .error e

end Script

/-- The bytes the read loop has and has not parsed. -/
def Reader.unread : Reader → Bytes
  | .reading buffer | .scanning buffer | .dispatching _ _ buffer => buffer
  | .failing _ | .stopped => []

/-- The read loop is neither failing nor stopped, and does not have the answer in hand. -/
def Reader.Open (tag : Bytes) : Reader → Prop
  | .failing _ | .stopped => False
  | .dispatching (.tagged answered _ _) _ _ => answered.bytes ≠ tag
  | _ => True

/-- A live connection with no streaming command in flight, about to be used for a command with this
tag. -/
structure Quiet (maxFrameSize : ℕ) (tag : Bytes) (s : Dispatcher) : Prop where
  reachable : Dispatcher.Reachable maxFrameSize s
  handles : s.handles = true
  writer : s.writer ≠ .stopped
  reader : s.reader.Open tag
  streams : ∀ j, (s.streams j).receiver ≠ .open

/-! ### The stages of the command -/

namespace Exchange

section Invariant

variable (maxFrameSize : ℕ) (wants : FrameFilter) (i : CommandId) (tag line : Bytes)
  (script : Script)

/-- What holds of the client throughout: it is alive, and only the command's stream is open. -/
structure Alive (s : Dispatcher) : Prop where
  reachable : Dispatcher.Reachable maxFrameSize s
  handles : s.handles = true
  writer : s.writer ≠ .stopped
  others : ∀ j, j ≠ i → (s.streams j).receiver ≠ .open

/-- Before the command is registered nothing of the answer is there; `late` is still under way. -/
structure Before (x : Exchange) (late : List Frame) : Prop where
  suffix : late <:+ script.early
  bytes : x.client.reader.unread ++ x.incoming = wire late
  withheld : x.withheld = script.answer
  reader : x.client.reader.Open tag
  fresh : i ∉ x.client.registered

/-- The command is the last in line. -/
def Queued (s : Dispatcher) : Prop :=
  (s.writer = .registering line tag i (some wants) ∧ s.queue = []) ∨
    ∃ others, s.queue = others ++ [.command line tag i (some wants)] ∧
      (∀ request ∈ others, request.command? ≠ some i) ∧ i ∉ s.writer.next

/-- The line is empty, and the command is out of it. -/
structure Through (s : Dispatcher) : Prop where
  registered : i ∈ s.registered
  queue : s.queue = []
  writer : s.writer.next = []

/-- The command is in the pending table. -/
structure Entered (s : Dispatcher) : Prop extends Through i s where
  lookup : s.pending.replies.lookup tag = some i
  replies : ∀ r ∈ s.pending.replies, r.2 = i → r.1 = tag
  unresolved : ∀ r ∈ s.resolved, r.command ≠ i
  collector : ∃ c ∈ s.pending.collectors, c.tx = i
  collectors : ∀ c ∈ s.pending.collectors, c.tx = i → c.tag = tag ∧ c.wants = wants

/-- The command is resolved, and nothing is on the way to its stream. -/
structure Settled (s : Dispatcher) (r : Resolution) : Prop extends Through i s where
  resolved : s.resolved.find? (·.command == i) = some r
  collectors : ∀ c ∈ s.pending.collectors, c.tx ≠ i
  hand : Dispatcher.Reader.handFor i s.reader = []

/-- The frames the command's stream was given. -/
def given (s : Dispatcher) : List Frame := (s.streams i).routed.map (·.frame)

/-- The caller is in its loop and has seen what came out of the stream. -/
structure Following (x : Exchange) : Prop where
  stage : x.stage = .polling
  receiver : (x.client.streams i).receiver = .open
  frames : x.frames = (x.client.streams i).yielded.map (·.frame.1)

/-- What the caller has when the command is settled. -/
def Finishing (r : Resolution) (x : Exchange) : Prop :=
  match x.stage with
  | .calling => False
  | .polling => Following i x
  | .closing => (x.client.streams i).receiver = .open ∧ x.frames = (given i x.client).map Prod.fst
  | .draining => (x.client.streams i).receiver = .closed ∧
    x.frames = (given i x.client).map Prod.fst
  | .awaiting => x.frames = (given i x.client).map Prod.fst
  | .returned result => result = r.result ∧ x.frames = (given i x.client).map Prod.fst

/-- While the command is in the table, the frames its stream was given and the wanted ones among
`fs`, which are still to come, are those it wants. -/
structure Streaming (x : Exchange) (late fs : List Frame) : Prop where
  suffix : late <:+ script.early
  frames : ∀ f ∈ fs, f ∈ script.early ++ script.frames
  bytes : x.client.reader.unread ++ (x.incoming ++ x.withheld)
    = wire (fs ++ script.last) ++ script.tail
  given : given i x.client ++ fs.filter (Script.wanted wants)
    = (late ++ script.frames).filter (Script.wanted wants)

/-- The stages of the command. -/
inductive Stands (x : Exchange) : Prop
  | calling (late : List Frame) : Before i tag script x late → x.stage = .calling →
      x.client.issued = i → formatTag x.client.tagCounter.toNat = tag → x.frames = [] → Stands x
  | queued (late : List Frame) : Before i tag script x late → Queued wants i tag line x.client →
      Following i x → (x.client.streams i).routed = [] → Stands x
  | streaming (late fs : List Frame) : Entered wants i tag x.client → Following i x →
      x.client.reader.Open tag → Streaming wants i script x late fs → Stands x
  | answered (late : List Frame) (answer : Str) (status : Status) (code : Option ResponseCode)
      (text : Str) (p : Parsed) (buffer more : Bytes) :
      Entered wants i tag x.client → Following i x →
      x.client.reader = .dispatching (.tagged answer status text) p buffer → answer.bytes = tag →
      script.ending = .tagged p.frame more → p.frame.2 = .status ⟨some answer, status, code, text⟩ →
      late <:+ script.early →
      given i x.client = (late ++ script.frames).filter (Script.wanted wants) → Stands x
  | broken (e : ClientError) (tail : Bytes) : Entered wants i tag x.client → Following i x →
      x.client.reader = .failing e → script.ending = .broken tail → Stands x
  | settled (r : Resolution) : Settled i x.client r → Finishing i r x →
      script.Outcome wants r.result ((given i x.client).map Prod.fst) → Stands x

/-- The invariant of the exchange. -/
structure Invariant (x : Exchange) : Prop where
  alive : Alive maxFrameSize i x.client
  stands : Stands wants i tag line script x

end Invariant

/-! ### The client stays alive -/

section Steps

variable {maxFrameSize : ℕ} {cmd : Bytes} {wants : FrameFilter} {i : CommandId} {tag line : Bytes}
  {script : Script} {x x' : Exchange} {s s' : Dispatcher} {late : List Frame}

/-- The steps of the two loops and of the command's own stream. -/
def Ours (i : CommandId) : Dispatcher.Action → Prop
  | .pollStream j | .closeStream j | .drainStream j => j = i
  | .register | .writeBytes _ | .readBuf _ | .scanBuffer _ | .dispatchFrame
  | .failAllPending => True
  | _ => False

theorem receiver_of_ours {a : Dispatcher.Action} (hm : Dispatcher.Moves maxFrameSize s a s')
    (ha : Ours i a) {j : CommandId} (hj : j ≠ i) :
    (s'.streams j).receiver = (s.streams j).receiver := by
  cases hm with
  | yield | close | drain | drained =>
    obtain rfl := ha
    simp only [Dispatcher.setStream, Function.update_of_ne hj]
  | @scanFrame buffer owner frame rest hr hs =>
    simp only [Dispatcher.markRouted_apply s _ _ rest j]
  | @push tx p buffer hr hopen =>
    by_cases hjt : j = tx
    · subst hjt
      simp only [Dispatcher.setStream, Function.update_self]
    · simp only [Dispatcher.setStream, Function.update_of_ne hjt]
  | stay | register | wrote | written | readEnd | readMore | scanWait | scanStop | resolve
  | unclaimed
  | unsent | publish | failAll => rfl
  | _ => cases ha

theorem alive_of_ours {a : Dispatcher.Action} (hstep : Dispatcher.step maxFrameSize a s = some s')
    (ha : Ours i a) (h : Alive maxFrameSize i s) : Alive maxFrameSize i s' := by
  have hm := Dispatcher.moves_of_step hstep
  refine ⟨h.reachable.next trivial hstep, ?_, ?_, fun j hj => ?_⟩
  · cases hm with
    | dropHandles => cases ha
    | _ => exact h.handles
  · cases hm with
    | recvCommand | recvRaw | recvNone | writeFailed => cases ha
    | register | wrote | written => simp
    | _ => exact h.writer
  · rw [receiver_of_ours hm ha hj]
    exact h.others j hj

theorem alive_of_recvRequest (hstep : s.recvRequest = some s') (h : Alive maxFrameSize i s) :
    Alive maxFrameSize i s' := by
  have hnext : Dispatcher.step maxFrameSize .recvRequest s = some s' := hstep
  have hreach : Dispatcher.Reachable maxFrameSize s' := h.reachable.next trivial hnext
  unfold Dispatcher.recvRequest at hstep
  split at hstep
  · cases hstep
    exact ⟨hreach, h.handles, by simp, h.others⟩
  · cases hstep
    exact ⟨hreach, h.handles, by simp, h.others⟩
  · rw [if_pos h.handles] at hstep
    cases hstep
  · cases hstep

/-- The caller queues its command, and the stream is its own. -/
theorem alive_of_enqueue (hbreaks : hasLineBreaks cmd = false) (hi : s.issued = i)
    (hstep : s.enqueueCommand cmd (some wants) = some s') (h : Alive maxFrameSize i s) :
    Alive maxFrameSize i s' ∧ s' = { s with
      tagCounter := s.tagCounter + 1
      issued := i + 1
      queue := s.queue ++ [.command (commandLine (formatTag s.tagCounter.toNat) cmd)
        (formatTag s.tagCounter.toNat) i (some wants)]
      streams := Function.update s.streams i ⟨some wants, .open, [], [], [], []⟩ } := by
  subst hi
  have hnext : Dispatcher.step maxFrameSize (.enqueueCommand cmd (some wants)) s = some s' := hstep
  have hreach : Dispatcher.Reachable maxFrameSize s' := h.reachable.next trivial hnext
  unfold Dispatcher.enqueueCommand at hstep
  rw [hbreaks, if_neg Bool.false_ne_true] at hstep
  split at hstep
  · cases hstep
  · cases hstep
  · split at hstep
    · cases hstep
      refine ⟨⟨hreach, h.handles, h.writer, fun j hj => ?_⟩, rfl⟩
      simp only [Function.update_of_ne hj]
      exact h.others j hj
    · cases hstep

/-! ### What the read loop leaves alone -/

/-- A step of the read loop, as the command sees it. -/
structure Reads (i : CommandId) (s s' : Dispatcher) : Prop where
  tagCounter : s'.tagCounter = s.tagCounter
  issued : s'.issued = s.issued
  queue : s'.queue = s.queue
  writer : s'.writer = s.writer
  registered : s'.registered = s.registered
  receiver : (s'.streams i).receiver = (s.streams i).receiver
  yielded : (s'.streams i).yielded = (s.streams i).yielded

/-- The steps of the read loop. -/
def OfReader : Dispatcher.Action → Prop
  | .readBuf _ | .scanBuffer _ | .dispatchFrame | .failAllPending => True
  | _ => False

theorem reads_of_moves {a : Dispatcher.Action} (hm : Dispatcher.Moves maxFrameSize s a s')
    (ha : OfReader a) : Reads i s s' := by
  cases hm with
  | @scanFrame buffer owner frame rest hr hs =>
    exact ⟨rfl, rfl, rfl, rfl, rfl, by simp only [Dispatcher.markRouted_apply s _ _ rest i],
      by simp only [Dispatcher.markRouted_apply s _ _ rest i]⟩
  | @push tx p buffer hr hopen =>
    by_cases htx : i = tx
    · subst htx
      exact ⟨rfl, rfl, rfl, rfl, rfl, by simp [Dispatcher.setStream],
        by simp [Dispatcher.setStream]⟩
    · exact ⟨rfl, rfl, rfl, rfl, rfl, by simp [Dispatcher.setStream, Function.update_of_ne htx],
        by simp [Dispatcher.setStream, Function.update_of_ne htx]⟩
  | stay | readEnd | readMore | scanWait | scanStop | resolve | unclaimed | unsent | publish
  | failAll => exact ⟨rfl, rfl, rfl, rfl, rfl, rfl, rfl⟩
  | _ => cases ha

theorem reads_of_dispatchFrame (h : s.dispatchFrame = some s') : Reads i s s' := by
  have hm : Dispatcher.Moves 0 s .dispatchFrame s' := Dispatcher.moves_dispatchFrame h
  exact reads_of_moves hm trivial

/-- A frame that is dispatched was routed before. -/
theorem routed_of_dispatchFrame (h : s.dispatchFrame = some s') :
    (s'.streams i).routed = (s.streams i).routed := by
  have hm : Dispatcher.Moves 0 s .dispatchFrame s' := Dispatcher.moves_dispatchFrame h
  cases hm with
  | @push tx p buffer hr hopen =>
    by_cases htx : i = tx
    · subst htx
      simp [Dispatcher.setStream]
    · simp [Dispatcher.setStream, Function.update_of_ne htx]
  | _ => rfl

/-- Everything one look at the buffer can do. -/
theorem scanBuffer_cases {owner : Option CommandId}
    (h : s.scanBuffer maxFrameSize owner = some s') :
    ∃ buffer, s.reader = .scanning buffer ∧
      ((∃ f rest, scan maxFrameSize buffer = .frame f rest ∧ s' = { s with
          reader := .dispatching (s.routeFor f.2) ⟨f, s.parsed.length, owner⟩ rest
          parsed := s.parsed ++ [⟨f, s.parsed.length, owner⟩]
          streams := s.markRouted (s.routeFor f.2) ⟨f, s.parsed.length, owner⟩ }) ∨
        (scan maxFrameSize buffer = .wait ∧ s' = { s with reader := .reading buffer }) ∨
        ∃ e, scan maxFrameSize buffer = .stop e ∧ s' = { s with reader := .failing e }) := by
  unfold Dispatcher.scanBuffer at h
  split at h
  next buffer hr =>
    refine ⟨buffer, hr, ?_⟩
    split at h
    next f rest hscan =>
      cases h
      exact .inl ⟨f, rest, hscan, rfl⟩
    next hscan =>
      cases h
      exact .inr (.inl ⟨hscan, rfl⟩)
    next e hscan =>
      cases h
      exact .inr (.inr ⟨e, hscan, rfl⟩)
  · cases h

/-! ### Before the command is registered -/

/-- No stream gets a frame. -/
theorem routeFor_ne_stream (halive : Alive maxFrameSize i s)
    (hno : ∀ c ∈ s.pending.collectors, c.tx ≠ i) (response : Response) (tx : CommandId) :
    s.routeFor response ≠ .stream tx := by
  intro hroute
  obtain ⟨hopen, c, hc, rfl, -⟩ := Dispatcher.routeFor_eq_stream hroute
  by_cases htx : c.tx = i
  · exact hno c hc htx
  · exact halive.others _ htx hopen

theorem markRouted_of_ne_stream {route : Route} (h : ∀ tx, route ≠ .stream tx) (p : Parsed) :
    s.markRouted route p = s.streams := by
  cases route with
  | stream tx => exact absurd rfl (h tx)
  | _ => rfl

/-- A frame that does not answer the command leaves the read loop as it should be. -/
theorem open_of_routeFor {response : Response} (h : response.tag? ≠ some tag) (p : Parsed)
    (rest : Bytes) : Reader.Open tag (.dispatching (s.routeFor response) p rest) := by
  cases hroute : s.routeFor response with
  | tagged answer status text =>
    obtain ⟨code, rfl⟩ := Dispatcher.routeFor_eq_tagged hroute
    intro heq
    exact h (congrArg some heq)
  | _ => trivial

theorem Before.noCollector (h : Before i tag script x late)
    (halive : Alive maxFrameSize i x.client) :
    ∀ c ∈ x.client.pending.collectors, c.tx ≠ i := by
  rintro c hc rfl
  exact h.fresh ((Dispatcher.tabled_of_reachable halive.reachable).collectors c hc)

theorem Before.scan (h : Before i tag script x late) (hvalid : script.Valid maxFrameSize tag)
    (halive : Alive maxFrameSize i x.client)
    (hscan : x.client.scanBuffer maxFrameSize none = some s') :
    (∃ late', Before i tag script { x with client := s' } late') ∧
      s'.streams = x.client.streams := by
  obtain ⟨buffer, hr, hcases⟩ := scanBuffer_cases hscan
  have hbytes : buffer ++ x.incoming = wire late ++ [] := by
    have := h.bytes
    rwa [hr, ← List.append_nil (wire late)] at this
  have hframes : ∀ g ∈ late, responseFramer.Complete g ∧ g.1.length ≤ maxFrameSize ∧
      g.2.tag? ≠ some tag :=
    fun g hg => hvalid.frames g (List.mem_append_left _ (h.suffix.subset hg))
  obtain ⟨hnext, hstop⟩ := scan_of_wire (fun g hg => ⟨(hframes g hg).1, (hframes g hg).2.1⟩)
    hbytes (.inl Framer.undecided_nil)
  rcases hcases with ⟨f, rest, hfound, rfl⟩ | ⟨hwait, rfl⟩ | ⟨e, hfound, rfl⟩
  · obtain ⟨late', rfl, hrest⟩ := hnext f rest hfound
    refine ⟨⟨late', ?_, ?_, h.withheld, ?_, h.fresh⟩, ?_⟩
    · exact (List.suffix_cons f late').trans h.suffix
    · rw [List.append_nil] at hrest
      exact hrest
    · exact open_of_routeFor (hframes f List.mem_cons_self).2.2 _ _
    · exact markRouted_of_ne_stream (routeFor_ne_stream halive (h.noCollector halive) f.2) _
  · rw [List.append_nil] at hbytes
    exact ⟨⟨late, h.suffix, hbytes, h.withheld, trivial, h.fresh⟩, rfl⟩
  · -- with no frame under way the buffer is empty, and there is nothing to stop at
    obtain rfl := hstop e hfound
    obtain ⟨rfl, -⟩ := List.append_eq_nil_iff.mp hbytes
    cases hfound

theorem Before.dispatch (h : Before i tag script x late)
    (hdispatch : x.client.dispatchFrame = some s') :
    Before i tag script { x with client := s' } late := by
  obtain ⟨route, p, buffer, hr, hr'⟩ := dispatchFrame_reader hdispatch
  have hsame : Reads i x.client s' := reads_of_dispatchFrame hdispatch
  have hbytes := h.bytes
  rw [hr] at hbytes
  exact {
    suffix := h.suffix
    bytes := by rw [hr']; exact hbytes
    withheld := h.withheld
    reader := by rw [hr']; trivial
    fresh := by rw [hsame.registered]; exact h.fresh }

theorem failAllPending_eq (h : s.failAllPending = some s') :
    ∃ e, s.reader = .failing e ∧ s' = { s with
      pending := ⟨[], []⟩
      resolved := s.resolved ++ s.pending.replies.map fun r =>
        ⟨r.2, .error e, none, !s.abandoned.contains r.2⟩
      reader := .stopped } := by
  unfold Dispatcher.failAllPending at h
  split at h
  next e hr =>
    cases h
    exact ⟨e, hr, rfl⟩
  · cases h

theorem reads_of_failAllPending (h : s.failAllPending = some s') : Reads i s s' := by
  obtain ⟨e, hr, rfl⟩ := failAllPending_eq h
  exact ⟨rfl, rfl, rfl, rfl, rfl, rfl, rfl⟩

/-- A read loop that fails every command is not open. -/
theorem not_open_of_failAllPending (h : s.failAllPending = some s') : ¬ s.reader.Open tag := by
  obtain ⟨e, hr, -⟩ := failAllPending_eq h
  rw [hr]
  exact id

theorem Before.read {buffer : Bytes} (h : Before i tag script x late)
    (hr : x.client.reader = .reading buffer) (n : ℕ) : Before i tag script { x with
      client := { x.client with reader := .scanning (buffer ++ x.incoming.take n) }
      incoming := x.incoming.drop n } late := by
  refine { h with bytes := ?_, reader := trivial }
  have hbytes := h.bytes
  rw [hr] at hbytes
  rw [← hbytes]
  simp [Reader.unread]

/-- A step of the write loop, as the command sees it. -/
structure Writes (s s' : Dispatcher) : Prop where
  tagCounter : s'.tagCounter = s.tagCounter
  issued : s'.issued = s.issued
  reader : s'.reader = s.reader
  streams : s'.streams = s.streams
  resolved : s'.resolved = s.resolved
  registered : ∀ j ∈ s'.registered, j ∈ s.registered ++ s.waiting

theorem writes_of_moves {a : Dispatcher.Action} (hm : Dispatcher.Moves maxFrameSize s a s')
    (ha : OfWriter a) : Writes s s' := by
  cases hm with
  | @register bytes answer j collector hw =>
    refine ⟨rfl, rfl, rfl, rfl, rfl, fun k hk => ?_⟩
    rcases List.mem_append.mp hk with hk | hk
    · exact List.mem_append_left _ hk
    · simp [Dispatcher.waiting, hw, Writer.next, List.mem_singleton.mp hk]
  | stay | recvCommand | recvRaw | recvNone | wrote | written =>
    exact ⟨rfl, rfl, rfl, rfl, rfl, fun k hk => List.mem_append_left _ hk⟩
  | _ => cases ha

theorem Before.write (h : Before i tag script x late) (hw : Writes x.client s')
    (hfresh : i ∉ s'.registered) : Before i tag script { x with client := s' } late where
  suffix := h.suffix
  bytes := by rw [hw.reader]; exact h.bytes
  withheld := h.withheld
  reader := by rw [hw.reader]; exact h.reader
  fresh := hfresh

/-! ### The stages, one by one -/

/-- **While the command is being called.** -/
theorem stands_calling (hbreaks : hasLineBreaks cmd = false)
    (hvalid : script.Valid maxFrameSize tag) (halive : Alive maxFrameSize i x.client)
    (h : Before i tag script x late) (hstage : x.stage = .calling) (hissued : x.client.issued = i)
    (htag : formatTag x.client.tagCounter.toNat = tag) (hframes : x.frames = []) {a : Action}
    (hC : AnswersInTime i a x) (hm : Moves maxFrameSize cmd wants i script x a x') :
    Stands wants i tag (commandLine tag cmd) script x' := by
  have hline := Dispatcher.inLine_of_reachable halive.reachable
  have hread : ∀ {s' late'}, Reads i x.client s' →
      Before i tag script { x with client := s' } late' →
      Stands wants i tag (commandLine tag cmd) script { x with client := s' } :=
    fun hr h' => .calling _ h' hstage (hr.issued.trans hissued) (by rw [hr.tagCounter, htag])
      hframes
  cases hm with
  | refuse _ hrefused => cases hbreaks.symm.trans hrefused
  | enqueue _ _ hclient =>
    obtain ⟨-, rfl⟩ := alive_of_enqueue hbreaks hissued hclient halive
    have hwaits : ∀ j ∈ x.client.waiting, j ≠ i := fun j hj =>
      hissued ▸ Nat.ne_of_lt (hline.bound j (List.mem_append_right _ hj))
    refine .queued late { h with } (.inr ⟨x.client.queue, by rw [htag], ?_, ?_⟩) ⟨rfl, ?_, ?_⟩ ?_
    · intro request hmem heq
      refine hwaits i (List.mem_append_right _ ?_) rfl
      exact List.mem_filterMap.mpr ⟨request, hmem, heq⟩
    · exact fun hmem => hwaits i (List.mem_append_left _ hmem) rfl
    · simp
    · simp [hframes]
    · simp
  | frame hpolling | ended hpolling => cases hstage.symm.trans hpolling
  | close hclosing => cases hstage.symm.trans hclosing
  | drain hdraining | drained hdraining => cases hstage.symm.trans hdraining
  | reply hawaiting => cases hstage.symm.trans hawaiting
  | write hb hclient =>
    have hw := writes_of_moves (Dispatcher.moves_of_step hclient) hb
    refine .calling late (h.write hw fun hmem => ?_) hstage ?_ ?_ hframes
    · exact Nat.lt_irrefl _ (hissued ▸ hline.bound i (hw.registered i hmem))
    · rw [hw.issued, hissued]
    · rw [hw.tagCounter, htag]
  | answer => exact absurd (hC rfl) h.fresh
  | finish => exact absurd (hC rfl) h.fresh
  | read _ hr => exact .calling late (h.read hr _) hstage hissued htag hframes
  | scan hclient =>
    obtain ⟨⟨late', h'⟩, -⟩ := h.scan hvalid halive hclient
    exact hread (reads_of_moves (Dispatcher.moves_scanBuffer hclient) trivial) h'
  | dispatch hclient => exact hread (reads_of_dispatchFrame hclient) (h.dispatch hclient)
  | failAll hclient => exact absurd h.reader (not_open_of_failAllPending hclient)

theorem Following.reads (h : Following i x) (hr : Reads i x.client s') :
    Following i { x with client := s' } where
  stage := h.stage
  receiver := hr.receiver.trans h.receiver
  frames := by rw [hr.yielded]; exact h.frames

/-- The command in line holds the sending half of its stream. -/
theorem Queued.hasSender (h : Queued wants i tag line s) : s.hasSender i = true := by
  unfold Dispatcher.hasSender
  rcases h with ⟨hw, -⟩ | ⟨others, hq, -⟩
  · simp [hw]
  · simp [hq, Dispatcher.WriteRequest.holds]

/-- A stream with a sender left does not end. -/
theorem not_ended_of_hasSender (h : s.hasSender i = true) : s.nextFrame i ≠ .ready none := by
  unfold Dispatcher.nextFrame
  split
  · simp
  · simp [h]

/-- The write loop on its way to the command. -/
theorem Queued.write {b : Dispatcher.Action} (h : Queued wants i tag line s)
    (hstep : Dispatcher.step maxFrameSize b s = some s') (hb : OfWriter b) :
    (Queued wants i tag line s' ∧ ∀ j ∈ s'.registered, j ∈ s.registered ∨ j ≠ i) ∨
      s.queue = [] ∧ s' = { s with
        pending := s.pending.register tag i (some wants)
        registered := s.registered ++ [i]
        writer := .writing (some i) line } := by
  cases Dispatcher.moves_of_step hstep with
  | stay => exact .inl ⟨h, fun j hj => .inl hj⟩
  | @recvCommand bytes other j collector queue hw hq =>
    left
    refine ⟨?_, fun j hj => .inl hj⟩
    rcases h with ⟨hw', -⟩ | ⟨others, hq', hothers, hnext⟩
    · cases hw.symm.trans hw'
    rw [hq] at hq'
    cases others with
    | nil =>
      cases hq'
      exact .inl ⟨rfl, rfl⟩
    | cons request others =>
      cases hq'
      refine .inr ⟨others, rfl, fun r hr => hothers r (List.mem_cons_of_mem _ hr), ?_⟩
      intro hmem
      refine hothers _ List.mem_cons_self ?_
      rw [List.mem_singleton.mp hmem]
      rfl
  | @recvRaw bytes queue hw hq =>
    left
    refine ⟨?_, fun j hj => .inl hj⟩
    rcases h with ⟨hw', -⟩ | ⟨others, hq', hothers, hnext⟩
    · cases hw.symm.trans hw'
    rw [hq] at hq'
    cases others with
    | nil => cases hq'
    | cons request others =>
      cases hq'
      exact .inr ⟨others, rfl, fun r hr => hothers r (List.mem_cons_of_mem _ hr), by
        simp [Writer.next]⟩
  | recvNone hw hq =>
    rcases h with ⟨hw', -⟩ | ⟨others, hq', -⟩
    · cases hw.symm.trans hw'
    · rw [hq] at hq'
      simp at hq'
  | @register bytes other j collector hw =>
    rcases h with ⟨hw', hq⟩ | ⟨others, hq, hothers, hnext⟩
    · cases hw.symm.trans hw'
      exact .inr ⟨hq, rfl⟩
    · left
      refine ⟨.inr ⟨others, hq, hothers, by simp [Writer.next]⟩, fun k hk => ?_⟩
      rcases List.mem_append.mp hk with hk | hk
      · exact .inl hk
      · rw [List.mem_singleton.mp hk]
        refine .inr fun hj => hnext ?_
        rw [hw, hj]
        exact List.mem_singleton_self i
  | wrote hw | written hw =>
    left
    refine ⟨?_, fun j hj => .inl hj⟩
    rcases h with ⟨hw', -⟩ | ⟨others, hq, hothers, hnext⟩
    · cases hw.symm.trans hw'
    · exact .inr ⟨others, hq, hothers, by simp [Writer.next]⟩
  | _ => cases hb

/-- A registered command is found under its tag. -/
theorem lookup_register (p : Pending) (collector : Option FrameFilter) :
    (p.register tag i collector).replies.lookup tag = some i := by
  have hnone : (p.replies.filter fun e => decide (e.1 ≠ tag)).lookup tag = none := by
    refine List.lookup_eq_none_iff.mpr fun e he => ?_
    have hne : e.1 ≠ tag := of_decide_eq_true (List.mem_filter.mp he).2
    exact bne_iff_ne.mpr hne.symm
  simp only [Pending.register, List.lookup_append, hnone]
  simp

/-- The command enters the pending table. -/
theorem Before.entered (h : Before i tag script x late) (halive : Alive maxFrameSize i x.client)
    (hq : x.client.queue = []) : Entered wants i tag { x.client with
      pending := x.client.pending.register tag i (some wants)
      registered := x.client.registered ++ [i]
      writer := .writing (some i) line } := by
  have htabled := Dispatcher.tabled_of_reachable halive.reachable
  refine {
    registered := by simp
    queue := hq
    writer := rfl
    lookup := lookup_register _ _
    replies := ?_
    unresolved := ?_
    collector := ?_
    collectors := ?_ }
  · intro r hr hri
    rcases List.mem_append.mp hr with hr | hr
    · exact absurd (hri ▸ htabled.replies r (List.mem_of_mem_filter hr)) h.fresh
    · rw [List.mem_singleton.mp hr]
  · intro r hr hri
    exact h.fresh (hri ▸ htabled.resolved r hr)
  · exact ⟨⟨tag, wants, i⟩, by simp [Pending.register], rfl⟩
  · intro c hc hci
    rcases List.mem_append.mp hc with hc | hc
    · exact absurd hci (h.noCollector halive c hc)
    · obtain rfl : c = ⟨tag, wants, i⟩ := by simpa using hc
      exact ⟨rfl, rfl⟩

/-- **While the command is in line.** -/
theorem stands_queued (hvalid : script.Valid maxFrameSize tag)
    (halive : Alive maxFrameSize i x.client) (h : Before i tag script x late)
    (hqueued : Queued wants i tag line x.client) (hfollow : Following i x)
    (hrouted : (x.client.streams i).routed = []) {a : Action} (hC : AnswersInTime i a x)
    (hm : Moves maxFrameSize cmd wants i script x a x') : Stands wants i tag line script x' := by
  have hconserved := Dispatcher.conserved_of_reachable halive.reachable
  have hread : ∀ {s' late'}, Reads i x.client s' → (s'.streams i).routed = [] →
      Before i tag script { x with client := s' } late' →
      Stands wants i tag line script { x with client := s' } := by
    intro s' late' hr hrouted' h'
    refine .queued late' h' ?_ (hfollow.reads hr) hrouted'
    simpa only [Queued, hr.writer, hr.queue] using hqueued
  cases hm with
  | refuse hcalling | enqueue hcalling => cases hfollow.stage.symm.trans hcalling
  | frame _ hq =>
    have hin := hconserved.inOrder i hfollow.receiver
    rw [hrouted, hq] at hin
    simp at hin
  | ended _ hend => exact absurd hend (not_ended_of_hasSender hqueued.hasSender)
  | close hclosing => cases hfollow.stage.symm.trans hclosing
  | drain hdraining | drained hdraining => cases hfollow.stage.symm.trans hdraining
  | reply hawaiting => cases hfollow.stage.symm.trans hawaiting
  | write hb hclient =>
    have hw := writes_of_moves (Dispatcher.moves_of_step hclient) hb
    rcases hqueued.write hclient hb with ⟨hqueued', hreg⟩ | ⟨hq, rfl⟩
    · have hfresh : i ∉ _ := fun hmem => (hreg i hmem).elim h.fresh fun hne => hne rfl
      refine .queued late (h.write hw hfresh) hqueued' ⟨hfollow.stage, ?_, ?_⟩ ?_
      · rw [hw.streams]
        exact hfollow.receiver
      · rw [hw.streams]
        exact hfollow.frames
      · rw [hw.streams]
        exact hrouted
    · refine .streaming late (late ++ script.frames) (h.entered halive hq) ⟨hfollow.stage,
        hfollow.receiver, hfollow.frames⟩ h.reader ⟨h.suffix, ?_, ?_, ?_⟩
      · intro f hf
        rcases List.mem_append.mp hf with hf | hf
        · exact List.mem_append_left _ (h.suffix.subset hf)
        · exact List.mem_append_right _ hf
      · change x.client.reader.unread ++ (x.incoming ++ x.withheld) = _
        rw [← List.append_assoc, h.bytes, h.withheld, Script.answer_eq]
        simp
      · simp [given, hrouted]
  | answer => exact absurd (hC rfl) h.fresh
  | finish => exact absurd (hC rfl) h.fresh
  | read _ hr =>
    exact .queued late (h.read hr _) hqueued ⟨hfollow.stage, hfollow.receiver, hfollow.frames⟩
      hrouted
  | scan hclient =>
    obtain ⟨⟨late', h'⟩, hstreams⟩ := h.scan hvalid halive hclient
    refine hread (reads_of_moves (Dispatcher.moves_scanBuffer hclient) trivial) ?_ h'
    rw [hstreams]
    exact hrouted
  | dispatch hclient =>
    refine hread (reads_of_dispatchFrame hclient) ?_ (h.dispatch hclient)
    rw [routed_of_dispatchFrame hclient]
    exact hrouted
  | failAll hclient => exact absurd h.reader (not_open_of_failAllPending hclient)

/-- A registered command holds the sending half of its stream. -/
theorem Entered.hasSender (h : Entered wants i tag s) : s.hasSender i = true := by
  obtain ⟨c, hc, htx⟩ := h.collector
  have hany : s.pending.collectors.any (·.tx == i) = true :=
    List.any_eq_true.mpr ⟨c, hc, by rw [htx]; exact beq_self_eq_true i⟩
  simp [Dispatcher.hasSender, hany]

/-- With the command out of the line, the write loop only writes. -/
theorem Through.write {b : Dispatcher.Action} (h : Through i s) (hhandles : s.handles = true)
    (hstep : Dispatcher.step maxFrameSize b s = some s') (hb : OfWriter b) :
    Through i s' ∧ s'.pending = s.pending ∧ Writes s s' := by
  have hw := writes_of_moves (Dispatcher.moves_of_step hstep) hb
  cases b with
  | recvRequest =>
    have hstep : s.recvRequest = some s' := hstep
    unfold Dispatcher.recvRequest at hstep
    rw [h.queue] at hstep
    split at hstep
    next hq => cases hq
    next hq => cases hq
    · rw [if_pos hhandles] at hstep
      cases hstep
    · cases hstep
  | register =>
    have hstep : s.register = some s' := hstep
    unfold Dispatcher.register at hstep
    split at hstep
    next hw =>
      have hnext := h.writer
      rw [hw] at hnext
      cases hnext
    · cases hstep
  | writeBytes n =>
    cases Dispatcher.moves_of_step hstep with
    | stay => exact ⟨h, rfl, hw⟩
    | wrote | written => exact ⟨{ h with writer := rfl }, rfl, hw⟩
  | _ => cases hb

theorem Entered.write {b : Dispatcher.Action} (h : Entered wants i tag s)
    (hhandles : s.handles = true) (hstep : Dispatcher.step maxFrameSize b s = some s')
    (hb : OfWriter b) : Entered wants i tag s' ∧ Writes s s' := by
  obtain ⟨hthrough, hpending, hw⟩ := h.toThrough.write hhandles hstep hb
  refine ⟨{ hthrough with
    lookup := by rw [hpending]; exact h.lookup
    replies := by rw [hpending]; exact h.replies
    unresolved := by rw [hw.resolved]; exact h.unresolved
    collector := by rw [hpending]; exact h.collector
    collectors := by rw [hpending]; exact h.collectors }, hw⟩

theorem Following.write (h : Following i x) (hw : Writes x.client s') :
    Following i { x with client := s' } where
  stage := h.stage
  receiver := by rw [hw.streams]; exact h.receiver
  frames := by rw [hw.streams]; exact h.frames

/-- The caller takes a frame out of its stream. -/
theorem Following.frame (h : Following i x) (f : Parsed) (rest : List Parsed) :
    Following i { x with
      client := x.client.setStream i { x.client.streams i with
        queue := rest, yielded := (x.client.streams i).yielded ++ [f] }
      frames := x.frames ++ [f.frame.1] } where
  stage := h.stage
  receiver := by simp [Dispatcher.setStream, h.receiver]
  frames := by simp [Dispatcher.setStream, h.frames]

theorem lookup_complete {other : Bytes} (p : Pending) (hne : other ≠ tag) :
    (p.complete other).2.replies.lookup tag = p.replies.lookup tag := by
  change (p.replies.filter fun e => decide (e.1 ≠ other)).lookup tag = p.replies.lookup tag
  induction p.replies with
  | nil => rfl
  | cons e replies ih =>
    obtain ⟨k, j⟩ := e
    by_cases hk : k = other
    · have hbeq : (tag == k) = false := beq_eq_false_iff_ne.mpr (hk ▸ hne.symm)
      rw [List.filter_cons_of_neg (by simp [hk]), List.lookup_cons, hbeq, ih]
    · rw [List.filter_cons_of_pos (by simp [hk]), List.lookup_cons, List.lookup_cons, ih]

/-- Another command's tagged response leaves the command in the table. -/
theorem Entered.complete (h : Entered wants i tag s) {other : Bytes} (hne : other ≠ tag)
    {resolved : List Resolution} (hresolved : ∀ r ∈ resolved, r.command ≠ i)
    (broadcast : List Parsed) (reader : Reader) : Entered wants i tag { s with
      pending := (s.pending.complete other).2
      resolved
      broadcast
      reader } := by
  refine {
    registered := h.registered
    queue := h.queue
    writer := h.writer
    lookup := (lookup_complete s.pending hne).trans h.lookup
    replies := fun r hr => h.replies r (List.mem_of_mem_filter hr)
    unresolved := hresolved
    collector := ?_
    collectors := fun c hc => h.collectors c (List.mem_of_mem_filter hc) }
  obtain ⟨c, hc, hci⟩ := h.collector
  have htag : c.tag ≠ other := fun heq => hne (heq.symm.trans (h.collectors c hc hci).1)
  exact ⟨c, List.mem_filter.mpr ⟨hc, decide_eq_true htag⟩, hci⟩

/-- A frame goes where it was routed, unless it answers the command. -/
theorem Entered.dispatch (h : Entered wants i tag s) (hopen : s.reader.Open tag)
    (hdispatch : s.dispatchFrame = some s') : Entered wants i tag s' := by
  have hm : Dispatcher.Moves 0 s .dispatchFrame s' := Dispatcher.moves_dispatchFrame hdispatch
  cases hm with
  | @resolve other status text p buffer tx hr hlookup =>
    rw [hr] at hopen
    refine h.complete hopen (fun r hmem => ?_) s.broadcast _
    rcases List.mem_append.mp hmem with hmem | hmem
    · exact h.unresolved r hmem
    · rw [List.mem_singleton.mp hmem]
      exact fun hi => hopen (h.replies _ (mem_of_lookup hlookup) hi)
  | @unclaimed other status text p buffer hr hlookup =>
    rw [hr] at hopen
    exact h.complete hopen h.unresolved _ _
  | _ => exact { h with }

/-- **Where a frame goes while the command streams.** To its stream exactly when it wants it. -/
theorem Entered.routeFor (h : Entered wants i tag s) (halive : Alive maxFrameSize i s)
    (hopen : (s.streams i).receiver = .open) (f : Frame) :
    if Script.wanted wants f then s.routeFor f.2 = .stream i
    else ∀ tx, s.routeFor f.2 ≠ .stream tx := by
  -- only the command's own collector can be listening
  have hlistens : ∀ c ∈ s.pending.collectors,
      s.listens f.2 c = (decide (c.tx = i) && wants f.2) := by
    intro c hc
    by_cases hci : c.tx = i
    · simp [Dispatcher.listens, Dispatcher.isClosed, hci, hopen, (h.collectors c hc hci).2]
    · simp [Dispatcher.listens, Dispatcher.isClosed, hci, halive.others _ hci]
  cases htag : f.2.tag? with
  | some other =>
    have hno : Script.wanted wants f = false := by simp [Script.wanted, htag]
    rw [hno, if_neg Bool.false_ne_true]
    intro tx hroute
    unfold Response.tag? at htag
    split at htag
    next hf =>
      rw [hf] at hroute
      cases hroute
    · cases htag
  | none =>
    have hwanted : Script.wanted wants f = wants f.2 := by simp [Script.wanted, htag]
    rw [hwanted, Dispatcher.routeFor_untagged htag]
    cases hwants : wants f.2 with
    | false =>
      have hnone : s.pending.collectors.find? (s.listens f.2) = none :=
        List.find?_eq_none.mpr fun c hc => by simp [hlistens c hc, hwants]
      simp [hnone]
    | true =>
      obtain ⟨c, hc, hci⟩ := h.collector
      cases hfind : s.pending.collectors.find? (s.listens f.2) with
      | none =>
        have := List.find?_eq_none.mp hfind c hc
        simp [hlistens c hc, hci, hwants] at this
      | some c' =>
        have hfound := List.find?_some hfind
        rw [hlistens c' (List.mem_of_find?_eq_some hfind), hwants, Bool.and_true] at hfound
        simp [of_decide_eq_true hfound]

theorem Script.Valid.last (h : script.Valid maxFrameSize tag) :
    ∀ g ∈ script.last, responseFramer.Complete g ∧ g.1.length ≤ maxFrameSize ∧
      g.2.tag? = some tag := by
  intro g hg
  have hending := h.ending
  unfold Script.last at hg
  cases hend : script.ending with
  | tagged frame more =>
    rw [hend] at hg hending
    rw [List.mem_singleton.mp hg]
    exact hending
  | broken tail =>
    rw [hend] at hg
    cases hg

theorem Script.Valid.complete (hvalid : script.Valid maxFrameSize tag) {fs : List Frame}
    (h : Streaming wants i script x late fs) :
    ∀ g ∈ fs ++ script.last, responseFramer.Complete g ∧ g.1.length ≤ maxFrameSize := by
  intro g hg
  rcases List.mem_append.mp hg with hg | hg
  · have hframe := hvalid.frames g (h.frames g hg)
    exact ⟨hframe.1, hframe.2.1⟩
  · have hframe := Script.Valid.last hvalid g hg
    exact ⟨hframe.1, hframe.2.1⟩

theorem Script.Valid.undecided (h : script.Valid maxFrameSize tag) (hlast : script.last = []) :
    responseFramer.Undecided script.tail := by
  have hending := h.ending
  unfold Script.last at hlast
  unfold Script.tail
  cases hend : script.ending with
  | tagged frame more =>
    rw [hend] at hlast
    cases hlast
  | broken tail =>
    rw [hend] at hending
    exact hending.1

theorem Script.ending_of_last_nil (h : script.last = []) :
    ∃ tail, script.ending = .broken tail := by
  unfold Script.last at h
  cases hend : script.ending with
  | tagged frame more =>
    rw [hend] at h
    cases h
  | broken tail => exact ⟨tail, rfl⟩

theorem Script.ending_of_last_cons {f : Frame} {gs : List Frame} (h : script.last = f :: gs) :
    ∃ more, script.ending = .tagged f more := by
  unfold Script.last at h
  cases hend : script.ending with
  | tagged frame more =>
    rw [hend] at h
    cases h
    exact ⟨more, rfl⟩
  | broken tail =>
    rw [hend] at h
    cases h

/-- A response with a tag is a tagged status. -/
theorem status_of_tag? {response : Response} (h : response.tag? = some tag) :
    ∃ answer status code text, response = .status ⟨some answer, status, code, text⟩ ∧
      answer.bytes = tag := by
  unfold Response.tag? at h
  split at h
  next answer status code text =>
    exact ⟨answer, status, code, text, rfl, Option.some.inj h⟩
  · cases h

/-- What a look at the buffer gives the stream. -/
theorem given_scanFrame (hentered : Entered wants i tag s) (halive : Alive maxFrameSize i s)
    (hopen : (s.streams i).receiver = .open) (f : Frame) (rest : Bytes) {parsed : List Parsed} :
    given i { s with
      reader := .dispatching (s.routeFor f.2) ⟨f, s.parsed.length, none⟩ rest
      parsed
      streams := s.markRouted (s.routeFor f.2) ⟨f, s.parsed.length, none⟩ }
      = given i s ++ [f].filter (Script.wanted wants) := by
  have hroute := hentered.routeFor halive hopen f
  simp only [given, Dispatcher.markRouted_apply s _ _ rest i]
  cases hwanted : Script.wanted wants f with
  | true =>
    rw [hwanted, if_pos rfl] at hroute
    simp [hroute, Dispatcher.Reader.handFor, hwanted]
  | false =>
    rw [hwanted, if_neg Bool.false_ne_true] at hroute
    cases hr : s.routeFor f.2 with
    | stream tx => exact absurd hr (hroute tx)
    | _ => simp [Dispatcher.Reader.handFor, hwanted]

/-- **One look at the buffer while the command streams.** -/
theorem stands_scan (hvalid : script.Valid maxFrameSize tag)
    (halive : Alive maxFrameSize i x.client)
    (hentered : Entered wants i tag x.client) (hfollow : Following i x)
    {fs : List Frame} (h : Streaming wants i script x late fs)
    (hscan : x.client.scanBuffer maxFrameSize none = some s') :
    Stands wants i tag line script { x with client := s' } := by
  obtain ⟨buffer, hr, hcases⟩ := scanBuffer_cases hscan
  have hreads : Reads i x.client s' :=
    reads_of_moves (Dispatcher.moves_scanBuffer hscan) trivial
  have hbytes := h.bytes
  rw [hr] at hbytes
  have htail : responseFramer.Undecided script.tail ∨ fs ++ script.last ≠ [] := by
    by_cases hlast : script.last = []
    · exact .inl (Script.Valid.undecided hvalid hlast)
    · exact .inr fun hnil => hlast (List.append_eq_nil_iff.mp hnil).2
  obtain ⟨hnext, hstop⟩ := scan_of_wire (Script.Valid.complete hvalid h) hbytes htail
  rcases hcases with ⟨f, rest, hfound, rfl⟩ | ⟨-, rfl⟩ | ⟨e, hfound, rfl⟩
  · obtain ⟨gs, hgs, hrest⟩ := hnext f rest hfound
    have hgiven := h.given
    cases fs with
    | nil =>
      rw [List.nil_append] at hgs
      obtain ⟨more, hending⟩ := Script.ending_of_last_cons hgs
      have htag := (Script.Valid.last hvalid f (hgs ▸ List.mem_cons_self)).2.2
      obtain ⟨answer, status, code, text, hstatus, hanswer⟩ := status_of_tag? htag
      have hroute : x.client.routeFor f.2 = .tagged answer status text := by rw [hstatus]; rfl
      rw [hroute]
      refine .answered late answer status code text _ rest more { hentered with }
        ⟨hfollow.stage, hfollow.receiver, hfollow.frames⟩ rfl hanswer hending hstatus h.suffix ?_
      rw [← hgiven]
      exact (List.append_nil _).symm
    | cons g fs =>
      rw [List.cons_append] at hgs
      obtain ⟨rfl, hfs⟩ := List.cons.inj hgs
      have hother := (hvalid.frames g (h.frames g List.mem_cons_self)).2.2
      refine .streaming late fs { hentered with } (hfollow.reads hreads)
        (open_of_routeFor hother _ _) ⟨h.suffix, fun f hf => h.frames f (List.mem_cons_of_mem _ hf),
          ?_, ?_⟩
      · rw [← hfs] at hrest
        exact hrest
      · rw [given_scanFrame hentered halive hfollow.receiver g rest, ← hgiven, List.append_assoc,
          ← List.filter_append]
        rfl
  · exact .streaming late fs { hentered with } (hfollow.reads hreads) trivial
      ⟨h.suffix, h.frames, hbytes, h.given⟩
  · obtain ⟨tail, hending⟩ :=
      Script.ending_of_last_nil (List.append_eq_nil_iff.mp (hstop e hfound)).2
    exact .broken e tail { hentered with } (hfollow.reads hreads) rfl hending

/-- A read loop that waits has looked at every frame there is. -/
theorem fs_nil_of_waits {gs : List Frame} {buffer y : Bytes}
    (hgs : ∀ g ∈ gs, responseFramer.Complete g) (hwait : parseResponse buffer = .error .incomplete)
    (hbytes : buffer = wire gs ++ y) : gs = [] := by
  cases gs with
  | nil => rfl
  | cons g gs =>
    have hok : parseResponse (g.1 ++ (wire gs ++ y)) = .ok (wire gs ++ y, g.2) :=
      (hgs g List.mem_cons_self).decode_append _
    rw [wire_cons, List.append_assoc] at hbytes
    rw [hbytes, hok] at hwait
    cases hwait

/-- **While the command streams.** -/
theorem stands_streaming (hvalid : script.Valid maxFrameSize tag)
    (halive : Alive maxFrameSize i x.client) (hentered : Entered wants i tag x.client)
    (hfollow : Following i x) (hopen : x.client.reader.Open tag) {fs : List Frame}
    (h : Streaming wants i script x late fs) {a : Action}
    (hm : Moves maxFrameSize cmd wants i script x a x') : Stands wants i tag line script x' := by
  cases hm with
  | refuse hcalling | enqueue hcalling => cases hfollow.stage.symm.trans hcalling
  | @frame f rest =>
    refine .streaming late fs { hentered with } (hfollow.frame f rest) hopen
      ⟨h.suffix, h.frames, h.bytes, ?_⟩
    simpa [given, Dispatcher.setStream] using h.given
  | ended _ hend => exact absurd hend (not_ended_of_hasSender hentered.hasSender)
  | close hclosing => cases hfollow.stage.symm.trans hclosing
  | drain hdraining | drained hdraining => cases hfollow.stage.symm.trans hdraining
  | reply hawaiting => cases hfollow.stage.symm.trans hawaiting
  | write hb hclient =>
    obtain ⟨hentered', hw⟩ := hentered.write halive.handles hclient hb
    refine .streaming late fs hentered' (hfollow.write hw) ?_ ⟨h.suffix, h.frames, ?_, ?_⟩
    · rw [hw.reader]
      exact hopen
    · rw [hw.reader]
      exact h.bytes
    · rw [given, hw.streams]
      exact h.given
  | answer =>
    refine .streaming late fs hentered ⟨hfollow.stage, hfollow.receiver, hfollow.frames⟩ hopen
      ⟨h.suffix, h.frames, ?_, h.given⟩
    rw [← h.bytes, List.append_nil]
  | @read n buffer _ hr =>
    refine .streaming late fs { hentered with } ⟨hfollow.stage, hfollow.receiver, hfollow.frames⟩
      trivial ⟨h.suffix, h.frames, ?_, h.given⟩
    have hbytes := h.bytes
    rw [hr] at hbytes
    rw [← hbytes]
    change (buffer ++ x.incoming.take n) ++ (x.incoming.drop n ++ x.withheld) = _
    rw [List.append_assoc, ← List.append_assoc (x.incoming.take n), List.take_append_drop]
    rfl
  | @finish buffer hin hwithheld hr =>
    have hbytes := h.bytes
    rw [hr, hin, hwithheld, List.append_nil, List.append_nil] at hbytes
    have hnil := fs_nil_of_waits (fun g hg => (Script.Valid.complete hvalid h g hg).1)
      (Dispatcher.waits_of_reachable halive.reachable buffer hr) hbytes
    obtain ⟨tail, hending⟩ := Script.ending_of_last_nil (List.append_eq_nil_iff.mp hnil).2
    exact .broken _ tail { hentered with } ⟨hfollow.stage, hfollow.receiver, hfollow.frames⟩ rfl
      hending
  | scan hclient => exact stands_scan hvalid halive hentered hfollow h hclient
  | dispatch hclient =>
    have hreads : Reads i x.client _ := reads_of_dispatchFrame hclient
    obtain ⟨route, p, buffer, hr, hr'⟩ := dispatchFrame_reader hclient
    refine .streaming late fs (hentered.dispatch hopen hclient) (hfollow.reads hreads) ?_
      ⟨h.suffix, h.frames, ?_, ?_⟩
    · rw [hr']
      trivial
    · have hbytes := h.bytes
      rw [hr] at hbytes
      rw [hr']
      exact hbytes
    · rw [given, routed_of_dispatchFrame hclient]
      exact h.given
  | failAll hclient => exact absurd hopen (not_open_of_failAllPending hclient)

/-- The tagged response resolves the command. -/
theorem Entered.settle (h : Entered wants i tag s) {answer : Str} {status : Status} {text : Str}
    {p : Parsed} {buffer : Bytes}
    (hr : s.reader = .dispatching (.tagged answer status text) p buffer)
    (hanswer : answer.bytes = tag) (hdispatch : s.dispatchFrame = some s') :
    ∃ r, r.result = Dispatcher.taggedResult status text p.frame.1 ∧ Settled i s' r ∧
      s'.streams = s.streams := by
  have hm : Dispatcher.Moves 0 s .dispatchFrame s' := Dispatcher.moves_dispatchFrame hdispatch
  cases hm with
  | stay =>
    obtain ⟨_, _, _, hr, hr'⟩ := dispatchFrame_reader hdispatch
    cases hr.symm.trans hr'
  | @resolve other status' text' p' buffer' tx hr' hlookup =>
    cases hr.symm.trans hr'
    obtain rfl : i = tx := by
      rw [hanswer, h.lookup] at hlookup
      exact Option.some.inj hlookup
    refine ⟨⟨i, Dispatcher.taggedResult status text p.frame.1, some p, !s.abandoned.contains i⟩,
      rfl, {
      registered := h.registered
      queue := h.queue
      writer := h.writer
      resolved := ?_
      collectors := ?_
      hand := rfl }, rfl⟩
    · have hnone : s.resolved.find? (·.command == i) = none :=
        List.find?_eq_none.mpr fun r hr => by simpa using h.unresolved r hr
      simp [List.find?_append, hnone]
    · intro c hc hci
      have hkept := (List.mem_filter.mp hc).2
      have htag := (h.collectors c (List.mem_of_mem_filter hc) hci).1
      rw [htag, hanswer] at hkept
      simp at hkept
  | unclaimed hr' hlookup =>
    cases hr.symm.trans hr'
    rw [hanswer, h.lookup] at hlookup
    cases hlookup
  | push hr' | unsent hr' | publish hr' => cases hr.symm.trans hr'

/-- The end of the read loop resolves the command. -/
theorem Entered.fail (h : Entered wants i tag s) (hfail : s.failAllPending = some s') :
    ∃ r, (∃ e, r.result = .error e) ∧ Settled i s' r ∧ s'.streams = s.streams := by
  obtain ⟨e, -, rfl⟩ := failAllPending_eq hfail
  have hnone : s.resolved.find? (·.command == i) = none :=
    List.find?_eq_none.mpr fun r hr => by simpa using h.unresolved r hr
  have hsome : ((s.pending.replies.map fun q =>
      (⟨q.2, .error e, none, !s.abandoned.contains q.2⟩ : Resolution)).find?
        (·.command == i)).isSome := by
    rw [List.find?_isSome]
    exact ⟨_, List.mem_map_of_mem (mem_of_lookup h.lookup), beq_self_eq_true i⟩
  obtain ⟨r, hr⟩ := Option.isSome_iff_exists.mp hsome
  obtain ⟨q, -, hq⟩ := List.mem_map.mp (List.mem_of_find?_eq_some hr)
  refine ⟨r, ⟨e, by rw [← hq]⟩, {
    registered := h.registered
    queue := h.queue
    writer := h.writer
    resolved := ?_
    collectors := by simp
    hand := rfl }, rfl⟩
  simp only [List.find?_append, hnone, hr]
  rfl

theorem Following.finishing (h : Following i x) (r : Resolution) : Finishing i r x := by
  simp only [Finishing, h.stage]
  exact h

/-- **When the answer is in hand.** -/
theorem stands_answered {answer : Str} {status : Status} {code : Option ResponseCode} {text : Str}
    {p : Parsed} {buffer more : Bytes} (halive : Alive maxFrameSize i x.client)
    (hentered : Entered wants i tag x.client) (hfollow : Following i x)
    (hr : x.client.reader = .dispatching (.tagged answer status text) p buffer)
    (hanswer : answer.bytes = tag) (hending : script.ending = .tagged p.frame more)
    (hstatus : p.frame.2 = .status ⟨some answer, status, code, text⟩)
    (hlate : late <:+ script.early)
    (hgiven : given i x.client = (late ++ script.frames).filter (Script.wanted wants)) {a : Action}
    (hm : Moves maxFrameSize cmd wants i script x a x') : Stands wants i tag line script x' := by
  cases hm with
  | refuse hcalling | enqueue hcalling => cases hfollow.stage.symm.trans hcalling
  | @frame f rest =>
    refine .answered late answer status code text p buffer more { hentered with }
      (hfollow.frame f rest) hr hanswer hending hstatus hlate ?_
    simpa [given, Dispatcher.setStream] using hgiven
  | ended _ hend => exact absurd hend (not_ended_of_hasSender hentered.hasSender)
  | close hclosing => cases hfollow.stage.symm.trans hclosing
  | drain hdraining | drained hdraining => cases hfollow.stage.symm.trans hdraining
  | reply hawaiting => cases hfollow.stage.symm.trans hawaiting
  | write hb hclient =>
    obtain ⟨hentered', hw⟩ := hentered.write halive.handles hclient hb
    refine .answered late answer status code text p buffer more hentered' (hfollow.write hw)
      (hw.reader.trans hr) hanswer hending hstatus hlate ?_
    rw [given, hw.streams]
    exact hgiven
  | answer =>
    exact .answered late answer status code text p buffer more hentered
      ⟨hfollow.stage, hfollow.receiver, hfollow.frames⟩ hr hanswer hending hstatus hlate hgiven
  | read _ hr' => cases hr.symm.trans hr'
  | finish _ _ hr' => cases hr.symm.trans hr'
  | scan hclient =>
    obtain ⟨_, hr', -⟩ := scanBuffer_cases hclient
    cases hr.symm.trans hr'
  | @dispatch client hclient =>
    obtain ⟨r, hresult, hsettled, hstreams⟩ := hentered.settle hr hanswer hclient
    have hsame : given i client = given i x.client := by rw [given, hstreams, given]
    refine .settled r hsettled ((hfollow.reads (reads_of_dispatchFrame hclient)).finishing r) ?_
    simp only [Script.Outcome, hending]
    exact ⟨answer, status, code, text, late, hstatus, hresult, hlate, by rw [hsame, hgiven]⟩
  | failAll hclient =>
    obtain ⟨_, hr', -⟩ := failAllPending_eq hclient
    cases hr.symm.trans hr'

/-- **When the connection is broken.** -/
theorem stands_broken {e : ClientError} {tail : Bytes} (halive : Alive maxFrameSize i x.client)
    (hentered : Entered wants i tag x.client) (hfollow : Following i x)
    (hr : x.client.reader = .failing e) (hending : script.ending = .broken tail) {a : Action}
    (hm : Moves maxFrameSize cmd wants i script x a x') : Stands wants i tag line script x' := by
  cases hm with
  | refuse hcalling | enqueue hcalling => cases hfollow.stage.symm.trans hcalling
  | @frame f rest => exact .broken e tail { hentered with } (hfollow.frame f rest) hr hending
  | ended _ hend => exact absurd hend (not_ended_of_hasSender hentered.hasSender)
  | close hclosing => cases hfollow.stage.symm.trans hclosing
  | drain hdraining | drained hdraining => cases hfollow.stage.symm.trans hdraining
  | reply hawaiting => cases hfollow.stage.symm.trans hawaiting
  | write hb hclient =>
    obtain ⟨hentered', hw⟩ := hentered.write halive.handles hclient hb
    exact .broken e tail hentered' (hfollow.write hw) (hw.reader.trans hr) hending
  | answer =>
    exact .broken e tail hentered ⟨hfollow.stage, hfollow.receiver, hfollow.frames⟩ hr hending
  | read _ hr' => cases hr.symm.trans hr'
  | finish _ _ hr' => cases hr.symm.trans hr'
  | scan hclient =>
    obtain ⟨_, hr', -⟩ := scanBuffer_cases hclient
    cases hr.symm.trans hr'
  | dispatch hclient =>
    obtain ⟨_, _, _, hr', -⟩ := dispatchFrame_reader hclient
    cases hr.symm.trans hr'
  | failAll hclient =>
    obtain ⟨r, herror, hsettled, hstreams⟩ := hentered.fail hclient
    refine .settled r hsettled ((hfollow.reads (reads_of_failAllPending hclient)).finishing r) ?_
    simpa only [Script.Outcome, hending] using herror

/-- The read loop goes on after the command is settled. -/
theorem Settled.reads {r : Resolution} {b : Dispatcher.Action} (h : Settled i s r)
    (halive : Alive maxFrameSize i s) (hb : OfReader b)
    (hstep : Dispatcher.step maxFrameSize b s = some s') :
    Settled i s' r ∧ given i s' = given i s := by
  have hmore : ∀ l, (s.resolved ++ l).find? (·.command == i) = some r := by
    intro l
    rw [List.find?_append, h.resolved]
    rfl
  cases Dispatcher.moves_of_step hstep with
  | stay => exact ⟨h, rfl⟩
  | readEnd | readMore | scanWait | scanStop | unsent | publish =>
    exact ⟨{ h with hand := rfl }, rfl⟩
  | @scanFrame buffer owner frame rest hr hs =>
    have hroute := routeFor_ne_stream halive h.collectors frame.2
    rw [markRouted_of_ne_stream hroute]
    refine ⟨{ h with hand := ?_ }, rfl⟩
    cases hroute' : s.routeFor frame.2 with
    | stream tx => exact absurd hroute' (hroute tx)
    | _ => rfl
  | resolve =>
    exact ⟨{ h with
      resolved := hmore _
      collectors := fun c hc => h.collectors c (List.mem_of_mem_filter hc)
      hand := rfl }, rfl⟩
  | unclaimed =>
    exact ⟨{ h with
      collectors := fun c hc => h.collectors c (List.mem_of_mem_filter hc)
      hand := rfl }, rfl⟩
  | @push tx p buffer hr hopen =>
    refine ⟨{ h with hand := rfl }, ?_⟩
    have hne : i ≠ tx := by
      rintro rfl
      have hhand := h.hand
      rw [hr] at hhand
      simp [Dispatcher.Reader.handFor] at hhand
    simp [given, Dispatcher.setStream, Function.update_of_ne hne]
  | failAll =>
    exact ⟨{ h with
      resolved := hmore _
      collectors := by simp
      hand := rfl }, rfl⟩
  | _ => cases hb

/-- What the caller has depends on its stream. -/
theorem Finishing.of_streams {r : Resolution} (h : Finishing i r x) {incoming withheld : Bytes}
    (hreceiver : (s'.streams i).receiver = (x.client.streams i).receiver)
    (hyielded : (s'.streams i).yielded = (x.client.streams i).yielded)
    (hgiven : given i s' = given i x.client) :
    Finishing i r ⟨s', x.stage, x.frames, incoming, withheld⟩ := by
  cases hstage : x.stage with
  | calling => simp only [Finishing, hstage] at h
  | polling =>
    simp only [Finishing, hstage] at h ⊢
    exact ⟨rfl, hreceiver.trans h.receiver, by rw [hyielded]; exact h.frames⟩
  | closing | draining =>
    simp only [Finishing, hstage] at h ⊢
    exact ⟨hreceiver.trans h.1, by rw [hgiven]; exact h.2⟩
  | awaiting =>
    simp only [Finishing, hstage] at h ⊢
    rw [hgiven]
    exact h
  | returned result =>
    simp only [Finishing, hstage] at h ⊢
    exact ⟨h.1, by rw [hgiven]; exact h.2⟩

/-- **When the command is settled.** -/
theorem stands_settled {r : Resolution} (halive : Alive maxFrameSize i x.client)
    (hsettled : Settled i x.client r) (hfinish : Finishing i r x)
    (houtcome : script.Outcome wants r.result ((given i x.client).map Prod.fst)) {a : Action}
    (hm : Moves maxFrameSize cmd wants i script x a x') : Stands wants i tag line script x' := by
  have hread : ∀ {b s'}, OfReader b → Dispatcher.step maxFrameSize b x.client = some s' →
      Stands wants i tag line script { x with client := s' } := by
    intro b s' hb hs'
    obtain ⟨hsettled', hgiven⟩ := hsettled.reads halive hb hs'
    have hreads : Reads i x.client s' := reads_of_moves (Dispatcher.moves_of_step hs') hb
    refine .settled r hsettled' (hfinish.of_streams hreads.receiver hreads.yielded hgiven) ?_
    rw [hgiven]
    exact houtcome
  have hkeep : ∀ {s' incoming withheld}, Settled i s' r → s'.streams = x.client.streams →
      Stands wants i tag line script ⟨s', x.stage, x.frames, incoming, withheld⟩ := by
    intro s' incoming withheld hsettled' hstreams
    have hgiven : given i s' = given i x.client := by rw [given, hstreams, given]
    refine .settled r hsettled' (hfinish.of_streams (by rw [hstreams]) (by rw [hstreams]) hgiven) ?_
    rw [hgiven]
    exact houtcome
  -- a step of the caller leaves what its stream was given
  have hcall : ∀ {c : Stream} {stage : Stage} {frames : List Bytes} {broadcast : List Parsed},
      c.routed = (x.client.streams i).routed →
      Finishing i r ⟨{ x.client.setStream i c with broadcast }, stage, frames, x.incoming,
        x.withheld⟩ →
      Stands wants i tag line script ⟨{ x.client.setStream i c with broadcast }, stage, frames,
        x.incoming, x.withheld⟩ := by
    intro c stage frames broadcast hrouted hfinish'
    refine .settled r { hsettled with } hfinish' ?_
    simpa [given, Dispatcher.setStream, hrouted] using houtcome
  cases hm with
  | refuse hcalling | enqueue hcalling => simp only [Finishing, hcalling] at hfinish
  | @frame f rest hpolling =>
    simp only [Finishing, hpolling] at hfinish
    exact hcall rfl ((hfinish.frame f rest).finishing r)
  | ended hpolling hend =>
    simp only [Finishing, hpolling] at hfinish
    have hall := (Dispatcher.conserved_of_reachable halive.reachable).yielded_of_ended
      hfinish.receiver hend
    refine .settled r hsettled ⟨hfinish.receiver, ?_⟩ houtcome
    rw [hfinish.frames, hall]
    simp [given]
  | close hclosing =>
    simp only [Finishing, hclosing] at hfinish
    refine hcall rfl ⟨by simp [Dispatcher.setStream], ?_⟩
    simpa [given, Dispatcher.setStream] using hfinish.2
  | drain hdraining hclosed =>
    simp only [Finishing, hdraining] at hfinish
    refine hcall rfl ?_
    simp only [Finishing, hdraining]
    exact ⟨by simp [Dispatcher.setStream, hclosed], by
      simpa [given, Dispatcher.setStream] using hfinish.2⟩
  | drained hdraining =>
    simp only [Finishing, hdraining] at hfinish
    refine hcall rfl ?_
    simpa [Finishing, given, Dispatcher.setStream] using hfinish.2
  | reply hawaiting hresult =>
    simp only [Finishing, hawaiting] at hfinish
    rw [Dispatcher.pollReply, hsettled.resolved] at hresult
    exact .settled r hsettled ⟨(Option.some.inj hresult).symm, hfinish⟩ houtcome
  | write hb hclient =>
    obtain ⟨hthrough, hpending, hw⟩ := hsettled.toThrough.write halive.handles hclient hb
    exact hkeep { hthrough with
      resolved := by rw [hw.resolved]; exact hsettled.resolved
      collectors := by rw [hpending]; exact hsettled.collectors
      hand := by rw [hw.reader]; exact hsettled.hand } hw.streams
  | answer => exact hkeep hsettled rfl
  | read | finish => exact hkeep { hsettled with hand := rfl } rfl
  | scan hclient => exact hread (b := .scanBuffer none) trivial hclient
  | dispatch hclient => exact hread (b := .dispatchFrame) trivial hclient
  | failAll hclient => exact hread (b := .failAllPending) trivial hclient

/-- A step of the loops is a step of the client. -/
theorem loop_eq_some {f : Dispatcher → Option Dispatcher} (h : loop f x = some x') :
    f x.client = some x'.client := by
  obtain ⟨client, hclient, rfl⟩ := Option.map_eq_some_iff.mp h
  exact hclient

/-- **The client stays alive.** Every step of the exchange is one of the client, or leaves it. -/
theorem alive_of_step (hbreaks : hasLineBreaks cmd = false)
    (hissued : x.stage = .calling → x.client.issued = i) (h : Alive maxFrameSize i x.client)
    {a : Action} (hstep : step maxFrameSize cmd wants i script a x = some x') :
    Alive maxFrameSize i x'.client := by
  have hours : ∀ {b}, Ours i b → Dispatcher.step maxFrameSize b x.client = some x'.client →
      Alive maxFrameSize i x'.client := fun hb hclient => alive_of_ours hclient hb h
  cases a with
  | enqueue =>
    have hstep : enqueue cmd wants x = some x' := hstep
    unfold enqueue at hstep
    split at hstep
    next hstage =>
      split at hstep
      · cases hstep
        exact h
      · obtain ⟨client, hclient, rfl⟩ := Option.map_eq_some_iff.mp hstep
        exact (alive_of_enqueue hbreaks (hissued hstage) hclient h).1
    · cases hstep
  | poll =>
    have hstep : poll i x = some x' := hstep
    unfold poll at hstep
    split at hstep
    · split at hstep
      · cases hstep
      · obtain ⟨client, hclient, rfl⟩ := Option.map_eq_some_iff.mp hstep
        exact alive_of_ours (a := .pollStream i) hclient rfl h
      · cases hstep
        exact h
    · cases hstep
  | close =>
    have hstep : close i x = some x' := hstep
    unfold close at hstep
    split at hstep
    · obtain ⟨client, hclient, rfl⟩ := Option.map_eq_some_iff.mp hstep
      exact alive_of_ours (a := .closeStream i) hclient rfl h
    · cases hstep
  | drain =>
    have hstep : drain i x = some x' := hstep
    unfold drain at hstep
    split at hstep
    · obtain ⟨client, hclient, rfl⟩ := Option.map_eq_some_iff.mp hstep
      exact alive_of_ours (a := .drainStream i) hclient rfl h
    · cases hstep
  | reply =>
    have hstep : reply i x = some x' := hstep
    unfold reply at hstep
    split at hstep
    · obtain ⟨result, -, rfl⟩ := Option.map_eq_some_iff.mp hstep
      exact h
    · cases hstep
  | recvRequest => exact alive_of_recvRequest (loop_eq_some hstep) h
  | register => exact hours (b := .register) trivial (loop_eq_some hstep)
  | writeBytes n => exact hours (b := .writeBytes n) trivial (loop_eq_some hstep)
  | answer =>
    have hstep : answer x = some x' := hstep
    unfold answer at hstep
    split at hstep
    · cases hstep
      exact h
    · cases hstep
  | read n =>
    have hstep : read n x = some x' := hstep
    unfold read at hstep
    split at hstep
    · obtain ⟨client, hclient, rfl⟩ := Option.map_eq_some_iff.mp hstep
      exact alive_of_ours (a := .readBuf _) hclient trivial h
    · cases hstep
  | finish =>
    have hstep : finish script x = some x' := hstep
    unfold finish at hstep
    split at hstep
    · split at hstep
      · exact hours (b := .readBuf _) trivial (loop_eq_some hstep)
      · cases hstep
    · cases hstep
  | scan => exact hours (b := .scanBuffer none) trivial (loop_eq_some hstep)
  | dispatch => exact hours (b := .dispatchFrame) trivial (loop_eq_some hstep)
  | failAll => exact hours (b := .failAllPending) trivial (loop_eq_some hstep)

/-- **Every step keeps the invariant.** -/
theorem Invariant.step (hbreaks : hasLineBreaks cmd = false)
    (hvalid : script.Valid maxFrameSize tag)
    (h : Invariant maxFrameSize wants i tag (commandLine tag cmd) script x) {a : Action}
    (hC : AnswersInTime i a x)
    (hstep : Exchange.step maxFrameSize cmd wants i script a x = some x') :
    Invariant maxFrameSize wants i tag (commandLine tag cmd) script x' := by
  have hm := moves_of_step hstep
  have hcalling : x.stage = .calling → x.client.issued = i := by
    intro hstage
    cases h.stands with
    | calling _ _ _ hissued => exact hissued
    | queued _ _ _ hfollow | streaming _ _ _ hfollow | answered _ _ _ _ _ _ _ _ _ hfollow
    | broken _ _ _ hfollow => cases hstage.symm.trans hfollow.stage
    | settled _ _ hfinish => simp only [Finishing, hstage] at hfinish
  refine ⟨alive_of_step hbreaks hcalling h.alive hstep, ?_⟩
  cases h.stands with
  | calling late hbefore hstage hissued htag hframes =>
    exact stands_calling hbreaks hvalid h.alive hbefore hstage hissued htag hframes hC hm
  | queued late hbefore hqueued hfollow hrouted =>
    exact stands_queued hvalid h.alive hbefore hqueued hfollow hrouted hC hm
  | streaming late fs hentered hfollow hopen hstream =>
    exact stands_streaming hvalid h.alive hentered hfollow hopen hstream hm
  | answered late answer status code text p buffer more hentered hfollow hr hanswer hending hstatus
      hlate hgiven =>
    exact stands_answered h.alive hentered hfollow hr hanswer hending hstatus hlate hgiven hm
  | broken e tail hentered hfollow hr hending =>
    exact stands_broken h.alive hentered hfollow hr hending hm
  | settled r hsettled hfinish houtcome => exact stands_settled h.alive hsettled hfinish houtcome hm

end Steps

end Exchange

end ImapRs
