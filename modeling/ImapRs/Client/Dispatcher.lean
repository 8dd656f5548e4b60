import ImapRs.Client.ReadLoop
import ImapRs.Transition.Reach

/-!
# The dispatcher

`imap-client/src/client.rs` as a transition system: the callers, the write loop and the read loop
share the pending table, the write queue, one bounded channel a streaming command and the event
broadcast. Each action is one atomic step, and any enabled action may be next, so a run is an
interleaving.

## What is atomic

* A section under the mutex of `PendingCommands`, and the synchronous code that follows it up to the
  next `await`.
* A send or a receive on a channel. `mpsc` is first in, first out and a send waits while the channel
  is full; `oneshot` delivers at most once; `broadcast` is its log of sends.
* `write_all` hands the transport any number of bytes at a time.

The route of an untagged frame is chosen under the lock (`scanBuffer`) and the frame is delivered in
a later step (`dispatchFrame`), so everything else can happen in between.

## Ghost state

Commands are numbered in the order their tags are allocated; the number stands for the two channels
made for the command. `registered`, `received`, `parsed` and the logs of a `Stream` record what
happened and are read by no transition. `Parsed.seq` and `Parsed.owner` identify a frame: the first
is its place on the wire, the second the command the server sent it for, if it was sent for one.
-/

namespace ImapRs

open Incremental Transition

/-- Commands, numbered in the order their tags were allocated. -/
abbrev CommandId := ℕ

/-- Selects the untagged responses that belong to a streaming command. -/
abbrev FrameFilter := Response → Bool

/-- `is_fetch` of `session.rs`, the filter of a FETCH command. -/
def isFetch : FrameFilter
  | .data (.fetch _ _) => true
  | _ => false

/-- `is_search` of `session.rs`, the filter of a SEARCH command. -/
def isSearch : FrameFilter
  | .data (.search _) => true
  | _ => false

/-- Frames buffered for one streaming command before the dispatcher waits. -/
def STREAM_CHANNEL_CAP : ℕ := 32

/-- Capacity of the queue between callers and the write loop. -/
def WRITE_CHANNEL_CAP : ℕ := 32

/-- Hard ceiling on the bytes buffered for a single in-flight response frame. -/
def MAX_FRAME_SIZE : ℕ := MAX_LITERAL_SIZE + 64 * 1024

/-! ### Tags and command lines -/

/-- `format!("A{:04}", n)`. -/
def formatTag (n : ℕ) : Bytes :=
  let ds := Nat.toDigits 10 n
  ('A' :: (List.replicate (4 - ds.length) '0' ++ ds)).map byte

/-- `<tag> <cmd>\r\n`. -/
def commandLine (tag cmd : Bytes) : Bytes := tag ++ (SP :: (cmd ++ CRLF))

/-- `wire::reject_line_breaks`: whether the line holds CR, LF or NUL. -/
def hasLineBreaks (cmd : Bytes) : Bool := cmd.any fun b => b == CR || b == LF || b == 0

/-! ### The pending table -/

/-- A frame the read loop has parsed. -/
structure Parsed where
  frame : Frame
  /-- Ghost: the number of frames parsed before it. -/
  seq : ℕ
  /-- Ghost: the command the server sent it for. -/
  owner : Option CommandId
  deriving DecidableEq, Repr

/-- A streaming command's claim on untagged frames. -/
structure Collector where
  tag : Bytes
  wants : FrameFilter
  /-- The sending half of the command's frame channel. -/
  tx : CommandId

/-- Commands awaiting their tagged response. -/
structure Pending where
  /-- `HashMap<String, TaggedReply>`; the sending half of a command's `oneshot` is the command. -/
  replies : List (Bytes × CommandId)
  /-- Streaming commands in write order. -/
  collectors : List Collector

namespace Pending

/-- The oldest collector still listening whose filter accepts the response. -/
def collectorFor (p : Pending) (isClosed : CommandId → Bool) (response : Response) :
    Option CommandId :=
  (p.collectors.find? fun c => !isClosed c.tx && c.wants response).map (·.tx)

/-- Take `tag`'s reply sender and end its frame stream, if it has one. -/
def complete (p : Pending) (tag : Bytes) : Option CommandId × Pending :=
  (p.replies.lookup tag, ⟨p.replies.filter (·.1 ≠ tag), p.collectors.filter (·.tag ≠ tag)⟩)

/-- Enter a command. Inserting a key that is present replaces its value. -/
def register (p : Pending) (tag : Bytes) (replyTx : CommandId) (collector : Option FrameFilter) :
    Pending where
  replies := p.replies.filter (·.1 ≠ tag) ++ [(tag, replyTx)]
  collectors := p.collectors ++ (collector.map fun wants => ⟨tag, wants, replyTx⟩).toList

end Pending

/-! ### The parties -/

/-- Items written by the write loop. -/
inductive WriteRequest where
  | command (bytes tag : Bytes) (replyTx : CommandId) (collector : Option FrameFilter)
  | raw (bytes : Bytes)

/-- Where `write_loop` stands. -/
inductive Writer where
  /-- Waiting for a request. -/
  | idle
  /-- Waiting for the lock, to register a command. -/
  | registering (bytes tag : Bytes) (replyTx : CommandId) (collector : Option FrameFilter)
  /-- In `write_all`, with `rest` still to be written. -/
  | writing (command : Option CommandId) (rest : Bytes)
  | stopped

/-- Where the read loop sends one parsed frame. -/
inductive Route where
  | tagged (tag : Str) (status : Status) (text : Str)
  | stream (tx : CommandId)
  | broadcast
  deriving DecidableEq, Repr

/-- Where `read_loop` stands. -/
inductive Reader where
  /-- In `read_buf`. -/
  | reading (buffer : Bytes)
  /-- At the head of the inner loop. -/
  | scanning (buffer : Bytes)
  /-- In `dispatch_frame`. -/
  | dispatching (route : Route) (frame : Parsed) (buffer : Bytes)
  /-- Waiting for the lock, to fail every pending command. -/
  | failing (e : ClientError)
  | stopped
  deriving DecidableEq, Repr

/-- The receiving half of a command's frame channel. -/
inductive Receiver where
  /-- Held by a `CommandStream`. -/
  | open
  /-- Closed by `into_reply`, which is draining it. -/
  | closed
  /-- Dropped, or never made. -/
  | gone
  deriving DecidableEq, Repr

/-- The frame channel of a command. -/
structure Stream where
  /-- The filter the command was issued with; none for a command without a stream. -/
  filter : Option FrameFilter
  receiver : Receiver
  /-- The frames in the channel. -/
  queue : List Parsed
  /-- Ghost: the frames the read loop chose this stream for. -/
  routed : List Parsed
  /-- Ghost: the frames `next_frame` returned. -/
  yielded : List Parsed
  /-- Ghost: the frames dropped with the stream. -/
  discarded : List Parsed

/-- A channel that was never made. -/
def Stream.none : Stream := ⟨.none, .gone, [], [], [], []⟩

/-- One `send` on a command's `oneshot`. -/
structure Resolution where
  command : CommandId
  result : Except ClientError Bytes
  /-- The tagged frame that completed the command; none when the connection failed. -/
  cause : Option Parsed
  /-- Whether the receiver was still there. -/
  delivered : Bool

/-- The state of a client and its two loops. -/
structure Dispatcher where
  tagCounter : UInt64
  /-- Tags allocated so far. -/
  issued : ℕ
  /-- Whether a `RawClient` or `WriterHandle` is left. -/
  handles : Bool
  /-- The channel between callers and the write loop. -/
  queue : List WriteRequest
  writer : Writer
  /-- The bytes given to the transport, with the command they belong to. -/
  sent : List (Option CommandId × Bytes)
  /-- Ghost: the commands registered, in order. -/
  registered : List CommandId
  /-- Ghost: the commands whose line is out in full, in order. -/
  received : List CommandId
  pending : Pending
  reader : Reader
  /-- Ghost: the frames parsed, in wire order. -/
  parsed : List Parsed
  streams : CommandId → Stream
  /-- Every frame sent to the event subscribers. -/
  broadcast : List Parsed
  resolved : List Resolution
  /-- The commands whose reply receiver was dropped. -/
  abandoned : List CommandId

namespace Dispatcher

/-- `RawClient::new`. -/
def new : Dispatcher where
  tagCounter := 1
  issued := 0
  handles := true
  queue := []
  writer := .idle
  sent := []
  registered := []
  received := []
  pending := ⟨[], []⟩
  reader := .reading []
  parsed := []
  streams _ := Stream.none
  broadcast := []
  resolved := []
  abandoned := []

/-! ### Callers -/

/-- `next_tag`: the tag of the next command, and the counter after it. -/
def nextTag (s : Dispatcher) : Bytes × UInt64 := (formatTag s.tagCounter.toNat, s.tagCounter + 1)

/-- `enqueue_command`, when the send goes through. A command with a line break is refused. -/
def enqueueCommand (cmd : Bytes) (collector : Option FrameFilter) (s : Dispatcher) :
    Option Dispatcher :=
  if hasLineBreaks cmd then some s
  else
    match s.handles, s.writer with
    | false, _ => none
    | _, .stopped => none
    | true, _ =>
      if s.queue.length < WRITE_CHANNEL_CAP then
        let (tag, tagCounter) := s.nextTag
        some { s with
          tagCounter
          issued := s.issued + 1
          queue := s.queue ++ [.command (commandLine tag cmd) tag s.issued collector]
          streams := match collector with
            | some wants =>
              Function.update s.streams s.issued ⟨some wants, .open, [], [], [], []⟩
            | none => s.streams }
      else none

/-- `enqueue_command`, when the write loop is gone or the caller gives up waiting for room: the tag
is spent and nothing is queued. -/
def enqueueLost (cmd : Bytes) (s : Dispatcher) : Option Dispatcher :=
  if hasLineBreaks cmd then some s
  else if s.handles then some { s with tagCounter := s.nextTag.2, issued := s.issued + 1 }
  else none

/-- `send_raw`. -/
def sendRaw (bytes : Bytes) (s : Dispatcher) : Option Dispatcher :=
  match s.handles, s.writer with
  | false, _ => none
  | _, .stopped => none
  | true, _ =>
    if s.queue.length < WRITE_CHANNEL_CAP then some { s with queue := s.queue ++ [.raw bytes] }
    else none

/-- The last `RawClient` and `WriterHandle` are dropped. -/
def dropHandles (s : Dispatcher) : Option Dispatcher := some { s with handles := false }

/-- The caller drops the receiver of the tagged response. -/
def dropReply (i : CommandId) (s : Dispatcher) : Option Dispatcher :=
  some { s with abandoned := i :: s.abandoned }

/-- Replace a command's channel. -/
def setStream (s : Dispatcher) (i : CommandId) (c : Stream) : Dispatcher :=
  { s with streams := Function.update s.streams i c }

/-- Whether a request holds the sending half of `i`'s frame channel. -/
def WriteRequest.holds (i : CommandId) : WriteRequest → Bool
  | .command _ _ replyTx (some _) => replyTx == i
  | _ => false

/-- Whether a sending half of `i`'s frame channel is left: in a request, in the pending table or in
the hands of the read loop. -/
def hasSender (s : Dispatcher) (i : CommandId) : Bool :=
  s.queue.any (WriteRequest.holds i) ||
  (match s.writer with
    | .registering _ _ replyTx (some _) => replyTx == i
    | _ => false) ||
  s.pending.collectors.any (·.tx == i) ||
  (match s.reader with
    | .dispatching (.stream tx) _ _ => tx == i
    | _ => false)

/-- What a poll of `next_frame` gives. -/
inductive Poll where
  | pending
  | ready (frame : Option Parsed)

/-- `CommandStream::next_frame`: the front of the channel, or `None` once it is empty and no sender
is left. -/
def nextFrame (s : Dispatcher) (i : CommandId) : Poll :=
  match (s.streams i).queue with
  | f :: _ => .ready (some f)
  | [] => if s.hasSender i then .pending else .ready none

/-- The caller polls its stream. -/
def pollStream (i : CommandId) (s : Dispatcher) : Option Dispatcher :=
  let c := s.streams i
  match c.receiver, s.nextFrame i with
  | .open, .ready (some f) =>
    some (s.setStream i { c with queue := c.queue.tail, yielded := c.yielded ++ [f] })
  | .open, .ready none => some s
  | _, _ => none

/-- `into_reply` closes the channel. -/
def closeStream (i : CommandId) (s : Dispatcher) : Option Dispatcher :=
  let c := s.streams i
  match c.receiver with
  | .open => some (s.setStream i { c with receiver := .closed })
  | _ => none

/-- `into_reply` moves one buffered frame to the broadcast, or is done. -/
def drainStream (i : CommandId) (s : Dispatcher) : Option Dispatcher :=
  let c := s.streams i
  match c.receiver, c.queue with
  | .closed, f :: rest =>
    some { s.setStream i { c with queue := rest } with broadcast := s.broadcast ++ [f] }
  | .closed, [] => some (s.setStream i { c with receiver := .gone })
  | _, _ => none

/-- The caller drops its `CommandStream`. -/
def dropStream (i : CommandId) (s : Dispatcher) : Option Dispatcher :=
  let c := s.streams i
  match c.receiver with
  | .open =>
    some { s.setStream i { c with
        receiver := .gone
        queue := []
        discarded := c.discarded ++ c.queue } with
      abandoned := i :: s.abandoned }
  | _ => none

/-! ### The write loop -/

/-- `rx.recv()`. The loop ends when the queue is empty and no handle is left. -/
def recvRequest (s : Dispatcher) : Option Dispatcher :=
  match s.writer, s.queue with
  | .idle, .command bytes tag replyTx collector :: queue =>
    some { s with queue, writer := .registering bytes tag replyTx collector }
  | .idle, .raw bytes :: queue => some { s with queue, writer := .writing none bytes }
  | .idle, [] => if s.handles then none else some { s with writer := .stopped }
  | _, _ => none

/-- `register`, before a byte of the command is written. -/
def register (s : Dispatcher) : Option Dispatcher :=
  match s.writer with
  | .registering bytes tag replyTx collector =>
    some { s with
      pending := s.pending.register tag replyTx collector
      registered := s.registered ++ [replyTx]
      writer := .writing (some replyTx) bytes }
  | _ => none

/-- `write_all` gets `n` more bytes out, or is done. -/
def writeBytes (n : ℕ) (s : Dispatcher) : Option Dispatcher :=
  match s.writer with
  | .writing command [] =>
    some { s with writer := .idle, received := s.received ++ command.toList }
  | .writing command rest =>
    if 0 < n then
      some { s with
        writer := .writing command (rest.drop n)
        sent := s.sent ++ [(command, rest.take n)] }
    else none
  | _ => none

/-- `write_all` fails: the loop ends, and the requests still queued are dropped with the queue. -/
def failWrite (s : Dispatcher) : Option Dispatcher :=
  match s.writer with
  | .writing _ (_ :: _) => some { s with writer := .stopped, queue := [] }
  | _ => none

/-! ### The read loop -/

/-- `tx.is_closed()`. -/
def isClosed (s : Dispatcher) (i : CommandId) : Bool := (s.streams i).receiver != .open

/-- Decide where a parsed frame goes. -/
def routeFor (s : Dispatcher) (response : Response) : Route :=
  match response with
  | .status ⟨some tag, status, _, text⟩ => .tagged tag status text
  | _ =>
    match s.pending.collectorFor s.isClosed response with
    | some tx => .stream tx
    | none => .broadcast

/-- What a tagged status means for the command. -/
def taggedResult (status : Status) (text : Str) (frame : Bytes) : Except ClientError Bytes :=
  match status with
  | .ok => .ok frame
  | .no | .bad => .error (.ofCommandFailed text)
  | .bye => .error .connectionClosed
  | .preAuth => .error (.ofCommandFailed text)

/-- `read_buf` returns. -/
def readBuf (r : ReadResult) (s : Dispatcher) : Option Dispatcher :=
  match s.reader with
  | .reading buffer =>
    match r with
    | .ok [] => some { s with reader := .failing .connectionClosed }
    | .ok bytes => some { s with reader := .scanning (buffer ++ bytes) }
    | .error => some { s with reader := .failing .connectionClosed }
  | _ => none

/-- Record that the read loop chose a stream for a frame. -/
def markRouted (s : Dispatcher) (route : Route) (p : Parsed) : CommandId → Stream :=
  match route with
  | .stream tx =>
    Function.update s.streams tx { s.streams tx with routed := (s.streams tx).routed ++ [p] }
  | _ => s.streams

/-- One look at the buffer, and `route_for` when it holds a frame. -/
def scanBuffer (maxFrameSize : ℕ) (owner : Option CommandId) (s : Dispatcher) :
    Option Dispatcher :=
  match s.reader with
  | .scanning buffer =>
    match scan maxFrameSize buffer with
    | .frame frame rest =>
      let p : Parsed := ⟨frame, s.parsed.length, owner⟩
      let route := s.routeFor frame.2
      some { s with
        reader := .dispatching route p rest
        parsed := s.parsed ++ [p]
        streams := s.markRouted route p }
    | .wait => some { s with reader := .reading buffer }
    | .stop e => some { s with reader := .failing e }
  | _ => none

/-- Deliver a frame along its route. The send to a stream waits while the stream is full. -/
def dispatchFrame (s : Dispatcher) : Option Dispatcher :=
  match s.reader with
  | .dispatching (.tagged tag status text) p buffer =>
    match s.pending.complete tag.bytes with
    | (none, pending) =>
      some { s with pending, broadcast := s.broadcast ++ [p], reader := .scanning buffer }
    | (some tx, pending) =>
      let r : Resolution :=
        ⟨tx, taggedResult status text p.frame.1, some p, !s.abandoned.contains tx⟩
      some { s with pending, resolved := s.resolved ++ [r], reader := .scanning buffer }
  | .dispatching (.stream tx) p buffer =>
    let c := s.streams tx
    match c.receiver with
    | .open =>
      if c.queue.length < STREAM_CHANNEL_CAP then
        some { s.setStream tx { c with queue := c.queue ++ [p] } with reader := .scanning buffer }
      else none
    | _ => some { s with broadcast := s.broadcast ++ [p], reader := .scanning buffer }
  | .dispatching .broadcast p buffer =>
    some { s with broadcast := s.broadcast ++ [p], reader := .scanning buffer }
  | _ => none

/-- Drain every pending waiter, delivering the error to each, and end every frame stream. -/
def failAllPending (s : Dispatcher) : Option Dispatcher :=
  match s.reader with
  | .failing e =>
    some { s with
      pending := ⟨[], []⟩
      resolved := s.resolved ++ s.pending.replies.map fun r =>
        ⟨r.2, .error e, none, !s.abandoned.contains r.2⟩
      reader := .stopped }
  | _ => none

/-! ### Runs -/

/-- The atomic steps of the callers, the write loop and the read loop. -/
inductive Action where
  | enqueueCommand (cmd : Bytes) (collector : Option FrameFilter)
  | enqueueLost (cmd : Bytes)
  | sendRaw (bytes : Bytes)
  | dropHandles
  | dropReply (i : CommandId)
  | pollStream (i : CommandId)
  | closeStream (i : CommandId)
  | drainStream (i : CommandId)
  | dropStream (i : CommandId)
  | recvRequest
  | register
  | writeBytes (n : ℕ)
  | failWrite
  | readBuf (r : ReadResult)
  | scanBuffer (owner : Option CommandId)
  | dispatchFrame
  | failAllPending

/-- One step; `none` when the action is not enabled. -/
def step (maxFrameSize : ℕ) : Action → Dispatcher → Option Dispatcher
  | .enqueueCommand cmd collector => enqueueCommand cmd collector
  | .enqueueLost cmd => enqueueLost cmd
  | .sendRaw bytes => sendRaw bytes
  | .dropHandles => dropHandles
  | .dropReply i => dropReply i
  | .pollStream i => pollStream i
  | .closeStream i => closeStream i
  | .drainStream i => drainStream i
  | .dropStream i => dropStream i
  | .recvRequest => recvRequest
  | .register => register
  | .writeBytes n => writeBytes n
  | .failWrite => failWrite
  | .readBuf r => readBuf r
  | .scanBuffer owner => scanBuffer maxFrameSize owner
  | .dispatchFrame => dispatchFrame
  | .failAllPending => failAllPending

/-- The states reached by interleavings whose steps all meet `C`. -/
abbrev ReachableBy (maxFrameSize : ℕ) (C : Action → Dispatcher → Prop) : Dispatcher → Prop :=
  Reaches (step maxFrameSize) C new

/-- The states reached by any interleaving. -/
abbrev Reachable (maxFrameSize : ℕ) : Dispatcher → Prop :=
  ReachableBy maxFrameSize fun _ _ => True

end Dispatcher

end ImapRs
