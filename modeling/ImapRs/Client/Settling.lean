import ImapRs.Client.Bounds
import ImapRs.Client.Completeness

/-!
# The two loops come to rest

Once the callers ask for nothing more and the server has said what it says, the loops work off what
there is: every request is written, every frame in the buffer is delivered. The read loop waits
while the stream a frame belongs to is full, and everything behind that frame waits with it, so the
callers have to go on taking frames out of their streams. As long as they do, no order of the steps
gets stuck or goes on for ever; and as long as one of them does not, nobody is answered.

## Main definitions

* `Internal` — the steps of the loops, and of callers that take what is there
* `Settled` — nothing is left to do
* `work` — how much there is
* `HeldUp` — the read loop has a frame for a full stream

## Main results

* `Settled.or_busy` — no deadlock
* `work_decreases` — no livelock
* `settles` — from every reachable state, in every order
* `held_up_until_taken` — what an unread stream does to everybody else
-/

namespace ImapRs

open Incremental Transition Finset

/-- The read loop waits for bytes with nothing complete in its buffer, or has ended. -/
def Reader.Resting (maxFrameSize : ℕ) (r : Reader) : Prop :=
  r = .stopped ∨ ∃ buffer, r = .reading buffer ∧ parseResponse buffer = .error .incomplete ∧
    buffer.length ≤ maxFrameSize

namespace Dispatcher

open Exchange

/-- The steps of the two loops, and of callers that take what is in their streams. -/
def Internal (a : Action) (s : Dispatcher) : Prop :=
  match a with
  | .recvRequest | .register | .writeBytes _ | .scanBuffer _ | .dispatchFrame | .failAllPending
  | .drainStream _ => True
  | .pollStream i => (s.streams i).queue ≠ []
  | _ => False

/-- Nothing is left to do for either loop, nor for a caller. -/
structure Settled (maxFrameSize : ℕ) (s : Dispatcher) : Prop where
  workedOff : s.WorkedOff
  reader : s.reader.Resting maxFrameSize
  streams : ∀ i, (s.streams i).queue = [] ∧ (s.streams i).receiver ≠ .closed

/-- Where a frame belongs: with the command it completes, with the event subscribers, or with the
caller of a stream. -/
def Delivered (s : Dispatcher) (p : Parsed) : Prop :=
  p ∈ s.replied ∨ p ∈ s.broadcast ∨ ∃ i, p ∈ (s.streams i).yielded

variable {maxFrameSize : ℕ} {a : Action} {s s' t : Dispatcher}

/-! ### What the loops keep -/

/-- A write loop that has ended leaves no request behind, and the read loop reads only when nothing
complete is left. -/
structure Tidy (maxFrameSize : ℕ) (s : Dispatcher) : Prop where
  ended : s.writer = .stopped → s.queue = []
  reading : ∀ buffer, s.reader = .reading buffer →
    parseResponse buffer = .error .incomplete ∧ buffer.length ≤ maxFrameSize

theorem tidy_new : Tidy maxFrameSize new where
  ended _ := rfl
  reading := by
    intro buffer h
    cases h
    exact ⟨rfl, Nat.zero_le _⟩

/-- A look that finds nothing has looked at an incomplete frame. -/
theorem scanBuffer_reading {owner : Option CommandId} {buffer : Bytes}
    (h : s.scanBuffer maxFrameSize owner = some s') (hr : s'.reader = .reading buffer) :
    parseResponse buffer = .error .incomplete ∧ buffer.length ≤ maxFrameSize := by
  unfold scanBuffer at h
  split at h
  next data _ =>
    rcases scan_cases maxFrameSize data with ⟨f, rest, hs, -⟩ | ⟨hs, hwait⟩ | ⟨e, hs, -⟩
    · rw [hs] at h
      cases h
      cases hr
    · rw [hs] at h
      cases h
      cases hr
      exact hwait
    · rw [hs] at h
      cases h
      cases hr
  · cases h

theorem Tidy.step (h : Tidy maxFrameSize s) (hstep : step maxFrameSize a s = some s') :
    Tidy maxFrameSize s' := by
  cases moves_of_step hstep with
  | enqueue hw => exact ⟨fun hended => absurd hended hw, h.reading⟩
  | raw => exact ⟨fun hended => absurd hended (sendRaw_room hstep).1, h.reading⟩
  | recvCommand => exact ⟨by simp, h.reading⟩
  | recvRaw => exact ⟨by simp, h.reading⟩
  | recvNone _ hq => exact ⟨fun _ => hq, h.reading⟩
  | register => exact ⟨by simp, h.reading⟩
  | wrote => exact ⟨by simp, h.reading⟩
  | written => exact ⟨by simp, h.reading⟩
  | writeFailed => exact ⟨fun _ => rfl, h.reading⟩
  | readEnd | readMore | scanFrame | scanStop | resolve | unclaimed | push | unsent | publish
  | failAll => exact ⟨h.ended, by simp⟩
  | scanWait => exact ⟨h.ended, fun _ hr => scanBuffer_reading hstep hr⟩
  | _ => exact ⟨h.ended, h.reading⟩

theorem Tidy.of_reachable {C : Action → Dispatcher → Prop} (h : ReachableBy maxFrameSize C s) :
    Tidy maxFrameSize s :=
  h.invariant tidy_new fun _ _ hstep hs => hs.step hstep

/-- The commands in line are registered one by one, and none is lost. -/
structure InOrder (s t : Dispatcher) : Prop where
  line : t.registered ++ t.waiting = s.registered ++ s.waiting
  out : s.writer ≠ .stopped → t.registered = t.received ++ t.writer.inFlight

theorem InOrder.refl (h : InLine s) : InOrder s s := ⟨rfl, h.upToDate⟩

theorem InOrder.step (h : InOrder s t) (hC : Internal a t)
    (hstep : step maxFrameSize a t = some s') : InOrder s s' := by
  obtain ⟨hline, hout⟩ := h
  cases moves_of_step hstep with
  | stay => exact ⟨hline, hout⟩
  | enqueue | lost | raw | dropHandles | dropReply | close | dropStream | writeFailed | readEnd
  | readMore => exact hC.elim
  | recvCommand hw hq =>
    rw [waiting, hw, hq] at hline
    rw [hw] at hout
    exact ⟨hline, hout⟩
  | recvRaw hw hq =>
    rw [waiting, hw, hq] at hline
    rw [hw] at hout
    exact ⟨hline, hout⟩
  | recvNone hw hq =>
    rw [waiting, hw, hq] at hline
    rw [hw] at hout
    refine ⟨?_, hout⟩
    rw [waiting, hq]
    exact hline
  | register hw =>
    rw [waiting, hw] at hline
    rw [hw] at hout
    refine ⟨?_, fun hne => ?_⟩
    · simpa [waiting, Writer.next] using hline
    · simpa [Writer.inFlight] using hout hne
  | @wrote n command rest hw =>
    rw [waiting, hw] at hline
    rw [hw] at hout
    refine ⟨hline, fun hne => (hout hne).trans ?_⟩
    cases command <;> rfl
  | @written n command hw =>
    rw [waiting, hw] at hline
    rw [hw] at hout
    refine ⟨hline, fun hne => ?_⟩
    rw [hout hne]
    cases command <;> simp [Writer.inFlight]
  | _ => exact ⟨hline, hout⟩

/-! ### No deadlock -/

/-- Something can be done. -/
def Busy (maxFrameSize : ℕ) (s : Dispatcher) : Prop :=
  ∃ a s', Internal a s ∧ step maxFrameSize a s = some s'

/-- The write loop goes on until the queue is worked off. -/
theorem busy_of_requests (hended : s.writer = .stopped → s.queue = []) (h : ¬ s.WorkedOff) :
    s.Busy maxFrameSize := by
  cases hw : s.writer with
  | stopped => exact absurd ⟨by simp [hended hw], by rw [hw]; rfl⟩ h
  | idle =>
    cases hq : s.queue with
    | nil => exact absurd ⟨by simp [hq], by rw [hw]; rfl⟩ h
    | cons request queue =>
      cases request <;>
        exact ⟨.recvRequest, _, trivial, by simp only [step, recvRequest, hw, hq]; rfl⟩
  | registering bytes tag i collector =>
    exact ⟨.register, _, trivial, by simp only [step, register, hw]; rfl⟩
  | writing command rest =>
    cases rest <;> exact ⟨.writeBytes 1, _, trivial, by simp only [step, writeBytes, hw]; rfl⟩

/-- A frame that waits in a stream is taken by its caller. -/
theorem busy_of_frames (hgone : Emptied s) {i : CommandId} (h : (s.streams i).queue ≠ []) :
    s.Busy maxFrameSize := by
  obtain ⟨f, rest, hq⟩ := List.exists_cons_of_ne_nil h
  cases hr : (s.streams i).receiver with
  | «open» =>
    have hnext : s.nextFrame i = .ready (some f) := by simp only [nextFrame, hq]
    exact ⟨.pollStream i, _, h, by simp only [step, pollStream, hr, hnext]; rfl⟩
  | closed => exact ⟨.drainStream i, _, trivial, by simp only [step, drainStream, hr, hq]; rfl⟩
  | gone => exact absurd (hgone i hr) h

/-- The read loop goes on unless it waits for a stream with frames in it. -/
theorem busy_of_reader (hgone : Emptied s) (hreading : Tidy maxFrameSize s)
    (h : ¬ s.reader.Resting maxFrameSize) : s.Busy maxFrameSize := by
  cases hr : s.reader with
  | reading buffer => exact absurd (.inr ⟨buffer, hr, hreading.reading buffer hr⟩) h
  | scanning buffer =>
    obtain ⟨s', hs'⟩ : ∃ s', s.scanBuffer maxFrameSize none = some s' := scanBuffer_isSome hr
    exact ⟨.scanBuffer none, s', trivial, hs'⟩
  | dispatching route p buffer =>
    by_cases hfull : ∃ i, (s.streams i).queue ≠ []
    · obtain ⟨i, hi⟩ := hfull
      exact busy_of_frames hgone hi
    · push Not at hfull
      obtain ⟨s', hs'⟩ := dispatchFrame_isSome hr fun i _ => by
        rw [hfull i]
        decide
      exact ⟨.dispatchFrame, s', trivial, hs'⟩
  | failing e => exact ⟨.failAllPending, _, trivial, by simp only [step, failAllPending, hr]; rfl⟩
  | stopped => exact absurd (.inl hr) h

/-- **No deadlock.** -/
theorem Settled.or_busy (hgone : Emptied s) (htidy : Tidy maxFrameSize s) :
    Settled maxFrameSize s ∨ s.Busy maxFrameSize := by
  by_cases hoff : s.WorkedOff
  · by_cases hrest : s.reader.Resting maxFrameSize
    · by_cases hstreams : ∀ i, (s.streams i).queue = [] ∧ (s.streams i).receiver ≠ .closed
      · exact .inl ⟨hoff, hrest, hstreams⟩
      · push Not at hstreams
        obtain ⟨i, hi⟩ := hstreams
        by_cases hq : (s.streams i).queue = []
        · exact .inr ⟨.drainStream i, _, trivial, by
            simp only [step, drainStream, hi hq, hq]; rfl⟩
        · exact .inr (busy_of_frames hgone hq)
    · exact .inr (busy_of_reader hgone htidy hrest)
  · exact .inr (busy_of_requests htidy.ended hoff)

/-! ### No livelock -/

/-- What a caller has left to do with its stream. -/
def streamWork (c : Stream) : ℕ := 4 * c.queue.length + if c.receiver = .closed then 1 else 0

/-- How much is left to do. -/
def work (s : Dispatcher) : ℕ := loopsWork s + ∑ i ∈ range s.issued, streamWork (s.streams i)

/-- Work on one stream, or handed over to it. -/
theorem work_setStream {i : CommandId} {c : Stream} (hi : i < s.issued)
    (hissued : s'.issued = s.issued) (hstreams : s'.streams = Function.update s.streams i c)
    (h : loopsWork s' + streamWork c < loopsWork s + streamWork (s.streams i)) :
    s'.work < s.work := by
  have hsum := sum_update streamWork s.streams c hi
  rw [work, work, hissued, hstreams]
  omega

/-- A step that leaves the streams as they are. -/
def SameStreams (s s' : Dispatcher) : Prop :=
  s'.issued = s.issued ∧ ∀ i, (s'.streams i).queue = (s.streams i).queue ∧
    (s'.streams i).receiver = (s.streams i).receiver

/-- Work of the loops. -/
theorem work_of_lightens (hsame : SameStreams s s') (h : Lightens 0 s s') : s'.work < s.work := by
  obtain ⟨hissued, hstreams⟩ := hsame
  have hsum : ∑ i ∈ range s.issued, streamWork (s'.streams i)
      = ∑ i ∈ range s.issued, streamWork (s.streams i) := by
    refine sum_congr rfl fun i _ => ?_
    rw [streamWork, streamWork, (hstreams i).1, (hstreams i).2]
  have hless := h.2
  rw [(hstreams 0).1] at hless
  rw [work, work, hissued, hsum]
  omega

theorem work_pollStream (h : Conserved s) {i : CommandId} (hq : (s.streams i).queue ≠ [])
    (hstep : s.pollStream i = some s') : s'.work < s.work := by
  obtain ⟨f, rest, hcons⟩ := List.exists_cons_of_ne_nil hq
  have hnext : s.nextFrame i = .ready (some f) := by simp only [nextFrame, hcons]
  obtain ⟨rest', hopen, hcons', rfl⟩ := pollStream_some hnext hstep
  refine work_setStream (h.lt_issued (by simp [hopen])) rfl rfl ?_
  simp [streamWork, hcons', loopsWork, setStream]

theorem work_drainStream (h : Conserved s) {i : CommandId} (hstep : s.drainStream i = some s') :
    s'.work < s.work := by
  rcases drainStream_cases hstep with ⟨f, rest, hq, hclosed, rfl⟩ | ⟨hq, hclosed, rfl⟩
  · refine work_setStream (h.lt_issued (by simp [hclosed])) rfl rfl ?_
    simp [streamWork, hclosed, hq, loopsWork, setStream]
  · refine work_setStream (h.lt_issued (by simp [hclosed])) rfl rfl ?_
    simp [streamWork, hclosed, hq, loopsWork, setStream]

theorem work_dispatchFrame (h : Conserved s) (hstep : s.dispatchFrame = some s') :
    s'.work < s.work := by
  have hm : Moves 0 s .dispatchFrame s' := moves_dispatchFrame hstep
  cases hm with
  | stay | resolve | unclaimed | unsent | publish =>
    exact work_of_lightens ⟨rfl, fun _ => ⟨rfl, rfl⟩⟩ (dispatchFrame_lightens hstep)
  | @push tx p buffer hr hopen =>
    refine work_setStream (h.lt_issued (by simp [hopen])) rfl rfl ?_
    simp only [streamWork, hopen, loopsWork, hr, readerWork, setStream, List.length_append,
      List.length_singleton]
    omega

/-- **No livelock.** -/
theorem work_decreases (h : Conserved s) (hC : Internal a s)
    (hstep : step maxFrameSize a s = some s') : s'.work < s.work := by
  cases a with
  | recvRequest =>
    refine work_of_lightens ?_ (recvRequest_lightens hstep)
    cases moves_of_step hstep <;> exact ⟨rfl, fun _ => ⟨rfl, rfl⟩⟩
  | register =>
    refine work_of_lightens ?_ (register_lightens hstep)
    cases moves_of_step hstep <;> exact ⟨rfl, fun _ => ⟨rfl, rfl⟩⟩
  | writeBytes n =>
    refine work_of_lightens ?_ (writeBytes_lightens hstep)
    cases moves_of_step hstep <;> exact ⟨rfl, fun _ => ⟨rfl, rfl⟩⟩
  | scanBuffer owner =>
    refine work_of_lightens ?_ (scanBuffer_lightens hstep)
    cases moves_of_step hstep with
    | scanFrame => exact ⟨rfl, fun i => ⟨markRouted_queue _ _ i, markRouted_receiver _ _ i⟩⟩
    | _ => exact ⟨rfl, fun _ => ⟨rfl, rfl⟩⟩
  | dispatchFrame => exact work_dispatchFrame h hstep
  | failAllPending =>
    refine work_of_lightens ?_ (failAllPending_lightens hstep)
    cases moves_of_step hstep <;> exact ⟨rfl, fun _ => ⟨rfl, rfl⟩⟩
  | pollStream i => exact work_pollStream h hC hstep
  | drainStream i => exact work_drainStream h hstep
  | _ => exact hC.elim

/-! ### Every run -/

/-- Once nothing is left to do, every frame is delivered, or was dropped with the stream of a caller
that went away. -/
theorem Settled.delivered (h : Settled maxFrameSize s) (hconserved : Conserved s) :
    ∀ p ∈ s.parsed, s.Delivered p ∨ ∃ i, p ∈ (s.streams i).discarded := by
  intro p hp
  have hhand : Reader.hand s.reader = [] := by
    rcases h.reader with hr | ⟨buffer, hr, -⟩ <;> rw [hr] <;> rfl
  have hcopies : 0 < s.copies p := by
    rw [hconserved.account p]
    exact List.count_pos_iff.mpr hp
  rw [copies, hhand, List.count_nil, Nat.zero_add] at hcopies
  by_cases hreplied : p ∈ s.replied
  · exact .inl (.inl hreplied)
  by_cases hbroadcast : p ∈ s.broadcast
  · exact .inl (.inr (.inl hbroadcast))
  rw [List.count_eq_zero_of_not_mem hreplied, List.count_eq_zero_of_not_mem hbroadcast,
    Nat.zero_add] at hcopies
  obtain ⟨i, -, hi⟩ := exists_ne_zero_of_sum_ne_zero hcopies.ne'
  have hmem : p ∈ (s.streams i).frames := List.count_pos_iff.mp (Nat.pos_of_ne_zero hi)
  rw [Stream.frames, (h.streams i).1, List.append_nil] at hmem
  rcases List.mem_append.mp hmem with hyielded | hdiscarded
  · exact .inl (.inr (.inr ⟨i, hyielded⟩))
  · exact .inr ⟨i, hdiscarded⟩

/-- Nobody drops a stream while the loops work. -/
theorem discarded_eq_of_internal (h : Conserved t) (hC : Internal a t)
    (hstep : step maxFrameSize a t = some s') (i : CommandId) :
    (s'.streams i).discarded = (t.streams i).discarded := by
  rcases (moves_of_step hstep).discarded_eq h i with hsame | ⟨rfl, -⟩
  · exact hsame
  · exact hC.elim

/-- Once nothing is left to do, every command that was in line is out. -/
theorem Settled.inOrder (h : Settled maxFrameSize t) (horder : InOrder s t) :
    t.registered = s.registered ++ s.waiting ∧
      (s.writer ≠ .stopped → t.received = s.registered ++ s.waiting) := by
  have hline := horder.line
  rw [waiting_of_workedOff h.workedOff, List.append_nil] at hline
  refine ⟨hline, fun hw => ?_⟩
  have hnone : t.writer.inFlight = [] := by
    have hsettled := h.workedOff.2
    cases hwriter : t.writer with
    | writing command rest =>
      rw [hwriter] at hsettled
      cases hsettled
    | _ => rfl
  rw [← hline, horder.out hw, hnone, List.append_nil]

/-- **The loops come to rest.** From every state a client can reach, and in whichever order the
loops and the callers that take their frames go on: after finitely many steps, none of which is the
last before that, the queue is worked off, the read loop waits with nothing complete in its buffer
or has ended, every stream is empty and every frame delivered, but for those that had been dropped
with a stream at the start. The commands that were in line are registered in order, each with its
line out in full unless the write loop had ended before. -/
theorem settles (h : Reachable maxFrameSize s) :
    Inevitably (step maxFrameSize) Internal (fun t => Settled maxFrameSize t ∧
      (∀ p ∈ t.parsed, t.Delivered p ∨ ∃ i, p ∈ (s.streams i).discarded) ∧
      (∀ i, (t.streams i).discarded = (s.streams i).discarded) ∧
      t.registered = s.registered ++ s.waiting ∧
      (s.writer ≠ .stopped → t.received = s.registered ++ s.waiting)) s := by
  refine inevitably_of_variant
    (I := fun t => Reachable maxFrameSize t ∧ InOrder s t ∧
      ∀ i, (t.streams i).discarded = (s.streams i).discarded) work
    ?_ ?_ ?_ ⟨h, .refl (inLine_of_reachable h), fun _ => rfl⟩
  · intro a t t' ⟨ht, horder, hdiscarded⟩ hC hstep
    have hsame := discarded_eq_of_internal (conserved_of_reachable ht) hC hstep
    exact ⟨ht.next trivial hstep, horder.step hC hstep, fun i => (hsame i).trans (hdiscarded i)⟩
  · intro a t t' ht hC hstep
    exact work_decreases (conserved_of_reachable ht.1) hC hstep
  · intro t ⟨ht, horder, hdiscarded⟩
    rcases Settled.or_busy (Emptied.of_reachable ht) (Tidy.of_reachable ht) with hdone | hbusy
    · have hdelivered := hdone.delivered (conserved_of_reachable ht)
      simp only [hdiscarded] at hdelivered
      exact .inl ⟨hdone, hdelivered, hdiscarded, hdone.inOrder horder⟩
    · exact .inr hbusy

/-- A search whose stream was dropped with a result in it. A second command is waiting, and both
answers are there already. -/
def answeredEarly : List Action :=
  [.enqueueCommand (ascii "SEARCH ALL") (some isSearch), .recvRequest, .register, .writeBytes 64,
    .writeBytes 64, .readBuf (.ok (ascii "* SEARCH 1\r\n")), .scanBuffer none, .dispatchFrame,
    .scanBuffer none, .dropStream 0, .enqueueCommand (ascii "NOOP") none,
    .readBuf (.ok (ascii "A0001 OK done\r\nA0002 O"))]

theorem settles_answeredEarly :
    ∃ s, Reachable 1024 s ∧ s.waiting = [1] ∧ (s.streams 0).discarded.length = 1 ∧
      Inevitably (step 1024) Internal (fun t => Settled 1024 t ∧
        (∀ p ∈ t.parsed, t.Delivered p ∨ ∃ i, p ∈ (s.streams i).discarded) ∧
        (∀ i, (t.streams i).discarded = (s.streams i).discarded) ∧
        t.registered = s.registered ++ s.waiting ∧
        (s.writer ≠ .stopped → t.received = s.registered ++ s.waiting)) s := by
  have hrun : (runMeeting (step 1024) (fun _ _ => True) answeredEarly new).any (fun s =>
      decide (s.waiting = [1] ∧ (s.streams 0).discarded.length = 1)) = true := by
    decide +kernel
  obtain ⟨s, hs, hwaiting, hdiscarded⟩ := exists_reaches hrun
  exact ⟨s, hs, hwaiting, hdiscarded, settles hs⟩

/-! ### The price of an unread stream -/

/-- Whether a step is one of the caller of `i`'s stream. -/
def Action.takes (i : CommandId) : Action → Bool
  | .pollStream j | .closeStream j | .dropStream j => i == j
  | _ => false

/-- The read loop has a frame for a full stream in its hands. -/
structure HeldUp (i : CommandId) (p : Parsed) (buffer : Bytes) (s : Dispatcher) : Prop where
  reader : s.reader = .dispatching (.stream i) p buffer
  receiver : (s.streams i).receiver = .open
  full : STREAM_CHANNEL_CAP ≤ (s.streams i).queue.length
  issued : i < s.issued

theorem HeldUp.dispatchFrame {i : CommandId} {p : Parsed} {buffer : Bytes}
    (h : HeldUp i p buffer s) : s.dispatchFrame = none := by
  unfold Dispatcher.dispatchFrame
  rw [h.reader]
  simp only [h.receiver, if_neg (Nat.not_lt.mpr h.full)]

/-- A step that touches neither the read loop nor the stream. -/
theorem HeldUp.elsewhere {i : CommandId} {p : Parsed} {buffer : Bytes} (h : HeldUp i p buffer s)
    (hreader : s'.reader = s.reader) (hstream : s'.streams i = s.streams i)
    (hissued : s.issued ≤ s'.issued) : HeldUp i p buffer s' where
  reader := hreader.trans h.reader
  receiver := hstream ▸ h.receiver
  full := hstream ▸ h.full
  issued := h.issued.trans_le hissued

/-- As long as the caller of the stream does nothing, nothing changes for the read loop. -/
theorem HeldUp.step {i : CommandId} {p : Parsed} {buffer : Bytes} (h : HeldUp i p buffer s)
    (hC : ¬ a.takes i = true) (hstep : step maxFrameSize a s = some s') :
    HeldUp i p buffer s' ∧ s'.streams i = s.streams i ∧ s'.resolved = s.resolved ∧
      s'.parsed = s.parsed := by
  have hother : ∀ {j}, i ≠ j → ∀ c, (s.setStream j c).streams i = s.streams i := by
    intro j hj c
    exact Function.update_of_ne hj _ _
  have hclosed : ∀ {j}, (s.streams j).receiver = .closed → i ≠ j := by
    rintro j hj rfl
    cases h.receiver.symm.trans hj
  cases moves_of_step hstep with
  | readEnd hr | readMore hr | scanFrame hr | scanWait hr | scanStop hr | failAll hr =>
    cases hr.symm.trans h.reader
  | resolve | unclaimed | push | unsent | publish => cases h.dispatchFrame.symm.trans hstep
  | @enqueue cmd collector _ =>
    have hne : i ≠ s.issued := Nat.ne_of_lt h.issued
    cases collector with
    | none => exact ⟨h.elsewhere rfl rfl (Nat.le_succ _), rfl, rfl, rfl⟩
    | some wants =>
      have hsame := hother hne ⟨some wants, .open, [], [], [], []⟩
      exact ⟨h.elsewhere rfl hsame (Nat.le_succ _), hsame, rfl, rfl⟩
  | lost => exact ⟨h.elsewhere rfl rfl (Nat.le_succ _), rfl, rfl, rfl⟩
  | yield | close | dropStream =>
    have hj := hother (by simpa [Action.takes] using hC)
    exact ⟨h.elsewhere rfl (hj _) le_rfl, hj _, rfl, rfl⟩
  | drain hj | drained hj =>
    have hj := hother (hclosed hj)
    exact ⟨h.elsewhere rfl (hj _) le_rfl, hj _, rfl, rfl⟩
  | _ => exact ⟨h.elsewhere rfl rfl le_rfl, rfl, rfl, rfl⟩

/-- **An unread stream holds up the connection.** When a frame has been read for a stream that is
full, then in every run in which the caller of that stream does not act on it, the read loop stays
where it is: no command is answered, no other frame is read, and none is delivered to the stream. -/
theorem held_up_until_taken {i : CommandId} {p : Parsed} {buffer : Bytes}
    (hs : Reachable maxFrameSize s) (hr : s.reader = .dispatching (.stream i) p buffer)
    (hopen : (s.streams i).receiver = .open)
    (hfull : STREAM_CHANNEL_CAP ≤ (s.streams i).queue.length)
    (h : Reaches (Dispatcher.step maxFrameSize) (fun a _ => ¬ a.takes i = true) s t) :
    t.reader = .dispatching (.stream i) p buffer ∧ t.resolved = s.resolved ∧ t.parsed = s.parsed ∧
      t.streams i = s.streams i := by
  have hissued : i < s.issued := (conserved_of_reachable hs).lt_issued (by simp [hopen])
  have hheld := h.invariant
    (I := fun t => HeldUp i p buffer t ∧ t.streams i = s.streams i ∧ t.resolved = s.resolved ∧
      t.parsed = s.parsed)
    ⟨⟨hr, hopen, hfull, hissued⟩, rfl, rfl, rfl⟩
    fun _ hC hstep ht => by
      obtain ⟨hheld, hstream, hresolved, hparsed⟩ := ht.1.step hC hstep
      exact ⟨hheld, hstream.trans ht.2.1, hresolved.trans ht.2.2.1, hparsed.trans ht.2.2.2⟩
  exact ⟨hheld.1.reader, hheld.2.2.1, hheld.2.2.2, hheld.2.1⟩

/-- A search and a command behind it, both sent. -/
def searchAndNoop : List Action :=
  [.enqueueCommand (ascii "SEARCH ALL") (some isSearch), .enqueueCommand (ascii "NOOP") none,
    .recvRequest, .register, .writeBytes 64, .writeBytes 64,
    .recvRequest, .register, .writeBytes 64, .writeBytes 64]

/-- A result arrives and goes to the stream. -/
def resultArrives : List Action :=
  [.readBuf (.ok (ascii "* SEARCH 1\r\n")), .scanBuffer none, .dispatchFrame, .scanBuffer none]

/-- A search whose caller does not look at the results. -/
def unreadSearch : List Action :=
  searchAndNoop ++ (List.replicate 32 resultArrives).flatten ++
    [.readBuf (.ok (ascii "* SEARCH 2\r\nA0002 OK done\r\n")), .scanBuffer none]

theorem held_up_until_taken_search :
    ∃ s p buffer t, Reachable 1024 s ∧
      Reaches (Dispatcher.step 1024) (fun a _ => ¬ a.takes 0 = true) s t ∧
      t.abandoned = [1] ∧ t.pending.replies.map Prod.snd = [0, 1] ∧
      t.reader = .dispatching (.stream 0) p buffer ∧ t.resolved = s.resolved ∧
      t.parsed = s.parsed ∧ t.streams 0 = s.streams 0 := by
  have hrun : (runMeeting (Dispatcher.step 1024) (fun _ _ => True) unreadSearch new).any (fun s =>
      decide (s.reader = .dispatching (.stream 0)
          ⟨(ascii "* SEARCH 2\r\n", .data (.search [2])), 32, none⟩ (ascii "A0002 OK done\r\n") ∧
        (s.streams 0).receiver = .open ∧ 32 ≤ (s.streams 0).queue.length ∧
        s.abandoned = [] ∧ s.pending.replies.map Prod.snd = [0, 1])) = true := by
    decide +kernel
  obtain ⟨s, hs, hr, hopen, hfull, habandoned, hpending⟩ := exists_reaches hrun
  have hgivesUp : Reaches (Dispatcher.step 1024) (fun a _ => ¬ a.takes 0 = true) s
      { s with abandoned := 1 :: s.abandoned } :=
    Reaches.start.next (a := .dropReply 1) (by decide) rfl
  exact ⟨s, _, _, _, hs, hgivesUp, congrArg _ habandoned, hpending,
    held_up_until_taken hs hr hopen hfull hgivesUp⟩

end Dispatcher

end ImapRs
