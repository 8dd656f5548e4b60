import ImapRs.Client.Conservation

/-!
# What a client holds

A server decides how much it sends, and a caller how fast it takes frames out of its stream. What is
buffered in between is bounded all the same: the write queue and every stream by their capacities,
and the read loop by the ceiling on an incomplete frame and the size of one read. The ceiling is on
what is incomplete only, so a frame that is completed by the read that passes it is accepted; it is
the sum that bounds a frame.

## Main definitions

* `ReadsAtMost` — no read returns more than so many bytes
* `Reader.held`, `Stream.bytes` — the bytes in the hands of the read loop and in a stream
* `Bounded` — the invariant

## Main results

* `Bounded.step` — every step keeps it
* `buffered_bounded` — what a client holds, in every state under every interleaving
-/

namespace ImapRs

open Incremental Transition Finset

/-- The bytes in the hands of the read loop. -/
def Reader.held : Reader → ℕ
  | .reading buffer | .scanning buffer => buffer.length
  | .dispatching _ p buffer => p.frame.1.length + buffer.length
  | _ => 0

/-- The bytes of the frames in a stream. -/
def Stream.bytes (c : Stream) : ℕ := (c.queue.map fun p => p.frame.1.length).sum

namespace Dispatcher

/-- The bytes a step reads. -/
def Action.bytesRead : Action → ℕ
  | .readBuf (.ok bytes) => bytes.length
  | _ => 0

/-- No read returns more than `chunk` bytes. -/
def ReadsAtMost (chunk : ℕ) (a : Action) (_ : Dispatcher) : Prop := a.bytesRead ≤ chunk

instance (chunk : ℕ) (a : Action) (s : Dispatcher) : Decidable (ReadsAtMost chunk a s) :=
  inferInstanceAs (Decidable (a.bytesRead ≤ chunk))

/-- The commands whose caller still has, or is draining, its stream. -/
def listening (s : Dispatcher) : Finset CommandId :=
  (range s.issued).filter fun i => (s.streams i).receiver ≠ .gone

/-- The bytes a client holds that it has read and not handed on. -/
def buffered (s : Dispatcher) : ℕ := s.reader.held + ∑ i ∈ range s.issued, (s.streams i).bytes

/-- What a client holds. -/
structure Bounded (maxFrameSize chunk : ℕ) (s : Dispatcher) : Prop where
  queue : s.queue.length ≤ WRITE_CHANNEL_CAP
  streams : ∀ i, (s.streams i).queue.length ≤ STREAM_CHANNEL_CAP
  /-- What is left when the read loop reads again is an incomplete frame below the ceiling. -/
  reading : ∀ buffer, s.reader = .reading buffer → buffer.length ≤ maxFrameSize
  held : s.reader.held ≤ maxFrameSize + chunk
  frames : ∀ i, ∀ p ∈ (s.streams i).queue, p.frame.1.length ≤ maxFrameSize + chunk

variable {maxFrameSize chunk : ℕ} {a : Action} {s s' : Dispatcher}

theorem bounded_new : Bounded maxFrameSize chunk new where
  queue := Nat.zero_le _
  streams _ := Nat.zero_le _
  reading := by
    intro buffer h
    cases h
    exact Nat.zero_le _
  held := Nat.zero_le _
  frames := by simp [new, Stream.none]

/-! ### The guards of the channels -/

theorem enqueueCommand_room {cmd : Bytes} {collector : Option FrameFilter}
    (h : s.enqueueCommand cmd collector = some s') :
    s' = s ∨ s.queue.length < WRITE_CHANNEL_CAP := by
  unfold enqueueCommand at h
  split at h
  · cases h
    exact .inl rfl
  split at h
  · cases h
  · cases h
  · split at h
    next hroom => exact .inr hroom
    · cases h

theorem sendRaw_room {bytes : Bytes} (h : s.sendRaw bytes = some s') :
    s.writer ≠ .stopped ∧ s.queue.length < WRITE_CHANNEL_CAP := by
  unfold sendRaw at h
  split at h
  · cases h
  · cases h
  next hw =>
    split at h
    next hroom => exact ⟨hw, hroom⟩
    · cases h

theorem dispatchFrame_room (h : s.dispatchFrame = some s') {tx : CommandId} {p : Parsed}
    {buffer : Bytes} (hr : s.reader = .dispatching (.stream tx) p buffer)
    (hopen : (s.streams tx).receiver = .open) :
    (s.streams tx).queue.length < STREAM_CHANNEL_CAP := by
  unfold dispatchFrame at h
  rw [hr] at h
  simp only [hopen] at h
  split at h
  next hroom => exact hroom
  · cases h

/-! ### One step -/

/-- A step that leaves the read loop alone and puts nothing into a channel. -/
theorem Bounded.shrink (h : Bounded maxFrameSize chunk s)
    (hqueue : s'.queue.length ≤ s.queue.length)
    (hstreams : ∀ i, (s'.streams i).queue.Sublist (s.streams i).queue)
    (hreader : s'.reader = s.reader) : Bounded maxFrameSize chunk s' where
  queue := hqueue.trans h.queue
  streams i := (hstreams i).length_le.trans (h.streams i)
  reading := hreader ▸ h.reading
  held := hreader ▸ h.held
  frames i p hp := h.frames i p ((hstreams i).subset hp)

/-- A step of the read loop that delivers nothing to a stream. -/
theorem Bounded.setReader (h : Bounded maxFrameSize chunk s) (hqueue : s'.queue = s.queue)
    (hstreams : ∀ i, (s'.streams i).queue = (s.streams i).queue)
    (hreading : ∀ buffer, s'.reader = .reading buffer → buffer.length ≤ maxFrameSize)
    (hheld : s'.reader.held ≤ maxFrameSize + chunk) : Bounded maxFrameSize chunk s' where
  queue := hqueue ▸ h.queue
  streams i := hstreams i ▸ h.streams i
  reading := hreading
  held := hheld
  frames i := hstreams i ▸ h.frames i

theorem setStream_sublist {i : CommandId} {c : Stream} (h : c.queue.Sublist (s.streams i).queue) :
    ∀ j, ((s.setStream i c).streams j).queue.Sublist (s.streams j).queue := by
  intro j
  by_cases hj : j = i
  · subst hj
    simpa [setStream] using h
  · simp [setStream, hj]

theorem Bounded.enqueueCommand {cmd : Bytes} {collector : Option FrameFilter}
    (h : Bounded maxFrameSize chunk s) (hstep : s.enqueueCommand cmd collector = some s') :
    Bounded maxFrameSize chunk s' := by
  rcases enqueueCommand_room hstep with rfl | hroom
  · exact h
  have hmoves := @moves_enqueueCommand maxFrameSize _ _ _ _ hstep
  cases hmoves with
  | stay => exact h
  | enqueue _ =>
    have hempty : ∀ wants i, (Function.update s.streams s.issued
        ⟨some wants, .open, [], [], [], []⟩ i).queue.Sublist (s.streams i).queue := by
      intro wants i
      by_cases hi : i = s.issued
      · subst hi
        simp
      · simp [hi]
    cases collector with
    | none => exact ⟨by simpa using hroom, h.streams, h.reading, h.held, h.frames⟩
    | some wants =>
      exact
        { queue := by simpa using hroom
          streams := fun i => (hempty wants i).length_le.trans (h.streams i)
          reading := h.reading
          held := h.held
          frames := fun i p hp => h.frames i p ((hempty wants i).subset hp) }

/-- A read adds what it returned. -/
theorem Bounded.readBuf {r : ReadResult} (h : Bounded maxFrameSize chunk s)
    (hread : ReadsAtMost chunk (.readBuf r) s) (hstep : s.readBuf r = some s') :
    Bounded maxFrameSize chunk s' := by
  unfold Dispatcher.readBuf at hstep
  split at hstep
  next buffer hr =>
    have hbuffer := h.reading buffer hr
    split at hstep <;> cases hstep
    · exact h.setReader rfl (fun _ => rfl) (by simp) (Nat.zero_le _)
    next bytes _ =>
      have hbytes : bytes.length ≤ chunk := hread
      refine h.setReader rfl (fun _ => rfl) (by simp) ?_
      show (buffer ++ bytes).length ≤ _
      rw [List.length_append]
      omega
    · exact h.setReader rfl (fun _ => rfl) (by simp) (Nat.zero_le _)
  · cases hstep

/-- A look at the buffer takes a frame off it, or finds an incomplete one below the ceiling. -/
theorem Bounded.scanBuffer {owner : Option CommandId} (h : Bounded maxFrameSize chunk s)
    (hstep : s.scanBuffer maxFrameSize owner = some s') : Bounded maxFrameSize chunk s' := by
  unfold Dispatcher.scanBuffer at hstep
  split at hstep
  next buffer hr =>
    have hheld := h.held
    rw [hr] at hheld
    rcases scan_cases maxFrameSize buffer with ⟨f, rest, hs, -, hb⟩ | ⟨hs, -, hle⟩ | ⟨e, hs, -⟩
    · rw [hs] at hstep
      cases hstep
      refine h.setReader rfl (fun i => ?_) (by simp) ?_
      · exact markRouted_queue _ _ i
      · rw [hb] at hheld
        simpa [Reader.held] using hheld
    · rw [hs] at hstep
      cases hstep
      refine h.setReader rfl (fun _ => rfl) (fun b hb => ?_) (hle.trans (Nat.le_add_right _ _))
      cases hb
      exact hle
    · rw [hs] at hstep
      cases hstep
      exact h.setReader rfl (fun _ => rfl) (by simp) (Nat.zero_le _)
  · cases hstep

/-- A delivered frame leaves the hands of the read loop. -/
theorem Bounded.dispatchFrame (h : Bounded maxFrameSize chunk s)
    (hstep : s.dispatchFrame = some s') : Bounded maxFrameSize chunk s' := by
  have hmoves := @moves_dispatchFrame maxFrameSize _ _ hstep
  have hless : ∀ {route p buffer}, s.reader = .dispatching route p buffer →
      (Reader.scanning buffer).held ≤ maxFrameSize + chunk := by
    intro route p buffer hr
    have hheld := h.held
    rw [hr] at hheld
    exact (Nat.le_add_left _ _).trans hheld
  cases hmoves with
  | stay => exact h
  | resolve hr _ => exact h.setReader rfl (fun _ => rfl) (by simp) (hless hr)
  | unclaimed hr _ => exact h.setReader rfl (fun _ => rfl) (by simp) (hless hr)
  | unsent hr _ => exact h.setReader rfl (fun _ => rfl) (by simp) (hless hr)
  | publish hr => exact h.setReader rfl (fun _ => rfl) (by simp) (hless hr)
  | push hr hopen =>
    next tx p buffer =>
    have hroom := dispatchFrame_room hstep hr hopen
    have hp : p.frame.1.length ≤ maxFrameSize + chunk := by
      have hheld := h.held
      rw [hr] at hheld
      exact (Nat.le_add_right _ _).trans hheld
    constructor
    · exact h.queue
    · intro i
      by_cases hi : i = tx
      · subst hi
        simpa [setStream] using hroom
      · simpa [setStream, hi] using h.streams i
    · simp
    · exact hless hr
    · intro i q hq
      by_cases hi : i = tx
      · subst hi
        have hq : q ∈ (s.streams i).queue ∨ q = p := by simpa [setStream] using hq
        rcases hq with hq | rfl
        · exact h.frames i q hq
        · exact hp
      · exact h.frames i q (by simpa [setStream, hi] using hq)

/-- **One step.** -/
theorem Bounded.step (h : Bounded maxFrameSize chunk s) (hread : ReadsAtMost chunk a s)
    (hstep : step maxFrameSize a s = some s') : Bounded maxFrameSize chunk s' := by
  cases moves_of_step hstep with
  | stay => exact h
  | enqueue _ => exact h.enqueueCommand hstep
  | lost => exact h.shrink le_rfl (fun _ => .refl _) rfl
  | raw =>
    have hroom := (sendRaw_room hstep).2
    exact ⟨by simpa using hroom, h.streams, h.reading, h.held, h.frames⟩
  | dropHandles => exact h.shrink le_rfl (fun _ => .refl _) rfl
  | dropReply => exact h.shrink le_rfl (fun _ => .refl _) rfl
  | yield _ hq => exact h.shrink le_rfl (setStream_sublist (by simp [hq])) rfl
  | close _ => exact h.shrink le_rfl (setStream_sublist (.refl _)) rfl
  | drain _ hq => exact h.shrink le_rfl (setStream_sublist (by simp [hq])) rfl
  | drained _ _ => exact h.shrink le_rfl (setStream_sublist (.refl _)) rfl
  | dropStream _ => exact h.shrink le_rfl (setStream_sublist (List.nil_sublist _)) rfl
  | recvCommand _ hq => exact h.shrink (by simp [hq]) (fun _ => .refl _) rfl
  | recvRaw _ hq => exact h.shrink (by simp [hq]) (fun _ => .refl _) rfl
  | recvNone _ _ => exact h.shrink le_rfl (fun _ => .refl _) rfl
  | register _ => exact h.shrink le_rfl (fun _ => .refl _) rfl
  | wrote _ => exact h.shrink le_rfl (fun _ => .refl _) rfl
  | written _ => exact h.shrink le_rfl (fun _ => .refl _) rfl
  | writeFailed _ => exact h.shrink (Nat.zero_le _) (fun _ => .refl _) rfl
  | readEnd _ => exact h.readBuf hread hstep
  | readMore _ => exact h.readBuf hread hstep
  | scanFrame _ _ => exact h.scanBuffer hstep
  | scanWait _ => exact h.scanBuffer hstep
  | scanStop _ => exact h.scanBuffer hstep
  | resolve _ _ => exact h.dispatchFrame hstep
  | unclaimed _ _ => exact h.dispatchFrame hstep
  | push _ _ => exact h.dispatchFrame hstep
  | unsent _ _ => exact h.dispatchFrame hstep
  | publish _ => exact h.dispatchFrame hstep
  | failAll _ => exact h.setReader rfl (fun _ => rfl) (by simp) (Nat.zero_le _)

/-! ### Every run -/

theorem Bounded.of_reachable
    (h : ReachableBy maxFrameSize (ReadsAtMost chunk) s) : Bounded maxFrameSize chunk s :=
  h.invariant bounded_new fun _ hread hstep hs => hs.step hread hstep

theorem Bounded.bytes_le (h : Bounded maxFrameSize chunk s) (i : CommandId) :
    (s.streams i).bytes ≤ STREAM_CHANNEL_CAP * (maxFrameSize + chunk) := by
  have hsum : (s.streams i).bytes ≤ (s.streams i).queue.length * (maxFrameSize + chunk) := by
    have := List.sum_le_card_nsmul ((s.streams i).queue.map fun p => p.frame.1.length)
      (maxFrameSize + chunk) (by simpa using h.frames i)
    simpa [Stream.bytes] using this
  exact hsum.trans (Nat.mul_le_mul_right _ (h.streams i))

/-- The streams that nobody reads hold nothing, and each of the others no more than its share. -/
theorem Bounded.buffered_le (h : Bounded maxFrameSize chunk s) (hgone : Emptied s) :
    s.buffered ≤ (1 + s.listening.card * STREAM_CHANNEL_CAP) * (maxFrameSize + chunk) := by
  have hlistening : ∑ i ∈ range s.issued, (s.streams i).bytes
      = ∑ i ∈ s.listening, (s.streams i).bytes := by
    have hempty : ∀ i ∈ range s.issued, (s.streams i).bytes ≠ 0 →
        (s.streams i).receiver ≠ .gone := by
      intro i _ hi hnone
      rw [Stream.bytes, hgone i hnone] at hi
      exact hi rfl
    exact (sum_filter_of_ne hempty).symm
  have hshare : ∑ i ∈ s.listening, (s.streams i).bytes
      ≤ s.listening.card * (STREAM_CHANNEL_CAP * (maxFrameSize + chunk)) := by
    simpa using sum_le_card_nsmul s.listening _ _ fun i _ => h.bytes_le i
  have hheld := h.held
  rw [buffered, hlistening, Nat.add_mul, Nat.one_mul, Nat.mul_assoc]
  exact Nat.add_le_add hheld hshare

/-- **What a client holds is bounded.** Whatever the server sends and in whichever order the parties
take their steps: the write queue and the streams keep to their capacities, neither a frame in a
stream nor what the read loop has in its hands exceeds the ceiling by more than one read, a stream
that nobody reads holds nothing, and the unread bytes are bounded by the streams in use. -/
theorem buffered_bounded (h : ReachableBy maxFrameSize (ReadsAtMost chunk) s) :
    s.queue.length ≤ WRITE_CHANNEL_CAP ∧
    (∀ i, (s.streams i).queue.length ≤ STREAM_CHANNEL_CAP) ∧
    (∀ i, ∀ p ∈ (s.streams i).queue, p.frame.1.length ≤ maxFrameSize + chunk) ∧
    s.reader.held ≤ maxFrameSize + chunk ∧
    (∀ i, (s.streams i).receiver = .gone → (s.streams i).queue = []) ∧
    s.buffered ≤ (1 + s.listening.card * STREAM_CHANNEL_CAP) * (maxFrameSize + chunk) := by
  have hbounded := Bounded.of_reachable h
  have hgone := Emptied.of_reachable h
  exact ⟨hbounded.queue, hbounded.streams, hbounded.frames, hbounded.held, hgone,
    hbounded.buffered_le hgone⟩

/-- Frames past the ceiling, each completed by the read that passes it. The stream of a first
command was dropped with a frame in it, one frame waits in the stream of a second, and the read loop
has the next one in its hands. -/
def largeSearch : List Action :=
  [.enqueueCommand (ascii "SEARCH ALL") (some isSearch),
    .enqueueCommand (ascii "SEARCH NEW") (some isSearch), .recvRequest, .register, .writeBytes 64,
    .writeBytes 64, .recvRequest, .register, .readBuf (.ok (ascii "* SEARCH 1")), .scanBuffer none,
    .readBuf (.ok (ascii " 2 3\r\n")), .scanBuffer none, .dispatchFrame, .dropStream 0,
    .scanBuffer none, .readBuf (.ok (ascii "* SEARCH 2")), .scanBuffer none,
    .readBuf (.ok (ascii " 4 5\r\n")), .scanBuffer none, .dispatchFrame, .scanBuffer none,
    .readBuf (.ok (ascii "* SEARCH 3")), .scanBuffer none, .readBuf (.ok (ascii " 6 7\r\n")),
    .scanBuffer none]

theorem buffered_bounded_search :
    ∃ s, ReachableBy 12 (ReadsAtMost 10) s ∧ s.reader.held = 16 ∧ s.reader.held ≤ 12 + 10 ∧
      (s.streams 0).receiver = .gone ∧ (s.streams 0).queue = [] ∧
      s.buffered = 32 ∧ s.listening.card = 1 ∧
      s.buffered ≤ (1 + 1 * STREAM_CHANNEL_CAP) * (12 + 10) := by
  have hrun : (runMeeting (step 12) (ReadsAtMost 10) largeSearch new).any (fun s =>
      decide (s.reader.held = 16 ∧ (s.streams 0).receiver = .gone ∧ s.buffered = 32 ∧
        s.listening.card = 1)) = true := by
    decide +kernel
  obtain ⟨s, hs, hheld, hgone, hbuffered, hcard⟩ := exists_reaches hrun
  obtain ⟨-, -, -, hhand, hempty, hbound⟩ := buffered_bounded hs
  rw [hcard] at hbound
  exact ⟨s, hs, hheld, hhand, hgone, hempty 0 hgone, hbuffered, hcard, hbound⟩

end Dispatcher

end ImapRs
