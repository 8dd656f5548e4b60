import ImapRs.Client.Steps
import Mathlib

/-!
# No frame is lost or duplicated

A frame the read loop has parsed is in one place at any time: in its hands, in the reply of the
command it completes, in the channel of one streaming command (or already taken out of it by its
owner), or in the broadcast. The account is kept by counting: every step moves a frame from one
place to another or leaves it where it is.

For a stream that is still open, the frames chosen for it are those it has yielded, those in its
channel and the one the read loop is about to send, in this order. `next_frame` returns `None` only
when the channel is empty and no sender is left, and then the last two are empty.

A caller that wants its reply only gives the stream back with `into_reply`, which closes the channel
and takes out what is buffered. Other parties act between its steps. What has left the closed
channel is in the broadcast, in order, and the channel is given up only when it is empty.

## Main definitions

* `copies` — how often a frame occurs in all places together
* `Conserved` — the account and the order of each stream
* `Emptied` — a stream without a receiver holds nothing
* `Closing` — what has become of the frames of a channel since it was closed
* `FramesSafe` — what it means for callers

## Main results

* `Moves.conserved` — every step keeps the account
* `runMeeting_intoReply`, `Closing.of_reaches` — `into_reply`, by itself and beside the others
* `framesSafe_of_reachable` — each frame is in exactly one place, streams are in wire order, and a
  stream that ends has yielded everything
-/

namespace ImapRs

open Incremental Transition Finset

/-- Changing one summand. -/
theorem sum_update {α : Type} (g : α → ℕ) (f : ℕ → α) (c : α) {i n : ℕ} (hi : i < n) :
    ∑ j ∈ range n, g (Function.update f i c j) + g (f i) = ∑ j ∈ range n, g (f j) + g c := by
  have hmem : i ∈ range n := mem_range.mpr hi
  rw [← add_sum_erase _ _ hmem, ← add_sum_erase (range n) (fun j => g (f j)) hmem,
    Function.update_self]
  have hrest : ∑ j ∈ (range n).erase i, g (Function.update f i c j)
      = ∑ j ∈ (range n).erase i, g (f j) := by
    refine sum_congr rfl fun j hj => ?_
    rw [Function.update_of_ne (ne_of_mem_erase hj)]
  rw [hrest]
  omega

/-- Every frame that reached the channel, in order: taken out, waiting, dropped with it. -/
def Stream.frames (c : Stream) : List Parsed := c.yielded ++ c.queue ++ c.discarded

namespace Dispatcher

/-- The frame the read loop is dispatching. -/
def Reader.hand : Reader → List Parsed
  | .dispatching _ p _ => [p]
  | _ => []

/-- The frame the read loop is about to send to `i`. -/
def Reader.handFor (i : CommandId) : Reader → List Parsed
  | .dispatching (.stream tx) p _ => if tx = i then [p] else []
  | _ => []

/-- The tagged frames that completed a command. -/
def replied (s : Dispatcher) : List Parsed := s.resolved.filterMap (·.cause)

/-- How often a frame occurs in all places together. -/
def copies (s : Dispatcher) (f : Parsed) : ℕ :=
  (Reader.hand s.reader).count f + s.replied.count f + s.broadcast.count f +
    ∑ i ∈ range s.issued, (s.streams i).frames.count f

/-- The account of all frames, and the order of each stream. -/
structure Conserved (s : Dispatcher) : Prop where
  seqs : s.parsed.map (·.seq) = List.range s.parsed.length
  account : ∀ f, s.copies f = s.parsed.count f
  /-- No channel before its command. -/
  unborn : ∀ i, s.issued ≤ i → s.streams i = Stream.none
  unborn_hand : ∀ i, s.issued ≤ i → Reader.handFor i s.reader = []
  inOrder : ∀ i, (s.streams i).receiver = .open →
    (s.streams i).routed
      = (s.streams i).yielded ++ (s.streams i).queue ++ Reader.handFor i s.reader
  yielded : ∀ i, (s.streams i).yielded <+: (s.streams i).routed
  routed : ∀ i, (s.streams i).routed.Sublist s.parsed

theorem conserved_new : Conserved new where
  seqs := rfl
  account f := by simp [copies, new, Reader.hand, replied]
  unborn _ _ := rfl
  unborn_hand _ _ := rfl
  inOrder := by simp [new, Stream.none]
  yielded := by simp [new, Stream.none]
  routed := by simp [new, Stream.none]

variable {maxFrameSize : ℕ} {a : Action} {s s' : Dispatcher}

theorem Conserved.lt_issued (h : Conserved s) {i : CommandId}
    (hi : (s.streams i).receiver ≠ .gone) : i < s.issued := by
  by_contra hge
  rw [h.unborn i (Nat.le_of_not_lt hge)] at hi
  exact hi rfl

/-- A step that touches the channel of one command and moves frames between it, the hands of the
read loop and the broadcast. -/
theorem Conserved.update (h : Conserved s) {i : CommandId} (hi : (s.streams i).receiver ≠ .gone)
    {c : Stream} {reader : Reader} {broadcast : List Parsed} {abandoned : List CommandId}
    (hcount : ∀ f, (Reader.hand reader).count f + broadcast.count f + c.frames.count f
      = (Reader.hand s.reader).count f + s.broadcast.count f + (s.streams i).frames.count f)
    (hothers : ∀ j, j ≠ i → Reader.handFor j reader = Reader.handFor j s.reader)
    (horder : c.receiver = .open → c.routed = c.yielded ++ c.queue ++ Reader.handFor i reader)
    (hyielded : c.yielded <+: c.routed) (hrouted : c.routed = (s.streams i).routed) :
    Conserved { s.setStream i c with reader, broadcast, abandoned } := by
  have hlt := h.lt_issued hi
  have hne : ∀ j, s.issued ≤ j → j ≠ i := fun j hj => Nat.ne_of_gt (Nat.lt_of_lt_of_le hlt hj)
  have hstreams : ∀ j,
      ({ s.setStream i c with reader, broadcast, abandoned } : Dispatcher).streams j
      = if j = i then c else s.streams j := by
    intro j
    simp only [setStream, Function.update_apply]
  refine { h with
    account := ?_
    unborn := ?_
    unborn_hand := fun j hj => ?_
    inOrder := ?_
    yielded := ?_
    routed := ?_ }
  · intro f
    have hsum := sum_update (fun c : Stream => c.frames.count f) s.streams c hlt
    have hf := hcount f
    rw [show s.setStream i c = { s.setStream i c with parsed := s.parsed } from rfl,
      ← h.account f]
    simp only [copies, setStream, replied] at hsum ⊢
    omega
  · intro j hj
    have hj : s.issued ≤ j := hj
    rw [hstreams, if_neg (hne j hj)]
    exact h.unborn j hj
  · have hj : s.issued ≤ j := hj
    rw [← h.unborn_hand j hj]
    exact hothers j (hne j hj)
  · intro j hj
    rw [hstreams] at hj ⊢
    by_cases hji : j = i
    · rw [if_pos hji] at hj ⊢
      rw [hji]
      exact horder hj
    · rw [if_neg hji] at hj ⊢
      rw [h.inOrder j hj]
      exact congrArg _ (hothers j hji).symm
  · intro j
    rw [hstreams]
    split
    · exact hyielded
    · exact h.yielded j
  · intro j
    rw [hstreams]
    split
    next hji =>
      rw [hrouted]
      exact h.routed i
    · exact h.routed j

/-- A step of the read loop that lets go of a frame and touches no channel. -/
theorem Conserved.release (h : Conserved s) {pending : Pending} {reader : Reader}
    {broadcast : List Parsed} {resolved : List Resolution}
    (hcount : ∀ f, (Reader.hand reader).count f + (resolved.filterMap (·.cause)).count f
        + broadcast.count f
      = (Reader.hand s.reader).count f + s.replied.count f + s.broadcast.count f)
    (hunborn : ∀ i, s.issued ≤ i → Reader.handFor i reader = [])
    (hhand : ∀ i, (s.streams i).receiver = .open →
      Reader.handFor i reader = Reader.handFor i s.reader) :
    Conserved { s with pending, reader, broadcast, resolved } :=
  { h with
    account := by
      intro f
      have hf := hcount f
      refine Eq.trans ?_ (h.account f)
      simp only [copies, replied] at hf ⊢
      omega
    unborn_hand := hunborn
    inOrder := fun i hi => by rw [h.inOrder i hi]; exact congrArg _ (hhand i hi).symm }

/-- A new command, with or without a channel. -/
theorem Conserved.issue (h : Conserved s) {tagCounter : UInt64} {queue : List WriteRequest}
    {c : Stream} (hframes : c.frames = []) (hrouted : c.routed = []) :
    Conserved { s with
      tagCounter
      issued := s.issued + 1
      queue
      streams := Function.update s.streams s.issued c } := by
  have hparts : c.yielded = [] ∧ c.queue = [] := by
    have := hframes
    simp only [Stream.frames, List.append_eq_nil_iff] at this
    exact this.1
  have hsame : ∀ i, i ≠ s.issued → Function.update s.streams s.issued c i = s.streams i :=
    fun i hi => Function.update_of_ne hi _ _
  refine { h with
    account := fun f => ?_
    unborn := fun i hi => ?_
    unborn_hand := fun i hi => h.unborn_hand i (Nat.le_of_succ_le hi)
    inOrder := fun i hi => ?_
    yielded := fun i => ?_
    routed := fun i => ?_ }
  · rw [← h.account f]
    simp only [copies, replied, sum_range_succ, Function.update_self, hframes, List.count_nil,
      Nat.add_zero]
    refine congrArg _ (sum_congr rfl fun i hi => ?_)
    rw [hsame i (Nat.ne_of_lt (mem_range.mp hi))]
  · have hi : s.issued + 1 ≤ i := hi
    exact (hsame i (Nat.ne_of_gt hi)).trans (h.unborn i (Nat.le_of_succ_le hi))
  · by_cases heq : i = s.issued
    · subst heq
      simp [hrouted, hparts, h.unborn_hand _ (Nat.le_refl _)]
    · simp only [hsame i heq] at hi ⊢
      exact h.inOrder i hi
  · by_cases heq : i = s.issued
    · subst heq
      simp [hrouted, hparts]
    · simp only [hsame i heq]
      exact h.yielded i
  · by_cases heq : i = s.issued
    · subst heq
      simp [hrouted]
    · simp only [hsame i heq]
      exact h.routed i

/-- A stream is chosen only while it is open. -/
theorem routeFor_eq_stream {response : Response} {tx : CommandId}
    (h : s.routeFor response = .stream tx) :
    (s.streams tx).receiver = .open ∧
      ∃ c ∈ s.pending.collectors, c.tx = tx ∧ c.wants response = true := by
  unfold routeFor at h
  split at h
  · cases h
  · split at h
    next tx' hc =>
      cases h
      obtain ⟨c, hfind, rfl⟩ := Option.map_eq_some_iff.mp hc
      have hp := List.find?_some hfind
      simp only [isClosed, Bool.and_eq_true, Bool.not_eq_true', bne_eq_false_iff_eq] at hp
      exact ⟨hp.1, c, List.mem_of_find?_eq_some hfind, rfl, hp.2⟩
    · cases h

theorem handFor_sublist (i : CommandId) (route : Route) (p : Parsed) (rest : Bytes) :
    (Reader.handFor i (.dispatching route p rest)).Sublist [p] := by
  cases route with
  | stream tx =>
    simp only [Reader.handFor]
    split
    · exact .refl _
    · exact List.nil_sublist _
  | _ => exact List.nil_sublist _

/-- What choosing a route leaves in the channels. -/
theorem markRouted_apply (s : Dispatcher) (route : Route) (p : Parsed) (rest : Bytes)
    (i : CommandId) : s.markRouted route p i = { s.streams i with
      routed := (s.streams i).routed ++ Reader.handFor i (.dispatching route p rest) } := by
  cases route with
  | stream tx =>
    simp only [markRouted, Reader.handFor, Function.update_apply]
    by_cases h : i = tx
    · subst h
      simp
    · simp [h, Ne.symm h]
  | _ => simp [markRouted, Reader.handFor]

/-- The read loop parses a frame and chooses its route. -/
theorem Conserved.scanFrame (h : Conserved s) {buffer rest : Bytes} {frame : Frame}
    {owner : Option CommandId} (hr : s.reader = .scanning buffer) :
    Conserved { s with
      reader := .dispatching (s.routeFor frame.2) ⟨frame, s.parsed.length, owner⟩ rest
      parsed := s.parsed ++ [⟨frame, s.parsed.length, owner⟩]
      streams := s.markRouted (s.routeFor frame.2) ⟨frame, s.parsed.length, owner⟩ } := by
  obtain ⟨p, hp⟩ : ∃ p : Parsed, p = ⟨frame, s.parsed.length, owner⟩ := ⟨_, rfl⟩
  rw [← hp]
  have hmark := markRouted_apply s (s.routeFor frame.2) p rest
  -- an open stream was chosen, and those belong to issued commands
  have hunborn : ∀ i, s.issued ≤ i →
      Reader.handFor i (.dispatching (s.routeFor frame.2) p rest) = [] := by
    intro i hi
    cases hroute : s.routeFor frame.2 with
    | stream tx =>
      have hlt := h.lt_issued (i := tx) (by rw [(routeFor_eq_stream hroute).1]; nofun)
      exact if_neg (Nat.ne_of_lt (Nat.lt_of_lt_of_le hlt hi))
    | _ => rfl
  refine {
    seqs := ?_
    account := fun f => ?_
    unborn := fun i hi => ?_
    unborn_hand := hunborn
    inOrder := fun i hi => ?_
    yielded := fun i => ?_
    routed := fun i => ?_ }
  · rw [List.map_append, h.seqs, List.length_append, List.length_singleton, List.range_succ, hp]
    rfl
  · have hcount := h.account f
    simp only [copies, hr, Reader.hand, replied, hmark, Stream.frames,
      List.count_append] at hcount ⊢
    simp only [List.count_nil] at hcount
    omega
  · simp only [hmark, hunborn i hi, List.append_nil]
    exact h.unborn i hi
  · simp only [hmark] at hi ⊢
    have := h.inOrder i hi
    rw [hr] at this
    rw [this]
    simp [Reader.handFor]
  · simp only [hmark]
    exact (h.yielded i).trans (List.prefix_append _ _)
  · simp only [hmark]
    exact (h.routed i).append (handFor_sublist i _ p rest)

/-- **Every step keeps the account.** -/
theorem Moves.conserved (hm : Moves maxFrameSize s a s') (h : Conserved s) : Conserved s' := by
  cases hm with
  | stay => exact h
  | @enqueue cmd collector _ =>
    cases collector with
    | some wants => exact h.issue rfl rfl
    | none =>
      have hsame : s.streams = Function.update s.streams s.issued Stream.none := by
        rw [← h.unborn s.issued (Nat.le_refl _), Function.update_eq_self]
      simp only
      rw [hsame]
      exact h.issue rfl rfl
  | lost =>
    have hsame : s.streams = Function.update s.streams s.issued Stream.none := by
      rw [← h.unborn s.issued (Nat.le_refl _), Function.update_eq_self]
    rw [hsame]
    exact h.issue rfl rfl
  | raw => exact { h with }
  | dropHandles => exact { h with }
  | dropReply => exact { h with }
  | yield hopen hq =>
    refine h.update (by rw [hopen]; nofun) (fun f => ?_) (fun _ _ => rfl) (fun _ => ?_) ?_ rfl
    · simp only [Stream.frames, hq, List.count_append, List.count_cons, List.count_nil]
      omega
    · rw [h.inOrder _ hopen, hq]
      simp
    · rw [h.inOrder _ hopen, hq]
      simp
  | close hopen =>
    exact h.update (by rw [hopen]; nofun) (fun _ => rfl) (fun _ _ => rfl) nofun (h.yielded _) rfl
  | drain hclosed hq =>
    refine h.update (by rw [hclosed]; nofun) (fun f => ?_) (fun _ _ => rfl)
      (fun ho => absurd (hclosed.symm.trans ho) nofun) (h.yielded _) rfl
    simp only [setStream, Stream.frames, hq, List.count_append, List.count_cons, List.count_nil]
    omega
  | drained hclosed =>
    exact h.update (by rw [hclosed]; nofun) (fun _ => rfl) (fun _ _ => rfl) nofun (h.yielded _) rfl
  | dropStream hopen =>
    refine h.update (by rw [hopen]; nofun) (fun f => ?_) (fun _ _ => rfl) nofun (h.yielded _) rfl
    simp only [setStream, Stream.frames, List.count_append, List.count_nil]
    omega
  | recvCommand => exact { h with }
  | recvRaw => exact { h with }
  | recvNone => exact { h with }
  | register => exact { h with }
  | wrote => exact { h with }
  | written => exact { h with }
  | writeFailed => exact { h with }
  | readEnd hr =>
    exact h.release (by simp [hr, Reader.hand, replied]) (fun _ _ => rfl)
      (by simp [hr, Reader.handFor])
  | readMore hr =>
    exact h.release (by simp [hr, Reader.hand, replied]) (fun _ _ => rfl)
      (by simp [hr, Reader.handFor])
  | scanFrame hr => exact h.scanFrame hr
  | scanWait hr =>
    exact h.release (by simp [hr, Reader.hand, replied]) (fun _ _ => rfl)
      (by simp [hr, Reader.handFor])
  | scanStop hr =>
    exact h.release (by simp [hr, Reader.hand, replied]) (fun _ _ => rfl)
      (by simp [hr, Reader.handFor])
  | resolve hr =>
    refine h.release (fun f => ?_) (fun _ _ => rfl) (by simp [hr, Reader.handFor])
    simp only [hr, Reader.hand, replied, List.filterMap_append, List.filterMap_cons,
      List.filterMap_nil, List.count_append, List.count_nil]
    omega
  | unclaimed hr =>
    refine h.release (fun f => ?_) (fun _ _ => rfl) (by simp [hr, Reader.handFor])
    simp only [hr, Reader.hand, replied, List.count_append, List.count_nil]
    omega
  | push hr hopen =>
    refine h.update (by rw [hopen]; nofun) (fun f => ?_) (fun j hj => ?_) (fun _ => ?_)
      (h.yielded _) rfl
    · simp only [setStream, hr, Reader.hand, Stream.frames, List.count_append, List.count_nil]
      omega
    · simp [hr, Reader.handFor, Ne.symm hj]
    · rw [h.inOrder _ hopen, hr]
      simp [Reader.handFor]
  | unsent hr hclosed =>
    refine h.release (fun f => ?_) (fun _ _ => rfl) (fun i hi => ?_)
    · simp only [hr, Reader.hand, replied, List.count_append, List.count_nil]
      omega
    · rw [hr]
      refine (if_neg fun heq => hclosed ?_).symm
      rw [heq, hi]
  | publish hr =>
    refine h.release (fun f => ?_) (fun _ _ => rfl) (by simp [hr, Reader.handFor])
    simp only [hr, Reader.hand, replied, List.count_append, List.count_nil]
    omega
  | failAll hr =>
    refine h.release (fun f => ?_) (fun _ _ => rfl) (by simp [hr, Reader.handFor])
    simp [hr, Reader.hand, replied, List.filterMap_append]

/-! ### Every interleaving -/

theorem conserved_of_reachable {C : Action → Dispatcher → Prop}
    (h : ReachableBy maxFrameSize C s) : Conserved s :=
  h.invariant conserved_new fun _ _ hstep ih => (moves_of_step hstep).conserved ih

/-- Frames are told apart by their place on the wire. -/
theorem Conserved.parsed_nodup (h : Conserved s) : s.parsed.Nodup :=
  .of_map _ (by rw [h.seqs]; exact List.nodup_range)

theorem Conserved.copies_eq (h : Conserved s) (f : Parsed) :
    s.copies f = if f ∈ s.parsed then 1 else 0 := by
  rw [h.account f]
  split
  next hf => exact List.count_eq_one_of_mem h.parsed_nodup hf
  next hf => exact List.count_eq_zero_of_not_mem hf

/-- **A stream that ends has yielded everything.** -/
theorem Conserved.yielded_of_ended (h : Conserved s) {i : CommandId}
    (hopen : (s.streams i).receiver = .open) (hend : s.nextFrame i = .ready none) :
    (s.streams i).yielded = (s.streams i).routed := by
  rw [nextFrame] at hend
  split at hend
  · cases hend
  next hq =>
    split at hend
    · cases hend
    next hno =>
      have hhand : Reader.handFor i s.reader = [] := by
        simp only [hasSender, Bool.or_eq_true, not_or] at hno
        unfold Reader.handFor
        split
        next tx p b hr =>
          rw [hr] at hno
          exact if_neg (by simpa using hno.2)
        · rfl
      rw [h.inOrder i hopen, hq, hhand, List.append_nil, List.append_nil]

/-- Frames are discarded by dropping an open stream, and by nothing else. -/
theorem Moves.discarded_eq (hm : Moves maxFrameSize s a s') (h : Conserved s) (i : CommandId) :
    (s'.streams i).discarded = (s.streams i).discarded ∨
      a = .dropStream i ∧ (s.streams i).receiver = .open := by
  cases hm with
  | @enqueue cmd collector _ =>
    cases collector with
    | none => exact .inl rfl
    | some wants =>
      by_cases hi : i = s.issued
      · subst hi
        simp [h.unborn s.issued (Nat.le_refl _), Stream.none]
      · simp [Function.update_of_ne hi]
  | @yield j _ _ _ _ | @close j _ | @drain j _ _ _ _ | @drained j _ _ | @push j _ _ _ _ =>
    by_cases hi : i = j
    · subst hi
      simp [setStream]
    · simp [setStream, Function.update_of_ne hi]
  | @dropStream j hopen =>
    by_cases hi : i = j
    · subst hi
      exact .inr ⟨rfl, hopen⟩
    · simp [setStream, Function.update_of_ne hi]
  | @scanFrame _ _ frame rest _ _ =>
    left
    simp only [markRouted_apply s _ _ rest]
  | _ => exact .inl rfl

/-! ### Streams that nobody reads -/

/-- A stream without a receiver holds nothing. -/
def Emptied (s : Dispatcher) : Prop :=
  ∀ i, (s.streams i).receiver = .gone → (s.streams i).queue = []

theorem emptied_new : Emptied new := fun _ _ => rfl

theorem Emptied.setStream (h : Emptied s) {i : CommandId} {c : Stream}
    (hc : c.receiver = .gone → c.queue = []) : Emptied (s.setStream i c) := by
  intro j hj
  by_cases hji : j = i
  · subst hji
    simp only [Dispatcher.setStream, Function.update_self] at hj ⊢
    exact hc hj
  · simp only [Dispatcher.setStream, Function.update_of_ne hji] at hj ⊢
    exact h j hj

theorem markRouted_queue (route : Route) (p : Parsed) (i : CommandId) :
    (s.markRouted route p i).queue = (s.streams i).queue := by
  rw [markRouted_apply s route p [] i]

theorem markRouted_receiver (route : Route) (p : Parsed) (i : CommandId) :
    (s.markRouted route p i).receiver = (s.streams i).receiver := by
  rw [markRouted_apply s route p [] i]

theorem Emptied.step (h : Emptied s) (hstep : step maxFrameSize a s = some s') : Emptied s' := by
  cases moves_of_step hstep with
  | @enqueue cmd collector _ =>
    cases collector with
    | none => exact h
    | some wants => exact h.setStream (by simp)
  | yield hopen _ => exact h.setStream (by simp [hopen])
  | close _ => exact h.setStream (by simp)
  | drain hclosed _ => exact h.setStream (by simp [hclosed])
  | drained _ hq => exact h.setStream fun _ => hq
  | dropStream _ => exact h.setStream (by simp)
  | scanFrame _ _ =>
    intro i hi
    rw [markRouted_receiver] at hi
    rw [markRouted_queue]
    exact h i hi
  | push _ hopen => exact h.setStream (by simp [hopen])
  | _ => exact h

theorem Emptied.of_reachable {C : Action → Dispatcher → Prop}
    (h : ReachableBy maxFrameSize C s) : Emptied s :=
  h.invariant emptied_new fun _ _ hstep hs => hs.step hstep

/-! ### Giving a stream back -/

/-- What `into_reply` does: it closes the channel and takes frames until the channel is empty. -/
def intoReply (i : CommandId) (frames : ℕ) : List Action :=
  .closeStream i :: List.replicate (frames + 1) (.drainStream i)

theorem closeStream_eq_some {i : CommandId} : s.closeStream i = some s' ↔
    (s.streams i).receiver = .open ∧
      s' = s.setStream i { s.streams i with receiver := .closed } := by
  simp only [closeStream]
  split
  next hopen => simp [hopen, eq_comm]
  next hne => simpa using fun hopen => absurd hopen hne

theorem drainStream_of_cons {i : CommandId} {f : Parsed} {rest : List Parsed}
    (hc : (s.streams i).receiver = .closed) (hq : (s.streams i).queue = f :: rest) :
    s.drainStream i = some { s.setStream i { s.streams i with queue := rest } with
      broadcast := s.broadcast ++ [f] } := by
  unfold drainStream
  simp only [hc, hq]

theorem drainStream_of_nil {i : CommandId} (hc : (s.streams i).receiver = .closed)
    (hq : (s.streams i).queue = []) :
    s.drainStream i = some (s.setStream i { s.streams i with receiver := .gone }) := by
  unfold drainStream
  simp only [hc, hq]

/-- The drain takes one frame after the other, and is done when there is none left. -/
theorem runMeeting_drainStream {i : CommandId} {frames : List Parsed}
    (hc : (s.streams i).receiver = .closed) (hq : (s.streams i).queue = frames) :
    runMeeting (step maxFrameSize) (fun _ _ => True)
        (List.replicate (frames.length + 1) (.drainStream i)) s
      = some { s.setStream i { s.streams i with receiver := .gone, queue := [] } with
          broadcast := s.broadcast ++ frames } := by
  induction frames generalizing s with
  | nil =>
    show (if True then (s.drainStream i).bind some else none) = _
    rw [if_pos trivial, drainStream_of_nil hc hq]
    simp [setStream, ← hq]
  | cons f rest ih =>
    rw [List.length_cons, List.replicate_succ, runMeeting, if_pos trivial]
    show (s.drainStream i).bind _ = _
    rw [drainStream_of_cons hc hq, Option.bind_some, ih (by simp [setStream, hc])
      (by simp [setStream])]
    simp [setStream]

/-- **`into_reply` by itself.** Everything that is buffered is broadcast, in order. -/
theorem runMeeting_intoReply {i : CommandId} (hopen : (s.streams i).receiver = .open) :
    runMeeting (step maxFrameSize) (fun _ _ => True) (intoReply i (s.streams i).queue.length) s
      = some { s.setStream i { s.streams i with receiver := .gone, queue := [] } with
          broadcast := s.broadcast ++ (s.streams i).queue } := by
  have hclose := closeStream_eq_some.mpr ⟨hopen, rfl⟩
  have hqueue : ((s.setStream i { s.streams i with receiver := .closed }).streams i).queue
      = (s.streams i).queue := by
    simp [setStream]
  rw [intoReply, runMeeting, if_pos trivial]
  show (s.closeStream i).bind _ = _
  rw [hclose, Option.bind_some, runMeeting_drainStream (by simp [setStream]) hqueue]
  simp [setStream]

/-- What has become of the frames of a channel since it was closed in `s`: those that left it are
in the broadcast, in order. -/
structure Closing (i : CommandId) (s u : Dispatcher) : Prop where
  issued : i < u.issued
  receiver : (u.streams i).receiver ≠ .open
  moved : ∃ moved log, (s.streams i).queue = moved ++ (u.streams i).queue ∧
    u.broadcast = s.broadcast ++ log ∧ moved.Sublist log

/-- A step leaves a channel that is not open as it is, or takes its first frame to the broadcast. -/
theorem Moves.closing {i : CommandId} (hm : Moves maxFrameSize s a s') (hi : i < s.issued)
    (hne : (s.streams i).receiver ≠ .open) :
    i < s'.issued ∧ (s'.streams i).receiver ≠ .open ∧
      ((s'.streams i).queue = (s.streams i).queue ∧ s.broadcast <+: s'.broadcast ∨
        ∃ f, (s.streams i).queue = f :: (s'.streams i).queue ∧
          s'.broadcast = s.broadcast ++ [f]) := by
  have hother : ∀ {j c}, i ≠ j → (s.setStream j c).streams i = s.streams i :=
    fun hj => Function.update_of_ne hj _ _
  have hnotOpen : ∀ {j}, (s.streams j).receiver = .open → i ≠ j := by
    rintro j hj rfl
    exact hne hj
  cases hm with
  | @enqueue cmd collector _ =>
    have hsame : ∀ c, Function.update s.streams s.issued c i = s.streams i :=
      fun c => Function.update_of_ne (Nat.ne_of_lt hi) _ _
    cases collector with
    | none => exact ⟨Nat.lt_succ_of_lt hi, hne, .inl ⟨rfl, List.prefix_refl _⟩⟩
    | some wants =>
      refine ⟨Nat.lt_succ_of_lt hi, ?_, .inl ⟨?_, List.prefix_refl _⟩⟩
      · simp only [hsame]
        exact hne
      · simp only [hsame]
  | lost => exact ⟨Nat.lt_succ_of_lt hi, hne, .inl ⟨rfl, List.prefix_refl _⟩⟩
  | yield hopen _ | close hopen | dropStream hopen | push _ hopen =>
    have hj := hnotOpen hopen
    exact ⟨hi, by simpa only [hother hj] using hne,
      .inl ⟨by simp only [hother hj], List.prefix_refl _⟩⟩
  | @drain j f rest hclosed hq =>
    by_cases hj : i = j
    · subst hj
      exact ⟨hi, by simp [setStream, hclosed], .inr ⟨f, by simp [setStream, hq], rfl⟩⟩
    · exact ⟨hi, by simpa only [hother hj] using hne,
        .inl ⟨by simp only [hother hj], List.prefix_append _ _⟩⟩
  | @drained j hclosed hq =>
    by_cases hj : i = j
    · subst hj
      exact ⟨hi, by simp [setStream], .inl ⟨by simp [setStream], List.prefix_refl _⟩⟩
    · exact ⟨hi, by simpa only [hother hj] using hne,
        .inl ⟨by simp only [hother hj], List.prefix_refl _⟩⟩
  | scanFrame =>
    refine ⟨hi, ?_, .inl ⟨?_, List.prefix_refl _⟩⟩
    · rw [markRouted_receiver]
      exact hne
    · rw [markRouted_queue]
  | unclaimed | unsent | publish => exact ⟨hi, hne, .inl ⟨rfl, List.prefix_append _ _⟩⟩
  | _ => exact ⟨hi, hne, .inl ⟨rfl, List.prefix_refl _⟩⟩

theorem Closing.step {i : CommandId} {u u' : Dispatcher} (h : Closing i s u)
    (hstep : step maxFrameSize a u = some u') : Closing i s u' := by
  obtain ⟨hissued, hreceiver, hmove⟩ := (moves_of_step hstep).closing h.issued h.receiver
  obtain ⟨moved, log, hqueue, hbroadcast, hsub⟩ := h.moved
  refine ⟨hissued, hreceiver, ?_⟩
  rcases hmove with ⟨hsame, more, hmore⟩ | ⟨f, hf, hmore⟩
  · refine ⟨moved, log ++ more, by rw [hsame, hqueue], ?_,
      hsub.trans (List.sublist_append_left _ _)⟩
    rw [← hmore, hbroadcast, List.append_assoc]
  · refine ⟨moved ++ [f], log ++ [f], ?_, ?_, hsub.append (List.Sublist.refl _)⟩
    · rw [hqueue, hf, List.append_assoc, List.singleton_append]
    · rw [hmore, hbroadcast, List.append_assoc]

/-- **`into_reply` beside the other parties.** -/
theorem Closing.of_reaches {i : CommandId} {u : Dispatcher} (h : Conserved s)
    (hclose : Dispatcher.step maxFrameSize (.closeStream i) s = some s')
    (hu : Reaches (Dispatcher.step maxFrameSize) (fun _ _ => True) s' u) : Closing i s u := by
  obtain ⟨hopen, rfl⟩ := closeStream_eq_some.mp hclose
  have hlt : i < s.issued := h.lt_issued (by rw [hopen]; nofun)
  refine hu.invariant ?_ fun _ _ hstep ih => ih.step hstep
  exact ⟨hlt, by simp [setStream], [], [], by simp [setStream], by simp [setStream], .refl _⟩

/-- What callers can rely on. -/
structure FramesSafe (maxFrameSize : ℕ) (s : Dispatcher) : Prop where
  /-- Every parsed frame is in exactly one place, and nothing else is anywhere. -/
  one_place : ∀ f, s.copies f = if f ∈ s.parsed then 1 else 0
  /-- A stream yields frames in wire order. -/
  wire_order : ∀ i, (s.streams i).yielded.Sublist s.parsed
  /-- `next_frame` returns `None` only after every frame chosen for the stream. -/
  ended : ∀ i, (s.streams i).receiver = .open → s.nextFrame i = .ready none →
    (s.streams i).yielded = (s.streams i).routed
  /-- `into_reply` moves what is buffered to the broadcast. -/
  rebroadcast : ∀ i f rest, (s.streams i).receiver = .closed → (s.streams i).queue = f :: rest →
    ∃ s', step maxFrameSize (.drainStream i) s = some s' ∧ s'.broadcast = s.broadcast ++ [f] ∧
      (s'.streams i).queue = rest
  /-- A stream without a receiver holds nothing. -/
  emptied : ∀ i, (s.streams i).receiver = .gone → (s.streams i).queue = []
  /-- From an open stream, `into_reply` by itself broadcasts all that is buffered, in order, and
  changes nothing else. -/
  intoReply : ∀ i, (s.streams i).receiver = .open →
    runMeeting (step maxFrameSize) (fun _ _ => True)
        (intoReply i (s.streams i).queue.length) s
      = some { s.setStream i { s.streams i with receiver := .gone, queue := [] } with
          broadcast := s.broadcast ++ (s.streams i).queue }
  /-- Whatever the other parties do beside it: what has left the closed channel is in the broadcast,
  in order, the next step of `into_reply` is enabled until it is done, and then that is everything
  that was buffered. -/
  intoReply_beside : ∀ i s' u, step maxFrameSize (.closeStream i) s = some s' →
    Reaches (step maxFrameSize) (fun _ _ => True) s' u →
      ((u.streams i).receiver = .closed ∧ (step maxFrameSize (.drainStream i) u).isSome ∨
        (u.streams i).receiver = .gone ∧ (u.streams i).queue = []) ∧
      ∃ moved log, (s.streams i).queue = moved ++ (u.streams i).queue ∧
        u.broadcast = s.broadcast ++ log ∧ moved.Sublist log
  /-- Frames are discarded only by dropping the stream without it. -/
  discards : ∀ a s' i, step maxFrameSize a s = some s' →
    (s'.streams i).discarded ≠ (s.streams i).discarded →
      a = .dropStream i ∧ (s.streams i).receiver = .open

/-- A closed channel can be drained, and a channel that is gone is empty. -/
theorem Emptied.drainStream (h : Emptied s) {i : CommandId}
    (hne : (s.streams i).receiver ≠ .open) :
    (s.streams i).receiver = .closed ∧ (s.drainStream i).isSome ∨
      (s.streams i).receiver = .gone ∧ (s.streams i).queue = [] := by
  cases hr : (s.streams i).receiver with
  | «open» => exact absurd hr hne
  | closed =>
    refine .inl ⟨rfl, ?_⟩
    cases hq : (s.streams i).queue with
    | nil => rw [drainStream_of_nil hr hq, Option.isSome_some]
    | cons f rest => rw [drainStream_of_cons hr hq, Option.isSome_some]
  | gone => exact .inr ⟨rfl, h i hr⟩

/-- **No frame is lost or duplicated.** In every state of every interleaving. -/
theorem framesSafe_of_reachable (maxFrameSize : ℕ) {s : Dispatcher}
    (hs : Reachable maxFrameSize s) :
    FramesSafe maxFrameSize s := by
  have h := conserved_of_reachable hs
  exact {
    one_place := h.copies_eq
    wire_order := fun i => (h.yielded i).sublist.trans (h.routed i)
    ended := fun i hopen hend => h.yielded_of_ended hopen hend
    rebroadcast := fun i f rest hc hq =>
      ⟨_, drainStream_of_cons hc hq, rfl, by simp [setStream]⟩
    emptied := Emptied.of_reachable hs
    intoReply := fun i hopen => runMeeting_intoReply hopen
    intoReply_beside := by
      intro i s' u hclose hu
      have hclosing := Closing.of_reaches h hclose hu
      have hreach : Reachable maxFrameSize u := (hs.next trivial hclose).trans hu
      exact ⟨(Emptied.of_reachable hreach).drainStream hclosing.receiver, hclosing.moved⟩
    discards := fun a s' i hstep hne =>
      ((moves_of_step hstep).discarded_eq h i).resolve_left hne }

/-- A FETCH with three frames of its own and two for everybody. The caller takes the first frame,
and two more are buffered when the command is completed. -/
def fetchExchange : List Action :=
  [.enqueueCommand (ascii "FETCH 1:3 UID") (some isFetch), .recvRequest, .register,
    .writeBytes 64, .writeBytes 64,
    .readBuf (.ok (ascii "* 1 FETCH (UID 7)\r\n* 4 EXISTS\r\n* 2 FETCH (UID 8)\r\n")),
    .scanBuffer (some 0), .dispatchFrame, .scanBuffer none, .dispatchFrame, .scanBuffer (some 0),
    .dispatchFrame, .scanBuffer none, .pollStream 0,
    .readBuf (.ok (ascii "* 3 FETCH (UID 9)\r\nA0001 OK done\r\n* 5 EXISTS\r\n")),
    .scanBuffer (some 0), .dispatchFrame, .scanBuffer none, .dispatchFrame]

/-- The caller gives the stream back while the read loop has a frame for everybody. -/
def fetchGivenBack : List Action :=
  [.closeStream 0, .drainStream 0, .scanBuffer none, .dispatchFrame, .drainStream 0,
    .drainStream 0]

theorem framesSafe_of_reachable_fetch :
    ∃ s t, Reachable 1024 s ∧ s.parsed.length = 5 ∧
      (s.streams 0).yielded.map (·.frame.1) = [ascii "* 1 FETCH (UID 7)\r\n"] ∧
      (s.streams 0).queue.map (·.frame.1)
        = [ascii "* 2 FETCH (UID 8)\r\n", ascii "* 3 FETCH (UID 9)\r\n"] ∧
      s.broadcast.map (·.frame.1) = [ascii "* 4 EXISTS\r\n"] ∧
      s.replied.map (·.frame.1) = [ascii "A0001 OK done\r\n"] ∧ FramesSafe 1024 s ∧
      runMeeting (step 1024) (fun _ _ => True) (intoReply 0 2) s = some t ∧
      t.broadcast.map (·.frame.1)
        = [ascii "* 4 EXISTS\r\n", ascii "* 2 FETCH (UID 8)\r\n", ascii "* 3 FETCH (UID 9)\r\n"] ∧
      FramesSafe 1024 t := by
  have hrun : (runMeeting (step 1024) (fun _ _ => True) fetchExchange new).any (fun s =>
      decide (s.parsed.length = 5 ∧
        (s.streams 0).yielded.map (·.frame.1) = [ascii "* 1 FETCH (UID 7)\r\n"] ∧
        (s.streams 0).queue.map (·.frame.1)
          = [ascii "* 2 FETCH (UID 8)\r\n", ascii "* 3 FETCH (UID 9)\r\n"] ∧
        s.broadcast.map (·.frame.1) = [ascii "* 4 EXISTS\r\n"] ∧
        s.replied.map (·.frame.1) = [ascii "A0001 OK done\r\n"] ∧
        (s.streams 0).receiver = .open)) = true := by
    decide +kernel
  obtain ⟨s, hs, hparsed, hyielded, hqueue, hbroadcast, hreplied, hopen⟩ := exists_reaches hrun
  have hsafe := framesSafe_of_reachable 1024 hs
  have hlength : (s.streams 0).queue.length = 2 := by
    rw [← List.length_map (f := (·.frame.1)), hqueue]
    rfl
  have hreply := hsafe.intoReply 0 hopen
  rw [hlength] at hreply
  refine ⟨s, _, hs, hparsed, hyielded, hqueue, hbroadcast, hreplied, hsafe, hreply, ?_,
    framesSafe_of_reachable 1024 (reaches_of_runMeeting hs hreply)⟩
  rw [List.map_append, hbroadcast, hqueue]
  rfl

-- the frame for everybody is broadcast between the two that were buffered
example : (runMeeting (step 1024) (fun _ _ => True) (fetchExchange ++ fetchGivenBack) new).any
    (fun s => decide (s.broadcast.map (·.frame.1) = [ascii "* 4 EXISTS\r\n",
      ascii "* 2 FETCH (UID 8)\r\n", ascii "* 5 EXISTS\r\n",
      ascii "* 3 FETCH (UID 9)\r\n"])) = true := by
  decide +kernel

end Dispatcher

end ImapRs
