import ImapRs.Client.Conservation
import ImapRs.Client.Routing

/-!
# Whose data an untagged frame is

An untagged frame names no command. The read loop gives it to the oldest collector that is still
listening and wants it. With a server that answers in order, the command being answered is the
oldest one registered, so its own collector comes first; but a collector whose stream is gone is
passed over, and the frame goes to the next one that wants it, which belongs to another command.

## Main definitions

* `current` — the command a server that answers in order is answering
* `ServesInOrder`, `Undisturbed` — the two conditions on a step
* `OwnStreams` — untagged frames are with their own command, or broadcast

## Main results

* `ownStreams_of_undisturbed` — runs that meet the conditions attribute every frame correctly
* `search_result_given_to_later_search` — a run that serves in order and does not
-/

namespace ImapRs

open Incremental Transition

/-- The tag of a tagged status response. -/
def Response.tag? : Response → Option Bytes
  | .status ⟨some tag, _, _, _⟩ => some tag.bytes
  | _ => none

namespace Dispatcher

/-! ### A server that answers in order -/

/-- Whether the tagged completion of `i` has been parsed. -/
def answered (s : Dispatcher) (i : CommandId) : Bool :=
  s.parsed.any fun p => p.frame.2.tag? == some (tagOf i)

/-- The oldest command that is out in full and not completed. -/
def current (s : Dispatcher) : Option CommandId := s.received.find? fun i => !s.answered i

/-- The frame the next look at the buffer finds. -/
def upcoming (maxFrameSize : ℕ) (s : Dispatcher) : Option Frame :=
  match s.reader with
  | .scanning buffer =>
    match scan maxFrameSize buffer with
    | .frame f _ => some f
    | _ => none
  | _ => none

/-- The command that the frame looked for is sent for, when the action looks for one. -/
def Action.scans : Action → Option (Option CommandId)
  | .scanBuffer owner => some owner
  | _ => none

/-- The server completes commands in the order received, and sends untagged data only for the
command it is answering, or for none. -/
def ServesInOrder (maxFrameSize : ℕ) (a : Action) (s : Dispatcher) : Prop :=
  ∀ owner ∈ a.scans, ∀ f ∈ s.upcoming maxFrameSize,
    (∀ tag ∈ f.2.tag?, s.current.map tagOf = some tag) ∧
      (f.2.tag? = none → owner = none ∨ owner = s.current)

/-- Whether a collector is still listening and wants the response. -/
def listens (s : Dispatcher) (response : Response) (c : Collector) : Bool :=
  !s.isClosed c.tx && c.wants response

/-- When data of a command arrives, its own stream is listening for it, or no stream is. -/
def Undisturbed (maxFrameSize : ℕ) (a : Action) (s : Dispatcher) : Prop :=
  ∀ owner ∈ a.scans, ∀ i ∈ owner, ∀ f ∈ s.upcoming maxFrameSize, f.2.tag? = none →
    (∃ c ∈ s.pending.collectors, c.tx = i ∧ s.listens f.2 c = true) ∨
      ∀ c ∈ s.pending.collectors, s.listens f.2 c = false

instance (maxFrameSize : ℕ) (a : Action) (s : Dispatcher) :
    Decidable (ServesInOrder maxFrameSize a s) :=
  inferInstanceAs (Decidable (∀ owner ∈ a.scans, ∀ f ∈ s.upcoming maxFrameSize,
    (∀ tag ∈ f.2.tag?, s.current.map tagOf = some tag) ∧
      (f.2.tag? = none → owner = none ∨ owner = s.current)))

instance (maxFrameSize : ℕ) (a : Action) (s : Dispatcher) :
    Decidable (Undisturbed maxFrameSize a s) :=
  inferInstanceAs (Decidable (∀ owner ∈ a.scans, ∀ i ∈ owner, ∀ f ∈ s.upcoming maxFrameSize,
    f.2.tag? = none → (∃ c ∈ s.pending.collectors, c.tx = i ∧ s.listens f.2 c = true) ∨
      ∀ c ∈ s.pending.collectors, s.listens f.2 c = false))

variable {maxFrameSize : ℕ} {a : Action} {s s' : Dispatcher}

/-! ### What happens to a channel -/

/-- What a step does to the channel of a command. -/
structure Evolves (s s' : Dispatcher) (j : CommandId) : Prop where
  filter : (s'.streams j).filter = (s.streams j).filter
  closed : (s.streams j).receiver ≠ .open → (s'.streams j).receiver ≠ .open
  frames : ∀ p ∈ (s'.streams j).frames, p ∈ (s.streams j).frames ∨
    ∃ buffer, s.reader = .dispatching (.stream j) p buffer

theorem Evolves.of_eq {j : CommandId} (h : s'.streams j = s.streams j) : Evolves s s' j :=
  ⟨by rw [h], by rw [h]; exact id, by rw [h]; exact fun p hp => .inl hp⟩

/-- A step that replaces the channel of `i`. -/
theorem Evolves.of_update {i : CommandId} (hothers : ∀ j, j ≠ i → s'.streams j = s.streams j)
    (hi : Evolves s s' i) (j : CommandId) : Evolves s s' j := by
  by_cases hj : j = i
  · rw [hj]
    exact hi
  · exact .of_eq (hothers j hj)

/-- **Channels only close.** A channel that exists keeps its filter, is not opened again, and takes
frames only from the read loop. -/
theorem Moves.evolves (hm : Moves maxFrameSize s a s') {j : CommandId} (hj : j < s.issued) :
    Evolves s s' j := by
  cases hm with
  | @enqueue cmd collector _ =>
    cases collector with
    | none => exact .of_eq rfl
    | some wants => exact .of_eq (Function.update_of_ne (Nat.ne_of_lt hj) _ _)
  | yield _ hq =>
    refine .of_update (fun k hk => Function.update_of_ne hk _ _) ?_ j
    refine ⟨by simp [setStream], by simp [setStream], fun p hp => .inl ?_⟩
    simpa [setStream, Stream.frames, hq] using hp
  | close =>
    refine .of_update (fun k hk => Function.update_of_ne hk _ _) ?_ j
    exact ⟨by simp [setStream], by simp [setStream],
      fun p hp => .inl (by simpa [setStream, Stream.frames] using hp)⟩
  | drain _ hq =>
    refine .of_update (fun k hk => Function.update_of_ne hk _ _) ?_ j
    refine ⟨by simp [setStream], by simp [setStream], fun p hp => .inl ?_⟩
    simp only [setStream, Function.update_self, Stream.frames, List.mem_append] at hp
    simp only [Stream.frames, hq, List.mem_append, List.mem_cons]
    tauto
  | drained =>
    refine .of_update (fun k hk => Function.update_of_ne hk _ _) ?_ j
    exact ⟨by simp [setStream], by simp [setStream],
      fun p hp => .inl (by simpa [setStream, Stream.frames] using hp)⟩
  | dropStream =>
    refine .of_update (fun k hk => Function.update_of_ne hk _ _) ?_ j
    refine ⟨by simp [setStream], by simp [setStream], fun p hp => .inl ?_⟩
    simp only [setStream, Function.update_self, Stream.frames, List.mem_append,
      List.not_mem_nil, or_false] at hp
    simp only [Stream.frames, List.mem_append]
    tauto
  | @scanFrame _ owner frame rest _ _ =>
    have hmark := markRouted_apply s (s.routeFor frame.2) ⟨frame, s.parsed.length, owner⟩ rest j
    exact ⟨by simp only [hmark], by simp only [hmark]; exact id,
      fun p hp => .inl (by simpa only [hmark, Stream.frames] using hp)⟩
  | push hr =>
    refine .of_update (fun k hk => Function.update_of_ne hk _ _) ?_ j
    refine ⟨by simp [setStream], by simp [setStream], fun p hp => ?_⟩
    simp only [setStream, Function.update_self, Stream.frames, List.mem_append,
      List.mem_singleton] at hp
    simp only [Stream.frames, List.mem_append]
    rcases hp with (hp | hp | rfl) | hp
    · exact .inl (.inl (.inl hp))
    · exact .inl (.inl (.inr hp))
    · exact .inr ⟨_, hr⟩
    · exact .inl (.inr hp)
  | _ => exact .of_eq rfl

/-! ### Filters -/

/-- A pending command with a stream has its collector in the table. -/
structure FiltersKept (s : Dispatcher) : Prop where
  queued : ∀ bytes tag i collector, WriteRequest.command bytes tag i collector ∈ s.queue →
    (s.streams i).filter = collector
  registering : ∀ bytes tag i collector, s.writer = .registering bytes tag i collector →
    (s.streams i).filter = collector
  pending : ∀ r ∈ s.pending.replies, ∀ wants, (s.streams r.2).filter = some wants →
    ∃ c ∈ s.pending.collectors, c.tx = r.2 ∧ c.wants = wants

theorem filtersKept_new : FiltersKept new where
  queued := by simp [new]
  registering := by simp [new]
  pending := by simp [new]

/-- A step that keeps the filters of the commands it knows of. -/
theorem FiltersKept.streams (h : FiltersKept s) (hl : InLine s) (hreg : ∀ r ∈ s.pending.replies,
      r.2 ∈ s.registered) {streams : CommandId → Stream}
    (hs : ∀ i, i < s.issued → (streams i).filter = (s.streams i).filter) :
    FiltersKept { s with streams } where
  queued bytes tag i collector hmem := by
    rw [← h.queued bytes tag i collector hmem]
    refine hs i (hl.bound i (List.mem_append_right _ (List.mem_append_right _ ?_)))
    exact List.mem_filterMap.mpr ⟨_, hmem, rfl⟩
  registering bytes tag i collector hw := by
    rw [← h.registering bytes tag i collector hw]
    refine hs i (hl.bound i (List.mem_append_right _ ?_))
    have hw : s.writer = .registering bytes tag i collector := hw
    simp [waiting, hw, Writer.next]
  pending r hr wants hfilter := by
    refine h.pending r hr wants ?_
    rw [← hs r.2 (hl.lt_issued (hreg r hr))]
    exact hfilter

theorem filtersKept_register (h : FiltersKept s) {bytes tag : Bytes}
    {i : CommandId} {collector : Option FrameFilter} {registered : List CommandId}
    (hw : s.writer = .registering bytes tag i collector) :
    FiltersKept { s with
      pending := s.pending.register tag i collector
      registered
      writer := .writing (some i) bytes } := by
  refine { h with registering := by simp, pending := fun r hmem wants hfilter => ?_ }
  rcases List.mem_append.mp hmem with hmem | hmem
  · obtain ⟨c, hc, hspec⟩ := h.pending r (List.mem_of_mem_filter hmem) wants hfilter
    exact ⟨c, List.mem_append_left _ hc, hspec⟩
  · obtain rfl := List.mem_singleton.mp hmem
    obtain rfl : collector = some wants :=
      (h.registering bytes tag i collector hw).symm.trans hfilter
    exact ⟨⟨tag, wants, i⟩, List.mem_append_right _ (by simp), rfl, rfl⟩

theorem filtersKept_complete (h : FiltersKept s) (hr : RepliesRouted s) (tag : Bytes)
    {broadcast : List Parsed} {resolved : List Resolution} {reader : Reader} :
    FiltersKept { s with
      pending := (s.pending.complete tag).2
      broadcast
      resolved
      reader } := by
  refine { h with pending := fun r hmem wants hfilter => ?_ }
  obtain ⟨hmem, hne⟩ := List.mem_filter.mp hmem
  obtain ⟨c, hc, htx, hwants⟩ := h.pending r hmem wants hfilter
  refine ⟨c, List.mem_filter.mpr ⟨hc, ?_⟩, htx, hwants⟩
  have htag : c.tag = r.1 := by
    rw [hr.reply_tag r hmem, ← htx]
    exact hr.reply_tag _ (hr.collectors_reply c hc)
  rw [htag]
  exact hne

theorem Moves.filtersKept (hm : Moves maxFrameSize s a s') (hr : RepliesRouted s)
    (hc : Conserved s) (h : FiltersKept s) : FiltersKept s' := by
  have hevolves : ∀ i, i < s.issued → (s'.streams i).filter = (s.streams i).filter :=
    fun i hi => (hm.evolves hi).filter
  have hkeep := h.streams hr.line (fun r => hr.mem_registered) hevolves
  cases hm with
  | @enqueue cmd collector _ =>
    refine { hkeep with queued := fun bytes tag i col hmem => ?_ }
    rcases List.mem_append.mp hmem with hmem | hmem
    · exact hkeep.queued bytes tag i col hmem
    · cases List.mem_singleton.mp hmem
      cases collector with
      | some wants => simp
      | none => simp [hc.unborn s.issued (Nat.le_refl _), Stream.none]
  | raw =>
    refine { h with queued := fun bytes tag i col hmem => h.queued bytes tag i col ?_ }
    simpa using hmem
  | recvCommand hw hq =>
    refine { h with
      queued := fun bytes tag i col hmem => h.queued bytes tag i col (by simp [hq, hmem])
      registering := fun bytes tag i col heq => ?_ }
    cases heq
    exact h.queued _ _ _ _ (by rw [hq]; exact List.mem_cons_self)
  | recvRaw hw hq =>
    exact { h with
      queued := fun bytes tag i col hmem => h.queued bytes tag i col (by simp [hq, hmem])
      registering := by simp }
  | recvNone => exact { h with registering := by simp }
  | register hw => exact filtersKept_register h hw
  | wrote => exact { h with registering := by simp }
  | written => exact { h with registering := by simp }
  | writeFailed => exact { h with queued := by simp, registering := by simp }
  | resolve => exact filtersKept_complete h hr _
  | unclaimed => exact filtersKept_complete h hr _
  | failAll => exact { h with pending := by simp }
  | _ => exact { hkeep with }

/-! ### Turns -/

/-- What the read loop has seen of the server's turns. -/
structure InTurn (s : Dispatcher) : Prop where
  /-- Completions are for commands the server has received. -/
  tags : ∀ p ∈ s.parsed, ∀ tag, p.frame.2.tag? = some tag → ∃ i ∈ s.received, tag = tagOf i
  /-- A pending command is not completed, unless its completion is being dispatched. -/
  pending : ∀ r ∈ s.pending.replies, ∀ p ∈ s.parsed, p.frame.2.tag? = some r.1 →
    p ∈ Reader.hand s.reader
  /-- Untagged frames have an untagged route. -/
  untagged : ∀ route p buffer, s.reader = .dispatching route p buffer →
    (∀ tag status text, route ≠ .tagged tag status text) → p.frame.2.tag? = none

theorem inTurn_new : InTurn new where
  tags := by simp [new]
  pending := by simp [new]
  untagged := by simp [new]

/-- A route that is not tagged is that of an untagged response. -/
theorem tag?_of_routeFor {response : Response}
    (h : ∀ tag status text, s.routeFor response ≠ .tagged tag status text) :
    response.tag? = none := by
  unfold Response.tag?
  split
  next tag status code text => exact absurd rfl (h tag status text)
  · rfl

/-- A step of the read loop that keeps its hands empty. -/
theorem InTurn.setReader (h : InTurn s) {reader : Reader} (hhand : Reader.hand s.reader = [])
    (hd : ∀ route p buffer, reader ≠ .dispatching route p buffer) :
    InTurn { s with reader } :=
  { h with
    pending := fun r hr p hp htag => by
      have := h.pending r hr p hp htag
      rw [hhand] at this
      cases this
    untagged := fun _ _ _ heq => absurd heq (hd _ _ _) }

/-- The read loop lets go of an untagged frame. -/
theorem InTurn.deliver (h : InTurn s) {route : Route} {p : Parsed} {buffer : Bytes}
    (hr : s.reader = .dispatching route p buffer)
    (hroute : ∀ tag status text, route ≠ .tagged tag status text) :
    InTurn { s with reader := .scanning buffer } :=
  { h with
    pending := fun r hmem q hq htag => by
      have hhand := h.pending r hmem q hq htag
      rw [hr] at hhand
      rw [List.mem_singleton.mp hhand, h.untagged _ _ _ hr hroute] at htag
      cases htag
    untagged := by simp }

/-- The read loop completes a tag: nobody with that tag is left. -/
theorem InTurn.complete (h : InTurn s) (hrr : RepliesRouted s) {tag text : Str} {status : Status}
    {p : Parsed} {buffer : Bytes}
    (hr : s.reader = .dispatching (.tagged tag status text) p buffer) :
    InTurn { s with pending := (s.pending.complete tag.bytes).2, reader := .scanning buffer } := by
  refine { h with pending := fun r hmem q hq htag => ?_, untagged := by simp }
  obtain ⟨hmem, hne⟩ := List.mem_filter.mp hmem
  have hhand := h.pending r hmem q hq htag
  rw [hr] at hhand
  obtain ⟨_, code, hresp⟩ := hrr.dispatching _ _ _ _ _ hr
  rw [List.mem_singleton.mp hhand, hresp] at htag
  exact absurd (Option.some.inj htag).symm (by simpa using hne)

/-- A command that is registered now was not answered before. -/
theorem inTurn_register (h : InTurn s) (hrr : RepliesRouted s) (hlt : s.issued < 2 ^ 64)
    {bytes tag : Bytes} {i : CommandId} {collector : Option FrameFilter}
    {registered : List CommandId} (hw : s.writer = .registering bytes tag i collector) :
    InTurn { s with
      pending := s.pending.register tag i collector
      registered
      writer := .writing (some i) bytes } := by
  refine { h with pending := fun r hmem p hp htag => ?_ }
  rcases List.mem_append.mp hmem with hmem | hmem
  · exact h.pending r (List.mem_of_mem_filter hmem) p hp htag
  · obtain rfl := List.mem_singleton.mp hmem
    obtain ⟨j, hj, hij⟩ := h.tags p hp _ htag
    have hreg : j ∈ s.registered := hrr.line.received.subset hj
    have hwait : i ∈ s.waiting := by simp [waiting, hw, Writer.next]
    have hold : j < i := (List.pairwise_append.mp hrr.line.order).2.2 j hreg i hwait
    have hi : i < s.issued := hrr.line.bound i (List.mem_append_right _ hwait)
    have htags : tagOf i = tagOf j := (hrr.writer_tag _ _ _ _ hw).symm.trans hij
    exact absurd (tagOf_inj (Nat.lt_trans hi hlt) (Nat.lt_trans (Nat.lt_trans hold hi) hlt) htags)
      (Nat.ne_of_gt hold)

theorem upcoming_eq {buffer rest : Bytes} {f : Frame} (hr : s.reader = .scanning buffer)
    (hs : scan maxFrameSize buffer = .frame f rest) : s.upcoming maxFrameSize = some f := by
  unfold upcoming
  simp only [hr, hs]

theorem current_mem {i : CommandId} (h : s.current = some i) :
    i ∈ s.received ∧ s.answered i = false := by
  have hnot := List.find?_some h
  exact ⟨List.mem_of_find?_eq_some h, by simpa using hnot⟩

theorem inTurn_scanFrame (h : InTurn s) {owner : Option CommandId} {buffer rest : Bytes}
    {frame : Frame} {streams : CommandId → Stream} (hr : s.reader = .scanning buffer)
    (hs : scan maxFrameSize buffer = .frame frame rest)
    (hC : ServesInOrder maxFrameSize (.scanBuffer owner) s) :
    InTurn { s with
      reader := .dispatching (s.routeFor frame.2) ⟨frame, s.parsed.length, owner⟩ rest
      parsed := s.parsed ++ [⟨frame, s.parsed.length, owner⟩]
      streams } := by
  obtain ⟨htagged, _⟩ := hC owner rfl frame (upcoming_eq hr hs)
  refine { tags := ?_, pending := ?_, untagged := ?_ }
  · intro p hp tag htag
    rcases List.mem_append.mp hp with hp | hp
    · exact h.tags p hp tag htag
    · rw [List.mem_singleton.mp hp] at htag
      obtain ⟨i, hi, rfl⟩ := Option.map_eq_some_iff.mp (htagged tag htag)
      exact ⟨i, (current_mem hi).1, rfl⟩
  · intro r hmem p hp htag
    rcases List.mem_append.mp hp with hp | hp
    · have := h.pending r hmem p hp htag
      rw [hr] at this
      cases this
    · exact hp
  · intro route p b heq hroute
    obtain ⟨rfl, rfl, rfl⟩ := Reader.dispatching.inj heq
    exact tag?_of_routeFor hroute

/-- Every step of an ordered server's client keeps the turns. -/
theorem Moves.inTurn (hm : Moves maxFrameSize s a s') (hC : ServesInOrder maxFrameSize a s)
    (hlt : s.issued < 2 ^ 64) (hrr : RepliesRouted s) (h : InTurn s) : InTurn s' := by
  cases hm with
  | register hw => exact inTurn_register h hrr hlt hw
  | written =>
    exact { h with
      tags := fun p hp tag htag => by
        obtain ⟨i, hi, htag⟩ := h.tags p hp tag htag
        exact ⟨i, List.mem_append_left _ hi, htag⟩ }
  | readEnd hr => exact h.setReader (by rw [hr]; rfl) (by simp)
  | readMore hr => exact h.setReader (by rw [hr]; rfl) (by simp)
  | scanFrame hr hs => exact inTurn_scanFrame h hr hs hC
  | scanWait hr => exact h.setReader (by rw [hr]; rfl) (by simp)
  | scanStop hr => exact h.setReader (by rw [hr]; rfl) (by simp)
  | resolve hr => exact { h.complete hrr hr with }
  | unclaimed hr => exact { h.complete hrr hr with }
  | push hr => exact { h.deliver hr (by simp) with }
  | unsent hr => exact { h.deliver hr (by simp) with }
  | publish hr => exact { h.deliver hr (by simp) with }
  | failAll => exact { h with pending := by simp, untagged := by simp }
  | _ => exact { h with }

/-! ### The command being answered -/

/-- The command being answered is the oldest one pending. -/
theorem current_le (hrr : RepliesRouted s) (ht : InTurn s) (hhand : Reader.hand s.reader = [])
    {i : CommandId} (hi : s.current = some i) {r : Bytes × CommandId}
    (hr : r ∈ s.pending.replies) : i ≤ r.2 := by
  obtain ⟨-, before, after, hreceived, hbefore⟩ := List.find?_eq_some_iff_append.mp hi
  obtain ⟨later, hlater⟩ := hrr.line.received
  have hsplit : s.registered = before ++ i :: (after ++ later) := by
    rw [← hlater, hreceived, List.append_assoc, List.cons_append]
  have hsorted := hrr.line.registered_lt
  have hmem := hrr.mem_registered hr
  rw [hsplit] at hsorted hmem
  rcases List.mem_append.mp hmem with hmem | hmem
  · -- whatever came before it has been answered, and what is pending has not
    have hanswered := hbefore r.2 hmem
    simp only [answered, Bool.not_not, List.any_eq_true, beq_iff_eq] at hanswered
    obtain ⟨p, hp, htag⟩ := hanswered
    have := ht.pending r hr p hp (by rw [htag, hrr.reply_tag r hr])
    rw [hhand] at this
    cases this
  · rcases List.mem_cons.mp hmem with heq | hmem
    · exact Nat.le_of_eq heq.symm
    · exact Nat.le_of_lt
        ((List.pairwise_cons.mp (List.pairwise_append.mp hsorted).2.1).1 r.2 hmem)

/-- The command being answered is pending. -/
theorem current_pending (hrr : RepliesRouted s) (hstop : s.reader ≠ .stopped) {i : CommandId}
    (hi : s.current = some i) : (tagOf i, i) ∈ s.pending.replies := by
  obtain ⟨hreceived, hopen⟩ := current_mem hi
  have hmem := hrr.settled.mem_iff.mpr (hrr.line.received.subset hreceived)
  rcases List.mem_append.mp hmem with hmem | hmem
  · obtain ⟨r, hr, rfl⟩ := List.mem_map.mp hmem
    rw [← hrr.reply_tag r hr]
    exact hr
  · obtain ⟨r, hr, rfl⟩ := List.mem_map.mp hmem
    have hj := hrr.justified r hr
    unfold Justified at hj
    split at hj
    next p hcause =>
      obtain ⟨hp, tag, status, code, text, hframe, htag, -⟩ := hj
      have : s.answered r.command = true :=
        List.any_eq_true.mpr ⟨p, hp, by simp [hframe, Response.tag?, htag]⟩
      rw [this] at hopen
      cases hopen
    next => exact absurd hj.1 hstop

/-- The command has no stream that is open and wants the response. -/
def NotWanted (s : Dispatcher) (i : CommandId) (response : Response) : Prop :=
  i < s.issued ∧ ((s.streams i).receiver = .open →
    ∀ wants ∈ (s.streams i).filter, wants response = false)

/-- A stream that is not there stays away. -/
theorem Moves.notWanted (hm : Moves maxFrameSize s a s') {i : CommandId} {response : Response}
    (h : NotWanted s i response) : NotWanted s' i response := by
  obtain ⟨hlt, hno⟩ := h
  have he := hm.evolves hlt
  refine ⟨Nat.lt_of_lt_of_le hlt hm.issued_le, fun hopen wants hw => hno ?_ wants ?_⟩
  · by_contra hclosed
    exact he.closed hclosed hopen
  · rw [← he.filter]
    exact hw

/-! ### Where frames go -/

/-- The route of an untagged response, by the collectors that listen. -/
theorem routeFor_untagged {response : Response} (h : response.tag? = none) :
    s.routeFor response = match s.pending.collectors.find? (s.listens response) with
      | some c => .stream c.tx
      | none => .broadcast := by
  unfold routeFor
  split
  · simp [Response.tag?] at h
  · unfold Pending.collectorFor listens
    cases s.pending.collectors.find? fun c => !s.isClosed c.tx && c.wants response <;> rfl

/-- **The first collector that listens is the command's own.** -/
theorem own_collector (hrr : RepliesRouted s) (ht : InTurn s) (hhand : Reader.hand s.reader = [])
    {i : CommandId} (hi : s.current = some i) {response : Response} {c : Collector}
    (hc : s.pending.collectors.find? (s.listens response) = some c)
    (hown : (∃ c ∈ s.pending.collectors, c.tx = i ∧ s.listens response c = true) ∨
      ∀ c ∈ s.pending.collectors, s.listens response c = false) : c.tx = i := by
  obtain ⟨hlistens, before, after, hsplit, hbefore⟩ := List.find?_eq_some_iff_append.mp hc
  have hmem := List.mem_of_find?_eq_some hc
  have hge : i ≤ c.tx := current_le hrr ht hhand hi (hrr.collectors_reply c hmem)
  rcases hown with ⟨c', hc', rfl, hlistens'⟩ | hnone
  · have hsorted := hrr.line.registered_lt.sublist hrr.collectors_order
    rw [hsplit] at hc' hsorted
    rw [List.map_append, List.map_cons] at hsorted
    rcases List.mem_append.mp hc' with hc' | hc'
    · have := hbefore c' hc'
      simp [hlistens'] at this
    · rcases List.mem_cons.mp hc' with rfl | hc'
      · rfl
      · have hlt := (List.pairwise_cons.mp (List.pairwise_append.mp hsorted).2.1).1 c'.tx
          (List.mem_map_of_mem hc')
        exact absurd hge (Nat.not_le_of_gt hlt)
  · rw [hnone c hmem] at hlistens
    cases hlistens

/-- If no collector listens, the command being answered does not want the response. -/
theorem notWanted_of_find?_eq_none (hrr : RepliesRouted s) (hf : FiltersKept s)
    (hstop : s.reader ≠ .stopped) {i : CommandId} (hi : s.current = some i) {response : Response}
    (hc : s.pending.collectors.find? (s.listens response) = none) : NotWanted s i response := by
  have hpending := current_pending hrr hstop hi
  refine ⟨hrr.line.lt_issued (hrr.mem_registered hpending), fun hopen wants hw => ?_⟩
  obtain ⟨c, hcol, htx, rfl⟩ := hf.pending _ hpending wants hw
  have hno := List.find?_eq_none.mp hc c hcol
  simpa [listens, isClosed, htx, hopen] using hno

/-- Frames sent for a command are in its own stream, or were not wanted there. -/
structure Attributed (s : Dispatcher) : Prop where
  streams : ∀ j, ∀ p ∈ (s.streams j).frames, ∀ i, p.owner = some i → j = i
  hand_stream : ∀ tx p buffer, s.reader = .dispatching (.stream tx) p buffer →
    ∀ i, p.owner = some i → tx = i
  hand_broadcast : ∀ p buffer, s.reader = .dispatching .broadcast p buffer →
    ∀ i, p.owner = some i → NotWanted s i p.frame.2
  broadcast : ∀ p ∈ s.broadcast, p.frame.2.tag? = none →
    ∀ i, p.owner = some i → NotWanted s i p.frame.2

theorem attributed_new : Attributed new where
  streams := by simp [new, Stream.none, Stream.frames]
  hand_stream := by simp [new]
  hand_broadcast := by simp [new]
  broadcast := by simp [new]

/-- Frames enter a channel from the hands of the read loop only. -/
theorem Moves.frames_cases (hm : Moves maxFrameSize s a s') (hc : Conserved s) {j : CommandId}
    {p : Parsed} (hp : p ∈ (s'.streams j).frames) : p ∈ (s.streams j).frames ∨
      ∃ buffer, s.reader = .dispatching (.stream j) p buffer := by
  by_cases hj : j < s.issued
  · exact (hm.evolves hj).frames p hp
  · by_cases hj' : s'.issued ≤ j
    · rw [(hm.conserved hc).unborn j hj'] at hp
      simp [Stream.none, Stream.frames] at hp
    · cases hm with
      | @enqueue cmd collector _ =>
        obtain rfl : j = s.issued :=
          Nat.le_antisymm (Nat.le_of_lt_succ (Nat.lt_of_not_le hj')) (Nat.le_of_not_lt hj)
        cases collector with
        | none => exact .inl hp
        | some wants => simp [Stream.frames] at hp
      | lost => exact .inl hp
      | _ => exact absurd (Nat.le_of_not_lt hj) hj'

/-- A step after which the read loop holds nothing and the broadcast has at most one frame more. -/
theorem Attributed.deliver (h : Attributed s) (hm : Moves maxFrameSize s a s')
    (hstreams : ∀ j, ∀ p ∈ (s'.streams j).frames, ∀ i, p.owner = some i → j = i)
    (hd : ∀ route p buffer, s'.reader ≠ .dispatching route p buffer)
    (hb : ∀ p ∈ s'.broadcast, p ∈ s.broadcast ∨
      (p.frame.2.tag? = none → ∀ i, p.owner = some i → NotWanted s' i p.frame.2)) :
    Attributed s' where
  streams := hstreams
  hand_stream _ _ _ heq := absurd heq (hd _ _ _)
  hand_broadcast _ _ heq := absurd heq (hd _ _ _)
  broadcast p hp htag i hi := by
    rcases hb p hp with hp | hnew
    · exact hm.notWanted (h.broadcast p hp htag i hi)
    · exact hnew htag i hi

/-- The read loop chooses a route for a frame. -/
theorem attributed_scanFrame (h : Attributed s) (hrr : RepliesRouted s) (hf : FiltersKept s)
    (ht : InTurn s) {owner : Option CommandId} {buffer rest : Bytes} {frame : Frame}
    (hm : Moves maxFrameSize s a s')
    (hs' : s'.reader = .dispatching (s.routeFor frame.2) ⟨frame, s.parsed.length, owner⟩ rest)
    (hb : s'.broadcast = s.broadcast)
    (hstreams : ∀ j, ∀ p ∈ (s'.streams j).frames, ∀ i, p.owner = some i → j = i)
    (hr : s.reader = .scanning buffer) (hs : scan maxFrameSize buffer = .frame frame rest)
    (hC : ServesInOrder maxFrameSize (.scanBuffer owner) s)
    (hU : Undisturbed maxFrameSize (.scanBuffer owner) s) : Attributed s' := by
  have hhand : Reader.hand s.reader = [] := by rw [hr]; rfl
  have hup := upcoming_eq hr hs
  have hcurrent : ∀ i, frame.2.tag? = none → owner = some i → s.current = some i := by
    intro i htag hi
    rcases (hC owner rfl frame hup).2 htag with hnone | hcur
    · rw [hi] at hnone
      cases hnone
    · rw [← hcur, hi]
  refine { streams := hstreams, hand_stream := ?_, hand_broadcast := ?_, broadcast := ?_ }
  · intro tx p b heq i hi
    rw [hs'] at heq
    obtain ⟨hroute, rfl, -⟩ := Reader.dispatching.inj heq
    have htag : frame.2.tag? = none := tag?_of_routeFor (s := s) (by simp [hroute])
    rw [routeFor_untagged htag] at hroute
    split at hroute
    next c hc =>
      cases hroute
      exact own_collector hrr ht hhand (hcurrent i htag hi) hc (hU owner rfl i hi frame hup htag)
    · cases hroute
  · intro p b heq i hi
    rw [hs'] at heq
    obtain ⟨hroute, rfl, -⟩ := Reader.dispatching.inj heq
    have htag : frame.2.tag? = none := tag?_of_routeFor (s := s) (by simp [hroute])
    rw [routeFor_untagged htag] at hroute
    split at hroute
    · cases hroute
    next hc =>
      exact hm.notWanted
        (notWanted_of_find?_eq_none hrr hf (by simp [hr]) (hcurrent i htag hi) hc)
  · rw [hb]
    exact fun p hp htag i hi => hm.notWanted (h.broadcast p hp htag i hi)

/-- **Every step attributes frames to their own command**, when the server answers in order and the
step is undisturbed. -/
theorem Moves.attributed (hm : Moves maxFrameSize s a s') (hC : ServesInOrder maxFrameSize a s)
    (hU : Undisturbed maxFrameSize a s) (hrr : RepliesRouted s) (hc : Conserved s)
    (hf : FiltersKept s) (ht : InTurn s) (h : Attributed s) : Attributed s' := by
  have hstreams : ∀ j, ∀ p ∈ (s'.streams j).frames, ∀ i, p.owner = some i → j = i := by
    intro j p hp i hi
    rcases hm.frames_cases hc hp with hp | ⟨buffer, hr⟩
    · exact h.streams j p hp i hi
    · exact h.hand_stream j p buffer hr i hi
  have hkeep := hm
  cases hm with
  | scanFrame hr hs => exact attributed_scanFrame h hrr hf ht hkeep rfl rfl hstreams hr hs hC hU
  | @drain i f rest hclosed hq =>
    refine {
      streams := hstreams
      hand_stream := h.hand_stream
      hand_broadcast := fun p b hr k hk => hkeep.notWanted (h.hand_broadcast p b hr k hk)
      broadcast := fun p hp htag k hk => hkeep.notWanted ?_ }
    rcases List.mem_append.mp hp with hp | hp
    · exact h.broadcast p hp htag k hk
    · obtain rfl := List.mem_singleton.mp hp
      obtain rfl := h.streams i p (by simp [Stream.frames, hq]) k hk
      exact ⟨hc.lt_issued (by simp [hclosed]), fun hopen => by simp [hclosed] at hopen⟩
  | unclaimed hr =>
    refine h.deliver hkeep hstreams (by simp) fun p hp => ?_
    refine (List.mem_append.mp hp).imp_right fun hp htag => ?_
    obtain ⟨-, code, hframe⟩ := hrr.dispatching _ _ _ _ _ hr
    simp [List.mem_singleton.mp hp, hframe, Response.tag?] at htag
  | @unsent tx _ _ hr hclosed =>
    refine h.deliver hkeep hstreams (by simp) fun p hp => ?_
    refine (List.mem_append.mp hp).imp_right fun hp htag i hi => hkeep.notWanted ?_
    obtain rfl := List.mem_singleton.mp hp
    obtain rfl := h.hand_stream _ _ _ hr i hi
    refine ⟨?_, fun hopen => absurd hopen hclosed⟩
    by_contra hlt
    have := hc.unborn_hand tx (Nat.le_of_not_lt hlt)
    simp [hr, Reader.handFor] at this
  | publish hr =>
    refine h.deliver hkeep hstreams (by simp) fun p hp => ?_
    refine (List.mem_append.mp hp).imp_right fun hp htag i hi => hkeep.notWanted ?_
    rw [List.mem_singleton.mp hp] at hi ⊢
    exact h.hand_broadcast _ _ hr i hi
  | readEnd | readMore | scanWait | scanStop | resolve | push | failAll =>
    exact h.deliver hkeep hstreams (by simp) fun p hp => .inl hp
  | _ =>
    exact {
      streams := hstreams
      hand_stream := h.hand_stream
      hand_broadcast := fun p b hr i hi => hkeep.notWanted (h.hand_broadcast p b hr i hi)
      broadcast := fun p hp htag i hi => hkeep.notWanted (h.broadcast p hp htag i hi) }

/-! ### Whole runs -/

/-- Untagged frames sent for a command are with the command: in its own stream, or in the broadcast
because it has no open stream that wants them, or still in the hands of the read loop. None is in
the stream of another. -/
def OwnStreams (s : Dispatcher) : Prop :=
  ∀ p ∈ s.parsed, p.frame.2.tag? = none → ∀ i, p.owner = some i →
    (∀ j, p ∈ (s.streams j).frames → j = i) ∧
      (p ∈ (s.streams i).frames ∨ p ∈ s.broadcast ∧ NotWanted s i p.frame.2 ∨
        p ∈ Reader.hand s.reader)

/-- Untagged frames complete no command. -/
theorem RepliesRouted.not_mem_replied (hrr : RepliesRouted s) {p : Parsed}
    (htag : p.frame.2.tag? = none) : p ∉ s.replied := by
  intro hp
  obtain ⟨r, hr, hcause⟩ := List.mem_filterMap.mp hp
  have hj := hrr.justified r hr
  simp only [Justified, hcause] at hj
  obtain ⟨-, tag, status, code, text, hframe, -⟩ := hj
  simp [hframe, Response.tag?] at htag

/-- Where an untagged frame is. -/
theorem untagged_place (hrr : RepliesRouted s) (hc : Conserved s) {p : Parsed}
    (hp : p ∈ s.parsed) (htag : p.frame.2.tag? = none) :
    p ∈ Reader.hand s.reader ∨ p ∈ s.broadcast ∨ ∃ j, p ∈ (s.streams j).frames := by
  by_contra hno
  simp only [not_or, not_exists] at hno
  obtain ⟨hhand, hbroadcast, hstreams⟩ := hno
  have hone := hc.copies_eq p
  have hzero : ∑ i ∈ Finset.range s.issued, (s.streams i).frames.count p = 0 :=
    Finset.sum_eq_zero fun j _ => List.count_eq_zero_of_not_mem (hstreams j)
  simp [copies, hp, List.count_eq_zero_of_not_mem, hhand, hbroadcast,
    hrr.not_mem_replied htag, hzero] at hone

theorem Attributed.ownStreams (h : Attributed s) (hrr : RepliesRouted s) (hc : Conserved s) :
    OwnStreams s := by
  intro p hp htag i hi
  refine ⟨fun j hj => h.streams j p hj i hi, ?_⟩
  rcases untagged_place hrr hc hp htag with hhand | hbroadcast | ⟨j, hj⟩
  · exact .inr (.inr hhand)
  · exact .inr (.inl ⟨hbroadcast, h.broadcast p hbroadcast htag i hi⟩)
  · obtain rfl := h.streams j p hj i hi
    exact .inl hj

/-- The invariants together, along a run with an ordered server and no disturbed step. -/
theorem attributed_of_undisturbed (h : ReachableBy maxFrameSize (fun a s =>
      ServesInOrder maxFrameSize a s ∧ Undisturbed maxFrameSize a s) s) :
    s.issued < 2 ^ 64 → FiltersKept s ∧ InTurn s ∧ Attributed s := by
  refine h.invariant (I := fun s => s.issued < 2 ^ 64 → FiltersKept s ∧ InTurn s ∧ Attributed s)
    (fun _ => ⟨filtersKept_new, inTurn_new, attributed_new⟩)
    fun {a s s'} hs hcond hstep ih hlt => ?_
  have hm := moves_of_step hstep
  have hlt' : s.issued < 2 ^ 64 := Nat.lt_of_le_of_lt hm.issued_le hlt
  obtain ⟨hf, ht, ha⟩ := ih hlt'
  have hrr := repliesRouted_of_reachable hs hlt'
  have hc := conserved_of_reachable hs
  exact ⟨hm.filtersKept hrr hc hf, hm.inTurn hcond.1 hlt' hrr ht,
    hm.attributed hcond.1 hcond.2 hrr hc hf ht ha⟩

/-- **Frames stay with their own command.** In every run with a server that answers in order, in
which data of a command arrives only while the command's own stream listens for it or no stream
does, every untagged frame is in its own command's stream or in the broadcast. -/
theorem ownStreams_of_undisturbed (maxFrameSize : ℕ) {s : Dispatcher}
    (hs : ReachableBy maxFrameSize (fun a s =>
      ServesInOrder maxFrameSize a s ∧ Undisturbed maxFrameSize a s) s)
    (hlt : s.issued < 2 ^ 64) : OwnStreams s :=
  (attributed_of_undisturbed hs hlt).2.2.ownStreams (repliesRouted_of_reachable hs hlt)
    (conserved_of_reachable hs)

/-- Two searches at once, each with its result and its completion. -/
def twoSearches : List Action :=
  [.enqueueCommand (ascii "SEARCH FROM \"a\"") (some isSearch), .recvRequest, .register,
    .writeBytes 64, .writeBytes 64,
    .enqueueCommand (ascii "SEARCH FROM \"b\"") (some isSearch), .recvRequest, .register,
    .writeBytes 64, .writeBytes 64,
    .readBuf (.ok (ascii
      "* SEARCH 1 2\r\nA0001 OK done\r\n* SEARCH 3\r\nA0002 OK done\r\n")),
    .scanBuffer (some 0), .dispatchFrame, .scanBuffer none, .dispatchFrame,
    .scanBuffer (some 1), .dispatchFrame, .scanBuffer none, .dispatchFrame]

theorem ownStreams_of_undisturbed_searches :
    ∃ s, ReachableBy 1024 (fun a s => ServesInOrder 1024 a s ∧ Undisturbed 1024 a s) s ∧
      s.issued < 2 ^ 64 ∧
      (s.streams 0).queue.map (·.frame.1) = [ascii "* SEARCH 1 2\r\n"] ∧
      (s.streams 1).queue.map (·.frame.1) = [ascii "* SEARCH 3\r\n"] ∧ OwnStreams s := by
  have hrun : (runMeeting (step 1024)
      (fun a s => ServesInOrder 1024 a s ∧ Undisturbed 1024 a s) twoSearches new).any (fun s =>
      decide (s.issued < 2 ^ 64 ∧
        (s.streams 0).queue.map (·.frame.1) = [ascii "* SEARCH 1 2\r\n"] ∧
        (s.streams 1).queue.map (·.frame.1) = [ascii "* SEARCH 3\r\n"])) = true := by
    decide +kernel
  obtain ⟨s, hs, hlt, hfirst, hsecond⟩ := exists_reaches hrun
  exact ⟨s, hs, hlt, hfirst, hsecond, ownStreams_of_undisturbed 1024 hs hlt⟩

/-- A search is given up after it was written, and another one issued before the result of the
first arrives. -/
def searchAfterTimeout : List Action :=
  [.enqueueCommand (ascii "SEARCH FROM \"a\"") (some isSearch), .recvRequest, .register,
    .writeBytes 64, .writeBytes 64, .dropStream 0,
    .enqueueCommand (ascii "SEARCH FROM \"b\"") (some isSearch), .recvRequest, .register,
    .writeBytes 64, .writeBytes 64,
    .readBuf (.ok (ascii "* SEARCH 1 2\r\n")), .scanBuffer (some 0), .dispatchFrame]

/-- The result of the first search is given to the second. -/
theorem search_result_given_to_later_search :
    ∃ s, ReachableBy 1024 (ServesInOrder 1024) s ∧ s.issued < 2 ^ 64 ∧ ¬ OwnStreams s := by
  have hrun : (runMeeting (step 1024) (ServesInOrder 1024) searchAfterTimeout new).any (fun s =>
      decide (s.issued < 2 ^ 64 ∧ ∃ p ∈ s.parsed, p.frame.2.tag? = none ∧ p.owner = some 0 ∧
        p ∈ (s.streams 1).frames)) = true := by
    decide +kernel
  obtain ⟨s, hs, hlt, p, hp, htag, howner, hmem⟩ := exists_reaches hrun
  exact ⟨s, hs, hlt, fun h => absurd ((h p hp htag 0 howner).1 1 hmem) (by decide)⟩

end Dispatcher

end ImapRs
