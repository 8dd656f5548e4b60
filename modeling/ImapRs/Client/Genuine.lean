import ImapRs.Client.Conservation
import ImapRs.Client.Exchange

/-!
# What callers are handed

What the two loops hand to a caller is what they claim it to be: a frame is a complete frame of the
server, a stream brings only frames its command asked for, and a successful reply is a frame too.

## Main definitions

* `Genuine` — the invariant

## Main results

* `Moves.genuine` — every step keeps it
* `Genuine.of_nextFrame`, `Genuine.of_pollReply` — what it means for a caller
-/

namespace ImapRs

open Incremental Transition

namespace Dispatcher

/-- Frames are frames, and each stream has what its filter accepts. -/
structure Genuine (s : Dispatcher) : Prop where
  queued : ∀ bytes tag i collector, WriteRequest.command bytes tag i collector ∈ s.queue →
    i < s.issued ∧ (s.streams i).filter = collector
  registering : ∀ bytes tag i collector, s.writer = .registering bytes tag i collector →
    i < s.issued ∧ (s.streams i).filter = collector
  collectors : ∀ c ∈ s.pending.collectors,
    c.tx < s.issued ∧ (s.streams c.tx).filter = some c.wants
  parsed : ∀ p ∈ s.parsed, responseFramer.Complete p.frame
  routed : ∀ i, ∀ p ∈ (s.streams i).routed,
    ∃ wants, (s.streams i).filter = some wants ∧ wants p.frame.2 = true
  hand : ∀ route p buffer, s.reader = .dispatching route p buffer → p ∈ s.parsed
  resolved : ∀ r ∈ s.resolved, ∀ bytes, r.result = .ok bytes → ∃ p ∈ s.parsed, p.frame.1 = bytes

theorem genuine_new : Genuine new where
  queued := by simp [new]
  registering := by simp [new]
  collectors := by simp [new]
  parsed := by simp [new]
  routed := by simp [new, Stream.none]
  hand := by simp [new]
  resolved := by simp [new]

variable {maxFrameSize : ℕ} {a : Action} {s s' : Dispatcher}

/-- A step that brings nothing new. -/
theorem Genuine.keep (h : Genuine s) (hissued : s'.issued = s.issued)
    (hfilter : ∀ i, (s'.streams i).filter = (s.streams i).filter)
    (hrouted : ∀ i, (s'.streams i).routed = (s.streams i).routed)
    (hqueue : s'.queue ⊆ s.queue)
    (hwriter : s'.writer = s.writer ∨ ∀ bytes tag i collector,
      s'.writer ≠ .registering bytes tag i collector)
    (hcollectors : s'.pending.collectors ⊆ s.pending.collectors) (hparsed : s'.parsed = s.parsed)
    (hreader : s'.reader = s.reader ∨ ∀ route p buffer, s'.reader ≠ .dispatching route p buffer)
    (hresolved : s'.resolved = s.resolved) : Genuine s' where
  queued bytes tag i collector hmem := by
    rw [hissued, hfilter]
    exact h.queued bytes tag i collector (hqueue hmem)
  registering bytes tag i collector hw := by
    rw [hissued, hfilter]
    rcases hwriter with hsame | hnot
    · exact h.registering bytes tag i collector (hsame.symm.trans hw)
    · exact absurd hw (hnot bytes tag i collector)
  collectors c hc := by
    rw [hissued, hfilter]
    exact h.collectors c (hcollectors hc)
  parsed := by
    rw [hparsed]
    exact h.parsed
  routed i p hp := by
    rw [hfilter]
    rw [hrouted] at hp
    exact h.routed i p hp
  hand route p buffer hr := by
    rw [hparsed]
    rcases hreader with hsame | hnot
    · exact h.hand route p buffer (hsame.symm.trans hr)
    · exact absurd hr (hnot route p buffer)
  resolved := by
    rw [hresolved, hparsed]
    exact h.resolved

/-- A step on the channel of one command. -/
theorem Genuine.setStream (h : Genuine s) {i : CommandId} {c : Stream} {broadcast : List Parsed}
    {abandoned : List CommandId} {reader : Reader} (hfilter : c.filter = (s.streams i).filter)
    (hrouted : c.routed = (s.streams i).routed)
    (hreader : reader = s.reader ∨ ∀ route p buffer, reader ≠ .dispatching route p buffer) :
    Genuine { s.setStream i c with broadcast, abandoned, reader } := by
  have hstream : ∀ j, (Function.update s.streams i c j).filter = (s.streams j).filter ∧
      (Function.update s.streams i c j).routed = (s.streams j).routed := by
    intro j
    by_cases hj : j = i
    · subst hj
      rw [Function.update_self]
      exact ⟨hfilter, hrouted⟩
    · rw [Function.update_of_ne hj]
      exact ⟨rfl, rfl⟩
  exact h.keep rfl (fun j => (hstream j).1) (fun j => (hstream j).2) (List.Subset.refl _) (.inl rfl)
    (List.Subset.refl _) rfl hreader rfl

/-- A new command, with the channel made for it. -/
theorem Genuine.issue (h : Genuine s) {tagCounter : UInt64} {bytes tag : Bytes}
    {collector : Option FrameFilter} {streams : CommandId → Stream}
    (hold : ∀ i, i ≠ s.issued → streams i = s.streams i)
    (hfilter : (streams s.issued).filter = collector) (hnew : (streams s.issued).routed = []) :
    Genuine { s with
      tagCounter
      issued := s.issued + 1
      queue := s.queue ++ [.command bytes tag s.issued collector]
      streams } where
  queued bytes' tag' i collector' hmem := by
    rcases List.mem_append.mp hmem with hmem | hmem
    · obtain ⟨hi, hf⟩ := h.queued bytes' tag' i collector' hmem
      refine ⟨Nat.lt_succ_of_lt hi, ?_⟩
      rw [show (streams i).filter = _ from congrArg _ (hold i (Nat.ne_of_lt hi))]
      exact hf
    · cases List.mem_singleton.mp hmem
      exact ⟨Nat.lt_succ_self _, hfilter⟩
  registering bytes' tag' i collector' hw := by
    obtain ⟨hi, hf⟩ := h.registering bytes' tag' i collector' hw
    refine ⟨Nat.lt_succ_of_lt hi, ?_⟩
    rw [show (streams i).filter = _ from congrArg _ (hold i (Nat.ne_of_lt hi))]
    exact hf
  collectors c hc := by
    obtain ⟨hi, hf⟩ := h.collectors c hc
    refine ⟨Nat.lt_succ_of_lt hi, ?_⟩
    rw [show (streams c.tx).filter = _ from congrArg _ (hold c.tx (Nat.ne_of_lt hi))]
    exact hf
  parsed := h.parsed
  routed i p hp := by
    have hp : p ∈ (streams i).routed := hp
    by_cases hi : i = s.issued
    · subst hi
      rw [hnew] at hp
      cases hp
    · rw [hold i hi] at hp
      obtain ⟨wants, hf, hwants⟩ := h.routed i p hp
      exact ⟨wants, (congrArg Stream.filter (hold i hi)).trans hf, hwants⟩
  hand := h.hand
  resolved := h.resolved

/-- The read loop parses a frame and chooses its route. -/
theorem Genuine.scanFrame (h : Genuine s) {buffer rest : Bytes} {frame : Frame}
    {owner : Option CommandId} (hscan : scan maxFrameSize buffer = .frame frame rest) :
    Genuine { s with
      reader := .dispatching (s.routeFor frame.2) ⟨frame, s.parsed.length, owner⟩ rest
      parsed := s.parsed ++ [⟨frame, s.parsed.length, owner⟩]
      streams := s.markRouted (s.routeFor frame.2) ⟨frame, s.parsed.length, owner⟩ } := by
  have hmark := markRouted_apply s (s.routeFor frame.2) ⟨frame, s.parsed.length, owner⟩ rest
  have hfilter : ∀ i, (s.markRouted (s.routeFor frame.2) ⟨frame, s.parsed.length, owner⟩ i).filter
      = (s.streams i).filter := fun i => by rw [hmark i]
  refine {
    queued := fun bytes tag i collector hmem => ?_
    registering := fun bytes tag i collector hw => ?_
    collectors := fun c hc => ?_
    parsed := fun p hp => ?_
    routed := fun i p hp => ?_
    hand := fun route p buffer hr => ?_
    resolved := fun r hr bytes hok => ?_ }
  · rw [hfilter]
    exact h.queued bytes tag i collector hmem
  · rw [hfilter]
    exact h.registering bytes tag i collector hw
  · rw [hfilter]
    exact h.collectors c hc
  · rcases List.mem_append.mp hp with hp | hp
    · exact h.parsed p hp
    · obtain rfl := List.mem_singleton.mp hp
      exact (scan_eq_frame hscan).1
  · rw [hfilter]
    dsimp only at hp
    rw [hmark i] at hp
    rcases List.mem_append.mp hp with hp | hp
    · exact h.routed i p hp
    · -- it was chosen for a collector that wants it
      cases hroute : s.routeFor frame.2 with
      | stream tx =>
        rw [hroute, Reader.handFor] at hp
        split at hp
        next htx =>
          obtain rfl := List.mem_singleton.mp hp
          obtain ⟨-, c, hc, rfl, hwants⟩ := routeFor_eq_stream hroute
          rw [← htx]
          exact ⟨c.wants, (h.collectors c hc).2, hwants⟩
        · cases hp
      | tagged | broadcast =>
        rw [hroute] at hp
        cases hp
  · cases hr
    exact List.mem_append_right _ (List.mem_singleton_self _)
  · obtain ⟨p, hp, hbytes⟩ := h.resolved r hr bytes hok
    exact ⟨p, List.mem_append_left _ hp, hbytes⟩

/-- **Every step keeps it.** -/
theorem Moves.genuine (hm : Moves maxFrameSize s a s') (hc : Conserved s) (h : Genuine s) :
    Genuine s' := by
  cases hm with
  | stay => exact h
  | @enqueue cmd collector _ =>
    refine h.issue (fun i hi => ?_) ?_ ?_
    all_goals cases collector
    · rfl
    · exact Function.update_of_ne hi _ _
    · simp [hc.unborn s.issued (Nat.le_refl _), Stream.none]
    · simp
    · simp [hc.unborn s.issued (Nat.le_refl _), Stream.none]
    · simp
  | lost => exact {
      queued := fun bytes tag i collector hmem =>
        have hq := h.queued bytes tag i collector hmem
        ⟨Nat.lt_succ_of_lt hq.1, hq.2⟩
      registering := fun bytes tag i collector hw =>
        have hr := h.registering bytes tag i collector hw
        ⟨Nat.lt_succ_of_lt hr.1, hr.2⟩
      collectors := fun c hc =>
        have hf := h.collectors c hc
        ⟨Nat.lt_succ_of_lt hf.1, hf.2⟩
      parsed := h.parsed
      routed := h.routed
      hand := h.hand
      resolved := h.resolved }
  | raw =>
    refine { h with queued := fun bytes tag i collector hmem => h.queued bytes tag i collector ?_ }
    simpa using hmem
  | yield _ _ | close _ | drain _ _ | drained _ _ | dropStream _ =>
    exact h.setStream rfl rfl (.inl rfl)
  | recvCommand hw hq =>
    refine { h with
      queued := fun bytes tag i collector hmem => h.queued bytes tag i collector ?_
      registering := fun bytes tag i collector heq => ?_ }
    · rw [hq]
      exact List.mem_cons_of_mem _ hmem
    · cases heq
      exact h.queued _ _ _ _ (by rw [hq]; exact List.mem_cons_self)
  | recvRaw hw hq =>
    refine { h with
      queued := fun bytes tag i collector hmem => h.queued bytes tag i collector ?_
      registering := by simp }
    rw [hq]
    exact List.mem_cons_of_mem _ hmem
  | recvNone | wrote _ | written _ => exact { h with registering := by simp }
  | writeFailed _ => exact { h with queued := by simp, registering := by simp }
  | @register bytes tag i collector hw =>
    refine { h with registering := by simp, collectors := fun c hmem => ?_ }
    rcases List.mem_append.mp hmem with hmem | hmem
    · exact h.collectors c hmem
    · cases collector with
      | none => cases hmem
      | some wants =>
        obtain rfl := List.mem_singleton.mp hmem
        exact h.registering _ _ _ _ hw
  | readEnd | readMore | scanWait | scanStop => exact { h with hand := by simp }
  | scanFrame _ hscan => exact h.scanFrame hscan
  | @resolve tag status text p buffer tx hr hlookup =>
    refine { h with
      collectors := fun c hmem => h.collectors c (List.mem_of_mem_filter hmem)
      hand := by simp
      resolved := fun r hmem bytes hok => ?_ }
    rcases List.mem_append.mp hmem with hmem | hmem
    · exact h.resolved r hmem bytes hok
    · obtain rfl := List.mem_singleton.mp hmem
      refine ⟨p, h.hand _ _ _ hr, ?_⟩
      cases status <;> cases hok
      rfl
  | unclaimed _ _ =>
    exact { h with
      collectors := fun c hmem => h.collectors c (List.mem_of_mem_filter hmem)
      hand := by simp }
  | push hr _ => exact h.setStream rfl rfl (.inr (by simp))
  | unsent _ _ | publish _ => exact { h with hand := by simp }
  | failAll _ =>
    refine { h with
      collectors := by simp
      hand := by simp
      resolved := fun r hmem bytes hok => ?_ }
    rcases List.mem_append.mp hmem with hmem | hmem
    · exact h.resolved r hmem bytes hok
    · obtain ⟨reply, -, rfl⟩ := List.mem_map.mp hmem
      cases hok
  | _ => exact { h with }

theorem genuine_of_reachable {C : Action → Dispatcher → Prop} (h : ReachableBy maxFrameSize C s) :
    Genuine s :=
  h.invariant genuine_new fun hs _ hstep ih =>
    (moves_of_step hstep).genuine (conserved_of_reachable hs) ih

/-- **A stream brings what was asked for.** -/
theorem Genuine.of_nextFrame (h : Genuine s) (hc : Conserved s) {i : CommandId} {f : Parsed}
    (hopen : (s.streams i).receiver = .open) (hf : s.nextFrame i = .ready (some f)) :
    responseFramer.Complete f.frame ∧
      ∃ wants, (s.streams i).filter = some wants ∧ wants f.frame.2 = true := by
  rw [nextFrame] at hf
  split at hf
  next rest hq =>
    cases hf
    have hmem : f ∈ (s.streams i).routed := by
      rw [hc.inOrder i hopen, hq]
      simp
    exact ⟨h.parsed f ((hc.routed i).subset hmem), h.routed i f hmem⟩
  · split at hf <;> cases hf

/-- **A successful reply is a frame.** -/
theorem Genuine.of_pollReply (h : Genuine s) {i : CommandId} {bytes : Bytes}
    (hok : s.pollReply i = some (.ok bytes)) :
    ∃ response, responseFramer.Complete (bytes, response) := by
  rw [pollReply] at hok
  split at hok
  next r hr =>
    obtain ⟨p, hp, rfl⟩ := h.resolved r (List.mem_of_find?_eq_some hr) bytes (Option.some.inj hok)
    exact ⟨p.frame.2, h.parsed p hp⟩
  · split at hok <;> cases hok

end Dispatcher

end ImapRs
