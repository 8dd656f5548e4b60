import ImapRs.Client.Line
import Mathlib

/-!
# Replies reach their own command

The routing invariant of the dispatcher. Commands are numbered as their tags are allocated, and the
single queue in front of the write loop keeps them in that order, so that everything registered is
older than everything that waits. A registered command is either still in the pending table or its
reply was resolved, never both, and a tag is the tag of one command only.

## Main definitions

* `tagOf` — the tag of a command
* `RepliesRouted` — the invariant
* `RepliesSafe` — what it means for callers and the wire

## Main results

* `formatTag_injective` — the tag format, past four digits too
* `Moves.repliesRouted` — every step keeps the invariant
* `repliesSafe_of_reachable` — replies are resolved once, by their own tagged frame or by the end of
  the connection
-/

namespace ImapRs

open Incremental Transition

/-! ### Tags -/

theorem ofNat_byte {c : Char} (h : c.isDigit = true) : Char.ofNat (byte c).toNat = c := by
  have hlt : c.toNat < 256 := by
    simp only [Char.isDigit, Bool.and_eq_true, decide_eq_true_eq] at h
    have := UInt32.le_iff_toNat_le.mp h.2
    have : c.toNat ≤ 57 := this
    omega
  rw [byte, Nat.toUInt8, UInt8.toNat_ofNat_of_lt' hlt, Char.ofNat_toNat]

/-- The digits of a tag. -/
def tagDigits (n : ℕ) : List Char :=
  List.replicate (4 - (Nat.toDigits 10 n).length) '0' ++ Nat.toDigits 10 n

theorem isDigit_of_mem_tagDigits {n : ℕ} {c : Char} (h : c ∈ tagDigits n) : c.isDigit = true := by
  rcases List.mem_append.mp h with h | h
  · rw [List.eq_of_mem_replicate h]
    rfl
  · exact Nat.isDigit_of_mem_toDigits (by decide) (by decide) h

theorem ofDigitChars_tagDigits (n : ℕ) : Nat.ofDigitChars 10 (tagDigits n) 0 = n := by
  rw [tagDigits, Nat.ofDigitChars_append, Nat.ofDigitChars_replicate_zero, Nat.mul_zero,
    Nat.ofDigitChars_ten_toDigits]

/-- **The tag format is injective.** Padding to four digits loses nothing, and longer numbers are
written in full. -/
theorem formatTag_injective : Function.Injective formatTag := by
  intro m n h
  have hdigits : (tagDigits m).map byte = (tagDigits n).map byte := (List.cons.inj h).2
  have hback : ∀ k, ((tagDigits k).map byte).map (fun b => Char.ofNat b.toNat) = tagDigits k := by
    intro k
    rw [List.map_map]
    conv_rhs => rw [← List.map_id (tagDigits k)]
    exact List.map_congr_left fun c hc => ofNat_byte (isDigit_of_mem_tagDigits hc)
  rw [← ofDigitChars_tagDigits m, ← hback m, hdigits, hback n, ofDigitChars_tagDigits n]

/-- The tag of a command: the counter starts at one and wraps. -/
def tagOf (i : CommandId) : Bytes := formatTag (UInt64.ofNat (i + 1)).toNat

theorem tagOf_inj {i j : ℕ} (hi : i < 2 ^ 64) (hj : j < 2 ^ 64) (h : tagOf i = tagOf j) :
    i = j := by
  have := formatTag_injective h
  simp only [UInt64.toNat_ofNat'] at this
  omega

/-! ### Association lists -/

section Lookup

variable {α β : Type} [BEq α] [LawfulBEq α] {k : α} {v : β} {l : List (α × β)}

theorem mem_of_lookup (h : l.lookup k = some v) : (k, v) ∈ l := by
  obtain ⟨l₁, l₂, rfl, _⟩ := List.lookup_eq_some_iff.mp h
  simp

/-- Taking a key out of a table. -/
theorem perm_of_lookup [DecidableEq α] (hnd : (l.map Prod.fst).Nodup) (h : l.lookup k = some v) :
    l.Perm ((k, v) :: l.filter (·.1 ≠ k)) := by
  obtain ⟨l₁, l₂, rfl, _⟩ := List.lookup_eq_some_iff.mp h
  rw [List.map_append, List.map_cons, List.nodup_append] at hnd
  obtain ⟨_, hnd₂, hdisj⟩ := hnd
  have hl₁ : l₁.filter (·.1 ≠ k) = l₁ := by
    refine List.filter_eq_self.mpr fun p hp => ?_
    simpa using hdisj p.1 (List.mem_map_of_mem hp) k List.mem_cons_self
  have hl₂ : l₂.filter (·.1 ≠ k) = l₂ := by
    refine List.filter_eq_self.mpr fun p hp => ?_
    have := (List.nodup_cons.mp hnd₂).1
    simpa using fun heq : p.1 = k => this (List.mem_map.mpr ⟨p, hp, heq⟩)
  rw [List.filter_append, List.filter_cons_of_neg (by simp), hl₁, hl₂]
  exact List.perm_middle

end Lookup

/-! ### The invariant -/

namespace Dispatcher

/-- Why a reply was resolved as it was: a tagged frame with the command's own tag, or the end of the
connection. -/
def Justified (s : Dispatcher) (r : Resolution) : Prop :=
  match r.cause with
  | some p => p ∈ s.parsed ∧ ∃ tag status code text,
      p.frame.2 = .status ⟨some tag, status, code, text⟩ ∧ tag.bytes = tagOf r.command ∧
        r.result = taggedResult status text p.frame.1
  | none => s.reader = .stopped ∧ ∃ e, r.result = .error e

/-- The routing invariant. -/
structure RepliesRouted (s : Dispatcher) : Prop where
  line : InLine s
  counter : s.tagCounter = UInt64.ofNat (s.issued + 1)
  queue_tag : ∀ bytes tag i collector,
    WriteRequest.command bytes tag i collector ∈ s.queue → tag = tagOf i
  writer_tag : ∀ bytes tag i collector,
    s.writer = .registering bytes tag i collector → tag = tagOf i
  reply_tag : ∀ r ∈ s.pending.replies, r.1 = tagOf r.2
  /-- A registered command is pending or resolved, and not both. -/
  settled : (s.pending.replies.map Prod.snd ++ s.resolved.map (·.command)).Perm s.registered
  collectors_order : (s.pending.collectors.map (·.tx)).Sublist s.registered
  collectors_reply : ∀ c ∈ s.pending.collectors, (c.tag, c.tx) ∈ s.pending.replies
  justified : ∀ r ∈ s.resolved, s.Justified r
  dispatching : ∀ tag status text p buffer,
    s.reader = .dispatching (.tagged tag status text) p buffer →
      p ∈ s.parsed ∧ ∃ code, p.frame.2 = .status ⟨some tag, status, code, text⟩

theorem repliesRouted_new : RepliesRouted new where
  line := inLine_new
  counter := rfl
  queue_tag := by simp [new]
  writer_tag := by simp [new]
  reply_tag := by simp [new]
  settled := .refl _
  collectors_order := .slnil
  collectors_reply := by simp [new]
  justified := by simp [new]
  dispatching := by simp [new]

variable {maxFrameSize : ℕ} {a : Action} {s s' : Dispatcher}

theorem RepliesRouted.settled_nodup (h : RepliesRouted s) :
    (s.pending.replies.map Prod.snd ++ s.resolved.map (·.command)).Nodup :=
  h.settled.nodup_iff.mpr (h.line.registered_lt.imp Nat.ne_of_lt)

theorem RepliesRouted.mem_registered (h : RepliesRouted s) {r : Bytes × CommandId}
    (hr : r ∈ s.pending.replies) : r.2 ∈ s.registered :=
  h.settled.mem_iff.mp (List.mem_append_left _ (List.mem_map_of_mem hr))

/-- The tags of registered commands differ. -/
theorem RepliesRouted.tags_nodup (h : RepliesRouted s) (hlt : s.issued < 2 ^ 64) :
    (s.pending.replies.map Prod.fst).Nodup := by
  have hids : (s.pending.replies.map Prod.snd).Nodup :=
    h.settled_nodup.sublist (List.sublist_append_left _ _)
  have htags : s.pending.replies.map Prod.fst
      = (s.pending.replies.map Prod.snd).map tagOf := by
    rw [List.map_map]
    exact List.map_congr_left h.reply_tag
  rw [htags]
  refine List.Nodup.map_on (fun i hi j hj heq => ?_) hids
  obtain ⟨r, hr, rfl⟩ := List.mem_map.mp hi
  obtain ⟨q, hq, rfl⟩ := List.mem_map.mp hj
  have hr := h.line.lt_issued (h.mem_registered hr)
  have hq := h.line.lt_issued (h.mem_registered hq)
  exact tagOf_inj (Nat.lt_trans hr hlt) (Nat.lt_trans hq hlt) heq

/-- The tag of the command about to be registered is not in the table. -/
theorem RepliesRouted.fresh (h : RepliesRouted s) (hlt : s.issued < 2 ^ 64) {bytes tag : Bytes}
    {i : CommandId} {collector : Option FrameFilter}
    (hw : s.writer = .registering bytes tag i collector) :
    tag ∉ s.pending.replies.map Prod.fst := by
  intro hmem
  obtain ⟨r, hr, rfl⟩ := List.mem_map.mp hmem
  have hwait : i ∈ s.waiting := by simp [waiting, hw, Writer.next]
  have hreg := h.mem_registered hr
  have hold : r.2 < i := (List.pairwise_append.mp h.line.order).2.2 r.2 hreg i hwait
  have hi : i < s.issued := h.line.bound i (List.mem_append_right _ hwait)
  have htag : tagOf r.2 = tagOf i := (h.reply_tag r hr).symm.trans (h.writer_tag _ _ _ _ hw)
  exact absurd (tagOf_inj (Nat.lt_trans (h.line.lt_issued hreg) hlt) (Nat.lt_trans hi hlt) htag)
    (Nat.ne_of_lt hold)

theorem Justified.mono {r : Resolution} (h : s.Justified r) (hp : s.parsed ⊆ s'.parsed)
    (hr : s.reader = .stopped → s'.reader = .stopped) : s'.Justified r := by
  rw [Justified] at h ⊢
  split at h
  next p hc =>
    obtain ⟨hmem, hspec⟩ := h
    exact ⟨hp hmem, hspec⟩
  next hc =>
    obtain ⟨hstop, hspec⟩ := h
    exact ⟨hr hstop, hspec⟩

/-- The other end of the wire: what the read loop did keeps every justification. -/
theorem RepliesRouted.justified_mono (h : RepliesRouted s) (hp : s.parsed ⊆ s'.parsed)
    (hr : s.reader = .stopped → s'.reader = .stopped) : ∀ r ∈ s.resolved, s'.Justified r :=
  fun r hmem => (h.justified r hmem).mono hp hr

/-- A step of the reader that resolves nothing. -/
theorem RepliesRouted.setReader (h : RepliesRouted s) {reader : Reader}
    (hr : s.reader ≠ .stopped)
    (hd : ∀ route p buffer, reader ≠ .dispatching route p buffer) :
    RepliesRouted { s with reader } :=
  { h with
    line := { h.line with }
    justified := h.justified_mono (List.Subset.refl _) fun hs => absurd hs hr
    dispatching := fun _ _ _ _ _ heq => absurd heq (hd _ _ _) }

theorem RepliesRouted.scanning (h : RepliesRouted s) (hr : s.reader ≠ .stopped) {buffer : Bytes} :
    RepliesRouted { s with reader := .scanning buffer } :=
  h.setReader hr (by simp)

theorem repliesRouted_enqueue (h : RepliesRouted s) {cmd : Bytes}
    {collector : Option FrameFilter} {streams : CommandId → Stream} :
    RepliesRouted { s with
      tagCounter := s.tagCounter + 1
      issued := s.issued + 1
      queue := s.queue ++ [.command (commandLine (formatTag s.tagCounter.toNat) cmd)
        (formatTag s.tagCounter.toNat) s.issued collector]
      streams } := by
  refine { h with
    line := h.line.enqueue
    counter := by rw [h.counter, ← UInt64.ofNat_one, ← UInt64.ofNat_add]
    queue_tag := ?_ }
  intro bytes tag i col hmem
  rcases List.mem_append.mp hmem with hmem | hmem
  · exact h.queue_tag bytes tag i col hmem
  · cases List.mem_singleton.mp hmem
    rw [h.counter]
    rfl

theorem repliesRouted_register (h : RepliesRouted s) (hlt : s.issued < 2 ^ 64) {bytes tag : Bytes}
    {i : CommandId} {collector : Option FrameFilter}
    (hw : s.writer = .registering bytes tag i collector) :
    RepliesRouted { s with
      pending := s.pending.register tag i collector
      registered := s.registered ++ [i]
      writer := .writing (some i) bytes } := by
  have htag := h.writer_tag _ _ _ _ hw
  have hfresh := h.fresh hlt hw
  -- nothing is overwritten
  have hreplies : (s.pending.register tag i collector).replies
      = s.pending.replies ++ [(tag, i)] := by
    simp only [Pending.register]
    rw [List.filter_eq_self.mpr fun r hr => ?_]
    simpa using fun heq : r.1 = tag => hfresh (heq ▸ List.mem_map_of_mem hr)
  refine { h with
    line := h.line.register hw
    writer_tag := by simp
    reply_tag := ?_
    settled := ?_
    collectors_order := ?_
    collectors_reply := ?_ }
  · rw [hreplies]
    intro r hr
    rcases List.mem_append.mp hr with hr | hr
    · exact h.reply_tag r hr
    · rw [List.mem_singleton.mp hr]
      exact htag
  · rw [hreplies, List.map_append, List.map_singleton, List.append_assoc]
    refine .trans (List.Perm.append_left _ List.perm_append_comm) ?_
    rw [← List.append_assoc]
    exact h.settled.append_right _
  · cases collector with
    | none =>
      simp only [Pending.register, Option.map_none, Option.toList_none, List.append_nil]
      exact h.collectors_order.trans (List.sublist_append_left _ _)
    | some wants =>
      simp only [Pending.register, Option.map_some, Option.toList_some, List.map_append,
        List.map_singleton]
      exact h.collectors_order.append (.refl _)
  · rw [hreplies]
    intro c hc
    simp only [Pending.register] at hc
    rcases List.mem_append.mp hc with hc | hc
    · exact List.mem_append_left _ (h.collectors_reply c hc)
    · refine List.mem_append_right _ ?_
      cases collector with
      | none => simp at hc
      | some wants =>
        obtain rfl : c = ⟨tag, wants, i⟩ := by simpa using hc
        simp

/-- Completing a tag that is registered takes its command out of the table. -/
theorem repliesRouted_resolve (h : RepliesRouted s) (hlt : s.issued < 2 ^ 64) {tag text : Str}
    {status : Status} {p : Parsed} {buffer : Bytes} {tx : CommandId} {delivered : Bool}
    (hr : s.reader = .dispatching (.tagged tag status text) p buffer)
    (htx : s.pending.replies.lookup tag.bytes = some tx) :
    RepliesRouted { s with
      pending := (s.pending.complete tag.bytes).2
      resolved := s.resolved ++ [⟨tx, taggedResult status text p.frame.1, some p, delivered⟩]
      reader := .scanning buffer } := by
  have hperm := perm_of_lookup (h.tags_nodup hlt) htx
  refine { h with
    line := { h.line with }
    reply_tag := fun r hmem => h.reply_tag r (List.mem_of_mem_filter hmem)
    settled := ?_
    collectors_order := (List.filter_sublist.map _).trans h.collectors_order
    collectors_reply := ?_
    justified := ?_
    dispatching := by simp }
  · have hids : (s.pending.replies.map Prod.snd).Perm
        (tx :: ((s.pending.complete tag.bytes).2.replies.map Prod.snd)) := hperm.map Prod.snd
    rw [List.map_append, List.map_singleton, ← List.append_assoc]
    refine .trans ?_ ((hids.append_right _).symm.trans h.settled)
    exact List.perm_append_comm
  · intro c hc
    obtain ⟨hc, hne⟩ := List.mem_filter.mp hc
    exact List.mem_filter.mpr ⟨h.collectors_reply c hc, hne⟩
  · intro r hmem
    rcases List.mem_append.mp hmem with hmem | hmem
    · exact (h.justified r hmem).mono (List.Subset.refl _) (by simp [hr])
    · rw [List.mem_singleton.mp hmem]
      obtain ⟨hp, code, hresp⟩ := h.dispatching _ _ _ _ _ hr
      exact ⟨hp, tag, status, code, text, hresp, h.reply_tag _ (mem_of_lookup htx), rfl⟩

/-- Completing a tag nobody waits for changes nothing in the table. -/
theorem complete_of_lookup_none (h : RepliesRouted s) {tag : Bytes}
    (hnone : s.pending.replies.lookup tag = none) : (s.pending.complete tag).2 = s.pending := by
  have hno : ∀ r ∈ s.pending.replies, r.1 ≠ tag := by
    intro r hr heq
    have := List.lookup_eq_none_iff.mp hnone r hr
    simp [heq] at this
  rw [Pending.complete, List.filter_eq_self.mpr (by simpa using hno),
    List.filter_eq_self.mpr fun c hc => ?_]
  simpa using hno _ (h.collectors_reply c hc)

theorem repliesRouted_failAll (h : RepliesRouted s) {e : ClientError} :
    RepliesRouted { s with
      pending := ⟨[], []⟩
      resolved := s.resolved ++ s.pending.replies.map fun r =>
        ⟨r.2, .error e, none, !s.abandoned.contains r.2⟩
      reader := .stopped } := by
  refine { h with
    line := { h.line with }
    reply_tag := by simp
    settled := ?_
    collectors_order := List.nil_sublist _
    collectors_reply := by simp
    justified := ?_
    dispatching := by simp }
  · rw [List.map_append, List.map_map]
    change (s.resolved.map (·.command) ++ s.pending.replies.map Prod.snd).Perm s.registered
    exact List.perm_append_comm.trans h.settled
  · intro r hmem
    rcases List.mem_append.mp hmem with hmem | hmem
    · exact (h.justified r hmem).mono (List.Subset.refl _) fun _ => rfl
    · obtain ⟨q, _, rfl⟩ := List.mem_map.mp hmem
      exact ⟨rfl, e, rfl⟩

/-- A tagged route is the route of a tagged status response. -/
theorem routeFor_eq_tagged {response : Response} {tag text : Str} {status : Status}
    (h : s.routeFor response = .tagged tag status text) :
    ∃ code, response = .status ⟨some tag, status, code, text⟩ := by
  unfold routeFor at h
  split at h
  next code _ =>
    cases h
    exact ⟨code, rfl⟩
  · split at h <;> cases h

theorem repliesRouted_scanFrame (h : RepliesRouted s) {frame : Frame} {owner : Option CommandId}
    {buffer rest : Bytes} {streams : CommandId → Stream} (hr : s.reader = .scanning buffer) :
    RepliesRouted { s with
      reader := .dispatching (s.routeFor frame.2) ⟨frame, s.parsed.length, owner⟩ rest
      parsed := s.parsed ++ [⟨frame, s.parsed.length, owner⟩]
      streams } := by
  refine { h with
    line := { h.line with }
    justified := h.justified_mono (List.subset_append_left _ _) (by simp [hr])
    dispatching := ?_ }
  intro tag status text p b heq
  obtain ⟨hroute, rfl, rfl⟩ := Reader.dispatching.inj heq
  obtain ⟨code, hresp⟩ := routeFor_eq_tagged hroute
  exact ⟨by simp, code, hresp⟩

/-- **Every step keeps the routing invariant.** -/
theorem Moves.repliesRouted (hlt : s'.issued < 2 ^ 64) (hm : Moves maxFrameSize s a s')
    (h : RepliesRouted s) : RepliesRouted s' := by
  have hline := hm.inLine h.line
  cases hm with
  | enqueue => exact repliesRouted_enqueue h
  | lost =>
    exact { h with
      line := hline
      counter := by rw [h.counter, ← UInt64.ofNat_one, ← UInt64.ofNat_add] }
  | raw =>
    refine { h with line := hline, queue_tag := fun b t i c hmem => ?_ }
    exact h.queue_tag b t i c (by simpa using hmem)
  | recvCommand hw hq =>
    refine { h with
      line := hline
      queue_tag := fun b t i c hmem => h.queue_tag b t i c (by simp [hq, hmem])
      writer_tag := fun b t i c heq => ?_ }
    cases heq
    exact h.queue_tag _ _ _ _ (by rw [hq]; exact List.mem_cons_self)
  | recvRaw hw hq =>
    exact { h with
      line := hline
      queue_tag := fun b t i c hmem => h.queue_tag b t i c (by simp [hq, hmem])
      writer_tag := by simp }
  | recvNone => exact { h with line := hline, writer_tag := by simp }
  | register hw => exact repliesRouted_register h hlt hw
  | wrote => exact { h with line := hline, writer_tag := by simp }
  | written => exact { h with line := hline, writer_tag := by simp }
  | writeFailed => exact { h with line := hline, queue_tag := by simp, writer_tag := by simp }
  | readEnd hr => exact h.setReader (by simp [hr]) (by simp)
  | readMore hr => exact h.setReader (by simp [hr]) (by simp)
  | scanFrame hr => exact repliesRouted_scanFrame h hr
  | scanWait hr => exact h.setReader (by simp [hr]) (by simp)
  | scanStop hr => exact h.setReader (by simp [hr]) (by simp)
  | resolve hr htx => exact repliesRouted_resolve h hlt hr htx
  | unclaimed hr hnone =>
    rw [complete_of_lookup_none h hnone] at hline ⊢
    exact { h.scanning (by simp [hr]) with line := hline }
  | push hr => exact { h.scanning (by simp [hr]) with line := hline }
  | unsent hr => exact { h.scanning (by simp [hr]) with line := hline }
  | publish hr => exact { h.scanning (by simp [hr]) with line := hline }
  | failAll => exact repliesRouted_failAll h
  | _ => exact { h with line := hline }

/-! ### Every interleaving -/

theorem Moves.issued_le (hm : Moves maxFrameSize s a s') : s.issued ≤ s'.issued := by
  cases hm <;> first | exact Nat.le_refl _ | exact Nat.le_succ _

/-- Every state reached with a tag left satisfies the routing invariant. -/
theorem repliesRouted_of_reachable {C : Action → Dispatcher → Prop}
    (h : ReachableBy maxFrameSize C s) : s.issued < 2 ^ 64 → RepliesRouted s := by
  refine h.invariant (I := fun s => s.issued < 2 ^ 64 → RepliesRouted s)
    (fun _ => repliesRouted_new) fun _ _ hstep ih hlt => ?_
  have hm := moves_of_step hstep
  exact hm.repliesRouted hlt (ih (Nat.lt_of_le_of_lt hm.issued_le hlt))

/-- What callers and the wire can rely on. -/
structure RepliesSafe (s : Dispatcher) : Prop where
  tags_distinct : (s.pending.replies.map Prod.fst).Nodup
  /-- No reply sender is overwritten. -/
  fresh : ∀ bytes tag i collector, s.writer = .registering bytes tag i collector →
    tag ∉ s.pending.replies.map Prod.fst
  own_tag : ∀ r ∈ s.pending.replies, r.1 = tagOf r.2
  collectors_registered : ∀ c ∈ s.pending.collectors, (c.tag, c.tx) ∈ s.pending.replies
  /-- Commands are written in the order of their numbers. -/
  sent_in_order : (s.sent.filterMap Prod.fst).Pairwise (· ≤ ·)
  collectors_in_order : (s.pending.collectors.map (·.tx)).Pairwise (· < ·)
  written : ∀ i bytes, (some i, bytes) ∈ s.sent →
    i ∈ s.pending.replies.map Prod.snd ∨ i ∈ s.resolved.map (·.command)
  /-- A reply is resolved once, and a resolved command is no longer registered. -/
  resolved_once : (s.resolved.map (·.command)).Nodup ∧
    ∀ i ∈ s.resolved.map (·.command), i ∉ s.pending.replies.map Prod.snd
  /-- Only by a tagged frame with the command's own tag, or by the end of the connection. -/
  resolved_by : ∀ r ∈ s.resolved,
    (∃ p tag status code text, r.cause = some p ∧ p ∈ s.parsed ∧
      p.frame.2 = .status ⟨some tag, status, code, text⟩ ∧ tag.bytes = tagOf r.command ∧
      (r.result = .ok p.frame.1 ↔ status = .ok) ∧ (status ≠ .ok → ∃ e, r.result = .error e)) ∨
    (r.cause = none ∧ s.reader = .stopped ∧ ∃ e, r.result = .error e)
  /-- A tagged frame nobody waits for is broadcast and touches no command. -/
  unclaimed : ∀ tag status text p buffer,
    s.reader = .dispatching (.tagged tag status text) p buffer →
    tag.bytes ∉ s.pending.replies.map Prod.fst →
    ∃ s', s.dispatchFrame = some s' ∧ s'.broadcast = s.broadcast ++ [p] ∧
      s'.pending = s.pending ∧ s'.resolved = s.resolved ∧ s'.streams = s.streams

theorem taggedResult_eq_ok_iff (status : Status) (text : Str) (frame : Bytes) :
    taggedResult status text frame = .ok frame ↔ status = .ok := by
  cases status <;> simp [taggedResult]

theorem taggedResult_of_ne {status : Status} (h : status ≠ .ok) (text : Str) (frame : Bytes) :
    ∃ e, taggedResult status text frame = .error e := by
  cases status with
  | ok => exact absurd rfl h
  | _ => exact ⟨_, rfl⟩

theorem RepliesRouted.resolved_by (h : RepliesRouted s) {r : Resolution} (hr : r ∈ s.resolved) :
    (∃ p tag status code text, r.cause = some p ∧ p ∈ s.parsed ∧
      p.frame.2 = .status ⟨some tag, status, code, text⟩ ∧ tag.bytes = tagOf r.command ∧
      (r.result = .ok p.frame.1 ↔ status = .ok) ∧ (status ≠ .ok → ∃ e, r.result = .error e)) ∨
    (r.cause = none ∧ s.reader = .stopped ∧ ∃ e, r.result = .error e) := by
  have hj := h.justified r hr
  rw [Justified] at hj
  split at hj
  next p hc =>
    obtain ⟨hp, tag, status, code, text, hresp, htag, hres⟩ := hj
    refine .inl ⟨p, tag, status, code, text, hc, hp, hresp, htag, ?_, fun hne => ?_⟩
    · rw [hres]
      exact taggedResult_eq_ok_iff status text p.frame.1
    · rw [hres]
      exact taggedResult_of_ne hne text p.frame.1
  next hc => exact .inr ⟨hc, hj⟩

theorem dispatchFrame_of_no_waiter (h : RepliesRouted s) {tag text : Str} {status : Status}
    {p : Parsed} {buffer : Bytes} (hr : s.reader = .dispatching (.tagged tag status text) p buffer)
    (hno : tag.bytes ∉ s.pending.replies.map Prod.fst) :
    s.dispatchFrame = some { s with
      broadcast := s.broadcast ++ [p], reader := .scanning buffer } := by
  have hnone : s.pending.replies.lookup tag.bytes = none := by
    rw [List.lookup_eq_none_iff]
    intro r hmem
    simpa using fun heq : tag.bytes = r.1 => hno (heq ▸ List.mem_map_of_mem hmem)
  have hc : s.pending.complete tag.bytes = (none, s.pending) :=
    Prod.ext hnone (complete_of_lookup_none h hnone)
  unfold dispatchFrame
  rw [hr]
  simp only [hc]

/-- **Replies reach their own command.** In every state of every interleaving, as long as fewer than
`2 ^ 64` commands were issued. -/
theorem repliesSafe_of_reachable (maxFrameSize : ℕ) {s : Dispatcher} (hs : Reachable maxFrameSize s)
    (hlt : s.issued < 2 ^ 64) : RepliesSafe s := by
  have h := repliesRouted_of_reachable hs hlt
  have hsettled := List.nodup_append.mp h.settled_nodup
  exact {
    tags_distinct := h.tags_nodup hlt
    fresh := fun _ _ _ _ hw => h.fresh hlt hw
    own_tag := h.reply_tag
    collectors_registered := h.collectors_reply
    sent_in_order := h.line.sent_order
    collectors_in_order := h.line.registered_lt.sublist h.collectors_order
    written := fun i bytes hi =>
      List.mem_append.mp (h.settled.mem_iff.mpr (h.line.sent_registered i bytes hi))
    resolved_once := ⟨hsettled.2.1, fun i hi hp => hsettled.2.2 i hp i hi rfl⟩
    resolved_by := fun _ hr => h.resolved_by hr
    unclaimed := fun _ _ _ _ _ hr hno =>
      ⟨_, dispatchFrame_of_no_waiter h hr hno, rfl, rfl, rfl, rfl⟩ }

/-- `NOOP`, answered in two frames, the second of which nobody waits for. -/
def noopExchange : List Action :=
  [.enqueueCommand (ascii "NOOP") none, .recvRequest, .register, .writeBytes 64, .writeBytes 64,
    .readBuf (.ok (ascii "A0001 OK done\r\nA0001 OK again\r\n")), .scanBuffer none,
    .dispatchFrame, .scanBuffer none, .dispatchFrame]

theorem repliesSafe_of_reachable_noop :
    ∃ s, Reachable 1024 s ∧ s.issued = 1 ∧ s.resolved.map (·.command) = [0] ∧
      s.broadcast.map (·.frame.1) = [ascii "A0001 OK again\r\n"] ∧ RepliesSafe s := by
  have hrun : (runMeeting (step 1024) (fun _ _ => True) noopExchange new).any (fun s =>
      decide (s.issued = 1 ∧ s.resolved.map (·.command) = [0] ∧
        s.broadcast.map (·.frame.1) = [ascii "A0001 OK again\r\n"])) = true := by
    decide +kernel
  obtain ⟨s, hs, hissued, hresolved, hbroadcast⟩ := exists_reaches hrun
  exact ⟨s, hs, hissued, hresolved, hbroadcast,
    repliesSafe_of_reachable 1024 hs (by rw [hissued]; decide)⟩

end Dispatcher

end ImapRs
