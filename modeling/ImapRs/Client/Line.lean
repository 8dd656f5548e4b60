import ImapRs.Client.Steps

/-!
# Commands in line

Commands are numbered as their tags are allocated, and one queue in front of one write loop keeps
them in that order: what is registered is older than what waits, and bytes go out in the order of
registration. None of this depends on tags.

## Main definitions

* `waiting` — the commands in front of the write loop
* `InLine` — the invariant

## Main results

* `Moves.inLine` — every step keeps it
-/

namespace ImapRs

open Transition

/-- The command of a request. -/
def WriteRequest.command? : WriteRequest → Option CommandId
  | .command _ _ i _ => some i
  | .raw _ => none

/-- The command the write loop is about to register. -/
def Writer.next : Writer → List CommandId
  | .registering _ _ i _ => [i]
  | _ => []

/-- The command whose line is being written. -/
def Writer.inFlight : Writer → List CommandId
  | .writing (some i) _ => [i]
  | _ => []

/-- In a list that ascends, the last element is the greatest. -/
theorem le_of_pairwise_lt_append {l : List ℕ} {i : ℕ} (h : (l ++ [i]).Pairwise (· < ·)) :
    ∀ j ∈ l ++ [i], j ≤ i := by
  intro j hj
  rcases List.mem_append.mp hj with hj | hj
  · exact Nat.le_of_lt ((List.pairwise_append.mp h).2.2 j hj i (List.mem_singleton_self i))
  · rw [List.mem_singleton.mp hj]

namespace Dispatcher

/-- The commands in front of the write loop, in order. -/
def waiting (s : Dispatcher) : List CommandId :=
  s.writer.next ++ s.queue.filterMap WriteRequest.command?

/-- The commands in line. -/
structure InLine (s : Dispatcher) : Prop where
  /-- What waits is younger than what is registered. -/
  order : (s.registered ++ s.waiting).Pairwise (· < ·)
  bound : ∀ i ∈ s.registered ++ s.waiting, i < s.issued
  /-- Lines go out in the order of registration, each in full before the next is registered. -/
  received : s.received <+: s.registered
  upToDate : s.writer ≠ .stopped → s.registered = s.received ++ s.writer.inFlight
  sent_registered : ∀ i bytes, (some i, bytes) ∈ s.sent → i ∈ s.registered
  sent_order : (s.sent.filterMap Prod.fst).Pairwise (· ≤ ·)

theorem inLine_new : InLine new where
  order := by simp [new, waiting, Writer.next]
  bound := by simp [new, waiting, Writer.next]
  received := List.prefix_rfl
  upToDate _ := rfl
  sent_registered := by simp [new]
  sent_order := by simp [new]

variable {maxFrameSize : ℕ} {a : Action} {s s' : Dispatcher}

theorem InLine.registered_lt (h : InLine s) : s.registered.Pairwise (· < ·) :=
  (List.pairwise_append.mp h.order).1

theorem InLine.lt_issued (h : InLine s) {i : CommandId} (hi : i ∈ s.registered) : i < s.issued :=
  h.bound i (List.mem_append_left _ hi)

/-- A step that leaves the commands in line as they are, or drops some. -/
theorem InLine.setQueue (h : InLine s) {queue : List WriteRequest} {writer : Writer}
    {received : List CommandId}
    (hwait : (waiting { s with queue, writer, received }).Sublist s.waiting)
    (hreceived : received <+: s.registered)
    (hout : writer ≠ .stopped → s.registered = received ++ writer.inFlight) :
    InLine { s with queue, writer, received } := by
  have hline := hwait.append_left s.registered
  exact { h with
    order := h.order.sublist hline
    bound := fun i hi => h.bound i (hline.subset hi)
    received := hreceived
    upToDate := hout }

/-- A new command goes to the end of the line. -/
theorem InLine.enqueue (h : InLine s) {tagCounter : UInt64} {bytes tag : Bytes}
    {collector : Option FrameFilter} {streams : CommandId → Stream} :
    InLine { s with
      tagCounter
      issued := s.issued + 1
      queue := s.queue ++ [.command bytes tag s.issued collector]
      streams } := by
  have hwait : waiting { s with
      tagCounter
      issued := s.issued + 1
      queue := s.queue ++ [.command bytes tag s.issued collector]
      streams } = s.waiting ++ [s.issued] := by
    simp [waiting, WriteRequest.command?]
  refine { h with order := ?_, bound := ?_ }
  · rw [hwait, ← List.append_assoc, List.pairwise_append]
    refine ⟨h.order, List.pairwise_singleton _ _, fun i hi j hj => ?_⟩
    rw [List.mem_singleton.mp hj]
    exact h.bound i hi
  · rw [hwait, ← List.append_assoc]
    intro i hi
    rcases List.mem_append.mp hi with hi | hi
    · exact Nat.lt_succ_of_lt (h.bound i hi)
    · rw [List.mem_singleton.mp hi]
      exact Nat.lt_succ_self _

/-- The head of the line is registered. -/
theorem InLine.register (h : InLine s) {bytes tag : Bytes} {i : CommandId}
    {collector : Option FrameFilter} {pending : Pending}
    (hw : s.writer = .registering bytes tag i collector) :
    InLine { s with
      pending
      registered := s.registered ++ [i]
      writer := .writing (some i) bytes } := by
  have hline : s.registered ++ [i] ++ waiting { s with
      pending
      registered := s.registered ++ [i]
      writer := .writing (some i) bytes } = s.registered ++ s.waiting := by
    simp [waiting, hw, Writer.next]
  have hall : s.registered = s.received := by
    simpa [hw, Writer.inFlight] using h.upToDate (by simp [hw])
  exact {
    order := by rw [hline]; exact h.order
    bound := by rw [hline]; exact h.bound
    received := h.received.trans (List.prefix_append _ _)
    upToDate := fun _ => by rw [hall]; rfl
    sent_registered := fun j bs hj => List.mem_append_left _ (h.sent_registered j bs hj)
    sent_order := h.sent_order }

/-- Bytes of the youngest registered command, or of no command, go out. -/
theorem InLine.wrote (h : InLine s) {n : ℕ} {command : Option CommandId} {rest : Bytes}
    (hw : s.writer = .writing command rest) :
    InLine { s with
      writer := .writing command (rest.drop n)
      sent := s.sent ++ [(command, rest.take n)] } := by
  have hall := h.upToDate (by simp [hw])
  have hline : waiting { s with
      writer := .writing command (rest.drop n)
      sent := s.sent ++ [(command, rest.take n)] } = s.waiting := by
    simp [waiting, hw, Writer.next]
  refine { h with
    order := by rw [hline]; exact h.order
    bound := by rw [hline]; exact h.bound
    upToDate := fun _ => ?_
    sent_registered := ?_
    sent_order := ?_ }
  · rw [hw] at hall
    cases command <;> exact hall
  · intro i bytes hmem
    rcases List.mem_append.mp hmem with hmem | hmem
    · exact h.sent_registered i bytes hmem
    · obtain ⟨rfl, _⟩ := Prod.mk.inj (List.mem_singleton.mp hmem)
      change i ∈ s.registered
      rw [hall, hw]
      simp [Writer.inFlight]
  · cases command with
    | none => simpa using h.sent_order
    | some i =>
      rw [hw] at hall
      have hmax := le_of_pairwise_lt_append (hall ▸ h.registered_lt)
      rw [List.filterMap_append, List.pairwise_append]
      refine ⟨h.sent_order, by simp, fun j hj k hk => ?_⟩
      obtain rfl : k = i := by simpa using hk
      obtain ⟨⟨o, bytes⟩, hmem, rfl⟩ := List.mem_filterMap.mp hj
      refine hmax j ?_
      have hj := h.sent_registered j bytes hmem
      rwa [hall] at hj

/-- **Every step keeps the commands in line.** -/
theorem Moves.inLine (hm : Moves maxFrameSize s a s') (h : InLine s) : InLine s' := by
  cases hm with
  | enqueue => exact h.enqueue
  | lost => exact { h with bound := fun i hi => Nat.lt_succ_of_lt (h.bound i hi) }
  | raw =>
    exact h.setQueue (by simp [waiting, WriteRequest.command?]) h.received h.upToDate
  | recvCommand hw hq =>
    exact h.setQueue (by simp [waiting, hw, hq, Writer.next, WriteRequest.command?]) h.received
      fun _ => by simpa [hw, Writer.inFlight] using h.upToDate (by simp [hw])
  | recvRaw hw hq =>
    exact h.setQueue
      (by simp [waiting, hw, hq, Writer.next, List.filterMap_cons, WriteRequest.command?])
      h.received fun _ => by simpa [hw, Writer.inFlight] using h.upToDate (by simp [hw])
  | recvNone hw hq =>
    exact h.setQueue (by simp [waiting, hw, Writer.next]) h.received fun hne => absurd rfl hne
  | register hw => exact h.register hw
  | wrote hw => exact h.wrote hw
  | @written n command hw =>
    have hall : s.registered = s.received ++ command.toList := by
      rw [h.upToDate (by simp [hw]), hw]
      cases command <;> rfl
    exact h.setQueue (by simp [waiting, hw, Writer.next]) (hall ▸ List.prefix_rfl)
      fun _ => by rw [hall]; exact (List.append_nil _).symm
  | writeFailed hw =>
    exact h.setQueue (by simp [waiting, hw, Writer.next]) h.received fun hne => absurd rfl hne
  | _ => exact { h with }

theorem inLine_of_reachable {C : Action → Dispatcher → Prop}
    (h : ReachableBy maxFrameSize C s) : InLine s :=
  h.invariant inLine_new fun _ _ hstep ih => (moves_of_step hstep).inLine ih

end Dispatcher

end ImapRs
