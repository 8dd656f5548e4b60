import ImapRs.Client.Line

/-!
# Waiters and the end of the read loop

When the read loop ends it fails every command in the pending table, once. The write loop is not
told: it goes on taking requests, registers them and writes them, and nobody is left to read the
answer. A command registered after the read loop has ended waits for ever; a run in which none is
registered that late leaves no waiter behind.

## Main definitions

* `NoOrphans` — with the read loop ended and the queue worked off, no command waits
* `RegistersInTime` — the condition on a step

## Main results

* `noOrphans_of_registersInTime` — runs that register nothing after the end leave no waiter
* `orphan_after_eof` — a run that does leave one
-/

namespace ImapRs

open Transition

/-- The write loop has worked off what it took from the queue. -/
def Writer.settled : Writer → Bool
  | .idle | .stopped => true
  | _ => false

namespace Dispatcher

variable {maxFrameSize : ℕ} {a : Action} {s s' : Dispatcher}

/-- The write loop has processed everything queued so far. -/
def WorkedOff (s : Dispatcher) : Prop := s.queue.isEmpty = true ∧ s.writer.settled = true

instance (s : Dispatcher) : Decidable s.WorkedOff := inferInstanceAs (Decidable (_ ∧ _))

/-- With the read loop ended and everything queued processed, no command waits for its reply. -/
def NoOrphans (s : Dispatcher) : Prop :=
  s.reader = .stopped → s.WorkedOff → s.pending.replies = []

/-- Whether the sending half of `i`'s `oneshot` is left: in a request or in the pending table. When
it is dropped, the receiver reports an error. -/
def hasReplySender (s : Dispatcher) (i : CommandId) : Bool :=
  s.waiting.contains i || (s.pending.replies.map Prod.snd).contains i

/-- Whether the write loop enters a command into the pending table. -/
def Action.registers : Action → Bool
  | .register => true
  | _ => false

/-- No command is registered once the read loop has ended. -/
def RegistersInTime (a : Action) (s : Dispatcher) : Prop :=
  a.registers = true → s.reader ≠ .stopped

instance (a : Action) (s : Dispatcher) : Decidable (RegistersInTime a s) :=
  inferInstanceAs (Decidable (_ → _))

/-- A step with the read loop ended changes the pending table only by registering. -/
theorem Moves.of_stopped (hm : Moves maxFrameSize s a s') (hr : s.reader = .stopped)
    (hC : RegistersInTime a s) :
    s'.reader = .stopped ∧ s'.pending = s.pending ∧ s'.registered = s.registered := by
  cases hm with
  | register => exact absurd hr (hC rfl)
  | readEnd h | readMore h | scanFrame h | scanWait h | scanStop h | resolve h | unclaimed h
  | push h | unsent h | publish h | failAll h =>
    rw [hr] at h
    cases h
  | _ => exact ⟨hr, rfl, rfl⟩

/-- The read loop ends by emptying the pending table. -/
theorem Moves.replies_of_stopping (hm : Moves maxFrameSize s a s') (hr : s.reader ≠ .stopped)
    (hr' : s'.reader = .stopped) : s'.pending.replies = [] := by
  cases hm with
  | failAll => rfl
  | readEnd | readMore | scanFrame | scanWait | scanStop | resolve | unclaimed | push | unsent
  | publish => cases hr'
  | _ => exact absurd hr' hr

/-- With the read loop ended in time, the pending table is empty. -/
theorem replies_of_stopped (h : ReachableBy maxFrameSize RegistersInTime s) :
    s.reader = .stopped → s.pending.replies = [] := by
  refine h.invariant (I := fun s => s.reader = .stopped → s.pending.replies = []) (by simp [new])
    fun {a s s'} _ hC hstep ih hr' => ?_
  have hm := moves_of_step hstep
  by_cases hr : s.reader = .stopped
  · rw [(hm.of_stopped hr hC).2.1]
    exact ih hr
  · exact hm.replies_of_stopping hr hr'

/-- After the end, nothing is registered any more. -/
theorem registered_of_stopped (hr : s.reader = .stopped)
    (h : Reaches (step maxFrameSize) RegistersInTime s s') :
    s'.reader = .stopped ∧ s'.registered = s.registered := by
  refine h.invariant (I := fun t => t.reader = .stopped ∧ t.registered = s.registered) ⟨hr, rfl⟩
    fun _ hC hstep ih => ?_
  obtain ⟨hr', _, hreg⟩ := (moves_of_step hstep).of_stopped ih.1 hC
  exact ⟨hr', hreg.trans ih.2⟩

theorem waiting_of_workedOff (h : s.WorkedOff) : s.waiting = [] := by
  obtain ⟨hq, hw⟩ := h
  rw [waiting, List.isEmpty_iff.mp hq]
  cases hwriter : s.writer with
  | registering => rw [hwriter] at hw; cases hw
  | _ => rfl

/-- **No waiter outlives the reader, if nothing is registered after its end.** In every run whose
steps register commands only while the read loop runs: a state with the read loop ended and the
queue worked off holds no waiting command, and a command issued after the end is never registered,
has no byte written, and is left without a sender once the queue is worked off, so that its caller
gets an error. -/
theorem noOrphans_of_registersInTime (maxFrameSize : ℕ) {s : Dispatcher}
    (hs : ReachableBy maxFrameSize RegistersInTime s) :
    s.NoOrphans ∧ ∀ s', s.reader = .stopped →
      Reaches (step maxFrameSize) RegistersInTime s s' → ∀ i, s.issued ≤ i →
        i ∉ s'.registered ∧ (∀ bytes, (some i, bytes) ∉ s'.sent) ∧
          (s'.WorkedOff → s'.hasReplySender i = false) := by
  refine ⟨fun hr _ => replies_of_stopped hs hr, fun s' hr hs' i hi => ?_⟩
  obtain ⟨hr', hreg⟩ := registered_of_stopped hr hs'
  have hreach := hs.trans hs'
  have hnot : i ∉ s'.registered := by
    rw [hreg]
    exact fun hmem => absurd ((inLine_of_reachable hs).lt_issued hmem) (Nat.not_lt.mpr hi)
  refine ⟨hnot, fun bytes hmem => ?_, fun hoff => ?_⟩
  · exact hnot ((inLine_of_reachable hreach).sent_registered i bytes hmem)
  · simp [hasReplySender, waiting_of_workedOff hoff, replies_of_stopped hreach hr']

/-- A command is registered, and the server closes the connection while it is written. -/
def noopThenEof : List Action :=
  [.enqueueCommand (ascii "NOOP") none, .recvRequest, .register, .writeBytes 3, .readBuf (.ok []),
    .failAllPending]

/-- Another command is issued, and the write fails. -/
def checkThenBroken : List Action := [.enqueueCommand (ascii "CHECK") none, .failWrite]

theorem noOrphans_of_registersInTime_noop :
    ∃ s s', ReachableBy 1024 RegistersInTime s ∧ s.reader = .stopped ∧
      s.resolved.map (·.command) = [0] ∧ Reaches (step 1024) RegistersInTime s s' ∧
      s'.issued = 2 ∧ s'.WorkedOff ∧ s.NoOrphans ∧ s'.NoOrphans ∧ 1 ∉ s'.registered ∧
      (∀ bytes, (some 1, bytes) ∉ s'.sent) ∧ s'.hasReplySender 1 = false := by
  have hrun : (runMeeting (step 1024) RegistersInTime noopThenEof new).any (fun s =>
      decide (s.reader = .stopped ∧ s.resolved.map (·.command) = [0] ∧ s.issued = 1 ∧
        (runMeeting (step 1024) RegistersInTime checkThenBroken s).any (fun s' =>
          decide (s'.issued = 2 ∧ s'.WorkedOff)) = true)) = true := by
    decide +kernel
  obtain ⟨s, hs, hr, hresolved, hissued, hrest⟩ := exists_reaches hrun
  obtain ⟨s', hs', hissued', hoff⟩ := exists_reaches hrest
  obtain ⟨hno, hlate⟩ := noOrphans_of_registersInTime 1024 hs
  obtain ⟨hnot, hunsent, hlost⟩ := hlate s' hr hs' 1 (Nat.le_of_eq hissued)
  exact ⟨s, s', hs, hr, hresolved, hs', hissued', hoff, hno,
    (noOrphans_of_registersInTime 1024 (hs.trans hs')).1, hnot, hunsent, hlost hoff⟩

/-- The server closes the connection; a command comes in afterwards. -/
def noopAfterEof : List Action :=
  [.readBuf (.ok []), .failAllPending, .enqueueCommand (ascii "NOOP") none, .recvRequest, .register,
    .writeBytes 64, .writeBytes 64]

/-- The command is registered, written in full, and waits for a reply nobody will read. -/
theorem orphan_after_eof :
    ∃ s, Reachable 1024 s ∧ s.reader = .stopped ∧ s.WorkedOff ∧
      s.sent = [(some 0, ascii "A0001 NOOP\r\n")] ∧ s.pending.replies = [(ascii "A0001", 0)] ∧
      ¬ s.NoOrphans := by
  have hrun : (runMeeting (step 1024) (fun _ _ => True) noopAfterEof new).any (fun s =>
      decide (s.reader = .stopped ∧ s.WorkedOff ∧ s.sent = [(some 0, ascii "A0001 NOOP\r\n")] ∧
        s.pending.replies = [(ascii "A0001", 0)])) = true := by
    decide +kernel
  obtain ⟨s, hs, hr, hoff, hsent, hreplies⟩ := exists_reaches hrun
  refine ⟨s, hs, hr, hoff, hsent, hreplies, fun hno => ?_⟩
  have := hno hr hoff
  rw [hreplies] at this
  cases this

end Dispatcher

end ImapRs
