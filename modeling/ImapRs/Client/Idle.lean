import ImapRs.Client.CommandLines
import ImapRs.Transition.Reach

/-!
# IDLE

After `IDLE` the server waits for the line `DONE`, and until then it takes no command. The handle
that `idle` returns owns a clone of the write side and not the session, so that it can be stopped
from elsewhere; nothing in the types keeps the caller from using the session in the meantime. And
where `idle` gives up before the continuation request is there, the request can still come: then the
server waits for a `DONE` that nobody has a handle for.

A caller holds a session and the handles it got from it, and uses them in any order the types allow.
Only the order in which requests are queued matters here, and a method or a `stop` queues its lines
at one point each as far as an idling session is concerned, so a history is a sequence of calls.

## Main definitions

* `Caller`, `Caller.step` — a session, its phase and its handles
* `Caller.continued`, `Caller.idling` — the IDLE commands whose continuation request is received,
  and those of them that no `stop` has ended
* `NoCommandWhileIdling` — no command line between an `IDLE` that was granted and its `DONE`
* `LeavesIdleAlone` — no method is called while the server waits for a `DONE`

## Main results

* `noCommandWhileIdling_of_leavesIdleAlone` — a caller that waits for `stop` keeps the order
* `command_while_idling` — one that does not breaks it
-/

namespace ImapRs

open Incremental Transition

/-! ### Callers -/

/-- Whether the method takes the session itself, and not a reference to it. -/
def Operation.consumes {t p q} : Operation t p q → Bool
  | .login _ _ | .authenticatePlain _ _ | .select _ | .examine _ | .closeMailbox | .unselect
  | .logout => true
  | _ => false

/-- The phase of the session after the method; none if the session is gone. -/
def Operation.phaseAfter {t p q} (op : Operation t p q) (r : Except ClientError op.Result) :
    Option Phase :=
  match op, r with
  | .logout, _ => none
  | op, .ok _ => if op.consumes then some q else some p
  | op, .error _ => if op.consumes then none else some p

/-- The handle a method returns. -/
def Operation.handle? {t p q} : (op : Operation t p q) → Except ClientError op.Result →
    Option IdleHandle
  | .idle, .ok handle => some handle
  | _, _ => none

/-- Whether the method is an `idle` that gave up. -/
def Operation.gaveUp {t p q} : (op : Operation t p q) → Except ClientError op.Result → Bool
  | .idle, .error .timeout => true
  | _, _ => false

/-- What a caller holds, and what became of its IDLE commands. -/
structure Caller where
  session : Session
  /-- The phase of the session; none once it is consumed. -/
  phase : Option Phase
  /-- The handles that were neither stopped nor dropped. -/
  handles : List IdleHandle
  /-- The IDLE commands that `idle` returned a handle for. -/
  granted : List CommandId
  /-- Those of them for which no `stop` has queued a `DONE`. -/
  unstopped : List CommandId
  /-- The IDLE commands whose continuation request `idle` did not wait for any longer. -/
  timedOut : List CommandId

namespace Caller

/-- A fresh session. -/
def new (phase : Phase) (capabilities : Capabilities) (answers : CommandId → Answer) : Caller where
  session := ⟨⟨1, 0, [], answers⟩, capabilities⟩
  phase := some phase
  handles := []
  granted := []
  unstopped := []
  timedOut := []

def call {t p q} (op : Operation t p q) (c : Caller) : Option Caller :=
  if c.phase = some p then
    let (r, session) := op.run c.session
    let handles := (op.handle? r).toList
    some { session, phase := op.phaseAfter r, handles := c.handles ++ handles,
           granted := c.granted ++ handles.map (·.command),
           unstopped := c.unstopped ++ handles.map (·.command),
           timedOut := c.timedOut ++ if op.gaveUp r then [c.session.raw.issued] else [] }
  else none

/-- `stop` on one of the handles. -/
def stop (k : ℕ) (c : Caller) : Option Caller :=
  c.handles[k]?.map fun handle =>
    { c with
      session := (handle.stop c.session).2
      handles := c.handles.eraseIdx k
      unstopped :=
        if (c.session.raw.answers handle.command).rawAccepted then
          c.unstopped.filter (· ≠ handle.command)
        else c.unstopped }

/-- One of the handles is dropped. -/
def drop (k : ℕ) (c : Caller) : Option Caller := some { c with handles := c.handles.eraseIdx k }

/-- What a caller can do. -/
inductive Action (t : Transport) where
  | call {p q : Phase} (op : Operation t p q)
  | stop (k : ℕ)
  | drop (k : ℕ)

def step {t : Transport} : Action t → Caller → Option Caller
  | .call op => call op
  | .stop k => stop k
  | .drop k => drop k

end Caller

/-! ### The order on the wire -/

/-- No command line stands between an `IDLE` line whose continuation request was received and the
next `DONE` line. -/
def NoCommandWhileIdling (granted : List CommandId) (queued : List WriteRequest) : Prop :=
  ∀ before between after tag i wants bytes tag' j wants',
    queued = before ++ .command (commandLine tag (ascii "IDLE")) tag i wants ::
      (between ++ .command bytes tag' j wants' :: after) →
    i ∈ granted → .raw DONE ∈ between

/-- The IDLE commands whose continuation request is received: in time for a handle, or late, after
`idle` gave up on it. -/
def Caller.continued (late : CommandId → Bool) (c : Caller) : List CommandId :=
  c.granted ++ c.timedOut.filter late

/-- Those of them that the server waits for a `DONE` of: no `stop` has queued it. -/
def Caller.idling (late : CommandId → Bool) (c : Caller) : List CommandId :=
  c.unstopped ++ c.timedOut.filter late

/-- The caller calls no method while the server waits for a `DONE`. -/
def LeavesIdleAlone {t : Transport} (late : CommandId → Bool) : Caller.Action t → Caller → Prop
  | .call _, c => c.idling late = []
  | _, _ => True

/-! ### What one call does -/

/-- An `idle` fails before it waits, or has queued `IDLE` and waits for the answer. -/
theorem idle_cases {t : Transport} (s : Session) :
    (∃ e s', (Operation.idle : Operation t .selected .selected).run s = (.error e, s') ∧
      e ≠ .timeout) ∨
    (Operation.idle : Operation t .selected .selected).run s
      = ((Session.continuation (s.raw.answers s.raw.issued)).map
          fun reply => (⟨s.raw.issued, reply⟩ : IdleHandle),
        RawClient.afterCommand s (ascii "IDLE") (some Session.isContinuationReq)) := by
  change (∃ e s', Session.idle s = (.error e, s') ∧ e ≠ .timeout) ∨ Session.idle s = _
  rw [Session.idle, run_get_bind]
  split
  · exact .inl ⟨_, _, rfl, by simp⟩
  rcases RawClient.enqueueCommand_cases (ascii "IDLE") (some Session.isContinuationReq) s with
    ⟨hbreaks, -⟩ | ⟨-, hrun⟩ | ⟨-, hrun⟩
  · cases hbreaks
  · exact .inl ⟨_, _, run_bind_error hrun, by simp⟩
  · refine .inr ?_
    rw [run_bind_ok hrun]
    have hwait : Session.awaitContinuation s.raw.issued
        (RawClient.afterCommand s (ascii "IDLE") (some Session.isContinuationReq))
          = (Session.continuation (s.raw.answers s.raw.issued), _) := run_lift _
    cases hcontinue : Session.continuation (s.raw.answers s.raw.issued) with
    | error e =>
      rw [hcontinue] at hwait
      rw [run_bind_error hwait]
      rfl
    | ok reply =>
      rw [hcontinue] at hwait
      rw [run_bind_ok hwait]
      rfl

/-- A method that returns a handle has queued `IDLE` and nothing else. -/
theorem run_of_handle? {t : Transport} {p q : Phase} (op : Operation t p q) {s : Session}
    {handle : IdleHandle} (h : op.handle? (op.run s).1 = some handle) :
    handle.command = s.raw.issued ∧
      (op.run s).2 = RawClient.afterCommand s (ascii "IDLE") (some Session.isContinuationReq) := by
  cases op with
  | idle =>
    have hcases := idle_cases (t := t) s
    rcases hcases with ⟨e, s', hrun, -⟩ | hrun
    · rw [hrun] at h
      cases h
    · rw [hrun] at h ⊢
      cases hcontinue : Session.continuation (s.raw.answers s.raw.issued) with
      | error e =>
        rw [hcontinue] at h
        cases h
      | ok reply =>
        rw [hcontinue] at h
        cases h
        exact ⟨rfl, rfl⟩
  | _ => cases h

/-- So has an `idle` that gave up. -/
theorem run_of_gaveUp {t : Transport} {p q : Phase} (op : Operation t p q) {s : Session}
    (h : op.gaveUp (op.run s).1 = true) :
    (op.run s).2 = RawClient.afterCommand s (ascii "IDLE") (some Session.isContinuationReq) := by
  cases op with
  | idle =>
    have hcases := idle_cases (t := t) s
    rcases hcases with ⟨e, s', hrun, hne⟩ | hrun
    · rw [hrun] at h
      cases e with
      | timeout => exact absurd rfl hne
      | _ => cases h
    · rw [hrun]
  | _ => cases h

/-- Where an element of an appended list stands. -/
theorem append_eq_append_cons {α : Type} {a b c d : List α} {x : α} (h : a ++ b = c ++ x :: d) :
    (∃ e, a = c ++ x :: e ∧ d = e ++ b) ∨ ∃ e, b = e ++ x :: d ∧ c = a ++ e := by
  rcases List.append_eq_append_iff.mp h with ⟨e, rfl, rfl⟩ | ⟨e, rfl, he⟩
  · exact .inr ⟨e, rfl, rfl⟩
  · cases e with
    | nil => exact .inr ⟨[], by simpa using he.symm, by simp⟩
    | cons y e =>
      obtain ⟨rfl, rfl⟩ := List.cons.inj he
      exact .inl ⟨e, rfl, rfl⟩

theorem number_of_split {lo hi : ℕ} {l before after : List WriteRequest} {bytes tag : Bytes}
    {i : CommandId} {wants : Option FrameFilter} (h : ∀ request ∈ l, Numbered lo hi request)
    (hl : l = before ++ .command bytes tag i wants :: after) : lo ≤ i ∧ i < hi :=
  h (.command bytes tag i wants) (by rw [hl]; simp)

/-- What holds in every state of a caller that leaves IDLE alone: the numbers are in order, the wire
is in order, and an IDLE without a `DONE` is one that the server waits for. -/
structure Caller.InOrder (late : CommandId → Bool) (c : Caller) : Prop where
  numbered : ∀ request ∈ c.session.raw.queued, Numbered 0 c.session.raw.issued request
  continued_lt : ∀ i ∈ c.continued late, i < c.session.raw.issued
  quiet : NoCommandWhileIdling (c.continued late) c.session.raw.queued
  waits : ∀ before after tag i wants,
    c.session.raw.queued = before ++
      .command (commandLine tag (ascii "IDLE")) tag i wants :: after →
    i ∈ c.continued late → .raw DONE ∉ after → i ∈ c.idling late

variable {late : CommandId → Bool}

theorem Caller.inOrder_new (phase : Phase) (capabilities : Capabilities)
    (answers : CommandId → Answer) : (Caller.new phase capabilities answers).InOrder late where
  numbered := by simp [Caller.new]
  continued_lt := by simp [Caller.new, Caller.continued]
  quiet := by
    intro before between after tag i wants bytes tag' j wants' hqueued
    exact absurd hqueued.symm (by simp [Caller.new])
  waits := by
    intro before after tag i wants hqueued
    exact absurd hqueued.symm (by simp [Caller.new])

/-- An IDLE that was queued before and is continued now was continued before. -/
theorem Caller.InOrder.old_continued {c c' : Caller} (h : c.InOrder late) {P : CommandId → Prop}
    (hcontinued : ∀ i ∈ c'.continued late,
      i ∈ c.continued late ∨ (c.session.raw.issued ≤ i ∧ P i))
    {before after : List WriteRequest} {bytes tag : Bytes} {i : CommandId}
    {wants : Option FrameFilter}
    (hqueued : c.session.raw.queued = before ++ .command bytes tag i wants :: after)
    (hi : i ∈ c'.continued late) : i ∈ c.continued late := by
  have hlt : i < c.session.raw.issued := (number_of_split h.numbered hqueued).2
  rcases hcontinued i hi with hi | ⟨hle, -⟩
  · exact hi
  · exact absurd hlt (Nat.not_lt.mpr hle)

/-- More requests, while nothing waits for a `DONE`. -/
theorem Caller.InOrder.extend {c c' : Caller} {new : List WriteRequest} (h : c.InOrder late)
    (hqueued : c'.session.raw.queued = c.session.raw.queued ++ new)
    (hissued : c.session.raw.issued ≤ c'.session.raw.issued)
    (hnew : ∀ request ∈ new, Numbered c.session.raw.issued c'.session.raw.issued request)
    (hidling : c.idling late = [])
    (hcontinued : ∀ i ∈ c'.continued late, i ∈ c.continued late ∨
      (c.session.raw.issued ≤ i ∧ i < c'.session.raw.issued ∧ i ∈ c'.idling late ∧
        new.length ≤ 1)) :
    c'.InOrder late where
  numbered := by
    intro request hrequest
    rw [hqueued] at hrequest
    rcases List.mem_append.mp hrequest with hmem | hmem
    · exact (h.numbered request hmem).mono le_rfl hissued
    · exact (hnew request hmem).mono (Nat.zero_le _) le_rfl
  continued_lt := by
    intro i hi
    rcases hcontinued i hi with hi | ⟨-, hlt, -⟩
    · exact (h.continued_lt i hi).trans_le hissued
    · exact hlt
  quiet := by
    intro before between after tag i wants bytes tag' j wants' hsplit hi
    rw [hqueued] at hsplit
    rcases append_eq_append_cons hsplit with ⟨rest, hold, hrest⟩ | ⟨rest, hin, -⟩
    · -- the IDLE was there before, so its DONE came before anything new
      have hi : i ∈ c.continued late := h.old_continued hcontinued hold hi
      rcases append_eq_append_cons hrest.symm with ⟨e, rfl, -⟩ | ⟨e, hin, rfl⟩
      · exact h.quiet _ _ _ _ _ _ _ _ _ _ hold hi
      · by_contra hdone
        have hwaits := h.waits _ _ _ _ _ hold hi fun hmem => hdone (List.mem_append_left e hmem)
        rw [hidling] at hwaits
        cases hwaits
    · -- it is new: then it is the only new request, and no command follows
      have hlt := (number_of_split hnew hin).1
      rcases hcontinued i hi with hi | ⟨-, -, -, hlen⟩
      · exact absurd (h.continued_lt i hi) (Nat.not_lt.mpr hlt)
      · rw [hin] at hlen
        simp only [List.length_append, List.length_cons] at hlen
        omega
  waits := by
    intro before after tag i wants hsplit hi hdone
    rw [hqueued] at hsplit
    rcases append_eq_append_cons hsplit with ⟨rest, hold, rfl⟩ | ⟨rest, hin, -⟩
    · have hi : i ∈ c.continued late := h.old_continued hcontinued hold hi
      have hwaits := h.waits _ _ _ _ _ hold hi fun hmem => hdone (List.mem_append_left new hmem)
      rw [hidling] at hwaits
      cases hwaits
    · have hlt := (number_of_split hnew hin).1
      rcases hcontinued i hi with hi | ⟨-, -, hidling', -⟩
      · exact absurd (h.continued_lt i hi) (Nat.not_lt.mpr hlt)
      · exact hidling'

/-- A `DONE` ends whatever was waiting. -/
theorem Caller.InOrder.done {c : Caller} (h : c.InOrder late) (handles : List IdleHandle)
    (unstopped : List CommandId) : InOrder late { c with
      session := { c.session with raw := c.session.raw.push (.raw DONE) }
      handles, unstopped } where
  numbered := by
    intro request hrequest
    rcases List.mem_append.mp hrequest with hmem | hmem
    · exact h.numbered request hmem
    · rw [List.mem_singleton.mp hmem]
      trivial
  continued_lt := h.continued_lt
  quiet := by
    intro before between after tag i wants bytes tag' j wants' hsplit hi
    rcases append_eq_append_cons hsplit with ⟨rest, hold, hrest⟩ | ⟨rest, hin, -⟩
    · rcases append_eq_append_cons hrest.symm with ⟨e, rfl, -⟩ | ⟨e, hin, -⟩
      · exact h.quiet _ _ _ _ _ _ _ _ _ _ hold hi
      · exact absurd hin (by simp [List.singleton_eq_append_iff])
    · exact absurd hin (by simp [List.singleton_eq_append_iff])
  waits := by
    intro before after tag i wants hsplit hi hdone
    rcases append_eq_append_cons hsplit with ⟨rest, -, rfl⟩ | ⟨rest, hin, -⟩
    · simp at hdone
    · exact absurd hin (by simp [List.singleton_eq_append_iff])

theorem Caller.InOrder.stop {c : Caller} (h : c.InOrder late) (handle : IdleHandle) (k : ℕ) :
    InOrder late { c with
      session := (handle.stop c.session).2
      handles := c.handles.eraseIdx k
      unstopped :=
        if (c.session.raw.answers handle.command).rawAccepted then
          c.unstopped.filter (· ≠ handle.command)
        else c.unstopped } := by
  rw [IdleHandle.stop]
  cases haccepted : (c.session.raw.answers handle.command).rawAccepted with
  | false =>
    have hrun : RawClient.sendSecret handle.command DONE c.session
        = (.error .connectionClosed, c.session) := by
      rw [RawClient.sendSecret, run_get_bind, if_neg (by simp [haccepted])]
      rfl
    rw [run_bind_error hrun]
    exact ⟨h.numbered, h.continued_lt, h.quiet, h.waits⟩
  | true =>
    have hrun : RawClient.sendSecret handle.command DONE c.session
        = (.ok (), { c.session with raw := c.session.raw.push (.raw DONE) }) := by
      rw [RawClient.sendSecret, run_get_bind, if_pos haccepted]
      rfl
    rw [run_bind_ok hrun]
    cases handle.reply.await <;> exact h.done _ _

/-- A call that is made while nothing waits for a `DONE`. -/
theorem Caller.InOrder.call {t : Transport} {p q : Phase} {c : Caller} (h : c.InOrder late)
    (op : Operation t p q) (hidling : c.idling late = []) :
    InOrder late {
      session := (op.run c.session).2
      phase := op.phaseAfter (op.run c.session).1
      handles := c.handles ++ (op.handle? (op.run c.session).1).toList
      granted := c.granted ++ (op.handle? (op.run c.session).1).toList.map (·.command)
      unstopped := c.unstopped ++ (op.handle? (op.run c.session).1).toList.map (·.command)
      timedOut := c.timedOut ++
        if op.gaveUp (op.run c.session).1 then [c.session.raw.issued] else [] } := by
  obtain ⟨hissued, new, hqueued, hnew⟩ := between_of_guarded (operation_guarded op) c.session
  -- an IDLE that is waited for from now on is the one line of this call
  have hidle : ∀ i, (op.run c.session).2
        = RawClient.afterCommand c.session (ascii "IDLE") (some Session.isContinuationReq) →
      i = c.session.raw.issued → c.session.raw.issued ≤ i ∧
        i < (op.run c.session).2.raw.issued ∧ new.length ≤ 1 := by
    rintro i hrun rfl
    rw [hrun] at hqueued
    rw [hrun, ← List.append_cancel_left hqueued]
    exact ⟨le_rfl, Nat.lt_succ_self _, by simp⟩
  refine h.extend hqueued hissued (fun request hrequest => (hnew request hrequest).2) hidling ?_
  intro i hi
  simp only [continued, idling, List.filter_append, List.mem_append, List.mem_map,
    Option.mem_toList] at hi ⊢
  rcases hi with (hi | ⟨handle, hhandle, rfl⟩) | hi | hi
  · exact .inl (.inl hi)
  · obtain ⟨hcommand, hrun⟩ := run_of_handle? op hhandle
    obtain ⟨hge, hlt, hlen⟩ := hidle _ hrun hcommand
    exact .inr ⟨hge, hlt, .inl (.inr ⟨handle, hhandle, rfl⟩), hlen⟩
  · exact .inl (.inr hi)
  · cases hgaveUp : op.gaveUp (op.run c.session).1 with
    | false =>
      rw [hgaveUp] at hi
      cases hi
    | true =>
      rw [hgaveUp, if_pos rfl] at hi
      have hcommand : i = c.session.raw.issued := List.mem_singleton.mp (List.mem_filter.mp hi).1
      obtain ⟨hge, hlt, hlen⟩ := hidle i (run_of_gaveUp op hgaveUp) hcommand
      exact .inr ⟨hge, hlt, .inr (.inr hi), hlen⟩

/-- **One step of a caller that leaves IDLE alone.** -/
theorem Caller.InOrder.step {t : Transport} {a : Caller.Action t} {c c' : Caller}
    (h : c.InOrder late) (hC : LeavesIdleAlone late a c) (hstep : Caller.step a c = some c') :
    c'.InOrder late := by
  cases a with
  | drop k =>
    cases hstep
    exact ⟨h.numbered, h.continued_lt, h.quiet, h.waits⟩
  | stop k =>
    obtain ⟨handle, -, rfl⟩ := Option.map_eq_some_iff.mp hstep
    exact h.stop handle k
  | @call p q op =>
    change (if c.phase = some p then _ else none) = some c' at hstep
    split at hstep
    · cases hstep
      exact h.call op hC
    · cases hstep

/-- **A caller that waits for `stop` keeps the wire in order.** Whatever the connection does, and
for whichever of the IDLE commands that `idle` gave up on the continuation request arrives late. -/
theorem noCommandWhileIdling_of_leavesIdleAlone {t : Transport} (phase : Phase)
    (capabilities : Capabilities) (answers : CommandId → Answer) (late : CommandId → Bool)
    {c : Caller} (h : Reaches (Caller.step (t := t)) (LeavesIdleAlone late)
      (Caller.new phase capabilities answers) c) :
    NoCommandWhileIdling (c.continued late) c.session.raw.queued := by
  have hinv : c.InOrder late := h.invariant (Caller.inOrder_new phase capabilities answers)
    fun _ hC hstep hc => hc.step hC hstep
  exact hinv.quiet

/-! ### A command in between -/

/-- `+ idling`. -/
def idlingFrame : ServerFrame where
  bytes := ascii "+ idling\r\n"
  response := .continue ⟨none, ⟨ascii "idling", rfl⟩⟩
  parses := by decide +kernel

/-- A connection that takes every command and grants every IDLE. -/
def grantingAnswers : CommandId → Answer := fun _ => ⟨true, [idlingFrame], true, .late⟩

/-- A selected session on that connection. -/
def grantedCaller : Caller := .new .selected { idle := true } grantingAnswers

/-- A selected session on a connection that takes every command and grants every IDLE but the
first, of which nothing is heard. -/
def ignoredCaller : Caller := .new .selected { idle := true }
  fun i => ⟨true, if i = 0 then [] else [idlingFrame], true, .late⟩

/-- An `idle` that gives up, for good; another, which is stopped; and a third. -/
theorem noCommandWhileIdling_idle_twice :
    ∃ c, Reaches (Caller.step (t := .tls)) (LeavesIdleAlone fun _ => false) ignoredCaller c ∧
      c.timedOut = [0] ∧ c.granted = [1, 2] ∧
      NoCommandWhileIdling (c.continued fun _ => false) c.session.raw.queued := by
  have hidle : ∀ {c}, c.idling (fun _ => false) = [] →
      LeavesIdleAlone (fun _ => false) (.call .idle : Caller.Action .tls) c := id
  have hstop : ∀ {c}, LeavesIdleAlone (fun _ => false) (.stop 0 : Caller.Action .tls) c := trivial
  have h₁ : Reaches (Caller.step (t := .tls)) (LeavesIdleAlone fun _ => false) ignoredCaller _ :=
    .next .start (hidle rfl) rfl
  have h₂ := h₁.next (hidle rfl) rfl
  have h₃ := h₂.next hstop rfl
  have h₄ := h₃.next (hidle rfl) rfl
  exact ⟨_, h₄, rfl, rfl, noCommandWhileIdling_of_leavesIdleAlone _ _ _ _ h₄⟩

/-- Nothing keeps a caller from sending `NOOP` before it stops the IDLE. -/
theorem command_while_idling :
    ¬ ∀ (t : Transport) (phase : Phase) (capabilities : Capabilities)
      (answers : CommandId → Answer) (late : CommandId → Bool) (c : Caller),
      Reaches (Caller.step (t := t)) (fun _ _ => True) (Caller.new phase capabilities answers) c →
        NoCommandWhileIdling (c.continued late) c.session.raw.queued := by
  intro hall
  have h₁ : Reaches (Caller.step (t := .tls)) (fun _ _ => True) grantedCaller _ :=
    .next (a := .call .idle) .start trivial rfl
  have h₂ := h₁.next (a := .call (.noop : Operation .tls .selected .selected)) trivial rfl
  have hmem := hall _ _ _ _ (fun _ => false) _ h₂ [] [] [] _ _ _ _ _ _ _ rfl (List.Mem.head _)
  cases hmem

end ImapRs
