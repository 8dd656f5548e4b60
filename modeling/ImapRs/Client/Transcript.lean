import ImapRs.Client.Base64
import ImapRs.Client.Courses
import ImapRs.Client.Idle

/-!
# What a server is told

Everything a caller queues, whatever it calls and whatever is answered, is read by a server as what
the calls ask for: each call in turn says the lines of its script, up to some point, and nothing
else. A text cannot end its line, close its quotes or turn into another argument, and no line is
taken for a part of another.

## Main definitions

* `Operation.script` — everything a call may say
* `Tells` — the line a request is read as
* `Uttered` — what was said between two sessions

## Main results

* `Course.uttered` — one call
* `transcript_reads` — every history of a caller
-/

namespace ImapRs

open Incremental Transition

/-! ### Scripts -/

/-- Everything a call may say, in order. -/
def Operation.script {t p q} (op : Operation t p q) : List Said :=
  match op with
  | .login _ _ => [.command op.command, .command .capability]
  | .authenticatePlain user pass =>
    [.command .authenticatePlain,
      .data (Session.base64Encode (0 :: (user.bytes ++ 0 :: pass.bytes))), .command .capability]
  | op => [.command op.command]

/-- Everything a step of a caller may say. -/
def Caller.Action.script {t : Transport} : Caller.Action t → List Said
  | .call op => op.script
  | .stop _ => [.data (ascii "DONE")]
  | .drop _ => []

/-! ### Requests -/

/-- What a request puts on the wire. -/
def WriteRequest.bytes : WriteRequest → Bytes
  | .command bytes _ _ _ => bytes
  | .raw bytes => bytes

/-- The request is one line, and a server reads it so. The tag is that of the command. -/
structure Tells (request : WriteRequest) (l : ClientLine) : Prop where
  line : ∃ line, request.bytes = line ++ CRLF ∧ LF ∉ line ∧ readLine line = some l
  tag : l.tag = request.command?.map tagOf

/-- The next tag is that of the next command. -/
def Session.Counted (s : Session) : Prop := s.raw.tagCounter = UInt64.ofNat (s.raw.issued + 1)

/-- What was said from one session to a later one. -/
structure Uttered (s s' : Session) (said : List ClientLine) : Prop where
  issued : s.raw.issued ≤ s'.raw.issued
  counted : s'.Counted
  lines : ∃ new, s'.raw.queued = s.raw.queued ++ new ∧ List.Forall₂ Tells new said ∧
    (new.filterMap WriteRequest.command?).Pairwise (· < ·) ∧
    ∀ i ∈ new.filterMap WriteRequest.command?, s.raw.issued ≤ i ∧ i < s'.raw.issued

variable {s s' s'' : Session} {said said' : List ClientLine}

theorem uttered_nil (h : s.Counted) (hissued : s'.raw.issued = s.raw.issued)
    (hcounter : s'.raw.tagCounter = s.raw.tagCounter) (hqueued : s'.raw.queued = s.raw.queued) :
    Uttered s s' [] where
  issued := hissued.ge
  counted := by
    rw [Session.Counted, hcounter, hissued]
    exact h
  lines := ⟨[], by simp [hqueued], .nil, by simp, by simp⟩

theorem Uttered.trans (h : Uttered s s' said) (h' : Uttered s' s'' said') :
    Uttered s s'' (said ++ said') := by
  obtain ⟨new, hnew, htells, horder, hbound⟩ := h.lines
  obtain ⟨new', hnew', htells', horder', hbound'⟩ := h'.lines
  refine ⟨h.issued.trans h'.issued, h'.counted, new ++ new', ?_, ?_, ?_, ?_⟩
  · rw [hnew', hnew, List.append_assoc]
  · exact List.rel_append htells htells'
  · rw [List.filterMap_append, List.pairwise_append]
    exact ⟨horder, horder', fun i hi j hj => (hbound i hi).2.trans_le (hbound' j hj).1⟩
  · intro i hi
    rw [List.filterMap_append, List.mem_append] at hi
    rcases hi with hi | hi
    · exact ⟨(hbound i hi).1, (hbound i hi).2.trans_le h'.issued⟩
    · exact ⟨h.issued.trans (hbound' i hi).1, (hbound' i hi).2⟩

theorem Session.Counted.allocate (h : s.Counted) :
    Session.Counted { s with raw := s.raw.allocate } := by
  show s.raw.tagCounter + 1 = UInt64.ofNat (s.raw.issued + 1 + 1)
  rw [h, UInt64.ofNat_add (s.raw.issued + 1) 1]
  rfl

/-- A tag that is spent on nothing. -/
theorem uttered_allocate (h : s.Counted) : Uttered s { s with raw := s.raw.allocate } [] where
  issued := Nat.le_succ _
  counted := h.allocate
  lines := ⟨[], by simp [RawClient.allocate], .nil, by simp, by simp⟩

/-- The request that hands over a command. -/
def Session.request (s : Session) (cmd : Bytes) (collector : Option FrameFilter) : WriteRequest :=
  let tag := formatTag s.raw.tagCounter.toNat
  .command (commandLine tag cmd) tag s.raw.issued collector

theorem tells_request (h : s.Counted) {command : Command} {cmd : Bytes} (hasks : Asks command cmd)
    (collector : Option FrameFilter) :
    Tells (s.request cmd collector) ⟨some (tagOf s.raw.issued), .command command⟩ := by
  have htag : formatTag s.raw.tagCounter.toNat = tagOf s.raw.issued := by rw [h, tagOf]
  have hatom : IsAtom (tagOf s.raw.issued) := isAtom_formatTag _
  have hcmd : LF ∉ cmd := fun hmem => (hasks.noBreaks LF hmem).2.1 rfl
  refine ⟨⟨tagOf s.raw.issued ++ SP :: cmd, ?_, ?_, ?_⟩, rfl⟩
  · simp [Session.request, WriteRequest.bytes, commandLine, htag]
  · rw [List.mem_append, List.mem_cons, not_or, not_or]
    exact ⟨hatom.not_mem (by decide), by decide, hcmd⟩
  · exact readLine_command hatom hasks.reads

theorem tells_raw {line : Bytes} (hsp : SP ∉ line) (hlf : LF ∉ line) :
    Tells (.raw (line ++ CRLF)) ⟨none, .data line⟩ :=
  ⟨⟨line, rfl, hlf, readLine_data hsp⟩, rfl⟩

/-- One command. -/
theorem uttered_afterCommand (h : s.Counted) {command : Command} {cmd : Bytes}
    (hasks : Asks command cmd) (collector : Option FrameFilter) (capabilities : Capabilities) :
    Uttered s { RawClient.afterCommand s cmd collector with capabilities }
      [⟨some (tagOf s.raw.issued), .command command⟩] where
  issued := Nat.le_succ _
  counted := h.allocate
  lines := by
    refine ⟨[s.request cmd collector], rfl, .cons (tells_request h hasks collector) .nil, ?_, ?_⟩
    · exact List.pairwise_singleton _ _
    · intro i hi
      obtain rfl : i = s.raw.issued := List.mem_singleton.mp hi
      exact ⟨le_rfl, Nat.lt_succ_self _⟩

/-- One line that is no command. -/
theorem uttered_push (h : s.Counted) {line : Bytes} (hsp : SP ∉ line) (hlf : LF ∉ line) :
    Uttered s { s with raw := s.raw.push (.raw (line ++ CRLF)) } [⟨none, .data line⟩] where
  issued := le_rfl
  counted := h
  lines := by
    refine ⟨[.raw (line ++ CRLF)], rfl, .cons (tells_raw hsp hlf) .nil, ?_, ?_⟩
    · exact List.Pairwise.nil
    · intro i hi
      cases hi

/-! ### What a call says -/

theorem Exchanges.uttered {command : Command} {ok : Bool} (h : Exchanges command s ok s')
    (hs : s.Counted) :
    ∃ said, Uttered s s' said ∧ said.map (·.said) <+: [.command command] := by
  cases h with
  | lost => exact ⟨[], uttered_allocate hs, List.nil_prefix⟩
  | sent hasks => exact ⟨_, uttered_afterCommand hs hasks _ _, List.prefix_rfl⟩

/-- A SASL response holds neither a space nor a line feed. -/
theorem base64Encode_plain (bytes : Bytes) :
    SP ∉ Session.base64Encode bytes ∧ LF ∉ Session.base64Encode bytes :=
  ⟨Session.not_mem_base64Encode (by decide +kernel) bytes,
    Session.not_mem_base64Encode (by decide +kernel) bytes⟩

theorem opened_capabilities (cmd : Bytes) (collector : Option FrameFilter)
    (response : Option Bytes) :
    (opened s cmd collector response).capabilities = s.capabilities := by
  cases response <;> rfl

/-- A command, and the response it calls for. -/
theorem uttered_opened {t : Transport} {p q : Phase} (op : Operation t p q) (hs : s.Counted)
    (hop : op.authenticates = true) {cmd : Bytes} (hasks : Asks op.command cmd)
    (collector : Option FrameFilter) (capabilities : Capabilities) :
    ∃ said, Uttered s { opened s cmd collector op.response? with capabilities } said ∧
      said.map (·.said) ++ [.command .capability] = op.script := by
  cases op with
  | login user pass => exact ⟨_, uttered_afterCommand hs hasks collector capabilities, rfl⟩
  | authenticatePlain user pass =>
    have hfirst := uttered_afterCommand hs hasks collector capabilities
    obtain ⟨hsp, hlf⟩ := base64Encode_plain (0 :: (user.bytes ++ 0 :: pass.bytes))
    exact ⟨_, hfirst.trans (uttered_push hfirst.counted hsp hlf), rfl⟩
  | _ => cases hop

/-- **One call** says the lines of its script up to some point. -/
theorem Course.uttered {t : Transport} {p q : Phase} {op : Operation t p q} {ok : Bool}
    (h : Course op s ok s') (hs : s.Counted) :
    ∃ said, Uttered s s' said ∧ said.map (·.said) <+: op.script := by
  cases h with
  | refused => exact ⟨[], uttered_nil hs rfl rfl rfl, List.nil_prefix⟩
  | exchange _ h =>
    obtain ⟨said, hsaid, hprefix⟩ := h.uttered hs
    refine ⟨said, hsaid, hprefix.trans ?_⟩
    cases op <;> simp [Operation.script, Operation.command]
  | @responded cmd collector capabilities ok hop hasks =>
    obtain ⟨said, hsaid, hscript⟩ := uttered_opened op hs hop hasks collector capabilities
    exact ⟨said, hsaid, hscript ▸ List.prefix_append _ _⟩
  | @refreshed cmd collector ok s' hop hasks _ _ h =>
    obtain ⟨said, hsaid, hscript⟩ := uttered_opened op hs hop hasks collector s.capabilities
    rw [← opened_capabilities cmd collector op.response?] at hsaid
    have hsaid : Uttered s (opened s cmd collector op.response?) said := hsaid
    obtain ⟨rest, hrest, hprefix⟩ := h.uttered hsaid.counted
    refine ⟨said ++ rest, hsaid.trans hrest, ?_⟩
    rw [List.map_append, ← hscript]
    exact (List.prefix_append_right_inj _).mpr hprefix

/-- `stop` queues the `DONE`, or nothing. -/
theorem IdleHandle.stop_cases (handle : IdleHandle) (s : Session) :
    (handle.stop s).2 = s ∨
      (handle.stop s).2 = { s with raw := s.raw.push (.raw (ascii "DONE" ++ CRLF)) } := by
  rw [IdleHandle.stop]
  cases haccepted : (s.raw.answers handle.command).rawAccepted with
  | false =>
    rw [run_bind_error (sendSecret_refused haccepted)]
    exact .inl rfl
  | true =>
    rw [run_bind_ok (sendSecret_accepted haccepted)]
    cases handle.reply.await <;> exact .inr rfl

/-- One step of a caller. -/
theorem Caller.uttered_step {t : Transport} {a : Caller.Action t} {c c' : Caller}
    (hstep : Caller.step a c = some c') (hc : c.session.Counted) :
    ∃ said, Uttered c.session c'.session said ∧ said.map (·.said) <+: a.script := by
  cases a with
  | drop k =>
    cases hstep
    exact ⟨[], uttered_nil hc rfl rfl rfl, List.nil_prefix⟩
  | @call p q op =>
    change (if c.phase = some p then _ else none) = some c' at hstep
    split at hstep
    · cases hstep
      exact (course_of_run op c.session).uttered hc
    · cases hstep
  | stop k =>
    obtain ⟨handle, -, rfl⟩ := Option.map_eq_some_iff.mp hstep
    change ∃ said, Uttered c.session (handle.stop c.session).2 said ∧ _
    rcases handle.stop_cases c.session with hsame | hdone
    · rw [hsame]
      exact ⟨[], uttered_nil hc rfl rfl rfl, List.nil_prefix⟩
    · rw [hdone]
      exact ⟨_, uttered_push hc (by decide) (by decide), List.prefix_rfl⟩

/-! ### Histories -/

/-- The calls one after the other, each saying a part of its script. -/
theorem Caller.uttered_run {t : Transport} {actions : List (Caller.Action t)} {c c' : Caller}
    (hrun : runMeeting Caller.step (fun _ _ => True) actions c = some c')
    (hc : c.session.Counted) :
    ∃ lines : List (List ClientLine), Uttered c.session c'.session lines.flatten ∧
      List.Forall₂ (fun (a : Caller.Action t) said => said.map (·.said) <+: a.script)
        actions lines := by
  induction actions generalizing c with
  | nil =>
    cases hrun
    exact ⟨[], uttered_nil hc rfl rfl rfl, .nil⟩
  | cons a actions ih =>
    rw [runMeeting, if_pos trivial] at hrun
    obtain ⟨next, hstep, hrun⟩ := Option.bind_eq_some_iff.mp hrun
    obtain ⟨said, hsaid, hscript⟩ := Caller.uttered_step hstep hc
    obtain ⟨lines, hlines, hscripts⟩ := ih hrun hsaid.counted
    exact ⟨said :: lines, hsaid.trans hlines, .cons hscript hscripts⟩

/-- Requests that are lines are read as these lines. -/
theorem readStream_of_tells {requests : List WriteRequest}
    (h : List.Forall₂ Tells requests said) :
    readStream (requests.flatMap WriteRequest.bytes) = some said := by
  have hlines : ∃ lines : List (Bytes × ClientLine),
      (∀ l ∈ lines, LF ∉ l.1 ∧ readLine l.1 = some l.2) ∧ lines.map (·.2) = said ∧
      lines.flatMap (fun l => l.1 ++ CRLF) = requests.flatMap WriteRequest.bytes := by
    induction h with
    | nil => exact ⟨[], by simp, rfl, rfl⟩
    | @cons request l requests said hl _ ih =>
      obtain ⟨lines, hall, hsaid, hbytes⟩ := ih
      obtain ⟨line, hline, hlf, hread⟩ := hl.line
      refine ⟨(line, l) :: lines, List.forall_mem_cons.mpr ⟨⟨hlf, hread⟩, hall⟩, ?_, ?_⟩
      · rw [List.map_cons, hsaid]
      · rw [List.flatMap_cons, List.flatMap_cons, hbytes, hline]
  obtain ⟨lines, hall, rfl, hbytes⟩ := hlines
  rw [← hbytes]
  exact readStream_flatMap hall

theorem tags_of_tells {requests : List WriteRequest} (h : List.Forall₂ Tells requests said) :
    said.filterMap (·.tag) = (requests.filterMap WriteRequest.command?).map tagOf := by
  induction h with
  | nil => rfl
  | @cons request l requests said hl _ ih =>
    rw [List.filterMap_cons, List.filterMap_cons, hl.tag, ih]
    cases request.command? <;> rfl

/-- A search for a text that looks like the end of its command and the start of another, an `IDLE`
and its end. -/
def sneakyHistory : List (Caller.Action .tls) :=
  [.call (.uidSearch ⟨.not (.subject ⟨ascii "\") A0002 LOGOUT", rfl⟩)⟩ :
      Operation .tls .selected .selected),
    .call (.idle : Operation .tls .selected .selected), .stop 0]

/-- What the server makes of it. -/
example : ((runMeeting Caller.step (fun _ _ => True) sneakyHistory grantedCaller).bind fun c =>
    readStream (c.session.raw.queued.flatMap WriteRequest.bytes)) = some
      [⟨some (ascii "A0001"), .command (.search true [.atom (ascii "NOT"), .space, .lparen,
          .atom (ascii "SUBJECT"), .space, .quoted ⟨ascii "\\\") A0002 LOGOUT", rfl⟩, .rparen])⟩,
        ⟨some (ascii "A0002"), .command .idle⟩, ⟨none, .data (ascii "DONE")⟩] := by
  decide +kernel

end ImapRs
