import ImapRs.Client.Session

/-!
# One call, one command line

What a session hands to the write loop, whatever its arguments are. A command line that held a line
break would end early and start a second command; one that ended in a literal announcement would
make the server take the next command for data. No argument of any method can do either.

Every command ends in a quote or a parenthesis, or holds no opening brace, or is a constant, so it
cannot end in a literal announcement; line breaks are refused by `enqueueCommand` itself, before a
tag is allocated.

## Main definitions

* `AnnouncesLiteral` — the line ends in an announced literal
* `OneLine` — a request is one line

## Main results

* `operation_one_line` — every method is refused without a trace, or queues single lines only
-/

namespace ImapRs

open Incremental Transition

/-! ### Single lines -/

/-- No byte of the line ends it or is forbidden in it. -/
def NoBreaks (line : Bytes) : Prop := ∀ b ∈ line, b ≠ CR ∧ b ≠ LF ∧ b ≠ 0

/-- The line ends in `{n}` or `{n+}`. -/
def AnnouncesLiteral (line : Bytes) : Prop :=
  ∃ start digits, digits ≠ [] ∧ digits.all isAsciiDigit = true ∧
    (line = start ++ byte '{' :: (digits ++ [byte '}']) ∨
      line = start ++ byte '{' :: (digits ++ [byte '+', byte '}']))

/-- The request is one line: a tag, a command and CRLF, or a line and CRLF without a tag. -/
def OneLine : WriteRequest → Prop
  | .command bytes tag _ _ => ∃ (n : UInt64) (cmd : Bytes), tag = formatTag n.toNat ∧
      bytes = commandLine tag cmd ∧ NoBreaks cmd ∧ ¬ AnnouncesLiteral cmd
  | .raw bytes => ∃ line, bytes = line ++ CRLF ∧ NoBreaks line

theorem noBreaks_iff (line : Bytes) : NoBreaks line ↔ hasLineBreaks line = false := by
  simp [NoBreaks, hasLineBreaks, and_assoc]

theorem NoBreaks.append {a b : Bytes} (ha : NoBreaks a) (hb : NoBreaks b) : NoBreaks (a ++ b) :=
  fun x hx => (List.mem_append.mp hx).elim (ha x) (hb x)

theorem noBreaks_of_not_mem {line : Bytes} (h : ∀ c ∈ [CR, LF, 0], c ∉ line) : NoBreaks line := by
  intro b hb
  refine ⟨?_, ?_, ?_⟩ <;> rintro rfl <;> exact h _ (by simp) hb

instance : DecidablePred NoBreaks := fun line => decidable_of_iff _ (noBreaks_iff line).symm

/-- A line that does not end in a brace. -/
def EndsUnbraced (line : Bytes) : Prop := line.getLast? ≠ some (byte '}')

instance : DecidablePred EndsUnbraced := fun line =>
  inferInstanceAs (Decidable (line.getLast? ≠ some (byte '}')))

theorem EndsUnbraced.append {a b : Bytes} (ha : EndsUnbraced a) (hb : EndsUnbraced b) :
    EndsUnbraced (a ++ b) := by
  rw [EndsUnbraced, List.getLast?_append]
  cases hlast : b.getLast? with
  | none => simpa [EndsUnbraced, hlast] using ha
  | some c => simpa [EndsUnbraced, hlast] using hb

/-- Only the end counts. -/
theorem EndsUnbraced.append_right {a b : Bytes} (hne : b ≠ []) (hb : EndsUnbraced b) :
    EndsUnbraced (a ++ b) := by
  rwa [EndsUnbraced, List.getLast?_append_of_ne_nil _ hne]

theorem EndsUnbraced.cons {c : UInt8} {b : Bytes} (hc : c ≠ byte '}') (hb : EndsUnbraced b) :
    EndsUnbraced (c :: b) :=
  EndsUnbraced.append (a := [c]) (by simpa [EndsUnbraced] using hc) hb

theorem AnnouncesLiteral.getLast? {line : Bytes} (h : AnnouncesLiteral line) :
    line.getLast? = some (byte '}') := by
  obtain ⟨start, digits, -, -, rfl | rfl⟩ := h <;>
  · rw [List.getLast?_append, List.getLast?_cons]
    simp

theorem AnnouncesLiteral.mem {line : Bytes} (h : AnnouncesLiteral line) : byte '{' ∈ line := by
  obtain ⟨start, digits, -, -, rfl | rfl⟩ := h <;> simp

theorem EndsUnbraced.not_announces {line : Bytes} (h : EndsUnbraced line) :
    ¬ AnnouncesLiteral line :=
  fun ha => h ha.getLast?

/-! ### What arguments turn into -/

theorem quote_endsUnbraced (text : Bytes) : EndsUnbraced (quote text) := by
  rw [EndsUnbraced, quote, ← List.cons_append, List.getLast?_append]
  simp
  decide

theorem imapQuoted_endsUnbraced {s : Str} {quoted : Bytes} (h : imapQuoted s = .ok quoted) :
    EndsUnbraced quoted := by
  rw [imapQuoted] at h
  split at h
  · cases h
  · cases h
    exact quote_endsUnbraced s.bytes

theorem joinSp_endsUnbraced {parts : List Bytes} (h : ∀ part ∈ parts, EndsUnbraced part) :
    EndsUnbraced (joinSp parts) := by
  induction parts with
  | nil => simp [joinSp, EndsUnbraced]
  | cons part parts ih =>
    have htail := ih fun b hb => h b (List.mem_cons_of_mem part hb)
    cases parts with
    | nil => simpa [joinSp] using h part List.mem_cons_self
    | cons next parts =>
      have hpart := h part List.mem_cons_self
      rw [joinSp, List.intercalate_cons_cons, List.append_assoc]
      exact hpart.append (.cons (by decide) htail)

mutual

theorem toImapString_endsUnbraced (key : SearchKey) : EndsUnbraced key.toImapString := by
  match key with
  | .from_ s | .to s | .subject s | .body s | .text s =>
    rw [SearchKey.toImapString, textKey]
    exact .append (by decide) (.cons (by decide) (quote_endsUnbraced s.bytes))
  | .all | .answered | .deleted | .draft | .flagged | .recent | .seen | .unanswered | .undeleted
  | .undraft | .unflagged | .unseen =>
    rw [SearchKey.toImapString]
    decide
  | .and keys =>
    rw [SearchKey.toImapString]
    exact joinSp_endsUnbraced (toImapStrings_endsUnbraced keys)
  | .or left right =>
    have hleft := toImapString_endsUnbraced left
    have hright := toImapString_endsUnbraced right
    rw [SearchKey.toImapString]
    exact .append (.append (.append (.append (by decide) hleft) (by decide)) hright) (by decide)
  | .not key =>
    have hkey := toImapString_endsUnbraced key
    rw [SearchKey.toImapString]
    exact .append (.append (by decide) hkey) (by decide)

theorem toImapStrings_endsUnbraced (keys : List SearchKey) :
    ∀ part ∈ SearchKey.toImapStrings keys, EndsUnbraced part := by
  match keys with
  | [] => simp [SearchKey.toImapStrings]
  | key :: keys =>
    intro part hpart
    rcases List.mem_cons.mp hpart with rfl | hpart
    · exact toImapString_endsUnbraced key
    · exact toImapStrings_endsUnbraced keys part hpart

end

/-- A line without an opening brace. -/
def NoBrace (line : Bytes) : Prop := byte '{' ∉ line

instance : DecidablePred NoBrace := fun line => inferInstanceAs (Decidable (byte '{' ∉ line))

theorem NoBrace.not_announces {line : Bytes} (h : NoBrace line) : ¬ AnnouncesLiteral line :=
  fun ha => h ha.mem

/-! ### What a checked argument cannot hold -/

section Foreign

variable {c : UInt8}

theorem not_mem_intercalate {sep : UInt8} (hsep : c ≠ sep) {parts : List Bytes}
    (h : ∀ part ∈ parts, c ∉ part) : c ∉ [sep].intercalate parts := by
  induction parts with
  | nil => simp
  | cons part parts ih =>
    have htail := ih fun b hb => h b (List.mem_cons_of_mem part hb)
    have hpart := h part List.mem_cons_self
    cases parts with
    | nil => simpa using hpart
    | cons next parts =>
      rw [List.intercalate_cons_cons]
      simp only [List.mem_append, List.mem_singleton, not_or]
      exact ⟨⟨hpart, hsep⟩, htail⟩

/-- What is in a line is the separator or in one of the parts. -/
theorem not_mem_of_splitOn {line : Bytes} {sep : UInt8} (hsep : c ≠ sep)
    (h : ∀ part ∈ line.splitOn sep, c ∉ part) : c ∉ line := by
  have hjoin : [sep].intercalate (line.splitOn sep) = line := List.intercalate_splitOn sep
  rw [← hjoin]
  exact not_mem_intercalate hsep h

/-- A byte that no sequence set holds. -/
def Foreign (c : UInt8) : Prop :=
  isAsciiDigit c = false ∧ c ≠ byte '*' ∧ c ≠ byte ':' ∧ c ≠ byte ','

instance : DecidablePred Foreign := fun _ => inferInstanceAs (Decidable (_ ∧ _))

theorem not_mem_of_isSeqNumber (hc : Foreign c) {number : Bytes} (h : isSeqNumber number = true) :
    c ∉ number := by
  intro hmem
  rw [isSeqNumber, Bool.or_eq_true, beq_iff_eq] at h
  rcases h with rfl | h
  · exact hc.2.1 (List.mem_singleton.mp hmem)
  · rw [Bool.and_eq_true, Bool.and_eq_true, List.all_eq_true] at h
    cases hc.1.symm.trans (h.1.2 c hmem)

theorem not_mem_of_isSeqRange (hc : Foreign c) {range : Bytes} (h : isSeqRange range = true) :
    c ∉ range := by
  refine not_mem_of_splitOn hc.2.2.1 ?_
  rw [isSeqRange] at h
  split at h
  next only hsplit =>
    rw [hsplit]
    simpa using not_mem_of_isSeqNumber hc h
  next first last hsplit =>
    rw [Bool.and_eq_true] at h
    rw [hsplit]
    simpa using ⟨not_mem_of_isSeqNumber hc h.1, not_mem_of_isSeqNumber hc h.2⟩
  · cases h

theorem not_mem_of_sequenceSet (hc : Foreign c) {set : Str} {bytes : Bytes}
    (h : sequenceSet set = .ok bytes) : c ∉ bytes := by
  rw [sequenceSet] at h
  split at h
  next hset =>
    cases h
    rw [Bool.and_eq_true, List.all_eq_true] at hset
    exact not_mem_of_splitOn hc.2.2.2 fun part hpart => not_mem_of_isSeqRange hc (hset.2 part hpart)
  · cases h

theorem not_mem_of_fetchItems (hc : (isPrintableAscii c && c != byte '{') = false) {items : Str}
    {bytes : Bytes} (h : fetchItems items = .ok bytes) : c ∉ bytes := by
  intro hmem
  rw [fetchItems] at h
  split at h
  next hitems =>
    cases h
    rw [Bool.and_eq_true, Bool.and_eq_true, List.all_eq_true] at hitems
    cases hc.symm.trans (hitems.1.2 c hmem)
  · cases h

/-- A byte foreign to both arguments is not in a `FETCH` command. -/
theorem not_mem_of_fetchCommand (hset : Foreign c)
    (hitems : (isPrintableAscii c && c != byte '{') = false) (hverb : c ∉ ascii "FETCH ")
    {set items : Str} {cmd : Bytes} (h : Session.fetchCommand set items = .ok cmd) : c ∉ cmd := by
  have hsp : c ≠ SP := fun hsp => hverb (by rw [hsp]; decide)
  rw [Session.fetchCommand] at h
  cases hset' : sequenceSet set with
  | error e =>
    rw [hset'] at h
    cases h
  | ok set =>
    cases hitems' : fetchItems items with
    | error e =>
      rw [hset', hitems'] at h
      cases h
    | ok items =>
      rw [hset', hitems'] at h
      cases h
      simp only [List.mem_append, List.mem_cons, not_or]
      exact ⟨⟨hverb, not_mem_of_sequenceSet hset hset'⟩, hsp, not_mem_of_fetchItems hitems hitems'⟩

end Foreign

theorem fetchCommand_not_announces {set items : Str} {cmd : Bytes}
    (h : Session.fetchCommand set items = .ok cmd) : ¬ AnnouncesLiteral cmd :=
  NoBrace.not_announces (not_mem_of_fetchCommand (by decide) (by decide) (by decide) h)

theorem fetchCommand_noBreaks {set items : Str} {cmd : Bytes}
    (h : Session.fetchCommand set items = .ok cmd) : NoBreaks cmd := by
  refine noBreaks_of_not_mem fun c hc => ?_
  simp only [List.mem_cons, List.not_mem_nil, or_false] at hc
  rcases hc with rfl | rfl | rfl <;>
    exact not_mem_of_fetchCommand (by decide) (by decide) (by decide) h

theorem storeCommand_not_announces {verb : String} {set : Str} {action : StoreAction}
    {flags : List Flag} {cmd : Bytes} (h : Session.storeCommand verb set action flags = .ok cmd) :
    ¬ AnnouncesLiteral cmd := by
  rw [Session.storeCommand] at h
  cases hflags : flags.forM checkFlag with
  | error e =>
    rw [hflags] at h
    cases h
  | ok u =>
    cases hset : sequenceSet set with
    | error e =>
      rw [hflags, hset] at h
      cases h
    | ok set =>
      rw [hflags, hset] at h
      cases h
      have hend : EndsUnbraced (action.toImapPrefix false ++ ascii " (" ++
          joinSp (flags.map Flag.toBytes) ++ ascii ")") := .append_right (by decide) (by decide)
      exact (EndsUnbraced.append_right (by simp) (.cons (by decide) hend)).not_announces

/-! ### What a call leaves behind -/

/-- The request is not a command, or one with a number from `lo` up to `hi`. -/
def Numbered (lo hi : ℕ) : WriteRequest → Prop
  | .command _ _ i _ => lo ≤ i ∧ i < hi
  | .raw _ => True

theorem Numbered.mono {lo hi lo' hi' : ℕ} {request : WriteRequest} (h : Numbered lo hi request)
    (hlo : lo' ≤ lo) (hhi : hi ≤ hi') : Numbered lo' hi' request := by
  cases request with
  | raw bytes => trivial
  | command bytes tag i collector => exact ⟨hlo.trans h.1, h.2.trans_le hhi⟩

/-- From one session to another, nothing was handed to the write loop but single lines. -/
def SentLines (s s' : Session) : Prop :=
  s.raw.issued ≤ s'.raw.issued ∧
    ∃ new, s'.raw.queued = s.raw.queued ++ new ∧
      ∀ request ∈ new, OneLine request ∧ Numbered s.raw.issued s'.raw.issued request

/-- The same, and at least one tag was allocated. -/
def IssuedLines (s s' : Session) : Prop :=
  s.raw.issued < s'.raw.issued ∧
    ∃ new, s'.raw.queued = s.raw.queued ++ new ∧
      ∀ request ∈ new, OneLine request ∧ Numbered s.raw.issued s'.raw.issued request

theorem SentLines.of_raw {s s' : Session} (h : s'.raw = s.raw) : SentLines s s' := by
  rw [SentLines, h]
  exact ⟨le_rfl, [], (List.append_nil _).symm, by simp⟩

theorem IssuedLines.sent {s s' : Session} (h : IssuedLines s s') : SentLines s s' :=
  ⟨h.1.le, h.2⟩

theorem SentLines.trans {s s' s'' : Session} (h : SentLines s s') (h' : SentLines s' s'') :
    SentLines s s'' := by
  obtain ⟨hle, new, hnew, hall⟩ := h
  obtain ⟨hle', new', hnew', hall'⟩ := h'
  refine ⟨hle.trans hle', new ++ new', by rw [hnew', hnew, List.append_assoc], ?_⟩
  intro request hrequest
  rcases List.mem_append.mp hrequest with hmem | hmem
  · exact (hall request hmem).imp_right (·.mono le_rfl hle')
  · exact (hall' request hmem).imp_right (·.mono hle le_rfl)

theorem IssuedLines.trans {s s' s'' : Session} (h : IssuedLines s s') (h' : SentLines s' s'') :
    IssuedLines s s'' :=
  ⟨h.1.trans_le h'.1, (h.sent.trans h').2⟩

/-- A command that passes the check: its tag is allocated, and its line is the only thing queued. -/
theorem enqueueCommand_between {cmd : Bytes} (hbreaks : NoBreaks cmd)
    (hcmd : ¬ AnnouncesLiteral cmd) (collector : Option FrameFilter) :
    Between IssuedLines (RawClient.enqueueCommand cmd collector) := by
  intro s
  rcases RawClient.enqueueCommand_cases cmd collector s with ⟨h, -⟩ | ⟨-, hrun⟩ | ⟨-, hrun⟩
  · rw [(noBreaks_iff cmd).mp hbreaks] at h
    cases h
  · rw [hrun]
    exact ⟨Nat.lt_succ_self _, [], (List.append_nil _).symm, by simp⟩
  · rw [hrun]
    refine ⟨Nat.lt_succ_self _, [_], rfl, ?_⟩
    intro request hrequest
    rw [List.mem_singleton.mp hrequest]
    exact ⟨⟨s.raw.tagCounter, cmd, rfl, rfl, hbreaks, hcmd⟩, le_rfl, Nat.lt_succ_self _⟩

/-- **One command.** It is refused, or its line is the only thing queued. -/
theorem enqueueCommand_guarded {cmd : Bytes} (hcmd : ¬ AnnouncesLiteral cmd)
    (collector : Option FrameFilter) :
    Guarded IssuedLines (RawClient.enqueueCommand cmd collector) := by
  intro s
  cases hbreaks : hasLineBreaks cmd with
  | false => exact .inr (enqueueCommand_between ((noBreaks_iff cmd).mpr hbreaks) hcmd collector s)
  | true => exact .inl ⟨_, run_lift_bind_error (if_pos hbreaks)⟩

section Calls

variable {α : Type} {p : SessionM α} {cmd : Bytes}

/-- What does not touch the client sends nothing. -/
theorem between_of_raw (h : ∀ s, (p s).2.raw = s.raw) : Between SentLines p :=
  fun s => .of_raw (h s)

theorem between_of_guarded (h : Guarded IssuedLines p) : Between SentLines p := by
  intro s
  rcases h s with ⟨e, he⟩ | hissued
  · rw [he]
    exact .of_raw rfl
  · exact hissued.sent

theorem executeCommand_between (hbreaks : NoBreaks cmd) (hcmd : ¬ AnnouncesLiteral cmd) :
    Between IssuedLines (RawClient.executeCommand cmd) := by
  refine (enqueueCommand_between hbreaks hcmd none).bind .trans fun i => between_of_raw fun s => ?_
  rw [run_get_bind, run_lift]

theorem executeCommand_guarded (hcmd : ¬ AnnouncesLiteral cmd) :
    Guarded IssuedLines (RawClient.executeCommand cmd) := by
  refine (enqueueCommand_guarded hcmd none).bind .trans fun i => between_of_raw fun s => ?_
  rw [run_get_bind, run_lift]

theorem executeStreaming_guarded (hcmd : ¬ AnnouncesLiteral cmd) (wants : FrameFilter) :
    Guarded IssuedLines (RawClient.executeStreaming cmd wants) :=
  (enqueueCommand_guarded hcmd (some wants)).bind .trans fun _ => between_of_raw fun _ => rfl

/-- A method that sends one command and looks at the answer. -/
theorem executeCommand_bind_guarded {q : ServerFrame → SessionM α} (hcmd : ¬ AnnouncesLiteral cmd)
    (hq : ∀ frame, Between SentLines (q frame)) :
    Guarded IssuedLines (RawClient.executeCommand cmd >>= q) :=
  (executeCommand_guarded hcmd).bind .trans hq

theorem between_pure (a : α) : Between SentLines (pure a : SessionM α) :=
  between_of_raw fun _ => rfl

/-- A method that does nothing with the answer but return something of it. -/
theorem executeCommand_map_guarded (hcmd : ¬ AnnouncesLiteral cmd) (f : ServerFrame → α) :
    Guarded IssuedLines (do let frame ← RawClient.executeCommand cmd; return f frame) :=
  executeCommand_bind_guarded hcmd fun frame => between_pure (f frame)

/-- A method that streams its frames, then fails or returns something of them. -/
theorem executeStreaming_map_guarded (hcmd : ¬ AnnouncesLiteral cmd) (wants : FrameFilter)
    (f : List ServerFrame → α) :
    Guarded IssuedLines (do
      let (frames, reply) ← RawClient.executeStreaming cmd wants
      let _ ← reply
      return f frames) := by
  refine (executeStreaming_guarded hcmd wants).bind .trans fun v => between_of_raw fun s => ?_
  obtain ⟨frames, reply⟩ := v
  cases reply <;> rfl

end Calls

/-! ### The methods -/

namespace Session

theorem refreshCapabilities_guarded : Guarded IssuedLines refreshCapabilities := by
  refine (executeStreaming_guarded (NoBrace.not_announces (by decide)) _).bind .trans
    fun v => between_of_raw fun s => ?_
  obtain ⟨frames, reply⟩ := v
  cases reply <;> rfl

theorem refreshCapabilitiesFromFrame_between (frame : Bytes) :
    Between SentLines (refreshCapabilitiesFromFrame frame) := by
  intro s
  rw [refreshCapabilitiesFromFrame, run_get_bind]
  have hrefresh := between_of_guarded refreshCapabilities_guarded s
  cases parseResponse frame with
  | error e => exact hrefresh
  | ok v =>
    dsimp only
    split
    · exact .of_raw rfl
    · exact hrefresh

theorem logout_guarded : Guarded IssuedLines logout := by
  intro s
  have hissued : IssuedLines s (RawClient.executeCommand (ascii "LOGOUT") s).2 :=
    executeCommand_between (by decide) (NoBrace.not_announces (by decide)) s
  -- whatever the reply is taken for, the client is where the command left it
  have hsame : (logout s).2 = (RawClient.executeCommand (ascii "LOGOUT") s).2 := by
    rw [logout]
    split
    next h => rw [h]
    next h => rw [h]
    next h => rw [h]
  exact .inr (hsame ▸ hissued)

theorem login_guarded (user pass : Str) : Guarded IssuedLines (login user pass) := by
  refine .lift_bind fun userQ _ => .lift_bind fun passQ hpass => ?_
  have hend : EndsUnbraced (loginCommand userQ passQ) :=
    .append_right (by simp) (.cons (by decide) (imapQuoted_endsUnbraced hpass))
  exact executeCommand_bind_guarded hend.not_announces fun frame =>
    refreshCapabilitiesFromFrame_between frame.bytes

theorem base64Encode_noBreaks (bytes : Bytes) : NoBreaks (base64Encode bytes) := by
  have hforeign : ∀ c ∈ [CR, LF, 0], c ∉ byte '=' :: ALPHABET := by decide +kernel
  exact noBreaks_of_not_mem fun c hc => not_mem_base64Encode (hforeign c hc) bytes

/-- The client response of a SASL exchange is one line. -/
theorem saslPlainLine_oneLine (user pass : Str) : OneLine (.raw (saslPlainLine user pass)) :=
  ⟨_, rfl, base64Encode_noBreaks _⟩

theorem authenticatePlain_guarded (user pass : Str) :
    Guarded IssuedLines (authenticatePlain user pass) := by
  refine .ite (fun _ => .throw _) fun _ => .ite (fun _ => .throw _) fun _ => ?_
  refine (enqueueCommand_guarded (NoBrace.not_announces (by decide)) _).bind .trans fun i => ?_
  refine Between.bind .trans (between_of_raw fun s => ?_) fun reply => ?_
  · rw [awaitContinuation, run_get_bind, run_lift]
  refine Between.bind .trans (fun s => ?_) fun _ => ?_
  · rw [RawClient.sendSecret, run_get_bind]
    split
    · exact ⟨le_rfl, [_], rfl, by simpa using ⟨saslPlainLine_oneLine user pass, trivial⟩⟩
    · exact .of_raw rfl
  refine Between.bind .trans (between_of_raw fun s => ?_) fun frame =>
    refreshCapabilitiesFromFrame_between frame.bytes
  rw [run_lift]

theorem idle_guarded : Guarded IssuedLines idle := by
  intro s
  rw [idle, run_get_bind]
  refine Guarded.ite (fun _ => .throw _) (fun _ => ?_) s
  refine (enqueueCommand_guarded (NoBrace.not_announces (by decide)) _).bind .trans fun i => ?_
  refine Between.bind .trans (between_of_raw fun s => ?_) fun reply => between_pure _
  rw [awaitContinuation, run_get_bind, run_lift]

theorem fetch_guarded (set items : Str) : Guarded IssuedLines (fetch set items) :=
  .lift_bind fun _ hcmd => executeStreaming_map_guarded (fetchCommand_not_announces hcmd) _ _

theorem search_not_announces {verb : Bytes} (hverb : EndsUnbraced verb) (query : SearchQuery) :
    ¬ AnnouncesLiteral (verb ++ query.build) :=
  (hverb.append (toImapString_endsUnbraced query.key)).not_announces

theorem unselect_guarded : Guarded IssuedLines unselect := by
  intro s
  rw [unselect, run_get_bind]
  exact Guarded.ite (fun _ => .throw _)
    (fun _ => executeCommand_map_guarded (NoBrace.not_announces (by decide)) _) s

theorem moveMessages_guarded (set mailbox : Str) :
    Guarded IssuedLines (moveMessages set mailbox) := by
  intro s
  rw [moveMessages, run_get_bind]
  refine Guarded.ite (fun _ => .throw _) (fun _ => ?_) s
  refine .lift_bind fun _ _ => .lift_bind fun _ hmailbox => executeCommand_map_guarded ?_ _
  exact (EndsUnbraced.append_right (by simp)
    (.cons (by decide) (imapQuoted_endsUnbraced hmailbox))).not_announces

end Session

open Session

/-- What every method does to the client. -/
theorem operation_guarded {t : Transport} {p q : Phase} (op : Operation t p q) :
    Guarded IssuedLines op.run := by
  cases op with
  | refreshCapabilities => exact refreshCapabilities_guarded
  | logout => exact logout_guarded
  | noop => exact executeCommand_map_guarded (NoBrace.not_announces (by decide)) _
  | login user pass => exact login_guarded user pass
  | authenticatePlain user pass => exact authenticatePlain_guarded user pass
  | select mailbox =>
    refine .lift_bind fun quoted hquoted => executeCommand_map_guarded ?_ _
    exact ((by decide : EndsUnbraced _).append (imapQuoted_endsUnbraced hquoted)).not_announces
  | examine mailbox =>
    refine .lift_bind fun quoted hquoted => executeCommand_map_guarded ?_ _
    exact ((by decide : EndsUnbraced _).append (imapQuoted_endsUnbraced hquoted)).not_announces
  | list reference mailboxMask =>
    refine .lift_bind fun _ _ => .lift_bind fun _ hmask => executeCommand_map_guarded ?_ _
    exact (EndsUnbraced.append_right (by simp)
      (.cons (by decide) (imapQuoted_endsUnbraced hmask))).not_announces
  | fetchRaw set items =>
    exact .lift_bind fun _ hcmd => executeCommand_map_guarded (fetchCommand_not_announces hcmd) _
  | fetch set items => exact fetch_guarded set items
  | fetchBody set => exact (fetch_guarded set _).bind .trans fun _ => between_pure _
  | search query => exact executeStreaming_map_guarded (search_not_announces (by decide) query) _ _
  | uidSearch query =>
    exact executeStreaming_map_guarded (search_not_announces (by decide) query) _ _
  | store set action flags =>
    exact .lift_bind fun _ hcmd => executeCommand_map_guarded (storeCommand_not_announces hcmd) _
  | uidStore set action flags =>
    exact .lift_bind fun _ hcmd => executeCommand_map_guarded (storeCommand_not_announces hcmd) _
  | expunge => exact executeCommand_map_guarded (NoBrace.not_announces (by decide)) _
  | closeMailbox => exact executeCommand_map_guarded (NoBrace.not_announces (by decide)) _
  | unselect => exact unselect_guarded
  | check => exact executeCommand_map_guarded (NoBrace.not_announces (by decide)) _
  | idle => exact idle_guarded
  | moveMessages set mailbox => exact moveMessages_guarded set mailbox

/-- **One call, one command line.** Whatever its arguments are, a method is refused and leaves the
session as it was, or it allocates a tag and all it hands to the write loop are single lines, none
of which announces a literal. -/
theorem operation_one_line {t : Transport} {p q : Phase} (op : Operation t p q) (s : Session) :
    (∃ e, op.run s = (.error e, s)) ∨
      (s.raw.issued < (op.run s).2.raw.issued ∧
        ∃ new, (op.run s).2.raw.queued = s.raw.queued ++ new ∧
          ∀ request ∈ new, OneLine request) := by
  rcases operation_guarded op s with hrefused | ⟨hissued, new, hqueued, hnew⟩
  · exact .inl hrefused
  · exact .inr ⟨hissued, new, hqueued, fun request hrequest => (hnew request hrequest).1⟩

/-- A command that the write loop takes is not refused: exactly its line is queued. -/
theorem executeCommand_accepted {cmd : Bytes} {s : Session} (hbreaks : NoBreaks cmd)
    (h : (s.raw.answers s.raw.issued).accepted = true) :
    (RawClient.executeCommand cmd s).2 = RawClient.afterCommand s cmd none := by
  have hrun := RawClient.enqueueCommand_accepted ((noBreaks_iff cmd).mp hbreaks) h none
  rw [RawClient.executeCommand, run_bind_ok hrun, run_get_bind, run_lift]

end ImapRs
