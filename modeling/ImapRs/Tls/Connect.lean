import ImapRs.Client.Warrants
import ImapRs.Tls.FrameReader

/-!
# Connecting over TLS

`starttls_with_connector`, `handshake_with_connector` and `finalize_session_after_handshake` of
`imap-tls/src/lib.rs`: the way from a stream to a session. The TLS library is not part of the
repository. A `TlsConnector` stands for it: whether it takes a domain for a server name, and what a
handshake on a stream comes to, which is an error or a server that speaks inside TLS.

What matters is what crosses over. The TLS library gets the stream right behind the answer to
`STARTTLS`, with no byte missing and none held back; and everything a session believes of the
server, from the first command to the last, it was told inside TLS.

## Main definitions

* `Encrypted`, `TlsConnector` — the server inside TLS, and the library that leads to it
* `finalizeSession`, `handshakeWithConnector`, `starttlsWithConnector` — the code
* `Encrypted.opening` — what the server has said when the session is handed over
* `Encrypted.Told` — a list the server has sent inside TLS before a command

## Main results

* `starttlsWithConnector_ok` — what lies behind a session that STARTTLS led to
* `connected_offered` — no extension is used that was not offered inside TLS
-/

namespace ImapRs

open Incremental Transition

/-! ### The server inside TLS -/

/-- What the server does once the stream is encrypted. -/
structure Encrypted where
  /-- The first frame for the subscribers of events, if it comes within the time it is given. -/
  greeting : Option ServerFrame
  answers : CommandId → Answer

/-- The TLS library. -/
structure TlsConnector where
  /-- `ServerName::try_from`. -/
  validName : Str → Bool
  /-- The handshake, which may also take too long. -/
  connect : Str → Conn → Except ClientError Encrypted

/-- What the greeting says of the capabilities, and whether it says anything. -/
def absorbGreeting (caps : Capabilities) (greeting : Option ServerFrame) : Capabilities × Bool :=
  match greeting with
  | some frame =>
    match parseResponse frame.bytes with
    | .ok (_, response) => caps.tryUpdateFrom response
    | .error _ => (caps, false)
  | none => (caps, false)

/-- The `CAPABILITY` round trip inside TLS. -/
def capabilityRoundTrip : SessionM Unit := do
  let (frames, reply) ← RawClient.executeStreaming (ascii "CAPABILITY")
    Capabilities.isCapabilityResponse
  modify fun s => { s with capabilities := Session.updateFrom s.capabilities frames }
  let capResp ← reply
  -- a code on the tagged OK, if there is one, is the latest
  modify fun s => { s with capabilities := Session.updateFrom s.capabilities [capResp] }

/-- `finalize_session_after_handshake`, on the session that is put together there. -/
def finalizeSession (greeting : Option ServerFrame) : SessionM Unit := do
  let s ← get
  let (capabilities, gotGreetingCaps) := absorbGreeting s.capabilities greeting
  set { s with capabilities := capabilities }
  if !gotGreetingCaps then capabilityRoundTrip else return

/-- A session that has not sent anything. -/
def Session.fresh (answers : CommandId → Answer) : Session :=
  ⟨⟨1, 0, [], answers⟩, Capabilities.none⟩

def handshakeWithConnector (connector : TlsConnector) (domain : Str) (stream : Conn) :
    Except ClientError Session :=
  if connector.validName domain then do
    let inside ← connector.connect domain stream
    match finalizeSession inside.greeting (.fresh inside.answers) with
    | (.ok (), session) => .ok session
    | (.error e, _) => .error e
  else .error (.commandFailed "Invalid domain for TLS".toList)

def starttlsWithConnector (connector : TlsConnector) (domain : Str) (stream : Conn) :
    Except ClientError Session :=
  match starttlsSteps stream with
  | (.ok (), stream) => handshakeWithConnector connector domain stream
  | (.error e, _) => .error e

/-! ### What the session is told -/

/-- The capability list of the greeting. -/
def Encrypted.greeted (inside : Encrypted) : Option (List Str) :=
  inside.greeting.bind fun frame => frame.response.capabilityList

/-- What the server has said when the session is handed over: its greeting, and the answer to
`CAPABILITY` unless the greeting makes that needless. -/
def Encrypted.opening (inside : Encrypted) : List Response :=
  inside.greeting.toList.map (·.response) ++
    if inside.greeted.isSome then []
    else ((inside.answers 0).untagged ++ (inside.answers 0).okFrame.toList).map (·.response)

/-- The lists the server has sent inside TLS before command `n`. -/
def Encrypted.Told (inside : Encrypted) (n : CommandId) (atoms : List Str) : Prop :=
  inside.greeted = some atoms ∨ ∃ i < n, ∃ frame,
    (frame ∈ (inside.answers i).untagged ∨ (inside.answers i).okFrame = some frame) ∧
    frame.response.capabilityList = some atoms

theorem absorbGreeting_eq (caps : Capabilities) (inside : Encrypted) :
    absorbGreeting caps inside.greeting = match inside.greeted with
      | some atoms => (Capabilities.fromAtoms atoms, true)
      | none => (caps, false) := by
  rw [Encrypted.greeted]
  cases inside.greeting with
  | none => rfl
  | some frame =>
    rw [absorbGreeting, frame.parses]
    exact Capabilities.tryUpdateFrom_eq caps frame.response

theorem updateAll_greeting (inside : Encrypted) (caps : Capabilities) :
    caps.updateAll (inside.greeting.toList.map (·.response))
      = (absorbGreeting caps inside.greeting).1 := by
  cases inside.greeting with
  | none => rfl
  | some frame =>
    rw [absorbGreeting, frame.parses]
    rfl

/-- What `finalize_session_after_handshake` leaves. -/
structure Finalized (inside : Encrypted) (s : Session) : Prop where
  capabilities : s.capabilities = Capabilities.none.updateAll inside.opening
  warranted : Warranted inside.answers (absorbGreeting Capabilities.none inside.greeting).1 s
  /-- Nothing was sent, or one `CAPABILITY`. -/
  queued : (inside.greeted.isSome = true ∧ s.raw.queued = []) ∨
    (inside.greeted = none ∧ ∃ request, s.raw.queued = [request] ∧
      request.asks = some .capability ∧ request.command? = some 0)

theorem warranted_fresh (answers : CommandId → Answer) (caps : Capabilities) :
    Warranted answers caps { Session.fresh answers with capabilities := caps } where
  answers_eq := rfl
  counted := rfl
  knows := .inl rfl
  offered := by simp [Session.fresh]
  invited := fun before request after h => absurd h.symm (by simp [Session.fresh])

/-- The list of the tagged OK, which comes last. -/
theorem teaches_updateFrom_ok {a : Answer} {frame : ServerFrame} (hframe : a.okFrame = some frame)
    (caps : Capabilities) :
    a.Teaches caps (Session.updateFrom
      (Session.updateFrom caps (a.streamed Capabilities.isCapabilityResponse)) [frame]) := by
  have hlast : ∀ caps, Session.updateFrom caps [frame]
      = match frame.response.capabilityList with
        | some atoms => Capabilities.fromAtoms atoms
        | none => caps := by
    intro caps
    rw [updateFrom_eq, Capabilities.updateAll_eq]
    cases hlist : frame.response.capabilityList with
    | none => simp [lastCapabilityList, hlist]
    | some atoms => simp [lastCapabilityList, hlist]
  rw [hlast]
  cases hlist : frame.response.capabilityList with
  | none => exact Session.teaches_updateFrom a caps
  | some atoms => exact .inr ⟨frame, atoms, .inr hframe, hlist, rfl⟩

theorem Capabilities.updateAll_append (caps : Capabilities) (rs rs' : List Response) :
    caps.updateAll (rs ++ rs') = (caps.updateAll rs).updateAll rs' :=
  List.foldl_append

/-- The filter keeps away nothing that counts. -/
theorem updateFrom_asked {a : Answer} {frame : ServerFrame} (hframe : a.okFrame = some frame)
    (caps : Capabilities) :
    Session.updateFrom
        (Session.updateFrom caps (a.streamed Capabilities.isCapabilityResponse)) [frame]
      = caps.updateAll ((a.untagged ++ a.okFrame.toList).map (·.response)) := by
  have hstreamed : Session.updateFrom caps (a.streamed Capabilities.isCapabilityResponse)
      = caps.updateAll (a.untagged.map (·.response)) := by
    rw [updateFrom_streamed, Capabilities.updateAll_eq]
    rfl
  rw [hstreamed, updateFrom_eq, hframe, List.map_append, Capabilities.updateAll_append]
  rfl

/-- The round trip succeeds with a tagged OK, and takes over the last list before and in it. -/
theorem capabilityRoundTrip_ok {s s' : Session} (h : capabilityRoundTrip s = (.ok (), s')) :
    ∃ frame, (s.raw.answers s.raw.issued).okFrame = some frame ∧
      s' = { RawClient.afterCommand s (ascii "CAPABILITY")
          (some Capabilities.isCapabilityResponse) with
        capabilities := Session.updateFrom (Session.updateFrom s.capabilities
          ((s.raw.answers s.raw.issued).streamed Capabilities.isCapabilityResponse)) [frame] } := by
  obtain ⟨⟨frames, reply⟩, t, hrun, h⟩ := run_bind_eq_ok h
  obtain ⟨i, t', hqueued, hrun⟩ := run_bind_eq_ok hrun
  obtain ⟨rfl, rfl⟩ := RawClient.enqueueCommand_ok hqueued
  cases hrun
  obtain ⟨_, t, hmodify, h⟩ := run_bind_eq_ok h
  cases hmodify
  obtain ⟨frame, t, hreply, h⟩ := run_bind_eq_ok h
  obtain ⟨hok, rfl⟩ := run_lift_eq_ok hreply
  cases h
  exact ⟨frame, okFrame_of_await hok, rfl⟩

theorem finalizeSession_ok {inside : Encrypted} {s : Session}
    (h : finalizeSession inside.greeting (.fresh inside.answers) = (.ok (), s)) :
    Finalized inside s := by
  rw [finalizeSession, run_get_bind] at h
  have habsorb := absorbGreeting_eq Capabilities.none inside
  have hopening : Capabilities.none.updateAll (inside.greeting.toList.map (·.response))
      = (absorbGreeting Capabilities.none inside.greeting).1 := updateAll_greeting inside _
  cases hgreeted : inside.greeted with
  | some atoms =>
    rw [hgreeted] at habsorb
    rw [show (Session.fresh inside.answers).capabilities = Capabilities.none from rfl,
      habsorb] at h
    cases h
    rw [habsorb] at hopening
    refine ⟨?_, ?_, .inl ⟨by rw [hgreeted]; rfl, rfl⟩⟩
    · rw [Encrypted.opening, hgreeted, Option.isSome_some, if_pos rfl, List.append_nil, hopening]
    · rw [habsorb]
      exact warranted_fresh inside.answers _
  | none =>
    rw [hgreeted] at habsorb
    rw [show (Session.fresh inside.answers).capabilities = Capabilities.none from rfl,
      habsorb] at h
    obtain ⟨frame, hframe, rfl⟩ := capabilityRoundTrip_ok h
    have hasks : Asks .capability (ascii "CAPABILITY") :=
      ⟨by decide, readCommand_bare (by decide : ("CAPABILITY", .capability) ∈ bareCommands)⟩
    have hfresh := warranted_fresh inside.answers Capabilities.none
    rw [habsorb] at hopening
    refine ⟨?_, ?_, .inr ⟨hgreeted, ?_⟩⟩
    · rw [Encrypted.opening, hgreeted, if_neg (by decide), Capabilities.updateAll_append, hopening]
      exact updateFrom_asked hframe _
    · rw [habsorb]
      exact hfresh.afterCommand hasks rfl _ (teaches_updateFrom_ok hframe _)
    · exact ⟨_, rfl, asks_of_tells (tells_request hfresh.counted hasks _), rfl⟩

theorem handshakeWithConnector_ok {connector : TlsConnector} {domain : Str} {stream : Conn}
    {s : Session} (h : handshakeWithConnector connector domain stream = .ok s) :
    connector.validName domain = true ∧
      ∃ inside, connector.connect domain stream = .ok inside ∧ Finalized inside s := by
  rw [handshakeWithConnector] at h
  split at h
  next hvalid =>
    refine ⟨hvalid, ?_⟩
    cases hconnect : connector.connect domain stream with
    | error e =>
      rw [hconnect] at h
      cases h
    | ok inside =>
      rw [hconnect] at h
      dsimp only [bind, Except.bind] at h
      cases hrun : finalizeSession inside.greeting (.fresh inside.answers) with
      | mk result session =>
        rw [hrun] at h
        cases result with
        | error e => cases h
        | ok _ =>
          cases h
          exact ⟨inside, rfl, finalizeSession_ok hrun⟩
  · cases h

/-! ### What the TLS library is handed -/

/-- The bytes of a read. -/
def Event.data? : Event → Option Bytes
  | .read bytes => some bytes
  | .write _ => none

/-- What was read so far. -/
def Conn.received (c : Conn) : Bytes := (c.log.filterMap Event.data?).flatten

/-- From `c` to `c'` no byte of the stream is lost, and none is added. -/
def Conserves (c c' : Conn) : Prop := c'.received ++ c'.incoming = c.received ++ c.incoming

theorem Conserves.refl (c : Conn) : Conserves c c := rfl

theorem Conserves.trans {a b c : Conn} (h : Conserves a b) (h' : Conserves b c) : Conserves a c :=
  Eq.trans h' h

theorem received_snoc (c : Conn) (e : Event) :
    (c.log ++ [e]).filterMap Event.data? = c.log.filterMap Event.data? ++ e.data?.toList := by
  rw [List.filterMap_append]
  cases e <;> rfl

theorem readFrameFrom_conserves (c : Conn) (cuts : List ℕ) :
    Conserves c (readFrameFrom c cuts).2 := by
  induction cuts generalizing c with
  | nil =>
    rw [readFrameFrom]
    cases preTlsScan c.buf <;> exact .refl c
  | cons n cuts ih =>
    rw [readFrameFrom]
    cases preTlsScan c.buf with
    | frame f rest => exact .refl c
    | stop e => exact .refl c
    | wait =>
      dsimp only
      split
      · exact .refl c
      · refine Conserves.trans ?_ (ih _)
        obtain ⟨rest, hrest⟩ := List.take_prefix
          (min n (MAX_PRE_TLS_FRAME - c.buf.length)) c.incoming
        rw [Conserves, Conn.received, received_snoc, Conn.received]
        -- what is read is what is taken off the front
        generalize c.incoming.take (min n (MAX_PRE_TLS_FRAME - c.buf.length)) = data at *
        rw [← hrest, List.drop_left]
        simp [Event.data?]

theorem writeAll_conserves (bytes : Bytes) : Between Conserves (writeAll bytes) := by
  intro c
  rw [writeAll]
  have hwrite : ∀ bytes c', c'.log = c.log ++ [.write bytes] → c'.incoming = c.incoming →
      Conserves c c' := by
    intro bytes c' hlog hincoming
    rw [Conserves, Conn.received, hlog, received_snoc, hincoming, Conn.received]
    simp [Event.data?]
  cases c.accepts with
  | none => exact hwrite bytes _ rfl rfl
  | some n =>
    dsimp only
    split
    · exact hwrite bytes _ rfl rfl
    · exact hwrite (bytes.take n) _ rfl rfl

section Rounds

variable {σ β : Type} (tag : String) (other : σ → Response → σ)
  (answer : σ → StatusResponse → StartM β)

theorem answerRounds_conserves (hanswer : ∀ a s, Between Conserves (answer a s)) (fuel : ℕ)
    (a : σ) : Between Conserves (answerRounds tag other answer fuel a) := by
  induction fuel generalizing a with
  | zero => exact fun c => .refl c
  | succ fuel ih =>
    rw [answerRounds]
    refine Between.bind Conserves.trans (fun c => readFrameFrom_conserves c c.cuts) fun frame => ?_
    cases parseResponse frame with
    | error e => exact ih a
    | ok parsed =>
      dsimp only
      cases parsed.2.answerTo tag with
      | some s => exact hanswer a s
      | none => exact ih _

theorem untilAnswer_conserves (hanswer : ∀ a s, Between Conserves (answer a s)) (a : σ) :
    Between Conserves (untilAnswer tag other answer a) := by
  intro c
  rw [untilAnswer, run_get_bind]
  exact answerRounds_conserves tag other answer hanswer _ a c

end Rounds

theorem starttlsSteps_conserves : Between Conserves starttlsSteps := by
  have hcaps : Between Conserves awaitCapabilities := by
    refine untilAnswer_conserves _ _ _ (fun caps s => ?_) _
    split
    · exact fun c => .refl c
    · exact fun c => .refl c
  have hanswer : Between Conserves awaitStarttls := by
    refine untilAnswer_conserves _ _ _ (fun _ s => ?_) _
    split
    · exact fun c => .refl c
    · intro c
      rw [run_get_bind]
      split <;> exact .refl c
  rw [starttlsSteps]
  refine Between.bind Conserves.trans (fun c => readFrameFrom_conserves c c.cuts) fun _ =>
    Between.bind Conserves.trans (writeAll_conserves _) fun _ =>
    Between.bind Conserves.trans hcaps fun caps => ?_
  split
  · exact fun c => .refl c
  · exact Between.bind Conserves.trans (writeAll_conserves _) fun _ => hanswer

/-- What was read before an upgrade is the frames of the conversation, to the last byte. -/
theorem Upgraded.received {c : Conn} (h : Upgraded c) :
    ∃ fs t, (∀ f ∈ fs, responseFramer.Complete f) ∧ responseFramer.Complete t ∧
      AnswersOk "T0002" t ∧ c.received = wire (fs ++ [t]) := by
  obtain ⟨d₀, d₁, d₂, g, us, t₁, vs, t₂, hneg, hvs, ht₂, hok, hread, hlog⟩ := h.conversation
  have hreads : ∀ ds : List Bytes, (reads ds).filterMap Event.data? = ds := by
    intro ds
    induction ds with
    | nil => rfl
    | cons d ds ih => exact congrArg (d :: ·) ih
  refine ⟨g :: us ++ t₁ :: vs, t₂, fun f hf => ?_, ht₂, hok, ?_⟩
  · rcases List.mem_append.mp hf with hf | hf
    · rcases List.mem_cons.mp hf with rfl | hf
      · exact hneg.greeting
      · exact (hneg.others f hf).1
    · rcases List.mem_cons.mp hf with rfl | hf
      · exact hneg.answer.1
      · exact (hvs f hf).1
  · have hwire : wire (g :: us ++ t₁ :: vs ++ [t₂]) = d₀.flatten ++ d₁.flatten ++ d₂.flatten :=
      hread.symm
    rw [hwire, Conn.received, hlog, List.filterMap_append, List.filterMap_cons_none rfl,
      List.filterMap_append, List.filterMap_cons_none rfl, hreads, hreads, hreads,
      List.flatten_append, List.flatten_append, List.append_assoc]

/-- A TLS library that leads to a server which offers `MOVE` when it is asked. -/
def movingConnector : TlsConnector where
  validName := fun _ => true
  connect := fun _ _ => .ok ⟨none, movingAnswers⟩

/-- The cleartext of a server that offers STARTTLS. -/
def upgradeOffer : Bytes :=
  ascii "* OK hi\r\n* CAPABILITY STARTTLS\r\nT0001 OK done\r\nT0002 OK go\r\n"

theorem starttlsWithConnector_moving :
    (starttlsWithConnector movingConnector ⟨ascii "host", rfl⟩
      (Conn.start (upgradeOffer ++ [22, 3, 1]) [60] false none)).isOk = true := by
  decide +kernel

/-- The frames of a server that offers STARTTLS and grants it: the greeting `g`, frames `us` and the
OK `t₁` after the first command, and frames `vs` and the OK `t₂` after the second. -/
structure Orderly (g : Frame) (us : List Frame) (t₁ : Frame) (vs : List Frame) (t₂ : Frame) :
    Prop where
  complete : ∀ f ∈ g :: us ++ t₁ :: vs ++ [t₂],
    responseFramer.Complete f ∧ f.1.length ≤ MAX_PRE_TLS_FRAME
  others : ∀ u ∈ us, ¬ Answers "T0001" u
  answer : AnswersOk "T0001" t₁
  offered : ∃ atoms, lastCapabilityList (us.map Prod.snd) = some atoms ∧
    ∃ a ∈ atoms, a.eqCi "STARTTLS" = true
  others' : ∀ v ∈ vs, ¬ Answers "T0002" v
  grants : AnswersOk "T0002" t₂

/-- The peer accepts `n` more bytes. -/
def Conn.Takes (c : Conn) (n : ℕ) : Prop := ∀ m, c.accepts = some m → n ≤ m

theorem readFrameFrom_accepts (c : Conn) (cuts : List ℕ) :
    (readFrameFrom c cuts).2.accepts = c.accepts := by
  induction cuts generalizing c with
  | nil =>
    rw [readFrameFrom]
    cases preTlsScan c.buf <;> rfl
  | cons n cuts ih =>
    rw [readFrameFrom]
    cases preTlsScan c.buf with
    | frame f rest => rfl
    | stop e => rfl
    | wait =>
      dsimp only
      split
      · rfl
      · exact ih _

/-- A connection that still has `stream` to deliver, and whose peer accepts `n` more bytes. -/
structure Conn.Ready (c : Conn) (stream : Bytes) (n : ℕ) : Prop where
  fed : Fed c c.cuts
  stream_eq : c.stream = stream
  takes : c.Takes n

theorem Conn.Ready.read {c : Conn} {f : Frame} {y : Bytes} {n : ℕ} (h : c.Ready (f.1 ++ y) n)
    (hf : responseFramer.Complete f) (hmax : f.1.length ≤ MAX_PRE_TLS_FRAME) :
    ∃ c', readOneFrame c = (.ok f.1, c') ∧ c'.Ready y n := by
  obtain ⟨c', hrun, hfed, hstream⟩ := readFrameFrom_of_complete hf hmax h.fed h.stream_eq
  have haccepts := readFrameFrom_accepts c c.cuts
  rw [hrun] at haccepts
  exact ⟨c', hrun, hfed, hstream, fun m hm => h.takes m (haccepts.symm.trans hm)⟩

theorem Conn.Ready.write {c : Conn} {stream bytes : Bytes} {n : ℕ}
    (h : c.Ready stream (bytes.length + n)) :
    ∃ c', writeAll bytes c = (.ok (), c') ∧ c'.Ready stream n := by
  rw [writeAll]
  cases haccepts : c.accepts with
  | none =>
    refine ⟨_, rfl, ⟨h.fed.ends, h.fed.positive, h.fed.enough, h.fed.within⟩, h.stream_eq, ?_⟩
    intro m hm
    cases hm
  | some k =>
    have hk := h.takes k haccepts
    dsimp only
    rw [if_pos (by omega)]
    refine ⟨_, rfl, ⟨h.fed.ends, h.fed.positive, h.fed.enough, h.fed.within⟩, h.stream_eq, ?_⟩
    intro m hm
    cases hm
    omega

section Rounds

variable {σ β : Type} (tag : String) (other : σ → Response → σ)
  (answer : σ → StatusResponse → StartM β)

/-- Every frame before the answer is read, and so is the answer. -/
theorem answerRounds_complete {us : List Frame} {t : Frame} {st : StatusResponse} {y : Bytes}
    {n : ℕ}
    (hus : ∀ u ∈ us, responseFramer.Complete u ∧ u.1.length ≤ MAX_PRE_TLS_FRAME ∧ ¬ Answers tag u)
    (ht : responseFramer.Complete t) (hmax : t.1.length ≤ MAX_PRE_TLS_FRAME)
    (hst : t.2.answerTo tag = some st) (fuel : ℕ) (hfuel : us.length < fuel) (a : σ) (c : Conn)
    (hc : c.Ready (wire us ++ (t.1 ++ y)) n) :
    ∃ c', c'.Ready y n ∧ answerRounds tag other answer fuel a c
      = answer ((us.map Prod.snd).foldl other a) st c' := by
  induction us generalizing fuel a c with
  | nil =>
    obtain ⟨fuel, rfl⟩ := Nat.exists_eq_add_of_lt hfuel
    obtain ⟨c', hrun, hready⟩ := Conn.Ready.read hc ht hmax
    have hparse : parseResponse t.1 = .ok ([], t.2) := ht
    refine ⟨c', hready, ?_⟩
    rw [answerRounds, run_bind_ok hrun, hparse]
    dsimp only
    rw [hst]
    rfl
  | cons u us ih =>
    obtain ⟨hu, humax, hother⟩ := hus u List.mem_cons_self
    rw [wire_cons, List.append_assoc] at hc
    obtain ⟨c₁, hrun, hready⟩ := hc.read hu humax
    have hparse : parseResponse u.1 = .ok ([], u.2) := hu
    have hnone : u.2.answerTo tag = none := by simpa [Answers] using hother
    cases fuel with
    | zero => exact absurd hfuel (Nat.not_lt_zero _)
    | succ fuel =>
      obtain ⟨c', hready', hrest⟩ := ih (fun v hv => hus v (List.mem_cons_of_mem _ hv)) fuel
        (Nat.lt_of_succ_lt_succ hfuel) (other a u.2) c₁ hready
      refine ⟨c', hready', ?_⟩
      rw [answerRounds, run_bind_ok hrun, hparse]
      dsimp only
      rw [hnone]
      exact hrest

/-- There are no more frames than bytes. -/
theorem length_le_wire {us : List Frame} (hus : ∀ u ∈ us, responseFramer.Complete u) :
    us.length ≤ (wire us).length := by
  induction us with
  | nil => exact Nat.zero_le _
  | cons u us ih =>
    have hpos := List.length_pos_iff.mpr (hus u List.mem_cons_self).ne_nil
    have hle := ih fun v hv => hus v (List.mem_cons_of_mem _ hv)
    rw [wire_cons, List.length_append, List.length_cons]
    omega

theorem untilAnswer_complete {us : List Frame} {t : Frame} {st : StatusResponse} {y : Bytes}
    {n : ℕ}
    (hus : ∀ u ∈ us, responseFramer.Complete u ∧ u.1.length ≤ MAX_PRE_TLS_FRAME ∧ ¬ Answers tag u)
    (ht : responseFramer.Complete t) (hmax : t.1.length ≤ MAX_PRE_TLS_FRAME)
    (hst : t.2.answerTo tag = some st) (a : σ) {c : Conn}
    (hc : c.Ready (wire us ++ (t.1 ++ y)) n) :
    ∃ c', c'.Ready y n ∧ untilAnswer tag other answer a c
      = answer ((us.map Prod.snd).foldl other a) st c' := by
  have hpending : c.pending = (wire us ++ (t.1 ++ y)).length := by
    rw [← hc.stream_eq, Conn.stream, List.length_append]
    rfl
  have hle := length_le_wire fun u hu => (hus u hu).1
  rw [List.length_append] at hpending
  rw [untilAnswer, run_get_bind]
  exact answerRounds_complete tag other answer hus ht hmax hst _ (by omega) a c hc

end Rounds

variable {g t₁ t₂ : Frame} {us vs : List Frame}

/-- The exchange with such a server succeeds, and leaves nothing. -/
theorem Orderly.starttlsSteps_ok (h : Orderly g us t₁ vs t₂) {c : Conn}
    (hc : c.Ready (wire (g :: us ++ t₁ :: vs ++ [t₂]))
      (capabilityLine.length + starttlsLine.length)) :
    ∃ c', starttlsSteps c = (.ok (), c') ∧ c'.buf = [] ∧ c'.incoming = [] := by
  have hall := h.complete
  have hg := hall g (by simp)
  have ht₁ := hall t₁ (by simp)
  have ht₂ := hall t₂ (by simp)
  have hus : ∀ u ∈ us, responseFramer.Complete u ∧ u.1.length ≤ MAX_PRE_TLS_FRAME ∧
      ¬ Answers "T0001" u := fun u hu =>
    have hu' := hall u (by simp [hu])
    ⟨hu'.1, hu'.2, h.others u hu⟩
  have hvs : ∀ v ∈ vs, responseFramer.Complete v ∧ v.1.length ≤ MAX_PRE_TLS_FRAME ∧
      ¬ Answers "T0002" v := fun v hv =>
    have hv' := hall v (by simp [hv])
    ⟨hv'.1, hv'.2, h.others' v hv⟩
  obtain ⟨s₁, hs₁, hok₁⟩ := h.answer
  obtain ⟨s₂, hs₂, hok₂⟩ := h.grants
  have hsplit : wire (g :: us ++ t₁ :: vs ++ [t₂])
      = g.1 ++ (wire us ++ (t₁.1 ++ (wire vs ++ (t₂.1 ++ [])))) := by simp
  rw [hsplit] at hc
  obtain ⟨c₁, hgreeting, hc₁⟩ := hc.read hg.1 hg.2
  obtain ⟨c₂, hasked, hc₂⟩ := hc₁.write
  obtain ⟨c₃, hc₃, hcaps⟩ := untilAnswer_complete "T0001"
    (fun (caps : Capabilities) response => (caps.tryUpdateFrom response).1)
    (fun caps s =>
      if s.status ≠ .ok then throw (.ofChars ("CAPABILITY failed: ".toList ++ s.text.chars))
      else pure caps) hus ht₁.1 ht₁.2 hs₁ Capabilities.none hc₂
  rw [if_neg (not_not.mpr hok₁)] at hcaps
  -- what was read before the first OK offers STARTTLS
  have hstarttls : (Capabilities.none.updateAll (us.map Prod.snd)).starttls = true := by
    obtain ⟨atoms, hatoms, a, ha, hstart⟩ := h.offered
    rw [Capabilities.updateAll_eq, hatoms]
    exact (Capabilities.fromAtoms_starttls atoms).trans (List.any_eq_true.mpr ⟨a, ha, hstart⟩)
  obtain ⟨c₄, hupgrade, hc₄⟩ := (show c₃.Ready _ (starttlsLine.length + 0) from hc₃).write
  obtain ⟨c₅, hc₅, hgranted⟩ := untilAnswer_complete "T0002" (fun _ _ => ())
    (fun _ s => do
      if s.status ≠ .ok then throw (.ofChars ("STARTTLS rejected: ".toList ++ s.text.chars))
      else if !(← get).buf.isEmpty then
        throw (.commandFailed "server sent cleartext data after STARTTLS OK".toList)
      else pure ()) hvs ht₂.1 ht₂.2 hs₂ () hc₄
  obtain ⟨hbuf, hincoming⟩ := List.append_eq_nil_iff.mp hc₅.stream_eq
  refine ⟨c₅, ?_, hbuf, hincoming⟩
  rw [starttlsSteps, run_bind_ok hgreeting,
    show ascii "T0001 CAPABILITY\r\n" = capabilityLine from rfl, run_bind_ok hasked,
    run_bind_ok (show awaitCapabilities c₂
      = (.ok (Capabilities.none.updateAll (us.map Prod.snd)), c₃) from hcaps), hstarttls,
    Bool.not_true, if_neg Bool.false_ne_true,
    show ascii "T0002 STARTTLS\r\n" = starttlsLine from rfl, run_bind_ok hupgrade]
  refine (show awaitStarttls c₄ = _ from hgranted).trans ?_
  rw [if_neg (not_not.mpr hok₂), run_get_bind, hbuf]
  rfl

theorem capabilityRoundTrip_isOk {s : Session}
    (haccepted : (s.raw.answers s.raw.issued).accepted = true)
    (hframe : (s.raw.answers s.raw.issued).okFrame.isSome = true) :
    ∃ s', capabilityRoundTrip s = (.ok (), s') := by
  obtain ⟨frame, hframe⟩ := Option.isSome_iff_exists.mp hframe
  have hqueued := enqueueCommand_accepted (by decide : hasLineBreaks (ascii "CAPABILITY") = false)
    haccepted (some Capabilities.isCapabilityResponse)
  have hreply : (s.raw.answers s.raw.issued).reply.await = .ok frame := by
    rw [Answer.okFrame] at hframe
    split at hframe
    next hreply =>
      cases hframe
      rw [hreply]
      rfl
    · cases hframe
  have hstreamed : RawClient.executeStreaming (ascii "CAPABILITY")
      Capabilities.isCapabilityResponse s
      = (.ok ((s.raw.answers s.raw.issued).streamed Capabilities.isCapabilityResponse, .ok frame),
        RawClient.afterCommand s (ascii "CAPABILITY")
          (some Capabilities.isCapabilityResponse)) := by
    rw [RawClient.executeStreaming, run_bind_ok hqueued, run_get_bind, ← hreply]
    rfl
  rw [capabilityRoundTrip, run_bind_ok hstreamed]
  exact ⟨_, rfl⟩

/-- The session is handed over if the greeting brings a list, or the server answers `CAPABILITY`. -/
theorem finalizeSession_isOk {inside : Encrypted}
    (h : inside.greeted.isSome = true ∨
      ((inside.answers 0).accepted = true ∧ (inside.answers 0).okFrame.isSome = true)) :
    ∃ s, finalizeSession inside.greeting (.fresh inside.answers) = (.ok (), s) := by
  have habsorb := absorbGreeting_eq Capabilities.none inside
  rw [finalizeSession, run_get_bind,
    show (Session.fresh inside.answers).capabilities = Capabilities.none from rfl]
  cases hgreeted : inside.greeted with
  | some atoms =>
    rw [hgreeted] at habsorb
    rw [habsorb]
    exact ⟨_, rfl⟩
  | none =>
    rw [hgreeted] at habsorb
    rw [habsorb]
    obtain ⟨haccepted, hframe⟩ := h.resolve_left (by simp [hgreeted])
    exact @capabilityRoundTrip_isOk ⟨_, Capabilities.none⟩ haccepted hframe

/-- **Every orderly server can be connected to.** However its cleartext is cut into reads, and
whatever else it says before each of its answers: a server that offers STARTTLS and grants it, with
nothing behind its last answer, is handed to the TLS library; and when the handshake succeeds, and
its greeting brings a capability list or it answers `CAPABILITY`, there is a session. -/
theorem starttlsWithConnector_complete {connector : TlsConnector} {domain : Str}
    {inside : Encrypted} {cuts : List ℕ} {accepts : Option ℕ} (h : Orderly g us t₁ vs t₂)
    (hcuts : ∀ n ∈ cuts, 0 < n)
    (haccepts : ∀ n, accepts = some n → capabilityLine.length + starttlsLine.length ≤ n)
    (hvalid : connector.validName domain = true)
    (hconnect : ∀ stream, stream.buf = [] → stream.incoming = [] →
      connector.connect domain stream = .ok inside)
    (hanswers : inside.greeted.isSome = true ∨
      ((inside.answers 0).accepted = true ∧ (inside.answers 0).okFrame.isSome = true)) :
    ∃ s, starttlsWithConnector connector domain
      (Conn.cut (wire (g :: us ++ t₁ :: vs ++ [t₂])) cuts accepts) = .ok s := by
  have hready : (Conn.cut (wire (g :: us ++ t₁ :: vs ++ [t₂])) cuts accepts).Ready
      (wire (g :: us ++ t₁ :: vs ++ [t₂])) (capabilityLine.length + starttlsLine.length) :=
    ⟨Conn.cut_fed hcuts, rfl, haccepts⟩
  obtain ⟨c, hrun, hbuf, hincoming⟩ := h.starttlsSteps_ok hready
  obtain ⟨s, hs⟩ := finalizeSession_isOk hanswers
  refine ⟨s, ?_⟩
  rw [starttlsWithConnector, hrun]
  dsimp only
  rw [handshakeWithConnector, if_pos hvalid, hconnect c hbuf hincoming]
  dsimp only [bind, Except.bind]
  rw [hs]

/-- `* OK hi`. -/
def hiFrame : Frame :=
  (ascii "* OK hi\r\n", .status ⟨none, .ok, none, ⟨ascii "hi", rfl⟩⟩)

/-- `* CAPABILITY STARTTLS`. -/
def offerFrame : Frame :=
  (ascii "* CAPABILITY STARTTLS\r\n", .data (.capability [⟨ascii "STARTTLS", rfl⟩]))

/-- `T0001 OK listed`. -/
def doneFrame : Frame :=
  (ascii "T0001 OK listed\r\n",
    .status ⟨some ⟨ascii "T0001", rfl⟩, .ok, none, ⟨ascii "listed", rfl⟩⟩)

/-- `T0002 OK go`. -/
def goFrame : Frame :=
  (ascii "T0002 OK go\r\n", .status ⟨some ⟨ascii "T0002", rfl⟩, .ok, none, ⟨ascii "go", rfl⟩⟩)

theorem orderly_hi : Orderly hiFrame [offerFrame] doneFrame [] goFrame where
  complete := by
    have hhi : parseResponse hiFrame.1 = .ok ([], hiFrame.2) := by decide +kernel
    have hoffer : parseResponse offerFrame.1 = .ok ([], offerFrame.2) := by decide +kernel
    have hdone : parseResponse doneFrame.1 = .ok ([], doneFrame.2) := by decide +kernel
    have hgo : parseResponse goFrame.1 = .ok ([], goFrame.2) := by decide +kernel
    intro f hf
    have hcases : f = hiFrame ∨ f = offerFrame ∨ f = doneFrame ∨ f = goFrame := by simpa using hf
    rcases hcases with rfl | rfl | rfl | rfl
    · exact ⟨hhi, by decide⟩
    · exact ⟨hoffer, by decide⟩
    · exact ⟨hdone, by decide⟩
    · exact ⟨hgo, by decide⟩
  others := by simp [Answers, offerFrame, Response.answerTo]
  answer := ⟨⟨some ⟨ascii "T0001", rfl⟩, .ok, none, ⟨ascii "listed", rfl⟩⟩, by decide, rfl⟩
  offered := ⟨_, rfl, _, List.mem_singleton_self _, by decide⟩
  others' := by simp
  grants := ⟨⟨some ⟨ascii "T0002", rfl⟩, .ok, none, ⟨ascii "go", rfl⟩⟩, by decide, rfl⟩

/-- The same server, its first bytes one by one. -/
theorem starttlsWithConnector_complete_moving :
    ∃ s, starttlsWithConnector movingConnector ⟨ascii "host", rfl⟩
      (Conn.cut (wire (hiFrame :: [offerFrame] ++ doneFrame :: [] ++ [goFrame])) [1, 1, 5] none)
      = .ok s :=
  starttlsWithConnector_complete orderly_hi (by decide) (fun n hn => by cases hn) rfl
    (fun _ _ _ => rfl) (.inr ⟨rfl, rfl⟩)

/-! ### Histories -/

/-- A caller who holds a session that was just connected. -/
def Session.held (s : Session) : Caller where
  session := s
  phase := some .unauthenticated
  handles := []
  granted := []
  unstopped := []
  timedOut := []

theorem Finalized.entitled {inside : Encrypted} {s : Session} (h : Finalized inside s) :
    s.held.Entitled inside.answers (absorbGreeting Capabilities.none inside.greeting).1 where
  warranted := h.warranted
  handles := by simp [Session.held]

/-- What is known is nothing, or was told inside TLS. -/
theorem Knows.told {inside : Encrypted} {n : CommandId} {caps : Capabilities}
    (h : Knows inside.answers (absorbGreeting Capabilities.none inside.greeting).1 n caps) :
    caps = Capabilities.none ∨ ∃ atoms, inside.Told n atoms ∧ caps = .fromAtoms atoms := by
  rcases h with rfl | ⟨i, hi, frame, atoms, hframe, hatoms, rfl⟩
  · rw [absorbGreeting_eq]
    cases hgreeted : inside.greeted with
    | none => exact .inl rfl
    | some atoms => exact .inr ⟨atoms, .inl hgreeted, rfl⟩
  · exact .inr ⟨atoms, .inr ⟨i, hi, frame, hframe, hatoms⟩, rfl⟩

/-- **Nothing is taken for granted that was not said inside TLS.** Whatever is done with a session
that a handshake led to: a command that needs an extension comes after a list of the server, sent
inside TLS, that offers it; and any other line answers a continuation request, sent inside TLS
too. -/
theorem connected_offered {connector : TlsConnector} {domain : Str} {stream : Conn} {s : Session}
    {c : Caller} (hconnect : handshakeWithConnector connector domain stream = .ok s)
    (hc : Reaches (Caller.step (t := .tls)) (fun _ _ => True) s.held c)
    {before after : List WriteRequest} {request : WriteRequest}
    (hqueued : c.session.raw.queued = before ++ request :: after) :
    ∃ inside, connector.connect domain stream = .ok inside ∧
      (∀ command n, request.asks = some command → request.command? = some n →
        command.gate Capabilities.none = true ∨
          ∃ atoms, inside.Told n atoms ∧ command.gate (.fromAtoms atoms) = true) ∧
      Invited inside.answers before request := by
  obtain ⟨-, inside, hinside, hfinal⟩ := handshakeWithConnector_ok hconnect
  have hentitled : c.Entitled inside.answers
      (absorbGreeting Capabilities.none inside.greeting).1 :=
    hc.invariant hfinal.entitled fun _ _ hstep hc => hc.step hstep
  refine ⟨inside, hinside, fun command n hasks hnumber => ?_,
    hentitled.warranted.invited before request after hqueued⟩
  have hmem : request ∈ c.session.raw.queued := by simp [hqueued]
  obtain ⟨caps, hknows, hgate⟩ := hentitled.warranted.offered request hmem command n hasks hnumber
  rcases hknows.told with rfl | ⟨atoms, htold, rfl⟩
  · exact .inl hgate
  · exact .inr ⟨atoms, htold, hgate⟩

/-- `login`, `select` and a `MOVE`. -/
def loginSelectMove : List (Caller.Action .tls) :=
  loginSelect ++ [.call (.moveMessages ⟨ascii "1:3", rfl⟩ ⟨ascii "Trash", rfl⟩)]

/-- The `MOVE` is the fifth command: the connection and `login` have asked for the capabilities. -/
theorem connected_offered_move :
    ∃ s c before request, handshakeWithConnector movingConnector ⟨ascii "host", rfl⟩
        (Conn.start [] [] false none) = .ok s ∧
      Reaches (Caller.step (t := .tls)) (fun _ _ => True) s.held c ∧
      c.session.raw.queued = before ++ [request] ∧
      request.asks = some (.move (ascii "1:3") (ascii "Trash")) ∧ request.command? = some 4 ∧
      ∃ inside, movingConnector.connect ⟨ascii "host", rfl⟩ (Conn.start [] [] false none)
          = .ok inside ∧
        ((Command.move (ascii "1:3") (ascii "Trash")).gate Capabilities.none = true ∨
          ∃ atoms, inside.Told 4 atoms ∧
            (Command.move (ascii "1:3") (ascii "Trash")).gate (.fromAtoms atoms) = true) := by
  have hconnected : ((handshakeWithConnector movingConnector ⟨ascii "host", rfl⟩
      (Conn.start [] [] false none)).toOption.any fun s =>
        (runMeeting (Caller.step (t := .tls)) (fun _ _ => True) loginSelectMove s.held).any fun c =>
          decide (c.session.raw.queued.getLast?.map (fun r => (r.command?, r.asks))
            = some (some 4, some (.move (ascii "1:3") (ascii "Trash"))))) = true := by
    decide +kernel
  obtain ⟨s, hs, hrun⟩ := (Option.any_eq_true _ _).mp hconnected
  obtain ⟨c, hc, hlast⟩ := exists_reaches hrun
  have hconnect : handshakeWithConnector movingConnector ⟨ascii "host", rfl⟩
      (Conn.start [] [] false none) = .ok s := by
    cases hresult : handshakeWithConnector movingConnector ⟨ascii "host", rfl⟩
        (Conn.start [] [] false none) with
    | error e =>
      rw [hresult] at hs
      cases hs
    | ok s' =>
      rw [hresult] at hs
      cases hs
      rfl
  obtain ⟨request, hrequest, hmove⟩ := Option.map_eq_some_iff.mp hlast
  obtain ⟨hnumber, hasks⟩ := Prod.mk.inj hmove
  obtain ⟨before, hqueued⟩ := List.getLast?_eq_some_iff.mp hrequest
  obtain ⟨inside, hinside, hoffered, -⟩ := connected_offered hconnect hc hqueued
  exact ⟨s, c, before, request, hconnect, hc, hqueued, hasks, hnumber, inside, hinside,
    hoffered _ _ hasks hnumber⟩

end ImapRs
