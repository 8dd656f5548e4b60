import ImapRs.Client.Capabilities
import ImapRs.Client.ReadLoop
import ImapRs.Transition.Fallible

/-!
# The STARTTLS exchange

`starttls_steps` and `read_one_frame` of `imap-tls/src/lib.rs`: the cleartext conversation before
the TLS handshake. The peer is hostile: it decides what it sends, how much of it each read returns,
whether the stream ends or breaks, and how many bytes it accepts. No timeout fires.

The connection records what was read and written in order, so that a theorem can speak of what was
written *before* something was read.

## Main definitions

* `Conn`, `readOneFrame`, `starttlsSteps` — the code
* `Negotiated` — the part of the conversation that has to come before `STARTTLS` is sent
* `Conversation` — what may have been read and written when the exchange ends early

## Main results

* `starttlsSteps_safe` — the exchange succeeds only after an orderly conversation, with nothing left
  over
-/

namespace ImapRs

open Incremental Transition

/-- Largest single response accepted on the cleartext connection. -/
def MAX_PRE_TLS_FRAME : ℕ := 64 * 1024

/-- What happened on the connection. -/
inductive Event where
  | read (bytes : Bytes)
  | write (bytes : Bytes)
  deriving DecidableEq, Repr

/-- The cleartext connection, with the buffer of the exchange. -/
structure Conn where
  /-- What the peer sends from here on. -/
  incoming : Bytes
  /-- How many bytes are there for each of the next reads. -/
  cuts : List ℕ
  /-- Whether the stream breaks after that, instead of ending. -/
  broken : Bool
  /-- How many more bytes the peer accepts, if not all. -/
  accepts : Option ℕ
  /-- Bytes read and not yet taken off as a frame. -/
  buf : Bytes
  /-- What was read and written so far. -/
  log : List Event
  deriving DecidableEq, Repr

/-- A fresh connection. -/
def Conn.start (incoming : Bytes) (cuts : List ℕ) (broken : Bool) (accepts : Option ℕ) : Conn :=
  ⟨incoming, cuts, broken, accepts, [], []⟩

/-- A step of the exchange: it may fail, and what happened on the connection remains. -/
abbrev StartM := ExceptT ClientError (StateM Conn)

/-! ### Reading frames -/

/-- What to do with an unfinished frame: refuse to grow it past the ceiling. -/
def preTlsResidue (buf : Bytes) : Scan :=
  if MAX_PRE_TLS_FRAME - buf.length = 0 then .stop (.frameTooLarge MAX_PRE_TLS_FRAME) else .wait

/-- One look at the buffer. -/
def preTlsScan (buf : Bytes) : Scan :=
  if buf.isEmpty then preTlsResidue buf
  else
    match parseResponse buf with
    | .ok (remaining, response) =>
      let consumed := buf.length - remaining.length
      .frame (buf.take consumed, response) (buf.drop consumed)
    | .error .incomplete => preTlsResidue buf
    | .error _ => .stop (.commandFailed "malformed pre-TLS response".toList)

/-- The loop of `read_one_frame`; each further round is one read. -/
def readFrameFrom (c : Conn) (cuts : List ℕ) : Except ClientError Bytes × Conn :=
  match preTlsScan c.buf with
  | .frame f rest => (.ok f.1, { c with cuts := cuts, buf := rest })
  | .stop e => (.error e, { c with cuts := cuts })
  | .wait =>
    match cuts with
    | [] => (.error (if c.broken then .io else .connectionClosed), { c with cuts := [] })
    | n :: cuts =>
      -- never more than the room left
      let data := c.incoming.take (min n (MAX_PRE_TLS_FRAME - c.buf.length))
      if data.isEmpty then (.error .connectionClosed, { c with cuts := cuts })
      else readFrameFrom { c with
        incoming := c.incoming.drop data.length
        buf := c.buf ++ data
        log := c.log ++ [.read data] } cuts

def readOneFrame : StartM Bytes := fun c => readFrameFrom c c.cuts

/-- `write_all`. -/
def writeAll (bytes : Bytes) : StartM Unit := fun c =>
  match c.accepts with
  | none => (.ok (), { c with log := c.log ++ [.write bytes] })
  | some n =>
    if bytes.length ≤ n then
      (.ok (), { c with accepts := some (n - bytes.length), log := c.log ++ [.write bytes] })
    else (.error .io, { c with accepts := some 0, log := c.log ++ [.write (bytes.take n)] })

/-! ### The exchange -/

/-- The status response of a frame, if it answers the command with this tag. -/
def Response.answerTo (tag : String) : Response → Option StatusResponse
  | .status s => if s.tag.map Str.bytes = some (ascii tag) then some s else none
  | _ => none

/-- Bytes that are still to be taken off as frames. -/
def Conn.pending (c : Conn) : ℕ := c.buf.length + c.incoming.length

section Rounds

variable {σ β : Type} (tag : String) (other : σ → Response → σ)
  (answer : σ → StatusResponse → StartM β)

/-- The two loops of the exchange: read frames until one answers the command with this tag. At most
`fuel` rounds, and `timeout` if that is not enough. -/
def answerRounds : ℕ → σ → StartM β
  | 0, _ => throw .timeout
  | fuel + 1, a => do
    let frame ← readOneFrame
    match parseResponse frame with
    | .ok (_, response) =>
      match response.answerTo tag with
      | some s => answer a s
      | none => answerRounds fuel (other a response)
    | .error _ => answerRounds fuel a

/-- Every frame takes up at least one byte, so there are no more rounds than bytes. -/
def untilAnswer (a : σ) : StartM β := do
  answerRounds tag other answer ((← get).pending + 1) a

end Rounds

/-- The loop after `T0001 CAPABILITY`. -/
def awaitCapabilities : StartM Capabilities :=
  untilAnswer "T0001" (fun caps response => (caps.tryUpdateFrom response).1)
    (fun caps s =>
      if s.status ≠ .ok then throw (.ofChars ("CAPABILITY failed: ".toList ++ s.text.chars))
      else pure caps)
    Capabilities.none

/-- The loop after `T0002 STARTTLS`. -/
def awaitStarttls : StartM Unit :=
  untilAnswer "T0002" (fun _ _ => ())
    (fun _ s => do
      if s.status ≠ .ok then throw (.ofChars ("STARTTLS rejected: ".toList ++ s.text.chars))
      -- the client speaks first in TLS, so nothing may follow the OK
      else if !(← get).buf.isEmpty then
        throw (.commandFailed "server sent cleartext data after STARTTLS OK".toList)
      else pure ())
    ()

def starttlsSteps : StartM Unit := do
  let _greeting ← readOneFrame
  writeAll (ascii "T0001 CAPABILITY\r\n")
  let caps ← awaitCapabilities
  if !caps.starttls then
    throw (.commandFailed "server does not advertise STARTTLS".toList)
  else do
    writeAll (ascii "T0002 STARTTLS\r\n")
    awaitStarttls

/-- The exchange on a fresh connection, and the connection afterwards. -/
def starttlsExchange (incoming : Bytes) (cuts : List ℕ) (broken : Bool) (accepts : Option ℕ) :
    Except ClientError Unit × Conn :=
  starttlsSteps (Conn.start incoming cuts broken accepts)

/-! ### What reading does -/

/-- The reads of a log. -/
abbrev reads (ds : List Bytes) : List Event := ds.map .read

/-- Nothing happened on the way from `c` to `c'` but the reads `ds`. -/
def Reads (c c' : Conn) (ds : List Bytes) : Prop := c'.log = c.log ++ reads ds

theorem Reads.refl (c : Conn) : Reads c c [] := (List.append_nil c.log).symm

theorem Reads.trans {c c' c'' : Conn} {ds ds' : List Bytes} (h : Reads c c' ds)
    (h' : Reads c' c'' ds') : Reads c c'' (ds ++ ds') := by
  rw [Reads, h', h, List.append_assoc, ← List.map_append]

theorem preTlsScan_frame {buf rest : Bytes} {f : Frame} (h : preTlsScan buf = .frame f rest) :
    responseFramer.Complete f ∧ buf = f.1 ++ rest := by
  have hresidue : ∀ b, preTlsResidue b ≠ .frame f rest := by
    intro b hb
    rw [preTlsResidue] at hb
    split at hb <;> cases hb
  rw [preTlsScan] at h
  split at h
  · exact absurd h (hresidue _)
  split at h
  next remaining response hok =>
    cases h
    obtain ⟨g, -, rfl, hg⟩ := parseResponse_prefix hok
    have hlen : (g ++ remaining).length - remaining.length = g.length := by simp
    rw [hlen, List.take_left, List.drop_left]
    exact ⟨hg, rfl⟩
  · exact absurd h (hresidue _)
  · cases h

theorem preTlsScan_stop {buf : Bytes} {e : ClientError} (h : preTlsScan buf = .stop e) :
    e ≠ .timeout := by
  have hresidue : ∀ b, preTlsResidue b = .stop e → e ≠ .timeout := by
    intro b hb
    rw [preTlsResidue] at hb
    split at hb <;> cases hb
    nofun
  rw [preTlsScan] at h
  split at h
  · exact hresidue _ h
  split at h
  · cases h
  · exact hresidue _ h
  · cases h
    nofun

/-- What `read_one_frame` promises: a complete frame off the front of what was buffered and read,
and no byte more; or an error, but not a timeout. -/
def FrameRead (c : Conn) (r : Except ClientError Bytes × Conn) : Prop :=
  ∃ ds, Reads c r.2 ds ∧
    match r.1 with
    | .ok f => (∃ response, responseFramer.Complete (f, response)) ∧
        c.buf ++ ds.flatten = f ++ r.2.buf ∧ r.2.pending + f.length = c.pending
    | .error e => e ≠ .timeout

theorem FrameRead.of_error {c c' : Conn} {e : ClientError} (hlog : c'.log = c.log)
    (he : e ≠ .timeout) : FrameRead c (.error e, c') :=
  ⟨[], by rw [Reads, hlog]; exact (List.append_nil _).symm, he⟩

theorem FrameRead.of_frame {c : Conn} {f : Frame} {rest : Bytes}
    (h : preTlsScan c.buf = .frame f rest) (cuts : List ℕ) :
    FrameRead c (.ok f.1, { c with cuts := cuts, buf := rest }) := by
  obtain ⟨hf, hbuf⟩ := preTlsScan_frame h
  refine ⟨[], Reads.refl c, ⟨f.2, hf⟩, by simpa using hbuf, ?_⟩
  simp only [Conn.pending, hbuf, List.length_append]
  omega

/-- One read before the rest of it. -/
theorem FrameRead.read {c : Conn} {data : Bytes} {r : Except ClientError Bytes × Conn}
    (hdata : data <+: c.incoming)
    (h : FrameRead { c with
      incoming := c.incoming.drop data.length
      buf := c.buf ++ data
      log := c.log ++ [.read data] } r) : FrameRead c r := by
  obtain ⟨ds, hlog, hr⟩ := h
  refine ⟨data :: ds, ?_, ?_⟩
  · rw [Reads, hlog, List.append_assoc]
    rfl
  · obtain ⟨result, c'⟩ := r
    cases result with
    | error e => exact hr
    | ok f =>
      obtain ⟨hf, hbuf, hpending⟩ := hr
      refine ⟨hf, ?_, ?_⟩
      · rw [List.flatten_cons, ← List.append_assoc]
        exact hbuf
      · have hle := hdata.length_le
        simp only [Conn.pending, List.length_append, List.length_drop] at hpending ⊢
        omega

theorem readFrameFrom_spec (c : Conn) (cuts : List ℕ) : FrameRead c (readFrameFrom c cuts) := by
  induction cuts generalizing c with
  | nil =>
    rw [readFrameFrom]
    cases hscan : preTlsScan c.buf with
    | frame f rest => exact .of_frame hscan []
    | stop e => exact .of_error rfl (preTlsScan_stop hscan)
    | wait => exact .of_error rfl (by split <;> nofun)
  | cons n cuts ih =>
    rw [readFrameFrom]
    cases hscan : preTlsScan c.buf with
    | frame f rest => exact .of_frame hscan _
    | stop e => exact .of_error rfl (preTlsScan_stop hscan)
    | wait =>
      dsimp only
      split
      · exact .of_error rfl nofun
      · exact .read (List.take_prefix _ _) (ih _)

/-! ### The conversation -/

/-- The frame answers the command with this tag. -/
def Answers (tag : String) (f : Frame) : Prop := (f.2.answerTo tag).isSome

/-- The frame answers the command with this tag, with status OK. -/
def AnswersOk (tag : String) (f : Frame) : Prop :=
  ∃ s, f.2.answerTo tag = some s ∧ s.status = .ok

section Rounds

variable {σ β : Type} (tag : String) (other : σ → Response → σ)
  (answer : σ → StatusResponse → StartM β)

/-- **The loops of the exchange.** They end in a read that fails; or the first answer was read, what
was read is the frames before it, the answer and the new buffer, and the answer decides. -/
theorem answerRounds_spec (fuel : ℕ) (a : σ) (c : Conn) (hfuel : c.pending < fuel) :
    ∃ ds c₁, Reads c c₁ ds ∧
      ((∃ us t s, (∀ u ∈ us, responseFramer.Complete u ∧ ¬ Answers tag u) ∧
          responseFramer.Complete t ∧ t.2.answerTo tag = some s ∧
          c.buf ++ ds.flatten = wire us ++ t.1 ++ c₁.buf ∧
          answerRounds tag other answer fuel a c
            = answer ((us.map Prod.snd).foldl other a) s c₁) ∨
        ∃ e, e ≠ .timeout ∧ answerRounds tag other answer fuel a c = (.error e, c₁)) := by
  induction fuel generalizing a c with
  | zero => exact absurd hfuel (Nat.not_lt_zero _)
  | succ fuel ih =>
    obtain ⟨ds, hlog, hr⟩ := readFrameFrom_spec c c.cuts
    rw [answerRounds]
    cases hread : readOneFrame c with
    | mk result c₁ =>
      rw [show readFrameFrom c c.cuts = (result, c₁) from hread] at hlog hr
      cases result with
      | error e =>
        rw [run_bind_error hread]
        exact ⟨ds, c₁, hlog, .inr ⟨e, hr, rfl⟩⟩
      | ok f =>
        obtain ⟨⟨response, hf⟩, hbuf, hpending⟩ := hr
        have hparse : parseResponse f = .ok ([], response) := hf
        rw [run_bind_ok hread, hparse]
        dsimp only at hbuf hpending ⊢
        cases hanswer : response.answerTo tag with
        | some s =>
          exact ⟨ds, c₁, hlog, .inl ⟨[], (f, response), s, nofun, hf, hanswer, hbuf, rfl⟩⟩
        | none =>
          have hlt : c₁.pending < fuel := by
            have := List.length_pos_iff.mpr hf.ne_nil
            dsimp only at this
            omega
          obtain ⟨ds', c₂, hlog', hcase⟩ := ih (other a response) c₁ hlt
          refine ⟨ds ++ ds', c₂, hlog.trans hlog', ?_⟩
          rcases hcase with ⟨us, t, s, hus, ht, hs, hbuf', hrun⟩ | herror
          · refine .inl ⟨(f, response) :: us, t, s, ?_, ht, hs, ?_, hrun⟩
            · rintro u hu
              rcases List.mem_cons.mp hu with rfl | hu
              · exact ⟨hf, by simp [Answers, hanswer]⟩
              · exact hus u hu
            · rw [List.flatten_append, ← List.append_assoc, hbuf, List.append_assoc, hbuf',
                wire_cons, List.append_assoc, List.append_assoc, List.append_assoc]
          · exact .inr herror

theorem untilAnswer_spec (a : σ) (c : Conn) :
    ∃ ds c₁, Reads c c₁ ds ∧
      ((∃ us t s, (∀ u ∈ us, responseFramer.Complete u ∧ ¬ Answers tag u) ∧
          responseFramer.Complete t ∧ t.2.answerTo tag = some s ∧
          c.buf ++ ds.flatten = wire us ++ t.1 ++ c₁.buf ∧
          untilAnswer tag other answer a c = answer ((us.map Prod.snd).foldl other a) s c₁) ∨
        ∃ e, e ≠ .timeout ∧ untilAnswer tag other answer a c = (.error e, c₁)) :=
  answerRounds_spec tag other answer _ a c (Nat.lt_succ_self _)

end Rounds

theorem ofChars_ne_timeout (chars : List Char) : ClientError.ofChars chars ≠ .timeout := by
  rw [ClientError.ofChars]
  split <;> nofun

theorem awaitCapabilities_spec (c : Conn) : ∃ ds c₁, Reads c c₁ ds ∧
    ((∃ us t, (∀ u ∈ us, responseFramer.Complete u ∧ ¬ Answers "T0001" u) ∧
        responseFramer.Complete t ∧ AnswersOk "T0001" t ∧
        c.buf ++ ds.flatten = wire us ++ t.1 ++ c₁.buf ∧
        awaitCapabilities c = (.ok (Capabilities.none.updateAll (us.map Prod.snd)), c₁)) ∨
      ∃ e, e ≠ .timeout ∧ awaitCapabilities c = (.error e, c₁)) := by
  obtain ⟨ds, c₁, hlog, hcase⟩ := untilAnswer_spec "T0001"
    (fun caps response => (Capabilities.tryUpdateFrom caps response).1)
    (fun caps s =>
      if s.status ≠ .ok then throw (.ofChars ("CAPABILITY failed: ".toList ++ s.text.chars))
      else pure caps) Capabilities.none c
  refine ⟨ds, c₁, hlog, ?_⟩
  rcases hcase with ⟨us, t, s, hus, ht, hs, hbuf, hrun⟩ | herror
  · by_cases hok : s.status = .ok
    · rw [if_neg (not_not.mpr hok)] at hrun
      exact .inl ⟨us, t, hus, ht, ⟨s, hs, hok⟩, hbuf, hrun⟩
    · rw [if_pos hok] at hrun
      exact .inr ⟨_, ofChars_ne_timeout _, hrun⟩
  · exact .inr herror

theorem awaitStarttls_spec (c : Conn) : ∃ ds c₁, Reads c c₁ ds ∧
    ((∃ vs t, (∀ v ∈ vs, responseFramer.Complete v ∧ ¬ Answers "T0002" v) ∧
        responseFramer.Complete t ∧ AnswersOk "T0002" t ∧
        c.buf ++ ds.flatten = wire vs ++ t.1 ∧ c₁.buf = [] ∧ awaitStarttls c = (.ok (), c₁)) ∨
      ∃ e, e ≠ .timeout ∧ awaitStarttls c = (.error e, c₁)) := by
  obtain ⟨ds, c₁, hlog, hcase⟩ := untilAnswer_spec "T0002" (fun _ _ => ())
    (fun _ s => do
      if s.status ≠ .ok then throw (.ofChars ("STARTTLS rejected: ".toList ++ s.text.chars))
      else if !(← get).buf.isEmpty then
        throw (.commandFailed "server sent cleartext data after STARTTLS OK".toList)
      else pure ()) () c
  refine ⟨ds, c₁, hlog, ?_⟩
  rcases hcase with ⟨vs, t, s, hvs, ht, hs, hbuf, hrun⟩ | herror
  · by_cases hok : s.status = .ok
    · rw [if_neg (not_not.mpr hok)] at hrun
      -- the buffer is looked at once the answer is known
      change awaitStarttls c = (if !c₁.buf.isEmpty then
        throw (.commandFailed "server sent cleartext data after STARTTLS OK".toList)
        else pure () : StartM Unit) c₁ at hrun
      by_cases hempty : c₁.buf = []
      · rw [hempty] at hrun hbuf
        rw [List.append_nil] at hbuf
        exact .inl ⟨vs, t, hvs, ht, ⟨s, hs, hok⟩, hbuf, hempty, hrun⟩
      · rw [if_pos (by simpa using hempty)] at hrun
        exact .inr ⟨.commandFailed "server sent cleartext data after STARTTLS OK".toList,
          nofun, hrun⟩
    · rw [if_pos hok] at hrun
      exact .inr ⟨_, ofChars_ne_timeout _, hrun⟩
  · exact .inr herror

/-- What has to be on record before `STARTTLS` is sent. In the reads `d₀` the greeting arrived, and
with the reads `d₁` after the `CAPABILITY` command also `us` and the answer `t`. The answer is the
first frame with the tag of the command and says OK; the last capability list before it offers
STARTTLS. -/
structure Negotiated (d₀ d₁ : List Bytes) (g : Frame) (us : List Frame) (t : Frame) : Prop where
  greeting : responseFramer.Complete g
  greeted : g.1 <+: d₀.flatten
  others : ∀ u ∈ us, responseFramer.Complete u ∧ ¬ Answers "T0001" u
  answer : responseFramer.Complete t ∧ AnswersOk "T0001" t
  answered : wire (g :: us ++ [t]) <+: d₀.flatten ++ d₁.flatten
  offered : ∃ atoms, lastCapabilityList (us.map Prod.snd) = some atoms ∧
    ∃ a ∈ atoms, a.eqCi "STARTTLS" = true

/-- The first command. -/
def capabilityLine : Bytes := ascii "T0001 CAPABILITY\r\n"

/-- The second command. -/
def starttlsLine : Bytes := ascii "T0002 STARTTLS\r\n"

/-- What may have been read and written when the exchange ends in an error: no command is sent
before what it depends on was read, and nothing is sent after a failure. -/
inductive Conversation : List Event → Prop
  /-- Nothing was written. -/
  | listening (d₀ : List Bytes) : Conversation (reads d₀)
  /-- The first command, or the part of it that the peer accepted. -/
  | asking {d₀ : List Bytes} {g : Frame} {sent : Bytes} : responseFramer.Complete g →
      g.1 <+: d₀.flatten → sent <+: capabilityLine → Conversation (reads d₀ ++ [.write sent])
  /-- The first command was sent. -/
  | asked {d₀ d₁ : List Bytes} {g : Frame} : responseFramer.Complete g → g.1 <+: d₀.flatten →
      Conversation (reads d₀ ++ .write capabilityLine :: reads d₁)
  /-- The second command, or the part of it that the peer accepted. -/
  | upgrading {d₀ d₁ : List Bytes} {g : Frame} {us : List Frame} {t : Frame} {sent : Bytes} :
      Negotiated d₀ d₁ g us t → sent <+: starttlsLine →
      Conversation (reads d₀ ++ .write capabilityLine :: (reads d₁ ++ [.write sent]))
  /-- Both commands were sent. -/
  | upgraded {d₀ d₁ d₂ : List Bytes} {g : Frame} {us : List Frame} {t : Frame} :
      Negotiated d₀ d₁ g us t → Conversation
        (reads d₀ ++ .write capabilityLine :: (reads d₁ ++ .write starttlsLine :: reads d₂))

/-- What is left on the connection after the exchange succeeded. -/
structure Upgraded (c : Conn) : Prop where
  conversation : ∃ d₀ d₁ d₂ g us t₁ vs t₂, Negotiated d₀ d₁ g us t₁ ∧
    (∀ v ∈ vs, responseFramer.Complete v ∧ ¬ Answers "T0002" v) ∧
    responseFramer.Complete t₂ ∧ AnswersOk "T0002" t₂ ∧
    d₀.flatten ++ d₁.flatten ++ d₂.flatten = wire (g :: us ++ t₁ :: vs ++ [t₂]) ∧
    c.log = reads d₀ ++ .write capabilityLine :: (reads d₁ ++ .write starttlsLine :: reads d₂)
  empty : c.buf = []

theorem writeAll_cases (bytes : Bytes) (c : Conn) :
    (∃ c₁, writeAll bytes c = (.ok (), c₁) ∧ c₁.log = c.log ++ [.write bytes] ∧ c₁.buf = c.buf) ∨
      ∃ c₁ sent, writeAll bytes c = (.error .io, c₁) ∧ c₁.log = c.log ++ [.write sent] ∧
        sent <+: bytes := by
  rw [writeAll]
  cases c.accepts with
  | none => exact .inl ⟨_, rfl, rfl, rfl⟩
  | some n =>
    dsimp only
    split
    · exact .inl ⟨_, rfl, rfl, rfl⟩
    · exact .inr ⟨_, _, rfl, rfl, List.take_prefix _ _⟩

/-- How the exchange may end. -/
def EndsWell (out : Except ClientError Unit × Conn) : Prop :=
  (out.1 = .ok () ∧ Upgraded out.2) ∨
    ∃ e, out.1 = .error e ∧ e ≠ .timeout ∧ Conversation out.2.log

theorem EndsWell.of_error {c : Conn} {e : ClientError} (he : e ≠ .timeout)
    (h : Conversation c.log) : EndsWell (.error e, c) := .inr ⟨e, rfl, he, h⟩

/-- The last part of the exchange, once everything `STARTTLS` depends on was read. -/
theorem upgrade_endsWell {c : Conn} {d₀ d₁ : List Bytes} {g : Frame} {us : List Frame} {t : Frame}
    (hneg : Negotiated d₀ d₁ g us t)
    (hlog : c.log = reads d₀ ++ .write capabilityLine :: reads d₁)
    (hbuf : d₀.flatten ++ d₁.flatten = wire (g :: us ++ [t]) ++ c.buf) :
    EndsWell ((writeAll starttlsLine >>= fun _ => awaitStarttls) c) := by
  rcases writeAll_cases starttlsLine c with ⟨c₁, hw, hlog₁, hbuf₁⟩ | ⟨c₁, sent, hw, hlog₁, hsent⟩
  · rw [run_bind_ok hw]
    obtain ⟨d₂, c₂, hreads, hcase⟩ := awaitStarttls_spec c₁
    have hlog₂ : c₂.log
        = reads d₀ ++ .write capabilityLine :: (reads d₁ ++ .write starttlsLine :: reads d₂) := by
      rw [hreads, hlog₁, hlog]
      simp
    rcases hcase with ⟨vs, t₂, hvs, ht₂, hok, hbuf₂, hempty, hrun⟩ | ⟨e, he, hrun⟩
    · rw [hrun]
      refine .inl ⟨rfl, ⟨⟨d₀, d₁, d₂, g, us, t, vs, t₂, hneg, hvs, ht₂, hok, ?_, hlog₂⟩, hempty⟩⟩
      rw [hbuf, List.append_assoc, ← hbuf₁, hbuf₂]
      simp
    · rw [hrun]
      refine .of_error he ?_
      rw [hlog₂]
      exact .upgraded hneg
  · rw [run_bind_error hw]
    refine .of_error nofun ?_
    rw [hlog₁, hlog]
    have hlist : reads d₀ ++ Event.write capabilityLine :: reads d₁ ++ [.write sent]
        = reads d₀ ++ .write capabilityLine :: (reads d₁ ++ [.write sent]) := by simp
    rw [hlist]
    exact .upgrading hneg hsent

/-- The part of the exchange after the first command. -/
theorem capabilities_endsWell {c : Conn} {d₀ : List Bytes} {g : Frame}
    (hg : responseFramer.Complete g) (hlog : c.log = reads d₀ ++ [.write capabilityLine])
    (hbuf : d₀.flatten = g.1 ++ c.buf) :
    EndsWell ((do
      let caps ← awaitCapabilities
      if !caps.starttls then
        throw (.commandFailed "server does not advertise STARTTLS".toList)
      else do
        writeAll starttlsLine
        awaitStarttls : StartM Unit) c) := by
  have hgreeted : g.1 <+: d₀.flatten := ⟨c.buf, hbuf.symm⟩
  obtain ⟨d₁, c₁, hreads, hcase⟩ := awaitCapabilities_spec c
  have hlog₁ : c₁.log = reads d₀ ++ .write capabilityLine :: reads d₁ := by
    rw [hreads, hlog, List.append_assoc]
    rfl
  have hasked : Conversation c₁.log := by
    rw [hlog₁]
    exact .asked hg hgreeted
  rcases hcase with ⟨us, t, hus, ht, hok, hbuf₁, hrun⟩ | ⟨e, he, hrun⟩
  · rw [run_bind_ok hrun]
    have hread : d₀.flatten ++ d₁.flatten = wire (g :: us ++ [t]) ++ c₁.buf := by
      rw [hbuf, List.append_assoc, hbuf₁]
      simp
    have hcaps := Capabilities.updateAll_eq Capabilities.none (us.map Prod.snd)
    by_cases hst : (Capabilities.none.updateAll (us.map Prod.snd)).starttls
    · rw [hst, Bool.not_true, if_neg Bool.false_ne_true]
      refine upgrade_endsWell ⟨hg, hgreeted, hus, ⟨ht, hok⟩, ⟨_, hread.symm⟩, ?_⟩ hlog₁ hread
      cases hlast : lastCapabilityList (us.map Prod.snd) with
      | none =>
        rw [hcaps, hlast] at hst
        cases hst
      | some atoms =>
        rw [hcaps, hlast] at hst
        dsimp only at hst
        rw [Capabilities.fromAtoms_starttls] at hst
        exact ⟨atoms, rfl, List.any_eq_true.mp hst⟩
    · rw [Bool.not_eq_true] at hst
      rw [hst, Bool.not_false, if_pos rfl]
      exact .of_error nofun hasked
  · rw [run_bind_error hrun]
    exact .of_error he hasked

theorem starttlsSteps_endsWell (incoming : Bytes) (cuts : List ℕ) (broken : Bool)
    (accepts : Option ℕ) : EndsWell (starttlsSteps (Conn.start incoming cuts broken accepts)) := by
  obtain ⟨d₀, hreads, hr⟩ := readFrameFrom_spec (Conn.start incoming cuts broken accepts) cuts
  rw [starttlsSteps]
  cases hread : readOneFrame (Conn.start incoming cuts broken accepts) with
  | mk result c =>
    rw [show readFrameFrom (Conn.start incoming cuts broken accepts) cuts = (result, c)
      from hread] at hreads hr
    have hlog : c.log = reads d₀ := hreads
    cases result with
    | error e =>
      rw [run_bind_error hread]
      refine .of_error hr ?_
      rw [hlog]
      exact .listening d₀
    | ok f =>
      obtain ⟨⟨response, hg⟩, hbuf, -⟩ := hr
      have hbuf : d₀.flatten = f ++ c.buf := hbuf
      rw [run_bind_ok hread]
      rcases writeAll_cases capabilityLine c with
        ⟨c₁, hw, hlog₁, hbuf₁⟩ | ⟨c₁, sent, hw, hlog₁, hsent⟩
      · rw [show ascii "T0001 CAPABILITY\r\n" = capabilityLine from rfl, run_bind_ok hw]
        have hlog₁' : c₁.log = reads d₀ ++ [.write capabilityLine] := by rw [hlog₁, hlog]
        have hbuf₁' : d₀.flatten = f ++ c₁.buf := by rw [hbuf₁, hbuf]
        exact capabilities_endsWell hg hlog₁' hbuf₁'
      · rw [show ascii "T0001 CAPABILITY\r\n" = capabilityLine from rfl, run_bind_error hw]
        refine .of_error nofun ?_
        rw [hlog₁, hlog]
        exact .asking hg ⟨c.buf, hbuf.symm⟩ hsent

/-- **The STARTTLS exchange is safe.** Whatever the peer sends and however it is cut into reads, the
exchange succeeds only if the bytes read are the greeting, frames that do not answer `T0001`, its
OK, frames that do not answer `T0002`, and its OK, with nothing left in the buffer; the last
capability list before the first OK offers STARTTLS; and the bytes written are the two commands,
the second after the first OK was read. Every other run ends in an error, and has sent nothing
before what it depends on and nothing after the failure. -/
theorem starttlsSteps_safe (incoming : Bytes) (cuts : List ℕ) (broken : Bool)
    (accepts : Option ℕ) :
    ((starttlsExchange incoming cuts broken accepts).1 = .ok () →
      (starttlsExchange incoming cuts broken accepts).2.buf = [] ∧
      ∃ d₀ d₁ d₂ g us t₁ vs t₂, Negotiated d₀ d₁ g us t₁ ∧
        (∀ v ∈ vs, responseFramer.Complete v ∧ ¬ Answers "T0002" v) ∧
        responseFramer.Complete t₂ ∧ AnswersOk "T0002" t₂ ∧
        d₀.flatten ++ d₁.flatten ++ d₂.flatten = wire (g :: us ++ t₁ :: vs ++ [t₂]) ∧
        (starttlsExchange incoming cuts broken accepts).2.log
          = reads d₀ ++ .write capabilityLine :: (reads d₁ ++ .write starttlsLine :: reads d₂)) ∧
    ((starttlsExchange incoming cuts broken accepts).1 ≠ .ok () →
      ∃ e, (starttlsExchange incoming cuts broken accepts).1 = .error e ∧ e ≠ .timeout ∧
        Conversation (starttlsExchange incoming cuts broken accepts).2.log) := by
  rcases starttlsSteps_endsWell incoming cuts broken accepts with ⟨hok, hup⟩ | ⟨e, herr, hrest⟩
  · exact ⟨fun _ => ⟨hup.empty, hup.conversation⟩, fun h => absurd hok h⟩
  · refine ⟨fun h => ?_, fun _ => ⟨e, herr, hrest⟩⟩
    rw [starttlsExchange, herr] at h
    cases h

/-- Four frames, the last an answer to `STARTTLS`. -/
def fourFrames (last : String) : Bytes :=
  ascii "* OK ready\r\n* CAPABILITY IMAP4rev2 StartTLS\r\nT0001 OK done\r\n" ++ ascii last

/-- Four frames in three reads, and a refusal in place of the last. -/
theorem starttlsSteps_safe_fourFrames :
    (let run := starttlsExchange (fourFrames "T0002 OK go\r\n") [5, 40, 100] false none
    run.2.buf = [] ∧
      ∃ d₀ d₁ d₂ g us t₁ vs t₂, Negotiated d₀ d₁ g us t₁ ∧
        (∀ v ∈ vs, responseFramer.Complete v ∧ ¬ Answers "T0002" v) ∧
        responseFramer.Complete t₂ ∧ AnswersOk "T0002" t₂ ∧
        d₀.flatten ++ d₁.flatten ++ d₂.flatten = wire (g :: us ++ t₁ :: vs ++ [t₂]) ∧
        run.2.log
          = reads d₀ ++ .write capabilityLine :: (reads d₁ ++ .write starttlsLine :: reads d₂)) ∧
    (let run := starttlsExchange (fourFrames "T0002 NO not now\r\n") [5, 40, 100] false none
    ∃ e, run.1 = .error e ∧ e ≠ .timeout ∧ Conversation run.2.log) := by
  have hok : (starttlsExchange (fourFrames "T0002 OK go\r\n") [5, 40, 100] false none).1
      = .ok () := by
    decide +kernel
  have hrefused : (starttlsExchange (fourFrames "T0002 NO not now\r\n") [5, 40, 100] false none).1
      ≠ .ok () := by
    decide +kernel
  exact ⟨(starttlsSteps_safe _ _ _ _).1 hok, (starttlsSteps_safe _ _ _ _).2 hrefused⟩

end ImapRs
