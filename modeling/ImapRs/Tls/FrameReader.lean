import ImapRs.Tls.Starttls

/-!
# Reading frames before TLS

`read_one_frame` of `imap-tls/src/lib.rs` over a whole stream: one buffer is shared by successive
calls, and no read asks for more than the room left in it. What the calls return is decided by the
stream alone, however it is cut into reads.

The proofs compare the buffer with the stream. As long as a frame is unfinished the buffer is a
proper prefix of it, and asks for more; behind the last frame the buffer is a prefix of the first
`MAX_PRE_TLS_FRAME` bytes that are left, and those decide how the calls end.

## Main definitions

* `PreTlsEnd`, `PreTlsDelimits` — how a stream ends, and the frames before that
* `Calls` — calls of `read_one_frame` until one fails
* `ReadStep` — what happens to the buffer within a call

## Main results

* `preTlsDelimits_exists` — every stream is frames and an end
* `readOneFrame_stream` — the calls return the frames of the stream and its end, and the buffer
  stays within the ceiling
-/

namespace ImapRs

open Incremental

/-! ### Streams -/

/-- What the calls end in when no frame within the ceiling is left at the front of `t`. -/
inductive PreTlsEnd (t : Bytes) : ClientError → Prop
  /-- The next frame is longer than the ceiling. -/
  | tooLarge {f : Frame} {rest : Bytes} :
      responseFramer.Complete f → t = f.1 ++ rest → MAX_PRE_TLS_FRAME < f.1.length →
      PreTlsEnd t (.frameTooLarge MAX_PRE_TLS_FRAME)
  /-- As many bytes as the ceiling allows, and the frame is still unfinished. -/
  | unfinished :
      parseResponse (t.take MAX_PRE_TLS_FRAME) = .error .incomplete →
      MAX_PRE_TLS_FRAME ≤ t.length → PreTlsEnd t (.frameTooLarge MAX_PRE_TLS_FRAME)
  /-- An error shows within the ceiling. -/
  | malformed {pe : ParseError} :
      parseResponse (t.take MAX_PRE_TLS_FRAME) = .error pe → pe ≠ .incomplete →
      PreTlsEnd t (.commandFailed "malformed pre-TLS response".toList)
  /-- The stream ends before that. -/
  | closed :
      parseResponse t = .error .incomplete → t.length < MAX_PRE_TLS_FRAME →
      PreTlsEnd t .connectionClosed

/-- The frames at the front of a stream that are within the ceiling, and how it ends. -/
structure PreTlsDelimits (stream : Bytes) (frames : List Frame) (t : Bytes) (e : ClientError) :
    Prop where
  split : stream = wire frames ++ t
  complete : ∀ f ∈ frames, responseFramer.Complete f
  within : ∀ f ∈ frames, f.1.length ≤ MAX_PRE_TLS_FRAME
  ends : PreTlsEnd t e

/-- Whatever the end is, it shows in the bytes within the ceiling. -/
theorem PreTlsEnd.verdict {t : Bytes} {e : ClientError} (h : PreTlsEnd t e) :
    (∃ pe, parseResponse (t.take MAX_PRE_TLS_FRAME) = .error pe ∧ pe ≠ .incomplete ∧
      e = .commandFailed "malformed pre-TLS response".toList) ∨
    (parseResponse (t.take MAX_PRE_TLS_FRAME) = .error .incomplete ∧
      ((t.length < MAX_PRE_TLS_FRAME ∧ e = .connectionClosed) ∨
        (MAX_PRE_TLS_FRAME ≤ t.length ∧ e = .frameTooLarge MAX_PRE_TLS_FRAME))) := by
  cases h with
  | @tooLarge f rest hf ht hlong =>
    have hlen : t.length = f.1.length + rest.length := by rw [ht, List.length_append]
    have htake : t.take MAX_PRE_TLS_FRAME = f.1.take MAX_PRE_TLS_FRAME := by
      rw [ht, List.take_append_of_le_length (Nat.le_of_lt hlong)]
    have hne : f.1.take MAX_PRE_TLS_FRAME ≠ f.1 := by
      intro heq
      have := congrArg List.length heq
      rw [List.length_take] at this
      omega
    refine .inr ⟨?_, .inr ⟨by omega, rfl⟩⟩
    rw [htake]
    exact Framer.incomplete_of_prefix hf (List.take_prefix _ _) hne
  | unfinished hinc hle => exact .inr ⟨hinc, .inr ⟨hle, rfl⟩⟩
  | malformed herr hne => exact .inl ⟨_, herr, hne, rfl⟩
  | closed hinc hlt =>
    refine .inr ⟨?_, .inl ⟨hlt, rfl⟩⟩
    rwa [List.take_of_length_le (Nat.le_of_lt hlt)]

/-- **Every stream is frames within the ceiling and an end.** -/
theorem preTlsDelimits_exists (stream : Bytes) :
    ∃ frames t e, PreTlsDelimits stream frames t e := by
  induction hn : stream.length using Nat.strong_induction_on generalizing stream with
  | _ n ih =>
    cases hp : parseResponse (stream.take MAX_PRE_TLS_FRAME) with
    | ok v =>
      obtain ⟨f, hne, hsplit, hf⟩ := parseResponse_prefix hp
      have hstream : stream = f ++ (v.1 ++ stream.drop MAX_PRE_TLS_FRAME) := by
        rw [← List.append_assoc, ← hsplit, List.take_append_drop]
      have hpos := List.length_pos_iff.mpr hne
      have hlen := congrArg List.length hstream
      have hshort := congrArg List.length hsplit
      rw [List.length_append] at hlen hshort
      rw [List.length_take] at hshort
      obtain ⟨frames, t, e, hrest⟩ := ih _ (by omega) (v.1 ++ stream.drop MAX_PRE_TLS_FRAME) rfl
      refine ⟨(f, v.2) :: frames, t, e, ⟨?_, ?_, ?_, hrest.ends⟩⟩
      · rw [wire_cons, List.append_assoc, ← hrest.split]
        exact hstream
      · exact List.forall_mem_cons.mpr ⟨hf, hrest.complete⟩
      · exact List.forall_mem_cons.mpr ⟨show f.length ≤ _ by omega, hrest.within⟩
    | error pe =>
      have hnone : ∀ e, PreTlsEnd stream e →
          ∃ frames t e, PreTlsDelimits stream frames t e := fun e he =>
        ⟨[], stream, e, ⟨rfl, by simp, by simp, he⟩⟩
      by_cases hpe : pe = .incomplete
      · subst hpe
        by_cases hle : MAX_PRE_TLS_FRAME ≤ stream.length
        · exact hnone _ (.unfinished hp hle)
        · have hlt := Nat.lt_of_not_le hle
          rw [List.take_of_length_le (Nat.le_of_lt hlt)] at hp
          exact hnone _ (.closed hp hlt)
      · exact hnone _ (.malformed hp hpe)

/-! ### Calls -/

/-- Successive calls on one connection: the frames they return, the error of the call that fails,
and the connection afterwards. -/
inductive Calls : Conn → List Bytes → ClientError → Conn → Prop
  | fail {c c' : Conn} {e : ClientError} : readOneFrame c = (.error e, c') → Calls c [] e c'
  | frame {c c' c'' : Conn} {f : Bytes} {fs : List Bytes} {e : ClientError} :
      readOneFrame c = (.ok f, c') → Calls c' fs e c'' → Calls c (f :: fs) e c''

/-- The connection once a read has returned `data`. -/
def Conn.receive (c : Conn) (data : Bytes) : Conn :=
  { c with
    incoming := c.incoming.drop data.length
    buf := c.buf ++ data
    log := c.log ++ [.read data] }

/-- What the next read returns when `n` bytes are there. -/
def Conn.available (c : Conn) (n : ℕ) : Bytes :=
  c.incoming.take (min n (MAX_PRE_TLS_FRAME - c.buf.length))

/-- What one round of the loop of `read_one_frame` does: it takes a frame off, or it reads. -/
inductive ReadStep : Conn → Conn → Prop
  | split {c : Conn} {f : Frame} {rest : Bytes} :
      preTlsScan c.buf = .frame f rest → ReadStep c { c with buf := rest }
  | read {c : Conn} {n : ℕ} {cuts : List ℕ} :
      preTlsScan c.buf = .wait → c.cuts = n :: cuts →
      ReadStep c { c.receive (c.available n) with cuts := cuts }
  /-- A read at the end of the stream. -/
  | eof {c : Conn} {n : ℕ} {cuts : List ℕ} :
      preTlsScan c.buf = .wait → c.cuts = n :: cuts → ReadStep c { c with cuts := cuts }

/-- A state of the connection on the way from `c`. -/
abbrev ReadSteps : Conn → Conn → Prop := Relation.ReflTransGen ReadStep

theorem ReadStep.buf_le {c c' : Conn} (h : ReadStep c c')
    (hc : c.buf.length ≤ MAX_PRE_TLS_FRAME) : c'.buf.length ≤ MAX_PRE_TLS_FRAME := by
  cases h with
  | @split f rest hscan =>
    have hlen := congrArg List.length (preTlsScan_frame hscan).2
    rw [List.length_append] at hlen
    show rest.length ≤ _
    omega
  | @read n _ _ _ =>
    have hroom := List.length_take_le (min n (MAX_PRE_TLS_FRAME - c.buf.length)) c.incoming
    show (c.buf ++ c.available n).length ≤ _
    rw [List.length_append, Conn.available]
    omega
  | eof _ _ => exact hc

/-- **The buffer stays within the ceiling.** -/
theorem ReadSteps.buf_le {c c' : Conn} (h : ReadSteps c c')
    (hc : c.buf.length ≤ MAX_PRE_TLS_FRAME) : c'.buf.length ≤ MAX_PRE_TLS_FRAME := by
  induction h with
  | refl => exact hc
  | tail _ hstep ih => exact hstep.buf_le ih

/-- A call goes through such states. -/
theorem readFrameFrom_steps (c : Conn) (cuts : List ℕ) :
    ReadSteps { c with cuts := cuts } (readFrameFrom c cuts).2 := by
  induction cuts generalizing c with
  | nil =>
    rw [readFrameFrom]
    cases hscan : preTlsScan c.buf with
    | frame f rest => exact .single (.split hscan)
    | stop e => exact .refl
    | wait => exact .refl
  | cons n cuts ih =>
    rw [readFrameFrom]
    cases hscan : preTlsScan c.buf with
    | frame f rest => exact .single (.split hscan)
    | stop e => exact .refl
    | wait =>
      dsimp only
      split
      · exact .single (.eof hscan rfl)
      · have hread : ReadStep { c with cuts := n :: cuts }
            { c.receive (c.available n) with cuts := cuts } := .read hscan rfl
        exact .head hread (ih (c.receive (c.available n)))

theorem Calls.steps {c c' : Conn} {fs : List Bytes} {e : ClientError} (h : Calls c fs e c') :
    ReadSteps c c' := by
  have hcall : ∀ {c c' : Conn} {r}, readOneFrame c = (r, c') → ReadSteps c c' := by
    intro c c' r hrun
    have hsteps := readFrameFrom_steps c c.cuts
    rwa [show readFrameFrom c c.cuts = (r, c') from hrun] at hsteps
  induction h with
  | fail hrun => exact hcall hrun
  | frame hrun _ ih => exact (hcall hrun).trans ih

/-! ### Looking at the buffer -/

theorem preTlsScan_of_complete {f : Frame} (hf : responseFramer.Complete f) (y : Bytes) :
    preTlsScan (f.1 ++ y) = .frame f y := by
  have hne : (f.1 ++ y).isEmpty = false := by simp [hf.ne_nil]
  have hok : parseResponse (f.1 ++ y) = .ok (y, f.2) := hf.decode_append y
  rw [preTlsScan, hne, if_neg Bool.false_ne_true, hok]
  simp

theorem preTlsScan_of_incomplete {b : Bytes} (h : parseResponse b = .error .incomplete) :
    preTlsScan b = preTlsResidue b := by
  rw [preTlsScan, h, ite_self]

theorem preTlsScan_of_error {b : Bytes} {pe : ParseError} (h : parseResponse b = .error pe)
    (hne : pe ≠ .incomplete) :
    preTlsScan b = .stop (.commandFailed "malformed pre-TLS response".toList) := by
  have hb : b.isEmpty = false := by
    rw [List.isEmpty_eq_false_iff]
    rintro rfl
    rw [parseResponse_nil] at h
    exact hne (Except.error.inj h).symm
  rw [preTlsScan, hb, if_neg Bool.false_ne_true, h]
  cases pe <;> first | rfl | exact absurd rfl hne

theorem preTlsResidue_wait {b : Bytes} (h : b.length < MAX_PRE_TLS_FRAME) :
    preTlsResidue b = .wait :=
  if_neg (by omega)

/-- Before the end of the stream the buffer is looked at in vain, until the end shows. -/
theorem preTlsScan_of_end {b more : Bytes} {e : ClientError} (h : PreTlsEnd (b ++ more) e)
    (hle : b.length ≤ MAX_PRE_TLS_FRAME) :
    preTlsScan b = .stop e ∨
      (preTlsScan b = .wait ∧ b.length < MAX_PRE_TLS_FRAME ∧
        (more = [] → e = .connectionClosed)) := by
  -- the bytes that decide, of which the buffer is a prefix
  have hpre : (b ++ more).take MAX_PRE_TLS_FRAME
      = b ++ more.take (MAX_PRE_TLS_FRAME - b.length) := by
    rw [List.take_append, List.take_of_length_le hle]
  have hv := h.verdict
  rw [hpre] at hv
  cases hp : parseResponse b with
  | ok v =>
    have hok := parseResponse_append_ok hp (more.take (MAX_PRE_TLS_FRAME - b.length))
    rcases hv with ⟨pe, herr, _⟩ | ⟨herr, _⟩
    all_goals
      rw [hok] at herr
      cases herr
  | error pe =>
    by_cases hpe : pe = .incomplete
    · subst hpe
      rw [preTlsScan_of_incomplete hp]
      by_cases hlt : b.length < MAX_PRE_TLS_FRAME
      · refine .inr ⟨preTlsResidue_wait hlt, hlt, ?_⟩
        rintro rfl
        rw [List.take_nil, List.append_nil] at hv
        rcases hv with ⟨pe, herr, hne, _⟩ | ⟨_, ⟨_, rfl⟩ | ⟨hmax, _⟩⟩
        · rw [hp] at herr
          exact absurd (Except.error.inj herr).symm hne
        · rfl
        · exact absurd hmax (Nat.not_le.mpr hlt)
      · -- the buffer is full, so it is all that decides
        rw [show MAX_PRE_TLS_FRAME - b.length = 0 by omega, List.take_zero, List.append_nil] at hv
        rcases hv with ⟨pe, herr, hne, _⟩ | ⟨_, ⟨hshort, _⟩ | ⟨_, rfl⟩⟩
        · rw [hp] at herr
          exact absurd (Except.error.inj herr).symm hne
        · rw [List.length_append] at hshort
          omega
        · exact .inl (if_pos (by omega))
    · rcases hv with ⟨_, _, _, rfl⟩ | ⟨herr, _⟩
      · exact .inl (preTlsScan_of_error hp hpe)
      · obtain ⟨e', hne', he'⟩ :=
          parseResponse_append_error hp hpe (more.take (MAX_PRE_TLS_FRAME - b.length))
        rw [he'] at herr
        exact absurd (Except.error.inj herr) hne'

/-! ### Reading a stream -/

/-- The stream does not break, and there are reads for all of it. -/
structure Fed (c : Conn) (cuts : List ℕ) : Prop where
  ends : c.broken = false
  positive : ∀ n ∈ cuts, 0 < n
  enough : c.incoming.length ≤ cuts.length
  within : c.buf.length ≤ MAX_PRE_TLS_FRAME

/-- What is left of the stream for the calls to come. -/
def Conn.stream (c : Conn) : Bytes := c.buf ++ c.incoming

section Reading

variable {c : Conn} {n : ℕ} {cuts : List ℕ}

theorem Conn.stream_receive : (c.receive (c.available n)).stream = c.stream := by
  have hlen : c.incoming.drop (c.available n).length
      = c.incoming.drop (min n (MAX_PRE_TLS_FRAME - c.buf.length)) := by
    rw [available, List.length_take]
    exact List.drop_eq_drop_iff.mpr (by omega)
  show (c.buf ++ c.available n) ++ c.incoming.drop _ = _
  rw [hlen, available, List.append_assoc, List.take_append_drop]
  rfl

/-- Something is read as long as there is something and there is room. -/
theorem Fed.read (h : Fed c (n :: cuts)) (hin : c.incoming ≠ [])
    (hroom : c.buf.length < MAX_PRE_TLS_FRAME) (hwait : preTlsScan c.buf = .wait) :
    Fed (c.receive (c.available n)) cuts ∧
      readFrameFrom c (n :: cuts) = readFrameFrom (c.receive (c.available n)) cuts := by
  have hn := h.positive n List.mem_cons_self
  have hpos := List.length_pos_iff.mpr hin
  have hlen : (c.available n).length
      = min (min n (MAX_PRE_TLS_FRAME - c.buf.length)) c.incoming.length := by
    rw [Conn.available, List.length_take]
  have henough := h.enough
  rw [List.length_cons] at henough
  have hne : (c.available n).isEmpty = false := by
    rw [List.isEmpty_eq_false_iff]
    exact List.ne_nil_of_length_pos (by omega)
  refine ⟨⟨h.ends, fun k hk => h.positive k (List.mem_cons_of_mem _ hk), ?_, ?_⟩, ?_⟩
  · show (c.incoming.drop _).length ≤ _
    rw [List.length_drop]
    omega
  · show (c.buf ++ _).length ≤ _
    rw [List.length_append]
    omega
  · rw [readFrameFrom, hwait]
    dsimp only
    rw [show c.incoming.take (min n (MAX_PRE_TLS_FRAME - c.buf.length)) = c.available n from rfl,
      hne, if_neg Bool.false_ne_true]
    rfl

/-- **A frame within the ceiling is returned**, and what is behind it is left for the next call. -/
theorem readFrameFrom_of_complete {f : Frame} {y : Bytes} (hf : responseFramer.Complete f)
    (hmax : f.1.length ≤ MAX_PRE_TLS_FRAME) (h : Fed c cuts) (hx : c.stream = f.1 ++ y) :
    ∃ c', readFrameFrom c cuts = (.ok f.1, c') ∧ Fed c' c'.cuts ∧ c'.stream = y := by
  induction cuts generalizing c with
  | nil =>
    have hin : c.incoming = [] := List.length_eq_zero_iff.mp (Nat.le_zero.mp h.enough)
    have hbuf : c.buf = f.1 ++ y := by rw [← hx, Conn.stream, hin, List.append_nil]
    have hscan : preTlsScan c.buf = .frame f y := hbuf ▸ preTlsScan_of_complete hf y
    have hlen := congrArg List.length hbuf
    rw [List.length_append] at hlen
    have hle := h.within
    refine ⟨{ c with cuts := [], buf := y }, ?_, ⟨h.ends, h.positive, h.enough, ?_⟩, ?_⟩
    · rw [readFrameFrom, hscan]
    · show y.length ≤ _
      omega
    · show y ++ c.incoming = y
      rw [hin, List.append_nil]
  | cons n cuts ih =>
    by_cases hpre : ∃ z, c.buf = f.1 ++ z
    · obtain ⟨z, hbuf⟩ := hpre
      have hscan : preTlsScan c.buf = .frame f z := hbuf ▸ preTlsScan_of_complete hf z
      have hlen := congrArg List.length hbuf
      rw [List.length_append] at hlen
      have hle := h.within
      refine ⟨{ c with cuts := n :: cuts, buf := z }, ?_, ⟨h.ends, h.positive, h.enough, ?_⟩, ?_⟩
      · rw [readFrameFrom, hscan]
      · show z.length ≤ _
        omega
      · rw [Conn.stream, hbuf, List.append_assoc] at hx
        exact List.append_cancel_left hx
    · -- the buffer is a proper prefix of the frame
      have hbuf : c.buf <+: f.1 ∧ c.buf ≠ f.1 := by
        have hc : c.buf <+: f.1 ++ y := ⟨c.incoming, hx⟩
        rcases List.prefix_or_prefix_of_prefix hc (List.prefix_append f.1 y) with hb | ⟨z, hz⟩
        · exact ⟨hb, fun heq => hpre ⟨[], by rw [heq, List.append_nil]⟩⟩
        · exact absurd ⟨z, hz.symm⟩ hpre
      have hlt : c.buf.length < f.1.length :=
        Nat.lt_of_le_of_ne hbuf.1.length_le fun heq => hbuf.2 (hbuf.1.eq_of_length heq)
      have hinc : parseResponse c.buf = .error .incomplete :=
        Framer.incomplete_of_prefix hf hbuf.1 hbuf.2
      have hwait : preTlsScan c.buf = .wait := by
        rw [preTlsScan_of_incomplete hinc]
        exact preTlsResidue_wait (by omega)
      have hin : c.incoming ≠ [] := by
        intro hnil
        have hlen := congrArg List.length hx
        rw [Conn.stream, hnil, List.append_nil, List.length_append] at hlen
        omega
      obtain ⟨hfed, hrun⟩ := h.read hin (by omega) hwait
      rw [hrun]
      exact ih hfed (Conn.stream_receive.trans hx)

/-- **The end of the stream is reported.** -/
theorem readFrameFrom_of_end {e : ClientError} (hend : PreTlsEnd c.stream e) (h : Fed c cuts) :
    ∃ c', readFrameFrom c cuts = (.error e, c') := by
  have hlook := preTlsScan_of_end hend h.within
  induction cuts generalizing c with
  | nil =>
    have hin : c.incoming = [] := List.length_eq_zero_iff.mp (Nat.le_zero.mp h.enough)
    refine ⟨{ c with cuts := [] }, ?_⟩
    rcases hlook with hstop | ⟨hwait, _, hclosed⟩
    · rw [readFrameFrom, hstop]
    · rw [readFrameFrom, hwait, hclosed hin, h.ends]
      rfl
  | cons n cuts ih =>
    rcases hlook with hstop | ⟨hwait, hlt, hclosed⟩
    · exact ⟨{ c with cuts := n :: cuts }, by rw [readFrameFrom, hstop]⟩
    · by_cases hin : c.incoming = []
      · refine ⟨{ c with cuts := cuts }, ?_⟩
        rw [readFrameFrom, hwait, hclosed hin, hin]
        simp only [List.take_nil, List.isEmpty_nil, if_true]
      · obtain ⟨hfed, hrun⟩ := h.read hin hlt hwait
        have hend' : PreTlsEnd (c.receive (c.available n)).stream e := by
          rw [Conn.stream_receive]
          exact hend
        rw [hrun]
        exact ih hend' hfed (preTlsScan_of_end hend' hfed.within)

/-- **The calls return the frames, then the end.** -/
theorem calls_of_delimits {frames : List Frame} {t : Bytes} {e : ClientError} (h : Fed c c.cuts)
    (hd : PreTlsDelimits c.stream frames t e) : ∃ c', Calls c (frames.map Prod.fst) e c' := by
  induction frames generalizing c with
  | nil =>
    have hend : PreTlsEnd c.stream e := by
      rw [hd.split]
      exact hd.ends
    obtain ⟨c', hrun⟩ := readFrameFrom_of_end hend h
    exact ⟨c', .fail hrun⟩
  | cons f frames ih =>
    have hx : c.stream = f.1 ++ (wire frames ++ t) := by
      rw [hd.split, wire_cons, List.append_assoc]
    obtain ⟨c₁, hrun, hfed, hrest⟩ := readFrameFrom_of_complete
      (hd.complete f List.mem_cons_self) (hd.within f List.mem_cons_self) h hx
    have hd' : PreTlsDelimits c₁.stream frames t e :=
      ⟨hrest, fun g hg => hd.complete g (List.mem_cons_of_mem _ hg),
        fun g hg => hd.within g (List.mem_cons_of_mem _ hg), hd.ends⟩
    obtain ⟨c', hcalls⟩ := ih hfed hd'
    exact ⟨c', .frame hrun hcalls⟩

end Reading

/-- A fresh connection whose stream is cut into `cuts`; what those do not reach arrives byte by
byte, and the stream then ends. -/
def Conn.cut (stream : Bytes) (cuts : List ℕ) (accepts : Option ℕ) : Conn :=
  .start stream (cuts ++ List.replicate stream.length 1) false accepts

theorem Conn.cut_fed {stream : Bytes} {cuts : List ℕ} {accepts : Option ℕ}
    (h : ∀ n ∈ cuts, 0 < n) :
    Fed (Conn.cut stream cuts accepts) (Conn.cut stream cuts accepts).cuts where
  ends := rfl
  positive := by
    intro n hn
    rcases List.mem_append.mp hn with hn | hn
    · exact h n hn
    · rw [List.eq_of_mem_replicate hn]
      exact Nat.one_pos
  enough := by
    show stream.length ≤ (cuts ++ List.replicate stream.length 1).length
    rw [List.length_append, List.length_replicate]
    exact Nat.le_add_left _ _
  within := Nat.zero_le _

/-- **The frame reader is bounded and independent of the cuts.** Every stream is frames within the
ceiling and an end. However it is cut into reads, successive calls return exactly those frames and
then the error of that end; and the buffer is never longer than the ceiling, neither between the
calls nor within one. -/
theorem readOneFrame_stream (stream : Bytes) :
    (∃ frames t e, PreTlsDelimits stream frames t e) ∧
      ∀ frames t e, PreTlsDelimits stream frames t e →
        ∀ cuts accepts, (∀ n ∈ cuts, 0 < n) →
          (∃ c, Calls (Conn.cut stream cuts accepts) (frames.map Prod.fst) e c ∧
            ReadSteps (Conn.cut stream cuts accepts) c) ∧
          ∀ c, ReadSteps (Conn.cut stream cuts accepts) c →
            c.buf.length ≤ MAX_PRE_TLS_FRAME := by
  refine ⟨preTlsDelimits_exists stream, ?_⟩
  intro frames t e hd cuts accepts hcuts
  obtain ⟨c, hcalls⟩ := calls_of_delimits (Conn.cut_fed hcuts) hd
  exact ⟨⟨c, hcalls, hcalls.steps⟩, fun _ hsteps => hsteps.buf_le (Nat.zero_le _)⟩

theorem preTlsDelimits_two : PreTlsDelimits (ascii "* OK hi\r\n* 2 EXISTS\r\n* 3")
    [(ascii "* OK hi\r\n", .status ⟨none, .ok, none, ⟨ascii "hi", by decide +kernel⟩⟩),
      (ascii "* 2 EXISTS\r\n", .data (.exists 2))] (ascii "* 3") .connectionClosed where
  split := by decide +kernel
  complete := by
    have hparse : ∀ f ∈ [(ascii "* OK hi\r\n", Response.status ⟨none, .ok, none,
        ⟨ascii "hi", by decide +kernel⟩⟩), (ascii "* 2 EXISTS\r\n", .data (.exists 2))],
        parseResponse f.1 = .ok ([], f.2) := by decide +kernel
    exact hparse
  within := by decide +kernel
  ends := .closed (by decide +kernel) (by decide +kernel)

/-- Two frames and a half, cut inside the first and inside the third. -/
theorem readOneFrame_stream_two :
    ∃ c, Calls (Conn.cut (ascii "* OK hi\r\n* 2 EXISTS\r\n* 3") [4, 19, 1] none)
      [ascii "* OK hi\r\n", ascii "* 2 EXISTS\r\n"] .connectionClosed c := by
  obtain ⟨c, hcalls, _⟩ :=
    ((readOneFrame_stream _).2 _ _ _ preTlsDelimits_two [4, 19, 1] none (by decide)).1
  exact ⟨c, hcalls⟩

end ImapRs
