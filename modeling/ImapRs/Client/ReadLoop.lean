import ImapRs.Client.Error
import ImapRs.Core.Framing
import ImapRs.Incremental.Framer
import Mathlib

/-!
# The read loop

`read_loop` of `imap-client/src/client.rs`, up to what it hands to `route_for` and
`dispatch_frame`. `scan` is one look at the buffer, `drain` is the inner `while`, `ReadLoop.step`
the body of the outer `loop` for one result of `read_buf`.

The server's bytes arrive cut in arbitrary places. The parser's laws (a frame that was found stays,
an error that was found stays, a proper prefix of a frame asks for more) make the cuts invisible.

## Main definitions

* `scan`, `drain`, `ReadLoop.step`, `readLoop` — the loop
* `responseFramer` — `parse_response` as a framer

## Main results

* `drain_wire` — draining a run of frames dispatches them and keeps the tail
* `readLoop_chunks` — the frames dispatched do not depend on how the stream was cut
-/

namespace ImapRs

open Incremental

/-- A parsed frame: its bytes and the response they hold. -/
abbrev Frame := Bytes × Response

/-- What one `read_buf` returns: the bytes appended to the buffer (`Ok(n)`; none at the end of the
stream), or an error. -/
inductive ReadResult where
  | ok (bytes : Bytes)
  | error
  deriving DecidableEq, Repr

/-- What a look at the buffer finds. -/
inductive Scan where
  /-- A frame, and the buffer after it. -/
  | frame (frame : Frame) (buffer : Bytes)
  /-- Nothing complete: read again. -/
  | wait
  /-- The connection is beyond repair. -/
  | stop (e : ClientError)
  deriving DecidableEq, Repr

/-- The check after the inner loop: refuse to buffer an incomplete frame past the ceiling. -/
def scanResidue (maxFrameSize : ℕ) (buffer : Bytes) : Scan :=
  if maxFrameSize < buffer.length then .stop (.frameTooLarge maxFrameSize) else .wait

/-- One round of `while !buffer.is_empty()`, with the check that follows the loop. -/
def scan (maxFrameSize : ℕ) (buffer : Bytes) : Scan :=
  if buffer.isEmpty then scanResidue maxFrameSize buffer
  else
    match parseResponse buffer with
    | .ok (remaining, response) =>
      let consumed := buffer.length - remaining.length
      .frame (buffer.take consumed, response) (buffer.drop consumed)
    | .error .incomplete => scanResidue maxFrameSize buffer
    | .error e => .stop (.parse e)

/-! ### `parse_response` as a framer -/

theorem parseResponse_nil : parseResponse [] = .error .incomplete := rfl

theorem parseResponse_prefix {data rest : Bytes} {r : Response}
    (h : parseResponse data = .ok (rest, r)) :
    ∃ f, f ≠ [] ∧ data = f ++ rest ∧ parseResponse f = .ok ([], r) := by
  obtain ⟨body, hdata, hframe, _⟩ := parseResponse_frame h
  exact ⟨body ++ CRLF, by simp [CRLF], hdata, hframe⟩

/-- The response parser takes one frame off the front of a buffer. -/
def responseFramer : Framer UInt8 ParseError Response where
  decode := parseResponse
  inc := .incomplete
  decode_nil := parseResponse_nil
  frame := parseResponse_prefix
  append_ok h y := parseResponse_append_ok h y
  append_error h hne y := parseResponse_append_error h hne y

variable {maxFrameSize : ℕ} {buffer : Bytes}

/-- **What a look at the buffer means.** -/
theorem scan_of_complete {f : Frame} (hf : responseFramer.Complete f) (y : Bytes) :
    scan maxFrameSize (f.1 ++ y) = .frame f y := by
  have hne : (f.1 ++ y).isEmpty = false := by simp [hf.ne_nil]
  have hok : parseResponse (f.1 ++ y) = .ok (y, f.2) := hf.decode_append y
  rw [scan, hne, if_neg Bool.false_ne_true, hok]
  simp

theorem scan_of_incomplete (h : parseResponse buffer = .error .incomplete) :
    scan maxFrameSize buffer = scanResidue maxFrameSize buffer := by
  rw [scan, h, ite_self]

theorem scan_of_error {e : ParseError} (h : parseResponse buffer = .error e)
    (hne : e ≠ .incomplete) : scan maxFrameSize buffer = .stop (.parse e) := by
  have hbuf : buffer.isEmpty = false := by
    cases buffer with
    | nil =>
      rw [parseResponse_nil] at h
      cases h
      exact absurd rfl hne
    | cons b bs => rfl
  rw [scan, hbuf, if_neg Bool.false_ne_true, h]
  cases e <;> first | rfl | exact absurd rfl hne

/-- Why the loop stops at a buffer. -/
def StopsAt (maxFrameSize : ℕ) (buffer : Bytes) (e : ClientError) : Prop :=
  (∃ pe, e = .parse pe ∧ pe ≠ .incomplete ∧ parseResponse buffer = .error pe) ∨
    (e = .frameTooLarge maxFrameSize ∧ parseResponse buffer = .error .incomplete ∧
      maxFrameSize < buffer.length)

/-- **What a look at the buffer finds, and why.** -/
theorem scan_cases (maxFrameSize : ℕ) (buffer : Bytes) :
    (∃ f rest, scan maxFrameSize buffer = .frame f rest ∧ responseFramer.Complete f ∧
      buffer = f.1 ++ rest) ∨
    (scan maxFrameSize buffer = .wait ∧ parseResponse buffer = .error .incomplete ∧
      buffer.length ≤ maxFrameSize) ∨
    ∃ e, scan maxFrameSize buffer = .stop e ∧ StopsAt maxFrameSize buffer e := by
  cases hp : parseResponse buffer with
  | ok v =>
    obtain ⟨g, _, rfl, hg⟩ := parseResponse_prefix hp
    have hc : responseFramer.Complete (g, v.2) := hg
    exact .inl ⟨(g, v.2), v.1, scan_of_complete hc v.1, hc, rfl⟩
  | error pe =>
    by_cases he : pe = .incomplete
    · subst he
      rw [scan_of_incomplete hp, scanResidue]
      by_cases hlt : maxFrameSize < buffer.length
      · exact .inr (.inr ⟨_, if_pos hlt, .inr ⟨rfl, hp, hlt⟩⟩)
      · exact .inr (.inl ⟨if_neg hlt, rfl, Nat.le_of_not_lt hlt⟩)
    · exact .inr (.inr ⟨_, scan_of_error hp he, .inl ⟨pe, rfl, he, hp⟩⟩)

theorem scan_eq_frame {f : Frame} {rest : Bytes} (h : scan maxFrameSize buffer = .frame f rest) :
    responseFramer.Complete f ∧ buffer = f.1 ++ rest := by
  rcases scan_cases maxFrameSize buffer with ⟨g, r, hs, hc, hb⟩ | ⟨hs, _⟩ | ⟨e, hs, _⟩
  · rw [h] at hs
    cases hs
    exact ⟨hc, hb⟩
  all_goals
    rw [h] at hs
    cases hs

/-! ### The inner loop -/

/-- `while !buffer.is_empty()`: the frames dispatched, the buffer left, and the error that ended
the connection, if any. -/
def drain (maxFrameSize : ℕ) (buffer : Bytes) : List Frame × Bytes × Option ClientError :=
  match _h : scan maxFrameSize buffer with
  | .frame f rest =>
    let (frames, buffer, stopped) := drain maxFrameSize rest
    (f :: frames, buffer, stopped)
  | .wait => ([], buffer, none)
  | .stop e => ([], buffer, some e)
termination_by buffer.length
decreasing_by
  obtain ⟨hc, rfl⟩ := scan_eq_frame _h
  have := List.length_pos_iff.mpr hc.ne_nil
  rw [List.length_append]
  omega

theorem drain_of_frame {f : Frame} (hf : responseFramer.Complete f) (y : Bytes) :
    drain maxFrameSize (f.1 ++ y) = (f :: (drain maxFrameSize y).1, (drain maxFrameSize y).2) := by
  rw [drain]
  split
  next g rest h =>
    rw [scan_of_complete hf] at h
    cases h
    rfl
  all_goals
    next h =>
      rw [scan_of_complete hf] at h
      cases h

theorem drain_of_wait (h : scan maxFrameSize buffer = .wait) :
    drain maxFrameSize buffer = ([], buffer, none) := by
  rw [drain]
  split <;> simp_all

theorem drain_of_stop {e : ClientError} (h : scan maxFrameSize buffer = .stop e) :
    drain maxFrameSize buffer = ([], buffer, some e) := by
  rw [drain]
  split <;> simp_all

/-- **Draining a run of frames.** The frames are dispatched in order; the tail decides the rest. -/
theorem drain_wire {fs : List Frame} (hfs : ∀ f ∈ fs, responseFramer.Complete f) (u : Bytes) :
    drain maxFrameSize (wire fs ++ u)
      = (fs ++ (drain maxFrameSize u).1, (drain maxFrameSize u).2) := by
  induction fs with
  | nil => rfl
  | cons f fs ih =>
    rw [wire_cons, List.append_assoc, drain_of_frame (hfs f List.mem_cons_self),
      ih fun g hg => hfs g (List.mem_cons_of_mem _ hg)]
    rfl

/-- A tail that holds no frame is kept. -/
theorem drain_of_undecided {u : Bytes} (hu : responseFramer.Undecided u) :
    (drain maxFrameSize u = ([], u, none) ∧ parseResponse u = .error .incomplete ∧
      u.length ≤ maxFrameSize) ∨
    ∃ e, drain maxFrameSize u = ([], u, some e) ∧ StopsAt maxFrameSize u e := by
  rcases scan_cases maxFrameSize u with ⟨f, rest, _, hc, hb⟩ | ⟨hs, hp⟩ | ⟨e, hs, he⟩
  · rw [hb] at hu
    exact absurd (hc.decode_append rest) (hu rest f.2)
  · exact .inl ⟨drain_of_wait hs, hp⟩
  · exact .inr ⟨e, drain_of_stop hs, he⟩

/-! ### The outer loop -/

/-- The state of the read loop between two reads. -/
structure ReadLoop where
  /-- Bytes read and not yet dispatched. -/
  buffer : Bytes
  /-- The frames dispatched, in order. -/
  dispatched : List Frame
  /-- Once the loop has ended, the error every pending command was failed with. -/
  stopped : Option ClientError
  deriving DecidableEq, Repr

/-- The loop before the first read. -/
def ReadLoop.start : ReadLoop := ⟨[], [], none⟩

/-- One round of `loop`. A loop that has ended takes no more reads. -/
def ReadLoop.step (maxFrameSize : ℕ) (s : ReadLoop) (r : ReadResult) : ReadLoop :=
  if s.stopped.isSome then s
  else
    match r with
    -- `Ok(0)` is the end of the stream
    | .ok [] => { s with stopped := some .connectionClosed }
    | .ok bytes =>
      let (frames, buffer, stopped) := drain maxFrameSize (s.buffer ++ bytes)
      ⟨buffer, s.dispatched ++ frames, stopped⟩
    | .error => { s with stopped := some .connectionClosed }

/-- The loop over a sequence of reads. -/
def ReadLoop.run (maxFrameSize : ℕ) (s : ReadLoop) (reads : List ReadResult) : ReadLoop :=
  reads.foldl (ReadLoop.step maxFrameSize) s

/-- `read_loop`. -/
def readLoop (maxFrameSize : ℕ) (reads : List ReadResult) : ReadLoop :=
  ReadLoop.start.run maxFrameSize reads

theorem ReadLoop.step_of_stopped {s : ReadLoop} (h : s.stopped.isSome) (r : ReadResult) :
    s.step maxFrameSize r = s :=
  if_pos h

/-- A loop that has ended stays as it is, whatever else could be read. -/
theorem ReadLoop.run_of_stopped {s : ReadLoop} (h : s.stopped.isSome) (reads : List ReadResult) :
    s.run maxFrameSize reads = s := by
  induction reads with
  | nil => rfl
  | cons r reads ih =>
    rw [run, List.foldl_cons, step_of_stopped h]
    exact ih

theorem ReadLoop.step_ok {s : ReadLoop} (h : s.stopped = none) {c : Bytes} (hc : c ≠ []) :
    s.step maxFrameSize (.ok c) = ⟨(drain maxFrameSize (s.buffer ++ c)).2.1,
      s.dispatched ++ (drain maxFrameSize (s.buffer ++ c)).1,
      (drain maxFrameSize (s.buffer ++ c)).2.2⟩ := by
  obtain ⟨b, bs, rfl⟩ := List.exists_cons_of_ne_nil hc
  unfold step
  rw [if_neg (by rw [h]; nofun)]

theorem readLoop_append (reads : List ReadResult) (r : ReadResult) :
    readLoop maxFrameSize (reads ++ [r]) = (readLoop maxFrameSize reads).step maxFrameSize r := by
  simp [readLoop, ReadLoop.run]

/-- The loop after it has received `received` of the stream `wire frames ++ t`. -/
structure Follows (maxFrameSize : ℕ) (frames : List Frame) (t received : Bytes) (s : ReadLoop) :
    Prop where
  /-- While it waits it has dispatched the frames that are complete and holds the rest. -/
  waits : s.stopped = none → s.dispatched <+: frames ∧ received = wire s.dispatched ++ s.buffer ∧
    parseResponse s.buffer = .error .incomplete ∧ s.buffer.length ≤ maxFrameSize
  /-- It stops inside the tail, with every frame dispatched. -/
  stops : ∀ e, s.stopped = some e → s.dispatched = frames ∧ s.buffer <+: t ∧
    StopsAt maxFrameSize s.buffer e

section Stream

variable {frames : List Frame} {t : Bytes}
  (hframes : ∀ f ∈ frames, responseFramer.Complete f ∧ f.1.length ≤ maxFrameSize)
  (ht : responseFramer.Undecided t)

include hframes ht in
/-- One read, wherever the stream is cut. -/
theorem Follows.step {received c : Bytes} {s : ReadLoop}
    (h : Follows maxFrameSize frames t received s) (hc : c ≠ [])
    (hpre : received ++ c <+: wire frames ++ t) :
    Follows maxFrameSize frames t (received ++ c) (s.step maxFrameSize (.ok c)) := by
  cases hstop : s.stopped with
  | some e =>
    rw [ReadLoop.step_of_stopped (by rw [hstop]; rfl)]
    exact ⟨fun hn => (nomatch hstop.symm.trans hn), h.stops⟩
  | none =>
    obtain ⟨⟨hs, hsplit⟩, hrec, _, _⟩ := h.waits hstop
    -- what is in the buffer now is received of the frames that are left
    have hbuf : s.buffer ++ c <+: wire hs ++ t := by
      rw [hrec, ← hsplit, wire_append, List.append_assoc, List.append_assoc] at hpre
      exact (List.prefix_append_right_inj _).mp hpre
    have hrec' : ∀ gs u, s.buffer ++ c = wire gs ++ u →
        received ++ c = wire (s.dispatched ++ gs) ++ u := by
      intro gs u hu
      rw [hrec, List.append_assoc, hu, wire_append, List.append_assoc]
    obtain ⟨gs, hs', u, rfl, hu, hcase⟩ := wire_prefix_split hbuf
    have hgs : ∀ f ∈ gs, responseFramer.Complete f := fun f hf =>
      (hframes f (by rw [← hsplit]; simp [hf])).1
    rw [ReadLoop.step_ok hstop hc, hu, drain_wire hgs]
    rcases hcase with ⟨f, hs'', rfl, hpref, hne⟩ | ⟨rfl, hut⟩
    · -- the next frame is not complete yet, and shorter than the ceiling
      obtain ⟨hf, hlen⟩ := hframes f (by rw [← hsplit]; simp)
      have hinc : parseResponse u = .error .incomplete := Framer.incomplete_of_prefix hf hpref hne
      have hle : u.length ≤ maxFrameSize := Nat.le_trans hpref.length_le hlen
      have hdrain : drain maxFrameSize u = ([], u, none) := by
        refine drain_of_wait ?_
        rw [scan_of_incomplete hinc, scanResidue, if_neg (Nat.not_lt.mpr hle)]
      rw [hdrain, List.append_nil]
      refine ⟨fun _ => ⟨⟨f :: hs'', ?_⟩, hrec' gs u hu, hinc, hle⟩, nofun⟩
      rw [← hsplit, List.append_assoc]
    · rw [List.append_nil] at hsplit
      rcases drain_of_undecided (ht.of_prefix hut) with ⟨hdrain, hinc, hle⟩ | ⟨e, hdrain, he⟩
      · rw [hdrain, List.append_nil]
        exact ⟨fun _ => ⟨⟨[], by rw [List.append_nil, hsplit]⟩, hrec' gs u hu, hinc, hle⟩, nofun⟩
      · rw [hdrain, List.append_nil]
        refine ⟨nofun, fun e' he' => ?_⟩
        cases he'
        exact ⟨hsplit, hut, he⟩

include hframes ht in
/-- Any number of reads. -/
theorem readLoop_follows {chunks : List Bytes} (hne : ∀ c ∈ chunks, c ≠ [])
    (hpre : chunks.flatten <+: wire frames ++ t) :
    Follows maxFrameSize frames t chunks.flatten
      (readLoop maxFrameSize (chunks.map .ok)) := by
  induction chunks using List.reverseRecOn with
  | nil =>
    refine ⟨fun _ => ⟨List.nil_prefix, rfl, parseResponse_nil, Nat.zero_le _⟩, nofun⟩
  | append_singleton cs c ih =>
    rw [List.flatten_append, List.flatten_singleton] at hpre ⊢
    rw [List.map_append, List.map_singleton, readLoop_append]
    refine (ih (fun d hd => hne d (List.mem_append_left _ hd)) ?_).step hframes ht
      (hne c (by simp)) hpre
    exact (List.prefix_append _ _).trans hpre

/-- A loop that has received the whole stream has dispatched every frame. -/
theorem Follows.dispatched_eq {s : ReadLoop}
    (hframes : ∀ f ∈ frames, responseFramer.Complete f)
    (h : Follows maxFrameSize frames t (wire frames ++ t) s) : s.dispatched = frames := by
  cases hstop : s.stopped with
  | some e => exact (h.stops e hstop).1
  | none =>
    obtain ⟨⟨hs, hsplit⟩, hrec, hinc, _⟩ := h.waits hstop
    cases hs with
    | nil => rwa [List.append_nil] at hsplit
    | cons f hs =>
      -- the buffer would start with a complete frame
      rw [← hsplit, wire_append, List.append_assoc, wire_cons, List.append_assoc] at hrec
      have hf : responseFramer.Complete f := hframes f (by rw [← hsplit]; simp)
      have hok : parseResponse s.buffer = .ok (wire hs ++ t, f.2) := by
        rw [← List.append_cancel_left hrec]
        exact hf.decode_append _
      rw [hok] at hinc
      cases hinc

end Stream

/-- **The frames dispatched do not depend on how the stream was cut.** Let a stream be complete
frames, none over the ceiling, and a tail that holds no frame. However it is cut into reads, the
loop dispatches exactly the frames. After any number of the reads it either waits, and its buffer is
what has arrived behind the frames it dispatched; or it has stopped inside the tail, and nothing
that can be read afterwards changes anything. -/
theorem readLoop_chunks (maxFrameSize : ℕ) {frames : List Frame} {t : Bytes} {chunks : List Bytes}
    (hframes : ∀ f ∈ frames, parseResponse f.1 = .ok ([], f.2) ∧ f.1.length ≤ maxFrameSize)
    (ht : ∀ rest r, parseResponse t ≠ .ok (rest, r)) (hne : ∀ c ∈ chunks, c ≠ [])
    (hcut : chunks.flatten = wire frames ++ t) :
    (readLoop maxFrameSize (chunks.map .ok)).dispatched = frames ∧
      ∀ k s, s = readLoop maxFrameSize ((chunks.take k).map .ok) →
        (s.stopped = none → s.dispatched <+: frames ∧
          (chunks.take k).flatten = wire s.dispatched ++ s.buffer ∧
          parseResponse s.buffer = .error .incomplete ∧ s.buffer.length ≤ maxFrameSize) ∧
        (∀ e, s.stopped = some e → s.dispatched = frames ∧ s.buffer <+: t ∧
          StopsAt maxFrameSize s.buffer e ∧ ∀ more, s.run maxFrameSize more = s) := by
  have hpre : ∀ k, (chunks.take k).flatten <+: wire frames ++ t := by
    intro k
    rw [← hcut]
    refine ⟨(chunks.drop k).flatten, ?_⟩
    rw [← List.flatten_append, List.take_append_drop]
  have hall := readLoop_follows hframes ht hne (hcut ▸ List.prefix_rfl)
  rw [hcut] at hall
  refine ⟨hall.dispatched_eq fun f hf => (hframes f hf).1, ?_⟩
  rintro k s rfl
  have hk := readLoop_follows hframes ht (fun c hc => hne c (List.mem_of_mem_take hc)) (hpre k)
  refine ⟨hk.waits, fun e he => ?_⟩
  obtain ⟨hdisp, hbuf, hstop⟩ := hk.stops e he
  exact ⟨hdisp, hbuf, hstop, ReadLoop.run_of_stopped (by rw [he]; rfl)⟩

/-- Two frames and the start of a third, cut inside the first and behind the second. -/
theorem readLoop_chunks_example :
    (readLoop 64 ([ascii "* 1 EX", ascii "ISTS\r\n* 2 EXISTS\r\n*", ascii " 3"].map .ok)).dispatched
      = [(ascii "* 1 EXISTS\r\n", .data (.exists 1)),
        (ascii "* 2 EXISTS\r\n", .data (.exists 2))] :=
  (readLoop_chunks 64 (t := ascii "* 3") (by decide +kernel)
    (fun rest r h => absurd (h.symm.trans (by decide : parseResponse (ascii "* 3")
      = .error .incomplete)) nofun) (by decide) (by decide +kernel)).1

end ImapRs
