import ImapRs.Client.Histories
import ImapRs.Client.Transcript

/-!
# What is on the wire

A caller beside the loops hands requests to the write loop and goes on. What the transport has been
given at any time is the beginning of what was handed over, in its order: a request may wait in the
queue or be cut off in the middle, none is skipped, repeated or put before another. Together with
the transcript of a caller this says what a server reads at any time of any history.

## Main definitions

* `Dispatcher.written`, `Dispatcher.unwritten` — what the transport has, and what it is to get
* `Dispatcher.Carries` — the write loop works off a text

## Main results

* `Lives.carries` — the wire carries what was handed over, in every history
* `server_reads` — so that a server has read the beginning of what the calls ask for
-/

namespace ImapRs

open Incremental Transition

/-! ### The write loop works off a text -/

/-- What is left of the request the write loop has taken. -/
def Writer.inHand : Writer → Bytes
  | .registering bytes _ _ _ => bytes
  | .writing _ rest => rest
  | .idle | .stopped => []

namespace Dispatcher

/-- What the transport has been given. -/
def written (s : Dispatcher) : Bytes := s.sent.flatMap (·.2)

/-- What the transport is still to be given. -/
def unwritten (s : Dispatcher) : Bytes := s.writer.inHand ++ s.queue.flatMap WriteRequest.bytes

/-- The text is written up to what is still to be, unless the loop has stopped on the way. -/
def Carries (s : Dispatcher) (text : Bytes) : Prop :=
  s.written ++ s.unwritten = text ∨ (s.writer = .stopped ∧ s.written <+: text)

variable {maxFrameSize : ℕ} {a : Action} {s s' : Dispatcher} {text : Bytes}

theorem Carries.written_prefix (h : s.Carries text) : s.written <+: text := by
  rcases h with rfl | ⟨-, h⟩
  · exact List.prefix_append _ _
  · exact h

/-- A step that leaves the write loop alone. -/
theorem Carries.of_eq (h : s.Carries text) (hsent : s'.sent = s.sent)
    (hwriter : s'.writer = s.writer) (hqueue : s'.queue = s.queue) : s'.Carries text := by
  rwa [Carries, written, unwritten, hsent, hwriter, hqueue]

/-- A step of the write loop that puts the bytes in order. -/
theorem Carries.move (h : s.Carries text) (hrunning : s.writer ≠ .stopped)
    (hsame : s'.written ++ s'.unwritten = s.written ++ s.unwritten) : s'.Carries text := by
  rcases h with h | ⟨hstopped, -⟩
  · exact .inl (hsame.trans h)
  · exact absurd hstopped hrunning

theorem Moves.carries (hm : Moves maxFrameSize s a s') (ha : a.silent = true)
    (h : s.Carries text) : s'.Carries text := by
  cases hm with
  | stay => exact h
  | enqueue | lost | raw => cases ha
  | recvCommand hw hq =>
    refine h.move (by simp [hw]) ?_
    simp [Dispatcher.written, unwritten, hw, hq, Writer.inHand, WriteRequest.bytes]
  | recvRaw hw hq =>
    refine h.move (by simp [hw]) ?_
    simp [Dispatcher.written, unwritten, hw, hq, Writer.inHand, WriteRequest.bytes]
  | recvNone hw hq =>
    refine h.move (by simp [hw]) ?_
    simp [Dispatcher.written, unwritten, hw, hq, Writer.inHand]
  | register hw =>
    refine h.move (by simp [hw]) ?_
    simp [Dispatcher.written, unwritten, hw, Writer.inHand]
  | @wrote n command rest hw =>
    refine h.move (by simp [hw]) ?_
    simp only [Dispatcher.written, unwritten, hw, Writer.inHand, List.flatMap_append,
      List.flatMap_singleton, List.append_assoc]
    rw [← List.append_assoc (rest.take n), List.take_append_drop]
  | written hw =>
    refine h.move (by simp [hw]) ?_
    simp [Dispatcher.written, unwritten, hw, Writer.inHand]
  | writeFailed => exact .inr ⟨rfl, h.written_prefix⟩
  | _ => exact h.of_eq rfl rfl rfl

theorem Silently.carries (h : Silently maxFrameSize s s') (hs : s.Carries text) :
    s'.Carries text :=
  h.invariant (I := fun s => s.Carries text) hs
    fun _ hsilent hstep ih => (moves_of_step hstep).carries hsilent ih

/-- A request more, for a loop that is running. -/
theorem Carries.push {request : WriteRequest} (h : s.Carries text) (hrunning : s.writer ≠ .stopped)
    (hsent : s'.sent = s.sent) (hwriter : s'.writer = s.writer)
    (hqueue : s'.queue = s.queue ++ [request]) : s'.Carries (text ++ request.bytes) := by
  rcases h with rfl | ⟨hstopped, -⟩
  · refine .inl ?_
    simp [written, unwritten, hsent, hwriter, hqueue]
  · exact absurd hstopped hrunning

theorem running_of_enqueueCommand {cmd : Bytes} {collector : Option FrameFilter}
    (hbreaks : hasLineBreaks cmd = false) (h : s.enqueueCommand cmd collector = some s') :
    s.writer ≠ .stopped := by
  intro hstopped
  unfold enqueueCommand at h
  rw [if_neg (by simp [hbreaks]), hstopped] at h
  cases hhandles : s.handles <;> rw [hhandles] at h <;> cases h

theorem sendRaw_eq_some {bytes : Bytes} (h : s.sendRaw bytes = some s') :
    s.writer ≠ .stopped ∧ s' = { s with queue := s.queue ++ [.raw bytes] } := by
  unfold sendRaw at h
  split at h
  · cases h
  · cases h
  next hrunning =>
    split at h
    · cases h
      exact ⟨hrunning, rfl⟩
    · cases h

end Dispatcher

/-! ### Every call keeps to it -/

/-- Everything that was handed to the write loop. -/
def Live.text (l : Live) : Bytes := l.queued.flatMap WriteRequest.bytes

section Carries

open Dispatcher

variable {maxFrameSize : ℕ} {t : Transport} {l l' : Live} {c c' : LiveCaller}

theorem Live.text_push (l : Live) (request : WriteRequest) :
    Live.text { l with queued := l.queued ++ [request] } = l.text ++ request.bytes := by
  simp [Live.text]

theorem Enqueues.carries {cmd : Bytes} {collector : Option FrameFilter}
    {r : Except ClientError CommandId} (h : Enqueues maxFrameSize cmd collector l r l')
    (hl : l.client.Carries l.text) : l'.client.Carries l'.text := by
  cases h with
  | refused => exact hl
  | @lost s s' hok hloops _ hstep =>
    have hs : s.Carries l.text := (Silently.of_loops hloops).carries hl
    unfold Dispatcher.enqueueLost at hstep
    rw [if_neg (by simp [hasLineBreaks_of_rejected hok])] at hstep
    split at hstep
    · cases hstep
      exact hs.of_eq rfl rfl rfl
    · cases hstep
  | @queued s s' hok hloops hstep =>
    have hbreaks := hasLineBreaks_of_rejected hok
    have hs : s.Carries l.text := (Silently.of_loops hloops).carries hl
    have hrunning := running_of_enqueueCommand hbreaks hstep
    obtain ⟨streams, rfl, -⟩ := enqueueCommand_eq_some hbreaks hstep
    show Dispatcher.Carries _ (Live.text { l with queued := _ })
    rw [Live.text_push]
    exact hs.push hrunning rfl rfl rfl

theorem Fulfils.carries {q : Call} {b : q.Returns} (h : Fulfils maxFrameSize q l b l')
    (hl : l.client.Carries l.text) : l'.client.Carries l'.text := by
  cases h with
  | capabilities => exact hl
  | setCapabilities => exact hl
  | notExecuted h => exact h.carries hl
  | notStreamed h => exact h.carries hl
  | notConversed h => exact h.carries hl
  | executed hq hawait => exact hawait.silently.carries (hq.carries hl)
  | streamed hq hlisten _ hinto hawait =>
    exact hawait.silently.carries (hinto.silently.carries (hlisten.silently.carries
      (hq.carries hl)))
  | streamedLate hq hlisten hdrop =>
    exact (Silently.dropStream hdrop : Silently maxFrameSize _ _).carries
      (hlisten.silently.carries (hq.carries hl))
  | granted hq hlisten hinto =>
    exact hinto.silently.carries (hlisten.silently.carries (hq.carries hl))
  | declined hq hlisten _ hinto hreceive =>
    exact hreceive.silently.carries (hinto.silently.carries (hlisten.silently.carries
      (hq.carries hl)))
  | notGranted hq hlisten hdrop =>
    exact (Silently.dropStream hdrop : Silently maxFrameSize _ _).carries
      (hlisten.silently.carries (hq.carries hl))
  | unsent _ hloops _ hdrop =>
    exact (Silently.dropReply hdrop : Silently maxFrameSize _ _).carries
      ((Silently.of_loops hloops).carries hl)
  | @concluded _ i bytes s t r u _ hloops hsend hawait =>
    obtain ⟨hrunning, rfl⟩ := sendRaw_eq_some hsend
    have hs : s.Carries l.text := (Silently.of_loops hloops).carries hl
    have hpushed := hawait.silently.carries (hs.push hrunning rfl rfl rfl)
    rw [← Live.text_push] at hpushed
    exact hpushed

theorem Turn.carries {o : Observed t} (h : Turn maxFrameSize c o c')
    (hc : c.live.client.Carries c.live.text) : c'.live.client.Carries c'.live.text := by
  cases h with
  | call _ hplays =>
    exact hplays.invariant (I := fun l => l.client.Carries l.text) (fun hl h => h.carries hl) hc
  | stop _ hplays =>
    exact hplays.invariant (I := fun l => l.client.Carries l.text) (fun hl h => h.carries hl) hc
  | drop _ hdrop => exact (Silently.dropReply hdrop : Silently maxFrameSize _ _).carries hc

/-- **The wire carries what was handed over**, in every history. -/
theorem Lives.carries {os : List (Observed t)} (h : Lives maxFrameSize c os c')
    (hc : c.live.client.Carries c.live.text) : c'.live.client.Carries c'.live.text := by
  induction h with
  | start => exact hc
  | loops _ hloops ih => exact (Silently.of_loops hloops).carries ih
  | leave _ hleave ih => exact (Silently.dropHandles hleave : Silently maxFrameSize _ _).carries ih
  | turn _ hturn ih => exact hturn.carries ih

end Carries

/-! ### What a server reads -/

section Reads

variable {maxFrameSize : ℕ} {t : Transport} {said : List ClientLine}

/-- The beginning of what the requests put on the wire: the first of their lines, and a part of the
next. -/
theorem reads_prefix {requests : List WriteRequest} {wire : Bytes}
    (h : List.Forall₂ Tells requests said) (hwire : wire <+: requests.flatMap WriteRequest.bytes) :
    ∃ whole part n, wire = whole ++ part ∧ LF ∉ part ∧ readStream whole = some (said.take n) := by
  have hlines : ∃ lines : List Bytes, requests.map WriteRequest.bytes = lines.map (· ++ CRLF) ∧
      ∀ line ∈ lines, LF ∉ line := by
    clear hwire
    induction h with
    | nil => exact ⟨[], rfl, fun _ hmem => absurd hmem List.not_mem_nil⟩
    | cons hl _ ih =>
      obtain ⟨lines, hbytes, hall⟩ := ih
      obtain ⟨line, hline, hlf, -⟩ := hl.line
      exact ⟨line :: lines, by rw [List.map_cons, hbytes, hline, List.map_cons],
        List.forall_mem_cons.mpr ⟨hlf, hall⟩⟩
  obtain ⟨lines, hbytes, hall⟩ := hlines
  have htext : ∀ n, (requests.take n).flatMap WriteRequest.bytes
      = (lines.take n).flatMap fun line => line ++ CRLF := by
    intro n
    rw [List.flatMap_def, List.map_take, hbytes, ← List.map_take, ← List.flatMap_def]
  have hfull : requests.flatMap WriteRequest.bytes = lines.flatMap fun line => line ++ CRLF := by
    rw [List.flatMap_def, hbytes, ← List.flatMap_def]
  rw [hfull] at hwire
  obtain ⟨n, part, rfl, hpart⟩ := Text.prefix_lines (by decide : LF ≠ CR) hall hwire
  refine ⟨_, part, n, rfl, hpart, ?_⟩
  rw [show (fun line => line ++ [CR, LF]) = fun line : Bytes => line ++ CRLF from rfl, ← htext n]
  exact readStream_of_tells (List.forall₂_take n h)

/-- The histories of the session model, each call saying a part of its script. -/
theorem Caller.Shows.uttered {os : List (Observed t)} {c c' : Caller} (h : c.Shows os c')
    (hc : c.session.Counted) :
    ∃ lines : List (List ClientLine), Uttered c.session c'.session lines.flatten ∧
      List.Forall₂ (fun (o : Observed t) said => said.map (·.said) <+: o.action.script)
        os lines := by
  induction h with
  | start => exact ⟨[], uttered_nil hc rfl rfl rfl, .nil⟩
  | next _ _ hstep ih =>
    obtain ⟨lines, hlines, hscripts⟩ := ih
    obtain ⟨said, hsaid, hscript⟩ := Caller.uttered_step hstep hlines.counted
    refine ⟨lines ++ [said], ?_, List.rel_append hscripts (.cons hscript .nil)⟩
    rw [List.flatten_append, List.flatten_singleton]
    exact hlines.trans hsaid

/-- **What a server has read, at any time of any history.** The caller makes its calls, the two
loops take their steps, and writes come out in pieces or fail, in any order. What was handed to the
write loop is a sequence of lines that falls into one part a call, in order, and each part says what
the script of its call says, up to some point; the commands carry the tags of their numbers, in
ascending order. What is on the wire is cut into whole lines and the beginning of one, and the whole
lines are the first of that sequence. Once the write loop has nothing to do, the server has read all
of them. -/
theorem server_reads {phase : Phase} {capabilities : Capabilities} {os : List (Observed t)}
    {c : LiveCaller} (h : Lives maxFrameSize (LiveCaller.new phase capabilities) os c) :
    ∃ (lines : List (List ClientLine)) (numbers : List CommandId),
      readStream c.live.text = some lines.flatten ∧
      (∃ whole part n, c.live.client.written = whole ++ part ∧ LF ∉ part ∧
        readStream whole = some (lines.flatten.take n)) ∧
      (c.live.client.writer = .idle → c.live.client.queue = [] →
        readStream c.live.client.written = some lines.flatten) ∧
      List.Forall₂ (fun (o : Observed t) said => said.map (·.said) <+: o.action.script)
        os lines ∧
      lines.flatten.filterMap (·.tag) = numbers.map tagOf ∧
      numbers.Pairwise (· < ·) ∧ ∀ i ∈ numbers, i < c.live.client.issued := by
  have hcounted : (Caller.new phase capabilities c.live.seen).session.Counted := rfl
  have hshows : (Caller.new phase capabilities c.live.seen).Shows os (c.caller c.live.seen) :=
    (h.shows (LiveCaller.sound_new phase capabilities) (Live.fits_seen _)).2
  obtain ⟨lines, hlines, hscripts⟩ := hshows.uttered hcounted
  obtain ⟨requests, hqueued, htells, horder, hbound⟩ := hlines.lines
  have hqueued : c.live.queued = requests := hqueued
  have hcarries : c.live.client.Carries (requests.flatMap WriteRequest.bytes) :=
    hqueued ▸ h.carries (.inl rfl)
  have htext : readStream c.live.text = some lines.flatten := by
    rw [Live.text, hqueued]
    exact readStream_of_tells htells
  refine ⟨lines, requests.filterMap WriteRequest.command?, htext,
    reads_prefix htells hcarries.written_prefix, fun hidle hempty => ?_, hscripts,
    tags_of_tells htells, horder, fun i hi => (hbound i hi).2⟩
  rcases hcarries with hall | ⟨hstopped, -⟩
  · have hwritten : c.live.client.written = requests.flatMap WriteRequest.bytes := by
      rw [← hall, Dispatcher.unwritten, hidle, hempty]
      exact (List.append_nil _).symm
    rw [hwritten]
    exact readStream_of_tells htells
  · rw [hidle] at hstopped
    cases hstopped

end Reads

/-- An IDLE that is granted and stopped. -/
theorem server_reads_idle : ∃ c,
    Lives MAX_FRAME_SIZE (LiveCaller.new .selected { idle := true }) idleHistory c ∧
    ∃ (lines : List (List ClientLine)) (numbers : List CommandId),
      readStream c.live.text = some lines.flatten ∧
      (∃ whole part n, c.live.client.written = whole ++ part ∧ LF ∉ part ∧
        readStream whole = some (lines.flatten.take n)) ∧
      (c.live.client.writer = .idle → c.live.client.queue = [] →
        readStream c.live.client.written = some lines.flatten) ∧
      List.Forall₂ (fun (o : Observed .tls) said => said.map (·.said) <+: o.action.script)
        idleHistory lines ∧
      lines.flatten.filterMap (·.tag) = numbers.map tagOf ∧
      numbers.Pairwise (· < ·) ∧ ∀ i ∈ numbers, i < c.live.client.issued := by
  obtain ⟨c, hlives⟩ := lives_idleHistory
  exact ⟨c, hlives, server_reads hlives⟩

end ImapRs
