import ImapRs.Client.Streaming

/-!
# Streaming commands are complete

A streaming command that nothing disturbs returns, on every interleaving and every cutting of the
server's bytes: it has been given every frame it wants, in wire order, and its result is what the
tagged response says; or the connection broke and it returns an error. For this the command has to
be registered before the connection ends: a read loop that ends earlier leaves it waiting for ever.

## Main results

* `Exchange.streaming_completes` — the call returns, with this outcome
* `search_fetch_complete` — what it means for `search`, `uid_search` and `fetch`
* `search_waits_forever` — a run in which the connection ends too early
-/

namespace ImapRs

open Incremental Transition

namespace Exchange

variable {maxFrameSize : ℕ} {cmd : Bytes} {wants : FrameFilter} {i : CommandId} {tag line : Bytes}
  {script : Script} {x : Exchange} {s : Dispatcher} {late : List Frame}

/-- A server that stops in the middle of a frame closes the connection. -/
theorem Script.Valid.closes (h : script.Valid maxFrameSize tag) (hlast : script.last = [])
    (hwait : parseResponse script.tail = .error .incomplete) :
    ∃ failed, script.closes = some failed := by
  obtain ⟨tail, hending⟩ := Script.ending_of_last_nil hlast
  have hend := h.ending
  rw [Script.tail] at hwait
  rw [hending] at hend hwait
  exact Option.isSome_iff_exists.mp (hend.2 hwait)

/-! ### There is something to do -/

/-- Some step can be taken. -/
def Enabled (maxFrameSize : ℕ) (cmd : Bytes) (wants : FrameFilter) (i : CommandId)
    (script : Script) (x : Exchange) : Prop :=
  ∃ a x', AnswersInTime i a x ∧ step maxFrameSize cmd wants i script a x = some x'

theorem enabled_of_isSome (a : Action) (ha : a.answers = true → i ∈ x.client.registered)
    (h : (step maxFrameSize cmd wants i script a x).isSome = true) :
    Enabled maxFrameSize cmd wants i script x := by
  obtain ⟨x', hx'⟩ := Option.isSome_iff_exists.mp h
  exact ⟨a, x', ha, hx'⟩

/-- A step of the loops that is enabled. -/
theorem enabled_of_loop {f : Dispatcher → Option Dispatcher} {s' : Dispatcher} (a : Action)
    (ha : step maxFrameSize cmd wants i script a x = loop f x) (hanswers : a.answers = false)
    (hf : f x.client = some s') : Enabled maxFrameSize cmd wants i script x := by
  refine enabled_of_isSome a (by simp [hanswers]) ?_
  rw [ha, loop, hf]
  rfl

/-- The write loop never waits with requests in its queue. -/
theorem enabled_of_writer (hw : x.client.writer ≠ .stopped)
    (hbusy : x.client.writer = .idle → x.client.queue ≠ []) :
    Enabled maxFrameSize cmd wants i script x := by
  cases hwriter : x.client.writer with
  | stopped => exact absurd hwriter hw
  | idle =>
    cases hq : x.client.queue with
    | nil => exact absurd hq (hbusy hwriter)
    | cons request queue =>
      cases request with
      | command bytes tag j collector =>
        exact enabled_of_loop .recvRequest rfl rfl (by
          simp only [Dispatcher.recvRequest, hwriter, hq]; rfl)
      | raw bytes =>
        exact enabled_of_loop .recvRequest rfl rfl (by
          simp only [Dispatcher.recvRequest, hwriter, hq]; rfl)
  | registering bytes tag j collector =>
    exact enabled_of_loop .register rfl rfl (by
      simp only [Dispatcher.register, hwriter]; rfl)
  | writing command rest =>
    cases rest with
    | nil =>
      exact enabled_of_loop (.writeBytes 1) rfl rfl (by
        simp only [Dispatcher.writeBytes, hwriter]; rfl)
    | cons b rest =>
      exact enabled_of_loop (.writeBytes 1) rfl rfl (by
        simp only [Dispatcher.writeBytes, hwriter]; rfl)

theorem scanBuffer_isSome {buffer : Bytes} {owner : Option CommandId}
    (hr : s.reader = .scanning buffer) : ∃ s', s.scanBuffer maxFrameSize owner = some s' := by
  rcases scan_cases maxFrameSize buffer with ⟨f, rest, hscan, -⟩ | ⟨hscan, -⟩ | ⟨e, hscan, -⟩
  all_goals
    simp only [Dispatcher.scanBuffer, hr, hscan]
    exact ⟨_, rfl⟩

theorem dispatchFrame_tagged_isSome {answer : Str} {status : Status} {text : Str} {p : Parsed}
    {buffer : Bytes} (hr : s.reader = .dispatching (.tagged answer status text) p buffer) :
    ∃ s', s.dispatchFrame = some s' := by
  cases hlookup : s.pending.replies.lookup answer.bytes <;>
  · simp only [Dispatcher.dispatchFrame, hr, Pending.complete, hlookup]
    exact ⟨_, rfl⟩

/-- The read loop is held up only by a full stream. -/
theorem dispatchFrame_isSome {route : Route} {p : Parsed} {buffer : Bytes}
    (hr : s.reader = .dispatching route p buffer)
    (hroom : ∀ j, (s.streams j).receiver = .open →
      (s.streams j).queue.length < STREAM_CHANNEL_CAP) :
    ∃ s', s.dispatchFrame = some s' := by
  cases route with
  | tagged answer status text => exact dispatchFrame_tagged_isSome hr
  | stream tx =>
    cases hreceiver : (s.streams tx).receiver with
    | «open» =>
      simp only [Dispatcher.dispatchFrame, hr, hreceiver, if_pos (hroom tx hreceiver)]
      exact ⟨_, rfl⟩
    | closed | gone =>
      simp only [Dispatcher.dispatchFrame, hr, hreceiver]
      exact ⟨_, rfl⟩
  | broadcast =>
    simp only [Dispatcher.dispatchFrame, hr]
    exact ⟨_, rfl⟩

/-- A caller that finds a frame takes it. -/
theorem enabled_of_frame (hfollow : Following i x) {f : Parsed} {rest : List Parsed}
    (hq : (x.client.streams i).queue = f :: rest) : Enabled maxFrameSize cmd wants i script x := by
  have hnext : x.client.nextFrame i = .ready (some f) := by simp only [Dispatcher.nextFrame, hq]
  refine enabled_of_isSome .poll (by simp [Action.answers]) ?_
  change (poll i x).isSome = true
  simp [poll, hfollow.stage, hnext, Dispatcher.pollStream, hfollow.receiver]

/-- Reading goes on while there is something to read. -/
theorem enabled_of_incoming {buffer : Bytes} (hr : x.client.reader = .reading buffer)
    (hin : x.incoming ≠ []) : Enabled maxFrameSize cmd wants i script x := by
  obtain ⟨b, incoming, hcons⟩ := List.exists_cons_of_ne_nil hin
  refine enabled_of_isSome (.read 1) nofun ?_
  change (read 1 x).isSome = true
  simp [read, hcons, Dispatcher.readBuf, hr]

/-- **The read loop does not wait in vain while the command streams.** -/
theorem enabled_of_streaming (hvalid : script.Valid maxFrameSize tag)
    (halive : Alive maxFrameSize i x.client) (hentered : Entered wants i tag x.client)
    (hfollow : Following i x) (hopen : x.client.reader.Open tag) {fs : List Frame}
    (h : Streaming wants i script x late fs) : Enabled maxFrameSize cmd wants i script x := by
  cases hq : (x.client.streams i).queue with
  | cons f rest => exact enabled_of_frame hfollow hq
  | nil =>
    cases hr : x.client.reader with
    | failing e | stopped =>
      rw [hr] at hopen
      exact hopen.elim
    | scanning buffer =>
      obtain ⟨s', hs'⟩ := scanBuffer_isSome hr
      exact enabled_of_loop .scan rfl rfl hs'
    | dispatching route p buffer =>
      obtain ⟨s', hs'⟩ := dispatchFrame_isSome hr fun j hj => by
        by_cases hji : j = i
        · rw [hji, hq]
          decide
        · exact absurd hj (halive.others j hji)
      exact enabled_of_loop .dispatch rfl rfl hs'
    | reading buffer =>
      by_cases hin : x.incoming = []
      · by_cases hwithheld : x.withheld = []
        · -- every byte is there and the parser asks for more: only the end can come
          have hbytes := h.bytes
          rw [hr, hin, hwithheld, List.append_nil, List.append_nil] at hbytes
          have hwait := Dispatcher.waits_of_reachable halive.reachable buffer hr
          have hnil := fs_nil_of_waits (fun g hg => (Script.Valid.complete hvalid h g hg).1) hwait
            hbytes
          have hlast := (List.append_eq_nil_iff.mp hnil).2
          have htail : buffer = script.tail := by
            rw [hnil] at hbytes
            exact hbytes
          obtain ⟨failed, hcloses⟩ := Script.Valid.closes hvalid hlast (htail ▸ hwait)
          refine enabled_of_isSome .finish (fun _ => hentered.registered) ?_
          change (finish script x).isSome = true
          simp only [finish, hcloses, hin, hwithheld, true_and, if_true, loop, Dispatcher.readBuf,
            hr, endOfStream]
          cases failed <;> rfl
        · refine enabled_of_isSome .answer (fun _ => hentered.registered) ?_
          change (answer x).isSome = true
          rw [answer, if_pos hwithheld]
          rfl
      · exact enabled_of_incoming hr hin

/-- With the command settled, nothing holds the sending half of its stream. -/
theorem Settled.hasSender {r : Resolution} (h : Settled i s r) : s.hasSender i = false := by
  have hwriter : ∀ bytes tag j collector, s.writer ≠ .registering bytes tag j collector := by
    intro bytes tag j collector hw
    have hnext := h.writer
    rw [hw] at hnext
    cases hnext
  have hcollectors : s.pending.collectors.any (·.tx == i) = false := by
    simpa using h.collectors
  have hhand : ∀ p buffer, s.reader ≠ .dispatching (.stream i) p buffer := by
    intro p buffer hr
    have hnone := h.hand
    rw [hr] at hnone
    simp [Dispatcher.Reader.handFor] at hnone
  unfold Dispatcher.hasSender
  rw [h.queue, hcollectors]
  cases hw : s.writer with
  | registering => exact absurd hw (hwriter _ _ _ _)
  | idle | writing | stopped =>
    cases hr : s.reader with
    | dispatching route p buffer =>
      cases route with
      | stream tx =>
        have hne : tx ≠ i := by
          rintro rfl
          exact hhand p buffer hr
        simp [hne]
      | tagged | broadcast => rfl
    | _ => rfl

/-- **The caller goes on to the end once the command is settled.** -/
theorem enabled_of_settled {r : Resolution} (h : Settled i x.client r) (hfinish : Finishing i r x) :
    (∃ result, x.stage = .returned result) ∨ Enabled maxFrameSize cmd wants i script x := by
  cases hstage : x.stage with
  | calling => simp only [Finishing, hstage] at hfinish
  | polling =>
    simp only [Finishing, hstage] at hfinish
    right
    cases hq : (x.client.streams i).queue with
    | cons f rest => exact enabled_of_frame hfinish hq
    | nil =>
      refine enabled_of_isSome .poll (by simp [Action.answers]) ?_
      change (poll i x).isSome = true
      simp [poll, hstage, Dispatcher.nextFrame, hq, h.hasSender]
  | closing =>
    simp only [Finishing, hstage] at hfinish
    refine .inr (enabled_of_isSome .close (by simp [Action.answers]) ?_)
    change (close i x).isSome = true
    simp [close, hstage, Dispatcher.closeStream, hfinish.1]
  | draining =>
    simp only [Finishing, hstage] at hfinish
    refine .inr (enabled_of_isSome .drain (by simp [Action.answers]) ?_)
    change (drain i x).isSome = true
    cases hq : (x.client.streams i).queue <;>
      simp [drain, hstage, Dispatcher.drainStream, hfinish.1, hq]
  | awaiting =>
    refine .inr (enabled_of_isSome .reply (by simp [Action.answers]) ?_)
    change (reply i x).isSome = true
    simp [reply, hstage, Dispatcher.pollReply, h.resolved]
  | returned result => exact .inl ⟨result, rfl⟩

/-- The call has returned, with what the server's answer comes to. -/
def Completed (script : Script) (wants : FrameFilter) (x : Exchange) : Prop :=
  ∃ result, x.stage = .returned result ∧ script.Outcome wants result x.frames

/-- **Until the call returns there is something to do.** -/
theorem Invariant.progress (hbreaks : hasLineBreaks cmd = false)
    (hvalid : script.Valid maxFrameSize tag)
    (h : Invariant maxFrameSize wants i tag line script x) :
    Completed script wants x ∨ Enabled maxFrameSize cmd wants i script x := by
  cases h.stands with
  | calling late hbefore hstage hissued htag hframes =>
    right
    by_cases hroom : x.client.queue.length < WRITE_CHANNEL_CAP
    · refine enabled_of_isSome .enqueue nofun ?_
      change (enqueue cmd wants x).isSome = true
      cases hw : x.client.writer with
      | stopped => exact absurd hw h.alive.writer
      | idle | registering | writing =>
        simp [enqueue, rejectLineBreaks, hstage, Dispatcher.enqueueCommand, hbreaks,
          h.alive.handles, hw, hroom]
    · refine enabled_of_writer h.alive.writer fun _ hq => hroom ?_
      rw [hq]
      decide
  | queued late hbefore hqueued =>
    refine .inr (enabled_of_writer h.alive.writer fun hidle => ?_)
    rcases hqueued with ⟨hw, -⟩ | ⟨others, hq, -⟩
    · cases hidle.symm.trans hw
    · simp [hq]
  | streaming late fs hentered hfollow hopen hstream =>
    exact .inr (enabled_of_streaming hvalid h.alive hentered hfollow hopen hstream)
  | answered late answer status code text p buffer more hentered hfollow hr =>
    obtain ⟨s', hs'⟩ := dispatchFrame_tagged_isSome hr
    exact .inr (enabled_of_loop .dispatch rfl rfl hs')
  | broken e tail hentered hfollow hr =>
    exact .inr (enabled_of_loop .failAll rfl rfl (by
      simp only [Dispatcher.failAllPending, hr]; rfl))
  | settled r hsettled hfinish houtcome =>
    rcases enabled_of_settled hsettled hfinish with ⟨result, hstage⟩ | henabled
    · left
      simp only [Finishing, hstage] at hfinish
      refine ⟨result, hstage, ?_⟩
      rw [hfinish.1, hfinish.2]
      exact houtcome
    · exact .inr henabled

/-- **A streaming command that nothing disturbs returns.** On every interleaving in which the answer
and the end of the connection come after the command is registered. -/
theorem streaming_completes {d : Dispatcher} {incoming : Bytes}
    (hbreaks : hasLineBreaks cmd = false)
    (hquiet : Quiet maxFrameSize tag d) (htag : formatTag d.tagCounter.toNat = tag)
    (hvalid : script.Valid maxFrameSize tag)
    (hbytes : d.reader.unread ++ incoming = wire script.early) :
    Inevitably (step maxFrameSize cmd wants d.issued script) (AnswersInTime d.issued)
      (Completed script wants) (start d incoming script) := by
  refine inevitably_of_measure
    (I := Invariant maxFrameSize wants d.issued tag (commandLine tag cmd) script)
    (measure cmd d.issued) (fun h hC hstep => h.step hbreaks hvalid hC hstep) measure_lt
    (fun h => h.progress hbreaks hvalid) ?_
  refine ⟨⟨hquiet.reachable, hquiet.handles, hquiet.writer, fun j _ => hquiet.streams j⟩, ?_⟩
  refine .calling script.early ⟨List.suffix_rfl, hbytes, rfl, hquiet.reader, ?_⟩ rfl rfl htag rfl
  intro hmem
  exact Nat.lt_irrefl _ ((Dispatcher.inLine_of_reachable hquiet.reachable).lt_issued hmem)

/-- A command with a line break is refused. -/
theorem refused_returns (hbreaks : hasLineBreaks cmd = true) (hstage : x.stage = .calling) :
    Inevitably (step maxFrameSize cmd wants i script) (AnswersInTime i)
      (fun x => ∃ e, x.stage = .returned (.error e)) x := by
  refine inevitably_of_measure
    (I := fun x => x.stage = .calling ∨ ∃ e, x.stage = .returned (.error e))
    (measure cmd i) (fun {a x x'} h _ hstep => ?_) measure_lt (fun {x} h => ?_) (.inl hstage)
  · have hstays : ∀ stage, stage ≠ .calling → (∀ e, stage ≠ .returned (.error e)) →
        x.stage ≠ stage := by
      rintro stage hne hne' rfl
      exact h.elim hne fun ⟨e, he⟩ => hne' e he
    cases moves_of_step hstep with
    | refuse => exact .inr ⟨_, rfl⟩
    | enqueue _ hno => cases hbreaks.symm.trans hno
    | frame hpolling | ended hpolling => exact absurd hpolling (hstays _ nofun nofun)
    | close hclosing => exact absurd hclosing (hstays _ nofun nofun)
    | drain hdraining | drained hdraining => exact absurd hdraining (hstays _ nofun nofun)
    | reply hawaiting => exact absurd hawaiting (hstays _ nofun nofun)
    | _ => exact h
  · rcases h with hstage | hreturned
    · refine .inr (enabled_of_isSome .enqueue nofun ?_)
      change (enqueue cmd wants x).isSome = true
      simp [enqueue, rejectLineBreaks, hstage, hbreaks]
    · exact .inl hreturned

end Exchange

/-! ### `search`, `uid_search` and `fetch` -/

/-- The ids of a `SEARCH` response. -/
def Response.ids : Response → List UInt32
  | .data (.search ids) => ids
  | _ => []

/-- The result of a `FETCH` response. -/
def Response.fetched : Response → Option FetchResult
  | .data (.fetch seq attributes) =>
    some (attributes.foldl FetchResult.withAttribute ⟨seq, none, none⟩)
  | _ => none

/-- What a method returns that makes `collect` of the frames. -/
def Exchange.value {α : Type} (collect : List Bytes → α) (x : Exchange) :
    Option (Except ClientError α) :=
  x.stage.result?.map fun result => result.map fun _ => collect x.frames

/-- What such a method should return: with a tagged OK what `collect` makes of the frames of the
answer and those still under way when the command was registered, else an error. -/
def Script.Returns {α : Type} (script : Script) (collect : List Frame → α)
    (result : Except ClientError α) : Prop :=
  match script.ending with
  | .tagged t _ => ∃ tag status code text, t.2 = .status ⟨some tag, status, code, text⟩ ∧
      if status = .ok then
        ∃ late, late <:+ script.early ∧ result = .ok (collect (late ++ script.frames))
      else ∃ e, result = .error e
  | .broken _ => ∃ e, result = .error e

/-- The second parse of a frame gives the same response. -/
theorem searchIds_of_complete {f : Frame} (hf : responseFramer.Complete f) :
    Session.searchIds f.1 = f.2.ids := by
  have hparse : parseResponse f.1 = .ok ([], f.2) := hf
  rw [Session.searchIds, hparse]
  unfold Response.ids
  cases f.2 with
  | data d => cases d <;> rfl
  | _ => rfl

theorem fetchResult_of_complete {f : Frame} (hf : responseFramer.Complete f) :
    Session.fetchResult f.1 = f.2.fetched := by
  have hparse : parseResponse f.1 = .ok ([], f.2) := hf
  rw [Session.fetchResult, hparse]
  unfold Response.fetched
  cases f.2 with
  | data d => cases d <;> rfl
  | _ => rfl

theorem flatMap_searchIds {fs : List Frame} (hfs : ∀ f ∈ fs, responseFramer.Complete f) :
    ((fs.filter (Script.wanted isSearch)).map Prod.fst).flatMap Session.searchIds
      = fs.flatMap (·.2.ids) := by
  induction fs with
  | nil => rfl
  | cons f fs ih =>
    have ih := ih fun g hg => hfs g (List.mem_cons_of_mem f hg)
    rw [List.flatMap_cons, ← ih]
    cases hwanted : Script.wanted isSearch f with
    | true =>
      rw [List.filter_cons_of_pos hwanted, List.map_cons, List.flatMap_cons,
        searchIds_of_complete (hfs f List.mem_cons_self)]
    | false =>
      have hnone : f.2.ids = [] := by
        unfold Response.ids
        split
        next heq => simp [Script.wanted, heq, Response.tag?, isSearch] at hwanted
        · rfl
      rw [List.filter_cons_of_neg (by simp [hwanted]), hnone, List.nil_append]

theorem filterMap_fetchResult {fs : List Frame} (hfs : ∀ f ∈ fs, responseFramer.Complete f) :
    ((fs.filter (Script.wanted isFetch)).map Prod.fst).filterMap Session.fetchResult
      = fs.filterMap (·.2.fetched) := by
  induction fs with
  | nil => rfl
  | cons f fs ih =>
    have ih := ih fun g hg => hfs g (List.mem_cons_of_mem f hg)
    cases hwanted : Script.wanted isFetch f with
    | true =>
      rw [List.filter_cons_of_pos hwanted, List.map_cons, List.filterMap_cons, List.filterMap_cons,
        fetchResult_of_complete (hfs f List.mem_cons_self), ih]
    | false =>
      have hnone : f.2.fetched = none := by
        unfold Response.fetched
        split
        next heq => simp [Script.wanted, heq, Response.tag?, isFetch] at hwanted
        · rfl
      rw [List.filter_cons_of_neg (by simp [hwanted]), ih, List.filterMap_cons, hnone]

/-- From what the call comes to, what the method returns. -/
theorem Exchange.Completed.returns {α : Type} {maxFrameSize : ℕ} {tag : Bytes} {script : Script}
    {wants : FrameFilter} {x : Exchange} (h : Completed script wants x)
    (hvalid : script.Valid maxFrameSize tag) {collect : List Bytes → α} {collect' : List Frame → α}
    (hcollect : ∀ fs, (∀ f ∈ fs, responseFramer.Complete f) →
      collect ((fs.filter (Script.wanted wants)).map Prod.fst) = collect' fs) :
    ∃ result, x.value collect = some result ∧ script.Returns collect' result := by
  obtain ⟨result, hstage, houtcome⟩ := h
  refine ⟨result.map fun _ => collect x.frames, ?_, ?_⟩
  · rw [value, hstage]
    rfl
  unfold Script.Outcome at houtcome
  unfold Script.Returns
  cases hending : script.ending with
  | broken tail =>
    rw [hending] at houtcome
    obtain ⟨e, rfl⟩ := houtcome
    exact ⟨e, rfl⟩
  | tagged t more =>
    rw [hending] at houtcome
    obtain ⟨answer, status, code, text, late, ht, rfl, hlate, hframes⟩ := houtcome
    refine ⟨answer, status, code, text, ht, ?_⟩
    by_cases hstatus : status = .ok
    · rw [if_pos hstatus]
      refine ⟨late, hlate, ?_⟩
      have hcomplete : ∀ f ∈ late ++ script.frames, responseFramer.Complete f := by
        intro f hf
        refine (hvalid.frames f ?_).1
        rcases List.mem_append.mp hf with hf | hf
        · exact List.mem_append_left _ (hlate.subset hf)
        · exact List.mem_append_right _ hf
      rw [hstatus, hframes, hcollect _ hcomplete]
      rfl
    · rw [if_neg hstatus]
      obtain ⟨e, he⟩ := Dispatcher.taggedResult_of_ne hstatus text t.1
      rw [he]
      exact ⟨e, rfl⟩

/-- **Searches and fetches are complete.** On a live connection with no streaming command in flight,
in every run in which the server's answer and the end of the connection come after the command is
registered: with a tagged OK a search returns the ids of every `SEARCH` response, in wire order, and
a fetch one result for every `FETCH` response; with anything else in its place they return an error.
A search with a line break in a criterion is refused. -/
theorem search_fetch_complete {client : Dispatcher} {incoming : Bytes} {script : Script}
    (hquiet : Quiet MAX_FRAME_SIZE (formatTag client.tagCounter.toNat) client)
    (hvalid : script.Valid MAX_FRAME_SIZE (formatTag client.tagCounter.toNat))
    (hbytes : client.reader.unread ++ incoming = wire script.early) :
    (∀ (query : SearchQuery) (cmd : Bytes),
      cmd = ascii "SEARCH " ++ query.build ∨ cmd = ascii "UID SEARCH " ++ query.build →
      Inevitably (Exchange.step MAX_FRAME_SIZE cmd isSearch client.issued script)
        (Exchange.AnswersInTime client.issued)
        (fun x => ∃ result, x.value (·.flatMap Session.searchIds) = some result ∧
          if hasLineBreaks cmd then ∃ e, result = .error e
          else script.Returns (·.flatMap (·.2.ids)) result)
        (Exchange.start client incoming script)) ∧
    ∀ (set items : Str) (cmd : Bytes), Session.fetchCommand set items = .ok cmd →
      Inevitably (Exchange.step MAX_FRAME_SIZE cmd isFetch client.issued script)
        (Exchange.AnswersInTime client.issued)
        (fun x => ∃ result, x.value (·.filterMap Session.fetchResult) = some result ∧
          script.Returns (·.filterMap (·.2.fetched)) result)
        (Exchange.start client incoming script) := by
  constructor
  · intro query cmd _
    cases hbreaks : hasLineBreaks cmd with
    | true =>
      refine (Exchange.refused_returns hbreaks rfl).mono fun x ⟨e, hstage⟩ => ?_
      refine ⟨.error e, ?_, if_pos rfl |>.mpr ⟨e, rfl⟩⟩
      rw [Exchange.value, hstage]
      rfl
    | false =>
      refine (Exchange.streaming_completes hbreaks hquiet rfl hvalid hbytes).mono fun x hx => ?_
      simp only [Bool.false_eq_true, if_false]
      exact hx.returns hvalid fun fs hfs => flatMap_searchIds hfs
  · intro set items cmd hcmd
    have hbreaks := (noBreaks_iff cmd).mp (fetchCommand_noBreaks hcmd)
    refine (Exchange.streaming_completes hbreaks hquiet rfl hvalid hbytes).mono fun x hx => ?_
    exact hx.returns hvalid fun fs hfs => filterMap_fetchResult hfs

theorem validUtf8_A0001 : validUtf8 (ascii "A0001") = true := rfl

theorem validUtf8_done : validUtf8 (ascii "done") = true := rfl

/-- Two `SEARCH` responses with another response between them, and a tagged OK. -/
def twoResponses : Script where
  early := []
  frames := [(ascii "* SEARCH 1 2\r\n", .data (.search [1, 2])),
    (ascii "* 3 EXISTS\r\n", .data (.exists 3)), (ascii "* SEARCH 5\r\n", .data (.search [5]))]
  ending := .tagged (ascii "A0001 OK done\r\n", .status
    ⟨some ⟨ascii "A0001", validUtf8_A0001⟩, .ok, none, ⟨ascii "done", validUtf8_done⟩⟩) []
  closes := none

theorem twoResponses_valid : twoResponses.Valid MAX_FRAME_SIZE (ascii "A0001") where
  frames := by
    have hparse : ∀ f ∈ twoResponses.early ++ twoResponses.frames,
        parseResponse f.1 = .ok ([], f.2) ∧ f.1.length ≤ MAX_FRAME_SIZE ∧
          f.2.tag? ≠ some (ascii "A0001") := by
      decide +kernel
    exact hparse
  ending := by
    have hparse : parseResponse (ascii "A0001 OK done\r\n") = .ok ([],
        .status ⟨some ⟨ascii "A0001", rfl⟩, .ok, none, ⟨ascii "done", rfl⟩⟩) := by
      decide +kernel
    exact ⟨hparse, by decide +kernel, rfl⟩

theorem quiet_new (maxFrameSize : ℕ) (tag : Bytes) : Quiet maxFrameSize tag Dispatcher.new where
  reachable := .start
  handles := rfl
  writer := by simp [Dispatcher.new]
  reader := trivial
  streams _ := by simp [Dispatcher.new, Stream.none]

theorem search_fetch_complete_two_responses :
    Quiet MAX_FRAME_SIZE (formatTag Dispatcher.new.tagCounter.toNat) Dispatcher.new ∧
      twoResponses.Valid MAX_FRAME_SIZE (formatTag Dispatcher.new.tagCounter.toNat) ∧
      Inevitably (Exchange.step MAX_FRAME_SIZE (ascii "SEARCH ALL") isSearch 0 twoResponses)
        (Exchange.AnswersInTime 0)
        (fun x => x.value (·.flatMap Session.searchIds) = some (.ok [1, 2, 5]))
        (Exchange.start Dispatcher.new [] twoResponses) := by
  have htag : formatTag Dispatcher.new.tagCounter.toNat = ascii "A0001" := by decide +kernel
  have hquiet := quiet_new MAX_FRAME_SIZE (formatTag Dispatcher.new.tagCounter.toNat)
  have hvalid := twoResponses_valid
  rw [← htag] at hvalid
  refine ⟨hquiet, hvalid, ?_⟩
  have hall := (search_fetch_complete hquiet hvalid (List.append_nil [])).1 ⟨.all⟩
    (ascii "SEARCH ALL") (.inl (by decide +kernel))
  refine hall.mono fun x ⟨result, hvalue, hreturns⟩ => ?_
  rw [if_neg (by decide +kernel)] at hreturns
  obtain ⟨answer, status, code, text, ht, hreturns⟩ := hreturns
  cases ht
  obtain ⟨late, hlate, rfl⟩ := hreturns
  obtain rfl := List.suffix_nil.mp hlate
  exact hvalue

/-! ### The connection ends too early -/

/-- The server closes the connection without a word. -/
def hangsUp : Script where
  early := []
  frames := []
  ending := .broken []
  closes := some false

theorem hangsUp_valid (maxFrameSize : ℕ) (tag : Bytes) : hangsUp.Valid maxFrameSize tag where
  frames := by simp [hangsUp]
  ending := ⟨Framer.undecided_nil, fun _ => rfl⟩

/-- With the read loop ended, the queue worked off and the command in the pending table, nothing can
be done. -/
theorem Exchange.stuck {maxFrameSize : ℕ} {cmd : Bytes} {wants : FrameFilter} {i : CommandId}
    {script : Script} {x : Exchange} (hstage : x.stage = .polling) (hoff : x.client.WorkedOff)
    (hhandles : x.client.handles = true) (hr : x.client.reader = .stopped)
    (hq : (x.client.streams i).queue = []) (hsender : x.client.hasSender i = true)
    (hwithheld : x.withheld = []) (a : Action) :
    step maxFrameSize cmd wants i script a x = none := by
  have hqueue : x.client.queue = [] := List.isEmpty_iff.mp hoff.1
  have hwriter := hoff.2
  cases a with
  | enqueue => simp [step, enqueue, hstage]
  | poll => simp [step, poll, hstage, Dispatcher.nextFrame, hq, hsender]
  | close => simp [step, close, hstage]
  | drain => simp [step, drain, hstage]
  | reply => simp [step, reply, hstage]
  | recvRequest =>
    cases hw : x.client.writer <;>
      simp [step, loop, Dispatcher.recvRequest, hqueue, hhandles, hw]
  | register =>
    cases hw : x.client.writer with
    | registering => simp [hw, Writer.settled] at hwriter
    | _ => simp [step, loop, Dispatcher.register, hw]
  | writeBytes n =>
    cases hw : x.client.writer with
    | writing => simp [hw, Writer.settled] at hwriter
    | _ => simp [step, loop, Dispatcher.writeBytes, hw]
  | answer => simp [step, answer, hwithheld]
  | read n => simp [step, read, Dispatcher.readBuf, hr]
  | finish => simp only [step, finish, loop, Dispatcher.readBuf, hr]; split <;> simp
  | scan => simp [step, loop, Dispatcher.scanBuffer, hr]
  | dispatch => simp [step, loop, Dispatcher.dispatchFrame, hr]
  | failAll => simp [step, loop, Dispatcher.failAllPending, hr]

/-- The command is queued, the connection ends, and then the command is registered and written. -/
def registeredLate : List Exchange.Action :=
  [.enqueue, .finish, .failAll, .recvRequest, .register, .writeBytes 64, .writeBytes 64]

/-- **A search can wait for ever.** The connection ends before the command is registered, and the
call does not return. -/
theorem search_waits_forever :
    Quiet MAX_FRAME_SIZE (formatTag Dispatcher.new.tagCounter.toNat) Dispatcher.new ∧
      hangsUp.Valid MAX_FRAME_SIZE (formatTag Dispatcher.new.tagCounter.toNat) ∧
      ¬ Inevitably (Exchange.step MAX_FRAME_SIZE (ascii "SEARCH ALL") isSearch 0 hangsUp)
        (fun _ _ => True) (fun x => (x.value (·.flatMap Session.searchIds)).isSome = true)
        (Exchange.start Dispatcher.new [] hangsUp) := by
  refine ⟨quiet_new _ _, hangsUp_valid _ _, ?_⟩
  have hrun : (runMeeting (Exchange.step MAX_FRAME_SIZE (ascii "SEARCH ALL") isSearch 0 hangsUp)
      (fun _ x => True ∧ ¬ (x.value (·.flatMap Session.searchIds)).isSome = true) registeredLate
      (Exchange.start Dispatcher.new [] hangsUp)).any (fun x => decide (x.stage = .polling ∧
        x.client.WorkedOff ∧ x.client.handles = true ∧ x.client.reader = .stopped ∧
        (x.client.streams 0).queue = [] ∧
        x.client.hasSender 0 = true ∧ x.withheld = [])) = true := by
    decide +kernel
  obtain ⟨x, hreach, hstage, hoff, hhandles, hr, hq, hsender, hwithheld⟩ := exists_reaches hrun
  refine not_inevitably_of_stuck hreach ?_
    (Exchange.stuck hstage hoff hhandles hr hq hsender hwithheld)
  simp [Exchange.value, hstage, Stage.result?]

end ImapRs
