import ImapRs.Client.Session

/-!
# Capabilities after authentication

What a server may do changes with authentication, so `login` and `authenticate_plain` look at the
capabilities again: the tagged OK may carry a list, and if it does not, a `CAPABILITY` command asks
for one.

The server can put its list in several places of the answer to that command. The session reads the
untagged ones; it does not look at the code of the tagged OK (as `finalize_session_after_handshake`
does), and it does not notice that no list came. The main theorem says exactly when that makes no
difference.

## Main definitions

* `Answer.okFrame` — the tagged OK of a command
* `latestCapabilities` — the list that counts, of everything the server sent
* `RefreshSuffices` — where the session's reading of the answer is enough

## Main results

* `authentication_refreshes_iff` — after an authentication that succeeds, the capabilities are the
  latest list if and only if the session's reading is enough
-/

namespace ImapRs

open Incremental Transition

/-! ### What the server sent -/

/-- The tagged OK of a command, if that is how it ended. -/
def Answer.okFrame (a : Answer) : Option ServerFrame :=
  match a.reply with
  | .resolved (.ok frame) => some frame
  | _ => none

/-- The capability list of the tagged OK. -/
def Answer.okList (a : Answer) : Option (List Str) :=
  a.okFrame.bind fun frame => frame.response.capabilityList

/-- The last capability list in the untagged frames of an answer. -/
def Answer.untaggedList (a : Answer) : Option (List Str) :=
  lastCapabilityList (a.untagged.map (·.response))

/-- The capability list that counts: that of the tagged OK of the authentication or, failing that,
the last one in the answer to `CAPABILITY`, whose tagged OK comes last. -/
def latestCapabilities (auth capability : Answer) : Option (List Str) :=
  match auth.okList with
  | some atoms => some atoms
  | none =>
    match capability.okList with
    | some atoms => some atoms
    | none => capability.untaggedList

/-- The session's reading of the answers gives the list that counts, when `before` is what was known
before: it has only to look at the tagged OK of the authentication and at untagged lists. -/
def RefreshSuffices (before : Capabilities) (auth capability : Answer) : Prop :=
  auth.okList.isSome = true ∨
    match capability.untaggedList, capability.okList with
    | some _, none => True
    | some atoms, some last => Capabilities.fromAtoms atoms = Capabilities.fromAtoms last
    | none, some last => before = Capabilities.fromAtoms last
    | none, none => False

/-! ### What the session reads -/

/-- Parsing a frame again gives the response it was taken for. -/
theorem updateFrom_eq (caps : Capabilities) (frames : List ServerFrame) :
    Session.updateFrom caps frames = caps.updateAll (frames.map (·.response)) := by
  rw [Session.updateFrom, Capabilities.updateAll, List.foldl_map]
  congr 1
  funext caps frame
  rw [frame.parses]

/-- The filter only keeps away what carries no list. -/
theorem updateFrom_streamed (caps : Capabilities) (a : Answer) :
    Session.updateFrom caps (a.streamed Capabilities.isCapabilityResponse)
      = match a.untaggedList with
        | some atoms => Capabilities.fromAtoms atoms
        | none => caps := by
  have hfilter : ∀ frames : List ServerFrame,
      ((frames.filter fun f => Capabilities.isCapabilityResponse f.response).map
        (·.response)).filterMap Response.capabilityList
        = (frames.map (·.response)).filterMap Response.capabilityList := by
    intro frames
    induction frames with
    | nil => rfl
    | cons f frames ih =>
      rw [List.filter_cons, Capabilities.isCapabilityResponse_eq]
      cases hlist : f.response.capabilityList with
      | none => simpa [List.filterMap_cons, hlist] using ih
      | some atoms => simpa [List.filterMap_cons, hlist] using ih
  rw [updateFrom_eq, Capabilities.updateAll_eq, lastCapabilityList, Answer.streamed, hfilter]
  rfl

/-- What a command that succeeds leaves: its answer ended in a tagged OK, the next number is up, and
the capabilities are untouched. -/
structure Succeeded (s s' : Session) (frame : ServerFrame) : Prop where
  reply : (s.raw.answers s.raw.issued).okFrame = some frame
  issued : s'.raw.issued = s.raw.issued + 1
  answers : s'.raw.answers = s.raw.answers
  capabilities : s'.capabilities = s.capabilities

theorem okFrame_of_await {a : Answer} {frame : ServerFrame} (h : a.reply.await = .ok frame) :
    a.okFrame = some frame := by
  rw [Answer.okFrame]
  cases hreply : a.reply with
  | resolved result =>
    rw [hreply] at h
    cases h
    rfl
  | dropped | late =>
    rw [hreply] at h
    cases h

theorem executeCommand_ok {cmd : Bytes} {s s' : Session} {frame : ServerFrame}
    (h : RawClient.executeCommand cmd s = (.ok frame, s')) : Succeeded s s' frame := by
  obtain ⟨i, t, hqueued, h⟩ := run_bind_eq_ok h
  obtain ⟨rfl, rfl⟩ := RawClient.enqueueCommand_ok hqueued
  rw [run_get_bind] at h
  obtain ⟨hreply, rfl⟩ := run_lift_eq_ok h
  exact ⟨okFrame_of_await hreply, rfl, rfl, rfl⟩

/-- What a session knows after `CAPABILITY`: the last untagged list, or what it knew before. -/
def refreshed (before : Capabilities) (capability : Answer) : Capabilities :=
  match capability.untaggedList with
  | some atoms => Capabilities.fromAtoms atoms
  | none => before

theorem refreshCapabilities_ok {s s' : Session}
    (h : Session.refreshCapabilities s = (.ok (), s')) :
    s'.capabilities = refreshed s.capabilities (s.raw.answers s.raw.issued) := by
  obtain ⟨⟨frames, reply⟩, t, hrun, h⟩ := run_bind_eq_ok h
  obtain ⟨i, t', hqueued, hrun⟩ := run_bind_eq_ok hrun
  obtain ⟨rfl, rfl⟩ := RawClient.enqueueCommand_ok hqueued
  cases hrun
  obtain ⟨_, t, hmodify, h⟩ := run_bind_eq_ok h
  cases hmodify
  obtain ⟨frame, t, hreply, h⟩ := run_bind_eq_ok h
  obtain ⟨-, rfl⟩ := run_lift_eq_ok hreply
  cases h
  exact updateFrom_streamed s.capabilities _

theorem refreshCapabilitiesFromFrame_ok {s s' : Session} {frame : ServerFrame}
    (h : Session.refreshCapabilitiesFromFrame frame.bytes s = (.ok (), s')) :
    s'.capabilities = match frame.response.capabilityList with
      | some atoms => Capabilities.fromAtoms atoms
      | none => refreshed s.capabilities (s.raw.answers s.raw.issued) := by
  rw [Session.refreshCapabilitiesFromFrame, run_get_bind, frame.parses] at h
  dsimp only at h
  rw [Capabilities.tryUpdateFrom_eq] at h
  cases hlist : frame.response.capabilityList with
  | some atoms =>
    rw [hlist] at h
    cases h
    rfl
  | none =>
    rw [hlist] at h
    exact refreshCapabilities_ok h

/-- Both ways to authenticate come down to a command that succeeds and a look at its tagged OK. -/
theorem authentication_ok (op : Operation .tls .unauthenticated .authenticated) {s s' : Session}
    {r : op.Result} (h : op.run s = (.ok r, s')) :
    ∃ frame t, Succeeded s t frame ∧
      Session.refreshCapabilitiesFromFrame frame.bytes t = (.ok (), s') := by
  cases op with
  | login user pass =>
    obtain ⟨userQ, t, huser, h⟩ := run_bind_eq_ok h
    obtain ⟨-, rfl⟩ := run_lift_eq_ok huser
    obtain ⟨passQ, t, hpass, h⟩ := run_bind_eq_ok h
    obtain ⟨-, rfl⟩ := run_lift_eq_ok hpass
    obtain ⟨frame, t, hrun, h⟩ := run_bind_eq_ok h
    exact ⟨frame, t, executeCommand_ok hrun, h⟩
  | authenticatePlain user pass =>
    change Session.authenticatePlain user pass s = _ at h
    rw [Session.authenticatePlain] at h
    split at h
    · cases h
    split at h
    · cases h
    obtain ⟨i, t, hqueued, h⟩ := run_bind_eq_ok h
    obtain ⟨rfl, rfl⟩ := RawClient.enqueueCommand_ok hqueued
    obtain ⟨reply, t, hcontinue, h⟩ := run_bind_eq_ok h
    obtain ⟨rfl, rfl⟩ := Session.awaitContinuation_ok hcontinue
    obtain ⟨_, t, hsecret, h⟩ := run_bind_eq_ok h
    obtain ⟨frame, u, hreply, h⟩ := run_bind_eq_ok h
    obtain ⟨hframe, rfl⟩ := run_lift_eq_ok hreply
    have hsame := RawClient.sendSecret_ok hsecret
    refine ⟨frame, t, ⟨okFrame_of_await hframe, ?_, ?_, ?_⟩, h⟩
    · rw [hsame]; rfl
    · rw [hsame]; rfl
    · rw [hsame]; rfl

/-- **Capabilities are looked at again after authentication**, as far as the session reads the
server's answers: what it knows afterwards is the list that counts if and only if its reading is
enough. -/
theorem authentication_refreshes_iff (op : Operation .tls .unauthenticated .authenticated)
    {s s' : Session} {r : op.Result} (h : op.run s = (.ok r, s')) :
    (∃ atoms, latestCapabilities (s.raw.answers s.raw.issued) (s.raw.answers (s.raw.issued + 1))
        = some atoms ∧ s'.capabilities = Capabilities.fromAtoms atoms) ↔
      RefreshSuffices s.capabilities (s.raw.answers s.raw.issued)
        (s.raw.answers (s.raw.issued + 1)) := by
  obtain ⟨frame, t, hsucceeded, hrefresh⟩ := authentication_ok op h
  have hcaps := refreshCapabilitiesFromFrame_ok hrefresh
  have hlist : (s.raw.answers s.raw.issued).okList = frame.response.capabilityList := by
    rw [Answer.okList, hsucceeded.reply]
    rfl
  rw [hsucceeded.answers, hsucceeded.issued, hsucceeded.capabilities] at hcaps
  rw [hcaps, latestCapabilities, RefreshSuffices, hlist]
  generalize s.raw.answers (s.raw.issued + 1) = capability
  cases frame.response.capabilityList with
  | some atoms => simp
  | none =>
    rw [refreshed]
    cases capability.okList <;> cases capability.untaggedList <;> simp [eq_comm]

/-! ### A list the session does not look at -/

/-- `A0001 OK done`, the tagged OK of a `LOGIN` without a capability list. -/
def plainOk : ServerFrame where
  bytes := ascii "A0001 OK done\r\n"
  response := .status ⟨some ⟨ascii "A0001", rfl⟩, .ok, none, ⟨ascii "done", rfl⟩⟩
  parses := by decide +kernel

/-- `A0002 OK [CAPABILITY IMAP4rev1] done`, the tagged OK of a `CAPABILITY`. -/
def listOk : ServerFrame where
  bytes := ascii "A0002 OK [CAPABILITY IMAP4rev1] done\r\n"
  response := .status ⟨some ⟨ascii "A0002", rfl⟩, .ok,
    some (.capability [⟨ascii "IMAP4rev1", rfl⟩]), ⟨ascii "done", rfl⟩⟩
  parses := by decide +kernel

/-- A session that knows `IDLE` from before, and a server that names its capabilities after
authentication only in the tagged OK of `CAPABILITY`. -/
def codeOnlySession : Session where
  raw := ⟨1, 0, [], fun i => ⟨true, [], true, .resolved (.ok (if i = 0 then plainOk else listOk))⟩⟩
  capabilities := { idle := true }

theorem codeOnlySession_latest :
    latestCapabilities (codeOnlySession.raw.answers 0) (codeOnlySession.raw.answers 1)
      = some [⟨ascii "IMAP4rev1", rfl⟩] := by
  decide +kernel

/-- The session keeps what it knew before: `IDLE`, which the server no longer offers. -/
theorem authentication_keeps_stale_capabilities :
    ¬ ∀ (op : Operation .tls .unauthenticated .authenticated) (s s' : Session) (r : op.Result),
      op.run s = (.ok r, s') →
        ∃ atoms, latestCapabilities (s.raw.answers s.raw.issued)
            (s.raw.answers (s.raw.issued + 1)) = some atoms ∧
          s'.capabilities = Capabilities.fromAtoms atoms := by
  intro hall
  have hok : (Session.login ⟨ascii "u", rfl⟩ ⟨ascii "p", rfl⟩ codeOnlySession).1 = .ok () := by
    decide +kernel
  have hidle : (Session.login ⟨ascii "u", rfl⟩ ⟨ascii "p", rfl⟩ codeOnlySession).2.capabilities.idle
      = true := by
    decide +kernel
  obtain ⟨atoms, hlatest, hcaps⟩ := hall (.login ⟨ascii "u", rfl⟩ ⟨ascii "p", rfl⟩) codeOnlySession
    _ () (Prod.ext hok rfl)
  cases codeOnlySession_latest.symm.trans hlatest
  have hstale := (congrArg Capabilities.idle hcaps).symm.trans hidle
  exact absurd hstale (by decide)

/-- The same server, for a session that knew nothing but `IMAP4rev1` before. -/
theorem authentication_refreshes_iff_imap4rev1 :
    RefreshSuffices { imap4rev1 := true } (codeOnlySession.raw.answers 0)
        (codeOnlySession.raw.answers 1) ∧
      ∃ s', Session.login ⟨ascii "u", rfl⟩ ⟨ascii "p", rfl⟩
          { codeOnlySession with capabilities := { imap4rev1 := true } } = (.ok (), s') ∧
        s'.capabilities = Capabilities.fromAtoms [⟨ascii "IMAP4rev1", rfl⟩] := by
  have hun : (codeOnlySession.raw.answers 1).untaggedList = none := by decide
  have hlist : (codeOnlySession.raw.answers 1).okList = some [⟨ascii "IMAP4rev1", rfl⟩] := by
    decide +kernel
  have hsuffices : RefreshSuffices { imap4rev1 := true } (codeOnlySession.raw.answers 0)
      (codeOnlySession.raw.answers 1) := by
    rw [RefreshSuffices, hun, hlist]
    exact .inr (by decide)
  have hok : (Session.login ⟨ascii "u", rfl⟩ ⟨ascii "p", rfl⟩
      { codeOnlySession with capabilities := { imap4rev1 := true } }).1 = .ok () := by
    decide +kernel
  obtain ⟨atoms, hlatest, hcaps⟩ := (authentication_refreshes_iff
    (.login ⟨ascii "u", rfl⟩ ⟨ascii "p", rfl⟩) (Prod.ext hok rfl)).mpr hsuffices
  cases codeOnlySession_latest.symm.trans hlatest
  exact ⟨hsuffices, _, Prod.ext hok rfl, hcaps⟩

end ImapRs
