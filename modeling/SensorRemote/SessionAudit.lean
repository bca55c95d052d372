import SensorRemote.SessionConfinement

/-!
# The audit records of a session

What `serve` appends to the audit log of a session that it has seen through. The records are
a bracket around the session: it was requested, then rejected, or accepted and, after any file
events, disconnected. One return escapes the bracket: the acceptance is recorded before it is
sent to the peer, and when that cannot be sent the session is over without a record of it.
-/

namespace SensorRemote

open Program

variable {δ : Type}

/-- The audit record that an event appended. -/
def appended : Event (EndpointOp δ) → Option AuditEvent
  | ⟨.audit event, .ok ()⟩ => some event
  | _ => none

/-- The records a history appended, in order. -/
def records (history : List (Event (EndpointOp δ))) : List AuditEvent :=
  history.filterMap appended

/-- An append failed. -/
def failedAudit : Event (EndpointOp δ) → Bool
  | ⟨.audit _, .error _⟩ => true
  | _ => false

/-- The acceptance could not be sent. -/
def failedAcceptance : Event (EndpointOp δ) → Bool
  | ⟨.send (.accepted _), .error _⟩ => true
  | _ => false

/-- All audit appends succeeded. -/
def AuditsSucceed (history : List (Event (EndpointOp δ))) : Prop :=
  ∀ event ∈ history, failedAudit event = false

/-- A session was requested. -/
def RequestReceived (history : List (Event (EndpointOp δ))) : Prop :=
  ∃ mode, received (.request mode) ∈ history

/-- Sending the acceptance did not fail. -/
def AcceptedSent (history : List (Event (EndpointOp δ))) : Prop :=
  ∀ event ∈ history, failedAcceptance event = false

section Records

variable (peer : ExpectedPeer PublicKey) (localId : DeviceId)

/-- A record without a size. -/
def sessionEvent (action : AuditAction) (outcome : AuditOutcome) : AuditEvent :=
  ⟨peer.deviceId, localId, action, outcome, 0⟩

def requestedEvent : AuditEvent := sessionEvent peer localId .connectionRequested .success
def rejectedEvent : AuditEvent := sessionEvent peer localId .sessionRejected .denied
def acceptedEvent : AuditEvent := sessionEvent peer localId .sessionAccepted .success

/-- The records of a session seen through: requested, then rejected, or accepted and, after file
events, disconnected, with the outcome of the session. -/
def Bracketed (records : List AuditEvent) (result : Except EndpointError Unit) : Prop :=
  records = [requestedEvent peer localId, rejectedEvent peer localId] ∨
    ∃ files : List AuditEvent, (∀ event ∈ files, event.action.isFile = true) ∧
      records = requestedEvent peer localId :: acceptedEvent peer localId :: files ++
        [sessionEvent peer localId .sessionDisconnected (if result.isOk then .success else .failed)]

/-- The audit log closes what was begun: nothing if nothing was requested, and otherwise the
whole bracket. -/
def ClosedInAudit (history : List (Event (EndpointOp δ))) (result : Except EndpointError Unit) :
    Prop :=
  (¬RequestReceived history ∧ records history = []) ∨
    Bracketed peer localId (records history) result

end Records

/-! ## One event more -/

variable {history : List (Event (EndpointOp δ))} {event : Event (EndpointOp δ)}

@[simp] theorem records_concat :
    records (history ++ [event]) = records history ++ (appended event).toList := by
  cases h : appended event <;> simp [records, h]

theorem auditsSucceed_concat : AuditsSucceed (history ++ [event]) ↔
    AuditsSucceed history ∧ failedAudit event = false := by
  simp [AuditsSucceed, or_imp, forall_and]

theorem acceptedSent_concat : AcceptedSent (history ++ [event]) ↔
    AcceptedSent history ∧ failedAcceptance event = false := by
  simp [AcceptedSent, or_imp, forall_and]

theorem RequestReceived.concat (h : RequestReceived history) :
    RequestReceived (history ++ [event]) := by
  obtain ⟨mode, hmem⟩ := h
  exact ⟨mode, List.mem_append_left _ hmem⟩

/-- Whether the operation neither appends a record nor sends the acceptance. -/
def EndpointOp.isSilent : {β : Type} → EndpointOp δ β → Bool
  | _, .audit _ | _, .send (.accepted _) => false
  | _, _ => true

variable {β : Type} {o : EndpointOp δ β}

theorem appended_of_silent (ho : o.isSilent = true) (b : β) :
    appended (⟨o, b⟩ : Event (EndpointOp δ)) = none := by
  cases o <;> first | rfl | cases ho

theorem not_failedAcceptance_of_silent (ho : o.isSilent = true) (b : β) :
    failedAcceptance (⟨o, b⟩ : Event (EndpointOp δ)) = false := by
  cases o with
  | send message => cases message <;> first | rfl | cases ho
  | _ => rfl

/-! ## The assertions of the serving end -/

/-- Histories, of which nothing has to hold throughout. -/
abbrev anyHistory (δ : Type) : Regime (histories (EndpointOp δ)) := .alone fun _ => True

/-- The session was requested, and its records so far satisfy `P`. -/
def Logged (P : List AuditEvent → Prop) (history : List (Event (EndpointOp δ))) : Prop :=
  RequestReceived history ∧ AcceptedSent history ∧ (AuditsSucceed history → P (records history))

/-- What has to hold when `serve` returns. -/
def LoggedEnd (peer : ExpectedPeer PublicKey) (localId : DeviceId)
    (result : Except EndpointError Unit) (history : List (Event (EndpointOp δ))) : Prop :=
  AuditsSucceed history → (ClosedInAudit peer localId history result ↔ AcceptedSent history)

variable {P K : List AuditEvent → Prop}

theorem correct_silent (ho : o.isSilent = true) :
    (anyHistory δ).Correct () (Logged P) o fun _ => Logged P := by
  rintro history b _ - ⟨hrequest, hsent, hP⟩ rfl
  refine ⟨trivial, trivial, hrequest.concat, ?_, fun haudits => ?_⟩
  · exact acceptedSent_concat.mpr ⟨hsent, not_failedAcceptance_of_silent ho b⟩
  · simpa [appended_of_silent ho b] using hP (auditsSucceed_concat.mp haudits).1

/-- An append: if it fails, nothing is claimed. -/
theorem correct_audit (event : AuditEvent) (hP : ∀ rs, P rs → K (rs ++ [event])) :
    (anyHistory δ).Correct () (Logged P) (.audit event) fun answer history =>
      Logged K history ∧ (answer.isOk = false → ¬AuditsSucceed history) := by
  rintro history answer _ - ⟨hrequest, hsent, hrecords⟩ rfl
  refine ⟨trivial, trivial, ⟨hrequest.concat, ?_, fun haudits => ?_⟩, fun hfail haudits => ?_⟩
  · exact acceptedSent_concat.mpr ⟨hsent, rfl⟩
  · obtain ⟨hold, hnew⟩ := auditsSucceed_concat.mp haudits
    cases answer with
    | error e => cases hnew
    | ok u => simpa [appended] using hP _ (hrecords hold)
  · cases answer with
    | error e => cases (auditsSucceed_concat.mp haudits).2
    | ok u => cases hfail

/-- Sending the acceptance, after which the session is on. -/
theorem correct_sendAccepted (permissions : Permissions) :
    (anyHistory δ).Correct () (Logged P) (.send (.accepted permissions)) fun answer history =>
      (answer.isOk = true → Logged P history) ∧
        (answer.isOk = false → ¬AcceptedSent history ∧ RequestReceived history ∧
          (AuditsSucceed history → P (records history))) := by
  rintro history answer _ - ⟨hrequest, hsent, hrecords⟩ rfl
  have hP : ∀ answer,
      AuditsSucceed (history ++ [⟨EndpointOp.send (.accepted permissions), answer⟩]) →
      P (records (history ++ [⟨EndpointOp.send (.accepted permissions), answer⟩])) := by
    intro answer haudits
    simpa [appended] using hrecords (auditsSucceed_concat.mp haudits).1
  refine ⟨trivial, trivial, fun hok => ⟨hrequest.concat, ?_, hP _⟩,
    fun hfail => ⟨?_, hrequest.concat, hP _⟩⟩
  · cases answer with
    | error e => cases hok
    | ok u => exact acceptedSent_concat.mpr ⟨hsent, rfl⟩
  · cases answer with
    | error e => exact fun h => by cases (acceptedSent_concat.mp h).2
    | ok u => cases hfail

/-! ## The serving end -/

/-- The records of an accepted session that goes on. -/
def SessionRecords (peer : ExpectedPeer PublicKey) (localId : DeviceId) (rs : List AuditEvent) :
    Prop :=
  ∃ files : List AuditEvent, (∀ event ∈ files, event.action.isFile = true) ∧
    rs = requestedEvent peer localId :: acceptedEvent peer localId :: files

variable {peer : ExpectedPeer PublicKey} {localId : DeviceId}

/-- Handling messages appends file events only. -/
theorem correct_invokes {message : ClientMessage δ} (ho : message.Invokes o) :
    (anyHistory δ).Correct () (Logged (SessionRecords peer localId)) o fun _ =>
      Logged (SessionRecords peer localId) := by
  cases o with
  | audit event =>
    intro history b history' hinv hlogged hstep
    have hone := correct_audit event (K := SessionRecords peer localId) (fun rs => ?_) history b
      history' hinv hlogged hstep
    · exact ⟨trivial, trivial, hone.2.2.1⟩
    · rintro ⟨files, hfiles, rfl⟩
      refine ⟨files ++ [event], fun e he => ?_, rfl⟩
      rcases List.mem_append.mp he with he | he
      · exact hfiles e he
      · rwa [List.mem_singleton.mp he]
  | send answer =>
    apply correct_silent
    cases answer with
    | accepted permissions => exact absurd rfl (ho permissions)
    | _ => rfl
  | receive | close | accept peer mode | desktop consent => exact ho.elim
  | _ => exact correct_silent rfl

/-- The operation loop of a session. -/
theorem operate_logged (consent : Consent) :
    Outline (anyHistory δ) () (Logged (SessionRecords peer localId)) (operate peer localId consent)
      fun _ => Logged (SessionRecords peer localId) :=
  Outline.only (X := fun o => o.isReceive = true ∨ ∃ message : ClientMessage δ, message.Invokes o)
    (fun o ho => by
      rcases ho with hreceive | ⟨message, hmessage⟩
      · apply correct_silent
        cases o <;> first | rfl | cases hreceive
      · exact correct_invokes hmessage)
    Regime.alone_stable
    (operate_only (.inl rfl) (fun message _ _ h => .inr ⟨message, h⟩) peer localId consent)

/-- An append that serves the session on, or makes it fail with nothing to show. -/
theorem audit_seq {α : Type} {action : AuditAction} {outcome : AuditOutcome} {bytes : ℕ}
    {f : Unit → EndpointProg δ α} {Q : Except EndpointError α → List (Event (EndpointOp δ)) → Prop}
    (hP : ∀ rs, P rs → K (rs ++ [⟨peer.deviceId, localId, action, outcome, bytes⟩]))
    (hQ : ∀ e history, ¬AuditsSucceed history → Q (.error e) history)
    (hf : Outline (anyHistory δ) () (Logged K) (f ()) Q) :
    Outline (anyHistory δ) () (Logged P)
      (Endpoint.audit peer localId action outcome bytes >>= f : EndpointProg δ α) Q := by
  refine Outline.seq (R := fun result history => (∀ e, result = .error e → ¬AuditsSucceed history) ∧
      (result = .ok () → Logged K history))
    (.attempt Regime.alone_stable (correct_audit _ hP) fun answer =>
      .ret Regime.alone_stable fun _ _ h => ?_)
    (fun e => .ret Regime.alone_stable fun history _ h => hQ e history (h.1 e rfl))
    fun _ => hf.pre Regime.alone_stable fun _ _ h => h.2 rfl
  cases answer with
  | error e => exact ⟨fun _ _ => h.2 rfl, fun hok => by cases hok⟩
  | ok u => exact ⟨fun _ he => (by cases he), fun _ => h.1⟩

/-- Nothing has to be shown where an append failed. -/
theorem loggedEnd_of_failed {result : Except EndpointError Unit}
    (h : ¬AuditsSucceed history) : LoggedEnd peer localId result history :=
  fun haudits => absurd haudits h

/-- A session that was rejected. -/
theorem serveRejected_logged (mode : SessionMode) :
    Outline (anyHistory δ) () (Logged (· = [requestedEvent peer localId]))
      (serveRejected peer localId mode) (LoggedEnd peer localId) := by
  simp only [serveRejected, Consent.reject_pending, Except.mapError, Fallible.ofExcept_ok_bind]
  refine audit_seq (K := (· = [requestedEvent peer localId, rejectedEvent peer localId]))
    (by rintro _ rfl; rfl) (fun _ _ => loggedEnd_of_failed) ?_
  refine .attempt Regime.alone_stable (correct_silent rfl) fun answer =>
    .ret Regime.alone_stable fun history _ h haudits => ?_
  exact ⟨fun _ => h.2.1, fun _ => .inr (.inl (h.2.2 haudits))⟩

/-- A session that was accepted. -/
theorem serveAccepted_logged (mode : SessionMode) :
    Outline (anyHistory δ) () (Logged (· = [requestedEvent peer localId]))
      (serveAccepted peer localId mode) (LoggedEnd peer localId) := by
  simp only [serveAccepted, Consent.accept_pending, Except.mapError, Fallible.ofExcept_ok_bind]
  refine audit_seq (K := (· = [requestedEvent peer localId, acceptedEvent peer localId]))
    (by rintro _ rfl; rfl) (fun _ _ => loggedEnd_of_failed) ?_
  -- the acceptance may fail to be sent
  have hsend : Outline (anyHistory δ) ()
      (Logged (· = [requestedEvent peer localId, acceptedEvent peer localId]))
      (Endpoint.send (.accepted mode.permissions)) fun result history =>
        (∀ e, result = .error e → LoggedEnd peer localId (.error e) history) ∧
          (result = .ok () → Logged (SessionRecords peer localId) history) := by
    refine .attempt Regime.alone_stable (correct_sendAccepted _) fun answer =>
      .ret Regime.alone_stable fun history _ h => ?_
    cases answer with
    | ok u =>
      refine ⟨fun _ he => (by cases he), fun _ => ?_⟩
      obtain ⟨hrequest, hsent, hrecords⟩ := h.1 rfl
      exact ⟨hrequest, hsent, fun haudits => ⟨[], by simp, hrecords haudits⟩⟩
    | error e =>
      refine ⟨fun e' _ haudits => ?_, fun hok => by cases hok⟩
      obtain ⟨hnot, hrequest, hrecords⟩ := h.2 rfl
      refine ⟨fun hclosed => absurd hclosed ?_, fun hsent => absurd hsent hnot⟩
      rintro (⟨hnone, -⟩ | hrejected | ⟨files, -, haccepted⟩)
      · exact hnone hrequest
      · rw [hrecords haudits] at hrejected
        simp [acceptedEvent, rejectedEvent, sessionEvent] at hrejected
      · rw [hrecords haudits] at haccepted
        simp at haccepted
  refine hsend.seq (fun e => .ret Regime.alone_stable fun _ _ h => h.1 e rfl) fun _ => ?_
  have hsession : Outline (anyHistory δ) () (Logged (SessionRecords peer localId))
      (if mode.isDesktop then Prog.perform (.desktop ⟨mode.permissions, mode.permissions, .active⟩)
        else operate peer localId ⟨mode.permissions, mode.permissions, .active⟩)
      fun _ => Logged (SessionRecords peer localId) := by
    by_cases hdesktop : mode.isDesktop = true
    · rw [if_pos hdesktop]
      exact .perform Regime.alone_stable (correct_silent rfl) fun _ => Regime.alone_stable
    · rw [if_neg hdesktop]
      exact operate_logged _
  refine (Outline.lift_seq hsession fun result => ?_).pre Regime.alone_stable fun _ _ h => h.2 rfl
  refine Outline.perform_seq Regime.alone_stable (correct_silent rfl) fun _ => ?_
  refine audit_seq (K := fun rs => Bracketed peer localId rs result) ?_
    (fun _ _ => loggedEnd_of_failed) ?_
  · rintro _ ⟨files, hfiles, rfl⟩
    exact .inr ⟨files, hfiles, rfl⟩
  · refine .ret Regime.alone_stable fun history _ h haudits => ?_
    exact ⟨fun _ => h.2.1, fun _ => .inr (h.2.2 haudits)⟩

/-- The first message of a connection: a request, or nothing that is recorded. -/
theorem receive_logged (peer : ExpectedPeer PublicKey) (localId : DeviceId) :
    Outline (anyHistory δ) () (· = []) (Endpoint.receive : EndpointProg δ _) fun result history =>
      (∀ mode, result = .ok (.request mode) → Logged (· = []) history) ∧
        ((∀ mode, result ≠ .ok (.request mode)) →
          ∀ result, LoggedEnd peer localId result history) := by
  refine .attempt (R := fun answer history => history = [⟨EndpointOp.receive, answer⟩])
    Regime.alone_stable ?_ fun answer => .ret Regime.alone_stable ?_
  · rintro _ answer _ - rfl rfl
    exact ⟨trivial, trivial, rfl⟩
  · rintro _ - rfl
    have hsent : AcceptedSent [(⟨EndpointOp.receive, answer⟩ : Event (EndpointOp δ))] := by
      simp [AcceptedSent, failedAcceptance]
    refine ⟨fun mode hmode => ⟨⟨mode, ?_⟩, hsent, fun _ => rfl⟩, fun hother result _ => ?_⟩
    · cases answer with
      | error e => cases hmode
      | ok message =>
        obtain rfl := Except.ok.inj hmode
        exact List.mem_singleton_self _
    · refine ⟨fun _ => hsent, fun _ => .inl ⟨?_, rfl⟩⟩
      rintro ⟨mode, hmem⟩
      apply hother mode
      simp only [List.mem_singleton, received, Event.mk.injEq, heq_eq_eq, true_and] at hmem
      rw [← hmem]
      rfl

/-- The serving end leaves the log closed exactly if the acceptance was sent. -/
theorem serve_logged (peer : ExpectedPeer PublicKey) (localId : DeviceId) :
    Outline (anyHistory δ) () (· = []) (serve peer localId) (LoggedEnd peer localId) := by
  refine (receive_logged peer localId).seq
    (fun e => .ret Regime.alone_stable fun _ _ h =>
      h.2 (fun _ he => by cases he) _) fun message => ?_
  cases message with
  | request mode =>
    refine (audit_seq (P := (· = [])) (K := (· = [requestedEvent peer localId]))
      (by rintro _ rfl; rfl) (fun _ _ => loggedEnd_of_failed) ?_).pre Regime.alone_stable
      fun _ _ h => h.1 mode rfl
    refine Outline.perform_seq Regime.alone_stable (correct_silent rfl) fun accepted => ?_
    cases accepted with
    | true => exact serveAccepted_logged mode
    | false => exact serveRejected_logged mode
  | _ => exact .ret Regime.alone_stable fun _ _ h => h.2 (fun _ he => by cases he) _

/-- **The audit bracket.** When all appends succeed and `serve` has returned, its records are
those of a session closed in the log, exactly if the acceptance of the session, where there was
one, could be sent to the peer. -/
theorem closed_iff_accepted_sent (peer : ExpectedPeer PublicKey) (localId : DeviceId)
    (history : List (Event (EndpointOp δ))) (result : Except EndpointError Unit)
    (hrun : Prog.Runs (serve peer localId) history result) (haudits : AuditsSucceed history) :
    ClosedInAudit peer localId history result ↔ AcceptedSent history :=
  hrun.sound (serve_logged peer localId) trivial
    (rfl : ([] : List (Event (EndpointOp δ))) = []) haudits

/-! ### A lost acceptance -/

namespace LostAcceptance

def viewer : ExpectedPeer PublicKey :=
  ⟨⟨MIN_DEVICE_ID, DeviceId.first_inRange⟩, Vector.replicate 32 0⟩

def host : DeviceId := ⟨MIN_DEVICE_ID + 1, DeviceId.second_inRange⟩

/-- The user accepts a chat, and the connection fails as the viewer is to be told. -/
def unsent : List (Event (EndpointOp Unit)) :=
  [received (.request .chat), ⟨EndpointOp.audit (requestedEvent viewer host), .ok ()⟩,
    answered viewer .chat true, ⟨EndpointOp.audit (acceptedEvent viewer host), .ok ()⟩,
    ⟨EndpointOp.send (.accepted SessionMode.chat.permissions), .error .io⟩]

/-- `serve` returns with the session accepted in the log and never disconnected. -/
theorem runs : Prog.Runs (serve viewer host) unsent (.error (.connection .io)) := by
  refine .step (.op _ _ _) ?_
  refine .step (.op _ _ _) ?_
  refine .step (.op _ _ _) ?_
  change Prog.Runs (serveAccepted viewer host .chat) _ _
  simp only [serveAccepted, Consent.accept_pending, Except.mapError, Fallible.ofExcept_ok_bind]
  refine .step (.op _ _ _) ?_
  exact .step (.op _ _ _) (.ret _)

/-- The acceptance stays open in the log. -/
theorem acceptance_left_open :
    ¬∀ (history : List (Event (EndpointOp Unit))) (result : Except EndpointError Unit),
      Prog.Runs (serve viewer host) history result → AuditsSucceed history →
        ClosedInAudit viewer host history result := by
  intro h
  have hrecords : records unsent = [requestedEvent viewer host, acceptedEvent viewer host] := rfl
  rcases h unsent _ runs (by simp [AuditsSucceed, unsent, failedAudit, received, answered]) with
    ⟨hnone, -⟩ | hrejected | ⟨files, -, haccepted⟩
  · exact hnone ⟨.chat, List.mem_cons_self⟩
  · rw [hrecords] at hrejected
    simp [acceptedEvent, rejectedEvent, sessionEvent] at hrejected
  · rw [hrecords] at haccepted
    simp at haccepted

/-- The viewer is told, they chat, and the viewer closes. -/
def chatted : List (Event (EndpointOp Unit)) :=
  [received (.request .chat), ⟨EndpointOp.audit (requestedEvent viewer host), .ok ()⟩,
    answered viewer .chat true, ⟨EndpointOp.audit (acceptedEvent viewer host), .ok ()⟩,
    ⟨EndpointOp.send (.accepted SessionMode.chat.permissions), .ok ()⟩, ⟨EndpointOp.now, 0⟩,
    received (.chat "hello"), ⟨EndpointOp.now, 1⟩, ⟨EndpointOp.chatReply "hello", some "yes?"⟩,
    ⟨EndpointOp.send (.chat "yes?"), .ok ()⟩, received .close, ⟨EndpointOp.now, 2⟩,
    ⟨EndpointOp.close, ()⟩,
    ⟨EndpointOp.audit (sessionEvent viewer host .sessionDisconnected .success), .ok ()⟩]

theorem chatted_runs : Prog.Runs (serve viewer host) chatted (.ok ()) := by
  refine .step (.op _ _ _) ?_
  refine .step (.op _ _ _) ?_
  refine .step (.op _ _ _) ?_
  change Prog.Runs (serveAccepted viewer host .chat) _ _
  simp only [serveAccepted, Consent.accept_pending, Except.mapError, Fallible.ofExcept_ok_bind]
  refine .step (.op _ _ _) ?_
  refine .step (.op _ _ _) ?_
  refine .step (.op _ _ _) ?_
  -- the loop, which the second message leaves
  refine .step (.loop (.op _ _ _)) ?_
  refine .step (.op _ _ _) ?_
  refine .step (.op _ _ _) ?_
  refine .step (.op _ _ _) ?_
  refine .step (.loop (.op _ _ _)) ?_
  refine .step (.op _ _ _) ?_
  refine .step (.op _ _ _) ?_
  exact .step (.op _ _ _) (.ret _)

/-- That session is closed in the log, and the one before is not. -/
theorem chatted_closed : ClosedInAudit viewer host chatted (.ok ()) ∧
    ¬ClosedInAudit viewer host unsent (.error (.connection .io)) := by
  refine ⟨?_, fun h => ?_⟩
  · refine (closed_iff_accepted_sent viewer host chatted (.ok ()) chatted_runs ?_).mpr ?_
    · simp [AuditsSucceed, chatted, failedAudit, received, answered]
    · simp [AcceptedSent, chatted, failedAcceptance, received, answered]
  · have hsent := (closed_iff_accepted_sent viewer host unsent _ runs
      (by simp [AuditsSucceed, unsent, failedAudit, received, answered])).mp h
    simp [AcceptedSent, unsent, failedAcceptance, received, answered] at hsent

end LostAcceptance

end SensorRemote
