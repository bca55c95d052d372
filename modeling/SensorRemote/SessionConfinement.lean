import SensorRemote.Client
import SensorRemote.HostReader
import SensorRemote.Lib.History

/-!
# What a session may do

An incoming session touches the endpoint only through effects of the mode that was asked for
and accepted: chat, file transfer, a desktop session, and in a desktop session the injection
of input and the clipboard. The serving code is followed through all its histories, the
host's reader thread through all sequences of messages.
-/

namespace SensorRemote

open Program

variable {δ : Type}

/-- The consent of an accepted session. -/
def SessionMode.consent (mode : SessionMode) : Consent :=
  ⟨mode.permissions, mode.permissions, .active⟩

/-! ## Effects -/

namespace EndpointOp

/-- Whether the operation is an effect on the endpoint. -/
def isEffect : {β : Type} → EndpointOp δ β → Bool
  | _, .chatReply _ | _, .desktop _ | _, .begin _ _ _ | _, .resume _ _ _ => true
  | _, .writeChunk _ _ _ _ _ | _, .pause _ | _, .cancel _ _ | _, .finish _ _ => true
  | _, _ => false

/-- Whether a mode covers the effect. -/
def coveredBy (mode : SessionMode) : {β : Type} → EndpointOp δ β → Bool
  | _, .chatReply _ => mode.permissions.allows .chat
  | _, .desktop consent => mode.isDesktop ∧ consent = mode.consent
  | _, .begin _ _ _ | _, .resume _ _ _ => mode.permissions.allows .fileManager
  | _, .writeChunk _ _ _ _ _ | _, .pause _ => mode.permissions.allows .fileManager
  | _, .cancel _ _ | _, .finish _ _ => mode.permissions.allows .fileManager
  | _, _ => true

/-- Whether the operation waits for a message. -/
def isReceive : {β : Type} → EndpointOp δ β → Bool
  | _, .receive => true
  | _, _ => false

/-- Whether the operation only winds a failed session up: the clock is read, the open transfer
dropped, the connection closed, and the failure recorded. -/
def isWindUp : {β : Type} → EndpointOp δ β → Bool
  | _, .now | _, .drop _ | _, .close => true
  | _, .audit event => event.action = .sessionDisconnected ∧ event.outcome = .failed
  | _, _ => false

theorem not_effect_of_windUp : {β : Type} → (o : EndpointOp δ β) → o.isWindUp = true →
    o.isEffect = false
  | _, .now, _ | _, .drop _, _ | _, .close, _ | _, .audit _, _ => rfl

end EndpointOp

/-- Whether a message belongs to sessions of a mode. -/
def SessionMode.admits (mode : SessionMode) : ClientMessage δ → Bool
  | .close => true
  | .chat _ => mode.permissions.allows .chat
  | .fileOffer _ | .resume _ | .chunk _ _ _ => mode.permissions.allows .fileManager
  | .commit | .pause | .cancel => mode.permissions.allows .fileManager
  | .desktop (.input _ _) => mode.permissions.allows .input
  | .desktop (.clipboardText _) => mode.permissions.allows .clipboardText
  | .desktop (.selectDisplay _) | .desktop (.selectVideoProfile _) => mode.isDesktop
  | .desktop (.ping _) | .desktop (.frameAck _ _ _ _) | .desktop .close => mode.isDesktop
  | _ => false

/-! ## Histories of the serving end -/

/-- A message was received. -/
def received (message : ClientMessage δ) : Event (EndpointOp δ) :=
  ⟨EndpointOp.receive, .ok message⟩

/-- The local user answered the request for a session. -/
def answered (peer : ExpectedPeer PublicKey) (mode : SessionMode) (answer : Bool) :
    Event (EndpointOp δ) :=
  ⟨EndpointOp.accept peer mode, answer⟩

/-- The history of an accepted session: it was asked for first, and then accepted. -/
def AcceptedAs (peer : ExpectedPeer PublicKey) (mode : SessionMode)
    (history : List (Event (EndpointOp δ))) : Prop :=
  ∃ rest, history = received (.request mode) :: rest ∧ answered peer mode true ∈ rest

/-- A message that does not belong where it comes: the first one that asks for no session, or
one outside the mode of an accepted session. -/
def Outside (peer : ExpectedPeer PublicKey) (before : List (Event (EndpointOp δ)))
    (message : ClientMessage δ) : Prop :=
  (before = [] ∧ ∀ mode, message ≠ .request mode) ∨
    ∃ mode, AcceptedAs peer mode before ∧ mode.admits message = false

/-- Every effect is one of an accepted mode that covers it. -/
def EffectsCovered (peer : ExpectedPeer PublicKey) (history : List (Event (EndpointOp δ))) : Prop :=
  ∀ before event after, history = before ++ event :: after → event.op.isEffect = true →
    ∃ mode, AcceptedAs peer mode before ∧ event.op.coveredBy mode = true

/-- After a message outside the session it is only wound up. -/
def EndsOutside (peer : ExpectedPeer PublicKey) (history : List (Event (EndpointOp δ))) : Prop :=
  ∀ before message after, history = before ++ received message :: after →
    Outside peer before message → ∀ event ∈ after, event.op.isWindUp = true

/-- Both. -/
def Confined (peer : ExpectedPeer PublicKey) (history : List (Event (EndpointOp δ))) : Prop :=
  EffectsCovered peer history ∧ EndsOutside peer history

/-- No message outside the session was received. -/
def Inside (peer : ExpectedPeer PublicKey) (history : List (Event (EndpointOp δ))) : Prop :=
  ∀ before message after, history = before ++ received message :: after →
    ¬Outside peer before message

variable {peer : ExpectedPeer PublicKey} {mode : SessionMode}
  {history : List (Event (EndpointOp δ))}

theorem AcceptedAs.append (h : AcceptedAs peer mode history) (more : List (Event (EndpointOp δ))) :
    AcceptedAs peer mode (history ++ more) := by
  obtain ⟨rest, rfl, hmem⟩ := h
  exact ⟨rest ++ more, rfl, List.mem_append_left _ hmem⟩

/-- One mode is asked for. -/
theorem AcceptedAs.unique {mode' : SessionMode} (h : AcceptedAs peer mode history)
    (h' : AcceptedAs peer mode' history) : mode = mode' := by
  obtain ⟨rest, rfl, -⟩ := h
  obtain ⟨rest', heq, -⟩ := h'
  simp only [List.cons.injEq, received, Event.mk.injEq, heq_eq_eq, true_and] at heq
  simpa using heq.1

/-- One more event in a confined history. -/
theorem Confined.concat (h : Confined peer history) {event : Event (EndpointOp δ)}
    (heffect : event.op.isEffect = true →
      ∃ mode, AcceptedAs peer mode history ∧ event.op.coveredBy mode = true)
    (hends : Inside peer history ∨ event.op.isWindUp = true) :
      Confined peer (history ++ [event]) := by
  constructor
  · intro before e after heq he
    rcases split_concat heq with ⟨rfl, rfl, -⟩ | ⟨rest, hold, -⟩
    · exact heffect he
    · exact h.1 before e rest hold he
  · intro before message after heq houtside
    rcases split_concat heq with ⟨-, -, rfl⟩ | ⟨rest, hold, rfl⟩
    · simp
    · intro e he
      rcases List.mem_append.mp he with he | he
      · exact h.2 before message rest hold houtside e he
      · obtain rfl := List.mem_singleton.mp he
        exact hends.resolve_left fun hinside => hinside before message rest hold houtside

theorem Inside.concat (h : Inside peer history) {event : Event (EndpointOp δ)}
    (hevent : ∀ message, event = received message → ¬Outside peer history message) :
    Inside peer (history ++ [event]) := by
  intro before message after heq
  rcases split_concat heq with ⟨rfl, hmessage, -⟩ | ⟨rest, hold, -⟩
  · exact hevent message hmessage.symm
  · exact h before message rest hold

/-! ## The assertions of the serving end -/

/-- A session was asked for, and no message has arrived since. -/
def Asked (mode : SessionMode) (history : List (Event (EndpointOp δ))) : Prop :=
  ∃ rest, history = received (.request mode) :: rest ∧ ∀ event ∈ rest, event.op.isReceive = false

/-- The session is accepted, and all messages were inside it. -/
def Open (peer : ExpectedPeer PublicKey) (mode : SessionMode)
    (history : List (Event (EndpointOp δ))) : Prop :=
  AcceptedAs peer mode history ∧ Inside peer history

theorem Asked.inside (h : Asked mode history) : Inside peer history := by
  obtain ⟨rest, rfl, hrest⟩ := h
  intro before message after heq houtside
  cases before with
  | nil =>
    simp only [List.nil_append, List.cons.injEq, received, Event.mk.injEq, heq_eq_eq,
      true_and, Except.ok.injEq] at heq
    rcases houtside with ⟨-, hrequest⟩ | ⟨mode', ⟨rest', hnil, -⟩, -⟩
    · exact hrequest mode heq.1.symm
    · cases hnil
  | cons event before =>
    -- a second message is none of the events since
    simp only [List.cons_append, List.cons.injEq] at heq
    have hreceive := hrest (received message) (by simp [heq.2])
    cases hreceive

theorem Asked.concat (h : Asked mode history) {event : Event (EndpointOp δ)}
    (hevent : event.op.isReceive = false) : Asked mode (history ++ [event]) := by
  obtain ⟨rest, rfl, hrest⟩ := h
  refine ⟨rest ++ [event], rfl, fun e he => ?_⟩
  rcases List.mem_append.mp he with he | he
  · exact hrest e he
  · rwa [List.mem_singleton.mp he]

variable {β : Type} {o : EndpointOp δ β}

/-- The regime of confined histories. -/
abbrev confinement (δ : Type) (peer : ExpectedPeer PublicKey) : Regime (histories (EndpointOp δ)) :=
  .alone (Confined peer)

theorem ne_received_of_not_receive (ho : o.isReceive = false) (b : β) (message : ClientMessage δ) :
    (⟨o, b⟩ : Event (EndpointOp δ)) ≠ received message := by
  rintro heq
  have hreceive : (received message : Event (EndpointOp δ)).op.isReceive = false := heq ▸ ho
  cases hreceive

/-- In an accepted session every operation covered by its mode goes on with it. -/
theorem correct_open (hreceive : o.isReceive = false)
    (hcovered : o.isEffect = true → o.coveredBy mode = true) :
    (confinement δ peer).Correct () (Open peer mode) o fun _ => Open peer mode := by
  rintro history b _ hconfined ⟨haccepted, hinside⟩ rfl
  refine ⟨hconfined.concat (fun he => ⟨mode, haccepted, hcovered he⟩) (.inl hinside), trivial,
    haccepted.append _, hinside.concat fun message heq => ?_⟩
  exact absurd heq (ne_received_of_not_receive hreceive b message)

/-- Before the answer there are no effects. -/
theorem correct_asked (peer : ExpectedPeer PublicKey) (hreceive : o.isReceive = false)
    (heffect : o.isEffect = false) :
    (confinement δ peer).Correct () (Asked mode) o fun _ => Asked mode := by
  rintro history b _ hconfined hasked rfl
  refine ⟨hconfined.concat (fun he => ?_) (.inl hasked.inside), trivial, hasked.concat hreceive⟩
  rw [heffect] at he
  cases he

/-- A session can always be wound up. -/
theorem correct_windUp (ho : o.isWindUp = true) {P : List (Event (EndpointOp δ)) → Prop} :
    (confinement δ peer).Correct () P o fun _ _ => True := by
  rintro history b _ hconfined - rfl
  refine ⟨hconfined.concat (fun he => ?_) (.inr ho), trivial, trivial⟩
  rw [EndpointOp.not_effect_of_windUp o ho] at he
  cases he

/-- A message of an accepted session. -/
theorem correct_receive :
    (confinement δ peer).Correct () (Open peer mode) .receive fun answer history =>
      ∀ message, answer = .ok message → mode.admits message = true → Open peer mode history := by
  rintro history b _ hconfined ⟨haccepted, hinside⟩ rfl
  refine ⟨hconfined.concat (fun he => by cases he) (.inl hinside), trivial, ?_⟩
  rintro message rfl hadmits
  refine ⟨haccepted.append _, hinside.concat fun message' heq => ?_⟩
  simp only [received, Event.mk.injEq, heq_eq_eq, true_and, Except.ok.injEq] at heq
  subst heq
  rintro (⟨rfl, -⟩ | ⟨mode', haccepted', hadmits'⟩)
  · obtain ⟨rest, hnil, -⟩ := haccepted
    cases hnil
  · rw [← haccepted.unique haccepted', hadmits] at hadmits'
    cases hadmits'

/-! ## The serving end -/

/-- An operation of an accepted session. -/
def Covered (mode : SessionMode) {β : Type} (o : EndpointOp δ β) : Prop :=
  o.isReceive = false ∧ (o.isEffect = true → o.coveredBy mode = true)

/-- A permission of the mode is there, one that is not is refused. -/
theorem require_consent (mode : SessionMode) (permission : Permission) :
    (Endpoint.require mode.consent permission : EndpointProg δ Unit) =
      if mode.permissions.allows permission then Fallible.ofExcept (.ok ())
      else Fallible.ofExcept (.error (.permission .denied)) := by
  by_cases h : mode.permissions.allows permission = true <;>
    simp [Endpoint.require, Consent.require, SessionMode.consent, h, Except.mapError]

theorem only_send (mode : SessionMode) (message : ClientMessage δ) :
    (Endpoint.send message).Only (Covered mode) :=
  Fallible.Only.mapError (Fallible.only_attempt.mpr ⟨rfl, fun h => by cases h⟩) _

theorem only_audit (mode : SessionMode) (localId : DeviceId) (action : AuditAction)
    (outcome : AuditOutcome) (bytes : ℕ) :
    (Endpoint.audit peer localId action outcome bytes : EndpointProg δ Unit).Only (Covered mode) :=
  Fallible.Only.mapError (Fallible.only_attempt.mpr ⟨rfl, fun h => by cases h⟩) _

/-- What a message the mode admits makes `operate` do is covered by the mode. -/
theorem covered_of_invokes {message : ClientMessage δ} (hadmits : mode.admits message = true)
    {β : Type} (o : EndpointOp δ β) (ho : message.Invokes o) : Covered mode o := by
  cases o with
  | chatReply text =>
    obtain ⟨_, rfl⟩ := ho
    exact ⟨rfl, fun _ => hadmits⟩
  | begin consent owner manifest =>
    obtain ⟨_, rfl⟩ := ho
    exact ⟨rfl, fun _ => hadmits⟩
  | resume consent owner id =>
    obtain ⟨_, rfl⟩ := ho
    exact ⟨rfl, fun _ => hadmits⟩
  | writeChunk transfer consent offset bytes checksum =>
    obtain ⟨_, _, _, rfl⟩ := ho
    exact ⟨rfl, fun _ => hadmits⟩
  | pause transfer =>
    obtain rfl : message = .pause := ho
    exact ⟨rfl, fun _ => hadmits⟩
  | cancel transfer consent =>
    obtain rfl : message = .cancel := ho
    exact ⟨rfl, fun _ => hadmits⟩
  | finish transfer consent =>
    obtain rfl : message = .commit := ho
    exact ⟨rfl, fun _ => hadmits⟩
  | receive | close | accept peer mode | desktop consent => exact ho.elim
  | _ => exact ⟨rfl, fun he => by cases he⟩

/-- The arms for what the mode does not admit fail at once. -/
theorem onMessage_outside (peer : ExpectedPeer PublicKey) (localId : DeviceId)
    (incoming : Option (IncomingTransfer δ)) {message : ClientMessage δ}
    (h : mode.admits message = false) :
    ∃ left e, Operate.onMessage peer localId mode.consent incoming message =
      throw (left, .error e) := by
  cases message with
  | close => cases h
  | chat text =>
    have hchat : mode.permissions.allows .chat = false := h
    exact ⟨incoming, .permission .denied, by
      simp only [Operate.onMessage, Operate.onChat, require_consent, hchat]; rfl⟩
  | fileOffer manifest =>
    have hfiles : mode.permissions.allows .fileManager = false := h
    exact ⟨incoming, .permission .denied, by
      simp only [Operate.onMessage, Operate.onFileOffer, require_consent, hfiles]; rfl⟩
  | resume id =>
    have hfiles : mode.permissions.allows .fileManager = false := h
    exact ⟨incoming, .permission .denied, by
      simp only [Operate.onMessage, Operate.onResume, require_consent, hfiles]; rfl⟩
  | chunk offset bytes checksum =>
    have hfiles : mode.permissions.allows .fileManager = false := h
    exact ⟨incoming, .permission .denied, by
      simp only [Operate.onMessage, Operate.onChunk, Operate.withIncoming, require_consent, hfiles]
      rfl⟩
  | commit =>
    have hfiles : mode.permissions.allows .fileManager = false := h
    exact ⟨incoming, .permission .denied, by
      simp only [Operate.onMessage, Operate.onCommit, Operate.withIncoming, require_consent, hfiles]
      rfl⟩
  | pause =>
    have hfiles : mode.permissions.allows .fileManager = false := h
    exact ⟨incoming, .permission .denied, by
      simp only [Operate.onMessage, Operate.onPause, Operate.withIncoming, require_consent, hfiles]
      rfl⟩
  | cancel =>
    have hfiles : mode.permissions.allows .fileManager = false := h
    exact ⟨incoming, .permission .denied, by
      simp only [Operate.onMessage, Operate.onCancel, Operate.withIncoming, require_consent, hfiles]
      rfl⟩
  | _ => exact ⟨incoming, .invalid, rfl⟩

/-- A program left by a failure, or one that has stayed in the session. -/
def Stays (peer : ExpectedPeer PublicKey) (mode : SessionMode) {α : Type}
    (result : Except (OperateExit δ) α) (history : List (Event (EndpointOp δ))) : Prop :=
  (∃ left e, result = .error (left, .error e)) ∨ Open peer mode history

/-- Whatever has happened, an operation can be counted; there may be too many. -/
theorem countOperation_windUp (s : OperateState δ) :
    Outline (confinement δ peer) () (fun _ => True) (Operate.countOperation s) fun result _ =>
      ∀ exit, result = .error exit → exit = (s.incoming, .error .invalid) := by
  have hnow : Outline (confinement δ peer) () (fun _ => True)
      (Fallible.perform .now : OperateProg δ ℕ) fun result _ => result.isOk = true :=
    .op Regime.alone_stable (correct_windUp rfl) fun now =>
      .ret Regime.alone_stable fun _ _ _ => rfl
  have hrenew : Outline (confinement δ peer) () (fun _ => True) (Operate.renewWindow s)
      fun result _ => ∃ s', result = .ok s' ∧ s'.incoming = s.incoming := by
    refine hnow.seq (fun e => .ret Regime.alone_stable fun _ _ h => by cases h) fun now => ?_
    split
    · refine (hnow.pre Regime.alone_stable fun _ _ _ => trivial).seq
        (fun e => .ret Regime.alone_stable fun _ _ h => by cases h) fun now => ?_
      exact .ret Regime.alone_stable fun _ _ _ => ⟨_, rfl, rfl⟩
    · exact .ret Regime.alone_stable fun _ _ _ => ⟨_, rfl, rfl⟩
  refine hrenew.seq (fun e => .ret Regime.alone_stable fun _ _ h => by simp at h) fun s' => ?_
  refine Outline.seq (R := fun result _ => ∀ exit, result = .error exit →
    exit = (s.incoming, .error .invalid)) (.check (fun _ => ?_) fun _ => ?_) ?_ ?_
  · exact .ret Regime.alone_stable fun _ _ _ exit h => by cases h
  · refine .ret Regime.alone_stable fun _ _ h exit he => ?_
    simp_all
  · exact fun e => .ret Regime.alone_stable fun _ _ h exit he => h exit (by simpa using he)
  · exact fun _ => .ret Regime.alone_stable fun _ _ _ exit he => by cases he

/-- A pass of the loop stays in the session, or fails. -/
theorem pass_stays (localId : DeviceId) (s : OperateState δ) :
    Outline (confinement δ peer) () (Open peer mode) (Operate.pass peer localId mode.consent s)
      (Stays peer mode) := by
  have hreceive : Outline (confinement δ peer) () (Open peer mode)
    (orLeave s.incoming Endpoint.receive)
      fun result history => (∃ e, result = .error (s.incoming, .error e)) ∨
        ∃ message, result = .ok message ∧
        (mode.admits message = true → Open peer mode history) := by
    rw [orLeave, Endpoint.receive, Fallible.mapError_mapError]
    refine .attempt Regime.alone_stable correct_receive fun r =>
      .ret Regime.alone_stable fun history _ h => ?_
    cases r with
    | error e => exact .inl ⟨_, rfl⟩
    | ok message => exact .inr ⟨message, rfl, h message rfl⟩
  refine hreceive.seq (fun exit => .ret Regime.alone_stable fun _ _ h => ?_) fun message => ?_
  · obtain ⟨e, he⟩ | ⟨message, hm, -⟩ := h
    · exact .inl ⟨_, e, congrArg Except.error (Except.error.inj he)⟩
    · cases hm
  · by_cases hadmits : mode.admits message = true
    · -- the whole arm stays within the session
      have honly : Fallible.Only (Covered mode) (do
          let s ← Operate.countOperation s
          let incoming ← Operate.onMessage peer localId mode.consent s.incoming message
          return { s with incoming } : OperateProg δ (OperateState δ)) :=
        ((Operate.countOperation_invokes message s).seq fun s =>
          (Operate.onMessage_invokes message peer localId mode.consent s.incoming).seq fun _ =>
            Fallible.only_pure _).mono (covered_of_invokes hadmits)
      have hout := Outline.only (D := confinement δ peer) (P := Open peer mode)
        (fun o ho => correct_open ho.1 ho.2) Regime.alone_stable honly
      refine (hout.post fun _ _ _ h => .inr h).pre Regime.alone_stable fun _ _ h => ?_
      obtain ⟨e, he⟩ | ⟨message', hm, hopen⟩ := h
      · cases he
      · obtain rfl := Except.ok.inj hm
        exact hopen hadmits
    · refine ((countOperation_windUp s).pre Regime.alone_stable fun _ _ _ => trivial).seq
        (fun exit => .ret Regime.alone_stable fun _ _ h => ?_) fun s => ?_
      · rw [h exit rfl]
        exact .inl ⟨_, _, rfl⟩
      · obtain ⟨left, e, hthrow⟩ := onMessage_outside peer localId s.incoming
          (show mode.admits _ = false by simpa using hadmits)
        rw [hthrow]
        exact .ret Regime.alone_stable fun _ _ _ => .inl ⟨left, e, rfl⟩

/-- What is known when `operate` returns. -/
def Returns (peer : ExpectedPeer PublicKey) (mode : SessionMode)
    (result : Except EndpointError Unit) (history : List (Event (EndpointOp δ))) : Prop :=
  (∃ e, result = .error e) ∨ Open peer mode history

/-- The open transfer is dropped and the connection closed, whatever has happened. -/
theorem correct_returns {result : Except EndpointError Unit} (ho : o.isWindUp = true) :
    (confinement δ peer).Correct () (Returns peer mode result) o fun _ =>
      Returns peer mode result := by
  have hnotReceive : o.isReceive = false := by cases o <;> first | rfl | cases ho
  have hnotEffect : o.isEffect = true → o.coveredBy mode = true := fun he => by
    rw [EndpointOp.not_effect_of_windUp o ho] at he
    cases he
  intro history b history' hconfined hreturns hstep
  cases hreturns with
  | inl herror =>
    have hwound := correct_windUp (P := fun _ => True) ho history b history' hconfined trivial hstep
    exact ⟨hwound.1, trivial, .inl herror⟩
  | inr hopen =>
    have hstays := correct_open hnotReceive hnotEffect history b history' hconfined hopen hstep
    exact ⟨hstays.1, trivial, .inr hstays.2.2⟩

/-- The operation loop stays in the session, or fails. -/
theorem operate_returns (localId : DeviceId) :
    Outline (confinement δ peer) () (Open peer mode) (operate peer localId mode.consent)
      (Returns peer mode) := by
  have hloop : ∀ s : OperateState δ, Outline (confinement δ peer) () (Open peer mode)
      (Fallible.forever s fun s => do
        let s ← Operate.pass peer localId mode.consent s
        return .inl s : OperateProg δ Empty) (Stays peer mode) := by
    intro s
    refine Outline.repeats (L := fun _ => Open peer mode) (fun s => ?_) fun _ => Regime.alone_stable
    refine (pass_stays localId s).seq (fun e => .ret Regime.alone_stable fun _ _ h => ?_) fun s' =>
      .ret Regime.alone_stable fun _ _ h => ?_
    · obtain ⟨left, e', he⟩ | hopen := h
      · exact .inl ⟨left, e', congrArg Except.error (Except.error.inj he)⟩
      · exact .inr hopen
    · obtain ⟨_, _, he⟩ | hopen := h
      · cases he
      · exact hopen
  refine Outline.perform_seq (R := fun _ => Open peer mode) Regime.alone_stable
    (correct_open rfl fun he => by cases he) fun window => ?_
  refine Outline.lift_seq (hloop _) fun exit => ?_
  rcases exit with ⟨incoming, result⟩ | e
  · have hreturns : ∀ history : List (Event (EndpointOp δ)),
        Stays peer mode (.error (incoming, result) : Except (OperateExit δ) Empty) history →
          Returns peer mode result history := by
      rintro history (⟨left, e, he⟩ | hopen)
      · exact .inl ⟨e, (Prod.mk.inj (Except.error.inj he)).2⟩
      · exact .inr hopen
    cases incoming with
    | none => exact .ret Regime.alone_stable fun history _ h => hreturns history h
    | some transfer =>
      refine Outline.perform_seq Regime.alone_stable (fun history b history' hconfined h =>
        correct_returns rfl history b history' hconfined (hreturns history h)) fun _ => ?_
      exact .ret Regime.alone_stable fun _ _ h => h
  · exact e.elim

/-- The local user is asked before anything else is done. -/
theorem correct_accept (peer : ExpectedPeer PublicKey) (mode : SessionMode) :
    (confinement δ peer).Correct () (Asked mode) (.accept peer mode) fun accepted history =>
      Asked mode history ∧ (accepted = true → Open peer mode history) := by
  rintro history accepted history' hconfined hasked rfl
  have hone := correct_asked peer (o := EndpointOp.accept peer mode) rfl rfl history
    accepted _ hconfined hasked rfl
  refine ⟨hone.1, trivial, hone.2.2, ?_⟩
  rintro rfl
  obtain ⟨rest, rfl, -⟩ := hasked
  exact ⟨⟨rest ++ [answered peer mode true], rfl, by simp⟩, hone.2.2.inside⟩

/-- The first message of a connection. -/
theorem correct_request :
    (confinement δ peer).Correct () (· = []) .receive fun answer history =>
      ∀ mode, answer = .ok (.request mode) → Asked mode history := by
  rintro _ answer _ hconfined rfl rfl
  refine ⟨hconfined.concat (fun he => by cases he) (.inl fun before _ _ h => by simp at h), trivial,
    ?_⟩
  rintro mode rfl
  exact ⟨[], rfl, by simp⟩

/-- The end of an accepted session is recorded. -/
theorem correct_recordEnd {result : Except EndpointError Unit} (event : AuditEvent)
    (haction : event.action = .sessionDisconnected)
    (houtcome : event.outcome = if result.isOk then .success else .failed) :
    (confinement δ peer).Correct () (Returns peer mode result) (.audit event) fun _ _ => True := by
  rintro history b history' hconfined (⟨e, rfl⟩ | hopen) hstep
  · have hwindUp : (EndpointOp.audit event : EndpointOp δ _).isWindUp = true := by
      simp [EndpointOp.isWindUp, haction, houtcome, Except.isOk, Except.toBool]
    exact correct_windUp (P := fun _ => True) hwindUp history b history' hconfined trivial hstep
  · have hstays := correct_open (o := EndpointOp.audit event) rfl (fun he => by cases he) history b
      history' hconfined hopen hstep
    exact ⟨hstays.1, trivial, trivial⟩

/-- An assertion that the operations of a program keep does not need its errors handled. -/
theorem keeps_seq {α : Type} {P : List (Event (EndpointOp δ)) → Prop} {x : EndpointProg δ α}
    {f : α → EndpointProg δ Unit} (h : Outline (confinement δ peer) () P x fun _ => P)
    (hf : ∀ a, Outline (confinement δ peer) () P (f a) fun _ _ => True) :
    Outline (confinement δ peer) () P (x >>= f : EndpointProg δ Unit) fun _ _ => True :=
  h.seq (fun _ => .ret Regime.alone_stable fun _ _ _ => trivial) hf

/-- The serving end after the user's consent. -/
theorem serveAccepted_confined (localId : DeviceId) :
    Outline (confinement δ peer) () (Open peer mode) (serveAccepted peer localId mode)
      fun _ _ => True := by
  have hkeeps : ∀ {α : Type} {x : EndpointProg δ α}, x.Only (Covered mode) →
      Outline (confinement δ peer) () (Open peer mode) x fun _ => Open peer mode :=
    Outline.only (fun o ho => correct_open ho.1 ho.2) Regime.alone_stable
  have hsession : Outline (confinement δ peer) () (Open peer mode)
      (if mode.isDesktop then Prog.perform (.desktop mode.consent)
        else operate peer localId mode.consent) (Returns peer mode) := by
    by_cases hdesktop : mode.isDesktop = true
    · rw [if_pos hdesktop]
      refine .op Regime.alone_stable (correct_open rfl fun _ => ?_) fun _ =>
        .ret Regime.alone_stable fun _ _ h => .inr h
      simp [EndpointOp.coveredBy, hdesktop]
    · rw [if_neg hdesktop]
      exact operate_returns localId
  simp only [serveAccepted, Consent.accept_pending, Except.mapError, Fallible.ofExcept_ok_bind]
  refine keeps_seq (hkeeps (only_audit mode localId _ _ _)) fun _ => ?_
  refine keeps_seq (hkeeps (only_send mode _)) fun _ => ?_
  refine Outline.lift_seq hsession fun result => ?_
  -- close, record the end, and return
  refine Outline.perform_seq Regime.alone_stable (correct_returns rfl) fun _ => ?_
  refine Outline.seq (R := fun _ _ => True) (.attempt (R := fun _ _ => True) Regime.alone_stable
    (correct_recordEnd _ rfl rfl) fun _ => .ret Regime.alone_stable fun _ _ h => h)
    (fun _ => .ret Regime.alone_stable fun _ _ _ => trivial) fun _ => ?_
  exact .ret Regime.alone_stable fun _ _ _ => trivial

/-- The serving end keeps its histories confined. -/
theorem serve_confined (peer : ExpectedPeer PublicKey) (localId : DeviceId) :
    Outline (confinement δ peer) () (· = []) (serve peer localId) fun _ _ => True := by
  have hasked : ∀ {mode : SessionMode} (action : AuditAction) (outcome : AuditOutcome) (bytes : ℕ),
      Outline (confinement δ peer) () (Asked mode)
        (Endpoint.audit peer localId action outcome bytes) fun _ => Asked mode :=
    fun _ _ _ => .attempt Regime.alone_stable (correct_asked _ rfl rfl) fun _ =>
      .ret Regime.alone_stable fun _ _ h => h
  have hreceive : Outline (confinement δ peer) () (· = []) Endpoint.receive fun result history =>
      ∀ mode, result = .ok (.request mode) → Asked mode history := by
    refine .attempt Regime.alone_stable correct_request fun r =>
      .ret Regime.alone_stable fun _ _ h => ?_
    cases r <;> simp_all [Except.mapError]
  refine hreceive.seq (fun e => .ret Regime.alone_stable fun _ _ _ => trivial) fun message => ?_
  cases message with
  | request mode =>
    refine (keeps_seq (P := Asked mode) (hasked _ _ _) fun _ => ?_).pre Regime.alone_stable
      fun _ _ h => h mode rfl
    refine Outline.perform_seq Regime.alone_stable (correct_accept peer mode) fun accepted => ?_
    cases accepted with
    | true => exact (serveAccepted_confined localId).pre Regime.alone_stable fun _ _ h => h.2 rfl
    | false =>
      refine (keeps_seq (P := Asked mode) (x := Fallible.ofExcept _)
        (.ret Regime.alone_stable fun _ _ h => h) fun _ => keeps_seq (hasked _ _ _) fun _ => ?_).pre
        Regime.alone_stable fun _ _ h => h.1
      exact .attempt Regime.alone_stable (correct_asked _ rfl rfl) fun _ =>
        .ret Regime.alone_stable fun _ _ _ => trivial
  | _ => exact .ret Regime.alone_stable fun _ _ _ => trivial

/-! ## The host's reader -/

/-- What the reader finds in a pass of its loop: a message, the shared target, what the
operating system answers, and whether the host loop takes a command. -/
structure ReaderTurn (δ : Type) where
  message : ClientMessage δ
  active : InputTarget
  os : Desktop
  taken : Bool

/-- What the reader does: what it injects, and the command it hands to the host loop. -/
structure Reaction where
  injected : List Injected
  command : Option HostCommand

/-- What the granted permissions cover of a reaction. -/
def Reaction.CoveredBy (mode : SessionMode) (reaction : Reaction) : Prop :=
  (reaction.injected ≠ [] → mode.permissions.allows .input = true) ∧
    ∀ text, reaction.command = some (.clipboard text) →
      mode.permissions.allows .clipboardText = true

namespace HostReader

/-- The release after the loop. -/
def leave (reader : HostReader) (os : Desktop) : Reaction :=
  ⟨injectedBy (reader.injector.release os).2, none⟩

/-- A pass of the loop. -/
def onTurn (reader : HostReader) (displays : List Display) (turn : ReaderTurn δ) : Handled :=
  reader.handle turn.active displays turn.message turn.os

/-- Whether the loop ends with this pass, also because its command is not taken. -/
def endsAt (reader : HostReader) (displays : List Display) (turn : ReaderTurn δ) : Bool :=
  (reader.onTurn displays turn).ends ||
    ((reader.onTurn displays turn).command.isSome && !turn.taken)

/-- The loop over the messages that arrive before the connection fails or somebody stops the
session. -/
def run (displays : List Display) (last : Desktop) : HostReader → List (ReaderTurn δ) →
    List Reaction
  | reader, [] => [reader.leave last]
  | reader, turn :: turns =>
    let handled := reader.onTurn displays turn
    ⟨handled.injected, handled.command⟩ ::
      if reader.endsAt displays turn then [handled.reader.leave last]
      else handled.reader.run displays last turns

/-- The readers that come about in a session of some mode. -/
inductive Reached (δ : Type) (displays : List Display) (mode : SessionMode) : HostReader →
    Prop where
  | start {reader : HostReader} : start mode.permissions = some reader →
      Reached δ displays mode reader
  | turn {reader : HostReader} (turn : ReaderTurn δ) : Reached δ displays mode reader →
      Reached δ displays mode (reader.onTurn displays turn).reader

/-- A reader works under the consent of its session, and without `Input` holds nothing. -/
structure Bound (mode : SessionMode) (reader : HostReader) : Prop where
  consent : reader.localConsent = mode.consent
  injector : mode.permissions.allows .input = false → reader.injector = ⟨[], []⟩

theorem start_bound {mode : SessionMode} {reader : HostReader}
    (h : start mode.permissions = some reader) : reader.Bound mode := by
  rw [start, Consent.accept_pending] at h
  obtain rfl := Option.some.inj h
  exact ⟨rfl, fun _ => rfl⟩

/-- An injector that holds nothing has nothing to release. -/
theorem release_empty (os : Desktop) : (⟨[], []⟩ : Injector).release os = (⟨[], []⟩, .ok []) := rfl

/-- Without `Input` an event is refused. -/
theorem apply_denied {mode : SessionMode} (h : mode.permissions.allows .input = false)
    (injector : Injector) (event : Input) (display : Display) (os : Desktop) :
    injector.apply event display mode.consent os = (injector, .error (.permission .denied)) := by
  have hrequire : mode.consent.require .input = .error .denied := by
    simp [Consent.require, SessionMode.consent, h]
  simp only [Injector.apply, hrequire]

/-- What a pass of a reader under the consent of its session comes to. -/
structure Kept (mode : SessionMode) (handled : Handled) : Prop where
  bound : handled.reader.Bound mode
  injected : mode.permissions.allows .input = false → handled.injected = []
  clipboard : ∀ text, handled.command = some (.clipboard text) →
    mode.permissions.allows .clipboardText = true

variable {mode : SessionMode} {reader : HostReader}

/-- In a session with `Input` there is nothing to show of the injector. -/
theorem Kept.of_input {handled : Handled} (hinput : mode.permissions.allows .input = true)
    (hconsent : handled.reader.localConsent = mode.consent)
    (hclipboard : ∀ text, handled.command = some (.clipboard text) →
      mode.permissions.allows .clipboardText = true) : Kept mode handled where
  bound := ⟨hconsent, fun h => by rw [hinput] at h; cases h⟩
  injected h := by rw [hinput] at h; cases h
  clipboard := hclipboard

/-- Input is injected under `Input` only. -/
theorem Bound.onInput (h : reader.Bound mode) (active : InputTarget) (generation : ℕ)
    (event : Input) (os : Desktop) : Kept mode (reader.onInput active generation event os) := by
  by_cases hactive : active.generation = 0 ∨ generation ≠ active.generation
  · simp only [HostReader.onInput, hactive, if_true]
    exact ⟨h, fun _ => rfl, fun _ hcommand => by cases hcommand⟩
  by_cases hinput : mode.permissions.allows .input = true
  · refine .of_input hinput ?_ fun text => ?_
    all_goals
      simp only [HostReader.onInput, hactive, if_false]
      split
    · exact h.consent
    · exact h.consent
    · simp
    · simp
  · -- the injector holds nothing, and the event is refused
    have hinput : mode.permissions.allows .input = false := by simpa using hinput
    simp only [HostReader.onInput, hactive, if_false, h.injector hinput, release_empty, injectedBy,
      Except.toOption, Option.getD_some, ite_self, h.consent, apply_denied hinput]
    exact ⟨⟨rfl, fun _ => rfl⟩, fun _ => rfl, fun _ hcommand => by simp at hcommand⟩

/-- Selecting something lets go of everything held. -/
theorem Bound.onSelect (h : reader.Bound mode) (active : InputTarget) (displays : List Display)
    (index : ℕ) {command : HostCommand} (hcommand : ∀ text, command ≠ .clipboard text)
    (os : Desktop) : Kept mode (reader.onSelect active displays index command os) := by
  by_cases hindex : (!displays.any (·.index = index)) = true
  · rw [HostReader.onSelect, if_pos hindex]
    exact ⟨h, fun _ => rfl, fun _ hcommand => by simp at hcommand⟩
  rw [HostReader.onSelect, if_neg hindex]
  by_cases hinput : mode.permissions.allows .input = true
  · refine .of_input hinput ?_ fun text => ?_
    all_goals split
    · exact h.consent
    · exact h.consent
    · simp
    · simp [hcommand text]
  · have hinput : mode.permissions.allows .input = false := by simpa using hinput
    rw [h.injector hinput, release_empty]
    exact ⟨⟨h.consent, fun _ => rfl⟩, fun _ => rfl,
      fun text htext => by simp [hcommand text] at htext⟩

/-- A pass of a bound reader. -/
theorem Bound.onTurn (h : reader.Bound mode) (displays : List Display) (turn : ReaderTurn δ) :
    Kept mode (reader.onTurn displays turn) := by
  have hquiet : ∀ (command : HostCommand) (ends : Bool), (∀ text, command ≠ .clipboard text) →
      Kept mode ⟨reader, turn.active, [], some command, ends⟩ := fun command ends hcommand =>
    ⟨h, fun _ => rfl, fun text htext => absurd (Option.some.inj htext) (hcommand text)⟩
  have hclose : Kept mode ⟨{ reader with injector := (reader.injector.release turn.os).1 },
      turn.active, injectedBy (reader.injector.release turn.os).2, some .close, true⟩ := by
    refine ⟨⟨h.consent, fun _ => rfl⟩, fun hinput => ?_, fun _ htext => by simp at htext⟩
    rw [h.injector hinput]
    rfl
  simp only [HostReader.onTurn]
  cases hmessage : turn.message with
  | close => exact hclose
  | desktop message =>
    cases message with
    | input generation event => exact h.onInput ..
    | selectDisplay index => exact h.onSelect _ _ _ (fun _ => by simp) _
    | selectVideoProfile profile => exact h.onSelect _ _ _ (fun _ => by simp) _
    | ping value => exact hquiet _ _ fun _ => by simp
    | frameAck generation sequence decodeUs rttUs => exact hquiet _ _ fun _ => by simp
    | close => exact hclose
    | clipboardText text =>
      simp only [handle]
      split
      · rename_i hrequire _
        rw [h.consent, Consent.require_eq_ok] at hrequire
        exact ⟨h, fun _ => rfl, fun _ _ => hrequire.2⟩
      · exact hquiet _ _ fun _ => by simp
    | _ => exact hquiet _ _ fun _ => by simp
  | _ => exact hquiet _ _ fun _ => by simp

/-- What a pass of the reader does with a message outside its mode: it ends the loop with a
failure, unless the message is input for a generation that is not active, which is dropped. -/
def Refused (reader : HostReader) (turn : ReaderTurn δ) (handled : Handled) : Prop :=
  handled.injected = [] ∧
    ((handled.ends = true ∧ ∃ failure, handled.command = some (.failed failure)) ∨
      (handled.reader = reader ∧ handled.command = none ∧ handled.ends = false ∧
        ∃ generation event, turn.message = .desktop (.input generation event) ∧
          (turn.active.generation = 0 ∨ generation ≠ turn.active.generation)))

/-- Messages outside the mode of a desktop session are refused. -/
theorem Bound.refused (h : reader.Bound mode) (hdesktop : mode.isDesktop = true)
    (displays : List Display) (turn : ReaderTurn δ) (houtside : mode.admits turn.message = false) :
    Refused reader turn (reader.onTurn displays turn) := by
  have hfailed : ∀ failure, Refused reader turn
      ⟨reader, turn.active, [], some (.failed failure), true⟩ := fun failure =>
    ⟨rfl, .inl ⟨rfl, failure, rfl⟩⟩
  simp only [HostReader.onTurn]
  cases hmessage : turn.message with
  | close => rw [hmessage] at houtside; cases houtside
  | desktop message =>
    rw [hmessage] at houtside
    cases message with
    | input generation event =>
      have hinput : mode.permissions.allows .input = false := houtside
      by_cases hactive : turn.active.generation = 0 ∨ generation ≠ turn.active.generation
      · simp only [handle, HostReader.onInput, hactive, if_true]
        exact ⟨rfl, .inr ⟨rfl, rfl, rfl, generation, event, hmessage, hactive⟩⟩
      · simp only [handle, HostReader.onInput, hactive, if_false, h.injector hinput, release_empty,
          injectedBy, Except.toOption, Option.getD_some, ite_self, h.consent, apply_denied hinput]
        exact ⟨rfl, .inl ⟨rfl, _, rfl⟩⟩
    | clipboardText text =>
      have hclipboard : mode.permissions.allows .clipboardText = false := houtside
      have hrequire : reader.localConsent.require .clipboardText = .error .denied := by
        simp [h.consent, Consent.require, SessionMode.consent, hclipboard]
      simp only [handle, hrequire]
      exact hfailed _
    | selectDisplay index => rw [SessionMode.admits, hdesktop] at houtside; cases houtside
    | selectVideoProfile profile => rw [SessionMode.admits, hdesktop] at houtside; cases houtside
    | ping value => rw [SessionMode.admits, hdesktop] at houtside; cases houtside
    | frameAck g s d r => rw [SessionMode.admits, hdesktop] at houtside; cases houtside
    | close => rw [SessionMode.admits, hdesktop] at houtside; cases houtside
    | _ => exact hfailed _
  | _ => exact hfailed _

theorem Reached.bound {displays : List Display} (h : Reached δ displays mode reader) :
    reader.Bound mode := by
  induction h with
  | start hstart => exact start_bound hstart
  | turn turn _ ih => exact (ih.onTurn displays turn).bound

/-- All reactions of a bound reader are covered. -/
theorem Bound.run_covered (displays : List Display) (last : Desktop) (turns : List (ReaderTurn δ)) :
    ∀ {reader : HostReader}, reader.Bound mode →
      ∀ reaction ∈ reader.run displays last turns, Reaction.CoveredBy mode reaction := by
  have hleave : ∀ {reader : HostReader}, reader.Bound mode →
      Reaction.CoveredBy mode (reader.leave last) := by
    intro reader h
    refine ⟨fun hne => ?_, fun _ hcommand => by cases hcommand⟩
    by_contra hinput
    apply hne
    rw [leave, h.injector (by simpa using hinput)]
    rfl
  induction turns with
  | nil =>
    intro reader h reaction hmem
    obtain rfl := List.mem_singleton.mp hmem
    exact hleave h
  | cons turn turns ih =>
    intro reader h reaction hmem
    have hkept := h.onTurn displays turn
    rcases List.mem_cons.mp hmem with rfl | hmem
    · refine ⟨fun hne => ?_, hkept.clipboard⟩
      by_contra hinput
      exact hne (hkept.injected (by simpa using hinput))
    · split at hmem
      · obtain rfl := List.mem_singleton.mp hmem
        exact hleave hkept.bound
      · exact ih hkept.bound reaction hmem

end HostReader

/-- **Confinement of incoming sessions.** In every history of the serving end the effects come
after the local user's acceptance and are covered by the mode asked for, and a message outside
the session is followed by no further effect. The host's reader injects input only under
`Input` and forwards the clipboard only under `ClipboardText`, and refuses every message outside
the mode. -/
theorem session_confinement (peer : ExpectedPeer PublicKey) (localId : DeviceId)
    (displays : List Display) :
    (∀ history : List (Event (EndpointOp δ)), (serve peer localId).History history →
      Confined peer history) ∧
    ∀ (mode : SessionMode) (reader : HostReader), HostReader.Reached δ displays mode reader →
      (∀ (turns : List (ReaderTurn δ)) last, ∀ reaction ∈ reader.run displays last turns,
        Reaction.CoveredBy mode reaction) ∧
      (mode.isDesktop = true → ∀ turn : ReaderTurn δ, mode.admits turn.message = false →
        HostReader.Refused reader turn (reader.onTurn displays turn)) := by
  refine ⟨fun history h => h.invariant (serve_confined peer localId) ⟨?_, ?_⟩, ?_⟩
  · intro before event after h
    simp at h
  · intro before message after h
    simp at h
  · intro mode reader h
    exact ⟨fun turns last => h.bound.run_covered displays last turns,
      fun hdesktop turn => h.bound.refused hdesktop displays turn⟩

/-! ### Stray input -/

namespace StrayInput

def display : Display := ⟨0, "one", 0, 0, 1920, 1080⟩

def os : Desktop := ⟨true, 0, 0, 1920, 1080, true⟩

/-- Input for generation 7 arrives while generation 1 is shown. -/
def turn : ReaderTurn Unit := ⟨.desktop (.input 7 (.key 65 true)), ⟨1, display⟩, os, true⟩

/-- The reader of a session that only views the screen. -/
def reader : HostReader := ⟨⟨[], []⟩, 0, SessionMode.screenView.consent⟩

/-- Not every message outside the mode ends the session: the stray input is outside, and the
reader goes on to answer a ping. -/
theorem session_goes_on :
    ¬∀ (mode : SessionMode) (reader : HostReader) (turn : ReaderTurn Unit),
      mode.isDesktop = true → HostReader.start mode.permissions = some reader →
        mode.admits turn.message = false → reader.endsAt [display] turn = true := by
  intro h
  have hends := h .screenView reader turn rfl
    (by rw [HostReader.start, Consent.accept_pending]; rfl) (by decide)
  revert hends
  decide

/-- The claim of confinement about this session. -/
theorem confined_here :
    HostReader.Refused reader turn (reader.onTurn [display] turn) :=
  ((session_confinement (δ := Unit) ⟨⟨MIN_DEVICE_ID, by decide⟩, Vector.replicate 32 0⟩
    ⟨MIN_DEVICE_ID, by decide⟩ [display]).2 .screenView reader
      (.start (by rw [HostReader.start, Consent.accept_pending]; rfl))).2 rfl turn (by decide)

end StrayInput

end SensorRemote
