import SensorRemote.Audit
import SensorRemote.Connection
import SensorRemote.Files
import SensorRemote.Messages

/-!
# The two ends of an accepted session

`serve` and `operate`, which answer a peer, and `request` and `send_file`, which send a file
to one (`sensor-client`). The serving end is a program over the calls it makes of the
connection, the local user, the audit log and the receiver; the sending end uses the
connection and its own file system.
-/

namespace SensorRemote

open Program

/-- `EndpointError`. -/
inductive EndpointError where
  | connection (error : ConnectionError)
  | permission (error : PermissionError)
  | file (error : FileError)
  | audit (error : AuditError)
  | io (error : IoError)
  | rejected
  | invalid
  | desktop (text : String)
  deriving DecidableEq, Repr

/-! ## The serving end -/

/-- The operations of `serve` and `operate`. -/
inductive EndpointOp (δ : Type) : Type → Type where
  | receive : EndpointOp δ (Except ConnectionError (ClientMessage δ))
  | send (message : ClientMessage δ) : EndpointOp δ (Except ConnectionError Unit)
  /-- `connection.close()` -/
  | close : EndpointOp δ Unit
  | audit (event : AuditEvent) : EndpointOp δ (Except AuditError Unit)
  /-- `Instant::now()`, in nanoseconds -/
  | now : EndpointOp δ ℕ
  | accept (peer : ExpectedPeer PublicKey) (mode : SessionMode) : EndpointOp δ Bool
  | chatReply (text : String) : EndpointOp δ (Option String)
  | transferProgress (received total : ℕ) : EndpointOp δ Unit
  | desktop (consent : Consent) : EndpointOp δ (Except EndpointError Unit)
  | begin (consent : Consent) (owner : PublicKey) (manifest : Manifest δ) :
    EndpointOp δ (Except FileError (IncomingTransfer δ))
  | resume (consent : Consent) (owner : PublicKey) (id : TransferId) :
    EndpointOp δ (Except FileError (IncomingTransfer δ))
  | prefixHash (transfer : IncomingTransfer δ) : EndpointOp δ (Except FileError δ)
  | writeChunk (transfer : IncomingTransfer δ) (consent : Consent) (offset : ℕ)
    (bytes : List UInt8) (checksum : δ) : EndpointOp δ (Except FileError (IncomingTransfer δ))
  | pause (transfer : IncomingTransfer δ) : EndpointOp δ (Except FileError TransferId)
  | cancel (transfer : IncomingTransfer δ) (consent : Consent) :
    EndpointOp δ (Except FileError Unit)
  | finish (transfer : IncomingTransfer δ) (consent : Consent) :
    EndpointOp δ (Except FileError (Manifest δ))
  /-- the transfer goes out of scope -/
  | drop (transfer : IncomingTransfer δ) : EndpointOp δ Unit

/-- Code of the serving end. -/
abbrev EndpointProg (δ : Type) := Fallible (EndpointOp δ) EndpointError

section Serving

variable {δ : Type}

namespace Endpoint

/-- `connection.receive()?`. -/
def receive : EndpointProg δ (ClientMessage δ) :=
  (Fallible.attempt .receive).mapError .connection

/-- `connection.send(..)?`. -/
def send (message : ClientMessage δ) : EndpointProg δ Unit :=
  (Fallible.attempt (.send message)).mapError .connection

/-- A call of the receiver or of a transfer. -/
def files {α : Type} (o : EndpointOp δ (Except FileError α)) : EndpointProg δ α :=
  (Fallible.attempt o).mapError .file

/-- `consent.require(..)?`. -/
def require (consent : Consent) (permission : Permission) : EndpointProg δ Unit :=
  Fallible.ofExcept ((consent.require permission).mapError .permission)

/-- `audit`. -/
def audit (peer : ExpectedPeer PublicKey) (localId : DeviceId) (action : AuditAction)
    (outcome : AuditOutcome) (bytes : ℕ) : EndpointProg δ Unit :=
  (Fallible.attempt (.audit ⟨peer.deviceId, localId, action, outcome, bytes⟩)).mapError .audit

end Endpoint

/-- How `operate` returns: the transfer that is still open, and the result. -/
abbrev OperateExit (δ : Type) := Option (IncomingTransfer δ) × Except EndpointError Unit

/-- The variables of the loop in `operate`. -/
structure OperateState (δ : Type) where
  incoming : Option (IncomingTransfer δ)
  operationWindow : ℕ
  operations : ℕ

/-- The longest a window of operations lasts. -/
def OPERATION_WINDOW : ℕ := 60 * 1000000000

/-- How many operations a window may have. -/
def MAX_OPERATIONS : ℕ := 100000

/-- Code of the loop: an error leaves it. -/
abbrev OperateProg (δ : Type) := Fallible (EndpointOp δ) (OperateExit δ)

/-- `?` while `incoming` is open. -/
def orLeave {α : Type} (incoming : Option (IncomingTransfer δ)) (x : EndpointProg δ α) :
    OperateProg δ α :=
  x.mapError fun e => (incoming, .error e)

namespace Operate

variable (peer : ExpectedPeer PublicKey) (localId : DeviceId) (consent : Consent)
  (incoming : Option (IncomingTransfer δ))

/-- The arm for `Chat`. -/
def onChat (text : String) : OperateProg δ (Option (IncomingTransfer δ)) := do
  orLeave incoming do
    Endpoint.require consent .chat
    Fallible.check (text.utf8ByteSize ≤ MAX_CHAT_BYTES) .invalid
  match ← Fallible.perform (.chatReply text) with
  | none =>
    orLeave incoming (Endpoint.send .close)
    throw (incoming, .ok ())
  | some reply =>
    orLeave incoming do
      Fallible.check (reply.utf8ByteSize ≤ MAX_CHAT_BYTES) .invalid
      Endpoint.send (.chat reply)
    return incoming

/-- The answer to an offer or a resumption. -/
def sendReady (id : TransferId) (transfer : IncomingTransfer δ) : EndpointProg δ Unit := do
  let hash ← Endpoint.files (.prefixHash transfer)
  Endpoint.send (.ready id transfer.offset hash transfer.manifest)

/-- The arm for `FileOffer`. -/
def onFileOffer (manifest : Manifest δ) : OperateProg δ (Option (IncomingTransfer δ)) := do
  orLeave incoming do
    Endpoint.require consent .fileManager
    Fallible.check (incoming.isNone ∧ manifest.size ≤ DEFAULT_RECEIVE_LIMIT) .invalid
    Endpoint.audit peer localId .fileOffered .success manifest.size
  let transfer ← orLeave incoming (Endpoint.files (.begin consent peer.publicKey manifest))
  orLeave (some transfer) (sendReady transfer.id transfer)
  return some transfer

/-- The arm for `Resume`. -/
def onResume (id : TransferId) : OperateProg δ (Option (IncomingTransfer δ)) := do
  orLeave incoming do
    Endpoint.require consent .fileManager
    Fallible.check incoming.isNone .invalid
  let transfer ← orLeave incoming (Endpoint.files (.resume consent peer.publicKey id))
  orLeave (some transfer) do
    Fallible.check (transfer.manifest.size ≤ DEFAULT_RECEIVE_LIMIT) .invalid
    sendReady id transfer
  return some transfer

/-- What an arm does with the open transfer: there has to be one. -/
def withIncoming {α : Type} (k : IncomingTransfer δ → OperateProg δ α) : OperateProg δ α := do
  orLeave incoming (Endpoint.require consent .fileManager)
  match incoming with
  | none => throw (none, .error .invalid)
  | some transfer => k transfer

/-- The arm for `Chunk`. -/
def onChunk (offset : ℕ) (bytes : List UInt8) (checksum : δ) :
    OperateProg δ (Option (IncomingTransfer δ)) :=
  withIncoming consent incoming fun transfer => do
    let transfer ← orLeave (some transfer)
      (Endpoint.files (.writeChunk transfer consent offset bytes checksum))
    Fallible.perform (.transferProgress transfer.offset transfer.manifest.size)
    orLeave (some transfer) (Endpoint.send (.progress transfer.offset))
    return some transfer

/-- The arm for `Commit`. -/
def onCommit : OperateProg δ (Option (IncomingTransfer δ)) :=
  withIncoming consent incoming fun transfer => do
    orLeave none do
      let manifest ← Endpoint.files (.finish transfer consent)
      Endpoint.audit peer localId .fileCompleted .success manifest.size
      Endpoint.send (.complete manifest)
    throw (none, .ok ())

/-- The arm for `Pause`. -/
def onPause : OperateProg δ (Option (IncomingTransfer δ)) :=
  withIncoming consent incoming fun transfer => do
    orLeave none do
      let id ← Endpoint.files (.pause transfer)
      Endpoint.send (.paused id)
    throw (none, .ok ())

/-- The arm for `Cancel`. -/
def onCancel : OperateProg δ (Option (IncomingTransfer δ)) :=
  withIncoming consent incoming fun transfer => do
    orLeave none do
      Endpoint.files (.cancel transfer consent)
      Endpoint.audit peer localId .fileCancelled .success 0
      Endpoint.send .cancelled
    throw (none, .ok ())

/-- `match message`: the transfer that is open afterwards. -/
def onMessage (message : ClientMessage δ) : OperateProg δ (Option (IncomingTransfer δ)) :=
  match message with
  | .close => throw (incoming, .ok ())
  | .chat text => onChat consent incoming text
  | .fileOffer manifest => onFileOffer peer localId consent incoming manifest
  | .resume id => onResume peer consent incoming id
  | .chunk offset bytes checksum => onChunk consent incoming offset bytes checksum
  | .commit => onCommit peer localId consent incoming
  | .pause => onPause consent incoming
  | .cancel => onCancel peer localId consent incoming
  | _ => throw (incoming, .error .invalid)

/-- The window of operations when a message arrives: a new one if it has lasted too long. -/
def renewWindow (s : OperateState δ) : OperateProg δ (OperateState δ) := do
  let now ← Fallible.perform .now
  if now - s.operationWindow > OPERATION_WINDOW then do
    let operationWindow ← Fallible.perform .now
    return { s with operationWindow, operations := 0 }
  else return s

/-- One operation more. -/
def countOperation (s : OperateState δ) : OperateProg δ (OperateState δ) := do
  let s ← renewWindow s
  Fallible.check (s.operations + 1 ≤ MAX_OPERATIONS) (s.incoming, .error .invalid)
  return { s with operations := s.operations + 1 }

/-- One pass of the loop. -/
def pass (s : OperateState δ) : OperateProg δ (OperateState δ) := do
  let message ← orLeave s.incoming Endpoint.receive
  let s ← countOperation s
  let incoming ← onMessage peer localId consent s.incoming message
  return { s with incoming }

end Operate

/-- The end of `operate`'s scope, which drops the transfer that is still open. -/
def leaveOperate : Except (OperateExit δ) Empty → EndpointProg δ Unit
  | .error (none, result) => Fallible.ofExcept result
  | .error (some transfer, result) => do
    Fallible.perform (.drop transfer)
    Fallible.ofExcept result

/-- `operate`. -/
def operate (peer : ExpectedPeer PublicKey) (localId : DeviceId) (consent : Consent) :
    EndpointProg δ Unit := do
  let operationWindow ← Fallible.perform .now
  let exit ← Fallible.lift
    (Fallible.forever ⟨none, operationWindow, 0⟩ fun s => do
      let s ← Operate.pass peer localId consent s
      return .inl s)
  leaveOperate exit

/-- `serve` once the local user has accepted. -/
def serveAccepted (peer : ExpectedPeer PublicKey) (localId : DeviceId) (mode : SessionMode) :
    EndpointProg δ Unit := do
  let consent ← Fallible.ofExcept
    (((Consent.pending mode.permissions).accept mode.permissions).mapError .permission)
  Endpoint.audit peer localId .sessionAccepted .success 0
  Endpoint.send (.accepted consent.granted)
  let result ← Fallible.lift
    (if mode.isDesktop then Prog.perform (.desktop consent) else operate peer localId consent)
  -- nothing looks at the consent once it is closed
  Fallible.perform .close
  Endpoint.audit peer localId .sessionDisconnected (if result.isOk then .success else .failed) 0
  Fallible.ofExcept result

/-- `serve` once the local user has refused. -/
def serveRejected (peer : ExpectedPeer PublicKey) (localId : DeviceId) (mode : SessionMode) :
    EndpointProg δ Unit := do
  let _ ← Fallible.ofExcept ((Consent.pending mode.permissions).reject.mapError .permission)
  Endpoint.audit peer localId .sessionRejected .denied 0
  Endpoint.send .rejected

/-- `serve`, for the peer of the connection. -/
def serve (peer : ExpectedPeer PublicKey) (localId : DeviceId) : EndpointProg δ Unit := do
  match ← Endpoint.receive with
  | .request mode =>
    Endpoint.audit peer localId .connectionRequested .success 0
    if ← Fallible.perform (.accept peer mode) then serveAccepted peer localId mode
    else serveRejected peer localId mode
  | _ => throw .invalid

/-! ### What the loop does -/

/-- Whether the action concerns a file. -/
def AuditAction.isFile : AuditAction → Bool
  | .fileOffered | .fileCompleted | .fileCancelled | .fileFailed => true
  | _ => false

/-- Whether the operation may be part of handling the message. -/
def ClientMessage.Invokes (message : ClientMessage δ) : {β : Type} → EndpointOp δ β → Prop
  | _, .chatReply _ => ∃ text, message = .chat text
  | _, .begin _ _ _ => ∃ manifest, message = .fileOffer manifest
  | _, .resume _ _ _ => ∃ id, message = .resume id
  | _, .writeChunk _ _ _ _ _ => ∃ offset bytes checksum, message = .chunk offset bytes checksum
  | _, .pause _ => message = .pause
  | _, .cancel _ _ => message = .cancel
  | _, .finish _ _ => message = .commit
  | _, .audit event => event.action.isFile = true
  | _, .send answer => ∀ permissions, answer ≠ .accepted permissions
  | _, .now | _, .transferProgress _ _ | _, .prefixHash _ | _, .drop _ => True
  | _, .receive | _, .close | _, .accept _ _ | _, .desktop _ => False

namespace Operate

section Invokes

variable {X : {β : Type} → EndpointOp δ β → Prop} {α : Type} (message : ClientMessage δ)

theorem only_orLeave {incoming : Option (IncomingTransfer δ)} {x : EndpointProg δ α}
    (h : x.Only X) :
    (orLeave incoming x).Only X := h.mapError _

theorem only_require (consent : Consent) (permission : Permission) :
    (Endpoint.require consent permission : EndpointProg δ Unit).Only X :=
  Fallible.only_ofExcept _

theorem only_send {answer : ClientMessage δ} (h : ∀ permissions, answer ≠ .accepted permissions) :
    (Endpoint.send answer).Only message.Invokes :=
  Fallible.Only.mapError (Fallible.only_attempt.mpr h) _

theorem only_audit (peer : ExpectedPeer PublicKey) (localId : DeviceId) {action : AuditAction}
    (h : action.isFile = true) (outcome : AuditOutcome) (bytes : ℕ) :
    (Endpoint.audit peer localId action outcome bytes : EndpointProg δ Unit).Only message.Invokes :=
  Fallible.Only.mapError (Fallible.only_attempt.mpr h) _

theorem only_files {o : EndpointOp δ (Except FileError α)} (h : message.Invokes o) :
    (Endpoint.files o).Only message.Invokes :=
  Fallible.Only.mapError (Fallible.only_attempt.mpr h) _

/-- Handling a message does what belongs to the message. -/
theorem onMessage_invokes (peer : ExpectedPeer PublicKey) (localId : DeviceId) (consent : Consent)
    (incoming : Option (IncomingTransfer δ)) :
    (onMessage peer localId consent incoming message).Only message.Invokes := by
  have hready : ∀ (id : TransferId) (transfer : IncomingTransfer δ),
      (sendReady id transfer).Only message.Invokes := by
    intro id transfer
    refine (only_files message ?_).seq fun _ => only_send message fun _ => by simp
    exact trivial
  have hwith : ∀ {α : Type} {k : IncomingTransfer δ → OperateProg δ α},
      (∀ transfer, (k transfer).Only message.Invokes) →
      (withIncoming consent incoming k).Only message.Invokes := by
    intro α k hk
    refine (only_orLeave (only_require _ _)).seq fun _ => ?_
    cases incoming with
    | none => simp
    | some transfer => exact hk transfer
  cases message with
  | chat text =>
    refine (only_orLeave ((only_require _ _).seq fun _ => by simp)).seq fun _ => ?_
    refine (Fallible.only_perform.mpr ⟨text, rfl⟩).seq fun reply => ?_
    cases reply with
    | none => exact (only_orLeave (only_send _ fun _ => by simp)).seq fun _ => by simp
    | some reply =>
      exact (only_orLeave ((Fallible.only_check _ _).seq fun _ =>
        only_send _ fun _ => by simp)).seq fun _ => by simp
  | fileOffer manifest =>
    refine (only_orLeave ((only_require _ _).seq fun _ => (Fallible.only_check _ _).seq fun _ =>
      only_audit _ peer localId rfl _ _)).seq fun _ => ?_
    refine (only_orLeave (only_files _ ?_)).seq fun transfer => ?_
    · exact ⟨manifest, rfl⟩
    · exact (only_orLeave (hready _ _)).seq fun _ => by simp
  | resume id =>
    refine (only_orLeave ((only_require _ _).seq fun _ => by simp)).seq fun _ => ?_
    refine (only_orLeave (only_files _ ?_)).seq fun transfer => ?_
    · exact ⟨id, rfl⟩
    · exact (only_orLeave ((Fallible.only_check _ _).seq fun _ => hready _ _)).seq fun _ => by simp
  | chunk offset bytes checksum =>
    refine hwith fun transfer => ?_
    refine (only_orLeave (only_files _ ?_)).seq fun transfer => ?_
    · exact ⟨offset, bytes, checksum, rfl⟩
    · refine (Fallible.only_perform.mpr trivial).seq fun _ => ?_
      exact (only_orLeave (only_send _ fun _ => by simp)).seq fun _ => by simp
  | commit =>
    refine hwith fun transfer => ?_
    refine (only_orLeave ((only_files _ ?_).seq fun _ => (only_audit _ peer localId rfl _ _).seq
      fun _ => only_send _ fun _ => by simp)).seq fun _ => by simp
    exact rfl
  | pause =>
    refine hwith fun transfer => ?_
    refine (only_orLeave ((only_files _ ?_).seq fun _ => only_send _ fun _ => by simp)).seq
      fun _ => by simp
    exact rfl
  | cancel =>
    refine hwith fun transfer => ?_
    refine (only_orLeave ((only_files _ ?_).seq fun _ => (only_audit _ peer localId rfl _ _).seq
      fun _ => only_send _ fun _ => by simp)).seq fun _ => by simp
    exact rfl
  | _ => exact Fallible.only_throw _

/-- Counting an operation only reads the clock. -/
theorem countOperation_invokes (s : OperateState δ) :
    (countOperation s).Only message.Invokes := by
  have hnow : (Fallible.perform .now : OperateProg δ ℕ).Only message.Invokes :=
    Fallible.only_perform.mpr trivial
  refine Fallible.Only.seq (hnow.seq fun now => ?_) fun s => ?_
  · split
    · exact hnow.seq fun _ => Fallible.only_pure _
    · exact Fallible.only_pure _
  · exact (Fallible.only_check _ _).seq fun _ => Fallible.only_pure _

end Invokes

end Operate

/-- The operations of `operate`: messages are received, and each does what belongs to it. -/
theorem operate_only {X : {β : Type} → EndpointOp δ β → Prop} (hreceive : X EndpointOp.receive)
    (hX : ∀ (message : ClientMessage δ) {β : Type} (o : EndpointOp δ β), message.Invokes o → X o)
    (peer : ExpectedPeer PublicKey) (localId : DeviceId) (consent : Consent) :
    (operate peer localId consent).Only X := by
  have hpass : ∀ s : OperateState δ, (Operate.pass peer localId consent s).Only X := fun s =>
    (Operate.only_orLeave (Fallible.Only.mapError (Fallible.only_attempt.mpr hreceive) _)).seq
      fun message => ((Operate.countOperation_invokes message s).mono (hX message)).seq fun s =>
        ((Operate.onMessage_invokes message peer localId consent s.incoming).mono (hX message)).seq
          fun _ => Fallible.only_pure _
  refine (Fallible.only_perform.mpr (hX .close .now trivial)).seq fun window => ?_
  refine (Fallible.Only.lift (Fallible.Only.forever (fun s => ?_) _)).seq fun exit => ?_
  · exact (hpass s).seq fun _ => Fallible.only_pure _
  · rcases exit with ⟨_ | transfer, result⟩ | e
    · exact Fallible.only_ofExcept _
    · exact (Fallible.only_perform.mpr (hX .close (.drop transfer) trivial)).seq fun _ =>
        Fallible.only_ofExcept _
    · exact e.elim

end Serving

/-! ## The sending end -/

/-- What `request` and `send_file` do with the connection, and what they tell their caller. -/
inductive SenderCall (δ : Type) : Type → Type where
  | receive : SenderCall δ (Except ConnectionError (ClientMessage δ))
  | send (message : ClientMessage δ) : SenderCall δ (Except ConnectionError Unit)
  | progress (id : TransferId) (offset size : ℕ) : SenderCall δ Unit

/-- The operations of `request` and `send_file`. -/
inductive SenderOp (δ β : Type) : Type where
  | call (o : SenderCall δ β)
  /-- an operation on the sender's own files -/
  | file (o : FileOp δ β)

/-- Code of the sending end. -/
abbrev SenderProg (δ : Type) := Fallible (SenderOp δ) EndpointError

namespace Sender

variable {δ : Type}

/-- `connection.receive()?`. -/
def receive : SenderProg δ (ClientMessage δ) :=
  (Fallible.attempt (.call .receive)).mapError .connection

/-- `connection.send(..)?`. -/
def send (message : ClientMessage δ) : SenderProg δ Unit :=
  (Fallible.attempt (.call (.send message))).mapError .connection

/-- The callback `progress`. -/
def progress (id : TransferId) (offset size : ℕ) : SenderProg δ Unit :=
  Fallible.perform (.call (.progress id offset size))

/-- Code over files, in which an error of one kind may occur. -/
def files {ε α : Type} (f : ε → EndpointError) (x : Fallible (FileOp δ) ε α) : SenderProg δ α :=
  Fallible.mapError f (Prog.interp (fun o => Prog.perform (.file o)) x)

/-- `request`. -/
def request (mode : SessionMode) : SenderProg δ Unit := do
  send (.request mode)
  match ← receive with
  | .accepted granted => Fallible.check (granted = mode.permissions) .invalid
  | .rejected => throw .rejected
  | _ => throw .invalid

/-- The bytes of the first `count`, which the sender hashes. -/
def readPrefix (file : Handle) (count : ℕ) : SenderProg δ (List UInt8) :=
  Fallible.forever (count, []) fun (remaining, hash) =>
    if remaining = 0 then pure (.inr hash)
    else do
      let bytes ← files .io (readExact file (min remaining CHUNK_SIZE))
      return .inl (remaining - min remaining CHUNK_SIZE, hash ++ bytes)

/-- The loop over the chunks, from an offset to the end. -/
def sendChunks (sha256 : List UInt8 → δ) (id : TransferId) (size : ℕ) (file : Handle)
    (offset : ℕ) : SenderProg δ Unit :=
  Fallible.forever offset fun offset =>
    if offset ≥ size then pure (.inr ())
    else do
      let bytes ← files .io (readExact file (min (size - offset) CHUNK_SIZE))
      send (.chunk offset bytes (sha256 bytes))
      let offset := offset + min (size - offset) CHUNK_SIZE
      match ← receive with
      | .progress value =>
        Fallible.check (value = offset) .invalid
        progress id offset size
        return .inl offset
      | _ => throw .invalid

/-- What `send_file` does with the file once the receiver is ready. -/
def sendFrom [DecidableEq δ] (sha256 : List UInt8 → δ) (manifest : Manifest δ) (id : TransferId)
    (offset : ℕ) (prefixHash : δ) (file : Handle) : SenderProg δ (Manifest δ) := do
  let hash ← readPrefix file offset
  Fallible.check (sha256 hash = prefixHash) (.file .integrity)
  files .io (Fallible.attempt (.seek file offset))
  progress id offset manifest.size
  sendChunks sha256 id manifest.size file offset
  send .commit
  match ← receive with
  | .complete completed =>
    Fallible.check (completed = manifest) .invalid
    return completed
  | _ => throw .invalid

/-- `send_file`, of the file called `name`, new or resuming a transfer. -/
def sendFile [DecidableEq δ] (sha256 : List UInt8 → δ) (name : String)
    (resume : Option TransferId) : SenderProg δ (Manifest δ) := do
  let manifest ← files .file (describeFile sha256 name)
  request .fileTransfer
  send (match resume with
    | some id => .resume id
    | none => .fileOffer manifest)
  match ← receive with
  | .ready id offset prefixHash remoteManifest =>
    Fallible.check (manifest = remoteManifest ∧ offset ≤ manifest.size) .invalid
    let file ← files .io (Fallible.attempt (.openRead name))
    Prog.bind (sendFrom sha256 manifest id offset prefixHash file) fun result =>
      .op (.file (.close file)) fun _ => .ret result
  | _ => throw .invalid

end Sender

end SensorRemote
