import SensorRemote.Connection

/-!
# Establishing a connection

`SecureConnection::initiate`, `accept` and `accept_unpinned`: the two hellos, then each
side proves with an encrypted Finished message that it holds the keys.

A call of one of the three is a `Run`. It is cut where the source waits for the peer:
`Run.receive` is what the source does from one message to the next. What a run came to
hold stays on record when it fails, since the messages it sent are out.
-/

namespace SensorRemote

/-! ## Runs -/

/-- Which of the three functions is called, and the peer it is called for. -/
inductive Mode (β : Type) where
  /-- `SecureConnection::initiate` -/
  | initiate (expected : ExpectedPeer β)
  /-- `SecureConnection::accept` -/
  | accept (expected : ExpectedPeer β)
  /-- `SecureConnection::accept_unpinned` -/
  | acceptUnpinned
  deriving DecidableEq

/-- The side of the handshake the function takes. -/
def Mode.role {β : Type} : Mode β → Role
  | .initiate _ => .initiator
  | .accept _ | .acceptUnpinned => .responder

/-- A message of the handshake, as its frame announces it. -/
inductive Message (β σ Ciphertext : Type) where
  | clientHello (client : ClientHello β σ)
  | serverHello (server : ServerHello β σ)
  | record (record : EncryptedRecord Ciphertext)
  deriving DecidableEq

/-- How far a run has come, and what it holds. -/
inductive Progress (β σ ε : Type) where
  /-- an initiator that has sent its hello -/
  | helloSent (state : InitiatorState β σ ε)
  /-- a responder waiting for a hello -/
  | listening
  /-- a responder that has signed its hello and has no keys yet -/
  | answered (client : ClientHello β σ) (server : ServerHello β σ)
  /-- keys derived, the peer's Finished message outstanding -/
  | keyed (client : ClientHello β σ) (server : ServerHello β σ) (session : SecureSession β)
  /-- the peer's Finished message checked -/
  | confirmed (client : ClientHello β σ) (server : ServerHello β σ) (session : SecureSession β)

/-- A call of `initiate`, `accept` or `accept_unpinned`. -/
structure Run (β σ ι ε : Type) where
  identity : ι
  deviceId : DeviceId
  mode : Mode β
  progress : Progress β σ ε
  /-- the call has returned an error -/
  failed : Bool

namespace Run

variable {β σ ι ε Ciphertext : Type}

/-- The two hellos a run holds. -/
def hellos? (run : Run β σ ι ε) : Option (ClientHello β σ × ServerHello β σ) :=
  match run.progress with
  | .helloSent _ | .listening => none
  | .answered client server | .keyed client server _ | .confirmed client server _ =>
    some (client, server)

/-- The session a run has derived. -/
def session? (run : Run β σ ι ε) : Option (SecureSession β) :=
  match run.progress with
  | .keyed _ _ session | .confirmed _ _ session => some session
  | _ => none

/-- The run has returned `Ok` with this session. -/
def ReturnedOk (run : Run β σ ι ε) (session : SecureSession β) : Prop :=
  run.failed = false ∧ ∃ client server, run.progress = .confirmed client server session

/-- The error return. -/
def fail (run : Run β σ ι ε) : Run β σ ι ε := { run with failed := true }

section Steps

variable (p : Primitives β σ ι ε) (cipher : Aead β Ciphertext)

/-- `initiate` as far as the first message. `written` says whether the socket took it. -/
def initiate (identity : ι) (deviceId : DeviceId) (expected : ExpectedPeer β) (ephemeral : ε)
    (nonce : β) (written : Bool) : Run β σ ι ε × Message β σ Ciphertext :=
  let (pending, hello) := startInitiator p identity deviceId expected ephemeral nonce
  (⟨identity, deviceId, .initiate expected, .helloSent pending, !written⟩, .clientHello hello)

/-- Send one's Finished message. -/
def sendFinished (run : Run β σ ι ε) (progress : SecureSession β → Progress β σ ε)
    (session : SecureSession β) (finished : List UInt8) (written : Bool) :
    Run β σ ι ε × Option (Message β σ Ciphertext) :=
  match session.sealRecord cipher AAD finished with
  | (session', .error _) => ({ run with progress := progress session', failed := true }, none)
  | (session', .ok record) =>
    ({ run with progress := progress session', failed := !written }, some (.record record))

variable [DecidableEq β]

/-- `accept_hello` or `accept_hello_unpinned`, as the function called wants it. -/
def answer (run : Run β σ ι ε) (client : ClientHello β σ) (ephemeral : ε) (nonce : β) :
    Except SessionError (ResponderState β σ ε × ServerHello β σ) :=
  match run.mode with
  | .initiate _ => .error .peerMismatch
  | .accept expected =>
    acceptHello p run.identity run.deviceId client expected ephemeral nonce
  | .acceptUnpinned => acceptHelloUnpinned p run.identity run.deviceId client ephemeral nonce

/-- `initiate` from the server's hello to its own Finished message. -/
def onServerHello (run : Run β σ ι ε) (pending : InitiatorState β σ ε) (server : ServerHello β σ)
    (written : Bool) : Run β σ ι ε × Option (Message β σ Ciphertext) :=
  match finishInitiator p pending server with
  | .error _ => (run.fail, none)
  | .ok session =>
    run.sendFinished cipher (.keyed pending.clientHello server) session CLIENT_FINISH written

/-- `accept` and `accept_unpinned` from the client's hello to the derived keys. -/
def onClientHello (run : Run β σ ι ε) (ephemeral : ε) (nonce : β) (client : ClientHello β σ)
    (written : Bool) : Run β σ ι ε × Option (Message β σ Ciphertext) :=
  match run.answer p client ephemeral nonce with
  | .error _ => (run.fail, none)
  | .ok (pending, server) =>
    let run := { run with progress := .answered client server }
    if !written then (run.fail, some (.serverHello server))
    else
      match finishResponder p pending with
      | .error _ => (run.fail, some (.serverHello server))
      | .ok session =>
        ({ run with progress := .keyed client server session }, some (.serverHello server))

omit [DecidableEq β] in
/-- The end of all three: the peer's Finished message, which a responder answers. -/
def onFinished (run : Run β σ ι ε) (client : ClientHello β σ) (server : ServerHello β σ)
    (session : SecureSession β) (record : EncryptedRecord Ciphertext) (written : Bool) :
    Run β σ ι ε × Option (Message β σ Ciphertext) :=
  match session.openRecord cipher record AAD with
  | (session', .error _) => ({ run with progress := .keyed client server session' }.fail, none)
  | (session', .ok finished) =>
    match run.mode.role with
    | .initiator =>
      if finished ≠ SERVER_FINISH then
        ({ run with progress := .keyed client server session' }.fail, none)
      else ({ run with progress := .confirmed client server session' }, none)
    | .responder =>
      if finished ≠ CLIENT_FINISH then
        ({ run with progress := .keyed client server session' }.fail, none)
      else run.sendFinished cipher (.confirmed client server) session' SERVER_FINISH written

/-- What a run does with the next message. A responder draws an ephemeral key and a nonce
when it is sent a hello. -/
def receive (run : Run β σ ι ε) (ephemeral : ε) (nonce : β) (message : Message β σ Ciphertext)
    (written : Bool) : Run β σ ι ε × Option (Message β σ Ciphertext) :=
  match run.progress, message with
  | .helloSent pending, .serverHello server => run.onServerHello p cipher pending server written
  | .listening, .clientHello client => run.onClientHello p ephemeral nonce client written
  | .keyed client server session, .record record =>
    run.onFinished cipher client server session record written
  -- a frame of another type is `UnexpectedMessage`
  | _, _ => (run.fail, none)

end Steps

end Run

/-! ## What a message does to a run -/

section Inversion

variable {β σ ι ε Ciphertext : Type} {p : Primitives β σ ι ε} {cipher : Aead β Ciphertext}

/-- A later state of the same session: only the counters have moved. -/
structure SecureSession.Continues (session session' : SecureSession β) : Prop where
  peerDeviceId : session'.peerDeviceId = session.peerDeviceId
  peerIdentityKey : session'.peerIdentityKey = session.peerIdentityKey
  transcriptHash : session'.transcriptHash = session.transcriptHash
  send : session'.channel.send = session.channel.send
  receive : session'.channel.receive = session.channel.receive

theorem SecureSession.Continues.trans {s s' s'' : SecureSession β} (h : s.Continues s')
    (h' : s'.Continues s'') : s.Continues s'' where
  peerDeviceId := h'.peerDeviceId.trans h.peerDeviceId
  peerIdentityKey := h'.peerIdentityKey.trans h.peerIdentityKey
  transcriptHash := h'.transcriptHash.trans h.transcriptHash
  send := h'.send.trans h.send
  receive := h'.receive.trans h.receive

/-- A record is sealed under the sending key, and the session goes on. -/
theorem SecureSession.sealRecord_continues {session session' : SecureSession β}
    {aad plaintext : List UInt8} {result : Except SessionError (EncryptedRecord Ciphertext)}
    (h : session.sealRecord cipher aad plaintext = (session', result)) :
    session.Continues session' ∧ ∀ record, result = .ok record →
      cipher.encrypt session.channel.send (makeNonce record.sequence) aad plaintext =
        .ok record.ciphertext := by
  simp only [SecureSession.sealRecord] at h
  rcases hseal : session.channel.sealRecord cipher aad plaintext with ⟨channel, result'⟩
  rw [hseal] at h
  obtain ⟨rfl, rfl⟩ := Prod.mk.inj h
  obtain ⟨rfl, rfl, -⟩ | ⟨rfl, -, ⟨e, rfl⟩ | ⟨ciphertext, rfl, henc⟩⟩ :=
    SecureChannel.sealRecord_cases hseal
  · exact ⟨by constructor <;> rfl, by rintro record ⟨⟩⟩
  · exact ⟨by constructor <;> rfl, by rintro record ⟨⟩⟩
  · refine ⟨by constructor <;> rfl, fun record hrecord => ?_⟩
    obtain rfl := Except.ok.inj hrecord
    exact henc

/-- A record is opened under the receiving key, and the session goes on. -/
theorem SecureSession.openRecord_continues {session session' : SecureSession β}
    {record : EncryptedRecord Ciphertext} {aad : List UInt8}
    {result : Except SessionError (List UInt8)}
    (h : session.openRecord cipher record aad = (session', result)) :
    session.Continues session' ∧ ∀ plaintext, result = .ok plaintext →
      cipher.decrypt session.channel.receive (makeNonce record.sequence) aad record.ciphertext =
        .ok plaintext := by
  simp only [SecureSession.openRecord] at h
  rcases hopen : session.channel.openRecord cipher record aad with ⟨channel, result'⟩
  rw [hopen] at h
  obtain ⟨rfl, rfl⟩ := Prod.mk.inj h
  obtain ⟨rfl, e, rfl⟩ | ⟨plaintext, rfl, -, rfl, hdec⟩ := SecureChannel.openRecord_cases hopen
  · exact ⟨by constructor <;> rfl, by rintro plaintext ⟨⟩⟩
  · refine ⟨by constructor <;> rfl, fun plaintext' hplain => ?_⟩
    obtain rfl := Except.ok.inj hplain
    exact hdec

/-- The record a run sends, if any, is sealed under the key it seals under. -/
def SealedUnder (cipher : Aead β Ciphertext) (session : SecureSession β)
    (sent : Option (Message β σ Ciphertext)) : Prop :=
  ∀ message ∈ sent, ∃ record plaintext, message = .record record ∧
    cipher.encrypt session.channel.send (makeNonce record.sequence) AAD plaintext =
      .ok record.ciphertext

/-- All that a message can do to a run: which run it becomes and what it sends. -/
inductive Run.Step [DecidableEq β] (p : Primitives β σ ι ε) (cipher : Aead β Ciphertext)
    (ephemeral : ε) (nonce : β) (run : Run β σ ι ε) :
    Message β σ Ciphertext → Run β σ ι ε → Option (Message β σ Ciphertext) → Prop where
  /-- an error, before anything changed -/
  | fail (message) : Step p cipher ephemeral nonce run message run.fail none
  /-- an initiator accepts the server's hello and derives the keys -/
  | serverHello (pending server session session' failed sent)
      (hprogress : run.progress = .helloSent pending)
      (hfinish : finishInitiator p pending server = .ok session)
      (hsession : session.Continues session') (hsent : SealedUnder cipher session' sent) :
      Step p cipher ephemeral nonce run (.serverHello server)
        { run with progress := .keyed pending.clientHello server session', failed } sent
  /-- a responder answers the client's hello but fails before it has keys -/
  | answered (client pending server)
      (hprogress : run.progress = .listening)
      (hanswer : run.answer p client ephemeral nonce = .ok (pending, server)) :
      Step p cipher ephemeral nonce run (.clientHello client)
        { run with progress := .answered client server, failed := true }
        (some (.serverHello server))
  /-- a responder answers the client's hello and derives the keys -/
  | clientHello (client pending server session)
      (hprogress : run.progress = .listening)
      (hanswer : run.answer p client ephemeral nonce = .ok (pending, server))
      (hfinish : finishResponder p pending = .ok session) :
      Step p cipher ephemeral nonce run (.clientHello client)
        { run with progress := .keyed client server session } (some (.serverHello server))
  /-- a record that is not the Finished message expected -/
  | rejected (client server session session' record)
      (hprogress : run.progress = .keyed client server session)
      (hsession : session.Continues session') :
      Step p cipher ephemeral nonce run (.record record)
        { run with progress := .keyed client server session', failed := true } none
  /-- the Finished message expected -/
  | finished (client server session session' record plaintext failed sent)
      (hprogress : run.progress = .keyed client server session)
      (hopen : cipher.decrypt session.channel.receive (makeNonce record.sequence) AAD
        record.ciphertext = .ok plaintext)
      (hsession : session.Continues session') (hsent : SealedUnder cipher session' sent) :
      Step p cipher ephemeral nonce run (.record record)
        { run with progress := .confirmed client server session', failed } sent

/-- Sending the Finished message moves the session on and seals under its key. -/
theorem Run.sendFinished_cases {run run' : Run β σ ι ε}
    {progress : SecureSession β → Progress β σ ε} {session : SecureSession β}
    {finished : List UInt8} {written : Bool} {sent : Option (Message β σ Ciphertext)}
    (h : run.sendFinished cipher progress session finished written = (run', sent)) :
    ∃ session' failed, session.Continues session' ∧ SealedUnder cipher session' sent ∧
      run' = { run with progress := progress session', failed } := by
  simp only [sendFinished] at h
  rcases hseal : session.sealRecord cipher AAD finished with ⟨session', result⟩
  obtain ⟨hcont, henc⟩ := SecureSession.sealRecord_continues hseal
  rw [hseal] at h
  cases result with
  | error e =>
    obtain ⟨rfl, rfl⟩ := Prod.mk.inj h
    exact ⟨session', true, hcont, by rintro message ⟨⟩, rfl⟩
  | ok record =>
    obtain ⟨rfl, rfl⟩ := Prod.mk.inj h
    refine ⟨session', !written, hcont, ?_, rfl⟩
    rintro message ⟨⟩
    exact ⟨record, finished, rfl, by rw [hcont.send]; exact henc record rfl⟩

/-- **What a message does to a run.** -/
theorem Run.receive_step [DecidableEq β] (p : Primitives β σ ι ε) (cipher : Aead β Ciphertext)
    (run : Run β σ ι ε) (ephemeral : ε) (nonce : β)
    (message : Message β σ Ciphertext) (written : Bool) :
    Run.Step p cipher ephemeral nonce run message
      (run.receive p cipher ephemeral nonce message written).1
      (run.receive p cipher ephemeral nonce message written).2 := by
  simp only [receive]
  split
  -- the initiator gets the responder's hello, and sends what finishes its side
  · rename_i pending server hprogress
    simp only [onServerHello]
    split
    · exact .fail _
    · rename_i session hfinish
      rcases hsend : run.sendFinished cipher (.keyed pending.clientHello server) session
        CLIENT_FINISH written with ⟨run', sent⟩
      obtain ⟨session', failed, hcont, hsent, rfl⟩ := sendFinished_cases hsend
      exact .serverHello pending server session session' failed sent hprogress hfinish hcont hsent
  -- the responder answers a hello: with or without a session
  · rename_i client hprogress
    unfold onClientHello
    split
    · exact .fail _
    · rename_i pending server hanswer
      dsimp only
      split
      · exact .answered client pending server hprogress hanswer
      · split
        · exact .answered client pending server hprogress hanswer
        · rename_i session hfinish
          exact .clientHello client pending server session hprogress hanswer hfinish
  -- a side waits for the other's last record, which decides
  · rename_i client server session record hprogress
    simp only [onFinished]
    split
    · rename_i session' e hopen
      exact .rejected client server session session' record hprogress
        (SecureSession.openRecord_continues hopen).1
    · rename_i session' finished hopen
      obtain ⟨hcont, hdec⟩ := SecureSession.openRecord_continues hopen
      split
      · split
        · exact .rejected client server session session' record hprogress hcont
        · exact .finished client server session session' record finished run.failed none hprogress
            (hdec finished rfl) hcont (by rintro message ⟨⟩)
      · split
        · exact .rejected client server session session' record hprogress hcont
        · rcases hsend : run.sendFinished cipher (.confirmed client server) session'
            SERVER_FINISH written with ⟨run', sent⟩
          obtain ⟨session'', failed, hcont', hsent, rfl⟩ := sendFinished_cases hsend
          exact .finished client server session session'' record finished failed sent hprogress
            (hdec finished rfl) (hcont.trans hcont') hsent
  · exact .fail _

end Inversion

/-! ## What a run holds -/

namespace Role

variable {β σ : Type} (client : ClientHello β σ) (server : ServerHello β σ)

/-- The device the peer of this role claims to be. -/
def peerDeviceId : Role → DeviceId
  | initiator => server.deviceId
  | responder => client.deviceId

/-- The identity key the peer of this role shows. -/
def peerIdentityKey : Role → β
  | initiator => server.identityPublicKey
  | responder => client.identityPublicKey

/-- The share the peer of this role sends. -/
def peerShare : Role → β
  | initiator => server.ephemeralPublicKey
  | responder => client.ephemeralPublicKey

/-- The signature the peer of this role sends. -/
def peerSignature : Role → σ
  | initiator => server.signature
  | responder => client.signature

/-- The nonce this role draws itself. -/
def ownNonce : Role → β
  | initiator => client.nonce
  | responder => server.nonce

/-- What the peer of this role signs. -/
def peerSigned : Role → List (Piece β σ)
  | initiator => serverSignatureBytes client server
  | responder => clientSignatureBytes client

end Role

namespace Run

variable {β σ ι ε Ciphertext : Type} [DecidableEq β] (p : Primitives β σ ι ε)
  {cipher : Aead β Ciphertext}

/-- The two hellos are one's own, made with the random values drawn, and one from a peer
whose signature and pinned identity have been checked. -/
structure Holds (identity : ι) (deviceId : DeviceId) (mode : Mode β) (ephemeral : ε) (nonce : β)
    (client : ClientHello β σ) (server : ServerHello β σ) : Prop where
  /-- an initiator's hello is its own -/
  asked : ∀ expected, mode = .initiate expected →
    client.MadeBy p identity deviceId expected ephemeral nonce ∧
      server.deviceId = expected.deviceId ∧
      (expected.publicKey ≠ p.zero → server.identityPublicKey = expected.publicKey)
  /-- a responder's hello is its own -/
  answered : mode.role = .responder → server.MadeBy p client identity deviceId ephemeral nonce
  /-- `accept` has checked its pin -/
  pinned : ∀ expected, mode = .accept expected →
    client.deviceId = expected.deviceId ∧ client.identityPublicKey = expected.publicKey
  /-- the peer's signature has been checked -/
  verified : p.verify (mode.role.peerIdentityKey client server)
    (mode.role.peerSigned client server) (mode.role.peerSignature client server) = .ok ()

omit [DecidableEq β] in
/-- What a run shows of itself in its own hello. -/
theorem Holds.own {identity : ι} {deviceId : DeviceId} {mode : Mode β} {ephemeral : ε} {nonce : β}
    {client : ClientHello β σ} {server : ServerHello β σ}
    (h : Holds p identity deviceId mode ephemeral nonce client server) :
    mode.role.other.peerIdentityKey client server = p.publicKey identity ∧
      mode.role.other.peerDeviceId client server = deviceId ∧
      mode.role.ownNonce client server = nonce := by
  cases mode with
  | initiate expected =>
    have hmade := (h.asked expected rfl).1
    exact ⟨hmade.identityPublicKey, hmade.deviceId, hmade.nonce⟩
  | accept _ | acceptUnpinned =>
    have hmade := h.answered rfl
    exact ⟨hmade.identityPublicKey, hmade.deviceId, hmade.nonce⟩

/-- The session comes from the two hellos. -/
structure DerivedFrom (session : SecureSession β) (role : Role) (ephemeral : ε)
    (client : ClientHello β σ) (server : ServerHello β σ) : Prop where
  peerDeviceId : session.peerDeviceId = role.peerDeviceId client server
  peerIdentityKey : session.peerIdentityKey = role.peerIdentityKey client server
  transcriptHash : session.transcriptHash = transcriptHash p (handshakeTranscript client server)
  keys : ∃ shared keys, p.diffieHellman ephemeral (role.peerShare client server) = .ok shared ∧
    deriveSessionKeys p shared (handshakeTranscript client server) = .ok keys ∧
    session.channel.send = role.sealKey keys ∧ session.channel.receive = role.other.sealKey keys

omit [DecidableEq β] in
theorem DerivedFrom.continues {session session' : SecureSession β} {role : Role} {ephemeral : ε}
    {client : ClientHello β σ} {server : ServerHello β σ}
    (h : DerivedFrom p session role ephemeral client server) (h' : session.Continues session') :
    DerivedFrom p session' role ephemeral client server where
  peerDeviceId := h'.peerDeviceId.trans h.peerDeviceId
  peerIdentityKey := h'.peerIdentityKey.trans h.peerIdentityKey
  transcriptHash := h'.transcriptHash.trans h.transcriptHash
  keys := by
    rw [h'.send, h'.receive]
    exact h.keys

/-- What a run holds is what its random values and the messages it accepted make of it. -/
def Justified (run : Run β σ ι ε) (ephemeral : ε) (nonce : β) : Prop :=
  match run.progress with
  | .helloSent pending => ∃ expected, run.mode = .initiate expected ∧
      pending.expected = expected ∧ pending.ephemeral = ephemeral ∧
      pending.clientHello.MadeBy p run.identity run.deviceId expected ephemeral nonce
  | .listening => run.mode.role = .responder
  | .answered client server =>
    Holds p run.identity run.deviceId run.mode ephemeral nonce client server
  | .keyed client server session | .confirmed client server session =>
    Holds p run.identity run.deviceId run.mode ephemeral nonce client server ∧
      DerivedFrom p session run.mode.role ephemeral client server

variable {p}

/-- What a responder holds once it has answered. -/
theorem holds_of_answer {run : Run β σ ι ε} {ephemeral : ε} {nonce : β} {client : ClientHello β σ}
    {server : ServerHello β σ} {pending : ResponderState β σ ε}
    (h : run.answer p client ephemeral nonce = .ok (pending, server)) :
    run.mode.role = .responder ∧ pending = ⟨ephemeral, client, server⟩ ∧
      Holds p run.identity run.deviceId run.mode ephemeral nonce client server := by
  simp only [answer] at h
  split at h
  · cases h
  · rename_i expected hmode
    obtain ⟨hid, hkey, hanswer⟩ := acceptHello_ok p h
    obtain ⟨hverify, hpending, hmade⟩ := answerHello_ok p hanswer
    refine ⟨by rw [hmode]; rfl, hpending, ?_, fun _ => hmade, ?_, by rw [hmode]; exact hverify⟩
    · intro expected' h'
      rw [hmode] at h'
      cases h'
    · intro expected' h'
      rw [hmode] at h'
      obtain rfl := Mode.accept.inj h'
      exact ⟨hid, hkey⟩
  · rename_i hmode
    obtain ⟨hverify, hpending, hmade⟩ := answerHello_ok p (acceptHelloUnpinned_ok p h)
    refine ⟨by rw [hmode]; rfl, hpending, ?_, fun _ => hmade, ?_, by rw [hmode]; exact hverify⟩
    · intro expected' h'
      rw [hmode] at h'
      cases h'
    · intro expected' h'
      rw [hmode] at h'
      cases h'

/-- A message leaves a run justified. -/
theorem Justified.step {run run' : Run β σ ι ε} {ephemeral : ε} {nonce : β}
    {message : Message β σ Ciphertext} {sent : Option (Message β σ Ciphertext)}
    (h : run.Justified p ephemeral nonce)
    (hstep : Run.Step p cipher ephemeral nonce run message run' sent) :
    run'.Justified p ephemeral nonce := by
  simp only [Justified] at h
  cases hstep with
  | fail => exact h
  | serverHello pending server session session' failed sent hprogress hfinish hsession hsent =>
    rw [hprogress] at h
    obtain ⟨expected, hmode, rfl, rfl, hmade⟩ := h
    obtain ⟨hid, hkey, hverify, shared, keys, hshared, hkeys, rfl⟩ := finishInitiator_ok p hfinish
    have hholds : Holds p run.identity run.deviceId run.mode pending.ephemeral nonce
        pending.clientHello server := by
      refine ⟨?_, ?_, ?_, by rw [hmode]; exact hverify⟩
      · intro expected' h'
        rw [hmode] at h'
        obtain rfl := Mode.initiate.inj h'
        exact ⟨hmade, hid, hkey⟩
      · intro h'
        rw [hmode] at h'
        cases h'
      · intro expected' h'
        rw [hmode] at h'
        cases h'
    have hderived : DerivedFrom p ⟨server.deviceId, server.identityPublicKey,
        transcriptHash p (handshakeTranscript pending.clientHello server), .initiator keys⟩
        run.mode.role pending.ephemeral pending.clientHello server := by
      rw [hmode]
      exact ⟨rfl, rfl, rfl, shared, keys, hshared, hkeys, rfl, rfl⟩
    exact ⟨hholds, hderived.continues p hsession⟩
  | answered client pending server hprogress hanswer => exact (holds_of_answer hanswer).2.2
  | clientHello client pending server session hprogress hanswer hfinish =>
    obtain ⟨hrole, rfl, hholds⟩ := holds_of_answer hanswer
    obtain ⟨shared, keys, hshared, hkeys, rfl⟩ := finishResponder_ok p hfinish
    refine ⟨hholds, ?_⟩
    dsimp only
    rw [hrole]
    exact ⟨rfl, rfl, rfl, shared, keys, hshared, hkeys, rfl, rfl⟩
  | rejected client server session session' record hprogress hsession =>
    rw [hprogress] at h
    exact ⟨h.1, h.2.continues p hsession⟩
  | finished client server session session' record plaintext failed sent hprogress hopen
      hsession hsent =>
    rw [hprogress] at h
    exact ⟨h.1, h.2.continues p hsession⟩

end Run

end SensorRemote
