import SensorRemote.Crypto

/-!
# The mutual-authentication handshake

The five functions of `sensor-session` that turn two hellos into a session. They are pure once the
random values they draw (an ephemeral key pair and a nonce) are arguments. The primitives are those
of `Crypto`.

Each side signs what it has seen of the exchange, so the functions come in the order of the
messages: the client's hello, the server's answer to it, the client's proof, and the two functions
with which the sides come to their sessions. Every check of the source is there with its error, in
its place, as the order of the checks decides which error a peer sees.
-/

namespace SensorRemote

/-- `SessionError`. -/
inductive SessionError where
  | protocol (error : ProtocolError)
  | crypto (error : CryptoError)
  | unsupportedVersion
  | nonceMismatch
  | peerMismatch
  deriving DecidableEq, Repr

/-- `ExpectedPeer`: a device and the key it is pinned to. -/
structure ExpectedPeer (β : Type) where
  deviceId : DeviceId
  publicKey : β
  deriving DecidableEq

/-- `InitiatorState`. -/
structure InitiatorState (β σ ε : Type) where
  expected : ExpectedPeer β
  ephemeral : ε
  clientHello : ClientHello β σ

/-- `ResponderState`. -/
structure ResponderState (β σ ε : Type) where
  ephemeral : ε
  clientHello : ClientHello β σ
  serverHello : ServerHello β σ

/-- `SecureSession`. -/
structure SecureSession (β : Type) where
  peerDeviceId : DeviceId
  peerIdentityKey : β
  transcriptHash : β
  channel : SecureChannel β

/-- A cryptographic failure as a failure of the session. -/
def liftCrypto {α : Type} (r : Except CryptoError α) : Except SessionError α :=
  r.mapError .crypto

@[simp] theorem liftCrypto_eq_ok {α : Type} {r : Except CryptoError α} {a : α} :
    liftCrypto r = .ok a ↔ r = .ok a := by
  cases r <;> simp [liftCrypto, Except.mapError]

namespace SecureSession

variable {β Ciphertext : Type} (cipher : Aead β Ciphertext)

/-- `SecureSession::seal`: the session afterwards and the record. -/
def sealRecord (session : SecureSession β) (aad plaintext : List UInt8) :
    SecureSession β × Except SessionError (EncryptedRecord Ciphertext) :=
  let (channel, result) := session.channel.sealRecord cipher aad plaintext
  ({ session with channel }, liftCrypto result)

/-- `SecureSession::open`: the session afterwards and the plaintext. -/
def openRecord (session : SecureSession β) (record : EncryptedRecord Ciphertext)
    (aad : List UInt8) : SecureSession β × Except SessionError (List UInt8) :=
  let (channel, result) := session.channel.openRecord cipher record aad
  ({ session with channel }, liftCrypto result)

end SecureSession

section Handshake

variable {β σ ι ε : Type} (p : Primitives β σ ι ε)

/-- `start_initiator`. -/
def startInitiator (identity : ι) (deviceId : DeviceId) (expected : ExpectedPeer β)
    (ephemeral : ε) (nonce : β) : InitiatorState β σ ε × ClientHello β σ :=
  let unsigned : ClientHello β σ :=
    { version := PROTOCOL_VERSION
      deviceId
      targetDeviceId := expected.deviceId
      targetIdentityKey := expected.publicKey
      identityPublicKey := p.publicKey identity
      ephemeralPublicKey := p.ephemeralPublic ephemeral
      nonce
      signature := p.noSignature }
  let hello := { unsigned with signature := p.sign identity (clientSignatureBytes unsigned) }
  (⟨expected, ephemeral, hello⟩, hello)

variable [DecidableEq β]

/-- The part the two ways of accepting share: check the caller's signature, then
answer with a signed hello of one's own. -/
def answerHello (identity : ι) (deviceId : DeviceId) (clientHello : ClientHello β σ)
    (ephemeral : ε) (nonce : β) :
    Except SessionError (ResponderState β σ ε × ServerHello β σ) := do
  liftCrypto (p.verify clientHello.identityPublicKey (clientSignatureBytes clientHello)
    clientHello.signature)
  let unsigned : ServerHello β σ :=
    { version := PROTOCOL_VERSION
      deviceId
      identityPublicKey := p.publicKey identity
      ephemeralPublicKey := p.ephemeralPublic ephemeral
      clientNonce := clientHello.nonce
      nonce
      signature := p.noSignature }
  let serverHello :=
    { unsigned with signature := p.sign identity (serverSignatureBytes clientHello unsigned) }
  return (⟨ephemeral, clientHello, serverHello⟩, serverHello)

/-- `accept_hello`. -/
def acceptHello (identity : ι) (deviceId : DeviceId) (clientHello : ClientHello β σ)
    (expected : ExpectedPeer β) (ephemeral : ε) (nonce : β) :
    Except SessionError (ResponderState β σ ε × ServerHello β σ) := do
  if clientHello.version ≠ PROTOCOL_VERSION then throw .unsupportedVersion
  if clientHello.deviceId ≠ expected.deviceId
      ∨ clientHello.identityPublicKey ≠ expected.publicKey
      ∨ clientHello.targetDeviceId ≠ deviceId
      -- the caller may know only our device id on its first connection
      ∨ (clientHello.targetIdentityKey ≠ p.zero
          ∧ clientHello.targetIdentityKey ≠ p.publicKey identity) then
    throw .peerMismatch
  answerHello p identity deviceId clientHello ephemeral nonce

/-- `accept_hello_unpinned`. -/
def acceptHelloUnpinned (identity : ι) (deviceId : DeviceId) (clientHello : ClientHello β σ)
    (ephemeral : ε) (nonce : β) :
    Except SessionError (ResponderState β σ ε × ServerHello β σ) := do
  if clientHello.version ≠ PROTOCOL_VERSION then throw .unsupportedVersion
  if clientHello.targetDeviceId ≠ deviceId
      ∨ (clientHello.targetIdentityKey ≠ p.zero
          ∧ clientHello.targetIdentityKey ≠ p.publicKey identity) then
    throw .peerMismatch
  answerHello p identity deviceId clientHello ephemeral nonce

/-- `finish_initiator`. -/
def finishInitiator (state : InitiatorState β σ ε) (serverHello : ServerHello β σ) :
    Except SessionError (SecureSession β) := do
  if serverHello.version ≠ PROTOCOL_VERSION then throw .unsupportedVersion
  if serverHello.clientNonce ≠ state.clientHello.nonce then throw .nonceMismatch
  if serverHello.deviceId ≠ state.expected.deviceId
      ∨ (state.expected.publicKey ≠ p.zero
          ∧ serverHello.identityPublicKey ≠ state.expected.publicKey) then
    throw .peerMismatch
  liftCrypto (p.verify serverHello.identityPublicKey
    (serverSignatureBytes state.clientHello serverHello) serverHello.signature)
  let transcript := handshakeTranscript state.clientHello serverHello
  let digest := transcriptHash p transcript
  let shared ← liftCrypto (p.diffieHellman state.ephemeral serverHello.ephemeralPublicKey)
  let keys ← liftCrypto (deriveSessionKeys p shared transcript)
  return ⟨serverHello.deviceId, serverHello.identityPublicKey, digest, .initiator keys⟩

omit [DecidableEq β] in
/-- `finish_responder`. -/
def finishResponder (state : ResponderState β σ ε) : Except SessionError (SecureSession β) := do
  let transcript := handshakeTranscript state.clientHello state.serverHello
  let digest := transcriptHash p transcript
  let shared ← liftCrypto (p.diffieHellman state.ephemeral state.clientHello.ephemeralPublicKey)
  let keys ← liftCrypto (deriveSessionKeys p shared transcript)
  return ⟨state.clientHello.deviceId, state.clientHello.identityPublicKey, digest, .responder keys⟩

/-! ## What the functions check -/

/-- The hello an initiator makes. -/
structure ClientHello.MadeBy (client : ClientHello β σ) (identity : ι) (deviceId : DeviceId)
    (expected : ExpectedPeer β) (ephemeral : ε) (nonce : β) : Prop where
  deviceId : client.deviceId = deviceId
  targetDeviceId : client.targetDeviceId = expected.deviceId
  targetIdentityKey : client.targetIdentityKey = expected.publicKey
  identityPublicKey : client.identityPublicKey = p.publicKey identity
  ephemeralPublicKey : client.ephemeralPublicKey = p.ephemeralPublic ephemeral
  nonce : client.nonce = nonce
  signature : client.signature = p.sign identity (clientSignatureBytes client)

/-- The hello a responder makes in answer to another. -/
structure ServerHello.MadeBy (server : ServerHello β σ) (client : ClientHello β σ) (identity : ι)
    (deviceId : DeviceId) (ephemeral : ε) (nonce : β) : Prop where
  deviceId : server.deviceId = deviceId
  identityPublicKey : server.identityPublicKey = p.publicKey identity
  ephemeralPublicKey : server.ephemeralPublicKey = p.ephemeralPublic ephemeral
  clientNonce : server.clientNonce = client.nonce
  nonce : server.nonce = nonce
  signature : server.signature = p.sign identity (serverSignatureBytes client server)

omit [DecidableEq β] in
theorem startInitiator_madeBy (identity : ι) (deviceId : DeviceId) (expected : ExpectedPeer β)
    (ephemeral : ε) (nonce : β) :
    (startInitiator p identity deviceId expected ephemeral nonce).2.MadeBy p identity deviceId
      expected ephemeral nonce := by
  constructor <;> rfl

omit [DecidableEq β] in
/-- An answered hello carries its sender's signature, and the answer is the responder's. -/
theorem answerHello_ok {identity : ι} {deviceId : DeviceId} {client : ClientHello β σ}
    {ephemeral : ε} {nonce : β} {pending : ResponderState β σ ε} {server : ServerHello β σ}
    (h : answerHello p identity deviceId client ephemeral nonce = .ok (pending, server)) :
    p.verify client.identityPublicKey (clientSignatureBytes client) client.signature = .ok () ∧
      pending = ⟨ephemeral, client, server⟩ ∧
      server.MadeBy p client identity deviceId ephemeral nonce := by
  simp only [answerHello, bind, Except.bind] at h
  split at h
  · cases h
  · rename_i hverify
    obtain ⟨rfl, rfl⟩ := Prod.mk.inj (Except.ok.inj h)
    exact ⟨liftCrypto_eq_ok.mp hverify, rfl, by constructor <;> rfl⟩

/-- What `accept_hello` has checked when it answers. -/
theorem acceptHello_ok {identity : ι} {deviceId : DeviceId} {client : ClientHello β σ}
    {expected : ExpectedPeer β} {ephemeral : ε} {nonce : β}
    {pending : ResponderState β σ ε} {server : ServerHello β σ}
    (h : acceptHello p identity deviceId client expected ephemeral nonce =
      .ok (pending, server)) :
    client.deviceId = expected.deviceId ∧ client.identityPublicKey = expected.publicKey ∧
      answerHello p identity deviceId client ephemeral nonce = .ok (pending, server) := by
  simp only [acceptHello, bind, Except.bind, throw, throwThe, MonadExceptOf.throw] at h
  split at h
  · cases h
  · split at h
    · cases h
    · rename_i hpeer
      simp only [not_or, not_not] at hpeer
      exact ⟨hpeer.1, hpeer.2.1, h⟩

/-- `accept_hello_unpinned` answers as `accept_hello` does. -/
theorem acceptHelloUnpinned_ok {identity : ι} {deviceId : DeviceId} {client : ClientHello β σ}
    {ephemeral : ε} {nonce : β} {pending : ResponderState β σ ε} {server : ServerHello β σ}
    (h : acceptHelloUnpinned p identity deviceId client ephemeral nonce =
      .ok (pending, server)) :
    answerHello p identity deviceId client ephemeral nonce = .ok (pending, server) := by
  simp only [acceptHelloUnpinned, bind, Except.bind, throw, throwThe, MonadExceptOf.throw] at h
  split at h
  · cases h
  · split at h
    · cases h
    · exact h

/-- What `finish_initiator` has checked when it makes a session, and the session it makes. -/
theorem finishInitiator_ok {pending : InitiatorState β σ ε} {server : ServerHello β σ}
    {session : SecureSession β} (h : finishInitiator p pending server = .ok session) :
    server.deviceId = pending.expected.deviceId ∧
      (pending.expected.publicKey ≠ p.zero →
        server.identityPublicKey = pending.expected.publicKey) ∧
      p.verify server.identityPublicKey (serverSignatureBytes pending.clientHello server)
        server.signature = .ok () ∧
      ∃ shared keys, p.diffieHellman pending.ephemeral server.ephemeralPublicKey = .ok shared ∧
        deriveSessionKeys p shared (handshakeTranscript pending.clientHello server) = .ok keys ∧
        session = ⟨server.deviceId, server.identityPublicKey,
          transcriptHash p (handshakeTranscript pending.clientHello server), .initiator keys⟩ := by
  simp only [finishInitiator, bind, Except.bind, pure, Except.pure, throw, throwThe,
    MonadExceptOf.throw] at h
  split at h
  · cases h
  · split at h
    · cases h
    · split at h
      · cases h
      · rename_i hpeer
        simp only [not_or, not_not, not_and] at hpeer
        split at h
        · cases h
        · rename_i hverify
          split at h
          · cases h
          · rename_i shared hshared
            split at h
            · cases h
            · rename_i keys hkeys
              exact ⟨hpeer.1, hpeer.2, liftCrypto_eq_ok.mp hverify, shared, keys,
                liftCrypto_eq_ok.mp hshared, liftCrypto_eq_ok.mp hkeys, (Except.ok.inj h).symm⟩

omit [DecidableEq β] in
/-- The session `finish_responder` makes. -/
theorem finishResponder_ok {pending : ResponderState β σ ε} {session : SecureSession β}
    (h : finishResponder p pending = .ok session) :
    ∃ shared keys,
      p.diffieHellman pending.ephemeral pending.clientHello.ephemeralPublicKey = .ok shared ∧
      deriveSessionKeys p shared (handshakeTranscript pending.clientHello pending.serverHello) =
        .ok keys ∧
      session = ⟨pending.clientHello.deviceId, pending.clientHello.identityPublicKey,
        transcriptHash p (handshakeTranscript pending.clientHello pending.serverHello),
        .responder keys⟩ := by
  simp only [finishResponder, bind, Except.bind, pure, Except.pure] at h
  split at h
  · cases h
  · rename_i shared hshared
    split at h
    · cases h
    · rename_i keys hkeys
      exact ⟨shared, keys, liftCrypto_eq_ok.mp hshared, liftCrypto_eq_ok.mp hkeys,
        (Except.ok.inj h).symm⟩

end Handshake

end SensorRemote
