import SensorRemote.Core
import SensorRemote.Lib.Bytes

/-!
# Wire types of session establishment

The framing of `sensor-protocol` (a version, a message type, a length and a
payload) and the two hello messages with the byte strings their signatures cover.

A hello is generic in what a 32-byte value and a signature are: the framing and
encoding theorems read them as bytes, the agreement theorem as symbolic terms. What
a signature covers is given piece by piece, in the order the source concatenates.
-/

namespace SensorRemote

open Bytes

/-! ## Frames -/

def PROTOCOL_VERSION : ℕ := 2
def MAX_FRAME_SIZE : ℕ := 1024 * 1024
def HEADER_SIZE : ℕ := 7

/-- `ProtocolError`. -/
inductive ProtocolError where
  | serialization
  | unsupportedVersion (version : ℕ)
  | frameTooLarge
  | invalidMessageType
  | malformed
  deriving DecidableEq, Repr

/-- `MessageType`. -/
inductive MessageType where
  | clientHello
  | serverHello
  | control
  | fileTransfer
  | close
  deriving DecidableEq, Repr

namespace MessageType

/-- The discriminant, `message_type as u8`. -/
def toByte : MessageType → UInt8
  | clientHello => 1
  | serverHello => 2
  | control => 3
  | fileTransfer => 4
  | close => 5

/-- `MessageType::try_from`. -/
def ofByte (value : UInt8) : Except ProtocolError MessageType :=
  if value = 1 then .ok clientHello
  else if value = 2 then .ok serverHello
  else if value = 3 then .ok control
  else if value = 4 then .ok fileTransfer
  else if value = 5 then .ok close
  else .error .invalidMessageType

@[simp] theorem ofByte_toByte (type : MessageType) : ofByte type.toByte = .ok type := by
  cases type <;> rfl

/-- A byte stands for one type at most. -/
theorem toByte_of_ofByte {value : UInt8} {type : MessageType} (h : ofByte value = .ok type) :
    type.toByte = value := by
  simp only [ofByte] at h
  repeat' split at h
  all_goals cases h
  all_goals simp_all [toByte]

end MessageType

/-- The serializer of a message type (postcard, a third-party crate): `to_allocvec`
and `take_from_bytes`. -/
structure Postcard (T : Type) where
  /-- the bytes of a message -/
  toAllocvec : T → Except ProtocolError (List UInt8)
  /-- a message read off the front of a byte string, and the rest of the string -/
  takeFromBytes : List UInt8 → Except ProtocolError (T × List UInt8)

/-- `Frame`. -/
structure Frame where
  /-- the protocol version, a `u16` -/
  version : ℕ
  /-- what the payload is -/
  messageType : MessageType
  /-- the payload -/
  payload : List UInt8
  deriving DecidableEq, Repr

namespace Frame

/-- `Frame::new`. -/
def new {T : Type} (codec : Postcard T) (type : MessageType) (message : T) :
    Except ProtocolError Frame := do
  let payload ← codec.toAllocvec message
  if payload.length > MAX_FRAME_SIZE - HEADER_SIZE then throw .frameTooLarge
  return ⟨PROTOCOL_VERSION, type, payload⟩

/-- `Frame::encode`. -/
def encode (frame : Frame) : Except ProtocolError (List UInt8) := do
  if frame.version ≠ PROTOCOL_VERSION then throw (.unsupportedVersion frame.version)
  if frame.payload.length > MAX_FRAME_SIZE - HEADER_SIZE then throw .frameTooLarge
  return beBytes 2 frame.version ++ [frame.messageType.toByte] ++
    beBytes 4 frame.payload.length ++ frame.payload

/-- `Frame::decode`. -/
def decode (bytes : List UInt8) : Except ProtocolError Frame := do
  if bytes.length > MAX_FRAME_SIZE then throw .frameTooLarge
  if bytes.length < HEADER_SIZE then throw .malformed
  let version := beNat (bytes.take 2)
  if version ≠ PROTOCOL_VERSION then throw (.unsupportedVersion version)
  let length := beNat ((bytes.drop 3).take 4)
  if length ≠ bytes.length - HEADER_SIZE then throw .malformed
  let type ← MessageType.ofByte (bytes.getD 2 0)
  return ⟨version, type, bytes.drop HEADER_SIZE⟩

/-- `Frame::decode_payload`. -/
def decodePayload {T : Type} (codec : Postcard T) (frame : Frame) : Except ProtocolError T := do
  let (value, rest) ← codec.takeFromBytes frame.payload
  if rest ≠ [] then throw .malformed
  return value

/-- A decoded payload is the end of the bytes it was decoded from. -/
theorem payload_of_decode {bytes : List UInt8} {frame : Frame} (h : decode bytes = .ok frame) :
    frame.payload = bytes.drop HEADER_SIZE := by
  simp only [decode, bind, Except.bind, pure, Except.pure, throw, throwThe,
    MonadExceptOf.throw] at h
  repeat' split at h
  all_goals cases h
  rfl

end Frame

/-! ## The hello messages -/

/-- `ClientHello`. -/
structure ClientHello (β σ : Type) where
  version : ℕ
  deviceId : DeviceId
  targetDeviceId : DeviceId
  targetIdentityKey : β
  identityPublicKey : β
  ephemeralPublicKey : β
  nonce : β
  signature : σ
  deriving DecidableEq

/-- `ServerHello`. -/
structure ServerHello (β σ : Type) where
  version : ℕ
  deviceId : DeviceId
  identityPublicKey : β
  ephemeralPublicKey : β
  clientNonce : β
  nonce : β
  signature : σ
  deriving DecidableEq

/-- A piece of a signed byte string. -/
inductive Piece (β σ : Type) where
  /-- a domain separation prefix -/
  | domain (text : String)
  /-- a protocol version -/
  | version (version : ℕ)
  /-- a device identifier -/
  | deviceId (id : DeviceId)
  /-- a 32-byte value -/
  | bytes32 (value : β)
  /-- a signature already made -/
  | signature (signature : σ)
  deriving DecidableEq

variable {β σ : Type}

/-- `ClientHello::unsigned_bytes`. -/
def ClientHello.unsignedBytes (client : ClientHello β σ) : List (Piece β σ) :=
  [.version client.version, .deviceId client.deviceId, .deviceId client.targetDeviceId,
    .bytes32 client.targetIdentityKey, .bytes32 client.identityPublicKey,
    .bytes32 client.ephemeralPublicKey, .bytes32 client.nonce]

/-- `ServerHello::unsigned_bytes`. -/
def ServerHello.unsignedBytes (server : ServerHello β σ) : List (Piece β σ) :=
  [.version server.version, .deviceId server.deviceId, .bytes32 server.identityPublicKey,
    .bytes32 server.ephemeralPublicKey, .bytes32 server.clientNonce, .bytes32 server.nonce]

/-- `client_signature_bytes`. -/
def clientSignatureBytes (client : ClientHello β σ) : List (Piece β σ) :=
  .domain "SENSOR Remote Access/client-hello/v1" :: client.unsignedBytes

/-- `server_signature_bytes`. -/
def serverSignatureBytes (client : ClientHello β σ) (server : ServerHello β σ) :
    List (Piece β σ) :=
  .domain "SENSOR Remote Access/server-hello/v1" ::
    client.unsignedBytes ++ [.signature client.signature] ++ server.unsignedBytes

/-- `handshake_transcript`. -/
def handshakeTranscript (client : ClientHello β σ) (server : ServerHello β σ) :
    List (Piece β σ) :=
  .domain "SENSOR Remote Access/handshake/v1" ::
    client.unsignedBytes ++ [.signature client.signature] ++ server.unsignedBytes ++
      [.signature server.signature]

/-- A client signature covers every field of the hello but itself. -/
theorem clientSignatureBytes_inj {client client' : ClientHello β σ}
    (h : clientSignatureBytes client = clientSignatureBytes client')
    (hs : client.signature = client'.signature) : client = client' := by
  cases client
  cases client'
  simp only [clientSignatureBytes, ClientHello.unsignedBytes, List.cons.injEq, Piece.version.injEq,
    Piece.deviceId.injEq, Piece.bytes32.injEq] at h
  simp_all

/-- A server signature covers the whole client hello and every other field of the
server hello. -/
theorem serverSignatureBytes_inj {client client' : ClientHello β σ}
    {server server' : ServerHello β σ}
    (h : serverSignatureBytes client server = serverSignatureBytes client' server')
    (hs : server.signature = server'.signature) : client = client' ∧ server = server' := by
  cases client
  cases client'
  cases server
  cases server'
  simp only [serverSignatureBytes, ClientHello.unsignedBytes, ServerHello.unsignedBytes,
    List.cons_append, List.nil_append, List.cons.injEq, Piece.version.injEq, Piece.deviceId.injEq,
    Piece.bytes32.injEq, Piece.signature.injEq] at h
  simp_all

/-- A transcript determines both hellos. -/
theorem handshakeTranscript_inj {client client' : ClientHello β σ}
    {server server' : ServerHello β σ}
    (h : handshakeTranscript client server = handshakeTranscript client' server') :
    client = client' ∧ server = server' := by
  cases client
  cases client'
  cases server
  cases server'
  simp only [handshakeTranscript, ClientHello.unsignedBytes, ServerHello.unsignedBytes,
    List.cons_append, List.nil_append, List.cons.injEq, Piece.version.injEq, Piece.deviceId.injEq,
    Piece.bytes32.injEq, Piece.signature.injEq] at h
  simp_all

/-- The two roles never sign the same string. -/
theorem clientSignatureBytes_ne_server (client client' : ClientHello β σ)
    (server : ServerHello β σ) :
    clientSignatureBytes client ≠ serverSignatureBytes client' server := by
  simp [clientSignatureBytes, serverSignatureBytes]

end SensorRemote
