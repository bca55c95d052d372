import SensorRemote.Session

/-!
# Sending and receiving records

`SecureConnection` (`sensor-transport`) after the handshake: `send_bytes` and
`receive_bytes`, the typed `send` and `receive` on top of them, and the two halves
`split` makes. The socket is the environment's: a call that writes is told whether
the socket takes the bytes, a call that reads is given the bytes that arrive while
it waits, and a read that runs out of them is an I/O error.

Besides its result a call reports what it did to the record channel (`ChannelEvent`),
so that the history of a session can be spoken of.
-/

namespace SensorRemote

open Bytes

/-- The bytes of an ASCII byte-string literal. -/
def ascii (s : String) : List UInt8 := s.toList.map fun c => UInt8.ofNat c.toNat

def AAD : List UInt8 := ascii "SENSOR/ordered-record/v2"
def CLIENT_FINISH : List UInt8 := ascii "SENSOR/client-finished/v2"
def SERVER_FINISH : List UInt8 := ascii "SENSOR/server-finished/v2"

/-- `ConnectionError`. -/
inductive ConnectionError where
  | io
  | protocol (error : ProtocolError)
  | session (error : SessionError)
  | unexpectedMessage
  | closed
  deriving DecidableEq, Repr

/-- A protocol failure as a failure of the connection. -/
def liftProtocol {α : Type} (r : Except ProtocolError α) : Except ConnectionError α :=
  r.mapError .protocol

/-! ## Frames on the socket -/

/-- `read_frame`, on the bytes that arrive: the frame and the bytes after it. -/
def readFrame (limit : ℕ) (input : List UInt8) : Except ConnectionError (Frame × List UInt8) := do
  if input.length < 4 then throw .io
  let length := beNat (input.take 4)
  if length > limit then throw (.protocol .frameTooLarge)
  let rest := input.drop 4
  if rest.length < length then throw .io
  let frame ← liftProtocol (Frame.decode (rest.take length))
  return (frame, rest.drop length)

/-- `write_frame`: the bytes put on the socket, if it takes them. -/
def writeFrame (frame : Frame) (writable : Bool) : Except ConnectionError (List UInt8) := do
  let bytes ← liftProtocol frame.encode
  if !writable then throw .io
  return beBytes 4 bytes.length ++ bytes

/-- What `read_frame` returns is part of what arrived. -/
theorem payload_infix_of_readFrame {limit : ℕ} {input rest : List UInt8} {frame : Frame}
    (h : readFrame limit input = .ok (frame, rest)) : frame.payload <:+: input := by
  simp only [readFrame, bind, Except.bind, pure, Except.pure, throw, throwThe,
    MonadExceptOf.throw] at h
  split at h
  · cases h
  · split at h
    · cases h
    · split at h
      · cases h
      · rcases hdec : Frame.decode ((input.drop 4).take (beNat (input.take 4))) with e | frame'
        · rw [hdec] at h
          cases h
        · rw [hdec] at h
          obtain ⟨rfl, -⟩ := Prod.mk.inj (Except.ok.inj h)
          rw [Frame.payload_of_decode hdec]
          exact ((List.drop_suffix _ _).isInfix.trans (List.take_prefix _ _).isInfix).trans
            (List.drop_suffix _ _).isInfix

/-! ## What a call does -/

/-- A record the cipher made: the key and number it was sealed under, and both texts. -/
structure SealedRecord (β : Type) where
  key : β
  sequence : ℕ
  plaintext : List UInt8
  ciphertext : List UInt8

/-- The nonce the record was sealed under. -/
def SealedRecord.nonce {β : Type} (record : SealedRecord β) : List UInt8 :=
  makeNonce record.sequence

/-- What a call can do with the record channel. -/
inductive ChannelEvent (β : Type) where
  /-- a record was sealed -/
  | sealed (record : SealedRecord β)
  /-- a record was opened to this plaintext -/
  | opened (plaintext : List UInt8)

/-- The outcome of a call: the state afterwards, what it did with the channel, and its
result. -/
structure Outcome (S β α : Type) where
  state : S
  events : List (ChannelEvent β)
  result : α

/-- `SecureConnection`. -/
structure SecureConnection (β : Type) where
  /-- the record state, until `split` hands it over -/
  session : Option (SecureSession β)
  closed : Bool

/-- `DuplexState`: the record state the two halves share. -/
structure DuplexState (β : Type) where
  session : SecureSession β
  failed : Bool

section Calls

variable {β T : Type} (cipher : Aead β (List UInt8)) (codec : Postcard T)

/-- Seal a plaintext and write the record, as `send_bytes` and `SecureWriter::send` do. -/
def sealAndWrite (session : SecureSession β) (plaintext : List UInt8) (writable : Bool) :
    Outcome (SecureSession β) β (Except ConnectionError (List UInt8)) :=
  match session.sealRecord cipher AAD plaintext with
  | (session', .error e) => ⟨session', [], .error (.session e)⟩
  | (session', .ok record) =>
    let payload := beBytes 8 record.sequence ++ record.ciphertext
    ⟨session', [.sealed ⟨session.channel.send, record.sequence, plaintext, record.ciphertext⟩],
      writeFrame ⟨PROTOCOL_VERSION, .control, payload⟩ writable⟩

/-- Read a record off the socket, as `receive_bytes` and `SecureReader::receive` do. -/
def readRecord (input : List UInt8) : Except ConnectionError (EncryptedRecord (List UInt8)) := do
  let (frame, _) ← readFrame MAX_FRAME_SIZE input
  if frame.messageType ≠ .control ∨ frame.payload.length < 24 then throw .unexpectedMessage
  return ⟨beNat (frame.payload.take 8), frame.payload.drop 8⟩

/-- Open a record, as `receive_bytes` and `SecureReader::receive` do. -/
def openAndReport (session : SecureSession β) (record : EncryptedRecord (List UInt8)) :
    Outcome (SecureSession β) β (Except ConnectionError (List UInt8)) :=
  match session.openRecord cipher record AAD with
  | (session', .error e) => ⟨session', [], .error (.session e)⟩
  | (session', .ok plaintext) => ⟨session', [.opened plaintext], .ok plaintext⟩

/-- The plaintext a typed send seals: `Frame::new` of type `Control`, encoded. -/
def controlFrame (message : T) : Except ProtocolError (List UInt8) := do
  let frame ← Frame.new codec .control message
  frame.encode

/-- The message a typed receive reads off a plaintext. -/
def decodeControl (plaintext : List UInt8) : Except ConnectionError T := do
  let frame ← liftProtocol (Frame.decode plaintext)
  if frame.messageType ≠ .control then throw .unexpectedMessage
  liftProtocol (frame.decodePayload codec)

namespace SecureConnection

/-- `close`. -/
def close (connection : SecureConnection β) : SecureConnection β :=
  { connection with closed := true }

/-- `send_bytes`. -/
def sendBytes (connection : SecureConnection β) (plaintext : List UInt8) (writable : Bool) :
    Outcome (SecureConnection β) β (Except ConnectionError (List UInt8)) :=
  if connection.closed then ⟨connection, [], .error .closed⟩
  else if plaintext.length > MAX_FRAME_SIZE - 64 then
    ⟨connection, [], .error (.protocol .frameTooLarge)⟩
  else
    match connection.session with
    | none => ⟨connection.close, [], .error .closed⟩
    | some session =>
      let out := sealAndWrite cipher session plaintext writable
      let connection' := { connection with session := some out.state }
      match out.result with
      | .error e => ⟨connection'.close, out.events, .error e⟩
      | .ok bytes => ⟨connection', out.events, .ok bytes⟩

/-- `receive_bytes`. -/
def receiveBytes (connection : SecureConnection β) (input : List UInt8) :
    Outcome (SecureConnection β) β (Except ConnectionError (List UInt8)) :=
  if connection.closed then ⟨connection, [], .error .closed⟩
  else
    match readRecord input, connection.session with
    | .error e, _ => ⟨connection.close, [], .error e⟩
    | .ok _, none => ⟨connection.close, [], .error .closed⟩
    | .ok record, some session =>
      let out := openAndReport cipher session record
      let connection' := { connection with session := some out.state }
      match out.result with
      | .error e => ⟨connection'.close, out.events, .error e⟩
      | .ok plaintext => ⟨connection', out.events, .ok plaintext⟩

/-- `send`. -/
def send (connection : SecureConnection β) (message : T) (writable : Bool) :
    Outcome (SecureConnection β) β (Except ConnectionError (List UInt8)) :=
  match controlFrame codec message with
  | .error e => ⟨connection, [], .error (.protocol e)⟩
  | .ok plaintext => connection.sendBytes cipher plaintext writable

/-- `receive`. -/
def receive (connection : SecureConnection β) (input : List UInt8) :
    Outcome (SecureConnection β) β (Except ConnectionError T) :=
  let out := connection.receiveBytes cipher input
  match out.result >>= decodeControl codec with
  | .error e => ⟨out.state.close, out.events, .error e⟩
  | .ok message => ⟨out.state, out.events, .ok message⟩

/-- `split`: the connection afterwards and the state its halves share. `cloned` says
whether both `try_clone` calls succeed. -/
def split (connection : SecureConnection β) (cloned : Bool) :
    SecureConnection β × Except ConnectionError (DuplexState β) :=
  if connection.closed then (connection, .error .closed)
  else if !cloned then (connection, .error .io)
  else
    match connection.session with
    | none => (connection, .error .closed)
    | some session => (⟨none, true⟩, .ok ⟨session, false⟩)

end SecureConnection

namespace DuplexState

/-- `fail_duplex`, also what dropping either half does. -/
def fail (duplex : DuplexState β) : DuplexState β := { duplex with failed := true }

/-- `SecureWriter::send`. The two halves run at the same time: `early` says that the call
looked at the flag before the other half set it. -/
def writerSend (duplex : DuplexState β) (message : T) (early writable : Bool) :
    Outcome (DuplexState β) β (Except ConnectionError (List UInt8)) :=
  if duplex.failed && !early then ⟨duplex.fail, [], .error .closed⟩
  else
    match controlFrame codec message with
    | .error e => ⟨duplex.fail, [], .error (.protocol e)⟩
    | .ok plaintext =>
      if plaintext.length > MAX_FRAME_SIZE - 64 then
        ⟨duplex.fail, [], .error (.protocol .frameTooLarge)⟩
      else
        let out := sealAndWrite cipher duplex.session plaintext writable
        let duplex' := { duplex with session := out.state }
        match out.result with
        | .error e => ⟨duplex'.fail, out.events, .error e⟩
        | .ok bytes => ⟨duplex', out.events, .ok bytes⟩

/-- `SecureReader::receive`, with `early` as for the writer. -/
def readerReceive (duplex : DuplexState β) (early : Bool) (input : List UInt8) :
    Outcome (DuplexState β) β (Except ConnectionError T) :=
  if duplex.failed && !early then ⟨duplex.fail, [], .error .closed⟩
  else
    match readRecord input with
    | .error e => ⟨duplex.fail, [], .error e⟩
    | .ok record =>
      let out := openAndReport cipher duplex.session record
      let duplex' := { duplex with session := out.state }
      match out.result >>= decodeControl codec with
      | .error e => ⟨duplex'.fail, out.events, .error e⟩
      | .ok message => ⟨duplex', out.events, .ok message⟩

end DuplexState

end Calls

/-! ## The end of a session

One end of an established session is the connection and, once it was split, the state
its halves share. -/

/-- The connection object and the halves made from it. -/
structure EndState (β : Type) where
  connection : SecureConnection β
  halves : Option (DuplexState β)

/-- A call on one end, with what the environment contributes to it. -/
inductive Call : Type 1 where
  /-- `send_bytes`, as the handshake uses it for the Finished messages -/
  | sendBytes (plaintext : List UInt8) (writable : Bool)
  /-- `receive_bytes`, as the handshake uses it -/
  | receiveBytes (input : List UInt8)
  /-- `send` -/
  | send {T : Type} (codec : Postcard T) (message : T) (writable : Bool)
  /-- `receive` -/
  | receive {T : Type} (codec : Postcard T) (input : List UInt8)
  /-- `split` -/
  | split (cloned : Bool)
  /-- `close`, also what dropping the connection does -/
  | close
  /-- `SecureWriter::send` -/
  | writerSend {T : Type} (codec : Postcard T) (message : T) (early writable : Bool)
  /-- `SecureReader::receive` -/
  | readerReceive {T : Type} (codec : Postcard T) (early : Bool) (input : List UInt8)
  /-- dropping one of the halves -/
  | dropHalf

/-- The bytes that reach the end while the call runs. -/
def Call.delivered : Call → List UInt8
  | .receiveBytes input | .receive _ input | .readerReceive _ _ input => input
  | _ => []

namespace EndState

variable {β : Type} (cipher : Aead β (List UInt8))

/-- The record state, wherever it lives now. -/
def session (e : EndState β) : Option (SecureSession β) :=
  match e.halves with
  | some duplex => some duplex.session
  | none => e.connection.session

/-- Run a call on the halves; before a split there are none to call. -/
def onHalves {α : Type} (e : EndState β)
    (f : DuplexState β → Outcome (DuplexState β) β α) : Outcome (EndState β) β Unit :=
  match e.halves with
  | none => ⟨e, [], ()⟩
  | some duplex =>
    let out := f duplex
    ⟨{ e with halves := some out.state }, out.events, ()⟩

/-- Run a call on the connection object. -/
def onConnection {α : Type} (e : EndState β)
    (f : SecureConnection β → Outcome (SecureConnection β) β α) : Outcome (EndState β) β Unit :=
  let out := f e.connection
  ⟨{ e with connection := out.state }, out.events, ()⟩

/-- The effect of a call on the end it is made on. -/
def call (e : EndState β) : Call → Outcome (EndState β) β Unit
  | .sendBytes plaintext writable => e.onConnection (·.sendBytes cipher plaintext writable)
  | .receiveBytes input => e.onConnection (·.receiveBytes cipher input)
  | .send codec message writable => e.onConnection (·.send cipher codec message writable)
  | .receive codec input => e.onConnection (·.receive cipher codec input)
  | .split cloned =>
    match e.connection.split cloned with
    | (connection, .error _) => ⟨{ e with connection }, [], ()⟩
    | (connection, .ok duplex) => ⟨⟨connection, some duplex⟩, [], ()⟩
  | .close => ⟨{ e with connection := e.connection.close }, [], ()⟩
  | .writerSend codec message early writable =>
    e.onHalves (·.writerSend cipher codec message early writable)
  | .readerReceive codec early input => e.onHalves (·.readerReceive cipher codec early input)
  | .dropHalf => e.onHalves fun duplex => ⟨duplex.fail, [], ()⟩

end EndState

end SensorRemote
