import SensorRemote.AuditLog
import SensorRemote.Protocol
import SensorRemote.Rendezvous

/-!
# Signed bytes

The byte strings that the keys of the program sign: those of the handshake (`sensor-protocol`),
of a registration (`sensor-render`), of the exchange with a provisioned relay (`sensor-relay`)
and of an audit record (`sensor-audit`). Each begins with a label of its own, and none
begins another, so a string tells what it is and what was put in it. The one exception is
a registration with a text of 4 GiB, whose length is cut to 32 bits.
-/

namespace SensorRemote

open Bytes

/-! ## The builders -/

/-- A hello as bytes. -/
abbrev ClientHelloBytes := ClientHello (Vector UInt8 32) (List UInt8)

abbrev ServerHelloBytes := ServerHello (Vector UInt8 32) (List UInt8)

/-- `ClientHelloUnsigned`. -/
structure ClientHelloUnsigned where
  version : ℕ
  deviceId : DeviceId
  targetDeviceId : DeviceId
  targetIdentityKey : Vector UInt8 32
  identityPublicKey : Vector UInt8 32
  ephemeralPublicKey : Vector UInt8 32
  nonce : Vector UInt8 32
  deriving DecidableEq

/-- `ServerHelloUnsigned`. -/
structure ServerHelloUnsigned where
  version : ℕ
  deviceId : DeviceId
  identityPublicKey : Vector UInt8 32
  ephemeralPublicKey : Vector UInt8 32
  clientNonce : Vector UInt8 32
  nonce : Vector UInt8 32
  deriving DecidableEq

/-- The fields of a hello less its signature. -/
def ClientHello.unsigned (client : ClientHelloBytes) : ClientHelloUnsigned :=
  ⟨client.version, client.deviceId, client.targetDeviceId, client.targetIdentityKey,
    client.identityPublicKey, client.ephemeralPublicKey, client.nonce⟩

def ServerHello.unsigned (server : ServerHelloBytes) : ServerHelloUnsigned :=
  ⟨server.version, server.deviceId, server.identityPublicKey, server.ephemeralPublicKey,
    server.clientNonce, server.nonce⟩

/-- The serializers of what is signed: `postcard::to_allocvec` and `serde_json::to_vec`. -/
structure SigningCodec where
  clientToVec : ClientHelloUnsigned → Option (List UInt8)
  serverToVec : ServerHelloUnsigned → Option (List UInt8)
  bodyToVec : AuditBody → Option (List UInt8)

namespace SigningCodec

variable (codec : SigningCodec)

/-- `client_signature_bytes`. -/
def clientSignatureBytes (client : ClientHelloBytes) : Option (List UInt8) := do
  let unsigned ← codec.clientToVec client.unsigned
  return utf8 "SENSOR Remote Access/client-hello/v1" ++ unsigned

/-- `server_signature_bytes`. -/
def serverSignatureBytes (client : ClientHelloBytes) (server : ServerHelloBytes) :
    Option (List UInt8) := do
  let clientUnsigned ← codec.clientToVec client.unsigned
  let serverUnsigned ← codec.serverToVec server.unsigned
  return utf8 "SENSOR Remote Access/server-hello/v1" ++ clientUnsigned ++ client.signature ++
    serverUnsigned

/-- `handshake_transcript`. -/
def handshakeTranscript (client : ClientHelloBytes) (server : ServerHelloBytes) :
    Option (List UInt8) := do
  let clientUnsigned ← codec.clientToVec client.unsigned
  let serverUnsigned ← codec.serverToVec server.unsigned
  return utf8 "SENSOR Remote Access/handshake/v1" ++ clientUnsigned ++ client.signature ++
    serverUnsigned ++ server.signature

/-- `signable`. -/
def auditSignable (body : AuditBody) : Option (List UInt8) := do
  let json ← codec.bodyToVec body
  return AUDIT_DOMAIN ++ json

end SigningCodec

/-- A text after its length, `value.len() as u32`. -/
def registrationField (value : String) : List UInt8 := lengthPrefixed 4 (utf8 value)

/-- What a client registers for. -/
def listenText (listen : Bool) : String := if listen then "listen" else "connect"

/-- `registration_bytes`. -/
def registrationBytes (deviceId publicKey nonce : String) (listen : Bool) : List UInt8 :=
  utf8 "SENSOR/Render/register/v2" ++ registrationField deviceId ++ registrationField publicKey ++
    registrationField nonce ++ registrationField (listenText listen)

/-- `challenge_bytes`. -/
def challengeBytes (nonce : Vector UInt8 32) : List UInt8 :=
  utf8 "SENSOR/relay/challenge/v1" ++ nonce.toList

/-- `response_bytes`. -/
def responseBytes (challenge : List UInt8) (key : Vector UInt8 32) : List UInt8 :=
  utf8 "SENSOR/relay/join/v1" ++ challenge ++ key.toList

/-! ## What is signed -/

/-- The builders of signed bytes. -/
inductive Builder where
  | clientHello
  | serverHello
  | handshake
  | registration
  | challenge
  | response
  | auditBody
  deriving DecidableEq

/-- The label that the strings of a builder begin with. -/
def Builder.label : Builder → List UInt8
  | .clientHello => utf8 "SENSOR Remote Access/client-hello/v1"
  | .serverHello => utf8 "SENSOR Remote Access/server-hello/v1"
  | .handshake => utf8 "SENSOR Remote Access/handshake/v1"
  | .registration => utf8 "SENSOR/Render/register/v2"
  | .challenge => utf8 "SENSOR/relay/challenge/v1"
  | .response => utf8 "SENSOR/relay/join/v1"
  | .auditBody => AUDIT_DOMAIN

/-- What the builders are called with. -/
inductive SignedText where
  | clientHello (client : ClientHelloBytes)
  | serverHello (client : ClientHelloBytes) (server : ServerHelloBytes)
  | handshake (client : ClientHelloBytes) (server : ServerHelloBytes)
  | registration (deviceId publicKey nonce : String) (listen : Bool)
  | challenge (nonce : Vector UInt8 32)
  | response (challenge : List UInt8) (key : Vector UInt8 32)
  | auditBody (body : AuditBody)

namespace SignedText

/-- The byte string. -/
def bytes (codec : SigningCodec) : SignedText → Option (List UInt8)
  | .clientHello client => codec.clientSignatureBytes client
  | .serverHello client server => codec.serverSignatureBytes client server
  | .handshake client server => codec.handshakeTranscript client server
  | .registration deviceId publicKey nonce listen =>
    some (registrationBytes deviceId publicKey nonce listen)
  | .challenge nonce => some (challengeBytes nonce)
  | .response issued key => some (responseBytes issued key)
  | .auditBody body => codec.auditSignable body

/-- The fields a byte string covers: a signature does not cover itself. -/
def covered : SignedText → SignedText
  | .clientHello client => .clientHello { client with signature := [] }
  | .serverHello client server => .serverHello client { server with signature := [] }
  | text => text

/-- Signatures that are already made have 64 bytes. -/
def Signed : SignedText → Prop
  | .serverHello client _ => client.signature.length = 64
  | .handshake client server => client.signature.length = 64 ∧ server.signature.length = 64
  | _ => True

/-- The texts of a registration are shorter than 4 GiB. -/
def Short : SignedText → Prop
  | .registration deviceId publicKey nonce _ =>
    (utf8 deviceId).length < 2 ^ 32 ∧ (utf8 publicKey).length < 2 ^ 32 ∧
      (utf8 nonce).length < 2 ^ 32
  | _ => True

/-- The builder of a byte string. -/
def builder : SignedText → Builder
  | .clientHello _ => .clientHello
  | .serverHello _ _ => .serverHello
  | .handshake _ _ => .handshake
  | .registration _ _ _ _ => .registration
  | .challenge _ => .challenge
  | .response _ _ => .response
  | .auditBody _ => .auditBody

end SignedText

/-! ## Labels -/

/-- No label begins another. -/
theorem Builder.label_extends {builder builder' : Builder}
    (h : builder.label <+: builder'.label) : builder = builder' := by
  revert h
  cases builder <;> cases builder' <;> decide +kernel

/-- A string begins with the label of one builder at most. -/
theorem Builder.label_unique {builder builder' : Builder} {bytes : List UInt8}
    (h : builder.label <+: bytes) (h' : builder'.label <+: bytes) : builder = builder' := by
  rcases List.prefix_or_prefix_of_prefix h h' with hless | hless
  · exact label_extends hless
  · exact (label_extends hless).symm

section Covered

variable {codec : SigningCodec} {client client' : ClientHelloBytes}
  {server server' : ServerHelloBytes} {bytes : List UInt8}

theorem clientSignatureBytes_eq_some : codec.clientSignatureBytes client = some bytes ↔
    ∃ unsigned, codec.clientToVec client.unsigned = some unsigned ∧
      Builder.clientHello.label ++ unsigned = bytes := by
  simp [SigningCodec.clientSignatureBytes, Option.bind_eq_some_iff, Builder.label]

theorem serverSignatureBytes_eq_some : codec.serverSignatureBytes client server = some bytes ↔
    ∃ clientUnsigned serverUnsigned, codec.clientToVec client.unsigned = some clientUnsigned ∧
      codec.serverToVec server.unsigned = some serverUnsigned ∧
      Builder.serverHello.label ++ (clientUnsigned ++ (client.signature ++ serverUnsigned)) =
        bytes := by
  simp [SigningCodec.serverSignatureBytes, Option.bind_eq_some_iff, Builder.label]

theorem handshakeTranscript_eq_some : codec.handshakeTranscript client server = some bytes ↔
    ∃ clientUnsigned serverUnsigned, codec.clientToVec client.unsigned = some clientUnsigned ∧
      codec.serverToVec server.unsigned = some serverUnsigned ∧
      Builder.handshake.label ++ (clientUnsigned ++ (client.signature ++ (serverUnsigned ++
        server.signature))) = bytes := by
  simp [SigningCodec.handshakeTranscript, Option.bind_eq_some_iff, Builder.label]

theorem auditSignable_eq_some {body : AuditBody} : codec.auditSignable body = some bytes ↔
    ∃ json, codec.bodyToVec body = some json ∧ Builder.auditBody.label ++ json = bytes := by
  simp [SigningCodec.auditSignable, Option.bind_eq_some_iff, Builder.label]

theorem registrationBytes_eq (deviceId publicKey nonce : String) (listen : Bool) :
    registrationBytes deviceId publicKey nonce listen = Builder.registration.label ++
      (registrationField deviceId ++ (registrationField publicKey ++ (registrationField nonce ++
        registrationField (listenText listen)))) := by
  simp [registrationBytes, Builder.label]

end Covered

/-- A byte string begins with the label of its builder. -/
theorem SignedText.label_extends {codec : SigningCodec} {text : SignedText} {bytes : List UInt8}
    (h : text.bytes codec = some bytes) : text.builder.label <+: bytes := by
  cases text with
  | clientHello client =>
    obtain ⟨unsigned, -, rfl⟩ := clientSignatureBytes_eq_some.mp h
    exact List.prefix_append _ _
  | serverHello client server =>
    obtain ⟨clientUnsigned, serverUnsigned, -, -, rfl⟩ := serverSignatureBytes_eq_some.mp h
    exact List.prefix_append _ _
  | handshake client server =>
    obtain ⟨clientUnsigned, serverUnsigned, -, -, rfl⟩ := handshakeTranscript_eq_some.mp h
    exact List.prefix_append _ _
  | registration deviceId publicKey nonce listen =>
    obtain rfl := Option.some.inj h
    rw [registrationBytes_eq]
    exact List.prefix_append _ _
  | challenge nonce =>
    obtain rfl := Option.some.inj h
    exact List.prefix_append _ _
  | response challenge key =>
    obtain rfl := Option.some.inj h
    rw [responseBytes, List.append_assoc]
    exact List.prefix_append _ _
  | auditBody body =>
    obtain ⟨json, -, rfl⟩ := auditSignable_eq_some.mp h
    exact List.prefix_append _ _

/-! ## Fields -/

theorem ClientHello.ext_unsigned {client client' : ClientHelloBytes}
    (h : client.unsigned = client'.unsigned) (hsignature : client.signature = client'.signature) :
    client = client' := by
  cases client
  cases client'
  simp_all [unsigned]

theorem ServerHello.ext_unsigned {server server' : ServerHelloBytes}
    (h : server.unsigned = server'.unsigned) (hsignature : server.signature = server'.signature) :
    server = server' := by
  cases server
  cases server'
  simp_all [unsigned]

/-- The end of a field can be told. -/
theorem registrationField_split {value value' : String} {rest rest' : List UInt8}
    (h : (utf8 value).length < 2 ^ 32) (h' : (utf8 value').length < 2 ^ 32)
    (heq : registrationField value ++ rest = registrationField value' ++ rest') :
    value = value' ∧ rest = rest' := by
  obtain ⟨hvalue, hrest⟩ := lengthPrefixed_split (by simpa using h) (by simpa using h') heq
  exact ⟨utf8_injective hvalue, hrest⟩

theorem listenText_injective {listen listen' : Bool}
    (h : registrationField (listenText listen) = registrationField (listenText listen')) :
    listen = listen' := by
  revert h
  cases listen <;> cases listen' <;> decide +kernel

/-- What the proof relies on in the serializers. -/
structure SigningCodec.Laws (codec : SigningCodec) : Prop where
  client : Delimited codec.clientToVec
  server : Delimited codec.serverToVec
  body : Delimited codec.bodyToVec

/-- Strings of one builder cover the same fields. -/
theorem SignedText.covered_eq {codec : SigningCodec} (laws : codec.Laws) {text text' : SignedText}
    {bytes : List UInt8} (hbuilder : text.builder = text'.builder) (hsigned : text.Signed)
    (hsigned' : text'.Signed) (hshort : text.Short) (hshort' : text'.Short)
    (h : text.bytes codec = some bytes) (h' : text'.bytes codec = some bytes) :
    text.covered = text'.covered := by
  cases text <;> cases text' <;> try cases hbuilder
  case clientHello.clientHello client client' =>
    obtain ⟨unsigned, hunsigned, rfl⟩ := clientSignatureBytes_eq_some.mp h
    obtain ⟨unsigned', hunsigned', heq⟩ := clientSignatureBytes_eq_some.mp h'
    obtain rfl := List.append_cancel_left heq
    have hclient := laws.client.injective hunsigned hunsigned'
    exact congrArg SignedText.clientHello (ClientHello.ext_unsigned hclient rfl)
  case serverHello.serverHello client server client' server' =>
    obtain ⟨cu, su, hcu, hsu, rfl⟩ := serverSignatureBytes_eq_some.mp h
    obtain ⟨cu', su', hcu', hsu', heq⟩ := serverSignatureBytes_eq_some.mp h'
    -- the client's hello ends where its code does, its signature where sixty-four bytes do
    obtain ⟨hclient, hrest⟩ := laws.client.split hcu hcu' (List.append_cancel_left heq).symm
    obtain ⟨hsignature, rfl⟩ := List.append_inj hrest (hsigned.trans hsigned'.symm)
    obtain rfl := ClientHello.ext_unsigned hclient hsignature
    have hserver := laws.server.injective hsu hsu'
    exact congrArg (SignedText.serverHello client) (ServerHello.ext_unsigned hserver rfl)
  case handshake.handshake client server client' server' =>
    obtain ⟨cu, su, hcu, hsu, rfl⟩ := handshakeTranscript_eq_some.mp h
    obtain ⟨cu', su', hcu', hsu', heq⟩ := handshakeTranscript_eq_some.mp h'
    obtain ⟨hclient, hrest⟩ := laws.client.split hcu hcu' (List.append_cancel_left heq).symm
    obtain ⟨hsignature, htail⟩ := List.append_inj hrest (hsigned.1.trans hsigned'.1.symm)
    obtain rfl := ClientHello.ext_unsigned hclient hsignature
    obtain ⟨hserver, hlast⟩ := laws.server.split hsu hsu' htail
    exact congrArg (SignedText.handshake client) (ServerHello.ext_unsigned hserver hlast)
  case registration.registration deviceId publicKey nonce listen deviceId' publicKey' nonce'
      listen' =>
    have heq := Option.some.inj (h.trans h'.symm)
    rw [registrationBytes_eq, registrationBytes_eq] at heq
    obtain ⟨rfl, hkeys⟩ := registrationField_split hshort.1 hshort'.1 (List.append_cancel_left heq)
    obtain ⟨rfl, hnonces⟩ := registrationField_split hshort.2.1 hshort'.2.1 hkeys
    obtain ⟨rfl, hlisten⟩ := registrationField_split hshort.2.2 hshort'.2.2 hnonces
    rw [listenText_injective hlisten]
  case challenge.challenge nonce nonce' =>
    have heq := List.append_cancel_left (Option.some.inj (h.trans h'.symm))
    rw [Vector.toList_inj.mp heq]
  case response.response issued key issued' key' =>
    have heq := Option.some.inj (h.trans h'.symm)
    rw [responseBytes, responseBytes, List.append_assoc, List.append_assoc] at heq
    obtain ⟨rfl, hkey⟩ := List.append_inj' (List.append_cancel_left heq) (by simp)
    rw [Vector.toList_inj.mp hkey]
  case auditBody.auditBody body body' =>
    obtain ⟨json, hjson, rfl⟩ := auditSignable_eq_some.mp h
    obtain ⟨json', hjson', heq⟩ := auditSignable_eq_some.mp h'
    obtain rfl := List.append_cancel_left heq
    rw [laws.body.injective hjson hjson']

/-- The pieces of a handshake string, as the model of the handshake has them. -/
def SignedText.pieces : SignedText → Option (List (Piece (Vector UInt8 32) (List UInt8)))
  | .clientHello client => some (clientSignatureBytes client)
  | .serverHello client server => some (serverSignatureBytes client server)
  | .handshake client server => some (handshakeTranscript client server)
  | _ => none

theorem SignedText.pieces_covered (text : SignedText) : text.covered.pieces = text.pieces := by
  cases text <;> rfl

/-- Handshake strings with the same bytes have the same pieces, so the pieces may stand for the
bytes. -/
theorem SignedText.pieces_eq {codec : SigningCodec} (laws : codec.Laws) {text text' : SignedText}
    {bytes : List UInt8} (hbuilder : text.builder = text'.builder) (hsigned : text.Signed)
    (hsigned' : text'.Signed) (hshort : text.Short) (hshort' : text'.Short)
    (h : text.bytes codec = some bytes) (h' : text'.bytes codec = some bytes) :
    text.pieces = text'.pieces := by
  have hcovered := covered_eq laws hbuilder hsigned hsigned' hshort hshort' h h'
  rw [← pieces_covered text, hcovered, pieces_covered]

/-! ## What the program registers -/

/-- The most bytes of a control message. -/
def MAX_CONTROL_BYTES : ℕ := 16 * 1024

theorem length_encodeHex_le (bytes : List UInt8) :
    (utf8 (encodeHex bytes)).length ≤ 8 * bytes.length := by
  apply (length_utf8_ofList_le _).trans
  rw [List.length_flatMap]
  simp
  omega

theorem length_display_le (id : DeviceId) : (utf8 id.display).length ≤ 44 := by
  apply (length_utf8_ofList_le _).trans
  simp only [List.length_append, List.length_take, List.length_singleton]
  omega

/-- A registration is signed and verified over short texts: the nonce comes in a control message,
and what goes with it is computed from the identity. -/
theorem registration_short (id : DeviceId) (publicKey : PublicKey) {nonce : String} (listen : Bool)
    (h : (utf8 nonce).length ≤ MAX_CONTROL_BYTES) :
    (SignedText.registration id.display publicKey.toHex nonce listen).Short := by
  have hid := length_display_le id
  have hkey := length_encodeHex_le publicKey.toList
  rw [Vector.length_toList] at hkey
  simp only [MAX_CONTROL_BYTES] at h
  refine ⟨by omega, ?_, by omega⟩
  rw [PublicKey.toHex]
  omega

/-! ## The result -/

/-- **Signed bytes are unambiguous.** A byte string comes from one builder only, and with the texts
of registrations shorter than 4 GiB it determines every field it covers. So a signature is
accepted for what was signed and for nothing else. For the strings of the handshake it determines
the pieces they are signed as there. The registrations of the program are short. -/
theorem signed_bytes_unambiguous {codec : SigningCodec} (laws : codec.Laws) :
    (∀ (text text' : SignedText) bytes, text.bytes codec = some bytes →
      text'.bytes codec = some bytes → text.builder = text'.builder) ∧
    (∀ (text text' : SignedText) bytes, text.Signed → text'.Signed → text.Short → text'.Short →
      text.bytes codec = some bytes → text'.bytes codec = some bytes →
      text.covered = text'.covered ∧ text.pieces = text'.pieces) ∧
    (∀ (made : Set SignedText) (accepts : List UInt8 → Prop),
      (∀ text ∈ made, text.Signed ∧ text.Short) →
      (∀ bytes, accepts bytes → ∃ text ∈ made, text.bytes codec = some bytes) →
      ∀ (text : SignedText) bytes, text.Signed → text.Short → text.bytes codec = some bytes →
        accepts bytes →
        ∃ signed ∈ made, signed.builder = text.builder ∧ signed.covered = text.covered) ∧
    ∀ (id : DeviceId) (publicKey : PublicKey) nonce listen,
      (utf8 nonce).length ≤ MAX_CONTROL_BYTES →
        (SignedText.registration id.display publicKey.toHex nonce listen).Short := by
  have hbuilder : ∀ (text text' : SignedText) bytes, text.bytes codec = some bytes →
      text'.bytes codec = some bytes → text.builder = text'.builder := by
    intro text text' bytes h h'
    exact Builder.label_unique (SignedText.label_extends h) (SignedText.label_extends h')
  refine ⟨hbuilder, ?_, ?_, fun id publicKey nonce listen =>
    registration_short id publicKey listen⟩
  · intro text text' bytes hsigned hsigned' hshort hshort' h h'
    have hsame := hbuilder text text' bytes h h'
    exact ⟨SignedText.covered_eq laws hsame hsigned hsigned' hshort hshort' h h',
      SignedText.pieces_eq laws hsame hsigned hsigned' hshort hshort' h h'⟩
  · intro made accepts hmade haccepts text bytes hsigned hshort h haccepted
    obtain ⟨signed, hmem, hbytes⟩ := haccepts bytes haccepted
    obtain ⟨hsigned', hshort'⟩ := hmade signed hmem
    have hsame := hbuilder signed text bytes hbytes h
    exact ⟨signed, hmem, hsame,
      SignedText.covered_eq laws hsame hsigned' hsigned hshort' hshort hbytes h⟩

namespace FirstHellos

/-! A caller and its answer. -/

def client : ClientHelloBytes where
  version := 2
  deviceId := ⟨123456789, DeviceId.ascending_inRange⟩
  targetDeviceId := ⟨987654321, DeviceId.descending_inRange⟩
  targetIdentityKey := Vector.replicate 32 1
  identityPublicKey := Vector.replicate 32 2
  ephemeralPublicKey := Vector.replicate 32 3
  nonce := Vector.replicate 32 4
  signature := List.replicate 64 5

def server : ServerHelloBytes where
  version := 2
  deviceId := ⟨987654321, DeviceId.descending_inRange⟩
  identityPublicKey := Vector.replicate 32 1
  ephemeralPublicKey := Vector.replicate 32 6
  clientNonce := Vector.replicate 32 4
  nonce := Vector.replicate 32 7
  signature := []

/-- The serializers, as far as these hellos need them. -/
def codec : SigningCodec where
  clientToVec unsigned :=
    if unsigned = ClientHello.unsigned client then
      some ([2, 149, 154, 239, 58, 177, 209, 249, 214, 3] ++ List.replicate 32 1 ++
        List.replicate 32 2 ++ List.replicate 32 3 ++ List.replicate 32 4)
    else none
  serverToVec unsigned :=
    if unsigned = ServerHello.unsigned server then
      some ([2, 177, 209, 249, 214, 3] ++ List.replicate 32 1 ++ List.replicate 32 6 ++
        List.replicate 32 4 ++ List.replicate 32 7)
    else none
  bodyToVec _ := none

theorem laws : codec.Laws where
  client := by
    intro a a' code code' _ _ h h' _
    simp only [codec, Option.ite_none_right_eq_some] at h h'
    rw [h.1, h'.1]
  server := by
    intro a a' code code' _ _ h h' _
    simp only [codec, Option.ite_none_right_eq_some] at h h'
    rw [h.1, h'.1]
  body := by
    intro a a' code code' _ _ h
    cases h

/-- The caller's signature is over another string than the answer's. -/
theorem told_apart : ∃ bytes bytes', codec.clientSignatureBytes client = some bytes ∧
    codec.serverSignatureBytes client server = some bytes' ∧ bytes ≠ bytes' := by
  refine ⟨_, _, rfl, rfl, fun heq => ?_⟩
  have hbuilder := (signed_bytes_unambiguous laws).1 (.clientHello client)
    (.serverHello client server) _ rfl (congrArg some heq.symm)
  cases hbuilder

end FirstHellos

namespace LongRegistration

/-! A text of 4 GiB of zeros has the length zero in 32 bits. -/

/-- A text of zeros. -/
def nuls (n : ℕ) : String := String.ofList (List.replicate n (Char.ofNat 0))

theorem utf8_nuls (n : ℕ) : utf8 (nuls n) = List.replicate n 0 := by
  rw [nuls, utf8_ofList]
  induction n with
  | zero => rfl
  | succ n ih =>
    rw [List.replicate_succ, List.flatMap_cons, ih]
    rfl

theorem nuls_ne {n : ℕ} (h : 0 < n) : nuls n ≠ "" := by
  intro hempty
  have hlength := congrArg (fun text => (utf8 text).length) hempty
  simp only [utf8_nuls, List.length_replicate] at hlength
  exact h.ne' hlength

/-- Such a text and an empty one can change places. -/
theorem swapped {n : ℕ} (hn : beBytes 4 n = List.replicate 4 0) (listen : Bool) :
    registrationBytes (nuls n) "" "" listen = registrationBytes "" (nuls n) "" listen := by
  have hempty : registrationField "" = List.replicate 4 0 := by decide +kernel
  have hlong : registrationField (nuls n) = List.replicate (4 + n) 0 := by
    rw [registrationField, lengthPrefixed, utf8_nuls, List.length_replicate, hn,
      List.replicate_append_replicate]
  simp only [registrationBytes, hempty, hlong, List.append_assoc]
  rw [← List.append_assoc (List.replicate (4 + n) 0), ← List.append_assoc (List.replicate 4 0),
    List.replicate_append_replicate, List.replicate_append_replicate, Nat.add_comm]

/-- Two registrations with the same bytes. -/
theorem ambiguous : registrationBytes (nuls (2 ^ 32)) "" "" true =
    registrationBytes "" (nuls (2 ^ 32)) "" true ∧ nuls (2 ^ 32) ≠ "" :=
  ⟨swapped (by decide +kernel) true, nuls_ne (by decide)⟩

end LongRegistration

end SensorRemote
