import SensorRemote.Protocol

/-!
# Session keys and the record channel

What `sensor-crypto` composes from third-party primitives. The primitives are
parameters: signatures, X25519, SHA-256 and HKDF (`Primitives`), and the
authenticated cipher (`Aead`), which seals under a key, a nonce and associated data
and opens under the same three.

`deriveSessionKeys` makes one key for each direction from a shared secret and the
transcript. `SecureChannel` numbers the records of each direction from zero and
feeds the number to the cipher as the nonce.
-/

namespace SensorRemote

open Bytes

/-- `CryptoError`. -/
inductive CryptoError where
  | invalidPublicKey
  | invalidSignature
  | invalidPeerKey
  | signatureVerification
  | keyDerivation
  | encryption
  | replay (sequence : ℕ)
  | sequenceOverflow
  deriving DecidableEq, Repr

/-! ## Primitives and key derivation -/

/-- The primitives, over 32-byte values `β` (public keys, nonces, digests, secrets),
signatures `σ`, identity key pairs `ι` and ephemeral key pairs `ε`. -/
structure Primitives (β σ ι ε : Type) where
  /-- thirty-two zero bytes -/
  zero : β
  /-- `Vec::new()`, what stands in a hello before it is signed -/
  noSignature : σ
  /-- `IdentityKeypair::public_key` -/
  publicKey : ι → β
  /-- `IdentityKeypair::sign` -/
  sign : ι → List (Piece β σ) → σ
  /-- `IdentityKeypair::verify` -/
  verify : β → List (Piece β σ) → σ → Except CryptoError Unit
  /-- `EphemeralKeypair::public_key` -/
  ephemeralPublic : ε → β
  /-- `EphemeralKeypair::diffie_hellman` -/
  diffieHellman : ε → β → Except CryptoError β
  /-- SHA-256 -/
  sha256 : List (Piece β σ) → β
  /-- `Hkdf::new` with a salt and keying material -/
  extract : (salt ikm : β) → β
  /-- `Hkdf::expand` to 32 bytes -/
  expand : β → String → Except CryptoError β

/-- `SessionKeys`: one key for each direction. -/
structure SessionKeys (β : Type) where
  initiatorToResponder : β
  responderToInitiator : β
  deriving DecidableEq

section Derivation

variable {β σ ι ε : Type} (p : Primitives β σ ι ε)

/-- `transcript_hash`. -/
def transcriptHash (transcript : List (Piece β σ)) : β := p.sha256 transcript

/-- `derive_session_keys`. -/
def deriveSessionKeys (sharedSecret : β) (transcript : List (Piece β σ)) :
    Except CryptoError (SessionKeys β) := do
  let hkdf := p.extract (transcriptHash p transcript) sharedSecret
  let sessionPrk ← p.expand hkdf "SENSOR Remote Access/session/v1"
  let initiatorToResponder ← p.expand sessionPrk "SENSOR Remote Access/session/v1/i2r"
  let responderToInitiator ← p.expand sessionPrk "SENSOR Remote Access/session/v1/r2i"
  return ⟨initiatorToResponder, responderToInitiator⟩

end Derivation

/-! ## The channel -/

/-- The authenticated cipher the channel is built on. -/
structure Aead (Key Ciphertext : Type) where
  /-- seal a plaintext under a key, a nonce and associated data -/
  encrypt : Key → (nonce aad plaintext : List UInt8) → Except CryptoError Ciphertext
  /-- open a ciphertext under a key, a nonce and associated data -/
  decrypt : Key → (nonce aad : List UInt8) → Ciphertext → Except CryptoError (List UInt8)

/-- `make_nonce`: the four bytes `SNR1` and the sequence number. -/
def makeNonce (sequence : ℕ) : List UInt8 := [0x53, 0x4E, 0x52, 0x31] ++ beBytes 8 sequence

/-- Sequence numbers of 64 bits have different nonces. -/
theorem makeNonce_inj {m n : ℕ} (hm : m < 2 ^ 64) (hn : n < 2 ^ 64)
    (h : makeNonce m = makeNonce n) : m = n :=
  beBytes_inj (w := 8) (by omega) (by omega) (List.append_cancel_left h)

/-- `EncryptedRecord`. -/
structure EncryptedRecord (Ciphertext : Type) where
  /-- the number of the record in its direction -/
  sequence : ℕ
  /-- what the cipher made of the plaintext -/
  ciphertext : Ciphertext
  deriving DecidableEq

/-- `SecureChannel`: the key and the counter of each direction. -/
structure SecureChannel (Key : Type) where
  /-- the key records are sealed under -/
  send : Key
  /-- the key records are opened under -/
  receive : Key
  /-- the number of the next record to seal -/
  nextSendSequence : ℕ
  /-- the number of the last record opened -/
  highestReceived : Option ℕ

namespace SecureChannel

variable {Key Ciphertext : Type} (cipher : Aead Key Ciphertext)

/-- `SecureChannel::initiator`. -/
def initiator (keys : SessionKeys Key) : SecureChannel Key where
  send := keys.initiatorToResponder
  receive := keys.responderToInitiator
  nextSendSequence := 0
  highestReceived := none

/-- `SecureChannel::responder`. -/
def responder (keys : SessionKeys Key) : SecureChannel Key where
  send := keys.responderToInitiator
  receive := keys.initiatorToResponder
  nextSendSequence := 0
  highestReceived := none

/-- `SecureChannel::seal`: the channel afterwards and the record. A number is used up
before the cipher runs, so a cipher that fails burns it. -/
def sealRecord (channel : SecureChannel Key) (aad plaintext : List UInt8) :
    SecureChannel Key × Except CryptoError (EncryptedRecord Ciphertext) :=
  match checkedAdd 64 channel.nextSendSequence 1 with
  | none => (channel, .error .sequenceOverflow)
  | some next =>
    ({ channel with nextSendSequence := next },
      (cipher.encrypt channel.send (makeNonce channel.nextSendSequence) aad plaintext).map
        fun ciphertext => ⟨channel.nextSendSequence, ciphertext⟩)

/-- The number `open` insists on: zero, then one more than the last record opened. -/
def expected (channel : SecureChannel Key) : Option ℕ :=
  match channel.highestReceived with
  | none => some 0
  | some value => checkedAdd 64 value 1

/-- `SecureChannel::open`: the channel afterwards and the plaintext. -/
def openRecord (channel : SecureChannel Key) (record : EncryptedRecord Ciphertext)
    (aad : List UInt8) : SecureChannel Key × Except CryptoError (List UInt8) :=
  match channel.expected with
  | none => (channel, .error .sequenceOverflow)
  | some expected =>
    if record.sequence ≠ expected then (channel, .error (.replay record.sequence))
    else
      match cipher.decrypt channel.receive (makeNonce record.sequence) aad record.ciphertext with
      | .error e => (channel, .error e)
      | .ok plaintext =>
        ({ channel with highestReceived := some record.sequence }, .ok plaintext)

variable {cipher}

/-- What sealing can do: refuse at the end of the counter, burn a number, or make
the record of the next number. -/
theorem sealRecord_cases {channel channel' : SecureChannel Key} {aad plaintext : List UInt8}
    {result : Except CryptoError (EncryptedRecord Ciphertext)}
    (h : channel.sealRecord cipher aad plaintext = (channel', result)) :
    (channel' = channel ∧ result = .error .sequenceOverflow ∧
      2 ^ 64 ≤ channel.nextSendSequence + 1) ∨
    (channel' = { channel with nextSendSequence := channel.nextSendSequence + 1 } ∧
      channel.nextSendSequence + 1 < 2 ^ 64 ∧
      ((∃ e, result = .error e) ∨
        ∃ ciphertext, result = .ok ⟨channel.nextSendSequence, ciphertext⟩ ∧
          cipher.encrypt channel.send (makeNonce channel.nextSendSequence) aad plaintext =
            .ok ciphertext)) := by
  simp only [sealRecord] at h
  rcases hnext : checkedAdd 64 channel.nextSendSequence 1 with _ | next
  · rw [hnext] at h
    obtain ⟨rfl, rfl⟩ := Prod.mk.inj h
    exact .inl ⟨rfl, rfl, checkedAdd_eq_none.mp hnext⟩
  · rw [hnext] at h
    obtain ⟨rfl, rfl⟩ := Prod.mk.inj h
    obtain ⟨hlt, rfl⟩ := checkedAdd_eq_some.mp hnext
    refine .inr ⟨rfl, hlt, ?_⟩
    rcases henc : cipher.encrypt channel.send (makeNonce channel.nextSendSequence) aad plaintext
      with e | ciphertext
    · exact .inl ⟨e, rfl⟩
    · exact .inr ⟨ciphertext, rfl, rfl⟩

/-- What opening can do: leave the channel as it is, or accept exactly the record
whose number is due. -/
theorem openRecord_cases {channel channel' : SecureChannel Key}
    {record : EncryptedRecord Ciphertext} {aad : List UInt8}
    {result : Except CryptoError (List UInt8)}
    (h : channel.openRecord cipher record aad = (channel', result)) :
    (channel' = channel ∧ ∃ e, result = .error e) ∨
    (∃ plaintext, result = .ok plaintext ∧ channel.expected = some record.sequence ∧
      channel' = { channel with highestReceived := some record.sequence } ∧
      cipher.decrypt channel.receive (makeNonce record.sequence) aad record.ciphertext =
        .ok plaintext) := by
  simp only [openRecord] at h
  rcases hexp : channel.expected with _ | expected
  · rw [hexp] at h
    obtain ⟨rfl, rfl⟩ := Prod.mk.inj h
    exact .inl ⟨rfl, _, rfl⟩
  · simp only [hexp] at h
    by_cases hseq : record.sequence ≠ expected
    · rw [if_pos hseq] at h
      obtain ⟨rfl, rfl⟩ := Prod.mk.inj h
      exact .inl ⟨rfl, _, rfl⟩
    · rw [if_neg hseq] at h
      rcases hdec : cipher.decrypt channel.receive (makeNonce record.sequence) aad
        record.ciphertext with e | plaintext
      · rw [hdec] at h
        obtain ⟨rfl, rfl⟩ := Prod.mk.inj h
        exact .inl ⟨rfl, _, rfl⟩
      · rw [hdec] at h
        obtain ⟨rfl, rfl⟩ := Prod.mk.inj h
        exact .inr ⟨plaintext, rfl, by rw [not_not.mp hseq], rfl, rfl⟩

end SecureChannel

/-! ## Roles -/

/-- The two roles of a session. -/
inductive Role where
  | initiator
  | responder
  deriving DecidableEq, Repr

namespace Role

/-- The other role. -/
def other : Role → Role
  | initiator => responder
  | responder => initiator

@[simp] theorem other_other (role : Role) : role.other.other = role := by cases role <;> rfl

@[simp] theorem other_ne (role : Role) : role.other ≠ role := by cases role <;> simp [other]

/-- Everything is one's own or the other's. -/
theorem eq_or_eq_other (role role' : Role) : role' = role ∨ role' = role.other := by
  cases role <;> cases role' <;> simp [other]

/-- The key a role seals under. -/
def sealKey {β : Type} (keys : SessionKeys β) : Role → β
  | initiator => keys.initiatorToResponder
  | responder => keys.responderToInitiator

/-- The channel a role starts with. -/
def channel {β : Type} (keys : SessionKeys β) : Role → SecureChannel β
  | initiator => .initiator keys
  | responder => .responder keys

end Role

end SensorRemote
