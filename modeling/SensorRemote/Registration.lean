import SensorRemote.IdentityInput
import SensorRemote.SignedBytes

/-!
# Registration

A client registers with the rendezvous server by signing its identifier, its key, the challenge
of the connection and its role (`register` of `sensor-render`), and the server verifies that
(`verify_registration`, and `register` of `sensor-rendezvous`). The message carries the four as
texts. The client signs them as it renders them; the server parses them, renders them again and
verifies over its own rendering, so that a signature is one of what the texts denote.
-/

namespace SensorRemote

open Bytes

/-- Ed25519 as `IdentityKeypair` has it, over bytes. -/
structure SignatureScheme (ι : Type) where
  /-- `IdentityKeypair::public_key` -/
  publicKey : ι → PublicKey
  /-- `IdentityKeypair::sign` -/
  sign : ι → List UInt8 → List UInt8
  /-- `IdentityKeypair::verify` -/
  verify : PublicKey → List UInt8 → List UInt8 → Except CryptoError Unit

/-- What an honest client relies on: signatures are of 64 bytes and verify. -/
structure SignatureScheme.Laws {ι : Type} (scheme : SignatureScheme ι) : Prop where
  length_sign : ∀ keypair message, (scheme.sign keypair message).length = 64
  verify_sign : ∀ keypair message, scheme.verify (scheme.publicKey keypair) message
    (scheme.sign keypair message) = .ok ()

/-- `DeviceIdentity`, as far as it is registered. -/
structure DeviceIdentity (ι : Type) where
  deviceId : DeviceId
  keypair : ι

/-- `ControlMessage::Register`. -/
structure RegisterMessage where
  deviceId : String
  publicKey : String
  nonce : String
  signature : String
  listen : Bool
  deriving DecidableEq

/-- `Display` of a render error. -/
def RenderError.display : RenderError → String
  | .url message => "Render URL is invalid: " ++ message
  | .rejected message => "Render service rejected the connection: " ++ message
  | .unexpectedMessage => "Render service returned an unexpected message"
  | .timeout => "Render operation timed out"

section Registration

variable {ι : Type} (scheme : SignatureScheme ι)

/-- `register` of the client: what it answers to the challenge of the server. -/
def registerMessage (identity : DeviceIdentity ι) (nonceHex : String) (listen : Bool) :
    Except RenderError RegisterMessage := do
  let _ ← decodeHex 32 nonceHex
  let deviceId := identity.deviceId.display
  let publicKey := (scheme.publicKey identity.keypair).toHex
  let signature := scheme.sign identity.keypair
    (registrationBytes deviceId publicKey nonceHex listen)
  return { deviceId, publicKey, nonce := nonceHex, signature := encodeHex signature, listen }

/-- `verify_registration`. -/
def verifyRegistration (deviceId publicKey nonce signature : String) (listen : Bool) :
    Except RenderError DeviceId :=
  match parseU32 (stripped deviceId) with
  | none => .error (.rejected "invalid device ID")
  | some value =>
    match DeviceId.new value with
    | none => .error (.rejected "invalid device ID")
    | some deviceId => do
      let publicKey ← decodeHex 32 publicKey
      let nonce ← decodeHexVariable nonce
      if nonce.length ≠ 32 then throw (.rejected "invalid registration nonce")
      let signature ← decodeHexVariable signature
      match scheme.verify publicKey
          (registrationBytes deviceId.display (PublicKey.toHex publicKey) (encodeHex nonce) listen)
          signature with
      | .error _ => throw (.rejected "device signature verification failed")
      | .ok () => return deviceId

/-- `register` of the server, up to the directory: the device and the key it registers. -/
def checkRegistration (challenge : Vector UInt8 32) (message : RegisterMessage) :
    Except String (DeviceId × PublicKey) := do
  if message.nonce ≠ encodeHex challenge.toList then
    throw "registration challenge does not match this connection"
  let parsedId ← (verifyRegistration scheme message.deviceId message.publicKey message.nonce
    message.signature message.listen).mapError RenderError.display
  let publicKeyBytes ← (decodeHex 32 message.publicKey).mapError RenderError.display
  if message.publicKey ≠ encodeHex publicKeyBytes.toList then
    throw "public key must use lowercase hexadecimal encoding"
  return (parsedId, publicKeyBytes)

end Registration

/-! ## What is signed -/

/-- What a registration is of. -/
structure Registered where
  deviceId : DeviceId
  publicKey : PublicKey
  nonce : Vector UInt8 32
  listen : Bool
  deriving DecidableEq

/-- The bytes that are signed for it. -/
def Registered.bytes (r : Registered) : List UInt8 :=
  registrationBytes r.deviceId.display r.publicKey.toHex (encodeHex r.nonce.toList) r.listen

/-- The texts, however they are spelled, denote it. -/
structure Registered.SpelledBy (r : Registered) (deviceId publicKey nonce : String)
    (listen : Bool) : Prop where
  deviceId : (NineDigits (stripped deviceId) ∨ Padded (stripped deviceId)) ∧
    r.deviceId.value = Nat.ofDigitChars 10 (unsigned (stripped deviceId)) 0
  publicKey : HexDigits 32 (trim publicKey.toList) ∧
    r.publicKey.toList = denotedBytes (trim publicKey.toList)
  nonce : HexDigits 32 (trim nonce.toList) ∧ r.nonce.toList = denotedBytes (trim nonce.toList)
  listen : r.listen = listen

/-! ### Renderings are read back -/

theorem isAsciiHexdigit_digitChar : ∀ n < 16, isAsciiHexdigit n.digitChar = true ∧
    hexValue n.digitChar = n := by decide

theorem denotedBytes_digits (bytes : List UInt8) :
    denotedBytes (bytes.flatMap fun b => [(b.toNat / 16).digitChar, (b.toNat % 16).digitChar]) =
      bytes := by
  induction bytes with
  | nil => rfl
  | cons b bytes ih =>
    have hb : b.toNat < 256 := b.toNat_lt
    have hhigh := (isAsciiHexdigit_digitChar (b.toNat / 16) (by omega)).2
    have hlow := (isAsciiHexdigit_digitChar (b.toNat % 16) (Nat.mod_lt _ (by decide))).2
    rw [List.flatMap_cons, List.cons_append, List.cons_append, List.nil_append, denotedBytes, ih,
      hhigh, hlow, Nat.div_add_mod, UInt8.ofNat_toNat]

/-- Bytes as they are rendered, which trimming leaves alone. -/
theorem trim_encodeHex (bytes : List UInt8) :
    trim (encodeHex bytes).toList = (encodeHex bytes).toList ∧
      HexDigits bytes.length (encodeHex bytes).toList := by
  have hdigits : ∀ c ∈ (encodeHex bytes).toList, ∃ n < 16, c = Nat.digitChar n := by
    intro c hc
    simp only [encodeHex, String.toList_ofList, List.mem_flatMap, List.mem_cons, List.not_mem_nil,
      or_false] at hc
    obtain ⟨b, -, hb⟩ := hc
    have := b.toNat_lt
    rcases hb with rfl | rfl
    · exact ⟨b.toNat / 16, by omega, rfl⟩
    · exact ⟨b.toNat % 16, by omega, rfl⟩
  refine ⟨trim_eq_self fun c hc => ?_, ?_, fun c hc => ?_⟩
  · obtain ⟨n, hn, rfl⟩ := hdigits c hc
    exact (digitChar_plain n hn).1
  · simp [encodeHex, List.length_flatMap]
  · obtain ⟨n, hn, rfl⟩ := hdigits c hc
    exact (isAsciiHexdigit_digitChar n hn).1

theorem decodeHex_encodeHex {n : ℕ} (hn : n ≤ 64) (bytes : Vector UInt8 n) :
    decodeHex n (encodeHex bytes.toList) = .ok bytes := by
  obtain ⟨htrim, hdigits⟩ := trim_encodeHex bytes.toList
  rw [Vector.length_toList] at hdigits
  rw [decodeHex_eq_ok hn, htrim]
  exact ⟨hdigits, by rw [encodeHex, String.toList_ofList, denotedBytes_digits]⟩

theorem encodeHex_injective {bytes bytes' : List UInt8} (h : encodeHex bytes = encodeHex bytes') :
    bytes = bytes' := by
  have hdigits := congrArg (denotedBytes ·.toList) h
  simpa [encodeHex, denotedBytes_digits] using hdigits

theorem decodeHex_iff_variable {n : ℕ} {value : String} {bytes : Vector UInt8 n} :
    decodeHex n value = .ok bytes ↔ decodeHexVariable value = .ok bytes.toList := by
  simp only [decodeHex]
  cases hvalue : decodeHexVariable value with
  | error e => simp [bind, Except.bind]
  | ok decoded =>
    simp only [bind, Except.bind, pure, Except.pure, throw, throwThe, MonadExceptOf.throw,
      Except.ok.injEq]
    by_cases hn : decoded.length = n
    · rw [dif_pos hn, Except.ok.injEq, ← Vector.toList_inj]
      exact Iff.rfl
    · rw [dif_neg hn]
      refine iff_of_false (by rintro ⟨⟩) fun heq => hn ?_
      rw [heq, Vector.length_toList]

theorem DeviceId.display_injective {id id' : DeviceId} (h : id.display = id'.display) :
    id = id' := by
  have hdigits := id.filter_display
  rw [h, id'.filter_display] at hdigits
  have hvalue := congrArg (Nat.ofDigitChars 10 · 0) hdigits
  simp only [Nat.ofDigitChars_ten_toDigits] at hvalue
  exact DeviceId.ext hvalue.symm

/-- The bytes tell what they register. -/
theorem Registered.bytes_injective {r r' : Registered} (h : r.bytes = r'.bytes) : r = r' := by
  have hshort (r : Registered) : (utf8 r.deviceId.display).length < 2 ^ 32 ∧
      (utf8 r.publicKey.toHex).length < 2 ^ 32 ∧
      (utf8 (encodeHex r.nonce.toList)).length < 2 ^ 32 := by
    have hid := length_display_le r.deviceId
    have hkey := length_encodeHex_le r.publicKey.toList
    have hnonce := length_encodeHex_le r.nonce.toList
    rw [Vector.length_toList] at hkey hnonce
    exact ⟨by omega, by rw [PublicKey.toHex]; omega, by omega⟩
  rw [bytes, bytes, registrationBytes_eq, registrationBytes_eq] at h
  obtain ⟨hid, hkeys⟩ := registrationField_split (hshort r).1 (hshort r').1
    (List.append_cancel_left h)
  obtain ⟨hkey, hnonces⟩ := registrationField_split (hshort r).2.1 (hshort r').2.1 hkeys
  obtain ⟨hnonce, hlisten⟩ := registrationField_split (hshort r).2.2 (hshort r').2.2 hnonces
  obtain ⟨id, key, nonce, listen⟩ := r
  obtain ⟨id', key', nonce', listen'⟩ := r'
  obtain rfl := DeviceId.display_injective hid
  obtain rfl := Vector.toList_inj.mp (encodeHex_injective hkey)
  obtain rfl := Vector.toList_inj.mp (encodeHex_injective hnonce)
  obtain rfl := listenText_injective hlisten
  rfl

/-! ### What is verified -/

section Verified

variable {ι : Type} {scheme : SignatureScheme ι}

/-- **What `verify_registration` takes**: texts that denote a registration, with a signature of its
bytes. -/
theorem verifyRegistration_eq_ok {deviceId publicKey nonce signature : String} {listen : Bool}
    {id : DeviceId} : verifyRegistration scheme deviceId publicKey nonce signature listen = .ok id ↔
      ∃ (r : Registered) (sig : List UInt8), r.deviceId = id ∧
        r.SpelledBy deviceId publicKey nonce listen ∧ decodeHexVariable signature = .ok sig ∧
        scheme.verify r.publicKey r.bytes sig = .ok () := by
  constructor
  · intro h
    simp only [verifyRegistration] at h
    cases hparse : parseU32 (stripped deviceId) with
    | none => simp [hparse] at h
    | some value =>
      cases hnew : DeviceId.new value with
      | none => simp [hparse, hnew] at h
      | some parsed =>
        cases hkey : decodeHex 32 publicKey with
        | error e => simp [hparse, hnew, hkey, bind, Except.bind] at h
        | ok key =>
          cases hnonce : decodeHexVariable nonce with
          | error e => simp [hparse, hnew, hkey, hnonce, bind, Except.bind] at h
          | ok bytes =>
            simp only [hparse, hnew, hkey, hnonce, bind, Except.bind, throw, throwThe,
              MonadExceptOf.throw, pure, Except.pure] at h
            split at h
            · cases h
            · rename_i hlength
              cases hsignature : decodeHexVariable signature with
              | error e => simp [hsignature] at h
              | ok sig =>
                simp only [hsignature] at h
                split at h
                · cases h
                · rename_i hverify
                  have hsize : bytes.length = 32 := not_not.mp hlength
                  have hchallenge : decodeHex 32 nonce =
                      .ok (⟨bytes.toArray, by simpa using hsize⟩ : Vector UInt8 32) :=
                    decodeHex_iff_variable.mpr hnonce
                  refine ⟨⟨parsed, key, ⟨bytes.toArray, by simpa using hsize⟩, listen⟩, sig,
                    Except.ok.inj h, ⟨parseU32_new.mp ⟨value, hparse, hnew⟩,
                      (decodeHex_eq_ok (by decide)).mp hkey,
                      (decodeHex_eq_ok (by decide)).mp hchallenge, rfl⟩, rfl, hverify⟩
  · rintro ⟨r, sig, rfl, hspelled, hsignature, hverify⟩
    obtain ⟨value, hparse, hnew⟩ := parseU32_new.mpr hspelled.deviceId
    have hkey := (decodeHex_eq_ok (by decide)).mpr hspelled.publicKey
    have hnonce := decodeHex_iff_variable.mp ((decodeHex_eq_ok (by decide)).mpr hspelled.nonce)
    have hsize : ¬r.nonce.toList.length ≠ 32 := by simp
    simp only [verifyRegistration, hparse, hnew, hkey, hnonce, hsignature, bind, Except.bind,
      if_neg hsize]
    rw [Registered.bytes, hspelled.listen] at hverify
    simp only [hverify]
    rfl

variable (scheme) in
/-- What the client sends in answer to a challenge. -/
theorem registerMessage_answers (identity : DeviceIdentity ι) (challenge : Vector UInt8 32)
    (listen : Bool) : ∃ r : Registered, r.deviceId = identity.deviceId ∧
      r.publicKey = scheme.publicKey identity.keypair ∧ r.nonce = challenge ∧ r.listen = listen ∧
      registerMessage scheme identity (encodeHex challenge.toList) listen =
        .ok ⟨r.deviceId.display, r.publicKey.toHex, encodeHex r.nonce.toList,
          encodeHex (scheme.sign identity.keypair r.bytes), r.listen⟩ := by
  refine ⟨⟨identity.deviceId, scheme.publicKey identity.keypair, challenge, listen⟩, rfl, rfl, rfl,
    rfl, ?_⟩
  simp only [registerMessage, decodeHex_encodeHex (show 32 ≤ 64 by decide)]
  rfl

/-- The texts that the client renders are a spelling. -/
theorem Registered.spelledBy_rendering (r : Registered) :
    r.SpelledBy r.deviceId.display r.publicKey.toHex (encodeHex r.nonce.toList) r.listen where
  deviceId := by
    refine parseU32_new.mp ⟨r.deviceId.value, ?_, r.deviceId.new_value⟩
    rw [stripped, r.deviceId.filter_display, r.deviceId.parseU32_digits]
  publicKey := (decodeHex_eq_ok (by decide)).mp (decodeHex_encodeHex (by decide) r.publicKey)
  nonce := (decodeHex_eq_ok (by decide)).mp (decodeHex_encodeHex (by decide) r.nonce)
  listen := rfl

/-! ## The result -/

/-- **A registration binds identifier, key, nonce and role.** What the client answers to a
challenge, the server takes on that connection. What the server verifies is the bytes of the
registration that the texts denote; so if a signature verifies only where it was made, and it was
made for one registration, no spelling of another one is taken with it. -/
theorem registration_bound (laws : scheme.Laws) :
    (∀ (identity : DeviceIdentity ι) (challenge : Vector UInt8 32) (listen : Bool),
      ∃ message, registerMessage scheme identity (encodeHex challenge.toList) listen =
          .ok message ∧
        checkRegistration scheme challenge message =
          .ok (identity.deviceId, scheme.publicKey identity.keypair)) ∧
    (∀ (deviceId publicKey nonce signature : String) (listen : Bool) (id : DeviceId),
      verifyRegistration scheme deviceId publicKey nonce signature listen = .ok id →
        ∃ (r : Registered) (sig : List UInt8), r.deviceId = id ∧
          r.SpelledBy deviceId publicKey nonce listen ∧ decodeHexVariable signature = .ok sig ∧
          scheme.verify r.publicKey r.bytes sig = .ok ()) ∧
    (∀ made : Set (PublicKey × List UInt8 × List UInt8),
      (∀ key message sig, scheme.verify key message sig = .ok () → (key, message, sig) ∈ made) →
      ∀ (c : Registered) (sig : List UInt8),
        (∀ key message, (key, message, sig) ∈ made → key = c.publicKey ∧ message = c.bytes) →
        ∀ (deviceId publicKey nonce signature : String) (listen : Bool) (id : DeviceId),
          decodeHexVariable signature = .ok sig →
          verifyRegistration scheme deviceId publicKey nonce signature listen = .ok id →
            c.deviceId = id ∧ c.SpelledBy deviceId publicKey nonce listen) := by
  refine ⟨fun identity challenge listen => ?_, fun _ _ _ _ _ _ => verifyRegistration_eq_ok.mp,
    fun made hunforgeable c sig honly deviceId publicKey nonce signature listen id hsig h => ?_⟩
  · obtain ⟨r, hid, hkey, hnonce, hlisten, hmessage⟩ :=
      registerMessage_answers scheme identity challenge listen
    refine ⟨_, hmessage, ?_⟩
    have hlength : (scheme.sign identity.keypair r.bytes).length = 64 := laws.length_sign _ _
    obtain ⟨sig, hsig⟩ : ∃ sig : Vector UInt8 64,
        sig.toList = scheme.sign identity.keypair r.bytes :=
      ⟨⟨(scheme.sign identity.keypair r.bytes).toArray, by simpa using hlength⟩, rfl⟩
    have hdecode := decodeHex_iff_variable.mp (decodeHex_encodeHex (le_refl 64) sig)
    have hverified : verifyRegistration scheme r.deviceId.display r.publicKey.toHex
        (encodeHex r.nonce.toList) (encodeHex (scheme.sign identity.keypair r.bytes)) r.listen =
          .ok r.deviceId := by
      rw [← hsig]
      refine verifyRegistration_eq_ok.mpr ⟨r, sig.toList, rfl, r.spelledBy_rendering, hdecode, ?_⟩
      rw [hkey, hsig]
      exact laws.verify_sign _ _
    have hrendered : decodeHex 32 r.publicKey.toHex = .ok r.publicKey :=
      decodeHex_encodeHex (by decide) r.publicKey
    have hsame : ¬r.publicKey.toHex ≠ encodeHex r.publicKey.toList := not_not_intro rfl
    rw [← hid, ← hkey, ← hnonce]
    simp only [checkRegistration, hverified, hrendered, Except.mapError, bind, Except.bind,
      if_neg hsame]
    simp [pure, Except.pure]
  · obtain ⟨r, sig', rfl, hspelled, hsig', hverify⟩ := verifyRegistration_eq_ok.mp h
    obtain rfl := Except.ok.inj (hsig.symm.trans hsig')
    obtain ⟨-, hbytes⟩ := honly _ _ (hunforgeable _ _ _ hverify)
    obtain rfl := Registered.bytes_injective hbytes
    exact ⟨rfl, hspelled⟩

end Verified

namespace LastBytes

/-! Signatures that are the last bytes of the message. -/

def signed (message : List UInt8) : List UInt8 :=
  (List.replicate 64 0 ++ message).drop message.length

def scheme : SignatureScheme PublicKey where
  publicKey key := key
  sign _ message := signed message
  verify _ message signature :=
    if signature = signed message then .ok () else .error .signatureVerification

theorem laws : scheme.Laws where
  length_sign _ message := by
    simp only [scheme, signed, List.length_drop, List.length_append, List.length_replicate]
    omega
  verify_sign _ message := if_pos rfl

def identity : DeviceIdentity PublicKey where
  deviceId := ⟨123456789, DeviceId.ascending_inRange⟩
  keypair := Vector.replicate 32 0xab

/-- A listener that is taken. -/
theorem listener_taken : ∃ message,
    registerMessage scheme identity (encodeHex (Vector.replicate 32 (1 : UInt8)).toList) true =
      .ok message ∧
    checkRegistration scheme (Vector.replicate 32 1) message =
      .ok (⟨123456789, by decide⟩, Vector.replicate 32 0xab) :=
  (registration_bound laws).1 identity (Vector.replicate 32 1) true

end LastBytes

end SensorRemote
