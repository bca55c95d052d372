import SensorRemote.Contacts
import SensorRemote.Files
import SensorRemote.Media
import SensorRemote.Lib.Reader

/-!
# The identity file

The file of a device's identity (`sensor-identity`): its identifier, alias and namespace, its public
key, and the seed of its key, protected. The seed is protected in a context, the code of all the
rest. The serializer is spelled out: a field after the other, numbers of variable length, texts
and lists after their length, and a byte before what may be absent.
-/

namespace SensorRemote.Identity

open Bytes Readers

def IDENTITY_FILE_VERSION : UInt16 := 1

def MAX_IDENTITY_BYTES : ℕ := 64 * 1024

/-- What `DeviceAlias::new` accepts. -/
def validAlias (text : String) : Bool :=
  !(text.isEmpty || text.utf8ByteSize > 128) &&
    !text.toList.any fun c => isControl c || isWhitespace c

/-- `DeviceAlias`. -/
structure DeviceAlias where
  text : String
  valid : validAlias text = true
  deriving DecidableEq

/-- `DeviceAlias::new`. -/
def DeviceAlias.new (text : String) : Option DeviceAlias :=
  if h : validAlias text = true then some ⟨text, h⟩ else none

theorem DeviceAlias.new_text (text : DeviceAlias) : new text.text = some text := dif_pos text.valid

/-- The seed of a key, as which an `IdentityKeypair` is kept. -/
abbrev Seed := Vector UInt8 32

/-- `DeviceIdentity`. -/
structure DeviceIdentity where
  deviceId : DeviceId
  deviceAlias : Option DeviceAlias
  deviceNamespace : Option DeviceAlias
  keypair : Seed
  deriving DecidableEq

/-- `ProtectionContext`. -/
structure ProtectionContext where
  version : UInt16
  deviceId : DeviceId
  deviceAlias : Option DeviceAlias
  deviceNamespace : Option DeviceAlias
  publicKey : PublicKey
  deriving DecidableEq

/-- `PersistedIdentity`. -/
structure PersistedIdentity where
  version : UInt16
  deviceId : DeviceId
  deviceAlias : Option DeviceAlias
  deviceNamespace : Option DeviceAlias
  publicKey : PublicKey
  protectedSeed : List UInt8
  deriving DecidableEq

/-! ## The serializer -/

/-- `to_allocvec` of an alias. -/
def DeviceAlias.code (name : DeviceAlias) : List UInt8 := textCode name.text

/-- `to_allocvec` of a protection context. -/
def ProtectionContext.code (context : ProtectionContext) : List UInt8 :=
  varint context.version.toNat ++ (varint context.deviceId.value ++
    (optionCode DeviceAlias.code context.deviceAlias ++
      (optionCode DeviceAlias.code context.deviceNamespace ++ context.publicKey.toList)))

/-- `to_allocvec` of a persisted identity. -/
def PersistedIdentity.code (persisted : PersistedIdentity) : List UInt8 :=
  varint persisted.version.toNat ++ (varint persisted.deviceId.value ++
    (optionCode DeviceAlias.code persisted.deviceAlias ++
      (optionCode DeviceAlias.code persisted.deviceNamespace ++ (persisted.publicKey.toList ++
        (varint persisted.protectedSeed.length ++ persisted.protectedSeed)))))

/-- A `u16`, a `u32` and a length. -/
def readU16 : Reader ℕ := readVarintOf 3 3
def readU32 : Reader ℕ := readVarintOf 15 5
def readLength : Reader ℕ := readVarintOf 1 10

def readDeviceId : Reader DeviceId := readU32.seq fun value => .ofOption (DeviceId.new value)

def readAlias : Reader DeviceAlias :=
  (readLength.seq readUtf8).seq fun text => .ofOption (DeviceAlias.new text)

/-- `take_from_bytes` of a persisted identity. -/
def readPersisted : Reader PersistedIdentity :=
  readU16.seq fun version => readDeviceId.seq fun deviceId =>
    (readOption readAlias).seq fun deviceAlias => (readOption readAlias).seq fun deviceNamespace =>
      (readArray 32).seq fun publicKey => (readLength.seq readBytes).seq fun protectedSeed =>
        .done ⟨UInt16.ofNat version, deviceId, deviceAlias, deviceNamespace, publicKey,
          protectedSeed⟩

theorem reads_deviceId (deviceId : DeviceId) :
    Reads readDeviceId (varint deviceId.value) deviceId := by
  have hid : deviceId.value < 128 ^ 4 * (15 + 1) := by
    have := deviceId.inRange
    simp only [MIN_DEVICE_ID, DEVICE_ID_SPAN] at this
    omega
  exact (reads_varintOf (by omega) hid).ofOption (DeviceId.new_value _)

theorem reads_alias (name : DeviceAlias) : Reads readAlias name.code name := by
  have hlength : name.text.utf8ByteSize < 128 ^ 9 * (1 + 1) := by
    have hvalid := name.valid
    simp only [validAlias, Bool.and_eq_true, Bool.not_eq_true', Bool.or_eq_false_iff,
      decide_eq_false_iff_not] at hvalid
    omega
  exact ((reads_varintOf (by omega) hlength).seq (reads_utf8 _)).ofOption
    (DeviceAlias.new_text name)

theorem reads_persisted {persisted : PersistedIdentity}
    (h : persisted.protectedSeed.length < 2 ^ 64) :
    Reads readPersisted persisted.code persisted := by
  have hversion : persisted.version.toNat < 128 ^ 2 * (3 + 1) := persisted.version.toNat_lt
  have hlength : persisted.protectedSeed.length < 128 ^ 9 * (1 + 1) := by omega
  apply (reads_varintOf (by omega) hversion).seq
  apply (reads_deviceId _).seq
  apply (reads_option reads_alias _).seq
  apply (reads_option reads_alias _).seq
  apply (reads_array _).seq
  rw [UInt16.ofNat_toNat]
  exact ((reads_varintOf (by omega) hlength).seq (reads_bytes persisted.protectedSeed)).map
    fun protectedSeed => { persisted with protectedSeed }

/-- A reader of contexts, which the program does not need. -/
def readContext : Reader ProtectionContext :=
  readU16.seq fun version => readDeviceId.seq fun deviceId =>
    (readOption readAlias).seq fun deviceAlias => (readOption readAlias).seq fun deviceNamespace =>
      (readArray 32).seq fun publicKey =>
        .done ⟨UInt16.ofNat version, deviceId, deviceAlias, deviceNamespace, publicKey⟩

theorem reads_context (context : ProtectionContext) : Reads readContext context.code context := by
  have hversion : context.version.toNat < 128 ^ 2 * (3 + 1) := context.version.toNat_lt
  apply (reads_varintOf (by omega) hversion).seq
  apply (reads_deviceId _).seq
  apply (reads_option reads_alias _).seq
  apply (reads_option reads_alias _).seq
  rw [UInt16.ofNat_toNat]
  exact (reads_array _).map fun publicKey => { context with publicKey }

/-- A context tells all that it is made of. -/
theorem ProtectionContext.code_injective : Function.Injective ProtectionContext.code :=
  Reads.injective reads_context

/-! ## What `load` checks -/

inductive IdentityError where
  | serialization
  | io (error : IoError)
  | protection (text : String)
  | malformed
  | keyMismatch
  deriving DecidableEq

/-- The context of what is in the file. -/
def PersistedIdentity.context (persisted : PersistedIdentity) : ProtectionContext :=
  { version := persisted.version
    deviceId := persisted.deviceId
    deviceAlias := persisted.deviceAlias
    deviceNamespace := persisted.deviceNamespace
    publicKey := persisted.publicKey }

/-- The first part of `load`: up to the protected seed. -/
def parseIdentity (bytes : List UInt8) : Except IdentityError PersistedIdentity :=
  if bytes.length > MAX_IDENTITY_BYTES then .error .malformed
  else
    match readPersisted bytes with
    | none => .error .serialization
    | some (persisted, trailing) =>
      if trailing ≠ [] then .error .malformed
      else if persisted.version ≠ IDENTITY_FILE_VERSION ∨ persisted.protectedSeed = [] then
        .error .malformed
      else .ok persisted

section Key

-- `IdentityKeypair::public_key`
variable (publicKey : Seed → PublicKey)

/-- The last part of `load`: with the seed. -/
def PersistedIdentity.unlock (persisted : PersistedIdentity) (seed : List UInt8) :
    Except IdentityError DeviceIdentity :=
  if h : seed.length = 32 then
    if publicKey ⟨seed.toArray, h⟩ ≠ persisted.publicKey then .error .keyMismatch
    else .ok
      { deviceId := persisted.deviceId
        deviceAlias := persisted.deviceAlias
        deviceNamespace := persisted.deviceNamespace
        keypair := ⟨seed.toArray, h⟩ }
  else .error .malformed

/-- The context in which `save_locked` protects a seed. -/
def DeviceIdentity.context (identity : DeviceIdentity) : ProtectionContext :=
  { version := IDENTITY_FILE_VERSION
    deviceId := identity.deviceId
    deviceAlias := identity.deviceAlias
    deviceNamespace := identity.deviceNamespace
    publicKey := publicKey identity.keypair }

/-- What `save_locked` writes. -/
def DeviceIdentity.persisted (identity : DeviceIdentity) (protectedSeed : List UInt8) :
    PersistedIdentity :=
  { version := IDENTITY_FILE_VERSION
    deviceId := identity.deviceId
    deviceAlias := identity.deviceAlias
    deviceNamespace := identity.deviceNamespace
    publicKey := publicKey identity.keypair
    protectedSeed }

end Key

variable {publicKey : Seed → PublicKey} {bytes seed : List UInt8} {persisted : PersistedIdentity}
  {identity other : DeviceIdentity}

theorem parseIdentity_ok (h : parseIdentity bytes = .ok persisted) :
    bytes.length ≤ MAX_IDENTITY_BYTES ∧ persisted.version = IDENTITY_FILE_VERSION := by
  rw [parseIdentity] at h
  split at h
  · cases h
  rename_i hsize
  split at h
  · cases h
  split at h
  · cases h
  split at h
  · cases h
  rename_i hchecks
  cases h
  exact ⟨Nat.not_lt.mp hsize, not_not.mp (not_or.mp hchecks).1⟩

/-- The checks do not report an I/O error. -/
theorem parseIdentity_ne_io (bytes : List UInt8) (e : IoError) :
    parseIdentity bytes ≠ .error (.io e) := by
  rw [parseIdentity]
  split
  · rintro ⟨⟩
  split
  · rintro ⟨⟩
  split
  · rintro ⟨⟩
  split <;> rintro ⟨⟩

theorem unlock_ne_io (persisted : PersistedIdentity) (seed : List UInt8) (e : IoError) :
    persisted.unlock publicKey seed ≠ .error (.io e) := by
  rw [PersistedIdentity.unlock]
  split
  · split <;> rintro ⟨⟩
  · rintro ⟨⟩

/-- What was written is parsed. -/
theorem parseIdentity_code (hsize : persisted.code.length ≤ MAX_IDENTITY_BYTES)
    (hversion : persisted.version = IDENTITY_FILE_VERSION) (hseed : persisted.protectedSeed ≠ []) :
    parseIdentity persisted.code = .ok persisted := by
  have hshort : persisted.protectedSeed.length < 2 ^ 64 := by
    simp only [PersistedIdentity.code, List.length_append, MAX_IDENTITY_BYTES] at hsize
    omega
  have hread := (reads_persisted hshort).whole []
  rw [List.append_nil] at hread
  rw [parseIdentity, if_neg (Nat.not_lt.mpr hsize), hread]
  simp [hversion, hseed]

/-- What the seed tells. -/
theorem unlock_ok (h : persisted.unlock publicKey seed = .ok identity)
    (hversion : persisted.version = IDENTITY_FILE_VERSION) :
    seed = identity.keypair.toList ∧ persisted.context = identity.context publicKey := by
  rw [PersistedIdentity.unlock] at h
  split at h
  · split at h
    · cases h
    · rename_i hkey
      cases h
      simp only [PersistedIdentity.context, DeviceIdentity.context, hversion, not_not.mp hkey,
        and_true]
      rfl
  · cases h

/-- The seed that was protected gives the identity. -/
theorem unlock_persisted (identity : DeviceIdentity) (protectedSeed : List UInt8) :
    (identity.persisted publicKey protectedSeed).unlock publicKey identity.keypair.toList =
      .ok identity := by
  have hkeypair : (⟨identity.keypair.toList.toArray, identity.keypair.length_toList⟩ : Seed) =
      identity.keypair := rfl
  simp [PersistedIdentity.unlock, DeviceIdentity.persisted, hkeypair]

/-- An identity is told by its context and its seed. -/
theorem DeviceIdentity.ext_context (hcontext : identity.context publicKey = other.context publicKey)
    (hseed : identity.keypair.toList = other.keypair.toList) : identity = other := by
  obtain ⟨deviceId, deviceAlias, deviceNamespace, keypair⟩ := identity
  obtain ⟨deviceId', deviceAlias', deviceNamespace', keypair'⟩ := other
  simp only [DeviceIdentity.context, ProtectionContext.mk.injEq] at hcontext
  obtain ⟨-, rfl, rfl, rfl, -⟩ := hcontext
  obtain rfl := Vector.toList_inj.mp hseed
  rfl

end SensorRemote.Identity
