import Mathlib.Data.Nat.Notation
import Mathlib.Tactic.Common

/-!
# Devices

A persistent nine-digit identifier is a `u32` in a fixed range (`sensor-core`). The
range is a field of the type, so that neither construction nor deserialization can
make an identifier outside it. A device is pinned by its public key, of 32 bytes.
-/

namespace SensorRemote

/-- A device's public key. -/
abbrev PublicKey := Vector UInt8 32

/-- The least device identifier. -/
def MIN_DEVICE_ID : ℕ := 100000000

/-- How many device identifiers there are. -/
def DEVICE_ID_SPAN : ℕ := 900000000

/-- A persistent nine-digit device identifier. -/
@[ext] structure DeviceId where
  /-- the number -/
  value : ℕ
  /-- it has nine digits -/
  inRange : MIN_DEVICE_ID ≤ value ∧ value < MIN_DEVICE_ID + DEVICE_ID_SPAN
  deriving DecidableEq

namespace DeviceId

/-- `DeviceId::new`: the identifier with the given number, if there is one. -/
def new (value : ℕ) : Option DeviceId :=
  if h : MIN_DEVICE_ID ≤ value ∧ value < MIN_DEVICE_ID + DEVICE_ID_SPAN then
    some ⟨value, h⟩
  else none

theorem new_value (d : DeviceId) : new d.value = some d := dif_pos d.inRange

theorem first_inRange : MIN_DEVICE_ID ≤ MIN_DEVICE_ID ∧
    MIN_DEVICE_ID < MIN_DEVICE_ID + DEVICE_ID_SPAN := by decide

theorem second_inRange : MIN_DEVICE_ID ≤ MIN_DEVICE_ID + 1 ∧
    MIN_DEVICE_ID + 1 < MIN_DEVICE_ID + DEVICE_ID_SPAN := by decide

/-- The nine digits in order. -/
theorem ascending_inRange : MIN_DEVICE_ID ≤ 123456789 ∧
    123456789 < MIN_DEVICE_ID + DEVICE_ID_SPAN := by decide

/-- The nine digits in reverse. -/
theorem descending_inRange : MIN_DEVICE_ID ≤ 987654321 ∧
    987654321 < MIN_DEVICE_ID + DEVICE_ID_SPAN := by decide

end DeviceId

/-! ## Texts -/

/-- Lowercase hexadecimal digits of a byte string. -/
def encodeHex (bytes : List UInt8) : String :=
  String.ofList (bytes.flatMap fun b => [(b.toNat / 16).digitChar, (b.toNat % 16).digitChar])

/-- A public key as control messages carry it. -/
def PublicKey.toHex (key : PublicKey) : String := encodeHex key.toList

/-- A device identifier as text, in groups of three digits. -/
def DeviceId.display (id : DeviceId) : String :=
  let digits := (Nat.toDigits 10 id.value).leftpad 9 '0'
  String.ofList (digits.take 3 ++ [' '] ++ (digits.drop 3).take 3 ++ [' '] ++
    (digits.drop 6).take 3)

end SensorRemote
