import SensorRemote.Media
import Mathlib.Data.List.Basic

/-!
# File names, manifests and transfer identifiers

What a file transfer is described by (`sensor-files`), and the names it may use in the receive
folder. A digest is any type: nothing depends on how SHA-256 values look. The two names of a
transfer are made from its identifier, so that they can be told from every name a peer may give.
-/

namespace SensorRemote

def CHUNK_SIZE : ℕ := 64 * 1024
def MAX_FILE_SIZE : ℕ := 1024 * 1024 * 1024 * 1024
def METADATA_LIMIT : ℕ := 4096

/-- `Manifest`. -/
structure Manifest (δ : Type) where
  name : String
  size : ℕ
  sha256 : δ
  deriving DecidableEq

/-- The characters no file name may contain. -/
def forbiddenCharacters : List Char := ['/', '\\', ':', '<', '>', '"', '|', '?', '*']

/-- The device names of the host system. -/
def reservedStems : List String :=
  ["CON", "PRN", "AUX", "NUL", "COM1", "COM2", "COM3", "COM4", "COM5", "COM6", "COM7", "COM8",
    "COM9", "LPT1", "LPT2", "LPT3", "LPT4", "LPT5", "LPT6", "LPT7", "LPT8", "LPT9", "COM¹",
    "COM²", "COM³", "LPT¹", "LPT²", "LPT³"]

/-- `to_ascii_uppercase`, on a character. -/
def toAsciiUppercase (c : Char) : Char :=
  if 'a' ≤ c ∧ c ≤ 'z' then Char.ofNat (c.toNat - 32) else c

/-- `valid_name`. -/
def validName (name : String) : Bool :=
  let chars := name.toList
  if chars = [] ∨ name.utf8ByteSize > 180 ∨ chars.head? = some '.'
      ∨ chars.getLast? = some '.' ∨ chars.getLast? = some ' ' then false
  else if chars.any fun c => isControl c || forbiddenCharacters.contains c then false
  else
    let stem := (chars.takeWhile (· ≠ '.')).map toAsciiUppercase
    !(reservedStems.map String.toList).contains stem

/-- `TransferId`: sixteen bytes. -/
structure TransferId where
  bytes : List UInt8
  sixteen : bytes.length = 16
  deriving DecidableEq

/-- A byte as two lower-case hexadecimal digits. -/
def hex (b : UInt8) : List Char :=
  [Nat.digitChar (b.toNat / 16), Nat.digitChar (b.toNat % 16)]

/-- What every transfer's own files begin with. -/
def TRANSFER_PREFIX : String := ".sensor-transfer-"

/-- `TransferId::name`. -/
def TransferId.name (id : TransferId) (extension : String) : String :=
  String.ofList (TRANSFER_PREFIX.toList ++ id.bytes.flatMap hex ++ ['.'] ++ extension.toList)

end SensorRemote
