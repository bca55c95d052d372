import SensorRemote.Lib.Program
import SensorRemote.Manifest
import SensorRemote.Permissions
import SensorRemote.Protocol

/-!
# Receiving files

`Receiver` and `IncomingTransfer` (`sensor-files`), as programs over the file system calls they
make. A file value is a number; where the source drops one, the program closes it.

The serializer of the metadata record is a third-party crate (postcard), and the hash function a
parameter, which is applied to everything fed to it.

A call of the file system answers with a value or with an error, and the program goes on with
whichever it gets: so a run may fail at every call, and what is on disk after a failure is part of
the model. The loops of the standard library that the source uses (`write_all`, `read_to_end`,
`read_exact`) are programs here too, as each of their calls can stop half way.
-/

namespace SensorRemote

open Program

/-- `std::io::ErrorKind`, as far as the code looks at it. -/
inductive IoError where
  | notFound
  | alreadyExists
  | wouldBlock
  | writeZero
  | unexpectedEof
  | other
  deriving DecidableEq, Repr

/-- `FileError`. -/
inductive FileError where
  | permission (error : PermissionError)
  | io (error : IoError)
  | invalid
  | invalidChunk
  | integrity
  | wrongPeer
  deriving DecidableEq, Repr

/-- `Metadata`. -/
structure Metadata (δ : Type) where
  version : ℕ
  owner : PublicKey
  manifest : Manifest δ
  deriving DecidableEq

/-- The metadata is one the source can have: a version and a size that fit their fields, and a name
that fits in memory. -/
def Metadata.Fits {δ : Type} (metadata : Metadata δ) : Prop :=
  metadata.version < 2 ^ 16 ∧ metadata.manifest.size < 2 ^ 64 ∧
    metadata.manifest.name.utf8ByteSize < 2 ^ 64

/-- The serializer of metadata, with what it documents: what is written can be read back, a
proper beginning of it cannot, and it is short, as the fixed fields take at most 87 bytes. -/
structure MetadataCodec (δ : Type) extends Postcard (Metadata δ) where
  /-- the bytes of a record -/
  encode : Metadata δ → List UInt8
  toAllocvec_eq : ∀ metadata, metadata.Fits → toAllocvec metadata = .ok (encode metadata)
  round_trip : ∀ metadata, metadata.Fits → takeFromBytes (encode metadata) = .ok (metadata, [])
  prefix_free : ∀ metadata bytes, metadata.Fits → bytes <+: encode metadata →
    bytes ≠ encode metadata → ∃ error, takeFromBytes bytes = .error error
  length_le : ∀ metadata, metadata.Fits →
    (encode metadata).length ≤ 87 + metadata.manifest.name.utf8ByteSize

/-! ## The file system -/

/-- An open file. -/
abbrev Handle := ℕ

/-- A call of a receiver's peer, as the endpoint makes it on the peer's behalf. -/
inductive FileCall (δ : Type) where
  | begin (manifest : Manifest δ)
  | resume (id : TransferId)
  | prefixHash
  | writeChunk (offset : ℕ) (bytes : List UInt8) (checksum : δ)
  | pause
  | cancel
  | finish
  | drop

/-- What callers of a receiver note, for the history. -/
inductive FileNote (δ : Type) where
  /-- `begin` returned a transfer -/
  | began (id : TransferId)
  /-- a transfer is about to be cancelled -/
  | cancels (id : TransferId)
  /-- `finish` returned a manifest -/
  | finished (manifest : Manifest δ)

/-- The operations of the receiver's code. Names are relative to the receive folder. -/
inductive FileOp (δ : Type) : Type → Type where
  | symlinkMetadata (name : String) : FileOp δ (Except IoError Unit)
  /-- `create_new`, for reading and writing -/
  | createNew (name : String) : FileOp δ (Except IoError Handle)
  /-- open what is there, for reading -/
  | openRead (name : String) : FileOp δ (Except IoError Handle)
  /-- open what is there, for reading and writing -/
  | openReadWrite (name : String) : FileOp δ (Except IoError Handle)
  | tryLockExclusive (file : Handle) : FileOp δ (Except IoError Unit)
  /-- how many of the bytes were written -/
  | write (file : Handle) (bytes : List UInt8) : FileOp δ (Except IoError ℕ)
  /-- up to so many bytes; none at the end of the file -/
  | read (file : Handle) (limit : ℕ) : FileOp δ (Except IoError (List UInt8))
  | seek (file : Handle) (position : ℕ) : FileOp δ (Except IoError Unit)
  | length (file : Handle) : FileOp δ (Except IoError ℕ)
  | syncAll (file : Handle) : FileOp δ (Except IoError Unit)
  | hardLink (source target : String) : FileOp δ (Except IoError Unit)
  | removeFile (name : String) : FileOp δ (Except IoError Unit)
  /-- duplicate the handle of the folder -/
  | tryClone : FileOp δ (Except IoError Unit)
  /-- the file goes out of scope -/
  | close (file : Handle) : FileOp δ Unit
  /-- `OsRng.fill_bytes`, for the identifier of a new transfer of this description -/
  | fillBytes (metadata : Metadata δ) : FileOp δ TransferId
  /-- what the peer asks for next, while the transfer `held` is open -/
  | next (held : Option TransferId) : FileOp δ (FileCall δ)
  | note (note : FileNote δ) : FileOp δ Unit

/-- Code of this component. -/
abbrev FileProg (δ : Type) := Fallible (FileOp δ) FileError

variable {δ : Type}

/-- A call whose failure is a file error. -/
def io {α : Type} (o : FileOp δ (Except IoError α)) : FileProg δ α :=
  (Fallible.attempt o).mapError .io

/-- `x`, with the file dropped if it fails. -/
def owning {α : Type} (file : Handle) (x : FileProg δ α) : FileProg δ α :=
  Prog.bind x fun
    | .error e => .op (.close file) fun _ => .ret (.error e)
    | .ok a => .ret (.ok a)

/-- `Write::write_all`. -/
def writeAll (file : Handle) (bytes : List UInt8) : FileProg δ Unit :=
  Fallible.forever bytes fun bytes =>
    if bytes = [] then pure (.inr ())
    else do
      let count ← io (.write file bytes)
      Fallible.check (count ≠ 0) (.io .writeZero)
      return .inl (bytes.drop count)

/-- `Read::take(limit).read_to_end`, a buffer at a time. -/
def readToEnd (file : Handle) (limit : ℕ) : FileProg δ (List UInt8) :=
  Fallible.forever [] fun bytes =>
    if bytes.length ≥ limit then pure (.inr bytes)
    else do
      let data ← io (.read file (min CHUNK_SIZE (limit - bytes.length)))
      if data = [] then return .inr bytes else return .inl (bytes ++ data)

/-- `Read::read_exact`. -/
def readExact (file : Handle) (count : ℕ) : Fallible (FileOp δ) IoError (List UInt8) :=
  Fallible.forever [] fun bytes =>
    if bytes.length ≥ count then pure (.inr bytes)
    else do
      let data ← Fallible.attempt (.read file (count - bytes.length))
      if data = [] then throw .unexpectedEof else return .inl (bytes ++ data)

/-- `hash_reader`. -/
def hashReader (sha256 : List UInt8 → δ) (file : Handle) : FileProg δ δ :=
  Fallible.forever [] fun hash => do
    let data ← io (.read file CHUNK_SIZE)
    if data = [] then return .inr (sha256 hash) else return .inl (hash ++ data)

/-- `x`, with the file dropped after it. -/
def closing {ε α : Type} (file : Handle) (x : Fallible (FileOp δ) ε α) :
    Fallible (FileOp δ) ε α :=
  Prog.bind x fun r => .op (.close file) fun _ => .ret r

/-- `describe_file`, of a regular file called `name` in its folder. -/
def describeFile (sha256 : List UInt8 → δ) (name : String) : FileProg δ (Manifest δ) := do
  Fallible.check (validName name) .invalid
  let file ← io (.openRead name)
  closing file do
    let size ← io (.length file)
    Fallible.check (size ≤ MAX_FILE_SIZE) .invalid
    let hash ← hashReader sha256 file
    return { name, size, sha256 := hash }

/-- `consent.require`, with a file error. -/
def requireFiles (consent : Consent) : FileProg δ Unit :=
  Fallible.ofExcept ((consent.require .fileManager).mapError .permission)

/-! ## Transfers -/

/-- `IncomingTransfer`. -/
structure IncomingTransfer (δ : Type) where
  file : Handle
  metadata : Metadata δ
  id : TransferId
  offset : ℕ
  deriving DecidableEq

namespace TransferId

/-- The name of a partial file. -/
def partName (id : TransferId) : String := id.name "part"

/-- The name of a metadata record. -/
def metaName (id : TransferId) : String := id.name "meta"

end TransferId

namespace IncomingTransfer

/-- `IncomingTransfer::manifest`. -/
def manifest (transfer : IncomingTransfer δ) : Manifest δ := transfer.metadata.manifest

/-- `IncomingTransfer::prefix_hash`. -/
def prefixHash (sha256 : List UInt8 → δ) (transfer : IncomingTransfer δ) : FileProg δ δ := do
  io (.seek transfer.file 0)
  let hash ← hashReader sha256 transfer.file
  io (.seek transfer.file transfer.offset)
  return hash

/-- `IncomingTransfer::write_chunk`: the transfer afterwards. -/
def writeChunk [DecidableEq δ] (sha256 : List UInt8 → δ) (transfer : IncomingTransfer δ)
    (consent : Consent) (offset : ℕ) (bytes : List UInt8) (checksum : δ) :
    FileProg δ (IncomingTransfer δ) := do
  requireFiles consent
  Fallible.check (offset = transfer.offset ∧ bytes ≠ [] ∧ bytes.length ≤ CHUNK_SIZE ∧
    offset + bytes.length < 2 ^ 64 ∧ offset + bytes.length ≤ transfer.manifest.size) .invalidChunk
  Fallible.check (sha256 bytes = checksum) .integrity
  writeAll transfer.file bytes
  return { transfer with offset := transfer.offset + bytes.length }

/-- `IncomingTransfer::pause`. -/
def pause (transfer : IncomingTransfer δ) : FileProg δ TransferId := do
  owning transfer.file (io (.syncAll transfer.file))
  Fallible.perform (.close transfer.file)
  return transfer.id

/-- `IncomingTransfer::cancel`. -/
def cancel (transfer : IncomingTransfer δ) (consent : Consent) : FileProg δ Unit := do
  owning transfer.file (requireFiles consent)
  Fallible.perform (.close transfer.file)
  io (.removeFile transfer.id.partName)
  io (.removeFile transfer.id.metaName)

/-- `IncomingTransfer::finish`. -/
def finish [DecidableEq δ] (sha256 : List UInt8 → δ) (transfer : IncomingTransfer δ)
    (consent : Consent) : FileProg δ (Manifest δ) := do
  owning transfer.file do
    requireFiles consent
    Fallible.check (transfer.offset = transfer.manifest.size) .integrity
    let hash ← transfer.prefixHash sha256
    Fallible.check (hash = transfer.manifest.sha256) .integrity
    io (.syncAll transfer.file)
    io (.hardLink transfer.id.partName transfer.manifest.name)
    io (.removeFile transfer.id.partName)
    io (.removeFile transfer.id.metaName)
  Fallible.perform (.close transfer.file)
  return transfer.manifest

end IncomingTransfer

/-! ## The receiver -/

namespace Receiver

variable (codec : MetadataCodec δ)

/-- The check that a destination is free. -/
def destinationFree (name : String) : FileProg δ Unit :=
  Prog.op (.symlinkMetadata name) fun
    | .ok () => .ret (.error (.io .alreadyExists))
    | .error .notFound => .ret (.ok ())
    | .error e => .ret (.error (.io e))

/-- The closure `write_metadata` of `begin`: whether it created the record, and its result. -/
def writeMetadata (id : TransferId) (encoded : List UInt8) :
    Prog (FileOp δ) (Bool × Except FileError Unit) :=
  let write (record : Handle) : FileProg δ Unit := do
    writeAll record encoded
    io (.syncAll record)
  .op (.createNew id.metaName) fun
    | .error e => .ret (false, .error (.io e))
    | .ok record => Prog.bind (write record) fun
      | result => .op (.close record) fun _ => .ret (true, result)

/-- What `begin` does when the record could not be written. -/
def cleanUp (file : Handle) (id : TransferId) (created : Bool) : Prog (FileOp δ) Unit := do
  Prog.perform (.close file)
  let _ ← Prog.perform (.removeFile id.partName)
  if created then Prog.bind (Prog.perform (.removeFile id.metaName)) fun _ => pure ()
  else pure ()

/-- `Receiver::begin`. -/
def begin (consent : Consent) (owner : PublicKey) (manifest : Manifest δ) :
    FileProg δ (IncomingTransfer δ) := do
  requireFiles consent
  Fallible.check (validName manifest.name ∧ manifest.size ≤ MAX_FILE_SIZE) .invalid
  destinationFree manifest.name
  let metadata : Metadata δ := { version := 1, owner, manifest }
  let id ← Fallible.perform (.fillBytes metadata)
  let encoded ← Fallible.ofExcept ((codec.toAllocvec metadata).mapError fun _ => .invalid)
  let file ← io (.createNew id.partName)
  owning file (io (.tryLockExclusive file))
  match ← Fallible.lift (writeMetadata id encoded) with
  | (created, .error e) =>
    Fallible.lift (cleanUp file id created)
    throw e
  | (_, .ok ()) =>
    owning file (io .tryClone)
    return { file, metadata, id, offset := 0 }

/-- The metadata record of a transfer, as `resume` reads it. -/
def readMetadata (owner : PublicKey) (id : TransferId) : FileProg δ (Metadata δ) := do
  let record ← io (.openRead id.metaName)
  let encoded ← owning record (readToEnd record (METADATA_LIMIT + 1))
  Fallible.perform (.close record)
  Fallible.check (encoded.length ≤ METADATA_LIMIT) .invalid
  let (metadata, trailing) ←
    Fallible.ofExcept ((codec.takeFromBytes encoded).mapError fun _ => .invalid)
  Fallible.check (trailing = [] ∧ metadata.version = 1 ∧ validName metadata.manifest.name ∧
    metadata.manifest.size ≤ MAX_FILE_SIZE) .invalid
  Fallible.check (metadata.owner = owner) .wrongPeer
  return metadata

/-- `Receiver::resume`. -/
def resume (consent : Consent) (owner : PublicKey) (id : TransferId) :
    FileProg δ (IncomingTransfer δ) := do
  requireFiles consent
  let metadata ← readMetadata codec owner id
  let file ← io (.openReadWrite id.partName)
  owning file do
    io (.tryLockExclusive file)
    let offset ← io (.length file)
    Fallible.check (offset ≤ metadata.manifest.size) .integrity
    io (.seek file offset)
    io .tryClone
    return { file, metadata, id, offset }

end Receiver

end SensorRemote
