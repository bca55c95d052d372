import SensorRemote.Files
import SensorRemote.Lib.Reader

/-!
# The metadata record

The bytes of a metadata record, field after field: numbers of variable length, keys and digests as
they are, and texts after their length. It keeps what `MetadataCodec` asks of the serializer.
-/

namespace SensorRemote

open Bytes Readers

/-- A SHA-256 digest. -/
abbrev Sha256Digest := Vector UInt8 32

/-- `Metadata`, serialized. -/
def metadataCode (metadata : Metadata Sha256Digest) : List UInt8 :=
  varint metadata.version ++ (metadata.owner.toList ++ (textCode metadata.manifest.name ++
    (varint metadata.manifest.size ++ (metadata.manifest.sha256.toList ++ []))))

/-- And deserialized. -/
def readMetadataRecord : Reader (Metadata Sha256Digest) :=
  readVarint.seq fun version => (readArray 32).seq fun owner => readText.seq fun name =>
    readVarint.seq fun size => (readArray 32).seq fun sha256 =>
      .done ⟨version, owner, ⟨name, size, sha256⟩⟩

theorem reads_metadata (metadata : Metadata Sha256Digest) :
    Reads readMetadataRecord (metadataCode metadata) metadata := by
  apply (reads_varint _).seq
  apply (reads_array _).seq
  apply (reads_text _).seq
  apply (reads_varint _).seq
  apply (reads_array _).seq
  exact .done _

theorem length_metadataCode_le {metadata : Metadata Sha256Digest} (h : metadata.Fits) :
    (metadataCode metadata).length ≤ 87 + metadata.manifest.name.utf8ByteSize := by
  obtain ⟨hversion, hsize, hname⟩ := h
  have hversion' := length_varint_le (k := 2) (n := metadata.version) (by omega)
  have hsize' := length_varint_le (k := 9) (n := metadata.manifest.size) (by omega)
  have hname' := length_varint_le (k := 9) (n := metadata.manifest.name.utf8ByteSize) (by omega)
  have htext : (utf8 metadata.manifest.name).length = metadata.manifest.name.utf8ByteSize := rfl
  simp only [metadataCode, textCode, List.length_append, Vector.length_toList, List.length_nil,
    htext]
  omega

/-- The serializer of metadata. -/
def metadataPostcard : MetadataCodec Sha256Digest where
  toAllocvec metadata := .ok (metadataCode metadata)
  takeFromBytes bytes := (readMetadataRecord bytes).elim (.error .malformed) .ok
  encode := metadataCode
  toAllocvec_eq _ _ := rfl
  round_trip metadata _ := by
    have hwhole := (reads_metadata metadata).whole []
    rw [List.append_nil] at hwhole
    rw [hwhole]
    rfl
  prefix_free metadata bytes _ hbegins hne := by
    rw [(reads_metadata metadata).cut bytes hbegins hne]
    exact ⟨_, rfl⟩
  length_le _ := length_metadataCode_le

end SensorRemote
