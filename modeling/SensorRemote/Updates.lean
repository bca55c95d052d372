import SensorRemote.Registration
import SensorRemote.Lib.JsonText

/-!
# Offline updates

The publisher of the application signs its releases (`updates.rs` of `sensor-desktop`), and the
application takes a manifest for an update only if the signature and the release in it pass all
checks. A manifest is JSON within JSON: the payload that is signed is a list of numbers in the
envelope, up to four bytes for one. How `serde_json` writes the two is spelled out, as the limits of
`verify` are on their lengths; how it reads them is a parameter.

`verify` is one sequence of checks, each of which can refuse. What it accepts is characterised as a
whole: the manifest decodes, its signature is good for the payload under the key of the publisher,
and the release is newer than the installed one, in time, and of sizes within the limits. What is
signed with `sign` passes exactly if the release does.
-/

namespace SensorRemote

open Bytes JsonText

/-- `DOMAIN`. -/
def UPDATE_DOMAIN : List UInt8 := utf8 "SENSOR/publisher-update/v1" ++ [0]

def MAX_MANIFEST : ℕ := 16 * 1024

def MAX_INSTALLER : ℕ := 256 * 1024 * 1024

def TARGET : String := "x86_64-pc-windows-msvc"

/-- `Release`. -/
structure Release where
  schema : UInt32
  product : String
  target : String
  version : Vector UInt32 3
  issuedUnix : UInt64
  expiresUnix : UInt64
  installerBytes : UInt64
  installerSha256 : Vector UInt8 32
  deriving DecidableEq

/-- `Envelope`. -/
structure Envelope where
  payload : List UInt8
  signature : List UInt8
  deriving DecidableEq

/-- `serde_json::to_vec` of a release. -/
def Release.toVec (release : Release) : List UInt8 :=
  object [("schema", number release.schema.toNat),
    ("product", string release.product),
    ("target", string release.target),
    ("version", numbers (release.version.toList.map UInt32.toNat)),
    ("issued_unix", number release.issuedUnix.toNat),
    ("expires_unix", number release.expiresUnix.toNat),
    ("installer_bytes", number release.installerBytes.toNat),
    ("installer_sha256", numbers (release.installerSha256.toList.map UInt8.toNat))]

/-- `serde_json::to_vec` of an envelope. -/
def Envelope.toVec (envelope : Envelope) : List UInt8 :=
  object [("payload", numbers (envelope.payload.map UInt8.toNat)),
    ("signature", numbers (envelope.signature.map UInt8.toNat))]

/-- `serde_json::from_slice`. -/
structure UpdateReader where
  release : List UInt8 → Except String Release
  envelope : List UInt8 → Except String Envelope

/-- What is written is read back. -/
structure UpdateReader.Laws (json : UpdateReader) : Prop where
  release_toVec : ∀ release, json.release release.toVec = .ok release
  envelope_toVec : ∀ envelope, json.envelope envelope.toVec = .ok envelope

/-- The check of the times; no value is a panic. -/
def outsideLifetime (release : Release) (time : UInt64) : Option Bool :=
  if release.issuedUnix > time then some true
  else if release.expiresUnix ≤ time then some true
  else if release.expiresUnix ≤ release.issuedUnix then some true
  else (checkedSub release.expiresUnix.toNat release.issuedUnix.toNat).map (· > 90 * 86400)

/-- What `verify` checks of a release whose signature is right; no value is a panic. -/
def checkRelease (release : Release) (installed : Vector UInt32 3) (time : UInt64) :
    Option (Except String Release) :=
  if release.schema ≠ 1 ∨ release.product ≠ "SENSOR Remote Access" ∨ release.target ≠ TARGET then
    some (.error "Update is for another product, platform or schema")
  else if release.version.toList ≤ installed.toList then
    some (.error "Update would reinstall or downgrade the installed version")
  else
    (outsideLifetime release time).map fun outside =>
      if outside then .error "Update manifest is expired, not yet valid or exceeds 90 days"
      else if release.installerBytes = 0 ∨ release.installerBytes.toNat > MAX_INSTALLER then
        .error "Installer exceeds its permitted size"
      else .ok release

section Update

variable {ι : Type} (scheme : SignatureScheme ι) (json : UpdateReader)

/-- `sign`. Writing cannot fail. -/
def signUpdate (release : Release) (key : ι) : List UInt8 :=
  let payload := release.toVec
  let signature := scheme.sign key (UPDATE_DOMAIN ++ payload)
  Envelope.toVec { payload, signature }

/-- `verify`; no value is a panic. -/
def verifyUpdate (bytes : List UInt8) (key : PublicKey) (installed : Vector UInt32 3)
    (time : UInt64) : Option (Except String Release) :=
  if bytes.length > MAX_MANIFEST ∨ key = Vector.replicate 32 0 then
    some (.error "Invalid update manifest size or publisher key")
  else
    match json.envelope bytes with
    | .error e => some (.error e)
    | .ok envelope =>
      if envelope.payload.length > 4096 ∨ envelope.signature.length ≠ 64 then
        some (.error "Invalid signed envelope")
      else
        match scheme.verify key (UPDATE_DOMAIN ++ envelope.payload) envelope.signature with
        | .error _ => some (.error "Publisher signature verification failed")
        | .ok () =>
          match json.release envelope.payload with
          | .error e => some (.error e)
          | .ok release => checkRelease release installed time

end Update

/-! ## The policy -/

/-- What a release has to be for this installation, at this time. -/
structure Policy (release : Release) (installed : Vector UInt32 3) (time : UInt64) : Prop where
  schema : release.schema = 1
  product : release.product = "SENSOR Remote Access"
  target : release.target = TARGET
  newer : installed.toList < release.version.toList
  issued : release.issuedUnix ≤ time
  not_expired : time < release.expiresUnix
  lifetime_pos : release.issuedUnix < release.expiresUnix
  lifetime_le : release.expiresUnix.toNat - release.issuedUnix.toNat ≤ 90 * 86400
  size_pos : 1 ≤ release.installerBytes.toNat
  size_le : release.installerBytes.toNat ≤ MAX_INSTALLER

/-- The subtraction is guarded. -/
theorem outsideLifetime_eq (release : Release) (time : UInt64) :
    ∃ outside, outsideLifetime release time = some outside ∧
      (outside = false ↔ release.issuedUnix ≤ time ∧ time < release.expiresUnix ∧
        release.issuedUnix < release.expiresUnix ∧
        release.expiresUnix.toNat - release.issuedUnix.toNat ≤ 90 * 86400) := by
  simp only [outsideLifetime, UInt64.lt_iff_toNat_lt, UInt64.le_iff_toNat_le]
  split_ifs with hissued hexpired hlifetime
  · exact ⟨true, rfl, iff_of_false Bool.noConfusion fun h => by omega⟩
  · exact ⟨true, rfl, iff_of_false Bool.noConfusion fun h => by omega⟩
  · exact ⟨true, rfl, iff_of_false Bool.noConfusion fun h => by omega⟩
  · have hsub : checkedSub release.expiresUnix.toNat release.issuedUnix.toNat =
        some (release.expiresUnix.toNat - release.issuedUnix.toNat) := if_pos (by omega)
    refine ⟨_, by rw [hsub]; rfl, ?_⟩
    simp only [decide_eq_false_iff_not, not_lt]
    omega

/-- The checks are the policy. -/
theorem checkRelease_eq (release : Release) (installed : Vector UInt32 3) (time : UInt64) :
    ∃ result, checkRelease release installed time = some result ∧
      ∀ r, result = .ok r ↔ r = release ∧ Policy release installed time := by
  simp only [checkRelease]
  split
  · rename_i hother
    refine ⟨_, rfl, fun r => iff_of_false (by rintro ⟨⟩) ?_⟩
    rintro ⟨-, hpolicy⟩
    rcases hother with h | h | h
    · exact h hpolicy.schema
    · exact h hpolicy.product
    · exact h hpolicy.target
  split
  · rename_i hold
    refine ⟨_, rfl, fun r => iff_of_false (by rintro ⟨⟩) ?_⟩
    rintro ⟨-, hpolicy⟩
    exact List.not_lt.mpr hold hpolicy.newer
  obtain ⟨outside, houtside, htimes⟩ := outsideLifetime_eq release time
  rw [houtside, Option.map_some]
  refine ⟨_, rfl, fun r => ?_⟩
  split
  · rename_i h
    refine iff_of_false (by rintro ⟨⟩) ?_
    rintro ⟨-, hpolicy⟩
    have hinside := htimes.mpr
      ⟨hpolicy.issued, hpolicy.not_expired, hpolicy.lifetime_pos, hpolicy.lifetime_le⟩
    rw [hinside] at h
    cases h
  split
  · rename_i hsize
    refine iff_of_false (by rintro ⟨⟩) ?_
    rintro ⟨-, hpolicy⟩
    rcases hsize with h | h
    · have := hpolicy.size_pos
      rw [h] at this
      cases this
    · exact absurd hpolicy.size_le (Nat.not_le.mpr h)
  · rename_i hproduct hnewer hinside hsize
    simp only [not_or, not_not, Nat.not_lt] at hproduct hsize
    obtain ⟨hissued, hexpired, hpos, hlifetime⟩ := htimes.mp (Bool.eq_false_iff.mpr hinside)
    have hone : 1 ≤ release.installerBytes.toNat := by
      refine Nat.one_le_iff_ne_zero.mpr fun h => hsize.1 (UInt64.toNat.inj h)
    have hpolicy : Policy release installed time :=
      ⟨hproduct.1, hproduct.2.1, hproduct.2.2, List.not_le.mp hnewer, hissued, hexpired, hpos,
        hlifetime, hone, hsize.2⟩
    rw [Except.ok.injEq, and_iff_left hpolicy, eq_comm]

section Verify

variable {ι : Type} {scheme : SignatureScheme ι} {json : UpdateReader} {bytes : List UInt8}
  {key : PublicKey} {installed : Vector UInt32 3} {time : UInt64} {release : Release}

/-- A manifest with a signed release in it. -/
structure SignedRelease (scheme : SignatureScheme ι) (json : UpdateReader) (key : PublicKey)
    (bytes : List UInt8) (release : Release) (envelope : Envelope) : Prop where
  size : bytes.length ≤ MAX_MANIFEST
  key_ne : key ≠ Vector.replicate 32 0
  envelope_eq : json.envelope bytes = .ok envelope
  payload_size : envelope.payload.length ≤ 4096
  signature_size : envelope.signature.length = 64
  verified : scheme.verify key (UPDATE_DOMAIN ++ envelope.payload) envelope.signature = .ok ()
  release_eq : json.release envelope.payload = .ok release

variable (scheme json bytes key installed time) in
/-- **What `verify` takes.** -/
theorem verifyUpdate_eq : ∃ result, verifyUpdate scheme json bytes key installed time =
    some result ∧
    ∀ release, result = .ok release ↔
      (∃ envelope, SignedRelease scheme json key bytes release envelope) ∧
        Policy release installed time := by
  simp only [verifyUpdate]
  split
  · rename_i hsize
    refine ⟨_, rfl, fun r => iff_of_false (by rintro ⟨⟩) ?_⟩
    rintro ⟨⟨envelope, hsigned⟩, -⟩
    rcases hsize with h | h
    · exact absurd hsigned.size (Nat.not_le.mpr h)
    · exact hsigned.key_ne h
  rename_i hsize
  cases henvelope : json.envelope bytes with
  | error e =>
    refine ⟨_, rfl, fun r => iff_of_false (by rintro ⟨⟩) ?_⟩
    rintro ⟨⟨envelope, hsigned⟩, -⟩
    cases henvelope.symm.trans hsigned.envelope_eq
  | ok envelope =>
    -- the manifest determines the envelope
    have hsame : ∀ {release other}, SignedRelease scheme json key bytes release other →
        other = envelope := fun hsigned =>
      Except.ok.inj (hsigned.envelope_eq.symm.trans henvelope)
    simp only
    split
    · rename_i hlimits
      refine ⟨_, rfl, fun r => iff_of_false (by rintro ⟨⟩) ?_⟩
      rintro ⟨⟨other, hsigned⟩, -⟩
      obtain rfl := hsame hsigned
      rcases hlimits with h | h
      · exact absurd hsigned.payload_size (Nat.not_le.mpr h)
      · exact h hsigned.signature_size
    rename_i hlimits
    cases hverify : scheme.verify key (UPDATE_DOMAIN ++ envelope.payload) envelope.signature with
    | error e =>
      refine ⟨_, rfl, fun r => iff_of_false (by rintro ⟨⟩) ?_⟩
      rintro ⟨⟨other, hsigned⟩, -⟩
      obtain rfl := hsame hsigned
      cases hverify.symm.trans hsigned.verified
    | ok u =>
      cases hrelease : json.release envelope.payload with
      | error e =>
        refine ⟨_, rfl, fun r => iff_of_false (by rintro ⟨⟩) ?_⟩
        rintro ⟨⟨other, hsigned⟩, -⟩
        obtain rfl := hsame hsigned
        cases hrelease.symm.trans hsigned.release_eq
      | ok release =>
        simp only [not_or, Nat.not_lt, not_not] at hsize hlimits
        have hsigned : SignedRelease scheme json key bytes release envelope :=
          ⟨hsize.1, hsize.2, henvelope, hlimits.1, hlimits.2, hverify, hrelease⟩
        obtain ⟨result, hresult, hpolicy⟩ := checkRelease_eq release installed time
        refine ⟨result, hresult, fun r => (hpolicy r).trans ⟨?_, ?_⟩⟩
        · rintro ⟨rfl, h⟩
          exact ⟨⟨envelope, hsigned⟩, h⟩
        · rintro ⟨⟨other, hother⟩, h⟩
          obtain rfl := hsame hother
          obtain rfl := Except.ok.inj (hrelease.symm.trans hother.release_eq)
          exact ⟨rfl, h⟩

end Verify

/-! ## Sizes -/

theorem length_bytes_le (bytes : List UInt8) :
    (numbers (bytes.map UInt8.toNat)).length ≤ 2 + 4 * bytes.length := by
  have hbytes := length_numbers_le (bytes.map UInt8.toNat) 2 fun n hn => by
    obtain ⟨b, -, rfl⟩ := List.mem_map.mp hn
    have := b.toNat_lt
    omega
  rwa [List.length_map] at hbytes

theorem length_version_le (version : Vector UInt32 3) :
    (numbers (version.toList.map UInt32.toNat)).length ≤ 35 := by
  have hnumbers := length_numbers_le (version.toList.map UInt32.toNat) 9 fun n hn => by
    obtain ⟨part, -, rfl⟩ := List.mem_map.mp hn
    have := part.toNat_lt
    omega
  rw [List.length_map, Vector.length_toList] at hnumbers
  omega

theorem length_u64_le (n : UInt64) : (number n.toNat).length ≤ 20 :=
  length_number_le (k := 19) (by have := n.toNat_lt; omega)

/-- The payload of a release that may be taken is short. -/
theorem Policy.length_toVec_le {release : Release} {installed : Vector UInt32 3} {time : UInt64}
    (h : Policy release installed time) : release.toVec.length ≤ 1000 := by
  have hschema : (number release.schema.toNat).length = 1 := by
    rw [h.schema]
    decide
  have hversion := length_version_le release.version
  have hissued := length_u64_le release.issuedUnix
  have hexpires := length_u64_le release.expiresUnix
  have hbytes := length_u64_le release.installerBytes
  have hsha := length_bytes_le release.installerSha256.toList
  rw [Vector.length_toList] at hsha
  have hnames : (string "schema").length + (string "product").length + (string "target").length +
      (string "version").length + (string "issued_unix").length + (string "expires_unix").length +
      (string "installer_bytes").length + (string "installer_sha256").length +
      (string "SENSOR Remote Access").length + (string TARGET).length ≤ 200 := by decide +kernel
  simp only [Release.toVec, object, joined, h.product, h.target, List.map_cons, List.map_nil,
    List.flatMap_cons, List.flatMap_nil, List.length_append, List.length_cons, List.length_nil]
  omega

theorem length_envelope_le (envelope : Envelope) :
    envelope.toVec.length ≤ 100 + 4 * envelope.payload.length + 4 * envelope.signature.length := by
  have hpayload := length_bytes_le envelope.payload
  have hsignature := length_bytes_le envelope.signature
  have hnames : (string "payload").length + (string "signature").length = 20 := by decide +kernel
  simp only [Envelope.toVec, object, joined, List.map_cons, List.map_nil, List.flatMap_cons,
    List.flatMap_nil, List.length_append, List.length_cons, List.length_nil]
  omega

/-! ## Texts -/

/-- The value of a field comes after its name. -/
theorem value_eq {name : String} {value value' : List UInt8}
    (h : string name ++ 58 :: value = string name ++ 58 :: value') : value = value' :=
  (List.cons.inj (List.append_cancel_left h)).2

theorem map_toNat_injective {bytes other : List UInt8}
    (h : bytes.map UInt8.toNat = other.map UInt8.toNat) : bytes = other :=
  List.map_injective_iff.mpr (fun _ _ => UInt8.toNat.inj) h

/-- The text of a release tells the release. -/
theorem Release.toVec_injective {release other : Release} (h : release.toVec = other.toVec) :
    release = other := by
  obtain ⟨schema, product, target, version, issued, expires, size, sha256⟩ := release
  obtain ⟨schema', product', target', version', issued', expires', size', sha256'⟩ := other
  have hcomma : isDigit 44 = false := by decide
  simp only [Release.toVec, object, joined, List.map_cons, List.map_nil, List.flatMap_cons,
    List.flatMap_nil, List.append_assoc, List.cons_append, List.append_nil, List.cons.injEq,
    true_and] at h
  obtain ⟨hschema, h⟩ := number_split hcomma hcomma (value_eq h)
  obtain ⟨hproduct, h⟩ := string_split (value_eq (List.cons.inj h).2)
  obtain ⟨htarget, h⟩ := string_split (value_eq (List.cons.inj h).2)
  obtain ⟨hversion, h⟩ := numbers_split (value_eq (List.cons.inj h).2)
  obtain ⟨hissued, h⟩ := number_split hcomma hcomma (value_eq (List.cons.inj h).2)
  obtain ⟨hexpires, h⟩ := number_split hcomma hcomma (value_eq (List.cons.inj h).2)
  obtain ⟨hsize, h⟩ := number_split hcomma hcomma (value_eq (List.cons.inj h).2)
  obtain ⟨hsha, -⟩ := numbers_split (value_eq (List.cons.inj h).2)
  subst hproduct htarget
  obtain rfl := UInt32.toNat.inj hschema
  obtain rfl := UInt64.toNat.inj hissued
  obtain rfl := UInt64.toNat.inj hexpires
  obtain rfl := UInt64.toNat.inj hsize
  obtain rfl := Vector.toList_inj.mp (map_toNat_injective hsha)
  have hparts : Function.Injective UInt32.toNat := fun _ _ => UInt32.toNat.inj
  obtain rfl := Vector.toList_inj.mp (List.map_injective_iff.mpr hparts hversion)
  rfl

/-- The text of an envelope tells the envelope. -/
theorem Envelope.toVec_injective {envelope other : Envelope} (h : envelope.toVec = other.toVec) :
    envelope = other := by
  obtain ⟨payload, signature⟩ := envelope
  obtain ⟨payload', signature'⟩ := other
  simp only [Envelope.toVec, object, joined, List.map_cons, List.map_nil, List.flatMap_cons,
    List.flatMap_nil, List.append_assoc, List.cons_append, List.append_nil, List.cons.injEq,
    true_and] at h
  obtain ⟨hpayload, h⟩ := numbers_split (value_eq h)
  obtain ⟨hsignature, -⟩ := numbers_split (value_eq (List.cons.inj h).2)
  rw [map_toNat_injective hpayload, map_toNat_injective hsignature]

/-! ## The result -/

section Policy

variable {ι : Type} {scheme : SignatureScheme ι} {json : UpdateReader}

/-- What is signed of a release that may be taken is a manifest that `verify` looks into. -/
theorem signedRelease_signUpdate (laws : scheme.Laws) (hjson : json.Laws) {release : Release}
    {installed : Vector UInt32 3} {time : UInt64} (key : ι)
    (hkey : scheme.publicKey key ≠ Vector.replicate 32 0) (h : Policy release installed time) :
    SignedRelease scheme json (scheme.publicKey key) (signUpdate scheme release key) release
      ⟨release.toVec, scheme.sign key (UPDATE_DOMAIN ++ release.toVec)⟩ := by
  have hpayload := h.length_toVec_le
  have hsignature := laws.length_sign key (UPDATE_DOMAIN ++ release.toVec)
  have henvelope := length_envelope_le
    ⟨release.toVec, scheme.sign key (UPDATE_DOMAIN ++ release.toVec)⟩
  have hsize : (signUpdate scheme release key).length ≤ MAX_MANIFEST := by
    simp only [signUpdate, MAX_MANIFEST] at henvelope ⊢
    omega
  exact ⟨hsize, hkey, hjson.envelope_toVec _, by simp only; omega, hsignature,
    laws.verify_sign key _, hjson.release_toVec release⟩

/-- And one that it takes. -/
theorem verifyUpdate_signUpdate (laws : scheme.Laws) (hjson : json.Laws) {release : Release}
    {installed : Vector UInt32 3} {time : UInt64} (key : ι)
    (hkey : scheme.publicKey key ≠ Vector.replicate 32 0) (h : Policy release installed time) :
    verifyUpdate scheme json (signUpdate scheme release key) (scheme.publicKey key) installed time =
      some (.ok release) := by
  obtain ⟨result, hresult, htakes⟩ := verifyUpdate_eq scheme json (signUpdate scheme release key)
    (scheme.publicKey key) installed time
  have hsigned := signedRelease_signUpdate laws hjson key hkey h
  rw [hresult, (htakes release).mpr ⟨⟨_, hsigned⟩, h⟩]

/-- **Updates.** `verify` never panics. What it takes was signed by the owner of the key, if nobody
else makes signatures of that key, and meets the policy; and what meets the policy it takes when
it is signed. -/
theorem update_policy (laws : scheme.Laws) (hjson : json.Laws)
    (hkeys : ∀ key, scheme.publicKey key ≠ Vector.replicate 32 0)
    (signed : PublicKey → Set (List UInt8))
    (hunforgeable : ∀ key message signature, scheme.verify key message signature = .ok () →
      message ∈ signed key) :
    (∀ bytes key installed time, verifyUpdate scheme json bytes key installed time ≠ none) ∧
    (∀ bytes key installed time release,
      verifyUpdate scheme json bytes key installed time = some (.ok release) →
        (∃ payload, UPDATE_DOMAIN ++ payload ∈ signed key ∧ json.release payload = .ok release) ∧
          Policy release installed time) ∧
    ∀ release key installed time, Policy release installed time →
      verifyUpdate scheme json (signUpdate scheme release key)
      (scheme.publicKey key) installed time =
        some (.ok release) := by
  refine ⟨fun bytes key installed time => ?_, fun bytes key installed time release h => ?_,
    fun release key installed time hpolicy => ?_⟩
  · obtain ⟨result, hresult, -⟩ := verifyUpdate_eq scheme json bytes key installed time
    rw [hresult]
    exact Option.some_ne_none result
  · obtain ⟨result, hresult, htakes⟩ := verifyUpdate_eq scheme json bytes key installed time
    rw [hresult, Option.some.injEq] at h
    obtain ⟨⟨envelope, hsigned⟩, hpolicy⟩ := (htakes release).mp h
    exact ⟨⟨envelope.payload, hunforgeable _ _ _ hsigned.verified, hsigned.release_eq⟩, hpolicy⟩
  · exact verifyUpdate_signUpdate laws hjson key (hkeys key) hpolicy

end Policy

namespace NextRelease

/-! The release of the test, signed with one key. -/

def publicKey : PublicKey := Vector.replicate 32 7

def scheme : SignatureScheme Unit where
  publicKey _ := publicKey
  sign _ message := LastBytes.signed message
  verify key message signature :=
    if key = publicKey ∧ signature = LastBytes.signed message then .ok ()
    else .error .signatureVerification

theorem laws : scheme.Laws where
  length_sign _ message := LastBytes.laws.length_sign (Vector.replicate 32 0) message
  verify_sign _ _ := if_pos ⟨rfl, rfl⟩

open Classical in
/-- What was written is read, and nothing else. -/
noncomputable def json : UpdateReader where
  release bytes := if h : ∃ release : Release, release.toVec = bytes then .ok h.choose
    else .error "invalid JSON"
  envelope bytes := if h : ∃ envelope : Envelope, envelope.toVec = bytes then .ok h.choose
    else .error "invalid JSON"

theorem json_laws : json.Laws where
  release_toVec release := by
    have h : ∃ other : Release, other.toVec = release.toVec := ⟨release, rfl⟩
    simp only [json, dif_pos h, Release.toVec_injective h.choose_spec]
  envelope_toVec envelope := by
    have h : ∃ other : Envelope, other.toVec = envelope.toVec := ⟨envelope, rfl⟩
    simp only [json, dif_pos h, Envelope.toVec_injective h.choose_spec]

def release : Release :=
  { schema := 1
    product := "SENSOR Remote Access"
    target := TARGET
    version := #v[0, 3, 3]
    issuedUnix := 100
    expiresUnix := 200
    installerBytes := 5
    installerSha256 := Vector.replicate 32 0 }

theorem policy : Policy release #v[0, 3, 2] 150 := by
  refine ⟨rfl, rfl, rfl, ?_, ?_, ?_, ?_, ?_, ?_, ?_⟩ <;> decide

theorem taken : verifyUpdate scheme json (signUpdate scheme release ()) publicKey #v[0, 3, 2] 150 =
    some (.ok release) := by
  have hkey : publicKey ≠ Vector.replicate 32 0 := by decide
  obtain ⟨-, -, htakes⟩ := update_policy laws json_laws (fun _ => hkey)
    (fun key => {_message | key = publicKey}) (fun key message signature h => by
      by_contra hother
      have hrefused : ¬(key = publicKey ∧ signature = LastBytes.signed message) :=
        fun heq => hother heq.1
      simp [scheme, hrefused] at h)
  exact htakes release () _ _ policy

end NextRelease

end SensorRemote
