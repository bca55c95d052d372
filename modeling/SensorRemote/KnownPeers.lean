import SensorRemote.Crypto
import SensorRemote.IdentityInput

/-!
# Saved pins

A device that is saved as a contact is known by its saved key, however its identifier is
spelled where a connection is asked for. `known_peer` gives that key or none, and a caller whose
key was verified passes exactly if its contact, if there is one, has that key.
-/

namespace SensorRemote

/-- The key that `known_peer` parses: no key is the zero key. -/
def askedKey (key : String) : String :=
  if trim key.toList = [] then "0000000000000000000000000000000000000000000000000000000000000000"
  else key

variable {contacts : List Contact} {isAddress : String → Bool}

/-- The contacts of a store that validates have a key. -/
theorem pinned_of_validateFrom : ∀ {contacts : List Contact} {ids : List DeviceId},
    validateFrom isAddress ids contacts = .ok () → ∀ contact ∈ contacts,
      ∃ saved, peer contact.id contact.key = .ok saved ∧ saved.publicKey ≠ NO_KEY
  | [], _, _ => by simp
  | contact :: rest, ids, h => by
    simp only [validateFrom, bind, Except.bind, throw, throwThe, MonadExceptOf.throw] at h
    split at h
    · cases h
    · split at h
      · cases h
      · rename_i saved hsaved
        split at h
        · cases h
        · rename_i hkey
          split at h
          · cases h
          · intro contact' hmem
            rcases List.mem_cons.mp hmem with rfl | hrest
            · exact ⟨saved, hsaved, hkey⟩
            · exact pinned_of_validateFrom h contact' hrest

theorem pinned_of_validate (h : validateContacts isAddress contacts = .ok ()) :
    ∀ contact ∈ contacts,
      ∃ saved, peer contact.id contact.key = .ok saved ∧ saved.publicKey ≠ NO_KEY := by
  simp only [validateContacts] at h
  split at h
  · cases h
  · exact pinned_of_validateFrom h

/-- The device that an identifier denotes does not depend on the key next to it. -/
theorem deviceId_of_peer {id key key' : String} {device device' : ExpectedPeer PublicKey}
    (h : peer id key = .ok device) (h' : peer id key' = .ok device') :
    device.deviceId = device'.deviceId :=
  DeviceId.ext ((peer_eq_ok.mp h).1.2.trans (peer_eq_ok.mp h').1.2.symm)

/-- The contact of a device is the one that is found. -/
theorem find_contact (hdistinct : Distinct contacts) {contact : Contact} (hmem : contact ∈ contacts)
    {saved : ExpectedPeer PublicKey} (hsaved : peer contact.id contact.key = .ok saved) :
    contacts.find? (·.isOf saved.deviceId) = some contact := by
  have hof : contact.isOf saved.deviceId = true := Contact.isOf_iff.mpr ⟨saved, hsaved, rfl⟩
  cases hfind : contacts.find? (·.isOf saved.deviceId) with
  | none => exact absurd hof (by simpa using List.find?_eq_none.mp hfind contact hmem)
  | some found =>
    have hfound := List.mem_of_find?_eq_some hfind
    obtain ⟨known, hknown, hdevice⟩ := Contact.isOf_iff.mp (by simpa using List.find?_some hfind)
    by_contra hne
    have hdiffer : found.Differs contact :=
      List.Pairwise.forall hdistinct hfound hmem fun heq => hne (congrArg some heq)
    exact hdiffer known saved hknown hsaved hdevice

/-- **What `known_peer` does with a saved device**: an error, or the contact. -/
theorem knownPeer_saved (hdistinct : Distinct contacts) {id key : String} {contact : Contact}
    (hmem : contact ∈ contacts) {parsed saved : ExpectedPeer PublicKey}
    (hsaved : peer contact.id contact.key = .ok saved)
    (hparsed : peer id (askedKey key) = .ok parsed) (hdevice : parsed.deviceId = saved.deviceId) :
    knownPeer id key contacts =
      if parsed.publicKey ≠ NO_KEY ∧ parsed.publicKey ≠ saved.publicKey then
        .error "This device's key differs from its saved identity. Connection blocked."
      else .ok saved := by
  have hfind := find_contact hdistinct hmem hsaved
  rw [askedKey] at hparsed
  simp only [knownPeer, hparsed, hdevice, hfind, hsaved, bind, Except.bind, throw, throwThe,
    MonadExceptOf.throw, pure, Except.pure]

/-- A device that is not saved is what was parsed. -/
theorem knownPeer_unsaved {id key : String}
    (h : ∀ parsed, peer id (askedKey key) = .ok parsed → ∀ contact ∈ contacts,
      contact.isOf parsed.deviceId = false) :
    knownPeer id key contacts = peer id (askedKey key) := by
  simp only [knownPeer, ← askedKey.eq_1]
  cases hparsed : peer id (askedKey key) with
  | error e => rfl
  | ok parsed =>
    have hnone : contacts.find? (·.isOf parsed.deviceId) = none :=
      List.find?_eq_none.mpr fun contact hmem => by simp [h parsed hparsed contact hmem]
    simp only [bind, Except.bind, hnone, pure, Except.pure]

theorem not_isOf_iff {contact : Contact} {deviceId : DeviceId} : contact.isOf deviceId = false ↔
    ∀ saved, peer contact.id contact.key = .ok saved → saved.deviceId ≠ deviceId := by
  rw [← Bool.not_eq_true, Contact.isOf_iff]
  push Not
  rfl

/-- A device that was verified, as it is shown. -/
theorem askedKey_toHex (key : PublicKey) : askedKey key.toHex = key.toHex := by
  refine if_neg fun hnil => ?_
  have hparse := parseHex_toHex key
  simp [parseHex, hnil] at hparse

/-- A verified device passes exactly if its contact, if there is one, has its key. -/
theorem knownPeer_verified (hdistinct : Distinct contacts) {device : ExpectedPeer PublicKey}
    (hkey : device.publicKey ≠ NO_KEY) :
    (∃ known, knownPeer device.deviceId.display device.publicKey.toHex contacts = .ok known) ↔
      AgreesWith contacts device := by
  constructor
  · rintro ⟨known, hknown⟩
    exact agreesWith_of_knownPeer hkey hdistinct hknown
  · intro hagrees
    have hparsed : peer device.deviceId.display (askedKey device.publicKey.toHex) = .ok device := by
      rw [askedKey_toHex]
      exact peer_display device.deviceId device.publicKey
    by_cases hsaved : ∃ contact ∈ contacts, contact.isOf device.deviceId = true
    · obtain ⟨contact, hmem, hof⟩ := hsaved
      obtain ⟨saved, hsaved, hdevice⟩ := Contact.isOf_iff.mp hof
      rw [knownPeer_saved hdistinct hmem hsaved hparsed hdevice.symm,
        if_neg fun h => h.2 (hagrees contact hmem saved hsaved hdevice).symm]
      exact ⟨saved, rfl⟩
    · rw [knownPeer_unsaved fun parsed h contact hmem => ?_]
      · exact ⟨device, hparsed⟩
      · obtain rfl := Except.ok.inj (hparsed.symm.trans h)
        exact Bool.eq_false_iff.mpr fun hof => hsaved ⟨contact, hmem, hof⟩

/-- **Saved pins always win.** Of a store that validates: a device that a contact is of, however
its identifier is spelled, is refused or known by the key that is saved, which is not the zero
key; a device that no contact is of is what was parsed; and a caller whose signature was
verified passes exactly if the saved key of its identifier, if there is one, is its own. -/
theorem saved_pins_win {σ ι ε : Type} {p : Primitives PublicKey σ ι ε}
    (hstrict : ∀ message signature, p.verify NO_KEY message signature ≠ .ok ())
    (hvalid : validateContacts isAddress contacts = .ok ()) :
    (∀ contact ∈ contacts, ∀ saved, peer contact.id contact.key = .ok saved →
      ∀ id spelled parsed, peer id spelled = .ok parsed → parsed.deviceId = saved.deviceId →
        saved.publicKey ≠ NO_KEY ∧ ∀ key, (∃ error, knownPeer id key contacts = .error error) ∨
          knownPeer id key contacts = .ok saved) ∧
    (∀ id key, (∀ spelled parsed, peer id spelled = .ok parsed → ∀ contact ∈ contacts,
        ∀ saved, peer contact.id contact.key = .ok saved → saved.deviceId ≠ parsed.deviceId) →
      knownPeer id key contacts = peer id (askedKey key)) ∧
    ∀ (device : ExpectedPeer PublicKey) message signature,
      p.verify device.publicKey message signature = .ok () →
      ((∃ known, knownPeer device.deviceId.display device.publicKey.toHex contacts = .ok known) ↔
        ∀ contact ∈ contacts, ∀ saved, peer contact.id contact.key = .ok saved →
          saved.deviceId = device.deviceId → saved.publicKey = device.publicKey) := by
  have hdistinct := distinct_of_validate hvalid
  refine ⟨?_, ?_, ?_⟩
  · intro contact hmem saved hsaved id spelled parsed hspelled hdevice
    obtain ⟨saved', hsaved', hkey⟩ := pinned_of_validate hvalid contact hmem
    obtain rfl := Except.ok.inj (hsaved.symm.trans hsaved')
    refine ⟨hkey, fun key => ?_⟩
    cases hparsed : peer id (askedKey key) with
    | error e =>
      left
      refine ⟨e, ?_⟩
      rw [askedKey] at hparsed
      simp only [knownPeer, hparsed, bind, Except.bind]
    | ok parsed' =>
      rw [knownPeer_saved hdistinct hmem hsaved hparsed
        ((deviceId_of_peer hparsed hspelled).trans hdevice)]
      split
      · exact .inl ⟨_, rfl⟩
      · exact .inr rfl
  · intro id key hunsaved
    apply knownPeer_unsaved
    intro parsed hparsed contact hmem
    exact not_isOf_iff.mpr fun saved hsaved => hunsaved _ parsed hparsed contact hmem saved hsaved
  · intro device message signature hverified
    apply knownPeer_verified hdistinct
    intro hkey
    rw [hkey] at hverified
    exact hstrict message signature hverified

namespace SpacedIdentifier

/-! One contact, asked for with spaces and without a key. -/

/-- Signatures that only say whose they are. -/
def primitives : Primitives PublicKey (Option PublicKey) PublicKey PublicKey where
  zero := NO_KEY
  noSignature := none
  publicKey identity := identity
  sign identity _ := some identity
  verify key _ signature :=
    if key ≠ NO_KEY ∧ signature = some key then .ok () else .error .signatureVerification
  ephemeralPublic ephemeral := ephemeral
  diffieHellman ephemeral _ := .ok ephemeral
  sha256 _ := NO_KEY
  extract _ ikm := ikm
  expand key _ := .ok key

def id : DeviceId := ⟨123456789, DeviceId.ascending_inRange⟩
def key : PublicKey := Vector.replicate 32 0xab
def contact : Contact := ⟨"Known", id.display, key.toHex, ""⟩

theorem contact_peer : peer contact.id contact.key = .ok ⟨id, key⟩ := peer_display id key

theorem contacts_valid : validateContacts (fun _ => false) [contact] = .ok () := by
  have hkey : key ≠ NO_KEY := by decide
  have hname : ¬(contact.name.isEmpty ∨ contact.name.utf8ByteSize > 128 ∨
      contact.name.toList.any isControl) := by decide
  have hvalid : contact.validate (fun _ => false) = .ok () := by
    simp only [Contact.validate, contact_peer, bind, Except.bind, if_neg hname]
    rfl
  simp [validateContacts, validateFrom, hvalid, contact_peer, bind, Except.bind, hkey]

/-- The saved key is found, or nothing. -/
theorem pin_found : (∃ error, knownPeer id.display "" [contact] = .error error) ∨
    knownPeer id.display "" [contact] = .ok ⟨id, key⟩ := by
  have hstrict : ∀ message signature, primitives.verify NO_KEY message signature ≠ .ok () := by
    intro message signature
    simp [primitives]
  obtain ⟨hsaved, -⟩ := saved_pins_win hstrict contacts_valid
  exact (hsaved contact List.mem_cons_self ⟨id, key⟩ contact_peer _ _ _ contact_peer rfl).2 ""

end SpacedIdentifier

end SensorRemote
