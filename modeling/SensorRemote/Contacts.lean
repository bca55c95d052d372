import SensorRemote.Messages
import SensorRemote.Session
import Mathlib.Data.List.DropRight
import Mathlib.Data.List.Pairwise

/-!
# Contacts and grants

The desktop application (`sensor-desktop`) stores the devices its user trusts as the texts
that were typed in, and parses them when it compares (`peer`, `known_peer`). A grant
(`unattended.rs`) lets one device in without a prompt, for a limited time and to two kinds
of sessions.
-/

namespace SensorRemote

/-! ## Parsing -/

/-- `char::is_whitespace`: the Unicode property White_Space. -/
def isWhitespace (c : Char) : Bool :=
  (9 ≤ c.toNat && c.toNat ≤ 13) || c.toNat = 0x20 || c.toNat = 0x85 || c.toNat = 0xA0
    || c.toNat = 0x1680 || (0x2000 ≤ c.toNat && c.toNat ≤ 0x200A) || c.toNat = 0x2028
    || c.toNat = 0x2029 || c.toNat = 0x202F || c.toNat = 0x205F || c.toNat = 0x3000

/-- `str::trim`. -/
def trim (text : List Char) : List Char := (text.dropWhile isWhitespace).rdropWhile isWhitespace

/-- `u32::from_str`: a plus sign may stand before the digits. -/
def parseU32 (text : List Char) : Option ℕ :=
  let digits := if text.head? = some '+' then text.tail else text
  if digits = [] ∨ !digits.all Char.isDigit then none
  else
    let value := Nat.ofDigitChars 10 digits 0
    if value < 2 ^ 32 then some value else none

/-- `char::to_digit(16)`. -/
def hexDigit (c : Char) : Option ℕ :=
  if c.isDigit then some (c.toNat - '0'.toNat)
  else if 'a' ≤ c ∧ c ≤ 'f' then some (c.toNat - 'a'.toNat + 10)
  else if 'A' ≤ c ∧ c ≤ 'F' then some (c.toNat - 'A'.toNat + 10)
  else none

/-- `u8::from_str_radix` of two characters, the first of which may be a plus sign. -/
def parseByte (high low : Char) : Option UInt8 :=
  if high = '+' then (hexDigit low).map UInt8.ofNat
  else do
    let high ← hexDigit high
    let low ← hexDigit low
    return UInt8.ofNat (16 * high + low)

/-- The loop of `parse_hex`. -/
def parseBytes : List Char → Option (List UInt8)
  | high :: low :: rest => do
    let byte ← parseByte high low
    let bytes ← parseBytes rest
    return byte :: bytes
  | _ => some []

/-- `parse_hex` of a public key. -/
def parseHex (value : String) : Except String PublicKey :=
  let value := trim value.toList
  if !value.all (·.toNat < 128) ∨ value.length ≠ 64 then
    .error "Expected 64 hexadecimal characters."
  else
    match parseBytes value with
    | none => .error "Invalid hexadecimal value."
    | some bytes =>
      if h : bytes.length = 32 then .ok ⟨bytes.toArray, by simpa using h⟩
      -- not reached: sixty-four characters are thirty-two bytes
      else .error "Invalid hexadecimal value."

/-- `peer`. -/
def peer (id key : String) : Except String (ExpectedPeer PublicKey) := do
  let id := id.toList.filter (!isWhitespace ·)
  match parseU32 id with
  | none => throw "Enter the nine-digit device ID."
  | some value =>
    match DeviceId.new value with
    | none => throw s!"invalid SENSOR device id: {value}"
    | some deviceId => return ⟨deviceId, ← parseHex key⟩

/-! ### What is shown is parsed back -/

theorem hexDigit_digitChar : ∀ n < 16, hexDigit n.digitChar = some n := by decide

/-- A hexadecimal digit is an ASCII character, no space and no sign. -/
theorem digitChar_plain : ∀ n < 16, isWhitespace n.digitChar = false ∧
    n.digitChar.toNat < 128 ∧ n.digitChar ≠ '+' := by decide

theorem not_isWhitespace_of_isDigit {c : Char} (h : c.isDigit = true) : isWhitespace c = false := by
  have hrange : 48 ≤ c.toNat ∧ c.toNat ≤ 57 := Char.isDigit_iff_toNat.mp h
  simp only [isWhitespace, Bool.or_eq_false_iff, Bool.and_eq_false_iff, decide_eq_false_iff_not]
  omega

theorem parseByte_digits (b : UInt8) :
    parseByte (b.toNat / 16).digitChar (b.toNat % 16).digitChar = some b := by
  have hlow : b.toNat % 16 < 16 := Nat.mod_lt _ (by decide)
  have hhigh : b.toNat / 16 < 16 := by
    have := b.toNat_lt
    omega
  rw [parseByte, if_neg (digitChar_plain _ hhigh).2.2, hexDigit_digitChar _ hhigh,
    hexDigit_digitChar _ hlow]
  apply congrArg some
  rw [Nat.div_add_mod]
  exact UInt8.ofNat_toNat

theorem parseBytes_digits (bytes : List UInt8) :
    parseBytes (bytes.flatMap fun b => [(b.toNat / 16).digitChar, (b.toNat % 16).digitChar]) =
      some bytes := by
  induction bytes with
  | nil => rfl
  | cons b bytes ih => simp [parseBytes, parseByte_digits, ih]

theorem trim_eq_self {text : List Char} (h : ∀ c ∈ text, isWhitespace c = false) :
    trim text = text := by
  have hdrop : text.dropWhile isWhitespace = text := by
    rw [List.dropWhile_eq_self_iff]
    intro hpos
    simp [h _ (List.getElem_mem hpos)]
  rw [trim, hdrop, List.rdropWhile_eq_self_iff]
  intro hne
  simp [h _ (List.getLast_mem hne)]

/-- A key as shown is parsed back. -/
theorem parseHex_toHex (key : PublicKey) : parseHex key.toHex = .ok key := by
  have htext : ∀ c ∈ key.toHex.toList, isWhitespace c = false ∧ c.toNat < 128 := by
    intro c hc
    simp only [PublicKey.toHex, encodeHex, String.toList_ofList, List.mem_flatMap, List.mem_cons,
      List.not_mem_nil, or_false] at hc
    obtain ⟨b, -, hb⟩ := hc
    have := b.toNat_lt
    rcases hb with rfl | rfl
    · have := digitChar_plain (b.toNat / 16) (by omega)
      exact ⟨this.1, this.2.1⟩
    · have := digitChar_plain (b.toNat % 16) (by omega)
      exact ⟨this.1, this.2.1⟩
  have htrim : trim key.toHex.toList = key.toHex.toList := trim_eq_self fun c hc => (htext c hc).1
  have hlength : key.toHex.toList.length = 64 := by
    simp [PublicKey.toHex, encodeHex, List.length_flatMap]
  have hascii : key.toHex.toList.all (·.toNat < 128) = true := by
    simpa using fun c hc => (htext c hc).2
  have hbytes : parseBytes key.toHex.toList = some key.toList := by
    rw [PublicKey.toHex, encodeHex, String.toList_ofList]
    exact parseBytes_digits _
  simp only [parseHex, htrim, hlength, hascii, hbytes]
  simp [Vector.toList]

/-- Three groups of three are all of nine. -/
theorem groups_of_nine {α : Type} {l : List α} (h : l.length = 9) :
    l.take 3 ++ (l.drop 3).take 3 ++ (l.drop 6).take 3 = l := by
  have hlast : (l.drop 6).take 3 = l.drop 6 := List.take_of_length_le (by simp [h])
  have hdrop : l.drop 6 = (l.drop 3).drop 3 := by rw [List.drop_drop]
  rw [hlast, hdrop, List.append_assoc, List.take_append_drop, List.take_append_drop]

namespace DeviceId

variable (id : DeviceId)

theorem length_digits : (Nat.toDigits 10 id.value).length = 9 := by
  have hrange := id.inRange
  simp only [MIN_DEVICE_ID, DEVICE_ID_SPAN] at hrange
  have hle : (Nat.toDigits 10 id.value).length ≤ 9 :=
    (Nat.length_toDigits_le_iff (by decide) (by decide)).mpr (by omega)
  have hgt : ¬(Nat.toDigits 10 id.value).length ≤ 8 := by
    rw [Nat.length_toDigits_le_iff (by decide) (by decide)]
    omega
  omega

theorem isDigit_of_mem_digits {c : Char} (hc : c ∈ Nat.toDigits 10 id.value) : c.isDigit = true :=
  Nat.isDigit_of_mem_toDigits (by decide) (by decide) hc

/-- Without the spaces an identifier is its digits. -/
theorem filter_display :
    id.display.toList.filter (!isWhitespace ·) = Nat.toDigits 10 id.value := by
  have hplain : ∀ c ∈ Nat.toDigits 10 id.value, (!isWhitespace c) = true := by
    intro c hc
    rw [not_isWhitespace_of_isDigit (id.isDigit_of_mem_digits hc)]
    rfl
  have hspace : [' '].filter (!isWhitespace ·) = [] := by decide
  rw [display, String.toList_ofList, List.leftpad, id.length_digits, Nat.sub_self,
    List.replicate_zero, List.nil_append]
  simp only [List.filter_append, hspace, List.append_nil]
  rw [← List.filter_append, ← List.filter_append, groups_of_nine id.length_digits,
    List.filter_eq_self.mpr hplain]

theorem parseU32_digits : parseU32 (Nat.toDigits 10 id.value) = some id.value := by
  have hsign : (Nat.toDigits 10 id.value).head? ≠ some '+' := by
    intro hplus
    exact absurd (id.isDigit_of_mem_digits (List.mem_of_mem_head? hplus)) (by decide)
  have hall : (Nat.toDigits 10 id.value).all Char.isDigit = true :=
    List.all_eq_true.mpr fun _ hc => id.isDigit_of_mem_digits hc
  have hrange : id.value < 2 ^ 32 := by
    have := id.inRange.2
    simp only [MIN_DEVICE_ID, DEVICE_ID_SPAN] at this
    omega
  have hdigits : ¬(Nat.toDigits 10 id.value = [] ∨ (!(Nat.toDigits 10 id.value).all Char.isDigit) =
      true) := by
    rw [hall]
    simp [Nat.toDigits_ne_nil]
  rw [parseU32, if_neg hsign]
  simp only [if_neg hdigits, Nat.ofDigitChars_ten_toDigits, if_pos hrange]

end DeviceId

/-- A device as shown in a request is parsed back. -/
theorem peer_display (id : DeviceId) (key : PublicKey) :
    peer id.display key.toHex = .ok ⟨id, key⟩ := by
  simp only [peer, id.filter_display, id.parseU32_digits, DeviceId.new_value, parseHex_toHex]
  rfl

/-! ## Contacts -/

/-- `Contact`. -/
structure Contact where
  name : String
  id : String
  key : String
  address : String
  deriving DecidableEq

/-- The key that stands for none. -/
def NO_KEY : PublicKey := Vector.replicate 32 0

/-- `Contact::validate`. What the standard library parses as a socket address is a parameter. -/
def Contact.validate (isAddress : String → Bool) (contact : Contact) : Except String Unit := do
  let _ ← peer contact.id contact.key
  if contact.name.isEmpty ∨ contact.name.utf8ByteSize > 128 ∨ contact.name.toList.any isControl then
    throw "Contact name must contain 1-128 bytes without control characters."
  if !contact.address.isEmpty then
    if !isAddress contact.address then
      throw "Use an IP address and port, or leave empty for Internet routing."

/-- The loop of `validate_contacts`: `ids` are the devices of the contacts before. -/
def validateFrom (isAddress : String → Bool) (ids : List DeviceId) :
    List Contact → Except String Unit
  | [] => .ok ()
  | contact :: rest => do
    contact.validate isAddress
    let known ← peer contact.id contact.key
    if known.publicKey = NO_KEY then
      throw "A trusted contact requires a verified, nonzero public key."
    if known.deviceId ∈ ids then
      throw "Duplicate device IDs in the contact store are not allowed."
    validateFrom isAddress (known.deviceId :: ids) rest

/-- `validate_contacts`. -/
def validateContacts (isAddress : String → Bool) (contacts : List Contact) : Except String Unit :=
  if contacts.length > 100 then .error "Contact limit is 100."
  else validateFrom isAddress [] contacts

/-- The contact is of a device. -/
def Contact.isOf (contact : Contact) (deviceId : DeviceId) : Bool :=
  match peer contact.id contact.key with
  | .ok known => known.deviceId = deviceId
  | .error _ => false

/-- `known_peer`. -/
def knownPeer (id key : String) (contacts : List Contact) :
    Except String (ExpectedPeer PublicKey) := do
  let parsed ← peer id (if trim key.toList = [] then
    "0000000000000000000000000000000000000000000000000000000000000000" else key)
  match contacts.find? (·.isOf parsed.deviceId) with
  | some contact =>
    let known ← peer contact.id contact.key
    if parsed.publicKey ≠ NO_KEY ∧ parsed.publicKey ≠ known.publicKey then
      throw "This device's key differs from its saved identity. Connection blocked."
    return known
  | none => return parsed

/-- The saved key of a device, of every contact that is of it, is the device's. -/
def AgreesWith (contacts : List Contact) (device : ExpectedPeer PublicKey) : Prop :=
  ∀ contact ∈ contacts, ∀ known, peer contact.id contact.key = .ok known →
    known.deviceId = device.deviceId → known.publicKey = device.publicKey

/-- Two contacts are not of one device. -/
def Contact.Differs (c c' : Contact) : Prop :=
  ∀ known known', peer c.id c.key = .ok known → peer c'.id c'.key = .ok known' →
    known.deviceId ≠ known'.deviceId

instance : Std.Symm Contact.Differs :=
  ⟨fun _ _ h known known' hk hk' => (h known' known hk' hk).symm⟩

/-- A contact store without two contacts of one device. -/
def Distinct (contacts : List Contact) : Prop := contacts.Pairwise Contact.Differs

theorem Contact.isOf_iff {contact : Contact} {deviceId : DeviceId} :
    contact.isOf deviceId = true ↔
      ∃ known, peer contact.id contact.key = .ok known ∧ known.deviceId = deviceId := by
  simp only [isOf]
  split
  · rename_i known hpeer
    simp [hpeer]
  · rename_i e hpeer
    simp [hpeer]

/-- A store that validates has no two contacts of one device. -/
theorem distinct_of_validateFrom {isAddress : String → Bool} {contacts : List Contact} :
    ∀ {ids : List DeviceId}, validateFrom isAddress ids contacts = .ok () →
      Distinct contacts ∧ ∀ contact ∈ contacts, ∀ known,
        peer contact.id contact.key = .ok known → known.deviceId ∉ ids := by
  induction contacts with
  | nil => exact fun _ => ⟨List.Pairwise.nil, by simp⟩
  | cons contact rest ih =>
    intro ids h
    simp only [validateFrom, bind, Except.bind, throw, throwThe, MonadExceptOf.throw] at h
    split at h
    · cases h
    · split at h
      · cases h
      · rename_i known hknown
        split at h
        · cases h
        · split at h
          · cases h
          · rename_i hnew
            obtain ⟨hdistinct, hothers⟩ := ih h
            refine ⟨List.pairwise_cons.mpr ⟨?_, hdistinct⟩, ?_⟩
            · intro contact' hcontact' known₁ known₂ h₁ h₂ heq
              obtain rfl : known = known₁ := Except.ok.inj (hknown.symm.trans h₁)
              exact hothers contact' hcontact' known₂ h₂ (by simp [heq])
            · intro contact' hcontact' known' hknown'
              rcases List.mem_cons.mp hcontact' with rfl | hrest
              · obtain rfl : known = known' := Except.ok.inj (hknown.symm.trans hknown')
                exact hnew
              · exact fun hmem =>
                  hothers contact' hrest known' hknown' (List.mem_cons_of_mem _ hmem)

theorem distinct_of_validate {isAddress : String → Bool} {contacts : List Contact}
    (h : validateContacts isAddress contacts = .ok ()) : Distinct contacts := by
  simp only [validateContacts] at h
  split at h
  · cases h
  · exact (distinct_of_validateFrom h).1

/-- **Known peers.** A device with a key that passes has the key of its saved contact. -/
theorem agreesWith_of_knownPeer {device known : ExpectedPeer PublicKey} {contacts : List Contact}
    (hkey : device.publicKey ≠ NO_KEY) (hdistinct : Distinct contacts)
    (h : knownPeer device.deviceId.display device.publicKey.toHex contacts = .ok known) :
    AgreesWith contacts device := by
  have htrim : ¬trim device.publicKey.toHex.toList = [] := by
    intro hnil
    have hparse := parseHex_toHex device.publicKey
    simp [parseHex, hnil] at hparse
  simp only [knownPeer, if_neg htrim, peer_display, bind, Except.bind, pure, Except.pure, throw,
    throwThe, MonadExceptOf.throw] at h
  split at h
  · rename_i contact hfind
    have hmem := List.mem_of_find?_eq_some hfind
    obtain ⟨saved, hsaved, hdevice⟩ := Contact.isOf_iff.mp (by simpa using List.find?_some hfind)
    rw [hsaved] at h
    simp only at h
    split at h
    · cases h
    · rename_i hsame
      have hsame : device.publicKey = saved.publicKey := by
        by_contra hne
        exact hsame ⟨hkey, hne⟩
      intro contact' hmem' known' hknown' hdevice'
      by_cases heq : contact = contact'
      · subst heq
        obtain rfl : saved = known' := Except.ok.inj (hsaved.symm.trans hknown')
        exact hsame.symm
      · exfalso
        have hdiffer : contact.Differs contact' := List.Pairwise.forall hdistinct hmem hmem' heq
        exact hdiffer saved known' hsaved hknown' (hdevice.trans hdevice'.symm)
  · rename_i hnone
    intro contact hmem known' hknown' hdevice
    have := List.find?_eq_none.mp hnone contact hmem
    exact absurd (Contact.isOf_iff.mpr ⟨known', hknown', hdevice⟩) this

/-! ## Grants -/

def MAX_LIFETIME : ℕ := 30 * 86400

/-- `Grant`. -/
structure Grant where
  deviceId : DeviceId
  publicKey : PublicKey
  issuedUnix : ℕ
  expiresUnix : ℕ
  deriving DecidableEq

namespace Grant

/-- `Grant::new`. -/
def new (device : ExpectedPeer PublicKey) (now : ℕ) : Except String Grant :=
  if device.publicKey = NO_KEY then
    .error "Unattended access requires a verified nonzero public key"
  else if now + MAX_LIFETIME ≥ 2 ^ 64 then .error "Invalid grant date"
  else .ok ⟨device.deviceId, device.publicKey, now, now + MAX_LIFETIME⟩

/-- `Grant::valid`. -/
def valid (grant : Grant) : Bool :=
  grant.publicKey ≠ NO_KEY ∧ grant.expiresUnix > grant.issuedUnix ∧
    grant.expiresUnix - grant.issuedUnix ≤ MAX_LIFETIME

/-- `Grant::permits`. -/
def permits (grant : Grant) (device : ExpectedPeer PublicKey) (mode : SessionMode) (now : ℕ) :
    Bool :=
  grant.valid ∧ grant.deviceId = device.deviceId ∧ grant.publicKey = device.publicKey ∧
    grant.issuedUnix ≤ now ∧ now < grant.expiresUnix ∧
    (mode = .screenView ∨ mode = .remoteControl)

/-- A new grant is valid. -/
theorem valid_of_new {device : ExpectedPeer PublicKey} {now : ℕ} {grant : Grant}
    (h : new device now = .ok grant) : grant.valid = true := by
  simp only [new] at h
  split at h
  · cases h
  · rename_i hkey
    split at h
    · cases h
    · obtain rfl := Except.ok.inj h
      simp [valid, hkey, MAX_LIFETIME]

end Grant

end SensorRemote
