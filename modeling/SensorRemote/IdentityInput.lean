import SensorRemote.Contacts
import SensorRemote.Lib.Bytes

/-!
# Identifiers and keys that are typed in

`parse_hex` and `peer` of the desktop application (`sensor-desktop`) and `decode_hex` of the
rendezvous client (`sensor-render`) read texts with the number parsers of the standard library.
The grammar of those is wider than digits: a plus sign may stand before the digits of a number,
and zeros. `decode_hex` looks at the characters first; `parse_hex` and `peer` do not, so they
take texts that are not the digits they ask for (`peer_eq_ok`, `parseHexN_iff`).
-/

namespace SensorRemote

open Bytes

/-! ## The parsers -/

/-- `parse_hex`, of `n` bytes. -/
def parseHexN (n : ℕ) (value : String) : Except String (Vector UInt8 n) :=
  let value := trim value.toList
  if !value.all (·.toNat < 128) ∨ value.length ≠ n * 2 then
    .error s!"Expected {n * 2} hexadecimal characters."
  else
    match parseBytes value with
    | none => .error "Invalid hexadecimal value."
    | some bytes =>
      if h : bytes.length = n then .ok ⟨bytes.toArray, by simpa using h⟩
      -- not reached: two characters are a byte
      else .error "Invalid hexadecimal value."

/-- The reading of a public key is this one. -/
theorem parseHex_eq (value : String) : parseHex value = parseHexN 32 value := rfl

/-- `RenderError`, less the errors of other libraries. -/
inductive RenderError where
  | url (message : String)
  | rejected (message : String)
  | unexpectedMessage
  | timeout
  deriving DecidableEq

/-- `u8::is_ascii_hexdigit`. -/
def isAsciiHexdigit (c : Char) : Bool := (hexDigit c).isSome

/-- `decode_hex_variable`. -/
def decodeHexVariable (value : String) : Except RenderError (List UInt8) :=
  let value := trim value.toList
  let length := (String.ofList value).utf8ByteSize
  if length % 2 ≠ 0 ∨ length > 128 ∨ !value.all isAsciiHexdigit then
    .error (.rejected "invalid hexadecimal value")
  else
    match parseBytes value with
    | none => .error (.rejected "invalid hexadecimal value")
    | some bytes => .ok bytes

/-- `decode_hex`. -/
def decodeHex (n : ℕ) (value : String) : Except RenderError (Vector UInt8 n) := do
  let bytes ← decodeHexVariable value
  if h : bytes.length = n then return ⟨bytes.toArray, by simpa using h⟩
  else throw (.rejected "invalid hexadecimal length")

/-! ## Digits -/

/-- What a hexadecimal digit stands for. -/
def hexValue (c : Char) : ℕ := (hexDigit c).getD 0

/-- The bytes that hexadecimal digits denote, two for each. -/
def denotedBytes : List Char → List UInt8
  | high :: low :: rest => UInt8.ofNat (16 * hexValue high + hexValue low) :: denotedBytes rest
  | _ => []

/-- The text is, after trimming, `2 * n` hexadecimal digits. -/
def HexDigits (n : ℕ) (text : List Char) : Prop :=
  text.length = n * 2 ∧ ∀ c ∈ text, isAsciiHexdigit c = true

/-- Pairs of which the second character is a hexadecimal digit and the first one too, or a plus
sign. -/
def SignedPairs : List Char → Prop
  | high :: low :: rest =>
    (high = '+' ∨ isAsciiHexdigit high = true) ∧ isAsciiHexdigit low = true ∧ SignedPairs rest
  | rest => rest = []

/-- A plus sign stands for a digit: `2 * n` characters in pairs, one of them with a sign. -/
def PlusForDigit (n : ℕ) (text : List Char) : Prop :=
  text.length = n * 2 ∧ SignedPairs text ∧ '+' ∈ text

theorem lt_128_of_isAsciiHexdigit {c : Char} (h : isAsciiHexdigit c = true) : c.toNat < 128 := by
  simp only [isAsciiHexdigit, hexDigit] at h
  split at h
  · rename_i hdigit
    have : 48 ≤ c.toNat ∧ c.toNat ≤ 57 := Char.isDigit_iff_toNat.mp hdigit
    omega
  · split at h
    · rename_i hlower
      have : c.toNat ≤ 102 := hlower.2
      omega
    · split at h
      · rename_i hupper
        have : c.toNat ≤ 70 := hupper.2
        omega
      · cases h

theorem ne_plus_of_isAsciiHexdigit {c : Char} (h : isAsciiHexdigit c = true) : c ≠ '+' := by
  rintro rfl
  revert h
  decide

/-- Digits of pairs without a sign. -/
theorem signedPairs_iff : ∀ {text : List Char} {n : ℕ}, text.length = n * 2 → '+' ∉ text →
    (SignedPairs text ↔ ∀ c ∈ text, isAsciiHexdigit c = true)
  | [], _, _, _ => by simp [SignedPairs]
  | [_], n, hlength, _ => by
    simp only [List.length_singleton] at hlength
    omega
  | high :: low :: rest, n, hlength, hplus => by
    simp only [List.mem_cons, not_or] at hplus
    obtain ⟨hhigh, -, hrest⟩ := hplus
    have hlength' : rest.length = (n - 1) * 2 := by
      simp only [List.length_cons] at hlength
      omega
    have hhigh' : high ≠ '+' := Ne.symm hhigh
    simp only [SignedPairs, signedPairs_iff hlength' hrest, hhigh', false_or, List.forall_mem_cons]

/-- **What the loop of `parse_hex` takes.** -/
theorem parseBytes_eq_some : ∀ {text : List Char} {n : ℕ} {bytes : List UInt8},
    text.length = n * 2 → (parseBytes text = some bytes ↔
      SignedPairs text ∧ bytes = denotedBytes text)
  | [], _, _, _ => by simp [parseBytes, SignedPairs, denotedBytes, eq_comm]
  | [_], n, _, hlength => by
    simp only [List.length_singleton] at hlength
    omega
  | high :: low :: rest, n, bytes, hlength => by
    have hlength' : rest.length = (n - 1) * 2 := by
      simp only [List.length_cons] at hlength
      omega
    have hbyte : ∀ byte, parseByte high low = some byte ↔
        ((high = '+' ∨ isAsciiHexdigit high = true) ∧ isAsciiHexdigit low = true) ∧
          byte = UInt8.ofNat (16 * hexValue high + hexValue low) := by
      intro byte
      have hsign : hexDigit '+' = none := by decide
      simp only [parseByte, isAsciiHexdigit, hexValue]
      by_cases hplus : high = '+'
      · cases hlow : hexDigit low <;> simp [hplus, hsign, eq_comm]
      · cases hhigh : hexDigit high <;> cases hlow : hexDigit low <;> simp [hplus, eq_comm]
    simp only [parseBytes, Option.bind_eq_bind, Option.bind_eq_some_iff, hbyte,
      parseBytes_eq_some hlength', SignedPairs, denotedBytes, Option.pure_def, Option.some.injEq]
    constructor
    · rintro ⟨byte, ⟨⟨hhigh, hlow⟩, rfl⟩, rest', ⟨hrest, rfl⟩, rfl⟩
      exact ⟨⟨hhigh, hlow, hrest⟩, rfl⟩
    · rintro ⟨⟨hhigh, hlow, hrest⟩, rfl⟩
      exact ⟨_, ⟨⟨hhigh, hlow⟩, rfl⟩, _, ⟨hrest, rfl⟩, rfl⟩

theorem length_denotedBytes : ∀ {text : List Char} {n : ℕ}, text.length = n * 2 →
    (denotedBytes text).length = n
  | [], n, hlength => by
    simp only [List.length_nil] at hlength
    simp only [denotedBytes, List.length_nil]
    omega
  | [_], n, hlength => by
    simp only [List.length_singleton] at hlength
    omega
  | high :: low :: rest, n, hlength => by
    have hlength' : rest.length = (n - 1) * 2 := by
      simp only [List.length_cons] at hlength
      omega
    simp only [List.length_cons] at hlength
    rw [denotedBytes, List.length_cons, length_denotedBytes hlength']
    omega

/-- Signed pairs are ASCII. -/
theorem lt_128_of_signedPairs : ∀ {text : List Char}, SignedPairs text → ∀ c ∈ text, c.toNat < 128
  | [], _ => by simp
  | [_], h => by simp [SignedPairs] at h
  | high :: low :: rest, h => by
    obtain ⟨hhigh, hlow, hrest⟩ := h
    intro c hc
    rcases List.mem_cons.mp hc with rfl | hc
    · rcases hhigh with rfl | hhigh
      · decide
      · exact lt_128_of_isAsciiHexdigit hhigh
    · rcases List.mem_cons.mp hc with rfl | hc
      · exact lt_128_of_isAsciiHexdigit hlow
      · exact lt_128_of_signedPairs hrest c hc

variable {n : ℕ} {value : String}

/-- **What `parse_hex` takes.** -/
theorem parseHexN_eq_ok {bytes : Vector UInt8 n} : parseHexN n value = .ok bytes ↔
    (trim value.toList).length = n * 2 ∧ SignedPairs (trim value.toList) ∧
      bytes.toList = denotedBytes (trim value.toList) := by
  simp only [parseHexN]
  by_cases hlength : (trim value.toList).length = n * 2
  · cases hparse : parseBytes (trim value.toList) with
    | none =>
      have hnot : ¬SignedPairs (trim value.toList) := fun hpairs => by
        have := (parseBytes_eq_some hlength).mpr ⟨hpairs, rfl⟩
        rw [hparse] at this
        cases this
      refine iff_of_false ?_ fun h => hnot h.2.1
      split <;> rintro ⟨⟩
    | some parsed =>
      obtain ⟨hpairs, rfl⟩ := (parseBytes_eq_some hlength).mp hparse
      have hascii : (trim value.toList).all (·.toNat < 128) = true := by
        simpa using lt_128_of_signedPairs hpairs
      have hn : (denotedBytes (trim value.toList)).length = n := length_denotedBytes hlength
      simp only [hascii, Bool.not_true, Bool.false_eq_true, hlength, ne_eq, not_true_eq_false,
        or_self, if_false, dif_pos hn, Except.ok.injEq, hpairs, true_and]
      rw [← Vector.toList_inj]
      exact eq_comm
  · simp [hlength]

/-- **What `decode_hex` takes.** -/
theorem decodeHex_eq_ok (hn : n ≤ 64) {bytes : Vector UInt8 n} : decodeHex n value = .ok bytes ↔
    HexDigits n (trim value.toList) ∧ bytes.toList = denotedBytes (trim value.toList) := by
  simp only [decodeHex, decodeHexVariable]
  by_cases hdigits : ∀ c ∈ trim value.toList, isAsciiHexdigit c = true
  · have hlength : (String.ofList (trim value.toList)).utf8ByteSize = (trim value.toList).length :=
      utf8ByteSize_of_ascii fun c hc => lt_128_of_isAsciiHexdigit (hdigits c hc)
    have hall : (trim value.toList).all isAsciiHexdigit = true := List.all_eq_true.mpr hdigits
    have hplus : '+' ∉ trim value.toList := fun hmem =>
      ne_plus_of_isAsciiHexdigit (hdigits _ hmem) rfl
    rw [hlength, hall]
    by_cases heven : (trim value.toList).length % 2 = 0
    · obtain ⟨m, hm⟩ : ∃ m, (trim value.toList).length = m * 2 :=
        ⟨(trim value.toList).length / 2, by omega⟩
      have hbytes : (denotedBytes (trim value.toList)).length = m := length_denotedBytes hm
      have hparse := (parseBytes_eq_some hm).mpr ⟨(signedPairs_iff hm hplus).mpr hdigits, rfl⟩
      by_cases hlong : (trim value.toList).length > 128
      · rw [if_pos (.inr (.inl hlong))]
        refine iff_of_false (by rintro ⟨⟩) fun h => ?_
        have := h.1.1
        omega
      · have hpass : ¬((trim value.toList).length % 2 ≠ 0 ∨ (trim value.toList).length > 128 ∨
            (!true) = true) := by simp [heven, hlong]
        rw [if_neg hpass, hparse]
        simp only [bind, Except.bind, pure, Except.pure, throw, throwThe, MonadExceptOf.throw,
          HexDigits]
        by_cases hsize : m = n
        · subst hsize
          rw [dif_pos hbytes, Except.ok.injEq, ← Vector.toList_inj]
          exact ⟨fun h => ⟨⟨hm, hdigits⟩, h.symm⟩, fun h => h.2.symm⟩
        · rw [dif_neg (by rwa [hbytes])]
          refine iff_of_false (by rintro ⟨⟩) fun h => hsize ?_
          have := h.1.1
          omega
    · rw [if_pos (.inl heven)]
      refine iff_of_false (by rintro ⟨⟩) fun h => heven ?_
      have := h.1.1
      omega
  · have hall : (trim value.toList).all isAsciiHexdigit = false := by
      simpa using hdigits
    rw [if_pos (.inr (.inr (by rw [hall]; rfl)))]
    exact iff_of_false (by rintro ⟨⟩) fun h => hdigits h.1.2

/-! ## Identifiers -/

/-- An identifier as typed, without its white space. -/
def stripped (id : String) : List Char := id.toList.filter (!isWhitespace ·)

/-- Nine digits, the first of which is not zero. -/
structure NineDigits (text : List Char) : Prop where
  length_eq : text.length = 9
  digits : ∀ c ∈ text, c.isDigit = true
  head : text.head? ≠ some '0'

/-- The text is nine digits after a plus sign, or zeros, or both. -/
def Padded (text : List Char) : Prop :=
  ∃ zeros digits, NineDigits digits ∧
    (zeros ≠ 0 ∧ text = List.replicate zeros '0' ++ digits ∨
      text = '+' :: (List.replicate zeros '0' ++ digits))

theorem digit_lt_ten {c : Char} (h : c.isDigit = true) : c.toNat - '0'.toNat < 10 := by
  have hrange : 48 ≤ c.toNat ∧ c.toNat ≤ 57 := Char.isDigit_iff_toNat.mp h
  have hzero : '0'.toNat = 48 := rfl
  omega

theorem ofDigitChars_lt {text : List Char} (h : ∀ c ∈ text, c.isDigit = true) :
    Nat.ofDigitChars 10 text 0 < 10 ^ text.length := by
  induction text with
  | nil => simp
  | cons c rest ih =>
    have hc := digit_lt_ten (h c List.mem_cons_self)
    have hrest := ih fun c hc => h c (List.mem_cons_of_mem _ hc)
    rw [Nat.ofDigitChars_cons, Nat.ofDigitChars_eq_ofDigitChars_zero, Nat.mul_zero, Nat.zero_add,
      List.length_cons, Nat.pow_succ]
    calc 10 ^ rest.length * (c.toNat - '0'.toNat) + Nat.ofDigitChars 10 rest 0
        < 10 ^ rest.length * (c.toNat - '0'.toNat) + 10 ^ rest.length := Nat.add_lt_add_left hrest _
      _ = 10 ^ rest.length * (c.toNat - '0'.toNat + 1) := (Nat.mul_succ ..).symm
      _ ≤ 10 ^ rest.length * 10 := Nat.mul_le_mul_left _ hc

/-- A number whose first digit is not zero is as large as its length says. -/
theorem le_ofDigitChars {c : Char} {rest : List Char} (hc : c.isDigit = true) (hne : c ≠ '0') :
    10 ^ rest.length ≤ Nat.ofDigitChars 10 (c :: rest) 0 := by
  have hrange : 48 ≤ c.toNat ∧ c.toNat ≤ 57 := Char.isDigit_iff_toNat.mp hc
  have hzero : '0'.toNat = 48 := rfl
  have hpos : 0 < c.toNat - '0'.toNat := by
    have : c.toNat ≠ 48 := fun h => hne (Char.ext (UInt32.toNat.inj h))
    omega
  rw [Nat.ofDigitChars_cons, Nat.ofDigitChars_eq_ofDigitChars_zero, Nat.mul_zero, Nat.zero_add]
  exact Nat.le_add_right_of_le (Nat.le_mul_of_pos_right _ hpos)

/-- Digits are zeros and then digits of which the first is not zero. -/
theorem split_zeros (text : List Char) :
    ∃ zeros digits, text = List.replicate zeros '0' ++ digits ∧ digits.head? ≠ some '0' := by
  induction text with
  | nil => exact ⟨0, [], rfl, by simp⟩
  | cons c rest ih =>
    obtain ⟨zeros, digits, hrest, hhead⟩ := ih
    by_cases hc : c = '0'
    · exact ⟨zeros + 1, digits, by rw [hc, hrest]; rfl, hhead⟩
    · exact ⟨0, c :: rest, rfl, by simpa using hc⟩

/-- **Digits that are a device identifier**, as a number: nine after the zeros. -/
theorem inRange_iff (zeros : ℕ) {digits : List Char} (hdigits : ∀ c ∈ digits, c.isDigit = true)
    (hhead : digits.head? ≠ some '0') :
    let value := Nat.ofDigitChars 10 (List.replicate zeros '0' ++ digits) 0
    (MIN_DEVICE_ID ≤ value ∧ value < MIN_DEVICE_ID + DEVICE_ID_SPAN) ↔ digits.length = 9 := by
  intro value
  have hvalue : value = Nat.ofDigitChars 10 digits 0 := by
    simp only [value, Nat.ofDigitChars_append, Nat.ofDigitChars_replicate_zero, Nat.mul_zero]
  rw [hvalue]
  have hlt := ofDigitChars_lt hdigits
  simp only [MIN_DEVICE_ID, DEVICE_ID_SPAN]
  cases digits with
  | nil => simp
  | cons c rest =>
    have hle : 10 ^ rest.length ≤ Nat.ofDigitChars 10 (c :: rest) 0 :=
      le_ofDigitChars (hdigits c List.mem_cons_self) (by simpa using hhead)
    rw [List.length_cons] at hlt ⊢
    constructor
    · rintro ⟨hmin, hmax⟩
      have hupper : rest.length < 9 := by
        by_contra hlong
        have := Nat.pow_le_pow_right (show 0 < 10 by decide) (Nat.not_lt.mp hlong)
        omega
      have hlower : ¬rest.length + 1 ≤ 8 := by
        intro hshort
        have := Nat.pow_le_pow_right (show 0 < 10 by decide) hshort
        omega
      omega
    · intro hlength
      obtain hrest : rest.length = 8 := by omega
      rw [hrest] at hlt hle
      omega

/-- The digits that `u32::from_str` reads. -/
def unsigned (text : List Char) : List Char :=
  if text.head? = some '+' then text.tail else text

theorem parseU32_eq (text : List Char) : parseU32 text =
    if unsigned text = [] ∨ !(unsigned text).all Char.isDigit then none
    else if Nat.ofDigitChars 10 (unsigned text) 0 < 2 ^ 32 then
      some (Nat.ofDigitChars 10 (unsigned text) 0)
    else none := rfl

theorem NineDigits.unsigned_eq {text : List Char} (h : NineDigits text) : unsigned text = text := by
  refine if_neg fun hplus => ?_
  have := h.digits _ (List.mem_of_mem_head? hplus)
  revert this
  decide

/-- The texts that denote an identifier. -/
theorem reads_iff {text : List Char} : NineDigits text ∨ Padded text ↔
    ∃ zeros digits, NineDigits digits ∧ unsigned text = List.replicate zeros '0' ++ digits := by
  constructor
  · rintro (hnine | ⟨zeros, digits, hnine, ⟨hzeros, rfl⟩ | rfl⟩)
    · exact ⟨0, text, hnine, by rw [hnine.unsigned_eq]; rfl⟩
    · obtain ⟨zeros, rfl⟩ := Nat.exists_eq_succ_of_ne_zero hzeros
      exact ⟨zeros + 1, digits, hnine, if_neg (by simp [List.replicate_succ])⟩
    · exact ⟨zeros, digits, hnine, rfl⟩
  · rintro ⟨zeros, digits, hnine, heq⟩
    by_cases hplus : text.head? = some '+'
    · rw [unsigned, if_pos hplus] at heq
      refine .inr ⟨zeros, digits, hnine, .inr ?_⟩
      rw [← heq]
      exact (List.cons_head?_tail hplus).symm
    · rw [unsigned, if_neg hplus] at heq
      by_cases hzeros : zeros = 0
      · exact .inl (by rwa [heq, hzeros])
      · exact .inr ⟨zeros, digits, hnine, .inl ⟨hzeros, heq⟩⟩

/-- **What is read as a device identifier.** -/
theorem parseU32_new {text : List Char} {deviceId : DeviceId} :
    (∃ value, parseU32 text = some value ∧ DeviceId.new value = some deviceId) ↔
      (NineDigits text ∨ Padded text) ∧ deviceId.value = Nat.ofDigitChars 10 (unsigned text) 0 := by
  rw [reads_iff]
  constructor
  · rintro ⟨value, hparse, hnew⟩
    rw [parseU32_eq] at hparse
    split at hparse
    · cases hparse
    · rename_i hdigits
      obtain ⟨hne, hall⟩ := not_or.mp hdigits
      split at hparse
      · obtain rfl := Option.some.inj hparse
        rw [DeviceId.new] at hnew
        split at hnew
        · rename_i hrange
          obtain rfl := Option.some.inj hnew
          obtain ⟨zeros, digits, hsplit, hhead⟩ := split_zeros (unsigned text)
          have hdigit : ∀ c ∈ digits, c.isDigit = true := fun c hc =>
            List.all_eq_true.mp (by simpa using hall) c
              (show c ∈ unsigned text by rw [hsplit]; exact List.mem_append_right _ hc)
          refine ⟨⟨zeros, digits, ⟨(inRange_iff zeros hdigit hhead).mp ?_, hdigit, hhead⟩,
            hsplit⟩, rfl⟩
          rwa [← hsplit]
        · cases hnew
      · cases hparse
  · rintro ⟨⟨zeros, digits, hnine, heq⟩, hvalue⟩
    have hmem : ∀ c ∈ unsigned text, c.isDigit = true := by
      rw [heq]
      intro c hc
      rcases List.mem_append.mp hc with hc | hc
      · rw [List.eq_of_mem_replicate hc]
        rfl
      · exact hnine.digits c hc
    have hrange := (inRange_iff zeros hnine.digits hnine.head).mpr hnine.length_eq
    have hne : unsigned text ≠ [] := by
      rw [heq]
      intro hnil
      have := hnine.length_eq
      rw [(List.append_eq_nil_iff.mp hnil).2] at this
      cases this
    have hpass : ¬(unsigned text = [] ∨ (!(unsigned text).all Char.isDigit) = true) := by
      rw [List.all_eq_true.mpr hmem]
      simpa using hne
    have hfits : Nat.ofDigitChars 10 (unsigned text) 0 < 2 ^ 32 := by
      have := hrange.2
      rw [← heq] at this
      simp only [MIN_DEVICE_ID, DEVICE_ID_SPAN] at this
      omega
    refine ⟨deviceId.value, ?_, deviceId.new_value⟩
    rw [parseU32_eq, if_neg hpass, if_pos hfits, hvalue]

/-- **What `peer` takes.** -/
theorem peer_eq_ok {id key : String} {device : ExpectedPeer PublicKey} :
    peer id key = .ok device ↔
      ((NineDigits (stripped id) ∨ Padded (stripped id)) ∧
        device.deviceId.value = Nat.ofDigitChars 10 (unsigned (stripped id)) 0) ∧
      parseHexN 32 key = .ok device.publicKey := by
  rw [← parseU32_new, ← parseHex_eq]
  simp only [peer, stripped]
  cases hparse : parseU32 (id.toList.filter (!isWhitespace ·)) with
  | none => simp [throw, throwThe, MonadExceptOf.throw]
  | some value =>
    simp only [Option.some.injEq, exists_eq_left']
    cases hnew : DeviceId.new value with
    | none => simp [throw, throwThe, MonadExceptOf.throw]
    | some deviceId =>
      cases hkey : parseHex key with
      | error e => simp [bind, Except.bind]
      | ok publicKey =>
        obtain ⟨deviceId', publicKey'⟩ := device
        simp [bind, Except.bind, pure, Except.pure]

/-! ## The result -/

/-- `peer` takes these texts exactly if they are nine digits and sixty-four hexadecimal ones, as
what they denote. -/
def ReadStrictly (id key : String) : Prop :=
  ∀ device, peer id key = .ok device ↔
    NineDigits (stripped id) ∧ HexDigits 32 (trim key.toList) ∧
      device.deviceId.value = Nat.ofDigitChars 10 (stripped id) 0 ∧
      device.publicKey.toList = denotedBytes (trim key.toList)

/-- What a reader of `n` bytes makes of a text: exactly of `2 * n` hexadecimal digits, the bytes
they denote. -/
def ReadsDigits {ε : Type} (n : ℕ) (value : String) (result : Except ε (Vector UInt8 n)) : Prop :=
  ∀ bytes, result = .ok bytes ↔
    HexDigits n (trim value.toList) ∧ bytes.toList = denotedBytes (trim value.toList)

theorem signedPairs_cases {text : List Char} (hlength : text.length = n * 2) :
    SignedPairs text ↔ HexDigits n text ∨ PlusForDigit n text := by
  by_cases hplus : '+' ∈ text
  · have hnot : ¬HexDigits n text := fun h => ne_plus_of_isAsciiHexdigit (h.2 _ hplus) rfl
    simp [hnot, PlusForDigit, hlength, hplus]
  · simp [HexDigits, PlusForDigit, hlength, hplus, signedPairs_iff hlength hplus]

/-- What `parse_hex` takes is digits, or has a sign for a digit. -/
theorem parseHexN_iff {bytes : Vector UInt8 n} : parseHexN n value = .ok bytes ↔
    (HexDigits n (trim value.toList) ∨ PlusForDigit n (trim value.toList)) ∧
      bytes.toList = denotedBytes (trim value.toList) := by
  rw [parseHexN_eq_ok]
  constructor
  · rintro ⟨hlength, hpairs, hbytes⟩
    exact ⟨(signedPairs_cases hlength).mp hpairs, hbytes⟩
  · rintro ⟨htext, hbytes⟩
    have hlength : (trim value.toList).length = n * 2 := htext.elim And.left And.left
    exact ⟨hlength, (signedPairs_cases hlength).mpr htext, hbytes⟩

theorem not_plusForDigit {text : List Char} (h : HexDigits n text) : ¬PlusForDigit n text :=
  fun hplus => ne_plus_of_isAsciiHexdigit (h.2 _ hplus.2.2) rfl

/-- `parse_hex` takes digits only, of a text that has no sign for a digit. -/
theorem readsDigits_parseHexN : ReadsDigits n value (parseHexN n value) ↔
    ¬PlusForDigit n (trim value.toList) := by
  constructor
  · intro hreads hplus
    have hlength := length_denotedBytes hplus.1
    have htaken : parseHexN n value =
        .ok ⟨(denotedBytes (trim value.toList)).toArray, by simpa using hlength⟩ :=
      parseHexN_iff.mpr ⟨.inr hplus, by simp⟩
    exact not_plusForDigit ((hreads _).mp htaken).1 hplus
  · intro hplus bytes
    rw [parseHexN_iff, or_iff_left hplus]

theorem not_padded {text : List Char} (h : NineDigits text) : ¬Padded text := by
  rintro ⟨zeros, digits, -, ⟨hzeros, rfl⟩ | rfl⟩
  · obtain ⟨zeros, rfl⟩ := Nat.exists_eq_succ_of_ne_zero hzeros
    exact h.head (by simp [List.replicate_succ])
  · have := h.digits '+' List.mem_cons_self
    revert this
    decide

/-- **Identity input.** `peer` reads exactly nine digits and sixty-four hexadecimal ones, unless
the identifier has a plus sign or zeros before its nine digits, or the key a plus sign in place of
a digit, and the two are otherwise as they should be. `parse_hex` is wrong about the same texts of
any length, and there alone it differs from `decode_hex`, which is never wrong. -/
theorem identity_input_iff (id key : String) (n : ℕ) (value : String) :
    (ReadStrictly id key ↔
      ¬(Padded (stripped id) ∧
          (HexDigits 32 (trim key.toList) ∨ PlusForDigit 32 (trim key.toList)) ∨
        NineDigits (stripped id) ∧ PlusForDigit 32 (trim key.toList))) ∧
    (ReadsDigits n value (parseHexN n value) ↔ ¬PlusForDigit n (trim value.toList)) ∧
    (n ≤ 64 → ReadsDigits n value (decodeHex n value) ∧
      ((∀ bytes, parseHexN n value = .ok bytes ↔ decodeHex n value = .ok bytes) ↔
        ¬PlusForDigit n (trim value.toList))) := by
  have hdecode (hn : n ≤ 64) : ReadsDigits n value (decodeHex n value) :=
    fun bytes => decodeHex_eq_ok hn
  refine ⟨?_, readsDigits_parseHexN, fun hn => ⟨hdecode hn, ?_⟩⟩
  · constructor
    · intro hstrict hloose
      -- an identifier that is read, and a key
      have hid : NineDigits (stripped id) ∨ Padded (stripped id) :=
        hloose.elim (fun h => .inr h.1) fun h => .inl h.1
      have hkey : HexDigits 32 (trim key.toList) ∨ PlusForDigit 32 (trim key.toList) :=
        hloose.elim And.right fun h => .inr h.2
      obtain ⟨zeros, digits, hnine, hunsigned⟩ := reads_iff.mp hid
      have hrange := (inRange_iff zeros hnine.digits hnine.head).mpr hnine.length_eq
      rw [← hunsigned] at hrange
      have hlength : (denotedBytes (trim key.toList)).length = 32 :=
        length_denotedBytes (hkey.elim And.left And.left)
      have htaken : peer id key = .ok ⟨⟨Nat.ofDigitChars 10 (unsigned (stripped id)) 0, hrange⟩,
          ⟨(denotedBytes (trim key.toList)).toArray, by simpa using hlength⟩⟩ :=
        peer_eq_ok.mpr ⟨⟨hid, rfl⟩, parseHexN_iff.mpr ⟨hkey, by simp⟩⟩
      obtain ⟨hdigits, hhex, -⟩ := (hstrict _).mp htaken
      rcases hloose with ⟨hpadded, -⟩ | ⟨-, hplus⟩
      · exact not_padded hdigits hpadded
      · exact not_plusForDigit hhex hplus
    · intro hnot device
      rw [peer_eq_ok, parseHexN_iff]
      constructor
      · rintro ⟨⟨hid, hvalue⟩, hkey, hbytes⟩
        have hnine : NineDigits (stripped id) :=
          hid.resolve_right fun hpadded => hnot (.inl ⟨hpadded, hkey⟩)
        have hhex : HexDigits 32 (trim key.toList) :=
          hkey.resolve_right fun hplus => hnot (.inr ⟨hnine, hplus⟩)
        rw [hnine.unsigned_eq] at hvalue
        exact ⟨hnine, hhex, hvalue, hbytes⟩
      · rintro ⟨hnine, hhex, hvalue, hbytes⟩
        rw [hnine.unsigned_eq]
        exact ⟨⟨.inl hnine, hvalue⟩, .inl hhex, hbytes⟩
  · rw [← readsDigits_parseHexN]
    exact forall_congr' fun bytes => by rw [hdecode hn bytes]

namespace PlusSign

/-! An identifier and a byte with a sign. -/

def key : PublicKey := Vector.replicate 32 0xab

theorem peer_plus : peer "+123456789" key.toHex = .ok ⟨⟨123456789, by decide⟩, key⟩ := by
  simp only [peer, show parseU32 ("+123456789".toList.filter (!isWhitespace ·)) = some 123456789 by
    decide, show DeviceId.new 123456789 = some ⟨123456789, by decide⟩ by decide, parseHex_toHex]
  rfl

/-- `peer` takes an identifier of ten characters, and `parse_hex` the byte `+f`. -/
theorem plus_taken :
    ¬ReadStrictly "+123456789" key.toHex ∧
    parseHexN 1 "+f" = .ok #v[15] ∧ decodeHex 1 "+f" ≠ .ok #v[15] := by
  refine ⟨fun hstrict => ?_, by decide +kernel, by decide +kernel⟩
  have hnine := ((hstrict _).mp peer_plus).1
  exact absurd hnine.length_eq (by decide)

theorem key_digits : HexDigits 32 (trim key.toHex.toList) :=
  ⟨by decide +kernel, List.all_eq_true.mp (by decide +kernel)⟩

theorem id_digits : NineDigits (stripped "123 456 789") :=
  ⟨by decide +kernel, List.all_eq_true.mp (by decide +kernel), by decide +kernel⟩

/-- Without a sign they are read as they should be, and the two readers agree. -/
theorem digits_read : ReadStrictly "123 456 789" key.toHex ∧
    ∀ bytes, parseHexN 32 key.toHex = .ok bytes ↔ decodeHex 32 key.toHex = .ok bytes := by
  obtain ⟨hstrict, -, hagree⟩ := identity_input_iff "123 456 789" key.toHex 32 key.toHex
  have hplus : ¬PlusForDigit 32 (trim key.toHex.toList) := not_plusForDigit key_digits
  refine ⟨hstrict.mpr ?_, (hagree (by decide)).2.mpr hplus⟩
  rintro (⟨hpadded, -⟩ | ⟨-, hsigned⟩)
  · exact not_padded id_digits hpadded
  · exact hplus hsigned

end PlusSign

end SensorRemote
