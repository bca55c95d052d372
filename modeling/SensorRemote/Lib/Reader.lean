import SensorRemote.Lib.Bytes

/-!
# Readers

A reader takes a value off the front of a byte string. What it reads is **delimited**: `Reads`
says that a code is read as a value whatever follows it, and that no proper beginning of it is read
at all. Codes are put together by `Reads.seq`. Variable-length numbers, arrays and texts are read
so.
-/

namespace Readers

open Bytes

variable {α β : Type}

/-- A value off the front of a byte string, and what is left. -/
abbrev Reader (α : Type) := List UInt8 → Option (α × List UInt8)

/-- One reader after the other. -/
def Reader.seq (p : Reader α) (f : α → Reader β) : Reader β := fun bytes =>
  (p bytes).bind fun (a, rest) => f a rest

/-- A reader that reads nothing. -/
def Reader.done (a : α) : Reader α := fun bytes => some (a, bytes)

/-- The code is read as `a`, whatever follows it, and no proper beginning of it is read. -/
structure Reads (p : Reader α) (code : List UInt8) (a : α) : Prop where
  whole : ∀ rest, p (code ++ rest) = some (a, rest)
  cut : ∀ bytes, bytes <+: code → bytes ≠ code → p bytes = none

theorem Reads.done (a : α) : Reads (Reader.done a) [] a := by
  refine ⟨fun rest => rfl, fun bytes hbegins hne => ?_⟩
  exact (hne (List.prefix_nil.mp hbegins)).elim

/-- A byte before a code. -/
theorem Reads.cons {p : Reader β} {p' : Reader α} {g : α → β} {b : UInt8} {code : List UInt8}
    {a : α} (hnil : p [] = none)
    (hcons : ∀ rest, p (b :: rest) = (p' rest).map fun (a, rest) => (g a, rest))
    (h : Reads p' code a) : Reads p (b :: code) (g a) := by
  refine ⟨fun rest => by rw [List.cons_append, hcons, h.whole]; rfl, fun bytes hbegins hne => ?_⟩
  rcases List.prefix_cons_iff.mp hbegins with rfl | ⟨tail, rfl, htail⟩
  · exact hnil
  · rw [hcons, h.cut tail htail fun heq => hne (by rw [heq])]
    rfl

/-- A code of one byte. -/
theorem Reads.byte {p : Reader α} {b : UInt8} {a : α} (hnil : p [] = none)
    (hcons : ∀ rest, p (b :: rest) = some (a, rest)) : Reads p [b] a := by
  have hdone : ∀ rest, p (b :: rest) = (Reader.done a rest).map fun (a, rest) => (id a, rest) :=
    hcons
  exact Reads.cons hnil hdone (.done a)

/-- Codes are read one after the other. -/
theorem Reads.seq {p : Reader α} {f : α → Reader β} {code code' : List UInt8} {a : α} {b : β}
    (hp : Reads p code a) (hf : Reads (f a) code' b) : Reads (p.seq f) (code ++ code') b := by
  constructor
  · intro rest
    rw [Reader.seq, List.append_assoc, hp.whole]
    exact hf.whole rest
  · intro bytes hbegins hne
    rcases List.prefix_or_prefix_of_prefix hbegins (List.prefix_append code code') with
      hshort | ⟨tail, rfl⟩
    · by_cases heq : bytes = code
      · -- the first code, and nothing of the second
        have hcode' : code' ≠ [] := by
          rintro rfl
          exact hne (by rw [heq, List.append_nil])
        have hwhole := hp.whole []
        rw [List.append_nil] at hwhole
        rw [Reader.seq, heq, hwhole]
        exact hf.cut [] List.nil_prefix hcode'.symm
      · rw [Reader.seq, hp.cut bytes hshort heq]
        rfl
    · rw [Reader.seq, hp.whole]
      exact hf.cut tail ((List.prefix_append_right_inj _).mp hbegins) fun heq => hne (by rw [heq])

/-- What is read, and a value made of it. -/
theorem Reads.map {p : Reader α} {code : List UInt8} {a : α} (hp : Reads p code a) (g : α → β) :
    Reads (p.seq fun a => .done (g a)) code (g a) := by
  simpa using hp.seq (f := fun a => .done (g a)) (Reads.done (g a))

/-- A value worked out of what was read, if there is one. -/
def Reader.ofOption (o : Option α) : Reader α := fun bytes => o.map fun a => (a, bytes)

theorem Reads.ofOption {p : Reader α} {f : α → Option β} {code : List UInt8} {a : α} {b : β}
    (hp : Reads p code a) (hb : f a = some b) :
    Reads (p.seq fun a => .ofOption (f a)) code b := by
  have hdone : Reads (.ofOption (f a)) [] b := by
    rw [hb]
    exact .done b
  simpa using hp.seq (f := fun a => .ofOption (f a)) hdone

/-! ## Numbers -/

/-- A number, seven bits a byte, the low ones first. -/
def varint (n : ℕ) : List UInt8 :=
  if n < 128 then [UInt8.ofNat n] else UInt8.ofNat (n % 128 + 128) :: varint (n / 128)

/-- The number read back. -/
def readVarint : Reader ℕ
  | [] => none
  | b :: rest =>
    if b.toNat < 128 then some (b.toNat, rest)
    else (readVarint rest).map fun (n, rest) => (b.toNat - 128 + 128 * n, rest)

theorem reads_varint (n : ℕ) : Reads readVarint (varint n) n := by
  induction n using varint.induct with
  | case1 n hsmall =>
    have hbyte : (UInt8.ofNat n).toNat = n := by
      rw [UInt8.toNat_ofNat']
      omega
    rw [varint, if_pos hsmall]
    exact .byte rfl fun rest => by rw [readVarint, hbyte, if_pos hsmall]
  | case2 n hlarge ih =>
    have hbyte : (UInt8.ofNat (n % 128 + 128)).toNat = n % 128 + 128 := by
      rw [UInt8.toNat_ofNat']
      omega
    have hnumber : n % 128 + 128 - 128 + 128 * (n / 128) = n := by omega
    have hcons := Reads.cons (p := readVarint) (b := UInt8.ofNat (n % 128 + 128))
      (g := fun m => n % 128 + 128 - 128 + 128 * m) rfl
      (fun rest => by rw [readVarint, hbyte, if_neg (by omega)]) ih
    rw [hnumber] at hcons
    rwa [varint, if_neg hlarge]

/-- A number of so many bytes at most, the last of which is bounded: one of a fixed width. -/
def readVarintOf (last : ℕ) : ℕ → Reader ℕ
  | 0, _ | _, [] => none
  | k + 1, b :: rest =>
    if b.toNat < 128 then if k = 0 ∧ last < b.toNat then none else some (b.toNat, rest)
    else (readVarintOf last k rest).map fun (n, rest) => (b.toNat - 128 + 128 * n, rest)

theorem reads_varintOf {last k n : ℕ} (hlast : last < 128) (h : n < 128 ^ k * (last + 1)) :
    Reads (readVarintOf last (k + 1)) (varint n) n := by
  induction k generalizing n with
  | zero =>
    have hn : n ≤ last := by omega
    have hbyte : (UInt8.ofNat n).toNat = n := by
      rw [UInt8.toNat_ofNat']
      omega
    rw [varint, if_pos (by omega)]
    refine .byte rfl fun rest => ?_
    rw [readVarintOf, hbyte, if_pos (by omega), if_neg (by omega)]
  | succ k ih =>
    by_cases hsmall : n < 128
    · have hbyte : (UInt8.ofNat n).toNat = n := by
        rw [UInt8.toNat_ofNat']
        omega
      rw [varint, if_pos hsmall]
      refine .byte rfl fun rest => ?_
      rw [readVarintOf, hbyte, if_pos hsmall, if_neg (by omega)]
    · have hbyte : (UInt8.ofNat (n % 128 + 128)).toNat = n % 128 + 128 := by
        rw [UInt8.toNat_ofNat']
        omega
      have hnumber : n % 128 + 128 - 128 + 128 * (n / 128) = n := by omega
      have hdiv : n / 128 < 128 ^ k * (last + 1) := by
        rw [Nat.pow_succ, Nat.mul_right_comm] at h
        exact Nat.div_lt_of_lt_mul (by rwa [Nat.mul_comm 128])
      have hcons := Reads.cons (p := readVarintOf last (k + 2)) (b := UInt8.ofNat (n % 128 + 128))
        (g := fun m => n % 128 + 128 - 128 + 128 * m) rfl
        (fun rest => by rw [readVarintOf, hbyte, if_neg (by omega)]) (ih hdiv)
      rw [hnumber] at hcons
      rwa [varint, if_neg hsmall]

theorem length_varint_le {k n : ℕ} (h : n < 128 ^ (k + 1)) : (varint n).length ≤ k + 1 := by
  induction k generalizing n with
  | zero =>
    rw [varint, if_pos (by simpa using h)]
    exact Nat.le_refl 1
  | succ k ih =>
    rw [varint]
    split
    · simp
    · have hdiv : n / 128 < 128 ^ (k + 1) := by
        rw [Nat.pow_succ] at h
        exact Nat.div_lt_of_lt_mul (by omega)
      have := ih hdiv
      simp only [List.length_cons]
      omega

/-! ## Bytes -/

/-- So many bytes. -/
def readArray (n : ℕ) : Reader (Vector UInt8 n) := fun bytes =>
  if h : n ≤ bytes.length then some (⟨(bytes.take n).toArray, by simp [h]⟩, bytes.drop n) else none

theorem reads_array {n : ℕ} (array : Vector UInt8 n) : Reads (readArray n) array.toList array := by
  have hlength : array.toList.length = n := array.length_toList
  constructor
  · intro rest
    have hle : n ≤ (array.toList ++ rest).length := by
      rw [List.length_append]
      omega
    have htake : (array.toList ++ rest).take n = array.toList := List.take_left' hlength
    have hdrop : (array.toList ++ rest).drop n = rest := List.drop_left' hlength
    rw [readArray, dif_pos hle]
    simp only [htake, hdrop]
    rfl
  · intro bytes hbegins hne
    have hlt : bytes.length < n := by
      have hle := hbegins.length_le
      have hother : bytes.length ≠ array.toList.length := fun heq => hne (hbegins.eq_of_length heq)
      omega
    rw [readArray, dif_neg (by omega)]

/-- The bytes that come next, as many as there are to be. -/
def readBytes (n : ℕ) : Reader (List UInt8) := fun bytes =>
  if n ≤ bytes.length then some (bytes.take n, bytes.drop n) else none

theorem reads_bytes (bytes : List UInt8) : Reads (readBytes bytes.length) bytes bytes := by
  constructor
  · intro rest
    have hle : bytes.length ≤ (bytes ++ rest).length := by
      rw [List.length_append]
      omega
    rw [readBytes, if_pos hle, List.take_left, List.drop_left]
  · intro short hbegins hne
    have hle := hbegins.length_le
    have hother : short.length ≠ bytes.length := fun heq => hne (hbegins.eq_of_length heq)
    rw [readBytes, if_neg (by omega)]

/-- A byte that tells whether there is a value, and the value. -/
def optionCode (code : α → List UInt8) : Option α → List UInt8
  | none => [0]
  | some a => 1 :: code a

def readOption (p : Reader α) : Reader (Option α)
  | [] => none
  | b :: rest =>
    if b = 0 then some (none, rest)
    else if b = 1 then (p rest).map fun (a, rest) => (some a, rest)
    else none

theorem reads_option {p : Reader α} {code : α → List UInt8} (hp : ∀ a, Reads p (code a) a) :
    (o : Option α) → Reads (readOption p) (optionCode code o) o
  | none => .byte rfl fun _ => rfl
  | some a => .cons (g := some) rfl (fun _ => rfl) (hp a)

/-- A text after its length. -/
def textCode (text : String) : List UInt8 := varint text.utf8ByteSize ++ utf8 text

/-- A text of so many bytes. -/
def readUtf8 (n : ℕ) : Reader String := fun bytes =>
  if n ≤ bytes.length then
    (String.fromUTF8? ⟨(bytes.take n).toArray⟩).map fun text => (text, bytes.drop n)
  else none

def readText : Reader String := readVarint.seq readUtf8

theorem reads_utf8 (text : String) : Reads (readUtf8 text.utf8ByteSize) (utf8 text) text := by
  have hlength : (utf8 text).length = text.utf8ByteSize := rfl
  constructor
  · intro rest
    have hle : text.utf8ByteSize ≤ (utf8 text ++ rest).length := by
      rw [List.length_append]
      omega
    have htake : (utf8 text ++ rest).take text.utf8ByteSize = utf8 text := List.take_left' hlength
    have hdrop : (utf8 text ++ rest).drop text.utf8ByteSize = rest := List.drop_left' hlength
    have htext : String.fromUTF8? ⟨(utf8 text).toArray⟩ = some text := by
      rw [utf8, Array.toArray_toList, String.fromUTF8?, dif_pos text.isValidUTF8]
      rfl
    rw [readUtf8, if_pos hle, htake, hdrop, htext]
    rfl
  · intro bytes hbegins hne
    have hle := hbegins.length_le
    have hother : bytes.length ≠ (utf8 text).length := fun heq => hne (hbegins.eq_of_length heq)
    rw [readUtf8, if_neg (by omega)]

theorem reads_text (text : String) : Reads readText (textCode text) text :=
  (reads_varint _).seq (reads_utf8 text)

/-- What was written is read as one value only. -/
theorem Reads.injective {p : Reader α} {code : α → List UInt8} (hp : ∀ a, Reads p (code a) a) :
    Function.Injective code := by
  intro a b hab
  have hread := (hp b).whole []
  rw [← hab, (hp a).whole []] at hread
  exact congrArg Prod.fst (Option.some.inj hread)

end Readers
