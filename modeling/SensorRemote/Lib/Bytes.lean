import Mathlib.Algebra.Group.Nat.Defs
import Mathlib.Algebra.GroupWithZero.Nat
import Mathlib.Data.List.Basic
import Mathlib.Data.List.Induction
import Mathlib.Tactic.Common

/-!
# Big-endian numbers and numbered streams

Facts of wire formats that every protocol proof comes back to. A number below
`256 ^ w` is recovered from its `w` big-endian bytes (`beNat_beBytes`), and the
bytes from the number (`beBytes_beNat`). A `w`-bit counter can be stepped until it
is full (`checkedAdd`). And a stream whose items carry strictly increasing numbers
determines what a receiver that insists on `0, 1, 2, …` can have taken from it: a
prefix (`prefix_of_numbered`).
-/

namespace Bytes

/-! ## Big-endian numbers -/

/-- The `w` low bytes of `n`, most significant first. -/
def beBytes : ℕ → ℕ → List UInt8
  | 0, _ => []
  | w + 1, n => beBytes w (n / 256) ++ [UInt8.ofNat n]

/-- The number a byte string denotes, most significant byte first. -/
def beNat (bytes : List UInt8) : ℕ := bytes.foldl (fun n b => n * 256 + b.toNat) 0

@[simp] theorem length_beBytes (w n : ℕ) : (beBytes w n).length = w := by
  induction w generalizing n with
  | zero => rfl
  | succ w ih => simp [beBytes, ih]

@[simp] theorem beNat_nil : beNat [] = 0 := rfl

@[simp] theorem beNat_append_singleton (bytes : List UInt8) (b : UInt8) :
    beNat (bytes ++ [b]) = beNat bytes * 256 + b.toNat := by
  simp [beNat]

/-- Reading back the big-endian bytes of a number that fits. -/
theorem beNat_beBytes {w n : ℕ} (h : n < 256 ^ w) : beNat (beBytes w n) = n := by
  induction w generalizing n with
  | zero =>
    have : n = 0 := by simpa using h
    simp [beBytes, this]
  | succ w ih =>
    have hdiv : n / 256 < 256 ^ w := by
      rw [Nat.pow_succ] at h
      exact Nat.div_lt_of_lt_mul (by omega)
    rw [beBytes, beNat_append_singleton, ih hdiv]
    simp only [UInt8.toNat_ofNat']
    omega

/-- Writing back the number a byte string denotes. -/
theorem beBytes_beNat (bytes : List UInt8) : beBytes bytes.length (beNat bytes) = bytes := by
  induction bytes using List.reverseRecOn with
  | nil => rfl
  | append_singleton bytes b ih =>
    have hb : b.toNat < 256 := b.toNat_lt
    have hdiv : (beNat bytes * 256 + b.toNat) / 256 = beNat bytes := by omega
    have hlow : UInt8.ofNat (beNat bytes * 256 + b.toNat) = b := by
      apply UInt8.toNat.inj
      simp only [UInt8.toNat_ofNat']
      omega
    rw [List.length_append, List.length_singleton, beNat_append_singleton, beBytes, hdiv, ih, hlow]

/-- Numbers that fit are told apart by their bytes. -/
theorem beBytes_inj {w m n : ℕ} (hm : m < 256 ^ w) (hn : n < 256 ^ w)
    (h : beBytes w m = beBytes w n) : m = n := by
  rw [← beNat_beBytes hm, h, beNat_beBytes hn]

/-! ## Text -/

/-- `as_bytes` of a text. -/
def utf8 (text : String) : List UInt8 := text.toByteArray.data.toList

theorem utf8_injective {text text' : String} (h : utf8 text = utf8 text') : text = text' := by
  have hdata : text.toByteArray.data = text'.toByteArray.data := Array.toList_inj.mp h
  exact String.toByteArray_inj.mp (ByteArray.ext hdata)

theorem utf8_ofList (chars : List Char) :
    utf8 (String.ofList chars) = chars.flatMap String.utf8EncodeChar := by
  simp [utf8, String.toByteArray_ofList, List.utf8Encode]

theorem length_utf8_ofList_le (chars : List Char) :
    (utf8 (String.ofList chars)).length ≤ 4 * chars.length := by
  rw [utf8_ofList]
  induction chars with
  | nil => simp
  | cons c chars ih =>
    have hc : (String.utf8EncodeChar c).length ≤ 4 := by
      rw [String.length_utf8EncodeChar]
      exact Char.utf8Size_le_four c
    rw [List.flatMap_cons, List.length_append, List.length_cons]
    omega

/-- The size of a text is the sum of those of its characters. -/
theorem utf8ByteSize_ofList (chars : List Char) :
    (String.ofList chars).utf8ByteSize = (chars.map Char.utf8Size).sum := by
  have hutf8 : (String.ofList chars).utf8ByteSize = (utf8 (String.ofList chars)).length := by
    rw [utf8, Array.length_toList]
    rfl
  have hsize : (fun c => (String.utf8EncodeChar c).length) = Char.utf8Size :=
    funext String.length_utf8EncodeChar
  rw [hutf8, utf8_ofList, List.length_flatMap, hsize]

theorem utf8ByteSize_of_ascii {chars : List Char} (h : ∀ c ∈ chars, c.toNat < 128) :
    (String.ofList chars).utf8ByteSize = chars.length := by
  rw [utf8ByteSize_ofList]
  induction chars with
  | nil => rfl
  | cons c chars ih =>
    have hc : c.utf8Size = 1 :=
      Char.utf8Size_eq_one_iff.mpr (Nat.le_of_lt_succ (h c List.mem_cons_self))
    rw [List.map_cons, List.sum_cons, hc, ih fun c hc => h c (List.mem_cons_of_mem _ hc),
      List.length_cons, Nat.add_comm]

/-! ## Codes whose end can be told -/

section Delimited

universe u v

variable {α : Type u} {β : Type v}

/-- Whatever follows the code of a value, the value is read back. The code need not be defined of
all values. -/
def Delimited (encode : α → Option (List β)) : Prop :=
  ∀ ⦃a a' code code' rest rest'⦄, encode a = some code → encode a' = some code' →
    code ++ rest = code' ++ rest' → a = a'

/-- A delimited code comes apart from what follows it. -/
theorem Delimited.split {encode : α → Option (List β)} (h : Delimited encode) {a a' : α}
    {code code' rest rest' : List β} (ha : encode a = some code) (ha' : encode a' = some code')
    (heq : code ++ rest = code' ++ rest') : a = a' ∧ rest = rest' := by
  obtain rfl := h ha ha' heq
  obtain rfl := Option.some.inj (ha.symm.trans ha')
  exact ⟨rfl, List.append_cancel_left heq⟩

theorem Delimited.injective {encode : α → Option (List β)} (h : Delimited encode) {a a' : α}
    {code : List β} (ha : encode a = some code) (ha' : encode a' = some code) : a = a' :=
  (h.split ha ha' (show code ++ [] = code ++ [] from rfl)).1

/-- Bytes after their length, in `w` bytes. -/
def lengthPrefixed (w : ℕ) (bytes : List UInt8) : List UInt8 := beBytes w bytes.length ++ bytes

/-- Bytes whose length fits come apart from what follows them. -/
theorem lengthPrefixed_split {w : ℕ} {bytes bytes' rest rest' : List UInt8}
    (h : bytes.length < 256 ^ w) (h' : bytes'.length < 256 ^ w)
    (heq : lengthPrefixed w bytes ++ rest = lengthPrefixed w bytes' ++ rest') :
    bytes = bytes' ∧ rest = rest' := by
  rw [lengthPrefixed, lengthPrefixed, List.append_assoc, List.append_assoc] at heq
  obtain ⟨hlength, hrest⟩ := List.append_inj heq (by rw [length_beBytes, length_beBytes])
  exact List.append_inj hrest (beBytes_inj h h' hlength)

end Delimited

/-! ## Chunks -/

section Chunks

universe u

variable {α : Type u}

/-- A list cut into pieces of `size`, the last one shorter where it does not come out even. -/
def chunks (size : ℕ) (l : List α) : List (List α) :=
  if _ : size = 0 ∨ l = [] then [] else l.take size :: chunks size (l.drop size)
termination_by l.length
decreasing_by
  rename_i h
  obtain ⟨hsize, hl⟩ := not_or.mp h
  have hpos : 0 < l.length := List.length_pos_iff.mpr hl
  rw [List.length_drop]
  omega

@[simp] theorem chunks_nil (size : ℕ) : chunks size ([] : List α) = [] := by
  rw [chunks, dif_pos (.inr rfl)]

theorem chunks_of_ne_nil {size : ℕ} {l : List α} (hsize : 0 < size) (hl : l ≠ []) :
    chunks size l = l.take size :: chunks size (l.drop size) := by
  rw [chunks, dif_neg (not_or.mpr ⟨by omega, hl⟩)]

/-- Every piece begins within the list. -/
theorem lt_length_of_mem_chunks {size : ℕ} (hsize : 0 < size) :
    ∀ (n : ℕ) (l : List α), l.length = n → ∀ (k i : ℕ) (piece : List α),
      (piece, i) ∈ (chunks size l).zipIdx k → ∃ j, i = k + j ∧ j * size < l.length := by
  intro n
  induction n using Nat.strongRecOn with
  | ind n ih =>
    intro l hn k i piece hmem
    by_cases hl : l = []
    · simp [hl] at hmem
    have hpos : 0 < l.length := List.length_pos_iff.mpr hl
    rw [chunks_of_ne_nil hsize hl, List.zipIdx_cons, List.mem_cons] at hmem
    rcases hmem with heq | hmem
    · exact ⟨0, by simpa using congrArg Prod.snd heq, by omega⟩
    · have hdrop : (l.drop size).length < n := by
        rw [List.length_drop]
        omega
      obtain ⟨j, rfl, hj⟩ := ih _ hdrop _ rfl _ _ _ hmem
      refine ⟨j + 1, by omega, ?_⟩
      rw [List.length_drop] at hj
      rw [Nat.succ_mul]
      omega

end Chunks

/-! ## Checked counters -/

/-- Addition of `w`-bit numbers that fails instead of wrapping around. -/
def checkedAdd (w a b : ℕ) : Option ℕ := if a + b < 2 ^ w then some (a + b) else none

theorem checkedAdd_eq_some {w a b c : ℕ} :
    checkedAdd w a b = some c ↔ a + b < 2 ^ w ∧ a + b = c := by
  simp [checkedAdd]

theorem checkedAdd_eq_none {w a b : ℕ} : checkedAdd w a b = none ↔ 2 ^ w ≤ a + b := by
  simp [checkedAdd]

/-- Multiplication of `w`-bit numbers that fails instead of wrapping around. -/
def checkedMul (w a b : ℕ) : Option ℕ := if a * b < 2 ^ w then some (a * b) else none

/-- Subtraction that fails below zero. -/
def checkedSub (a b : ℕ) : Option ℕ := if b ≤ a then some (a - b) else none

/-! ## Numbered streams -/

section Numbered

universe u

variable {α : Type u}

/-- In a strictly increasing stream the item at position `j` has a number of at
least `j`. -/
theorem le_number_of_increasing {l : List (ℕ × α)} (h : l.Pairwise fun p q => p.1 < q.1) :
    ∀ {j : ℕ} {p : ℕ × α}, l[j]? = some p → j ≤ p.1 := by
  intro j
  induction j with
  | zero => exact fun _ => Nat.zero_le _
  | succ j ih =>
    intro p hp
    obtain ⟨hlt, rfl⟩ := List.getElem?_eq_some_iff.mp hp
    have hprev : j ≤ (l.get ⟨j, by omega⟩).1 := ih (List.getElem?_eq_getElem _)
    have hstep : (l.get ⟨j, by omega⟩).1 < l[j + 1].1 :=
      List.pairwise_iff_getElem.mp h j (j + 1) (by omega) hlt (by omega)
    omega

/-- A receiver that took items numbered `0, 1, 2, …` from a stream of strictly
increasing numbers holds a prefix of the stream, whatever numbers the stream
skips later on. -/
theorem prefix_of_numbered {l : List (ℕ × α)} {taken : List α}
    (hl : l.Pairwise fun p q => p.1 < q.1)
    (htaken : ∀ (i : ℕ) (a : α), taken[i]? = some a → (i, a) ∈ l) :
    taken <+: l.map Prod.snd := by
  have hpos : ∀ (i : ℕ) (a : α), taken[i]? = some a → l[i]? = some (i, a) := by
    intro i
    induction i using Nat.strongRecOn with
    | ind i ih =>
      intro a ha
      obtain ⟨j, hj⟩ := List.mem_iff_getElem?.mp (htaken i a ha)
      have hle : j ≤ i := le_number_of_increasing hl hj
      rcases Nat.lt_or_eq_of_le hle with hlt | rfl
      · -- position `j` already holds the item numbered `j`
        have hi : i < taken.length := (List.getElem?_eq_some_iff.mp ha).1
        have hprev := ih j hlt _ (List.getElem?_eq_getElem (show j < taken.length by omega))
        rw [hprev] at hj
        have : j = i := congrArg Prod.fst (Option.some.inj hj)
        omega
      · exact hj
  rw [List.prefix_iff_getElem?]
  intro i hi
  rw [List.getElem?_map, hpos i _ (List.getElem?_eq_getElem hi)]
  rfl

end Numbered

end Bytes
