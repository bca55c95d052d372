import SensorRemote.Lib.Bytes

/-!
# JSON texts

What a compact JSON writer makes of numbers, strings, arrays and objects, as bytes, and how long
it gets. What was written can be told from what follows it: a number up to the next byte that is no
digit, and the others by themselves.
-/

namespace JsonText

open Bytes

/-- A number, in decimal. -/
def number (n : ℕ) : List UInt8 := (Nat.toDigits 10 n).map fun c => UInt8.ofNat c.toNat

/-- Values with commas between them. -/
def joined : List (List UInt8) → List UInt8
  | [] => []
  | value :: values => value ++ values.flatMap fun value => 44 :: value

/-- An array of values. -/
def array (values : List (List UInt8)) : List UInt8 := 91 :: (joined values ++ [93])

/-- An array of numbers. -/
def numbers (ns : List ℕ) : List UInt8 := array (ns.map number)

/-- The digits of an escape. -/
def hexDigit (n : ℕ) : UInt8 := UInt8.ofNat (Nat.digitChar n).toNat

/-- A byte of a string. Quotes, backslashes and control characters are escaped. -/
def escaped (b : UInt8) : List UInt8 :=
  if b = 34 then [92, 34]
  else if b = 92 then [92, 92]
  else if b = 8 then [92, 98]
  else if b = 9 then [92, 116]
  else if b = 10 then [92, 110]
  else if b = 12 then [92, 102]
  else if b = 13 then [92, 114]
  else if b < 32 then [92, 117, 48, 48, hexDigit (b.toNat / 16), hexDigit (b.toNat % 16)]
  else [b]

def string (text : String) : List UInt8 := 34 :: ((utf8 text).flatMap escaped ++ [34])

/-- An object with these fields. -/
def object (fields : List (String × List UInt8)) : List UInt8 :=
  123 :: (joined (fields.map fun field => string field.1 ++ 58 :: field.2) ++ [125])

/-! ## Numbers -/

def isDigit (b : UInt8) : Bool := 48 ≤ b && b ≤ 57

theorem toNat_digit {n : ℕ} {c : Char} (h : c ∈ Nat.toDigits 10 n) :
    48 ≤ c.toNat ∧ c.toNat ≤ 57 := by
  have hdigit := Nat.isDigit_of_mem_toDigits (by decide) (Nat.le_refl 10) h
  simpa [Char.isDigit, UInt32.le_iff_toNat_le] using hdigit

theorem number_isDigit (n : ℕ) : ∀ b ∈ number n, isDigit b = true := by
  intro b hb
  obtain ⟨c, hc, rfl⟩ := List.mem_map.mp hb
  obtain ⟨hlow, hhigh⟩ := toNat_digit hc
  simp only [isDigit, Bool.and_eq_true, decide_eq_true_eq, UInt8.le_iff_toNat_le,
    UInt8.toNat_ofNat']
  constructor
  · change 48 ≤ c.toNat % 256
    omega
  · change c.toNat % 256 ≤ 57
    omega

/-- A number is read back from its digits. -/
theorem number_injective {n m : ℕ} (h : number n = number m) : n = m := by
  have hchars : ∀ n, (number n).map (fun b => Char.ofNat b.toNat) = Nat.toDigits 10 n := by
    intro n
    rw [number, List.map_map]
    refine (List.map_congr_left fun c hc => ?_).trans (List.map_id _)
    obtain ⟨hlow, hhigh⟩ := toNat_digit hc
    have hbyte : (UInt8.ofNat c.toNat).toNat = c.toNat := by
      rw [UInt8.toNat_ofNat']
      omega
    simp only [Function.comp, hbyte, Char.ofNat_toNat, id]
  rw [← Nat.ofDigitChars_ten_toDigits (n := n), ← Nat.ofDigitChars_ten_toDigits (n := m),
    ← hchars n,
    ← hchars m, h]

/-- A number ends at the first byte that is no digit. -/
theorem number_split {n m : ℕ} {c d : UInt8} {rest rest' : List UInt8} (hc : isDigit c = false)
    (hd : isDigit d = false) (h : number n ++ c :: rest = number m ++ d :: rest') :
    n = m ∧ c :: rest = d :: rest' := by
  have htake := congrArg (List.takeWhile isDigit) h
  rw [List.takeWhile_append_of_pos (number_isDigit n),
    List.takeWhile_append_of_pos (number_isDigit m),
    List.takeWhile_cons_of_neg (by simp [hc]), List.takeWhile_cons_of_neg (by simp [hd]),
    List.append_nil, List.append_nil] at htake
  rw [htake] at h
  exact ⟨number_injective htake, List.append_cancel_left h⟩

theorem length_number_le {n k : ℕ} (h : n < 10 ^ (k + 1)) : (number n).length ≤ k + 1 := by
  rw [number, List.length_map]
  exact (Nat.length_toDigits_le_iff (by decide) (Nat.succ_pos k)).mpr h

/-! ## Strings -/

/-- What an escape is of, and what follows it. -/
def unescaped : List UInt8 → Option (UInt8 × List UInt8)
  | 92 :: 34 :: rest => some (34, rest)
  | 92 :: 92 :: rest => some (92, rest)
  | 92 :: 98 :: rest => some (8, rest)
  | 92 :: 116 :: rest => some (9, rest)
  | 92 :: 110 :: rest => some (10, rest)
  | 92 :: 102 :: rest => some (12, rest)
  | 92 :: 114 :: rest => some (13, rest)
  | 92 :: 117 :: 48 :: 48 :: high :: low :: rest =>
    some ((high - 48) * 16 + if low < 58 then low - 48 else low - 87, rest)
  | 34 :: _ => none
  | b :: rest => some (b, rest)
  | [] => none

theorem unescaped_append (b : UInt8) (rest : List UInt8) :
    unescaped (escaped b ++ rest) = some (b, rest) := by
  by_cases hshort : b = 34 ∨ b = 92 ∨ b = 8 ∨ b = 9 ∨ b = 10 ∨ b = 12 ∨ b = 13
  · rcases hshort with rfl | rfl | rfl | rfl | rfl | rfl | rfl <;> rfl
  simp only [not_or] at hshort
  obtain ⟨hquote, hbackslash, h8, h9, h10, h12, h13⟩ := hshort
  simp only [escaped, if_neg hquote, if_neg hbackslash, if_neg h8, if_neg h9, if_neg h10,
    if_neg h12,
    if_neg h13]
  by_cases hcontrol : b < 32
  · have hdigits : ∀ n < 32, (hexDigit (n / 16) - 48) * 16 +
        (if hexDigit (n % 16) < 58 then hexDigit (n % 16) - 48 else hexDigit (n % 16) - 87) =
          UInt8.ofNat n := by decide
    have hvalue := hdigits b.toNat (UInt8.lt_iff_toNat_lt.mp hcontrol)
    rw [UInt8.ofNat_toNat] at hvalue
    rw [if_pos hcontrol]
    simp only [List.cons_append, List.nil_append, unescaped, hvalue]
  · rw [if_neg hcontrol, List.singleton_append]
    unfold unescaped
    split <;> simp_all

/-- Bytes up to a quote that is not escaped. -/
theorem escaped_split {bytes bytes' rest rest' : List UInt8}
    (h : bytes.flatMap escaped ++ 34 :: rest = bytes'.flatMap escaped ++ 34 :: rest') :
    bytes = bytes' ∧ rest = rest' := by
  have hquote : ∀ (b : UInt8) (bytes rest rest' : List UInt8),
      34 :: rest' ≠ (b :: bytes).flatMap escaped ++ rest := by
    intro b bytes rest rest' heq
    have hread := unescaped_append b (bytes.flatMap escaped ++ rest)
    rw [← List.append_assoc, ← List.flatMap_cons, ← heq] at hread
    cases hread
  induction bytes generalizing bytes' with
  | nil =>
    cases bytes' with
    | nil => exact ⟨rfl, (List.cons.inj h).2⟩
    | cons b bytes' => exact absurd h (hquote b bytes' _ _)
  | cons b bytes ih =>
    cases bytes' with
    | nil => exact absurd h.symm (hquote b bytes _ _)
    | cons b' bytes' =>
      have hread := congrArg unescaped h
      simp only [List.flatMap_cons, List.append_assoc, unescaped_append, Option.some.injEq,
        Prod.mk.injEq] at hread
      obtain ⟨rfl, hmore⟩ := hread
      obtain ⟨rfl, hrest⟩ := ih hmore
      exact ⟨rfl, hrest⟩

/-- A string ends with its quote. -/
theorem string_split {text text' : String} {rest rest' : List UInt8}
    (h : string text ++ rest = string text' ++ rest') : text = text' ∧ rest = rest' := by
  simp only [string, List.cons_append, List.append_assoc, List.nil_append, List.cons.injEq,
    true_and] at h
  obtain ⟨hutf8, hrest⟩ := escaped_split h
  exact ⟨utf8_injective hutf8, hrest⟩

/-! ## Arrays of numbers -/

/-- What comes after a number is a comma or the bracket. -/
theorem exists_stop (ns : List ℕ) (rest : List UInt8) : ∃ c tail, isDigit c = false ∧
    (ns.flatMap fun n => 44 :: number n) ++ 93 :: rest = c :: tail := by
  cases ns with
  | nil => exact ⟨93, rest, rfl, rfl⟩
  | cons n ns => exact ⟨44, _, rfl, rfl⟩

/-- More numbers, each after a comma. -/
theorem numbers_more_split {ns ms : List ℕ} {rest rest' : List UInt8}
    (h : (ns.flatMap fun n => 44 :: number n) ++ 93 :: rest =
      (ms.flatMap fun n => 44 :: number n) ++ 93 :: rest') : ns = ms ∧ rest = rest' := by
  induction ns generalizing ms with
  | nil =>
    cases ms with
    | nil => exact ⟨rfl, (List.cons.inj h).2⟩
    | cons m ms => cases (List.cons.inj h).1
  | cons n ns ih =>
    cases ms with
    | nil => cases (List.cons.inj h).1
    | cons m ms =>
      simp only [List.flatMap_cons, List.cons_append, List.append_assoc, List.cons.injEq,
        true_and] at h
      obtain ⟨c, tail, hc, htail⟩ := exists_stop ns rest
      obtain ⟨d, tail', hd, htail'⟩ := exists_stop ms rest'
      rw [htail, htail'] at h
      obtain ⟨rfl, hmore⟩ := number_split hc hd h
      rw [← htail, ← htail'] at hmore
      obtain ⟨rfl, hrest⟩ := ih hmore
      exact ⟨rfl, hrest⟩

/-- An array that is not empty is its numbers with a comma each, less the first comma. -/
theorem numbers_cons (n : ℕ) (ns : List ℕ) (rest : List UInt8) :
    91 :: 44 :: (numbers (n :: ns) ++ rest).tail =
      91 :: (((n :: ns).flatMap fun n => 44 :: number n) ++ 93 :: rest) := by
  simp [numbers, array, joined, List.flatMap_map]

theorem numbers_nil_ne {n : ℕ} {ns : List ℕ} {rest rest' : List UInt8} :
    numbers [] ++ rest ≠ numbers (n :: ns) ++ rest' := by
  intro h
  obtain ⟨b, tail, hb⟩ := List.exists_cons_of_ne_nil
    (show number n ≠ [] by simp [number, Nat.toDigits_ne_nil])
  have hdigit := number_isDigit n b (by rw [hb]; exact List.mem_cons_self)
  simp only [numbers, array, joined, List.map_nil, List.map_cons, hb, List.cons_append,
    List.nil_append, List.cons.injEq] at h
  rw [← h.2.1] at hdigit
  cases hdigit

/-- An array of numbers ends with its bracket. -/
theorem numbers_split {ns ms : List ℕ} {rest rest' : List UInt8}
    (h : numbers ns ++ rest = numbers ms ++ rest') : ns = ms ∧ rest = rest' := by
  cases ns with
  | nil =>
    cases ms with
    | nil => exact ⟨rfl, List.append_cancel_left h⟩
    | cons m ms => exact absurd h numbers_nil_ne
  | cons n ns =>
    cases ms with
    | nil => exact absurd h.symm numbers_nil_ne
    | cons m ms =>
      have hmore := numbers_cons n ns rest
      rw [h, numbers_cons] at hmore
      exact numbers_more_split (List.cons.inj hmore).2.symm

/-! ## Lengths -/

/-- Numbers of so many digits, with a comma or a bracket each. -/
theorem length_numbers_le (ns : List ℕ) (k : ℕ) (h : ∀ n ∈ ns, n < 10 ^ (k + 1)) :
    (numbers ns).length ≤ 2 + (k + 2) * ns.length := by
  have hmore : ∀ ns : List ℕ, (∀ n ∈ ns, n < 10 ^ (k + 1)) →
      (ns.flatMap fun n => 44 :: number n).length ≤ (k + 2) * ns.length := by
    intro ns
    induction ns with
    | nil => simp
    | cons n ns ih =>
      intro h
      have hn := length_number_le (h n List.mem_cons_self)
      have hns := ih fun m hm => h m (List.mem_cons_of_mem _ hm)
      simp only [List.flatMap_cons, List.length_append, List.length_cons, Nat.mul_add]
      omega
  cases ns with
  | nil => simp [numbers, array, joined]
  | cons n ns =>
    have hlength := congrArg List.length (numbers_cons n ns [])
    have hbound := hmore (n :: ns) h
    simp only [List.length_cons, List.length_append, List.length_tail, List.append_nil,
      List.length_nil] at hlength hbound ⊢
    omega

end JsonText
