import Mathlib.Algebra.Group.Int.Defs
import Mathlib.Algebra.Group.Nat.Defs
import Mathlib.Data.List.FinRange
import Mathlib.Data.Int.Notation
import Mathlib.Data.Nat.Notation
import Mathlib.Tactic.Common

/-!
# Vectors of machine integers

The lanes of a vector register hold two's complement numbers of `w` bits, and arithmetic on them
wraps around. Each lane also says whether an operation on the way to it did: that is not in the
register, and no operation reads it. A lane that holds an integer (`Lane.Holds`) has it as its
signed value and never wrapped; operations on such lanes are those on the integers as long as the
results fit.
-/

namespace Lanes

/-- A lane, with a mark if what was put in it ever wrapped around. -/
structure Lane (w : ℕ) where
  bits : BitVec w
  wrapped : Bool

namespace Lane

variable {w : ℕ}

/-- A constant. -/
def ofInt (v : ℤ) : Lane w := ⟨BitVec.ofInt w v, false⟩

/-- The sum, wrapped around. -/
def add (a b : Lane w) : Lane w :=
  ⟨a.bits + b.bits, a.wrapped || b.wrapped || a.bits.saddOverflow b.bits⟩

/-- The difference, wrapped around. -/
def sub (a b : Lane w) : Lane w :=
  ⟨a.bits - b.bits, a.wrapped || b.wrapped || a.bits.ssubOverflow b.bits⟩

/-- The low half of the product. -/
def mullo (a b : Lane w) : Lane w :=
  ⟨a.bits * b.bits, a.wrapped || b.wrapped || a.bits.smulOverflow b.bits⟩

/-- The larger of two signed numbers. -/
def max (a b : Lane w) : Lane w :=
  ⟨if a.bits.slt b.bits then b.bits else a.bits, a.wrapped || b.wrapped⟩

/-- The smaller of two signed numbers. -/
def min (a b : Lane w) : Lane w :=
  ⟨if a.bits.slt b.bits then a.bits else b.bits, a.wrapped || b.wrapped⟩

/-- The arithmetic shift to the right. -/
def srai (k : ℕ) (a : Lane w) : Lane w := ⟨a.bits.sshiftRight k, a.wrapped⟩

/-- The shift to the left, which may lose bits. -/
def slli (k : ℕ) (a : Lane w) : Lane w :=
  ⟨a.bits <<< k, a.wrapped || decide (2 ^ w ≤ a.bits.toNat * 2 ^ k)⟩

def or (a b : Lane w) : Lane w := ⟨a.bits ||| b.bits, a.wrapped || b.wrapped⟩

/-- The bytes in memory, the low one first. -/
def bytes (a : Lane w) : List UInt8 :=
  (List.range (w / 8)).map fun k => UInt8.ofNat (a.bits.toNat / 256 ^ k)

/-! ## Lanes that hold integers -/

/-- The numbers of `w` bits. -/
def Fits (w : ℕ) (v : ℤ) : Prop := -2 ^ (w - 1) ≤ v ∧ v < 2 ^ (w - 1)

instance (w : ℕ) (v : ℤ) : Decidable (Fits w v) := inferInstanceAs (Decidable (_ ∧ _))

/-- The lane holds the integer, and nothing wrapped. -/
structure Holds (a : Lane w) (v : ℤ) : Prop where
  value : a.bits.toInt = v
  exact : a.wrapped = false

namespace Holds

variable {a b : Lane w} {u v : ℤ}

/-- A constant that fits is held by its lane. -/
theorem ofInt (hw : 0 < w) (h : Fits w v) : (Lane.ofInt v : Lane w).Holds v :=
  ⟨BitVec.toInt_ofInt_eq_self hw h.1 h.2, rfl⟩

/-- A sum that fits is held. -/
theorem add (ha : a.Holds u) (hb : b.Holds v) (h : Fits w (u + v)) : (a.add b).Holds (u + v) := by
  have hno : ¬a.bits.saddOverflow b.bits = true := by
    simpa [BitVec.saddOverflow, ha.value, hb.value] using ⟨h.2, h.1⟩
  refine ⟨?_, ?_⟩
  · rw [Lane.add, BitVec.toInt_add_of_not_saddOverflow hno, ha.value, hb.value]
  · simp [Lane.add, ha.exact, hb.exact, hno]

theorem sub (ha : a.Holds u) (hb : b.Holds v) (h : Fits w (u - v)) : (a.sub b).Holds (u - v) := by
  have hno : ¬a.bits.ssubOverflow b.bits = true := by
    obtain ⟨hlow, hhigh⟩ := h
    simp only [BitVec.ssubOverflow, ha.value, hb.value, Bool.or_eq_true, decide_eq_true_eq]
    omega
  refine ⟨?_, ?_⟩
  · rw [Lane.sub, BitVec.toInt_sub_of_not_ssubOverflow hno, ha.value, hb.value]
  · simp [Lane.sub, ha.exact, hb.exact, hno]

theorem mullo (ha : a.Holds u) (hb : b.Holds v) (h : Fits w (u * v)) :
    (a.mullo b).Holds (u * v) := by
  have hno : ¬a.bits.smulOverflow b.bits = true := by
    simpa [BitVec.smulOverflow, ha.value, hb.value] using ⟨h.2, h.1⟩
  refine ⟨?_, ?_⟩
  · rw [Lane.mullo, BitVec.toInt_mul_of_not_smulOverflow hno, ha.value, hb.value]
  · simp [Lane.mullo, ha.exact, hb.exact, hno]

theorem max (ha : a.Holds u) (hb : b.Holds v) : (a.max b).Holds (Max.max u v) := by
  refine ⟨?_, by simp [Lane.max, ha.exact, hb.exact]⟩
  simp only [Lane.max, BitVec.slt_iff_toInt_lt, ha.value, hb.value]
  split
  · rw [hb.value, max_eq_right (by omega)]
  · rw [ha.value, max_eq_left (by omega)]

theorem min (ha : a.Holds u) (hb : b.Holds v) : (a.min b).Holds (Min.min u v) := by
  refine ⟨?_, by simp [Lane.min, ha.exact, hb.exact]⟩
  simp only [Lane.min, BitVec.slt_iff_toInt_lt, ha.value, hb.value]
  split
  · rw [ha.value, min_eq_left (by omega)]
  · rw [hb.value, min_eq_right (by omega)]

/-- The shift divides by a power of two, rounding down; it never wraps. -/
theorem srai (ha : a.Holds u) (k : ℕ) : (a.srai k).Holds (u >>> k) :=
  ⟨by rw [Lane.srai, BitVec.toInt_sshiftRight, ha.value], ha.exact⟩

/-- The bits of a number that is not negative. -/
theorem toNat_bits (ha : a.Holds u) (hu : 0 ≤ u) : (a.bits.toNat : ℤ) = u := by
  have hlt := a.bits.isLt
  have hvalue := ha.value
  rw [BitVec.toInt_eq_toNat_cond] at hvalue
  split at hvalue
  · exact hvalue
  · omega

end Holds

/-! ## Packed bytes -/

/-- A number that is shifted and still fits. -/
theorem mul_two_pow_lt {m j k : ℕ} (hm : m < 2 ^ j) (hfits : j + k ≤ w) : m * 2 ^ k < 2 ^ w :=
  calc m * 2 ^ k < 2 ^ j * 2 ^ k := Nat.mul_lt_mul_of_pos_right hm (Nat.two_pow_pos k)
    _ = 2 ^ (j + k) := (Nat.pow_add 2 j k).symm
    _ ≤ 2 ^ w := Nat.pow_le_pow_right Nat.two_pos hfits

/-- A shift that fits multiplies by a power of two. -/
theorem toNat_slli {a : Lane w} {k : ℕ} (h : a.bits.toNat * 2 ^ k < 2 ^ w) :
    (a.slli k).bits.toNat = a.bits.toNat * 2 ^ k := by
  rw [slli, BitVec.toNat_shiftLeft, Nat.shiftLeft_eq, Nat.mod_eq_of_lt h]

theorem wrapped_slli {a : Lane w} {k : ℕ} (ha : a.wrapped = false)
    (h : a.bits.toNat * 2 ^ k < 2 ^ w) : (a.slli k).wrapped = false := by
  simp [slli, ha, h]

theorem wrapped_or {a b : Lane w} (ha : a.wrapped = false) (hb : b.wrapped = false) :
    (a.or b).wrapped = false := by
  simp [or, ha, hb]

/-- Numbers that have no bit in common are put together like digits. -/
theorem toNat_or {a b : Lane w} {k n : ℕ} (ha : a.bits.toNat < 2 ^ k)
    (hb : b.bits.toNat = n * 2 ^ k) : (a.or b).bits.toNat = a.bits.toNat + n * 2 ^ k := by
  rw [or, BitVec.toNat_or, hb, Nat.or_comm, ← Nat.shiftLeft_eq, ← Nat.shiftLeft_add_eq_or_of_lt ha,
    Nat.add_comm]

end Lane

/-! ## Registers -/

/-- A register of `n` lanes. -/
abbrev Register (n w : ℕ) := Fin n → Lane w

namespace Register

variable {n w : ℕ}

/-- All lanes alike. -/
def set1 (v : ℤ) : Register n w := fun _ => .ofInt v

/-- The lanes one by one. -/
def setr (v : Fin n → ℤ) : Register n w := fun i => .ofInt (v i)

/-- Bytes as numbers that are not negative. -/
def cvtepu8 (bytes : List UInt8) : Register n w := fun i => .ofInt (bytes.getD i 0).toNat

def add (a b : Register n w) : Register n w := fun i => (a i).add (b i)
def sub (a b : Register n w) : Register n w := fun i => (a i).sub (b i)
def mullo (a b : Register n w) : Register n w := fun i => (a i).mullo (b i)
def max (a b : Register n w) : Register n w := fun i => (a i).max (b i)
def min (a b : Register n w) : Register n w := fun i => (a i).min (b i)
def srai (k : ℕ) (a : Register n w) : Register n w := fun i => (a i).srai k
def slli (k : ℕ) (a : Register n w) : Register n w := fun i => (a i).slli k
def or (a b : Register n w) : Register n w := fun i => (a i).or (b i)

/-- What a store writes: the lanes one after the other. -/
def bytes (a : Register n w) : List UInt8 := (List.finRange n).flatMap fun i => (a i).bytes

/-- A store of a register, from what each of its lanes stores. -/
theorem bytes_eq {a : Register n w} {f : ℕ → List UInt8} (h : ∀ i : Fin n, (a i).bytes = f i) :
    a.bytes = (List.range n).flatMap f := by
  have hrange : List.range n = (List.finRange n).map Fin.val := by
    apply List.ext_getElem <;> simp
  rw [bytes, hrange, List.flatMap_map]
  exact List.flatMap_congr fun i _ => h i

end Register

end Lanes
