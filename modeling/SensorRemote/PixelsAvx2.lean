import SensorRemote.Lib.Lanes
import SensorRemote.Nv12
import Mathlib.Data.Fin.VecNotation

/-!
# Eight pixels at a time

`pixels_avx2::row` converts the first pixels of a row in groups of eight, one lane for each. The
chroma of a square is in two lanes. Each lane computes what the scalar code computes for its pixel
(`bytes_group`), and no number in a lane is ever too large for it (`exact_group`).
-/

namespace SensorRemote

open Buffer Lanes

/-! ## The program -/

namespace Avx2

/-- The arithmetic on eight pixels, from their luma and the two chroma values each has. -/
def convert (y d e : Register 8 32) : Register 8 32 :=
  let zero := Register.set1 0
  let max := Register.set1 255
  let c := Register.max zero (y.sub (.set1 16))
  let luma := (c.mullo (.set1 298)).add (.set1 128)
  let r := Register.min max (Register.max zero (Register.srai 8 (luma.add (e.mullo (.set1 409)))))
  let g := Register.min max (Register.max zero (Register.srai 8
    ((luma.sub (d.mullo (.set1 100))).sub (e.mullo (.set1 208)))))
  let b := Register.min max (Register.max zero (Register.srai 8 (luma.add (d.mullo (.set1 516)))))
  -- the last constant is `0xff000000u32 as i32`
  (r.or (Register.slli 8 g)).or ((Register.slli 16 b).or (.set1 (-0x1000000)))

/-- Four chroma values, each in two lanes. -/
def chromaLanes (a b c d : UInt8) : Register 8 32 :=
  .setr ![(a.toNat : ℤ) - 128, (a.toNat : ℤ) - 128, (b.toNat : ℤ) - 128, (b.toNat : ℤ) - 128,
    (c.toNat : ℤ) - 128, (c.toNat : ℤ) - 128, (d.toNat : ℤ) - 128, (d.toNat : ℤ) - 128]

/-- The group of eight pixels at `x`. -/
def group (y uv : List UInt8) (x : ℕ) : Option (Register 8 32) := do
  let load ← slice y x (x + 8)
  let d := chromaLanes (← uv[x]?) (← uv[x + 2]?) (← uv[x + 4]?) (← uv[x + 6]?)
  let e := chromaLanes (← uv[x + 1]?) (← uv[x + 3]?) (← uv[x + 5]?) (← uv[x + 7]?)
  return convert (.cvtepu8 load) d e

/-- `row`: how many pixels it converted, and the row with them. -/
def row (y uv rgba : List UInt8) : Option (ℕ × List UInt8) :=
  let pixels := y.length / 8 * 8
  if uv.length ≥ pixels ∧ rgba.length ≥ pixels * 4 then do
    let rgba ← stepBy pixels 8 (fun x rgba => do
      let packed ← group y uv x
      splice rgba (x * 4) packed.bytes) rgba
    return (pixels, rgba)
  else none

end Avx2

/-! ## One lane -/

namespace Avx2

variable {y d e : Register 8 32} {i : Fin 8} {luma u v : UInt8}

/-- A byte that was clamped. -/
theorem toNat_clampByte (n : ℤ) : ((clampByte n).toNat : ℤ) = max 0 (min n 255) := by
  have hrange : 0 ≤ max 0 (min n 255) ∧ max 0 (min n 255) ≤ 255 := by omega
  rw [clampByte, UInt8.toNat_ofNat']
  omega

theorem ofNat_eq_clampByte {m : ℕ} {n : ℤ} (h : ((m % 256 : ℕ) : ℤ) = max 0 (min n 255)) :
    UInt8.ofNat m = clampByte n := by
  apply UInt8.toNat_inj.mp
  have hclamp := toNat_clampByte n
  rw [UInt8.toNat_ofNat']
  omega

/-- The digits of a number to the base 256. -/
theorem digits_eq {r g b a m : ℕ} (hr : r < 256) (hg : g < 256) (hb : b < 256) (ha : a < 256)
    (hm : m = r + g * 2 ^ 8 + (b + a * 2 ^ 8) * 2 ^ 16) :
    m % 256 = r ∧ m / 256 % 256 = g ∧ m / 65536 % 256 = b ∧ m / 16777216 % 256 = a := by
  refine ⟨?_, ?_, ?_, ?_⟩ <;> omega

theorem toNat_clamped {a : Lane 32} {n : ℤ} (h : a.Holds (max 0 (min n 255))) :
    (a.bits.toNat : ℤ) = max 0 (min n 255) ∧ a.bits.toNat < 256 := by
  have hbits := h.toNat_bits (by omega)
  exact ⟨hbits, by omega⟩

/-- Three clamped numbers and the constant for the fourth byte, packed in a lane. -/
theorem bytes_packed {r g b : Lane 32} {r' g' b' : ℤ} (hr : r.Holds (max 0 (min r' 255)))
    (hg : g.Holds (max 0 (min g' 255))) (hb : b.Holds (max 0 (min b' 255))) :
    ((r.or (g.slli 8)).or ((b.slli 16).or (.ofInt (-0x1000000)))).wrapped = false ∧
      ((r.or (g.slli 8)).or ((b.slli 16).or (.ofInt (-0x1000000)))).bytes =
        [clampByte r', clampByte g', clampByte b', 255] := by
  have hred := (toNat_clamped hr).2
  have hgreen := (toNat_clamped hg).2
  have hblue := (toNat_clamped hb).2
  have hgfits : g.bits.toNat * 2 ^ 8 < 2 ^ 32 := Lane.mul_two_pow_lt (j := 8) hgreen (by decide)
  have hbfits : b.bits.toNat * 2 ^ 16 < 2 ^ 32 := Lane.mul_two_pow_lt (j := 8) hblue (by decide)
  have hsecond : (g.slli 8).bits.toNat = g.bits.toNat * 2 ^ 8 := Lane.toNat_slli hgfits
  have hthird : (b.slli 16).bits.toNat = b.bits.toNat * 2 ^ 16 := Lane.toNat_slli hbfits
  have hlow := Lane.toNat_or (k := 8) hred hsecond
  have hbelow : (b.slli 16).bits.toNat < 2 ^ 24 :=
    hthird ▸ Lane.mul_two_pow_lt (j := 8) hblue (by decide)
  have halpha : (Lane.ofInt (-0x1000000) : Lane 32).bits.toNat = 255 * 2 ^ 24 := by decide
  have hhigh := Lane.toNat_or hbelow halpha
  have hshifted : ((b.slli 16).or (.ofInt (-0x1000000))).bits.toNat =
      (b.bits.toNat + 255 * 2 ^ 8) * 2 ^ 16 := by
    rw [hhigh, hthird, Nat.add_mul, Nat.mul_assoc, ← Nat.pow_add]
  have hpacked := Lane.toNat_or (show (r.or (g.slli 8)).bits.toNat < 2 ^ 16 by omega) hshifted
  rw [hlow] at hpacked
  refine ⟨Lane.wrapped_or (Lane.wrapped_or hr.exact (Lane.wrapped_slli hg.exact hgfits))
    (Lane.wrapped_or (Lane.wrapped_slli hb.exact hbfits) rfl), ?_⟩
  have hbytes (m : ℕ) : (List.range (32 / 8)).map (fun k => UInt8.ofNat (m / 256 ^ k)) =
      [UInt8.ofNat m, UInt8.ofNat (m / 256), UInt8.ofNat (m / 65536),
        UInt8.ofNat (m / 16777216)] := by
    simp [List.range_succ]
  obtain ⟨hfirst, hsecond, hthird, hfourth⟩ := digits_eq hred hgreen hblue (by decide) hpacked
  rw [Lane.bytes, hbytes, ofNat_eq_clampByte (by rw [hfirst, (toNat_clamped hr).1]),
    ofNat_eq_clampByte (by rw [hsecond, (toNat_clamped hg).1]),
    ofNat_eq_clampByte (by rw [hthird, (toNat_clamped hb).1])]
  have hlast : UInt8.ofNat (((r.or (g.slli 8)).or
      ((b.slli 16).or (.ofInt (-0x1000000)))).bits.toNat / 16777216) = 255 := by
    apply UInt8.toNat_inj.mp
    rw [UInt8.toNat_ofNat']
    exact hfourth
  rw [hlast]

/-- What is clamped in the registers is what `clamp` makes of it. -/
theorem clamped {a : Lane 32} {n : ℤ} (h : a.Holds n) :
    ((Lane.ofInt 255).min ((Lane.ofInt 0).max a)).Holds (max 0 (min n 255)) := by
  have hzero : (Lane.ofInt 0 : Lane 32).Holds 0 := .ofInt (by decide) (by decide)
  have hmax : (Lane.ofInt 255 : Lane 32).Holds 255 := .ofInt (by decide) (by decide)
  have heq : max 0 (min n 255) = min 255 (max 0 n) := by omega
  rw [heq]
  exact hmax.min (hzero.max h)

/-- **A lane computes what the scalar code does.** -/
theorem convert_lane (hy : (y i).Holds luma.toNat) (hd : (d i).Holds ((u.toNat : ℤ) - 128))
    (he : (e i).Holds ((v.toNat : ℤ) - 128)) :
    (convert y d e i).wrapped = false ∧ (convert y d e i).bytes = rgbaPixel luma u v := by
  have hluma := luma.toNat_lt
  have hu := u.toNat_lt
  have hv := v.toNat_lt
  have hconstant (n : ℤ) (h : Lane.Fits 32 n) : (Lane.ofInt n : Lane 32).Holds n :=
    .ofInt (by decide) h
  have hc := (hconstant 0 (by decide)).max (hy.sub (hconstant 16 (by decide))
    (by constructor <;> omega))
  generalize hc' : max 0 ((luma.toNat : ℤ) - 16) = c at hc
  generalize hd' : (u.toNat : ℤ) - 128 = d' at hd
  generalize he' : (v.toNat : ℤ) - 128 = e' at he
  have hscaled := (hc.mullo (hconstant 298 (by decide)) (by constructor <;> omega)).add
    (hconstant 128 (by decide)) (by constructor <;> omega)
  have hr := (hscaled.add (he.mullo (hconstant 409 (by decide)) (by constructor <;> omega))
    (by constructor <;> omega)).srai 8
  have hg := ((hscaled.sub (hd.mullo (hconstant 100 (by decide)) (by constructor <;> omega))
    (by constructor <;> omega)).sub
      (he.mullo (hconstant 208 (by decide)) (by constructor <;> omega))
      (by constructor <;> omega)).srai 8
  have hb := (hscaled.add (hd.mullo (hconstant 516 (by decide)) (by constructor <;> omega))
    (by constructor <;> omega)).srai 8
  obtain ⟨hexact, hbytes⟩ := bytes_packed (clamped hr) (clamped hg) (clamped hb)
  refine ⟨hexact, hbytes.trans ?_⟩
  have hscalar : max ((luma.toNat : ℤ) - 16) 0 = c := by omega
  simp only [rgbaPixel, hscalar, hd', he']
  have hred : c * 298 + 128 + e' * 409 = 298 * c + 409 * e' + 128 := by omega
  have hgreen : c * 298 + 128 - d' * 100 - e' * 208 =
    298 * c - 100 * d' - 208 * e' + 128 := by omega
  have hblue : c * 298 + 128 + d' * 516 = 298 * c + 516 * d' + 128 := by omega
  rw [hred, hgreen, hblue]

/-! ## The groups of a row -/

/-- A lane of chroma holds the value of the square its pixel is in. -/
theorem chromaLanes_holds (value : ℕ → UInt8) (i : Fin 8) :
    (chromaLanes (value 0) (value 2) (value 4) (value 6) i).Holds
      (((value (i / 2 * 2)).toNat : ℤ) - 128) := by
  have hvalue (c : UInt8) : (Lane.ofInt ((c.toNat : ℤ) - 128) : Lane 32).Holds
      ((c.toNat : ℤ) - 128) := by
    have hc := c.toNat_lt
    exact .ofInt (by decide) (by constructor <;> omega)
  match i with
  | 0 | 1 | 2 | 3 | 4 | 5 | 6 | 7 => exact hvalue _

/-- **Groups are exact.** A group of a row is all there, its lanes do not overflow, and it is
stored as what the scalar code makes of its eight pixels. -/
theorem group_spec {y uv : List UInt8} {k : ℕ} (hy : (k + 1) * 8 ≤ y.length)
    (huv : (k + 1) * 8 ≤ uv.length) : ∃ packed, group y uv (k * 8) = some packed ∧
      (∀ i, (packed i).wrapped = false) ∧
      packed.bytes = rowPixels y uv (k * 8) 8 := by
  have hloaded : slice y (k * 8) (k * 8 + 8) = some ((y.drop (k * 8)).take 8) :=
    slice_eq_some.mpr ⟨by omega, by omega, by rw [Nat.add_sub_cancel_left]⟩
  have hchroma {j : ℕ} (hj : j < 8) : uv[k * 8 + j]? = some (uv.getD (k * 8 + j) 0) :=
    getElem?_of_lt (by omega)
  have hluma (i : Fin 8) : ((y.drop (k * 8)).take 8).getD i 0 = y.getD (k * 8 + i) 0 := by
    rw [List.getD_eq_getElem?_getD, List.getElem?_take_of_lt i.isLt, List.getElem?_drop,
      ← List.getD_eq_getElem?_getD]
  have hload (i : Fin 8) : ((.cvtepu8 ((y.drop (k * 8)).take 8) : Register 8 32) i).Holds
      (y.getD (k * 8 + i) 0).toNat := by
    have hbyte := (y.getD (k * 8 + i) 0).toNat_lt
    simp only [Register.cvtepu8, hluma i]
    exact .ofInt (by decide) (by constructor <;> omega)
  have hlane (i : Fin 8) :=
    convert_lane (hload i) (chromaLanes_holds (fun j => uv.getD (k * 8 + j) 0) i)
    (chromaLanes_holds (fun j => uv.getD (k * 8 + (j + 1)) 0) i)
  refine ⟨_, ?_, fun i => (hlane i).1, Register.bytes_eq fun i => ?_⟩
  · have hfirst : uv[k * 8]? = some (uv.getD (k * 8 + 0) 0) := hchroma (show 0 < 8 by decide)
    simp only [group, hloaded, bind, Option.bind_some, hfirst, hchroma (show 1 < 8 by decide),
      hchroma (show 2 < 8 by decide), hchroma (show 3 < 8 by decide),
      hchroma (show 4 < 8 by decide), hchroma (show 5 < 8 by decide),
      hchroma (show 6 < 8 by decide), hchroma (show 7 < 8 by decide)]
    rfl
  · -- eight is even, so the squares of the group are those of the row
    have hsquare : (k * 8 + i) / 2 * 2 = k * 8 + i / 2 * 2 := by omega
    rw [(hlane i).2, rowPixel, hsquare]
    rfl

/-- **What `row` computes**: the pixels of whole groups of eight, with the rest of the row as it
was. -/
theorem row_eq {y uv rgba : List UInt8} (huv : uv.length = y.length)
    (hrgba : rgba.length = y.length * 4) :
    row y uv rgba = some (y.length / 8 * 8,
      rowPixels y uv 0 (y.length / 8 * 8) ++ rgba.drop (y.length / 8 * 8 * 4)) := by
  have hcount : (y.length / 8 * 8 + 8 - 1) / 8 = y.length / 8 := by omega
  have hgroups : Fills [] ((List.range (y.length / 8)).flatMap fun k => rowPixels y uv (k * 8) 8)
      (times (y.length / 8) fun k rgba => do
        let packed ← group y uv (k * 8)
        splice rgba (k * 8 * 4) packed.bytes) := by
    refine Fills.times fun k hk => ?_
    have hy : (k + 1) * 8 ≤ y.length := by omega
    obtain ⟨packed, hpacked, -, hbytes⟩ := group_spec hy (huv.symm ▸ hy)
    have hdone : ([] ++ (List.range k).flatMap fun k => rowPixels y uv (k * 8) 8).length =
        k * 8 * 4 := length_grid (w := 4) fun _ _ _ _ => rfl
    simp only [hpacked, bind, Option.bind_some, hbytes]
    exact Fills.spliceAt hdone _
  have hpixels : ((List.range (y.length / 8)).flatMap fun k => rowPixels y uv (k * 8) 8) =
      rowPixels y uv 0 (y.length / 8 * 8) := by
    apply (flatMap_rows _ _ (rowPixel y uv)).trans
    simp only [rowPixels, Nat.zero_add]
  have hroom : uv.length ≥ y.length / 8 * 8 ∧ rgba.length ≥ y.length / 8 * 8 * 4 := by omega
  rw [hpixels] at hgroups
  have hrun := hgroups rgba (by rw [length_rowPixels]; exact hroom.2)
  rw [length_rowPixels, List.nil_append, List.nil_append] at hrun
  simp only [row, if_pos hroom, stepBy, hcount]
  rw [hrun]
  rfl

end Avx2

end SensorRemote
