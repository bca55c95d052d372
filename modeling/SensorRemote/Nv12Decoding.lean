import SensorRemote.PixelsAvx2

/-!
# Decoding NV12

`nv12_to_rgba_padded` makes a picture of the planes that a decoder gives. The rows of the planes
are `stride` bytes apart and there are `storage_height` rows of luma, both of which may be more
than the picture shows. With AVX2 the first pixels of a row are converted eight at a time and the
loop goes on from there; it is the same picture (`avx2_row_eq`). What lies in the padding is not
read (`padding_unread`).
-/

namespace SensorRemote

open Buffer

/-! ## The program -/

/-- `DecodedFrame`. -/
structure DecodedFrame where
  width : ℕ
  height : ℕ
  rgba : List UInt8
  deriving DecidableEq

/-- A round of the scalar loop. -/
def scalarPixel (bytes : List UInt8) (width stride storageHeight y x : ℕ) (rgba : List UInt8) :
    Option (List UInt8) := do
  let luma ← bytes[y * stride + x]?
  let chroma := stride * storageHeight + y / 2 * stride + x / 2 * 2
  let u ← bytes[chroma]?
  let v ← bytes[chroma + 1]?
  splice rgba ((y * width + x) * 4) (rgbaPixel luma u v)

/-- The scalar loop over a row, from `start` on. -/
def scalarRow (bytes : List UInt8) (width stride storageHeight y start : ℕ) :
    List UInt8 → Option (List UInt8) :=
  fromTo start width (scalarPixel bytes width stride storageHeight y)

/-- The row that `row` converts the first pixels of. -/
def vectorRow (bytes : List UInt8) (width stride storageHeight y : ℕ) (rgba : List UInt8) :
    Option (ℕ × List UInt8) := do
  let chromaRow := stride * storageHeight + y / 2 * stride
  let luma ← slice bytes (y * stride) (y * stride + width)
  let chroma ← slice bytes chromaRow (chromaRow + width)
  let out ← slice rgba (y * width * 4) ((y + 1) * width * 4)
  let (start, out) ← Avx2.row luma chroma out
  return (start, ← splice rgba (y * width * 4) out)

/-- A round of the loop over the rows. -/
def decodeRow (avx2 : Bool) (bytes : List UInt8) (width stride storageHeight y : ℕ)
    (rgba : List UInt8) : Option (List UInt8) := do
  let (start, rgba) ←
    if avx2 then vectorRow bytes width stride storageHeight y rgba else some (0, rgba)
  scalarRow bytes width stride storageHeight y start rgba

/-- `nv12_to_rgba_padded`, on a machine with AVX2 or without; no value is a panic. -/
def nv12ToRgbaPadded (avx2 : Bool) (bytes : List UInt8) (width height stride storageHeight : ℕ) :
    Option (Except MediaError DecodedFrame) :=
  match pixels width height with
  | .error e => some (.error e)
  | .ok count =>
    if width % 2 ≠ 0 ∨ height % 2 ≠ 0 ∨ stride < width ∨ stride > MAX_WIDTH * 4 ∨
        storageHeight < height ∨ storageHeight > MAX_HEIGHT ∨ storageHeight % 2 ≠ 0 ∨
        bytes.length < stride * storageHeight * 3 / 2 then
      some (.error .frame)
    else do
      let rgba ← times height (decodeRow avx2 bytes width stride storageHeight)
        (List.replicate (count * 4) 0)
      return .ok { width, height, rgba }

/-- `nv12_to_rgba`. -/
def nv12ToRgba (avx2 : Bool) (bytes : List UInt8) (width height stride : ℕ) :
    Option (Except MediaError DecodedFrame) :=
  nv12ToRgbaPadded avx2 bytes width height stride height

/-! ## A row -/

/-- The bytes of a row are there. -/
structure RowIn (bytes : List UInt8) (width stride storageHeight y : ℕ)
    (luma chroma : List UInt8) : Prop where
  luma : slice bytes (y * stride) (y * stride + width) = some luma
  chroma : slice bytes (stride * storageHeight + y / 2 * stride)
    (stride * storageHeight + y / 2 * stride + width) = some chroma

variable {bytes luma chroma done : List UInt8} {width height stride storageHeight y : ℕ}

theorem length_of_slice {bytes part : List UInt8} {start length : ℕ}
    (h : slice bytes start (start + length) = some part) : part.length = length := by
  obtain ⟨-, hle, rfl⟩ := slice_eq_some.mp h
  rw [List.length_take, List.length_drop]
  omega

theorem getElem?_of_slice {bytes part : List UInt8} {start length i : ℕ}
    (h : slice bytes start (start + length) = some part) (hi : i < length) :
    bytes[start + i]? = some (part.getD i 0) := by
  rw [← getElem?_of_lt (by rwa [length_of_slice h])]
  obtain ⟨-, hle, rfl⟩ := slice_eq_some.mp h
  rw [Nat.add_sub_cancel_left, List.getElem?_take_of_lt hi, List.getElem?_drop]

/-- A round of the scalar loop writes the pixel of the row. -/
theorem scalarPixel_eq (hrow : RowIn bytes width stride storageHeight y luma chroma)
    (heven : width % 2 = 0) {x : ℕ} (hx : x < width) (buffer : List UInt8) :
    scalarPixel bytes width stride storageHeight y x buffer =
      splice buffer ((y * width + x) * 4) (rowPixel luma chroma x) := by
  have hu := getElem?_of_slice hrow.chroma (show x / 2 * 2 < width by omega)
  have hv : bytes[stride * storageHeight + y / 2 * stride + x / 2 * 2 + 1]? =
      some (chroma.getD (x / 2 * 2 + 1) 0) :=
    getElem?_of_slice hrow.chroma (show x / 2 * 2 + 1 < width by omega)
  simp only [scalarPixel, getElem?_of_slice hrow.luma hx, hu, hv, bind, Option.bind_some]
  rw [rowPixel]

/-- The scalar loop writes the pixels from where it starts. -/
theorem scalarRow_fills (start : ℕ)
    (hrow : RowIn bytes width stride storageHeight y luma chroma)
    (heven : width % 2 = 0) (hdone : done.length = (y * width + start) * 4) :
    Fills done (rowPixels luma chroma start (width - start))
      (scalarRow bytes width stride storageHeight y start) := by
  refine Fills.times fun k hk => ?_
  have hposition : (done ++ rowPixels luma chroma start k).length =
      (y * width + (start + k)) * 4 := by
    rw [List.length_append, length_rowPixels, hdone]
    omega
  intro rest hroom
  rw [scalarPixel_eq hrow heven (by omega)]
  exact Fills.spliceAt hposition _ rest hroom

/-- What `row` makes of a row, and the picture with it. -/
theorem row_spliced (hrow : RowIn bytes width stride storageHeight y luma chroma)
    (hdone : done.length = y * width * 4) {rest : List UInt8} (hroom : width * 4 ≤ rest.length) :
    ∃ converted, Avx2.row luma chroma (rest.take (width * 4)) = some (width / 8 * 8, converted) ∧
      splice (done ++ rest) (y * width * 4) converted =
        some (done ++ rowPixels luma chroma 0 (width / 8 * 8) ++
          rest.drop (width / 8 * 8 * 4)) := by
  have hluma := length_of_slice hrow.luma
  have hchroma := length_of_slice hrow.chroma
  have hout : (rest.take (width * 4)).length = luma.length * 4 := by
    rw [List.length_take, hluma]
    omega
  have hconverted := Avx2.row_eq (hchroma.trans hluma.symm) hout
  rw [hluma] at hconverted
  refine ⟨_, hconverted, ?_⟩
  have hlength : (rowPixels luma chroma 0 (width / 8 * 8) ++
      (rest.take (width * 4)).drop (width / 8 * 8 * 4)).length = width * 4 := by
    rw [List.length_append, length_rowPixels, List.length_drop, List.length_take]
    omega
  have hwritten := Fills.splice done (rowPixels luma chroma 0 (width / 8 * 8) ++
    (rest.take (width * 4)).drop (width / 8 * 8 * 4)) rest (by rwa [hlength])
  -- the rest of the row is written back as it was
  have hback : (rest.take (width * 4)).drop (width / 8 * 8 * 4) ++ rest.drop (width * 4) =
      rest.drop (width / 8 * 8 * 4) := by
    have hsplit : rest.drop (width * 4) =
        (rest.drop (width / 8 * 8 * 4)).drop (width * 4 - width / 8 * 8 * 4) := by
      rw [List.drop_drop]
      congr 1
      omega
    rw [List.drop_take, hsplit, List.take_append_drop]
  rwa [hlength, hdone, List.append_assoc, List.append_assoc, hback, ← List.append_assoc] at hwritten

theorem vectorRow_eq (hrow : RowIn bytes width stride storageHeight y luma chroma)
    (hdone : done.length = y * width * 4) {rest : List UInt8} (hroom : width * 4 ≤ rest.length) :
    vectorRow bytes width stride storageHeight y (done ++ rest) = some (width / 8 * 8,
      done ++ rowPixels luma chroma 0 (width / 8 * 8) ++ rest.drop (width / 8 * 8 * 4)) := by
  obtain ⟨converted, hconverted, hwritten⟩ := row_spliced hrow hdone hroom
  have hend : (y + 1) * width * 4 = done.length + width * 4 := by
    rw [hdone, Nat.add_mul, Nat.one_mul, Nat.add_mul]
  have hout : slice (done ++ rest) (y * width * 4) ((y + 1) * width * 4) =
      some (rest.take (width * 4)) := by
    rw [hend, ← hdone]
    refine slice_eq_some.mpr ⟨by omega, by rw [List.length_append]; omega, ?_⟩
    rw [List.drop_left, Nat.add_sub_cancel_left]
  simp only [vectorRow, hrow.luma, hrow.chroma, hout, hconverted, bind, Option.bind_some, hwritten]
  rfl

/-- The scalar loop finishes what AVX2 began. -/
theorem scalarRow_after (hrow : RowIn bytes width stride storageHeight y luma chroma)
    (heven : width % 2 = 0) (hdone : done.length = y * width * 4) {rest : List UInt8}
    (hroom : width * 4 ≤ rest.length) :
    scalarRow bytes width stride storageHeight y (width / 8 * 8)
        (done ++ rowPixels luma chroma 0 (width / 8 * 8) ++ rest.drop (width / 8 * 8 * 4)) =
      some (done ++ rowPixels luma chroma 0 width ++ rest.drop (width * 4)) := by
  have hfirst : (done ++ rowPixels luma chroma 0 (width / 8 * 8)).length =
      (y * width + width / 8 * 8) * 4 := by
    rw [List.length_append, length_rowPixels, hdone]
    omega
  have hscalar := scalarRow_fills (width / 8 * 8) hrow heven hfirst
    (rest.drop (width / 8 * 8 * 4)) (by rw [length_rowPixels, List.length_drop]; omega)
  have hpixels := rowPixels_append luma chroma 0 (width / 8 * 8) (width - width / 8 * 8)
  have hcount : width / 8 * 8 + (width - width / 8 * 8) = width := by omega
  have hskipped : width / 8 * 8 * 4 + (width - width / 8 * 8) * 4 = width * 4 := by omega
  rw [Nat.zero_add, hcount] at hpixels
  rwa [length_rowPixels, List.drop_drop,
    List.append_assoc done _ (rowPixels luma chroma (width / 8 * 8) _), hpixels, hskipped]
    at hscalar

/-- **A row is decoded**, with AVX2 or without. -/
theorem decodeRow_fills (avx2 : Bool)
    (hrow : RowIn bytes width stride storageHeight y luma chroma) (heven : width % 2 = 0)
    (hdone : done.length = y * width * 4) :
    Fills done (rowPixels luma chroma 0 width)
      (decodeRow avx2 bytes width stride storageHeight y) := by
  cases avx2 with
  | false => exact scalarRow_fills 0 hrow heven hdone
  | true =>
    intro rest hroom
    rw [length_rowPixels] at hroom ⊢
    simp only [decodeRow, if_true, vectorRow_eq hrow hdone hroom, bind, Option.bind_some,
      scalarRow_after hrow heven hdone hroom]

/-- **The AVX2 path equals the scalar path.** `row` converts the pixels of whole groups of eight;
the scalar loop goes on from there, and the two have written what the scalar loop alone would have.
No lane overflows in any group. -/
theorem avx2_row_eq {rgba : List UInt8}
    (hrow : RowIn bytes width stride storageHeight y luma chroma) (heven : width % 2 = 0)
    (hrgba : (y + 1) * width * 4 ≤ rgba.length) :
    (∃ converted buffer whole,
      Avx2.row luma chroma ((rgba.drop (y * width * 4)).take (width * 4)) =
        some (width / 8 * 8, converted) ∧
      splice rgba (y * width * 4) converted = some buffer ∧
      scalarRow bytes width stride storageHeight y (width / 8 * 8) buffer = some whole ∧
      scalarRow bytes width stride storageHeight y 0 rgba = some whole) ∧
    ∀ k < width / 8, ∃ packed, Avx2.group luma chroma (k * 8) = some packed ∧
      ∀ i, (packed i).wrapped = false := by
  have hluma := length_of_slice hrow.luma
  have hchroma := length_of_slice hrow.chroma
  refine ⟨?_, fun k hk => ?_⟩
  · rw [Nat.add_mul, Nat.one_mul, Nat.add_mul] at hrgba
    have hdone : (rgba.take (y * width * 4)).length = y * width * 4 := by
      rw [List.length_take]
      omega
    have hroom : width * 4 ≤ (rgba.drop (y * width * 4)).length := by
      rw [List.length_drop]
      omega
    obtain ⟨converted, hconverted, hwritten⟩ := row_spliced hrow hdone hroom
    have hscalar := scalarRow_fills 0 hrow heven hdone (rgba.drop (y * width * 4))
      (by rwa [length_rowPixels, Nat.sub_zero])
    rw [List.take_append_drop] at hwritten hscalar
    rw [length_rowPixels, Nat.sub_zero] at hscalar
    exact ⟨converted, _, _, hconverted, hwritten, scalarRow_after hrow heven hdone hroom, hscalar⟩
  · have hy : (k + 1) * 8 ≤ luma.length := by omega
    have huv : (k + 1) * 8 ≤ chroma.length := by omega
    obtain ⟨packed, hpacked, hexact, -⟩ := Avx2.group_spec hy huv
    exact ⟨packed, hpacked, hexact⟩

/-- A row of ten pixels, two of which are left to the scalar loop. -/
theorem avx2_ten_pixels :
    (∃ converted buffer whole,
      Avx2.row (List.replicate 10 200) (List.replicate 10 90) (List.replicate 40 0) =
        some (8, converted) ∧
      splice (List.replicate 40 0) 0 converted = some buffer ∧
      scalarRow (List.replicate 10 200 ++ List.replicate 10 90) 10 10 1 0 8 buffer = some whole ∧
      scalarRow (List.replicate 10 200 ++ List.replicate 10 90) 10 10 1 0 0
        (List.replicate 40 0) = some whole) ∧
    ∀ k < 1, ∃ packed,
      Avx2.group (List.replicate 10 200) (List.replicate 10 90) (k * 8) = some packed ∧
        ∀ i, (packed i).wrapped = false := by
  have hrow : RowIn (List.replicate 10 200 ++ List.replicate 10 90) 10 10 1 0
      (List.replicate 10 200) (List.replicate 10 90) := ⟨by decide, by decide⟩
  have hrgba : (0 + 1) * 10 * 4 ≤ (List.replicate 40 (0 : UInt8)).length := by decide
  exact avx2_row_eq hrow (by decide) hrgba

/-! ## A picture -/

/-- What `nv12_to_rgba_padded` checks. -/
structure PlanesIn (bytes : List UInt8) (width height stride storageHeight : ℕ) : Prop where
  pixels : pixels width height = .ok (width * height)
  width_even : width % 2 = 0
  height_even : height % 2 = 0
  stride_ge : width ≤ stride
  stride_le : stride ≤ MAX_WIDTH * 4
  storage_ge : height ≤ storageHeight
  storage_le : storageHeight ≤ MAX_HEIGHT
  storage_even : storageHeight % 2 = 0
  length_ge : stride * storageHeight * 3 / 2 ≤ bytes.length

/-- A row of luma. -/
def lumaRow (bytes : List UInt8) (width stride y : ℕ) : List UInt8 :=
  (bytes.drop (y * stride)).take width

/-- A row of chroma, which two rows of pixels share. -/
def chromaRow (bytes : List UInt8) (width stride storageHeight j : ℕ) : List UInt8 :=
  (bytes.drop (stride * storageHeight + j * stride)).take width

/-- The rows that are shown are there. -/
theorem PlanesIn.row (h : PlanesIn bytes width height stride storageHeight) (hy : y < height) :
    RowIn bytes width stride storageHeight y (lumaRow bytes width stride y)
      (chromaRow bytes width stride storageHeight (y / 2)) := by
  obtain ⟨-, -, hheight, hwidth, -, hstorage, -, heven, hlength⟩ := h
  obtain ⟨half, rfl⟩ : ∃ half, storageHeight = half * 2 := ⟨storageHeight / 2, by omega⟩
  have hplanes : stride * (half * 2) * 3 / 2 = stride * (half * 2) + half * stride := by
    rw [← Nat.mul_assoc, Nat.mul_right_comm, Nat.mul_div_cancel _ (by decide), Nat.mul_comm half]
    omega
  have hluma : (y + 1) * stride ≤ (half * 2) * stride := Nat.mul_le_mul_right stride (by omega)
  have hchroma : (y / 2 + 1) * stride ≤ half * stride := Nat.mul_le_mul_right stride (by omega)
  rw [Nat.add_mul, Nat.one_mul] at hluma hchroma
  rw [Nat.mul_comm (half * 2)] at hluma
  exact ⟨slice_eq_some.mpr ⟨by omega, by omega, by rw [Nat.add_sub_cancel_left]; rfl⟩,
    slice_eq_some.mpr ⟨by omega, by omega, by rw [Nat.add_sub_cancel_left]; rfl⟩⟩

/-- The pixels of the picture. -/
def decodedPixels (bytes : List UInt8) (width height stride storageHeight : ℕ) : List UInt8 :=
  (List.range height).flatMap fun y =>
    rowPixels (lumaRow bytes width stride y) (chromaRow bytes width stride storageHeight (y / 2)) 0
      width

/-- **What `nv12_to_rgba_padded` computes**: it never panics. -/
theorem nv12ToRgbaPadded_eq (avx2 : Bool) (bytes : List UInt8)
    (width height stride storageHeight : ℕ) :
    (¬PlanesIn bytes width height stride storageHeight ∧
      ∃ e, nv12ToRgbaPadded avx2 bytes width height stride storageHeight = some (.error e)) ∨
    (PlanesIn bytes width height stride storageHeight ∧
      nv12ToRgbaPadded avx2 bytes width height stride storageHeight =
        some (.ok ⟨width, height, decodedPixels bytes width height stride storageHeight⟩)) := by
  rw [nv12ToRgbaPadded]
  cases hpixels : pixels width height with
  | error e =>
    refine .inl ⟨fun h => ?_, e, rfl⟩
    rw [h.pixels] at hpixels
    cases hpixels
  | ok count =>
    obtain ⟨-, rfl⟩ := pixels_eq_ok.mp hpixels
    by_cases hbad : width % 2 ≠ 0 ∨ height % 2 ≠ 0 ∨ stride < width ∨ stride > MAX_WIDTH * 4 ∨
        storageHeight < height ∨ storageHeight > MAX_HEIGHT ∨ storageHeight % 2 ≠ 0 ∨
        bytes.length < stride * storageHeight * 3 / 2
    · refine .inl ⟨fun h => ?_, .frame, by simp only [if_pos hbad]⟩
      obtain ⟨-, hwidth, hheight, hstride, hstride', hstorage, hstorage', heven, hlength⟩ := h
      omega
    · have hplanes : PlanesIn bytes width height stride storageHeight :=
        ⟨hpixels, by omega, by omega, by omega, by omega, by omega, by omega, by omega, by omega⟩
      refine .inr ⟨hplanes, ?_⟩
      have hrows : Fills [] (decodedPixels bytes width height stride storageHeight)
          (times height (decodeRow avx2 bytes width stride storageHeight)) := by
        refine Fills.times fun y hy => ?_
        have hdone : ([] ++ (List.range y).flatMap fun y =>
            rowPixels (lumaRow bytes width stride y)
              (chromaRow bytes width stride storageHeight (y / 2)) 0 width).length =
            y * width * 4 := by
          rw [List.nil_append, length_flatMap_range fun _ _ => length_rowPixels _ _ _ _,
            Nat.mul_assoc]
        exact decodeRow_fills avx2 (hplanes.row hy) hplanes.width_even hdone
      have hlength : (List.replicate (width * height * 4) (0 : UInt8)).length =
          (decodedPixels bytes width height stride storageHeight).length := by
        rw [List.length_replicate, decodedPixels,
          length_flatMap_range fun _ _ => length_rowPixels _ _ _ _, ← Nat.mul_assoc,
          Nat.mul_comm height]
      simp only [if_neg hbad, hrows.whole _ hlength]
      rfl

/-! ## Padding -/

/-- The planes without what is not shown. -/
def croppedPlanes (bytes : List UInt8) (width height stride storageHeight : ℕ) : List UInt8 :=
  (List.range height).flatMap (lumaRow bytes width stride) ++
    (List.range (height / 2)).flatMap (chromaRow bytes width stride storageHeight)

section Cropped

variable (h : PlanesIn bytes width height stride storageHeight)

include h

theorem PlanesIn.length_lumaRow (hy : y < height) :
    (lumaRow bytes width stride y).length = width :=
  length_of_slice (h.row hy).luma

theorem PlanesIn.length_chromaRow (hy : y < height / 2) :
    (chromaRow bytes width stride storageHeight y).length = width := by
  have hrow := length_of_slice (h.row (show y * 2 < height by omega)).chroma
  rwa [Nat.mul_div_cancel y (by decide)] at hrow

/-- The planes are those of a picture without padding. -/
theorem PlanesIn.cropped :
    PlanesIn (croppedPlanes bytes width height stride storageHeight) width height width height := by
  obtain ⟨⟨-, -, hwidth, hheight, -⟩, -⟩ := pixels_eq_ok.mp h.pixels
  refine ⟨h.pixels, h.width_even, h.height_even, Nat.le_refl width, ?_, Nat.le_refl height,
    hheight, h.height_even, ?_⟩
  · simp only [MAX_WIDTH] at hwidth ⊢
    omega
  · rw [croppedPlanes, List.length_append, length_flatMap_range fun _ hy => h.length_lumaRow hy,
      length_flatMap_range fun _ hy => h.length_chromaRow hy]
    obtain ⟨half, hhalf⟩ : ∃ half, height = half * 2 :=
      ⟨height / 2, by have := h.height_even; omega⟩
    rw [hhalf, Nat.mul_div_cancel half (by decide), Nat.mul_comm width, Nat.mul_right_comm half,
      Nat.mul_right_comm (half * width), Nat.mul_div_cancel _ (by decide)]
    omega

/-- The rows of the cropped planes are the rows that are shown. -/
theorem PlanesIn.lumaRow_cropped (hy : y < height) :
    lumaRow (croppedPlanes bytes width height stride storageHeight) width width y =
      lumaRow bytes width stride y := by
  have hluma : ((List.range height).flatMap (lumaRow bytes width stride)).length = height * width :=
    length_flatMap_range fun _ hy => h.length_lumaRow hy
  have hend : (y + 1) * width ≤ height * width := Nat.mul_le_mul_right width hy
  rw [Nat.add_mul, Nat.one_mul] at hend
  have hblock := blockAt_flatMap (fun _ hy => h.length_lumaRow hy) hy
  rw [blockAt] at hblock
  rw [lumaRow, croppedPlanes, List.drop_append_of_le_length (by omega),
    List.take_append_of_le_length (by rw [List.length_drop]; omega), hblock]

theorem PlanesIn.chromaRow_cropped (hy : y < height / 2) :
    chromaRow (croppedPlanes bytes width height stride storageHeight) width width height y =
      chromaRow bytes width stride storageHeight y := by
  have hluma : ((List.range height).flatMap (lumaRow bytes width stride)).length = width * height :=
    (length_flatMap_range fun _ hy => h.length_lumaRow hy).trans (Nat.mul_comm height width)
  have hblock := blockAt_flatMap (fun _ hy => h.length_chromaRow hy) hy
  rw [blockAt] at hblock
  rw [chromaRow, croppedPlanes, ← hluma, List.drop_append, List.drop_of_length_le (by omega),
    Nat.add_sub_cancel_left, List.nil_append, hblock]

theorem PlanesIn.decodedPixels_cropped :
    decodedPixels (croppedPlanes bytes width height stride storageHeight) width height width
    height =
      decodedPixels bytes width height stride storageHeight := by
  refine List.flatMap_congr fun y hy => ?_
  have hy := List.mem_range.mp hy
  have hhalf : y / 2 < height / 2 := by
    have := h.height_even
    omega
  rw [h.lumaRow_cropped hy, h.chromaRow_cropped hhalf]

end Cropped

/-- **Padding never leaks into the picture.** What is not refused has no index out of bounds, and
is the picture that `nv12_to_rgba` makes of the planes without their padding; so other bytes in
the padding make no other picture. With AVX2 or without is the same in all of this. -/
theorem padding_unread (avx2 : Bool) (bytes : List UInt8) (width height stride storageHeight : ℕ) :
    (∃ e, nv12ToRgbaPadded avx2 bytes width height stride storageHeight = some (.error e)) ∨
    ∃ frame, nv12ToRgbaPadded avx2 bytes width height stride storageHeight = some (.ok frame) ∧
      (∀ avx2', nv12ToRgba avx2' (croppedPlanes bytes width height stride storageHeight) width
        height width = some (.ok frame)) ∧
      ∀ avx2' bytes', bytes'.length = bytes.length →
        croppedPlanes bytes' width height stride storageHeight =
          croppedPlanes bytes width height stride storageHeight →
        nv12ToRgbaPadded avx2' bytes' width height stride storageHeight = some (.ok frame) := by
  rcases nv12ToRgbaPadded_eq avx2 bytes width height stride storageHeight with
    ⟨-, hrefused⟩ | ⟨h, heq⟩
  · exact .inl hrefused
  · refine .inr ⟨_, heq, fun avx2' => ?_, fun avx2' bytes' hlength hsame => ?_⟩
    · have hrun := (nv12ToRgbaPadded_eq avx2' _ width height width height).resolve_left
        fun hrefused => hrefused.1 h.cropped
      rw [h.decodedPixels_cropped] at hrun
      exact hrun.2
    · have h' : PlanesIn bytes' width height stride storageHeight :=
        ⟨h.pixels, h.width_even, h.height_even, h.stride_ge, h.stride_le, h.storage_ge,
          h.storage_le, h.storage_even, hlength ▸ h.length_ge⟩
      have hrun := (nv12ToRgbaPadded_eq avx2' bytes' width height stride storageHeight).resolve_left
        fun hrefused => hrefused.1 h'
      rw [← h'.decodedPixels_cropped, hsame, h.decodedPixels_cropped] at hrun
      exact hrun.2

end SensorRemote
