import SensorRemote.Lib.Buffer
import SensorRemote.Rotation

/-!
# The colours of a picture

A picture is encoded in NV12: a plane of luma, of one byte for each pixel, and behind it a plane
of chroma, of two bytes for each square of four. This is the arithmetic of one pixel in either
direction, and `bgra_to_nv12`, which makes the planes. The numbers are of 32 bits in the source
and stay far below that.
-/

namespace SensorRemote

open Buffer

/-! ## One pixel -/

/-- `clamp(0, 255) as u8`. -/
def clampByte (v : ℤ) : UInt8 := UInt8.ofNat (max 0 (min v 255)).toNat

/-- The four bytes that `nv12_to_rgba_padded` writes for a pixel. -/
def rgbaPixel (y u v : UInt8) : List UInt8 :=
  let c := max ((y.toNat : ℤ) - 16) 0
  let d := (u.toNat : ℤ) - 128
  let e := (v.toNat : ℤ) - 128
  [clampByte ((298 * c + 409 * e + 128) >>> (8 : ℕ)),
    clampByte ((298 * c - 100 * d - 208 * e + 128) >>> (8 : ℕ)),
    clampByte ((298 * c + 516 * d + 128) >>> (8 : ℕ)), 255]

/-- The luma that `bgra_to_nv12` writes for a pixel. -/
def lumaByte (r g b : ℤ) : UInt8 :=
  clampByte (((66 * r + 129 * g + 25 * b + 128) >>> (8 : ℕ)) + 16)

/-- The chroma that it writes for a square, of the averages. -/
def chromaBytes (r g b : ℤ) : List UInt8 :=
  [clampByte (((-38 * r - 74 * g + 112 * b + 128) >>> (8 : ℕ)) + 128),
    clampByte (((112 * r - 94 * g - 18 * b + 128) >>> (8 : ℕ)) + 128)]

/-- The pixel that the scalar code makes of the bytes of a row. -/
def rowPixel (luma chroma : List UInt8) (x : ℕ) : List UInt8 :=
  rgbaPixel (luma.getD x 0) (chroma.getD (x / 2 * 2) 0) (chroma.getD (x / 2 * 2 + 1) 0)

theorem getElem?_of_lt {bytes : List UInt8} {i : ℕ} (h : i < bytes.length) :
    bytes[i]? = some (bytes.getD i 0) := by
  rw [List.getD_eq_getElem?_getD, List.getElem?_eq_getElem h, Option.getD_some]

@[simp] theorem length_rgbaPixel (y u v : UInt8) : (rgbaPixel y u v).length = 4 := rfl

/-- The pixels of a stretch of a row. -/
def rowPixels (luma chroma : List UInt8) (start count : ℕ) : List UInt8 :=
  (List.range count).flatMap fun k => rowPixel luma chroma (start + k)

@[simp] theorem length_rowPixels (luma chroma : List UInt8) (start count : ℕ) :
    (rowPixels luma chroma start count).length = count * 4 :=
  length_flatMap_range fun _ _ => rfl

/-- A stretch behind another one. -/
theorem rowPixels_append (luma chroma : List UInt8) (start count more : ℕ) :
    rowPixels luma chroma start count ++ rowPixels luma chroma (start + count) more =
      rowPixels luma chroma start (count + more) := by
  simp only [rowPixels, List.range_add, List.flatMap_append, List.flatMap_map, Nat.add_assoc]

@[simp] theorem length_chromaBytes (r g b : ℤ) : (chromaBytes r g b).length = 2 := rfl

/-! ## The planes -/

/-- The colours of a pixel of a frame, the first three of its four bytes. -/
def blue (p : List UInt8) : ℤ := (p.getD 0 0).toNat

/-- As `blue`. -/
def green (p : List UInt8) : ℤ := (p.getD 1 0).toNat

/-- As `blue`. -/
def red (p : List UInt8) : ℤ := (p.getD 2 0).toNat

/-- A round of the loop over the pixels, which are the chunks of four bytes. -/
def writeLuma (frame : BgraFrame) (i : ℕ) (out : List UInt8) : Option (List UInt8) :=
  let p := blockAt 4 frame.bytes i
  splice out i [lumaByte (red p) (green p) (blue p)]

/-- The red, the green and the blue of a square with those of one of its pixels added. -/
def addPixel (frame : BgraFrame) (y x : ℕ) (sums : ℤ × ℤ × ℤ) (d : ℕ × ℕ) :
    Option (ℤ × ℤ × ℤ) := do
  let (r, g, b) := sums
  let (dx, dy) := d
  let p := ((y + dy) * frame.width + x + dx) * 4
  let b := b + (← frame.bytes[p]?).toNat
  let g := g + (← frame.bytes[p + 1]?).toNat
  let r := r + (← frame.bytes[p + 2]?).toNat
  return (r, g, b)

/-- A round of the loops over the squares. -/
def writeChroma (frame : BgraFrame) (count y x : ℕ) (out : List UInt8) :
    Option (List UInt8) := do
  let (r, g, b) ← [(0, 0), (1, 0), (0, 1), (1, 1)].foldlM (addPixel frame y x) (0, 0, 0)
  splice out (count + y / 2 * frame.width + x) (chromaBytes (r.tdiv 4) (g.tdiv 4) (b.tdiv 4))

/-- `bgra_to_nv12`; no value is a panic. -/
def bgraToNv12 (frame : BgraFrame) : Option (Except MediaError (List UInt8)) :=
  match pixels frame.width frame.height with
  | .error e => some (.error e)
  | .ok count =>
    if frame.width % 2 ≠ 0 ∨ frame.height % 2 ≠ 0 ∨ frame.bytes.length ≠ count * 4 then
      some (.error .frame)
    else do
      let out ← times (frame.bytes.length / 4) (writeLuma frame)
        (List.replicate (count * 3 / 2) 0)
      let out ← stepBy frame.height 2
        (fun y => stepBy frame.width 2 (writeChroma frame count y)) out
      return .ok out

/-! ## What they are -/

/-- What `bgra_to_nv12` checks. -/
structure BgraFrame.Encodable (frame : BgraFrame) : Prop extends frame.Sound where
  width_even : frame.width % 2 = 0
  height_even : frame.height % 2 = 0

/-- The luma of a pixel. -/
def pixelLuma (p : List UInt8) : UInt8 := lumaByte (red p) (green p) (blue p)

/-- A colour's average over a square. -/
def squareAverage (frame : BgraFrame) (colour : List UInt8 → ℤ) (y x : ℕ) : ℤ :=
  (colour (frame.pixel x y) + colour (frame.pixel (x + 1) y) + colour (frame.pixel x (y + 1)) +
    colour (frame.pixel (x + 1) (y + 1))).tdiv 4

/-- The chroma of a square. -/
def squareChroma (frame : BgraFrame) (y x : ℕ) : List UInt8 :=
  chromaBytes (squareAverage frame red y x) (squareAverage frame green y x)
    (squareAverage frame blue y x)

/-- The plane of luma. -/
def lumaPlane (frame : BgraFrame) : List UInt8 :=
  (List.range (frame.width * frame.height)).flatMap fun i => [pixelLuma (blockAt 4 frame.bytes i)]

/-- The plane of chroma. -/
def chromaPlane (frame : BgraFrame) : List UInt8 :=
  grid (frame.height / 2) (frame.width / 2) fun y x => squareChroma frame (y * 2) (x * 2)

variable {frame : BgraFrame} {x y : ℕ}

@[simp] theorem length_squareChroma : (squareChroma frame y x).length = 2 := rfl

@[simp] theorem length_lumaPlane : (lumaPlane frame).length = frame.width * frame.height := by
  rw [lumaPlane, length_flatMap_range (w := 1) fun _ _ => rfl, Nat.mul_one]

@[simp] theorem length_chromaPlane :
    (chromaPlane frame).length = frame.height / 2 * (frame.width / 2) * 2 :=
  length_grid fun _ _ _ _ => rfl

/-- A byte of a pixel is there. -/
theorem BgraFrame.Sound.getElem?_bytes (h : frame.Sound) (hx : x < frame.width)
    (hy : y < frame.height) {k : ℕ} (hk : k < 4) :
    frame.bytes[(y * frame.width + x) * 4 + k]? = some ((frame.pixel x y).getD k 0) := by
  have hcell := cell_lt hy hx
  have hlength := h.length
  rw [Nat.mul_comm frame.width] at hlength
  rw [getElem?_of_lt (by omega), List.getD_eq_getElem?_getD, List.getD_eq_getElem?_getD,
    BgraFrame.pixel, blockAt, List.getElem?_take_of_lt hk, List.getElem?_drop]

theorem addPixel_eq (h : frame.Sound) {dx dy : ℕ} (hx : x + dx < frame.width)
    (hy : y + dy < frame.height) (r g b : ℤ) :
    addPixel frame y x (r, g, b) (dx, dy) = some (r + red (frame.pixel (x + dx) (y + dy)),
      g + green (frame.pixel (x + dx) (y + dy)), b + blue (frame.pixel (x + dx) (y + dy))) := by
  have hbyte {k : ℕ} (hk : k < 4) := h.getElem?_bytes hx hy hk
  have hb := hbyte (show 0 < 4 by decide)
  have hg := hbyte (show 1 < 4 by decide)
  have hr := hbyte (show 2 < 4 by decide)
  rw [← Nat.add_assoc] at hb hg hr
  rw [Nat.add_zero] at hb
  simp only [addPixel, hb, hg, hr, bind, Option.bind_some]
  rfl

/-- A round writes the chroma of a square. -/
theorem writeChroma_eq (h : frame.Encodable) (hy : y < frame.height / 2)
    (hx : x < frame.width / 2) (out : List UInt8) :
    writeChroma frame (frame.width * frame.height) (y * 2) (x * 2) out =
      splice out (frame.width * frame.height + (y * (frame.width / 2) + x) * 2)
        (squareChroma frame (y * 2) (x * 2)) := by
  have hrow : y * 2 / 2 * frame.width = y * (frame.width / 2) * 2 := by
    rw [Nat.mul_div_cancel y (by decide), Nat.mul_assoc,
      Nat.div_mul_cancel (Nat.dvd_of_mod_eq_zero h.width_even)]
  have hadd {dx dy : ℕ} (hdx : dx ≤ 1) (hdy : dy ≤ 1) :=
    have hcolumn : x * 2 + dx < frame.width := by omega
    have hrow : y * 2 + dy < frame.height := by omega
    addPixel_eq h.toSound hcolumn hrow
  simp only [writeChroma, List.foldlM_cons, List.foldlM_nil, hadd, Nat.zero_le, Nat.le_refl, bind,
    Option.bind_some, pure]
  rw [hrow, Nat.add_assoc, ← Nat.add_mul]
  simp only [squareChroma, squareAverage, Int.zero_add, Nat.add_zero]

theorem luma_fills (h : frame.Sound) :
    Fills [] (lumaPlane frame) (times (frame.bytes.length / 4) (writeLuma frame)) := by
  rw [h.length, Nat.mul_div_cancel _ (by decide)]
  refine Fills.times fun i hi => ?_
  have hdone : ([] ++ (List.range i).flatMap fun i =>
      [pixelLuma (blockAt 4 frame.bytes i)]).length = i := by
    rw [List.nil_append, length_flatMap_range (w := 1) fun _ _ => rfl, Nat.mul_one]
  exact Fills.spliceAt hdone _

theorem chroma_fills (h : frame.Encodable) :
    Fills (lumaPlane frame) (chromaPlane frame) (stepBy frame.height 2
      fun y => stepBy frame.width 2 (writeChroma frame (frame.width * frame.height) y)) := by
  simp only [stepBy_eq_times Nat.two_pos h.height_even, stepBy_eq_times Nat.two_pos h.width_even]
  exact Fills.grid (frame.width * frame.height) (fun _ _ _ _ => length_squareChroma)
    length_lumaPlane fun y hy x hx out => writeChroma_eq h hy hx out

/-- The planes are as long as the buffer that they are written to. -/
theorem length_planes (h : frame.Encodable) :
    (lumaPlane frame ++ chromaPlane frame).length = frame.width * frame.height * 3 / 2 := by
  have hheight := h.height_even
  obtain ⟨half, hhalf⟩ : ∃ half, frame.height = half * 2 := ⟨frame.height / 2, by omega⟩
  have hsquares : half * (frame.width / 2) * 2 = frame.width * half := by
    rw [Nat.mul_assoc, Nat.div_mul_cancel (Nat.dvd_of_mod_eq_zero h.width_even), Nat.mul_comm]
  rw [List.length_append, length_lumaPlane, length_chromaPlane, hhalf,
    Nat.mul_div_cancel half (by decide), hsquares, ← Nat.mul_assoc]
  omega

/-- **What `bgra_to_nv12` computes**: it never panics. -/
theorem bgraToNv12_eq (frame : BgraFrame) :
    (¬frame.Encodable ∧ ∃ e, bgraToNv12 frame = some (.error e)) ∨
    (frame.Encodable ∧ bgraToNv12 frame = some (.ok (lumaPlane frame ++ chromaPlane frame))) := by
  rw [bgraToNv12]
  cases hpixels : pixels frame.width frame.height with
  | error e =>
    refine .inl ⟨fun h => ?_, e, rfl⟩
    rw [h.pixels] at hpixels
    cases hpixels
  | ok count =>
    obtain ⟨-, rfl⟩ := pixels_eq_ok.mp hpixels
    by_cases hbad : frame.width % 2 ≠ 0 ∨ frame.height % 2 ≠ 0 ∨
        frame.bytes.length ≠ frame.width * frame.height * 4
    · refine .inl ⟨fun h => ?_, .frame, by simp only [if_pos hbad]⟩
      obtain ⟨⟨-, hlength⟩, hwidth, hheight⟩ := h
      omega
    · have h : frame.Encodable := ⟨⟨hpixels, by omega⟩, by omega, by omega⟩
      have hrun := ((luma_fills h.toSound).seq (chroma_fills h)).whole
        (List.replicate (frame.width * frame.height * 3 / 2) 0)
        (by rw [List.length_replicate, length_planes h])
      obtain ⟨out, hout, hplanes⟩ := Option.bind_eq_some_iff.mp hrun
      refine .inr ⟨h, ?_⟩
      simp only [if_neg hbad, hout, hplanes, bind, Option.bind_some]
      rfl

end SensorRemote
