import SensorRemote.Nv12Decoding

/-!
# Colours, there and back

`bgra_to_nv12` keeps the chroma of a square of four pixels only once. Where the four have one
colour nothing is lost by it but what is rounded away, in eight bits both times: the colours that
`nv12_to_rgba` makes of the planes are the colours of the frame to within three
(`colour_round_trip`).
-/

namespace SensorRemote

open Buffer

/-! ## One colour -/

/-- Two numbers that are no more than three apart. -/
def Close (a b : ℤ) : Prop := (a - b).natAbs ≤ 3

/-- A number that a byte can hold. -/
def IsByte (n : ℤ) : Prop := 0 ≤ n ∧ n ≤ 255

theorem shiftRight_eight (n : ℤ) : n >>> (8 : ℕ) = n / 256 := Int.shiftRight_eq_div_pow n 8

theorem toNat_clampByte_of_isByte {n : ℤ} (h : IsByte n) : ((clampByte n).toNat : ℤ) = n := by
  obtain ⟨hlow, hhigh⟩ := h
  rw [Avx2.toNat_clampByte]
  omega

/-- Clamping brings a number nearer to what a byte can hold. -/
theorem Close.clampByte {n m : ℤ} (h : Close n m) (hm : IsByte m) :
    Close (clampByte n).toNat m := by
  obtain ⟨hlow, hhigh⟩ := hm
  rw [Close] at h ⊢
  rw [Avx2.toNat_clampByte]
  omega

section Colour

variable {r g b : ℤ} (hr : IsByte r) (hg : IsByte g) (hb : IsByte b)

include hr hg hb

/-- The luma of a colour needs no clamping. -/
theorem toNat_lumaByte :
    ((lumaByte r g b).toNat : ℤ) = (66 * r + 129 * g + 25 * b + 128) / 256 + 16 := by
  rw [lumaByte, shiftRight_eight]
  obtain ⟨⟨_, _⟩, ⟨_, _⟩, ⟨_, _⟩⟩ := And.intro hr (And.intro hg hb)
  exact toNat_clampByte_of_isByte ⟨by omega, by omega⟩

/-- Nor does the chroma. -/
theorem chromaBytes_eq : ∃ u v, chromaBytes r g b = [u, v] ∧
    (u.toNat : ℤ) = (-38 * r - 74 * g + 112 * b + 128) / 256 + 128 ∧
    (v.toNat : ℤ) = (112 * r - 94 * g - 18 * b + 128) / 256 + 128 := by
  refine ⟨_, _, rfl, ?_⟩
  obtain ⟨⟨_, _⟩, ⟨_, _⟩, ⟨_, _⟩⟩ := And.intro hr (And.intro hg hb)
  simp only [shiftRight_eight]
  exact ⟨toNat_clampByte_of_isByte ⟨by omega, by omega⟩,
    toNat_clampByte_of_isByte ⟨by omega, by omega⟩⟩

/-- A colour comes back as one that is close to it. The two matrices are inverse to one another up
to their rounding; what each shift rounds away, times the coefficients of the second matrix, is
less than three. -/
theorem rgbaPixel_close {u v : UInt8} (hchroma : chromaBytes r g b = [u, v]) :
    ∃ r' g' b' : UInt8, rgbaPixel (lumaByte r g b) u v = [r', g', b', 255] ∧
      Close r'.toNat r ∧ Close g'.toNat g ∧ Close b'.toNat b := by
  obtain ⟨u', v', hbytes, hu, hv⟩ := chromaBytes_eq hr hg hb
  have hy := toNat_lumaByte hr hg hb
  rw [hchroma] at hbytes
  obtain ⟨rfl, rfl⟩ : u = u' ∧ v = v' := by simpa using hbytes
  obtain ⟨⟨_, _⟩, ⟨_, _⟩, ⟨_, _⟩⟩ := And.intro hr (And.intro hg hb)
  have hc : max (((lumaByte r g b).toNat : ℤ) - 16) 0 =
      (66 * r + 129 * g + 25 * b + 128) / 256 := by omega
  have hd : (u.toNat : ℤ) - 128 = (-38 * r - 74 * g + 112 * b + 128) / 256 := by omega
  have he : (v.toNat : ℤ) - 128 = (112 * r - 94 * g - 18 * b + 128) / 256 := by omega
  refine ⟨_, _, _, rfl, ?_⟩
  simp only [hc, hd, he, shiftRight_eight]
  refine ⟨Close.clampByte ?_ hr, Close.clampByte ?_ hg, Close.clampByte ?_ hb⟩ <;>
  · rw [Close]
    omega

end Colour

/-! ## The planes of a frame -/

variable {frame : BgraFrame} {x y : ℕ}

/-- The planes of a frame have no padding. -/
theorem planesIn_of_encodable (h : frame.Encodable) :
    PlanesIn (lumaPlane frame ++ chromaPlane frame)
    frame.width frame.height frame.width frame.height := by
  obtain ⟨⟨-, -, hwidth, hheight, -⟩, -⟩ := pixels_eq_ok.mp h.pixels
  refine ⟨h.pixels, h.width_even, h.height_even, Nat.le_refl _, ?_, Nat.le_refl _, hheight,
    h.height_even, Nat.le_of_eq (length_planes h).symm⟩
  simp only [MAX_WIDTH] at hwidth ⊢
  omega

theorem getD_lumaRow (hx : x < frame.width) (hy : y < frame.height) :
    (lumaRow (lumaPlane frame ++ chromaPlane frame) frame.width frame.width y).getD x 0 =
      pixelLuma (frame.pixel x y) := by
  have hcell := cell_lt hy hx
  rw [Nat.mul_comm frame.height] at hcell
  have hluma : (lumaPlane frame)[y * frame.width + x]? = some (pixelLuma (frame.pixel x y)) := by
    rw [lumaPlane, ← List.map_eq_flatMap, List.getElem?_map, List.getElem?_range hcell]
    rfl
  rw [List.getD_eq_getElem?_getD, lumaRow, List.getElem?_take_of_lt hx, List.getElem?_drop,
    List.getElem?_append_left (by rwa [length_lumaPlane]), hluma, Option.getD_some]

theorem getD_chromaRow (h : frame.Encodable) (hx : x < frame.width) (hy : y < frame.height) {k : ℕ}
    (hk : k < 2) :
    (chromaRow (lumaPlane frame ++ chromaPlane frame) frame.width frame.width frame.height
        (y / 2)).getD (x / 2 * 2 + k) 0 =
          (squareChroma frame (y / 2 * 2) (x / 2 * 2)).getD k 0 := by
  have hwidth := h.width_even
  have hheight := h.height_even
  have hrow : y / 2 * frame.width + (x / 2 * 2 + k) =
      (y / 2 * (frame.width / 2) + x / 2) * 2 + k := by
    have hdouble := Nat.div_mul_cancel (Nat.dvd_of_mod_eq_zero hwidth)
    rw [Nat.add_mul, Nat.mul_assoc, hdouble, Nat.add_assoc]
  have hblock : blockAt 2 (chromaPlane frame) (y / 2 * (frame.width / 2) + x / 2) =
      squareChroma frame (y / 2 * 2) (x / 2 * 2) :=
    blockAt_grid (fun _ _ _ _ => rfl) (by omega) (by omega)
  rw [List.getD_eq_getElem?_getD, chromaRow, List.getElem?_take_of_lt (by omega),
    List.getElem?_drop, Nat.add_assoc, ← length_lumaPlane, List.getElem?_append_right (by omega),
    Nat.add_sub_cancel_left, hrow, ← hblock, blockAt, List.getD_eq_getElem?_getD,
    List.getElem?_take_of_lt hk, List.getElem?_drop]

/-! ## Every pixel -/

/-- The four pixels of every square have one colour, whatever their fourth bytes are. -/
def BgraFrame.Uniform (frame : BgraFrame) : Prop :=
  ∀ x < frame.width, ∀ y < frame.height,
    (frame.pixel x y).take 3 = (frame.pixel (x / 2 * 2) (y / 2 * 2)).take 3

instance (frame : BgraFrame) : Decidable frame.Uniform :=
  inferInstanceAs (Decidable (∀ x < frame.width, ∀ y < frame.height, _ = _))

/-- One of `red`, `green` and `blue`. -/
def IsColour (colour : List UInt8 → ℤ) : Prop :=
  ∃ k < 3, ∀ p, colour p = (p.getD k 0).toNat

theorem isColour_red : IsColour red := ⟨2, by decide, fun _ => rfl⟩

theorem isColour_green : IsColour green := ⟨1, by decide, fun _ => rfl⟩

theorem isColour_blue : IsColour blue := ⟨0, by decide, fun _ => rfl⟩

section Average

variable {colour : List UInt8 → ℤ} (hcolour : IsColour colour)

include hcolour

theorem IsColour.isByte (p : List UInt8) : IsByte (colour p) := by
  obtain ⟨k, -, heq⟩ := hcolour
  have hlt := (p.getD k 0).toNat_lt
  rw [heq]
  exact ⟨by omega, by omega⟩

theorem IsColour.uniform (huniform : frame.Uniform) (hx : x < frame.width)
    (hy : y < frame.height) :
    colour (frame.pixel x y) = colour (frame.pixel (x / 2 * 2) (y / 2 * 2)) := by
  obtain ⟨k, hk, heq⟩ := hcolour
  have hget := congrArg (·[k]?) (huniform x hx y hy)
  simp only [List.getElem?_take_of_lt hk] at hget
  rw [heq, heq, List.getD_eq_getElem?_getD, List.getD_eq_getElem?_getD, hget]

/-- The average over the square of a pixel is its own colour. -/
theorem IsColour.average (h : frame.Encodable) (huniform : frame.Uniform) (hx : x < frame.width)
    (hy : y < frame.height) :
    squareAverage frame colour (y / 2 * 2) (x / 2 * 2) = colour (frame.pixel x y) := by
  have hwidth := h.width_even
  have hheight := h.height_even
  have hsame (dx dy : ℕ) (hdx : dx < 2) (hdy : dy < 2) :
      colour (frame.pixel (x / 2 * 2 + dx) (y / 2 * 2 + dy)) = colour (frame.pixel x y) := by
    have hcolumn : (x / 2 * 2 + dx) / 2 = x / 2 := by omega
    have hrow : (y / 2 * 2 + dy) / 2 = y / 2 := by omega
    rw [hcolour.uniform huniform hx hy, hcolour.uniform huniform (by omega) (by omega),
      hcolumn, hrow]
  have hfirst := hsame 0 0 (by decide) (by decide)
  have hright := hsame 1 0 (by decide) (by decide)
  have hbelow := hsame 0 1 (by decide) (by decide)
  simp only [Nat.add_zero] at hfirst hright hbelow
  rw [squareAverage, hfirst, hright, hbelow, hsame 1 1 (by decide) (by decide)]
  have hsum (c : ℤ) : c + c + c + c = 4 * c := by omega
  rw [hsum, Int.mul_tdiv_cancel_left _ (by decide)]

end Average

/-- **Colours come back to within three.** -/
theorem colour_round_trip (h : frame.Encodable) (huniform : frame.Uniform) :
    ∃ planes, bgraToNv12 frame = some (.ok planes) ∧
      ∀ avx2, ∃ out, nv12ToRgba avx2 planes frame.width frame.height frame.width = some (.ok out) ∧
        out.width = frame.width ∧ out.height = frame.height ∧
        out.rgba.length = frame.width * frame.height * 4 ∧
        ∀ x < frame.width, ∀ y < frame.height, ∃ r g b : UInt8,
          blockAt 4 out.rgba (y * frame.width + x) = [r, g, b, 255] ∧
            Close r.toNat (red (frame.pixel x y)) ∧ Close g.toNat (green (frame.pixel x y)) ∧
            Close b.toNat (blue (frame.pixel x y)) := by
  have hplanes := ((bgraToNv12_eq frame).resolve_left fun hrefused => hrefused.1 h).2
  refine ⟨_, hplanes, fun avx2 => ?_⟩
  have hdecoded := ((nv12ToRgbaPadded_eq avx2 _ _ _ _ _).resolve_left
    fun hrefused => hrefused.1 (planesIn_of_encodable h)).2
  refine ⟨_, hdecoded, rfl, rfl, ?_, fun x hx y hy => ?_⟩
  · rw [decodedPixels, length_flatMap_range fun _ _ => length_rowPixels _ _ _ _, ← Nat.mul_assoc,
      Nat.mul_comm frame.height]
  · have hpixel : blockAt 4 (decodedPixels (lumaPlane frame ++ chromaPlane frame) frame.width
        frame.height frame.width frame.height) (y * frame.width + x) =
        rowPixel (lumaRow (lumaPlane frame ++ chromaPlane frame) frame.width frame.width y)
          (chromaRow (lumaPlane frame ++ chromaPlane frame) frame.width frame.width frame.height
            (y / 2)) (0 + x) :=
      blockAt_grid (fun _ _ _ _ => rfl) hy hx
    have hu := getD_chromaRow h hx hy (show 0 < 2 by decide)
    have hv := getD_chromaRow h hx hy (show 1 < 2 by decide)
    obtain ⟨u, v, hchroma, -⟩ := chromaBytes_eq (isColour_red.isByte (frame.pixel x y))
      (isColour_green.isByte (frame.pixel x y)) (isColour_blue.isByte (frame.pixel x y))
    rw [squareChroma, isColour_red.average h huniform hx hy,
      isColour_green.average h huniform hx hy, isColour_blue.average h huniform hx hy, hchroma]
      at hu hv
    rw [Nat.add_zero] at hu
    simp only [hpixel, rowPixel, Nat.zero_add, getD_lumaRow hx hy, hu, hv]
    exact rgbaPixel_close (isColour_red.isByte _) (isColour_green.isByte _)
      (isColour_blue.isByte _) hchroma

/-- A frame of two squares, one of a dark red and one of a light blue. -/
def twoSquares : BgraFrame where
  width := 4
  height := 2
  bytes := [7, 20, 130, 255, 7, 20, 130, 0, 250, 210, 190, 9, 250, 210, 190, 255,
    7, 20, 130, 128, 7, 20, 130, 255, 250, 210, 190, 255, 250, 210, 190, 1]

theorem two_squares_round_trip :
    ∃ planes, bgraToNv12 twoSquares = some (.ok planes) ∧
      ∀ avx2, ∃ out, nv12ToRgba avx2 planes 4 2 4 = some (.ok out) ∧
        out.width = 4 ∧ out.height = 2 ∧ out.rgba.length = 4 * 2 * 4 ∧
        ∀ x < 4, ∀ y < 2, ∃ r g b : UInt8,
          blockAt 4 out.rgba (y * 4 + x) = [r, g, b, 255] ∧
            Close r.toNat (red (twoSquares.pixel x y)) ∧
            Close g.toNat (green (twoSquares.pixel x y)) ∧
            Close b.toNat (blue (twoSquares.pixel x y)) := by
  have h : twoSquares.Encodable := ⟨⟨by decide, by decide⟩, by decide, by decide⟩
  exact colour_round_trip h (by decide)

end SensorRemote
