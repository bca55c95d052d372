import SensorRemote.Lib.Buffer
import SensorRemote.Lib.Bytes
import SensorRemote.Media

/-!
# Rotated and scaled pictures

`rotate_scale_bgra` turns a captured picture by a multiple of a right angle and scales it, each
pixel a copy of the one that is nearest to it. A panic is no value: an index out of bounds, or an
overflow of the 32-bit numbers. Every pixel of the result is one of the picture's
(`rotateScaleBgra_eq`), and turns without scaling add up (`rotation_composes`).
-/

namespace SensorRemote

open Buffer Bytes

/-! ## The program -/

/-- `BgraFrame`. -/
structure BgraFrame where
  width : ℕ
  height : ℕ
  bytes : List UInt8
  deriving DecidableEq

/-- The pixel of the picture that goes where the turned picture has its pixel `(ox, oy)`. -/
def sourcePixel (frame : BgraFrame) (clockwise ox oy : ℕ) : Option (ℕ × ℕ) :=
  match clockwise with
  | 0 => some (ox, oy)
  | 90 => do
    let last ← checkedSub frame.height 1
    return (oy, ← checkedSub last ox)
  | 180 => do
    let lastX ← checkedSub frame.width 1
    let lastY ← checkedSub frame.height 1
    return (← checkedSub lastX ox, ← checkedSub lastY oy)
  | _ => do
    let last ← checkedSub frame.width 1
    return (← checkedSub last oy, ox)

/-- Where a pixel begins: `(y * width + x) * 4`. -/
def pixelIndex (width x y : ℕ) : Option ℕ := do
  let row ← Bytes.checkedMul 32 y width
  Bytes.checkedMul 32 (← checkedAdd 32 row x) 4

/-- The size of the turned picture. -/
def orientedSize (frame : BgraFrame) (clockwise : ℕ) : ℕ × ℕ :=
  if clockwise = 90 ∨ clockwise = 270 then (frame.height, frame.width)
  else (frame.width, frame.height)

/-- A round of the loops of `rotate_scale_bgra`. The products of two numbers of 32 bits are of 64
bits there, and the quotients fit in 32 again. -/
def copyPixel (frame : BgraFrame) (clockwise width height y x : ℕ) (bytes : List UInt8) :
    Option (List UInt8) := do
  let (orientedW, orientedH) := orientedSize frame clockwise
  let ox := x * orientedW / width
  let oy := y * orientedH / height
  let (sx, sy) ← sourcePixel frame clockwise ox oy
  let input ← pixelIndex frame.width sx sy
  let output ← pixelIndex width x y
  splice bytes output (← slice frame.bytes input (input + 4))

/-- `rotate_scale_bgra`. -/
def rotateScaleBgra (frame : BgraFrame) (clockwise width height : ℕ) :
    Option (Except MediaError BgraFrame) :=
  match pixels frame.width frame.height with
  | .error e => some (.error e)
  | .ok count =>
    if frame.bytes.length ≠ count * 4 ∨ clockwise ∉ [0, 90, 180, 270] then
      some (.error .frame)
    else
      match pixels width height with
      | .error e => some (.error e)
      | .ok count =>
        if clockwise = 0 ∧ width = frame.width ∧ height = frame.height then some (.ok frame)
        else do
          let bytes ← times height
            (fun y => times width (copyPixel frame clockwise width height y))
            (List.replicate (count * 4) 0)
          return .ok { width, height, bytes }

/-! ## Every pixel is a copy -/

/-- The four bytes of a pixel. -/
def BgraFrame.pixel (frame : BgraFrame) (x y : ℕ) : List UInt8 :=
  blockAt 4 frame.bytes (y * frame.width + x)

/-- What `sourcePixel` computes. -/
def sourceOf (frame : BgraFrame) (clockwise x y : ℕ) : ℕ × ℕ :=
  match clockwise with
  | 0 => (x, y)
  | 90 => (y, frame.height - 1 - x)
  | 180 => (frame.width - 1 - x, frame.height - 1 - y)
  | _ => (frame.width - 1 - y, x)

/-- A frame with as many bytes as its size asks for, and of a size that is supported. -/
structure BgraFrame.Sound (frame : BgraFrame) : Prop where
  pixels : pixels frame.width frame.height = .ok (frame.width * frame.height)
  length : frame.bytes.length = frame.width * frame.height * 4

theorem pixels_eq_ok {width height count : ℕ} : pixels width height = .ok count ↔
    (0 < width ∧ 0 < height ∧ width ≤ MAX_WIDTH ∧ height ≤ MAX_HEIGHT ∧
      width * height ≤ MAX_PIXELS) ∧ count = width * height := by
  rw [pixels]
  split
  · rename_i hbad
    refine iff_of_false (by rintro ⟨⟩) fun h => ?_
    omega
  · rename_i hgood
    simp only [Except.ok.injEq, eq_comm (a := count), iff_and_self]
    intro _
    omega

variable {frame : BgraFrame} {clockwise width height x y : ℕ}

/-- The scaled coordinate is one of the turned picture. -/
theorem scaled_lt {x width oriented : ℕ} (hx : x < width) (horiented : 0 < oriented) :
    x * oriented / width < oriented := by
  rw [Nat.div_lt_iff_lt_mul (by omega), Nat.mul_comm oriented]
  exact Nat.mul_lt_mul_of_pos_right hx horiented

/-- In the turned picture every coordinate has a source. -/
theorem sourcePixel_eq (hturn : clockwise ∈ [0, 90, 180, 270])
    (hx : x < (orientedSize frame clockwise).1) (hy : y < (orientedSize frame clockwise).2) :
    sourcePixel frame clockwise x y = some (sourceOf frame clockwise x y) ∧
      (sourceOf frame clockwise x y).1 < frame.width ∧
      (sourceOf frame clockwise x y).2 < frame.height := by
  simp only [List.mem_cons, List.not_mem_nil, or_false] at hturn
  rcases hturn with rfl | rfl | rfl | rfl
  · exact ⟨rfl, hx, hy⟩
  · change x < frame.height at hx
    change y < frame.width at hy
    have hlast : x ≤ frame.height - 1 := by omega
    have hsome : 1 ≤ frame.height := by omega
    refine ⟨?_, hy, ?_⟩
    · simp [sourcePixel, checkedSub, if_pos hsome, if_pos hlast, sourceOf]
    · simp only [sourceOf]
      omega
  · change x < frame.width at hx
    change y < frame.height at hy
    have hlastX : x ≤ frame.width - 1 := by omega
    have hlastY : y ≤ frame.height - 1 := by omega
    have hsomeX : 1 ≤ frame.width := by omega
    have hsomeY : 1 ≤ frame.height := by omega
    refine ⟨?_, ?_, ?_⟩
    · simp [sourcePixel, checkedSub, if_pos hsomeX, if_pos hsomeY, if_pos hlastX, if_pos hlastY,
        sourceOf]
    · simp only [sourceOf]
      omega
    · simp only [sourceOf]
      omega
  · change x < frame.height at hx
    change y < frame.width at hy
    have hlast : y ≤ frame.width - 1 := by omega
    have hsome : 1 ≤ frame.width := by omega
    refine ⟨?_, ?_, hx⟩
    · simp [sourcePixel, checkedSub, if_pos hsome, if_pos hlast, sourceOf]
    · simp only [sourceOf]
      omega

/-- An index does not overflow. -/
theorem pixelIndex_eq (hx : x < width) (hcount : width * height ≤ MAX_PIXELS) (hy : y < height) :
    pixelIndex width x y = some ((y * width + x) * 4) := by
  have hcell := cell_lt hy hx
  rw [Nat.mul_comm height] at hcell
  simp only [MAX_PIXELS] at hcount
  have hrow : y * width < 2 ^ 32 := by omega
  have hsum : y * width + x < 2 ^ 32 := by omega
  have hfour : (y * width + x) * 4 < 2 ^ 32 := by omega
  simp only [pixelIndex, Bytes.checkedMul, checkedAdd, if_pos hrow, if_pos hsum, if_pos hfour, bind,
    Option.bind_some]

theorem BgraFrame.Sound.length_pixel (h : frame.Sound) (hx : x < frame.width)
    (hy : y < frame.height) : (frame.pixel x y).length = 4 := by
  have hcell := cell_lt hy hx
  rw [Nat.mul_comm frame.height] at hcell
  apply length_blockAt
  rw [h.length]
  omega

/-- A pixel is read as it is. -/
theorem BgraFrame.Sound.slice_pixel (h : frame.Sound) (hx : x < frame.width)
    (hy : y < frame.height) : slice frame.bytes ((y * frame.width + x) * 4)
      ((y * frame.width + x) * 4 + 4) = some (frame.pixel x y) := by
  have hcell := cell_lt hy hx
  rw [Nat.mul_comm frame.height] at hcell
  have hlength := h.length
  refine slice_eq_some.mpr ⟨by omega, by omega, ?_⟩
  rw [Nat.add_sub_cancel_left, BgraFrame.pixel, blockAt]

/-- The pixels of the result. -/
def turnedPixel (frame : BgraFrame) (clockwise width height y x : ℕ) : List UInt8 :=
  let (orientedW, orientedH) := orientedSize frame clockwise
  let (sx, sy) := sourceOf frame clockwise (x * orientedW / width) (y * orientedH / height)
  frame.pixel sx sy

/-- The turned picture, scaled. -/
def turnedFrame (frame : BgraFrame) (clockwise width height : ℕ) : BgraFrame where
  width
  height
  bytes := grid height width (turnedPixel frame clockwise width height)

theorem orientedSize_pos (h : frame.Sound) (clockwise : ℕ) :
    0 < (orientedSize frame clockwise).1 ∧ 0 < (orientedSize frame clockwise).2 := by
  obtain ⟨⟨hwidth, hheight, -⟩, -⟩ := pixels_eq_ok.mp h.pixels
  rw [orientedSize]
  split
  · exact ⟨hheight, hwidth⟩
  · exact ⟨hwidth, hheight⟩

/-- Where a pixel of the result comes from. -/
theorem exists_source (h : frame.Sound) (hturn : clockwise ∈ [0, 90, 180, 270]) (hx : x < width)
    (hy : y < height) : ∃ sx < frame.width, ∃ sy < frame.height,
      sourcePixel frame clockwise (x * (orientedSize frame clockwise).1 / width)
        (y * (orientedSize frame clockwise).2 / height) = some (sx, sy) ∧
      turnedPixel frame clockwise width height y x = frame.pixel sx sy := by
  obtain ⟨hw, hh⟩ := orientedSize_pos h clockwise
  obtain ⟨hsource, hsx, hsy⟩ := sourcePixel_eq hturn (scaled_lt hx hw) (scaled_lt hy hh)
  exact ⟨_, hsx, _, hsy, hsource, rfl⟩

theorem length_turnedPixel (h : frame.Sound) (hturn : clockwise ∈ [0, 90, 180, 270])
    (hx : x < width) (hy : y < height) :
    (turnedPixel frame clockwise width height y x).length = 4 := by
  obtain ⟨sx, hsx, sy, hsy, -, heq⟩ := exists_source h hturn hx hy
  rw [heq, h.length_pixel hsx hsy]

/-- Pictures of one size with the same pixels are the same. -/
theorem BgraFrame.ext_pixel {frame' : BgraFrame} (h : frame.Sound) (h' : frame'.Sound)
    (hwidth : frame.width = frame'.width) (hheight : frame.height = frame'.height)
    (hpixel : ∀ y < frame.height, ∀ x < frame.width, frame.pixel x y = frame'.pixel x y) :
    frame = frame' := by
  have hbytes (frame : BgraFrame) (h : frame.Sound) :
      grid frame.height frame.width (fun y x => frame.pixel x y) = frame.bytes :=
    grid_blockAt (by rw [h.length, Nat.mul_comm frame.height])
  have hsame := grid_congr hpixel
  rw [hbytes frame h, hwidth, hheight, hbytes frame' h'] at hsame
  obtain ⟨width, height, bytes⟩ := frame
  obtain ⟨width', height', bytes'⟩ := frame'
  cases hwidth
  cases hheight
  cases hsame
  rfl

/-- What the function checks. -/
structure Turns (frame : BgraFrame) (clockwise width height : ℕ) : Prop where
  sound : frame.Sound
  turn : clockwise ∈ [0, 90, 180, 270]
  pixels : pixels width height = .ok (width * height)

theorem sound_turnedFrame (h : Turns frame clockwise width height) :
    (turnedFrame frame clockwise width height).Sound where
  pixels := h.pixels
  length := by
    have hcells : ∀ y < height, ∀ x < width,
        (turnedPixel frame clockwise width height y x).length = 4 :=
      fun y hy x hx => length_turnedPixel h.sound h.turn hx hy
    rw [turnedFrame, length_grid hcells, Nat.mul_comm height]

theorem pixel_turnedFrame (h : Turns frame clockwise width height) (hx : x < width)
    (hy : y < height) : (turnedFrame frame clockwise width height).pixel x y =
      turnedPixel frame clockwise width height y x :=
  blockAt_grid (fun _ hy _ hx => length_turnedPixel h.sound h.turn hx hy) hy hx

/-- Without scaling the source of a pixel is that of its coordinates. -/
theorem turnedPixel_native (hx : x < (orientedSize frame clockwise).1)
    (hy : y < (orientedSize frame clockwise).2) :
    turnedPixel frame clockwise (orientedSize frame clockwise).1
        (orientedSize frame clockwise).2 y x =
      frame.pixel (sourceOf frame clockwise x y).1 (sourceOf frame clockwise x y).2 := by
  have hx' : x * (orientedSize frame clockwise).1 / (orientedSize frame clockwise).1 = x :=
    Nat.mul_div_cancel x (by omega)
  have hy' : y * (orientedSize frame clockwise).2 / (orientedSize frame clockwise).2 = y :=
    Nat.mul_div_cancel y (by omega)
  simp only [turnedPixel, hx', hy']

/-- At its own size a picture that is not turned stays as it is. -/
theorem turnedFrame_self (h : frame.Sound) :
    turnedFrame frame 0 frame.width frame.height = frame := by
  have hturns : Turns frame 0 frame.width frame.height := ⟨h, List.mem_cons_self, h.pixels⟩
  refine BgraFrame.ext_pixel (sound_turnedFrame hturns) h rfl rfl fun y hy x hx => ?_
  have hx' : x < (orientedSize frame 0).1 := hx
  have hy' : y < (orientedSize frame 0).2 := hy
  exact (pixel_turnedFrame hturns hx hy).trans (turnedPixel_native hx' hy')

/-- A round of the loops copies one pixel. -/
theorem copyPixel_eq (h : frame.Sound) (hturn : clockwise ∈ [0, 90, 180, 270])
    (hcount : width * height ≤ MAX_PIXELS) (hx : x < width) (hy : y < height)
    {buffer : List UInt8} : copyPixel frame clockwise width height y x buffer =
      splice buffer (0 + (y * width + x) * 4) (turnedPixel frame clockwise width height y x) := by
  obtain ⟨sx, hsx, sy, hsy, hsource, hpixel⟩ := exists_source h hturn hx hy
  obtain ⟨⟨-, -, -, -, hframe⟩, -⟩ := pixels_eq_ok.mp h.pixels
  simp only [copyPixel, hsource, hpixel, bind, Option.bind_some, pixelIndex_eq hsx hframe hsy,
    pixelIndex_eq hx hcount hy, h.slice_pixel hsx hsy, Nat.zero_add]

/-- **What `rotate_scale_bgra` computes**: it never panics. -/
theorem rotateScaleBgra_eq (frame : BgraFrame) (clockwise width height : ℕ) :
    (¬Turns frame clockwise width height ∧
      ∃ e, rotateScaleBgra frame clockwise width height = some (.error e)) ∨
    (Turns frame clockwise width height ∧ rotateScaleBgra frame clockwise width height =
      some (.ok (turnedFrame frame clockwise width height))) := by
  rw [rotateScaleBgra]
  cases hsize : pixels frame.width frame.height with
  | error e =>
    refine .inl ⟨fun hturns => ?_, e, rfl⟩
    rw [hturns.sound.pixels] at hsize
    cases hsize
  | ok count =>
    obtain ⟨hbounds, rfl⟩ := pixels_eq_ok.mp hsize
    by_cases hframe : frame.bytes.length ≠ frame.width * frame.height * 4 ∨
        clockwise ∉ [0, 90, 180, 270]
    · refine .inl ⟨fun hturns => ?_, .frame, by simp only [if_pos hframe]⟩
      exact hframe.elim (fun hlength => hlength hturns.sound.length) fun hturn => hturn hturns.turn
    · simp only [if_neg hframe]
      obtain ⟨hlength, hturn⟩ := not_or.mp hframe
      have hsound : frame.Sound := ⟨hsize, not_not.mp hlength⟩
      have hturn := not_not.mp hturn
      cases hout : pixels width height with
      | error e =>
        refine .inl ⟨fun hturns => ?_, e, rfl⟩
        rw [hturns.pixels] at hout
        cases hout
      | ok count =>
        obtain ⟨⟨hw, hh, -, -, hcount⟩, rfl⟩ := pixels_eq_ok.mp hout
        refine .inr ⟨⟨hsound, hturn, hout⟩, ?_⟩
        by_cases hfast : clockwise = 0 ∧ width = frame.width ∧ height = frame.height
        · simp only [if_pos hfast]
          obtain ⟨rfl, rfl, rfl⟩ := hfast
          rw [turnedFrame_self hsound]
        · simp only [if_neg hfast]
          have hcells : ∀ y < height, ∀ x < width,
              (turnedPixel frame clockwise width height y x).length = 4 :=
            fun y hy x hx => length_turnedPixel hsound hturn hx hy
          have hbytes := (Fills.grid 0 hcells List.length_nil fun y hy x hx buffer =>
            copyPixel_eq hsound hturn hcount hx hy).whole (List.replicate (width * height * 4) 0)
              (by rw [List.length_replicate, length_grid hcells, Nat.mul_comm height])
          rw [hbytes]
          rfl

/-! ## Turns add up -/

/-- A turn without scaling. -/
def turned (frame : BgraFrame) (clockwise : ℕ) : BgraFrame :=
  turnedFrame frame clockwise (orientedSize frame clockwise).1 (orientedSize frame clockwise).2

/-- Every frame may be turned. -/
theorem turns_native (h : frame.Sound) (hturn : clockwise ∈ [0, 90, 180, 270]) :
    Turns frame clockwise (orientedSize frame clockwise).1 (orientedSize frame clockwise).2 where
  sound := h
  turn := hturn
  pixels := by
    obtain ⟨⟨hw, hh, hmaxW, hmaxH, hcount⟩, -⟩ := pixels_eq_ok.mp h.pixels
    simp only [MAX_WIDTH, MAX_HEIGHT] at hmaxW hmaxH
    refine pixels_eq_ok.mpr ⟨?_, rfl⟩
    simp only [orientedSize, MAX_WIDTH, MAX_HEIGHT]
    split
    · exact ⟨hh, hw, hmaxH, hmaxW, by rwa [Nat.mul_comm]⟩
    · exact ⟨hw, hh, hmaxW, hmaxH, hcount⟩

theorem pixel_turned (h : frame.Sound) (hturn : clockwise ∈ [0, 90, 180, 270])
    (hx : x < (turned frame clockwise).width) (hy : y < (turned frame clockwise).height) :
    (turned frame clockwise).pixel x y =
      frame.pixel (sourceOf frame clockwise x y).1 (sourceOf frame clockwise x y).2 :=
  (pixel_turnedFrame (turns_native h hturn) hx hy).trans (turnedPixel_native hx hy)

/-- Two turns have the size of one. -/
theorem orientedSize_turned (frame : BgraFrame) {a b : ℕ} (ha : a ∈ [0, 90, 180, 270])
    (hb : b ∈ [0, 90, 180, 270]) :
    orientedSize (turned frame a) b = orientedSize frame ((a + b) % 360) := by
  simp only [List.mem_cons, List.not_mem_nil, or_false] at ha hb
  rcases ha with rfl | rfl | rfl | rfl <;> rcases hb with rfl | rfl | rfl | rfl <;> rfl

/-- The source of the source of a pixel is its source for both turns. -/
theorem sourceOf_sourceOf {a b : ℕ} (ha : a ∈ [0, 90, 180, 270]) (hb : b ∈ [0, 90, 180, 270])
    (hx : x < (orientedSize (turned frame a) b).1)
    (hy : y < (orientedSize (turned frame a) b).2) :
    sourceOf frame a (sourceOf (turned frame a) b x y).1 (sourceOf (turned frame a) b x y).2 =
      sourceOf frame ((a + b) % 360) x y := by
  simp only [List.mem_cons, List.not_mem_nil, or_false] at ha hb
  rcases ha with rfl | rfl | rfl | rfl <;> rcases hb with rfl | rfl | rfl | rfl <;>
    simp [orientedSize, turned, turnedFrame, sourceOf] at hx hy ⊢ <;> omega

/-- Two turns are one by the sum of the angles. -/
theorem turned_turned {a b : ℕ} (h : frame.Sound) (ha : a ∈ [0, 90, 180, 270])
    (hb : b ∈ [0, 90, 180, 270]) : turned (turned frame a) b = turned frame ((a + b) % 360) := by
  have hab : (a + b) % 360 ∈ [0, 90, 180, 270] := by
    simp only [List.mem_cons, List.not_mem_nil, or_false] at ha hb ⊢
    omega
  have hsound : (turned frame a).Sound := sound_turnedFrame (turns_native h ha)
  have hsize := orientedSize_turned frame ha hb
  have hwidth : (turned (turned frame a) b).width = (turned frame ((a + b) % 360)).width :=
    congrArg Prod.fst hsize
  have hheight : (turned (turned frame a) b).height = (turned frame ((a + b) % 360)).height :=
    congrArg Prod.snd hsize
  refine BgraFrame.ext_pixel (sound_turnedFrame (turns_native hsound hb))
    (sound_turnedFrame (turns_native h hab)) hwidth hheight fun y hy x hx => ?_
  obtain ⟨-, hsx, hsy⟩ := sourcePixel_eq hb hx hy
  rw [pixel_turned hsound hb hx hy, pixel_turned h ha hsx hsy,
    pixel_turned h hab (hwidth ▸ hx) (hheight ▸ hy), sourceOf_sourceOf ha hb hx hy]

/-! ## The result -/

/-- **Rotation and scaling.** A call is accepted if the frame is whole, the turn is by right angles
and the size is one that is supported, and otherwise refused. What is accepted has no index out of
bounds and no overflow, and each pixel of the result is a copy of the one that `sourceOf` has for
its scaled coordinates. Without scaling a turn by `a` and then by
`b` is a turn by `a + b`, which is nothing at all where the angles add up to a full turn. -/
theorem rotation_composes :
    (∀ frame clockwise width height,
      (¬Turns frame clockwise width height ∧
        ∃ e, rotateScaleBgra frame clockwise width height = some (.error e)) ∨
      Turns frame clockwise width height ∧
        ∃ out, rotateScaleBgra frame clockwise width height = some (.ok out) ∧
          out.width = width ∧ out.height = height ∧ out.bytes.length = width * height * 4 ∧
          ∀ y < height, ∀ x < width, ∃ sy < frame.height, ∃ sx < frame.width,
            sourceOf frame clockwise (x * (orientedSize frame clockwise).1 / width)
              (y * (orientedSize frame clockwise).2 / height) = (sx, sy) ∧
            out.pixel x y = frame.pixel sx sy ∧ (frame.pixel sx sy).length = 4) ∧
    (∀ frame a b middle,
      rotateScaleBgra frame a (orientedSize frame a).1 (orientedSize frame a).2 =
        some (.ok middle) → b ∈ [0, 90, 180, 270] →
      ∃ out,
        rotateScaleBgra middle b (orientedSize middle b).1 (orientedSize middle b).2 =
          some (.ok out) ∧
        rotateScaleBgra frame ((a + b) % 360) (orientedSize frame ((a + b) % 360)).1
          (orientedSize frame ((a + b) % 360)).2 = some (.ok out) ∧
        ((a + b) % 360 = 0 → out = frame)) := by
  refine ⟨fun frame clockwise width height => ?_, fun frame a b middle h hb => ?_⟩
  · rcases rotateScaleBgra_eq frame clockwise width height with hrefused | ⟨hturns, heq⟩
    · exact .inl hrefused
    · refine .inr ⟨hturns, _, heq, rfl, rfl, (sound_turnedFrame hturns).length, ?_⟩
      intro y hy x hx
      obtain ⟨hw, hh⟩ := orientedSize_pos hturns.sound clockwise
      obtain ⟨-, hsx, hsy⟩ := sourcePixel_eq hturns.turn (scaled_lt hx hw) (scaled_lt hy hh)
      exact ⟨_, hsy, _, hsx, rfl, pixel_turnedFrame hturns hx hy,
        hturns.sound.length_pixel hsx hsy⟩
  · rcases rotateScaleBgra_eq frame a (orientedSize frame a).1 (orientedSize frame a).2 with
      ⟨-, e, hrefused⟩ | ⟨hturns, heq⟩
    · rw [hrefused] at h
      cases h
    · obtain rfl : turned frame a = middle := by
        rw [heq] at h
        exact Except.ok.inj (Option.some.inj h)
      have hrun (frame : BgraFrame) (h : frame.Sound) {c : ℕ} (hc : c ∈ [0, 90, 180, 270]) :
          rotateScaleBgra frame c (orientedSize frame c).1 (orientedSize frame c).2 =
            some (.ok (turned frame c)) :=
        ((rotateScaleBgra_eq frame c _ _).resolve_left fun hrefused =>
          hrefused.1 (turns_native h hc)).2
      have hab : (a + b) % 360 ∈ [0, 90, 180, 270] := by
        have ha := hturns.turn
        simp only [List.mem_cons, List.not_mem_nil, or_false] at ha hb ⊢
        omega
      refine ⟨_, hrun (turned frame a) (sound_turnedFrame hturns) hb, ?_, fun hfull => ?_⟩
      · rw [turned_turned hturns.sound hturns.turn hb]
        exact hrun frame hturns.sound hab
      · rw [turned_turned hturns.sound hturns.turn hb, hfull]
        exact turnedFrame_self hturns.sound

namespace Portrait

/-- A picture of three rows of two pixels. -/
def picture : BgraFrame := ⟨2, 3, (List.range 24).map UInt8.ofNat⟩

def turned : BgraFrame :=
  ⟨3, 2, [16, 17, 18, 19, 8, 9, 10, 11, 0, 1, 2, 3, 20, 21, 22, 23, 12, 13, 14, 15, 4, 5, 6, 7]⟩

theorem picture_turned : rotateScaleBgra picture 90 3 2 = some (.ok turned) := by decide +kernel

/-- Turned by a right angle and then by three it is as it was. -/
theorem turned_back : rotateScaleBgra turned 270 2 3 = some (.ok picture) := by
  obtain ⟨out, hout, -, hsame⟩ :=
    rotation_composes.2 picture 90 270 turned picture_turned (by decide)
  rwa [hsame rfl] at hout

end Portrait

end SensorRemote
