import SensorRemote.Adaptive
import SensorRemote.Lib.Bytes
import Mathlib.Algebra.Order.Field.Basic

/-!
# The controller stays encodable

Whatever is measured, `Adaptive::observe` never overflows a machine integer, keeps the bitrate and
the frame rate within bounds, and `Adaptive::target` returns what the encoder and the format accept.

The invariant is `Sound`: ceilings, bitrate and counters are in their ranges. It holds of a new
controller and is kept by each of the three parts of `observe`, about latency, work and bitrate, so
it holds after any windows (`sound_after`). Overflow is a matter of a second definition: `observe`
with its arithmetic checked (`observeChecked`) has a value only where no operation overflows, and
from a sound state it has the value of `observe`. The rest is about `target`, which reads the sound
state and asks for a frame no larger than the display.
-/

namespace SensorRemote

open Bytes

/-- Multiplication of `w`-bit numbers that fails instead of wrapping around. -/
def checkedMul (w a b : ℕ) : Option ℕ := if a * b < 2 ^ w then some (a * b) else none

/-- `CodecError`, as far as parameters raise it. -/
inductive CodecError where
  | media (error : MediaError)
  | invalid
  deriving DecidableEq

/-- What `H264Encoder::new` checks of its parameters. -/
def H264Encoder.checkParameters (width height fps bitrate : ℕ) : Except CodecError Unit := do
  let _ ← (pixels width height).mapError .media
  if width % 2 ≠ 0 ∨ height % 2 ≠ 0 ∨ fps = 0 ∨ fps > 60
      ∨ ¬(100000 ≤ bitrate ∧ bitrate ≤ 50000000) then
    throw .invalid

namespace Adaptive

/-- The frame rate the work of a window sustains, as a tier. -/
def workTier (f : Feedback) : ℕ :=
  tier (min (max (850000 / max (max f.decodeUs f.prepareEncodeUs) 1) 10) 60)

/-- `observeWork` on machine integers: the counter is a byte. -/
def observeWorkChecked (adaptive : Adaptive) (f : Feedback) : Option Adaptive :=
  if workTier f < adaptive.fpsCeiling then
    some { adaptive with fpsCeiling := workTier f, fasterWindows := 0 }
  else if workTier f > adaptive.fpsCeiling ∧ f.acknowledged ≠ 0 ∧ !adaptive.congested then do
    let fasterWindows ← checkedAdd 8 adaptive.fasterWindows 1
    if fasterWindows ≥ 5 then some { adaptive with fpsCeiling := workTier f, fasterWindows := 0 }
    else some { adaptive with fasterWindows }
  else some { adaptive with fasterWindows := 0 }

/-- `observeBitrate` on machine integers: the counter is a byte, the bitrate 32 bits wide. -/
def observeBitrateChecked (adaptive : Adaptive) (f : Feedback) : Option Adaptive :=
  if adaptive.congested then do
    let scaled ← checkedMul 32 adaptive.bitrate 65
    some { adaptive with
      bitrate := min (max (scaled / 100) MIN_BITRATE) adaptive.ceiling
      healthy := 0 }
  else if f.acknowledged ≠ 0 ∧ f.rttMs < 600 then do
    let healthy ← checkedAdd 8 adaptive.healthy 1
    if healthy ≥ 3 then do
      let raised ← checkedAdd 32 adaptive.bitrate (max (adaptive.bitrate / 5) 100000)
      some { adaptive with bitrate := min raised adaptive.ceiling, healthy := 0 }
    else some { adaptive with healthy }
  else some { adaptive with healthy := 0 }

/-- `observe` on machine integers. The one addition on 64 bits saturates, and nothing is
subtracted. -/
def observeChecked (adaptive : Adaptive) (f : Feedback) : Option Adaptive := do
  let adaptive ← (adaptive.observeLatency f).observeWorkChecked f
  adaptive.observeBitrateChecked f

/-! ### The invariant -/

/-- What is true of a controller after any windows. -/
structure Sound (adaptive : Adaptive) : Prop where
  minCeiling : MIN_BITRATE ≤ adaptive.ceiling
  maxCeiling : adaptive.ceiling ≤ 50000000
  minBitrate : MIN_BITRATE ≤ adaptive.bitrate
  maxBitrate : adaptive.bitrate ≤ adaptive.ceiling
  healthy : adaptive.healthy ≤ 2
  fasterWindows : adaptive.fasterWindows ≤ 4
  minFps : 10 ≤ adaptive.fpsCeiling
  maxFps : adaptive.fpsCeiling ≤ 60

/-- The tiers of the frame rate are between 10 and 60. -/
theorem tier_bounds (sustainable : ℕ) : 10 ≤ tier sustainable ∧ tier sustainable ≤ 60 := by
  rw [tier]
  rcases hfind : [60, 30, 24, 15, 10].find? (· ≤ sustainable) with _ | fps
  · decide
  · have hmem := List.mem_of_find?_eq_some hfind
    simp only [List.mem_cons, List.not_mem_nil, or_false] at hmem
    simp only [Option.getD_some]
    omega

/-- A new controller is sound for any ceiling it is given, as the ceiling is clamped. -/
theorem sound_new (ceiling : ℕ) : (new ceiling).Sound := by
  constructor <;> simp only [new, MIN_BITRATE] <;> omega

variable {adaptive : Adaptive} {f : Feedback}

/-- Looking at the latency touches neither the bitrate nor the frame rate. -/
theorem Sound.observeLatency (h : adaptive.Sound) : (adaptive.observeLatency f).Sound :=
  ⟨h.minCeiling, h.maxCeiling, h.minBitrate, h.maxBitrate, h.healthy, h.fasterWindows, h.minFps,
    h.maxFps⟩

/-- What is made of the work of a window, in one equation: the ceiling of the frame rate falls to
what was sustained, or windows that would bear more are counted. -/
theorem observeWork_eq (adaptive : Adaptive) (f : Feedback) :
    adaptive.observeWork f =
      if workTier f < adaptive.fpsCeiling then
        { adaptive with fpsCeiling := workTier f, fasterWindows := 0 }
      else if workTier f > adaptive.fpsCeiling ∧ f.acknowledged ≠ 0 ∧ !adaptive.congested then
        if adaptive.fasterWindows + 1 ≥ 5 then
          { adaptive with fpsCeiling := workTier f, fasterWindows := 0 }
        else { adaptive with fasterWindows := adaptive.fasterWindows + 1 }
      else { adaptive with fasterWindows := 0 } :=
  rfl

/-- What a window does to the frame-rate ceiling: it lowers it, counts towards raising it,
raises it, or starts counting again. -/
theorem observeWork_cases (adaptive : Adaptive) (f : Feedback) :
    (workTier f < adaptive.fpsCeiling ∧
      adaptive.observeWork f = { adaptive with fpsCeiling := workTier f, fasterWindows := 0 }) ∨
    (adaptive.fpsCeiling < workTier f ∧ f.acknowledged ≠ 0 ∧ adaptive.congested = false ∧
      (adaptive.fasterWindows + 1 < 5 ∧
          adaptive.observeWork f =
            { adaptive with fasterWindows := adaptive.fasterWindows + 1 } ∨
        5 ≤ adaptive.fasterWindows + 1 ∧
          adaptive.observeWork f =
            { adaptive with fpsCeiling := workTier f, fasterWindows := 0 })) ∨
    adaptive.fpsCeiling ≤ workTier f ∧
      ¬(adaptive.fpsCeiling < workTier f ∧ f.acknowledged ≠ 0 ∧ adaptive.congested = false) ∧
      adaptive.observeWork f = { adaptive with fasterWindows := 0 } := by
  rw [observeWork_eq]
  split
  · rename_i hlower
    exact .inl ⟨hlower, rfl⟩
  · rename_i hnot
    split
    · rename_i hfaster
      obtain ⟨hhigher, hacknowledged, hcongested⟩ := hfaster
      have hquiet : adaptive.congested = false := by simpa using hcongested
      refine .inr (.inl ⟨hhigher, hacknowledged, hquiet, ?_⟩)
      split
      · rename_i hfive
        exact .inr ⟨hfive, rfl⟩
      · rename_i hfew
        exact .inl ⟨Nat.not_le.mp hfew, rfl⟩
    · rename_i hslower
      refine .inr (.inr ⟨Nat.not_lt.mp hnot, ?_, rfl⟩)
      rintro ⟨hhigher, hacknowledged, hquiet⟩
      exact hslower ⟨hhigher, hacknowledged, by simp [hquiet]⟩

/-- The ceiling of the frame rate stays a tier. -/
theorem Sound.observeWork (h : adaptive.Sound) : (adaptive.observeWork f).Sound := by
  obtain ⟨hmin, hmax⟩ : 10 ≤ workTier f ∧ workTier f ≤ 60 := tier_bounds _
  rcases observeWork_cases adaptive f with
    ⟨-, heq⟩ | ⟨-, -, -, ⟨hfew, heq⟩ | ⟨-, heq⟩⟩ | ⟨-, -, heq⟩ <;> rw [heq]
  · exact ⟨h.minCeiling, h.maxCeiling, h.minBitrate, h.maxBitrate, h.healthy, Nat.zero_le _, hmin,
      hmax⟩
  · exact ⟨h.minCeiling, h.maxCeiling, h.minBitrate, h.maxBitrate, h.healthy,
      Nat.le_of_lt_succ hfew, h.minFps, h.maxFps⟩
  · exact ⟨h.minCeiling, h.maxCeiling, h.minBitrate, h.maxBitrate, h.healthy, Nat.zero_le _, hmin,
      hmax⟩
  · exact ⟨h.minCeiling, h.maxCeiling, h.minBitrate, h.maxBitrate, h.healthy, Nat.zero_le _,
      h.minFps, h.maxFps⟩

/-- What a window does to the bitrate: it lowers it, counts towards raising it, raises it, or
starts counting again. -/
theorem observeBitrate_cases (adaptive : Adaptive) (f : Feedback) :
    (adaptive.congested = true ∧ adaptive.observeBitrate f =
      { adaptive with
        bitrate := min (max (adaptive.bitrate * 65 / 100) MIN_BITRATE) adaptive.ceiling
        healthy := 0 }) ∨
    (adaptive.congested = false ∧ f.acknowledged ≠ 0 ∧ f.rttMs < 600 ∧
      (adaptive.healthy + 1 < 3 ∧
          adaptive.observeBitrate f = { adaptive with healthy := adaptive.healthy + 1 } ∨
        3 ≤ adaptive.healthy + 1 ∧ adaptive.observeBitrate f =
          { adaptive with
            bitrate := min (adaptive.bitrate + max (adaptive.bitrate / 5) 100000) adaptive.ceiling
            healthy := 0 })) ∨
    adaptive.congested = false ∧ ¬(f.acknowledged ≠ 0 ∧ f.rttMs < 600) ∧
      adaptive.observeBitrate f = { adaptive with healthy := 0 } := by
  simp only [observeBitrate]
  split
  · rename_i hcongested
    exact .inl ⟨hcongested, rfl⟩
  · rename_i hquiet
    have hquiet : adaptive.congested = false := by simpa using hquiet
    split
    · rename_i hhealthy
      refine .inr (.inl ⟨hquiet, hhealthy.1, hhealthy.2, ?_⟩)
      split
      · rename_i hthree
        exact .inr ⟨hthree, rfl⟩
      · rename_i hfew
        exact .inl ⟨Nat.not_le.mp hfew, rfl⟩
    · rename_i hnot
      exact .inr (.inr ⟨hquiet, hnot, rfl⟩)

/-- The bitrate stays between its floor and its ceiling. -/
theorem Sound.observeBitrate (h : adaptive.Sound) : (adaptive.observeBitrate f).Sound := by
  have hminCeiling := h.minCeiling
  have hminBitrate := h.minBitrate
  rcases observeBitrate_cases adaptive f with
    ⟨-, heq⟩ | ⟨-, -, -, ⟨hfew, heq⟩ | ⟨-, heq⟩⟩ | ⟨-, -, heq⟩ <;> rw [heq]
  · exact ⟨h.minCeiling, h.maxCeiling, le_min (le_max_right _ _) hminCeiling, min_le_right _ _,
      Nat.zero_le _, h.fasterWindows, h.minFps, h.maxFps⟩
  · exact ⟨h.minCeiling, h.maxCeiling, h.minBitrate, h.maxBitrate, Nat.le_of_lt_succ hfew,
      h.fasterWindows, h.minFps, h.maxFps⟩
  · exact ⟨h.minCeiling, h.maxCeiling,
      le_min (hminBitrate.trans (Nat.le_add_right _ _)) hminCeiling,
      min_le_right _ _, Nat.zero_le _, h.fasterWindows, h.minFps, h.maxFps⟩
  · exact ⟨h.minCeiling, h.maxCeiling, h.minBitrate, h.maxBitrate, Nat.zero_le _, h.fasterWindows,
      h.minFps, h.maxFps⟩

/-- A window keeps the controller sound. -/
theorem Sound.observe (h : adaptive.Sound) (f : Feedback) : (adaptive.observe f).Sound :=
  h.observeLatency.observeWork.observeBitrate

/-- The controller after windows, from a new one. -/
def after (ceiling : ℕ) (windows : List Feedback) : Adaptive :=
  windows.foldl observe (new ceiling)

@[simp] theorem after_nil (ceiling : ℕ) : after ceiling [] = new ceiling := rfl

@[simp] theorem after_concat (ceiling : ℕ) (windows : List Feedback) (f : Feedback) :
    after ceiling (windows ++ [f]) = (after ceiling windows).observe f := by
  rw [after, List.foldl_concat]
  rfl

/-- The controller is sound after any windows. The induction is on the windows. -/
theorem sound_after (ceiling : ℕ) (windows : List Feedback) : (after ceiling windows).Sound := by
  induction windows using List.reverseRecOn with
  | nil => exact sound_new ceiling
  | append_singleton windows f ih =>
    rw [after_concat]
    exact ih.observe f

/-! ### Nothing overflows -/

theorem Sound.observeWorkChecked (h : adaptive.Sound) (f : Feedback) :
    adaptive.observeWorkChecked f = some (adaptive.observeWork f) := by
  have hcount : checkedAdd 8 adaptive.fasterWindows 1 = some (adaptive.fasterWindows + 1) := by
    have hfew := h.fasterWindows
    exact checkedAdd_eq_some.mpr ⟨by omega, rfl⟩
  rw [Adaptive.observeWorkChecked, observeWork_eq, hcount]
  simp only [Option.bind_eq_bind, Option.bind_some]
  split_ifs <;> rfl

theorem Sound.observeBitrateChecked (h : adaptive.Sound) (f : Feedback) :
    adaptive.observeBitrateChecked f = some (adaptive.observeBitrate f) := by
  -- the bitrate is at most 50 Mbit/s, and 65 times that is below `2 ^ 32`
  have hbitrate := h.maxBitrate.trans h.maxCeiling
  have hscaled : checkedMul 32 adaptive.bitrate 65 = some (adaptive.bitrate * 65) := by
    rw [checkedMul, if_pos (by omega)]
  have hcount : checkedAdd 8 adaptive.healthy 1 = some (adaptive.healthy + 1) := by
    have hfew := h.healthy
    exact checkedAdd_eq_some.mpr ⟨by omega, rfl⟩
  have hraised : checkedAdd 32 adaptive.bitrate (max (adaptive.bitrate / 5) 100000) =
      some (adaptive.bitrate + max (adaptive.bitrate / 5) 100000) :=
    checkedAdd_eq_some.mpr ⟨by omega, rfl⟩
  rw [Adaptive.observeBitrateChecked, Adaptive.observeBitrate, hscaled, hcount, hraised]
  simp only [Option.bind_eq_bind, Option.bind_some]
  split_ifs <;> rfl

/-- No operation of `observe` overflows. -/
theorem Sound.observeChecked (h : adaptive.Sound) (f : Feedback) :
    adaptive.observeChecked f = some (adaptive.observe f) := by
  rw [Adaptive.observeChecked, h.observeLatency.observeWorkChecked f]
  exact h.observeLatency.observeWork.observeBitrateChecked f

/-- The chosen profile plays no part in what a window does. -/
theorem observe_profile (adaptive : Adaptive) (profile : VideoProfile) (f : Feedback) :
    { adaptive with profile }.observe f = { adaptive.observe f with profile } := by
  have hwork (adaptive : Adaptive) :
      { adaptive with profile }.observeWork f = { adaptive.observeWork f with profile } := by
    simp only [observeWork_eq]
    split_ifs <;> rfl
  have hbitrate (adaptive : Adaptive) :
      { adaptive with profile }.observeBitrate f = { adaptive.observeBitrate f with profile } := by
    simp only [observeBitrate]
    split_ifs <;> rfl
  calc { adaptive with profile }.observe f
      = ({ adaptive.observeLatency f with profile }.observeWork f).observeBitrate f := rfl
    _ = { (adaptive.observeLatency f).observeWork f with profile }.observeBitrate f := by
      rw [hwork]
    _ = { adaptive.observe f with profile } := hbitrate _

/-- The video profile is not read by `observe`. -/
theorem foldl_profile (adaptive : Adaptive) (profile : VideoProfile) (windows : List Feedback) :
    windows.foldl observe { adaptive with profile } =
      { windows.foldl observe adaptive with profile } := by
  induction windows generalizing adaptive with
  | nil => rfl
  | cons f windows ih =>
    rw [List.foldl_cons, observe_profile, ih]
    rfl

theorem observeWork_ceiling (adaptive : Adaptive) (f : Feedback) :
    (adaptive.observeWork f).ceiling = adaptive.ceiling := by
  rw [observeWork_eq]
  split_ifs <;> rfl

theorem observeBitrate_ceiling (adaptive : Adaptive) (f : Feedback) :
    (adaptive.observeBitrate f).ceiling = adaptive.ceiling := by
  simp only [observeBitrate]
  split_ifs <;> rfl

theorem observe_ceiling (adaptive : Adaptive) (f : Feedback) :
    (adaptive.observe f).ceiling = adaptive.ceiling := by
  rw [observe, observeBitrate_ceiling, observeWork_ceiling]
  rfl

/-- The ceiling is what it was set to, clamped. -/
theorem after_ceiling (ceiling : ℕ) (windows : List Feedback) :
    (after ceiling windows).ceiling = min (max ceiling MIN_BITRATE) 50000000 := by
  induction windows using List.reverseRecOn with
  | nil => rfl
  | append_singleton windows f ih => rw [after_concat, observe_ceiling, ih]

/-! ### The target -/

theorem Sound.with_profile (h : adaptive.Sound) (profile : VideoProfile) :
    { adaptive with profile }.Sound :=
  ⟨h.minCeiling, h.maxCeiling, h.minBitrate, h.maxBitrate, h.healthy, h.fasterWindows, h.minFps,
    h.maxFps⟩

/-- A picture a bitrate pays for is no larger than full HD, at a rate between 15 and 60. -/
theorem budget_bounds (adaptive : Adaptive) :
    (16 ≤ adaptive.budget.1 ∧ adaptive.budget.1 ≤ 1920)
      ∧ (16 ≤ adaptive.budget.2.1 ∧ adaptive.budget.2.1 ≤ 1080)
      ∧ 15 ≤ adaptive.budget.2.2 ∧ adaptive.budget.2.2 ≤ 60 := by
  rw [budget]
  rcases adaptive.profile <;> split_ifs <;> decide

/-- One side of a picture, scaled into a limit and made even. -/
theorem scaledSide_bounds {side limit : ℕ} {scale : ℚ} (hside : 16 ≤ side) (hlimit : 16 ≤ limit)
    (hscale : scale ≤ (limit : ℚ) / side) (hone : scale ≤ 1) :
    max (⌊(side : ℚ) * scale⌋₊ / 2 * 2) 16 % 2 = 0
      ∧ max (⌊(side : ℚ) * scale⌋₊ / 2 * 2) 16 ≤ limit
      ∧ max (⌊(side : ℚ) * scale⌋₊ / 2 * 2) 16 ≤ side := by
  have hpos : (0 : ℚ) < side := by exact_mod_cast Nat.lt_of_lt_of_le (by decide) hside
  have hlimited : ⌊(side : ℚ) * scale⌋₊ ≤ limit := by
    apply Nat.floor_le_of_le
    calc (side : ℚ) * scale ≤ side * (limit / side) := mul_le_mul_of_nonneg_left hscale hpos.le
      _ = limit := mul_div_cancel₀ _ hpos.ne'
  have hshrunk : ⌊(side : ℚ) * scale⌋₊ ≤ side := by
    apply Nat.floor_le_of_le
    calc (side : ℚ) * scale ≤ side * 1 := mul_le_mul_of_nonneg_left hone hpos.le
      _ = side := mul_one _
  omega

end Adaptive

/-- What an encoder can be given for a display of this size. -/
structure Target.Encodable (target : Target) (width height : ℕ) : Prop where
  evenWidth : target.width % 2 = 0
  evenHeight : target.height % 2 = 0
  minWidth : 16 ≤ target.width
  minHeight : 16 ≤ target.height
  maxWidth : target.width ≤ 1920 ∧ target.width ≤ width
  maxHeight : target.height ≤ 1080 ∧ target.height ≤ height
  fps : 10 ≤ target.fps ∧ target.fps ≤ 60

namespace Adaptive

variable {adaptive : Adaptive} {width height : ℕ}

/-- The target is what the encoder and the format accept. -/
theorem Sound.target_encodable (h : adaptive.Sound) (hpixels : (pixels width height).isOk)
    (hwidth : 16 ≤ width) (hheight : 16 ≤ height) :
    ∃ target, adaptive.target width height = .ok target ∧ target.Encodable width height
      ∧ target.bitrate = adaptive.bitrate := by
  obtain ⟨⟨hminWidth, hmaxWidth⟩, ⟨hminHeight, hmaxHeight⟩, hminFps, hmaxFps⟩ :=
    adaptive.budget_bounds
  rcases hok : pixels width height with error | count
  · simp [hok, Except.isOk, Except.toBool] at hpixels
  have hsides : ¬(width < 16 ∨ height < 16) := by omega
  rcases hbudget : adaptive.budget with ⟨w, h', fps⟩
  rw [hbudget] at hminWidth hmaxWidth hminHeight hmaxHeight hminFps hmaxFps
  let scale : ℚ := min (min ((w : ℚ) / width) ((h' : ℚ) / height)) 1
  have hone : scale ≤ 1 := min_le_right _ _
  have hscaleWidth : scale ≤ (w : ℚ) / width := (min_le_left _ _).trans (min_le_left _ _)
  have hscaleHeight : scale ≤ (h' : ℚ) / height := (min_le_left _ _).trans (min_le_right _ _)
  obtain ⟨hevenWidth, hlimitWidth, hsourceWidth⟩ :=
    scaledSide_bounds hwidth hminWidth hscaleWidth hone
  obtain ⟨hevenHeight, hlimitHeight, hsourceHeight⟩ :=
    scaledSide_bounds hheight hminHeight hscaleHeight hone
  let target : Target := {
    width := max (⌊(width : ℚ) * scale⌋₊ / 2 * 2) 16
    height := max (⌊(height : ℚ) * scale⌋₊ / 2 * 2) 16
    fps := min fps adaptive.fpsCeiling
    bitrate := adaptive.bitrate }
  refine ⟨target, ?_, ?_, rfl⟩
  · simp only [Adaptive.target, hok, hbudget, if_neg hsides]
    rfl
  · have hminFpsCeiling := h.minFps
    exact {
      evenWidth := hevenWidth
      evenHeight := hevenHeight
      minWidth := le_max_right _ _
      minHeight := le_max_right _ _
      maxWidth := ⟨hlimitWidth.trans hmaxWidth, hsourceWidth⟩
      maxHeight := ⟨hlimitHeight.trans hmaxHeight, hsourceHeight⟩
      fps := ⟨le_min ((by decide : 10 ≤ 15).trans hminFps) hminFpsCeiling,
        (min_le_left _ _).trans hmaxFps⟩ }

end Adaptive

/-- What fits in full HD is a picture size. -/
theorem pixels_ok_of_fullHd {width height : ℕ} (hwidth : 16 ≤ width ∧ width ≤ 1920)
    (hheight : 16 ≤ height ∧ height ≤ 1080) : pixels width height = .ok (width * height) := by
  have hcount : width * height ≤ 1920 * 1080 := Nat.mul_le_mul hwidth.2 hheight.2
  rw [pixels]
  apply if_neg
  simp only [MAX_WIDTH, MAX_HEIGHT, MAX_PIXELS]
  omega

namespace Target.Encodable

variable {target : Target} {width height : ℕ}

/-- The encoder takes such a target. -/
theorem checkParameters (h : target.Encodable width height)
    (hbitrate : 100000 ≤ target.bitrate ∧ target.bitrate ≤ 50000000) :
    H264Encoder.checkParameters target.width target.height target.fps target.bitrate = .ok () := by
  have hparameters : ¬(target.width % 2 ≠ 0 ∨ target.height % 2 ≠ 0 ∨ target.fps = 0
      ∨ target.fps > 60 ∨ ¬(100000 ≤ target.bitrate ∧ target.bitrate ≤ 50000000)) := by
    have hfps := h.fps
    have hevenWidth := h.evenWidth
    have hevenHeight := h.evenHeight
    omega
  rw [H264Encoder.checkParameters, pixels_ok_of_fullHd ⟨h.minWidth, h.maxWidth.1⟩
    ⟨h.minHeight, h.maxHeight.1⟩, if_neg hparameters]
  rfl

/-- The format that announces such a target is valid. -/
theorem validate (h : target.Encodable width height)
    (hbitrate : 100000 ≤ target.bitrate ∧ target.bitrate ≤ 50000000) {display : Display}
    (hdisplay : display.validate = .ok ()) {encoder : String}
    (hencoder : encoder.utf8ByteSize ≤ 256) (generation : ℕ) (hardware : Bool) :
    VideoFormat.validate {
      generation, display, encoder, hardware
      width := target.width
      height := target.height
      fpsLimit := target.fps
      bitrate := target.bitrate } = .ok () := by
  have hnumbers : ¬(target.width % 2 ≠ 0 ∨ target.height % 2 ≠ 0 ∨ target.fps = 0
      ∨ target.fps > 60 ∨ target.bitrate > 50000000 ∨ target.bitrate < 100000
      ∨ encoder.utf8ByteSize > 256) := by
    have hfps := h.fps
    have hevenWidth := h.evenWidth
    have hevenHeight := h.evenHeight
    omega
  simp only [VideoFormat.validate, hdisplay, pixels_ok_of_fullHd ⟨h.minWidth, h.maxWidth.1⟩
    ⟨h.minHeight, h.maxHeight.1⟩, if_neg hnumbers]
  rfl

end Target.Encodable

open Adaptive in
/-- Under any profile and after any windows, nothing overflows in the next one, the bitrate is
within bounds, and the target for any display is one the encoder and the format accept. -/
theorem adaptive_encodable (ceiling : ℕ) (profile : VideoProfile) (windows : List Feedback) :
    let adaptive := windows.foldl observe { new ceiling with profile }
    (∀ f, adaptive.observeChecked f = some (adaptive.observe f))
    ∧ MIN_BITRATE ≤ adaptive.bitrate ∧ adaptive.bitrate ≤ min (max ceiling MIN_BITRATE) 50000000
    ∧ ∀ width height, (pixels width height).isOk → 16 ≤ width → 16 ≤ height →
      ∃ target, adaptive.target width height = .ok target
        ∧ target.Encodable width height
        ∧ target.bitrate = adaptive.bitrate
        ∧ H264Encoder.checkParameters target.width target.height target.fps target.bitrate = .ok ()
        ∧ ∀ generation display encoder hardware, display.validate = .ok () →
          encoder.utf8ByteSize ≤ 256 →
          VideoFormat.validate {
            generation, display, encoder, hardware
            width := target.width
            height := target.height
            fpsLimit := target.fps
            bitrate := target.bitrate } = .ok () := by
  intro adaptive
  have hsame : adaptive = { after ceiling windows with profile } :=
    foldl_profile (new ceiling) profile windows
  have hsound : adaptive.Sound := by
    rw [hsame]
    exact (sound_after ceiling windows).with_profile profile
  have hceiling : adaptive.ceiling = min (max ceiling MIN_BITRATE) 50000000 := by
    rw [hsame]
    exact after_ceiling ceiling windows
  have hmin : MIN_BITRATE ≤ adaptive.bitrate := hsound.minBitrate
  have hmax : adaptive.bitrate ≤ 50000000 := hsound.maxBitrate.trans hsound.maxCeiling
  refine ⟨hsound.observeChecked, hmin, hceiling ▸ hsound.maxBitrate, ?_⟩
  intro width height hpixels hwidth hheight
  obtain ⟨target, htarget, hencodable, hbitrate⟩ :=
    hsound.target_encodable hpixels hwidth hheight
  have hencoded : 100000 ≤ target.bitrate ∧ target.bitrate ≤ 50000000 := by
    rw [hbitrate]
    exact ⟨(by decide : 100000 ≤ MIN_BITRATE).trans hmin, hmax⟩
  refine ⟨target, htarget, hencodable, hbitrate, hencodable.checkParameters hencoded, ?_⟩
  intro generation display encoder hardware hdisplay hencoder
  exact hencodable.validate hencoded hdisplay hencoder generation hardware

end SensorRemote
