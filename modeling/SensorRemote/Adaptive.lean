import SensorRemote.Media
import Mathlib.Algebra.Order.Floor.Semiring
import Mathlib.Data.Rat.Floor

/-!
# The adaptive bitrate controller

`Adaptive` (`sensor-media`, `adaptive.rs`): once a second it is shown what the last window measured,
and from its bitrate and frame-rate ceiling it makes the target the encoder should meet. The scale
of the picture, a double in the source, is the exact rational here.

`observe` is cut into the three parts it has in the source, which read the same window: the latency
decides whether the connection is congested, the work decides the ceiling of the frame rate, and
both decide the bitrate.
-/

namespace SensorRemote

def DEFAULT_MAX_BITRATE : ℕ := 16000000
def MIN_BITRATE : ℕ := 300000

/-- `Target`. -/
structure Target where
  width : ℕ
  height : ℕ
  fps : ℕ
  bitrate : ℕ
  deriving DecidableEq

/-- `Feedback`. -/
structure Feedback where
  deliveryMs : ℕ
  rttMs : ℕ
  decodeUs : ℕ
  prepareEncodeUs : ℕ
  writeStallMs : ℕ
  acknowledged : ℕ
  saturated : Bool
  deriving DecidableEq

/-- `Adaptive`. -/
structure Adaptive where
  profile : VideoProfile
  bitrate : ℕ
  ceiling : ℕ
  baseline : ℕ
  healthy : ℕ
  congested : Bool
  fpsCeiling : ℕ
  fasterWindows : ℕ
  deriving DecidableEq

namespace Adaptive

/-- `u64::MAX`. -/
def u64Max : ℕ := 2 ^ 64 - 1

/-- `Adaptive::new`. -/
def new (ceiling : ℕ) : Adaptive :=
  let ceiling := min (max ceiling MIN_BITRATE) 50000000
  { profile := .auto
    bitrate := min 1800000 ceiling
    ceiling
    baseline := u64Max
    healthy := 0
    congested := false
    fpsCeiling := 60
    fasterWindows := 0 }

/-- The frame rates a measured rate is rounded down to. -/
def tier (sustainable : ℕ) : ℕ :=
  ([60, 30, 24, 15, 10].find? (· ≤ sustainable)).getD 10

/-- The first part of `observe`: the latency baseline and whether the window was congested. -/
def observeLatency (adaptive : Adaptive) (f : Feedback) : Adaptive :=
  let baseline :=
    if f.acknowledged ≠ 0 ∧ f.deliveryMs ≠ 0 then min adaptive.baseline f.deliveryMs
    else adaptive.baseline
  let latencyLimit := min (min (baseline + 120) u64Max) 600
  { adaptive with
    baseline
    congested := f.saturated || decide (f.writeStallMs > 80)
      || (decide (f.deliveryMs > latencyLimit) && decide (f.deliveryMs > 200)) }

/-- The second part of `observe`: the frame-rate ceiling. -/
def observeWork (adaptive : Adaptive) (f : Feedback) : Adaptive :=
  let workUs := max f.decodeUs f.prepareEncodeUs
  let sustainable := min (max (850000 / max workUs 1) 10) 60
  let tier := tier sustainable
  if tier < adaptive.fpsCeiling then { adaptive with fpsCeiling := tier, fasterWindows := 0 }
  else if tier > adaptive.fpsCeiling ∧ f.acknowledged ≠ 0 ∧ !adaptive.congested then
    let fasterWindows := adaptive.fasterWindows + 1
    if fasterWindows ≥ 5 then { adaptive with fpsCeiling := tier, fasterWindows := 0 }
    else { adaptive with fasterWindows }
  else { adaptive with fasterWindows := 0 }

/-- The third part of `observe`: the bitrate. -/
def observeBitrate (adaptive : Adaptive) (f : Feedback) : Adaptive :=
  if adaptive.congested then
    { adaptive with
      bitrate := min (max (adaptive.bitrate * 65 / 100) MIN_BITRATE) adaptive.ceiling
      healthy := 0 }
  else if f.acknowledged ≠ 0 ∧ f.rttMs < 600 then
    let healthy := adaptive.healthy + 1
    if healthy ≥ 3 then
      { adaptive with
        bitrate := min (adaptive.bitrate + max (adaptive.bitrate / 5) 100000) adaptive.ceiling
        healthy := 0 }
    else { adaptive with healthy }
  else { adaptive with healthy := 0 }

/-- `Adaptive::observe`. -/
def observe (adaptive : Adaptive) (f : Feedback) : Adaptive :=
  ((adaptive.observeLatency f).observeWork f).observeBitrate f

/-- The picture a bitrate pays for. -/
def budget (adaptive : Adaptive) : ℕ × ℕ × ℕ :=
  if adaptive.bitrate < 800000 then (640, 360, 15)
  else if adaptive.bitrate < 1600000 then (960, 540, 24)
  else if adaptive.bitrate < 3000000 then (1280, 720, 30)
  else if adaptive.bitrate < 5000000 then
    match adaptive.profile with
    | .performance => (1280, 720, 60)
    | .quality => (1920, 1080, 30)
    | .balanced | .auto => (1600, 900, 30)
  else if adaptive.bitrate < 8000000 then (1920, 1080, 30)
  else (1920, 1080, 60)

/-- `Adaptive::target`. -/
def target (adaptive : Adaptive) (width height : ℕ) : Except MediaError Target := do
  let _ ← pixels width height
  if width < 16 ∨ height < 16 then throw .dimensions
  let (w, h, fps) := adaptive.budget
  let scale : ℚ := min (min ((w : ℚ) / width) ((h : ℚ) / height)) 1
  return {
    width := max (⌊(width : ℚ) * scale⌋₊ / 2 * 2) 16
    height := max (⌊(height : ℚ) * scale⌋₊ / 2 * 2) 16
    fps := min fps adaptive.fpsCeiling
    bitrate := adaptive.bitrate }

end Adaptive

end SensorRemote
