import Mathlib.Data.Int.Notation
import Mathlib.Data.Nat.Notation
import Mathlib.Tactic.Common

/-!
# Displays, video formats and desktop messages

The wire types of a remote desktop session (`sensor-media`) and the checks on them: what a display
and a video format may be, the messages of viewer and host, and the bounds on a text that is typed
or put on the clipboard. The host checks what it is sent with these functions before it acts on it.
-/

namespace SensorRemote

def MAX_WIDTH : ℕ := 4096
def MAX_HEIGHT : ℕ := 4096
def MAX_PIXELS : ℕ := 4096 * 2160
def MAX_CLIPBOARD_BYTES : ℕ := 64 * 1024

/-- `MediaError`. -/
inductive MediaError where
  | dimensions
  | frame
  | input
  deriving DecidableEq, Repr

/-- `Display` of a media error. -/
def MediaError.display : MediaError → String
  | .dimensions => "invalid or unsupported video dimensions"
  | .frame => "invalid video frame buffer or fragment sequence"
  | .input => "invalid remote input"

/-- `validate_clipboard`. -/
def validateClipboard (text : String) : Except MediaError Unit :=
  if text.utf8ByteSize > MAX_CLIPBOARD_BYTES ∨ text.toList.contains (Char.ofNat 0) then
    .error .input
  else .ok ()

/-- `pixels`. -/
def pixels (width height : ℕ) : Except MediaError ℕ :=
  let count := width * height
  if width = 0 ∨ height = 0 ∨ width > MAX_WIDTH ∨ height > MAX_HEIGHT ∨ count > MAX_PIXELS then
    .error .dimensions
  else .ok count

/-- `Display`. -/
structure Display where
  index : ℕ
  name : String
  left : ℤ
  top : ℤ
  width : ℕ
  height : ℕ
  deriving DecidableEq

/-- `Display::validate`. -/
def Display.validate (display : Display) : Except MediaError Unit := do
  let _ ← pixels display.width display.height
  if display.index > 63 ∨ display.name.utf8ByteSize > 256 then throw .dimensions

/-- `MouseButton`. -/
inductive MouseButton where
  | left
  | right
  | middle
  deriving DecidableEq, Repr

/-- `Input`. -/
inductive Input where
  | move (x y : ℕ)
  | button (button : MouseButton) (down : Bool)
  | wheel (delta : ℤ) (horizontal : Bool)
  | key (virtualKey : ℕ) (down : Bool)
  | text (text : String)
  | releaseAll
  deriving DecidableEq

/-- `char::is_control`: the Unicode category Cc. -/
def isControl (c : Char) : Bool := c.toNat < 32 || (127 ≤ c.toNat && c.toNat < 160)

/-- `Input::validate`. -/
def Input.validate (event : Input) (display : Display) : Except MediaError Unit :=
  match event with
  | .move x y => if x ≥ display.width ∨ y ≥ display.height then .error .input else .ok ()
  | .key virtualKey _ => if virtualKey = 0 ∨ virtualKey > 254 then .error .input else .ok ()
  | .wheel delta _ => if delta.natAbs > 120 * 100 then .error .input else .ok ()
  | .text typed =>
    if typed.utf8ByteSize > 1024 ∨ typed.toList.any isControl then .error .input else .ok ()
  | .button _ _ | .releaseAll => .ok ()

/-- `VideoProfile`. -/
inductive VideoProfile where
  | balanced
  | quality
  | performance
  | auto
  deriving DecidableEq, Repr

/-- `VideoFormat`. -/
structure VideoFormat where
  generation : ℕ
  display : Display
  width : ℕ
  height : ℕ
  fpsLimit : ℕ
  bitrate : ℕ
  encoder : String
  hardware : Bool
  deriving DecidableEq

/-- `VideoFormat::validate`. -/
def VideoFormat.validate (format : VideoFormat) : Except MediaError Unit := do
  format.display.validate
  let _ ← pixels format.width format.height
  if format.width % 2 ≠ 0 ∨ format.height % 2 ≠ 0 ∨ format.fpsLimit = 0 ∨ format.fpsLimit > 60
      ∨ format.bitrate > 50000000 ∨ format.bitrate < 100000
      ∨ format.encoder.utf8ByteSize > 256 then
    throw .dimensions

/-- `DesktopMessage`. Nothing here reads the contents of a telemetry message. -/
inductive DesktopMessage where
  | displays (displays : List Display)
  | format (format : VideoFormat)
  | fragment (generation sequence : ℕ) (timestamp100ns : ℤ) (keyframe : Bool) (offset total : ℕ)
      (bytes : List UInt8)
  | input (generation : ℕ) (event : Input)
  | selectDisplay (index : ℕ)
  | cursor (generation : ℕ) (x y : ℤ) (visible : Bool)
  | ping (value : ℕ)
  | pong (value : ℕ)
  | close
  | error (text : String)
  | clipboardText (text : String)
  | selectVideoProfile (profile : VideoProfile)
  | frameAck (generation sequence decodeUs rttUs : ℕ)
  | telemetry
  deriving DecidableEq

end SensorRemote
