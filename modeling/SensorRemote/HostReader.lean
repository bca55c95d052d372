import SensorRemote.Messages
import Mathlib.Data.Int.Notation
import Mathlib.Data.List.Sort

/-!
# The host's reader thread

`spawn_host_reader` (`sensor-desktop`, `worker.rs`) receives what a viewer sends during a
desktop session: it injects input through `Injector` (`sensor-windows`, `input.rs`) and
hands everything else to the host loop as a command. What the operating system answers
is the environment's.
-/

namespace SensorRemote

/-! ## Injection -/

/-- What `SendInput` is given. -/
inductive Injected where
  | move (dx dy : ℤ)
  | button (button : MouseButton) (down : Bool)
  | wheel (delta : ℤ) (horizontal : Bool)
  | key (virtualKey : ℕ) (down : Bool)
  | unicode (code : ℕ) (down : Bool)
  deriving DecidableEq

/-- `DesktopError`, as far as injection raises it. -/
inductive DesktopError where
  | permission (error : PermissionError)
  | media (error : MediaError)
  | monitor
  | system
  deriving DecidableEq

/-- What the operating system says while an event is applied: whether the interactive
desktop is there, the virtual screen, and whether `SendInput` takes the events. -/
structure Desktop where
  interactive : Bool
  left : ℤ
  top : ℤ
  width : ℤ
  height : ℤ
  takesInput : Bool

/-- `Injector`: the keys, in order, and the buttons a viewer holds down. -/
structure Injector where
  keys : List ℕ
  buttons : List MouseButton
  deriving DecidableEq

namespace Injector

/-- `send`: all events are injected, or none and an error. -/
def sendInput (os : Desktop) (inputs : List Injected) : Except DesktopError (List Injected) :=
  if inputs = [] then .ok []
  else if !os.interactive ∨ !os.takesInput then .error .system
  else .ok inputs

/-- The UTF-16 code units of a character. -/
def utf16 (c : Char) : List ℕ :=
  let n := c.toNat
  if n < 0x10000 then [n] else [0xD800 + (n - 0x10000) / 0x400, 0xDC00 + (n - 0x10000) % 0x400]

/-- Where a point of a display lies on the virtual screen, in 65536ths. -/
def absolute (displayOffset screenOffset position extent : ℤ) : ℤ :=
  min (max (((displayOffset + position - screenOffset) * 65535).tdiv (extent - 1)) 0) 65535

/-- `Injector::release`: the injector afterwards and what was injected. -/
def release (injector : Injector) (os : Desktop) :
    Injector × Except DesktopError (List Injected) :=
  (⟨[], []⟩, sendInput os (injector.keys.map (.key · false) ++
    injector.buttons.map (.button · false)))

/-- `Injector::apply`: the injector afterwards and what was injected. -/
def apply (injector : Injector) (event : Input) (display : Display) (consent : Consent)
    (os : Desktop) : Injector × Except DesktopError (List Injected) :=
  match consent.require .input with
  | .error e => (injector, .error (.permission e))
  | .ok () =>
    match event.validate display with
    | .error e => (injector, .error (.media e))
    | .ok () =>
      if !os.interactive then (injector, .error .system)
      else
        match event with
        | .move x y =>
          if os.width ≤ 1 ∨ os.height ≤ 1 then (injector, .error .monitor)
          else
            (injector, sendInput os [.move (absolute display.left os.left x os.width)
              (absolute display.top os.top y os.height)])
        | .button button down =>
          match sendInput os [.button button down] with
          | .error e => (injector, .error e)
          | .ok inputs =>
            let others := injector.buttons.filter (· ≠ button)
            ({ injector with buttons := if down then others ++ [button] else others }, .ok inputs)
        | .wheel delta horizontal => (injector, sendInput os [.wheel delta horizontal])
        | .key virtualKey down =>
          match sendInput os [.key virtualKey down] with
          | .error e => (injector, .error e)
          | .ok inputs =>
            let others := injector.keys.filter (· ≠ virtualKey)
            let keys := if down then others.orderedInsert (· ≤ ·) virtualKey else others
            ({ injector with keys }, .ok inputs)
        | .text typed =>
          let codes := typed.toList.flatMap utf16
          (injector, sendInput os (codes.flatMap fun code =>
            [.unicode code true, .unicode code false]))
        | .releaseAll => injector.release os

end Injector

/-! ## The reader -/

/-- Why the reader gives up: a text of its own, or the text of an error. -/
inductive HostFailure where
  | text (text : String)
  | desktop (error : DesktopError)
  | connection
  deriving DecidableEq

/-- `HostCommand`. -/
inductive HostCommand where
  | selectDisplay (index : ℕ)
  | selectVideoProfile (profile : VideoProfile)
  | pong (value : ℕ)
  | close
  | failed (failure : HostFailure)
  | clipboard (text : String)
  | ack (generation sequence decodeUs rttUs : ℕ)
  deriving DecidableEq

/-- `InputTarget`: the generation whose input is accepted, and the display it is for.
Generation zero accepts none. -/
structure InputTarget where
  generation : ℕ
  display : Display
  deriving DecidableEq

/-- The variables of the reader thread. -/
structure HostReader where
  injector : Injector
  injectedGeneration : ℕ
  localConsent : Consent

/-- What handling a message comes to: the reader and the shared target afterwards, what
was injected, the command for the host loop, and whether the reader leaves its loop. -/
structure Handled where
  reader : HostReader
  active : InputTarget
  injected : List Injected
  command : Option HostCommand
  ends : Bool

namespace HostReader

/-- The reader as `spawn_host_reader` starts it, if the permissions can be granted. -/
def start (permissions : Permissions) : Option HostReader :=
  match (Consent.pending permissions).accept permissions with
  | .error _ => none
  | .ok consent => some ⟨⟨[], []⟩, 0, consent⟩

/-- What was injected, if anything. -/
def injectedBy (result : Except DesktopError (List Injected)) : List Injected :=
  result.toOption.getD []

/-- The arm for input. -/
def onInput (reader : HostReader) (active : InputTarget) (generation : ℕ) (event : Input)
    (os : Desktop) : Handled :=
  if active.generation = 0 ∨ generation ≠ active.generation then ⟨reader, active, [], none, false⟩
  else
    -- keys held under another generation are let go first
    let (injector, released) :=
      if reader.injectedGeneration ≠ active.generation then
        let (injector, result) := reader.injector.release os
        (injector, injectedBy result)
      else (reader.injector, [])
    let reader := { reader with injector, injectedGeneration := active.generation }
    match injector.apply event active.display reader.localConsent os with
    | (injector, .error e) =>
      ⟨{ reader with injector }, active, released, some (.failed (.desktop e)), true⟩
    | (injector, .ok injected) =>
      ⟨{ reader with injector }, active, released ++ injected, none, false⟩

/-- The arm for the selection of a display or a video profile: `command` is what the host
loop is told, and `index` the display it concerns. -/
def onSelect (reader : HostReader) (active : InputTarget) (displays : List Display) (index : ℕ)
    (command : HostCommand) (os : Desktop) : Handled :=
  if !displays.any (·.index = index) then
    ⟨reader, active, [], some (.failed (.text "Unknown monitor selected.")), true⟩
  else
    match reader.injector.release os with
    | (injector, .error e) =>
      ⟨{ reader with injector }, active, [], some (.failed (.desktop e)), true⟩
    | (injector, .ok injected) =>
      ⟨{ reader with injector }, { active with generation := 0 }, injected, some command, false⟩

/-- What the reader does with a message. -/
def handle {δ : Type} (reader : HostReader) (active : InputTarget) (displays : List Display)
    (message : ClientMessage δ) (os : Desktop) : Handled :=
  match message with
  | .desktop (.input generation event) => reader.onInput active generation event os
  | .desktop (.selectDisplay index) =>
    reader.onSelect active displays index (.selectDisplay index) os
  | .desktop (.selectVideoProfile profile) =>
    reader.onSelect active displays active.display.index (.selectVideoProfile profile) os
  | .desktop (.ping value) => ⟨reader, active, [], some (.pong value), false⟩
  | .desktop (.frameAck generation sequence decodeUs rttUs) =>
    ⟨reader, active, [], some (.ack generation sequence decodeUs rttUs), false⟩
  | .desktop (.clipboardText text) =>
    match reader.localConsent.require .clipboardText, validateClipboard text with
    | .ok (), .ok () => ⟨reader, active, [], some (.clipboard text), false⟩
    | _, _ =>
      ⟨reader, active, [],
        some (.failed (.text "Clipboard permission denied or invalid text.")), true⟩
  | .desktop .close | .close =>
    let (injector, result) := reader.injector.release os
    ⟨{ reader with injector }, active, injectedBy result, some .close, true⟩
  | _ => ⟨reader, active, [], some (.failed (.text "Unexpected remote desktop command.")), true⟩

end HostReader

end SensorRemote
