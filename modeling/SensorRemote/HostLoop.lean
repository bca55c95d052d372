import SensorRemote.Adaptive
import SensorRemote.HostReader
import SensorRemote.Lib.Transition

/-!
# The host of a desktop session

`host_desktop` (`sensor-desktop`, `worker.rs`) runs beside the reader thread of
`HostReader`. A pass of its loop drains at most 64 commands, shows the adaptive controller
the last window once a second, reconfigures capture and encoder if one of the two asked
for it, and then does the video work, in which a failing hardware encoder may ask for a
software one.

What the clock, the network, the capture and the encoder contribute are inputs of the
steps. The history records the commands drained and the displays `setup` was called for.
-/

namespace SensorRemote

open Transition

/-! ## Setting up capture and encoder -/

/-- What the system answers while `setup` runs: the displays it finds, the rotation of the
one asked for, and the encoder it makes, with its name and whether it is hardware. -/
structure SetupAnswer where
  displays : List Display
  rotation : ℕ
  encoder : Option (String × Bool)

/-- The closure `setup` of `host_desktop`. -/
def setup (index generation : ℕ) (adaptive : Adaptive) (answer : SetupAnswer) :
    Option VideoFormat := do
  let display ← answer.displays.find? (·.index = index)
  let rotated := answer.rotation = 90 ∨ answer.rotation = 270
  let rawWidth := if rotated then display.height else display.width
  let rawHeight := if rotated then display.width else display.height
  let outputWidth := if rotated then rawHeight else rawWidth
  let outputHeight := if rotated then rawWidth else rawHeight
  let target ← (adaptive.target outputWidth outputHeight).toOption
  let (encoder, hardware) ← answer.encoder
  let format : VideoFormat :=
    { generation
      display
      width := target.width
      height := target.height
      fpsLimit := target.fps
      bitrate := target.bitrate
      encoder
      hardware }
  let () ← format.validate.toOption
  return format

/-! ## The adaptive measurement -/

/-- What the once-a-second measurement is given: the window's feedback, and whether the
encoder takes a changed bitrate. -/
structure Measurement where
  feedback : Feedback
  bitrateAccepted : Bool

/-- The controller after the measurement. -/
def Measurement.observed (m : Measurement) (adaptive : Adaptive) : Adaptive :=
  adaptive.observe m.feedback

/-- What the measurement finds to do. -/
inductive Adjustment where
  /-- nothing -/
  | keep
  /-- the encoder goes on with another bitrate -/
  | bitrate (bitrate : ℕ)
  /-- a new encoder is needed -/
  | reconfigure
  /-- the display's size is not encodable -/
  | fail
  deriving DecidableEq

/-- The decision of the measurement: `adaptive` is the controller before it. -/
def Measurement.adjust (m : Measurement) (adaptive : Adaptive) (format : VideoFormat) :
    Adjustment :=
  match (m.observed adaptive).target format.display.width format.display.height with
  | .error _ => .fail
  | .ok target =>
    if (target.width, target.height, target.fps) ≠ (format.width, format.height, format.fpsLimit)
    then .reconfigure
    else if target.bitrate ≠ format.bitrate then
      if m.bitrateAccepted then .bitrate target.bitrate else .reconfigure
    else .keep

/-! ## The loop -/

/-- Where the loop is. -/
inductive Point where
  /-- draining commands, with so many more allowed in this pass -/
  | drain (left : ℕ)
  | measure
  | reconfigure
  /-- the new format is sent, the shared target not yet set -/
  | activate
  | video
  /-- the function has returned -/
  | ended
  deriving DecidableEq

/-- What the history of a session records. -/
inductive HostEvent where
  /-- the loop took a command from the channel -/
  | drained (command : HostCommand)
  /-- the loop called `setup` for a display -/
  | reconfigured (index : ℕ)
  deriving DecidableEq

/-- The inputs of the pass under way: the display shown when it began, the commands drained,
and the measurement made, with what it was made on. -/
structure Pass where
  shown : ℕ
  commands : List HostCommand
  measured : Option (Measurement × Adaptive × VideoFormat)

/-- The variables of both threads, where the loop is, and the history. -/
structure HostState where
  /-- the channel from the reader to the loop -/
  queue : List HostCommand
  active : InputTarget
  /-- the reader thread, until it ends -/
  reader : Option HostReader
  /-- `control.is_stopped()` -/
  stopped : Bool
  generation : ℕ
  adaptive : Adaptive
  preferHardware : Bool
  format : VideoFormat
  reconfigure : Option ℕ
  point : Point
  history : List HostEvent
  pass : Pass

/-- What makes the system move. -/
inductive HostLabel (δ : Type) where
  /-- the reader receives a message -/
  | receive (message : ClientMessage δ) (os : Desktop)
  /-- the reader's connection fails -/
  | disconnect
  /-- somebody stops the session -/
  | stop
  /-- the loop takes the next command, or finds the channel empty. Sending the answer to a
  ping may fail. -/
  | drain (sent : Bool)
  /-- the loop measures, if a second has passed; delivery may have stalled, or sending the
  telemetry fail -/
  | measure (due : Option Measurement) (alive : Bool)
  /-- the loop reconfigures if asked to; sending the new format may fail -/
  | reconfigure (answer : SetupAnswer) (sent : Bool)
  /-- the loop publishes the new input target -/
  | activate
  /-- the rest of the pass: `none` is an error, otherwise whether the encoder fell back -/
  | video (fellBack : Option Bool)

namespace HostState

/-- The capacity of the channel. -/
def CHANNEL : ℕ := 64

/-- `HostCommands::send`: a full channel, or one nobody reads, aborts the session. -/
def send (s : HostState) (command : HostCommand) : HostState :=
  if s.queue.length < CHANNEL ∧ s.point ≠ .ended then { s with queue := s.queue ++ [command] }
  else { s with stopped := true, reader := none }

/-- Return from `host_desktop`, which aborts the reader. -/
def finish (s : HostState) : HostState := { s with point := .ended, stopped := true }

/-- The reader handles a message. -/
def receive {δ : Type} (s : HostState) (displays : List Display) (message : ClientMessage δ)
    (os : Desktop) : HostState :=
  match s.reader with
  | none => s
  | some reader =>
    let handled := reader.handle s.active displays message os
    let s := { s with
      active := handled.active
      reader := if handled.ends then none else some handled.reader }
    match handled.command with
    | none => s
    | some command => s.send command

/-- The beginning of a pass. -/
def beginPass (s : HostState) : HostState :=
  if s.stopped then s.finish
  else { s with point := .drain 64, pass := ⟨s.format.display.index, [], none⟩ }

/-- A command taken from the channel. -/
def drained (s : HostState) (displays : List Display) (command : HostCommand) (left : ℕ)
    (sent : Bool) : HostState :=
  let s := { s with
    point := .drain left
    history := s.history ++ [.drained command]
    pass := { s.pass with commands := s.pass.commands ++ [command] } }
  match command with
  | .selectDisplay index =>
    if index ≥ displays.length then s.finish else { s with reconfigure := some index }
  | .selectVideoProfile profile =>
    let s := { s with adaptive := { s.adaptive with profile } }
    if s.format.display.index ≥ displays.length then s.finish
    else { s with reconfigure := some s.format.display.index }
  | .pong _ => if sent then s else s.finish
  | .close | .failed _ => s.finish
  -- the flight window and the clipboard are not part of this model
  | .clipboard _ | .ack _ _ _ _ => s

/-- `try_recv` until the channel is empty, or 64 commands were taken. -/
def drain (s : HostState) (displays : List Display) (left : ℕ) (sent : Bool) : HostState :=
  match left, s.queue with
  | left + 1, command :: queue => { s with queue }.drained displays command left sent
  | _, _ => { s with point := .measure }

/-- The adaptive measurement. -/
def measure (s : HostState) (due : Option Measurement) : HostState :=
  match due with
  | none => { s with point := .reconfigure }
  | some m =>
    let s' := { s with
      point := .reconfigure
      adaptive := m.observed s.adaptive
      pass := { s.pass with measured := some (m, s.adaptive, s.format) } }
    match m.adjust s.adaptive s.format with
    | .fail => s'.finish
    | .reconfigure => { s' with reconfigure := some s.format.display.index }
    | .bitrate bitrate => { s' with format := { s.format with bitrate } }
    | .keep => s'

/-- `reconfigure.take()` and what follows up to the advertised format. -/
def takeReconfigure (s : HostState) (answer : SetupAnswer) (sent : Bool) : HostState :=
  match s.reconfigure with
  | none => { s with point := .video }
  | some index =>
    let s := { s with
      reconfigure := none
      generation := s.generation + 1
      history := s.history ++ [HostEvent.reconfigured index] }
    match setup index s.generation s.adaptive answer with
    | none => s.finish
    | some format =>
      let s := { s with format, point := .activate }
      if sent then s else s.finish

/-- The shared target switches to the new generation. -/
def activate (s : HostState) : HostState :=
  { s with active := ⟨s.generation, s.format.display⟩, point := .video }

/-- The rest of a pass. -/
def video (s : HostState) (fellBack : Option Bool) : HostState :=
  match fellBack with
  | none => s.finish
  | some false => s.beginPass
  | some true =>
    if s.preferHardware ∧ s.format.hardware then
      { s with preferHardware := false, reconfigure := some s.format.display.index }.beginPass
    else s.finish

end HostState

/-- The two threads of a host that may show `displays`. -/
def hostSystem (δ : Type) (displays : List Display) (permissions : Permissions) :
    LTS HostState (HostLabel δ) where
  init s := ∃ first answer, displays.head? = some first ∧
    setup 0 1 s.adaptive answer = some s.format ∧ (∃ ceiling, s.adaptive = .new ceiling) ∧
    s.queue = [] ∧ s.active = ⟨1, first⟩ ∧ s.reader = HostReader.start permissions ∧
    s.stopped = false ∧ s.generation = 1 ∧ s.preferHardware = true ∧ s.reconfigure = none ∧
    s.point = .drain 64 ∧ s.history = [] ∧ s.pass = ⟨s.format.display.index, [], none⟩
  step s label s' :=
    match label with
    | .receive message os => s' = s.receive displays message os
    | .disconnect => s.reader.isSome ∧ s' =
        if s.stopped then { s with reader := none }
        else { s with reader := none }.send (.failed .connection)
    | .stop => s' = { s with stopped := true }
    | .drain sent => ∃ left, s.point = .drain left ∧ s' = s.drain displays left sent
    | .measure due alive => s.point = .measure ∧ s' = if alive then s.measure due else s.finish
    | .reconfigure answer sent => s.point = .reconfigure ∧ s' = s.takeReconfigure answer sent
    | .activate => s.point = .activate ∧ s' = s.activate
    | .video fellBack => s.point = .video ∧ s' = s.video fellBack

end SensorRemote
