import SensorRemote.AdaptiveBounds
import SensorRemote.Lib.Program
import SensorRemote.Nv12Decoding
import SensorRemote.VideoFragments

/-!
# The video codec

`sensor-windows` (`codec.rs`) encodes and decodes with a transform of Windows Media Foundation. An
asynchronous transform hands out events, of which each allows one more input, or one more output, to
be processed; `Engine` counts those not used yet. What the transform answers, and the clock, are
answers of operations.

The model is a program over two kinds of operations: calls on the transform, each with any answer of
its type, success or failure; and assignments to the fields of the engine. The calls and their
answers go into a history. Nothing is assumed of the transform here, and the encoder and the decoder
are the functions of the source, statement by statement: `pump`, `input`, `output`, the loops of
`encode`, `decode` and `drain`, and the search for another type after a stream change.
-/

namespace SensorRemote.H264

open Program

/-! ## What Windows offers -/

/-- A failed call, as far as the code tells failures apart. -/
inductive WindowsError where
  | noEventsAvailable
  | transformNeedMoreInput
  | transformStreamChange
  | other (code : ℕ)
  deriving DecidableEq

/-- `CodecError`. -/
inductive CodecError where
  | windows (error : WindowsError)
  | media (error : MediaError)
  | unavailable
  | timeout
  | invalid
  | outputDimensions (expectedWidth expectedHeight actualWidth actualHeight : ℕ)
  deriving DecidableEq

/-- The events the code tells apart. -/
inductive MediaEventType where
  | needInput
  | haveOutput
  | other

/-- `IMFMediaEvent`: reading the status may fail, and the status may be a failure. -/
structure MediaEvent where
  status : Except WindowsError (Except WindowsError Unit)
  type : Except WindowsError MediaEventType

inductive VideoSubtype where
  | h264
  | nv12
  | other
  deriving DecidableEq

/-- `MFVideoArea`. -/
structure VideoArea where
  offsetX : ℤ
  fractX : ℕ
  offsetY : ℤ
  fractY : ℕ
  cx : ℤ
  cy : ℤ
  deriving DecidableEq

/-- `IMFMediaType`: the attributes that are read. An aperture is there if its blob is read and has
the size of a `MFVideoArea`. -/
structure MediaType where
  subtype : Except WindowsError VideoSubtype
  frameSize : Except WindowsError ℕ
  minimumDisplayAperture : Option VideoArea
  geometricAperture : Option VideoArea
  defaultStride : Option ℕ

/-- An `IMFSample` that a transform put out, with what its calls answer. The bytes are those from
the locked pointer on, unless it is null. -/
structure OutputSample where
  buffer : Except WindowsError Unit
  length : Except WindowsError ℕ
  locked : Except WindowsError (Option (List UInt8))
  unlocked : Except WindowsError Unit
  time : Except WindowsError ℤ
  cleanPoint : Option ℕ

/-- An `IMFSample` made of bytes. -/
structure InputSample where
  bytes : List UInt8
  timestamp : ℤ
  duration : ℤ
  deriving DecidableEq

/-- `MFT_OUTPUT_STREAM_INFO`: whether the transform provides samples, and how large they are. -/
structure OutputStreamInfo where
  providesSamples : Bool
  size : ℕ

/-- The calls on a transform, and on Windows for it. -/
inductive TransformOp : Type → Type where
  | getEvent : TransformOp (Except WindowsError MediaEvent)
  /-- a sample is made of bytes; the buffer may turn out to be null -/
  | createInput (sample : InputSample) : TransformOp (Except CodecError Unit)
  | processInput (sample : InputSample) : TransformOp (Except WindowsError Unit)
  | getOutputStreamInfo : TransformOp (Except WindowsError OutputStreamInfo)
  | createOutput (size : ℕ) : TransformOp (Except WindowsError Unit)
  | processOutput : TransformOp (Except WindowsError (Option OutputSample))
  | getOutputAvailableType (index : ℕ) : TransformOp (Except WindowsError MediaType)
  | getOutputCurrentType : TransformOp (Except WindowsError MediaType)
  | setOutputType (media : MediaType) : TransformOp (Except WindowsError Unit)
  | commandDrain : TransformOp (Except WindowsError Unit)
  /-- whether a deadline is past -/
  | expired : TransformOp Bool
  | sleep : TransformOp Unit

/-! ## The engine -/

/-- The fields of `Engine`: whether there are events, and how many inputs and outputs are
allowed. -/
structure Engine where
  asynchronous : Bool
  inputReady : ℕ
  outputReady : ℕ
  deriving DecidableEq

/-- Reading and writing the fields. -/
inductive FieldOp : Type → Type where
  | get : FieldOp Engine
  | setInputReady (inputReady : ℕ) : FieldOp Unit
  | setOutputReady (outputReady : ℕ) : FieldOp Unit

/-- The operations of code that has an engine. -/
inductive EngineOp (β : Type) where
  | field (o : FieldOp β)
  | call (o : TransformOp β)

/-- Code on an engine. -/
abbrev EngineM (α : Type) := Fallible EngineOp CodecError α

/-- `self`. -/
def fields : EngineM Engine := Fallible.perform (.field .get)

def setInputReady (inputReady : ℕ) : EngineM Unit :=
  Fallible.perform (.field (.setInputReady inputReady))

def setOutputReady (outputReady : ℕ) : EngineM Unit :=
  Fallible.perform (.field (.setOutputReady outputReady))

/-- A call that may fail. -/
def call {α : Type} (o : TransformOp (Except WindowsError α)) : EngineM α :=
  (Fallible.attempt (.call o)).mapError .windows

/-- A call's answer, whether it failed or not. -/
def answer {α : Type} (o : TransformOp α) : EngineM α := Fallible.perform (.call o)

/-- What Windows answered already. -/
def answered {α : Type} (r : Except WindowsError α) : EngineM α :=
  Fallible.ofExcept (r.mapError .windows)

/-- `u32::saturating_add`. -/
def saturatingAdd (a b : ℕ) : ℕ := min (a + b) (2 ^ 32 - 1)

/-- An event in `Engine::pump`: whether to go on. -/
def takeEvent : EngineM Bool := do
  match ← answer .getEvent with
  | .error .noEventsAvailable => return false
  | .error e => throw (.windows e)
  | .ok event =>
    let status ← answered event.status
    answered status
    match ← answered event.type with
    | .needInput => do
      let engine ← fields
      setInputReady (saturatingAdd engine.inputReady 1)
    | .haveOutput => do
      let engine ← fields
      setOutputReady (saturatingAdd engine.outputReady 1)
    | .other => pure ()
    return true

/-- At most so many events. -/
def takeEvents : ℕ → EngineM Unit
  | 0 => pure ()
  | n + 1 => do
    if ← takeEvent then takeEvents n

/-- `Engine::pump`. -/
def pump : EngineM Unit := do
  let engine ← fields
  if engine.asynchronous then takeEvents 128

/-- The loop of `Engine::input`: it waits until an input is allowed, for two seconds at most. -/
def awaitInput : EngineM Unit :=
  Fallible.forever () fun _ => do
    let engine ← fields
    if engine.inputReady ≠ 0 then return .inr ()
    pump
    if ← answer .expired then throw .timeout
    let engine ← fields
    if engine.inputReady = 0 then answer .sleep
    return .inl ()

/-- `Engine::input`. -/
def input (sample : InputSample) : EngineM Unit := do
  let engine ← fields
  if engine.asynchronous then
    awaitInput
    let engine ← fields
    setInputReady (engine.inputReady - 1)
  call (.processInput sample)

/-- The sample that `Engine::output` brings along, if the transform provides none. -/
def bringSample (info : OutputStreamInfo) (maximum : ℕ) : EngineM Unit := do
  if !info.providesSamples then
    let size := max info.size 4096
    Fallible.check (size ≤ maximum) .invalid
    call (.createOutput size)

/-- The call of `ProcessOutput`. -/
def processOutput : EngineM (Option OutputSample) := do
  match ← answer .processOutput with
  | .ok sample => return sample
  | .error .transformNeedMoreInput => return none
  | .error e => throw (.windows e)

/-- `Engine::output`. -/
def output (maximum : ℕ) : EngineM (Option OutputSample) := do
  pump
  let engine ← fields
  if engine.asynchronous ∧ engine.outputReady = 0 then return none
  if engine.asynchronous then
    setOutputReady (engine.outputReady - 1)
  let info ← call .getOutputStreamInfo
  bringSample info maximum
  processOutput

/-! ## Samples -/

/-- `sample`. -/
def sample (bytes : List UInt8) (timestamp duration : ℤ) : EngineM InputSample := do
  Fallible.check (bytes ≠ [] ∧ bytes.length ≤ MAX_PIXELS * 4) .invalid
  Fallible.attempt (.call (.createInput ⟨bytes, timestamp, duration⟩))
  return ⟨bytes, timestamp, duration⟩

/-- `sample_bytes`. -/
def sampleBytes (sample : OutputSample) (maximum : ℕ) : Except CodecError (List UInt8) := do
  sample.buffer.mapError .windows
  let length ← sample.length.mapError .windows
  if length > maximum then throw .invalid
  let pointer ← sample.locked.mapError .windows
  let result : Except CodecError (List UInt8) :=
    if length = 0 then .ok []
    else
      match pointer with
      | none => .error .invalid
      | some bytes => .ok (bytes.take length)
  sample.unlocked.mapError .windows
  result

/-! ## The encoder -/

/-- `H264Encoder`, without its engine: `H264Encoder::new` accepted its size and rate. -/
structure Encoder where
  width : ℕ
  height : ℕ
  fps : ℕ
  accepted : ∃ bitrate, H264Encoder.checkParameters width height fps bitrate = .ok ()

/-- The halves of a frame size. -/
def unpackSize (size : ℕ) : ℕ × ℕ := (size / 2 ^ 32 % 2 ^ 32, size % 2 ^ 32)

namespace Encoder

/-- The loop over the types that are available after a stream change: whether one was selected,
of those from an index on. -/
def reselect (encoder : Encoder) : ℕ → ℕ → EngineM Bool
  | 0, _ => return false
  | n + 1, index => do
    match ← answer (.getOutputAvailableType index) with
    | .error _ => return false
    | .ok media =>
      let subtype ← answered media.subtype
      if subtype ≠ .h264 then reselect encoder n (index + 1)
      else
        let size ← answered media.frameSize
        if unpackSize size ≠ (encoder.width, encoder.height) then reselect encoder n (index + 1)
        else
          match ← answer (.setOutputType media) with
          | .ok () => return true
          | .error _ => reselect encoder n (index + 1)

/-- The frame in a sample, unless it is empty. -/
def packet (sample : OutputSample) : Except CodecError (Option EncodedFrame) := do
  let bytes ← sampleBytes sample MAX_ENCODED_FRAME
  if bytes = [] then return none
  let timestamp100ns ← sample.time.mapError .windows
  return some { timestamp100ns, keyframe := sample.cleanPoint.getD 0 ≠ 0, bytes }

/-- At most so many outputs of `H264Encoder::available`, after those that are there already. -/
def collect (encoder : Encoder) : ℕ → List EncodedFrame → EngineM (List EncodedFrame)
  | 0, result => return result
  | n + 1, result => do
    match ← Fallible.lift (output MAX_ENCODED_FRAME) with
    | .error (.windows .transformStreamChange) =>
      let selected ← encoder.reselect 32 0
      Fallible.check (selected = true) .invalid
      collect encoder n result
    | .error e => throw e
    | .ok none => return result
    | .ok (some sample) =>
      let packet ← Fallible.ofExcept (packet sample)
      collect encoder n (result ++ packet.toList)

/-- `H264Encoder::available`. -/
def available (encoder : Encoder) : EngineM (List EncodedFrame) := encoder.collect 16 []

/-- `H264Encoder::encode`. -/
def encode (encoder : Encoder) (nv12 : List UInt8) (timestamp100ns : ℤ) :
    EngineM (List EncodedFrame) := do
  Fallible.check (nv12.length = encoder.width * encoder.height * 3 / 2 ∧ 0 ≤ timestamp100ns)
    .invalid
  let packets ← encoder.available
  let sample ← sample nv12 timestamp100ns (10000000 / encoder.fps)
  input sample
  let more ← encoder.available
  return packets ++ more

/-- The loop of `H264Encoder::drain`. -/
def drainLoop (encoder : Encoder) : EngineM (List EncodedFrame) :=
  Fallible.forever [] fun packets => do
    let more ← encoder.available
    let engine ← fields
    if !engine.asynchronous then return .inr (packets ++ more)
    if ← answer .expired then return .inr (packets ++ more)
    answer .sleep
    return .inl (packets ++ more)

/-- `H264Encoder::drain`. -/
def drain (encoder : Encoder) : EngineM (List EncodedFrame) := do
  call .commandDrain
  encoder.drainLoop

end Encoder

/-! ## The decoder -/

/-- `H264Decoder`, without its engine: `H264Decoder::new` accepted its size and rate. -/
structure Decoder where
  width : ℕ
  height : ℕ
  fps : ℕ
  size : ∃ count, pixels width height = .ok count
  rate : fps ≠ 0 ∧ fps ≤ 60

/-- An aperture at the origin, of the size of the picture. -/
def VideoArea.shows (area : VideoArea) (width height : ℕ) : Prop :=
  area.offsetX = 0 ∧ area.fractX = 0 ∧ area.offsetY = 0 ∧ area.fractY = 0 ∧
    area.cx = width ∧ area.cy = height

instance (area : VideoArea) (width height : ℕ) : Decidable (area.shows width height) :=
  inferInstanceAs (Decidable (_ ∧ _))

/-- `decoder_layout`. -/
def decoderLayout (media : MediaType) (width height : ℕ) : Except CodecError (ℕ × ℕ) := do
  let size ← media.frameSize.mapError .windows
  let (storageW, storageH) := unpackSize size
  let _ ← (pixels storageW storageH).mapError .media
  if (storageW, storageH) = (width, height) then return (storageW, storageH)
  if storageW ≥ width ∧ storageH ≥ height ∧ storageW ≤ (width + 15) / 16 * 16 ∧
      storageH ≤ (height + 15) / 16 * 16 ∧
      (∃ area ∈ [media.minimumDisplayAperture, media.geometricAperture].reduceOption,
        area.shows width height) then
    return (storageW, storageH)
  throw (.outputDimensions width height storageW storageH)

namespace Decoder

/-- The loop over the types that are available after a stream change. -/
def reselect (decoder : Decoder) : ℕ → ℕ → EngineM (Option MediaType)
  | 0, _ => return none
  | n + 1, index => do
    match ← answer (.getOutputAvailableType index) with
    | .error _ => return none
    | .ok media =>
      let subtype ← answered media.subtype
      if subtype ≠ .nv12 then reselect decoder n (index + 1)
      else
        let _ ← Fallible.ofExcept (decoderLayout media decoder.width decoder.height)
        return some media

/-- A picture from a sample. No value is a panic of the conversion. -/
def picture (avx2 : Bool) (decoder : Decoder) (sample : OutputSample) :
    EngineM (Option DecodedFrame) := do
  let media ← call .getOutputCurrentType
  let (storageW, storageH) ←
    Fallible.ofExcept (decoderLayout media decoder.width decoder.height)
  let stride := media.defaultStride.getD storageW
  let bytes ← Fallible.ofExcept (sampleBytes sample (MAX_PIXELS * 4))
  match nv12ToRgbaPadded avx2 bytes decoder.width decoder.height stride storageH with
  | none => return none
  | some frame => return some (← Fallible.ofExcept (frame.mapError .media))

/-- At most so many outputs of `H264Decoder::decode`, after those that are there already. -/
def collect (avx2 : Bool) (decoder : Decoder) :
    ℕ → List DecodedFrame → EngineM (Option (List DecodedFrame))
  | 0, frames => return some frames
  | n + 1, frames => do
    match ← Fallible.lift (output (MAX_PIXELS * 4)) with
    | .error (.windows .transformStreamChange) =>
      match ← decoder.reselect 32 0 with
      | none => throw .invalid
      | some media =>
        call (.setOutputType media)
        collect avx2 decoder n frames
    | .error e => throw e
    | .ok none => return some frames
    | .ok (some sample) =>
      match ← decoder.picture avx2 sample with
      | none => return none
      | some frame => collect avx2 decoder n (frames ++ [frame])

/-- `H264Decoder::decode`. -/
def decode (avx2 : Bool) (decoder : Decoder) (frame : EncodedFrame) :
    EngineM (Option (List DecodedFrame)) := do
  Fallible.check (frame.bytes ≠ [] ∧ frame.bytes.length ≤ MAX_ENCODED_FRAME) .invalid
  let sample ← sample frame.bytes frame.timestamp100ns (10000000 / decoder.fps)
  input sample
  decoder.collect avx2 16 []

end Decoder

/-! ## Runs -/

/-- An engine, and the calls on its transform so far. -/
structure CodecState where
  engine : Engine
  history : List (Event TransformOp)

/-- What an operation does. Nothing is assumed of the transform. -/
def CodecState.Does (s : CodecState) : {β : Type} → EngineOp β → β → CodecState → Prop
  | _, .field .get, engine, s' => engine = s.engine ∧ s' = s
  | _, .field (.setInputReady inputReady), (), s' =>
    s' = { s with engine := { s.engine with inputReady } }
  | _, .field (.setOutputReady outputReady), (), s' =>
    s' = { s with engine := { s.engine with outputReady } }
  | _, .call o, b, s' => s' = { s with history := s.history ++ [⟨o, b⟩] }

def codec : Machine EngineOp Unit CodecState where
  step _ s _ o b s' := s.Does o b s'
  vanish _ s s' := s' = s

/-- A call on an encoder. -/
inductive EncoderCall where
  | encode (nv12 : List UInt8) (timestamp100ns : ℤ)
  | available
  | drain

def Encoder.run (encoder : Encoder) : EncoderCall → EngineM (List EncodedFrame)
  | .encode nv12 timestamp100ns => encoder.encode nv12 timestamp100ns
  | .available => encoder.available
  | .drain => encoder.drain

/-- `Engine::new`. -/
def Engine.new (asynchronous : Bool) : Engine := ⟨asynchronous, 0, 0⟩

end SensorRemote.H264
