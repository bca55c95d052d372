import SensorRemote.HostLoop

/-!
# Which display input is applied to

The reader applies input to the display of the shared target, and the target is set in
three places: before the first `setup`, by the loop once the format of a new generation is
sent, and to generation zero by the reader, when the viewer selects something. The
interleavings of `HostLoop` begin with the first pass, and a selection is one step of
theirs; here the reader already runs while the first capture is set up, and it gives up
the target and tells the loop of the selection in separate steps.

Input of a generation is applied to the display that the format of this generation
carries. The exception is the first generation, whose input the reader takes before its
format is sent, and also if that never happens: `BeforeTheFormat` is such a session.
-/

namespace SensorRemote

open Transition

/-! ## Enumeration -/

/-- An output of a graphics adapter, as the system describes it. -/
structure Output where
  attached : Bool
  name : String
  left : ℤ
  top : ℤ
  right : ℤ
  bottom : ℤ

/-- The body of the loop of `outputs`: `result` are the displays found before. -/
def Output.list (result : List Display) (desc : Output) : Except MediaError (List Display) :=
  let width := desc.right - desc.left
  let height := desc.bottom - desc.top
  if !desc.attached ∨ width ≤ 0 ∨ height ≤ 0 ∨ result.length ≥ 64 then .ok result
  else
    let display : Display :=
      { index := result.length
        name := desc.name
        left := desc.left
        top := desc.top
        width := width.toNat
        height := height.toNat }
    display.validate.map fun () => result ++ [display]

/-- `outputs`, given what the adapters have. -/
def outputs (found : List Output) : Except MediaError (List Display) :=
  found.foldlM Output.list []

/-- Every display is numbered by its place. -/
def Numbered (displays : List Display) : Prop :=
  ∀ (i : ℕ) (display : Display), displays[i]? = some display → display.index = i

theorem Numbered.list {result displays : List Display} (h : Numbered result) {desc : Output}
    (hlist : desc.list result = .ok displays) : Numbered displays := by
  simp only [Output.list] at hlist
  split at hlist
  · obtain rfl := Except.ok.inj hlist
    exact h
  · revert hlist
    cases Display.validate _ with
    | error e => rintro ⟨⟩
    | ok u =>
      rintro ⟨⟩ i display hi
      dsimp only at hi
      rcases Nat.lt_trichotomy i result.length with hlt | heq | hgt
      · rw [List.getElem?_append_left hlt] at hi
        exact h i display hi
      · rw [List.getElem?_append_right heq.ge, heq, Nat.sub_self] at hi
        obtain rfl := Option.some.inj hi
        exact heq.symm
      · rw [List.getElem?_eq_none (by simp; omega)] at hi
        cases hi

theorem Numbered.foldlM {found : List Output} :
    ∀ {result displays : List Display}, Numbered result →
      found.foldlM Output.list result = .ok displays → Numbered displays := by
  induction found with
  | nil =>
    rintro result displays h ⟨⟩
    exact h
  | cons desc found ih =>
    intro result displays h hfold
    rw [List.foldlM_cons] at hfold
    cases hlist : desc.list result with
    | error e =>
      rw [hlist] at hfold
      cases hfold
    | ok next =>
      rw [hlist] at hfold
      exact ih (h.list hlist) hfold

theorem numbered_of_outputs {found : List Output} {displays : List Display}
    (h : outputs found = .ok displays) : Numbered displays :=
  Numbered.foldlM (by intro i display hi; simp at hi) h

/-- The first capture, if nothing has changed since the displays were listed, is of the
first of them. -/
theorem setup_first {displays : List Display} (h : Numbered displays) {adaptive : Adaptive}
    {answer : SetupAnswer} (hstable : answer.displays = displays) {generation : ℕ}
    {format : VideoFormat} (hsetup : setup 0 generation adaptive answer = some format) :
    displays.head? = some format.display := by
  simp only [setup, Option.bind_eq_bind, Option.bind_eq_some_iff, Option.pure_def,
    Option.some.injEq] at hsetup
  obtain ⟨display, hfind, target, -, encoder, -, -, -, rfl⟩ := hsetup
  cases displays with
  | nil =>
    rw [hstable] at hfind
    cases hfind
  | cons first rest =>
    have hfirst : first.index = 0 := h 0 first rfl
    rw [hstable, List.find?_cons_of_pos (by simpa using hfirst)] at hfind
    exact hfind

theorem generation_of_setup {index generation : ℕ} {adaptive : Adaptive} {answer : SetupAnswer}
    {format : VideoFormat} (h : setup index generation adaptive answer = some format) :
    format.generation = generation := by
  simp only [setup, Option.bind_eq_bind, Option.bind_eq_some_iff, Option.pure_def,
    Option.some.injEq] at h
  obtain ⟨display, -, target, -, encoder, -, -, -, rfl⟩ := h
  rfl

/-! ## The session -/

/-- A call of `Injector::apply`: the generation the event named and the display it was
validated against and mapped with. -/
structure Applied where
  generation : ℕ
  event : Input
  display : Display
  deriving DecidableEq

/-- The call of `Injector::apply` a message leads to, under a target. -/
def ClientMessage.applies {δ : Type} (active : InputTarget) : ClientMessage δ → Option Applied
  | .desktop (.input generation event) =>
    if active.generation = 0 ∨ generation ≠ active.generation then none
    else some ⟨generation, event, active.display⟩
  | _ => none

/-- The message selects a display or a video profile. -/
def ClientMessage.selects {δ : Type} : ClientMessage δ → Bool
  | .desktop (.selectDisplay _) | .desktop (.selectVideoProfile _) => true
  | _ => false

/-- What is left to do of a selection the reader has checked. -/
inductive Selecting where
  /-- the target is to take no more input -/
  | release (command : HostCommand)
  /-- the loop is to be told -/
  | tell (command : HostCommand)

/-- Where `host_desktop` is. -/
inductive Stage where
  /-- the reader runs, the first capture is not set up -/
  | setup
  /-- the first format is not sent -/
  | announce
  | loop
  deriving DecidableEq

/-- A session from the start of the reader on. The host's format means nothing before the
first `setup`. -/
structure DesktopState where
  host : HostState
  stage : Stage
  selecting : Option Selecting
  /-- the formats handed to the writer -/
  advertised : List VideoFormat
  /-- the calls of `Injector::apply` -/
  applied : List Applied

/-- What makes a session move. -/
inductive DesktopLabel (δ : Type) where
  /-- the reader receives a message -/
  | receive (message : ClientMessage δ) (os : Desktop)
  /-- the reader goes on with a selection -/
  | select
  /-- the first `setup` -/
  | setup (answer : SetupAnswer)
  /-- the first format is sent, or sending it fails -/
  | announce (sent : Bool)
  /-- a step of the loop, a lost connection or a stop -/
  | host (label : HostLabel δ)

/-- The format a step of the loop hands to the writer. -/
def HostState.advertises {δ : Type} (s : HostState) : HostLabel δ → Option VideoFormat
  | .reconfigure answer _ => s.reconfigure.bind (setup · (s.generation + 1) s.adaptive answer)
  | _ => none

namespace DesktopState

/-- The reader handles a message, up to the point where a selection gives up the target. -/
def receive {δ : Type} (s : DesktopState) (displays : List Display) (message : ClientMessage δ)
    (os : Desktop) : DesktopState :=
  match s.host.reader with
  | none => s
  | some reader =>
    let handled := reader.handle s.host.active displays message os
    if message.selects ∧ !handled.ends then
      { s with
        host := { s.host with reader := some handled.reader }
        selecting := handled.command.map .release }
    else
      { s with
        host := s.host.receive displays message os
        applied := s.applied ++ (message.applies s.host.active).toList }

/-- The rest of a selection. -/
def select (s : DesktopState) : DesktopState :=
  match s.selecting with
  | none => s
  | some (.release command) =>
    { s with
      host := { s.host with active := { s.host.active with generation := 0 } }
      selecting := some (.tell command) }
  | some (.tell command) => { s with host := s.host.send command, selecting := none }

/-- The first `setup`, for the display numbered zero. -/
def setup (s : DesktopState) (answer : SetupAnswer) : DesktopState :=
  match SensorRemote.setup 0 s.host.generation s.host.adaptive answer with
  | none => { s with host := s.host.finish, stage := .loop }
  | some format => { s with host := { s.host with format }, stage := .announce }

/-- The first format is sent and the loop begins. -/
def announce (s : DesktopState) (sent : Bool) : DesktopState :=
  { s with
    host := if sent then s.host.beginPass else s.host.finish
    stage := .loop
    advertised := s.advertised ++ [s.host.format] }

/-- The steps of `HostLoop` that are steps of a session: messages are received otherwise,
the connection is not looked at amid a selection, and the loop moves once it has begun. -/
def Admits {δ : Type} (s : DesktopState) : HostLabel δ → Prop
  | .receive _ _ => False
  | .disconnect => s.selecting = none
  | .stop => True
  | _ => s.stage = .loop

end DesktopState

/-- A session of a host that listed `displays` and finds the same ones in the first
`setup`. -/
def desktopSystem (δ : Type) (displays : List Display) (permissions : Permissions) :
    LTS DesktopState (DesktopLabel δ) where
  init s := ∃ found first, outputs found = .ok displays ∧ displays.head? = some first ∧
    (∃ ceiling, s.host.adaptive = .new ceiling) ∧ s.host.queue = [] ∧
    s.host.active = ⟨1, first⟩ ∧ s.host.reader = HostReader.start permissions ∧
    s.host.stopped = false ∧ s.host.generation = 1 ∧ s.host.preferHardware = true ∧
    s.host.reconfigure = none ∧ s.host.point = .drain 64 ∧ s.host.history = [] ∧
    s.stage = .setup ∧ s.selecting = none ∧ s.advertised = [] ∧ s.applied = []
  step s label s' :=
    match label with
    | .receive message os => s.selecting = none ∧ s' = s.receive displays message os
    | .select => s.selecting.isSome ∧ s' = s.select
    | .setup answer => s.stage = .setup ∧ answer.displays = displays ∧ s' = s.setup answer
    | .announce sent => s.stage = .announce ∧ s' = s.announce sent
    | .host label => s.Admits label ∧
        ∃ host, (hostSystem δ displays permissions).step s.host label host ∧
          s' = { s with host, advertised := s.advertised ++ (s.host.advertises label).toList }

/-! ## What the loop does to the target -/

/-- What a step of the loop that does not reconfigure leaves as it is: the generation and the
display of the format. The target stays, or becomes the one of the format. -/
structure HostState.Holds (s s' : HostState) : Prop where
  generation : s'.generation = s.generation
  display : s'.format.display = s.format.display
  active : s'.active = s.active ∨
    s.point ≠ .ended ∧ s'.active = ⟨s.generation, s.format.display⟩
  running : s'.point ≠ .ended → s.point ≠ .ended

namespace HostState

variable {s : HostState} {displays : List Display}

theorem Holds.of_same {s s' : HostState} (hgeneration : s'.generation = s.generation)
    (hformat : s'.format = s.format) (hactive : s'.active = s.active)
    (hpoint : s'.point ≠ .ended → s.point ≠ .ended) : s.Holds s' :=
  ⟨hgeneration, congrArg VideoFormat.display hformat, .inl hactive, hpoint⟩

theorem holds_finish (s : HostState) : s.Holds s.finish :=
  .of_same rfl rfl rfl fun h => (h rfl).elim

@[simp] theorem send_generation (s : HostState) (command : HostCommand) :
    (s.send command).generation = s.generation := by
  simp only [send]
  split <;> rfl

@[simp] theorem send_format (s : HostState) (command : HostCommand) :
    (s.send command).format = s.format := by
  simp only [send]
  split <;> rfl

@[simp] theorem send_active (s : HostState) (command : HostCommand) :
    (s.send command).active = s.active := by
  simp only [send]
  split <;> rfl

@[simp] theorem send_point (s : HostState) (command : HostCommand) :
    (s.send command).point = s.point := by
  simp only [send]
  split <;> rfl

theorem holds_beginPass (h : s.point ≠ .ended) : s.Holds s.beginPass := by
  simp only [beginPass]
  split
  · exact s.holds_finish
  · exact .of_same rfl rfl rfl fun _ => h

theorem holds_drained (h : s.point ≠ .ended) (command : HostCommand) (left : ℕ) (sent : Bool) :
    s.Holds (s.drained displays command left sent) := by
  have hfinish (s' : HostState) (hgeneration : s'.generation = s.generation)
      (hformat : s'.format = s.format) (hactive : s'.active = s.active) :
      s.Holds s'.finish :=
    .of_same hgeneration hformat hactive fun hended => (hended rfl).elim
  cases command with
  | selectDisplay index =>
    simp only [drained]
    split
    · exact hfinish _ rfl rfl rfl
    · exact .of_same rfl rfl rfl fun _ => h
  | selectVideoProfile profile =>
    simp only [drained]
    split
    · exact hfinish _ rfl rfl rfl
    · exact .of_same rfl rfl rfl fun _ => h
  | pong value =>
    simp only [drained]
    split
    · exact .of_same rfl rfl rfl fun _ => h
    · exact hfinish _ rfl rfl rfl
  | close => exact hfinish _ rfl rfl rfl
  | failed failure => exact hfinish _ rfl rfl rfl
  | clipboard text => exact .of_same rfl rfl rfl fun _ => h
  | ack generation sequence decodeUs rttUs => exact .of_same rfl rfl rfl fun _ => h

theorem holds_drain (h : s.point ≠ .ended) (left : ℕ) (sent : Bool) :
    s.Holds (s.drain displays left sent) := by
  simp only [drain]
  split
  · rename_i left command queue hqueue
    have hdrained : ({ s with queue } : HostState).Holds
        (({ s with queue } : HostState).drained displays command left sent) :=
      holds_drained (s := { s with queue }) h command left sent
    obtain ⟨hgeneration, hdisplay, hactive, -⟩ := hdrained
    exact ⟨hgeneration, hdisplay, hactive, fun _ => h⟩
  · exact .of_same rfl rfl rfl fun _ => h

theorem holds_measure (h : s.point ≠ .ended) (due : Option Measurement) :
    s.Holds (s.measure due) := by
  cases due with
  | none => exact .of_same rfl rfl rfl fun _ => h
  | some m =>
    simp only [measure]
    split
    · exact ⟨rfl, rfl, .inl rfl, fun hended => (hended rfl).elim⟩
    · exact .of_same rfl rfl rfl fun _ => h
    -- another bitrate leaves the format's display alone
    · exact ⟨rfl, rfl, .inl rfl, fun _ => h⟩
    · exact .of_same rfl rfl rfl fun _ => h

theorem holds_video (h : s.point ≠ .ended) (fellBack : Option Bool) :
    s.Holds (s.video fellBack) := by
  match fellBack with
  | none => exact s.holds_finish
  | some false => exact holds_beginPass h
  | some true =>
    simp only [video]
    split
    · obtain ⟨hgeneration, hdisplay, hactive, -⟩ := holds_beginPass
        (s := { s with preferHardware := false, reconfigure := some s.format.display.index }) h
      exact ⟨hgeneration, hdisplay, hactive, fun _ => h⟩
    · exact s.holds_finish

/-- What reconfiguring does: nothing was asked for, or the session ends without a format,
or a format of the next generation is advertised. -/
theorem takeReconfigure_cases (δ : Type) (hpoint : s.point ≠ .ended) (answer : SetupAnswer)
    (sent : Bool) :
    s.advertises (δ := δ) (.reconfigure answer sent) = none ∧
        s.Holds (s.takeReconfigure answer sent) ∨
      s.advertises (δ := δ) (.reconfigure answer sent) = none ∧
        (s.takeReconfigure answer sent).point = .ended ∧
        (s.takeReconfigure answer sent).active = s.active ∧
        (s.takeReconfigure answer sent).generation = s.generation + 1 ∨
      ∃ format, s.advertises (δ := δ) (.reconfigure answer sent) = some format ∧
        format.generation = s.generation + 1 ∧
        (s.takeReconfigure answer sent).format = format ∧
        (s.takeReconfigure answer sent).active = s.active ∧
        (s.takeReconfigure answer sent).generation = s.generation + 1 := by
  simp only [advertises, takeReconfigure]
  cases s.reconfigure with
  | none => exact .inl ⟨rfl, .of_same rfl rfl rfl fun _ => hpoint⟩
  | some index =>
    cases hsetup : setup index (s.generation + 1) s.adaptive answer with
    | none =>
      refine .inr (.inl ⟨hsetup, ?_⟩)
      simp only [hsetup]
      exact ⟨rfl, rfl, rfl⟩
    | some format =>
      refine .inr (.inr ⟨format, hsetup, generation_of_setup hsetup, ?_⟩)
      simp only [hsetup]
      cases sent with
      | true => exact ⟨rfl, rfl, rfl⟩
      | false => exact ⟨rfl, rfl, rfl⟩

end HostState

/-! ## What the reader does to the target -/

section Reader

variable {δ : Type}

/-- What a message is applied to is the target. -/
theorem applies_target {active : InputTarget} {message : ClientMessage δ} {call : Applied}
    (h : message.applies active = some call) : active.generation ≠ 0 ∧
      call.generation = active.generation ∧ call.display = active.display := by
  revert h
  fun_cases ClientMessage.applies active message with
  | case1 generation event hrefused => rintro ⟨⟩
  | case2 generation event htaken =>
    rintro ⟨⟩
    obtain ⟨hne, hsame⟩ := not_or.mp htaken
    exact ⟨hne, not_not.mp hsame, rfl⟩
  | case3 => rintro ⟨⟩

/-- Exactly a call of `apply` puts anything of an event before the system: a message that
leads to none changes nothing of the reader's and injects nothing. -/
def AppliesOnly (reader : HostReader) (active : InputTarget) (displays : List Display)
    (message : ClientMessage δ) (os : Desktop) : Prop :=
  match message.applies active with
  | none => reader.handle active displays message os = ⟨reader, active, [], none, false⟩
  | some call => ∃ released injector, (reader.handle active displays message os).injected =
      released ++ HostReader.injectedBy
        (Injector.apply injector call.event call.display reader.localConsent os).2

theorem handle_input (reader : HostReader) (active : InputTarget) (displays : List Display)
    (generation : ℕ) (event : Input) (os : Desktop) : AppliesOnly reader active displays
      (.desktop (.input generation event) : ClientMessage δ) os := by
  simp only [AppliesOnly, ClientMessage.applies, HostReader.handle, HostReader.onInput]
  split
  · rename_i h
    split at h
    · rename_i hrefused
      rw [if_pos hrefused]
    · cases h
  · rename_i call h
    split at h
    · cases h
    · rename_i htaken
      obtain rfl := Option.some.inj h
      rw [if_neg htaken]
      dsimp only
      generalize (if reader.injectedGeneration ≠ active.generation then _ else _) = held
      obtain ⟨injector, released⟩ := held
      refine ⟨released, injector, ?_⟩
      dsimp only
      split
      · rename_i e happly
        rw [happly]
        exact (List.append_nil _).symm
      · rename_i injected happly
        rw [happly]
        rfl

/-- Only a selection that goes on changes the target. -/
theorem active_of_handle (reader : HostReader) (active : InputTarget) (displays : List Display)
    (message : ClientMessage δ) (os : Desktop)
    (h : ¬(message.selects ∧ !(reader.handle active displays message os).ends)) :
    (reader.handle active displays message os).active = active := by
  have hselect (index : ℕ) (command : HostCommand)
      (hends : (reader.onSelect active displays index command os).ends = true) :
      (reader.onSelect active displays index command os).active = active := by
    simp only [HostReader.onSelect] at hends ⊢
    split at hends
    · rw [if_pos ‹_›]
    · rw [if_neg ‹_›]
      split at hends
      · simp only
      · cases hends
  revert h
  fun_cases HostReader.handle reader active displays message os with
  | case1 generation event =>
    intro _
    simp only [HostReader.onInput]
    split
    · rfl
    · split <;> rfl
  | case2 index =>
    intro h
    exact hselect index _ (by simpa [ClientMessage.selects] using h)
  | case3 profile =>
    intro h
    exact hselect active.display.index _ (by simpa [ClientMessage.selects] using h)
  | _ => exact fun _ => rfl

variable {s : HostState} {displays : List Display}

theorem receive_generation (s : HostState) (displays : List Display)
    (message : ClientMessage δ) (os : Desktop) :
    (s.receive displays message os).generation = s.generation := by
  simp only [HostState.receive]
  split
  · rfl
  · split
    · rfl
    · exact HostState.send_generation _ _

theorem receive_format (s : HostState) (displays : List Display)
    (message : ClientMessage δ) (os : Desktop) :
    (s.receive displays message os).format = s.format := by
  simp only [HostState.receive]
  split
  · rfl
  · split
    · rfl
    · exact HostState.send_format _ _

theorem receive_point (s : HostState) (displays : List Display)
    (message : ClientMessage δ) (os : Desktop) :
    (s.receive displays message os).point = s.point := by
  simp only [HostState.receive]
  split
  · rfl
  · split
    · rfl
    · exact HostState.send_point _ _

theorem receive_active {reader : HostReader} (hreader : s.reader = some reader)
    {message : ClientMessage δ} {os : Desktop} :
    (s.receive displays message os).active =
      (reader.handle s.active displays message os).active := by
  simp only [HostState.receive, hreader]
  split
  · rfl
  · exact HostState.send_active _ _

end Reader

/-! ## Generations and their displays -/

/-- The display of a generation: the one its format carries, or, of the first generation and
before any format is sent, the first one listed. -/
def Shows (displays : List Display) (advertised : List VideoFormat) (generation : ℕ)
    (display : Display) : Prop :=
  (∃ format ∈ advertised, format.generation = generation ∧ format.display = display) ∨
    advertised = [] ∧ generation = 1 ∧ displays.head? = some display

section Shows

variable {displays : List Display} {advertised : List VideoFormat} {generation : ℕ}
  {display : Display}

/-- A format more changes no display, if the first format is of the first display. -/
theorem Shows.snoc (h : Shows displays advertised generation display) {format : VideoFormat}
    (hfirst : advertised = [] → format.generation = 1 ∧ displays.head? = some format.display) :
    Shows displays (advertised ++ [format]) generation display := by
  rcases h with ⟨f, hf, hshows⟩ | ⟨hnone, rfl, hhead⟩
  · exact .inl ⟨f, List.mem_append_left _ hf, hshows⟩
  · obtain ⟨hgeneration, hdisplay⟩ := hfirst hnone
    refine .inl ⟨format, by simp, hgeneration, ?_⟩
    exact Option.some.inj (hdisplay.symm.trans hhead)

/-- Generations being told apart, every format of a generation carries its display. -/
theorem Shows.display_eq (h : Shows displays advertised generation display)
    (hincreasing : advertised.Pairwise (·.generation < ·.generation)) {format : VideoFormat}
    (hformat : format ∈ advertised) (hgeneration : format.generation = generation) :
    format.display = display := by
  rcases h with ⟨f, hf, hsame, rfl⟩ | ⟨rfl, -⟩
  · have hdistinct : (advertised.map VideoFormat.generation).Nodup :=
      List.pairwise_map.mpr (hincreasing.imp Nat.ne_of_lt)
    rw [List.inj_on_of_nodup_map hdistinct hformat hf (hgeneration.trans hsame.symm)]
  · cases hformat

end Shows

/-- What holds of a session at any time. -/
structure Targeted (displays : List Display) (s : DesktopState) : Prop where
  increasing : s.advertised.Pairwise (·.generation < ·.generation)
  past : ∀ format ∈ s.advertised, 0 < format.generation ∧ format.generation ≤ s.host.generation
  /-- the format the loop works with is the one advertised last -/
  current : match s.stage with
    | .setup => s.advertised = [] ∧ s.host.generation = 1
    | .announce => s.advertised = [] ∧ s.host.generation = 1 ∧ s.host.format.generation = 1 ∧
        displays.head? = some s.host.format.display
    | .loop => s.host.point ≠ .ended → ∃ format ∈ s.advertised,
        format.generation = s.host.generation ∧ format.display = s.host.format.display
  target : s.host.active.generation ≠ 0 →
    Shows displays s.advertised s.host.active.generation s.host.active.display
  applied : ∀ call ∈ s.applied,
    call.generation ≠ 0 ∧ Shows displays s.advertised call.generation call.display

namespace Targeted

variable {δ : Type} {displays : List Display} {permissions : Permissions} {s s' : DesktopState}

theorem of_init (h : (desktopSystem δ displays permissions).init s) : Targeted displays s := by
  obtain ⟨_, first, -, hfirst, -, -, hactive, -, -, hgeneration, -, -, -, -, hstage, -, hnone,
    happlied⟩ := h
  refine ⟨?_, ?_, ?_, fun _ => .inr ?_, ?_⟩
  · simp [hnone]
  · simp [hnone]
  · simp [hstage, hnone, hgeneration]
  · simp [hactive, hnone, hfirst]
  · simp [happlied]

/-- What the reader does to the loop's variables: nothing. -/
theorem of_reader (h : Targeted displays s) (hstage : s'.stage = s.stage)
    (hadvertised : s'.advertised = s.advertised)
    (hgeneration : s'.host.generation = s.host.generation)
    (hformat : s'.host.format = s.host.format) (hpoint : s'.host.point = s.host.point)
    (htarget : s'.host.active.generation ≠ 0 → s'.host.active = s.host.active)
    (happlied : ∀ call ∈ s'.applied, call ∈ s.applied ∨ s.host.active.generation ≠ 0 ∧
      call.generation = s.host.active.generation ∧ call.display = s.host.active.display) :
    Targeted displays s' := by
  obtain ⟨hincreasing, hpast, hcurrent, hactive, hcalls⟩ := h
  refine ⟨?_, ?_, ?_, ?_, ?_⟩
  · rwa [hadvertised]
  · rwa [hadvertised, hgeneration]
  · rwa [hstage, hadvertised, hgeneration, hformat, hpoint]
  · intro hne
    have hsame := htarget hne
    rw [hsame] at hne ⊢
    rw [hadvertised]
    exact hactive hne
  · intro call hcall
    rw [hadvertised]
    rcases happlied call hcall with hold | ⟨hne, hg, hd⟩
    · exact hcalls call hold
    · rw [hg, hd]
      exact ⟨hne, hactive hne⟩

/-- Setting up capture and encoder gives the generation its format. -/
theorem advertise (h : Targeted displays s) {format : VideoFormat}
    (hstage : s'.stage = .loop) (happlied : s'.applied = s.applied)
    (hadvertised : s'.advertised = s.advertised ++ [format])
    (hlater : ∀ f ∈ s.advertised, f.generation < format.generation)
    (hfirst : s.advertised = [] → format.generation = 1 ∧ displays.head? = some format.display)
    (hpositive : 0 < format.generation)
    (hgeneration : s'.host.generation = format.generation)
    (hformat : s'.host.point ≠ .ended → s'.host.format = format)
    (hactive : s'.host.active = s.host.active) : Targeted displays s' := by
  obtain ⟨hincreasing, hpast, -, htarget, hcalls⟩ := h
  refine ⟨?_, ?_, ?_, ?_, ?_⟩
  · rw [hadvertised]
    refine List.pairwise_append.mpr ⟨hincreasing, List.pairwise_singleton _ _, ?_⟩
    intro f hf f' hf'
    obtain rfl := List.mem_singleton.mp hf'
    exact hlater f hf
  · intro f hf
    rw [hadvertised, List.mem_append, List.mem_singleton] at hf
    rw [hgeneration]
    rcases hf with hf | rfl
    · exact ⟨(hpast f hf).1, (hlater f hf).le⟩
    · exact ⟨hpositive, le_rfl⟩
  · rw [hstage]
    intro hrunning
    refine ⟨format, by simp [hadvertised], hgeneration.symm, ?_⟩
    rw [hformat hrunning]
  · rw [hactive, hadvertised]
    intro hne
    exact (htarget hne).snoc hfirst
  · rw [happlied, hadvertised]
    intro call hcall
    obtain ⟨hne, hshows⟩ := hcalls call hcall
    exact ⟨hne, hshows.snoc hfirst⟩

/-- A step of the loop that does not reconfigure. -/
theorem of_holds (h : Targeted displays s) (hstage : s.stage = .loop) {host : HostState}
    (hholds : s.host.Holds host) : Targeted displays { s with host } := by
  obtain ⟨hincreasing, hpast, hcurrent, htarget, hcalls⟩ := h
  rw [hstage] at hcurrent
  refine ⟨hincreasing, ?_, ?_, ?_, hcalls⟩
  · rwa [hholds.generation]
  · rw [hstage]
    intro hrunning
    rw [hholds.generation, hholds.display]
    exact hcurrent (hholds.running hrunning)
  · intro hne
    rcases hholds.active with hsame | ⟨hrunning, hnew⟩
    · rw [hsame] at hne ⊢
      exact htarget hne
    · rw [hnew]
      exact .inl (hcurrent hrunning)

/-- A step of the reader. -/
theorem receive (h : Targeted displays s) (message : ClientMessage δ) (os : Desktop) :
    Targeted displays (s.receive displays message os) := by
  simp only [DesktopState.receive]
  split
  · exact h
  · rename_i reader hreader
    split
    · exact h.of_reader rfl rfl rfl rfl rfl (fun _ => rfl) fun _ hcall => .inl hcall
    · rename_i hother
      have hactive := active_of_handle reader s.host.active displays message os hother
      have hcalls : ∀ call ∈ s.applied ++ (message.applies s.host.active).toList,
          call ∈ s.applied ∨ s.host.active.generation ≠ 0 ∧
            call.generation = s.host.active.generation ∧
            call.display = s.host.active.display := by
        intro call hcall
        rw [List.mem_append, Option.mem_toList] at hcall
        exact hcall.imp_right applies_target
      refine h.of_reader rfl rfl ?_ ?_ ?_ (fun _ => ?_) hcalls
      · exact receive_generation _ _ _ _
      · exact receive_format _ _ _ _
      · exact receive_point _ _ _ _
      · rw [receive_active hreader, hactive]

/-- A selection goes on: it can only take the target away. -/
theorem select (h : Targeted displays s) : Targeted displays s.select := by
  simp only [DesktopState.select]
  split
  · exact h
  · exact h.of_reader rfl rfl rfl rfl rfl (fun hne => (hne rfl).elim) fun _ hcall => .inl hcall
  · exact h.of_reader rfl rfl (HostState.send_generation _ _) (HostState.send_format _ _)
      (HostState.send_point _ _) (fun _ => HostState.send_active _ _) fun _ hcall => .inl hcall

/-- The first capture is of the display the target was set to. -/
theorem setup (h : Targeted displays s) (hnumbered : Numbered displays)
    (hstage : s.stage = .setup) {answer : SetupAnswer} (hstable : answer.displays = displays) :
    Targeted displays (s.setup answer) := by
  obtain ⟨hincreasing, hpast, hcurrent, htarget, hcalls⟩ := h
  rw [hstage] at hcurrent
  obtain ⟨hnone, hone⟩ := hcurrent
  simp only [DesktopState.setup]
  split
  · exact ⟨hincreasing, hpast, fun hended => (hended rfl).elim, htarget, hcalls⟩
  · rename_i format hsetup
    refine ⟨hincreasing, hpast, ⟨hnone, hone, ?_, ?_⟩, htarget, hcalls⟩
    · exact (generation_of_setup hsetup).trans hone
    · exact setup_first hnumbered hstable hsetup

theorem announce (h : Targeted displays s) (hstage : s.stage = .announce) (sent : Bool) :
    Targeted displays (s.announce sent) := by
  have hcurrent := h.current
  rw [hstage] at hcurrent
  obtain ⟨hnone, hone, hformat, hfirst⟩ := hcurrent
  have hgeneration : (s.announce sent).host.generation = s.host.generation ∧
      (s.announce sent).host.format = s.host.format ∧
      (s.announce sent).host.active = s.host.active := by
    cases sent with
    | false => exact ⟨rfl, rfl, rfl⟩
    | true =>
      simp only [DesktopState.announce, HostState.beginPass, if_true]
      split <;> exact ⟨rfl, rfl, rfl⟩
  refine h.advertise rfl rfl rfl ?_ (fun _ => ⟨hformat, hfirst⟩) (by omega) ?_
    (fun _ => hgeneration.2.1) hgeneration.2.2
  · simp [hnone]
  · rw [hgeneration.1, hone, hformat]

/-- A step of the loop, a lost connection or a stop. -/
theorem host (h : Targeted displays s) {label : HostLabel δ} (hadmits : s.Admits label)
    {host : HostState} (hstep : (hostSystem δ displays permissions).step s.host label host) :
    Targeted displays
      { s with host, advertised := s.advertised ++ (s.host.advertises label).toList } := by
  cases label with
  | receive message os => exact hadmits.elim
  | disconnect =>
    obtain ⟨-, rfl⟩ := hstep
    simp only [HostState.advertises, Option.toList_none, List.append_nil]
    split
    · exact h.of_reader rfl rfl rfl rfl rfl (fun _ => rfl) fun _ hcall => .inl hcall
    · exact h.of_reader rfl rfl (HostState.send_generation _ _) (HostState.send_format _ _)
        (HostState.send_point _ _) (fun _ => HostState.send_active _ _) fun _ hcall => .inl hcall
  | stop =>
    obtain rfl := hstep
    simp only [HostState.advertises, Option.toList_none, List.append_nil]
    exact h.of_reader rfl rfl rfl rfl rfl (fun _ => rfl) fun _ hcall => .inl hcall
  | drain sent =>
    obtain ⟨left, hpoint, rfl⟩ := hstep
    simp only [HostState.advertises, Option.toList_none, List.append_nil]
    exact h.of_holds hadmits (HostState.holds_drain (by simp [hpoint]) left sent)
  | measure due alive =>
    obtain ⟨hpoint, rfl⟩ := hstep
    simp only [HostState.advertises, Option.toList_none, List.append_nil]
    apply h.of_holds hadmits
    split
    · exact HostState.holds_measure (by simp [hpoint]) due
    · exact s.host.holds_finish
  | activate =>
    obtain ⟨hpoint, rfl⟩ := hstep
    simp only [HostState.advertises, Option.toList_none, List.append_nil]
    have hrunning : s.host.point ≠ .ended := by simp [hpoint]
    exact h.of_holds hadmits ⟨rfl, rfl, .inr ⟨hrunning, rfl⟩, fun _ => hrunning⟩
  | video fellBack =>
    obtain ⟨hpoint, rfl⟩ := hstep
    simp only [HostState.advertises, Option.toList_none, List.append_nil]
    exact h.of_holds hadmits (HostState.holds_video (by simp [hpoint]) fellBack)
  | reconfigure answer sent =>
    obtain ⟨hpoint, rfl⟩ := hstep
    have hrunning : s.host.point ≠ .ended := by simp [hpoint]
    rcases HostState.takeReconfigure_cases δ hrunning answer sent with
      ⟨hnone, hholds⟩ | ⟨hnone, hended, hactive, hgeneration⟩ |
        ⟨format, hformat, hnew, hshown, hactive, hgeneration⟩
    · rw [hnone, Option.toList_none, List.append_nil]
      exact h.of_holds hadmits hholds
    · -- the generation is spent, but the session is over
      rw [hnone, Option.toList_none, List.append_nil]
      obtain ⟨hincreasing, hpast, hcurrent, htarget, hcalls⟩ := h
      refine ⟨hincreasing, ?_, ?_, ?_, hcalls⟩
      · intro f hf
        rw [hgeneration]
        exact ⟨(hpast f hf).1, (hpast f hf).2.trans (Nat.le_succ _)⟩
      · rw [show s.stage = .loop from hadmits]
        exact fun hne => (hne hended).elim
      · rw [hactive]
        exact htarget
    · rw [hformat, Option.toList_some]
      have hcurrent := h.current
      rw [show s.stage = .loop from hadmits] at hcurrent
      obtain ⟨f, hf, -⟩ := hcurrent hrunning
      refine h.advertise hadmits rfl rfl ?_ ?_ (by omega) ?_ (fun _ => hshown) hactive
      · intro f hf
        have := (h.past f hf).2
        omega
      · intro hnone
        rw [hnone] at hf
        cases hf
      · rw [hgeneration, hnew]

/-- **Every step keeps the invariant.** -/
theorem step (h : Targeted displays s) (hnumbered : Numbered displays) {label : DesktopLabel δ}
    (hstep : (desktopSystem δ displays permissions).step s label s') : Targeted displays s' := by
  cases label with
  | receive message os =>
    obtain ⟨-, rfl⟩ := hstep
    exact h.receive message os
  | select =>
    obtain ⟨-, rfl⟩ := hstep
    exact h.select
  | setup answer =>
    obtain ⟨hstage, hstable, rfl⟩ := hstep
    exact h.setup hnumbered hstage hstable
  | announce sent =>
    obtain ⟨hstage, rfl⟩ := hstep
    exact h.announce hstage sent
  | host label =>
    obtain ⟨hadmits, host, hhost, rfl⟩ := hstep
    exact h.host hadmits hhost

/-- The displays of a session are numbered, and the invariant holds of all its states. -/
theorem of_reachable (h : (desktopSystem δ displays permissions).Reachable s) :
    Targeted displays s := by
  have hboth : Numbered displays ∧ Targeted displays s := by
    induction h with
    | init hinit =>
      have htargeted := of_init hinit
      obtain ⟨found, first, hfound, -⟩ := hinit
      exact ⟨numbered_of_outputs hfound, htargeted⟩
    | step _ hstep ih => exact ⟨ih.1, ih.2.step ih.1 hstep⟩
  exact hboth.2

end Targeted

/-- **Input is applied to the display of its generation.** At any time of any session, for
every event applied so far: its generation is not zero, every format of that generation
advertised so far carries the display it was applied to, and there is such a format unless
none was advertised at all; then its generation is the first, and the display the first
one listed. No two formats are of one generation. Only through what is applied does an
event reach the system. -/
theorem input_targets {δ : Type} {displays : List Display} {permissions : Permissions}
    {s : DesktopState} (h : (desktopSystem δ displays permissions).Reachable s) :
    (∀ call ∈ s.applied, call.generation ≠ 0 ∧
      (∀ format ∈ s.advertised, format.generation = call.generation →
        format.display = call.display) ∧
      ((∃ format ∈ s.advertised, format.generation = call.generation) ∨
        s.advertised = [] ∧ call.generation = 1 ∧ displays.head? = some call.display)) ∧
      s.advertised.Pairwise (·.generation ≠ ·.generation) ∧
      ∀ reader generation event os, AppliesOnly reader s.host.active displays
        (.desktop (.input generation event) : ClientMessage δ) os := by
  have hinvariant := Targeted.of_reachable h
  refine ⟨fun call hcall => ?_, hinvariant.increasing.imp Nat.ne_of_lt,
    fun reader generation event os =>
    handle_input reader s.host.active displays generation event os⟩
  obtain ⟨hne, hshows⟩ := hinvariant.applied call hcall
  refine ⟨hne, fun format hformat hsame => ?_, ?_⟩
  · exact hshows.display_eq hinvariant.increasing hformat hsame
  · exact hshows.imp_left fun ⟨format, hformat, hsame, _⟩ => ⟨format, hformat, hsame⟩

/-! ### Input before the format -/

/-- A session that ended before its first format was sent. -/
def DesktopState.Failed (s : DesktopState) : Prop :=
  s.stage = .loop ∧ s.host.point = .ended ∧ s.advertised = []

/-- Whatever the reader still does, no format follows. -/
theorem DesktopState.Failed.step {δ : Type} {displays : List Display} {permissions : Permissions}
    {s s' : DesktopState} {label : DesktopLabel δ} (h : s.Failed)
    (hstep : (desktopSystem δ displays permissions).step s label s') : s'.Failed := by
  obtain ⟨hstage, hended, hnone⟩ := h
  have hover {P : Prop} {point : Point} (hpoint : s.host.point = point)
      (hne : point ≠ .ended) : P := absurd (hpoint.symm.trans hended) hne
  cases label with
  | receive message os =>
    obtain ⟨-, rfl⟩ := hstep
    simp only [DesktopState.receive]
    split
    · exact ⟨hstage, hended, hnone⟩
    · split
      · exact ⟨hstage, hended, hnone⟩
      · exact ⟨hstage, (receive_point _ _ _ _).trans hended, hnone⟩
  | select =>
    obtain ⟨-, rfl⟩ := hstep
    simp only [DesktopState.select]
    split
    · exact ⟨hstage, hended, hnone⟩
    · exact ⟨hstage, hended, hnone⟩
    · exact ⟨hstage, (HostState.send_point _ _).trans hended, hnone⟩
  | setup answer => cases hstage.symm.trans hstep.1
  | announce sent => cases hstage.symm.trans hstep.1
  | host label =>
    obtain ⟨hadmits, host, hhost, rfl⟩ := hstep
    cases label with
    | receive message os => exact hadmits.elim
    | disconnect =>
      obtain ⟨-, rfl⟩ := hhost
      refine ⟨hstage, ?_, by simp [HostState.advertises, hnone]⟩
      split
      · exact hended
      · exact (HostState.send_point _ _).trans hended
    | stop =>
      obtain rfl := hhost
      exact ⟨hstage, hended, by simp [HostState.advertises, hnone]⟩
    | drain sent => exact hhost.elim fun left h => hover h.1 (by simp)
    | measure due alive => exact hover hhost.1 (by simp)
    | reconfigure answer sent => exact hover hhost.1 (by simp)
    | activate => exact hover hhost.1 (by simp)
    | video fellBack => exact hover hhost.1 (by simp)

namespace BeforeTheFormat

def found : List Output := [⟨true, "only", 0, 0, 640, 360⟩]
def only : Display := ⟨0, "only", 0, 0, 640, 360⟩

/-- The reader has started. -/
def start : DesktopState where
  host :=
    { queue := []
      active := ⟨1, only⟩
      reader := HostReader.start SessionMode.remoteControl.permissions
      stopped := false
      generation := 1
      adaptive := .new DEFAULT_MAX_BITRATE
      preferHardware := true
      format := ⟨0, only, 0, 0, 0, 0, "", false⟩
      reconfigure := none
      point := .drain 64
      history := []
      pass := ⟨0, [], none⟩ }
  stage := .setup
  selecting := none
  advertised := []
  applied := []

/-- The viewer knows the displays and moves the pointer at once. -/
def move : ClientMessage Unit := .desktop (.input 1 (.move 10 20))
def os : Desktop := ⟨true, 0, 0, 640, 360, true⟩
def moved : DesktopState := start.receive [only] move os

/-- No encoder can be made. -/
def failed : DesktopState := moved.setup ⟨[only], 0, none⟩

def system : LTS DesktopState (DesktopLabel Unit) :=
  desktopSystem Unit [only] SessionMode.remoteControl.permissions

theorem init_start : system.init start :=
  ⟨found, only, by decide +kernel, rfl, ⟨DEFAULT_MAX_BITRATE, rfl⟩, rfl, rfl, rfl, rfl, rfl, rfl,
    rfl, rfl, rfl, rfl, rfl, rfl, rfl⟩

def run : List (DesktopLabel Unit × DesktopState) :=
  [(.receive move os, moved), (.setup ⟨[only], 0, none⟩, failed)]

theorem isRun_run : system.IsRun start run :=
  ⟨⟨rfl, rfl⟩, ⟨by decide +kernel, rfl, rfl⟩, trivial⟩

theorem reachable_failed : system.Reachable failed :=
  (LTS.Reachable.init init_start).of_run isRun_run

/-- **Input without a format.** The pointer was moved for generation one, and no format of
that generation is ever sent. -/
theorem no_format : ∃ s call, system.Reachable s ∧ call ∈ s.applied ∧ call.generation = 1 ∧
    ∀ run, system.IsRun s run → (LTS.last s run).advertised = [] := by
  refine ⟨failed, ⟨1, .move 10 20, only⟩, reachable_failed, by decide +kernel, rfl, ?_⟩
  intro run hrun
  have hfailed : failed.Failed := by
    refine ⟨?_, ?_, ?_⟩ <;> decide +kernel
  have hkeeps := LTS.keeps_of_invariant (fun _ _ _ => DesktopState.Failed.step) hfailed hrun
  exact hkeeps.last.2.2

/-- The pointer was moved on the first display of the list. -/
theorem moved_on_first : failed.applied ≠ [] ∧
    failed.applied.all (fun call => [only].head? = some call.display) = true := by
  refine ⟨by decide +kernel, List.all_eq_true.mpr fun call hcall => decide_eq_true ?_⟩
  obtain ⟨-, -, hformat⟩ := (input_targets reachable_failed).1 call hcall
  rcases hformat with ⟨format, hformat, -⟩ | ⟨-, -, hfirst⟩
  · rw [show failed.advertised = [] by decide +kernel] at hformat
    cases hformat
  · exact hfirst

end BeforeTheFormat

end SensorRemote
