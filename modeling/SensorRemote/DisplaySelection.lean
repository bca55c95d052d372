import SensorRemote.HostLoop
import SensorRemote.Lib.History

/-!
# Which display a reconfiguration shows

A viewer's selection of a display is drained, waits in `reconfigure` for the end of the same pass,
and can be overwritten there: by a video profile drained after it, or by the measurement, both of
which ask for a new encoder on the display shown before. The result is exact: the next
reconfiguration shows the display selected last, in all of a run, if and only if no pass of the run
overwrites a selection this way.

What was drained and what was reconfigured is recorded in a history, so that the statement can say
which selection is still pending. The invariant of a pass (`PassInvariant`) relates the history to
the state of the loop: a pending selection was drained in this pass, and what `reconfigure` asks for
is that selection unless the pass has overwritten it. It is kept step by step, where only three
steps touch the two: draining a command, the measurement, and the reconfiguration at the end.
-/

namespace SensorRemote

open Transition

/-! ## Selections -/

/-- The display selected last, if one was selected since the last reconfiguration. -/
def pendingSelection (history : List HostEvent) : Option ℕ :=
  history.foldl (fun pending event =>
    match event with
    | .drained (.selectDisplay index) => some index
    | .drained _ => pending
    | .reconfigured _ => none) none

/-- Every reconfiguration showed the display selected last, if one was selected since the
one before. -/
def SelectionsKept (history : List HostEvent) : Prop :=
  ∀ before index after, history = before ++ .reconfigured index :: after →
    ∀ selected, pendingSelection before = some selected → index = selected

/-- The display the commands of a pass select last. -/
def lastSelected (commands : List HostCommand) : Option ℕ :=
  commands.foldl (fun selected command =>
    match command with
    | .selectDisplay index => some index
    | _ => selected) none

/-- A video profile was drained after the last selection of a display. -/
def profileAfterSelection (commands : List HostCommand) : Bool :=
  commands.foldl (fun profile command =>
    match command with
    | .selectDisplay _ => false
    | .selectVideoProfile _ => true
    | _ => profile) false

/-- The measurement of the pass, if one was due, asked for a new encoder. -/
def Pass.measurementReconfigures (pass : Pass) : Bool :=
  match pass.measured with
  | none => false
  | some (m, adaptive, format) => m.adjust adaptive format = .reconfigure

/-- The pass overwrites no selection: if it drained one, then the last one is of the display
shown, or neither a profile was drained after it nor the measurement asked for a new
encoder. -/
def Pass.LeavesSelection (pass : Pass) : Prop :=
  ∀ selected, lastSelected pass.commands = some selected → selected = pass.shown ∨
    profileAfterSelection pass.commands = false ∧ pass.measurementReconfigures = false

/-- The step is no reconfiguration, or one in a pass that overwrote no selection. -/
def ReconfiguresFaithfully {δ : Type} (s : HostState) : HostLabel δ → Prop
  | .reconfigure _ _ => s.pass.LeavesSelection
  | _ => True

section Lemmas

variable {commands : List HostCommand} {history : List HostEvent}

/-- A drained command that selects a display is the pending selection from then on. -/
theorem pendingSelection_drained (command : HostCommand) :
    pendingSelection (history ++ [.drained command]) =
      (lastSelected [command]).or (pendingSelection history) := by
  simp only [pendingSelection, List.foldl_append]
  cases command <;> rfl

/-- After a reconfiguration no selection is pending. -/
@[simp] theorem pendingSelection_reconfigured (index : ℕ) :
    pendingSelection (history ++ [.reconfigured index]) = none := by
  simp [pendingSelection]

/-- The last selection is that of the last command that selects. -/
theorem lastSelected_append (command : HostCommand) :
    lastSelected (commands ++ [command]) =
      (lastSelected [command]).or (lastSelected commands) := by
  simp only [lastSelected, List.foldl_append]
  cases command <;> rfl

/-- A reconfiguration more is judged by the selection pending then. -/
theorem selectionsKept_reconfigured (index : ℕ) :
    SelectionsKept (history ++ [.reconfigured index]) ↔ SelectionsKept history ∧
      ∀ selected, pendingSelection history = some selected → index = selected := by
  constructor
  · intro h
    refine ⟨fun before i after heq => ?_, h history index [] rfl⟩
    exact h before i (after ++ [.reconfigured index]) (by rw [heq]; simp)
  · rintro ⟨hkept, hlast⟩ before i after heq
    rcases split_concat heq with ⟨rfl, hevent, -⟩ | ⟨rest, hold, -⟩
    · obtain rfl := HostEvent.reconfigured.inj hevent
      exact hlast
    · exact hkept before i rest hold

/-- Draining a command decides nothing yet. -/
theorem selectionsKept_drained (command : HostCommand) :
    SelectionsKept (history ++ [.drained command]) ↔ SelectionsKept history := by
  constructor
  · intro h before index after heq
    exact h before index (after ++ [.drained command]) (by rw [heq]; simp)
  · intro h before index after heq
    rcases split_concat heq with ⟨-, hevent, -⟩ | ⟨rest, hold, -⟩
    · cases hevent
    · exact h before index rest hold

end Lemmas

/-! ## The invariant of a pass -/

/-- What `reconfigure` holds while a selection is pending. -/
def Pass.overwrites (pass : Pass) : Bool :=
  profileAfterSelection pass.commands || pass.measurementReconfigures

/-- A selection is pending exactly if this pass drained one, and it waits in `reconfigure`
unless the display shown has taken its place. -/
def PassInvariant (s : HostState) : Prop :=
  match s.point with
  | .drain _ | .measure =>
    s.format.display.index = s.pass.shown ∧ s.pass.measured = none ∧
      pendingSelection s.history = lastSelected s.pass.commands ∧
      ∀ selected, lastSelected s.pass.commands = some selected →
        s.reconfigure = some (if s.pass.overwrites then s.pass.shown else selected)
  | .reconfigure =>
    pendingSelection s.history = lastSelected s.pass.commands ∧
      ∀ selected, lastSelected s.pass.commands = some selected →
        s.reconfigure = some (if s.pass.overwrites then s.pass.shown else selected)
  | .activate | .video => pendingSelection s.history = none ∧ s.reconfigure = none
  | .ended => True

/-- The part of the state that only the loop changes. -/
def HostState.own (s : HostState) : Point × VideoFormat × Pass × List HostEvent × Option ℕ :=
  (s.point, s.format, s.pass, s.history, s.reconfigure)

/-- The invariant speaks of the loop's own state, which the reader thread does not touch. -/
theorem PassInvariant.of_own {s s' : HostState} (h : PassInvariant s) (heq : s'.own = s.own) :
    PassInvariant s' := by
  simp only [HostState.own, Prod.mk.injEq] at heq
  obtain ⟨hpoint, hformat, hpass, hhistory, hreconfigure⟩ := heq
  simpa only [PassInvariant, hpoint, hformat, hpass, hhistory, hreconfigure] using h

@[simp] theorem own_send (s : HostState) (command : HostCommand) :
    (s.send command).own = s.own := by
  simp only [HostState.send]
  split <;> rfl

/-- What the reader thread receives goes into the channel, and nowhere else. -/
@[simp] theorem own_receive {δ : Type} (s : HostState) (displays : List Display)
    (message : ClientMessage δ) (os : Desktop) : (s.receive displays message os).own = s.own := by
  unfold HostState.receive
  split
  · rfl
  · dsimp only
    split
    · rfl
    · exact own_send _ _

section Steps

variable {s : HostState} {displays : List Display}

/-- A pass begins with nothing pending. -/
theorem passInvariant_beginPass (h : pendingSelection s.history = none) :
    PassInvariant s.beginPass := by
  simp only [HostState.beginPass]
  split
  · trivial
  · exact ⟨rfl, rfl, h, by rintro selected ⟨⟩⟩

/-- What a command does to a pending selection. -/
theorem PassInvariant.drained {left left' : ℕ} (h : PassInvariant s)
    (hpoint : s.point = .drain left) (command : HostCommand) (sent : Bool) :
    PassInvariant (s.drained displays command left' sent) := by
  simp only [PassInvariant, hpoint] at h
  obtain ⟨hshown, hmeasured, hpending, hwaits⟩ := h
  have hmeasure : s.pass.measurementReconfigures = false := by
    simp [Pass.measurementReconfigures, hmeasured]
  have hpending' : pendingSelection (s.history ++ [.drained command]) =
      lastSelected (s.pass.commands ++ [command]) := by
    rw [pendingSelection_drained, hpending, lastSelected_append]
  -- a command that selects nothing leaves what waits as it is
  have hother : lastSelected [command] = none →
      profileAfterSelection (s.pass.commands ++ [command]) =
        profileAfterSelection s.pass.commands →
      ∀ selected, lastSelected (s.pass.commands ++ [command]) = some selected →
        s.reconfigure = some (if (profileAfterSelection (s.pass.commands ++ [command]) ||
          s.pass.measurementReconfigures) then s.pass.shown else selected) := by
    intro hlast hprofile selected hselected
    rw [lastSelected_append, hlast, Option.none_or] at hselected
    rw [hprofile]
    exact hwaits selected hselected
  simp only [HostState.drained]
  cases command with
  | selectDisplay index =>
    dsimp only
    split
    · trivial
    · refine ⟨hshown, hmeasured, hpending', fun selected hselected => ?_⟩
      rw [lastSelected_append] at hselected
      obtain rfl := Option.some.inj hselected
      simp [Pass.overwrites, profileAfterSelection, Pass.measurementReconfigures, hmeasured]
  | selectVideoProfile profile =>
    dsimp only
    split
    · trivial
    · refine ⟨hshown, hmeasured, hpending', fun selected _ => ?_⟩
      simp [Pass.overwrites, profileAfterSelection, hshown]
  | pong value =>
    dsimp only
    split
    · exact ⟨hshown, hmeasured, hpending', hother rfl (by simp [profileAfterSelection])⟩
    · trivial
  | close => trivial
  | failed failure => trivial
  | clipboard text =>
    exact ⟨hshown, hmeasured, hpending', hother rfl (by simp [profileAfterSelection])⟩
  | ack generation sequence decodeUs rttUs =>
    exact ⟨hshown, hmeasured, hpending', hother rfl (by simp [profileAfterSelection])⟩

/-- A command is drained: it may select, or overwrite. -/
theorem PassInvariant.drain {left : ℕ} (h : PassInvariant s) (hpoint : s.point = .drain left)
    (sent : Bool) : PassInvariant (s.drain displays left sent) := by
  simp only [HostState.drain]
  split
  · rename_i command queue hqueue
    exact PassInvariant.drained (s := { s with queue }) h hpoint command sent
  · simp only [PassInvariant, hpoint] at h
    exact h

/-- What the measurement does to a pending selection. -/
theorem PassInvariant.measure (h : PassInvariant s) (hpoint : s.point = .measure)
    (due : Option Measurement) : PassInvariant (s.measure due) := by
  simp only [PassInvariant, hpoint] at h
  obtain ⟨hshown, hmeasured, hpending, hwaits⟩ := h
  simp only [HostState.measure]
  cases due with
  | none => exact ⟨hpending, hwaits⟩
  | some m =>
    dsimp only
    split
    · trivial
    · rename_i hadjust
      refine ⟨hpending, fun selected _ => ?_⟩
      simp [Pass.overwrites, Pass.measurementReconfigures, hadjust, hshown]
    · rename_i bitrate hadjust
      refine ⟨hpending, fun selected hselected => ?_⟩
      simpa [Pass.overwrites, Pass.measurementReconfigures, hadjust, hmeasured] using
        hwaits selected hselected
    · rename_i hadjust
      refine ⟨hpending, fun selected hselected => ?_⟩
      simpa [Pass.overwrites, Pass.measurementReconfigures, hadjust, hmeasured] using
        hwaits selected hselected

/-- The pass ends, with the reconfiguration if one was asked for. -/
theorem PassInvariant.takeReconfigure (h : PassInvariant s) (hpoint : s.point = .reconfigure)
    (answer : SetupAnswer) (sent : Bool) : PassInvariant (s.takeReconfigure answer sent) := by
  simp only [PassInvariant, hpoint] at h
  obtain ⟨hpending, hwaits⟩ := h
  unfold HostState.takeReconfigure
  split
  · rename_i hnone
    refine ⟨?_, hnone⟩
    rw [hpending]
    by_contra hsome
    obtain ⟨selected, hselected⟩ := Option.ne_none_iff_exists'.mp hsome
    rw [hwaits selected hselected] at hnone
    cases hnone
  · rename_i index hsome
    dsimp only
    split
    · trivial
    · split
      · exact ⟨pendingSelection_reconfigured index, rfl⟩
      · trivial

end Steps

section Runs

variable {δ : Type} {displays : List Display} {permissions : Permissions} {s s' : HostState}
  {label : HostLabel δ}

/-- At the start no selection is pending, and nothing is asked for. -/
theorem passInvariant_init (h : (hostSystem δ displays permissions).init s) : PassInvariant s := by
  obtain ⟨_, _, -, -, -, -, -, -, -, -, -, -, hpoint, hhistory, hpass⟩ := h
  simp only [PassInvariant, hpoint]
  rw [hpass, hhistory]
  exact ⟨rfl, rfl, rfl, by rintro selected ⟨⟩⟩

/-- **Every step keeps the invariant.** -/
theorem PassInvariant.step (h : PassInvariant s)
    (hstep : (hostSystem δ displays permissions).step s label s') : PassInvariant s' := by
  cases label with
  | receive message os =>
    obtain rfl := hstep
    exact h.of_own (own_receive _ _ _ _)
  | disconnect =>
    obtain ⟨-, rfl⟩ := hstep
    split
    · exact h.of_own rfl
    · exact h.of_own (own_send _ _)
  | stop =>
    obtain rfl := hstep
    exact h.of_own rfl
  | drain sent =>
    obtain ⟨left, hpoint, rfl⟩ := hstep
    exact h.drain hpoint sent
  | measure due alive =>
    obtain ⟨hpoint, rfl⟩ := hstep
    split
    · exact h.measure hpoint due
    · trivial
  | reconfigure answer sent =>
    obtain ⟨hpoint, rfl⟩ := hstep
    exact h.takeReconfigure hpoint answer sent
  | activate =>
    obtain ⟨hpoint, rfl⟩ := hstep
    simp only [PassInvariant, hpoint] at h
    exact h
  | video fellBack =>
    obtain ⟨hpoint, rfl⟩ := hstep
    simp only [PassInvariant, hpoint] at h
    simp only [HostState.video]
    split
    · trivial
    · exact passInvariant_beginPass h.1
    · split
      · exact passInvariant_beginPass h.1
      · trivial

theorem history_finish (s : HostState) : s.finish.history = s.history := rfl

theorem history_beginPass (s : HostState) : s.beginPass.history = s.history := by
  simp only [HostState.beginPass]
  split <;> rfl

theorem history_measure (s : HostState) (due : Option Measurement) :
    (s.measure due).history = s.history := by
  unfold HostState.measure
  split
  · rfl
  · dsimp only
    split <;> rfl

theorem history_video (s : HostState) (fellBack : Option Bool) :
    (s.video fellBack).history = s.history := by
  simp only [HostState.video]
  split
  · rfl
  · exact history_beginPass s
  · split
    · exact history_beginPass _
    · rfl

/-- The history is longer by the command. -/
theorem history_drained (s : HostState) (displays : List Display) (command : HostCommand)
    (left : ℕ) (sent : Bool) :
    (s.drained displays command left sent).history = s.history ++ [.drained command] := by
  simp only [HostState.drained]
  cases command <;> dsimp only <;> first | rfl | (split <;> rfl)

/-- The history is longer by the reconfiguration, if there was one. -/
theorem history_takeReconfigure (s : HostState) (answer : SetupAnswer) (sent : Bool) :
    (s.takeReconfigure answer sent).history =
      s.history ++ (s.reconfigure.map HostEvent.reconfigured).toList := by
  unfold HostState.takeReconfigure
  split
  · rename_i hnone
    simp [hnone]
  · rename_i index hsome
    dsimp only
    split
    · simp [hsome, history_finish]
    · split <;> simp [hsome, history_finish]

/-- A reconfiguration keeps a pending selection exactly if its pass has not overwritten it. -/
theorem selectionsKept_takeReconfigure (h : PassInvariant s) (hkept : SelectionsKept s.history)
    (hpoint : s.point = .reconfigure) (answer : SetupAnswer) (sent : Bool) :
    SelectionsKept (s.takeReconfigure answer sent).history ↔ s.pass.LeavesSelection := by
  simp only [PassInvariant, hpoint] at h
  obtain ⟨hpending, hwaits⟩ := h
  rw [history_takeReconfigure]
  cases hreconfigure : s.reconfigure with
  | none =>
    have hnone : lastSelected s.pass.commands = none := by
      by_contra hsome
      obtain ⟨selected, hselected⟩ := Option.ne_none_iff_exists'.mp hsome
      rw [hwaits selected hselected] at hreconfigure
      cases hreconfigure
    simp [hkept, Pass.LeavesSelection, hnone]
  | some index =>
    simp only [Option.map_some, Option.toList_some, selectionsKept_reconfigured, hkept, true_and,
      hpending, Pass.LeavesSelection]
    refine forall_congr' fun selected => imp_congr_right fun hselected => ?_
    have hindex : index = if s.pass.overwrites then s.pass.shown else selected :=
      Option.some.inj (hreconfigure.symm.trans (hwaits selected hselected))
    have hover : s.pass.overwrites = false ↔
        profileAfterSelection s.pass.commands = false ∧
          s.pass.measurementReconfigures = false := by
      simp [Pass.overwrites]
    rw [hindex, ← hover]
    cases s.pass.overwrites <;> simp [eq_comm]

/-- **One step.** Kept selections stay kept exactly if the step reconfigures faithfully. -/
theorem selectionsKept_step (h : PassInvariant s) (hkept : SelectionsKept s.history)
    (hstep : (hostSystem δ displays permissions).step s label s') :
    SelectionsKept s'.history ↔ ReconfiguresFaithfully s label := by
  have hown : s'.own = s.own → (SelectionsKept s'.history ↔ True) := by
    intro heq
    have hhistory : s'.history = s.history := congrArg (·.2.2.2.1) heq
    rw [hhistory]
    exact iff_true_intro hkept
  cases label with
  | receive message os =>
    obtain rfl := hstep
    exact hown (own_receive _ _ _ _)
  | disconnect =>
    obtain ⟨-, rfl⟩ := hstep
    apply hown
    split
    · rfl
    · exact own_send _ _
  | stop =>
    obtain rfl := hstep
    exact hown rfl
  | drain sent =>
    obtain ⟨left, -, rfl⟩ := hstep
    apply iff_true_intro
    simp only [HostState.drain]
    split
    · rw [history_drained]
      exact (selectionsKept_drained _).mpr hkept
    · exact hkept
  | measure due alive =>
    obtain ⟨-, rfl⟩ := hstep
    apply iff_true_intro
    split
    · rw [history_measure]
      exact hkept
    · exact hkept
  | reconfigure answer sent =>
    obtain ⟨hpoint, rfl⟩ := hstep
    exact selectionsKept_takeReconfigure h hkept hpoint answer sent
  | activate =>
    obtain ⟨-, rfl⟩ := hstep
    exact iff_true_intro hkept
  | video fellBack =>
    obtain ⟨-, rfl⟩ := hstep
    apply iff_true_intro
    rw [history_video]
    exact hkept

/-- **Selections and passes.** A run of the host shows, at every reconfiguration, the display
selected last if and only if every pass that reconfigures leaves the selection it drained:
drained no video profile after it and measured no need of a new encoder, unless the display
selected is the one shown. -/
theorem selections_kept_iff {run : List (HostLabel δ × HostState)}
    (hinit : (hostSystem δ displays permissions).init s)
    (hrun : (hostSystem δ displays permissions).IsRun s run) :
    LTS.Keeps (fun s => SelectionsKept s.history) s run ↔
      LTS.Meets ReconfiguresFaithfully s run := by
  have hkept : SelectionsKept s.history := by
    obtain ⟨_, _, -, -, -, -, -, -, -, -, -, -, -, hhistory, -⟩ := hinit
    rw [hhistory]
    intro before index after heq
    simp at heq
  exact LTS.keeps_iff_meets (fun _ _ _ => PassInvariant.step)
    (fun _ _ _ => selectionsKept_step) (passInvariant_init hinit) hkept hrun

end Runs

/-! ### A selection lost to a video profile -/

namespace LostSelection

def first : Display := ⟨0, "first", 0, 0, 640, 360⟩
def second : Display := ⟨1, "second", 640, 0, 640, 360⟩
def displays : List Display := [first, second]

/-- The host shows its first display to a viewer. -/
def answer : SetupAnswer := ⟨displays, 0, some ("software", false)⟩
def shown : VideoFormat := ⟨1, first, 640, 360, 30, 1800000, "software", false⟩
def start : HostState where
  queue := []
  active := ⟨1, first⟩
  reader := HostReader.start SessionMode.screenView.permissions
  stopped := false
  generation := 1
  adaptive := .new DEFAULT_MAX_BITRATE
  preferHardware := true
  format := shown
  reconfigure := none
  point := .drain 64
  history := []
  pass := ⟨0, [], none⟩

/-- What the operating system says: nothing is injected here. -/
def os : Desktop := ⟨true, 0, 0, 1280, 360, true⟩

/-- The viewer selects the second display, and selects a profile. -/
def display : ClientMessage Unit := .desktop (.selectDisplay 1)
def profile : ClientMessage Unit := .desktop (.selectVideoProfile .quality)

section TwoMessages

variable (one two : ClientMessage Unit)

/-- It does both before the loop drains. -/
def received1 : HostState := start.receive displays one os
def received2 : HostState := (received1 one).receive displays two os

/-- The pass up to its reconfiguration. -/
def drained1 : HostState := (received2 one two).drain displays 64 true
def drained2 : HostState := (drained1 one two).drain displays 63 true
def drained3 : HostState := (drained2 one two).drain displays 62 true
def measured : HostState := (drained3 one two).measure none
def reconfigured : HostState := (measured one two).takeReconfigure answer true

def run : List (HostLabel Unit × HostState) :=
  [(.receive one os, received1 one), (.receive two os, received2 one two),
    (.drain true, drained1 one two), (.drain true, drained2 one two),
    (.drain true, drained3 one two), (.measure none true, measured one two),
    (.reconfigure answer true, reconfigured one two)]

end TwoMessages

/-- The profile comes last. -/
def lost : HostState := reconfigured display profile

def system : LTS HostState (HostLabel Unit) :=
  hostSystem Unit displays SessionMode.screenView.permissions

theorem init_start : system.init start :=
  ⟨first, answer, rfl, by decide +kernel, ⟨DEFAULT_MAX_BITRATE, rfl⟩, rfl, rfl, rfl, rfl, rfl, rfl,
    rfl, rfl, rfl, rfl⟩

theorem isRun_lost : system.IsRun start (run display profile) :=
  ⟨rfl, rfl, ⟨64, by decide +kernel, rfl⟩, ⟨63, by decide +kernel, rfl⟩,
    ⟨62, by decide +kernel, rfl⟩, ⟨by decide +kernel, rfl⟩, ⟨by decide +kernel, rfl⟩, trivial⟩

theorem isRun_kept : system.IsRun start (run profile display) :=
  ⟨rfl, rfl, ⟨64, by decide +kernel, rfl⟩, ⟨63, by decide +kernel, rfl⟩,
    ⟨62, by decide +kernel, rfl⟩, ⟨by decide +kernel, rfl⟩, ⟨by decide +kernel, rfl⟩, trivial⟩

theorem not_kept_lost : ¬SelectionsKept lost.history := by
  have hhistory : lost.history =
      [.drained (.selectDisplay 1), .drained (.selectVideoProfile .quality)] ++
        .reconfigured 0 :: [] := by decide +kernel
  intro h
  have := h _ _ _ hhistory 1 rfl
  contradiction

/-- **A selection is lost.** The second display was selected, and the host shows the first. -/
theorem selection_lost : ¬∀ s, system.Reachable s → SelectionsKept s.history := by
  intro h
  exact not_kept_lost (h lost ((LTS.Reachable.init init_start).of_run isRun_lost))

/-- The run that loses the selection has a pass that overwrites it; with the profile first the
second display is shown. -/
theorem faithful_or_lost : ¬LTS.Meets ReconfiguresFaithfully start (run display profile) ∧
    LTS.Keeps (fun s => SelectionsKept s.history) start (run profile display) ∧
      (reconfigured profile display).format.display = second := by
  refine ⟨fun h => ?_, ?_, by decide +kernel⟩
  · obtain ⟨-, -, -, -, -, -, -, hlost⟩ := (selections_kept_iff init_start isRun_lost).mpr h
    exact not_kept_lost hlost
  · apply (selections_kept_iff init_start isRun_kept).mpr
    have hleaves : (measured profile display).pass.LeavesSelection :=
      fun _ _ => .inr ⟨by decide +kernel, by decide +kernel⟩
    exact ⟨trivial, trivial, trivial, trivial, trivial, trivial, hleaves, trivial⟩

end LostSelection

end SensorRemote
