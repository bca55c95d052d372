import SensorRemote.HostReader
import SensorRemote.Lib.Transition

/-!
# Keys and buttons held down for a viewer

`Injector` records the keys and buttons it pressed, so that they can be let go. It forgets one in a
single way: `release` empties the record even if the system refused the events that were to let go
of what was in it. So nothing held down is forgotten exactly if no such call is refused.

What is held down is read off the events that the system accepted: a control is held down if the
last of them about it pressed it. The record is the injector's, and the two are compared both ways.
That nothing is recorded which is not held down (`OnlyHeld`) is kept by every call. That everything
held down is recorded (`Remembers`) is kept by every call but a refused release of something, after
which the record is empty and the control still down; so over a run it is kept exactly if there is
none.
-/

namespace SensorRemote

open Transition

/-! ## What is held down -/

/-- What can be pressed: a key or a button. -/
inductive Control where
  | key (virtualKey : ℕ)
  | button (button : MouseButton)
  deriving DecidableEq

/-- Whether an event presses a control or lets it go. -/
def Injected.about (control : Control) : Injected → Option Bool
  | .key virtualKey down => if control = .key virtualKey then some down else none
  | .button pressed down => if control = .button pressed then some down else none
  | .move _ _ | .wheel _ _ | .unicode _ _ => none

/-- What the last event about a control did, if there was one. -/
def lastAbout (control : Control) (events : List Injected) : Option Bool :=
  (events.filterMap (·.about control)).getLast?

/-- The last event about the control pressed it. -/
def HeldDown (control : Control) (events : List Injected) : Prop :=
  lastAbout control events = some true

@[simp] theorem lastAbout_append (control : Control) (events more : List Injected) :
    lastAbout control (events ++ more) =
      (lastAbout control more).or (lastAbout control events) := by
  simp [lastAbout]

theorem lastAbout_singleton (control : Control) (event : Injected) :
    lastAbout control [event] = event.about control := by
  cases h : event.about control <;> simp [lastAbout, h]

theorem lastAbout_eq_none {control : Control} {events : List Injected}
    (h : ∀ event ∈ events, event.about control = none) : lastAbout control events = none := by
  simpa [lastAbout, List.filterMap_eq_nil_iff] using h

/-- Controls that are only let go are not held down. -/
theorem not_heldDown_of_released {control : Control} {events : List Injected}
    (h : ∀ event ∈ events, event.about control ≠ some true) : ¬HeldDown control events := by
  intro hheld
  obtain ⟨event, hmem, hevent⟩ := List.mem_filterMap.mp (List.mem_of_getLast? hheld)
  exact h event hmem hevent

namespace Injector

/-- The injector has the control in its record. -/
def Records (injector : Injector) : Control → Prop
  | .key virtualKey => virtualKey ∈ injector.keys
  | .button pressed => pressed ∈ injector.buttons

/-- The events that let go of what is recorded. -/
def releases (injector : Injector) : List Injected :=
  injector.keys.map (.key · false) ++ injector.buttons.map (.button · false)

theorem not_heldDown_releases (injector : Injector) (control : Control) :
    ¬HeldDown control injector.releases := by
  refine not_heldDown_of_released fun event hmem => ?_
  rcases List.mem_append.mp hmem with hmem | hmem
  · obtain ⟨virtualKey, -, rfl⟩ := List.mem_map.mp hmem
    simp only [Injected.about]
    split <;> simp
  · obtain ⟨button, -, rfl⟩ := List.mem_map.mp hmem
    simp only [Injected.about]
    split <;> simp

/-- What is recorded is let go of. -/
theorem lastAbout_releases_ne_none {injector : Injector} {control : Control}
    (h : injector.Records control) : lastAbout control injector.releases ≠ none := by
  simp only [lastAbout, ne_eq, List.getLast?_eq_none_iff, List.filterMap_eq_nil_iff, not_forall]
  cases control with
  | key virtualKey =>
    exact ⟨.key virtualKey false, List.mem_append_left _ (List.mem_map_of_mem h),
      by simp [Injected.about]⟩
  | button pressed =>
    exact ⟨.button pressed false, List.mem_append_right _ (List.mem_map_of_mem h),
      by simp [Injected.about]⟩

theorem not_records_empty (control : Control) : ¬(⟨[], []⟩ : Injector).Records control := by
  cases control <;> simp [Records]

theorem eq_empty_of_not_records {injector : Injector} (h : ∀ control, ¬injector.Records control) :
    injector = ⟨[], []⟩ := by
  obtain ⟨keys, buttons⟩ := injector
  have hkeys : keys = [] := List.eq_nil_iff_forall_not_mem.mpr fun virtualKey => h (.key virtualKey)
  have hbuttons : buttons = [] := List.eq_nil_iff_forall_not_mem.mpr fun pressed =>
    h (.button pressed)
  rw [hkeys, hbuttons]

theorem release_fst (injector : Injector) (os : Desktop) : (injector.release os).1 = ⟨[], []⟩ := rfl

theorem injectedBy_sendInput (os : Desktop) (inputs : List Injected) :
    HostReader.injectedBy (sendInput os inputs) =
      if os.interactive = true ∧ os.takesInput = true then inputs else [] := by
  simp only [sendInput]
  split_ifs with hnone hrefused htaken <;> simp_all [HostReader.injectedBy, Except.toOption]

/-- What `release` injects. -/
theorem injectedBy_release (injector : Injector) (os : Desktop) :
    HostReader.injectedBy (injector.release os).2 =
      if os.interactive = true ∧ os.takesInput = true then injector.releases else [] :=
  injectedBy_sendInput os injector.releases

theorem mem_of_sendInput {os : Desktop} {inputs : List Injected} {event : Injected}
    (h : event ∈ HostReader.injectedBy (sendInput os inputs)) : event ∈ inputs := by
  rw [injectedBy_sendInput] at h
  split_ifs at h
  · exact h
  · simp at h

theorem sendInput_ok {os : Desktop} {inputs injected : List Injected}
    (h : sendInput os inputs = .ok injected) : injected = inputs := by
  simp only [sendInput] at h
  split_ifs at h with hnone
  · cases h
    exact hnone.symm
  · cases h
    rfl

end Injector

/-! ## Calls of an injector -/

/-- A call of an `Injector`; dropping it is a call of `release` too. -/
inductive InjectorCall where
  | apply (event : Input) (display : Display) (consent : Consent) (os : Desktop)
  | release (os : Desktop)

/-- An injector, and the events injected so far. -/
structure Injecting where
  injector : Injector
  events : List Injected

/-- A call of the injector: the injector afterwards and what was injected. -/
def Injector.call (injector : Injector) : InjectorCall →
    Injector × Except DesktopError (List Injected)
  | .apply event display consent os => injector.apply event display consent os
  | .release os => injector.release os

def injecting : LTS Injecting InjectorCall where
  init s := s = ⟨⟨[], []⟩, []⟩
  step s call s' :=
    s' = ⟨(s.injector.call call).1, s.events ++ HostReader.injectedBy (s.injector.call call).2⟩

/-- The call comes to `release`, with this from the system. -/
def InjectorCall.releases : InjectorCall → Option Desktop
  | .release os => some os
  | .apply .releaseAll _ consent os =>
    if consent.require .input = .ok () ∧ os.interactive = true then some os else none
  | .apply _ _ _ _ => none

namespace Injector

/-- What a call comes to: it changes nothing that is held down, it presses or lets go of one
control and records it, or it is a release. -/
theorem call_cases (injector : Injector) (call : InjectorCall) :
    (call.releases = none ∧ (injector.call call).1 = injector ∧
      ∀ control, lastAbout control (HostReader.injectedBy (injector.call call).2) = none) ∨
    (call.releases = none ∧ ∃ control down,
      (∀ c, lastAbout c (HostReader.injectedBy (injector.call call).2) =
        if c = control then some down else none) ∧
      ∀ c, (injector.call call).1.Records c ↔
        if c = control then down = true else injector.Records c) ∨
    ∃ os, call.releases = some os ∧ injector.call call = injector.release os := by
  cases call with
  | release os => exact .inr (.inr ⟨os, rfl, rfl⟩)
  | apply event display consent os =>
    simp only [call, apply]
    rcases hconsent : consent.require .input with error | _
    · refine .inl ⟨?_, rfl, fun control => rfl⟩
      cases event <;> simp [InjectorCall.releases, hconsent]
    rcases hvalid : event.validate display with error | _
    · refine .inl ⟨?_, rfl, fun control => rfl⟩
      cases event <;> first | rfl | cases hvalid
    by_cases hinteractive : os.interactive = true
    · simp only [hinteractive, Bool.not_true, Bool.false_eq_true, if_false]
      cases event with
      | move x y =>
        dsimp only
        by_cases hscreen : os.width ≤ 1 ∨ os.height ≤ 1
        · rw [if_pos hscreen]
          exact .inl ⟨rfl, rfl, fun control => rfl⟩
        · rw [if_neg hscreen]
          refine .inl ⟨rfl, rfl, fun control => lastAbout_eq_none fun event hmem => ?_⟩
          obtain rfl := List.mem_singleton.mp (mem_of_sendInput hmem)
          rfl
      | button pressed down =>
        dsimp only
        rcases hsend : sendInput os [.button pressed down] with error | injected
        · exact .inl ⟨rfl, rfl, fun control => rfl⟩
        · obtain rfl := sendInput_ok hsend
          refine .inr (.inl ⟨rfl, .button pressed, down, fun c => lastAbout_singleton c _, ?_⟩)
          rintro (virtualKey | other)
          · simp [Records]
          · cases down <;> by_cases hother : other = pressed <;> simp [Records, hother]
      | wheel delta horizontal =>
        refine .inl ⟨rfl, rfl, fun control => lastAbout_eq_none fun event hmem => ?_⟩
        obtain rfl := List.mem_singleton.mp (mem_of_sendInput hmem)
        rfl
      | key virtualKey down =>
        dsimp only
        rcases hsend : sendInput os [.key virtualKey down] with error | injected
        · exact .inl ⟨rfl, rfl, fun control => rfl⟩
        · obtain rfl := sendInput_ok hsend
          refine .inr (.inl ⟨rfl, .key virtualKey, down, fun c => lastAbout_singleton c _, ?_⟩)
          rintro (other | pressed)
          · cases down <;> by_cases hother : other = virtualKey <;> simp [Records, hother]
          · simp [Records]
      -- typed characters are pressed and let go of by code, and are about no key
      | text typed =>
        refine .inl ⟨rfl, rfl, fun control => lastAbout_eq_none fun event hmem => ?_⟩
        obtain ⟨code, -, hcode⟩ := List.mem_flatMap.mp (mem_of_sendInput hmem)
        simp only [List.mem_cons, List.not_mem_nil, or_false] at hcode
        rcases hcode with rfl | rfl <;> rfl
      | releaseAll =>
        exact .inr (.inr ⟨os, by simp [InjectorCall.releases, hconsent, hinteractive], rfl⟩)
    -- the desktop is not interactive: nothing is sent and nothing recorded
    · rw [if_pos (by simpa using hinteractive)]
      refine .inl ⟨?_, rfl, fun control => rfl⟩
      cases event <;> simp [InjectorCall.releases, hinteractive]

end Injector

namespace Injecting

/-- What is held down is recorded, so that it can be let go of. -/
def Remembers (s : Injecting) : Prop :=
  ∀ control, HeldDown control s.events → s.injector.Records control

/-- What is recorded is held down. -/
def OnlyHeld (s : Injecting) : Prop :=
  ∀ control, s.injector.Records control → HeldDown control s.events

/-- If the call comes to a release that the system refuses, nothing is recorded. -/
def NothingRefused (s : Injecting) (call : InjectorCall) : Prop :=
  ∀ os, call.releases = some os →
    (os.interactive = true ∧ os.takesInput = true) ∨ s.injector = ⟨[], []⟩

variable {s s' : Injecting} {call : InjectorCall}

theorem OnlyHeld.step (h : s.OnlyHeld) (hstep : injecting.step s call s') : s'.OnlyHeld := by
  obtain rfl := hstep
  intro control hrecords
  simp only [HeldDown, lastAbout_append]
  rcases s.injector.call_cases call with
    ⟨-, hsame, hquiet⟩ | ⟨-, pressed, down, hinjected, hrecorded⟩ | ⟨os, -, hrelease⟩
  · rw [hsame] at hrecords
    rw [hquiet control, Option.none_or]
    exact h control hrecords
  · rw [hinjected control]
    have hrecords := (hrecorded control).mp hrecords
    split_ifs at hrecords ⊢
    · rw [hrecords, Option.some_or]
    · rw [Option.none_or]
      exact h control hrecords
  · simp only [hrelease, Injector.release_fst] at hrecords
    exact absurd hrecords (Injector.not_records_empty control)

/-- A call leaves everything held down recorded exactly if it is not a refused release of
something. -/
theorem Remembers.step_iff (h : s.Remembers) (hheld : s.OnlyHeld)
    (hstep : injecting.step s call s') : s'.Remembers ↔ s.NothingRefused call := by
  obtain rfl := hstep
  rcases s.injector.call_cases call with
    ⟨hnone, hsame, hquiet⟩ | ⟨hnone, pressed, down, hinjected, hrecorded⟩ | ⟨os, hos, hrelease⟩
  · refine iff_of_true ?_ fun os hos => by simp [hnone] at hos
    intro control hdown
    simp only [HeldDown, lastAbout_append, hquiet control, Option.none_or] at hdown
    rw [hsame]
    exact h control hdown
  · refine iff_of_true ?_ fun os hos => by simp [hnone] at hos
    intro control hdown
    simp only [HeldDown, lastAbout_append, hinjected control] at hdown
    apply (hrecorded control).mpr
    split_ifs at hdown ⊢
    · simpa using hdown
    · rw [Option.none_or] at hdown
      exact h control hdown
  · simp only [Remembers, hrelease, Injector.release_fst, Injector.injectedBy_release]
    constructor
    · intro hremembers os' hos'
      obtain rfl : os = os' := Option.some.inj (hos.symm.trans hos')
      by_cases htaken : os.interactive = true ∧ os.takesInput = true
      · exact .inl htaken
      · -- what was recorded is held down still, and no longer recorded
        refine .inr (Injector.eq_empty_of_not_records fun control hrecords => ?_)
        refine Injector.not_records_empty control (hremembers control ?_)
        rw [if_neg htaken, List.append_nil]
        exact hheld control hrecords
    · intro hrefused control hdown
      exfalso
      rcases hrefused os hos with htaken | hempty
      · rw [if_pos htaken] at hdown
        rcases hlast : lastAbout control s.injector.releases with _ | last
        · simp only [HeldDown, lastAbout_append, hlast, Option.none_or] at hdown
          exact Injector.lastAbout_releases_ne_none (h control hdown) hlast
        · simp only [HeldDown, lastAbout_append, hlast, Option.some_or] at hdown
          exact s.injector.not_heldDown_releases control (hlast.trans hdown)
      · have hnothing : s.injector.releases = [] := by rw [hempty]; rfl
        rw [hnothing, ite_self, List.append_nil] at hdown
        exact Injector.not_records_empty control (hempty ▸ h control hdown)

end Injecting

open Injecting in
/-- Along the calls of an injector everything held down stays recorded exactly if no release of
something recorded is refused. -/
theorem nothing_forgotten_iff {s : Injecting} (hinit : injecting.init s)
    {run : List (InjectorCall × Injecting)} (hrun : injecting.IsRun s run) :
    LTS.Keeps Remembers s run ↔ LTS.Meets NothingRefused s run := by
  obtain rfl := hinit
  refine LTS.keeps_iff_meets (I := OnlyHeld) (fun _ _ _ => OnlyHeld.step) ?_ ?_ ?_ hrun
  · intro s call s' hheld hremembers hstep
    exact hremembers.step_iff hheld hstep
  · intro control hrecords
    exact absurd hrecords (Injector.not_records_empty control)
  · intro control hdown
    simp [HeldDown, lastAbout] at hdown

namespace CtrlHeld

/-- The viewer holds Ctrl down; then it switches the display while the host is locked. -/
def display : Display := ⟨0, "", 0, 0, 1920, 1080⟩
def consent : Consent := ⟨.of [.input], .of [.input], .active⟩
def unlocked : Desktop := ⟨true, 0, 0, 1920, 1080, true⟩
def locked : Desktop := { unlocked with interactive := false }

def press : InjectorCall := .apply (.key 17 true) display consent unlocked

def idle : Injecting := ⟨⟨[], []⟩, []⟩
def pressed : Injecting := ⟨⟨[17], []⟩, [.key 17 true]⟩
def forgotten : Injecting := ⟨⟨[], []⟩, [.key 17 true]⟩

def run : List (InjectorCall × Injecting) := [(press, pressed), (.release locked, forgotten)]

theorem isRun : injecting.IsRun idle run := by
  refine ⟨?_, rfl, trivial⟩
  rfl

/-- Ctrl is held down for good. -/
theorem ctrl_forgotten : injecting.IsRun idle run ∧ ¬LTS.Keeps Injecting.Remembers idle run := by
  refine ⟨isRun, ?_⟩
  rintro ⟨-, -, hremembers⟩
  exact Injector.not_records_empty (.key 17) (hremembers (.key 17) rfl)

theorem keeps_iff_not_refused :
    LTS.Keeps Injecting.Remembers idle run ↔ LTS.Meets Injecting.NothingRefused idle run :=
  nothing_forgotten_iff (s := idle) rfl isRun

end CtrlHeld

end SensorRemote
