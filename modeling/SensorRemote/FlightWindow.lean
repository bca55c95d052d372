import SensorRemote.Lib.Transition
import SensorRemote.VideoFragments
import Mathlib.Algebra.Group.Action.Defs
import Mathlib.Algebra.GroupWithZero.Nat
import Mathlib.Algebra.Order.BigOperators.Group.List
import Mathlib.Algebra.Order.Group.Nat
import Mathlib.Data.List.Nodup
import Mathlib.Logic.Function.Basic

/-!
# The flight window

`FlightWindow` (`sensor-media`, `adaptive.rs`) holds the frames that were given to the encoder
and not acknowledged by the viewer, with the size of each once the encoder has reported it. The
host submits a frame only if the window allows it; reports and acknowledgements come in any
order, and for any sequence numbers.

What the window counts is exact (`flight_accounting`). It bounds the bytes in flight only as long
as frames are submitted when no other is in the encoder (`driver_buffering_iff`): the size of one
that is there counts as nothing until it is reported.
-/

namespace SensorRemote

open Transition

/-- A frame in flight: its sequence number, when it was submitted, and its size as reported. -/
structure InFlight where
  sequence : ℕ
  submitted : ℕ
  size : ℕ
  deriving DecidableEq

/-- `FlightWindow`. -/
structure FlightWindow where
  frames : List InFlight
  bytes : ℕ
  deriving DecidableEq

/-- `usize::MAX`, of 64 bits. -/
def usizeMax : ℕ := 2 ^ 64 - 1

/-- The bytes a bitrate allows in flight. -/
def flightBudget (bitrate : ℕ) : ℕ := min (max (bitrate / 32) (64 * 1024)) (2 * 1024 * 1024)

namespace FlightWindow

/-- `FlightWindow::default`. -/
def default : FlightWindow := ⟨[], 0⟩

/-- `FlightWindow::oldest_ms`. -/
def oldestMs (window : FlightWindow) (now : ℕ) : ℕ :=
  match window.frames with
  | [] => 0
  | frame :: _ => now - frame.submitted

/-- `FlightWindow::can_submit`. -/
def canSubmit (window : FlightWindow) (now bitrate : ℕ) : Bool :=
  window.frames.length < 16 ∧ window.bytes < flightBudget bitrate ∧ window.oldestMs now < 500

/-- `FlightWindow::submit`. -/
def submit (window : FlightWindow) (sequence now : ℕ) : FlightWindow :=
  { window with frames := window.frames ++ [⟨sequence, now, 0⟩] }

/-- The first frame of a number, the frames before it and those after it. -/
def locate (sequence : ℕ) : List InFlight → Option (List InFlight × InFlight × List InFlight)
  | [] => none
  | frame :: frames =>
    if frame.sequence = sequence then some ([], frame, frames)
    else (locate sequence frames).map fun (before, found, after) => (frame :: before, found, after)

/-- `FlightWindow::encoded`. -/
def encoded (window : FlightWindow) (sequence bytes : ℕ) : FlightWindow :=
  match locate sequence window.frames with
  | none => window
  | some (before, frame, after) =>
    { frames := before ++ { frame with size := bytes } :: after
      bytes := min (window.bytes - frame.size + bytes) usizeMax }

/-- `FlightWindow::acknowledge`: the window afterwards, and how long the frame was in flight. -/
def acknowledge (window : FlightWindow) (sequence now : ℕ) : FlightWindow × Option ℕ :=
  match locate sequence window.frames with
  | none => (window, none)
  | some (before, frame, after) =>
    ({ frames := before ++ after, bytes := window.bytes - frame.size },
      some (now - frame.submitted))

/-! ### Frames and their sizes -/

/-- What is located is there, and nothing before it has its number. -/
theorem locate_eq_some {sequence : ℕ} {frames before after : List InFlight} {frame : InFlight}
    (h : locate sequence frames = some (before, frame, after)) :
    frames = before ++ frame :: after ∧ frame.sequence = sequence ∧
      ∀ f ∈ before, f.sequence ≠ sequence := by
  induction frames generalizing before with
  | nil => cases h
  | cons first frames ih =>
    simp only [locate] at h
    split at h
    · rename_i heq
      cases h
      exact ⟨rfl, heq, by simp⟩
    · rename_i hne
      obtain ⟨⟨before', found, after'⟩, hlocate, heq⟩ := Option.map_eq_some_iff.mp h
      cases heq
      obtain ⟨rfl, hfound, hbefore⟩ := ih hlocate
      refine ⟨rfl, hfound, fun f hf => ?_⟩
      rcases List.mem_cons.mp hf with rfl | hf
      · exact hne
      · exact hbefore f hf

theorem locate_eq_none {sequence : ℕ} {frames : List InFlight} :
    locate sequence frames = none ↔ ∀ f ∈ frames, f.sequence ≠ sequence := by
  induction frames with
  | nil => simp [locate]
  | cons first frames ih =>
    simp only [locate]
    split
    · rename_i heq
      simp [heq]
    · rename_i hne
      simp [ih, hne]

/-- What the encoder has reported of frames. -/
def reported (frames : List InFlight) : ℕ := (frames.map (·.size)).sum

@[simp] theorem reported_nil : reported [] = 0 := rfl

@[simp] theorem reported_cons (frame : InFlight) (frames : List InFlight) :
    reported (frame :: frames) = frame.size + reported frames := rfl

@[simp] theorem reported_append (frames more : List InFlight) :
    reported (frames ++ more) = reported frames + reported more := by
  simp [reported]

/-- The window counts exactly what was reported of its few frames, none of which is too large. -/
structure Sound (window : FlightWindow) : Prop where
  few : window.frames.length ≤ 16
  sizes : ∀ frame ∈ window.frames, frame.size ≤ MAX_ENCODED_FRAME
  bytes : window.bytes = reported window.frames

theorem Sound.reported_le {window : FlightWindow} (h : window.Sound) :
    reported window.frames ≤ 16 * MAX_ENCODED_FRAME := by
  have hsum : reported window.frames ≤ (window.frames.map (·.size)).length • MAX_ENCODED_FRAME := by
    apply List.sum_le_card_nsmul
    intro size hsize
    obtain ⟨frame, hframe, rfl⟩ := List.mem_map.mp hsize
    exact h.sizes frame hframe
  rw [List.length_map, smul_eq_mul] at hsum
  exact hsum.trans (Nat.mul_le_mul_right _ h.few)

/-! ### With distinct numbers -/

/-- With distinct numbers, what is located has its number alone. -/
theorem ne_of_locate {sequence : ℕ} {frames before after : List InFlight} {frame : InFlight}
    (hdistinct : (frames.map (·.sequence)).Nodup)
    (h : locate sequence frames = some (before, frame, after)) :
    (∀ f ∈ before, f.sequence ≠ sequence) ∧ ∀ f ∈ after, f.sequence ≠ sequence := by
  obtain ⟨rfl, rfl, hbefore⟩ := locate_eq_some h
  refine ⟨hbefore, fun f hf heq => ?_⟩
  rw [List.map_append, List.map_cons, List.nodup_append] at hdistinct
  exact (List.nodup_cons.mp hdistinct.2.1).1 (heq ▸ List.mem_map_of_mem hf)

/-- A report concerns the one frame of its number. -/
theorem locate_map {sequence : ℕ} {frames before after : List InFlight} {frame : InFlight}
    (hdistinct : (frames.map (·.sequence)).Nodup)
    (h : locate sequence frames = some (before, frame, after)) (bytes : ℕ) :
    before ++ { frame with size := bytes } :: after =
      frames.map fun f => if f.sequence = sequence then { f with size := bytes } else f := by
  obtain ⟨hbefore, hafter⟩ := ne_of_locate hdistinct h
  obtain ⟨rfl, rfl, -⟩ := locate_eq_some h
  have hsame : ∀ fs : List InFlight, (∀ f ∈ fs, f.sequence ≠ frame.sequence) →
      fs.map (fun f => if f.sequence = frame.sequence then { f with size := bytes } else f) =
      fs := by
    intro fs hfs
    exact (List.map_congr_left fun f hf => if_neg (hfs f hf)).trans (List.map_id fs)
  rw [List.map_append, List.map_cons, if_pos rfl, hsame before hbefore, hsame after hafter]

/-- An acknowledgement takes out the one frame of its number. -/
theorem locate_filter {sequence : ℕ} {frames before after : List InFlight} {frame : InFlight}
    (hdistinct : (frames.map (·.sequence)).Nodup)
    (h : locate sequence frames = some (before, frame, after)) :
    before ++ after = frames.filter (·.sequence ≠ sequence) := by
  obtain ⟨hbefore, hafter⟩ := ne_of_locate hdistinct h
  obtain ⟨rfl, rfl, -⟩ := locate_eq_some h
  rw [List.filter_append, List.filter_cons, if_neg (by simp),
    List.filter_eq_self.mpr fun f hf => decide_eq_true (hbefore f hf),
    List.filter_eq_self.mpr fun f hf => decide_eq_true (hafter f hf)]

end FlightWindow

/-! ## Runs -/

/-- A call on a window. -/
inductive FlightCall where
  /-- for the bitrate that `can_submit` was asked about -/
  | submit (sequence now bitrate : ℕ)
  | encoded (sequence bytes : ℕ)
  | acknowledge (sequence now : ℕ)

/-- A window in use, and the latest time it was told. The history has what was submitted and
when, the numbers whose acknowledgement was answered, and the last size reported of each
number since it was submitted. -/
structure Flight where
  window : FlightWindow
  clock : ℕ
  submitted : List (ℕ × ℕ)
  acknowledged : List ℕ
  reports : ℕ → ℕ

namespace Flight

def call (s : Flight) : FlightCall → Flight
  | .submit sequence now _ =>
    { s with
      window := s.window.submit sequence now
      clock := now
      submitted := s.submitted ++ [(sequence, now)]
      reports := Function.update s.reports sequence 0 }
  | .encoded sequence bytes =>
    { s with
      window := s.window.encoded sequence bytes
      reports := Function.update s.reports sequence bytes }
  | .acknowledge sequence now =>
    let (window, answer) := s.window.acknowledge sequence now
    { s with
      window
      clock := now
      acknowledged := if answer.isSome then s.acknowledged ++ [sequence] else s.acknowledged }

/-- What its callers promise: a frame is submitted only if the window allows it, and no frame is
larger than an encoded frame may be. -/
def Allowed (rates : ℕ → Prop) (s : Flight) : FlightCall → Prop
  | .submit _ now bitrate => rates bitrate ∧ s.window.canSubmit now bitrate = true
  | .encoded _ bytes => bytes ≤ MAX_ENCODED_FRAME
  | .acknowledge _ _ => True

/-- Numbers are not used twice, and time does not go back. -/
def Orderly (s : Flight) : FlightCall → Prop
  | .submit sequence now _ => (∀ x ∈ s.submitted, x.1 ≠ sequence) ∧ s.clock ≤ now
  | .encoded _ _ => True
  | .acknowledge _ now => s.clock ≤ now

end Flight

/-- A window used at some bitrates, in any order. -/
def flightSystem (rates : ℕ → Prop) : LTS Flight FlightCall where
  init s := s = ⟨.default, 0, [], [], fun _ => 0⟩
  step s call s' := s.Allowed rates call ∧ s' = s.call call

/-! ### The count is exact -/

namespace FlightWindow

variable {window : FlightWindow}

/-- A report replaces the size of one frame. -/
theorem Sound.encoded_some {sequence bytes : ℕ} {before after : List InFlight} {frame : InFlight}
    (h : window.Sound) (hbytes : bytes ≤ MAX_ENCODED_FRAME)
    (hlocate : locate sequence window.frames = some (before, frame, after)) :
    window.encoded sequence bytes =
      ⟨before ++ { frame with size := bytes } :: after, reported (before ++ after) + bytes⟩ := by
  have htotal := h.reported_le
  have hframes := (locate_eq_some hlocate).1
  simp only [encoded, hlocate]
  rw [h.bytes]
  rw [hframes] at htotal ⊢
  simp only [reported_append, reported_cons] at htotal ⊢
  simp only [MAX_ENCODED_FRAME] at htotal hbytes
  simp only [usizeMax, FlightWindow.mk.injEq, true_and]
  omega

/-- An acknowledgement takes out one frame and its size. -/
theorem Sound.acknowledge_some {sequence now : ℕ} {before after : List InFlight} {frame : InFlight}
    (h : window.Sound) (hlocate : locate sequence window.frames = some (before, frame, after)) :
    window.acknowledge sequence now =
      (⟨before ++ after, reported (before ++ after)⟩, some (now - frame.submitted)) := by
  have hframes := (locate_eq_some hlocate).1
  simp only [acknowledge, hlocate]
  rw [h.bytes, hframes]
  simp only [reported_append, reported_cons, Prod.mk.injEq, FlightWindow.mk.injEq, true_and,
    and_true]
  omega

theorem Sound.submit {sequence now bitrate : ℕ} (h : window.Sound)
    (hcan : window.canSubmit now bitrate = true) : (window.submit sequence now).Sound := by
  simp only [canSubmit, decide_eq_true_eq] at hcan
  constructor
  · simp only [FlightWindow.submit, List.length_append, List.length_singleton]
    omega
  · intro frame hframe
    rcases List.mem_append.mp hframe with hbefore | hlast
    · exact h.sizes frame hbefore
    · rw [List.mem_singleton.mp hlast]
      exact Nat.zero_le _
  · simp [FlightWindow.submit, h.bytes]

theorem Sound.encoded {sequence bytes : ℕ} (h : window.Sound) (hbytes : bytes ≤ MAX_ENCODED_FRAME) :
    (window.encoded sequence bytes).Sound := by
  rcases hlocate : locate sequence window.frames with _ | ⟨before, frame, after⟩
  · simpa only [FlightWindow.encoded, hlocate] using h
  · obtain ⟨hframes, -, -⟩ := locate_eq_some hlocate
    rw [h.encoded_some hbytes hlocate]
    constructor
    · simpa [hframes] using h.few
    · intro f hf
      rcases List.mem_append.mp hf with hbefore | hrest
      · exact h.sizes f (hframes ▸ List.mem_append_left _ hbefore)
      · rcases List.mem_cons.mp hrest with rfl | hafter
        · exact hbytes
        · exact h.sizes f (hframes ▸ List.mem_append_right _ (List.mem_cons_of_mem _ hafter))
    · simp only [reported_append, reported_cons]
      omega

theorem Sound.acknowledge {sequence now : ℕ} (h : window.Sound) :
    (window.acknowledge sequence now).1.Sound := by
  rcases hlocate : locate sequence window.frames with _ | ⟨before, frame, after⟩
  · simpa only [FlightWindow.acknowledge, hlocate] using h
  · obtain ⟨hframes, -, -⟩ := locate_eq_some hlocate
    rw [h.acknowledge_some hlocate]
    constructor
    · have := h.few
      simp only [hframes, List.length_append, List.length_cons] at this ⊢
      omega
    · intro f hf
      apply h.sizes f
      rw [hframes]
      rcases List.mem_append.mp hf with hbefore | hafter
      · exact List.mem_append_left _ hbefore
      · exact List.mem_append_right _ (List.mem_cons_of_mem _ hafter)
    · rfl

end FlightWindow

namespace Flight

open FlightWindow

variable {s s' : Flight} {call : FlightCall} {rates : ℕ → Prop}

theorem sound_call (h : s.window.Sound) (hallowed : s.Allowed rates call) :
    (s.call call).window.Sound := by
  cases call with
  | submit sequence now bitrate => exact h.submit hallowed.2
  | encoded sequence bytes => exact h.encoded hallowed
  | acknowledge sequence now => exact h.acknowledge

theorem sound_of_reachable (h : (flightSystem rates).Reachable s) : s.window.Sound := by
  apply h.invariant
  · rintro s rfl
    exact ⟨by decide, by simp [FlightWindow.default], rfl⟩
  · rintro s call s' hsound ⟨hallowed, rfl⟩
    exact sound_call hsound hallowed

/-! ### Accounting -/

/-- What was submitted and not acknowledged. -/
def pending (s : Flight) : List (ℕ × ℕ) := s.submitted.filter (·.1 ∉ s.acknowledged)

/-- The frames in flight, by the history. -/
def inFlight (s : Flight) : List InFlight :=
  s.pending.map fun (sequence, submitted) => ⟨sequence, submitted, s.reports sequence⟩

/-- What is true of a window used in order. -/
structure Accounted (s : Flight) : Prop where
  sound : s.window.Sound
  frames : s.window.frames = s.inFlight
  distinct : (s.submitted.map Prod.fst).Nodup
  ordered : s.submitted.Pairwise (·.2 ≤ ·.2)
  past : ∀ x ∈ s.submitted, x.2 ≤ s.clock
  known : ∀ sequence ∈ s.acknowledged, ∃ x ∈ s.submitted, x.1 = sequence
  once : s.acknowledged.Nodup

theorem mem_pending {x : ℕ × ℕ} :
    x ∈ s.pending ↔ x ∈ s.submitted ∧ x.1 ∉ s.acknowledged := by
  simp [pending]

theorem sequences_inFlight (s : Flight) :
    s.inFlight.map (·.sequence) = s.pending.map Prod.fst := by
  simp [inFlight, Function.comp_def]

theorem Accounted.distinct_frames (h : s.Accounted) :
    (s.window.frames.map (·.sequence)).Nodup := by
  rw [h.frames, sequences_inFlight]
  exact h.distinct.sublist (List.filter_sublist.map _)

/-- A number is located if it is in flight. -/
theorem Accounted.locate_isSome (h : s.Accounted) (sequence : ℕ) :
    (locate sequence s.window.frames).isSome = true ↔ ∃ x ∈ s.pending, x.1 = sequence := by
  have hnone : locate sequence s.window.frames = none ↔ ¬∃ x ∈ s.pending, x.1 = sequence := by
    have hmem : (∀ f ∈ s.inFlight, f.sequence ≠ sequence) ↔
        sequence ∉ s.inFlight.map (·.sequence) := by
      simp
    rw [locate_eq_none, h.frames, hmem, sequences_inFlight]
    simp
  rw [← not_iff_not, ← hnone]
  simp

theorem Accounted.submit {sequence now bitrate : ℕ} (h : s.Accounted)
    (hcan : s.window.canSubmit now bitrate = true)
    (horderly : s.Orderly (.submit sequence now bitrate)) :
    (s.call (.submit sequence now bitrate)).Accounted := by
  obtain ⟨hfresh, hclock⟩ := horderly
  have hnew : sequence ∉ s.acknowledged := by
    intro hmem
    obtain ⟨x, hx, hsame⟩ := h.known sequence hmem
    exact hfresh x hx hsame
  constructor
  · exact h.sound.submit hcan
  -- the window's frames are those pending, each with its reported size
  · have hbefore : s.pending.map (fun x : ℕ × ℕ =>
        (⟨x.1, x.2, Function.update s.reports sequence 0 x.1⟩ : InFlight)) = s.inFlight := by
      apply List.map_congr_left
      intro x hx
      rw [Function.update_of_ne (hfresh x (mem_pending.mp hx).1)]
    have hpending : (s.call (.submit sequence now bitrate)).pending =
        s.pending ++ [(sequence, now)] := by
      have hlast : [(sequence, now)].filter (·.1 ∉ s.acknowledged) = [(sequence, now)] := by
        simp [hnew]
      change (s.submitted ++ [(sequence, now)]).filter (·.1 ∉ s.acknowledged) = _
      rw [List.filter_append, hlast, pending]
    rw [inFlight, hpending, List.map_append]
    simp only [call, FlightWindow.submit, List.map_cons, List.map_nil, Function.update_self]
    rw [h.frames, ← hbefore]
  · simp only [call, List.map_append, List.map_cons, List.map_nil]
    apply List.nodup_append.mpr
    refine ⟨h.distinct, by simp, ?_⟩
    intro a ha b hb heq
    obtain ⟨x, hx, rfl⟩ := List.mem_map.mp ha
    exact hfresh x hx (heq.trans (List.mem_singleton.mp hb))
  -- frames are submitted in the order of the clock
  · apply List.pairwise_append.mpr
    refine ⟨h.ordered, by simp, ?_⟩
    intro x hx y hy
    rw [List.mem_singleton.mp hy]
    exact (h.past x hx).trans hclock
  · intro x hx
    rcases List.mem_append.mp hx with hbefore | hlast
    · exact (h.past x hbefore).trans hclock
    · rw [List.mem_singleton.mp hlast]
      exact Nat.le_refl now
  · intro q hq
    obtain ⟨x, hx, hsame⟩ := h.known q hq
    exact ⟨x, List.mem_append_left _ hx, hsame⟩
  · exact h.once

theorem Accounted.encoded {sequence bytes : ℕ} (h : s.Accounted)
    (hbytes : bytes ≤ MAX_ENCODED_FRAME) : (s.call (.encoded sequence bytes)).Accounted := by
  refine ⟨h.sound.encoded hbytes, ?_, h.distinct, h.ordered, h.past, h.known, h.once⟩
  have hupdate : (s.call (.encoded sequence bytes)).inFlight =
      s.inFlight.map fun f => if f.sequence = sequence then { f with size := bytes } else f := by
    simp only [inFlight, List.map_map]
    apply List.map_congr_left
    intro x _
    by_cases hsame : x.1 = sequence
    · simp [call, hsame]
    · simp [call, hsame]
  rw [hupdate, ← h.frames]
  simp only [call]
  rcases hlocate : locate sequence s.window.frames with _ | ⟨before, frame, after⟩
  · have hno := locate_eq_none.mp hlocate
    simp only [FlightWindow.encoded, hlocate]
    exact ((List.map_congr_left fun f hf => if_neg (hno f hf)).trans (List.map_id _)).symm
  · rw [h.sound.encoded_some hbytes hlocate]
    exact locate_map h.distinct_frames hlocate bytes

theorem Accounted.acknowledge {sequence now : ℕ} (h : s.Accounted)
    (horderly : s.Orderly (.acknowledge sequence now)) :
    (s.call (.acknowledge sequence now)).Accounted := by
  have hclock : s.clock ≤ now := horderly
  rcases hlocate : locate sequence s.window.frames with _ | ⟨before, frame, after⟩
  · simp only [call, FlightWindow.acknowledge, hlocate]
    exact ⟨h.sound, h.frames, h.distinct, h.ordered,
      fun x hx => (h.past x hx).trans hclock, h.known,
      h.once⟩
  · obtain ⟨x, hx, hsame⟩ := (h.locate_isSome sequence).mp (by rw [hlocate]; rfl)
    obtain ⟨hsubmitted, hnew⟩ := mem_pending.mp hx
    have hsound : (s.window.acknowledge sequence now).1.Sound := h.sound.acknowledge
    simp only [call, h.sound.acknowledge_some hlocate] at hsound ⊢
    refine ⟨hsound, ?_, h.distinct, h.ordered, fun y hy => (h.past y hy).trans hclock, ?_, ?_⟩
    · simp only [Option.isSome_some, if_true]
      rw [locate_filter h.distinct_frames hlocate, h.frames]
      simp only [inFlight, pending, List.filter_map, List.filter_filter]
      congr 1
      apply List.filter_congr
      intro y _
      simp [and_comm, not_or]
    · intro q hq
      rcases List.mem_append.mp hq with hbefore | hlast
      · exact h.known q hbefore
      · exact ⟨x, hsubmitted, hsame.trans (List.mem_singleton.mp hlast).symm⟩
    · apply List.nodup_append.mpr
      refine ⟨h.once, by simp, ?_⟩
      intro a ha b hb heq
      rw [List.mem_singleton.mp hb] at heq
      exact hnew (by rw [hsame, ← heq]; exact ha)

theorem accounted_of_reachable
    (h : ((flightSystem rates).guarded fun s call => s.Orderly call).Reachable s) :
    s.Accounted := by
  apply h.invariant
  · rintro s rfl
    exact ⟨⟨by decide, by simp [FlightWindow.default], rfl⟩, rfl, by simp, by simp,
      by simp, by simp,
      by simp⟩
  · rintro s call s' hs ⟨⟨hallowed, rfl⟩, horderly⟩
    cases call with
    | submit sequence now bitrate => exact hs.submit hallowed.2 horderly
    | encoded sequence bytes => exact hs.encoded hallowed
    | acknowledge sequence now => exact hs.acknowledge horderly

/-- The frame that was submitted first is the oldest. -/
theorem Accounted.oldest (h : s.Accounted) (now : ℕ) :
    (∀ x ∈ s.pending, now - x.2 ≤ s.window.oldestMs now) ∧
      (s.pending = [] → s.window.oldestMs now = 0) ∧
      (s.pending ≠ [] → ∃ x ∈ s.pending, s.window.oldestMs now = now - x.2) := by
  have hordered : s.pending.Pairwise (·.2 ≤ ·.2) := h.ordered.sublist List.filter_sublist
  rw [FlightWindow.oldestMs, h.frames, inFlight]
  rcases hpending : s.pending with _ | ⟨first, rest⟩
  · simp
  · rw [hpending] at hordered
    simp only [List.map_cons]
    refine ⟨fun x hx => ?_, by simp, fun _ => ⟨first, List.mem_cons_self .., rfl⟩⟩
    rcases List.mem_cons.mp hx with rfl | hrest
    · exact Nat.le_refl _
    · exact Nat.sub_le_sub_left (List.rel_of_pairwise_cons hordered hrest) now

/-- An acknowledgement is answered exactly for what is pending. -/
theorem Accounted.acknowledge_eq (h : s.Accounted) (sequence now : ℕ) :
    (∀ submitted, (sequence, submitted) ∈ s.pending →
      (s.window.acknowledge sequence now).2 = some (now - submitted)) ∧
    ((∀ x ∈ s.pending, x.1 ≠ sequence) →
      s.window.acknowledge sequence now = (s.window, none)) := by
  constructor
  · intro submitted hpending
    have hsome := (h.locate_isSome sequence).mpr ⟨_, hpending, rfl⟩
    obtain ⟨⟨before, frame, after⟩, hlocate⟩ := Option.isSome_iff_exists.mp hsome
    rw [h.sound.acknowledge_some hlocate]
    obtain ⟨hframes, hsequence, -⟩ := locate_eq_some hlocate
    have hframe : frame ∈ s.inFlight := by
      rw [← h.frames, hframes]
      exact List.mem_append_right _ (List.mem_cons_self ..)
    obtain ⟨⟨sequence', submitted'⟩, hx, rfl⟩ := List.mem_map.mp hframe
    obtain rfl : sequence' = sequence := hsequence
    -- one number, one submission
    have hsame := List.inj_on_of_nodup_map h.distinct (mem_pending.mp hx).1
      (mem_pending.mp hpending).1 rfl
    rw [(Prod.mk.inj hsame).2]
  · intro hnone
    have hlocate : locate sequence s.window.frames = none := by
      rw [← Option.not_isSome_iff_eq_none, h.locate_isSome sequence]
      rintro ⟨x, hx, hsame⟩
      exact hnone x hx hsame
    rw [FlightWindow.acknowledge, hlocate]

end Flight

/-- **Accounting of the flight window.** In every run in which frames are submitted only when the
window allows it, under new numbers and at times that do not go back, whatever is reported and
acknowledged:

* at most sixteen frames are in flight, and they are those submitted and not acknowledged;
* `bytes` is the sum of the sizes last reported of them, so that nothing has saturated, nor
  will with the next call;
* an acknowledgement is answered, with the time since the submission, for what is in flight,
  and every other one changes nothing; so each submission is answered once at most;
* `oldest_ms` is the greatest age of a frame in flight. -/
theorem flight_accounting {rates : ℕ → Prop} {s : Flight}
    (hs : ((flightSystem rates).guarded fun s call => s.Orderly call).Reachable s) :
    s.window.frames.length ≤ 16 ∧
    s.window.frames.map (fun frame => (frame.sequence, frame.submitted)) = s.pending ∧
    s.window.bytes = (s.pending.map fun x => s.reports x.1).sum ∧
    (∀ x ∈ s.pending, s.reports x.1 ≤ s.window.bytes) ∧
    s.window.bytes + MAX_ENCODED_FRAME ≤ usizeMax ∧
    (∀ sequence now, s.clock ≤ now →
      (∀ submitted, (sequence, submitted) ∈ s.pending → submitted ≤ now ∧
        (s.window.acknowledge sequence now).2 = some (now - submitted)) ∧
      ((∀ x ∈ s.pending, x.1 ≠ sequence) →
        s.window.acknowledge sequence now = (s.window, none))) ∧
    s.acknowledged.Nodup ∧
    ∀ now, s.clock ≤ now →
      (∀ x ∈ s.pending, now - x.2 ≤ s.window.oldestMs now) ∧
      (s.pending = [] → s.window.oldestMs now = 0) ∧
      (s.pending ≠ [] → ∃ x ∈ s.pending, s.window.oldestMs now = now - x.2) := by
  have h := Flight.accounted_of_reachable hs
  have hsizes : s.window.frames.map (·.size) = s.pending.map fun x => s.reports x.1 := by
    rw [h.frames, Flight.inFlight, List.map_map]
    rfl
  have hbytes : s.window.bytes = (s.pending.map fun x => s.reports x.1).sum := by
    rw [h.sound.bytes, FlightWindow.reported, hsizes]
  refine ⟨h.sound.few, ?_, hbytes, ?_, ?_, ?_, h.once, fun now _ => h.oldest now⟩
  · rw [h.frames, Flight.inFlight, List.map_map]
    exact List.map_id _
  · intro x hx
    rw [hbytes]
    exact List.le_sum_of_mem (List.mem_map_of_mem hx)
  · have htotal := h.sound.reported_le
    rw [← h.sound.bytes] at htotal
    simp only [MAX_ENCODED_FRAME] at htotal ⊢
    simp only [usizeMax]
    omega
  · intro sequence now hclock
    obtain ⟨hsome, hnone⟩ := h.acknowledge_eq sequence now
    refine ⟨fun submitted hpending => ⟨?_, hsome submitted hpending⟩, hnone⟩
    exact (h.past _ (Flight.mem_pending.mp hpending).1).trans hclock

/-- The states that calls lead to. -/
def Flight.states : Flight → List FlightCall → List (FlightCall × Flight)
  | _, [] => []
  | s, call :: calls => (call, s.call call) :: states (s.call call) calls

namespace OutOfOrder

def start : Flight := ⟨.default, 0, [], [], fun _ => 0⟩

/-- Three frames are submitted. The sizes of two are reported the other way round, the second is
acknowledged before the first, and a number that is not in flight is reported and acknowledged. -/
def calls : List FlightCall :=
  [.submit 7 100 1800000, .submit 8 110 1800000, .encoded 8 700, .encoded 7 500, .encoded 9 1,
    .acknowledge 9 120, .submit 9 130 1800000, .acknowledge 8 140]

def flying : Flight := LTS.last start (start.states calls)

theorem reachable_flying :
    ((flightSystem (· = 1800000)).guarded fun s call => s.Orderly call).Reachable flying := by
  have hrun : ((flightSystem (· = 1800000)).guarded fun s call => s.Orderly call).IsRun start
      (start.states calls) := by
    refine ⟨⟨⟨⟨rfl, by decide⟩, rfl⟩, ?_⟩, ⟨⟨⟨rfl, by decide⟩, rfl⟩, ?_⟩, ⟨⟨?_, rfl⟩, trivial⟩,
      ⟨⟨?_, rfl⟩, trivial⟩, ⟨⟨?_, rfl⟩, trivial⟩, ⟨⟨trivial, rfl⟩, ?_⟩,
      ⟨⟨⟨rfl, by decide⟩, rfl⟩, ?_⟩, ⟨⟨trivial, rfl⟩, ?_⟩, trivial⟩
    · exact ⟨by simp [start], by decide⟩
    · exact ⟨by simp [start, Flight.call], by decide⟩
    · exact show 700 ≤ MAX_ENCODED_FRAME by decide
    · exact show 500 ≤ MAX_ENCODED_FRAME by decide
    · exact show 1 ≤ MAX_ENCODED_FRAME by decide
    · exact show 110 ≤ 120 by decide
    · exact ⟨by simp [start, Flight.call], show 120 ≤ 130 by decide⟩
    · exact show 130 ≤ 140 by decide
  exact (LTS.Reachable.init rfl).of_run hrun

/-- The first frame and the third are in flight, the size of the third not known yet; and the
second is not acknowledged twice. -/
theorem accounting_of_flying :
    flying.window.frames.map (fun frame => (frame.sequence, frame.submitted)) =
        [(7, 100), (9, 130)] ∧
      flying.window.bytes = 500 ∧ flying.window.oldestMs 150 = 50 ∧
      (flying.window.acknowledge 9 150).2 = some 20 ∧
      flying.window.acknowledge 8 150 = (flying.window, none) := by
  obtain ⟨-, hframes, hbytes, -, -, hanswers, -, holdest⟩ := flight_accounting reachable_flying
  have hpending : flying.pending = [(7, 100), (9, 130)] := rfl
  rw [hpending] at hframes
  obtain ⟨-, hnone⟩ := hanswers 8 150 (by decide)
  refine ⟨hframes, hbytes.trans rfl, ?_, (hanswers 9 150 (by decide)).1 130 ?_ |>.2,
    hnone (by simp [hpending])⟩
  · obtain ⟨hall, -, hsome⟩ := holdest 150 (by decide)
    have hfirst := hall (7, 100) (by simp [hpending])
    obtain ⟨x, hx, heq⟩ := hsome (by simp [hpending])
    rw [hpending] at hx
    rcases List.mem_cons.mp hx with rfl | hx
    · exact heq
    · obtain rfl := List.mem_singleton.mp hx
      omega
  · simp [hpending]

end OutOfOrder

/-! ## Buffering in the encoder

The window is asked before a frame is submitted, when the sizes of the frames still in the
encoder are not known. -/

namespace FlightWindow

/-- All frames but one fit a budget: the bytes exceed it by no more than the size of one. -/
def WithinOne (window : FlightWindow) (budget : ℕ) : Prop :=
  window.bytes ≤ budget ∨ ∃ frame ∈ window.frames, window.bytes ≤ budget + frame.size

/-- The size of every frame in flight is known: none is still in the encoder, where its size
counts as nothing. -/
def Known (window : FlightWindow) : Prop := ∀ frame ∈ window.frames, frame.size ≠ 0

/-- The sizes of all frames but the newest are known, and fit the budget. -/
def Settled (window : FlightWindow) (budget : ℕ) : Prop :=
  ∀ older newest, window.frames = older ++ [newest] →
    (∀ frame ∈ older, frame.size ≠ 0) ∧ reported older ≤ budget

variable {window : FlightWindow} {budget : ℕ}

theorem Settled.withinOne (h : window.Settled budget) (hsound : window.Sound) :
    window.WithinOne budget := by
  rw [WithinOne, hsound.bytes]
  rcases List.eq_nil_or_concat' window.frames with hnil | ⟨older, newest, hframes⟩
  · rw [hnil]
    exact .inl (Nat.zero_le _)
  · refine .inr ⟨newest, by simp [hframes], ?_⟩
    obtain ⟨-, hfits⟩ := h older newest hframes
    simp only [hframes, reported_append, reported_cons, reported_nil]
    omega

/-- A frame submitted when all sizes are known is the newest. -/
theorem settled_submit (hsound : window.Sound) (hknown : window.Known) {now bitrate : ℕ}
    (hcan : window.canSubmit now bitrate = true) (sequence : ℕ) :
    (window.submit sequence now).Settled (flightBudget bitrate) := by
  intro older newest hframes
  obtain ⟨rfl, -⟩ := List.append_inj' (hframes : window.frames ++ [_] = _) rfl
  simp only [canSubmit, decide_eq_true_eq] at hcan
  exact ⟨hknown, hsound.bytes ▸ hcan.2.1.le⟩

/-- A report of a size that was not known, or was no smaller, is about the newest frame or makes
the others no larger. -/
theorem Settled.encoded (h : window.Settled budget) (hsound : window.Sound) {sequence bytes : ℕ}
    (hbytes : bytes ≤ MAX_ENCODED_FRAME)
    (honce : ∀ before frame after, locate sequence window.frames = some (before, frame, after) →
      frame.size ≠ 0 → bytes ≠ 0 ∧ bytes ≤ frame.size) :
    (window.encoded sequence bytes).Settled budget := by
  rcases hlocate : locate sequence window.frames with _ | ⟨before, frame, after⟩
  · simpa only [FlightWindow.encoded, hlocate] using h
  · obtain ⟨hframes, -, -⟩ := locate_eq_some hlocate
    rw [hsound.encoded_some hbytes hlocate]
    rintro older newest hsplit
    rcases List.eq_nil_or_concat' after with rfl | ⟨after, last, rfl⟩
    · obtain ⟨rfl, -⟩ := List.append_inj' hsplit rfl
      exact h before frame hframes
    · rw [← List.cons_append, ← List.append_assoc] at hsplit hframes
      obtain ⟨rfl, -⟩ := List.append_inj' hsplit rfl
      obtain ⟨hknown, hfits⟩ := h _ last hframes
      obtain ⟨hbytes, hle⟩ := honce _ _ _ hlocate (hknown frame (by simp))
      refine ⟨fun f hf => ?_, ?_⟩
      · rcases List.mem_append.mp hf with hbefore | hrest
        · exact hknown f (List.mem_append_left _ hbefore)
        · rcases List.mem_cons.mp hrest with rfl | hafter
          · exact hbytes
          · exact hknown f (List.mem_append_right _ (List.mem_cons_of_mem _ hafter))
      · simp only [reported_append, reported_cons] at hfits ⊢
        omega

/-- An acknowledgement takes out the newest frame, or one of the others. -/
theorem Settled.acknowledge (h : window.Settled budget) (hsound : window.Sound)
    (sequence now : ℕ) : (window.acknowledge sequence now).1.Settled budget := by
  rcases hlocate : locate sequence window.frames with _ | ⟨before, frame, after⟩
  · simpa only [FlightWindow.acknowledge, hlocate] using h
  · obtain ⟨hframes, -, -⟩ := locate_eq_some hlocate
    rw [hsound.acknowledge_some hlocate]
    rintro older newest hsplit
    rcases List.eq_nil_or_concat' after with rfl | ⟨after, last, rfl⟩
    · obtain ⟨hknown, hfits⟩ := h before frame hframes
      rw [List.append_nil] at hsplit
      obtain rfl : before = older ++ [newest] := hsplit
      refine ⟨fun f hf => hknown f (List.mem_append_left _ hf), ?_⟩
      rw [reported_append] at hfits
      omega
    · rw [← List.cons_append, ← List.append_assoc] at hframes
      rw [← List.append_assoc] at hsplit
      obtain ⟨rfl, -⟩ := List.append_inj' hsplit rfl
      obtain ⟨hknown, hfits⟩ := h _ last hframes
      refine ⟨fun f hf => hknown f ?_, ?_⟩
      · rcases List.mem_append.mp hf with hbefore | hafter
        · exact List.mem_append_left _ hbefore
        · exact List.mem_append_right _ (List.mem_cons_of_mem _ hafter)
      · simp only [reported_append, reported_cons] at hfits ⊢
        omega

/-- A frame is located where it is, if no frame before it has its number. -/
theorem locate_append {before after : List InFlight} (frame : InFlight)
    (hbefore : ∀ f ∈ before, f.sequence ≠ frame.sequence) :
    locate frame.sequence (before ++ frame :: after) = some (before, frame, after) := by
  induction before with
  | nil => simp [locate]
  | cons first before ih =>
    rw [List.cons_append, locate, if_neg (hbefore first (List.mem_cons_self ..)),
      ih fun f hf => hbefore f (List.mem_cons_of_mem _ hf)]
    rfl

end FlightWindow

namespace Flight

open FlightWindow

variable {bitrate : ℕ} {s s' : Flight} {call : FlightCall} {run : List (FlightCall × Flight)}

/-- Frames are submitted only when no other is in the encoder, and the encoder reports each size
once: a size that is known is not reported again as larger. -/
def Prudent (s : Flight) : FlightCall → Prop
  | .submit _ _ _ => s.window.Known
  | .encoded sequence bytes => ∀ before frame after,
      locate sequence s.window.frames = some (before, frame, after) → frame.size ≠ 0 →
        bytes ≠ 0 ∧ bytes ≤ frame.size
  | .acknowledge _ _ => True

/-- The encoder reports the size of a frame that is in it. -/
def Reports (s : Flight) : FlightCall → Prop
  | .encoded sequence _ => ∃ before frame after,
      locate sequence s.window.frames = some (before, frame, after) ∧ frame.size = 0
  | .submit _ _ _ | .acknowledge _ _ => False

theorem Reports.prudent (h : s.Reports call) : s.Prudent call := by
  cases call with
  | submit sequence now bitrate => exact h.elim
  | encoded sequence bytes =>
    obtain ⟨before, frame, after, hlocate, hzero⟩ := h
    rintro _ _ _ hlocate' hsize
    rw [hlocate] at hlocate'
    cases hlocate'
    exact absurd hzero hsize
  | acknowledge sequence now => trivial

/-- **What a prudent call keeps.** -/
theorem settled_call (hsound : s.window.Sound)
    (hsettled : s.window.Settled (flightBudget bitrate)) (hallowed : s.Allowed (· = bitrate) call)
    (hprudent : s.Prudent call) : (s.call call).window.Settled (flightBudget bitrate) := by
  cases call with
  | submit sequence now rate =>
    obtain ⟨rfl, hcan⟩ := hallowed
    exact settled_submit hsound hprudent hcan sequence
  | encoded sequence bytes => exact hsettled.encoded hsound hallowed hprudent
  | acknowledge sequence now => exact hsettled.acknowledge hsound sequence now

/-- A run of prudent calls stays within the budget and one frame. -/
theorem withinOne_of_prudent (hsound : s.window.Sound)
    (hsettled : s.window.Settled (flightBudget bitrate))
    (hrun : (flightSystem (· = bitrate)).IsRun s run)
    (hprudent : LTS.Meets (fun s call => s.Prudent call) s run) :
    LTS.Keeps (fun s => s.window.WithinOne (flightBudget bitrate)) s run := by
  have hkeeps : LTS.Keeps
      (fun s => s.window.Sound ∧ s.window.Settled (flightBudget bitrate)) s run := by
    refine LTS.keeps_of_meets ?_ ⟨hsound, hsettled⟩ hrun hprudent
    rintro s call s' ⟨hsound, hsettled⟩ ⟨hallowed, rfl⟩ hprudent
    exact ⟨sound_call hsound hallowed, settled_call hsound hsettled hallowed hprudent⟩
  exact hkeeps.mono fun s ⟨hsound, hsettled⟩ => hsettled.withinOne hsound

/-- A frame submitted while another is in the encoder may take the bytes too far: both may be as
large as a frame can be. -/
theorem not_withinOne {sequence now : ℕ} (h : s.Accounted)
    (hcan : s.window.canSubmit now bitrate = true)
    (horderly : s.Orderly (.submit sequence now bitrate)) (hunknown : ¬s.window.Known) :
    ∃ run, (flightSystem (· = bitrate)).IsRun (s.call (.submit sequence now bitrate)) run ∧
      LTS.Meets (fun s call => s.Reports call) (s.call (.submit sequence now bitrate)) run ∧
      ¬LTS.Keeps (fun s => s.window.WithinOne (flightBudget bitrate))
        (s.call (.submit sequence now bitrate)) run := by
  simp only [Known, not_forall, not_not] at hunknown
  obtain ⟨frame, hframe, hzero⟩ := hunknown
  obtain ⟨before, after, hframes⟩ := List.append_of_mem hframe
  -- numbers are used once
  have hdistinct := h.distinct_frames
  rw [hframes, List.map_append, List.map_cons, List.nodup_append] at hdistinct
  have hbefore : ∀ f ∈ before, f.sequence ≠ frame.sequence := fun f hf =>
    hdistinct.2.2 _ (List.mem_map_of_mem hf) _ (List.mem_cons_self ..)
  have hnew : ∀ f ∈ s.window.frames, f.sequence ≠ sequence := by
    intro f hf
    rw [h.frames] at hf
    obtain ⟨x, hx, rfl⟩ := List.mem_map.mp hf
    exact horderly.1 x (mem_pending.mp hx).1
  have hsound : (s.call (.submit sequence now bitrate)).window.Sound := h.sound.submit hcan
  -- the older frame is reported
  have hlocate : locate frame.sequence (s.call (.submit sequence now bitrate)).window.frames =
      some (before, frame, after ++ [⟨sequence, now, 0⟩]) := by
    have hsplit : (s.call (.submit sequence now bitrate)).window.frames =
        before ++ frame :: (after ++ [⟨sequence, now, 0⟩]) := by
      simp [Flight.call, FlightWindow.submit, hframes]
    rw [hsplit]
    exact locate_append frame hbefore
  have hfirst := hsound.encoded_some (le_refl MAX_ENCODED_FRAME) hlocate
  have hsound' : ((s.call (.submit sequence now bitrate)).window.encoded frame.sequence
      MAX_ENCODED_FRAME).Sound := hsound.encoded le_rfl
  -- then the new one
  have hlocate' : locate sequence ((s.call (.submit sequence now bitrate)).window.encoded
      frame.sequence MAX_ENCODED_FRAME).frames =
      some (before ++ { frame with size := MAX_ENCODED_FRAME } :: after, ⟨sequence, now, 0⟩,
        []) := by
    have hsplit : ((s.call (.submit sequence now bitrate)).window.encoded frame.sequence
        MAX_ENCODED_FRAME).frames = (before ++ { frame with size := MAX_ENCODED_FRAME } :: after) ++
          (⟨sequence, now, 0⟩ : InFlight) :: [] := by simp [hfirst]
    rw [hsplit]
    refine locate_append ⟨sequence, now, 0⟩ fun f hf => ?_
    rcases List.mem_append.mp hf with hbefore' | hrest
    · exact hnew f (hframes ▸ List.mem_append_left _ hbefore')
    · rcases List.mem_cons.mp hrest with rfl | hafter
      · exact hnew frame hframe
      · exact hnew f (hframes ▸ List.mem_append_right _ (List.mem_cons_of_mem _ hafter))
  have hsecond := hsound'.encoded_some (le_refl MAX_ENCODED_FRAME) hlocate'
  have hsound'' : (((s.call (.submit sequence now bitrate)).window.encoded frame.sequence
      MAX_ENCODED_FRAME).encoded sequence MAX_ENCODED_FRAME).Sound := hsound'.encoded le_rfl
  refine ⟨(s.call (.submit sequence now bitrate)).states
    [.encoded frame.sequence MAX_ENCODED_FRAME, .encoded sequence MAX_ENCODED_FRAME],
    ⟨⟨le_refl MAX_ENCODED_FRAME, rfl⟩, ⟨le_refl MAX_ENCODED_FRAME, rfl⟩, trivial⟩,
    ⟨⟨_, _, _, hlocate, hzero⟩, ⟨_, _, _, hlocate', rfl⟩, trivial⟩, fun hkeeps => ?_⟩
  have hlast : (((s.call (.submit sequence now bitrate)).window.encoded frame.sequence
      MAX_ENCODED_FRAME).encoded sequence MAX_ENCODED_FRAME).WithinOne (flightBudget bitrate) :=
    hkeeps.last
  have hbytes : 2 * MAX_ENCODED_FRAME ≤ (((s.call (.submit sequence now bitrate)).window.encoded
      frame.sequence MAX_ENCODED_FRAME).encoded sequence MAX_ENCODED_FRAME).bytes := by
    rw [hsecond]
    simp only [reported_append, reported_cons, reported_nil]
    omega
  have hbudget : flightBudget bitrate < MAX_ENCODED_FRAME :=
    (min_le_right _ _).trans_lt (by decide)
  rcases hlast with hfits | ⟨f, hf, hfits⟩
  · omega
  · have hsize := hsound''.sizes f hf
    omega

end Flight

/-- **Buffering and the budget.** At a constant bitrate, a run in which frames are submitted only
when the window allows it and no other frame is in the encoder, and each size is reported once,
keeps the bytes in flight within the budget and the size of one frame. And no less will do: where
calls have been prudent so far, a submission that the window allows keeps the bytes so whatever the
encoder goes on to report exactly if no other frame is in the encoder. -/
theorem driver_buffering_iff (bitrate : ℕ) :
    (∀ s run, (flightSystem (· = bitrate)).init s → (flightSystem (· = bitrate)).IsRun s run →
      LTS.Meets (fun s call => s.Prudent call) s run →
        LTS.Keeps (fun s => s.window.WithinOne (flightBudget bitrate)) s run) ∧
    ∀ s sequence now, ((flightSystem (· = bitrate)).guarded fun s call =>
        s.Orderly call ∧ s.Prudent call).Reachable s →
      s.window.canSubmit now bitrate = true → s.Orderly (.submit sequence now bitrate) →
      (s.window.Known ↔ ∀ run,
        (flightSystem (· = bitrate)).IsRun (s.call (.submit sequence now bitrate)) run →
        LTS.Meets (fun s call => s.Reports call) (s.call (.submit sequence now bitrate)) run →
        LTS.Keeps (fun s => s.window.WithinOne (flightBudget bitrate))
          (s.call (.submit sequence now bitrate)) run) := by
  refine ⟨fun s run hinit hrun hprudent => ?_, fun s sequence now hreach hcan horderly => ?_⟩
  · refine Flight.withinOne_of_prudent (Flight.sound_of_reachable (.init hinit)) ?_ hrun hprudent
    obtain rfl : s = _ := hinit
    intro older newest hframes
    have hlength := congrArg List.length hframes
    simp [FlightWindow.default] at hlength
  · have horderly' : ((flightSystem (· = bitrate)).guarded fun s call => s.Orderly call).Reachable
        (id s) := by
      apply hreach.simulate (N := (flightSystem (· = bitrate)).guarded fun s call => s.Orderly call)
      · exact fun _ h => h
      · exact fun s call t _ hstep => .inr ⟨call, hstep.1, hstep.2.1⟩
    have haccounted : s.Accounted := Flight.accounted_of_reachable horderly'
    constructor
    · intro hknown run hrun hreports
      refine Flight.withinOne_of_prudent (haccounted.sound.submit hcan)
        (FlightWindow.settled_submit haccounted.sound hknown hcan sequence) hrun ?_
      exact hreports.mono fun _ _ h => Flight.Reports.prudent h
    · intro hkeeps
      by_contra hunknown
      obtain ⟨run, hrun, hreports, hnot⟩ :=
        Flight.not_withinOne haccounted hcan horderly hunknown
      exact hnot (hkeeps run hrun hreports)

namespace TwoInEncoder

open OutOfOrder

def size : ℕ := MAX_ENCODED_FRAME

/-- Two frames are submitted before the encoder reports the first. -/
def calls : List FlightCall :=
  [.submit 1 0 1800000, .submit 2 10 1800000, .encoded 1 size, .encoded 2 size]

theorem isRun : (flightSystem (· = 1800000)).IsRun start (start.states calls) :=
  ⟨⟨⟨rfl, by decide⟩, rfl⟩, ⟨⟨rfl, by decide⟩, rfl⟩, ⟨Nat.le_refl size, rfl⟩,
    ⟨Nat.le_refl size, rfl⟩, trivial⟩

/-- Then the bytes in flight exceed the budget by more than any one frame has. -/
theorem over_budget : ∃ s : Flight, (flightSystem (· = 1800000)).Reachable s ∧
    flightBudget 1800000 + MAX_ENCODED_FRAME < s.window.bytes ∧
    ∀ frame ∈ s.window.frames, flightBudget 1800000 + frame.size < s.window.bytes :=
  ⟨LTS.last start (start.states calls), (LTS.Reachable.init rfl).of_run isRun, by decide,
    by decide⟩

/-- Each frame is submitted when the size of the one before it is known. -/
def inTurn : List FlightCall :=
  [.submit 1 0 1800000, .encoded 1 40000, .submit 2 10 1800000, .encoded 2 size,
    .acknowledge 1 20, .acknowledge 2 30]

theorem prudent_inTurn :
    LTS.Meets (fun s call => s.Prudent call) start (start.states inTurn) := by
  refine ⟨?_, ?_, ?_, ?_, trivial, trivial, trivial⟩
  · exact fun frame hmem => absurd hmem List.not_mem_nil
  · intro before frame after hlocate hsize
    obtain ⟨rfl, rfl, rfl⟩ : [] = before ∧ ⟨1, 0, 0⟩ = frame ∧ [] = after := by
      simpa [FlightWindow.locate, start, Flight.call, FlightWindow.submit,
        FlightWindow.default] using hlocate
    exact absurd rfl hsize
  · exact show ∀ frame ∈ [(⟨1, 0, 40000⟩ : InFlight)], frame.size ≠ 0 by decide
  · intro before frame after hlocate hsize
    have hsome : some ([(⟨1, 0, 40000⟩ : InFlight)], (⟨2, 10, 0⟩ : InFlight), []) =
        some (before, frame, after) := hlocate
    cases hsome
    exact absurd rfl hsize

/-- In turn they stay within the budget and one frame; a second one submitted at once need not. -/
theorem in_turn_or_not :
    LTS.Keeps (fun s => s.window.WithinOne (flightBudget 1800000)) start (start.states inTurn) ∧
    ¬∀ run, (flightSystem (· = 1800000)).IsRun
        ((start.call (.submit 1 0 1800000)).call (.submit 2 10 1800000)) run →
      LTS.Meets (fun s call => s.Reports call)
        ((start.call (.submit 1 0 1800000)).call (.submit 2 10 1800000)) run →
      LTS.Keeps (fun s => s.window.WithinOne (flightBudget 1800000))
        ((start.call (.submit 1 0 1800000)).call (.submit 2 10 1800000)) run := by
  obtain ⟨hkeeps, hexact⟩ := driver_buffering_iff 1800000
  refine ⟨hkeeps _ _ rfl ?_ prudent_inTurn, ?_⟩
  · exact ⟨⟨⟨rfl, by decide⟩, rfl⟩, ⟨show 40000 ≤ MAX_ENCODED_FRAME by decide, rfl⟩,
      ⟨⟨rfl, by decide⟩, rfl⟩, ⟨Nat.le_refl size, rfl⟩, ⟨trivial, rfl⟩, ⟨trivial, rfl⟩, trivial⟩
  · have hreach : ((flightSystem (· = 1800000)).guarded fun s call =>
        s.Orderly call ∧ s.Prudent call).Reachable (start.call (.submit 1 0 1800000)) :=
      (LTS.Reachable.init (rfl : start = _)).step (l := .submit 1 0 1800000)
        ⟨⟨⟨rfl, by decide⟩, rfl⟩, ⟨by simp [start], by decide⟩,
          fun frame hmem => absurd hmem List.not_mem_nil⟩
    have hunknown : ¬(start.call (.submit 1 0 1800000)).window.Known := by
      rw [FlightWindow.Known]
      decide
    exact (hexact _ 2 10 hreach (by decide) ⟨by simp [start, Flight.call], by decide⟩).not.mp
      hunknown

end TwoInEncoder

end SensorRemote
