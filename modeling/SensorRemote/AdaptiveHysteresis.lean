import SensorRemote.AdaptiveBounds
import SensorRemote.Lib.History

/-!
# What the controller rises on

The bitrate rises after three windows in a row that were acknowledged, uncongested and quick,
and at no other time. The frame-rate ceiling rises after five windows in a row that were faster
than it; but it rises to what the fifth of them sustains, whatever the other four did. That is
what all five sustained as long as no window that counts is lighter than the one it follows
(`LevelStreaks`).

Which windows are congested is said by what they measured (`Congests`): the controller compares
the delivery time with that of the quickest window so far (`leastDelivery`).
-/

namespace SensorRemote

namespace Adaptive

variable {adaptive : Adaptive} {f : Feedback}

theorem observeWork_congested (adaptive : Adaptive) (f : Feedback) :
    (adaptive.observeWork f).congested = adaptive.congested := by
  rw [observeWork_eq]
  split_ifs <;> rfl

theorem observeWork_bitrate (adaptive : Adaptive) (f : Feedback) :
    (adaptive.observeWork f).bitrate = adaptive.bitrate := by
  rw [observeWork_eq]
  split_ifs <;> rfl

theorem observeWork_healthy (adaptive : Adaptive) (f : Feedback) :
    (adaptive.observeWork f).healthy = adaptive.healthy := by
  rw [observeWork_eq]
  split_ifs <;> rfl

theorem observeBitrate_congested (adaptive : Adaptive) (f : Feedback) :
    (adaptive.observeBitrate f).congested = adaptive.congested := by
  simp only [observeBitrate]
  split_ifs <;> rfl

theorem observeBitrate_fpsCeiling (adaptive : Adaptive) (f : Feedback) :
    (adaptive.observeBitrate f).fpsCeiling = adaptive.fpsCeiling := by
  simp only [observeBitrate]
  split_ifs <;> rfl

theorem observeBitrate_fasterWindows (adaptive : Adaptive) (f : Feedback) :
    (adaptive.observeBitrate f).fasterWindows = adaptive.fasterWindows := by
  simp only [observeBitrate]
  split_ifs <;> rfl

theorem observe_congested (adaptive : Adaptive) (f : Feedback) :
    (adaptive.observe f).congested = (adaptive.observeLatency f).congested := by
  rw [observe, observeBitrate_congested, observeWork_congested]

/-! ### Congestion -/

/-- The least delivery time of acknowledged windows, as far as they measured one. -/
def leastDelivery (windows : List Feedback) : ℕ :=
  ((windows.filter fun f => f.acknowledged ≠ 0 ∧ f.deliveryMs ≠ 0).map (·.deliveryMs)).foldl min
    u64Max

theorem leastDelivery_concat (windows : List Feedback) (f : Feedback) :
    leastDelivery (windows ++ [f]) =
      if f.acknowledged ≠ 0 ∧ f.deliveryMs ≠ 0 then min (leastDelivery windows) f.deliveryMs
      else leastDelivery windows := by
  rw [leastDelivery, List.filter_append, List.map_append, List.foldl_append]
  split_ifs with h
  · rw [List.filter_cons_of_pos (by simpa using h)]
    rfl
  · rw [List.filter_cons_of_neg (by simpa using h)]
    rfl

theorem observe_baseline (adaptive : Adaptive) (f : Feedback) :
    (adaptive.observe f).baseline =
      if f.acknowledged ≠ 0 ∧ f.deliveryMs ≠ 0 then min adaptive.baseline f.deliveryMs
      else adaptive.baseline := by
  have hwork : ((adaptive.observeLatency f).observeWork f).baseline =
      (adaptive.observeLatency f).baseline := by
    rw [observeWork_eq]
    split_ifs <;> rfl
  have hbitrate : (adaptive.observe f).baseline =
      ((adaptive.observeLatency f).observeWork f).baseline := by
    simp only [observe, observeBitrate]
    split_ifs <;> rfl
  rw [hbitrate, hwork]
  rfl

/-- What the controller measures delivery against. -/
theorem after_baseline (ceiling : ℕ) (windows : List Feedback) :
    (after ceiling windows).baseline = leastDelivery windows := by
  induction windows using List.reverseRecOn with
  | nil => rfl
  | append_singleton windows f ih => rw [after_concat, observe_baseline, ih, leastDelivery_concat]

/-- The criterion for congestion, in what the windows measured: the link was saturated, a write
stalled for more than 80 ms, or delivery took more than 200 ms, and more than 600 ms or than 120 ms
longer than in the quickest window. -/
def Congests (windows : List Feedback) (f : Feedback) : Prop :=
  f.saturated = true ∨ 80 < f.writeStallMs ∨
    200 < f.deliveryMs ∧ min (leastDelivery (windows ++ [f]) + 120) 600 < f.deliveryMs

instance (windows : List Feedback) (f : Feedback) : Decidable (Congests windows f) :=
  inferInstanceAs (Decidable (_ ∨ _ ∨ _ ∧ _))

theorem congested_iff (ceiling : ℕ) (windows : List Feedback) (f : Feedback) :
    ((after ceiling windows).observe f).congested = true ↔ Congests windows f := by
  have hbaseline : ((after ceiling windows).observeLatency f).baseline =
      leastDelivery (windows ++ [f]) := by
    rw [leastDelivery_concat, ← after_baseline ceiling windows]
    rfl
  have hlimit : min (min (leastDelivery (windows ++ [f]) + 120) u64Max) 600 =
      min (leastDelivery (windows ++ [f]) + 120) 600 := by
    have hwide : 600 ≤ u64Max := by decide
    omega
  rw [observe_congested, Congests, ← hlimit, ← hbaseline]
  simp [observeLatency, or_assoc, and_comm]

theorem uncongested_iff (ceiling : ℕ) (windows : List Feedback) (f : Feedback) :
    ((after ceiling windows).observe f).congested = false ↔ ¬Congests windows f := by
  rw [← congested_iff ceiling windows f, Bool.not_eq_true]

/-! ### The bitrate -/

/-- A window that counts as healthy: acknowledged, with a quick round trip, and found
uncongested. -/
structure Healthy (adaptive : Adaptive) (f : Feedback) : Prop where
  acknowledged : f.acknowledged ≠ 0
  quick : f.rttMs < 600
  uncongested : (adaptive.observe f).congested = false

/-- What a window does to the bitrate and to the count of healthy windows. -/
theorem observe_bitrate_cases (adaptive : Adaptive) (f : Feedback) :
    ((adaptive.observe f).congested = true ∧
      (adaptive.observe f).bitrate =
        min (max (adaptive.bitrate * 65 / 100) MIN_BITRATE) adaptive.ceiling ∧
      (adaptive.observe f).healthy = 0) ∨
    (adaptive.Healthy f ∧
      (adaptive.healthy + 1 < 3 ∧ (adaptive.observe f).bitrate = adaptive.bitrate ∧
          (adaptive.observe f).healthy = adaptive.healthy + 1 ∨
        3 ≤ adaptive.healthy + 1 ∧ (adaptive.observe f).bitrate =
          min (adaptive.bitrate + max (adaptive.bitrate / 5) 100000) adaptive.ceiling ∧
          (adaptive.observe f).healthy = 0)) ∨
    ((adaptive.observe f).congested = false ∧ ¬adaptive.Healthy f ∧
      (adaptive.observe f).bitrate = adaptive.bitrate ∧ (adaptive.observe f).healthy = 0) := by
  have hbitrate : ((adaptive.observeLatency f).observeWork f).bitrate = adaptive.bitrate :=
    observeWork_bitrate _ f
  have hceiling : ((adaptive.observeLatency f).observeWork f).ceiling = adaptive.ceiling :=
    observeWork_ceiling _ f
  have hhealthy : ((adaptive.observeLatency f).observeWork f).healthy = adaptive.healthy :=
    observeWork_healthy _ f
  have hcongested : (adaptive.observe f).congested =
      ((adaptive.observeLatency f).observeWork f).congested := observeBitrate_congested _ f
  rcases observeBitrate_cases ((adaptive.observeLatency f).observeWork f) f with
    ⟨hbusy, heq⟩ | ⟨hquiet, hacknowledged, hquick, ⟨hfew, heq⟩ | ⟨hthree, heq⟩⟩ |
    ⟨hquiet, hnot, heq⟩
  · refine .inl ⟨hcongested.trans hbusy, ?_, ?_⟩ <;> rw [observe, heq]
    rw [hbitrate, hceiling]
  · rw [hhealthy] at hfew
    refine .inr (.inl ⟨⟨hacknowledged, hquick, hcongested.trans hquiet⟩, .inl ⟨hfew, ?_, ?_⟩⟩) <;>
      rw [observe, heq]
    · exact hbitrate
    · rw [hhealthy]
  · rw [hhealthy] at hthree
    refine .inr (.inl ⟨⟨hacknowledged, hquick, hcongested.trans hquiet⟩, .inr ⟨hthree, ?_, ?_⟩⟩) <;>
      rw [observe, heq]
    rw [hbitrate, hceiling]
  · refine .inr (.inr ⟨hcongested.trans hquiet,
      fun h => hnot ⟨h.acknowledged, h.quick⟩, ?_, ?_⟩) <;>
      rw [observe, heq]
    exact hbitrate

/-- The count of healthy windows counts windows in a row that were healthy and left the bitrate
alone. -/
theorem healthy_streak (ceiling : ℕ) (windows : List Feedback) :
    Streak observe (new ceiling)
      (fun before g => before.Healthy g ∧ (before.observe g).bitrate = before.bitrate)
      (after ceiling windows).healthy windows := by
  refine Streak.of_counter healthy rfl ?_ windows
  intro before g
  rcases observe_bitrate_cases before g with
    ⟨-, -, hcleared⟩ | ⟨hhealthy, ⟨-, hsame, hcounted⟩ | ⟨-, -, hcleared⟩⟩ | ⟨-, -, -, hcleared⟩
  · exact .inl hcleared
  · exact .inr ⟨hcounted, hhealthy, hsame⟩
  · exact .inl hcleared
  · exact .inl hcleared

/-- A bitrate that rises does so in a healthy window, with two counted before it. -/
theorem Sound.two_counted (h : adaptive.Sound)
    (hrise : adaptive.bitrate < (adaptive.observe f).bitrate) :
    adaptive.Healthy f ∧ adaptive.healthy = 2 := by
  have hcount := h.healthy
  rcases observe_bitrate_cases adaptive f with
    ⟨-, hlowered, -⟩ | ⟨hhealthy, ⟨-, hsame, -⟩ | ⟨hthree, -, -⟩⟩ | ⟨-, -, hsame, -⟩
  · have hmin := h.minBitrate
    omega
  · omega
  · exact ⟨hhealthy, by omega⟩
  · omega

theorem Sound.lowered (h : adaptive.Sound) (hcongested : (adaptive.observe f).congested = true) :
    (adaptive.observe f).bitrate = max (adaptive.bitrate * 65 / 100) MIN_BITRATE := by
  have hmin := h.minBitrate
  have hmax := h.maxBitrate
  rcases observe_bitrate_cases adaptive f with
    ⟨-, hlowered, -⟩ | ⟨hhealthy, -⟩ | ⟨huncongested, -⟩
  · rw [hlowered]
    omega
  · rw [hhealthy.uncongested] at hcongested
    contradiction
  · rw [huncongested] at hcongested
    contradiction

theorem Sound.rise_le (h : adaptive.Sound) (f : Feedback) :
    (adaptive.observe f).bitrate ≤ adaptive.bitrate + max (adaptive.bitrate / 5) 100000 := by
  have hmin := h.minBitrate
  rcases observe_bitrate_cases adaptive f with
    ⟨-, hlowered, -⟩ | ⟨-, ⟨-, hsame, -⟩ | ⟨-, hraised, -⟩⟩ | ⟨-, -, hsame, -⟩ <;> omega

/-! ### The frame-rate ceiling -/

/-- A window that counts towards raising the frame-rate ceiling: acknowledged, found
uncongested, and sustaining a higher tier. -/
structure Faster (adaptive : Adaptive) (f : Feedback) : Prop where
  acknowledged : f.acknowledged ≠ 0
  uncongested : (adaptive.observe f).congested = false
  higher : adaptive.fpsCeiling < workTier f

/-- What a window does to the frame-rate ceiling and to the count of faster windows. -/
theorem observe_fpsCeiling_cases (adaptive : Adaptive) (f : Feedback) :
    (workTier f < adaptive.fpsCeiling ∧ (adaptive.observe f).fpsCeiling = workTier f ∧
      (adaptive.observe f).fasterWindows = 0) ∨
    (adaptive.Faster f ∧
      (adaptive.fasterWindows + 1 < 5 ∧ (adaptive.observe f).fpsCeiling = adaptive.fpsCeiling ∧
          (adaptive.observe f).fasterWindows = adaptive.fasterWindows + 1 ∨
        5 ≤ adaptive.fasterWindows + 1 ∧ (adaptive.observe f).fpsCeiling = workTier f ∧
          (adaptive.observe f).fasterWindows = 0)) ∨
    (adaptive.fpsCeiling ≤ workTier f ∧ ¬adaptive.Faster f ∧
      (adaptive.observe f).fpsCeiling = adaptive.fpsCeiling ∧
      (adaptive.observe f).fasterWindows = 0) := by
  have hcongested := observe_congested adaptive f
  have hfps : (adaptive.observe f).fpsCeiling =
      ((adaptive.observeLatency f).observeWork f).fpsCeiling := observeBitrate_fpsCeiling _ f
  have hcount : (adaptive.observe f).fasterWindows =
      ((adaptive.observeLatency f).observeWork f).fasterWindows := observeBitrate_fasterWindows _ f
  rcases observeWork_cases (adaptive.observeLatency f) f with
    ⟨hlower, heq⟩ | ⟨hhigher, hacknowledged, hquiet, ⟨hfew, heq⟩ | ⟨hfive, heq⟩⟩ |
    ⟨hnot, hslower, heq⟩ <;> rw [heq] at hfps hcount
  · exact .inl ⟨hlower, hfps, hcount⟩
  · exact .inr (.inl ⟨⟨hacknowledged, hcongested.trans hquiet, hhigher⟩, .inl ⟨hfew, hfps, hcount⟩⟩)
  · exact .inr
      (.inl ⟨⟨hacknowledged, hcongested.trans hquiet, hhigher⟩, .inr ⟨hfive, hfps, hcount⟩⟩)
  · refine .inr (.inr ⟨hnot, ?_, hfps, hcount⟩)
    intro h
    exact hslower ⟨h.higher, h.acknowledged, hcongested.symm.trans h.uncongested⟩

/-- The count of faster windows counts windows in a row that were faster. -/
theorem faster_streak (ceiling : ℕ) (windows : List Feedback) :
    Streak observe (new ceiling) Faster (after ceiling windows).fasterWindows windows := by
  refine Streak.of_counter fasterWindows rfl ?_ windows
  intro before g
  rcases observe_fpsCeiling_cases before g with
    ⟨-, -, hcleared⟩ | ⟨hfaster, ⟨-, -, hcounted⟩ | ⟨-, -, hcleared⟩⟩ | ⟨-, -, -, hcleared⟩
  · exact .inl hcleared
  · exact .inr ⟨hcounted, hfaster⟩
  · exact .inl hcleared
  · exact .inl hcleared

/-- A frame-rate ceiling that rises does so in a faster window, with four counted before it,
and to that window's tier. -/
theorem Sound.four_counted (h : adaptive.Sound)
    (hrise : adaptive.fpsCeiling < (adaptive.observe f).fpsCeiling) :
    adaptive.Faster f ∧ adaptive.fasterWindows = 4
      ∧ (adaptive.observe f).fpsCeiling = workTier f := by
  have hcount := h.fasterWindows
  rcases observe_fpsCeiling_cases adaptive f with
    ⟨hlower, hfps, -⟩ | ⟨hfaster, ⟨-, hsame, -⟩ | ⟨hfive, hfps, -⟩⟩ | ⟨-, -, hsame, -⟩
  · omega
  · omega
  · exact ⟨hfaster, by omega, hfps⟩
  · omega

/-- A fifth faster window raises the ceiling. -/
theorem raises (hfaster : adaptive.Faster f) (hfour : adaptive.fasterWindows = 4) :
    (adaptive.observe f).fpsCeiling = workTier f := by
  rcases observe_fpsCeiling_cases adaptive f with
    ⟨-, hfps, -⟩ | ⟨-, ⟨hfew, -, -⟩ | ⟨-, hfps, -⟩⟩ | ⟨-, hnot, -, -⟩
  · exact hfps
  · omega
  · exact hfps
  · exact absurd hfaster hnot

end Adaptive

open Adaptive

/-- A window that was acknowledged, with a quick round trip and without congestion, after others. -/
def HealthyWindow (windows : List Feedback) (f : Feedback) : Prop :=
  f.acknowledged ≠ 0 ∧ f.rttMs < 600 ∧ ¬Congests windows f

theorem Adaptive.Healthy.window {ceiling : ℕ} {windows : List Feedback} {f : Feedback}
    (h : (after ceiling windows).Healthy f) : HealthyWindow windows f :=
  ⟨h.acknowledged, h.quick, (uncongested_iff ceiling windows f).mp h.uncongested⟩

/-- The bitrate rises only in the third of three windows in a row that were healthy, the two
before it having left the bitrate alone, and by a fifth or 100 kbit/s at most; congestion takes
it down to 65 percent; and neither rises in a window without acknowledgements. -/
theorem bitrate_rises_on_evidence (ceiling : ℕ) (windows : List Feedback) (f : Feedback) :
    let before := after ceiling windows
    let now := before.observe f
    (before.bitrate < now.bitrate → ∃ earlier g h, windows = earlier ++ [g, h]
      ∧ HealthyWindow earlier g
      ∧ (after ceiling (earlier ++ [g])).bitrate = (after ceiling earlier).bitrate
      ∧ HealthyWindow (earlier ++ [g]) h
      ∧ before.bitrate = (after ceiling (earlier ++ [g])).bitrate
      ∧ HealthyWindow windows f)
    ∧ now.bitrate ≤ before.bitrate + max (before.bitrate / 5) 100000
    ∧ (now.congested = true ↔ Congests windows f)
    ∧ (now.congested = true → now.bitrate = max (before.bitrate * 65 / 100) MIN_BITRATE)
    ∧ (f.acknowledged = 0 → now.bitrate ≤ before.bitrate ∧ now.fpsCeiling ≤ before.fpsCeiling) := by
  intro before now
  have hsound : before.Sound := sound_after ceiling windows
  refine ⟨?_, hsound.rise_le f, congested_iff ceiling windows f, hsound.lowered, ?_⟩
  · intro hrise
    obtain ⟨hhealthy, htwo⟩ := hsound.two_counted hrise
    have hstreak := healthy_streak ceiling windows
    rw [show (after ceiling windows).healthy = 2 from htwo] at hstreak
    obtain ⟨earlier', h, rfl, hstreak, hlast, hsame⟩ := hstreak.exists_last
    obtain ⟨earlier, g, rfl, -, hfirst, hkept⟩ := hstreak.exists_last
    have hfirst : (after ceiling earlier).Healthy g := hfirst
    have hlast : (after ceiling (earlier ++ [g])).Healthy h := hlast
    refine ⟨earlier, g, h, by simp, hfirst.window, ?_, hlast.window, ?_, hhealthy.window⟩
    · rw [after_concat]
      exact hkept
    · simp only [before, after_concat ceiling (earlier ++ [g])]
      exact hsame
  · intro hunacknowledged
    constructor
    · by_contra hrise
      exact (hsound.two_counted (Nat.not_le.mp hrise)).1.acknowledged hunacknowledged
    · by_contra hrise
      exact (hsound.four_counted (Nat.not_le.mp hrise)).1.acknowledged hunacknowledged

namespace QuickLink

/-- An acknowledged window with this much work in every frame. -/
def window (prepareEncodeUs : ℕ) : Feedback :=
  { deliveryMs := 80
    rttMs := 70
    decodeUs := 0
    prepareEncodeUs
    writeStallMs := 0
    acknowledged := 30
    saturated := false }

/-- A window in which a write stalled. -/
def stalled : Feedback := { window 1000 with writeStallMs := 100 }

/-- The third quick window takes the bitrate up by a fifth, and a stalled one after it down. -/
theorem rises_and_falls :
    (after DEFAULT_MAX_BITRATE [window 1000, window 1000, window 1000]).bitrate = 2160000 ∧
      (after DEFAULT_MAX_BITRATE [window 1000, window 1000, window 1000, stalled]).bitrate =
        1404000 ∧
      HealthyWindow [window 1000, window 1000] (window 1000) := by
  obtain ⟨hrise, -⟩ := bitrate_rises_on_evidence DEFAULT_MAX_BITRATE [window 1000, window 1000]
    (window 1000)
  obtain ⟨-, -, hcongested, hfall, -⟩ := bitrate_rises_on_evidence DEFAULT_MAX_BITRATE
    [window 1000, window 1000, window 1000] stalled
  obtain ⟨_, _, _, -, -, -, -, -, hhealthy⟩ := hrise (by decide)
  exact ⟨by decide, (hfall (hcongested.mpr (by decide))).trans (by decide), hhealthy⟩

end QuickLink

/-! ### What the frame rate recovers to -/

/-- A ceiling raised by this window is one that each of the last five windows, acknowledged and
uncongested, sustained. -/
def RecoversSustained (ceiling : ℕ) (windows : List Feedback) (f : Feedback) : Prop :=
  let before := after ceiling windows
  let now := before.observe f
  before.fpsCeiling < now.fpsCeiling →
    Streak observe (new ceiling)
      (fun s g => g.acknowledged ≠ 0 ∧ (s.observe g).congested = false
        ∧ now.fpsCeiling ≤ workTier g)
      5 (windows ++ [f])

/-- A window after others that is acknowledged, shows no congestion and sustains more than a
ceiling. -/
def FasterWindow (windows : List Feedback) (fpsCeiling : ℕ) (f : Feedback) : Prop :=
  f.acknowledged ≠ 0 ∧ ¬Congests windows f ∧ fpsCeiling < workTier f

instance (windows : List Feedback) (fpsCeiling : ℕ) (f : Feedback) :
    Decidable (FasterWindow windows fpsCeiling f) :=
  inferInstanceAs (Decidable (_ ∧ _ ∧ _))

theorem faster_iff (ceiling : ℕ) (windows : List Feedback) (f : Feedback) :
    (after ceiling windows).Faster f ↔
      FasterWindow windows (after ceiling windows).fpsCeiling f := by
  rw [FasterWindow, ← uncongested_iff ceiling windows f]
  exact ⟨fun h => ⟨h.acknowledged, h.uncongested, h.higher⟩, fun h => ⟨h.1, h.2.1, h.2.2⟩⟩

/-- A window `f` that comes right after `g`: where it is faster than the ceiling and others have
been counted before, its work takes it to no higher tier than that of `g`. -/
def LevelWindow (ceiling : ℕ) (windows : List Feedback) (g f : Feedback) : Prop :=
  let before := after ceiling (windows ++ [g])
  before.fasterWindows ≠ 0 → FasterWindow (windows ++ [g]) before.fpsCeiling f →
    workTier f ≤ workTier g

instance (ceiling : ℕ) (windows : List Feedback) (g f : Feedback) :
    Decidable (LevelWindow ceiling windows g f) :=
  inferInstanceAs (Decidable (_ → _ → _))

/-- In a run of windows none that counts is lighter than the one it follows. -/
def LevelStreaks (ceiling : ℕ) (run : List Feedback) : Prop :=
  ∀ windows g f, windows ++ [g, f] <+: run → LevelWindow ceiling windows g f

section Levels

variable {ceiling : ℕ} {run windows : List Feedback} {f g : Feedback}

theorem LevelStreaks.of_prefix (h : LevelStreaks ceiling run) (hbegins : windows <+: run) :
    LevelStreaks ceiling windows :=
  fun earlier g f hmore => h earlier g f (hmore.trans hbegins)

/-- One more window keeps streaks level. -/
theorem LevelStreaks.concat (windows : List Feedback) (h : LevelStreaks ceiling (windows ++ [g]))
    (hlevel : LevelWindow ceiling windows g f) : LevelStreaks ceiling (windows ++ [g, f]) := by
  intro earlier g' f' hprefix
  have hsplit : windows ++ [g, f] = (windows ++ [g]) ++ [f] := by simp
  rw [hsplit, List.prefix_concat_iff] at hprefix
  rcases hprefix with heq | hprefix
  · have heq' : (earlier ++ [g']) ++ [f'] = (windows ++ [g]) ++ [f] := by simpa using heq
    obtain ⟨hbefore, hlast⟩ := List.append_inj' heq' rfl
    obtain ⟨rfl, hg⟩ := List.append_inj' hbefore rfl
    obtain rfl := List.singleton_inj.mp hlast
    obtain rfl := List.singleton_inj.mp hg
    exact hlevel
  · exact h earlier g' f' hprefix

/-- While streaks are level, the last window is the one among those counted that sustains
least. -/
theorem LevelStreaks.counted (h : LevelStreaks ceiling (windows ++ [g])) :
    Streak observe (new ceiling) (fun _ counted => workTier g ≤ workTier counted)
      (after ceiling (windows ++ [g])).fasterWindows (windows ++ [g]) := by
  induction windows using List.reverseRecOn generalizing g with
  | nil =>
    rcases observe_fpsCeiling_cases (new ceiling) g with
      ⟨-, -, hcleared⟩ | ⟨-, ⟨-, -, hcounted⟩ | ⟨-, -, hcleared⟩⟩ | ⟨-, -, -, hcleared⟩
    · rw [after_concat, after_nil, hcleared]
      exact .zero _
    · rw [after_concat, after_nil, hcounted]
      exact .succ (.zero _) le_rfl
    · rw [after_concat, after_nil, hcleared]
      exact .zero _
    · rw [after_concat, after_nil, hcleared]
      exact .zero _
  | append_singleton windows last ih =>
    have hstreak := ih (h.of_prefix (List.prefix_append _ _))
    rcases observe_fpsCeiling_cases (after ceiling (windows ++ [last])) g with
      ⟨-, -, hcleared⟩ | ⟨hfaster, ⟨-, -, hcounted⟩ | ⟨-, -, hcleared⟩⟩ | ⟨-, -, -, hcleared⟩
    · rw [after_concat, hcleared]
      exact .zero _
    · rw [after_concat, hcounted]
      refine .succ ?_ le_rfl
      -- those counted before sustain no less than the last of them, and that no less than this
      by_cases hnone : (after ceiling (windows ++ [last])).fasterWindows = 0
      · rw [hnone]
        exact .zero _
      · have hlevel : workTier g ≤ workTier last :=
          h windows last g (by simp) hnone ((faster_iff _ _ _).mp hfaster)
        exact hstreak.mono fun _ _ hle => hlevel.trans hle
    · rw [after_concat, hcleared]
      exact .zero _
    · rw [after_concat, hcleared]
      exact .zero _

/-- With level streaks the ceiling recovers only to what all five windows sustained. -/
theorem LevelStreaks.recovers (h : LevelStreaks ceiling (windows ++ [f])) :
    RecoversSustained ceiling windows f := by
  intro hrise
  obtain ⟨hfaster, hfour, hraised⟩ := (sound_after ceiling windows).four_counted hrise
  have hcounted := faster_streak ceiling windows
  rw [hfour] at hcounted
  obtain ⟨earlier, g, rfl, -, -⟩ := hcounted.exists_last
  have hleast := (h.of_prefix (List.prefix_append _ _)).counted
  have hlevel : workTier f ≤ workTier g := by
    refine h earlier g f (by simp) ?_ ((faster_iff _ _ _).mp hfaster)
    rw [hfour]
    decide
  rw [hfour] at hleast
  refine .succ ((hcounted.and hleast).mono ?_)
    ⟨hfaster.acknowledged, hfaster.uncongested, hraised.le⟩
  rintro s counted ⟨hcounts, htier⟩
  exact ⟨hcounts.acknowledged, hcounts.uncongested, hraised.le.trans (hlevel.trans htier)⟩

/-! ### A window again and again -/

/-- A window that shows no congestion shows none when it comes again. -/
theorem not_congests_again (h : ¬Congests windows f) : ¬Congests (windows ++ [f]) f := by
  have hagain : leastDelivery (windows ++ [f] ++ [f]) = leastDelivery (windows ++ [f]) := by
    rw [leastDelivery_concat (windows ++ [f]), leastDelivery_concat]
    split_ifs
    · exact min_eq_left (min_le_right _ _)
    · rfl
  rwa [Congests, hagain]

/-- A window that counts, and comes again, is counted until the fifth. -/
theorem counted_again (hfaster : (after ceiling windows).Faster f) :
    ∀ n, (after ceiling windows).fasterWindows + n < 5 →
      (after ceiling (windows ++ List.replicate n f)).Faster f ∧
      (after ceiling (windows ++ List.replicate n f)).fasterWindows =
        (after ceiling windows).fasterWindows + n ∧
      (after ceiling (windows ++ List.replicate n f)).fpsCeiling =
        (after ceiling windows).fpsCeiling
  | 0, _ => by simpa using hfaster
  | n + 1, hfew => by
    obtain ⟨hagain, hcount, hsame⟩ := counted_again hfaster n (by omega)
    rw [List.replicate_succ', ← List.append_assoc, after_concat]
    rcases observe_fpsCeiling_cases (after ceiling (windows ++ List.replicate n f)) f with
      ⟨hlower, -, -⟩ | ⟨-, ⟨-, hkept, hcounted⟩ | ⟨hfive, -, -⟩⟩ | ⟨-, hnot, -, -⟩
    · exact absurd hagain.higher (Nat.not_lt.mpr hlower.le)
    · refine ⟨⟨hagain.acknowledged, ?_, ?_⟩, by omega, hkept.trans hsame⟩
      · have huncongested := (uncongested_iff _ _ _).mp hagain.uncongested
        have hstill := not_congests_again huncongested
        rw [← uncongested_iff ceiling, after_concat] at hstill
        exact hstill
      · rw [hkept]
        exact hagain.higher
    · omega
    · exact absurd hagain hnot

/-- A window that counts after others and is lighter than the one it follows lifts the ceiling too
far when it comes again and again. -/
theorem lifts_too_far (hnot : ¬LevelWindow ceiling windows g f) :
    ∃ n, ¬RecoversSustained ceiling (windows ++ [g] ++ List.replicate n f) f := by
  simp only [LevelWindow, Classical.not_imp, Nat.not_le] at hnot
  obtain ⟨hcounting, hfaster, hlighter⟩ := hnot
  have hfaster := (faster_iff _ _ _).mpr hfaster
  have hcount := (sound_after ceiling (windows ++ [g])).fasterWindows
  obtain ⟨n, hn⟩ : ∃ n, (after ceiling (windows ++ [g])).fasterWindows + n = 4 :=
    ⟨4 - (after ceiling (windows ++ [g])).fasterWindows, by omega⟩
  obtain ⟨hfifth, hfour, -⟩ := counted_again hfaster n (by omega)
  refine ⟨n, fun hrecovers => ?_⟩
  have hraised := raises hfifth (hfour.trans hn)
  have hstreak := hrecovers (hraised ▸ hfifth.higher)
  -- five windows back from the end there are `n + 1` times `f`, and `g`
  have hlast : ∀ m k, Streak observe (new ceiling)
      (fun s h => h.acknowledged ≠ 0 ∧ (s.observe h).congested = false ∧ workTier f ≤ workTier h)
      (k + m) (windows ++ [g] ++ List.replicate m f) →
      Streak observe (new ceiling)
        (fun s h => h.acknowledged ≠ 0 ∧ (s.observe h).congested = false ∧ workTier f ≤ workTier h)
        k (windows ++ [g]) := by
    intro m
    induction m with
    | zero => exact fun k hk => by simpa using hk
    | succ m ih =>
      intro k hk
      rw [List.replicate_succ', ← List.append_assoc] at hk
      exact ih k hk.last.1
  rw [hraised, List.append_assoc _ _ [f], ← List.replicate_succ'] at hstreak
  obtain ⟨k, hk⟩ : ∃ k, 5 = k + 1 + (n + 1) :=
    ⟨3 - n, by omega⟩
  rw [hk] at hstreak
  obtain ⟨-, -, -, htier⟩ := (hlast (n + 1) (k + 1) hstreak).last
  omega

/-- And one that is not lighter does not. -/
theorem LevelWindow.again (h : LevelStreaks ceiling (windows ++ [g]))
    (hlevel : LevelWindow ceiling windows g f) (n : ℕ) :
    LevelStreaks ceiling (windows ++ [g] ++ List.replicate (n + 1) f) := by
  induction n with
  | zero => simpa using LevelStreaks.concat windows h hlevel
  | succ n ih =>
    rw [List.replicate_succ', ← List.append_assoc] at ih
    have hmore := LevelStreaks.concat _ ih fun _ _ => le_refl (workTier f)
    rw [List.replicate_succ', List.replicate_succ']
    simpa using hmore

end Levels

/-- **The frame rate recovers to what was sustained.** In a run of windows whose streaks are level
the ceiling is raised only to what each of the five windows sustained. And no less will do: where
streaks have been level so far, the next window keeps them so exactly if it does not take the
ceiling beyond what was sustained, however often it comes again. -/
theorem frame_rate_recovery_iff (ceiling : ℕ) :
    (∀ run, LevelStreaks ceiling run →
      ∀ windows f, windows ++ [f] <+: run → RecoversSustained ceiling windows f) ∧
    ∀ windows g f, LevelStreaks ceiling (windows ++ [g]) →
      (LevelWindow ceiling windows g f ↔
        ∀ n, RecoversSustained ceiling (windows ++ [g] ++ List.replicate n f) f) := by
  refine ⟨fun run hlevel windows f hprefix => (hlevel.of_prefix hprefix).recovers,
    fun windows g f hlevel => ⟨fun hwindow n => ?_, fun hrecovers => ?_⟩⟩
  · apply LevelStreaks.recovers
    rw [List.append_assoc _ _ [f], ← List.replicate_succ']
    exact hwindow.again hlevel n
  · by_contra hnot
    obtain ⟨n, hn⟩ := lifts_too_far hnot
    exact hn (hrecovers n)

namespace IdleAfterBusy

open QuickLink

/-- A window of 50 ms frames brings the ceiling to 15; four windows of 35 ms frames sustain 24. -/
def busy : List Feedback :=
  [window 50000, window 35000, window 35000, window 35000, window 35000]

/-- One window with nothing to do then lifts the ceiling to 60. -/
theorem lifted_to_sixty :
    ¬∀ windows f, windows ++ [f] <+: busy ++ [window 1000] →
      RecoversSustained DEFAULT_MAX_BITRATE windows f := by
  intro hsustained
  have hrise : (after DEFAULT_MAX_BITRATE busy).fpsCeiling <
      ((after DEFAULT_MAX_BITRATE busy).observe (window 1000)).fpsCeiling := by decide
  have hsixty : ((after DEFAULT_MAX_BITRATE busy).observe (window 1000)).fpsCeiling = 60 := by
    decide
  obtain ⟨hstreak, -⟩ := (hsustained busy (window 1000) (List.prefix_refl _) hrise).last
  have hlong : busy =
    [window 50000, window 35000, window 35000, window 35000] ++ [window 35000] := rfl
  rw [hsixty, hlong] at hstreak
  obtain ⟨-, -, -, htier⟩ := hstreak.last
  revert htier
  decide

theorem levelStreaks_single (ceiling : ℕ) (f : Feedback) : LevelStreaks ceiling [f] := by
  intro windows g f' hprefix
  have hlength := hprefix.length_le
  simp only [List.length_append, List.length_cons, List.length_nil] at hlength
  omega

/-- The four windows are level, as each sustains what the one before it does. -/
theorem busy_level : LevelStreaks DEFAULT_MAX_BITRATE busy := by
  have h1 := levelStreaks_single DEFAULT_MAX_BITRATE (window 50000)
  have h2 := LevelStreaks.concat [] h1 (f := window 35000) (by decide)
  have h3 := LevelStreaks.concat [window 50000] h2 (f := window 35000) (by decide)
  have h4 := LevelStreaks.concat [window 50000, window 35000] h3 (f := window 35000) (by decide)
  exact LevelStreaks.concat [window 50000, window 35000, window 35000] h4 (by decide)

/-- With a fifth such window in place of the idle one the ceiling goes to 24, which all five
sustained; with the idle one streaks are not level, and the ceiling goes too far. -/
theorem recovers_to_24 :
    (after DEFAULT_MAX_BITRATE (busy ++ [window 35000])).fpsCeiling = 24 ∧
      RecoversSustained DEFAULT_MAX_BITRATE busy (window 35000) ∧
      ∃ n, ¬RecoversSustained DEFAULT_MAX_BITRATE
        (busy ++ List.replicate n (window 1000)) (window 1000) := by
  obtain ⟨hlevel, hexact⟩ := frame_rate_recovery_iff DEFAULT_MAX_BITRATE
  have hfifth : LevelStreaks DEFAULT_MAX_BITRATE (busy ++ [window 35000]) :=
    LevelStreaks.concat [window 50000, window 35000, window 35000, window 35000] busy_level
      (by decide)
  refine ⟨by decide, hlevel _ hfifth busy (window 35000) List.prefix_rfl, ?_⟩
  have hidle := hexact [window 50000, window 35000, window 35000, window 35000] (window 35000)
    (window 1000) busy_level
  exact not_forall.mp (hidle.not.mp (by decide))

end IdleAfterBusy

end SensorRemote
