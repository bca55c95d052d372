import SensorRemote.Lib.Pacer
import SensorRemote.RelayPair
import Mathlib.Algebra.BigOperators.Ring.List
import Mathlib.Algebra.Order.Field.Basic
import Mathlib.Algebra.Order.Ring.Rat

/-!
# The rate limit of a relay

Each direction of a relay reserves the time its bitrate asks for when it reads a message, and writes
the message no earlier than its reservation. So however long an endpoint keeps the relay waiting,
what is forwarded between two messages fits in the time between them; and what one direction has
reserved makes no difference to the other.

A direction is an instance of the library's pacer with one slot: reading a message takes an item,
writing it sends the item, and every other step of the loop lets time pass (`pacer_step`). What a
step does to a direction is first said once for all steps (`step_direction`), so that the refinement
has three cases and not one for each branch of the loop. The bound for two forwarded messages is
then that of the library for two items (`Transition.pacer`).

That the directions are independent is about replacing what one of them has reserved (`repace`): a
step of the relay is a step of the relay with the reservation replaced, unless it is a step of that
direction itself.
-/

namespace SensorRemote

open Transition

/-! ## What the pacing of a direction depends on -/

/-- The pacing of a direction: the message that waits, when it is due, and the limiter. -/
structure Pacing where
  pending : Option (List UInt8)
  ready : ℚ
  limiter : RateLimiter

/-- The pacing after a payload was read. -/
def Pacing.reserve (pacing : Pacing) (now : ℚ) (payload : List UInt8) : Pacing :=
  ⟨some payload, (pacing.limiter.reserve now payload.length).1,
    (pacing.limiter.reserve now payload.length).2⟩

namespace RelayEndpoint

def pacing (endpoint : RelayEndpoint) : Pacing :=
  ⟨endpoint.pending, endpoint.ready, endpoint.limiter⟩

/-- An endpoint with another pacing. -/
def repace (endpoint : RelayEndpoint) (pacing : Pacing) : RelayEndpoint :=
  { endpoint with pending := pacing.pending, ready := pacing.ready, limiter := pacing.limiter }

variable {e e' : RelayEndpoint} {now : ℚ}

theorem pacing_flush {sent : Sent} (h : e.flush now sent = .ok e') : e'.pacing = e.pacing := by
  simp only [flush] at h
  split at h
  · split at h
    · cases h
      rfl
    · split at h
      · cases h
      · cases h
        rfl
    · cases h
  · cases h
    rfl

/-- Reading reserves for the payload read, or leaves the pacing as it is. -/
theorem pacing_read {answer : Read} {isOpen : Bool} (h : e.read now answer = .ok (isOpen, e')) :
    e'.pacing = e.pacing ∨ ∃ payload, e'.pacing = e.pacing.reserve now payload := by
  simp only [read] at h
  split at h
  · split at h
    · cases h
      exact .inr ⟨_, rfl⟩
    · cases h
  · cases h
    exact .inl rfl
  · cases h
    exact .inl rfl
  · cases h
    exact .inl rfl
  · cases h
  · cases h
    exact .inl rfl
  · cases h

/-- Writing takes the message that waits if it is due, and leaves the pacing of both ends as it
is otherwise. -/
theorem pacing_write {destination source' destination' : RelayEndpoint} {sent : Sent}
    {message : Option (List UInt8)}
    (h : e.write destination now sent = .ok (message, source', destination')) :
    destination'.pacing = destination.pacing ∧
      (message = none ∧ source'.pacing = e.pacing ∨
        ∃ payload, message = some payload ∧ e.pending = some payload ∧ e.ready ≤ now ∧
          source'.pacing = { e.pacing with pending := none }) := by
  simp only [write] at h
  split at h
  · rename_i hdue
    split at h
    · cases h
      exact ⟨rfl, .inl ⟨rfl, rfl⟩⟩
    · rename_i payload hpending
      split at h
      · cases h
        exact ⟨rfl, .inr ⟨payload, rfl, hpending, hdue.2, rfl⟩⟩
      · cases h
        exact ⟨rfl, .inr ⟨payload, rfl, hpending, hdue.2, rfl⟩⟩
      · cases h
  · cases h
    exact ⟨rfl, .inl ⟨rfl, rfl⟩⟩

end RelayEndpoint

/-- When a step reads the clock. -/
def PairLabel.now : PairLabel → Option ℚ
  | .flush now _ | .read now _ _ _ | .write now _ => some now
  | .close _ => none

namespace RelayPair

variable {s s' : RelayPair}

/-- The pacing of the direction from a side. -/
def pacing (s : RelayPair) (side : RelaySide) : Pacing := (s.ends side).pacing

theorem pacing_flush (s : RelayPair) (side : RelaySide) (now : ℚ) (attempt : Attempt) :
    (s.flush side now attempt).pacing = s.pacing := by
  funext e
  simp only [flush]
  split
  · rfl
  · rename_i endpoint hflush
    rcases eq_or_ne e side with rfl | hne
    · simp [pacing, RelayEndpoint.pacing_flush hflush]
    · simp [pacing, hne]

theorem handed_flush (s : RelayPair) (side : RelaySide) (now : ℚ) (attempt : Attempt) :
    (s.flush side now attempt).handed = s.handed := by
  simp only [flush]
  split <;> rfl

/-- What reading does to the pacing. -/
theorem pacing_readStep (s : RelayPair) (source : RelaySide) (now : ℚ) (answer : Read)
    (pong : ℕ) (attempt : Attempt) :
    (s.readStep source now answer pong attempt).handed = s.handed ∧
      ((s.readStep source now answer pong attempt).pacing = s.pacing ∨
        ∃ payload, (s.pacing source).pending = none ∧
          (s.readStep source now answer pong attempt).pacing =
            Function.update s.pacing source ((s.pacing source).reserve now payload)) := by
  simp only [readStep]
  split
  · exact ⟨rfl, .inl rfl⟩
  · rename_i hempty
    have hnone : (s.pacing source).pending = none := by
      simpa [pacing, RelayEndpoint.pacing] using hempty
    split
    · exact ⟨rfl, .inl rfl⟩
    · rename_i isOpen endpoint hread
      refine ⟨by split <;> rfl, ?_⟩
      rcases RelayEndpoint.pacing_read hread with hsame | ⟨payload, htaken⟩
      · refine .inl ?_
        funext e
        rcases eq_or_ne e source with rfl | hne
        · split <;> simp [pacing, hsame]
        · split <;> simp [pacing, hne]
      · refine .inr ⟨payload, hnone, ?_⟩
        funext e
        rcases eq_or_ne e source with rfl | hne
        · split <;> simp [pacing, htaken]
        · split <;> simp [pacing, hne]

/-- What writing does to the pacing. -/
theorem pacing_writeStep (s : RelayPair) (source : RelaySide) (now : ℚ) (attempt : Attempt) :
    (s.writeStep source now attempt).handed = s.handed ∧
        (s.writeStep source now attempt).pacing = s.pacing ∨
      ∃ payload, (s.pacing source).pending = some payload ∧ (s.pacing source).ready ≤ now ∧
        (s.writeStep source now attempt).handed = Function.update s.handed source.other
          (s.handed source.other ++ [payload]) ∧
        (s.writeStep source now attempt).pacing = Function.update s.pacing source
          { s.pacing source with pending := none } := by
  simp only [writeStep]
  split
  · exact .inl ⟨rfl, rfl⟩
  · rename_i message source' destination hwrite
    obtain ⟨hdestination, ⟨rfl, hsource⟩ | ⟨payload, rfl, hpending, hdue, hsource⟩⟩ :=
      RelayEndpoint.pacing_write hwrite
    · refine .inl ⟨by simp, ?_⟩
      funext e
      rcases eq_or_ne e source with rfl | hne
      · simp [pacing, hsource]
      · obtain rfl : e = source.other := by revert hne; cases e <;> cases source <;> decide
        simp [pacing, hdestination]
    · refine .inr ⟨payload, hpending, hdue, by simp, ?_⟩
      funext e
      rcases eq_or_ne e source with rfl | hne
      · simp [pacing, hsource]
      · obtain rfl : e = source.other := by revert hne; cases e <;> cases source <;> decide
        simp [pacing, hdestination]

/-- What a step of the relay does to one direction: nothing, or it reads a payload into the empty
slot and reserves for it, or it hands on the payload that waits, which is due. -/
theorem step_direction {label : PairLabel} (hstep : relayPair.step s label s') (side : RelaySide) :
    s'.pacing side = s.pacing side ∧ s'.handed side.other = s.handed side.other ∨
    (∃ now payload, label.now = some now ∧ (s.pacing side).pending = none ∧
      s'.pacing side = (s.pacing side).reserve now payload ∧
      s'.handed side.other = s.handed side.other) ∨
    ∃ now payload, label.now = some now ∧ (s.pacing side).pending = some payload ∧
      (s.pacing side).ready ≤ now ∧ s'.pacing side = { s.pacing side with pending := none } ∧
      s'.handed side.other = s.handed side.other ++ [payload] := by
  cases label with
  | flush now attempt =>
    obtain ⟨e, -, rfl⟩ := hstep
    exact .inl ⟨by rw [pacing_flush], by rw [handed_flush]⟩
  | close attempt =>
    obtain ⟨e, -, rfl⟩ := hstep
    exact .inl ⟨rfl, rfl⟩
  | read now answer pong attempt =>
    obtain ⟨source, -, -, rfl⟩ := hstep
    obtain ⟨hhanded, hsame | ⟨payload, hnone, htaken⟩⟩ :=
      s.pacing_readStep source now answer pong attempt
    · exact .inl ⟨by rw [hsame], by rw [hhanded]⟩
    · rcases eq_or_ne side source with rfl | hne
      · exact .inr (.inl ⟨now, payload, rfl, hnone, by rw [htaken, Function.update_self],
          by rw [hhanded]⟩)
      · exact .inl ⟨by rw [htaken, Function.update_of_ne hne], by rw [hhanded]⟩
  | write now attempt =>
    obtain ⟨source, -, rfl⟩ := hstep
    rcases s.pacing_writeStep source now attempt with
      ⟨hhanded, hsame⟩ | ⟨payload, hpending, hdue, hhanded, hwritten⟩
    · exact .inl ⟨by rw [hsame], by rw [hhanded]⟩
    · rcases eq_or_ne side source with rfl | hne
      · exact .inr (.inr ⟨now, payload, rfl, hpending, hdue, by rw [hwritten, Function.update_self],
          by rw [hhanded, Function.update_self]⟩)
      · have hother : side.other ≠ source.other := by
          revert hne
          cases side <;> cases source <;> decide
        exact .inl ⟨by rw [hwritten, Function.update_of_ne hne],
          by rw [hhanded, Function.update_of_ne hother]⟩

end RelayPair

/-! ## A relay with a clock -/

/-- A relay, the time, and the messages forwarded from each side with the time they were. -/
structure TimedRelay where
  pair : RelayPair
  clock : ℚ
  forwarded : RelaySide → List (List UInt8 × ℚ)

/-- The relay of a bitrate, with a clock that never goes back. A step reads the clock and may
take until a later time; a message it forwards is forwarded at that time. -/
def timedRelay (limit : ℕ) : LTS TimedRelay (PairLabel × ℚ) where
  init s := relayPair.init s.pair ∧ (∀ side, (s.pair.ends side).limiter.maxBitrate = some limit) ∧
    ∀ side, s.forwarded side = []
  step s label s' := relayPair.step s.pair label.1 s'.pair ∧
    (∀ now, label.1.now = some now → s.clock ≤ now ∧ now ≤ label.2) ∧
    s.clock ≤ label.2 ∧ s'.clock = label.2 ∧
    ∀ side, s'.forwarded side = s.forwarded side ++
      ((s'.pair.handed side.other).drop (s.pair.handed side.other).length).map (·, label.2)

namespace TimedRelay

variable {limit : ℕ} {s s' : TimedRelay}

/-- The step, carried out, if the relay is where it is made and the clock does not go back. -/
def next (s : TimedRelay) (label : PairLabel × ℚ) : Option TimedRelay := do
  let pair ← s.pair.next label.1
  if s.clock ≤ label.1.now.getD s.clock ∧ label.1.now.getD s.clock ≤ label.2 then
    some ⟨pair, label.2, fun side => s.forwarded side ++
      ((pair.handed side.other).drop (s.pair.handed side.other).length).map (·, label.2)⟩
  else none

theorem step_of_next {label : PairLabel × ℚ} (h : s.next label = some s') :
    (timedRelay limit).step s label s' := by
  obtain ⟨pair, hpair, h⟩ := Option.bind_eq_some_iff.mp h
  split at h
  · rename_i hclock
    cases h
    refine ⟨RelayPair.step_of_next hpair, ?_, hclock.1.trans hclock.2, rfl, fun _ => rfl⟩
    intro now hnow
    simpa only [hnow, Option.getD_some] using hclock
  · cases h

/-- What a message costs at a bitrate, in seconds. -/
def price (limit : ℕ) (payload : List UInt8) : ℚ := payload.length * 8 / limit

/-- One direction as a pacer. -/
def pacer (limit : ℕ) (s : TimedRelay) (side : RelaySide) : Pacer ℚ where
  next := (s.pair.pacing side).limiter.next
  waiting := (s.pair.pacing side).pending.map ((s.pair.pacing side).ready, price limit ·)
  clock := s.clock
  sent := (s.forwarded side).map fun message => (price limit message.1, message.2)

/-- A step that is about other things lets time pass for a direction. -/
theorem pacer_pass {label : PairLabel × ℚ} (hstep : (timedRelay limit).step s label s')
    {side : RelaySide} (hpacing : s'.pair.pacing side = s.pair.pacing side)
    (hhanded : s'.pair.handed side.other = s.pair.handed side.other) :
    (Transition.pacer ℚ).step (s.pacer limit side) (.pass label.2) (s'.pacer limit side) := by
  obtain ⟨-, -, hclock, hdone, hforwarded⟩ := hstep
  refine ⟨hclock, ?_⟩
  have hsame : s'.forwarded side = s.forwarded side := by
    rw [hforwarded, hhanded, List.drop_length, List.map_nil, List.append_nil]
  simp only [pacer, hpacing, hsame, hdone]

theorem maxBitrate_reserve (pacing : Pacing) (now : ℚ) (payload : List UInt8) :
    (pacing.reserve now payload).limiter.maxBitrate = pacing.limiter.maxBitrate := by
  simp only [Pacing.reserve, RateLimiter.reserve]
  split <;> rfl

/-- Every limiter keeps the bitrate of the relay. -/
theorem limited (h : (timedRelay limit).Reachable s) (side : RelaySide) :
    (s.pair.pacing side).limiter.maxBitrate = some limit := by
  refine h.invariant (P := fun s => (s.pair.pacing side).limiter.maxBitrate = some limit) ?_ ?_
  · rintro s ⟨-, hlimited, -⟩
    exact hlimited side
  · rintro s label s' hlimited ⟨hstep, -⟩
    rcases RelayPair.step_direction hstep side with
      ⟨hpacing, -⟩ | ⟨now, payload, -, -, hpacing, -⟩ | ⟨now, payload, -, -, -, hpacing, -⟩
    · rw [hpacing]
      exact hlimited
    · rw [hpacing, maxBitrate_reserve]
      exact hlimited
    · rw [hpacing]
      exact hlimited

/-- **Each direction of a relay is a pacer.** -/
theorem pacer_step (hlimit : 0 < limit) (h : (timedRelay limit).Reachable s)
    {label : PairLabel × ℚ} (hstep : (timedRelay limit).step s label s') (side : RelaySide) :
    ∃ move, (Transition.pacer ℚ).step (s.pacer limit side) move (s'.pacer limit side) := by
  have hbitrate := limited h side
  obtain ⟨hpair, hnow, hclock, hdone, hforwarded⟩ := id hstep
  rcases RelayPair.step_direction hpair side with ⟨hpacing, hhanded⟩ |
    ⟨now, payload, hlabel, hnone, hpacing, hhanded⟩ |
    ⟨now, payload, hlabel, hpending, hdue, hpacing, hhanded⟩
  · exact ⟨_, pacer_pass hstep hpacing hhanded⟩
  · obtain ⟨hbefore, hafter⟩ := hnow now hlabel
    refine ⟨.take now label.2 (price limit payload), ?_, hbefore, hafter, ?_⟩
    · simp only [pacer, hnone, Option.map_none]
    · have hsame : s'.forwarded side = s.forwarded side := by
        rw [hforwarded, hhanded, List.drop_length, List.map_nil, List.append_nil]
      simp [pacer, hpacing, hsame, hdone, Pacing.reserve, RateLimiter.reserve, hbitrate, hlimit,
        Option.filter, price]
  · obtain ⟨hbefore, hafter⟩ := hnow now hlabel
    refine ⟨.send label.2, (s.pair.pacing side).ready, price limit payload, ?_,
      hdue.trans hafter, hclock, ?_⟩
    · simp only [pacer, hpending, Option.map_some]
    · have hsent : s'.forwarded side = s.forwarded side ++ [(payload, label.2)] := by
        rw [hforwarded, hhanded, List.drop_left, List.map_singleton]
      simp [pacer, hpacing, hsent, hdone]

/-- What was forwarded, with the times left out, is what was handed on. -/
theorem forwarded_payloads (h : (timedRelay limit).Reachable s) (side : RelaySide) :
    (s.forwarded side).map Prod.fst = s.pair.handed side.other := by
  refine h.invariant (P := fun s =>
    (s.forwarded side).map Prod.fst = s.pair.handed side.other) ?_ ?_
  · rintro s ⟨⟨bitrate, start, -, -, -, -, hhanded, -⟩, -, hnone⟩
    rw [hnone, hhanded, List.map_nil]
  · rintro s label s' hsame ⟨hpair, -, -, -, hforwarded⟩
    rw [hforwarded]
    rcases RelayPair.step_direction hpair side with ⟨-, hhanded⟩ | ⟨-, -, -, -, -, hhanded⟩ |
      ⟨-, payload, -, -, -, -, hhanded⟩
    · rw [hhanded, List.drop_length, List.map_nil, List.append_nil, hsame]
    · rw [hhanded, List.drop_length, List.map_nil, List.append_nil, hsame]
    · rw [hhanded, List.drop_left, List.map_append, hsame]
      rfl

theorem paced_of_reachable (hlimit : 0 < limit) (h : (timedRelay limit).Reachable s)
    (side : RelaySide) : (s.pacer limit side).Paced := by
  refine Pacer.paced_of_reachable (LTS.Reachable.simulate (pacer limit · side) ?_ ?_ h)
  · rintro s ⟨⟨bitrate, start, -, hends, -⟩, -, hnone⟩
    simp [Transition.pacer, pacer, RelayPair.pacing, RelayEndpoint.pacing, hends,
      RelayEndpoint.new, hnone]
  · intro s label s' hreachable hstep
    exact .inr (pacer_step hlimit hreachable hstep side)

/-- Between two messages forwarded passes the time that those strictly between them take. -/
theorem forwarded_between (hlimit : 0 < limit) (h : (timedRelay limit).Reachable s)
    {side : RelaySide} {before between after : List (List UInt8 × ℚ)} {f g : List UInt8 × ℚ}
    (hforwarded : s.forwarded side = before ++ f :: (between ++ g :: after)) :
    8 * (between.map fun message => (message.1.length : ℚ)).sum ≤ (limit : ℚ) * (g.2 - f.2) := by
  have hpos : (0 : ℚ) < limit := by exact_mod_cast hlimit
  let cost (message : List UInt8 × ℚ) : ℚ × ℚ := (price limit message.1, message.2)
  have hbetween : f.2 + Pacer.cost (between.map cost) ≤ g.2 := by
    refine (paced_of_reachable hlimit h side).between (before.map cost) (cost f) _ (cost g)
      (after.map cost) ?_
    simp [pacer, hforwarded, cost]
  have hcost : Pacer.cost (between.map cost) =
      (between.map fun message => (message.1.length : ℚ)).sum * (8 / limit) := by
    simp only [Pacer.cost, List.map_map, ← List.sum_map_mul_right]
    refine congrArg List.sum (List.map_congr_left fun message _ => ?_)
    exact mul_div_assoc _ _ _
  calc 8 * (between.map fun message => (message.1.length : ℚ)).sum
      = limit * Pacer.cost (between.map cost) := by
        rw [hcost, mul_left_comm, mul_div_cancel₀ _ hpos.ne', mul_comm]
    _ ≤ limit * (g.2 - f.2) :=
        mul_le_mul_of_nonneg_left (le_sub_iff_add_le'.mpr hbetween) hpos.le

end TimedRelay

/-! ## One direction does not delay the other -/

namespace RelayEndpoint

theorem flush_repace (e : RelayEndpoint) (pacing : Pacing) (now : ℚ) (sent : Sent) :
    (e.repace pacing).flush now sent = (e.flush now sent).map (repace · pacing) := by
  obtain ⟨pending, ready, limiter, writing, writeStarted⟩ := e
  cases writing with
  | false => rfl
  | true =>
    cases sent with
    | ok => rfl
    | wouldBlock =>
      by_cases hlate : now - writeStarted > 5 <;> simp [flush, repace, hlate, Except.map]
    | failed => rfl

theorem write_repace (e destination : RelayEndpoint) (pacing : Pacing) (now : ℚ) (sent : Sent) :
    e.write (destination.repace pacing) now sent =
      (e.write destination now sent).map fun (message, source, destination) =>
        (message, source, destination.repace pacing) := by
  have hsame : (destination.repace pacing).writing = destination.writing := rfl
  by_cases hdue : destination.writing = false ∧ e.ready ≤ now
  · simp only [write, hsame, if_pos hdue]
    cases e.pending with
    | none => rfl
    | some payload => cases sent <;> rfl
  · simp only [write, hsame, if_neg hdue]
    rfl

end RelayEndpoint

namespace RelayPair

variable {s s' : RelayPair}

/-- A relay with another pacing of the direction from a side. -/
def repace (s : RelayPair) (side : RelaySide) (pacing : Pacing) : RelayPair :=
  { s with ends := Function.update s.ends side ((s.ends side).repace pacing) }

theorem flush_repace (s : RelayPair) (side : RelaySide) (pacing : Pacing) (e : RelaySide)
    (now : ℚ) (attempt : Attempt) :
    (s.repace side pacing).flush e now attempt = (s.flush e now attempt).repace side pacing := by
  rcases eq_or_ne e side with rfl | hne
  · have hwriting : ((s.ends e).repace pacing).writing = (s.ends e).writing := rfl
    simp only [flush, repace, Function.update_self, hwriting, RelayEndpoint.flush_repace]
    rcases (s.ends e).flush now _ with failure | endpoint
    · rfl
    · simp [Except.map]
  · simp only [flush, repace, Function.update_of_ne hne]
    rcases (s.ends e).flush now _ with failure | endpoint
    · rfl
    · simp [Function.update_comm hne, Function.update_of_ne hne.symm]

theorem readStep_repace (s : RelayPair) (side : RelaySide) (pacing : Pacing) {source : RelaySide}
    (hne : source ≠ side) (now : ℚ) (answer : Read) (pong : ℕ) (attempt : Attempt) :
    (s.repace side pacing).readStep source now answer pong attempt =
      (s.readStep source now answer pong attempt).repace side pacing := by
  simp only [readStep, repace, Function.update_of_ne hne]
  split
  · rfl
  · rcases (s.ends source).read now answer with failure | ⟨isOpen, endpoint⟩
    · rfl
    · cases isOpen <;> simp [Function.update_comm hne, Function.update_of_ne hne.symm]

theorem writeStep_repace (s : RelayPair) (source : RelaySide) (pacing : Pacing) (now : ℚ)
    (attempt : Attempt) :
    (s.repace source.other pacing).writeStep source now attempt =
      (s.writeStep source now attempt).repace source.other pacing := by
  simp only [writeStep, repace, Function.update_of_ne source.ne_other, Function.update_self,
    RelayEndpoint.write_repace]
  rcases (s.ends source).write (s.ends source.other) now _ with
    failure | ⟨message, source', destination⟩
  · rfl
  · simp [Except.map, Function.update_comm source.ne_other]

/-- A step of the relay that is not one of the direction from `side` goes the same way whatever
the pacing of that direction. -/
theorem step_repace {label : PairLabel} (hstep : relayPair.step s label s') {side : RelaySide}
    (hread : s.point ≠ .read side) (hwrite : s.point ≠ .write side) (pacing : Pacing) :
    relayPair.step (s.repace side pacing) label (s'.repace side pacing) := by
  cases label with
  | flush now attempt =>
    obtain ⟨e, hpoint, rfl⟩ := hstep
    exact ⟨e, hpoint, (s.flush_repace side pacing e now attempt).symm⟩
  | close attempt =>
    obtain ⟨e, hpoint, rfl⟩ := hstep
    exact ⟨e, hpoint, rfl⟩
  | read now answer pong attempt =>
    obtain ⟨source, hpoint, hwithin, rfl⟩ := hstep
    have hne : source ≠ side := fun heq => hread (heq ▸ hpoint)
    exact ⟨source, hpoint, hwithin,
      (s.readStep_repace side pacing hne now answer pong attempt).symm⟩
  | write now attempt =>
    obtain ⟨source, hpoint, rfl⟩ := hstep
    have hne : source ≠ side := fun heq => hwrite (heq ▸ hpoint)
    obtain rfl : side = source.other := by
      revert hne
      cases side <;> cases source <;> decide
    exact ⟨source, hpoint, (s.writeStep_repace source pacing now attempt).symm⟩

/-- And it leaves that pacing as it is. -/
theorem pacing_frame {label : PairLabel} (hstep : relayPair.step s label s') {side : RelaySide}
    (hread : s.point ≠ .read side) (hwrite : s.point ≠ .write side) :
    s'.pacing side = s.pacing side := by
  cases label with
  | flush now attempt =>
    obtain ⟨e, -, rfl⟩ := hstep
    rw [pacing_flush]
  | close attempt =>
    obtain ⟨e, -, rfl⟩ := hstep
    rfl
  | read now answer pong attempt =>
    obtain ⟨source, hpoint, -, rfl⟩ := hstep
    have hne : side ≠ source := fun heq => hread (heq ▸ hpoint)
    obtain ⟨-, hsame | ⟨payload, -, htaken⟩⟩ := s.pacing_readStep source now answer pong attempt
    · rw [hsame]
    · rw [htaken, Function.update_of_ne hne]
  | write now attempt =>
    obtain ⟨source, hpoint, rfl⟩ := hstep
    have hne : side ≠ source := fun heq => hwrite (heq ▸ hpoint)
    rcases s.pacing_writeStep source now attempt with ⟨-, hsame⟩ | ⟨payload, -, -, -, hwritten⟩
    · rw [hsame]
    · rw [hwritten, Function.update_of_ne hne]

/-- A message that is due goes as soon as the other endpoint takes one. -/
theorem handed_of_due {source : RelaySide} {now : ℚ} {bytes : ℕ} {payload : List UInt8}
    (hpending : (s.ends source).pending = some payload) (hdue : (s.ends source).ready ≤ now)
    (hidle : (s.ends source.other).writing = false) :
    (s.writeStep source now (.takes bytes)).handed source.other =
      s.handed source.other ++ [payload] := by
  have hwrite : ∀ sent, sent ≠ .failed → ∃ source' destination',
      (s.ends source).write (s.ends source.other) now sent =
        .ok (some payload, source', destination') := by
    intro sent hsent
    simp only [RelayEndpoint.write, if_pos (And.intro hidle hdue), hpending]
    cases sent with
    | ok => exact ⟨_, _, rfl⟩
    | wouldBlock => exact ⟨_, _, rfl⟩
    | failed => contradiction
  have hsent : ((s.sockets source.other).send payload (.takes bytes)).2 ≠ .failed := by
    simp only [OutSocket.send, OutSocket.flush]
    split_ifs <;> simp
  obtain ⟨source', destination', hwritten⟩ := hwrite _ hsent
  simp only [writeStep, hpending, Option.getD_some, hwritten]
  simp

end RelayPair

/-- **Pacing.** What a relay of a bitrate forwards in one direction between two messages fits in
the time between them. The other direction's pacing makes no difference to the steps of this
one and is no business of it: they go the same way whatever it is, the other direction's steps
leave this one's pacing alone, and a message that is due goes once its destination takes it. -/
theorem relay_paced {limit : ℕ} (hlimit : 0 < limit) {s : TimedRelay}
    (h : (timedRelay limit).Reachable s) (side : RelaySide) :
    (s.forwarded side).map Prod.fst = s.pair.handed side.other
    ∧ (∀ before f between g after, s.forwarded side = before ++ f :: (between ++ g :: after) →
      8 * (between.map fun message => (message.1.length : ℚ)).sum ≤ (limit : ℚ) * (g.2 - f.2))
    ∧ (∀ label pair', relayPair.step s.pair label pair' →
      s.pair.point ≠ .read side.other → s.pair.point ≠ .write side.other →
      ∀ pacing, relayPair.step (s.pair.repace side.other pacing) label
        (pair'.repace side.other pacing))
    ∧ (∀ label pair', relayPair.step s.pair label pair' →
      s.pair.point ≠ .read side → s.pair.point ≠ .write side →
      pair'.pacing side = s.pair.pacing side)
    ∧ (∀ now bytes payload pair', relayPair.step s.pair (.write now (.takes bytes)) pair' →
      s.pair.point = .write side → (s.pair.ends side).pending = some payload →
      (s.pair.ends side).ready ≤ now → (s.pair.ends side.other).writing = false →
      pair'.handed side.other = s.pair.handed side.other ++ [payload]) := by
  refine ⟨TimedRelay.forwarded_payloads h side, ?_, ?_, ?_, ?_⟩
  · intro before f between g after hforwarded
    exact TimedRelay.forwarded_between hlimit h hforwarded
  · intro label pair' hstep hread hwrite pacing
    exact RelayPair.step_repace hstep hread hwrite pacing
  · intro label pair' hstep hread hwrite
    exact RelayPair.pacing_frame hstep hread hwrite
  · intro now bytes payload pair' ⟨source, hpoint, hpair⟩ hside hpending hdue hidle
    obtain rfl : source = side := RelayPoint.write.inj (hpoint.symm.trans hside)
    rw [hpair]
    exact RelayPair.handed_of_due hpending hdue hidle

namespace ThreeForwarded

/-- The messages, of three bytes each. -/
def message (n : UInt8) : List UInt8 := [n, n, n]

/-- A relay of 8 bit/s. -/
def start : TimedRelay where
  pair :=
    { point := .flush .target
      ends := fun _ => .new (some 8) 0
      sockets := fun _ => ⟨[], []⟩
      read := fun _ => []
      handed := fun _ => []
      closedBy := none }
  clock := 0
  forwarded _ := []

/-- A pass of the loop, in which the initiator's message is read at one time and forwarded at a
later one, and nothing comes from the target. -/
def pass (n : UInt8) (now later : ℚ) : List (PairLabel × ℚ) :=
  [(.flush now (.takes 5), now), (.flush now (.takes 0), now),
    (.read now (.frame (.binary (message n))) 0 (.takes 0), now), (.write later (.takes 5), later),
    (.read later .wouldBlock 0 (.takes 0), later), (.write later (.takes 0), later)]

/-- The first message is late. The third could not be earlier. -/
def passes : List (PairLabel × ℚ) := pass 1 1 4 ++ pass 2 4 5 ++ pass 3 5 7

theorem init_start : (timedRelay 8).init start :=
  ⟨⟨some 8, fun _ => 0, rfl, fun _ => rfl, fun _ => rfl, fun _ => rfl, fun _ => rfl, rfl⟩,
    fun _ => rfl, fun _ => rfl⟩

theorem forwarded_passes : (passes.foldlM TimedRelay.next start).map
    (fun s => s.forwarded .initiator) =
      some [(message 1, 4), (message 2, 5), (message 3, 7)] := by decide +kernel

theorem passes_paced : ∃ s, (timedRelay 8).Reachable s ∧
    (s.forwarded .initiator).map Prod.fst = s.pair.handed .target ∧
      s.forwarded .initiator = [(message 1, 4), (message 2, 5), (message 3, 7)] ∧
        8 * (([(message 2, 5)] : List (List UInt8 × ℚ)).map fun message =>
          (message.1.length : ℚ)).sum ≤ ((8 : ℕ) : ℚ) * (7 - 4) := by
  obtain ⟨s, hrun, hforwarded⟩ := Option.map_eq_some_iff.mp forwarded_passes
  have hreach : (timedRelay 8).Reachable s :=
    (LTS.Reachable.init init_start).of_foldlM TimedRelay.step_of_next hrun
  obtain ⟨hpayloads, hpaced, -⟩ := relay_paced (by decide : 0 < 8) hreach .initiator
  exact ⟨s, hreach, hpayloads, hforwarded, hpaced [] _ [_] _ [] hforwarded⟩

end ThreeForwarded

end SensorRemote
