import SensorRemote.RelayPair

/-!
# What a relay still delivers when an endpoint closes

When an endpoint closes, nothing read from it waits in the relay any more: all of it was handed to
the other endpoint's socket. But the last message may be in that socket's buffer, and then only the
closing attempt is left to write it. `relay_pair` does not wait for the buffer to empty before it
takes the close, so the message is lost if the other endpoint is congested just then
(`CongestedAtTheEnd`). Otherwise nothing is lost, and the result is exact.

The invariant, `Kept`, says where everything that was read from an endpoint is: forwarded, in the
other socket's buffer, or pending in the relay. A point of the loop says more, so each step function
of the loop (`flush`, `readStep`, `writeStep`, `close`) has its own lemma. A run then delivers
everything if and only if its closing attempts take what is in the buffers (`ClosesDrained`), which
is a condition on the buffer and the attempt, at the one step where the relay closes.
-/

namespace SensorRemote

open Transition

namespace RelayPair

/-- Nothing is written to the socket of a side any more. -/
def GivenUp (s : RelayPair) (side : RelaySide) : Prop :=
  match s.point with
  | .close .initiator => side = .target
  | .dropped => True
  | _ => False

/-- If an endpoint closed, every binary message read from it was completely written to the
other before that one's socket was given up. -/
def Delivered (s : RelayPair) : Prop :=
  ∀ side, s.closedBy = some side → s.GivenUp side.other →
    (s.sockets side.other).written = s.read side

end RelayPair

/-- The attempt writes all binary messages of a buffer. -/
def Attempt.Covers (buffer : List OutFrame) : Attempt → Prop
  | .takes n => payloadBytes buffer ≤ n
  | .failed => payloads buffer = []

/-- The step is not the closing of the endpoint that did not close itself, or the closing
attempt covers what that endpoint's socket still has to write. -/
def ClosesDrained (s : RelayPair) : PairLabel → Prop
  | .close attempt => ∀ side, s.point = .close side → s.closedBy = some side.other →
      attempt.Covers (s.sockets side).buffer
  | _ => True

instance (buffer : List OutFrame) : (attempt : Attempt) → Decidable (attempt.Covers buffer)
  | .takes n => inferInstanceAs (Decidable (payloadBytes buffer ≤ n))
  | .failed => inferInstanceAs (Decidable (payloads buffer = []))

instance (s : RelayPair) : (label : PairLabel) → Decidable (ClosesDrained s label)
  | .close attempt =>
    let drained side := s.point = .close side → s.closedBy = some side.other →
      attempt.Covers (s.sockets side).buffer
    decidable_of_iff (drained .target ∧ drained .initiator)
      ⟨fun h side => match side with | .target => h.1 | .initiator => h.2, fun h => ⟨h _, h _⟩⟩
  | .flush _ _ | .read _ _ _ _ | .write _ _ => .isTrue trivial

/-! ## Sockets -/

/-- The payloads in a buffer, piece by piece. -/
@[simp] theorem payloads_append (buffer rest : List OutFrame) :
    payloads (buffer ++ rest) = payloads buffer ++ payloads rest := List.filterMap_append

/-- A control frame at the end is not waited for. -/
@[simp] theorem payloadBytes_control (buffer : List OutFrame) (bytes : ℕ) :
    payloadBytes (buffer ++ [.control bytes]) = payloadBytes buffer := by
  induction buffer with
  | nil => rfl
  | cons frame rest ih =>
    have hsame : payloads (frame :: (rest ++ [.control bytes])) = payloads (frame :: rest) := by
      rw [← List.cons_append, payloads_append]
      exact List.append_nil _
    simp only [List.cons_append, payloadBytes, hsame, ih]

/-- After closing, all binary messages are written exactly if the attempt covers them. -/
theorem OutSocket.written_close {socket : OutSocket} {attempt : Attempt} :
    (socket.close attempt).written = socket.accepted ↔ attempt.Covers socket.buffer := by
  have hall : (socket.close attempt).written = socket.accepted ↔
      payloads (socket.close attempt).buffer = [] := by
    rw [← socket.accepted_close attempt, OutSocket.accepted]
    exact List.self_eq_append_right
  rw [hall]
  cases attempt with
  | takes n =>
    have hcontrol : payloads (takeBytes n (socket.buffer ++ [.control 0])).1 = [] ↔
        payloadBytes (socket.buffer ++ [.control 0]) ≤ n := takeBytes_all
    rwa [payloadBytes_control] at hcontrol
  | failed =>
    simp only [OutSocket.close, OutSocket.push, OutSocket.flush, payloads_append]
    rw [show payloads [OutFrame.control 0] = [] from rfl, List.append_nil]
    rfl

/-- A flush that reports success has written everything. -/
theorem OutSocket.buffer_flush {socket : OutSocket} {attempt : Attempt}
    (h : (socket.flush attempt).2 = .ok) : (socket.flush attempt).1.buffer = [] := by
  cases attempt with
  | takes n =>
    simp only [OutSocket.flush] at h ⊢
    split at h
    · rename_i hempty
      exact List.isEmpty_iff.mp hempty
    · cases h
  | failed => cases h

/-- Reading sends nothing, and leaves an empty buffer empty unless it was a ping. -/
theorem accepted_answered (socket : OutSocket) (answer : Read) (pong : ℕ) (attempt : Attempt) :
    (RelayPair.answered socket answer pong attempt).accepted = socket.accepted := by
  have hattempt (socket : OutSocket) :
      (if socket.buffer.any (·.payload.isNone) then (socket.flush attempt).1
        else socket).accepted = socket.accepted := by
    split
    · exact OutSocket.accepted_flush _ _
    · rfl
  simp only [RelayPair.answered]
  split
  · rw [hattempt, OutSocket.accepted_push]
    exact List.append_nil _
  · exact hattempt socket

/-- An answer other than a pong is not queued behind anything. -/
theorem buffer_answered {socket : OutSocket} {answer : Read} {pong : ℕ} {attempt : Attempt}
    (hanswer : answer ≠ .frame .ping) (h : socket.buffer = []) :
    (RelayPair.answered socket answer pong attempt).buffer = [] := by
  simp only [RelayPair.answered]
  split
  · rename_i hany
    simp [h] at hany
  · exact h

/-! ## The invariant -/

/-- What holds of the relay at any time. -/
structure RelayPair.Kept (s : RelayPair) : Prop where
  /-- what was read was handed on or waits -/
  read : ∀ side, s.read side = s.handed side.other ++ (s.ends side).pending.toList
  /-- what was handed on is written or in the buffer -/
  accepted : ∀ side, s.handed side = (s.sockets side).accepted
  /-- a socket that is not writing has nothing to write -/
  flushed : ∀ side, ¬s.GivenUp side → (s.ends side).writing = false →
    (s.sockets side).buffer = []
  /-- the loop ends when an endpoint closes, of which nothing waits then -/
  closing : match s.point with
    | .close _ | .dropped => ∃ side, s.closedBy = some side ∧ (s.ends side).pending = none
    | _ => s.closedBy = none

namespace RelayPair.Kept

variable {s s' : RelayPair}

/-- At the start nothing was read. -/
theorem of_init (h : relayPair.init s) : s.Kept := by
  obtain ⟨bitrate, start, hpoint, hends, hsockets, hread, hhanded, hclosed⟩ := h
  refine ⟨?_, ?_, ?_, ?_⟩
  · simp [hread, hhanded, hends, RelayEndpoint.new]
  · simp [hhanded, hsockets, OutSocket.accepted, payloads]
  · simp [hsockets]
  · simp [hpoint, hclosed]

/-- What was read is in order whenever a step does to the directions what it may. -/
theorem read_of_direction (h : s.Kept) (source : RelaySide)
    (hdirection : s'.direction = s.direction ∨
      (∃ payload, (s.ends source).pending = none ∧
        s'.direction = Function.update s.direction source
          (s.read source ++ [payload], some payload, s.handed source.other)) ∨
      ∃ payload, (s.ends source).pending = some payload ∧
        s'.direction = Function.update s.direction source
          (s.read source, none, s.handed source.other ++ [payload])) (side : RelaySide) :
    s'.read side = s'.handed side.other ++ (s'.ends side).pending.toList := by
  have hold := h.read side
  rcases hdirection with hsame | ⟨payload, hnone, htaken⟩ | ⟨payload, hpayload, hwritten⟩
  · have hsame := congrFun hsame side
    simp only [direction, Prod.mk.injEq] at hsame
    obtain ⟨hread, hpending, hhanded⟩ := hsame
    rw [hread, hpending, hhanded, hold]
  · have htaken := congrFun htaken side
    rcases eq_or_ne side source with rfl | hne
    · simp only [direction, Function.update_self, Prod.mk.injEq] at htaken
      obtain ⟨hread, hpending, hhanded⟩ := htaken
      rw [hread, hpending, hhanded, hold, hnone]
      simp
    · rw [Function.update_of_ne hne] at htaken
      simp only [direction, Prod.mk.injEq] at htaken
      obtain ⟨hread, hpending, hhanded⟩ := htaken
      rw [hread, hpending, hhanded, hold]
  · have hwritten := congrFun hwritten side
    rcases eq_or_ne side source with rfl | hne
    · simp only [direction, Function.update_self, Prod.mk.injEq] at hwritten
      obtain ⟨hread, hpending, hhanded⟩ := hwritten
      rw [hread, hpending, hhanded, hold, hpayload]
      simp
    · rw [Function.update_of_ne hne] at hwritten
      simp only [direction, Prod.mk.injEq] at hwritten
      obtain ⟨hread, hpending, hhanded⟩ := hwritten
      rw [hread, hpending, hhanded, hold]

/-- An error ends the relay and changes nothing else. -/
theorem fail (h : s.Kept) (hopen : s.closedBy = none) (hgiven : ∀ side, ¬s.GivenUp side)
    (failure : RelayFailure) : RelayPair.Kept { s with point := .failed failure } :=
  ⟨h.read, h.accepted, fun side _ => h.flushed side (hgiven side), hopen⟩

/-- Flushing moves payloads from a buffer to what was forwarded. -/
theorem flush (h : s.Kept) {side : RelaySide} (hpoint : s.point = .flush side) (now : ℚ)
    (attempt : Attempt) : (s.flush side now attempt).Kept := by
  have hopen : s.closedBy = none := by simpa [hpoint] using h.closing
  have hgiven : ∀ e, ¬s.GivenUp e := by simp [GivenUp, hpoint]
  have hread := h.read_of_direction side (.inl (s.direction_flush side now attempt))
  have hsocket : (if (s.ends side).writing then (s.sockets side).flush attempt
      else (s.sockets side, .ok)).1.accepted = (s.sockets side).accepted := by
    split
    · exact OutSocket.accepted_flush _ _
    · rfl
  have hbuffer : (s.ends side).writing = false ∨ (if (s.ends side).writing then
      (s.sockets side).flush attempt else (s.sockets side, .ok)).2 = .ok →
      (if (s.ends side).writing then (s.sockets side).flush attempt
        else (s.sockets side, .ok)).1.buffer = [] := by
    cases hwriting : (s.ends side).writing with
    | true => exact fun hok => OutSocket.buffer_flush (hok.resolve_left (by simp))
    | false => exact fun _ => h.flushed side (hgiven side) hwriting
  revert hread
  simp only [RelayPair.flush]
  generalize (if (s.ends side).writing then (s.sockets side).flush attempt
    else (s.sockets side, .ok)) = attempted at hsocket hbuffer ⊢
  split
  · exact fun _ => h.fail hopen hgiven _
  · rename_i endpoint hflush
    intro hread
    refine ⟨hread, ?_, ?_, ?_⟩
    · intro e
      rcases eq_or_ne e side with heq | hne
      · simp [heq, hsocket, h.accepted side]
      · simp [hne, h.accepted e]
    · intro e _ hwriting
      dsimp only at hwriting ⊢
      rcases eq_or_ne e side with heq | hne
      · rw [heq, Function.update_self] at hwriting ⊢
        exact hbuffer ((RelayEndpoint.flush_cases hflush).2 hwriting)
      · rw [Function.update_of_ne hne] at hwriting ⊢
        exact h.flushed e (hgiven e) hwriting
    · cases side <;> exact hopen

/-- A message that was read is pending, until the next step writes it. -/
theorem readStep (h : s.Kept) {source : RelaySide} (hpoint : s.point = .read source) (now : ℚ)
    (answer : Read) (pong : ℕ) (attempt : Attempt) :
    (s.readStep source now answer pong attempt).Kept := by
  have hopen : s.closedBy = none := by simpa [hpoint] using h.closing
  have hgiven : ∀ e, ¬s.GivenUp e := by simp [GivenUp, hpoint]
  have hread := h.read_of_direction source
    ((s.direction_readStep source now answer pong attempt).imp_right fun hpayload =>
      .inl (hpayload.imp fun _ hpayload => hpayload.2))
  revert hread
  simp only [RelayPair.readStep]
  split
  · exact fun _ => ⟨h.read, h.accepted, fun side _ => h.flushed side (hgiven side), hopen⟩
  · rename_i hempty
    have hnone : (s.ends source).pending = none := by simpa using hempty
    split
    · exact fun _ => h.fail hopen hgiven _
    · rename_i isOpen endpoint hanswer
      have haccepted : ∀ side, s.handed side = (Function.update s.sockets source
          (answered (s.sockets source) answer pong attempt) side).accepted := by
        intro side
        rcases eq_or_ne side source with heq | hne
        · rw [heq, Function.update_self, accepted_answered]
          exact h.accepted source
        · rw [Function.update_of_ne hne]
          exact h.accepted side
      have hflushed : ∀ side, (Function.update s.ends source endpoint side).writing = false →
          (Function.update s.sockets source
            (answered (s.sockets source) answer pong attempt) side).buffer = [] := by
        intro side hwriting
        rcases eq_or_ne side source with heq | hne
        · rw [heq, Function.update_self] at hwriting ⊢
          obtain ⟨hping, hold⟩ := RelayEndpoint.not_writing_of_read hanswer hwriting
          exact buffer_answered hping (h.flushed source (hgiven source) hold)
        · rw [Function.update_of_ne hne] at hwriting ⊢
          exact h.flushed side (hgiven side) hwriting
      cases isOpen with
      | true => exact fun hread => ⟨hread, haccepted, fun side _ => hflushed side, hopen⟩
      | false =>
        refine fun hread => ⟨hread, haccepted, fun side _ => hflushed side, source, rfl, ?_⟩
        -- the close was read because nothing waited
        simp only [Bool.false_eq_true, if_false, Function.update_self]
        rcases RelayEndpoint.read_cases hanswer with ⟨payload, -, -, hfalse⟩ | ⟨hsame, -⟩
        · cases hfalse
        · exact hsame.trans hnone

/-- The pending message goes into the other socket's buffer. -/
theorem writeStep (h : s.Kept) {source : RelaySide} (hpoint : s.point = .write source) (now : ℚ)
    (attempt : Attempt) : (s.writeStep source now attempt).Kept := by
  have hopen : s.closedBy = none := by simpa [hpoint] using h.closing
  have hgiven : ∀ e, ¬s.GivenUp e := by simp [GivenUp, hpoint]
  have hread := h.read_of_direction source
    ((s.direction_writeStep source now attempt).imp_right .inr)
  revert hread
  simp only [RelayPair.writeStep]
  split
  · exact fun _ => h.fail hopen hgiven _
  · rename_i message source' destination hwrite
    intro hread
    rcases RelayEndpoint.write_cases hwrite with
      ⟨rfl, rfl, rfl⟩ | ⟨payload, rfl, hpending, -, -, hsame, -, hok⟩
    · refine ⟨hread, ?_, ?_, ?_⟩
      · intro side
        simpa using h.accepted side
      · intro side _
        simpa using h.flushed side (hgiven side)
      · cases source <;> exact hopen
    · rw [hpending, Option.getD_some] at hok
      refine ⟨hread, ?_, ?_, ?_⟩
      · intro side
        rcases eq_or_ne side source.other with rfl | hne
        · simp [hpending, h.accepted]
        · simp [hne, h.accepted side]
      · intro side _ hwriting
        dsimp only at hwriting ⊢
        simp only [Option.isSome_some, if_true]
        rcases eq_or_ne side source.other with heq | hne
        · rw [heq, Function.update_self] at hwriting ⊢
          rw [hpending, Option.getD_some]
          exact OutSocket.buffer_flush (hok hwriting)
        · rw [Function.update_of_ne hne] at hwriting ⊢
          apply h.flushed side (hgiven side)
          rcases eq_or_ne side source with heq | hne
          · rw [heq, Function.update_self, hsame] at hwriting
            rw [heq, hwriting]
          · rwa [Function.update_of_ne hne] at hwriting
      · cases source <;> exact hopen

/-- The attempt to close takes what it can of the buffer, and then the relay ends. -/
theorem close (h : s.Kept) {side : RelaySide} (hpoint : s.point = .close side)
    (attempt : Attempt) : (s.close side attempt).Kept := by
  have hclosing : ∃ e, s.closedBy = some e ∧ (s.ends e).pending = none := by
    simpa [hpoint] using h.closing
  refine ⟨h.read, ?_, ?_, ?_⟩
  · intro e
    rcases eq_or_ne e side with rfl | hne
    · simp [RelayPair.close, h.accepted]
    · simp [RelayPair.close, hne, h.accepted e]
  · intro e hgiven
    cases side with
    | target =>
      have hne : e ≠ .target := fun heq => hgiven heq
      simp only [RelayPair.close, Function.update_of_ne hne]
      exact h.flushed e (by simp [GivenUp, hpoint])
    | initiator => exact (hgiven trivial).elim
  · cases side <;> exact hclosing

/-- Every step keeps the account. -/
theorem step (h : s.Kept) {label : PairLabel} (hstep : relayPair.step s label s') : s'.Kept := by
  cases label with
  | flush now attempt =>
    obtain ⟨side, hpoint, rfl⟩ := hstep
    exact h.flush hpoint now attempt
  | read now answer pong attempt =>
    obtain ⟨source, hpoint, -, rfl⟩ := hstep
    exact h.readStep hpoint now answer pong attempt
  | write now attempt =>
    obtain ⟨source, hpoint, rfl⟩ := hstep
    exact h.writeStep hpoint now attempt
  | close attempt =>
    obtain ⟨side, hpoint, rfl⟩ := hstep
    exact h.close hpoint attempt

end RelayPair.Kept

/-! ## Closing -/

namespace RelayPair

variable {s s' : RelayPair}

/-- Flushing gives nothing up. -/
theorem not_givenUp_flush (side : RelaySide) (now : ℚ) (attempt : Attempt) (e : RelaySide) :
    ¬(s.flush side now attempt).GivenUp e := by
  simp only [RelayPair.flush]
  split
  · exact id
  · cases side <;> exact id

/-- Reading gives nothing up. -/
theorem not_givenUp_readStep (source : RelaySide) (now : ℚ) (answer : Read) (pong : ℕ)
    (attempt : Attempt) (e : RelaySide) :
    ¬(s.readStep source now answer pong attempt).GivenUp e := by
  simp only [RelayPair.readStep]
  split
  · exact id
  · split
    · exact id
    · split <;> exact id

/-- Writing gives nothing up: only the end of the relay can. -/
theorem not_givenUp_writeStep (source : RelaySide) (now : ℚ) (attempt : Attempt) (e : RelaySide) :
    ¬(s.writeStep source now attempt).GivenUp e := by
  simp only [RelayPair.writeStep]
  split
  · exact id
  · cases source <;> exact id

/-- The endpoint that did not close gets everything exactly if its closing attempt covers its
buffer: what was read from the other was all handed to its socket. -/
theorem Kept.written_close (h : s.Kept) {side : RelaySide} (hpoint : s.point = .close side)
    (hclosed : s.closedBy = some side.other) (attempt : Attempt) :
    ((s.sockets side).close attempt).written = s.read side.other ↔
      attempt.Covers (s.sockets side).buffer := by
  obtain ⟨e, he, hnone⟩ : ∃ e, s.closedBy = some e ∧ (s.ends e).pending = none := by
    simpa [hpoint] using h.closing
  obtain rfl : e = side.other := Option.some.inj (he.symm.trans hclosed)
  rw [h.read, hnone, Option.toList_none, List.append_nil, RelaySide.other_other, h.accepted]
  exact OutSocket.written_close

/-- **One step.** What must be delivered is delivered exactly if the step closes drained. -/
theorem delivered_step {label : PairLabel} (h : s.Kept) (hdelivered : s.Delivered)
    (hstep : relayPair.step s label s') : s'.Delivered ↔ ClosesDrained s label := by
  cases label with
  | flush now attempt =>
    obtain ⟨side, -, rfl⟩ := hstep
    exact iff_of_true (fun _ _ hgiven => (not_givenUp_flush side now attempt _ hgiven).elim) trivial
  | read now answer pong attempt =>
    obtain ⟨source, -, -, rfl⟩ := hstep
    exact iff_of_true
      (fun _ _ hgiven =>
        (not_givenUp_readStep source now answer pong attempt _ hgiven).elim) trivial
  | write now attempt =>
    obtain ⟨source, -, rfl⟩ := hstep
    exact iff_of_true
      (fun _ _ hgiven => (not_givenUp_writeStep source now attempt _ hgiven).elim) trivial
  | close attempt =>
    obtain ⟨side, hpoint, rfl⟩ := hstep
    obtain ⟨e, he, -⟩ : ∃ e, s.closedBy = some e ∧ (s.ends e).pending = none := by
      simpa [hpoint] using h.closing
    rcases eq_or_ne e side.other with rfl | hne
    · -- the socket closed is the one that must get everything
      have hgiven : (s.close side attempt).GivenUp side := by
        cases side with
        | target => exact rfl
        | initiator => exact trivial
      have hclosed := h.written_close hpoint he attempt
      constructor
      · intro hall side' hpoint' hclosedBy
        obtain rfl : side = side' := RelayPoint.close.inj (hpoint.symm.trans hpoint')
        have := hall side.other he (by rwa [RelaySide.other_other])
        rw [RelaySide.other_other] at this
        exact hclosed.mp (by simpa [RelayPair.close] using this)
      · intro hdrained e' he' _
        obtain rfl : side.other = e' := Option.some.inj (he.symm.trans he')
        rw [RelaySide.other_other]
        simpa [RelayPair.close] using hclosed.mpr (hdrained side hpoint he)
    · -- the socket closed is the one of the endpoint that closed
      obtain rfl : e = side := by revert hne; cases e <;> cases side <;> decide
      refine iff_of_true (fun e' he' hgiven => ?_) fun side' hpoint' hclosedBy => ?_
      · obtain rfl : e = e' := Option.some.inj (he.symm.trans he')
        have hbefore : s.GivenUp e.other := by
          cases e with
          | target => cases hgiven
          | initiator => simp [GivenUp, hpoint, RelaySide.other]
        have := hdelivered e he hbefore
        simpa [RelayPair.close] using this
      · obtain rfl : e = side' := RelayPoint.close.inj (hpoint.symm.trans hpoint')
        exact absurd (Option.some.inj (he.symm.trans hclosedBy)) (RelaySide.ne_other e)

/-- **Delivery and closing.** In a run of the relay everything an endpoint sent before it closed
is delivered to the other, if and only if every closing attempt on the socket of an endpoint
that did not close itself takes what that socket still has of binary messages. -/
theorem close_delivers_iff {run : List (PairLabel × RelayPair)} (hinit : relayPair.init s)
    (hrun : relayPair.IsRun s run) :
    LTS.Keeps Delivered s run ↔ LTS.Meets ClosesDrained s run := by
  have hdelivered : s.Delivered := by
    obtain ⟨_, _, -, -, -, -, -, hclosed⟩ := hinit
    intro side hside
    rw [hclosed] at hside
    cases hside
  exact LTS.keeps_iff_meets (fun _ _ _ hkept => hkept.step) (fun _ _ _ => delivered_step)
    (Kept.of_init hinit) hdelivered hrun

end RelayPair

/-! ### A message lost to congestion -/

namespace CongestedAtTheEnd

def start : RelayPair where
  point := .flush .target
  ends _ := .new none 0
  sockets _ := ⟨[], []⟩
  read _ := []
  handed _ := []
  closedBy := none

/-- The initiator sends a message, of which the system takes nothing yet. -/
def message : List UInt8 := [1, 2, 3]

/-- A second later the initiator closes, and the closing of the target's socket takes so many
bytes. -/
def labels (taken : ℕ) : List PairLabel :=
  [.flush 0 (.takes 0), .flush 0 (.takes 0), .read 0 (.frame (.binary message)) 0 (.takes 0),
    .write 0 (.takes 0), .read 0 .wouldBlock 0 (.takes 0), .write 0 (.takes 0),
    .flush 1 (.takes 0), .flush 1 (.takes 0), .read 1 (.frame .close) 0 (.takes 0),
    .close (.takes taken), .close (.takes 2)]

def run (taken : ℕ) : List (PairLabel × RelayPair) := LTS.runOf RelayPair.next start (labels taken)

theorem init_start : relayPair.init start :=
  ⟨none, fun _ => 0, rfl, fun _ => rfl, fun _ => rfl, fun _ => rfl, fun _ => rfl, rfl⟩

theorem isRun_run (taken : ℕ) : relayPair.IsRun start (run taken) :=
  LTS.isRun_runOf RelayPair.step_of_next start (labels taken)

/-- The end, if the system takes nothing still. -/
def lost : RelayPair := LTS.last start (run 0)

theorem not_delivered : ¬lost.Delivered := by
  intro h
  have hdropped : lost.point = .dropped := by decide +kernel
  have hgiven : lost.GivenUp .target := by
    rw [RelayPair.GivenUp, hdropped]
    trivial
  have hwritten := h .initiator (by decide +kernel) hgiven
  have hne : (lost.sockets .target).written ≠ lost.read .initiator := by decide +kernel
  exact hne hwritten

/-- **A message is lost.** The initiator sent it and closed, and the target never got it. -/
theorem message_lost : ¬∀ s, relayPair.Reachable s → s.Delivered := by
  intro h
  exact not_delivered (h lost ((LTS.Reachable.init init_start).of_run (isRun_run 0)))

/-- The run that loses the message closes a socket that is not drained; if the closing takes the
whole frame, the message is delivered. -/
theorem drained_or_lost : ¬LTS.Meets ClosesDrained start (run 0) ∧
    LTS.Keeps RelayPair.Delivered start (run 5) ∧
      ((LTS.last start (run 5)).sockets .target).written = [message] := by
  refine ⟨fun h => ?_, ?_, by decide +kernel⟩
  · have hkeeps := (RelayPair.close_delivers_iff init_start (isRun_run 0)).mpr h
    exact not_delivered hkeeps.last
  · exact (RelayPair.close_delivers_iff init_start (isRun_run 5)).mpr (by decide +kernel)

end CongestedAtTheEnd

end SensorRemote
