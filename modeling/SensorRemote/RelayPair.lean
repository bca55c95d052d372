import SensorRemote.Lib.Hop
import SensorRemote.Relay
import Mathlib.Logic.Function.Basic

/-!
# The two directions of a relay

`relay_pair` of the rendezvous service (`sensor-rendezvous`, `main.rs`): a round of its loop
lets the unfinished writes of both endpoints go on and forwards in both directions, until an
endpoint closes. Then both sockets are told to close, which is one attempt more at what they
still have to write, and dropped.

The sockets are those of the websocket library: what is sent and cannot be written at once
is kept, and later attempts go on with it. How much the system takes in an attempt is an
input.
-/

namespace SensorRemote

open Transition

/-! ## Sockets -/

/-- A frame in a socket's write buffer: its payload, if it is a binary message, and how many
of its bytes are not written yet. -/
structure OutFrame where
  payload : Option (List UInt8)
  left : ℕ

/-- The length of the header before a payload of so many bytes. -/
def headerBytes (length : ℕ) : ℕ :=
  if length < 126 then 2 else if length < 65536 then 4 else 10

def OutFrame.binary (payload : List UInt8) : OutFrame :=
  ⟨some payload, headerBytes payload.length + payload.length⟩

/-- A control frame with so many bytes of payload. -/
def OutFrame.control (bytes : ℕ) : OutFrame := ⟨none, headerBytes bytes + bytes⟩

/-- What the system makes of an attempt to write: it takes so many bytes, or fails. -/
inductive Attempt where
  | takes (bytes : ℕ)
  | failed

/-- The frames left when so many bytes were taken of a buffer, and the payloads of the binary
messages completely written by that. -/
def takeBytes : ℕ → List OutFrame → List OutFrame × List (List UInt8)
  | _, [] => ([], [])
  | n, frame :: rest =>
    if frame.left ≤ n then
      let (buffer, written) := takeBytes (n - frame.left) rest
      (buffer, frame.payload.toList ++ written)
    else ({ frame with left := frame.left - n } :: rest, [])

/-- The binary messages of a buffer. -/
def payloads (buffer : List OutFrame) : List (List UInt8) := buffer.filterMap OutFrame.payload

/-- A message is written or in the buffer, whatever is taken. -/
theorem takeBytes_payloads (n : ℕ) (buffer : List OutFrame) :
    (takeBytes n buffer).2 ++ payloads (takeBytes n buffer).1 = payloads buffer := by
  induction buffer generalizing n with
  | nil => rfl
  | cons frame rest ih =>
    simp only [takeBytes]
    split
    · have hrest := ih (n - frame.left)
      simp only [payloads] at hrest
      cases hpayload : frame.payload with
      | none => simpa [payloads, hpayload] using hrest
      | some payload => simpa [payloads, hpayload] using hrest
    · simp [payloads, List.filterMap_cons]

/-- The bytes up to the end of the last binary message of a buffer. -/
def payloadBytes : List OutFrame → ℕ
  | [] => 0
  | frame :: rest =>
    if payloads (frame :: rest) = [] then 0 else frame.left + payloadBytes rest

/-- All binary messages of a buffer are written if and only if so many bytes are taken. -/
theorem takeBytes_all {n : ℕ} {buffer : List OutFrame} :
    payloads (takeBytes n buffer).1 = [] ↔ payloadBytes buffer ≤ n := by
  induction buffer generalizing n with
  | nil => simp [takeBytes, payloads, payloadBytes]
  | cons frame rest ih =>
    have hrest := ih (n := n - frame.left)
    simp only [takeBytes, payloadBytes]
    by_cases hnone : payloads (frame :: rest) = []
    · rw [if_pos hnone]
      refine iff_of_true ?_ (Nat.zero_le _)
      have := takeBytes_payloads n (frame :: rest)
      rw [hnone, List.append_eq_nil_iff] at this
      simpa only [takeBytes] using this.2
    · rw [if_neg hnone]
      split
      · rename_i hle
        rw [show payloads (takeBytes (n - frame.left) rest).1 = [] ↔ _ from hrest]
        omega
      · rename_i hlt
        refine iff_of_false ?_ (by omega)
        simpa [payloads, List.filterMap_cons] using hnone

/-- A socket to one endpoint: the frames not completely written, and the binary messages that
were. -/
structure OutSocket where
  buffer : List OutFrame
  written : List (List UInt8)

namespace OutSocket

/-- `flush`: the buffer is written as far as the system takes it. -/
def flush (socket : OutSocket) : Attempt → OutSocket × Sent
  | .takes n =>
    let (buffer, written) := takeBytes n socket.buffer
    (⟨buffer, socket.written ++ written⟩, if buffer.isEmpty then .ok else .wouldBlock)
  | .failed => (socket, .failed)

/-- A frame is put behind those that wait. -/
def push (socket : OutSocket) (frame : OutFrame) : OutSocket :=
  { socket with buffer := socket.buffer ++ [frame] }

/-- `send` of a binary message. -/
def send (socket : OutSocket) (payload : List UInt8) (attempt : Attempt) : OutSocket × Sent :=
  (socket.push (.binary payload)).flush attempt

/-- `close`: the closing frame is sent, in one attempt. -/
def close (socket : OutSocket) (attempt : Attempt) : OutSocket :=
  ((socket.push (.control 0)).flush attempt).1

/-- All that was sent through the socket. -/
def accepted (socket : OutSocket) : List (List UInt8) := socket.written ++ payloads socket.buffer

@[simp] theorem accepted_flush (socket : OutSocket) (attempt : Attempt) :
    (socket.flush attempt).1.accepted = socket.accepted := by
  cases attempt with
  | takes n =>
    simp only [accepted, flush, List.append_assoc]
    rw [takeBytes_payloads]
  | failed => rfl

@[simp] theorem accepted_push (socket : OutSocket) (frame : OutFrame) :
    (socket.push frame).accepted = socket.accepted ++ frame.payload.toList := by
  cases h : frame.payload <;> simp [accepted, push, payloads, h]

@[simp] theorem accepted_send (socket : OutSocket) (payload : List UInt8) (attempt : Attempt) :
    (socket.send payload attempt).1.accepted = socket.accepted ++ [payload] := by
  simp [send, OutFrame.binary]

@[simp] theorem accepted_close (socket : OutSocket) (attempt : Attempt) :
    (socket.close attempt).accepted = socket.accepted := by
  simp [close, OutFrame.control]

end OutSocket

/-! ## The loop -/

/-- The endpoints of a relay: the device connected to and the one that connected. -/
inductive RelaySide where
  | target
  | initiator
  deriving DecidableEq

def RelaySide.other : RelaySide → RelaySide
  | target => initiator
  | initiator => target

@[simp] theorem RelaySide.other_other (side : RelaySide) : side.other.other = side := by
  cases side <;> rfl

@[simp] theorem RelaySide.other_ne (side : RelaySide) : side.other ≠ side := by
  cases side <;> decide

@[simp] theorem RelaySide.ne_other (side : RelaySide) : side ≠ side.other := by
  cases side <;> decide

/-- Where `relay_pair` is. -/
inductive RelayPoint where
  | flush (side : RelaySide)
  /-- in the first half of `relay_step` -/
  | read (source : RelaySide)
  /-- in the second half of `relay_step` -/
  | write (source : RelaySide)
  /-- after the loop -/
  | close (side : RelaySide)
  /-- both sockets are dropped -/
  | dropped
  /-- the function returned an error -/
  | failed (failure : RelayFailure)
  deriving DecidableEq

/-- The variables of `relay_pair` and the sockets; what was read from each side and what was
handed to the socket of each side. -/
structure RelayPair where
  point : RelayPoint
  ends : RelaySide → RelayEndpoint
  sockets : RelaySide → OutSocket
  read : RelaySide → List (List UInt8)
  handed : RelaySide → List (List UInt8)
  /-- the side whose close ended the loop -/
  closedBy : Option RelaySide

namespace RelayPair

/-- `flush` of one endpoint. -/
def flush (s : RelayPair) (side : RelaySide) (now : ℚ) (attempt : Attempt) : RelayPair :=
  let (socket, sent) :=
    if (s.ends side).writing then (s.sockets side).flush attempt else (s.sockets side, .ok)
  match (s.ends side).flush now sent with
  | .error failure => { s with point := .failed failure }
  | .ok endpoint =>
    { s with
      point := match side with
        | .target => .flush .initiator
        | .initiator => .read .initiator
      ends := Function.update s.ends side endpoint
      sockets := Function.update s.sockets side socket }

/-- What reading an answer does to a socket: the pong to a ping is put behind what waits, and
while a control frame waits, reading makes an attempt to write too. -/
def answered (socket : OutSocket) (answer : Read) (pong : ℕ) (attempt : Attempt) : OutSocket :=
  let socket := match answer with
    | .frame .ping => socket.push (.control pong)
    | _ => socket
  if socket.buffer.any (·.payload.isNone) then (socket.flush attempt).1 else socket

/-- The first half of `relay_step`. -/
def readStep (s : RelayPair) (source : RelaySide) (now : ℚ) (answer : Read) (pong : ℕ)
    (attempt : Attempt) : RelayPair :=
  if (s.ends source).pending.isSome then { s with point := .write source }
  else
    match (s.ends source).read now answer with
    | .error failure => { s with point := .failed failure }
    | .ok (isOpen, endpoint) =>
      let s := { s with
        ends := Function.update s.ends source endpoint
        sockets := Function.update s.sockets source
          (answered (s.sockets source) answer pong attempt)
        read := Function.update s.read source (s.read source ++ endpoint.pending.toList) }
      if isOpen then { s with point := .write source }
      else { s with point := .close .target, closedBy := some source }

/-- The second half of `relay_step`. -/
def writeStep (s : RelayPair) (source : RelaySide) (now : ℚ) (attempt : Attempt) : RelayPair :=
  let (socket, sent) := (s.sockets source.other).send ((s.ends source).pending.getD []) attempt
  match (s.ends source).write (s.ends source.other) now sent with
  | .error failure => { s with point := .failed failure }
  | .ok (message, source', destination) =>
    { s with
      point := match source with
        | .initiator => .read .target
        | .target => .flush .target
      ends := Function.update (Function.update s.ends source source') source.other destination
      sockets := if message.isSome then Function.update s.sockets source.other socket else s.sockets
      handed := Function.update s.handed source.other
        (s.handed source.other ++ message.toList) }

/-- `close` of one socket, whose result is not looked at. -/
def close (s : RelayPair) (side : RelaySide) (attempt : Attempt) : RelayPair :=
  { s with
    point := match side with
      | .target => .close .initiator
      | .initiator => .dropped
    sockets := Function.update s.sockets side ((s.sockets side).close attempt) }

end RelayPair

/-- A step of `relay_pair`, with the clock and what the system answers. -/
inductive PairLabel where
  | flush (now : ℚ) (attempt : Attempt)
  /-- `pong` is the length of a pong, if one is due -/
  | read (now : ℚ) (answer : Read) (pong : ℕ) (attempt : Attempt)
  | write (now : ℚ) (attempt : Attempt)
  | close (attempt : Attempt)

/-- A socket configured for messages of at most so many bytes answers no longer one. -/
def Read.Within (limit : ℕ) : Read → Prop
  | .frame (.binary payload) => payload.length ≤ limit
  | _ => True

def relayPair : LTS RelayPair PairLabel where
  init s := ∃ bitrate, ∃ start : RelaySide → ℚ, s.point = .flush .target ∧
    (∀ side, s.ends side = .new bitrate (start side)) ∧ (∀ side, s.sockets side = ⟨[], []⟩) ∧
    (∀ side, s.read side = []) ∧ (∀ side, s.handed side = []) ∧ s.closedBy = none
  step s label s' :=
    match label with
    | .flush now attempt => ∃ side, s.point = .flush side ∧ s' = s.flush side now attempt
    | .read now answer pong attempt => ∃ source, s.point = .read source ∧
        answer.Within MAX_RELAY_BYTES ∧ s' = s.readStep source now answer pong attempt
    | .write now attempt => ∃ source, s.point = .write source ∧
        s' = s.writeStep source now attempt
    | .close attempt => ∃ side, s.point = .close side ∧ s' = s.close side attempt

instance (limit : ℕ) : (answer : Read) → Decidable (answer.Within limit)
  | .frame (.binary payload) => inferInstanceAs (Decidable (payload.length ≤ limit))
  | .frame (.text _) | .frame .ping | .frame .pong | .frame .close | .wouldBlock | .failed =>
    .isTrue trivial

/-! ## What a step does -/

namespace RelayPair

variable {s : RelayPair}

/-- The step, carried out, if the relay is where it is made. -/
def next (s : RelayPair) : PairLabel → Option RelayPair
  | .flush now attempt =>
    match s.point with
    | .flush side => some (s.flush side now attempt)
    | _ => none
  | .read now answer pong attempt =>
    match s.point with
    | .read source =>
      if answer.Within MAX_RELAY_BYTES then some (s.readStep source now answer pong attempt)
      else none
    | _ => none
  | .write now attempt =>
    match s.point with
    | .write source => some (s.writeStep source now attempt)
    | _ => none
  | .close attempt =>
    match s.point with
    | .close side => some (s.close side attempt)
    | _ => none

theorem step_of_next {s' : RelayPair} {label : PairLabel} (h : s.next label = some s') :
    relayPair.step s label s' := by
  cases label with
  | flush now attempt =>
    simp only [next] at h
    split at h <;> cases h
    exact ⟨_, ‹_›, rfl⟩
  | read now answer pong attempt =>
    simp only [next] at h
    split at h
    · split at h <;> cases h
      exact ⟨_, ‹_›, ‹_›, rfl⟩
    · cases h
  | write now attempt =>
    simp only [next] at h
    split at h <;> cases h
    exact ⟨_, ‹_›, rfl⟩
  | close attempt =>
    simp only [next] at h
    split at h <;> cases h
    exact ⟨_, ‹_›, rfl⟩

/-- The part of the state that one direction is about: what was read from a side, what waits
of it and what was handed to the other. -/
def direction (s : RelayPair) (side : RelaySide) :
    List (List UInt8) × Option (List UInt8) × List (List UInt8) :=
  (s.read side, (s.ends side).pending, s.handed side.other)

theorem direction_flush (s : RelayPair) (side : RelaySide) (now : ℚ) (attempt : Attempt) :
    (s.flush side now attempt).direction = s.direction := by
  funext e
  simp only [flush]
  split
  · rfl
  · rename_i endpoint hflush
    rcases eq_or_ne e side with rfl | hne
    · simp [direction, RelayEndpoint.pending_flush hflush]
    · simp [direction, hne]

theorem direction_close (s : RelayPair) (side : RelaySide) (attempt : Attempt) :
    (s.close side attempt).direction = s.direction := rfl

/-- Reading takes a payload into the slot, which was empty, or changes nothing. -/
theorem direction_readStep (s : RelayPair) (source : RelaySide) (now : ℚ) (answer : Read)
    (pong : ℕ) (attempt : Attempt) :
    (s.readStep source now answer pong attempt).direction = s.direction ∨
      ∃ payload, answer = .frame (.binary payload) ∧ (s.ends source).pending = none ∧
        (s.readStep source now answer pong attempt).direction = Function.update s.direction source
          (s.read source ++ [payload], some payload, s.handed source.other) := by
  simp only [readStep]
  split
  · exact .inl rfl
  · rename_i hempty
    have hnone : (s.ends source).pending = none := by simpa using hempty
    split
    · exact .inl rfl
    · rename_i isOpen endpoint hread
      rcases RelayEndpoint.read_cases hread with ⟨payload, hbinary, hpending, rfl⟩ | ⟨hsame, -⟩
      · refine .inr ⟨payload, hbinary, hnone, ?_⟩
        funext e
        rcases eq_or_ne e source with rfl | hne
        · simp [direction, hpending]
        · simp [direction, hne]
      · refine .inl ?_
        funext e
        have hpending : endpoint.pending = none := hsame.trans hnone
        rcases eq_or_ne e source with rfl | hne
        · split <;> simp [direction, hpending, hnone]
        · split <;> simp [direction, hne]

/-- Writing hands on what waits, or changes nothing. -/
theorem direction_writeStep (s : RelayPair) (source : RelaySide) (now : ℚ) (attempt : Attempt) :
    (s.writeStep source now attempt).direction = s.direction ∨
      ∃ payload, (s.ends source).pending = some payload ∧
        (s.writeStep source now attempt).direction = Function.update s.direction source
          (s.read source, none, s.handed source.other ++ [payload]) := by
  simp only [writeStep]
  split
  · exact .inl rfl
  · rename_i message source' destination hwrite
    rcases RelayEndpoint.write_cases hwrite with
      ⟨rfl, rfl, rfl⟩ | ⟨payload, rfl, hpending, hnone, hsame, -⟩
    · refine .inl ?_
      funext e
      rcases eq_or_ne e source with rfl | hne
      · simp [direction]
      · obtain rfl : e = source.other := by revert hne; cases e <;> cases source <;> decide
        simp [direction]
    · refine .inr ⟨payload, hpending, ?_⟩
      funext e
      rcases eq_or_ne e source with rfl | hne
      · simp [direction, hnone]
      · obtain rfl : e = source.other := by revert hne; cases e <;> cases source <;> decide
        simp [direction, hsame]

/-! ## Each direction is a hop -/

/-- One direction as a hop. -/
def hop (s : RelayPair) (side : RelaySide) : Hop UInt8 where
  taken := s.read side
  waiting := (s.ends side).pending.getD []
  handed := (s.handed side.other).flatten

theorem hop_congr {s' : RelayPair} {side : RelaySide}
    (h : s'.direction side = s.direction side) : s'.hop side = s.hop side := by
  simp only [direction, Prod.mk.injEq] at h
  obtain ⟨hread, hpending, hhanded⟩ := h
  simp only [hop, hread, hpending, hhanded]

/-- **A relay forwards like a hop.** -/
theorem hop_step {s' : RelayPair} {label : PairLabel} (hstep : relayPair.step s label s')
    (side : RelaySide) : s'.hop side = s.hop side ∨
      ∃ move, (Transition.hop UInt8 MAX_RELAY_BYTES).step (s.hop side) move (s'.hop side) := by
  cases label with
  | flush now attempt =>
    obtain ⟨e, -, rfl⟩ := hstep
    exact .inl (hop_congr (by rw [direction_flush]))
  | close attempt =>
    obtain ⟨e, -, rfl⟩ := hstep
    exact .inl (hop_congr (by rw [direction_close]))
  | read now answer pong attempt =>
    obtain ⟨source, -, hwithin, rfl⟩ := hstep
    rcases s.direction_readStep source now answer pong attempt with
      hsame | ⟨payload, rfl, hnone, htaken⟩
    · exact .inl (hop_congr (by rw [hsame]))
    · rcases eq_or_ne side source with rfl | hne
      · have hdirection := congrFun htaken side
        simp only [direction, Function.update_self, Prod.mk.injEq] at hdirection
        obtain ⟨hread, hpending, hhanded⟩ := hdirection
        refine .inr ⟨.take payload, by simp [hop, hnone], hwithin, ?_⟩
        simp only [hop, hread, hpending, hhanded, Option.getD_some]
      · exact .inl (hop_congr (by rw [htaken, Function.update_of_ne hne]))
  | write now attempt =>
    obtain ⟨source, -, rfl⟩ := hstep
    rcases s.direction_writeStep source now attempt with hsame | ⟨payload, hpayload, hwritten⟩
    · exact .inl (hop_congr (by rw [hsame]))
    · rcases eq_or_ne side source with rfl | hne
      · have hdirection := congrFun hwritten side
        simp only [direction, Function.update_self, Prod.mk.injEq] at hdirection
        obtain ⟨hread, hpending, hhanded⟩ := hdirection
        refine .inr ⟨.hand payload.length, ?_⟩
        simp [Transition.hop, hop, hread, hpending, hhanded, hpayload]
      · exact .inl (hop_congr (by rw [hwritten, Function.update_of_ne hne]))

/-- What a relay has handed to an endpoint is what it read from the other, but for one
message. -/
theorem faithful (h : relayPair.Reachable s) (side : RelaySide) :
    Faithful MAX_RELAY_BYTES (s.read side) (s.handed side.other).flatten := by
  refine faithful_of_reachable (h := s.hop side) ?_
  refine LTS.Reachable.simulate (hop · side) ?_ (fun _ _ _ _ hstep => hop_step hstep side) h
  rintro s ⟨bitrate, start, -, hends, -, hread, hhanded, -⟩
  simp [Transition.hop, hop, hends, hread, hhanded, RelayEndpoint.new]

end RelayPair

end SensorRemote
