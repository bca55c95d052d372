import Mathlib.Data.Rat.Defs
import Mathlib.Algebra.Order.Ring.Unbundled.Rat
import Mathlib.Tactic.Common

/-!
# Forwarding frames

The control messages and websocket frames of the rendezvous service, and the forwarding of
`relay_pair`: an endpoint of the relay holds one message that waits to be written to the
other side, not before the rate limit allows it. A step for one direction reads a message if
none is waiting, and writes the one waiting if it may. What the sockets answer and the clock
are inputs; times are rational numbers of seconds.
-/

namespace SensorRemote

/-- The greatest payload forwarded in one frame. -/
def MAX_RELAY_BYTES : ℕ := 1024 * 1024

/-- The size of the buffer a client's `bridge` reads TCP into, and so of what it sends at once. -/
def BRIDGE_BUFFER : ℕ := 64 * 1024

/-- A control message between a client and the rendezvous server. -/
inductive ControlMessage where
  | challenge (nonce : String)
  | register (deviceId publicKey nonce signature : String) (listen : Bool)
  | registered (token : String) (expiresSeconds : ℕ)
  | connect (token targetDeviceId targetPublicKey : String)
  | peerReady (peerDeviceId peerPublicKey : String)
  | heartbeat (token : String)
  | heartbeatAck
  | error (code message : String)
  deriving DecidableEq

/-- A websocket message. -/
inductive WsMessage where
  | text (message : ControlMessage)
  | binary (payload : List UInt8)
  | ping
  | pong
  | close
  deriving DecidableEq

/-- What a nonblocking read answers. -/
inductive Read where
  | frame (frame : WsMessage)
  | wouldBlock
  | failed

/-- What a nonblocking write or flush answers. -/
inductive Sent where
  | ok
  | wouldBlock
  | failed

/-! ## The rate limit -/

structure RateLimiter where
  maxBitrate : Option ℕ
  /-- when the next message may be written -/
  next : ℚ

def RateLimiter.new (maxBitrate : Option ℕ) (now : ℚ) : RateLimiter := ⟨maxBitrate, now⟩

/-- When a message of so many bytes is due, and the limiter after it. -/
def RateLimiter.reserve (limiter : RateLimiter) (now : ℚ) (bytes : ℕ) : ℚ × RateLimiter :=
  match limiter.maxBitrate.filter (0 < ·) with
  | none => (now, limiter)
  | some limit =>
    let due := max limiter.next now
    (due, { limiter with next := due + bytes * 8 / limit })

/-! ## The two endpoints of a relay -/

/-- Why a relay ends with an error. -/
inductive RelayFailure where
  /-- `invalid relay frame` -/
  | invalidFrame
  /-- `relay write stalled` -/
  | writeStalled
  /-- an error of a socket -/
  | socket
  deriving DecidableEq

/-- One endpoint of a relay: the message read from it and not yet written to the other, when
that is due, and whether a write to this endpoint is unfinished. -/
structure RelayEndpoint where
  pending : Option (List UInt8)
  ready : ℚ
  limiter : RateLimiter
  writing : Bool
  writeStarted : ℚ

namespace RelayEndpoint

def new (bitrate : Option ℕ) (now : ℚ) : RelayEndpoint :=
  ⟨none, now, .new bitrate now, false, now⟩

/-- An unfinished write goes on; it may take five seconds. -/
def flush (endpoint : RelayEndpoint) (now : ℚ) (sent : Sent) : Except RelayFailure RelayEndpoint :=
  if endpoint.writing then
    match sent with
    | .ok => .ok { endpoint with writing := false }
    | .wouldBlock =>
      if now - endpoint.writeStarted > 5 then .error .writeStalled else .ok endpoint
    | .failed => .error .socket
  else .ok endpoint

/-- The first half of `relay_step`: read a message if none is waiting. The answer tells
whether the endpoint is still open. -/
def read (source : RelayEndpoint) (now : ℚ) : Read → Except RelayFailure (Bool × RelayEndpoint)
  | .frame (.binary payload) =>
    if payload.length ≤ MAX_RELAY_BYTES then
      let (ready, limiter) := source.limiter.reserve now payload.length
      .ok (true, { source with ready, limiter, pending := some payload })
    else .error .invalidFrame
  | .frame .ping =>
    -- the answering pong waits to be flushed
    .ok (true, { source with
      writing := true, writeStarted := if source.writing then source.writeStarted else now })
  | .frame .pong => .ok (true, source)
  | .frame .close => .ok (false, source)
  | .frame (.text _) => .error .invalidFrame
  | .wouldBlock => .ok (true, source)
  | .failed => .error .socket

/-- The second half of `relay_step`: write the message waiting, if it is due and the other
endpoint takes one. The answer has the payload written. -/
def write (source destination : RelayEndpoint) (now : ℚ) (sent : Sent) :
    Except RelayFailure (Option (List UInt8) × RelayEndpoint × RelayEndpoint) :=
  if destination.writing = false ∧ source.ready ≤ now then
    match source.pending with
    | none => .ok (none, source, destination)
    | some payload =>
      let source := { source with pending := none }
      match sent with
      | .ok => .ok (some payload, source, destination)
      | .wouldBlock => .ok (some payload, source, { destination with
          writing := true, writeStarted := now })
      | .failed => .error .socket
  else .ok (none, source, destination)

/-- A flush leaves the message waiting, and clears the flag only if everything is written. -/
theorem flush_cases {e e' : RelayEndpoint} {now : ℚ} {sent : Sent}
    (h : e.flush now sent = .ok e') : e'.pending = e.pending ∧
      (e'.writing = false → e.writing = false ∨ sent = .ok) := by
  simp only [flush] at h
  split at h
  · split at h
    · cases h
      exact ⟨rfl, fun _ => .inr rfl⟩
    · split at h
      · cases h
      · cases h
        exact ⟨rfl, .inl⟩
    · cases h
  · cases h
    exact ⟨rfl, .inl⟩

theorem pending_flush {e e' : RelayEndpoint} {now : ℚ} {sent : Sent}
    (h : e.flush now sent = .ok e') : e'.pending = e.pending :=
  (flush_cases h).1

/-- What reading comes to: a payload waits, or what waited before. -/
theorem read_cases {e e' : RelayEndpoint} {now : ℚ} {answer : Read} {isOpen : Bool}
    (h : e.read now answer = .ok (isOpen, e')) :
    (∃ payload, answer = .frame (.binary payload) ∧ e'.pending = some payload ∧
        isOpen = true) ∨
      e'.pending = e.pending ∧ ∀ payload, answer ≠ .frame (.binary payload) := by
  simp only [read] at h
  split at h
  · split at h
    · cases h
      exact .inl ⟨_, rfl, rfl, rfl⟩
    · cases h
  · cases h
    exact .inr ⟨rfl, by simp⟩
  · cases h
    exact .inr ⟨rfl, by simp⟩
  · cases h
    exact .inr ⟨rfl, by simp⟩
  · cases h
  · cases h
    exact .inr ⟨rfl, by simp⟩
  · cases h

/-- An endpoint that is not writing after a read was not before, and was not pinged. -/
theorem not_writing_of_read {e e' : RelayEndpoint} {now : ℚ} {answer : Read} {isOpen : Bool}
    (h : e.read now answer = .ok (isOpen, e')) (hwriting : e'.writing = false) :
    answer ≠ .frame .ping ∧ e.writing = false := by
  simp only [read] at h
  split at h
  · split at h
    · cases h
      exact ⟨by simp, hwriting⟩
    · cases h
  · cases h
    cases hwriting
  · cases h
    exact ⟨by simp, hwriting⟩
  · cases h
    exact ⟨by simp, hwriting⟩
  · cases h
  · cases h
    exact ⟨by simp, hwriting⟩
  · cases h

/-- What writing comes to: nothing, or the message waiting is written to an endpoint that is
not writing. -/
theorem write_cases {source destination source' destination' : RelayEndpoint} {now : ℚ}
    {sent : Sent} {message : Option (List UInt8)}
    (h : source.write destination now sent = .ok (message, source', destination')) :
    (message = none ∧ source' = source ∧ destination' = destination) ∨
      ∃ payload, message = some payload ∧ source.pending = some payload ∧
        source'.pending = none ∧ destination'.pending = destination.pending ∧
        source'.writing = source.writing ∧ destination.writing = false ∧
        (destination'.writing = false → sent = .ok) := by
  simp only [write] at h
  split at h
  · rename_i hdue
    split at h
    · cases h
      exact .inl ⟨rfl, rfl, rfl⟩
    · rename_i payload hpending
      split at h
      · cases h
        exact .inr ⟨payload, rfl, hpending, rfl, rfl, rfl, hdue.1, fun _ => rfl⟩
      · cases h
        exact .inr ⟨payload, rfl, hpending, rfl, rfl, rfl, hdue.1, fun h => by cases h⟩
      · cases h
  · cases h
    exact .inl ⟨rfl, rfl, rfl⟩

end RelayEndpoint

end SensorRemote
