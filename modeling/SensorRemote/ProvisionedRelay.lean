import SensorRemote.Core
import SensorRemote.Lib.Transition

/-!
# The provisioned relay

`serve_forever` (`sensor-relay`) serves one pair of endpoints after the other: `serve_pair`
accepts connections until both provisioned endpoints have authenticated, tells each that
the pair is ready, and copies bytes both ways until both copies have ended. What a session
ends with decides whether there is a next one. A step is one operation on a socket, or one
turn of a copy; what the operation answers is an input.

The result says exactly when the relay outlives a session. It tolerates connections that do
not authenticate and pairs that do not come together, and nothing that happens to the
sockets of a pair that has.
-/

namespace SensorRemote

open Transition

/-- Why `serve_pair` returns an error. -/
inductive RelayError where
  /-- `relay I/O` -/
  | io
  /-- `relay authentication` -/
  | crypto
  /-- `relay identity or endpoint is not authorized` -/
  | unauthorized
  /-- `relay pairing deadline exceeded` -/
  | timeout
  /-- `relay forwarding thread failed` -/
  | worker
  deriving DecidableEq

/-- The two endpoints of a pair. -/
inductive PairRole where
  | left
  | right
  deriving DecidableEq

/-- What the relay is provisioned with. -/
structure RelayConfig where
  left : PublicKey
  right : PublicKey
  pairingTimeout : ℕ
  idleTimeout : ℕ

/-- The endpoint with a public key. -/
def RelayConfig.position (config : RelayConfig) (publicKey : PublicKey) : Option PairRole :=
  if config.left = publicKey then some .left
  else if config.right = publicKey then some .right
  else none

/-- The check of a response in `authenticate`: `response` is the key read, unless the exchange
failed before, and `verified` tells whether its signature is good. -/
def authenticate (config : RelayConfig) (response : Except RelayError PublicKey)
    (verified : Bool) : Except RelayError PairRole := do
  let publicKey ← response
  let role ← (config.position publicKey).elim (.error .unauthorized) .ok
  if verified then .ok role else .error .crypto

/-- The bytes a session copied. -/
structure RelayStats where
  leftToRight : ℕ
  rightToLeft : ℕ
  deriving DecidableEq

/-- An operation on the sockets of a pair, before the copies run. -/
inductive StartOp where
  | setReadTimeout (role : PairRole)
  | setWriteTimeout (role : PairRole)
  /-- the byte that tells an endpoint the pair is ready -/
  | writeReady (role : PairRole)
  | cloneReader
  | cloneWriter
  deriving DecidableEq

/-- The operations, in order. -/
def startOps : List StartOp :=
  [.setReadTimeout .left, .setWriteTimeout .left, .writeReady .left, .setReadTimeout .right,
    .setWriteTimeout .right, .writeReady .right, .cloneReader, .cloneWriter]

/-- What a copy ends with. -/
inductive CopyEnd where
  | eof
  | failed
  | panicked
  deriving DecidableEq

/-- A copy in one direction, with the bytes copied. -/
inductive Copy where
  | running (bytes : ℕ)
  | ended (bytes : ℕ) (how : CopyEnd)
  deriving DecidableEq

/-- Where the relay is. -/
inductive ServePoint where
  /-- at the head of `serve_forever` -/
  | cloning
  /-- at the head of `serve_pair` -/
  | entering
  /-- accepting connections, with the endpoints that are there and those rejected -/
  | accepting (deadline : ℕ) (left right : Bool) (rejected : ℕ)
  | starting (ops : List StartOp)
  | copying (forward backward : Copy)
  /-- `serve_forever` has returned -/
  | returned (error : RelayError)
  deriving DecidableEq

/-- The relay: the clock, where it is, and whether an operation on the listening socket has
failed. -/
structure RelayState where
  now : ℕ
  point : ServePoint
  listenerFailed : Bool
  deriving DecidableEq

/-- What `serve_forever` does with what `serve_pair` returned. -/
def nextSession : Except RelayError RelayStats → ServePoint
  | .ok _ => .cloning
  | .error .timeout | .error .unauthorized => .cloning
  | .error error => .returned error

namespace RelayState

variable (s : RelayState) (config : RelayConfig)

/-- An operation on the listening socket has failed, in `serve_pair` or before it. -/
def failListener : RelayState := { s with point := .returned .io, listenerFailed := true }

/-- `listener.try_clone()`. -/
def clone (ok : Bool) : RelayState := if ok then { s with point := .entering } else s.failListener

/-- The checks of `serve_pair`, and `listener.set_nonblocking(true)`. -/
def enter (ok : Bool) : RelayState :=
  if config.left = config.right ∨ config.pairingTimeout = 0 ∨ config.idleTimeout = 0 then
    { s with point := nextSession (.error .unauthorized) }
  else if ok then
    { s with point := .accepting (s.now + config.pairingTimeout) false false 0 }
  else s.failListener

/-- A connection is rejected; the session ends with the sixteenth. -/
def reject (deadline : ℕ) (left right : Bool) (rejected : ℕ) : RelayState :=
  { s with point :=
      if 16 ≤ rejected + 1 then nextSession (.error .unauthorized)
      else .accepting deadline left right (rejected + 1) }

/-- An endpoint is there, or a connection is rejected. -/
def seat (deadline : ℕ) (left right : Bool) (rejected : ℕ) :
    Except RelayError PairRole → RelayState
  | .ok .left =>
    if left then s.reject deadline left right rejected
    else { s with
      point := if right then .starting startOps else .accepting deadline true right rejected }
  | .ok .right =>
    if right then s.reject deadline left right rejected
    else { s with
      point := if left then .starting startOps else .accepting deadline left true rejected }
  | .error _ => s.reject deadline left right rejected

end RelayState

/-- What `listener.accept()` answers. -/
inductive Accepted where
  /-- a connection, whether it could be made blocking, and how it authenticates -/
  | stream (blocking : Bool) (response : Except RelayError PublicKey) (verified : Bool)
  | wouldBlock
  | failed

/-- A pass of the accepting loop. -/
def RelayState.accept (s : RelayState) (config : RelayConfig) (deadline : ℕ) (left right : Bool)
    (rejected : ℕ) (accepted : Accepted) : RelayState :=
  if deadline ≤ s.now then { s with point := nextSession (.error .timeout) }
  else
    match accepted with
    | .stream blocking response verified =>
      if blocking then
        s.seat deadline left right rejected (authenticate config response verified)
      else { s with point := nextSession (.error .io) }
    | .wouldBlock => s
    | .failed => s.failListener

/-- The next operation on the sockets of the pair. -/
def RelayState.start (s : RelayState) (rest : List StartOp) (ok : Bool) : RelayState :=
  if ok then
    { s with point := if rest = [] then .copying (.running 0) (.running 0) else .starting rest }
  else { s with point := nextSession (.error .io) }

/-- The result of a copy, or of joining its thread. -/
def CopyEnd.result (bytes : ℕ) : CopyEnd → Except RelayError ℕ
  | .eof => .ok bytes
  | .failed => .error .io
  | .panicked => .error .worker

/-- What `serve_pair` returns when both copies have ended. -/
def sessionResult (forward backward : Except RelayError ℕ) : Except RelayError RelayStats := do
  let leftToRight ← forward
  let rightToLeft ← backward
  .ok ⟨leftToRight, rightToLeft⟩

/-- The steps of the relay. -/
inductive RelayLabel where
  | tick (now : ℕ)
  | clone (ok : Bool)
  | enter (ok : Bool)
  | accept (accepted : Accepted)
  | start (ok : Bool)
  /-- bytes are copied from one endpoint to the other -/
  | copy (source : PairRole) (bytes : ℕ)
  | copyEnds (source : PairRole) (how : CopyEnd)
  /-- the forwarding thread is joined -/
  | join

/-- The relay under any behaviour of the endpoints and of the system. -/
def provisionedRelay (config : RelayConfig) : LTS RelayState RelayLabel where
  init s := s.point = .cloning ∧ s.listenerFailed = false
  step s label t :=
    match label with
    | .tick now => s.now ≤ now ∧ t = { s with now }
    | .clone ok => s.point = .cloning ∧ t = s.clone ok
    | .enter ok => s.point = .entering ∧ t = s.enter config ok
    | .accept accepted => ∃ deadline left right rejected,
        s.point = .accepting deadline left right rejected ∧
          t = s.accept config deadline left right rejected accepted
    | .start ok => ∃ op rest, s.point = .starting (op :: rest) ∧ t = s.start rest ok
    | .copy .left bytes => ∃ copied backward, s.point = .copying (.running copied) backward ∧
        t = { s with point := .copying (.running (copied + bytes)) backward }
    | .copy .right bytes => ∃ forward copied, s.point = .copying forward (.running copied) ∧
        t = { s with point := .copying forward (.running (copied + bytes)) }
    | .copyEnds .left how => ∃ copied backward, s.point = .copying (.running copied) backward ∧
        t = { s with point := .copying (.ended copied how) backward }
    | .copyEnds .right how => ∃ forward copied, s.point = .copying forward (.running copied) ∧
        how ≠ .panicked ∧ t = { s with point := .copying forward (.ended copied how) }
    | .join => ∃ forward how backward how',
        s.point = .copying (.ended forward how) (.ended backward how') ∧
          t = { s with
            point := nextSession (sessionResult (how.result forward) (how'.result backward)) }

/-! ## Outliving a session -/

/-- The relay has not returned, unless the listening socket failed; and between two sessions
it awaits the next pair as soon as the listening socket is ready. -/
def Available (config : RelayConfig) (s : RelayState) : Prop :=
  match s.point with
  | .returned _ => s.listenerFailed = true
  | .cloning | .entering =>
    ((s.clone true).enter config true).point =
      .accepting (s.now + config.pairingTimeout) false false 0
  | _ => True

/-- The step is no failure of a socket of a session, nor the end of one with such a failure. -/
def Tolerated (s : RelayState) : RelayLabel → Prop
  | .accept (.stream blocking _ _) => ∀ deadline left right rejected,
      s.point = .accepting deadline left right rejected → s.now < deadline → blocking = true
  | .start ok => ok = true
  | .join => ∀ forward how backward how',
      s.point = .copying (.ended forward how) (.ended backward how') → how = .eof ∧ how' = .eof
  | _ => True

section Lemmas

variable {config : RelayConfig} {s t : RelayState} {label : RelayLabel}

/-- With two distinct keys and timeouts, the next pair is awaited. -/
theorem enter_clone (hkeys : config.left ≠ config.right) (hpairing : 0 < config.pairingTimeout)
    (hidle : 0 < config.idleTimeout) (s : RelayState) :
    ((s.clone true).enter config true).point =
      .accepting (s.now + config.pairingTimeout) false false 0 := by
  have hchecks : ¬(config.left = config.right ∨ config.pairingTimeout = 0 ∨
      config.idleTimeout = 0) := by
    rintro (h | h | h)
    · exact hkeys h
    · omega
    · omega
  simp only [RelayState.enter, if_neg hchecks]
  rfl

/-- Only a listening socket that failed may have ended the relay. -/
def Outlived (s : RelayState) : Prop := ∀ e, s.point = .returned e → s.listenerFailed = true

theorem available_iff (hkeys : config.left ≠ config.right) (hpairing : 0 < config.pairingTimeout)
    (hidle : 0 < config.idleTimeout) (s : RelayState) : Available config s ↔ Outlived s := by
  simp only [Available, Outlived]
  have hnext := enter_clone hkeys hpairing hidle s
  cases hpoint : s.point with
  | returned e => simp
  | cloning => simp [hnext]
  | entering => simp [hnext]
  | _ => simp

/-- A failure of the listening socket ends the relay. -/
def FailedLast (s : RelayState) : Prop := s.listenerFailed = true → ∃ e, s.point = .returned e

theorem FailedLast.step (h : FailedLast s) (hstep : (provisionedRelay config).step s label t) :
    FailedLast t := by
  -- a step changes the flag only where it returns
  have hsame : (∀ e, s.point ≠ .returned e) → ∀ point, FailedLast { s with point } := by
    intro hrunning point hfailed
    obtain ⟨e, he⟩ := h hfailed
    exact absurd he (hrunning e)
  have hlistener : FailedLast s.failListener := fun _ => ⟨.io, rfl⟩
  cases label with
  | tick now =>
    obtain ⟨-, rfl⟩ := hstep
    exact h
  | clone ok =>
    obtain ⟨hpoint, rfl⟩ := hstep
    simp only [RelayState.clone]
    split
    · exact hsame (by simp [hpoint]) _
    · exact hlistener
  | enter ok =>
    obtain ⟨hpoint, rfl⟩ := hstep
    simp only [RelayState.enter]
    split
    · exact hsame (by simp [hpoint]) _
    · split
      · exact hsame (by simp [hpoint]) _
      · exact hlistener
  | accept accepted =>
    obtain ⟨deadline, left, right, rejected, hpoint, rfl⟩ := hstep
    have hmove := hsame (by simp [hpoint])
    simp only [RelayState.accept]
    split
    · exact hmove _
    · cases accepted with
      | stream blocking response verified =>
        dsimp only
        split
        · simp only [RelayState.seat]
          split
          · split <;> exact hmove _
          · split <;> exact hmove _
          · exact hmove _
        · exact hmove _
      | wouldBlock => exact h
      | failed => exact hlistener
  | start ok =>
    obtain ⟨op, rest, hpoint, rfl⟩ := hstep
    simp only [RelayState.start]
    split <;> exact hsame (by simp [hpoint]) _
  | copy source bytes =>
    cases source with
    | left =>
      obtain ⟨copied, backward, hpoint, rfl⟩ := hstep
      exact hsame (by simp [hpoint]) _
    | right =>
      obtain ⟨forward, copied, hpoint, rfl⟩ := hstep
      exact hsame (by simp [hpoint]) _
  | copyEnds source how =>
    cases source with
    | left =>
      obtain ⟨copied, backward, hpoint, rfl⟩ := hstep
      exact hsame (by simp [hpoint]) _
    | right =>
      obtain ⟨forward, copied, hpoint, -, rfl⟩ := hstep
      exact hsame (by simp [hpoint]) _
  | join =>
    obtain ⟨forward, how, backward, how', hpoint, rfl⟩ := hstep
    exact hsame (by simp [hpoint]) _

/-- A rejected connection, or one too many, ends nothing but its session. -/
theorem outlived_reject (deadline : ℕ) (left right : Bool) (rejected : ℕ) :
    Outlived (s.reject deadline left right rejected) := by
  intro e he
  simp only [RelayState.reject] at he
  split at he <;> cases he

theorem outlived_seat (deadline : ℕ) (left right : Bool) (rejected : ℕ)
    (role : Except RelayError PairRole) : Outlived (s.seat deadline left right rejected role) := by
  simp only [RelayState.seat]
  split
  · split
    · exact outlived_reject _ _ _ _
    · intro e he
      dsimp only at he
      split at he <;> cases he
  · split
    · exact outlived_reject _ _ _ _
    · intro e he
      dsimp only at he
      split at he <;> cases he
  · exact outlived_reject _ _ _ _

/-- Two copies are outlived exactly if both came to the end of what they read. -/
theorem outlived_join (hfailed : s.listenerFailed = false) (forward backward : ℕ)
    (how how' : CopyEnd) : Outlived { s with
      point := nextSession (sessionResult (how.result forward) (how'.result backward)) } ↔
        how = .eof ∧ how' = .eof := by
  cases how <;> cases how' <;>
    simp [Outlived, CopyEnd.result, sessionResult, nextSession, hfailed, bind, Except.bind]

/-- **One step** of a relay that has not returned. -/
theorem outlived_step (hI : FailedLast s) (h : Outlived s)
    (hstep : (provisionedRelay config).step s label t) : Outlived t ↔ Tolerated s label := by
  have hrunning : (∀ e, s.point ≠ .returned e) → s.listenerFailed = false := by
    intro hpoint
    by_contra hfailed
    obtain ⟨e, he⟩ := hI (by simpa using hfailed)
    exact hpoint e he
  have hlistener : Outlived s.failListener := fun _ _ => rfl
  -- an error of a socket that is not the listening one is passed on
  have hlost : s.listenerFailed = false →
      ¬Outlived { s with point := nextSession (.error .io) } := by
    intro hfailed hout
    have := hout .io rfl
    rw [hfailed] at this
    cases this
  cases label with
  | tick now =>
    obtain ⟨-, rfl⟩ := hstep
    exact iff_true_intro h
  | clone ok =>
    obtain ⟨-, rfl⟩ := hstep
    apply iff_true_intro
    simp only [RelayState.clone]
    split
    · rintro e ⟨⟩
    · exact hlistener
  | enter ok =>
    obtain ⟨-, rfl⟩ := hstep
    apply iff_true_intro
    simp only [RelayState.enter]
    split
    · rintro e ⟨⟩
    · split
      · rintro e ⟨⟩
      · exact hlistener
  | accept accepted =>
    obtain ⟨deadline, left, right, rejected, hpoint, rfl⟩ := hstep
    have hfailed := hrunning (by simp [hpoint])
    simp only [RelayState.accept]
    by_cases hdeadline : deadline ≤ s.now
    · rw [if_pos hdeadline]
      have hout : Outlived { s with point := nextSession (.error .timeout) } := by rintro e ⟨⟩
      apply iff_of_true hout
      cases accepted with
      | stream blocking response verified =>
        intro deadline' left' right' rejected' hpoint' hlate
        rw [hpoint] at hpoint'
        cases hpoint'
        omega
      | wouldBlock => trivial
      | failed => trivial
    · rw [if_neg hdeadline]
      cases accepted with
      | stream blocking response verified =>
        cases blocking with
        | true => exact iff_of_true (outlived_seat _ _ _ _ _) fun _ _ _ _ _ _ => rfl
        | false =>
          refine iff_of_false (hlost hfailed) fun htolerated => ?_
          cases htolerated deadline left right rejected hpoint (by omega)
      | wouldBlock => exact iff_true_intro h
      | failed => exact iff_true_intro hlistener
  | start ok =>
    obtain ⟨op, rest, hpoint, rfl⟩ := hstep
    have hfailed := hrunning (by simp [hpoint])
    cases ok with
    | true =>
      refine iff_of_true (fun e he => ?_) rfl
      simp only [RelayState.start, if_true] at he
      split at he <;> cases he
    | false => exact iff_of_false (hlost hfailed) (by rintro ⟨⟩)
  | copy source bytes =>
    apply iff_true_intro
    cases source with
    | left =>
      obtain ⟨copied, backward, -, rfl⟩ := hstep
      rintro e ⟨⟩
    | right =>
      obtain ⟨forward, copied, -, rfl⟩ := hstep
      rintro e ⟨⟩
  | copyEnds source how =>
    apply iff_true_intro
    cases source with
    | left =>
      obtain ⟨copied, backward, -, rfl⟩ := hstep
      rintro e ⟨⟩
    | right =>
      obtain ⟨forward, copied, -, -, rfl⟩ := hstep
      rintro e ⟨⟩
  | join =>
    obtain ⟨forward, how, backward, how', hpoint, rfl⟩ := hstep
    rw [outlived_join (hrunning (by simp [hpoint]))]
    constructor
    · intro hends forward' how₁ backward' how₂ hpoint'
      rw [hpoint] at hpoint'
      cases hpoint'
      exact hends
    · exact fun htolerated => htolerated _ _ _ _ hpoint

/-- **The relay and its sessions.** A run of the relay, provisioned with two distinct keys and
with timeouts, is available throughout, unless its listening socket fails, if and only if no
operation on the sockets of a session fails but in authentication, and every pair ends with
both copies at the end of what they read. -/
theorem available_iff_tolerated {run : List (RelayLabel × RelayState)}
    (hkeys : config.left ≠ config.right) (hpairing : 0 < config.pairingTimeout)
    (hidle : 0 < config.idleTimeout) (hinit : (provisionedRelay config).init s)
    (hrun : (provisionedRelay config).IsRun s run) :
    LTS.Keeps (Available config) s run ↔ LTS.Meets Tolerated s run := by
  have hiff := available_iff hkeys hpairing hidle
  obtain ⟨hpoint, hlistener⟩ := hinit
  refine LTS.keeps_iff_meets (I := FailedLast) (fun _ _ _ => FailedLast.step) ?_ ?_ ?_ hrun
  · intro s label t hI hs hstep
    rw [hiff] at hs ⊢
    exact outlived_step hI hs hstep
  · intro hfailed
    rw [hlistener] at hfailed
    cases hfailed
  · rw [hiff]
    intro e he
    rw [hpoint] at he
    cases he

end Lemmas

/-! ### A pair that falls silent -/

namespace SilentPair

def config : RelayConfig := ⟨Vector.replicate 32 1, Vector.replicate 32 2, 30, 60⟩
def at' (point : ServePoint) : RelayState := ⟨0, point, false⟩

/-- Both endpoints authenticate and are told so. -/
def start : RelayState := at' .cloning
def entering : RelayState := start.clone true
def accepting : RelayState := entering.enter config true
def joined1 : RelayState :=
  accepting.accept config 30 false false 0 (.stream true (.ok config.left) true)
def joined2 : RelayState :=
  joined1.accept config 30 true false 0 (.stream true (.ok config.right) true)
def started (done : ℕ) : RelayState := at' (.starting (startOps.drop done))
def copying : RelayState := at' (.copying (.running 0) (.running 0))

def pairing : List (RelayLabel × RelayState) :=
  [(.clone true, entering), (.enter true, accepting),
    (.accept (.stream true (.ok config.left) true), joined1),
    (.accept (.stream true (.ok config.right) true), joined2),
    (.start true, started 1), (.start true, started 2), (.start true, started 3),
    (.start true, started 4), (.start true, started 5), (.start true, started 6),
    (.start true, started 7), (.start true, copying)]

/-- Neither sends anything for the idle timeout, so both reads fail. -/
def silent1 : RelayState := at' (.copying (.running 0) (.ended 0 .failed))
def silent2 : RelayState := at' (.copying (.ended 0 .failed) (.ended 0 .failed))
def ended : RelayState := at' (.returned .io)

def silence : List (RelayLabel × RelayState) :=
  [(.copyEnds .right .failed, silent1), (.copyEnds .left .failed, silent2), (.join, ended)]

/-- The one sends five bytes and closes, and so does the other. -/
def sent : RelayState := at' (.copying (.running 5) (.running 0))
def closed1 : RelayState := at' (.copying (.ended 5 .eof) (.running 0))
def closed2 : RelayState := at' (.copying (.ended 5 .eof) (.ended 0 .eof))

def session : List (RelayLabel × RelayState) :=
  [(.copy .left 5, sent), (.copyEnds .left .eof, closed1), (.copyEnds .right .eof, closed2),
    (.join, start), (.clone true, entering), (.enter true, accepting)]

theorem init_start : (provisionedRelay config).init start := ⟨rfl, rfl⟩

theorem isRun_pairing : (provisionedRelay config).IsRun start pairing :=
  ⟨⟨rfl, rfl⟩, ⟨rfl, rfl⟩, ⟨30, false, false, 0, by decide +kernel, rfl⟩,
    ⟨30, true, false, 0, by decide +kernel, rfl⟩,
    ⟨.setReadTimeout .left, startOps.drop 1, by decide +kernel, by decide +kernel⟩,
    ⟨_, _, rfl, rfl⟩, ⟨_, _, rfl, rfl⟩, ⟨_, _, rfl, rfl⟩, ⟨_, _, rfl, rfl⟩, ⟨_, _, rfl, rfl⟩,
    ⟨_, _, rfl, rfl⟩, ⟨_, _, rfl, rfl⟩, trivial⟩

theorem isRun_silence : (provisionedRelay config).IsRun start (pairing ++ silence) := by
  refine LTS.isRun_append.mpr ⟨isRun_pairing, ?_⟩
  exact ⟨⟨_, _, rfl, by simp, rfl⟩, ⟨_, _, rfl, rfl⟩, ⟨_, _, _, _, rfl, rfl⟩, trivial⟩

theorem isRun_session : (provisionedRelay config).IsRun start (pairing ++ session) := by
  refine LTS.isRun_append.mpr ⟨isRun_pairing, ?_⟩
  exact ⟨⟨_, _, rfl, rfl⟩, ⟨_, _, rfl, rfl⟩, ⟨_, _, rfl, by simp, rfl⟩, ⟨_, _, _, _, rfl, rfl⟩,
    ⟨rfl, rfl⟩, ⟨rfl, by decide +kernel⟩, trivial⟩

theorem reachable_ended : (provisionedRelay config).Reachable ended :=
  (LTS.Reachable.init init_start).of_run isRun_silence

/-- **A relay ends with a session**: two endpoints authenticated and fell silent. -/
theorem relay_ended : ¬∀ s, (provisionedRelay config).Reachable s → Available config s := by
  intro h
  cases h ended reachable_ended

/-- A session after which the relay is there for the next. -/
theorem session_tolerated : LTS.Meets Tolerated start (pairing ++ session) := by
  refine ⟨trivial, trivial, fun _ _ _ _ _ _ => rfl, fun _ _ _ _ _ _ => rfl, rfl, rfl, rfl, rfl,
    rfl, rfl, rfl, rfl, trivial, trivial, trivial, ?_, trivial, trivial, trivial⟩
  rintro _ _ _ _ ⟨⟩
  exact ⟨rfl, rfl⟩

/-- The silence is not tolerated. -/
theorem available_unless_silent : ¬LTS.Meets Tolerated start (pairing ++ silence) ∧
    LTS.Keeps (Available config) start (pairing ++ session) := by
  refine ⟨fun h => ?_, ?_⟩
  · have hkeeps := (available_iff_tolerated (by decide) (by decide) (by decide) init_start
      isRun_silence).mpr h
    cases LTS.Keeps.last hkeeps
  · exact (available_iff_tolerated (by decide) (by decide) (by decide) init_start
      isRun_session).mpr session_tolerated

end SilentPair

end SensorRemote
