import SensorRemote.Contacts
import SensorRemote.Lib.Transition
import Mathlib.Logic.Function.Basic

/-!
# Who lets a session in

A worker that serves (`execute` of `sensor-desktop`, `worker.rs`) accepts one connection and
asks `Interaction::accept` about the session its peer requests. That answers by itself in a
task that accepts automatically; otherwise it sends the window an event with a channel for
the reply, and waits. The window (`App`, `ui.rs`) polls the events of two workers, its job
and its listener: it refuses devices whose key is not the saved one, lets a granted device
of the listener in, and shows all others in its one prompt.

Workers, polling and what the user does interleave. The user acts between two polls, and
only on the prompt while there is one. Whatever the clock, the network and the peers do
are inputs.
-/

namespace SensorRemote

open Transition

/-! ## Workers -/

/-- What matters of `Task::Host`, with the peer the worker is started for. -/
structure HostTask where
  peer : ExpectedPeer PublicKey
  autoAccept : Bool
  acceptAny : Bool
  deriving DecidableEq

/-- The check `execute` begins with. -/
def HostTask.refused (task : HostTask) : Bool :=
  task.autoAccept && (task.acceptAny || task.peer.publicKey = NO_KEY)

/-- An event for the window, as far as requests depend on it. -/
inductive WorkerEvent where
  | consent (peer : ExpectedPeer PublicKey) (mode : SessionMode) (reply : ℕ)
  | finished
  /-- any other -/
  | other
  deriving DecidableEq

/-- Where a worker is. -/
inductive WorkerPoint where
  | listening
  | connected (peer : ExpectedPeer PublicKey)
  /-- in `Interaction::accept`, waiting for the reply -/
  | asking (reply : ℕ) (peer : ExpectedPeer PublicKey) (mode : SessionMode)
  /-- `Interaction::accept` has returned, after asking or at once -/
  | answered (reply : Option ℕ) (peer : ExpectedPeer PublicKey) (mode : SessionMode)
      (accepted : Bool)
  | ended
  deriving DecidableEq

/-- A worker: its task, if it is one that serves, whether it is the listener, and the events
it has sent that were not polled. -/
structure Worker where
  task : Option HostTask
  listener : Bool
  point : WorkerPoint
  events : List WorkerEvent

def Worker.start (task : Option HostTask) (listener : Bool) : Worker where
  task
  listener
  point := if task.any HostTask.refused then .ended else .listening
  events := []

section Handshake

variable {σ ι ε : Type} (p : Primitives PublicKey σ ι ε)

/-- `SecureConnection::accept`, or `accept_unpinned`, up to the `peer` it reports. -/
def HostTask.acceptPeer (task : HostTask) (identity : ι) (deviceId : DeviceId)
    (hello : ClientHello PublicKey σ) (ephemeral : ε) (nonce : PublicKey) :
    Except SessionError (ExpectedPeer PublicKey) := do
  let (pending, _) ←
    if task.acceptAny then acceptHelloUnpinned p identity deviceId hello ephemeral nonce
    else acceptHello p identity deviceId hello task.peer ephemeral nonce
  let session ← finishResponder p pending
  return ⟨session.peerDeviceId, session.peerIdentityKey⟩

end Handshake

/-! ## Requests -/

/-- Why the window replied yes. -/
inductive Decision where
  /-- the user accepted the prompt that showed this peer and mode -/
  | user (peer : ExpectedPeer PublicKey) (mode : SessionMode) (contacts : List Contact)
  /-- the stored authority permitted it -/
  | unattended (listener : Bool) (stored : Option Grant) (now : ℕ) (contacts : List Contact)

/-- The channel for the reply to a request, with the worker that asked and what for. The
history has the decisions made, with the contacts of that moment. -/
structure Request where
  worker : ℕ
  listener : Bool
  peer : ExpectedPeer PublicKey
  mode : SessionMode
  slot : Option Bool
  receiving : Bool
  decisions : List Decision

namespace Request

/-- `try_send` into the channel. -/
def trySend (request : Request) (answer : Bool) : Request :=
  if request.receiving ∧ request.slot = none then { request with slot := some answer }
  else request

/-- A reply of yes, for a reason. -/
def accept (request : Request) (decision : Decision) : Request :=
  { request with decisions := request.decisions ++ [decision] }.trySend true

end Request

/-- The channels that exist, by number. -/
abbrev Requests := ℕ → Option Request

/-! ## The window -/

/-- `ConsentPrompt`. -/
structure ConsentPrompt where
  peer : ExpectedPeer PublicKey
  mode : SessionMode
  reply : ℕ
  sourceListener : Bool

/-- `App`, as far as requests depend on it, with the workers and the requests. -/
structure App where
  contacts : List Contact
  unattended : Option Grant
  consent : Option ConsentPrompt
  job : Option ℕ
  listener : Option ℕ
  listenerBusy : Bool
  /-- the events a poll has collected and not handled yet, and whether they are the
  listener's -/
  polled : List (Bool × WorkerEvent)
  workers : ℕ → Option Worker
  requests : Requests

namespace App

/-- Replace a request. -/
def onRequest (s : App) (reply : ℕ) (f : Request → Request) : App :=
  { s with requests := Function.update s.requests reply ((s.requests reply).map f) }

/-- Replace a worker. -/
def setWorker (s : App) (w : ℕ) (worker : Worker) : App :=
  { s with workers := Function.update s.workers w (some worker) }

/-- The prompt is taken and refused. -/
def dropPrompt (s : App) : App :=
  match s.consent with
  | none => s
  | some prompt => { s with consent := none }.onRequest prompt.reply (·.trySend false)

/-- `clear_session_state`. -/
def clearSessionState (s : App) (sourceListener : Bool) : App :=
  let s := if sourceListener then { s with listenerBusy := false } else s
  if s.consent.any (·.sourceListener = sourceListener) then s.dropPrompt else s

/-- Collecting events of a worker at the beginning of `poll`. -/
def collect (s : App) (sourceListener : Bool) (n : ℕ) : App :=
  match if sourceListener then s.listener else s.job with
  | none => s
  | some w =>
    match s.workers w with
    | none => s
    | some worker =>
      { s with polled := s.polled ++ (worker.events.take n).map (sourceListener, ·) }.setWorker w
        { worker with events := worker.events.drop n }

/-- A request that is not refused at once: a grant lets the listener's in, all others become
the prompt. -/
def admitOrAsk (s : App) (sourceListener : Bool) (peer : ExpectedPeer PublicKey)
    (mode : SessionMode) (reply : ℕ) (now : Option ℕ) : App :=
  match now with
  | some now =>
    if sourceListener ∧ s.unattended.any (·.permits peer mode now) then
      s.onRequest reply (·.accept (.unattended sourceListener s.unattended now s.contacts))
    else { s with consent := some ⟨peer, mode, reply, sourceListener⟩ }
  -- the time is not known, so no grant is valid
  | none => { s with consent := some ⟨peer, mode, reply, sourceListener⟩ }

/-- The arm of `poll` for a request. -/
def onConsent (s : App) (sourceListener : Bool) (peer : ExpectedPeer PublicKey)
    (mode : SessionMode) (reply : ℕ) (now : Option ℕ) : App :=
  match knownPeer peer.deviceId.display peer.publicKey.toHex s.contacts with
  | .error _ => s.onRequest reply (·.trySend false)
  | .ok _ =>
    if s.consent.isSome ∨ (sourceListener ∧ (s.job.isSome ∨ s.listenerBusy)) then
      s.onRequest reply (·.trySend false)
    else
      let s := if sourceListener then { s with listenerBusy := true } else s
      s.admitOrAsk sourceListener peer mode reply now

/-- The worker is gone. -/
def lose (s : App) (sourceListener : Bool) : App :=
  let s := if sourceListener then { s with listener := none, listenerBusy := false }
    else { s with job := none }
  s.clearSessionState sourceListener

/-- `poll` handles an event. -/
def handle (s : App) (sourceListener : Bool) (event : WorkerEvent) (now : Option ℕ) : App :=
  match event with
  | .consent peer mode reply => s.onConsent sourceListener peer mode reply now
  | .finished => s.lose sourceListener
  | .other => s

/-- The user answers the prompt, or lets it expire. -/
def answer (s : App) (accept : Bool) : App :=
  match s.consent with
  | none => s
  | some prompt =>
    { s with consent := none }.onRequest prompt.reply fun request =>
      if accept then request.accept (.user prompt.peer prompt.mode s.contacts)
      else request.trySend false

/-- The button that saves a contact; the file may not be written. -/
def saveContact (s : App) (isAddress : String → Bool) (contact : Contact) (written : Bool) : App :=
  let blanks (text : String) := text.toList.filter (· ≠ ' ')
  if s.contacts.any fun c => blanks c.id = blanks contact.id then s
  else
    let next := s.contacts ++ [contact]
    match validateContacts isAddress next with
    | .error _ => s
    | .ok () => if written then { s with contacts := next } else s

/-- The button that grants a contact unattended access. -/
def allow (s : App) (contact : Contact) (now : ℕ) (written : Bool) : App :=
  match peer contact.id contact.key >>= (Grant.new · now) with
  | .error _ => s
  | .ok grant => if written then { s with unattended := some grant } else s

end App

/-! ## The system -/

section System

variable {σ ι ε : Type} (p : Primitives PublicKey σ ι ε)

/-- What makes the application move. -/
inductive AppLabel (σ ε : Type) where
  /-- the user starts a task -/
  | begin (w : ℕ) (task : Option HostTask)
  /-- the listener starts -/
  | listen (w : ℕ) (deviceId : DeviceId)
  /-- a worker accepts a connection -/
  | connect (w : ℕ) (hello : ClientHello PublicKey σ) (ephemeral : ε) (nonce : PublicKey)
  /-- its peer requests a session; `reply` is the new channel -/
  | request (w : ℕ) (mode : SessionMode) (reply : ℕ)
  /-- a reply arrives -/
  | receive (w : ℕ)
  /-- the window is gone, the session stopped, or two minutes are over -/
  | giveUp (w : ℕ)
  /-- a worker sends another event, or its last one -/
  | emit (w : ℕ) (event : WorkerEvent)
  /-- the window collects so many events of its job and its listener -/
  | poll (job listener : ℕ)
  /-- it handles the next of them; the system's time may not be known -/
  | handle (now : Option ℕ)
  /-- a worker has ended without a word -/
  | lose (sourceListener : Bool)
  | answer (accept : Bool)
  /-- everything is stopped -/
  | stop
  | saveContact (contact : Contact) (written : Bool)
  | allow (contact : Contact) (now : ℕ) (written : Bool)
  | revoke

/-- The application on a device. -/
def appSystem (isAddress : String → Bool) (identity : ι) (deviceId : DeviceId) :
    LTS App (AppLabel σ ε) where
  init s := validateContacts isAddress s.contacts = .ok () ∧
    (∀ grant, s.unattended = some grant → grant.valid) ∧ s.consent = none ∧ s.job = none ∧
    s.listener = none ∧ s.listenerBusy = false ∧ s.polled = [] ∧ (∀ w, s.workers w = none) ∧
    ∀ reply, s.requests reply = none
  step s label s' :=
    match label with
    | .begin w task => s.polled = [] ∧ s.consent = none ∧ s.job = none ∧ s.workers w = none ∧
        s' = { s with job := some w }.setWorker w (.start task false)
    | .listen w wildcard => s.listener = none ∧ s.workers w = none ∧
        s' = { s with listener := some w }.setWorker w
          (.start (some ⟨⟨wildcard, NO_KEY⟩, false, true⟩) true)
    | .connect w hello ephemeral nonce => ∃ worker task peer, s.workers w = some worker ∧
        worker.point = .listening ∧ worker.task = some task ∧
        task.acceptPeer p identity deviceId hello ephemeral nonce = .ok peer ∧
        s' = s.setWorker w { worker with point := .connected peer }
    | .request w mode reply => ∃ worker task peer, s.workers w = some worker ∧
        worker.point = .connected peer ∧ worker.task = some task ∧ s.requests reply = none ∧
        s' =
          if task.autoAccept then
            s.setWorker w { worker with point := .answered none peer mode true }
          else
            { s with
              requests := Function.update s.requests reply
                (some ⟨w, worker.listener, peer, mode, none, true, []⟩) }.setWorker w
              { worker with
                point := .asking reply peer mode
                events := worker.events ++ [WorkerEvent.consent peer mode reply] }
    | .receive w => ∃ worker reply peer mode request accepted, s.workers w = some worker ∧
        worker.point = .asking reply peer mode ∧ s.requests reply = some request ∧
        request.slot = some accepted ∧
        s' = (s.onRequest reply fun request => { request with receiving := false }).setWorker w
          { worker with point := .answered (some reply) peer mode accepted }
    | .giveUp w => ∃ worker reply peer mode, s.workers w = some worker ∧
        worker.point = .asking reply peer mode ∧
        s' = (s.onRequest reply fun request => { request with receiving := false }).setWorker w
          { worker with point := .answered (some reply) peer mode false }
    | .emit w event => ∃ worker, s.workers w = some worker ∧
        (event = .other ∧ s' = s.setWorker w { worker with events := worker.events ++ [.other] } ∨
          event = .finished ∧ (∀ reply peer mode, worker.point ≠ .asking reply peer mode) ∧
            s' = s.setWorker w
              { worker with point := .ended, events := worker.events ++ [.finished] })
    | .poll job listener => s.polled = [] ∧ s' = (s.collect false job).collect true listener
    | .handle now => ∃ source event rest, s.polled = (source, event) :: rest ∧
        s' = { s with polled := rest }.handle source event now
    | .lose source => s.polled = [] ∧ s' = s.lose source
    | .answer accept => s.polled = [] ∧ s' = s.answer accept
    | .stop => s.polled = [] ∧ s' = s.dropPrompt
    | .saveContact contact written => s.polled = [] ∧ s.consent = none ∧
        s' = s.saveContact isAddress contact written
    | .allow contact now written => s.polled = [] ∧ s.consent = none ∧ contact ∈ s.contacts ∧
        s.job = none ∧ s.listenerBusy = false ∧ s' = s.allow contact now written
    | .revoke => s.polled = [] ∧ s.consent = none ∧
        s' = { s with unattended := none }.dropPrompt

end System

/-! ## What stands behind an answer -/

/-- The peer is the one that a task lets in by itself. -/
structure HostTask.Pins (task : HostTask) (peer : ExpectedPeer PublicKey) : Prop where
  autoAccept : task.autoAccept = true
  pinned : task.acceptAny = false
  peer_eq : peer = task.peer
  nonzero : peer.publicKey ≠ NO_KEY

/-- A grant that is valid at a time and lets a peer in for a kind of session. -/
structure Grant.Covers (grant : Grant) (peer : ExpectedPeer PublicKey) (mode : SessionMode)
    (now : ℕ) : Prop where
  valid : grant.valid = true
  device : grant.deviceId = peer.deviceId
  key : grant.publicKey = peer.publicKey
  issued : grant.issuedUnix ≤ now
  notExpired : now < grant.expiresUnix
  desktop : mode = .screenView ∨ mode = .remoteControl

/-- A decision is authority for a request: it was made about this request's peer and mode, while
no contact of the device had another key. -/
inductive Decision.Authorizes (request : Request) : Decision → Prop where
  | user {contacts : List Contact} (saved : AgreesWith contacts request.peer) :
      Authorizes request (.user request.peer request.mode contacts)
  | unattended {grant : Grant} {now : ℕ} {contacts : List Contact}
      (fromListener : request.listener = true)
      (covers : grant.Covers request.peer request.mode now)
      (saved : AgreesWith contacts request.peer) :
      Authorizes request (.unattended true (some grant) now contacts)

theorem Grant.covers_of_permits {grant : Grant} {peer : ExpectedPeer PublicKey}
    {mode : SessionMode} {now : ℕ} (h : grant.permits peer mode now = true) :
    grant.Covers peer mode now := by
  simp only [permits, decide_eq_true_eq] at h
  obtain ⟨hvalid, hdevice, hkey, hissued, hexpires, hmode⟩ := h
  exact ⟨hvalid, hdevice, hkey, hissued, hexpires, hmode⟩

namespace Request

/-- One of the decisions is authority. -/
def Authorized (request : Request) : Prop :=
  ∃ decision ∈ request.decisions, decision.Authorizes request

/-- What is true of every request: only authority lets a yes into its channel. -/
structure Sound (request : Request) : Prop where
  nonzero : request.peer.publicKey ≠ NO_KEY
  authorized : request.slot = some true → request.Authorized

/-- A request later on: the same request, with more decisions. -/
structure Extends (request request' : Request) : Prop where
  worker : request'.worker = request.worker
  listener : request'.listener = request.listener
  peer : request'.peer = request.peer
  mode : request'.mode = request.mode
  decisions : request.decisions ⊆ request'.decisions

variable {request request' : Request}

theorem Extends.rfl : request.Extends request :=
  ⟨by rfl, by rfl, by rfl, by rfl, List.Subset.refl _⟩

/-- Authority is about the peer and the kind of session, and about who asks. -/
theorem Extends.authorizes {decision : Decision} (h : request.Extends request')
    (hauth : decision.Authorizes request) : decision.Authorizes request' := by
  cases hauth with
  | user saved =>
    rw [← h.peer, ← h.mode]
    exact .user (by rwa [h.peer])
  | unattended fromListener covers saved =>
    exact .unattended (h.listener.trans fromListener) (by rwa [h.peer, h.mode]) (by rwa [h.peer])

theorem Extends.authorized (h : request.Extends request') (ha : request.Authorized) :
    request'.Authorized := by
  obtain ⟨decision, hmem, hauth⟩ := ha
  exact ⟨decision, h.decisions hmem, h.authorizes hauth⟩

theorem extends_trySend (request : Request) (answer : Bool) :
    request.Extends (request.trySend answer) := by
  simp only [trySend]
  split
  · exact ⟨by rfl, by rfl, by rfl, by rfl, List.Subset.refl _⟩
  · exact .rfl

/-- A refusal needs no authority. -/
theorem Sound.trySend_false (h : request.Sound) : (request.trySend false).Sound := by
  simp only [trySend]
  split
  · exact ⟨h.nonzero, fun hslot => by simp at hslot⟩
  · exact h

theorem extends_hangUp (request : Request) :
    request.Extends { request with receiving := false } :=
  ⟨by rfl, by rfl, by rfl, by rfl, List.Subset.refl _⟩

/-- The decision is on record, whether or not the channel takes the reply. -/
theorem mem_accept (request : Request) (decision : Decision) :
    decision ∈ (request.accept decision).decisions := by
  have hadd := extends_trySend { request with decisions := request.decisions ++ [decision] } true
  exact hadd.decisions (List.mem_append_right _ (List.mem_singleton.mpr (by rfl)))

theorem extends_accept (request : Request) (decision : Decision) :
    request.Extends (request.accept decision) := by
  have hadd := extends_trySend { request with decisions := request.decisions ++ [decision] } true
  refine ⟨hadd.worker, hadd.listener, hadd.peer, hadd.mode, ?_⟩
  exact List.Subset.trans (List.subset_append_left _ _) hadd.decisions

/-- A yes for a reason that is authority. -/
theorem Sound.accept {decision : Decision} (h : request.Sound)
    (hauth : decision.Authorizes request) : (request.accept decision).Sound := by
  have hext := extends_accept request decision
  constructor
  · rw [hext.peer]
    exact h.nonzero
  · intro _
    exact ⟨decision, mem_accept request decision, hext.authorizes hauth⟩

end Request

/-! ## The invariant -/

namespace Requests

/-- A prompt or an event is about the request whose channel it holds, and comes from the
listener only if the request does. -/
def Refers (rs : Requests) (reply : ℕ) (peer : ExpectedPeer PublicKey) (mode : SessionMode)
    (sourceListener : Bool) : Prop :=
  ∃ request, rs reply = some request ∧ request.peer = peer ∧ request.mode = mode ∧
    (sourceListener = true → request.listener = true)

/-- A worker is waiting, or has waited, for a reply to a request of its own. -/
def Asks (rs : Requests) (w : ℕ) (worker : Worker) (reply : ℕ) (peer : ExpectedPeer PublicKey)
    (mode : SessionMode) (P : Request → Prop) : Prop :=
  ∃ request, rs reply = some request ∧ request.worker = w ∧
    request.listener = worker.listener ∧ request.peer = peer ∧ request.mode = mode ∧ P request

/-- What is true of a worker where it is. -/
def PointSound (rs : Requests) (w : ℕ) (worker : Worker) : WorkerPoint → Prop
  | .listening => ∀ task, worker.task = some task → task.refused = false
  | .connected peer => peer.publicKey ≠ NO_KEY ∧
      ∀ task, worker.task = some task → task.autoAccept = true → task.Pins peer
  | .asking reply peer mode => rs.Asks w worker reply peer mode fun _ => True
  | .answered none peer _ accepted =>
      accepted = true → ∃ task, worker.task = some task ∧ task.Pins peer
  | .answered (some reply) peer mode accepted =>
      rs.Asks w worker reply peer mode fun request => accepted = true → request.Authorized
  | .ended => True

structure WorkerSound (rs : Requests) (w : ℕ) (worker : Worker) : Prop where
  point : rs.PointSound w worker worker.point
  events : ∀ peer mode reply, WorkerEvent.consent peer mode reply ∈ worker.events →
    rs.Refers reply peer mode worker.listener

/-- Every request is still there, with more decisions. -/
def Continues (rs rs' : Requests) : Prop :=
  ∀ reply request, rs reply = some request →
    ∃ request', rs' reply = some request' ∧ request.Extends request'

variable {rs rs' : Requests}

theorem Refers.mono {reply : ℕ} {peer : ExpectedPeer PublicKey} {mode : SessionMode}
    {source : Bool} (h : rs.Refers reply peer mode source) (hmore : rs.Continues rs') :
    rs'.Refers reply peer mode source := by
  obtain ⟨request, hrequest, hpeer, hmode, hsource⟩ := h
  obtain ⟨request', hrequest', hext⟩ := hmore reply request hrequest
  exact ⟨request', hrequest', hext.peer.trans hpeer, hext.mode.trans hmode, fun h =>
    hext.listener.trans (hsource h)⟩

theorem Asks.mono {w : ℕ} {worker : Worker} {reply : ℕ} {peer : ExpectedPeer PublicKey}
    {mode : SessionMode} {P : Request → Prop} (h : rs.Asks w worker reply peer mode P)
    (hmore : rs.Continues rs')
    (hP : ∀ request request' : Request, request.Extends request' → P request → P request') :
    rs'.Asks w worker reply peer mode P := by
  obtain ⟨request, hrequest, hworker, hlistener, hpeer, hmode, hp⟩ := h
  obtain ⟨request', hrequest', hext⟩ := hmore reply request hrequest
  exact ⟨request', hrequest', hext.worker.trans hworker, hext.listener.trans hlistener,
    hext.peer.trans hpeer, hext.mode.trans hmode, hP request request' hext hp⟩

/-- A worker stays sound whatever happens to the requests. -/
theorem WorkerSound.mono {w : ℕ} {worker : Worker} (h : rs.WorkerSound w worker)
    (hmore : rs.Continues rs') : rs'.WorkerSound w worker := by
  refine ⟨?_, fun peer mode reply hmem => (h.events peer mode reply hmem).mono hmore⟩
  have hpoint := h.point
  cases hat : worker.point with
  | listening => rwa [hat] at hpoint
  | connected peer => rwa [hat] at hpoint
  | ended => trivial
  | asking reply peer mode =>
    rw [hat] at hpoint
    exact Asks.mono hpoint hmore fun _ _ _ h => h
  | answered request peer mode accepted =>
    rw [hat] at hpoint
    cases request with
    | none => exact hpoint
    | some reply => exact Asks.mono hpoint hmore fun _ _ hext h ha => hext.authorized (h ha)

end Requests

/-- What is true of every reachable state. -/
structure App.Sound (s : App) : Prop where
  contacts : Distinct s.contacts
  prompt : ∀ prompt, s.consent = some prompt →
    s.requests.Refers prompt.reply prompt.peer prompt.mode prompt.sourceListener ∧
      AgreesWith s.contacts prompt.peer
  polled : ∀ source peer mode reply, (source, WorkerEvent.consent peer mode reply) ∈ s.polled →
    s.requests.Refers reply peer mode source
  workers : ∀ w worker, s.workers w = some worker → s.requests.WorkerSound w worker
  requests : ∀ reply request, s.requests reply = some request → request.Sound
  listener : ∀ w, s.listener = some w → ∃ worker, s.workers w = some worker ∧
    worker.listener = true

/-! ### The operations keep it -/

namespace App

variable {s s' : App}

open Requests

theorem Sound.isListener {w : ℕ} {worker : Worker} (h : s.Sound) (hlistening : s.listener = some w)
    (hworker : s.workers w = some worker) : worker.listener = true := by
  obtain ⟨worker', hworker', hlistener⟩ := h.listener w hlistening
  obtain rfl := Option.some.inj (hworker.symm.trans hworker')
  exact hlistener

theorem continues_onRequest {reply : ℕ} {f : Request → Request}
    (hf : ∀ request : Request, request.Extends (f request)) :
    s.requests.Continues (s.onRequest reply f).requests := by
  intro reply' request hrequest
  by_cases heq : reply' = reply
  · subst heq
    exact ⟨f request, by simp [onRequest, hrequest], hf request⟩
  · exact ⟨request, by simp [onRequest, heq, hrequest], .rfl⟩

/-- A request may be answered as long as what is in its channel stays sound. -/
theorem Sound.onRequest {reply : ℕ} {f : Request → Request} (h : s.Sound)
    (hf : ∀ request : Request, request.Extends (f request))
    (hsound : ∀ request, s.requests reply = some request → request.Sound → (f request).Sound) :
    (s.onRequest reply f).Sound := by
  have hmore : s.requests.Continues (s.onRequest reply f).requests := continues_onRequest hf
  constructor
  · exact h.contacts
  · intro prompt hprompt
    exact ⟨(h.prompt prompt hprompt).1.mono hmore, (h.prompt prompt hprompt).2⟩
  · intro source peer mode reply' hmem
    exact (h.polled source peer mode reply' hmem).mono hmore
  · intro w worker hworker
    exact (h.workers w worker hworker).mono hmore
  · intro reply' request hrequest
    by_cases heq : reply' = reply
    · subst heq
      simp only [App.onRequest, Function.update_self, Option.map_eq_some_iff] at hrequest
      obtain ⟨before, hbefore, rfl⟩ := hrequest
      exact hsound before hbefore (h.requests reply' before hbefore)
    · simp only [App.onRequest, Function.update_of_ne heq] at hrequest
      exact h.requests reply' request hrequest
  · exact h.listener

theorem Sound.refuse (h : s.Sound) (reply : ℕ) : (s.onRequest reply (·.trySend false)).Sound := by
  apply h.onRequest
  · exact fun request => request.extends_trySend false
  · exact fun _ _ hrequest => hrequest.trySend_false

/-- The receiver is dropped. -/
theorem Sound.hangUp (h : s.Sound) (reply : ℕ) :
    (s.onRequest reply fun request => { request with receiving := false }).Sound := by
  apply h.onRequest
  · exact fun request => request.extends_hangUp
  · exact fun request _ hrequest => ⟨hrequest.nonzero, fun hslot =>
      request.extends_hangUp.authorized (hrequest.authorized hslot)⟩

theorem Sound.setWorker {w : ℕ} {worker : Worker} (h : s.Sound)
    (hworker : s.requests.WorkerSound w worker)
    (hlistener : s.listener = some w → worker.listener = true) : (s.setWorker w worker).Sound := by
  refine ⟨h.contacts, h.prompt, h.polled, ?_, h.requests, ?_⟩
  · intro w' worker' hworker'
    by_cases heq : w' = w
    · subst heq
      simp only [App.setWorker, Function.update_self, Option.some.injEq] at hworker'
      subst hworker'
      exact ⟨hworker.point, hworker.events⟩
    · simp only [App.setWorker, Function.update_of_ne heq] at hworker'
      exact h.workers w' worker' hworker'
  · intro w' hlistening
    by_cases heq : w' = w
    · subst heq
      exact ⟨worker, by simp [App.setWorker], hlistener hlistening⟩
    · obtain ⟨worker', hworker', hlistens⟩ := h.listener w' hlistening
      exact ⟨worker', by simp [App.setWorker, heq, hworker'], hlistens⟩

/-- A worker goes on as another that is the listener if it was. -/
theorem Sound.replaceWorker {w : ℕ} {worker worker' : Worker} (h : s.Sound)
    (hworker : s.workers w = some worker) (hsame : worker'.listener = worker.listener)
    (hsound : s.requests.WorkerSound w worker') : (s.setWorker w worker').Sound := by
  apply h.setWorker hsound
  intro hlistening
  exact hsame.trans (h.isListener hlistening hworker)

/-- Without the prompt. -/
theorem Sound.withoutPrompt (h : s.Sound) : ({ s with consent := none } : App).Sound :=
  ⟨h.contacts, fun _ hprompt => by simp at hprompt, h.polled, h.workers, h.requests, h.listener⟩

theorem Sound.dropPrompt (h : s.Sound) : s.dropPrompt.Sound := by
  simp only [App.dropPrompt]
  split
  · exact h
  · exact h.withoutPrompt.refuse _

theorem Sound.clearSessionState (h : s.Sound) (source : Bool) :
    (s.clearSessionState source).Sound := by
  have hidle : (if source then { s with listenerBusy := false } else s : App).Sound := by
    split
    · exact ⟨h.contacts, h.prompt, h.polled, h.workers, h.requests, h.listener⟩
    · exact h
  have hdrop : ∀ t : App, t.Sound →
      (if t.consent.any (·.sourceListener = source) then t.dropPrompt else t).Sound := by
    intro t ht
    split
    · exact ht.dropPrompt
    · exact ht
  exact hdrop _ hidle

theorem Sound.lose (h : s.Sound) (source : Bool) : (s.lose source).Sound := by
  simp only [App.lose]
  apply Sound.clearSessionState
  split
  · exact ⟨h.contacts, h.prompt, h.polled, h.workers, h.requests, fun _ hnone => by simp at hnone⟩
  · exact ⟨h.contacts, h.prompt, h.polled, h.workers, h.requests, h.listener⟩

/-- Collecting moves events; which worker is the listener says where they are from. -/
theorem Sound.collect (h : s.Sound) (source : Bool) (n : ℕ) : (s.collect source n).Sound := by
  simp only [App.collect]
  split
  · exact h
  · rename_i w hw
    split
    · exact h
    · rename_i worker hworker
      have hsound := h.workers w worker hworker
      have hlistens : source = true → worker.listener = true := by
        rintro rfl
        exact h.isListener (by simpa using hw) hworker
      have hpolled : ({ s with
          polled := s.polled ++ (worker.events.take n).map (source, ·) } : App).Sound := by
        refine ⟨h.contacts, h.prompt, ?_, h.workers, h.requests, h.listener⟩
        intro source' peer mode reply hmem
        rcases List.mem_append.mp hmem with hbefore | hnew
        · exact h.polled source' peer mode reply hbefore
        · obtain ⟨event, hevent, heq⟩ := List.mem_map.mp hnew
          obtain ⟨rfl, rfl⟩ := Prod.mk.inj heq
          obtain ⟨request, hrequest, hpeer, hmode, hlistener⟩ :=
            hsound.events peer mode reply (List.mem_of_mem_take hevent)
          exact ⟨request, hrequest, hpeer, hmode, fun hs => hlistener (hlistens hs)⟩
      apply hpolled.replaceWorker hworker (by rfl)
      refine ⟨?_, fun peer mode reply hmem => hsound.events peer mode reply
        (List.mem_of_mem_drop hmem)⟩
      have hpoint := hsound.point
      cases hat : worker.point <;> rw [hat] at hpoint <;> exact hpoint

/-- A new prompt shows the request whose channel it holds. -/
theorem Sound.ask {peer : ExpectedPeer PublicKey} {mode : SessionMode} {reply : ℕ} {source : Bool}
    (h : s.Sound) (hrefers : s.requests.Refers reply peer mode source)
    (hsaved : AgreesWith s.contacts peer) :
    ({ s with consent := some ⟨peer, mode, reply, source⟩ } : App).Sound := by
  refine ⟨h.contacts, ?_, h.polled, h.workers, h.requests, h.listener⟩
  intro prompt hprompt
  obtain rfl := Option.some.inj hprompt
  exact ⟨hrefers, hsaved⟩

/-- A grant lets in only what it covers, and only what comes from the listener. -/
theorem Sound.admitOrAsk {source : Bool} {peer : ExpectedPeer PublicKey} {mode : SessionMode}
    {reply : ℕ} {now : Option ℕ} (h : s.Sound)
    (hrefers : s.requests.Refers reply peer mode source) (hsaved : AgreesWith s.contacts peer) :
    (s.admitOrAsk source peer mode reply now).Sound := by
  simp only [App.admitOrAsk]
  split
  · rename_i now
    split
    · rename_i hgranted
      obtain ⟨rfl, hany⟩ := hgranted
      obtain ⟨grant, hgrant, hpermits⟩ := (Option.any_eq_true _ _).mp hany
      obtain ⟨request, hrequest, rfl, rfl, hlistener⟩ := hrefers
      rw [hgrant]
      apply h.onRequest
      · exact fun request => request.extends_accept _
      · intro request' hrequest' hsound
        obtain rfl := Option.some.inj (hrequest.symm.trans hrequest')
        apply hsound.accept
        exact .unattended (hlistener rfl) (Grant.covers_of_permits hpermits) hsaved
    · exact h.ask hrefers hsaved
  · exact h.ask hrefers hsaved

/-- **A request is polled.** It passes the check of the saved key before anything else. -/
theorem Sound.onConsent {source : Bool} {peer : ExpectedPeer PublicKey} {mode : SessionMode}
    {reply : ℕ} {now : Option ℕ} (h : s.Sound)
    (hrefers : s.requests.Refers reply peer mode source) :
    (s.onConsent source peer mode reply now).Sound := by
  have hkey : peer.publicKey ≠ NO_KEY := by
    obtain ⟨request, hrequest, rfl, -, -⟩ := hrefers
    exact (h.requests reply request hrequest).nonzero
  simp only [App.onConsent]
  split
  · exact h.refuse reply
  · rename_i known hknown
    have hsaved : AgreesWith s.contacts peer := agreesWith_of_knownPeer hkey h.contacts hknown
    split
    · exact h.refuse reply
    · split
      · have hbusy : ({ s with listenerBusy := true } : App).Sound :=
          ⟨h.contacts, h.prompt, h.polled, h.workers, h.requests, h.listener⟩
        exact hbusy.admitOrAsk hrefers hsaved
      · exact h.admitOrAsk hrefers hsaved

theorem Sound.handle {source : Bool} {event : WorkerEvent} {now : Option ℕ} (h : s.Sound)
    (hrefers : ∀ peer mode reply, event = .consent peer mode reply →
      s.requests.Refers reply peer mode source) : (s.handle source event now).Sound := by
  cases event with
  | consent peer mode reply =>
    rw [App.handle]
    exact h.onConsent (hrefers peer mode reply rfl)
  | finished => exact h.lose source
  | other => exact h

/-- **The user answers.** The prompt showed the peer and the mode of the request whose channel
it holds, and the contacts are those its peer was checked against. -/
theorem Sound.answer (h : s.Sound) (accept : Bool) : (s.answer accept).Sound := by
  simp only [App.answer]
  split
  · exact h
  · rename_i prompt hprompt
    obtain ⟨⟨request, hrequest, hpeer, hmode, -⟩, hsaved⟩ := h.prompt prompt hprompt
    cases accept with
    | false => simpa using h.withoutPrompt.refuse prompt.reply
    | true =>
      simp only [if_true]
      apply h.withoutPrompt.onRequest
      · exact fun request => request.extends_accept _
      · intro request' hrequest' hsound
        obtain rfl := Option.some.inj (hrequest.symm.trans hrequest')
        apply hsound.accept
        rw [← hpeer, ← hmode]
        exact .user (by rwa [hpeer])

/-- A contact is saved only while nothing is asked, and the store stays without doubles. -/
theorem Sound.saveContact {isAddress : String → Bool} {contact : Contact} {written : Bool}
    (h : s.Sound) (hidle : s.consent = none) : (s.saveContact isAddress contact written).Sound := by
  simp only [App.saveContact]
  split
  · exact h
  · split
    · exact h
    · rename_i hvalid
      split
      · refine ⟨distinct_of_validate hvalid, ?_, h.polled, h.workers, h.requests, h.listener⟩
        intro prompt hprompt
        simp [hidle] at hprompt
      · exact h

theorem Sound.allow {contact : Contact} {now : ℕ} {written : Bool} (h : s.Sound) :
    (s.allow contact now written).Sound := by
  simp only [App.allow]
  split
  · exact h
  · split
    · exact ⟨h.contacts, h.prompt, h.polled, h.workers, h.requests, h.listener⟩
    · exact h

end App

/-! ## Every run -/

/-- A task that is not refused and accepts by itself has one peer, with its key. -/
theorem HostTask.pins_of_not_refused {task : HostTask} (h : task.refused = false)
    (hauto : task.autoAccept = true) : task.Pins task.peer := by
  simp only [refused, hauto, Bool.true_and, Bool.or_eq_false_iff, decide_eq_false_iff_not] at h
  exact ⟨hauto, h.1, rfl, h.2⟩

section Runs

variable {σ ι ε : Type} {p : Primitives PublicKey σ ι ε} {isAddress : String → Bool}
  {identity : ι} {deviceId : DeviceId}

/-- The session with a caller that was answered names the caller, which has proved its key. -/
theorem answered_peer {hello : ClientHello PublicKey σ} {ephemeral : ε} {nonce : PublicKey}
    {pending : ResponderState PublicKey σ ε} {server : ServerHello PublicKey σ}
    {session : SecureSession PublicKey}
    (hstrict : ∀ message signature, p.verify NO_KEY message signature ≠ .ok ())
    (hanswer : answerHello p identity deviceId hello ephemeral nonce = .ok (pending, server))
    (hsession : finishResponder p pending = .ok session) :
    session.peerDeviceId = hello.deviceId ∧ session.peerIdentityKey = hello.identityPublicKey ∧
      hello.identityPublicKey ≠ NO_KEY := by
  obtain ⟨hverify, rfl, -⟩ := answerHello_ok p hanswer
  obtain ⟨shared, keys, -, -, rfl⟩ := finishResponder_ok p hsession
  refine ⟨rfl, rfl, ?_⟩
  intro hnone
  rw [hnone] at hverify
  exact hstrict _ _ hverify

/-- An accepted peer has proved a key, so that it has one; in a pinned task it is the task's. -/
theorem HostTask.acceptPeer_ok {task : HostTask} {hello : ClientHello PublicKey σ} {ephemeral : ε}
    {nonce : PublicKey} {peer : ExpectedPeer PublicKey}
    (hstrict : ∀ message signature, p.verify NO_KEY message signature ≠ .ok ())
    (h : task.acceptPeer p identity deviceId hello ephemeral nonce = .ok peer) :
    peer.publicKey ≠ NO_KEY ∧ (task.acceptAny = false → peer = task.peer) := by
  simp only [acceptPeer, bind, Except.bind, pure, Except.pure] at h
  split at h
  · rename_i hany
    split at h
    · cases h
    · rename_i haccept
      split at h
      · cases h
      · rename_i hsession
        obtain ⟨-, hkey, hnonzero⟩ :=
          answered_peer hstrict (acceptHelloUnpinned_ok p haccept) hsession
        obtain rfl := Except.ok.inj h
        exact ⟨by rwa [hkey], fun hpinned => absurd hany (by simp [hpinned])⟩
  · split at h
    · cases h
    · rename_i haccept
      split at h
      · cases h
      · rename_i hsession
        obtain ⟨hisdevice, hiskey, hanswer⟩ := acceptHello_ok p haccept
        obtain ⟨hdevice, hkey, hnonzero⟩ := answered_peer hstrict hanswer hsession
        obtain rfl := Except.ok.inj h
        refine ⟨by rwa [hkey], fun _ => ?_⟩
        rw [hdevice, hkey, hisdevice, hiskey]

/-- A worker starts with nothing sent, and does not listen for a task it refuses. -/
theorem Requests.workerSound_start (rs : Requests) (w : ℕ) (task : Option HostTask)
    (listener : Bool) : rs.WorkerSound w (.start task listener) := by
  refine ⟨?_, fun _ _ _ hmem => absurd hmem (by simp [Worker.start])⟩
  by_cases hrefused : task.any HostTask.refused = true
  · simp [Worker.start, hrefused, PointSound]
  · simp only [Worker.start, hrefused, PointSound]
    intro host hhost
    simpa [hhost] using hrefused

/-- A new request is of no prompt, no event and no worker yet. -/
theorem App.Sound.newRequest {s : App} {reply : ℕ} {request : Request} (h : s.Sound)
    (hfresh : s.requests reply = none) (hrequest : request.Sound) :
    ({ s with requests := Function.update s.requests reply (some request) } : App).Sound := by
  have hmore : s.requests.Continues (Function.update s.requests reply (some request)) := by
    intro reply' before hbefore
    have hne : reply' ≠ reply := by
      rintro rfl
      simp [hfresh] at hbefore
    exact ⟨before, by rwa [Function.update_of_ne hne], .rfl⟩
  refine ⟨h.contacts, ?_, ?_, ?_, ?_, h.listener⟩
  · intro prompt hprompt
    exact ⟨(h.prompt prompt hprompt).1.mono hmore, (h.prompt prompt hprompt).2⟩
  · intro source peer mode reply' hmem
    exact (h.polled source peer mode reply' hmem).mono hmore
  · intro w worker hworker
    exact (h.workers w worker hworker).mono hmore
  · intro reply' request' hrequest'
    by_cases heq : reply' = reply
    · subst heq
      simp only [Function.update_self, Option.some.injEq] at hrequest'
      exact hrequest' ▸ hrequest
    · simp only [Function.update_of_ne heq] at hrequest'
      exact h.requests reply' request' hrequest'

/-- A worker goes on to another point, with what it had sent. -/
theorem App.Sound.moveWorker {s : App} {w : ℕ} {worker : Worker} {point : WorkerPoint} (h : s.Sound)
    (hworker : s.workers w = some worker) (hpoint : s.requests.PointSound w worker point) :
    (s.setWorker w { worker with point }).Sound := by
  apply h.replaceWorker hworker (by rfl)
  refine ⟨?_, (h.workers w worker hworker).events⟩
  cases point <;> exact hpoint

/-- **Connections.** Whoever is connected has a key, and in a task that accepts by itself it is
the task's one peer. -/
theorem App.Sound.connect {s : App} {w : ℕ} {worker : Worker} {task : HostTask}
    {hello : ClientHello PublicKey σ} {ephemeral : ε} {nonce : PublicKey}
    {peer : ExpectedPeer PublicKey} (h : s.Sound)
    (hstrict : ∀ message signature, p.verify NO_KEY message signature ≠ .ok ())
    (hworker : s.workers w = some worker) (hat : worker.point = .listening)
    (htask : worker.task = some task)
    (haccept : task.acceptPeer p identity deviceId hello ephemeral nonce = .ok peer) :
    (s.setWorker w { worker with point := .connected peer }).Sound := by
  have hlistening := (h.workers w worker hworker).point
  rw [hat] at hlistening
  obtain ⟨hnonzero, hpeer⟩ := HostTask.acceptPeer_ok hstrict haccept
  apply h.moveWorker hworker
  refine ⟨hnonzero, fun task' htask' hauto => ?_⟩
  obtain rfl := Option.some.inj (htask.symm.trans htask')
  have hpins := HostTask.pins_of_not_refused (hlistening task htask) hauto
  rwa [hpeer hpins.pinned]

/-- **Requests.** Only the task's one peer is let in without asking; for all others a channel is
made and the window is told. -/
theorem App.Sound.request {s : App} {w reply : ℕ} {worker : Worker} {task : HostTask}
    {peer : ExpectedPeer PublicKey} {mode : SessionMode} (h : s.Sound)
    (hworker : s.workers w = some worker) (hat : worker.point = .connected peer)
    (htask : worker.task = some task) (hfresh : s.requests reply = none) :
    (if task.autoAccept then
      s.setWorker w { worker with point := .answered none peer mode true }
    else
      { s with
        requests := Function.update s.requests reply
          (some ⟨w, worker.listener, peer, mode, none, true, []⟩) }.setWorker w
        { worker with
          point := .asking reply peer mode
          events := worker.events ++ [WorkerEvent.consent peer mode reply] }).Sound := by
  have hconnected := (h.workers w worker hworker).point
  rw [hat] at hconnected
  obtain ⟨hnonzero, hpinned⟩ := hconnected
  split
  · rename_i hauto
    exact h.moveWorker hworker fun _ => ⟨task, htask, hpinned task htask hauto⟩
  · have hnew : Request.Sound ⟨w, worker.listener, peer, mode, none, true, []⟩ :=
      ⟨hnonzero, fun hslot => by simp at hslot⟩
    have hmade := h.newRequest hfresh hnew
    apply hmade.replaceWorker hworker (by rfl)
    constructor
    · exact ⟨_, Function.update_self .., rfl, rfl, rfl, rfl, trivial⟩
    · intro peer' mode' reply' hmem
      rcases List.mem_append.mp hmem with hbefore | hlast
      · exact (hmade.workers w worker hworker).events peer' mode' reply' hbefore
      · obtain ⟨rfl, rfl, rfl⟩ : peer' = peer ∧ mode' = mode ∧ reply' = reply := by
          simpa using hlast
        exact ⟨_, Function.update_self .., rfl, rfl, id⟩

/-- **Replies.** `accept` returns what was in the channel, or no. -/
theorem App.Sound.receive {s : App} {w reply : ℕ} {worker : Worker}
    {peer : ExpectedPeer PublicKey} {mode : SessionMode} {accepted : Bool} (h : s.Sound)
    (hworker : s.workers w = some worker) (hat : worker.point = .asking reply peer mode)
    (hslot : accepted = true → ∃ request, s.requests reply = some request ∧
      request.slot = some true) :
    ((s.onRequest reply fun request => { request with receiving := false }).setWorker w
      { worker with point := .answered (some reply) peer mode accepted }).Sound := by
  have hasking := (h.workers w worker hworker).point
  rw [hat] at hasking
  obtain ⟨request, hrequest, hof, hlistener, hpeer, hmode, -⟩ := hasking
  have hhung := h.hangUp reply
  apply hhung.moveWorker hworker
  refine ⟨{ request with receiving := false }, by simp [App.onRequest, hrequest], hof, hlistener,
    hpeer, hmode, ?_⟩
  intro haccepted
  obtain ⟨request', hrequest', hyes⟩ := hslot haccepted
  obtain rfl := Option.some.inj (hrequest.symm.trans hrequest')
  exact request.extends_hangUp.authorized ((h.requests reply request hrequest).authorized hyes)

/-- A worker sends an event that is no request. -/
theorem App.Sound.emit {s : App} {w : ℕ} {worker : Worker} {event : WorkerEvent} (h : s.Sound)
    (hworker : s.workers w = some worker)
    (hevent : ∀ peer mode reply, event ≠ .consent peer mode reply)
    {point : WorkerPoint} (hpoint : s.requests.PointSound w worker point) :
    (s.setWorker w { worker with point, events := worker.events ++ [event] }).Sound := by
  apply h.replaceWorker hworker (by rfl)
  constructor
  · cases point <;> exact hpoint
  · intro peer mode reply hmem
    rcases List.mem_append.mp hmem with hbefore | hlast
    · exact (h.workers w worker hworker).events peer mode reply hbefore
    · exact absurd (List.mem_singleton.mp hlast).symm (hevent peer mode reply)

/-- The listener starts, for whoever calls. -/
theorem App.Sound.listen {s : App} {w : ℕ} (h : s.Sound) (wildcard : DeviceId) :
    ({ s with listener := some w }.setWorker w
      (.start (some ⟨⟨wildcard, NO_KEY⟩, false, true⟩) true)).Sound := by
  have hquiet : ({ s with listener := none } : App).Sound :=
    ⟨h.contacts, h.prompt, h.polled, h.workers, h.requests, fun _ hnone => by simp at hnone⟩
  have hset := hquiet.setWorker (s.requests.workerSound_start w
    (some ⟨⟨wildcard, NO_KEY⟩, false, true⟩) true) fun hnone => by simp at hnone
  refine ⟨hset.contacts, hset.prompt, hset.polled, hset.workers, hset.requests, ?_⟩
  intro w' hlistening
  obtain rfl := Option.some.inj hlistening
  exact ⟨_, Function.update_self .., rfl⟩

/-- Every step keeps it. -/
theorem sound_step (hstrict : ∀ message signature, p.verify NO_KEY message signature ≠ .ok ())
    {s s' : App} {label : AppLabel σ ε} (h : s.Sound)
    (hstep : (appSystem p isAddress identity deviceId).step s label s') : s'.Sound := by
  cases label with
  | begin w task =>
    obtain ⟨-, -, -, hnew, rfl⟩ := hstep
    have hjob : ({ s with job := some w } : App).Sound :=
      ⟨h.contacts, h.prompt, h.polled, h.workers, h.requests, h.listener⟩
    -- `w` is new, so it cannot be the listener
    apply hjob.setWorker (s.requests.workerSound_start w task false)
    intro hlistening
    obtain ⟨worker, hworker, -⟩ := h.listener w hlistening
    simp [hnew] at hworker
  | listen w wildcard =>
    obtain ⟨-, -, rfl⟩ := hstep
    exact h.listen wildcard
  | connect w hello ephemeral nonce =>
    obtain ⟨worker, task, peer, hworker, hat, htask, haccept, rfl⟩ := hstep
    exact h.connect hstrict hworker hat htask haccept
  | request w mode reply =>
    obtain ⟨worker, task, peer, hworker, hat, htask, hfresh, rfl⟩ := hstep
    exact h.request hworker hat htask hfresh
  | receive w =>
    obtain ⟨worker, reply, peer, mode, request, accepted, hworker, hat, hrequest, hslot, rfl⟩ :=
      hstep
    exact h.receive hworker hat fun haccepted => ⟨request, hrequest, by rw [hslot, haccepted]⟩
  | giveUp w =>
    obtain ⟨worker, reply, peer, mode, hworker, hat, rfl⟩ := hstep
    exact h.receive hworker hat fun haccepted => absurd haccepted (by decide)
  | emit w event =>
    obtain ⟨worker, hworker, ⟨rfl, rfl⟩ | ⟨rfl, -, rfl⟩⟩ := hstep
    · exact h.emit hworker (fun _ _ _ => by simp) (h.workers w worker hworker).point
    · exact h.emit hworker (fun _ _ _ => by simp) trivial
  | poll job listener =>
    obtain ⟨-, rfl⟩ := hstep
    exact (h.collect false job).collect true listener
  | handle now =>
    obtain ⟨source, event, rest, hpolled, rfl⟩ := hstep
    -- what an event claims is known of it since it was polled
    have hrest : ({ s with polled := rest } : App).Sound := by
      refine ⟨h.contacts, h.prompt, ?_, h.workers, h.requests, h.listener⟩
      intro source' peer mode reply hmem
      exact h.polled source' peer mode reply (by rw [hpolled]; exact List.mem_cons_of_mem _ hmem)
    apply hrest.handle
    rintro peer mode reply rfl
    exact h.polled source peer mode reply (by rw [hpolled]; exact List.mem_cons_self ..)
  | lose source =>
    obtain ⟨-, rfl⟩ := hstep
    exact h.lose source
  | answer accept =>
    obtain ⟨-, rfl⟩ := hstep
    exact h.answer accept
  | stop =>
    obtain ⟨-, rfl⟩ := hstep
    exact h.dropPrompt
  | saveContact contact written =>
    obtain ⟨-, hidle, rfl⟩ := hstep
    exact h.saveContact hidle
  | allow contact now written =>
    obtain ⟨-, -, -, -, -, rfl⟩ := hstep
    exact h.allow
  | revoke =>
    obtain ⟨-, -, rfl⟩ := hstep
    -- fewer grants only take reasons away
    have hrevoked : ({ s with unattended := none } : App).Sound :=
      ⟨h.contacts, h.prompt, h.polled, h.workers, h.requests, h.listener⟩
    exact hrevoked.dropPrompt

theorem sound_of_reachable
    (hstrict : ∀ message signature, p.verify NO_KEY message signature ≠ .ok ()) {s : App}
    (hs : (appSystem p isAddress identity deviceId).Reachable s) : s.Sound := by
  apply hs.invariant
  · rintro s ⟨hcontacts, -, hconsent, -, hlistener, -, hpolled, hworkers, hrequests⟩
    constructor
    · exact distinct_of_validate hcontacts
    · intro prompt hprompt
      simp [hconsent] at hprompt
    · intro source peer mode reply hmem
      simp [hpolled] at hmem
    · intro w worker hworker
      simp [hworkers] at hworker
    · intro reply request hrequest
      simp [hrequests] at hrequest
    · intro w hlistening
      simp [hlistener] at hlistening
  · exact fun s label s' h hstep => sound_step hstrict h hstep

/-- **Authority.** In every run of the application, with whatever connects, whatever its peers
ask for and whatever the user does: a worker whose `accept` returned yes for a peer and a
kind of session either

* did not ask, in a task that accepts by itself and pins exactly this peer by a key that is
  not zero; or
* asked, and the user accepted the prompt of its request, which showed this peer and this
  kind of session, while the saved key of every contact of the device was the peer's; or
* asked as the listener, and the stored grant, valid at that moment, was for this device and
  key and the session one of the two a grant allows, with the saved keys as before.

The one assumption is that no signature verifies under the key of zeros, which the strict
verification of the signature library rejects as a point of small order. -/
theorem accept_authority
    (hstrict : ∀ message signature, p.verify NO_KEY message signature ≠ .ok ()) {s : App}
    (hs : (appSystem p isAddress identity deviceId).Reachable s) {w : ℕ} {worker : Worker}
    {asked : Option ℕ} {peer : ExpectedPeer PublicKey} {mode : SessionMode}
    (hworker : s.workers w = some worker) (hyes : worker.point = .answered asked peer mode true) :
    (∃ task, asked = none ∧ worker.task = some task ∧ task.autoAccept = true ∧
      task.acceptAny = false ∧ peer = task.peer ∧ task.peer.publicKey ≠ NO_KEY) ∨
    ∃ reply request, asked = some reply ∧ s.requests reply = some request ∧ request.worker = w ∧
      request.listener = worker.listener ∧ request.peer = peer ∧ request.mode = mode ∧
      ((∃ contacts, Decision.user peer mode contacts ∈ request.decisions ∧
          AgreesWith contacts peer) ∨
        worker.listener = true ∧ ∃ grant now contacts,
          Decision.unattended true (some grant) now contacts ∈ request.decisions ∧
          grant.valid = true ∧ grant.issuedUnix ≤ now ∧ now < grant.expiresUnix ∧
          grant.deviceId = peer.deviceId ∧ grant.publicKey = peer.publicKey ∧
          (mode = .screenView ∨ mode = .remoteControl) ∧ AgreesWith contacts peer) := by
  have hpoint := ((sound_of_reachable hstrict hs).workers w worker hworker).point
  rw [hyes] at hpoint
  cases asked with
  | none =>
    left
    obtain ⟨task, htask, hpins⟩ := hpoint rfl
    exact ⟨task, rfl, htask, hpins.autoAccept, hpins.pinned, hpins.peer_eq,
      hpins.peer_eq ▸ hpins.nonzero⟩
  | some reply =>
    right
    obtain ⟨request, hrequest, hof, hlistener, rfl, rfl, hauthorized⟩ := hpoint
    obtain ⟨decision, hmem, hauth⟩ := hauthorized rfl
    refine ⟨reply, request, rfl, hrequest, hof, hlistener, rfl, rfl, ?_⟩
    cases hauth with
    | user saved => exact .inl ⟨_, hmem, saved⟩
    | unattended fromListener covers saved =>
      exact .inr ⟨hlistener ▸ fromListener, _, _, _, hmem, covers.valid, covers.issued,
        covers.notExpired, covers.device, covers.key, covers.desktop, saved⟩

end Runs

/-! ### A listener that lets a granted device in -/

namespace UnattendedSession

/-- Signatures that only say whose they are. -/
def keys : Primitives PublicKey (Option PublicKey) PublicKey PublicKey where
  zero := NO_KEY
  noSignature := none
  publicKey identity := identity
  sign identity _ := some identity
  verify key _ signature :=
    if key ≠ NO_KEY ∧ signature = some key then .ok () else .error .signatureVerification
  ephemeralPublic ephemeral := ephemeral
  diffieHellman ephemeral _ := .ok ephemeral
  sha256 _ := NO_KEY
  extract _ ikm := ikm
  expand key _ := .ok key

def device : DeviceId := ⟨123456789, DeviceId.ascending_inRange⟩
def callerId : DeviceId := ⟨987654321, DeviceId.descending_inRange⟩
def key : PublicKey := Vector.replicate 32 7
def caller : ExpectedPeer PublicKey := ⟨callerId, key⟩

/-- The caller knows only the identifier of the device. -/
def hello : ClientHello PublicKey (Option PublicKey) :=
  (startInitiator keys key callerId ⟨device, NO_KEY⟩ key key).2

def saved : Contact := ⟨"office", callerId.display, key.toHex, ""⟩

def start : App where
  contacts := [saved]
  unattended := some ⟨callerId, key, 0, 100⟩
  consent := none
  job := none
  listener := none
  listenerBusy := false
  polled := []
  workers _ := none
  requests _ := none

def listening : App :=
  { start with listener := some 0 }.setWorker 0
    (.start (some ⟨⟨device, NO_KEY⟩, false, true⟩) true)

def worker (point : WorkerPoint) (events : List WorkerEvent) : Worker :=
  ⟨some ⟨⟨device, NO_KEY⟩, false, true⟩, true, point, events⟩

def connected : App := listening.setWorker 0 (worker (.connected caller) [])

def requested : App :=
  { connected with
    requests := Function.update connected.requests 0
      (some ⟨0, true, caller, .screenView, none, true, []⟩) }.setWorker 0
    (worker (.asking 0 caller .screenView) [.consent caller .screenView 0])

def polled : App := (requested.collect false 0).collect true 1

def handled : App :=
  { polled with polled := [] }.handle true (.consent caller .screenView 0) (some 50)

def answered : App :=
  (handled.onRequest 0 fun request => { request with receiving := false }).setWorker 0
    (worker (.answered (some 0) caller .screenView true) [])

theorem keys_strict (message : List (Piece PublicKey (Option PublicKey)))
    (signature : Option PublicKey) : keys.verify NO_KEY message signature ≠ .ok () := by
  simp [keys]

theorem caller_saved : peer saved.id saved.key = .ok caller := peer_display callerId key

theorem start_init (isAddress : String → Bool) :
    (appSystem keys isAddress key device).init start := by
  have hkey : key ≠ NO_KEY := by decide
  have hname : ¬(saved.name.isEmpty ∨ saved.name.utf8ByteSize > 128 ∨
      saved.name.toList.any isControl) := by decide
  have hvalid : saved.validate isAddress = .ok () := by
    simp only [Contact.validate, caller_saved, bind, Except.bind, if_neg hname]
    rfl
  refine ⟨?_, ?_, rfl, rfl, rfl, rfl, rfl, fun _ => rfl, fun _ => rfl⟩
  · simp [validateContacts, validateFrom, start, hvalid, caller_saved, bind, Except.bind, caller,
      hkey]
  · intro grant hgrant
    obtain rfl := Option.some.inj hgrant
    decide

theorem known : knownPeer caller.deviceId.display caller.publicKey.toHex [saved] = .ok caller := by
  have htrim : ¬trim caller.publicKey.toHex.toList = [] := by decide
  have hof : saved.isOf caller.deviceId = true := Contact.isOf_iff.mpr ⟨caller, caller_saved, rfl⟩
  simp [knownPeer, htrim, peer_display, bind, Except.bind, hof, caller_saved, pure, Except.pure]

/-- The grant answers, fifty seconds after it was issued. -/
theorem handle_granted {s : App} (hcontacts : s.contacts = [saved])
    (hgrant : s.unattended = some ⟨callerId, key, 0, 100⟩) (hconsent : s.consent = none)
    (hjob : s.job = none) (hbusy : s.listenerBusy = false)
    (hrequest : s.requests 0 = some ⟨0, true, caller, .screenView, none, true, []⟩) :
    (s.handle true (.consent caller .screenView 0) (some 50)).workers = s.workers ∧
      (s.handle true (.consent caller .screenView 0) (some 50)).requests 0 =
        some ⟨0, true, caller, .screenView, some true, true,
          [.unattended true (some ⟨callerId, key, 0, 100⟩) 50 [saved]]⟩ := by
  have hpermits : Grant.permits ⟨callerId, key, 0, 100⟩ caller .screenView 50 = true := by decide
  simp [App.handle, App.onConsent, hcontacts, known, hconsent, hjob, hbusy, App.admitOrAsk, hgrant,
    hpermits, App.onRequest, hrequest, Request.accept, Request.trySend]

/-- The application answers a caller while nobody is there. -/
theorem reachable_answered (isAddress : String → Bool) :
    (appSystem keys isAddress key device).Reachable answered := by
  have hlistening : (appSystem keys isAddress key device).Reachable listening :=
    (LTS.Reachable.init (start_init isAddress)).step (l := .listen 0 device) ⟨rfl, rfl, rfl⟩
  have hconnected : (appSystem keys isAddress key device).Reachable connected :=
    hlistening.step (l := .connect 0 hello key key)
      ⟨worker .listening [], _, caller, rfl, rfl, rfl, by decide, rfl⟩
  have hrequested : (appSystem keys isAddress key device).Reachable requested :=
    hconnected.step (l := .request 0 .screenView 0)
      ⟨worker (.connected caller) [], _, caller, rfl, rfl, rfl, rfl, rfl⟩
  have hpolled : (appSystem keys isAddress key device).Reachable polled :=
    hrequested.step (l := .poll 0 1) ⟨rfl, rfl⟩
  have hhandled : (appSystem keys isAddress key device).Reachable handled :=
    hpolled.step (l := .handle (some 50)) ⟨true, .consent caller .screenView 0, [], rfl, rfl⟩
  obtain ⟨hworkers, hreply⟩ :=
    handle_granted (s := { polled with polled := [] }) rfl rfl rfl rfl rfl rfl
  have hworker : handled.workers 0 = some (worker (.asking 0 caller .screenView) []) := by
    rw [handled, hworkers]
    rfl
  exact hhandled.step (l := .receive 0)
    ⟨_, 0, caller, .screenView, _, true, hworker, rfl, hreply, rfl, rfl⟩

/-- What stands behind the answer is the grant. -/
theorem answered_by_grant : ∃ request, answered.requests 0 = some request ∧ request.peer = caller ∧
    ((∃ contacts, Decision.user caller .screenView contacts ∈ request.decisions ∧
        AgreesWith contacts caller) ∨
      ∃ grant now contacts, Decision.unattended true (some grant) now contacts ∈ request.decisions ∧
        grant.valid = true ∧ now < grant.expiresUnix ∧ grant.publicKey = caller.publicKey ∧
        AgreesWith contacts caller) := by
  have hworker : answered.workers 0 =
      some (worker (.answered (some 0) caller .screenView true) []) := rfl
  rcases accept_authority keys_strict (reachable_answered fun _ => false) hworker rfl with
    ⟨_, hnone, -⟩ | ⟨reply, request, hasked, hrequest, -, -, hpeer, -, hwhy⟩
  · cases hnone
  · cases hasked
    refine ⟨request, hrequest, hpeer, ?_⟩
    rcases hwhy with huser | ⟨-, grant, now, contacts, hmem, hvalid, -, hexpires, -, hkey,
      -, hsaved⟩
    · exact .inl huser
    · exact .inr ⟨grant, now, contacts, hmem, hvalid, hexpires, hkey, hsaved⟩

end UnattendedSession

end SensorRemote
