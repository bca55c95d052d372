import SensorRemote.Lib.Transition
import SensorRemote.Relay

/-!
# Two clients waiting for each other

A listener and an initiator wait in `wait_for_peer` (`sensor-render`), sending a heartbeat
every 25 seconds until they have read `PeerReady`; the server's threads read these in
`endpoint_loop`, until the listener's thread takes the initiator's websocket out of its
channel, announces the pair and forwards frames in `relay_pair` (`sensor-rendezvous`). Each
websocket is a queue in either direction, and a read may find nothing yet of what is in it.

The clients are honest: they send what `wait_for_peer` and, once it has returned, `bridge`
send. A thread or a client may give up at any time.
-/

namespace SensorRemote

open Transition

/-- Seconds between two heartbeats of a client. -/
def HEARTBEAT : ℚ := 25

/-- How long a client waits for an answer. -/
def CONNECT_TIMEOUT : ℚ := 90

/-! ## The clients -/

/-- Where a client is. -/
inductive ClientPhase where
  /-- in `wait_for_peer` -/
  | waiting
  /-- in `bridge` -/
  | forwarding
  | closed
  deriving DecidableEq

/-- A client, with the variables of `wait_for_peer`. -/
structure Client where
  phase : ClientPhase
  token : String
  deadline : Option ℚ
  lastHeartbeat : ℚ
  lastAck : ℚ

namespace Client

variable (c : Client) (now : ℚ)

/-- The client waits no longer. -/
def overdue : Bool :=
  (match c.deadline with
    | some deadline => decide (deadline ≤ now)
    | none => false) || decide (CONNECT_TIMEOUT < now - c.lastAck)

/-- Nothing was received that matters, and a heartbeat is due. -/
def beats (received : Option WsMessage) : Bool :=
  !c.overdue now && decide (HEARTBEAT ≤ now - c.lastHeartbeat) &&
    match received with
    | none | some .ping | some .pong => true
    | some _ => false

/-- A heartbeat, if one is due. -/
def beat (received : Option WsMessage) : Client × List WsMessage :=
  if c.beats now received then
    ({ c with lastHeartbeat := now }, [.text (.heartbeat c.token)])
  else (c, [])

/-- One pass of `wait_for_peer`, with what the read answers: the client after it and the
frames it sends. -/
def poll (received : Option WsMessage) : Client × List WsMessage :=
  if c.overdue now then ({ c with phase := .closed }, [.close])
  else
    match received with
    | some (.text (.peerReady _ _)) => ({ c with phase := .forwarding }, [])
    | some (.text .heartbeatAck) => ({ c with lastAck := now }, [])
    | some (.text _) | some (.binary _) | some .close => ({ c with phase := .closed }, [.close])
    | some .ping => ((c.beat now received).1, .pong :: (c.beat now received).2)
    | none | some .pong => c.beat now received

end Client

/-! ## The server's threads -/

/-- What `endpoint_loop` does with a frame. -/
inductive Answer where
  /-- it sends something and goes on -/
  | reply (frames : List WsMessage)
  /-- it hands the websocket to the target's thread -/
  | offer
  /-- it returns -/
  | leave

/-- The reading of `endpoint_loop`: `target` is what looking up and offering comes to. -/
def endpointRead (listen : Bool) (token : String) (target : Except String Unit) : WsMessage → Answer
  | .text (.connect supplied _ _) =>
    if listen then .reply [.text (.error "invalid_state" "listener cannot initiate a session")]
    else if supplied ≠ token then
      .reply [.text (.error "unauthorized" "registration token rejected")]
    else
      match target with
      | .ok () => .offer
      | .error error => .reply [.text (.error "target_unavailable" error)]
  | .text (.heartbeat supplied) =>
    if supplied ≠ token then .reply [.text (.error "unauthorized" "registration token rejected")]
    else .reply [.text .heartbeatAck]
  | .text (.register _ _ _ _ _) =>
    .reply [.text (.error "invalid_state" "device is already registered")]
  | .text _ => .reply [.text (.error "invalid_state" "unexpected control message")]
  | .ping => .reply [.pong]
  | .pong => .reply []
  | .close | .binary _ => .leave

/-- The two clients, by the websocket they are on. -/
inductive Side where
  | listener
  | initiator
  deriving DecidableEq

def Side.other : Side → Side
  | .listener => .initiator
  | .initiator => .listener

/-- The frames under way on a websocket. -/
structure Link where
  toServer : List WsMessage
  toClient : List WsMessage

/-- Where the initiator's thread is. -/
inductive InitiatorThread where
  | waiting
  /-- its websocket is in the listener's channel -/
  | offered
  | gone
  deriving DecidableEq

/-- What the relay does next. -/
inductive Turn where
  | flush
  /-- a `relay_step` from a side to the other -/
  | step (source : Side)
  deriving DecidableEq

/-- Where the listener's thread is. -/
inductive Session where
  /-- in `endpoint_loop`, about to look into its channel -/
  | receiving
  /-- about to read its websocket -/
  | reading
  /-- in `relay_pair`, about to send `PeerReady` to a side -/
  | announcing (side : Side)
  /-- forwarding, with the endpoints of the sides -/
  | relaying (turn : Turn) (endpoints : Side → RelayEndpoint)
  /-- `relay_pair` has returned -/
  | ended (result : Except RelayFailure Unit)
  /-- `endpoint_loop` has returned unpaired -/
  | left

/-- The server has paired the two connections. -/
def Session.paired : Session → Bool
  | .announcing _ | .relaying _ _ => true
  | _ => false

/-- The clients, their websockets and the server's threads. -/
structure Meeting where
  now : ℚ
  maxBitrate : Option ℕ
  clients : Side → Client
  links : Side → Link
  initiatorThread : InitiatorThread
  session : Session

/-- What a read finds. -/
inductive Arrival where
  /-- the oldest frame under way -/
  | delivered
  | wouldBlock
  | failed

namespace Meeting

variable (m : Meeting) (side : Side)

def setLink (link : Link) : Meeting := { m with links := Function.update m.links side link }

/-- A client has sent frames. -/
def upload (frames : List WsMessage) : Meeting :=
  m.setLink side ⟨(m.links side).toServer ++ frames, (m.links side).toClient⟩

/-- The server has sent frames. -/
def download (frames : List WsMessage) : Meeting :=
  m.setLink side ⟨(m.links side).toServer, (m.links side).toClient ++ frames⟩

/-- The server has read, and these frames are left. -/
def keep (frames : List WsMessage) : Meeting := m.setLink side ⟨frames, (m.links side).toClient⟩

/-- A client has read, and these frames are left. -/
def keepDown (frames : List WsMessage) : Meeting := m.setLink side ⟨(m.links side).toServer, frames⟩

def setClient (c : Client) : Meeting :=
  { m with clients := Function.update m.clients side c }

/-- A client in `wait_for_peer`. -/
def poll (received : Option WsMessage) : Meeting :=
  ((m.setClient side ((m.clients side).poll m.now received).1)).upload side
    ((m.clients side).poll m.now received).2

/-- A client gives up, or `bridge` ends. -/
def giveUp : Meeting :=
  (m.setClient side { m.clients side with phase := .closed }).upload side [.close]

/-- The initiator's thread reads a frame. -/
def initiatorReads (target : Except String Unit) (frame : WsMessage) : Meeting :=
  match endpointRead false (m.clients .initiator).token target frame with
  | .reply frames => m.download .initiator frames
  | .offer => { m with initiatorThread := .offered }
  | .leave => { m with initiatorThread := .gone }

/-- The listener's thread reads a frame. -/
def listenerReads (frame : WsMessage) : Meeting :=
  match endpointRead true (m.clients .listener).token (.error "") frame with
  | .reply frames => { m.download .listener frames with session := .receiving }
  | .offer | .leave => { m with session := .left }

/-- The listener's thread looks into its channel. -/
def tryReceive : Meeting :=
  { m with session := if m.initiatorThread = .offered then .announcing .listener else .reading }

/-- `relay_pair` sends `PeerReady`, to the listener first. -/
def announce (sent : Bool) (peerDeviceId peerPublicKey : String) : Meeting :=
  if sent then
    let m' := m.download side [.text (.peerReady peerDeviceId peerPublicKey)]
    match side with
    | .listener => { m' with session := .announcing .initiator }
    | .initiator => { m' with
        session := .relaying .flush fun _ => .new m.maxBitrate m.now }
  else { m with session := .ended (.error .socket) }

/-- The relay flushes both endpoints. -/
def flush (endpoints : Side → RelayEndpoint) (sent : Side → Sent) : Meeting :=
  match (endpoints .listener).flush m.now (sent .listener) with
  | .error failure => { m with session := .ended (.error failure) }
  | .ok target =>
    match (endpoints .initiator).flush m.now (sent .initiator) with
    | .error failure => { m with session := .ended (.error failure) }
    | .ok initiator => { m with session := .relaying (.step .initiator) fun
        | .listener => target
        | .initiator => initiator }

/-- Viewer input has the first opportunity, then the listener, then both are flushed. -/
def turnAfter : Side → Turn
  | .initiator => .step .listener
  | .listener => .flush

/-- The second half of `relay_step` from a side. -/
def relayWrite (endpoints : Side → RelayEndpoint) (source : RelayEndpoint) (sent : Sent) :
    Meeting :=
  match source.write (endpoints side.other) m.now sent with
  | .error failure => { m with session := .ended (.error failure) }
  | .ok (written, source, destination) =>
    { m.download side.other (written.map WsMessage.binary).toList with
      session := .relaying (turnAfter side) fun s => if s = side then source else destination }

/-- `relay_step` from a side. -/
def relayStep (endpoints : Side → RelayEndpoint) (read : Read) (sent : Sent) : Meeting :=
  if (endpoints side).pending.isSome then m.relayWrite side endpoints (endpoints side) sent
  else
    match (endpoints side).read m.now read with
    | .error failure => { m with session := .ended (.error failure) }
    | .ok (false, _) => { m with session := .ended (.ok ()) }
    | .ok (true, source) => m.relayWrite side endpoints source sent

end Meeting

/-- The steps of a meeting. -/
inductive MeetingLabel where
  /-- time passes -/
  | tick (now : ℚ)
  /-- a pass of `wait_for_peer`, whose read finds something or nothing -/
  | poll (side : Side) (delivered : Bool)
  | giveUp (side : Side)
  /-- `bridge` sends a frame -/
  | forward (side : Side) (payload : List UInt8)
  /-- `bridge` takes a frame -/
  | take (side : Side)
  | initiatorReads (arrival : Arrival) (target : Except String Unit)
  | listenerReads (arrival : Arrival)
  | tryReceive
  /-- the listener's presence is lost, or a limit exceeded -/
  | leave
  | announce (sent : Bool) (peerDeviceId peerPublicKey : String)
  | flush (sent : Side → Sent)
  | relay (arrival : Arrival) (sent : Sent)

/-- The system of two honest clients and the server. The initiator has sent its `Connect`. -/
def meeting : LTS Meeting MeetingLabel where
  init m :=
    (∀ side, (m.clients side).phase = .waiting ∧ (m.links side).toClient = []) ∧
      (m.links .listener).toServer = [] ∧
      (∃ targetDeviceId targetPublicKey, (m.links .initiator).toServer =
        [.text (.connect (m.clients .initiator).token targetDeviceId targetPublicKey)]) ∧
      m.initiatorThread = .waiting ∧ m.session = .receiving
  step m label m' :=
    match label with
    | .tick now => m.now ≤ now ∧ m' = { m with now }
    | .poll side true => (m.clients side).phase = .waiting ∧
        ∃ frame rest, (m.links side).toClient = frame :: rest ∧
          m' = (m.keepDown side rest).poll side (some frame)
    | .poll side false => (m.clients side).phase = .waiting ∧ m' = m.poll side none
    | .giveUp side => (m.clients side).phase ≠ .closed ∧ m' = m.giveUp side
    | .forward side payload => (m.clients side).phase = .forwarding ∧
        payload.length ≤ BRIDGE_BUFFER ∧ m' = m.upload side [.binary payload]
    | .take side => (m.clients side).phase = .forwarding ∧
        ∃ frame rest, (m.links side).toClient = frame :: rest ∧ m' = m.keepDown side rest
    | .initiatorReads arrival target => m.initiatorThread = .waiting ∧
        match arrival with
        | .delivered => ∃ frame rest, (m.links .initiator).toServer = frame :: rest ∧
            m' = (m.keep .initiator rest).initiatorReads target frame
        | .wouldBlock => m' = m
        | .failed => m' = { m with initiatorThread := .gone }
    | .listenerReads arrival => m.session = .reading ∧
        match arrival with
        | .delivered => ∃ frame rest, (m.links .listener).toServer = frame :: rest ∧
            m' = (m.keep .listener rest).listenerReads frame
        | .wouldBlock => m' = { m with session := .receiving }
        | .failed => m' = { m with session := .left }
    | .tryReceive => m.session = .receiving ∧ m' = m.tryReceive
    | .leave => m.session = .receiving ∧ m' = { m with session := .left }
    | .announce sent peerDeviceId peerPublicKey => ∃ side, m.session = .announcing side ∧
        m' = m.announce side sent peerDeviceId peerPublicKey
    | .flush sent => ∃ endpoints, m.session = .relaying .flush endpoints ∧
        m' = m.flush endpoints sent
    | .relay arrival sent => ∃ side endpoints, m.session = .relaying (.step side) endpoints ∧
        match arrival with
        | .delivered => (endpoints side).pending = none ∧
            ∃ frame rest, (m.links side).toServer = frame :: rest ∧
              m' = (m.keep side rest).relayStep side endpoints (.frame frame) sent
        | .wouldBlock => m' = m.relayStep side endpoints .wouldBlock sent
        | .failed => m' = m.relayStep side endpoints .failed sent

end SensorRemote
