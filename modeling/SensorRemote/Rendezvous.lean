import Mathlib.Algebra.Group.Nat.Defs
import Mathlib.Data.Option.Basic
import Mathlib.Logic.Function.Basic
import SensorRemote.Core
import SensorRemote.Lib.Transition

/-!
# The rendezvous server

The server (`sensor-rendezvous`) keeps a directory of the devices that listen and one
thread for every connection. A thread registers its client, then goes round `endpoint_loop`
(check the presence, look for an offer, read a message), and hands a target's listener its
own websocket when the client asks for a connection. The listener's thread takes the offer
from its one-slot channel and forwards frames inside `relay_pair` until either side ends.

The directory is behind a mutex, so a step of the system is one locked section, one
operation on a channel or one message read; between two of them any other thread may move
and any time may pass. Connection identifiers are drawn at random from 64 bits and are
taken to be distinct. A registration whose signature does not verify comes to no step.
-/

namespace SensorRemote

open Transition

/-- How long a device is present after its last heartbeat, in nanoseconds. -/
def PRESENCE_TTL : ℕ := 90 * 10 ^ 9

/-- How long a registration is valid. -/
def TOKEN_TTL : ℕ := 2592000 * 10 ^ 9

/-- The number of a connection. -/
abbrev ConnectionId := ℕ

/-- The key an initiator gives that accepts any listener of the device. -/
def ANY_KEY : String := PublicKey.toHex (Vector.replicate 32 0)

/-! ## The directory -/

/-- A device that listens. The channel to its thread is the one of the connection that
registered it. -/
structure DeviceEntry where
  publicKey : PublicKey
  busy : Bool
  connectionId : ConnectionId
  lastSeen : ℕ
  deriving DecidableEq

/-- The devices that listen. -/
abbrev Directory := DeviceId → Option DeviceEntry

/-- The entry has not been renewed for the time of a presence. -/
def DeviceEntry.expired (entry : DeviceEntry) (now : ℕ) : Bool :=
  PRESENCE_TTL ≤ now - entry.lastSeen

namespace Directory

variable (devices : Directory) (device : DeviceId)

/-- The locked section of `register`. -/
def register (publicKey : PublicKey) (connectionId now : ℕ) : Except String Directory :=
  match devices device with
  | some existing =>
    if existing.publicKey ≠ publicKey then
      .error "device ID is already registered with a different key"
    else .ok (Function.update devices device (some ⟨publicKey, false, connectionId, now⟩))
  | none => .ok (Function.update devices device (some ⟨publicKey, false, connectionId, now⟩))

/-- The second locked section of `find_target`: the connection whose channel is cloned. -/
def findTarget (expectedKey : String) : Except String (ConnectionId × Directory) :=
  match devices device with
  | none => .error "target device is offline"
  | some entry =>
    if entry.busy then .error "target is busy"
    else if expectedKey ≠ entry.publicKey.toHex ∧ expectedKey ≠ ANY_KEY then
      .error "target public key does not match"
    else .ok (entry.connectionId, Function.update devices device (some { entry with busy := true }))

/-- `touch_device`: a heartbeat of the connection that holds the entry. -/
def touchDevice (connectionId now : ℕ) : Directory :=
  Function.update devices device ((devices device).map fun entry =>
    if entry.connectionId = connectionId then { entry with lastSeen := now } else entry)

/-- `presence_expired`: the connection does not hold the entry, or holds it too long. -/
def presenceExpired (connectionId now : ℕ) : Bool :=
  match devices device with
  | none => true
  | some entry => entry.connectionId ≠ connectionId || entry.expired now

/-- `expire_devices`. -/
def expireDevices (now : ℕ) : Directory :=
  fun device => (devices device).filter fun entry => !entry.expired now

/-- `remove_device`. -/
def removeDevice (connectionId : ConnectionId) : Directory :=
  Function.update devices device ((devices device).filter (·.connectionId ≠ connectionId))

end Directory

/-! ## Connections -/

/-- What an initiator's thread puts into the channel of a listener's: its connection, with
the key it asked for. -/
structure PeerOffer where
  initiator : ConnectionId
  askedKey : String
  deriving DecidableEq

/-- Where the thread of a connection is. -/
inductive Phase where
  /-- in `register`, with the directory written and `Registered` not yet sent -/
  | registering
  /-- `Registered` could not be sent; the channel is still there -/
  | unregistering
  /-- at the head of `endpoint_loop` -/
  | checking
  /-- about to look into the channel -/
  | receiving
  /-- about to read from the websocket -/
  | reading
  /-- in `find_target`, before its sweep of the directory -/
  | sweeping (target : DeviceId) (askedKey : String)
  /-- in `find_target`, after the sweep -/
  | finding (target : DeviceId) (askedKey : String)
  /-- with a clone of the sender of a listener's channel -/
  | offering (listener : ConnectionId) (askedKey : String)
  /-- in `relay_pair` -/
  | relaying (offer : PeerOffer)
  /-- `endpoint_loop` has returned and its channel is gone -/
  | leaving
  /-- the thread has ended -/
  | gone
  deriving DecidableEq

/-- The variables of a connection's thread. -/
structure Connection where
  deviceId : DeviceId
  publicKey : PublicKey
  listen : Bool
  registeredAt : ℕ
  lastSeen : ℕ
  phase : Phase
  /-- the one slot of its channel -/
  channel : Option PeerOffer
  deriving DecidableEq

/-- The channel's receiver is alive. -/
def Connection.receives (c : Connection) : Bool := c.phase ≠ .leaving && c.phase ≠ .gone

/-- The connection is being served: its thread is in `endpoint_loop`, waiting or forwarding. -/
def Connection.served (c : Connection) : Bool :=
  match c.phase with
  | .registering | .unregistering | .leaving | .gone => false
  | _ => true

/-- The server: the clock, the directory, the connections, and a record of the offers put
into a listener's channel and of those taken out. -/
structure Rendezvous where
  now : ℕ
  devices : Directory
  connections : ConnectionId → Option Connection
  handed : List (ConnectionId × PeerOffer)
  paired : List (ConnectionId × PeerOffer)

namespace Rendezvous

variable (s : Rendezvous) (id : ConnectionId) (c : Connection)

/-- The directory is written. -/
def write (devices : Directory) : Rendezvous := { s with devices }

/-- The thread of a connection moves on. -/
def move : Rendezvous := { s with connections := Function.update s.connections id (some c) }

/-- The locked section of `register` and what follows for the connection. -/
def register (device : DeviceId) (publicKey : PublicKey) (listen : Bool) : Rendezvous :=
  let c : Connection := ⟨device, publicKey, listen, s.now, s.now, .registering, none⟩
  if listen then
    match s.devices.register device publicKey id s.now with
    | .ok devices => (s.write devices).move id c
    | .error _ => s.move id { c with phase := .gone }
  else s.move id c

/-- `Registered` is sent, or cannot be. -/
def reply (sent : Bool) : Rendezvous :=
  s.move id { c with
    phase := if sent then .checking else .unregistering
    registeredAt := s.now
    lastSeen := s.now }

/-- The conditions at the head of `endpoint_loop` under which it returns. -/
def presenceLost : Bool :=
  TOKEN_TTL ≤ s.now - c.registeredAt || PRESENCE_TTL < s.now - c.lastSeen ||
    (c.listen && s.devices.presenceExpired c.deviceId id s.now)

def checkPresence : Rendezvous :=
  s.move id { c with phase := if s.presenceLost id c then .leaving else .receiving }

/-- `receiver.try_recv()`. Every registration keeps a sender of its own channel, so the
channel never counts as disconnected. -/
def tryReceive : Rendezvous :=
  match c.channel with
  | some offer =>
    { s with paired := s.paired ++ [(id, offer)] }.move id
      { c with phase := .relaying offer, channel := none }
  | none => s.move id { c with phase := .reading }

/-- Back to the head of the loop, unless an answer could not be sent. -/
def loop (sent : Bool) : Rendezvous :=
  s.move id { c with phase := if sent then .checking else .leaving }

/-- A `Heartbeat` is read, with the registration's token or without. -/
def heartbeat (authorized sent : Bool) : Rendezvous :=
  if authorized then
    (s.write (s.devices.touchDevice c.deviceId id s.now)).loop id { c with lastSeen := s.now } sent
  else s.loop id c sent

/-- A `Connect` is read; the target is missing where its text is no identifier. -/
def connect (authorized : Bool) (target : Option DeviceId) (askedKey : String) (sent : Bool) :
    Rendezvous :=
  if c.listen then s.loop id c sent
  else if !authorized then s.loop id c sent
  else
    let touched := s.write (s.devices.touchDevice c.deviceId id s.now)
    match target with
    | none => touched.loop id c false
    | some target =>
      if target = c.deviceId then touched.loop id c sent
      else touched.move id { c with phase := .sweeping target askedKey }

/-- `expire_devices`, on behalf of anyone. -/
def sweep : Rendezvous := s.write (s.devices.expireDevices s.now)

/-- The second half of `find_target`. -/
def find (target : DeviceId) (askedKey : String) (sent : Bool) : Rendezvous :=
  match s.devices.findTarget target askedKey with
  | .error _ => s.loop id c sent
  | .ok (listener, devices) =>
    (s.write devices).move id { c with phase := .offering listener askedKey }

/-- `target.commands.try_send(offer)`, after which the initiator's thread has nothing left. -/
def offer (listener : ConnectionId) (askedKey : String) : Rendezvous :=
  let left := s.loop id c false
  match left.connections listener with
  | none => left
  | some l =>
    if l.receives && l.channel.isNone then
      let offer : PeerOffer := ⟨id, askedKey⟩
      { left with handed := left.handed ++ [(listener, offer)] }.move listener
        { l with channel := some offer }
    else left

/-- The thread's last locked section. -/
def remove : Rendezvous :=
  (s.write (s.devices.removeDevice c.deviceId id)).move id { c with phase := .gone }

end Rendezvous

/-- What one thread can do. -/
inductive ThreadStep where
  | reply (sent : Bool)
  | checkPresence
  | tryReceive
  | heartbeat (authorized sent : Bool)
  | connect (authorized : Bool) (target : Option DeviceId) (askedKey : String) (sent : Bool)
  /-- any other message that lets the loop go on, or none -/
  | idle
  /-- the loop or `relay_pair` returns: an error, a limit, a closed connection -/
  | leave
  | sweep
  | find (sent : Bool)
  | offer
  | remove

/-- The steps of the server. -/
inductive RendezvousLabel where
  /-- time passes -/
  | tick (now : ℕ)
  /-- a registration that verified comes to the directory -/
  | register (id : ConnectionId) (device : DeviceId) (publicKey : PublicKey) (listen : Bool)
  /-- a health or lookup request sweeps the directory -/
  | request
  /-- the thread of a connection -/
  | act (id : ConnectionId) (action : ThreadStep)

/-- What a thread does in the phase it is in. -/
def Rendezvous.act (s : Rendezvous) (id : ConnectionId) (c : Connection) (t : Rendezvous) :
    ThreadStep → Prop
  | .reply sent => c.phase = .registering ∧ t = s.reply id c sent
  | .checkPresence => c.phase = .checking ∧ t = s.checkPresence id c
  | .tryReceive => c.phase = .receiving ∧ t = s.tryReceive id c
  | .heartbeat authorized sent => c.phase = .reading ∧ t = s.heartbeat id c authorized sent
  | .connect authorized target askedKey sent =>
    c.phase = .reading ∧ t = s.connect id c authorized target askedKey sent
  | .idle => c.phase = .reading ∧ t = s.loop id c true
  | .leave => (c.phase = .reading ∨ ∃ offer, c.phase = .relaying offer) ∧ t = s.loop id c false
  | .sweep => ∃ target askedKey, c.phase = .sweeping target askedKey ∧
      t = s.sweep.move id { c with phase := .finding target askedKey }
  | .find sent => ∃ target askedKey, c.phase = .finding target askedKey ∧
      t = s.find id c target askedKey sent
  | .offer => ∃ listener askedKey, c.phase = .offering listener askedKey ∧
      t = s.offer id c listener askedKey
  | .remove => (c.phase = .leaving ∨ c.phase = .unregistering) ∧ t = s.remove id c

/-- The rendezvous server under any clients, any schedule and any passage of time. -/
def rendezvous : LTS Rendezvous RendezvousLabel where
  init s := s.devices = (fun _ => none) ∧ s.connections = (fun _ => none) ∧ s.handed = [] ∧
    s.paired = []
  step s label t :=
    match label with
    | .tick now => s.now ≤ now ∧ t = { s with now }
    | .register id device publicKey listen =>
      s.connections id = none ∧ t = s.register id device publicKey listen
    | .request => t = s.sweep
    | .act id action => ∃ c, s.connections id = some c ∧ s.act id c t action

end SensorRemote
