import SensorRemote.Agreement
import SensorRemote.ProvisionedRelay
import SensorRemote.Lib.Registry

/-!
# Admission to a provisioned relay

What keeps strangers out of a provisioned relay (`sensor-relay`). A connection is sent a
fresh challenge signed by the relay; `join` checks that signature and signs the challenge
back; `authenticate` admits the connection as one endpoint of the pair if the response is
signed with the key provisioned for it. `serve_pair` holds the endpoints until both are
there.

Relays and devices are those of a network that belongs to an attacker, with the
cryptography symbolic as in the handshake. The identity keys are in use elsewhere too: a
device signs whatever it likes that does not begin like a challenge or a response.
-/

namespace SensorRemote

namespace Admission

open Symbolic Transition Registry

/-! ## The exchange -/

section Exchange

variable {β σ ι ε : Type}

/-- The first four bytes of a challenge. -/
def MAGIC : String := "SRL1"

/-- The 132 bytes of a challenge. -/
structure Challenge (β σ : Type) where
  magic : String
  nonce : β
  relayKey : β
  signature : σ
  deriving DecidableEq

/-- The 96 bytes of a response. -/
structure Response (β σ : Type) where
  publicKey : β
  signature : σ

/-- `challenge_bytes`. -/
def challengeBytes (nonce : β) : List (Piece β σ) :=
  [.domain "SENSOR/relay/challenge/v1", .bytes32 nonce]

/-- The bytes of a challenge. -/
def Challenge.pieces (challenge : Challenge β σ) : List (Piece β σ) :=
  [.domain challenge.magic, .bytes32 challenge.nonce, .bytes32 challenge.relayKey,
    .signature challenge.signature]

/-- `response_bytes`. -/
def responseBytes (challenge : Challenge β σ) (key : β) : List (Piece β σ) :=
  .domain "SENSOR/relay/join/v1" :: challenge.pieces ++ [.bytes32 key]

theorem Challenge.pieces_inj {challenge challenge' : Challenge β σ}
    (h : challenge.pieces = challenge'.pieces) : challenge = challenge' := by
  cases challenge
  cases challenge'
  simpa [pieces] using h

/-- A response determines the challenge and the key it was made for. -/
theorem responseBytes_inj {challenge challenge' : Challenge β σ} {key key' : β}
    (h : responseBytes challenge key = responseBytes challenge' key') :
    challenge = challenge' ∧ key = key' := by
  obtain ⟨hpieces, hkey⟩ := List.append_inj' (List.cons.inj h).2 rfl
  exact ⟨Challenge.pieces_inj hpieces, by simpa using hkey⟩

/-- A string that neither side of the exchange signs. -/
def Elsewhere (pieces : List (Piece β σ)) : Prop :=
  ∀ nonce challenge key, pieces ≠ challengeBytes nonce ∧ pieces ≠ responseBytes challenge key

/-- The strings of the handshake are among them. -/
theorem elsewhere_handshake (client : ClientHello β σ) (server : ServerHello β σ) :
    Elsewhere (clientSignatureBytes client) ∧ Elsewhere (serverSignatureBytes client server) := by
  constructor <;> intro nonce challenge key <;>
    simp [clientSignatureBytes, serverSignatureBytes, challengeBytes, responseBytes]

variable (p : Primitives β σ ι ε)

/-- The challenge `authenticate` sends. -/
def issue (relay : ι) (nonce : β) : Challenge β σ :=
  ⟨MAGIC, nonce, p.publicKey relay, p.sign relay (challengeBytes nonce)⟩

variable [DecidableEq β]

/-- `join`, from the challenge read to the response written. -/
def answer (localKey : ι) (relayKey : β) (challenge : Challenge β σ) :
    Except RelayError (Response β σ) :=
  if challenge.magic ≠ MAGIC ∨ challenge.relayKey ≠ relayKey then .error .unauthorized
  else
    match p.verify relayKey (challengeBytes challenge.nonce) challenge.signature with
    | .error _ => .error .crypto
    | .ok () =>
      let publicKey := p.publicKey localKey
      .ok ⟨publicKey, p.sign localKey (responseBytes challenge publicKey)⟩

/-- `allowed.iter().position(…)`. -/
def position (allowed : PairRole → β) (publicKey : β) : Option PairRole :=
  if allowed .left = publicKey then some .left
  else if allowed .right = publicKey then some .right
  else none

/-- `authenticate`, once the response is read. -/
def check (allowed : PairRole → β) (challenge : Challenge β σ) (response : Response β σ) :
    Except RelayError PairRole :=
  match position allowed response.publicKey with
  | none => .error .unauthorized
  | some role =>
    match p.verify response.publicKey (responseBytes challenge response.publicKey)
      response.signature with
    | .error _ => .error .crypto
    | .ok () => .ok role

theorem allowed_of_position {allowed : PairRole → β} {publicKey : β}
    {role : PairRole} (h : position allowed publicKey = some role) : allowed role = publicKey := by
  unfold position at h
  split at h
  · obtain rfl := Option.some.inj h
    assumption
  · split at h
    · obtain rfl := Option.some.inj h
      assumption
    · cases h

/-- What `join` has checked when it answers. -/
theorem answer_ok {localKey : ι} {relayKey : β} {challenge : Challenge β σ}
    {response : Response β σ} (h : answer p localKey relayKey challenge = .ok response) :
    challenge.magic = MAGIC ∧ challenge.relayKey = relayKey ∧
      p.verify relayKey (challengeBytes challenge.nonce) challenge.signature = .ok () ∧
      response = ⟨p.publicKey localKey,
        p.sign localKey (responseBytes challenge (p.publicKey localKey))⟩ := by
  unfold answer at h
  split at h
  · cases h
  · rename_i hok
    split at h
    · cases h
    · rename_i hverify
      obtain ⟨hmagic, hkey⟩ := not_or.mp hok
      exact ⟨not_not.mp hmagic, not_not.mp hkey, hverify, (Except.ok.inj h).symm⟩

/-- What `authenticate` has checked when it admits a connection. -/
theorem check_ok {allowed : PairRole → β} {challenge : Challenge β σ} {response : Response β σ}
    {role : PairRole} (h : check p allowed challenge response = .ok role) :
    p.verify (allowed role) (responseBytes challenge (allowed role)) response.signature =
      .ok () := by
  unfold check at h
  split at h
  · cases h
  · rename_i role' hposition
    split at h
    · cases h
    · rename_i hverify
      obtain rfl := Except.ok.inj h
      rw [allowed_of_position hposition]
      exact hverify

end Exchange

/-! ## The parties -/

/-- A call of `join`. What it has answered stays on record when it fails. -/
structure Join where
  identity : ℕ
  relayKey : Msg
  /-- the challenge it has signed a response to -/
  answered : Option (Challenge Msg Msg)
  result : Option (Except RelayError Unit)

/-- `join` reads a challenge. -/
def Join.receive (join : Join) (challenge : Challenge Msg Msg) (written : Bool) :
    Join × Option (Response Msg Msg) :=
  match answer symbolic join.identity join.relayKey challenge with
  | .error error => ({ join with result := some (.error error) }, none)
  | .ok response =>
    ({ join with
        answered := some challenge
        result := if written then none else some (.error .io) },
      some response)

/-- `join` reads the byte that follows. -/
def Join.ready (join : Join) (byte : UInt8) : Join :=
  { join with result := some (if byte = 1 then .ok () else .error .unauthorized) }

/-- A call of `authenticate`: the relay it is of, the challenge sent, and the endpoint the
connection was admitted as. -/
structure Call where
  relay : ℕ
  challenge : Challenge Msg Msg
  admitted : Option PairRole

/-- Where a relay is. -/
inductive Service where
  /-- accepting connections, with those that are there and the number rejected -/
  | accepting (seats : PairRole → Option ℕ) (rejected : ℕ)
  /-- in `authenticate` -/
  | authenticating (call : ℕ) (seats : PairRole → Option ℕ) (rejected : ℕ)
  /-- copying between two connections -/
  | serving (left right : ℕ)
  /-- `serve_forever` has returned -/
  | returned

/-- A relay. -/
structure Relay where
  identity : ℕ
  allowed : PairRole → Msg
  service : Service

namespace Service

/-- `serve_pair` begins. -/
def fresh : Service := .accepting (fun _ => none) 0

/-- A connection is rejected; the session ends with the sixteenth. -/
def reject (seats : PairRole → Option ℕ) (rejected : ℕ) : Service :=
  if 16 ≤ rejected + 1 then fresh else .accepting seats (rejected + 1)

/-- The loop of `serve_pair` is left when both endpoints are there. -/
def seated (seats : PairRole → Option ℕ) (rejected : ℕ) : Service :=
  match seats .left, seats .right with
  | some left, some right => .serving left right
  | _, _ => .accepting seats rejected

/-- What `serve_pair` does with what `authenticate` returned for a connection. -/
def seat (call : ℕ) (seats : PairRole → Option ℕ) (rejected : ℕ) :
    Except RelayError PairRole → Service
  | .ok role =>
    if (seats role).isSome then reject seats rejected
    else seated (Function.update seats role (some call)) rejected
  | .error _ => reject seats rejected

/-- Where the provisioned relay is, if all it knows is who is there. -/
def point (deadline : ℕ) : Service → ServePoint
  | .accepting seats rejected | .authenticating _ seats rejected =>
    .accepting deadline (seats .left).isSome (seats .right).isSome rejected
  | .serving _ _ => .starting startOps
  | .returned => .returned .io

/-- The loop is that of the provisioned relay, with the connections it holds: only a session
that has ended the relay begins anew. -/
theorem seat_point (s : RelayState) (deadline call rejected : ℕ) (seats : PairRole → Option ℕ)
    (result : Except RelayError PairRole) :
    (s.seat deadline (seats .left).isSome (seats .right).isSome rejected result).point =
        (seat call seats rejected result).point deadline ∨
      (s.seat deadline (seats .left).isSome (seats .right).isSome rejected result).point =
        .cloning ∧ seat call seats rejected result = fresh := by
  have hreject : (s.reject deadline (seats .left).isSome (seats .right).isSome rejected).point =
        (reject seats rejected).point deadline ∨
      (s.reject deadline (seats .left).isSome (seats .right).isSome rejected).point = .cloning ∧
        reject seats rejected = fresh := by
    unfold RelayState.reject reject
    split
    · exact .inr ⟨rfl, rfl⟩
    · exact .inl rfl
  rcases result with error | role
  · exact hreject
  · cases role with
    | left =>
      cases hleft : seats .left with
      | some i => simpa [RelayState.seat, seat, hleft] using hreject
      | none =>
        cases hright : seats .right <;>
          simp [RelayState.seat, seat, seated, point, hleft, hright]
    | right =>
      cases hright : seats .right with
      | some i => simpa [RelayState.seat, seat, hright] using hreject
      | none =>
        cases hleft : seats .left <;>
          simp [RelayState.seat, seat, seated, point, hleft, hright]

end Service

/-! ## The network -/

/-- All calls so far, the `i`-th call of `authenticate` drawing its nonce under the name
`run i`, and everything that was ever sent. -/
structure Network where
  joins : List Join
  relays : List Relay
  calls : List Call
  /-- what was signed outside the exchange, and by whom -/
  elsewhere : Set (ℕ × List (Piece Msg Msg))
  sent : Set Msg
  /-- the pairs of connections served, each with its relay -/
  pairs : List (ℕ × ℕ × ℕ)

/-- What the attacker decides. -/
inductive Action where
  /-- a device calls `join` -/
  | join (identity : ℕ) (relayKey : Msg)
  /-- a relay is started -/
  | start (identity : ℕ) (allowed : PairRole → Msg)
  /-- a relay accepts a connection -/
  | accept (relay : ℕ)
  /-- a call of `join` reads a challenge -/
  | challenge (join : ℕ) (challenge : Challenge Msg Msg) (written : Bool)
  /-- a relay reads a response -/
  | respond (relay : ℕ) (response : Response Msg Msg)
  /-- a call of `join` reads the byte that follows -/
  | ready (join : ℕ) (byte : UInt8)
  /-- a call of `join` gives up -/
  | stop (join : ℕ) (error : RelayError)
  /-- `authenticate` gives up on a connection -/
  | drop (relay : ℕ) (error : RelayError)
  /-- the pairing deadline has passed, or a pair has been served -/
  | next (relay : ℕ)
  /-- a relay stops: an operation on a socket failed -/
  | halt (relay : ℕ)
  /-- a key signs something else -/
  | sign (identity : ℕ) (pieces : List (Piece Msg Msg))

/-- The parts of a challenge that are not plain text. -/
def Challenge.terms (challenge : Challenge Msg Msg) : List Msg :=
  [challenge.nonce, challenge.relayKey, challenge.signature]

/-- The parts of a response. -/
def Response.terms (response : Response Msg Msg) : List Msg :=
  [response.publicKey, response.signature]

namespace Network

/-- Replace a call of `join` and send what it sends. -/
def setJoin (net : Network) (j : ℕ) (join : Join) (sent : List Msg) : Network :=
  { net with joins := net.joins.set j join, sent := net.sent ∪ {t | t ∈ sent} }

/-- A relay goes on. -/
def setService (net : Network) (r : ℕ) (relay : Relay) (service : Service) : Network :=
  { net with relays := net.relays.set r { relay with service } }

/-- A relay has accepted a connection and sends it a challenge. -/
def connect (net : Network) (r : ℕ) (relay : Relay) (seats : PairRole → Option ℕ)
    (rejected : ℕ) : Network :=
  let i := net.calls.length
  let challenge := issue symbolic relay.identity (.nonce (.run i))
  { net.setService r relay (.authenticating i seats rejected) with
    calls := net.calls ++ [⟨r, challenge, none⟩]
    sent := net.sent ∪ {t | t ∈ challenge.terms} }

/-- What the pairs become when a relay goes on. -/
def pairsAfter (net : Network) (r : ℕ) : Service → List (ℕ × ℕ × ℕ)
  | .serving left right => (r, left, right) :: net.pairs
  | _ => net.pairs

/-- What `serve_pair` does when a call of `authenticate` has returned. -/
def finish (net : Network) (r : ℕ) (relay : Relay) (i : ℕ) (call : Call)
    (seats : PairRole → Option ℕ) (rejected : ℕ) (result : Except RelayError PairRole) : Network :=
  let service := Service.seat i seats rejected result
  { net.setService r relay service with
    calls := net.calls.set i { call with admitted := result.toOption }
    pairs := net.pairsAfter r service }

/-- The network under an attacker. -/
def system (compromised : ℕ → Prop) : LTS Network Action where
  init net := net = ⟨[], [], [], ∅, ∅, []⟩
  step net action net' :=
    match action with
    | .join identity relayKey =>
      net' = { net with joins := net.joins ++ [⟨identity, relayKey, none, none⟩] }
    | .start identity allowed =>
      net' = { net with relays := net.relays ++ [⟨identity, allowed, .fresh⟩] }
    | .accept r => ∃ relay seats rejected,
        net.relays[r]? = some relay ∧ relay.service = .accepting seats rejected ∧
        -- `serve_pair` returns before it accepts when the two keys are one
        relay.allowed .left ≠ relay.allowed .right ∧
        net' = net.connect r relay seats rejected
    | .challenge j challenge written => ∃ join,
        net.joins[j]? = some join ∧ join.answered = none ∧ join.result = none ∧
        (∀ t ∈ challenge.terms, Derivable (owned compromised) net.sent t) ∧
        let (join', response) := join.receive challenge written
        net' = net.setJoin j join' (response.elim [] Response.terms)
    | .respond r response => ∃ relay i call seats rejected,
        net.relays[r]? = some relay ∧ relay.service = .authenticating i seats rejected ∧
        net.calls[i]? = some call ∧
        (∀ t ∈ response.terms, Derivable (owned compromised) net.sent t) ∧
        net' = net.finish r relay i call seats rejected
          (check symbolic relay.allowed call.challenge response)
    | .ready j byte => ∃ join, net.joins[j]? = some join ∧ join.answered.isSome ∧
        join.result = none ∧ net' = net.setJoin j (join.ready byte) []
    | .stop j error => ∃ join, net.joins[j]? = some join ∧ join.result = none ∧
        net' = net.setJoin j { join with result := some (.error error) } []
    | .drop r error => ∃ relay i call seats rejected,
        net.relays[r]? = some relay ∧ relay.service = .authenticating i seats rejected ∧
        net.calls[i]? = some call ∧
        net' = net.finish r relay i call seats rejected (.error error)
    | .next r => ∃ relay, net.relays[r]? = some relay ∧
        ((∃ seats rejected, relay.service = .accepting seats rejected) ∨
          ∃ left right, relay.service = .serving left right) ∧
        net' = net.setService r relay .fresh
    | .halt r => ∃ relay, net.relays[r]? = some relay ∧
        net' = net.setService r relay .returned
    | .sign identity pieces => Elsewhere pieces ∧
        net' = { net with
          elsewhere := net.elsewhere ∪ {(identity, pieces)}
          sent := net.sent ∪ {.sign (.device identity) (concat pieces)} }

end Network

/-! ## What is kept as the network goes on -/

/-- A call of `join` later on. -/
structure Join.Later (join join' : Join) : Prop where
  identity : join'.identity = join.identity
  relayKey : join'.relayKey = join.relayKey
  answered : ∀ challenge, join.answered = some challenge → join'.answered = some challenge

/-- A relay later on. -/
structure Relay.Later (relay relay' : Relay) : Prop where
  identity : relay'.identity = relay.identity
  allowed : relay'.allowed = relay.allowed

/-- A call of `authenticate` later on. -/
structure Call.Later (call call' : Call) : Prop where
  relay : call'.relay = call.relay
  challenge : call'.challenge = call.challenge
  admitted : ∀ role, call.admitted = some role → call'.admitted = some role

theorem Join.Later.rfl (join : Join) : join.Later join := ⟨Eq.refl _, Eq.refl _, fun _ h => h⟩

theorem Relay.Later.rfl (relay : Relay) : relay.Later relay := ⟨Eq.refl _, Eq.refl _⟩

theorem Call.Later.rfl (call : Call) : call.Later call := ⟨Eq.refl _, Eq.refl _, fun _ h => h⟩

namespace Network

/-- A network later on. -/
structure Later (net net' : Network) : Prop where
  joins : Kept Join.Later net.joins net'.joins
  relays : Kept Relay.Later net.relays net'.relays
  calls : Kept Call.Later net.calls net'.calls
  elsewhere : net.elsewhere ⊆ net'.elsewhere

/-- The strings signed with the keys of devices and relays. Nothing is encrypted. -/
def ledger (net : Network) : Ledger Constant Name where
  signed name t :=
    (∃ (j : ℕ) (join : Join) (challenge : Challenge Msg Msg), net.joins[j]? = some join ∧
      join.answered = some challenge ∧ name = .device join.identity ∧
      t = concat (responseBytes challenge (symbolic.publicKey join.identity))) ∨
    (∃ (i : ℕ) (call : Call) (relay : Relay), net.calls[i]? = some call ∧
      net.relays[call.relay]? = some relay ∧ name = .device relay.identity ∧
      t = concat (challengeBytes (.nonce (.run i)))) ∨
    ∃ x ∈ net.elsewhere, name = .device x.1 ∧ t = concat x.2
  keyed _ := False

theorem Later.ledger {net net' : Network} (h : Later net net') : net.ledger.le net'.ledger := by
  refine ⟨?_, fun _ hk => hk.elim⟩
  rintro name t (⟨j, join, challenge, hj, ha, rfl, rfl⟩ | ⟨i, call, relay, hi, hr, rfl, rfl⟩ |
    ⟨x, hx, rfl, rfl⟩)
  · obtain ⟨join', hj', hlater⟩ := h.joins j join hj
    exact .inl ⟨j, join', challenge, hj', hlater.answered _ ha, by rw [hlater.identity],
      by rw [hlater.identity]⟩
  · obtain ⟨call', hi', hcall⟩ := h.calls i call hi
    obtain ⟨relay', hr', hrelay⟩ := h.relays _ relay hr
    exact .inr (.inl ⟨i, call', relay', hi', by rw [hcall.relay, hr'], by rw [hrelay.identity],
      Eq.refl _⟩)
  · exact .inr (.inr ⟨x, h.elsewhere hx, Eq.refl _, Eq.refl _⟩)

/-! ## Who sits where -/

end Network

/-- The connections a relay holds while it is still accepting. -/
def Service.seats? : Service → PairRole → Option ℕ
  | .accepting seats _, role | .authenticating _ seats _, role => seats role
  | _, _ => none

namespace Network

/-- A connection that has been served. -/
def Served (net : Network) (i : ℕ) : Prop := ∃ pair ∈ net.pairs, pair.2.1 = i ∨ pair.2.2 = i

/-- A connection admitted by a relay as an endpoint. -/
def Admitted (net : Network) (r : ℕ) (role : PairRole) (i : ℕ) : Prop :=
  ∃ call, net.calls[i]? = some call ∧ call.relay = r ∧ call.admitted = some role

/-- The connections relays hold and have served. -/
structure Seating (net : Network) : Prop where
  seats : ∀ (r : ℕ) (relay : Relay) role i, net.relays[r]? = some relay →
    relay.service.seats? role = some i → net.Admitted r role i ∧ ¬net.Served i
  waiting : ∀ (r : ℕ) (relay : Relay) i seats rejected, net.relays[r]? = some relay →
    relay.service = .authenticating i seats rejected →
      (∃ call, net.calls[i]? = some call ∧ call.relay = r ∧ call.admitted = none)
  pairs : ∀ pair ∈ net.pairs,
    net.Admitted pair.1 .left pair.2.1 ∧ net.Admitted pair.1 .right pair.2.2
  once : net.pairs.Pairwise fun pair pair' => pair.2.1 ≠ pair'.2.1 ∧ pair.2.2 ≠ pair'.2.2

variable {net net' : Network} {r i : ℕ} {relay : Relay} {role : PairRole}

theorem Admitted.mono (hcalls : Kept Call.Later net.calls net'.calls)
    (h : net.Admitted r role i) : net'.Admitted r role i := by
  obtain ⟨call, hi, hr, ha⟩ := h
  obtain ⟨call', hi', hlater⟩ := hcalls i call hi
  exact ⟨call', hi', hlater.relay.trans hr, hlater.admitted _ ha⟩

/-- A connection is admitted by one relay, as one endpoint. -/
theorem Admitted.unique {r' : ℕ} {role' : PairRole} (h : net.Admitted r role i)
    (h' : net.Admitted r' role' i) : r = r' ∧ role = role' := by
  obtain ⟨call, hi, hr, ha⟩ := h
  obtain ⟨call', hi', hr', ha'⟩ := h'
  obtain rfl := Option.some.inj (hi.symm.trans hi')
  exact ⟨hr.symm.trans hr', Option.some.inj (ha.symm.trans ha')⟩

/-- A connection that is still being authenticated has not been served. -/
theorem Seating.not_served (h : Seating net) {call : Call} (hi : net.calls[i]? = some call)
    (ha : call.admitted = none) : ¬net.Served i := by
  have hno : ∀ r role, ¬net.Admitted r role i := by
    rintro r role ⟨call', hi', -, ha'⟩
    obtain rfl := Option.some.inj (hi.symm.trans hi')
    rw [ha] at ha'
    cases ha'
  rintro ⟨pair, hp, rfl | rfl⟩
  · exact hno _ _ (h.pairs pair hp).1
  · exact hno _ _ (h.pairs pair hp).2

/-- What happens to calls of `join` moves no connection. -/
theorem Seating.of_eq (h : Seating net) (hr : net'.relays = net.relays)
    (hc : net'.calls = net.calls) (hp : net'.pairs = net.pairs) : Seating net' := by
  obtain ⟨joins, relays, calls, elsewhere, sent, pairs⟩ := net
  obtain ⟨joins', relays', calls', elsewhere', sent', pairs'⟩ := net'
  subst hr hc hp
  exact ⟨h.seats, h.waiting, h.pairs, h.once⟩

/-- A relay that holds no connection is started. -/
theorem Seating.start (h : Seating net) (hservice : relay.service = .fresh) :
    Seating { net with relays := net.relays ++ [relay] } where
  seats r relay' role i hr hs := by
    obtain hr | ⟨-, rfl⟩ := getElem?_append_cases hr
    · exact h.seats r relay' role i hr hs
    · rw [hservice] at hs
      cases hs
  waiting r relay' i seats rejected hr hw := by
    obtain hr | ⟨-, rfl⟩ := getElem?_append_cases hr
    · exact h.waiting r relay' i seats rejected hr hw
    · rw [hservice] at hw
      cases hw
  pairs := h.pairs
  once := h.once

/-- A relay lets go of the connections it holds. -/
theorem Seating.release (h : Seating net) {service : Service}
    (hservice : service = .fresh ∨ service = .returned) :
    Seating (net.setService r relay service) where
  seats r' relay' role i hr hs := by
    obtain ⟨-, rfl⟩ | ⟨-, hr⟩ := getElem?_set_cases hr
    · obtain rfl | rfl := hservice <;> cases hs
    · exact h.seats r' relay' role i hr hs
  waiting r' relay' i seats rejected hr hw := by
    obtain ⟨-, rfl⟩ | ⟨-, hr⟩ := getElem?_set_cases hr
    · obtain rfl | rfl := hservice <;> cases hw
    · exact h.waiting r' relay' i seats rejected hr hw
  pairs := h.pairs
  once := h.once

/-- A relay accepts a connection. -/
theorem Seating.connect (h : Seating net) {seats : PairRole → Option ℕ} {rejected : ℕ}
    (hr : net.relays[r]? = some relay)
    (hservice : relay.service = .accepting seats rejected) :
    Seating (net.connect r relay seats rejected) := by
  have hkept : Kept Call.Later net.calls (net.connect r relay seats rejected).calls :=
    .append Call.Later.rfl
  refine ⟨fun r' relay' role i hr' hs => ?_, fun r' relay' i seats' rejected' hr' hw => ?_,
    fun pair hp => ?_, h.once⟩
  · obtain ⟨rfl, rfl⟩ | ⟨-, hr'⟩ := getElem?_set_cases hr'
    · obtain ⟨hadmitted, hserved⟩ := h.seats r' relay role i hr (by rw [hservice]; exact hs)
      exact ⟨hadmitted.mono hkept, hserved⟩
    · obtain ⟨hadmitted, hserved⟩ := h.seats r' relay' role i hr' hs
      exact ⟨hadmitted.mono hkept, hserved⟩
  · obtain ⟨rfl, rfl⟩ | ⟨-, hr'⟩ := getElem?_set_cases hr'
    · obtain ⟨rfl, -, -⟩ := Service.authenticating.inj hw
      exact ⟨_, List.getElem?_concat_length, rfl, rfl⟩
    · obtain ⟨call', hi, hc⟩ := h.waiting r' relay' i seats' rejected' hr' hw
      exact ⟨call', getElem?_append_of_some hi, hc⟩
  · exact (h.pairs pair hp).imp (·.mono hkept) (·.mono hkept)

end Network

/-- What a relay holds once `authenticate` has returned for a connection. -/
theorem Service.seat_cases (i : ℕ) (seats : PairRole → Option ℕ) (rejected : ℕ)
    (result : Except RelayError PairRole) :
    ∃ seats' : PairRole → Option ℕ,
      (∀ role j, seats' role = some j → seats role = some j ∨ j = i ∧ result = .ok role) ∧
      ((∃ rejected', seat i seats rejected result = .accepting seats' rejected') ∨
        ∃ left right, seat i seats rejected result = .serving left right ∧
          seats' .left = some left ∧ seats' .right = some right) := by
  have hreject : ∃ seats' : PairRole → Option ℕ,
      (∀ role j, seats' role = some j → seats role = some j) ∧
        ∃ rejected', reject seats rejected = .accepting seats' rejected' := by
    unfold reject
    split
    · exact ⟨fun _ => none, by simp, 0, rfl⟩
    · exact ⟨seats, fun _ _ h => h, _, rfl⟩
  obtain ⟨seats', hseats, hserves⟩ := hreject
  cases result with
  | error error => exact ⟨seats', fun role j h => .inl (hseats role j h), .inl hserves⟩
  | ok role =>
    simp only [seat]
    split
    · exact ⟨seats', fun role j h => .inl (hseats role j h), .inl hserves⟩
    · refine ⟨Function.update seats role (some i), fun role' j h => ?_, ?_⟩
      · by_cases hrole : role' = role
        · subst hrole
          rw [Function.update_self] at h
          exact .inr ⟨(Option.some.inj h).symm, rfl⟩
        · rw [Function.update_of_ne hrole] at h
          exact .inl h
      · unfold seated
        split
        · rename_i left right hleft hright
          exact .inr ⟨left, right, rfl, hleft, hright⟩
        · exact .inl ⟨rejected, rfl⟩

namespace Network

variable {net net' : Network} {r i : ℕ} {relay : Relay} {role : PairRole}

/-- `authenticate` returns. -/
theorem Seating.finish (h : Seating net) {call : Call} {seats : PairRole → Option ℕ}
    {rejected : ℕ} (result : Except RelayError PairRole) (hr : net.relays[r]? = some relay)
    (hservice : relay.service = .authenticating i seats rejected)
    (hi : net.calls[i]? = some call) :
    Seating (net.finish r relay i call seats rejected result) := by
  obtain ⟨call', hi', hcall, ha⟩ := h.waiting r relay i seats rejected hr hservice
  obtain rfl := Option.some.inj (hi.symm.trans hi')
  have hkept : Kept Call.Later net.calls
      (net.calls.set i { call with admitted := result.toOption }) :=
    .set Call.Later.rfl hi ⟨rfl, rfl, by simp [ha]⟩
  obtain ⟨seats', hseats, hnext⟩ := Service.seat_cases i seats rejected result
  -- whom the relay holds now it held before or has just admitted
  have hheld : ∀ role j, seats' role = some j →
      (net.finish r relay i call seats rejected result).Admitted r role j ∧ ¬net.Served j := by
    intro role j hj
    obtain hj | ⟨rfl, rfl⟩ := hseats role j hj
    · obtain ⟨hadmitted, hserved⟩ := h.seats r relay role j hr (by rw [hservice]; exact hj)
      exact ⟨hadmitted.mono hkept, hserved⟩
    · exact ⟨⟨_, getElem?_set_self_of_some hi, hcall, rfl⟩, h.not_served hi ha⟩
  have hwaiting : ∀ (r' : ℕ) (relay' : Relay) j seats'' rejected'', r' ≠ r →
      net.relays[r']? = some relay' → relay'.service = .authenticating j seats'' rejected'' →
      ∃ call', (net.calls.set i { call with admitted := result.toOption })[j]? = some call' ∧
        call'.relay = r' ∧ call'.admitted = none := by
    intro r' relay' j seats'' rejected'' hne hr' hw
    obtain ⟨call', hj, hc, ha'⟩ := h.waiting r' relay' j seats'' rejected'' hr' hw
    have hij : i ≠ j := by
      rintro rfl
      obtain rfl := Option.some.inj (hi.symm.trans hj)
      exact hne (hc.symm.trans hcall)
    exact ⟨call', by rw [List.getElem?_set_ne hij, hj], hc, ha'⟩
  obtain ⟨rejected', hnext⟩ | ⟨left, right, hnext, hleft, hright⟩ := hnext
  · -- the relay goes on accepting
    have hpairs : (net.finish r relay i call seats rejected result).pairs = net.pairs := by
      simp only [Network.finish, hnext, pairsAfter]
    have hserved : ∀ j, (net.finish r relay i call seats rejected result).Served j ↔
        net.Served j := by
      intro j
      simp only [Served, hpairs]
    refine ⟨fun r' relay' role j hr' hs => ?_, fun r' relay' j seats'' rejected'' hr' hw => ?_,
      fun pair hp => ?_, by rw [hpairs]; exact h.once⟩
    · rw [hserved]
      obtain ⟨rfl, rfl⟩ | ⟨-, hr'⟩ := getElem?_set_cases hr'
      · rw [hnext] at hs
        exact hheld role j hs
      · obtain ⟨hadmitted, hno⟩ := h.seats r' relay' role j hr' hs
        exact ⟨hadmitted.mono hkept, hno⟩
    · obtain ⟨-, rfl⟩ | ⟨hne, hr'⟩ := getElem?_set_cases hr'
      · rw [hnext] at hw
        cases hw
      · exact hwaiting r' relay' j seats'' rejected'' hne hr' hw
    · rw [hpairs] at hp
      exact (h.pairs pair hp).imp (·.mono hkept) (·.mono hkept)
  · -- both endpoints are there
    have hpairs : (net.finish r relay i call seats rejected result).pairs =
        (r, left, right) :: net.pairs := by
      simp only [Network.finish, hnext, pairsAfter]
    have hl := hheld .left left hleft
    have hr₂ := hheld .right right hright
    refine ⟨fun r' relay' role j hr' hs => ?_, fun r' relay' j seats'' rejected'' hr' hw => ?_,
      fun pair hp => ?_, ?_⟩
    · obtain ⟨-, rfl⟩ | ⟨hne, hr'⟩ := getElem?_set_cases hr'
      · rw [hnext] at hs
        cases hs
      · obtain ⟨hadmitted, hno⟩ := h.seats r' relay' role j hr' hs
        refine ⟨hadmitted.mono hkept, ?_⟩
        rintro ⟨pair, hp, hpair⟩
        rw [hpairs] at hp
        obtain rfl | hp := List.mem_cons.mp hp
        · obtain rfl | rfl := hpair
          · exact hne ((hadmitted.mono hkept).unique hl.1).1
          · exact hne ((hadmitted.mono hkept).unique hr₂.1).1
        · exact hno ⟨pair, hp, hpair⟩
    · obtain ⟨-, rfl⟩ | ⟨hne, hr'⟩ := getElem?_set_cases hr'
      · rw [hnext] at hw
        cases hw
      · exact hwaiting r' relay' j seats'' rejected'' hne hr' hw
    · rw [hpairs] at hp
      obtain rfl | hp := List.mem_cons.mp hp
      · exact ⟨hl.1, hr₂.1⟩
      · exact (h.pairs pair hp).imp (·.mono hkept) (·.mono hkept)
    · rw [hpairs]
      refine List.pairwise_cons.mpr ⟨fun pair hp => ⟨?_, ?_⟩, h.once⟩
      · rintro rfl
        exact hl.2 ⟨pair, hp, .inl rfl⟩
      · rintro rfl
        exact hr₂.2 ⟨pair, hp, .inr rfl⟩

/-! ## One step -/

variable {compromised : ℕ → Prop}

theorem Join.later_receive {join : Join} (h : join.answered = none)
    (challenge : Challenge Msg Msg) (written : Bool) :
    join.Later (join.receive challenge written).1 := by
  unfold Join.receive
  split
  · exact ⟨rfl, rfl, fun _ h => h⟩
  · exact ⟨rfl, rfl, by simp [h]⟩

theorem Later.refl (net : Network) : net.Later net :=
  ⟨.rfl Join.Later.rfl, .rfl Relay.Later.rfl, .rfl Call.Later.rfl, subset_rfl⟩

theorem Later.setJoin {j : ℕ} {join join' : Join} (hj : net.joins[j]? = some join)
    (h : join.Later join') (sent : List Msg) : net.Later (net.setJoin j join' sent) :=
  { Later.refl net with joins := .set Join.Later.rfl hj h }

theorem Later.setService (hr : net.relays[r]? = some relay) (service : Service) :
    net.Later (net.setService r relay service) :=
  { Later.refl net with relays := .set Relay.Later.rfl hr ⟨rfl, rfl⟩ }

theorem Later.connect (hr : net.relays[r]? = some relay) (seats : PairRole → Option ℕ)
    (rejected : ℕ) : net.Later (net.connect r relay seats rejected) :=
  { Later.setService hr _ with calls := .append Call.Later.rfl }

theorem Later.finish {call : Call} (hr : net.relays[r]? = some relay)
    (hi : net.calls[i]? = some call) (ha : call.admitted = none) (seats : PairRole → Option ℕ)
    (rejected : ℕ) (result : Except RelayError PairRole) :
    net.Later (net.finish r relay i call seats rejected result) :=
  { Later.setService hr _ with calls := .set Call.Later.rfl hi ⟨rfl, rfl, by simp [ha]⟩ }

/-- **Every step** leaves calls and relays what they were, and connections where they belong. -/
theorem seating_of_step {action : Action} (h : Seating net)
    (hstep : (system compromised).step net action net') : net.Later net' ∧ Seating net' := by
  cases action with
  | join identity relayKey =>
    obtain rfl := hstep
    exact ⟨{ Later.refl net with joins := .append Join.Later.rfl }, h.of_eq rfl rfl rfl⟩
  | start identity allowed =>
    obtain rfl := hstep
    exact ⟨{ Later.refl net with relays := .append Relay.Later.rfl }, h.start rfl⟩
  | accept r =>
    obtain ⟨relay, seats, rejected, hr, hservice, -, rfl⟩ := hstep
    exact ⟨.connect hr seats rejected, h.connect hr hservice⟩
  | challenge j challenge written =>
    obtain ⟨join, hj, ha, -, -, rfl⟩ := hstep
    exact ⟨.setJoin hj (Join.later_receive ha challenge written) _, h.of_eq rfl rfl rfl⟩
  | respond r response =>
    obtain ⟨relay, i, call, seats, rejected, hr, hservice, hi, -, rfl⟩ := hstep
    obtain ⟨call', hi', -, ha⟩ := h.waiting r relay i seats rejected hr hservice
    obtain rfl := Option.some.inj (hi.symm.trans hi')
    exact ⟨.finish hr hi ha seats rejected _, h.finish _ hr hservice hi⟩
  | ready j byte =>
    obtain ⟨join, hj, -, -, rfl⟩ := hstep
    have hlater : join.Later (join.ready byte) := ⟨rfl, rfl, fun _ h => h⟩
    exact ⟨.setJoin hj hlater _, h.of_eq rfl rfl rfl⟩
  | stop j error =>
    obtain ⟨join, hj, -, rfl⟩ := hstep
    have hlater : join.Later { join with result := some (.error error) } :=
      ⟨rfl, rfl, fun _ h => h⟩
    exact ⟨.setJoin hj hlater _, h.of_eq rfl rfl rfl⟩
  | drop r error =>
    obtain ⟨relay, i, call, seats, rejected, hr, hservice, hi, rfl⟩ := hstep
    obtain ⟨call', hi', -, ha⟩ := h.waiting r relay i seats rejected hr hservice
    obtain rfl := Option.some.inj (hi.symm.trans hi')
    exact ⟨.finish hr hi ha seats rejected _, h.finish _ hr hservice hi⟩
  | next r =>
    obtain ⟨relay, hr, -, rfl⟩ := hstep
    exact ⟨.setService hr _, h.release (.inl rfl)⟩
  | halt r =>
    obtain ⟨relay, hr, rfl⟩ := hstep
    exact ⟨.setService hr _, h.release (.inr rfl)⟩
  | sign identity pieces =>
    obtain ⟨-, rfl⟩ := hstep
    exact ⟨{ Later.refl net with elsewhere := Set.subset_union_left }, h.of_eq rfl rfl rfl⟩

/-! ## Whose signatures these are -/

/-- A signature the attacker may have delivered, good under a key. -/
def Signed (own : Name → Prop) (L : Ledger Constant Name) (key : Msg)
    (pieces : List (Piece Msg Msg))
    (signature : Msg) : Prop :=
  symbolic.verify key pieces signature = .ok () ∧ Safe own L signature

theorem Signed.mono {own : Name → Prop} {L L' : Ledger Constant Name} (hL : L.le L') {key : Msg}
    {pieces : List (Piece Msg Msg)} {signature : Msg} (h : Signed own L key pieces signature) :
    Signed own L' key pieces signature :=
  ⟨h.1, h.2.mono hL⟩

/-- The challenge of the `i`-th call of `authenticate` is the relay's, and fresh. -/
def Issued (net : Network) (i : ℕ) (call : Call) : Prop :=
  ∃ relay, net.relays[call.relay]? = some relay ∧ relay.allowed .left ≠ relay.allowed .right ∧
    call.challenge = issue symbolic relay.identity (.nonce (.run i))

/-- A call of `authenticate` has accepted a response. -/
def Accepted (own : Name → Prop) (net : Network) (call : Call) (role : PairRole) : Prop :=
  ∃ relay signature, net.relays[call.relay]? = some relay ∧
    Signed own net.ledger (relay.allowed role)
      (responseBytes call.challenge (relay.allowed role)) signature

/-- A call of `join` has accepted a challenge. -/
def Answered (own : Name → Prop) (net : Network) (join : Join) (challenge : Challenge Msg Msg) :
    Prop :=
  challenge.magic = MAGIC ∧ challenge.relayKey = join.relayKey ∧
    Signed own net.ledger join.relayKey (challengeBytes challenge.nonce) challenge.signature

/-- The invariant of the network. -/
structure Invariant (own : Name → Prop) (net : Network) : Prop where
  seating : Seating net
  elsewhere : ∀ x ∈ net.elsewhere, Elsewhere x.2
  sent : ∀ t ∈ net.sent, Safe own net.ledger t
  issued : ∀ (i : ℕ) (call : Call), net.calls[i]? = some call → Issued net i call
  admitted : ∀ (i : ℕ) (call : Call) role, net.calls[i]? = some call →
    call.admitted = some role → Accepted own net call role
  answered : ∀ (j : ℕ) (join : Join) challenge, net.joins[j]? = some join →
    join.answered = some challenge → Answered own net join challenge
  joined : ∀ (j : ℕ) (join : Join), net.joins[j]? = some join → join.result = some (.ok ()) →
    join.answered.isSome

section Mono

variable {own : Name → Prop} {call call' : Call}

theorem Issued.later (hl : net.Later net') (hrelay : call'.relay = call.relay)
    (hchallenge : call'.challenge = call.challenge) (h : Issued net i call) :
    Issued net' i call' := by
  obtain ⟨relay, hr, hne, hc⟩ := h
  obtain ⟨relay', hr', hlater⟩ := hl.relays _ relay hr
  exact ⟨relay', by rw [hrelay, hr'], by rwa [hlater.allowed],
    by rw [hchallenge, hc, hlater.identity]⟩

theorem Accepted.later (hl : net.Later net') (hrelay : call'.relay = call.relay)
    (hchallenge : call'.challenge = call.challenge) (h : Accepted own net call role) :
    Accepted own net' call' role := by
  obtain ⟨relay, signature, hr, hs⟩ := h
  obtain ⟨relay', hr', hlater⟩ := hl.relays _ relay hr
  refine ⟨relay', signature, by rw [hrelay, hr'], ?_⟩
  rw [hlater.allowed, hchallenge]
  exact hs.mono hl.ledger

theorem Answered.later (hl : net.Later net') {join join' : Join} {challenge : Challenge Msg Msg}
    (hkey : join'.relayKey = join.relayKey) (h : Answered own net join challenge) :
    Answered own net' join' challenge := by
  obtain ⟨hmagic, hrelay, hs⟩ := h
  rw [Answered, hkey]
  exact ⟨hmagic, hrelay, hs.mono hl.ledger⟩

end Mono

/-- What the owner of a key that is not compromised has signed is in the ledger. -/
theorem Signed.ledger {L : Ledger Constant Name} {k : ℕ} {pieces : List (Piece Msg Msg)}
    {signature : Msg} (h : Signed (owned compromised) L (symbolic.publicKey k) pieces signature)
    (hk : ¬compromised k) : signature = symbolic.sign k pieces ∧
      L.signed (.device k) (concat pieces) := by
  obtain rfl := symbolic_verify_ok h.1
  exact ⟨rfl, h.2.signed hk⟩

section Step

variable {own : Name → Prop}

/-- What is new in a network later on has to be sound; what was there is. -/
theorem Invariant.later (h : Invariant own net) (hl : net.Later net') (hseating : Seating net')
    (helsewhere : ∀ x ∈ net'.elsewhere, x ∈ net.elsewhere ∨ Elsewhere x.2)
    (hsent : ∀ t ∈ net'.sent, t ∈ net.sent ∨ Safe own net'.ledger t)
    (hissued : ∀ (i : ℕ) (call' : Call), net'.calls[i]? = some call' →
      (∃ call, net.calls[i]? = some call) ∨ Issued net' i call')
    (hadmitted : ∀ (i : ℕ) (call' : Call) role, net'.calls[i]? = some call' →
      call'.admitted = some role →
      (∃ call, net.calls[i]? = some call ∧ call.admitted = some role) ∨
        Accepted own net' call' role)
    (hanswered : ∀ (j : ℕ) (join' : Join) challenge, net'.joins[j]? = some join' →
      join'.answered = some challenge →
      (∃ join, net.joins[j]? = some join ∧ join.answered = some challenge) ∨
        Answered own net' join' challenge)
    (hjoined : ∀ (j : ℕ) (join' : Join), net'.joins[j]? = some join' →
      join'.result = some (.ok ()) →
      (∃ join, net.joins[j]? = some join ∧ join.result = some (.ok ())) ∨
        join'.answered.isSome) : Invariant own net' where
  seating := hseating
  elsewhere x hx := (helsewhere x hx).elim (h.elsewhere x) id
  sent t ht := (hsent t ht).elim (fun ht => (h.sent t ht).mono hl.ledger) id
  issued i call' hi := by
    obtain ⟨call, hcall⟩ | hnew := hissued i call' hi
    · obtain ⟨call'', hi', hlater⟩ := hl.calls i call hcall
      obtain rfl := Option.some.inj (hi.symm.trans hi')
      exact (h.issued i call hcall).later hl hlater.relay hlater.challenge
    · exact hnew
  admitted i call' role hi ha := by
    obtain ⟨call, hcall, hrole⟩ | hnew := hadmitted i call' role hi ha
    · obtain ⟨call'', hi', hlater⟩ := hl.calls i call hcall
      obtain rfl := Option.some.inj (hi.symm.trans hi')
      exact (h.admitted i call role hcall hrole).later hl hlater.relay hlater.challenge
    · exact hnew
  answered j join' challenge hj ha := by
    obtain ⟨join, hjoin, hanswer⟩ | hnew := hanswered j join' challenge hj ha
    · obtain ⟨join'', hj', hlater⟩ := hl.joins j join hjoin
      obtain rfl := Option.some.inj (hj.symm.trans hj')
      exact (h.answered j join challenge hjoin hanswer).later hl hlater.relayKey
    · exact hnew
  joined j join' hj hok := by
    obtain ⟨join, hjoin, hok'⟩ | hnew := hjoined j join' hj hok
    · obtain ⟨challenge, hanswer⟩ := Option.isSome_iff_exists.mp (h.joined j join hjoin hok')
      obtain ⟨join'', hj', hlater⟩ := hl.joins j join hjoin
      obtain rfl := Option.some.inj (hj.symm.trans hj')
      exact Option.isSome_iff_exists.mpr ⟨challenge, hlater.answered challenge hanswer⟩
    · exact hnew

/-- A call of `authenticate` returns: a connection admitted has to have been accepted. -/
theorem Invariant.finish (h : Invariant own net) {call : Call} {seats : PairRole → Option ℕ}
    {rejected : ℕ} {result : Except RelayError PairRole} (hr : net.relays[r]? = some relay)
    (hservice : relay.service = .authenticating i seats rejected)
    (hi : net.calls[i]? = some call)
    (hresult : ∀ role, result = .ok role → Accepted own net call role) :
    Invariant own (net.finish r relay i call seats rejected result) := by
  obtain ⟨call', hi', -, ha⟩ := h.seating.waiting r relay i seats rejected hr hservice
  obtain rfl := Option.some.inj (hi.symm.trans hi')
  have hl : net.Later (net.finish r relay i call seats rejected result) :=
    .finish hr hi ha seats rejected result
  refine h.later hl (h.seating.finish result hr hservice hi) (fun _ hx => .inl hx)
    (fun _ ht => .inl ht) (fun j call' hj => ?_) (fun j call' role hj ha' => ?_)
    (fun _ join _ hj ha => .inl ⟨join, hj, ha⟩) fun _ join hj hok => .inl ⟨join, hj, hok⟩
  · obtain ⟨rfl, -⟩ | ⟨-, hj⟩ := getElem?_set_cases hj
    · exact .inl ⟨call, hi⟩
    · exact .inl ⟨call', hj⟩
  · obtain ⟨rfl, rfl⟩ | ⟨-, hj⟩ := getElem?_set_cases hj
    · cases result with
      | error error => cases ha'
      | ok role' =>
        obtain rfl := Option.some.inj ha'
        have haccepted := hresult role' rfl
        exact .inr (haccepted.later hl rfl rfl)
    · exact .inl ⟨call', hj, ha'⟩

/-- Calls of `join` that have answered nothing new change nothing. -/
theorem Invariant.setJoin (h : Invariant own net) {j : ℕ} {join join' : Join}
    (hj : net.joins[j]? = some join) (hlater : join.Later join')
    (hanswered : join'.answered = join.answered)
    (hresult : join'.result = some (.ok ()) → join'.answered.isSome) :
    Invariant own (net.setJoin j join' []) := by
  refine h.later (.setJoin hj hlater _) (h.seating.of_eq rfl rfl rfl) (fun _ hx => .inl hx)
    (fun t ht => ?_) (fun _ call hi => .inl ⟨call, hi⟩)
    (fun _ call _ hi ha => .inl ⟨call, hi, ha⟩) (fun j' join'' challenge hj' ha => ?_)
    fun j' join'' hj' hok => ?_
  · obtain ht | ht := ht
    · exact .inl ht
    · cases ht
  · obtain ⟨rfl, rfl⟩ | ⟨-, hj'⟩ := getElem?_set_cases hj'
    · exact .inl ⟨join, hj, hanswered ▸ ha⟩
    · exact .inl ⟨join'', hj', ha⟩
  · obtain ⟨rfl, rfl⟩ | ⟨-, hj'⟩ := getElem?_set_cases hj'
    · exact .inr (hresult hok)
    · exact .inl ⟨join'', hj', hok⟩

/-- A call of `join` reads a challenge the attacker may have. -/
theorem Invariant.receive (h : Invariant own net) {j : ℕ} {join : Join}
    {challenge : Challenge Msg Msg} (written : Bool) (hj : net.joins[j]? = some join)
    (ha : join.answered = none) (hsafe : Safe own net.ledger challenge.signature) :
    Invariant own (net.setJoin j (join.receive challenge written).1
      ((join.receive challenge written).2.elim [] Response.terms)) := by
  unfold Join.receive
  split
  · exact h.setJoin hj ⟨rfl, rfl, fun _ h => h⟩ rfl (by simp)
  · rename_i response hanswer
    obtain ⟨hmagic, hkey, hverify, rfl⟩ := answer_ok symbolic hanswer
    have hlater : join.Later { join with
        answered := some challenge
        result := if written then none else some (.error .io) } :=
      ⟨rfl, rfl, by simp [ha]⟩
    have hl := Later.setJoin hj hlater
      (Response.terms ⟨symbolic.publicKey join.identity,
        symbolic.sign join.identity (responseBytes challenge (symbolic.publicKey join.identity))⟩)
    refine h.later hl (h.seating.of_eq rfl rfl rfl) (fun _ hx => .inl hx) (fun t ht => ?_)
      (fun _ call hi => .inl ⟨call, hi⟩) (fun _ call _ hi ha => .inl ⟨call, hi, ha⟩)
      (fun j' join' challenge' hj' ha' => ?_) fun j' join' hj' hok => ?_
    · obtain ht | ht := ht
      · exact .inl ht
      · right
        obtain rfl | rfl : t = _ ∨ t = _ := by simpa [Response.terms] using ht
        · trivial
        · exact .inr (.inl ⟨j, _, challenge, getElem?_set_self_of_some hj, rfl, rfl, rfl⟩)
    · obtain ⟨rfl, rfl⟩ | ⟨-, hj'⟩ := getElem?_set_cases hj'
      · obtain rfl := Option.some.inj ha'
        have hanswered : Answered own net join challenge := ⟨hmagic, hkey, hverify, hsafe⟩
        exact .inr (hanswered.later hl rfl)
      · exact .inl ⟨join', hj', ha'⟩
    · obtain ⟨rfl, rfl⟩ | ⟨-, hj'⟩ := getElem?_set_cases hj'
      · exact .inr rfl
      · exact .inl ⟨join', hj', hok⟩

/-- A relay accepts a connection and sends it a challenge. -/
theorem Invariant.connect (h : Invariant own net) {seats : PairRole → Option ℕ} {rejected : ℕ}
    (hr : net.relays[r]? = some relay) (hservice : relay.service = .accepting seats rejected)
    (hne : relay.allowed .left ≠ relay.allowed .right) :
    Invariant own (net.connect r relay seats rejected) := by
  have hnew : (net.connect r relay seats rejected).calls[net.calls.length]? =
      some ⟨r, issue symbolic relay.identity (.nonce (.run net.calls.length)), none⟩ :=
    List.getElem?_concat_length
  refine h.later (.connect hr seats rejected) (h.seating.connect hr hservice)
    (fun _ hx => .inl hx) (fun t ht => ?_) (fun i call hi => ?_) (fun i call role hi ha => ?_)
    (fun _ join _ hj ha => .inl ⟨join, hj, ha⟩) fun _ join hj hok => .inl ⟨join, hj, hok⟩
  · obtain ht | ht := ht
    · exact .inl ht
    · right
      obtain rfl | rfl | rfl : t = _ ∨ t = _ ∨ t = _ := by
        simpa [Challenge.terms, issue] using ht
      · trivial
      · trivial
      · exact .inr (.inr (.inl ⟨_, _, _, hnew, getElem?_set_self_of_some hr, rfl, rfl⟩))
  · obtain hi | ⟨rfl, rfl⟩ := getElem?_append_cases hi
    · exact .inl ⟨call, hi⟩
    · exact .inr ⟨_, getElem?_set_self_of_some hr, hne, rfl⟩
  · obtain hi | ⟨rfl, rfl⟩ := getElem?_append_cases hi
    · exact .inl ⟨call, hi, ha⟩
    · cases ha

/-- **Every step** keeps the invariant. -/
theorem invariant_of_step {action : Action} (h : Invariant (owned compromised) net)
    (hstep : (system compromised).step net action net') : Invariant (owned compromised) net' := by
  obtain ⟨hl, hseating⟩ := seating_of_step h.seating hstep
  cases action with
  | join identity relayKey =>
    obtain rfl := hstep
    refine h.later hl hseating (fun _ hx => .inl hx) (fun _ ht => .inl ht)
      (fun _ call hi => .inl ⟨call, hi⟩) (fun _ call _ hi ha => .inl ⟨call, hi, ha⟩)
      (fun j join challenge hj ha => ?_) fun j join hj hok => ?_
    · obtain hj | ⟨-, rfl⟩ := getElem?_append_cases hj
      · exact .inl ⟨join, hj, ha⟩
      · cases ha
    · obtain hj | ⟨-, rfl⟩ := getElem?_append_cases hj
      · exact .inl ⟨join, hj, hok⟩
      · cases hok
  | start identity allowed =>
    obtain rfl := hstep
    exact h.later hl hseating (fun _ hx => .inl hx) (fun _ ht => .inl ht)
      (fun _ call hi => .inl ⟨call, hi⟩) (fun _ call _ hi ha => .inl ⟨call, hi, ha⟩)
      (fun _ join _ hj ha => .inl ⟨join, hj, ha⟩) fun _ join hj hok => .inl ⟨join, hj, hok⟩
  | accept r =>
    obtain ⟨relay, seats, rejected, hr, hservice, hne, rfl⟩ := hstep
    exact h.connect hr hservice hne
  | challenge j challenge written =>
    obtain ⟨join, hj, ha, -, hderivable, rfl⟩ := hstep
    exact h.receive written hj ha
      ((hderivable _ (by simp [Challenge.terms])).safe h.sent)
  | respond r response =>
    obtain ⟨relay, i, call, seats, rejected, hr, hservice, hi, hderivable, rfl⟩ := hstep
    refine h.finish hr hservice hi fun role hcheck => ?_
    obtain ⟨call', hi', hcall, -⟩ := h.seating.waiting r relay i seats rejected hr hservice
    obtain rfl := Option.some.inj (hi.symm.trans hi')
    exact ⟨relay, response.signature, by rw [hcall, hr], check_ok symbolic hcheck,
      (hderivable _ (by simp [Response.terms])).safe h.sent⟩
  | ready j byte =>
    obtain ⟨join, hj, hanswered, -, rfl⟩ := hstep
    exact h.setJoin hj ⟨rfl, rfl, fun _ h => h⟩ rfl fun _ => hanswered
  | stop j error =>
    obtain ⟨join, hj, -, rfl⟩ := hstep
    exact h.setJoin hj ⟨rfl, rfl, fun _ h => h⟩ rfl (by simp)
  | drop r error =>
    obtain ⟨relay, i, call, seats, rejected, hr, hservice, hi, rfl⟩ := hstep
    exact h.finish hr hservice hi (by rintro role ⟨⟩)
  | next r =>
    obtain ⟨relay, hr, -, rfl⟩ := hstep
    exact h.later hl hseating (fun _ hx => .inl hx) (fun _ ht => .inl ht)
      (fun _ call hi => .inl ⟨call, hi⟩) (fun _ call _ hi ha => .inl ⟨call, hi, ha⟩)
      (fun _ join _ hj ha => .inl ⟨join, hj, ha⟩) fun _ join hj hok => .inl ⟨join, hj, hok⟩
  | halt r =>
    obtain ⟨relay, hr, rfl⟩ := hstep
    exact h.later hl hseating (fun _ hx => .inl hx) (fun _ ht => .inl ht)
      (fun _ call hi => .inl ⟨call, hi⟩) (fun _ call _ hi ha => .inl ⟨call, hi, ha⟩)
      (fun _ join _ hj ha => .inl ⟨join, hj, ha⟩) fun _ join hj hok => .inl ⟨join, hj, hok⟩
  | sign identity pieces =>
    obtain ⟨helsewhere, rfl⟩ := hstep
    refine h.later hl hseating (fun x hx => ?_) (fun t ht => ?_)
      (fun _ call hi => .inl ⟨call, hi⟩) (fun _ call _ hi ha => .inl ⟨call, hi, ha⟩)
      (fun _ join _ hj ha => .inl ⟨join, hj, ha⟩) fun _ join hj hok => .inl ⟨join, hj, hok⟩
    · obtain hx | rfl := hx
      · exact .inl hx
      · exact .inr helsewhere
    · obtain ht | rfl := ht
      · exact .inl ht
      · exact .inr (.inr (.inr (.inr ⟨(identity, pieces), .inr rfl, rfl, rfl⟩)))

theorem invariant_of_reachable (h : (system compromised).Reachable net) :
    Invariant (owned compromised) net := by
  refine h.invariant ?_ fun _ _ _ hinv hstep => invariant_of_step hinv hstep
  rintro _ rfl
  constructor
  · constructor <;> simp
  all_goals simp

end Step

/-! ## Admission -/

section Admission

/-- The owner of a provisioned key that is not compromised has answered the challenge of a
connection that was admitted with it. -/
theorem Invariant.admitted_by {call : Call} {k : ℕ} (h : Invariant (owned compromised) net)
    (hi : net.calls[i]? = some call) (ha : call.admitted = some role)
    (hr : net.relays[call.relay]? = some relay)
    (hallowed : relay.allowed role = symbolic.publicKey k)
    (hk : ¬compromised k) : ∃ (j : ℕ) (join : Join), net.joins[j]? = some join ∧
      join.identity = k ∧ join.relayKey = symbolic.publicKey relay.identity ∧
      join.answered = some call.challenge := by
  obtain ⟨relay', signature, hr', hsigned⟩ := h.admitted i call role hi ha
  obtain rfl := Option.some.inj (hr.symm.trans hr')
  rw [hallowed] at hsigned
  obtain ⟨-, ⟨j, join, challenge, hj, hanswered, hname, heq⟩ | ⟨i', call', relay', -, -, -, heq⟩ |
    ⟨x, hx, -, heq⟩⟩ := hsigned.ledger hk
  · obtain ⟨rfl, -⟩ := responseBytes_inj (concat_inj heq)
    obtain ⟨relay', hr', -, hissued⟩ := h.issued i call hi
    obtain rfl := Option.some.inj (hr.symm.trans hr')
    obtain ⟨-, hkey, -⟩ := h.answered j join _ hj hanswered
    refine ⟨j, join, hj, (Name.device.inj hname).symm, ?_, hanswered⟩
    rw [← hkey, hissued]
    rfl
  · exact absurd (concat_inj heq) (by simp [responseBytes, challengeBytes])
  · exact absurd (concat_inj heq).symm (h.elsewhere x hx (.const .done) _ _).2

/-- A challenge that was answered for a relay whose key is not compromised was issued by a
relay with this key. -/
theorem Invariant.issued_by {j k : ℕ} {join : Join} {challenge : Challenge Msg Msg}
    (h : Invariant (owned compromised) net) (hj : net.joins[j]? = some join)
    (ha : join.answered = some challenge) (hkey : join.relayKey = symbolic.publicKey k)
    (hk : ¬compromised k) : ∃ (i : ℕ) (call : Call) (relay : Relay), net.calls[i]? = some call ∧
      call.challenge = challenge ∧ net.relays[call.relay]? = some relay ∧ relay.identity = k := by
  obtain ⟨hmagic, hrelayKey, hsigned⟩ := h.answered j join challenge hj ha
  rw [hkey] at hrelayKey hsigned
  obtain ⟨hsignature, ⟨j', join', challenge', -, -, -, heq⟩ |
    ⟨i, call, relay, hi, hr, hname, heq⟩ | ⟨x, hx, -, heq⟩⟩ := hsigned.ledger hk
  · exact absurd (concat_inj heq) (by simp [responseBytes, challengeBytes])
  · have hnonce : challenge.nonce = .nonce (.run i) := by
      simpa [challengeBytes] using concat_inj heq
    obtain rfl := Name.device.inj hname
    obtain ⟨relay', hr', -, hissued⟩ := h.issued i call hi
    obtain rfl := Option.some.inj (hr.symm.trans hr')
    refine ⟨i, call, relay, hi, ?_, hr, rfl⟩
    obtain ⟨magic, nonce, relayKey, signature⟩ := challenge
    dsimp only at hmagic hnonce hrelayKey hsignature
    subst hmagic hnonce hrelayKey
    rw [hissued, hsignature]
    rfl
  · exact absurd (concat_inj heq).symm (h.elsewhere x hx _ ⟨MAGIC, .const .done, .const .done,
      .const .done⟩ (.const .done)).1

/-- No two connections are sent one challenge. -/
theorem Invariant.fresh {i' : ℕ} {call call' : Call} {own : Name → Prop} (h : Invariant own net)
    (hi : net.calls[i]? = some call) (hi' : net.calls[i']? = some call')
    (heq : call.challenge = call'.challenge) : i = i' := by
  obtain ⟨relay, -, -, hissued⟩ := h.issued i call hi
  obtain ⟨relay', -, -, hissued'⟩ := h.issued i' call' hi'
  rw [hissued, hissued'] at heq
  exact Name.run.inj (Term.nonce.inj (Challenge.mk.inj heq).2.1)

/-- No connection is served twice. -/
theorem Seating.served_once (h : Seating net) :
    (net.pairs.flatMap fun pair => [pair.2.1, pair.2.2]).Nodup := by
  have hdistinct : ∀ pair ∈ net.pairs, ∀ pair' ∈ net.pairs, pair.2.1 ≠ pair'.2.2 := by
    intro pair hp pair' hp' heq
    have hleft := (h.pairs pair hp).1
    rw [heq] at hleft
    exact absurd (hleft.unique (h.pairs pair' hp').2).2 (by simp)
  refine List.nodup_flatMap.mpr ⟨fun pair hp => by simp [hdistinct pair hp pair hp], ?_⟩
  refine h.once.imp_of_mem fun {pair pair'} hp hp' hne => ?_
  simp only [Function.onFun, List.disjoint_cons_left, List.mem_cons, List.not_mem_nil, or_false,
    not_or, List.disjoint_nil_left, and_true]
  exact ⟨⟨hne.1, hdistinct pair hp pair' hp'⟩, (hdistinct pair' hp' pair hp).symm, hne.2⟩

/-- **Admission.** In every run of the network:

* a connection a relay has admitted as an endpoint, whose provisioned key is not
  compromised, was sent a challenge that the owner of the key has answered in a call of
  `join` for this very relay;
* what a call of `join` that returned `Ok` answered, if the relay's key is not compromised, is
  the challenge of exactly one connection, and a relay with this key had accepted it;
* a pair that is served consists of two connections admitted as its two endpoints, for two
  different keys, and no connection is served twice. -/
theorem relay_admission (h : (system compromised).Reachable net) :
    (∀ r role i k (relay : Relay), net.Admitted r role i → net.relays[r]? = some relay →
      relay.allowed role = symbolic.publicKey k → ¬compromised k →
      ∃ (call : Call) (j : ℕ) (join : Join), net.calls[i]? = some call ∧
        net.joins[j]? = some join ∧ join.identity = k ∧
        join.relayKey = symbolic.publicKey relay.identity ∧
        join.answered = some call.challenge) ∧
    (∀ (j : ℕ) (join : Join) k, net.joins[j]? = some join → join.result = some (.ok ()) →
      join.relayKey = symbolic.publicKey k → ¬compromised k →
      ∃! i : ℕ, ∃ (call : Call) (relay : Relay), net.calls[i]? = some call ∧
        join.answered = some call.challenge ∧ net.relays[call.relay]? = some relay ∧
        relay.identity = k) ∧
    (∀ pair ∈ net.pairs, net.Admitted pair.1 .left pair.2.1 ∧
      net.Admitted pair.1 .right pair.2.2 ∧
      ∃ relay, net.relays[pair.1]? = some relay ∧ relay.allowed .left ≠ relay.allowed .right) ∧
    (net.pairs.flatMap fun pair => [pair.2.1, pair.2.2]).Nodup := by
  have hinv := invariant_of_reachable h
  refine ⟨?_, ?_, fun pair hp => ?_, hinv.seating.served_once⟩
  · rintro r role i k relay ⟨call, hi, rfl, ha⟩ hr hallowed hk
    obtain ⟨j, join, hjoin⟩ := hinv.admitted_by hi ha hr hallowed hk
    exact ⟨call, j, join, hi, hjoin⟩
  · intro j join k hj hok hkey hk
    obtain ⟨challenge, ha⟩ := Option.isSome_iff_exists.mp (hinv.joined j join hj hok)
    obtain ⟨i, call, relay, hi, rfl, hr, hid⟩ := hinv.issued_by hj ha hkey hk
    refine ⟨i, ⟨call, relay, hi, ha, hr, hid⟩, ?_⟩
    rintro i' ⟨call', relay', hi', ha', -, -⟩
    exact hinv.fresh hi' hi (Option.some.inj (ha'.symm.trans ha))
  · obtain ⟨hleft, hright⟩ := hinv.seating.pairs pair hp
    obtain ⟨call, hi, hcall, -⟩ := id hleft
    obtain ⟨relay, hr, hne, -⟩ := hinv.issued _ call hi
    exact ⟨hleft, hright, relay, by rw [← hcall, hr], hne⟩

end Admission

end Network

/-! ### A pair nobody interferes with -/

namespace FirstPair

open Admission.Network

/-- The endpoints are devices 0 and 1, the relay's key is that of device 2. -/
def allowed : PairRole → Msg
  | .left => symbolic.publicKey 0
  | .right => symbolic.publicKey 1

def relay (service : Service) : Relay := ⟨2, allowed, service⟩

/-- The challenge of a connection, and what a device answers. -/
def challenge (i : ℕ) : Challenge Msg Msg := issue symbolic 2 (.nonce (.run i))
def response (k i : ℕ) : Response Msg Msg :=
  ⟨symbolic.publicKey k,
    symbolic.sign k (responseBytes (challenge i) (symbolic.publicKey k))⟩

/-- A call of `join` at each point. -/
def calling (k : ℕ) : Join := ⟨k, symbolic.publicKey 2, none, none⟩
def answering (k i : ℕ) : Join := ⟨k, symbolic.publicKey 2, some (challenge i), none⟩
def joined (k i : ℕ) : Join := ⟨k, symbolic.publicKey 2, some (challenge i), some (.ok ())⟩

/-- The endpoint on the left has been admitted. -/
def oneSeat : PairRole → Option ℕ := Function.update (fun _ => none) .left (some 0)

def net3 : Network := ⟨[calling 0, calling 1], [relay .fresh], [], ∅, ∅, []⟩
def net4 : Network := net3.connect 0 (relay .fresh) (fun _ => none) 0
def net5 : Network := net4.setJoin 0 (answering 0 0) (response 0 0).terms
def net6 : Network :=
  net5.finish 0 (relay (.authenticating 0 (fun _ => none) 0)) 0 ⟨0, challenge 0, none⟩
    (fun _ => none) 0 (.ok .left)
def net7 : Network := net6.connect 0 (relay (.accepting oneSeat 0)) oneSeat 0
def net8 : Network := net7.setJoin 1 (answering 1 1) (response 1 1).terms
def net9 : Network :=
  net8.finish 0 (relay (.authenticating 1 oneSeat 0)) 1 ⟨0, challenge 1, none⟩ oneSeat 0
    (.ok .right)
def net10 : Network := net9.setJoin 0 (joined 0 0) []

theorem receive_challenge (k i : ℕ) :
    (calling k).receive (challenge i) true = (answering k i, some (response k i)) := by
  simp [Join.receive, answer, calling, challenge, issue, symbolic, answering, response]

theorem reachable_net10 (compromised : ℕ → Prop) : (system compromised).Reachable net10 := by
  have h0 : (system compromised).Reachable ⟨[], [], [], ∅, ∅, []⟩ := .init rfl
  have h1 : (system compromised).Reachable ⟨[], [relay .fresh], [], ∅, ∅, []⟩ :=
    h0.step (l := .start 2 allowed) rfl
  have h2 : (system compromised).Reachable ⟨[calling 0], [relay .fresh], [], ∅, ∅, []⟩ :=
    h1.step (l := .join 0 (symbolic.publicKey 2)) rfl
  have h3 : (system compromised).Reachable net3 :=
    h2.step (l := .join 1 (symbolic.publicKey 2)) rfl
  have h4 : (system compromised).step net3 (.accept 0) net4 :=
    ⟨relay .fresh, fun _ => none, 0, rfl, rfl, by decide, rfl⟩
  have h5 : (system compromised).step net4 (.challenge 0 (challenge 0) true) net5 := by
    refine ⟨calling 0, rfl, rfl, rfl, fun t ht => .known (.inr ht), ?_⟩
    simp only [receive_challenge]
    rfl
  have h6 : (system compromised).step net5 (.respond 0 (response 0 0)) net6 :=
    ⟨_, 0, ⟨0, challenge 0, none⟩, fun _ => none, 0, rfl, rfl, rfl,
      fun t ht => .known (.inr ht), rfl⟩
  have h7 : (system compromised).step net6 (.accept 0) net7 :=
    ⟨relay (.accepting oneSeat 0), oneSeat, 0, rfl, rfl, by decide, rfl⟩
  have h8 : (system compromised).step net7 (.challenge 1 (challenge 1) true) net8 := by
    refine ⟨calling 1, rfl, rfl, rfl, fun t ht => .known (.inr ht), ?_⟩
    simp only [receive_challenge]
    rfl
  have h9 : (system compromised).step net8 (.respond 0 (response 1 1)) net9 :=
    ⟨_, 1, ⟨0, challenge 1, none⟩, oneSeat, 0, rfl, rfl, rfl,
      fun t ht => .known (.inr ht), rfl⟩
  have h10 : (system compromised).step net9 (.ready 0 1) net10 :=
    ⟨answering 0 0, rfl, rfl, rfl, rfl⟩
  exact ((((((h3.step h4).step h5).step h6).step h7).step h8).step h9).step h10

/-- Who answered for the endpoint on the left, when only device 7 is compromised. -/
theorem admission_of_net10 : net10.pairs = [(0, 0, 1)] ∧
    ∃ (call : Call) (j : ℕ) (join : Join), net10.calls[0]? = some call ∧
      net10.joins[j]? = some join ∧ join.identity = 0 ∧
      join.relayKey = symbolic.publicKey 2 ∧ join.answered = some call.challenge :=
  ⟨rfl, (relay_admission (reachable_net10 (· = 7))).1 0 .left 0 0 (relay (.serving 0 1))
    ⟨_, rfl, rfl, rfl⟩ rfl rfl (by decide)⟩

end FirstPair

end Admission

end SensorRemote
