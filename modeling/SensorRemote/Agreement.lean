import SensorRemote.Handshake
import SensorRemote.Lib.Symbolic
import SensorRemote.Lib.Transition

/-!
# Agreement of the handshake

The handshake over symbolic cryptography, against an attacker who is the network. Any
number of runs go on at once, of any number of devices, some of whose identity keys the
attacker has. The attacker decides who calls what, delivers whatever it can derive
(`Derivable`), and stops runs at will.

The proof is by what the attacker may have (`Safe`): a signature it did not make was
made by a run, and a record it did not seal was sealed by a run that derived the same
key. The first finds the peer's hello, the second shows that the peer holds both.
-/

namespace SensorRemote

open Symbolic Transition

/-! ## Symbolic primitives -/

/-- Who draws random values: the devices their identity keys, the runs their ephemeral
keys and nonces, and the attacker its own. -/
inductive Name where
  | device (k : ℕ)
  | run (i : ℕ)
  | attacker (n : ℕ)
  deriving DecidableEq

/-- The constants of the handshake. -/
inductive Constant where
  /-- the end of a concatenation -/
  | done
  /-- marks a piece as a 32-byte value -/
  | bytes32
  /-- marks a piece as a signature -/
  | signature
  /-- thirty-two zero bytes -/
  | zero
  /-- a domain prefix or an expansion label -/
  | text (text : String)
  | version (version : ℕ)
  | deviceId (id : DeviceId)
  | bytes (bytes : List UInt8)
  deriving DecidableEq

abbrev Msg := Term Constant Name

/-- A piece of a signed string, marked with what it is. -/
def Piece.term : Piece Msg Msg → Msg
  | .domain text => .const (.text text)
  | .version n => .const (.version n)
  | .deviceId id => .const (.deviceId id)
  | .bytes32 value => .pair (.const .bytes32) value
  | .signature made => .pair (.const .signature) made

/-- A concatenation of pieces. -/
def concat : List (Piece Msg Msg) → Msg
  | [] => .const .done
  | piece :: rest => .pair piece.term (concat rest)

theorem Piece.term_inj {x y : Piece Msg Msg} (h : x.term = y.term) : x = y := by
  cases x <;> cases y <;> simp_all [term]

/-- Concatenations are told apart by their pieces. -/
theorem concat_inj : ∀ {l l' : List (Piece Msg Msg)}, concat l = concat l' → l = l'
  | [], [], _ => rfl
  | [], _ :: _, h => by cases h
  | _ :: _, [], h => by cases h
  | x :: l, y :: l', h => by
    obtain ⟨hpiece, hrest⟩ := Term.pair.inj h
    rw [Piece.term_inj hpiece, concat_inj hrest]

/-- The primitives, ideal. -/
def symbolic : Primitives Msg Msg ℕ Name where
  zero := .const .zero
  noSignature := .const .done
  publicKey k := .publicKey (.device k)
  sign k pieces := .sign (.device k) (concat pieces)
  verify key pieces signature :=
    match key with
    | .publicKey k =>
      if signature = .sign k (concat pieces) then .ok () else .error .signatureVerification
    | _ => .error .invalidPublicKey
  ephemeralPublic x := .share x
  diffieHellman x share :=
    -- zero does not contribute
    if share = .const .zero then .error .invalidPeerKey else .ok (share.agree x)
  sha256 pieces := .hash (concat pieces)
  extract salt ikm := .extract salt ikm
  expand key label := .ok (.expand key (.text label))

/-- The authenticated cipher, ideal. -/
def symbolicCipher : Aead Msg Msg where
  encrypt key nonce aad plaintext :=
    .ok (.aead key (.const (.bytes nonce)) (.const (.bytes aad)) (.const (.bytes plaintext)))
  decrypt key nonce aad
    | .aead key' nonce' aad' (.const (.bytes plaintext)) =>
      if key' = key ∧ nonce' = .const (.bytes nonce) ∧ aad' = .const (.bytes aad) then .ok plaintext
      else .error .encryption
    | _ => .error .encryption

/-- A signature that verifies was made with the key over the string. -/
theorem symbolic_verify_ok {k : Name} {pieces : List (Piece Msg Msg)} {signature : Msg}
    (h : symbolic.verify (.publicKey k) pieces signature = .ok ()) :
    signature = .sign k (concat pieces) := by
  simp only [symbolic] at h
  split at h
  · assumption
  · cases h

/-- What opens under a key was sealed under it. -/
theorem symbolicCipher_decrypt_ok {key ciphertext : Msg} {nonce aad plaintext : List UInt8}
    (h : symbolicCipher.decrypt key nonce aad ciphertext = .ok plaintext) :
    ∃ n a p, ciphertext = .aead key n a p := by
  simp only [symbolicCipher] at h
  split at h
  · split at h
    · rename_i hkey
      obtain ⟨rfl, -⟩ := hkey
      exact ⟨_, _, _, rfl⟩
    · cases h
  · cases h

/-- The session keys of two hellos and a shared secret. -/
def symbolicKeys (client : ClientHello Msg Msg) (server : ServerHello Msg Msg) (shared : Msg) :
    SessionKeys Msg :=
  let prk : Msg := .expand (.extract (.hash (concat (handshakeTranscript client server))) shared)
    (.text "SENSOR Remote Access/session/v1")
  ⟨.expand prk (.text "SENSOR Remote Access/session/v1/i2r"),
    .expand prk (.text "SENSOR Remote Access/session/v1/r2i")⟩

theorem deriveSessionKeys_symbolic (client : ClientHello Msg Msg) (server : ServerHello Msg Msg)
    (shared : Msg) :
    deriveSessionKeys symbolic shared (handshakeTranscript client server) =
      .ok (symbolicKeys client server shared) := rfl

/-- One direction's key determines the direction, both hellos and the shared secret. -/
theorem sealKey_symbolicKeys_inj {role role' : Role} {client client' : ClientHello Msg Msg}
    {server server' : ServerHello Msg Msg} {shared shared' : Msg}
    (h : role.sealKey (symbolicKeys client server shared) =
      role'.sealKey (symbolicKeys client' server' shared')) :
    role = role' ∧ client = client' ∧ server = server' ∧ shared = shared' := by
  have hkey : role = role' ∧
      concat (handshakeTranscript client server) = concat (handshakeTranscript client' server') ∧
      shared = shared' := by
    cases role <;> cases role' <;> simp_all [Role.sealKey, symbolicKeys]
  obtain ⟨hrole, htranscript, hshared⟩ := hkey
  obtain ⟨hclient, hserver⟩ := handshakeTranscript_inj (concat_inj htranscript)
  exact ⟨hrole, hclient, hserver, hshared⟩

/-- The attacker may have a session's keys exactly if it may have the shared secret. -/
theorem safe_sealKey {own : Name → Prop} {L : Ledger Constant Name} {role : Role}
    {client : ClientHello Msg Msg} {server : ServerHello Msg Msg} {shared : Msg} :
    Safe own L (role.sealKey (symbolicKeys client server shared)) ↔ Safe own L shared := by
  cases role <;> rfl

/-! ## The network -/

abbrev SymbolicRun := Run Msg Msg ℕ Name
abbrev SymbolicMessage := Message Msg Msg Msg

/-- The parts of a message that are not plain numbers. -/
def Message.terms : SymbolicMessage → List Msg
  | .clientHello client => [client.targetIdentityKey, client.identityPublicKey,
      client.ephemeralPublicKey, client.nonce, client.signature]
  | .serverHello server => [server.identityPublicKey, server.ephemeralPublicKey,
      server.clientNonce, server.nonce, server.signature]
  | .record sealed => [sealed.ciphertext]

/-- All runs so far, the `i`-th drawing its random values under the name `run i`, and
everything that was ever sent. -/
structure Network where
  runs : List SymbolicRun
  sent : Set Msg

/-- What the attacker decides. -/
inductive Action where
  /-- a device calls `initiate` -/
  | initiate (identity : ℕ) (deviceId : DeviceId) (expected : ExpectedPeer Msg) (written : Bool)
  /-- a device calls `accept` or `accept_unpinned` -/
  | listen (identity : ℕ) (deviceId : DeviceId) (mode : Mode Msg)
  /-- a message reaches a run -/
  | deliver (i : ℕ) (message : SymbolicMessage) (written : Bool)
  /-- a run gives up: its deadline passed, or its socket failed -/
  | stop (i : ℕ)
  /-- an established connection seals a plaintext -/
  | sealRecord (i : ℕ) (plaintext : List UInt8)
  /-- an established connection is sent a record -/
  | openRecord (i : ℕ) (record : EncryptedRecord Msg)

/-- The names the attacker owns: its own and the compromised devices'. -/
def owned (compromised : ℕ → Prop) : Name → Prop
  | .device k => compromised k
  | .run _ => False
  | .attacker _ => True

namespace Network

/-- Replace a run and send a message. -/
def update (net : Network) (i : ℕ) (run : SymbolicRun) (sent : Option SymbolicMessage) :
    Network where
  runs := net.runs.set i run
  sent := net.sent ∪ {t | ∃ message ∈ sent, t ∈ message.terms}

/-- A call of `initiate`, `accept` or `accept_unpinned` that has not returned. -/
def Waiting (net : Network) (i : ℕ) (run : SymbolicRun) : Prop :=
  net.runs[i]? = some run ∧ run.failed = false ∧
    ∀ client server session, run.progress ≠ .confirmed client server session

/-- A call that returned `Ok`, and the connection it returned. -/
def Established (net : Network) (i : ℕ) (run : SymbolicRun) (client : ClientHello Msg Msg)
    (server : ServerHello Msg Msg) (session : SecureSession Msg) : Prop :=
  net.runs[i]? = some run ∧ run.failed = false ∧ run.progress = .confirmed client server session

/-- The network under an attacker. -/
def system (compromised : ℕ → Prop) : LTS Network Action where
  init net := net.runs = [] ∧ net.sent = ∅
  step net action net' :=
    match action with
    | .initiate identity deviceId expected written =>
      Derivable (owned compromised) net.sent expected.publicKey ∧
        let name := Name.run net.runs.length
        let (run, message) : SymbolicRun × SymbolicMessage :=
          Run.initiate symbolic identity deviceId expected name (.nonce name) written
        net' = ⟨net.runs ++ [run], net.sent ∪ {t | t ∈ message.terms}⟩
    | .listen identity deviceId mode =>
      mode.role = .responder ∧
        net' = { net with runs := net.runs ++ [⟨identity, deviceId, mode, .listening, false⟩] }
    | .deliver i message written => ∃ run, net.Waiting i run ∧
        (∀ t ∈ message.terms, Derivable (owned compromised) net.sent t) ∧
        let name := Name.run i
        let (run', sent) := run.receive symbolic symbolicCipher name (.nonce name) message written
        net' = net.update i run' sent
    | .stop i => ∃ run, net.Waiting i run ∧ net' = net.update i run.fail none
    | .sealRecord i plaintext => ∃ run client server session,
        net.Established i run client server session ∧
        let (session', result) := session.sealRecord symbolicCipher AAD plaintext
        net' = net.update i { run with progress := .confirmed client server session' }
          (result.toOption.map .record)
    | .openRecord i record => ∃ run client server session,
        net.Established i run client server session ∧
        let (session', _) := session.openRecord symbolicCipher record AAD
        net' = net.update i { run with progress := .confirmed client server session' } none

/-! ## What the runs have done -/

/-- The string a run signed, if it signed one. -/
def signed? (run : SymbolicRun) : Option Msg :=
  match run.progress with
  | .helloSent pending => some (concat (clientSignatureBytes pending.clientHello))
  | .listening => none
  | .answered client server | .keyed client server _ | .confirmed client server _ =>
    some (concat (run.mode.role.other.peerSigned client server))

/-- The strings the devices signed and the keys the runs derived to seal under. -/
def ledger (net : Network) : Ledger Constant Name where
  signed name t := ∃ (i : ℕ) (run : SymbolicRun), net.runs[i]? = some run ∧
    name = .device run.identity ∧ signed? run = some t
  keyed key := ∃ (i : ℕ) (run : SymbolicRun), net.runs[i]? = some run ∧
    ∃ session, run.session? = some session ∧ session.channel.send = key

/-- A run replaced by one that remembers what it signed and the key it seals under. -/
structure Remembers (run run' : SymbolicRun) : Prop where
  identity : run'.identity = run.identity
  signed : ∀ t, signed? run = some t → signed? run' = some t
  keyed : ∀ session, run.session? = some session →
    ∃ session', run'.session? = some session' ∧ session'.channel.send = session.channel.send

theorem Remembers.rfl {run : SymbolicRun} : Remembers run run :=
  ⟨Eq.refl _, fun _ h => h, fun session h => ⟨session, h, Eq.refl _⟩⟩

/-- The ledger of a network in which a run was replaced. -/
theorem ledger_update {net : Network} {i : ℕ} {run run' : SymbolicRun}
    (sent : Option SymbolicMessage) (hi : net.runs[i]? = some run) (h : Remembers run run') :
    net.ledger.le (net.update i run' sent).ledger := by
  have hlt : i < net.runs.length := (List.getElem?_eq_some_iff.mp hi).1
  have hget : ∀ (j : ℕ) (r : SymbolicRun), net.runs[j]? = some r →
      ∃ r', (net.runs.set i run')[j]? = some r' ∧ Remembers r r' := by
    intro j r hj
    by_cases hij : i = j
    · subst hij
      obtain rfl := Option.some.inj (hi.symm.trans hj)
      exact ⟨run', by rw [List.getElem?_set_self hlt], h⟩
    · exact ⟨r, by rw [List.getElem?_set_ne hij, hj], .rfl⟩
  constructor
  · rintro name t ⟨j, r, hj, rfl, ht⟩
    obtain ⟨r', hj', hr⟩ := hget j r hj
    exact ⟨j, r', hj', by rw [hr.identity], hr.signed t ht⟩
  · rintro key ⟨j, r, hj, session, hsession, rfl⟩
    obtain ⟨r', hj', hr⟩ := hget j r hj
    obtain ⟨session', hsession', hsend⟩ := hr.keyed session hsession
    exact ⟨j, r', hj', session', hsession', hsend⟩

/-- The ledger of a network with one more run. -/
theorem ledger_append (net : Network) (run : SymbolicRun) (sent : Set Msg) :
    net.ledger.le (Network.mk (net.runs ++ [run]) sent).ledger := by
  have hget : ∀ (j : ℕ) (r : SymbolicRun), net.runs[j]? = some r →
      (net.runs ++ [run])[j]? = some r := by
    intro j r hj
    rw [List.getElem?_append_left (List.getElem?_eq_some_iff.mp hj).1, hj]
  exact ⟨fun name t ⟨j, r, hj, h⟩ => ⟨j, r, hget j r hj, h⟩,
    fun key ⟨j, r, hj, h⟩ => ⟨j, r, hget j r hj, h⟩⟩

/-! ## The invariant -/

/-- What a run was sent is what the attacker may have: the peer's signature, and a record
under the key it opens under. -/
structure Sound (own : Name → Prop) (L : Ledger Constant Name) (run : SymbolicRun) : Prop where
  signature : ∀ client server, run.hellos? = some (client, server) →
    Safe own L (run.mode.role.peerSignature client server)
  finished : ∀ client server session, run.progress = .confirmed client server session →
    Safe own L session.channel.receive ∨ L.keyed session.channel.receive

theorem Sound.mono {own : Name → Prop} {L L' : Ledger Constant Name} (hL : L.le L')
    {run : SymbolicRun} (h : Sound own L run) : Sound own L' run where
  signature client server hh := (h.signature client server hh).mono hL
  finished client server session hp :=
    (h.finished client server session hp).imp (·.mono hL) (hL.2 _)

/-- The invariant of the network. -/
structure Invariant (own : Name → Prop) (net : Network) : Prop where
  justified : ∀ (i : ℕ) (run : SymbolicRun), net.runs[i]? = some run →
    run.Justified symbolic (.run i) (.nonce (.run i))
  sound : ∀ (i : ℕ) (run : SymbolicRun), net.runs[i]? = some run → Sound own net.ledger run
  sent : ∀ t ∈ net.sent, Safe own net.ledger t

section Step

variable {own : Name → Prop} {L : Ledger Constant Name} {run run' : SymbolicRun} {name : Name}
  {message : SymbolicMessage} {sent : Option SymbolicMessage}

/-- A message makes no run forget. -/
theorem remembers_of_step (h : run.Justified symbolic name (.nonce name))
    (hstep : Run.Step symbolic symbolicCipher name (.nonce name) run message run' sent) :
    Remembers run run' := by
  simp only [Run.Justified] at h
  cases hstep with
  | fail => exact ⟨rfl, fun _ ht => ht, fun s hs => ⟨s, hs, rfl⟩⟩
  | serverHello pending server session session' failed sent hprogress =>
    rw [hprogress] at h
    obtain ⟨expected, hmode, -⟩ := h
    refine ⟨rfl, fun t ht => ?_, fun s hs => ?_⟩
    · simpa [signed?, hprogress, hmode, Mode.role, Role.other, Role.peerSigned] using ht
    · simp [Run.session?, hprogress] at hs
  | answered client pending server hprogress
  | clientHello client pending server session hprogress =>
    exact ⟨rfl, by simp [signed?, hprogress], by simp [Run.session?, hprogress]⟩
  | rejected client server session session' record hprogress hsession
  | finished client server session session' record plaintext failed sent hprogress _ hsession =>
    refine ⟨rfl, fun t ht => ?_, fun s hs => ?_⟩
    · simpa [signed?, hprogress] using ht
    · simp only [Run.session?, hprogress, Option.some.injEq] at hs
      exact ⟨session', rfl, hs ▸ hsession.send⟩

/-- A run that was sent what the attacker may have stays sound. -/
theorem sound_of_step (h : Sound own L run) (hsafe : ∀ t ∈ message.terms, Safe own L t)
    (hj : run.Justified symbolic name (.nonce name))
    (hstep : Run.Step symbolic symbolicCipher name (.nonce name) run message run' sent) :
    Sound own L run' := by
  simp only [Run.Justified] at hj
  cases hstep with
  | fail => exact ⟨h.signature, h.finished⟩
  | serverHello pending server session session' failed sent hprogress =>
    rw [hprogress] at hj
    obtain ⟨expected, hmode, -⟩ := hj
    refine ⟨fun client' server' hh => ?_, by simp⟩
    obtain ⟨rfl, rfl⟩ := Prod.mk.inj (Option.some.inj hh)
    dsimp only
    rw [hmode]
    exact hsafe _ (by simp [Message.terms, Mode.role, Role.peerSignature])
  | answered client pending server hprogress
  | clientHello client pending server session hprogress =>
    rw [hprogress] at hj
    refine ⟨fun client' server' hh => ?_, by simp⟩
    obtain ⟨rfl, rfl⟩ := Prod.mk.inj (Option.some.inj hh)
    dsimp only
    rw [hj]
    exact hsafe _ (by simp [Message.terms, Role.peerSignature])
  | rejected client server session session' record hprogress =>
    refine ⟨fun client' server' hh => h.signature client' server' ?_, by simp⟩
    simpa [Run.hellos?, hprogress] using hh
  | finished client server session session' record plaintext failed sent hprogress hopen
      hsession =>
    refine ⟨fun client' server' hh => h.signature client' server' ?_, fun c s session'' hp => ?_⟩
    · simpa [Run.hellos?, hprogress] using hh
    · obtain ⟨rfl, rfl, rfl⟩ := Progress.confirmed.inj hp
      obtain ⟨n, a, plain, hct⟩ := symbolicCipher_decrypt_ok hopen
      have hrecord : Safe own L record.ciphertext := hsafe _ (by simp [Message.terms])
      rw [hct] at hrecord
      rw [hsession.receive]
      exact hrecord.1

/-- What a run sends is in the ledger it leaves behind. -/
theorem safe_of_step (hsafe : ∀ t ∈ message.terms, Safe own L t)
    (hstep : Run.Step symbolic symbolicCipher name (.nonce name) run message run' sent)
    (hsigned : ∀ t, signed? run' = some t → L.signed (.device run'.identity) t)
    (hkeyed : ∀ session, run'.session? = some session → L.keyed session.channel.send) :
    ∀ m ∈ sent, ∀ t ∈ m.terms, Safe own L t := by
  have hrecord : ∀ session', run'.session? = some session' →
      SealedUnder symbolicCipher session' sent → ∀ m ∈ sent, ∀ t ∈ m.terms, Safe own L t := by
    intro session' hs hsent m hm t ht
    obtain ⟨record, plaintext, rfl, henc⟩ := hsent m hm
    obtain rfl := List.mem_singleton.mp ht
    rw [← Except.ok.inj henc]
    exact ⟨.inr (hkeyed session' hs), trivial⟩
  have hanswer : ∀ client pending server, run.answer symbolic client name (.nonce name) =
      .ok (pending, server) → message = .clientHello client →
      run'.identity = run.identity →
      signed? run' = some (concat (serverSignatureBytes client server)) →
      ∀ t ∈ Message.terms (.serverHello server), Safe own L t := by
    rintro client pending server hans rfl hid hs t ht
    obtain ⟨hrole, -, hholds⟩ := Run.holds_of_answer hans
    have hmade := hholds.answered hrole
    simp only [Message.terms, hmade.identityPublicKey, hmade.ephemeralPublicKey, hmade.clientNonce,
      hmade.nonce, hmade.signature, List.mem_cons, List.not_mem_nil, or_false] at ht
    obtain rfl | rfl | rfl | rfl | rfl := ht
    · trivial
    · trivial
    · exact hsafe _ (by simp [Message.terms])
    · trivial
    · exact .inr (hid ▸ hsigned _ hs)
  cases hstep with
  | fail => simp
  | serverHello pending server session session' failed sent hprogress hfinish hsession hsent =>
    exact hrecord session' rfl hsent
  | answered client pending server hprogress hans
  | clientHello client pending server session hprogress hans =>
    have hrole := (Run.holds_of_answer hans).1
    rintro m ⟨⟩
    exact hanswer client pending server hans rfl rfl
      (by simp [signed?, hrole, Role.other, Role.peerSigned])
  | rejected => simp
  | finished client server session session' record plaintext failed sent hprogress hopen
      hsession hsent =>
    exact hrecord session' rfl hsent

end Step

section Preservation

variable {compromised : ℕ → Prop} {own : Name → Prop} {net net' : Network} {i : ℕ}
  {run run' : SymbolicRun}

/-- Replacing a run keeps the invariant. -/
theorem Invariant.update {sent : Option SymbolicMessage} (h : Invariant own net)
    (hi : net.runs[i]? = some run) (hremembers : Remembers run run')
    (hjustified : run'.Justified symbolic (.run i) (.nonce (.run i)))
    (hsound : Sound own (net.update i run' sent).ledger run')
    (hsent : ∀ m ∈ sent, ∀ t ∈ m.terms, Safe own (net.update i run' sent).ledger t) :
    Invariant own (net.update i run' sent) := by
  have hlt : i < net.runs.length := (List.getElem?_eq_some_iff.mp hi).1
  have hle := ledger_update sent hi hremembers
  have hget : ∀ (j : ℕ) (r : SymbolicRun), (net.runs.set i run')[j]? = some r →
      j = i ∧ r = run' ∨ net.runs[j]? = some r := by
    intro j r hj
    by_cases hij : i = j
    · subst hij
      rw [List.getElem?_set_self hlt] at hj
      exact .inl ⟨rfl, (Option.some.inj hj).symm⟩
    · rw [List.getElem?_set_ne hij] at hj
      exact .inr hj
  refine ⟨fun j r hj => ?_, fun j r hj => ?_, ?_⟩
  · obtain ⟨rfl, rfl⟩ | hj := hget j r hj
    · exact hjustified
    · exact h.justified j r hj
  · obtain ⟨rfl, rfl⟩ | hj := hget j r hj
    · exact hsound
    · exact (h.sound j r hj).mono hle
  · rintro t (ht | ⟨m, hm, ht⟩)
    · exact (h.sent t ht).mono hle
    · exact hsent m hm t ht

/-- Starting a run keeps the invariant. -/
theorem Invariant.append {sent : Set Msg} (h : Invariant own net)
    (hjustified : run.Justified symbolic (.run net.runs.length) (.nonce (.run net.runs.length)))
    (hhellos : run.hellos? = none)
    (hsent : ∀ t ∈ sent, t ∈ net.sent ∨
      Safe own (Network.mk (net.runs ++ [run]) sent).ledger t) :
    Invariant own ⟨net.runs ++ [run], sent⟩ := by
  have hle := ledger_append net run sent
  have hget : ∀ (j : ℕ) (r : SymbolicRun), (net.runs ++ [run])[j]? = some r →
      j = net.runs.length ∧ r = run ∨ net.runs[j]? = some r := by
    intro j r hj
    rcases Nat.lt_trichotomy j net.runs.length with hlt | rfl | hgt
    · rw [List.getElem?_append_left hlt] at hj
      exact .inr hj
    · rw [List.getElem?_concat_length] at hj
      exact .inl ⟨rfl, (Option.some.inj hj).symm⟩
    · rw [List.getElem?_eq_none (by simpa using Nat.succ_le_of_lt hgt)] at hj
      cases hj
  refine ⟨fun j r hj => ?_, fun j r hj => ?_, fun t ht => ?_⟩
  · obtain ⟨rfl, rfl⟩ | hj := hget j r hj
    · exact hjustified
    · exact h.justified j r hj
  · obtain ⟨rfl, rfl⟩ | hj := hget j r hj
    · refine ⟨fun client server hh => ?_, fun client server session hp => ?_⟩
      · rw [hhellos] at hh
        cases hh
      · simp [Run.hellos?, hp] at hhellos
    · exact (h.sound j r hj).mono hle
  · obtain ht | ht := hsent t ht
    · exact (h.sent t ht).mono hle
    · exact ht

/-- The ledger has what the run put in place does. -/
theorem ledger_of_get (hi : net.runs[i]? = some run) :
    (∀ t, signed? run = some t → net.ledger.signed (.device run.identity) t) ∧
      ∀ session, run.session? = some session → net.ledger.keyed session.channel.send :=
  ⟨fun _ ht => ⟨i, run, hi, rfl, ht⟩, fun session hs => ⟨i, run, hi, session, hs, rfl⟩⟩

theorem get_update {sent : Option SymbolicMessage} (hi : net.runs[i]? = some run) :
    (net.update i run' sent).runs[i]? = some run' :=
  List.getElem?_set_self (List.getElem?_eq_some_iff.mp hi).1

/-- An established connection that moves its counters keeps the invariant. -/
theorem Invariant.use (h : Invariant own net) {client : ClientHello Msg Msg}
    {server : ServerHello Msg Msg} {session session' : SecureSession Msg}
    {sent : Option SymbolicMessage} (hi : net.Established i run client server session)
    (hsession : session.Continues session') (hsent : SealedUnder symbolicCipher session' sent) :
    Invariant own
      (net.update i { run with progress := .confirmed client server session' } sent) := by
  obtain ⟨hrun, -, hprogress⟩ := hi
  have hremembers : Remembers run { run with progress := .confirmed client server session' } := by
    refine ⟨rfl, fun t ht => ?_, fun s hs => ⟨session', rfl, ?_⟩⟩
    · simpa [signed?, hprogress] using ht
    · simp only [Run.session?, hprogress, Option.some.injEq] at hs
      exact hs ▸ hsession.send
  have hle := ledger_update sent hrun hremembers
  have hjustified := h.justified i run hrun
  have hsound := (h.sound i run hrun).mono hle
  simp only [Run.Justified] at hjustified
  rw [hprogress] at hjustified
  refine h.update hrun hremembers ⟨hjustified.1, hjustified.2.continues _ hsession⟩ ?_ ?_
  · refine ⟨fun c s hh => hsound.signature c s ?_, fun c s session'' hp => ?_⟩
    · simpa [Run.hellos?, hprogress] using hh
    · obtain ⟨rfl, rfl, rfl⟩ := Progress.confirmed.inj hp
      rw [hsession.receive]
      exact hsound.finished _ _ _ hprogress
  · intro m hm t ht
    obtain ⟨record, plaintext, rfl, henc⟩ := hsent m hm
    obtain rfl := List.mem_singleton.mp ht
    rw [← Except.ok.inj henc]
    exact ⟨.inr ((ledger_of_get (get_update hrun)).2 session' rfl), trivial⟩

/-- **Every action keeps the invariant.** -/
theorem Invariant.step {action : Action} (h : Invariant (owned compromised) net)
    (hstep : (system compromised).step net action net') :
    Invariant (owned compromised) net' := by
  cases action with
  | initiate identity deviceId expected written =>
    obtain ⟨hexpected, rfl⟩ := hstep
    have hmade := startInitiator_madeBy symbolic identity deviceId expected
      (.run net.runs.length) (.nonce (.run net.runs.length))
    refine h.append ⟨expected, rfl, rfl, rfl, hmade⟩ rfl fun t ht => ?_
    obtain ht | ht := ht
    · exact .inl ht
    · right
      replace ht : t ∈ Message.terms (.clientHello _) := ht
      simp only [Message.terms, List.mem_cons, List.not_mem_nil, or_false] at ht
      -- only the identifier asked for comes from outside the run
      obtain rfl | rfl | rfl | rfl | rfl := ht
      · exact (hexpected.safe h.sent).mono (ledger_append _ _ _)
      · trivial
      · trivial
      · trivial
      · exact .inr ⟨net.runs.length, _, List.getElem?_concat_length, rfl, rfl⟩
  | listen identity deviceId mode =>
    obtain ⟨hmode, rfl⟩ := hstep
    exact h.append hmode rfl fun t ht => .inl ht
  | deliver i message written =>
    obtain ⟨run, ⟨hrun, -, -⟩, hterms, rfl⟩ := hstep
    have hstep := Run.receive_step symbolic symbolicCipher run (.run i)
      (.nonce (.run i)) message written
    -- the ledger grows by what this run has now signed; whoever was sound stays so
    have hjustified := h.justified i run hrun
    have hremembers := remembers_of_step hjustified hstep
    have hle := ledger_update (run.receive symbolic symbolicCipher (.run i)
      (.nonce (.run i)) message written).2 hrun hremembers
    have hsafe : ∀ t ∈ message.terms, Safe (owned compromised) _ t :=
      fun t ht => ((hterms t ht).safe h.sent).mono hle
    obtain ⟨hsigned, hkeyed⟩ := ledger_of_get (get_update hrun)
    exact h.update hrun hremembers (hjustified.step hstep)
      (sound_of_step ((h.sound i run hrun).mono hle) hsafe hjustified hstep)
      (safe_of_step hsafe hstep hsigned hkeyed)
  | stop i =>
    obtain ⟨run, ⟨hrun, -, -⟩, rfl⟩ := hstep
    have hremembers : Remembers run run.fail :=
      ⟨rfl, fun _ ht => ht, fun s hs => ⟨s, hs, rfl⟩⟩
    have hsound := (h.sound i run hrun).mono (ledger_update none hrun hremembers)
    exact h.update hrun hremembers (h.justified i run hrun)
      ⟨hsound.signature, hsound.finished⟩ (by simp)
  | sealRecord i plaintext =>
    obtain ⟨run, client, server, session, hi, hnet⟩ := hstep
    rcases hseal : session.sealRecord symbolicCipher AAD plaintext with ⟨session', result⟩
    rw [hseal] at hnet
    obtain ⟨hsession, henc⟩ := SecureSession.sealRecord_continues hseal
    rw [hnet]
    apply h.use hi hsession
    intro m hm
    cases result with
    | error e => cases hm
    | ok record =>
      obtain rfl := Option.some.inj hm
      exact ⟨record, plaintext, rfl, by rw [hsession.send]; exact henc record rfl⟩
  | openRecord i record =>
    obtain ⟨run, client, server, session, hi, hnet⟩ := hstep
    rcases hopen : session.openRecord symbolicCipher record AAD with ⟨session', result⟩
    rw [hopen] at hnet
    rw [hnet]
    exact h.use hi (SecureSession.openRecord_continues hopen).1 (by rintro m ⟨⟩)

theorem invariant_of_reachable (h : (system compromised).Reachable net) :
    Invariant (owned compromised) net := by
  refine h.invariant ?_ fun _ _ _ => Invariant.step
  rintro net ⟨hruns, hsent⟩
  constructor <;> simp [hruns, hsent]

end Preservation

/-! ## Agreement -/

/-- `peer` is the other side of a run that holds the two hellos and the session: it holds
the same hellos, has derived the same two keys, and each side reports the other's device. -/
structure Matches (run : SymbolicRun) (client : ClientHello Msg Msg) (server : ServerHello Msg Msg)
    (session : SecureSession Msg) (peer : SymbolicRun) : Prop where
  role : peer.mode.role = run.mode.role.other
  hellos : peer.hellos? = some (client, server)
  peerIdentityKey : session.peerIdentityKey = symbolic.publicKey peer.identity
  peerDeviceId : session.peerDeviceId = peer.deviceId
  session : ∃ session', peer.session? = some session' ∧
    session'.transcriptHash = session.transcriptHash ∧
    session'.channel.send = session.channel.receive ∧
    session'.channel.receive = session.channel.send ∧
    session'.peerIdentityKey = symbolic.publicKey run.identity ∧
    session'.peerDeviceId = run.deviceId

section Agreement

variable {compromised : ℕ → Prop} {own : Name → Prop} {net : Network} {i j : ℕ}
  {run peer : SymbolicRun} {client : ClientHello Msg Msg} {server : ServerHello Msg Msg}
  {session : SecureSession Msg}

/-- A signature over a peer's hello was made by a run, and the share in it is this run's. -/
theorem Invariant.share_of_signed (h : Invariant own net) (hj : net.runs[j]? = some peer)
    {role : Role} (hsigned : signed? peer = some (concat (role.peerSigned client server)))
    (hsignature : role.peerSignature client server =
      symbolic.sign peer.identity (role.peerSigned client server)) :
    role.peerShare client server = .share (.run j) := by
  have hjustified := h.justified j peer hj
  simp only [Run.Justified] at hjustified
  have hclient : ∀ {client' : ClientHello Msg Msg} {expected : ExpectedPeer Msg},
      client'.MadeBy symbolic peer.identity peer.deviceId expected (.run j) (.nonce (.run j)) →
      concat (clientSignatureBytes client') = concat (role.peerSigned client server) →
      role.peerShare client server = .share (.run j) := by
    intro client' expected hmade heq
    have heq := concat_inj heq
    cases role with
    | initiator => exact absurd heq (clientSignatureBytes_ne_server _ _ _)
    | responder =>
      have hs : client'.signature = client.signature := by
        rw [hmade.signature, heq]
        exact hsignature.symm
      obtain rfl := clientSignatureBytes_inj heq hs
      exact hmade.ephemeralPublicKey
  have hheld : ∀ {client' : ClientHello Msg Msg} {server' : ServerHello Msg Msg},
      Run.Holds symbolic peer.identity peer.deviceId peer.mode (.run j) (.nonce (.run j)) client'
        server' →
      concat (peer.mode.role.other.peerSigned client' server') =
        concat (role.peerSigned client server) →
      role.peerShare client server = .share (.run j) := by
    intro client' server' hholds heq
    cases hmode : peer.mode with
    | initiate expected =>
      rw [hmode] at heq
      exact hclient (hholds.asked expected hmode).1 heq
    -- a responder signs as a server only: the other text has another domain
    | accept _ | acceptUnpinned =>
      have hmade := hholds.answered (by rw [hmode]; rfl)
      rw [hmode] at heq
      have heq := concat_inj heq
      cases role with
      | initiator =>
        have hs : server'.signature = server.signature := by
          rw [hmade.signature]
          exact (congrArg _ heq).trans hsignature.symm
        obtain ⟨rfl, rfl⟩ := serverSignatureBytes_inj heq hs
        exact hmade.ephemeralPublicKey
      | responder => exact absurd heq.symm (clientSignatureBytes_ne_server _ _ _)
  unfold signed? at hsigned
  split at hsigned
  · rename_i pending hprogress
    rw [hprogress] at hjustified
    obtain ⟨expected, -, -, -, hmade⟩ := hjustified
    exact hclient hmade (Option.some.inj hsigned)
  · cases hsigned
  · rename_i hprogress
    rw [hprogress] at hjustified
    exact hheld hjustified (Option.some.inj hsigned)
  · rename_i hprogress
    rw [hprogress] at hjustified
    exact hheld hjustified.1 (Option.some.inj hsigned)
  · rename_i hprogress
    rw [hprogress] at hjustified
    exact hheld hjustified.1 (Option.some.inj hsigned)

/-- A run with a session holds the hellos it came from. -/
theorem Invariant.held_of_session (h : Invariant own net) (hi : net.runs[i]? = some run)
    (hsession : run.session? = some session) :
    ∃ client server, run.hellos? = some (client, server) ∧
      Run.Holds symbolic run.identity run.deviceId run.mode (.run i) (.nonce (.run i)) client
        server ∧
      Run.DerivedFrom symbolic session run.mode.role (.run i) client server := by
  have hjustified := h.justified i run hi
  simp only [Run.Justified] at hjustified
  unfold Run.session? at hsession
  split at hsession
  · rename_i client server session' hprogress
    obtain rfl := Option.some.inj hsession
    rw [hprogress] at hjustified
    exact ⟨client, server, by simp [Run.hellos?, hprogress], hjustified⟩
  · rename_i client server session' hprogress
    obtain rfl := Option.some.inj hsession
    rw [hprogress] at hjustified
    exact ⟨client, server, by simp [Run.hellos?, hprogress], hjustified⟩
  · cases hsession

/-- What a run that returned `Ok` holds. -/
theorem Invariant.held_of_established (h : Invariant own net)
    (hi : net.Established i run client server session) :
    Run.Holds symbolic run.identity run.deviceId run.mode (.run i) (.nonce (.run i)) client
        server ∧
      Run.DerivedFrom symbolic session run.mode.role (.run i) client server := by
  obtain ⟨hrun, -, hprogress⟩ := hi
  have hjustified := h.justified i run hrun
  simp only [Run.Justified] at hjustified
  rw [hprogress] at hjustified
  exact hjustified

/-- **Agreement.** If the key a connection reports is not compromised, a run of its owner
is the other side. -/
theorem Invariant.agreement {k : ℕ} (h : Invariant (owned compromised) net)
    (hi : net.Established i run client server session)
    (hpeer : session.peerIdentityKey = symbolic.publicKey k) (hk : ¬compromised k) :
    ∃ (j : ℕ) (peer : SymbolicRun), net.runs[j]? = some peer ∧ peer.identity = k ∧
      Matches run client server session peer := by
  obtain ⟨hholds, hderived⟩ := h.held_of_established hi
  have hsound := h.sound i run hi.1
  have hhellos : run.hellos? = some (client, server) := by simp [Run.hellos?, hi.2.2]
  obtain ⟨shared, keys, hshared, hkeys, hsend, hreceive⟩ := hderived.keys
  rw [deriveSessionKeys_symbolic] at hkeys
  obtain rfl := Except.ok.inj hkeys
  -- the peer's signature was made by a run, whose share is in the hello
  have hkey : run.mode.role.peerIdentityKey client server = .publicKey (.device k) :=
    hderived.peerIdentityKey.symm.trans hpeer
  have hverified := hholds.verified
  rw [hkey] at hverified
  have hsignature := symbolic_verify_ok hverified
  have hsafe := hsound.signature client server hhellos
  rw [hsignature] at hsafe
  obtain ⟨j, signer, hj, hname, hsigned⟩ := hsafe.signed hk
  obtain rfl := Name.device.inj hname
  have hshare := h.share_of_signed hj hsigned hsignature
  -- so the attacker cannot have the shared secret
  have hshared' : shared = .agreed s(.run i, .run j) := by
    rw [hshare] at hshared
    simpa [symbolic] using (Except.ok.inj hshared).symm
  have hsecret : ¬Safe (owned compromised) net.ledger session.channel.receive := by
    rw [hreceive, safe_sealKey, hshared', ← Term.agree_share, safe_agree_share]
    simp [owned]
  -- and the Finished message was sealed by a run that derived the key
  obtain ⟨m, peer, hm, session', hsession', hkeyed⟩ :=
    (hsound.finished _ _ _ hi.2.2).resolve_left hsecret
  obtain ⟨client', server', hhellos', hholds', hderived'⟩ := h.held_of_session hm hsession'
  obtain ⟨shared', keys', -, hkeys', hsend', hreceive'⟩ := hderived'.keys
  rw [deriveSessionKeys_symbolic] at hkeys'
  obtain rfl := Except.ok.inj hkeys'
  rw [hreceive, hsend'] at hkeyed
  obtain ⟨hrole, rfl, rfl, rfl⟩ := sealKey_symbolicKeys_inj hkeyed
  obtain ⟨hidentity, hdevice, -⟩ := hholds.own
  obtain ⟨hidentity', hdevice', -⟩ := hholds'.own
  rw [hrole, Role.other_other] at hidentity' hdevice' hreceive'
  have howner : session.peerIdentityKey = symbolic.publicKey peer.identity :=
    hderived.peerIdentityKey.trans hidentity'
  refine ⟨m, peer, hm, ?_, hrole, hhellos', howner, hderived.peerDeviceId.trans hdevice', session',
    hsession', ?_, ?_, ?_, ?_, ?_⟩
  · exact Name.device.inj (Term.publicKey.inj (howner.symm.trans hpeer))
  · rw [hderived'.transcriptHash, hderived.transcriptHash]
  · rw [hsend', hreceive, hrole]
  · rw [hreceive', hsend]
  · rw [hderived'.peerIdentityKey, hrole, hidentity]
  · rw [hderived'.peerDeviceId, hrole, hdevice]

/-- A run is the other side of at most one connection. -/
theorem Invariant.injective {i' : ℕ} {run' : SymbolicRun} {client' : ClientHello Msg Msg}
    {server' : ServerHello Msg Msg} {session' : SecureSession Msg} (h : Invariant own net)
    (hi : net.Established i run client server session)
    (hi' : net.Established i' run' client' server' session')
    (hmatch : Matches run client server session peer)
    (hmatch' : Matches run' client' server' session' peer) : i' = i := by
  obtain ⟨rfl, rfl⟩ := Prod.mk.inj (Option.some.inj (hmatch.hellos.symm.trans hmatch'.hellos))
  have hrole : run'.mode.role = run.mode.role := by
    rw [← run'.mode.role.other_other, ← hmatch'.role, hmatch.role, Role.other_other]
  obtain ⟨-, -, hnonce⟩ := (h.held_of_established hi).1.own
  obtain ⟨-, -, hnonce'⟩ := (h.held_of_established hi').1.own
  rw [hrole, hnonce] at hnonce'
  exact (Name.run.inj (Term.nonce.inj hnonce')).symm

/-- The pinned modes report the peer they were called for. -/
theorem Invariant.pinned {expected : ExpectedPeer Msg} (h : Invariant own net)
    (hi : net.Established i run client server session)
    (hmode : run.mode = .accept expected ∨
      run.mode = .initiate expected ∧ expected.publicKey ≠ symbolic.zero) :
    (⟨session.peerDeviceId, session.peerIdentityKey⟩ : ExpectedPeer Msg) = expected := by
  obtain ⟨hholds, hderived⟩ := h.held_of_established hi
  rw [hderived.peerDeviceId, hderived.peerIdentityKey]
  obtain hmode | ⟨hmode, hpin⟩ := hmode
  · obtain ⟨hid, hkey⟩ := hholds.pinned expected hmode
    rw [hmode]
    change (⟨client.deviceId, client.identityPublicKey⟩ : ExpectedPeer Msg) = expected
    rw [hid, hkey]
  · obtain ⟨-, hid, hkey⟩ := hholds.asked expected hmode
    rw [hmode]
    change (⟨server.deviceId, server.identityPublicKey⟩ : ExpectedPeer Msg) = expected
    rw [hid, hkey hpin]

/-- **Handshake agreement.** Of a connection that `initiate`, `accept` or `accept_unpinned`
returned: if the identity key it reports is not compromised, the owner of this key has a run
that is the other side; no run is the other side of two connections; and a pinned function
reports its pin. -/
theorem handshake_agreement (h : (system compromised).Reachable net)
    (hi : net.Established i run client server session) :
    (∀ k, session.peerIdentityKey = symbolic.publicKey k → ¬compromised k →
      ∃ (j : ℕ) (peer : SymbolicRun), net.runs[j]? = some peer ∧ peer.identity = k ∧
        Matches run client server session peer) ∧
    (∀ (i' : ℕ) (run' peer : SymbolicRun) client' server' session',
      net.Established i' run' client' server' session' →
      Matches run client server session peer → Matches run' client' server' session' peer →
      i' = i) ∧
    (∀ expected, run.mode = .accept expected ∨
        run.mode = .initiate expected ∧ expected.publicKey ≠ symbolic.zero →
      (⟨session.peerDeviceId, session.peerIdentityKey⟩ : ExpectedPeer Msg) = expected) := by
  have hinv := invariant_of_reachable h
  exact ⟨fun k hpeer hk => hinv.agreement hi hpeer hk,
    fun i' run' peer client' server' session' hi' hmatch hmatch' =>
      hinv.injective hi hi' hmatch hmatch',
    fun expected hmode => hinv.pinned hi hmode⟩

end Agreement

end Network

/-! ### A connection nobody interferes with -/

namespace FirstConnection

open Network

def alice : DeviceId := ⟨MIN_DEVICE_ID, DeviceId.first_inRange⟩
def bob : DeviceId := ⟨MIN_DEVICE_ID + 1, DeviceId.second_inRange⟩

/-- What the caller expects, and the two hellos. -/
def expected : ExpectedPeer Msg := ⟨bob, symbolic.publicKey 1⟩
def client : ClientHello Msg Msg :=
  (startInitiator symbolic 0 alice expected (.run 0) (.nonce (.run 0))).2
def unsigned : ServerHello Msg Msg :=
  ⟨PROTOCOL_VERSION, bob, symbolic.publicKey 1, .share (.run 1), .nonce (.run 0), .nonce (.run 1),
    symbolic.noSignature⟩
def server : ServerHello Msg Msg :=
  { unsigned with signature := symbolic.sign 1 (serverSignatureBytes client unsigned) }

/-- The keys both sides derive and the Finished messages under them. -/
def keys : SessionKeys Msg := symbolicKeys client server (.agreed s(.run 0, .run 1))
def finished (role : Role) (text : List UInt8) : EncryptedRecord Msg :=
  ⟨0, .aead (role.sealKey keys) (.const (.bytes (makeNonce 0))) (.const (.bytes AAD))
    (.const (.bytes text))⟩

/-- The session of a role after it sealed and opened so many records. -/
def session (role : Role) (next : ℕ) (highest : Option ℕ) : SecureSession Msg :=
  ⟨role.peerDeviceId client server, role.peerIdentityKey client server,
    transcriptHash symbolic (handshakeTranscript client server),
    ⟨role.sealKey keys, role.other.sealKey keys, next, highest⟩⟩

/-- The two calls at each point. -/
def caller (progress : Progress Msg Msg Name) : SymbolicRun :=
  ⟨0, alice, .initiate expected, progress, false⟩
def callee (progress : Progress Msg Msg Name) : SymbolicRun :=
  ⟨1, bob, .accept ⟨alice, symbolic.publicKey 0⟩, progress, false⟩
def caller0 : SymbolicRun := caller (.helloSent ⟨expected, .run 0, client⟩)
def caller1 : SymbolicRun := caller (.keyed client server (session .initiator 1 none))
def caller2 : SymbolicRun := caller (.confirmed client server (session .initiator 1 (some 0)))
def callee0 : SymbolicRun := callee .listening
def callee1 : SymbolicRun := callee (.keyed client server (session .responder 0 none))
def callee2 : SymbolicRun := callee (.confirmed client server (session .responder 1 (some 0)))

theorem receive_clientHello :
    callee0.receive symbolic symbolicCipher (.run 1) (.nonce (.run 1)) (.clientHello client) true =
      (callee1, some (.serverHello server)) := by
  rw [callee1, session, keys, Sym2.eq_swap]
  rfl

theorem receive_serverHello :
    caller0.receive symbolic symbolicCipher (.run 0) (.nonce (.run 0)) (.serverHello server) true =
      (caller1, some (.record (finished .initiator CLIENT_FINISH))) := rfl

theorem receive_clientFinish :
    callee1.receive symbolic symbolicCipher (.run 1) (.nonce (.run 1))
        (.record (finished .initiator CLIENT_FINISH)) true =
      (callee2, some (.record (finished .responder SERVER_FINISH))) := rfl

theorem receive_serverFinish :
    caller1.receive symbolic symbolicCipher (.run 0) (.nonce (.run 0))
        (.record (finished .responder SERVER_FINISH)) true = (caller2, none) := rfl

def net1 : Network := ⟨[caller0], ∅ ∪ {t | t ∈ Message.terms (.clientHello client)}⟩
def net2 : Network := { net1 with runs := [caller0, callee0] }
def net3 : Network := net2.update 1 callee1 (some (.serverHello server))
def net4 : Network := net3.update 0 caller1 (some (.record (finished .initiator CLIENT_FINISH)))
def net5 : Network := net4.update 1 callee2 (some (.record (finished .responder SERVER_FINISH)))
def net6 : Network := net5.update 0 caller2 none

/-- The last message sent can be delivered. -/
theorem derivable_sent {own : Name → Prop} {net : Network} {i : ℕ} {run : SymbolicRun}
    {message : SymbolicMessage} :
    ∀ t ∈ message.terms, Derivable own (net.update i run (some message)).sent t :=
  fun _ ht => .known (.inr ⟨message, rfl, ht⟩)

theorem reachable_net6 (compromised : ℕ → Prop) : (system compromised).Reachable net6 := by
  have h0 : (system compromised).Reachable ⟨[], ∅⟩ := .init ⟨rfl, rfl⟩
  have h1 : (system compromised).step ⟨[], ∅⟩ (.initiate 0 alice expected true) net1 :=
    ⟨.publicKey _, rfl⟩
  have h2 : (system compromised).step net1
      (.listen 1 bob (.accept ⟨alice, symbolic.publicKey 0⟩)) net2 := ⟨rfl, rfl⟩
  have h3 : (system compromised).step net2 (.deliver 1 (.clientHello client) true) net3 := by
    refine ⟨callee0, ⟨rfl, rfl, by rintro _ _ _ ⟨⟩⟩, fun t ht => .known (.inr ht), ?_⟩
    simp only [receive_clientHello]
    rfl
  have h4 : (system compromised).step net3 (.deliver 0 (.serverHello server) true) net4 := by
    refine ⟨caller0, ⟨rfl, rfl, by rintro _ _ _ ⟨⟩⟩, derivable_sent, ?_⟩
    simp only [receive_serverHello]
    rfl
  have h5 : (system compromised).step net4
      (.deliver 1 (.record (finished .initiator CLIENT_FINISH)) true) net5 := by
    refine ⟨callee1, ⟨rfl, rfl, by rintro _ _ _ ⟨⟩⟩, derivable_sent, ?_⟩
    simp only [receive_clientFinish]
    rfl
  have h6 : (system compromised).step net5
      (.deliver 0 (.record (finished .responder SERVER_FINISH)) true) net6 := by
    refine ⟨caller1, ⟨rfl, rfl, by rintro _ _ _ ⟨⟩⟩, derivable_sent, ?_⟩
    simp only [receive_serverFinish]
    rfl
  exact (((((h0.step h1).step h2).step h3).step h4).step h5).step h6

/-- The caller's connection and its other side, when only device 7 is compromised. -/
theorem agreement_of_net6 :
    ∃ (j : ℕ) (peer : SymbolicRun), net6.runs[j]? = some peer ∧ peer.identity = 1 ∧
      Matches caller2 client server (session .initiator 1 (some 0)) peer :=
  (handshake_agreement (i := 0) (reachable_net6 (· = 7)) ⟨rfl, rfl, rfl⟩).1 1 rfl (by decide)

end FirstConnection

end SensorRemote
