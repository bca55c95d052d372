import SensorRemote.Connection
import SensorRemote.Lib.Transition

/-!
# Integrity of the record stream

The two ends of an established session as a transition system (`recordSystem`): a step
is any call on either end, and the bytes delivered to a call are the attacker's choice.
The one thing the attacker cannot do is make the cipher open something that was never
sealed (`Unforgeable`).

What a call may do to the record channel is said once (`ChannelStep`), and every call of
`Connection` is shown to do nothing else. From it comes the invariant of one end
(`EndInvariant`) and the relation between the two (`Accounted`), and from these that
what an end accepted is a prefix of what the other sealed, and that no key and nonce
are used twice.
-/

namespace SensorRemote

open Bytes Transition

variable {β : Type}

/-! ## What happened so far -/

/-- The records sealed in a history, in order. -/
def sealedRecords (history : List (ChannelEvent β)) : List (SealedRecord β) :=
  history.filterMap fun
    | .sealed record => some record
    | .opened _ => none

/-- The plaintexts accepted in a history, in order. -/
def acceptedPlaintexts (history : List (ChannelEvent β)) : List (List UInt8) :=
  history.filterMap fun
    | .sealed _ => none
    | .opened plaintext => some plaintext

@[simp] theorem sealedRecords_append (h h' : List (ChannelEvent β)) :
    sealedRecords (h ++ h') = sealedRecords h ++ sealedRecords h' := List.filterMap_append

@[simp] theorem acceptedPlaintexts_append (h h' : List (ChannelEvent β)) :
    acceptedPlaintexts (h ++ h') = acceptedPlaintexts h ++ acceptedPlaintexts h' :=
  List.filterMap_append

@[simp] theorem sealedRecords_nil : sealedRecords ([] : List (ChannelEvent β)) = [] := rfl

@[simp] theorem acceptedPlaintexts_nil : acceptedPlaintexts ([] : List (ChannelEvent β)) = [] := rfl

@[simp] theorem sealedRecords_sealed (record : SealedRecord β) :
    sealedRecords [.sealed record] = [record] := rfl

@[simp] theorem sealedRecords_opened (plaintext : List UInt8) :
    sealedRecords ([.opened plaintext] : List (ChannelEvent β)) = [] := rfl

@[simp] theorem acceptedPlaintexts_sealed (record : SealedRecord β) :
    acceptedPlaintexts [.sealed record] = [] := rfl

@[simp] theorem acceptedPlaintexts_opened (plaintext : List UInt8) :
    acceptedPlaintexts ([.opened plaintext] : List (ChannelEvent β)) = [plaintext] := rfl

/-! ## What a call can do to the channel -/

/-- The session after sealing a record, or burning its number. -/
def SecureSession.afterSeal (session : SecureSession β) : SecureSession β :=
  { session with
    channel := { session.channel with nextSendSequence := session.channel.nextSendSequence + 1 } }

/-- The session after opening the record with the given number. -/
def SecureSession.afterOpen (session : SecureSession β) (sequence : ℕ) : SecureSession β :=
  { session with channel := { session.channel with highestReceived := some sequence } }

/-- All that a call that is delivered `input` can do to the record state. -/
inductive ChannelStep (cipher : Aead β (List UInt8)) (input : List UInt8) :
    Option (SecureSession β) → List (ChannelEvent β) → Option (SecureSession β) → Prop where
  /-- nothing -/
  | idle (session) : ChannelStep cipher input session [] session
  /-- use up a number without a record -/
  | burnt (session) (hroom : session.channel.nextSendSequence + 1 < 2 ^ 64) :
      ChannelStep cipher input (some session) [] (some session.afterSeal)
  /-- seal the record of the next number -/
  | sealed (session) (plaintext ciphertext)
    (hroom : session.channel.nextSendSequence + 1 < 2 ^ 64) :
      ChannelStep cipher input (some session)
        [.sealed ⟨session.channel.send, session.channel.nextSendSequence, plaintext, ciphertext⟩]
        (some session.afterSeal)
  /-- open the record whose number is due, out of the bytes delivered -/
  | opened (session) (sequence plaintext ciphertext)
      (hdue : session.channel.expected = some sequence)
      (hinput : ciphertext <:+: input)
      (hopen : cipher.decrypt session.channel.receive (makeNonce sequence) AAD ciphertext =
        .ok plaintext) :
      ChannelStep cipher input (some session) [.opened plaintext]
        (some (session.afterOpen sequence))

section Calls

variable {T : Type} (cipher : Aead β (List UInt8)) {codec : Postcard T}

theorem sealAndWrite_step (session : SecureSession β) (plaintext input : List UInt8)
    (writable : Bool) :
    ChannelStep cipher input (some session)
      (sealAndWrite cipher session plaintext writable).events
      (some (sealAndWrite cipher session plaintext writable).state) := by
  simp only [sealAndWrite, SecureSession.sealRecord]
  rcases hseal : session.channel.sealRecord cipher AAD plaintext with ⟨channel, result⟩
  obtain ⟨rfl, rfl, -⟩ | ⟨rfl, hroom, ⟨e, rfl⟩ | ⟨ciphertext, rfl, -⟩⟩ :=
    SecureChannel.sealRecord_cases hseal
  · exact .idle _
  · exact .burnt _ hroom
  · exact .sealed _ _ _ hroom

theorem openAndReport_step (session : SecureSession β) {record : EncryptedRecord (List UInt8)}
    {input : List UInt8} (hinput : record.ciphertext <:+: input) :
    ChannelStep cipher input (some session) (openAndReport cipher session record).events
      (some (openAndReport cipher session record).state) := by
  simp only [openAndReport, SecureSession.openRecord]
  rcases hopen : session.channel.openRecord cipher record AAD with ⟨channel, result⟩
  obtain ⟨rfl, e, rfl⟩ | ⟨plaintext, rfl, hdue, rfl, hdec⟩ := SecureChannel.openRecord_cases hopen
  · exact .idle _
  · exact .opened _ _ _ _ hdue hinput hdec

/-- The ciphertext of a record that was read is part of what arrived. -/
theorem ciphertext_infix_of_readRecord {input : List UInt8} {record : EncryptedRecord (List UInt8)}
    (h : readRecord input = .ok record) : record.ciphertext <:+: input := by
  simp only [readRecord, bind, Except.bind, pure, Except.pure, throw, throwThe,
    MonadExceptOf.throw] at h
  rcases hframe : readFrame MAX_FRAME_SIZE input with e | ⟨frame, rest⟩
  · rw [hframe] at h
    cases h
  · rw [hframe] at h
    simp only at h
    split at h
    · cases h
    · obtain rfl := Except.ok.inj h
      exact (List.drop_suffix _ _).isInfix.trans (payload_infix_of_readFrame hframe)

namespace SecureConnection

variable (connection : SecureConnection β)

theorem sendBytes_step (plaintext input : List UInt8) (writable : Bool) :
    ChannelStep cipher input connection.session
      (connection.sendBytes cipher plaintext writable).events
      (connection.sendBytes cipher plaintext writable).state.session := by
  unfold sendBytes
  split
  · exact .idle _
  · split
    · exact .idle _
    · split
      · exact .idle _
      · rename_i session hsession
        have hstep := sealAndWrite_step cipher session plaintext input writable
        rw [hsession]
        dsimp only
        split <;> exact hstep

theorem receiveBytes_step (input : List UInt8) :
    ChannelStep cipher input connection.session
      (connection.receiveBytes cipher input).events
      (connection.receiveBytes cipher input).state.session := by
  unfold receiveBytes
  split
  · exact .idle _
  · split
    · exact .idle _
    · exact .idle _
    · rename_i record session hread hsession
      have hstep := openAndReport_step cipher session
        (ciphertext_infix_of_readRecord hread)
      rw [hsession]
      dsimp only
      split <;> exact hstep

theorem send_step (message : T) (input : List UInt8) (writable : Bool) :
    ChannelStep cipher input connection.session
      (connection.send cipher codec message writable).events
      (connection.send cipher codec message writable).state.session := by
  simp only [send]
  split
  · exact .idle _
  · exact connection.sendBytes_step cipher _ _ _

theorem receive_step (input : List UInt8) :
    ChannelStep cipher input connection.session
      (connection.receive cipher codec input).events
      (connection.receive cipher codec input).state.session := by
  have hstep := connection.receiveBytes_step cipher input
  unfold receive
  dsimp only
  split <;> exact hstep

/-- `split` hands the record state over, or leaves the connection as it is. -/
theorem split_cases (cloned : Bool) :
    (∃ e, connection.split cloned = (connection, .error e)) ∨
      ∃ session, connection.session = some session ∧
        connection.split cloned = (⟨none, true⟩, .ok ⟨session, false⟩) := by
  simp only [split]
  split
  · exact .inl ⟨_, rfl⟩
  · split
    · exact .inl ⟨_, rfl⟩
    · split
      · exact .inl ⟨_, rfl⟩
      · rename_i session hsession
        exact .inr ⟨session, hsession, rfl⟩

end SecureConnection

namespace DuplexState

variable (duplex : DuplexState β)

theorem writerSend_step (message : T) (early writable : Bool) (input : List UInt8) :
    ChannelStep cipher input (some duplex.session)
      (duplex.writerSend cipher codec message early writable).events
      (some (duplex.writerSend cipher codec message early writable).state.session) := by
  unfold writerSend
  split
  · exact .idle _
  · split
    · exact .idle _
    · rename_i plaintext _
      split
      · exact .idle _
      · have hstep := sealAndWrite_step cipher duplex.session plaintext input writable
        dsimp only
        split <;> exact hstep

theorem readerReceive_step (early : Bool) (input : List UInt8) :
    ChannelStep cipher input (some duplex.session)
      (duplex.readerReceive cipher codec early input).events
      (some (duplex.readerReceive cipher codec early input).state.session) := by
  unfold readerReceive
  split
  · exact .idle _
  · split
    · exact .idle _
    · rename_i record hread
      have hstep := openAndReport_step cipher duplex.session
        (ciphertext_infix_of_readRecord hread)
      dsimp only
      split <;> exact hstep

end DuplexState

end Calls

/-! ## One end -/

theorem ChannelStep.of_none {cipher : Aead β (List UInt8)} {input : List UInt8}
    {events : List (ChannelEvent β)} {session : Option (SecureSession β)}
    (h : ChannelStep cipher input none events session) : events = [] ∧ session = none := by
  cases h with
  | idle => exact ⟨rfl, rfl⟩

namespace EndState

/-- The record state lives in one place: a connection that was split has none. -/
def Settled (e : EndState β) : Prop := e.halves.isSome → e.connection.session = none

variable {cipher : Aead β (List UInt8)} {input : List UInt8}

/-- A call on the connection object does to the end what it does to the connection. -/
theorem onConnection_step {α : Type} {e : EndState β} (h : e.Settled)
    {f : SecureConnection β → Outcome (SecureConnection β) β α}
    (hf : ChannelStep cipher input e.connection.session (f e.connection).events
      (f e.connection).state.session) :
    ChannelStep cipher input e.session (e.onConnection f).events (e.onConnection f).state.session ∧
      (e.onConnection f).state.Settled := by
  rcases hhalves : e.halves with _ | duplex
  · have hs : (e.onConnection f).state.session = (f e.connection).state.session := by
      simp [session, onConnection, hhalves]
    have hs' : e.session = e.connection.session := by simp [session, hhalves]
    refine ⟨?_, fun hs => absurd hs (by simp [onConnection, hhalves])⟩
    rw [hs, hs']
    exact hf
  · have hnone : e.connection.session = none := h (by rw [hhalves]; rfl)
    rw [hnone] at hf
    obtain ⟨hevents, hstate⟩ := hf.of_none
    have hs : (e.onConnection f).state.session = e.session := by
      simp [session, onConnection, hhalves]
    refine ⟨?_, fun _ => hstate⟩
    rw [hs, show (e.onConnection f).events = [] from hevents]
    exact .idle _

/-- A call on the halves does to the end what it does to the state they share. -/
theorem onHalves_step {α : Type} {e : EndState β} (h : e.Settled)
    {f : DuplexState β → Outcome (DuplexState β) β α}
    (hf : ∀ duplex, ChannelStep cipher input (some duplex.session) (f duplex).events
      (some (f duplex).state.session)) :
    ChannelStep cipher input e.session (e.onHalves f).events (e.onHalves f).state.session ∧
      (e.onHalves f).state.Settled := by
  simp only [onHalves]
  split
  · exact ⟨.idle _, h⟩
  · rename_i duplex hhalves
    refine ⟨?_, fun _ => h (by rw [hhalves]; rfl)⟩
    simpa [session, hhalves] using hf duplex

/-- **What a call can do.** Every call on an end takes at most one step of the record
channel, and leaves the record state in one place. -/
theorem call_step (cipher : Aead β (List UInt8)) {e : EndState β} (h : e.Settled) (c : Call) :
    ChannelStep cipher c.delivered e.session (e.call cipher c).events
        (e.call cipher c).state.session ∧
      (e.call cipher c).state.Settled := by
  cases c with
  | sendBytes plaintext writable =>
    exact onConnection_step h (e.connection.sendBytes_step cipher plaintext _ writable)
  | receiveBytes input => exact onConnection_step h (e.connection.receiveBytes_step cipher input)
  | send codec message writable =>
    exact onConnection_step h (e.connection.send_step cipher message _ writable)
  | receive codec input => exact onConnection_step h (e.connection.receive_step cipher input)
  | split cloned =>
    obtain ⟨error, hsplit⟩ | ⟨session, hsession, hsplit⟩ := e.connection.split_cases cloned
    · simp only [call, hsplit]
      exact ⟨.idle _, h⟩
    · simp only [call, hsplit]
      have hhalves : e.halves = none := by
        by_contra hsome
        have hnone := h (Option.isSome_iff_ne_none.mpr hsome)
        rw [hsession] at hnone
        cases hnone
      have hs : e.session = some session := by simp [EndState.session, hhalves, hsession]
      rw [hs]
      exact ⟨.idle _, fun _ => rfl⟩
  | close => exact ⟨.idle _, h⟩
  | writerSend codec message early writable =>
    exact onHalves_step h fun duplex => duplex.writerSend_step cipher message early writable _
  | readerReceive codec early input =>
    exact onHalves_step h fun duplex => duplex.readerReceive_step cipher early input
  | dropHalf => exact onHalves_step h fun _ => .idle _

end EndState

/-! ## The two ends -/

/-- Both ends and what happened at each. -/
structure Ends (β : Type) where
  state : Role → EndState β
  history : Role → List (ChannelEvent β)

/-- **The cipher is ideal**: what opens under one of the session's keys is a record that
was sealed under this key, this number and to this plaintext. -/
def Unforgeable (cipher : Aead β (List UInt8)) (keys : SessionKeys β)
    (history : Role → List (ChannelEvent β)) (delivered : List UInt8) : Prop :=
  ∀ (role : Role) nonce ciphertext plaintext, ciphertext <:+: delivered →
    cipher.decrypt (role.sealKey keys) nonce AAD ciphertext = .ok plaintext →
    ∃ sealer, ∃ record ∈ sealedRecords (history sealer), record.key = role.sealKey keys ∧
      record.nonce = nonce ∧ record.plaintext = plaintext ∧ record.ciphertext = ciphertext

/-- The two ends of a session with the given keys. A step is a call on one of them, with
the bytes the attacker delivers to it. -/
def recordSystem (cipher : Aead β (List UInt8)) (keys : SessionKeys β) :
    LTS (Ends β) (Role × Call) where
  init ends := ∀ role, ends.history role = [] ∧ ∃ session : SecureSession β,
    session.channel = role.channel keys ∧ ends.state role = ⟨⟨some session, false⟩, none⟩
  step ends label ends' :=
    let (role, c) := label
    Unforgeable cipher keys ends.history c.delivered ∧
      ends' =
        { state := Function.update ends.state role ((ends.state role).call cipher c).state
          history := Function.update ends.history role
            (ends.history role ++ ((ends.state role).call cipher c).events) }

/-! ## The invariant -/

/-- What one end knows of its own past. -/
structure EndInvariant (keys : SessionKeys β) (role : Role) (e : EndState β)
    (history : List (ChannelEvent β)) (session : SecureSession β) : Prop where
  settled : e.Settled
  live : e.session = some session
  sealKey : session.channel.send = role.sealKey keys
  openKey : session.channel.receive = role.other.sealKey keys
  /-- the counter has not run over -/
  room : session.channel.nextSendSequence < 2 ^ 64
  /-- the numbers used lie below the counter -/
  used : ∀ record ∈ sealedRecords history,
    record.key = role.sealKey keys ∧ record.sequence < session.channel.nextSendSequence
  /-- they were used in increasing order -/
  increasing : (sealedRecords history).Pairwise fun r r' => r.sequence < r'.sequence
  /-- the number due is the number of plaintexts accepted so far -/
  due : ∀ sequence, session.channel.expected = some sequence →
    sequence = (acceptedPlaintexts history).length ∧ sequence < 2 ^ 64

/-- Every plaintext accepted at `role` was sealed by the other end under its position. -/
def Accounted (history : Role → List (ChannelEvent β)) (role : Role) : Prop :=
  ∀ (i : ℕ) (plaintext : List UInt8),
    (acceptedPlaintexts (history role))[i]? = some plaintext →
    ∃ record ∈ sealedRecords (history role.other),
      record.sequence = i ∧ record.plaintext = plaintext

/-- The invariant of the two ends. -/
structure EndsInvariant (keys : SessionKeys β) (ends : Ends β) : Prop where
  end_ : ∀ role, ∃ session, EndInvariant keys role (ends.state role) (ends.history role) session
  accounted : ∀ role, Accounted ends.history role

section Invariant

variable {cipher : Aead β (List UInt8)} {keys : SessionKeys β}

/-- The number due after a record was opened. -/
theorem expected_afterOpen {session : SecureSession β} {sequence next : ℕ}
    (h : (session.afterOpen sequence).channel.expected = some next) :
    next = sequence + 1 ∧ next < 2 ^ 64 := by
  obtain ⟨hlt, rfl⟩ := checkedAdd_eq_some.mp h
  exact ⟨rfl, hlt⟩

/-- A step of the channel keeps what an end knows of its past. -/
theorem EndInvariant.step {role : Role} {e e' : EndState β} {history events : List (ChannelEvent β)}
    {session : SecureSession β} {input : List UInt8}
    (h : EndInvariant keys role e history session)
    (hstep : ChannelStep cipher input e.session events e'.session) (hsettled : e'.Settled) :
    ∃ session', EndInvariant keys role e' (history ++ events) session' := by
  rw [h.live] at hstep
  cases hs' : e'.session with
  | none =>
    rw [hs'] at hstep
    cases hstep
  | some session' =>
    rw [hs'] at hstep
    refine ⟨session', ?_⟩
    cases hstep with
    | idle =>
      rw [List.append_nil]
      exact { h with settled := hsettled, live := hs' }
    -- a sequence number is spent though nothing was sealed
    | burnt _ hroom =>
      rw [List.append_nil]
      exact
        { settled := hsettled
          live := hs'
          sealKey := h.sealKey
          openKey := h.openKey
          room := hroom
          used := fun record hr => ⟨(h.used record hr).1, Nat.lt_succ_of_lt (h.used record hr).2⟩
          increasing := h.increasing
          due := h.due }
    | sealed _ plaintext ciphertext hroom =>
      refine
        { settled := hsettled
          live := hs'
          sealKey := h.sealKey
          openKey := h.openKey
          room := hroom
          used := ?_
          increasing := ?_
          due := ?_ }
      · intro record hr
        rw [sealedRecords_append, sealedRecords_sealed, List.mem_append, List.mem_singleton] at hr
        rcases hr with hr | rfl
        · exact ⟨(h.used record hr).1, Nat.lt_succ_of_lt (h.used record hr).2⟩
        · exact ⟨h.sealKey, Nat.lt_succ_self _⟩
      · rw [sealedRecords_append, sealedRecords_sealed, List.pairwise_append]
        refine ⟨h.increasing, List.pairwise_singleton _ _, fun record hr record' hr' => ?_⟩
        obtain rfl := List.mem_singleton.mp hr'
        exact (h.used record hr).2
      · rw [acceptedPlaintexts_append, acceptedPlaintexts_sealed, List.append_nil]
        exact h.due
    | opened _ sequence plaintext ciphertext hdue =>
      refine
        { settled := hsettled
          live := hs'
          sealKey := h.sealKey
          openKey := h.openKey
          room := h.room
          used := ?_
          increasing := ?_
          due := ?_ }
      · rw [sealedRecords_append, sealedRecords_opened, List.append_nil]
        exact h.used
      · rw [sealedRecords_append, sealedRecords_opened, List.append_nil]
        exact h.increasing
      -- what was accepted is counted by the number that is due next
      · intro next hnext
        obtain ⟨rfl, hlt⟩ := expected_afterOpen hnext
        obtain ⟨hlength, -⟩ := h.due sequence hdue
        exact ⟨by simp [hlength], hlt⟩

/-- A record can only have been sealed by the end whose key it is under. -/
theorem sealer_of_key (hkeys : keys.initiatorToResponder ≠ keys.responderToInitiator)
    {role role' : Role} (h : role.sealKey keys = role'.sealKey keys) : role = role' := by
  cases role <;> cases role' <;> simp_all [Role.sealKey]

/-- What an end accepts next was sealed by the other end under the number due. -/
theorem EndsInvariant.opened_sealed {ends : Ends β}
    (hkeys : keys.initiatorToResponder ≠ keys.responderToInitiator)
    (h : EndsInvariant keys ends) {role : Role} {session : SecureSession β}
    {input plaintext ciphertext : List UInt8} {sequence : ℕ}
    (hinv : EndInvariant keys role (ends.state role) (ends.history role) session)
    (hideal : Unforgeable cipher keys ends.history input)
    (hdue : session.channel.expected = some sequence) (hinput : ciphertext <:+: input)
    (hopen : cipher.decrypt session.channel.receive (makeNonce sequence) AAD ciphertext =
      .ok plaintext) :
    ∃ record ∈ sealedRecords (ends.history role.other),
      record.sequence = sequence ∧ record.plaintext = plaintext := by
  rw [hinv.openKey] at hopen
  obtain ⟨sealer, record, hmem, hkey, hnonce, hplain, -⟩ := hideal _ _ _ _ hinput hopen
  obtain ⟨session', hinv'⟩ := h.end_ sealer
  obtain ⟨hkey', hlt⟩ := hinv'.used record hmem
  obtain rfl : sealer = role.other := sealer_of_key hkeys (hkey'.symm.trans hkey)
  have hnumber : record.sequence = sequence :=
    makeNonce_inj (Nat.lt_trans hlt hinv'.room) (hinv.due sequence hdue).2 hnonce
  exact ⟨record, hmem, hnumber, hplain⟩

/-- Sealing more leaves what was accepted accounted for. -/
theorem Accounted.mono {history history' : Role → List (ChannelEvent β)} {role : Role}
    (h : Accounted history role)
    (haccepted : acceptedPlaintexts (history' role) = acceptedPlaintexts (history role))
    (hsealed : ∃ l, sealedRecords (history' role.other) =
      sealedRecords (history role.other) ++ l) : Accounted history' role := by
  intro i plaintext hi
  rw [haccepted] at hi
  obtain ⟨record, hmem, hrecord⟩ := h i plaintext hi
  obtain ⟨l, hl⟩ := hsealed
  exact ⟨record, by rw [hl]; exact List.mem_append_left _ hmem, hrecord⟩

theorem EndsInvariant.init {ends : Ends β} (h : (recordSystem cipher keys).init ends) :
    EndsInvariant keys ends := by
  constructor
  · intro role
    obtain ⟨hhistory, session, hchannel, hstate⟩ := h role
    rw [hhistory, hstate]
    refine ⟨session, ?_, rfl, ?_, ?_, ?_, ?_, List.Pairwise.nil, ?_⟩
    · rintro ⟨⟩
    · rw [hchannel]
      cases role <;> rfl
    · rw [hchannel]
      cases role <;> rfl
    · rw [hchannel]
      cases role <;> exact Nat.two_pow_pos 64
    · simp
    · rw [hchannel]
      intro sequence hdue
      have hzero : (role.channel keys).expected = some 0 := by cases role <;> rfl
      obtain rfl := Option.some.inj (hdue.symm.trans hzero)
      exact ⟨rfl, Nat.two_pow_pos 64⟩
  · intro role i plaintext hi
    rw [(h role).1] at hi
    cases hi

/-- A step of the channel accepts nothing but what the other end has sealed. -/
theorem EndsInvariant.accounted_step {ends : Ends β}
    (hkeys : keys.initiatorToResponder ≠ keys.responderToInitiator)
    (h : EndsInvariant keys ends) {role : Role} {session : SecureSession β}
    {session' : Option (SecureSession β)} {input : List UInt8} {events : List (ChannelEvent β)}
    (hinv : EndInvariant keys role (ends.state role) (ends.history role) session)
    (hideal : Unforgeable cipher keys ends.history input)
    (hstep : ChannelStep cipher input (some session) events session')
    {i : ℕ} {plaintext : List UInt8}
    (hi : (acceptedPlaintexts (ends.history role ++ events))[i]? = some plaintext) :
    ∃ record ∈ sealedRecords (ends.history role.other),
      record.sequence = i ∧ record.plaintext = plaintext := by
  rw [acceptedPlaintexts_append] at hi
  cases hstep with
  | idle => exact h.accounted role i plaintext (by simpa using hi)
  | burnt => exact h.accounted role i plaintext (by simpa using hi)
  | sealed => exact h.accounted role i plaintext (by simpa using hi)
  | opened _ sequence accepted ciphertext hdue hinput hopen =>
    rw [acceptedPlaintexts_opened] at hi
    rcases Nat.lt_trichotomy i (acceptedPlaintexts (ends.history role)).length with hlt | rfl | hgt
    · rw [List.getElem?_append_left hlt] at hi
      exact h.accounted role i plaintext hi
    · -- the plaintext accepted just now
      rw [List.getElem?_concat_length] at hi
      obtain rfl := Option.some.inj hi
      rw [← (hinv.due sequence hdue).1]
      exact h.opened_sealed hkeys hinv hideal hdue hinput hopen
    · rw [List.getElem?_eq_none (by simpa using Nat.succ_le_of_lt hgt)] at hi
      cases hi

theorem EndsInvariant.step (hkeys : keys.initiatorToResponder ≠ keys.responderToInitiator)
    {ends ends' : Ends β} {label : Role × Call} (h : EndsInvariant keys ends)
    (hstep : (recordSystem cipher keys).step ends label ends') : EndsInvariant keys ends' := by
  obtain ⟨role, c⟩ := label
  obtain ⟨hideal, rfl⟩ := hstep
  obtain ⟨session, hinv⟩ := h.end_ role
  obtain ⟨hchannel, hsettled⟩ := EndState.call_step cipher hinv.settled c
  constructor
  · intro role'
    by_cases hrole : role' = role
    · subst hrole
      simpa using hinv.step hchannel hsettled
    · simpa [Function.update_of_ne hrole] using h.end_ role'
  · intro role'
    obtain rfl | rfl := role.eq_or_eq_other role'
    · -- the end that made the call may have accepted one more plaintext
      rw [hinv.live] at hchannel
      intro i plaintext hi
      simp only [Function.update_self] at hi
      simp only [Function.update_of_ne role'.other_ne]
      exact h.accounted_step hkeys hinv hideal hchannel hi
    · -- the other end may have sealed one more record
      refine (h.accounted role.other).mono ?_ ?_
      · simp
      · simp

theorem endsInvariant_of_reachable (hkeys : keys.initiatorToResponder ≠ keys.responderToInitiator)
    {ends : Ends β} (h : (recordSystem cipher keys).Reachable ends) : EndsInvariant keys ends :=
  h.invariant (fun _ => EndsInvariant.init) fun _ _ _ => EndsInvariant.step hkeys

end Invariant

/-! ## The results -/

/-- The key and nonce of every record both ends ever sealed. -/
def keysAndNonces (ends : Ends β) : List (β × List UInt8) :=
  (sealedRecords (ends.history .initiator) ++ sealedRecords (ends.history .responder)).map
    fun record => (record.key, record.nonce)

/-- One end never seals twice under one key and nonce. -/
theorem EndInvariant.nodup_nonces {keys : SessionKeys β} {role : Role} {e : EndState β}
    {history : List (ChannelEvent β)} {session : SecureSession β}
    (h : EndInvariant keys role e history session) :
    ((sealedRecords history).map fun record => (record.key, record.nonce)).Nodup := by
  rw [List.Nodup, List.pairwise_map]
  refine h.increasing.imp_of_mem fun {r r'} hr hr' hlt heq => ?_
  have hr64 := Nat.lt_trans (h.used r hr).2 h.room
  have hr'64 := Nat.lt_trans (h.used r' hr').2 h.room
  have hnumber := makeNonce_inj hr64 hr'64 (Prod.mk.inj heq).2
  omega

/-- **Record stream integrity.** Whatever calls are made on the two ends of a session and
whatever bytes reach them, what an end has accepted is a prefix of what the other end has
sealed, and no two records were sealed under one key and nonce. -/
theorem record_stream_integrity {cipher : Aead β (List UInt8)} {keys : SessionKeys β}
    (hkeys : keys.initiatorToResponder ≠ keys.responderToInitiator) {ends : Ends β}
    (h : (recordSystem cipher keys).Reachable ends) :
    (∀ role : Role, acceptedPlaintexts (ends.history role) <+:
      (sealedRecords (ends.history role.other)).map SealedRecord.plaintext) ∧
    (keysAndNonces ends).Nodup := by
  have hinv := endsInvariant_of_reachable hkeys h
  constructor
  · intro role
    obtain ⟨session, hother⟩ := hinv.end_ role.other
    have hprefix : acceptedPlaintexts (ends.history role) <+:
        ((sealedRecords (ends.history role.other)).map
          fun record => (record.sequence, record.plaintext)).map Prod.snd := by
      refine prefix_of_numbered ?_ ?_
      · rw [List.pairwise_map]
        exact hother.increasing
      · intro i plaintext hi
        obtain ⟨record, hmem, hseq, hplain⟩ := hinv.accounted role i plaintext hi
        exact List.mem_map.mpr ⟨record, hmem, by rw [hseq, hplain]⟩
    rwa [List.map_map] at hprefix
  · obtain ⟨session, hi⟩ := hinv.end_ .initiator
    obtain ⟨session', hr⟩ := hinv.end_ .responder
    rw [keysAndNonces, List.map_append]
    refine List.nodup_append.mpr ⟨hi.nodup_nonces, hr.nodup_nonces, ?_⟩
    intro x hx y hy hxy
    obtain ⟨record, hmem, rfl⟩ := List.mem_map.mp hx
    obtain ⟨record', hmem', rfl⟩ := List.mem_map.mp hy
    have hkey : record.key = record'.key := congrArg Prod.fst hxy
    rw [(hi.used record hmem).1, (hr.used record' hmem').1] at hkey
    exact hkeys hkey

/-! ### A run of the first record -/

namespace FirstRecord

/-- A cipher over numbers as keys that opens one record only. -/
def cipher : Aead ℕ (List UInt8) where
  encrypt _ _ _ plaintext := .ok (List.replicate 16 0 ++ plaintext)
  decrypt key nonce _ ciphertext :=
    if key = 1 ∧ nonce = makeNonce 0 ∧ ciphertext = List.replicate 16 0 ++ CLIENT_FINISH then
      .ok CLIENT_FINISH
    else .error .encryption

def keys : SessionKeys ℕ := ⟨1, 2⟩

/-- The ends as the handshake leaves them. -/
def start : Ends ℕ where
  state role :=
    ⟨⟨some ⟨⟨MIN_DEVICE_ID, DeviceId.first_inRange⟩, 0, 0, role.channel keys⟩, false⟩, none⟩
  history _ := []

/-- The state after a call. -/
def after (ends : Ends ℕ) (role : Role) (c : Call) : Ends ℕ where
  state := Function.update ends.state role ((ends.state role).call cipher c).state
  history := Function.update ends.history role
    (ends.history role ++ ((ends.state role).call cipher c).events)

/-- The record of the initiator's Finished message on the wire. -/
def wire : List UInt8 :=
  beBytes 4 56 ++ beBytes 2 2 ++ [3] ++ beBytes 4 49 ++ beBytes 8 0 ++ List.replicate 16 0 ++
    CLIENT_FINISH

def sent : Ends ℕ := after start .initiator (.sendBytes CLIENT_FINISH true)
def received : Ends ℕ := after sent .responder (.receiveBytes wire)

theorem sent_history : sealedRecords (sent.history .initiator) =
    [⟨1, 0, CLIENT_FINISH, List.replicate 16 0 ++ CLIENT_FINISH⟩] := by
  rfl

theorem reachable_received : (recordSystem cipher keys).Reachable received := by
  have hstart : (recordSystem cipher keys).Reachable start :=
    .init fun role => ⟨rfl, _, rfl, rfl⟩
  have hnothing : Unforgeable cipher keys start.history [] := by
    intro role nonce ciphertext plaintext hinput hopen
    obtain rfl := List.eq_nil_of_infix_nil hinput
    simp [cipher] at hopen
  have hsent : Unforgeable cipher keys sent.history wire := by
    intro role nonce ciphertext plaintext _ hopen
    simp only [cipher] at hopen
    split at hopen
    · rename_i h
      obtain ⟨hkey, rfl, rfl⟩ := h
      obtain rfl := Except.ok.inj hopen
      refine ⟨.initiator, ⟨1, 0, CLIENT_FINISH, List.replicate 16 0 ++ CLIENT_FINISH⟩, ?_,
        hkey.symm, rfl, rfl, rfl⟩
      rw [sent_history]
      exact List.mem_singleton_self _
    · cases hopen
  have hsend : (recordSystem cipher keys).step start
      (.initiator, .sendBytes CLIENT_FINISH true) sent := ⟨hnothing, rfl⟩
  have hreceive : (recordSystem cipher keys).step sent (.responder, .receiveBytes wire) received :=
    ⟨hsent, rfl⟩
  exact (hstart.step hsend).step hreceive

/-- A run in which a record is sealed, sent and accepted. -/
theorem integrity_of_received :
    acceptedPlaintexts (received.history .responder) = [CLIENT_FINISH] ∧
      (∀ role : Role, acceptedPlaintexts (received.history role) <+:
        (sealedRecords (received.history role.other)).map SealedRecord.plaintext) ∧
      (keysAndNonces received).Nodup :=
  ⟨by decide, record_stream_integrity (by decide) reachable_received⟩

end FirstRecord

end SensorRemote
