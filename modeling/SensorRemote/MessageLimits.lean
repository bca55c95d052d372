import SensorRemote.Framing
import SensorRemote.RecordStream
import Mathlib.Logic.Function.Basic

/-!
# The size limits of the two ends

A typed message passes four limits on its way: that of `Frame::new`, that of `send_bytes`, that
of the outer frame and that of the reader. Two connections of one session, with a network that
loses nothing, form a link; over every run of it, what `send` takes the peer's `receive` returns,
and what `send` finds too large leaves no trace.
-/

namespace SensorRemote

open Bytes Transition

variable {β : Type}

/-! ## What is relied on -/

/-- An authenticated cipher with a tag of 16 bytes. -/
structure Aead.Honest (cipher : Aead β (List UInt8)) : Prop where
  encrypts : ∀ key nonce aad plaintext, plaintext.length ≤ MAX_FRAME_SIZE →
    ∃ ciphertext, cipher.encrypt key nonce aad plaintext = .ok ciphertext
  tagged : ∀ key nonce aad plaintext ciphertext,
    cipher.encrypt key nonce aad plaintext = .ok ciphertext →
      ciphertext.length = plaintext.length + 16
  decrypts : ∀ key nonce aad plaintext ciphertext,
    cipher.encrypt key nonce aad plaintext = .ok ciphertext →
      cipher.decrypt key nonce aad ciphertext = .ok plaintext

/-- A message of a type that the serializer takes and gives back. -/
structure Sendable where
  {T : Type}
  codec : Postcard T
  message : T
  /-- the serialized message -/
  payload : List UInt8
  serialized : codec.toAllocvec message = .ok payload
  roundTrip : codec.takeFromBytes payload = .ok (message, [])

/-! ## The layers of a message -/

/-- The inner frame of a message. -/
def Sendable.frame (m : Sendable) : Frame := ⟨PROTOCOL_VERSION, .control, m.payload⟩

/-- The outer frame of a record. -/
def recordFrame (sequence : ℕ) (ciphertext : List UInt8) : Frame :=
  ⟨PROTOCOL_VERSION, .control, beBytes 8 sequence ++ ciphertext⟩

/-- A message fits if its inner frame does under the limit of `send_bytes`. -/
def Sendable.Fits (m : Sendable) : Prop := m.frame.bytes.length ≤ MAX_FRAME_SIZE - 64

theorem encodable_iff {frame : Frame} (hversion : frame.version = PROTOCOL_VERSION) :
    Encodable frame ↔ frame.bytes.length ≤ MAX_FRAME_SIZE := by
  rw [Frame.length_bytes]
  constructor
  · rintro ⟨bytes, hbytes⟩
    have hlength := (Frame.encode_eq_ok.mp hbytes).2.1
    simp only [MAX_FRAME_SIZE, HEADER_SIZE] at hlength ⊢
    omega
  · intro hlength
    refine ⟨frame.bytes, Frame.encode_eq_ok.mpr ⟨hversion, ?_, rfl⟩⟩
    simp only [MAX_FRAME_SIZE, HEADER_SIZE] at hlength ⊢
    omega

theorem length_recordFrame (sequence : ℕ) (ciphertext : List UInt8) :
    (recordFrame sequence ciphertext).bytes.length = HEADER_SIZE + 8 + ciphertext.length := by
  rw [Frame.length_bytes]
  simp [recordFrame]
  omega

/-- The plaintext a message makes, if `Frame::new` takes it. -/
theorem controlFrame_sendable (m : Sendable) :
    controlFrame m.codec m.message =
      if m.payload.length > MAX_FRAME_SIZE - HEADER_SIZE then .error .frameTooLarge
      else .ok m.frame.bytes := by
  simp only [controlFrame, Frame.new, m.serialized, bind, Except.bind, throw, throwThe,
    MonadExceptOf.throw, pure, Except.pure]
  split_ifs with hlarge
  · rfl
  · exact Frame.encode_eq_ok.mpr ⟨rfl, Nat.not_lt.mp hlarge, rfl⟩

/-- What fits is decoded to the message. -/
theorem decodeControl_sendable {m : Sendable} (hfits : m.Fits) :
    decodeControl m.codec m.frame.bytes = .ok m.message := by
  have hencodable : Encodable m.frame :=
    (encodable_iff rfl).mpr (Nat.le_trans hfits (Nat.sub_le _ _))
  have hdecode : Frame.decode m.frame.bytes = .ok m.frame :=
    Frame.decode_iff_encode.mpr hencodable.encode
  have hpayload : m.frame.decodePayload m.codec = .ok m.message := by
    simp only [Frame.decodePayload, Sendable.frame, m.roundTrip, bind, Except.bind]
    rfl
  simp only [decodeControl, hdecode, liftProtocol, Except.mapError, hpayload, bind, Except.bind]
  rfl

/-- A frame is read off the bytes it was written to. -/
theorem readFrame_wire {frame : Frame} (h : Encodable frame) (rest : List UInt8) :
    readFrame MAX_FRAME_SIZE (wire frame ++ rest) = .ok (frame, rest) := by
  have hlong : ¬(wire frame ++ rest).length < 4 := by
    rw [List.length_append, length_wire, LENGTH_PREFIX_SIZE]
    omega
  have hlength : beNat ((wire frame ++ rest).take 4) = frame.bytes.length :=
    h.beNat_take (List.prefix_refl _) (Nat.not_lt.mp hlong)
  have hrest : (wire frame ++ rest).drop 4 = frame.bytes ++ rest := by
    simp [wire]
  have hmax : ¬frame.bytes.length > MAX_FRAME_SIZE := Nat.not_lt.mpr h.length_le
  have henough : ¬(frame.bytes ++ rest).length < frame.bytes.length := by simp
  simp only [readFrame, if_neg hlong, hlength, hrest, if_neg hmax, if_neg henough, List.take_left,
    List.drop_left, Frame.decode_iff_encode.mpr h.encode, liftProtocol, Except.mapError, bind,
    Except.bind, pure, Except.pure]

/-- And a record off its frame. -/
theorem readRecord_wire {sequence : ℕ} {ciphertext : List UInt8} (hsequence : sequence < 2 ^ 64)
    (htag : 16 ≤ ciphertext.length) (hmax : HEADER_SIZE + 8 + ciphertext.length ≤ MAX_FRAME_SIZE)
    (rest : List UInt8) :
    readRecord (wire (recordFrame sequence ciphertext) ++ rest) = .ok ⟨sequence, ciphertext⟩ := by
  have hencodable : Encodable (recordFrame sequence ciphertext) := by
    rw [encodable_iff rfl, length_recordFrame]
    exact hmax
  have hcontrol : ¬((recordFrame sequence ciphertext).messageType ≠ .control
      ∨ (recordFrame sequence ciphertext).payload.length < 24) := by
    simp [recordFrame]
    omega
  simp only [readRecord, readFrame_wire hencodable, if_neg hcontrol, bind, Except.bind, pure,
    Except.pure]
  simp [recordFrame, beNat_beBytes (show sequence < 256 ^ 8 by omega)]

/-! ## One call -/

section Calls

variable {cipher : Aead β (List UInt8)}

/-- The outer frame of a message that fits is within the limit of frames. -/
theorem encodable_recordFrame (hcipher : cipher.Honest) {m : Sendable} (hfits : m.Fits)
    {key : β} {nonce aad ciphertext : List UInt8}
    (hencrypt : cipher.encrypt key nonce aad m.frame.bytes = .ok ciphertext) (sequence : ℕ) :
    Encodable (recordFrame sequence ciphertext) := by
  rw [encodable_iff rfl, length_recordFrame, hcipher.tagged _ _ _ _ _ hencrypt]
  rw [Sendable.Fits] at hfits
  simp only [MAX_FRAME_SIZE, HEADER_SIZE] at hfits ⊢
  omega

/-- **What `send` does with a message on an open connection**: it is too large and nothing
happens, the numbers are used up, or its record goes out. -/
theorem send_cases (hcipher : cipher.Honest) (session : SecureSession β) (m : Sendable) :
    (¬m.Fits ∧ (⟨some session, false⟩ : SecureConnection β).send cipher m.codec m.message true =
      ⟨⟨some session, false⟩, [], .error (.protocol .frameTooLarge)⟩) ∨
    (m.Fits ∧ 2 ^ 64 ≤ session.channel.nextSendSequence + 1 ∧
      (⟨some session, false⟩ : SecureConnection β).send cipher m.codec m.message true =
        ⟨⟨some session, true⟩, [], .error (.session (.crypto .sequenceOverflow))⟩) ∨
    (m.Fits ∧ session.channel.nextSendSequence + 1 < 2 ^ 64 ∧ ∃ ciphertext,
      cipher.encrypt session.channel.send (makeNonce session.channel.nextSendSequence) AAD
        m.frame.bytes = .ok ciphertext ∧
      (⟨some session, false⟩ : SecureConnection β).send cipher m.codec m.message true =
        ⟨⟨some session.afterSeal, false⟩,
          [.sealed ⟨session.channel.send, session.channel.nextSendSequence, m.frame.bytes,
            ciphertext⟩],
          .ok (wire (recordFrame session.channel.nextSendSequence ciphertext))⟩) := by
  have hframe : m.frame.bytes.length = HEADER_SIZE + m.payload.length := Frame.length_bytes _
  by_cases hlarge : m.payload.length > MAX_FRAME_SIZE - HEADER_SIZE
  · -- too large for `Frame::new`
    refine .inl ⟨?_, ?_⟩
    · rw [Sendable.Fits, hframe]
      simp only [MAX_FRAME_SIZE, HEADER_SIZE] at hlarge ⊢
      omega
    · simp only [SecureConnection.send, controlFrame_sendable, if_pos hlarge]
  by_cases hfits : m.Fits
  · have hnot : ¬m.frame.bytes.length > MAX_FRAME_SIZE - 64 := Nat.not_lt.mpr hfits
    -- the one error of a message that fits is the end of the numbers
    rcases hnext : checkedAdd 64 session.channel.nextSendSequence 1 with _ | next
    · refine .inr (.inl ⟨hfits, checkedAdd_eq_none.mp hnext, ?_⟩)
      simp only [SecureConnection.send, controlFrame_sendable, if_neg hlarge,
        SecureConnection.sendBytes, if_neg hnot, sealAndWrite, SecureSession.sealRecord,
        SecureChannel.sealRecord, hnext, liftCrypto, Except.mapError, SecureConnection.close]
      rfl
    · obtain ⟨hroom, rfl⟩ := checkedAdd_eq_some.mp hnext
      obtain ⟨ciphertext, hencrypt⟩ := hcipher.encrypts session.channel.send
        (makeNonce session.channel.nextSendSequence) AAD m.frame.bytes
        (Nat.le_trans hfits (Nat.sub_le _ _))
      have hencodable := encodable_recordFrame hcipher hfits hencrypt
      have hwrite : writeFrame (recordFrame session.channel.nextSendSequence ciphertext) true =
          .ok (wire (recordFrame session.channel.nextSendSequence ciphertext)) := by
        simp only [writeFrame, (hencodable _).encode, liftProtocol, Except.mapError, bind,
          Except.bind]
        rfl
      rw [recordFrame] at hwrite
      refine .inr (.inr ⟨hfits, hroom, ciphertext, hencrypt, ?_⟩)
      simp only [SecureConnection.send, controlFrame_sendable, if_neg hlarge,
        SecureConnection.sendBytes, if_neg hnot, sealAndWrite, SecureSession.sealRecord,
        SecureChannel.sealRecord, hnext, hencrypt, liftCrypto, Except.mapError, Except.map, hwrite]
      rfl
  · -- too large for `send_bytes`
    refine .inl ⟨hfits, ?_⟩
    simp only [SecureConnection.send, controlFrame_sendable, if_neg hlarge,
      SecureConnection.sendBytes, if_pos (Nat.not_le.mp hfits)]
    rfl

/-- **What `receive` does with the record that is due**: it takes it, and what the caller gets is
what its type makes of the plaintext. -/
theorem receive_due {T : Type} (codec : Postcard T) (hcipher : cipher.Honest)
    {session : SecureSession β} {sequence : ℕ} {plaintext ciphertext : List UInt8}
    (hdue : session.channel.expected = some sequence) (hsequence : sequence < 2 ^ 64)
    (hencrypt : cipher.encrypt session.channel.receive (makeNonce sequence) AAD plaintext =
      .ok ciphertext) (hlength : plaintext.length ≤ MAX_FRAME_SIZE - 64) (rest : List UInt8) :
    (⟨some session, false⟩ : SecureConnection β).receive cipher codec
        (wire (recordFrame sequence ciphertext) ++ rest) =
      match decodeControl codec plaintext with
      | .error e => ⟨⟨some (session.afterOpen sequence), true⟩, [.opened plaintext],
          .error e⟩
      | .ok message =>
        ⟨⟨some (session.afterOpen sequence), false⟩, [.opened plaintext], .ok message⟩ := by
  have htag := hcipher.tagged _ _ _ _ _ hencrypt
  have hmax : HEADER_SIZE + 8 + ciphertext.length ≤ MAX_FRAME_SIZE := by
    simp only [MAX_FRAME_SIZE, HEADER_SIZE] at hlength ⊢
    omega
  have hrecord := readRecord_wire hsequence (by omega) hmax rest
  have hdecrypt := hcipher.decrypts _ _ _ _ _ hencrypt
  simp only [SecureConnection.receive, SecureConnection.receiveBytes, hrecord, openAndReport,
    SecureSession.openRecord, SecureChannel.openRecord, hdue, hdecrypt, liftCrypto,
    Except.mapError]
  cases hdecoded : decodeControl codec plaintext <;>
    simp [bind, Except.bind, hdecoded, SecureConnection.close, SecureSession.afterOpen]

end Calls

/-! ## The link -/

/-- Two connections of a session, the bytes written by each end that the other has not read yet,
and the messages in them. -/
structure MessageLink (β : Type) where
  ends : Role → SecureConnection β
  unread : Role → List UInt8
  flight : Role → List Sendable

/-- A call on one end. -/
inductive LinkCall where
  | send (role : Role) (m : Sendable)
  /-- the caller wants a message of this type -/
  | receive (role : Role) {T : Type} (codec : Postcard T)

namespace MessageLink

variable (cipher : Aead β (List UInt8))

/-- The link after an end was asked to send a message. -/
def afterSend (s : MessageLink β) (role : Role) (m : Sendable) : MessageLink β :=
  let out := (s.ends role).send cipher m.codec m.message true
  match out.result with
  | .error _ => { s with ends := Function.update s.ends role out.state }
  | .ok bytes =>
    { ends := Function.update s.ends role out.state
      unread := Function.update s.unread role (s.unread role ++ bytes)
      flight := Function.update s.flight role (s.flight role ++ [m]) }

/-- The link after an end was asked for the next message of the other. -/
def afterReceive (s : MessageLink β) (role : Role) {T : Type} (codec : Postcard T) :
    MessageLink β :=
  let out := (s.ends role).receive cipher codec (s.unread role.other)
  if (s.ends role).closed then s
  else
    { ends := Function.update s.ends role out.state
      unread := Function.update s.unread role.other
        (match readFrame MAX_FRAME_SIZE (s.unread role.other) with
          | .ok (_, rest) => rest
          | .error _ => s.unread role.other)
      flight := Function.update s.flight role.other (s.flight role.other).tail }

end MessageLink

/-- The link of a session that was just established. A call of `receive` waits until there is
something to read. -/
def messageLink (cipher : Aead β (List UInt8)) : LTS (MessageLink β) LinkCall where
  init s := ∃ sessions : Role → SecureSession β,
    (∀ role, s.ends role = ⟨some (sessions role), false⟩ ∧
      s.unread role = [] ∧ s.flight role = []) ∧
    ∀ role, (sessions role).channel.send = (sessions role.other).channel.receive ∧
      (sessions role.other).channel.expected = some (sessions role).channel.nextSendSequence
  step s call s' :=
    match call with
    | .send role m => s' = s.afterSend cipher role m
    | .receive role codec => s.flight role.other ≠ [] ∧ s' = s.afterReceive cipher role codec

/-! ### What is under way -/

/-- Under way under a key, from one number to another, are these messages in these bytes. -/
inductive InTransit (cipher : Aead β (List UInt8)) (key : β) :
    ℕ → List Sendable → List UInt8 → ℕ → Prop where
  | nil (n : ℕ) : InTransit cipher key n [] [] n
  | cons {n n' : ℕ} {m : Sendable} {messages : List Sendable} {ciphertext bytes : List UInt8} :
      m.Fits → n + 1 < 2 ^ 64 →
      cipher.encrypt key (makeNonce n) AAD m.frame.bytes = .ok ciphertext →
      InTransit cipher key (n + 1) messages bytes n' →
      InTransit cipher key n (m :: messages) (wire (recordFrame n ciphertext) ++ bytes) n'

theorem InTransit.concat {cipher : Aead β (List UInt8)} {key : β} {n n' : ℕ}
    {messages : List Sendable} {bytes : List UInt8} (h : InTransit cipher key n messages bytes n')
    {m : Sendable} {ciphertext : List UInt8} (hfits : m.Fits) (hroom : n' + 1 < 2 ^ 64)
    (hencrypt : cipher.encrypt key (makeNonce n') AAD m.frame.bytes = .ok ciphertext) :
    InTransit cipher key n (messages ++ [m]) (bytes ++ wire (recordFrame n' ciphertext))
      (n' + 1) := by
  induction h with
  | nil n =>
    have hone := InTransit.cons hfits hroom hencrypt (.nil _)
    simpa using hone
  | cons hfirst hfirstRoom hfirstEncrypt _ ih =>
    rw [List.cons_append, List.append_assoc]
    exact .cons hfirst hfirstRoom hfirstEncrypt (ih hroom hencrypt)

theorem InTransit.next {cipher : Aead β (List UInt8)} {key : β} {n n' : ℕ} {m : Sendable}
    {messages : List Sendable} {bytes : List UInt8}
    (h : InTransit cipher key n (m :: messages) bytes n') : m.Fits ∧ n + 1 < 2 ^ 64 ∧
      ∃ ciphertext rest, cipher.encrypt key (makeNonce n) AAD m.frame.bytes = .ok ciphertext ∧
        bytes = wire (recordFrame n ciphertext) ++ rest ∧
        InTransit cipher key (n + 1) messages rest n' := by
  cases h with
  | cons hfits hroom hencrypt hrest => exact ⟨hfits, hroom, _, _, hencrypt, rfl, hrest⟩

/-- A direction of a link: the keys agree, and what is under way begins with the number the
reader expects and ends before the one the writer uses next. -/
def Direction (cipher : Aead β (List UInt8)) (writer reader : SecureSession β)
    (flight : List Sendable) (wire : List UInt8) : Prop :=
  writer.channel.send = reader.channel.receive ∧
    ∃ n, reader.channel.expected = some n ∧
      InTransit cipher writer.channel.send n flight wire writer.channel.nextSendSequence

/-- The invariant of a link. -/
def Linked (cipher : Aead β (List UInt8)) (s : MessageLink β) : Prop :=
  ∃ sessions : Role → SecureSession β, (∀ role, (s.ends role).session = some (sessions role)) ∧
    ∀ role, Direction cipher (sessions role) (sessions role.other) (s.flight role) (s.unread role)

namespace Linked

variable {cipher : Aead β (List UInt8)} {s : MessageLink β}

/-- A link, seen from one end. -/
theorem seen (h : Linked cipher s) (role : Role) : ∃ mine theirs : SecureSession β,
    (s.ends role).session = some mine ∧ (s.ends role.other).session = some theirs ∧
    Direction cipher mine theirs (s.flight role) (s.unread role) ∧
    Direction cipher theirs mine (s.flight role.other) (s.unread role.other) := by
  obtain ⟨sessions, hsessions, hdirections⟩ := h
  have hback := hdirections role.other
  rw [Role.other_other] at hback
  exact ⟨sessions role, sessions role.other, hsessions role, hsessions role.other,
    hdirections role, hback⟩

theorem of_seen (role : Role) {mine theirs : SecureSession β}
    (hmine : (s.ends role).session = some mine)
    (htheirs : (s.ends role.other).session = some theirs)
    (hout : Direction cipher mine theirs (s.flight role) (s.unread role))
    (hback : Direction cipher theirs mine (s.flight role.other) (s.unread role.other)) :
    Linked cipher s := by
  refine ⟨fun e => if e = role then mine else theirs, fun e => ?_, fun e => ?_⟩
  · rcases role.eq_or_eq_other e with rfl | rfl
    · simpa using hmine
    · simpa using htheirs
  · rcases role.eq_or_eq_other e with rfl | rfl
    · simpa using hout
    · simpa using hback

end Linked

namespace MessageLink

variable {cipher : Aead β (List UInt8)} {s : MessageLink β} {role : Role}

/-- A closed end sends nothing. -/
theorem afterSend_closed (hclosed : (s.ends role).closed = true) (m : Sendable) :
    s.afterSend cipher role m = s := by
  have hsend : ∃ e, (s.ends role).send cipher m.codec m.message true =
      ⟨s.ends role, [], .error e⟩ := by
    simp only [SecureConnection.send]
    split
    · exact ⟨_, rfl⟩
    · exact ⟨_, by rw [SecureConnection.sendBytes, if_pos hclosed]⟩
  obtain ⟨e, he⟩ := hsend
  simp only [afterSend, he, Function.update_eq_self]

theorem ends_of_open {session : SecureSession β} (hopen : (s.ends role).closed = false)
    (hsession : (s.ends role).session = some session) : s.ends role = ⟨some session, false⟩ := by
  rcases hends : s.ends role with ⟨session', closed⟩
  rw [hends] at hopen hsession
  simp_all

/-- **Sending keeps a link linked.** On an open end it has one of three outcomes. -/
theorem linked_afterSend (hcipher : cipher.Honest) (h : Linked cipher s) (role : Role)
    (m : Sendable) : Linked cipher (s.afterSend cipher role m) := by
  by_cases hclosed : (s.ends role).closed = true
  · rwa [afterSend_closed hclosed]
  obtain ⟨mine, theirs, hmine, htheirs, hout, hback⟩ := h.seen role
  have hends := ends_of_open (by simpa using hclosed) hmine
  rcases send_cases hcipher mine m with
    ⟨-, hsend⟩ | ⟨-, -, hsend⟩ | ⟨hfits, hroom, ciphertext, hencrypt, hsend⟩
  all_goals simp only [afterSend, hends, hsend]
  · refine Linked.of_seen role ?_ ?_ hout hback
    · simp
    · simpa using htheirs
  · refine Linked.of_seen role ?_ ?_ hout hback
    · simp
    · simpa using htheirs
  · obtain ⟨hkey, n, hdue, htransit⟩ := hout
    have hsent : Direction cipher mine.afterSeal theirs (s.flight role ++ [m])
        (s.unread role ++ wire (recordFrame mine.channel.nextSendSequence ciphertext)) :=
      ⟨hkey, n, hdue, htransit.concat hfits hroom hencrypt⟩
    have hsame : Direction cipher theirs mine.afterSeal (s.flight role.other)
        (s.unread role.other) := hback
    refine Linked.of_seen role ?_ ?_ (by simpa using hsent) (by simpa using hsame)
    · simp
    · simpa using htheirs

/-- **Receiving keeps a link linked.** On an open end the next message under way is taken, and
the caller gets what its type makes of it. -/
theorem receive_next (hcipher : cipher.Honest) (h : Linked cipher s)
    (hopen : (s.ends role).closed = false) {m : Sendable} {rest : List Sendable}
    (hflight : s.flight role.other = m :: rest) {T : Type} (codec : Postcard T) :
    m.Fits ∧ Linked cipher (s.afterReceive cipher role codec) ∧
      ∃ session : SecureSession β, (s.ends role).receive cipher codec (s.unread role.other) =
        match decodeControl codec m.frame.bytes with
        | .error e => ⟨⟨some session, true⟩, [.opened m.frame.bytes], .error e⟩
        | .ok message => ⟨⟨some session, false⟩, [.opened m.frame.bytes], .ok message⟩ := by
  obtain ⟨mine, theirs, hmine, htheirs, hout, hkey, n, hdue, htransit⟩ := h.seen role
  have hends := ends_of_open hopen hmine
  rw [hflight] at htransit
  obtain ⟨hfits, hroom, ciphertext, more, hencrypt, hunread, hmore⟩ := htransit.next
  have hencodable := encodable_recordFrame hcipher hfits hencrypt
  rw [hkey] at hencrypt
  have hreceive := receive_due codec hcipher hdue (Nat.lt_of_succ_lt hroom) hencrypt hfits more
  rw [← hunread, ← hends] at hreceive
  refine ⟨hfits, ?_, mine.afterOpen n, hreceive⟩
  have hrest : readFrame MAX_FRAME_SIZE (s.unread role.other) =
      .ok (recordFrame n ciphertext, more) := by
    rw [hunread, readFrame_wire (hencodable n)]
  have hsession : ((s.ends role).receive cipher codec (s.unread role.other)).state.session =
      some (mine.afterOpen n) := by
    rw [hreceive]
    split <;> rfl
  have hback : Direction cipher theirs (mine.afterOpen n) rest more :=
    ⟨hkey, n + 1, checkedAdd_eq_some.mpr ⟨hroom, rfl⟩, hmore⟩
  simp only [afterReceive, hopen, Bool.false_eq_true, if_false, hrest]
  have hsame : Direction cipher (mine.afterOpen n) theirs (s.flight role) (s.unread role) := hout
  refine Linked.of_seen role ?_ ?_ ?_ (by simpa [hflight] using hback)
  · simpa using hsession
  · simpa using htheirs
  · simpa [Function.update_of_ne (Role.other_ne role).symm] using hsame

/-- The ends of a link stay linked. -/
theorem linked_of_reachable (hcipher : cipher.Honest) (h : (messageLink cipher).Reachable s) :
    Linked cipher s := by
  refine h.invariant ?_ ?_
  · rintro s ⟨sessions, hends, hkeys⟩
    refine ⟨sessions, fun role => by rw [(hends role).1], fun role => ?_⟩
    rw [(hends role).2.1, (hends role).2.2]
    exact ⟨(hkeys role).1, _, (hkeys role).2, .nil _⟩
  · rintro s call s' hlinked hstep
    cases call with
    | send role m =>
      obtain rfl := hstep
      exact linked_afterSend hcipher hlinked role m
    | receive role codec =>
      obtain ⟨hwaiting, rfl⟩ := hstep
      by_cases hclosed : (s.ends role).closed = true
      · rw [afterReceive, if_pos hclosed]
        exact hlinked
      · rcases hflight : s.flight role.other with _ | ⟨m, rest⟩
        · exact absurd hflight hwaiting
        · exact (receive_next hcipher hlinked (by simpa using hclosed) hflight codec).2.1

end MessageLink

/-- **The limits of the two ends agree.** On a link, an open end either sends a message, which
is then under way; or finds it too large, which leaves the link as it was; or has used up its
numbers and closes without writing. And what is next under way to an open end, a receive of its
type returns. -/
theorem message_limits_agree {cipher : Aead β (List UInt8)} (hcipher : cipher.Honest)
    {s : MessageLink β} (h : (messageLink cipher).Reachable s) (role : Role)
    (hopen : (s.ends role).closed = false) :
    (∀ m : Sendable,
      let out := (s.ends role).send cipher m.codec m.message true
      let s' := s.afterSend cipher role m
      (∃ bytes, out.result = .ok bytes ∧ (s'.ends role).closed = false ∧
        s'.flight role = s.flight role ++ [m]) ∨
      (out.result = .error (.protocol .frameTooLarge) ∧ out.events = [] ∧ s' = s) ∨
      (∃ session, (s.ends role).session = some session ∧
        2 ^ 64 ≤ session.channel.nextSendSequence + 1 ∧
        out.result = .error (.session (.crypto .sequenceOverflow)) ∧ out.events = [] ∧
        s' = { s with ends := Function.update s.ends role (s.ends role).close })) ∧
    ∀ (m : Sendable) (rest : List Sendable), s.flight role.other = m :: rest →
      let out := (s.ends role).receive cipher m.codec (s.unread role.other)
      let s' := s.afterReceive cipher role m.codec
      out.result = .ok m.message ∧ (s'.ends role).closed = false ∧ s'.flight role.other = rest := by
  have hlinked := MessageLink.linked_of_reachable hcipher h
  refine ⟨fun m => ?_, fun m rest hflight => ?_⟩
  · obtain ⟨mine, theirs, hmine, -⟩ := hlinked.seen role
    have hends := MessageLink.ends_of_open hopen hmine
    rcases send_cases hcipher mine m with
      ⟨-, hsend⟩ | ⟨-, hused, hsend⟩ | ⟨-, -, ciphertext, -, hsend⟩
    · refine .inr (.inl ?_)
      simp only [MessageLink.afterSend, hends, hsend, true_and]
      rw [← hends, Function.update_eq_self]
    · refine .inr (.inr ⟨mine, hmine, hused, ?_⟩)
      simp only [MessageLink.afterSend, hends, hsend, true_and, SecureConnection.close]
    · refine .inl ⟨wire (recordFrame mine.channel.nextSendSequence ciphertext), ?_⟩
      simp only [MessageLink.afterSend, hends, hsend, Function.update_self, and_self]
  · obtain ⟨hfits, -, session, hreceive⟩ :=
      MessageLink.receive_next hcipher hlinked hopen hflight m.codec
    rw [decodeControl_sendable hfits] at hreceive
    simp only [MessageLink.afterReceive, hopen, hreceive, Bool.false_eq_true, if_false,
      Function.update_self, hflight, List.tail_cons, and_self]

namespace UnitLink

/-- A cipher that appends an empty tag, and a message without contents. -/
def cipher : Aead Unit (List UInt8) where
  encrypt _ _ _ plaintext := .ok (plaintext ++ List.replicate 16 0)
  decrypt _ _ _ ciphertext := .ok (ciphertext.take (ciphertext.length - 16))

theorem honest : cipher.Honest where
  encrypts _ _ _ plaintext _ := ⟨_, rfl⟩
  tagged _ _ _ plaintext ciphertext h := by
    obtain rfl := Except.ok.inj h
    simp
  decrypts _ _ _ plaintext ciphertext h := by
    obtain rfl := Except.ok.inj h
    simp [cipher]

def codec : Postcard Unit where
  toAllocvec _ := .ok []
  takeFromBytes bytes := .ok ((), bytes)

def message : Sendable := ⟨codec, (), [], rfl, rfl⟩

/-- A session after this many records and one more in each direction, and the link of two. -/
def sessionAt (records : ℕ) : SecureSession Unit :=
  ⟨⟨MIN_DEVICE_ID, DeviceId.first_inRange⟩, (), (), ⟨(), (), records + 1, some records⟩⟩

def linkAt (records : ℕ) : MessageLink Unit where
  ends _ := ⟨some (sessionAt records), false⟩
  unread _ := []
  flight _ := []

theorem reachable_linkAt {records : ℕ} (h : records + 1 < 2 ^ 64) :
    (messageLink cipher).Reachable (linkAt records) :=
  .init ⟨fun _ => sessionAt records, fun _ => ⟨rfl, rfl, rfl⟩,
    fun _ => ⟨rfl, checkedAdd_eq_some.mpr ⟨h, rfl⟩⟩⟩

/-- With the numbers used up, a message that fits is neither sent nor found too large. -/
theorem numbers_used_up :
    (messageLink cipher).Reachable (linkAt (2 ^ 64 - 2)) ∧
    ((linkAt (2 ^ 64 - 2)).ends .initiator).closed = false ∧
    let out := ((linkAt (2 ^ 64 - 2)).ends .initiator).send cipher codec () true
    ¬((∃ bytes, out.result = .ok bytes) ∨ out.result = .error (.protocol .frameTooLarge)) := by
  refine ⟨reachable_linkAt (by decide), rfl, ?_⟩
  have hfits : message.Fits := show message.frame.bytes.length ≤ MAX_FRAME_SIZE - 64 by decide
  rcases send_cases honest (sessionAt (2 ^ 64 - 2)) message with
    ⟨hlarge, -⟩ | ⟨-, -, hsend⟩ | ⟨-, hroom, -⟩
  · exact absurd hfits hlarge
  · have hresult : (((linkAt (2 ^ 64 - 2)).ends .initiator).send cipher codec () true).result =
        .error (.session (.crypto .sequenceOverflow)) := congrArg Outcome.result hsend
    simp only [hresult, reduceCtorEq, exists_false, Except.error.injEq, or_self, not_false_eq_true]
  · exact absurd hroom (by decide)

/-- Messages of one byte, and of many. -/
def bit : Postcard Bool where
  toAllocvec b := .ok [if b then 1 else 0]
  takeFromBytes bytes := .ok (bytes = [1], [])

def digit (b : Bool) : Sendable :=
  ⟨bit, b, [if b then 1 else 0], rfl, by cases b <;> rfl⟩

def zeros (n : ℕ) : Sendable :=
  ⟨⟨fun _ => .ok (List.replicate n 0), fun _ => .ok ((), [])⟩, (), List.replicate n 0, rfl, rfl⟩

theorem zeros_too_large {n : ℕ} (h : MAX_FRAME_SIZE ≤ n) : ¬(zeros n).Fits := by
  rw [Sendable.Fits, Frame.length_bytes]
  simp only [Sendable.frame, zeros, List.length_replicate, MAX_FRAME_SIZE, HEADER_SIZE] at h ⊢
  omega

/-- The one end sends a digit, then a message, and then another digit. -/
def afterFirst : MessageLink Unit := (linkAt 0).afterSend cipher .initiator (digit true)
def afterBoth (m : Sendable) : MessageLink Unit :=
  (afterFirst.afterSend cipher .initiator m).afterSend cipher .initiator (digit false)

theorem too_large {m : Sendable} (h : ¬m.Fits) :
    ((afterFirst.ends .initiator).send cipher m.codec m.message true).result =
      .error (.protocol .frameTooLarge) := by
  have hends : afterFirst.ends .initiator = ⟨some (sessionAt 0).afterSeal, false⟩ := rfl
  rw [hends]
  rcases send_cases honest (sessionAt 0).afterSeal m with ⟨-, hsend⟩ | ⟨hfits, -⟩ | ⟨hfits, -⟩
  · rw [hsend]
  · exact absurd hfits h
  · exact absurd hfits h

/-- The digits arrive one after the other, as if there had been nothing too large between them. -/
theorem both_received : ∃ m : Sendable, ¬m.Fits ∧
    afterFirst.afterSend cipher .initiator m = afterFirst ∧
    (((afterBoth m).ends .responder).receive cipher bit
      ((afterBoth m).unread .initiator)).result = .ok true ∧
    let heard := (afterBoth m).afterReceive cipher .responder bit
    ((heard.ends .responder).receive cipher bit (heard.unread .initiator)).result =
      .ok false := by
  obtain ⟨m, hlarge⟩ : ∃ m : Sendable, ¬m.Fits :=
    ⟨zeros MAX_FRAME_SIZE, zeros_too_large (Nat.le_refl _)⟩
  have hfirst : (messageLink cipher).Reachable afterFirst :=
    (reachable_linkAt (by decide)).step (l := .send .initiator (digit true)) rfl
  have hpassed : (messageLink cipher).Reachable (afterFirst.afterSend cipher .initiator m) :=
    hfirst.step (l := .send .initiator m) rfl
  have hboth : (messageLink cipher).Reachable (afterBoth m) :=
    hpassed.step (l := .send .initiator (digit false)) rfl
  have hsame : afterFirst.afterSend cipher .initiator m = afterFirst := by
    rcases (message_limits_agree honest hfirst .initiator rfl).1 m with
      ⟨bytes, hok, -⟩ | ⟨-, -, hsame⟩ | ⟨_, _, _, hused, -⟩
    · rw [too_large hlarge] at hok
      cases hok
    · exact hsame
    · rw [too_large hlarge] at hused
      cases hused
  have hafter : afterBoth m = afterFirst.afterSend cipher .initiator (digit false) := by
    rw [afterBoth, hsame]
  have hopen : ((afterBoth m).ends .responder).closed = false := by
    rw [hafter]
    rfl
  have hflight : (afterBoth m).flight .initiator = [digit true, digit false] := by
    rw [hafter]
    rfl
  obtain ⟨hresult, hstays, hrest⟩ :=
    (message_limits_agree honest hboth .responder hopen).2 (digit true) [digit false] hflight
  have hheard : (messageLink cipher).Reachable
      ((afterBoth m).afterReceive cipher .responder bit) := by
    refine hboth.step (l := .receive .responder bit) ⟨?_, rfl⟩
    exact hflight ▸ List.cons_ne_nil _ _
  refine ⟨m, hlarge, hsame, hresult, ?_⟩
  exact ((message_limits_agree honest hheard .responder hstays).2 (digit false) [] hrest).1

end UnitLink

end SensorRemote
