import SensorRemote.Protocol

/-!
# Length-delimited framing

`encode_length_delimited` and `decode_next` (`sensor-transport`): frames are put on a stream one
after another, and taken off a buffer that fills in pieces of any size. A call of `decode_next` is a
function of the buffer, to its result and the buffer afterwards.

The reader's loop is a run over the pieces that arrive. Its invariant is that what was decoded and
what is still in the buffer are together what arrived, so that the frames do not depend on where the
stream was cut.
-/

namespace SensorRemote

open Bytes

/-- `TransportError`. -/
inductive TransportError where
  | protocol (error : ProtocolError)
  | frameTooLarge
  deriving DecidableEq, Repr

def LENGTH_PREFIX_SIZE : ℕ := 4

/-- `encode_length_delimited`. -/
def encodeLengthDelimited (frame : Frame) : Except TransportError (List UInt8) := do
  let payload ← frame.encode.mapError .protocol
  if payload.length > MAX_FRAME_SIZE then throw .frameTooLarge
  if payload.length ≥ 2 ^ 32 then throw .frameTooLarge
  return beBytes 4 payload.length ++ payload

/-- `decode_next`: the result and the buffer afterwards. -/
def decodeNext (buffer : List UInt8) : Except TransportError (Option Frame) × List UInt8 :=
  if buffer.length < LENGTH_PREFIX_SIZE then (.ok none, buffer)
  else
    let length := beNat (buffer.take LENGTH_PREFIX_SIZE)
    if length > MAX_FRAME_SIZE then (.error .frameTooLarge, buffer)
    else if buffer.length < LENGTH_PREFIX_SIZE + length then (.ok none, buffer)
    else
      match Frame.decode ((buffer.drop LENGTH_PREFIX_SIZE).take length) with
      | .error e => (.error (.protocol e), buffer)
      | .ok frame => (.ok (some frame), buffer.drop (LENGTH_PREFIX_SIZE + length))

/-! ## One frame -/

namespace Frame

/-- The bytes of a frame that `encode` accepts. -/
def bytes (frame : Frame) : List UInt8 :=
  beBytes 2 frame.version ++ [frame.messageType.toByte] ++ beBytes 4 frame.payload.length ++
    frame.payload

theorem encode_eq_ok {frame : Frame} {bytes : List UInt8} :
    frame.encode = .ok bytes ↔ frame.version = PROTOCOL_VERSION ∧
      frame.payload.length ≤ MAX_FRAME_SIZE - HEADER_SIZE ∧ bytes = frame.bytes := by
  by_cases hversion : frame.version = PROTOCOL_VERSION
  · by_cases hlength : frame.payload.length > MAX_FRAME_SIZE - HEADER_SIZE
    · refine iff_of_false ?_ fun h => absurd h.2.1 (Nat.not_le.mpr hlength)
      simp [encode, hversion, hlength, bind, Except.bind, throw, throwThe, MonadExceptOf.throw]
    · simp [encode, Frame.bytes, hversion, hlength, pure, Except.pure, eq_comm,
        Nat.not_lt.mp hlength]
  · simp [encode, hversion, bind, Except.bind, throw, throwThe, MonadExceptOf.throw]

theorem length_bytes (frame : Frame) : frame.bytes.length = HEADER_SIZE + frame.payload.length := by
  simp [Frame.bytes, HEADER_SIZE]
  omega

theorem decode_eq_ok {bytes : List UInt8} {frame : Frame} :
    decode bytes = .ok frame ↔ bytes.length ≤ MAX_FRAME_SIZE ∧ HEADER_SIZE ≤ bytes.length ∧
      beNat (bytes.take 2) = PROTOCOL_VERSION ∧
      beNat ((bytes.drop 3).take 4) = bytes.length - HEADER_SIZE ∧
      MessageType.ofByte (bytes.getD 2 0) = .ok frame.messageType ∧
      frame.version = PROTOCOL_VERSION ∧ frame.payload = bytes.drop HEADER_SIZE := by
  constructor
  · intro h
    simp only [decode, bind, Except.bind, pure, Except.pure, throw, throwThe,
      MonadExceptOf.throw] at h
    split at h
    · cases h
    split at h
    · cases h
    split at h
    · cases h
    split at h
    · cases h
    split at h
    · cases h
    rename_i hmax hmin hversion hlength _ type htype
    obtain rfl := Except.ok.inj h
    have hversion := not_not.mp hversion
    exact ⟨by omega, by omega, hversion, not_not.mp hlength, htype, hversion, rfl⟩
  · rintro ⟨hmax, hmin, hversion, hlength, htype, hframe, hpayload⟩
    obtain ⟨version, type, payload⟩ := frame
    obtain rfl : version = PROTOCOL_VERSION := hframe
    obtain rfl : payload = bytes.drop HEADER_SIZE := hpayload
    rw [List.getD_eq_getElem?_getD] at htype
    simp [decode, Nat.not_lt.mpr hmax, Nat.not_lt.mpr hmin, hversion, hlength, htype, pure,
      Except.pure, bind, Except.bind]

/-- The first two bytes of a frame, its third, the next four and the rest. -/
theorem split_header {bytes : List UInt8} (h : HEADER_SIZE ≤ bytes.length) :
    bytes = bytes.take 2 ++ [bytes.getD 2 0] ++ (bytes.drop 3).take 4 ++
    bytes.drop HEADER_SIZE := by
  match bytes, h with
  | b₀ :: b₁ :: b₂ :: b₃ :: b₄ :: b₅ :: b₆ :: rest, _ => rfl

/-- **The codec of frames.** `decode` accepts exactly what `encode` makes, and returns the frame
it was made of. -/
theorem decode_iff_encode {bytes : List UInt8} {frame : Frame} :
    decode bytes = .ok frame ↔ frame.encode = .ok bytes := by
  rw [decode_eq_ok, encode_eq_ok]
  constructor
  · rintro ⟨hmax, hmin, hversion, hlength, htype, hframe, hpayload⟩
    have hlen : frame.payload.length = bytes.length - HEADER_SIZE := by
      rw [hpayload, List.length_drop]
    -- the fields of the header are the bytes they were read from
    have htake : beBytes 2 frame.version = bytes.take 2 := by
      have hback := beBytes_beNat (bytes.take 2)
      rw [hversion, ← hframe, List.length_take,
        Nat.min_eq_left (by simp only [HEADER_SIZE] at hmin; omega)] at hback
      exact hback
    have hfour : beBytes 4 frame.payload.length = (bytes.drop 3).take 4 := by
      have hback := beBytes_beNat ((bytes.drop 3).take 4)
      rw [hlength, ← hlen, List.length_take, List.length_drop,
        Nat.min_eq_left (by simp only [HEADER_SIZE] at hmin; omega)] at hback
      exact hback
    refine ⟨hframe, by omega, ?_⟩
    rw [Frame.bytes, htake, hfour, MessageType.toByte_of_ofByte htype, hpayload]
    exact split_header hmin
  · rintro ⟨hversion, hlength, rfl⟩
    -- the payload's length fits its field, so it is read back as it was written
    have hsmall : frame.payload.length < 256 ^ 4 := by
      simp only [MAX_FRAME_SIZE, HEADER_SIZE] at hlength
      omega
    have htwo : (beBytes 2 frame.version).length = 2 := length_beBytes _ _
    have hfour : (beBytes 4 frame.payload.length).length = 4 := length_beBytes _ _
    obtain ⟨v₀, v₁, hv⟩ := List.length_eq_two.mp htwo
    have hbytes : frame.bytes = v₀ :: v₁ :: frame.messageType.toByte ::
        (beBytes 4 frame.payload.length ++ frame.payload) := by
      simp [Frame.bytes, hv]
    refine ⟨?_, ?_, ?_, ?_, ?_, hversion, ?_⟩
    · rw [length_bytes]
      simp only [MAX_FRAME_SIZE, HEADER_SIZE] at hlength ⊢
      omega
    · rw [length_bytes]
      omega
    · have hnat : beNat (beBytes 2 frame.version) = PROTOCOL_VERSION := by
        rw [hversion]
        exact beNat_beBytes (by decide)
      rw [hv] at hnat
      rw [hbytes]
      exact hnat
    · rw [length_bytes, hbytes, Nat.add_sub_cancel_left]
      simp [hfour, beNat_beBytes hsmall]
    · rw [hbytes]
      exact MessageType.ofByte_toByte _
    · rw [hbytes]
      simp [HEADER_SIZE, hfour]

end Frame

/-! ## One frame on the stream -/

/-- A frame on the stream. -/
def wire (frame : Frame) : List UInt8 := beBytes 4 frame.bytes.length ++ frame.bytes

/-- A frame that `encode` accepts. -/
def Encodable (frame : Frame) : Prop := ∃ bytes, frame.encode = .ok bytes

variable {frame : Frame} {frames : List Frame} {buffer rest : List UInt8}

theorem Encodable.encode (h : Encodable frame) : frame.encode = .ok frame.bytes := by
  obtain ⟨bytes, hbytes⟩ := h
  rw [hbytes, (Frame.encode_eq_ok.mp hbytes).2.2]

theorem Encodable.length_le (h : Encodable frame) : frame.bytes.length ≤ MAX_FRAME_SIZE :=
  (Frame.decode_eq_ok.mp (Frame.decode_iff_encode.mpr h.encode)).1

/-- What `encode` accepts can be put on the stream. -/
theorem Encodable.encodeLengthDelimited (h : Encodable frame) :
    encodeLengthDelimited frame = .ok (wire frame) := by
  have hmax := h.length_le
  have hfits : ¬frame.bytes.length ≥ 2 ^ 32 := by
    simp only [MAX_FRAME_SIZE] at hmax
    omega
  have hlength : ¬frame.bytes.length > MAX_FRAME_SIZE := Nat.not_lt.mpr hmax
  simp only [SensorRemote.encodeLengthDelimited, h.encode, Except.mapError, if_neg hlength,
    if_neg hfits, wire, bind, Except.bind, pure, Except.pure]

theorem length_wire (frame : Frame) :
    (wire frame).length = LENGTH_PREFIX_SIZE + frame.bytes.length := by
  simp [wire, LENGTH_PREFIX_SIZE]

/-- The length that stands in front of a frame. -/
theorem Encodable.beNat_take (h : Encodable frame) (hbegins : buffer <+: wire frame ++ rest)
    (hlength : LENGTH_PREFIX_SIZE ≤ buffer.length) :
    beNat (buffer.take LENGTH_PREFIX_SIZE) = frame.bytes.length := by
  have hsmall : frame.bytes.length < 256 ^ 4 := by
    have hmax := h.length_le
    simp only [MAX_FRAME_SIZE] at hmax
    omega
  have htake : buffer.take LENGTH_PREFIX_SIZE = beBytes 4 frame.bytes.length := by
    rw [List.prefix_iff_eq_take.mp hbegins, List.take_take, Nat.min_eq_left hlength, wire,
      List.append_assoc, List.take_append_of_le_length (by simp [LENGTH_PREFIX_SIZE])]
    exact List.take_of_length_le (by simp [LENGTH_PREFIX_SIZE])
  rw [htake, beNat_beBytes hsmall]

/-- Before its last byte is there, a frame does not come out. -/
theorem Encodable.decodeNext_partial (h : Encodable frame) (hbegins : buffer <+: wire frame ++ rest)
    (hlength : buffer.length < (wire frame).length) : decodeNext buffer = (.ok none, buffer) := by
  rw [length_wire] at hlength
  by_cases hshort : buffer.length < LENGTH_PREFIX_SIZE
  · rw [decodeNext, if_pos hshort]
  · have hnat := h.beNat_take hbegins (Nat.not_lt.mp hshort)
    simp only [decodeNext, if_neg hshort, hnat, if_neg (Nat.not_lt.mpr h.length_le), if_pos hlength]

/-- With its last byte, a frame comes out, and nothing else is taken. -/
theorem Encodable.decodeNext_wire (h : Encodable frame) (rest : List UInt8) :
    decodeNext (wire frame ++ rest) = (.ok (some frame), rest) := by
  have hlong : ¬(wire frame ++ rest).length < LENGTH_PREFIX_SIZE + frame.bytes.length := by
    rw [List.length_append, length_wire]
    omega
  have hnotShort : ¬(wire frame ++ rest).length < LENGTH_PREFIX_SIZE := by omega
  have hnat := h.beNat_take (List.prefix_refl (wire frame ++ rest)) (Nat.not_lt.mp hnotShort)
  have hslice : ((wire frame ++ rest).drop LENGTH_PREFIX_SIZE).take frame.bytes.length =
      frame.bytes := by
    simp [wire, LENGTH_PREFIX_SIZE]
  have hrest : (wire frame ++ rest).drop (LENGTH_PREFIX_SIZE + frame.bytes.length) = rest := by
    rw [← length_wire, List.drop_left]
  simp only [decodeNext, if_neg hnotShort, hnat, if_neg (Nat.not_lt.mpr h.length_le), if_neg hlong,
    hslice, Frame.decode_iff_encode.mpr h.encode, hrest]

/-! ## The buffer over time -/

/-- What happens to a buffer: a piece arrives, or `decode_next` is called. -/
inductive BufferAction where
  | append (piece : List UInt8)
  | call

/-- The results of the calls, and the buffer at the end. -/
def decodeRun : List UInt8 → List BufferAction →
    List (Except TransportError (Option Frame)) × List UInt8
  | buffer, [] => ([], buffer)
  | buffer, .append piece :: actions => decodeRun (buffer ++ piece) actions
  | buffer, .call :: actions =>
    let (result, buffer) := decodeNext buffer
    let (results, buffer) := decodeRun buffer actions
    (result :: results, buffer)

/-- All bytes that arrive. -/
def arrived : List BufferAction → List UInt8
  | [] => []
  | .append piece :: actions => piece ++ arrived actions
  | .call :: actions => arrived actions

/-- The stream of frames. -/
def stream (frames : List Frame) : List UInt8 := frames.flatMap wire

/-- The result of a call in time: the next frame, if its last byte has arrived. -/
def expected (frames : List Frame) (buffer : List UInt8) : Option Frame :=
  match frames with
  | [] => none
  | frame :: _ => if (wire frame).length ≤ buffer.length then some frame else none

/-- The frames that calls returned. -/
def returned : List (Except TransportError (Option Frame)) → List Frame
  | [] => []
  | .ok (some frame) :: results => frame :: returned results
  | _ :: results => returned results

@[simp] theorem stream_nil : stream [] = [] := rfl

@[simp] theorem stream_cons (frame : Frame) (frames : List Frame) :
    stream (frame :: frames) = wire frame ++ stream frames := by simp [stream]

theorem stream_append (frames frames' : List Frame) :
    stream (frames ++ frames') = stream frames ++ stream frames' := by simp [stream]

/-- **One call.** On a buffer that holds the beginning of a stream of frames, `decode_next`
takes the next frame off if it is there, and otherwise answers that there is none yet. -/
theorem decodeNext_stream (hframes : ∀ frame ∈ frames, Encodable frame)
    (hbegins : buffer <+: stream frames) :
    decodeNext buffer = (.ok (expected frames buffer),
      buffer.drop (stream (expected frames buffer).toList).length) := by
  cases frames with
  | nil =>
    obtain rfl : buffer = [] := by simpa using hbegins
    rfl
  | cons frame frames =>
    have hframe : Encodable frame := hframes frame (by simp)
    rw [stream_cons] at hbegins
    by_cases hlength : (wire frame).length ≤ buffer.length
    · obtain ⟨more, rfl⟩ : wire frame <+: buffer :=
        List.prefix_of_prefix_length_le (List.prefix_append _ _) hbegins hlength
      simp [expected, hframe.decodeNext_wire]
    · simp [expected, hlength, hframe.decodeNext_partial hbegins (Nat.not_le.mp hlength)]

/-- A run over a buffer that holds, and goes on to receive, the beginning of a stream: the calls
return the first frames of it one by one, and the buffer holds what has arrived beyond them. -/
theorem decodeRun_stream (actions : List BufferAction) :
    ∀ {frames : List Frame} {buffer : List UInt8}, (∀ frame ∈ frames, Encodable frame) →
      buffer ++ arrived actions <+: stream frames →
      ∃ taken left, frames = taken ++ left ∧
        (∀ result ∈ (decodeRun buffer actions).1, ∃ frame, result = .ok frame) ∧
        returned (decodeRun buffer actions).1 = taken ∧
        buffer ++ arrived actions = stream taken ++ (decodeRun buffer actions).2 := by
  induction actions with
  | nil =>
    intro frames buffer hframes hbegins
    exact ⟨[], frames, rfl, by simp [decodeRun], rfl, by simp [decodeRun, arrived]⟩
  | cons action actions ih =>
    intro frames buffer hframes hbegins
    cases action with
    | append piece =>
      simp only [arrived, ← List.append_assoc] at hbegins ⊢
      exact ih hframes hbegins
    | call =>
      have hbuffer : buffer <+: stream frames := (List.prefix_append _ _).trans hbegins
      have hcall := decodeNext_stream hframes hbuffer
      cases hexpected : expected frames buffer with
      | none =>
        -- no whole frame yet: the call changes nothing
        obtain ⟨taken, left, hsplit, hok, htaken, hleft⟩ := ih hframes hbegins
        have hrun : decodeRun buffer (.call :: actions) =
            (.ok none :: (decodeRun buffer actions).1, (decodeRun buffer actions).2) := by
          simp [decodeRun, hcall, hexpected]
        rw [hrun]
        exact ⟨taken, left, hsplit, by simpa using hok, htaken, hleft⟩
      | some frame =>
        cases frames with
        | nil => cases hexpected
        | cons frame' frames =>
          by_cases hlength : (wire frame').length ≤ buffer.length
          · obtain rfl : frame' = frame := by simpa [expected, hlength] using hexpected
            rw [stream_cons] at hbegins hbuffer
            -- the first frame is all there, and the rest of the run is one over what follows it
            obtain ⟨more, rfl⟩ : wire frame' <+: buffer :=
              List.prefix_of_prefix_length_le (List.prefix_append _ _) hbuffer hlength
            have hmore : more ++ arrived actions <+: stream frames := by
              rw [List.append_assoc] at hbegins
              exact (List.prefix_append_right_inj _).mp hbegins
            obtain ⟨taken, left, hsplit, hok, htaken, hleft⟩ :=
              ih (fun f hf => hframes f (List.mem_cons_of_mem _ hf)) hmore
            have hrun : decodeRun (wire frame' ++ more) (.call :: actions) =
                (.ok (some frame') :: (decodeRun more actions).1, (decodeRun more actions).2) := by
              simp [decodeRun, hcall, hexpected]
            rw [hrun]
            refine ⟨frame' :: taken, left, by rw [hsplit]; rfl, by simpa using hok, ?_, ?_⟩
            · exact congrArg (frame' :: ·) htaken
            · simp only [arrived, stream_cons, List.append_assoc, hleft]
          · simp [expected, hlength] at hexpected

theorem decodeRun_append (before after : List BufferAction) :
    ∀ buffer, decodeRun buffer (before ++ after) =
      ((decodeRun buffer before).1 ++ (decodeRun (decodeRun buffer before).2 after).1,
        (decodeRun (decodeRun buffer before).2 after).2) := by
  induction before with
  | nil => exact fun _ => rfl
  | cons action before ih =>
    intro buffer
    cases action with
    | append piece => exact ih _
    | call => simp [decodeRun, ih]

/-- Calls on a buffer of whole frames empty it. -/
theorem decodeRun_drain : ∀ {frames : List Frame} {k : ℕ}, (∀ frame ∈ frames, Encodable frame) →
    frames.length ≤ k →
    returned (decodeRun (stream frames) (List.replicate k .call)).1 = frames ∧
      (decodeRun (stream frames) (List.replicate k .call)).2 = []
  | [], 0, _, _ => ⟨rfl, rfl⟩
  | frame :: frames, 0, _, hk => absurd hk (by simp)
  | [], k + 1, hframes, _ => by
    have hrest := decodeRun_drain (k := k) hframes (Nat.zero_le _)
    exact hrest
  | frame :: frames, k + 1, hframes, hk => by
    have hrest := decodeRun_drain (k := k) (fun f hf => hframes f (List.mem_cons_of_mem _ hf))
      (Nat.succ_le_succ_iff.mp hk)
    simp only [List.replicate_succ, decodeRun, stream_cons,
      (hframes frame (by simp)).decodeNext_wire]
    exact ⟨congrArg (frame :: ·) hrest.1, hrest.2⟩

theorem returned_append (rs rs' : List (Except TransportError (Option Frame))) :
    returned (rs ++ rs') = returned rs ++ returned rs' := by
  induction rs with
  | nil => rfl
  | cons r rs ih => rcases r with e | _ | frame <;> simp [returned, ih]

/-- A call that returns no frame leaves the buffer alone. -/
theorem decodeNext_unchanged (hnone : ∀ frame, (decodeNext buffer).1 ≠ .ok (some frame)) :
    (decodeNext buffer).2 = buffer := by
  simp only [decodeNext] at hnone ⊢
  split
  · rfl
  · split
    · rfl
    · split
      · rfl
      · split
        · rfl
        · simp_all

/-- **Exact framing.** `encode_length_delimited` writes each frame as its part of the stream. Let
the bytes that arrive be the beginning of a stream of frames, in any pieces, with calls of
`decode_next` anywhere among them. Then the calls return exactly the first frames of the stream,
in order, a call returns the next frame exactly if its last byte has arrived, and the buffer
holds what has arrived beyond the frames returned. Once the whole
stream has arrived, as many calls as there are frames have returned all of them and left the
buffer empty. On any buffer a call that returns no frame leaves it alone, and `Frame::decode`
accepts exactly what `Frame::encode` makes. -/
theorem framing_exact (frames : List Frame) (hframes : ∀ frame ∈ frames, Encodable frame) :
    (∀ frame ∈ frames, encodeLengthDelimited frame = .ok (wire frame)) ∧
    (∀ actions, arrived actions <+: stream frames →
      ∃ taken left, frames = taken ++ left ∧
        (∀ result ∈ (decodeRun [] actions).1, ∃ frame, result = .ok frame) ∧
        returned (decodeRun [] actions).1 = taken ∧
        arrived actions = stream taken ++ (decodeRun [] actions).2 ∧
        (decodeNext (decodeRun [] actions).2).1 =
          .ok (expected left (decodeRun [] actions).2)) ∧
    (∀ before k, arrived before = stream frames → frames.length ≤ k →
      returned (decodeRun [] (before ++ List.replicate k .call)).1 = frames ∧
        (decodeRun [] (before ++ List.replicate k .call)).2 = []) ∧
    (∀ buffer : List UInt8, (∀ frame, (decodeNext buffer).1 ≠ .ok (some frame)) →
      (decodeNext buffer).2 = buffer) ∧
    ∀ bytes frame, Frame.decode bytes = .ok frame ↔ frame.encode = .ok bytes := by
  refine ⟨fun frame hframe => (hframes frame hframe).encodeLengthDelimited,
    fun actions hbegins => ?_, fun before k harrived hk => ?_, fun buffer hnone => ?_,
    fun _ _ => Frame.decode_iff_encode⟩
  · obtain ⟨taken, left, hsplit, hok, htaken, hleft⟩ :=
      decodeRun_stream actions hframes (show [] ++ arrived actions <+: _ from hbegins)
    rw [List.nil_append] at hleft
    refine ⟨taken, left, hsplit, hok, htaken, hleft, ?_⟩
    rw [hsplit, stream_append, hleft] at hbegins
    rw [decodeNext_stream (fun f hf => hframes f (hsplit ▸ List.mem_append_right _ hf))
      ((List.prefix_append_right_inj _).mp hbegins)]
  · obtain ⟨taken, left, hsplit, -, htaken, hleft⟩ :=
      decodeRun_stream before hframes
        (show [] ++ arrived before <+: _ from harrived ▸ List.prefix_refl _)
    rw [List.nil_append, harrived, hsplit, stream_append] at hleft
    have hbuffer : (decodeRun [] before).2 = stream left := (List.append_cancel_left hleft).symm
    have hdrain := decodeRun_drain (k := k)
      (fun f hf => hframes f (hsplit ▸ List.mem_append_right taken hf))
      (Nat.le_trans (by rw [hsplit, List.length_append]; omega) hk)
    rw [decodeRun_append, hbuffer, returned_append, htaken, hdrain.1, ← hsplit]
    exact ⟨rfl, hdrain.2⟩
  · exact decodeNext_unchanged hnone

/-- A control frame with one byte of payload. -/
def ping : Frame := ⟨PROTOCOL_VERSION, .control, [42]⟩

/-- A frame of a file transfer after it. -/
def chunk : Frame := ⟨PROTOCOL_VERSION, .fileTransfer, [1, 2, 3]⟩

/-- The ping in two pieces, the second of which ends within the length of the chunk. -/
def pieces : List BufferAction :=
  [.append ((wire ping).take 6), .call, .append ((wire ping).drop 6 ++ (wire chunk).take 3),
    .call, .call]

theorem encodable_both : ∀ frame ∈ [ping, chunk], Encodable frame := by
  intro frame hframe
  rcases List.mem_pair.mp hframe with rfl | rfl
  · exact ⟨_, rfl⟩
  · exact ⟨_, rfl⟩

theorem ping_first : (decodeRun [] pieces).1 = [.ok none, .ok (some ping), .ok none] := by
  decide +kernel

theorem arrived_pieces :
    arrived (pieces ++ [.append ((wire chunk).drop 3)]) = stream [ping, chunk] := by
  decide +kernel

/-- The ping comes out with its last byte, and the chunk when the rest of it has arrived. -/
theorem ping_and_chunk_framed :
    (decodeRun [] pieces).1 = [.ok none, .ok (some ping), .ok none] ∧
    returned (decodeRun [] (pieces ++ [.append ((wire chunk).drop 3)] ++
      List.replicate 2 .call)).1 = [ping, chunk] ∧
    (decodeRun [] (pieces ++ [.append ((wire chunk).drop 3)] ++ List.replicate 2 .call)).2 = [] :=
  ⟨ping_first,
    (framing_exact [ping, chunk] encodable_both).2.2.1 _ 2 arrived_pieces (Nat.le_refl 2)⟩

end SensorRemote
