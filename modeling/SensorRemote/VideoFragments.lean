import SensorRemote.Lib.Bytes
import SensorRemote.Media
import Mathlib.Algebra.Group.Int.Defs
import Mathlib.Data.List.Induction

/-!
# Video fragments

An encoded frame crosses the connection in fragments (`send_video_packets`, `sensor-desktop`) and is
put together again by `Assembler` (`sensor-media`). The sender cuts the bytes of a frame into pieces
of one size but the last; the assembler takes pieces of one frame in order, and gives up what it has
when a piece of another frame comes, or when it is cleared.

The pieces of a frame come in the order in which they were cut, so each push finds the piece it
expects (`push_next`) and the last one completes the frame. For a list of frames, with calls of
`clear` between them, the results are those of one frame after the other.
-/

namespace SensorRemote

open Bytes

def MAX_ENCODED_FRAME : ℕ := 8 * 1024 * 1024
def VIDEO_FRAGMENT : ℕ := 16 * 1024

/-- `EncodedFrame`. -/
structure EncodedFrame where
  timestamp100ns : ℤ
  keyframe : Bool
  bytes : List UInt8
  deriving DecidableEq

/-! ## Sending -/

/-- `timestamp as u64`. -/
def asU64 (timestamp : ℤ) : ℕ := (timestamp % 2 ^ 64).toNat

/-- The fragment of a frame at an index. -/
def fragment (generation : ℕ) (packet : EncodedFrame) (bytes : List UInt8) (index : ℕ) :
    DesktopMessage :=
  .fragment generation (asU64 packet.timestamp100ns) packet.timestamp100ns packet.keyframe
    (index * VIDEO_FRAGMENT) packet.bytes.length bytes

/-- The fragments of one frame, if its length and all offsets fit 32 bits. -/
def fragments (generation : ℕ) (packet : EncodedFrame) : Option (List DesktopMessage) :=
  if packet.bytes.length ≥ 2 ^ 32 then none
  else
    (chunks VIDEO_FRAGMENT packet.bytes).zipIdx.mapM fun (bytes, index) =>
      if index * VIDEO_FRAGMENT ≥ 2 ^ 32 then none
      else some (fragment generation packet bytes index)

/-- The messages of `send_video_packets`. It stops early when the connection fails or a frame
takes longer than its deadline; then what was sent is a beginning of these. -/
def sendVideoPackets (packets : List EncodedFrame) (generation : ℕ) :
    Option (List DesktopMessage) := do
  let messages ← packets.mapM (fragments generation)
  return messages.flatten

/-! ## Receiving -/

/-- The frame an assembler is putting together. -/
structure Assembling where
  generation : ℕ
  sequence : ℕ
  timestamp100ns : ℤ
  keyframe : Bool
  length : ℕ
  buffer : List UInt8
  deriving DecidableEq

/-- `Assembler`. -/
structure Assembler where
  frame : Option Assembling
  deriving DecidableEq

namespace Assembler

/-- `Assembler::default`. -/
def default : Assembler := ⟨none⟩

/-- `Assembler::clear`. -/
def clear (_ : Assembler) : Assembler := ⟨none⟩

/-- A fragment added to the frame under assembly: what is left of it, and the frame if it is
complete. -/
def extend (frame : Assembling) (generation sequence : ℕ) (timestamp100ns : ℤ) (keyframe : Bool)
    (offset total : ℕ) (bytes : List UInt8) :
    Except MediaError (Assembler × Option EncodedFrame) :=
  if frame.generation ≠ generation ∨ frame.sequence ≠ sequence
      ∨ frame.timestamp100ns ≠ timestamp100ns ∨ frame.keyframe ≠ keyframe ∨ frame.length ≠ total
      ∨ offset ≠ frame.buffer.length ∨ frame.buffer.length + bytes.length > frame.length then
    .error .frame
  else
    let buffer := frame.buffer ++ bytes
    if buffer.length ≠ frame.length then .ok (⟨some { frame with buffer }⟩, none)
    else .ok (⟨none⟩, some ⟨frame.timestamp100ns, frame.keyframe, buffer⟩)

/-- `Assembler::push_inner`. An error leaves the assembler to be cleared. -/
def pushInner (assembler : Assembler) (message : DesktopMessage) :
    Except MediaError (Assembler × Option EncodedFrame) :=
  match message with
  | .fragment generation sequence timestamp100ns keyframe offset total bytes =>
    if total = 0 ∨ total > MAX_ENCODED_FRAME ∨ bytes = [] ∨ bytes.length > VIDEO_FRAGMENT then
      .error .frame
    else
      match assembler.frame with
      | none =>
        if offset ≠ 0 then .error .frame
        else extend ⟨generation, sequence, timestamp100ns, keyframe, total, []⟩ generation sequence
          timestamp100ns keyframe offset total bytes
      | some frame => extend frame generation sequence timestamp100ns keyframe offset total bytes
  | _ => .error .frame

/-- `Assembler::push`: the assembler afterwards and the result. -/
def push (assembler : Assembler) (message : DesktopMessage) :
    Assembler × Except MediaError (Option EncodedFrame) :=
  match assembler.pushInner message with
  | .error e => (assembler.clear, .error e)
  | .ok (assembler, frame) => (assembler, .ok frame)

end Assembler

/-- What the viewer's assembler sees: a fragment, or `clear` for a new format. -/
inductive AssemblerCall where
  | push (message : DesktopMessage)
  | clear

/-- The results of the pushes, and the assembler at the end. -/
def assemble : Assembler → List AssemblerCall →
    List (Except MediaError (Option EncodedFrame)) × Assembler
  | assembler, [] => ([], assembler)
  | assembler, .clear :: calls => assemble assembler.clear calls
  | assembler, .push message :: calls =>
    let (assembler, result) := assembler.push message
    let (results, assembler) := assemble assembler calls
    (result :: results, assembler)

/-! ## One frame -/

/-- A frame the encoder may produce. -/
def EncodedFrame.Sendable (packet : EncodedFrame) : Prop :=
  packet.bytes ≠ [] ∧ packet.bytes.length ≤ MAX_ENCODED_FRAME

/-- What pushing the fragments of a frame returns: nothing until the last, and then the frame. -/
def EncodedFrame.results (packet : EncodedFrame) : List (Except MediaError (Option EncodedFrame)) :=
  List.replicate ((packet.bytes.length - 1) / VIDEO_FRAGMENT) (.ok none) ++ [.ok (some packet)]

variable {packet : EncodedFrame} {generation : ℕ}

/-- A sendable frame overflows nothing. -/
theorem fragments_eq (h : packet.Sendable) : fragments generation packet =
    some ((chunks VIDEO_FRAGMENT packet.bytes).zipIdx.map
      fun (bytes, index) => fragment generation packet bytes index) := by
  have hlength := h.2
  simp only [MAX_ENCODED_FRAME] at hlength
  have hindex : ∀ piece ∈ (chunks VIDEO_FRAGMENT packet.bytes).zipIdx,
      ¬piece.2 * VIDEO_FRAGMENT ≥ 2 ^ 32 := by
    rintro ⟨bytes, index⟩ hmem
    obtain ⟨j, rfl, hj⟩ := lt_length_of_mem_chunks (by decide) _ _ rfl _ _ _ hmem
    simp only [Nat.zero_add]
    omega
  rw [fragments, if_neg (by omega)]
  generalize (chunks VIDEO_FRAGMENT packet.bytes).zipIdx = pieces at hindex
  induction pieces with
  | nil => rfl
  | cons piece pieces ih =>
    obtain ⟨bytes, index⟩ := piece
    have hfits : ¬index * VIDEO_FRAGMENT ≥ 2 ^ 32 := hindex (bytes, index) (by simp)
    rw [List.mapM_cons, ih fun q hq => hindex q (by simp [hq])]
    simp only [if_neg hfits]
    rfl

/-- The state of an assembler that has the beginning of a frame. -/
def EncodedFrame.assembling (packet : EncodedFrame) (generation : ℕ) (buffer : List UInt8) :
    Assembling :=
  ⟨generation, asU64 packet.timestamp100ns, packet.timestamp100ns, packet.keyframe,
    packet.bytes.length, buffer⟩

variable (generation) in
/-- The next fragment of a frame is accepted. -/
theorem push_next {buffer bytes more : List UInt8} {index : ℕ}
    (hlength : packet.bytes.length ≤ MAX_ENCODED_FRAME) (hbytes : bytes ≠ [])
    (hfragment : bytes.length ≤ VIDEO_FRAGMENT) (hoffset : buffer.length = index * VIDEO_FRAGMENT)
    (hall : buffer ++ bytes ++ more = packet.bytes) :
    Assembler.push ⟨some (packet.assembling generation buffer)⟩
        (fragment generation packet bytes index) =
      if more = [] then (⟨none⟩, .ok (some packet))
      else (⟨some (packet.assembling generation (buffer ++ bytes))⟩, .ok none) := by
  have hsum : buffer.length + bytes.length + more.length = packet.bytes.length := by
    rw [← hall, List.length_append, List.length_append]
  have hpos : 0 < bytes.length := List.length_pos_iff.mpr hbytes
  have hchecks : ¬(packet.bytes.length = 0 ∨ packet.bytes.length > MAX_ENCODED_FRAME ∨ bytes = []
      ∨ bytes.length > VIDEO_FRAGMENT) := by
    simp only [hbytes, false_or]
    omega
  have hsame : ¬(buffer.length + bytes.length > packet.bytes.length) := by omega
  simp only [Assembler.push, Assembler.pushInner, fragment, if_neg hchecks, Assembler.extend,
    EncodedFrame.assembling, ne_eq, not_true_eq_false, hoffset.symm, hsame, or_self, if_false,
    List.length_append]
  by_cases hmore : more = []
  · -- the buffer is the whole frame
    subst hmore
    rw [List.append_nil] at hall
    rw [if_neg (by simpa using hsum), if_pos rfl, hall]
  · have hrest : 0 < more.length := List.length_pos_iff.mpr hmore
    rw [if_pos (by omega), if_neg hmore]

/-- The first fragment of a frame opens it. -/
theorem push_first {bytes : List UInt8} :
    Assembler.push .default (fragment generation packet bytes 0) =
      Assembler.push ⟨some (packet.assembling generation [])⟩
        (fragment generation packet bytes 0) := by
  simp only [Assembler.push, Assembler.pushInner, fragment, Assembler.default,
    EncodedFrame.assembling, Nat.zero_mul, ne_eq, not_true_eq_false, if_false]
  rfl

/-- Appended calls go on from where the assembler stands. -/
theorem assemble_append (assembler : Assembler) (calls more : List AssemblerCall) :
    assemble assembler (calls ++ more) =
      ((assemble assembler calls).1 ++ (assemble (assemble assembler calls).2 more).1,
        (assemble (assemble assembler calls).2 more).2) := by
  induction calls generalizing assembler with
  | nil => rfl
  | cons call calls ih =>
    cases call with
    | clear => exact ih _
    | push message => simp [assemble, ih]

/-- The pushes of pieces of a frame, from an index on. -/
def EncodedFrame.pushes (packet : EncodedFrame) (generation index : ℕ)
    (pieces : List (List UInt8)) :
    List AssemblerCall :=
  (pieces.zipIdx index).map fun (bytes, index) => .push (fragment generation packet bytes index)

theorem full_fragments {length size : ℕ} (hsize : 0 < size) (h : size < length) :
    (length - 1) / size = (length - size - 1) / size + 1 := by
  rw [← Nat.add_div_right _ hsize]
  congr 1
  omega

variable (generation) in
/-- The remaining fragments of a frame complete it. -/
theorem assemble_rest (hlength : packet.bytes.length ≤ MAX_ENCODED_FRAME) :
    ∀ (n : ℕ) (remaining buffer : List UInt8) (index : ℕ), remaining.length = n →
      remaining ≠ [] → buffer.length = index * VIDEO_FRAGMENT → buffer ++ remaining = packet.bytes →
      assemble ⟨some (packet.assembling generation buffer)⟩
          (packet.pushes generation index (chunks VIDEO_FRAGMENT remaining)) =
        (List.replicate ((remaining.length - 1) / VIDEO_FRAGMENT) (.ok none) ++ [.ok (some packet)],
          .default) := by
  intro n
  induction n using Nat.strongRecOn with
  | ind n ih =>
    intro remaining buffer index hn hne hoffset hall
    have hpos : 0 < remaining.length := List.length_pos_iff.mpr hne
    have hfragment : 0 < VIDEO_FRAGMENT := by decide
    have hbytes : remaining.take VIDEO_FRAGMENT ≠ [] := by
      rw [ne_eq, List.take_eq_nil_iff]
      exact not_or.mpr ⟨by omega, hne⟩
    -- the piece that is next, then the pieces after it by induction
    have hpush := push_next generation hlength hbytes
      (List.length_take_le VIDEO_FRAGMENT remaining) hoffset
      (show _ ++ remaining.drop VIDEO_FRAGMENT = _ by
        rw [List.append_assoc, List.take_append_drop, hall])
    rw [chunks_of_ne_nil hfragment hne, EncodedFrame.pushes, List.zipIdx_cons, List.map_cons]
    by_cases hlast : remaining.drop VIDEO_FRAGMENT = []
    · have hshort : remaining.length ≤ VIDEO_FRAGMENT := List.drop_eq_nil_iff.mp hlast
      rw [if_pos hlast] at hpush
      have hnone : (remaining.length - 1) / VIDEO_FRAGMENT = 0 := Nat.div_eq_of_lt (by omega)
      simp [assemble, hpush, hlast, hnone, Assembler.default]
    · have hlong : VIDEO_FRAGMENT < remaining.length := by
        by_contra hshort
        exact hlast (List.drop_eq_nil_iff.mpr (by omega))
      rw [if_neg hlast] at hpush
      have htail := ih (remaining.drop VIDEO_FRAGMENT).length (by rw [List.length_drop]; omega)
        _ (buffer ++ remaining.take VIDEO_FRAGMENT) (index + 1) rfl hlast
        (by rw [List.length_append, List.length_take, Nat.min_eq_left (by omega), hoffset,
              Nat.succ_mul])
        (by rw [List.append_assoc, List.take_append_drop, hall])
      have hcount : (remaining.length - 1) / VIDEO_FRAGMENT =
          ((remaining.drop VIDEO_FRAGMENT).length - 1) / VIDEO_FRAGMENT + 1 := by
        rw [List.length_drop, full_fragments hfragment hlong]
      rw [EncodedFrame.pushes] at htail
      simp only [assemble, hpush, htail, hcount, List.replicate_succ, List.cons_append]

/-- A whole frame is returned for its last fragment. -/
theorem assemble_frame (h : packet.Sendable) :
    assemble .default (packet.pushes generation 0 (chunks VIDEO_FRAGMENT packet.bytes)) =
      (packet.results, .default) := by
  have hrest := assemble_rest generation h.2 _ packet.bytes [] 0 rfl h.1
    (by simp) rfl
  rw [EncodedFrame.results, ← hrest, chunks_of_ne_nil (by decide) h.1]
  simp only [EncodedFrame.pushes, List.zipIdx_cons, List.map_cons, assemble, push_first]

/-! ## The whole stream -/

/-- What the host does to the viewer's assembler: frames sent for one generation, or a new
format. -/
inductive VideoItem where
  | batch (packets : List EncodedFrame) (generation : ℕ)
  | format

namespace VideoItem

/-- The calls on the assembler that an item leads to. -/
def calls : VideoItem → Option (List AssemblerCall)
  | .batch packets generation => (sendVideoPackets packets generation).map (List.map .push)
  | .format => some [.clear]

/-- The frames an item sends. -/
def frames : VideoItem → List EncodedFrame
  | .batch packets _ => packets
  | .format => []

end VideoItem

/-- The calls on the assembler that a whole stream leads to. -/
def streamCalls (items : List VideoItem) : Option (List AssemblerCall) := do
  let parts ← items.mapM VideoItem.calls
  return parts.flatten

/-- The frames among the results. -/
def obtained (results : List (Except MediaError (Option EncodedFrame))) : List EncodedFrame :=
  results.filterMap fun
    | .ok frame => frame
    | .error _ => none

theorem obtained_results (packet : EncodedFrame) : obtained packet.results = [packet] := by
  have hnone : ∀ n, obtained (List.replicate n (.ok none)) = [] := by
    intro n
    induction n with
    | zero => rfl
    | succ n ih => exact ih
  rw [EncodedFrame.results, obtained, List.filterMap_append]
  exact congrArg (· ++ [packet]) (hnone _)

theorem obtained_flatMap (packets : List EncodedFrame) :
    obtained (packets.flatMap EncodedFrame.results) = packets := by
  induction packets with
  | nil => rfl
  | cons packet packets ih =>
    rw [List.flatMap_cons, obtained, List.filterMap_append]
    exact congrArg₂ (· ++ ·) (obtained_results packet) ih

/-- The frames of one call of `send_video_packets` are sent and all come back. -/
theorem packets_calls {packets : List EncodedFrame}
    (h : ∀ packet ∈ packets, packet.Sendable) :
    ∃ calls, (VideoItem.batch packets generation).calls = some calls ∧
      assemble .default calls = (packets.flatMap EncodedFrame.results, .default) := by
  induction packets with
  | nil => exact ⟨[], rfl, rfl⟩
  | cons packet packets ih =>
    obtain ⟨calls, hcalls, hrun⟩ := ih fun q hq => h q (by simp [hq])
    have hpacket := h packet (by simp)
    obtain ⟨messages, hmessages, hflat⟩ : ∃ messages,
        packets.mapM (fragments generation) = some messages ∧
          messages.flatten.map AssemblerCall.push = calls := by
      simpa [VideoItem.calls, sendVideoPackets, Option.bind_eq_some_iff] using hcalls
    refine ⟨packet.pushes generation 0 (chunks VIDEO_FRAGMENT packet.bytes) ++ calls, ?_, ?_⟩
    · rw [VideoItem.calls, sendVideoPackets, List.mapM_cons, fragments_eq hpacket, hmessages]
      simp only [← hflat, EncodedFrame.pushes]
      simp [Function.comp_def]
    · rw [assemble_append, assemble_frame hpacket, hrun]
      rfl

/-- A format between frames finds the assembler empty. -/
theorem item_calls {item : VideoItem} (h : ∀ packet ∈ item.frames, packet.Sendable) :
    ∃ calls, item.calls = some calls ∧
      assemble .default calls = (item.frames.flatMap EncodedFrame.results, .default) := by
  cases item with
  | batch packets generation => exact packets_calls h
  | format => exact ⟨[.clear], rfl, rfl⟩

/-- The calls of sendable frames, from an empty assembler to an empty assembler. -/
theorem stream_calls {items : List VideoItem}
    (h : ∀ item ∈ items, ∀ packet ∈ item.frames, packet.Sendable) :
    ∃ calls, streamCalls items = some calls ∧
      assemble .default calls =
        ((items.flatMap VideoItem.frames).flatMap EncodedFrame.results, .default) := by
  induction items with
  | nil => exact ⟨[], rfl, rfl⟩
  | cons item items ih =>
    obtain ⟨calls, hcalls, hrun⟩ := ih fun i hi => h i (by simp [hi])
    obtain ⟨first, hfirst, hfirstRun⟩ := item_calls (h item (by simp))
    obtain ⟨parts, hparts, rfl⟩ : ∃ parts, items.mapM VideoItem.calls = some parts ∧
        parts.flatten = calls := by
      simpa [streamCalls, Option.bind_eq_some_iff] using hcalls
    refine ⟨first ++ parts.flatten, ?_, ?_⟩
    · rw [streamCalls, List.mapM_cons, hfirst, hparts]
      rfl
    · rw [assemble_append, hfirstRun, hrun, List.flatMap_cons, List.flatMap_append]

/-- **Video fragments come back as the frames that were sent.** However the frames are split over
calls of `send_video_packets`, and wherever formats come between them, every fragment is accepted,
the last of a frame returns that frame and the others return nothing; a stream that stops early
returns a beginning of this. -/
theorem video_round_trip (items : List VideoItem)
    (h : ∀ item ∈ items, ∀ packet ∈ item.frames, packet.Sendable) :
    ∃ calls, streamCalls items = some calls ∧
      assemble .default calls =
        ((items.flatMap VideoItem.frames).flatMap EncodedFrame.results, .default) ∧
      obtained (assemble .default calls).1 = items.flatMap VideoItem.frames ∧
      ∀ begun, begun <+: calls → (assemble .default begun).1 <+: (assemble .default calls).1 := by
  obtain ⟨calls, hcalls, hrun⟩ := stream_calls h
  refine ⟨calls, hcalls, hrun, ?_, ?_⟩
  · rw [hrun]
    exact obtained_flatMap _
  · rintro begun ⟨more, rfl⟩
    rw [assemble_append]
    exact List.prefix_append _ _

/-- A frame, a format and another frame. -/
theorem two_frames_round_trip :
    ∃ calls, streamCalls [.batch [⟨7, true, [1, 2]⟩] 1, .format, .batch [⟨8, false, [3]⟩] 2] =
        some calls ∧
      obtained (assemble .default calls).1 = [⟨7, true, [1, 2]⟩, ⟨8, false, [3]⟩] := by
  have h := video_round_trip [.batch [⟨7, true, [1, 2]⟩] 1, .format, .batch [⟨8, false, [3]⟩] 2]
    (by simp [VideoItem.frames, EncodedFrame.Sendable, MAX_ENCODED_FRAME])
  obtain ⟨calls, hcalls, -, hframes, -⟩ := h
  exact ⟨calls, hcalls, hframes⟩

end SensorRemote
