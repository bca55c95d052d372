import SensorRemote.VideoFragments

/-!
# What an assembler returns

`Assembler` (`sensor-media`) faces whatever a peer sends: fragments of any frame in any order,
with any offsets and lengths, and other messages. Its one partial frame is always the frame of
the pushes made last, so that a frame it returns is made of exactly these.
-/

namespace SensorRemote

/-- The fields that all fragments of one frame have in common. -/
structure FragmentHeader where
  generation : ℕ
  sequence : ℕ
  timestamp100ns : ℤ
  keyframe : Bool
  total : ℕ

namespace FragmentHeader

variable (header : FragmentHeader)

/-- The fragment at an offset. -/
def fragment (offset : ℕ) (bytes : List UInt8) : DesktopMessage :=
  .fragment header.generation header.sequence header.timestamp100ns header.keyframe offset
    header.total bytes

/-- The frame under assembly with its first bytes. -/
def assembling (buffer : List UInt8) : Assembling :=
  ⟨header.generation, header.sequence, header.timestamp100ns, header.keyframe, header.total, buffer⟩

/-- The complete frame. -/
def frame (bytes : List UInt8) : EncodedFrame :=
  ⟨header.timestamp100ns, header.keyframe, bytes⟩

/-- Pushes of consecutive pieces: each offset is the one before and the length of its piece. -/
def pushes (offset : ℕ) : List (List UInt8) → List AssemblerCall
  | [] => []
  | piece :: pieces =>
    .push (header.fragment offset piece) :: pushes (offset + piece.length) pieces

@[simp] theorem pushes_nil (offset : ℕ) : header.pushes offset [] = [] := rfl

/-- The last push is at the sum of the lengths before it. -/
theorem pushes_concat (offset : ℕ) (pieces : List (List UInt8)) (piece : List UInt8) :
    header.pushes offset (pieces ++ [piece]) =
      header.pushes offset pieces ++
        [.push (header.fragment (offset + pieces.flatten.length) piece)] := by
  induction pieces generalizing offset with
  | nil => simp [pushes]
  | cons first pieces ih => simp [pushes, ih, Nat.add_assoc]

end FragmentHeader

namespace Assembler

/-- The assembler after calls on a new one. -/
def after (calls : List AssemblerCall) : Assembler := (assemble .default calls).2

theorem after_clear (calls : List AssemblerCall) : after (calls ++ [.clear]) = .default := by
  rw [after, assemble_append]
  rfl

theorem after_push (calls : List AssemblerCall) (message : DesktopMessage) :
    after (calls ++ [.push message]) = ((after calls).push message).1 := by
  rw [after, assemble_append]
  rfl

/-- Where a piece is added: to nothing, or to the frame under assembly. -/
def Holds (assembler : Assembler) (header : FragmentHeader) (buffer : List UInt8) : Prop :=
  assembler.frame = none ∧ buffer = [] ∨ assembler.frame = some (header.assembling buffer)

/-- A piece a fragment may carry. -/
def Piece (bytes : List UInt8) : Prop := 1 ≤ bytes.length ∧ bytes.length ≤ VIDEO_FRAGMENT

/-- What a push does: it fails and clears the assembler, or it adds a piece, and returns the
frame if it is complete. -/
inductive Pushed (assembler : Assembler) (message : DesktopMessage) :
    Assembler × Except MediaError (Option EncodedFrame) → Prop where
  | failed (e : MediaError) : Pushed assembler message (.default, .error e)
  | more (header : FragmentHeader) (buffer bytes : List UInt8)
      (hmessage : message = header.fragment buffer.length bytes) (hpiece : Piece bytes)
      (htotal : header.total ≤ MAX_ENCODED_FRAME) (hholds : assembler.Holds header buffer)
      (hless : (buffer ++ bytes).length < header.total) :
      Pushed assembler message (⟨some (header.assembling (buffer ++ bytes))⟩, .ok none)
  | complete (header : FragmentHeader) (buffer bytes : List UInt8)
      (hmessage : message = header.fragment buffer.length bytes) (hpiece : Piece bytes)
      (htotal : header.total ≤ MAX_ENCODED_FRAME) (hholds : assembler.Holds header buffer)
      (hall : (buffer ++ bytes).length = header.total) :
      Pushed assembler message (.default, .ok (some (header.frame (buffer ++ bytes))))

/-- A piece is added to the frame under assembly only if it is of this frame and comes next. -/
theorem extend_eq_ok (header : FragmentHeader) {frame : Assembling} {offset : ℕ}
    {bytes : List UInt8} {result : Assembler × Option EncodedFrame}
    (h : extend frame header.generation header.sequence header.timestamp100ns header.keyframe offset
      header.total bytes = .ok result) :
    frame = header.assembling frame.buffer ∧ offset = frame.buffer.length ∧
      ((frame.buffer ++ bytes).length < header.total ∧
          result = (⟨some (header.assembling (frame.buffer ++ bytes))⟩, none) ∨
        (frame.buffer ++ bytes).length = header.total ∧
          result = (.default, some (header.frame (frame.buffer ++ bytes)))) := by
  obtain ⟨generation, sequence, timestamp100ns, keyframe, total⟩ := header
  obtain ⟨generation', sequence', timestamp100ns', keyframe', length, buffer⟩ := frame
  simp only [extend] at h
  split at h
  · cases h
  · rename_i hsame
    simp only [not_or, ne_eq, not_not, gt_iff_lt, Nat.not_lt] at hsame
    obtain ⟨rfl, rfl, rfl, rfl, rfl, hoffset, hfits⟩ := hsame
    refine ⟨rfl, hoffset, ?_⟩
    split at h
    · rename_i hne
      rw [List.length_append] at hne
      exact .inl ⟨by simp only [List.length_append]; omega, (Except.ok.inj h).symm⟩
    · rename_i heq
      exact .inr ⟨not_not.mp heq, (Except.ok.inj h).symm⟩

theorem pushed (assembler : Assembler) (message : DesktopMessage) :
    Pushed assembler message (assembler.push message) := by
  rw [push]
  split
  · exact .failed _
  · rename_i assembler' frame hpush
    cases message with
    | fragment generation sequence timestamp100ns keyframe offset total bytes =>
      let header : FragmentHeader := ⟨generation, sequence, timestamp100ns, keyframe, total⟩
      simp only [pushInner] at hpush
      split at hpush
      · cases hpush
      · rename_i hchecks
        simp only [not_or, gt_iff_lt, Nat.not_lt] at hchecks
        obtain ⟨-, htotal, hne, hfragment⟩ := hchecks
        have hpiece : Piece bytes := ⟨List.length_pos_iff.mpr hne, hfragment⟩
        -- the frame the piece was added to, new or not
        have hextended : ∀ under : Assembling, assembler.Holds header under.buffer →
            extend under generation sequence timestamp100ns keyframe offset total bytes =
              .ok (assembler', frame) →
            Pushed assembler (header.fragment offset bytes) (assembler', .ok frame) := by
          intro under hholds hextend
          obtain ⟨-, rfl, hresult⟩ := extend_eq_ok header hextend
          rcases hresult with ⟨hless, heq⟩ | ⟨hall, heq⟩
          · obtain ⟨rfl, rfl⟩ := Prod.mk.inj heq
            exact .more header _ bytes rfl hpiece htotal hholds hless
          · obtain ⟨rfl, rfl⟩ := Prod.mk.inj heq
            exact .complete header _ bytes rfl hpiece htotal hholds hall
        split at hpush
        · rename_i hnone
          split at hpush
          · cases hpush
          · exact hextended _ (.inl ⟨hnone, rfl⟩) hpush
        · rename_i under hunder
          have hsame : under = header.assembling under.buffer := (extend_eq_ok header hpush).1
          exact hextended under (.inr (hunder.trans (congrArg some hsame))) hpush
    | _ => cases hpush

/-- The partial frame is made of the pushes made last, and it is not complete. -/
def MadeOf (calls : List AssemblerCall) (header : FragmentHeader) (buffer : List UInt8) : Prop :=
  ∃ before pieces, calls = before ++ header.pushes 0 pieces ∧ (∀ piece ∈ pieces, Piece piece) ∧
    pieces.flatten = buffer

theorem MadeOf.concat {calls : List AssemblerCall} {header : FragmentHeader}
    {buffer bytes : List UInt8} (h : MadeOf calls header buffer) (hpiece : Piece bytes) :
    MadeOf (calls ++ [.push (header.fragment buffer.length bytes)]) header (buffer ++ bytes) := by
  obtain ⟨before, pieces, rfl, hpieces, rfl⟩ := h
  refine ⟨before, pieces ++ [bytes], ?_, ?_, by simp⟩
  · rw [header.pushes_concat, Nat.zero_add, List.append_assoc]
  · intro piece hmem
    rcases List.mem_append.mp hmem with hbefore | hlast
    · exact hpieces piece hbefore
    · rwa [List.mem_singleton.mp hlast]

/-- The invariant of an assembler. -/
def Sound (calls : List AssemblerCall) (assembler : Assembler) : Prop :=
  ∀ frame, assembler.frame = some frame → frame.buffer.length < frame.length ∧
    frame.length ≤ MAX_ENCODED_FRAME ∧
    ∃ header, frame = header.assembling frame.buffer ∧ MadeOf calls header frame.buffer

/-- A new assembler can be at the beginning of any frame. -/
theorem Sound.madeOf {calls : List AssemblerCall} {assembler : Assembler} {header : FragmentHeader}
    {buffer : List UInt8} (h : assembler.Sound calls) (hholds : assembler.Holds header buffer) :
    MadeOf calls header buffer := by
  rcases hholds with ⟨-, rfl⟩ | hframe
  · exact ⟨calls, [], by simp, by simp, rfl⟩
  · obtain ⟨-, -, header', heq, hmade⟩ := h _ hframe
    cases header
    cases header'
    simp only [FragmentHeader.assembling, Assembling.mk.injEq] at heq
    obtain ⟨rfl, rfl, rfl, rfl, rfl, -⟩ := heq
    exact hmade

theorem sound_after (calls : List AssemblerCall) : (after calls).Sound calls := by
  induction calls using List.reverseRecOn with
  | nil =>
    intro frame hframe
    cases hframe
  | append_singleton calls call ih =>
    cases call with
    | clear =>
      rw [after_clear]
      intro frame hframe
      cases hframe
    | push message =>
      rw [after_push]
      intro frame hframe
      have hpushed := pushed (after calls) message
      generalize (after calls).push message = result at hpushed hframe
      cases hpushed with
      | failed e => cases hframe
      | more header buffer bytes hmessage hpiece htotal hholds hless =>
        obtain rfl := Option.some.inj hframe
        subst hmessage
        exact ⟨hless, htotal, header, rfl, (ih.madeOf hholds).concat hpiece⟩
      | complete header buffer bytes hmessage hpiece htotal hholds hall => cases hframe

end Assembler

/-- **The assembler against any peer.** After any calls on a new assembler:

* if a push returns a frame, this push and the ones made last before it, with nothing in
  between, were fragments of one generation, sequence, timestamp, keyframe flag and total, at
  the offsets that the lengths before them add up to, each of one to `VIDEO_FRAGMENT` bytes;
  their bytes are those of the frame, as many as the total, which is within bounds;
* fewer bytes are buffered than were announced;
* a push that fails leaves a new assembler. -/
theorem assembler_sound (calls : List AssemblerCall) :
    (∀ message frame, ((Assembler.after calls).push message).2 = .ok (some frame) →
      ∃ before header pieces,
        calls ++ [.push message] = before ++ FragmentHeader.pushes header 0 pieces ∧
        (∀ piece ∈ pieces, 1 ≤ piece.length ∧ piece.length ≤ VIDEO_FRAGMENT) ∧
        frame = ⟨header.timestamp100ns, header.keyframe, pieces.flatten⟩ ∧
        frame.bytes.length = header.total ∧ 1 ≤ header.total ∧
        header.total ≤ MAX_ENCODED_FRAME) ∧
    (∀ frame, (Assembler.after calls).frame = some frame →
      frame.buffer.length < frame.length) ∧
    ∀ message e, ((Assembler.after calls).push message).2 = .error e →
      ((Assembler.after calls).push message).1 = .default := by
  have hsound := Assembler.sound_after calls
  refine ⟨fun message frame hreturned => ?_, fun frame hframe => (hsound frame hframe).1,
    fun message e herror => ?_⟩
  · have hpushed := Assembler.pushed (Assembler.after calls) message
    generalize (Assembler.after calls).push message = result at hpushed hreturned
    cases hpushed with
    | failed e => cases hreturned
    | more => cases hreturned
    | complete header buffer bytes hmessage hpiece htotal hholds hall =>
      obtain rfl := Option.some.inj (Except.ok.inj hreturned)
      subst hmessage
      obtain ⟨before, pieces, hcalls, hpieces, hflat⟩ := (hsound.madeOf hholds).concat hpiece
      have hpos : 1 ≤ header.total := by
        have := hpiece.1
        rw [← hall, List.length_append]
        omega
      exact ⟨before, header, pieces, hcalls, hpieces, by rw [hflat]; rfl, hall, hpos, htotal⟩
  · have hpushed := Assembler.pushed (Assembler.after calls) message
    generalize (Assembler.after calls).push message = result at hpushed herror
    cases hpushed with
    | failed e => rfl
    | more => cases herror
    | complete => cases herror

end SensorRemote
