import SensorRemote.Media
import Mathlib

/-!
# Typed and pasted text

`text_input` of the desktop application turns text into packets of at most 1024 bytes, which is
what the host takes (`Input::validate`). A packet ends where a character does: the loop steps
back from the 1024th byte to a boundary, and a character of at most four bytes is never longer
than what it may step over, so every packet has some of the text. The loop runs on fuel, and a
slice that would panic has no value; more fuel than the text has bytes is enough
(`packetLoop_spec`).
-/

namespace SensorRemote

/-! ## The program -/

/-- `egui::Event`, as far as it carries text. -/
inductive ViewportEvent where
  | text (text : String)
  | paste (text : String)
  | other
  deriving DecidableEq

/-- `str::is_char_boundary`. -/
def isCharBoundary (text : String) (index : ℕ) : Bool := String.Pos.Raw.isValid text ⟨index⟩

/-- `&text[..index]` and `&text[index..]`; no value is a panic. -/
def splitText (text : String) (index : ℕ) : Option (String × String) :=
  if h : String.Pos.Raw.IsValid text ⟨index⟩ then
    some ((text.sliceTo ⟨⟨index⟩, h⟩).copy, (text.sliceFrom ⟨⟨index⟩, h⟩).copy)
  else none

/-- The loop that steps back to a boundary. -/
def stepBack (text : String) : ℕ → ℕ
  | 0 => 0
  | stop + 1 => if isCharBoundary text (stop + 1) then stop + 1 else stepBack text stop

/-- The loop over what remains of the text. -/
def packetLoop : ℕ → List Input → String → Option (List Input)
  | 0, _, _ => none
  | fuel + 1, packets, remaining =>
    if remaining = "" then some packets
    else do
      let (front, rest) ← splitText remaining
        (stepBack remaining (min remaining.utf8ByteSize 1024))
      packetLoop fuel (packets ++ [.text front]) rest

/-- The error of `text_input`. -/
def TEXT_REJECTED : String :=
  "Remote text input accepts up to 64 KiB of printable text; use Enter/Tab keys separately."

/-- The body of `text_input`, for the text of an event. -/
def textPackets (fuel : ℕ) (text : String) : Option (Except String (List Input)) :=
  if text.utf8ByteSize > MAX_CLIPBOARD_BYTES ∨ text.toList.any isControl then
    some (.error TEXT_REJECTED)
  else (packetLoop fuel [] text).map .ok

/-- `text_input`; nothing for events without text. -/
def textInput (fuel : ℕ) : ViewportEvent → Option (Option (Except String (List Input)))
  | .text text => (textPackets fuel text).map some
  | .paste text => (textPackets fuel text).map some
  | .other => some none

/-! ## Boundaries -/

theorem isCharBoundary_iff {text : String} {index : ℕ} : isCharBoundary text index = true ↔
    ∃ front rest, text = front ++ rest ∧ front.utf8ByteSize = index := by
  rw [isCharBoundary, String.Pos.Raw.isValid_eq_true_iff, String.Pos.Raw.isValid_iff_exists_append]
  simp [String.Pos.Raw.ext_iff, eq_comm]

/-- A slice at a boundary is the text before it and the text after it. -/
theorem splitText_of_boundary {text : String} {index : ℕ} (h : isCharBoundary text index = true) :
    ∃ front rest, splitText text index = some (front, rest) ∧ text = front ++ rest ∧
      front.utf8ByteSize = index := by
  have hvalid : String.Pos.Raw.IsValid text ⟨index⟩ := String.Pos.Raw.isValid_eq_true_iff.mp h
  have hsplits := String.Pos.splits (⟨⟨index⟩, hvalid⟩ : text.Pos)
  exact ⟨_, _, dif_pos hvalid, hsplits.eq_append, by simp⟩

/-- The inner loop ends at the last boundary up to where it starts. -/
theorem stepBack_spec (text : String) : ∀ stop,
    isCharBoundary text (stepBack text stop) = true ∧ stepBack text stop ≤ stop ∧
      ∀ index ≤ stop, isCharBoundary text index = true → index ≤ stepBack text stop
  | 0 => ⟨isCharBoundary_iff.mpr ⟨"", text, by simp, rfl⟩, Nat.le_refl 0, fun _ hle _ => hle⟩
  | stop + 1 => by
    rw [stepBack]
    split
    · rename_i hboundary
      exact ⟨hboundary, Nat.le_refl _, fun _ hle _ => hle⟩
    · rename_i hno
      obtain ⟨hboundary, hle, hlast⟩ := stepBack_spec text stop
      refine ⟨hboundary, by omega, fun index hindex hat => hlast index ?_ hat⟩
      have hne : index ≠ stop + 1 := fun heq => hno (heq ▸ hat)
      omega

/-- There is a boundary after the first character, within four bytes. -/
theorem exists_first_boundary {text : String} (h : text ≠ "") :
    ∃ index, 0 < index ∧ index ≤ 4 ∧ index ≤ text.utf8ByteSize ∧
      isCharBoundary text index = true := by
  obtain ⟨chars, rfl⟩ := text.exists_eq_ofList
  cases chars with
  | nil => exact (h rfl).elim
  | cons c chars =>
    have hsplit : String.ofList (c :: chars) = String.singleton c ++ String.ofList chars := by
      rw [← String.toList_inj]
      simp
    refine ⟨c.utf8Size, Char.utf8Size_pos c, Char.utf8Size_le_four c, ?_,
      isCharBoundary_iff.mpr ⟨String.singleton c, String.ofList chars, hsplit, by simp⟩⟩
    rw [hsplit, String.utf8ByteSize_append, String.utf8ByteSize_singleton]
    omega

/-- A packet is cut before the first character that does not fit. -/
theorem stepBack_eq {front rest : String} {c : Char} {stop : ℕ} (hle : front.utf8ByteSize ≤ stop)
    (hlt : stop < front.utf8ByteSize + c.utf8Size) :
    stepBack (front ++ (String.singleton c ++ rest)) stop = front.utf8ByteSize := by
  obtain ⟨hboundary, hstop, hlast⟩ := stepBack_spec (front ++ (String.singleton c ++ rest)) stop
  have hat := hlast _ hle (isCharBoundary_iff.mpr ⟨front, _, rfl, rfl⟩)
  obtain ⟨front', rest', heq, hsize⟩ := isCharBoundary_iff.mp hboundary
  have hchars : front.toList ++ c :: rest.toList = front'.toList ++ rest'.toList := by
    simpa using congrArg String.toList heq
  rw [← hsize] at hat hstop ⊢
  -- the last boundary is after the character, or it is not after `front`
  rcases List.append_eq_append_iff.mp hchars with ⟨more, hmore, hrest⟩ | ⟨more, hmore, -⟩
  · cases more with
    | nil => rw [String.toList_inj.mp (hmore.trans (List.append_nil _))]
    | cons d more =>
      obtain ⟨rfl, -⟩ := List.cons.inj hrest
      have hfront : front' = front ++ (String.singleton c ++ String.ofList more) := by
        rw [← String.toList_inj, hmore]
        simp
      rw [hfront, String.utf8ByteSize_append, String.utf8ByteSize_append,
        String.utf8ByteSize_singleton] at hstop
      omega
  · have hfront : front = front' ++ String.ofList more := by
      rw [← String.toList_inj, hmore]
      simp
    have hsizes := congrArg String.utf8ByteSize hfront
    rw [String.utf8ByteSize_append] at hsizes
    omega

theorem splitText_append (front rest : String) :
    splitText (front ++ rest) front.utf8ByteSize = some (front, rest) := by
  have hvalid : String.Pos.Raw.IsValid (front ++ rest) ⟨front.utf8ByteSize⟩ :=
    String.Pos.Raw.isValid_eq_true_iff.mp (isCharBoundary_iff.mpr ⟨front, rest, rfl, rfl⟩)
  have hsplits := String.Pos.splits (⟨⟨front.utf8ByteSize⟩, hvalid⟩ : (front ++ rest).Pos)
  obtain ⟨hfront, hrest⟩ := hsplits.eq ⟨rfl, rfl⟩
  rw [splitText, dif_pos hvalid]
  exact congrArg some (Prod.ext hfront hrest)

/-! ## The loop -/

/-- One round: some of the text goes, not more than a packet holds. -/
theorem round_spec {remaining : String} (h : remaining ≠ "") :
    ∃ front rest, splitText remaining (stepBack remaining (min remaining.utf8ByteSize 1024)) =
        some (front, rest) ∧
      remaining = front ++ rest ∧ front ≠ "" ∧ front.utf8ByteSize ≤ 1024 := by
  obtain ⟨hboundary, hle, hlast⟩ := stepBack_spec remaining (min remaining.utf8ByteSize 1024)
  obtain ⟨front, rest, hsplit, heq, hsize⟩ := splitText_of_boundary hboundary
  obtain ⟨index, hpos, hfour, hfits, hat⟩ := exists_first_boundary h
  have hfirst := hlast index (by omega) hat
  refine ⟨front, rest, hsplit, heq, ?_, by omega⟩
  rintro rfl
  rw [String.utf8ByteSize_empty] at hsize
  omega

theorem packetLoop_round {fuel : ℕ} {packets : List Input} {remaining front rest : String}
    (h : remaining ≠ "") (hsplit : splitText remaining
      (stepBack remaining (min remaining.utf8ByteSize 1024)) = some (front, rest)) :
    packetLoop (fuel + 1) packets remaining = packetLoop fuel (packets ++ [.text front]) rest := by
  rw [packetLoop, if_neg h, hsplit]
  rfl

/-- **The loop ends**, with packets that together are the text. -/
theorem packetLoop_spec : ∀ (fuel : ℕ) (packets : List Input) (remaining : String),
    remaining.utf8ByteSize < fuel →
      ∃ chunks : List String, packetLoop fuel packets remaining =
          some (packets ++ chunks.map .text) ∧
        String.join chunks = remaining ∧
        ∀ chunk ∈ chunks, chunk ≠ "" ∧ chunk.utf8ByteSize ≤ 1024
  | 0, _, _, h => absurd h (Nat.not_lt_zero _)
  | fuel + 1, packets, remaining, h => by
    by_cases hempty : remaining = ""
    · refine ⟨[], ?_, by simpa using hempty.symm, by simp⟩
      rw [packetLoop, if_pos hempty, List.map_nil, List.append_nil]
    · obtain ⟨front, rest, hsplit, heq, hne, hsize⟩ := round_spec hempty
      have hfront : front.utf8ByteSize ≠ 0 := fun hzero =>
        hne (String.utf8ByteSize_eq_zero_iff.mp hzero)
      have hrest : rest.utf8ByteSize < fuel := by
        rw [heq, String.utf8ByteSize_append] at h
        omega
      obtain ⟨chunks, hloop, hjoin, hchunks⟩ :=
        packetLoop_spec fuel (packets ++ [.text front]) rest hrest
      refine ⟨front :: chunks, ?_, ?_, ?_⟩
      · rw [packetLoop_round hempty hsplit]
        simpa using hloop
      · rw [String.join_cons, hjoin, heq]
      · intro chunk hchunk
        rcases List.mem_cons.mp hchunk with rfl | hchunk
        · exact ⟨hne, hsize⟩
        · exact hchunks chunk hchunk

/-! ## The result -/

/-- What is to become of a text. -/
def SplitWhole (text : String) (result : Option (Option (Except String (List Input)))) : Prop :=
  if text.utf8ByteSize ≤ MAX_CLIPBOARD_BYTES ∧ ∀ c ∈ text.toList, isControl c = false then
    ∃ chunks : List String, result = some (some (.ok (chunks.map .text))) ∧
      String.join chunks = text ∧
      ∀ chunk ∈ chunks, chunk ≠ "" ∧ ∀ display, (Input.text chunk).validate display = .ok ()
  else result = some (some (.error TEXT_REJECTED))

/-- **Text is split and not lost.** For any text, typed or pasted, the loop ends; printable text
of at most 64 KiB becomes packets that together are the text, none of them empty and each taken
by the host for whatever display; and of any other text there is no packet. -/
theorem text_split (text : String) (fuel : ℕ) (hfuel : text.utf8ByteSize < fuel) :
    SplitWhole text (textInput fuel (.text text)) ∧
      SplitWhole text (textInput fuel (.paste text)) := by
  have hsame : textInput fuel (.paste text) = textInput fuel (.text text) := rfl
  rw [hsame, and_self, SplitWhole, textInput, textPackets]
  split
  · rename_i hplain
    obtain ⟨chunks, hloop, hjoin, hchunks⟩ := packetLoop_spec fuel [] text hfuel
    have hpass : ¬(text.utf8ByteSize > MAX_CLIPBOARD_BYTES ∨ text.toList.any isControl = true) := by
      simpa using hplain
    refine ⟨chunks, ?_, hjoin, fun chunk hchunk => ⟨(hchunks chunk hchunk).1, fun display => ?_⟩⟩
    · rw [if_neg hpass, hloop]
      rfl
    · have hcontrol : ¬(chunk.utf8ByteSize > 1024 ∨ chunk.toList.any isControl = true) := by
        have hmem : ∀ c ∈ chunk.toList, c ∈ text.toList := fun c hc => by
          rw [← hjoin, String.toList_join]
          exact List.mem_flatMap.mpr ⟨chunk, hchunk, hc⟩
        have hsize := (hchunks chunk hchunk).2
        simpa [hsize] using fun c hc => hplain.2 c (hmem c hc)
      rw [Input.validate, if_neg hcontrol]
  · rename_i hbad
    have hreject : text.utf8ByteSize > MAX_CLIPBOARD_BYTES ∨ text.toList.any isControl = true := by
      by_contra hpass
      exact hbad (by simpa using hpass)
    rw [if_pos hreject]
    rfl

namespace AccentedText

/-- 1023 bytes, and then a character of two more. -/
def front : String := String.ofList ('x' :: List.replicate 511 'é')
def text : String := front ++ "é"

theorem front_size : front.utf8ByteSize = 1023 := by decide +kernel

theorem text_size : text.utf8ByteSize = 1025 := by
  rw [text, String.utf8ByteSize_append, front_size]
  rfl

/-- The first packet holds a byte less than it might. -/
theorem split_before : splitText text (stepBack text (min text.utf8ByteSize 1024)) =
    some (front, "é") := by
  have hback : stepBack (front ++ (String.singleton 'é' ++ "")) 1024 = front.utf8ByteSize := by
    apply stepBack_eq
    · rw [front_size]
      decide
    · rw [front_size]
      decide
  have hstop : stepBack text 1024 = front.utf8ByteSize := hback
  rw [text_size, min_eq_right (by decide), hstop]
  exact splitText_append front "é"

theorem text_loop : packetLoop 1026 [] text = some [.text front, .text "é"] := by
  have hsome : text ≠ "" := fun hempty => by
    have hzero := text_size
    rw [hempty] at hzero
    cases hzero
  have hlast : splitText "é" (stepBack "é" (min "é".utf8ByteSize 1024)) = some ("é", "") := by
    decide +kernel
  rw [packetLoop_round hsome split_before, packetLoop_round (by decide) hlast, packetLoop,
    if_pos rfl]
  rfl

theorem front_toList : front.toList = 'x' :: List.replicate 511 'é' := String.toList_ofList

theorem text_toList : text.toList = front.toList ++ ['é'] := String.toList_append

theorem text_printable {c : Char} (h : c ∈ text.toList) : c = 'x' ∨ c = 'é' := by
  rw [text_toList, front_toList] at h
  rcases List.mem_append.mp h with hfront | hlast
  · exact (List.mem_cons.mp hfront).imp_right List.eq_of_mem_replicate
  · exact .inr (List.mem_singleton.mp hlast)

theorem text_packets :
    textInput 1026 (.text text) = some (some (.ok [.text front, .text "é"])) := by
  have hpass : ¬(text.utf8ByteSize > MAX_CLIPBOARD_BYTES ∨ text.toList.any isControl) := by
    rw [text_size, List.any_eq_true]
    rintro (hlong | ⟨c, hmem, hcontrol⟩)
    · exact absurd hlong (by decide)
    · rcases text_printable hmem with rfl | rfl
      · exact absurd hcontrol (by decide)
      · exact absurd hcontrol (by decide)
  rw [textInput, textPackets, if_neg hpass, text_loop]
  rfl

/-- Two packets, for the character at bytes 1023 and 1024 goes whole into the second. -/
theorem two_packets : textInput 1026 (.text text) = some (some (.ok [.text front, .text "é"])) ∧
    SplitWhole text (textInput 1026 (.text text)) ∧
    SplitWhole text (textInput 1026 (.paste text)) :=
  ⟨text_packets, text_split text 1026 (by rw [text_size]; decide)⟩

end AccentedText

end SensorRemote
