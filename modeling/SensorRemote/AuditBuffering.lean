import SensorRemote.AuditHistory

/-!
# Buffering under the audit log

`verify` reads through a `BufRead`, which hands out the bytes of the file in pieces of any size.
Here its two loops are a transition system whose steps choose the pieces. Whatever they choose, it
comes to what going through the lines of the file gives.
-/

namespace SensorRemote

open Transition

/-- Where `verify` is. -/
inductive VerifyState where
  /-- in the inner loop, with `rest` not yet consumed -/
  | reading (head : AuditHead) (line rest : List UInt8)
  /-- behind the inner loop -/
  | checking (head : AuditHead) (line rest : List UInt8)
  /-- back at its caller -/
  | returned (result : Except AuditError AuditHead)

namespace VerifyState

/-- The bytes in `line`. -/
def line : VerifyState → List UInt8
  | reading _ line _ => line
  | checking _ line _ => line
  | returned _ => []

/-- A pass of the inner loop, when `fill_buf` returns `available`. -/
def fill (head : AuditHead) (line rest available : List UInt8) : VerifyState :=
  if available = [] then checking head line rest
  else
    let length := (available.findIdx? (· = newline)).elim available.length (· + 1)
    if line.length + length > MAX_LINE then returned (.error .invalid)
    else
      let line := line ++ available.take length
      let rest := rest.drop length
      if line.getLast? = some newline then checking head line rest else reading head line rest

/-- What is done with the line when the inner loop is left. -/
def check (codec : AuditCodec) (signer : PublicKey) (head : AuditHead) (line rest : List UInt8) :
    VerifyState :=
  if line = [] then returned (.ok head)
  else if line.getLast? ≠ some newline then returned (.error .invalid)
  else
    match codec.recordFromSlice line with
    | none => returned (.error .json)
    | some record =>
      match codec.next signer head record with
      | .error e => returned (.error e)
      | .ok head => reading head [] rest

end VerifyState

open VerifyState

/-- A step of `verify`, labelled with the piece it is handed. -/
inductive VerifyStep (codec : AuditCodec) (signer : PublicKey) :
    VerifyState → List UInt8 → VerifyState → Prop where
  /-- a piece is empty only at the end of the file -/
  | fill {head : AuditHead} {line rest available : List UInt8} (hpiece : available <+: rest)
      (hend : available = [] → rest = []) :
      VerifyStep codec signer (reading head line rest) available
        (VerifyState.fill head line rest available)
  | check {head : AuditHead} {line rest : List UInt8} :
      VerifyStep codec signer (checking head line rest) []
        (VerifyState.check codec signer head line rest)

/-- `verify` of a file with these bytes. -/
def verifySystem (codec : AuditCodec) (signer : PublicKey) (bytes : List UInt8) :
    LTS VerifyState (List UInt8) where
  init s := s = reading .default [] bytes
  step := VerifyStep codec signer

/-! ## The lines of the file -/

/-- What is left to go through gives this. -/
def AuditCodec.outcome (codec : AuditCodec) (signer : PublicKey) :
    VerifyState → Except AuditError AuditHead
  | reading head line rest => codec.verifyLines signer head (lines (line ++ rest))
  | checking head line rest =>
    codec.verifyLines signer head (if line = [] then [] else line :: lines rest)
  | returned result => result

/-- A line that is being read has no newline yet, and none is ever longer than it may be. -/
def VerifyState.Sound : VerifyState → Prop
  | reading _ line _ => newline ∉ line ∧ line.length ≤ MAX_LINE
  | checking _ line rest =>
    line.length ≤ MAX_LINE ∧ (line.getLast? = some newline ∨ rest = [] ∧ newline ∉ line)
  | returned _ => True

/-- The steps that are left, at most. -/
def VerifyState.left : VerifyState → ℕ
  | reading _ _ rest => 2 * rest.length + 2
  | checking _ line rest => if line.getLast? = some newline then 2 * rest.length + 3 else 1
  | returned _ => 0

section Lines

variable {codec : AuditCodec} {signer : PublicKey} {head : AuditHead}
  {line rest available : List UInt8}

/-- A line that does not fit is not gone through. -/
theorem verifyLines_of_long {piece : List UInt8} (more : List UInt8) (hpiece : newline ∉ piece)
    (hlong : MAX_LINE ≤ piece.length) :
    codec.verifyLines signer head (lines (piece ++ more)) = .error .invalid := by
  by_cases hmem : newline ∈ more
  · obtain ⟨body, later, rfl, hbody⟩ := exists_line hmem
    have hboth : newline ∉ piece ++ body := by simp [hpiece, hbody]
    rw [← List.append_assoc, lines_append hboth, AuditCodec.verifyLines,
      if_pos (.inl (by simp; omega))]
  · have hboth : newline ∉ piece ++ more := by simp [hpiece, hmem]
    have hne : piece ++ more ≠ [] := by
      rintro hnil
      rw [(List.append_eq_nil_iff.mp hnil).1] at hlong
      cases hlong
    have hlast : (piece ++ more).getLast? ≠ some newline :=
      fun h => hboth (List.mem_of_getLast? h)
    rw [lines_of_notMem hboth hne, AuditCodec.verifyLines, if_pos (.inr hlast)]

/-- The end of the file. -/
theorem fill_nil : fill head line rest [] = checking head line rest := if_pos rfl

/-- A piece of a line. -/
theorem fill_piece (hne : available ≠ []) (hline : newline ∉ line ++ available) :
    fill head line rest available =
      if (line ++ available).length > MAX_LINE then returned (.error .invalid)
      else reading head (line ++ available) (rest.drop available.length) := by
  have hnone : available.findIdx? (· = newline) = none :=
    List.findIdx?_eq_none_iff.mpr fun b hb => decide_eq_false fun heq =>
      hline (List.mem_append_right _ (heq ▸ hb))
  have hlast : (line ++ available).getLast? ≠ some newline :=
    fun h => hline (List.mem_of_getLast? h)
  rw [fill, if_neg hne, hnone]
  simp only [Option.elim_none, List.take_length, if_neg hlast, List.length_append]

/-- A piece with the end of the line in it. -/
theorem fill_line {body later : List UInt8} (hbody : newline ∉ body) :
    fill head line rest (body ++ newline :: later) =
      if MAX_LINE ≤ (line ++ body).length then returned (.error .invalid)
      else checking head (line ++ body ++ [newline]) (rest.drop (body.length + 1)) := by
  have hfind : (body ++ newline :: later).findIdx? (· = newline) = some body.length := by
    rw [List.findIdx?_eq_some_iff_getElem]
    refine ⟨by simp, by simp, fun j hj => ?_⟩
    rw [List.getElem_append_left hj]
    simpa using fun heq : body[j] = newline => hbody (heq ▸ List.getElem_mem hj)
  have hlast : (line ++ (body ++ [newline])).getLast? = some newline := by simp
  have hlength : line.length + (body.length + 1) > MAX_LINE ↔ MAX_LINE ≤ (line ++ body).length := by
    rw [List.length_append]
    omega
  rw [fill, if_neg (by simp), hfind]
  simp only [Option.elim_some, take_line, if_pos hlast, hlength, List.append_assoc]

variable (codec signer) in
/-- A pass of the inner loop loses nothing of what is left to go through. -/
theorem fill_sound (hsound : (reading head line rest).Sound) (hpiece : available <+: rest)
    (hend : available = [] → rest = []) :
    (fill head line rest available).Sound ∧
      codec.outcome signer (fill head line rest available) =
        codec.outcome signer (reading head line rest) ∧
      (fill head line rest available).left < (reading head line rest).left := by
  obtain ⟨hline, hlength⟩ := hsound
  by_cases hne : available = []
  · obtain rfl := hend hne
    subst hne
    have hlast : line.getLast? ≠ some newline := fun h => hline (List.mem_of_getLast? h)
    rw [fill_nil]
    refine ⟨⟨hlength, .inr ⟨rfl, hline⟩⟩, ?_, by simp [left, hlast]⟩
    by_cases hempty : line = []
    · subst hempty
      rfl
    · simp only [AuditCodec.outcome, if_neg hempty, List.append_nil, lines_of_notMem hline hempty]
      rfl
  by_cases hmem : newline ∈ available
  · obtain ⟨body, later, rfl, hbody⟩ := exists_line hmem
    obtain ⟨more, rfl⟩ := hpiece
    have hboth : newline ∉ line ++ body := by simp [hline, hbody]
    rw [fill_line hbody]
    split
    · rename_i hlong
      refine ⟨trivial, ?_, by simp [left]⟩
      rw [AuditCodec.outcome, AuditCodec.outcome, List.append_assoc, ← List.append_assoc line,
        verifyLines_of_long _ hboth hlong]
    · rename_i hfits
      have hdrop : (body ++ newline :: later ++ more).drop (body.length + 1) = later ++ more := by
        rw [List.append_assoc, List.cons_append, drop_line]
      rw [hdrop]
      refine ⟨⟨by simp at hfits ⊢; omega, .inl (by simp)⟩, ?_, by simp [left]; omega⟩
      have hsplit : line ++ (body ++ newline :: later ++ more) =
          line ++ body ++ newline :: (later ++ more) := by simp
      rw [AuditCodec.outcome, AuditCodec.outcome, if_neg (by simp), hsplit, lines_append hboth]
  · obtain ⟨more, rfl⟩ := hpiece
    have hboth : newline ∉ line ++ available := by simp [hline, hmem]
    rw [fill_piece hne hboth]
    split
    · rename_i hlong
      refine ⟨trivial, ?_, by simp [left]⟩
      rw [AuditCodec.outcome, AuditCodec.outcome, ← List.append_assoc,
        verifyLines_of_long _ hboth (by omega)]
    · rename_i hfits
      rw [List.drop_left]
      refine ⟨⟨hboth, by omega⟩, ?_, ?_⟩
      · rw [AuditCodec.outcome, AuditCodec.outcome, List.append_assoc]
      · have := List.length_pos_iff.mpr hne
        simp only [left, List.length_append]
        omega

/-- Nor does a pass of the outer one. -/
theorem check_sound (hsound : (checking head line rest).Sound) :
    (check codec signer head line rest).Sound ∧
      codec.outcome signer (check codec signer head line rest) =
        codec.outcome signer (checking head line rest) ∧
      (check codec signer head line rest).left < (checking head line rest).left := by
  obtain ⟨hlength, -⟩ := hsound
  have hpos : 0 < (checking head line rest).left := by
    simp only [left]
    split <;> omega
  by_cases hempty : line = []
  · subst hempty
    exact ⟨trivial, rfl, hpos⟩
  by_cases hlast : line.getLast? = some newline
  · have hgood : ¬(line.length > MAX_LINE ∨ line.getLast? ≠ some newline) := by
      rintro (hlong | hnone)
      · omega
      · exact hnone hlast
    simp only [check, AuditCodec.outcome, if_neg hempty, if_neg (not_not.mpr hlast),
      AuditCodec.verifyLines, if_neg hgood]
    cases codec.recordFromSlice line with
    | none => exact ⟨trivial, rfl, hpos⟩
    | some record =>
      simp only
      cases codec.next signer head record with
      | error e => exact ⟨trivial, rfl, hpos⟩
      | ok head =>
        refine ⟨⟨by simp, Nat.zero_le _⟩, rfl, ?_⟩
        simp only [left, if_pos hlast]
        omega
  · simp only [check, AuditCodec.outcome, if_neg hempty, if_pos hlast, AuditCodec.verifyLines,
      if_pos (Or.inr hlast)]
    exact ⟨trivial, trivial, hpos⟩

end Lines

/-! ## Runs -/

section Runs

variable {codec : AuditCodec} {signer : PublicKey} {bytes : List UInt8}

theorem verifyStep_sound {s t : VerifyState} {available : List UInt8} (hsound : s.Sound)
    (h : VerifyStep codec signer s available t) :
    t.Sound ∧ codec.outcome signer t = codec.outcome signer s ∧ t.left < s.left := by
  cases h with
  | fill hpiece hend => exact fill_sound codec signer hsound hpiece hend
  | check => exact check_sound hsound

theorem verifyState_sound {s : VerifyState} (h : (verifySystem codec signer bytes).Reachable s) :
    s.Sound := by
  refine h.invariant ?_ ?_
  · rintro s rfl
    exact ⟨by simp, Nat.zero_le _⟩
  · intro s available t hs (hst : VerifyStep codec signer s available t)
    exact (verifyStep_sound hs hst).1

theorem VerifyState.Sound.line_length {s : VerifyState} (h : s.Sound) :
    s.line.length ≤ MAX_LINE := by
  cases s with
  | reading head line rest => exact h.2
  | checking head line rest => exact h.1
  | returned result => exact Nat.zero_le _

/-- As long as `verify` has not returned, it goes on. -/
theorem exists_verifyStep {s : VerifyState} (h : ∀ result, s ≠ returned result) :
    ∃ available t, VerifyStep codec signer s available t := by
  cases s with
  | reading head line rest => exact ⟨rest, _, .fill (List.prefix_refl rest) id⟩
  | checking head line rest => exact ⟨[], _, .check⟩
  | returned result => exact absurd rfl (h result)

/-- Every run ends with what is left to go through. -/
theorem verify_returns {s : VerifyState} (h : s.Sound) :
    (verifySystem codec signer bytes).Inevitable (· = returned (codec.outcome signer s)) s := by
  refine LTS.Inevitable.of_measure (I := fun t =>
    t.Sound ∧ codec.outcome signer t = codec.outcome signer s) VerifyState.left ?_ ?_ ⟨h, rfl⟩
  · rintro t ⟨-, hout⟩ hnot
    exact exists_verifyStep fun result heq => hnot (by rw [heq, ← hout, heq]; rfl)
  · rintro t available u ⟨ht, hout⟩ - hst
    obtain ⟨hu, hkeep, hless⟩ := verifyStep_sound ht hst
    exact ⟨⟨hu, hkeep.trans hout⟩, hless⟩

variable (codec signer) in
/-- The refills of a buffer are one way to hand out the pieces. -/
theorem outcome_readLine (head : AuditHead) (chunks : List (List UInt8)) {line : List UInt8}
    (hsound : newline ∉ line ∧ line.length ≤ MAX_LINE) :
    codec.outcome signer (reading head line chunks.flatten) =
      match readLine true chunks line with
      | .error e => .error e
      | .ok (whole, rest) => codec.outcome signer (checking head whole rest.flatten) := by
  induction chunks generalizing line with
  | nil =>
    have hreading : (reading head line []).Sound := hsound
    obtain ⟨-, hkeep, -⟩ := fill_sound codec signer hreading (List.prefix_refl []) id
    rw [fill_nil] at hkeep
    exact hkeep.symm
  | cons available chunks ih =>
    by_cases hempty : available = []
    · subst hempty
      rw [List.flatten_cons, List.nil_append, ih hsound]
      simp [readLine, Nat.not_lt.mpr hsound.2]
    have hreading : (reading head line (available :: chunks).flatten).Sound := hsound
    obtain ⟨hnext, hkeep, -⟩ := fill_sound codec signer hreading ⟨chunks.flatten, rfl⟩
      fun h => absurd h hempty
    rw [← hkeep]
    cases hfind : available.findIdx? (· = newline) with
    | none =>
      have hboth : newline ∉ line ++ available := by simp [hsound.1, notMem_of_findIdx hfind]
      rw [fill_piece hempty hboth] at hnext ⊢
      simp only [readLine, hfind, List.length_append] at hnext ⊢
      split
      · rfl
      · rename_i hfits
        rw [if_neg hfits, List.flatten_cons, List.drop_left] at hnext
        rw [List.flatten_cons, List.drop_left]
        exact ih hnext
    | some n =>
      obtain ⟨body, later, rfl, hbody, rfl⟩ := split_of_findIdx hfind
      have hlong : MAX_LINE ≤ (line ++ body).length ↔
        line.length + (body.length + 1) > MAX_LINE := by
        rw [List.length_append]
        omega
      rw [fill_line hbody]
      simp only [readLine, hfind, hlong, take_line, drop_line]
      split
      · rfl
      · simp only [List.flatten_cons, List.append_assoc, List.cons_append, drop_line]

/-- `verify` over any refills of a buffer. -/
theorem verifyFrom_eq_verifyLines (head : AuditHead) (chunks : List (List UInt8)) :
    codec.verifyFrom signer true head chunks =
    codec.verifyLines signer head (lines chunks.flatten) := by
  generalize hn : chunks.flatten.length = n
  induction n using Nat.strongRecOn generalizing head chunks with
  | ind n ih =>
    have hempty : newline ∉ ([] : List UInt8) ∧ ([] : List UInt8).length ≤ MAX_LINE :=
      ⟨List.not_mem_nil, Nat.zero_le _⟩
    have hread := outcome_readLine codec signer head chunks hempty
    rw [AuditCodec.outcome, List.nil_append] at hread
    rw [hread, AuditCodec.verifyFrom]
    split
    · rename_i e herror
      rw [herror]
    · rename_i whole rest hok
      rw [hok]
      by_cases hempty : whole = []
      · subst hempty
        rfl
      have hshorter := readLine_shortens hok hempty
      have hlength := (readLine_cases hok (by simp) (Nat.zero_le _)).1
      rw [dif_neg hempty]
      simp only [AuditCodec.outcome, if_neg hempty, AuditCodec.verifyLines]
      by_cases hlast : whole.getLast? = some newline
      · have hgood : ¬(whole.length > MAX_LINE ∨ whole.getLast? ≠ some newline) := by
          rintro (hlong | hnone)
          · omega
          · exact hnone hlast
        rw [if_neg (not_not.mpr hlast), if_neg hgood]
        cases codec.recordFromSlice whole with
        | none => rfl
        | some record =>
          simp only
          cases codec.next signer head record with
          | error e => rfl
          | ok head => exact ih _ (hn ▸ hshorter) head rest rfl
      · rw [if_pos hlast, if_pos (.inr hlast)]

end Runs

/-- What `append` writes is at most a line that fits. -/
theorem AuditLog.append_length (codec : AuditCodec) (log : AuditLog) (event : AuditEvent)
    (timestampMs failure : Option ℕ) :
    (log.append codec event timestampMs failure).2.2.length ≤ MAX_LINE := by
  generalize happend : log.append codec event timestampMs failure = appended
  obtain ⟨result, after, written⟩ := appended
  have hcases := append_cases happend
  generalize log.record codec event timestampMs = made at hcases
  cases hcases with
  | nothing => exact Nat.zero_le _
  | failed hline =>
    obtain ⟨json, -, -, hfits, -⟩ := line_eq_ok hline
    exact (List.length_take_le' _ _).trans hfits
  | done hline =>
    obtain ⟨json, -, -, hfits, -⟩ := line_eq_ok hline
    exact hfits

/-- **Verification does not depend on buffering.** -/
theorem verify_ignores_buffering (codec : AuditCodec) (signer : PublicKey) (bytes : List UInt8) :
    (∀ s, (verifySystem codec signer bytes).init s → (verifySystem codec signer bytes).Inevitable
      (· = returned (codec.verifyLines signer .default (lines bytes))) s) ∧
    (∀ s, (verifySystem codec signer bytes).Reachable s → s.line.length ≤ MAX_LINE) ∧
    (∀ chunks, chunks.flatten = bytes → codec.verifyLog ⟨chunks, true⟩ signer =
      codec.verifyLines signer .default (lines bytes)) ∧
    ∀ (log : AuditLog) (event : AuditEvent) (timestampMs failure : Option ℕ),
      (log.append codec event timestampMs failure).2.2.length ≤ MAX_LINE := by
  refine ⟨?_, fun s hs => (verifyState_sound hs).line_length, ?_, ?_⟩
  · rintro s rfl
    have hsound : (reading .default [] bytes).Sound := ⟨by simp, Nat.zero_le _⟩
    exact verify_returns hsound
  · rintro chunks rfl
    exact verifyFrom_eq_verifyLines .default chunks
  · exact fun log event timestampMs failure =>
      AuditLog.append_length codec log event timestampMs failure

namespace FirstRecord

theorem verifyLines_record :
    device.verifyLines publicKey .default (lines (recordJson ++ [newline])) = .ok ⟨1, digest⟩ := by
  have hgood : ¬((recordJson ++ [newline]).length > MAX_LINE ∨
      (recordJson ++ [newline]).getLast? ≠ some newline) := by
    rintro (hlong | hlast)
    · exact absurd fits (Nat.not_le.mpr hlong)
    · exact hlast List.getLast?_concat
  have hsignature : device.SignatureHolds publicKey record :=
    ⟨_, signable, decide_eq_true ⟨rfl, device_sign.symm⟩⟩
  have hnext : device.next publicKey .default record = .ok ⟨1, digest⟩ := by
    rw [AuditCodec.next_eq_ok]
    exact ⟨rfl, rfl, rfl, hsignature, by decide, by rw [digest_eq]; rfl⟩
  rw [lines_append newline_notMem, lines, AuditCodec.verifyLines, if_neg hgood,
    device_recordFromSlice]
  simp only [hnext]
  rfl

/-- The first record, handed out in two pieces that end before its newline. -/
theorem accepted_in_pieces :
    device.verifyLog ⟨[recordJson.take 10, recordJson.drop 10, [newline]], true⟩ publicKey =
        .ok ⟨1, digest⟩ ∧
      (reading .default [] (recordJson ++ [newline])).line.length ≤ MAX_LINE := by
  obtain ⟨-, hbound, hlog, -⟩ := verify_ignores_buffering device publicKey (recordJson ++ [newline])
  have hpieces : [recordJson.take 10, recordJson.drop 10, [newline]].flatten =
      recordJson ++ [newline] := by
    rw [List.flatten_cons, List.flatten_cons, List.flatten_singleton, ← List.append_assoc,
      List.take_append_drop]
  refine ⟨?_, hbound _ (.init rfl)⟩
  rw [hlog _ hpieces, verifyLines_record]

end FirstRecord

end SensorRemote
