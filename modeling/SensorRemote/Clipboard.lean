import SensorRemote.Lib.Bytes
import SensorRemote.Lib.History
import SensorRemote.Media
import SensorRemote.Permissions

/-!
# The shared clipboard

`TextClipboard` (`sensor-windows`) looks at the clipboard of the host system from time to time
and says what is to be sent to the peer; what the peer sends it puts there. It keeps one
fingerprint, of the text it saw or put there last: without one, what it sees is not sent, and what
it sees again is not sent either. So a text that is sent differs from the last one that was
recorded, and nothing but a copy of the user's can have put it there since (`clipboard_shared`).
That two texts may have one fingerprint does not matter; only equal texts need equal ones.
-/

namespace SensorRemote

open Bytes

variable {δ : Type}

/-! ## The program -/

/-- `TextClipboard`. -/
structure TextClipboard (δ : Type) where
  /-- there is a handle of the clipboard to write with -/
  clipboard : Bool
  fingerprint : Option δ

/-- `TextClipboard::default`. -/
def TextClipboard.default : TextClipboard δ := ⟨false, none⟩

namespace TextClipboard

variable [DecidableEq δ] (digest : List UInt8 → δ)

/-- `observe`. -/
def observe (c : TextClipboard δ) (text : String) : TextClipboard δ × Option String :=
  match validateClipboard text with
  | .error _ => (c, none)
  | .ok () =>
    let digest := digest (utf8 text)
    let previous := c.fingerprint
    ({ c with fingerprint := some digest },
      if previous.isSome ∧ previous ≠ some digest then some text else none)

/-- `poll`; `boundedText` is what `bounded_text` makes of the clipboard. -/
def poll (c : TextClipboard δ) (enabled : Bool) (consent : Consent) (boundedText : Option String) :
    TextClipboard δ × Option String :=
  if !enabled ∨ consent.require .clipboardText ≠ .ok () then ({ c with fingerprint := none }, none)
  else
    match boundedText with
    | none => (c, none)
    | some text => c.observe digest text

/-- `apply`. The host system may refuse the handle (`opens`) and the text (`sets`). -/
def apply (c : TextClipboard δ) (text : String) (enabled : Bool) (consent : Consent)
    (opens sets : Bool) : TextClipboard δ × Except String Bool :=
  match consent.require .clipboardText with
  | .error e => (c, .error e.display)
  | .ok () =>
    match validateClipboard text with
    | .error e => (c, .error e.display)
    | .ok () =>
      if !enabled then (c, .ok false)
      else if !c.clipboard ∧ !opens then (c, .error "Clipboard unavailable")
      else if !sets then ({ c with clipboard := true }, .error "Clipboard busy or unavailable")
      else ({ clipboard := true, fingerprint := some (digest (utf8 text)) }, .ok true)

end TextClipboard

/-! ## Runs -/

/-- The component and the text on the clipboard of the host system. -/
structure Clipboards (δ : Type) where
  endpoint : TextClipboard δ
  content : Option String

/-- What happens to the two. -/
inductive ClipboardEvent where
  /-- the user copies a text -/
  | copy (text : String)
  /-- `readable`: the host system gives the text out -/
  | poll (enabled : Bool) (consent : Consent) (readable : Bool)
  | apply (text : String) (enabled : Bool) (consent : Consent) (opens sets : Bool)

namespace Clipboards

variable [DecidableEq δ] (digest : List UInt8 → δ)

/-- What `poll` makes of the clipboard. -/
def pollResult (s : Clipboards δ) (enabled : Bool) (consent : Consent) (readable : Bool) :
    TextClipboard δ × Option String :=
  s.endpoint.poll digest enabled consent (if readable then s.content else none)

/-- The text is on the clipboard afterwards if `apply` says so. -/
def step (s : Clipboards δ) : ClipboardEvent → Clipboards δ
  | .copy text => { s with content := some text }
  | .poll enabled consent readable =>
    { s with endpoint := (s.pollResult digest enabled consent readable).1 }
  | .apply text enabled consent opens sets =>
    let (endpoint, result) := s.endpoint.apply digest text enabled consent opens sets
    ⟨endpoint, if result = .ok true then some text else s.content⟩

/-- What is to be sent to the peer. -/
def polled (s : Clipboards δ) : ClipboardEvent → Option String
  | .poll enabled consent readable => (s.pollResult digest enabled consent readable).2
  | _ => none

/-- What has become of the clipboard with `content` on it, and of a component created then. -/
def run (content : Option String) (events : List ClipboardEvent) : Clipboards δ :=
  events.foldl (step digest) ⟨.default, content⟩

end Clipboards

/-! ## What events do -/

namespace TextClipboard

variable {digest : List UInt8 → δ}

theorem fingerprint_of_applied {c c' : TextClipboard δ} {text : String} {enabled : Bool}
    {consent : Consent} {opens sets : Bool}
    (h : c.apply digest text enabled consent opens sets = (c', .ok true)) :
    c'.fingerprint = some (digest (utf8 text)) := by
  simp only [TextClipboard.apply] at h
  split at h
  · cases h
  · split at h
    · cases h
    · split_ifs at h
      all_goals cases h
      rfl

/-- An `apply` that does not succeed leaves the fingerprint. -/
theorem fingerprint_of_apply {c : TextClipboard δ} {text : String} {enabled : Bool}
    {consent : Consent} {opens sets : Bool}
    (h : (c.apply digest text enabled consent opens sets).2 ≠ .ok true) :
    (c.apply digest text enabled consent opens sets).1.fingerprint = c.fingerprint := by
  simp only [TextClipboard.apply] at h ⊢
  split
  · rfl
  · split
    · rfl
    · rename_i hconsent _ hvalid
      simp only [hconsent, hvalid] at h
      split_ifs at h ⊢
      all_goals first | rfl | exact (h rfl).elim

end TextClipboard

/-- A poll sees that the clipboard is not shared. -/
def ClipboardEvent.Stops : ClipboardEvent → Prop
  | .poll enabled consent _ => ¬(enabled = true ∧ consent.require .clipboardText = .ok ())
  | _ => False

namespace Clipboards

variable [DecidableEq δ] (digest : List UInt8 → δ)

/-- An observation: a poll sees a text, which may be sent or not. -/
def Observes (s : Clipboards δ) (e : ClipboardEvent) : Prop :=
  ∃ enabled consent text, e = .poll enabled consent true ∧ ¬e.Stops ∧ s.content = some text ∧
    validateClipboard text = .ok ()

/-- A successful apply. -/
def Applies (s : Clipboards δ) (e : ClipboardEvent) : Prop :=
  ∃ text enabled consent opens sets, e = .apply text enabled consent opens sets ∧
    (s.endpoint.apply digest text enabled consent opens sets).2 = .ok true

/-- A text gets on the clipboard. -/
def Puts (s : Clipboards δ) (e : ClipboardEvent) : Prop :=
  (∃ text, e = .copy text) ∨ s.Applies digest e

/-- What is on the clipboard after `events` is what the user copied after the first ones of them,
`earlier`. -/
def CopiedAfter (content : Option String) (events : List ClipboardEvent) (text : String)
    (earlier : List ClipboardEvent) : Prop :=
  ∃ later, events = earlier ++ .copy text :: later ∧
    Along (step digest) (fun s e => ¬s.Puts digest e)
      (step digest (run digest content earlier) (.copy text)) later

variable {digest} {s : Clipboards δ} {e : ClipboardEvent} {content : Option String}

/-- What is recorded is what is on the clipboard. -/
theorem step_records (h : s.Observes e ∨ s.Applies digest e) : ∃ text,
    (s.step digest e).content = some text ∧
      (s.step digest e).endpoint.fingerprint = some (digest (utf8 text)) := by
  rcases h with ⟨enabled, consent, text, rfl, hshared, hcontent, hvalid⟩ |
    ⟨text, enabled, consent, opens, sets, rfl, hok⟩
  · obtain ⟨henabled, hconsent⟩ := not_not.mp hshared
    have hpass : ¬((!enabled) = true ∨ consent.require .clipboardText ≠ .ok ()) := by
      simp [henabled, hconsent]
    refine ⟨text, hcontent, ?_⟩
    simp only [step, pollResult, TextClipboard.poll, if_neg hpass, if_true, hcontent,
      TextClipboard.observe, hvalid]
  · refine ⟨text, ?_, TextClipboard.fingerprint_of_applied (Prod.ext rfl hok)⟩
    simp only [step, if_pos hok]

theorem step_stops (h : e.Stops) : (s.step digest e).endpoint.fingerprint = none := by
  cases e with
  | copy text => exact h.elim
  | apply text enabled consent opens sets => exact h.elim
  | poll enabled consent readable =>
    have hstop : (!enabled) = true ∨ consent.require .clipboardText ≠ .ok () := by
      simp only [ClipboardEvent.Stops, not_and_or] at h
      simpa using h
    simp only [step, pollResult, TextClipboard.poll, if_pos hstop]

/-- Nothing else changes the fingerprint. -/
theorem step_fingerprint (hrecords : ¬(s.Observes e ∨ s.Applies digest e)) (hstops : ¬e.Stops) :
    (s.step digest e).endpoint.fingerprint = s.endpoint.fingerprint := by
  cases e with
  | copy text => rfl
  | apply text enabled consent opens sets =>
    exact TextClipboard.fingerprint_of_apply fun hok =>
      hrecords (.inr ⟨text, enabled, consent, opens, sets, rfl, hok⟩)
  | poll enabled consent readable =>
    obtain ⟨henabled, hconsent⟩ := not_not.mp hstops
    have hpass : ¬((!enabled) = true ∨ consent.require .clipboardText ≠ .ok ()) := by
      simp [henabled, hconsent]
    simp only [step, pollResult, TextClipboard.poll, if_neg hpass]
    cases hread : if readable = true then s.content else none with
    | none => rfl
    | some text =>
      simp only [TextClipboard.observe]
      cases hvalid : validateClipboard text with
      | error e => rfl
      | ok u =>
        have hreadable : readable = true := by
          by_contra hnot
          rw [if_neg hnot] at hread
          cases hread
        subst hreadable
        exact (hrecords (.inl ⟨enabled, consent, text, rfl, hstops, hread, hvalid⟩)).elim

theorem step_content (h : ¬s.Puts digest e) : (s.step digest e).content = s.content := by
  cases e with
  | copy text => exact (h (.inl ⟨text, rfl⟩)).elim
  | poll enabled consent readable => rfl
  | apply text enabled consent opens sets =>
    exact if_neg fun hok => h (.inr ⟨text, enabled, consent, opens, sets, rfl, hok⟩)

/-- A text that is sent is observed, and differs from what was recorded last. -/
theorem polled_eq_some {text : String} (h : s.polled digest e = some text) :
    s.Observes e ∧ s.content = some text ∧
      ∃ previous, s.endpoint.fingerprint = some previous ∧ previous ≠ digest (utf8 text) := by
  cases e with
  | copy text => cases h
  | apply text enabled consent opens sets => cases h
  | poll enabled consent readable =>
    simp only [polled, pollResult, TextClipboard.poll] at h
    split at h
    · cases h
    · rename_i hpass
      cases hread : if readable = true then s.content else none with
      | none => simp [hread] at h
      | some seen =>
        simp only [hread, TextClipboard.observe] at h
        cases hvalid : validateClipboard seen with
        | error e => simp [hvalid] at h
        | ok u =>
          simp only [hvalid] at h
          split at h
          · rename_i hnew
            obtain rfl := Option.some.inj h
            have hreadable : readable = true := by
              by_contra hnot
              rw [if_neg hnot] at hread
              cases hread
            subst hreadable
            obtain ⟨previous, hprevious⟩ := Option.isSome_iff_exists.mp hnew.1
            refine ⟨⟨enabled, consent, seen, rfl, ?_, hread, hvalid⟩, hread, previous, hprevious,
              fun heq => hnew.2 (by rw [hprevious, heq])⟩
            simpa [ClipboardEvent.Stops] using hpass
          · cases h

/-! ### Along a run -/

theorem run_cons (before : List ClipboardEvent) (e : ClipboardEvent) (after : List ClipboardEvent) :
    run digest content (before ++ e :: after) =
      after.foldl (step digest) ((run digest content before).step digest e) := by
  rw [run, List.foldl_append, List.foldl_cons]
  rfl

/-- The event that recorded the fingerprint. Since then the clipboard is shared. -/
theorem exists_mark {events : List ClipboardEvent} {previous : δ}
    (h : (run digest content events).endpoint.fingerprint = some previous) :
    ∃ before mark rest, events = before ++ mark :: rest ∧
      ((run digest content before).Observes mark ∨
        (run digest content before).Applies digest mark) ∧
      Along (step digest) (fun s e => ¬((s.Observes e ∨ s.Applies digest e) ∨ e.Stops))
        ((run digest content before).step digest mark) rest ∧
      ((run digest content before).step digest mark).endpoint.fingerprint = some previous := by
  have hkeeps : ∀ (s : Clipboards δ) (e : ClipboardEvent),
      ¬((s.Observes e ∨ s.Applies digest e) ∨ e.Stops) →
        (s.step digest e).endpoint.fingerprint = s.endpoint.fingerprint := fun s e hnone =>
    step_fingerprint (fun hrecords => hnone (.inl hrecords)) fun hstops => hnone (.inr hstops)
  rcases Along.last (step digest) (fun s e => (s.Observes e ∨ s.Applies digest e) ∨ e.Stops)
    ⟨.default, content⟩ events with hnone | ⟨before, mark, rest, rfl, hmark, hrest⟩
  · -- there is no fingerprint at first
    have hfirst : (run digest content events).endpoint.fingerprint = none :=
      hnone.kept (f := fun s => s.endpoint.fingerprint) hkeeps
    rw [hfirst] at h
    cases h
  · have hlast : (run digest content (before ++ mark :: rest)).endpoint.fingerprint =
        ((run digest content before).step digest mark).endpoint.fingerprint := by
      rw [run_cons]
      exact hrest.kept (f := fun s => s.endpoint.fingerprint) hkeeps
    rw [hlast] at h
    rcases hmark with hrecords | hstops
    · exact ⟨before, mark, rest, rfl, hrecords, hrest, h⟩
    · rw [step_stops hstops] at h
      cases h

/-- Without a successful apply another text on the clipboard is a copy of the user's. -/
theorem exists_copy {before rest : List ClipboardEvent} {mark : ClipboardEvent} {seen text : String}
    (hrest : Along (step digest) (fun s e => ¬s.Applies digest e)
      ((run digest content before).step digest mark) rest)
    (hseen : ((run digest content before).step digest mark).content = some seen)
    (htext : (run digest content (before ++ mark :: rest)).content = some text)
    (hne : seen ≠ text) :
    ∃ between, CopiedAfter digest content (before ++ mark :: rest) text
      (before ++ mark :: between) := by
  rcases Along.last (step digest) (fun s e => s.Puts digest e)
    ((run digest content before).step digest mark) rest with
    hnone | ⟨between, put, later, rfl, hput, hlater⟩
  · have hsame : (run digest content (before ++ mark :: rest)).content = some seen := by
      rw [run_cons, ← hseen]
      exact hnone.kept (f := fun s => s.content) fun s e => step_content
    exact (hne (Option.some.inj (hsame.symm.trans htext))).elim
  · rw [← run_cons] at hput hlater
    rcases hput with ⟨copied, rfl⟩ | happlies
    · have hsplit : before ++ mark :: (between ++ .copy copied :: later) =
          (before ++ mark :: between) ++ .copy copied :: later := by simp
      have hsame : (run digest content
          (before ++ mark :: (between ++ .copy copied :: later))).content = some copied := by
        rw [hsplit, run_cons]
        exact hlater.kept (f := fun s => s.content) fun s e => step_content
      obtain rfl := Option.some.inj (hsame.symm.trans htext)
      exact ⟨between, later, hsplit, hlater⟩
    · have hnot := (Along.append.mp hrest).2.1
      rw [← run_cons] at hnot
      exact (hnot happlies).elim

/-- What is sent was copied after the last event that recorded a text. -/
theorem polled_copied {events : List ClipboardEvent} {text : String}
    (h : (run digest content events).polled digest e = some text) :
    ∃ before mark rest, events = before ++ mark :: rest ∧
      ((run digest content before).Observes mark ∨
        (run digest content before).Applies digest mark) ∧
      Along (step digest) (fun s e => ¬((s.Observes e ∨ s.Applies digest e) ∨ e.Stops))
        ((run digest content before).step digest mark) rest ∧
      ∃ between, CopiedAfter digest content events text (before ++ mark :: between) := by
  obtain ⟨-, htext, previous, hprevious, hne⟩ := polled_eq_some h
  obtain ⟨before, mark, rest, rfl, hrecords, hrest, hmark⟩ := exists_mark hprevious
  obtain ⟨seen, hseen, hfingerprint⟩ := step_records hrecords
  refine ⟨before, mark, rest, rfl, hrecords, hrest,
    exists_copy (hrest.mono fun _ _ hnone happlies => hnone (.inl (.inr happlies))) hseen htext ?_⟩
  rintro rfl
  exact hne (Option.some.inj (hmark.symm.trans hfingerprint))

theorem CopiedAfter.unique {events earlier earlier' : List ClipboardEvent} {text text' : String}
    (h : CopiedAfter digest content events text earlier)
    (h' : CopiedAfter digest content events text' earlier') : earlier = earlier' := by
  obtain ⟨later, rfl, hlater⟩ := h
  obtain ⟨later', heq, hlater'⟩ := h'
  exact Along.last_unique heq (.inl ⟨text, rfl⟩) hlater (.inl ⟨text', rfl⟩) hlater'

/-! ## The result -/

/-- **Clipboard sharing neither echoes nor leaks.** Whatever the user, the peer and the host system
do, a text that `poll` gives was copied by the user, and is on the clipboard because of that copy;
the copy came after an observation or a successful apply since when no poll saw the clipboard not
shared; and one copy is given once. -/
theorem clipboard_shared (digest : List UInt8 → δ) (content : Option String) :
    (∀ events e text, (run digest content events).polled digest e = some text →
      ∃ before mark rest between, events = before ++ mark :: rest ∧
        ((run digest content before).Observes mark ∨
          (run digest content before).Applies digest mark) ∧
        (∀ e ∈ rest, ¬e.Stops) ∧
        CopiedAfter digest content events text (before ++ mark :: between)) ∧
    (∀ events e more e' text text' earlier earlier',
      (run digest content events).polled digest e = some text →
      (run digest content (events ++ e :: more)).polled digest e' = some text' →
      CopiedAfter digest content events text earlier →
      CopiedAfter digest content (events ++ e :: more) text' earlier' → earlier ≠ earlier') := by
  refine ⟨fun events e text h => ?_, fun events e more e' text text' earlier earlier' h h' hcopy
    hcopy' => ?_⟩
  · obtain ⟨before, mark, rest, rfl, hrecords, hrest, between, hcopied⟩ := polled_copied h
    refine ⟨before, mark, rest, between, rfl, hrecords, fun e he hstops => ?_, hcopied⟩
    obtain ⟨s, hnone⟩ := hrest.of_mem he
    exact hnone (.inr hstops)
  · obtain ⟨before, mark, rest, heq, -, hrest, between, hcopied⟩ := polled_copied h'
    rintro rfl
    obtain rfl := hcopy'.unique hcopied
    obtain ⟨later, rfl, -⟩ := hcopy
    -- the first poll would be after the last event that recorded a text, and it is an observation
    have hsplit : rest = (between ++ .copy text :: later) ++ e :: more := by
      simpa using heq.symm
    subst hsplit
    have hnone := (Along.append.mp hrest).2.1
    rw [← run_cons, ← List.cons_append, ← List.append_assoc] at hnone
    exact hnone (.inl (.inl (polled_eq_some h).1))

end Clipboards

end SensorRemote
