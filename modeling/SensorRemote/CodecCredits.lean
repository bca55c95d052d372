import SensorRemote.Codec

/-!
# The credits of a transform

An asynchronous transform is given an input only for an event that asked for one, and asked for an
output only for an event that announced one. `Engine` counts the events not used yet. Whatever the
transform answers, and whichever calls fail, a run of calls on a codec never spends what was not
granted, and between two calls the counts are exactly what is left.

The counts are fields of the engine, and the events are in the history of the transform, so the
invariant relates the two (`Accounted`): what was granted is what was spent, what was given up and
what is still counted. Between taking a credit from its count and the call that spends it, the
credit is in neither place; the invariant carries it as the credit in hand, `held`.

* `solvency` is the regime of all code here: what it guarantees at every moment is that no more was
  spent than granted, and that a synchronous transform is never asked for an event.

* The operations come first. Those that are `Silent` change nothing in the accounts, and each of the
  others says what it makes of the credit in hand.

* The programs of the engine follow, from `take_event` to `input` and `output`, and then those of
  the encoder and the decoder, which only have to be composed: each `Keeps` the accounts with no
  credit in hand.
-/

namespace SensorRemote.H264

open Program

/-! ## Credits -/

/-- There is room for a sample within `maximum`, or the transform provides the sample itself. -/
def OutputStreamInfo.fits (maximum : ℕ) (info : OutputStreamInfo) : Bool :=
  info.providesSamples || max info.size 4096 ≤ maximum

/-- What an event of the transform allows once: to give it an input, or to ask it for an output. -/
inductive Credit where
  | input
  | output
  deriving DecidableEq

namespace Credit

/-- The engine's count of credits of the kind. -/
def ready : Credit → Engine → ℕ
  | .input, engine => engine.inputReady
  | .output, engine => engine.outputReady

/-- The assignment to the count of the kind. -/
def setReady : Credit → ℕ → FieldOp Unit
  | .input, ready => .setInputReady ready
  | .output, ready => .setOutputReady ready

/-- The type of the event that grants it. -/
def type : Credit → MediaEventType
  | .input => .needInput
  | .output => .haveOutput

/-- An answer of the transform that grants a credit. An event that reports a failure, or whose type
cannot be read, grants nothing. -/
def grants : Credit → Event TransformOp → Bool
  | .input, ⟨.getEvent, .ok ⟨.ok (.ok ()), .ok .needInput⟩⟩ => true
  | .output, ⟨.getEvent, .ok ⟨.ok (.ok ()), .ok .haveOutput⟩⟩ => true
  | _, _ => false

/-- A call that spends one, whatever the transform answers to it. -/
def spends : Credit → Event TransformOp → Bool
  | .input, ⟨.processInput _, _⟩ => true
  | .output, ⟨.processOutput, _⟩ => true
  | _, _ => false

/-- A failure that an output allowed is not asked for after: how large a sample has to be is not
known, is more than `maximum`, or there is no such sample. The engine has lowered its count by
then. -/
def forfeits (maximum : ℕ) : Credit → Event TransformOp → Bool
  | .output, ⟨.getOutputStreamInfo, .error _⟩ => true
  | .output, ⟨.getOutputStreamInfo, .ok info⟩ => !info.fits maximum
  | .output, ⟨.createOutput _, .error _⟩ => true
  | _, _ => false

/-- How many credits were granted so far. -/
def granted (c : Credit) (history : List (Event TransformOp)) : ℕ := history.countP c.grants

/-- How many were spent so far. -/
def spent (c : Credit) (history : List (Event TransformOp)) : ℕ := history.countP c.spends

/-- How many were given up, with an error that the caller sees. -/
def forfeited (maximum : ℕ) (c : Credit) (history : List (Event TransformOp)) : ℕ :=
  history.countP (c.forfeits maximum)

/-- A credit that is in hand, so in no count. -/
def extra (held : Option Credit) (c : Credit) : ℕ := if held = some c then 1 else 0

end Credit

/-- The transform was asked for an event. -/
def asksEvent : Event TransformOp → Bool
  | ⟨.getEvent, _⟩ => true
  | _ => false

/-- The counts are what is left of the credits granted, but for the one in hand. None is made up
(`covered`), and none is lost unless a count saturates, for which the transform would have to grant
`2 ^ 32` credits (`exact`). -/
structure Accounted (maximum : ℕ) (held : Option Credit) (s : CodecState) : Prop where
  covered : ∀ c : Credit,
    c.spent s.history + c.forfeited maximum s.history + c.ready s.engine + c.extra held ≤
      c.granted s.history
  exact : ∀ c : Credit, c.granted s.history < 2 ^ 32 →
    c.spent s.history + c.forfeited maximum s.history + c.ready s.engine + c.extra held =
      c.granted s.history

/-- What holds at any moment, also between two calls on the transform: an asynchronous one was not
asked for more than it granted, and a synchronous one never for an event. -/
structure Solvent (asynchronous : Bool) (s : CodecState) : Prop where
  kind : s.engine.asynchronous = asynchronous
  covered : asynchronous = true → ∀ c : Credit, c.spent s.history ≤ c.granted s.history
  silent : asynchronous = false → ∀ e ∈ s.history, asksEvent e = false

/-- The accounts of an asynchronous transform, with the credit in hand; a synchronous one has
none. -/
def Owns (maximum : ℕ) (asynchronous : Bool) (held : Option Credit) (s : CodecState) : Prop :=
  asynchronous = true → Accounted maximum held s

/-- Code that keeps the codec solvent. -/
abbrev solvency (asynchronous : Bool) : Regime codec :=
  .keeping codec (Solvent asynchronous) fun _ _ h => h

/-! ## Operations -/

variable {maximum : ℕ} {asynchronous : Bool} {held : Option Credit} {s : CodecState} {α β : Type}

/-- The operation is a call on the transform that neither grants nor spends a credit. -/
def EngineOp.Silent : {β : Type} → EngineOp β → Prop
  | _, .field _ | _, .call .getEvent | _, .call (.processInput _) | _, .call .processOutput |
    _, .call .getOutputStreamInfo | _, .call (.createOutput _) => False
  | _, .call _ => True

/-- What is accounted for is covered: what is counted or in hand only adds to what was spent. -/
theorem Solvent.of_owns {s' : CodecState} (hs : Solvent asynchronous s)
    (hsame : s'.engine.asynchronous = s.engine.asynchronous)
    (h : Owns maximum asynchronous held s')
    (hsilent : asynchronous = false → ∀ e ∈ s'.history, e ∈ s.history ∨ asksEvent e = false) :
    Solvent asynchronous s' := by
  refine ⟨hsame.trans hs.kind, fun hasync c => ?_, fun hsync e he => ?_⟩
  · have hcovered := (h hasync).covered c
    omega
  · rcases hsilent hsync e he with hold | hnew
    · exact hs.silent hsync e hold
    · exact hnew

/-- A call on the transform leaves the codec solvent if the accounts are right after it. -/
theorem Solvent.call {o : TransformOp β} {b : β} (hs : Solvent asynchronous s)
    (h : Owns maximum asynchronous held { s with history := s.history ++ [⟨o, b⟩] })
    (hquiet : asynchronous = false → asksEvent ⟨o, b⟩ = false) :
    Solvent asynchronous { s with history := s.history ++ [⟨o, b⟩] } := by
  refine hs.of_owns rfl h fun hsync e he => ?_
  rcases List.mem_append.mp he with hold | hnew
  · exact .inl hold
  · rw [List.mem_singleton.mp hnew]
    exact .inr (hquiet hsync)

/-- What the engine is read to be is what it is then. -/
theorem correct_get (P : CodecState → Prop) :
    (solvency asynchronous).Correct () P (.field .get) fun engine s => P s ∧ engine = s.engine := by
  rintro s engine _ hs hP ⟨rfl, rfl⟩
  exact ⟨hs, trivial, hP, rfl⟩

/-- One call more, as the counts see it: what the event spends, forfeits and leaves in hand is what
it grants and was in hand before. -/
theorem accounted_call {o : TransformOp β} {b : β} {held' : Option Credit}
    (h : Accounted maximum held s)
    (hsame : ∀ c : Credit, (if c.spends ⟨o, b⟩ then 1 else 0) +
      (if c.forfeits maximum ⟨o, b⟩ then 1 else 0) + c.extra held' =
        (if c.grants ⟨o, b⟩ then 1 else 0) + c.extra held) :
    Accounted maximum held' { s with history := s.history ++ [⟨o, b⟩] } := by
  have hcount (p : Event TransformOp → Bool) :
      (s.history ++ [(⟨o, b⟩ : Event TransformOp)]).countP p =
        s.history.countP p + if p ⟨o, b⟩ then 1 else 0 := by
    rw [List.countP_append, List.countP_singleton]
  constructor
  all_goals
    intro c
    have hcovered := h.covered c
    have hexact := h.exact c
    have hone := hsame c
    simp only [Credit.spent, Credit.granted, Credit.forfeited, hcount] at hcovered hexact ⊢
    omega

/-- A silent operation leaves the accounts as they are. -/
theorem correct_silent {o : EngineOp β} (ho : o.Silent) :
    (solvency asynchronous).Correct () (Owns maximum asynchronous held) o fun _ =>
      Owns maximum asynchronous held := by
  intro s b s' hs howns hstep
  cases o with
  | field o => exact ho.elim
  | call o =>
    obtain rfl := hstep
    have hquiet : asksEvent ⟨o, b⟩ = false ∧ ∀ c : Credit,
        c.spends ⟨o, b⟩ = false ∧ c.forfeits maximum ⟨o, b⟩ = false ∧ c.grants ⟨o, b⟩ = false := by
      cases o
      case getEvent | processInput | processOutput | getOutputStreamInfo | createOutput =>
        exact ho.elim
      all_goals exact ⟨rfl, fun c => by cases c <;> exact ⟨rfl, rfl, rfl⟩⟩
    have howns' : Owns maximum asynchronous held { s with history := s.history ++ [⟨o, b⟩] } := by
      refine fun hasync => accounted_call (howns hasync) fun c => ?_
      simp [(hquiet.2 c).1, (hquiet.2 c).2.1, (hquiet.2 c).2.2]
    exact ⟨hs.call howns' fun _ => hquiet.1, trivial, howns'⟩

/-- The credit an answered event grants. -/
def creditOf : Except WindowsError MediaEvent → Option Credit
  | .ok ⟨.ok (.ok ()), .ok .needInput⟩ => some .input
  | .ok ⟨.ok (.ok ()), .ok .haveOutput⟩ => some .output
  | _ => none

/-- An event grants the credit it is for, and no other. -/
theorem grants_getEvent (c : Credit) (event : Except WindowsError MediaEvent) :
    (if c.grants ⟨.getEvent, event⟩ then 1 else 0) = c.extra (creditOf event) := by
  rcases event with e | ⟨(e | (e | ⟨⟩)), (e | (_ | _ | _))⟩ <;> cases c <;> rfl

/-- The credit an event grants is in hand until it is counted. -/
theorem correct_getEvent :
    (solvency true).Correct () (Owns maximum true none) (.call .getEvent) fun event =>
      Owns maximum true (creditOf event) := by
  rintro s event _ hs haccounted rfl
  have howns : Owns maximum true (creditOf event)
      { s with history := s.history ++ [⟨.getEvent, event⟩] } := by
    refine fun h => accounted_call (haccounted h) fun c => ?_
    rw [grants_getEvent]
    cases c <;> exact Nat.add_comm _ _
  exact ⟨hs.call howns fun hsync => (Bool.noConfusion hsync), trivial, howns⟩

/-- The credit in hand is spent or forfeited by the call, or it stays in hand, as the answer
says. -/
theorem correct_settle {o : TransformOp β} (c : Credit) (held' : β → Option Credit)
    (ho : ∀ b (c' : Credit), (if c'.spends ⟨o, b⟩ then 1 else 0) +
      (if c'.forfeits maximum ⟨o, b⟩ then 1 else 0) + c'.extra (held' b) = c'.extra (some c))
    (hgrants : ∀ b (c' : Credit), c'.grants ⟨o, b⟩ = false)
    (hasks : ∀ b, asksEvent ⟨o, b⟩ = false) :
    (solvency asynchronous).Correct () (Owns maximum asynchronous (some c)) (.call o) fun b =>
      Owns maximum asynchronous (held' b) := by
  rintro s b _ hs howns rfl
  have howns' : Owns maximum asynchronous (held' b)
      { s with history := s.history ++ [⟨o, b⟩] } := by
    refine fun hasync => accounted_call (howns hasync) fun c' => ?_
    rw [ho b c', hgrants b c']
    simp
  exact ⟨hs.call howns' fun _ => hasks b, trivial, howns'⟩

/-- A count is assigned: a credit goes from the count into the hand or the other way. The other
count is untouched, and the sum is kept unless the count saturates. -/
theorem correct_setReady {held : Option Credit} (held' : Option Credit) (c : Credit) (ready : ℕ)
    {P : CodecState → Prop} (hP : ∀ s, P s → Owns maximum true held s)
    (hready : ∀ s, P s → (∀ c', c' ≠ c → c'.extra held' = c'.extra held) ∧
      (ready + c.extra held' ≤ c.ready s.engine + c.extra held) ∧
      (c.ready s.engine + c.extra held < 2 ^ 32 →
        ready + c.extra held' = c.ready s.engine + c.extra held)) :
    (solvency true).Correct () P (.field (c.setReady ready)) fun _ => Owns maximum true held' := by
  intro s b s' hs hp hstep
  have haccounted := hP s hp rfl
  obtain ⟨hothers, hle, heq⟩ := hready s hp
  have hnew : s'.history = s.history ∧ s'.engine.asynchronous = s.engine.asynchronous ∧
      ∀ c', c'.ready s'.engine = if c' = c then ready else c'.ready s.engine := by
    cases c <;> obtain rfl := hstep <;> refine ⟨rfl, rfl, fun c' => ?_⟩ <;> cases c' <;> rfl
  obtain ⟨hhistory, hsame, hcounts⟩ := hnew
  have howns : Owns maximum true held' s' := by
    refine fun _ => ⟨?_, ?_⟩
    all_goals
      intro c'
      have hcovered := haccounted.covered c'
      have hexact := haccounted.exact c'
      rw [hhistory, hcounts c']
      by_cases hc : c' = c
      · subst hc
        rw [if_pos rfl]
        omega
      · rw [if_neg hc, hothers c' hc]
        omega
  exact ⟨hs.of_owns hsame howns fun hsync => (Bool.noConfusion hsync), trivial, howns⟩

/-! ## The engine -/

/-- What an operation has established is all that is known at the end. -/
theorem outline_ret {P Q : CodecState → Prop} {a : α} (h : ∀ s, P s → Q s) :
    Outline (solvency asynchronous) () P (.ret a) fun _ => Q :=
  .ret Regime.keeping_stable fun s _ hP => h s hP

/-- A granted credit is counted; this is where the saturating addition can lose one. -/
theorem outline_count (c : Credit) :
    Outline (solvency true) () (Owns maximum true (some c)) (do
      let engine ← fields
      Fallible.perform (.field (c.setReady (saturatingAdd (c.ready engine) 1)))
      return true : EngineM Bool) fun _ => Owns maximum true none := by
  refine .perform_seq Regime.keeping_stable (correct_get _) fun engine => ?_
  refine .perform_seq Regime.keeping_stable
    (correct_setReady none c _ (fun s h => h.1) fun s h => ?_) fun _ => outline_ret fun _ h => h
  obtain ⟨-, rfl⟩ := h
  refine ⟨fun c' hc => ?_, ?_⟩
  · simp [Credit.extra, Ne.symm hc]
  · simp only [Credit.extra, saturatingAdd, if_true, reduceCtorEq, if_false]
    omega

/-- Taking an event: whatever it is, no credit is in hand afterwards. -/
theorem outline_takeEvent :
    Outline (solvency true) () (Owns maximum true none) takeEvent fun _ =>
      Owns maximum true none := by
  refine .perform_seq Regime.keeping_stable correct_getEvent fun event => ?_
  rcases event with (_ | _ | _ | _) | ⟨(e | (e | ⟨⟩)), (e | type)⟩
  case ok.ok.ok.ok =>
    -- the event is good, and grants what its type says
    cases type with
    | needInput => exact outline_count .input
    | haveOutput => exact outline_count .output
    | other => exact outline_ret fun _ h => h
  all_goals exact outline_ret fun _ h => h

/-- The loop over the events that wait keeps the accounts. -/
theorem outline_takeEvents (n : ℕ) :
    Outline (solvency true) () (Owns maximum true none) (takeEvents n) fun _ =>
      Owns maximum true none := by
  induction n with
  | zero => exact outline_ret fun _ h => h
  | succ n ih =>
    refine outline_takeEvent.seq (fun e => outline_ret fun _ h => h) fun more => ?_
    cases more with
    | true => exact ih
    | false => exact outline_ret fun _ h => h

/-- Code reads the engine. -/
theorem outline_fields {P : CodecState → Prop} {f : Engine → EngineM α}
    {Q : Except CodecError α → CodecState → Prop}
    (h : ∀ engine, engine.asynchronous = asynchronous →
      Outline (solvency asynchronous) () (fun s => P s ∧ engine = s.engine) (f engine) Q) :
    Outline (solvency asynchronous) () P (fields >>= f : EngineM α) Q := by
  refine .perform_seq Regime.keeping_stable (correct_get P) fun engine => ?_
  by_cases hasync : engine.asynchronous = asynchronous
  · exact h engine hasync
  · apply (Outline.unreachable _).pre Regime.keeping_stable
    rintro s hs ⟨-, rfl⟩
    exact hasync hs.kind

/-- Code that keeps the accounts, with no credit in hand before and after, whether it fails or
not. -/
def Keeps (maximum : ℕ) (asynchronous : Bool) (x : EngineM α) : Prop :=
  Outline (solvency asynchronous) () (Owns maximum asynchronous none) x fun _ =>
    Owns maximum asynchronous none

namespace Keeps

variable {x : EngineM α} {f : α → EngineM β}

theorem ret (r : Except CodecError α) : Keeps maximum asynchronous (Prog.ret r) :=
  outline_ret fun _ h => h

/-- One program after the other; a failure of the first ends both. -/
theorem seq (hx : Keeps maximum asynchronous x) (hf : ∀ a, Keeps maximum asynchronous (f a)) :
    Keeps maximum asynchronous (x >>= f) :=
  Outline.seq hx (fun e => ret (.error e)) hf

/-- A program whose failure is looked at and not passed on. -/
theorem lift_seq (hx : Keeps maximum asynchronous x) {f : Except CodecError α → EngineM β}
    (hf : ∀ r, Keeps maximum asynchronous (f r)) :
    Keeps maximum asynchronous (Fallible.lift x >>= f : EngineM β) :=
  Outline.lift_seq hx hf

/-- Code of silent operations neither receives nor spends credits. -/
theorem silent (hx : x.Only EngineOp.Silent) : Keeps maximum asynchronous x :=
  Outline.only (fun _ ho => correct_silent ho) Regime.keeping_stable hx

/-- The engine is asynchronous or not as it was made. -/
theorem fields {f : Engine → EngineM α}
    (hf : ∀ engine, engine.asynchronous = asynchronous → Keeps maximum asynchronous (f engine)) :
    Keeps maximum asynchronous (H264.fields >>= f : EngineM α) :=
  outline_fields fun engine hasync =>
    (hf engine hasync).pre Regime.keeping_stable fun _ _ h => h.1

/-- A loop keeps the accounts if each of its passes does. -/
theorem forever {σ : Type} {v : σ} {body : σ → EngineM (σ ⊕ α)}
    (hbody : ∀ v, Keeps maximum asynchronous (body v)) :
    Keeps maximum asynchronous (Fallible.forever v body) := by
  refine Outline.repeats (L := fun _ => Owns maximum asynchronous none) (fun v => ?_)
    fun _ => Regime.keeping_stable
  refine (hbody v).post fun r s _ h => ?_
  rcases r with e | v | a <;> exact h

end Keeps

/-- The engine takes the events that wait, if its transform has any. -/
theorem keeps_pump : Keeps maximum asynchronous pump := by
  refine .fields fun engine hasync => ?_
  rw [hasync]
  cases asynchronous with
  | true => exact outline_takeEvents 128
  | false => exact .ret _

/-- The loop ends with an input allowed, or fails, as it does once its deadline has expired. -/
theorem outline_awaitInput : Outline (solvency true) () (Owns maximum true none) awaitInput
    (Outline.Outcome (fun _ s => Owns maximum true none s ∧ s.engine.inputReady ≠ 0)
      fun _ => Owns maximum true none) := by
  refine .repeats (L := fun _ => Owns maximum true none) (fun _ => ?_)
    fun _ => Regime.keeping_stable
  refine outline_fields fun engine _ => ?_
  by_cases hready : engine.inputReady ≠ 0
  · rw [if_pos hready]
    refine .ret Regime.keeping_stable ?_
    rintro s - ⟨howns, rfl⟩
    exact ⟨howns, hready⟩
  · -- the pass ends with the next one, or with an error
    have hends (r : Except CodecError (Unit ⊕ Unit)) (hr : r ≠ .ok (.inr ())) :
        Outline (solvency true) () (Owns maximum true none) (.ret r)
          (Outline.Passes (fun _ => Owns maximum true none) (Outline.Outcome
            (fun _ s => Owns maximum true none s ∧ s.engine.inputReady ≠ 0)
              fun _ => Owns maximum true none)) := by
      refine .ret Regime.keeping_stable fun s _ h => ?_
      rcases r with e | ⟨⟨⟩⟩ | ⟨⟨⟩⟩
      · exact h
      · exact h
      · exact (hr rfl).elim
    rw [if_neg hready]
    refine (keeps_pump.pre Regime.keeping_stable fun _ _ h => h.1).seq
      (fun e => hends _ (by simp)) fun _ => ?_
    refine .perform_seq Regime.keeping_stable (correct_silent trivial) fun expired => ?_
    cases expired with
    | true => exact hends _ (by simp)
    | false =>
      refine outline_fields fun engine _ => ?_
      refine Outline.pre (P := Owns maximum true none) Regime.keeping_stable (fun _ _ h => h.1) ?_
      by_cases hnone : engine.inputReady = 0
      · rw [if_pos hnone]
        exact .perform_seq Regime.keeping_stable (correct_silent trivial) fun _ => hends _ (by simp)
      · rw [if_neg hnone]
        exact hends _ (by simp)

/-- Giving the transform an input spends the credit, whether the input is accepted or not. -/
theorem keeps_processInput (sample : InputSample) :
    Outline (solvency asynchronous) () (Owns maximum asynchronous (some .input))
      (call (.processInput sample)) fun _ => Owns maximum asynchronous none := by
  refine .attempt Regime.keeping_stable
    (correct_settle .input (fun _ => none) ?_ ?_ fun _ => rfl) fun r =>
    outline_ret fun _ h => h
  · intro b c
    cases c <;> rfl
  · intro b c
    cases c <;> rfl

/-- An input is given: the credit is taken from the count, is in hand for one step, and is spent by
the next call. -/
theorem keeps_input (sample : InputSample) : Keeps maximum asynchronous (input sample) := by
  refine .fields fun engine hasync => ?_
  rw [hasync]
  cases asynchronous with
  | true =>
    refine outline_awaitInput.seq (fun e => outline_ret fun _ h => h) fun _ => ?_
    refine outline_fields fun engine _ => ?_
    refine .perform_seq Regime.keeping_stable
      (correct_setReady (some .input) .input _ (fun s h => h.1.1) ?_)
      fun _ => keeps_processInput sample
    rintro s ⟨⟨-, hready⟩, rfl⟩
    refine ⟨fun c' hc => ?_, ?_⟩
    · simp [Credit.extra, Ne.symm hc]
    · simp only [Credit.extra, Credit.ready, if_true, reduceCtorEq, if_false]
      omega
  | false =>
    refine (keeps_processInput sample).pre Regime.keeping_stable fun s _ _ h => ?_
    cases h

/-- The call of `ProcessOutput` spends the credit in hand, whatever it brings. -/
theorem outline_processOutput :
    Outline (solvency asynchronous) () (Owns maximum asynchronous (some .output)) processOutput
      fun _ => Owns maximum asynchronous none := by
  refine .perform_seq Regime.keeping_stable
    (correct_settle .output (fun _ => none) ?_ ?_ fun _ => rfl) fun r => ?_
  · intro b c
    cases c <;> rfl
  · intro b c
    cases c <;> rfl
  · rcases r with (_ | _ | _ | _) | sample <;> exact outline_ret fun _ h => h

/-- A sample that cannot be made forfeits the credit in hand. -/
theorem outline_createOutput (size : ℕ) :
    Outline (solvency asynchronous) () (Owns maximum asynchronous (some .output))
      (call (.createOutput size))
        (Outline.Outcome (fun _ => Owns maximum asynchronous (some .output))
        fun _ => Owns maximum asynchronous none) := by
  refine .attempt Regime.keeping_stable (correct_settle .output
    (fun r => if r.isOk then some .output else none) ?_ ?_ fun _ => rfl) fun r => ?_
  · rintro (e | ⟨⟩) c <;> cases c <;> rfl
  · intro b c
    cases c <;> rfl
  · rcases r with e | ⟨⟩ <;> exact .ret Regime.keeping_stable fun _ _ h => h

/-- Learning that there is no room for a sample forfeits the credit, and so does not learning it. -/
theorem outline_getOutputStreamInfo :
    Outline (solvency asynchronous) () (Owns maximum asynchronous (some .output))
      (call .getOutputStreamInfo) (Outline.Outcome
        (fun info => Owns maximum asynchronous (if info.fits maximum then some .output else none))
        fun _ => Owns maximum asynchronous none) := by
  refine .attempt Regime.keeping_stable (correct_settle .output
    (fun r => match r with
      | .ok info => if info.fits maximum then some .output else none
      | .error _ => none) ?_ ?_ fun _ => rfl) fun r => ?_
  · rintro (e | info) c
    · cases c <;> rfl
    · cases hfits : info.fits maximum <;> cases c <;>
        simp [Credit.spends, Credit.forfeits, Credit.extra, hfits]
  · intro b c
    cases c <;> rfl
  · rcases r with e | info <;> exact .ret Regime.keeping_stable fun _ _ h => h

/-- The sample is brought along if the transform does not provide it; without room the credit was
forfeited already. -/
theorem outline_bringSample (info : OutputStreamInfo) :
    Outline (solvency asynchronous) ()
      (Owns maximum asynchronous (if info.fits maximum then some .output else none))
      (bringSample info maximum)
      (Outline.Outcome (fun _ => Owns maximum asynchronous (some .output))
        fun _ => Owns maximum asynchronous none) := by
  have hfits : info.fits maximum = (info.providesSamples || max info.size 4096 ≤ maximum) := rfl
  cases hprovides : info.providesSamples with
  | true =>
    rw [hfits, bringSample, hprovides]
    exact .ret Regime.keeping_stable fun _ _ h => h
  | false =>
    by_cases hsize : max info.size 4096 ≤ maximum
    · simp only [hfits, bringSample, hprovides, Fallible.check, hsize, if_true, decide_true,
        Bool.or_true, Bool.not_false]
      exact outline_createOutput _
    · simp only [hfits, bringSample, hprovides, Fallible.check, hsize, if_true, if_false,
        decide_false, Bool.or_false, Bool.not_false, Bool.false_eq_true]
      exact .ret Regime.keeping_stable fun _ _ h => h

/-- An output is asked for. The count is lowered before the three calls, and each of them settles
the credit or hands it on to the next. -/
theorem keeps_output : Keeps maximum asynchronous (output maximum) := by
  refine keeps_pump.seq fun _ => ?_
  have hask : Outline (solvency asynchronous) () (Owns maximum asynchronous (some .output)) (do
      let info ← call .getOutputStreamInfo
      bringSample info maximum
      processOutput : EngineM (Option OutputSample)) fun _ => Owns maximum asynchronous none := by
    refine outline_getOutputStreamInfo.onward (fun _ => Regime.keeping_stable)
      (fun _ _ _ h => h) fun info => ?_
    refine (outline_bringSample info).onward (fun _ => Regime.keeping_stable)
      (fun _ _ _ h => h) fun _ => ?_
    exact outline_processOutput
  refine outline_fields fun engine hasync => ?_
  rw [hasync]
  cases asynchronous with
  | false =>
    refine hask.pre Regime.keeping_stable fun s _ _ h => ?_
    cases h
  | true =>
    by_cases hnone : engine.outputReady = 0
    · rw [if_pos ⟨rfl, hnone⟩]
      exact outline_ret fun _ h => h.1
    · rw [if_neg fun h => hnone h.2, if_pos rfl]
      refine .perform_seq Regime.keeping_stable
        (correct_setReady (some .output) .output _ (fun s h => h.1) ?_) fun _ => hask
      rintro s ⟨-, rfl⟩
      refine ⟨fun c' hc => ?_, ?_⟩
      · simp [Credit.extra, Ne.symm hc]
      · simp only [Credit.extra, Credit.ready, if_true, reduceCtorEq, if_false]
        omega

/-! ## The encoder and the decoder -/

/-- Code that makes no call on the transform but silent ones. -/
theorem only_answer {o : TransformOp α} (ho : (EngineOp.call o).Silent) :
    (answer o).Only EngineOp.Silent :=
  Fallible.only_perform.mpr ho

theorem only_call {o : TransformOp (Except WindowsError α)} (ho : (EngineOp.call o).Silent) :
    (call o).Only EngineOp.Silent :=
  (Fallible.only_attempt.mpr ho).mapError _

theorem keeps_sample (bytes : List UInt8) (timestamp duration : ℤ) :
    Keeps maximum asynchronous (sample bytes timestamp duration) :=
  Keeps.silent ((Fallible.only_check _ _).seq fun _ =>
    (Fallible.only_attempt.mpr trivial).seq fun _ => trivial)

namespace Encoder

theorem only_reselect (encoder : Encoder) (n index : ℕ) :
    (encoder.reselect n index).Only EngineOp.Silent := by
  induction n generalizing index with
  | zero => trivial
  | succ n ih =>
    refine (only_answer (o := .getOutputAvailableType index) trivial).seq fun r => ?_
    rcases r with e | media
    · trivial
    · refine (Fallible.only_ofExcept _).seq fun subtype => ?_
      split
      · exact ih _
      · refine (Fallible.only_ofExcept _).seq fun size => ?_
        split
        · exact ih _
        · refine (only_answer (o := .setOutputType media) trivial).seq fun r => ?_
          rcases r with e | ⟨⟩
          · exact ih _
          · trivial

/-- The loop over the outputs of the encoder; looking for another type is silent. -/
theorem keeps_collect (encoder : Encoder) (n : ℕ) (result : List EncodedFrame) :
    Keeps MAX_ENCODED_FRAME asynchronous (encoder.collect n result) := by
  induction n generalizing result with
  | zero => exact .ret _
  | succ n ih =>
    refine keeps_output.lift_seq fun r => ?_
    rcases r with ⟨(_ | _ | _ | _) | _⟩ | _ | sample
    case succ.error.windows.transformStreamChange =>
      exact (Keeps.silent (encoder.only_reselect 32 0)).seq fun selected =>
        (Keeps.silent (Fallible.only_check _ _)).seq fun _ => ih result
    case succ.ok.some =>
      exact (Keeps.silent (Fallible.only_ofExcept _)).seq fun packet => ih _
    all_goals exact .ret _

theorem keeps_available (encoder : Encoder) :
    Keeps MAX_ENCODED_FRAME asynchronous encoder.available :=
  encoder.keeps_collect 16 []

theorem keeps_encode (encoder : Encoder) (nv12 : List UInt8) (timestamp100ns : ℤ) :
    Keeps MAX_ENCODED_FRAME asynchronous (encoder.encode nv12 timestamp100ns) :=
  (Keeps.silent (Fallible.only_check _ _)).seq fun _ =>
    encoder.keeps_available.seq fun _ =>
      (keeps_sample _ _ _).seq fun sample =>
        (keeps_input sample).seq fun _ =>
          encoder.keeps_available.seq fun _ => .ret _

/-- Draining asks for outputs again and again, and keeps the accounts with each pass. -/
theorem keeps_drainLoop (encoder : Encoder) :
    Keeps MAX_ENCODED_FRAME asynchronous encoder.drainLoop := by
  refine Keeps.forever fun _ => encoder.keeps_available.seq fun more => ?_
  refine Keeps.fields fun engine _ => ?_
  split
  · exact .ret _
  · refine (Keeps.silent (only_answer (o := .expired) trivial)).seq fun expired => ?_
    split
    · exact .ret _
    · exact (Keeps.silent (only_answer (o := .sleep) trivial)).seq fun _ => .ret _

theorem keeps_drain (encoder : Encoder) : Keeps MAX_ENCODED_FRAME asynchronous encoder.drain :=
  (Keeps.silent (only_call (o := .commandDrain) trivial)).seq fun _ => encoder.keeps_drainLoop

theorem keeps_run (encoder : Encoder) (call : EncoderCall) :
    Keeps MAX_ENCODED_FRAME asynchronous (encoder.run call) := by
  cases call with
  | encode nv12 timestamp100ns => exact encoder.keeps_encode nv12 timestamp100ns
  | available => exact encoder.keeps_available
  | drain => exact encoder.keeps_drain

end Encoder

namespace Decoder

theorem only_reselect (decoder : Decoder) (n index : ℕ) :
    (decoder.reselect n index).Only EngineOp.Silent := by
  induction n generalizing index with
  | zero => trivial
  | succ n ih =>
    refine (only_answer (o := .getOutputAvailableType index) trivial).seq fun r => ?_
    rcases r with e | media
    · trivial
    · refine (Fallible.only_ofExcept _).seq fun subtype => ?_
      split
      · exact ih _
      · exact (Fallible.only_ofExcept _).seq fun _ => trivial

theorem only_picture (avx2 : Bool) (decoder : Decoder) (sample : OutputSample) :
    (decoder.picture avx2 sample).Only EngineOp.Silent := by
  refine (only_call (o := .getOutputCurrentType) trivial).seq fun media => ?_
  refine (Fallible.only_ofExcept _).seq fun layout => ?_
  refine (Fallible.only_ofExcept _).seq fun bytes => ?_
  split
  · trivial
  · exact (Fallible.only_ofExcept _).seq fun _ => trivial

/-- The loop over the outputs of the decoder; making a picture is silent, also when it fails. -/
theorem keeps_collect (avx2 : Bool) (decoder : Decoder) (n : ℕ) (frames : List DecodedFrame) :
    Keeps (MAX_PIXELS * 4) asynchronous (decoder.collect avx2 n frames) := by
  induction n generalizing frames with
  | zero => exact .ret _
  | succ n ih =>
    refine keeps_output.lift_seq fun r => ?_
    rcases r with ⟨(_ | _ | _ | _) | _⟩ | _ | sample
    case succ.error.windows.transformStreamChange =>
      refine (Keeps.silent (decoder.only_reselect 32 0)).seq fun selected => ?_
      cases selected with
      | none => exact .ret _
      | some media =>
        exact (Keeps.silent (only_call (o := .setOutputType media) trivial)).seq fun _ => ih frames
    case succ.ok.some =>
      refine (Keeps.silent (decoder.only_picture avx2 sample)).seq fun frame => ?_
      cases frame with
      | none => exact .ret _
      | some frame => exact ih _
    all_goals exact .ret _

theorem keeps_decode (avx2 : Bool) (decoder : Decoder) (frame : EncodedFrame) :
    Keeps (MAX_PIXELS * 4) asynchronous (decoder.decode avx2 frame) :=
  (Keeps.silent (Fallible.only_check _ _)).seq fun _ =>
    (keeps_sample _ _ _).seq fun sample =>
      (keeps_input sample).seq fun _ => decoder.keeps_collect avx2 16 []

end Decoder

/-! ## Runs -/

/-- What is done with a codec: any calls on an encoder, or any frames given to a decoder. -/
inductive CodecUse where
  | encoding (encoder : Encoder) (calls : List EncoderCall)
  | decoding (avx2 : Bool) (decoder : Decoder) (frames : List EncodedFrame)

namespace CodecUse

/-- The largest sample the code brings along to an output. -/
def largest : CodecUse → ℕ
  | .encoding _ _ => MAX_ENCODED_FRAME
  | .decoding _ _ _ => MAX_PIXELS * 4

/-- One call after the other, whether they fail or not. -/
def program : CodecUse → Prog EngineOp Unit
  | .encoding encoder calls => (Prog.each encoder.run calls).bind fun _ => .ret ()
  | .decoding avx2 decoder frames => (Prog.each (decoder.decode avx2) frames).bind fun _ => .ret ()

/-- A run of calls keeps the accounts, by the outline of each call. -/
theorem outline_program (use : CodecUse) (asynchronous : Bool) :
    Outline (solvency asynchronous) () (Owns use.largest asynchronous none) use.program fun _ =>
      Owns use.largest asynchronous none := by
  cases use with
  | encoding encoder calls =>
    refine (Outline.each (Q := fun _ => Owns MAX_ENCODED_FRAME asynchronous none)
      (fun _ call => encoder.keeps_run call) [] calls
        fun _ => Regime.keeping_stable).bind fun _ => ?_
    exact outline_ret fun _ h => h
  | decoding avx2 decoder frames =>
    refine (Outline.each (Q := fun _ => Owns (MAX_PIXELS * 4) asynchronous none)
      (fun _ frame => decoder.keeps_decode avx2 frame) [] frames
        fun _ => Regime.keeping_stable).bind fun _ => ?_
    exact outline_ret fun _ h => h

end CodecUse

/-- A new engine owns nothing, as nothing was granted to it. -/
theorem owns_new (asynchronous : Bool) :
    Owns maximum asynchronous none ⟨.new asynchronous, []⟩ := by
  refine fun _ => ⟨fun c => ?_, fun c _ => ?_⟩ <;> cases c <;> rfl

/-- **The accounts of a transform.** Whatever an encoder or a decoder is called for, and whatever
its transform answers:

* at any moment an asynchronous transform was given no more inputs than it asked for, and asked for
  no more outputs than it announced;
* a synchronous one was never asked for an event;
* between two calls, whether they failed or not, every credit granted was spent, was forfeited by
  a call that failed, or is in the engine's count, as long as fewer than `2 ^ 32` were granted. -/
theorem codec_credits (use : CodecUse) (asynchronous : Bool) :
    (∀ s, (pool codec (fun _ => use.program) (· = ⟨.new asynchronous, []⟩)).Reachable s →
      (asynchronous = true → ∀ c : Credit,
        c.spent s.world.history ≤ c.granted s.world.history) ∧
      (asynchronous = false → ∀ e ∈ s.world.history, asksEvent e = false)) ∧
    ∀ s, use.program.RunsOn codec () ⟨.new asynchronous, []⟩ () s → asynchronous = true →
      ∀ c : Credit, c.granted s.history < 2 ^ 32 →
        c.spent s.history + c.forfeited use.largest s.history + c.ready s.engine =
          c.granted s.history := by
  have hprogram := use.outline_program asynchronous
  have hsolvent : Solvent asynchronous ⟨.new asynchronous, []⟩ :=
    ⟨rfl, fun _ c => by cases c <;> rfl, fun _ e he => by cases he⟩
  constructor
  · intro s hs
    have hinit : ∀ w, w = ⟨.new asynchronous, []⟩ →
        Solvent asynchronous w ∧ ∀ _ : Unit, Owns use.largest asynchronous none w := by
      rintro w rfl
      exact ⟨hsolvent, fun _ => owns_new asynchronous⟩
    have hinv := (Outline.sound (D := solvency asynchronous) (fun _ => hprogram) hinit hs).1
    exact ⟨hinv.covered, hinv.silent⟩
  · intro s hs hasync c hgranted
    obtain ⟨-, howns⟩ := hs.outlined hprogram hsolvent (owns_new asynchronous)
    have hexact := (howns hasync).exact c hgranted
    rwa [show c.extra none = 0 from rfl, Nat.add_zero] at hexact

end SensorRemote.H264
