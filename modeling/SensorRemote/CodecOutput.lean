import Mathlib.Data.List.ModifyLast
import SensorRemote.Codec

/-!
# What a codec puts out

Whatever its transform answers, an encoder hands out the frames the transform made, in order and
none twice, and loses some only with a call that fails; each fits the sending of it. A decoder hands
out pictures of its own size only, and each is the picture of one sample under the type the
transform had for that sample. After a stream change neither goes on with a type that is not of its
size.

The events of the transform are recorded in a history, and what a codec may have handed out at any
moment is a function of that history, an `Account`. Two accounts are kept:

* `gathered` is the encoder's: the samples that could be read, as frames;

* `typed` is the decoder's: the samples, each with the type that was answered when it was first
  asked for after the sample. A type says how the bytes of a sample are laid out, so a picture means
  nothing without it.

Only two operations touch an account, `ProcessOutput` and the question for the current type; every
other program is `Plain`. So the proofs go by program: each is an `Outline` from one value of the
account to the value after it, the loops of `collect` and `drain` are outlines by the library's rule
for loops, and a list of calls is the fold of `Handed` over the calls.
-/

namespace SensorRemote.H264

open Program Buffer

variable {α β γ : Type}

/-! ## Outputs in a history -/

/-- The sample in a result. An output that failed, or that wants more input, has none. -/
def sampleOf {ε : Type} : Except ε (Option OutputSample) → Option OutputSample
  | .ok sample => sample
  | .error _ => none

/-- The sample the transform put out, if the event is an answer of `ProcessOutput` with one. -/
def putOut : Event TransformOp → Option OutputSample
  | ⟨.processOutput, r⟩ => sampleOf r
  | _ => none

/-- The type the transform said that it puts out, if it was asked and knew. -/
def saidType : Event TransformOp → Option MediaType
  | ⟨.getOutputCurrentType, r⟩ => r.toOption
  | _ => none

/-- An account of what the transform put out: a list that grows with the history. What else happens
leaves it alone, and that is what `attends` asks. -/
structure Account (γ : Type) where
  note : List γ → Event TransformOp → List γ
  attends : ∀ xs e, putOut e = none → saidType e = none → note xs e = xs

/-- What a history comes to, event after event. -/
def Account.of (account : Account γ) (history : List (Event TransformOp)) : List γ :=
  history.foldl account.note []

/-- The samples in order, each as it is read; a sample that cannot be read is left out. -/
def gathered (read : OutputSample → Option γ) : Account γ where
  note xs e := xs ++ ((putOut e).bind read).toList
  attends xs e he _ := by rw [he, Option.bind_none, Option.toList_none, List.append_nil]

/-- What the samples that the transform put out are read as, if anything. -/
def made (read : OutputSample → Option γ) (history : List (Event TransformOp)) : List γ :=
  (gathered read).of history

/-- The type the transform was told to put out, whether it accepted it or not. -/
def told : Event TransformOp → Option MediaType
  | ⟨.setOutputType media, _⟩ => some media
  | _ => none

/-- The types the transform was told to put out are all suitable. -/
def Told (suits : MediaType → Prop) (s : CodecState) : Prop :=
  ∀ media ∈ s.history.filterMap told, suits media

/-- The account of what happened so far is `xs`. -/
def Tally (account : Account γ) (xs : List γ) (s : CodecState) : Prop :=
  account.of s.history = xs

/-- What was made so far. -/
abbrev Made (read : OutputSample → Option γ) : List γ → CodecState → Prop := Tally (gathered read)

/-- Nothing was made since. -/
theorem tally_nil {account : Account γ} {xs : List γ} {s : CodecState} (h : Tally account xs s) :
    Tally account (xs ++ []) s := by
  rwa [List.append_nil]

/-- What is in the account stays at the beginning of it. -/
theorem Tally.begins {account : Account γ} {xs : List γ} {s : CodecState}
    (h : Tally account xs s) : xs <+: account.of s.history :=
  h ▸ List.prefix_rfl

/-- Code that tells the transform suitable types only, at every moment of its run. -/
abbrev telling (suits : MediaType → Prop) : Regime codec :=
  .keeping codec (Told suits) fun _ _ h => h

variable {suits : MediaType → Prop} {account : Account γ} {xs : List γ} {s : CodecState}

/-- The operation puts no sample out and asks for no type, and tells no unsuitable one. It leaves
every account as it is. -/
def EngineOp.Plain (suits : MediaType → Prop) : {β : Type} → EngineOp β → Prop
  | _, .call .processOutput => False
  | _, .call .getOutputCurrentType => False
  | _, .call (.setOutputType media) => suits media
  | _, _ => True

/-- A call on the transform adds its event to the history, and with it to the account. -/
theorem correct_call {o : TransformOp β} (ho : ∀ b, ∀ media ∈ told ⟨o, b⟩, suits media) :
    (telling suits).Correct () (Tally account xs) (.call o) fun b =>
      Tally account (account.note xs ⟨o, b⟩) := by
  rintro s b _ hs rfl rfl
  refine ⟨fun media hmem => ?_, trivial, List.foldl_concat _ _ _ _⟩
  rw [List.filterMap_append, List.mem_append] at hmem
  rcases hmem with hold | hnew
  · exact hs media hold
  · obtain ⟨e, he, htold⟩ := List.mem_filterMap.mp hnew
    obtain rfl := List.mem_singleton.mp he
    exact ho b media htold

/-- A plain operation adds to the history what no account attends to. -/
theorem correct_plain {o : EngineOp β} (ho : o.Plain suits) :
    (telling suits).Correct () (Tally account xs) o fun _ => Tally account xs := by
  cases o with
  | field o =>
    intro s b s' hs hxs hstep
    cases o with
    | get =>
      obtain ⟨-, rfl⟩ := hstep
      exact ⟨hs, trivial, hxs⟩
    | setInputReady ready =>
      obtain rfl := hstep
      exact ⟨hs, trivial, hxs⟩
    | setOutputReady ready =>
      obtain rfl := hstep
      exact ⟨hs, trivial, hxs⟩
  | call o =>
    have hnone : ∀ b, putOut ⟨o, b⟩ = none ∧ saidType ⟨o, b⟩ = none := by
      cases o
      case processOutput => exact ho.elim
      case getOutputCurrentType => exact ho.elim
      all_goals exact fun b => ⟨rfl, rfl⟩
    have htold : ∀ b, ∀ media ∈ told ⟨o, b⟩, suits media := by
      cases o
      case setOutputType media =>
        rintro b _ ⟨⟩
        exact ho
      all_goals
        rintro b media ⟨⟩
    refine (correct_call htold).post fun b s _ h => ?_
    rwa [account.attends _ _ (hnone b).1 (hnone b).2] at h

/-! ## The engine -/

/-- Code of plain operations puts no sample out, whether it comes to an end or fails. -/
theorem outline_plain {x : EngineM α} (hx : x.Only (EngineOp.Plain suits)) :
    Outline (telling suits) () (Tally account xs) x fun _ => Tally account xs :=
  Outline.only (fun _ ho => correct_plain ho) Regime.keeping_stable hx

section Plain

variable (suits)

theorem plain_fields : fields.Only (EngineOp.Plain suits) := Fallible.only_perform.mpr trivial

theorem plain_answer {o : TransformOp α} (ho : (EngineOp.call o).Plain suits) :
    (answer o).Only (EngineOp.Plain suits) :=
  Fallible.only_perform.mpr ho

theorem plain_call {o : TransformOp (Except WindowsError α)} (ho : (EngineOp.call o).Plain suits) :
    (call o).Only (EngineOp.Plain suits) :=
  (Fallible.only_attempt.mpr ho).mapError _

theorem plain_takeEvent : takeEvent.Only (EngineOp.Plain suits) := by
  refine (plain_answer suits (o := .getEvent) trivial).seq fun event => ?_
  rcases event with (_ | _ | _ | _) | ⟨(e | (e | ⟨⟩)), (e | type)⟩
  case ok.ok.ok.ok =>
    cases type with
    | needInput =>
      exact (plain_fields suits).seq fun _ =>
        (Fallible.only_perform.mpr trivial).seq fun _ => trivial
    | haveOutput =>
      exact (plain_fields suits).seq fun _ =>
        (Fallible.only_perform.mpr trivial).seq fun _ => trivial
    | other => trivial
  all_goals trivial

/-- The loop over the events that wait, of any length, is plain. -/
theorem plain_takeEvents (n : ℕ) : (takeEvents n).Only (EngineOp.Plain suits) := by
  induction n with
  | zero => trivial
  | succ n ih =>
    refine (plain_takeEvent suits).seq fun more => ?_
    split
    · exact ih
    · trivial

theorem plain_pump : pump.Only (EngineOp.Plain suits) := by
  refine (plain_fields suits).seq fun engine => ?_
  split
  · exact plain_takeEvents suits 128
  · trivial

theorem plain_awaitInput : awaitInput.Only (EngineOp.Plain suits) := by
  refine Fallible.Only.forever (fun _ => ?_) ()
  refine (plain_fields suits).seq fun engine => ?_
  split
  · trivial
  · refine (plain_pump suits).seq fun _ => ?_
    refine (plain_answer suits (o := .expired) trivial).seq fun expired => ?_
    split
    · trivial
    · refine (plain_fields suits).seq fun engine => ?_
      split
      · exact (plain_answer suits (o := .sleep) trivial).seq fun _ => trivial
      · trivial

theorem plain_input (sample : InputSample) : (input sample).Only (EngineOp.Plain suits) := by
  refine (plain_fields suits).seq fun engine => ?_
  split
  · refine (plain_awaitInput suits).seq fun _ => (plain_fields suits).seq fun engine => ?_
    exact (Fallible.only_perform.mpr trivial).seq fun _ => plain_call suits trivial
  · exact plain_call suits trivial

theorem plain_bringSample (info : OutputStreamInfo) (maximum : ℕ) :
    (bringSample info maximum).Only (EngineOp.Plain suits) := by
  simp only [bringSample]
  split
  · exact (Fallible.only_check _ _).seq fun _ => plain_call suits trivial
  · trivial

theorem plain_sample (bytes : List UInt8) (timestamp duration : ℤ) :
    (sample bytes timestamp duration).Only (EngineOp.Plain suits) :=
  (Fallible.only_check _ _).seq fun _ => (Fallible.only_attempt.mpr trivial).seq fun _ => trivial

end Plain

/-- What follows what Windows answered, if it did not fail. -/
theorem only_answered {r : Except WindowsError α} {f : α → EngineM β}
    (hf : ∀ a, r = .ok a → (f a).Only (EngineOp.Plain suits)) :
    (answered r >>= f : EngineM β).Only (EngineOp.Plain suits) := by
  cases r with
  | error e => trivial
  | ok a => exact hf a rfl

/-- The account when the engine was asked for an output, which may have brought a sample. -/
def Account.after {ε : Type} (account : Account γ) (xs : List γ)
    (r : Except ε (Option OutputSample)) : List γ :=
  match sampleOf r with
  | none => xs
  | some sample => account.note xs ⟨.processOutput, .ok (some sample)⟩

/-- A result without a sample. -/
theorem outline_none {r : Except CodecError (Option OutputSample)} (hr : sampleOf r = none) :
    Outline (telling suits) () (Tally account xs) (.ret r) fun r =>
      Tally account (account.after xs r) := by
  refine .ret Regime.keeping_stable fun s _ h => ?_
  rwa [Account.after, hr]

/-- The engine's `ProcessOutput` adds the sample it brings, and nothing when it fails or wants more
input: the transform puts out a sample only with a success. -/
theorem tally_processOutput : Outline (telling suits) () (Tally account xs) processOutput fun r =>
    Tally account (account.after xs r) := by
  refine .perform_seq Regime.keeping_stable (correct_call ?_) fun r => ?_
  · rintro b media ⟨⟩
  · rcases r with (_ | _ | _ | _) | _ | sample
    case ok.some => exact .ret Regime.keeping_stable fun _ _ h => h
    all_goals
      refine .ret Regime.keeping_stable fun _ _ h => ?_
      rwa [account.attends _ _ rfl rfl] at h

/-- An output is made while the engine is asked for it: of the calls before `ProcessOutput` none
puts anything out, whichever of them fails. -/
theorem tally_output (maximum : ℕ) :
    Outline (telling suits) () (Tally account xs) (output maximum) fun r =>
      Tally account (account.after xs r) := by
  have hask : Outline (telling suits) () (Tally account xs) (do
      let info ← call .getOutputStreamInfo
      bringSample info maximum
      processOutput : EngineM (Option OutputSample)) fun r =>
        Tally account (account.after xs r) := by
    refine (outline_plain (plain_call suits (o := .getOutputStreamInfo) trivial)).seq
      (fun e => outline_none rfl) fun info => ?_
    refine (outline_plain (plain_bringSample suits info maximum)).seq
      (fun e => outline_none rfl) fun _ => ?_
    exact tally_processOutput
  refine (outline_plain (plain_pump suits)).seq (fun e => outline_none rfl) fun _ => ?_
  refine (outline_plain (plain_fields suits)).seq (fun e => outline_none rfl) fun engine => ?_
  split
  · exact outline_none rfl
  · split
    · exact (outline_plain (x := setOutputReady _) (Fallible.only_perform.mpr trivial)).seq
        (fun e => outline_none rfl) fun _ => hask
    · exact hask

/-! ## The encoder -/

/-- What comes before a value is a value. -/
theorem ok_of_bind {x : Except CodecError α} {f : α → Except CodecError β} {b : β}
    (h : x >>= f = .ok b) : ∃ a, x = .ok a ∧ f a = .ok b := by
  cases x with
  | error e => cases h
  | ok a => exact ⟨a, rfl, h⟩

theorem ok_of_mapError {ε ε' : Type} {f : ε → ε'} {r : Except ε α} {a : α}
    (h : r.mapError f = .ok a) : r = .ok a := by
  cases r with
  | error e => cases h
  | ok b =>
    cases h
    rfl

/-- Bytes read from a sample are within the bound. -/
theorem length_of_sampleBytes {sample : OutputSample} {maximum : ℕ} {bytes : List UInt8}
    (h : sampleBytes sample maximum = .ok bytes) : bytes.length ≤ maximum := by
  obtain ⟨⟨⟩, -, h⟩ := ok_of_bind h
  obtain ⟨length, -, h⟩ := ok_of_bind h
  by_cases hlength : length > maximum
  · rw [if_pos hlength] at h
    cases h
  · rw [if_neg hlength] at h
    obtain ⟨pointer, -, h⟩ := ok_of_bind h
    obtain ⟨⟨⟩, -, h⟩ := ok_of_bind h
    by_cases hempty : length = 0
    · rw [if_pos hempty] at h
      cases h
      exact Nat.zero_le _
    · rw [if_neg hempty] at h
      cases pointer with
      | none => cases h
      | some memory =>
        cases h
        exact (List.length_take_le _ _).trans (Nat.le_of_not_lt hlength)

namespace Encoder

variable {encoder : Encoder} {frames : List EncodedFrame}

/-- The frame in a sample, if it can be read and is not empty. -/
def framed (sample : OutputSample) : Option EncodedFrame := (packet sample).toOption.join

/-- A frame that could be read is not empty and is within the bound for frames. -/
theorem sendable_of_packet {sample : OutputSample} {frame : EncodedFrame}
    (h : packet sample = .ok (some frame)) : frame.Sendable := by
  obtain ⟨bytes, hbytes, h⟩ := ok_of_bind h
  by_cases hempty : bytes = []
  · rw [if_pos hempty] at h
    cases h
  · rw [if_neg hempty] at h
    obtain ⟨time, -, h⟩ := ok_of_bind h
    cases h
    exact ⟨hempty, length_of_sampleBytes hbytes⟩

/-- A type that the encoder may go on with: H.264, of its size. -/
def Takes (encoder : Encoder) (media : MediaType) : Prop :=
  media.subtype = .ok .h264 ∧
    ∃ size, media.frameSize = .ok size ∧ unpackSize size = (encoder.width, encoder.height)

/-- Looking for a type to go on with tells the transform only types that are H.264 of the encoder's
size. -/
theorem plain_reselect (n index : ℕ) :
    (encoder.reselect n index).Only (EngineOp.Plain encoder.Takes) := by
  induction n generalizing index with
  | zero => trivial
  | succ n ih =>
    refine (plain_answer _ (o := .getOutputAvailableType index) trivial).seq fun r => ?_
    rcases r with e | media
    · trivial
    · -- a type is set only after both of its attributes were read and are right
      refine only_answered fun subtype hsubtype => ?_
      split
      · exact ih _
      · refine only_answered fun size hsize => ?_
        split
        · exact ih _
        · rename_i hh264 hsame
          have htakes : encoder.Takes media :=
            ⟨hsubtype.trans (congrArg _ (not_not.mp hh264)), size, hsize, not_not.mp hsame⟩
          refine (plain_answer encoder.Takes (o := .setOutputType media) htakes).seq fun r => ?_
          rcases r with e | ⟨⟩
          · exact ih _
          · trivial

/-- What a call on the encoder hands out, after the frames made before it: all that were made, or,
if it fails, some are lost. -/
def Handed (before : List EncodedFrame) : Except CodecError (List EncodedFrame) → CodecState → Prop
  | .ok packets, s => (∀ packet ∈ packets, packet.Sendable) ∧ Made framed (before ++ packets) s
  | .error _, s => before <+: made framed s.history

variable {before : List EncodedFrame}

theorem handed_error {e : CodecError} (hframes : before <+: frames) :
    Outline (telling encoder.Takes) () (Made framed frames) (.ret (.error e)) (Handed before) :=
  .ret Regime.keeping_stable fun _ _ h => hframes.trans h.begins

/-- The loop over the outputs, of any length. What is in `result` was made before the pass; a stream
change goes on with a suitable type and loses nothing. -/
theorem outline_collect (n : ℕ) (result : List EncodedFrame)
    (hresult : ∀ packet ∈ result, packet.Sendable) :
    Outline (telling encoder.Takes) () (Made framed (before ++ result)) (encoder.collect n result)
      (Handed before) := by
  induction n generalizing result with
  | zero => exact .ret Regime.keeping_stable fun s _ h => ⟨hresult, h⟩
  | succ n ih =>
    have hbefore : before <+: before ++ result := List.prefix_append _ _
    refine (tally_output MAX_ENCODED_FRAME).lift_seq fun r => ?_
    rcases r with ⟨(_ | _ | _ | _) | _⟩ | _ | sample
    case succ.error.windows.transformStreamChange =>
      refine (outline_plain (encoder.plain_reselect 32 0)).seq
        (fun e => handed_error hbefore) fun selected => ?_
      exact .check_seq Regime.keeping_stable (fun s _ h => hbefore.trans h.begins) fun _ =>
        ih result hresult
    case succ.ok.some =>
      refine .ofExcept_seq Regime.keeping_stable (fun e _ s _ h => ?_) fun packet hpacket => ?_
      · exact hbefore.trans ((List.prefix_append _ _).trans h.begins)
      · have hafter : (gathered framed).after (before ++ result)
            (.ok (some sample) : Except CodecError _) = before ++ (result ++ packet.toList) := by
          rw [← List.append_assoc]
          change before ++ result ++ (framed sample).toList = _
          rw [framed, hpacket]
          rfl
        rw [hafter]
        refine ih _ fun p hp => ?_
        rcases List.mem_append.mp hp with hp | hp
        · exact hresult p hp
        · obtain rfl := Option.mem_toList.mp hp
          exact sendable_of_packet hpacket
    case succ.ok.none =>
      exact .ret Regime.keeping_stable fun s _ h => ⟨hresult, h⟩
    all_goals exact handed_error hbefore

theorem outline_available :
    Outline (telling encoder.Takes) () (Made framed before) encoder.available (Handed before) := by
  refine Outline.pre Regime.keeping_stable (fun _ _ => tally_nil) ?_
  exact encoder.outline_collect 16 [] fun _ h => by cases h

/-- What is handed out later comes after what is in hand. -/
theorem Handed.after {packets more : List EncodedFrame} {s : CodecState}
    (hpackets : ∀ packet ∈ packets, packet.Sendable) (h : Handed (before ++ packets) (.ok more) s) :
    Handed before (.ok (packets ++ more)) s := by
  obtain ⟨hmore, hmade⟩ := h
  refine ⟨fun packet hpacket => ?_, by rwa [← List.append_assoc]⟩
  exact (List.mem_append.mp hpacket).elim (hpackets packet) (hmore packet)

/-- What follows a call on the encoder whose frames are in hand. -/
theorem outline_after {x : EngineM (List EncodedFrame)} {f : List EncodedFrame → EngineM α}
    {Q : Except CodecError α → CodecState → Prop}
    (hx : ∀ before, Outline (telling encoder.Takes) () (Made framed before) x (Handed before))
    {packets : List EncodedFrame} (hpackets : ∀ packet ∈ packets, packet.Sendable)
    (herror : ∀ e s, before <+: made framed s.history → Q (.error e) s)
    (hf : ∀ more, (∀ packet ∈ packets ++ more, packet.Sendable) →
      Outline (telling encoder.Takes) () (Made framed (before ++ (packets ++ more))) (f more) Q) :
    Outline (telling encoder.Takes) () (Made framed (before ++ packets))
      (x >>= f : EngineM α) Q := by
  refine (hx (before ++ packets)).seq (fun e => ?_) fun more => ?_
  · exact .ret Regime.keeping_stable fun s _ h => herror e s ((List.prefix_append _ _).trans h)
  · refine Outline.pre Regime.keeping_stable (fun s _ h => h.after hpackets) ?_
    exact .given (fun _ => Regime.keeping_stable) fun hall => hf more hall

theorem outline_encode (nv12 : List UInt8) (timestamp100ns : ℤ) :
    Outline (telling encoder.Takes) () (Made framed before) (encoder.encode nv12 timestamp100ns)
      (Handed before) := by
  have hlost {packets : List EncodedFrame} {e : CodecError} :
      Outline (telling encoder.Takes) () (Made framed (before ++ packets)) (.ret (.error e))
        (Handed before) :=
    handed_error (List.prefix_append _ _)
  refine .check_seq Regime.keeping_stable (fun _ _ h => h.begins) fun _ => ?_
  refine Outline.pre Regime.keeping_stable (fun _ _ => tally_nil) ?_
  refine outline_after (fun _ => encoder.outline_available) (fun _ h => by cases h)
    (fun _ _ h => h) fun packets hpackets => ?_
  refine (outline_plain (plain_sample _ nv12 timestamp100ns _)).seq (fun e => hlost)
    fun sample => ?_
  refine (outline_plain (plain_input _ sample)).seq (fun e => hlost) fun _ => ?_
  refine outline_after (fun _ => encoder.outline_available) hpackets (fun _ _ h => h)
    fun more hmore => ?_
  exact .ret Regime.keeping_stable fun s _ h => ⟨hmore, h⟩

/-- Draining calls for outputs until there is nothing to wait for; each pass hands on what the
earlier ones brought. -/
theorem outline_drainLoop :
    Outline (telling encoder.Takes) () (Made framed before) encoder.drainLoop (Handed before) := by
  refine Outline.pre (P := Handed before (.ok [])) Regime.keeping_stable
    (fun s _ h => ⟨fun _ h => (by cases h), tally_nil h⟩) ?_
  refine .repeats (L := fun packets => Handed before (.ok packets)) (fun packets => ?_)
    fun _ => Regime.keeping_stable
  refine .given (fun _ => Regime.keeping_stable) fun hpackets => ?_
  refine outline_after (fun _ => encoder.outline_available) hpackets (fun _ _ h => h)
    fun more hmore => ?_
  have hends (r : List EncodedFrame ⊕ List EncodedFrame)
      (hr : r = .inl (packets ++ more) ∨ r = .inr (packets ++ more)) :
      Outline (telling encoder.Takes) () (Made framed (before ++ (packets ++ more))) (.ret (.ok r))
        (Outline.Passes (fun packets => Handed before (.ok packets)) (Handed before)) := by
    refine .ret Regime.keeping_stable fun s _ h => ?_
    rcases hr with rfl | rfl <;> exact ⟨hmore, h⟩
  have hlost (e : CodecError) :
      Outline (telling encoder.Takes) () (Made framed (before ++ (packets ++ more)))
        (.ret (.error e)) (Outline.Passes (fun packets => Handed before (.ok packets))
          (Handed before)) :=
    .ret Regime.keeping_stable fun s _ h => ⟨_, h.symm⟩
  refine (outline_plain (plain_fields _)).seq hlost fun engine => ?_
  split
  · exact hends _ (.inr rfl)
  · refine (outline_plain (plain_answer _ (o := .expired) trivial)).seq hlost fun expired => ?_
    split
    · exact hends _ (.inr rfl)
    · exact (outline_plain (plain_answer _ (o := .sleep) trivial)).seq hlost
        fun _ => hends _ (.inl rfl)

/-- Whichever of its calls is made, the encoder hands out what that call made. -/
theorem outline_run (call : EncoderCall) :
    Outline (telling encoder.Takes) () (Made framed before) (encoder.run call) (Handed before) := by
  cases call with
  | encode nv12 timestamp100ns => exact outline_encode nv12 timestamp100ns
  | available => exact outline_available
  | drain =>
    exact (outline_plain (plain_call _ (o := .commandDrain) trivial)).seq
      (fun e => handed_error List.prefix_rfl) fun _ => outline_drainLoop

/-- The frames that calls handed out, in order; a call that failed handed out none. -/
def handed (results : List (Except CodecError (List EncodedFrame))) : List EncodedFrame :=
  results.flatMap fun r => r.toOption.getD []

/-- What calls handed out of the frames made. If no call failed nothing is missing. -/
structure InHand (results : List (Except CodecError (List EncodedFrame)))
    (frames : List EncodedFrame) : Prop where
  sendable : ∀ packet ∈ handed results, packet.Sendable
  ordered : (handed results).Sublist frames
  complete : (∀ r ∈ results, r.isOk = true) → handed results = frames

variable {results : List (Except CodecError (List EncodedFrame))}

/-- The next call may add to it: frames made during a call that fails are never handed out later. -/
theorem InHand.concat (h : InHand results before) {r : Except CodecError (List EncodedFrame)}
    {s : CodecState} (hr : Handed before r s) :
    InHand (results ++ [r]) (made framed s.history) := by
  cases r with
  | error e =>
    have hsame : handed (results ++ [.error e]) = handed results := by
      simp [handed, Except.toOption]
    refine ⟨hsame ▸ h.sendable, hsame ▸ h.ordered.trans hr.sublist, fun hall => ?_⟩
    cases hall (.error e) (by simp)
  | ok packets =>
    obtain ⟨hpackets, hmade⟩ := hr
    have hmore : handed (results ++ [.ok packets]) = handed results ++ packets := by
      simp [handed, Except.toOption]
    rw [show made framed s.history = before ++ packets from hmade]
    refine ⟨fun packet hpacket => ?_, ?_, fun hall => ?_⟩
    · rw [hmore] at hpacket
      exact (List.mem_append.mp hpacket).elim (h.sendable packet) (hpackets packet)
    · rw [hmore]
      exact h.ordered.append (List.Sublist.refl packets)
    · rw [hmore, h.complete fun r hr => hall r (List.mem_append_left _ hr)]

/-- One call more on the encoder. -/
theorem outline_inHand (results : List (Except CodecError (List EncodedFrame)))
    (call : EncoderCall) :
    Outline (telling encoder.Takes) () (fun s => InHand results (made framed s.history))
      (encoder.run call) fun r s => InHand (results ++ [r]) (made framed s.history) := by
  refine Outline.pre (P := fun s => ∃ before, InHand results before ∧ Made framed before s)
    Regime.keeping_stable (fun s _ h => ⟨made framed s.history, h, rfl⟩) ?_
  refine .of_exists Regime.keeping_stable fun before => ?_
  refine .given (fun _ => Regime.keeping_stable) fun h => ?_
  exact (outline_run call).post fun r s _ hr => h.concat hr

end Encoder

/-- **What an encoder hands out.** Whatever calls are made on an encoder, and whatever its
transform answers:

* every frame handed out has bytes and is no larger than a frame may be;
* the frames handed out are among those the transform made, in the order in which it made them,
  and none is handed out twice;
* if no call failed, they are all of them;
* the transform was never told to put out anything but H.264 of the encoder's size. -/
theorem encoder_hands_out (encoder : Encoder) (calls : List EncoderCall) (engine : Engine)
    {results : List (Except CodecError (List EncodedFrame))} {s : CodecState}
    (hrun : (Prog.each encoder.run calls).RunsOn codec () ⟨engine, []⟩ results s) :
    (∀ packet ∈ Encoder.handed results, packet.Sendable) ∧
    (Encoder.handed results).Sublist (made Encoder.framed s.history) ∧
    ((∀ r ∈ results, r.isOk = true) → Encoder.handed results = made Encoder.framed s.history) ∧
    ∀ media ∈ s.history.filterMap told, media.subtype = .ok .h264 ∧
      ∃ size, media.frameSize = .ok size ∧ unpackSize size = (encoder.width, encoder.height) := by
  have houtline := Outline.each
    (Q := fun results (s : CodecState) => Encoder.InHand results (made Encoder.framed s.history))
    (fun results call => encoder.outline_inHand results call) [] calls
    fun _ => Regime.keeping_stable
  have hstart : Encoder.InHand [] (made Encoder.framed []) :=
    ⟨fun _ h => (by cases h), .slnil, fun _ => rfl⟩
  obtain ⟨htold, hinHand⟩ := hrun.outlined houtline (fun _ h => by cases h) hstart
  exact ⟨hinHand.sendable, hinHand.ordered, hinHand.complete, htold⟩

/-! ### A synchronous transform -/

namespace Synchronous

/-- The transform is asked for an output. -/
def asked (r : Except WindowsError (Option OutputSample)) : List (Event TransformOp) :=
  [⟨.getOutputStreamInfo, .ok ⟨true, 0⟩⟩, ⟨.processOutput, r⟩]

/-- What the engine makes of it: a transform that wants more input is no error. -/
def outcome : Except WindowsError (Option OutputSample) → Except CodecError (Option OutputSample)
  | .ok sample => .ok sample
  | .error .transformNeedMoreInput => .ok none
  | .error e => .error (.windows e)

theorem asks (maximum : ℕ) (before : List (Event TransformOp))
    (r : Except WindowsError (Option OutputSample)) :
    (output maximum).RunsOn codec () ⟨.new false, before⟩ (outcome r)
      ⟨.new false, before ++ asked r⟩ := by
  rw [asked, List.append_cons]
  refine .op ⟨rfl, rfl⟩ (.op ⟨rfl, rfl⟩ ?_)
  refine .op (b := Except.ok ⟨true, 0⟩) rfl (.op (b := r) rfl ?_)
  rcases r with (_ | _ | _ | _) | sample <;> exact .ret _ _

/-- The transform wants more input, which ends the loop over its outputs. -/
theorem pauses (maximum : ℕ) (before : List (Event TransformOp)) :
    (output maximum).RunsOn codec () ⟨.new false, before⟩ (.ok none)
      ⟨.new false, before ++ asked (.error .transformNeedMoreInput)⟩ :=
  asks maximum before (.error .transformNeedMoreInput)

end Synchronous

namespace LostFrame

open Synchronous

theorem parameters_accepted : ∃ bitrate, H264Encoder.checkParameters 16 16 30 bitrate = .ok () :=
  ⟨1000000, rfl⟩

def encoder : Encoder := ⟨16, 16, 30, parameters_accepted⟩
def sample (byte : UInt8) : OutputSample :=
  ⟨.ok (), .ok 1, .ok (some [byte, 9]), .ok (), .ok 7, some 1⟩
def frame (byte : UInt8) : EncodedFrame := ⟨7, true, [byte]⟩
def media (subtype : VideoSubtype) : MediaType :=
  ⟨.ok subtype, .ok (16 * 2 ^ 32 + 16), none, none, none⟩

/-- The stream changes, and the encoder finds a type to go on with. -/
def changed : List (Event TransformOp) :=
  asked (.error .transformStreamChange) ++
    [⟨.getOutputAvailableType 0, .ok (media .nv12)⟩,
      ⟨.getOutputAvailableType 1, .ok (media .h264)⟩, ⟨.setOutputType (media .h264), .ok ()⟩]

/-- A sample, and then no more. -/
def one (byte : UInt8) : List (Event TransformOp) :=
  asked (.ok (some (sample byte))) ++ asked (.error .transformNeedMoreInput)

/-- A sample, and then a failure. -/
def broken (byte : UInt8) : List (Event TransformOp) :=
  asked (.ok (some (sample byte))) ++ asked (.error (.other 5))

theorem available_one (byte : UInt8) (n : ℕ) (before : List (Event TransformOp)) :
    (encoder.collect (n + 2) []).RunsOn codec () ⟨.new false, before⟩ (.ok [frame byte])
      ⟨.new false, before ++ one byte⟩ := by
  rw [one, ← List.append_assoc]
  refine .seq (.lift (asks _ before (.ok (some (sample byte))))) ?_
  refine .seq (.ofExcept rfl) (.seq (.lift (pauses _ _)) (.ret _ _))

theorem available_broken (byte : UInt8) (before : List (Event TransformOp)) :
    encoder.available.RunsOn codec () ⟨.new false, before⟩ (.error (.windows (.other 5)))
      ⟨.new false, before ++ broken byte⟩ := by
  rw [broken, ← List.append_assoc]
  refine .seq (.lift (asks _ before (.ok (some (sample byte))))) ?_
  exact .seq (.ofExcept rfl) (.seq (.lift (asks _ _ (.error (.other 5)))) (.ret _ _))

theorem available_changed (byte : UInt8) :
    encoder.available.RunsOn codec () ⟨.new false, []⟩ (.ok [frame byte])
      ⟨.new false, changed ++ one byte⟩ := by
  refine .seq (.lift (asks _ [] (.error .transformStreamChange))) ?_
  have hreselect : (encoder.reselect 32 0).RunsOn codec ()
      ⟨.new false, asked (.error .transformStreamChange)⟩ (.ok true) ⟨.new false, changed⟩ :=
    .op (b := Except.ok (media .nv12)) rfl (.op (b := Except.ok (media .h264)) rfl
      (.op (b := Except.ok ()) rfl (.ret _ _)))
  exact .seq hreselect (.seq (.check rfl) (available_one byte 13 changed))

def results : List (Except CodecError (List EncodedFrame)) :=
  [.ok [frame 1], .error (.windows (.other 5)), .ok [frame 3]]

def history : List (Event TransformOp) := changed ++ one 1 ++ broken 2 ++ one 3

theorem runs : (Prog.each encoder.run [.available, .available, .available]).RunsOn codec ()
    ⟨.new false, []⟩ results ⟨.new false, history⟩ := by
  refine Prog.RunsOn.bind (available_changed 1) (Prog.RunsOn.bind ?_ (.ret _ _))
  refine Prog.RunsOn.bind (available_broken 2 _) (Prog.RunsOn.bind ?_ (.ret _ _))
  exact Prog.RunsOn.bind (available_one 3 14 _) (.ret _ _)

/-- The frame of the call that failed is lost; the others are handed out. -/
theorem others_handed_out : Encoder.handed results = [frame 1, frame 3] ∧
    made Encoder.framed history = [frame 1, frame 2, frame 3] ∧
    (∀ packet ∈ Encoder.handed results, packet.Sendable) ∧
    (Encoder.handed results).Sublist (made Encoder.framed history) ∧
    (media .h264).subtype = .ok .h264 := by
  obtain ⟨hsendable, hordered, -, htold⟩ :=
    encoder_hands_out encoder [.available, .available, .available] (.new false) runs
  exact ⟨rfl, rfl, hsendable, hordered, (htold (media .h264) (.head _)).1⟩

end LostFrame

/-! ## The decoder -/

/-- The samples, each with the type that the transform said it puts out when it was first asked
after it. The decoder asks right after every sample, before the next one is put out. -/
def typed : Account (OutputSample × Option MediaType) where
  note xs e :=
    match putOut e, saidType e with
    | some sample, _ => xs ++ [(sample, none)]
    | none, some media => xs.modifyLast fun x => (x.1, x.2.or (some media))
    | none, none => xs
  attends xs e he he' := by rw [he, he']

/-- Both accounts grow by the same samples; a type is noted at the last sample there is. -/
theorem typed_samples_note (xs : List (OutputSample × Option MediaType)) (e : Event TransformOp) :
    (typed.note xs e).map Prod.fst = (gathered some).note (xs.map Prod.fst) e := by
  simp only [typed, gathered]
  rcases putOut e with _ | sample
  · rcases saidType e with _ | media
    · simp
    · rcases List.eq_nil_or_concat xs with rfl | ⟨front, last, rfl⟩
      · rfl
      · simp [List.modifyLast_concat]
  · simp

/-- Without their types they are the samples the transform put out, all of them and in order. -/
theorem typed_samples (history : List (Event TransformOp)) :
    (typed.of history).map Prod.fst = made some history := by
  induction history using List.reverseRecOn with
  | nil => rfl
  | append_singleton history e ih =>
    rw [Account.of, List.foldl_concat, typed_samples_note, made, Account.of, List.foldl_concat]
    exact congrArg ((gathered some).note · e) ih

/-- Code that puts nothing out; what it returns satisfies `P`. -/
def Returns (suits : MediaType → Prop) (P : α → Prop) (x : EngineM α) : Prop :=
  ∀ samples, Outline (telling suits) () (Tally typed samples) x fun r s =>
    (∀ a, r = .ok a → P a) ∧ Tally typed samples s

namespace Returns

variable {P : β → Prop} {f : α → EngineM β}

theorem value {b : β} (h : P b) : Returns suits P (pure b) := fun _ =>
  .ret Regime.keeping_stable fun s _ hmade => ⟨by rintro _ ⟨⟩; exact h, hmade⟩

theorem failure (e : CodecError) : Returns suits P (throw e) := fun _ =>
  .ret Regime.keeping_stable fun s _ hmade => ⟨by rintro _ ⟨⟩, hmade⟩

theorem plain_seq {x : EngineM α} (hx : x.Only (EngineOp.Plain suits))
    (hf : ∀ a, Returns suits P (f a)) : Returns suits P (x >>= f) := fun samples =>
  (outline_plain hx).seq (fun e => failure e samples) fun a => hf a samples

theorem ofExcept_seq {r : Except CodecError α} (hf : ∀ a, r = .ok a → Returns suits P (f a)) :
    Returns suits P (Fallible.ofExcept r >>= f) := by
  cases r with
  | error e => exact failure e
  | ok a => exact hf a rfl

end Returns

namespace Decoder

variable {avx2 : Bool} {decoder : Decoder}

/-- A type that the decoder may go on with: NV12, of a layout that shows its picture. -/
def Takes (decoder : Decoder) (media : MediaType) : Prop :=
  media.subtype = .ok .nv12 ∧
    ∃ layout, decoderLayout media decoder.width decoder.height = .ok layout

/-- A type is selected only if it fits: the search goes through the types the transform offers,
skips those that are not NV12, and fails at an NV12 type whose layout does not show the picture. -/
theorem returns_reselect (n index : ℕ) :
    Returns decoder.Takes (fun selected => ∀ media ∈ selected, decoder.Takes media)
      (decoder.reselect n index) := by
  induction n generalizing index with
  | zero => exact .value fun _ h => by cases h
  | succ n ih =>
    refine .plain_seq (plain_answer _ (o := .getOutputAvailableType index) trivial) fun r => ?_
    rcases r with e | media
    · exact .value fun _ h => by cases h
    · refine .ofExcept_seq fun subtype hsubtype => ?_
      split
      · exact ih _
      · rename_i hnv12
        refine .ofExcept_seq fun layout hlayout => .value ?_
        rintro _ ⟨⟩
        rw [not_not.mp hnv12] at hsubtype
        exact ⟨ok_of_mapError hsubtype, layout, hlayout⟩

/-- The picture is that of a sample, under the type that the transform said it puts out. -/
def Shows (avx2 : Bool) (decoder : Decoder) (shown : OutputSample × Option MediaType)
    (frame : DecodedFrame) : Prop :=
  ∃ media storageW storageH bytes, shown.2 = some media ∧
    decoderLayout media decoder.width decoder.height = .ok (storageW, storageH) ∧
    sampleBytes shown.1 (MAX_PIXELS * 4) = .ok bytes ∧
    nv12ToRgbaPadded avx2 bytes decoder.width decoder.height (media.defaultStride.getD storageW)
      storageH = some (.ok frame)

/-- A picture has the size of the decoder, four bytes for each pixel, whatever the storage of the
sample was. -/
theorem Shows.size {shown : OutputSample × Option MediaType} {frame : DecodedFrame}
    (h : Shows avx2 decoder shown frame) : frame.width = decoder.width ∧
      frame.height = decoder.height ∧ frame.rgba.length = decoder.width * decoder.height * 4 := by
  obtain ⟨media, storageW, storageH, bytes, -, -, -, hframe⟩ := h
  rcases nv12ToRgbaPadded_eq avx2 bytes decoder.width decoder.height
    (media.defaultStride.getD storageW) storageH with ⟨-, e, herror⟩ | ⟨-, heq⟩
  · cases herror.symm.trans hframe
  · cases heq.symm.trans hframe
    refine ⟨rfl, rfl, ?_⟩
    rw [decodedPixels, length_flatMap_range fun _ _ => length_rowPixels _ _ _ _, ← Nat.mul_assoc,
      Nat.mul_comm decoder.height]

/-- Every picture is that of some sample. -/
theorem shows_of_mem {samples : List (OutputSample × Option MediaType)}
    {frames : List DecodedFrame} (h : List.Forall₂ (Shows avx2 decoder) samples frames)
    {frame : DecodedFrame} (hmem : frame ∈ frames) : ∃ shown, Shows avx2 decoder shown frame := by
  induction h with
  | nil => cases hmem
  | cons hshows _ ih =>
    rcases List.mem_cons.mp hmem with rfl | hmem
    · exact ⟨_, hshows⟩
    · exact ih hmem

/-- The conversion of a sample does not panic: its bytes are enough for the storage that the layout
reads. -/
theorem returns_converted {shown : OutputSample × Option MediaType} {media : MediaType}
    (hmedia : shown.2 = some media) :
    Returns decoder.Takes (fun picture => ∃ frame, picture = some frame ∧
      Shows avx2 decoder shown frame) (do
        let (storageW, storageH) ←
          Fallible.ofExcept (decoderLayout media decoder.width decoder.height)
        let stride := media.defaultStride.getD storageW
        let bytes ← Fallible.ofExcept (sampleBytes shown.1 (MAX_PIXELS * 4))
        match nv12ToRgbaPadded avx2 bytes decoder.width decoder.height stride storageH with
        | none => return none
        | some frame => return some (← Fallible.ofExcept (frame.mapError .media))) := by
  refine Returns.ofExcept_seq fun layout hlayout => ?_
  refine Returns.ofExcept_seq fun bytes hbytes => ?_
  obtain ⟨r, hr⟩ : ∃ r, nv12ToRgbaPadded avx2 bytes decoder.width decoder.height
      (media.defaultStride.getD layout.1) layout.2 = some r := by
    rcases nv12ToRgbaPadded_eq avx2 bytes decoder.width decoder.height
      (media.defaultStride.getD layout.1) layout.2 with ⟨-, e, heq⟩ | ⟨-, heq⟩
    · exact ⟨_, heq⟩
    · exact ⟨_, heq⟩
  simp only [hr]
  refine Returns.ofExcept_seq fun frame hframe => .value ⟨frame, rfl, ?_⟩
  rw [ok_of_mapError hframe] at hr
  exact ⟨media, layout.1, layout.2, bytes, hmedia, hlayout, hbytes, hr⟩

/-- The answer is noted at the sample that was put out last, as it has no type yet. -/
theorem tally_getOutputCurrentType (sample : OutputSample)
    (before : List (OutputSample × Option MediaType)) :
    Outline (telling suits) () (Tally typed (before ++ [(sample, none)]))
      (call .getOutputCurrentType) fun r => Tally typed (before ++ [(sample, r.toOption)]) := by
  refine .attempt Regime.keeping_stable (correct_call ?_) fun r => ?_
  · rintro b media ⟨⟩
  · refine .ret Regime.keeping_stable fun s _ h => ?_
    cases r with
    | error e => exact h
    | ok media => exact h.trans (List.modifyLast_concat _ _ _)

/-- A picture is made of the last sample that was put out, under the type that is asked for there;
when the type is not learnt or does not fit there is no picture, and the call fails. -/
theorem outline_picture (sample : OutputSample)
    (before : List (OutputSample × Option MediaType)) :
    Outline (telling decoder.Takes) () (Tally typed (before ++ [(sample, none)]))
      (decoder.picture avx2 sample) fun r s =>
        (∀ picture, r = .ok picture → ∃ shown frame, picture = some frame ∧
          Shows avx2 decoder shown frame ∧ Tally typed (before ++ [shown]) s) ∧
        before <+: typed.of s.history := by
  refine (tally_getOutputCurrentType sample before).seq (fun e => ?_) fun media => ?_
  · refine .ret Regime.keeping_stable fun s _ h => ⟨by rintro _ ⟨⟩, ?_⟩
    exact (List.prefix_append _ _).trans h.begins
  · have htype : ((sample, some media) : OutputSample × Option MediaType).2 = some media := rfl
    refine (returns_converted htype _).post fun r s _ h => ?_
    refine ⟨fun picture hpicture => ?_, (List.prefix_append _ _).trans h.2.begins⟩
    obtain ⟨frame, hframe, hshows⟩ := h.1 picture hpicture
    exact ⟨_, frame, hframe, hshows, h.2⟩

/-- What a call on the decoder hands out, after the samples put out before it: a picture of each
later one, or, if it fails, some are lost. A panic is no outcome. -/
def Handed (avx2 : Bool) (decoder : Decoder) (before : List (OutputSample × Option MediaType)) :
    Except CodecError (Option (List DecodedFrame)) → CodecState → Prop
  | .ok r, s => ∃ samples frames,
      (r = some frames ∧ List.Forall₂ (Shows avx2 decoder) samples frames) ∧
      Tally typed (before ++ samples) s
  | .error _, s => before <+: typed.of s.history

variable {before : List (OutputSample × Option MediaType)}

theorem handed_error {samples : List (OutputSample × Option MediaType)} {e : CodecError}
    (hsamples : before <+: samples) :
    Outline (telling decoder.Takes) () (Tally typed samples) (.ret (.error e))
      (Handed avx2 decoder before) :=
  .ret Regime.keeping_stable fun _ _ h => hsamples.trans h.begins

/-- The loop over the outputs: the pictures made so far show the samples that were put out since the
call began, one for one. -/
theorem outline_collect (n : ℕ) (samples : List (OutputSample × Option MediaType))
    (frames : List DecodedFrame) (hframes : List.Forall₂ (Shows avx2 decoder) samples frames) :
    Outline (telling decoder.Takes) () (Tally typed (before ++ samples))
      (decoder.collect avx2 n frames) (Handed avx2 decoder before) := by
  induction n generalizing samples frames with
  | zero => exact .ret Regime.keeping_stable fun s _ h => ⟨samples, frames, ⟨rfl, hframes⟩, h⟩
  | succ n ih =>
    have hbefore : before <+: before ++ samples := List.prefix_append _ _
    refine (tally_output (MAX_PIXELS * 4)).lift_seq fun r => ?_
    rcases r with ⟨(_ | _ | _ | _) | _⟩ | _ | sample
    case succ.error.windows.transformStreamChange =>
      refine (returns_reselect 32 0 _).seq (fun e => ?_) fun selected => ?_
      · exact .ret Regime.keeping_stable fun s _ h => hbefore.trans h.2.begins
      · refine .given (fun _ => Regime.keeping_stable) fun hselected => ?_
        cases selected with
        | none => exact handed_error hbefore
        | some media =>
          have hplain : (call (.setOutputType media)).Only (EngineOp.Plain decoder.Takes) :=
            plain_call _ (o := .setOutputType media) (hselected _ rfl media rfl)
          exact (outline_plain hplain).seq (fun e => handed_error hbefore) fun _ => ih _ _ hframes
    case succ.ok.some =>
      refine (outline_picture sample (before ++ samples)).seq (fun e => ?_) fun picture => ?_
      · exact .ret Regime.keeping_stable fun s _ h => hbefore.trans h.2
      · refine Outline.pre (P := fun s => ∃ shown frame, (picture = some frame ∧
          Shows avx2 decoder shown frame) ∧ Tally typed (before ++ samples ++ [shown]) s)
          Regime.keeping_stable (fun s _ h => ?_) ?_
        · obtain ⟨shown, frame, hframe, hshows, htally⟩ := h.1 picture rfl
          exact ⟨shown, frame, ⟨hframe, hshows⟩, htally⟩
        refine .of_exists Regime.keeping_stable fun shown => ?_
        refine .of_exists Regime.keeping_stable fun frame => ?_
        refine .given (fun _ => Regime.keeping_stable) fun hframe => ?_
        obtain ⟨rfl, hshows⟩ := hframe
        rw [List.append_assoc]
        exact ih _ _ (List.rel_append hframes (.cons hshows .nil))
    case succ.ok.none =>
      exact .ret Regime.keeping_stable fun s _ h => ⟨samples, frames, ⟨rfl, hframes⟩, h⟩
    all_goals exact handed_error hbefore

/-- Feeding a frame puts nothing out, so what a call hands out comes from the loop after it. -/
theorem outline_decode (frame : EncodedFrame) :
    Outline (telling decoder.Takes) () (Tally typed before) (decoder.decode avx2 frame)
      (Handed avx2 decoder before) := by
  have hlost (e : CodecError) : Outline (telling decoder.Takes) () (Tally typed before)
      (.ret (.error e)) (Handed avx2 decoder before) :=
    handed_error List.prefix_rfl
  refine .check_seq Regime.keeping_stable (fun _ _ h => h.begins) fun _ => ?_
  refine (outline_plain (plain_sample _ _ _ _)).seq hlost fun sample => ?_
  refine (outline_plain (plain_input _ sample)).seq hlost fun _ => ?_
  refine Outline.pre Regime.keeping_stable (fun _ _ => tally_nil) ?_
  exact outline_collect 16 [] [] .nil

/-- The pictures that calls handed out, in order. -/
def pictures (results : List (Except CodecError (Option (List DecodedFrame)))) :
    List DecodedFrame :=
  results.flatMap fun r => r.toOption.join.getD []

/-- What calls handed out of the samples put out: no call panicked, the pictures are those of some
of the samples, in order, and of all of them if no call failed. -/
structure InHand (avx2 : Bool) (decoder : Decoder)
    (results : List (Except CodecError (Option (List DecodedFrame))))
    (samples : List (OutputSample × Option MediaType)) : Prop where
  returned : ∀ r ∈ results, r ≠ .ok none
  shown : ∃ kept : List (OutputSample × Option MediaType), kept.Sublist samples ∧
    List.Forall₂ (Shows avx2 decoder) kept (pictures results) ∧
    ((∀ r ∈ results, r.isOk = true) → kept = samples)

/-- The next call may add to it: the samples of a call that failed are left out for good. -/
theorem InHand.concat {results : List (Except CodecError (Option (List DecodedFrame)))}
    (h : InHand avx2 decoder results before) {r : Except CodecError (Option (List DecodedFrame))}
    {s : CodecState} (hr : Handed avx2 decoder before r s) :
    InHand avx2 decoder (results ++ [r]) (typed.of s.history) := by
  obtain ⟨hreturned, kept, hkept, hshown, hall⟩ := h
  cases r with
  | error e =>
    have hsame : pictures (results ++ [.error e]) = pictures results := by
      simp [pictures, Except.toOption]
    refine ⟨fun r hr => ?_, kept, hkept.trans hr.sublist, hsame ▸ hshown, fun hok => ?_⟩
    · rcases List.mem_append.mp hr with hr | hr
      · exact hreturned r hr
      · rw [List.mem_singleton.mp hr]
        simp
    · cases hok (.error e) (by simp)
  | ok r =>
    obtain ⟨new, frames, ⟨rfl, hframes⟩, hmade⟩ := hr
    have hmore : pictures (results ++ [.ok (some frames)]) = pictures results ++ frames := by
      simp [pictures, Except.toOption]
    rw [show typed.of s.history = before ++ new from hmade]
    refine ⟨fun r hr => ?_, kept ++ new, hkept.append (List.Sublist.refl new), ?_, fun hok => ?_⟩
    · rcases List.mem_append.mp hr with hr | hr
      · exact hreturned r hr
      · rw [List.mem_singleton.mp hr]
        simp
    · rw [hmore]
      exact List.rel_append hshown hframes
    · rw [hall fun r hr => hok r (List.mem_append_left _ hr)]

/-- One call more on the decoder. -/
theorem outline_inHand (results : List (Except CodecError (Option (List DecodedFrame))))
    (frame : EncodedFrame) :
    Outline (telling decoder.Takes) ()
      (fun s => InHand avx2 decoder results (typed.of s.history)) (decoder.decode avx2 frame)
      fun r s => InHand avx2 decoder (results ++ [r]) (typed.of s.history) := by
  refine Outline.pre (P := fun s => ∃ before, InHand avx2 decoder results before ∧
    Tally typed before s) Regime.keeping_stable (fun s _ h => ⟨typed.of s.history, h, rfl⟩) ?_
  refine .of_exists Regime.keeping_stable fun before => ?_
  refine .given (fun _ => Regime.keeping_stable) fun h => ?_
  exact (outline_decode frame).post fun r s _ hr => h.concat hr

/-- A layout that shows a picture is no smaller than it, and no larger than its macroblocks. -/
theorem le_of_decoderLayout {media : MediaType} {width height storageW storageH : ℕ}
    (h : decoderLayout media width height = .ok (storageW, storageH)) :
    (width ≤ storageW ∧ storageW ≤ (width + 15) / 16 * 16) ∧
      height ≤ storageH ∧ storageH ≤ (height + 15) / 16 * 16 := by
  obtain ⟨size, -, h⟩ := ok_of_bind h
  obtain ⟨count, -, h⟩ := ok_of_bind h
  split at h
  · rename_i hsame
    cases h
    cases hsame
    omega
  · split at h
    · rename_i hfits
      cases h
      exact ⟨⟨hfits.1, hfits.2.2.1⟩, hfits.2.1, hfits.2.2.2.1⟩
    · cases h

end Decoder

/-- **What a decoder hands out.** Whatever frames a decoder is given, and whatever its transform
answers:

* no call panics;
* the pictures handed out are those of samples that the transform put out, in the order in which
  it did and each sample at most once, under the type that it said it puts out when it was asked
  after the sample, whose layout shows the picture;
* if no call failed, every sample that was put out is shown;
* every picture is of the decoder's size, with four bytes for each pixel;
* the transform was never told to put out anything but NV12 whose layout is that of the picture,
  or of its macroblocks. -/
theorem decoder_hands_out (avx2 : Bool) (decoder : Decoder) (frames : List EncodedFrame)
    (engine : Engine) {results : List (Except CodecError (Option (List DecodedFrame)))}
    {s : CodecState}
    (hrun : (Prog.each (decoder.decode avx2) frames).RunsOn codec () ⟨engine, []⟩ results s) :
    (∀ r ∈ results, r ≠ .ok none) ∧
    (typed.of s.history).map Prod.fst = made some s.history ∧
    (∃ kept : List (OutputSample × Option MediaType), kept.Sublist (typed.of s.history) ∧
      List.Forall₂ (Decoder.Shows avx2 decoder) kept (Decoder.pictures results) ∧
      ((∀ r ∈ results, r.isOk = true) → kept = typed.of s.history)) ∧
    (∀ picture ∈ Decoder.pictures results, picture.width = decoder.width ∧
      picture.height = decoder.height ∧
      picture.rgba.length = decoder.width * decoder.height * 4) ∧
    ∀ media ∈ s.history.filterMap told, media.subtype = .ok .nv12 ∧
      ∃ storageW storageH,
        decoderLayout media decoder.width decoder.height = .ok (storageW, storageH) ∧
        (decoder.width ≤ storageW ∧ storageW ≤ (decoder.width + 15) / 16 * 16) ∧
        decoder.height ≤ storageH ∧ storageH ≤ (decoder.height + 15) / 16 * 16 := by
  have houtline := Outline.each
    (Q := fun results (s : CodecState) => Decoder.InHand avx2 decoder results (typed.of s.history))
    (fun results frame => Decoder.outline_inHand results frame) [] frames
    fun _ => Regime.keeping_stable
  have hstart : Decoder.InHand avx2 decoder [] (typed.of []) :=
    ⟨fun _ h => (by cases h), [], .slnil, .nil, fun _ => rfl⟩
  obtain ⟨htold, hinHand⟩ := hrun.outlined houtline (fun _ h => by cases h) hstart
  refine ⟨hinHand.returned, typed_samples s.history, hinHand.shown,
    fun picture hpicture => ?_, fun media hmedia => ?_⟩
  · obtain ⟨kept, -, hshown, -⟩ := hinHand.shown
    obtain ⟨sample, hshows⟩ := Decoder.shows_of_mem hshown hpicture
    exact hshows.size
  · obtain ⟨hsubtype, ⟨storageW, storageH⟩, hlayout⟩ := htold media hmedia
    exact ⟨hsubtype, storageW, storageH, hlayout, Decoder.le_of_decoderLayout hlayout⟩

namespace UnreadType

open Synchronous

theorem size : ∃ count, pixels 2 2 = .ok count := ⟨4, rfl⟩

def decoder : Decoder := ⟨2, 2, 30, size, by decide⟩
def media : MediaType := ⟨.ok .nv12, .ok (2 * 2 ^ 32 + 2), none, none, none⟩
def sample (time : ℤ) : OutputSample :=
  ⟨.ok (), .ok 6, .ok (some [16, 16, 16, 16, 128, 128]), .ok (), .ok time, none⟩
def picture : DecodedFrame := ⟨2, 2, (List.replicate 4 [0, 0, 0, 255]).flatten⟩

/-- A frame is given to the transform. -/
def fed : List (Event TransformOp) :=
  [⟨.createInput ⟨[1], 7, 333333⟩, .ok ()⟩, ⟨.processInput ⟨[1], 7, 333333⟩, .ok ()⟩]

/-- The stream changes, and the decoder goes on with the first type there is. -/
def changed : List (Event TransformOp) :=
  asked (.error .transformStreamChange) ++
    [⟨.getOutputAvailableType 0, .ok media⟩, ⟨.setOutputType media, .ok ()⟩]

/-- A sample, and the answer to the question for its type. -/
def typedSample (time : ℤ) (r : Except WindowsError MediaType) : List (Event TransformOp) :=
  asked (.ok (some (sample time))) ++ [⟨.getOutputCurrentType, r⟩]

theorem decode_fed {before after : List (Event TransformOp)}
    {r : Except CodecError (Option (List DecodedFrame))}
    (h : (decoder.collect false 16 []).RunsOn codec () ⟨.new false, before ++ fed⟩ r
      ⟨.new false, after⟩) :
    (decoder.decode false ⟨7, true, [1]⟩).RunsOn codec () ⟨.new false, before⟩ r
      ⟨.new false, after⟩ := by
  rw [fed, List.append_cons] at h
  exact .op (b := Except.ok ()) rfl (.op ⟨rfl, rfl⟩ (.op (b := Except.ok ()) rfl h))

theorem collect_one (time : ℤ) (n : ℕ) (before : List (Event TransformOp)) :
    (decoder.collect false (n + 2) []).RunsOn codec () ⟨.new false, before⟩ (.ok (some [picture]))
      ⟨.new false, before ++ typedSample time (.ok media) ++
        asked (.error .transformNeedMoreInput)⟩ := by
  rw [typedSample, ← List.append_assoc]
  refine .seq (.lift (asks _ before (.ok (some (sample time))))) ?_
  refine .op (b := Except.ok media) rfl ?_
  exact .seq (.lift (pauses _ _)) (.ret _ _)

theorem collect_unread (time : ℤ) (before : List (Event TransformOp)) :
    (decoder.collect false 16 []).RunsOn codec () ⟨.new false, before⟩
      (.error (.windows (.other 5)))
      ⟨.new false, before ++ typedSample time (.error (.other 5))⟩ := by
  rw [typedSample, ← List.append_assoc]
  refine .seq (.lift (asks _ before (.ok (some (sample time))))) ?_
  exact .op (b := Except.error (.other 5)) rfl (.ret _ _)

theorem collect_changed (time : ℤ) (before : List (Event TransformOp)) :
    (decoder.collect false 16 []).RunsOn codec () ⟨.new false, before⟩ (.ok (some [picture]))
      ⟨.new false, before ++ changed ++ typedSample time (.ok media) ++
        asked (.error .transformNeedMoreInput)⟩ := by
  refine .seq (.lift (asks _ before (.error .transformStreamChange))) ?_
  refine .op (b := Except.ok media) rfl (.op (b := Except.ok ()) rfl ?_)
  have hone := collect_one time 13 (before ++ changed)
  simp only [changed, List.append_assoc, List.cons_append, List.nil_append] at hone ⊢
  exact hone

def results : List (Except CodecError (Option (List DecodedFrame))) :=
  [.ok (some [picture]), .error (.windows (.other 5)), .ok (some [picture])]

/-- After the second sample the type is not learnt. -/
def history : List (Event TransformOp) :=
  fed ++ changed ++ typedSample 1 (.ok media) ++ asked (.error .transformNeedMoreInput) ++
    fed ++ typedSample 2 (.error (.other 5)) ++
    fed ++ typedSample 3 (.ok media) ++ asked (.error .transformNeedMoreInput)

theorem runs : (Prog.each (decoder.decode false)
    [⟨7, true, [1]⟩, ⟨7, true, [1]⟩, ⟨7, true, [1]⟩]).RunsOn codec () ⟨.new false, []⟩ results
      ⟨.new false, history⟩ := by
  refine Prog.RunsOn.bind (decode_fed (collect_changed 1 _)) (Prog.RunsOn.bind ?_ (.ret _ _))
  refine Prog.RunsOn.bind (decode_fed (collect_unread 2 _)) (Prog.RunsOn.bind ?_ (.ret _ _))
  exact Prog.RunsOn.bind (decode_fed (collect_one 3 14 _)) (.ret _ _)

/-- The first and the third sample are shown, each under its type. -/
theorem others_shown : Decoder.pictures results = [picture, picture] ∧
    typed.of history =
      [(sample 1, some media), (sample 2, none), (sample 3, some media)] ∧
    (∃ kept, kept.Sublist (typed.of history) ∧
      List.Forall₂ (Decoder.Shows false decoder) kept [picture, picture]) ∧
    picture.rgba.length = 16 ∧ media.subtype = .ok .nv12 := by
  obtain ⟨-, -, ⟨kept, hkept, hshown, -⟩, hsizes, htold⟩ := decoder_hands_out false decoder
    [⟨7, true, [1]⟩, ⟨7, true, [1]⟩, ⟨7, true, [1]⟩] (.new false) runs
  exact ⟨rfl, rfl, ⟨kept, hkept, hshown⟩, (hsizes picture (.head _)).2.2,
    (htold media (.head _)).1⟩

end UnreadType

end SensorRemote.H264
