import SensorRemote.MetadataRecord
import SensorRemote.SendingEnd
import SensorRemote.ServingEnd

/-!
# A file transfer from end to end

A sender with `send_file` and a receiver with `serve`, in one session after the other. Each session
is a duet over a connection of its own, which may be lost at any message, on either side. A session
that is not interrupted ends with the file received, whatever the sessions before it left.

The folders of both sides work (`faultless`), and the receiver's audit log takes every event
(`serving`). One session publishes the file. In those after it `begin` answers `AlreadyExists`,
`resume` finds the published transfer gone, and the commit of any other fails: both ends return an
error, and the file stays as it is.

The ends are proved apart, as parties of a dialogue: what the one asks is what the other answers.
What a session leaves behind, wherever it is cut off, is a receive folder in which every transfer
but a published one can be resumed (`Left`), and that is all that the next session needs to know. So
the statement about any number of sessions is an induction with one session as its step.
-/

namespace SensorRemote

open Program FolderWorld Transition

variable {δ : Type}

/-- A session. -/
abbrev TransferSession (δ : Type) :=
  Duet (FileOp δ) (ServeAct δ) (ClientMessage δ) ConnectionError (Except EndpointError (Manifest δ))
    (Except EndpointError Unit) (FolderWorld Unit δ) (FolderWorld Unit δ)

/-! ## A session -/

section Sessions

variable (codec : MetadataCodec δ) (sha256 : List UInt8 → δ) (owner : PublicKey) (file : SentFile)
  (accepts : Bool) (published : Option TransferId) (w₀ : FolderWorld Unit δ)

/-- The sender reports success only if the file was received. -/
def Truthful (r : Except EndpointError (Manifest δ)) (_ w' : FolderWorld Unit δ) : Prop :=
  ∀ manifest, r = .ok manifest → manifest = file.manifest sha256 ∧ Received file w'

/-- How a session ends that was not interrupted: the file is received, but once only, and not if
the receiver's user refuses the session. -/
def SessionCompleted (r : Except EndpointError (Manifest δ)) (r' : Except EndpointError Unit)
    (w' : FolderWorld Unit δ) : Prop :=
  if accepts then
    match published with
    | none => r = .ok (file.manifest sha256) ∧ r' = .ok () ∧ Settled codec sha256 owner file w'
    | some id => (∃ e, r = .error e) ∧ (∃ e, r' = .error e) ∧
        Idle codec sha256 owner file (some id) w'
  else r = .error .rejected ∧ r' = .ok () ∧ Idle codec sha256 owner file published w'

/-- How a session ends. `whole` says that it is not interrupted. -/
def SessionEnd (whole : Prop) (r : Except EndpointError (Manifest δ))
    (r' : Except EndpointError Unit) (w w' : FolderWorld Unit δ) : Prop :=
  w = w₀ ∧ Left codec sha256 owner file w' ∧
    (whole → SessionCompleted codec sha256 owner file accepts published r r' w')

/-- The session ends well. -/
abbrev EndsWell (whole : Prop) : TransferSession δ → Prop :=
  Duet.Certain (Truthful sha256 file)
    (SessionEnd codec sha256 owner file accepts published w₀ whole) (faultless δ)
    (serving δ accepts)

end Sessions

/-- The chunks of a file of the greatest size. -/
def MAX_CHUNKS : ℕ := 16384

section Joins

variable {codec : MetadataCodec δ} {sha256 : List UInt8 → δ} {owner : PublicKey} {file : SentFile}
  {accepts : Bool} {published : Option TransferId} {w₀ w w' : FolderWorld Unit δ} {whole : Prop}
  {link link' : Option ℕ} {p : SendingProg δ} {p' : ServingProg δ (Except EndpointError Unit)}

/-- The links do not fail in a session that is not interrupted. -/
def Sturdy (whole : Prop) (link link' : Option ℕ) : Prop := whole → link = none ∧ link' = none

theorem Sturdy.later {l l' : Option ℕ} (h : Sturdy whole link link') (hl : link = none → l = none)
    (hl' : link' = none → l' = none) : Sturdy whole l l' :=
  fun hwhole => ⟨hl (h hwhole).1, hl' (h hwhole).2⟩

theorem failed_truthful {r : Except EndpointError (Manifest δ)} (h : Failed w₀ r w)
    (w' : FolderWorld Unit δ) : Truthful sha256 file r w w' := by
  obtain ⟨⟨e, rfl⟩, -⟩ := h
  rintro _ ⟨⟩

theorem interrupted_end (hsturdy : Sturdy whole link link') (hlinks : link.isSome ∨ link'.isSome)
    {r : Except EndpointError (Manifest δ)} {r' : Except EndpointError Unit}
    (hr : Failed w₀ r w) (hr' : Left codec sha256 owner file w') :
    SessionEnd codec sha256 owner file accepts published w₀ whole r r' w w' := by
  refine ⟨hr.2, hr', fun hwhole => ?_⟩
  obtain ⟨rfl, rfl⟩ := hsturdy hwhole
  simp at hlinks

/-- What was published before is not published again. -/
theorem refused_end {r : Except EndpointError (Manifest δ)} {r' : Except EndpointError Unit}
    (hr : Failed w₀ r w) (hr' : Refused codec sha256 owner file published r' w') :
    SessionEnd codec sha256 owner file true published w₀ whole r r' w w' := by
  obtain ⟨hpublished, herror, hidle⟩ := hr'
  cases published with
  | none => cases hpublished
  | some id => exact ⟨hr.2, ⟨_, hidle⟩, fun _ => ⟨hr.1, herror, hidle⟩⟩

/-- A question and the response in a session. The receiver leaves the folder in `J` if it gets no
question, and in `J'` if it cannot answer. -/
theorem endsWell_question (hsturdy : Sturdy whole link link') {m : ClientMessage δ}
    {L : (ClientMessage δ → SendingProg δ) → FolderWorld Unit δ → Prop}
    {R : ClientMessage δ → ServingProg δ (Except EndpointError Unit) → FolderWorld Unit δ → Prop}
    {J J' : FolderWorld Unit δ → Prop}
    {Q : Except EndpointError Unit → FolderWorld Unit δ → Prop}
    (hasks : Asks (faultless δ) (Failed w₀) m L p w)
    (hresponds : Awaits (serving δ accepts) (fun _ => J)
      (fun k => Responds (serving δ accepts) (fun _ => J') R Q (k m)) p' w')
    (hJ : ∀ w, J w → Left codec sha256 owner file w)
    (hJ' : ∀ w, J' w → Left codec sha256 owner file w)
    (hcloses : ∀ answer p w, R answer p w →
      Closes (serving δ accepts) (fun _ => Left codec sha256 owner file) p w)
    (hrefused : ∀ r r' w w', Failed w₀ r w → Q r' w' →
      SessionEnd codec sha256 owner file accepts published w₀ whole r r' w w')
    (hnext : ∀ k w answer p' w' l l', Sturdy whole l l' → L k w → R answer p' w' →
      EndsWell codec sha256 owner file accepts published w₀ whole
        ⟨⟨k answer, w, l⟩, ⟨p', w', l'⟩, [], []⟩) :
    EndsWell codec sha256 owner file accepts published w₀ whole
      ⟨⟨p, w, link⟩, ⟨p', w', link'⟩, [], []⟩ := by
  have hresponds' : Awaits (serving δ accepts) (fun _ => Left codec sha256 owner file)
      (fun k => Responds (serving δ accepts) (fun _ => Left codec sha256 owner file) R Q (k m))
        p' w' :=
    hresponds.mono fun _ _ ⟨k, hp, hquit, hresponse⟩ =>
      ⟨k, hp, fun e => (hquit e).post fun _ => hJ, hresponse.post fun _ => hJ'⟩
  refine Duet.Certain.question hasks hresponds' hcloses (fun _ _ w' h => failed_truthful h w') ?_
    hrefused ?_
  · exact fun hshort _ _ _ _ =>
      interrupted_end hsturdy (hshort.imp Duet.Short.isSome Duet.Short.isSome)
  · intro k w answer p' w' _ _ hk hanswer
    refine hnext k w answer p' w' _ _ (hsturdy.later (fun h => ?_) fun h => ?_) hk hanswer
    · rw [h]
      rfl
    · rw [h]
      rfl

/-- A question and its answer, which the receiver does not refuse. -/
theorem endsWell_exchange (hsturdy : Sturdy whole link link') {m : ClientMessage δ}
    {L : (ClientMessage δ → SendingProg δ) → FolderWorld Unit δ → Prop}
    {R : ClientMessage δ → ServingProg δ (Except EndpointError Unit) → FolderWorld Unit δ → Prop}
    {J J' : FolderWorld Unit δ → Prop} (hasks : Asks (faultless δ) (Failed w₀) m L p w)
    (hanswers : Awaits (serving δ accepts) (fun _ => J)
      (fun k => Answers (serving δ accepts) (fun _ => J') R (k m)) p' w')
    (hJ : ∀ w, J w → Left codec sha256 owner file w)
    (hJ' : ∀ w, J' w → Left codec sha256 owner file w)
    (hcloses : ∀ answer p w, R answer p w →
      Closes (serving δ accepts) (fun _ => Left codec sha256 owner file) p w)
    (hnext : ∀ k w answer p' w' l l', Sturdy whole l l' → L k w → R answer p' w' →
      EndsWell codec sha256 owner file accepts published w₀ whole
        ⟨⟨k answer, w, l⟩, ⟨p', w', l'⟩, [], []⟩) :
    EndsWell codec sha256 owner file accepts published w₀ whole
      ⟨⟨p, w, link⟩, ⟨p', w', link'⟩, [], []⟩ := by
  refine endsWell_question (Q := fun _ _ => False) hsturdy hasks ?_ hJ hJ' hcloses ?_ hnext
  · exact hanswers.mono fun _ _ ⟨k, hp, hquit, hanswer⟩ => ⟨k, hp, hquit, hanswer.responds⟩
  · exact fun _ _ _ _ _ h => h.elim

theorem FolderWorld.Idle.left {w : FolderWorld Unit δ}
    (h : Idle codec sha256 owner file published w) : Left codec sha256 owner file w := ⟨_, h⟩

theorem Paused.left {w : FolderWorld Unit δ} (h : Paused codec sha256 owner file published w) :
    Left codec sha256 owner file w := ⟨_, h.1⟩

theorem Settled.left {w : FolderWorld Unit δ} (h : Settled codec sha256 owner file w) :
    Left codec sha256 owner file w := by
  obtain ⟨id, hidle⟩ := h
  exact ⟨_, hidle⟩

theorem Concludes.closes (h : Concludes codec sha256 owner file accepts p' w') :
    Closes (serving δ accepts) (fun _ => Left codec sha256 owner file) p' w' := by
  refine Closes.of_quits (h.anywhere.mono ?_)
  rintro _ _ ⟨rfl, hsettled⟩
  exact ⟨_, rfl, hsettled.left⟩

theorem Downloads.closes {n : ℕ} {done : List UInt8}
    (h : Downloads codec sha256 owner file accepts published n done p' w') :
    Closes (serving δ accepts) (fun _ => Paused codec sha256 owner file published) p' w' := by
  cases n with
  | zero => exact h
  | succ n => exact Awaits.closes h

theorem Downloads.commit {n : ℕ}
    (h : Downloads codec sha256 owner file accepts published (n + 1) file.content p' w') :
    Awaits (serving δ accepts) (fun _ => Paused codec sha256 owner file published)
      (fun k => Publishes codec sha256 owner file accepts published (k .commit)) p' w' :=
  h.mono fun _ _ ⟨k, hp, hquit, hcommit, _⟩ => ⟨k, hp, hquit, hcommit rfl⟩

theorem Downloads.chunk {n : ℕ} {done bytes : List UInt8}
    (h : Downloads codec sha256 owner file accepts published (n + 1) done p' w')
    (hbytes : bytes ≠ []) (hchunk : bytes.length ≤ CHUNK_SIZE)
    (hbegins : done ++ bytes <+: file.content) :
    Awaits (serving δ accepts) (fun _ => Paused codec sha256 owner file published)
      (fun k => Answers (serving δ accepts) (fun _ => Paused codec sha256 owner file published)
        (fun m p w => m = .progress (done ++ bytes).length ∧
          Downloads codec sha256 owner file accepts published n (done ++ bytes) p w)
        (k (.chunk done.length bytes (sha256 bytes)))) p' w' :=
  h.mono fun _ _ ⟨k, hp, hquit, _, hmore⟩ => ⟨k, hp, hquit, hmore bytes hbytes hchunk hbegins⟩

/-- After the last answer both return. -/
theorem endsWell_concludes
    (hleft : Quits (faultless δ) (fun r w => r = .ok (file.manifest sha256) ∧ w = w₀) p w)
    (hright : Concludes codec sha256 owner file true p' w') :
    EndsWell codec sha256 owner file true none w₀ whole
      ⟨⟨p, w, link⟩, ⟨p', w', link'⟩, [], []⟩ := by
  apply Duet.Certain.left_leads hleft
  rintro _ w ⟨_, rfl, rfl, rfl⟩
  have hgood : ∀ w', Settled codec sha256 owner file w' → ∀ r,
      (Prog.ret (.ok (file.manifest sha256)) : SendingProg δ).Halted r →
        Truthful sha256 file r w w' := by
    rintro w' ⟨id, hidle⟩ _ ⟨⟩ manifest ⟨⟩
    exact ⟨rfl, hidle.received⟩
  refine Duet.Certain.right_leads hright
    (fun w' hsettled => ⟨hgood w' hsettled, .inl ⟨_, .ret _⟩⟩) ?_
  rintro _ w' hsettled ⟨rfl, -⟩
  exact .both_halted (.ret _) (.ret _) (hgood w' hsettled)
    ⟨rfl, hsettled.left, fun _ => ⟨rfl, rfl, hsettled⟩⟩

/-- The whole file has been sent, and is published. -/
theorem endsWell_commits {n : ℕ} (hsturdy : Sturdy whole link link')
    (hleft : Uploads sha256 file w₀ (n + 1) file.content.length p w)
    (hright : Downloads codec sha256 owner file true published (n + 1) file.content p' w') :
    EndsWell codec sha256 owner file true published w₀ whole
      ⟨⟨p, w, link⟩, ⟨p', w', link'⟩, [], []⟩ := by
  refine endsWell_question hsturdy (hleft.1 rfl) hright.commit (fun _ => Paused.left)
    (fun _ => Settled.left) ?_ (fun _ _ _ _ => refused_end) ?_
  · exact fun _ _ _ h => Concludes.closes h.2.2
  · rintro k w _ p' w' l l' - hk ⟨rfl, rfl, hconcludes⟩
    exact endsWell_concludes hk hconcludes

/-- The rest of the file is sent. The induction is on the number of its chunks. -/
theorem endsWell_uploads {n : ℕ} {done : List UInt8} (hsturdy : Sturdy whole link link')
    (hbegins : done <+: file.content) (hn : file.content.length - done.length ≤ n * CHUNK_SIZE)
    (hleft : Uploads sha256 file w₀ (n + 1) done.length p w)
    (hright : Downloads codec sha256 owner file true published (n + 1) done p' w') :
    EndsWell codec sha256 owner file true published w₀ whole
      ⟨⟨p, w, link⟩, ⟨p', w', link'⟩, [], []⟩ := by
  have hlength := hbegins.length_le
  induction n generalizing done p w p' w' link link' with
  | zero =>
    obtain rfl := hbegins.eq_of_length (by omega)
    exact endsWell_commits hsturdy hleft hright
  | succ n ih =>
    rw [Nat.add_one_mul] at hn
    by_cases hwhole : done.length = file.content.length
    · obtain rfl := hbegins.eq_of_length hwhole
      exact endsWell_commits hsturdy hleft hright
    · -- the next chunk, which is not empty
      have hchunk := file.length_chunkAt done.length
      have hpos : 0 < (file.chunkAt done.length).length := by
        simp only [CHUNK_SIZE] at hchunk
        omega
      have hnext : done ++ file.chunkAt done.length <+: file.content := file.append_chunkAt hbegins
      refine endsWell_exchange hsturdy (hleft.2 (by omega))
        (hright.chunk (List.ne_nil_of_length_pos hpos) (by omega) hnext) (fun _ => Paused.left)
        (fun _ => Paused.left) ?_ ?_
      · exact fun _ _ _ h => h.2.closes.post fun _ _ => Paused.left
      · rintro k w _ p' w' l l' hsturdy' hk ⟨rfl, hdownloads⟩
        refine ih hsturdy' hnext ?_ ?_ hdownloads hnext.length_le
        · rw [List.length_append]
          omega
        · rw [List.length_append]
          exact hk

/-- **A session.** The sender asks for a transfer, and the receiver gives it one, or refuses. -/
theorem endsWell_session (hsturdy : Sturdy whole link link') {resume : Option TransferId}
    (hleft : Conversation sha256 file w₀ resume p w)
    (hright : Welcomes codec sha256 owner file accepts published (file.question sha256 resume)
      p' w') :
    EndsWell codec sha256 owner file accepts published w₀ whole
      ⟨⟨p, w, link⟩, ⟨p', w', link'⟩, [], []⟩ := by
  refine endsWell_exchange hsturdy hleft hright (fun _ => Idle.left) (fun _ => Idle.left) ?_ ?_
  · intro answer p w h
    cases accepts with
    | false =>
      obtain ⟨-, rfl, hidle⟩ := h
      exact Closes.of_quits (Halts.ret hidle.left)
    | true => exact (Awaits.closes h.2).post fun _ _ => Idle.left
  · rintro k w answer p' w' l l' hsturdy' ⟨hasks, hrejected⟩ h
    cases accepts with
    | false =>
      obtain ⟨rfl, rfl, hidle⟩ := h
      apply Duet.Certain.left_leads hrejected
      rintro _ w ⟨_, rfl, rfl, rfl⟩
      refine .both_halted (.ret _) (.ret _) ?_ ⟨rfl, hidle.left, fun _ => ⟨rfl, rfl, hidle⟩⟩
      rintro _ ⟨⟩ manifest ⟨⟩
    | true =>
      obtain ⟨rfl, hserves⟩ := h
      refine endsWell_question hsturdy' hasks hserves (fun _ => Idle.left) (fun _ => Paused.left) ?_
        (fun _ _ _ _ => refused_end) ?_
      · rintro answer p w ⟨id, done, -, -, -, hdownloads⟩
        exact (hdownloads 0 (by decide)).closes.post fun _ _ => Paused.left
      · rintro k w _ p' w' l l' hsturdy'' hk ⟨id, done, hbegins, -, rfl, hdownloads⟩
        have hn : MAX_CHUNKS + 1 < MAX_OPERATIONS := by decide
        have hlength := file.length_le
        have htake : done = file.content.take done.length := List.prefix_iff_eq_take.mp hbegins
        refine endsWell_uploads hsturdy'' hbegins ?_ ?_ (hdownloads _ hn)
        · simp only [DEFAULT_RECEIVE_LIMIT] at hlength
          simp only [MAX_CHUNKS, CHUNK_SIZE]
          omega
        · have hready := hk (MAX_CHUNKS + 1) id done.length hbegins.length_le
          rwa [← htake] at hready

/-! ### A session that is lost -/

/-- There is a transfer to resume, and the sender knows that it has failed. -/
abbrev Pauses (codec : MetadataCodec δ) (sha256 : List UInt8 → δ) (owner : PublicKey)
    (file : SentFile) (w₀ : FolderWorld Unit δ) : TransferSession δ → Prop :=
  Duet.Certain (Truthful sha256 file)
    (fun _ _ w w' => w = w₀ ∧ Paused codec sha256 owner file none w') (faultless δ)
    (serving δ true)

/-- The sender's link fails after `n` chunks more, of a file that has them. -/
theorem pauses_uploads {n : ℕ} {done : List UInt8} (hbegins : done <+: file.content)
    (hn : done.length + n * CHUNK_SIZE ≤ file.content.length)
    (hleft : Uploads sha256 file w₀ (n + 1) done.length p w)
    (hright : Downloads codec sha256 owner file true none n done p' w') :
    Pauses codec sha256 owner file w₀ ⟨⟨p, w, some (2 * n)⟩, ⟨p', w', none⟩, [], []⟩ := by
  have hgood : ∀ r w w', Failed w₀ r w → Truthful sha256 file r w w' :=
    fun _ _ w' h => failed_truthful h w'
  have hlost : ∀ r (_ : Except EndpointError Unit) w w', Failed w₀ r w →
      Paused codec sha256 owner file none w' → w = w₀ ∧ Paused codec sha256 owner file none w' :=
    fun _ _ _ _ h h' => ⟨h.2, h'⟩
  induction n generalizing done p w p' w' with
  | zero =>
    rcases hbegins.length_le.eq_or_lt with hwhole | hmore
    · exact Duet.Certain.unasked (hleft.1 hwhole) hright hgood hlost
    · exact Duet.Certain.unasked (hleft.2 hmore) hright hgood hlost
  | succ n ih =>
    rw [Nat.add_one_mul] at hn
    have hchunk : (file.chunkAt done.length).length = CHUNK_SIZE := by
      rw [file.length_chunkAt]
      omega
    have hpos : 0 < CHUNK_SIZE := by decide
    have hnext : done ++ file.chunkAt done.length <+: file.content := file.append_chunkAt hbegins
    refine Duet.Certain.exchange (hleft.2 (by omega))
      (hright.chunk (List.ne_nil_of_length_pos (by omega)) hchunk.le hnext) ?_ hgood
      (fun _ => hlost) ?_
    · exact fun _ _ _ h => h.2.closes
    · rintro k w _ p' w' - - hk ⟨rfl, hdownloads⟩
      refine ih hnext ?_ ?_ hdownloads
      · rw [List.length_append]
        omega
      · rw [List.length_append]
        exact hk

/-- The sender's link fails after `n` chunks of a new transfer: then it can be resumed. -/
theorem pauses_session {n : ℕ} (hn : n * CHUNK_SIZE ≤ file.content.length)
    (hoperations : n < MAX_OPERATIONS) (hleft : Conversation sha256 file w₀ none p w)
    (hright : Welcomes codec sha256 owner file true none (file.question sha256 none) p' w') :
    Pauses codec sha256 owner file w₀ ⟨⟨p, w, some (2 * (n + 2))⟩, ⟨p', w', none⟩, [], []⟩ := by
  have hgood : ∀ r w w', Failed w₀ r w → Truthful sha256 file r w w' :=
    fun _ _ w' h => failed_truthful h w'
  have hlong : ∀ n, ¬(Duet.Short (some (2 * (n + 1))) ∨ Duet.Short none) := by
    rintro n ((h | h) | (h | h)) <;> cases h
  refine Duet.Certain.exchange hleft hright ?_ hgood (fun h => (hlong _ h).elim) ?_
  · rintro _ _ _ ⟨-, hserves⟩
    exact Awaits.closes hserves
  · rintro k w _ p' w' - - ⟨hasks, -⟩ ⟨rfl, hserves⟩
    have hidle : ∀ w, Paused codec sha256 owner file none w → Idle codec sha256 owner file none w :=
      fun _ h => h.1
    have hserves' : Awaits (serving δ true) (fun _ => Idle codec sha256 owner file none)
        (fun k => Responds (serving δ true) (fun _ => Idle codec sha256 owner file none)
          (Ready codec sha256 owner file true none (file.question sha256 none))
          (Refused codec sha256 owner file none) (k (file.question sha256 none))) p' w' :=
      hserves.mono fun _ _ ⟨k, hp, hquit, hresponse⟩ =>
        ⟨k, hp, hquit, hresponse.post fun _ => hidle⟩
    refine Duet.Certain.question hasks hserves' ?_ hgood (fun h => (hlong _ h).elim) ?_ ?_
    · rintro _ _ _ ⟨id, done, -, -, -, hdownloads⟩
      exact (hdownloads 0 (by decide)).closes.post fun _ => hidle
    · rintro _ _ _ _ - ⟨⟨⟩, -⟩
    · rintro k w _ p' w' - - hk ⟨id, done, hbegins, hnew, rfl, hdownloads⟩
      obtain rfl := hnew rfl
      refine pauses_uploads hbegins (by simpa using hn) ?_ (hdownloads n hoperations)
      exact hk (n + 1) id 0 (Nat.zero_le _)

end Joins

/-! ## One session after the other -/

/-- What a sender and a receiver are doing: nothing, or a session, which the receiver's user
accepts or not. -/
inductive TransferState (δ : Type) where
  | idle (sender receiver : FolderWorld Unit δ)
  | session (accepts : Bool) (s : TransferSession δ)

inductive TransferLabel where
  /-- a session begins, for a new transfer or to resume one; its links may fail -/
  | connect (resume : Option TransferId) (accepts : Bool) (link link' : Option ℕ)
  | sender
  | receiver
  /-- both have returned -/
  | close

section Sequence

variable [DecidableEq δ] (codec : MetadataCodec δ) (sha256 : List UInt8 → δ) (file : SentFile)
  (peer : ExpectedPeer PublicKey) (localId : DeviceId)

/-- The beginning of a session. -/
def startSession (resume : Option TransferId) (link link' : Option ℕ)
    (w w' : FolderWorld Unit δ) : TransferSession δ where
  left := ⟨wired (Sender.sendFile sha256 file.name resume), w, link⟩
  right := ⟨served codec sha256 (serve peer localId), w', link'⟩
  up := []
  down := []

/-- The sessions of a sender and a receiver, about one file. -/
def transfers : LTS (TransferState δ) TransferLabel where
  init
    | .idle w w' => w.Offers file ∧ Idle codec sha256 peer.publicKey file none w'
    | .session _ _ => False
  step
    | .idle w w', .connect resume accepts link link', t =>
        AsksTransfer sha256 peer.publicKey file w' (file.question sha256 resume) ∧
          t = .session accepts (startSession codec sha256 file peer localId resume link link' w w')
    | .session accepts s, .sender, .session accepts' t =>
        accepts' = accepts ∧ s.LeftStep (faultless δ) t
    | .session accepts s, .receiver, .session accepts' t =>
        accepts' = accepts ∧ s.RightStep (serving δ accepts) t
    | .session _ s, .close, .idle w w' =>
        s.left.Gone ∧ s.right.Gone ∧ w = s.left.world ∧ w' = s.right.world
    | _, _, _ => False

end Sequence

section Runs

variable [DecidableEq δ] {codec : MetadataCodec δ} {sha256 : List UInt8 → δ} {file : SentFile}
  {peer : ExpectedPeer PublicKey} {localId : DeviceId}

/-- What holds between sessions, and in them. -/
def TransferState.Sound (codec : MetadataCodec δ) (sha256 : List UInt8 → δ) (file : SentFile)
    (peer : ExpectedPeer PublicKey) : TransferState δ → Prop
  | .idle w w' => w.Offers file ∧ Left codec sha256 peer.publicKey file w'
  | .session accepts s => ∃ published w₀ whole, w₀.Offers file ∧
      EndsWell codec sha256 peer.publicKey file accepts published w₀ whole s

theorem endsWell_start {w w' : FolderWorld Unit δ} (hoffers : w.Offers file)
    {published : Option TransferId} (hidle : Idle codec sha256 peer.publicKey file published w')
    {resume : Option TransferId}
    (hask : AsksTransfer sha256 peer.publicKey file w' (file.question sha256 resume))
    {link link' : Option ℕ} {whole : Prop} (hsturdy : Sturdy whole link link') (accepts : Bool) :
    EndsWell codec sha256 peer.publicKey file accepts published w whole
      (startSession codec sha256 file peer localId resume link link' w w') :=
  endsWell_session hsturdy (sendFile_converses hoffers resume)
    (serve_converses peer localId hidle hask)

theorem sound_of_reachable_transfers {s : TransferState δ}
    (h : (transfers codec sha256 file peer localId).Reachable s) :
    s.Sound codec sha256 file peer := by
  refine h.invariant (fun s hs => ?_) fun s l t hs hstep => ?_
  · cases s with
    | idle w w' => exact ⟨hs.1, hs.2.left⟩
    | session accepts s => exact hs.elim
  · cases s with
    | idle w w' =>
      obtain ⟨hoffers, published, hidle⟩ := hs
      cases l with
      | connect resume accepts link link' =>
        obtain ⟨hask, rfl⟩ := hstep
        exact ⟨published, w, link = none ∧ link' = none, hoffers,
          endsWell_start hoffers hidle hask (fun h => h) accepts⟩
      | _ => exact hstep.elim
    | session accepts s =>
      obtain ⟨published, w₀, whole, hoffers, hends⟩ := hs
      cases l with
      | connect => exact hstep.elim
      | sender =>
        cases t with
        | idle => exact hstep.elim
        | session accepts' t =>
          obtain ⟨rfl, hmove⟩ := hstep
          exact ⟨published, w₀, whole, hoffers, hends.step (.inl hmove)⟩
      | receiver =>
        cases t with
        | idle => exact hstep.elim
        | session accepts' t =>
          obtain ⟨rfl, hmove⟩ := hstep
          exact ⟨published, w₀, whole, hoffers, hends.step (.inr hmove)⟩
      | close =>
        cases t with
        | session => exact hstep.elim
        | idle w w' =>
          obtain ⟨hgone, hgone', rfl, rfl⟩ := hstep
          rcases hends.over_or_step with ⟨_, _, -, -, hworld, hleft, -⟩ | ⟨t, ht⟩
          · rw [hworld]
            exact ⟨hoffers, hleft⟩
          · rcases ht with ⟨_, hmove, -⟩ | ⟨_, hmove, -⟩
            · exact (hmove.not_gone hgone).elim
            · exact (hmove.not_gone hgone').elim

/-- **What was sent was received.** Whatever became of the sessions before: when `send_file` has
returned a manifest, it is that of the file, and the receive folder has the file under its name,
with exactly its bytes. -/
theorem sent_received {accepts : Bool} {s : TransferSession δ}
    (h : (transfers codec sha256 file peer localId).Reachable (.session accepts s))
    {manifest : Manifest δ} (hok : s.left.prog.Halted (.ok manifest)) :
    manifest = file.manifest sha256 ∧ Received file s.right.world := by
  obtain ⟨published, w₀, whole, -, hends⟩ := sound_of_reachable_transfers h
  exact hends.safe _ hok _ rfl

omit [DecidableEq δ] in
/-- A session that ends well has no infinite run, and goes on until both ends have returned. -/
theorem EndsWell.comes_to_end {accepts : Bool} {published : Option TransferId}
    {w₀ : FolderWorld Unit δ} {s₀ : TransferSession δ}
    (h : EndsWell codec sha256 peer.publicKey file accepts published w₀ True s₀) :
    (∀ run : ℕ → TransferSession δ, run 0 = s₀ →
      ¬∀ n, Duet.Step (faultless δ) (serving δ accepts) (run n) (run (n + 1))) ∧
    ∀ s, Relation.ReflTransGen (Duet.Step (faultless δ) (serving δ accepts)) s₀ s →
      (∃ t, Duet.Step (faultless δ) (serving δ accepts) s t) ∨
      ∃ r r', s.left.prog.Halted r ∧ s.right.prog.Halted r' ∧
        SessionCompleted codec sha256 peer.publicKey file accepts published r r' s.right.world := by
  refine ⟨fun run hstart => h.no_run run hstart, fun s hrun => ?_⟩
  rcases (h.run hrun).over_or_step with ⟨r, r', hr, hr', -, -, hcompleted⟩ | hstep
  · exact .inr ⟨r, r', hr, hr', hcompleted trivial⟩
  · exact .inl hstep

/-- **What is not interrupted is completed.** Whatever the sessions before left: a session whose
links do not fail, for a new transfer or to resume one, comes to its end, however its steps are
interleaved. If no session before has published the file, it was received, and both ends have
returned success; if one has, both have failed and the file is still there; and if the receiver's
user refused the session, whatever could be resumed still can. -/
theorem uninterrupted_completes {w w' : FolderWorld Unit δ}
    (h : (transfers codec sha256 file peer localId).Reachable (.idle w w')) :
    ∃ published, Idle codec sha256 peer.publicKey file published w' ∧
      ∀ resume, AsksTransfer sha256 peer.publicKey file w' (file.question sha256 resume) →
      ∀ accepts,
        (∀ run : ℕ → TransferSession δ,
          run 0 = startSession codec sha256 file peer localId resume none none w w' →
          ¬∀ n, Duet.Step (faultless δ) (serving δ accepts) (run n) (run (n + 1))) ∧
        ∀ s, Relation.ReflTransGen (Duet.Step (faultless δ) (serving δ accepts))
            (startSession codec sha256 file peer localId resume none none w w') s →
          (∃ t, Duet.Step (faultless δ) (serving δ accepts) s t) ∨
          ∃ r r', s.left.prog.Halted r ∧ s.right.prog.Halted r' ∧
            SessionCompleted codec sha256 peer.publicKey file accepts published r r'
              s.right.world := by
  obtain ⟨hoffers, published, hidle⟩ := sound_of_reachable_transfers h
  refine ⟨published, hidle, fun resume hask accepts => ?_⟩
  exact EndsWell.comes_to_end (endsWell_start hoffers hidle hask (fun _ => ⟨rfl, rfl⟩) accepts)

/-- **File transfer.** Let sessions have left any state, short of the file itself. In the next
session, for a new transfer or to resume one, `send_file` returns success only if the receive folder
has exactly the file under its name, wherever the links may fail. If they do not fail and the
receiver's user accepts, the session comes to its end, and there both ends have returned success. -/
theorem file_transfer {w w' : FolderWorld Unit δ}
    (h : (transfers codec sha256 file peer localId).Reachable (.idle w w'))
    (hfree : w'.entries file.name = none) {resume : Option TransferId}
    (hask : AsksTransfer sha256 peer.publicKey file w' (file.question sha256 resume)) :
    (∀ accepts link link' s,
      Relation.ReflTransGen (Duet.Step (faultless δ) (serving δ accepts))
          (startSession codec sha256 file peer localId resume link link' w w') s →
        ∀ manifest, s.left.prog.Halted (.ok manifest) →
          manifest = file.manifest sha256 ∧ Received file s.right.world) ∧
    (∀ run : ℕ → TransferSession δ,
      run 0 = startSession codec sha256 file peer localId resume none none w w' →
      ¬∀ n, Duet.Step (faultless δ) (serving δ true) (run n) (run (n + 1))) ∧
    ∀ s, Relation.ReflTransGen (Duet.Step (faultless δ) (serving δ true))
        (startSession codec sha256 file peer localId resume none none w w') s →
      (∃ t, Duet.Step (faultless δ) (serving δ true) s t) ∨
      s.left.prog.Halted (.ok (file.manifest sha256)) ∧ s.right.prog.Halted (.ok ()) ∧
        Received file s.right.world := by
  obtain ⟨hoffers, published, hidle⟩ := sound_of_reachable_transfers h
  obtain rfl : published = none := hidle.unpublished hfree
  refine ⟨fun accepts link link' s hrun manifest hok => ?_, ?_⟩
  · have hends : EndsWell codec sha256 peer.publicKey file accepts none w False s :=
      (endsWell_start hoffers hidle hask (fun h => h.elim) accepts).run hrun
    exact hends.safe _ hok _ rfl
  · obtain ⟨hno, hend⟩ := EndsWell.comes_to_end
      (endsWell_start hoffers hidle hask (fun _ => ⟨rfl, rfl⟩) true)
    refine ⟨hno, fun s hrun => (hend s hrun).imp_right ?_⟩
    rintro ⟨_, _, hr, hr', rfl, rfl, id, hidle'⟩
    exact ⟨hr, hr', hidle'.received⟩

theorem reachable_run {accepts : Bool} {s t : TransferSession δ}
    (h : (transfers codec sha256 file peer localId).Reachable (.session accepts s))
    (hrun : Relation.ReflTransGen (Duet.Step (faultless δ) (serving δ accepts)) s t) :
    (transfers codec sha256 file peer localId).Reachable (.session accepts t) := by
  induction hrun with
  | refl => exact h
  | tail _ hstep ih =>
    rcases hstep with hleft | hright
    · exact ih.step (l := .sender) ⟨rfl, hleft⟩
    · exact ih.step (l := .receiver) ⟨rfl, hright⟩

end Runs

/-! ### A file of two chunks -/

namespace LongNote

/-- A digest that tells nothing. -/
def sha256 (_ : List UInt8) : Sha256Digest := Vector.replicate 32 0

/-- One byte more than a chunk. -/
def text : List UInt8 := List.replicate (CHUNK_SIZE + 1) 104

theorem length_text : text.length = CHUNK_SIZE + 1 := List.length_replicate

theorem text_short : text.length ≤ DEFAULT_RECEIVE_LIMIT := by
  rw [length_text]
  decide

theorem name_valid : validName "note.txt" := by decide

def note : SentFile := ⟨"note.txt", text, name_valid, text_short⟩

def office : ExpectedPeer PublicKey :=
  ⟨⟨123456789, DeviceId.ascending_inRange⟩, Vector.replicate 32 7⟩
def host : DeviceId := ⟨987654321, DeviceId.descending_inRange⟩

/-- The receiver's. -/
def empty : FolderWorld Unit Sha256Digest where
  entries _ := none
  contents _ := []
  files _ := none
  locks _ := none
  drawn _ := none
  origin _ := none
  finished := []

/-- The sender's folder. -/
def full : FolderWorld Unit Sha256Digest :=
  { empty with
    entries := fun name => if name = note.name then some 0 else none
    contents := fun _ => note.content }

theorem full_offers : full.Offers note := by
  refine ⟨⟨1, fun _ _ => rfl, fun inode hinode => ⟨fun name hname => ?_, ?_, rfl⟩⟩, rfl, rfl, 0,
    rfl, rfl⟩
  · simp only [full] at hname
    split at hname
    · obtain rfl := Option.some.inj hname
      omega
    · cases hname
  · rintro _ _ ⟨⟩

theorem empty_idle : Idle metadataPostcard sha256 office.publicKey note none empty := by
  refine ⟨⟨⟨0, fun _ _ => rfl, fun _ _ => ⟨?_, ?_, rfl⟩⟩, rfl, ?_, fun _ _ _ _ => rfl, ?_⟩, rfl,
    rfl⟩
  · rintro _ ⟨⟩
  · rintro _ _ ⟨⟩
  · rintro _ ⟨⟩
  · rintro _ _ _ ⟨⟩

theorem asks_new :
    AsksTransfer sha256 office.publicKey note empty (note.question sha256 none) :=
  .inl ⟨rfl, ⟨List.replicate 16 0, List.length_replicate⟩, rfl⟩

theorem reachable_idle : (transfers metadataPostcard sha256 note office host).Reachable
    (.idle full empty) := .init ⟨full_offers, empty_idle⟩

theorem one_chunk : 1 * CHUNK_SIZE ≤ note.content.length := by
  change _ ≤ text.length
  rw [length_text]
  decide

/-- The first session is lost after one chunk. -/
theorem note_paused : ∃ w, (transfers metadataPostcard sha256 note office host).Reachable
    (.idle full w) ∧ Idle metadataPostcard sha256 office.publicKey note none w ∧
      ∃ id, AsksTransfer sha256 office.publicKey note w (note.question sha256 (some id)) := by
  have hpauses : Pauses metadataPostcard sha256 office.publicKey note full
      (startSession metadataPostcard sha256 note office host none (some 6) none full empty) :=
    pauses_session one_chunk (by decide) (sendFile_converses full_offers none)
      (serve_converses office host empty_idle asks_new)
  obtain ⟨s, hrun, r, r', hr, hr', hworld, hidle, id, -, hid⟩ := hpauses.some_over
  have hreach : (transfers metadataPostcard sha256 note office host).Reachable (.session true s) :=
    reachable_run (reachable_idle.step (l := .connect none true (some 6) none) ⟨asks_new, rfl⟩) hrun
  refine ⟨s.right.world, hreach.step (l := .close) ⟨⟨r, hr⟩, ⟨r', hr'⟩, hworld.symm, rfl⟩, hidle,
    id, ?_⟩
  exact .inr ⟨id, rfl, hid⟩

/-- A session whose links hold comes to its end, in some order of the steps. -/
theorem session_over {w : FolderWorld Unit Sha256Digest} {published : Option TransferId}
    (hidle : Idle metadataPostcard sha256 office.publicKey note published w) {id : TransferId}
    (hask : AsksTransfer sha256 office.publicKey note w (note.question sha256 (some id))) :
    ∃ s, Relation.ReflTransGen (Duet.Step (faultless Sha256Digest) (serving Sha256Digest true))
        (startSession metadataPostcard sha256 note office host (some id) none none full w) s ∧
      s.Over (SessionEnd metadataPostcard sha256 office.publicKey note true published full True) :=
  Duet.Certain.some_over (endsWell_start full_offers hidle hask (fun _ => ⟨rfl, rfl⟩) true)

/-- The second resumes it, and publishes the note. -/
theorem note_settled : ∃ w id s,
    (transfers metadataPostcard sha256 note office host).Reachable (.idle full w) ∧
      Relation.ReflTransGen (Duet.Step (faultless Sha256Digest) (serving Sha256Digest true))
        (startSession metadataPostcard sha256 note office host (some id) none none full w) s ∧
      (transfers metadataPostcard sha256 note office host).Reachable (.session true s) ∧
      s.left.world = full ∧ s.left.prog.Halted (.ok (note.manifest sha256)) ∧
      s.right.prog.Halted (.ok ()) ∧
      Settled metadataPostcard sha256 office.publicKey note s.right.world := by
  obtain ⟨w, hpaused, hidle, id, hask⟩ := note_paused
  obtain ⟨s, hrun, r, r', hr, hr', hworld, -, hcompleted⟩ := session_over hidle hask
  obtain ⟨rfl, rfl, hsettled⟩ := hcompleted trivial
  have hreach : (transfers metadataPostcard sha256 note office host).Reachable (.session true s) :=
    reachable_run (hpaused.step (l := .connect (some id) true none none) ⟨hask, rfl⟩) hrun
  exact ⟨w, id, s, hpaused, hrun, hreach, hworld, hr, hr', hsettled⟩

/-- The note is sent, one chunk in each session. -/
theorem note_received : ∃ w id s manifest,
    (transfers metadataPostcard sha256 note office host).Reachable (.idle full w) ∧
      Relation.ReflTransGen (Duet.Step (faultless Sha256Digest) (serving Sha256Digest true))
        (startSession metadataPostcard sha256 note office host (some id) none none full w) s ∧
      s.left.prog.Halted (.ok manifest) ∧ manifest = note.manifest sha256 ∧
        Received note s.right.world := by
  obtain ⟨w, id, s, hpaused, hrun, hreach, -, hr, -, -⟩ := note_settled
  obtain ⟨hmanifest, hreceived⟩ := sent_received hreach hr
  exact ⟨w, id, s, _, hpaused, hrun, hr, hmanifest, hreceived⟩

/-- However the two ends of the second session take their turns, they come to an end, and then the
note is there. -/
theorem note_transferred : ∃ w id,
    (transfers metadataPostcard sha256 note office host).Reachable (.idle full w) ∧
    (∀ run : ℕ → TransferSession Sha256Digest,
      run 0 = startSession metadataPostcard sha256 note office host (some id) none none full w →
      ¬∀ n, Duet.Step (faultless _) (serving _ true) (run n) (run (n + 1))) ∧
    ∃ s : TransferSession Sha256Digest, s.left.prog.Halted (.ok (note.manifest sha256)) ∧
      s.right.prog.Halted (.ok ()) ∧ Received note s.right.world := by
  obtain ⟨w, hpaused, hidle, id, hask⟩ := note_paused
  obtain ⟨hsafe, hno, hall⟩ := file_transfer hpaused hidle.kept.destination hask
  obtain ⟨s, hrun, hover⟩ := session_over hidle hask
  obtain ⟨hr, hr', -⟩ := (hall s hrun).resolve_left hover.no_step
  exact ⟨w, id, hpaused, hno, s, hr, hr', (hsafe true none none s hrun _ hr).2⟩

/-- A third session finds the note published: it comes to its end too, and both ends fail. -/
theorem note_completed : ∃ w id,
    (transfers metadataPostcard sha256 note office host).Reachable (.idle full w) ∧
    Received note w ∧
    (∀ run : ℕ → TransferSession Sha256Digest,
      run 0 = startSession metadataPostcard sha256 note office host (some id) none none full w →
      ¬∀ n, Duet.Step (faultless _) (serving _ true) (run n) (run (n + 1))) ∧
    ∃ s : TransferSession Sha256Digest, ∃ e e', s.left.prog.Halted (.error e) ∧
      s.right.prog.Halted (.error e') ∧ Received note s.right.world := by
  obtain ⟨-, -, s, -, -, hreach, hworld, hr, hr', id, hidle⟩ := note_settled
  have hsettled : (transfers metadataPostcard sha256 note office host).Reachable
      (.idle full s.right.world) :=
    hreach.step (l := .close) ⟨⟨_, hr⟩, ⟨_, hr'⟩, hworld.symm, rfl⟩
  have hask : AsksTransfer sha256 office.publicKey note s.right.world
      (note.question sha256 (some id)) := .inr ⟨id, rfl, hidle.kept.destination.drawn⟩
  obtain ⟨published, hidle', hall⟩ := uninterrupted_completes hsettled
  obtain ⟨hno, hend⟩ := hall (some id) hask true
  obtain ⟨t, hrun, hover⟩ := session_over hidle hask
  obtain ⟨r, r', hr, hr', hcompleted⟩ := (hend t hrun).resolve_left hover.no_step
  cases published with
  | none =>
    have hnone := hidle.unpublished hidle'.kept.destination
    cases hnone
  | some id' =>
    obtain ⟨⟨e, rfl⟩, ⟨e', rfl⟩, hidle''⟩ := hcompleted
    exact ⟨_, id, hsettled, hidle.received, hno, t, e, e', hr, hr', hidle''.received⟩

end LongNote

end SensorRemote
