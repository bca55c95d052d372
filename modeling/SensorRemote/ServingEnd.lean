import SensorRemote.Client
import SensorRemote.Lib.Dialogue
import SensorRemote.ResumableTransfers

/-!
# The receiving end of a file transfer

`serve` as a party of a dialogue: what it waits for, and what it answers to a sender that keeps to
the protocol. Its receive folder works, and so does its audit log; its clock shows anything.

A file that was published already is not received again. `begin` and `finish` find it there, so the
session fails without an answer (`Refused`), with the folder as it was.
-/

namespace SensorRemote

open Program FolderWorld

variable {δ : Type}

/-- What `serve` calls, apart from the connection and the receiver. -/
inductive ServeCall (δ : Type) : Type → Type where
  | audit (event : AuditEvent) : ServeCall δ (Except AuditError Unit)
  | now : ServeCall δ ℕ
  | accept (peer : ExpectedPeer PublicKey) (mode : SessionMode) : ServeCall δ Bool
  | chatReply (text : String) : ServeCall δ (Option String)
  | desktop (consent : Consent) : ServeCall δ (Except EndpointError Unit)

/-- The operations of the serving party of its own. -/
inductive ServeAct (δ β : Type) : Type where
  | call (o : ServeCall δ β)
  /-- an operation on the receive folder -/
  | file (o : FileOp δ β)

/-- Code of the serving party. -/
abbrev ServingProg (δ β : Type) := Prog (LinkOp (ServeAct δ) (ClientMessage δ) ConnectionError) β

/-- What a call answers. The local user answers `accepts`. -/
def ServeCall.Answers (accepts : Bool) : {β : Type} → ServeCall δ β → β → Prop
  | _, .audit _, r => r = .ok ()
  | _, .accept _ _, r => r = accepts
  | _, .now, _ | _, .chatReply _, _ | _, .desktop _, _ => True

/-- The serving party's own operations. -/
def serving (δ : Type) (accepts : Bool) : Machine (ServeAct δ) Unit (FolderWorld Unit δ) where
  step i w _ o b w' :=
    match o with
    | .call o => o.Answers accepts b ∧ w' = w
    | .file o => (faultless δ).step i w o b w'
  vanish i w w' := w' = w.without i

section Wire

variable [DecidableEq δ] (codec : MetadataCodec δ) (sha256 : List UInt8 → δ)

/-- Code over the receive folder, as of the serving party. -/
def carried {β : Type} (x : Prog (FileOp δ) β) : ServingProg δ β :=
  x.interp fun o => Prog.perform (.act (.file o))

/-- An operation of `serve` or `operate`, as one of a party. The callback `transfer_progress` is
the user interface's, and nothing is said over a connection that is closed. -/
def EndpointOp.wire : {β : Type} → EndpointOp δ β → ServingProg δ β
  | _, .receive => Prog.perform (.call .receive)
  | _, .send message => Prog.perform (.call (.send message))
  | _, .close | _, .transferProgress _ _ => .ret ()
  | _, .audit event => Prog.perform (.act (.call (.audit event)))
  | _, .now => Prog.perform (.act (.call .now))
  | _, .accept peer mode => Prog.perform (.act (.call (.accept peer mode)))
  | _, .chatReply text => Prog.perform (.act (.call (.chatReply text)))
  | _, .desktop consent => Prog.perform (.act (.call (.desktop consent)))
  | _, .begin consent owner manifest => carried (Receiver.begin codec consent owner manifest)
  | _, .resume consent owner id => carried (Receiver.resume codec consent owner id)
  | _, .prefixHash transfer => carried (transfer.prefixHash sha256)
  | _, .writeChunk transfer consent offset bytes checksum =>
    carried (transfer.writeChunk sha256 consent offset bytes checksum)
  | _, .pause transfer => carried transfer.pause
  | _, .cancel transfer consent => carried (transfer.cancel consent)
  | _, .finish transfer consent => carried (transfer.finish sha256 consent)
  | _, .drop transfer => carried (Prog.perform (.close transfer.file))

/-- The serving party's code. -/
abbrev served {β : Type} (p : Prog (EndpointOp δ) β) : ServingProg δ β :=
  p.interp (EndpointOp.wire codec sha256)

end Wire

/-! ## The conversation -/

section Conversation

variable (codec : MetadataCodec δ) (sha256 : List UInt8 → δ) (owner : PublicKey) (file : SentFile)
  (accepts : Bool) (published : Option TransferId)

/-- The folder after a session: the transfers of the file can be resumed, but for one that may have
been published. -/
def Left (w : FolderWorld Unit δ) : Prop := ∃ published, Idle codec sha256 owner file published w

/-- The folder after a session that was left between the transfer's beginning and its commit: there
is one to resume. -/
def Paused (w : FolderWorld Unit δ) : Prop :=
  Idle codec sha256 owner file published w ∧
    ∃ id, published ≠ some id ∧ w.drawn id = some ((), file.metadata sha256 owner)

/-- The folder after a session in which the file was published. -/
def Settled (w : FolderWorld Unit δ) : Prop := ∃ id, Idle codec sha256 owner file (some id) w

/-- The receiver has failed, as the file was published before, and its folder has what it had. -/
def Refused (r : Except EndpointError Unit) (w : FolderWorld Unit δ) : Prop :=
  published.isSome ∧ (∃ e, r = .error e) ∧ Idle codec sha256 owner file published w

/-- The file was published, and the receiver returns. -/
def Concludes : ServingProg δ (Except EndpointError Unit) → FolderWorld Unit δ → Prop :=
  Leads (offline (serving δ accepts)) (Settled codec sha256 owner file) fun p w =>
    p = .ret (.ok ()) ∧ Settled codec sha256 owner file w

/-- The receiver publishes the file and says so, unless it was published before. -/
def Publishes : ServingProg δ (Except EndpointError Unit) → FolderWorld Unit δ → Prop :=
  Responds (serving δ accepts) (fun _ => Settled codec sha256 owner file)
    (fun m p w => published = none ∧ m = .complete (file.manifest sha256) ∧
      Concludes codec sha256 owner file accepts p w)
    (Refused codec sha256 owner file published)

/-- The receiver has `done` of the file, and goes on with chunks or publishes the file: what it
does with its next `n` messages. -/
def Downloads : ℕ → List UInt8 → ServingProg δ (Except EndpointError Unit) →
    FolderWorld Unit δ → Prop
  | 0, _ => Closes (serving δ accepts) fun _ => Paused codec sha256 owner file published
  | n + 1, done => Awaits (serving δ accepts) (fun _ => Paused codec sha256 owner file published)
    fun k w =>
      (done = file.content → Publishes codec sha256 owner file accepts published (k .commit) w) ∧
      ∀ bytes, bytes ≠ [] → bytes.length ≤ CHUNK_SIZE → done ++ bytes <+: file.content →
        Answers (serving δ accepts) (fun _ => Paused codec sha256 owner file published)
          (fun m p w => m = .progress (done ++ bytes).length ∧ Downloads n (done ++ bytes) p w)
          (k (.chunk done.length bytes (sha256 bytes))) w

/-- The message asks for a transfer of the file: a new one, or one that was begun. -/
def AsksTransfer (w : FolderWorld Unit δ) (m : ClientMessage δ) : Prop :=
  m = .fileOffer (file.manifest sha256) ∧ (∃ id, w.drawn id = none) ∨
    ∃ id, m = .resume id ∧ w.drawn id = some ((), file.metadata sha256 owner)

/-- The receiver has answered how much of the file it has, which is nothing of a new transfer, and
waits for more. -/
def Ready (m answer : ClientMessage δ) (p : ServingProg δ (Except EndpointError Unit))
    (w : FolderWorld Unit δ) : Prop :=
  ∃ id done, done <+: file.content ∧ (m = .fileOffer (file.manifest sha256) → done = []) ∧
    answer = .ready id done.length (sha256 done) (file.manifest sha256) ∧
    ∀ n, n < MAX_OPERATIONS → Downloads codec sha256 owner file accepts published n done p w

/-- The receiver waits for a transfer to be asked for by the message, and begins or resumes it. If
the file was published before it may fail instead. -/
def Serves (m : ClientMessage δ) :
    ServingProg δ (Except EndpointError Unit) → FolderWorld Unit δ → Prop :=
  Awaits (serving δ accepts) (fun _ => Idle codec sha256 owner file published) fun k =>
    Responds (serving δ accepts) (fun _ => Paused codec sha256 owner file published)
      (Ready codec sha256 owner file accepts published m)
      (Refused codec sha256 owner file published) (k m)

/-- The receiver waits for a session to be asked for, and then for a transfer by the message. -/
def Welcomes (m : ClientMessage δ) :
    ServingProg δ (Except EndpointError Unit) → FolderWorld Unit δ → Prop :=
  Awaits (serving δ accepts) (fun _ => Idle codec sha256 owner file published) fun k =>
    Answers (serving δ accepts) (fun _ => Idle codec sha256 owner file published)
      (fun answer p w => if accepts then
          answer = .accepted SessionMode.fileTransfer.permissions ∧
            Serves codec sha256 owner file accepts published m p w
        else answer = .rejected ∧ p = .ret (.ok ()) ∧ Idle codec sha256 owner file published w)
      (k (.request .fileTransfer))

end Conversation

/-! ## Rules -/

section Rules

variable [DecidableEq δ] {codec : MetadataCodec δ} {sha256 : List UInt8 → δ} {accepts : Bool}
  {α β : Type} {I : FolderWorld Unit δ → Prop} {R : ServingProg δ α → FolderWorld Unit δ → Prop}
  {w : FolderWorld Unit δ}

omit [DecidableEq δ] in
theorem leads_call {o : ServeCall δ β} {k : β → ServingProg δ α} (hI : I w)
    (hk : ∀ b, o.Answers accepts b → Leads (offline (serving δ accepts)) I R (k b) w) :
    Leads (offline (serving δ accepts)) I R (.op (.act (.call o)) k) w := by
  refine .op hI ?_ ?_
  · cases o with
    | audit event => exact ⟨.ok (), w, rfl, rfl⟩
    | now => exact ⟨0, w, trivial, rfl⟩
    | accept peer mode => exact ⟨accepts, w, rfl, rfl⟩
    | chatReply text => exact ⟨none, w, trivial, rfl⟩
    | desktop consent => exact ⟨.ok (), w, trivial, rfl⟩
  · rintro b w' ⟨hb, rfl⟩
    exact hk b hb

/-- What the receive folder carries out. -/
theorem serves_carried {o : EndpointOp δ β} {x : Prog (FileOp δ) β} {k : β → ServingProg δ α}
    {Q : β → FolderWorld Unit δ → Prop} (ho : o.wire codec sha256 = carried x)
    (hx : Halts (faultless δ) Q x w) (hk : ∀ b w, Q b w → Proceeds (serving δ accepts) R (k b) w) :
    Proceeds (serving δ accepts) R ((o.wire codec sha256).bind k) w := by
  rw [ho]
  exact Halts.bind (Halts.interp (N := offline (serving δ accepts)) (fun o => .act (.file o))
    (fun _ _ _ _ => Iff.rfl) hx) hk

/-- A call of the receiver, or of a transfer. -/
theorem serves_files {o : EndpointOp δ (Except FileError β)} {x : FileProg δ β}
    {k : Except EndpointError β → Prog (EndpointOp δ) α} {Q : β → FolderWorld Unit δ → Prop}
    (ho : o.wire codec sha256 = carried x)
    (hx : Halts (faultless δ) (fun r w => ∃ b, r = .ok b ∧ Q b w) x w)
    (hk : ∀ b w, Q b w →
      Proceeds (serving δ accepts) R (served codec sha256 (k (.ok b))) w) :
    Proceeds (serving δ accepts) R (served codec sha256 (Prog.bind (Endpoint.files o) k)) w := by
  apply serves_carried ho hx
  rintro _ w ⟨b, rfl, hQ⟩
  exact hk b w hQ

/-- A call of theirs that fails. -/
theorem serves_files_failing {o : EndpointOp δ (Except FileError β)} {x : FileProg δ β}
    {k : Except EndpointError β → Prog (EndpointOp δ) α} {Q : FolderWorld Unit δ → Prop}
    (ho : o.wire codec sha256 = carried x)
    (hx : Halts (faultless δ) (fun r w => (∃ e, r = .error e) ∧ Q w) x w)
    (hk : ∀ e w, Q w → Proceeds (serving δ accepts) R (served codec sha256 (k (.error e))) w) :
    Proceeds (serving δ accepts) R (served codec sha256 (Prog.bind (Endpoint.files o) k)) w := by
  apply serves_carried ho hx
  rintro _ w ⟨⟨e, rfl⟩, hQ⟩
  exact hk _ w hQ

/-- An event is recorded. -/
theorem serves_audit {peer : ExpectedPeer PublicKey} {localId : DeviceId} {action : AuditAction}
    {outcome : AuditOutcome} {bytes : ℕ} {k : Except EndpointError Unit → Prog (EndpointOp δ) α}
    (hI : I w) (hk : Leads (offline (serving δ accepts)) I R (served codec sha256 (k (.ok ()))) w) :
    Leads (offline (serving δ accepts)) I R
      (served codec sha256 (Prog.bind (Endpoint.audit peer localId action outcome bytes) k)) w := by
  refine leads_call hI fun r hr => ?_
  obtain rfl : r = .ok () := hr
  exact hk

/-- An operation more is counted, whatever the clock shows. -/
theorem serves_countOperation {s : OperateState δ}
    {k : Except (OperateExit δ) (OperateState δ) → Prog (EndpointOp δ) α} (hI : I w)
    (hs : s.operations < MAX_OPERATIONS)
    (hk : ∀ s' : OperateState δ, s'.incoming = s.incoming → s'.operations ≤ s.operations + 1 →
      Leads (offline (serving δ accepts)) I R (served codec sha256 (k (.ok s'))) w) :
    Leads (offline (serving δ accepts)) I R
      (served codec sha256 (Prog.bind (Operate.countOperation s) k)) w := by
  have hcount : ∀ s' : OperateState δ, s'.incoming = s.incoming → s'.operations ≤ s.operations →
      Leads (offline (serving δ accepts)) I R (served codec sha256 (Prog.bind
        (Fallible.check (s'.operations + 1 ≤ MAX_OPERATIONS) (s'.incoming, .error .invalid) >>=
          fun _ => pure { s' with operations := s'.operations + 1 } : OperateProg δ _) k)) w := by
    intro s' hincoming hle
    refine Leads.interp_seq (Leads.interp_check (by omega) (hk _ hincoming ?_))
    exact Nat.add_le_add_right hle 1
  refine Leads.interp_seq (Leads.interp_seq (leads_call hI fun now _ => ?_))
  change Leads _ _ _ (served _ _ (Prog.bind (ite _ _ _ : OperateProg δ (OperateState δ)) _)) _
  split
  · exact Leads.interp_seq (leads_call hI fun window _ => hcount _ rfl (Nat.zero_le _))
  · exact hcount _ rfl le_rfl

end Rules

/-! ## What `operate` does -/

section Operating

variable [DecidableEq δ] {codec : MetadataCodec δ} {sha256 : List UInt8 → δ} {file : SentFile}
  {accepts : Bool} {peer : ExpectedPeer PublicKey} {localId : DeviceId} {consent : Consent}
  {K : Except (OperateExit δ) Empty → Prog (EndpointOp δ) (Except EndpointError Unit)}
  {published : Option TransferId} {transfer : IncomingTransfer δ} {done : List UInt8}
  {w : FolderWorld Unit δ}

/-- How the session ends when the loop is left. -/
structure WindsUp (codec : MetadataCodec δ) (sha256 : List UInt8 → δ) (owner : PublicKey)
    (file : SentFile) (accepts : Bool)
    (K : Except (OperateExit δ) Empty → Prog (EndpointOp δ) (Except EndpointError Unit)) :
    Prop where
  drops : ∀ {published} e w transfer done,
    Holding codec sha256 owner file published w transfer done →
      Quits (serving δ accepts) (fun _ => Paused codec sha256 owner file published)
        (served codec sha256 (K (.error (some transfer, .error e)))) w
  fails : ∀ {J : FolderWorld Unit δ → Prop} e w, J w →
    Quits (serving δ accepts) (fun r w => (∃ e, r = .error e) ∧ J w)
      (served codec sha256 (K (.error (none, .error e)))) w
  concludes : ∀ w, Settled codec sha256 owner file w →
    Concludes codec sha256 owner file accepts (served codec sha256 (K (.error (none, .ok ())))) w

/-- When the loop fails with no transfer open, the folder is left as it was. -/
theorem WindsUp.quits {owner : PublicKey} (h : WindsUp codec sha256 owner file accepts K)
    {J : FolderWorld Unit δ → Prop} (hJ : J w) (e : EndpointError) :
    Quits (serving δ accepts) (fun _ => J) (served codec sha256 (K (.error (none, .error e)))) w :=
  (h.fails e w hJ).post fun _ _ h => h.2

/-- So the file is not published a second time. -/
theorem WindsUp.refuses {owner : PublicKey} (h : WindsUp codec sha256 owner file accepts K)
    {id : TransferId} (hidle : Idle codec sha256 owner file (some id) w) (e : EndpointError)
    {R : ServingProg δ (Except EndpointError Unit) → FolderWorld Unit δ → Prop} :
    Proceeds (serving δ accepts)
      (fun p w => R p w ∨ ∃ r, p = .ret r ∧ Refused codec sha256 owner file (some id) r w)
      (served codec sha256 (K (.error (none, .error e)))) w := by
  refine (h.fails e w hidle).mono ?_
  rintro p w' ⟨r, hp, hr, hidle'⟩
  exact .inr ⟨r, hp, rfl, hr, hidle'⟩

/-- The loop of `operate`. -/
abbrev operating (peer : ExpectedPeer PublicKey) (localId : DeviceId) (consent : Consent)
    (s : OperateState δ) : Fallible (EndpointOp δ) (OperateExit δ) Empty :=
  Fallible.forever s fun s => do
    let s ← Operate.pass peer localId consent s
    return .inl s

omit [DecidableEq δ] in
theorem require_ok (hconsent : consent.require .fileManager = .ok ()) :
    (Endpoint.require consent .fileManager : EndpointProg δ Unit) = pure () := by
  rw [Endpoint.require, hconsent]
  rfl

omit [DecidableEq δ] in
theorem require_bind {β : Type} (hconsent : consent.require .fileManager = .ok ())
    (f : Unit → EndpointProg δ β) :
    Endpoint.require consent .fileManager >>= f = f () := by
  rw [require_ok hconsent]
  rfl

/-- The loop waits for a message, and handles it. -/
theorem awaits_operating {s : OperateState δ}
    {L : (ClientMessage δ → ServingProg δ (Except EndpointError Unit)) → FolderWorld Unit δ → Prop}
    {Q : Except EndpointError Unit → FolderWorld Unit δ → Prop}
    (hquit : ∀ e, Quits (serving δ accepts) Q
      (served codec sha256 (K (.error (s.incoming, .error e)))) w)
    (hL : L (fun m => served codec sha256 (Prog.bind (do
        let s ← Operate.countOperation s
        let incoming ← Operate.onMessage peer localId consent s.incoming m
        return { s with incoming } : OperateProg δ (OperateState δ))
      (Fallible.next (fun s => pure (.inl s)) (Fallible.again
        (fun s => do
          let s ← Operate.pass peer localId consent s
          return .inl s) K)))) w) :
    Awaits (serving δ accepts) Q L
      (served codec sha256 (Prog.bind (operating peer localId consent s) K)) w := by
  refine Leads.interp_forever (Leads.interp_seq (Leads.interp_seq ?_))
  exact .here trivial ⟨_, rfl, fun e => hquit _, hL⟩

/-- There is a transfer, and it may be gone on with. -/
theorem serves_withIncoming {α β : Type} {I : FolderWorld Unit δ → Prop}
    {R : ServingProg δ α → FolderWorld Unit δ → Prop}
    {f : IncomingTransfer δ → OperateProg δ β}
    {k : Except (OperateExit δ) β → Prog (EndpointOp δ) α}
    (hconsent : consent.require .fileManager = .ok ())
    (h : Leads (offline (serving δ accepts)) I R
      (served codec sha256 (Prog.bind (f transfer) k)) w) :
    Leads (offline (serving δ accepts)) I R
      (served codec sha256 (Prog.bind (Operate.withIncoming consent (some transfer) f) k)) w := by
  rw [Operate.withIncoming, require_ok hconsent]
  exact h

/-- **The loop receives the file.** -/
theorem downloads_operating (hconsent : consent.require .fileManager = .ok ())
    (hK : WindsUp codec sha256 peer.publicKey file accepts K) {s : OperateState δ} {n : ℕ}
    (hincoming : s.incoming = some transfer)
    (hholding : Holding codec sha256 peer.publicKey file published w transfer done)
    (hn : s.operations + n ≤ MAX_OPERATIONS) :
    Downloads codec sha256 peer.publicKey file accepts published n done
      (served codec sha256 (Prog.bind (operating peer localId consent s) K)) w := by
  induction n generalizing s transfer done w with
  | zero =>
    refine Awaits.closes (R := fun _ _ => True) (awaits_operating (fun e => ?_) trivial)
    rw [hincoming]
    exact hK.drops _ _ _ _ hholding
  | succ n ih =>
    refine awaits_operating (fun e => ?_) ⟨?_, fun bytes hbytes hchunk hbegins => ?_⟩
    · rw [hincoming]
      exact hK.drops _ _ _ _ hholding
    · rintro rfl
      refine Leads.interp_seq (serves_countOperation trivial (by omega) fun s' hs' _ => ?_)
      apply Leads.interp_seq
      rw [hs', hincoming, Operate.onMessage, Operate.onCommit]
      apply serves_withIncoming hconsent
      refine Leads.interp_seq (Leads.interp_mapError ?_)
      cases published with
      | none =>
        refine Leads.interp_seq (serves_files rfl (finish_receives hconsent hholding).value ?_)
        rintro _ w' ⟨rfl, hidle⟩
        refine Leads.interp_seq (serves_audit trivial ?_)
        refine .here trivial (.inl ⟨_, _, rfl, fun e => hK.quits ⟨_, hidle⟩ _, rfl, rfl, ?_⟩)
        exact hK.concludes _ ⟨_, hidle⟩
      | some id =>
        refine Leads.interp_seq (serves_files_failing rfl (finish_refuses hconsent hholding) ?_)
        rintro e _ rfl
        exact hK.refuses hholding.closed e
    · refine Leads.interp_seq (serves_countOperation trivial (by omega) fun s' hs' hcount => ?_)
      apply Leads.interp_seq
      rw [hs', hincoming, Operate.onMessage, Operate.onChunk]
      apply serves_withIncoming hconsent
      refine Leads.interp_seq (Leads.interp_mapError ?_)
      apply serves_files rfl (writeChunk_holds hconsent hholding hbytes hchunk hbegins)
      intro transfer' w' hholding'
      refine .here trivial ⟨_, _, rfl, fun e => hK.drops _ _ _ _ hholding', ?_, ?_⟩
      · rw [hholding'.offset]
      · apply ih rfl hholding'
        change s'.operations + n ≤ MAX_OPERATIONS
        omega

/-- The receiver answers how much it has. -/
theorem answers_sendReady {id : TransferId} {k : Except EndpointError Unit → Prog (EndpointOp δ)
      (Except EndpointError Unit)} {owner : PublicKey}
    {Q : Except EndpointError Unit → FolderWorld Unit δ → Prop}
    {R : ClientMessage δ → ServingProg δ (Except EndpointError Unit) → FolderWorld Unit δ → Prop}
    (hholding : Holding codec sha256 owner file published w transfer done)
    (hlost : ∀ e, Quits (serving δ accepts) Q (served codec sha256 (k (.error e))) w)
    (hR : R (.ready id done.length (sha256 done) (file.manifest sha256))
      (served codec sha256 (k (.ok ()))) w) :
    Answers (serving δ accepts) Q R
      (served codec sha256 (Prog.bind (Operate.sendReady id transfer) k)) w := by
  refine Leads.interp_seq (serves_files rfl hholding.hashes.value ?_)
  rintro _ _ ⟨rfl, rfl⟩
  refine .here trivial ⟨_, _, rfl, fun e => hlost _, ?_⟩
  have hmanifest : transfer.manifest = file.manifest sha256 := by
    rw [IncomingTransfer.manifest, hholding.metadata]
    rfl
  rw [hholding.offset, hmanifest]
  exact hR

/-- **The loop begins or resumes a transfer.** -/
theorem serves_operating (hconsent : consent.require .fileManager = .ok ())
    (hK : WindsUp codec sha256 peer.publicKey file accepts K)
    (hidle : Idle codec sha256 peer.publicKey file published w) {m : ClientMessage δ}
    (hm : AsksTransfer sha256 peer.publicKey file w m) (window : ℕ) :
    Serves codec sha256 peer.publicKey file accepts published m
      (served codec sha256 (Prog.bind (operating peer localId consent ⟨none, window, 0⟩) K)) w := by
  refine awaits_operating (fun e => hK.quits hidle _) ?_
  have hfirst : 0 < MAX_OPERATIONS := by decide
  refine Leads.interp_seq (serves_countOperation trivial hfirst fun s' hs' hcount => ?_)
  apply Leads.interp_seq
  have hready : ∀ {transfer done w'},
      Holding codec sha256 peer.publicKey file published w' transfer done →
      ∀ n, n < MAX_OPERATIONS → Downloads codec sha256 peer.publicKey file accepts published n done
        (served codec sha256 (Prog.bind (operating peer localId consent
          { s' with incoming := some transfer }) K)) w' := by
    intro transfer done w' hholding n hn
    apply downloads_operating hconsent hK rfl hholding
    change s'.operations + n ≤ MAX_OPERATIONS
    change s'.operations ≤ 0 + 1 at hcount
    omega
  rcases hm with ⟨rfl, hleft⟩ | ⟨id, rfl, hid⟩
  · rw [hs', Operate.onMessage, Operate.onFileOffer, require_bind hconsent]
    refine Leads.interp_seq (Leads.interp_mapError ?_)
    refine Leads.interp_seq (Leads.interp_check ?_ ?_)
    · exact ⟨rfl, file.length_le⟩
    apply serves_audit trivial
    refine Leads.interp_seq (Leads.interp_mapError ?_)
    cases published with
    | some id =>
      refine serves_files_failing rfl (begin_refuses hconsent hidle) ?_
      rintro e _ rfl
      exact hK.refuses hidle e
    | none =>
      refine serves_files rfl (begin_holds hconsent hidle hleft) fun transfer w' hholding => ?_
      refine Leads.interp_seq (Leads.interp_mapError ?_)
      refine (answers_sendReady (R := Ready codec sha256 peer.publicKey file accepts none _)
        hholding ?_ ?_).responds
      · exact fun e => hK.drops _ _ _ _ hholding
      · exact ⟨transfer.id, [], hholding.begins, fun _ => rfl, rfl, hready hholding⟩
  · rw [hs', Operate.onMessage, Operate.onResume, require_bind hconsent]
    refine Leads.interp_seq (Leads.interp_mapError ?_)
    apply Leads.interp_check rfl
    refine Leads.interp_seq (Leads.interp_mapError ?_)
    by_cases hpublished : published = some id
    · subst hpublished
      refine serves_files_failing rfl (resume_refuses hconsent hidle) ?_
      rintro e _ rfl
      exact hK.refuses hidle e
    · apply serves_files rfl (resume_holds hconsent hidle hpublished hid)
      rintro transfer w' ⟨done, rfl, hholding⟩
      refine Leads.interp_seq (Leads.interp_mapError ?_)
      refine Leads.interp_seq (Leads.interp_check ?_ ?_)
      · rw [IncomingTransfer.manifest, hholding.metadata]
        exact file.length_le
      refine (answers_sendReady (R := Ready codec sha256 peer.publicKey file accepts published _)
        hholding ?_ ?_).responds
      · exact fun e => hK.drops _ _ _ _ hholding
      · exact ⟨transfer.id, done, hholding.begins, (by rintro ⟨⟩), rfl, hready hholding⟩

end Operating

/-! ## What `serve` does -/

section Serving

variable [DecidableEq δ] {codec : MetadataCodec δ} {sha256 : List UInt8 → δ} {file : SentFile}
  {accepts : Bool} {published : Option TransferId} {w : FolderWorld Unit δ}

/-- After the loop the transfer is dropped, and the end of the session is recorded. -/
theorem windsUp {owner : PublicKey}
    {K : Except EndpointError Unit → Prog (EndpointOp δ) (Except EndpointError Unit)}
    (hK : ∀ {I : FolderWorld Unit δ → Prop} {R} (result w), I w → R (.ret result) w →
      Leads (offline (serving δ accepts)) I R (served codec sha256 (K result)) w) :
    WindsUp codec sha256 owner file accepts fun exit => Prog.bind (leaveOperate exit) K where
  drops e w transfer done hholding := by
    have hdrop : Halts (faultless δ) (fun _ w' => w' = w.closed transfer.file)
        (Prog.perform (.close transfer.file)) w := gets_close (Halts.ret rfl)
    refine serves_carried (o := .drop transfer) rfl hdrop ?_
    rintro _ _ rfl
    exact hK _ _ trivial
      ⟨_, rfl, hholding.closed, transfer.id, hholding.unpublished, hholding.drawn⟩
  fails e w hJ := hK _ _ trivial ⟨_, rfl, ⟨e, rfl⟩, hJ⟩
  concludes w hreceived := hK _ _ hreceived ⟨rfl, hreceived⟩

/-- **The conversation of `serve`.** -/
theorem serve_converses (peer : ExpectedPeer PublicKey) (localId : DeviceId)
    (hidle : Idle codec sha256 peer.publicKey file published w) {m : ClientMessage δ}
    (hm : AsksTransfer sha256 peer.publicKey file w m) :
    Welcomes codec sha256 peer.publicKey file accepts published m
      (served codec sha256 (serve peer localId)) w := by
  rw [← Prog.bind_ret (serve peer localId)]
  refine Leads.interp_seq (.here trivial ⟨_, rfl, fun e => Halts.ret hidle, ?_⟩)
  refine Leads.interp_seq (serves_audit trivial ?_)
  refine Leads.interp_seq (leads_call trivial fun b hb => ?_)
  obtain rfl : b = accepts := hb
  cases b with
  | false =>
    have hreject : (Consent.pending SessionMode.fileTransfer.permissions).reject.mapError
        EndpointError.permission =
        .ok ⟨SessionMode.fileTransfer.permissions, .none, .rejected⟩ := rfl
    change Leads _ _ _ (served codec sha256 (Prog.bind (serveRejected _ _ _) _)) _
    rw [serveRejected, hreject, Fallible.ofExcept_ok_bind]
    refine Leads.interp_seq (serves_audit trivial ?_)
    exact .here trivial ⟨_, _, rfl, fun e => Halts.ret hidle, rfl, rfl, hidle⟩
  | true =>
    have haccept : ((Consent.pending SessionMode.fileTransfer.permissions).accept
        SessionMode.fileTransfer.permissions).mapError EndpointError.permission =
        .ok ⟨SessionMode.fileTransfer.permissions, SessionMode.fileTransfer.permissions,
          .active⟩ := rfl
    have hconsent : Consent.require ⟨SessionMode.fileTransfer.permissions,
        SessionMode.fileTransfer.permissions, .active⟩ .fileManager = .ok () := rfl
    change Leads _ _ _ (served codec sha256 (Prog.bind (serveAccepted _ _ _) _)) _
    rw [serveAccepted, haccept, Fallible.ofExcept_ok_bind]
    refine Leads.interp_seq (serves_audit trivial (Leads.interp_seq ?_))
    refine .here trivial ⟨_, _, rfl, fun e => Halts.ret hidle, rfl, ?_⟩
    refine Leads.interp_seq (Leads.interp_lift ?_)
    rw [if_neg (by decide)]
    refine Leads.interp_seq (leads_call trivial fun window _ => ?_)
    refine Leads.interp_seq (Leads.interp_lift ?_)
    refine serves_operating hconsent (windsUp fun result w hI hR => ?_) hidle hm window
    change Leads _ _ _ (served codec sha256 (Prog.bind
      (Endpoint.audit _ _ _ _ _ >>= _ : EndpointProg δ Unit) _)) _
    refine Leads.interp_seq (serves_audit hI ?_)
    exact .here hI hR

end Serving

end SensorRemote
