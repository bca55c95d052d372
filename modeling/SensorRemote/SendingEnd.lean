import SensorRemote.Client
import SensorRemote.Lib.Dialogue
import SensorRemote.ResumableTransfers

/-!
# The sending end of a file transfer

`send_file` as a party of a dialogue: what it asks, one message after the other, and how it goes on
with the answers it hopes for. Its own folder works and has the file.
-/

namespace SensorRemote

open Program FolderWorld

variable {δ : Type}

instance : Inhabited ConnectionError := ⟨.closed⟩

/-- Code of the sending party. -/
abbrev SendingProg (δ : Type) :=
  Prog (LinkOp (FileOp δ) (ClientMessage δ) ConnectionError) (Except EndpointError (Manifest δ))

/-- An operation of the sending end, as one of a party. The callback `progress` is the user
interface's. -/
def SenderOp.wire : {β : Type} → SenderOp δ β →
    Prog (LinkOp (FileOp δ) (ClientMessage δ) ConnectionError) β
  | _, .call .receive => Prog.perform (.call .receive)
  | _, .call (.send message) => Prog.perform (.call (.send message))
  | _, .call (.progress _ _ _) => .ret ()
  | _, .file o => Prog.perform (.act o)

/-- The sending party's code. -/
def wired {β : Type} (p : Prog (SenderOp δ) β) :
    Prog (LinkOp (FileOp δ) (ClientMessage δ) ConnectionError) β :=
  p.interp SenderOp.wire

/-- The folder of the sender: it works, has the file, and no file is open. -/
structure FolderWorld.Offers (w : FolderWorld Unit δ) (file : SentFile) : Prop where
  room : w.Room
  files : w.files = fun _ => none
  locks : w.locks = fun _ => none
  has : ∃ inode, w.entries file.name = some inode ∧ w.contents inode = file.content

/-! ## Rules -/

section Rules

variable {R : SendingProg δ → FolderWorld Unit δ → Prop} {w : FolderWorld Unit δ}

/-- Code over files is carried out by the folder. -/
theorem proceeds_run {β : Type} {x : Prog (FileOp δ) β}
    {k : β → Prog (SenderOp δ) (Except EndpointError (Manifest δ))}
    {Q : β → FolderWorld Unit δ → Prop} (hx : Halts (faultless δ) Q x w)
    (hk : ∀ b w, Q b w → Proceeds (faultless δ) R (wired (k b)) w) :
    Proceeds (faultless δ) R
      (wired (Prog.bind (x.interp fun o => Prog.perform (.file o)) k)) w := by
  rw [wired, Prog.interp_bind, interp_interp]
  exact Halts.bind (Halts.interp (N := offline (faultless δ)) .act
    (fun _ _ _ _ => Iff.rfl) hx) hk

/-- If it may fail, its error is converted. -/
theorem proceeds_files {ε β : Type} {f : ε → EndpointError} {x : Fallible (FileOp δ) ε β}
    {k : Except EndpointError β → Prog (SenderOp δ) (Except EndpointError (Manifest δ))}
    {Q : β → FolderWorld Unit δ → Prop}
    (hx : Halts (faultless δ) (fun r w => ∃ b, r = .ok b ∧ Q b w) x w)
    (hk : ∀ b w, Q b w → Proceeds (faultless δ) R (wired (k (.ok b))) w) :
    Proceeds (faultless δ) R (wired (Prog.bind (Sender.files f x) k)) w := by
  change Proceeds (faultless δ) R (wired (Prog.bind (Prog.bind _ _) k)) w
  rw [Prog.bind_assoc]
  apply proceeds_run hx
  rintro _ w ⟨b, rfl, hQ⟩
  exact hk b w hQ

end Rules

/-! ## The conversation -/

section Conversation

variable (sha256 : List UInt8 → δ) (file : SentFile) (w₀ : FolderWorld Unit δ)

/-- The sender has failed, with its folder as it was. -/
def Failed (r : Except EndpointError (Manifest δ)) (w : FolderWorld Unit δ) : Prop :=
  (∃ e, r = .error e) ∧ w = w₀

/-- The chunk that starts at an offset. -/
def SentFile.chunkAt (offset : ℕ) : List UInt8 :=
  (file.content.drop offset).take (min (file.content.length - offset) CHUNK_SIZE)

/-- The sender asks for the transfer to be committed, and returns what it has sent. -/
def Commits : SendingProg δ → FolderWorld Unit δ → Prop :=
  Asks (faultless δ) (Failed w₀) .commit fun k =>
    Quits (faultless δ) (fun r w => r = .ok (file.manifest sha256) ∧ w = w₀)
      (k (.complete (file.manifest sha256)))

/-- The sender sends the chunks from an offset on, and commits: its next `n` questions. -/
def Uploads : ℕ → ℕ → SendingProg δ → FolderWorld Unit δ → Prop
  | 0, _, _, _ => True
  | n + 1, offset, p, w => (offset = file.content.length → Commits sha256 file w₀ p w) ∧
    (offset < file.content.length → Asks (faultless δ) (Failed w₀)
      (.chunk offset (file.chunkAt offset) (sha256 (file.chunkAt offset)))
      (fun k => Uploads n (offset + (file.chunkAt offset).length)
        (k (.progress (offset + (file.chunkAt offset).length)))) p w)

/-- The message that asks for a transfer, new or resumed. -/
def SentFile.question : Option TransferId → ClientMessage δ
  | some id => .resume id
  | none => .fileOffer (file.manifest sha256)

/-- The sender asks for a transfer, and uploads from where the receiver is. -/
def AsksFor (resume : Option TransferId) : SendingProg δ → FolderWorld Unit δ → Prop :=
  Asks (faultless δ) (Failed w₀) (file.question sha256 resume) fun k w =>
    ∀ n id offset, offset ≤ file.content.length → Uploads sha256 file w₀ n offset
      (k (.ready id offset (sha256 (file.content.take offset)) (file.manifest sha256))) w

/-- The sender asks for a session, and if it gets one, for a transfer. -/
def Conversation (resume : Option TransferId) : SendingProg δ → FolderWorld Unit δ → Prop :=
  Asks (faultless δ) (Failed w₀) (.request .fileTransfer) fun k w =>
    AsksFor sha256 file w₀ resume (k (.accepted SessionMode.fileTransfer.permissions)) w ∧
      Quits (faultless δ) (fun r w => r = .error .rejected ∧ w = w₀) (k .rejected) w

end Conversation

/-! ## What `send_file` does -/

section Sending

variable {sha256 : List UInt8 → δ} {file : SentFile} {w w₀ : FolderWorld Unit δ}

theorem SentFile.length_chunkAt (file : SentFile) (offset : ℕ) :
    (file.chunkAt offset).length = min (file.content.length - offset) CHUNK_SIZE := by
  rw [chunkAt, List.length_take, List.length_drop]
  omega

/-- A beginning of the file and the chunk after it. -/
theorem SentFile.append_chunkAt (file : SentFile) {done : List UInt8} (h : done <+: file.content) :
    done ++ file.chunkAt done.length <+: file.content := by
  obtain ⟨rest, hrest⟩ := h
  rw [chunkAt, ← hrest, List.drop_left]
  exact (List.prefix_append_right_inj done).mpr (List.take_prefix _ rest)

theorem readExact_ends {h : Handle} {inode offset count : ℕ}
    (hinode : w₀.contents inode = file.content) (hcount : offset + count ≤ file.content.length) :
    Halts (faultless δ) (fun r w => ∃ bytes, r = .ok bytes ∧
        bytes = (file.content.drop offset).take count ∧
        w = w₀.opened h ⟨inode, offset + count, ()⟩)
      (readExact h count) (w₀.opened h ⟨inode, offset, ()⟩) := by
  rw [← Prog.bind_ret (readExact h count)]
  refine gets_readExact files_opened ?_ ?_
  · change offset + count ≤ (w₀.contents inode).length
    rwa [hinode]
  · change Gets _ (Prog.ret (Except.ok (((w₀.contents inode).drop offset).take count))) _
    rw [hinode]
    exact Halts.ret ⟨_, rfl, rfl, opened_opened⟩

theorem uploads_sendChunks {h : Handle} {inode : ℕ} {id : TransferId}
    {K : Except EndpointError Unit → Prog (SenderOp δ) (Except EndpointError (Manifest δ))}
    (hinode : w₀.contents inode = file.content)
    (hfailed : ∀ e position, Quits (faultless δ) (Failed w₀) (wired (K (.error e)))
      (w₀.opened h ⟨inode, position, ()⟩))
    (hdone : ∀ position, Commits sha256 file w₀ (wired (K (.ok ())))
      (w₀.opened h ⟨inode, position, ()⟩)) (n offset : ℕ) :
    Uploads sha256 file w₀ n offset
      (wired (Prog.bind (Sender.sendChunks sha256 id file.content.length h offset) K))
      (w₀.opened h ⟨inode, offset, ()⟩) := by
  induction n generalizing offset with
  | zero => trivial
  | succ n ih =>
    refine ⟨?_, fun hoffset => Leads.interp_forever ?_⟩
    · rintro rfl
      apply Leads.interp_forever
      rw [if_pos le_rfl]
      exact hdone _
    · rw [if_neg (by omega), Fallible.seq_bind]
      have hlength := file.length_chunkAt offset
      apply proceeds_files (readExact_ends hinode (by omega))
      rintro _ _ ⟨rfl, rfl⟩
      refine .here trivial ⟨_, _, rfl, rfl, fun e => hfailed _ _, fun e => hfailed _ _, ?_⟩
      have hnext := ih (offset + (file.chunkAt offset).length)
      rw [← hlength]
      change Uploads _ _ _ _ _
        (wired (Prog.bind (Fallible.check _ EndpointError.invalid >>= _) _)) _
      rw [Fallible.check, if_pos rfl]
      exact hnext

/-- What leads to an upload is one. -/
theorem Uploads.join {n offset : ℕ} {p : SendingProg δ}
    (h : Proceeds (faultless δ) (Uploads sha256 file w₀ n offset) p w) :
    Uploads sha256 file w₀ n offset p w := by
  cases n with
  | zero => trivial
  | succ n =>
    exact ⟨fun hoffset => Leads.join (h.mono fun _ _ h => h.1 hoffset),
      fun hoffset => Leads.join (h.mono fun _ _ h => h.2 hoffset)⟩

/-- The prefix is read. -/
theorem proceeds_readPrefix {R : SendingProg δ → FolderWorld Unit δ → Prop} {h : Handle}
    {inode count : ℕ} {k : Except EndpointError (List UInt8) →
      Prog (SenderOp δ) (Except EndpointError (Manifest δ))}
    (hinode : w₀.contents inode = file.content) (hcount : count ≤ file.content.length)
    (hk : ∀ position, Proceeds (faultless δ) R (wired (k (.ok (file.content.take count))))
      (w₀.opened h ⟨inode, position, ()⟩)) :
    Proceeds (faultless δ) R (wired (Prog.bind (Sender.readPrefix h count) k))
      (w₀.opened h ⟨inode, 0, ()⟩) := by
  obtain ⟨body, hforever, hbody⟩ : ∃ body : ℕ × List UInt8 → SenderProg δ _,
      Sender.readPrefix h count = Fallible.forever (count, []) body ∧
        ∀ remaining hash, body (remaining, hash) = if remaining = 0 then pure (.inr hash)
          else do
            let bytes ← Sender.files .io (readExact h (min remaining CHUNK_SIZE))
            return .inl (remaining - min remaining CHUNK_SIZE, hash ++ bytes) :=
    ⟨_, rfl, fun _ _ => rfl⟩
  suffices hloop : ∀ n remaining, remaining = n → remaining ≤ count →
      Proceeds (faultless δ) R (wired (Prog.bind
        (Fallible.forever (remaining, file.content.take (count - remaining)) body) k))
        (w₀.opened h ⟨inode, count - remaining, ()⟩) by
    have hstart := hloop count count rfl le_rfl
    rwa [Nat.sub_self, List.take_zero, ← hforever] at hstart
  intro n
  induction n using Nat.strong_induction_on with
  | _ n ih =>
    rintro remaining rfl hremaining
    apply Leads.interp_forever
    rw [hbody]
    by_cases hzero : remaining = 0
    · rw [if_pos hzero, hzero, Nat.sub_zero]
      exact hk _
    · rw [if_neg hzero, Fallible.seq_bind]
      apply proceeds_files (readExact_ends hinode (by omega))
      rintro _ _ ⟨rfl, rfl⟩
      have hpos : 0 < min remaining CHUNK_SIZE := by simp only [CHUNK_SIZE]; omega
      have hnext := ih (remaining - min remaining CHUNK_SIZE) (by omega) _ rfl (by omega)
      have hsum : count - (remaining - min remaining CHUNK_SIZE) =
          count - remaining + min remaining CHUNK_SIZE := by omega
      rw [hsum, List.take_add] at hnext
      exact hnext

/-- The file is described, and the folder is as before. -/
theorem describeFile_ends (hoffers : w.Offers file) :
    Halts (faultless δ) (fun r w' => ∃ manifest, r = .ok manifest ∧
      manifest = file.manifest sha256 ∧ w' = w) (describeFile sha256 file.name) w := by
  obtain ⟨inode, hname, hinode⟩ := hoffers.has
  apply Halts.check file.valid
  refine gets_open (.inl rfl) hname hoffers.room fun h hh => ?_
  change Halts _ _ (closing h _) _
  have hlength : (w.contents inode).length = file.content.length := by rw [hinode]
  refine Halts.bind (Q := fun (r : Except FileError (Manifest δ)) w' =>
    r = .ok (file.manifest sha256) ∧ ∃ position, w' = w.opened h ⟨inode, position, ()⟩) ?_ ?_
  · apply gets_length files_opened
    refine Halts.check (hlength ▸ file.length_le_max) ?_
    refine gets_hashReader files_opened fun position => ?_
    refine Halts.ret ⟨?_, position, opened_opened⟩
    exact congrArg (fun bytes : List UInt8 =>
      (Except.ok ⟨file.name, bytes.length, sha256 bytes⟩ : Except FileError (Manifest δ))) hinode
  · rintro _ _ ⟨rfl, position, rfl⟩
    apply gets_close
    rw [closed_opened hh fun inode => by simp [hoffers.locks]]
    exact Halts.ret ⟨_, rfl, rfl, rfl⟩

/-- The file is closed in the end, and the folder is as before. -/
theorem quits_close (hoffers : w₀.Offers file) {h : Handle} (hh : w₀.files h = none)
    (open_file : OpenFile Unit) {Q : Except EndpointError (Manifest δ) → Prop}
    {r : Except EndpointError (Manifest δ)} (hr : Q r) :
    Quits (faultless δ) (fun r w => Q r ∧ w = w₀)
      (wired (.op (.file (.close h)) fun _ => .ret r)) (w₀.opened h open_file) := by
  refine .op trivial ⟨(), _, rfl, trivial⟩ fun b w' hM => ?_
  obtain ⟨rfl, -⟩ := hM
  exact Halts.ret ⟨hr, closed_opened hh fun inode => by simp [hoffers.locks]⟩

variable [DecidableEq δ]

theorem uploads_sendFrom (hoffers : w₀.Offers file) {id : TransferId} {offset : ℕ}
    (hoffset : offset ≤ file.content.length) (n : ℕ) :
    Uploads sha256 file w₀ n offset (wired (do
      let file' ← Sender.files .io (Fallible.attempt (.openRead file.name))
      Prog.bind (Sender.sendFrom sha256 (file.manifest sha256) id offset
        (sha256 (file.content.take offset)) file') fun result =>
          .op (.file (.close file')) fun _ => .ret result : SenderProg δ (Manifest δ))) w₀ := by
  obtain ⟨inode, hname, hinode⟩ := hoffers.has
  have hopen : Halts (faultless δ) (fun r w => ∃ h, r = .ok h ∧ w₀.files h = none ∧
      w = w₀.opened h ⟨inode, 0, ()⟩) (Fallible.attempt (.openRead file.name)) w₀ :=
    gets_open (.inl rfl) hname hoffers.room fun h hh => Halts.ret ⟨h, rfl, hh, rfl⟩
  refine Uploads.join (proceeds_files hopen ?_)
  rintro h _ ⟨hh, rfl⟩
  refine Leads.interp_seq (proceeds_readPrefix hinode hoffset fun position =>
    Leads.interp_seq (Leads.interp_check rfl ?_))
  have hseek : Halts (faultless δ) (fun r w => ∃ u, r = .ok u ∧ w = w₀.opened h ⟨inode, offset, ()⟩)
      (Fallible.attempt (.seek h offset)) (w₀.opened h ⟨inode, position, ()⟩) :=
    gets_seek files_opened (Halts.ret ⟨(), rfl, opened_opened⟩)
  refine Leads.interp_seq (proceeds_files hseek ?_)
  rintro _ _ rfl
  change Proceeds _ _
    (wired (Prog.bind (Sender.sendChunks sha256 id file.content.length h offset >>=
    _ : SenderProg δ (Manifest δ)) _)) _
  refine Leads.interp_seq (.here trivial (uploads_sendChunks hinode (fun e position => ?_)
    (fun position => ?_) n offset))
  · exact quits_close hoffers hh _ ⟨e, rfl⟩
  · refine .here trivial ⟨_, _, rfl, rfl, fun e => quits_close hoffers hh _ ⟨_, rfl⟩,
      fun e => quits_close hoffers hh _ ⟨_, rfl⟩, ?_⟩
    change Quits _ _ (wired (Prog.bind (Fallible.check (file.manifest sha256 = file.manifest sha256)
      EndpointError.invalid >>= _) _)) _
    rw [Fallible.check, if_pos rfl]
    exact quits_close hoffers hh _ rfl

/-- **The conversation of `send_file`.** -/
theorem sendFile_converses (hoffers : w₀.Offers file) (resume : Option TransferId) :
    Conversation sha256 file w₀ resume (wired (Sender.sendFile sha256 file.name resume)) w₀ := by
  have hready : ∀ (n : ℕ) (id : TransferId) (offset : ℕ), offset ≤ file.content.length →
      Uploads sha256 file w₀ n offset (wired (do
        Fallible.check (file.manifest sha256 = file.manifest sha256 ∧
          offset ≤ (file.manifest sha256).size) .invalid
        let file' ← Sender.files .io (Fallible.attempt (.openRead file.name))
        Prog.bind (Sender.sendFrom sha256 (file.manifest sha256) id offset
          (sha256 (file.content.take offset)) file') fun result =>
            .op (.file (.close file')) fun _ => .ret result : SenderProg δ (Manifest δ))) w₀ := by
    intro n id offset hoffset
    rw [Fallible.check, if_pos ⟨rfl, hoffset⟩]
    exact uploads_sendFrom hoffers hoffset n
  apply proceeds_files (describeFile_ends hoffers)
  rintro _ _ ⟨rfl, rfl⟩
  refine .here trivial ⟨_, _, rfl, rfl, fun e => Halts.ret ⟨⟨_, rfl⟩, rfl⟩,
    fun e => Halts.ret ⟨⟨_, rfl⟩, rfl⟩, ?_, Halts.ret ⟨rfl, rfl⟩⟩
  cases resume with
  | none =>
    exact .here trivial ⟨_, _, rfl, rfl, fun e => Halts.ret ⟨⟨_, rfl⟩, rfl⟩,
      fun e => Halts.ret ⟨⟨_, rfl⟩, rfl⟩, hready⟩
  | some id =>
    exact .here trivial ⟨_, _, rfl, rfl, fun e => Halts.ret ⟨⟨_, rfl⟩, rfl⟩,
      fun e => Halts.ret ⟨⟨_, rfl⟩, rfl⟩, hready⟩

end Sending

end SensorRemote
