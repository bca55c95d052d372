import SensorRemote.MetadataRecord
import SensorRemote.ResumableTransfers

/-!
# Publishing a received file

`finish` publishes a file by a hard link and then removes its own two names. It answers an error
when one of the two cannot be removed, too, and by then the file is published. Otherwise, if it
answers an error, the folder is as it was (`outline_finish`); and if the two names were there, the
transfer can be resumed and finished (`AtRest.finishes`): `resume` goes by the names and the lock,
and a call of `finish` that fails closes the file and lets go of the lock.
-/

namespace SensorRemote

open Program

variable {δ : Type}

/-- A file could not be removed. -/
def FileOp.RemovalFailed : {β : Type} → FileOp δ β → β → Prop
  | _, .removeFile _, .error _ => True
  | _, _, _ => False

/-- No file that was to be removed stayed. -/
def AllRemoved (history : List (Event (FileOp δ))) : Prop :=
  ∀ event ∈ history, ¬event.op.RemovalFailed event.answer

theorem allRemoved_concat {history : List (Event (FileOp δ))} {event : Event (FileOp δ)} :
    AllRemoved (history ++ [event]) ↔
      AllRemoved history ∧ ¬event.op.RemovalFailed event.answer := by
  simp [AllRemoved, or_imp, forall_and]

/-! ## Resuming and finishing -/

section Resuming

open FolderWorld

variable [DecidableEq δ] (codec : MetadataCodec δ) (sha256 : List UInt8 → δ)

/-- Chunks of a transfer, one after the other. -/
def IncomingTransfer.writeChunks (consent : Consent) :
    IncomingTransfer δ → List (List UInt8) → FileProg δ (IncomingTransfer δ)
  | transfer, [] => pure transfer
  | transfer, bytes :: chunks => do
    let transfer ← transfer.writeChunk sha256 consent transfer.offset bytes (sha256 bytes)
    transfer.writeChunks consent chunks

/-- A transfer is resumed, what is missing is written, and it is finished. -/
def Receiver.resumeAndFinish (consent : Consent) (owner : PublicKey) (id : TransferId)
    (chunks : List (List UInt8)) : FileProg δ (Manifest δ) := do
  let transfer ← Receiver.resume codec consent owner id
  let transfer ← transfer.writeChunks sha256 consent chunks
  transfer.finish sha256 consent

/-- The transfer can be resumed and finished: whichever file it is of, if what was received begins
that file and its name is free, the chunks that are missing can be written, and the file is
published. -/
def CanBeFinished (transfer : IncomingTransfer δ) (w : FolderWorld Unit δ) : Prop :=
  ∀ (consent : Consent) (received : List UInt8) (chunks : List (List UInt8)),
    consent.require .fileManager = .ok () →
    (∃ inode, w.entries transfer.id.partName = some inode ∧ w.contents inode = received) →
    (∀ bytes ∈ chunks, bytes ≠ [] ∧ bytes.length ≤ CHUNK_SIZE) →
    (received ++ chunks.flatten).length = transfer.manifest.size →
    sha256 (received ++ chunks.flatten) = transfer.manifest.sha256 →
    w.entries transfer.manifest.name = none →
    Halts (faultless δ) (fun r w' => r = .ok transfer.manifest ∧ ∃ inode,
        w'.entries transfer.manifest.name = some inode ∧
          w'.contents inode = received ++ chunks.flatten)
      (Receiver.resumeAndFinish codec sha256 consent transfer.metadata.owner transfer.id chunks) w

/-- What a process has in its folder of a transfer: the record describes it, and the partial file
is there. Locks are held by open files. -/
structure Described (transfer : IncomingTransfer δ) (w : FolderWorld Unit δ) (record part : ℕ) :
    Prop where
  room : w.Room
  locks : ∀ inode h, w.locks inode = some h → w.files h ≠ none
  recorded : w.entries transfer.id.metaName = some record
  encoded : w.contents record = codec.encode transfer.metadata
  kept : w.entries transfer.id.partName = some part

/-- The process holds the transfer: the partial file is open, at its end, and locked by it alone. -/
structure TransferOpen (transfer : IncomingTransfer δ) (w : FolderWorld Unit δ)
    (record part : ℕ) : Prop extends Described codec transfer w record part where
  opened : w.files transfer.file = some ⟨part, transfer.offset, ()⟩
  offset : (w.contents part).length = transfer.offset
  locked : ∀ h, w.locks part = some h → h = transfer.file

/-- Nobody has the partial file locked. -/
structure AtRest (transfer : IncomingTransfer δ) (w : FolderWorld Unit δ) (record part : ℕ) : Prop
    extends Described codec transfer w record part where
  unlocked : w.locks part = none

end Resuming

section Finishing

open FolderWorld

variable [DecidableEq δ] {codec : MetadataCodec δ} {sha256 : List UInt8 → δ} {consent : Consent}
  {transfer : IncomingTransfer δ} {w : FolderWorld Unit δ} {record part : ℕ}

/-- The chunks of the rest of a file are written. The induction is on the chunks. -/
theorem writeChunks_ends (hconsent : consent.require .fileManager = .ok ())
    (transfer : IncomingTransfer δ) (w : FolderWorld Unit δ)
    (hmax : transfer.manifest.size ≤ MAX_FILE_SIZE) {chunks : List (List UInt8)}
    (hchunks : ∀ bytes ∈ chunks, bytes ≠ [] ∧ bytes.length ≤ CHUNK_SIZE)
    (hfile : w.files transfer.file = some ⟨part, (w.contents part).length, ()⟩)
    (hoffset : transfer.offset = (w.contents part).length)
    (hsize : transfer.offset + chunks.flatten.length ≤ transfer.manifest.size) :
    Halts (faultless δ) (fun r w' =>
      r = .ok { transfer with offset := transfer.offset + chunks.flatten.length } ∧
        w' = w.appended transfer.file part chunks.flatten)
      (transfer.writeChunks sha256 consent chunks) w := by
  induction chunks generalizing transfer w with
  | nil =>
    refine Halts.ret ⟨rfl, ?_⟩
    rw [List.flatten_nil, appended_nil hfile]
  | cons bytes chunks ih =>
    obtain ⟨hbytes, hchunk⟩ := hchunks bytes (List.mem_cons_self ..)
    rw [List.flatten_cons, List.length_append] at hsize
    refine Halts.seq (Q := fun transfer' w' =>
      transfer' = { transfer with offset := transfer.offset + bytes.length } ∧
        w' = w.appended transfer.file part bytes) ?_ ?_
    · apply (writeChunk_ends hconsent hfile hbytes hchunk (by omega) hmax).post
      rintro _ w' ⟨rfl, rfl⟩
      exact ⟨_, rfl, rfl, rfl⟩
    · rintro _ _ ⟨rfl, rfl⟩
      have hcontents : (w.appended transfer.file part bytes).contents part =
          w.contents part ++ bytes := by
        rw [appended_contents, Function.update_self]
      refine (ih { transfer with offset := transfer.offset + bytes.length } _ hmax
        (fun bytes hmem => hchunks bytes (List.mem_cons_of_mem _ hmem)) ?_ ?_ ?_).post ?_
      · rw [hcontents, appended_files, Function.update_self]
      · rw [hcontents, List.length_append, hoffset]
      · exact (Nat.add_assoc _ _ _).le.trans hsize
      · rintro _ _ ⟨rfl, rfl⟩
        refine ⟨?_, ?_⟩
        · rw [List.flatten_cons, List.length_append, ← Nat.add_assoc]
        · rw [appended_appended, List.flatten_cons]

/-- **A transfer at rest can be resumed and finished.** -/
theorem AtRest.finishes (hrest : AtRest codec transfer w record part)
    (hvalid : transfer.metadata.Valid) : CanBeFinished codec sha256 transfer w := by
  rintro consent received chunks hconsent ⟨inode, hinode, rfl⟩ hchunks hlength hhash hfree
  obtain rfl := Option.some.inj (hinode.symm.trans hrest.kept)
  rw [List.length_append] at hlength
  have hsize : (w.contents inode).length ≤ transfer.metadata.manifest.size := by
    change _ ≤ transfer.manifest.size
    omega
  refine Halts.seq (Q := fun resumed w' => ∃ h,
    resumed = ⟨h, transfer.metadata, transfer.id, (w.contents inode).length⟩ ∧
      w' = (w.locked h inode).opened h ⟨inode, (w.contents inode).length, ()⟩) ?_ ?_
  · refine (resume_ends hconsent hvalid hrest.recorded hrest.encoded hrest.kept
      hrest.unlocked hsize hrest.room hrest.locks).post ?_
    rintro _ w' ⟨h, -, rfl, rfl⟩
    exact ⟨_, rfl, h, rfl, rfl⟩
  rintro _ _ ⟨h, rfl, rfl⟩
  refine Halts.seq (Q := fun resumed w' =>
    resumed = ⟨h, transfer.metadata, transfer.id, transfer.manifest.size⟩ ∧
      w' = ((w.locked h inode).opened h ⟨inode, (w.contents inode).length, ()⟩).appended h inode
        chunks.flatten) ?_ ?_
  · refine (writeChunks_ends hconsent
      ⟨h, transfer.metadata, transfer.id, (w.contents inode).length⟩
      ((w.locked h inode).opened h ⟨inode, (w.contents inode).length, ()⟩) hvalid.size hchunks
      files_opened rfl hlength.le).post ?_
    rintro _ w' ⟨rfl, rfl⟩
    refine ⟨_, rfl, ?_, rfl⟩
    exact congrArg (fun offset => (⟨h, transfer.metadata, transfer.id, offset⟩ :
      IncomingTransfer δ)) hlength
  rintro _ _ ⟨rfl, rfl⟩
  have hcontents : (((w.locked h inode).opened h ⟨inode, (w.contents inode).length, ()⟩).appended h
      inode chunks.flatten).contents inode = w.contents inode ++ chunks.flatten := by
    rw [appended_contents, Function.update_self]
    rfl
  have hfile : (((w.locked h inode).opened h ⟨inode, (w.contents inode).length, ()⟩).appended h
      inode chunks.flatten).files h = some ⟨inode, transfer.manifest.size, ()⟩ := by
    rw [appended_files, Function.update_self, ← hlength, List.length_append]
    rfl
  refine (finish_ends hconsent (⟨h, transfer.metadata, transfer.id, transfer.manifest.size⟩ :
    IncomingTransfer δ) hvalid hfile hrest.kept hrest.recorded rfl
    ((congrArg sha256 hcontents).trans hhash) hfree).post ?_
  rintro _ w' ⟨rfl, rfl⟩
  have hown : ¬transfer.id.Owns transfer.manifest.name := fun hown =>
    validName_not_own hvalid.name hown.isOwn
  exact ⟨rfl, inode, publish_entries_self hown, hcontents⟩

end Finishing

/-! ## A call of `finish` -/

/-- Both names of a transfer are there. -/
structure BothThere (transfer : IncomingTransfer δ) (w : FolderWorld Unit δ) : Prop where
  part : (w.entries transfer.id.partName).isSome
  record : (w.entries transfer.id.metaName).isSome

/-- No entry under the name of the manifest was created. The names of the transfer are both there,
and stand for what they did; and if the process held the transfer, it can be resumed and finished
afterwards. -/
structure PublishesNothing [DecidableEq δ] (sha256 : List UInt8 → δ) (transfer : IncomingTransfer δ)
    (w w' : FolderWorld Unit δ) : Prop where
  unpublished : ∀ inode, w'.entries transfer.manifest.name = some inode →
    w.entries transfer.manifest.name = some inode
  both : BothThere transfer w'
  part : w'.entries transfer.id.partName = w.entries transfer.id.partName
  record : w'.entries transfer.id.metaName = w.entries transfer.id.metaName
  contents : w'.contents = w.contents
  resumable : ∀ (codec : MetadataCodec δ) (record part : ℕ),
    TransferOpen codec transfer w record part → CanBeFinished codec sha256 transfer w'

/-- The operation is about the position in an open file, or writes it out. -/
def FileOp.Still : {β : Type} → FileOp δ β → Prop
  | _, .read _ _ | _, .seek _ _ | _, .syncAll _ => True
  | _, _ => False

namespace Publication

/-- The folder of a thread, and what was done. -/
abbrev World (δ : Type) := FolderWorld Unit δ × List (Event (FileOp δ))

/-- The regime of one call of `finish`. -/
abbrev regime (δ : Type) : Regime (receiveFolder Unit δ).recorded := .solo _

/-- Nothing has happened yet to the folder that was `w`, but for positions in open files. -/
structure Untouched (w : FolderWorld Unit δ) (s : World δ) : Prop where
  same : w.SameFolder s.1
  locks : s.1.locks = w.locks
  files : ∀ h, (s.1.files h).map (·.inode) = (w.files h).map (·.inode)
  removed : AllRemoved s.2

/-- And the file of the transfer is closed. -/
structure Released (transfer : IncomingTransfer δ) (w : FolderWorld Unit δ) (s : World δ) :
    Prop where
  same : w.SameFolder s.1
  locks : ∀ inode, s.1.locks inode =
    if w.locks inode = some transfer.file then none else w.locks inode
  files : ∀ h, (s.1.files h).map (·.inode) =
    if h = transfer.file then none else (w.files h).map (·.inode)
  removed : AllRemoved s.2

/-- The file is published and no removal has failed. The partial file was there, so it has
another name. -/
structure Published (transfer : IncomingTransfer δ) (w : FolderWorld Unit δ) (s : World δ) :
    Prop where
  free : w.entries transfer.manifest.name = none
  part : (w.entries transfer.id.partName).isSome
  named : s.1.entries transfer.manifest.name ≠ none
  record : s.1.entries transfer.id.metaName = w.entries transfer.id.metaName
  removed : AllRemoved s.2

/-- The file is published, and a removal has failed. -/
def Stuck (transfer : IncomingTransfer δ) (w : FolderWorld Unit δ) (s : World δ) : Prop :=
  w.entries transfer.manifest.name = none ∧ s.1.entries transfer.manifest.name ≠ none ∧
    ¬AllRemoved s.2

/-- Both names were there, and were removed. -/
def Done (transfer : IncomingTransfer δ) (w : FolderWorld Unit δ) (s : World δ) : Prop :=
  BothThere transfer w ∧ AllRemoved s.2

/-- What the steps of `finish` come to. -/
def Finishing (transfer : IncomingTransfer δ) (w : FolderWorld Unit δ) {α : Type}
    (r : Except FileError α) (s : World δ) : Prop :=
  match r with
  | .ok _ => Done transfer w s
  | .error _ => Untouched w s ∨ Stuck transfer w s

/-- What `finish` comes to. -/
def Finished (transfer : IncomingTransfer δ) (w : FolderWorld Unit δ) {α : Type}
    (r : Except FileError α) (s : World δ) : Prop :=
  match r with
  | .ok _ => Done transfer w s
  | .error _ => Released transfer w s ∨ Stuck transfer w s

variable {transfer : IncomingTransfer δ} {w : FolderWorld Unit δ} {α β : Type}

/-! ### Rules for one call -/

/-- An operation about positions leaves the folder untouched. -/
theorem correct_of_still (o : FileOp δ β) (hstill : o.Still) :
    (regime δ).Correct () (Untouched w) o fun _ => Untouched w := by
  rintro s b s' - ⟨hsame, hlocks, hfiles, hall⟩ ⟨hdoes, hhistory⟩
  refine ⟨trivial, trivial, ?_⟩
  have hquiet : o.Quiet := by cases o <;> trivial
  have hnone : ¬o.RemovalFailed b := by
    cases o with
    | removeFile name => exact hstill.elim
    | _ => exact fun h => h
  have hremoved : AllRemoved s'.2 := by
    rw [hhistory, allRemoved_concat]
    exact ⟨hall, hnone⟩
  have hmoved : ∀ h (file : OpenFile Unit) position, s.1.files h = some file →
      s'.1 = s.1.moved h file position → Untouched w s' := by
    rintro h file position hfile hworld
    refine ⟨hsame.trans (FolderWorld.sameFolder_of_quiet hquiet hdoes), ?_, fun h' => ?_, hremoved⟩
    · rw [hworld]
      exact hlocks
    · rw [hworld, ← hfiles h', FolderWorld.moved, FolderWorld.opened_files, Function.update_apply]
      split
      · rename_i heq
        rw [heq, hfile]
        rfl
      · rfl
  have hrest : s'.1 = s.1 → Untouched w s' := fun hworld =>
    ⟨hworld ▸ hsame, hworld ▸ hlocks, hworld ▸ hfiles, hremoved⟩
  cases o with
  | read h limit =>
    rcases b with e | bytes
    · exact hrest hdoes
    · obtain ⟨file, hfile, -, -, -, hworld⟩ := hdoes
      exact hmoved h file _ hfile hworld
  | seek h position =>
    rcases b with e | _
    · exact hrest hdoes
    · obtain ⟨file, hfile, hworld⟩ := hdoes
      exact hmoved h file _ hfile hworld
  | syncAll h =>
    rcases b with e | _
    · exact hrest hdoes
    · exact hrest hdoes.1
  | _ => cases hstill

/-- Closing the file after an error lets go of its lock. -/
theorem correct_close_error (e : FileError) : (regime δ).Correct ()
    (Finishing (α := α) transfer w (.error e)) (.close transfer.file) fun _ =>
      Finished (α := α) transfer w (.error e) := by
  rintro s b s' - h ⟨hdoes, hhistory⟩
  refine ⟨trivial, trivial, ?_⟩
  have hworld : s'.1 = s.1.closed transfer.file := hdoes
  have hremoved : AllRemoved s'.2 ↔ AllRemoved s.2 := by
    rw [hhistory, allRemoved_concat]
    exact and_iff_left fun h => h
  rcases h with ⟨hsame, hlocks, hfiles, hall⟩ | ⟨hfree, hnamed, hfailed⟩
  · refine .inl ⟨?_, fun inode => ?_, fun h => ?_, hremoved.mpr hall⟩
    · rw [hworld]
      exact ⟨hsame.entries, hsame.contents, hsame.drawn, hsame.origin, hsame.finished⟩
    · rw [hworld, ← hlocks]
      rfl
    · rw [hworld, FolderWorld.closed_files, Function.update_apply]
      split
      · rfl
      · exact hfiles h
  · refine .inr ⟨hfree, ?_, fun hall => hfailed (hremoved.mp hall)⟩
    rw [hworld]
    exact hnamed

/-- And after success. -/
theorem correct_close_ok (a : α) : (regime δ).Correct () (Finished transfer w (.ok a))
    (.close transfer.file) fun _ => Finished transfer w (.ok a) := by
  rintro s b s' - ⟨hboth, hall⟩ ⟨-, hhistory⟩
  refine ⟨trivial, trivial, hboth, ?_⟩
  rw [hhistory, allRemoved_concat]
  exact ⟨hall, fun h => h⟩

/-! ### The steps of `finish` -/

/-- The names of a transfer are none a file can be published under. -/
theorem own_ne_name (hvalid : transfer.metadata.Valid) {name : String}
    (hname : transfer.id.Owns name) : name ≠ transfer.manifest.name := by
  rintro rfl
  exact validName_not_own hvalid.name hname.isOwn

/-- The link is made, and the file published, or nothing happens. -/
theorem correct_hardLink (hvalid : transfer.metadata.Valid) : (regime δ).Correct () (Untouched w)
    (.hardLink transfer.id.partName transfer.manifest.name) fun
      | .ok () => Published transfer w
      | .error e => Finishing (α := Unit) transfer w (.error (.io e)) := by
  rintro s b s' - ⟨hsame, hlocks, hfiles, hall⟩ ⟨hdoes, hhistory⟩
  refine ⟨trivial, trivial, ?_⟩
  have hall' : AllRemoved s'.2 := by
    rw [hhistory, allRemoved_concat]
    exact ⟨hall, fun h => h⟩
  rcases b with e | _
  · have heq : s'.1 = s.1 := hdoes
    exact .inl ⟨heq ▸ hsame, heq ▸ hlocks, heq ▸ hfiles, hall'⟩
  · obtain ⟨inode, hpart, hfree, hlinked⟩ := hdoes
    rw [hsame.entries] at hpart hfree
    refine ⟨hfree, by simp [hpart], by simp [hlinked], ?_, hall'⟩
    rw [hlinked, ← hsame.entries]
    exact Function.update_of_ne (own_ne_name hvalid (.inr rfl)) ..

/-- A name of the transfer is removed, or the call fails. -/
theorem correct_removeFile {own : String} (R : World δ → Prop)
    (hremoved : ∀ s s' : World δ, Published transfer w s → (s.1.entries own).isSome →
      s'.1.entries = Function.update s.1.entries own none → AllRemoved s'.2 → R s') :
    (regime δ).Correct () (Published transfer w) (.removeFile own) fun
      | .ok () => R
      | .error e => Finishing (α := Unit) transfer w (.error (.io e)) := by
  rintro s b s' - hpublished ⟨hdoes, hhistory⟩
  refine ⟨trivial, trivial, ?_⟩
  rcases b with e | _
  · have hsame : s'.1 = s.1 := hdoes
    refine .inr ⟨hpublished.free, hsame ▸ hpublished.named, fun hall => ?_⟩
    rw [hhistory, allRemoved_concat] at hall
    exact hall.2 trivial
  · obtain ⟨hthere, hentries⟩ := hdoes
    apply hremoved s s' hpublished hthere (by rw [hentries])
    rw [hhistory, allRemoved_concat]
    exact ⟨hpublished.removed, fun h => h⟩

theorem prefixHash_still (sha256 : List UInt8 → δ) (transfer : IncomingTransfer δ) :
    (transfer.prefixHash sha256).Only FileOp.Still := by
  have hio : ∀ {α : Type} (o : FileOp δ (Except IoError α)), o.Still →
      (io o).Only FileOp.Still :=
    fun o hstill => Fallible.Only.mapError (Fallible.only_attempt.mpr hstill) _
  have hhash : (hashReader sha256 transfer.file).Only FileOp.Still := by
    refine Fallible.Only.forever (fun hash => ?_) _
    refine (hio (.read transfer.file CHUNK_SIZE) trivial).seq fun data => ?_
    split <;> exact Fallible.only_pure _
  refine (hio (.seek transfer.file 0) trivial).seq fun _ => hhash.seq fun hash => ?_
  exact (hio (.seek transfer.file transfer.offset) trivial).seq fun _ => Fallible.only_pure _

/-- A value that is there already. -/
theorem outline_ret {P : World δ → Prop} {a : α} {Q : α → World δ → Prop}
    (hQ : ∀ s, P s → Q a s) : Outline (regime δ) () P (.ret a) Q :=
  .ret Regime.solo_stable fun s _ h => hQ s h

/-- After the link: the two names are removed. -/
theorem outline_removals (hvalid : transfer.metadata.Valid) :
    Outline (regime δ) () (Published transfer w)
      (io (.removeFile transfer.id.partName) >>= fun _ =>
        io (.removeFile transfer.id.metaName) : FileProg δ Unit) (Finishing transfer w) := by
  have hstable : ∀ {P : World δ → Prop}, (regime δ).Stable () P := Regime.solo_stable
  refine io_seq (R := fun _ => Published transfer w) hstable ?_ (fun _ => hstable) fun _ => ?_
  · intro s b s' hinv h hstep
    have hremoved := correct_removeFile (Published transfer w) ?_ s b s' hinv h hstep
    · rcases b with e | _ <;> exact hremoved
    · rintro s s' ⟨hfree, hpart, hnamed, hrecord, -⟩ - hentries hall
      refine ⟨hfree, hpart, ?_, ?_, hall⟩
      · rwa [hentries, Function.update_of_ne (own_ne_name hvalid (.inl rfl)).symm]
      · rwa [hentries, Function.update_of_ne TransferId.partName_ne_metaName.symm]
  · refine Outline.attempt Regime.solo_stable (R := fun
      | .ok () => Done transfer w
      | .error e => Finishing (α := Unit) transfer w (.error (.io e))) ?_ ?_
    · refine correct_removeFile (Done transfer w) fun s s' hpublished hthere _ hall => ?_
      exact ⟨⟨hpublished.part, hpublished.record ▸ hthere⟩, hall⟩
    · rintro (e | _) <;> exact outline_ret fun s h => h

variable [DecidableEq δ]

/-- **What `finish` does.** -/
theorem outline_finish (sha256 : List UInt8 → δ) (consent : Consent)
    (hvalid : transfer.metadata.Valid) :
    Outline (regime δ) () (Untouched w) (transfer.finish sha256 consent)
      (Finished transfer w) := by
  have hfailed : ∀ (e : FileError) (s : World δ), Untouched w s →
      Finishing (α := Unit) transfer w (.error e) s := fun e s h => .inl h
  have hstable : ∀ {P : World δ → Prop}, (regime δ).Stable () P := Regime.solo_stable
  refine Outline.seq (R := Finished (α := Unit) transfer w)
    (outline_owning (Q := Finishing transfer w) ?_ (fun _ => hstable) correct_close_error
      (fun _ => hstable) fun _ _ _ h => h) ?_ ?_
  · -- up to the link nothing is changed
    refine Outline.seq (R := fun _ => Untouched w) ?_ ?_ fun _ => ?_
    · rw [requireFiles]
      exact outline_ret fun s h => h
    · exact fun e => outline_ret (hfailed e)
    refine Outline.check_seq hstable (fun s _ => hfailed _ s) fun _ => ?_
    refine Outline.seq (R := fun _ => Untouched w)
      (Outline.only correct_of_still Regime.solo_stable (prefixHash_still sha256 transfer)) ?_
      fun hash => ?_
    · exact fun e => outline_ret (hfailed e)
    refine Outline.check_seq hstable (fun s _ => hfailed _ s) fun _ => ?_
    refine io_seq (R := fun _ => Untouched w) hstable ?_ (fun _ => hstable) fun _ => ?_
    · intro s b s' hinv h hstep
      obtain ⟨-, -, huntouched⟩ :=
        correct_of_still (δ := δ) (.syncAll transfer.file) trivial s b s' hinv h hstep
      rcases b with e | _
      · exact ⟨trivial, trivial, hfailed (.io e) s' huntouched⟩
      · exact ⟨trivial, trivial, huntouched⟩
    refine io_seq (R := fun _ => Published transfer w) hstable ?_ (fun _ => hstable) fun _ =>
      outline_removals hvalid
    intro s b s' hinv h hstep
    have hlinked := correct_hardLink hvalid s b s' hinv h hstep
    rcases b with e | _ <;> exact hlinked
  · exact fun e => outline_ret fun s h => h
  · intro _
    exact Outline.perform_seq Regime.solo_stable (correct_close_ok ()) fun _ =>
      outline_ret fun s h => h

omit [DecidableEq δ] in
/-- A transfer that was held is at rest. -/
theorem Released.atRest {codec : MetadataCodec δ} {record part : ℕ} {s : World δ}
    (h : Released transfer w s) (hheld : TransferOpen codec transfer w record part) :
    AtRest codec transfer s.1 record part := by
  have hopen : ∀ {h' : Handle} {inode : ℕ}, (s.1.files h').map (·.inode) = some inode →
      h' ≠ transfer.file ∧ (w.files h').map (·.inode) = some inode := by
    intro h' inode hinode
    rw [h.files] at hinode
    split at hinode
    · cases hinode
    · rename_i hne
      exact ⟨hne, hinode⟩
  refine ⟨⟨?_, fun inode h' hlock => ?_, ?_, ?_, ?_⟩, ?_⟩
  · refine hheld.room.but 0 0 (fun h' _ hnone => ?_) fun inode _ hunused => ?_
    · have hclosed := h.files h'
      rw [hnone] at hclosed
      simpa using hclosed
    · obtain ⟨hentries, hfiles, horigin⟩ := hunused
      refine ⟨by rwa [h.same.entries], fun h' file hfile heq => ?_, by rwa [h.same.origin]⟩
      have hinode : (s.1.files h').map (·.inode) = some file.inode := by
        rw [hfile, Option.map_some]
      obtain ⟨-, hbefore⟩ := hopen hinode
      obtain ⟨file', hfile', hsame⟩ := Option.map_eq_some_iff.mp hbefore
      exact hfiles h' file' hfile' (hsame.trans heq)
  · rw [h.locks] at hlock
    split at hlock
    · cases hlock
    · rename_i hother
      obtain ⟨file, hfile⟩ := Option.ne_none_iff_exists'.mp (hheld.locks inode h' hlock)
      have hstill := h.files h'
      rw [if_neg (by rintro rfl; exact hother hlock), hfile] at hstill
      intro hnone
      rw [hnone] at hstill
      cases hstill
  · rw [h.same.entries]
    exact hheld.recorded
  · rw [h.same.contents]
    exact hheld.encoded
  · rw [h.same.entries]
    exact hheld.kept
  · rw [h.locks]
    split
    · rfl
    · rename_i hother
      cases hlock : w.locks part with
      | none => rfl
      | some h' => exact absurd (hheld.locked h' hlock ▸ hlock) hother

end Publication

/-- A call of `finish` that answers an error has published nothing, with both files of the transfer
there, so that it can be resumed and finished, exactly if both were there before and neither of
the removals failed. -/
theorem failed_publication_iff [DecidableEq δ] {sha256 : List UInt8 → δ} {consent : Consent}
    {transfer : IncomingTransfer δ} (hvalid : transfer.metadata.Valid) {w w' : FolderWorld Unit δ}
    {r : Except FileError (Manifest δ)} {history : List (Event (FileOp δ))}
    (hrun : Prog.RunsOn (receiveFolder Unit δ).recorded () (transfer.finish sha256 consent)
      (w, []) r (w', history)) :
    ((∃ e, r = .error e) → PublishesNothing sha256 transfer w w') ↔
      BothThere transfer w ∧ AllRemoved history := by
  have huntouched : Publication.Untouched (δ := δ) w (w, []) :=
    ⟨.refl w, rfl, fun _ => rfl, fun event hmem => absurd hmem List.not_mem_nil⟩
  have hfinished := hrun.sound (Publication.outline_finish sha256 consent hvalid) huntouched
  rcases r with e | manifest
  · rcases hfinished with hreleased | ⟨hfree, hnamed, hfailed⟩
    · have hentries : w'.entries = w.entries := hreleased.same.entries
      constructor
      · intro h
        obtain ⟨hpart, hrecord⟩ := (h ⟨e, rfl⟩).both
        rw [hentries] at hpart hrecord
        exact ⟨⟨hpart, hrecord⟩, hreleased.removed⟩
      · rintro ⟨⟨hpart, hrecord⟩, -⟩ -
        refine ⟨fun inode h => hentries ▸ h, ⟨?_, ?_⟩, by rw [hentries], by rw [hentries],
          hreleased.same.contents, fun codec record part hopen => ?_⟩
        · rwa [hentries]
        · rwa [hentries]
        · exact (hreleased.atRest hopen).finishes hvalid
    · refine iff_of_false (fun h => ?_) fun h => hfailed h.2
      obtain ⟨inode, hinode⟩ := Option.ne_none_iff_exists'.mp hnamed
      have hbefore := (h ⟨e, rfl⟩).unpublished inode hinode
      rw [hfree] at hbefore
      cases hbefore
  · exact iff_of_true (by rintro ⟨e, ⟨⟩⟩) hfinished

namespace PartStays

/-- An empty file, received and not yet published. The digest tells nothing. -/
def digest : Sha256Digest := Vector.replicate 32 0
def id : TransferId := ⟨List.replicate 16 0, rfl⟩
def transfer : IncomingTransfer Sha256Digest :=
  ⟨0, ⟨1, Vector.replicate 32 0, ⟨"f", 0, digest⟩⟩, id, 0⟩
def consent : Consent := ⟨.of [.fileManager], .of [.fileManager], .active⟩

def received : FolderWorld Unit Sha256Digest where
  entries name := if name = id.partName then some 1 else if name = id.metaName then some 2 else none
  contents inode := if inode = 2 then metadataPostcard.encode transfer.metadata else []
  files h := if h = 0 then some ⟨1, 0, ()⟩ else none
  locks inode := if inode = 1 then some 0 else none
  drawn _ := none
  origin _ := none
  finished := []

/-- The folder after its file was hashed, and after the link was made. -/
def hashed : FolderWorld Unit Sha256Digest :=
  ((received.moved 0 ⟨1, 0, ()⟩ 0).moved 0 ⟨1, 0, ()⟩ 0).moved 0 ⟨1, 0, ()⟩ 0
def linked : FolderWorld Unit Sha256Digest :=
  { hashed with entries := Function.update received.entries "f" (some 1) }

theorem valid : transfer.metadata.Valid := ⟨rfl, by decide, by decide⟩

theorem names : "f" ≠ id.partName ∧ "f" ≠ id.metaName :=
  ⟨(Publication.own_ne_name valid (.inl rfl)).symm, (Publication.own_ne_name valid (.inr rfl)).symm⟩

theorem free : received.entries "f" = none := by
  simp [received, names]

theorem meta_there : received.entries id.metaName = some 2 := by
  simp [received, TransferId.partName_ne_metaName.symm]

/-- Everything succeeds until the partial file is to be removed. -/
def history : List (Event (FileOp Sha256Digest)) :=
  [⟨.seek 0 0, Except.ok ()⟩, ⟨.read 0 CHUNK_SIZE, Except.ok []⟩, ⟨.seek 0 0, Except.ok ()⟩,
    ⟨.syncAll 0, Except.ok ()⟩, ⟨.hardLink id.partName "f", Except.ok ()⟩,
    ⟨.removeFile id.partName, Except.error .other⟩, ⟨.close 0, ()⟩]

/-- The link fails, as the disk is full, say. -/
def unlinked : List (Event (FileOp Sha256Digest)) :=
  [⟨.seek 0 0, Except.ok ()⟩, ⟨.read 0 CHUNK_SIZE, Except.ok []⟩, ⟨.seek 0 0, Except.ok ()⟩,
    ⟨.syncAll 0, Except.ok ()⟩, ⟨.hardLink id.partName "f", Except.error .other⟩, ⟨.close 0, ()⟩]

theorem reads : (received.moved 0 ⟨1, 0, ()⟩ 0).Does ()
    (.read 0 CHUNK_SIZE : FileOp Sha256Digest _) (.ok [])
    ((received.moved 0 ⟨1, 0, ()⟩ 0).moved 0 ⟨1, 0, ()⟩ 0) :=
  ⟨⟨1, 0, ()⟩, rfl, Nat.zero_le _, List.nil_prefix, fun _ => .inr (Nat.zero_le _), rfl⟩

theorem runs : Prog.RunsOn (receiveFolder Unit Sha256Digest).recorded ()
    (transfer.finish (fun _ => digest) consent) (received, []) (.error (.io .other))
    (linked.closed 0, history) := by
  -- seek, hash, seek, sync
  refine .recorded (.ok ()) ⟨⟨1, 0, ()⟩, rfl, rfl⟩ (.loop ?_)
  refine .recorded (.ok []) reads ?_
  refine .recorded (.ok ()) ⟨⟨1, 0, ()⟩, rfl, rfl⟩ ?_
  refine .recorded (.ok ()) ⟨rfl, rfl⟩ ?_
  -- the link, and the removal that fails
  refine .recorded (.ok ()) ⟨1, rfl, free, rfl⟩ ?_
  refine .recorded (.error .other) rfl ?_
  exact .recorded () rfl (.ret _ _)

theorem runs_unlinked : Prog.RunsOn (receiveFolder Unit Sha256Digest).recorded ()
    (transfer.finish (fun _ => digest) consent) (received, []) (.error (.io .other))
    (hashed.closed 0, unlinked) := by
  refine .recorded (.ok ()) ⟨⟨1, 0, ()⟩, rfl, rfl⟩ (.loop ?_)
  refine .recorded (.ok []) reads ?_
  refine .recorded (.ok ()) ⟨⟨1, 0, ()⟩, rfl, rfl⟩ ?_
  refine .recorded (.ok ()) ⟨rfl, rfl⟩ ?_
  refine .recorded (.error .other) rfl ?_
  exact .recorded () rfl (.ret _ _)

/-- `finish` fails and the file is there under its name. -/
theorem published_and_failed :
    ∃ history w', Prog.RunsOn (receiveFolder Unit Sha256Digest).recorded ()
      (transfer.finish (fun _ => digest) consent) (received, []) (.error (.io .other))
      (w', history) ∧ ¬PublishesNothing (fun _ => digest) transfer received w' := by
  refine ⟨history, linked.closed 0, runs, fun h => ?_⟩
  have hbefore : received.entries "f" = some 1 := h.unpublished 1 rfl
  rw [free] at hbefore
  cases hbefore

theorem received_open : TransferOpen metadataPostcard transfer received 2 1 := by
  refine ⟨⟨⟨3, fun h hh => if_neg (Nat.pos_iff_ne_zero.mp (Nat.zero_lt_of_lt hh)),
    fun inode hi => ⟨fun name hname => ?_, fun h file hfile => ?_, rfl⟩⟩, fun inode h hlock => ?_,
    meta_there, rfl, rfl⟩, rfl, rfl, fun h hlock => (Option.some.inj hlock).symm⟩
  · simp only [received] at hname
    split_ifs at hname <;> have := Option.some.inj hname <;> omega
  · simp only [received] at hfile
    split_ifs at hfile
    obtain rfl := Option.some.inj hfile
    simp only
    omega
  · simp only [received] at hlock
    split_ifs at hlock
    obtain rfl := Option.some.inj hlock
    simp [received]

/-- Where the removal fails the file is published all the same. Where the link fails nothing is,
and the transfer can be resumed and finished. -/
theorem published_or_resumable :
    ¬((∃ e, (Except.error (.io .other) : Except FileError (Manifest Sha256Digest)) = .error e) →
      PublishesNothing (fun _ => digest) transfer received (linked.closed 0)) ∧
    PublishesNothing (fun _ => digest) transfer received (hashed.closed 0) ∧
    CanBeFinished metadataPostcard (fun _ => digest) transfer (hashed.closed 0) := by
  have hkept : PublishesNothing (fun _ => digest) transfer received (hashed.closed 0) := by
    refine (failed_publication_iff valid runs_unlinked).mpr ⟨⟨rfl, ?_⟩, ?_⟩ ⟨_, rfl⟩
    · exact Option.isSome_of_mem meta_there
    · intro event hmem
      simp only [unlinked, List.mem_cons, List.not_mem_nil, or_false] at hmem
      rcases hmem with rfl | rfl | rfl | rfl | rfl | rfl <;> exact fun h => h
  refine ⟨?_, hkept, hkept.resumable _ 2 1 received_open⟩
  rw [failed_publication_iff valid runs]
  rintro ⟨-, hall⟩
  exact hall ⟨.removeFile id.partName, Except.error .other⟩ (by simp [history]) trivial

end PartStays

end SensorRemote
