import SensorRemote.FaultlessFolder
import SensorRemote.Messages

/-!
# Resumable transfers

What the receive folder keeps of the transfers of one file. Between two sessions every transfer that
was begun can be resumed (`Idle`): its record says which file it is of, and its partial file is a
beginning of that file. In a session one of them is held (`Holding`). The receiver's functions take
the folder from one to the other, and `finish` publishes the file.

At most one transfer is `published`. Of that one nothing is left but the file, so it cannot be
resumed; the others still can, but none can be finished, and no new one can be begun.

Each function is run on a folder that works, by the rules for calls, and the result names the world
it ends in. What is said of that world is `Kept`, which is parametrised by the transfers it speaks
of: while one transfer is held or begun the statement is about the others, `(· ≠ id)`, and at the
end of the call the one that was left out is put back (`Kept.all`). So a function that works on one
transfer needs no proof about the rest: all it has to show is that its calls go through files that
are that transfer's own.
-/

namespace SensorRemote

open Program

variable {δ : Type}

/-- The description of a transfer is one that `begin` or `resume` lets through. -/
structure Metadata.Valid (metadata : Metadata δ) : Prop where
  version : metadata.version = 1
  name : validName metadata.manifest.name
  size : metadata.manifest.size ≤ MAX_FILE_SIZE

/-- A record that is valid fits the limit on its length. -/
theorem Metadata.Valid.fits {metadata : Metadata δ} (h : metadata.Valid) : metadata.Fits := by
  have hname := validName_short h.name
  have hsize := h.size
  simp only [MAX_FILE_SIZE] at hsize
  refine ⟨?_, by omega, by omega⟩
  rw [h.version]
  decide

/-- Its record is short enough to be read. -/
theorem Metadata.Valid.length_encode (codec : MetadataCodec δ) {metadata : Metadata δ}
    (h : metadata.Valid) : (codec.encode metadata).length ≤ METADATA_LIMIT := by
  have hle := codec.length_le _ h.fits
  have hname := validName_short h.name
  simp only [METADATA_LIMIT]
  omega

/-- A file that may be sent. -/
structure SentFile where
  name : String
  content : List UInt8
  valid : validName name
  length_le : content.length ≤ DEFAULT_RECEIVE_LIMIT

namespace SentFile

/-- What `describe_file` makes of it. -/
def manifest (file : SentFile) (sha256 : List UInt8 → δ) : Manifest δ :=
  ⟨file.name, file.content.length, sha256 file.content⟩

/-- What `begin` records of its transfer for an owner. -/
def metadata (file : SentFile) (sha256 : List UInt8 → δ) (owner : PublicKey) : Metadata δ :=
  ⟨1, owner, file.manifest sha256⟩

theorem length_le_max (file : SentFile) : file.content.length ≤ MAX_FILE_SIZE :=
  file.length_le.trans (by decide)

theorem metadata_valid (file : SentFile) (sha256 : List UInt8 → δ) (owner : PublicKey) :
    (file.metadata sha256 owner).Valid :=
  ⟨rfl, file.valid, file.length_le_max⟩

end SentFile

namespace FolderWorld

variable {w w' : FolderWorld Unit δ}

/-! ## Worlds that differ in open files -/

/-- One more open file leaves room. -/
theorem Room.opened (hroom : w.Room) (h : Handle) (file : OpenFile Unit) :
    (w.opened h file).Room := by
  refine hroom.but h file.inode (fun h' hne hnone => ?_) fun inode hne hunused => ?_
  · simpa only [FolderWorld.opened, Function.update_of_ne hne] using hnone
  · obtain ⟨hentries, hfiles, horigin⟩ := hunused
    refine ⟨hentries, fun h' file' hfile' => ?_, horigin⟩
    simp only [FolderWorld.opened, Function.update_apply] at hfile'
    split at hfile'
    · obtain rfl := Option.some.inj hfile'
      exact hne.symm
    · exact hfiles h' file' hfile'

/-- A file less leaves room. -/
theorem Room.closed (hroom : w.Room) (h : Handle) : (w.closed h).Room := by
  refine hroom.but 0 0 (fun h' _ hnone => ?_) fun inode _ hunused => ?_
  · simp only [FolderWorld.closed, Function.update_apply]
    split
    · rfl
    · exact hnone
  · obtain ⟨hentries, hfiles, horigin⟩ := hunused
    refine ⟨hentries, fun h' file' hfile' => ?_, horigin⟩
    simp only [FolderWorld.closed, Function.update_apply] at hfile'
    split at hfile'
    · cases hfile'
    · exact hfiles h' file' hfile'

/-- A new file leaves room for more. -/
theorem Room.created (hroom : w.Room) (name : String) (h : Handle) (inode : ℕ) :
    (w.created name h inode).Room := by
  refine (hroom.opened h ⟨inode, 0, ()⟩).but h inode (fun h' _ hnone => hnone)
    fun i hne hunused => ?_
  obtain ⟨hentries, hfiles, horigin⟩ := hunused
  refine ⟨fun name' hname' => ?_, hfiles, ?_⟩
  · rw [created_entries, Function.update_apply] at hname'
    split at hname'
    · exact hne (Option.some.inj hname').symm
    · exact hentries name' hname'
  · rwa [created_origin, Function.update_of_ne hne]

/-- A name for an inode leaves room, and so does a name less. -/
theorem Room.named (hroom : w.Room) (name : String) (inode : Option ℕ) :
    (w.named name inode).Room := by
  refine hroom.but 0 (inode.getD 0) (fun _ _ hnone => hnone) fun i hne hunused => ?_
  obtain ⟨hentries, hfiles, horigin⟩ := hunused
  refine ⟨fun name' hname' => ?_, hfiles, horigin⟩
  simp only [FolderWorld.named, Function.update_apply] at hname'
  split at hname'
  · exact hne (by rw [hname', Option.getD_some])
  · exact hentries name' hname'

/-- A file that was opened and closed again. -/
theorem closed_opened {h : Handle} {file : OpenFile Unit} (hfree : w.files h = none)
    (hlocks : ∀ inode, w.locks inode ≠ some h) : (w.opened h file).closed h = w := by
  have hfiles : Function.update (Function.update w.files h (some file)) h none = w.files := by
    rw [Function.update_idem, ← hfree, Function.update_eq_self]
  have hlocks' : (fun inode => if w.locks inode = some h then none else w.locks inode) = w.locks :=
    funext fun inode => if_neg (hlocks inode)
  calc (w.opened h file).closed h
      = { w with
          files := Function.update (Function.update w.files h (some file)) h none
          locks := fun inode => if w.locks inode = some h then none else w.locks inode } := rfl
    _ = w := by rw [hfiles, hlocks']

/-! ## Transfers of one file -/

section Transfers

variable (codec : MetadataCodec δ) (sha256 : List UInt8 → δ) (owner : PublicKey) (file : SentFile)

/-- The transfer can be resumed: its record is there, and its partial file is a beginning of the
file. -/
structure Resumable (w : FolderWorld Unit δ) (id : TransferId) : Prop where
  record : ∃ inode, w.entries id.metaName = some inode ∧ w.origin inode = some id.metaName ∧
    w.contents inode = codec.encode (file.metadata sha256 owner)
  part : ∃ inode, w.entries id.partName = some inode ∧ w.origin inode = some id.partName ∧
    w.contents inode <+: file.content

/-- The transfer was published: its file is the one of the name, and its own names are gone. -/
structure Published (w : FolderWorld Unit δ) (id : TransferId) : Prop where
  entry : ∃ inode, w.entries file.name = some inode ∧ w.origin inode = some id.partName ∧
    w.contents inode = file.content
  part : w.entries id.partName = none
  record : w.entries id.metaName = none
  drawn : w.drawn id = some ((), file.metadata sha256 owner)

/-- The name of the file is free, or a transfer was published under it. -/
def Destination : Option TransferId → FolderWorld Unit δ → Prop
  | none, w => w.entries file.name = none
  | some id, w => Published sha256 owner file w id

/-- The transfers of the file that were begun and are in `P` can be resumed, all but the one that
was published. -/
structure Kept (published : Option TransferId) (P : TransferId → Prop) (w : FolderWorld Unit δ) :
    Prop where
  room : w.Room
  destination : Destination sha256 owner file published w
  among : ∀ id, published = some id → P id
  fresh : ∀ id, w.drawn id = none → ∀ name, id.Owns name → w.entries name = none
  resumable : ∀ id, P id → published ≠ some id →
    w.drawn id = some ((), file.metadata sha256 owner) → Resumable codec sha256 owner file w id

/-- The folder between two sessions. -/
structure Idle (published : Option TransferId) (w : FolderWorld Unit δ) : Prop where
  kept : Kept codec sha256 owner file published (fun _ => True) w
  files : w.files = fun _ => none
  locks : w.locks = fun _ => none

/-- The partial file of the transfer is open and locked, and nothing else is. -/
structure PartOpen (w : FolderWorld Unit δ) (transfer : IncomingTransfer δ) (inode : ℕ) : Prop where
  entry : w.entries transfer.id.partName = some inode
  origin : w.origin inode = some transfer.id.partName
  files : w.files = Function.update (fun _ => none) transfer.file
    (some ⟨inode, (w.contents inode).length, ()⟩)
  locks : w.locks = Function.update (fun _ => none) inode (some transfer.file)

/-- The folder in a session that has received `done`. -/
structure Holding (published : Option TransferId) (w : FolderWorld Unit δ)
    (transfer : IncomingTransfer δ) (done : List UInt8) : Prop where
  kept : Kept codec sha256 owner file published (fun _ => True) w
  unpublished : published ≠ some transfer.id
  metadata : transfer.metadata = file.metadata sha256 owner
  drawn : w.drawn transfer.id = some ((), file.metadata sha256 owner)
  offset : transfer.offset = done.length
  begins : done <+: file.content
  open_part : ∃ inode, PartOpen w transfer inode ∧ w.contents inode = done

/-- The file was received. -/
def Received (w : FolderWorld Unit δ) : Prop :=
  ∃ inode, w.entries file.name = some inode ∧ w.contents inode = file.content

end Transfers

variable {codec : MetadataCodec δ} {sha256 : List UInt8 → δ} {owner : PublicKey} {file : SentFile}
  {published : Option TransferId} {P : TransferId → Prop} {id : TransferId}

/-- The file's own name is none of a transfer's. -/
theorem owns_ne_name {name : String} (h : id.Owns name) : name ≠ file.name := by
  rintro rfl
  exact validName_not_own file.valid h.isOwn

/-- A published file is the file. -/
theorem Idle.received (h : Idle codec sha256 owner file (some id) w) : Received file w := by
  obtain ⟨inode, hentry, -, hcontents⟩ := h.kept.destination.entry
  exact ⟨inode, hentry, hcontents⟩

/-- Where the name of the file is free, no transfer was published. -/
theorem Idle.unpublished (h : Idle codec sha256 owner file published w)
    (hfree : w.entries file.name = none) : published = none := by
  cases published with
  | none => rfl
  | some id =>
    obtain ⟨inode, hentry, -⟩ := h.kept.destination.entry
    cases hfree.symm.trans hentry

/-- What there is to publish under is decided by names, inodes and what was drawn. -/
theorem Destination.same (h : Destination sha256 owner file published w)
    (hsame : w.SameFolder w') : Destination sha256 owner file published w' := by
  cases published with
  | none => exact (congrFun hsame.entries file.name).trans h
  | some id =>
    obtain ⟨hentry, hpart, hrecord, hdrawn⟩ := h
    refine ⟨?_, ?_, ?_, ?_⟩
    · rwa [hsame.entries, hsame.origin, hsame.contents]
    · rwa [hsame.entries]
    · rwa [hsame.entries]
    · rwa [hsame.drawn]

/-- What is kept speaks of names, contents and what was drawn, and of the locks that are free. -/
theorem Kept.same (h : Kept codec sha256 owner file published P w) (hsame : w.SameFolder w')
    (hroom : w'.Room) : Kept codec sha256 owner file published P w' where
  room := hroom
  destination := h.destination.same hsame
  among := h.among
  fresh id hid name hname := by
    rw [hsame.drawn] at hid
    rw [hsame.entries]
    exact h.fresh id hid name hname
  resumable id hP hne hid := by
    rw [hsame.drawn] at hid
    obtain ⟨hrecord, hpart⟩ := h.resumable id hP hne hid
    refine ⟨?_, ?_⟩
    · rwa [hsame.entries, hsame.origin, hsame.contents]
    · rwa [hsame.entries, hsame.origin, hsame.contents]

theorem Kept.opened (hkept : Kept codec sha256 owner file published P w) (h : Handle)
    (open_file : OpenFile Unit) : Kept codec sha256 owner file published P (w.opened h open_file) :=
  hkept.same ⟨rfl, rfl, rfl, rfl, rfl⟩ (hkept.room.opened h open_file)

theorem Kept.closed (hkept : Kept codec sha256 owner file published P w) (h : Handle) :
    Kept codec sha256 owner file published P (w.closed h) :=
  hkept.same ⟨rfl, rfl, rfl, rfl, rfl⟩ (hkept.room.closed h)

theorem Kept.locked (hkept : Kept codec sha256 owner file published P w) (h : Handle) (inode : ℕ) :
    Kept codec sha256 owner file published P (w.locked h inode) :=
  hkept.same ⟨rfl, rfl, rfl, rfl, rfl⟩ hkept.room

/-- Drawing an identifier leaves the transfers that were there; the new one is not yet among those
spoken of. -/
theorem Kept.drew (h : Kept codec sha256 owner file none (fun _ => True) w) (id : TransferId) :
    Kept codec sha256 owner file none (· ≠ id) (w.drew id (file.metadata sha256 owner)) where
  room := h.room
  destination := h.destination
  among := by rintro _ ⟨⟩
  fresh id' hid' := by
    simp only [FolderWorld.drew, Function.update_apply] at hid'
    split at hid'
    · cases hid'
    · exact h.fresh id' hid'
  resumable id' hne hunpublished hid' := by
    simp only [FolderWorld.drew, Function.update_of_ne hne] at hid'
    obtain ⟨hrecord, hpart⟩ := h.resumable id' trivial hunpublished hid'
    exact ⟨hrecord, hpart⟩

/-- A transfer being begun creates its own files only. -/
theorem Kept.created {name : String} {h : Handle} {inode : ℕ}
    (hkept : Kept codec sha256 owner file none (· ≠ id) w) (hid : w.drawn id ≠ none)
    (hname : id.Owns name) (hunused : w.Unused inode) :
    Kept codec sha256 owner file none (· ≠ id) (w.created name h inode) where
  room := hkept.room.created name h inode
  destination := by
    change (w.created name h inode).entries file.name = none
    rw [created_entries, Function.update_of_ne (owns_ne_name hname).symm]
    exact hkept.destination
  among := by rintro _ ⟨⟩
  fresh id' hid' name' hname' := by
    have hne : name' ≠ name := by
      rintro rfl
      obtain rfl := hname.unique hname'
      exact hid hid'
    rw [created_entries, Function.update_of_ne hne]
    exact hkept.fresh id' hid' name' hname'
  resumable id' hne hunpublished hid' := by
    -- its names are others, and so are its inodes
    have hothers : ∀ {name' : String} {P : ℕ → Prop}, id'.Owns name' →
        (∃ i, w.entries name' = some i ∧ w.origin i = some name' ∧ P i) →
        ∃ i, (w.created name h inode).entries name' = some i ∧
          (w.created name h inode).origin i = some name' ∧ i ≠ inode ∧ P i := by
      rintro name' P hname' ⟨i, hentry, horigin, hP⟩
      have hi : i ≠ inode := by
        rintro rfl
        exact hunused.1 name' hentry
      have hn : name' ≠ name := by
        rintro rfl
        exact hne (hname'.unique hname)
      refine ⟨i, ?_, ?_, hi, hP⟩
      · rwa [created_entries, Function.update_of_ne hn]
      · rwa [created_origin, Function.update_of_ne hi]
    obtain ⟨hrecord, hpart⟩ := hkept.resumable id' hne hunpublished hid'
    obtain ⟨i, hentry, horigin, hi, hcontents⟩ := hothers (.inr rfl) hrecord
    obtain ⟨j, hentry', horigin', hj, hcontents'⟩ := hothers (.inl rfl) hpart
    refine ⟨⟨i, hentry, horigin, ?_⟩, j, hentry', horigin', ?_⟩
    · rwa [created_contents, Function.update_of_ne hi]
    · rwa [created_contents, Function.update_of_ne hj]

/-- A file of another transfer's is not the one that is written to. -/
theorem origin_ne {name name' : String} {inode i : ℕ} {id' : TransferId} (hne : id' ≠ id)
    (hname : id.Owns name) (horigin : w.origin inode = some name) (hname' : id'.Owns name')
    (horigin' : w.origin i = some name') : i ≠ inode := by
  rintro rfl
  obtain rfl := Option.some.inj (horigin.symm.trans horigin')
  exact hne (hname'.unique hname)

/-- And writes to them only. -/
theorem Kept.appended {name : String} {inode : ℕ}
    (hkept : Kept codec sha256 owner file published (· ≠ id) w) (h : Handle) (bytes : List UInt8)
    (hname : id.Owns name) (horigin : w.origin inode = some name) :
    Kept codec sha256 owner file published (· ≠ id) (w.appended h inode bytes) where
  room := hkept.room.opened h _
  destination := by
    cases published with
    | none => exact hkept.destination
    | some id' =>
      obtain ⟨⟨i, hentry, horigin', hcontents⟩, hpart, hrecord, hdrawn⟩ := hkept.destination
      have hi : i ≠ inode :=
        origin_ne (hkept.among id' rfl) hname horigin (.inl rfl) horigin'
      refine ⟨⟨i, hentry, horigin', ?_⟩, hpart, hrecord, hdrawn⟩
      rwa [appended_contents, Function.update_of_ne hi]
  among := hkept.among
  fresh := hkept.fresh
  resumable id' hne hunpublished hid' := by
    obtain ⟨⟨i, hentry, horigin₁, hcontents⟩, j, hentry', horigin₂, hcontents'⟩ :=
      hkept.resumable id' hne hunpublished hid'
    have hi : i ≠ inode := origin_ne hne hname horigin (.inr rfl) horigin₁
    have hj : j ≠ inode := origin_ne hne hname horigin (.inl rfl) horigin₂
    refine ⟨⟨i, hentry, horigin₁, ?_⟩, j, hentry', horigin₂, ?_⟩
    · rwa [appended_contents, Function.update_of_ne hi]
    · rwa [appended_contents, Function.update_of_ne hj]

/-- When the transfer that was left out can be resumed too, all of them can. -/
theorem Kept.all (h : Kept codec sha256 owner file published (· ≠ id) w)
    (hid : Resumable codec sha256 owner file w id) :
    Kept codec sha256 owner file published (fun _ => True) w where
  room := h.room
  destination := h.destination
  among _ _ := trivial
  fresh := h.fresh
  resumable id' _ hunpublished hid' := by
    by_cases hne : id' = id
    · rw [hne]
      exact hid
    · exact h.resumable id' hne hunpublished hid'

/-- Of all transfers one may be left out that was not published. -/
theorem Kept.but (h : Kept codec sha256 owner file published (fun _ => True) w) {id : TransferId}
    (hid : published ≠ some id) : Kept codec sha256 owner file published (· ≠ id) w where
  room := h.room
  destination := h.destination
  among := by
    rintro _ rfl rfl
    exact hid rfl
  fresh := h.fresh
  resumable id _ := h.resumable id trivial

/-- The world after a transfer was published. -/
def publish (w : FolderWorld Unit δ) (name : String) (id : TransferId) (inode : ℕ) :
    FolderWorld Unit δ :=
  ((w.named name (some inode)).named id.partName none).named id.metaName none

theorem publish_entries {name : String} {id : TransferId} {inode : ℕ} {name' : String}
    (hne : name' ≠ name) (hown : ¬id.Owns name') :
    (w.publish name id inode).entries name' = w.entries name' := by
  change Function.update (Function.update (Function.update w.entries _ _) _ _) _ _ _ = _
  rw [Function.update_of_ne fun h => hown (.inr h), Function.update_of_ne fun h => hown (.inl h),
    Function.update_of_ne hne]

theorem publish_entries_self {name : String} {id : TransferId} {inode : ℕ} (hown : ¬id.Owns name) :
    (w.publish name id inode).entries name = some inode := by
  change Function.update (Function.update (Function.update w.entries _ _) _ _) _ _ _ = _
  rw [Function.update_of_ne fun h => hown (.inr h), Function.update_of_ne fun h => hown (.inl h),
    Function.update_self]

/-- **Publication.** The partial file becomes the file, and the transfer's own names are gone. The
other transfers can be resumed as before. -/
theorem Kept.publish {inode : ℕ} (hkept : Kept codec sha256 owner file none (fun _ => True) w)
    (hdrawn : w.drawn id = some ((), file.metadata sha256 owner))
    (horigin : w.origin inode = some id.partName) (hcontents : w.contents inode = file.content) :
    Kept codec sha256 owner file (some id) (fun _ => True) (w.publish file.name id inode) where
  room := ((hkept.room.named _ _).named _ _).named _ _
  destination := by
    refine ⟨⟨inode, publish_entries_self fun hown => owns_ne_name hown rfl, horigin, hcontents⟩,
      ?_, ?_, hdrawn⟩
    · change Function.update (Function.update _ _ _) _ _ _ = _
      rw [Function.update_of_ne TransferId.partName_ne_metaName, Function.update_self]
    · exact Function.update_self ..
  among _ _ := trivial
  fresh id' hid' name hname := by
    have hne : ¬id.Owns name := by
      intro hown
      obtain rfl := hown.unique hname
      cases hdrawn.symm.trans hid'
    rw [publish_entries (owns_ne_name hname) hne]
    exact hkept.fresh id' hid' name hname
  resumable id' _ hunpublished hid' := by
    have hothers : ∀ {name : String}, id'.Owns name →
        (w.publish file.name id inode).entries name = w.entries name := by
      intro name hname
      refine publish_entries (owns_ne_name hname) fun hown => hunpublished ?_
      rw [hown.unique hname]
    obtain ⟨hrecord, hpart'⟩ := hkept.resumable id' trivial (by rintro ⟨⟩) hid'
    refine ⟨?_, ?_⟩
    · rw [hothers (.inr rfl)]
      exact hrecord
    · rw [hothers (.inl rfl)]
      exact hpart'

end FolderWorld

/-! ## The receiver's functions -/

section Receiving

open FolderWorld

variable {codec : MetadataCodec δ} {sha256 : List UInt8 → δ} {owner : PublicKey} {file : SentFile}
  {published : Option TransferId} {consent : Consent} {w : FolderWorld Unit δ}

/-- With the permission the check goes through. -/
theorem requireFiles_bind {β : Type} (hconsent : consent.require .fileManager = .ok ())
    (f : Unit → FileProg δ β) : requireFiles consent >>= f = f () := by
  rw [requireFiles, hconsent]
  rfl

/-- The record is written. -/
theorem writeMetadata_ends {id : TransferId} {encoded : List UInt8}
    (hfree : w.entries id.metaName = none) (hroom : w.Room) :
    Halts (faultless δ) (fun r w' => r = (true, .ok ()) ∧ ∃ h inode, w.files h = none ∧
      w.Unused inode ∧ w' = ((w.created id.metaName h inode).appended h inode encoded).closed h)
      (Receiver.writeMetadata id encoded) w := by
  refine gets_createNew hfree hroom fun h inode hh hinode => ?_
  change Gets _ (Prog.bind (Prog.bind (writeAll h encoded) _) _) _
  rw [Prog.bind_assoc]
  have hfile : (w.created id.metaName h inode).files h =
      some ⟨inode, ((w.created id.metaName h inode).contents inode).length, ()⟩ := by
    rw [created_files, created_contents, Function.update_self, Function.update_self]
    rfl
  apply gets_writeAll _ hfile
  apply gets_syncAll (Function.update_self ..)
  apply gets_close
  exact Halts.ret ⟨rfl, h, inode, hh, hinode, rfl⟩

/-- A transfer being begun: its partial file is there, and its record not yet. -/
structure Begun (codec : MetadataCodec δ) (sha256 : List UInt8 → δ) (owner : PublicKey)
    (file : SentFile) (w : FolderWorld Unit δ) (transfer : IncomingTransfer δ) (inode : ℕ) :
    Prop where
  kept : Kept codec sha256 owner file none (· ≠ transfer.id) w
  drawn : w.drawn transfer.id = some ((), file.metadata sha256 owner)
  part : PartOpen w transfer inode
  empty : w.contents inode = []
  free : w.entries transfer.id.metaName = none

/-- The world after `begin` has made its two files: a transfer more, which is empty. -/
theorem FolderWorld.Idle.begun (hidle : Idle codec sha256 owner file none w) {id : TransferId}
    (hid : w.drawn id = none) (h : Handle) {inode : ℕ} (hinode : w.Unused inode) :
    Begun codec sha256 owner file
      (((w.drew id (file.metadata sha256 owner)).created id.partName h inode).locked h inode)
      ⟨h, file.metadata sha256 owner, id, 0⟩ inode where
  kept := by
    have hsome : (w.drew id (file.metadata sha256 owner)).drawn id ≠ none := by
      simp [FolderWorld.drew]
    exact ((hidle.kept.drew id).created hsome (.inl rfl) hinode).locked h inode
  drawn := Function.update_self ..
  part := by
    have hempty : Function.update w.contents inode [] inode = [] := Function.update_self ..
    refine ⟨Function.update_self .., Function.update_self .., ?_, ?_⟩
    · change Function.update w.files h _ = Function.update _ h (some ⟨inode, (Function.update
        w.contents inode [] inode).length, ()⟩)
      rw [hidle.files, hempty]
      rfl
    · change Function.update w.locks inode _ = _
      rw [hidle.locks]
  empty := Function.update_self ..
  free := by
    change Function.update w.entries _ _ _ = _
    rw [Function.update_of_ne TransferId.partName_ne_metaName.symm]
    exact hidle.kept.fresh id hid _ (.inr rfl)

/-- With its record it is held. -/
theorem Begun.holding {transfer : IncomingTransfer δ} {inode inode' : ℕ} {h : Handle}
    (hbegun : Begun codec sha256 owner file w transfer inode)
    (hmetadata : transfer.metadata = file.metadata sha256 owner) (hoffset : transfer.offset = 0)
    (hh : w.files h = none) (hinode : w.Unused inode') :
    Holding codec sha256 owner file none (((w.created transfer.id.metaName h inode').appended h
      inode' (codec.encode (file.metadata sha256 owner))).closed h) transfer [] := by
  obtain ⟨hkept, hdrawn, hpart, hempty, hfree⟩ := hbegun
  have hne : inode ≠ inode' := by
    rintro rfl
    exact hinode.1 _ hpart.entry
  have hne' : transfer.file ≠ h := by
    rintro rfl
    rw [hpart.files, Function.update_self] at hh
    cases hh
  have hrecord : ((w.created transfer.id.metaName h inode').appended h inode'
      (codec.encode (file.metadata sha256 owner))).contents inode' =
      codec.encode (file.metadata sha256 owner) := by
    rw [appended_contents, Function.update_self, created_contents, Function.update_self]
    rfl
  have hcontents : ((w.created transfer.id.metaName h inode').appended h inode'
      (codec.encode (file.metadata sha256 owner))).contents inode = [] := by
    rw [appended_contents, Function.update_of_ne hne, created_contents, Function.update_of_ne hne,
      hempty]
  have hentry : Function.update w.entries transfer.id.metaName (some inode') transfer.id.partName =
      some inode := by
    rw [Function.update_of_ne TransferId.partName_ne_metaName, hpart.entry]
  have horigin : Function.update w.origin inode' (some transfer.id.metaName) inode =
      some transfer.id.partName := by
    rw [Function.update_of_ne hne, hpart.origin]
  have hsome : w.drawn transfer.id ≠ none := by simp [hdrawn]
  have hkept' := ((hkept.created hsome (.inr rfl) hinode (h := h)).appended h
    (codec.encode (file.metadata sha256 owner)) (.inr rfl) (Function.update_self ..)).closed h
  refine ⟨hkept'.all ⟨⟨inode', Function.update_self .., Function.update_self .., hrecord⟩, inode,
    hentry, horigin, hcontents ▸ List.nil_prefix⟩, by rintro ⟨⟩, hmetadata, hdrawn, hoffset,
    List.nil_prefix, inode, ⟨hentry, horigin, ?_, ?_⟩, hcontents⟩
  · have hclosed : Function.update w.files h none = w.files := by rw [← hh, Function.update_eq_self]
    calc (((w.created transfer.id.metaName h inode').appended h inode'
        (codec.encode (file.metadata sha256 owner))).closed h).files
        = w.files := by
          rw [closed_files, appended_files, created_files, Function.update_idem,
            Function.update_idem, hclosed]
      _ = _ := by
          rw [hpart.files, hempty]
          exact congrArg (fun bytes : List UInt8 => Function.update (fun _ => none) transfer.file
            (some (⟨inode, bytes.length, ()⟩ : OpenFile Unit))) hcontents.symm
  · refine Eq.trans (funext fun i => if_neg ?_) hpart.locks
    change w.locks i ≠ some h
    rw [hpart.locks, Function.update_apply]
    split
    · simpa using hne'
    · simp

/-- `begin` holds a new transfer. -/
theorem begin_holds (hconsent : consent.require .fileManager = .ok ())
    (hidle : Idle codec sha256 owner file none w) (hleft : ∃ id, w.drawn id = none) :
    Halts (faultless δ) (fun r w' => ∃ transfer, r = .ok transfer ∧
      Holding codec sha256 owner file none w' transfer [])
      (Receiver.begin codec consent owner (file.manifest sha256)) w := by
  rw [Receiver.begin, requireFiles_bind hconsent]
  refine Halts.check ⟨file.valid, file.length_le_max⟩ ?_
  apply gets_symlinkMetadata hidle.kept.destination
  refine gets_fillBytes hleft fun id hid => ?_
  have hencode := codec.toAllocvec_eq _ (file.metadata_valid sha256 owner).fits
  have hdrew := hidle.kept.drew id
  have hpart : (w.drew id (file.metadata sha256 owner)).entries id.partName = none :=
    hidle.kept.fresh id hid _ (.inl rfl)
  change Gets _
    (Fallible.ofExcept ((codec.toAllocvec (file.metadata sha256 owner)).mapError _) >>= _) _
  rw [hencode]
  refine gets_createNew hpart hdrew.room fun h inode hh hinode => ?_
  have hnolock : (w.drew id (file.metadata sha256 owner)).locks inode = none :=
    congrFun hidle.locks inode
  apply gets_tryLockExclusive (Function.update_self ..) hnolock
  change Gets _ (Prog.bind (Fallible.lift (Receiver.writeMetadata id _)) _) _
  rw [Fallible.lift, Prog.bind_assoc]
  have hbegun := hidle.begun hid h hinode
  apply Halts.bind (writeMetadata_ends hbegun.free hbegun.kept.room)
  rintro _ _ ⟨rfl, h', inode', hh', hinode', rfl⟩
  apply gets_tryClone
  exact Halts.ret ⟨_, rfl, hbegun.holding rfl rfl hh' hinode'⟩

/-- `begin` refuses a file that is there already. -/
theorem begin_refuses (hconsent : consent.require .fileManager = .ok ()) {id : TransferId}
    (hidle : Idle codec sha256 owner file (some id) w) :
    Halts (faultless δ) (fun r w' => (∃ e, r = .error e) ∧ w' = w)
      (Receiver.begin codec consent owner (file.manifest sha256)) w := by
  obtain ⟨inode, hentry, -⟩ := hidle.kept.destination.entry
  rw [Receiver.begin, requireFiles_bind hconsent]
  refine Halts.check ⟨file.valid, file.length_le_max⟩ ?_
  exact gets_symlinkMetadata_there (Option.isSome_of_eq_some hentry) (Halts.ret ⟨⟨_, rfl⟩, rfl⟩)

/-- The record of a transfer is read, and the folder is as before. -/
theorem readMetadata_ends {metadata : Metadata δ} (hvalid : metadata.Valid) {id : TransferId}
    {record : ℕ} (hrecord : w.entries id.metaName = some record)
    (hencoded : w.contents record = codec.encode metadata) (hroom : w.Room)
    (hlocks : ∀ inode h, w.locks inode = some h → w.files h ≠ none) :
    Halts (faultless δ) (fun r w' => r = .ok metadata ∧ w' = w)
      (Receiver.readMetadata codec metadata.owner id) w := by
  have hshort := hvalid.length_encode codec
  refine gets_open (.inl rfl) hrecord hroom fun h hh => ?_
  have hread : (w.opened h ⟨record, 0, ()⟩).contents record = codec.encode metadata := hencoded
  change Gets _ (Prog.bind (Prog.bind (readToEnd h _) _) _) _
  rw [Prog.bind_assoc]
  refine gets_readToEnd files_opened (by rw [hread]; omega) fun position => ?_
  rw [hread]
  apply gets_close
  have hsame : ((w.opened h ⟨record, 0, ()⟩).moved h ⟨record, 0, ()⟩ position).closed h = w := by
    rw [FolderWorld.moved, opened_opened]
    exact closed_opened hh fun inode hlock => hlocks inode h hlock hh
  rw [hsame]
  apply Halts.check hshort
  change Gets _ (Fallible.ofExcept ((codec.takeFromBytes _).mapError _) >>= _) _
  rw [codec.round_trip _ hvalid.fits]
  refine Halts.check ⟨rfl, hvalid.version, hvalid.name, hvalid.size⟩ ?_
  apply Halts.check rfl
  exact Halts.ret ⟨rfl, rfl⟩

/-- `resume` returns the transfer at the end of its partial file, which is open and locked. -/
theorem resume_ends (hconsent : consent.require .fileManager = .ok ()) {metadata : Metadata δ}
    (hvalid : metadata.Valid) {id : TransferId} {record part : ℕ}
    (hrecord : w.entries id.metaName = some record)
    (hencoded : w.contents record = codec.encode metadata)
    (hpart : w.entries id.partName = some part) (hunlocked : w.locks part = none)
    (hsize : (w.contents part).length ≤ metadata.manifest.size) (hroom : w.Room)
    (hlocks : ∀ inode h, w.locks inode = some h → w.files h ≠ none) :
    Halts (faultless δ) (fun r w' => ∃ h, w.files h = none ∧
      r = .ok ⟨h, metadata, id, (w.contents part).length⟩ ∧
      w' = (w.locked h part).opened h ⟨part, (w.contents part).length, ()⟩)
      (Receiver.resume codec consent metadata.owner id) w := by
  rw [Receiver.resume, requireFiles_bind hconsent]
  apply Halts.bind (readMetadata_ends hvalid hrecord hencoded hroom hlocks)
  rintro _ w' ⟨rfl, hw'⟩
  rw [hw']
  refine gets_open (.inr rfl) hpart hroom fun h hh => ?_
  refine (owning_ends (Q := fun transfer w' =>
    transfer = ⟨h, metadata, id, (w.contents part).length⟩ ∧
      w' = (w.locked h part).opened h ⟨part, (w.contents part).length, ()⟩) ?_).post ?_
  · refine gets_tryLockExclusive files_opened hunlocked ?_
    refine gets_length files_opened ?_
    apply Halts.check hsize
    refine gets_seek files_opened ?_
    apply gets_tryClone
    refine Halts.ret ⟨_, rfl, rfl, ?_⟩
    exact opened_opened (w := w.locked h part)
  · rintro _ w' ⟨transfer, rfl, htransfer, hworld⟩
    exact ⟨h, hh, by rw [htransfer], hworld⟩

/-- `resume` holds a transfer that was begun. -/
theorem resume_holds (hconsent : consent.require .fileManager = .ok ())
    (hidle : Idle codec sha256 owner file published w) {id : TransferId}
    (hunpublished : published ≠ some id)
    (hid : w.drawn id = some ((), file.metadata sha256 owner)) :
    Halts (faultless δ) (fun r w' => ∃ transfer, r = .ok transfer ∧ ∃ done, transfer.id = id ∧
      Holding codec sha256 owner file published w' transfer done)
      (Receiver.resume codec consent owner id) w := by
  obtain ⟨part, hpart, horigin, hbegins⟩ := (hidle.kept.resumable id trivial hunpublished hid).part
  obtain ⟨record, hrecord, -, hencoded⟩ := (hidle.kept.resumable id trivial hunpublished hid).record
  refine (resume_ends hconsent (file.metadata_valid sha256 owner) hrecord hencoded hpart
    (congrFun hidle.locks part) hbegins.length_le hidle.kept.room
    fun inode h hlock => by simp [hidle.locks] at hlock).post ?_
  rintro _ w' ⟨h, hh, rfl, rfl⟩
  refine ⟨_, rfl, w.contents part, rfl, ?_⟩
  refine ⟨(hidle.kept.locked h part).opened h _, hunpublished, rfl, hid, rfl, hbegins, part,
    ⟨hpart, horigin, ?_, ?_⟩, rfl⟩
  · change Function.update w.files h _ = Function.update _ h _
    rw [hidle.files]
    rfl
  · change Function.update w.locks part _ = _
    rw [hidle.locks]

/-- `resume` finds nothing of a transfer that was published. -/
theorem resume_refuses (hconsent : consent.require .fileManager = .ok ()) {id : TransferId}
    (hidle : Idle codec sha256 owner file (some id) w) :
    Halts (faultless δ) (fun r w' => (∃ e, r = .error e) ∧ w' = w)
      (Receiver.resume codec consent owner id) w := by
  rw [Receiver.resume, requireFiles_bind hconsent]
  exact gets_openRead_missing hidle.kept.destination.record fun e => Halts.ret ⟨⟨_, rfl⟩, rfl⟩

variable {transfer : IncomingTransfer δ} {done : List UInt8}

theorem FolderWorld.PartOpen.is_open {inode : ℕ} (h : PartOpen w transfer inode) :
    w.files transfer.file = some ⟨inode, (w.contents inode).length, ()⟩ := by
  rw [h.files, Function.update_self]

/-- Without it no file is open. -/
theorem FolderWorld.PartOpen.files_closed {inode : ℕ} (h : PartOpen w transfer inode) :
    Function.update w.files transfer.file none = fun _ => none := by
  rw [h.files, Function.update_idem]
  exact Function.update_eq_self _ _

/-- And none is locked. -/
theorem FolderWorld.PartOpen.locks_closed {inode : ℕ} (h : PartOpen w transfer inode) :
    (w.closed transfer.file).locks = fun _ => none := by
  refine funext fun i => ?_
  change (if w.locks i = some transfer.file then none else w.locks i) = none
  rw [h.locks, Function.update_apply]
  split <;> simp_all

/-- What was received is hashed, and the folder is as before. -/
theorem prefixHash_ends {inode : ℕ}
    (hfile : w.files transfer.file = some ⟨inode, transfer.offset, ()⟩) :
    Halts (faultless δ) (fun r w' => r = .ok (sha256 (w.contents inode)) ∧ w' = w)
      (transfer.prefixHash sha256) w := by
  apply gets_seek hfile
  refine gets_hashReader files_opened fun position => ?_
  refine gets_seek files_opened ?_
  refine Halts.ret ⟨rfl, ?_⟩
  rw [FolderWorld.moved, FolderWorld.moved, opened_opened, FolderWorld.moved, opened_opened]
  exact opened_self hfile

/-- The hash of what was received so far is that of the beginning of the file. -/
theorem FolderWorld.Holding.hashes
    (hholding : Holding codec sha256 owner file published w transfer done) :
    Halts (faultless δ) (fun r w' => r = .ok (sha256 done) ∧ w' = w)
      (transfer.prefixHash sha256) w := by
  obtain ⟨inode, hopen, hdone⟩ := hholding.open_part
  have hfile : w.files transfer.file = some ⟨inode, transfer.offset, ()⟩ := by
    rw [hopen.is_open, hholding.offset, hdone]
  rw [← hdone]
  exact prefixHash_ends hfile

variable [DecidableEq δ]

/-- A chunk that fits is added to the partial file. -/
theorem writeChunk_ends (hconsent : consent.require .fileManager = .ok ()) {inode : ℕ}
    {bytes : List UInt8}
    (hfile : w.files transfer.file = some ⟨inode, (w.contents inode).length, ()⟩)
    (hbytes : bytes ≠ []) (hchunk : bytes.length ≤ CHUNK_SIZE)
    (hsize : transfer.offset + bytes.length ≤ transfer.manifest.size)
    (hmax : transfer.manifest.size ≤ MAX_FILE_SIZE) :
    Halts (faultless δ) (fun r w' =>
      r = .ok { transfer with offset := transfer.offset + bytes.length } ∧
        w' = w.appended transfer.file inode bytes)
      (transfer.writeChunk sha256 consent transfer.offset bytes (sha256 bytes)) w := by
  rw [IncomingTransfer.writeChunk, requireFiles_bind hconsent]
  refine Halts.check ⟨rfl, hbytes, hchunk, ?_, hsize⟩ ?_
  · simp only [MAX_FILE_SIZE] at hmax
    omega
  apply Halts.check rfl
  apply gets_writeAll bytes hfile
  exact Halts.ret ⟨rfl, rfl⟩

/-- A chunk that follows in the file is added. -/
theorem writeChunk_holds (hconsent : consent.require .fileManager = .ok ())
    (hholding : Holding codec sha256 owner file published w transfer done) {bytes : List UInt8}
    (hbytes : bytes ≠ []) (hchunk : bytes.length ≤ CHUNK_SIZE)
    (hbegins : done ++ bytes <+: file.content) :
    Halts (faultless δ) (fun r w' => ∃ transfer', r = .ok transfer' ∧
      Holding codec sha256 owner file published w' transfer' (done ++ bytes))
      (transfer.writeChunk sha256 consent done.length bytes (sha256 bytes)) w := by
  obtain ⟨inode, hopen, hdone⟩ := hholding.open_part
  have hlength := hbegins.length_le
  rw [List.length_append] at hlength
  have hsize : transfer.manifest.size = file.content.length := by
    rw [IncomingTransfer.manifest, hholding.metadata]
    rfl
  have hoffset := hholding.offset
  rw [← hoffset]
  refine (writeChunk_ends hconsent hopen.is_open hbytes hchunk (by omega)
    (hsize ▸ file.length_le_max)).post ?_
  rintro _ w' ⟨rfl, rfl⟩
  have hcontents : (w.appended transfer.file inode bytes).contents inode = done ++ bytes := by
    rw [appended_contents, Function.update_self, hdone]
  have hkept := (hholding.kept.but hholding.unpublished).appended transfer.file bytes (.inl rfl)
    hopen.origin
  obtain ⟨record, hrecord, hrecord', hencoded⟩ :=
    (hholding.kept.resumable transfer.id trivial hholding.unpublished hholding.drawn).record
  have hne : record ≠ inode := by
    rintro rfl
    exact TransferId.partName_ne_metaName (Option.some.inj (hopen.origin.symm.trans hrecord'))
  have hencoded' : (w.appended transfer.file inode bytes).contents record =
      codec.encode (file.metadata sha256 owner) := by
    rw [appended_contents, Function.update_of_ne hne, hencoded]
  refine ⟨_, rfl, hkept.all ⟨⟨record, hrecord, hrecord', hencoded'⟩, inode, hopen.entry,
    hopen.origin, hcontents ▸ hbegins⟩, hholding.unpublished, hholding.metadata, hholding.drawn, ?_,
    hbegins, inode, ⟨hopen.entry, hopen.origin, ?_, hopen.locks⟩, hcontents⟩
  · rw [List.length_append, ← hholding.offset]
  · rw [hcontents, appended_files, hopen.files, Function.update_idem, hdone]

/-- A whole file is published, under a name that is free. -/
theorem finish_ends (hconsent : consent.require .fileManager = .ok ())
    (transfer : IncomingTransfer δ) {inode record : ℕ} (hvalid : transfer.metadata.Valid)
    (hfile : w.files transfer.file = some ⟨inode, transfer.offset, ()⟩)
    (hpart : w.entries transfer.id.partName = some inode)
    (hrecord : w.entries transfer.id.metaName = some record)
    (hsize : transfer.offset = transfer.manifest.size)
    (hhash : sha256 (w.contents inode) = transfer.manifest.sha256)
    (hfree : w.entries transfer.manifest.name = none) :
    Halts (faultless δ) (fun r w' => r = .ok transfer.manifest ∧
      w' = (w.publish transfer.manifest.name transfer.id inode).closed transfer.file)
      (transfer.finish sha256 consent) w := by
  have hpart' : transfer.id.partName ≠ transfer.manifest.name := fun heq =>
    validName_not_own hvalid.name (heq ▸ TransferId.Owns.isOwn (.inl rfl))
  have hmeta : transfer.id.metaName ≠ transfer.manifest.name := fun heq =>
    validName_not_own hvalid.name (heq ▸ TransferId.Owns.isOwn (.inr rfl))
  rw [IncomingTransfer.finish, requireFiles_bind hconsent]
  refine Halts.seq (Q := fun _ w' => w' = w.publish transfer.manifest.name transfer.id inode)
    (owning_ends ?_) fun _ w' hpublished => ?_
  · apply Halts.check hsize
    apply Halts.bind (prefixHash_ends hfile)
    rintro _ w' ⟨rfl, hw'⟩
    rw [hw']
    apply Halts.check hhash
    apply gets_syncAll hfile
    apply gets_hardLink hpart hfree
    refine gets_removeFile (i := inode) ?_ ?_
    · change Function.update w.entries _ _ _ = _
      rw [Function.update_of_ne hpart', hpart]
    refine gets_removeFile (i := record) ?_ ?_
    · change Function.update (Function.update w.entries _ _) _ _ _ = _
      rw [Function.update_of_ne TransferId.partName_ne_metaName.symm, Function.update_of_ne hmeta,
        hrecord]
    exact Halts.ret ⟨(), rfl, rfl⟩
  · rw [hpublished]
    apply gets_close
    exact Halts.ret ⟨rfl, rfl⟩

/-- Under a name that is taken it is not. -/
theorem finish_fails (hconsent : consent.require .fileManager = .ok ())
    (transfer : IncomingTransfer δ) {inode : ℕ}
    (hfile : w.files transfer.file = some ⟨inode, transfer.offset, ()⟩)
    (hsize : transfer.offset = transfer.manifest.size)
    (hhash : sha256 (w.contents inode) = transfer.manifest.sha256)
    (htaken : (w.entries transfer.manifest.name).isSome) :
    Halts (faultless δ) (fun r w' => (∃ e, r = .error e) ∧ w' = w.closed transfer.file)
      (transfer.finish sha256 consent) w := by
  rw [IncomingTransfer.finish, requireFiles_bind hconsent]
  refine Halts.bind (Q := fun (r : Except FileError Unit) w' =>
    (∃ e, r = .error e) ∧ w' = w.closed transfer.file) (owning_fails ?_) ?_
  · apply Halts.check hsize
    apply Halts.bind (prefixHash_ends hfile)
    rintro _ w' ⟨rfl, rfl⟩
    apply Halts.check hhash
    apply gets_syncAll hfile
    exact gets_hardLink_taken htaken fun e => Halts.ret ⟨⟨_, rfl⟩, rfl⟩
  · rintro _ _ ⟨⟨e, rfl⟩, rfl⟩
    exact Halts.ret ⟨⟨e, rfl⟩, rfl⟩

omit [DecidableEq δ] in
/-- What a transfer that was received whole is, for `finish`. -/
theorem FolderWorld.Holding.whole
    (hholding : Holding codec sha256 owner file published w transfer file.content) :
    transfer.manifest = file.manifest sha256 ∧ ∃ inode, PartOpen w transfer inode ∧
      w.contents inode = file.content ∧
      w.files transfer.file = some ⟨inode, transfer.offset, ()⟩ := by
  obtain ⟨inode, hopen, hdone⟩ := hholding.open_part
  refine ⟨?_, inode, hopen, hdone, ?_⟩
  · rw [IncomingTransfer.manifest, hholding.metadata]
    rfl
  · rw [hopen.is_open, hholding.offset, hdone]

/-- The whole file is published. -/
theorem finish_receives (hconsent : consent.require .fileManager = .ok ())
    (hholding : Holding codec sha256 owner file none w transfer file.content) :
    Halts (faultless δ) (fun r w' => r = .ok (file.manifest sha256) ∧
      Idle codec sha256 owner file (some transfer.id) w')
      (transfer.finish sha256 consent) w := by
  obtain ⟨hmanifest, inode, hopen, hdone, hfile⟩ := hholding.whole
  obtain ⟨record, hrecord, -, -⟩ :=
    (hholding.kept.resumable transfer.id trivial hholding.unpublished hholding.drawn).record
  have hvalid : transfer.metadata.Valid := by
    rw [hholding.metadata]
    exact file.metadata_valid sha256 owner
  refine (finish_ends hconsent transfer hvalid hfile hopen.entry hrecord ?_ ?_ ?_).post ?_
  · rw [hmanifest]
    exact hholding.offset
  · rw [hmanifest, hdone]
    rfl
  · rw [hmanifest]
    exact hholding.kept.destination
  · rintro _ w' ⟨rfl, rfl⟩
    rw [hmanifest]
    exact ⟨rfl, (hholding.kept.publish hholding.drawn hopen.origin hdone).closed _,
      hopen.files_closed, hopen.locks_closed⟩

/-- A file that was received already is not published again. -/
theorem finish_refuses (hconsent : consent.require .fileManager = .ok ()) {id : TransferId}
    (hholding : Holding codec sha256 owner file (some id) w transfer file.content) :
    Halts (faultless δ) (fun r w' => (∃ e, r = .error e) ∧ w' = w.closed transfer.file)
      (transfer.finish sha256 consent) w := by
  obtain ⟨hmanifest, inode, hopen, hdone, hfile⟩ := hholding.whole
  refine finish_fails hconsent transfer hfile ?_ ?_ ?_
  · rw [hmanifest]
    exact hholding.offset
  · rw [hmanifest, hdone]
    rfl
  · obtain ⟨i, hentry, -⟩ := hholding.kept.destination.entry
    rw [hmanifest]
    exact Option.isSome_of_eq_some hentry

omit [DecidableEq δ] in
/-- A transfer that is dropped can be resumed. -/
theorem FolderWorld.Holding.closed
    (hholding : Holding codec sha256 owner file published w transfer done) :
    Idle codec sha256 owner file published (w.closed transfer.file) := by
  obtain ⟨inode, hopen, -⟩ := hholding.open_part
  exact ⟨hholding.kept.closed _, hopen.files_closed, hopen.locks_closed⟩

end Receiving

end SensorRemote
