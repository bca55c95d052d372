import SensorRemote.FolderInvariant
import SensorRemote.MetadataRecord

/-!
# Safety of the receive folder

Peers have the receiver begin, resume, write, pause, cancel and finish transfers, any number of them
at once, and any of them may vanish between two file system calls. Files that are nobody's own stay
as they are, `finish` returns a manifest only of a file that is there, and no call touches the
transfers of another owner.

The proof is by outlines, one program at a time. What a thread knows between two of its calls is
written as an assertion about the folder: that it has a file open (`Has`), that it holds the lock of
a partial file whose bytes it knows something of (`Holds`, `Held`), that it is in the middle of
writing or reading metadata (`Recording`, `Reading`). The `regime` says what the threads keep
between them:

* the invariant is that the folder is sound, and that whatever is noted as finished is published;

* a step guarantees that it evolves the folder, moves only files of its own owner, and leaves the
  other threads what they have;

* so an assertion is stable if it survives `Leaves`, which is checked once for each kind of
  assertion.

Every function of the receiver then has one outline, which says where it leaves the folder when it
succeeds and when it fails. The three statements about runs are read off the regime: the invariant
gives the second, and the guarantee of a step the first and the third.
-/

namespace SensorRemote

open Program Transition

variable {ι δ : Type}

/-! ## Calls -/

section Calls

variable [DecidableEq δ] (codec : MetadataCodec δ) (sha256 : List UInt8 → δ) (owner : PublicKey)

/-- A call made for the owner, under a consent: the transfer that is open after it. What the call
returned is noted in the folder's ghost list, which no program reads. -/
def carryOut (consent : Consent) : Option (IncomingTransfer δ) → FileCall δ →
    Prog (FileOp δ) (Option (IncomingTransfer δ))
  | none, .begin manifest => Prog.bind (Receiver.begin codec consent owner manifest) fun
    | .ok transfer => .op (.note (.began transfer.id)) fun _ => .ret (some transfer)
    | .error _ => .ret none
  | none, .resume id => Prog.bind (Receiver.resume codec consent owner id) fun
    | .ok transfer => .ret (some transfer)
    | .error _ => .ret none
  | none, _ => .ret none
  | some transfer, .prefixHash => Prog.bind (transfer.prefixHash sha256) fun
    | .ok _ => .ret (some transfer)
    | .error _ => .op (.close transfer.file) fun _ => .ret none
  | some transfer, .writeChunk offset bytes checksum =>
    Prog.bind (transfer.writeChunk sha256 consent offset bytes checksum) fun
    | .ok transfer => .ret (some transfer)
    -- `operate` drops the transfer when a write fails
    | .error (.io _) => .op (.close transfer.file) fun _ => .ret none
    | .error _ => .ret (some transfer)
  | some transfer, .pause => Prog.bind transfer.pause fun _ => .ret none
  | some transfer, .cancel => .op (.note (.cancels transfer.id)) fun _ =>
    Prog.bind (transfer.cancel consent) fun _ => .ret none
  | some transfer, .finish => Prog.bind (transfer.finish sha256 consent) fun
    | .ok manifest => .op (.note (.finished manifest)) fun _ => .ret none
    | .error _ => .ret none
  | some transfer, _ => .op (.close transfer.file) fun _ => .ret none

/-- The calls made for the owner, one after the other, each under the consent of its moment, as the
consent may change while a transfer is open. -/
def calls (consent : ℕ → Consent) : Prog (FileOp δ) Unit :=
  Prog.forever ((0, none) : ℕ × Option (IncomingTransfer δ)) fun (n, held) =>
    .op (.next (held.map IncomingTransfer.id)) fun call =>
      Prog.bind (carryOut codec sha256 owner (consent n) held call) fun held =>
        .ret (.inl (n + 1, held))

end Calls

/-- A folder in which no transfer was begun yet; any other files may be there. -/
structure FolderWorld.Fresh (w : FolderWorld ι δ) : Prop where
  entries : ∀ name, IsOwn name → w.entries name = none
  files : ∀ h, w.files h = none
  locks : ∀ inode, w.locks inode = none
  drawn : ∀ id, w.drawn id = none
  origin : ∀ inode, w.origin inode = none
  finished : w.finished = []

/-- The receive folder and the threads that use it, each for an owner: any interleaving of their
file system calls, with any answers. -/
def receiving [DecidableEq ι] [DecidableEq δ] (codec : MetadataCodec δ) (sha256 : List UInt8 → δ)
    (owner : ι → PublicKey) (consent : ι → ℕ → Consent) :
    LTS (Pool (FileOp δ) ι (FolderWorld ι δ)) ι :=
  pool (receiveFolder ι δ) (fun i => calls codec sha256 (owner i) (consent i)) FolderWorld.Fresh

namespace FolderSafety

/-! ## What a thread knows -/

section Knowledge

variable {i : ι} {w w' : FolderWorld ι δ}

/-- The thread has the file open. -/
def Has (i : ι) (h : Handle) (w : FolderWorld ι δ) : Prop :=
  ∃ file, w.files h = some file ∧ file.thread = i

/-- The identifier was drawn for this transfer. -/
def Drawn (id : TransferId) (metadata : Metadata δ) (w : FolderWorld ι δ) : Prop :=
  ∃ j, w.drawn id = some (j, metadata)

/-- The partial file of a transfer is open in the thread, at a position, and is still the file that
was created under the transfer's name. -/
structure HasPart (i : ι) (file : Handle) (id : TransferId) (metadata : Metadata δ)
    (position inode : ℕ) (w : FolderWorld ι δ) : Prop where
  file : w.files file = some ⟨inode, position, i⟩
  origin : w.origin inode = some id.partName
  begun : ∃ j, w.drawn id = some (j, metadata) ∧ (j = i ∨ w.Created id.metaName)

/-- The partial file is locked by the thread, and `C` is known of what is in it. -/
def Holds (i : ι) (file : Handle) (id : TransferId) (metadata : Metadata δ) (position : ℕ)
    (C : List UInt8 → Prop) (w : FolderWorld ι δ) : Prop :=
  ∃ inode, HasPart i file id metadata position inode w ∧ w.locks inode = some file ∧
    C (w.contents inode)

variable {file : Handle} {id : TransferId} {metadata : Metadata δ} {position inode : ℕ}
  {C : List UInt8 → Prop}

/-- An open partial file is still open after the steps of the others. -/
theorem HasPart.spared (h : HasPart i file id metadata position inode w) (hevolves : w.Evolves w')
    (hspares : w.Spares file w') : HasPart i file id metadata position inode w' := by
  obtain ⟨hfile, horigin, j, hdrawn, hbegun⟩ := h
  exact ⟨hspares.file _ hfile, hevolves.origin _ _ horigin, j, hevolves.drawn _ _ hdrawn,
    hbegun.imp_right hevolves.created⟩

/-- The lock keeps the others from writing, so what is known of the bytes stays known. -/
theorem Holds.spared (h : Holds i file id metadata position C w) (hevolves : w.Evolves w')
    (hspares : w.Spares file w') : Holds i file id metadata position C w' := by
  obtain ⟨inode, hpart, hlock, hC⟩ := h
  refine ⟨inode, hpart.spared hevolves hspares, hspares.lock _ hlock, ?_⟩
  rwa [hspares.contents inode id hlock hpart.origin]

theorem Holds.has (h : Holds i file id metadata position C w) : Has i file w := by
  obtain ⟨inode, hpart, -⟩ := h
  exact ⟨_, hpart.file, rfl⟩

theorem Holds.drawn (h : Holds i file id metadata position C w) : Drawn id metadata w := by
  obtain ⟨inode, ⟨-, -, j, hdrawn, -⟩, -⟩ := h
  exact ⟨j, hdrawn⟩

/-- What is known of the bytes may be forgotten. -/
theorem Holds.mono {C' : List UInt8 → Prop} (h : Holds i file id metadata position C w)
    (hC : ∀ contents, C contents → C' contents) : Holds i file id metadata position C' w := by
  obtain ⟨inode, hpart, hlock, hcontents⟩ := h
  exact ⟨inode, hpart, hlock, hC _ hcontents⟩

/-- A file that a thread has open is its own to read, seek, lock and close. -/
theorem Has.mine {h : Handle} (hhas : Has i h w) : w.Mine i h := by
  obtain ⟨file, hfile, hi⟩ := hhas
  intro file' hfile'
  obtain rfl := Option.some.inj (hfile.symm.trans hfile')
  exact hi

theorem Drawn.evolves (h : Drawn id metadata w) (hevolves : w.Evolves w') :
    Drawn id metadata w' := by
  obtain ⟨j, hdrawn⟩ := h
  exact ⟨j, hevolves.drawn _ _ hdrawn⟩

/-! ### Operations on the partial file -/

/-- The lock is free and is taken now, or the call fails. -/
theorem HasPart.lock (h : HasPart i file id metadata position inode w) (hC : C (w.contents inode))
    (hdoes : w.Does i (.tryLockExclusive file : FileOp δ _) (.ok ()) w') :
    Holds i file id metadata position C w' := by
  obtain ⟨open_, hopen, -, rfl⟩ := hdoes
  obtain rfl := Option.some.inj (h.file.symm.trans hopen)
  exact ⟨inode, ⟨h.file, h.origin, h.begun⟩, Function.update_self .., hC⟩

/-- Seeking changes the position only. -/
theorem Holds.seek (h : Holds i file id metadata position C w) {position' : ℕ}
    (hdoes : w.Does i (.seek file position' : FileOp δ _) (.ok ()) w') :
    Holds i file id metadata position' C w' := by
  obtain ⟨inode, hpart, hlock, hC⟩ := h
  obtain ⟨open_, hopen, rfl⟩ := hdoes
  obtain rfl := Option.some.inj (hpart.file.symm.trans hopen)
  exact ⟨inode, ⟨Function.update_self .., hpart.origin, hpart.begun⟩, hlock, hC⟩

/-- What is read comes next in the file, and nothing does only at its end. -/
theorem Holds.read (h : Holds i file id metadata position C w) {limit : ℕ} {data : List UInt8}
    (hdoes : w.Does i (.read file limit : FileOp δ _) (.ok data) w') :
    Holds i file id metadata (position + data.length) (fun contents => C contents ∧
      data <+: contents.drop position ∧
        (data = [] → limit = 0 ∨ contents.length ≤ position)) w' := by
  obtain ⟨inode, hpart, hlock, hC⟩ := h
  obtain ⟨open_, hopen, -, hdata, hend, rfl⟩ := hdoes
  obtain rfl := Option.some.inj (hpart.file.symm.trans hopen)
  exact ⟨inode, ⟨Function.update_self .., hpart.origin, hpart.begun⟩, hlock, hC, hdata, hend⟩

/-- The length of a locked file is learnt, and stays what it is. -/
theorem Holds.length (h : Holds i file id metadata position C w) {n : ℕ}
    (hdoes : w.Does i (.length file : FileOp δ _) (.ok n) w') :
    Holds i file id metadata position (fun contents => C contents ∧ contents.length = n) w' := by
  obtain ⟨inode, hpart, hlock, hC⟩ := h
  obtain ⟨rfl, open_, hopen, hlength⟩ := hdoes
  obtain rfl := Option.some.inj (hpart.file.symm.trans hopen)
  exact ⟨inode, hpart, hlock, hC, hlength.symm⟩

/-- What is written at the end is added. -/
theorem Holds.write (h : Holds i file id metadata position (·.length = position) w)
    {bytes : List UInt8} {count : ℕ}
    (hdoes : w.Does i (.write file bytes : FileOp δ _) (.ok count) w') :
    count ≤ bytes.length ∧
      Holds i file id metadata (position + count) (·.length = position + count) w' := by
  obtain ⟨inode, hpart, hlock, rfl⟩ := h
  obtain ⟨open_, hopen, hcount, rfl⟩ := hdoes
  obtain rfl := Option.some.inj (hpart.file.symm.trans hopen)
  refine ⟨hcount, inode, ⟨Function.update_self .., hpart.origin, hpart.begun⟩, hlock, ?_⟩
  simp [FolderWorld.overwrite_end, hcount]

/-- It may be written up to the size of the manifest. -/
theorem Holds.mayWrite {codec : MetadataCodec δ} {owner : ι → PublicKey}
    (h : Holds i file id metadata position (·.length = position) w)
    (howner : metadata.owner = owner i) {bytes : List UInt8} (hsome : bytes ≠ [])
    (hfits : position + bytes.length ≤ metadata.manifest.size) :
    w.MayWrite codec owner i file bytes := by
  obtain ⟨inode, ⟨hfile, horigin, j, hdrawn, hbegun⟩, hlock, rfl⟩ := h
  exact .part hfile horigin hlock hdrawn hbegun howner hsome hfits

/-- The transfer is open and locked, and stands at the end of its file: this is what an open
`IncomingTransfer` means. -/
def Held (i : ι) (transfer : IncomingTransfer δ) (w : FolderWorld ι δ) : Prop :=
  Holds i transfer.file transfer.id transfer.metadata transfer.offset
    (·.length = transfer.offset) w

theorem Held.has {transfer : IncomingTransfer δ} (h : Held i transfer w) :
    Has i transfer.file w := Holds.has h

/-- The transfer is the owner's, and its manifest has a name that a peer may give, so it may be
published. -/
structure Proper (owner : PublicKey) (transfer : IncomingTransfer δ) : Prop where
  mine : transfer.metadata.owner = owner
  destination : ¬IsOwn transfer.manifest.name

/-! ### Metadata -/

/-- The metadata of a transfer is being read, and begins with these bytes. -/
def Reading (i : ι) (record : Handle) (id : TransferId) (bytes : List UInt8)
    (w : FolderWorld ι δ) : Prop :=
  ∃ inode, w.files record = some ⟨inode, bytes.length, i⟩ ∧
    w.origin inode = some id.metaName ∧ bytes <+: w.contents inode

/-- The metadata of the transfer begins with these bytes; the record they belong to is the one that
was drawn with the identifier. -/
def Read (codec : MetadataCodec δ) (id : TransferId) (bytes : List UInt8)
    (w : FolderWorld ι δ) : Prop :=
  w.Created id.metaName ∧ ∃ metadata, metadata.Fits ∧ Drawn id metadata w ∧
    bytes <+: codec.encode metadata

/-- The transfer was begun with this metadata: its record is there, so its writing is over. -/
def Begun (id : TransferId) (metadata : Metadata δ) (w : FolderWorld ι δ) : Prop :=
  w.Created id.metaName ∧ Drawn id metadata w

theorem Reading.has {record : Handle} {bytes : List UInt8}
    (h : Reading i record id bytes w) : Has i record w := by
  obtain ⟨inode, hfile, -⟩ := h
  exact ⟨_, hfile, rfl⟩

/-- Only `begin` makes metadata, and that of the transfer it draws. So a record that decodes says
what was drawn. -/
theorem Reading.read {codec : MetadataCodec δ} {owner : ι → PublicKey} {record : Handle}
    {bytes : List UInt8} (h : Reading i record id bytes w) (hsound : w.Sound codec owner) :
    Read codec id bytes w := by
  obtain ⟨inode, -, horigin, hbytes⟩ := h
  obtain ⟨id', ⟨j, metadata⟩, hdrawn, howns⟩ := hsound.drawn inode _ horigin
  obtain rfl := howns.unique (.inr rfl)
  exact ⟨⟨inode, horigin⟩, metadata, hsound.fits _ _ _ hdrawn, ⟨j, hdrawn⟩,
    hbytes.trans (hsound.records inode id' j metadata horigin hdrawn)⟩

/-! ### Beginning -/

/-- The thread drew the identifier, and its metadata is not there yet. No other thread can open the
transfer before. -/
structure Beginning (i : ι) (id : TransferId) (metadata : Metadata δ) (w : FolderWorld ι δ) :
    Prop where
  drawn : w.drawn id = some (i, metadata)
  unrecorded : ¬w.Created id.metaName

/-- The partial file is there and empty, and the thread has locked it. -/
structure Kept (i : ι) (file : Handle) (id : TransferId) (metadata : Metadata δ)
    (w : FolderWorld ι δ) : Prop where
  drawn : w.drawn id = some (i, metadata)
  held : Holds i file id metadata 0 (· = []) w

/-- The metadata of the transfer is open. -/
def HasRecord (i : ι) (record : Handle) (id : TransferId) (w : FolderWorld ι δ) : Prop :=
  ∃ inode position, w.files record = some ⟨inode, position, i⟩ ∧ w.origin inode = some id.metaName

/-- The metadata is being written, and `rest` is left of its encoding. -/
def Recording (codec : MetadataCodec δ) (i : ι) (record : Handle) (id : TransferId)
    (metadata : Metadata δ) (rest : List UInt8) (w : FolderWorld ι δ) : Prop :=
  ∃ inode, w.files record = some ⟨inode, (w.contents inode).length, i⟩ ∧
    w.origin inode = some id.metaName ∧ w.contents inode ++ rest = codec.encode metadata

theorem Recording.hasRecord {codec : MetadataCodec δ} {record : Handle} {rest : List UInt8}
    (h : Recording codec i record id metadata rest w) : HasRecord i record id w := by
  obtain ⟨inode, hfile, horigin, -⟩ := h
  exact ⟨inode, _, hfile, horigin⟩

/-- The partial file was just created by the thread, and nothing is in it. -/
def Started (i : ι) (file : Handle) (id : TransferId) (metadata : Metadata δ)
    (w : FolderWorld ι δ) : Prop :=
  Beginning i id metadata w ∧
    ∃ inode, HasPart i file id metadata 0 inode w ∧ w.contents inode = []

theorem HasRecord.has {record : Handle} (h : HasRecord i record id w) : Has i record w := by
  obtain ⟨inode, position, hfile, -⟩ := h
  exact ⟨_, hfile, rfl⟩

/-- The partial file and the metadata are open one beside the other, under different handles. -/
theorem HasRecord.ne {record : Handle} (h : HasRecord i record id w)
    (hholds : Holds i file id metadata position C w) : record ≠ file := by
  rintro rfl
  obtain ⟨inode, position', hfile, horigin⟩ := h
  obtain ⟨inode', ⟨hfile', horigin', -⟩, -⟩ := hholds
  obtain ⟨rfl, -⟩ := OpenFile.mk.inj (Option.some.inj (hfile.symm.trans hfile'))
  exact TransferId.partName_ne_metaName (Option.some.inj (horigin'.symm.trans horigin))

theorem Kept.spared (h : Kept i file id metadata w) (hevolves : w.Evolves w')
    (hspares : w.Spares file w') : Kept i file id metadata w' :=
  ⟨hevolves.drawn _ _ h.drawn, h.held.spared hevolves hspares⟩

end Knowledge

/-! ## The regime -/

variable [DecidableEq ι]

/-- What the threads keep between them: a sound folder with its finished files published, and in
each step the others' knowledge. A thread that vanishes keeps all of it, as it only lets go of its
files. -/
def regime (codec : MetadataCodec δ) (sha256 : List UInt8 → δ) (owner : ι → PublicKey) :
    Regime (receiveFolder ι δ) where
  inv w := w.Sound codec owner ∧
    ∀ manifest ∈ w.finished, ¬IsOwn manifest.name ∧ w.Publishes sha256 manifest
  guar i w w' := w.Evolves w' ∧ FolderWorld.Moves owner i w w' ∧ ∀ j, i ≠ j → w.Leaves j w'
  rely j w w' := w.Leaves j w'
  compatible i j w w' hij _ _ hguar := hguar.2.2 j hij
  vanishing := by
    rintro i w _ ⟨hsound, hfinished⟩ rfl
    have hsame : w.SameFolder (w.without i) := FolderWorld.sameFolder_without
    refine ⟨⟨hsound.sameFolder hsame, fun manifest hmem => ?_⟩, hsame.evolves, hsame.moves,
      fun j hij => FolderWorld.leaves_without owner hij⟩
    obtain ⟨hown, hpublishes⟩ := hfinished manifest hmem
    exact ⟨hown, hsame.evolves.publishes hown hpublishes⟩

variable {codec : MetadataCodec δ} {sha256 : List UInt8 → δ} {owner : ι → PublicKey} {i : ι}
  {file : Handle} {id : TransferId} {metadata : Metadata δ} {position : ℕ} {C : List UInt8 → Prop}

variable (codec sha256 owner) in
/-- The assertion of thread `i` is stable: steps of the others do not make it false. -/
abbrev Stable (i : ι) (P : FolderWorld ι δ → Prop) : Prop :=
  (regime codec sha256 owner).Stable i P

theorem stable_true : Stable codec sha256 owner i fun _ => True := fun _ _ _ _ h _ => h

theorem stable_and {P Q : FolderWorld ι δ → Prop} (hP : Stable codec sha256 owner i P)
    (hQ : Stable codec sha256 owner i Q) : Stable codec sha256 owner i fun w => P w ∧ Q w :=
  fun w w' hw hw' h hrely => ⟨hP w w' hw hw' h.1 hrely, hQ w w' hw hw' h.2 hrely⟩

/-- An open file stays open in the thread that opened it. -/
theorem stable_has {h : Handle} : Stable codec sha256 owner i (Has i h) := by
  rintro w w' - - ⟨file, hfile, hi⟩ hleaves
  exact ⟨file, (hleaves.files h file hfile hi).file file hfile, hi⟩

theorem stable_drawn : Stable codec sha256 owner i (Drawn id metadata) :=
  fun _ _ _ _ h hleaves => h.evolves hleaves.toEvolves

theorem stable_hasPart :
    Stable codec sha256 owner i fun w => ∃ inode, HasPart i file id metadata position inode w := by
  rintro w w' - - ⟨inode, hpart⟩ hleaves
  exact ⟨inode, hpart.spared hleaves.toEvolves (hleaves.files _ _ hpart.file rfl)⟩

/-- A locked partial file stays as it is. -/
theorem stable_holds : Stable codec sha256 owner i (Holds i file id metadata position C) := by
  intro w w' _ _ hholds hleaves
  have hspares : w.Spares file w' := by
    obtain ⟨inode, hpart, -⟩ := hholds
    exact hleaves.files _ _ hpart.file rfl
  exact hholds.spared hleaves.toEvolves hspares

/-- What is published stays published, for every thread. -/
theorem stable_publishes {manifest : Manifest δ} (hown : ¬IsOwn manifest.name) :
    Stable codec sha256 owner i fun w => w.Publishes sha256 manifest :=
  fun _ _ _ _ h hleaves => hleaves.toEvolves.publishes hown h

/-- A permitted operation, by what it does: the regime's obligations are those of every permitted
step, and only the assertion after it is left to show. -/
theorem correct_of_permitted {β : Type} {o : FileOp δ β} {P : FolderWorld ι δ → Prop}
    {R : β → FolderWorld ι δ → Prop}
    (hpermitted : ∀ w, w.Sound codec owner → P w → w.Permitted codec owner i sha256 o)
    (hR : ∀ w b w', w.Sound codec owner → P w → w.Does i o b w' → w.Evolves w' →
      (∀ h, ¬o.Through h → w.Spares h w') → R b w') :
    (regime codec sha256 owner).Correct i P o R := by
  rintro w b w' ⟨hsound, hfinished⟩ hP hdoes
  have hperm := hpermitted w hsound hP
  have hevolves := hperm.evolves hsound hdoes
  refine ⟨⟨hperm.sound hsound hdoes, fun manifest hmem => ?_⟩,
    ⟨hevolves, hperm.moves hsound hdoes, fun j hij => hperm.leaves hij hsound hdoes⟩,
    hR w b w' hsound hP hdoes hevolves fun h hother => hperm.spares hother hdoes⟩
  obtain ⟨hown, hpublishes⟩ := (hperm.finished hdoes hmem).elim (hfinished manifest) id
  exact ⟨hown, hevolves.publishes hown hpublishes⟩

/-- A file is closed. -/
theorem correct_close {h : Handle} : (regime codec sha256 owner).Correct i (Has i h)
    (.close h) fun _ _ => True :=
  correct_of_permitted (fun _ _ hhas => hhas.mine) fun _ _ _ _ _ _ _ _ => trivial

/-! ## Calls on a transfer -/

variable {transfer : IncomingTransfer δ}

/-- A position is sought. -/
theorem correct_seek {P : FolderWorld ι δ → Prop} {position' : ℕ}
    (hP : ∀ w, P w → Holds i file id metadata position C w) :
    (regime codec sha256 owner).Correct i P (.seek file position') (Outline.Outcome
      (fun _ => Holds i file id metadata position' C) fun _ => Has i file) := by
  refine correct_of_permitted (fun w _ h => (hP w h).has.mine) ?_
  rintro w (e | _) w' - h hdoes - -
  · obtain rfl := hdoes
    exact (hP _ h).has
  · exact (hP w h).seek hdoes

/-- `hash` is a beginning of the file, and all of it when nothing more is read. -/
theorem correct_hash {n : ℕ} (hash : List UInt8) : (regime codec sha256 owner).Correct i
    (Holds i file id metadata hash.length fun contents => contents.length = n ∧ hash <+: contents)
    (.read file CHUNK_SIZE) (Outline.Outcome
      (fun data => if data = [] then Holds i file id metadata n
          fun contents => contents.length = n ∧ sha256 contents = sha256 hash
        else Holds i file id metadata (hash ++ data).length
          fun contents => contents.length = n ∧ hash ++ data <+: contents)
      fun _ => Has i file) := by
  refine correct_of_permitted (fun w _ h => h.has.mine) ?_
  rintro w (e | data) w' - h hdoes - -
  · obtain rfl := hdoes
    exact h.has
  have hread := h.read hdoes
  simp only [Outline.Outcome]
  split
  · rename_i hnil
    obtain ⟨inode, hpart, hlock, ⟨hlength, hbegins⟩, -, hend⟩ := hread
    have hall : hash = w'.contents inode := by
      apply hbegins.eq_of_length_le
      rcases hend hnil with hzero | hle
      · cases hzero
      · exact hle
    have hposition : hash.length + data.length = n := by
      rw [hnil, hall, hlength]
      rfl
    rw [hposition] at hpart
    exact ⟨inode, hpart, hlock, hlength, by rw [hall]⟩
  · rw [List.length_append]
    apply hread.mono
    rintro contents ⟨⟨hlength, rest, rfl⟩, hdata, -⟩
    refine ⟨hlength, ?_⟩
    rw [List.drop_left] at hdata
    exact (List.prefix_append_right_inj _).mpr hdata

/-- `hash_reader` on a locked partial file: the digest is that of the bytes which are in it. -/
theorem outline_hash {n : ℕ} : Outline (regime codec sha256 owner) i
    (Holds i file id metadata 0 (·.length = n)) (hashReader sha256 file) (Outline.Outcome
      (fun digest => Holds i file id metadata n
        fun contents => contents.length = n ∧ sha256 contents = digest)
      fun _ => Has i file) := by
  refine .pre stable_holds ?_ (outline_hashReader
    (L := fun hash => Holds i file id metadata hash.length
      fun contents => contents.length = n ∧ hash <+: contents)
    (R := fun digest => Holds i file id metadata n
      fun contents => contents.length = n ∧ sha256 contents = digest)
    (fun _ => stable_holds) (fun _ => stable_holds) stable_has correct_hash)
  intro w _ h
  refine h.mono fun contents hlength => ?_
  exact ⟨hlength, List.nil_prefix⟩

/-- The digest of what was received so far; the file stands where it stood. -/
theorem outline_prefixHash : Outline (regime codec sha256 owner) i (Held i transfer)
    (transfer.prefixHash sha256) (Outline.Outcome
      (fun digest => Holds i transfer.file transfer.id transfer.metadata transfer.offset
        fun contents => contents.length = transfer.offset ∧ sha256 contents = digest)
      fun _ => Has i transfer.file) := by
  refine io_seq stable_holds (correct_seek fun _ h => h) (fun _ => stable_has) fun _ => ?_
  refine Outline.onward outline_hash (fun _ => stable_has) (fun _ _ _ h => h) fun digest => ?_
  refine io_seq stable_holds (correct_seek fun _ h => h) (fun _ => stable_has) fun _ => ?_
  exact .ret stable_holds fun _ _ h => h

/-- A chunk that fits the manifest is added at the end of the file. -/
theorem outline_writePart (howner : metadata.owner = owner i) {bytes : List UInt8}
    (hfits : position + bytes.length ≤ metadata.manifest.size) :
    Outline (regime codec sha256 owner) i (Holds i file id metadata position (·.length = position))
      (writeAll file bytes) (Outline.Outcome
        (fun _ => Holds i file id metadata (position + bytes.length)
          (·.length = position + bytes.length))
        fun e w => (∃ e', e = .io e') ∧ Has i file w) := by
  -- what is left goes from here to the end of the chunk
  let L : List UInt8 → FolderWorld ι δ → Prop := fun rest w => ∃ here,
    here + rest.length = position + bytes.length ∧ Holds i file id metadata here (·.length = here) w
  have hL : ∀ rest, Stable codec sha256 owner i (L rest) := by
    rintro rest w w' hw hw' ⟨here, hhere, h⟩ hleaves
    exact ⟨here, hhere, stable_holds w w' hw hw' h hleaves⟩
  refine .pre stable_holds (fun w _ h => ⟨position, rfl, h⟩) (Outline.post
    (outline_writeAll hL stable_has (fun rest hsome => ?_) fun rest w _ ⟨_, _, h⟩ => h.has) ?_)
  · refine correct_of_permitted ?_ ?_
    · rintro w - ⟨here, hhere, h⟩
      exact h.mayWrite howner hsome (by omega)
    · rintro w (e | count) w' - ⟨here, hhere, h⟩ hdoes - -
      · obtain rfl := hdoes
        exact h.has
      · obtain ⟨hcount, hadded⟩ := h.write hdoes
        refine ⟨here + count, ?_, hadded⟩
        rw [List.length_drop]
        omega
  · rintro (e | _) w - h
    · exact h
    · obtain ⟨here, hhere, h⟩ := h
      obtain rfl : here = position + bytes.length := hhere
      exact h

/-- What is known after a chunk: the transfer is longer by its bytes, and is still the owner's. -/
def Written (owner : PublicKey) (i : ι) (transfer : IncomingTransfer δ) :
    Except FileError (IncomingTransfer δ) → FolderWorld ι δ → Prop
  | .ok transfer' => fun w => Proper owner transfer' ∧ Held i transfer' w
  | .error (.io _) => Has i transfer.file
  | .error _ => Held i transfer

/-- `write_chunk`: refused, or added at the end. A chunk that fails in the middle closes the
transfer, and the bytes that are there are a beginning of the file still. -/
theorem outline_writeChunk [DecidableEq δ] {consent : Consent} {offset : ℕ} {bytes : List UInt8}
    {checksum : δ} (hproper : Proper (owner i) transfer) :
    Outline (regime codec sha256 owner) i (Held i transfer)
      (transfer.writeChunk sha256 consent offset bytes checksum)
      (Written (owner i) i transfer) := by
  refine Outline.ofExcept_seq stable_holds ?_ fun _ _ => ?_
  · intro e he w _ h
    cases hrequire : consent.require .fileManager with
    | ok _ =>
      rw [hrequire] at he
      cases he
    | error e' =>
      rw [hrequire] at he
      obtain rfl := Except.error.inj he
      exact h
  refine Outline.check_seq stable_holds (fun _ _ h => h) fun hchunk => ?_
  refine Outline.check_seq stable_holds (fun _ _ h => h) fun _ => ?_
  obtain ⟨hoffset, -, -, -, hfits⟩ := hchunk
  refine Outline.onward (outline_writePart hproper.mine (hoffset ▸ hfits))
    (fun e => stable_and (fun _ _ _ _ h _ => h) stable_has) ?_ fun _ => ?_
  · rintro e w - ⟨⟨e', rfl⟩, h⟩
    exact h
  · exact .ret stable_holds fun _ _ h => ⟨⟨hproper.mine, hproper.destination⟩, h⟩

/-- A program that owns the file drops it on an error, which closes it. -/
theorem outline_dropping {α : Type} {x : FileProg δ α} {P : FolderWorld ι δ → Prop}
    {R : α → FolderWorld ι δ → Prop} (hR : ∀ a, Stable codec sha256 owner i (R a))
    (h : Outline (regime codec sha256 owner) i P x (Outline.Outcome R fun _ => Has i file)) :
    Outline (regime codec sha256 owner) i P (owning file x) (Outline.Outcome R fun _ _ => True) :=
  outline_owning h (Outline.stable_outcome hR fun _ => stable_has) (fun _ => correct_close)
    (fun _ => stable_true) fun _ _ _ h => h

/-- A name of a transfer of the owner is removed, or the call fails; an assertion that says nothing
of the name stays. -/
theorem correct_remove {P : FolderWorld ι δ → Prop} {name : String} (howns : id.Owns name)
    (howner : metadata.owner = owner i) (hdrawn : ∀ w, P w → Drawn id metadata w)
    (hkept : ∀ w w', P w → w.Evolves w' → (∀ h, w.Spares h w') → P w') :
    (regime codec sha256 owner).Correct i P (.removeFile name) fun _ => P := by
  refine correct_of_permitted (fun w _ h => ?_) fun w _ w' _ h _ hevolves hspares =>
    hkept w w' h hevolves fun h => hspares h fun hthrough => hthrough
  obtain ⟨j, hdrawn⟩ := hdrawn w h
  exact ⟨id, j, metadata, howns, hdrawn, howner⟩

theorem correct_remove_drawn {name : String} (howns : id.Owns name)
    (howner : metadata.owner = owner i) : (regime codec sha256 owner).Correct i
      (Drawn id metadata) (.removeFile name) fun _ => Drawn id metadata :=
  correct_remove howns howner (fun _ h => h) fun _ _ h hevolves _ => h.evolves hevolves

/-- The transfer is dropped. -/
theorem correct_drop : (regime codec sha256 owner).Correct i (Held i transfer)
    (.close transfer.file) fun _ => Drawn transfer.id transfer.metadata :=
  correct_of_permitted (fun _ _ h => h.has.mine) fun _ _ _ _ h _ hevolves _ =>
    h.drawn.evolves hevolves

/-- The consent is looked at, and nothing else happens. -/
theorem outline_requireFiles {consent : Consent} {P : FolderWorld ι δ → Prop}
    (hP : Stable codec sha256 owner i P) : Outline (regime codec sha256 owner) i P
      (requireFiles consent) (Outline.Outcome (fun _ => P) fun _ => P) := by
  rw [requireFiles]
  cases (consent.require .fileManager).mapError FileError.permission with
  | error e | ok _ => exact .ret hP fun _ _ h => h

/-- An operation beside the partial file, that is always permitted. -/
theorem correct_beside {β : Type} (o : FileOp δ β) (hother : ∀ h, ¬o.Through h)
    (hpermitted : ∀ w : FolderWorld ι δ, w.Permitted codec owner i sha256 o) :
    (regime codec sha256 owner).Correct i (Holds i file id metadata position C) o
      fun _ => Holds i file id metadata position C :=
  correct_of_permitted (fun w _ _ => hpermitted w) fun _ _ _ _ h _ hevolves hspares =>
    h.spared hevolves (hspares _ (hother _))

theorem correct_sync : (regime codec sha256 owner).Correct i
    (Holds i file id metadata position C) (.syncAll file)
    (Outline.Outcome (fun _ => Holds i file id metadata position C) fun _ => Has i file) := by
  have hkept : (regime codec sha256 owner).Correct i (Holds i file id metadata position C)
      (.syncAll file) fun _ => Holds i file id metadata position C :=
    correct_beside _ (fun _ h => h) fun _ => trivial
  apply hkept.post
  rintro (e | _) w - h
  · exact Holds.has h
  · exact h

/-- `pause`: the file is synced and closed, and stays in the folder. -/
theorem outline_pause : Outline (regime codec sha256 owner) i (Held i transfer) transfer.pause
    fun _ _ => True := by
  refine Outline.onward (E := fun _ _ => True) (R := fun _ => Held i transfer)
    (outline_dropping (fun _ => stable_holds) ?_) (fun _ => stable_true) (fun _ _ _ h => h)
    fun _ => ?_
  · exact outline_io stable_holds correct_sync (fun _ => stable_holds) fun _ => stable_has
  · refine Outline.perform_seq stable_holds correct_drop fun _ => ?_
    exact .ret stable_drawn fun _ _ _ => trivial

/-- `cancel`: both names of the transfer are removed, which are the owner's to remove. -/
theorem outline_cancel {consent : Consent} (howner : transfer.metadata.owner = owner i) :
    Outline (regime codec sha256 owner) i (Held i transfer) (transfer.cancel consent)
      fun _ _ => True := by
  have hremove : ∀ {name : String}, transfer.id.Owns name →
      (regime codec sha256 owner).Correct i (Drawn transfer.id transfer.metadata)
        (.removeFile name) (Outline.Outcome (fun _ => Drawn transfer.id transfer.metadata)
          fun _ _ => True) := by
    intro name howns
    apply (correct_remove_drawn howns howner).post
    rintro (e | _) w - h
    · trivial
    · exact h
  refine Outline.onward (E := fun _ _ => True) (R := fun _ => Held i transfer)
    (outline_dropping (fun _ => stable_holds) ?_) (fun _ => stable_true) (fun _ _ _ h => h)
    fun _ => ?_
  · refine Outline.post (outline_requireFiles stable_holds) ?_
    rintro (e | _) w - h
    · exact Held.has h
    · exact h
  · refine Outline.perform_seq stable_holds correct_drop fun _ => ?_
    refine io_seq stable_drawn (hremove (.inl rfl)) (fun _ => stable_true) fun _ => ?_
    have hlast := outline_io (D := regime codec sha256 owner) stable_drawn (hremove (.inr rfl))
      (fun _ => stable_drawn)
      fun _ => stable_true
    exact hlast.post fun _ _ _ _ => trivial

/-- The whole file is there, as the manifest describes it. -/
def Whole (sha256 : List UInt8 → δ) (i : ι) (transfer : IncomingTransfer δ) :
    FolderWorld ι δ → Prop :=
  Holds i transfer.file transfer.id transfer.metadata transfer.offset fun contents =>
    contents.length = transfer.manifest.size ∧ sha256 contents = transfer.manifest.sha256

/-- A whole file is published, or the call fails. The destination is new to the folder, as a link
never replaces a file. -/
theorem correct_hardLink (hproper : Proper (owner i) transfer) :
    (regime codec sha256 owner).Correct i (Whole sha256 i transfer)
      (.hardLink transfer.id.partName transfer.manifest.name) (Outline.Outcome
        (fun _ w => Whole sha256 i transfer w ∧ w.Publishes sha256 transfer.manifest)
        fun _ => Has i transfer.file) := by
  refine correct_of_permitted (fun w hsound h => ?_) ?_
  · obtain ⟨inode, ⟨-, horigin, j, hdrawn, -⟩, -, hlength, -⟩ := h
    refine ⟨transfer.id, j, transfer.metadata, rfl, hproper.destination, hdrawn, hproper.mine, ?_⟩
    intro inode' horigin'
    rw [hsound.single _ _ _ horigin' horigin]
    exact hlength
  · rintro w (e | _) w' hsound h hdoes hevolves hspares
    · obtain rfl := hdoes
      exact Holds.has h
    have hwhole : Whole sha256 i transfer w' :=
      Holds.spared h hevolves (hspares _ fun hthrough => hthrough)
    refine ⟨hwhole, ?_⟩
    -- the partial file is the one that is open
    obtain ⟨inode, ⟨-, horigin, -⟩, -, hlength, hdigest⟩ := h
    obtain ⟨inode', hsource, -, rfl⟩ := hdoes
    obtain rfl := hsound.single _ _ _ (hsound.own _ _ (transfer.id.isOwn_name _) hsource) horigin
    exact ⟨inode', Function.update_self .., hlength, hdigest⟩

/-- `finish`: a manifest is returned only after the link of the whole file under its name, so the
file is there when it is noted. -/
theorem outline_finish [DecidableEq δ] {consent : Consent} (hproper : Proper (owner i) transfer) :
    Outline (regime codec sha256 owner) i (Held i transfer) (transfer.finish sha256 consent)
      (Outline.Outcome (fun manifest w => ¬IsOwn manifest.name ∧ w.Publishes sha256 manifest)
        fun _ _ => True) := by
  let Published : FolderWorld ι δ → Prop := fun w =>
    Whole sha256 i transfer w ∧ w.Publishes sha256 transfer.manifest
  have hpublished : Stable codec sha256 owner i Published :=
    stable_and stable_holds (stable_publishes hproper.destination)
  have hremove : ∀ {name : String}, transfer.id.Owns name →
      (regime codec sha256 owner).Correct i Published (.removeFile name)
        (Outline.Outcome (fun _ => Published) fun _ => Has i transfer.file) := by
    intro name howns
    have hkept : (regime codec sha256 owner).Correct i Published (.removeFile name)
        fun _ => Published :=
      correct_remove howns hproper.mine (fun _ h => h.1.drawn) fun w w' h hevolves hspares =>
        ⟨h.1.spared hevolves (hspares _), hevolves.publishes hproper.destination h.2⟩
    apply hkept.post
    rintro (e | _) w - h
    · exact h.1.has
    · exact h
  refine Outline.onward (E := fun _ _ => True) (R := fun _ => Published)
    (outline_dropping (fun _ => hpublished) ?_) (fun _ => stable_true) (fun _ _ _ h => h)
    fun _ => ?_
  · refine Outline.onward (outline_requireFiles stable_holds) (fun _ => stable_holds)
      (fun _ _ _ h => Held.has h) fun _ => ?_
    refine Outline.check_seq stable_holds (fun _ _ h => Held.has h) fun hoffset => ?_
    refine Outline.onward outline_prefixHash (fun _ => stable_has) (fun _ _ _ h => h) ?_
    intro digest
    refine Outline.check_seq stable_holds (fun _ _ h => Holds.has h) fun hdigest => ?_
    refine .pre stable_holds (P := Whole sha256 i transfer) ?_ ?_
    · intro w _ h
      refine h.mono fun contents hcontents => ?_
      exact ⟨hcontents.1.trans hoffset, hcontents.2.trans hdigest⟩
    refine io_seq stable_holds correct_sync (fun _ => stable_has) fun _ => ?_
    refine io_seq stable_holds (correct_hardLink hproper) (fun _ => stable_has) fun _ => ?_
    refine io_seq hpublished (hremove (.inl rfl)) (fun _ => stable_has) fun _ => ?_
    exact outline_io hpublished (hremove (.inr rfl)) (fun _ => hpublished) fun _ => stable_has
  · have hclose : (regime codec sha256 owner).Correct i Published (.close transfer.file)
        fun _ w => w.Publishes sha256 transfer.manifest :=
      correct_of_permitted (fun _ _ h => h.1.has.mine) fun _ _ _ _ h _ hevolves _ =>
        hevolves.publishes hproper.destination h.2
    refine Outline.perform_seq hpublished hclose fun _ => ?_
    exact .ret (stable_publishes hproper.destination) fun _ _ h => ⟨hproper.destination, h⟩

/-! ## Resuming a transfer -/

theorem stable_reading {record : Handle} {bytes : List UInt8} :
    Stable codec sha256 owner i (Reading i record id bytes) := by
  rintro w w' - - ⟨inode, hfile, horigin, hbytes⟩ hleaves
  exact ⟨inode, (hleaves.files _ _ hfile rfl).file _ hfile, hleaves.origin _ _ horigin,
    hbytes.trans (hleaves.records inode id horigin)⟩

theorem stable_read {bytes : List UInt8} : Stable codec sha256 owner i (Read codec id bytes) := by
  rintro w w' - - ⟨hcreated, metadata, hfits, hdrawn, hbytes⟩ hleaves
  exact ⟨hleaves.toEvolves.created hcreated, metadata, hfits,
    hdrawn.evolves hleaves.toEvolves, hbytes⟩

theorem stable_begun : Stable codec sha256 owner i (Begun id metadata) := by
  rintro w w' - - ⟨hcreated, hdrawn⟩ hleaves
  exact ⟨hleaves.toEvolves.created hcreated, hdrawn.evolves hleaves.toEvolves⟩

theorem correct_openRecord : (regime codec sha256 owner).Correct i (fun _ => True)
    (.openRead id.metaName) (Outline.Outcome (fun record => Reading i record id [])
      fun _ _ => True) := by
  refine correct_of_permitted (fun _ _ _ => trivial) ?_
  rintro w (e | record) w' hsound - hdoes - -
  · trivial
  · obtain ⟨-, inode, hentry, rfl⟩ := hdoes
    exact ⟨inode, Function.update_self .., hsound.own _ _ (id.isOwn_name _) hentry,
      List.nil_prefix⟩

/-- A piece of the metadata is read after what was read already. -/
theorem correct_readRecord {record : Handle} (bytes : List UInt8) (n : ℕ) :
    (regime codec sha256 owner).Correct i (Reading i record id bytes) (.read record n)
      (Outline.Outcome (fun data => Reading i record id (bytes ++ data))
        fun _ => Has i record) := by
  refine correct_of_permitted (fun _ _ h => h.has.mine) ?_
  rintro w (e | data) w' - h hdoes - -
  · obtain rfl := hdoes
    exact h.has
  · obtain ⟨inode, hfile, horigin, rest, hrest⟩ := h
    obtain ⟨opened, hopen, -, hdata, -, rfl⟩ := hdoes
    obtain rfl := Option.some.inj (hfile.symm.trans hopen)
    refine ⟨inode, ?_, horigin, ?_⟩
    · rw [List.length_append]
      exact Function.update_self ..
    · simp only [← hrest, List.drop_left] at hdata
      change bytes ++ data <+: w.contents inode
      rw [← hrest]
      exact (List.prefix_append_right_inj _).mpr hdata

/-- Reading the metadata of a transfer: when it decodes, and is of the owner that asks, it is what
was drawn with the identifier. -/
theorem outline_readMetadata : Outline (regime codec sha256 owner) i (fun _ => True)
    (Receiver.readMetadata codec (owner i) id) (Outline.Outcome
      (fun metadata w => (metadata.owner = owner i ∧ ¬IsOwn metadata.manifest.name) ∧
        Begun id metadata w) fun _ _ => True) := by
  refine io_seq stable_true correct_openRecord (fun _ => stable_true) fun record => ?_
  refine Outline.onward (R := fun encoded => Reading i record id encoded) (E := fun _ _ => True)
    (outline_dropping (fun _ => stable_reading) ?_) (fun _ => stable_true) (fun _ _ _ h => h)
    fun encoded => ?_
  · exact outline_readToEnd (fun _ => stable_reading) stable_has correct_readRecord
  have hclose : (regime codec sha256 owner).Correct i (Reading i record id encoded)
      (.close record) fun _ => Read codec id encoded := by
    refine correct_of_permitted (fun _ _ h => h.has.mine) ?_
    intro w _ w' hsound h _ hevolves _
    obtain ⟨hcreated, metadata, hfits, hdrawn, hbytes⟩ := h.read hsound
    exact ⟨hevolves.created hcreated, metadata, hfits, hdrawn.evolves hevolves, hbytes⟩
  refine Outline.perform_seq stable_reading hclose fun _ => ?_
  refine Outline.check_seq stable_read (fun _ _ _ => trivial) fun _ => ?_
  refine Outline.ofExcept_seq stable_read (fun _ _ _ _ _ => trivial) fun decoded hdecoded => ?_
  obtain ⟨metadata, trailing⟩ := decoded
  refine Outline.check_seq stable_read (fun _ _ _ => trivial) fun hvalid => ?_
  refine Outline.check_seq stable_read (fun _ _ _ => trivial) fun howner => ?_
  obtain ⟨rfl, -, hname, -⟩ := hvalid
  refine .ret stable_read fun w _ h => ⟨⟨howner, validName_not_own hname⟩, ?_⟩
  -- what decodes is all of the metadata
  obtain ⟨hcreated, metadata', hfits, hdrawn, hbytes⟩ := h
  have htake : codec.takeFromBytes encoded = .ok (metadata, []) := by
    cases htaken : codec.takeFromBytes encoded with
    | error e =>
      rw [htaken] at hdecoded
      cases hdecoded
    | ok taken =>
      rw [htaken] at hdecoded
      exact congrArg _ (Except.ok.inj hdecoded)
  have hall : encoded = codec.encode metadata' := by
    by_contra hne
    obtain ⟨e, he⟩ := codec.prefix_free metadata' encoded hfits hbytes hne
    rw [htake] at he
    cases he
  rw [hall, codec.round_trip _ hfits] at htake
  obtain ⟨rfl, -⟩ := Prod.mk.inj (Except.ok.inj htake)
  exact ⟨hcreated, hdrawn⟩

/-- A handle is cloned, or the call fails. -/
theorem correct_clone : (regime codec sha256 owner).Correct i
    (Holds i file id metadata position C) .tryClone
    (Outline.Outcome (fun _ => Holds i file id metadata position C) fun _ => Has i file) := by
  have hkept : (regime codec sha256 owner).Correct i (Holds i file id metadata position C)
      .tryClone fun _ => Holds i file id metadata position C :=
    correct_beside _ (fun _ h => h) fun _ => trivial
  apply hkept.post
  rintro (e | _) w - h
  · exact Holds.has h
  · exact h

/-- A transfer that is open and proper afterwards, if the call succeeds. -/
def Opens (owner : PublicKey) (i : ι) :
    Except FileError (IncomingTransfer δ) → FolderWorld ι δ → Prop :=
  Outline.Outcome (fun transfer w => Proper owner transfer ∧ Held i transfer w) fun _ _ => True

/-- `resume`: the metadata says whose the transfer is, and the file is opened, locked and sought to
its end only then. -/
theorem outline_resume {consent : Consent} : Outline (regime codec sha256 owner) i
    (fun _ => True) (Receiver.resume codec consent (owner i) id) (Opens (owner i) i) := by
  refine Outline.onward (outline_requireFiles stable_true) (fun _ => stable_true)
    (fun _ _ _ _ => trivial) fun _ => ?_
  refine Outline.onward outline_readMetadata (fun _ => stable_true) (fun _ _ _ h => h)
    fun metadata => ?_
  -- the record names its owner and its identifier was drawn: the part is that transfer's
  refine Outline.given (fun _ => stable_begun) fun ⟨howner, hown⟩ => ?_
  have hopen : (regime codec sha256 owner).Correct i (Begun id metadata)
      (.openReadWrite id.partName) (Outline.Outcome
        (fun file w => ∃ inode, HasPart i file id metadata 0 inode w) fun _ _ => True) := by
    refine correct_of_permitted (fun _ _ _ => trivial) ?_
    rintro w (e | file) w' hsound ⟨hcreated, j, hdrawn⟩ hdoes - -
    · trivial
    · obtain ⟨-, inode, hentry, rfl⟩ := hdoes
      exact ⟨inode, Function.update_self .., hsound.own _ _ (id.isOwn_name _) hentry, j, hdrawn,
        .inr hcreated⟩
  refine io_seq stable_begun hopen (fun _ => stable_true) fun file => ?_
  refine outline_dropping (fun _ => stable_and (fun _ _ _ _ h _ => h) stable_holds) ?_
  -- from here on nobody else writes the part
  have hlock : (regime codec sha256 owner).Correct i
      (fun w => ∃ inode, HasPart i file id metadata 0 inode w) (.tryLockExclusive file)
      (Outline.Outcome (fun _ => Holds i file id metadata 0 fun _ => True)
        fun _ => Has i file) := by
    refine correct_of_permitted ?_ ?_
    · rintro w - ⟨inode, hpart⟩
      exact Has.mine ⟨_, hpart.file, rfl⟩
    · rintro w (e | _) w' - ⟨inode, hpart⟩ hdoes - -
      · obtain rfl := hdoes
        exact ⟨_, hpart.file, rfl⟩
      · exact hpart.lock (C := fun _ => True) trivial hdoes
  refine io_seq stable_hasPart hlock (fun _ => stable_has) fun _ => ?_
  have hlength : (regime codec sha256 owner).Correct i
      (Holds i file id metadata 0 fun _ => True) (.length file)
      (Outline.Outcome (fun offset => Holds i file id metadata 0 (·.length = offset))
        fun _ => Has i file) := by
    refine correct_of_permitted (fun _ _ _ => trivial) ?_
    rintro w (e | offset) w' - h hdoes - -
    · obtain rfl := hdoes
      exact Holds.has h
    · exact (h.length hdoes).mono fun _ hcontents => hcontents.2
  refine io_seq stable_holds hlength (fun _ => stable_has) fun offset => ?_
  refine Outline.check_seq stable_holds (fun _ _ h => Holds.has h) fun _ => ?_
  refine io_seq stable_holds (correct_seek fun _ h => h) (fun _ => stable_has) fun _ => ?_
  refine io_seq stable_holds correct_clone (fun _ => stable_has) fun _ => ?_
  exact .ret stable_holds fun _ _ h => ⟨⟨howner, hown⟩, h⟩

/-! ## Beginning a transfer -/

theorem stable_beginning : Stable codec sha256 owner i (Beginning i id metadata) := by
  rintro w w' - - ⟨hdrawn, hnew⟩ hleaves
  exact ⟨hleaves.drawn _ _ hdrawn, hleaves.fresh _ _ _ hdrawn (.inr rfl) hnew⟩

theorem stable_kept : Stable codec sha256 owner i (Kept i file id metadata) := by
  rintro w w' hw hw' ⟨hdrawn, hheld⟩ hleaves
  exact ⟨hleaves.drawn _ _ hdrawn, stable_holds w w' hw hw' hheld hleaves⟩

/-- Nobody else writes the partial file before the metadata is there. -/
theorem stable_started : Stable codec sha256 owner i (Started i file id metadata) := by
  rintro w w' hw hw' ⟨hbeginning, inode, hpart, hnil⟩ hleaves
  refine ⟨stable_beginning w w' hw hw' hbeginning hleaves, inode,
    hpart.spared hleaves.toEvolves (hleaves.files _ _ hpart.file rfl), ?_⟩
  rwa [hleaves.begun id metadata inode hbeginning.drawn
    (.inr ⟨hpart.origin, hbeginning.unrecorded⟩)]

theorem stable_hasRecord {record : Handle} :
    Stable codec sha256 owner i (HasRecord i record id) := by
  rintro w w' - - ⟨inode, position, hfile, horigin⟩ hleaves
  exact ⟨inode, position, (hleaves.files _ _ hfile rfl).file _ hfile, hleaves.origin _ _ horigin⟩

/-- Nobody else writes metadata of a transfer that the thread begins. -/
theorem stable_recording {record : Handle} {rest : List UInt8} :
    Stable codec sha256 owner i fun w =>
      Kept i file id metadata w ∧ Recording codec i record id metadata rest w := by
  rintro w w' hw hw' ⟨hkept, inode, hfile, horigin, hrest⟩ hleaves
  have hsame : w'.contents inode = w.contents inode :=
    hleaves.begun id metadata inode hkept.drawn (.inl horigin)
  refine ⟨stable_kept w w' hw hw' hkept hleaves, inode, ?_, hleaves.origin _ _ horigin, ?_⟩
  · rw [hsame]
    exact (hleaves.files _ _ hfile rfl).file _ hfile
  · rwa [hsame]

/-- A write of the metadata takes some of what is left of it. -/
theorem correct_writeRecord {record : Handle} {rest : List UInt8} :
    (regime codec sha256 owner).Correct i
      (fun w => Kept i file id metadata w ∧ Recording codec i record id metadata rest w)
      (.write record rest) (Outline.Outcome
        (fun count w => Kept i file id metadata w ∧
          Recording codec i record id metadata (rest.drop count) w)
        fun _ w => Kept i file id metadata w ∧ HasRecord i record id w) := by
  refine correct_of_permitted ?_ ?_
  · rintro w - ⟨hkept, inode, hfile, horigin, hrest⟩
    exact .record hfile horigin hkept.drawn (hrest ▸ List.prefix_rfl)
  · rintro w (e | count) w' - ⟨hkept, hrecording⟩ hdoes hevolves hspares
    · obtain rfl := hdoes
      exact ⟨hkept, hrecording.hasRecord⟩
    · refine ⟨hkept.spared hevolves (hspares _ (hrecording.hasRecord.ne hkept.held)), ?_⟩
      obtain ⟨inode, hfile, horigin, hrest⟩ := hrecording
      obtain ⟨opened, hopen, hcount, rfl⟩ := hdoes
      obtain rfl := Option.some.inj (hfile.symm.trans hopen)
      refine ⟨inode, ?_, horigin, ?_⟩
      · simp [FolderWorld.moved, FolderWorld.opened, FolderWorld.overwrite_end, hcount]
      · simp [FolderWorld.overwrite_end, hrest]

/-- The metadata is written to its end and synced; whatever happens, what is there is a beginning of
it. -/
theorem outline_record {record : Handle} {rest : List UInt8} :
    Outline (regime codec sha256 owner) i
      (fun w => Kept i file id metadata w ∧ Recording codec i record id metadata rest w)
      (writeAll record rest >>= fun _ => io (.syncAll record) : FileProg δ Unit)
      fun _ w => Kept i file id metadata w ∧ HasRecord i record id w := by
  have hboth : Stable codec sha256 owner i fun w =>
      Kept i file id metadata w ∧ HasRecord i record id w := stable_and stable_kept stable_hasRecord
  refine Outline.onward (outline_writeAll
      (L := fun rest w => Kept i file id metadata w ∧ Recording codec i record id metadata rest w)
      (fun _ => stable_recording) hboth (fun _ _ => correct_writeRecord)
      fun _ _ _ h => ⟨h.1, h.2.hasRecord⟩)
    (fun _ => stable_and (fun _ _ _ _ h _ => h) hboth) (fun _ _ _ h => h.2) fun _ => ?_
  have hsync : (regime codec sha256 owner).Correct i
      (fun w => Kept i file id metadata w ∧ Recording codec i record id metadata [] w)
      (.syncAll record) (Outline.Outcome
        (fun _ w => Kept i file id metadata w ∧ HasRecord i record id w)
        fun _ w => Kept i file id metadata w ∧ HasRecord i record id w) := by
    refine correct_of_permitted (fun _ _ _ => trivial) ?_
    rintro w (e | _) w' - ⟨hkept, hrecording⟩ hdoes - -
    · obtain rfl := hdoes
      exact ⟨hkept, hrecording.hasRecord⟩
    · obtain ⟨rfl, -⟩ := hdoes
      exact ⟨hkept, hrecording.hasRecord⟩
  refine Outline.post (outline_io stable_recording hsync (fun _ => hboth) fun _ => hboth) ?_
  rintro (e | _) w - h <;> exact h

/-- The metadata is created, written and closed; on failure it is known whether it was created. -/
theorem outline_writeMetadata {encoded : List UInt8} (hencoded : encoded = codec.encode metadata) :
    Outline (regime codec sha256 owner) i
      (fun w => Beginning i id metadata w ∧ Holds i file id metadata 0 (· = []) w)
      (Receiver.writeMetadata id encoded) fun _ => Kept i file id metadata := by
  have hcreate : (regime codec sha256 owner).Correct i
      (fun w => Beginning i id metadata w ∧ Holds i file id metadata 0 (· = []) w)
      (.createNew id.metaName) (Outline.Outcome
        (fun record w => Kept i file id metadata w ∧
          Recording codec i record id metadata encoded w)
        fun _ => Kept i file id metadata) := by
    refine correct_of_permitted ?_ ?_
    · rintro w - ⟨⟨hdrawn, hnew⟩, -⟩
      exact ⟨id, metadata, hdrawn, .inr rfl, hnew⟩
    · rintro w (e | record) w' - ⟨⟨hdrawn, -⟩, hheld⟩ hdoes hevolves hspares
      · obtain rfl := hdoes
        exact ⟨hdrawn, hheld⟩
      · refine ⟨⟨hevolves.drawn _ _ hdrawn,
          hheld.spared hevolves (hspares _ fun hthrough => hthrough)⟩, ?_⟩
        obtain ⟨-, -, inode, -, rfl⟩ := hdoes
        refine ⟨inode, ?_, Function.update_self .., ?_⟩
        · simp [FolderWorld.opened]
        · simp [hencoded]
  refine .op (stable_and stable_beginning stable_holds) hcreate fun r => ?_
  rcases r with e | record
  · exact .ret stable_kept fun _ _ h => h
  refine Outline.bind outline_record fun result => ?_
  have hclose : (regime codec sha256 owner).Correct i
      (fun w => Kept i file id metadata w ∧ HasRecord i record id w) (.close record)
      fun _ => Kept i file id metadata :=
    correct_of_permitted (fun _ _ h => h.2.has.mine) fun _ _ _ _ h _ hevolves hspares =>
      h.1.spared hevolves (hspares _ (h.2.ne h.1.held))
  refine .op (stable_and stable_kept stable_hasRecord) hclose fun _ => ?_
  exact .ret stable_kept fun _ _ h => h

/-- A transfer that was not begun leaves no names behind: they are removed as far as they were
created. -/
theorem outline_cleanUp {created : Bool} (howner : metadata.owner = owner i) :
    Outline (regime codec sha256 owner) i (Kept i file id metadata)
      (Receiver.cleanUp file id created) fun _ _ => True := by
  have hclose : (regime codec sha256 owner).Correct i (Kept i file id metadata) (.close file)
      fun _ => Drawn id metadata :=
    correct_of_permitted (fun _ _ h => h.held.has.mine) fun _ _ _ _ h _ hevolves _ =>
      h.held.drawn.evolves hevolves
  refine .op stable_kept hclose fun _ => ?_
  refine .op stable_drawn (correct_remove_drawn (.inl rfl) howner) fun _ => ?_
  cases created with
  | false => exact .ret stable_drawn fun _ _ _ => trivial
  | true =>
    refine .op stable_drawn (correct_remove_drawn (.inr rfl) howner) fun _ => ?_
    exact .ret stable_drawn fun _ _ _ => trivial

/-- Looking whether the destination is free changes nothing. -/
theorem outline_destinationFree {name : String} {P : FolderWorld ι δ → Prop}
    (hP : Stable codec sha256 owner i P) : Outline (regime codec sha256 owner) i P
      (Receiver.destinationFree name) (Outline.Outcome (fun _ => P) fun _ _ => True) := by
  have hlook : (regime codec sha256 owner).Correct i P (.symlinkMetadata name) fun _ => P :=
    correct_of_permitted (fun _ _ _ => trivial) fun _ _ _ _ h hdoes _ _ => hdoes.1 ▸ h
  refine .op hP hlook fun r => ?_
  rcases r with (_ | _ | _ | _ | _ | _) | _ <;> exact .ret hP fun _ _ h => by trivial

theorem outline_begin {consent : Consent} {manifest : Manifest δ} :
    Outline (regime codec sha256 owner) i (fun _ => True)
      (Receiver.begin codec consent (owner i) manifest) (Opens (owner i) i) := by
  refine Outline.onward (outline_requireFiles stable_true) (fun _ => stable_true)
    (fun _ _ _ _ => trivial) fun _ => ?_
  refine Outline.check_seq stable_true (fun _ _ _ => trivial) fun hvalid => ?_
  refine Outline.onward (outline_destinationFree stable_true) (fun _ => stable_true)
    (fun _ _ _ _ => trivial) fun _ => ?_
  let metadata : Metadata δ := { version := 1, owner := owner i, manifest }
  have hfits : metadata.Fits := by
    obtain ⟨hname, hsize⟩ := hvalid
    have hshort := validName_short hname
    simp only [MAX_FILE_SIZE] at hsize
    exact ⟨by simp [metadata], by simp only [metadata]; omega, by simp only [metadata]; omega⟩
  -- the identifier is new, and so are its names
  have hdraw : (regime codec sha256 owner).Correct i (fun _ => True) (.fillBytes metadata)
      fun id w => Beginning i id metadata w ∧ ¬w.Created id.partName := by
    refine correct_of_permitted (fun _ _ _ => ⟨rfl, hfits⟩) ?_
    rintro w id w' hsound - ⟨hnew, rfl⟩ - -
    have hfresh : ∀ name, id.Owns name → ¬w.Created name := by
      rintro name howns ⟨inode, horigin⟩
      obtain ⟨id', x, hdrawn, howns'⟩ := hsound.drawn inode name horigin
      obtain rfl := howns.unique howns'
      rw [hnew] at hdrawn
      cases hdrawn
    exact ⟨⟨Function.update_self .., hfresh _ (.inr rfl)⟩, hfresh _ (.inl rfl)⟩
  have hnew : ∀ id, Stable codec sha256 owner i fun w =>
      Beginning i id metadata w ∧ ¬w.Created id.partName := by
    rintro id w w' hw hw' ⟨hbeginning, hpart⟩ hleaves
    exact ⟨stable_beginning w w' hw hw' hbeginning hleaves,
      hleaves.fresh _ _ _ hbeginning.drawn (.inl rfl) hpart⟩
  refine Outline.perform_seq stable_true hdraw fun id => ?_
  refine Outline.ofExcept_seq (hnew id) (fun _ _ _ _ _ => trivial) fun encoded hencoded => ?_
  have hencoded : encoded = codec.encode metadata := by
    rw [codec.toAllocvec_eq metadata hfits] at hencoded
    exact (Except.ok.inj hencoded).symm
  -- the partial file is created, and locked before its metadata is there
  have hcreate : (regime codec sha256 owner).Correct i
      (fun w => Beginning i id metadata w ∧ ¬w.Created id.partName) (.createNew id.partName)
      (Outline.Outcome (fun file => Started i file id metadata) fun _ _ => True) := by
    refine correct_of_permitted ?_ ?_
    · rintro w - ⟨⟨hdrawn, -⟩, hpart⟩
      exact ⟨id, metadata, hdrawn, .inl rfl, hpart⟩
    · rintro w (e | file) w' - ⟨⟨hdrawn, hunrecorded⟩, -⟩ hdoes - -
      · trivial
      obtain ⟨-, -, inode, -, rfl⟩ := hdoes
      refine ⟨⟨hdrawn, ?_⟩, inode, ⟨Function.update_self .., Function.update_self .., i, hdrawn,
        .inl rfl⟩, Function.update_self ..⟩
      rintro ⟨inode', horigin⟩
      simp only [Function.update_apply] at horigin
      split at horigin
      · exact TransferId.partName_ne_metaName (Option.some.inj horigin)
      · exact hunrecorded ⟨inode', horigin⟩
  have hlock : ∀ file, (regime codec sha256 owner).Correct i (Started i file id metadata)
      (.tryLockExclusive file) (Outline.Outcome
        (fun _ w => Beginning i id metadata w ∧ Holds i file id metadata 0 (· = []) w)
        fun _ => Has i file) := by
    intro file
    refine correct_of_permitted ?_ ?_
    · rintro w - ⟨-, inode, hpart, -⟩
      exact Has.mine ⟨_, hpart.file, rfl⟩
    · rintro w (e | _) w' - ⟨⟨hdrawn, hunrecorded⟩, inode, hpart, hnil⟩ hdoes hevolves -
      · obtain rfl := hdoes
        exact ⟨_, hpart.file, rfl⟩
      · refine ⟨⟨hevolves.drawn _ _ hdrawn, ?_⟩, hpart.lock hnil hdoes⟩
        obtain ⟨opened, -, -, rfl⟩ := hdoes
        exact hunrecorded
  have hlocked : ∀ file, Stable codec sha256 owner i fun w =>
      Beginning i id metadata w ∧ Holds i file id metadata 0 (· = []) w :=
    fun file => stable_and stable_beginning stable_holds
  refine io_seq (hnew id) hcreate (fun _ => stable_true) fun file => ?_
  refine Outline.onward (outline_dropping (fun _ => hlocked file)
      (outline_io stable_started (hlock file) (fun _ => hlocked file) fun _ => stable_has))
    (fun _ => stable_true) (fun _ _ _ h => h) fun _ => ?_
  apply Outline.lift_seq (outline_writeMetadata hencoded)
  rintro ⟨created, e | _⟩
  · refine Outline.lift_seq (outline_cleanUp rfl) fun _ => ?_
    exact .ret stable_true fun _ _ _ => trivial
  · refine Outline.onward (outline_dropping (R := fun _ => Kept i file id metadata)
      (fun _ => stable_kept) ?_) (fun _ => stable_true) (fun _ _ _ h => h) fun _ => ?_
    · have hclone : (regime codec sha256 owner).Correct i (Kept i file id metadata) .tryClone
          (Outline.Outcome (fun _ => Kept i file id metadata) fun _ => Has i file) := by
        refine correct_of_permitted (fun _ _ _ => trivial) ?_
        rintro w r w' - h hdoes - -
        obtain rfl := hdoes
        rcases r with e | _
        · exact h.held.has
        · exact h
      exact outline_io stable_kept hclone (fun _ => stable_kept) fun _ => stable_has
    · refine .ret stable_kept fun w _ h => ⟨⟨rfl, validName_not_own hvalid.1⟩, ?_⟩
      exact h.held.mono fun contents hnil => hnil ▸ rfl

/-! ## Any calls -/

/-- What is known between two calls. -/
def Stands (owner : PublicKey) (i : ι) :
    Option (IncomingTransfer δ) → FolderWorld ι δ → Prop
  | none => fun _ => True
  | some transfer => fun w => Proper owner transfer ∧ Held i transfer w

theorem stable_stands (held : Option (IncomingTransfer δ)) :
    Stable codec sha256 owner i (Stands (owner i) i held) := by
  cases held with
  | none => exact stable_true
  | some transfer => exact stable_and (fun _ _ _ _ h _ => h) stable_holds

theorem outline_carryOut [DecidableEq δ] (consent : Consent)
    (held : Option (IncomingTransfer δ)) (call : FileCall δ) :
    Outline (regime codec sha256 owner) i (Stands (owner i) i held)
      (carryOut codec sha256 (owner i) consent held call) (Stands (owner i) i) := by
  have hnothing : ∀ {P : FolderWorld ι δ → Prop}, Stable codec sha256 owner i P →
      Outline (regime codec sha256 owner) i P (.ret none : Prog (FileOp δ) _)
        (Stands (owner i) i) := fun hP => .ret hP fun _ _ _ => trivial
  have hopen : ∀ transfer, Outline (regime codec sha256 owner) i
      (Stands (owner i) i (some transfer)) (.ret (some transfer) : Prog (FileOp δ) _)
        (Stands (owner i) i) := fun transfer => .ret (stable_stands (some transfer)) fun _ _ h => h
  cases held with
  | none =>
    cases call with
    | «begin» manifest =>
      refine Outline.bind_outcome outline_begin (fun transfer => ?_) fun _ => hnothing stable_true
      have hnote : (regime codec sha256 owner).Correct i (Stands (owner i) i (some transfer))
          (.note (.began transfer.id)) fun _ => Stands (owner i) i (some transfer) :=
        correct_of_permitted (fun _ _ _ => trivial) fun _ _ _ _ h hdoes _ _ => hdoes ▸ h
      exact .op (stable_stands (some transfer)) hnote fun _ => hopen transfer
    | resume id =>
      exact Outline.bind_outcome outline_resume hopen fun _ => hnothing stable_true
    | _ => exact hnothing stable_true
  | some transfer =>
    refine Outline.given (fun _ => stable_holds) fun hproper => ?_
    have hdrop : Outline (regime codec sha256 owner) i (Has i transfer.file)
        (.op (.close transfer.file) fun _ => .ret none : Prog (FileOp δ) _)
        (Stands (owner i) i) := .op stable_has correct_close fun _ => hnothing stable_true
    have hdropped : Outline (regime codec sha256 owner) i (Held i transfer)
        (.op (.close transfer.file) fun _ => .ret none : Prog (FileOp δ) _)
        (Stands (owner i) i) := hdrop.pre stable_holds fun _ _ h => Held.has h
    have hstays : Outline (regime codec sha256 owner) i (Held i transfer)
        (.ret (some transfer) : Prog (FileOp δ) _) (Stands (owner i) i) :=
      .ret stable_holds fun _ _ h => ⟨hproper, h⟩
    cases call with
    | prefixHash =>
      refine Outline.bind_outcome outline_prefixHash (fun digest => ?_) fun _ => hdrop
      exact hstays.pre stable_holds fun _ _ h => h.mono fun _ hcontents => hcontents.1
    -- a write error may have written something: the transfer is dropped, as `operate` does
    | writeChunk offset bytes checksum =>
      refine Outline.bind (outline_writeChunk hproper) fun r => ?_
      rcases r with e | transfer'
      · cases e with
        | io e => exact hdrop
        | _ => exact hstays
      · exact hopen transfer'
    | pause => exact Outline.bind outline_pause fun _ => hnothing stable_true
    | cancel =>
      have hnote : (regime codec sha256 owner).Correct i (Held i transfer)
          (.note (.cancels transfer.id)) fun _ => Held i transfer :=
        correct_of_permitted (fun _ _ _ => trivial) fun _ _ _ _ h hdoes _ _ => hdoes ▸ h
      refine .op stable_holds hnote fun _ => ?_
      exact Outline.bind (outline_cancel hproper.mine) fun _ => hnothing stable_true
    | finish =>
      refine Outline.bind_outcome (outline_finish hproper) (fun manifest => ?_)
        fun _ => hnothing stable_true
      refine Outline.given stable_publishes fun hown => ?_
      have hnote : (regime codec sha256 owner).Correct i (fun w => w.Publishes sha256 manifest)
          (.note (.finished manifest)) fun _ _ => True :=
        correct_of_permitted (fun _ _ h => ⟨hown, h⟩) fun _ _ _ _ _ _ _ _ => trivial
      exact .op (stable_publishes hown) hnote fun _ => hnothing stable_true
    | «begin» _ | resume _ | drop => exact hdropped

/-- Any calls of a thread, one after the other. -/
theorem outline_calls [DecidableEq δ] (consent : ℕ → Consent) :
    Outline (regime codec sha256 owner) i (fun _ => True)
      (calls codec sha256 (owner i) consent) fun _ _ => True := by
  refine .pre stable_true ?_ (Outline.forever
    (L := fun s : ℕ × Option (IncomingTransfer δ) => Stands (owner i) i s.2)
    (fun s => ?_) fun _ => stable_true)
  · exact fun _ _ _ => trivial
  obtain ⟨n, held⟩ := s
  have hnext : (regime codec sha256 owner).Correct i (Stands (owner i) i held)
      (.next (held.map IncomingTransfer.id)) fun _ => Stands (owner i) i held :=
    correct_of_permitted (fun _ _ _ => trivial) fun _ _ _ _ h hdoes _ _ => hdoes ▸ h
  refine .op (stable_stands held) hnext fun call => ?_
  refine Outline.bind (outline_carryOut (consent n) held call) fun held' => ?_
  exact .ret (stable_stands held') fun _ _ h => h

end FolderSafety

/-! ## Every run -/

section Runs

variable {codec : MetadataCodec δ} {owner : ι → PublicKey}

theorem FolderWorld.Fresh.sound {w : FolderWorld ι δ} (h : w.Fresh) : w.Sound codec owner where
  own name inode hown hentry := by
    rw [h.entries name hown] at hentry
    cases hentry
  drawn inode name horigin := by
    rw [h.origin] at horigin
    cases horigin
  single inode inode' name horigin _ := by
    rw [h.origin] at horigin
    cases horigin
  published name inode _ _ := .inl (h.origin inode)
  records inode id j metadata horigin _ := by
    rw [h.origin] at horigin
    cases horigin
  owners id j metadata hdrawn := by
    rw [h.drawn] at hdrawn
    cases hdrawn
  fits id j metadata hdrawn := by
    rw [h.drawn] at hdrawn
    cases hdrawn

variable [DecidableEq ι] [DecidableEq δ] {sha256 : List UInt8 → δ} {consent : ι → ℕ → Consent}

open FolderSafety in
theorem receiving_outlined {s : Pool (FileOp δ) ι (FolderWorld ι δ)}
    (hs : (receiving codec sha256 owner consent).Reachable s) :
    Outline.Outlined (regime codec sha256 owner) (fun _ _ => True) s := by
  refine Outline.sound (fun i => outline_calls (consent i)) (fun w hfresh => ?_) hs
  refine ⟨⟨hfresh.sound, fun manifest hmem => ?_⟩, fun _ => trivial⟩
  rw [hfresh.finished] at hmem
  cases hmem

/-- A step from a state that was reached keeps what all steps keep: it evolves the folder, and moves
only what is the owner's. -/
theorem receiving_step {s t : Pool (FileOp δ) ι (FolderWorld ι δ)} {i : ι}
    (hs : (receiving codec sha256 owner consent).Reachable s)
    (hstep : (receiving codec sha256 owner consent).step s i t) :
    s.world.Evolves t.world ∧ FolderWorld.Moves owner i s.world t.world := by
  obtain ⟨-, hevolves, hmoves, -⟩ := (receiving_outlined hs).step hstep
  exact ⟨hevolves, hmoves⟩

/-- An entry that is no transfer's own stays, with its contents, whatever is done. The induction is
on the run. -/
theorem entry_stays {name : String} {inode : ℕ} (hown : ¬IsOwn name)
    {run : List (ι × Pool (FileOp δ) ι (FolderWorld ι δ))} :
    ∀ {s : Pool (FileOp δ) ι (FolderWorld ι δ)} {contents : List UInt8},
      (receiving codec sha256 owner consent).Reachable s →
      (receiving codec sha256 owner consent).IsRun s run →
      s.world.entries name = some inode ∧ s.world.contents inode = contents →
      LTS.Keeps (fun t => t.world.entries name = some inode ∧ t.world.contents inode = contents)
        s run := by
  induction run with
  | nil => exact fun _ _ h => h
  | cons x rest ih =>
    obtain ⟨i, t⟩ := x
    rintro s contents hs ⟨hstep, hrun⟩ ⟨hentry, hcontents⟩
    obtain ⟨hevolves, -⟩ := receiving_step hs hstep
    obtain ⟨hentry', hcontents'⟩ := hevolves.entries name inode hown hentry
    exact ⟨⟨hentry, hcontents⟩, ih (hs.step hstep) hrun ⟨hentry', hcontents'.trans hcontents⟩⟩

/-- **Safety of the receive folder.** Entries that are no transfer's own are never removed, replaced
or changed; every manifest that `finish` has returned is that of a file that is there; and no step
made for an owner touches a transfer that was begun for another. -/
theorem receive_folder_safe {s : Pool (FileOp δ) ι (FolderWorld ι δ)}
    (hs : (receiving codec sha256 owner consent).Reachable s) :
    (∀ run, (receiving codec sha256 owner consent).IsRun s run → ∀ name inode, ¬IsOwn name →
      s.world.entries name = some inode → LTS.Keeps (fun t => t.world.entries name = some inode ∧
        t.world.contents inode = s.world.contents inode) s run) ∧
    (∀ manifest ∈ s.world.finished, s.world.Publishes sha256 manifest) ∧
    ∀ i t, (receiving codec sha256 owner consent).step s i t → ∀ id j metadata,
      s.world.drawn id = some (j, metadata) → owner j ≠ owner i →
      FolderWorld.Undisturbed id s.world t.world := by
  obtain ⟨⟨hsound, hfinished⟩, -⟩ := receiving_outlined hs
  refine ⟨fun run hrun name inode hown hentry => entry_stays hown hs hrun ⟨hentry, rfl⟩,
    fun manifest hmem => (hfinished manifest hmem).2, ?_⟩
  intro i t hstep id j metadata hdrawn hother
  exact (receiving_step hs hstep).2.undisturbed hsound hdrawn hother

end Runs

namespace TwoOwners

def sha256 (_ : List UInt8) : Sha256Digest := Vector.replicate 32 0
def owner (i : Bool) : PublicKey := Vector.replicate 32 (if i then 1 else 0)
def consent (_ : Bool) (_ : ℕ) : Consent := ⟨.of [.fileManager], .of [.fileManager], .active⟩

abbrev World := FolderWorld Bool Sha256Digest

/-- The transfer of an empty file. -/
def metadata (i : Bool) (name : String) : Metadata Sha256Digest :=
  ⟨1, owner i, ⟨name, 0, sha256 []⟩⟩

section Worlds

variable (i : Bool) (w : World)

def drew (id : TransferId) (metadata : Metadata Sha256Digest) : World :=
  { w with drawn := Function.update w.drawn id (some (i, metadata)) }

def created (name : String) (h : Handle) (inode : ℕ) : World :=
  { w.opened h ⟨inode, 0, i⟩ with
    entries := Function.update w.entries name (some inode)
    contents := Function.update w.contents inode []
    origin := Function.update w.origin inode (some name) }

def locked (h : Handle) (inode : ℕ) : World :=
  { w with locks := Function.update w.locks inode (some h) }

def wrote (h : Handle) (inode : ℕ) (bytes : List UInt8) : World :=
  { w.moved h ⟨inode, 0, i⟩ bytes.length with contents := Function.update w.contents inode bytes }

/-- With a transfer begun, whose files have these inodes. -/
def begun (id : TransferId) (name : String) (h inode inode' : ℕ) : World :=
  (wrote i (created i (locked (created i (drew i w id (metadata i name)) id.partName h inode) h
    inode) id.metaName (h + 1) inode') (h + 1) inode'
      (metadataPostcard.encode (metadata i name))).closed (h + 1)

end Worlds

variable {i : Bool} {w : World}

theorem creates {name : String} {h : Handle} {inode : ℕ} (hname : w.entries name = none)
    (hh : w.files h = none) (hinode : w.Unused inode) : (receiveFolder Bool Sha256Digest).step i w
      (.createNew name) (.ok h) (created i w name h inode) :=
  ⟨hname, hh, inode, hinode, rfl⟩

theorem created_unused {inode inode' : ℕ} (name : String) (h : Handle) (hinode : w.Unused inode')
    (hne : inode' ≠ inode) : (created i w name h inode).Unused inode' := by
  refine ⟨fun name' hname' => ?_, fun h' file hfile => ?_, ?_⟩
  · simp only [created, Function.update_apply] at hname'
    split at hname'
    · exact hne.symm (Option.some.inj hname')
    · exact hinode.1 name' hname'
  · simp only [created, FolderWorld.opened, Function.update_apply] at hfile
    split at hfile
    · obtain rfl := Option.some.inj hfile
      exact hne.symm
    · exact hinode.2.1 h' file hfile
  · exact (Function.update_of_ne hne ..).trans hinode.2.2

/-- A whole file is written with one call. -/
theorem writes {h : Handle} {inode : ℕ} {bytes : List UInt8} (hbytes : bytes ≠ [])
    (hfile : w.files h = some ⟨inode, 0, i⟩) (hempty : w.contents inode = []) :
    Prog.RunsOn (receiveFolder Bool Sha256Digest) i (writeAll h bytes) w (.ok ())
      (wrote i w h inode bytes) := by
  have hwrite : (receiveFolder Bool Sha256Digest).step i w (.write h bytes) (.ok bytes.length)
      (wrote i w h inode bytes) := by
    refine ⟨_, hfile, le_rfl, ?_⟩
    simp [hempty, wrote, FolderWorld.overwrite, FolderWorld.moved]
  have hdone := Prog.RunsOn.ret (M := receiveFolder Bool Sha256Digest) (i := i)
    (.ok (.inr ()) : Except FileError (List UInt8 ⊕ Unit)) (wrote i w h inode bytes)
  have hcount : bytes.length ≠ 0 := by simpa using hbytes
  refine .pass (t := []) ?_ (.done hdone)
  rw [if_neg hbytes]
  refine .seq (.op hwrite (.ret _ _)) (.seq (.check hcount) ?_)
  rw [List.drop_length]
  exact .ret _ _

/-- The metadata record is created, written, synced and closed. -/
theorem records {id : TransferId} {h : Handle} {inode : ℕ} {bytes : List UInt8}
    (hbytes : bytes ≠ []) (hmeta : w.entries id.metaName = none) (hh : w.files h = none)
    (hinode : w.Unused inode) :
    Prog.RunsOn (receiveFolder Bool Sha256Digest) i (Receiver.writeMetadata id bytes) w
      (true, .ok ()) ((wrote i (created i w id.metaName h inode) h inode bytes).closed h) := by
  have hwrites := writes (i := i) (w := created i w id.metaName h inode) hbytes
    (Function.update_self ..) (Function.update_self ..)
  have hsync : (receiveFolder Bool Sha256Digest).step i
      (wrote i (created i w id.metaName h inode) h inode bytes) (.syncAll h) (.ok ())
      (wrote i (created i w id.metaName h inode) h inode bytes) :=
    ⟨rfl, Option.isSome_of_mem (Function.update_self ..)⟩
  refine .op (creates hmeta hh hinode) ?_
  refine Prog.RunsOn.bind (Prog.RunsOn.seq hwrites (.op hsync (.ret _ _))) ?_
  exact .op (b := ()) rfl (.ret _ _)

theorem begins {name : String} (hname : validName name) {id : TransferId} {h : Handle}
    {inode inode' n : ℕ} (hfree : w.entries name = none) (hid : w.drawn id = none)
    (hpart : w.entries id.partName = none) (hmeta : w.entries id.metaName = none)
    (hh : w.files h = none) (hh' : w.files (h + 1) = none) (hlock : w.locks inode = none)
    (hinode : w.Unused inode) (hinode' : w.Unused inode') (hne : inode ≠ inode') :
    Prog.RunsOn (receiveFolder Bool Sha256Digest) i
      (Receiver.begin metadataPostcard (consent i n) (owner i) ⟨name, 0, sha256 []⟩) w
      (.ok ⟨h, metadata i name, id, 0⟩) (begun i w id name h inode inode') := by
  have hconsent : (consent i n).require .fileManager = .ok () := by
    simp only [consent]
    decide
  have hlocks : (receiveFolder Bool Sha256Digest).step i
      (created i (drew i w id (metadata i name)) id.partName h inode) (.tryLockExclusive h) (.ok ())
      (locked (created i (drew i w id (metadata i name)) id.partName h inode) h inode) := by
    refine ⟨⟨inode, 0, i⟩, Function.update_self .., ?_, rfl⟩
    intro h' (hheld : w.locks inode = some h')
    rw [hlock] at hheld
    cases hheld
  have hmeta' : Function.update w.entries id.partName (some inode) id.metaName = none := by
    rw [Function.update_of_ne TransferId.partName_ne_metaName.symm, hmeta]
  have hh'' : Function.update w.files h (some ⟨inode, 0, i⟩) (h + 1) = none := by
    rw [Function.update_of_ne (Nat.succ_ne_self h), hh']
  have hunused : (created i (drew i w id (metadata i name)) id.partName h inode).Unused inode' :=
    created_unused id.partName h hinode' hne.symm
  have hencode : metadataPostcard.encode (metadata i name) ≠ [] := by
    simp [metadataPostcard, metadataCode]
  refine .seq (.ofExcept (by rw [hconsent]; rfl)) (.seq (.check ⟨hname, Nat.zero_le _⟩) ?_)
  refine .op (b := Except.error IoError.notFound) ⟨rfl, fun _ => hfree⟩ ?_
  refine .op (b := id) ⟨hid, rfl⟩ ?_
  refine .op (creates hpart hh hinode) ?_
  refine .op hlocks ?_
  refine Prog.RunsOn.seq (Prog.RunsOn.lift (records hencode hmeta' hh'' hunused)) ?_
  exact .op (b := Except.ok ()) rfl (.ret _ _)

/-- With the transfer of an empty file published, and its own files gone. -/
def published (w : World) (id : TransferId) (name : String) (h : Handle) (inode : ℕ) : World :=
  { w with
    entries := Function.update (Function.update (Function.update w.entries name (some inode))
      id.partName none) id.metaName none }.closed h

theorem finishes {name : String} {id : TransferId} {h : Handle} {inode n : ℕ}
    (hfile : w.files h = some ⟨inode, 0, i⟩) (hempty : w.contents inode = [])
    (hfree : w.entries name = none) (hpart : w.entries id.partName = some inode)
    (hmeta : (w.entries id.metaName).isSome) (hnames : id.partName ≠ name ∧ id.metaName ≠ name) :
    Prog.RunsOn (receiveFolder Bool Sha256Digest) i
      (IncomingTransfer.finish sha256 ⟨h, metadata i name, id, 0⟩ (consent i n)) w
      (.ok ⟨name, 0, sha256 []⟩) (published w id name h inode) := by
  have hconsent : (consent i n).require .fileManager = .ok () := by
    simp only [consent]
    decide
  have hmoved : w.moved h ⟨inode, 0, i⟩ 0 = w := by
    simp [FolderWorld.moved, FolderWorld.opened, ← hfile]
  have hseek : (receiveFolder Bool Sha256Digest).step i w (.seek h 0) (.ok ()) w :=
    ⟨_, hfile, hmoved.symm⟩
  have hread : (receiveFolder Bool Sha256Digest).step i w (.read h CHUNK_SIZE) (.ok []) w :=
    ⟨_, hfile, Nat.zero_le _, List.nil_prefix, fun _ => .inr (by simp [hempty]), hmoved.symm⟩
  have hsync : (receiveFolder Bool Sha256Digest).step i w (.syncAll h) (.ok ()) w :=
    ⟨rfl, Option.isSome_of_mem hfile⟩
  have hlink : (receiveFolder Bool Sha256Digest).step i w (.hardLink id.partName name) (.ok ())
      { w with entries := Function.update w.entries name (some inode) } :=
    ⟨inode, hpart, hfree, rfl⟩
  have hthere : (Function.update w.entries name (some inode) id.partName).isSome := by
    rw [Function.update_of_ne hnames.1, hpart]
    rfl
  have hthere' : (Function.update (Function.update w.entries name (some inode)) id.partName none
      id.metaName).isSome := by
    rw [Function.update_of_ne TransferId.partName_ne_metaName.symm, Function.update_of_ne hnames.2]
    exact hmeta
  have hhash : Prog.RunsOn (receiveFolder Bool Sha256Digest) i
      (IncomingTransfer.prefixHash sha256 ⟨h, metadata i name, id, 0⟩) w (.ok (sha256 [])) w := by
    refine .op hseek (.seq (.done (.op hread (.ret _ _))) (.op hseek (.ret _ _)))
  have hbody : Prog.RunsOn (receiveFolder Bool Sha256Digest) i (do
      requireFiles (consent i n)
      Fallible.check ((0 : ℕ) = 0) .integrity
      let hash ← IncomingTransfer.prefixHash sha256 ⟨h, metadata i name, id, 0⟩
      Fallible.check (hash = sha256 []) .integrity
      io (.syncAll h)
      io (.hardLink id.partName name)
      io (.removeFile id.partName)
      io (.removeFile id.metaName) : FileProg Sha256Digest Unit) w (.ok ())
      { w with
        entries := Function.update (Function.update (Function.update w.entries name (some inode))
          id.partName none) id.metaName none } := by
    refine .seq (.ofExcept (by rw [hconsent]; rfl)) (.seq (.check rfl) (.seq hhash ?_))
    refine .seq (.check rfl) (.op hsync (.op hlink ?_))
    exact .op (b := Except.ok ()) ⟨hthere, rfl⟩ (.op (b := Except.ok ()) ⟨hthere', rfl⟩ (.ret _ _))
  exact .seq (Prog.RunsOn.bind hbody (.ret _ _)) (.op (b := ()) rfl (.ret _ _))

theorem wrote_unused {inode other : ℕ} (h : Handle) (bytes : List UInt8) (hother : w.Unused other)
    (hne : other ≠ inode) : (wrote i w h inode bytes).Unused other := by
  refine ⟨hother.1, fun h' file hfile => ?_, hother.2.2⟩
  simp only [wrote, FolderWorld.moved, FolderWorld.opened, Function.update_apply] at hfile
  split at hfile
  · obtain rfl := Option.some.inj hfile
    exact hne.symm
  · exact hother.2.1 h' file hfile

theorem closed_unused {other : ℕ} (h : Handle) (hother : w.Unused other) :
    (w.closed h).Unused other := by
  refine ⟨hother.1, fun h' file hfile => ?_, hother.2.2⟩
  simp only [FolderWorld.closed, Function.update_apply] at hfile
  split at hfile
  · cases hfile
  · exact hother.2.1 h' file hfile

theorem begun_unused {inode inode' other : ℕ} (id : TransferId) (name : String) (h : Handle)
    (hother : w.Unused other) (hne : other ≠ inode) (hne' : other ≠ inode') :
    (begun i w id name h inode inode').Unused other :=
  closed_unused _ (wrote_unused _ _ (created_unused _ _ (w := locked (created i (drew i w id
    (metadata i name)) id.partName h inode) h inode) (created_unused (w := drew i w id
      (metadata i name)) _ _ hother hne) hne') hne')

def folder : World where
  entries name := if name = "notes.txt" then some 0 else none
  contents _ := [104, 105]
  files _ := none
  locks _ := none
  drawn _ := none
  origin _ := none
  finished := []

theorem sixteen_zeros : (List.replicate 16 (0 : UInt8)).length = 16 := List.length_replicate

def report : TransferId := ⟨List.replicate 16 0, sixteen_zeros⟩
def photo : TransferId := ⟨List.replicate 16 1, rfl⟩

/-- The one owner's transfer is begun, then the other's, and then that is finished. -/
def reported : World := begun true folder report "report" 0 1 2
def both : World := begun false reported photo "photo" 2 3 4
def finished : World :=
  { published both photo "photo" 2 3 with finished := [⟨"photo", 0, sha256 []⟩] }

def start : Pool (FileOp Sha256Digest) Bool World :=
  ⟨folder, fun i => some (calls metadataPostcard sha256 (owner i) (consent i))⟩

theorem notes_not_own : ¬IsOwn "notes.txt" := by
  rintro ⟨rest, hrest⟩
  simp [TRANSFER_PREFIX] at hrest

theorem folder_fresh : folder.Fresh := by
  refine ⟨fun name hown => ?_, fun _ => rfl, fun _ => rfl, fun _ => rfl, fun _ => rfl, rfl⟩
  apply if_neg
  rintro rfl
  exact notes_not_own hown

theorem folder_unused {inode : ℕ} (h : inode ≠ 0) : folder.Unused inode := by
  refine ⟨fun name hname => ?_, ?_, rfl⟩
  · simp only [folder] at hname
    split at hname
    · exact h (Option.some.inj hname).symm
    · cases hname
  · rintro _ _ ⟨⟩

theorem reported_unused {inode : ℕ} (h : 2 < inode) : reported.Unused inode :=
  begun_unused _ _ _ (folder_unused (by omega)) (by omega) (by omega)

theorem begins_report : Prog.RunsOn (receiveFolder Bool Sha256Digest) true
    (Receiver.begin metadataPostcard (consent true 0) (owner true) ⟨"report", 0, sha256 []⟩) folder
    (.ok ⟨0, metadata true "report", report, 0⟩) reported :=
  begins (by decide) (by decide +kernel) rfl (by decide +kernel) (by decide +kernel) rfl rfl rfl
    (folder_unused (by decide)) (folder_unused (by decide)) (by decide)

theorem begins_photo : Prog.RunsOn (receiveFolder Bool Sha256Digest) false
    (Receiver.begin metadataPostcard (consent false 0) (owner false) ⟨"photo", 0, sha256 []⟩)
    reported (.ok ⟨2, metadata false "photo", photo, 0⟩) both :=
  begins (by decide) (by decide +kernel) rfl (by decide +kernel) (by decide +kernel)
    (by decide +kernel) (by decide +kernel) (by decide +kernel)
    (reported_unused (by decide)) (reported_unused (by decide)) (by decide)

theorem finishes_photo : Prog.RunsOn (receiveFolder Bool Sha256Digest) false
    (IncomingTransfer.finish sha256 ⟨2, metadata false "photo", photo, 0⟩ (consent false 1)) both
    (.ok ⟨"photo", 0, sha256 []⟩) (published both photo "photo" 2 3) :=
  finishes rfl (by decide +kernel) (by decide +kernel) (by decide +kernel) (by decide +kernel)
    ⟨by decide +kernel, by decide +kernel⟩

abbrev system : LTS (Pool (FileOp Sha256Digest) Bool World) Bool :=
  receiving metadataPostcard sha256 owner consent

/-- A call of a thread, and what it goes on with. -/
def callOf (i : Bool) (s : ℕ × Option (IncomingTransfer Sha256Digest)) :
    Prog (FileOp Sha256Digest) (ℕ × Option (IncomingTransfer Sha256Digest) ⊕ Unit) :=
  .op (.next (s.2.map IncomingTransfer.id)) fun call =>
    Prog.bind (carryOut metadataPostcard sha256 (owner i) (consent i s.1) s.2 call) fun held =>
      .ret (.inl (s.1 + 1, held))

/-- What a thread does from here on, at its `n`th call. -/
def serving (i : Bool) (n : ℕ) (held : Option (IncomingTransfer Sha256Digest)) :
    Prog (FileOp Sha256Digest) Unit :=
  .loop (n, held) (callOf i) .ret

/-- A thread carries out a call while the other rests. -/
theorem reachable_call {threads : Bool → Option (Prog (FileOp Sha256Digest) Unit)} {n : ℕ}
    {held held' : Option (IncomingTransfer Sha256Digest)} {p : Prog (FileOp Sha256Digest) Unit}
    {w w' : World} (call : FileCall Sha256Digest) (h : system.Reachable ⟨w, threads⟩)
    (hp : threads i = some p) (hcovers : p.Covers (serving i n held))
    (hrun : (carryOut metadataPostcard sha256 (owner i) (consent i n) held call).RunsOn
      (receiveFolder Bool Sha256Digest) i w held' w') :
    ∃ p' : Prog (FileOp Sha256Digest) Unit, p'.Covers (serving i (n + 1) held') ∧
      system.Reachable ⟨w', Function.update threads i (some p')⟩ := by
  have hpass : (callOf i (n, held)).RunsOn (receiveFolder Bool Sha256Digest) i w
      (.inl (n + 1, held')) w' := .op (b := call) rfl (hrun.bind (.ret _ _))
  exact Pool.reachable_alone (f := Prog.again _ .ret) hpass h hp hcovers.unroll

/-- The other's photo is published while the one's report is being received, and nothing that the
other does from here on disturbs it. -/
theorem photo_published : ∃ s, system.Reachable s ∧
    s.world.finished = [⟨"photo", 0, sha256 []⟩] ∧
    s.world.drawn report = some (true, metadata true "report") ∧
    s.world.entries report.partName = some 1 ∧ s.world.locks 1 = some 0 ∧
    (∀ run, system.IsRun s run → LTS.Keeps (fun t => t.world.entries "notes.txt" = some 0 ∧
      t.world.contents 0 = s.world.contents 0) s run) ∧
    s.world.Publishes sha256 ⟨"photo", 0, sha256 []⟩ ∧
    ∀ t, system.step s false t → FolderWorld.Undisturbed report s.world t.world := by
  have hstart : system.Reachable ⟨folder, start.threads⟩ := .init ⟨folder_fresh, rfl⟩
  have hone : start.threads true = some (serving true 0 none) := rfl
  obtain ⟨p, -, hreport⟩ := reachable_call (.begin ⟨"report", 0, sha256 []⟩) hstart hone
    (fun _ _ _ _ h => h) (Prog.RunsOn.bind begins_report (.op (b := ()) rfl (.ret _ _)))
  have hother : Function.update start.threads true (some p) false =
      some (serving false 0 none) := rfl
  obtain ⟨q, hq, hphoto⟩ := reachable_call (.begin ⟨"photo", 0, sha256 []⟩) hreport hother
    (fun _ _ _ _ h => h) (Prog.RunsOn.bind begins_photo (.op (b := ()) rfl (.ret _ _)))
  obtain ⟨r, -, hs⟩ := reachable_call .finish hphoto (Function.update_self ..) hq
    (Prog.RunsOn.bind finishes_photo (.op (b := ()) rfl (.ret _ _)))
  obtain ⟨hstays, hpublishes, hspares⟩ := receive_folder_safe hs
  have hdrawn : finished.drawn report = some (true, metadata true "report") := by decide +kernel
  have hpart : finished.entries report.partName = some 1 := by decide +kernel
  have hlocked : finished.locks 1 = some 0 := by decide +kernel
  have hnotes : finished.entries "notes.txt" = some 0 := by decide +kernel
  refine ⟨_, hs, rfl, hdrawn, hpart, hlocked, ?_, ?_, ?_⟩
  · exact fun run hrun => hstays run hrun "notes.txt" 0 notes_not_own hnotes
  · exact hpublishes _ (.head _)
  · exact fun t hstep => hspares false t hstep report true _ hdrawn (by decide)

end TwoOwners
end SensorRemote
