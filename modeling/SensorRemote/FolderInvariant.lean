import SensorRemote.Folder

/-!
# The invariant of the receive folder

Any number of threads use one receive folder, each on behalf of an owner key. The folder is shared
and the calls of the threads interleave, so nothing is proved of one program at a time. Instead the
module states which operations a thread may perform, as a predicate of the folder it performs them
on (`Permitted`): a transfer's own names are created once, by the thread that drew its identifier;
its partial file is written under its lock, at the end, up to the size of its manifest; and only a
whole file is linked.

Two things follow for every step of a permitted operation, whatever the call answers:

* the step keeps the invariant of the folder, `Sound` (`Permitted.sound`), and moves only files of
  the thread's owner (`Permitted.moves`), so transfers of other owners are left alone
  (`Moves.undisturbed`);

* what another thread knows of its open files, and of the transfers it has drawn but not finished
  beginning, survives the step (`Permitted.leaves`).

The programs of the source are shown to stay within `Permitted` elsewhere, each on its own, with the
second point as the licence to forget about the others between two calls.
-/

namespace SensorRemote

open Program

/-! ## The names of transfers -/

/-- The name is one of those transfers have for themselves: every partial file and every metadata
file begins with this, and `valid_name` refuses such names. -/
def IsOwn (name : String) : Prop := TRANSFER_PREFIX.toList <+: name.toList

/-- A peer cannot name a file so that it collides with a partial file or with metadata: both begin
with a dot, and `valid_name` refuses names that do. -/
theorem validName_not_own {name : String} (h : validName name) : ¬IsOwn name := by
  intro hown
  have hhead : name.toList.head? = some '.' := by
    obtain ⟨rest, hrest⟩ := hown
    simp [← hrest, TRANSFER_PREFIX]
  simp [validName, hhead] at h

theorem validName_short {name : String} (h : validName name) : name.utf8ByteSize ≤ 180 := by
  by_contra hlong
  simp [validName, Nat.not_le.mp hlong] at h

/-- Two bytes with the same pair of digits are the same: the high digit and the low digit each give
back four bits. -/
theorem hex_injective {b b' : UInt8} (h : hex b = hex b') : b = b' := by
  have hdigit : ∀ m < 16, ∀ n < 16, Nat.digitChar m = Nat.digitChar n → m = n := by decide
  have hb := b.toNat_lt
  have hb' := b'.toNat_lt
  simp only [hex, List.cons.injEq, and_true] at h
  have hhigh := hdigit _ (by omega) _ (by omega) h.1
  have hlow := hdigit _ (by omega) _ (by omega) h.2
  apply UInt8.toNat_inj.mp
  omega

/-- The hexadecimal text of an identifier determines it, as identifiers have one length. -/
theorem flatMap_hex_injective : ∀ {bytes bytes' : List UInt8}, bytes.length = bytes'.length →
    bytes.flatMap hex = bytes'.flatMap hex → bytes = bytes'
  | [], [], _, _ => rfl
  | b :: bytes, b' :: bytes', hlength, h => by
    simp only [List.flatMap_cons] at h
    obtain ⟨hhead, htail⟩ := List.append_inj h rfl
    rw [hex_injective hhead, flatMap_hex_injective (Nat.succ.inj hlength) htail]

namespace TransferId

theorem isOwn_name (id : TransferId) (extension : String) : IsOwn (id.name extension) := by
  refine ⟨id.bytes.flatMap hex ++ ['.'] ++ extension.toList, ?_⟩
  simp [name]

/-- A name of a transfer determines the identifier and the extension, for extensions of one length;
`part` and `json` are both four characters long. -/
theorem name_inj {id id' : TransferId} {extension extension' : String}
    (hlength : extension.toList.length = extension'.toList.length)
    (h : id.name extension = id'.name extension') :
    id = id' ∧ extension.toList = extension'.toList := by
  obtain ⟨bytes, hbytes⟩ := id
  obtain ⟨bytes', hbytes'⟩ := id'
  have hlist := String.ofList_injective h
  obtain ⟨hfront, hextension⟩ := List.append_inj' hlist hlength
  obtain ⟨hfront, -⟩ := List.append_inj' hfront rfl
  have hhex := List.append_cancel_left hfront
  obtain rfl := flatMap_hex_injective (hbytes.trans hbytes'.symm) hhex
  exact ⟨rfl, hextension⟩

theorem partName_inj {id id' : TransferId} (h : id.partName = id'.partName) : id = id' :=
  (name_inj rfl h).1

theorem metaName_inj {id id' : TransferId} (h : id.metaName = id'.metaName) : id = id' :=
  (name_inj rfl h).1

theorem partName_ne_metaName {id id' : TransferId} : id.partName ≠ id'.metaName := by
  intro h
  have hextension := (name_inj (by decide) h).2
  revert hextension
  decide

/-- The name is one of the two of the transfer: the partial file's, or that of its metadata. -/
def Owns (id : TransferId) (name : String) : Prop := name = id.partName ∨ name = id.metaName

theorem Owns.isOwn {id : TransferId} {name : String} (h : id.Owns name) : IsOwn name := by
  rcases h with rfl | rfl <;> exact isOwn_name _ _

/-- A name belongs to one transfer at most, so creating it under a fresh identifier can hit nobody
else's file. -/
theorem Owns.unique {id id' : TransferId} {name : String} (h : id.Owns name)
    (h' : id'.Owns name) : id = id' := by
  rcases h with rfl | rfl <;> rcases h' with h' | h'
  · exact partName_inj h'
  · exact (partName_ne_metaName h').elim
  · exact (partName_ne_metaName h'.symm).elim
  · exact metaName_inj h'

end TransferId

/-! ## Operations that are permitted -/

namespace FolderWorld

variable {ι δ : Type}

/-- A file of this name was created in this run. The ghost field `origin` remembers under which name
an inode was created, and keeps it when the name is removed. -/
def Created (w : FolderWorld ι δ) (name : String) : Prop := ∃ inode, w.origin inode = some name

/-- If the file is open, it is the thread that opened it; handles of other threads are out of
reach. -/
def Mine (w : FolderWorld ι δ) (i : ι) (h : Handle) : Prop :=
  ∀ file, w.files h = some file → file.thread = i

/-- The destination of the manifest has what the manifest describes: as many bytes, with its
hash. -/
def Publishes (w : FolderWorld ι δ) (sha256 : List UInt8 → δ) (manifest : Manifest δ) : Prop :=
  ∃ inode, w.entries manifest.name = some inode ∧
    (w.contents inode).length = manifest.size ∧ sha256 (w.contents inode) = manifest.sha256

variable (codec : MetadataCodec δ) (owner : ι → PublicKey) (i : ι) (w : FolderWorld ι δ)

/-- What a thread may write. Chunks go to the end of a partial file it has locked, and stay within
the size of the manifest. Metadata is written by the thread that drew the identifier, and what is
there is always a beginning of its encoding, so that a write that is cut short leaves no other
record. -/
inductive MayWrite (h : Handle) (bytes : List UInt8) : Prop where
  | part {inode : ℕ} {id : TransferId} {j : ι} {metadata : Metadata δ}
      (file : w.files h = some ⟨inode, (w.contents inode).length, i⟩)
      (origin : w.origin inode = some id.partName) (lock : w.locks inode = some h)
      (drawn : w.drawn id = some (j, metadata)) (begun : j = i ∨ w.Created id.metaName)
      (mine : metadata.owner = owner i) (some_bytes : bytes ≠ [])
      (fits : (w.contents inode).length + bytes.length ≤ metadata.manifest.size)
  | record {inode : ℕ} {id : TransferId} {metadata : Metadata δ}
      (file : w.files h = some ⟨inode, (w.contents inode).length, i⟩)
      (origin : w.origin inode = some id.metaName) (drawn : w.drawn id = some (i, metadata))
      (encodes : w.contents inode ++ bytes <+: codec.encode metadata)

/-- The operations that are permitted to a thread in a folder. Reading needs nothing; every
operation that changes a file or an open file needs that the file is the thread's, or its
owner's. -/
def Permitted (sha256 : List UInt8 → δ) : {β : Type} → FileOp δ β → Prop
  | _, .createNew name => ∃ id metadata, w.drawn id = some (i, metadata) ∧ id.Owns name ∧
      ¬w.Created name
  | _, .write h bytes => MayWrite codec owner i w h bytes
  | _, .hardLink source target => ∃ id j metadata, source = id.partName ∧ ¬IsOwn target ∧
      w.drawn id = some (j, metadata) ∧ metadata.owner = owner i ∧
      ∀ inode, w.origin inode = some source → (w.contents inode).length = metadata.manifest.size
  | _, .removeFile name => ∃ id j metadata, id.Owns name ∧ w.drawn id = some (j, metadata) ∧
      metadata.owner = owner i
  | _, .fillBytes metadata => metadata.owner = owner i ∧ metadata.Fits
  | _, .tryLockExclusive h | _, .read h _ | _, .seek h _ | _, .close h => w.Mine i h
  | _, .note (.finished manifest) => ¬IsOwn manifest.name ∧ w.Publishes sha256 manifest
  | _, _ => True

/-! ## The invariant -/

/-- The invariant of the folder. An own name has the inode that was created under it, which belongs
to the transfer that was drawn (`own`, `drawn`, `single`). A file that has reached a name a peer
chose is whole (`published`), and metadata is a beginning of the record that was drawn with the
identifier (`records`, `owners`, `fits`). -/
structure Sound : Prop where
  own : ∀ name inode, IsOwn name → w.entries name = some inode → w.origin inode = some name
  drawn : ∀ inode name, w.origin inode = some name → ∃ id x, w.drawn id = some x ∧ id.Owns name
  single : ∀ inode inode' name, w.origin inode = some name → w.origin inode' = some name →
    inode = inode'
  /-- what has another name as well is whole -/
  published : ∀ name inode, ¬IsOwn name → w.entries name = some inode →
    w.origin inode = none ∨ ∃ id j metadata, w.origin inode = some id.partName ∧
      w.drawn id = some (j, metadata) ∧ (w.contents inode).length = metadata.manifest.size
  records : ∀ inode id j metadata, w.origin inode = some id.metaName →
    w.drawn id = some (j, metadata) → w.contents inode <+: codec.encode metadata
  owners : ∀ id j metadata, w.drawn id = some (j, metadata) → metadata.owner = owner j
  fits : ∀ id j metadata, w.drawn id = some (j, metadata) → metadata.Fits

variable {codec owner i w} {w' : FolderWorld ι δ} {sha256 : List UInt8 → δ}

/-- The invariant speaks of names, contents and what was drawn; steps that only move positions or
locks keep it. -/
theorem Sound.sameFolder (h : w.Sound codec owner) (hsame : w.SameFolder w') :
    w'.Sound codec owner := by
  obtain ⟨hentries, hcontents, hdrawn, horigin⟩ := hsame
  constructor
  · rw [hentries, horigin]
    exact h.own
  · rw [horigin, hdrawn]
    exact h.drawn
  · rw [horigin]
    exact h.single
  · rw [hentries, horigin, hdrawn, hcontents]
    exact h.published
  · rw [horigin, hdrawn, hcontents]
    exact h.records
  · rw [hdrawn]
    exact h.owners
  · rw [hdrawn]
    exact h.fits

/-- Creating a transfer's own name under a fresh inode. The inode has no history yet, and no other
inode was created under the name, which is what `single` asks. -/
theorem Sound.create (h : w.Sound codec owner) {name : String} {inode : ℕ} {file : Handle}
    (hpermitted : ∃ id metadata, w.drawn id = some (i, metadata) ∧ id.Owns name ∧ ¬w.Created name)
    (hunused : w.Unused inode) : FolderWorld.Sound codec owner { w.opened file ⟨inode, 0, i⟩ with
      entries := Function.update w.entries name (some inode)
      contents := Function.update w.contents inode []
      origin := Function.update w.origin inode (some name) } := by
  obtain ⟨id, metadata, hdrawn, howns, hnew⟩ := hpermitted
  obtain ⟨hnames, -, hfree⟩ := hunused
  constructor
  · intro name' inode' hown hentry
    simp only [Function.update_apply] at hentry ⊢
    split at hentry
    · rename_i heq
      rw [if_pos (Option.some.inj hentry).symm, heq]
    · have hne : inode' ≠ inode := fun heq => hnames name' (heq ▸ hentry)
      rw [if_neg hne]
      exact h.own name' inode' hown hentry
  · intro inode' name' horigin
    simp only [Function.update_apply] at horigin
    split at horigin
    · obtain rfl := Option.some.inj horigin
      exact ⟨id, _, hdrawn, howns⟩
    · exact h.drawn inode' name' horigin
  · intro inode₁ inode₂ name' h₁ h₂
    simp only [Function.update_apply] at h₁ h₂
    split at h₁ <;> split at h₂
    · simp_all
    · exact (hnew ⟨inode₂, (Option.some.inj h₁) ▸ h₂⟩).elim
    · exact (hnew ⟨inode₁, (Option.some.inj h₂) ▸ h₁⟩).elim
    · exact h.single inode₁ inode₂ name' h₁ h₂
  · intro name' inode' hown hentry
    simp only [Function.update_apply] at hentry ⊢
    split at hentry
    · rename_i heq
      exact (hown (heq ▸ howns.isOwn)).elim
    · have hne : inode' ≠ inode := fun heq => hnames name' (heq ▸ hentry)
      simp only [if_neg hne]
      exact h.published name' inode' hown hentry
  · intro inode' id' j metadata' horigin hdrawn'
    simp only [Function.update_apply] at horigin ⊢
    split at horigin
    · rename_i heq
      rw [if_pos heq]
      exact List.nil_prefix
    · rename_i hne
      rw [if_neg hne]
      exact h.records inode' id' j metadata' horigin hdrawn'
  · exact h.owners
  · exact h.fits

/-- Writing at the end of a file appends. -/
theorem overwrite_end (old bytes : List UInt8) : overwrite old old.length bytes = old ++ bytes := by
  simp [overwrite]

/-- Either kind of permitted write appends what it was given to the file. -/
theorem MayWrite.adds {h : Handle} {bytes : List UInt8} (hwrite : MayWrite codec owner i w h bytes)
    {count : ℕ} (hdoes : w.Does i (.write h bytes : FileOp δ _) (.ok count) w') :
    ∃ inode, w.files h = some ⟨inode, (w.contents inode).length, i⟩ ∧
      w' = { w.moved h ⟨inode, (w.contents inode).length, i⟩
      ((w.contents inode).length + count) with
        contents := Function.update w.contents inode (w.contents inode ++ bytes.take count) } := by
  obtain ⟨file, hfile, -, rfl⟩ := hdoes
  have hown : ∃ inode, w.files h = some ⟨inode, (w.contents inode).length, i⟩ := by
    cases hwrite with
    | part hmine | record hmine => exact ⟨_, hmine⟩
  obtain ⟨inode, hmine⟩ := hown
  obtain rfl := Option.some.inj (hfile.symm.trans hmine)
  exact ⟨inode, hmine, by rw [overwrite_end]⟩

/-- A write keeps the invariant. It adds bytes to one inode only: a partial file that is not yet
whole, so not yet published, or metadata. -/
theorem Sound.write {h : Handle} {bytes : List UInt8} (hsound : w.Sound codec owner)
    (hwrite : MayWrite codec owner i w h bytes) {count : ℕ}
    (hdoes : w.Does i (.write h bytes : FileOp δ _) (.ok count) w') :
    (∀ name inode, ¬IsOwn name → w.entries name = some inode →
      w'.contents inode = w.contents inode) ∧ w'.Sound codec owner := by
  obtain ⟨inode, hmine, rfl⟩ := hwrite.adds hdoes
  have hunpublished : ∀ name, ¬IsOwn name → w.entries name ≠ some inode := by
    intro name hown hentry
    have hpublished := hsound.published name inode hown hentry
    cases hwrite with
    | part hfile horigin _ hdrawn _ _ hsome hfits =>
      obtain ⟨rfl, -⟩ := OpenFile.mk.inj (Option.some.inj (hfile.symm.trans hmine))
      rcases hpublished with hnone | ⟨id', j', metadata', horigin', hdrawn', hwhole⟩
      · rw [horigin] at hnone
        cases hnone
      · rw [horigin] at horigin'
        obtain rfl := TransferId.partName_inj (Option.some.inj horigin')
        obtain ⟨-, rfl⟩ := Prod.mk.inj (Option.some.inj (hdrawn.symm.trans hdrawn'))
        have := List.length_pos_iff.mpr hsome
        omega
    | record hfile horigin _ _ =>
      obtain ⟨rfl, -⟩ := OpenFile.mk.inj (Option.some.inj (hfile.symm.trans hmine))
      rcases hpublished with hnone | ⟨id', j', metadata', horigin', -, -⟩
      · rw [horigin] at hnone
        cases hnone
      · rw [horigin] at horigin'
        exact TransferId.partName_ne_metaName (Option.some.inj horigin').symm
  have hkept : ∀ name inode', ¬IsOwn name → w.entries name = some inode' → inode' ≠ inode :=
    fun name inode' hown hentry heq => hunpublished name hown (heq ▸ hentry)
  refine ⟨fun name inode' hown hentry =>
    Function.update_of_ne (hkept name inode' hown hentry) _ _, hsound.own, hsound.drawn,
    hsound.single, ?_, ?_, hsound.owners, hsound.fits⟩
  · intro name inode' hown hentry
    simp only [Function.update_of_ne (hkept name inode' hown hentry)]
    exact hsound.published name inode' hown hentry
  · intro inode' id j metadata (horigin : w.origin inode' = _) (hdrawn : w.drawn id = _)
    by_cases heq : inode' = inode
    · subst heq
      simp only [Function.update_self]
      cases hwrite with
      | part hfile horigin' =>
        obtain ⟨rfl, -⟩ := OpenFile.mk.inj (Option.some.inj (hfile.symm.trans hmine))
        rw [horigin'] at horigin
        exact (TransferId.partName_ne_metaName (Option.some.inj horigin)).elim
      | record hfile horigin' hdrawn' hencodes =>
        obtain ⟨rfl, -⟩ := OpenFile.mk.inj (Option.some.inj (hfile.symm.trans hmine))
        rw [horigin'] at horigin
        obtain rfl := TransferId.metaName_inj (Option.some.inj horigin)
        obtain ⟨-, rfl⟩ := Prod.mk.inj (Option.some.inj (hdrawn.symm.trans hdrawn'))
        exact ((List.prefix_append_right_inj _).mpr (List.take_prefix count _)).trans hencodes
    · simp only [Function.update_of_ne heq]
      exact hsound.records inode' id j metadata horigin hdrawn

/-- Linking gives a second name to a partial file that is whole, which is what `published` asks of
it. -/
theorem Sound.link (h : w.Sound codec owner) {id : TransferId} {j : ι} {metadata : Metadata δ}
    {target : String} {inode : ℕ} (hown : ¬IsOwn target) (hdrawn : w.drawn id = some (j, metadata))
    (hwhole : ∀ inode, w.origin inode = some id.partName →
      (w.contents inode).length = metadata.manifest.size)
    (hsource : w.entries id.partName = some inode) :
    FolderWorld.Sound codec owner
      { w with entries := Function.update w.entries target (some inode) } := by
  have horigin := h.own _ _ (id.isOwn_name _) hsource
  refine ⟨?_, h.drawn, h.single, ?_, h.records, h.owners, h.fits⟩
  · intro name inode' hown' hentry
    have hne : name ≠ target := fun heq => hown (heq ▸ hown')
    simp only [Function.update_of_ne hne] at hentry
    exact h.own name inode' hown' hentry
  · intro name inode' hown' hentry
    simp only [Function.update_apply] at hentry
    split at hentry
    · obtain rfl := Option.some.inj hentry
      exact .inr ⟨id, j, metadata, horigin, hdrawn, hwhole inode horigin⟩
    · exact h.published name inode' hown' hentry

/-- A removed name takes nothing from the invariant: `origin` still knows the inode. -/
theorem Sound.remove (h : w.Sound codec owner) (name : String) : FolderWorld.Sound codec owner
    { w with entries := Function.update w.entries name none } := by
  have hold : ∀ name' inode, Function.update w.entries name none name' = some inode →
      w.entries name' = some inode := by
    intro name' inode hentry
    rw [Function.update_apply] at hentry
    split at hentry
    · cases hentry
    · exact hentry
  exact ⟨fun name' inode hown hentry => h.own name' inode hown (hold name' inode hentry), h.drawn,
    h.single, fun name' inode hown hentry => h.published name' inode hown (hold name' inode hentry),
    h.records, h.owners, h.fits⟩

/-- Drawing an identifier records its owner and its metadata; that it was new leaves every earlier
record as it was. -/
theorem Sound.draw (h : w.Sound codec owner) {id : TransferId} {metadata : Metadata δ}
    (hmine : metadata.owner = owner i ∧ metadata.Fits) (hnew : w.drawn id = none) :
    FolderWorld.Sound codec owner
      { w with drawn := Function.update w.drawn id (some (i, metadata)) } := by
  have hold : ∀ id' x, w.drawn id' = some x →
      Function.update w.drawn id (some (i, metadata)) id' = some x := by
    intro id' x hdrawn
    have hne : id' ≠ id := by
      rintro rfl
      rw [hnew] at hdrawn
      cases hdrawn
    rwa [Function.update_of_ne hne]
  refine ⟨h.own, ?_, h.single, ?_, ?_, ?_, ?_⟩
  · intro inode name horigin
    obtain ⟨id', x, hdrawn, howns⟩ := h.drawn inode name horigin
    exact ⟨id', x, hold id' x hdrawn, howns⟩
  · intro name inode hown hentry
    apply (h.published name inode hown hentry).imp_right
    rintro ⟨id', j, metadata', horigin, hdrawn, hwhole⟩
    exact ⟨id', j, metadata', horigin, hold _ _ hdrawn, hwhole⟩
  · intro inode id' j metadata' horigin hdrawn
    have hne : id' ≠ id := by
      rintro rfl
      -- no file has the name of an identifier that was not drawn
      obtain ⟨id'', x, hdrawn', howns⟩ := h.drawn inode _ horigin
      obtain rfl := howns.unique (.inr rfl)
      rw [hnew] at hdrawn'
      cases hdrawn'
    simp only [Function.update_of_ne hne] at hdrawn
    exact h.records inode id' j metadata' horigin hdrawn
  · intro id' j metadata' hdrawn
    simp only [Function.update_apply] at hdrawn
    split at hdrawn
    · obtain ⟨rfl, rfl⟩ := Prod.mk.inj (Option.some.inj hdrawn)
      exact hmine.1
    · exact h.owners id' j metadata' hdrawn
  · intro id' j metadata' hdrawn
    simp only [Function.update_apply] at hdrawn
    split at hdrawn
    · obtain ⟨rfl, rfl⟩ := Prod.mk.inj (Option.some.inj hdrawn)
      exact hmine.2
    · exact h.fits id' j metadata' hdrawn

/-- **Permitted steps keep the invariant.** The cases are the operations, and those that change the
folder are the lemmas above. -/
theorem Permitted.sound {β : Type} {o : FileOp δ β} {b : β}
    (hpermitted : Permitted codec owner i w sha256 o) (hsound : w.Sound codec owner)
    (hdoes : w.Does i o b w') : w'.Sound codec owner := by
  by_cases hquiet : o.Quiet
  · exact hsound.sameFolder (sameFolder_of_quiet hquiet hdoes)
  cases o with
  | createNew name =>
    rcases b with e | file
    · obtain rfl := hdoes
      exact hsound
    · obtain ⟨-, -, inode, hunused, rfl⟩ := hdoes
      exact hsound.create hpermitted hunused
  | write file bytes =>
    rcases b with e | count
    · obtain rfl := hdoes
      exact hsound
    · exact (hsound.write hpermitted hdoes).2
  | hardLink source target =>
    rcases b with e | _
    · obtain rfl := hdoes
      exact hsound
    · obtain ⟨inode, hentry, -, rfl⟩ := hdoes
      obtain ⟨id, j, metadata, rfl, hown, hdrawn, -, hwhole⟩ := hpermitted
      exact hsound.link hown hdrawn hwhole hentry
  | removeFile name =>
    rcases b with e | _
    · obtain rfl := hdoes
      exact hsound
    · obtain ⟨-, rfl⟩ := hdoes
      exact hsound.remove name
  | fillBytes metadata =>
    obtain ⟨hnew, rfl⟩ := hdoes
    exact hsound.draw hpermitted hnew
  | note note =>
    cases note <;> obtain rfl := hdoes
    all_goals exact ⟨hsound.own, hsound.drawn, hsound.single, hsound.published, hsound.records,
      hsound.owners, hsound.fits⟩
  | _ => exact (hquiet trivial).elim

/-! ## What steps leave alone -/

/-- What every step keeps: who drew which identifier, which name a file was created under, the files
that are nobody's own, and what metadata is written already. It is reflexive and transitive, so it
holds from any moment of a run to any later one. -/
structure Evolves (w w' : FolderWorld ι δ) : Prop where
  drawn : ∀ id x, w.drawn id = some x → w'.drawn id = some x
  origin : ∀ inode name, w.origin inode = some name → w'.origin inode = some name
  entries : ∀ name inode, ¬IsOwn name → w.entries name = some inode →
    w'.entries name = some inode ∧ w'.contents inode = w.contents inode
  records : ∀ inode id, w.origin inode = some (TransferId.metaName id) →
    w.contents inode <+: w'.contents inode

theorem SameFolder.evolves (h : w.SameFolder w') : w.Evolves w' := by
  obtain ⟨hentries, hcontents, hdrawn, horigin, -⟩ := h
  constructor
  · simp only [hdrawn, imp_self, implies_true]
  · simp only [horigin, imp_self, implies_true]
  · intro name inode _ hentry
    exact ⟨hentries ▸ hentry, by rw [hcontents]⟩
  · intro inode id _
    simp only [hcontents, List.prefix_rfl]

theorem Evolves.created (h : w.Evolves w') {name : String} (hcreated : w.Created name) :
    w'.Created name := by
  obtain ⟨inode, horigin⟩ := hcreated
  exact ⟨inode, h.origin inode name horigin⟩

/-- A published file stays published: nobody overwrites, removes or renames a file that is not a
transfer's own. -/
theorem Evolves.publishes (h : w.Evolves w') {manifest : Manifest δ}
    (hown : ¬IsOwn manifest.name) (hpublishes : w.Publishes sha256 manifest) :
    w'.Publishes sha256 manifest := by
  obtain ⟨inode, hentry, hwhole⟩ := hpublishes
  obtain ⟨hentry', hcontents⟩ := h.entries _ _ hown hentry
  exact ⟨inode, hentry', by rwa [hcontents]⟩

theorem Permitted.evolves {β : Type} {o : FileOp δ β} {b : β}
    (hpermitted : Permitted codec owner i w sha256 o) (hsound : w.Sound codec owner)
    (hdoes : w.Does i o b w') : w.Evolves w' := by
  by_cases hquiet : o.Quiet
  · exact (sameFolder_of_quiet hquiet hdoes).evolves
  cases o with
  | createNew name =>
    rcases b with e | file
    · obtain rfl := hdoes
      exact (SameFolder.refl _).evolves
    · obtain ⟨hnew, -, inode, ⟨hnames, -, hfree⟩, rfl⟩ := hdoes
      -- what was created before has another inode
      have hused : ∀ inode' name', w.origin inode' = some name' → inode' ≠ inode := by
        rintro inode' name' horigin rfl
        rw [hfree] at horigin
        cases horigin
      refine ⟨fun _ _ h => h, ?_, ?_, ?_⟩
      · intro inode' name' horigin
        simpa only [Function.update_of_ne (hused inode' name' horigin)] using horigin
      · intro name' inode' _ hentry
        have hname : name' ≠ name := by
          rintro rfl
          rw [hnew] at hentry
          cases hentry
        have hinode : inode' ≠ inode := fun heq => hnames name' (heq ▸ hentry)
        simpa only [Function.update_of_ne hname, Function.update_of_ne hinode,
          and_true] using hentry
      · intro inode' id horigin
        simp only [Function.update_of_ne (hused inode' _ horigin), List.prefix_rfl]
  | write file bytes =>
    rcases b with e | count
    · obtain rfl := hdoes
      exact (SameFolder.refl _).evolves
    · have hkept := (hsound.write hpermitted hdoes).1
      obtain ⟨inode, hmine, rfl⟩ := MayWrite.adds hpermitted hdoes
      refine ⟨fun _ _ h => h, fun _ _ h => h, fun name inode' hown hentry =>
        ⟨hentry, hkept name inode' hown hentry⟩, ?_⟩
      intro inode' id _
      simp only [Function.update_apply]
      split
      · rename_i heq
        subst heq
        exact List.prefix_append _ _
      · exact List.prefix_rfl
  | hardLink source target =>
    rcases b with e | _
    · obtain rfl := hdoes
      exact (SameFolder.refl _).evolves
    · obtain ⟨inode, -, hfree, rfl⟩ := hdoes
      refine ⟨fun _ _ h => h, fun _ _ h => h, ?_, fun _ _ _ => List.prefix_rfl⟩
      intro name inode' _ hentry
      have hname : name ≠ target := by
        rintro rfl
        rw [hfree] at hentry
        cases hentry
      simpa only [Function.update_of_ne hname, and_true] using hentry
  | removeFile name =>
    rcases b with e | _
    · obtain rfl := hdoes
      exact (SameFolder.refl _).evolves
    · obtain ⟨-, rfl⟩ := hdoes
      obtain ⟨id, j, metadata, howns, -⟩ := hpermitted
      refine ⟨fun _ _ h => h, fun _ _ h => h, ?_, fun _ _ _ => List.prefix_rfl⟩
      intro name' inode hown hentry
      -- only names of the receiver's own are removed
      have hname : name' ≠ name := fun heq => hown (heq ▸ howns.isOwn)
      simpa only [Function.update_of_ne hname, and_true] using hentry
  | fillBytes metadata =>
    obtain ⟨hnew, rfl⟩ := hdoes
    refine ⟨?_, fun _ _ h => h, fun _ _ _ h => ⟨h, rfl⟩, fun _ _ _ => List.prefix_rfl⟩
    intro id x hdrawn
    refine (Function.update_of_ne ?_ _ _).trans hdrawn
    rintro rfl
    rw [hnew] at hdrawn
    cases hdrawn
  | note note =>
    cases note <;> obtain rfl := hdoes
    all_goals exact ⟨fun _ _ h => h, fun _ _ h => h, fun _ _ _ h => ⟨h, rfl⟩,
      fun _ _ _ => List.prefix_rfl⟩
  | _ => exact (hquiet trivial).elim

/-- Only what is published is noted as finished: a new entry of the list is a manifest whose
destination has what it describes at that moment. -/
theorem Permitted.finished {β : Type} {o : FileOp δ β} {b : β}
    (hpermitted : Permitted codec owner i w sha256 o) (hdoes : w.Does i o b w')
    {manifest : Manifest δ} (hmem : manifest ∈ w'.finished) :
    manifest ∈ w.finished ∨ ¬IsOwn manifest.name ∧ w.Publishes sha256 manifest := by
  by_cases hquiet : o.Quiet
  · exact .inl ((sameFolder_of_quiet hquiet hdoes).finished ▸ hmem)
  cases o with
  | createNew name =>
    rcases b with e | file
    · obtain rfl := hdoes
      exact .inl hmem
    · obtain ⟨-, -, inode, -, rfl⟩ := hdoes
      exact .inl hmem
  | write file bytes =>
    rcases b with e | count
    · obtain rfl := hdoes
      exact .inl hmem
    · obtain ⟨old, -, -, rfl⟩ := hdoes
      exact .inl hmem
  | hardLink source target =>
    rcases b with e | _
    · obtain rfl := hdoes
      exact .inl hmem
    · obtain ⟨inode, -, -, rfl⟩ := hdoes
      exact .inl hmem
  | removeFile name =>
    rcases b with e | _
    · obtain rfl := hdoes
      exact .inl hmem
    · obtain ⟨-, rfl⟩ := hdoes
      exact .inl hmem
  | fillBytes metadata =>
    obtain ⟨-, rfl⟩ := hdoes
    exact .inl hmem
  | note note =>
    cases note with
    | finished manifest' =>
      obtain rfl := hdoes
      rcases List.mem_append.mp hmem with hold | hnew
      · exact .inl hold
      · rw [List.mem_singleton.mp hnew]
        exact .inr hpermitted
    | _ =>
      obtain rfl := hdoes
      exact .inl hmem
  | _ => exact (hquiet trivial).elim

/-- What a step through other files leaves of an open file: that it is open, at which position, that
it holds its lock, and, for a locked partial file, its bytes. -/
structure Spares (h : Handle) (w w' : FolderWorld ι δ) : Prop where
  file : ∀ file, w.files h = some file → w'.files h = some file
  lock : ∀ inode, w.locks inode = some h → w'.locks inode = some h
  contents : ∀ inode id, w.locks inode = some h → w.origin inode = some (TransferId.partName id) →
    w'.contents inode = w.contents inode

end FolderWorld

/-- The operation is made through the open file, and changes its position or lock. -/
def FileOp.Through {δ : Type} (h : Handle) : {β : Type} → FileOp δ β → Prop
  | _, .tryLockExclusive h' | _, .write h' _ | _, .read h' _ | _, .seek h' _ | _, .close h' =>
    h' = h
  | _, _ => False

namespace FolderWorld

variable {ι δ : Type} {codec : MetadataCodec δ} {owner : ι → PublicKey} {i : ι}
  {w w' : FolderWorld ι δ} {sha256 : List UInt8 → δ}

theorem Spares.refl (h : Handle) (w : FolderWorld ι δ) : Spares h w w :=
  ⟨fun _ h => h, fun _ h => h, fun _ _ _ _ => rfl⟩

/-- Opening a file under a handle that is not in use touches no other open file. -/
theorem spares_opened {h h' : Handle} (file : OpenFile ι) (hfree : w.files h' = none ∨ h' ≠ h) :
    Spares h w (w.opened h' file) := by
  refine ⟨fun file' hfile => ?_, fun _ h => h, fun _ _ _ _ => rfl⟩
  have hne : h ≠ h' := by
    rintro rfl
    rcases hfree with hnone | hne
    · rw [hnone] at hfile
      cases hfile
    · exact hne rfl
  exact (Function.update_of_ne hne _ _).trans hfile

/-- A permitted step through other files spares an open file. The case that needs the lock is a
write by somebody else: it would have to hold the same lock. -/
theorem Permitted.spares {β : Type} {o : FileOp δ β} {b : β} {h : Handle}
    (hpermitted : Permitted codec owner i w sha256 o) (hother : ¬o.Through h)
    (hdoes : w.Does i o b w') : Spares h w w' := by
  cases o with
  | createNew name =>
    rcases b with e | file
    · obtain rfl := hdoes
      exact .refl _ _
    · obtain ⟨-, hnew, inode, ⟨-, -, hfree⟩, rfl⟩ := hdoes
      have hspared := spares_opened (h := h) ⟨inode, 0, i⟩ (.inl hnew)
      refine ⟨hspared.file, hspared.lock, fun inode' id _ horigin => Function.update_of_ne ?_ _ _⟩
      rintro rfl
      rw [hfree] at horigin
      cases horigin
  | openRead name | openReadWrite name =>
    rcases b with e | file
    · obtain rfl := hdoes
      exact .refl _ _
    · obtain ⟨hnew, inode, -, rfl⟩ := hdoes
      exact spares_opened _ (.inl hnew)
  | tryLockExclusive h' =>
    rcases b with e | _
    · obtain rfl := hdoes
      exact .refl _ _
    · obtain ⟨file, -, hfree, rfl⟩ := hdoes
      refine ⟨fun _ h => h, fun inode hlock => ?_, fun _ _ _ _ => rfl⟩
      refine (Function.update_of_ne ?_ _ _).trans hlock
      rintro rfl
      exact hother (hfree h hlock).symm
  | write h' bytes =>
    rcases b with e | count
    · obtain rfl := hdoes
      exact .refl _ _
    · obtain ⟨inode, hmine, rfl⟩ := MayWrite.adds hpermitted hdoes
      have hspared := spares_opened (w := w) (h := h)
        ⟨inode, (w.contents inode).length + count, i⟩ (.inr hother)
      refine ⟨hspared.file, hspared.lock, fun inode' id hlock horigin =>
        Function.update_of_ne ?_ _ _⟩
      -- a part is written under its lock, which `h` has; a record is no part
      rintro rfl
      cases hpermitted with
      | part hfile _ hlock' =>
        obtain ⟨rfl, -⟩ := OpenFile.mk.inj (Option.some.inj (hfile.symm.trans hmine))
        exact hother (Option.some.inj (hlock'.symm.trans hlock))
      | record hfile horigin' =>
        obtain ⟨rfl, -⟩ := OpenFile.mk.inj (Option.some.inj (hfile.symm.trans hmine))
        exact TransferId.partName_ne_metaName (Option.some.inj (horigin.symm.trans horigin'))
  | read h' limit =>
    rcases b with e | bytes
    · obtain rfl := hdoes
      exact .refl _ _
    · obtain ⟨file, -, -, -, -, rfl⟩ := hdoes
      exact spares_opened _ (.inr hother)
  | seek h' position =>
    rcases b with e | _
    · obtain rfl := hdoes
      exact .refl _ _
    · obtain ⟨file, -, rfl⟩ := hdoes
      exact spares_opened _ (.inr hother)
  | close h' =>
    obtain rfl := hdoes
    refine ⟨fun file hfile => ?_, fun inode hlock => ?_, fun _ _ _ _ => rfl⟩
    · exact (Function.update_of_ne (Ne.symm hother) _ _).trans hfile
    · have hne : w.locks inode ≠ some h' := fun heq =>
        hother (Option.some.inj (heq.symm.trans hlock))
      exact (if_neg hne).trans hlock
  | hardLink source target =>
    rcases b with e | _
    · obtain rfl := hdoes
      exact .refl _ _
    · obtain ⟨inode, -, -, rfl⟩ := hdoes
      exact ⟨fun _ h => h, fun _ h => h, fun _ _ _ _ => rfl⟩
  | removeFile name =>
    rcases b with e | _
    · obtain rfl := hdoes
      exact .refl _ _
    · obtain ⟨-, rfl⟩ := hdoes
      exact ⟨fun _ h => h, fun _ h => h, fun _ _ _ _ => rfl⟩
  | fillBytes metadata =>
    obtain ⟨-, rfl⟩ := hdoes
    exact ⟨fun _ h => h, fun _ h => h, fun _ _ _ _ => rfl⟩
  | symlinkMetadata name =>
    obtain ⟨rfl, -⟩ := hdoes
    exact .refl _ _
  | length h' | syncAll h' =>
    rcases b with e | _
    · obtain rfl := hdoes
      exact .refl _ _
    · obtain ⟨rfl, -⟩ := hdoes
      exact .refl _ _
  | tryClone | next held =>
    obtain rfl := hdoes
    exact .refl _ _
  | note note =>
    cases note <;> obtain rfl := hdoes
    all_goals exact ⟨fun _ h => h, fun _ h => h, fun _ _ _ _ => rfl⟩

/-- A permitted operation through an open file is made by the thread that opened it. -/
theorem Permitted.mine {β : Type} {o : FileOp δ β} {h : Handle} {file : OpenFile ι}
    (hpermitted : Permitted codec owner i w sha256 o) (hthrough : o.Through h)
    (hfile : w.files h = some file) : file.thread = i := by
  cases o with
  | write h' bytes =>
    obtain rfl := hthrough
    cases hpermitted with
    | part hmine | record hmine =>
      rw [hmine] at hfile
      exact congrArg OpenFile.thread (Option.some.inj hfile).symm
  | tryLockExclusive h' | read h' _ | seek h' _ | close h' =>
    obtain rfl := hthrough
    exact hpermitted file hfile
  | _ => cases hthrough

/-- What a step of thread `i` can do to files: create those it drew the identifier for, and
otherwise write, remove and link those of its owner. -/
structure Moves (owner : ι → PublicKey) (i : ι) (w w' : FolderWorld ι δ) : Prop where
  creates : ∀ inode name, w'.origin inode = some name → w.origin inode = some name ∨
    ∃ id metadata, w.drawn id = some (i, metadata) ∧ id.Owns name
  writes : ∀ inode name, w.origin inode = some name → w'.contents inode = w.contents inode ∨
    ∃ id j metadata, id.Owns name ∧ w.drawn id = some (j, metadata) ∧ metadata.owner = owner i ∧
      (j = i ∨ name = id.partName ∧ w.Created id.metaName)
  removes : ∀ name inode, w.entries name = some inode → w'.entries name = some inode ∨
    ∃ id j metadata, id.Owns name ∧ w.drawn id = some (j, metadata) ∧ metadata.owner = owner i
  links : ∀ name inode, w'.entries name = some inode → w.entries name = some inode ∨
    w.origin inode = none ∨ ∃ id j metadata, w.origin inode = some id.partName ∧
      w.drawn id = some (j, metadata) ∧ metadata.owner = owner i

theorem SameFolder.moves (h : w.SameFolder w') : Moves owner i w w' := by
  obtain ⟨hentries, hcontents, hdrawn, horigin, -⟩ := h
  constructor
  · intro inode name h
    exact .inl (horigin ▸ h)
  · intro inode name _
    exact .inl (by rw [hcontents])
  · intro name inode h
    exact .inl (hentries ▸ h)
  · intro name inode h
    exact .inl (hentries ▸ h)

/-- A permitted step moves only what is its owner's. Each operation that changes files makes one of
the four fields interesting and the other three trivial. -/
theorem Permitted.moves {β : Type} {o : FileOp δ β} {b : β}
    (hpermitted : Permitted codec owner i w sha256 o) (hsound : w.Sound codec owner)
    (hdoes : w.Does i o b w') : Moves owner i w w' := by
  by_cases hquiet : o.Quiet
  · exact (sameFolder_of_quiet hquiet hdoes).moves
  cases o with
  | createNew name =>
    rcases b with e | file
    · obtain rfl := hdoes
      exact (SameFolder.refl _).moves
    · obtain ⟨hnew, -, inode, ⟨hnames, -, hfree⟩, rfl⟩ := hdoes
      obtain ⟨id, metadata, hdrawn, howns, -⟩ := hpermitted
      constructor
      · intro inode' name' horigin
        simp only [Function.update_apply] at horigin
        split at horigin
        · obtain rfl := Option.some.inj horigin
          exact .inr ⟨id, metadata, hdrawn, howns⟩
        · exact .inl horigin
      · intro inode' name' horigin
        refine .inl (Function.update_of_ne ?_ _ _)
        rintro rfl
        rw [hfree] at horigin
        cases horigin
      · intro name' inode' hentry
        refine .inl ((Function.update_of_ne ?_ _ _).trans hentry)
        rintro rfl
        rw [hnew] at hentry
        cases hentry
      · intro name' inode' hentry
        simp only [Function.update_apply] at hentry
        split at hentry
        · obtain rfl := Option.some.inj hentry
          exact .inr (.inl hfree)
        · exact .inl hentry
  | write file bytes =>
    rcases b with e | count
    · obtain rfl := hdoes
      exact (SameFolder.refl _).moves
    · obtain ⟨inode, hmine, rfl⟩ := MayWrite.adds hpermitted hdoes
      refine ⟨fun _ _ h => .inl h, ?_, fun _ _ h => .inl h, fun _ _ h => .inl h⟩
      intro inode' name horigin
      by_cases heq : inode' = inode
      · subst heq
        -- what the thread writes belongs to an identifier drawn for its own key
        right
        cases hpermitted with
        | part hfile horigin' _ hdrawn hbegun howner =>
          obtain ⟨rfl, -⟩ := OpenFile.mk.inj (Option.some.inj (hfile.symm.trans hmine))
          obtain rfl := Option.some.inj (horigin'.symm.trans horigin)
          exact ⟨_, _, _, .inl rfl, hdrawn, howner, hbegun.imp_right fun h => ⟨rfl, h⟩⟩
        | record hfile horigin' hdrawn =>
          obtain ⟨rfl, -⟩ := OpenFile.mk.inj (Option.some.inj (hfile.symm.trans hmine))
          obtain rfl := Option.some.inj (horigin'.symm.trans horigin)
          exact ⟨_, _, _, .inr rfl, hdrawn, hsound.owners _ _ _ hdrawn, .inl rfl⟩
      · exact .inl (Function.update_of_ne heq _ _)
  | hardLink source target =>
    rcases b with e | _
    · obtain rfl := hdoes
      exact (SameFolder.refl _).moves
    · obtain ⟨inode, hsource, hfree, rfl⟩ := hdoes
      obtain ⟨id, j, metadata, rfl, -, hdrawn, howner, -⟩ := hpermitted
      refine ⟨fun _ _ h => .inl h, fun _ _ _ => .inl rfl, ?_, ?_⟩
      · intro name inode' hentry
        refine .inl ((Function.update_of_ne ?_ _ _).trans hentry)
        rintro rfl
        rw [hfree] at hentry
        cases hentry
      · intro name inode' hentry
        simp only [Function.update_apply] at hentry
        split at hentry
        · obtain rfl := Option.some.inj hentry
          have horigin := hsound.own _ _ (id.isOwn_name _) hsource
          exact .inr (.inr ⟨id, j, metadata, horigin, hdrawn, howner⟩)
        · exact .inl hentry
  | removeFile name =>
    rcases b with e | _
    · obtain rfl := hdoes
      exact (SameFolder.refl _).moves
    · obtain ⟨-, rfl⟩ := hdoes
      refine ⟨fun _ _ h => .inl h, fun _ _ _ => .inl rfl, ?_, ?_⟩
      · intro name' inode hentry
        by_cases heq : name' = name
        · obtain ⟨id, j, metadata, howns, hdrawn, howner⟩ := hpermitted
          exact .inr ⟨id, j, metadata, heq ▸ howns, hdrawn, howner⟩
        · exact .inl ((Function.update_of_ne heq _ _).trans hentry)
      · intro name' inode hentry
        simp only [Function.update_apply] at hentry
        split at hentry
        · cases hentry
        · exact .inl hentry
  | fillBytes metadata =>
    obtain ⟨-, rfl⟩ := hdoes
    exact ⟨fun _ _ h => .inl h, fun _ _ _ => .inl rfl, fun _ _ h => .inl h, fun _ _ h => .inl h⟩
  | note note =>
    cases note <;> obtain rfl := hdoes
    all_goals exact ⟨fun _ _ h => .inl h, fun _ _ _ => .inl rfl, fun _ _ h => .inl h,
      fun _ _ h => .inl h⟩
  | _ => exact (hquiet trivial).elim

/-- What the steps of the others leave to thread `j`: its open files (`files`), and what it begins.
A name of an identifier it drew is created by nobody else (`fresh`), and until its metadata is there
nobody else writes its files (`begun`), as `resume` starts from the metadata. -/
structure Leaves (j : ι) (w w' : FolderWorld ι δ) : Prop extends Evolves w w' where
  files : ∀ h file, w.files h = some file → file.thread = j → Spares h w w'
  fresh : ∀ id metadata name, w.drawn id = some (j, metadata) → TransferId.Owns id name →
    ¬w.Created name → ¬w'.Created name
  begun : ∀ id metadata inode, w.drawn id = some (j, metadata) →
    (w.origin inode = some (TransferId.metaName id) ∨
      w.origin inode = some (TransferId.partName id) ∧ ¬w.Created (TransferId.metaName id)) →
    w'.contents inode = w.contents inode

/-- Only the thread that drew an identifier creates the names of the transfer. -/
theorem Moves.fresh {j : ι} (hij : i ≠ j) (hmoves : Moves owner i w w') {id : TransferId}
    {metadata : Metadata δ} {name : String} (hdrawn : w.drawn id = some (j, metadata))
    (howns : id.Owns name) (hnew : ¬w.Created name) : ¬w'.Created name := by
  rintro ⟨inode, horigin⟩
  rcases hmoves.creates inode name horigin with hold | ⟨id', metadata', hdrawn', howns'⟩
  · exact hnew ⟨inode, hold⟩
  · obtain rfl := howns.unique howns'
    rw [hdrawn] at hdrawn'
    exact hij (Prod.mk.inj (Option.some.inj hdrawn')).1.symm

/-- Other threads do not write a transfer that is still being begun. -/
theorem Moves.begun {j : ι} (hij : i ≠ j) (hmoves : Moves owner i w w') {id : TransferId}
    {metadata : Metadata δ} {inode : ℕ} (hdrawn : w.drawn id = some (j, metadata))
    (horigin : w.origin inode = some id.metaName ∨
      w.origin inode = some id.partName ∧ ¬w.Created id.metaName) :
    w'.contents inode = w.contents inode := by
  have hname : ∃ name, w.origin inode = some name ∧ id.Owns name ∧
      ¬(name = id.partName ∧ w.Created id.metaName) := by
    rcases horigin with hmeta | ⟨hpart, hnew⟩
    · exact ⟨_, hmeta, .inr rfl, fun h => TransferId.partName_ne_metaName h.1.symm⟩
    · exact ⟨_, hpart, .inl rfl, fun h => hnew h.2⟩
  obtain ⟨name, horigin, howns, hnot⟩ := hname
  rcases hmoves.writes inode name horigin with
    hsame | ⟨id', j', metadata', howns', hdrawn', -, hwriter⟩
  · exact hsame
  · obtain rfl := howns.unique howns'
    rw [hdrawn] at hdrawn'
    obtain ⟨rfl, -⟩ := Prod.mk.inj (Option.some.inj hdrawn')
    rcases hwriter with hj | hcreated
    · exact (hij hj.symm).elim
    · exact (hnot hcreated).elim

/-- **Permitted steps leave the others alone.** What thread `j` knows between two of its own calls
is still true after a step of thread `i`. -/
theorem Permitted.leaves {j : ι} (hij : i ≠ j) {β : Type} {o : FileOp δ β} {b : β}
    (hpermitted : Permitted codec owner i w sha256 o) (hsound : w.Sound codec owner)
    (hdoes : w.Does i o b w') : Leaves j w w' := by
  have hmoves := hpermitted.moves hsound hdoes
  refine ⟨hpermitted.evolves hsound hdoes, ?_, fun _ _ _ => hmoves.fresh hij,
    fun _ _ _ => hmoves.begun hij⟩
  intro h file hfile hj
  exact hpermitted.spares (fun hthrough => hij ((hpermitted.mine hthrough hfile).symm.trans hj))
    hdoes

/-- The files of the transfer stay under their names, with their bytes, and are given no further
name. -/
def Undisturbed (id : TransferId) (w w' : FolderWorld ι δ) : Prop :=
  ∀ name inode, id.Owns name → w.entries name = some inode →
    w'.entries name = some inode ∧ w'.contents inode = w.contents inode ∧
      ∀ other, w'.entries other = some inode → w.entries other = some inode

/-- **Transfers of other owners are left alone**, also by a peer that sends their identifiers: the
metadata names the owner, and every move is one of the mover's own owner. -/
theorem Moves.undisturbed {j : ι} (hmoves : Moves owner i w w') (hsound : w.Sound codec owner)
    {id : TransferId} {metadata : Metadata δ} (hdrawn : w.drawn id = some (j, metadata))
    (hother : owner j ≠ owner i) : Undisturbed id w w' := by
  intro name inode howns hentry
  have horigin := hsound.own name inode howns.isOwn hentry
  have hmine : ∀ id' j' metadata', id'.Owns name → w.drawn id' = some (j', metadata') →
      metadata'.owner ≠ owner i := by
    intro id' j' metadata' howns' hdrawn' hi
    obtain rfl := howns.unique howns'
    obtain ⟨rfl, rfl⟩ := Prod.mk.inj (Option.some.inj (hdrawn.symm.trans hdrawn'))
    exact hother ((hsound.owners _ _ _ hdrawn).symm.trans hi)
  refine ⟨?_, ?_, fun other hother => ?_⟩
  · rcases hmoves.removes name inode hentry with hkept | ⟨id', j', metadata', howns', hdrawn', hi⟩
    · exact hkept
    · exact (hmine _ _ _ howns' hdrawn' hi).elim
  · rcases hmoves.writes inode name horigin with
      hsame | ⟨id', j', metadata', howns', hdrawn', hi, -⟩
    · exact hsame
    · exact (hmine _ _ _ howns' hdrawn' hi).elim
  · rcases hmoves.links other inode hother with
      hold | hnone | ⟨id', j', metadata', horigin', hdrawn', hi⟩
    · exact hold
    · rw [horigin] at hnone
      cases hnone
    · obtain rfl := Option.some.inj (horigin.symm.trans horigin')
      exact (hmine _ _ _ (.inl rfl) hdrawn' hi).elim

/-! ## Threads that vanish -/

variable [DecidableEq ι]

/-- A thread that vanishes releases its files and locks, and leaves the folder as it is. -/
theorem sameFolder_without : w.SameFolder (w.without i) := ⟨rfl, rfl, rfl, rfl, rfl⟩

theorem leaves_without (owner : ι → PublicKey) {j : ι} (hij : i ≠ j) :
    Leaves j w (w.without i) := by
  have hmoves : Moves owner i w (w.without i) := sameFolder_without.moves
  refine ⟨sameFolder_without.evolves, fun h file hfile hj => ⟨?_, ?_, fun _ _ _ _ => rfl⟩,
    fun _ _ _ => hmoves.fresh hij, fun _ _ _ => hmoves.begun hij⟩
  · intro file' hfile'
    obtain rfl := Option.some.inj (hfile.symm.trans hfile')
    simp [without, hfile, hj, Ne.symm hij]
  · intro inode hlock
    simp [without, hlock, hfile, hj, Ne.symm hij]

end FolderWorld

end SensorRemote
