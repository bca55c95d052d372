import SensorRemote.FolderInvariant
import SensorRemote.Lib.Termination

/-!
# A folder that works

Safety of the receive folder holds whatever the file system answers, so it is proved of every
machine. That a transfer gets to its end is not: a disk that refuses every write is a folder too.
Here the folder belongs to one process, on a file system without faults: a call fails only where the
folder gives it a reason to (`Reasonable`), and a write takes at least one byte.

On such a folder (`faultless`) the programs over files come to an end, and the module says where, in
three steps:

* the worlds after a call, as functions of the world before it (`created`, `appended`, `named`, …),
  with what they are in each field;

* one rule for every call: if the rest of the program gets to `R` from the world after the call, the
  program gets there from the world before it;

* the loops over calls (`write_all`, `read_to_end`, `read_exact`, `hash_reader`), by induction on
  the bytes that are left.

A program of the source is then run by applying the rules in the order of its statements.
-/

namespace SensorRemote

open Program

variable {δ α : Type}

namespace FolderWorld

/-- A call has done what it was asked, or the folder gives a reason why it has not: the name is not
there, it is there already, or another open file holds the lock. Short reads and short writes remain
possible, as they are no faults. -/
def Reasonable (w : FolderWorld Unit δ) : {β : Type} → FileOp δ β → β → Prop
  | _, .symlinkMetadata _, .error e => e = .notFound
  | _, .createNew name, .error _ => (w.entries name).isSome
  | _, .openRead name, .error _ | _, .openReadWrite name, .error _ => w.entries name = none
  | _, .tryLockExclusive h, .error _ =>
    ∃ file h', w.files h = some file ∧ w.locks file.inode = some h' ∧ h' ≠ h
  | _, .write _ bytes, .ok count => bytes ≠ [] → count ≠ 0
  | _, .hardLink source target, .error _ =>
    w.entries source = none ∨ (w.entries target).isSome
  | _, .removeFile name, .error _ => w.entries name = none
  | _, .write h _, .error _ | _, .read h _, .error _ | _, .seek h _, .error _
  | _, .length h, .error _ | _, .syncAll h, .error _ => w.files h = none
  | _, .tryClone, .error _ => False
  | _, _, _ => True

/-- There is room for more open files and for more inodes: from some number on, none is in use. A
run adds finitely many, so room never runs out. -/
def Room (w : FolderWorld Unit δ) : Prop :=
  ∃ n : ℕ, (∀ h : ℕ, n ≤ h → w.files h = none) ∧ ∀ inode : ℕ, n ≤ inode → w.Unused inode

end FolderWorld

/-- The folder of one process, without faults: the folder's own steps, as far as they are
reasonable. -/
def faultless (δ : Type) : Machine (FileOp δ) Unit (FolderWorld Unit δ) where
  step _ w _ o b w' := w.Does () o b w' ∧ w.Reasonable o b
  vanish i w w' := w' = w.without i

/-- The program gets to where `R` holds, on a folder that works: whatever the calls answer, the run
reaches such a point, with the rest of the program that is still to come. -/
abbrev Gets (R : Prog (FileOp δ) α → FolderWorld Unit δ → Prop) :
    Prog (FileOp δ) α → FolderWorld Unit δ → Prop :=
  Leads (faultless δ) (fun _ => True) R

namespace FolderWorld

variable {w w' : FolderWorld Unit δ}

/-! ## Worlds after a call -/

/-- The world in which a file of this name was created and is open at its beginning. -/
def created (w : FolderWorld Unit δ) (name : String) (h : Handle) (inode : ℕ) :
    FolderWorld Unit δ :=
  { w.opened h ⟨inode, 0, ()⟩ with
    entries := Function.update w.entries name (some inode)
    contents := Function.update w.contents inode []
    origin := Function.update w.origin inode (some name) }

/-- The world in which an open file had bytes written at its end, where its position now is. -/
def appended (w : FolderWorld Unit δ) (h : Handle) (inode : ℕ) (bytes : List UInt8) :
    FolderWorld Unit δ :=
  { w.opened h ⟨inode, (w.contents inode ++ bytes).length, ()⟩ with
    contents := Function.update w.contents inode (w.contents inode ++ bytes) }

/-- The world in which an open file holds the lock of an inode. -/
def locked (w : FolderWorld Unit δ) (h : Handle) (inode : ℕ) : FolderWorld Unit δ :=
  { w with locks := Function.update w.locks inode (some h) }

/-- The world in which a name stands for an inode, or for none any more. -/
def named (w : FolderWorld Unit δ) (name : String) (inode : Option ℕ) : FolderWorld Unit δ :=
  { w with entries := Function.update w.entries name inode }

/-- The world in which a transfer identifier was drawn for this metadata. -/
def drew (w : FolderWorld Unit δ) (id : TransferId) (metadata : Metadata δ) :
    FolderWorld Unit δ :=
  { w with drawn := Function.update w.drawn id (some ((), metadata)) }

section Fields

variable (w : FolderWorld Unit δ) (name : String) (h : Handle) (file : OpenFile Unit) (inode : ℕ)
  (bytes : List UInt8)

@[simp] theorem opened_files :
    (w.opened h file).files = Function.update w.files h (some file) := rfl

@[simp] theorem closed_files : (w.closed h).files = Function.update w.files h none := rfl

@[simp] theorem created_entries :
    (w.created name h inode).entries = Function.update w.entries name (some inode) := rfl

@[simp] theorem created_contents :
    (w.created name h inode).contents = Function.update w.contents inode [] := rfl

@[simp] theorem created_origin :
    (w.created name h inode).origin = Function.update w.origin inode (some name) := rfl

@[simp] theorem created_files :
    (w.created name h inode).files = Function.update w.files h (some ⟨inode, 0, ()⟩) := rfl

@[simp] theorem appended_contents : (w.appended h inode bytes).contents =
    Function.update w.contents inode (w.contents inode ++ bytes) := rfl

@[simp] theorem appended_files : (w.appended h inode bytes).files =
    Function.update w.files h (some ⟨inode, (w.contents inode ++ bytes).length, ()⟩) := rfl

end Fields

/-! ## Room -/

/-- One open file and one inode more leave room: it is enough to count on from the larger of the
two. -/
theorem Room.but (hroom : w.Room) (h inode : ℕ)
    (hfiles : ∀ h' : ℕ, h' ≠ h → w.files h' = none → w'.files h' = none)
    (hinodes : ∀ inode' : ℕ, inode' ≠ inode → w.Unused inode' → w'.Unused inode') : w'.Room := by
  obtain ⟨n, hn, hn'⟩ := hroom
  refine ⟨n + h + inode + 1, fun h' hh' => hfiles h' (by omega) (hn h' (by omega)), fun i hi => ?_⟩
  exact hinodes i (by omega) (hn' i (by omega))

/-- There is a handle to open the next file under. -/
theorem Room.handle (hroom : w.Room) : ∃ h, w.files h = none := by
  obtain ⟨n, hn, -⟩ := hroom
  exact ⟨n, hn n le_rfl⟩

/-- There is an inode to create the next file with. -/
theorem Room.inode (hroom : w.Room) : ∃ inode, w.Unused inode := by
  obtain ⟨n, -, hn⟩ := hroom
  exact ⟨n, hn n le_rfl⟩

end FolderWorld

/-! ## Calls -/

section Calls

variable {R : Prog (FileOp δ) α → FolderWorld Unit δ → Prop} {w : FolderWorld Unit δ}
  {file : OpenFile Unit} {h : Handle} {inode : ℕ} {name : String}

/-- Looking for a name that is not there answers `NotFound`, and nothing else. -/
theorem gets_symlinkMetadata {k : Except IoError Unit → Prog (FileOp δ) α}
    (hfree : w.entries name = none) (hk : Gets R (k (.error .notFound)) w) :
    Gets R (.op (.symlinkMetadata name) k) w := by
  refine .op trivial ⟨.error .notFound, w, ⟨rfl, fun _ => hfree⟩, rfl⟩ fun b w' hM => ?_
  rcases b with e | _
  · obtain ⟨⟨rfl, -⟩, rfl⟩ := hM
    exact hk
  · obtain ⟨⟨rfl, hthere⟩, -⟩ := hM
    rw [hfree] at hthere
    cases hthere

/-- Looking for a name that is there finds it. -/
theorem gets_symlinkMetadata_there {k : Except IoError Unit → Prog (FileOp δ) α}
    (hthere : (w.entries name).isSome) (hk : Gets R (k (.ok ())) w) :
    Gets R (.op (.symlinkMetadata name) k) w := by
  refine .op trivial ⟨.ok (), w, ⟨rfl, hthere⟩, trivial⟩ fun b w' hM => ?_
  rcases b with e | _
  · obtain ⟨⟨-, hnone⟩, he⟩ := hM
    rw [hnone he] at hthere
    cases hthere
  · obtain ⟨⟨rfl, -⟩, -⟩ := hM
    exact hk

/-- Creating a name that is not there succeeds, under a handle and an inode that were not in use. -/
theorem gets_createNew {k : Except IoError Handle → Prog (FileOp δ) α}
    (hfree : w.entries name = none) (hroom : w.Room)
    (hk : ∀ h inode, w.files h = none → w.Unused inode →
      Gets R (k (.ok h)) (w.created name h inode)) : Gets R (.op (.createNew name) k) w := by
  obtain ⟨h, hh⟩ := hroom.handle
  obtain ⟨inode, hinode⟩ := hroom.inode
  refine .op trivial ⟨.ok h, _, ⟨hfree, hh, inode, hinode, rfl⟩, trivial⟩ fun b w' hM => ?_
  rcases b with e | h
  · have hthere : (w.entries name).isSome := hM.2
    rw [hfree] at hthere
    cases hthere
  · obtain ⟨⟨-, hh, inode, hinode, rfl⟩, -⟩ := hM
    exact hk h inode hh hinode

/-- Opening a file that is there succeeds, for reading and for writing alike. -/
theorem gets_open {o : FileOp δ (Except IoError Handle)}
    {k : Except IoError Handle → Prog (FileOp δ) α}
    (ho : o = .openRead name ∨ o = .openReadWrite name) (hname : w.entries name = some inode)
    (hroom : w.Room) (hk : ∀ h, w.files h = none → Gets R (k (.ok h)) (w.opened h ⟨inode, 0, ()⟩)) :
    Gets R (.op o k) w := by
  obtain ⟨h, hh⟩ := hroom.handle
  rcases ho with rfl | rfl <;>
  · refine .op trivial ⟨.ok h, _, ⟨hh, inode, hname, rfl⟩, trivial⟩ fun b w' hM => ?_
    rcases b with e | h
    · have hnone : w.entries name = none := hM.2
      rw [hname] at hnone
      cases hnone
    · obtain ⟨⟨hh, inode', hinode', rfl⟩, -⟩ := hM
      obtain rfl := Option.some.inj (hname.symm.trans hinode')
      exact hk h hh

/-- Opening a file that is not there fails. -/
theorem gets_openRead_missing {k : Except IoError Handle → Prog (FileOp δ) α}
    (hnone : w.entries name = none) (hk : ∀ e, Gets R (k (.error e)) w) :
    Gets R (.op (.openRead name) k) w := by
  refine .op trivial ⟨.error .notFound, w, rfl, hnone⟩ fun b w' hM => ?_
  rcases b with e | h
  · obtain ⟨rfl, -⟩ := hM
    exact hk e
  · obtain ⟨⟨-, inode, hthere, -⟩, -⟩ := hM
    rw [hnone] at hthere
    cases hthere

/-- The lock of a file that nobody has locked is taken at the first try. -/
theorem gets_tryLockExclusive {k : Except IoError Unit → Prog (FileOp δ) α}
    (hfile : w.files h = some file) (hfree : w.locks file.inode = none)
    (hk : Gets R (k (.ok ())) (w.locked h file.inode)) :
    Gets R (.op (.tryLockExclusive h) k) w := by
  refine .op trivial ⟨.ok (), _, ⟨file, hfile, fun h' hh' => ?_, rfl⟩, trivial⟩ fun b w' hM => ?_
  · rw [hfree] at hh'
    cases hh'
  · rcases b with e | _
    · obtain ⟨-, file', h', hfile', hlock, -⟩ := hM
      obtain rfl := Option.some.inj (hfile.symm.trans hfile')
      rw [hfree] at hlock
      cases hlock
    · obtain ⟨⟨file', hfile', -, rfl⟩, -⟩ := hM
      obtain rfl := Option.some.inj (hfile.symm.trans hfile')
      exact hk

theorem gets_seek {position : ℕ} {k : Except IoError Unit → Prog (FileOp δ) α}
    (hfile : w.files h = some file) (hk : Gets R (k (.ok ())) (w.moved h file position)) :
    Gets R (.op (.seek h position) k) w := by
  refine .op trivial ⟨.ok (), _, ⟨file, hfile, rfl⟩, trivial⟩ fun b w' hM => ?_
  rcases b with e | _
  · have hnone : w.files h = none := hM.2
    rw [hfile] at hnone
    cases hnone
  · obtain ⟨⟨file', hfile', rfl⟩, -⟩ := hM
    obtain rfl := Option.some.inj (hfile.symm.trans hfile')
    exact hk

theorem gets_length {k : Except IoError ℕ → Prog (FileOp δ) α} (hfile : w.files h = some file)
    (hk : Gets R (k (.ok (w.contents file.inode).length)) w) : Gets R (.op (.length h) k) w := by
  refine .op trivial ⟨.ok _, w, ⟨rfl, file, hfile, rfl⟩, trivial⟩ fun b w' hM => ?_
  rcases b with e | n
  · have hnone : w.files h = none := hM.2
    rw [hfile] at hnone
    cases hnone
  · obtain ⟨⟨rfl, file', hfile', rfl⟩, -⟩ := hM
    obtain rfl := Option.some.inj (hfile.symm.trans hfile')
    exact hk

theorem gets_syncAll {k : Except IoError Unit → Prog (FileOp δ) α} (hfile : w.files h = some file)
    (hk : Gets R (k (.ok ())) w) : Gets R (.op (.syncAll h) k) w := by
  refine .op trivial ⟨.ok (), w, ⟨rfl, by rw [hfile]; rfl⟩, trivial⟩ fun b w' hM => ?_
  rcases b with e | _
  · have hnone : w.files h = none := hM.2
    rw [hfile] at hnone
    cases hnone
  · obtain ⟨⟨rfl, -⟩, -⟩ := hM
    exact hk

/-- Linking a file under a name that is not there succeeds. This is the call that publishes. -/
theorem gets_hardLink {source target : String} {k : Except IoError Unit → Prog (FileOp δ) α}
    (hsource : w.entries source = some inode) (htarget : w.entries target = none)
    (hk : Gets R (k (.ok ())) (w.named target (some inode))) :
    Gets R (.op (.hardLink source target) k) w := by
  refine .op trivial ⟨.ok (), _, ⟨inode, hsource, htarget, rfl⟩, trivial⟩ fun b w' hM => ?_
  rcases b with e | _
  · have hreason : w.entries source = none ∨ (w.entries target).isSome := hM.2
    simp [hsource, htarget] at hreason
  · obtain ⟨⟨inode', hinode', -, rfl⟩, -⟩ := hM
    obtain rfl := Option.some.inj (hsource.symm.trans hinode')
    exact hk

/-- Under a name that is there it fails, and the folder is as before. -/
theorem gets_hardLink_taken {source target : String} {k : Except IoError Unit → Prog (FileOp δ) α}
    (htarget : (w.entries target).isSome) (hk : ∀ e, Gets R (k (.error e)) w) :
    Gets R (.op (.hardLink source target) k) w := by
  refine .op trivial ⟨.error .alreadyExists, w, rfl, .inr htarget⟩ fun b w' hM => ?_
  rcases b with e | _
  · obtain ⟨rfl, -⟩ := hM
    exact hk e
  · obtain ⟨⟨inode, -, hnone, -⟩, -⟩ := hM
    rw [hnone] at htarget
    cases htarget

theorem gets_removeFile {k : Except IoError Unit → Prog (FileOp δ) α} {i : ℕ}
    (hname : w.entries name = some i) (hk : Gets R (k (.ok ())) (w.named name none)) :
    Gets R (.op (.removeFile name) k) w := by
  refine .op trivial ⟨.ok (), _, ⟨by rw [hname]; rfl, rfl⟩, trivial⟩ fun b w' hM => ?_
  rcases b with e | _
  · have hnone : w.entries name = none := hM.2
    rw [hname] at hnone
    cases hnone
  · obtain ⟨⟨-, rfl⟩, -⟩ := hM
    exact hk

theorem gets_tryClone {k : Except IoError Unit → Prog (FileOp δ) α} (hk : Gets R (k (.ok ())) w) :
    Gets R (.op .tryClone k) w := by
  refine .op trivial ⟨.ok (), w, rfl, trivial⟩ fun b w' hM => ?_
  rcases b with e | _
  · exact hM.2.elim
  · obtain ⟨rfl, -⟩ := hM
    exact hk

theorem gets_close {k : Unit → Prog (FileOp δ) α} (hk : Gets R (k ()) (w.closed h)) :
    Gets R (.op (.close h) k) w := by
  refine .op trivial ⟨(), _, rfl, trivial⟩ fun b w' hM => ?_
  obtain ⟨rfl, -⟩ := hM
  exact hk

/-- An identifier is drawn that was not drawn before, as far as one is left. -/
theorem gets_fillBytes {metadata : Metadata δ} {k : TransferId → Prog (FileOp δ) α}
    (hleft : ∃ id, w.drawn id = none)
    (hk : ∀ id, w.drawn id = none → Gets R (k id) (w.drew id metadata)) :
    Gets R (.op (.fillBytes metadata) k) w := by
  obtain ⟨id, hid⟩ := hleft
  refine .op trivial ⟨id, _, ⟨hid, rfl⟩, trivial⟩ fun b w' hM => ?_
  obtain ⟨⟨hid, rfl⟩, -⟩ := hM
  exact hk b hid

/-- A read answers a beginning of what is left of the file, at most `limit` bytes; it answers
nothing only at the end. -/
theorem gets_read {limit : ℕ} {k : Except IoError (List UInt8) → Prog (FileOp δ) α}
    (hfile : w.files h = some file) (hlimit : limit ≠ 0)
    (hk : ∀ data, data.length ≤ limit → data <+: (w.contents file.inode).drop file.position →
      (data = [] → (w.contents file.inode).length ≤ file.position) →
      Gets R (k (.ok data)) (w.moved h file (file.position + data.length))) :
    Gets R (.op (.read h limit) k) w := by
  refine .op trivial ⟨.ok (((w.contents file.inode).drop file.position).take limit), _,
    ⟨file, hfile, List.length_take_le _ _, List.take_prefix _ _, fun hnil => ?_, rfl⟩, trivial⟩
    fun b w' hM => ?_
  · simpa [hlimit] using hnil
  · rcases b with e | data
    · have hnone : w.files h = none := hM.2
      rw [hfile] at hnone
      cases hnone
    · obtain ⟨⟨file', hfile', hlength, hdata, hend, rfl⟩, -⟩ := hM
      obtain rfl := Option.some.inj (hfile.symm.trans hfile')
      exact hk data hlength hdata fun hnil => (hend hnil).resolve_left hlimit

/-- A write at the end of a file takes some of the bytes, and at least one. -/
theorem gets_write {bytes : List UInt8} {k : Except IoError ℕ → Prog (FileOp δ) α}
    (hfile : w.files h = some ⟨inode, (w.contents inode).length, ()⟩) (hbytes : bytes ≠ [])
    (hk : ∀ count, count ≠ 0 → count ≤ bytes.length →
      Gets R (k (.ok count)) (w.appended h inode (bytes.take count))) :
    Gets R (.op (.write h bytes) k) w := by
  refine .op trivial ⟨.ok bytes.length, _, ⟨_, hfile, le_rfl, rfl⟩, fun _ => ?_⟩ fun b w' hM => ?_
  · exact fun h => hbytes (List.length_eq_zero_iff.mp h)
  · rcases b with e | count
    · have hnone : w.files h = none := hM.2
      rw [hfile] at hnone
      cases hnone
    · obtain ⟨⟨file', hfile', hcount, rfl⟩, hsome⟩ := hM
      obtain rfl := Option.some.inj (hfile.symm.trans hfile')
      have happended := hk count (hsome hbytes) hcount
      rw [FolderWorld.overwrite_end]
      simpa only [FolderWorld.appended, FolderWorld.moved, List.length_append, List.length_take,
        Nat.min_eq_left hcount] using happended

end Calls

/-- A file that is owned is not dropped: the program that succeeds has handed the handle on. -/
theorem owning_ends {β : Type} {h : Handle} {x : FileProg δ β} {Q : β → FolderWorld Unit δ → Prop}
    {w : FolderWorld Unit δ} (hx : Halts (faultless δ) (fun r w' => ∃ b, r = .ok b ∧ Q b w') x w) :
    Halts (faultless δ) (fun r w' => ∃ b, r = .ok b ∧ Q b w') (owning h x) w := by
  apply Halts.bind hx
  rintro _ w' ⟨b, rfl, hQ⟩
  exact Halts.ret ⟨b, rfl, hQ⟩

/-- And it is dropped if the program fails. -/
theorem owning_fails {β : Type} {h : Handle} {x : FileProg δ β} {Q : FolderWorld Unit δ → Prop}
    {w : FolderWorld Unit δ}
    (hx : Halts (faultless δ) (fun r w' => (∃ e, r = .error e) ∧ Q (w'.closed h)) x w) :
    Halts (faultless δ) (fun r w' => (∃ e, r = .error e) ∧ Q w') (owning h x) w := by
  apply Halts.bind hx
  rintro _ w' ⟨⟨e, rfl⟩, hQ⟩
  exact gets_close (Halts.ret ⟨⟨e, rfl⟩, hQ⟩)

/-! ## Loops over calls -/

namespace FolderWorld

variable {w : FolderWorld Unit δ} {h : Handle} {file file' : OpenFile Unit} {position : ℕ}

/-- The file that is opened last under a handle is the one that is open. -/
theorem opened_opened : (w.opened h file).opened h file' = w.opened h file' := by
  simp only [opened, Function.update_idem]

/-- Opening a file where it is open already, at the same position, changes nothing. -/
theorem opened_self (hfile : w.files h = some file) : w.opened h file = w := by
  simp only [opened, ← hfile, Function.update_eq_self]

theorem files_opened : (w.opened h file).files h = some file := Function.update_self ..

/-- Two pieces written one after the other are one piece. -/
theorem appended_appended {inode : ℕ} {bytes bytes' : List UInt8} :
    (w.appended h inode bytes).appended h inode bytes' = w.appended h inode (bytes ++ bytes') := by
  simp [appended, opened]

/-- Writing no bytes at the end of a file changes nothing. -/
theorem appended_nil {inode : ℕ} (hfile : w.files h = some ⟨inode, (w.contents inode).length, ()⟩) :
    w.appended h inode [] = w := by
  have hopened := opened_self hfile
  rw [appended, List.append_nil, hopened, Function.update_eq_self]

end FolderWorld

section Loops

variable {R : Prog (FileOp δ) α → FolderWorld Unit δ → Prop} {w : FolderWorld Unit δ}
  {h : Handle} {inode position : ℕ}

/-- `write_all`, at the end of a file: by induction on the number of bytes left, which every write
makes smaller. -/
theorem gets_writeAll {k : Except FileError Unit → Prog (FileOp δ) α} (bytes : List UInt8)
    (hfile : w.files h = some ⟨inode, (w.contents inode).length, ()⟩)
    (hk : Gets R (k (.ok ())) (w.appended h inode bytes)) :
    Gets R (Prog.bind (writeAll h bytes) k) w := by
  suffices hloop : ∀ n (bytes : List UInt8) (w : FolderWorld Unit δ), bytes.length = n →
      w.files h = some ⟨inode, (w.contents inode).length, ()⟩ →
      Gets R (k (.ok ())) (w.appended h inode bytes) →
      Gets R (Prog.bind (writeAll h bytes) k) w from hloop _ bytes w rfl hfile hk
  intro n
  induction n using Nat.strong_induction_on with
  | _ n ih =>
    rintro bytes w rfl hfile hk
    refine Halts.pass (Q := fun x w' => match x with
      | .inl rest => ∃ count, count ≠ 0 ∧ count ≤ bytes.length ∧ rest = bytes.drop count ∧
          w' = w.appended h inode (bytes.take count)
      | .inr () => bytes = [] ∧ w' = w) ?_ ?_ ?_
    · by_cases hbytes : bytes = []
      · simp only [if_pos hbytes]
        exact Halts.ret ⟨_, rfl, hbytes, rfl⟩
      · simp only [if_neg hbytes]
        refine gets_write hfile hbytes fun count hcount hle => Halts.check hcount ?_
        exact Halts.ret ⟨_, rfl, count, hcount, hle, rfl, rfl⟩
    · rintro rest w' ⟨count, hcount, hle, rfl, rfl⟩
      refine ih _ ?_ (bytes.drop count) _ rfl ?_ ?_
      · simp only [List.length_drop]
        omega
      · simp [FolderWorld.appended, FolderWorld.opened]
      · rwa [FolderWorld.appended_appended, List.take_append_drop]
    · rintro _ w' ⟨rfl, rfl⟩
      rwa [FolderWorld.appended_nil hfile] at hk

/-- One pass of a loop that reads `target`, of which it has read `bytes`: it reads on, and has a
longer beginning of `target`, or it is at the end and has the result. -/
def ReadsOn {ε β : Type} (w : FolderWorld Unit δ) (h : Handle) (file : OpenFile Unit)
    (target : List UInt8) (result : β) (bytes : List UInt8) (r : Except ε (List UInt8 ⊕ β))
    (w' : FolderWorld Unit δ) : Prop :=
  ∃ data, bytes ++ data <+: target ∧
    w' = w.moved h file (file.position + (bytes ++ data).length) ∧
    (data ≠ [] ∧ r = .ok (.inl (bytes ++ data)) ∨ data = [] ∧ bytes = target ∧ r =
      .ok (.inr result))

variable {file : OpenFile Unit}

/-- A loop whose every pass reads on gets to its result. The induction is on the bytes of `target`
that are still to be read. -/
theorem gets_reading {ε β : Type} {body : List UInt8 → Fallible (FileOp δ) ε (List UInt8 ⊕ β)}
    {k : Except ε β → Prog (FileOp δ) α} (target : List UInt8) {result : β}
    (hfile : w.files h = some file)
    (hbody : ∀ bytes, bytes <+: target → Halts (faultless δ)
      (ReadsOn w h file target result bytes) (body bytes)
      (w.moved h file (file.position + bytes.length)))
    (hk : Gets R (k (.ok result)) (w.moved h file (file.position + target.length))) :
    Gets R (Prog.bind (Fallible.forever [] body) k) w := by
  suffices hloop : ∀ n bytes, bytes <+: target → target.length - bytes.length = n →
      Gets R (Prog.bind (Fallible.forever bytes body) k)
        (w.moved h file (file.position + bytes.length)) by
    have hstart := hloop _ [] List.nil_prefix rfl
    rwa [List.length_nil, Nat.add_zero, FolderWorld.moved, FolderWorld.opened_self hfile] at hstart
  intro n
  induction n using Nat.strong_induction_on with
  | _ n ih =>
    intro bytes hbytes hn
    refine Halts.pass (Q := fun x w' =>
      ReadsOn w h file target result bytes (.ok x : Except ε _) w')
      ((hbody bytes hbytes).post ?_) ?_ ?_
    · rintro r w' ⟨data, hdata, hw', hr⟩
      rcases hr with ⟨hne, rfl⟩ | ⟨hnil, htarget, rfl⟩
      · exact ⟨_, rfl, data, hdata, hw', .inl ⟨hne, rfl⟩⟩
      · exact ⟨_, rfl, data, hdata, hw', .inr ⟨hnil, htarget, rfl⟩⟩
    · rintro s' w' ⟨data, hdata, rfl, ⟨hne, hs'⟩ | ⟨-, -, hs'⟩⟩
      · cases hs'
        have hlength := hdata.length_le
        have hpos := List.length_pos_iff.mpr hne
        rw [List.length_append] at hlength
        exact ih _ (by rw [List.length_append]; omega) _ hdata rfl
      · cases hs'
    · rintro b w' ⟨data, hdata, rfl, ⟨-, hb⟩ | ⟨rfl, rfl, hb⟩⟩
      · cases hb
      · cases hb
        rwa [List.append_nil]

/-- What a read answers in such a loop. `target` is a beginning of the rest of the file, and a read
that answers nothing has come to its end. -/
theorem gets_read_on {ε β : Type} {limit : ℕ} {target bytes : List UInt8} {result : β}
    {k : Except IoError (List UInt8) → Prog (FileOp δ) (Except ε (List UInt8 ⊕ β))}
    (hlimit : limit ≠ 0) (hbytes : bytes <+: target)
    (htarget : ∀ data, data.length ≤ limit →
      bytes ++ data <+: (w.contents file.inode).drop file.position → bytes ++ data <+: target)
    (hwhole : target <+: (w.contents file.inode).drop file.position)
    (hmore : ∀ data, data ≠ [] → k (.ok data) = .ret (.ok (.inl (bytes ++ data))))
    (hend : bytes = target → k (.ok []) = .ret (.ok (.inr result))) :
    Halts (faultless δ) (ReadsOn w h file target result bytes) (.op (.read h limit) k)
      (w.moved h file (file.position + bytes.length)) := by
  refine gets_read FolderWorld.files_opened hlimit fun data hle hbegins hnil => ?_
  have hmoved : (w.moved h file (file.position + bytes.length)).moved h
      { file with position := file.position + bytes.length }
      (file.position + bytes.length + data.length) =
      w.moved h file (file.position + (bytes ++ data).length) := by
    rw [List.length_append, ← Nat.add_assoc]
    exact FolderWorld.opened_opened
  have hcontents : bytes ++ data <+: (w.contents file.inode).drop file.position := by
    obtain ⟨rest, hrest⟩ := hbytes.trans hwhole
    have hdrop : (w.contents file.inode).drop (file.position + bytes.length) = rest := by
      rw [← List.drop_drop, ← hrest, List.drop_left]
    rw [← hrest]
    exact (List.prefix_append_right_inj bytes).mpr (hdrop ▸ hbegins)
  by_cases hdata : data = []
  · have hbytes' : bytes = target := by
      apply hbytes.eq_of_length_le
      have hlength := hwhole.length_le
      have hshort : (w.contents file.inode).length ≤ file.position + bytes.length := hnil hdata
      rw [List.length_drop] at hlength
      omega
    subst hdata
    rw [hend hbytes']
    exact Halts.ret ⟨[], by simpa using hbytes, hmoved, .inr ⟨rfl, hbytes', rfl⟩⟩
  · rw [hmore data hdata]
    exact Halts.ret ⟨data, htarget data hle hcontents, hmoved, .inl ⟨hdata, rfl⟩⟩

/-- `hash_reader` answers the hash of the rest of the file, from where the file stands. -/
theorem gets_hashReader {sha256 : List UInt8 → δ} {k : Except FileError δ → Prog (FileOp δ) α}
    (hfile : w.files h = some file)
    (hk : ∀ position, Gets R (k (.ok (sha256 ((w.contents file.inode).drop file.position))))
      (w.moved h file position)) :
    Gets R (Prog.bind (hashReader sha256 h) k) w := by
  refine gets_reading ((w.contents file.inode).drop file.position) hfile
    (fun bytes hbytes => ?_) (hk _)
  refine gets_read_on (by decide) hbytes (fun data _ hdata => hdata) List.prefix_rfl
    (fun data hdata => ?_) fun hwhole => ?_
  · exact if_neg hdata
  · subst hwhole
    rfl

/-- `read_to_end`, of a file that is not longer than the limit, answers all its bytes. -/
theorem gets_readToEnd {limit : ℕ} {k : Except FileError (List UInt8) → Prog (FileOp δ) α}
    (hfile : w.files h = some ⟨inode, 0, ()⟩) (hlimit : (w.contents inode).length < limit)
    (hk : ∀ position, Gets R (k (.ok (w.contents inode))) (w.moved h ⟨inode, 0, ()⟩ position)) :
    Gets R (Prog.bind (readToEnd h limit) k) w := by
  refine gets_reading (w.contents inode) hfile (fun bytes hbytes => ?_) (hk _)
  have hle := hbytes.length_le
  rw [if_neg (by omega)]
  refine gets_read_on (by simp only [CHUNK_SIZE]; omega) hbytes (fun data _ hdata => hdata)
    List.prefix_rfl (fun data hdata => ?_) fun hwhole => ?_
  · exact if_neg hdata
  · subst hwhole
    rfl

/-- `read_exact`, of a file that has as many bytes left, answers those bytes. -/
theorem gets_readExact {count : ℕ} {k : Except IoError (List UInt8) → Prog (FileOp δ) α}
    (hfile : w.files h = some file)
    (hcount : file.position + count ≤ (w.contents file.inode).length)
    (hk : Gets R (k (.ok (((w.contents file.inode).drop file.position).take count)))
      (w.moved h file (file.position + count))) :
    Gets R (Prog.bind (readExact h count) k) w := by
  have hlength : (((w.contents file.inode).drop file.position).take count).length = count := by
    rw [List.length_take, List.length_drop]
    omega
  refine gets_reading (((w.contents file.inode).drop file.position).take count) hfile
    (fun bytes hbytes => ?_) (by rwa [hlength])
  by_cases hwhole : bytes.length ≥ count
  · rw [if_pos hwhole]
    have hbytes' := hbytes.eq_of_length_le (by omega)
    refine Halts.ret ⟨[], by simpa using hbytes, by rw [List.append_nil], .inr ⟨rfl, hbytes', ?_⟩⟩
    rw [hbytes']
  · rw [if_neg hwhole]
    refine gets_read_on (by omega) hbytes (fun data hdata hbegins => ?_) (List.take_prefix _ _)
      (fun data hdata => ?_) fun hbytes' => ?_
    · rw [List.prefix_take_iff]
      refine ⟨hbegins, ?_⟩
      rw [List.length_append]
      omega
    · exact if_neg hdata
    · exact (hwhole (by rw [hbytes', hlength])).elim

end Loops

end SensorRemote
