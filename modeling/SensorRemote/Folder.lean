import SensorRemote.Files

/-!
# The receive folder

What the file system calls of `Files` do: names stand for inodes, inodes have contents, and open
files have a position in one. Any call may fail, for any reason the system likes, and changes
nothing then. An open file that was locked keeps others from locking its inode.

A world also has what no program can read: under which name an inode was created (`origin`), for
which thread and metadata an identifier was drawn (`drawn`), and what was noted as finished. They
are there to state and prove things with. Identifiers are random, and the one assumption about them
is made here: one that is drawn was not drawn before.
-/

namespace SensorRemote

open Program

/-- An open file: its inode, the position in it, and the thread that has it. -/
structure OpenFile (ι : Type) where
  inode : ℕ
  position : ℕ
  thread : ι

/-- The receive folder and the files open in it. -/
structure FolderWorld (ι δ : Type) where
  /-- the inode a name stands for -/
  entries : String → Option ℕ
  contents : ℕ → List UInt8
  files : Handle → Option (OpenFile ι)
  /-- which open file holds the lock of an inode -/
  locks : ℕ → Option Handle
  /-- by whom a transfer identifier was drawn, and for which transfer -/
  drawn : TransferId → Option (ι × Metadata δ)
  /-- the name an inode was created under -/
  origin : ℕ → Option String
  /-- what calls of `finish` have returned -/
  finished : List (Manifest δ)

namespace FolderWorld

variable {ι δ : Type}

/-- No name and no open file refers to the inode, and none ever did. -/
def Unused (w : FolderWorld ι δ) (inode : ℕ) : Prop :=
  (∀ name, w.entries name ≠ some inode) ∧
    (∀ h file, w.files h = some file → file.inode ≠ inode) ∧ w.origin inode = none

/-- An open file more. -/
def opened (w : FolderWorld ι δ) (h : Handle) (file : OpenFile ι) : FolderWorld ι δ :=
  { w with files := Function.update w.files h (some file) }

/-- An open file at another position. -/
def moved (w : FolderWorld ι δ) (h : Handle) (file : OpenFile ι) (position : ℕ) :
    FolderWorld ι δ :=
  w.opened h { file with position }

/-- An open file less, with its lock. -/
def closed (w : FolderWorld ι δ) (h : Handle) : FolderWorld ι δ :=
  { w with
    files := Function.update w.files h none
    locks := fun inode => if w.locks inode = some h then none else w.locks inode }

/-- The bytes of a file with others written over them from a position on. -/
def overwrite (old : List UInt8) (position : ℕ) (bytes : List UInt8) : List UInt8 :=
  old.take position ++ List.replicate (position - old.length) 0 ++ bytes ++
    old.drop (position + bytes.length)

/-- What an operation of a thread may answer, and what it does to the folder. -/
def Does (i : ι) (w : FolderWorld ι δ) : {β : Type} → FileOp δ β → β → FolderWorld ι δ → Prop
  | _, .symlinkMetadata name, answer, w' => w' = w ∧
      match answer with
      | .ok () => (w.entries name).isSome
      | .error e => e = .notFound → w.entries name = none
  | _, .createNew name, .ok h, w' => w.entries name = none ∧ w.files h = none ∧
      ∃ inode, w.Unused inode ∧ w' = { w.opened h ⟨inode, 0, i⟩ with
        entries := Function.update w.entries name (some inode)
        contents := Function.update w.contents inode []
        origin := Function.update w.origin inode (some name) }
  | _, .openRead name, .ok h, w' | _, .openReadWrite name, .ok h, w' => w.files h = none ∧
      ∃ inode, w.entries name = some inode ∧ w' = w.opened h ⟨inode, 0, i⟩
  | _, .tryLockExclusive h, .ok (), w' => ∃ file, w.files h = some file ∧
      (∀ h', w.locks file.inode = some h' → h' = h) ∧
      w' = { w with locks := Function.update w.locks file.inode (some h) }
  | _, .write h bytes, .ok count, w' => ∃ file, w.files h = some file ∧ count ≤ bytes.length ∧
      w' = { w.moved h file (file.position + count) with
        contents := Function.update w.contents file.inode
          (overwrite (w.contents file.inode) file.position (bytes.take count)) }
  | _, .read h limit, .ok bytes, w' => ∃ file, w.files h = some file ∧ bytes.length ≤ limit ∧
      bytes <+: (w.contents file.inode).drop file.position ∧
      (bytes = [] → limit = 0 ∨ (w.contents file.inode).length ≤ file.position) ∧
      w' = w.moved h file (file.position + bytes.length)
  | _, .seek h position, .ok (), w' => ∃ file, w.files h = some file ∧ w' = w.moved h file position
  | _, .length h, .ok length, w' => w' = w ∧ ∃ file, w.files h = some file ∧
      length = (w.contents file.inode).length
  | _, .syncAll h, .ok (), w' => w' = w ∧ (w.files h).isSome
  | _, .hardLink source target, .ok (), w' => ∃ inode, w.entries source = some inode ∧
      w.entries target = none ∧
      w' = { w with entries := Function.update w.entries target (some inode) }
  | _, .removeFile name, .ok (), w' => (w.entries name).isSome ∧
      w' = { w with entries := Function.update w.entries name none }
  | _, .close h, (), w' => w' = w.closed h
  | _, .fillBytes metadata, id, w' => w.drawn id = none ∧
      w' = { w with drawn := Function.update w.drawn id (some (i, metadata)) }
  | _, .note (.finished manifest), (), w' => w' = { w with finished := w.finished ++ [manifest] }
  | _, .tryClone, _, w' | _, .next _, _, w' | _, .note _, _, w' => w' = w
  -- a call that fails changes nothing
  | _, .createNew _, .error _, w' | _, .openRead _, .error _, w' | _, .openReadWrite _, .error _, w'
  | _, .tryLockExclusive _, .error _, w' | _, .write _ _, .error _, w' | _, .read _ _, .error _, w'
  | _, .seek _ _, .error _, w' | _, .length _, .error _, w' | _, .syncAll _, .error _, w'
  | _, .hardLink _ _, .error _, w' | _, .removeFile _, .error _, w' => w' = w

/-- The files of a thread that vanishes are closed. -/
def without [DecidableEq ι] (w : FolderWorld ι δ) (i : ι) : FolderWorld ι δ :=
  { w with
    files := fun h => (w.files h).filter (·.thread ≠ i)
    locks := fun inode => (w.locks inode).filter fun h =>
      (w.files h).all (·.thread ≠ i) }

end FolderWorld

/-- The receive folder as a machine. -/
def receiveFolder (ι δ : Type) [DecidableEq ι] : Machine (FileOp δ) ι (FolderWorld ι δ) where
  step := FolderWorld.Does
  vanish i w w' := w' = w.without i

/-! ## What operations leave alone -/

/-- The operation is about open files and locks only. -/
def FileOp.Quiet {δ : Type} : {β : Type} → FileOp δ β → Prop
  | _, .createNew _ | _, .write _ _ | _, .hardLink _ _ | _, .removeFile _ | _, .fillBytes _
  | _, .note _ => False
  | _, _ => True

namespace FolderWorld

variable {ι δ : Type}

/-- The folders differ in open files and locks only. -/
structure SameFolder (w w' : FolderWorld ι δ) : Prop where
  entries : w'.entries = w.entries
  contents : w'.contents = w.contents
  drawn : w'.drawn = w.drawn
  origin : w'.origin = w.origin
  finished : w'.finished = w.finished

theorem SameFolder.refl (w : FolderWorld ι δ) : w.SameFolder w := ⟨rfl, rfl, rfl, rfl, rfl⟩

theorem SameFolder.trans {w w' w'' : FolderWorld ι δ} (h : w.SameFolder w')
    (h' : w'.SameFolder w'') : w.SameFolder w'' :=
  ⟨h'.entries.trans h.entries, h'.contents.trans h.contents, h'.drawn.trans h.drawn,
    h'.origin.trans h.origin, h'.finished.trans h.finished⟩

theorem sameFolder_of_quiet {i : ι} {w w' : FolderWorld ι δ} {β : Type} {o : FileOp δ β} {b : β}
    (hquiet : o.Quiet) (h : w.Does i o b w') : w.SameFolder w' := by
  cases o with
  | createNew _ | write _ _ | hardLink _ _ | removeFile _ | fillBytes _ | note _ => cases hquiet
  | symlinkMetadata name =>
    obtain ⟨rfl, -⟩ := h
    exact .refl _
  | openRead name | openReadWrite name =>
    rcases b with e | handle
    · obtain rfl := h
      exact .refl _
    · obtain ⟨-, inode, -, rfl⟩ := h
      exact ⟨rfl, rfl, rfl, rfl, rfl⟩
  | tryLockExclusive file =>
    rcases b with e | _
    · obtain rfl := h
      exact .refl _
    · obtain ⟨file, -, -, rfl⟩ := h
      exact ⟨rfl, rfl, rfl, rfl, rfl⟩
  | read file limit =>
    rcases b with e | bytes
    · obtain rfl := h
      exact .refl _
    · obtain ⟨file, -, -, -, -, rfl⟩ := h
      exact ⟨rfl, rfl, rfl, rfl, rfl⟩
  | seek file position =>
    rcases b with e | _
    · obtain rfl := h
      exact .refl _
    · obtain ⟨file, -, rfl⟩ := h
      exact ⟨rfl, rfl, rfl, rfl, rfl⟩
  | length file | syncAll file =>
    rcases b with e | _
    · obtain rfl := h
      exact .refl _
    · obtain ⟨rfl, -⟩ := h
      exact .refl _
  | close file | tryClone | next held =>
    obtain rfl := h
    exact ⟨rfl, rfl, rfl, rfl, rfl⟩

end FolderWorld

/-! ## Rules for the receiver's programs -/

section Rules

variable {ι δ α β : Type} {W : Type*} {M : Machine (FileOp δ) ι W} {D : Regime M} {i : ι}
  {P : W → Prop}

/-- A call of the file system. -/
theorem outline_io {o : FileOp δ (Except IoError α)} {R : α → W → Prop} {E : FileError → W → Prop}
    (hstable : D.Stable i P) (hcorrect : D.Correct i P o (Outline.Outcome R fun e => E (.io e)))
    (hR : ∀ a, D.Stable i (R a)) (hE : ∀ e, D.Stable i (E e)) :
    Outline D i P (io o) (Outline.Outcome R E) := by
  refine .op hstable hcorrect fun r => ?_
  rcases r with e | a
  · exact .ret (hE _) fun _ _ h => h
  · exact .ret (hR a) fun _ _ h => h

/-- And before a program that runs only if it succeeds. -/
theorem io_seq {o : FileOp δ (Except IoError α)} {f : α → FileProg δ β} {R : α → W → Prop}
    {Q : Except FileError β → W → Prop} (hstable : D.Stable i P)
    (hcorrect : D.Correct i P o (Outline.Outcome R fun e => Q (.error (.io e))))
    (herror : ∀ e, D.Stable i (Q (.error e))) (hok : ∀ a, Outline D i (R a) (f a) Q) :
    Outline D i P (io o >>= f : FileProg δ β) Q := by
  refine .op hstable hcorrect fun r => ?_
  rcases r with e | a
  · exact .ret (herror _) fun _ _ h => h
  · exact hok a

/-- A file is dropped if the program that owns it fails. -/
theorem outline_owning {file : Handle} {x : FileProg δ α} {Q Q' : Except FileError α → W → Prop}
    (h : Outline D i P x Q) (hstable : ∀ r, D.Stable i (Q r))
    (hclose : ∀ e, D.Correct i (Q (.error e)) (.close file) fun _ => Q' (.error e))
    (hstable' : ∀ e, D.Stable i (Q' (.error e)))
    (hok : ∀ a w, D.inv w → Q (.ok a) w → Q' (.ok a) w) :
    Outline D i P (owning file x) Q' := by
  refine Outline.bind h fun r => ?_
  rcases r with e | a
  · exact .op (hstable _) (hclose e) fun _ => .ret (hstable' e) fun _ _ h => h
  · exact .ret (hstable _) (hok a)

/-- `writeAll`, by what is left to be written. Its errors are those of the system. -/
theorem outline_writeAll {file : Handle} {bytes : List UInt8} {L : List UInt8 → W → Prop}
    {E : W → Prop} (hL : ∀ rest, D.Stable i (L rest)) (hE : D.Stable i E)
    (hwrite : ∀ rest, rest ≠ [] → D.Correct i (L rest) (.write file rest)
      (Outline.Outcome (fun count => L (rest.drop count)) fun _ => E))
    (hstop : ∀ rest w, D.inv w → L rest w → E w) :
    Outline D i (L bytes) (writeAll file bytes : FileProg δ Unit)
      (Outline.Outcome (fun _ => L []) fun e w => (∃ e', e = .io e') ∧ E w) := by
  have hfailed : ∀ e : FileError, D.Stable i fun w => (∃ e', e = .io e') ∧ E w :=
    fun e w w' hw hw' h hrely => ⟨h.1, hE w w' hw hw' h.2 hrely⟩
  refine Outline.repeats (fun rest => ?_) (Outline.stable_outcome (fun _ => hL []) hfailed)
  split
  · rename_i hnil
    subst hnil
    exact .ret (hL []) fun _ _ h => h
  · rename_i hne
    refine io_seq (R := fun count => L (rest.drop count)) (hL rest) ?_ (fun _ => hfailed _)
      fun count => ?_
    · apply (hwrite rest hne).post
      rintro (e | count) w - h
      · exact ⟨⟨e, rfl⟩, h⟩
      · exact h
    · exact Outline.check_seq (hL _) (fun w hw h => ⟨⟨_, rfl⟩, hstop _ w hw h⟩) fun _ =>
        .ret (hL _) fun _ _ h => h

/-- `readToEnd`, by what has been read. -/
theorem outline_readToEnd {file : Handle} {limit : ℕ} {L : List UInt8 → W → Prop} {E : W → Prop}
    (hL : ∀ bytes, D.Stable i (L bytes)) (hE : D.Stable i E)
    (hread : ∀ bytes n, D.Correct i (L bytes) (.read file n)
      (Outline.Outcome (fun data => L (bytes ++ data)) fun _ => E)) :
    Outline D i (L []) (readToEnd file limit : FileProg δ (List UInt8))
      (Outline.Outcome L fun _ => E) := by
  refine Outline.repeats (fun bytes => ?_) fun r => ?_
  · split
    · exact .ret (hL bytes) fun _ _ h => h
    · refine io_seq (R := fun data => L (bytes ++ data)) (hL bytes) (hread bytes _)
        (fun _ => hE) fun data => ?_
      split
      · rename_i hnil
        rw [hnil, List.append_nil]
        exact .ret (hL _) fun _ _ h => h
      · exact .ret (hL _) fun _ _ h => h
  · exact Outline.stable_outcome hL (fun _ => hE) r

/-- `hashReader`, by what has been hashed. -/
theorem outline_hashReader {sha256 : List UInt8 → δ} {file : Handle} {L : List UInt8 → W → Prop}
    {R : δ → W → Prop} {E : W → Prop} (hL : ∀ hash, D.Stable i (L hash))
    (hR : ∀ digest, D.Stable i (R digest)) (hE : D.Stable i E)
    (hread : ∀ hash, D.Correct i (L hash) (.read file CHUNK_SIZE) (Outline.Outcome
      (fun data => if data = [] then R (sha256 hash) else L (hash ++ data)) fun _ => E)) :
    Outline D i (L []) (hashReader sha256 file) (Outline.Outcome R fun _ => E) := by
  refine Outline.repeats (fun hash => ?_) fun r => ?_
  · refine io_seq (R := fun data => if data = [] then R (sha256 hash) else L (hash ++ data))
      (hL hash) (hread hash) (fun _ => hE) fun data => ?_
    split
    · exact .ret (hR _) fun _ _ h => h
    · exact .ret (hL _) fun _ _ h => h
  · exact Outline.stable_outcome hR (fun _ => hE) r

end Rules

end SensorRemote
