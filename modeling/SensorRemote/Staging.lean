import SensorRemote.Updates
import SensorRemote.Lib.Program

/-!
# Staging an update

`stage_with_policy` (`updates.rs` of `sensor-desktop`) copies the installer of a verified manifest
to a fresh directory, hashes the copy, and only then gives it a name that can be executed. Any of
its calls of the file system may fail. What it owns by then, a temporary file and a temporary
directory, is removed when it is dropped; whether that succeeds is not looked at.

A path is the list of its components.
-/

namespace SensorRemote

open Program

abbrev StagePath := List String

/-- What is at a path. -/
inductive StageEntry where
  | directory
  | file (contents : List UInt8)

/-- The calls of the file system. Errors are texts, as they are reported. -/
inductive StageOp : Type → Type where
  | openFile (path : StagePath) : StageOp (Except String Unit)
  /-- `take(limit).read_to_end` -/
  | readToEnd (path : StagePath) (limit : ℕ) : StageOp (Except String (List UInt8))
  /-- `metadata().is_file()` -/
  | isFile (path : StagePath) : StageOp (Except String Bool)
  | createDirAll (path : StagePath) : StageOp (Except String Unit)
  | tempdirIn (root : StagePath) (start : String) : StageOp (Except String StagePath)
  | namedTempFile (directory : StagePath) : StageOp (Except String StagePath)
  /-- a read of the installer -/
  | readSource (path : StagePath) (limit : ℕ) : StageOp (Except String (List UInt8))
  | writeAll (path : StagePath) (bytes : List UInt8) : StageOp (Except String Unit)
  | flush (path : StagePath) : StageOp (Except String Unit)
  /-- a read of the copy -/
  | read (path : StagePath) (limit : ℕ) : StageOp (Except String (List UInt8))
  | syncAll (path : StagePath) : StageOp (Except String Unit)
  | persistNoclobber (path target : StagePath) : StageOp (Except String Unit)
  | removeFile (path : StagePath) : StageOp (Except String Unit)
  | removeDirAll (path : StagePath) : StageOp (Except String Unit)

abbrev StageProg := Fallible StageOp String

open Fallible (attempt check)

/-- `x`, with what it owns dropped if it fails. -/
def dropping {α : Type} (drop : StageOp (Except String Unit)) (x : StageProg α) : StageProg α :=
  Prog.bind x fun
    | .error e => .op drop fun _ => .ret (.error e)
    | .ok a => .ret (.ok a)

/-- `io::copy` from `source.take(limit)`. -/
def copy (source staged : StagePath) (limit : ℕ) : StageProg ℕ :=
  Fallible.forever 0 fun copied =>
    if copied = limit then pure (.inr copied)
    else do
      let chunk ← attempt (.readSource source (limit - copied))
      if chunk = [] then return .inr copied
      attempt (.writeAll staged chunk)
      return .inl (copied + chunk.length)

/-- The loop of `digest`: how many bytes there are, and the bytes. -/
def digestLoop (path : StagePath) : StageProg (ℕ × List UInt8) :=
  Fallible.forever (0, []) fun (count, hashed) =>
    if count = MAX_INSTALLER + 1 then pure (.inr (count, hashed))
    else do
      let chunk ← attempt (.read path (min 65536 (MAX_INSTALLER + 1 - count)))
      if chunk = [] then return .inr (count, hashed)
      return .inl (count + chunk.length, hashed ++ chunk)

section Stage

variable {ι : Type} (scheme : SignatureScheme ι) (json : UpdateReader)
  (sha256 : List UInt8 → Vector UInt8 32)

/-- `digest`. -/
def digest (path : StagePath) : StageProg (ℕ × Vector UInt8 32) := do
  let (count, hashed) ← digestLoop path
  check (count ≠ 0 ∧ count ≤ MAX_INSTALLER) "Invalid installer size"
  return (count, sha256 hashed)

/-- `stage_with_policy`, with the temporary file. -/
def publish (installer staged path : StagePath) (release : Release) : StageProg Unit := do
  let copied ← copy installer staged (release.installerBytes.toNat + 1)
  attempt (.flush staged)
  check (copied = release.installerBytes.toNat) "Installer size does not match the signed release"
  attempt (.openFile staged)
  let (_, hash) ← digest sha256 staged
  check (hash = release.installerSha256) "Installer hash does not match the signed release"
  attempt (.syncAll staged)
  attempt (.persistNoclobber staged path)

/-- `stage_with_policy`, with the temporary directory. -/
def stageIn (installer directory : StagePath) (release : Release) :
    StageProg (StagePath × Release) := do
  let staged ← attempt (.namedTempFile directory)
  let path := directory ++ ["SENSOR-Verified-Setup.exe"]
  dropping (.removeFile staged) (publish sha256 installer staged path release)
  return (path, release)

/-- `stage_with_policy`, with the verified release. -/
def stageRelease (installer root : StagePath) (release : Release) :
    StageProg (StagePath × Release) := do
  attempt (.openFile installer)
  let isFile ← attempt (.isFile installer)
  check (isFile = true) "Installer must be a regular file"
  attempt (.createDirAll root)
  let directory ← attempt (.tempdirIn root "verified-")
  dropping (.removeDirAll directory) (stageIn sha256 installer directory release)

/-- `stage_with_policy`. There is no panic of `verify` to go on with. -/
def stageWithPolicy (manifest installer root : StagePath) (installed : Vector UInt32 3)
    (key : PublicKey) (time : UInt64) : StageProg (StagePath × Release) := do
  attempt (.openFile manifest)
  let bytes ← attempt (.readToEnd manifest (MAX_MANIFEST + 1))
  let release ← Fallible.ofExcept
    ((verifyUpdate scheme json bytes key installed time).getD (.error "panic"))
  stageRelease sha256 installer root release

end Stage

/-! ## The file system -/

/-- The name of a temporary file or directory. -/
def TemporaryName (start name : String) : Prop :=
  ∃ random : List Char, random.length = 6 ∧ (∀ c ∈ random, c.isAlphanum = true) ∧
    name.toList = start.toList ++ random

/-- The files as the program leaves them, and how far those that are open are read. What others
do to the installer meanwhile is not in here: a read of it may answer anything. -/
structure StageWorld where
  entries : StagePath → Option StageEntry
  cursors : StagePath → ℕ

namespace StageWorld

/-- Something else at one path. -/
def put (w : StageWorld) (path : StagePath) (entry : Option StageEntry) : StageWorld :=
  { w with entries := Function.update w.entries path entry }

@[simp] theorem put_self (w : StageWorld) (path : StagePath) (entry : Option StageEntry) :
    (w.put path entry).entries path = entry := Function.update_self ..

theorem put_of_ne (w : StageWorld) {path p : StagePath} (entry : Option StageEntry)
    (h : p ≠ path) : (w.put path entry).entries p = w.entries p := Function.update_of_ne h ..

/-- What a call may answer, and what it does. -/
def Does (w : StageWorld) : {β : Type} → StageOp β → β → StageWorld → Prop
  | _, .openFile path, .ok (), w' => w.entries path ≠ none ∧
      w' = { w with cursors := Function.update w.cursors path 0 }
  | _, .readToEnd path limit, .ok bytes, w' =>
      (∃ contents, w.entries path = some (.file contents) ∧ bytes = contents.take limit) ∧ w' = w
  | _, .isFile _, .ok _, w' => w' = w
  -- the directories on the way may be there even if the last one is not
  | _, .createDirAll path, r, w' => (∀ p, w'.entries p = w.entries p ∨
        p <+: path ∧ w.entries p = none ∧ w'.entries p = some .directory) ∧
      (r = .ok () → w'.entries path = some .directory) ∧ w'.cursors = w.cursors
  | _, .tempdirIn root start, .ok path, w' => ∃ name, path = root ++ [name] ∧
      TemporaryName start name ∧ (∀ p, path <+: p → w.entries p = none) ∧
      w' = w.put path (some .directory)
  | _, .namedTempFile directory, .ok path, w' => ∃ name, path = directory ++ [name] ∧
      TemporaryName ".tmp" name ∧ w.entries path = none ∧ w' = w.put path (some (.file []))
  | _, .readSource _ limit, .ok bytes, w' => bytes.length ≤ limit ∧ w' = w
  | _, .writeAll path bytes, r, w' => ∃ contents written,
      w.entries path = some (.file contents) ∧ written <+: bytes ∧
      (r = .ok () → written = bytes) ∧ w' = w.put path (some (.file (contents ++ written)))
  | _, .flush _, .ok (), w' | _, .syncAll _, .ok (), w' => w' = w
  | _, .read path limit, .ok bytes, w' => ∃ contents,
      w.entries path = some (.file contents) ∧ bytes <+: contents.drop (w.cursors path) ∧
      bytes.length ≤ limit ∧
      (bytes = [] → limit = 0 ∨ contents.length ≤ w.cursors path) ∧
      w' = { w with cursors := Function.update w.cursors path (w.cursors path + bytes.length) }
  -- where the system has no such renaming, the temporary name may stay
  | _, .persistNoclobber path target, .ok (), w' => w.entries target = none ∧
      (w' = (w.put target (w.entries path)).put path none ∨ w' = w.put target (w.entries path))
  | _, .removeFile path, .ok (), w' => w' = w.put path none
  | _, .removeDirAll path, .ok (), w' => w'.entries = fun p =>
      if path <+: p then none else w.entries p
  -- some of what is in the directory may be gone
  | _, .removeDirAll path, .error _, w' => ∀ p, w'.entries p = w.entries p ∨
      path <+: p ∧ w'.entries p = none
  | _, .openFile _, .error _, w' | _, .readToEnd _ _, .error _, w' | _, .isFile _, .error _, w'
  | _, .tempdirIn _ _, .error _, w' | _, .namedTempFile _, .error _, w'
  | _, .readSource _ _, .error _, w' | _, .flush _, .error _, w' | _, .syncAll _, .error _, w'
  | _, .read _ _, .error _, w' | _, .persistNoclobber _ _, .error _, w'
  | _, .removeFile _, .error _, w' => w' = w

end StageWorld

/-- The files as a machine, for one thread, with what was done. -/
def stageMachine : Machine StageOp Unit (StageWorld × List (Event StageOp)) :=
  Machine.recorded { step := fun _ w _ o b w' => w.Does o b w', vanish := fun _ w w' => w' = w }

/-! ## What is left -/

/-- The name of a program. -/
def Executable (path : StagePath) : Prop :=
  ∃ name, path.getLast? = some name ∧ ".exe".toList <:+ name.toList

/-- Nothing that was there is changed, and there is nothing new but the directories on the way to
the root and what is `Own`. -/
structure Adds (w : StageWorld) (root : StagePath) (Own : StagePath → Prop) (w' : StageWorld) :
    Prop where
  kept : ∀ p, w.entries p ≠ none → w'.entries p = w.entries p
  added : ∀ p, w.entries p = none → w'.entries p ≠ none → p <+: root ∨ Own p

namespace Adds

variable {w s s' : StageWorld} {root : StagePath} {Own Own' : StagePath → Prop} {path : StagePath}

theorem refl (w : StageWorld) (root : StagePath) (Own : StagePath → Prop) : Adds w root Own w :=
  ⟨fun _ _ => rfl, fun _ hnone h => absurd hnone h⟩

theorem mono (h : Adds w root Own s) (hOwn : ∀ p, Own p → Own' p) : Adds w root Own' s :=
  ⟨h.kept, fun p hnone hsome => (h.added p hnone hsome).imp_right (hOwn p)⟩

/-- A step that keeps an entry, or removes one that is `Own`, or adds one on the way to the root. -/
theorem step (h : Adds w root Own s) (hstep : ∀ p, s'.entries p = s.entries p ∨
    w.entries p = none ∧ (s'.entries p ≠ none → p <+: root ∨ Own p)) : Adds w root Own s' where
  kept p hsome := by
    rcases hstep p with hsame | ⟨hnone, -⟩
    · exact hsame.trans (h.kept p hsome)
    · exact absurd hnone hsome
  added p hnone hsome := by
    rcases hstep p with hsame | ⟨-, hown⟩
    · exact h.added p hnone (hsame ▸ hsome)
    · exact hown hsome

theorem same (h : Adds w root Own s) (hentries : s'.entries = s.entries) : Adds w root Own s' :=
  h.step fun p => .inl (congrFun hentries p)

/-- Something else is put at a path that is `Own`. -/
theorem put (h : Adds w root Own s) (hnone : w.entries path = none) (hown : Own path)
    (entry : Option StageEntry) : Adds w root Own (s.put path entry) := by
  refine h.step fun p => ?_
  by_cases hp : p = path
  · subst hp
    exact .inr ⟨hnone, fun _ => .inr hown⟩
  · exact .inl (s.put_of_ne entry hp)

/-- What is free now was free before. -/
theorem free (h : Adds w root Own s) (hnone : s.entries path = none) : w.entries path = none := by
  by_contra hsome
  exact hsome ((h.kept path hsome).symm.trans hnone)

end Adds

namespace Staging

variable {w s s' : StageWorld} {root dir staged path : StagePath} {first name : String}

theorem not_executable (h : TemporaryName first name) : ¬Executable (root ++ [name]) := by
  rintro ⟨last, hlast, hexe⟩
  obtain ⟨random, hlength, hplain, hname⟩ := h
  rw [List.getLast?_concat, Option.some.injEq] at hlast
  obtain rfl := hlast
  rw [hname] at hexe
  -- the last four characters are among the random ones
  have hsuffix : ".exe".toList <:+ random := by
    apply List.suffix_of_suffix_length_le hexe (List.suffix_append _ _)
    rw [hlength]
    decide
  have hdot := hplain '.' (hsuffix.subset (by decide))
  exact absurd hdot (by decide)

/-- What the temporary directory has in it until the copy is published. -/
def Inside (dir p : StagePath) : Prop := dir <+: p ∧ ¬Executable p

/-- The copy, as far as it is there. -/
structure Copying (w : StageWorld) (root dir staged : StagePath)
    (A : StageWorld → List UInt8 → Prop)
    (s : StageWorld) : Prop where
  adds : Adds w root (Inside dir) s
  copy : ∃ contents, s.entries staged = some (.file contents) ∧ A s contents

/-- The files, and what was done. -/
abbrev State := StageWorld × List (Event StageOp)

abbrev regime : Regime stageMachine := .solo _

variable {α β : Type} {P E : StageWorld → Prop}

/-- A call of the file system. -/
theorem outline_attempt {o : StageOp (Except String α)} {R : α → StageWorld → Prop}
    (hcall : ∀ s r s', P s → s.Does o r s' → Outline.Outcome R (fun _ => E) r s') :
    Outline regime () (fun s => P s.1) (attempt o)
      (Outline.Outcome (fun a s => R a s.1) fun _ s => E s.1) := by
  refine .op (R := Outline.Outcome (fun a s => R a s.1) fun _ s => E s.1) Regime.solo_stable ?_
    fun r => .ret Regime.solo_stable fun _ _ h => h
  rintro s r s' - hP ⟨hdoes, -⟩
  have hafter := hcall s.1 r s'.1 hP hdoes
  rcases r with e | a <;> exact ⟨trivial, trivial, hafter⟩

/-- And before a program that runs only if it succeeds. -/
theorem attempt_seq {o : StageOp (Except String α)} {f : α → StageProg β}
    {R : α → StageWorld → Prop} {Q : Except String β → State → Prop}
    (hcall : ∀ s r s', P s → StageWorld.Does s o r s' → Outline.Outcome R (fun _ => E) r s')
    (herror : ∀ e s, E s.1 → Q (.error e) s)
    (hok : ∀ a, Outline regime () (fun s => R a s.1) (f a) Q) :
    Outline regime () (fun s => P s.1) (attempt o >>= f : StageProg β) Q :=
  (outline_attempt hcall).onward (fun _ => Regime.solo_stable) (fun e s _ h => herror e s h) hok

/-! ### The copy -/

/-- A place in the temporary directory where nothing was. -/
structure Place (w : StageWorld) (dir staged : StagePath) : Prop where
  free : w.entries staged = none
  inside : Inside dir staged

/-- A call that leaves the entries as they are. -/
theorem quiet_seq {A : StageWorld → List UInt8 → Prop} {B : α → StageWorld → List UInt8 → Prop}
    {o : StageOp (Except String α)} {f : α → StageProg β} {Q : Except String β → State → Prop}
    (hquiet : ∀ s r s', StageWorld.Does s o r s' → s'.entries = s.entries)
    (hcopy : ∀ s a s' contents, s.entries staged = some (.file contents) → A s contents →
      s.Does o (.ok a) s' → B a s' contents)
    (herror : ∀ e s, Adds w root (Inside dir) s.1 → Q (.error e) s)
    (hok : ∀ a, Outline regime () (fun s => Copying w root dir staged (B a) s.1) (f a) Q) :
    Outline regime () (fun s => Copying w root dir staged A s.1) (attempt o >>= f : StageProg β)
      Q := by
  refine attempt_seq (E := Adds w root (Inside dir))
    (R := fun a => Copying w root dir staged (B a)) ?_
    herror hok
  rintro s (e | a) s' ⟨hadds, contents, hcontents, hA⟩ hdoes
  · exact hadds.same (hquiet s _ s' hdoes)
  · have hsame := hquiet s _ s' hdoes
    exact ⟨hadds.same hsame, contents, by rw [hsame, hcontents],
      hcopy s a s' contents hcontents hA hdoes⟩

/-- `copy` counts what it has written. -/
theorem outline_copy (hplace : Place w dir staged) (source : StagePath) (limit : ℕ) :
    Outline regime () (fun s => Copying w root dir staged (fun _ contents => contents = []) s.1)
      (copy source staged limit)
      (Outline.Outcome
        (fun copied s => Copying w root dir staged (fun _ contents => contents.length = copied) s.1)
        fun _ s => Adds w root (Inside dir) s.1) := by
  have hstable {P : State → Prop} : regime.Stable () P := Regime.solo_stable
  refine (Outline.repeats (L := fun copied s =>
    Copying w root dir staged (fun _ contents => contents.length = copied) s.1)
    (fun copied => ?_) fun _ => hstable).pre hstable ?_
  · split
    · exact .ret hstable fun _ _ h => h
    refine quiet_seq (B := fun _ _ contents => contents.length = copied) ?_ ?_ (fun _ _ h => h)
      fun chunk => ?_
    · rintro s (e | chunk) s' hdoes
      · rw [show s' = s from hdoes]
      · rw [hdoes.2]
    · exact fun _ _ _ _ _ hlength _ => hlength
    split
    · exact .ret hstable fun _ _ h => h
    refine attempt_seq (E := Adds w root (Inside dir)) (R := fun _ => Copying w root dir staged
      fun _ contents => contents.length = copied + chunk.length) ?_ (fun _ _ h => h)
      fun _ => .ret hstable fun _ _ h => h
    rintro s r s' ⟨hadds, contents, hcontents, hlength⟩ ⟨contents', written, hcontents', -,
      hall, rfl⟩
    have hadds' := hadds.put hplace.free hplace.inside (some (.file (contents' ++ written)))
    rcases r with e | ⟨⟩
    · exact hadds'
    · obtain rfl := StageEntry.file.inj (Option.some.inj (hcontents.symm.trans hcontents'))
      obtain rfl := hall rfl
      refine ⟨hadds', _, StageWorld.put_self .., ?_⟩
      rw [List.length_append, hlength]
  · rintro s - ⟨hadds, contents, hcontents, rfl⟩
    exact ⟨hadds, [], hcontents, rfl⟩

/-- How far the copy is hashed. -/
def Hashed (staged : StagePath) (size count : ℕ) (hashed : List UInt8) (s : StageWorld)
    (contents : List UInt8) : Prop :=
  contents.length = size ∧ s.cursors staged = count ∧ hashed = contents.take count ∧ count ≤ size

/-- `digest` hashes the whole copy, if it is not too long. -/
theorem outline_digestLoop {size : ℕ} (hsize : size ≤ MAX_INSTALLER) :
    Outline regime () (fun s => Copying w root dir staged (Hashed staged size 0 []) s.1)
      (digestLoop staged)
      (Outline.Outcome
        (fun counted s => Copying w root dir staged
          (fun _ contents => contents.length = size ∧ counted.2 = contents) s.1)
        fun _ s => Adds w root (Inside dir) s.1) := by
  have hstable {P : State → Prop} : regime.Stable () P := Regime.solo_stable
  refine Outline.repeats (s := ((0 : ℕ), ([] : List UInt8)))
    (L := fun counted s => Copying w root dir staged (Hashed staged size counted.1 counted.2) s.1)
    ?_ fun _ => hstable
  rintro ⟨count, hashed⟩
  dsimp only
  split
  · rename_i hlimit
    refine .ret hstable ?_
    rintro s - ⟨-, contents, -, -, -, -, hcount⟩
    simp only [hlimit] at hcount
    omega
  rename_i hlimit
  refine quiet_seq (B := fun chunk s contents =>
    Hashed staged size (count + chunk.length) (hashed ++ chunk) s contents ∧
      (chunk = [] → count = size)) ?_ ?_ (fun _ _ h => h) fun chunk => ?_
  · rintro s (e | chunk) s' hdoes
    · rw [show s' = s from hdoes]
    · obtain ⟨-, -, -, -, -, rfl⟩ := hdoes
      rfl
  · rintro s chunk s' contents hcontents ⟨hlength, hcursor, rfl, hcount⟩
      ⟨contents', hcontents', hchunk, -, hend, rfl⟩
    obtain rfl := StageEntry.file.inj (Option.some.inj (hcontents.symm.trans hcontents'))
    rw [hcursor] at hchunk hend
    have hle := hchunk.length_le
    rw [List.length_drop] at hle
    refine ⟨⟨hlength, ?_, ?_, by omega⟩, fun hempty => ?_⟩
    · simp only [Function.update_self, hcursor]
    · rw [List.take_add, ← List.prefix_iff_eq_take.mp hchunk]
    · -- there was room to read something
      rcases hend hempty with hroom | hdone <;> omega
  · split
    · rename_i hempty
      refine .ret hstable ?_
      rintro s - ⟨hadds, contents, hcontents, ⟨hlength, -, hhashed, -⟩, hdone⟩
      refine ⟨hadds, contents, hcontents, hlength, ?_⟩
      rw [hdone hempty, hempty, List.append_nil, List.length_nil, Nat.add_zero, ← hlength,
        List.take_length] at hhashed
      exact hhashed
    · exact .ret hstable fun s _ h => ⟨h.adds, h.copy.imp fun _ h => ⟨h.1, h.2.1⟩⟩

/-! ### The whole -/

section Whole

variable {ι : Type} {scheme : SignatureScheme ι} {json : UpdateReader}
  {sha256 : List UInt8 → Vector UInt8 32} {manifest installer : StagePath}
  {installed : Vector UInt32 3} {key : PublicKey} {time : UInt64} {release : Release}

/-- The file of a release. -/
def IsInstaller (sha256 : List UInt8 → Vector UInt8 32) (release : Release)
    (contents : List UInt8) : Prop :=
  contents.length = release.installerBytes.toNat ∧ sha256 contents = release.installerSha256

/-- `digest` returns the hash of the copy. -/
theorem outline_digest {size : ℕ} (hsize : size ≤ MAX_INSTALLER) :
    Outline regime () (fun s => Copying w root dir staged (Hashed staged size 0 []) s.1)
      (digest sha256 staged)
      (Outline.Outcome
        (fun r s => Copying w root dir staged
          (fun _ contents => contents.length = size ∧ sha256 contents = r.2) s.1)
        fun _ s => Adds w root (Inside dir) s.1) := by
  have hstable {P : State → Prop} : regime.Stable () P := Regime.solo_stable
  refine (outline_digestLoop hsize).onward (fun _ => hstable) (fun _ _ _ h => h) ?_
  rintro ⟨count, hashed⟩
  refine Outline.check_seq hstable (fun s _ h => h.adds) fun _ => .ret hstable ?_
  rintro s - ⟨hadds, contents, hcontents, hlength, rfl⟩
  exact ⟨hadds, hashed, hcontents, hlength, rfl⟩

/-- What owns something is dropped. -/
theorem outline_dropping {drop : StageOp (Except String Unit)} {x : StageProg α}
    {Q : α → State → Prop}
    {P E E' : State → Prop} (h : Outline regime () P x (Outline.Outcome Q fun _ => E))
    (hdrop : ∀ s r s', E s → StageWorld.Does s.1 drop r s'.1 → s'.2 = s.2 ++ [⟨drop, r⟩] → E' s') :
    Outline regime () P (dropping drop x) (Outline.Outcome Q fun _ => E') := by
  have hstable {P : State → Prop} : regime.Stable () P := Regime.solo_stable
  refine h.bind_outcome (fun a => .ret hstable fun _ _ h => h) fun e => ?_
  refine .op (R := fun _ => E') hstable ?_ fun _ => .ret hstable fun _ _ h => h
  rintro s r s' - hE ⟨hdoes, hhistory⟩
  exact ⟨trivial, trivial, hdrop s r s' hE hdoes hhistory⟩

/-- From the temporary file to the published one. -/
theorem outline_publish (hplace : Place w dir staged)
    (hsize : release.installerBytes.toNat ≤ MAX_INSTALLER) :
    Outline regime () (fun s => Copying w root dir staged (fun _ contents => contents = []) s.1)
      (publish sha256 installer staged path release)
      (Outline.Outcome
        (fun _ s => ∃ contents, s.1.entries path = some (.file contents) ∧
          IsInstaller sha256 release contents)
        fun _ s => Adds w root (Inside dir) s.1) := by
  have hstable {P : State → Prop} : regime.Stable () P := Regime.solo_stable
  refine (outline_copy hplace installer _).onward (fun _ => hstable) (fun _ _ _ h => h)
    fun copied => ?_
  refine quiet_seq (B := fun _ _ contents => contents.length = copied) ?_ ?_ (fun _ _ h => h)
    fun _ => ?_
  · rintro s (e | ⟨⟩) s' hdoes
    · rw [show s' = s from hdoes]
    · rw [show s' = s from hdoes]
  · exact fun _ _ _ _ _ hlength _ => hlength
  refine Outline.check_seq hstable (fun s _ h => h.adds) ?_
  rintro rfl
  refine quiet_seq (B := fun _ => Hashed staged release.installerBytes.toNat 0 []) ?_ ?_
    (fun _ _ h => h) fun _ => ?_
  · rintro s (e | ⟨⟩) s' hdoes
    · rw [show s' = s from hdoes]
    · rw [hdoes.2]
  · rintro s ⟨⟩ s' contents - hlength ⟨-, rfl⟩
    exact ⟨hlength, Function.update_self .., by simp, Nat.zero_le _⟩
  refine (outline_digest hsize).onward (fun _ => hstable) (fun _ _ _ h => h) ?_
  rintro ⟨count, hash⟩
  refine Outline.check_seq hstable (fun s _ h => h.adds) ?_
  rintro rfl
  refine quiet_seq (B := fun _ _ => IsInstaller sha256 release) ?_ ?_ (fun _ _ h => h) fun _ => ?_
  · rintro s (e | ⟨⟩) s' hdoes
    · rw [show s' = s from hdoes]
    · rw [show s' = s from hdoes]
  · exact fun _ _ _ _ _ h _ => h
  refine outline_attempt (R := fun _ s => ∃ contents, s.entries path = some (.file contents) ∧
    IsInstaller sha256 release contents) ?_
  rintro s (e | ⟨⟩) s' ⟨hadds, contents, hcontents, hinstaller⟩ hdoes
  · rw [show s' = s from hdoes]
    exact hadds
  · obtain ⟨hfree, hdoes⟩ := hdoes
    refine ⟨contents, ?_, hinstaller⟩
    have hne : path ≠ staged := by
      rintro rfl
      rw [hfree] at hcontents
      cases hcontents
    rcases hdoes with rfl | rfl
    · rw [StageWorld.put_of_ne _ _ hne, StageWorld.put_self, hcontents]
    · rw [StageWorld.put_self, hcontents]

/-- The removal of a directory failed. -/
def RemovalFailed (dir : StagePath) (history : List (Event StageOp)) : Prop :=
  ∃ e, ⟨.removeDirAll dir, Except.error e⟩ ∈ history

/-- What a failure leaves: nothing new, or what is in a directory that could not be removed, and no
program. -/
def Left (w : StageWorld) (root : StagePath) (s : State) : Prop :=
  Adds w root (fun p => ¬Executable p ∧ ∃ dir, dir <+: p ∧ RemovalFailed dir s.2) s.1

/-- The temporary directory is removed, or the removal failed. -/
theorem left_of_removeDirAll {s s' : State} {r : Except String Unit}
    (hfree : ∀ p, dir <+: p → w.entries p = none) (h : Adds w root (Inside dir) s.1)
    (hdoes : StageWorld.Does s.1 (.removeDirAll dir) r s'.1)
    (hhistory : s'.2 = s.2 ++ [⟨.removeDirAll dir, r⟩]) : Left w root s' := by
  rcases r with e | ⟨⟩
  · have hfailed : RemovalFailed dir s'.2 := ⟨e, by simp [hhistory]⟩
    have hleft : Left w root (s.1, s'.2) := h.mono fun p hp => ⟨hp.2, dir, hp.1, hfailed⟩
    refine hleft.step fun p => ?_
    rcases hdoes p with hsame | ⟨hinside, hgone⟩
    · exact .inl hsame
    · exact .inr ⟨hfree p hinside, fun hsome => absurd hgone hsome⟩
  · have hentries : s'.1.entries = fun p => if dir <+: p then none else s.1.entries p := hdoes
    refine ⟨fun p hsome => ?_, fun p hnone hsome => ?_⟩
    · have houtside : ¬dir <+: p := fun hinside => hsome (hfree p hinside)
      rw [hentries]
      exact (if_neg houtside).trans (h.kept p hsome)
    · rw [hentries] at hsome
      simp only [ne_eq, ite_eq_left_iff, not_forall] at hsome
      obtain ⟨houtside, hsome⟩ := hsome
      exact (h.added p hnone hsome).imp_right fun hinside => absurd hinside.1 houtside

/-- With the temporary directory. -/
theorem outline_directory (hfree : ∀ p, dir <+: p → w.entries p = none)
    (hsize : release.installerBytes.toNat ≤ MAX_INSTALLER) :
    Outline regime () (fun s => Adds w root (Inside dir) s.1)
      (dropping (.removeDirAll dir) (stageIn sha256 installer dir release))
      (Outline.Outcome
        (fun r s => r.2 = release ∧ ∃ contents, s.1.entries r.1 = some (.file contents) ∧
          IsInstaller sha256 release contents)
        fun _ => Left w root) := by
  have hstable {P : State → Prop} : regime.Stable () P := Regime.solo_stable
  refine outline_dropping (E := fun s => Adds w root (Inside dir) s.1) ?_
    fun s r s' h hdoes hhistory => left_of_removeDirAll hfree h hdoes hhistory
  refine attempt_seq (E := Adds w root (Inside dir)) (R := fun staged s =>
    Place w dir staged ∧ Copying w root dir staged (fun _ contents => contents = []) s) ?_
    (fun _ _ h => h) fun staged => .given (fun _ => hstable) fun hplace => ?_
  · rintro s (e | staged) s' hadds hdoes
    · rw [show s' = s from hdoes]
      exact hadds
    · obtain ⟨name, rfl, hname, hnone, rfl⟩ := hdoes
      have hplace : Place w dir (dir ++ [name]) :=
        ⟨hadds.free hnone, List.prefix_append .., not_executable hname⟩
      exact ⟨hplace, hadds.put hplace.free hplace.inside _, [], StageWorld.put_self .., rfl⟩
  · refine (outline_dropping (outline_publish hplace hsize) ?_).onward (fun _ => hstable)
      (fun _ _ _ h => h) fun _ => .ret hstable fun s _ h => ⟨rfl, h⟩
    rintro s (e | ⟨⟩) s' hadds hdoes -
    · rw [show s'.1 = s.1 from hdoes]
      exact hadds
    · rw [show s'.1 = s.1.put staged none from hdoes]
      exact hadds.put hplace.free hplace.inside none

/-- The manifest that `verify` takes. -/
def Verified (scheme : SignatureScheme ι) (json : UpdateReader) (w : StageWorld)
    (manifest : StagePath) (installed : Vector UInt32 3) (key : PublicKey) (time : UInt64)
    (release : Release) : Prop :=
  ∃ bytes, w.entries manifest = some (.file bytes) ∧
    verifyUpdate scheme json bytes key installed time = some (.ok release)

/-- One byte more than is allowed is read of a manifest, and that is enough. -/
theorem verifyUpdate_take {bytes : List UInt8} (h : (verifyUpdate scheme json
    (bytes.take (MAX_MANIFEST + 1)) key installed time).getD (.error "panic") = .ok release) :
    verifyUpdate scheme json bytes key installed time = some (.ok release) ∧
      release.installerBytes.toNat ≤ MAX_INSTALLER := by
  obtain ⟨result, hresult, htakes⟩ :=
    verifyUpdate_eq scheme json (bytes.take (MAX_MANIFEST + 1)) key installed time
  rw [hresult, Option.getD_some] at h
  obtain ⟨⟨envelope, hsigned⟩, hpolicy⟩ := (htakes release).mp h
  have hshort := hsigned.size
  rw [List.length_take] at hshort
  have hall : bytes.take (MAX_MANIFEST + 1) = bytes := List.take_of_length_le (by omega)
  rw [hall, h] at hresult
  exact ⟨hresult, hpolicy.size_le⟩

/-- **What `stage_with_policy` does.** -/
theorem outline_stageWithPolicy :
    Outline regime () (fun s => s.1.entries = w.entries)
      (stageWithPolicy scheme json sha256 manifest installer root installed key time)
      (Outline.Outcome
        (fun r s => Verified scheme json w manifest installed key time r.2 ∧
          ∃ contents, s.1.entries r.1 = some (.file contents) ∧ IsInstaller sha256 r.2 contents)
        fun _ => Left w root) := by
  have hstable {P : State → Prop} : regime.Stable () P := Regime.solo_stable
  have hunchanged (s : State) (h : s.1.entries = w.entries) : Left w root s :=
    (Adds.refl w root _).same h
  have hnothing (s : State) (h : Adds w root (fun _ => False) s.1) : Left w root s :=
    h.mono fun _ h => h.elim
  refine attempt_seq (P := fun s => s.entries = w.entries) (E := fun s => s.entries = w.entries)
    (R := fun _ s => s.entries = w.entries) ?_ (fun _ => hunchanged) fun _ => ?_
  · rintro s (e | ⟨⟩) s' h hdoes
    · rw [show s' = s from hdoes]
      exact h
    · rw [hdoes.2]
      exact h
  refine attempt_seq (P := fun s => s.entries = w.entries) (E := fun s => s.entries = w.entries)
    (R := fun bytes s => (∃ contents, w.entries manifest = some (.file contents) ∧
      bytes = contents.take (MAX_MANIFEST + 1)) ∧ s.entries = w.entries) ?_
      (fun _ => hunchanged) fun bytes => .given (fun _ => hstable) ?_
  · rintro s (e | bytes) s' h hdoes
    · rw [show s' = s from hdoes]
      exact h
    · obtain ⟨⟨contents, hcontents, rfl⟩, rfl⟩ := hdoes
      exact ⟨⟨contents, h ▸ hcontents, rfl⟩, h⟩
  rintro ⟨contents, hmanifest, rfl⟩
  refine Outline.ofExcept_seq hstable (fun _ _ s _ h => hunchanged s h) fun release hrelease => ?_
  obtain ⟨hverified, hsize⟩ := verifyUpdate_take hrelease
  -- the installer is opened and looked at
  refine attempt_seq (P := fun s => s.entries = w.entries) (E := fun s => s.entries = w.entries)
    (R := fun _ s => s.entries = w.entries) ?_ (fun _ => hunchanged) fun _ => ?_
  · rintro s (e | ⟨⟩) s' h hdoes
    · rw [show s' = s from hdoes]
      exact h
    · rw [hdoes.2]
      exact h
  refine attempt_seq (P := fun s => s.entries = w.entries) (E := fun s => s.entries = w.entries)
    (R := fun _ s => s.entries = w.entries) ?_ (fun _ => hunchanged) fun _ => ?_
  · rintro s (e | regular) s' h hdoes
    · rw [show s' = s from hdoes]
      exact h
    · rw [show s' = s from hdoes]
      exact h
  refine Outline.check_seq hstable (fun s _ h => hunchanged s h) fun _ => ?_
  -- the root, and the directory in it
  refine attempt_seq (P := fun s => s.entries = w.entries) (E := Adds w root fun _ => False)
    (R := fun _ => Adds w root fun _ => False) ?_ (fun _ => hnothing) fun _ => ?_
  · rintro s r s' h ⟨hentries, -, -⟩
    have hadds : Adds w root (fun _ => False) s' := by
      refine (Adds.refl w root _).step fun p => ?_
      rw [← h]
      rcases hentries p with hsame | ⟨hway, hnone, -⟩
      · exact .inl hsame
      · exact .inr ⟨hnone, fun _ => .inl hway⟩
    rcases r with e | ⟨⟩ <;> exact hadds
  refine attempt_seq (P := Adds w root fun _ => False) (E := Adds w root fun _ => False)
    (R := fun dir s => (∀ p, dir <+: p → w.entries p = none) ∧ Adds w root (Inside dir) s) ?_
    (fun _ => hnothing) fun dir => .given (fun _ => hstable) fun hfree => ?_
  · rintro s (e | dir) s' hadds hdoes
    · rw [show s' = s from hdoes]
      exact hadds
    · obtain ⟨name, rfl, hname, hnone, rfl⟩ := hdoes
      have hfree (p : StagePath) (hp : root ++ [name] <+: p) := hadds.free (hnone p hp)
      exact ⟨hfree, (hadds.mono fun _ h => h.elim).put (hfree _ List.prefix_rfl)
        ⟨List.prefix_rfl, not_executable hname⟩ _⟩
  apply (outline_directory hfree hsize).post
  rintro (e | ⟨path, r⟩) s - h
  · exact h
  · obtain ⟨rfl, hinstaller⟩ := h
    exact ⟨⟨contents, hmanifest, hverified⟩, hinstaller⟩

end Whole

end Staging

section Staged

variable {ι : Type} {scheme : SignatureScheme ι} {json : UpdateReader}
  {sha256 : List UInt8 → Vector UInt8 32} {manifest installer root : StagePath}
  {installed : Vector UInt32 3} {key : PublicKey} {time : UInt64} {w w' : StageWorld}
  {result : Except String (StagePath × Release)} {history : List (Event StageOp)}

open Staging

/-- **Staging.** Whatever the calls of the file system answer and whatever is read of the installer:
what is staged is the installer of a verified manifest. A failure changes nothing that was there;
it leaves no program behind, and nothing at all under the root but what is in a directory that
could not be removed. -/
theorem staged_or_removed (hrun : Prog.RunsOn stageMachine () (stageWithPolicy scheme json sha256
    manifest installer root installed key time) (w, []) result (w', history)) :
    (∀ path release, result = .ok (path, release) →
      Verified scheme json w manifest installed key time release ∧
        ∃ contents, w'.entries path = some (.file contents) ∧
          IsInstaller sha256 release contents) ∧
    ∀ e, result = .error e → (∀ p, w.entries p ≠ none → w'.entries p = w.entries p) ∧
      ∀ p, root <+: p → p ≠ root → w.entries p = none → w'.entries p ≠ none →
        ¬Executable p ∧ ∃ dir, dir <+: p ∧ RemovalFailed dir history := by
  have hafter := hrun.sound (outline_stageWithPolicy (w := w)) rfl
  rcases result with e | ⟨path, release⟩
  · refine ⟨by rintro _ _ ⟨⟩, fun _ _ => ⟨hafter.kept, fun p hunder hne hnone hsome => ?_⟩⟩
    refine (hafter.added p hnone hsome).resolve_left fun hway => hne ?_
    exact hway.eq_of_length_le hunder.length_le
  · refine ⟨?_, by rintro _ ⟨⟩⟩
    rintro _ _ ⟨⟩
    exact hafter

end Staged

namespace HelloUpdate

/-! The update of the test: its installer is the text `hello`. -/

def hello : List UInt8 := [104, 101, 108, 108, 111]

/-- The SHA-256 of the installer. -/
def hash : Vector UInt8 32 :=
  #v[44, 242, 77, 186, 95, 176, 163, 14, 38, 232, 59, 42, 197, 185, 226, 158,
    27, 22, 30, 92, 31, 167, 66, 94, 115, 4, 51, 98, 147, 139, 152, 36]

def sha256 (bytes : List UInt8) : Vector UInt8 32 :=
  if bytes = hello then hash else Vector.replicate 32 0

def release : Release := { NextRelease.release with installerSha256 := hash }

def manifest : List UInt8 := signUpdate NextRelease.scheme release ()

theorem policy : Policy release #v[0, 3, 2] 150 := by
  refine ⟨rfl, rfl, rfl, ?_, ?_, ?_, ?_, ?_, ?_, ?_⟩ <;> decide

theorem short : manifest.take (MAX_MANIFEST + 1) = manifest := by
  have hkey : NextRelease.publicKey ≠ Vector.replicate 32 0 := by decide
  have hsize :=
    (signedRelease_signUpdate NextRelease.laws NextRelease.json_laws () hkey policy).size
  exact List.take_of_length_le (Nat.le_succ_of_le hsize)

theorem verified : verifyUpdate NextRelease.scheme NextRelease.json manifest
    NextRelease.publicKey #v[0, 3, 2] 150 = some (.ok release) :=
  verifyUpdate_signUpdate NextRelease.laws NextRelease.json_laws () (by decide) policy

/-- The manifest, the installer and an empty root. -/
def start : StageWorld where
  entries p :=
    if p = ["release.json"] then some (.file manifest)
    else if p = ["setup.exe"] then some (.file hello)
    else if p = ["staging"] then some .directory
    else none
  cursors _ := 0

/-- The call of the test. -/
noncomputable def staging : StageProg (StagePath × Release) :=
  stageWithPolicy NextRelease.scheme NextRelease.json sha256 ["release.json"] ["setup.exe"]
    ["staging"] #v[0, 3, 2] NextRelease.publicKey 150

def directory : StagePath := ["staging", "verified-abcdef"]

theorem temporaryName : TemporaryName "verified-" "verified-abcdef" :=
  ⟨"abcdef".toList, by decide, List.all_eq_true.mp (by decide), by decide⟩

/-- Up to the temporary directory. -/
def opened : List (Event StageOp) :=
  [⟨.openFile ["release.json"], Except.ok ()⟩,
    ⟨.readToEnd ["release.json"] (MAX_MANIFEST + 1), Except.ok manifest⟩,
    ⟨.openFile ["setup.exe"], Except.ok ()⟩, ⟨.isFile ["setup.exe"], Except.ok true⟩,
    ⟨.createDirAll ["staging"], Except.ok ()⟩,
    ⟨.tempdirIn ["staging"] "verified-", Except.ok directory⟩]

def withDirectory : StageWorld := start.put directory (some .directory)

theorem start_free {p : StagePath} (h : directory <+: p) : start.entries p = none := by
  have hlength := h.length_le
  have hne (name : String) : p ≠ [name] := by
    rintro rfl
    simp [directory] at hlength
  simp [start, hne]

/-- Everything succeeds up to the temporary directory. -/
theorem runs_opened {result : Except String (StagePath × Release)}
    {s : StageWorld × List (Event StageOp)}
    (hrest : Prog.RunsOn stageMachine ()
      (dropping (.removeDirAll directory) (stageIn sha256 ["setup.exe"] directory release))
      (withDirectory, opened) result s) :
    Prog.RunsOn stageMachine () staging (start, []) result s := by
  have hverify : (verifyUpdate NextRelease.scheme NextRelease.json manifest
      NextRelease.publicKey #v[0, 3, 2] 150).getD (.error "panic") = .ok release := by
    rw [verified, Option.getD_some]
  have hopen (path : StagePath) (hpath : start.entries path ≠ none) :
      start.Does (.openFile path) (.ok ()) start :=
    ⟨hpath, congrArg (StageWorld.mk start.entries) (Function.update_eq_self path _).symm⟩
  refine .recorded (.ok ()) (hopen ["release.json"] (by simp [start])) ?_
  refine .recorded (.ok manifest) ⟨⟨manifest, rfl, short.symm⟩, rfl⟩ ?_
  change Prog.RunsOn stageMachine () (Fallible.ofExcept (Option.getD _ _) >>=
    stageRelease sha256 ["setup.exe"] ["staging"] : StageProg _) _ _ _
  rw [hverify]
  refine .recorded (.ok ()) (hopen ["setup.exe"] (by simp [start])) ?_
  refine .recorded (.ok true) rfl ?_
  refine .recorded (.ok ()) ⟨fun _ => .inl rfl, fun _ => rfl, rfl⟩ ?_
  refine .recorded (.ok directory)
    ⟨"verified-abcdef", rfl, temporaryName, fun _ => start_free, rfl⟩ ?_
  exact hrest

/-- There is no room for the copy, and the directory cannot be removed. -/
theorem runs_failed : ∃ history, Prog.RunsOn stageMachine () staging (start, [])
    (.error "disk full") (withDirectory, history) := by
  apply Exists.intro
  apply runs_opened
  refine .recorded (.error "disk full") rfl ?_
  exact .recorded (.error "access denied") (fun _ => .inl rfl) (.ret _ _)

/-- Then it stays. -/
theorem directory_stays : ∃ history w', Prog.RunsOn stageMachine () staging (start, [])
    (.error "disk full") (w', history) ∧ start.entries directory = none ∧
      ["staging"] <+: directory ∧ w'.entries directory = some .directory := by
  obtain ⟨history, hrun⟩ := runs_failed
  exact ⟨history, withDirectory, hrun, start_free List.prefix_rfl, ⟨["verified-abcdef"], rfl⟩,
    StageWorld.put_self ..⟩

def staged : StagePath := directory ++ [".tmpabcdef"]

def path : StagePath := directory ++ ["SENSOR-Verified-Setup.exe"]

/-- With a part of the copy. -/
def withCopy (contents : List UInt8) : StageWorld :=
  withDirectory.put staged (some (.file contents))

/-- And with so much of it hashed. -/
def hashing (count : ℕ) : StageWorld :=
  { withCopy hello with cursors := Function.update start.cursors staged count }

def published : StageWorld := ((hashing 5).put path (some (.file hello))).put staged none

theorem withCopy_staged (contents : List UInt8) :
    (withCopy contents).entries staged = some (.file contents) :=
  StageWorld.put_self ..

theorem withDirectory_free {name : String} :
    withDirectory.entries (directory ++ [name]) = none := by
  have hne : directory ++ [name] ≠ directory := by simp [directory]
  exact (start.put_of_ne _ hne).trans (start_free (List.prefix_append ..))

theorem write_hello : (withCopy []).Does (.writeAll staged hello) (.ok ()) (withCopy hello) := by
  refine ⟨[], hello, withCopy_staged [], List.prefix_rfl, fun _ => rfl, ?_⟩
  simp [withCopy, StageWorld.put]

theorem open_copy : (withCopy hello).Does (.openFile staged) (.ok ()) (hashing 0) :=
  ⟨by simp [withCopy_staged], rfl⟩

theorem read_copy (count : ℕ) (chunk : List UInt8) {limit : ℕ}
    (hchunk : chunk = hello.drop count) (hcount : count + chunk.length = 5)
    (hlimit : chunk.length ≤ limit) :
    (hashing count).Does (.read staged limit) (.ok chunk) (hashing 5) := by
  refine ⟨hello, withCopy_staged hello, ?_, hlimit, fun hempty => .inr ?_, ?_⟩
  · simp [hashing, hchunk]
  · rw [hempty, List.length_nil, Nat.add_zero] at hcount
    simp [hashing, hcount, hello]
  · simp [hashing, hcount]

/-- The installer is staged. -/
theorem runs_published : ∃ history,
    Prog.RunsOn stageMachine () staging (start, []) (.ok (path, release)) (published, history) := by
  have hfree : (hashing 5).entries path = none := by
    have hne : path ≠ staged := by decide
    exact (withDirectory.put_of_ne (some (.file hello)) hne).trans withDirectory_free
  have hname : TemporaryName ".tmp" ".tmpabcdef" :=
    ⟨"abcdef".toList, by decide, List.all_eq_true.mp (by decide), by decide⟩
  have hread : (hashing 0).Does (.read staged (min 65536 (MAX_INSTALLER + 1 - 0))) (.ok hello)
      (hashing 5) := read_copy 0 hello rfl rfl (by decide)
  have hend : (hashing 5).Does (.read staged (min 65536 (MAX_INSTALLER + 1 - 5))) (.ok [])
      (hashing 5) := read_copy 5 [] rfl rfl (by decide)
  apply Exists.intro
  apply runs_opened
  refine .recorded (.ok staged) ⟨".tmpabcdef", rfl, hname, withDirectory_free, rfl⟩ (.loop ?_)
  -- the copy
  refine .recorded (.ok hello) ⟨by decide, rfl⟩ ?_
  refine .recorded (.ok ()) write_hello (.loop ?_)
  refine .recorded (.ok []) ⟨by decide, rfl⟩ ?_
  refine .recorded (.ok ()) rfl ?_
  refine .recorded (.ok ()) open_copy (.loop ?_)
  -- the hash
  refine .recorded (.ok hello) hread (.loop ?_)
  refine .recorded (.ok []) hend ?_
  refine .recorded (.ok ()) rfl ?_
  refine .recorded (.ok ()) ⟨hfree, .inl rfl⟩ ?_
  exact .ret _ _

/-- The file that was staged. -/
theorem published_hello : ∃ contents, published.entries path = some (.file contents) ∧
    Staging.IsInstaller sha256 release contents := by
  obtain ⟨history, hrun⟩ := runs_published
  exact ((staged_or_removed hrun).1 path release rfl).2

end HelloUpdate

end SensorRemote
