import SensorRemote.IdentityStore

/-!
# One identity for all callers

`load_or_create` creates an identity only where there is no file, and while it has the lock nobody
else does. So all its callers obtain one identity, as long as nobody else writes the file. For that
`unprotect` must not report that a file was not found.

The callers run at once, in any number of processes, and any of them may vanish. The regime they
keep says that the file, once it is there, holds the identity that was saved first, and that only
the holder of the lock writes. A caller that finds no file while it has the lock is then the first,
and what it saves is what the others load. The assertion between two of its operations is about the
file and about the lock; steps of the others keep it, as they do not have the lock.
-/

namespace SensorRemote.Identity

open Bytes Program

/-- A call that leaves a file as it is, if there is one. -/
def IdentityCall.Reading : IdentityCall → Prop
  | .load | .loadOrCreate | .protectGrant _ _ => True
  | .save _ | .tamper _ => False

/-- The file is that of the identity, and its seed was protected by one of these calls. -/
def Stores (publicKey : Seed → PublicKey) (calls : List Protection) (bytes : List UInt8)
    (identity : DeviceIdentity) : Prop :=
  ∃ persisted, parseIdentity bytes = .ok persisted ∧
    persisted.context = identity.context publicKey ∧
      identity.protection publicKey persisted.protectedSeed ∈ calls

section Stores

variable {protector : KeyProtector} {publicKey : Seed → PublicKey} {calls calls' : List Protection}
  {bytes : List UInt8} {identity other : DeviceIdentity}

theorem Stores.mono (h : Stores publicKey calls bytes identity) (hcalls : calls ⊆ calls') :
    Stores publicKey calls' bytes identity := by
  obtain ⟨persisted, hparse, hcontext, hmem⟩ := h
  exact ⟨persisted, hparse, hcontext, hcalls hmem⟩

/-- A file is that of one identity only. -/
theorem Stores.unique (hprotector : AuthenticatedEncryption protector)
    (hcalls : ∀ call ∈ calls, protector.Protects call) (h : Stores publicKey calls bytes identity)
    (h' : Stores publicKey calls bytes other) : identity = other := by
  obtain ⟨persisted, hparse, hcontext, hmem⟩ := h
  obtain ⟨persisted', hparse', hcontext', hmem'⟩ := h'
  obtain rfl := Except.ok.inj (hparse.symm.trans hparse')
  have hsame := hcontext.symm.trans hcontext'
  apply DeviceIdentity.ext_context hsame
  have hseed := hprotector.correct calls _ (hcalls _ hmem) hmem
  have hseed' := hprotector.correct calls _ (hcalls _ hmem') hmem'
  simp only [DeviceIdentity.protection, hsame] at hseed hseed'
  exact Except.ok.inj (hseed.symm.trans hseed')

/-- What `save_locked` writes. -/
theorem stores_persisted {ciphertext : List UInt8} (hne : ciphertext ≠ [])
    (hsize : (identity.persisted publicKey ciphertext).code.length ≤ MAX_IDENTITY_BYTES)
    (hmem : identity.protection publicKey ciphertext ∈ calls) :
    Stores publicKey calls (identity.persisted publicKey ciphertext).code identity :=
  ⟨_, parseIdentity_code hsize rfl hne, rfl, hmem⟩

end Stores

namespace IdentityWorld

section Settled

variable {ι β : Type} {protector : KeyProtector} {publicKey : Seed → PublicKey} {i j : ι}
  {w w' : IdentityWorld ι} {o : IdentityOp β} {b : β} {identity : DeviceIdentity}

/-- The identity is in the file. -/
def HasFile (publicKey : Seed → PublicKey) (identity : DeviceIdentity) (w : IdentityWorld ι) :
    Prop :=
  ∃ bytes, w.file = some bytes ∧ Stores publicKey w.protections bytes identity

/-- What was obtained is in the file. -/
structure Settled (protector : KeyProtector) (publicKey : Seed → PublicKey) (w : IdentityWorld ι) :
    Prop where
  protects : ∀ call ∈ w.protections, protector.Protects call
  obtained : ∀ identity, .ok identity ∈ w.obtained → HasFile publicKey identity w

/-- A file stays, and where there is one, no identity is created. -/
structure KeepsFile (w w' : IdentityWorld ι) : Prop where
  file : w.file ≠ none → w'.file = w.file ∧ w'.called = w.called
  protections : w.protections ⊆ w'.protections

/-- Nor is anything written while another thread has the lock. -/
def KeepsLock (j : ι) (w w' : IdentityWorld ι) : Prop :=
  w.holder = some j → w'.holder = some j ∧ w'.file = w.file

/-- What has to hold before an operation of thread `i`. -/
def Allowed (publicKey : Seed → PublicKey) (i : ι) (w : IdentityWorld ι) :
    {β : Type} → IdentityOp β → Prop
  | _, .saves _ => w.file = none
  | _, .persist _ => w.holder = some i ∧ w.file = none
  | _, .obtains result => ∀ identity, result = .ok identity → HasFile publicKey identity w
  | _, .tamper _ => False
  | _, _ => True

theorem HasFile.keeps (h : HasFile publicKey identity w) (hkeeps : KeepsFile w w') :
    HasFile publicKey identity w' := by
  obtain ⟨bytes, hfile, hstores⟩ := h
  have hsome : w.file ≠ none := by simp [hfile]
  exact ⟨bytes, (hkeeps.file hsome).1.trans hfile, hstores.mono hkeeps.protections⟩

theorem KeepsFile.refl (w : IdentityWorld ι) : KeepsFile w w :=
  ⟨fun _ => ⟨rfl, rfl⟩, List.Subset.refl _⟩

/-- A step that settles nothing. -/
theorem Settled.same (hw : Settled protector publicKey w) (hkeeps : KeepsFile w w')
    (hprotections : w'.protections = w.protections) (hobtained : w'.obtained = w.obtained) :
    Settled protector publicKey w' where
  protects := by
    rw [hprotections]
    exact hw.protects
  obtained := by
    rw [hobtained]
    exact fun identity hmem => (hw.obtained identity hmem).keeps hkeeps

/-- **One step** settles what it returns, and keeps what another thread relies on. -/
theorem Does.settled (hw : Settled protector publicKey w) (hready : w.Allowed publicKey i o)
    {allowed : IdentityCall → Prop} (h : w.Does protector allowed i o b w') :
    Settled protector publicKey w' ∧ KeepsFile w w' ∧ ∀ j, j ≠ i → KeepsLock j w w' := by
  have hrefl : Settled protector publicKey w ∧ KeepsFile w w ∧ ∀ j, j ≠ i → KeepsLock j w w :=
    ⟨hw, .refl w, fun _ _ h => ⟨h, rfl⟩⟩
  cases o with
  | next | unprotect =>
    obtain ⟨-, rfl⟩ := h
    exact hrefl
  | generate =>
    obtain ⟨-, -, rfl⟩ := h
    exact hrefl
  | readFile =>
    rcases b with e | bytes
    all_goals
      obtain ⟨-, rfl⟩ := h
      exact hrefl
  | writeTemporary =>
    rw [show w' = w from h]
    exact hrefl
  | lock =>
    rcases b with e | ⟨⟩
    · rw [show w' = w from h]
      exact hrefl
    · obtain ⟨hfree, rfl⟩ := h
      refine ⟨⟨hw.protects, hw.obtained⟩, ⟨fun _ => ⟨rfl, rfl⟩, List.Subset.refl _⟩, ?_⟩
      intro j _ hj
      rw [hfree] at hj
      cases hj
  | unlock =>
    obtain ⟨hmine, rfl⟩ := h
    refine ⟨⟨hw.protects, hw.obtained⟩, ⟨fun _ => ⟨rfl, rfl⟩, List.Subset.refl _⟩, ?_⟩
    intro j hne hj
    rw [hmine] at hj
    exact absurd (Option.some.inj hj).symm hne
  | protect plaintext context =>
    rcases b with e | ciphertext
    · rw [show w' = w from h]
      exact hrefl
    obtain ⟨hprotects, rfl⟩ := h
    have hkeeps : KeepsFile w
        { w with protections := w.protections ++ [⟨plaintext, context, ciphertext⟩] } :=
      ⟨fun _ => ⟨rfl, rfl⟩, List.subset_append_left _ _⟩
    refine ⟨⟨fun call hmem => ?_, fun a ha => (hw.obtained a ha).keeps hkeeps⟩, hkeeps,
      fun _ _ h => ⟨h, rfl⟩⟩
    rcases List.mem_append.mp hmem with hmem | hmem
    · exact hw.protects call hmem
    · rwa [List.mem_singleton.mp hmem]
  | persist bytes =>
    rcases b with e | ⟨⟩
    · rw [show w' = w from h]
      exact hrefl
    obtain ⟨hmine, hnone⟩ := hready
    have hkeeps : KeepsFile w { w with file := some bytes } :=
      ⟨fun hsome => absurd hnone hsome, List.Subset.refl _⟩
    rw [show w' = _ from h]
    refine ⟨hw.same hkeeps rfl rfl, hkeeps, fun j hne hj => ?_⟩
    rw [hmine] at hj
    exact absurd (Option.some.inj hj).symm hne
  | saves identity =>
    cases h
    have hkeeps : KeepsFile w { w with called := w.called ++ [identity] } :=
      ⟨fun hsome => absurd hready hsome, List.Subset.refl _⟩
    exact ⟨hw.same hkeeps rfl rfl, hkeeps, fun _ _ h => ⟨h, rfl⟩⟩
  | saved identity =>
    cases h
    exact ⟨⟨hw.protects, hw.obtained⟩, ⟨fun _ => ⟨rfl, rfl⟩, List.Subset.refl _⟩,
      fun _ _ h => ⟨h, rfl⟩⟩
  | loads result =>
    cases h
    exact ⟨⟨hw.protects, hw.obtained⟩, ⟨fun _ => ⟨rfl, rfl⟩, List.Subset.refl _⟩,
      fun _ _ h => ⟨h, rfl⟩⟩
  | obtains result =>
    cases h
    refine ⟨⟨hw.protects, fun a ha => ?_⟩, ⟨fun _ => ⟨rfl, rfl⟩, List.Subset.refl _⟩,
      fun _ _ h => ⟨h, rfl⟩⟩
    rcases List.mem_append.mp ha with ha | ha
    · exact hw.obtained a ha
    · exact hready a (List.mem_singleton.mp ha).symm
  | tamper file => exact hready.elim

variable [DecidableEq ι]

/-- What the threads keep between them. -/
def settledRegime (ι : Type) [DecidableEq ι] (protector : KeyProtector)
    (publicKey : Seed → PublicKey) :
    Regime (identityMachine ι protector IdentityCall.Reading) where
  inv := Settled protector publicKey
  guar i w w' := KeepsFile w w' ∧ ∀ j, j ≠ i → KeepsLock j w w'
  rely j w w' := KeepsFile w w' ∧ KeepsLock j w w'
  compatible _ j _ _ hij _ _ hguar := ⟨hguar.1, hguar.2 j hij.symm⟩
  vanishing i w w' hw hvanish := by
    obtain rfl : w' = { w with holder := if w.holder = some i then none else w.holder } := hvanish
    refine ⟨⟨hw.protects, hw.obtained⟩, ⟨fun _ => ⟨rfl, rfl⟩, List.Subset.refl _⟩, ?_⟩
    intro j hne hj
    refine ⟨?_, rfl⟩
    have hother : w.holder ≠ some i := by
      rw [hj]
      exact fun h => hne (Option.some.inj h)
    exact (if_neg hother).trans hj

variable {α : Type} {P : IdentityWorld ι → Prop}

theorem correct_settled {R : β → IdentityWorld ι → Prop}
    (hready : ∀ w, Settled protector publicKey w → P w → w.Allowed publicKey i o)
    (hR : ∀ w b w', Settled protector publicKey w → P w →
      w.Does protector IdentityCall.Reading i o b w' → R b w') :
    (settledRegime ι protector publicKey).Correct i P o R := by
  intro w b w' hw hP hdoes
  obtain ⟨hw', hkeeps, hlock⟩ := Does.settled hw (hready w hw hP) hdoes
  exact ⟨hw', ⟨hkeeps, hlock⟩, hR w b w' hw hP hdoes⟩

/-- The thread has the lock, and something holds of the file and of what was protected. -/
def WithLock (i : ι) (A : Option (List UInt8) → List Protection → Prop) (w : IdentityWorld ι) :
    Prop :=
  w.holder = some i ∧ A w.file w.protections

theorem stable_always : (settledRegime ι protector publicKey).Stable i fun _ => True :=
  fun _ _ _ _ _ _ => trivial

theorem stable_hasFile : (settledRegime ι protector publicKey).Stable i
    (HasFile publicKey identity) :=
  fun _ _ _ _ h hrely => h.keeps hrely.1

theorem stable_withLock {A : Option (List UInt8) → List Protection → Prop}
    (hA : ∀ file calls calls', calls ⊆ calls' → A file calls → A file calls') :
    (settledRegime ι protector publicKey).Stable i (WithLock i A) := by
  rintro w w' - - ⟨hmine, h⟩ ⟨hkeeps, hlock⟩
  obtain ⟨hmine', hfile⟩ := hlock hmine
  refine ⟨hmine', ?_⟩
  rw [hfile]
  exact hA _ _ _ hkeeps.protections h

/-- The file is that of the identity. -/
def FileOf (publicKey : Seed → PublicKey) (identity : DeviceIdentity) (file : Option (List UInt8))
    (calls : List Protection) : Prop :=
  ∃ bytes, file = some bytes ∧ Stores publicKey calls bytes identity

/-- There is no file if that is what was reported. -/
def NoFile (error : IdentityError) (file : Option (List UInt8)) (_ : List Protection) : Prop :=
  error = .io .notFound → file = none

/-- What `load` establishes. -/
def Loaded (publicKey : Seed → PublicKey) (i : ι) :
    Except IdentityError DeviceIdentity → IdentityWorld ι → Prop :=
  Outline.Outcome (fun identity => WithLock i (FileOf publicKey identity))
    fun error => WithLock i (NoFile error)

theorem stable_loaded (r : Except IdentityError DeviceIdentity) :
    (settledRegime ι protector publicKey).Stable i (Loaded publicKey i r) := by
  rcases r with e | identity
  · exact stable_withLock fun _ _ _ _ h => h
  · apply stable_withLock
    rintro file calls calls' hcalls ⟨bytes, hfile, hstores⟩
    exact ⟨bytes, hfile, hstores.mono hcalls⟩

/-- `load`, with the lock. -/
theorem outline_loadLocked (hprotector : AuthenticatedEncryption protector)
    (hkind : ∀ calls ciphertext context,
      protector.unprotect calls ciphertext context ≠ .error (.io .notFound)) :
    Outline (settledRegime ι protector publicKey) i (WithLock i fun _ _ => True)
      (IdentityStore.load publicKey) (Loaded publicKey i) := by
  have hlocked : (settledRegime ι protector publicKey).Stable i (WithLock i fun _ _ => True) :=
    stable_withLock fun _ _ _ _ h => h
  have hfile (bytes : List UInt8) : (settledRegime ι protector publicKey).Stable i
      (WithLock i fun file _ => file = some bytes) := stable_withLock fun _ _ _ _ h => h
  have hread (bytes : List UInt8) : (settledRegime ι protector publicKey).Stable i
      (WithLock i fun file _ => ∃ contents, file = some contents ∧
        bytes = contents.take (MAX_IDENTITY_BYTES + 1)) := stable_withLock fun _ _ _ _ h => h
  refine .op (R := Outline.Outcome (fun bytes => WithLock i fun file _ => ∃ contents,
    file = some contents ∧ bytes = contents.take (MAX_IDENTITY_BYTES + 1))
    fun e => WithLock i (NoFile (.io e))) hlocked (correct_settled (fun _ _ _ => trivial) ?_)
    fun r => ?_
  · rintro w (e | bytes) w' - ⟨hmine, -⟩ hdoes
    · obtain ⟨hnone, rfl⟩ := hdoes
      exact ⟨hmine, fun h => hnone (IdentityError.io.inj h)⟩
    · obtain ⟨hcontents, rfl⟩ := hdoes
      exact ⟨hmine, hcontents⟩
  rcases r with e | bytes
  · exact .ret (stable_withLock fun _ _ _ _ h => h) fun _ _ h => h
  refine Outline.ofExcept_seq (hread bytes) ?_ fun persisted hpersisted => ?_
  · rintro e he w - ⟨hmine, -⟩
    exact ⟨hmine, fun h => absurd (h ▸ he) (parseIdentity_ne_io _ _)⟩
  obtain ⟨hshort, hversion⟩ := parseIdentity_ok hpersisted
  -- all of the file was read
  refine .pre (P := WithLock i fun file _ => file = some bytes) (hread bytes) ?_ ?_
  · rintro w - ⟨hmine, contents, hcontents, rfl⟩
    rw [List.length_take] at hshort
    have hall : contents.take (MAX_IDENTITY_BYTES + 1) = contents :=
      List.take_of_length_le (by omega)
    exact ⟨hmine, hall.symm ▸ hcontents⟩
  refine .op (R := Outline.Outcome (fun seed => WithLock i fun file calls => file = some bytes ∧
    ⟨seed, persisted.context.code, persisted.protectedSeed⟩ ∈ calls)
    fun e => WithLock i (NoFile e)) (hfile bytes) (correct_settled (fun _ _ _ => trivial) ?_)
    fun r => ?_
  · rintro w (e | seed) w' - ⟨hmine, hbytes⟩ ⟨hresult, rfl⟩
    · exact ⟨hmine, fun h => absurd (h ▸ hresult.symm) (hkind _ _ _)⟩
    · exact ⟨hmine, hbytes, hprotector.authentic _ _ _ _ hresult.symm⟩
  rcases r with e | seed
  · exact .ret (stable_withLock fun _ _ _ _ h => h) fun _ _ h => h
  have hsealed : (settledRegime ι protector publicKey).Stable i (WithLock i fun file calls =>
      file = some bytes ∧ ⟨seed, persisted.context.code, persisted.protectedSeed⟩ ∈ calls) :=
    stable_withLock fun _ _ _ hcalls h => ⟨h.1, hcalls h.2⟩
  refine .ret hsealed ?_
  rintro w - ⟨hmine, hbytes, hmem⟩
  cases hunlock : persisted.unlock publicKey seed with
  | error e => exact ⟨hmine, fun h => absurd (h ▸ hunlock) (unlock_ne_io _ _ _)⟩
  | ok identity =>
    obtain ⟨rfl, hcontext⟩ := unlock_ok hunlock hversion
    refine ⟨hmine, bytes, hbytes, persisted, hpersisted, hcontext, ?_⟩
    rwa [hcontext] at hmem

/-- A call of the file system on the way. -/
theorem io_seq_settled {o : IdentityOp (Except IoError α)} {f : α → IdentityProg β}
    {R : α → IdentityWorld ι → Prop} {E : IdentityWorld ι → Prop}
    {Q : β → IdentityWorld ι → Prop}
    (hP : (settledRegime ι protector publicKey).Stable i P)
    (hE : (settledRegime ι protector publicKey).Stable i E)
    (hready : ∀ w, P w → w.Allowed publicKey i o)
    (hR : ∀ w r w', P w → IdentityWorld.Does protector IdentityCall.Reading i w o r w' →
      Outline.Outcome R (fun _ => E) r w')
    (hok : ∀ a, Outline (settledRegime ι protector publicKey) i (R a) (f a)
      (Outline.Outcome Q fun _ => E)) :
    Outline (settledRegime ι protector publicKey) i P
      (IdentityStore.io o >>= f : IdentityProg β) (Outline.Outcome Q fun _ => E) := by
  refine .op hP (R := Outline.Outcome R fun _ => E) (correct_settled (fun w _ hPw => hready w hPw)
    fun w r w' _ hPw hdoes => hR w r w' hPw hdoes) fun r => ?_
  rcases r with e | a
  · exact .ret hE fun _ _ h => h
  · exact hok a

/-- `save_locked`, where there is no file. -/
theorem outline_saveNew (hprotector : AuthenticatedEncryption protector)
    (identity : DeviceIdentity) :
    Outline (settledRegime ι protector publicKey) i (WithLock i fun file _ => file = none)
      (IdentityStore.saveLocked publicKey identity)
      (Outline.Outcome (fun _ => WithLock i (FileOf publicKey identity))
        fun _ => WithLock i fun _ _ => True) := by
  have hnone : (settledRegime ι protector publicKey).Stable i
      (WithLock i fun file _ => file = none) := stable_withLock fun _ _ _ _ h => h
  have hlocked : (settledRegime ι protector publicKey).Stable i (WithLock i fun _ _ => True) :=
    stable_withLock fun _ _ _ _ h => h
  refine .op (R := fun _ => WithLock i fun file _ => file = none) hnone
    (correct_settled (fun _ _ h => h.2) ?_) fun _ => ?_
  · rintro w ⟨⟩ w' - h rfl
    exact h
  refine .op (R := Outline.Outcome (fun ciphertext w => ciphertext ≠ [] ∧
    WithLock i (fun file calls => file = none ∧
      identity.protection publicKey ciphertext ∈ calls) w) fun _ => WithLock i fun _ _ => True)
    hnone (correct_settled (fun _ _ _ => trivial) ?_) fun r => ?_
  · rintro w (e | ciphertext) w' - ⟨hmine, hfile⟩ hdoes
    · rw [show w' = w from hdoes]
      exact ⟨hmine, trivial⟩
    · obtain ⟨hprotects, rfl⟩ := hdoes
      exact ⟨hprotector.ciphertext_ne _ hprotects, hmine, hfile,
        List.mem_append_right _ (List.mem_singleton.mpr rfl)⟩
  rcases r with e | ciphertext
  · exact .ret hlocked fun _ _ h => h
  have hprotected : (settledRegime ι protector publicKey).Stable i (WithLock i fun file calls =>
      file = none ∧ identity.protection publicKey ciphertext ∈ calls) :=
    stable_withLock fun _ _ _ hcalls h => ⟨h.1, hcalls h.2⟩
  refine .given (fun _ => hprotected) fun hne => ?_
  refine Outline.check_seq hprotected (fun _ _ h => ⟨h.1, trivial⟩) fun hsize => ?_
  refine io_seq_settled (R := fun _ => WithLock i fun file calls => file = none ∧
    identity.protection publicKey ciphertext ∈ calls) hprotected hlocked (fun _ _ => trivial) ?_
    fun _ => ?_
  · rintro w (e | ⟨⟩) w' h hdoes
    · rw [show w' = w from hdoes]
      exact ⟨h.1, trivial⟩
    · rwa [show w' = w from hdoes]
  have hstored : (settledRegime ι protector publicKey).Stable i
      (WithLock i (FileOf publicKey identity)) := stable_loaded (.ok identity)
  refine io_seq_settled (R := fun _ => WithLock i (FileOf publicKey identity)) hprotected hlocked
    (fun _ h => ⟨h.1, h.2.1⟩) ?_ fun _ => ?_
  · rintro w (e | ⟨⟩) w' ⟨hmine, -, hmem⟩ hdoes
    · rw [show w' = w from hdoes]
      exact ⟨hmine, trivial⟩
    · rw [show w' = _ from hdoes]
      exact ⟨hmine, _, rfl, stores_persisted hne hsize hmem⟩
  refine .op (R := fun _ => WithLock i (FileOf publicKey identity)) hstored
    (correct_settled (fun _ _ _ => trivial) ?_) fun _ => .ret hstored fun _ _ h => h
  rintro w ⟨⟩ w' - h rfl
  exact h

/-- `load_or_create` returns what is in the file. -/
theorem outline_obtain (hprotector : AuthenticatedEncryption protector)
    (hkind : ∀ calls ciphertext context,
      protector.unprotect calls ciphertext context ≠ .error (.io .notFound)) :
    Outline (settledRegime ι protector publicKey) i (fun _ => True)
      (IdentityStore.loadOrCreate publicKey)
      (Outline.Outcome (fun identity => HasFile publicKey identity) fun _ _ => True) := by
  have hlocked : (settledRegime ι protector publicKey).Stable i (WithLock i fun _ _ => True) :=
    stable_withLock fun _ _ _ _ h => h
  have hfile (identity : DeviceIdentity) : (settledRegime ι protector publicKey).Stable i
      (WithLock i (FileOf publicKey identity)) := stable_loaded (.ok identity)
  have hafter : ∀ r : Except IdentityError DeviceIdentity,
      (settledRegime ι protector publicKey).Stable i (Outline.Outcome (fun identity =>
        WithLock i (FileOf publicKey identity)) (fun _ => WithLock i fun _ _ => True) r) :=
    Outline.stable_outcome hfile fun _ => hlocked
  refine io_seq_settled (R := fun _ => WithLock i fun _ _ => True) stable_always stable_always
    (fun _ _ => trivial) ?_ fun _ => ?_
  · rintro w (e | ⟨⟩) w' - hdoes
    · trivial
    · obtain ⟨-, rfl⟩ := hdoes
      exact ⟨rfl, trivial⟩
  refine Outline.bind (R := Outline.Outcome (fun identity => WithLock i (FileOf publicKey identity))
    fun _ => WithLock i fun _ _ => True) ?_ fun r => ?_
  · refine (outline_loadLocked hprotector hkind).bind fun r => ?_
    split
    · exact .ret (hfile _) fun _ _ h => h
    · -- there is no file
      have hnone : (settledRegime ι protector publicKey).Stable i
          (WithLock i fun file _ => file = none) := stable_withLock fun _ _ _ _ h => h
      refine .pre (P := WithLock i fun file _ => file = none) (stable_loaded _)
        (fun _ _ h => ⟨h.1, h.2 rfl⟩) ?_
      refine .op (R := fun _ => WithLock i fun file _ => file = none) hnone
        (correct_settled (fun _ _ _ => trivial) ?_) fun identity => ?_
      · rintro w identity w' - h ⟨-, -, rfl⟩
        exact h
      exact (outline_saveNew hprotector identity).onward (fun _ => hlocked) (fun _ _ _ h => h)
        fun _ => .ret (hfile identity) fun _ _ h => h
    · exact .ret (stable_loaded _) fun _ _ h => ⟨h.1, trivial⟩
  · refine .op (R := fun _ => Outline.Outcome (fun identity => HasFile publicKey identity)
      (fun _ _ => True) r) (hafter r) (correct_settled (fun _ _ _ => trivial) ?_) fun _ => ?_
    · rintro w ⟨⟩ w' - h ⟨-, rfl⟩
      rcases r with e | identity
      · trivial
      · exact h.2
    · exact .ret (Outline.stable_outcome (fun _ => stable_hasFile) (fun _ => stable_always) r)
        fun _ _ h => h

/-- `load`, without the lock. -/
theorem outline_loadOnly :
    Outline (settledRegime ι protector publicKey) i (fun _ => True)
      (IdentityStore.load publicKey) fun _ _ => True := by
  refine Outline.only (X := fun o => ∀ w : IdentityWorld ι, w.Allowed publicKey i o)
    (fun o ho => correct_settled (fun w _ _ => ho w) fun _ _ _ _ _ _ => trivial) stable_always ?_
  refine (Fallible.Only.mapError (Fallible.only_attempt.mpr fun _ => trivial) _).seq fun bytes => ?_
  refine (Fallible.only_ofExcept _).seq fun persisted => ?_
  exact (Fallible.only_attempt.mpr fun _ => trivial).seq fun seed => Fallible.only_ofExcept _

/-- Whatever a thread calls, of what leaves a file as it is. -/
theorem outline_reading (hprotector : AuthenticatedEncryption protector)
    (hkind : ∀ calls ciphertext context,
      protector.unprotect calls ciphertext context ≠ .error (.io .notFound)) :
    Outline (settledRegime ι protector publicKey) i (fun _ => True)
      (IdentityStore.calls publicKey) fun _ _ => True := by
  refine .forever (L := fun _ _ => True) (fun _ => ?_) fun _ => stable_always
  refine .op (R := fun call _ => call.Reading ∧ True) stable_always
    (correct_settled (fun _ _ _ => trivial) fun w call w' _ _ hdoes => ⟨hdoes.1, trivial⟩)
    fun call => .given (fun _ => stable_always) fun hcall => ?_
  have hcarry : Outline (settledRegime ι protector publicKey) i (fun _ => True)
      (IdentityStore.carryOut publicKey call) fun _ _ => True := by
    cases call with
    | load =>
      refine (outline_loadOnly (i := i)).bind fun r => ?_
      exact .perform stable_always
        (correct_settled (fun _ _ _ => trivial) fun _ _ _ _ _ _ => trivial) fun _ => stable_always
    | save => exact hcall.elim
    | loadOrCreate =>
      refine (outline_obtain hprotector hkind).bind fun r => ?_
      refine .perform (Outline.stable_outcome (fun _ => stable_hasFile) (fun _ => stable_always) r)
        (correct_settled ?_ fun _ _ _ _ _ _ => trivial) fun _ => stable_always
      rintro w - h identity rfl
      exact h
    | protectGrant data localKey =>
      exact .op (R := fun _ _ => True) stable_always
        (correct_settled (fun _ _ _ => trivial) fun _ _ _ _ _ _ => trivial)
        fun _ => .ret stable_always fun _ _ _ => trivial
    | tamper => exact hcall.elim
  exact hcarry.bind fun _ => .ret stable_always fun _ _ _ => trivial

end Settled

end IdentityWorld

end SensorRemote.Identity
