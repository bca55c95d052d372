import SensorRemote.IdentityFile

/-!
# The identity store

`IdentityFileStore` (`sensor-identity`) keeps the identity of a device in a file. `load` reads it
without a lock, `save` and `load_or_create` hold a file lock. Anybody may write anything to the
file, and the protector of the seed is used for other things, too. It is authenticated encryption:
what it is given back was returned by it, and by an earlier call.
-/

namespace SensorRemote.Identity

open Bytes Program Readers

/-- A call of `protect` that has succeeded. -/
structure Protection where
  plaintext : List UInt8
  context : List UInt8
  ciphertext : List UInt8
  deriving DecidableEq

/-- `KeyProtector`. -/
structure KeyProtector where
  /-- what `protect` may return -/
  Protects : Protection → Prop
  /-- `unprotect`, after these calls of `protect` -/
  unprotect : List Protection → List UInt8 → List UInt8 → Except IdentityError (List UInt8)

/-- What is asked of a protector. -/
structure AuthenticatedEncryption (protector : KeyProtector) : Prop where
  /-- `unprotect` succeeds only with what `protect` has returned -/
  authentic : ∀ calls ciphertext context plaintext,
    protector.unprotect calls ciphertext context = .ok plaintext →
      ⟨plaintext, context, ciphertext⟩ ∈ calls
  /-- and succeeds with it -/
  correct : ∀ calls protection, protector.Protects protection → protection ∈ calls →
    protector.unprotect calls protection.ciphertext protection.context = .ok protection.plaintext
  /-- a ciphertext is not empty -/
  ciphertext_ne : ∀ protection, protector.Protects protection → protection.ciphertext ≠ []

/-- A call on the store, or on what it uses. -/
inductive IdentityCall where
  | load
  | save (identity : DeviceIdentity)
  | loadOrCreate
  /-- `save` of `unattended.rs`, up to the protected grant -/
  | protectGrant (data localKey : List UInt8)
  /-- somebody puts something else in place of the file -/
  | tamper (file : Option (List UInt8))

/-- The steps of the calls. -/
inductive IdentityOp : Type → Type where
  | next : IdentityOp IdentityCall
  /-- `lock`: the directory, the lock file and its lock -/
  | lock : IdentityOp (Except IoError Unit)
  /-- the lock file is dropped -/
  | unlock : IdentityOp Unit
  /-- `File::open` and `take(limit).read_to_end` -/
  | readFile (limit : ℕ) : IdentityOp (Except IoError (List UInt8))
  /-- `DeviceIdentity::generate` -/
  | generate : IdentityOp DeviceIdentity
  | protect (plaintext context : List UInt8) : IdentityOp (Except IdentityError (List UInt8))
  | unprotect (ciphertext context : List UInt8) : IdentityOp (Except IdentityError (List UInt8))
  /-- the temporary file, written and synchronized -/
  | writeTemporary (bytes : List UInt8) : IdentityOp (Except IoError Unit)
  /-- the temporary file takes the place of the file -/
  | persist (bytes : List UInt8) : IdentityOp (Except IoError Unit)
  /-- `save_locked` is called -/
  | saves (identity : DeviceIdentity) : IdentityOp Unit
  /-- `save_locked` succeeds -/
  | saved (identity : DeviceIdentity) : IdentityOp Unit
  /-- `load` returns -/
  | loads (result : Except IdentityError DeviceIdentity) : IdentityOp Unit
  /-- `load_or_create` returns -/
  | obtains (result : Except IdentityError DeviceIdentity) : IdentityOp Unit
  | tamper (file : Option (List UInt8)) : IdentityOp Unit

abbrev IdentityProg := Fallible IdentityOp IdentityError

/-- `CONTEXT` of `unattended.rs`. -/
def GRANT_CONTEXT : List UInt8 := utf8 "SENSOR/unattended-grant/v1/"

namespace IdentityStore

/-- A call whose failure is an I/O error of the store. -/
def io {α : Type} (o : IdentityOp (Except IoError α)) : IdentityProg α :=
  (Fallible.attempt o).mapError .io

section Store

variable (publicKey : Seed → PublicKey)

/-- `load`. -/
def load : IdentityProg DeviceIdentity := do
  let bytes ← io (.readFile (MAX_IDENTITY_BYTES + 1))
  let persisted ← Fallible.ofExcept (parseIdentity bytes)
  let seed ← Fallible.attempt (.unprotect persisted.protectedSeed persisted.context.code)
  Fallible.ofExcept (persisted.unlock publicKey seed)

/-- `save_locked`. -/
def saveLocked (identity : DeviceIdentity) : IdentityProg Unit := do
  Fallible.perform (.saves identity)
  let protectedSeed ← Fallible.attempt
    (.protect identity.keypair.toList (identity.context publicKey).code)
  let bytes := (identity.persisted publicKey protectedSeed).code
  Fallible.check (bytes.length ≤ MAX_IDENTITY_BYTES) .malformed
  io (.writeTemporary bytes)
  io (.persist bytes)
  Fallible.perform (.saved identity)

/-- `x`, with the lock. -/
def locked {α : Type} (x : IdentityProg α) : IdentityProg α := do
  io .lock
  Prog.bind x fun r => .op .unlock fun _ => .ret r

/-- `save`. -/
def save (identity : DeviceIdentity) : IdentityProg Unit := locked (saveLocked publicKey identity)

/-- The part of `load_or_create` for a file that is not found. -/
def create : IdentityProg DeviceIdentity := do
  let identity ← Fallible.perform .generate
  saveLocked publicKey identity
  return identity

/-- `load_or_create`, with the lock. -/
def loadOrCreateLocked : IdentityProg DeviceIdentity :=
  Prog.bind (load publicKey) fun
    | .ok identity => .ret (.ok identity)
    | .error (.io .notFound) => create publicKey
    | .error error => .ret (.error error)

/-- `load_or_create`. -/
def loadOrCreate : IdentityProg DeviceIdentity := locked (loadOrCreateLocked publicKey)

/-- A call. -/
def carryOut : IdentityCall → Prog IdentityOp Unit
  | .load => Prog.bind (load publicKey) fun r => Prog.perform (.loads r)
  | .save identity => Prog.bind (save publicKey identity) fun _ => .ret ()
  | .loadOrCreate => Prog.bind (loadOrCreate publicKey) fun r => Prog.perform (.obtains r)
  | .protectGrant data localKey =>
    Prog.op (.protect data (GRANT_CONTEXT ++ localKey)) fun _ => .ret ()
  | .tamper file => Prog.perform (.tamper file)

/-- A thread: one call after the other. -/
def calls : Prog IdentityOp Unit :=
  Prog.forever () fun _ => do
    let call ← Prog.perform .next
    carryOut publicKey call
    return .inl ()

end Store

end IdentityStore

/-! ## The world of a store -/

/-- The file, its lock, and what has happened. -/
structure IdentityWorld (ι : Type) where
  file : Option (List UInt8)
  /-- who holds the lock -/
  holder : Option ι
  protections : List Protection
  /-- the identities that `save_locked` was called with, and those it has saved -/
  called : List DeviceIdentity
  saved : List DeviceIdentity
  /-- what `load` and `load_or_create` have returned -/
  loaded : List (Except IdentityError DeviceIdentity)
  obtained : List (Except IdentityError DeviceIdentity)

/-- What a step of a thread may answer, and what it does. -/
def IdentityWorld.Does {ι : Type} (protector : KeyProtector) (allowed : IdentityCall → Prop) (i : ι)
    (w : IdentityWorld ι) : {β : Type} → IdentityOp β → β → IdentityWorld ι → Prop
  | _, .next, call, w' => allowed call ∧ w' = w
  | _, .lock, .ok (), w' => w.holder = none ∧ w' = { w with holder := some i }
  | _, .unlock, (), w' => w.holder = some i ∧ w' = { w with holder := none }
  | _, .readFile limit, .ok bytes, w' =>
      (∃ contents, w.file = some contents ∧ bytes = contents.take limit) ∧ w' = w
  | _, .readFile _, .error error, w' => (error = .notFound → w.file = none) ∧ w' = w
  | _, .generate, identity, w' =>
      identity.deviceAlias = none ∧ identity.deviceNamespace = none ∧ w' = w
  | _, .protect plaintext context, .ok ciphertext, w' =>
      protector.Protects ⟨plaintext, context, ciphertext⟩ ∧
        w' = { w with protections := w.protections ++ [⟨plaintext, context, ciphertext⟩] }
  | _, .unprotect ciphertext context, result, w' =>
      result = protector.unprotect w.protections ciphertext context ∧ w' = w
  | _, .persist bytes, .ok (), w' => w' = { w with file := some bytes }
  | _, .saves identity, (), w' => w' = { w with called := w.called ++ [identity] }
  | _, .saved identity, (), w' => w' = { w with saved := w.saved ++ [identity] }
  | _, .loads result, (), w' => w' = { w with loaded := w.loaded ++ [result] }
  | _, .obtains result, (), w' => w' = { w with obtained := w.obtained ++ [result] }
  | _, .tamper file, (), w' => w' = { w with file }
  | _, .writeTemporary _, _, w' | _, .lock, .error _, w' | _, .protect _ _, .error _, w'
  | _, .persist _, .error _, w' => w' = w

/-- A store as a machine. The lock of a process that ends is given back. -/
def identityMachine (ι : Type) [DecidableEq ι] (protector : KeyProtector)
    (allowed : IdentityCall → Prop) : Machine IdentityOp ι (IdentityWorld ι) where
  step i w _ o b w' := w.Does protector allowed i o b w'
  vanish i w w' := w' = { w with holder := if w.holder = some i then none else w.holder }

/-- A store, and the threads and processes that use it. -/
def identitySystem (ι : Type) [DecidableEq ι] (protector : KeyProtector)
    (publicKey : Seed → PublicKey) (allowed : IdentityCall → Prop)
    (init : IdentityWorld ι → Prop) : Transition.LTS (Pool IdentityOp ι (IdentityWorld ι)) ι :=
  pool (identityMachine ι protector allowed) (fun _ => IdentityStore.calls publicKey) init

/-- The call of `protect` for an identity. -/
def DeviceIdentity.protection (publicKey : Seed → PublicKey) (identity : DeviceIdentity)
    (ciphertext : List UInt8) : Protection :=
  { plaintext := identity.keypair.toList
    context := (identity.context publicKey).code
    ciphertext }

/-! ## What is bound to the key -/

namespace IdentityWorld

section Bound

variable {ι β : Type} {protector : KeyProtector} {publicKey : Seed → PublicKey}
  {allowed : IdentityCall → Prop} {i : ι} {w w' : IdentityWorld ι} {o : IdentityOp β} {b : β}
  {identity : DeviceIdentity}

/-- `save_locked` was called with the identity, and its seed was protected. -/
structure Bound (publicKey : Seed → PublicKey) (identity : DeviceIdentity) (w : IdentityWorld ι) :
    Prop where
  called : identity ∈ w.called
  protection : ∃ ciphertext, identity.protection publicKey ciphertext ∈ w.protections

/-- All that is protected is known, and all that was returned is bound. -/
structure AllBound (publicKey : Seed → PublicKey) (w : IdentityWorld ι) : Prop where
  known : ∀ call ∈ w.protections, (∃ identity ∈ w.called,
    call = identity.protection publicKey call.ciphertext) ∨ GRANT_CONTEXT <+: call.context
  loaded : ∀ identity, .ok identity ∈ w.loaded → Bound publicKey identity w
  obtained : ∀ identity, .ok identity ∈ w.obtained → Bound publicKey identity w

/-- Nothing that was done is undone. -/
structure Grows (w w' : IdentityWorld ι) : Prop where
  called : w.called ⊆ w'.called
  protections : w.protections ⊆ w'.protections

/-- What has to hold before an operation. -/
def KnownBefore (publicKey : Seed → PublicKey) (w : IdentityWorld ι) :
    {β : Type} → IdentityOp β → Prop
  | _, .protect plaintext context => (∃ identity ∈ w.called, plaintext = identity.keypair.toList ∧
      context = (identity.context publicKey).code) ∨ GRANT_CONTEXT <+: context
  | _, .loads result | _, .obtains result =>
      ∀ identity, result = .ok identity → Bound publicKey identity w
  | _, _ => True

theorem Bound.grows (h : Bound publicKey identity w) (hgrows : Grows w w') :
    Bound publicKey identity w' :=
  ⟨hgrows.called h.called, h.protection.imp fun _ hmem => hgrows.protections hmem⟩

/-- A grant is protected in another context. -/
theorem grant_context_ne (identity : DeviceIdentity) :
    ¬GRANT_CONTEXT <+: (identity.context publicKey).code := by
  rintro ⟨rest, hrest⟩
  have hgrant : GRANT_CONTEXT.head? = some 83 := by decide +kernel
  have hidentity : ((identity.context publicKey).code).head? = some 1 := by
    have hversion : varint IDENTITY_FILE_VERSION.toNat = [1] := by
      rw [varint]
      rfl
    rw [ProtectionContext.code, DeviceIdentity.context, hversion]
    rfl
  rw [← hrest, List.head?_append, hgrant] at hidentity
  cases hidentity

/-- What was protected for an identity was protected by a call for it. -/
theorem AllBound.bound (hw : AllBound publicKey w) {ciphertext : List UInt8}
    (hmem : identity.protection publicKey ciphertext ∈ w.protections) :
    Bound publicKey identity w := by
  refine ⟨?_, ciphertext, hmem⟩
  rcases hw.known _ hmem with ⟨other, hother, heq⟩ | hgrant
  · have hcontext := ProtectionContext.code_injective (congrArg Protection.context heq)
    have hseed := congrArg Protection.plaintext heq
    rwa [DeviceIdentity.ext_context hcontext hseed]
  · exact absurd hgrant (grant_context_ne identity)

/-- A step that adds nothing to what was done. -/
theorem AllBound.same (hw : AllBound publicKey w) (hcalled : w'.called = w.called)
    (hprotections : w'.protections = w.protections) (hloaded : w'.loaded = w.loaded)
    (hobtained : w'.obtained = w.obtained) : AllBound publicKey w' ∧ Grows w w' := by
  have hgrows : Grows w w' :=
    ⟨by rw [hcalled]; exact List.Subset.refl _, by rw [hprotections]; exact List.Subset.refl _⟩
  refine ⟨⟨?_, ?_, ?_⟩, hgrows⟩
  · rw [hcalled, hprotections]
    exact hw.known
  · rw [hloaded]
    exact fun identity hmem => (hw.loaded identity hmem).grows hgrows
  · rw [hobtained]
    exact fun identity hmem => (hw.obtained identity hmem).grows hgrows

/-- **One step** binds what it returns. -/
theorem Does.bound (hw : AllBound publicKey w) (hready : w.KnownBefore publicKey o)
    (h : w.Does protector allowed i o b w') : AllBound publicKey w' ∧ Grows w w' := by
  cases o with
  | next | unlock | unprotect =>
    obtain ⟨-, rfl⟩ := h
    exact hw.same rfl rfl rfl rfl
  | generate =>
    obtain ⟨-, -, rfl⟩ := h
    exact hw.same rfl rfl rfl rfl
  | lock =>
    rcases b with e | ⟨⟩
    · rw [show w' = w from h]
      exact hw.same rfl rfl rfl rfl
    · obtain ⟨-, rfl⟩ := h
      exact hw.same rfl rfl rfl rfl
  | readFile =>
    rcases b with e | bytes
    all_goals
      obtain ⟨-, rfl⟩ := h
      exact hw.same rfl rfl rfl rfl
  | writeTemporary =>
    rw [show w' = w from h]
    exact hw.same rfl rfl rfl rfl
  | persist =>
    rcases b with e | ⟨⟩
    all_goals
      cases h
      exact hw.same rfl rfl rfl rfl
  | saved | tamper =>
    cases h
    exact hw.same rfl rfl rfl rfl
  | protect plaintext context =>
    rcases b with e | ciphertext
    · rw [show w' = w from h]
      exact hw.same rfl rfl rfl rfl
    obtain ⟨-, rfl⟩ := h
    have hgrows : Grows w
        { w with protections := w.protections ++ [⟨plaintext, context, ciphertext⟩] } :=
      ⟨List.Subset.refl _, List.subset_append_left _ _⟩
    refine ⟨⟨fun call hmem => ?_, fun a ha => (hw.loaded a ha).grows hgrows,
      fun a ha => (hw.obtained a ha).grows hgrows⟩, hgrows⟩
    rcases List.mem_append.mp hmem with hmem | hmem
    · exact hw.known call hmem
    · obtain rfl := List.mem_singleton.mp hmem
      apply hready.imp_left
      rintro ⟨identity, hcalled, rfl, rfl⟩
      exact ⟨identity, hcalled, rfl⟩
  | saves identity =>
    cases h
    have hgrows : Grows w { w with called := w.called ++ [identity] } :=
      ⟨List.subset_append_left _ _, List.Subset.refl _⟩
    refine ⟨⟨fun call hmem => ?_, fun a ha => (hw.loaded a ha).grows hgrows,
      fun a ha => (hw.obtained a ha).grows hgrows⟩, hgrows⟩
    exact (hw.known call hmem).imp_left fun ⟨other, hother, heq⟩ =>
      ⟨other, hgrows.called hother, heq⟩
  | loads result =>
    cases h
    have hgrows : Grows w { w with loaded := w.loaded ++ [result] } :=
      ⟨List.Subset.refl _, List.Subset.refl _⟩
    refine ⟨⟨hw.known, fun a ha => ?_, fun a ha => (hw.obtained a ha).grows hgrows⟩, hgrows⟩
    rcases List.mem_append.mp ha with ha | ha
    · exact (hw.loaded a ha).grows hgrows
    · exact (hready a (List.mem_singleton.mp ha).symm).grows hgrows
  | obtains result =>
    cases h
    have hgrows : Grows w { w with obtained := w.obtained ++ [result] } :=
      ⟨List.Subset.refl _, List.Subset.refl _⟩
    refine ⟨⟨hw.known, fun a ha => (hw.loaded a ha).grows hgrows, fun a ha => ?_⟩, hgrows⟩
    rcases List.mem_append.mp ha with ha | ha
    · exact (hw.obtained a ha).grows hgrows
    · exact (hready a (List.mem_singleton.mp ha).symm).grows hgrows

variable [DecidableEq ι]

/-- What the threads keep between them. -/
def bindingRegime (ι : Type) [DecidableEq ι] (protector : KeyProtector)
    (publicKey : Seed → PublicKey) (allowed : IdentityCall → Prop) :
      Regime (identityMachine ι protector allowed) where
  inv := AllBound publicKey
  guar _ := Grows
  rely _ := Grows
  compatible _ _ _ _ _ _ _ hguar := hguar
  vanishing i w w' hw hvanish := by
    obtain rfl : w' = { w with holder := if w.holder = some i then none else w.holder } := hvanish
    exact hw.same rfl rfl rfl rfl

variable {α : Type} {P : IdentityWorld ι → Prop}

/-- An operation whose condition is met. -/
theorem correct_bound {R : β → IdentityWorld ι → Prop}
    (hready : ∀ w, AllBound publicKey w → P w → w.KnownBefore publicKey o)
    (hR : ∀ w b w', AllBound publicKey w → P w → w.Does protector allowed i o b w' → R b w') :
    (bindingRegime ι protector publicKey allowed).Correct i P o R := by
  intro w b w' hw hP hdoes
  obtain ⟨hw', hgrows⟩ := Does.bound hw (hready w hw hP) hdoes
  exact ⟨hw', hgrows, hR w b w' hw hP hdoes⟩

theorem stable_true : (bindingRegime ι protector publicKey allowed).Stable i fun _ => True :=
  fun _ _ _ _ _ _ => trivial

theorem stable_called : (bindingRegime ι protector publicKey allowed).Stable i
    fun w => identity ∈ w.called :=
  fun _ _ _ _ h hgrows => hgrows.called h

theorem stable_bound : (bindingRegime ι protector publicKey allowed).Stable i
    (Bound publicKey identity) :=
  fun _ _ _ _ h hgrows => h.grows hgrows

/-- A call of the file system on the way. -/
theorem io_seq_bound {o : IdentityOp (Except IoError α)} {f : α → IdentityProg β}
    {Q : β → IdentityWorld ι → Prop}
    (hP : (bindingRegime ι protector publicKey allowed).Stable i P)
    (hready : ∀ w : IdentityWorld ι, w.KnownBefore publicKey o)
    (hkeeps : ∀ w r w', P w → IdentityWorld.Does protector allowed i w o r w' → P w')
    (hok : ∀ a, Outline (bindingRegime ι protector publicKey allowed) i P (f a)
      (Outline.Outcome Q fun _ _ => True)) :
    Outline (bindingRegime ι protector publicKey allowed) i P
      (IdentityStore.io o >>= f : IdentityProg β) (Outline.Outcome Q fun _ _ => True) := by
  refine .op hP (R := fun _ => P) (correct_bound (fun w _ _ => hready w)
    fun w r w' _ hPw hdoes => hkeeps w r w' hPw hdoes) fun r => ?_
  rcases r with e | a
  · exact .ret hP fun _ _ _ => trivial
  · exact hok a

/-- `load` returns what is bound. -/
theorem outline_load (hprotector : AuthenticatedEncryption protector) :
    Outline (bindingRegime ι protector publicKey allowed) i (fun _ => True)
      (IdentityStore.load publicKey)
      (Outline.Outcome (Bound publicKey) fun _ _ => True) := by
  refine io_seq_bound stable_true (fun _ => trivial) (fun _ _ _ _ _ => trivial) fun bytes => ?_
  refine Outline.ofExcept_seq stable_true (fun _ _ _ _ _ => trivial) fun persisted hpersisted => ?_
  refine .op (R := Outline.Outcome (fun seed w => ⟨seed, persisted.context.code,
    persisted.protectedSeed⟩ ∈ w.protections) fun _ _ => True) stable_true
    (correct_bound (fun _ _ _ => trivial) ?_) fun r => ?_
  · rintro w (e | seed) w' - - ⟨hresult, rfl⟩
    · trivial
    · exact hprotector.authentic _ _ _ _ hresult.symm
  rcases r with e | seed
  · exact .ret stable_true fun _ _ _ => trivial
  · have hstable : (bindingRegime ι protector publicKey allowed).Stable i fun w =>
        ⟨seed, persisted.context.code, persisted.protectedSeed⟩ ∈ w.protections :=
      fun _ _ _ _ h hgrows => hgrows.protections h
    refine .ret hstable fun w hw hmem => ?_
    cases hunlock : persisted.unlock publicKey seed with
    | error e => trivial
    | ok identity =>
      obtain ⟨rfl, hcontext⟩ := unlock_ok hunlock (parseIdentity_ok hpersisted).2
      rw [hcontext] at hmem
      exact hw.bound hmem

/-- `save_locked` binds what it is called with before it is done. -/
theorem outline_saveLocked (identity : DeviceIdentity) :
    Outline (bindingRegime ι protector publicKey allowed) i (fun _ => True)
      (IdentityStore.saveLocked publicKey identity)
      (Outline.Outcome (fun _ => Bound publicKey identity) fun _ _ => True) := by
  refine .op (R := fun _ w => identity ∈ w.called) stable_true
    (correct_bound (fun _ _ _ => trivial) ?_) fun _ => ?_
  · rintro w ⟨⟩ w' - - rfl
    exact List.mem_append_right _ (List.mem_singleton.mpr rfl)
  refine .op (R := Outline.Outcome (fun _ => Bound publicKey identity) fun _ _ => True)
    stable_called (correct_bound (fun w _ hcalled => .inl ⟨identity, hcalled, rfl, rfl⟩) ?_)
    fun r => ?_
  · rintro w (e | ciphertext) w' - hcalled hdoes
    · trivial
    · obtain ⟨-, rfl⟩ := hdoes
      exact ⟨hcalled, ciphertext, List.mem_append_right _ (List.mem_singleton.mpr rfl)⟩
  rcases r with e | ciphertext
  · exact .ret stable_true fun _ _ _ => trivial
  refine Outline.check_seq stable_bound (fun _ _ _ => trivial) fun _ => ?_
  refine io_seq_bound stable_bound (fun _ => trivial) ?_ fun _ => ?_
  · rintro w r w' hbound hdoes
    rwa [show w' = w from hdoes]
  refine io_seq_bound stable_bound (fun _ => trivial) ?_ fun _ => ?_
  · rintro w (e | ⟨⟩) w' hbound hdoes
    · rwa [show w' = w from hdoes]
    · rw [show w' = _ from hdoes]
      exact ⟨hbound.called, hbound.protection⟩
  refine .op (R := fun _ => Bound publicKey identity) stable_bound
    (correct_bound (fun _ _ _ => trivial) ?_) fun _ => .ret stable_bound fun _ _ h => h
  rintro w ⟨⟩ w' - hbound rfl
  exact ⟨hbound.called, hbound.protection⟩

/-- With the lock. -/
theorem outline_locked {x : IdentityProg α} {Q : α → IdentityWorld ι → Prop}
    (hQ : ∀ a, (bindingRegime ι protector publicKey allowed).Stable i (Q a))
    (hunlock : ∀ a (w : IdentityWorld ι), Q a w → Q a { w with holder := none })
    (h : Outline (bindingRegime ι protector publicKey allowed) i (fun _ => True) x
      (Outline.Outcome Q fun _ _ => True)) :
    Outline (bindingRegime ι protector publicKey allowed) i (fun _ => True)
      (IdentityStore.locked x) (Outline.Outcome Q fun _ _ => True) := by
  refine io_seq_bound stable_true (fun _ => trivial) (fun _ _ _ _ _ => trivial) fun _ => ?_
  have hstable := Outline.stable_outcome (D := bindingRegime ι protector publicKey allowed) (i := i)
    (ε := IdentityError) hQ fun _ => stable_true
  refine h.bind fun r => .op (R := fun _ => Outline.Outcome Q (fun _ _ => True) r) (hstable r)
    (correct_bound (fun _ _ _ => trivial) ?_) fun _ => .ret (hstable r) fun _ _ h => h
  rintro w ⟨⟩ w' - hQw ⟨-, rfl⟩
  rcases r with e | a
  · trivial
  · exact hunlock a w hQw

theorem outline_create :
    Outline (bindingRegime ι protector publicKey allowed) i (fun _ => True)
      (IdentityStore.create publicKey)
      (Outline.Outcome (fun identity => Bound publicKey identity) fun _ _ => True) := by
  refine .op (R := fun _ _ => True) stable_true
    (correct_bound (fun _ _ _ => trivial) fun _ _ _ _ _ _ => trivial) fun identity => ?_
  exact (outline_saveLocked identity).onward (fun _ => stable_true) (fun _ _ _ _ => trivial)
    fun _ => .ret stable_bound fun _ _ h => h

theorem outline_loadOrCreate (hprotector : AuthenticatedEncryption protector) :
    Outline (bindingRegime ι protector publicKey allowed) i (fun _ => True)
      (IdentityStore.loadOrCreate publicKey)
      (Outline.Outcome (fun identity => Bound publicKey identity) fun _ _ => True) := by
  refine outline_locked (fun _ => stable_bound) (fun _ _ h => ⟨h.called, h.protection⟩) ?_
  refine (outline_load hprotector).bind fun r => ?_
  split
  · exact .ret stable_bound fun _ _ h => h
  · exact outline_create
  · exact .ret stable_true fun _ _ _ => trivial

/-- Whatever a thread calls. -/
theorem outline_carryOut (hprotector : AuthenticatedEncryption protector) (call : IdentityCall) :
    Outline (bindingRegime ι protector publicKey allowed) i (fun _ => True)
      (IdentityStore.carryOut publicKey call) fun _ _ => True := by
  have hstable := Outline.stable_outcome (D := bindingRegime ι protector publicKey allowed) (i := i)
    (R := Bound publicKey) (ε := IdentityError) (fun _ => stable_bound) fun _ => stable_true
  have hreturned {r : Except IdentityError DeviceIdentity} {w : IdentityWorld ι}
      (h : Outline.Outcome (Bound publicKey) (fun _ _ => True) r w) (identity : DeviceIdentity)
      (hr : r = .ok identity) : Bound publicKey identity w := by
    subst hr
    exact h
  cases call with
  | load =>
    refine (outline_load hprotector).bind fun r => ?_
    exact .perform (hstable r) (correct_bound (fun _ _ h => hreturned h) fun _ _ _ _ _ _ => trivial)
      fun _ => stable_true
  | save identity =>
    refine (outline_locked (fun _ => stable_bound) (fun _ _ h => ⟨h.called, h.protection⟩)
      (outline_saveLocked identity)).bind fun r => ?_
    exact .ret (Outline.stable_outcome (fun _ => stable_bound) (fun _ => stable_true) r)
      fun _ _ _ => trivial
  | loadOrCreate =>
    refine (outline_loadOrCreate hprotector).bind fun r => ?_
    exact .perform (hstable r) (correct_bound (fun _ _ h => hreturned h) fun _ _ _ _ _ _ => trivial)
      fun _ => stable_true
  | protectGrant data localKey =>
    exact .op (R := fun _ _ => True) stable_true
      (correct_bound (fun _ _ _ => .inr (List.prefix_append ..)) fun _ _ _ _ _ _ => trivial)
      fun _ => .ret stable_true fun _ _ _ => trivial
  | tamper file =>
    exact .perform stable_true
      (correct_bound (fun _ _ _ => trivial) fun _ _ _ _ _ _ => trivial) fun _ => stable_true

theorem outline_calls (hprotector : AuthenticatedEncryption protector) :
    Outline (bindingRegime ι protector publicKey allowed) i (fun _ => True)
      (IdentityStore.calls publicKey) fun _ _ => True := by
  refine .forever (L := fun _ _ => True) (fun _ => ?_) fun _ => stable_true
  refine .op (R := fun _ _ => True) stable_true
    (correct_bound (fun _ _ _ => trivial) fun _ _ _ _ _ _ => trivial) fun call => ?_
  exact (outline_carryOut hprotector call).bind fun _ => .ret stable_true fun _ _ _ => trivial

end Bound

end IdentityWorld

end SensorRemote.Identity
