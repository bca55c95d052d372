import SensorRemote.IdentityCreation

/-!
# What an identity store gives back

What `load` returns is bound to the protected key, `save` is undone by `load`, and all callers of
`load_or_create` obtain one identity. The protector of the program is that of Windows
(`sensor-windows`), which reports an I/O error as a text.
-/

namespace SensorRemote.Identity

open Bytes Program Readers

/-! ## The protector of Windows -/

/-- What `CryptProtectData` and `CryptUnprotectData` answer. -/
inductive CryptResult where
  /-- zero, and `last_os_error` -/
  | failed (error : String)
  | null
  /-- `cbData` is a `u32` -/
  | data (bytes : List UInt8) (short : bytes.length < 2 ^ 32)

/-- `UserDpapi::transform`, where the call answers `result`. -/
def transform (input context : List UInt8) (result : CryptResult) :
    Except IdentityError (List UInt8) :=
  if ¬(input.length < 2 ^ 32 ∧ context.length < 2 ^ 32) then .error .malformed
  else
    match result with
    | .failed error => .error (.protection ("Windows DPAPI: " ++ error))
    | .null => .error .malformed
    | .data bytes _ => .ok bytes

/-- `UserDpapi`, over what the system may answer. -/
def userDpapi (protectData : List UInt8 → List UInt8 → CryptResult → Prop)
    (unprotectData : List Protection → List UInt8 → List UInt8 → CryptResult) : KeyProtector where
  Protects call := ∃ result, protectData call.plaintext call.context result ∧
    transform call.plaintext call.context result = .ok call.ciphertext
  unprotect calls ciphertext context :=
    transform ciphertext context (unprotectData calls ciphertext context)

/-- No failure of Windows is an I/O error of the store. -/
theorem transform_ne_io (input context : List UInt8) (result : CryptResult) (e : IoError) :
    transform input context result ≠ .error (.io e) := by
  unfold transform
  split
  · rintro ⟨⟩
  cases result <;> rintro ⟨⟩

theorem transform_ok {input context output : List UInt8} {result : CryptResult} :
    transform input context result = .ok output ↔
      (input.length < 2 ^ 32 ∧ context.length < 2 ^ 32) ∧ ∃ short, result = .data output short := by
  unfold transform
  constructor
  · intro h
    split at h
    · cases h
    rename_i hlengths
    cases result with
    | failed error => cases h
    | null => cases h
    | data bytes short =>
      cases h
      exact ⟨not_not.mp hlengths, short, rfl⟩
  · rintro ⟨hlengths, short, rfl⟩
    rw [if_neg (not_not_intro hlengths)]

/-! ## A save, and then a load -/

/-- `save`, and then `load`. -/
def saveAndLoad (publicKey : Seed → PublicKey) (identity : DeviceIdentity) :
    Prog IdentityOp (Except IdentityError Unit × Except IdentityError DeviceIdentity) :=
  Prog.bind (IdentityStore.save publicKey identity) fun saved =>
    Prog.bind (IdentityStore.load publicKey) fun loaded => .ret (saved, loaded)

/-- The identity is loaded, unless the file cannot be read. -/
def Returned (identity : DeviceIdentity) (loaded : Except IdentityError DeviceIdentity) : Prop :=
  loaded = .ok identity ∨ ∃ e, e ≠ IoError.notFound ∧ loaded = .error (.io e)

namespace IdentityWorld

section Alone

variable {protector : KeyProtector} {publicKey : Seed → PublicKey} {allowed : IdentityCall → Prop}
  {identity : DeviceIdentity}

/-- The seed of the identity was protected. -/
def Protected (protector : KeyProtector) (publicKey : Seed → PublicKey) (identity : DeviceIdentity)
    (ciphertext : List UInt8) (w : IdentityWorld Unit) : Prop :=
  protector.Protects (identity.protection publicKey ciphertext) ∧
    identity.protection publicKey ciphertext ∈ w.protections

/-- The world that a successful save leaves. -/
def Keeps (protector : KeyProtector) (publicKey : Seed → PublicKey) (identity : DeviceIdentity)
    (w : IdentityWorld Unit) : Prop :=
  ∃ ciphertext, Protected protector publicKey identity ciphertext w ∧
    (identity.persisted publicKey ciphertext).code.length ≤ MAX_IDENTITY_BYTES ∧
      w.file = some (identity.persisted publicKey ciphertext).code

/-- A call of the file system on the way, of a thread that is alone. -/
theorem io_seq_alone {α β : Type} {o : IdentityOp (Except IoError α)} {f : α → IdentityProg β}
    {P : IdentityWorld Unit → Prop} {R : α → IdentityWorld Unit → Prop}
    {Q : Except IdentityError β → IdentityWorld Unit → Prop}
    (hok : ∀ w a w', P w → IdentityWorld.Does protector allowed () w o (.ok a) w' → R a w')
    (herror : ∀ w e w', P w → IdentityWorld.Does protector allowed () w o (.error e) w' →
      Q (.error (.io e)) w')
    (hf : ∀ a, Outline (.solo (identityMachine Unit protector allowed)) () (R a) (f a) Q) :
    Outline (.solo (identityMachine Unit protector allowed)) () P
      (IdentityStore.io o >>= f : IdentityProg β) Q := by
  refine .op Regime.solo_stable (R := Outline.Outcome R fun e => Q (.error (.io e))) ?_ fun r => ?_
  · rintro w (e | a) w' - hP hdoes
    · exact ⟨trivial, trivial, herror w e w' hP hdoes⟩
    · exact ⟨trivial, trivial, hok w a w' hP hdoes⟩
  rcases r with e | a
  · exact .ret Regime.solo_stable fun _ _ h => h
  · exact hf a

/-- `save_locked`, alone. -/
theorem outline_saveLockedAlone (identity : DeviceIdentity) :
    Outline (.solo (identityMachine Unit protector allowed)) () (fun _ => True)
      (IdentityStore.saveLocked publicKey identity)
      (Outline.Outcome (fun _ => Keeps protector publicKey identity) fun _ _ => True) := by
  refine .op (R := fun _ _ => True) Regime.solo_stable
    (fun _ _ _ _ _ _ => ⟨trivial, trivial, trivial⟩) fun _ => ?_
  refine .op (R := Outline.Outcome (Protected protector publicKey identity) fun _ _ => True)
    Regime.solo_stable ?_ fun r => ?_
  · rintro w (e | ciphertext) w' - - hdoes
    · exact ⟨trivial, trivial, trivial⟩
    · obtain ⟨hprotects, rfl⟩ := hdoes
      exact ⟨trivial, trivial, hprotects, List.mem_append_right _ (List.mem_singleton.mpr rfl)⟩
  rcases r with e | ciphertext
  · exact .ret Regime.solo_stable fun _ _ _ => trivial
  refine Outline.check_seq Regime.solo_stable (fun _ _ _ => trivial) fun hsize => ?_
  refine io_seq_alone (R := fun _ => Protected protector publicKey identity ciphertext) ?_
    (fun _ _ _ _ _ => trivial) fun _ => ?_
  · rintro w ⟨⟩ w' h hdoes
    rwa [show w' = w from hdoes]
  refine io_seq_alone (R := fun _ => Keeps protector publicKey identity) ?_
    (fun _ _ _ _ _ => trivial) fun _ => ?_
  · rintro w ⟨⟩ w' h hdoes
    rw [show w' = _ from hdoes]
    exact ⟨ciphertext, h, hsize, rfl⟩
  refine .op (R := fun _ => Keeps protector publicKey identity) Regime.solo_stable ?_
    fun _ => .ret Regime.solo_stable fun _ _ h => h
  rintro w ⟨⟩ w' - h rfl
  exact ⟨trivial, trivial, h⟩

/-- `save`, alone. -/
theorem outline_saveAlone (identity : DeviceIdentity) :
    Outline (.solo (identityMachine Unit protector allowed)) () (fun _ => True)
      (IdentityStore.save publicKey identity)
      (Outline.Outcome (fun _ => Keeps protector publicKey identity) fun _ _ => True) := by
  refine io_seq_alone (R := fun _ _ => True) (fun _ _ _ _ _ => trivial) (fun _ _ _ _ _ => trivial)
    fun _ => ?_
  refine (outline_saveLockedAlone identity).bind fun r => .op (R := fun _ => Outline.Outcome
    (fun _ => Keeps protector publicKey identity) (fun _ _ => True) r) Regime.solo_stable ?_
    fun _ => .ret Regime.solo_stable fun _ _ h => h
  rintro w ⟨⟩ w' - h ⟨-, rfl⟩
  rcases r with e | ⟨⟩ <;> exact ⟨trivial, trivial, h⟩

/-- `load`, of what was saved. -/
theorem outline_loadAlone (hprotector : AuthenticatedEncryption protector) :
    Outline (.solo (identityMachine Unit protector allowed)) () (Keeps protector publicKey identity)
      (IdentityStore.load publicKey) fun loaded _ => Returned identity loaded := by
  refine io_seq_alone (R := fun bytes w => ∃ ciphertext,
    (Protected protector publicKey identity ciphertext w ∧
      (identity.persisted publicKey ciphertext).code.length ≤ MAX_IDENTITY_BYTES) ∧
        bytes = (identity.persisted publicKey ciphertext).code) ?_ ?_ fun bytes => ?_
  · rintro w bytes w' ⟨ciphertext, hprotected, hsize, hfile⟩ ⟨⟨contents, hcontents, rfl⟩, rfl⟩
    obtain rfl := Option.some.inj (hfile.symm.trans hcontents)
    exact ⟨ciphertext, ⟨hprotected, hsize⟩, List.take_of_length_le (by omega)⟩
  · rintro w e w' ⟨ciphertext, -, -, hfile⟩ ⟨hnone, rfl⟩
    refine .inr ⟨e, fun he => ?_, rfl⟩
    rw [hnone he] at hfile
    cases hfile
  have hparse (ciphertext : List UInt8) {w : IdentityWorld Unit}
      (h : Protected protector publicKey identity ciphertext w ∧
        (identity.persisted publicKey ciphertext).code.length ≤ MAX_IDENTITY_BYTES) :
      parseIdentity (identity.persisted publicKey ciphertext).code =
        .ok (identity.persisted publicKey ciphertext) :=
    parseIdentity_code h.2 rfl (hprotector.ciphertext_ne _ h.1.1)
  refine Outline.ofExcept_seq Regime.solo_stable ?_ fun persisted hpersisted => ?_
  · rintro e he w - ⟨ciphertext, h, rfl⟩
    rw [hparse ciphertext h] at he
    cases he
  refine .op (R := fun r _ => ∃ ciphertext, persisted = identity.persisted publicKey ciphertext ∧
    r = .ok identity.keypair.toList) Regime.solo_stable ?_ fun r => ?_
  · rintro w r w' - ⟨ciphertext, h, rfl⟩ ⟨hresult, rfl⟩
    rw [hparse ciphertext h] at hpersisted
    obtain rfl := Except.ok.inj hpersisted
    exact ⟨trivial, trivial, ciphertext, rfl, hresult.trans (hprotector.correct _ _ h.1.1 h.1.2)⟩
  rcases r with e | seed
  · exact .ret Regime.solo_stable fun _ _ ⟨_, _, he⟩ => by cases he
  · refine .ret Regime.solo_stable ?_
    rintro w - ⟨ciphertext, rfl, hseed⟩
    obtain rfl := Except.ok.inj hseed
    exact .inl (unlock_persisted identity ciphertext)

/-- **A save, and then a load.** What was saved is loaded, if the file can be read. -/
theorem outline_saveAndLoad (hprotector : AuthenticatedEncryption protector)
    (identity : DeviceIdentity) :
    Outline (.solo (identityMachine Unit protector allowed)) () (fun _ => True)
      (saveAndLoad publicKey identity)
      fun r _ => r.1 = .ok () → Returned identity r.2 := by
  refine (outline_saveAlone identity).bind fun saved => ?_
  rcases saved with e | ⟨⟩
  · refine (Outline.idle _).bind fun loaded => .ret Regime.solo_stable ?_
    rintro w - - ⟨⟩
  · exact (outline_loadAlone hprotector).bind fun loaded =>
      .ret Regime.solo_stable fun _ _ h _ => h

end Alone

/-! ## What the store keeps -/

/-- Nothing was done with the store. Its file may be anything. -/
def New {ι : Type} (w : IdentityWorld ι) : Prop :=
  w.holder = none ∧ w.protections = [] ∧ w.called = [] ∧ w.saved = [] ∧ w.loaded = [] ∧
    w.obtained = []

/-- Nobody has the lock, and `load_or_create` was not called. -/
def Resting {ι : Type} (protector : KeyProtector) (w : IdentityWorld ι) : Prop :=
  w.holder = none ∧ w.obtained = [] ∧ ∀ call ∈ w.protections, protector.Protects call

end IdentityWorld

open IdentityWorld

/-- **The identity is kept.** Whatever was written to the file, and whatever is called at the same
time, an identity that is returned is one that `save_locked` was called with and whose seed was
protected. A load after a save returns what was saved, if the file can be read. And if the protector
does not report that a file was not found, an identity is created only where there is no file, no
file is replaced, and all callers obtain one identity. -/
theorem identity_is_kept (ι : Type) [DecidableEq ι] (protector : KeyProtector)
    (publicKey : Seed → PublicKey) (hprotector : AuthenticatedEncryption protector) :
    (∀ s, (identitySystem ι protector publicKey (fun _ => True) New).Reachable s →
      ∀ identity, .ok identity ∈ s.world.loaded ++ s.world.obtained →
        Bound publicKey identity s.world) ∧
    (∀ identity w w' saved loaded, Prog.RunsOn (identityMachine Unit protector fun _ => True) ()
      (saveAndLoad publicKey identity) w (saved, loaded) w' → saved = .ok () →
        Returned identity loaded) ∧
    ((∀ calls ciphertext context,
      protector.unprotect calls ciphertext context ≠ .error (.io .notFound)) →
      ∀ s, (identitySystem ι protector publicKey IdentityCall.Reading
          (Resting protector)).Reachable s →
        (∀ i t, (identitySystem ι protector publicKey IdentityCall.Reading
          (Resting protector)).step s i t → s.world.file ≠ none →
            t.world.file = s.world.file ∧ t.world.called = s.world.called) ∧
        ∀ identity other, .ok identity ∈ s.world.obtained → .ok other ∈ s.world.obtained →
          identity = other) := by
  refine ⟨fun s hs identity hmem => ?_, fun identity w w' saved loaded hrun => ?_,
    fun hkind s hs => ?_⟩
  · have hinit : ∀ w : IdentityWorld ι, New w →
        (bindingRegime ι protector publicKey fun _ => True).inv w ∧ ∀ _ : ι, True := by
      rintro w ⟨-, hprotections, -, -, hloaded, hobtained⟩
      refine ⟨⟨?_, ?_, ?_⟩, fun _ => trivial⟩
      · simp [hprotections]
      · simp [hloaded]
      · simp [hobtained]
    have hbound := (Outline.sound (fun _ => outline_calls hprotector) hinit hs).1
    rcases List.mem_append.mp hmem with hmem | hmem
    · exact hbound.loaded identity hmem
    · exact hbound.obtained identity hmem
  · exact hrun.sound (outline_saveAndLoad hprotector identity) trivial
  · have hinit : ∀ w : IdentityWorld ι, Resting protector w →
        (settledRegime ι protector publicKey).inv w ∧ ∀ _ : ι, True := by
      rintro w ⟨-, hobtained, hprotects⟩
      refine ⟨⟨hprotects, ?_⟩, fun _ => trivial⟩
      simp [hobtained]
    have hsound := Outline.sound (fun _ => outline_reading hprotector hkind) hinit hs
    refine ⟨fun i t hstep => (hsound.step hstep).2.1.file, fun identity other hmem hmem' => ?_⟩
    obtain ⟨bytes, hfile, hstores⟩ := hsound.1.obtained identity hmem
    obtain ⟨bytes', hfile', hstores'⟩ := hsound.1.obtained other hmem'
    obtain rfl := Option.some.inj (hfile.symm.trans hfile')
    exact hstores.unique hprotector hsound.1.protects hstores'

/-! ## Runs of the store -/

section Runs

variable {ι : Type} [DecidableEq ι] {protector : KeyProtector} {publicKey : Seed → PublicKey}
  {allowed : IdentityCall → Prop} {i : ι} {w w' : IdentityWorld ι} {identity : DeviceIdentity}
  {ciphertext : List UInt8}

/-- The world after `save_locked`, by what became of the file. -/
def IdentityWorld.afterSave (publicKey : Seed → PublicKey) (identity : DeviceIdentity)
    (ciphertext : List UInt8) (w : IdentityWorld ι) : Except IoError Unit → IdentityWorld ι
  | .error _ =>
    { w with
      called := w.called ++ [identity]
      protections := w.protections ++ [identity.protection publicKey ciphertext] }
  | .ok () =>
    { w with
      called := w.called ++ [identity]
      protections := w.protections ++ [identity.protection publicKey ciphertext]
      file := some (identity.persisted publicKey ciphertext).code
      saved := w.saved ++ [identity] }

theorem runs_saveLocked (r : Except IoError Unit)
    (hprotects : protector.Protects (identity.protection publicKey ciphertext))
    (hsize : (identity.persisted publicKey ciphertext).code.length ≤ MAX_IDENTITY_BYTES) :
    Prog.RunsOn (identityMachine ι protector allowed) i
      (IdentityStore.saveLocked publicKey identity) w (r.mapError .io)
      (w.afterSave publicKey identity ciphertext r) := by
  refine .op (b := ()) rfl ?_
  refine .op (b := Except.ok ciphertext) ⟨hprotects, rfl⟩ ?_
  refine .seq (.check hsize) ?_
  refine .op (b := .ok ()) rfl ?_
  rcases r with e | ⟨⟩
  · exact .op (b := Except.error e) rfl (.ret _ _)
  · exact .op (b := Except.ok ()) rfl (.op (b := ()) rfl (.ret _ _))

theorem runs_locked {α : Type} {x : IdentityProg α} {r : Except IdentityError α}
    (hfree : w.holder = none) (hmine : w'.holder = some i)
    (hx : Prog.RunsOn (identityMachine ι protector allowed) i x { w with holder := some i } r w') :
    Prog.RunsOn (identityMachine ι protector allowed) i (IdentityStore.locked x) w r
      { w' with holder := none } :=
  .op (b := Except.ok ()) ⟨hfree, rfl⟩
    (Prog.RunsOn.bind (p := x) hx (.op (b := ()) ⟨hmine, rfl⟩ (.ret _ _)))

theorem runs_load {persisted : PersistedIdentity} {bytes : List UInt8}
    {r : Except IdentityError (List UInt8)} (hfile : w.file = some bytes)
    (hparse : parseIdentity bytes = .ok persisted)
    (hunprotect : protector.unprotect w.protections persisted.protectedSeed
      persisted.context.code = r) :
    Prog.RunsOn (identityMachine ι protector allowed) i (IdentityStore.load publicKey) w
      (r.bind (persisted.unlock publicKey)) w := by
  have hall : bytes = bytes.take (MAX_IDENTITY_BYTES + 1) := by
    have := (parseIdentity_ok hparse).1
    rw [List.take_of_length_le (by omega)]
  refine .op (b := Except.ok bytes) ⟨⟨bytes, hfile, hall⟩, rfl⟩ ?_
  refine .seq (.ofExcept hparse) ?_
  refine .op (b := r) ⟨hunprotect.symm, rfl⟩ ?_
  rcases r with e | seed <;> exact .ret _ _

/-- There is no file. -/
theorem runs_loadMissing (hfile : w.file = none) :
    Prog.RunsOn (identityMachine ι protector allowed) i (IdentityStore.load publicKey) w
      (.error (.io .notFound)) w :=
  .op (b := Except.error .notFound) ⟨fun _ => hfile, rfl⟩ (.ret _ _)

/-- `load_or_create` creates an identity once `load` has reported that a file was not found. -/
theorem runs_create (hfree : w.holder = none)
    (hload : Prog.RunsOn (identityMachine ι protector allowed) i (IdentityStore.load publicKey)
      { w with holder := some i } (.error (.io .notFound)) { w with holder := some i })
    (halias : identity.deviceAlias = none) (hnamespace : identity.deviceNamespace = none)
    (hprotects : protector.Protects (identity.protection publicKey ciphertext))
    (hsize : (identity.persisted publicKey ciphertext).code.length ≤ MAX_IDENTITY_BYTES) :
    Prog.RunsOn (identityMachine ι protector allowed) i (IdentityStore.loadOrCreate publicKey) w
      (.ok identity)
        { w.afterSave publicKey identity ciphertext (.ok ()) with holder := none } := by
  have hsave : Prog.RunsOn (identityMachine ι protector allowed) i
      (IdentityStore.saveLocked publicKey identity) { w with holder := some i } (.ok ()) _ :=
    runs_saveLocked (.ok ()) hprotects hsize
  have hcreate : Prog.RunsOn (identityMachine ι protector allowed) i
      (IdentityStore.loadOrCreateLocked publicKey) { w with holder := some i } (.ok identity) _ :=
    .bind hload (.op (b := identity) ⟨halias, hnamespace, rfl⟩ (.seq hsave (.ret _ _)))
  have hrun := runs_locked hfree rfl hcreate
  exact hrun

/-- A thread that has called what it may, and is to call again. -/
def Ready (publicKey : Seed → PublicKey) (i : ι) (s : Pool IdentityOp ι (IdentityWorld ι)) : Prop :=
  ∃ p, s.threads i = some p ∧ p.Covers (IdentityStore.calls publicKey)

/-- A thread may call. -/
theorem reachable_call {init : IdentityWorld ι → Prop} {s : Pool IdentityOp ι (IdentityWorld ι)}
    (h : (identitySystem ι protector publicKey allowed init).Reachable s)
    (hready : Ready publicKey i s) (call : IdentityCall) (hallowed : allowed call)
    (hrun : Prog.RunsOn (identityMachine ι protector allowed) i
      (IdentityStore.carryOut publicKey call) s.world () w') :
    ∃ t, (identitySystem ι protector publicKey allowed init).Reachable t ∧ t.world = w' ∧
      Ready publicKey i t := by
  obtain ⟨p, hp, hcovers⟩ := hready
  exact Pool.reachable_pass h hp hcovers
    (.bind (.perform (b := call) ⟨hallowed, rfl⟩) (.bind hrun (.ret _ _)))

end Runs

/-! ## A store in use -/

namespace UsedStore

def identity : DeviceIdentity where
  deviceId := ⟨123456789, DeviceId.ascending_inRange⟩
  deviceAlias := none
  deviceNamespace := none
  keypair := .replicate 32 1

/-- The public key of the identity. -/
def key : PublicKey :=
  #v[138, 136, 227, 221, 116, 9, 241, 149, 253, 82, 219, 45, 60, 186, 93, 114,
    202, 103, 9, 191, 29, 148, 18, 27, 243, 116, 136, 1, 180, 15, 111, 92]

def publicKey (seed : Seed) : PublicKey := if seed = identity.keypair then key else .replicate 32 0

/-- What `CryptProtectData` returns here. -/
def sealed (plaintext context : List UInt8) : List UInt8 := 1 :: (context ++ plaintext.reverse)

def protectData (plaintext context : List UInt8) (result : CryptResult) : Prop :=
  ∃ short, result = .data (sealed plaintext context) short

def unprotectData (calls : List Protection) (ciphertext context : List UInt8) : CryptResult :=
  match calls.find? fun call => call.ciphertext = ciphertext ∧ call.context = context ∧
      ciphertext = sealed call.plaintext context with
  | some call =>
    if short : call.plaintext.length < 2 ^ 32 then .data call.plaintext short else .null
  | none => .failed "The data is invalid. (os error 13)"

def protector : KeyProtector := userDpapi protectData unprotectData

theorem protects_iff {plaintext context ciphertext : List UInt8} :
    protector.Protects ⟨plaintext, context, ciphertext⟩ ↔
      (plaintext.length < 2 ^ 32 ∧ context.length < 2 ^ 32) ∧ ciphertext.length < 2 ^ 32 ∧
        ciphertext = sealed plaintext context := by
  constructor
  · rintro ⟨_, ⟨short, rfl⟩, hresult⟩
    obtain ⟨hlengths, _, hdata⟩ := transform_ok.mp hresult
    obtain rfl : sealed plaintext context = ciphertext := CryptResult.data.inj hdata
    exact ⟨hlengths, short, rfl⟩
  · rintro ⟨hlengths, short, rfl⟩
    exact ⟨_, ⟨short, rfl⟩, transform_ok.mpr ⟨hlengths, short, rfl⟩⟩

theorem sealed_injective (context : List UInt8) :
    Function.Injective fun plaintext => sealed plaintext context := by
  intro plaintext plaintext' h
  exact List.reverse_injective (List.append_cancel_left (List.cons.inj h).2)

/-- The protector is authenticated encryption. -/
theorem authenticated : AuthenticatedEncryption protector where
  authentic calls ciphertext context plaintext h := by
    obtain ⟨-, short, hdata⟩ := transform_ok.mp h
    unfold unprotectData at hdata
    split at hdata
    · rename_i call hfind
      have hcall := List.find?_some hfind
      simp only [decide_eq_true_eq] at hcall
      obtain ⟨rfl, rfl, -⟩ := hcall
      split at hdata
      · cases hdata
        exact List.mem_of_find?_eq_some hfind
      · cases hdata
    · cases hdata
  correct calls call hprotects hmem := by
    obtain ⟨hlengths, short, hsealed⟩ := protects_iff.mp hprotects
    refine transform_ok.mpr ⟨⟨short, hlengths.2⟩, hlengths.1, ?_⟩
    unfold unprotectData
    split
    · rename_i other hfind
      have hother := List.find?_some hfind
      simp only [decide_eq_true_eq] at hother
      have hplaintext := sealed_injective call.context (hsealed.symm.trans hother.2.2)
      simp only [← hplaintext, hlengths.1, dite_true]
    · rename_i hnone
      have hcall := List.find?_eq_none.mp hnone call hmem
      simp [← hsealed] at hcall
  ciphertext_ne call hprotects := by
    rw [(protects_iff.mp hprotects).2.2]
    exact List.cons_ne_nil _ _

/-- A file without names is short. -/
theorem length_code_le (persisted : PersistedIdentity) (halias : persisted.deviceAlias = none)
    (hnamespace : persisted.deviceNamespace = none)
    (hseed : persisted.protectedSeed.length < 128 ^ 2) :
    persisted.code.length ≤ 44 + persisted.protectedSeed.length := by
  have hversion := length_varint_le (k := 2) (n := persisted.version.toNat)
    (by have := persisted.version.toNat_lt; omega)
  have hid := length_varint_le (k := 4) (n := persisted.deviceId.value) (by
    have := persisted.deviceId.inRange
    simp only [MIN_DEVICE_ID, DEVICE_ID_SPAN] at this
    omega)
  have hlength := length_varint_le (k := 1) hseed
  simp only [PersistedIdentity.code, halias, hnamespace, optionCode, List.length_append,
    List.length_singleton, Vector.length_toList]
  omega

/-- The seed of the identity, protected. -/
def protectedSeed : List UInt8 := sealed identity.keypair.toList (identity.context publicKey).code

theorem length_context_le : (identity.context publicKey).code.length ≤ 44 := by
  have hshort := length_code_le (identity.persisted publicKey []) rfl rfl
    (by simp [DeviceIdentity.persisted])
  simp only [PersistedIdentity.code, DeviceIdentity.persisted, List.length_append,
    List.length_nil] at hshort
  simp only [ProtectionContext.code, DeviceIdentity.context, List.length_append]
  omega

theorem length_protectedSeed_le : protectedSeed.length ≤ 77 := by
  have := length_context_le
  simp only [protectedSeed, sealed, List.length_cons, List.length_append, List.length_reverse,
    Vector.length_toList]
  omega

theorem protects_identity : protector.Protects (identity.protection publicKey protectedSeed) := by
  have hcontext := length_context_le
  have hseed := length_protectedSeed_le
  refine protects_iff.mpr ⟨⟨?_, by omega⟩, by omega, rfl⟩
  rw [Vector.length_toList]
  omega

theorem length_file_le :
    (identity.persisted publicKey protectedSeed).code.length ≤ MAX_IDENTITY_BYTES := by
  have hseed := length_protectedSeed_le
  have hfile := length_code_le (identity.persisted publicKey protectedSeed) rfl rfl
    (by change protectedSeed.length < _; omega)
  apply hfile.trans
  change 44 + protectedSeed.length ≤ 64 * 1024
  omega

theorem parses_file : parseIdentity (identity.persisted publicKey protectedSeed).code =
    .ok (identity.persisted publicKey protectedSeed) :=
  parseIdentity_code length_file_le rfl (authenticated.ciphertext_ne _ protects_identity)

/-- Nothing was done, and there is no file. -/
def empty : IdentityWorld Unit :=
  { file := none
    holder := none
    protections := []
    called := []
    saved := []
    loaded := []
    obtained := [] }

/-- The world after `save`. -/
def afterSave (r : Except IoError Unit) : IdentityWorld Unit :=
  empty.afterSave publicKey identity protectedSeed r

theorem runs_save (r : Except IoError Unit) {allowed : IdentityCall → Prop} :
    Prog.RunsOn (identityMachine Unit protector allowed) () (IdentityStore.save publicKey identity)
      empty (r.mapError .io) (afterSave r) := by
  have hrun : Prog.RunsOn (identityMachine Unit protector allowed) ()
      (IdentityStore.saveLocked publicKey identity) { empty with holder := some () }
      (r.mapError .io) _ :=
    runs_saveLocked r protects_identity length_file_le
  rcases r with e | ⟨⟩ <;> exact runs_locked rfl rfl hrun

/-- The identity is loaded once it is in the file and its seed was protected. -/
theorem runs_loadIdentity {allowed : IdentityCall → Prop} {w : IdentityWorld Unit}
    (hfile : w.file = some (identity.persisted publicKey protectedSeed).code)
    (hmem : identity.protection publicKey protectedSeed ∈ w.protections) :
    Prog.RunsOn (identityMachine Unit protector allowed) () (IdentityStore.load publicKey) w
      (.ok identity) w := by
  have hrun : Prog.RunsOn (identityMachine Unit protector allowed) ()
      (IdentityStore.load publicKey) w _ w :=
    runs_load hfile parses_file (authenticated.correct _ _ protects_identity hmem)
  have hunlock : (identity.persisted publicKey protectedSeed).unlock publicKey
      (identity.protection publicKey protectedSeed).plaintext = .ok identity :=
    unlock_persisted identity protectedSeed
  rwa [Except.bind, hunlock] at hrun

/-- A save, whatever becomes of the file, and a load of what it wrote. -/
theorem loads_identity (r : Except IoError Unit) : ∃ s,
    (identitySystem Unit protector publicKey (fun _ => True) New).Reachable s ∧
      .ok identity ∈ s.world.loaded ∧ s.world.saved = (afterSave r).saved := by
  have hinit : (identitySystem Unit protector publicKey (fun _ => True) New).Reachable
      ⟨empty, fun _ => some (IdentityStore.calls publicKey)⟩ :=
    .init ⟨⟨rfl, rfl, rfl, rfl, rfl, rfl⟩, rfl⟩
  obtain ⟨s, hs, hsave, hready⟩ := reachable_call hinit ⟨_, rfl, fun _ _ _ _ h => h⟩
    (.save identity) trivial (.bind (runs_save r) (.ret _ _))
  have hmem : identity.protection publicKey protectedSeed ∈ s.world.protections := by
    rw [hsave]
    rcases r with e | ⟨⟩ <;> exact List.mem_singleton.mpr rfl
  -- the bytes that were written are put in place
  obtain ⟨t, ht, htamper, hready⟩ := reachable_call hs hready
    (.tamper (some (identity.persisted publicKey protectedSeed).code)) trivial
    (.perform rfl)
  obtain ⟨u, hu, hload, -⟩ := reachable_call ht hready .load trivial
    (.bind (runs_loadIdentity (by rw [htamper]) (by rwa [htamper])) (.perform rfl))
  refine ⟨u, hu, ?_, ?_⟩
  · rw [hload]
    exact List.mem_append_right _ (List.mem_singleton.mpr rfl)
  · rw [hload, htamper, hsave]

theorem runs_saveAndLoad : Prog.RunsOn (identityMachine Unit protector fun _ => True) ()
    (saveAndLoad publicKey identity) empty (.ok (), .ok identity) (afterSave (.ok ())) :=
  .bind (runs_save (.ok ()))
    (.bind (runs_loadIdentity rfl (List.mem_singleton.mpr rfl)) (.ret _ _))

/-- An identity is created, where there is no file. -/
theorem obtains_identity : ∃ s,
    (identitySystem Unit protector publicKey IdentityCall.Reading (Resting protector)).Reachable s ∧
      s.world.file ≠ none ∧ .ok identity ∈ s.world.obtained := by
  have hinit : (identitySystem Unit protector publicKey IdentityCall.Reading
      (Resting protector)).Reachable ⟨empty, fun _ => some (IdentityStore.calls publicKey)⟩ :=
    .init ⟨⟨rfl, rfl, fun _ hmem => absurd hmem List.not_mem_nil⟩, rfl⟩
  have hcreate : Prog.RunsOn (identityMachine Unit protector IdentityCall.Reading) ()
      (IdentityStore.loadOrCreate publicKey) empty (.ok identity) _ :=
    runs_create rfl (runs_loadMissing rfl) rfl rfl protects_identity length_file_le
  obtain ⟨s, hs, hworld, -⟩ := reachable_call hinit ⟨_, rfl, fun _ _ _ _ h => h⟩
    .loadOrCreate trivial (.bind hcreate (.perform rfl))
  refine ⟨s, hs, ?_, ?_⟩
  · rw [hworld]
    exact Option.some_ne_none _
  · rw [hworld]
    exact List.mem_append_right _ (List.mem_singleton.mpr rfl)

/-- The identity is loaded, and obtained, and stays. -/
theorem identity_stays :
    (∃ s, (identitySystem Unit protector publicKey (fun _ => True) New).Reachable s ∧
      .ok identity ∈ s.world.loaded ∧ Bound publicKey identity s.world) ∧
    (∃ w w' loaded, Prog.RunsOn (identityMachine Unit protector fun _ => True) ()
      (saveAndLoad publicKey identity) w (.ok (), loaded) w' ∧ Returned identity loaded) ∧
    ∃ s, (identitySystem Unit protector publicKey IdentityCall.Reading
        (Resting protector)).Reachable s ∧ s.world.file ≠ none ∧
      (∀ i t, (identitySystem Unit protector publicKey IdentityCall.Reading
        (Resting protector)).step s i t →
          t.world.file = s.world.file ∧ t.world.called = s.world.called) ∧
      .ok identity ∈ s.world.obtained ∧
        ∀ other, .ok other ∈ s.world.obtained → identity = other := by
  obtain ⟨hbound, hreturned, hkept⟩ := identity_is_kept Unit protector publicKey authenticated
  obtain ⟨s, hs, hloaded, -⟩ := loads_identity (.ok ())
  obtain ⟨t, ht, hfile, hobtained⟩ := obtains_identity
  obtain ⟨hstep, hsame⟩ := hkept (fun _ _ _ => transform_ne_io _ _ _ _) t ht
  exact ⟨⟨s, hs, hloaded, hbound s hs identity (List.mem_append_left _ hloaded)⟩,
    ⟨_, _, _, runs_saveAndLoad, hreturned _ _ _ _ _ runs_saveAndLoad rfl⟩,
    t, ht, hfile, fun i u hu => hstep i u hu hfile, hobtained,
    fun other => hsame identity other hobtained⟩

/-! ### What the store does not keep -/

/-- A protector that reports any failure as a file that was not found. -/
def reportsNotFound : KeyProtector where
  Protects := protector.Protects
  unprotect calls ciphertext context :=
    (protector.unprotect calls ciphertext context).mapError fun _ => .io .notFound

theorem reportsNotFound_authenticated : AuthenticatedEncryption reportsNotFound where
  authentic calls ciphertext context plaintext h := by
    change (protector.unprotect calls ciphertext context).mapError _ = _ at h
    cases hresult : protector.unprotect calls ciphertext context with
    | error e =>
      rw [hresult] at h
      cases h
    | ok seed =>
      rw [hresult] at h
      cases h
      exact authenticated.authentic _ _ _ _ hresult
  correct calls call hprotects hmem := by
    change (protector.unprotect calls call.ciphertext call.context).mapError _ = _
    rw [authenticated.correct calls call hprotects hmem]
    rfl
  ciphertext_ne := authenticated.ciphertext_ne

/-- The identity of another device. -/
def other : DeviceIdentity := { identity with deviceId := ⟨987654321, DeviceId.descending_inRange⟩ }

/-- Its file, whose seed nobody here has protected. -/
def foreign : IdentityWorld Unit := { empty with file := some (other.persisted publicKey [1]).code }

theorem parses_foreign : parseIdentity (other.persisted publicKey [1]).code =
    .ok (other.persisted publicKey [1]) := by
  refine parseIdentity_code ?_ rfl (List.cons_ne_nil _ _)
  have hfile := length_code_le (other.persisted publicKey [1]) rfl rfl
    (by change 1 < _; omega)
  apply hfile.trans
  change 44 + 1 ≤ 64 * 1024
  omega

/-- `load` reports that the file was not found, which is there. -/
theorem runs_loadForeign {allowed : IdentityCall → Prop} :
    Prog.RunsOn (identityMachine Unit reportsNotFound allowed) () (IdentityStore.load publicKey)
      { foreign with holder := some () } (.error (.io .notFound))
      { foreign with holder := some () } := by
  refine runs_load (r := Except.error (.io .notFound)) rfl parses_foreign ?_
  change (protector.unprotect [] _ _).mapError _ = _
  cases hresult : protector.unprotect [] (other.persisted publicKey [1]).protectedSeed
      (other.persisted publicKey [1]).context.code with
  | error e => rfl
  | ok seed => exact absurd (authenticated.authentic _ _ _ _ hresult) List.not_mem_nil

/-- A save that fails in the end has protected the seed already, and what it wrote is loaded if it
comes into the place of the file. And a protector may make `load_or_create` replace a file. -/
theorem not_saved_and_replaced :
    (AuthenticatedEncryption protector ∧
      ∃ s, (identitySystem Unit protector publicKey (fun _ => True) New).Reachable s ∧
        .ok identity ∈ s.world.loaded ∧ s.world.saved = []) ∧
    AuthenticatedEncryption reportsNotFound ∧
      ∃ w w', Prog.RunsOn (identityMachine Unit reportsNotFound fun _ => True) ()
        (IdentityStore.loadOrCreate publicKey) w (.ok identity) w' ∧
          w.file ≠ none ∧ w'.file ≠ w.file := by
  refine ⟨⟨authenticated, ?_⟩, reportsNotFound_authenticated, foreign, _,
    runs_create rfl runs_loadForeign rfl rfl protects_identity length_file_le,
    Option.some_ne_none _, fun hsame => ?_⟩
  · obtain ⟨s, hs, hloaded, hsaved⟩ := loads_identity (.error .other)
    exact ⟨s, hs, hloaded, hsaved⟩
  · have hcode : (identity.persisted publicKey protectedSeed).code =
        (other.persisted publicKey [1]).code := Option.some.inj hsame
    have hparse := parses_file
    rw [hcode, parses_foreign] at hparse
    have hid := congrArg (fun persisted => persisted.deviceId.value) (Except.ok.inj hparse)
    exact absurd hid (by decide)

end UsedStore

end SensorRemote.Identity
