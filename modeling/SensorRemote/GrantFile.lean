import SensorRemote.Authority
import SensorRemote.IdentityStore
import SensorRemote.Lib.JsonText

/-!
# The file of the unattended grant

`unattended.rs` (`sensor-desktop`) keeps the one grant of a profile in a file, protected for
the local key. The window loads it when it starts, saves it when the user allows a contact or
revokes, and is the only window of the profile by a lock (`run`, `ui.rs`). A window is a
thread, and so are its workers; a window may vanish between any two operations. Anybody may
write anything to the file, in particular what was there before.
-/

namespace SensorRemote.Unattended

open Bytes JsonText Program Identity Transition

/-- `MAX_BYTES`. -/
def MAX_BYTES : ℕ := 16384

/-- The errors of `load` and `save`, which the source turns into texts. -/
inductive GrantError where
  | io (error : IoError)
  | protection (error : IdentityError)
  | json (text : String)
  | message (text : String)
  deriving DecidableEq

/-- `serde_json::to_vec`, which does not fail on a grant. -/
def toVec : Option Grant → List UInt8
  | none => utf8 "null"
  | some grant =>
    object [("device_id", number grant.deviceId.value),
      ("public_key", numbers (grant.publicKey.toList.map UInt8.toNat)),
      ("issued_unix", number grant.issuedUnix),
      ("expires_unix", number grant.expiresUnix)]

/-- `serde_json::from_slice`. -/
abbrev GrantReader := List UInt8 → Except String (Option Grant)

/-- What was written is read back. The dates of a grant are 64-bit numbers. -/
def GrantReader.Laws (json : GrantReader) : Prop :=
  ∀ grant : Option Grant,
    (∀ g, grant = some g → g.issuedUnix < 2 ^ 64 ∧ g.expiresUnix < 2 ^ 64) →
    json (toVec grant) = .ok grant

/-- What the window does next. -/
inductive WindowAction (σ ε : Type) where
  /-- anything that leaves the stored authority alone -/
  | app (label : AppLabel σ ε)
  /-- the button that grants a contact unattended access -/
  | allow (contact : Contact)
  /-- the button that revokes -/
  | revoke
  | close

/-- What others do. -/
inductive OutsideAction where
  /-- somebody puts something in place of the file -/
  | tamper (file : Option (List UInt8))
  /-- the protector is used for something else -/
  | protects (protection : Protection)

/-- The steps of a window, its workers and others. -/
inductive ProfileOp (σ ε : Type) : Type → Type where
  /-- `try_lock_exclusive` on `desktop.lock` -/
  | lock : ProfileOp σ ε (Except IoError Unit)
  /-- `run` returns -/
  | leave : ProfileOp σ ε Unit
  /-- `File::open` and `take(limit).read_to_end` -/
  | openFile (limit : ℕ) : ProfileOp σ ε (Except IoError (List UInt8))
  | unprotect (ciphertext context : List UInt8) :
      ProfileOp σ ε (Except IdentityError (List UInt8))
  | protect (plaintext context : List UInt8) :
      ProfileOp σ ε (Except IdentityError (List UInt8))
  /-- the temporary file, written and synchronized -/
  | writeTemporary (bytes : List UInt8) : ProfileOp σ ε (Except IoError Unit)
  /-- the temporary file takes the place of the file -/
  | persist (bytes : List UInt8) : ProfileOp σ ε (Except IoError Unit)
  /-- the window is there -/
  | start (unattended : Option Grant) : ProfileOp σ ε Unit
  | next : ProfileOp σ ε (WindowAction σ ε)
  /-- `updates::now` -/
  | now : ProfileOp σ ε (Except GrantError ℕ)
  /-- the user has allowed a contact -/
  | allows (contact : Contact) (now : ℕ) (grant : Grant) : ProfileOp σ ε Unit
  /-- `self.unattended = Some(grant)` -/
  | adopt (contact : Contact) (now : ℕ) : ProfileOp σ ε Unit
  /-- a worker moves -/
  | work : ProfileOp σ ε (AppLabel σ ε)
  | outside : ProfileOp σ ε OutsideAction

abbrev ProfileProg (σ ε α : Type) := Fallible (ProfileOp σ ε) GrantError α

section Programs

variable {σ ε : Type} (json : GrantReader) (localKey : PublicKey)

/-- The context a grant is protected in. -/
def context : List UInt8 := GRANT_CONTEXT ++ localKey.toList

/-- `load`, once the file is read. -/
def loadBytes (bytes : List UInt8) : ProfileProg σ ε (Option Grant) := do
  Fallible.check (bytes.length ≤ MAX_BYTES)
    (.message "Unattended settings exceed the size limit")
  let data ← (Fallible.attempt (.unprotect bytes (context localKey))).mapError fun _ =>
    .message "Unattended authority could not be authenticated; access is disabled"
  Fallible.check (data.length ≤ MAX_BYTES) (.message "Unattended grant is malformed")
  let grant ← Fallible.ofExcept ((json data).mapError .json)
  Fallible.check (grant.all (·.valid)) (.message "Invalid unattended grant")
  return grant

/-- `load`. -/
def load : ProfileProg σ ε (Option Grant) :=
  Prog.op (.openFile (MAX_BYTES + 1)) fun
    | .error .notFound => .ret (.ok none)
    | .error error => .ret (.error (.io error))
    | .ok bytes => loadBytes json localKey bytes

/-- `save`. -/
def save (grant : Option Grant) : ProfileProg σ ε Unit := do
  Fallible.check (grant.all (·.valid)) (.message "Invalid unattended grant")
  let ciphertext ←
    (Fallible.attempt (.protect (toVec grant) (context localKey))).mapError .protection
  Fallible.check (ciphertext.length ≤ MAX_BYTES)
    (.message "Protected grant exceeds the size limit")
  (Fallible.attempt (.writeTemporary ciphertext)).mapError .io
  (Fallible.attempt (.persist ciphertext)).mapError .io

/-- The user allows a contact. -/
def allow (contact : Contact) : ProfileProg σ ε Unit := do
  let device ← Fallible.ofExcept ((peer contact.id contact.key).mapError .message)
  let now ← Fallible.attempt .now
  let grant ← Fallible.ofExcept ((Grant.new device now).mapError .message)
  Fallible.perform (.allows contact now grant)
  save localKey (some grant)
  Fallible.perform (.adopt contact now)

/-- What a window does with the next action. Revoking takes the authority away at once. -/
def act : WindowAction σ ε → Prog (ProfileOp σ ε) (Unit ⊕ Unit)
  | .app _ => .ret (.inl ())
  | .allow contact => Prog.bind (allow localKey contact) fun _ => .ret (.inl ())
  | .revoke => Prog.bind (save localKey none) fun _ => .ret (.inl ())
  | .close => .ret (.inr ())

/-- The part of `run` after the lock. -/
def runLocked : Prog (ProfileOp σ ε) Unit :=
  Prog.bind (load json localKey) fun
    | .error _ => .perform .leave
    | .ok unattended => .op (.start unattended) fun _ =>
        .loop () (fun _ => .op .next (act localKey)) fun _ => .perform .leave

/-- `run`. -/
def run : Prog (ProfileOp σ ε) Unit :=
  .op .lock fun
    | .error _ => .ret ()
    | .ok () => runLocked json localKey

/-- The threads of a profile: the windows that are ever opened, the workers of each, and
others. -/
inductive ProfileThread where
  | window (n : ℕ)
  | workers (n : ℕ)
  | outside
  deriving DecidableEq

/-- The window a thread is of. -/
def ProfileThread.window? : ProfileThread → Option ℕ
  | .window n | .workers n => some n
  | .outside => none

/-- What the threads run. -/
def threads : ProfileThread → Prog (ProfileOp σ ε) Unit
  | .window _ => run json localKey
  | .workers _ => Prog.forever () fun _ => .op .work fun _ => .ret (.inl ())
  | .outside => Prog.forever () fun _ => .op .outside fun _ => .ret (.inl ())

end Programs

/-! ## The world of a profile -/

/-- The user has allowed a contact, when the clock showed `now`. -/
structure Authorization where
  contact : Contact
  now : ℕ
  grant : Grant

/-- The lock of a profile, the window that is open, the file, and what has happened. -/
structure Profile where
  holder : Option ℕ
  app : Option App
  file : Option (List UInt8)
  protections : List Protection
  allowed : List Authorization

section Labels

variable {σ ε : Type}

/-- The steps of workers. -/
def OfWorkers : AppLabel σ ε → Prop
  | .connect .. | .request .. | .receive .. | .giveUp .. | .emit .. => True
  | _ => False

/-- The steps of the window that leave the stored authority alone. -/
def OfWindow : AppLabel σ ε → Prop
  | .allow .. | .revoke => False
  | label => ¬OfWorkers label

/-- The button for a contact can be clicked. -/
structure Clickable (contact : Contact) (s : App) : Prop where
  polled : s.polled = []
  consent : s.consent = none
  known : contact ∈ s.contacts
  job : s.job = none
  idle : s.listenerBusy = false

end Labels

section World

variable {σ ι ε : Type} (p : Primitives PublicKey σ ι ε) (isAddress : String → Bool)
  (identity : ι) (deviceId : DeviceId) (protector : KeyProtector) (foreign : Protection → Prop)

/-- A window that has just been opened. -/
def opened (contacts : List Contact) (unattended : Option Grant) : App where
  contacts
  unattended
  consent := none
  job := none
  listener := none
  listenerBusy := false
  polled := []
  workers _ := none
  requests _ := none

/-- What a step of a thread may answer, and what it does. What others use the protector for is in
`foreign`. -/
def Profile.Does (i : ProfileThread) (w : Profile) :
    {β : Type} → ProfileOp σ ε β → β → Profile → Prop
  | _, .lock, .ok (), w' => w.holder = none ∧ w' = { w with holder := i.window? }
  | _, .leave, (), w' => w' = { w with holder := none, app := none }
  | _, .openFile limit, .ok bytes, w' =>
      (∃ contents, w.file = some contents ∧ bytes = contents.take limit) ∧ w' = w
  | _, .openFile _, .error error, w' => (error = .notFound → w.file = none) ∧ w' = w
  | _, .unprotect ciphertext context, result, w' =>
      result = protector.unprotect w.protections ciphertext context ∧ w' = w
  | _, .protect plaintext context, .ok ciphertext, w' =>
      protector.Protects ⟨plaintext, context, ciphertext⟩ ∧
        w' = { w with protections := w.protections ++ [⟨plaintext, context, ciphertext⟩] }
  | _, .persist bytes, .ok (), w' => w' = { w with file := some bytes }
  | _, .start unattended, (), w' => ∃ contacts, validateContacts isAddress contacts = .ok () ∧
      w' = { w with app := some (opened contacts unattended) }
  | _, .next, .app label, w' => OfWindow label ∧ ∃ s s', w.app = some s ∧
      (appSystem p isAddress identity deviceId).step s label s' ∧ w' = { w with app := some s' }
  | _, .next, .allow contact, w' => (∃ s, w.app = some s ∧ Clickable contact s) ∧ w' = w
  | _, .next, .revoke, w' => ∃ s s', w.app = some s ∧
      (appSystem p isAddress identity deviceId).step s .revoke s' ∧ w' = { w with app := some s' }
  | _, .allows contact now grant, (), w' =>
      w' = { w with allowed := w.allowed ++ [⟨contact, now, grant⟩] }
  | _, .adopt contact now, (), w' => ∃ s, w.app = some s ∧
      w' = { w with app := some (s.allow contact now true) }
  | _, .work, label, w' => OfWorkers label ∧ w.holder = i.window? ∧ ∃ s s', w.app = some s ∧
      (appSystem p isAddress identity deviceId).step s label s' ∧ w' = { w with app := some s' }
  | _, .outside, .tamper file, w' => w' = { w with file }
  | _, .outside, .protects protection, w' => foreign protection ∧
      w' = { w with protections := w.protections ++ [protection] }
  | _, .lock, .error _, w' | _, .protect _ _, .error _, w' | _, .writeTemporary _, _, w'
  | _, .persist _, .error _, w' | _, .next, .close, w' | _, .now, _, w' => w' = w

/-- A profile as a machine. With a window goes its lock. -/
def profileMachine : Machine (ProfileOp σ ε) ProfileThread Profile where
  step i w _ o b w' := w.Does p isAddress identity deviceId protector foreign i o b w'
  vanish i w w' :=
    match i with
    | .window n =>
      w' = if w.holder = some n then { w with holder := none, app := none } else w
    | _ => w' = w

/-- A profile in which nobody has been allowed anything yet. -/
def Profile.Initial (w : Profile) : Prop :=
  w.holder = none ∧ w.app = none ∧ w.allowed = [] ∧
    ∀ protection ∈ w.protections, foreign protection

/-- The windows of a profile, their workers, and others. -/
def profileSystem (localKey : PublicKey) (json : GrantReader) :
    LTS (Pool (ProfileOp σ ε) ProfileThread Profile) ProfileThread :=
  pool (profileMachine p isAddress identity deviceId protector foreign) (threads json localKey)
    (Profile.Initial foreign)

end World

end SensorRemote.Unattended
