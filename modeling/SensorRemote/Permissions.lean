import Mathlib.Data.Nat.Bitwise
import Mathlib.Tactic.Common

/-!
# Permissions and consent

A permission is a bit of a 64-bit word (`sensor-session`, `permissions.rs`). A word with
bits no permission stands for cannot be made, which is a field of `Permissions`.
`Consent` is what the owner of an endpoint has granted of what a peer asked for.
-/

namespace SensorRemote

/-- `Permission`. -/
inductive Permission where
  | audio
  | input
  | clipboardText
  | clipboardFiles
  | fileManager
  | printing
  | restart
  | lock
  | secureAttention
  | systemInformation
  | whiteboard
  | tcpTunnel
  | vpn
  | privacy
  | recording
  | blockLocalInput
  | remotePointer
  | viewDesktop
  | chat
  deriving DecidableEq, Repr

/-- The bit of a permission, `permission as u8`. -/
def Permission.bit : Permission → ℕ
  | audio => 0
  | input => 1
  | clipboardText => 2
  | clipboardFiles => 3
  | fileManager => 4
  | printing => 5
  | restart => 6
  | lock => 7
  | secureAttention => 8
  | systemInformation => 9
  | whiteboard => 10
  | tcpTunnel => 11
  | vpn => 12
  | privacy => 13
  | recording => 14
  | blockLocalInput => 15
  | remotePointer => 16
  | viewDesktop => 17
  | chat => 18

theorem Permission.bit_lt (permission : Permission) : permission.bit < 19 := by
  cases permission <;> decide

theorem Permission.bit_inj {p q : Permission} (h : p.bit = q.bit) : p = q := by
  cases p <;> cases q <;> first | rfl | cases h

/-- `Permissions`: a word all of whose bits are permissions. -/
@[ext] structure Permissions where
  bits : ℕ
  /-- no bit beyond `VALID_BITS` -/
  valid : bits < 2 ^ 19
  deriving DecidableEq

namespace Permissions

/-- `Permissions::NONE`. -/
def none : Permissions := ⟨0, by decide⟩

/-- `Permissions::of`. -/
def of (values : List Permission) : Permissions where
  bits := values.foldr (fun p bits => bits ||| 2 ^ p.bit) 0
  valid := by
    induction values with
    | nil => exact Nat.two_pow_pos 19
    | cons p values ih =>
      exact Nat.or_lt_two_pow ih (Nat.pow_lt_pow_right (by decide) p.bit_lt)

/-- `Permissions::allows`. -/
def allows (permissions : Permissions) (permission : Permission) : Bool :=
  permissions.bits.testBit permission.bit

/-- `Permissions::is_subset_of`. -/
def isSubsetOf (permissions maximum : Permissions) : Bool :=
  permissions.bits &&& (2 ^ 19 - 1 - maximum.bits) = 0

/-- What `of` makes allows exactly the permissions listed. -/
@[simp] theorem allows_of (values : List Permission) (permission : Permission) :
    (of values).allows permission = true ↔ permission ∈ values := by
  induction values with
  | nil => simp [of, allows]
  | cons p values ih =>
    have hbit : (2 ^ p.bit).testBit permission.bit = true ↔ permission = p := by
      rw [Nat.testBit_two_pow]
      simp only [decide_eq_true_eq]
      exact ⟨fun h => (Permission.bit_inj h).symm, fun h => by rw [h]⟩
    have hcons : (of (p :: values)).allows permission =
        ((of values).allows permission || (2 ^ p.bit).testBit permission.bit) := Nat.testBit_or ..
    rw [hcons, Bool.or_eq_true, ih, hbit, List.mem_cons, or_comm]

@[simp] theorem not_allows_none (permission : Permission) :
    none.allows permission = false := Nat.zero_testBit _

theorem exists_bit {i : ℕ} (h : i < 19) : ∃ permission : Permission, permission.bit = i := by
  have hall : ∀ i < 19, ∃ permission ∈ [Permission.audio, .input, .clipboardText, .clipboardFiles,
      .fileManager, .printing, .restart, .lock, .secureAttention, .systemInformation, .whiteboard,
      .tcpTunnel, .vpn, .privacy, .recording, .blockLocalInput, .remotePointer, .viewDesktop,
      .chat], permission.bit = i := by decide
  obtain ⟨permission, -, hbit⟩ := hall i h
  exact ⟨permission, hbit⟩

/-- The subset test on words is inclusion of the permissions they allow. -/
theorem isSubsetOf_iff {permissions maximum : Permissions} :
    permissions.isSubsetOf maximum = true ↔
      ∀ permission, permissions.allows permission = true → maximum.allows permission = true := by
  have hcomplement : ∀ i, (2 ^ 19 - 1 - maximum.bits).testBit i =
      (decide (i < 19) && !maximum.bits.testBit i) := by
    intro i
    have hsub : 2 ^ 19 - 1 - maximum.bits = 2 ^ 19 - (maximum.bits + 1) := by omega
    rw [hsub, Nat.testBit_two_pow_sub_succ maximum.valid]
  constructor
  · intro h permission hallows
    have hzero : permissions.bits &&& (2 ^ 19 - 1 - maximum.bits) = 0 := by
      simpa [isSubsetOf] using h
    have hbit := congrArg (·.testBit permission.bit) hzero
    simp only [Nat.testBit_and, hcomplement, Nat.zero_testBit, permission.bit_lt] at hbit
    simpa [allows, show permissions.bits.testBit permission.bit = true from hallows] using hbit
  · intro h
    have hzero : permissions.bits &&& (2 ^ 19 - 1 - maximum.bits) = 0 := by
      apply Nat.eq_of_testBit_eq
      intro i
      rw [Nat.testBit_and, hcomplement, Nat.zero_testBit]
      by_cases hi : i < 19
      · obtain ⟨permission, rfl⟩ := exists_bit hi
        have himp := h permission
        simp only [allows] at himp
        cases hp : permissions.bits.testBit permission.bit <;> simp_all
      · have hlarge : permissions.bits.testBit i = false :=
          Nat.testBit_lt_two_pow
            (permissions.valid.trans_le (Nat.pow_le_pow_right (by decide) (by omega)))
        rw [hlarge, Bool.false_and]
    simpa [isSubsetOf] using hzero

/-- A word is a subset of itself. -/
theorem isSubsetOf_self (permissions : Permissions) : permissions.isSubsetOf permissions :=
  isSubsetOf_iff.mpr fun _ h => h

end Permissions

/-- `PermissionError`. -/
inductive PermissionError where
  | notAccepted
  | denied
  | unknownPermission
  | invalidTransition
  | escalation
  deriving DecidableEq, Repr

/-- `Display` of a permission error. -/
def PermissionError.display : PermissionError → String
  | .notAccepted => "session has not been accepted"
  | .denied => "operation is not granted by the endpoint"
  | .unknownPermission => "permission profile contains unknown bits"
  | .invalidTransition => "invalid session transition"
  | .escalation => "permission change exceeds the requested profile"

/-! ## Consent -/

/-- `ConsentState`. -/
inductive ConsentState where
  | pending
  | active
  | rejected
  | closed
  deriving DecidableEq, Repr

/-- `Consent`. -/
structure Consent where
  requested : Permissions
  granted : Permissions
  state : ConsentState
  deriving DecidableEq

namespace Consent

/-- `Consent::pending`. -/
def pending (requested : Permissions) : Consent := ⟨requested, .none, .pending⟩

/-- `Consent::accept`. -/
def accept (consent : Consent) (granted : Permissions) : Except PermissionError Consent :=
  if consent.state ≠ .pending then .error .invalidTransition
  else if !granted.isSubsetOf consent.requested then .error .escalation
  else .ok { consent with granted, state := .active }

/-- `Consent::reject`. -/
def reject (consent : Consent) : Except PermissionError Consent :=
  if consent.state ≠ .pending then .error .invalidTransition
  else .ok { consent with state := .rejected }

/-- `Consent::change_permissions`. -/
def changePermissions (consent : Consent) (granted : Permissions) :
    Except PermissionError Consent :=
  if consent.state ≠ .active then .error .invalidTransition
  else if !granted.isSubsetOf consent.requested then .error .escalation
  else .ok { consent with granted }

/-- `Consent::require`. -/
def require (consent : Consent) (permission : Permission) : Except PermissionError Unit :=
  if consent.state ≠ .active then .error .notAccepted
  else if !consent.granted.allows permission then .error .denied
  else .ok ()

/-- `Consent::close`. -/
def close (consent : Consent) : Consent := { consent with granted := .none, state := .closed }

/-- A requirement is met only by an active consent that grants the permission. -/
theorem require_eq_ok {consent : Consent} {permission : Permission} :
    consent.require permission = .ok () ↔
      consent.state = .active ∧ consent.granted.allows permission = true := by
  by_cases hstate : consent.state = .active <;>
    by_cases hallows : consent.granted.allows permission = true <;>
    simp [require, hstate, hallows]

/-- Everything asked for can be granted. -/
theorem accept_pending (requested : Permissions) :
    (pending requested).accept requested = .ok ⟨requested, requested, .active⟩ := by
  simp [accept, pending, requested.isSubsetOf_self]

/-- What was asked for can be refused. -/
theorem reject_pending (requested : Permissions) :
    (pending requested).reject = .ok ⟨requested, .none, .rejected⟩ := rfl

end Consent

end SensorRemote
