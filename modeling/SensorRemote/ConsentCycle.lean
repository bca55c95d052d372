import SensorRemote.Permissions
import Mathlib

/-!
# The life cycle of a consent

The calls that change a `Consent` are methods on a mutable value: a check that fails returns
before anything is assigned. Sequences of calls are followed from `Consent::pending`.
-/

namespace SensorRemote

/-- A method that may fail, on a mutable consent: what was assigned stays assigned. -/
abbrev ConsentMethod := EStateM PermissionError Consent Unit

/-- A call that changes a consent. -/
inductive ConsentCall where
  | accept (granted : Permissions)
  | reject
  | changePermissions (granted : Permissions)
  | close
  deriving DecidableEq

namespace ConsentCall

/-- The methods, assignment by assignment. -/
def perform : ConsentCall → ConsentMethod
  | accept granted => do
    if (← get).state ≠ .pending then throw .invalidTransition
    if !granted.isSubsetOf (← get).requested then throw .escalation
    modify fun consent => { consent with granted }
    modify fun consent => { consent with state := .active }
  | reject => do
    if (← get).state ≠ .pending then throw .invalidTransition
    modify fun consent => { consent with state := .rejected }
  | changePermissions granted => do
    if (← get).state ≠ .active then throw .invalidTransition
    if !granted.isSubsetOf (← get).requested then throw .escalation
    modify fun consent => { consent with granted }
  | close => do
    modify fun consent => { consent with granted := .none }
    modify fun consent => { consent with state := .closed }

/-- The result of a call, and the consent after it. -/
def run (call : ConsentCall) (consent : Consent) : Except PermissionError Unit × Consent :=
  match call.perform.run consent with
  | .ok _ consent => (.ok (), consent)
  | .error e consent => (.error e, consent)

/-- What a call makes of a consent, as a value. -/
def outcome (consent : Consent) : ConsentCall → Except PermissionError Consent
  | accept granted => consent.accept granted
  | reject => consent.reject
  | changePermissions granted => consent.changePermissions granted
  | close => .ok consent.close

/-- The methods assign nothing unless they succeed. -/
theorem run_eq (call : ConsentCall) (consent : Consent) :
    call.run consent = match outcome consent call with
      | .ok consent' => (.ok (), consent')
      | .error e => (.error e, consent) := by
  cases call with
  | accept granted =>
    by_cases hstate : consent.state = .pending <;>
      by_cases hsubset : granted.isSubsetOf consent.requested = true <;>
      simp [run, perform, outcome, Consent.accept, hstate, hsubset, EStateM.run, bind, EStateM.bind,
        get, getThe, MonadStateOf.get, EStateM.get, throw, throwThe, MonadExceptOf.throw,
        EStateM.throw, modify, modifyGet, MonadStateOf.modifyGet, EStateM.modifyGet]
  | reject =>
    by_cases hstate : consent.state = .pending <;>
      simp [run, perform, outcome, Consent.reject, hstate, EStateM.run, bind, EStateM.bind,
        get, getThe, MonadStateOf.get, EStateM.get, throw, throwThe, MonadExceptOf.throw,
        EStateM.throw, modify, modifyGet, MonadStateOf.modifyGet, EStateM.modifyGet]
  | changePermissions granted =>
    by_cases hstate : consent.state = .active <;>
      by_cases hsubset : granted.isSubsetOf consent.requested = true <;>
      simp [run, perform, outcome, Consent.changePermissions, hstate, hsubset, EStateM.run, bind,
        EStateM.bind, get, getThe, MonadStateOf.get, EStateM.get, throw, throwThe,
        MonadExceptOf.throw, EStateM.throw, modify, modifyGet, MonadStateOf.modifyGet,
        EStateM.modifyGet]
  | close => rfl

end ConsentCall

/-- A call with its result. -/
abbrev ConsentEvent := ConsentCall × Except PermissionError Unit

namespace Consent

/-- The consent after a sequence of calls, and what each returned. -/
def follow (consent : Consent) : List ConsentCall → List ConsentEvent × Consent
  | [] => ([], consent)
  | call :: calls =>
    let (result, consent) := call.run consent
    let (events, consent) := consent.follow calls
    ((call, result) :: events, consent)

end Consent

/-! ## What a sequence of calls establishes -/

/-- The set a call granted. -/
def grantOf : ConsentEvent → Option Permissions
  | (.accept granted, .ok ()) | (.changePermissions granted, .ok ()) => some granted
  | _ => none

/-- The set granted most recently. -/
def lastGranted (events : List ConsentEvent) : Permissions :=
  (events.filterMap grantOf).getLast?.getD .none

/-- An `accept` that succeeded. -/
def isAcceptance : ConsentEvent → Bool
  | (.accept _, .ok ()) => true
  | _ => false

/-- A `reject` or `close` that succeeded. -/
def isEnd : ConsentEvent → Bool
  | (.reject, .ok ()) | (.close, .ok ()) => true
  | _ => false

/-- A consent after the calls `events`. -/
structure Follows (requested : Permissions) (events : List ConsentEvent) (consent : Consent) :
    Prop where
  requested_eq : consent.requested = requested
  subset : consent.granted.isSubsetOf requested = true
  inactive : consent.state ≠ .active → consent.granted = .none
  granted : consent.state = .active → consent.granted = lastGranted events
  acceptances : events.countP isAcceptance ≤ 1
  unaccepted : consent.state = .pending → events.countP isAcceptance = 0
  ended : (∃ event ∈ events, isEnd event = true) → consent.state = .rejected ∨
    consent.state = .closed

variable {requested : Permissions} {events : List ConsentEvent} {consent consent' : Consent}

theorem none_subset (permissions : Permissions) : Permissions.none.isSubsetOf permissions = true :=
  Permissions.isSubsetOf_iff.mpr fun p h => by simp at h

theorem follows_pending (requested : Permissions) : Follows requested [] (.pending requested) where
  requested_eq := rfl
  subset := none_subset requested
  inactive _ := rfl
  granted h := by cases h
  acceptances := Nat.zero_le _
  unaccepted _ := rfl
  ended := by simp

/-- What a call that succeeds does. -/
theorem outcome_cases {call : ConsentCall} (h : ConsentCall.outcome consent call = .ok consent') :
    (∃ granted, call = .accept granted ∧ consent.state = .pending ∧
      granted.isSubsetOf consent.requested = true ∧
      consent' = { consent with granted, state := .active }) ∨
    (call = .reject ∧ consent.state = .pending ∧ consent' = { consent with state := .rejected }) ∨
    (∃ granted, call = .changePermissions granted ∧ consent.state = .active ∧
      granted.isSubsetOf consent.requested = true ∧ consent' = { consent with granted }) ∨
    (call = .close ∧ consent' = { consent with granted := .none, state := .closed }) := by
  cases call with
  | accept granted =>
    simp only [ConsentCall.outcome, Consent.accept] at h
    split at h
    · cases h
    · split at h
      · cases h
      · exact .inl ⟨granted, rfl, by simp_all, by simp_all, (Except.ok.inj h).symm⟩
  | reject =>
    simp only [ConsentCall.outcome, Consent.reject] at h
    split at h
    · cases h
    · exact .inr (.inl ⟨rfl, by simp_all, (Except.ok.inj h).symm⟩)
  | changePermissions granted =>
    simp only [ConsentCall.outcome, Consent.changePermissions] at h
    split at h
    · cases h
    · split at h
      · cases h
      · exact .inr (.inr (.inl ⟨granted, rfl, by simp_all, by simp_all, (Except.ok.inj h).symm⟩))
  | close => exact .inr (.inr (.inr ⟨rfl, (Except.ok.inj h).symm⟩))

/-- A call that fails adds nothing to what its events establish. -/
theorem Follows.failed (h : Follows requested events consent) (call : ConsentCall)
    (e : PermissionError) : Follows requested (events ++ [(call, .error e)]) consent := by
  have hgrant : grantOf (call, .error e) = none := by cases call <;> rfl
  have haccept : isAcceptance (call, .error e) = false := by cases call <;> rfl
  have hend : isEnd (call, .error e) = false := by cases call <;> rfl
  refine ⟨h.requested_eq, h.subset, h.inactive, fun hactive => ?_, ?_, fun hpending => ?_, ?_⟩
  · simpa [lastGranted, hgrant] using h.granted hactive
  · simpa [haccept] using h.acceptances
  · simpa [haccept] using h.unaccepted hpending
  · rintro ⟨event, hmem, hisEnd⟩
    rcases List.mem_append.mp hmem with hmem | hmem
    · exact h.ended ⟨event, hmem, hisEnd⟩
    · rw [List.mem_singleton.mp hmem, hend] at hisEnd
      cases hisEnd

/-- A consent that is pending or active has not been ended. -/
theorem Follows.not_ended (h : Follows requested events consent)
    (hstate : consent.state = .pending ∨ consent.state = .active) :
    ∀ event ∈ events, isEnd event = false := by
  intro event hmem
  by_contra hisEnd
  rcases h.ended ⟨event, hmem, by simpa using hisEnd⟩ with hended | hended <;> simp_all

/-- One call more. -/
theorem Follows.call (h : Follows requested events consent) (call : ConsentCall) :
    Follows requested (events ++ [(call, (call.run consent).1)]) (call.run consent).2 := by
  rw [ConsentCall.run_eq]
  cases houtcome : ConsentCall.outcome consent call with
  | error e => exact h.failed call e
  | ok consent' =>
    rcases outcome_cases houtcome with ⟨granted, rfl, hstate, hsubset, rfl⟩ | ⟨rfl, hstate, rfl⟩ |
      ⟨granted, rfl, hstate, hsubset, rfl⟩ | ⟨rfl, rfl⟩
    -- accepted: nothing has ended before, as nothing was accepted
    · have hended := h.not_ended (.inl hstate)
      have hcount := h.unaccepted hstate
      refine ⟨h.requested_eq, h.requested_eq ▸ hsubset, fun hne => absurd rfl hne, fun _ => ?_, ?_,
        fun hpending => (by cases hpending), ?_⟩
      · simp [lastGranted, grantOf]
      · simp [hcount, isAcceptance]
      · rintro ⟨event, hmem, hisEnd⟩
        rcases List.mem_append.mp hmem with hmem | hmem
        · rw [hended event hmem] at hisEnd
          cases hisEnd
        · rw [List.mem_singleton.mp hmem] at hisEnd
          cases hisEnd
    -- refused
    · have hnone := h.inactive (by rw [hstate]; decide)
      refine ⟨h.requested_eq, h.subset, fun _ => hnone, fun hactive => (by cases hactive), ?_,
        fun hpending => (by cases hpending), fun _ => .inl rfl⟩
      simpa [isAcceptance] using h.acceptances
    -- another grant
    · have hended := h.not_ended (.inr hstate)
      refine ⟨h.requested_eq, h.requested_eq ▸ hsubset, fun hne => absurd hstate hne,
        fun _ => ?_, ?_,
        fun hpending => ?_, ?_⟩
      · simp [lastGranted, grantOf]
      · simpa [isAcceptance] using h.acceptances
      · rw [hstate] at hpending
        cases hpending
      · rintro ⟨event, hmem, hisEnd⟩
        rcases List.mem_append.mp hmem with hmem | hmem
        · rw [hended event hmem] at hisEnd
          cases hisEnd
        · rw [List.mem_singleton.mp hmem] at hisEnd
          cases hisEnd
    -- closed
    · refine ⟨h.requested_eq, none_subset requested, fun _ => rfl,
        fun hactive => (by cases hactive), ?_,
        fun hpending => (by cases hpending), fun _ => .inr rfl⟩
      simpa [isAcceptance] using h.acceptances

/-- Any sequence of calls more. -/
theorem Follows.follow (calls : List ConsentCall) :
    ∀ {events : List ConsentEvent} {consent : Consent}, Follows requested events consent →
      Follows requested (events ++ (consent.follow calls).1) (consent.follow calls).2 := by
  induction calls with
  | nil =>
    intro events consent h
    simpa [Consent.follow] using h
  | cons call calls ih =>
    intro events consent h
    simpa [Consent.follow] using ih (h.call call)

/-- **The life cycle of a consent.** After any calls from `pending`: what is granted was
requested, and is nothing unless the consent is active; a requirement is met exactly if the
consent is active and the most recent grant has the permission; at most one `accept` has
succeeded; no requirement is met once a `reject` or `close` has; and a call that fails leaves
the consent as it is. -/
theorem consent_life_cycle (requested : Permissions) (calls : List ConsentCall) :
    let events := ((Consent.pending requested).follow calls).1
    let consent := ((Consent.pending requested).follow calls).2
    (∀ p, consent.granted.allows p = true → requested.allows p = true) ∧
      (consent.state ≠ .active → consent.granted = .none) ∧
      (∀ p, consent.require p = .ok () ↔
        consent.state = .active ∧ (lastGranted events).allows p = true) ∧
      events.countP isAcceptance ≤ 1 ∧
      ((∃ event ∈ events, isEnd event = true) → ∀ p, consent.require p ≠ .ok ()) ∧
      ∀ call : ConsentCall, (call.run consent).1 ≠ .ok () → (call.run consent).2 = consent := by
  intro events consent
  have h : Follows requested events consent := (follows_pending requested).follow calls
  refine ⟨Permissions.isSubsetOf_iff.mp h.subset, h.inactive, fun p => ?_, h.acceptances, ?_, ?_⟩
  · rw [Consent.require_eq_ok]
    constructor
    · rintro ⟨hactive, hallows⟩
      exact ⟨hactive, h.granted hactive ▸ hallows⟩
    · rintro ⟨hactive, hallows⟩
      exact ⟨hactive, (h.granted hactive).symm ▸ hallows⟩
  · intro hended p hrequire
    have hactive := (Consent.require_eq_ok.mp hrequire).1
    rcases h.ended hended with hstate | hstate <;> simp_all
  · intro call hfailed
    rw [ConsentCall.run_eq] at hfailed ⊢
    cases houtcome : ConsentCall.outcome consent call with
    | error e => rfl
    | ok consent' => rw [houtcome] at hfailed; exact absurd rfl hfailed

example : ((Consent.pending .none).follow [.accept .none, .accept .none]).1.map (·.2) =
    [.ok (), .error .invalidTransition] := by decide

end SensorRemote
