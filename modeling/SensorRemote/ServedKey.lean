import SensorRemote.Pairing

/-!
# The key of a listener that is served

A device identifier is refused to every key but the one its entry in the directory holds. A listener
keeps its identifier therefore as long as the entry stays, and three things take it away while the
listener is still served: a sweep that finds it expired, which it is when the listener has been
relaying for the time of a presence, since no heartbeat is read there; the removal by a newer
registration of the same device under the same key; and either of these before the listener has come
to its loop. The result says that there is nothing else.

The condition is on the steps of a run, and for each it speaks of the state before the step: a sweep
spares the served listeners, a removal spares them, and between a registration and its reply neither
has hit the entry. What is kept is that the directory holds the key of every served listener
(`ServedHeld`): a step that meets the condition keeps it, and a step that does not meet it breaks it
there and then, so the equivalence goes over whole runs.
-/

namespace SensorRemote

open Transition

/-! ## Registrations that are refused -/

/-- The directory holds an entry of the device under the key. -/
def Directory.Holds (devices : Directory) (device : DeviceId) (publicKey : PublicKey) : Prop :=
  ∃ e, devices device = some e ∧ e.publicKey = publicKey

/-- Every attempt to register the device under another key is refused. -/
def Directory.Refuses (devices : Directory) (device : DeviceId) (publicKey : PublicKey) : Prop :=
  ∀ other, other ≠ publicKey → ∀ connectionId now,
    ∃ error, devices.register device other connectionId now = .error error

theorem exists_ne_publicKey (publicKey : PublicKey) : ∃ other : PublicKey, other ≠ publicKey := by
  by_cases h : Vector.replicate 32 0 = publicKey
  · refine ⟨Vector.replicate 32 1, ?_⟩
    rw [← h]
    decide
  · exact ⟨_, h⟩

/-- What refuses all other keys is an entry under the key, and nothing else. -/
theorem Directory.refuses_iff {devices : Directory} {device : DeviceId} {publicKey : PublicKey} :
    devices.Refuses device publicKey ↔ devices.Holds device publicKey := by
  constructor
  · intro h
    cases hentry : devices device with
    | none =>
      obtain ⟨other, hother⟩ := exists_ne_publicKey publicKey
      obtain ⟨error, herror⟩ := h other hother 0 0
      simp [register, hentry] at herror
    | some e =>
      refine ⟨e, hentry, ?_⟩
      by_contra hne
      obtain ⟨error, herror⟩ := h e.publicKey hne 0 0
      simp [register, hentry] at herror
  · rintro ⟨e, hentry, rfl⟩ other hother connectionId now
    exact ⟨_, by simp only [register, hentry]; rw [if_pos hother.symm]⟩

/-- Only the keys count. -/
theorem Directory.holds_iff {devices : Directory} {d : DeviceId} {k : PublicKey} :
    devices.Holds d k ↔ (devices d).map (·.publicKey) = some k := by
  rw [Option.map_eq_some_iff]
  rfl

/-- An accepted registration enters its key, and keeps what there is. -/
theorem Directory.holds_register {devices devices' : Directory} {device d : DeviceId}
    {publicKey k : PublicKey} {connectionId : ConnectionId} {now : ℕ}
    (h : devices.register device publicKey connectionId now = .ok devices') :
    devices'.Holds d k ↔ d = device ∧ k = publicKey ∨ devices.Holds d k := by
  have hsame : ∀ e, devices device = some e → e.publicKey = publicKey := by
    intro e he
    simp only [register, he] at h
    split at h
    · cases h
    · rename_i hkey
      exact not_not.mp hkey
  have hdevices : devices' = Function.update devices device
      (some ⟨publicKey, false, connectionId, now⟩) := by
    simp only [register] at h
    split at h
    · split at h <;> cases h
      rfl
    · cases h
      rfl
  subst hdevices
  by_cases hd : d = device
  · subst hd
    constructor
    · rintro ⟨e, he, rfl⟩
      rw [Function.update_self] at he
      cases he
      exact .inl ⟨rfl, rfl⟩
    · rintro (⟨-, rfl⟩ | ⟨e, he, rfl⟩)
      · exact ⟨_, Function.update_self .., rfl⟩
      · exact ⟨_, Function.update_self .., (hsame e he).symm⟩
  · simp [Holds, hd]

/-- A registration is accepted if there is no entry under another key. -/
theorem Directory.register_ok_iff {devices : Directory} {device : DeviceId} {publicKey : PublicKey}
    {connectionId : ConnectionId} {now : ℕ} :
    (∃ devices', devices.register device publicKey connectionId now = .ok devices') ↔
      ∀ e, devices device = some e → e.publicKey = publicKey := by
  simp only [register]
  split
  · rename_i existing hexisting
    split
    · rename_i hkey
      simp [hexisting, hkey]
    · rename_i hkey
      simp [hexisting, not_not.mp hkey]
  · rename_i hnone
    simp [hnone]

theorem Directory.holds_touchDevice {devices : Directory} {d : DeviceId} {k : PublicKey}
    (device : DeviceId) (connectionId : ConnectionId) (now : ℕ) :
    (devices.touchDevice device connectionId now).Holds d k ↔ devices.Holds d k := by
  rw [holds_iff, holds_iff, touchDevice]
  by_cases hd : d = device
  · subst hd
    rw [Function.update_self, Option.map_map]
    refine iff_of_eq (congrArg (· = some k) (congrArg (Option.map · _) (funext fun e => ?_)))
    simp only [Function.comp_apply]
    split <;> rfl
  · rw [Function.update_of_ne hd]

/-- A device found is busy, under the key it has. -/
theorem Directory.holds_findTarget {devices devices' : Directory} {device d : DeviceId}
    {k : PublicKey} {askedKey : String} {listener : ConnectionId}
    (h : devices.findTarget device askedKey = .ok (listener, devices')) :
    devices'.Holds d k ↔ devices.Holds d k := by
  obtain ⟨e, he, -, -, -, rfl⟩ := Rendezvous.findTarget_eq_ok h
  rw [holds_iff, holds_iff]
  by_cases hd : d = device
  · subst hd
    rw [Function.update_self, he]
    rfl
  · rw [Function.update_of_ne hd]

theorem Directory.holds_removeDevice {devices : Directory} {device d : DeviceId} {k : PublicKey}
    {connectionId : ConnectionId} : (devices.removeDevice device connectionId).Holds d k ↔
      devices.Holds d k ∧
        ∀ e, devices d = some e → d = device → e.connectionId ≠ connectionId := by
  simp only [Holds, removeDevice_eq_some]
  constructor
  · rintro ⟨e, ⟨he, hne⟩, hkey⟩
    refine ⟨⟨e, he, hkey⟩, fun e' he' => ?_⟩
    obtain rfl := Option.some.inj (he.symm.trans he')
    exact hne
  · rintro ⟨⟨e, he, hkey⟩, hne⟩
    exact ⟨e, ⟨he, hne e he⟩, hkey⟩

theorem Directory.holds_expireDevices {devices : Directory} {d : DeviceId} {k : PublicKey}
    {now : ℕ} : (devices.expireDevices now).Holds d k ↔
      ∃ e, devices d = some e ∧ e.publicKey = k ∧ e.expired now = false := by
  simp [Holds, expireDevices, and_comm, and_left_comm]

namespace Rendezvous

/-! ## What is claimed, and when it holds -/

/-- A listener's connection that is being served. -/
def Serves (s : Rendezvous) (id : ConnectionId) (c : Connection) : Prop :=
  s.connections id = some c ∧ c.listen = true ∧ c.served = true

/-- Every listener served keeps its device's identifier: all other keys are refused. -/
def KeysKept (s : Rendezvous) : Prop :=
  ∀ id c, s.Serves id c → s.devices.Refuses c.deviceId c.publicKey

/-- A registration of the device under the key, which is accepted. -/
def Registers (device : DeviceId) (publicKey : PublicKey) (s : Rendezvous) : RendezvousLabel → Prop
  | .register _ device' publicKey' listen => listen = true ∧ device = device' ∧
      publicKey = publicKey' ∧ ∀ e, s.devices device = some e → e.publicKey = publicKey
  | _ => False

/-- The step leaves the device its entry: a sweep does not find it expired, and the thread that
removes an entry is not the one this entry was registered by. -/
def LeavesEntry (device : DeviceId) (s : Rendezvous) : RendezvousLabel → Prop
  | .request | .act _ .sweep => ∀ e, s.devices device = some e → e.expired s.now = false
  | .act id .remove => ∀ c, s.connections id = some c →
      ∀ e, s.devices device = some e → device = c.deviceId → e.connectionId ≠ id
  | _ => True

/-- The step after a run takes no served listener its entry: a sweep finds none of theirs expired,
and a removal takes none that a served listener of the same device relies on. Of a listener that
comes to its loop the device was registered under its key, and no step since then took the entry. -/
def SparesServed (s : Rendezvous) (before : List (RendezvousLabel × Rendezvous)) :
    RendezvousLabel → Prop
  | .request | .act _ .sweep => ∀ id c, (LTS.last s before).Serves id c →
      ∀ e, (LTS.last s before).devices c.deviceId = some e →
        e.expired (LTS.last s before).now = false
  | .act id .remove => ∀ c e, (LTS.last s before).connections id = some c →
      (LTS.last s before).devices c.deviceId = some e → e.connectionId = id →
        ∀ id' c', (LTS.last s before).Serves id' c' → c'.deviceId ≠ c.deviceId
  | .act id (.reply true) => ∀ c, (LTS.last s before).connections id = some c → c.listen = true →
      LTS.Since (Registers c.deviceId c.publicKey) (LeavesEntry c.deviceId) s before
  | _ => True

/-- Every listener served has an entry under its key. -/
def ServedHeld (s : Rendezvous) : Prop :=
  ∀ id c, s.Serves id c → s.devices.Holds c.deviceId c.publicKey

theorem keysKept_iff (s : Rendezvous) : s.KeysKept ↔ s.ServedHeld := by
  simp only [KeysKept, ServedHeld, Directory.refuses_iff]

/-! ## Steps -/

section Steps

variable {s t : Rendezvous} {id : ConnectionId} {c : Connection} {action : ThreadStep}
  {label : RendezvousLabel} {d : DeviceId} {k : PublicKey}

/-! ### The entries -/

/-- Only sweeps and removals take entries, and only registrations make them. -/
theorem holds_act (hact : s.act id c t action) (hsweep : action ≠ .sweep)
    (hremove : action ≠ .remove) : t.devices.Holds d k ↔ s.devices.Holds d k := by
  cases action with
  | reply sent | checkPresence | idle | leave =>
    obtain ⟨-, rfl⟩ := hact
    exact Iff.rfl
  | tryReceive =>
    obtain ⟨-, rfl⟩ := hact
    unfold Rendezvous.tryReceive
    split <;> exact Iff.rfl
  | heartbeat authorized sent =>
    obtain ⟨-, rfl⟩ := hact
    unfold Rendezvous.heartbeat
    split
    · exact Directory.holds_touchDevice _ _ _
    · exact Iff.rfl
  | connect authorized target askedKey sent =>
    obtain ⟨-, rfl⟩ := hact
    unfold Rendezvous.connect
    dsimp only
    split
    · exact Iff.rfl
    · split
      · exact Iff.rfl
      · split
        · exact Directory.holds_touchDevice _ _ _
        · split <;> exact Directory.holds_touchDevice _ _ _
  | sweep => exact absurd rfl hsweep
  | find sent =>
    obtain ⟨target, askedKey, -, rfl⟩ := hact
    unfold Rendezvous.find
    split
    · exact Iff.rfl
    · exact Directory.holds_findTarget ‹_›
  | offer =>
    obtain ⟨listener, askedKey, -, rfl⟩ := hact
    unfold Rendezvous.offer
    dsimp only
    split
    · exact Iff.rfl
    · split <;> exact Iff.rfl
  | remove => exact absurd rfl hremove

theorem holds_registration (id : ConnectionId) (device : DeviceId) (publicKey : PublicKey)
    (listen : Bool) : (s.register id device publicKey listen).devices.Holds d k ↔
      Registers d k s (.register id device publicKey listen) ∨ s.devices.Holds d k := by
  unfold Rendezvous.register
  dsimp only
  split
  · rename_i hlisten
    split
    · rename_i devices hregister
      have hfree := Directory.register_ok_iff.mp ⟨_, hregister⟩
      refine (Directory.holds_register hregister).trans (or_congr_left ?_)
      constructor
      · rintro ⟨rfl, rfl⟩
        exact ⟨hlisten, rfl, rfl, hfree⟩
      · exact fun ⟨_, hd, hk, _⟩ => ⟨hd, hk⟩
    · rename_i hrefused
      refine (or_iff_right ?_).symm
      rintro ⟨-, rfl, rfl, hfree⟩
      obtain ⟨devices, hregister⟩ := Directory.register_ok_iff.mpr hfree
      rw [hregister] at hrefused
      cases hrefused
  · rename_i hlisten
    exact (or_iff_right fun h => hlisten h.1).symm

theorem holds_sweep : s.sweep.devices.Holds d k ↔
    s.devices.Holds d k ∧ ∀ e, s.devices d = some e → e.expired s.now = false := by
  rw [sweep, devices_write, Directory.holds_expireDevices]
  constructor
  · rintro ⟨e, he, hkey, hfresh⟩
    refine ⟨⟨e, he, hkey⟩, fun e' he' => ?_⟩
    obtain rfl := Option.some.inj (he.symm.trans he')
    exact hfresh
  · rintro ⟨⟨e, he, hkey⟩, hfresh⟩
    exact ⟨e, he, hkey, hfresh e he⟩

/-- An entry is there that the step makes, or that was there and is left. -/
theorem holds_step (hstep : rendezvous.step s label t) : t.devices.Holds d k ↔
    Registers d k s label ∨ s.devices.Holds d k ∧ LeavesEntry d s label := by
  cases label with
  | tick now =>
    obtain ⟨-, rfl⟩ := hstep
    exact (and_iff_left trivial).symm.trans (or_iff_right id).symm
  | register id device publicKey listen =>
    obtain ⟨-, rfl⟩ := hstep
    exact (holds_registration id device publicKey listen).trans
      (or_congr_right (and_iff_left trivial).symm)
  | request =>
    obtain rfl := hstep
    exact holds_sweep.trans (or_iff_right id).symm
  | act id action =>
    obtain ⟨c, hc, hact⟩ := hstep
    refine Iff.trans ?_ (or_iff_right fun h => h).symm
    by_cases hsweep : action = .sweep
    · subst hsweep
      obtain ⟨target, askedKey, -, rfl⟩ := hact
      exact holds_sweep
    · by_cases hremove : action = .remove
      · subst hremove
        obtain ⟨-, rfl⟩ := hact
        refine Directory.holds_removeDevice.trans (and_congr_right' ?_)
        constructor
        · intro h c' hc'
          obtain rfl := Option.some.inj (hc.symm.trans hc')
          exact h
        · exact fun h => h c hc
      · refine (holds_act hact hsweep hremove).trans (and_iff_left ?_).symm
        cases action with
        | sweep | remove => contradiction
        | _ => trivial

/-! ### Who is served -/

/-- Nobody comes to be served. -/
def NobodyNew (s t : Rendezvous) : Prop :=
  ∀ id c', t.Serves id c' → ∃ c, s.Serves id c ∧ c.deviceId = c'.deviceId ∧
    c.publicKey = c'.publicKey

theorem ServedHeld.spares (h : s.ServedHeld) (hnew : NobodyNew s t)
    (hholds : ∀ d k, s.devices.Holds d k → t.devices.Holds d k) : t.ServedHeld := by
  intro id c' hc'
  obtain ⟨c, hc, hdevice, hkey⟩ := hnew id c' hc'
  rw [← hdevice, ← hkey]
  exact hholds _ _ (h id c hc)

theorem serves_move {c' x : Connection} {j : ConnectionId} :
    (s.move id c').Serves j x ↔
      (j = id ∧ x = c' ∧ c'.listen = true ∧ c'.served = true) ∨ (j ≠ id ∧ s.Serves j x) := by
  simp only [Serves, connections_move]
  by_cases hj : j = id
  · simp only [hj, if_true, true_and, ne_eq, not_true, false_and, or_false, Option.some.injEq]
    constructor
    · rintro ⟨rfl, h⟩
      exact ⟨rfl, h⟩
    · rintro ⟨rfl, h⟩
      exact ⟨rfl, h⟩
  · simp [hj]

/-- A thread moves on that was served, or is not served then. -/
theorem NobodyNew.move {c' : Connection} (devices : Directory)
    (h : c'.served = true → ∃ c, s.connections id = some c ∧ c.served = true ∧
      c.listen = c'.listen ∧ c.deviceId = c'.deviceId ∧ c.publicKey = c'.publicKey) :
    NobodyNew s ((s.write devices).move id c') := by
  intro j x hx
  rcases serves_move.mp hx with ⟨rfl, rfl, hlisten, hserved⟩ | ⟨-, hx⟩
  · obtain ⟨c, hc, hcserved, hclisten, hdevice, hkey⟩ := h hserved
    exact ⟨c, ⟨hc, hclisten.trans hlisten, hcserved⟩, hdevice, hkey⟩
  · exact ⟨x, hx, rfl, rfl⟩

theorem NobodyNew.register (device : DeviceId) (publicKey : PublicKey) (listen : Bool) :
    NobodyNew s (s.register id device publicKey listen) := by
  unfold Rendezvous.register
  dsimp only
  split
  · split
    · exact NobodyNew.move _ (by rintro ⟨⟩)
    · exact NobodyNew.move s.devices (by rintro ⟨⟩)
  · exact NobodyNew.move s.devices (by rintro ⟨⟩)

/-- Of a thread in its loop, or leaving it. -/
theorem NobodyNew.connection (hc : s.connections id = some c) (hserved : c.served = true)
    (devices : Directory) {c' : Connection}
    (hsame : (c.listen, c.deviceId, c.publicKey) = (c'.listen, c'.deviceId, c'.publicKey)) :
    NobodyNew s ((s.write devices).move id c') := by
  simp only [Prod.mk.injEq] at hsame
  exact NobodyNew.move devices fun _ => ⟨c, hc, hserved, hsame⟩

theorem NobodyNew.offer (hc : s.connections id = some c) (hserved : c.served = true)
    (listener : ConnectionId) (askedKey : String) :
    NobodyNew s (s.offer id c listener askedKey) := by
  have hleft : NobodyNew s (s.loop id c false) := .connection hc hserved s.devices rfl
  unfold Rendezvous.offer
  dsimp only
  split
  · exact hleft
  · rename_i l hl
    split
    · -- the listener's connection is as it was, but for its channel
      intro j x hx
      rcases serves_move.mp hx with ⟨rfl, rfl, hlisten, hserved⟩ | ⟨-, hx⟩
      · exact hleft j l ⟨hl, hlisten, hserved⟩
      · exact hleft j x hx
    · exact hleft

theorem NobodyNew.connect (hc : s.connections id = some c) (hserved : c.served = true)
    (authorized : Bool) (target : Option DeviceId) (askedKey : String) (sent : Bool) :
    NobodyNew s (s.connect id c authorized target askedKey sent) := by
  unfold Rendezvous.connect
  dsimp only
  split
  · exact .connection hc hserved s.devices rfl
  · split
    · exact .connection hc hserved s.devices rfl
    · split
      · exact .connection hc hserved _ rfl
      · split <;> exact .connection hc hserved _ rfl

/-- A listener comes to be served only by its reply. -/
theorem NobodyNew.act (hc : s.connections id = some c) (hact : s.act id c t action)
    (hreply : action ≠ .reply true) : NobodyNew s t := by
  have hserved : ∀ phase, c.phase = phase → ({ c with phase } : Connection).served = true →
      c.served = true := by
    rintro _ rfl h
    exact h
  cases action with
  | reply sent =>
    obtain ⟨-, rfl⟩ := hact
    cases sent with
    | true => exact absurd rfl hreply
    | false => exact NobodyNew.move s.devices (by rintro ⟨⟩)
  | checkPresence =>
    obtain ⟨hphase, rfl⟩ := hact
    exact .connection hc (hserved _ hphase rfl) s.devices rfl
  | tryReceive =>
    obtain ⟨hphase, rfl⟩ := hact
    have hmove : ∀ c', (c.listen, c.deviceId, c.publicKey) =
        (c'.listen, c'.deviceId, c'.publicKey) → NobodyNew s (s.move id c') :=
      fun _ => .connection hc (hserved _ hphase rfl) s.devices
    unfold Rendezvous.tryReceive
    split
    · exact fun j x hx => hmove { c with phase := .relaying _, channel := none } rfl j x hx
    · exact hmove _ rfl
  | heartbeat authorized sent =>
    obtain ⟨hphase, rfl⟩ := hact
    unfold Rendezvous.heartbeat
    split
    · exact .connection hc (hserved _ hphase rfl) _ rfl
    · exact .connection hc (hserved _ hphase rfl) s.devices rfl
  | connect authorized target askedKey sent =>
    obtain ⟨hphase, rfl⟩ := hact
    exact .connect hc (hserved _ hphase rfl) authorized target askedKey sent
  | idle =>
    obtain ⟨hphase, rfl⟩ := hact
    exact .connection hc (hserved _ hphase rfl) s.devices rfl
  | leave =>
    obtain ⟨-, rfl⟩ := hact
    exact NobodyNew.move s.devices (by rintro ⟨⟩)
  | sweep =>
    obtain ⟨target, askedKey, hphase, rfl⟩ := hact
    exact .connection hc (hserved _ hphase rfl) _ rfl
  | find sent =>
    obtain ⟨target, askedKey, hphase, rfl⟩ := hact
    unfold Rendezvous.find
    split
    · exact .connection hc (hserved _ hphase rfl) s.devices rfl
    · exact .connection hc (hserved _ hphase rfl) _ rfl
  | offer =>
    obtain ⟨listener, askedKey, hphase, rfl⟩ := hact
    exact .offer hc (hserved _ hphase rfl) listener askedKey
  | remove =>
    obtain ⟨-, rfl⟩ := hact
    exact NobodyNew.move _ (by rintro ⟨⟩)

/-! ### Who is served and has an entry -/

/-- A listener that comes to its loop is served from then on. -/
theorem servedHeld_reply (h : s.ServedHeld) (c : Connection) : (s.reply id c true).ServedHeld ↔
      (c.listen = true → s.devices.Holds c.deviceId c.publicKey) := by
  constructor
  · intro ht hlisten
    exact ht id { c with phase := .checking, registeredAt := s.now, lastSeen := s.now }
      (serves_move.mpr (.inl ⟨rfl, rfl, hlisten, rfl⟩))
  · intro hheld j x hx
    rcases serves_move.mp hx with ⟨rfl, rfl, hlisten, -⟩ | ⟨-, hx⟩
    · exact hheld hlisten
    · exact h j x hx

/-- A sweep spares the listeners served exactly if none of their entries has expired. -/
theorem servedHeld_sweep (h : s.ServedHeld) : s.sweep.ServedHeld ↔
    ∀ id c, s.Serves id c → ∀ e, s.devices c.deviceId = some e → e.expired s.now = false :=
  forall₂_congr fun id c => forall_congr' fun hc => holds_sweep.trans (and_iff_right (h id c hc))

/-- So does the sweep of a thread, whose phase changes, but not whether it is served. -/
theorem servedHeld_sweepAct (hc : s.connections id = some c) (hserved : c.served = true)
    {phase : Phase} (hphase : ({ c with phase } : Connection).served = true) :
    (s.sweep.move id { c with phase }).ServedHeld ↔ s.sweep.ServedHeld := by
  constructor
  · intro ht j x hx
    by_cases hj : j = id
    · subst hj
      obtain rfl := Option.some.inj (hc.symm.trans hx.1)
      exact ht j { c with phase } (serves_move.mpr (.inl ⟨rfl, rfl, hx.2.1, hphase⟩))
    · exact ht j x (serves_move.mpr (.inr ⟨hj, hx⟩))
  · intro hswept
    exact hswept.spares (NobodyNew.connection (s := s.sweep) hc hserved s.sweep.devices rfl)
      fun _ _ h => h

/-- A removal spares the listeners served exactly if its entry is not one that a listener of
the same device is served under. -/
theorem servedHeld_remove (h : s.ServedHeld) (hc : s.connections id = some c)
    (hphase : c.phase = .leaving ∨ c.phase = .unregistering) :
    (s.remove id c).ServedHeld ↔ ∀ e, s.devices c.deviceId = some e → e.connectionId = id →
      ∀ id' c', s.Serves id' c' → c'.deviceId ≠ c.deviceId := by
  have hother : ∀ {j x}, s.Serves j x → j ≠ id := by
    rintro j x ⟨hx, -, hserved⟩ rfl
    obtain rfl := Option.some.inj (hc.symm.trans hx)
    rcases hphase with heq | heq <;> simp [Connection.served, heq] at hserved
  constructor
  · intro ht e he hid j x hx hdevice
    have hleft := ht j x (serves_move.mpr (.inr ⟨hother hx, hx⟩))
    exact (Directory.holds_removeDevice.mp hleft).2 e (hdevice ▸ he) hdevice hid
  · intro hspare j x hx
    rcases serves_move.mp hx with ⟨-, rfl, -, hserved⟩ | ⟨-, hx⟩
    · cases hserved
    · refine Directory.holds_removeDevice.mpr ⟨h j x hx, fun e he hdevice hid => ?_⟩
      exact hspare e (hdevice ▸ he) hid j x hx hdevice

/-- As `SparesServed`, with the entry itself for the registration that made it. -/
def SparesNow (s : Rendezvous) : RendezvousLabel → Prop
  | .request | .act _ .sweep => ∀ id c, s.Serves id c →
      ∀ e, s.devices c.deviceId = some e → e.expired s.now = false
  | .act id .remove => ∀ c e, s.connections id = some c → s.devices c.deviceId = some e →
      e.connectionId = id → ∀ id' c', s.Serves id' c' → c'.deviceId ≠ c.deviceId
  | .act id (.reply true) => ∀ c, s.connections id = some c → c.listen = true →
      s.devices.Holds c.deviceId c.publicKey
  | _ => True

/-- **One step** keeps what refuses other keys exactly if it spares the listeners served. -/
theorem servedHeld_step (h : s.ServedHeld) (hstep : rendezvous.step s label t) :
    t.ServedHeld ↔ s.SparesNow label := by
  cases label with
  | tick now =>
    obtain ⟨-, rfl⟩ := hstep
    exact iff_true_intro h
  | register id device publicKey listen =>
    obtain ⟨-, rfl⟩ := hstep
    exact iff_true_intro (h.spares (NobodyNew.register device publicKey listen) fun _ _ hd =>
      (holds_registration id device publicKey listen).mpr (.inr hd))
  | request =>
    obtain rfl := hstep
    exact servedHeld_sweep h
  | act id action =>
    obtain ⟨c, hc, hact⟩ := hstep
    -- the guard speaks of the connection by its identifier, the lemmas of `c` itself
    have hone : ∀ P : Connection → Prop, P c ↔ ∀ x, s.connections id = some x → P x :=
      fun P => ⟨fun h x hx => Option.some.inj (hc.symm.trans hx) ▸ h, fun h => h c hc⟩
    by_cases hreply : action = .reply true
    · subst hreply
      obtain ⟨-, rfl⟩ := hact
      exact (servedHeld_reply h c).trans
        (hone fun x => x.listen = true → s.devices.Holds x.deviceId x.publicKey)
    by_cases hsweep : action = .sweep
    · subst hsweep
      obtain ⟨target, askedKey, hphase, rfl⟩ := hact
      have hserved : c.served = true := by simp [Connection.served, hphase]
      exact (servedHeld_sweepAct hc hserved rfl).trans (servedHeld_sweep h)
    by_cases hremove : action = .remove
    · subst hremove
      obtain ⟨hphase, rfl⟩ := hact
      refine (servedHeld_remove h hc hphase).trans ((hone fun x => ∀ e,
        s.devices x.deviceId = some e → e.connectionId = id →
          ∀ id' c', s.Serves id' c' → c'.deviceId ≠ x.deviceId).trans ?_)
      exact forall_congr' fun x => ⟨fun h e hx => h hx e, fun h hx e => h e hx⟩
    have hheld : t.ServedHeld := h.spares (NobodyNew.act hc hact hreply)
      fun _ _ => (holds_act hact hsweep hremove).mpr
    apply iff_of_true hheld
    cases action with
    | reply sent =>
      cases sent with
      | true => contradiction
      | false => trivial
    | sweep | remove => contradiction
    | _ => trivial

/-- In a run from the beginning the entry stands for its registration. -/
theorem spares_iff {run : List (RendezvousLabel × Rendezvous)} (hinit : rendezvous.init s)
    (hrun : rendezvous.IsRun s run) :
    (∀ before label t after, run = before ++ (label, t) :: after → SparesServed s before label) ↔
      LTS.Meets SparesNow s run := by
  have hempty : ∀ d k, ¬s.devices.Holds d k := by
    rintro d k ⟨e, he, -⟩
    rw [hinit.1] at he
    cases he
  rw [LTS.meets_iff_forall]
  refine forall₄_congr fun before label t after => forall_congr' ?_
  rintro rfl
  have hbefore : rendezvous.IsRun s before := (LTS.isRun_append.mp hrun).1
  cases label with
  | tick | register | request => exact Iff.rfl
  | act id action =>
    cases action with
    | reply sent =>
      cases sent with
      | false => exact Iff.rfl
      | true =>
        refine forall₃_congr fun c _ _ => Iff.symm ?_
        exact LTS.last_iff_since (H := fun s => s.devices.Holds c.deviceId c.publicKey) holds_step
          (hempty _ _) hbefore
    | _ => exact Iff.rfl

/-- **Served listeners and sweeps.** A run of the server refuses, at every point of it, every
key but its own to the device of every listener served if and only if every step of the run
spares the listeners served. -/
theorem keys_kept_iff {run : List (RendezvousLabel × Rendezvous)} (hinit : rendezvous.init s)
    (hrun : rendezvous.IsRun s run) : LTS.Keeps KeysKept s run ↔
      ∀ before label t after, run = before ++ (label, t) :: after →
        SparesServed s before label := by
  have hnobody : s.KeysKept := by
    rw [keysKept_iff]
    rintro id c ⟨hc, -⟩
    rw [hinit.2.1] at hc
    cases hc
  rw [spares_iff hinit hrun]
  refine LTS.keeps_iff_meets (I := fun _ => True) (fun _ _ _ _ _ => trivial) ?_ trivial hnobody hrun
  intro s label t _ hs hstep
  rw [keysKept_iff] at hs ⊢
  exact servedHeld_step hs hstep

end Steps

end Rendezvous

/-! ### A listener that loses its identifier while it relays -/

namespace HijackedDevice

open FirstPairing Rendezvous

/-- The pair of the first pairing is forwarded for the time of a presence, and somebody asks
for the server's health. -/
def idle : Rendezvous := { relayed with now := PRESENCE_TTL }
def swept : Rendezvous := idle.sweep

def run : List (RendezvousLabel × Rendezvous) :=
  FirstPairing.run ++ [(.tick PRESENCE_TTL, idle), (.request, swept)]

theorem isRun_run : rendezvous.IsRun empty run := by
  refine LTS.isRun_append.mpr ⟨FirstPairing.isRun_run, ?_⟩
  rw [last_run]
  exact ⟨⟨Nat.zero_le _, rfl⟩, rfl, trivial⟩

/-- The listener is served, and its device is anyone's. -/
theorem not_keysKept_swept : ¬swept.KeysKept := by
  intro h
  have hserves : swept.Serves 1 (listener (.relaying ⟨2, hostKey.toHex⟩)) := ⟨rfl, rfl, rfl⟩
  obtain ⟨error, herror⟩ := h 1 _ hserves viewerKey (by decide) 3 PRESENCE_TTL
  have hnone : swept.devices host = none := by decide +kernel
  simp [listener, Directory.register, hnone] at herror

theorem reachable_swept : rendezvous.Reachable swept := by
  have hidle : rendezvous.Reachable idle :=
    reachable_relayed.step (l := .tick PRESENCE_TTL) ⟨Nat.zero_le _, rfl⟩
  exact hidle.step (l := .request) rfl

/-- **An identifier is lost.** A listener is being forwarded, and its device can be registered
under another key. -/
theorem identifier_lost : ¬∀ s, rendezvous.Reachable s → s.KeysKept :=
  fun h => not_keysKept_swept (h swept reachable_swept)

/-- A second earlier the listener is not expired. -/
def early : Rendezvous := { relayed with now := PRESENCE_TTL - 1 }

def spared : List (RendezvousLabel × Rendezvous) :=
  FirstPairing.run ++ [(.tick (PRESENCE_TTL - 1), early), (.request, early.sweep)]

theorem isRun_spared : rendezvous.IsRun empty spared := by
  refine LTS.isRun_append.mpr ⟨FirstPairing.isRun_run, ?_⟩
  rw [last_run]
  exact ⟨⟨Nat.zero_le _, rfl⟩, rfl, trivial⟩

theorem devices_asked : asked.devices = Function.update
    (Function.update (fun _ => none) host (some ⟨hostKey, false, 1, 0⟩)) viewer none := rfl

theorem devices_relayed : relayed.devices = Function.update
    (asked.devices.expireDevices 0) host (some ⟨hostKey, true, 1, 0⟩) := rfl

/-- Nothing is seen again after the registration. -/
theorem lastSeen_asked {d : DeviceId} {e : DeviceEntry} (h : asked.devices d = some e) :
    e.lastSeen = 0 := by
  rw [devices_asked] at h
  simp only [Function.update_apply] at h
  split at h
  · cases h
  · split at h <;> cases h
    rfl

theorem lastSeen_relayed {d : DeviceId} {e : DeviceEntry} (h : relayed.devices d = some e) :
    e.lastSeen = 0 := by
  rw [devices_relayed] at h
  simp only [Function.update_apply] at h
  split at h
  · cases h
    rfl
  · exact lastSeen_asked (Option.filter_eq_some_iff.mp h).1

theorem spares_spared : LTS.Meets SparesNow empty spared := by
  rw [spared, LTS.meets_append, last_run]
  refine ⟨⟨trivial, ?_, trivial, trivial, ?_, trivial, trivial, trivial, ?_, trivial, trivial,
    trivial, trivial⟩, trivial, ?_, trivial⟩
  · rintro c hc -
    obtain rfl : listener .registering = c := Option.some.inj hc
    exact ⟨_, rfl, rfl⟩
  · rintro c hc hlisten
    obtain rfl : initiator .registering = c := Option.some.inj hc
    cases hlisten
  · rintro - c - e he
    simp only [DeviceEntry.expired, lastSeen_asked he]
    rfl
  · rintro - c - e he
    simp only [DeviceEntry.expired, lastSeen_relayed he]
    rfl

/-- The run that loses the identifier has a step that does not spare the listener; the one that
does without loses nothing. -/
theorem spared_or_lost :
    (¬∀ before label t after, run = before ++ (label, t) :: after →
      SparesServed empty before label) ∧ LTS.Keeps KeysKept empty spared := by
  refine ⟨fun h => ?_, ?_⟩
  · have hkeeps := (keys_kept_iff init_empty isRun_run).mpr h
    exact not_keysKept_swept (LTS.Keeps.last hkeeps)
  · exact (keys_kept_iff init_empty isRun_spared).mpr
      ((spares_iff init_empty isRun_spared).mpr spares_spared)

end HijackedDevice

end SensorRemote
