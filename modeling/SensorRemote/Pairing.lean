import Mathlib.Data.List.Nodup
import SensorRemote.Rendezvous

/-!
# The discipline of pairing

However the threads of the rendezvous server interleave, a registration of a listener is handed at
most one offer. What carries this is an account of every busy entry: an entry becomes busy when an
initiator finds it, that initiator is the only one with a clone of its channel, and the offer is
then in the channel, in the relay, or lost with a thread that is about to remove the entry.

The invariant, `Disciplined`, has the account and what it needs about the directory, the channels
and the phases of the threads. It is shown for every step:

* most steps pair nobody. They renew or remove entries and move a thread on, and that is all the
  invariant sees of them: a `Calm` step keeps it (`Disciplined.calm`), and heartbeats, requests,
  presence checks and refusals are calm;

* the others have a lemma each, named after what the thread does: `register`, `find`, `offer`,
  `tryReceive` and `remove`. Where such a step changes several parts of the state, the state after
  it is a definition of its own (`cloned`, `handedOver`), with one lemma for each part.

The statement at the end is the part of the invariant that a client can rely on.
-/

namespace SensorRemote

open Transition

/-- A heartbeat, a request for a connection, a presence check or a removal: what a thread does
with the entry of its own device. -/
def ThreadStep.maintains : ThreadStep → Bool
  | .heartbeat _ _ | .connect _ _ _ _ | .checkPresence | .remove => true
  | _ => false

/-- The offer to a listener is in its channel or in its relay, or its thread has ended and has yet
to remove the entry. In each case nobody will offer to the entry again. -/
def Connection.taken (c : Connection) : Prop :=
  c.channel.isSome ∨ (∃ offer, c.phase = .relaying offer) ∨ c.phase = .leaving ∨
    c.phase = .unregistering

/-- Every entry of the one directory is in the other one, renewed at most: same connection, same
listener's key, same mark. -/
def Directory.Within (devices' devices : Directory) : Prop :=
  ∀ d e', devices' d = some e' → ∃ e, devices d = some e ∧
    e'.publicKey = e.publicKey ∧ e'.busy = e.busy ∧ e'.connectionId = e.connectionId

namespace Directory

variable (devices : Directory) (device : DeviceId) (connectionId : ConnectionId) (now : ℕ)

theorem within_refl : devices.Within devices := fun _ e he => ⟨e, he, rfl, rfl, rfl⟩

/-- Expired entries are removed, and the others stay. -/
theorem within_expireDevices : (devices.expireDevices now).Within devices := by
  intro d e he
  simp only [expireDevices, Option.filter_eq_some_iff] at he
  exact ⟨e, he.1, rfl, rfl, rfl⟩

/-- A heartbeat renews the time of an entry. -/
theorem within_touchDevice : (devices.touchDevice device connectionId now).Within devices := by
  intro d e' he'
  simp only [touchDevice, Function.update_apply] at he'
  split at he'
  · rename_i hd
    obtain ⟨e, he, rfl⟩ := Option.map_eq_some_iff.mp he'
    refine ⟨e, hd ▸ he, ?_⟩
    split <;> exact ⟨rfl, rfl, rfl⟩
  · exact ⟨e', he', rfl, rfl, rfl⟩

/-- A heartbeat of another connection changes nothing. -/
theorem touchDevice_of_ne {d : DeviceId} {e : DeviceEntry} (he : devices d = some e)
    (hid : e.connectionId ≠ connectionId) :
    devices.touchDevice device connectionId now d = some e := by
  simp only [touchDevice, Function.update_apply]
  split
  · rename_i hd
    rw [← hd, he, Option.map_some, if_neg hid]
  · exact he

/-- Removing an entry takes away that of the connection only: a newer registration of the device
stays. -/
theorem removeDevice_eq_some {d : DeviceId} {e : DeviceEntry} :
    devices.removeDevice device connectionId d = some e ↔
      devices d = some e ∧ (d = device → e.connectionId ≠ connectionId) := by
  simp only [removeDevice, Function.update_apply]
  split
  · rename_i hd
    subst hd
    simp
  · rename_i hd
    simp [hd]

end Directory

namespace Rendezvous

/-! ## What is claimed of a state -/

/-- An initiator has found a listener and not yet put its offer into the channel. -/
def Offering (s : Rendezvous) (initiator listener : ConnectionId) (askedKey : String) : Prop :=
  ∃ c, s.connections initiator = some c ∧ c.phase = .offering listener askedKey

/-- At most one offer was handed to each registration, and at most one taken by it. Registrations
are told apart by their connections, as a device may register again. -/
def HandedOnce (s : Rendezvous) : Prop :=
  (s.handed.map Prod.fst).Nodup ∧ (s.paired.map Prod.fst).Nodup ∧ ∀ p ∈ s.paired, p ∈ s.handed

/-- Every busy entry is accounted for: an initiator is about to offer to it, or its listener has the
offer or has ended. -/
def BusyAccounted (s : Rendezvous) : Prop :=
  ∀ d e, s.devices d = some e → e.busy = true →
    (∃ i askedKey, s.Offering i e.connectionId askedKey) ∨
      ∃ c, s.connections e.connectionId = some c ∧ c.taken

/-- What a thread does with the entry of its device leaves the entry of another registration
as it is. -/
def SupersededHarmless (s : Rendezvous) : Prop :=
  ∀ id action t, rendezvous.step s (.act id action) t → action.maintains = true →
    ∀ d e, s.devices d = some e → e.connectionId ≠ id → t.devices d = some e

/-- The key an initiator asked for accepts a listener. -/
def Accepts (askedKey : String) (publicKey : PublicKey) : Prop :=
  askedKey = publicKey.toHex ∨ askedKey = ANY_KEY

/-- The connection is a listener's, whose key the initiator asked for. -/
def ListensUnder (s : Rendezvous) (listener : ConnectionId) (askedKey : String) : Prop :=
  ∃ c, s.connections listener = some c ∧ c.listen = true ∧ Accepts askedKey c.publicKey

/-- Who was paired with a listener had asked for its key, or for any. -/
def AskedKeysKept (s : Rendezvous) : Prop :=
  ∀ p ∈ s.paired, s.ListensUnder p.1 p.2.askedKey

/-! ## The invariant -/

/-- An entry is that of a listener's connection whose thread has not ended: a removed or replaced
entry is nobody's. -/
def Owned (s : Rendezvous) (d : DeviceId) (publicKey : PublicKey) (id : ConnectionId) : Prop :=
  ∃ c, s.connections id = some c ∧ c.listen = true ∧ c.publicKey = publicKey ∧
    c.deviceId = d ∧ c.phase ≠ .gone

/-- What holds of the directory, the channels and the threads together. The fields about `busy`
entries are the account; the others say that channels are used by the right connections, at most
once. -/
structure Disciplined (s : Rendezvous) : Prop where
  owner : ∀ d e, s.devices d = some e → s.Owned d e.publicKey e.connectionId
  /-- a free entry's channel was never cloned -/
  free : ∀ d e, s.devices d = some e → e.busy = false →
    (∀ i askedKey, ¬s.Offering i e.connectionId askedKey) ∧
      e.connectionId ∉ s.handed.map Prod.fst
  /-- a channel is cloned once -/
  cloned : ∀ i j l a b, s.Offering i l a → s.Offering j l b → i = j
  /-- and before anything was put into it -/
  clonedFirst : ∀ i l a, s.Offering i l a → l ∉ s.handed.map Prod.fst
  handed : (s.handed.map Prod.fst).Nodup
  queued : ∀ l c o, s.connections l = some c → c.channel = some o →
    (l, o) ∈ s.handed ∧ l ∉ s.paired.map Prod.fst
  paired : (s.paired.map Prod.fst).Nodup ∧ ∀ p ∈ s.paired, p ∈ s.handed
  asked : ∀ i l a, s.Offering i l a → s.ListensUnder l a
  askedHanded : ∀ p ∈ s.handed, s.ListensUnder p.1 p.2.askedKey
  busy : s.BusyAccounted

section Lemmas

variable {s t : Rendezvous} {id : ConnectionId} {c : Connection}

@[simp] theorem connections_move (s : Rendezvous) (id : ConnectionId) (c : Connection)
    (j : ConnectionId) :
    (s.move id c).connections j = if j = id then some c else s.connections j := by
  simp only [move, Function.update_apply]

@[simp] theorem connections_write (s : Rendezvous) (devices : Directory) :
    (s.write devices).connections = s.connections := rfl

@[simp] theorem devices_write (s : Rendezvous) (devices : Directory) :
    (s.write devices).devices = devices := rfl

@[simp] theorem devices_move (s : Rendezvous) (id : ConnectionId) (c : Connection) :
    (s.move id c).devices = s.devices := rfl

@[simp] theorem handed_move (s : Rendezvous) (id : ConnectionId) (c : Connection) :
    (s.move id c).handed = s.handed := rfl

@[simp] theorem paired_move (s : Rendezvous) (id : ConnectionId) (c : Connection) :
    (s.move id c).paired = s.paired := rfl

/-! ## Steps that pair nobody -/

/-- The phases of a thread with nothing on its way to a channel or out of one. -/
def Idle : Phase → Prop
  | .offering _ _ | .relaying _ | .gone => False
  | _ => True

/-- The thread is past serving its connection, its entry still to be removed. -/
def Ending (p : Phase) : Prop := p = .leaving ∨ p = .unregistering

/-- How a connection changes in a step that pairs nobody: not at all, newly there, or with its
thread moved on. -/
inductive CalmAt : Option Connection → Option Connection → Prop where
  | same (c : Option Connection) : CalmAt c c
  | fresh (c : Connection) : c.channel = none → c.phase = .registering ∨ c.phase = .gone →
      CalmAt none (some c)
  | moved (c c' : Connection) : c'.deviceId = c.deviceId → c'.publicKey = c.publicKey →
      c'.listen = c.listen → c'.channel = c.channel → (∀ l a, c.phase ≠ .offering l a) →
      Idle c'.phase → ((∃ o, c.phase = .relaying o) ∨ Ending c.phase → Ending c'.phase) →
      CalmAt (some c) (some c')

/-- A step that pairs nobody: entries may go or be renewed, and threads move on. -/
structure Calm (s t : Rendezvous) : Prop where
  devices : t.devices.Within s.devices
  connections : ∀ id, CalmAt (s.connections id) (t.connections id)
  handed : t.handed = s.handed
  paired : t.paired = s.paired

/-- A calm step makes nobody offer and lets nobody stop offering. -/
theorem Calm.offering (h : Calm s t) {i l : ConnectionId} {a : String} :
    t.Offering i l a ↔ s.Offering i l a := by
  simp only [Offering]
  rcases ht : t.connections i with _ | c' <;> rcases hs : s.connections i with _ | c
  · exact Iff.rfl
  · have := h.connections i
    rw [hs, ht] at this
    cases this
  · have hcalm := h.connections i
    rw [hs, ht] at hcalm
    cases hcalm with
    | fresh _ hchannel hphase =>
      constructor
      · rintro ⟨_, ⟨⟩, hc⟩
        rcases hphase with hp | hp <;> rw [hp] at hc <;> cases hc
      · rintro ⟨_, ⟨⟩, -⟩
  · have hcalm := h.connections i
    rw [hs, ht] at hcalm
    cases hcalm with
    | same => exact Iff.rfl
    | moved _ _ _ _ _ _ hfree hidle _ =>
      constructor
      · rintro ⟨_, ⟨⟩, hc⟩
        rw [hc] at hidle
        exact hidle.elim
      · rintro ⟨_, ⟨⟩, hc⟩
        exact absurd hc (hfree l a)

/-- A connection stays, with its device, its key and its channel. -/
theorem Calm.kept (h : Calm s t) (hs : s.connections id = some c) :
    ∃ c', t.connections id = some c' ∧ c'.deviceId = c.deviceId ∧ c'.publicKey = c.publicKey ∧
      c'.listen = c.listen ∧ c'.channel = c.channel ∧ (c.phase ≠ .gone → c'.phase ≠ .gone) ∧
      (c.taken → c'.taken) := by
  have hcalm := h.connections id
  rw [hs] at hcalm
  cases ht : t.connections id with
  | none =>
    rw [ht] at hcalm
    cases hcalm
  | some c' =>
    rw [ht] at hcalm
    cases hcalm with
    | same => exact ⟨c, rfl, rfl, rfl, rfl, rfl, fun h => h, fun h => h⟩
    | moved _ _ hdevice hkey hlisten hchannel _ hidle hending =>
      refine ⟨c', rfl, hdevice, hkey, hlisten, hchannel, fun _ hgone => ?_, fun htaken => ?_⟩
      · rw [hgone] at hidle
        exact hidle
      · rcases htaken with hqueued | hrelay | hleaving | hunregistering
        · left
          rwa [hchannel]
        · exact .inr (.inr (hending (.inl hrelay)))
        · exact .inr (.inr (hending (.inr (.inl hleaving))))
        · exact .inr (.inr (hending (.inr (.inr hunregistering))))

/-- A listener whose key was asked for is still that listener. -/
theorem Calm.listensUnder (h : Calm s t) {l : ConnectionId} {a : String}
    (hs : s.ListensUnder l a) : t.ListensUnder l a := by
  obtain ⟨c, hc, hlisten, haccepts⟩ := hs
  obtain ⟨c', hc', -, hkey, hlisten', -⟩ := h.kept hc
  exact ⟨c', hc', hlisten'.trans hlisten, by rwa [hkey]⟩

/-- **Calm steps** keep the discipline: each field speaks of connections and of entries that the
step keeps. -/
theorem Disciplined.calm (h : Disciplined s) (hcalm : Calm s t) : Disciplined t where
  owner d e' he' := by
    obtain ⟨e, he, hkey, -, hid⟩ := hcalm.devices d e' he'
    obtain ⟨c, hc, hlisten, hpublic, hdevice, hgone⟩ := h.owner d e he
    obtain ⟨c', hc', hdevice', hkey', hlisten', -, hgone', -⟩ := hcalm.kept hc
    refine ⟨c', by rw [hid, hc'], by rw [hlisten', hlisten], ?_, ?_, hgone' hgone⟩
    · rw [hkey', hpublic, hkey]
    · rw [hdevice', hdevice]
  free d e' he' hbusy := by
    obtain ⟨e, he, -, hbusy', hid⟩ := hcalm.devices d e' he'
    obtain ⟨hclone, hhanded⟩ := h.free d e he (by rw [← hbusy', hbusy])
    rw [hid, hcalm.handed]
    exact ⟨fun i a ho => hclone i a (hcalm.offering.mp ho), hhanded⟩
  cloned i j l a b hi hj := h.cloned i j l a b (hcalm.offering.mp hi) (hcalm.offering.mp hj)
  clonedFirst i l a hi := by
    rw [hcalm.handed]
    exact h.clonedFirst i l a (hcalm.offering.mp hi)
  handed := by
    rw [hcalm.handed]
    exact h.handed
  queued l c' o hc' ho := by
    rw [hcalm.handed, hcalm.paired]
    have hl := hcalm.connections l
    rw [hc'] at hl
    cases hs : s.connections l with
    | none =>
      rw [hs] at hl
      cases hl with
      | fresh _ hchannel _ =>
        rw [hchannel] at ho
        cases ho
    | some c =>
      obtain ⟨c'', hc'', -, -, -, hchannel, -⟩ := hcalm.kept hs
      obtain rfl := Option.some.inj (hc'.symm.trans hc'')
      exact h.queued l c o hs (by rw [← hchannel, ho])
  paired := by
    rw [hcalm.handed, hcalm.paired]
    exact h.paired
  asked i l a hi := hcalm.listensUnder (h.asked i l a (hcalm.offering.mp hi))
  askedHanded p hp := by
    rw [hcalm.handed] at hp
    exact hcalm.listensUnder (h.askedHanded p hp)
  busy d e' he' hbusy := by
    obtain ⟨e, he, -, hbusy', hid⟩ := hcalm.devices d e' he'
    rw [hid]
    rcases h.busy d e he (by rw [← hbusy', hbusy]) with ⟨i, a, hi⟩ | ⟨c, hc, htaken⟩
    · exact .inl ⟨i, a, hcalm.offering.mpr hi⟩
    · obtain ⟨c', hc', -, -, -, -, -, htaken'⟩ := hcalm.kept hc
      exact .inr ⟨c', hc', htaken' htaken⟩

/-- A thread moves on, with the directory renewed before. -/
theorem Calm.of_move {devices : Directory} {c' : Connection}
    (hdevices : devices.Within s.devices) (h : CalmAt (s.connections id) (some c')) :
    Calm s ((s.write devices).move id c') where
  devices := hdevices
  connections j := by
    rw [connections_move]
    by_cases hj : j = id
    · rw [if_pos hj, hj]
      exact h
    · rw [if_neg hj]
      exact .same _
  handed := rfl
  paired := rfl

/-- A thread in the midst of its loop moves on. -/
theorem CalmAt.of_idle {c c' : Connection} (hc : Idle c.phase) (hending : ¬Ending c.phase)
    (hc' : Idle c'.phase) (hsame : (c'.deviceId, c'.publicKey, c'.listen, c'.channel) =
      (c.deviceId, c.publicKey, c.listen, c.channel)) : CalmAt (some c) (some c') := by
  simp only [Prod.mk.injEq] at hsame
  obtain ⟨hdevice, hkey, hlisten, hchannel⟩ := hsame
  refine .moved c c' hdevice hkey hlisten hchannel (fun l a heq => ?_) hc' ?_
  · rw [heq] at hc
    exact hc
  · rintro (⟨o, heq⟩ | h)
    · rw [heq] at hc
      exact hc.elim
    · exact absurd h hending

/-- A thread in the midst of its loop moves on, with the directory renewed, and stays in its
loop. -/
theorem Calm.loop {devices : Directory} (hdevices : devices.Within s.devices) (c' : Connection)
    (hc : s.connections id = some c) (hidle : Idle c.phase) (hending : ¬Ending c.phase)
    (hsame : (c'.deviceId, c'.publicKey, c'.listen, c'.channel) =
      (c.deviceId, c.publicKey, c.listen, c.channel)) (sent : Bool) :
    Calm s ((s.write devices).loop id c' sent) := by
  apply Calm.of_move hdevices
  rw [hc]
  refine .of_idle hidle hending ?_ hsame
  cases sent <;> trivial

end Lemmas

/-! ## Every step keeps the discipline -/

section Steps

variable {s : Rendezvous} {id : ConnectionId} {c : Connection}

theorem not_ending_reading : ¬Ending .reading := by
  rintro (h | h) <;> cases h

/-- Answering a heartbeat is calm: it renews the thread's own entry. -/
theorem Calm.heartbeat (hc : s.connections id = some c) (hphase : c.phase = .reading)
    (authorized sent : Bool) : Calm s (s.heartbeat id c authorized sent) := by
  have hidle : Idle c.phase := by rw [hphase]; trivial
  have hending : ¬Ending c.phase := by rw [hphase]; exact not_ending_reading
  simp only [Rendezvous.heartbeat]
  split
  · exact Calm.loop (Directory.within_touchDevice _ _ _ _) { c with lastSeen := s.now } hc hidle
      hending rfl sent
  · exact Calm.loop (Directory.within_refl _) _ hc hidle hending rfl sent

/-- A request for a connection is calm: the search begins, or is refused. -/
theorem Calm.connect (hc : s.connections id = some c) (hphase : c.phase = .reading)
    (authorized : Bool) (target : Option DeviceId) (askedKey : String) (sent : Bool) :
    Calm s (s.connect id c authorized target askedKey sent) := by
  have hidle : Idle c.phase := by rw [hphase]; trivial
  have hending : ¬Ending c.phase := by rw [hphase]; exact not_ending_reading
  unfold Rendezvous.connect
  split
  · exact Calm.loop (Directory.within_refl _) _ hc hidle hending rfl sent
  · split
    · exact Calm.loop (Directory.within_refl _) _ hc hidle hending rfl sent
    · dsimp only
      split
      · exact Calm.loop (Directory.within_touchDevice _ _ _ _) _ hc hidle hending rfl false
      · split
        · exact Calm.loop (Directory.within_touchDevice _ _ _ _) _ hc hidle hending rfl sent
        · apply Calm.of_move (Directory.within_touchDevice _ _ _ _)
          rw [hc]
          exact .of_idle hidle hending trivial rfl

/-- Registrations of initiators and refused ones. -/
theorem Calm.fresh {c : Connection} (hnone : s.connections id = none) (hchannel : c.channel = none)
    (hphase : c.phase = .registering ∨ c.phase = .gone) : Calm s (s.move id c) := by
  apply Calm.of_move (Directory.within_refl s.devices)
  rw [hnone]
  exact .fresh c hchannel hphase

/-- Moving one thread on changes who offers only at that thread. -/
theorem offering_move {c' : Connection} {i l : ConnectionId} {a : String} :
    (s.move id c').Offering i l a ↔
      if i = id then c'.phase = .offering l a else s.Offering i l a := by
  simp only [Offering, connections_move]
  by_cases hi : i = id
  · simp [hi]
  · simp [hi]

/-- Moving a thread on leaves its key and its role as they were. -/
theorem ListensUnder.move {c' : Connection} {l : ConnectionId} {a : String}
    (h : s.ListensUnder l a) (hc : s.connections id = some c) (hlisten : c'.listen = c.listen)
    (hkey : c'.publicKey = c.publicKey) : (s.move id c').ListensUnder l a := by
  obtain ⟨d, hd, hdlisten, haccepts⟩ := h
  by_cases hl : l = id
  · subst hl
    obtain rfl := Option.some.inj (hc.symm.trans hd)
    exact ⟨c', by simp, hlisten.trans hdlisten, by rwa [hkey]⟩
  · exact ⟨d, by simpa [hl] using hd, hdlisten, haccepts⟩

/-- Moving a thread on leaves its entry owned, unless the thread ends. -/
theorem Owned.move {c' : Connection} {d : DeviceId} {publicKey : PublicKey} {l : ConnectionId}
    (h : s.Owned d publicKey l) (hc : s.connections id = some c)
    (hsame : (c'.deviceId, c'.publicKey, c'.listen) = (c.deviceId, c.publicKey, c.listen))
    (hgone : c'.phase ≠ .gone) : (s.move id c').Owned d publicKey l := by
  simp only [Prod.mk.injEq] at hsame
  obtain ⟨hdevice, hkey, hlisten⟩ := hsame
  obtain ⟨x, hx, hxlisten, hxkey, hxdevice, hxgone⟩ := h
  by_cases hl : l = id
  · subst hl
    obtain rfl := Option.some.inj (hc.symm.trans hx)
    exact ⟨c', by simp, hlisten.trans hxlisten, hkey.trans hxkey, hdevice.trans hxdevice, hgone⟩
  · exact ⟨x, by simpa [hl] using hx, hxlisten, hxkey, hxdevice, hxgone⟩

/-- A listener's registration is free in the directory: its channel is known to nobody yet. -/
theorem Disciplined.insert (h : Disciplined s) {device : DeviceId} {now : ℕ}
    (hc : s.connections id = some c) (hlisten : c.listen = true) (hdevice : c.deviceId = device)
    (hgone : c.phase ≠ .gone) (hclone : ∀ i a, ¬s.Offering i id a)
    (hhanded : id ∉ s.handed.map Prod.fst) :
    Disciplined (s.write
      (Function.update s.devices device (some ⟨c.publicKey, false, id, now⟩))) where
  owner d e he := by
    simp only [devices_write, Function.update_apply] at he
    split at he
    · rename_i hd
      obtain rfl := Option.some.inj he
      exact ⟨c, hc, hlisten, rfl, hdevice.trans hd.symm, hgone⟩
    · exact h.owner d e he
  free d e he hbusy := by
    simp only [devices_write, Function.update_apply] at he
    split at he
    · obtain rfl := Option.some.inj he
      exact ⟨hclone, hhanded⟩
    · exact h.free d e he hbusy
  cloned := h.cloned
  clonedFirst := h.clonedFirst
  handed := h.handed
  queued := h.queued
  paired := h.paired
  asked := h.asked
  askedHanded := h.askedHanded
  busy d e he hbusy := by
    simp only [devices_write, Function.update_apply] at he
    split at he
    · obtain rfl := Option.some.inj he
      cases hbusy
    · exact h.busy d e he hbusy

/-- A registration keeps the discipline: a listener gets a free entry with a new channel, in place
of the device's old one, and everyone else gets none. -/
theorem Disciplined.register (h : Disciplined s) (hnone : s.connections id = none)
    (device : DeviceId) (publicKey : PublicKey) (listen : Bool) :
    Disciplined (s.register id device publicKey listen) := by
  -- nobody knows of the connection before it is there
  have hunknown : ∀ {a}, ¬s.ListensUnder id a := by
    rintro a ⟨c, hc, -⟩
    rw [hnone] at hc
    cases hc
  have haccepted : ∀ c : Connection, c.phase = .registering → c.channel = none →
      c.listen = true → c.deviceId = device → c.publicKey = publicKey →
      Disciplined ((s.write (Function.update s.devices device
        (some ⟨publicKey, false, id, s.now⟩))).move id c) := by
    rintro c hphase hchannel hlisten hdevice rfl
    have hfresh : Calm s (s.move id c) := Calm.fresh hnone hchannel (.inl hphase)
    refine Disciplined.insert (s := s.move id c) (h.calm hfresh) (by simp) hlisten hdevice
      (by rw [hphase]; exact fun h => by cases h) (fun i a ho => ?_) (fun hmem => ?_)
    · exact hunknown (h.asked _ _ _ (hfresh.offering.mp ho))
    · obtain ⟨p, hp, rfl⟩ := List.mem_map.mp hmem
      exact hunknown (h.askedHanded p hp)
  unfold Rendezvous.register
  dsimp only
  split
  · split
    · rename_i hlisten _ devices hregister
      simp only [Directory.register] at hregister
      split at hregister
      · split at hregister
        · cases hregister
        · obtain rfl := Except.ok.inj hregister
          exact haccepted _ rfl rfl hlisten rfl rfl
      · obtain rfl := Except.ok.inj hregister
        exact haccepted _ rfl rfl hlisten rfl rfl
    · exact h.calm (Calm.fresh hnone rfl (.inr rfl))
  · exact h.calm (Calm.fresh hnone rfl (.inl rfl))

/-- What a search that succeeds has found: a free entry of the device, under an accepted key, which
is busy afterwards. -/
theorem findTarget_eq_ok {devices devices' : Directory} {device : DeviceId} {askedKey : String}
    {listener : ConnectionId}
    (h : devices.findTarget device askedKey = .ok (listener, devices')) :
    ∃ e, devices device = some e ∧ e.busy = false ∧ Accepts askedKey e.publicKey ∧
      listener = e.connectionId ∧
      devices' = Function.update devices device (some { e with busy := true }) := by
  simp only [Directory.findTarget] at h
  split at h
  · cases h
  · rename_i e he
    split at h
    · cases h
    · split at h
      · cases h
      · rename_i hbusy hkey
        cases h
        refine ⟨e, he, by simpa using hbusy, ?_, rfl, rfl⟩
        simp only [Accepts]
        tauto

/-! ### A target is found -/

/-- An entry of another device belongs to another connection, as a connection registers one
device. -/
theorem Disciplined.entry_unique (h : Disciplined s) {d d' : DeviceId} {e e' : DeviceEntry}
    (he : s.devices d = some e) (he' : s.devices d' = some e')
    (hsame : e'.connectionId = e.connectionId) : d' = d := by
  obtain ⟨x, hx, -, -, hdevice, -⟩ := h.owner d e he
  obtain ⟨y, hy, -, -, hdevice', -⟩ := h.owner d' e' he'
  rw [hsame, hx] at hy
  obtain rfl := Option.some.inj hy
  exact hdevice'.symm.trans hdevice

/-- The state in which the entry of the target is busy, and its channel cloned. -/
def cloned (s : Rendezvous) (id : ConnectionId) (c : Connection) (target : DeviceId)
    (e : DeviceEntry) (askedKey : String) : Rendezvous :=
  (s.write (Function.update s.devices target (some { e with busy := true }))).move id
    { c with phase := .offering e.connectionId askedKey }

section Cloned

variable {target : DeviceId} {e : DeviceEntry} {askedKey : String}

/-- An initiator that still searches does not offer. -/
theorem not_offering_of_finding (hc : s.connections id = some c)
    (hphase : c.phase = .finding target askedKey) {l : ConnectionId} {a : String} :
    ¬s.Offering id l a := by
  rintro ⟨_, hc', hphase'⟩
  obtain rfl := Option.some.inj (hc.symm.trans hc')
  rw [hphase] at hphase'
  cases hphase'

/-- There is one clone more. -/
theorem offering_cloned (hidle : ∀ l a, ¬s.Offering id l a) {i l : ConnectionId} {a : String} :
    (s.cloned id c target e askedKey).Offering i l a ↔
      (i = id ∧ l = e.connectionId ∧ a = askedKey) ∨ s.Offering i l a := by
  rw [cloned, offering_move]
  by_cases hi : i = id
  · subst hi
    rw [if_pos rfl]
    constructor
    · rintro ⟨⟩
      exact .inl ⟨rfl, rfl, rfl⟩
    · rintro (⟨-, rfl, rfl⟩ | ho)
      · rfl
      · exact absurd ho (hidle l a)
  · rw [if_neg hi]
    constructor
    · exact .inr
    · rintro (⟨rfl, -⟩ | ho)
      · exact absurd rfl hi
      · exact ho

/-- The directory is changed at the target only. -/
theorem devices_cloned {d : DeviceId} {e' : DeviceEntry}
    (he' : (s.cloned id c target e askedKey).devices d = some e') :
    (d = target ∧ e' = { e with busy := true }) ∨ (d ≠ target ∧ s.devices d = some e') := by
  simp only [cloned, devices_move, devices_write, Function.update_apply] at he'
  split at he'
  · rename_i hd
    exact .inl ⟨hd, (Option.some.inj he').symm⟩
  · rename_i hd
    exact .inr ⟨hd, he'⟩

/-- The one busy entry more is that of the clone. -/
theorem busy_cloned (h : Disciplined s) (hc : s.connections id = some c)
    (hphase : c.phase = .finding target askedKey) :
    (s.cloned id c target e askedKey).BusyAccounted := by
  have hidle : ∀ l a, ¬s.Offering id l a := fun _ _ => not_offering_of_finding hc hphase
  intro d e' he' hbusy
  rcases devices_cloned he' with ⟨rfl, rfl⟩ | ⟨-, he'⟩
  · exact .inl ⟨id, askedKey, (offering_cloned hidle).mpr (.inl ⟨rfl, rfl, rfl⟩)⟩
  · rcases h.busy d e' he' hbusy with ⟨i, a, ho⟩ | ⟨x, hx, htaken⟩
    · exact .inl ⟨i, a, (offering_cloned hidle).mpr (.inr ho)⟩
    · right
      by_cases hj : e'.connectionId = id
      · rw [hj, hc] at hx
        obtain rfl := Option.some.inj hx
        refine ⟨{ c with phase := .offering e.connectionId askedKey }, by simp [cloned, hj], ?_⟩
        simpa [Connection.taken, hphase] using htaken
      · exact ⟨x, by simpa [cloned, hj] using hx, htaken⟩

/-- A free entry's channel may be cloned, for it was not before: by the account a channel that is
used has a busy entry. -/
theorem Disciplined.cloneFree (h : Disciplined s) (hc : s.connections id = some c)
    (hphase : c.phase = .finding target askedKey) (he : s.devices target = some e)
    (hfree : e.busy = false) (haccepts : Accepts askedKey e.publicKey) :
    Disciplined (s.cloned id c target e askedKey) := by
  obtain ⟨l, hl, hlisten, hkey, -, -⟩ := h.owner target e he
  obtain ⟨hclone, hhanded⟩ := h.free target e he hfree
  have hidle : ∀ l a, ¬s.Offering id l a := fun _ _ => not_offering_of_finding hc hphase
  have hlistens : ∀ {l a}, s.ListensUnder l a →
      (s.cloned id c target e askedKey).ListensUnder l a :=
    fun hl => ListensUnder.move hl hc rfl rfl
  exact
    { owner := by
        intro d e' he'
        rcases devices_cloned he' with ⟨rfl, rfl⟩ | ⟨-, he'⟩
        · exact Owned.move (h.owner d e he) hc rfl (by simp)
        · exact Owned.move (h.owner d e' he') hc rfl (by simp)
      free := by
        intro d e' he' hbusy
        rcases devices_cloned he' with ⟨rfl, rfl⟩ | ⟨hd, he'⟩
        · cases hbusy
        · obtain ⟨hclone', hhanded'⟩ := h.free d e' he' hbusy
          refine ⟨fun i a ho => ?_, hhanded'⟩
          rcases (offering_cloned hidle).mp ho with ⟨-, heq, -⟩ | ho
          · exact hd (h.entry_unique he he' heq)
          · exact hclone' i a ho
      cloned := by
        intro i j l a b hi hj
        rcases (offering_cloned hidle).mp hi with ⟨hi, hl, -⟩ | hi' <;>
          rcases (offering_cloned hidle).mp hj with ⟨hj, hl', -⟩ | hj'
        · exact hi.trans hj.symm
        · exact absurd (hl ▸ hj') (hclone j b)
        · exact absurd (hl' ▸ hi') (hclone i a)
        · exact h.cloned i j l a b hi' hj'
      clonedFirst := by
        intro i l a hi
        rcases (offering_cloned hidle).mp hi with ⟨rfl, rfl, -⟩ | hi
        · exact hhanded
        · exact h.clonedFirst i l a hi
      handed := h.handed
      queued := by
        intro j x o hx ho
        simp only [Rendezvous.cloned, connections_move, connections_write] at hx
        split at hx
        · rename_i hj
          obtain rfl := Option.some.inj hx
          exact h.queued j c o (hj ▸ hc) ho
        · exact h.queued j x o hx ho
      paired := h.paired
      asked := by
        intro i l a hi
        rcases (offering_cloned hidle).mp hi with ⟨-, rfl, rfl⟩ | hi
        · exact hlistens ⟨l, hl, hlisten, hkey ▸ haccepts⟩
        · exact hlistens (h.asked i l a hi)
      askedHanded := fun p hp => hlistens (h.askedHanded p hp)
      busy := busy_cloned h hc hphase }

end Cloned

/-- **Finding a target** makes its entry busy, with the one clone of its channel. -/
theorem Disciplined.find (h : Disciplined s) (hc : s.connections id = some c)
    {target : DeviceId} {askedKey : String} (hphase : c.phase = .finding target askedKey)
    (sent : Bool) : Disciplined (s.find id c target askedKey sent) := by
  simp only [Rendezvous.find]
  split
  · have hidle : Idle c.phase := by
      rw [hphase]
      trivial
    have hending : ¬Ending c.phase := by
      rw [hphase]
      rintro (h | h) <;> cases h
    exact h.calm (Calm.loop (Directory.within_refl _) _ hc hidle hending rfl sent)
  · rename_i listener devices hfind
    obtain ⟨e, he, hfree, haccepts, rfl, rfl⟩ := findTarget_eq_ok hfind
    exact h.cloneFree hc hphase he hfree haccepts

/-! ### An offer is made -/

/-- The only thread that had a clone of the channel is done with it. -/
theorem offering_done {c' : Connection} (hc' : ∀ l a, c'.phase ≠ .offering l a)
    {i l : ConnectionId} {a : String} :
    (s.move id c').Offering i l a ↔ i ≠ id ∧ s.Offering i l a := by
  rw [offering_move]
  by_cases hi : i = id
  · simp [hi, hc' l a]
  · simp [hi]

/-- An offer that does not come into the channel is lost with the listener's thread. -/
theorem Disciplined.undelivered (h : Disciplined s) (hc : s.connections id = some c)
    {listener : ConnectionId} {askedKey : String} (hphase : c.phase = .offering listener askedKey)
    (hlost : ∀ x, (s.loop id c false).connections listener = some x →
      x.receives = false ∨ x.channel.isSome) : Disciplined (s.loop id c false) := by
  have hoffering : ∀ {i l a}, (s.loop id c false).Offering i l a ↔ i ≠ id ∧ s.Offering i l a :=
    offering_done (by simp)
  exact
    { owner := fun d e he => Owned.move (h.owner d e he) hc rfl (by simp)
      free := by
        intro d e he hbusy
        obtain ⟨hclone, hhanded⟩ := h.free d e he hbusy
        exact ⟨fun i a ho => hclone i a (hoffering.mp ho).2, hhanded⟩
      cloned := fun i j l a b hi hj =>
        h.cloned i j l a b (hoffering.mp hi).2 (hoffering.mp hj).2
      clonedFirst := fun i l a hi => h.clonedFirst i l a (hoffering.mp hi).2
      handed := h.handed
      queued := by
        intro j x o hx ho
        simp only [Rendezvous.loop, connections_move] at hx
        split at hx
        · rename_i hj
          obtain rfl := Option.some.inj hx
          exact h.queued j c o (hj ▸ hc) ho
        · exact h.queued j x o hx ho
      paired := h.paired
      asked := fun i l a hi => ListensUnder.move (h.asked i l a (hoffering.mp hi).2) hc rfl rfl
      askedHanded := fun p hp => ListensUnder.move (h.askedHanded p hp) hc rfl rfl
      busy := by
        intro d e he hbusy
        obtain ⟨x, hx, -, -, -, hgone⟩ : (s.loop id c false).Owned d e.publicKey e.connectionId :=
          Owned.move (h.owner d e he) hc rfl (by simp)
        rcases h.busy d e he hbusy with ⟨i, a, ho⟩ | ⟨y, hy, htaken⟩
        · by_cases hi : i = id
          · -- the entry was this thread's target
            obtain ⟨_, hc', hphase'⟩ := ho
            rw [hi, hc] at hc'
            obtain rfl := Option.some.inj hc'
            rw [hphase] at hphase'
            obtain ⟨hlistener, -⟩ := Phase.offering.inj hphase'
            refine .inr ⟨x, hx, ?_⟩
            rcases hlost x (hlistener ▸ hx) with hdead | hfull
            · refine .inr (.inr (.inl ?_))
              simp only [Connection.receives, Bool.and_eq_false_iff, decide_eq_false_iff_not,
                not_not] at hdead
              exact hdead.resolve_right hgone
            · exact .inl hfull
          · exact .inl ⟨i, a, hoffering.mpr ⟨hi, ho⟩⟩
        · right
          refine ⟨x, hx, ?_⟩
          simp only [Rendezvous.loop, connections_move] at hx
          split at hx
          · obtain rfl := Option.some.inj hx
            exact .inr (.inr (.inl rfl))
          · obtain rfl := Option.some.inj (hy.symm.trans hx)
            exact htaken }

/-- The state in which the offer of a thread is in the channel of the listener. -/
def handedOver (s : Rendezvous) (id : ConnectionId) (c : Connection) (listener : ConnectionId)
    (askedKey : String) (x : Connection) : Rendezvous :=
  ({ s.loop id c false with
    handed := s.handed ++ [(listener, ⟨id, askedKey⟩)] } : Rendezvous).move listener
      { x with channel := some ⟨id, askedKey⟩ }

section HandedOver

variable {listener : ConnectionId} {askedKey : String} {x : Connection}

/-- The listener's connection is not that of the initiator, whose thread moves on. -/
theorem connections_left (hx : s.connections listener = some x) (hne : listener ≠ id) :
    (s.loop id c false).connections listener = some x := by
  simpa [Rendezvous.loop, hne] using hx

/-- The thread's clone is gone, and no other. -/
theorem offering_handedOver (hx : s.connections listener = some x) (hne : listener ≠ id)
    {i l : ConnectionId} {a : String} :
    (s.handedOver id c listener askedKey x).Offering i l a ↔ i ≠ id ∧ s.Offering i l a := by
  have hx' := connections_left (c := c) hx hne
  have hleft : (s.loop id c false).Offering i l a ↔ i ≠ id ∧ s.Offering i l a :=
    offering_done (by simp)
  rw [handedOver, offering_move, ← hleft]
  by_cases hi : i = listener
  · subst hi
    rw [if_pos rfl]
    constructor
    · intro heq
      exact ⟨x, hx', heq⟩
    · rintro ⟨y, hy, heq⟩
      obtain rfl := Option.some.inj (hx'.symm.trans hy)
      exact heq
  · rw [if_neg hi]
    exact Iff.rfl

/-- The listeners are those there were, with their keys. -/
theorem listensUnder_handedOver (hc : s.connections id = some c)
    (hx : s.connections listener = some x) (hne : listener ≠ id) {l : ConnectionId} {a : String}
    (hl : s.ListensUnder l a) : (s.handedOver id c listener askedKey x).ListensUnder l a := by
  have hleft : (s.loop id c false).ListensUnder l a := ListensUnder.move hl hc rfl rfl
  exact ListensUnder.move hleft (connections_left hx hne) rfl rfl

/-- The entries have the owners they had. -/
theorem owned_handedOver (hc : s.connections id = some c) (hx : s.connections listener = some x)
    (hne : listener ≠ id) (hgone : x.phase ≠ .gone) {d : DeviceId} {k : PublicKey}
    {l : ConnectionId} (hl : s.Owned d k l) :
    (s.handedOver id c listener askedKey x).Owned d k l := by
  have hleft : (s.loop id c false).Owned d k l := Owned.move hl hc rfl (by simp)
  exact Owned.move hleft (connections_left hx hne) rfl hgone

/-- Only the channel of the listener is other than it was. -/
theorem connections_handedOver (hc : s.connections id = some c) {j : ConnectionId}
    {y : Connection} (hy : (s.handedOver id c listener askedKey x).connections j = some y) :
    (j = listener ∧ y = { x with channel := some ⟨id, askedKey⟩ }) ∨
      (j ≠ listener ∧ ∃ z, s.connections j = some z ∧ y.channel = z.channel ∧
        (z.taken → y.taken)) := by
  simp only [handedOver, connections_move, Rendezvous.loop] at hy
  by_cases hj : j = listener
  · rw [if_pos hj] at hy
    exact .inl ⟨hj, (Option.some.inj hy).symm⟩
  · rw [if_neg hj] at hy
    refine .inr ⟨hj, ?_⟩
    split at hy
    · rename_i hi
      obtain rfl := Option.some.inj hy
      exact ⟨c, hi ▸ hc, rfl, fun _ => .inr (.inr (.inl rfl))⟩
    · exact ⟨y, hy, rfl, fun htaken => htaken⟩

/-- An offer in a channel is the one that was handed over, or it was there before. -/
theorem queued_handedOver (h : Disciplined s) (hc : s.connections id = some c)
    (hid : s.Offering id listener askedKey) {j : ConnectionId} {y : Connection} {o : PeerOffer}
    (hy : (s.handedOver id c listener askedKey x).connections j = some y)
    (ho : y.channel = some o) :
    (j, o) ∈ s.handed ++ [(listener, ⟨id, askedKey⟩)] ∧ j ∉ s.paired.map Prod.fst := by
  rcases connections_handedOver hc hy with ⟨rfl, rfl⟩ | ⟨-, z, hz, hchannel, -⟩
  · obtain rfl := Option.some.inj ho
    refine ⟨by simp, fun hmem => h.clonedFirst id j askedKey hid ?_⟩
    obtain ⟨p, hp, rfl⟩ := List.mem_map.mp hmem
    exact List.mem_map_of_mem (h.paired.2 p hp)
  · obtain ⟨hmem, hnot⟩ := h.queued j z o hz (hchannel ▸ ho)
    exact ⟨List.mem_append_left _ hmem, hnot⟩

/-- The entry of the listener is busy with what is in its channel now, and the others with what they
were busy with. -/
theorem busy_handedOver (h : Disciplined s) (hc : s.connections id = some c)
    (hphase : c.phase = .offering listener askedKey) (hx : s.connections listener = some x)
    (hne : listener ≠ id) (hgone : x.phase ≠ .gone) :
    (s.handedOver id c listener askedKey x).BusyAccounted := by
  intro d e (he : s.devices d = some e) hbusy
  have howned : (s.handedOver id c listener askedKey x).Owned d e.publicKey e.connectionId :=
    owned_handedOver hc hx hne hgone (h.owner d e he)
  obtain ⟨y, hy, -⟩ := howned
  rcases connections_handedOver hc hy with ⟨-, rfl⟩ | ⟨hother, z, hz, -, htaken⟩
  · exact .inr ⟨_, hy, .inl rfl⟩
  · rcases h.busy d e he hbusy with ⟨i, a, ho⟩ | ⟨z', hz', htaken'⟩
    · refine .inl ⟨i, a, (offering_handedOver hx hne).mpr ⟨?_, ho⟩⟩
      -- this thread's clone was of the listener's channel
      rintro rfl
      obtain ⟨_, hc', hphase'⟩ := ho
      obtain rfl := Option.some.inj (hc.symm.trans hc')
      rw [hphase] at hphase'
      exact hother (Phase.offering.inj hphase').1.symm
    · obtain rfl := Option.some.inj (hz.symm.trans hz')
      exact .inr ⟨y, hy, htaken htaken'⟩

/-- **Handing an offer over**: into an empty channel, by the only thread that can. The state after
it is `handedOver`, and each field of the invariant has its lemma above. -/
theorem Disciplined.delivered (h : Disciplined s) (hc : s.connections id = some c)
    (hphase : c.phase = .offering listener askedKey) (hx : s.connections listener = some x)
    (hne : listener ≠ id) (hgone : x.phase ≠ .gone) :
    Disciplined (s.handedOver id c listener askedKey x) := by
  have hid : s.Offering id listener askedKey := ⟨c, hc, hphase⟩
  have hlistens : ∀ {l a}, s.ListensUnder l a →
      (s.handedOver id c listener askedKey x).ListensUnder l a :=
    listensUnder_handedOver hc hx hne
  exact
    { owner := fun d e he => owned_handedOver hc hx hne hgone (h.owner d e he)
      free := by
        intro d e he hbusy
        obtain ⟨hclone, hnot⟩ := h.free d e he hbusy
        refine ⟨fun i a ho => hclone i a ((offering_handedOver hx hne).mp ho).2, ?_⟩
        change e.connectionId ∉
          (s.handed ++ [(listener, (⟨id, askedKey⟩ : PeerOffer))]).map Prod.fst
        have hother : e.connectionId ≠ listener := fun heq => hclone id askedKey (heq ▸ hid)
        simpa [hother] using hnot
      cloned := fun i j l a b hi hj => h.cloned i j l a b ((offering_handedOver hx hne).mp hi).2
        ((offering_handedOver hx hne).mp hj).2
      clonedFirst := by
        intro i l a hi
        obtain ⟨hne', ho⟩ := (offering_handedOver hx hne).mp hi
        change l ∉ (s.handed ++ [(listener, (⟨id, askedKey⟩ : PeerOffer))]).map Prod.fst
        have hother : l ≠ listener := fun heq =>
          hne' (h.cloned i id l a askedKey ho (heq ▸ hid))
        simpa [hother] using h.clonedFirst i l a ho
      handed := by
        change ((s.handed ++ [(listener, (⟨id, askedKey⟩ : PeerOffer))]).map Prod.fst).Nodup
        rw [List.map_append, List.nodup_append]
        refine ⟨h.handed, by simp, ?_⟩
        rintro l hl _ hlast rfl
        obtain rfl : l = listener := by simpa using hlast
        exact h.clonedFirst id l askedKey hid hl
      queued := fun j y o hy ho => queued_handedOver h hc hid hy ho
      paired := ⟨h.paired.1, fun p hp => List.mem_append_left _ (h.paired.2 p hp)⟩
      asked := fun i l a hi => hlistens (h.asked i l a ((offering_handedOver hx hne).mp hi).2)
      askedHanded := by
        intro p hp
        rcases List.mem_append.mp hp with hp | hp
        · exact hlistens (h.askedHanded p hp)
        · obtain rfl := List.mem_singleton.mp hp
          exact hlistens (h.asked id listener askedKey hid)
      busy := busy_handedOver h hc hphase hx hne hgone }

end HandedOver

/-- An offer is put into the channel, or it is lost as the listener's thread has ended. -/
theorem Disciplined.offer (h : Disciplined s) (hc : s.connections id = some c)
    {listener : ConnectionId} {askedKey : String}
    (hphase : c.phase = .offering listener askedKey) :
    Disciplined (s.offer id c listener askedKey) := by
  unfold Rendezvous.offer
  dsimp only
  split
  · rename_i hnone
    exact h.undelivered hc hphase fun x hx => by rw [hnone] at hx; cases hx
  · rename_i x hx
    split
    · rename_i hempty
      simp only [Bool.and_eq_true, Connection.receives, decide_eq_true_eq] at hempty
      obtain ⟨⟨hleaving, hgone⟩, -⟩ := hempty
      have hne : listener ≠ id := by
        rintro rfl
        simp only [Rendezvous.loop, connections_move] at hx
        obtain rfl := Option.some.inj hx
        exact hleaving rfl
      refine h.delivered hc hphase ?_ hne hgone
      simpa [Rendezvous.loop, hne] using hx
    · rename_i hfull
      refine h.undelivered hc hphase fun y hy => ?_
      obtain rfl := Option.some.inj (hx.symm.trans hy)
      simp only [Bool.and_eq_true, not_and, Bool.not_eq_true] at hfull
      rcases Bool.eq_false_or_eq_true x.receives with htrue | hfalse
      · right
        simpa using hfull htrue
      · exact .inl hfalse

/-- **Taking an offer** out of the channel, once: the listener leaves its loop with it. -/
theorem Disciplined.tryReceive (h : Disciplined s) (hc : s.connections id = some c)
    (hphase : c.phase = .receiving) : Disciplined (s.tryReceive id c) := by
  have hidle : Idle c.phase := by rw [hphase]; trivial
  have hending : ¬Ending c.phase := by rw [hphase]; rintro (h | h) <;> cases h
  simp only [Rendezvous.tryReceive]
  split
  · rename_i offer hchannel
    obtain ⟨hmem, hnot⟩ := h.queued id c offer hc hchannel
    let t := ({ s with paired := s.paired ++ [(id, offer)] } : Rendezvous).move id
      { c with phase := .relaying offer, channel := none }
    -- a listener offers nothing, so taking its offer is no end of another's
    have hoffering : ∀ {i l a}, t.Offering i l a ↔ s.Offering i l a := by
      intro i l a
      rw [offering_done (by simp)]
      refine ⟨And.right, fun ho => ⟨?_, ho⟩⟩
      rintro rfl
      obtain ⟨_, hc', hphase'⟩ := ho
      obtain rfl := Option.some.inj (hc.symm.trans hc')
      rw [hphase] at hphase'
      cases hphase'
    have hlistens : ∀ {l a}, s.ListensUnder l a → t.ListensUnder l a :=
      fun hl => ListensUnder.move hl hc rfl rfl
    have hmoved : ∀ {j y}, t.connections j = some y →
        (j = id ∧ y = { c with phase := .relaying offer, channel := none }) ∨
          (j ≠ id ∧ s.connections j = some y) := by
      intro j y hy
      simp only [t, connections_move] at hy
      by_cases hj : j = id
      · rw [if_pos hj] at hy
        exact .inl ⟨hj, (Option.some.inj hy).symm⟩
      · rw [if_neg hj] at hy
        exact .inr ⟨hj, hy⟩
    exact
      { owner := fun d e he => Owned.move (h.owner d e he) hc rfl (by simp)
        free := by
          intro d e he hbusy
          obtain ⟨hclone, hhanded⟩ := h.free d e he hbusy
          exact ⟨fun i a ho => hclone i a (hoffering.mp ho), hhanded⟩
        cloned := fun i j l a b hi hj => h.cloned i j l a b (hoffering.mp hi) (hoffering.mp hj)
        clonedFirst := fun i l a hi => h.clonedFirst i l a (hoffering.mp hi)
        handed := h.handed
        queued := by
          intro j y o hy ho
          rcases hmoved hy with ⟨-, rfl⟩ | ⟨hj, hy⟩
          · cases ho
          · obtain ⟨hmem', hnot'⟩ := h.queued j y o hy ho
            refine ⟨hmem', ?_⟩
            simpa [t, hj] using hnot'
        paired := by
          constructor
          · show ((s.paired ++ [(id, offer)]).map Prod.fst).Nodup
            rw [List.map_append, List.nodup_append]
            refine ⟨h.paired.1, by simp, ?_⟩
            rintro l hl _ hlast rfl
            obtain rfl : l = id := by simpa using hlast
            exact hnot hl
          · intro p hp
            rcases List.mem_append.mp hp with hp | hp
            · exact h.paired.2 p hp
            · obtain rfl := List.mem_singleton.mp hp
              exact hmem
        asked := fun i l a hi => hlistens (h.asked i l a (hoffering.mp hi))
        askedHanded := fun p hp => hlistens (h.askedHanded p hp)
        busy := by
          intro d e he hbusy
          rcases h.busy d e he hbusy with ⟨i, a, ho⟩ | ⟨x, hx, htaken⟩
          · exact .inl ⟨i, a, hoffering.mpr ho⟩
          · right
            by_cases hj : e.connectionId = id
            -- the entry stays busy: its thread relays what it has taken
            · exact ⟨{ c with phase := .relaying offer, channel := none }, by simp [hj],
                .inr (.inl ⟨offer, rfl⟩)⟩
            · exact ⟨x, by simpa [t, hj] using hx, htaken⟩ }
  · refine h.calm (Calm.of_move (Directory.within_refl s.devices) ?_)
    rw [hc]
    exact .of_idle hidle hending trivial rfl

/-- **Removing an entry**: only the one the ending thread registered. -/
theorem Disciplined.remove (h : Disciplined s) (hc : s.connections id = some c)
    (hphase : Ending c.phase) : Disciplined (s.remove id c) := by
  have hoffering : ∀ {i l a}, (s.remove id c).Offering i l a ↔ s.Offering i l a := by
    intro i l a
    simp only [Rendezvous.remove]
    rw [offering_done (by simp)]
    refine ⟨And.right, fun ho => ⟨?_, ho⟩⟩
    rintro rfl
    obtain ⟨_, hc', hphase'⟩ := ho
    obtain rfl := Option.some.inj (hc.symm.trans hc')
    rw [hphase'] at hphase
    rcases hphase with heq | heq <;> cases heq
  have hlistens : ∀ {l a}, s.ListensUnder l a → (s.remove id c).ListensUnder l a :=
    fun hl => ListensUnder.move hl hc rfl rfl
  -- no entry of this connection is left
  have hdevices : ∀ {d e}, (s.remove id c).devices d = some e →
      s.devices d = some e ∧ e.connectionId ≠ id := by
    intro d e he
    obtain ⟨he, hne⟩ := (Directory.removeDevice_eq_some _ _ _).mp he
    refine ⟨he, fun heq => ?_⟩
    obtain ⟨x, hx, -, -, hdevice, -⟩ := h.owner d e he
    rw [heq, hc] at hx
    obtain rfl := Option.some.inj hx
    exact hne hdevice.symm heq
  have hmoved : ∀ {j y}, j ≠ id → ((s.remove id c).connections j = some y ↔
      s.connections j = some y) := by
    intro j y hj
    simp [Rendezvous.remove, hj]
  exact
    { owner := by
        intro d e he
        obtain ⟨he, hne⟩ := hdevices he
        obtain ⟨x, hx, hrest⟩ := h.owner d e he
        exact ⟨x, (hmoved hne).mpr hx, hrest⟩
      free := by
        intro d e he hbusy
        obtain ⟨hclone, hhanded⟩ := h.free d e (hdevices he).1 hbusy
        exact ⟨fun i a ho => hclone i a (hoffering.mp ho), hhanded⟩
      cloned := fun i j l a b hi hj => h.cloned i j l a b (hoffering.mp hi) (hoffering.mp hj)
      clonedFirst := fun i l a hi => h.clonedFirst i l a (hoffering.mp hi)
      handed := h.handed
      queued := by
        intro j y o hy ho
        simp only [Rendezvous.remove, connections_move, connections_write] at hy
        split at hy
        · rename_i hj
          obtain rfl := Option.some.inj hy
          exact h.queued j c o (hj ▸ hc) ho
        · exact h.queued j y o hy ho
      paired := h.paired
      asked := fun i l a hi => hlistens (h.asked i l a (hoffering.mp hi))
      askedHanded := fun p hp => hlistens (h.askedHanded p hp)
      busy := by
        intro d e he hbusy
        obtain ⟨he, hne⟩ := hdevices he
        rcases h.busy d e he hbusy with ⟨i, a, ho⟩ | ⟨x, hx, htaken⟩
        · exact .inl ⟨i, a, hoffering.mpr ho⟩
        · exact .inr ⟨x, (hmoved hne).mpr hx, htaken⟩ }

/-- **Every step keeps the discipline.** -/
theorem Disciplined.step {t : Rendezvous} {label : RendezvousLabel} (h : Disciplined s)
    (hstep : rendezvous.step s label t) : Disciplined t := by
  cases label with
  | tick now =>
    obtain ⟨-, rfl⟩ := hstep
    exact h.calm ⟨Directory.within_refl _, fun _ => .same _, rfl, rfl⟩
  | register id device publicKey listen =>
    obtain ⟨hnone, rfl⟩ := hstep
    exact h.register hnone device publicKey listen
  | request =>
    obtain rfl := hstep
    exact h.calm ⟨Directory.within_expireDevices _ _, fun _ => .same _, rfl, rfl⟩
  | act id action =>
    obtain ⟨c, hc, hact⟩ := hstep
    cases action with
    | reply sent =>
      obtain ⟨hphase, rfl⟩ := hact
      refine h.calm (Calm.of_move (Directory.within_refl _) ?_)
      rw [hc]
      refine .of_idle (by rw [hphase]; trivial) ?_ (by cases sent <;> trivial) rfl
      rw [hphase]
      rintro (h | h) <;> cases h
    | checkPresence =>
      obtain ⟨hphase, rfl⟩ := hact
      refine h.calm (Calm.of_move (Directory.within_refl _) ?_)
      rw [hc]
      refine .of_idle (by rw [hphase]; trivial) ?_ (by dsimp only; split <;> trivial) rfl
      rw [hphase]
      rintro (h | h) <;> cases h
    | tryReceive =>
      obtain ⟨hphase, rfl⟩ := hact
      exact h.tryReceive hc hphase
    | heartbeat authorized sent =>
      obtain ⟨hphase, rfl⟩ := hact
      exact h.calm (Calm.heartbeat hc hphase authorized sent)
    | connect authorized target askedKey sent =>
      obtain ⟨hphase, rfl⟩ := hact
      exact h.calm (Calm.connect hc hphase authorized target askedKey sent)
    | idle =>
      obtain ⟨hphase, rfl⟩ := hact
      refine h.calm (Calm.loop (Directory.within_refl _) c hc ?_ ?_ rfl true)
      · rw [hphase]
        trivial
      · rw [hphase]
        exact not_ending_reading
    | leave =>
      obtain ⟨hphase, rfl⟩ := hact
      refine h.calm (Calm.of_move (Directory.within_refl _) ?_)
      rw [hc]
      refine .moved c _ rfl rfl rfl rfl (fun l a heq => ?_) trivial fun _ => .inl rfl
      rw [heq] at hphase
      rcases hphase with h | ⟨_, h⟩ <;> cases h
    | sweep =>
      obtain ⟨target, askedKey, hphase, rfl⟩ := hact
      refine h.calm (Calm.of_move (Directory.within_expireDevices _ _) ?_)
      rw [hc]
      refine .of_idle (by rw [hphase]; trivial) ?_ trivial rfl
      rw [hphase]
      rintro (h | h) <;> cases h
    | find sent =>
      obtain ⟨target, askedKey, hphase, rfl⟩ := hact
      exact h.find hc hphase sent
    | offer =>
      obtain ⟨listener, askedKey, hphase, rfl⟩ := hact
      exact h.offer hc hphase
    | remove =>
      obtain ⟨hphase, rfl⟩ := hact
      exact h.remove hc hphase

/-- At the start there are no entries, no connections and nothing that was handed over. -/
theorem disciplined_init (h : rendezvous.init s) : Disciplined s := by
  obtain ⟨hdevices, hconnections, hhanded, hpaired⟩ := h
  have hnone : ∀ i l a, ¬s.Offering i l a := by
    rintro i l a ⟨c, hc, -⟩
    rw [hconnections] at hc
    cases hc
  exact
    { owner := by simp [hdevices]
      free := by simp [hdevices]
      cloned := fun i j l a b hi _ => absurd hi (hnone i l a)
      clonedFirst := fun i l a hi => absurd hi (hnone i l a)
      handed := by simp [hhanded]
      queued := by simp [hconnections]
      paired := by simp [hpaired]
      asked := fun i l a hi => absurd hi (hnone i l a)
      askedHanded := by simp [hhanded]
      busy := by simp [BusyAccounted, hdevices] }

/-- A thread whose registration was superseded finds another connection in the entry of its device,
and does nothing to it. -/
theorem supersededHarmless (s : Rendezvous) : s.SupersededHarmless := by
  rintro id action t ⟨c, -, hact⟩ hmaintains d e he hne
  cases action with
  | heartbeat authorized sent =>
    obtain ⟨-, rfl⟩ := hact
    simp only [Rendezvous.heartbeat]
    split
    · exact Directory.touchDevice_of_ne _ _ _ _ he hne
    · exact he
  | connect authorized target askedKey sent =>
    obtain ⟨-, rfl⟩ := hact
    have htouched := Directory.touchDevice_of_ne s.devices c.deviceId id s.now he hne
    unfold Rendezvous.connect
    dsimp only
    split
    · exact he
    · split
      · exact he
      · split
        · exact htouched
        · split <;> exact htouched
  | checkPresence =>
    obtain ⟨-, rfl⟩ := hact
    exact he
  | remove =>
    obtain ⟨-, rfl⟩ := hact
    exact (Directory.removeDevice_eq_some _ _ _).mpr ⟨he, fun _ => hne⟩
  | reply | tryReceive | idle | leave | sweep | find | offer => cases hmaintains

/-- **The discipline of pairing.** In every reachable state of the server each listener was
handed at most one offer and paired at most once, a busy entry's offer is accounted for, the
thread of a superseded registration does not touch the entry of the newer one, and whoever
asked for a key was paired with a listener registered under it. -/
theorem pairing_discipline (h : rendezvous.Reachable s) :
    s.HandedOnce ∧ s.BusyAccounted ∧ s.SupersededHarmless ∧ s.AskedKeysKept := by
  have hinv : Disciplined s := h.invariant (fun _ => disciplined_init) fun _ _ _ => Disciplined.step
  exact ⟨⟨hinv.handed, hinv.paired⟩, hinv.busy, supersededHarmless s,
    fun p hp => hinv.askedHanded p (hinv.paired.2 p hp)⟩

end Steps

end Rendezvous

/-! ### A listener paired with an initiator -/

namespace FirstPairing

def host : DeviceId := ⟨123456789, DeviceId.ascending_inRange⟩
def viewer : DeviceId := ⟨987654321, DeviceId.descending_inRange⟩
def hostKey : PublicKey := Vector.replicate 32 1
def viewerKey : PublicKey := Vector.replicate 32 2

/-- The server with nobody there. -/
def empty : Rendezvous := ⟨0, fun _ => none, fun _ => none, [], []⟩

/-- The listener's connection, then the initiator's, in a phase. -/
def listener (phase : Phase) : Connection := ⟨host, hostKey, true, 0, 0, phase, none⟩
def initiator (phase : Phase) : Connection := ⟨viewer, viewerKey, false, 0, 0, phase, none⟩

/-- Both register, and the listener waits. -/
def waiting1 : Rendezvous := empty.register 1 host hostKey true
def waiting2 : Rendezvous := waiting1.reply 1 (listener .registering) true
def waiting3 : Rendezvous := waiting2.checkPresence 1 (listener .checking)
def waiting4 : Rendezvous := waiting3.register 2 viewer viewerKey false
def waiting5 : Rendezvous := waiting4.reply 2 (initiator .registering) true
def waiting6 : Rendezvous := waiting5.checkPresence 2 (initiator .checking)
def waiting7 : Rendezvous := waiting6.tryReceive 2 (initiator .receiving)

/-- The initiator asks for the listener, under its key. -/
def asked : Rendezvous :=
  waiting7.connect 2 (initiator .reading) true (some host) hostKey.toHex true
def swept : Rendezvous :=
  asked.sweep.move 2 (initiator (.finding host hostKey.toHex))
def found : Rendezvous :=
  (swept.write (Function.update swept.devices host (some ⟨hostKey, true, 1, 0⟩))).move 2
    (initiator (.offering 1 hostKey.toHex))
def offered : Rendezvous := found.offer 2 (initiator (.offering 1 hostKey.toHex)) 1 hostKey.toHex

/-- The listener takes the offer. -/
def taking : Connection := { listener .receiving with channel := some ⟨2, hostKey.toHex⟩ }
def relayed : Rendezvous := offered.tryReceive 1 taking

theorem found_eq : found = swept.find 2 (initiator (.finding host hostKey.toHex)) host
    hostKey.toHex true := by
  have hentry : swept.devices host = some ⟨hostKey, false, 1, 0⟩ := by decide +kernel
  have hfind : swept.devices.findTarget host hostKey.toHex =
      .ok (1, Function.update swept.devices host (some ⟨hostKey, true, 1, 0⟩)) := by
    simp [Directory.findTarget, hentry]
  simp only [Rendezvous.find, hfind]
  rfl

def run : List (RendezvousLabel × Rendezvous) :=
  [(.register 1 host hostKey true, waiting1), (.act 1 (.reply true), waiting2),
    (.act 1 .checkPresence, waiting3), (.register 2 viewer viewerKey false, waiting4),
    (.act 2 (.reply true), waiting5), (.act 2 .checkPresence, waiting6),
    (.act 2 .tryReceive, waiting7),
    (.act 2 (.connect true (some host) hostKey.toHex true), asked), (.act 2 .sweep, swept),
    (.act 2 (.find true), found), (.act 2 .offer, offered), (.act 1 .tryReceive, relayed)]

theorem init_empty : rendezvous.init empty := ⟨rfl, rfl, rfl, rfl⟩

theorem isRun_run : rendezvous.IsRun empty run :=
  ⟨⟨rfl, rfl⟩, ⟨_, rfl, rfl, rfl⟩, ⟨_, rfl, rfl, rfl⟩, ⟨rfl, rfl⟩, ⟨_, rfl, rfl, rfl⟩,
    ⟨_, rfl, rfl, rfl⟩, ⟨_, rfl, by decide +kernel, rfl⟩, ⟨_, rfl, rfl, rfl⟩,
    ⟨_, rfl, host, hostKey.toHex, rfl, rfl⟩, ⟨_, rfl, host, hostKey.toHex, rfl, found_eq⟩,
    ⟨_, rfl, 1, hostKey.toHex, rfl, rfl⟩, ⟨taking, rfl, rfl, rfl⟩, trivial⟩

theorem last_run : LTS.last empty run = relayed := by simp only [run, LTS.last]

theorem reachable_relayed : rendezvous.Reachable relayed :=
  last_run ▸ (LTS.Reachable.init init_empty).of_run isRun_run

/-- Two clients paired: the discipline holds and says something. -/
theorem discipline_of_relayed :
    (relayed.HandedOnce ∧ relayed.BusyAccounted ∧ relayed.SupersededHarmless ∧
      relayed.AskedKeysKept) ∧ relayed.paired = [(1, ⟨2, hostKey.toHex⟩)] :=
  ⟨Rendezvous.pairing_discipline reachable_relayed, rfl⟩

end FirstPairing

end SensorRemote
