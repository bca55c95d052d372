import SensorRemote.GrantFile
import SensorRemote.IdentityBinding
import SensorRemote.Updates

/-!
# Where unattended authority comes from

A grant outlives the window it was made in, and its file is in the open. Whatever is done to
the file, whenever windows are closed, die or are opened again: `load` accepts no grant but one the
user of the profile has made by allowing a contact; and where a worker has got the answer yes on the
stored authority, the user had allowed a contact of this device and this key, at most thirty days
before by the clock.

The protector says where the contents of the file are from (`Sound`): what it gives back for
the local key is a grant of an authorization on record. That takes that nobody but the windows uses
the protector in the context of a grant for this key; other programs of the same user could. From
there a grant goes through the window into the decisions about requests (`Within`).
-/

namespace SensorRemote.Unattended

open Bytes Program Identity Transition

/-! ## The grants in a window -/

/-- All grants in a window, the stored one and those that decided a request, are in `G`. -/
structure Within (G : Grant → Prop) (s : App) : Prop where
  stored : ∀ grant, s.unattended = some grant → G grant
  decided : ∀ reply request, s.requests reply = some request →
    ∀ listener grant now contacts,
      Decision.unattended listener (some grant) now contacts ∈ request.decisions → G grant

namespace Within

variable {G : Grant → Prop} {s s' : App}

/-- If more grants count as made, everything that was decided still stands. -/
theorem mono {G' : Grant → Prop} (hG : ∀ grant, G grant → G' grant) (h : Within G s) :
    Within G' s :=
  ⟨fun grant hgrant => hG grant (h.stored grant hgrant),
    fun reply request hrequest listener grant now contacts hmem =>
      hG grant (h.decided reply request hrequest listener grant now contacts hmem)⟩

/-- Only the stored grant and the requests matter. -/
theorem of_eq (h : Within G s) (hstored : s'.unattended = s.unattended)
    (hrequests : s'.requests = s.requests) : Within G s' := by
  refine ⟨?_, ?_⟩
  · rw [hstored]
    exact h.stored
  · rw [hrequests]
    exact h.decided

/-- What becomes of a request decides nothing, or on a grant that is in `G`. -/
theorem onRequest {reply : ℕ} {f : Request → Request} (h : Within G s)
    (hf : ∀ request : Request, ∀ decision ∈ (f request).decisions,
      decision ∈ request.decisions ∨
        ∀ listener grant now contacts,
          decision = .unattended listener (some grant) now contacts → G grant) :
    Within G (s.onRequest reply f) := by
  refine ⟨h.stored, fun reply' request hrequest listener grant now contacts hmem => ?_⟩
  by_cases heq : reply' = reply
  · subst heq
    simp only [App.onRequest, Function.update_self, Option.map_eq_some_iff] at hrequest
    obtain ⟨before, hbefore, rfl⟩ := hrequest
    rcases hf before _ hmem with hold | hnew
    · exact h.decided reply' before hbefore listener grant now contacts hold
    · exact hnew listener grant now contacts rfl
  · simp only [App.onRequest, Function.update_of_ne heq] at hrequest
    exact h.decided reply' request hrequest listener grant now contacts hmem

/-- An answer sends what was decided, and decides nothing. -/
theorem decisions_trySend (request : Request) (answer : Bool) :
    (request.trySend answer).decisions = request.decisions := by
  simp only [Request.trySend]
  split <;> rfl

theorem refuse (h : Within G s) (reply : ℕ) :
    Within G (s.onRequest reply (·.trySend false)) :=
  h.onRequest fun request decision hmem => .inl (by rwa [decisions_trySend] at hmem)

/-- A worker that gives up its request decides nothing. -/
theorem hangUp (h : Within G s) (reply : ℕ) :
    Within G (s.onRequest reply fun request => { request with receiving := false }) :=
  h.onRequest fun _ _ hmem => .inl hmem

/-- A request is accepted on a grant that counts as made, or by the user. -/
theorem accept {decision : Decision} (h : Within G s) (reply : ℕ)
    (hdecision : ∀ listener grant now contacts,
      decision = .unattended listener (some grant) now contacts → G grant) :
    Within G (s.onRequest reply (·.accept decision)) := by
  refine h.onRequest fun request decision' hmem => ?_
  rw [Request.accept, decisions_trySend] at hmem
  rcases List.mem_append.mp hmem with hmem | hmem
  · exact .inl hmem
  · obtain rfl := List.mem_singleton.mp hmem
    exact .inr hdecision

theorem dropPrompt (h : Within G s) : Within G s.dropPrompt := by
  simp only [App.dropPrompt]
  split
  · exact h
  · exact (h.of_eq rfl rfl : Within G { s with consent := none }).refuse _

/-- Ending a session decides nothing on a grant. -/
theorem clearSessionState (h : Within G s) (source : Bool) :
    Within G (s.clearSessionState source) := by
  have hdrop : ∀ t : App, Within G t →
      Within G (if t.consent.any (·.sourceListener = source) then t.dropPrompt else t) := by
    intro t ht
    split
    · exact ht.dropPrompt
    · exact ht
  apply hdrop _
  split
  · exact h.of_eq rfl rfl
  · exact h

/-- A worker whose channel is gone decides nothing. -/
theorem lose (h : Within G s) (source : Bool) : Within G (s.lose source) := by
  simp only [App.lose]
  refine clearSessionState ?_ source
  split <;> exact h.of_eq rfl rfl

theorem collect (h : Within G s) (source : Bool) (n : ℕ) : Within G (s.collect source n) := by
  simp only [App.collect]
  split
  · exact h
  · split
    · exact h
    · exact h.of_eq rfl rfl

/-- A grant that decides is the stored one. -/
theorem admitOrAsk (h : Within G s) (source : Bool) (peer : ExpectedPeer PublicKey)
    (mode : SessionMode) (reply : ℕ) (now : Option ℕ) :
    Within G (s.admitOrAsk source peer mode reply now) := by
  simp only [App.admitOrAsk]
  split
  · split
    · refine h.accept reply fun listener grant now' contacts heq => ?_
      obtain ⟨-, hstored, -, -⟩ := Decision.unattended.inj heq
      exact h.stored grant hstored
    · exact h.of_eq rfl rfl
  · exact h.of_eq rfl rfl

/-- A request for consent is decided on the stored grant, or it becomes a prompt. -/
theorem onConsent (h : Within G s) (source : Bool) (peer : ExpectedPeer PublicKey)
    (mode : SessionMode) (reply : ℕ) (now : Option ℕ) :
    Within G (s.onConsent source peer mode reply now) := by
  simp only [App.onConsent]
  split
  · exact h.refuse reply
  · split
    · exact h.refuse reply
    · split
      · exact (h.of_eq rfl rfl : Within G { s with listenerBusy := true }).admitOrAsk _ _ _ _ _
      · exact h.admitOrAsk _ _ _ _ _

theorem handle (h : Within G s) (source : Bool) (event : WorkerEvent) (now : Option ℕ) :
    Within G (s.handle source event now) := by
  cases event with
  | consent peer mode reply => exact h.onConsent source peer mode reply now
  | finished => exact h.lose source
  | other => exact h

/-- The user's answer to a prompt is no grant's. -/
theorem answer (h : Within G s) (accept : Bool) : Within G (s.answer accept) := by
  simp only [App.answer]
  split
  · exact h
  · rename_i prompt _
    have hprompt : Within G { s with consent := none } := h.of_eq rfl rfl
    cases accept with
    | true => exact hprompt.accept prompt.reply (by rintro _ _ _ _ ⟨⟩)
    | false => exact hprompt.refuse prompt.reply

/-- Saving a contact makes no grant; that takes the other button. -/
theorem saveContact (h : Within G s) (isAddress : String → Bool) (contact : Contact)
    (written : Bool) : Within G (s.saveContact isAddress contact written) := by
  simp only [App.saveContact]
  split
  · exact h
  · split
    · exact h
    · split
      · exact h.of_eq rfl rfl
      · exact h

/-- Allowing a contact stores the grant made for it. -/
theorem allow (h : Within G s) {contact : Contact} {now : ℕ}
    (hG : ∀ grant, peer contact.id contact.key >>= (Grant.new · now) = .ok grant → G grant) :
    Within G (s.allow contact now true) := by
  simp only [App.allow, if_true]
  split
  · exact h
  · rename_i grant hgrant
    refine ⟨fun grant' hstored => ?_, h.decided⟩
    obtain rfl := Option.some.inj hstored
    exact hG grant hgrant

section Steps

variable {σ ι ε : Type} {p : Primitives PublicKey σ ι ε} {isAddress : String → Bool}
  {identity : ι} {deviceId : DeviceId}

/-- A request made by a worker has not been decided. -/
theorem newRequest (h : Within G s) (reply : ℕ) {request : Request}
    (hrequest : request.decisions = []) :
    Within G { s with requests := Function.update s.requests reply (some request) } := by
  refine ⟨h.stored, fun reply' request' hrequest' listener grant now contacts hmem => ?_⟩
  by_cases heq : reply' = reply
  · subst heq
    simp only [Function.update_self, Option.some.injEq] at hrequest'
    rw [← hrequest', hrequest] at hmem
    cases hmem
  · simp only [Function.update_of_ne heq] at hrequest'
    exact h.decided reply' request' hrequest' listener grant now contacts hmem

/-- What is known of a worker decides nothing. -/
theorem setWorker (h : Within G s) (w : ℕ) (worker : Worker) : Within G (s.setWorker w worker) :=
  h.of_eq rfl rfl

/-- **Every step** of the application but the two buttons brings no grant in. -/
theorem step {label : AppLabel σ ε} (h : Within G s)
    (hstep : (appSystem p isAddress identity deviceId).step s label s')
    (hlabel : ∀ contact now written, label ≠ .allow contact now written) : Within G s' := by
  cases label with
  | begin w task =>
    obtain ⟨-, -, -, -, rfl⟩ := hstep
    exact h.of_eq rfl rfl
  | listen w deviceId =>
    obtain ⟨-, -, rfl⟩ := hstep
    exact h.of_eq rfl rfl
  | connect w hello ephemeral nonce =>
    obtain ⟨worker, task, peer, -, -, -, -, rfl⟩ := hstep
    exact h.setWorker w _
  | request w mode reply =>
    obtain ⟨worker, task, peer, -, -, -, -, rfl⟩ := hstep
    split
    · exact h.setWorker w _
    · exact (h.newRequest reply rfl).setWorker w _
  | receive w =>
    obtain ⟨worker, reply, peer, mode, request, accepted, -, -, -, -, rfl⟩ := hstep
    exact (h.hangUp reply).setWorker w _
  | giveUp w =>
    obtain ⟨worker, reply, peer, mode, -, -, rfl⟩ := hstep
    exact (h.hangUp reply).setWorker w _
  | emit w event =>
    obtain ⟨worker, -, ⟨-, rfl⟩ | ⟨-, -, rfl⟩⟩ := hstep
    · exact h.setWorker w _
    · exact h.setWorker w _
  | poll job listener =>
    obtain ⟨-, rfl⟩ := hstep
    exact (h.collect false job).collect true listener
  | handle now =>
    obtain ⟨source, event, rest, -, rfl⟩ := hstep
    exact (h.of_eq rfl rfl : Within G { s with polled := rest }).handle source event now
  | lose source =>
    obtain ⟨-, rfl⟩ := hstep
    exact h.lose source
  | answer accept =>
    obtain ⟨-, rfl⟩ := hstep
    exact h.answer accept
  | stop =>
    obtain ⟨-, rfl⟩ := hstep
    exact h.dropPrompt
  | saveContact contact written =>
    obtain ⟨-, -, rfl⟩ := hstep
    exact h.saveContact isAddress contact written
  | allow contact now written => exact absurd rfl (hlabel contact now written)
  | revoke =>
    obtain ⟨-, -, rfl⟩ := hstep
    have hrevoked : Within G { s with unattended := none } :=
      ⟨by rintro grant ⟨⟩, h.decided⟩
    exact hrevoked.dropPrompt

end Steps

end Within

/-! ## What workers leave alone -/

/-- What the button for a contact depends on is the same. -/
structure SameWindow (s s' : App) : Prop where
  contacts : s'.contacts = s.contacts
  consent : s'.consent = s.consent
  job : s'.job = s.job
  busy : s'.listenerBusy = s.listenerBusy
  polled : s'.polled = s.polled

theorem SameWindow.refl (s : App) : SameWindow s s := ⟨rfl, rfl, rfl, rfl, rfl⟩

theorem Clickable.same {contact : Contact} {s s' : App} (h : Clickable contact s)
    (hsame : SameWindow s s') : Clickable contact s' :=
  ⟨hsame.polled.trans h.polled, hsame.consent.trans h.consent, hsame.contacts ▸ h.known,
    hsame.job.trans h.job, hsame.busy.trans h.idle⟩

section Workers

variable {σ ι ε : Type} {p : Primitives PublicKey σ ι ε} {isAddress : String → Bool}
  {identity : ι} {deviceId : DeviceId}

/-- Steps of the workers leave the buttons as they are. -/
theorem SameWindow.of_workers {s s' : App} {label : AppLabel σ ε} (hlabel : OfWorkers label)
    (hstep : (appSystem p isAddress identity deviceId).step s label s') : SameWindow s s' := by
  cases label with
  | connect w hello ephemeral nonce =>
    obtain ⟨worker, task, peer, -, -, -, -, rfl⟩ := hstep
    exact ⟨rfl, rfl, rfl, rfl, rfl⟩
  | request w mode reply =>
    obtain ⟨worker, task, peer, -, -, -, -, rfl⟩ := hstep
    split <;> exact ⟨rfl, rfl, rfl, rfl, rfl⟩
  | receive w =>
    obtain ⟨worker, reply, peer, mode, request, accepted, -, -, -, -, rfl⟩ := hstep
    exact ⟨rfl, rfl, rfl, rfl, rfl⟩
  | giveUp w =>
    obtain ⟨worker, reply, peer, mode, -, -, rfl⟩ := hstep
    exact ⟨rfl, rfl, rfl, rfl, rfl⟩
  | emit w event =>
    obtain ⟨worker, -, ⟨-, rfl⟩ | ⟨-, -, rfl⟩⟩ := hstep <;> exact ⟨rfl, rfl, rfl, rfl, rfl⟩
  | _ => exact hlabel.elim

/-- The button to allow a contact is no step of a worker. -/
theorem ne_allow_of_workers {label : AppLabel σ ε} (h : OfWorkers label) (contact : Contact)
    (now : ℕ) (written : Bool) : label ≠ .allow contact now written := by
  rintro rfl
  exact h

theorem ne_allow_of_window {label : AppLabel σ ε} (h : OfWindow label) (contact : Contact)
    (now : ℕ) (written : Bool) : label ≠ .allow contact now written := by
  rintro rfl
  exact h

end Workers

/-! ## Authorizations -/

/-- A grant that was made when the user allowed a contact. -/
def Profile.Allowed (w : Profile) (grant : Grant) : Prop :=
  ∃ authorization ∈ w.allowed, authorization.grant = grant

/-- The grant of an authorization is for the device and the key of its contact, from the moment
the contact was allowed. -/
def Authorization.Made (authorization : Authorization) : Prop :=
  peer authorization.contact.id authorization.contact.key >>=
    (Grant.new · authorization.now) = .ok authorization.grant

/-- What a grant made by the user says. -/
theorem Grant.new_ok {device : ExpectedPeer PublicKey} {now : ℕ} {grant : Grant}
    (h : Grant.new device now = .ok grant) :
    grant = ⟨device.deviceId, device.publicKey, now, now + MAX_LIFETIME⟩ ∧
      now + MAX_LIFETIME < 2 ^ 64 := by
  simp only [Grant.new] at h
  split at h
  · cases h
  · split at h
    · cases h
    · rename_i hdate
      exact ⟨(Except.ok.inj h).symm, by omega⟩

/-- An authorization was made for the device and key of its contact, at its moment. -/
theorem Authorization.Made.peer {authorization : Authorization} (h : authorization.Made) :
    ∃ device, SensorRemote.peer authorization.contact.id authorization.contact.key = .ok device ∧
      Grant.new device authorization.now = .ok authorization.grant := by
  cases hpeer : SensorRemote.peer authorization.contact.id authorization.contact.key with
  | error error =>
    rw [Authorization.Made, hpeer] at h
    cases h
  | ok device =>
    rw [Authorization.Made, hpeer] at h
    exact ⟨device, rfl, h⟩

section Profile

variable {σ ι ε : Type} {p : Primitives PublicKey σ ι ε} {isAddress : String → Bool}
  {identity : ι} {deviceId : DeviceId} {protector : KeyProtector} {foreign : Protection → Prop}
  {localKey : PublicKey}
  {json : GrantReader} {i : ProfileThread} {n : ℕ} {w w' : Profile}

/-- What is true of every profile. -/
structure Sound (p : Primitives PublicKey σ ι ε) (isAddress : String → Bool) (identity : ι)
    (deviceId : DeviceId) (localKey : PublicKey) (json : GrantReader) (w : Profile) : Prop where
  allowed : ∀ authorization ∈ w.allowed, authorization.Made
  /-- what is protected for the local key is a grant that was made, or none -/
  protections : ∀ protection ∈ w.protections, protection.context = context localKey →
    ∃ grant, protection.plaintext = toVec grant ∧
      ∀ g, grant = some g → w.Allowed g
  /-- the window is one that could be open, and its grants were made -/
  app : ∀ s, w.app = some s →
    (appSystem p isAddress identity deviceId).Reachable s ∧ Within w.Allowed s

/-- Nothing that was done is undone. -/
structure Grows (w w' : Profile) : Prop where
  allowed : w.allowed ⊆ w'.allowed
  protections : w.protections ⊆ w'.protections

theorem Grows.refl (w : Profile) : Grows w w := ⟨List.Subset.refl _, List.Subset.refl _⟩

/-- What was allowed stays allowed. -/
theorem Grows.mono (h : Grows w w') {grant : Grant} (hgrant : w.Allowed grant) :
    w'.Allowed grant := by
  obtain ⟨authorization, hmem, hgrant⟩ := hgrant
  exact ⟨authorization, h.allowed hmem, hgrant⟩

/-- A window that has the lock still has it, and its buttons are as they were. -/
def Undisturbed (n : ℕ) (w w' : Profile) : Prop :=
  w.holder = some n → w'.holder = some n ∧
    ∀ s, w.app = some s → ∃ s', w'.app = some s' ∧ SameWindow s s'

/-- What the threads of a profile keep between them. -/
def profileRegime (p : Primitives PublicKey σ ι ε) (isAddress : String → Bool) (identity : ι)
    (deviceId : DeviceId) (protector : KeyProtector)
    (foreign : Protection → Prop) (localKey : PublicKey) (json : GrantReader) :
    Regime (profileMachine p isAddress identity deviceId protector foreign) where
  inv := Sound p isAddress identity deviceId localKey json
  guar i w w' := Grows w w' ∧ ∀ n, i ≠ .window n → Undisturbed n w w'
  rely i w w' := Grows w w' ∧ ∀ n, i = .window n → Undisturbed n w w'
  compatible i j w w' hij _ _ hguar := ⟨hguar.1, fun n hn => hguar.2 n (hn ▸ hij)⟩
  vanishing i w w' hw hvanish := by
    have hsame : w' = w → Sound p isAddress identity deviceId localKey json w' ∧
        Grows w w' ∧ ∀ n, i ≠ .window n → Undisturbed n w w' := by
      rintro rfl
      exact ⟨hw, .refl _, fun n _ h => ⟨h, fun s hs => ⟨s, hs, .refl s⟩⟩⟩
    cases i with
    | window n =>
      obtain rfl : w' = _ := hvanish
      split
      · rename_i hn
        refine ⟨⟨hw.allowed, hw.protections, by simp⟩, ⟨List.Subset.refl _, List.Subset.refl _⟩,
          fun m hm hholder => ?_⟩
        obtain rfl := Option.some.inj (hn.symm.trans hholder)
        exact absurd rfl hm
      · exact ⟨hw, .refl _, fun m _ h => ⟨h, fun s hs => ⟨s, hs, .refl s⟩⟩⟩
    | workers n => exact hsame hvanish
    | outside => exact hsame hvanish

/-- A step that does not touch what is known. -/
theorem Sound.same (hw : Sound p isAddress identity deviceId localKey json w) (w' : Profile)
    (hallowed : w'.allowed = w.allowed) (hprotections : w'.protections = w.protections)
    (happ : w'.app = w.app) : Sound p isAddress identity deviceId localKey json w' ∧
      Grows w w' := by
  have hgrows : Grows w w' := ⟨by rw [hallowed]; exact List.Subset.refl _,
    by rw [hprotections]; exact List.Subset.refl _⟩
  refine ⟨⟨?_, ?_, ?_⟩, hgrows⟩
  · rw [hallowed]
    exact hw.allowed
  · rw [hprotections]
    intro protection hmem hcontext
    obtain ⟨grant, hcode, hgrant⟩ := hw.protections protection hmem hcontext
    exact ⟨grant, hcode, fun g hg => hgrows.mono (hgrant g hg)⟩
  · rw [happ]
    intro s hs
    exact (hw.app s hs).imp_right fun h => h.mono fun _ => hgrows.mono

/-- The window goes on. -/
theorem Sound.setApp (hw : Sound p isAddress identity deviceId localKey json w) {s : App}
    (hreach : (appSystem p isAddress identity deviceId).Reachable s)
    (hwithin : Within w.Allowed s) :
    Sound p isAddress identity deviceId localKey json { w with app := some s } ∧
      Grows w { w with app := some s } := by
  refine ⟨⟨hw.allowed, hw.protections, fun s' hs' => ?_⟩, List.Subset.refl _, List.Subset.refl _⟩
  obtain rfl := Option.some.inj hs'
  exact ⟨hreach, hwithin⟩

/-! ## The programs keep it -/

abbrev ProfileOutline (p : Primitives PublicKey σ ι ε) (isAddress : String → Bool) (identity : ι)
    (deviceId : DeviceId) (protector : KeyProtector)
    (foreign : Protection → Prop) (localKey : PublicKey) (json : GrantReader)
    (i : ProfileThread) {α : Type} (P : Profile → Prop) (x : Prog (ProfileOp σ ε) α)
    (Q : α → Profile → Prop) : Prop :=
  Outline (profileRegime p isAddress identity deviceId protector foreign localKey json) i P x Q

/-- A step that leaves the window and its lock alone, and may add to what is known. -/
structure Quiet (w w' : Profile) : Prop where
  app : w'.app = w.app
  holder : w'.holder = w.holder
  grows : Grows w w'

theorem Quiet.undisturbed (h : Quiet w w') (n : ℕ) : Undisturbed n w w' :=
  fun hholder => ⟨h.holder.trans hholder, fun s hs => ⟨s, h.app.trans hs, .refl s⟩⟩

/-- An assertion that quiet steps keep, and the steps of others. -/
structure Steady (n : ℕ) (P : Profile → Prop) : Prop where
  quiet : ∀ w w', Quiet w w' → P w → P w'
  others : ∀ w w', Grows w w' → Undisturbed n w w' → P w → P w'

theorem Steady.stable {P : Profile → Prop} (h : Steady n P) :
    (profileRegime p isAddress identity deviceId protector foreign localKey json).Stable
      (.window n) P :=
  fun w w' _ _ hP hrely => h.others w w' hrely.1 (hrely.2 n rfl) hP

/-- The window has the lock. -/
def Held (n : ℕ) (w : Profile) : Prop := w.holder = some n

theorem steady_held : Steady n (Held n) where
  quiet _ _ h hn := h.holder.trans hn
  others _ _ _ h hn := (h hn).1

theorem Steady.and {P Q : Profile → Prop} (hP : Steady n P) (hQ : Steady n Q) :
    Steady n fun w => P w ∧ Q w where
  quiet w w' h hw := ⟨hP.quiet w w' h hw.1, hQ.quiet w w' h hw.2⟩
  others w w' hg h hw := ⟨hP.others w w' hg h hw.1, hQ.others w w' hg h hw.2⟩

/-- A grant that was allowed stays allowed, whatever the others do. -/
theorem steady_grants (grant : Option Grant) :
    Steady n fun w => ∀ g, grant = some g → w.Allowed g where
  quiet _ _ h hw g hg := h.grows.mono (hw g hg)
  others _ _ hgrows _ hw g hg := hgrows.mono (hw g hg)

theorem steady_authorization (authorization : Authorization) :
    Steady n fun w => authorization ∈ w.allowed where
  quiet _ _ h hw := h.grows.allowed hw
  others _ _ hgrows _ hw := hgrows.allowed hw

/-- The window has the lock, and the button for a contact can be clicked. -/
def Ready (n : ℕ) (contact : Contact) (w : Profile) : Prop :=
  Held n w ∧ ∃ s, w.app = some s ∧ Clickable contact s

/-- The button for a contact can be clicked until the window itself goes on: the workers leave what
it depends on as it is. -/
theorem steady_ready (contact : Contact) : Steady n (Ready n contact) where
  quiet _ _ h hw := by
    obtain ⟨hn, s, hs, hclick⟩ := hw
    exact ⟨h.holder.trans hn, s, h.app.trans hs, hclick⟩
  others _ _ _ h hw := by
    obtain ⟨hn, s, hs, hclick⟩ := hw
    obtain ⟨s', hs', hsame⟩ := (h hn).2 s hs
    exact ⟨(h hn).1, s', hs', hclick.same hsame⟩

section Window

variable {α β δ : Type} {P : Profile → Prop}

/-- A quiet operation. -/
theorem correct_quiet {o : ProfileOp σ ε β} {R : β → Profile → Prop}
    (hstep : ∀ w b w', Sound p isAddress identity deviceId localKey json w → P w →
      w.Does p isAddress identity deviceId protector foreign i o b w' →
      Quiet w w' ∧ Sound p isAddress identity deviceId localKey json w' ∧ R b w') :
    (profileRegime p isAddress identity deviceId protector foreign localKey json).Correct i P
      o R := by
  intro w b w' hw hP hdoes
  obtain ⟨hquiet, hsound, hR⟩ := hstep w b w' hw hP hdoes
  exact ⟨hsound, ⟨hquiet.grows, fun m _ => hquiet.undisturbed m⟩, hR⟩

/-- A quiet operation that adds nothing. -/
theorem Sound.quiet (hw : Sound p isAddress identity deviceId localKey json w) (w' : Profile)
    (hallowed : w'.allowed = w.allowed) (hprotections : w'.protections = w.protections)
    (happ : w'.app = w.app) (hholder : w'.holder = w.holder) :
    Quiet w w' ∧ Sound p isAddress identity deviceId localKey json w' := by
  obtain ⟨hsound, hgrows⟩ := hw.same w' hallowed hprotections happ
  exact ⟨⟨happ, hholder, hgrows⟩, hsound⟩

/-- An operation of `load`, `save` or `allow` that may fail, on the way. -/
theorem attempt_seq {o : ProfileOp σ ε (Except δ α)} {f : δ → GrantError}
    {k : α → ProfileProg σ ε β} {R : α → Profile → Prop} {Q : β → Profile → Prop}
    (hP : Steady n P)
    (hcorrect : (profileRegime p isAddress identity deviceId protector foreign localKey
      json).Correct
      (.window n) P o (Outline.Outcome R fun _ => P))
    (hk : ∀ a, ProfileOutline p isAddress identity deviceId protector foreign localKey json
      (.window n)
      (R a) (k a) (Outline.Outcome Q fun _ => P)) :
    ProfileOutline p isAddress identity deviceId protector foreign localKey json (.window n) P
      ((Fallible.attempt o).mapError f >>= k : ProfileProg σ ε β)
      (Outline.Outcome Q fun _ => P) := by
  refine .op hP.stable hcorrect fun r => ?_
  rcases r with error | a
  · exact .ret hP.stable fun _ _ h => h
  · exact hk a

/-- `load` returns grants that were made. -/
theorem outline_load (hjson : GrantReader.Laws json)
    (hprotector : AuthenticatedEncryption protector)
    (hP : Steady n P) :
    ProfileOutline p isAddress identity deviceId protector foreign localKey json (.window n) P
      (load json localKey)
      (Outline.Outcome (fun grant w => P w ∧ (∀ g, grant = some g → w.Allowed g) ∧
        ∀ g, grant = some g → g.valid = true) fun _ => P) := by
  refine .op (R := fun _ => P) hP.stable (correct_quiet ?_) fun r => ?_
  · rintro w r w' hw hheld hdoes
    have heq : w' = w := by rcases r with error | bytes <;> exact hdoes.2
    obtain ⟨hquiet, hsound⟩ := hw.quiet w' (by rw [heq]) (by rw [heq]) (by rw [heq])
      (by rw [heq])
    exact ⟨hquiet, hsound, heq ▸ hheld⟩
  rcases r with error | bytes
  · cases error with
    | notFound =>
      exact (.ret hP.stable fun w _ h => ⟨h, by simp, by simp⟩)
    | _ => exact .ret hP.stable fun _ _ h => h
  refine Outline.check_seq hP.stable (fun _ _ h => h) fun _ => ?_
  -- what the protector gives back was protected for the local key
  refine attempt_seq (R := fun data w => P w ∧ ∃ grant, data = toVec grant ∧
      (∀ g, grant = some g → w.Allowed g) ∧
      ∀ g, grant = some g → g.issuedUnix < 2 ^ 64 ∧ g.expiresUnix < 2 ^ 64)
    hP (correct_quiet ?_) fun data => ?_
  · rintro w r w' hw hheld ⟨hresult, rfl⟩
    obtain ⟨hquiet, hsound⟩ := hw.quiet w' rfl rfl rfl rfl
    refine ⟨hquiet, hsound, ?_⟩
    rcases r with error | data
    · exact hheld
    · have hmem := hprotector.authentic _ _ _ _ hresult.symm
      obtain ⟨grant, hcode, hallowed⟩ := hw.protections _ hmem rfl
      refine ⟨hheld, grant, hcode, hallowed, fun g hg => ?_⟩
      obtain ⟨authorization, hauthorization, rfl⟩ := hallowed g hg
      obtain ⟨device, -, hnew⟩ := (hw.allowed authorization hauthorization).peer
      obtain ⟨heq, hdate⟩ := Grant.new_ok hnew
      rw [heq]
      exact ⟨by dsimp only; omega, hdate⟩
  have hdata : Steady n fun w => P w ∧ ∃ grant, data = toVec grant ∧
      (∀ g, grant = some g → w.Allowed g) ∧
      ∀ g, grant = some g → g.issuedUnix < 2 ^ 64 ∧ g.expiresUnix < 2 ^ 64 := by
    refine hP.and ⟨?_, ?_⟩
    · rintro w w' hquiet ⟨grant, hcode, hallowed, hdates⟩
      exact ⟨grant, hcode, (steady_grants (n := n) grant).quiet w w' hquiet hallowed, hdates⟩
    · rintro w w' hgrows hothers ⟨grant, hcode, hallowed, hdates⟩
      exact ⟨grant, hcode, (steady_grants (n := n) grant).others w w' hgrows hothers hallowed,
        hdates⟩
  refine Outline.check_seq hdata.stable (fun _ _ h => h.1) fun _ => ?_
  refine Outline.ofExcept_seq hdata.stable (fun _ _ _ _ h => h.1) fun grant hgrant => ?_
  have hread : json data = .ok grant := by
    cases hslice : json data with
    | error error =>
      rw [hslice] at hgrant
      cases hgrant
    | ok grant' =>
      rw [hslice] at hgrant
      rw [Except.ok.inj hgrant]
  refine Outline.check_seq hdata.stable (fun _ _ h => h.1) fun hvalid => ?_
  refine .ret hdata.stable fun w _ h => ?_
  obtain ⟨hheld, grant', hcode, hallowed, hdates⟩ := h
  rw [hcode, hjson grant' hdates] at hread
  obtain rfl := Except.ok.inj hread
  refine ⟨hheld, hallowed, ?_⟩
  rintro g rfl
  exact hvalid

/-- `save` protects a grant that was made, or none. -/
theorem outline_save {grant : Option Grant} (hP : Steady n P)
    (hallowed : ∀ w, P w → ∀ g, grant = some g → w.Allowed g) :
    ProfileOutline p isAddress identity deviceId protector foreign localKey json (.window n) P
      (save localKey grant) (Outline.Outcome (fun _ => P) fun _ => P) := by
  refine Outline.check_seq hP.stable (fun _ _ h => h) fun _ => ?_
  refine attempt_seq (R := fun _ => P) hP (correct_quiet ?_) fun ciphertext => ?_
  · rintro w r w' hw hPw hdoes
    rcases r with error | ciphertext
    · rw [show w' = w from hdoes]
      obtain ⟨hquiet, hsound⟩ := hw.quiet w rfl rfl rfl rfl
      exact ⟨hquiet, hsound, hPw⟩
    · obtain ⟨-, rfl⟩ := hdoes
      have hgrows : Grows w
          { w with protections := w.protections ++
            [⟨toVec grant, context localKey, ciphertext⟩] } :=
        ⟨List.Subset.refl _, List.subset_append_left _ _⟩
      have hquiet : Quiet w
          { w with protections := w.protections ++
            [⟨toVec grant, context localKey, ciphertext⟩] } :=
        ⟨rfl, rfl, hgrows⟩
      refine ⟨hquiet, ⟨hw.allowed, fun protection hmem hcontext => ?_, hw.app⟩,
        hP.quiet _ _ hquiet hPw⟩
      rcases List.mem_append.mp hmem with hmem | hmem
      · exact hw.protections protection hmem hcontext
      · obtain rfl := List.mem_singleton.mp hmem
        exact ⟨grant, rfl, hallowed w hPw⟩
  refine Outline.check_seq hP.stable (fun _ _ h => h) fun _ => ?_
  refine attempt_seq (R := fun _ => P) hP (correct_quiet ?_) fun _ => ?_
  · rintro w r w' hw hPw hdoes
    rw [show w' = w from hdoes]
    obtain ⟨hquiet, hsound⟩ := hw.quiet w rfl rfl rfl rfl
    exact ⟨hquiet, hsound, by cases r <;> exact hPw⟩
  refine .attempt (R := Outline.Outcome (fun _ => P) fun _ => P) hP.stable (correct_quiet ?_)
    fun r => ?_
  · rintro w r w' hw hPw hdoes
    rcases r with error | ⟨⟩
    · rw [show w' = w from hdoes]
      obtain ⟨hquiet, hsound⟩ := hw.quiet w rfl rfl rfl rfl
      exact ⟨hquiet, hsound, hPw⟩
    · obtain rfl : w' = { w with file := some ciphertext } := hdoes
      obtain ⟨hquiet, hsound⟩ :=
        hw.quiet { w with file := some ciphertext } rfl rfl rfl rfl
      exact ⟨hquiet, hsound, hP.quiet _ _ hquiet hPw⟩
  · rcases r with error | ⟨⟩ <;> exact .ret hP.stable fun _ _ h => h

/-- The user allows a contact: what the window adopts in the end was made for it. -/
theorem outline_allow (contact : Contact) :
    ProfileOutline p isAddress identity deviceId protector foreign localKey json (.window n)
      (Ready n contact) (allow localKey contact)
      (Outline.Outcome (fun _ => Held n) fun _ => Held n) := by
  have hready := steady_ready (n := n) contact
  refine Outline.ofExcept_seq hready.stable (fun _ _ _ _ h => h.1) fun device hdevice => ?_
  refine .op (R := fun _ => Ready n contact) hready.stable (correct_quiet ?_) fun r => ?_
  · rintro w r w' hw hPw hdoes
    rw [show w' = w from hdoes]
    obtain ⟨hquiet, hsound⟩ := hw.quiet w rfl rfl rfl rfl
    exact ⟨hquiet, hsound, hPw⟩
  rcases r with error | now
  · exact .ret hready.stable fun _ _ h => h.1
  refine Outline.ofExcept_seq hready.stable (fun _ _ _ _ h => h.1) fun grant hgrant => ?_
  have hmade : Authorization.Made ⟨contact, now, grant⟩ := by
    rw [Authorization.Made]
    cases hpeer : peer contact.id contact.key with
    | error error =>
      rw [hpeer] at hdevice
      cases hdevice
    | ok device' =>
      rw [hpeer] at hdevice
      obtain rfl := Except.ok.inj hdevice
      cases hnew : Grant.new device' now with
      | error error =>
        rw [hnew] at hgrant
        cases hgrant
      | ok grant' =>
        rw [hnew] at hgrant
        obtain rfl := Except.ok.inj hgrant
        exact hnew
  have hauthorized : Steady n fun w => Ready n contact w ∧ ⟨contact, now, grant⟩ ∈ w.allowed :=
    hready.and (steady_authorization _)
  refine Outline.perform_seq
    (R := fun _ w => Ready n contact w ∧ ⟨contact, now, grant⟩ ∈ w.allowed) hready.stable
    (correct_quiet ?_) fun _ => ?_
  · rintro w ⟨⟩ w' hw hPw hdoes
    obtain rfl : w' = { w with allowed := w.allowed ++ [⟨contact, now, grant⟩] } := hdoes
    have hgrows : Grows w { w with allowed := w.allowed ++ [⟨contact, now, grant⟩] } :=
      ⟨List.subset_append_left _ _, List.Subset.refl _⟩
    have hquiet : Quiet w { w with allowed := w.allowed ++ [⟨contact, now, grant⟩] } :=
      ⟨rfl, rfl, hgrows⟩
    refine ⟨hquiet, ⟨fun authorization hmem => ?_, fun protection hmem hcontext => ?_,
      fun s hs => (hw.app s hs).imp_right fun h => h.mono fun _ => hgrows.mono⟩,
      hready.quiet _ _ hquiet hPw, List.mem_append_right _ (List.mem_singleton.mpr rfl)⟩
    · rcases List.mem_append.mp hmem with hmem | hmem
      · exact hw.allowed authorization hmem
      · obtain rfl := List.mem_singleton.mp hmem
        exact hmade
    · obtain ⟨grant', hcode, hgrant'⟩ := hw.protections protection hmem hcontext
      exact ⟨grant', hcode, fun g hg => hgrows.mono (hgrant' g hg)⟩
  refine (outline_save hauthorized ?_).onward (fun _ => hauthorized.stable)
    (fun _ _ _ h => h.1.1) fun _ => ?_
  · rintro w ⟨-, hmem⟩ g hg
    obtain rfl := Option.some.inj hg
    exact ⟨_, hmem, rfl⟩
  refine .op (R := fun _ => Held n) hauthorized.stable ?_ fun _ =>
    .ret steady_held.stable fun _ _ h => h
  rintro w ⟨⟩ w' hw ⟨⟨hheld, s, hs, hclick⟩, hmem⟩ ⟨s', hs', rfl⟩
  obtain rfl := Option.some.inj (hs.symm.trans hs')
  obtain ⟨hreach, hwithin⟩ := hw.app s hs
  have hadopted : (appSystem p isAddress identity deviceId).Reachable
      (s.allow contact now true) :=
    hreach.step (l := .allow contact now true)
      ⟨hclick.polled, hclick.consent, hclick.known, hclick.job, hclick.idle, rfl⟩
  have hwithin' : Within w.Allowed (s.allow contact now true) := by
    refine hwithin.allow fun grant' hgrant' => ⟨⟨contact, now, grant⟩, hmem, ?_⟩
    exact Except.ok.inj (hmade.symm.trans hgrant')
  obtain ⟨hsound, hgrows⟩ := hw.setApp hadopted hwithin'
  refine ⟨hsound, ⟨hgrows, fun m hm hholder => ?_⟩, hheld⟩
  obtain rfl := Option.some.inj (hheld.symm.trans hholder)
  exact absurd rfl hm

/-- The window of a profile that has the lock takes its next step. -/
theorem correct_app {o : ProfileOp σ ε β} {R : β → Profile → Prop}
    (hstep : ∀ w b w', Sound p isAddress identity deviceId localKey json w → Held n w → P w →
      w.Does p isAddress identity deviceId protector foreign (.window n) o b w' →
      Sound p isAddress identity deviceId localKey json w' ∧ Grows w w' ∧ R b w')
    (hheld : ∀ w, P w → Held n w) :
    (profileRegime p isAddress identity deviceId protector foreign localKey json).Correct
      (.window n) P o
      R := by
  intro w b w' hw hP hdoes
  have hn := hheld w hP
  obtain ⟨hsound, hgrows, hR⟩ := hstep w b w' hw hn hP hdoes
  refine ⟨hsound, ⟨hgrows, fun m hm hholder => ?_⟩, hR⟩
  obtain rfl := Option.some.inj (hn.symm.trans hholder)
  exact absurd rfl hm

/-- The window returns. -/
theorem outline_leave : ProfileOutline p isAddress identity deviceId protector foreign localKey json
    (.window n) (Held n) (.perform .leave) fun _ _ => True := by
  have htrue : (profileRegime p isAddress identity deviceId protector foreign localKey json).Stable
      (.window n) fun _ => True := fun _ _ _ _ _ _ => trivial
  refine .perform steady_held.stable (correct_app ?_ fun _ h => h) fun _ => htrue
  rintro w ⟨⟩ w' hw - - rfl
  exact ⟨⟨hw.allowed, hw.protections, by simp⟩, ⟨List.Subset.refl _, List.Subset.refl _⟩, trivial⟩

/-- What the window may do next. -/
def Chosen (n : ℕ) : WindowAction σ ε → Profile → Prop
  | .allow contact => Ready n contact
  | _ => Held n

/-- The window does what it has chosen, one call after the other, and adopts a grant only after it
was allowed. -/
theorem outline_act (action : WindowAction σ ε) :
    ProfileOutline p isAddress identity deviceId protector foreign localKey json (.window n)
      (Chosen n action) (act localKey action)
      (Sum.elim (fun _ => Held n) fun _ => Held n) := by
  have hstable :
    (profileRegime p isAddress identity deviceId protector foreign localKey json).Stable
      (.window n) (Held n) := steady_held.stable
  cases action with
  | app label => exact .ret hstable fun _ _ h => h
  | allow contact =>
    refine (outline_allow contact).bind fun r => ?_
    cases r <;> exact .ret hstable fun _ _ h => h
  | revoke =>
    refine (outline_save steady_held (by simp)).bind fun r => ?_
    cases r <;> exact .ret hstable fun _ _ h => h
  | close => exact .ret hstable fun _ _ h => h

/-- The window chooses its next step. -/
theorem correct_next :
    (profileRegime p isAddress identity deviceId protector foreign localKey json).Correct
      (.window n)
      (Held n) .next (Chosen n) := by
  refine correct_app ?_ fun _ h => h
  rintro w action w' hw hn - hdoes
  cases action with
  | app label =>
    obtain ⟨hlabel, s, s', hs, hstep, rfl⟩ := hdoes
    obtain ⟨hreach, hwithin⟩ := hw.app s hs
    obtain ⟨hsound, hgrows⟩ := hw.setApp (hreach.step hstep)
      (hwithin.step hstep (ne_allow_of_window hlabel))
    exact ⟨hsound, hgrows, hn⟩
  | allow contact =>
    obtain ⟨⟨s, hs, hclick⟩, rfl⟩ := hdoes
    exact ⟨hw, .refl _, hn, s, hs, hclick⟩
  | revoke =>
    obtain ⟨s, s', hs, hstep, rfl⟩ := hdoes
    obtain ⟨hreach, hwithin⟩ := hw.app s hs
    obtain ⟨hsound, hgrows⟩ := hw.setApp (hreach.step hstep)
      (hwithin.step hstep (by rintro _ _ _ ⟨⟩))
    exact ⟨hsound, hgrows, hn⟩
  | close =>
    obtain rfl : w' = w := hdoes
    exact ⟨hw, .refl _, hn⟩

/-- A window starts with what its file holds, and only if that was made. -/
theorem outline_run (hjson : GrantReader.Laws json)
    (hprotector : AuthenticatedEncryption protector) :
    ProfileOutline p isAddress identity deviceId protector foreign localKey json (.window n)
      (fun _ => True) (run json localKey) fun _ _ => True := by
  have htrue : (profileRegime p isAddress identity deviceId protector foreign localKey json).Stable
      (.window n) fun _ => True := fun _ _ _ _ _ _ => trivial
  have hheld : (profileRegime p isAddress identity deviceId protector foreign localKey json).Stable
      (.window n) (Held n) := steady_held.stable
  refine .op (R := Outline.Outcome (fun _ => Held n) fun _ _ => True) htrue ?_ fun r => ?_
  · rintro w (error | ⟨⟩) w' hw - hdoes
    · obtain rfl : w' = w := hdoes
      exact ⟨hw, ⟨.refl _, fun m _ hm => ⟨hm, fun s hs => ⟨s, hs, .refl s⟩⟩⟩, trivial⟩
    · obtain ⟨hnone, rfl⟩ := hdoes
      obtain ⟨hsound, hgrows⟩ := hw.same { w with holder := some n } rfl rfl rfl
      refine ⟨hsound, ⟨hgrows, fun m _ hm => ?_⟩, rfl⟩
      rw [hnone] at hm
      cases hm
  rcases r with error | ⟨⟩
  · exact .ret htrue fun _ _ h => h
  refine (outline_load hjson hprotector steady_held).bind_outcome (fun unattended => ?_) fun _ =>
    outline_leave
  have hgiven : Steady n fun w => Held n w ∧ (∀ g, unattended = some g → w.Allowed g) ∧
      ∀ g, unattended = some g → g.valid = true :=
    steady_held.and ((steady_grants unattended).and ⟨fun _ _ _ h => h, fun _ _ _ _ h => h⟩)
  refine .op (R := fun _ => Held n) hgiven.stable (correct_app ?_ fun _ h => h.1) fun _ => ?_
  · rintro w ⟨⟩ w' hw hn ⟨-, hallowed, hvalid⟩ ⟨contacts, hcontacts, rfl⟩
    have hreach : (appSystem p isAddress identity deviceId).Reachable
        (opened contacts unattended) :=
      .init ⟨hcontacts, hvalid, rfl, rfl, rfl, rfl, rfl, fun _ => rfl, fun _ => rfl⟩
    obtain ⟨hsound, hgrows⟩ := hw.setApp hreach ⟨hallowed, by rintro _ _ ⟨⟩⟩
    exact ⟨hsound, hgrows, hn⟩
  refine .loop (L := fun _ => Held n) (R := fun _ => Held n) hheld (fun _ _ h => h) (fun _ => ?_)
    fun _ => outline_leave
  exact .op hheld correct_next outline_act

end Window

/-- Nobody but the windows of the profile uses the protector in the context of a grant for this
key. -/
def Elsewhere (localKey : PublicKey) (foreign : Protection → Prop) : Prop :=
  ∀ protection, foreign protection → protection.context ≠ context localKey

/-- Whatever a thread of a profile runs. -/
theorem outline_threads (hforeign : Elsewhere localKey foreign) (hjson : GrantReader.Laws json)
    (hprotector : AuthenticatedEncryption protector) (i : ProfileThread) :
    ProfileOutline p isAddress identity deviceId protector foreign localKey json i (fun _ => True)
      (threads json localKey i) fun _ _ => True := by
  have htrue :
    (profileRegime p isAddress identity deviceId protector foreign localKey json).Stable i
      fun _ => True := fun _ _ _ _ _ _ => trivial
  cases i with
  | window n => exact outline_run hjson hprotector
  | workers n =>
    refine .forever (L := fun _ _ => True) (fun _ => ?_) fun _ => htrue
    refine .op (R := fun _ _ => True) htrue ?_ fun _ => .ret htrue fun _ _ _ => trivial
    rintro w label w' hw - ⟨hlabel, -, s, s', hs, hstep, rfl⟩
    obtain ⟨hreach, hwithin⟩ := hw.app s hs
    obtain ⟨hsound, hgrows⟩ := hw.setApp (hreach.step hstep)
      (hwithin.step hstep (ne_allow_of_workers hlabel))
    refine ⟨hsound, ⟨hgrows, fun m _ hm => ⟨hm, fun t ht => ?_⟩⟩, trivial⟩
    obtain rfl := Option.some.inj (hs.symm.trans ht)
    exact ⟨s', rfl, .of_workers hlabel hstep⟩
  | outside =>
    refine .forever (L := fun _ _ => True) (fun _ => ?_) fun _ => htrue
    refine .op (R := fun _ _ => True) htrue (correct_quiet ?_) fun _ => .ret htrue fun _ _ _ =>
      trivial
    rintro w action w' hw - hdoes
    cases action with
    | tamper file =>
      obtain rfl : w' = { w with file } := hdoes
      obtain ⟨hquiet, hsound⟩ := hw.quiet { w with file } rfl rfl rfl rfl
      exact ⟨hquiet, hsound, trivial⟩
    | protects protection =>
      obtain ⟨hother, rfl⟩ := hdoes
      refine ⟨⟨rfl, rfl, List.Subset.refl _, List.subset_append_left _ _⟩,
        ⟨hw.allowed, fun protection' hmem hcontext => ?_, hw.app⟩, trivial⟩
      rcases List.mem_append.mp hmem with hmem | hmem
      · exact hw.protections protection' hmem hcontext
      · obtain rfl := List.mem_singleton.mp hmem
        exact absurd hcontext (hforeign _ hother)

/-- In every reachable state what the protector gives back was made, and so is what the windows
hold. -/
theorem sound_of_reachable (hforeign : Elsewhere localKey foreign)
    (hjson : GrantReader.Laws json)
    (hprotector : AuthenticatedEncryption protector)
    {s : Pool (ProfileOp σ ε) ProfileThread Profile}
    (h : (profileSystem p isAddress identity deviceId protector foreign localKey json).Reachable
      s) :
    Sound p isAddress identity deviceId localKey json s.world := by
  refine (Outline.sound (Q := fun _ _ => True) (outline_threads hforeign hjson hprotector) ?_ h).1
  rintro w ⟨-, happ, hallowed, hprotections⟩
  refine ⟨⟨?_, fun protection hmem hcontext => ?_, ?_⟩, fun _ => trivial⟩
  · simp [hallowed]
  · exact absurd hcontext (hforeign protection (hprotections protection hmem))
  · simp [happ]

/-- `load` changes nothing, and returns a grant only if the user has made it, whatever its file
holds. -/
theorem load_allowed (hjson : GrantReader.Laws json)
    (hprotector : AuthenticatedEncryption protector)
    (hw : Sound p isAddress identity deviceId localKey json w) {grant : Grant}
    (hrun : Prog.RunsOn (profileMachine p isAddress identity deviceId protector foreign) (.window n)
      (load json localKey) w (.ok (some grant)) w') :
    ∃ authorization ∈ w.allowed, authorization.grant = grant := by
  have hsame : w' = w := by
    refine hrun.only (X := fun o => match o with
      | .openFile _ | .unprotect _ _ => True
      | _ => False) (P := (· = w)) ?_ ?_ rfl
    · rintro _ o w₁ b w₂ ho rfl hdoes
      cases o with
      | openFile limit => cases b <;> exact hdoes.2
      | unprotect ciphertext context => exact hdoes.2
      | _ => exact ho.elim
    · refine ⟨trivial, fun r => ?_⟩
      rcases r with error | bytes
      · cases error <;> trivial
      · refine Fallible.Only.seq (Fallible.only_check ..) fun _ => ?_
        refine Fallible.Only.seq (Fallible.Only.mapError (Fallible.only_attempt.mpr trivial) _)
          fun _ => ?_
        refine Fallible.Only.seq (Fallible.only_check ..) fun _ => ?_
        refine Fallible.Only.seq (Fallible.only_ofExcept _) fun _ => ?_
        exact Fallible.Only.seq (Fallible.only_check ..) fun _ => Fallible.only_pure _
  have htrue : Steady n fun _ : Profile => True := ⟨fun _ _ _ h => h, fun _ _ _ _ h => h⟩
  obtain ⟨-, -, hallowed, -⟩ := hrun.outlined (outline_load hjson hprotector htrue) hw trivial
  obtain ⟨authorization, hmem, hgrant⟩ := hallowed grant rfl
  exact ⟨authorization, hsame ▸ hmem, hgrant⟩

/-- **Unattended authority.** However often the window of a profile is opened and closed or
dies, and whatever is put in place of its file, as long as nobody but its windows uses the protector
in the context of its grants:

* `load` returns no grant, whatever the file holds, but one that was made when the user allowed a
  contact, for the device and the key of that contact;
* when a worker of the window has got the answer yes for a peer, then either the user accepted its
  prompt, or the request came from the listener, for one of the two kinds of desktop session, and at
  a moment at most thirty days before, by the clock, the user had allowed a contact of exactly this
  device and key. -/
theorem unattended_authority (hforeign : Elsewhere localKey foreign)
    (hjson : GrantReader.Laws json) (hprotector : AuthenticatedEncryption protector)
    (hstrict : ∀ message signature, p.verify NO_KEY message signature ≠ .ok ())
    {s : Pool (ProfileOp σ ε) ProfileThread Profile}
    (h : (profileSystem p isAddress identity deviceId protector foreign localKey json).Reachable
      s) :
    (∀ file n grant w', Prog.RunsOn
        (profileMachine p isAddress identity deviceId protector foreign) (.window n)
        (load json localKey) { s.world with file } (.ok (some grant)) w' →
      ∃ authorization ∈ s.world.allowed, authorization.grant = grant ∧ ∃ device,
        peer authorization.contact.id authorization.contact.key = .ok device ∧
        Grant.new device authorization.now = .ok grant) ∧
    ∀ app number worker reply device mode, s.world.app = some app →
      app.workers number = some worker → worker.point = .answered (some reply) device mode true →
      ∃ request, app.requests reply = some request ∧
        ((∃ contacts, Decision.user device mode contacts ∈ request.decisions) ∨
          worker.listener = true ∧ (mode = .screenView ∨ mode = .remoteControl) ∧
          ∃ authorization ∈ s.world.allowed, ∃ now contacts,
            Decision.unattended true (some authorization.grant) now contacts ∈ request.decisions ∧
            peer authorization.contact.id authorization.contact.key = .ok device ∧
            authorization.now ≤ now ∧ now < authorization.now + MAX_LIFETIME) := by
  have hsound := sound_of_reachable hforeign hjson hprotector h
  refine ⟨fun file n grant w' hrun => ?_, fun app number worker reply device mode happ hworker
    hyes => ?_⟩
  · obtain ⟨hsound', -⟩ := hsound.same { s.world with file } rfl rfl rfl
    obtain ⟨authorization, hmem, rfl⟩ := load_allowed hjson hprotector hsound' hrun
    exact ⟨authorization, hmem, rfl, (hsound.allowed authorization hmem).peer⟩
  obtain ⟨hreach, hwithin⟩ := hsound.app app happ
  have hpoint := ((SensorRemote.sound_of_reachable hstrict hreach).workers number worker
    hworker).point
  rw [hyes] at hpoint
  obtain ⟨request, hrequest, -, hlistener, rfl, rfl, hauthorized⟩ := hpoint
  obtain ⟨decision, hmem, hauth⟩ := hauthorized rfl
  refine ⟨request, hrequest, ?_⟩
  cases hauth with
  | user saved => exact .inl ⟨_, hmem⟩
  | @unattended grant now contacts fromListener covers saved =>
    obtain ⟨authorization, hallowed, rfl⟩ :=
      hwithin.decided reply request hrequest true grant now contacts hmem
    obtain ⟨known, hknown, hnew⟩ := (hsound.allowed authorization hallowed).peer
    obtain ⟨hgrant, -⟩ := Grant.new_ok hnew
    have hdevice : known = request.peer := by
      have hid := covers.device
      have hkey := covers.key
      rw [hgrant] at hid hkey
      cases known
      cases hpeer : request.peer
      simp_all
    have hissued := covers.issued
    have hexpires := covers.notExpired
    rw [hgrant] at hissued hexpires
    exact .inr ⟨hlistener ▸ fromListener, covers.desktop, authorization, hallowed, now, contacts,
      hmem, hdevice ▸ hknown, hissued, hexpires⟩

end Profile

/-! ## What was saved is loaded -/

section RoundTrip

open JsonText

/-- The dates are 64-bit numbers. -/
def Dated (grant : Option Grant) : Prop :=
  ∀ g, grant = some g → g.issuedUnix < 2 ^ 64 ∧ g.expiresUnix < 2 ^ 64

/-- The text of a dated grant is short enough for its file. -/
theorem length_toVec_le {grant : Option Grant} (h : Dated grant) :
    (toVec grant).length ≤ 300 := by
  cases grant with
  | none => decide +kernel
  | some grant =>
    obtain ⟨hissued, hexpires⟩ := h grant rfl
    have hid : (number grant.deviceId.value).length ≤ 10 := length_number_le (k := 9) (by
      have := grant.deviceId.inRange
      simp only [MIN_DEVICE_ID, DEVICE_ID_SPAN] at this
      omega)
    have hkey := length_bytes_le grant.publicKey.toList
    have hissued' := length_number_le (k := 19) (n := grant.issuedUnix) (by omega)
    have hexpires' := length_number_le (k := 19) (n := grant.expiresUnix) (by omega)
    have hnames : (string "device_id").length + (string "public_key").length +
        (string "issued_unix").length + (string "expires_unix").length = 50 := by decide +kernel
    rw [Vector.length_toList] at hkey
    simp only [toVec, object, joined, List.map_cons, List.map_nil, List.flatMap_cons,
      List.flatMap_nil, List.length_append, List.length_cons, List.length_nil]
    omega

/-- The text of a grant tells the grant. -/
theorem toVec_injective {grant other : Option Grant} (h : toVec grant = toVec other) :
    grant = other := by
  have hnull : ∀ g : Grant, toVec none ≠ toVec (some g) := by
    intro g heq
    have hhead : (utf8 "null").head? = some 110 := by decide +kernel
    rw [toVec, toVec, object] at heq
    rw [heq] at hhead
    cases hhead
  cases grant with
  | none =>
    cases other with
    | none => rfl
    | some other => exact absurd h (hnull other)
  | some grant =>
    cases other with
    | none => exact absurd h.symm (hnull grant)
    | some other =>
      obtain ⟨deviceId, key, issued, expires⟩ := grant
      obtain ⟨deviceId', key', issued', expires'⟩ := other
      have hcomma : isDigit 44 = false := by decide
      have hbrace : isDigit 125 = false := by decide
      simp only [toVec, object, joined, List.map_cons, List.map_nil, List.flatMap_cons,
        List.flatMap_nil, List.append_assoc, List.cons_append, List.append_nil, List.cons.injEq,
        true_and] at h
      obtain ⟨hid, h⟩ := number_split hcomma hcomma (value_eq h)
      obtain ⟨hkey, h⟩ := numbers_split (value_eq (List.cons.inj h).2)
      obtain ⟨hissued, h⟩ := number_split hcomma hcomma (value_eq (List.cons.inj h).2)
      obtain ⟨hexpires, -⟩ := number_split hbrace hbrace (value_eq (List.cons.inj h).2)
      subst hissued hexpires
      obtain rfl := Vector.toList_inj.mp (map_toNat_injective hkey)
      obtain rfl := DeviceId.ext hid
      rfl

end RoundTrip

/-! ### A window that is opened again -/

section Runs

variable {σ ι ε : Type} {p : Primitives PublicKey σ ι ε} {isAddress : String → Bool}
  {identity : ι} {deviceId : DeviceId} {protector : KeyProtector} {foreign : Protection → Prop}
  {localKey : PublicKey}
  {json : GrantReader} {i : ProfileThread} {w : Profile}

/-- `save`, where nothing fails. -/
theorem runs_save {grant : Option Grant} {ciphertext : List UInt8}
    (hvalid : grant.all (·.valid) = true)
    (hprotects : protector.Protects ⟨toVec grant, context localKey, ciphertext⟩)
    (hshort : ciphertext.length ≤ MAX_BYTES) :
    Prog.RunsOn (profileMachine p isAddress identity deviceId protector foreign) i
      (save localKey grant) w (.ok ())
      { w with
        protections := w.protections ++ [⟨toVec grant, context localKey, ciphertext⟩]
        file := some ciphertext } := by
  refine .seq (Prog.RunsOn.check hvalid) ?_
  refine .op (b := Except.ok ciphertext) ⟨hprotects, rfl⟩ ?_
  refine .seq (Prog.RunsOn.check hshort) ?_
  exact .op (b := Except.ok ()) rfl (.op (b := Except.ok ()) rfl (.ret _ _))

/-- `load`, where the file holds what was protected. -/
theorem runs_load (hjson : GrantReader.Laws json) {grant : Option Grant} {ciphertext : List UInt8}
    (hvalid : grant.all (·.valid) = true) (hdated : Dated grant)
    (hshort : ciphertext.length ≤ MAX_BYTES) (hfile : w.file = some ciphertext)
    (hunprotect : protector.unprotect w.protections ciphertext (context localKey) =
      .ok (toVec grant)) :
    Prog.RunsOn (profileMachine p isAddress identity deviceId protector foreign) i
      (load json localKey) w (.ok grant) w := by
  have hlength := length_toVec_le hdated
  have htake : ciphertext.take (MAX_BYTES + 1) = ciphertext := List.take_of_length_le (by omega)
  refine .op (b := Except.ok ciphertext) ⟨⟨ciphertext, hfile, htake.symm⟩, rfl⟩ ?_
  refine .seq (Prog.RunsOn.check hshort) ?_
  refine .op (b := Except.ok (toVec grant)) ⟨hunprotect.symm, rfl⟩ ?_
  refine .seq (Prog.RunsOn.check (by simp only [MAX_BYTES]; omega)) ?_
  refine .seq (Prog.RunsOn.ofExcept (by rw [hjson grant hdated]; rfl)) ?_
  exact .seq (Prog.RunsOn.check hvalid) (.ret _ _)

end Runs

namespace ReopenedWindow

open UnattendedSession

/-- The one grant: the user allows the caller when the clock shows zero. -/
def grant : Grant := ⟨callerId, key, 0, MAX_LIFETIME⟩

def isAddress (_ : String) : Bool := false

def protector : KeyProtector := UsedStore.protector

theorem grant_new : Grant.new caller 0 = .ok grant := by decide

theorem grant_valid : (some grant).all (·.valid) = true := Grant.valid_of_new grant_new

theorem grant_dated : Dated (some grant) := by
  rintro g ⟨⟩
  decide

open Classical in
/-- What was written is read, and nothing else. -/
noncomputable def json : GrantReader := fun bytes =>
  if h : ∃ grant, toVec grant = bytes then .ok h.choose else .error "invalid JSON"

theorem json_laws : GrantReader.Laws json := by
  intro grant _
  have h : ∃ other, toVec other = toVec grant := ⟨grant, rfl⟩
  simp only [json, dif_pos h, toVec_injective h.choose_spec]

/-- What the file holds then. -/
def ciphertext : List UInt8 := UsedStore.sealed (toVec (some grant)) (context key)

theorem length_ciphertext_le : ciphertext.length ≤ 400 := by
  have hvec := length_toVec_le grant_dated
  have hcontext : (context key).length = 59 := by decide +kernel
  simp only [ciphertext, UsedStore.sealed, List.length_cons, List.length_append,
    List.length_reverse]
  omega

theorem protects_grant :
    protector.Protects ⟨toVec (some grant), context key, ciphertext⟩ := by
  have hvec := length_toVec_le grant_dated
  have hcontext : (context key).length = 59 := by decide +kernel
  have hlength := length_ciphertext_le
  exact UsedStore.protects_iff.mpr ⟨⟨by omega, by omega⟩, by omega, rfl⟩

/-- The window at each point. -/
def app0 : App := opened [saved] (some grant)
def app1 : App := { app0 with listener := some 0 }.setWorker 0
  (.start (some ⟨⟨device, NO_KEY⟩, false, true⟩) true)
def app2 : App := app1.setWorker 0 (worker (.connected caller) [])
def app3 : App :=
  { app2 with
    requests := Function.update app2.requests 0
      (some ⟨0, true, caller, .screenView, none, true, []⟩) }.setWorker 0
    (worker (.asking 0 caller .screenView) [.consent caller .screenView 0])
def app4 : App := (app3.collect false 0).collect true 1
def app5 : App :=
  { app4 with polled := [] }.handle true (.consent caller .screenView 0) (some 50)
def app6 : App :=
  (app5.onRequest 0 fun request => { request with receiving := false }).setWorker 0
    (worker (.answered (some 0) caller .screenView true) [])

abbrev Pools := Pool (ProfileOp (Option PublicKey) PublicKey) ProfileThread Profile

/-- The protector is used elsewhere for anything but grants. -/
def foreign (protection : Protection) : Prop := protection.context ≠ context key

noncomputable abbrev profile : LTS Pools ProfileThread :=
  profileSystem keys isAddress key device protector foreign key json

abbrev machine : Machine (ProfileOp (Option PublicKey) PublicKey) ProfileThread Profile :=
  profileMachine keys isAddress key device protector foreign

/-- The world before anything happened, and with the grant saved. -/
def untouched : Profile := ⟨none, none, none, [], []⟩
def granted (holder : Option ℕ) (app : Option App) : Profile :=
  ⟨holder, app, some ciphertext, [⟨toVec (some grant), context key, ciphertext⟩],
    [⟨saved, 0, grant⟩]⟩

/-- The user allows the caller in the first window. -/
theorem runs_allow : Prog.RunsOn machine (.window 0) (.op .next (act key))
    { untouched with holder := some 0, app := some (opened [saved] none) } (.inl ())
    (granted (some 0) (some ((opened [saved] none).allow saved 0 true))) := by
  have hnew : (Grant.new caller 0).mapError GrantError.message = .ok grant := by
    rw [grant_new]
    rfl
  have hsave : Prog.RunsOn machine (.window 0) (save key (some grant))
      { untouched with
        holder := some 0
        app := some (opened [saved] none)
        allowed := [⟨saved, 0, grant⟩] } (.ok ()) _ :=
    runs_save grant_valid protects_grant (length_ciphertext_le.trans (by decide))
  have hallow : Prog.RunsOn machine (.window 0) (allow key saved)
      { untouched with holder := some 0, app := some (opened [saved] none) } (.ok ())
      (granted (some 0) (some ((opened [saved] none).allow saved 0 true))) := by
    refine .seq (Prog.RunsOn.ofExcept (by rw [caller_saved]; rfl)) ?_
    refine .op (b := Except.ok 0) rfl ?_
    refine .seq (Prog.RunsOn.ofExcept hnew) ?_
    refine .op (b := ()) rfl ?_
    exact .seq hsave (.op (b := ()) ⟨_, rfl, rfl⟩ (.ret _ _))
  refine .op (b := WindowAction.allow saved) ⟨⟨_, rfl, ⟨rfl, rfl, ?_, rfl, rfl⟩⟩, rfl⟩
    (.bind hallow (.ret _ _))
  exact List.mem_singleton.mpr rfl

/-- Another window loads the grant. -/
theorem runs_reload : Prog.RunsOn machine (.window 1) (load json key) (granted (some 1) none)
    (.ok (some grant)) (granted (some 1) none) := by
  have hunprotect := UsedStore.authenticated.correct
    [⟨toVec (some grant), context key, ciphertext⟩] _ protects_grant (List.mem_singleton.mpr rfl)
  exact runs_load json_laws grant_valid grant_dated (length_ciphertext_le.trans (by decide)) rfl
    hunprotect

theorem contacts_valid : validateContacts isAddress [saved] = .ok () := by
  have hinit := start_init isAddress
  exact hinit.1

theorem reachable_granted : ∃ p' : Prog (ProfileOp (Option PublicKey) PublicKey) Unit,
    profile.Reachable ⟨granted (some 0) (some ((opened [saved] none).allow saved 0 true)),
      Function.update (fun i => some (threads json key i)) (.window 0) (some p')⟩ := by
  have h0 : profile.Reachable ⟨untouched, fun i => some (threads json key i)⟩ :=
    .init ⟨⟨rfl, rfl, rfl, by rintro _ ⟨⟩⟩, rfl⟩
  have hlock : Prog.RunsOn machine (.window 0) (Prog.perform ProfileOp.lock) untouched
      (.ok ()) { untouched with holder := some 0 } := .perform ⟨rfl, rfl⟩
  obtain ⟨p1, hp1, h1⟩ := Pool.reachable_alone hlock h0 rfl fun _ _ _ _ h => h
  have hload : Prog.RunsOn machine (.window 0) (load json key)
      { untouched with holder := some 0 } (.ok none) { untouched with holder := some 0 } :=
    .op (b := Except.error .notFound) ⟨fun _ => rfl, rfl⟩ (.ret _ _)
  obtain ⟨p2, hp2, h2⟩ := Pool.reachable_alone hload h1 (Function.update_self ..) hp1
  have hstart : Prog.RunsOn machine (.window 0) (Prog.perform (ProfileOp.start none))
      { untouched with holder := some 0 } ()
      { untouched with holder := some 0, app := some (opened [saved] none) } :=
    .perform ⟨[saved], contacts_valid, rfl⟩
  obtain ⟨p3, hp3, h3⟩ := Pool.reachable_alone hstart h2 (Function.update_self ..) hp2
  obtain ⟨p4, -, h4⟩ := Pool.reachable_alone runs_allow h3 (Function.update_self ..) hp3.unroll
  simp only [Function.update_idem] at h4
  exact ⟨p4, h4⟩

/-- The grant answers, fifty seconds after the user allowed the caller. -/
theorem handle_saved {s : App} (hcontacts : s.contacts = [saved])
    (hgrant : s.unattended = some grant) (hconsent : s.consent = none)
    (hjob : s.job = none) (hbusy : s.listenerBusy = false)
    (hrequest : s.requests 0 = some ⟨0, true, caller, .screenView, none, true, []⟩) :
    (s.handle true (.consent caller .screenView 0) (some 50)).workers = s.workers ∧
      (s.handle true (.consent caller .screenView 0) (some 50)).requests 0 =
        some ⟨0, true, caller, .screenView, some true, true,
          [.unattended true (some grant) 50 [saved]]⟩ := by
  have hpermits : grant.permits caller .screenView 50 = true := by decide
  simp [App.handle, App.onConsent, hcontacts, known, hconsent, hjob, hbusy, App.admitOrAsk, hgrant,
    hpermits, App.onRequest, hrequest, Request.accept, Request.trySend]

/-- The second window stands, with `app` in it, and its workers are there. -/
def Standing (app : App) : Prop :=
  ∃ (p q : Prog (ProfileOp (Option PublicKey) PublicKey) Unit) (rest : _),
    p.Covers (.loop () (fun _ => .op .next (act key)) fun _ => .perform .leave) ∧
      q.Covers (threads json key (.workers 1)) ∧ rest (.window 1) = some p ∧
      rest (.workers 1) = some q ∧ profile.Reachable ⟨granted (some 1) (some app), rest⟩

/-- A window is opened after the first one died, and finds the grant. -/
theorem standing_reopened : Standing app0 := by
  obtain ⟨p0, h⟩ := reachable_granted
  have h0 : profile.Reachable ⟨granted none none, _⟩ :=
    h.step (l := .window 0) (.inr ⟨by simp, (if_pos rfl).symm, rfl⟩)
  have hlock : Prog.RunsOn machine (.window 1) (Prog.perform ProfileOp.lock) (granted none none)
      (.ok ()) (granted (some 1) none) := .perform ⟨rfl, rfl⟩
  obtain ⟨p1, hp1, h1⟩ := Pool.reachable_alone hlock h0 rfl fun _ _ _ _ h => h
  obtain ⟨p2, hp2, h2⟩ := Pool.reachable_alone runs_reload h1 (Function.update_self ..) hp1
  have hstart : Prog.RunsOn machine (.window 1) (Prog.perform (ProfileOp.start (some grant)))
      (granted (some 1) none) () (granted (some 1) (some app0)) :=
    .perform ⟨[saved], contacts_valid, rfl⟩
  obtain ⟨p3, hp3, h3⟩ := Pool.reachable_alone hstart h2 (Function.update_self ..) hp2
  exact ⟨p3, _, _, hp3, fun _ _ _ _ h => h, Function.update_self .., rfl, h3⟩

section Steps

variable {s s' : App} {l : AppLabel (Option PublicKey) PublicKey}

theorem Standing.window (h : Standing s) (hlabel : OfWindow l)
    (hstep : (appSystem keys isAddress key device).step s l s') : Standing s' := by
  obtain ⟨p, q, rest, hp, hq, hpi, hqi, hreach⟩ := h
  have hrun : Prog.RunsOn machine (.window 1) (.op .next (act key))
      (granted (some 1) (some s)) (.inl ()) (granted (some 1) (some s')) :=
    .op (b := WindowAction.app l) ⟨hlabel, s, s', rfl, hstep, rfl⟩ (.ret _ _)
  obtain ⟨p', hp', hreach'⟩ := Pool.reachable_alone hrun hreach hpi hp.unroll
  exact ⟨p', q, _, hp', hq, Function.update_self .., hqi, hreach'⟩

theorem Standing.workers (h : Standing s) (hlabel : OfWorkers l)
    (hstep : (appSystem keys isAddress key device).step s l s') : Standing s' := by
  obtain ⟨p, q, rest, hp, hq, hpi, hqi, hreach⟩ := h
  have hrun : Prog.RunsOn machine (.workers 1)
      (.op .work fun _ => .ret (.inl () : Unit ⊕ Unit)) (granted (some 1) (some s)) (.inl ())
      (granted (some 1) (some s')) :=
    .op (b := l) ⟨hlabel, rfl, s, s', rfl, hstep, rfl⟩ (.ret _ _)
  obtain ⟨q', hq', hreach'⟩ := Pool.reachable_alone hrun hreach hqi hq.unroll
  exact ⟨p, q', Function.update rest (.workers 1) (some q'), hp, hq', hpi,
    Function.update_self .., hreach'⟩

end Steps

/-- The second window answers the caller while nobody is there. -/
theorem standing_answered : Standing app6 := by
  have h1 : Standing app1 := standing_reopened.window (l := .listen 0 device)
    (fun h => h) ⟨rfl, rfl, rfl⟩
  have h2 : Standing app2 := h1.workers (l := .connect 0 hello key key) trivial
    ⟨worker .listening [], _, caller, rfl, rfl, rfl, by decide, rfl⟩
  have h3 : Standing app3 := h2.workers (l := .request 0 .screenView 0) trivial
    ⟨worker (.connected caller) [], _, caller, rfl, rfl, rfl, rfl, rfl⟩
  have h4 : Standing app4 := h3.window (l := .poll 0 1) (fun h => h) ⟨rfl, rfl⟩
  have h5 : Standing app5 := h4.window (l := .handle (some 50)) (fun h => h)
    ⟨true, .consent caller .screenView 0, [], rfl, rfl⟩
  obtain ⟨hworkers, hreply⟩ :=
    handle_saved (s := { app4 with polled := [] }) rfl rfl rfl rfl rfl rfl
  have hworker : app5.workers 0 = some (worker (.asking 0 caller .screenView) []) := by
    rw [app5, hworkers]
    rfl
  exact h5.workers (l := .receive 0) trivial
    ⟨_, 0, caller, .screenView, _, true, hworker, rfl, hreply, rfl, rfl⟩

/-- What stands behind the answer is that the user allowed this contact, fifty seconds ago; and
another window that loads the file gets no other grant. -/
theorem authority_of_allowed :
    (∃ request, app6.requests 0 = some request ∧
      ((∃ contacts, Decision.user caller .screenView contacts ∈ request.decisions) ∨
        ∃ now contacts,
          Decision.unattended true (some grant) now contacts ∈ request.decisions ∧
            peer saved.id saved.key = .ok caller ∧ now < MAX_LIFETIME)) ∧
    ∀ file n other w', Prog.RunsOn machine (.window n) (load json key)
      { granted (some 1) (some app6) with file } (.ok (some other)) w' → other = grant := by
  obtain ⟨_, _, _, -, -, -, -, hreach⟩ := standing_answered
  have hworker : app6.workers 0 =
      some (worker (.answered (some 0) caller .screenView true) []) := rfl
  obtain ⟨hload, hyes⟩ := unattended_authority (fun _ h => h) json_laws UsedStore.authenticated
    keys_strict hreach
  refine ⟨?_, fun file n other w' hrun => ?_⟩
  · obtain ⟨request, hrequest, huser | ⟨-, -, authorization, hmem, now, contacts, hdecision, hpeer,
      -, hlater⟩⟩ := hyes app6 0 _ 0 caller .screenView rfl hworker rfl
    · exact ⟨request, hrequest, .inl huser⟩
    · obtain rfl := List.mem_singleton.mp hmem
      rw [Nat.zero_add] at hlater
      exact ⟨request, hrequest, .inr ⟨now, contacts, hdecision, hpeer, hlater⟩⟩
  · obtain ⟨authorization, hmem, hgrant, -⟩ := hload file n other w' hrun
    obtain rfl := List.mem_singleton.mp hmem
    exact hgrant.symm

end ReopenedWindow

end SensorRemote.Unattended
