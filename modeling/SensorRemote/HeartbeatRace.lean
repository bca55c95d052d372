import SensorRemote.WaitForPeer

/-!
# The heartbeat that crosses `PeerReady`

A waiting client sends a heartbeat when one is due, and the server's relay takes no text. So two
honest clients can end a relay that has just begun: by a heartbeat still unread when the listener's
thread takes the offer, or by one sent before `PeerReady` is read. Every step that leaves both out
is harmless, in all of a run; and each of the two opens the way to the error.

The two directions are proved apart.

* That quiet steps are harmless is an invariant. `Honest` says what the queues of honest clients
  hold and what has come out of them, and holds in every run. `Silent` adds that no text of theirs
  is in the way of a relay; it is kept by every quiet step, one lemma for each kind of step, and
  excludes the error.

* That the others are harmful is a run of the relay. From a state in which a text is before a relay
  (`Facing`) the relay's own steps come to read it, whichever side's turn it is, as long as the
  environment lets it: so such a state is `Doomed`. A step that is not quiet leads to one.
-/

namespace SensorRemote

open Transition

/-! ## What honest clients send -/

/-- A text message, which a relay takes for an invalid frame. -/
def WsMessage.IsText : WsMessage → Prop
  | .text _ => True
  | _ => False

/-- The request of an initiator, the one text that the server's thread waits for. -/
def WsMessage.IsConnect : WsMessage → Prop
  | .text (.connect _ _ _) => True
  | _ => False

/-- What an honest client sends. -/
def WsMessage.Sendable : WsMessage → Prop
  | .text (.heartbeat _) | .text (.connect _ _ _) | .close => True
  | .binary payload => payload.length ≤ MAX_RELAY_BYTES
  | _ => False

/-- A relay goes on, or ends without an error, on anything but text. -/
theorem RelayEndpoint.read_ne_invalidFrame {source : RelayEndpoint} {now : ℚ} {f : WsMessage}
    (hf : f.Sendable) (htext : ¬f.IsText) :
    source.read now (.frame f) ≠ .error .invalidFrame := by
  cases f with
  | text message => exact absurd trivial htext
  | binary payload =>
    have hlength : payload.length ≤ MAX_RELAY_BYTES := hf
    simp [read, hlength]
  | ping => simp [read]
  | pong => simp [read]
  | close => simp [read]

/-- Flushing fails with other errors only: what waits to be written was taken already. -/
theorem RelayEndpoint.flush_ne_invalidFrame {e : RelayEndpoint} {now : ℚ} {sent : Sent} :
    e.flush now sent ≠ .error .invalidFrame := by
  simp only [flush]
  split
  · split
    · simp
    · split <;> simp
    · simp
  · simp

/-- Only a payload comes to wait. -/
theorem RelayEndpoint.pending_read {e e' : RelayEndpoint} {now : ℚ} {r : Read} {isOpen : Bool}
    (h : e.read now r = .ok (isOpen, e')) :
    e'.pending = e.pending ∨ ∃ payload, r = .frame (.binary payload) := by
  simp only [read] at h
  split at h
  · exact .inr ⟨_, rfl⟩
  all_goals cases h
  all_goals exact .inl rfl

/-- What waits is written or goes on waiting. -/
theorem RelayEndpoint.pending_write {source destination source' destination' : RelayEndpoint}
    {now : ℚ} {sent : Sent} {written : Option (List UInt8)}
    (h : source.write destination now sent = .ok (written, source', destination')) :
    (source'.pending = none ∨ source'.pending = source.pending) ∧
      destination'.pending = destination.pending := by
  rcases write_cases h with ⟨-, rfl, rfl⟩ | ⟨payload, -, -, hnone, hsame, -⟩
  · exact ⟨.inr rfl, rfl⟩
  · exact ⟨.inl hnone, hsame⟩

/-- Writing fails with other errors only. -/
theorem RelayEndpoint.write_ne_invalidFrame {source destination : RelayEndpoint} {now : ℚ}
    {sent : Sent} : source.write destination now sent ≠ .error .invalidFrame := by
  unfold write
  split
  · split
    · simp
    · dsimp only
      split <;> simp
  · simp

/-- The server pings nobody. -/
theorem ping_notMem_of_reply {listen : Bool} {token : String} {target : Except String Unit}
    {f : WsMessage} {frames : List WsMessage}
    (h : endpointRead listen token target f = .reply frames) : WsMessage.ping ∉ frames := by
  simp only [endpointRead] at h
  split at h
  · split at h
    · obtain rfl := Answer.reply.inj h
      simp
    · split at h
      · obtain rfl := Answer.reply.inj h
        simp
      · split at h
        · cases h
        · obtain rfl := Answer.reply.inj h
          simp
  · split at h <;> obtain rfl := Answer.reply.inj h <;> simp
  · obtain rfl := Answer.reply.inj h
    simp
  · obtain rfl := Answer.reply.inj h
    simp
  · obtain rfl := Answer.reply.inj h
    simp
  · obtain rfl := Answer.reply.inj h
    simp
  all_goals cases h

/-! ## Polls -/

/-- A heartbeat does not end the waiting. -/
theorem Client.phase_beat (c : Client) (now : ℚ) (received : Option WsMessage) :
    (c.beat now received).1.phase = c.phase := by
  simp only [beat]
  split <;> rfl

/-- A client that sends on its own account sends a heartbeat, and only when one is due. -/
theorem Client.mem_beat {c : Client} {now : ℚ} {received : Option WsMessage} {f : WsMessage}
    (hf : f ∈ (c.beat now received).2) :
    f = .text (.heartbeat c.token) ∧ c.beats now received = true := by
  simp only [beat] at hf
  split at hf
  · rename_i hbeats
    exact ⟨List.mem_singleton.mp hf, hbeats⟩
  · cases hf

/-- What a client sends in `wait_for_peer` if nobody pings it: heartbeats, and at the end of
it a closing frame. -/
theorem Client.mem_poll {c : Client} {now : ℚ} {received : Option WsMessage} {f : WsMessage}
    (hping : received ≠ some .ping) (hf : f ∈ (c.poll now received).2) :
    (f = .close ∧ (c.poll now received).1.phase = .closed) ∨
      (f = .text (.heartbeat c.token) ∧ c.beats now received = true) := by
  simp only [poll] at hf ⊢
  split at hf
  · rename_i hoverdue
    rw [if_pos hoverdue]
    exact .inl ⟨List.mem_singleton.mp hf, rfl⟩
  · rename_i hoverdue
    rw [if_neg hoverdue]
    split at hf
    · cases hf
    · cases hf
    · exact .inl ⟨List.mem_singleton.mp hf, rfl⟩
    · exact .inl ⟨List.mem_singleton.mp hf, rfl⟩
    · exact .inl ⟨List.mem_singleton.mp hf, rfl⟩
    · exact absurd rfl hping
    · exact .inr (mem_beat hf)
    · exact .inr (mem_beat hf)

/-- A poll answers with one message at most, if nobody pings. -/
theorem Client.length_poll {c : Client} {now : ℚ} {received : Option WsMessage}
    (hping : received ≠ some .ping) : (c.poll now received).2.length ≤ 1 := by
  have hbeat : (c.beat now received).2.length ≤ 1 := by
    simp only [beat]
    split <;> simp
  simp only [poll]
  split
  · simp
  · split
    · simp
    · simp
    · simp
    · simp
    · simp
    · exact absurd rfl hping
    · exact hbeat
    · exact hbeat

/-- A client that waits after a poll waited before it. -/
theorem Client.waiting_of_poll {c : Client} {now : ℚ} {received : Option WsMessage}
    (h : (c.poll now received).1.phase = .waiting) : c.phase = .waiting := by
  simp only [poll] at h
  split at h
  · cases h
  · split at h
    · cases h
    · exact h
    · cases h
    · cases h
    · cases h
    · exact (c.phase_beat now _).symm.trans h
    · exact (c.phase_beat now _).symm.trans h
    · exact (c.phase_beat now _).symm.trans h

namespace Meeting

section Links

variable (m : Meeting) (side s : Side) (frames : List WsMessage)

@[simp] theorem links_setLink (link : Link) :
    (m.setLink side link).links s = if s = side then link else m.links s := by
  simp only [setLink, Function.update_apply]

@[simp] theorem session_setLink (link : Link) : (m.setLink side link).session = m.session := rfl

@[simp] theorem clients_setLink (link : Link) : (m.setLink side link).clients = m.clients := rfl

@[simp] theorem initiatorThread_setLink (link : Link) :
    (m.setLink side link).initiatorThread = m.initiatorThread := rfl

@[simp] theorem clients_setClient (c : Client) :
    (m.setClient side c).clients s = if s = side then c else m.clients s := by
  simp only [setClient, Function.update_apply]

@[simp] theorem links_setClient (c : Client) : (m.setClient side c).links = m.links := rfl

end Links

/-! ## What holds of every meeting -/

/-- The queues of honest clients, and what has come out of them. -/
structure Honest (m : Meeting) : Prop where
  sendable : ∀ side, ∀ f ∈ (m.links side).toServer, f.Sendable
  /-- a waiting client has sent nothing but text -/
  texts : ∀ side, (m.clients side).phase = .waiting → ∀ f ∈ (m.links side).toServer, f.IsText
  /-- and a client sends no text once it has sent something else -/
  ordered : ∀ side, (m.links side).toServer.Pairwise fun f g => g.IsText → f.IsText
  unpinged : ∀ side, WsMessage.ping ∉ (m.links side).toClient
  /-- there is one `Connect`, and it is the initiator's first message -/
  listens : ∀ f ∈ (m.links .listener).toServer, ¬f.IsConnect
  asks : ∀ f ∈ (m.links .initiator).toServer.tail, ¬f.IsConnect
  asked : m.initiatorThread = .offered → ∀ f ∈ (m.links .initiator).toServer, ¬f.IsConnect
  paired : m.session.paired = true → m.initiatorThread = .offered
  /-- the relay holds nothing from a client that waits -/
  unread : ∀ turn endpoints, m.session = .relaying turn endpoints →
    ∀ side, (m.clients side).phase = .waiting → (endpoints side).pending = none

section Steps

variable {m m' : Meeting} {side : Side}

/-- What a client reads changes nothing. -/
theorem Honest.keepDown {frame : WsMessage} {rest : List WsMessage} (h : m.Honest)
    (hqueue : (m.links side).toClient = frame :: rest) : (m.keepDown side rest).Honest := by
  have hserver : ∀ s, ((m.keepDown side rest).links s).toServer = (m.links s).toServer := by
    intro s
    simp only [Meeting.keepDown, links_setLink]
    split
    · rename_i hs
      rw [hs]
    · rfl
  exact
    { sendable := fun s => by rw [hserver]; exact h.sendable s
      texts := fun s => by rw [hserver]; exact h.texts s
      ordered := fun s => by rw [hserver]; exact h.ordered s
      unpinged := by
        intro s
        simp only [Meeting.keepDown, links_setLink]
        split
        · have := h.unpinged side
          rw [hqueue] at this
          exact fun hmem => this (List.mem_cons_of_mem _ hmem)
        · exact h.unpinged s
      listens := by rw [hserver]; exact h.listens
      asks := by rw [hserver]; exact h.asks
      asked := by rw [hserver]; exact h.asked
      paired := h.paired
      unread := h.unread }

/-- What the server sends, unless it is a ping, changes nothing. -/
theorem Honest.download {frames : List WsMessage} (h : m.Honest) (hping : WsMessage.ping ∉ frames) :
    (m.download side frames).Honest := by
  have hserver : ∀ s, ((m.download side frames).links s).toServer = (m.links s).toServer := by
    intro s
    simp only [Meeting.download, links_setLink]
    split
    · rename_i hs
      rw [hs]
    · rfl
  exact
    { sendable := fun s => by rw [hserver]; exact h.sendable s
      texts := fun s => by rw [hserver]; exact h.texts s
      ordered := fun s => by rw [hserver]; exact h.ordered s
      unpinged := by
        intro s
        simp only [Meeting.download, links_setLink]
        split
        · simp [h.unpinged side, hping]
        · exact h.unpinged s
      listens := by rw [hserver]; exact h.listens
      asks := by rw [hserver]; exact h.asks
      asked := by rw [hserver]; exact h.asked
      paired := h.paired
      unread := h.unread }

/-- What the server reads leaves the rest. -/
theorem Honest.keep {frame : WsMessage} {rest : List WsMessage} (h : m.Honest)
    (hqueue : (m.links side).toServer = frame :: rest) : (m.keep side rest).Honest := by
  have hserver : ∀ s, ∀ f ∈ ((m.keep side rest).links s).toServer, f ∈ (m.links s).toServer := by
    intro s f
    simp only [Meeting.keep, links_setLink]
    split
    · rename_i hs
      rw [hs, hqueue]
      exact List.mem_cons_of_mem _
    · exact fun hf => hf
  exact
    { sendable := fun s f hf => h.sendable s f (hserver s f hf)
      texts := fun s hwaiting f hf => h.texts s hwaiting f (hserver s f hf)
      ordered := by
        intro s
        simp only [Meeting.keep, links_setLink]
        split
        · have hordered := h.ordered side
          rw [hqueue] at hordered
          exact hordered.of_cons
        · exact h.ordered s
      unpinged := by
        intro s
        simp only [Meeting.keep, links_setLink]
        split
        · exact h.unpinged side
        · exact h.unpinged s
      listens := fun f hf => h.listens f (hserver _ f hf)
      asks := by
        intro f hf
        simp only [Meeting.keep, links_setLink] at hf
        split at hf
        · rename_i hside
          apply h.asks f
          rw [hside, hqueue]
          exact List.mem_of_mem_tail hf
        · exact h.asks f hf
      asked := fun hoffered f hf => h.asked hoffered f (hserver _ f hf)
      paired := h.paired
      unread := h.unread }

/-- What a client sends. -/
theorem Honest.upload {c : Client} {frames : List WsMessage} (h : m.Honest)
    (hwaiting : c.phase = .waiting → (m.clients side).phase = .waiting)
    (hsendable : ∀ f ∈ frames, f.Sendable ∧ ¬f.IsConnect)
    (htexts : c.phase = .waiting → ∀ f ∈ frames, f.IsText) (hone : frames.length ≤ 1)
    (hlast : (m.clients side).phase = .waiting ∨ ∀ f ∈ frames, ¬f.IsText) :
    ((m.setClient side c).upload side frames).Honest := by
  -- what the server's ends may hold now, and which clients still wait
  have hserver : ∀ s, ∀ f ∈ (((m.setClient side c).upload side frames).links s).toServer,
      f ∈ (m.links s).toServer ∨ (s = side ∧ f ∈ frames) := by
    intro s f
    simp only [Meeting.upload, links_setLink, links_setClient]
    split
    · rename_i hs
      rw [hs]
      intro hf
      exact (List.mem_append.mp hf).imp id fun hf => ⟨rfl, hf⟩
    · exact .inl
  have hphase : ∀ s, (((m.setClient side c).upload side frames).clients s).phase = .waiting →
      (m.clients s).phase = .waiting ∧ (s = side → c.phase = .waiting) := by
    intro s
    simp only [Meeting.upload, clients_setLink, clients_setClient]
    split
    · rename_i hs
      rw [hs]
      exact fun hc => ⟨hwaiting hc, fun _ => hc⟩
    · rename_i hs
      exact fun hc => ⟨hc, fun heq => absurd heq hs⟩
  exact
    { sendable := by
        intro s f hf
        rcases hserver s f hf with hf | ⟨-, hf⟩
        · exact h.sendable s f hf
        · exact (hsendable f hf).1
      texts := by
        intro s hs f hf
        obtain ⟨hold, hnew⟩ := hphase s hs
        rcases hserver s f hf with hf' | ⟨hs', hf'⟩
        · exact h.texts s hold f hf'
        · exact htexts (hnew hs') f hf'
      ordered := by
        intro s
        simp only [Meeting.upload, links_setLink, links_setClient]
        split
        · refine List.pairwise_append.mpr ⟨h.ordered side, ?_, fun f hf g hg htext => ?_⟩
          · rcases frames with _ | ⟨f, _ | _⟩
            · exact .nil
            · exact List.pairwise_singleton _ _
            · simp at hone
          · rcases hlast with hphase | hnone
            · exact h.texts side hphase f hf
            · exact absurd htext (hnone g hg)
        · exact h.ordered s
      unpinged := by
        intro s
        simp only [Meeting.upload, links_setLink, links_setClient]
        split
        · exact h.unpinged side
        · exact h.unpinged s
      listens := by
        intro f hf
        rcases hserver _ f hf with hf | ⟨-, hf⟩
        · exact h.listens f hf
        · exact (hsendable f hf).2
      asks := by
        intro f hf
        simp only [Meeting.upload, links_setLink, links_setClient] at hf
        split at hf
        · rename_i hside
          subst hside
          cases hqueue : (m.links .initiator).toServer with
          | nil =>
            rw [hqueue] at hf
            exact (hsendable f (List.mem_of_mem_tail hf)).2
          | cons first queue =>
            rw [hqueue] at hf
            rcases List.mem_append.mp hf with hf | hf
            · apply h.asks f
              rw [hqueue]
              exact hf
            · exact (hsendable f hf).2
        · exact h.asks f hf
      asked := by
        intro hoffered f hf
        rcases hserver _ f hf with hf | ⟨-, hf⟩
        · exact h.asked hoffered f hf
        · exact (hsendable f hf).2
      paired := h.paired
      unread := fun turn endpoints hsession s hs =>
        h.unread turn endpoints hsession s (hphase s hs).1 }

/-- A client's poll: what it sends is what an honest client sends. -/
theorem Honest.poll (h : m.Honest) (hphase : (m.clients side).phase = .waiting)
    {received : Option WsMessage} (hping : received ≠ some .ping) :
    (m.poll side received).Honest := by
  refine h.upload Client.waiting_of_poll (fun f hf => ?_) (fun hwaiting f hf => ?_)
    (Client.length_poll hping) (.inl hphase)
  · rcases Client.mem_poll hping hf with ⟨rfl, -⟩ | ⟨rfl, -⟩
    · exact ⟨trivial, fun hconnect => hconnect⟩
    · exact ⟨trivial, fun hconnect => hconnect⟩
  · rcases Client.mem_poll hping hf with ⟨-, hclosed⟩ | ⟨rfl, -⟩
    · rw [hclosed] at hwaiting
      cases hwaiting
    · trivial

/-- The listener's thread moves on. -/
theorem Honest.withSession (h : m.Honest) (session : Session)
    (hpaired : session.paired = true → m.initiatorThread = .offered)
    (hunread : ∀ turn endpoints, session = .relaying turn endpoints →
      ∀ side, (m.clients side).phase = .waiting → (endpoints side).pending = none) :
    ({ m with session } : Meeting).Honest :=
  { sendable := h.sendable
    texts := h.texts
    ordered := h.ordered
    unpinged := h.unpinged
    listens := h.listens
    asks := h.asks
    asked := h.asked
    paired := hpaired
    unread := hunread }

/-- It does so without a relay. -/
theorem Honest.unpaired (h : m.Honest) {session : Session} (hsession : session.paired = false) :
    ({ m with session } : Meeting).Honest := by
  refine h.withSession session (fun hpaired => ?_) (fun turn endpoints heq => ?_)
  · rw [hsession] at hpaired
    cases hpaired
  · rw [heq] at hsession
    cases hsession

/-- The initiator's thread moves on before anyone is paired. -/
theorem Honest.withThread (h : m.Honest) (hwaiting : m.initiatorThread = .waiting)
    (thread : InitiatorThread)
    (hasked : thread = .offered → ∀ f ∈ (m.links .initiator).toServer, ¬f.IsConnect) :
    ({ m with initiatorThread := thread } : Meeting).Honest :=
  { sendable := h.sendable
    texts := h.texts
    ordered := h.ordered
    unpinged := h.unpinged
    listens := h.listens
    asks := h.asks
    asked := hasked
    paired := by
      intro hpaired
      have hoffered := h.paired hpaired
      rw [hwaiting] at hoffered
      cases hoffered
    unread := h.unread }

/-- The initiator's thread reads its `Connect`, and the queue is shorter by it. -/
theorem Honest.initiatorReads (h : m.Honest) (hwaiting : m.initiatorThread = .waiting)
    {frame : WsMessage} {rest : List WsMessage}
    (hqueue : (m.links .initiator).toServer = frame :: rest) (target : Except String Unit) :
    ((m.keep .initiator rest).initiatorReads target frame).Honest := by
  have hkeep := h.keep hqueue
  simp only [Meeting.initiatorReads]
  split
  · rename_i frames hreply
    exact hkeep.download (ping_notMem_of_reply hreply)
  · refine hkeep.withThread hwaiting _ fun _ f hf => h.asks f ?_
    rw [hqueue]
    simpa [Meeting.keep] using hf
  · exact hkeep.withThread hwaiting _ (by rintro ⟨⟩)

/-- The listener's thread reads a heartbeat or the end of the connection. -/
theorem Honest.listenerReads (h : m.Honest) {frame : WsMessage} {rest : List WsMessage}
    (hqueue : (m.links .listener).toServer = frame :: rest) :
    ((m.keep .listener rest).listenerReads frame).Honest := by
  have hkeep := h.keep hqueue
  simp only [Meeting.listenerReads]
  split
  · rename_i frames hreply
    exact (hkeep.download (ping_notMem_of_reply hreply)).unpaired rfl
  · exact hkeep.unpaired rfl
  · exact hkeep.unpaired rfl

/-- The listener's thread takes the offer, and has both websockets from here on. -/
theorem Honest.tryReceive (h : m.Honest) : m.tryReceive.Honest := by
  simp only [Meeting.tryReceive]
  split
  · rename_i hoffered
    exact h.withSession _ (fun _ => hoffered) (by rintro turn endpoints ⟨⟩)
  · exact h.unpaired rfl

/-- `PeerReady` is sent to one side. -/
theorem Honest.announce (h : m.Honest) (hsession : m.session = .announcing side) (sent : Bool)
    (peerDeviceId peerPublicKey : String) :
    (m.announce side sent peerDeviceId peerPublicKey).Honest := by
  have hoffered : m.initiatorThread = .offered := h.paired (by rw [hsession]; rfl)
  unfold Meeting.announce
  split
  · have hdownload : (m.download side
        [.text (.peerReady peerDeviceId peerPublicKey)]).Honest := h.download (by simp)
    dsimp only
    split
    · exact hdownload.withSession _ (fun _ => hoffered) (by rintro turn endpoints ⟨⟩)
    · refine hdownload.withSession _ (fun _ => hoffered) ?_
      rintro turn endpoints ⟨⟩ s -
      rfl
  · exact h.unpaired rfl

/-- The relay flushes both sides. -/
theorem Honest.flush {endpoints : Side → RelayEndpoint} (h : m.Honest)
    (hsession : m.session = .relaying .flush endpoints) (sent : Side → Sent) :
    (m.flush endpoints sent).Honest := by
  have hoffered : m.initiatorThread = .offered := h.paired (by rw [hsession]; rfl)
  simp only [Meeting.flush]
  split
  · exact h.unpaired rfl
  · rename_i target htarget
    split
    · exact h.unpaired rfl
    · rename_i initiator hinitiator
      refine h.withSession _ (fun _ => hoffered) ?_
      rintro turn endpoints' heq s hs
      obtain ⟨-, rfl⟩ := Session.relaying.inj heq
      cases s with
      | listener =>
        exact (RelayEndpoint.pending_flush htarget).trans (h.unread _ _ hsession _ hs)
      | initiator =>
        exact (RelayEndpoint.pending_flush hinitiator).trans (h.unread _ _ hsession _ hs)

/-- The relay writes what it read on to the other side. -/
theorem Honest.relayWrite {endpoints : Side → RelayEndpoint} {source : RelayEndpoint}
    (h : m.Honest) (hoffered : m.initiatorThread = .offered)
    (hunread : ∀ s, (m.clients s).phase = .waiting → (endpoints s).pending = none)
    (hsource : (m.clients side).phase = .waiting → source.pending = none) (sent : Sent) :
    (m.relayWrite side endpoints source sent).Honest := by
  simp only [Meeting.relayWrite]
  split
  · exact h.unpaired rfl
  · rename_i written source' destination' hwrite
    obtain ⟨hsource', hdestination'⟩ := RelayEndpoint.pending_write hwrite
    have hdownload : (m.download side.other (written.map WsMessage.binary).toList).Honest :=
      h.download (by cases written <;> simp)
    refine hdownload.withSession _ (fun _ => hoffered) ?_
    rintro turn endpoints' heq s hs
    obtain ⟨-, rfl⟩ := Session.relaying.inj heq
    dsimp only
    split
    · rename_i hside
      subst hside
      rcases hsource' with hnone | hsame
      · exact hnone
      · exact hsame.trans (hsource hs)
    · rename_i hside
      have hother : s = side.other := by cases s <;> cases side <;> simp_all [Side.other]
      rw [hdestination', ← hother]
      exact hunread s hs

/-- A step of the relay that goes on with what it has read. -/
theorem Honest.relayStep {endpoints : Side → RelayEndpoint} {read : Read} (h : m.Honest)
    (hoffered : m.initiatorThread = .offered)
    (hunread : ∀ s, (m.clients s).phase = .waiting → (endpoints s).pending = none)
    (hread : (m.clients side).phase = .waiting → ∀ payload, read ≠ .frame (.binary payload))
    (sent : Sent) : (m.relayStep side endpoints read sent).Honest := by
  simp only [Meeting.relayStep]
  split
  · exact h.relayWrite hoffered hunread (hunread side) sent
  · split
    · exact h.unpaired rfl
    · exact h.unpaired rfl
    · rename_i source hsource
      refine h.relayWrite hoffered hunread (fun hwaiting => ?_) sent
      rcases RelayEndpoint.pending_read hsource with hsame | ⟨payload, hbinary⟩
      · exact hsame.trans (hunread side hwaiting)
      · exact absurd hbinary (hread hwaiting payload)

/-- **Every step** leaves the clients honest and the relay without what they have not sent. -/
theorem Honest.step {label : MeetingLabel} (h : m.Honest) (hstep : meeting.step m label m') :
    m'.Honest := by
  cases label with
  | tick now =>
    obtain ⟨-, rfl⟩ := hstep
    exact ⟨h.sendable, h.texts, h.ordered, h.unpinged, h.listens, h.asks, h.asked, h.paired,
      h.unread⟩
  | poll side delivered =>
    cases delivered with
    | true =>
      obtain ⟨hphase, frame, rest, hqueue, rfl⟩ := hstep
      apply (h.keepDown hqueue).poll hphase
      -- the server pings nobody who waits
      rintro heq
      obtain rfl := Option.some.inj heq
      have := h.unpinged side
      rw [hqueue] at this
      exact this List.mem_cons_self
    | false =>
      obtain ⟨hphase, rfl⟩ := hstep
      exact h.poll hphase (by simp)
  | giveUp side =>
    obtain ⟨-, rfl⟩ := hstep
    refine h.upload (by rintro ⟨⟩) (fun f hf => ?_) (by rintro ⟨⟩) (by simp) (.inr fun f hf => ?_)
    · obtain rfl := List.mem_singleton.mp hf
      exact ⟨trivial, fun hconnect => hconnect⟩
    · obtain rfl := List.mem_singleton.mp hf
      exact fun htext => htext
  | forward side payload =>
    obtain ⟨hphase, hlength, rfl⟩ := hstep
    have hclient : m.setClient side (m.clients side) = m := by
      simp [Meeting.setClient]
    have hupload : ((m.setClient side (m.clients side)).upload side [.binary payload]).Honest := by
      refine h.upload id (fun f hf => ?_) (fun hwaiting => ?_) (by simp) (.inr fun f hf => ?_)
      · obtain rfl := List.mem_singleton.mp hf
        refine ⟨?_, fun hconnect => hconnect⟩
        show payload.length ≤ MAX_RELAY_BYTES
        simp only [BRIDGE_BUFFER, MAX_RELAY_BYTES] at hlength ⊢
        omega
      · rw [hphase] at hwaiting
        cases hwaiting
      · obtain rfl := List.mem_singleton.mp hf
        exact fun htext => htext
    rwa [hclient] at hupload
  | take side =>
    obtain ⟨-, frame, rest, hqueue, rfl⟩ := hstep
    exact h.keepDown hqueue
  | initiatorReads arrival target =>
    obtain ⟨hwaiting, harrival⟩ := hstep
    cases arrival with
    | delivered =>
      obtain ⟨frame, rest, hqueue, rfl⟩ := harrival
      exact h.initiatorReads hwaiting hqueue target
    | wouldBlock =>
      obtain rfl := harrival
      exact h
    | failed =>
      obtain rfl := harrival
      exact h.withThread hwaiting _ (by rintro ⟨⟩)
  | listenerReads arrival =>
    obtain ⟨-, harrival⟩ := hstep
    cases arrival with
    | delivered =>
      obtain ⟨frame, rest, hqueue, rfl⟩ := harrival
      exact h.listenerReads hqueue
    | wouldBlock =>
      obtain rfl := harrival
      exact h.unpaired rfl
    | failed =>
      obtain rfl := harrival
      exact h.unpaired rfl
  | tryReceive =>
    obtain ⟨-, rfl⟩ := hstep
    exact h.tryReceive
  | leave =>
    obtain ⟨-, rfl⟩ := hstep
    exact h.unpaired rfl
  | announce sent peerDeviceId peerPublicKey =>
    obtain ⟨side, hsession, rfl⟩ := hstep
    exact h.announce hsession sent peerDeviceId peerPublicKey
  | flush sent =>
    obtain ⟨endpoints, hsession, rfl⟩ := hstep
    exact h.flush hsession sent
  | relay arrival sent =>
    obtain ⟨side, endpoints, hsession, harrival⟩ := hstep
    have hoffered : m.initiatorThread = .offered := h.paired (by rw [hsession]; rfl)
    have hunread := h.unread _ _ hsession
    cases arrival with
    | delivered =>
      obtain ⟨-, frame, rest, hqueue, rfl⟩ := harrival
      refine (h.keep hqueue).relayStep hoffered hunread (fun hwaiting payload heq => ?_) sent
      have htext := h.texts side hwaiting frame (by rw [hqueue]; exact List.mem_cons_self)
      obtain rfl := Read.frame.inj heq
      exact htext
    | wouldBlock =>
      obtain rfl := harrival
      exact h.relayStep hoffered hunread (by rintro - payload ⟨⟩) sent
    | failed =>
      obtain rfl := harrival
      exact h.relayStep hoffered hunread (by rintro - payload ⟨⟩) sent

theorem honest_init (h : meeting.init m) : m.Honest := by
  obtain ⟨hclients, hlistener, ⟨targetDeviceId, targetPublicKey, hinitiator⟩, hthread,
    hsession⟩ := h
  exact
    { sendable := by
        intro side f hf
        cases side with
        | listener =>
          rw [hlistener] at hf
          cases hf
        | initiator =>
          rw [hinitiator] at hf
          obtain rfl := List.mem_singleton.mp hf
          trivial
      texts := by
        intro side _ f hf
        cases side with
        | listener =>
          rw [hlistener] at hf
          cases hf
        | initiator =>
          rw [hinitiator] at hf
          obtain rfl := List.mem_singleton.mp hf
          trivial
      ordered := by
        intro side
        cases side with
        | listener => simp [hlistener]
        | initiator => simp [hinitiator]
      unpinged := by
        intro side
        rw [(hclients side).2]
        simp
      listens := by simp [hlistener]
      asks := by simp [hinitiator]
      asked := by simp [hthread]
      paired := by simp [hsession, Session.paired]
      unread := by simp [hsession] }

/-! ## Steps that disturb nothing -/

/-- The relay has not ended on a frame it does not take. -/
def Undisturbed (m : Meeting) : Prop := m.session ≠ .ended (.error .invalidFrame)

/-- No heartbeat is under way to the server when the listener's thread takes the offer, and no
client sends one between then and its reading of `PeerReady`. -/
def Quiet (m : Meeting) : MeetingLabel → Prop
  | .tryReceive => m.initiatorThread = .offered →
      ∀ side token, WsMessage.text (.heartbeat token) ∉ (m.links side).toServer
  | .poll side delivered => m.session.paired = true →
      (m.clients side).beats m.now
        (if delivered then (m.links side).toClient.head? else none) = false
  | _ => True

/-- Honest clients, and none of their texts in the way of a relay. -/
structure Silent (m : Meeting) : Prop where
  honest : m.Honest
  textless : m.session.paired = true → ∀ side, ∀ f ∈ (m.links side).toServer, ¬f.IsText
  undisturbed : m.Undisturbed

theorem mem_toServer_upload {c : Client} {frames : List WsMessage} {s : Side} {f : WsMessage}
    (hf : f ∈ (((m.setClient side c).upload side frames).links s).toServer) :
    f ∈ (m.links s).toServer ∨ f ∈ frames := by
  simp only [Meeting.upload, links_setLink, links_setClient] at hf
  split at hf
  · rename_i hs
    rw [hs]
    exact List.mem_append.mp hf
  · exact .inl hf

/-- Writing does not end a relay on an invalid frame. -/
theorem relayWrite_undisturbed {endpoints : Side → RelayEndpoint} {source : RelayEndpoint}
    {sent : Sent} : (m.relayWrite side endpoints source sent).Undisturbed := by
  simp only [Meeting.relayWrite, Undisturbed]
  split
  · rename_i failure hwrite
    intro heq
    obtain rfl : failure = .invalidFrame := by simpa using heq
    exact RelayEndpoint.write_ne_invalidFrame hwrite
  · rintro ⟨⟩

/-- A relay ends on an invalid frame only when it reads one. -/
theorem relayStep_undisturbed {endpoints : Side → RelayEndpoint} {read : Read} {sent : Sent}
    (hread : (endpoints side).read m.now read ≠ .error .invalidFrame) :
    (m.relayStep side endpoints read sent).Undisturbed := by
  simp only [Meeting.relayStep]
  split
  · exact relayWrite_undisturbed
  · split
    · rename_i failure hfailure
      intro heq
      obtain rfl : failure = .invalidFrame := by simpa using heq
      exact hread hfailure
    · rintro ⟨⟩
    · exact relayWrite_undisturbed

theorem flush_undisturbed {endpoints : Side → RelayEndpoint} {sent : Side → Sent} :
    (m.flush endpoints sent).Undisturbed := by
  simp only [Meeting.flush]
  split
  · rename_i failure hfailure
    intro heq
    obtain rfl : failure = .invalidFrame := by simpa using heq
    exact RelayEndpoint.flush_ne_invalidFrame hfailure
  · split
    · rename_i failure hfailure
      intro heq
      obtain rfl : failure = .invalidFrame := by simpa using heq
      exact RelayEndpoint.flush_ne_invalidFrame hfailure
    · rintro ⟨⟩

theorem session_initiatorReads {target : Except String Unit} {frame : WsMessage} :
    (m.initiatorReads target frame).session = m.session := by
  simp only [Meeting.initiatorReads]
  split <;> rfl

theorem session_listenerReads {frame : WsMessage} :
    (m.listenerReads frame).session.paired = false ∧ (m.listenerReads frame).Undisturbed := by
  simp only [Meeting.listenerReads, Undisturbed]
  split <;> simp [Session.paired]

/-- What is sent while a relay has the websockets is no text. -/
theorem Silent.upload {c : Client} {frames : List WsMessage} (h : m.Silent)
    (hhonest : ((m.setClient side c).upload side frames).Honest)
    (hframes : m.session.paired = true → ∀ f ∈ frames, ¬f.IsText) :
    ((m.setClient side c).upload side frames).Silent where
  honest := hhonest
  textless hpaired s f hf := by
    rcases mem_toServer_upload hf with hf | hf
    · exact h.textless hpaired s f hf
    · exact hframes hpaired f hf
  undisturbed := h.undisturbed

/-- A poll in which no heartbeat is due, or that finds no pair, puts no text before a relay. -/
theorem Silent.poll (h : m.Silent) {received : Option WsMessage}
    (hping : received ≠ some .ping) (hhonest : (m.poll side received).Honest)
    (hquiet : m.session.paired = true → (m.clients side).beats m.now received = false) :
    (m.poll side received).Silent := by
  refine h.upload hhonest fun hpaired f hf htext => ?_
  rcases Client.mem_poll hping hf with ⟨rfl, -⟩ | ⟨-, hbeats⟩
  · exact htext
  · rw [hquiet hpaired] at hbeats
    cases hbeats

/-- What the listener's thread does with the websockets it has leaves them without text. -/
theorem Silent.of_paired (h : m.Silent) (hpaired : m.session.paired = true) (hhonest : m'.Honest)
    (hqueues : ∀ s, ∀ f ∈ (m'.links s).toServer, f ∈ (m.links s).toServer)
    (hundisturbed : m'.Undisturbed) : m'.Silent where
  honest := hhonest
  textless _ s f hf := h.textless hpaired s f (hqueues s f hf)
  undisturbed := hundisturbed

theorem toServer_download {s : Side} {frames : List WsMessage} :
    ((m.download side frames).links s).toServer = (m.links s).toServer := by
  simp only [Meeting.download, links_setLink]
  split
  · rename_i hs
    rw [hs]
  · rfl

/-- The relay's reading was counted when the frame was taken from its queue. -/
theorem toServer_relayStep {s : Side} {endpoints : Side → RelayEndpoint} {read : Read}
    {sent : Sent} :
    ((m.relayStep side endpoints read sent).links s).toServer = (m.links s).toServer := by
  have hwrite : ∀ source, ((m.relayWrite side endpoints source sent).links s).toServer =
      (m.links s).toServer := by
    intro source
    simp only [Meeting.relayWrite]
    split
    · rfl
    · exact toServer_download
  simp only [Meeting.relayStep]
  split
  · exact hwrite _
  · split
    · rfl
    · rfl
    · exact hwrite _

/-- What is left in a queue was in it. -/
theorem mem_toServer_keep {s : Side} {frame : WsMessage} {rest : List WsMessage}
    (hqueue : (m.links side).toServer = frame :: rest) :
    ∀ f ∈ ((m.keep side rest).links s).toServer, f ∈ (m.links s).toServer := by
  intro f hf
  simp only [Meeting.keep, links_setLink] at hf
  split at hf
  · rename_i hs
    rw [hs, hqueue]
    exact List.mem_cons_of_mem _ hf
  · exact hf

/-- What the clients have sent is not touched by `PeerReady`. -/
theorem toServer_announce {s : Side} {sent : Bool} {peerDeviceId peerPublicKey : String} :
    ((m.announce side sent peerDeviceId peerPublicKey).links s).toServer =
      (m.links s).toServer := by
  unfold Meeting.announce
  split
  · dsimp only
    split <;> exact toServer_download
  · rfl

/-- Sending `PeerReady` ends no relay on an invalid frame. -/
theorem announce_undisturbed {sent : Bool} {peerDeviceId peerPublicKey : String} :
    (m.announce side sent peerDeviceId peerPublicKey).Undisturbed := by
  unfold Meeting.announce Undisturbed
  split
  · dsimp only
    split <;> rintro ⟨⟩
  · rintro ⟨⟩

theorem toServer_flush {s : Side} {endpoints : Side → RelayEndpoint} {sent : Side → Sent} :
    ((m.flush endpoints sent).links s).toServer = (m.links s).toServer := by
  simp only [Meeting.flush]
  split
  · rfl
  · split <;> rfl

/-- A text under way from an honest client is a heartbeat, once the server has the `Connect`. -/
theorem Honest.heartbeat_of_text (h : m.Honest) (hoffered : m.initiatorThread = .offered)
    {f : WsMessage} (hf : f ∈ (m.links side).toServer) (htext : f.IsText) :
    ∃ token, f = .text (.heartbeat token) := by
  have hconnect : ¬f.IsConnect := by
    cases side with
    | listener => exact h.listens f hf
    | initiator => exact h.asked hoffered f hf
  have hsendable := h.sendable side f hf
  cases f with
  | text message =>
    cases message with
    | heartbeat token => exact ⟨token, rfl⟩
    | connect => exact absurd trivial hconnect
    | _ => exact absurd hsendable (fun h => h)
  | _ => exact absurd htext (fun h => h)

/-- A client reads what the server sent; nothing of what it sent itself is different. -/
theorem Silent.keepDown {frame : WsMessage} {rest : List WsMessage} (h : m.Silent)
    (hqueue : (m.links side).toClient = frame :: rest) : (m.keepDown side rest).Silent where
  honest := h.honest.keepDown hqueue
  textless hpaired s f hf := by
    apply h.textless hpaired s f
    simp only [Meeting.keepDown, links_setLink] at hf
    split at hf
    · rename_i hs
      rwa [hs]
    · exact hf
  undisturbed := h.undisturbed

/-- A frame from the server reaches a client. It answers with text only if a heartbeat is due. -/
theorem Silent.deliver {frame : WsMessage} {rest : List WsMessage} (h : m.Silent)
    (hqueue : (m.links side).toClient = frame :: rest)
    (hhonest : ((m.keepDown side rest).poll side (some frame)).Honest)
    (hquiet : m.Quiet (.poll side true)) :
    ((m.keepDown side rest).poll side (some frame)).Silent := by
  refine (h.keepDown hqueue).poll (fun heq => ?_) hhonest fun hpaired => ?_
  · -- the server does not ping
    obtain rfl := Option.some.inj heq
    have hunpinged := h.honest.unpinged side
    rw [hqueue] at hunpinged
    exact hunpinged List.mem_cons_self
  · have hbeats := hquiet hpaired
    rw [if_pos rfl, hqueue] at hbeats
    exact hbeats

/-- What is forwarded is bytes. -/
theorem Silent.forward {payload : List UInt8} (h : m.Silent)
    (hhonest : (m.upload side [.binary payload]).Honest) :
    (m.upload side [.binary payload]).Silent where
  honest := hhonest
  textless hpaired s f hf := by
    simp only [Meeting.upload, links_setLink] at hf
    split at hf
    · rcases List.mem_append.mp hf with hf | hf
      · exact h.textless hpaired side f hf
      · obtain rfl := List.mem_singleton.mp hf
        exact fun htext => htext
    · exact h.textless hpaired s f hf
  undisturbed := h.undisturbed

/-- While the initiator's thread is still waiting there is no session. -/
theorem Honest.not_paired (h : m.Honest) (hwaiting : m.initiatorThread = .waiting) :
    ¬m.session.paired = true := by
  intro hpaired
  have hoffered := h.paired hpaired
  rw [hwaiting] at hoffered
  cases hoffered

/-- The initiator's thread reads on its own only before the offer. -/
theorem Silent.initiatorReads {arrival : Arrival} {target : Except String Unit} (h : m.Silent)
    (hstep : meeting.step m (.initiatorReads arrival target) m') (hhonest : m'.Honest) :
    m'.Silent := by
  obtain ⟨hwaiting, harrival⟩ := hstep
  have hsession : m'.session = m.session := by
    cases arrival with
    | delivered =>
      obtain ⟨frame, rest, -, rfl⟩ := harrival
      exact session_initiatorReads
    | wouldBlock =>
      obtain rfl := harrival
      rfl
    | failed =>
      obtain rfl := harrival
      rfl
  refine ⟨hhonest, fun hpaired => ?_, ?_⟩
  · rw [hsession] at hpaired
    exact absurd hpaired (h.honest.not_paired hwaiting)
  · simp only [Undisturbed]
    rw [hsession]
    exact h.undisturbed

/-- The listener's thread reads on its own only while there is no session, and begins none. -/
theorem Silent.listenerReads {arrival : Arrival}
    (hstep : meeting.step m (.listenerReads arrival) m') (hhonest : m'.Honest) : m'.Silent := by
  obtain ⟨-, harrival⟩ := hstep
  have hsession : m'.session.paired = false ∧ m'.Undisturbed := by
    cases arrival with
    | delivered =>
      obtain ⟨frame, rest, -, rfl⟩ := harrival
      exact session_listenerReads
    | wouldBlock =>
      obtain rfl := harrival
      exact ⟨rfl, by rintro ⟨⟩⟩
    | failed =>
      obtain rfl := harrival
      exact ⟨rfl, by rintro ⟨⟩⟩
  refine ⟨hhonest, fun hpaired => ?_, hsession.2⟩
  rw [hsession.1] at hpaired
  cases hpaired

/-- The session starts. That the step is quiet says that no heartbeat has crossed the offer. -/
theorem Silent.tryReceive (h : m.Silent) (hhonest : m.tryReceive.Honest)
    (hquiet : m.Quiet .tryReceive) : m.tryReceive.Silent where
  honest := hhonest
  textless hpaired s f hf htext := by
    have hoffered : m.initiatorThread = .offered := hhonest.paired hpaired
    obtain ⟨token, rfl⟩ := h.honest.heartbeat_of_text hoffered hf htext
    exact hquiet hoffered s token hf
  undisturbed := by
    simp only [Meeting.tryReceive, Undisturbed]
    split <;> rintro ⟨⟩

/-- A step of the relay. What it reads is no text, so no frame is invalid. -/
theorem Silent.relay {arrival : Arrival} {sent : Sent} (h : m.Silent)
    (hstep : meeting.step m (.relay arrival sent) m') (hhonest : m'.Honest) : m'.Silent := by
  obtain ⟨side, endpoints, hsession, harrival⟩ := hstep
  have hpaired : m.session.paired = true := by
    rw [hsession]
    rfl
  cases arrival with
  | delivered =>
    obtain ⟨-, frame, rest, hqueue, rfl⟩ := harrival
    have hframe : frame ∈ (m.links side).toServer := by
      rw [hqueue]
      exact List.mem_cons_self
    refine h.of_paired hpaired hhonest (fun s f hf => ?_) (relayStep_undisturbed ?_)
    · rw [toServer_relayStep] at hf
      exact mem_toServer_keep hqueue f hf
    · exact RelayEndpoint.read_ne_invalidFrame (h.honest.sendable side frame hframe)
        (h.textless hpaired side frame hframe)
  | wouldBlock =>
    obtain rfl := harrival
    refine h.of_paired hpaired hhonest (fun s f hf => ?_) (relayStep_undisturbed (by rintro ⟨⟩))
    rwa [toServer_relayStep] at hf
  | failed =>
    obtain rfl := harrival
    refine h.of_paired hpaired hhonest (fun s f hf => ?_) (relayStep_undisturbed (by rintro ⟨⟩))
    rwa [toServer_relayStep] at hf

/-- **A quiet step** disturbs nothing. -/
theorem Silent.step {label : MeetingLabel} (h : m.Silent) (hstep : meeting.step m label m')
    (hquiet : m.Quiet label) : m'.Silent := by
  have hhonest : m'.Honest := h.honest.step hstep
  cases label with
  | tick now =>
    obtain ⟨-, rfl⟩ := hstep
    exact ⟨hhonest, h.textless, h.undisturbed⟩
  | poll side delivered =>
    cases delivered with
    | true =>
      obtain ⟨-, frame, rest, hqueue, rfl⟩ := hstep
      exact h.deliver hqueue hhonest hquiet
    | false =>
      obtain ⟨-, rfl⟩ := hstep
      exact h.poll (by simp) hhonest hquiet
  | giveUp side =>
    obtain ⟨-, rfl⟩ := hstep
    refine h.upload hhonest fun _ f hf => ?_
    obtain rfl := List.mem_singleton.mp hf
    exact fun htext => htext
  | forward side payload =>
    obtain ⟨-, -, rfl⟩ := hstep
    exact h.forward hhonest
  | take side =>
    obtain ⟨-, frame, rest, hqueue, rfl⟩ := hstep
    exact h.keepDown hqueue
  | initiatorReads arrival target => exact h.initiatorReads hstep hhonest
  | listenerReads arrival => exact Silent.listenerReads hstep hhonest
  | tryReceive =>
    obtain ⟨-, rfl⟩ := hstep
    exact h.tryReceive hhonest hquiet
  | leave =>
    obtain ⟨-, rfl⟩ := hstep
    exact ⟨hhonest, by rintro ⟨⟩, by rintro ⟨⟩⟩
  | announce sent peerDeviceId peerPublicKey =>
    obtain ⟨side, hsession, rfl⟩ := hstep
    refine h.of_paired (by rw [hsession]; rfl) hhonest (fun s f hf => ?_) announce_undisturbed
    rwa [toServer_announce] at hf
  | flush sent =>
    obtain ⟨endpoints, hsession, rfl⟩ := hstep
    refine h.of_paired (by rw [hsession]; rfl) hhonest (fun s f hf => ?_) flush_undisturbed
    rwa [toServer_flush] at hf
  | relay arrival sent => exact h.relay hstep hhonest

/-- At the start nobody has sent anything but the initiator's `Connect`. -/
theorem silent_init (h : meeting.init m) : m.Silent where
  honest := honest_init h
  textless := by
    intro hpaired
    rw [h.2.2.2.2] at hpaired
    cases hpaired
  undisturbed := by
    simp only [Undisturbed]
    rw [h.2.2.2.2]
    rintro ⟨⟩

/-! ## Steps that open the way to the error -/

/-- The relay can end on a frame it does not take. -/
def Doomed (m : Meeting) : Prop :=
  ∃ run, meeting.IsRun m run ∧ ¬(LTS.last m run).Undisturbed

/-- If a state reached by a step is doomed, so was the state before. -/
theorem Doomed.step {label : MeetingLabel} (hstep : meeting.step m label m') (h : m'.Doomed) :
    m.Doomed := by
  obtain ⟨run, hrun, hlast⟩ := h
  exact ⟨(label, m') :: run, ⟨hstep, hrun⟩, hlast⟩

/-- A relay can write, if the socket takes it. -/
theorem write_ok (source destination : RelayEndpoint) (now : ℚ) :
    ∃ written source' destination',
      source.write destination now .ok = .ok (written, source', destination') := by
  simp only [RelayEndpoint.write]
  split
  · split
    · exact ⟨_, _, _, rfl⟩
    · exact ⟨_, _, _, rfl⟩
  · exact ⟨_, _, _, rfl⟩

/-- A relay can flush, if the socket takes it. -/
theorem flush_ok (e : RelayEndpoint) (now : ℚ) : ∃ e', e.flush now .ok = .ok e' := by
  simp only [RelayEndpoint.flush]
  split
  · exact ⟨_, rfl⟩
  · exact ⟨_, rfl⟩

/-- A relay has a text before it from a side it holds nothing of. -/
structure Facing (m : Meeting) (side : Side) (turn : Turn) : Prop where
  text : ∃ f rest, (m.links side).toServer = f :: rest ∧ f.IsText
  relaying : ∃ endpoints, m.session = .relaying turn endpoints ∧ (endpoints side).pending = none

/-- It ends there if it is that side's turn. -/
theorem Facing.doomed_of_step (h : m.Facing side (.step side)) : m.Doomed := by
  obtain ⟨⟨f, rest, hqueue, htext⟩, endpoints, hsession, hpending⟩ := h
  refine ⟨[(.relay .delivered .ok, _)],
    ⟨⟨side, endpoints, hsession, hpending, f, rest, hqueue, rfl⟩, trivial⟩, fun hlast => hlast ?_⟩
  have hread : (endpoints side).read (m.keep side rest).now (.frame f) = .error .invalidFrame := by
    cases f with
    | text message => rfl
    | _ => exact absurd htext (fun h => h)
  simp only [LTS.last, Meeting.relayStep, hpending, Option.isSome_none, hread]
  rfl

/-- The other side's turn passes, with nothing to read. -/
theorem Facing.other (h : m.Facing side (.step side.other)) :
    ∃ m', meeting.step m (.relay .wouldBlock .ok) m' ∧ m'.Facing side (turnAfter side.other) := by
  obtain ⟨⟨f, rest, hqueue, htext⟩, endpoints, hsession, hpending⟩ := h
  refine ⟨_, ⟨side.other, endpoints, hsession, rfl⟩, ⟨f, rest, ?_, htext⟩, ?_⟩
  · rw [toServer_relayStep]
    exact hqueue
  · have hothers : side.other.other = side := by cases side <;> rfl
    have hwrite : ∀ source, (m.relayWrite side.other endpoints source .ok).session =
        (m.relayStep side.other endpoints .wouldBlock .ok).session →
        ∃ endpoints', (m.relayStep side.other endpoints .wouldBlock .ok).session =
          .relaying (turnAfter side.other) endpoints' ∧ (endpoints' side).pending = none := by
      intro source heq
      obtain ⟨written, source', destination', hok⟩ :=
        write_ok source (endpoints side.other.other) m.now
      rw [← heq, Meeting.relayWrite, hok]
      refine ⟨_, rfl, ?_⟩
      have hne : side ≠ side.other := by cases side <;> rintro ⟨⟩
      rw [if_neg hne, (RelayEndpoint.pending_write hok).2, hothers, hpending]
    by_cases hsome : (endpoints side.other).pending.isSome = true
    · exact hwrite (endpoints side.other) (by rw [Meeting.relayStep, if_pos hsome])
    · apply hwrite (endpoints side.other)
      rw [Meeting.relayStep, if_neg hsome]
      rfl

/-- The relay flushes, and then it is the initiator's turn. -/
theorem Facing.flush (h : m.Facing side .flush) :
    ∃ m', meeting.step m (.flush fun _ => .ok) m' ∧ m'.Facing side (.step .initiator) := by
  obtain ⟨⟨f, rest, hqueue, htext⟩, endpoints, hsession, hpending⟩ := h
  refine ⟨_, ⟨endpoints, hsession, rfl⟩, ⟨f, rest, ?_, htext⟩, ?_⟩
  · rw [toServer_flush]
    exact hqueue
  · obtain ⟨target, htarget⟩ := flush_ok (endpoints .listener) m.now
    obtain ⟨initiator, hinitiator⟩ := flush_ok (endpoints .initiator) m.now
    simp only [Meeting.flush, htarget, hinitiator]
    refine ⟨_, rfl, ?_⟩
    cases side with
    | listener => exact (RelayEndpoint.pending_flush htarget).trans hpending
    | initiator => exact (RelayEndpoint.pending_flush hinitiator).trans hpending

/-- A relay with a text before it can end there: flushes and turns of the other side come first, and
then it reads the text. -/
theorem Facing.doomed {turn : Turn} (h : m.Facing side turn) : m.Doomed := by
  have hinitiator : ∀ {m : Meeting}, m.Facing side (.step .initiator) → m.Doomed := by
    intro m h
    cases side with
    | initiator => exact h.doomed_of_step
    | listener =>
      obtain ⟨m', hstep, h'⟩ := Facing.other h
      exact h'.doomed_of_step.step hstep
  have hflush : ∀ {m : Meeting}, m.Facing side .flush → m.Doomed := by
    intro m h
    obtain ⟨m', hstep, h'⟩ := h.flush
    exact (hinitiator h').step hstep
  cases turn with
  | flush => exact hflush h
  | step source =>
    cases source with
    | initiator => exact hinitiator h
    | listener =>
      cases side with
      | listener => exact h.doomed_of_step
      | initiator =>
        obtain ⟨m', hstep, h'⟩ := Facing.other h
        exact (hflush h').step hstep

/-- A pair is lost with a text before it. -/
theorem doomed_of_paired {f : WsMessage} {rest : List WsMessage} (hpaired : m.session.paired = true)
    (hqueue : (m.links side).toServer = f :: rest) (htext : f.IsText)
    (hunread : ∀ turn endpoints, m.session = .relaying turn endpoints →
      (endpoints side).pending = none) : m.Doomed := by
  have hinitiator : ∀ {m : Meeting}, m.session = .announcing .initiator →
      (m.links side).toServer = f :: rest → m.Doomed := by
    intro m hsession hqueue
    have hfacing : (m.announce .initiator true "" "").Facing side .flush :=
      ⟨⟨f, rest, by rw [toServer_announce, hqueue], htext⟩, _, rfl, rfl⟩
    exact hfacing.doomed.step
      (show meeting.step m (.announce true "" "") _ from ⟨.initiator, hsession, rfl⟩)
  cases hsession : m.session with
  | announcing first =>
    cases first with
    | initiator => exact hinitiator hsession hqueue
    | listener =>
      have hnext : (m.announce .listener true "" "").Doomed :=
        hinitiator rfl (by rw [toServer_announce, hqueue])
      exact hnext.step
        (show meeting.step m (.announce true "" "") _ from ⟨.listener, hsession, rfl⟩)
  | relaying turn endpoints =>
    exact Facing.doomed ⟨⟨f, rest, hqueue, htext⟩, endpoints, hsession, hunread _ _ hsession⟩
  | _ =>
    rw [hsession] at hpaired
    cases hpaired

/-- The first message under way is a text if any is. -/
theorem Honest.text_first (h : m.Honest) {f : WsMessage} (hf : f ∈ (m.links side).toServer)
    (htext : f.IsText) : ∃ first rest, (m.links side).toServer = first :: rest ∧ first.IsText := by
  cases hqueue : (m.links side).toServer with
  | nil =>
    rw [hqueue] at hf
    cases hf
  | cons first rest =>
    refine ⟨first, rest, rfl, ?_⟩
    rw [hqueue] at hf
    have hordered := h.ordered side
    rw [hqueue] at hordered
    rcases List.mem_cons.mp hf with rfl | hf
    · exact htext
    · exact (List.pairwise_cons.mp hordered).1 f hf htext

/-- A heartbeat sent to a relay is before it. -/
theorem Honest.doomed_of_beats (h : m.Honest) (hpaired : m.session.paired = true)
    (hphase : (m.clients side).phase = .waiting) {received : Option WsMessage}
    (hping : received ≠ some .ping) (hbeats : (m.clients side).beats m.now received = true) :
    (m.poll side received).Doomed := by
  have hpoll : (m.clients side).poll m.now received =
    ({ m.clients side with lastHeartbeat := m.now },
      [.text (.heartbeat (m.clients side).token)]) := by
    have hbeat : (m.clients side).beat m.now received =
        ({ m.clients side with lastHeartbeat := m.now },
          [.text (.heartbeat (m.clients side).token)]) := by
      rw [Client.beat, if_pos hbeats]
    have hoverdue : ¬(m.clients side).overdue m.now = true := by
      intro hoverdue
      simp [Client.beats, hoverdue] at hbeats
    simp only [Client.poll]
    rw [if_neg hoverdue]
    split
    any_goals simp [Client.beats] at hbeats
    · exact absurd rfl hping
    · exact hbeat
    · exact hbeat
  have hmem : WsMessage.text (.heartbeat (m.clients side).token) ∈
      ((m.poll side received).links side).toServer := by
    simp [Meeting.poll, hpoll, Meeting.upload]
  obtain ⟨first, rest, hqueue, htext⟩ := (h.poll hphase hping).text_first hmem trivial
  refine doomed_of_paired hpaired hqueue htext fun turn endpoints hsession => ?_
  exact h.unread turn endpoints hsession side hphase

/-- **A step that is not quiet** opens the way to the error. -/
theorem Honest.doomed {label : MeetingLabel} (h : m.Honest) (hstep : meeting.step m label m')
    (hloud : ¬m.Quiet label) : m'.Doomed := by
  cases label with
  | tryReceive =>
    obtain ⟨-, rfl⟩ := hstep
    simp only [Quiet, not_forall, not_not] at hloud
    obtain ⟨hoffered, side, token, hmem⟩ := hloud
    obtain ⟨first, rest, hqueue, htext⟩ := h.text_first hmem trivial
    have hsession : m.tryReceive.session = .announcing .listener := by
      simp [Meeting.tryReceive, hoffered]
    refine doomed_of_paired (by rw [hsession]; rfl) hqueue htext fun turn endpoints heq => ?_
    rw [hsession] at heq
    cases heq
  | poll side delivered =>
    simp only [Quiet, not_forall] at hloud
    obtain ⟨hpaired, hbeats⟩ := hloud
    rw [Bool.not_eq_false] at hbeats
    cases delivered with
    | true =>
      obtain ⟨hphase, frame, rest, hqueue, rfl⟩ := hstep
      rw [if_pos rfl, hqueue] at hbeats
      refine (h.keepDown hqueue).doomed_of_beats hpaired hphase (fun heq => ?_) hbeats
      obtain rfl := Option.some.inj heq
      have := h.unpinged side
      rw [hqueue] at this
      exact this List.mem_cons_self
    | false =>
      obtain ⟨hphase, rfl⟩ := hstep
      exact h.doomed_of_beats hpaired hphase (by simp) hbeats
  | _ => exact absurd trivial hloud

/-- **The race of a heartbeat.** A run of honest clients and the server all of whose steps are
quiet never ends a relay on a frame it does not take; and after a step of any run that is not
quiet, whatever came before, the relay can go on to end so. -/
theorem heartbeat_race (m : Meeting) :
    (∀ run, meeting.init m → meeting.IsRun m run → LTS.Meets Quiet m run →
      LTS.Keeps Undisturbed m run) ∧
    ∀ label m', meeting.Reachable m → meeting.step m label m' → ¬m.Quiet label →
      ∃ run, meeting.IsRun m' run ∧ ¬(LTS.last m' run).Undisturbed := by
  constructor
  · intro run hinit hrun hquiet
    have hsilent : LTS.Keeps Silent m run :=
      LTS.keeps_of_meets (fun _ _ _ h hstep hq => h.step hstep hq) (silent_init hinit) hrun hquiet
    exact hsilent.mono fun _ h => h.undisturbed
  · intro label m' hreach hstep hloud
    have hhonest : m.Honest := hreach.invariant (fun _ => honest_init) fun _ _ _ h => h.step
    exact hhonest.doomed hstep hloud

end Steps

end Meeting

/-! ### A heartbeat crosses `PeerReady` -/

namespace CrossedHeartbeat

/-- Both clients wait, the initiator with its `Connect` sent. -/
def start : Meeting where
  now := 0
  maxBitrate := none
  clients
    | .listener => ⟨.waiting, "listener", none, 0, 0⟩
    | .initiator => ⟨.waiting, "initiator", some 90, 0, 0⟩
  links
    | .listener => ⟨[], []⟩
    | .initiator => ⟨[.text (.connect "initiator" "123 456 789" "")], []⟩
  initiatorThread := .waiting
  session := .receiving

/-- After 25 seconds the initiator's websocket is offered and taken; the listener, who has
not read `PeerReady`, sends the heartbeat that is due. -/
def later : Meeting := { start with now := 25 }
def offered : Meeting := (later.keep .initiator []).initiatorReads (.ok ())
  (.text (.connect "initiator" "123 456 789" ""))
def taken : Meeting := offered.tryReceive
def crossed : Meeting := taken.poll .listener none

theorem init_start : meeting.init start :=
  ⟨by rintro (_ | _) <;> exact ⟨rfl, rfl⟩, rfl, ⟨_, _, rfl⟩, rfl, rfl⟩

def quietRun : List (MeetingLabel × Meeting) :=
  [(.tick 25, later), (.initiatorReads .delivered (.ok ()), offered), (.tryReceive, taken)]

theorem isRun_quietRun : meeting.IsRun start quietRun :=
  ⟨⟨by decide +kernel, rfl⟩, ⟨rfl, _, [], rfl, rfl⟩, ⟨rfl, rfl⟩, trivial⟩

theorem quiet_quietRun : LTS.Meets Meeting.Quiet start quietRun := by
  refine ⟨trivial, trivial, fun _ side token hmem => ?_, trivial⟩
  cases side <;> cases hmem

theorem reachable_taken : meeting.Reachable taken :=
  (LTS.Reachable.init init_start).of_run isRun_quietRun

theorem step_crossed : meeting.step taken (.poll .listener false) crossed := ⟨rfl, rfl⟩

theorem beats_taken : (taken.clients .listener).beats taken.now none = true := by decide +kernel

/-- **A relay of honest clients is lost** to a heartbeat that the listener was to send. -/
theorem relay_lost : ¬∀ m, meeting.Reachable m → m.Undisturbed := by
  intro h
  have hhonest : taken.Honest :=
    reachable_taken.invariant (fun _ => Meeting.honest_init) fun _ _ _ h => h.step
  obtain ⟨run, hrun, hlast⟩ : crossed.Doomed :=
    hhonest.doomed_of_beats rfl rfl (by simp) beats_taken
  exact hlast (h _ ((reachable_taken.step step_crossed).of_run hrun))

/-- The offer is taken quietly; the heartbeat after it is not quiet, and can end the relay. -/
theorem race_of_crossed :
    LTS.Keeps Meeting.Undisturbed start quietRun ∧
      ∃ run, meeting.IsRun crossed run ∧ ¬(LTS.last crossed run).Undisturbed :=
  ⟨(Meeting.heartbeat_race start).1 quietRun init_start isRun_quietRun quiet_quietRun,
    (Meeting.heartbeat_race taken).2 _ crossed reachable_taken step_crossed
      fun hquiet => by simpa [beats_taken] using hquiet rfl⟩

end CrossedHeartbeat

end SensorRemote
