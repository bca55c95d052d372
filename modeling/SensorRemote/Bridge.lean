import SensorRemote.RelayPair

/-!
# The client's bridge

A client of the rendezvous service speaks to a local TCP socket; `bridge` (`sensor-render`,
`lib.rs`) forwards between that socket and the websocket of the relay. With it all hops between two
clients are known: bridge, relay and bridge again.

A bridge is an instance of the library's hop in each direction (`outward`, `inward`), and so is the
relay. What a hop has handed on is what it took, in order, but for the end of the last message; that
is a fact about hops, so each step function of the bridge is looked at once, to see which move of a
hop it is.
-/

namespace SensorRemote

open Transition

/-- What a nonblocking TCP read answers: no byte at the end of the stream. -/
inductive TcpRead where
  | received (bytes : List UInt8)
  | wouldBlock
  | failed

/-- What a nonblocking TCP write answers: how many bytes were written. -/
inductive TcpWrite where
  | wrote (size : ℕ)
  | wouldBlock
  | failed

/-- Where a round of the loop is. -/
inductive BridgePoint where
  | flush
  | readTcp
  /-- the bytes read are to be sent -/
  | send
  | readWebsocket
  | writeTcp
  /-- was there progress? -/
  | rest
  | ended
  deriving DecidableEq

/-- The variables of `bridge`, and what was read from each side and handed to the other. -/
structure Bridge where
  point : BridgePoint
  /-- `buffer[..size]`, from the read to the send -/
  buffer : List UInt8
  pendingTcp : List UInt8
  tcpOffset : ℕ
  pendingWebsocket : Bool
  progressed : Bool
  lastProgress : ℚ
  /-- what TCP was read, in the portions it came in -/
  tcpRead : List (List UInt8)
  websocketSent : List UInt8
  /-- the binary messages read from the websocket -/
  websocketRead : List (List UInt8)
  tcpWritten : List UInt8

namespace Bridge

/-- The unfinished frame goes on. -/
def flush (b : Bridge) (sent : Sent) : Bridge :=
  let b := { b with point := .readTcp, progressed := false }
  if b.pendingWebsocket then
    match sent with
    | .ok => { b with pendingWebsocket := false, progressed := true }
    | .wouldBlock => b
    | .failed => { b with point := .ended }
  else b

/-- No TCP is read while a frame is unfinished. -/
def readTcp (b : Bridge) (answer : TcpRead) : Bridge :=
  if b.pendingWebsocket then { b with point := .readWebsocket }
  else
    match answer with
    | .received bytes =>
      if bytes = [] then { b with point := .ended }
      else
        { b with
          point := .send
          progressed := true
          buffer := bytes
          tcpRead := b.tcpRead ++ [bytes] }
    | .wouldBlock => { b with point := .readWebsocket }
    | .failed => { b with point := .ended }

/-- What was read is sent as one message, which the websocket keeps if it cannot write it. -/
def send (b : Bridge) (sent : Sent) : Bridge :=
  match sent with
  | .ok =>
    { b with point := .readWebsocket, buffer := [], websocketSent := b.websocketSent ++ b.buffer }
  | .wouldBlock =>
    { b with
      point := .readWebsocket
      buffer := []
      pendingWebsocket := true
      websocketSent := b.websocketSent ++ b.buffer }
  | .failed => { b with point := .ended }

/-- The websocket is read when nothing waits for TCP. -/
def readWebsocket (b : Bridge) (answer : Read) : Bridge :=
  if b.tcpOffset = b.pendingTcp.length then
    let b := { b with point := .writeTcp, pendingTcp := [], tcpOffset := 0 }
    match answer with
    | .frame (.binary bytes) =>
      let b := { b with websocketRead := b.websocketRead ++ [bytes] }
      if bytes.length ≤ MAX_RELAY_BYTES then { b with pendingTcp := bytes, progressed := true }
      else { b with point := .ended }
    | .frame .ping => { b with pendingWebsocket := true, progressed := true }
    | .frame .pong => { b with progressed := true }
    | .frame _ => { b with point := .ended }
    | .wouldBlock => b
    | .failed => { b with point := .ended }
  else { b with point := .writeTcp }

/-- What waits is written from the offset on. -/
def writeTcp (b : Bridge) (answer : TcpWrite) : Bridge :=
  if b.tcpOffset < b.pendingTcp.length then
    match answer with
    | .wrote size =>
      if size = 0 then { b with point := .ended }
      else
        { b with
          point := .rest
          tcpOffset := b.tcpOffset + size
          progressed := true
          tcpWritten := b.tcpWritten ++ (b.pendingTcp.drop b.tcpOffset).take size }
    | .wouldBlock => { b with point := .rest }
    | .failed => { b with point := .ended }
  else { b with point := .rest }

/-- After thirty seconds without progress on something unfinished the bridge gives up. -/
def rest (b : Bridge) (now : ℚ) : Bridge :=
  if b.progressed then { b with point := .flush, lastProgress := now }
  else if (b.pendingWebsocket ∨ b.tcpOffset < b.pendingTcp.length) ∧ now - b.lastProgress > 30 then
    { b with point := .ended }
  else { b with point := .flush }

end Bridge

/-- A step of the bridge, with what the sockets answer. -/
inductive BridgeLabel where
  | flush (sent : Sent)
  | readTcp (answer : TcpRead)
  | send (sent : Sent)
  | readWebsocket (answer : Read)
  | writeTcp (answer : TcpWrite)
  | rest (now : ℚ)

/-- A read fills at most the buffer. -/
def TcpRead.Within (limit : ℕ) : TcpRead → Prop
  | .received bytes => bytes.length ≤ limit
  | _ => True

/-- A write takes at most what it is given. -/
def TcpWrite.Within (limit : ℕ) : TcpWrite → Prop
  | .wrote size => size ≤ limit
  | _ => True

def bridge : LTS Bridge BridgeLabel where
  init b := ∃ now, b = ⟨.flush, [], [], 0, false, false, now, [], [], [], []⟩
  step b label b' :=
    match label with
    | .flush sent => b.point = .flush ∧ b' = b.flush sent
    | .readTcp answer => b.point = .readTcp ∧ answer.Within BRIDGE_BUFFER ∧ b' = b.readTcp answer
    | .send sent => b.point = .send ∧ b' = b.send sent
    | .readWebsocket answer => b.point = .readWebsocket ∧ answer.Within MAX_RELAY_BYTES ∧
        b' = b.readWebsocket answer
    | .writeTcp answer => b.point = .writeTcp ∧
        answer.Within (b.pendingTcp.drop b.tcpOffset).length ∧ b' = b.writeTcp answer
    | .rest now => b.point = .rest ∧ b' = b.rest now

/-! ## Both directions are hops -/

namespace Bridge

variable {b b' : Bridge}

/-- From TCP to the websocket. -/
def outward (b : Bridge) : Hop UInt8 := ⟨b.tcpRead, b.buffer, b.websocketSent⟩

/-- From the websocket to TCP. -/
def inward (b : Bridge) : Hop UInt8 :=
  ⟨b.websocketRead, b.pendingTcp.drop b.tcpOffset, b.tcpWritten⟩

/-- What is read is sent before more is read. -/
def Emptied (b : Bridge) : Prop := b.point ≠ .send → b.point ≠ .ended → b.buffer = []

theorem Emptied.step {label : BridgeLabel} (h : b.Emptied) (hstep : bridge.step b label b') :
    b'.Emptied := by
  cases label with
  | flush sent =>
    obtain ⟨hpoint, rfl⟩ := hstep
    have hbuffer : b.buffer = [] := h (by simp [hpoint]) (by simp [hpoint])
    intro _ _
    simp only [flush]
    split
    · split <;> exact hbuffer
    · exact hbuffer
  | readTcp answer =>
    obtain ⟨hpoint, -, rfl⟩ := hstep
    have hbuffer : b.buffer = [] := h (by simp [hpoint]) (by simp [hpoint])
    intro hsend _
    revert hsend
    simp only [readTcp]
    split
    · exact fun _ => hbuffer
    · split
      · split
        · exact fun _ => hbuffer
        · exact fun hsend => (hsend rfl).elim
      · exact fun _ => hbuffer
      · exact fun _ => hbuffer
  | send sent =>
    obtain ⟨-, rfl⟩ := hstep
    cases sent with
    | ok => exact fun _ _ => rfl
    | wouldBlock => exact fun _ _ => rfl
    | failed => exact fun _ hended => (hended rfl).elim
  | readWebsocket answer =>
    obtain ⟨hpoint, -, rfl⟩ := hstep
    have hbuffer : b.buffer = [] := h (by simp [hpoint]) (by simp [hpoint])
    intro _ _
    simp only [readWebsocket]
    split
    · split
      · split <;> exact hbuffer
      all_goals exact hbuffer
    · exact hbuffer
  | writeTcp answer =>
    obtain ⟨hpoint, -, rfl⟩ := hstep
    have hbuffer : b.buffer = [] := h (by simp [hpoint]) (by simp [hpoint])
    intro _ _
    simp only [writeTcp]
    split
    · split
      · split <;> exact hbuffer
      · exact hbuffer
      · exact hbuffer
    · exact hbuffer
  | rest now =>
    obtain ⟨hpoint, rfl⟩ := hstep
    have hbuffer : b.buffer = [] := h (by simp [hpoint]) (by simp [hpoint])
    intro _ _
    simp only [rest]
    split
    · exact hbuffer
    · split <;> exact hbuffer

theorem emptied_of_reachable (h : bridge.Reachable b) : b.Emptied := by
  refine h.invariant ?_ fun _ _ _ => Emptied.step
  rintro _ ⟨now, rfl⟩
  exact fun _ _ => rfl

/-- **The way out.** TCP is read into the buffer and the buffer is sent. -/
theorem outward_step {label : BridgeLabel} (hemptied : b.Emptied)
    (hstep : bridge.step b label b') : b'.outward = b.outward ∨
      ∃ move, (hop UInt8 MAX_RELAY_BYTES).step b.outward move b'.outward := by
  cases label with
  | flush sent =>
    obtain ⟨-, rfl⟩ := hstep
    refine .inl ?_
    simp only [flush]
    split
    · split <;> rfl
    · rfl
  | readTcp answer =>
    obtain ⟨hpoint, hwithin, rfl⟩ := hstep
    simp only [readTcp]
    split
    · exact .inl rfl
    · split
      · rename_i bytes
        split
        -- a read of nothing is the end; anything else is taken, as the buffer is empty
        · exact .inl rfl
        · have hbound : bytes.length ≤ MAX_RELAY_BYTES :=
            Nat.le_trans hwithin (by simp [BRIDGE_BUFFER, MAX_RELAY_BYTES])
          have hbuffer : b.buffer = [] := hemptied (by simp [hpoint]) (by simp [hpoint])
          exact .inr ⟨.take bytes, hbuffer, hbound, rfl⟩
      · exact .inl rfl
      · exact .inl rfl
  | send sent =>
    obtain ⟨-, rfl⟩ := hstep
    -- a message that would block is kept by the library, so it is handed over too
    have hall : (hop UInt8 MAX_RELAY_BYTES).step b.outward (.hand b.buffer.length)
        ⟨b.tcpRead, [], b.websocketSent ++ b.buffer⟩ := by
      simp [hop, outward]
    cases sent with
    | ok => exact .inr ⟨_, hall⟩
    | wouldBlock => exact .inr ⟨_, hall⟩
    | failed => exact .inl rfl
  | readWebsocket answer =>
    obtain ⟨-, -, rfl⟩ := hstep
    refine .inl ?_
    simp only [readWebsocket]
    split
    · split
      · split <;> rfl
      all_goals rfl
    · rfl
  | writeTcp answer =>
    obtain ⟨-, -, rfl⟩ := hstep
    refine .inl ?_
    simp only [writeTcp]
    split
    · split
      · split <;> rfl
      · rfl
      · rfl
    · rfl
  | rest now =>
    obtain ⟨-, rfl⟩ := hstep
    refine .inl ?_
    simp only [rest]
    split
    · rfl
    · split <;> rfl

/-- **The way in.** A message is read when the one before it is written, and written in
portions. -/
theorem inward_step {label : BridgeLabel} (hstep : bridge.step b label b') :
    b'.inward = b.inward ∨
      ∃ move, (hop UInt8 MAX_RELAY_BYTES).step b.inward move b'.inward := by
  cases label with
  | flush sent =>
    obtain ⟨-, rfl⟩ := hstep
    refine .inl ?_
    simp only [flush]
    split
    · split <;> rfl
    · rfl
  | readTcp answer =>
    obtain ⟨-, -, rfl⟩ := hstep
    refine .inl ?_
    simp only [readTcp]
    split
    · rfl
    · split
      · split <;> rfl
      · rfl
      · rfl
  | send sent =>
    obtain ⟨-, rfl⟩ := hstep
    cases sent <;> exact .inl rfl
  | readWebsocket answer =>
    obtain ⟨-, hwithin, rfl⟩ := hstep
    simp only [readWebsocket]
    split
    · rename_i hwritten
      have hnone : b.pendingTcp.drop b.tcpOffset = [] := by simp [hwritten]
      have hinward : b.inward = ⟨b.websocketRead, [], b.tcpWritten⟩ := by simp [inward, hnone]
      rw [hinward]
      split
      · rename_i bytes
        have hlength : bytes.length ≤ MAX_RELAY_BYTES := hwithin
        rw [if_pos hlength]
        exact .inr ⟨.take bytes, rfl, hwithin, rfl⟩
      all_goals exact .inl rfl
    · exact .inl rfl
  | writeTcp answer =>
    obtain ⟨-, -, rfl⟩ := hstep
    simp only [writeTcp]
    split
    · split
      · rename_i size
        split
        · exact .inl rfl
        · refine .inr ⟨.hand size, ?_⟩
          simp [hop, inward]
      · exact .inl rfl
      · exact .inl rfl
    · exact .inl rfl
  | rest now =>
    obtain ⟨-, rfl⟩ := hstep
    refine .inl ?_
    simp only [rest]
    split
    · rfl
    · split <;> rfl

/-- What a bridge has handed to either side is what it read from the other, but for the end
of one message. -/
theorem faithful (h : bridge.Reachable b) :
    Faithful MAX_RELAY_BYTES b.tcpRead b.websocketSent ∧
      Faithful MAX_RELAY_BYTES b.websocketRead b.tcpWritten := by
  constructor
  · refine faithful_of_reachable (h := b.outward) (LTS.Reachable.simulate outward ?_ ?_ h)
    · rintro _ ⟨now, rfl⟩
      rfl
    · exact fun _ _ _ hreach => outward_step (emptied_of_reachable hreach)
  · refine faithful_of_reachable (h := b.inward) (LTS.Reachable.simulate inward ?_ ?_ h)
    · rintro _ ⟨now, rfl⟩
      rfl
    · exact fun _ _ _ _ => inward_step

end Bridge

/-- **Every hop is faithful.** Whatever the sockets answer, at any time and in each direction,
what the relay or a bridge has handed on is a prefix of what it has read, and the rest is
the end of the message read last and at most a mebibyte. -/
theorem hops_faithful {s : RelayPair} {b : Bridge} (hs : relayPair.Reachable s)
    (hb : bridge.Reachable b) :
    (∀ side, Faithful MAX_RELAY_BYTES (s.read side) (s.handed side.other).flatten) ∧
      Faithful MAX_RELAY_BYTES b.tcpRead b.websocketSent ∧
      Faithful MAX_RELAY_BYTES b.websocketRead b.tcpWritten :=
  ⟨RelayPair.faithful hs, Bridge.faithful hb⟩

namespace HalfForwarded

/-- A message of the initiator's, read by the relay and then, in part, written by the bridge
of the target. -/
def message : List UInt8 := [1, 2, 3]
def frame : Read := .frame (.binary message)

theorem within_frame : frame.Within MAX_RELAY_BYTES :=
  show 3 ≤ MAX_RELAY_BYTES by decide

def relay0 : RelayPair where
  point := .flush .target
  ends _ := .new none 0
  sockets _ := ⟨[], []⟩
  read _ := []
  handed _ := []
  closedBy := none
def relay1 : RelayPair := relay0.flush .target 0 (.takes 0)
def relay2 : RelayPair := relay1.flush .initiator 0 (.takes 0)
def relay3 : RelayPair := relay2.readStep .initiator 0 frame 0 (.takes 0)

def relayed : List (PairLabel × RelayPair) :=
  [(.flush 0 (.takes 0), relay1), (.flush 0 (.takes 0), relay2),
    (.read 0 frame 0 (.takes 0), relay3)]

theorem reachable_relay3 : relayPair.Reachable relay3 := by
  have hinit : relayPair.init relay0 :=
    ⟨none, fun _ => 0, rfl, fun _ => rfl, fun _ => rfl, fun _ => rfl, fun _ => rfl, rfl⟩
  have hrun : relayPair.IsRun relay0 relayed :=
    ⟨⟨.target, rfl, rfl⟩, ⟨.initiator, rfl, rfl⟩, ⟨.initiator, rfl, within_frame, rfl⟩, trivial⟩
  exact (LTS.Reachable.init hinit).of_run hrun

def bridge0 : Bridge := ⟨.flush, [], [], 0, false, false, 0, [], [], [], []⟩
def bridge1 : Bridge := bridge0.flush .ok
def bridge2 : Bridge := bridge1.readTcp .wouldBlock
def bridge3 : Bridge := bridge2.readWebsocket frame
def bridge4 : Bridge := bridge3.writeTcp (.wrote 1)

def bridged : List (BridgeLabel × Bridge) :=
  [(.flush .ok, bridge1), (.readTcp .wouldBlock, bridge2), (.readWebsocket frame, bridge3),
    (.writeTcp (.wrote 1), bridge4)]

theorem reachable_bridge4 : bridge.Reachable bridge4 := by
  have hrun : bridge.IsRun bridge0 bridged :=
    ⟨⟨rfl, rfl⟩, ⟨rfl, trivial, rfl⟩, ⟨rfl, within_frame, rfl⟩,
      ⟨rfl, show 1 ≤ 3 by decide, rfl⟩, trivial⟩
  have hinit : bridge.init bridge0 := ⟨0, rfl⟩
  exact (LTS.Reachable.init hinit).of_run hrun

/-- The relay still holds the message, the bridge has written its first byte. -/
theorem nothing_lost :
    Faithful MAX_RELAY_BYTES [message] [] ∧ Faithful MAX_RELAY_BYTES [message] [1] := by
  obtain ⟨hrelay, -, hbridge⟩ := hops_faithful reachable_relay3 reachable_bridge4
  exact ⟨hrelay .initiator, hbridge⟩

end HalfForwarded

end SensorRemote
