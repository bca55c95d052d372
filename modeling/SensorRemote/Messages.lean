import SensorRemote.Manifest
import SensorRemote.Permissions

/-!
# Session modes and messages

What a client asks for and what the two ends of an accepted session say to each other
(`sensor-client`). The modes decide which messages an end takes; the messages carry what the modules
on files, video and desktops define.
-/

namespace SensorRemote

def MAX_CHAT_BYTES : ℕ := 8192
def DEFAULT_RECEIVE_LIMIT : ℕ := 1024 * 1024 * 1024

/-- `Mode`, the kind of session asked for. -/
inductive SessionMode where
  | chat
  | fileTransfer
  | screenView
  | remoteControl
  | screenViewClipboard
  | remoteControlClipboard
  deriving DecidableEq, Repr

namespace SessionMode

/-- `Mode::permissions`. -/
def permissions : SessionMode → Permissions
  | chat => .of [.chat]
  | fileTransfer => .of [.fileManager]
  | screenView => .of [.viewDesktop, .remotePointer]
  | remoteControl => .of [.viewDesktop, .remotePointer, .input]
  | screenViewClipboard => .of [.viewDesktop, .remotePointer, .clipboardText]
  | remoteControlClipboard => .of [.viewDesktop, .remotePointer, .input, .clipboardText]

/-- `Mode::is_desktop`. -/
def isDesktop : SessionMode → Bool
  | screenView | remoteControl | screenViewClipboard | remoteControlClipboard => true
  | chat | fileTransfer => false

end SessionMode

/-- `Message`. -/
inductive ClientMessage (δ : Type) where
  | request (mode : SessionMode)
  | accepted (permissions : Permissions)
  | rejected
  | chat (text : String)
  | fileOffer (manifest : Manifest δ)
  | resume (id : TransferId)
  | ready (id : TransferId) (offset : ℕ) (prefixHash : δ) (manifest : Manifest δ)
  | chunk (offset : ℕ) (bytes : List UInt8) (checksum : δ)
  | progress (offset : ℕ)
  | commit
  | complete (manifest : Manifest δ)
  | pause
  | paused (id : TransferId)
  | cancel
  | cancelled
  | close
  | desktop (message : DesktopMessage)
  deriving DecidableEq

end SensorRemote
