import SensorRemote.Agreement
import SensorRemote.RecordStream
import SensorRemote.DisplaySelection
import SensorRemote.ServedKey
import SensorRemote.HeartbeatRace
import SensorRemote.ProvisionedRelay
import SensorRemote.SessionConfinement
import SensorRemote.SessionAudit
import SensorRemote.ConsentCycle
import SensorRemote.Framing
import SensorRemote.VideoFragments
import SensorRemote.AuditHistory
import SensorRemote.SignedBytes
import SensorRemote.InputTargets
import SensorRemote.Bridge
import SensorRemote.CleanClose
import SensorRemote.Authority
import SensorRemote.Reassembly
import SensorRemote.FlightWindow
import SensorRemote.AdaptiveBounds
import SensorRemote.AdaptiveHysteresis
import SensorRemote.Pacing
import SensorRemote.HeldInput
import SensorRemote.MessageLimits
import SensorRemote.Publication
import SensorRemote.FolderSafety
import SensorRemote.KnownPeers
import SensorRemote.Registration
import SensorRemote.FileNames
import SensorRemote.TextInput
import SensorRemote.Clipboard
import SensorRemote.ColourRoundTrip
import SensorRemote.AuditBuffering
import SensorRemote.ServerUrl
import SensorRemote.Updates
import SensorRemote.Cancellation
import SensorRemote.Staging
import SensorRemote.IdentityBinding
import SensorRemote.RelayAdmission
import SensorRemote.UnattendedAuthority
import SensorRemote.FileTransfer
import SensorRemote.CodecCredits
import SensorRemote.CodecOutput
