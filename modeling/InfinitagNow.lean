import InfinitagNow.Bytes
import InfinitagNow.InFlight
import InfinitagNow.Runs
import InfinitagNow.IrTelegram
import InfinitagNow.IrIdNegotiator
import InfinitagNow.NegotiatorTrace
import InfinitagNow.StationBus
import InfinitagNow.BusConflict
import InfinitagNow.BusHolder
import InfinitagNow.BusDrain
import InfinitagNow.BusConverged
import InfinitagNow.Chunks
import InfinitagNow.RingBuffer
import InfinitagNow.Protocol
import InfinitagNow.UpdateSession
import InfinitagNow.Crc
import InfinitagNow.CrcPolynomial
import InfinitagNow.CrcOrder
import InfinitagNow.ImageHash
import InfinitagNow.PacketFormat
import InfinitagNow.PacketWords
import InfinitagNow.PacketErrors
import InfinitagNow.Configs
import InfinitagNow.ShotToHit
import InfinitagNow.EspNowService
import InfinitagNow.PushFrames
import InfinitagNow.PushReceiver
import InfinitagNow.PushCommit
import InfinitagNow.ImageErrors
import InfinitagNow.PushWindow
import InfinitagNow.PushSender
import InfinitagNow.PushSeparation
import InfinitagNow.PushForeign
import InfinitagNow.PushLeftover
import InfinitagNow.PushImage
import InfinitagNow.PushNet
import InfinitagNow.PushSessions
import InfinitagNow.PushMoves
import InfinitagNow.PushTiling
import InfinitagNow.PushAnswers
import InfinitagNow.PushJoint
import InfinitagNow.PushHealing
import InfinitagNow.PushProgress
import InfinitagNow.PushTraffic
import InfinitagNow.PushCompletion
import InfinitagNow.PushStack
import InfinitagNow.PushBars
import InfinitagNow.PushVerdict
import InfinitagNow.FlashSessions
import InfinitagNow.PushCalls
import InfinitagNow.NegotiatorTiming
import InfinitagNow.Heartbeats
import InfinitagNow.BeaconShield
import InfinitagNow.BusSettling
import InfinitagNow.ShotStream
import InfinitagNow.Mailbox
import InfinitagNow.ShotMailbox
import InfinitagNow.NegotiatorInvariant
import InfinitagNow.NegotiatorClock
import InfinitagNow.EvidenceExpiry
import InfinitagNow.PushTimeouts
import InfinitagNow.PushEndAnswers
import InfinitagNow.PushStale
import InfinitagNow.PushRestart
import InfinitagNow.BoundedFifo
import InfinitagNow.RingFifo
import InfinitagNow.SlotTable
import InfinitagNow.PeerCache
import InfinitagNow.CandidateSearch
import InfinitagNow.LastHeldId
import InfinitagNow.MisreadBits
import InfinitagNow.ControlPayloads
import InfinitagNow.WebUpdateService
import InfinitagNow.StoreSessions
import InfinitagNow.UploadTruth
import InfinitagNow.PeerEviction
