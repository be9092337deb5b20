import Dysco.SerialNumber
import Dysco.OnesComplement
import Dysco.ByteOrder
import Dysco.BucketTable
import Dysco.TransitionSystem
import Dysco.Packet
import Dysco.IntrusiveChain
import Dysco.ControlBlock
import Dysco.TableLinks
import Dysco.Checksum
import Dysco.TcpOptions
import Dysco.SackEdges
import Dysco.Output
import Dysco.Input
import Dysco.Control
import Dysco.Translation
import Dysco.InputChecksum
import Dysco.LeftAnchor
import Dysco.OutputChecksum
import Dysco.Ports
import Dysco.Retransmission
import Dysco.WindowScale
import Dysco.LeaseFrames
import Dysco.LeaseMoves
import Dysco.LeasePhases
import Dysco.LeaseRuns
import Dysco.PendingTables
import Dysco.SynPayload
import Dysco.ChecksumUpdate
import Dysco.ReceiveWindow
import Dysco.RightAck
import Dysco.SackBatch
import Dysco.SeqCutoff
import Dysco.SynFailure
import Dysco.SynReemission
import Dysco.Transparency
import Dysco.Contention
import Dysco.DeltaSums
import Dysco.TagLookup
import Dysco.ControlMoves
import Dysco.EventRuns
import Dysco.Hooks
import Dysco.MappingDump
import Dysco.OptionBounds
import Dysco.Ownership
import Dysco.Progress
import Dysco.Connected
import Dysco.TwoPaths
import Dysco.Ledger
import Dysco.LedgerSteps
import Dysco.Teardown
import Dysco.SynVisit
import Dysco.Traversal
import Dysco.SessionPath
import Dysco.FirstServed
import Dysco.Namespaces
import Dysco.Policies
import Dysco.RecTimes
import Dysco.Wiring
import Dysco.Anchors
import Dysco.AnchorRuns
import Dysco.AnchorCutoffs
import Dysco.AnchorPhases
