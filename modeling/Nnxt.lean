import Nnxt.Foundation.Transition
import Nnxt.Foundation.CursorLog
import Nnxt.SentRuns
import Nnxt.OverTrading
import Nnxt.SharedGateway
import Nnxt.HandshakeRuns
import Nnxt.TerminalOrders
import Nnxt.FillDeliveries
import Nnxt.ExposureLaw
import Nnxt.RegistryRuns
import Nnxt.FrameRuns
import Nnxt.HealthRuns
import Nnxt.OrderView
import Nnxt.IntentBatches
import Nnxt.TargetReached
import Nnxt.OwnershipRuns
import Nnxt.DeliveryRuns
import Nnxt.RingLog
import Nnxt.RingReferences
import Nnxt.LedgerSum
import Nnxt.Redelivery
import Nnxt.TimerRuns
import Nnxt.CancelledTimers
import Nnxt.DueTimers
import Nnxt.ServedRequests
import Nnxt.EffectivePosition
import Nnxt.TradeDirection
import Nnxt.OpenRunAverage
import Nnxt.SoundLayout
import Nnxt.SharedView
import Nnxt.ExclusiveSlots
import Nnxt.QueueAddress
import Nnxt.InstrumentIds
import Nnxt.ActionQueues
import Nnxt.ReactorDrain
import Nnxt.ReactorTimers
import Nnxt.CancelAll
import Nnxt.TradeConnections
import Nnxt.FailedOpens
import Nnxt.SegmentRefinement
import Nnxt.ElementTypes
import Nnxt.TrackedOrders
import Nnxt.LoopOverRings
import Nnxt.LostOrders
import Nnxt.InstrumentIsolation
import Nnxt.GatewayHeartbeats
import Nnxt.TimerLatency
import Nnxt.MarketFeed
import Nnxt.SourcePriority
import Nnxt.ContextHandles
import Nnxt.ControlCommands
import Nnxt.GatewaySessions
