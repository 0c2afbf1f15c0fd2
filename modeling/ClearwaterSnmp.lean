import ClearwaterSnmp.Runs
import ClearwaterSnmp.Locking
import ClearwaterSnmp.ConcurrentCalls
import ClearwaterSnmp.TimerHeap
import ClearwaterSnmp.AlarmTableDefs
import ClearwaterSnmp.AlarmActiveTable
import ClearwaterSnmp.ActiveRows
import ClearwaterSnmp.AlarmIdentifier
import ClearwaterSnmp.AlarmScheduler
import ClearwaterSnmp.AlarmAgent
import ClearwaterSnmp.SingleAlarm
import ClearwaterSnmp.SchedulerAlarms
import ClearwaterSnmp.SchedulerOperations
import ClearwaterSnmp.HeapSender
import ClearwaterSnmp.AgentSimulation
import ClearwaterSnmp.AlarmInvariants
import ClearwaterSnmp.LastRequest
import ClearwaterSnmp.SyncAlarms
import ClearwaterSnmp.Deadlines
import ClearwaterSnmp.FlickerDamping
import ClearwaterSnmp.Resends
import ClearwaterSnmp.FailedDeliveries
import ClearwaterSnmp.ActiveTableMirror
import ClearwaterSnmp.Independence
import ClearwaterSnmp.Delivery
import ClearwaterSnmp.WakeUp
import ClearwaterSnmp.EventualSending
import ClearwaterSnmp.SchedulerLocking
import ClearwaterSnmp.Multipart
import ClearwaterSnmp.AlarmRequests
import ClearwaterSnmp.ListenerLifecycle
import ClearwaterSnmp.ListenerResources
import ClearwaterSnmp.ListenerShutdown
import ClearwaterSnmp.AgentProcess
import ClearwaterSnmp.AgentShutdown
import ClearwaterSnmp.Reissue
import ClearwaterSnmp.RowOwnership
import ClearwaterSnmp.IdentifierExactness
import ClearwaterSnmp.DefinitionLoading
import ClearwaterSnmp.Oid
import ClearwaterSnmp.AlarmTables
import ClearwaterSnmp.TablePointers
import ClearwaterSnmp.OidTree
import ClearwaterSnmp.OidTreeLocking
import ClearwaterSnmp.StatHandlers
import ClearwaterSnmp.NodeData
import ClearwaterSnmp.StatIsolation
import ClearwaterSnmp.StatAtomicity
import ClearwaterSnmp.AstaireDecoding
import ClearwaterSnmp.AstaireConnections
import ClearwaterSnmp.NodeListeners
import ClearwaterSnmp.ThreadCreation
import ClearwaterSnmp.SubtreeOperations
import ClearwaterSnmp.OrderedWalk
import ClearwaterSnmp.GetNextWalk
import ClearwaterSnmp.OidText
import ClearwaterSnmp.StatValues
import ClearwaterSnmp.IpCountPairs
import ClearwaterSnmp.StatDispatch
import ClearwaterSnmp.PublishedTable
import ClearwaterSnmp.StatsListener
import ClearwaterSnmp.StatsPublication
import ClearwaterSnmp.StatsListenerEnd
import ClearwaterSnmp.FailedRowCreation
import ClearwaterSnmp.BucketCounts
import ClearwaterSnmp.Calendar
import ClearwaterSnmp.AlarmTimestamps
import ClearwaterSnmp.DueTimers
import ClearwaterSnmp.RowCounters
import ClearwaterSnmp.RowIndexes
import ClearwaterSnmp.DecoderSafety
import ClearwaterSnmp.Traced
import ClearwaterSnmp.SendableTimers
