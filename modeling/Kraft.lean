import Kraft.Acknowledgements
import Kraft.Backfill
import Kraft.BackfillFlag
import Kraft.BatchCombining
import Kraft.CommitBound
import Kraft.CommitSoundness
import Kraft.CommittedPrefix
import Kraft.Config
import Kraft.CrashRecovery
import Kraft.DiskLog
import Kraft.ElectionSafety
import Kraft.ElectionTally
import Kraft.ElectionTimers
import Kraft.EntryIds
import Kraft.InboundRegistry
import Kraft.KnownLeaders
import Kraft.LeaderAppendOnly
import Kraft.LeaderCompleteness
import Kraft.LogMatching
import Kraft.LogRepresentation
import Kraft.MessageIds
import Kraft.NodeTerms
import Kraft.NodeVotes
import Kraft.OutboundRegistry
import Kraft.PeerLink
import Kraft.PendingTasks
import Kraft.PersistenceRuns
import Kraft.Quorums
import Kraft.ReadPath
import Kraft.ReadYourWrites
import Kraft.Recovery
import Kraft.RefusedEntries
import Kraft.RepairExchange
import Kraft.ReplicationSteps
import Kraft.ReplicationTally
import Kraft.StaleLeader
import Kraft.StateMachineSafety
import Kraft.TermMismatch
import Kraft.TransportLimits
import Kraft.UpToDateVotes
import Kraft.VoteAnswers
import Kraft.WorkerRouting
import Kraft.WriteQueueRuns
import Kraft.WriteRoute
