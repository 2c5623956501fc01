import BoltStream.Lib.BigEndian
import BoltStream.Lib.Crc
import BoltStream.Lib.Decimal
import BoltStream.Lib.ExactReader
import BoltStream.Lib.FileTable
import BoltStream.Lib.FrameStream
import BoltStream.Lib.LockOrder
import BoltStream.Lib.Paging
import BoltStream.Lib.Runs
import BoltStream.Lib.SelfDelimiting
import BoltStream.Lib.SortedMap
import BoltStream.Lib.TextSearch
import BoltStream.Protocol.Wire
import BoltStream.Protocol.Messages
import BoltStream.Protocol.Fetch
import BoltStream.Protocol.Frames
import BoltStream.Protocol.Framing
import BoltStream.Compression
import BoltStream.Protocol.Payloads
import BoltStream.Protocol.TopicMessages
import BoltStream.Protocol.GroupMessages
import BoltStream.Protocol.RecordMessages
import BoltStream.Protocol.ExactCodecs
import BoltStream.Protocol.MetadataVersion
import BoltStream.Protocol.StandardCrc
import BoltStream.Storage.Format
import BoltStream.Storage.Names
import BoltStream.Storage.PartitionLog
import BoltStream.Storage.Recovery
import BoltStream.Storage.Retention
import BoltStream.Storage.Entry
import BoltStream.Storage.Layout
import BoltStream.Storage.Represents
import BoltStream.Storage.Appending
import BoltStream.Storage.Reading
import BoltStream.Storage.Retaining
import BoltStream.Storage.LogRuns
import BoltStream.Storage.CrashRecovery
import BoltStream.Storage.IndexInvariant
import BoltStream.Storage.EncodedReadBack
import BoltStream.Storage.PagedReading
import BoltStream.Storage.LimitChange
import BoltStream.Storage.Failures
import BoltStream.Storage.NewestIndexed
import BoltStream.Storage.Oversized
import BoltStream.Storage.ArbitraryFiles
import BoltStream.Storage.IntactRecovery
import BoltStream.Storage.OffsetReuse
import BoltStream.Storage.Listed
import BoltStream.Storage.RetentionEffect
import BoltStream.Storage.FailedRetention
import BoltStream.Storage.AppendAtomicity
import BoltStream.Storage.RollRules
import BoltStream.Storage.UnknownCodecs
import BoltStream.Storage.BurstErrors
import BoltStream.Storage.EntryCodecs
import BoltStream.Storage.RetentionBudget
import BoltStream.Storage.SegmentLayout
import BoltStream.Storage.OffsetStore
import BoltStream.Storage.OffsetLog
import BoltStream.Storage.OffsetCommits
import BoltStream.Storage.OffsetRemoval
import BoltStream.Storage.FailedRemoval
import BoltStream.Storage.OffsetRecovery
import BoltStream.Storage.OffsetReplay
import BoltStream.Broker.AppendBatch
import BoltStream.Broker.RetentionBound
import BoltStream.Broker.AppendQueue
import BoltStream.Broker.GroupCoordinator
import BoltStream.Broker.GroupFencing
import BoltStream.Broker.GroupMembers
import BoltStream.Broker.Assignments
import BoltStream.Broker.Expiry
import BoltStream.Broker.MemberIds
import BoltStream.Broker.Fetch
import BoltStream.Broker.FetchWalk
import BoltStream.Broker.Accepting
import BoltStream.Broker.Deliverable
import BoltStream.Broker.FetchSizes
import BoltStream.Broker.BatchValidation
import BoltStream.Broker.CompressedFetch
import BoltStream.Broker.LongPoll
import BoltStream.Broker.Waiters
import BoltStream.Broker.Session
import BoltStream.Broker.SessionAnswers
import BoltStream.Broker.SessionReads
import BoltStream.Broker.SessionEnds
import BoltStream.Broker.Connections
import BoltStream.Broker.Handlers
import BoltStream.Broker.Manifests
import BoltStream.Broker.TopicFiles
import BoltStream.Broker.TopicLoading
import BoltStream.Broker.TopicFailures
import BoltStream.Broker.TopicCrashes
import BoltStream.Broker.AuthGate
import BoltStream.Broker.SessionVersions
import BoltStream.Broker.HandledState
import BoltStream.Broker.FittingFrames
import BoltStream.Broker.Requests
import BoltStream.Broker.RequestLocks
import BoltStream.Broker.CommitExclusivity
import BoltStream.Broker.TopicEffects
import BoltStream.Broker.Recreation
import BoltStream.Broker.Runtime
import BoltStream.Broker.Quiescing
import BoltStream.Broker.AnsweredOffsets
import BoltStream.Broker.KeyedProduce
import BoltStream.Broker.Locks
import BoltStream.Broker.GroupTopic
import BoltStream.Broker.CommittedFetch
import BoltStream.Broker.GroupNames
import BoltStream.Broker.Operations
import BoltStream.Broker.ServedNames
import BoltStream.Broker.AnswerSizes
import BoltStream.Broker.ResponseSizes
import BoltStream.Broker.LoadedTopics
import BoltStream.Broker.RuntimeRuns
import BoltStream.Broker.SoundRuns
import BoltStream.Broker.Restarts
import BoltStream.Client.Consumer
import BoltStream.Client.GroupRun
import BoltStream.Client.Delivery
import BoltStream.Client.AsyncClient
import BoltStream.Client.Connection
import BoltStream.Client.MatchedReplies
import BoltStream.Replication.Simulation
import BoltStream.Replication.CopiedLogs
import BoltStream.Replication.Following
import BoltStream.Python.Client
import BoltStream.Python.Agreement
import BoltStream.Python.FetchReading
