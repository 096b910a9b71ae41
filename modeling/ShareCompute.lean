import ShareCompute.Library.Dictionary
import ShareCompute.Library.Runs
import ShareCompute.Library.OrderedDict
import ShareCompute.Library.Segment
import ShareCompute.Library.Replay
import ShareCompute.Library.Apportionment
import ShareCompute.Library.Tiling
import ShareCompute.Library.ByteMemory
import ShareCompute.Library.SharedPtr
import ShareCompute.Library.BigEndian
import ShareCompute.Library.ChunkedSocket
import ShareCompute.Library.LineSocket
import ShareCompute.Library.StageRing
import ShareCompute.Library.FindAll
import ShareCompute.Library.ChunkSearch
import ShareCompute.Library.Base64
import ShareCompute.Library.LineFiles
import ShareCompute.Library.Json
import ShareCompute.Library.JsonText
import ShareCompute.Library.Parties
import ShareCompute.Library.Ranks
import ShareCompute.Library.Redaction
import ShareCompute.Library.RedactionEncoding
import ShareCompute.Library.RedactionExchange
import ShareCompute.Library.StageChain
import ShareCompute.Core.Capability
import ShareCompute.Core.MembershipService
import ShareCompute.Core.MembershipSpec
import ShareCompute.Core.EpochLaw
import ShareCompute.Core.MembershipReplay
import ShareCompute.Core.StagePlanner
import ShareCompute.Core.PlanSoundness
import ShareCompute.Core.QuotaLaw
import ShareCompute.Core.LeaseEpoch
import ShareCompute.Core.RecordStep
import ShareCompute.Core.EvictionLaw
import ShareCompute.Core.LeaseGrant
import ShareCompute.Core.SilentNodes
import ShareCompute.Core.EpochReturn
import ShareCompute.Core.CrossPlatformPool
import ShareCompute.Core.PoolSeats
import ShareCompute.Core.PoolReplay
import ShareCompute.Core.PoolPlan
import ShareCompute.Core.RingWatchdog
import ShareCompute.Core.WatchdogLaws
import ShareCompute.App.RingHealthMonitor
import ShareCompute.App.HealthyRing
import ShareCompute.App.RingCoordinator
import ShareCompute.App.Reformation
import ShareCompute.App.ModelManager
import ShareCompute.App.AutoParallel
import ShareCompute.App.PipelineSplit
import ShareCompute.App.EventLogScrub
import ShareCompute.App.EventLogLine
import ShareCompute.App.EventLogRing
import ShareCompute.App.EventLogFile
import ShareCompute.App.WriteLoop
import ShareCompute.App.CacheLog
import ShareCompute.App.HandshakeStream
import ShareCompute.Native.BufferBudget
import ShareCompute.Native.WeightCache
import ShareCompute.Native.ParallelLoad
import ShareCompute.Native.ParallelLoadLaws
import ShareCompute.Native.ParallelLoadRuns
import ShareCompute.Cluster.Protocol
import ShareCompute.Cluster.Relay
import ShareCompute.Cluster.RelayLaws
import ShareCompute.Cluster.BuildStamp
import ShareCompute.Cluster.ValidateProof
import ShareCompute.Cluster.GraphEvidence
import ShareCompute.Cluster.LayerLog
import ShareCompute.Cluster.ProofEvidence
import ShareCompute.Cluster.Tunnels
import ShareCompute.Cluster.ChannelLimit
import ShareCompute.Cluster.Bridge
import ShareCompute.Cluster.TransferWatch
import ShareCompute.Cluster.TransferSpans
import ShareCompute.Mlx.GroupCache
import ShareCompute.Mlx.SocketThread
import ShareCompute.Mlx.PromiseBooks
import ShareCompute.Mlx.RingPromises
import ShareCompute.Simulation.PoolLib
import ShareCompute.Simulation.PortableHub
import ShareCompute.Simulation.HubRuns
import ShareCompute.Simulation.HubSuccess
import ShareCompute.Simulation.InferenceHub
import ShareCompute.Simulation.InferenceHubSuccess
import ShareCompute.Simulation.InferenceWire
import ShareCompute.Simulation.ActivationCodec
import ShareCompute.Simulation.ControlLine
import ShareCompute.App.PairingCode
import ShareCompute.Simulation.InferencePlan
import ShareCompute.Simulation.InferencePipeline
import ShareCompute.Simulation.PipelineBooks
import ShareCompute.Simulation.PipelineSafety
import ShareCompute.Simulation.ShardPlans
import ShareCompute.Simulation.MarkerSearch
import ShareCompute.Library.RingElection
import ShareCompute.App.Election
import ShareCompute.App.ElectionRounds
import ShareCompute.App.MLXManager
import ShareCompute.App.WorkerLog
import ShareCompute.Library.Replacing
import ShareCompute.App.WorkerScrub
import ShareCompute.Cluster.RelayBinding
import ShareCompute.Cluster.TunnelBytes
import ShareCompute.Cluster.TunnelLaws
import ShareCompute.Library.TrackedResources
import ShareCompute.App.WorkerSession
import ShareCompute.App.SessionThreads
import ShareCompute.App.SessionShutdown
import ShareCompute.App.SessionWindDown
import ShareCompute.App.WorkerService
import ShareCompute.Library.AsyncStream
import ShareCompute.App.ChatStream
import ShareCompute.App.ChatClient
import ShareCompute.App.ChatPump
import ShareCompute.App.ChatStreamLaws
import ShareCompute.App.ChatStreamEnds
