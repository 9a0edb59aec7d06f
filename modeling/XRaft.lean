import XRaft.Core.ElectionSteps
import XRaft.Lib.Consecutive
import XRaft.Core.Election
import XRaft.Core.ElectionSafety
import XRaft.Lib.Lane
import XRaft.Core.IoStage
import XRaft.Core.DeferredCompletion
import XRaft.Core.Replication
import XRaft.Core.FollowerView
import XRaft.Core.FollowerInvariant
import XRaft.Core.Delivery
import XRaft.Core.AsyncFetch
import XRaft.Core.AsyncMatching
import XRaft.Core.AsyncCommit
import XRaft.Core.Acknowledged
import XRaft.Lib.Files
import XRaft.Lib.Frames
import XRaft.Storage.Segment
import XRaft.Storage.SegmentFrames
import XRaft.Storage.SegmentLog
import XRaft.Storage.Layout
import XRaft.Storage.LaidOut
import XRaft.Storage.LogSteps
import XRaft.Storage.Codec
import XRaft.Storage.Refinement
import XRaft.Storage.PrefixCrash
import XRaft.Storage.SuffixCrash
import XRaft.Core.NodeRun
import XRaft.Core.Recovery
import XRaft.Core.VoteRule
import XRaft.Core.LogBounds
import XRaft.Core.VoterElection
import XRaft.Core.Life
import XRaft.Core.LeaderLog
import XRaft.Core.Membership
import XRaft.Core.MembershipLog
import XRaft.Core.ClientCompletion
import XRaft.Core.DurableMirror
import XRaft.Lib.Elections
import XRaft.Core.CheckQuorumSafety
import XRaft.Core.ClusterIdentity
import XRaft.Core.VoteAgreement
import XRaft.Lib.Runs
import XRaft.Transport.Simulator
import XRaft.Transport.Reordering
import XRaft.Core.SnapshotCoordinator
import XRaft.Lib.Sparse
import XRaft.Storage.SnapshotStore
import XRaft.Storage.Bounds
import XRaft.Storage.Corruption
import XRaft.Storage.FailedAppend
import XRaft.Lib.LengthPrefixed
import XRaft.Transport.RpcCodec
import XRaft.Core.RejectedResponse
import XRaft.Core.PreVote
import XRaft.Lib.AtomicReplace
import XRaft.Storage.QuorumStateFile
import XRaft.Storage.LeaderEpochCheckpoint
import XRaft.Storage.StorageEngine
import XRaft.Core.EpochMap
import XRaft.Storage.TornTail
import XRaft.Storage.SnapshotTransfer
import XRaft.Lib.BinarySearch
import XRaft.Lib.Records
import XRaft.Storage.SparseIndex
import XRaft.Storage.LengthField
import XRaft.Core.CompletionFates
import XRaft.Lib.Checked
import XRaft.Storage.MemoryLogStore
import XRaft.Core.IoGroups
import XRaft.Lib.Assertions
import XRaft.Lib.Tally
import XRaft.Simulation.SimulatedCluster
import XRaft.Simulation.LogMatchingOracle
import XRaft.Simulation.LeaderCompletenessOracle
import XRaft.Transport.Faults
import XRaft.Simulation.TestStateMachine
import XRaft.Lib.Monitor
import XRaft.Simulation.AppendOnlyOracle
import XRaft.Simulation.StateMachineOracle
import XRaft.Core.FollowerLoop
import XRaft.Simulation.FollowerMachine
import XRaft.Core.EventLoopRun
import XRaft.Core.CatchUp
import XRaft.Core.ElectionProgress
import XRaft.Storage.StoresAgree
import XRaft.Storage.EngineLifetimes
import XRaft.Core.SnapshotWriter
import XRaft.Simulation.CompletionTracker
import XRaft.Storage.SnapshotCatalogue
import XRaft.Storage.NodeOnDisk
