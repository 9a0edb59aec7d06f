import Mathlib.Data.Finset.Card
import Mathlib.Data.Nat.Notation

/-!
# Identifiers, log entries, messages and node state

The data of `xraft-core`: identifiers, log entries, voter records, the RPC messages,
the I/O actions the protocol code emits, and the in-memory state of a node. Terms,
offsets and node ids are 64-bit in the source; they are natural numbers here and no
modelled operation relies on their wrapping. A cluster id is its UUID read as a
number, the nil UUID being zero.

The source has several revisions of `NodeState` merged side by side. The record below
has the fields of `node_state.rs` that the modelled functions use, and those the
replication and election code reads in addition. `QuorumState` likewise carries the
cluster id that `raft_node.rs` saves; the other writers leave it at nil.
-/

namespace XRaft

abbrev Bytes := List UInt8
abbrev NodeId := ℕ
abbrev ClusterId := ℕ

/-- The nil UUID. -/
def ClusterId.nil : ClusterId := 0

/-- Node role in the protocol. -/
inductive Role where
  | unattached
  | follower
  | candidate
  | leader
  deriving DecidableEq, Repr

/-- The derived `Debug` text of a role, as error messages show it. -/
def Role.debug : Role → String
  | .unattached => "Unattached"
  | .follower => "Follower"
  | .candidate => "Candidate"
  | .leader => "Leader"

/-- The type of a log entry. -/
inductive EntryType where
  | command
  | leaderChangeMessage
  | votersRecord
  deriving DecidableEq, Repr

/-- A single entry in the replicated log. -/
structure LogEntry where
  offset : ℕ
  term : ℕ
  entryType : EntryType
  payload : Bytes
  deriving DecidableEq, Repr

/-- Information about a voter in the cluster. -/
structure VoterInfo where
  nodeId : NodeId
  endpoint : String
  deriving DecidableEq, Repr

/-- A record of the voter set, appended to the log on membership changes. -/
structure VotersRecord where
  version : ℕ
  voters : List VoterInfo
  deriving DecidableEq, Repr

/-- `bincode` on voter records: serialising may fail, deserialising undoes it. -/
structure VotersCodec where
  serialize : VotersRecord → Except String Bytes
  deserialize : Bytes → Except String VotersRecord
  deserialize_serialize : ∀ record payload,
    serialize record = .ok payload → deserialize payload = .ok record

/-- A codec that knows a single record. -/
def VotersCodec.only (known : VotersRecord) : VotersCodec where
  serialize record := if record = known then .ok [1] else .error "unsupported"
  deserialize payload := if payload = [1] then .ok known else .error "unsupported"
  deserialize_serialize := by
    intro record payload h
    split at h
    · rename_i hknown
      cases h
      rw [if_pos rfl, hknown]
    · cases h

/-- Opaque application command payload. -/
structure AppRecord where
  data : Bytes
  deriving DecidableEq, Repr

/-- Persisted voting state for crash recovery. -/
structure QuorumState where
  currentTerm : ℕ
  votedFor : Option NodeId
  leaderId : Option NodeId
  leaderEpoch : ℕ
  clusterId : ClusterId := ClusterId.nil
  deriving DecidableEq, Repr

/-- Identifies a snapshot by its last included offset and epoch. -/
structure SnapshotId where
  endOffset : ℕ
  epoch : ℕ
  deriving DecidableEq, Repr

/-- Metadata for a snapshot. -/
structure SnapshotMetadata where
  lastIncludedOffset : ℕ
  lastIncludedTerm : ℕ
  voters : List VoterInfo
  leaderEpoch : ℕ
  deriving DecidableEq, Repr

/-- A complete snapshot: consensus metadata and application payload. -/
structure Snapshot where
  metadata : SnapshotMetadata
  appSnapshot : Bytes
  deriving DecidableEq, Repr

/-- A candidate's request for a vote, or a probe for one. -/
structure VoteRequest where
  term : ℕ
  candidateId : NodeId
  lastLogOffset : ℕ
  lastLogTerm : ℕ
  isPreVote : Bool
  deriving DecidableEq, Repr

/-- The answer to a vote request. -/
structure VoteResponse where
  term : ℕ
  voteGranted : Bool
  isPreVote : Bool
  deriving DecidableEq, Repr

/-- A follower's request for the leader's entries from `fetchOffset` on. -/
structure FetchRequest where
  replicaId : NodeId
  fetchOffset : ℕ
  lastFetchedEpoch : ℕ
  maxBytes : ℕ
  deriving DecidableEq, Repr

/-- Where the leader saw the follower's log leave its own. -/
structure DivergingEpoch where
  epoch : ℕ
  endOffset : ℕ
  deriving DecidableEq, Repr

/-- The leader's answer to a fetch request. -/
structure FetchResponse where
  leaderId : NodeId
  leaderEpoch : ℕ
  highWatermark : ℕ
  logStartOffset : ℕ
  entries : List LogEntry
  divergingEpoch : Option DivergingEpoch
  snapshotId : Option SnapshotId
  deriving DecidableEq, Repr

/-- A follower's request for a piece of the leader's snapshot. -/
structure FetchSnapshotRequest where
  snapshotId : SnapshotId
  position : ℕ
  maxBytes : ℕ
  deriving DecidableEq, Repr

/-- One piece of a snapshot. -/
structure FetchSnapshotResponse where
  data : Bytes
  position : ℕ
  isLastChunk : Bool
  deriving DecidableEq, Repr

/-- Why a membership change was refused. -/
inductive MembershipError where
  | notLeader (leaderId : Option NodeId)
  | changeInProgress
  | nodeAlreadyVoter
  | nodeNotFound
  | nodeNotCaughtUp
  deriving DecidableEq, Repr

/-- Discriminated union of the RPC messages. -/
inductive RpcPayload where
  | voteRequest (request : VoteRequest)
  | voteResponse (response : VoteResponse)
  | fetchRequest (request : FetchRequest)
  | fetchResponse (response : FetchResponse)
  | fetchSnapshotRequest (request : FetchSnapshotRequest)
  | fetchSnapshotResponse (response : FetchSnapshotResponse)
  | addVoterRequest (voter : VoterInfo)
  | removeVoterRequest (nodeId : NodeId)
  | updateVoterRequest (voter : VoterInfo)
  | membershipChangeResponse (success : Bool) (error : Option MembershipError)
  deriving DecidableEq, Repr

/-- Envelope wrapping every RPC message with cluster and leader identity. -/
structure RpcEnvelope where
  clusterId : ClusterId
  leaderEpoch : ℕ
  source : NodeId
  payload : RpcPayload
  deriving DecidableEq, Repr

/-- Actions produced by the protocol code for the I/O stage to execute. -/
inductive IoAction where
  | persistQuorumState (state : QuorumState)
  | appendLog (entries : List LogEntry)
  | truncateSuffix (offset : ℕ)
  | truncatePrefix (offset : ℕ)
  | sendRpc (target : NodeId) (envelope : RpcEnvelope)
  | saveSnapshot (snapshot : Snapshot)
  deriving DecidableEq, Repr

/-- Whether the action is a send; all others go to storage. -/
def IoAction.isSendRpc : IoAction → Bool
  | .sendRpc _ _ => true
  | _ => false

/-- Actions collected during one iteration of the event loop. -/
structure IoActionBatch where
  actions : List IoAction := []
  deriving DecidableEq, Repr

/-- Add an action to the batch. -/
def IoActionBatch.push (batch : IoActionBatch) (action : IoAction) : IoActionBatch :=
  ⟨batch.actions ++ [action]⟩

/-- The error variants the modelled functions return, with their messages. -/
inductive XraftError where
  | storageError (reason : String)
  | transportError (reason : String)
  | corruption (reason : String)
  | invalidConfig (reason : String)
  | recoveryRequired
  | alreadyBootstrapped (reason : String)
  | invalidBootstrapConfig (reason : String)
  | invalidElectionState (reason : String)
  | invalidClusterId
  | invalidResponse (reason : String)
  | stateMachineApplyError (reason : String)
  deriving DecidableEq, Repr

/-- The configuration fields the modelled functions read. -/
structure RaftConfig where
  nodeId : NodeId
  electionTimeoutMinMs : ℕ := 150
  electionTimeoutMaxMs : ℕ := 300
  fetchIntervalMs : ℕ := 50
  maxFetchBytes : ℕ := 1048576
  deriving DecidableEq, Repr

/-- What one call reads from the injected clock. -/
structure Clock where
  now : ℕ
  randomElectionTimeout : ℕ
  deriving DecidableEq, Repr

/-- Tracks a pending (uncommitted) membership change. -/
structure PendingMembershipChange where
  offset : ℕ
  voters : List VoterInfo
  deriving DecidableEq, Repr

/-- In-memory protocol state of a node. -/
structure NodeState where
  nodeId : NodeId
  clusterId : ClusterId
  currentTerm : ℕ
  votedFor : Option NodeId
  role : Role
  leaderId : Option NodeId
  logStartOffset : ℕ
  logEndOffset : ℕ
  highWatermark : ℕ
  voterSet : List VoterInfo
  pendingMembershipChange : Option PendingMembershipChange
  electionDeadline : ℕ
  votesReceived : Finset NodeId
  preVotesReceived : Finset NodeId
  log : List LogEntry
  lastLogTerm : ℕ
  leaderEpochCheckpoint : ℕ → Option ℕ
  fetchDeadline : ℕ

/-- Initial state of a fresh node. -/
def NodeState.newUnattached (nodeId : NodeId) (now : ℕ) : NodeState where
  nodeId := nodeId
  clusterId := ClusterId.nil
  currentTerm := 0
  votedFor := none
  role := .unattached
  leaderId := none
  logStartOffset := 0
  logEndOffset := 0
  highWatermark := 0
  voterSet := []
  pendingMembershipChange := none
  electionDeadline := now
  votesReceived := ∅
  preVotesReceived := ∅
  log := []
  lastLogTerm := 0
  leaderEpochCheckpoint := fun _ => none
  fetchDeadline := now

end XRaft
