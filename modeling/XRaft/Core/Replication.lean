import XRaft.Core.Types
import XRaft.Core.DeferredCompletion

/-!
# The follower side of `replication.rs`

`ReplicationManager` builds fetch requests and handles the leader's responses: it adopts
the leader's term, delegates snapshots, truncates a diverging log, appends entries,
advances the high watermark and notifies the application. The handler mutates several
objects in place and may leave early, so it returns its result together with the
follower afterwards, also when the result is an error.

The state machine, the listener and the parked clients see a sequence of calls, which is
kept. What `StateMachine::apply` answers may depend on all calls before it. The log
operations of `NodeState` are not in the tree; they are the ones the tests fix.
-/

namespace XRaft

/-- The application record of a command entry. -/
def LogEntry.asAppRecord (e : LogEntry) : AppRecord := ⟨e.payload⟩

/-- The index of a message's kind, as error messages show it. -/
def RpcPayload.discriminant : RpcPayload → ℕ
  | .voteRequest _ => 0
  | .voteResponse _ => 1
  | .fetchRequest _ => 2
  | .fetchResponse _ => 3
  | .fetchSnapshotRequest _ => 4
  | .fetchSnapshotResponse _ => 5
  | .addVoterRequest _ => 6
  | .removeVoterRequest _ => 7
  | .updateVoterRequest _ => 8
  | .membershipChangeResponse _ _ => 9

namespace NodeState

/-- The term of the last entry of the in-memory log, zero for an empty log. -/
def lastEntryTerm (state : NodeState) : ℕ := (state.log.getLast?.map LogEntry.term).getD 0

/-- Append entries that follow the end of the log. -/
def appendEntries (state : NodeState) (entries : List LogEntry) : NodeState :=
  { state with log := state.log ++ entries, logEndOffset := state.logEndOffset + entries.length }

/-- Remove the entries at or above an offset within the log. -/
def truncateSuffix (state : NodeState) (fromOffset : ℕ) : NodeState :=
  { state with
    log := state.log.filter (fun e => e.offset < fromOffset)
    logEndOffset := fromOffset }

/-- The entries with offsets from `low` up to, not including, `high`. -/
def entriesInRange (state : NodeState) (low high : ℕ) : List LogEntry :=
  state.log.filter fun e => low ≤ e.offset ∧ e.offset < high

end NodeState

/-- The calls the application and its clients see. -/
inductive Callback (σ : Type*) where
  | apply (offset : ℕ) (record : AppRecord)
  | beginShutdown
  | handleCommit (batch : List (ℕ × AppRecord))
  | complete (offset : ℕ) (sender : σ)
  | fail (offset : ℕ) (sender : σ)

/-- Coordinates snapshot transfers; its own state is of type `κ`. -/
structure SnapshotCoordinator (κ : Type*) where
  beginSnapshotTransfer : NodeId → SnapshotId → NodeState → κ → IoActionBatch × κ
  isTransferInProgress : κ → Bool

/-- The default coordinator: its state tells whether a transfer is in progress. -/
def SnapshotCoordinator.default (maxFetchBytes : ℕ) : SnapshotCoordinator Bool where
  beginSnapshotTransfer leaderId snapshotId state _ :=
    (⟨[.sendRpc leaderId ⟨state.clusterId, state.currentTerm, state.nodeId,
      .fetchSnapshotRequest ⟨snapshotId, 0, maxFetchBytes⟩⟩]⟩, true)
  isTransferInProgress inProgress := inProgress

/-- What the handler calls: the codec of voter records, the state machine's answers, the
coordinator. -/
structure Collaborators (σ κ : Type*) where
  codec : VotersCodec
  applyError : List (Callback σ) → ℕ → AppRecord → Option String
  snapshots : SnapshotCoordinator κ

/-- Everything the handler mutates, and the calls made so far. -/
structure Follower (σ κ : Type*) where
  state : NodeState
  queue : DeferredCompletionQueue σ
  coordinator : κ
  calls : List (Callback σ)

/-- Result of processing a fetch response. -/
structure FetchResponseResult where
  ioBatch : IoActionBatch
  snapshotTransferInitiated : Bool

/-- Handles fetch requests and responses on the follower side. -/
structure ReplicationManager where
  maxFetchBytes : ℕ
  fetchInterval : ℕ

namespace Follower

variable {σ κ : Type*}

/-- Record calls. -/
def call (f : Follower σ κ) (calls : List (Callback σ)) : Follower σ κ :=
  { f with calls := f.calls ++ calls }

/-- Change the node state. -/
def update (f : Follower σ κ) (state : NodeState) : Follower σ κ := { f with state := state }

end Follower

namespace ReplicationManager

variable {σ κ : Type*}

/-- The fetch request for the current leader, if this node follows one. -/
def buildFetchRequest (mgr : ReplicationManager) (state : NodeState) :
    Option (NodeId × RpcEnvelope) :=
  match state.leaderId with
  | none => none
  | some leaderId =>
    if state.role ≠ .follower then none
    else some (leaderId, ⟨state.clusterId, state.currentTerm, state.nodeId,
      .fetchRequest ⟨state.nodeId, state.logEndOffset, state.lastEntryTerm, mgr.maxFetchBytes⟩⟩)

/-- The action that sends a fetch request, if one can be built. -/
def fetchActions (mgr : ReplicationManager) (state : NodeState) : List IoAction :=
  match mgr.buildFetchRequest state with
  | some (leaderId, envelope) => [.sendRpc leaderId envelope]
  | none => []

/-- Advance the fetch deadline and send a fetch request. -/
def onFetchTick (mgr : ReplicationManager) (state : NodeState) (now : ℕ) :
    IoActionBatch × NodeState :=
  let state := { state with fetchDeadline := now + mgr.fetchInterval }
  (⟨mgr.fetchActions state⟩, state)

/-- Run the periodic fetch tick if its deadline has passed. -/
def pollFetch (mgr : ReplicationManager) (state : NodeState) (now : ℕ) :
    Option IoActionBatch × NodeState :=
  if now ≥ state.fetchDeadline ∧ state.role = .follower then
    let (batch, state) := mgr.onFetchTick state now
    (some batch, state)
  else (none, state)

/-- The quorum state to persist for the current term, vote and leader. -/
def quorumState (state : NodeState) : QuorumState where
  currentTerm := state.currentTerm
  votedFor := state.votedFor
  leaderId := state.leaderId
  leaderEpoch := state.currentTerm

/-- The refusal of a response that names both a snapshot and a divergence. -/
def bothFields : XraftError :=
  .invalidResponse "response contains both snapshot_id and diverging_epoch"

/-- Adopt a higher term and its leader. -/
def adoptTerm (state : NodeState) (response : FetchResponse) : NodeState :=
  { state with
    currentTerm := response.leaderEpoch
    votedFor := none
    leaderId := some response.leaderId
    role := .follower
    votesReceived := ∅
    preVotesReceived := ∅ }

/-- Validate a response and update term and leader; tells the quorum state to persist, if any. -/
def validateAndUpdateTerm (state : NodeState) (response : FetchResponse) :
    Except XraftError (Option QuorumState) × NodeState :=
  let epoch := response.leaderEpoch
  let term := state.currentTerm
  if epoch < term then
    (.error (.invalidResponse s!"stale leader epoch {epoch} < current term {term}"), state)
  else if epoch > term then
    let state := adoptTerm state response
    (.ok (some (quorumState state)), state)
  else if state.role ≠ .follower then
    let role := state.role.debug
    (.error (.invalidResponse
      s!"node is {role}, not Follower — ignoring stale fetch response in same term {term}"), state)
  else match state.leaderId with
    | some knownLeader =>
      let leaderId := response.leaderId
      if leaderId ≠ knownLeader then
        (.error (.invalidResponse
          s!"response from NodeId({leaderId}) but known leader is NodeId({knownLeader})"), state)
      else if response.snapshotId.isSome ∧ response.divergingEpoch.isSome
        then (.error bothFields, state)
      else (.ok none, state)
    | none =>
      let state := { state with leaderId := some response.leaderId }
      (.ok (some (quorumState state)), state)

/-- Reset election and fetch deadlines on receipt of a valid response. -/
def resetTimers (mgr : ReplicationManager) (state : NodeState) (clock : Clock) : NodeState :=
  { state with
    electionDeadline := clock.now + clock.randomElectionTimeout
    fetchDeadline := clock.now + mgr.fetchInterval }

/-- The action that persists a deferred quorum state. -/
def persistActions : Option QuorumState → List IoAction
  | some qs => [.persistQuorumState qs]
  | none => []

/-- The snapshot branch: start a transfer unless one is in progress. -/
def handleSnapshot (env : Collaborators σ κ) (response : FetchResponse) (snapshotId : SnapshotId)
    (deferred : Option QuorumState) (f : Follower σ κ) :
    Except XraftError FetchResponseResult × Follower σ κ :=
  if env.snapshots.isTransferInProgress f.coordinator then
    (.ok ⟨⟨persistActions deferred⟩, false⟩, f)
  else
    let leaderId := f.state.leaderId.getD response.leaderId
    let (batch, coordinator) :=
      env.snapshots.beginSnapshotTransfer leaderId snapshotId f.state f.coordinator
    (.ok ⟨⟨batch.actions ++ persistActions deferred⟩, true⟩, { f with coordinator := coordinator })

/-- Forget what lay beyond the truncation point. -/
def truncateState (state : NodeState) (truncationPoint : ℕ) : NodeState :=
  let state := state.truncateSuffix truncationPoint
  { state with
    pendingMembershipChange :=
      state.pendingMembershipChange.filter fun pending => pending.offset < truncationPoint
    leaderEpochCheckpoint := fun term =>
      (state.leaderEpochCheckpoint term).filter fun offset => offset < truncationPoint }

/-- The divergence branch: truncate the log and fetch again. -/
def handleDivergence (mgr : ReplicationManager) (diverging : DivergingEpoch)
    (deferred : Option QuorumState) (f : Follower σ κ) :
    Except XraftError FetchResponseResult × Follower σ κ :=
  let truncationPoint := min diverging.endOffset f.state.logEndOffset
  let highWatermark := f.state.highWatermark
  if truncationPoint < highWatermark then
    (.error
      (.invalidResponse (s!"divergence truncation point {truncationPoint} is below committed " ++
      s!"high_watermark {highWatermark} — cannot un-commit entries (safety violation)")), f)
  else
    let state := truncateState f.state truncationPoint
    let (dropped, queue) := f.queue.failAtOrAbove truncationPoint
    let f := { f with state := state, queue := queue }
    (.ok ⟨⟨.truncateSuffix truncationPoint :: mgr.fetchActions state ++ persistActions deferred⟩,
      false⟩, f.call (dropped.map fun x => .fail x.1 x.2))

/-- The first gap in the offsets of consecutive entries. -/
def firstGap : List LogEntry → Option (ℕ × ℕ)
  | first :: second :: rest =>
    if second.offset ≠ first.offset + 1 then some (first.offset, second.offset)
    else firstGap (second :: rest)
  | _ => none

/-- The refusal of entries that do not follow the end of the log without a gap. -/
def checkEntries (state : NodeState) : List LogEntry → Option XraftError
  | [] => none
  | first :: rest =>
    let offset := first.offset
    let endOffset := state.logEndOffset
    if offset ≠ endOffset then
      some (.invalidResponse
        s!"first entry offset {offset} does not match log_end_offset {endOffset}")
    else match firstGap (first :: rest) with
      | some (before, after) =>
        some (.invalidResponse s!"non-contiguous entries: offset {before} followed by {after}")
      | none => none

/-- Adopt the voters of a committed record. -/
def adoptVoters (state : NodeState) (record : VotersRecord) (offset : ℕ) : NodeState :=
  { state with
    voterSet := record.voters
    pendingMembershipChange :=
      state.pendingMembershipChange.filter fun pending => ¬ pending.offset ≤ offset }

/-- Phase one of the commit notification: apply commands, process control records. -/
def applyCommitted (env : Collaborators σ κ) :
    List LogEntry → Follower σ κ → Except XraftError Unit × Follower σ κ
  | [], f => (.ok (), f)
  | e :: rest, f =>
    let offset := e.offset
    match e.entryType with
    | .command =>
      let record := e.asAppRecord
      match env.applyError f.calls offset record with
      | some reason =>
        (.error (.stateMachineApplyError
          s!"apply failed at offset {offset}: {reason} — node halting (crash-stop)"),
          f.call [.apply offset record, .beginShutdown])
      | none => applyCommitted env rest (f.call [.apply offset record])
    | .votersRecord =>
      match env.codec.deserialize e.payload with
      | .error reason =>
        (.error (.invalidResponse
          s!"failed to deserialize VotersRecord at offset {offset}: {reason}"), f)
      | .ok record => applyCommitted env rest (f.update (adoptVoters f.state record offset))
    | .leaderChangeMessage =>
      applyCommitted env rest (f.update { f.state with
        leaderEpochCheckpoint :=
          Function.update f.state.leaderEpochCheckpoint e.term (some offset) })

/-- The commands among the entries, as the listener and the state machine see them. -/
def appRecords (entries : List LogEntry) : List (ℕ × AppRecord) :=
  (entries.filter fun e => e.entryType = .command).map fun e => (e.offset, e.asAppRecord)

/-- The three-phase commit notification for the entries from the old to the new high watermark. -/
def executeCommitNotification (env : Collaborators σ κ) (oldHw newHw : ℕ) (f : Follower σ κ) :
    Except XraftError Unit × Follower σ κ :=
  let committed := f.state.entriesInRange oldHw newHw
  match applyCommitted env committed f with
  | (.error e, f) => (.error e, f)
  | (.ok _, f) =>
    let f := f.call [.handleCommit (appRecords committed)]
    let (fired, queue) := f.queue.complete newHw
    let f := { f with queue := queue }
    (.ok (), f.call (fired.map fun x => .complete x.1 x.2))

/-- Advance the high watermark to the leader's, as far as the log reaches, and notify. -/
def advanceHighWatermark (env : Collaborators σ κ) (leaderHw : ℕ) (f : Follower σ κ) :
    Except XraftError Unit × Follower σ κ :=
  let newHw := min leaderHw f.state.logEndOffset
  let oldHw := f.state.highWatermark
  if newHw > oldHw then
    executeCommitNotification env oldHw newHw (f.update { f.state with highWatermark := newHw })
  else (.ok (), f)

/-- The normal branch: append entries and advance the high watermark. -/
def handleEntries (env : Collaborators σ κ) (response : FetchResponse)
    (deferred : Option QuorumState) (f : Follower σ κ) :
    Except XraftError FetchResponseResult × Follower σ κ :=
  match checkEntries f.state response.entries with
  | some e => (.error e, f)
  | none =>
    match advanceHighWatermark env response.highWatermark
      (f.update (f.state.appendEntries response.entries)) with
    | (.error e, f) => (.error e, f)
    | (.ok _, f) =>
      let appended := if response.entries = [] then [] else [IoAction.appendLog response.entries]
      (.ok ⟨⟨appended ++ persistActions deferred⟩, false⟩, f)

/-- Process a fetch response received from the leader. -/
def handleFetchResponse (mgr : ReplicationManager) (env : Collaborators σ κ) (clock : Clock)
    (response : FetchResponse) (f : Follower σ κ) :
    Except XraftError FetchResponseResult × Follower σ κ :=
  match validateAndUpdateTerm f.state response with
  | (.error e, state) => (.error e, f.update state)
  | (.ok deferred, state) =>
    if response.snapshotId.isSome ∧ response.divergingEpoch.isSome
      then (.error bothFields, f.update state)
    else
      let f := f.update (mgr.resetTimers state clock)
      match response.snapshotId, response.divergingEpoch with
      | some snapshotId, _ => handleSnapshot env response snapshotId deferred f
      | none, some diverging => mgr.handleDivergence diverging deferred f
      | none, none => handleEntries env response deferred f

/-- Dispatch an inbound envelope through the follower pipeline, which handles fetch responses
only. -/
def handleMessage (mgr : ReplicationManager) (env : Collaborators σ κ) (clock : Clock)
    (envelope : RpcEnvelope) (f : Follower σ κ) :
    Except XraftError FetchResponseResult × Follower σ κ :=
  if envelope.clusterId ≠ f.state.clusterId then (.error .invalidClusterId, f)
  else match envelope.payload with
    | .fetchResponse response =>
      let source := envelope.source
      let leaderId := response.leaderId
      if source ≠ leaderId then
        (.error (.invalidResponse (s!"envelope source NodeId({source}) does not match " ++
          s!"response leader_id NodeId({leaderId})")), f)
      else mgr.handleFetchResponse env clock response f
    | other =>
      let discriminant := other.discriminant
      (.error (.invalidResponse
        s!"RaftNode follower pipeline does not handle Discriminant({discriminant})"), f)

end ReplicationManager

end XRaft
