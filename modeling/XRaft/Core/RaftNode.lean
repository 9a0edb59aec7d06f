import XRaft.Core.LogStore

/-!
# The node of `raft_node.rs`: bootstrap, recovery and elections

Every method is a function of the node, one reading of the clock and the outcomes of
the fallible calls it makes. It returns the method's result, the node afterwards (also
when the result is an error: the source mutates the node in place and leaves early) and
the envelopes handed to the transport.

The outcomes are part of the environment. A quorum-state save is all or nothing; when
it fails the old or the new state may be the one on disk. A failed append or rollback
leaves the log store unchanged.
-/

namespace XRaft

/-- How a call of `QuorumStateStore::save` ends. -/
inductive SaveOutcome where
  | ok
  | failed (reason : String)
  | failedAfterWrite (reason : String)
  deriving DecidableEq, Repr

/-- The errors the fallible calls of one method return, `none` where the call succeeds. -/
structure Faults where
  loadExisting : Option String := none
  loadLatestExisting : Option String := none
  load : Option String := none
  loadLatest : Option String := none
  restore : Option XraftError := none
  read : Option String := none
  entryAt : Option String := none
  saveTerm : SaveOutcome := .ok
  saveVote : SaveOutcome := .ok
  appendLeaderChange : Option String := none
  appendVoters : Option String := none
  rollback : Option String := none
  send : Option String := none
  deriving DecidableEq, Repr

/-- What survives a crash of the process. -/
structure Stores where
  log : LogStore
  quorumState : Option QuorumState
  snapshot : Option Snapshot
  deriving DecidableEq, Repr

/-- Stores nothing has been written to. -/
def Stores.empty : Stores := ⟨LogStore.new, none, none⟩

/-- A consensus node: protocol state, stores, and the leader changes its listener was told. -/
structure RaftNode where
  state : NodeState
  config : RaftConfig
  stores : Stores
  bootstrapped : Bool
  leaderChanges : List (NodeId × ℕ)

/-- The result of a method, the node afterwards, and what it handed to the transport. -/
structure Outcome (α : Type*) where
  result : Except XraftError α
  node : RaftNode
  sent : List (NodeId × RpcEnvelope) := []

/-- Validate the configuration. -/
def RaftConfig.validate (config : RaftConfig) : Except String Unit :=
  if config.electionTimeoutMinMs ≥ config.electionTimeoutMaxMs then
    .error "election_timeout_min_ms must be < election_timeout_max_ms"
  else if config.fetchIntervalMs ≥ config.electionTimeoutMinMs then
    .error "fetch_interval_ms must be < election_timeout_min_ms"
  else .ok ()

namespace RaftNode

/-- Start the election timer from the clock reading. -/
def resetElectionTimer (node : RaftNode) (clock : Clock) : RaftNode :=
  { node with state := { node.state with
      electionDeadline := clock.now + clock.randomElectionTimeout } }

/-- Write a quorum state to the store. -/
def storeQuorumState (node : RaftNode) (qs : QuorumState) : RaftNode :=
  { node with stores := { node.stores with quorumState := some qs } }

/-- Replace the content of the log store. -/
def storeLog (node : RaftNode) (log : LogStore) : RaftNode :=
  { node with stores := { node.stores with log := log } }

/-- The quorum state the election code saves: the current term with the given vote. -/
def quorumState (node : RaftNode) (votedFor : Option NodeId) : QuorumState where
  currentTerm := node.state.currentTerm
  votedFor := votedFor
  leaderId := none
  leaderEpoch := 0
  clusterId := node.state.clusterId

/-- Save a quorum state, with the outcome the environment chose. -/
def save (node : RaftNode) (outcome : SaveOutcome) (qs : QuorumState) :
    Except XraftError Unit × RaftNode :=
  match outcome with
  | .ok => (.ok (), node.storeQuorumState qs)
  | .failed reason => (.error (.storageError reason), node)
  | .failedAfterWrite reason => (.error (.storageError reason), node.storeQuorumState qs)

/-- Whether any existing data is present in the stores. -/
def hasExistingData (stores : Stores) (faults : Faults) : Except XraftError Bool :=
  if stores.log.logStartOffset ≠ 0 ∨ stores.log.logEndOffset ≠ 0 then .ok true
  else match faults.loadExisting with
    | some reason => .error (.storageError reason)
    | none =>
      if stores.quorumState.isSome then .ok true
      else match faults.loadLatestExisting with
        | some reason => .error (.storageError reason)
        | none => .ok stores.snapshot.isSome

/-- Restore term, vote, leader and cluster id from the saved quorum state. -/
def restoreQuorumState (node : RaftNode) : RaftNode :=
  match node.stores.quorumState with
  | some qs =>
    { node with state := { node.state with
        currentTerm := qs.currentTerm
        votedFor := qs.votedFor
        leaderId := qs.leaderId
        clusterId := qs.clusterId } }
  | none => node

/-- Restore voters and log boundaries from the latest snapshot. -/
def restoreSnapshot (node : RaftNode) : RaftNode :=
  match node.stores.snapshot with
  | some snap =>
    { node with state := { node.state with
        voterSet := snap.metadata.voters
        logStartOffset := snap.metadata.lastIncludedOffset + 1
        highWatermark := snap.metadata.lastIncludedOffset + 1 } }
  | none => node

/-- The offset after the latest snapshot, zero without one. -/
def snapshotEnd (node : RaftNode) : ℕ :=
  match node.stores.snapshot with
  | some snap => snap.metadata.lastIncludedOffset + 1
  | none => 0

/-- Restore the log boundaries, never below those of the snapshot. -/
def restoreLogBounds (node : RaftNode) : RaftNode :=
  { node with state := { node.state with
      logStartOffset := max node.state.logStartOffset node.stores.log.logStartOffset
      logEndOffset := max node.stores.log.logEndOffset node.snapshotEnd } }

/-- The voters of the last readable voters record among the entries. -/
def latestVoters (codec : VotersCodec) (entries : List LogEntry) : Option (List VoterInfo) :=
  entries.reverse.findSome? fun e =>
    if e.entryType = .votersRecord then
      match codec.deserialize e.payload with
      | .ok record => some record.voters
      | .error _ => none
    else none

/-- Take the voter set from the log, when the quorum state vouches for it and no snapshot gave
one. -/
def restoreVoters (codec : VotersCodec) (faults : Faults) (node : RaftNode) :
    Except XraftError Unit × RaftNode :=
  let log := node.stores.log
  if node.stores.snapshot.isNone ∧ node.stores.quorumState.isSome ∧
    log.logEndOffset > log.logStartOffset then
    match faults.read with
    | some reason => (.error (.storageError reason), node)
    | none =>
      match latestVoters codec (log.read log.logStartOffset log.logEndOffset) with
      | some voters => (.ok (), { node with state := { node.state with voterSet := voters } })
      | none => (.ok (), node)
  else (.ok (), node)

/-- Recover node state from persisted data and become a follower. -/
def recover (codec : VotersCodec) (clock : Clock) (faults : Faults) (node : RaftNode) :
    Except XraftError Unit × RaftNode :=
  match faults.load with
  | some reason => (.error (.storageError reason), node)
  | none =>
    let node := node.restoreQuorumState
    match faults.loadLatest with
    | some reason => (.error (.storageError reason), node)
    | none =>
      let node := node.restoreSnapshot
      match (if node.stores.snapshot.isSome then faults.restore else none) with
      | some e => (.error e, node)
      | none =>
        match restoreVoters codec faults node.restoreLogBounds with
        | (.error e, node) => (.error e, node)
        | (.ok _, node) =>
          let node :=
            { node with state := { node.state with role := .follower }, bootstrapped := true }
          (.ok (), node.resetElectionTimer clock)

/-- Create a node on the given stores, recovering if they hold data. -/
def new (codec : VotersCodec) (clock : Clock) (faults : Faults) (config : RaftConfig)
    (stores : Stores) : Except XraftError RaftNode :=
  match config.validate with
  | .error reason => .error (.invalidConfig reason)
  | .ok _ =>
    match hasExistingData stores faults with
    | .error e => .error e
    | .ok hasData =>
      let node : RaftNode :=
        ⟨NodeState.newUnattached config.nodeId clock.now, config, stores, false, []⟩
      if hasData then
        match node.recover codec clock faults with
        | (.ok _, node) => .ok node
        | (.error .recoveryRequired, node) => .ok { node with bootstrapped := true }
        | (.error e, _) => .error e
      else .ok node

/-- The first voter id that occurs a second time. -/
def duplicateVoter (seen : Finset NodeId) : List VoterInfo → Option NodeId
  | [] => none
  | voter :: rest =>
    if voter.nodeId ∈ seen then some voter.nodeId
      else duplicateVoter (insert voter.nodeId seen) rest

/-- Validate bootstrap configuration inputs. -/
def validateBootstrapConfig (nodeId : NodeId) (clusterId : ClusterId)
    (initialVoters : List VoterInfo) : Except XraftError Unit :=
  if clusterId = ClusterId.nil then .error (.invalidBootstrapConfig "cluster_id must not be nil")
  else if initialVoters.isEmpty then
    .error (.invalidBootstrapConfig "initial_voters must not be empty")
  else match duplicateVoter ∅ initialVoters with
    | some id =>
      .error (.invalidBootstrapConfig s!"duplicate node_id NodeId({id}) in initial_voters")
    | none =>
      if initialVoters.any (fun voter => voter.nodeId == nodeId) then .ok ()
      else .error (.invalidBootstrapConfig
        s!"this node (NodeId({nodeId})) must be included in initial_voters")

/-- First-time cluster formation: everything stays in memory. -/
def bootstrap (clock : Clock) (faults : Faults) (clusterId : ClusterId)
    (initialVoters : List VoterInfo) (node : RaftNode) : Outcome Unit :=
  if node.bootstrapped then
    ⟨.error (.alreadyBootstrapped "node has already been bootstrapped or recovered"), node, []⟩
  else if node.state.role ≠ .unattached then
    ⟨.error (.alreadyBootstrapped "node is not in Unattached state"), node, []⟩
  else match hasExistingData node.stores faults with
    | .error e => ⟨.error e, node, []⟩
    | .ok true =>
      ⟨.error (.alreadyBootstrapped "existing data detected (log, quorum-state, or snapshot)"),
        node, []⟩
    | .ok false =>
      match validateBootstrapConfig node.state.nodeId clusterId initialVoters with
      | .error e => ⟨.error e, node, []⟩
      | .ok _ =>
        let node := { node with
          state := { node.state with
            clusterId := clusterId
            voterSet := initialVoters
            currentTerm := 0
            votedFor := none
            leaderId := none
            role := .follower
            votesReceived := ∅
            preVotesReceived := ∅ }
          bootstrapped := true }
        ⟨.ok (), node.resetElectionTimer clock, []⟩

/-- Whether the votes received are a majority of the voter set. -/
def hasQuorum (node : RaftNode) : Bool :=
  if node.state.voterSet.length = 0 then false
  else decide (node.state.voterSet.length / 2 + 1 ≤ node.state.votesReceived.card)

/-- The last offset and term of the stored log. -/
def lastLogInfo (faults : Faults) (node : RaftNode) : ℕ × ℕ :=
  let endOffset := node.stores.log.logEndOffset
  if endOffset = 0 then (0, 0)
  else match faults.entryAt, node.stores.log.entryAt (endOffset - 1) with
    | none, some e => (endOffset - 1, e.term)
    | _, _ => (endOffset - 1, 0)

/-- Whether the stored log contains a voters record; a failed read counts as none. -/
def logHasVotersRecord (faults : Faults) (node : RaftNode) : Bool :=
  let log := node.stores.log
  if log.logEndOffset ≤ log.logStartOffset then false
  else match faults.read with
    | some _ => false
    | none =>
      (log.read log.logStartOffset log.logEndOffset).any fun e => e.entryType == .votersRecord

/-- Take the leader role once the appends are done. -/
def enterLeaderRole (node : RaftNode) : RaftNode :=
  { node with
    state := { node.state with
      role := .leader
      leaderId := some node.state.nodeId
      logEndOffset := node.stores.log.logEndOffset
      highWatermark :=
        if node.state.voterSet.length = 1 then node.stores.log.logEndOffset
        else node.state.highWatermark }
    leaderChanges := node.leaderChanges ++ [(node.state.nodeId, node.state.currentTerm)] }

/-- Append the control records of a new term and become its leader. -/
def becomeLeader (codec : VotersCodec) (faults : Faults) (node : RaftNode) :
    Except XraftError Unit × RaftNode :=
  let needsVotersRecord := !node.logHasVotersRecord faults
  match faults.appendLeaderChange with
  | some reason => (.error (.storageError reason), node)
  | none =>
    let log := node.stores.log.append
      [⟨node.stores.log.logEndOffset, node.state.currentTerm, .leaderChangeMessage, []⟩]
    if needsVotersRecord then
      match codec.serialize ⟨1, node.state.voterSet⟩ with
      | .error reason => (.error (.storageError reason), node.storeLog log)
      | .ok payload =>
        match faults.appendVoters with
        | some reason =>
          match faults.rollback with
          | some _ => (.error (.storageError reason), node.storeLog log)
          | none =>
            (.error (.storageError reason),
              node.storeLog (log.truncateSuffix (log.logEndOffset - 1)))
        | none =>
          let record : LogEntry :=
            ⟨log.logEndOffset, node.state.currentTerm, .votersRecord, payload⟩
          (.ok (), (node.storeLog (log.append [record])).enterLeaderRole)
    else (.ok (), (node.storeLog log).enterLeaderRole)

/-- The vote requests sent to all other voters. -/
def broadcastVoteRequests (faults : Faults) (node : RaftNode) : List (NodeId × RpcEnvelope) :=
  let (lastLogOffset, lastLogTerm) := node.lastLogInfo faults
  let envelope : RpcEnvelope :=
    ⟨node.state.clusterId, 0, node.state.nodeId, .voteRequest
      ⟨node.state.currentTerm, node.state.nodeId, lastLogOffset, lastLogTerm, false⟩⟩
  (node.state.voterSet.filter fun voter => voter.nodeId ≠ node.state.nodeId).map
    fun voter => (voter.nodeId, envelope)

/-- Increment the term, become candidate and vote for itself. The term is a `u64`: there is none
behind the largest one, and a release build goes on with zero. -/
def becomeCandidate (node : RaftNode) : RaftNode :=
  { node with state := { node.state with
      currentTerm := (node.state.currentTerm + 1) % 2 ^ 64
      votedFor := some node.state.nodeId
      role := .candidate
      leaderId := none
      votesReceived := {node.state.nodeId} } }

/-- Below the largest term the candidate's term is the next one. -/
theorem currentTerm_becomeCandidate {node : RaftNode} (h : node.state.currentTerm + 1 < 2 ^ 64) :
    node.becomeCandidate.state.currentTerm = node.state.currentTerm + 1 :=
  Nat.mod_eq_of_lt h

/-- Handle an election timeout. -/
def handleElectionTimeout (codec : VotersCodec) (clock : Clock) (faults : Faults)
    (node : RaftNode) : Outcome Unit :=
  if node.state.role ≠ .follower ∧ node.state.role ≠ .candidate then
    let role := node.state.role.debug
    ⟨.error (.invalidElectionState s!"cannot start election from role {role}"), node, []⟩
  else
    let node := node.becomeCandidate
    match node.save faults.saveVote (node.quorumState node.state.votedFor) with
    | (.error e, node) => ⟨.error e, node, []⟩
    | (.ok _, node) =>
      if node.hasQuorum then
        let (result, node) := node.becomeLeader codec faults
        ⟨result, node, []⟩
      else ⟨.ok (), node.resetElectionTimer clock, node.broadcastVoteRequests faults⟩

/-- Fire an election timeout if the deadline has passed. -/
def tick (codec : VotersCodec) (clock : Clock) (faults : Faults) (node : RaftNode) : Outcome Unit :=
  if (node.state.role = .follower ∨ node.state.role = .candidate) ∧
    clock.now ≥ node.state.electionDeadline then
    node.handleElectionTimeout codec clock faults
  else ⟨.ok (), node, []⟩

/-- Adopt a higher term seen in a message and step down to follower. -/
def stepDown (node : RaftNode) (clock : Clock) (term : ℕ) : RaftNode :=
  { node with state := { node.state with
      currentTerm := term
      votedFor := none
      role := .follower
      leaderId := none
      votesReceived := ∅
      electionDeadline := clock.now + clock.randomElectionTimeout } }

/-- Whether the candidate's log is at least as current as the stored one. -/
def logOk (faults : Faults) (node : RaftNode) (request : VoteRequest) : Bool :=
  let (ourLastOffset, ourLastTerm) := node.lastLogInfo faults
  decide (request.lastLogTerm > ourLastTerm) ||
    (request.lastLogTerm == ourLastTerm && decide (request.lastLogOffset ≥ ourLastOffset))

/-- Whether the vote of the current term is free, or the candidate's already. -/
def canVote (node : RaftNode) (request : VoteRequest) : Bool :=
  match node.state.votedFor with
  | none => true
  | some voted => voted == request.candidateId

/-- Decide a vote request whose term has been adopted, saving a granted vote. -/
def decideVote (clock : Clock) (faults : Faults) (request : VoteRequest) (node : RaftNode) :
    Except XraftError VoteResponse × RaftNode :=
  if request.term < node.state.currentTerm then
    (.ok ⟨node.state.currentTerm, false, request.isPreVote⟩, node)
  else
    let voteGranted := node.canVote request && node.logOk faults request
    if voteGranted && !request.isPreVote then
      let node := { node with state := { node.state with votedFor := some request.candidateId } }
      match node.save faults.saveVote (node.quorumState node.state.votedFor) with
      | (.error e, node) => (.error e, node)
      | (.ok _, node) =>
        (.ok ⟨node.state.currentTerm, voteGranted, request.isPreVote⟩,
          node.resetElectionTimer clock)
    else (.ok ⟨node.state.currentTerm, voteGranted, request.isPreVote⟩, node)

/-- Handle an incoming vote request. -/
def handleVoteRequest (clock : Clock) (faults : Faults) (request : VoteRequest) (node : RaftNode) :
    Except XraftError VoteResponse × RaftNode :=
  if ¬ node.state.voterSet.any (fun voter => voter.nodeId == request.candidateId) then
    (.ok ⟨node.state.currentTerm, false, request.isPreVote⟩, node)
  else if request.term > node.state.currentTerm then
    let node := node.stepDown clock request.term
    match node.save faults.saveTerm (node.quorumState none) with
    | (.error e, node) => (.error e, node)
    | (.ok _, node) => node.decideVote clock faults request
  else node.decideVote clock faults request

/-- Handle a vote response: count the vote and lead once there is a quorum. -/
def handleVoteResponse (codec : VotersCodec) (clock : Clock) (faults : Faults) (source : NodeId)
    (response : VoteResponse) (node : RaftNode) : Except XraftError Unit × RaftNode :=
  if response.term > node.state.currentTerm then
    let node := node.stepDown clock response.term
    node.save faults.saveTerm (node.quorumState none)
  else if node.state.role ≠ .candidate ∨ response.term ≠ node.state.currentTerm then (.ok (), node)
  else if response.isPreVote then (.ok (), node)
  else if ¬ node.state.voterSet.any (fun voter => voter.nodeId == source) then (.ok (), node)
  else if response.voteGranted then
    let node := { node with state := { node.state with
      votesReceived := insert source node.state.votesReceived } }
    if node.hasQuorum then node.becomeLeader codec faults else (.ok (), node)
  else (.ok (), node)

/-- Dispatch an inbound envelope, fencing on the cluster id. -/
def handleRpc (codec : VotersCodec) (clock : Clock) (faults : Faults) (envelope : RpcEnvelope)
    (node : RaftNode) : Outcome Unit :=
  if node.bootstrapped ∧ node.state.clusterId ≠ ClusterId.nil ∧
      (envelope.clusterId = ClusterId.nil ∨ node.state.clusterId ≠ envelope.clusterId) then
    ⟨.error .invalidClusterId, node, []⟩
  else match envelope.payload with
    | .voteRequest request =>
      match node.handleVoteRequest clock faults request with
      | (.error e, node) => ⟨.error e, node, []⟩
      | (.ok response, node) =>
        let reply : RpcEnvelope :=
          ⟨node.state.clusterId, 0, node.state.nodeId, .voteResponse response⟩
        match faults.send with
        | some e =>
          ⟨.error (.transportError s!"failed to send VoteResponse: {e}"), node,
            [(envelope.source, reply)]⟩
        | none => ⟨.ok (), node, [(envelope.source, reply)]⟩
    | .voteResponse response =>
      let (result, node) := node.handleVoteResponse codec clock faults envelope.source response
      ⟨result, node, []⟩
    | _ => ⟨.ok (), node, []⟩

/-- What the transport receiver returns: an envelope, nothing yet, or an error. -/
inductive Received where
  | envelope (envelope : RpcEnvelope)
  /-- `WouldBlock` or `TimedOut`. -/
  | idle
  | failed (reason : String)
  deriving DecidableEq, Repr

/-- Single iteration of the event loop: check the election timer, then process one inbound
envelope. -/
def step (codec : VotersCodec) (timer clock : Clock) (timerFaults faults : Faults)
    (received : Received) (node : RaftNode) : Outcome Unit :=
  match node.tick codec timer timerFaults with
  | ⟨.error e, node, sent⟩ => ⟨.error e, node, sent⟩
  | ⟨.ok _, node, sent⟩ =>
    match received with
    | .envelope envelope =>
      let handled := node.handleRpc codec clock faults envelope
      ⟨handled.result, handled.node, sent ++ handled.sent⟩
    | .idle => ⟨.ok (), node, sent⟩
    | .failed e => ⟨.error (.transportError s!"transport recv failed: {e}"), node, sent⟩

end RaftNode

end XRaft
