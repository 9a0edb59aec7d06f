import XRaft.Core.Election

/-!
# The event loop of `event_loop.rs`

The handlers of the event loop change the state in memory, publish its projection and
collect actions; the I/O stage executes those afterwards, and the state stays as it is
when that fails. The node-state revision they are written against is not in the tree.
What `become_leader` does to the election fields is fixed by the check-quorum tests; its
timer and how a leader tracks the fetches of its followers are parameters, with the tests'
rule as one value of them. Membership messages came after this revision: they are treated like a
snapshot message here, of which only the epoch is read.
-/

namespace XRaft

/-- Public projection of the protocol state. -/
structure ConsensusState where
  nodeId : NodeId
  currentTerm : ℕ
  role : Role
  leaderId : Option NodeId
  logEndOffset : ℕ
  highWatermark : ℕ
  voterSet : List VoterInfo
  deriving DecidableEq, Repr

namespace NodeState

/-- Project the internal state into the public one. -/
def project (state : NodeState) : ConsensusState where
  nodeId := state.nodeId
  currentTerm := state.currentTerm
  role := state.role
  leaderId := state.leaderId
  logEndOffset := state.logEndOffset
  highWatermark := state.highWatermark
  voterSet := state.voterSet

/-- Whether a node is in the voter set. -/
def isInVoterSet (state : NodeState) (id : NodeId) : Bool :=
  state.voterSet.any fun voter => voter.nodeId == id

/-- Whether this node is in the voter set. -/
def isVoter (state : NodeState) : Bool := state.isInVoterSet state.nodeId

/-- The number of voters. -/
def voterCount (state : NodeState) : ℕ := state.voterSet.length

/-- How many votes win an election. -/
def majority (state : NodeState) : ℕ := state.voterCount / 2 + 1

/-- Take the leader role in the current term; term and vote stay. -/
def becomeLeader (state : NodeState) : NodeState :=
  { state with role := .leader, leaderId := some state.nodeId }

end NodeState

namespace ElectionManager

/-- Answer a pre-vote request from the state as it is. -/
def handlePreVoteRequest (request : VoteRequest) (state : NodeState) (batch : IoActionBatch) :
    IoActionBatch :=
  let wouldGrant := if request.term < state.currentTerm then false else logOk state request
  batch.push (.sendRpc request.candidateId ⟨state.clusterId, 0, state.nodeId, .voteResponse
    ⟨state.currentTerm, wouldGrant, true⟩⟩)

/-- Record a vote; tells whether a majority has been reached. -/
def recordVote (voter : NodeId) (state : NodeState) : Bool × NodeState :=
  if state.role ≠ .candidate then (false, state)
  else
    let state := { state with votesReceived := insert voter state.votesReceived }
    (decide (state.votesReceived.card ≥ state.majority), state)

/-- Append the control record of a new leader. -/
def appendLeaderChangeMessage (state : NodeState) (batch : IoActionBatch) :
    NodeState × IoActionBatch :=
  ({ state with logEndOffset := state.logEndOffset + 1, lastLogTerm := state.currentTerm },
    batch.push (.appendLog [⟨state.logEndOffset, state.currentTerm, .leaderChangeMessage, []⟩]))

end ElectionManager

/-- How a leader tracks its followers: what it starts from, what a fetch records, when it has a
quorum. -/
structure QuorumMethods (φ : Type*) extends TimerMethods where
  becomeLeader : NodeState → φ
  recordFetch : NodeId → ℕ → ℕ → φ → φ
  checkQuorum : NodeState → φ → ℕ → ℕ → Bool

/-- A follower's replication progress on the leader side. -/
structure FollowerProgress where
  nodeId : NodeId
  fetchOffset : ℕ
  lastFetchTimestamp : Option ℕ
  isVoter : Bool
  deriving DecidableEq, Repr

/-- The rule of the tests: the leader and the voters that fetched within the interval are a
majority. -/
def fetchWindow : QuorumMethods (List FollowerProgress) where
  toTimerMethods := .given
  becomeLeader state :=
    (state.voterSet.filter fun voter => voter.nodeId ≠ state.nodeId).map fun voter =>
      ⟨voter.nodeId, 0, none, true⟩
  recordFetch source offset now progress := progress.map fun p =>
    if p.nodeId = source then { p with fetchOffset := offset, lastFetchTimestamp := some now }
    else p
  checkQuorum state progress now interval :=
    decide (state.majority ≤ 1 + (progress.filter fun p =>
      p.isVoter && p.lastFetchTimestamp.any fun time => decide (now ≤ time + interval)).length)

/-- The event loop's state: the node, the leader's view of its followers, its check-quorum timer,
what the listener was told and what was published last. -/
structure EventLoop (φ : Type*) where
  state : NodeState
  followerState : φ
  checkQuorumDeadline : ℕ
  checkQuorumInterval : ℕ
  leaderChanges : List (NodeId × ℕ)
  published : ConsensusState

/-- Whether the message belongs to a pre-vote. -/
def RpcPayload.isPreVote : RpcPayload → Bool
  | .voteRequest request => request.isPreVote
  | .voteResponse response => response.isPreVote
  | _ => false

/-- The term that may make the receiver step down. -/
def RpcEnvelope.effectiveTerm (envelope : RpcEnvelope) : ℕ :=
  match envelope.payload with
  | .voteRequest request => request.term
  | .voteResponse response => response.term
  | .fetchResponse response => response.leaderEpoch
  | _ => envelope.leaderEpoch

namespace EventLoop

variable {φ : Type*}

/-- Replace the node state. -/
def update (loop : EventLoop φ) (state : NodeState) : EventLoop φ := { loop with state := state }

/-- Publish the projection of the state. -/
def publish (loop : EventLoop φ) : EventLoop φ := { loop with published := loop.state.project }

/-- Enter the leader role and start the check-quorum timer. -/
def becomeLeader (methods : QuorumMethods φ) (clock : Clock) (loop : EventLoop φ) : EventLoop φ :=
  { loop with
    state := loop.state.becomeLeader
    followerState := methods.becomeLeader loop.state
    checkQuorumDeadline :=
      methods.leaderDeadline loop.state clock.now clock.randomElectionTimeout
    checkQuorumInterval :=
      methods.leaderInterval loop.state clock.now clock.randomElectionTimeout }

/-- Persist the leadership, append the control record and tell the listener. -/
def onBecomeLeader (loop : EventLoop φ) (batch : IoActionBatch) : EventLoop φ × IoActionBatch :=
  let batch := batch.push (.persistQuorumState
    ⟨loop.state.currentTerm, loop.state.votedFor, some loop.state.nodeId, loop.state.currentTerm,
      ClusterId.nil⟩)
  let (state, batch) := ElectionManager.appendLeaderChangeMessage loop.state batch
  ({ loop with
    state := state
    leaderChanges := loop.leaderChanges ++ [(state.nodeId, state.currentTerm)] }, batch)

/-- Check that a majority fetched within the interval, or step down within the term and keep the
vote. -/
def handleCheckQuorum (methods : QuorumMethods φ) (clock : Clock) (loop : EventLoop φ) :
    EventLoop φ × IoActionBatch :=
  let interval := loop.checkQuorumInterval
  if methods.checkQuorum loop.state loop.followerState clock.now interval then
    ({ loop with checkQuorumDeadline := clock.now + interval }.publish, {})
  else
    let preservedVotedFor := loop.state.votedFor
    let state := loop.state.becomeFollower methods.toTimerMethods loop.state.currentTerm none
      (clock.now + clock.randomElectionTimeout)
    let loop := loop.update { state with votedFor := preservedVotedFor }
    (loop.publish, IoActionBatch.push {} (.persistQuorumState
      ⟨loop.state.currentTerm, preservedVotedFor, none, 0, ClusterId.nil⟩))

/-- A voter starts an election, and wins it at once if it is the only voter. -/
def handleElectionTimeout (methods : QuorumMethods φ) (clock : Clock) (loop : EventLoop φ) :
    EventLoop φ × IoActionBatch :=
  if !loop.state.isVoter then
    (loop.update { loop.state with electionDeadline := clock.now + clock.randomElectionTimeout },
      {})
  else
    let (state, batch) := ElectionManager.startElection methods.toTimerMethods clock loop.state {}
    let loop := loop.update state
    let (loop, batch) :=
      if loop.state.voterCount = 1 then (loop.becomeLeader methods clock).onBecomeLeader batch
        else (loop, batch)
    (loop.publish, batch)

/-- Step down on a higher term, unless the message belongs to a pre-vote. -/
def stepDown (timers : TimerMethods) (clock : Clock) (envelope : RpcEnvelope)
    (loop : EventLoop φ) :
    Bool × EventLoop φ × IoActionBatch :=
  if envelope.payload.isPreVote then (false, loop, {})
  else
    let (steppedDown, state) :=
      ElectionManager.maybeStepDownOnHigherTerm timers clock envelope.effectiveTerm loop.state
    let batch : IoActionBatch :=
      if steppedDown then
        IoActionBatch.push {}
          (.persistQuorumState ⟨state.currentTerm, none, none, 0, ClusterId.nil⟩)
      else {}
    (steppedDown, loop.update state, batch)

/-- Count a vote for the current term from a voter, and lead once it is a majority. -/
def handleVoteResponse (methods : QuorumMethods φ) (clock : Clock) (source : NodeId)
    (steppedDown : Bool) (response : VoteResponse) (loop : EventLoop φ) (batch : IoActionBatch) :
    EventLoop φ × IoActionBatch :=
  if response.isPreVote then
    if response.voteGranted && response.term == loop.state.currentTerm then
      (loop.update { loop.state with
        preVotesReceived := insert source loop.state.preVotesReceived }, batch)
    else (loop, batch)
  else if !steppedDown && loop.state.role == .candidate && response.voteGranted &&
      response.term == loop.state.currentTerm then
    if !loop.state.isInVoterSet source then (loop, batch)
    else
      let (hasMajority, state) := ElectionManager.recordVote source loop.state
      let loop := loop.update state
      if hasMajority then (loop.becomeLeader methods clock).onBecomeLeader batch else (loop, batch)
  else (loop, batch)

/-- The payload-specific part of handling a message. -/
def dispatch (methods : QuorumMethods φ) (clock : Clock) (envelope : RpcEnvelope)
    (steppedDown : Bool) (loop : EventLoop φ) (batch : IoActionBatch) :
    EventLoop φ × IoActionBatch :=
  match envelope.payload with
  | .voteRequest request =>
    if request.isPreVote then (loop, ElectionManager.handlePreVoteRequest request loop.state batch)
    else
      let (state, batch) :=
        ElectionManager.handleVoteRequest methods.toTimerMethods clock request loop.state batch
      (loop.update state, batch)
  | .voteResponse response =>
    loop.handleVoteResponse methods clock envelope.source steppedDown response batch
  | .fetchRequest request =>
    if loop.state.role = .leader then
      ({ loop with
        followerState :=
          methods.recordFetch envelope.source request.fetchOffset clock.now loop.followerState },
      batch)
    else (loop, batch)
  | _ => (loop, batch)

/-- Handle an incoming message: cluster fencing, stepping down, then the payload. -/
def handleRpc (methods : QuorumMethods φ) (clock : Clock) (envelope : RpcEnvelope)
    (loop : EventLoop φ) :
    EventLoop φ × IoActionBatch :=
  if envelope.clusterId ≠ loop.state.clusterId then (loop, {})
  else
    let (steppedDown, loop, batch) := loop.stepDown methods.toTimerMethods clock envelope
    let (loop, batch) := loop.dispatch methods clock envelope steppedDown batch
    (loop.publish, batch)

end EventLoop

end XRaft
