import XRaft.Core.Types

/-!
# The election manager of `election.rs`

`ElectionManager` is the event loop's own election code, beside that of `raft_node.rs`.
It changes the node state in memory and leaves all I/O to a batch of actions, which the
I/O stage executes afterwards. The node-state revision with `become_follower` and
`become_candidate` is not in the tree. What the two do to term, role, leader and votes is
fixed by the check-quorum tests; the timers they leave are a parameter.
-/

namespace XRaft

/-- The timers that the methods of the node state leave: the election deadline after
`become_follower` and `become_candidate` with a deadline, the deadline and the interval of the
quorum check after `become_leader` with a time and a timeout. -/
structure TimerMethods where
  followerDeadline : NodeState → ℕ → ℕ
  candidateDeadline : NodeState → ℕ → ℕ
  leaderDeadline : NodeState → ℕ → ℕ → ℕ
  leaderInterval : NodeState → ℕ → ℕ → ℕ

/-- The timers as the tests use them: the deadlines are the given ones, and a leader checks its
quorum after the timeout. -/
def TimerMethods.given : TimerMethods where
  followerDeadline _ deadline := deadline
  candidateDeadline _ deadline := deadline
  leaderDeadline _ now timeout := now + timeout
  leaderInterval _ _ timeout := timeout

/-- The methods set the timers they are given. -/
structure TimerMethods.Sets (timers : TimerMethods) : Prop where
  follower : ∀ state deadline, timers.followerDeadline state deadline = deadline
  candidate : ∀ state deadline, timers.candidateDeadline state deadline = deadline
  leaderDeadline : ∀ state now timeout, timers.leaderDeadline state now timeout = now + timeout
  leaderInterval : ∀ state now timeout, timers.leaderInterval state now timeout = timeout

theorem TimerMethods.sets_given : TimerMethods.given.Sets :=
  ⟨fun _ _ => rfl, fun _ _ => rfl, fun _ _ _ => rfl, fun _ _ _ => rfl⟩

namespace NodeState

/-- Adopt a term as a follower, without a vote. -/
def becomeFollower (timers : TimerMethods) (state : NodeState) (term : ℕ) (leaderId : Option NodeId)
    (deadline : ℕ) : NodeState :=
  { state with
    currentTerm := term
    role := .follower
    leaderId := leaderId
    votedFor := none
    votesReceived := ∅
    preVotesReceived := ∅
    electionDeadline := timers.followerDeadline state deadline }

/-- Enter the next term as a candidate that has voted for itself. -/
def becomeCandidate (timers : TimerMethods) (state : NodeState) (deadline : ℕ) : NodeState :=
  { state with
    currentTerm := state.currentTerm + 1
    role := .candidate
    leaderId := none
    votedFor := some state.nodeId
    votesReceived := {state.nodeId}
    preVotesReceived := ∅
    electionDeadline := timers.candidateDeadline state deadline }

/-- The offset of the last log entry, zero for an empty log. -/
def lastLogOffset (state : NodeState) : ℕ :=
  if state.logEndOffset > 0 then state.logEndOffset - 1 else 0

end NodeState

namespace ElectionManager

/-- Step down to follower on a message with a higher term; tells whether it did. -/
def maybeStepDownOnHigherTerm (timers : TimerMethods) (clock : Clock) (messageTerm : ℕ)
    (state : NodeState) : Bool × NodeState :=
  if messageTerm > state.currentTerm then
    (true, state.becomeFollower timers messageTerm none (clock.now + clock.randomElectionTimeout))
  else (false, state)

/-- The quorum state a batch persists for the current term and vote. -/
def quorumState (state : NodeState) (leaderId : Option NodeId) : QuorumState where
  currentTerm := state.currentTerm
  votedFor := state.votedFor
  leaderId := leaderId
  leaderEpoch := 0

/-- The vote request of a candidate, as an action addressed to one voter. -/
def sendVoteRequest (state : NodeState) (voter : VoterInfo) : IoAction :=
  .sendRpc voter.nodeId ⟨state.clusterId, 0, state.nodeId, .voteRequest
    ⟨state.currentTerm, state.nodeId, state.lastLogOffset, state.lastLogTerm, false⟩⟩

/-- Become candidate, persist the vote and ask all other voters for theirs. -/
def startElection (timers : TimerMethods) (clock : Clock) (state : NodeState)
    (batch : IoActionBatch) : NodeState × IoActionBatch :=
  let state := state.becomeCandidate timers (clock.now + clock.randomElectionTimeout)
  let batch := batch.push (.persistQuorumState (quorumState state none))
  let others := state.voterSet.filter fun voter => voter.nodeId ≠ state.nodeId
  (state, others.foldl (fun batch voter => batch.push (sendVoteRequest state voter)) batch)

/-- Pushing actions one by one appends them in order. -/
theorem actions_foldl_push (f : VoterInfo → IoAction) (voters : List VoterInfo)
    (batch : IoActionBatch) :
    (voters.foldl (fun batch voter => batch.push (f voter)) batch).actions =
      batch.actions ++ voters.map f := by
  induction voters generalizing batch with
  | nil => simp
  | cons voter rest ih =>
    rw [List.foldl_cons, ih]
    simp [IoActionBatch.push]

/-- An election on an empty batch is the save of the vote followed by a request to every other
voter. -/
theorem actions_startElection (timers : TimerMethods) (clock : Clock) (state : NodeState) :
    (startElection timers clock state {}).2.actions =
      .persistQuorumState (quorumState (startElection timers clock state {}).1 none) ::
        (state.voterSet.filter fun voter => voter.nodeId ≠ state.nodeId).map
          (sendVoteRequest (startElection timers clock state {}).1) := by
  unfold startElection
  rw [actions_foldl_push]
  rfl

/-- Whether the candidate's log is at least as current as this node's. -/
def logOk (state : NodeState) (request : VoteRequest) : Bool :=
  decide (request.lastLogTerm > state.lastLogTerm) ||
    (request.lastLogTerm == state.lastLogTerm &&
      decide (request.lastLogOffset ≥ state.lastLogOffset)) ||
    state.logEndOffset == 0

/-- Whether a leader role, a stale term or another vote forbids granting the request. -/
def mustRefuse (state : NodeState) (request : VoteRequest) : Bool :=
  state.role == .leader || decide (request.term < state.currentTerm) ||
    (state.votedFor.isSome && state.votedFor != some request.candidateId)

/-- The answer to a vote request, as an action addressed to the candidate. -/
def sendVoteResponse (state : NodeState) (request : VoteRequest) (voteGranted : Bool) : IoAction :=
  .sendRpc request.candidateId ⟨state.clusterId, 0, state.nodeId, .voteResponse
    ⟨state.currentTerm, voteGranted, false⟩⟩

/-- Handle an incoming vote request: a granted vote is persisted, then the answer is sent. -/
def handleVoteRequest (timers : TimerMethods) (clock : Clock) (request : VoteRequest)
    (state : NodeState) (batch : IoActionBatch) : NodeState × IoActionBatch :=
  let state := (maybeStepDownOnHigherTerm timers clock request.term state).2
  if !mustRefuse state request && logOk state request then
    let state := { state with
      votedFor := some request.candidateId
      electionDeadline := clock.now + clock.randomElectionTimeout }
    (state, (batch.push (.persistQuorumState (quorumState state state.leaderId))).push
      (sendVoteResponse state request true))
  else (state, batch.push (sendVoteResponse state request false))

end ElectionManager

end XRaft
