import XRaft.Core.EventLoop
import XRaft.Core.RaftNode

/-!
# What a pre-vote request changes

A pre-vote asks whether a real vote would be granted and is not meant to change the voter.
The event loop keeps to that: it skips the higher-term check for pre-vote messages and
answers from the state as it is. The handler of `raft_node.rs` serves both kinds of request
and reads the pre-vote flag only when it would store a granted vote, after the term of the
request has been adopted. It is read-only exactly where no term is adopted.
-/

namespace XRaft

/-- The node's election state and its saved quorum state are as before. -/
structure ReadOnly (before after : RaftNode) : Prop where
  currentTerm : after.state.currentTerm = before.state.currentTerm
  votedFor : after.state.votedFor = before.state.votedFor
  role : after.state.role = before.state.role
  leaderId : after.state.leaderId = before.state.leaderId
  votesReceived : after.state.votesReceived = before.state.votesReceived
  electionDeadline : after.state.electionDeadline = before.state.electionDeadline
  quorumState : after.stores.quorumState = before.stores.quorumState

/-- An unchanged node is read-only. -/
theorem ReadOnly.refl (node : RaftNode) : ReadOnly node node := ⟨rfl, rfl, rfl, rfl, rfl, rfl, rfl⟩

namespace RaftNode

variable {request : VoteRequest}

/-- Whether the candidate of the request is a voter in a later term, whose term the node adopts. -/
def raisesTerm (node : RaftNode) (request : VoteRequest) : Bool :=
  node.state.voterSet.any (fun voter => voter.nodeId == request.candidateId) &&
    decide (node.state.currentTerm < request.term)

/-- Once no term is adopted, a pre-vote is decided without a change to the node. -/
theorem decideVote_preVote (hpre : request.isPreVote = true) (clock : Clock) (faults : Faults)
    (node : RaftNode) :
    ∃ granted, node.decideVote clock faults request = (.ok ⟨node.state.currentTerm, granted, true⟩,
      node) := by
  unfold decideVote
  rw [hpre]
  by_cases hstale : request.term < node.state.currentTerm
  · rw [if_pos hstale]
    exact ⟨false, rfl⟩
  · rw [if_neg hstale]
    simp only [Bool.not_true, Bool.and_false, Bool.false_eq_true, if_false]
    exact ⟨_, rfl⟩

/-- A pre-vote that raises no term is answered without a change to the node. -/
theorem handleVoteRequest_preVote {node : RaftNode} (hpre : request.isPreVote = true)
    (hkept : node.raisesTerm request = false) (clock : Clock) (faults : Faults) :
    ∃ granted, node.handleVoteRequest clock faults request =
      (.ok ⟨node.state.currentTerm, granted, true⟩, node) := by
  unfold handleVoteRequest
  by_cases hvoter : node.state.voterSet.any (fun voter => voter.nodeId == request.candidateId) =
    true
  · have hterm : ¬ request.term > node.state.currentTerm := by
      simpa only [raisesTerm, hvoter, Bool.true_and, decide_eq_false_iff_not] using hkept
    rw [if_neg (not_not.mpr hvoter), if_neg hterm]
    exact decideVote_preVote hpre clock faults node
  · rw [if_pos hvoter, hpre]
    exact ⟨false, rfl⟩

/-- The save of a quorum state does not touch the term in memory. -/
theorem currentTerm_save (node : RaftNode) (outcome : SaveOutcome) (qs : QuorumState) :
    (node.save outcome qs).2.state.currentTerm = node.state.currentTerm := by
  cases outcome <;> rfl

/-- A pre-vote that raises the term leaves the node in the term of the request, whether its save
succeeds. -/
theorem currentTerm_handleVoteRequest_preVote {node : RaftNode} (hpre : request.isPreVote = true)
    (hraised : node.raisesTerm request = true) (clock : Clock) (faults : Faults) :
    (node.handleVoteRequest clock faults request).2.state.currentTerm = request.term := by
  obtain ⟨hvoter, hterm⟩ := Bool.and_eq_true_iff.mp hraised
  have hsaved := currentTerm_save (node.stepDown clock request.term) faults.saveTerm
    ((node.stepDown clock request.term).quorumState none)
  unfold handleVoteRequest
  rw [if_neg (not_not.mpr hvoter), if_pos (of_decide_eq_true hterm)]
  dsimp only
  generalize (node.stepDown clock request.term).save faults.saveTerm _ = saved at hsaved ⊢
  obtain ⟨result, node'⟩ := saved
  cases result with
  | error e => exact hsaved
  | ok _ =>
    obtain ⟨granted, hdecide⟩ := decideVote_preVote hpre clock faults node'
    dsimp only
    rw [hdecide]
    exact hsaved

end RaftNode

namespace EventLoop

variable {φ : Type*} {request : VoteRequest} {envelope : RpcEnvelope}

/-- The event loop answers a pre-vote from the state as it is, and does nothing else. -/
theorem handleRpc_preVote (hpayload : envelope.payload = .voteRequest request)
    (hpre : request.isPreVote = true) (methods : QuorumMethods φ) (clock : Clock)
    (loop : EventLoop φ) :
    (loop.handleRpc methods clock envelope).1.state = loop.state ∧
      ∀ action ∈ (loop.handleRpc methods clock envelope).2.actions, ∃ reply granted,
        action = .sendRpc request.candidateId reply ∧
          reply.payload = .voteResponse ⟨loop.state.currentTerm, granted, true⟩ := by
  have hskip : envelope.payload.isPreVote = true := by rw [hpayload]; exact hpre
  unfold handleRpc
  split
  · exact ⟨rfl, fun action hmem => absurd hmem List.not_mem_nil⟩
  · unfold stepDown dispatch
    rw [if_pos hskip, hpayload]
    simp only [hpre, if_true]
    refine ⟨rfl, fun action hmem => ?_⟩
    rw [List.mem_singleton.mp hmem]
    exact ⟨_, _, rfl, rfl⟩

end EventLoop

/-- Node 1 as the leader of term 1 among three voters, with its vote saved. -/
def leaderOfOne : RaftNode where
  state := { NodeState.newUnattached 1 0 with
    clusterId := 7
    currentTerm := 1
    votedFor := some 1
    role := .leader
    leaderId := some 1
    voterSet := [⟨1, "a"⟩, ⟨2, "b"⟩, ⟨3, "c"⟩]
    votesReceived := {1, 2} }
  config := { nodeId := 1 }
  stores := { Stores.empty with quorumState := some ⟨1, some 1, none, 0, 7⟩ }
  bootstrapped := true
  leaderChanges := [(1, 1)]

/-- Node 3, cut off from the others, asks for a pre-vote in the given term. -/
def preVoteOf (term : ℕ) : VoteRequest := ⟨term, 3, 0, 0, true⟩

/-- A pre-vote request leaves a node's election state and saved quorum state alone and is answered
as a pre-vote exactly when it is not a later-term request of a voter; the event loop always does
so. -/
theorem RaftNode.preVote_readOnly_iff (request : VoteRequest) (hpre : request.isPreVote = true) :
    (∀ (node : RaftNode) (clock : Clock) (faults : Faults),
      (ReadOnly node (node.handleVoteRequest clock faults request).2 ∧
          ∀ response, (node.handleVoteRequest clock faults request).1 = .ok response →
            response.isPreVote = true) ↔
        node.raisesTerm request = false) ∧
      ∀ {φ : Type*} (methods : QuorumMethods φ) (loop : EventLoop φ) (clock : Clock)
        (envelope : RpcEnvelope),
        envelope.payload = .voteRequest request →
          (loop.handleRpc methods clock envelope).1.state = loop.state ∧
            ∀ action ∈ (loop.handleRpc methods clock envelope).2.actions, ∃ reply granted,
              action = .sendRpc request.candidateId reply ∧
                reply.payload = .voteResponse ⟨loop.state.currentTerm, granted, true⟩ := by
  refine ⟨fun node clock faults => ⟨fun hkept => ?_, fun hkept => ?_⟩,
    fun methods loop clock envelope hpayload =>
      EventLoop.handleRpc_preVote hpayload hpre methods clock loop⟩
  · rw [Bool.eq_false_iff]
    intro hraised
    have hadopted := currentTerm_handleVoteRequest_preVote hpre hraised clock faults
    have hlater : node.state.currentTerm < request.term :=
      of_decide_eq_true (Bool.and_eq_true_iff.mp hraised).2
    have hsame := hkept.1.currentTerm
    omega
  · obtain ⟨granted, hanswer⟩ := handleVoteRequest_preVote hpre hkept clock faults
    rw [hanswer]
    refine ⟨ReadOnly.refl node, fun response hok => ?_⟩
    rw [← Except.ok.inj hok]

/-- A pre-vote in the leader's own term leaves the leader as it is. -/
theorem RaftNode.preVote_readOnly_current : ReadOnly leaderOfOne
    (leaderOfOne.handleVoteRequest ⟨0, 5⟩ {} (preVoteOf 1)).2 :=
  (((preVote_readOnly_iff.{0} (preVoteOf 1) rfl).1 leaderOfOne ⟨0, 5⟩ {}).mpr (by decide)).1

/-- A pre-vote in a later term deposes the leader: it follows in the new term, without a vote or a
leader, and the new term is on disk. -/
theorem RaftNode.preVote_deposes_leader :
    let after := (leaderOfOne.handleVoteRequest ⟨0, 5⟩ {} (preVoteOf 2)).2
    leaderOfOne.state.role = .leader ∧ after.state.role = .follower ∧ after.state.currentTerm = 2 ∧
      after.state.votedFor = none ∧ after.state.leaderId = none ∧
      after.stores.quorumState = some ⟨2, none, none, 0, 7⟩ ∧ ¬ ReadOnly leaderOfOne after := by
  refine ⟨rfl, rfl, rfl, rfl, rfl, rfl, fun hkept => ?_⟩
  exact absurd hkept.currentTerm (by decide)

end XRaft
