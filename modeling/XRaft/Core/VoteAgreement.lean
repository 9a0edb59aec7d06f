import XRaft.Core.Election
import XRaft.Core.RaftNode

/-!
# Two handlers of vote requests, one decision

`raft_node.rs` and `election.rs` both answer vote requests. What a voter decides on, and
what the decision changes, is small: its term, vote, role and leader. `Voter.answer` is
the decision in these terms, with the log comparison as a parameter. Each handler makes
this decision, one on a node with its stores, the other on a node state and a batch of
actions, and on the same log their comparisons agree.

The two differ in what they check. `election.rs` refuses as a leader, where `raft_node.rs`
relies on a leader's vote for itself, and takes every candidate on an empty log, where
`raft_node.rs` compares with term and offset zero.
-/

namespace XRaft

/-- What a vote request can change of a node. -/
structure Voter where
  currentTerm : ℕ
  votedFor : Option NodeId
  role : Role
  leaderId : Option NodeId
  deriving DecidableEq, Repr

namespace Voter

/-- Become a follower without a vote in a later term. -/
def adopt (term : ℕ) (voter : Voter) : Voter :=
  if term > voter.currentTerm then ⟨term, none, .follower, none⟩ else voter

/-- The vote of the current term is free or the candidate's, and the candidate's log is good
enough. -/
def grants (logOk : Bool) (request : VoteRequest) (voter : Voter) : Bool :=
  !Decidable.decide (request.term < voter.currentTerm) &&
    (voter.votedFor == none || voter.votedFor == some request.candidateId) && logOk

/-- Give the candidate the vote or not. -/
def decide (logOk : Bool) (request : VoteRequest) (voter : Voter) : Bool × Voter :=
  if voter.grants logOk request then (true, { voter with votedFor := some request.candidateId })
    else (false, voter)

/-- Adopt the term of a request, then decide. -/
def answer (logOk : Bool) (request : VoteRequest) (voter : Voter) : Bool × Voter :=
  (voter.adopt request.term).decide logOk request

end Voter

/-- The voter in a node state. -/
def NodeState.voter (state : NodeState) : Voter :=
  ⟨state.currentTerm, state.votedFor, state.role, state.leaderId⟩

/-- A raised term leaves no leader; otherwise the leader is the one before. -/
theorem Voter.leaderId_answer (logOk : Bool) (request : VoteRequest) (voter : Voter) :
    (voter.answer logOk request).2.leaderId =
      if request.term > voter.currentTerm then none else voter.leaderId := by
  unfold answer adopt decide
  split <;> split <;> rfl

/-- Apart from the leader, the decision does not depend on the leader. -/
theorem Voter.answer_congr {voter other : Voter} (hterm : other.currentTerm = voter.currentTerm)
    (hvote : other.votedFor = voter.votedFor) (hrole : other.role = voter.role) (logOk : Bool)
    (request : VoteRequest) :
    (other.answer logOk request).1 = (voter.answer logOk request).1 ∧
      (other.answer logOk request).2.currentTerm = (voter.answer logOk request).2.currentTerm ∧
      (other.answer logOk request).2.votedFor = (voter.answer logOk request).2.votedFor ∧
      (other.answer logOk request).2.role = (voter.answer logOk request).2.role := by
  obtain ⟨term, vote, role, leader⟩ := voter
  obtain ⟨term', vote', role', leader'⟩ := other
  cases hterm
  cases hvote
  cases hrole
  unfold answer adopt decide grants
  dsimp only
  split <;> dsimp only <;> split <;> exact ⟨rfl, rfl, rfl, rfl⟩

namespace RaftNode

variable {node : RaftNode} {request : VoteRequest} {clock : Clock} {faults : Faults}

/-- The vote is free or the candidate's. -/
theorem canVote_eq (node : RaftNode) (request : VoteRequest) :
    node.canVote request =
      (node.state.votedFor == none || node.state.votedFor == some request.candidateId) := by
  unfold canVote
  cases node.state.votedFor with
  | none => rfl
  | some voted => simp

/-- A decision whose save succeeds is the voter's. -/
theorem decideVote_eq_decide (hreal : request.isPreVote = false) (hvote : faults.saveVote = .ok) :
    ∃ after, node.decideVote clock faults request =
        (.ok ⟨(node.state.voter.decide (node.logOk faults request) request).2.currentTerm,
          (node.state.voter.decide (node.logOk faults request) request).1, false⟩, after) ∧
      after.state.voter = (node.state.voter.decide (node.logOk faults request) request).2 := by
  have hgrants : node.state.voter.grants (node.logOk faults request) request =
      (!decide (request.term < node.state.currentTerm) &&
        (node.canVote request && node.logOk faults request)) := by
    rw [canVote_eq, ← Bool.and_assoc]
    rfl
  unfold Voter.decide decideVote
  rw [hgrants]
  by_cases hstale : request.term < node.state.currentTerm
  · rw [if_pos hstale, hreal]
    exact ⟨node, by simp [hstale, NodeState.voter], by simp [hstale]⟩
  · rw [if_neg hstale]
    dsimp only
    rw [hreal]
    cases hgranted : node.canVote request && node.logOk faults request with
    | false => exact ⟨node, by simp [NodeState.voter], by simp⟩
    | true =>
      simp only [hvote, save, Bool.not_false, Bool.and_true, if_true, hstale, decide_false]
      exact ⟨_, rfl, rfl⟩

/-- On a real request from a voter, with saves that succeed, the node answers as the voter in it. -/
theorem handleVoteRequest_eq_answer (hreal : request.isPreVote = false)
    (hvoter : request.candidateId ∈ node.state.voterSet.map VoterInfo.nodeId)
    (hterm : faults.saveTerm = .ok) (hvote : faults.saveVote = .ok) (clock : Clock) :
    ∃ after, node.handleVoteRequest clock faults request =
        (.ok ⟨(node.state.voter.answer (node.logOk faults request) request).2.currentTerm,
          (node.state.voter.answer (node.logOk faults request) request).1, false⟩, after) ∧
      after.state.voter = (node.state.voter.answer (node.logOk faults request) request).2 := by
  have hmember : node.state.voterSet.any (fun voter => voter.nodeId == request.candidateId) =
      true := by
    simpa only [List.any_eq_true, beq_iff_eq, List.mem_map] using hvoter
  unfold handleVoteRequest Voter.answer Voter.adopt
  rw [if_neg (not_not.mpr hmember)]
  by_cases hlater : request.term > node.state.currentTerm
  · have hraised : request.term > node.state.voter.currentTerm := hlater
    rw [if_pos hlater, if_pos hraised]
    simp only [hterm, save]
    exact decideVote_eq_decide hreal hvote
  · have hkept : ¬ request.term > node.state.voter.currentTerm := hlater
    rw [if_neg hlater, if_neg hkept]
    exact decideVote_eq_decide hreal hvote

end RaftNode

namespace ElectionManager

variable {state : NodeState} {request : VoteRequest}

/-- Where a leader has voted, the manager refuses as the voter does. -/
theorem mustRefuse_eq (request : VoteRequest)
    (hleader : state.role = .leader → ∃ voted, state.votedFor = some voted ∧
      voted ≠ request.candidateId)
    (logOk : Bool) :
    (!mustRefuse state request && logOk) = state.voter.grants logOk request := by
  unfold mustRefuse Voter.grants NodeState.voter
  cases hvoted : state.votedFor with
  | none =>
    have hrole : (state.role == .leader) = false := by
      refine beq_eq_false_iff_ne.mpr fun hrole => ?_
      obtain ⟨voted, hsome, -⟩ := hleader hrole
      rw [hvoted] at hsome
      cases hsome
    simp [hrole]
  | some voted =>
    by_cases hcandidate : voted = request.candidateId
    · have hrole : (state.role == .leader) = false := by
        refine beq_eq_false_iff_ne.mpr fun hrole => ?_
        obtain ⟨_, hsome, hother⟩ := hleader hrole
        rw [hvoted] at hsome
        cases hsome
        exact hother hcandidate
      simp [hrole, hcandidate]
    · have hother : (voted == request.candidateId) = false := beq_eq_false_iff_ne.mpr hcandidate
      simp [hother, bne]

/-- A later term is adopted as the voter adopts it. -/
theorem maybeStepDownOnHigherTerm_voter (timers : TimerMethods) (clock : Clock) (term : ℕ)
    (state : NodeState) :
    (maybeStepDownOnHigherTerm timers clock term state).2.voter = state.voter.adopt term := by
  unfold maybeStepDownOnHigherTerm Voter.adopt
  by_cases hlater : term > state.currentTerm
  · have hraised : term > state.voter.currentTerm := hlater
    rw [if_pos hlater, if_pos hraised]
    rfl
  · have hkept : ¬ term > state.voter.currentTerm := hlater
    rw [if_neg hlater, if_neg hkept]

/-- Adopting a term leaves the log, and hence the comparison with it, alone. -/
theorem logOk_maybeStepDownOnHigherTerm (timers : TimerMethods) (clock : Clock) (term : ℕ)
    (state : NodeState) (request : VoteRequest) :
    logOk (maybeStepDownOnHigherTerm timers clock term state).2 request = logOk state request := by
  unfold maybeStepDownOnHigherTerm
  split <;> rfl

/-- A leader that steps down is no leader, and one that stays has its vote. -/
theorem maybeStepDownOnHigherTerm_leader {voted : NodeId} (timers : TimerMethods)
    (clock : Clock) (term : ℕ) (hleader : state.role = .leader → state.votedFor = some voted) :
    (maybeStepDownOnHigherTerm timers clock term state).2.role = .leader →
      (maybeStepDownOnHigherTerm timers clock term state).2.votedFor = some voted := by
  unfold maybeStepDownOnHigherTerm
  split
  · exact nofun
  · exact hleader

/-- The manager answers as the voter in the state it was given, a leader having voted for itself. -/
theorem handleVoteRequest_eq_answer
    (hleader : state.role = .leader → state.votedFor = some state.nodeId)
    (hother : request.candidateId ≠ state.nodeId) (timers : TimerMethods) (clock : Clock)
    (batch : IoActionBatch) :
    (handleVoteRequest timers clock request state batch).1.voter =
        (state.voter.answer (logOk state request) request).2 ∧
      (handleVoteRequest timers clock request state batch).2.actions.getLast? =
        some (sendVoteResponse (handleVoteRequest timers clock request state batch).1 request
          (state.voter.answer (logOk state request) request).1) := by
  have hvoter := maybeStepDownOnHigherTerm_voter timers clock request.term state
  have hlog := logOk_maybeStepDownOnHigherTerm timers clock request.term state request
  have hvoted := maybeStepDownOnHigherTerm_leader timers clock request.term hleader
  unfold handleVoteRequest Voter.answer Voter.decide
  generalize (maybeStepDownOnHigherTerm timers clock request.term state).2 =
    adopted at hvoter hlog hvoted ⊢
  have hgrants := mustRefuse_eq request
    (fun hrole => ⟨state.nodeId, hvoted hrole, hother.symm⟩) (logOk adopted request)
  dsimp only
  rw [hgrants, ← hvoter, hlog]
  split
  · exact ⟨rfl, by simp [IoActionBatch.push]⟩
  · exact ⟨rfl, by simp [IoActionBatch.push]⟩

end ElectionManager

/-- Two records of one voter, in a node and in the event loop's node state, with the same
uncompacted log. -/
structure SameVoter (node : RaftNode) (state : NodeState) : Prop where
  nodeId : state.nodeId = node.state.nodeId
  currentTerm : state.currentTerm = node.state.currentTerm
  role : state.role = node.state.role
  votedFor : state.votedFor = node.state.votedFor
  leaderVote : state.role = .leader → state.votedFor = some state.nodeId
  contiguous : node.stores.log.Contiguous
  uncompacted : node.stores.log.startOffset = 0
  logEndOffset : state.logEndOffset = node.stores.log.logEndOffset
  lastLogTerm : state.lastLogTerm = (node.stores.log.entries.getLast?.map LogEntry.term).getD 0

variable {node : RaftNode} {state : NodeState} {request : VoteRequest} {faults : Faults}

/-- On the same log both compare a candidate alike, if the last entry can be read. -/
theorem SameVoter.logOk (h : SameVoter node state) (hread : faults.entryAt = none)
    (request : VoteRequest) :
    ElectionManager.logOk state request = node.logOk faults request := by
  have hend := h.contiguous.logEndOffset_eq
  have hat := h.contiguous.entryAt_last
  rw [h.uncompacted, Nat.zero_add] at hend
  unfold ElectionManager.logOk NodeState.lastLogOffset RaftNode.logOk RaftNode.lastLogInfo
  rw [h.logEndOffset, h.lastLogTerm]
  cases hlast : node.stores.log.entries.getLast? with
  | none =>
    rw [List.getLast?_eq_none_iff] at hlast
    rw [hlast, List.length_nil] at hend
    simp only [hend, if_true]
    cases hterm : request.lastLogTerm <;> simp
  | some e =>
    have hpos := List.length_pos_of_mem (List.mem_of_getLast? hlast)
    have hne : node.stores.log.logEndOffset ≠ 0 := by omega
    rw [hlast] at hat
    simp [hat, hread, hne, Nat.pos_of_ne_zero hne]

/-- On a real request from another voter, with saves that succeed, the two handlers send the same
answer and leave the same term, vote and role, and the same leader if the term was raised or it
was the same before. -/
theorem vote_handlers_agree (h : SameVoter node state) (hreal : request.isPreVote = false)
    (hvoter : request.candidateId ∈ node.state.voterSet.map VoterInfo.nodeId)
    (hother : request.candidateId ≠ node.state.nodeId) (hterm : faults.saveTerm = .ok)
    (hvote : faults.saveVote = .ok) (hread : faults.entryAt = none) (clock managerClock : Clock)
    (timers : TimerMethods) (batch : IoActionBatch) :
    ∃ response after, node.handleVoteRequest clock faults request = (.ok response, after) ∧
      (ElectionManager.handleVoteRequest timers managerClock request state
        batch).2.actions.getLast? =
        some (.sendRpc request.candidateId
          ⟨(ElectionManager.handleVoteRequest timers managerClock request state batch).1.clusterId,
            0, (ElectionManager.handleVoteRequest timers managerClock request state batch).1.nodeId,
            .voteResponse response⟩) ∧
      (ElectionManager.handleVoteRequest timers managerClock request state batch).1.currentTerm =
        after.state.currentTerm ∧
      (ElectionManager.handleVoteRequest timers managerClock request state batch).1.votedFor =
        after.state.votedFor ∧
      (ElectionManager.handleVoteRequest timers managerClock request state batch).1.role =
        after.state.role ∧
      (request.term > node.state.currentTerm ∨ state.leaderId = node.state.leaderId →
        (ElectionManager.handleVoteRequest timers managerClock request state batch).1.leaderId =
          after.state.leaderId) := by
  have hlog := h.logOk hread request
  obtain ⟨after, hnode, hafter⟩ :=
    RaftNode.handleVoteRequest_eq_answer hreal hvoter hterm hvote clock
  obtain ⟨hmanager, hsent⟩ :=
    ElectionManager.handleVoteRequest_eq_answer h.leaderVote (h.nodeId ▸ hother) timers
      managerClock batch
  generalize ElectionManager.handleVoteRequest timers managerClock request state batch =
    managed at hmanager hsent ⊢
  rw [hlog] at hmanager hsent
  have hterms : state.voter.currentTerm = node.state.voter.currentTerm := h.currentTerm
  obtain ⟨hgranted, hcurrent, hvoted, hrole⟩ :=
    Voter.answer_congr hterms h.votedFor h.role (node.logOk faults request) request
  have hleaders := Voter.leaderId_answer (node.logOk faults request) request
  rw [← hmanager] at hcurrent hvoted hrole
  rw [← hafter] at hcurrent hvoted hrole
  refine ⟨_, after, hnode, ?_, hcurrent, hvoted, hrole, fun hleader => ?_⟩
  · have hterm : managed.1.currentTerm = after.state.voter.currentTerm := hcurrent
    rw [hsent, hgranted, ElectionManager.sendVoteResponse, hterm, hafter]
  · have hmanaged : managed.1.leaderId = _ :=
      (congrArg Voter.leaderId hmanager).trans (hleaders state.voter)
    have hnoded : after.state.leaderId = _ :=
      (congrArg Voter.leaderId hafter).trans (hleaders node.state.voter)
    rw [hmanaged, hnoded, hterms]
    rcases hleader with hraised | hsame
    · have hlater : request.term > node.state.voter.currentTerm := hraised
      rw [if_pos hlater, if_pos hlater]
    · have hleaderId : state.voter.leaderId = node.state.voter.leaderId := hsame
      rw [hleaderId]

/-- A follower of two voters with one entry of term 1. -/
def twoVoterFollower : RaftNode where
  state := { NodeState.newUnattached 1 0 with role := .follower, voterSet := [⟨1, "a"⟩, ⟨2, "b"⟩] }
  config := { nodeId := 1 }
  stores := ⟨⟨[⟨0, 1, .command, []⟩], 0⟩, none, none⟩
  bootstrapped := true
  leaderChanges := []

/-- The same follower as the event loop keeps it. -/
def twoVoterState : NodeState :=
  { NodeState.newUnattached 1 0 with
    role := .follower, voterSet := [⟨1, "a"⟩, ⟨2, "b"⟩], logEndOffset := 1, lastLogTerm := 1 }

/-- Both grant the other voter's request of term 2 and save the vote. -/
theorem vote_handlers_agree_granted : ∃ response after,
    twoVoterFollower.handleVoteRequest ⟨3, 5⟩ {} ⟨2, 2, 0, 1, false⟩ = (.ok response, after) ∧
      (ElectionManager.handleVoteRequest .given ⟨4, 5⟩ ⟨2, 2, 0, 1,
        false⟩ twoVoterState {}).2.actions.getLast? =
        some (.sendRpc 2 ⟨0, 0, 1, .voteResponse response⟩) ∧ response = ⟨2, true, false⟩ ∧
      after.state.votedFor = some 2 := by
  have hsame : SameVoter twoVoterFollower twoVoterState :=
    ⟨rfl, rfl, rfl, rfl, nofun, by decide, rfl, rfl, rfl⟩
  have hreal : (⟨2, 2, 0, 1, false⟩ : VoteRequest).isPreVote = false := rfl
  have hterm : ({} : Faults).saveTerm = .ok := rfl
  obtain ⟨response, after, hnode, hsent, -⟩ :=
    vote_handlers_agree hsame hreal (by decide) (by decide) hterm rfl rfl
      ⟨3, 5⟩ ⟨4, 5⟩ .given {}
  have heq : (Except.ok response, after) = twoVoterFollower.handleVoteRequest ⟨3, 5⟩ {} ⟨2, 2, 0, 1,
      false⟩ := hnode.symm
  cases heq
  exact ⟨_, _, hnode, hsent, rfl, rfl⟩

end XRaft
