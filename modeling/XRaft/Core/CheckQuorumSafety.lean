import XRaft.Core.EventLoop
import XRaft.Lib.Elections

/-!
# Election safety of event loops that check their quorum

Event loops with one voter list time out, check their quorum and receive messages in any
order. The network keeps every envelope and delivers any of them, any number of times, to
its addressee. Fetches, snapshots and pre-votes also come from other parts of a node, so
they may carry anything; real votes are only those that an event loop sent. A node that
stops takes no more steps, and none restarts.

Seen through its terms, votes and roles, this is an election of `Lib.Elections`: every
handler is made of moves of one member, followed by the announcement of the vote it
granted. A failed quorum check is a resignation, which keeps the term and the vote.
-/

namespace XRaft

open Lib

/-- The envelopes among some actions, with their addressees. -/
def IoActionBatch.sends (batch : IoActionBatch) : List (NodeId × RpcEnvelope) :=
  batch.actions.filterMap fun
    | .sendRpc target envelope => some (target, envelope)
    | _ => none

/-- Whether the message belongs to a real vote. -/
def RpcPayload.isRealVote : RpcPayload → Bool
  | .voteRequest request => !request.isPreVote
  | .voteResponse response => !response.isPreVote
  | _ => false

/-- The votes granted among some envelopes. -/
def granted (sent : List (NodeId × RpcEnvelope)) : Set (Ballot NodeId) :=
  { ballot | ∃ clusterId leaderEpoch, (ballot.candidate, ⟨clusterId, leaderEpoch, ballot.voter,
    .voteResponse ⟨ballot.term, true, false⟩⟩) ∈ sent }

/-- What a role means in an election. -/
def Role.standing : Role → Standing
  | .candidate => .candidate
  | .leader => .leader
  | _ => .idle

/-- The ids of some voters. -/
def voterIds (voters : List VoterInfo) : Finset NodeId := (voters.map VoterInfo.nodeId).toFinset

namespace NodeState

/-- A node as a member of an election. -/
def member (state : NodeState) : Member NodeId where
  term := state.currentTerm
  vote := state.votedFor
  standing := state.role.standing
  votes := state.votesReceived

/-- The voter-set check looks for the node among the voters' ids. -/
theorem isInVoterSet_iff (state : NodeState) (id : NodeId) :
    state.isInVoterSet id = true ↔ id ∈ voterIds state.voterSet := by
  simp [isInVoterSet, voterIds]

/-- A majority of the voter list is one of the voters' ids, even if the list repeats some. -/
theorem voterIds_majority_le (state : NodeState) :
    (voterIds state.voterSet).card / 2 + 1 ≤ state.majority := by
  have hcard : (voterIds state.voterSet).card ≤ state.voterSet.length := by
    have hle := List.toFinset_card_le (state.voterSet.map VoterInfo.nodeId)
    rw [List.length_map] at hle
    exact hle
  unfold majority voterCount
  omega

end NodeState

section Sends

/-- Envelopes of consecutive pushes. -/
@[simp] theorem sends_push (batch : IoActionBatch) (action : IoAction) :
    (batch.push action).sends = batch.sends ++ IoActionBatch.sends ⟨[action]⟩ :=
  List.filterMap_append

/-- An empty batch sends nothing. -/
@[simp] theorem sends_empty : IoActionBatch.sends {} = [] := rfl

/-- Nothing sent grants nothing. -/
@[simp] theorem granted_nil : granted [] = ∅ := by
  ext ballot
  simp [granted]

/-- Votes granted among consecutive envelopes. -/
theorem granted_append (first second : List (NodeId × RpcEnvelope)) :
    granted (first ++ second) = granted first ∪ granted second := by
  ext ballot
  simp [granted, exists_or]

/-- A vote request grants nothing. -/
theorem granted_sends_voteRequests (state : NodeState) (batch : IoActionBatch)
    (voters : List VoterInfo) :
    granted
      (voters.foldl (fun batch voter => batch.push (ElectionManager.sendVoteRequest state voter))
      batch).sends = granted batch.sends := by
  induction voters generalizing batch with
  | nil => rfl
  | cons voter rest ih =>
    rw [List.foldl_cons, ih, sends_push, granted_append]
    have hnone : granted (IoActionBatch.sends ⟨[ElectionManager.sendVoteRequest state voter]⟩) =
        ∅ := by
      ext ballot
      simp [granted, IoActionBatch.sends, ElectionManager.sendVoteRequest]
    rw [hnone, Set.union_empty]

end Sends

/-- What a handler does to its node, as moves of one member, and the votes it announces. -/
structure Acts (grants : Set (Ballot NodeId)) (before after : NodeState)
    (new : Set (Ballot NodeId)) : Prop where
  nodeId : after.nodeId = before.nodeId
  voterSet : after.voterSet = before.voterSet
  moves : Relation.ReflTransGen (Member.Move (voterIds before.voterSet) grants before.nodeId)
    before.member after.member
  announced : new ⊆ after.member.current before.nodeId

namespace Acts

variable {grants new : Set (Ballot NodeId)} {before middle after : NodeState}

/-- A change of other fields, or one move, without an announcement. -/
theorem of_moves (hid : after.nodeId = before.nodeId) (hset : after.voterSet = before.voterSet)
    (hmoves : Relation.ReflTransGen (Member.Move (voterIds before.voterSet) grants before.nodeId)
      before.member after.member) : Acts grants before after ∅ :=
  ⟨hid, hset, hmoves, Set.empty_subset _⟩

/-- Nothing the election can see changes. -/
theorem idle (hid : after.nodeId = before.nodeId) (hset : after.voterSet = before.voterSet)
    (hmember : after.member = before.member) : Acts grants before after ∅ :=
  of_moves hid hset (hmember ▸ .refl)

/-- Silent changes may come first. -/
theorem trans (h : Acts grants before middle ∅) (h' : Acts grants middle after new) :
    Acts grants before after new := by
  have hmoves := h'.moves
  have hannounced := h'.announced
  rw [h.voterSet, h.nodeId] at hmoves
  rw [h.nodeId] at hannounced
  exact ⟨h'.nodeId.trans h.nodeId, h'.voterSet.trans h.voterSet, h.moves.trans hmoves, hannounced⟩

end Acts

namespace ElectionManager

/-- Stepping down on a higher term adopts it. -/
theorem maybeStepDownOnHigherTerm_acts (grants : Set (Ballot NodeId)) (timers : TimerMethods)
    (clock : Clock) (messageTerm : ℕ) (state : NodeState) :
    Acts grants state (maybeStepDownOnHigherTerm timers clock messageTerm state).2 ∅ := by
  unfold maybeStepDownOnHigherTerm
  split
  · rename_i hterm
    exact .of_moves rfl rfl (.single (.adopt state.member messageTerm hterm))
  · exact .idle rfl rfl rfl

/-- Whoever need not refuse has not voted for another candidate. -/
theorem vote_free_of_not_mustRefuse {state : NodeState} {request : VoteRequest}
    (h : mustRefuse state request = false) :
    state.votedFor = none ∨ state.votedFor = some request.candidateId := by
  cases hvote : state.votedFor with
  | none => exact Or.inl rfl
  | some candidate =>
    simp [mustRefuse, hvote] at h
    exact Or.inr (congrArg some h.2)

/-- A vote request may raise the term; a granted one is a choice, announced to the candidate. -/
theorem handleVoteRequest_acts (grants : Set (Ballot NodeId)) (timers : TimerMethods)
    (clock : Clock) (request : VoteRequest) (state : NodeState) {batch : IoActionBatch}
    (hbatch : granted batch.sends = ∅) :
    Acts grants state (handleVoteRequest timers clock request state batch).1
      (granted (handleVoteRequest timers clock request state batch).2.sends) := by
  have hdown := maybeStepDownOnHigherTerm_acts grants timers clock request.term state
  unfold handleVoteRequest
  generalize (maybeStepDownOnHigherTerm timers clock request.term state).2 = middle at hdown ⊢
  refine hdown.trans ?_
  dsimp only
  split
  · rename_i hgrant
    obtain ⟨hrefuse, -⟩ := Bool.and_eq_true_iff.mp hgrant
    have hfree := vote_free_of_not_mustRefuse (Bool.not_eq_true' _ ▸ hrefuse)
    refine ⟨rfl, rfl, .single (.choose middle.member request.candidateId hfree), ?_⟩
    rw [sends_push, sends_push, granted_append, granted_append, hbatch]
    rintro ballot ((hnone | hpersist) | ⟨clusterId, leaderEpoch, hsent⟩)
    · exact hnone.elim
    · simp [granted, IoActionBatch.sends] at hpersist
    · simp only [IoActionBatch.sends, sendVoteResponse, List.filterMap_cons, List.filterMap_nil,
        List.mem_singleton, Prod.mk.injEq, RpcEnvelope.mk.injEq, RpcPayload.voteResponse.injEq,
        VoteResponse.mk.injEq] at hsent
      obtain ⟨hcandidate, -, -, hvoter, hterm, -⟩ := hsent
      exact ⟨hvoter, hterm, congrArg some hcandidate.symm⟩
  · have hnone : granted (batch.push (sendVoteResponse middle request false)).sends = ∅ := by
      rw [sends_push, granted_append, hbatch, Set.empty_union]
      ext ballot
      simp [granted, IoActionBatch.sends, sendVoteResponse]
    rw [hnone]
    exact .idle rfl rfl rfl

end ElectionManager

namespace EventLoop

variable {φ : Type*} (methods : QuorumMethods φ) (clock : Clock) (grants : Set (Ballot NodeId))

/-- Taking the lead with a majority is a win, and sends nothing. -/
theorem lead_acts (loop : EventLoop φ) (hstands : loop.state.role = .candidate)
    (hmajority : loop.state.majority ≤ loop.state.votesReceived.card) (batch : IoActionBatch) :
    Acts grants loop.state ((loop.becomeLeader methods clock).onBecomeLeader batch).1.state ∅ ∧
      granted ((loop.becomeLeader methods clock).onBecomeLeader batch).2.sends =
        granted batch.sends := by
  have hwin : Member.Move (voterIds loop.state.voterSet) grants loop.state.nodeId
      loop.state.member _ :=
    .win _ (congrArg Role.standing hstands) (loop.state.voterIds_majority_le.trans hmajority)
  refine ⟨.of_moves rfl rfl (.single hwin), ?_⟩
  simp [onBecomeLeader, ElectionManager.appendLeaderChangeMessage, IoActionBatch.sends,
    IoActionBatch.push]

/-- A quorum check changes nothing or resigns. -/
theorem handleCheckQuorum_acts (loop : EventLoop φ) :
    Acts grants loop.state (loop.handleCheckQuorum methods clock).1.state
      (granted (loop.handleCheckQuorum methods clock).2.sends) := by
  unfold handleCheckQuorum
  dsimp only
  split
  · rw [sends_empty, granted_nil]
    exact .idle rfl rfl rfl
  · rw [sends_push]
    change Acts _ _ _ (granted [])
    rw [granted_nil]
    exact .of_moves rfl rfl (.single (.resign loop.state.member))

/-- An election timeout of a voter stands for election, and wins it if there is no other voter. -/
theorem handleElectionTimeout_acts (loop : EventLoop φ) :
    Acts grants loop.state (loop.handleElectionTimeout methods clock).1.state
      (granted (loop.handleElectionTimeout methods clock).2.sends) := by
  unfold handleElectionTimeout
  split
  · rw [sends_empty, granted_nil]
    exact .idle rfl rfl rfl
  · rename_i hvoter
    have hmember : loop.state.nodeId ∈ voterIds loop.state.voterSet := by
      rw [← NodeState.isInVoterSet_iff]
      simpa [NodeState.isVoter] using hvoter
    have hstand : Acts grants loop.state
        (ElectionManager.startElection methods.toTimerMethods clock loop.state {}).1 ∅ :=
      .of_moves rfl rfl (.single (.stand loop.state.member hmember))
    have hsends : granted
        (ElectionManager.startElection methods.toTimerMethods clock loop.state {}).2.sends = ∅ := by
      unfold ElectionManager.startElection
      dsimp only
      rw [granted_sends_voteRequests, sends_push]
      exact granted_nil
    dsimp only
    split
    · rename_i hsole
      have hmajority :
          (loop.update (ElectionManager.startElection methods.toTimerMethods clock loop.state
            {}).1).state.majority ≤ 1 := by
        rw [NodeState.majority, hsole]
      obtain ⟨hlead, hsame⟩ := lead_acts methods clock grants
        (loop.update (ElectionManager.startElection methods.toTimerMethods clock loop.state {}).1)
        rfl hmajority
        (ElectionManager.startElection methods.toTimerMethods clock loop.state {}).2
      rw [hsame.trans hsends]
      exact hstand.trans hlead
    · rw [hsends]
      exact hstand

/-- Stepping down adopts a term or changes nothing, and sends nothing. -/
theorem stepDown_acts (envelope : RpcEnvelope) (loop : EventLoop φ) :
    Acts grants loop.state (loop.stepDown methods.toTimerMethods clock envelope).2.1.state ∅ ∧
      granted (loop.stepDown methods.toTimerMethods clock envelope).2.2.sends = ∅ := by
  unfold stepDown
  split
  · exact ⟨.idle rfl rfl rfl, granted_nil⟩
  · refine ⟨ElectionManager.maybeStepDownOnHigherTerm_acts grants methods.toTimerMethods clock
      envelope.effectiveTerm loop.state, ?_⟩
    dsimp only
    split
    · rw [sends_push]
      exact granted_nil
    · exact granted_nil

/-- A vote response is counted if it was sent to this node by a voter. -/
theorem handleVoteResponse_acts {source : NodeId} {response : VoteResponse} {loop : EventLoop φ}
    (hsent : response.voteGranted = true → response.isPreVote = false →
      ⟨source, response.term, loop.state.nodeId⟩ ∈ grants) (steppedDown : Bool)
      {batch : IoActionBatch}
    (hbatch : granted batch.sends = ∅) :
    Acts grants loop.state
      (loop.handleVoteResponse methods clock source steppedDown response batch).1.state
      (granted (loop.handleVoteResponse methods clock source steppedDown response
        batch).2.sends) := by
  have hidle : Acts grants loop.state loop.state (granted batch.sends) :=
    hbatch.symm ▸ .idle rfl rfl rfl
  unfold handleVoteResponse
  split
  · split
    · rw [hbatch]
      exact .idle rfl rfl rfl
    · exact hidle
  · rename_i hreal
    split
    · rename_i hcounts
      simp only [Bool.and_eq_true, beq_iff_eq] at hcounts
      obtain ⟨⟨⟨-, hstands⟩, hgranted⟩, hterm⟩ := hcounts
      split
      · exact hidle
      · rename_i hvoter
        have hmember : source ∈ voterIds loop.state.voterSet := by
          rw [← NodeState.isInVoterSet_iff]
          simpa using hvoter
        have hgrant : ⟨source, loop.state.currentTerm, loop.state.nodeId⟩ ∈ grants :=
          hterm ▸ hsent hgranted (Bool.eq_false_iff.mpr hreal)
        have hcount : Acts grants loop.state
            { loop.state with votesReceived := insert source loop.state.votesReceived } ∅ :=
          .of_moves rfl rfl (.single (.count loop.state.member source hmember hgrant))
        rw [ElectionManager.recordVote, if_neg (not_not.mpr hstands)]
        dsimp only
        split
        · rename_i hmajority
          obtain ⟨hlead, hsame⟩ := lead_acts methods clock grants
            (loop.update { loop.state with
              votesReceived := insert source loop.state.votesReceived })
            hstands (of_decide_eq_true hmajority) batch
          rw [hsame.trans hbatch]
          exact hcount.trans hlead
        · rw [hbatch]
          exact hcount
    · exact hidle

/-- The payload of a message moves one member, if a real vote response was sent to this node. -/
theorem dispatch_acts {envelope : RpcEnvelope} {loop : EventLoop φ}
    (hsent : ∀ response, envelope.payload = .voteResponse response → response.voteGranted = true →
      response.isPreVote = false → ⟨envelope.source, response.term, loop.state.nodeId⟩ ∈ grants)
    (steppedDown : Bool) {batch : IoActionBatch} (hbatch : granted batch.sends = ∅) :
    Acts grants loop.state (loop.dispatch methods clock envelope steppedDown batch).1.state
      (granted (loop.dispatch methods clock envelope steppedDown batch).2.sends) := by
  have hidle : Acts grants loop.state loop.state (granted batch.sends) :=
    hbatch.symm ▸ .idle rfl rfl rfl
  unfold dispatch
  split
  · rename_i request _
    split
    · have hnone : granted (ElectionManager.handlePreVoteRequest request loop.state batch).sends =
          ∅ := by
        unfold ElectionManager.handlePreVoteRequest
        rw [sends_push, granted_append, hbatch, Set.empty_union]
        ext ballot
        simp [granted, IoActionBatch.sends]
      rw [hnone]
      exact .idle rfl rfl rfl
    · exact ElectionManager.handleVoteRequest_acts grants methods.toTimerMethods clock request
        loop.state hbatch
  · rename_i response hpayload
    exact handleVoteResponse_acts methods clock grants (hsent response hpayload) steppedDown hbatch
  · split
    · exact hidle
    · exact hidle
  · exact hidle

/-- A message moves one member, if a real vote response was sent to this node. -/
theorem handleRpc_acts {envelope : RpcEnvelope} {loop : EventLoop φ}
    (hsent : ∀ response, envelope.payload = .voteResponse response → response.voteGranted = true →
      response.isPreVote = false → ⟨envelope.source, response.term, loop.state.nodeId⟩ ∈ grants) :
    Acts grants loop.state (loop.handleRpc methods clock envelope).1.state
      (granted (loop.handleRpc methods clock envelope).2.sends) := by
  unfold handleRpc
  split
  · rw [sends_empty, granted_nil]
    exact .idle rfl rfl rfl
  · obtain ⟨hdown, hbatch⟩ := stepDown_acts methods clock grants envelope loop
    rw [← hdown.nodeId] at hsent
    exact hdown.trans (dispatch_acts methods clock grants hsent _ hbatch)

end EventLoop

/-- Event loops by node id, and every envelope sent so far with its addressee. -/
structure EventLoops (φ : Type*) where
  loops : NodeId → EventLoop φ
  sent : List (NodeId × RpcEnvelope)

namespace EventLoops

variable {φ : Type*}

/-- Record the effect of a handler and hand its envelopes to the network. -/
def act (system : EventLoops φ) (i : NodeId) (outcome : EventLoop φ × IoActionBatch) :
    EventLoops φ where
  loops := Function.update system.loops i outcome.1
  sent := system.sent ++ outcome.2.sends

/-- One handler runs on one node. -/
inductive Step (methods : QuorumMethods φ) : EventLoops φ → EventLoops φ → Prop where
  | checkQuorum (system : EventLoops φ) (i : NodeId) (clock : Clock) :
      Step methods system (system.act i ((system.loops i).handleCheckQuorum methods clock))
  | electionTimeout (system : EventLoops φ) (i : NodeId) (clock : Clock) :
      Step methods system (system.act i ((system.loops i).handleElectionTimeout methods clock))
  | rpc (system : EventLoops φ) (i : NodeId) (clock : Clock) (envelope : RpcEnvelope)
      (hsent : envelope.payload.isRealVote = true → (i, envelope) ∈ system.sent) :
      Step methods system (system.act i ((system.loops i).handleRpc methods clock envelope))

/-- Finitely many handlers, in any order. -/
abbrev Run (methods : QuorumMethods φ) : EventLoops φ → EventLoops φ → Prop :=
  Relation.ReflTransGen (Step methods)

/-- Every node knows its own id and the voters. -/
def Configured (voters : List VoterInfo) (system : EventLoops φ) : Prop :=
  ∀ i, (system.loops i).state.nodeId = i ∧ (system.loops i).state.voterSet = voters

/-- Before any handler ran: nobody stands or leads, with any terms, votes and logs. -/
structure Starts (voters : List VoterInfo) (system : EventLoops φ) : Prop where
  configured : system.Configured voters
  idle : ∀ i, (system.loops i).state.role ≠ .candidate ∧ (system.loops i).state.role ≠ .leader
  silent : system.sent = []

/-- The node is leader of the term. -/
def Leads (system : EventLoops φ) (i : NodeId) (term : ℕ) : Prop :=
  (system.loops i).state.role = .leader ∧ (system.loops i).state.currentTerm = term

/-- The node is in the term and has voted for the candidate. -/
def HasVoted (system : EventLoops φ) (i : NodeId) (term : ℕ) (candidate : NodeId) : Prop :=
  (system.loops i).state.currentTerm = term ∧ (system.loops i).state.votedFor = some candidate

/-- The event loops as an election. -/
def election (system : EventLoops φ) : Election NodeId where
  members i := (system.loops i).state.member
  grants := granted system.sent

variable {methods : QuorumMethods φ} {voters : List VoterInfo} {start before after : EventLoops φ}

/-- A handler's outcome replaces one member and adds the votes it granted. -/
theorem election_act (system : EventLoops φ) (i : NodeId) (outcome : EventLoop φ × IoActionBatch) :
    (system.act i outcome).election =
      { system.election.put i outcome.1.state.member with
        grants := system.election.grants ∪ granted outcome.2.sends } := by
  unfold election act Election.put
  simp only [granted_append, Election.mk.injEq, and_true]
  funext j
  exact Function.apply_update (fun _ (loop : EventLoop φ) => loop.state.member) system.loops
    i outcome.1 j

/-- A handler made of moves is a run of the election and keeps the configuration. -/
theorem act_run (hconfigured : before.Configured voters) (i : NodeId)
    (outcome : EventLoop φ × IoActionBatch)
    (hacts : Acts (granted before.sent) (before.loops i).state outcome.1.state
      (granted outcome.2.sends)) :
    Election.Run (voterIds voters) before.election (before.act i outcome).election ∧
      (before.act i outcome).Configured voters := by
  obtain ⟨hid, hset⟩ := hconfigured i
  obtain ⟨hid', hset', hmoves, hannounced⟩ := hacts
  rw [hset, hid] at hmoves
  rw [hid] at hannounced hid'
  constructor
  · rw [election_act]
    refine (Election.Run.of_moves hmoves).tail (.announce _ _ fun ballot hballot => ?_)
    have hcurrent := hannounced hballot
    obtain rfl : ballot.voter = i := hcurrent.1
    change ballot ∈ (Function.update before.election.members ballot.voter _ ballot.voter).current _
    rw [Function.update_self]
    exact hcurrent
  · intro j
    by_cases hj : j = i
    · subst hj
      have hself : (before.act j outcome).loops j = outcome.1 := Function.update_self ..
      rw [hself]
      exact ⟨hid', hset'.trans hset⟩
    · have hother : (before.act i outcome).loops j = before.loops j := Function.update_of_ne hj ..
      rw [hother]
      exact hconfigured j

/-- Every step is a run of the election and keeps the configuration. -/
theorem Step.simulates (hstep : Step methods before after)
    (hconfigured : before.Configured voters) :
    Election.Run (voterIds voters) before.election after.election ∧ after.Configured voters := by
  cases hstep with
  | checkQuorum i clock =>
    exact act_run hconfigured i _ (EventLoop.handleCheckQuorum_acts methods clock _ _)
  | electionTimeout i clock =>
    exact act_run hconfigured i _ (EventLoop.handleElectionTimeout_acts methods clock _ _)
  | rpc i clock envelope hsent =>
    refine act_run hconfigured i _ (EventLoop.handleRpc_acts methods clock _ ?_)
    rintro ⟨term, voteGranted, isPreVote⟩ hpayload rfl rfl
    obtain ⟨clusterId, leaderEpoch, source, payload⟩ := envelope
    obtain rfl : payload = _ := hpayload
    rw [(hconfigured i).1]
    exact ⟨clusterId, leaderEpoch, hsent rfl⟩

/-- Every run is a run of the election and keeps the configuration. -/
theorem Run.simulates (hrun : Run methods before after) (hconfigured : before.Configured voters) :
    Election.Run (voterIds voters) before.election after.election ∧ after.Configured voters := by
  induction hrun with
  | refl => exact ⟨.refl, hconfigured⟩
  | tail _ hstep ih =>
    obtain ⟨hrun, hmiddle⟩ := ih
    obtain ⟨hstep, hafter⟩ := hstep.simulates hmiddle
    exact ⟨hrun.trans hstep, hafter⟩

/-- The start is a fresh election. -/
theorem Starts.fresh (h : start.Starts voters) : start.election.Fresh where
  idle i := by
    obtain ⟨hcandidate, hleader⟩ := h.idle i
    change (start.loops i).state.role.standing = .idle
    cases hrole : (start.loops i).state.role with
    | unattached => rfl
    | follower => rfl
    | candidate => exact absurd hrole hcandidate
    | leader => exact absurd hrole hleader
  silent := by
    change granted start.sent = ∅
    rw [h.silent, granted_nil]

/-- At most one node ever leads a term, and no node votes for two candidates in one term. -/
theorem one_leader_one_vote (hstart : start.Starts voters) (hrun : Run methods start before)
    (hlater : Run methods before after) :
    (∀ i j term, before.Leads i term → after.Leads j term → i = j) ∧
      ∀ i term first second, before.HasVoted i term first → after.HasVoted i term second →
        first = second := by
  obtain ⟨hrun, hconfigured⟩ := hrun.simulates hstart.configured
  obtain ⟨hlater, -⟩ := hlater.simulates hconfigured
  constructor
  · rintro i j term ⟨hfirst, hterm⟩ ⟨hsecond, hterm'⟩
    exact Election.leader_unique hstart.fresh hrun hlater (congrArg Role.standing hfirst)
      (congrArg Role.standing hsecond) (hterm.trans hterm'.symm)
  · rintro i term first second ⟨hterm, hfirst⟩ ⟨hterm', hsecond⟩
    exact Election.vote_unique hstart.fresh hrun hlater hfirst hsecond (hterm.trans hterm'.symm)

/-- Three voters that follow nobody yet. -/
def threeLoops : EventLoops (List FollowerProgress) where
  loops i :=
    let state := { NodeState.newUnattached i 0 with
      role := .follower
      voterSet := [⟨1, "a"⟩, ⟨2, "b"⟩, ⟨3, "c"⟩] }
    { state := state
      followerState := []
      checkQuorumDeadline := 0
      checkQuorumInterval := 0
      leaderChanges := []
      published := state.project }
  sent := []

/-- Node 1 leads term 1, loses its quorum and stays in the term; its vote is not for node 3 to
have. -/
theorem one_leader_one_vote_resigned :
    ∃ before after : EventLoops (List FollowerProgress), Run fetchWindow threeLoops before ∧
      before.Leads 1 1 ∧
      ((after.loops 1).state.role = .follower ∧ after.HasVoted 1 1 1) ∧
      ((after.loops 3).state.role = .candidate ∧ (after.loops 3).state.currentTerm = 1) ∧
      ∀ j, after.Leads j 1 → 1 = j := by
  have hstart : threeLoops.Starts [⟨1, "a"⟩, ⟨2, "b"⟩, ⟨3, "c"⟩] :=
    ⟨fun _ => ⟨rfl, rfl⟩, fun _ => ⟨nofun, nofun⟩, rfl⟩
  have hrun : Run fetchWindow threeLoops _ :=
    ((Relation.ReflTransGen.refl.tail (.electionTimeout _ 1 ⟨10, 150⟩)).tail
      (.rpc _ 2 ⟨11, 150⟩ ⟨0, 0, 1, .voteRequest ⟨1, 1, 0, 0, false⟩⟩ (by decide +kernel))).tail
      (.rpc _ 1 ⟨12, 150⟩ ⟨0, 0, 2, .voteResponse ⟨1, true, false⟩⟩ (by decide +kernel))
  have hsafe : ∀ {before after}, Run fetchWindow threeLoops before → Run fetchWindow before after →
      before.Leads 1 1 → ∀ j, after.Leads j 1 → 1 = j := fun hrun hlater hleads j hj =>
    (one_leader_one_vote hstart hrun hlater).1 1 j 1 hleads hj
  exact ⟨_, _, hrun, ⟨by decide +kernel, by decide +kernel⟩,
    ⟨by decide +kernel, by decide +kernel, by decide +kernel⟩,
    ⟨by decide +kernel, by decide +kernel⟩,
      hsafe hrun (((Relation.ReflTransGen.refl.tail (.checkQuorum _ 1 ⟨200, 150⟩)).tail
      (.electionTimeout _ 3 ⟨210, 150⟩)).tail
      (.rpc _ 1 ⟨211, 150⟩ ⟨0, 0, 3, .voteRequest ⟨1, 3, 0, 0, false⟩⟩ (by decide +kernel)))
      ⟨by decide +kernel, by decide +kernel⟩⟩

end EventLoops

end XRaft
