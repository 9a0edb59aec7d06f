import XRaft.Core.EventLoopRun

/-!
# A candidate with the votes of a majority is elected

The event loops of several nodes run side by side; each event is a pass of one of them,
in any order and with any other messages in between. A voter that is asked in a term in
which it may vote, by a candidate whose log is current enough for it, hands over its vote.
The candidate loses no vote that reaches it: until it leads, enters a higher term or
stops, it waits in its term with every vote that was delivered.
-/

namespace XRaft

open Lib

/-- An election: who stands, in which cluster, among which voters and in which term. -/
structure Candidacy where
  nodeId : NodeId
  clusterId : ClusterId
  voters : List VoterInfo
  term : ℕ

namespace Candidacy

variable {φ : Type*} {c : Candidacy} {counted : Finset NodeId} {loop : EventLoop φ}

/-- The election that a node starts when it times out. -/
def start (state : NodeState) : Candidacy :=
  ⟨state.nodeId, state.clusterId, state.voterSet, state.currentTerm + 1⟩

/-- The vote of a node, as its event loop sends it. -/
def vote (c : Candidacy) (voter : NodeId) : RpcEnvelope :=
  ⟨c.clusterId, 0, voter, .voteResponse ⟨c.term, true, false⟩⟩

/-- The request for votes of a node that times out, as its event loop sends it. -/
def request (state : NodeState) : VoteRequest :=
  ⟨state.currentTerm + 1, state.nodeId, state.lastLogOffset, state.lastLogTerm, false⟩

/-- The candidate went on to a higher term, or its listener was told that it leads the term. -/
def Settled (c : Candidacy) (loop : EventLoop φ) : Prop :=
  c.term < loop.state.currentTerm ∨ (c.nodeId, c.term) ∈ loop.leaderChanges

/-- The candidate stands in its term, with some votes and without a majority. -/
structure Waits (c : Candidacy) (counted : Finset NodeId) (loop : EventLoop φ) : Prop where
  nodeId : loop.state.nodeId = c.nodeId
  clusterId : loop.state.clusterId = c.clusterId
  voters : loop.state.voterSet = c.voters
  term : loop.state.currentTerm = c.term
  role : loop.state.role = .candidate
  votes : counted ⊆ loop.state.votesReceived
  short : loop.state.votesReceived.card < loop.state.majority

/-- The candidate is settled or waits. -/
def Holds (c : Candidacy) (counted : Finset NodeId) (loop : EventLoop φ) : Prop :=
  c.Settled loop ∨ c.Waits counted loop

/-- The votes after a message: one more if it is a vote of a voter. -/
def heard (c : Candidacy) (envelope : RpcEnvelope) (counted : Finset NodeId) : Finset NodeId :=
  if envelope.clusterId = c.clusterId ∧ envelope.payload = .voteResponse ⟨c.term, true, false⟩ ∧
    envelope.source ∈ voterIds c.voters then insert envelope.source counted else counted

/-- A message takes no vote away. -/
theorem subset_heard (c : Candidacy) (envelope : RpcEnvelope) (counted : Finset NodeId) :
    counted ⊆ c.heard envelope counted := by
  unfold heard
  split
  · exact Finset.subset_insert _ _
  · exact Finset.Subset.refl _

/-- Fewer votes are there as well. -/
theorem Holds.mono (h : c.Holds counted loop) {fewer : Finset NodeId} (hsub : fewer ⊆ counted) :
    c.Holds fewer loop :=
  h.imp_right fun hwaits => { hwaits with votes := hsub.trans hwaits.votes }

end Candidacy

namespace EventLoop

open Candidacy

variable {φ : Type*} {methods : QuorumMethods φ} {clock : Clock} {c : Candidacy}
  {counted : Finset NodeId} {loop : EventLoop φ}

/-- Every handler keeps a settled election settled. -/
theorem settled_handle (h : c.Settled loop) (handler : Handler) :
    c.Settled (loop.handle methods clock handler).1 := by
  have hmoves := handle_moves methods clock True (0, none) handler loop [] fun _ _ => trivial
  have hview : c.term < (view (0, none) loop []).currentTerm ∨
    (c.nodeId, c.term) ∈ (view (0, none) loop []).leaderChanges := h
  refine moves_keep (P := fun view => c.term < view.currentTerm ∨
    (c.nodeId, c.term) ∈ view.leaderChanges)
    (fun {before after} hbefore hmove => ?_) hview hmoves
  cases hmove with
  | follow term hterm => exact hbefore.imp_left fun hlt => hlt.trans hterm
  | stand => exact hbefore.imp_left fun hlt => hlt.trans (Nat.lt_succ_self _)
  | lead hstands => exact hbefore.imp_right fun htold => List.mem_append_left _ htold
  | _ => exact hbefore

/-- An election timeout stands in the next term, if the node is a voter. -/
theorem holds_handleElectionTimeout (h : c.Waits counted loop) :
    c.Holds counted (loop.handleElectionTimeout methods clock).1 := by
  unfold handleElectionTimeout
  split
  · exact Or.inr ⟨h.nodeId, h.clusterId, h.voters, h.term, h.role, h.votes, h.short⟩
  · have hterm : c.term < loop.state.currentTerm + 1 := by
      rw [h.term]
      exact Nat.lt_succ_self _
    dsimp only
    split <;> exact Or.inl (Or.inl hterm)

/-- The payload of a message lowers no term. -/
theorem currentTerm_dispatch (methods : QuorumMethods φ) (clock : Clock) (envelope : RpcEnvelope)
    (steppedDown : Bool) (loop : EventLoop φ) (batch : IoActionBatch) :
    loop.state.currentTerm ≤
      (loop.dispatch methods clock envelope steppedDown batch).1.state.currentTerm := by
  unfold dispatch
  split
  · split
    · exact le_rfl
    · unfold ElectionManager.handleVoteRequest ElectionManager.maybeStepDownOnHigherTerm
      dsimp only
      by_cases hterm : ‹VoteRequest›.term > loop.state.currentTerm
      · rw [if_pos hterm]
        split <;> exact hterm.le
      · rw [if_neg hterm]
        split <;> exact le_rfl
  · unfold handleVoteResponse
    split
    · split <;> exact le_rfl
    · split
      · rename_i hcounts
        simp only [Bool.and_eq_true, beq_iff_eq] at hcounts
        rw [ElectionManager.recordVote, if_neg (not_not.mpr hcounts.1.1.2)]
        split
        · exact le_rfl
        · dsimp only
          split <;> exact le_rfl
      · exact le_rfl
  · split <;> exact le_rfl
  · exact le_rfl

/-- A message of a higher term settles the election. -/
theorem settled_handleRpc {envelope : RpcEnvelope}
    (hcluster : envelope.clusterId = loop.state.clusterId)
    (hreal : envelope.payload.isPreVote = false)
    (hhigher : loop.state.currentTerm < envelope.effectiveTerm)
    (hterm : c.term < envelope.effectiveTerm) :
    c.Settled (loop.handleRpc methods clock envelope).1 := by
  have hdown : (loop.stepDown methods.toTimerMethods clock envelope).2.1.state.currentTerm =
      envelope.effectiveTerm := by
    unfold stepDown ElectionManager.maybeStepDownOnHigherTerm
    rw [hreal, if_neg Bool.false_ne_true, if_pos hhigher]
    rfl
  have hdispatch := currentTerm_dispatch methods clock envelope
    (loop.stepDown methods.toTimerMethods clock envelope).1
    (loop.stepDown methods.toTimerMethods clock envelope).2.1
    (loop.stepDown methods.toTimerMethods clock envelope).2.2
  unfold handleRpc
  rw [if_neg (not_not.mpr hcluster)]
  rw [hdown] at hdispatch
  exact Or.inl (hterm.trans_le hdispatch)

/-- Pre-votes and messages of no higher term do not make a node step down. -/
theorem stepDown_of_calm {envelope : RpcEnvelope}
    (hcalm : envelope.payload.isPreVote = true ∨ envelope.effectiveTerm ≤ loop.state.currentTerm) :
    loop.stepDown methods.toTimerMethods clock envelope = (false, loop, {}) := by
  unfold stepDown
  split
  · rfl
  · rename_i hreal
    have hterm := hcalm.resolve_left hreal
    rw [ElectionManager.maybeStepDownOnHigherTerm, if_neg (Nat.not_lt.mpr hterm)]
    rfl

/-- A vote of the term is counted, and leads if it makes a majority. -/
theorem holds_handleVoteResponse (h : c.Waits counted loop) {source : NodeId}
    (hsource : source ∈ voterIds c.voters) (batch : IoActionBatch) :
    c.Holds (insert source counted)
      (loop.handleVoteResponse methods clock source false ⟨c.term, true, false⟩ batch).1 := by
  have hmember : loop.state.isInVoterSet source = true := by
    rw [NodeState.isInVoterSet_iff, h.voters]
    exact hsource
  unfold handleVoteResponse
  simp only [h.role, h.term, hmember, ElectionManager.recordVote, Bool.false_eq_true, if_false,
    Bool.not_false, Bool.not_true, beq_self_eq_true, Bool.and_self, if_true, ne_eq,
    not_true_eq_false]
  split
  · refine Or.inl (Or.inr (List.mem_append_right _ ?_))
    rw [List.mem_singleton, ← h.nodeId, ← h.term]
    rfl
  · rename_i hshort
    rw [decide_eq_true_eq] at hshort
    exact Or.inr ⟨h.nodeId, h.clusterId, h.voters, rfl, rfl, Finset.insert_subset_insert _ h.votes,
      Nat.not_le.mp hshort⟩

/-- The payload of such a message leaves a candidate waiting, or is the vote it needed. -/
theorem holds_dispatch (methods : QuorumMethods φ) (clock : Clock) (h : c.Waits counted loop)
    {envelope : RpcEnvelope} (hcluster : envelope.clusterId = loop.state.clusterId)
    (hcalm : envelope.payload.isPreVote = true ∨ envelope.effectiveTerm ≤ loop.state.currentTerm)
    (batch : IoActionBatch) :
    c.Holds (c.heard envelope counted) (loop.dispatch methods clock envelope false batch).1 := by
  by_cases hvote : envelope.clusterId = c.clusterId ∧
    envelope.payload = .voteResponse ⟨c.term, true, false⟩ ∧
    envelope.source ∈ voterIds c.voters
  · rw [heard, if_pos hvote, dispatch, hvote.2.1]
    exact holds_handleVoteResponse h hvote.2.2 batch
  · rw [heard, if_neg hvote]
    unfold dispatch
    split
    · rename_i request hpayload
      split
      · exact Or.inr h
      · rename_i hreal
        have hterm : request.term ≤ loop.state.currentTerm := by
          rw [hpayload, RpcEnvelope.effectiveTerm, hpayload] at hcalm
          exact hcalm.resolve_left hreal
        unfold ElectionManager.handleVoteRequest
        rw [ElectionManager.maybeStepDownOnHigherTerm, if_neg (Nat.not_lt.mpr hterm)]
        dsimp only
        split
        · exact Or.inr ⟨h.nodeId, h.clusterId, h.voters, h.term, h.role, h.votes, h.short⟩
        · exact Or.inr h
    · rename_i response hpayload
      unfold handleVoteResponse
      split
      · split
        · exact Or.inr ⟨h.nodeId, h.clusterId, h.voters, h.term, h.role, h.votes, h.short⟩
        · exact Or.inr h
      · rename_i hreal
        split
        · rename_i hcounts
          simp only [Bool.and_eq_true, beq_iff_eq] at hcounts
          have hresponse : response = ⟨c.term, true, false⟩ := by
            rw [← h.term, ← hcounts.2, ← hcounts.1.2, ← Bool.eq_false_iff.mpr hreal]
          -- it would have been counted, had it come from a voter
          have hstranger : loop.state.isInVoterSet envelope.source = false := by
            rw [Bool.eq_false_iff, ne_eq, NodeState.isInVoterSet_iff, h.voters]
            exact fun hsource =>
              hvote ⟨hcluster.trans h.clusterId, hpayload.trans (congrArg _ hresponse), hsource⟩
          rw [hstranger]
          exact Or.inr h
        · exact Or.inr h
    · rw [if_neg (by simp [h.role])]
      exact Or.inr h
    · exact Or.inr h

/-- A message that reaches a waiting candidate settles the election or leaves it waiting, with one
more vote if it is one. -/
theorem holds_handleRpc (h : c.Waits counted loop) (envelope : RpcEnvelope) :
    c.Holds (c.heard envelope counted) (loop.handleRpc methods clock envelope).1 := by
  by_cases hcluster : envelope.clusterId = loop.state.clusterId
  · by_cases hcalm : envelope.payload.isPreVote = true ∨
      envelope.effectiveTerm ≤ loop.state.currentTerm
    · have hdispatch := holds_dispatch methods clock h hcluster hcalm {}
      unfold handleRpc
      rw [if_neg (not_not.mpr hcluster), stepDown_of_calm hcalm]
      exact hdispatch.imp_right fun hwaits =>
        ⟨hwaits.nodeId, hwaits.clusterId, hwaits.voters, hwaits.term, hwaits.role, hwaits.votes,
          hwaits.short⟩
    · obtain ⟨hreal, hhigher⟩ := not_or.mp hcalm
      rw [Nat.not_le] at hhigher
      exact Or.inl
        (settled_handleRpc hcluster (Bool.eq_false_iff.mpr hreal) hhigher (h.term ▸ hhigher))
  · have hunheard : c.heard envelope counted = counted := by
      rw [heard, if_neg]
      rintro ⟨hsame, -⟩
      exact hcluster (hsame.trans h.clusterId.symm)
    unfold handleRpc
    rw [if_pos hcluster, hunheard]
    exact Or.inr h

/-- A voter that times out stands in the next term, and leads it at once if there is no other
voter. -/
theorem holds_of_timeout (hvoter : loop.state.isVoter = true) :
    (Candidacy.start loop.state).Holds {loop.state.nodeId}
      (loop.handleElectionTimeout methods clock).1 := by
  have hpos : 0 < loop.state.voterSet.length := by
    obtain ⟨voter, hmem, -⟩ := List.any_eq_true.mp hvoter
    exact List.length_pos_of_mem hmem
  unfold handleElectionTimeout
  rw [hvoter, if_neg (by simp)]
  dsimp only
  split
  · refine Or.inl (Or.inr (List.mem_append_right _ (List.mem_singleton.mpr ?_)))
    rfl
  · rename_i hothers
    change loop.state.voterSet.length ≠ 1 at hothers
    refine Or.inr ⟨rfl, rfl, rfl, rfl, rfl, Finset.Subset.refl _, ?_⟩
    change ({loop.state.nodeId} : Finset NodeId).card < loop.state.voterSet.length / 2 + 1
    rw [Finset.card_singleton]
    omega

/-- It asks every other voter. -/
theorem requests_of_timeout (hvoter : loop.state.isVoter = true) {voter : VoterInfo}
    (hmem : voter ∈ loop.state.voterSet) (hother : voter.nodeId ≠ loop.state.nodeId) :
    .sendRpc voter.nodeId ⟨loop.state.clusterId, 0, loop.state.nodeId,
      .voteRequest (Candidacy.request loop.state)⟩ ∈
      (loop.handleElectionTimeout methods clock).2.actions := by
  have hstarted : .sendRpc voter.nodeId ⟨loop.state.clusterId, 0, loop.state.nodeId,
      .voteRequest (Candidacy.request loop.state)⟩ ∈
        (ElectionManager.startElection methods.toTimerMethods clock loop.state {}).2.actions := by
    rw [ElectionManager.actions_startElection]
    refine List.mem_cons_of_mem _ (List.mem_map.mpr ⟨voter, List.mem_filter.mpr ⟨hmem, ?_⟩, rfl⟩)
    exact decide_eq_true hother
  unfold handleElectionTimeout
  rw [hvoter, if_neg (by simp)]
  dsimp only
  split
  · exact List.mem_append_left _ (List.mem_append_left _ hstarted)
  · exact hstarted

/-- Whether the node may still vote for the candidate in the term of a request. -/
def CanVote (state : NodeState) (request : VoteRequest) : Prop :=
  state.currentTerm < request.term ∨ state.currentTerm = request.term ∧ state.role ≠ .leader ∧
    (state.votedFor = none ∨ state.votedFor = some request.candidateId)

/-- A node that may vote and finds the candidate's log current enough hands over its vote. -/
theorem vote_handleRpc {request : VoteRequest} (hreal : request.isPreVote = false)
    (hcan : CanVote loop.state request) (hlog : ElectionManager.logOk loop.state request = true)
    (leaderEpoch : ℕ) (source : NodeId) :
    .sendRpc request.candidateId ⟨loop.state.clusterId, 0, loop.state.nodeId,
        .voteResponse ⟨request.term, true, false⟩⟩ ∈
      (loop.handleRpc methods clock ⟨loop.state.clusterId, leaderEpoch, source,
        .voteRequest request⟩).2.actions := by
  have hvoted : ∀ (state : NodeState) (batch : IoActionBatch), state.nodeId = loop.state.nodeId →
      state.clusterId = loop.state.clusterId → state.currentTerm = request.term →
      ElectionManager.mustRefuse state request = false →
      ElectionManager.logOk state request = true →
      .sendRpc request.candidateId ⟨loop.state.clusterId, 0, loop.state.nodeId,
          .voteResponse ⟨request.term, true, false⟩⟩ ∈
        (ElectionManager.handleVoteRequest methods.toTimerMethods clock request state
          batch).2.actions := by
    intro state batch hnode hcluster hterm hfree hok
    unfold ElectionManager.handleVoteRequest
    rw [ElectionManager.maybeStepDownOnHigherTerm, if_neg (Nat.not_lt.mpr hterm.ge)]
    dsimp only
    rw [hfree, hok, ← hnode, ← hcluster, ← hterm]
    exact List.mem_append_right _ (List.mem_singleton.mpr rfl)
  unfold handleRpc stepDown ElectionManager.maybeStepDownOnHigherTerm dispatch RpcPayload.isPreVote
    RpcEnvelope.effectiveTerm
  simp only [hreal, ne_eq, not_true_eq_false, if_false, Bool.false_eq_true]
  rcases hcan with hlower | ⟨hsame, hrole, hfree⟩
  · rw [if_pos hlower]
    refine hvoted _ _ rfl rfl rfl ?_ hlog
    simp [ElectionManager.mustRefuse, NodeState.becomeFollower, update]
  · rw [if_neg (Nat.not_lt.mpr hsame.ge)]
    refine hvoted _ _ rfl rfl hsame ?_ hlog
    rcases hfree with hnone | hmine
    · simp [ElectionManager.mustRefuse, update, hsame, hrole, hnone]
    · simp [ElectionManager.mustRefuse, update, hsame, hrole, hmine]

namespace Session

/-- What is handed over stays so. -/
theorem mem_handed_step (methods : QuorumMethods φ) {session : Session φ} {action : IoAction}
    (h : action ∈ session.handed) (pass : Pass) : action ∈ (session.step methods pass).handed :=
  step_keeps (P := fun later => action ∈ later.handed)
    (fun _ _ _ _ (_ : True) hmem => List.mem_append_left _ hmem) (fun _ _ _ hmem => hmem) h
    ⟨trivial, fun _ _ _ _ => trivial⟩

/-- The votes after a pass: one more if a vote ended its wait. -/
def heard (c : Candidacy) (pass : Pass) (counted : Finset NodeId) : Finset NodeId :=
  match pass.wake with
  | .rpc _ envelope _ => c.heard envelope counted
  | _ => counted

/-- The loop has stopped, or the candidate is settled or waits. -/
def Holds (c : Candidacy) (counted : Finset NodeId) (session : Session φ) : Prop :=
  session.ended.isSome ∨ c.Holds counted session.loop

/-- Serving the timers leaves a waiting candidate waiting or settled. -/
theorem holds_serveTimers {session : Session φ} (h : c.Holds counted session.loop) (pass : Pass) :
    c.Holds counted (session.serveTimers methods pass).loop := by
  rcases h with hsettled | hwaits
  · exact Or.inl (serveTimers_keeps (P := fun later => c.Settled later.loop)
      (fun _ handler _ _ (_ : True) hlater => settled_handle hlater handler) hsettled trivial)
  · unfold serveTimers
    rw [if_neg (by simp [hwaits.role])]
    split
    · exact holds_handleElectionTimeout hwaits
    · exact Or.inr hwaits

/-- What follows the timers counts the vote that ends the wait. -/
theorem holds_step_of_served {session : Session φ} {pass : Pass} (hrunning : session.ended = none)
    (h : c.Holds counted (session.serveTimers methods pass).loop) :
    (session.step methods pass).Holds c (heard c pass counted) := by
  have hstep : session.step methods pass =
      if (session.serveTimers methods pass).ended.isSome then session.serveTimers methods pass
      else (session.serveTimers methods pass).wakeUp methods pass.wake := by
    rw [Session.step, hrunning, if_neg (by simp)]
  by_cases hended : (session.serveTimers methods pass).ended.isSome
  · rw [hstep, if_pos hended]
    exact Or.inl hended
  · rw [hstep, if_neg hended, heard]
    cases pass.wake with
    | rpc clock envelope io =>
      rcases h with hsettled | hwaits
      · exact Or.inr (Or.inl (settled_handle hsettled (.rpc envelope)))
      · exact Or.inr (holds_handleRpc hwaits envelope)
    | shutdown => exact Or.inl rfl
    | closed => exact Or.inl rfl
    | timer => exact Or.inr h

/-- A pass leaves a waiting candidate waiting or settled, and counts the vote that ends its wait. -/
theorem Holds.step {session : Session φ} (h : session.Holds c counted) (pass : Pass) :
    (session.step methods pass).Holds c (heard c pass counted) := by
  cases hended : session.ended with
  | some outcome =>
    have hstopped : session.ended.isSome := by simp [hended]
    rw [Session.step, if_pos hstopped]
    exact Or.inl hstopped
  | none =>
    have hloop := h.resolve_left (by simp [hended])
    exact holds_step_of_served hended (holds_serveTimers hloop pass)

/-- The timer of a follower or candidate that is due starts an election. -/
theorem serveTimers_of_due {session : Session φ} {pass : Pass}
    (hrole : session.loop.state.role = .follower ∨ session.loop.state.role = .candidate)
    (hdue : session.loop.state.electionDeadline ≤ pass.now) :
    session.serveTimers methods pass =
      session.call methods .electionTimeout pass.clock pass.io := by
  have hnot : session.loop.state.role ≠ .leader := by
    rcases hrole with hrole | hrole <;> simp [hrole]
  rw [serveTimers, if_neg hnot, if_pos ⟨hrole, hdue⟩]

/-- What the timers hand over, a pass hands over. -/
theorem mem_handed_of_served {session : Session φ} {pass : Pass} (hrunning : session.ended = none)
    {action : IoAction} (h : action ∈ (session.serveTimers methods pass).handed) :
    action ∈ (session.step methods pass).handed := by
  rw [Session.step, hrunning, if_neg (by simp)]
  dsimp only
  split
  · exact h
  · cases pass.wake with
    | rpc clock envelope io => exact List.mem_append_left _ h
    | _ => exact h

/-- A request that is handled while the node may vote makes it hand over its vote. -/
theorem vote_step {session : Session φ} {pass : Pass} {clock : Clock} {request : VoteRequest}
    {leaderEpoch : ℕ} {source : NodeId} {io : Option XraftError} (hrunning : session.ended = none)
    (hserved : (session.serveTimers methods pass).ended = none)
    (hwake : pass.wake = .rpc clock ⟨(session.serveTimers methods pass).loop.state.clusterId,
      leaderEpoch, source, .voteRequest request⟩ io) (hreal : request.isPreVote = false)
    (hcan : CanVote (session.serveTimers methods pass).loop.state request)
    (hlog : ElectionManager.logOk (session.serveTimers methods pass).loop.state request = true) :
    .sendRpc request.candidateId ⟨(session.serveTimers methods pass).loop.state.clusterId, 0,
        (session.serveTimers methods pass).loop.state.nodeId,
        .voteResponse ⟨request.term, true, false⟩⟩ ∈
      (session.step methods pass).handed := by
  rw [Session.step, hrunning, if_neg (by simp)]
  dsimp only
  rw [hserved, if_neg (by simp), hwake]
  refine List.mem_append_right _ ?_
  change _ ∈ ((session.serveTimers methods pass).loop.handleRpc methods clock _).2.actions
  exact vote_handleRpc hreal hcan hlog leaderEpoch source

/-- Fewer votes are there as well. -/
theorem Holds.mono {session : Session φ} (h : session.Holds c counted) {fewer : Finset NodeId}
    (hsub : fewer ⊆ counted) : session.Holds c fewer :=
  h.imp_right fun hloop => hloop.mono hsub

/-- A pass takes no vote away. -/
theorem Holds.kept {session : Session φ} (h : session.Holds c counted) (pass : Pass) :
    (session.step methods pass).Holds c counted := by
  refine (h.step pass).mono ?_
  unfold heard
  split
  · exact c.subset_heard _ _
  · exact Finset.Subset.refl _

/-- Nobody waits with the votes of a majority. -/
theorem settled_of_majority {session : Session φ} {votes : Finset NodeId}
    (h : ∀ voter ∈ votes, session.Holds c {voter})
    (hmajority : c.voters.length / 2 + 1 ≤ votes.card) :
    session.ended.isSome ∨ c.Settled session.loop := by
  by_contra hnot
  obtain ⟨hrunning, hunsettled⟩ := not_or.mp hnot
  have hwaits : ∀ voter ∈ votes, c.Waits {voter} session.loop := fun voter hmem =>
    ((h voter hmem).resolve_left hrunning).resolve_left hunsettled
  have hsubset : votes ⊆ session.loop.state.votesReceived := fun voter hmem =>
    Finset.singleton_subset_iff.mp (hwaits voter hmem).votes
  obtain ⟨voter, hmem⟩ := Finset.card_pos.mp (Nat.lt_of_lt_of_le (Nat.succ_pos _) hmajority)
  have hshort := (hwaits voter hmem).short
  rw [NodeState.majority, NodeState.voterCount, (hwaits voter hmem).voters] at hshort
  exact absurd (hmajority.trans (Finset.card_le_card hsubset)) (Nat.not_le.mpr hshort)

/-- A pass that serves the election timer of a voter starts an election and asks every other
voter. -/
theorem stands {session : Session φ} {pass : Pass} (methods : QuorumMethods φ)
    (hrunning : session.ended = none)
    (hrole : session.loop.state.role = .follower ∨ session.loop.state.role = .candidate)
    (hvoter : session.loop.state.isVoter = true)
    (hdue : session.loop.state.electionDeadline ≤ pass.now) :
    (session.step methods pass).Holds (Candidacy.start session.loop.state)
      {session.loop.state.nodeId} ∧
      ∀ voter ∈ session.loop.state.voterSet, voter.nodeId ≠ session.loop.state.nodeId →
        .sendRpc voter.nodeId ⟨session.loop.state.clusterId, 0, session.loop.state.nodeId,
          .voteRequest (Candidacy.request session.loop.state)⟩ ∈
          (session.step methods pass).handed := by
  have hserved : session.serveTimers methods pass = _ := serveTimers_of_due hrole hdue
  constructor
  · have hholds : (Candidacy.start session.loop.state).Holds {session.loop.state.nodeId}
        (session.serveTimers methods pass).loop := by
      rw [hserved]
      exact holds_of_timeout hvoter
    refine (holds_step_of_served hrunning hholds).mono ?_
    unfold heard
    split
    · exact Candidacy.subset_heard _ _ _
    · exact Finset.Subset.refl _
  · intro voter hmem hother
    refine mem_handed_of_served hrunning ?_
    rw [hserved]
    exact List.mem_append_right _ (requests_of_timeout hvoter hmem hother)

end Session

/-- The event loops of the nodes. -/
abbrev Sessions (φ : Type*) := NodeId → Session φ

namespace Sessions

/-- A pass of one of the loops. -/
def step (methods : QuorumMethods φ) (sessions : Sessions φ) (event : NodeId × Pass) : Sessions φ :=
  Function.update sessions event.1 ((sessions event.1).step methods event.2)

/-- Passes of the loops, in any order. -/
def run (methods : QuorumMethods φ) (sessions : Sessions φ) (events : List (NodeId × Pass)) :
    Sessions φ :=
  events.foldl (step methods) sessions

/-- What every pass of one loop keeps, a run of all of them keeps of that loop. -/
theorem run_keeps {P : Session φ → Prop}
    (hstep : ∀ session pass, P session → P (session.step methods pass))
    (i : NodeId) {sessions : Sessions φ} (h : P (sessions i)) (events : List (NodeId × Pass)) :
    P (run methods sessions events i) := by
  refine foldl_keeps (step methods) (fun sessions => P (sessions i)) ?_ h fun _ _ => trivial
  intro sessions event hsessions (_ : True)
  by_cases hi : i = event.1
  · subst hi
    change P (Function.update sessions event.1 _ event.1)
    rw [Function.update_self]
    exact hstep _ _ hsessions
  · change P (Function.update sessions event.1 _ i)
    rw [Function.update_of_ne hi]
    exact hsessions

/-- The node handles the candidate's request in a pass, while it may vote and finds the
candidate's log current. -/
structure Asks (methods : QuorumMethods φ) (candidate : NodeState) (voter : NodeId)
    (session : Session φ) (pass : Pass) : Prop where
  running : session.ended = none
  served : (session.serveTimers methods pass).ended = none
  nodeId : (session.serveTimers methods pass).loop.state.nodeId = voter
  clusterId : (session.serveTimers methods pass).loop.state.clusterId = candidate.clusterId
  wake : ∃ clock io, pass.wake =
    .rpc clock ⟨candidate.clusterId, 0, candidate.nodeId,
      .voteRequest (Candidacy.request candidate)⟩ io
  can : CanVote (session.serveTimers methods pass).loop.state (Candidacy.request candidate)
  log : ElectionManager.logOk (session.serveTimers methods pass).loop.state
    (Candidacy.request candidate) = true

/-- A voter is asked in a pass of the run, and its vote reaches the candidate in a later one. -/
inductive Exchange (methods : QuorumMethods φ) (start : Sessions φ) (candidate : NodeState)
    (voter : NodeId) : List (NodeId × Pass) → Prop where
  | mk (first second third : List (NodeId × Pass)) (asked answered : Pass)
      (hasked : Asks methods candidate voter (run methods start first voter) asked)
      (hanswered : ∃ clock io,
        answered.wake = .rpc clock ((Candidacy.start candidate).vote voter) io) :
      Exchange methods start candidate voter
        (first ++ (voter, asked) :: (second ++ (candidate.nodeId, answered) :: third))

/-- A run of all of a list goes on where a run of its first part ended. -/
theorem run_append (sessions : Sessions φ) (first second : List (NodeId × Pass)) :
    run methods sessions (first ++ second) = run methods (run methods sessions first) second :=
  List.foldl_append

/-- The loop after its own pass. -/
theorem step_self (sessions : Sessions φ) (i : NodeId) (pass : Pass) :
    step methods sessions (i, pass) i = (sessions i).step methods pass :=
  Function.update_self ..

/-- The vote of a node that was asked is handed over by the end of the run. -/
theorem Exchange.handed {start : Sessions φ} {candidate : NodeState} {voter : NodeId}
    {events : List (NodeId × Pass)} (h : Exchange methods start candidate voter events) :
    .sendRpc candidate.nodeId ((Candidacy.start candidate).vote voter) ∈
      (run methods start events voter).handed := by
  obtain ⟨first, second, third, asked, answered, hasked, hanswered⟩ := h
  obtain ⟨clock, io, hwake⟩ := hasked.wake
  rw [run_append]
  refine run_keeps
    (P := fun session => .sendRpc candidate.nodeId ((Candidacy.start candidate).vote voter) ∈
      session.handed)
    (fun session pass hmem => Session.mem_handed_step methods hmem pass) voter ?_
    (second ++ (candidate.nodeId, answered) :: third)
  rw [step_self]
  have hvote :=
    Session.vote_step hasked.running hasked.served (hasked.clusterId ▸ hwake) rfl hasked.can
      hasked.log
  rw [hasked.clusterId, hasked.nodeId] at hvote
  exact hvote

/-- A candidate that waits all the while has the vote. -/
theorem Exchange.holds {start : Sessions φ} {candidate : NodeState} {voter : NodeId}
    {events : List (NodeId × Pass)} (h : Exchange methods start candidate voter events)
    (hvoter : voter ∈ voterIds candidate.voterSet)
    (hholds : (start candidate.nodeId).Holds (Candidacy.start candidate) ∅) :
    (run methods start events candidate.nodeId).Holds (Candidacy.start candidate) {voter} := by
  obtain ⟨first, second, third, asked, answered, -, clock, io, hwake⟩ := h
  rw [List.append_cons, ← List.append_assoc, run_append]
  have hbefore : (run methods start (first ++ [(voter, asked)] ++ second) candidate.nodeId).Holds
      (Candidacy.start candidate) ∅ :=
    run_keeps (fun _ pass hsession => hsession.kept pass) candidate.nodeId hholds _
  refine run_keeps (fun _ pass hsession => hsession.kept pass) candidate.nodeId ?_ third
  rw [step_self]
  have hheard : Session.heard (Candidacy.start candidate) answered ∅ = {voter} := by
    rw [Session.heard, hwake]
    exact if_pos ⟨rfl, rfl, hvoter⟩
  rw [← hheard]
  exact hbefore.step answered

/-- In whatever order the loops run and whatever else they receive, a voter that times out is
elected, unless it enters a higher term or stops, once it has the votes of a majority; each of
them was handed over when the voter was asked. -/
theorem candidate_elected (methods : QuorumMethods φ) (start : Sessions φ) (i : NodeId)
    (timeout : Pass) (events : List (NodeId × Pass)) (hnode : (start i).loop.state.nodeId = i)
    (hrunning : (start i).ended = none)
    (hrole : (start i).loop.state.role = .follower ∨ (start i).loop.state.role = .candidate)
    (hvoter : (start i).loop.state.isVoter = true)
    (hdue : (start i).loop.state.electionDeadline ≤ timeout.now) (voters : Finset NodeId)
    (hvoters : voters ⊆ voterIds (start i).loop.state.voterSet)
    (hmajority : (start i).loop.state.majority ≤ (insert i voters).card)
    (hexchange : ∀ j ∈ voters,
      Exchange methods (step methods start (i, timeout)) (start i).loop.state j events) :
    (∀ voter ∈ (start i).loop.state.voterSet, voter.nodeId ≠ i →
      .sendRpc voter.nodeId ⟨(start i).loop.state.clusterId, 0, i,
        .voteRequest (Candidacy.request (start i).loop.state)⟩ ∈
        (run methods start ((i, timeout) :: events) i).handed) ∧
    (∀ j ∈ voters, .sendRpc i ((Candidacy.start (start i).loop.state).vote j) ∈
      (run methods start ((i, timeout) :: events) j).handed) ∧
    ((run methods start ((i, timeout) :: events) i).ended.isSome ∨
      (start i).loop.state.currentTerm + 1 <
        (run methods start ((i, timeout) :: events) i).loop.state.currentTerm ∨
      (i, (start i).loop.state.currentTerm + 1) ∈
        (run methods start ((i, timeout) :: events) i).loop.leaderChanges) := by
  obtain ⟨hholds, hasked⟩ := Session.stands methods hrunning hrole hvoter hdue
  rw [← step_self, hnode] at hholds
  rw [hnode] at hasked
  refine ⟨fun voter hmem hother => ?_, fun j hj => ?_, ?_⟩
  · refine run_keeps (P := fun session => _ ∈ session.handed)
      (fun session pass hsent => Session.mem_handed_step methods hsent pass) i ?_ events
    rw [step_self]
    exact hasked voter hmem hother
  · have hhanded := (hexchange j hj).handed
    rw [hnode] at hhanded
    exact hhanded
  · have hvotes : ∀ j ∈ insert i voters, (run methods start ((i, timeout) :: events) i).Holds
        (Candidacy.start (start i).loop.state) {j} := by
      refine (Finset.forall_mem_insert _ _ _).mpr ⟨?_, fun j hj => ?_⟩
      · exact run_keeps (fun _ pass hsession => hsession.kept pass) i hholds events
      · have hone := (hexchange j hj).holds (hvoters hj)
        rw [hnode] at hone
        exact hone (hholds.mono (Finset.empty_subset _))
    have hsettled := Session.settled_of_majority hvotes hmajority
    rw [Candidacy.Settled, Candidacy.start, hnode] at hsettled
    exact hsettled

/-- Three voters, of which node 1 times out first. -/
def threeSessions : Sessions (List FollowerProgress) := fun i =>
  let loop := EventLoops.threeLoops.loops i
  .begin (loop.update { loop.state with electionDeadline := 100 * i })

/-- A pass whose I/O succeeds. -/
def calmPass (now : ℕ) (wake : Wake) : Pass := ⟨now, ⟨now, 150⟩, none, wake⟩

/-- Node 2 is asked for its vote. -/
def askPass : Pass :=
  calmPass 111 (.rpc ⟨111, 150⟩ ⟨0, 0, 1, .voteRequest ⟨1, 1, 0, 0, false⟩⟩ none)

/-- The vote of node 2 arrives. -/
def votePass : Pass := calmPass 112 (.rpc ⟨112, 150⟩ ⟨0, 0, 2, .voteResponse ⟨1, true, false⟩⟩ none)

/-- Node 1 times out, node 2 is asked, and its vote arrives. -/
def electionRun : List (NodeId × Pass) := [(1, calmPass 110 .timer), (2, askPass), (1, votePass)]

/-- With the vote of node 2, node 1 is elected. -/
theorem candidate_elected_three :
    (run fetchWindow threeSessions electionRun 1).ended.isSome = false ∧
      (run fetchWindow threeSessions electionRun 1).loop.state.currentTerm = 1 ∧
      (1, 1) ∈ (run fetchWindow threeSessions electionRun 1).loop.leaderChanges := by
  obtain ⟨-, -, helected⟩ := candidate_elected fetchWindow threeSessions 1 (calmPass 110 .timer)
    [(2, askPass), (1, votePass)] rfl rfl (Or.inl rfl) rfl (by decide) {2} (by decide +kernel)
    (by decide +kernel)
    fun j hj => by
      obtain rfl := Finset.mem_singleton.mp hj
      exact .mk [] [] [] askPass votePass
        ⟨rfl, rfl, rfl, rfl, ⟨_, _, rfl⟩, Or.inl (by decide +kernel), by decide +kernel⟩ ⟨_, _, rfl⟩
  have hrunning : (run fetchWindow threeSessions electionRun 1).ended.isSome = false := by
    decide +kernel
  have hterm : (run fetchWindow threeSessions electionRun 1).loop.state.currentTerm = 1 := by
    decide +kernel
  rw [← electionRun, hterm, hrunning] at helected
  exact ⟨hrunning, hterm, (helected.resolve_left (by simp)).resolve_left (by decide +kernel)⟩

end Sessions

end EventLoop

end XRaft
