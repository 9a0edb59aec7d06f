import XRaft.Core.ElectionInvariant

/-!
# Every method of a node keeps the election invariant

One lemma for each method of `raft_node.rs` that touches terms, votes or roles. A
method casts at most one ballot, at the save that makes its vote durable; whatever it
sends afterwards is justified by the ballots cast up to then. The methods are reduced to
the moves of an abstract voter first, so that the arguments about terms and saved votes
are those of the ballot library.
-/

namespace XRaft

open Lib

variable {d : Deployment} {ballots : Set (Ballot NodeId)} {i : NodeId} {node : RaftNode}

/-- Becoming candidate is a move to the next term with a vote for oneself. -/
theorem voter_becomeCandidate (h : node.state.currentTerm + 1 < 2 ^ 64) :
    node.becomeCandidate.voter =
      (node.voter.advance (node.state.currentTerm + 1)).choose node.state.nodeId := by
  rw [RaftNode.voter, RaftNode.currentTerm_becomeCandidate h]
  rfl

/-- Stepping down is a move to the message's term. -/
theorem voter_stepDown (node : RaftNode) (clock : Clock) (term : ℕ) :
    (node.stepDown clock term).voter = node.voter.advance term := rfl

/-- Saving the current vote is persisting the voter. -/
theorem voter_storeQuorumState (node : RaftNode) :
    (node.storeQuorumState (node.quorumState node.state.votedFor)).voter = node.voter.persist := rfl

/-- A save either leaves the node alone or stores the quorum state; it stores it when it
succeeds. -/
theorem save_cases (node : RaftNode) (outcome : SaveOutcome) (qs : QuorumState) :
    (node.save outcome qs = (.ok (), node.storeQuorumState qs)) ∨
      ∃ e, node.save outcome qs = (.error e, node) ∨
        node.save outcome qs = (.error e, node.storeQuorumState qs) := by
  cases outcome with
  | ok => exact Or.inl rfl
  | failed reason => exact Or.inr ⟨_, Or.inl rfl⟩
  | failedAfterWrite reason => exact Or.inr ⟨_, Or.inr rfl⟩

/-- The log after `becomeLeader` has old entries, a leader change and the voter set's own record. -/
theorem becomeLeader_cases (codec : VotersCodec) (faults : Faults) (node : RaftNode) :
    ∃ log : LogStore,
      (∀ e ∈ log.entries, e ∈ node.stores.log.entries ∨ e.entryType = .leaderChangeMessage ∨
        codec.serialize ⟨1, node.state.voterSet⟩ = .ok e.payload) ∧
      ((node.becomeLeader codec faults).2 = node.storeLog log ∨
        (node.becomeLeader codec faults).2 = (node.storeLog log).enterLeaderRole) := by
  unfold RaftNode.becomeLeader
  dsimp only
  set record : LogEntry :=
    ⟨node.stores.log.logEndOffset, node.state.currentTerm, .leaderChangeMessage, []⟩ with hrecord
  have hold : ∀ e ∈ (node.stores.log.append [record]).entries,
      e ∈ node.stores.log.entries ∨ e.entryType = .leaderChangeMessage ∨
        codec.serialize ⟨1, node.state.voterSet⟩ = .ok e.payload := by
    intro e he
    rcases List.mem_append.mp he with he | he
    · exact Or.inl he
    · rw [List.mem_singleton] at he
      exact Or.inr (Or.inl (by rw [he]))
  cases faults.appendLeaderChange with
  | some reason => exact ⟨node.stores.log, fun e he => Or.inl he, Or.inl rfl⟩
  | none =>
    dsimp only
    split
    · cases hserialize : codec.serialize ⟨1, node.state.voterSet⟩ with
      | error reason =>
        exact ⟨_, fun e he => (hold e he).imp_right fun h => h.imp_right (by simp [hserialize]),
          Or.inl rfl⟩
      | ok payload =>
        cases faults.appendVoters with
        | some reason =>
          cases faults.rollback with
          | some _ => exact ⟨_, hserialize ▸ hold, Or.inl rfl⟩
          | none =>
            exact ⟨_, fun e he =>
              hserialize ▸ hold e (LogStore.mem_entries_of_mem_truncateSuffix he), Or.inl rfl⟩
        | none =>
          refine ⟨_, fun e he => ?_, Or.inr rfl⟩
          rcases List.mem_append.mp he with he | he
          · exact hserialize ▸ hold e he
          · rw [List.mem_singleton] at he
            exact Or.inr (Or.inr (by rw [he]))
    · exact ⟨_, hold, Or.inr rfl⟩

/-- The stores after `becomeLeader` name no other voters than before. -/
theorem StoresInv.grown {stores : Stores} (h : StoresInv d i stores) {voterSet : List VoterInfo}
    (hvoters : voterSet = d.voters ∧ d.Admits i) {log : LogStore}
    (hlog : ∀ e ∈ log.entries, e ∈ stores.log.entries ∨ e.entryType = .leaderChangeMessage ∨
      d.codec.serialize ⟨1, voterSet⟩ = .ok e.payload) :
    StoresInv d i { stores with log := log } where
  snapshot := h.snapshot
  voters e he htype record hrecord := by
    rcases hlog e he with hold | hleader | hown
    · exact h.voters e hold htype record hrecord
    · rw [hleader] at htype
      cases htype
    · rw [d.codec.deserialize_serialize _ _ hown] at hrecord
      cases hrecord
      exact hvoters

/-- A candidate elected by the ballots may take the leader role. -/
theorem NodeInv.becomeLeader (h : NodeInv d ballots i node) (faults : Faults)
    (hvoters : node.state.voterSet = d.voters ∧ d.Admits i)
    (helected : Elected d.electorate ballots node.state.currentTerm i) :
    NodeInv d ballots i (node.becomeLeader d.codec faults).2 := by
  obtain ⟨log, hlog, hnode⟩ := becomeLeader_cases d.codec faults node
  have hstores : StoresInv d i { node.stores with log := log } := h.stores.grown hvoters hlog
  rcases hnode with hnode | hnode
  · rw [hnode]
    exact ⟨h.nodeId, h.voterSet, hstores, h.voter, h.votes, h.elected⟩
  · rw [hnode]
    refine ⟨h.nodeId, h.voterSet, hstores, h.voter, fun hrole => ?_, fun _ => helected⟩
    cases hrole

/-- A nonempty voter set is the deployment's. -/
theorem NodeInv.voters_of_any (h : NodeInv d ballots i node) {p : VoterInfo → Bool}
    (hany : node.state.voterSet.any p = true) : node.state.voterSet = d.voters ∧ d.Admits i := by
  rcases h.voterSet with hempty | hvoters
  · simp [hempty] at hany
  · exact hvoters

/-- A quorum of counted votes, each of them a ballot, elects the node. -/
theorem NodeInv.elected_of_hasQuorum (h : NodeInv d ballots i node)
    (hquorum : node.hasQuorum = true) (hvotes : ∀ x ∈ node.state.votesReceived,
      ⟨x, node.state.currentTerm, i⟩ ∈ ballots ∧ (x = i ∨ x ∈ d.electorate)) :
    (node.state.voterSet = d.voters ∧ d.Admits i) ∧
      Elected d.electorate ballots node.state.currentTerm i := by
  have hvoters : node.state.voterSet = d.voters ∧ d.Admits i := by
    rcases h.voterSet with hempty | hvoters
    · simp [RaftNode.hasQuorum, hempty] at hquorum
    · exact hvoters
  obtain ⟨hset, hnodup, hself⟩ := hvoters
  refine ⟨⟨hset, hnodup, hself⟩, node.state.votesReceived, fun x hx => ?_, ?_,
    fun x hx => (hvotes x hx).1⟩
  · rcases (hvotes x hx).2 with rfl | hmem
    · exact hself
    · exact hmem
  · have hcard : d.electorate.card = node.state.voterSet.length := by
      rw [Deployment.electorate, List.toFinset_card_of_nodup hnodup, List.length_map, hset]
    unfold RaftNode.hasQuorum at hquorum
    split at hquorum
    · cases hquorum
    · rw [hcard]
      simpa using hquorum

/-- Saving the current vote keeps the invariant. -/
theorem NodeInv.store (h : NodeInv d ballots i node) :
    NodeInv d ballots i (node.storeQuorumState (node.quorumState node.state.votedFor)) :=
  ⟨h.nodeId, h.voterSet, ⟨h.stores.snapshot, h.stores.voters⟩,
    voter_storeQuorumState node ▸ h.voter.persist, h.votes, h.elected⟩

/-- Once the current vote is saved it is a ballot. -/
theorem NodeInv.cast (hb : BallotsInv ballots) (h : NodeInv d ballots i node) {candidate : NodeId}
    (hvote : node.state.votedFor = some candidate)
    (hself : candidate = i ∨ ⟨candidate, node.state.currentTerm, candidate⟩ ∈ ballots) :
    let later := insert ⟨i, node.state.currentTerm, candidate⟩ ballots
    BallotsInv later ∧ Extends i ballots later ∧
      NodeInv d later i (node.storeQuorumState (node.quorumState node.state.votedFor)) := by
  intro later
  have hgrow : ballots ⊆ later := Set.subset_insert _ _
  have hone : OneVotePerTerm later := by
    refine hb.one.insert _ fun other hother => ?_
    have hsame : node.state.votedFor = some other := h.voter.agrees hother
    rw [hvote, Option.some.injEq] at hsame
    exact hsame.symm
  refine ⟨⟨hone, ?_⟩, ⟨hgrow, ?_⟩, ?_⟩
  · rintro voter term other (hnew | hold)
    · simp only [Ballot.mk.injEq] at hnew
      obtain ⟨rfl, rfl, rfl⟩ := hnew
      rcases hself with rfl | hself
      · exact Set.mem_insert _ _
      · exact hgrow hself
    · exact hgrow (hb.self voter term other hold)
  · rintro ballot (hnew | hold)
    · exact Or.inr (by rw [hnew])
    · exact Or.inl hold
  · have hstored := h.store
    refine ⟨h.nodeId, h.voterSet, hstored.stores, ?_, fun hrole x hx => ?_, fun hrole => ?_⟩
    · rw [voter_storeQuorumState]
      exact h.voter.persist.cast hvote
    · exact (h.votes hrole x hx).imp_right fun hx => ⟨hgrow hx.1, hx.2⟩
    · exact (h.elected hrole).mono hgrow

/-- The candidate's own vote keeps the invariant before it is saved. -/
theorem NodeInv.becomeCandidate (h : NodeInv d ballots i node)
    (hterm : node.state.currentTerm + 1 < 2 ^ 64) :
    NodeInv d ballots i node.becomeCandidate where
  nodeId := h.nodeId
  voterSet := h.voterSet
  stores := h.stores
  voter := voter_becomeCandidate hterm ▸
    (h.voter.advance (Nat.lt_succ_self node.state.currentTerm)).choose (Or.inl rfl)
  votes _ x hx := Or.inl ((Finset.mem_singleton.mp hx).trans h.nodeId)
  elected hrole := by cases hrole

/-- Adopting a later term keeps the invariant. -/
theorem NodeInv.stepDown (h : NodeInv d ballots i node) (clock : Clock) {term : ℕ}
    (hterm : node.state.currentTerm < term) : NodeInv d ballots i (node.stepDown clock term) where
  nodeId := h.nodeId
  voterSet := h.voterSet
  stores := h.stores
  voter := voter_stepDown node clock term ▸ h.voter.advance hterm
  votes hrole := by cases hrole
  elected hrole := by cases hrole

/-- Restarting the election timer keeps the invariant. -/
theorem NodeInv.resetElectionTimer (h : NodeInv d ballots i node) (clock : Clock) :
    NodeInv d ballots i (node.resetElectionTimer clock) :=
  ⟨h.nodeId, h.voterSet, h.stores, h.voter, h.votes, h.elected⟩

/-- The broadcast requests of a candidate follow its own ballot. -/
theorem broadcastVoteRequests_justified (faults : Faults) (node : RaftNode)
    (hballot : ⟨node.state.nodeId, node.state.currentTerm, node.state.nodeId⟩ ∈ ballots) :
    ∀ message ∈ node.broadcastVoteRequests faults, Justified ballots message := by
  intro message hmessage
  obtain ⟨voter, -, rfl⟩ := List.mem_map.mp hmessage
  exact ⟨rfl, rfl, hballot⟩

/-- An election timeout is sound, whether the save fails or a single voter wins at once. -/
theorem handleElectionTimeout_sound (hb : BallotsInv ballots) (h : NodeInv d ballots i node)
    (hterm : node.state.currentTerm + 1 < 2 ^ 64) (clock : Clock) (faults : Faults) :
    Sound d ballots i (node.handleElectionTimeout d.codec clock faults).node
      (node.handleElectionTimeout d.codec clock faults).sent := by
  unfold RaftNode.handleElectionTimeout
  split
  · exact Sound.silent hb h
  · have hcandidate := h.becomeCandidate hterm
    dsimp only
    rcases save_cases node.becomeCandidate faults.saveVote
      (node.becomeCandidate.quorumState node.becomeCandidate.state.votedFor) with
      hsave | ⟨e, hsave | hsave⟩
    · rw [hsave]
      dsimp only
      have hvote : node.becomeCandidate.state.votedFor = some i := congrArg some h.nodeId
      obtain ⟨hlater, hext, hstored⟩ := hcandidate.cast hb hvote (Or.inl rfl)
      split
      · rename_i hquorum
        have hcast :=
          Set.mem_insert (⟨i, node.becomeCandidate.state.currentTerm, i⟩ : Ballot NodeId) ballots
        obtain ⟨hvoters, helected⟩ := hstored.elected_of_hasQuorum hquorum fun x hx => by
          have hx : x = i := (Finset.mem_singleton.mp hx).trans h.nodeId
          rw [hx]
          exact ⟨hcast, Or.inl rfl⟩
        exact ⟨_, hlater, hext, hstored.becomeLeader faults hvoters helected, by simp⟩
      · refine ⟨_, hlater, hext, hstored.resetElectionTimer clock, ?_⟩
        apply broadcastVoteRequests_justified
        rw [hstored.nodeId]
        exact Set.mem_insert _ _
    · rw [hsave]
      exact Sound.silent hb hcandidate
    · rw [hsave]
      exact Sound.silent hb hcandidate.store

/-- A tick is sound. -/
theorem tick_sound (hb : BallotsInv ballots) (h : NodeInv d ballots i node)
    (hterm : node.state.currentTerm + 1 < 2 ^ 64) (clock : Clock) (faults : Faults) :
    Sound d ballots i (node.tick d.codec clock faults).node
      (node.tick d.codec clock faults).sent := by
  unfold RaftNode.tick
  split
  · exact handleElectionTimeout_sound hb h hterm clock faults
  · exact Sound.silent hb h

/-- Deciding a vote keeps the invariant, and a granted answer follows the voter's ballot. -/
def VoteSound (d : Deployment) (ballots : Set (Ballot NodeId)) (i candidate : NodeId)
    (decision : Except XraftError VoteResponse × RaftNode) : Prop :=
  ∃ later, BallotsInv later ∧ Extends i ballots later ∧ NodeInv d later i decision.2 ∧
    ∀ response, decision.1 = .ok response → response.voteGranted = true →
      ⟨i, response.term, candidate⟩ ∈ later

/-- A decision that casts no ballot grants nothing. -/
theorem VoteSound.silent (hb : BallotsInv ballots) {candidate : NodeId}
    {decision : Except XraftError VoteResponse × RaftNode} (h : NodeInv d ballots i decision.2)
    (hrefuse : ∀ response, decision.1 = .ok response → response.voteGranted = false) :
    VoteSound d ballots i candidate decision := by
  refine ⟨ballots, hb, Extends.refl i ballots, h, fun response hresponse hgranted => ?_⟩
  rw [hrefuse response hresponse] at hgranted
  cases hgranted

/-- Choosing a candidate keeps the invariant while nothing else was chosen in this term. -/
theorem NodeInv.choose (h : NodeInv d ballots i node) {candidate : NodeId}
    (hfree : node.state.votedFor = none ∨ node.state.votedFor = some candidate) :
    NodeInv d ballots i { node with state := { node.state with votedFor := some candidate } } :=
  ⟨h.nodeId, h.voterSet, h.stores, h.voter.choose hfree, h.votes, h.elected⟩

/-- The decision on a real vote request is sound once its term has been adopted. -/
theorem decideVote_sound (hb : BallotsInv ballots) (h : NodeInv d ballots i node) (clock : Clock)
    (faults : Faults) (request : VoteRequest) (hreal : request.isPreVote = false)
    (hself : ⟨request.candidateId, request.term, request.candidateId⟩ ∈ ballots)
    (hterm : request.term ≤ node.state.currentTerm) :
    VoteSound d ballots i request.candidateId (node.decideVote clock faults request) := by
  unfold RaftNode.decideVote
  split
  · exact VoteSound.silent hb h (by simp)
  · rename_i hstale
    have hcurrent : request.term = node.state.currentTerm := by omega
    dsimp only
    split
    · rename_i hgranted
      simp only [hreal, Bool.not_false, Bool.and_true, Bool.and_eq_true] at hgranted
      have hfree : node.state.votedFor = none ∨ node.state.votedFor = some request.candidateId := by
        have hcan := hgranted.1
        unfold RaftNode.canVote at hcan
        cases hvoted : node.state.votedFor with
        | none => exact Or.inl rfl
        | some voted =>
          simp only [hvoted] at hcan
          exact Or.inr (congrArg some (beq_iff_eq.mp hcan))
      have hchosen := h.choose hfree
      rcases save_cases
        { node with state := { node.state with votedFor := some request.candidateId } }
        faults.saveVote _ with hsave | ⟨e, hsave | hsave⟩
      · rw [hsave]
        obtain ⟨hlater, hext, hstored⟩ := hchosen.cast hb rfl (Or.inr (hcurrent ▸ hself))
        refine ⟨_, hlater, hext, hstored.resetElectionTimer clock, fun response hresponse _ => ?_⟩
        simp only [Except.ok.injEq] at hresponse
        rw [← hresponse]
        exact Set.mem_insert _ _
      · rw [hsave]
        exact VoteSound.silent hb hchosen (by simp)
      · rw [hsave]
        exact VoteSound.silent hb hchosen.store (by simp)
    · rename_i hrefused
      refine VoteSound.silent hb h fun response hresponse => ?_
      simp only [Except.ok.injEq] at hresponse
      rw [← hresponse]
      simpa [hreal] using hrefused

/-- Handling a real vote request is sound. -/
theorem handleVoteRequest_sound (hb : BallotsInv ballots) (h : NodeInv d ballots i node)
    (clock : Clock) (faults : Faults) (request : VoteRequest) (hreal : request.isPreVote = false)
    (hself : ⟨request.candidateId, request.term, request.candidateId⟩ ∈ ballots) :
    VoteSound d ballots i request.candidateId (node.handleVoteRequest clock faults request) := by
  unfold RaftNode.handleVoteRequest
  split
  · exact VoteSound.silent hb h (by simp)
  · split
    · rename_i hhigher
      have hdown := h.stepDown clock hhigher
      dsimp only
      rcases save_cases (node.stepDown clock request.term) faults.saveTerm
        ((node.stepDown clock request.term).quorumState none) with hsave | ⟨e, hsave | hsave⟩
      · rw [hsave]
        exact decideVote_sound hb hdown.store clock faults request hreal hself le_rfl
      · rw [hsave]
        exact VoteSound.silent hb hdown (by simp)
      · rw [hsave]
        exact VoteSound.silent hb hdown.store (by simp)
    · rename_i hhigher
      exact decideVote_sound hb h clock faults request hreal hself (Nat.le_of_not_lt hhigher)

/-- Handling a vote response is sound when a granted one follows its sender's ballot. -/
theorem handleVoteResponse_inv (hb : BallotsInv ballots) (h : NodeInv d ballots i node)
    (clock : Clock) (faults : Faults) (source : NodeId) (response : VoteResponse)
    (hballot : response.voteGranted = true → ⟨source, response.term, i⟩ ∈ ballots) :
    NodeInv d ballots i (node.handleVoteResponse d.codec clock faults source response).2 := by
  unfold RaftNode.handleVoteResponse
  split
  · rename_i hhigher
    have hdown := h.stepDown clock hhigher
    dsimp only
    rcases save_cases (node.stepDown clock response.term) faults.saveTerm
      ((node.stepDown clock response.term).quorumState none) with hsave | ⟨e, hsave | hsave⟩
    · rw [hsave]
      exact hdown.store
    · rw [hsave]
      exact hdown
    · rw [hsave]
      exact hdown.store
  · split
    · exact h
    · rename_i hcurrent
      push Not at hcurrent
      obtain ⟨hrole, hterm⟩ := hcurrent
      split
      · exact h
      · split
        · exact h
        · rename_i hvoter
          rw [not_not] at hvoter
          split
          · rename_i hgranted
            have hvote : ⟨source, node.state.currentTerm, i⟩ ∈ ballots := hterm ▸ hballot hgranted
            have hmember : source ∈ d.electorate := by
              obtain ⟨voter, hmem, hid⟩ := List.any_eq_true.mp hvoter
              rw [(h.voters_of_any hvoter).1] at hmem
              rw [Deployment.electorate, List.mem_toFinset]
              exact List.mem_map.mpr ⟨voter, hmem, beq_iff_eq.mp hid⟩
            have hcounted : NodeInv d ballots i { node with state := { node.state with
                votesReceived := insert source node.state.votesReceived } } := by
              refine ⟨h.nodeId, h.voterSet, h.stores, h.voter, fun _ x hx => ?_, h.elected⟩
              rcases Finset.mem_insert.mp hx with rfl | hx
              · exact Or.inr ⟨hvote, hmember⟩
              · exact h.votes hrole x hx
            dsimp only
            split
            · rename_i hquorum
              obtain ⟨hvoters, helected⟩ := hcounted.elected_of_hasQuorum hquorum fun x hx => by
                rcases hcounted.votes hrole x hx with rfl | hx
                · exact ⟨hb.self _ _ _ hvote, Or.inl rfl⟩
                · exact ⟨hx.1, Or.inr hx.2⟩
              exact hcounted.becomeLeader faults hvoters helected
            · exact hcounted
          · exact h

/-- Handling an envelope whose content is justified is sound. -/
theorem handleRpc_sound (hb : BallotsInv ballots) (h : NodeInv d ballots i node) (clock : Clock)
    (faults : Faults) (envelope : RpcEnvelope) (hjustified : Justified ballots (i, envelope)) :
    Sound d ballots i (node.handleRpc d.codec clock faults envelope).node
      (node.handleRpc d.codec clock faults envelope).sent := by
  obtain ⟨clusterId, leaderEpoch, source, payload⟩ := envelope
  unfold RaftNode.handleRpc
  split
  · exact Sound.silent hb h
  · cases payload with
    | voteRequest request =>
      obtain ⟨hreal, hsource, hself⟩ := hjustified
      change request.candidateId = source at hsource
      subst hsource
      obtain ⟨later, hlater, hext, hnode, hgranted⟩ :=
        handleVoteRequest_sound hb h clock faults request hreal hself
      dsimp only
      cases hdecision : node.handleVoteRequest clock faults request with
      | mk result node' =>
        rw [hdecision] at hnode hgranted
        cases result with
        | error e => exact ⟨later, hlater, hext, hnode, by simp⟩
        | ok response =>
          have hreply : Justified later (request.candidateId,
              ⟨node'.state.clusterId, 0, node'.state.nodeId,
              .voteResponse response⟩) := by
            intro hyes
            have hballot := hgranted response rfl hyes
            rw [← hnode.nodeId] at hballot
            exact hballot
          dsimp only
          cases faults.send <;> exact ⟨later, hlater, hext, hnode, by simpa using hreply⟩
    | voteResponse response =>
      exact Sound.silent hb (handleVoteResponse_inv hb h clock faults source response hjustified)
    | _ => exact Sound.silent hb h

end XRaft
