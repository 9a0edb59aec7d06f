import XRaft.Core.NodeRun
import XRaft.Core.Recovery

/-!
# Who elects a leader

A node counts its own vote whenever it starts an election and never asks whether it is a
voter itself; it asks so of everyone else. The votes of a leader are therefore those of a
majority of its voter set, each granted to it in its term, provided the node belongs to
the voter set it was started with. Bootstrapping guarantees that, recovery does not.
-/

namespace XRaft

namespace RaftNode

variable {codec : VotersCodec} {clock : Clock} {faults : Faults} {config : RaftConfig}
  {stores : Stores} {node after start : RaftNode} {input : NodeInput} {inputs : List NodeInput}

/-- The ids of the node's voter set. -/
def voterIds (node : RaftNode) : List NodeId := node.state.voterSet.map VoterInfo.nodeId

/-- A vote for the node: a voter's, and its own or granted in the current term by one of the
calls. -/
def Entitled (inputs : List NodeInput) (node : RaftNode) (voter : NodeId) : Prop :=
  voter ∈ node.voterIds ∧
    (voter = node.state.nodeId ∨ ∃ input ∈ inputs, input.event.Grants voter node.state.currentTerm)

/-- A leader holds the votes of a majority of its voter set. -/
def ElectedByVoters (inputs : List NodeInput) (node : RaftNode) : Prop :=
  node.state.role = .leader → ∃ quorum ⊆ node.state.votesReceived,
    node.state.voterSet.length / 2 + 1 ≤ quorum.card ∧ ∀ voter ∈ quorum, Entitled inputs node voter

/-- The node is a voter, or has no voters yet. -/
def OwnVoter (node : RaftNode) : Prop :=
  node.state.voterSet = [] ∨ node.state.nodeId ∈ node.voterIds

/-- What the calls so far say about the votes of the node. -/
structure VotesInv (inputs : List NodeInput) (node : RaftNode) : Prop where
  own : node.OwnVoter
  votes : node.state.role = .candidate → ∀ voter ∈ node.state.votesReceived,
    voter = node.state.nodeId ∨ Entitled inputs node voter
  elected : ElectedByVoters inputs node

/-- A further call takes no vote away. -/
theorem VotesInv.extend (h : VotesInv inputs node) (input : NodeInput) :
    VotesInv (inputs ++ [input]) node := by
  have hgrow : ∀ voter, Entitled inputs node voter → Entitled (inputs ++ [input]) node voter := by
    rintro voter ⟨hvoter, hown | ⟨granting, hmem, hgrant⟩⟩
    · exact ⟨hvoter, Or.inl hown⟩
    · exact ⟨hvoter, Or.inr ⟨granting, List.mem_append_left _ hmem, hgrant⟩⟩
  refine ⟨h.own, fun hrole voter hvote => (h.votes hrole voter hvote).imp_right (hgrow voter),
    fun hrole => ?_⟩
  obtain ⟨quorum, hsub, hcard, hentitled⟩ := h.elected hrole
  exact ⟨quorum, hsub, hcard, fun voter hmem => hgrow voter (hentitled voter hmem)⟩

/-- A candidate with a quorum may lead. -/
theorem VotesInv.becomeLeader (h : VotesInv inputs node) (hrole : node.state.role = .candidate)
    (hquorum : node.hasQuorum = true) (codec : VotersCodec) (faults : Faults) :
    VotesInv inputs (node.becomeLeader codec faults).2 := by
  obtain ⟨hvoters, hmajority⟩ := majority_of_hasQuorum hquorum
  obtain ⟨log, -, hnode | hnode⟩ := becomeLeader_cases codec faults node
  · rw [hnode]
    exact ⟨h.own, h.votes, h.elected⟩
  · rw [hnode]
    refine ⟨h.own, fun hcandidate => ?_,
      fun _ => ⟨node.state.votesReceived, subset_rfl, hmajority, ?_⟩⟩
    · cases hcandidate
    · intro voter hvote
      rcases h.votes hrole voter hvote with hself | hentitled
      · have hown : voter ∈ node.voterIds := hself ▸ h.own.resolve_left hvoters
        exact ⟨hown, Or.inl hself⟩
      · exact hentitled

/-- Counting a granted vote keeps the votes entitled. -/
theorem VotesInv.count (h : VotesInv inputs node) {source : NodeId}
    (hrole : node.state.role = .candidate)
    (hvoter : node.state.voterSet.any (fun voter => voter.nodeId == source) = true)
    (hgrant : ∃ input ∈ inputs, input.event.Grants source node.state.currentTerm) :
    VotesInv inputs (node.count source) := by
  refine ⟨h.own, fun _ voter hvote => ?_, fun hleader => ?_⟩
  · rcases Finset.mem_insert.mp hvote with rfl | hold
    · obtain ⟨info, hinfo, hid⟩ := List.any_eq_true.mp hvoter
      have hmember : voter ∈ node.voterIds := List.mem_map.mpr ⟨info, hinfo, beq_iff_eq.mp hid⟩
      exact Or.inr ⟨hmember, Or.inr hgrant⟩
    · exact h.votes hrole voter hold
  · rw [show node.state.role = .leader from hleader] at hrole
    cases hrole

/-- A move keeps the votes entitled. -/
theorem VotesInv.move {origin : RaftNode} (h : VotesInv (inputs ++ [input]) node)
    (hmove : Move codec input origin node after) : VotesInv (inputs ++ [input]) after := by
  have hlast : input ∈ inputs ++ [input] := List.mem_append_right _ List.mem_cons_self
  cases hmove with
  | formed clusterId voters _ _ _ _ hvalid =>
    obtain ⟨-, -, hmember⟩ := (validateBootstrapConfig_ok_iff _ _ _).mp hvalid
    refine ⟨Or.inr hmember, fun hrole => ?_, fun hrole => ?_⟩
    · cases hrole
    · cases hrole
  | candidate =>
    refine ⟨h.own, fun _ voter hvote => Or.inl (Finset.mem_singleton.mp hvote), fun hrole => ?_⟩
    cases hrole
  | candidacy =>
    refine ⟨h.own, fun _ voter hvote => Or.inl (Finset.mem_singleton.mp hvote), fun hrole => ?_⟩
    cases hrole
  | term =>
    refine ⟨h.own, fun hrole => ?_, fun hrole => ?_⟩
    · cases hrole
    · cases hrole
  | won hquorum => exact h.becomeLeader rfl hquorum codec input.faults
  | counted source hgrant hrole hvoter => exact h.count hrole hvoter ⟨input, hlast, hgrant⟩
  | elected source hgrant hrole hvoter hquorum =>
    have hcounted := h.count hrole hvoter ⟨input, hlast, hgrant⟩
    exact hcounted.becomeLeader hrole hquorum codec input.faults
  | _ => exact ⟨h.own, h.votes, h.elected⟩

/-- A started node has no votes yet. -/
theorem new_votes (hnew : new codec clock faults config stores = .ok start)
    (hown : start.OwnVoter) : VotesInv [] start := by
  have hrole : start.state.role = .unattached ∨ start.state.role = .follower := by
    rcases new_spec hnew with ⟨-, rfl⟩ | ⟨-, hrecovered⟩ | ⟨-, hstalled⟩
    · exact Or.inl rfl
    · exact Or.inr hrecovered.role
    · exact Or.inl hstalled.role
  refine ⟨hown, fun hcandidate => ?_, fun hleader => ?_⟩
  · rw [hcandidate] at hrole
    simp at hrole
  · rw [hleader] at hrole
    simp at hrole

/-- A node that was started as one of its voters, or without any, is only ever elected by a
majority of its voter set: by itself and by voters whose granted responses of its term it has
received. -/
theorem only_voters_elect (hnew : new codec clock faults config stores = .ok start)
    (hown : start.OwnVoter) (inputs : List NodeInput) :
    ElectedByVoters inputs (start.handleAll codec inputs) := by
  refine (handleAll_traces (P := VotesInv) (new_votes hnew hown) ?_ inputs).elected
  intro inputs input node h
  exact handle_keeps (h.extend input) fun before after hbefore hmove => hbefore.move hmove

/-- Stores with a snapshot that lists the given voters. -/
def snapshotOf (voters : List VoterInfo) : Stores where
  log := LogStore.new
  quorumState := some ⟨3, none, none, 0, 7⟩
  snapshot := some ⟨⟨9, 3, voters, 3⟩, []⟩

/-- The calls of an election in which node 2 grants its vote in term 4. -/
def electionOfTwo : List NodeInput :=
  [⟨.electionTimeout, ⟨9, 5⟩, {}⟩, ⟨.rpc ⟨7, 0, 2, .voteResponse ⟨4, true, false⟩⟩, ⟨10, 5⟩, {}⟩]

/-- One of three voters is elected by itself and by node 2. -/
theorem only_voters_elect_three : ∃ start,
    new (.only ⟨1, [⟨1, "a"⟩, ⟨2, "b"⟩, ⟨3, "c"⟩]⟩) ⟨0, 5⟩ {} { nodeId := 1 }
        (snapshotOf [⟨1, "a"⟩, ⟨2, "b"⟩, ⟨3, "c"⟩]) = .ok start ∧
      (start.handleAll (.only ⟨1, [⟨1, "a"⟩, ⟨2, "b"⟩, ⟨3, "c"⟩]⟩) electionOfTwo).state.role =
        .leader ∧
      ElectedByVoters electionOfTwo
        (start.handleAll (.only ⟨1, [⟨1, "a"⟩, ⟨2, "b"⟩, ⟨3, "c"⟩]⟩) electionOfTwo) := by
  have hnew : new (.only ⟨1, [⟨1, "a"⟩, ⟨2, "b"⟩, ⟨3, "c"⟩]⟩) ⟨0, 5⟩ {} { nodeId := 1 }
    (snapshotOf [⟨1, "a"⟩, ⟨2, "b"⟩, ⟨3, "c"⟩]) = .ok _ := rfl
  refine ⟨_, hnew, by decide +kernel, only_voters_elect hnew (Or.inr ?_) electionOfTwo⟩
  decide

/-- A node whose snapshot lists node 2 alone elects itself: no vote is a voter's. -/
theorem outsider_elects_itself : ∃ start,
    new (.only ⟨1, [⟨2, "b"⟩]⟩) ⟨0, 5⟩ {} { nodeId := 1 } (snapshotOf [⟨2, "b"⟩]) = .ok start ∧
      let later := start.handleAll (.only ⟨1, [⟨2, "b"⟩]⟩) [⟨.tick, ⟨9, 5⟩, {}⟩]
      later.voterIds.Nodup ∧ later.state.role = .leader ∧ later.state.currentTerm = 4 ∧
        later.state.votesReceived = {1} ∧ later.voterIds = [2] := by
  refine ⟨_, rfl, ?_⟩
  decide +kernel

end RaftNode

end XRaft
