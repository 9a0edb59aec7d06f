import XRaft.Core.Cluster
import XRaft.Lib.Ballots

/-!
# The election invariant

A vote becomes a ballot when the quorum state that holds it has been saved. Vote
requests leave a candidate after its own ballot and granted responses leave a voter
after the voter's, so every vote a candidate ever counts is a ballot, and a node that
reaches the leader role was elected by a majority of ballots. Ballots survive crashes,
and the saved quorum state keeps a node from casting a second one in a term; failed
saves, forgotten terms and recovery with an empty voter set only lose votes.
-/

namespace XRaft

open Lib

variable {d : Deployment} {ballots : Set (Ballot NodeId)} {i : NodeId}

/-- The node's election state as a voter with memory and a saved pair. -/
def RaftNode.voter (node : RaftNode) : Voter NodeId where
  term := node.state.currentTerm
  vote := node.state.votedFor
  saved := node.stores.quorumState.map fun qs => (qs.currentTerm, qs.votedFor)

/-- The voter that comes back from the stores. -/
def Stores.voter (stores : Stores) : Voter NodeId :=
  (Voter.mk 0 none (stores.quorumState.map fun qs => (qs.currentTerm, qs.votedFor))).restart

namespace Deployment

/-- The ids of the deployment's voters. -/
def electorate (d : Deployment) : Finset NodeId := (d.voters.map VoterInfo.nodeId).toFinset

/-- The voter list passes the bootstrap checks of the node: no duplicates, the node included. -/
def Admits (d : Deployment) (i : NodeId) : Prop :=
  (d.voters.map VoterInfo.nodeId).Nodup ∧ i ∈ d.electorate

end Deployment

/-- No snapshot, and every readable voters record in the log lists the deployment's voters. -/
structure StoresInv (d : Deployment) (i : NodeId) (stores : Stores) : Prop where
  snapshot : stores.snapshot = none
  voters : ∀ e ∈ stores.log.entries, e.entryType = .votersRecord →
    ∀ record, d.codec.deserialize e.payload = .ok record → record.voters = d.voters ∧ d.Admits i

/-- What holds of a running node in terms of the ballots cast so far. -/
structure NodeInv (d : Deployment) (ballots : Set (Ballot NodeId)) (i : NodeId) (node : RaftNode) :
    Prop where
  nodeId : node.state.nodeId = i
  voterSet : node.state.voterSet = [] ∨ node.state.voterSet = d.voters ∧ d.Admits i
  stores : StoresInv d i node.stores
  voter : node.voter.Consistent i ballots
  votes : node.state.role = .candidate → ∀ x ∈ node.state.votesReceived,
    x = i ∨ ⟨x, node.state.currentTerm, i⟩ ∈ ballots ∧ x ∈ d.electorate
  elected : node.state.role = .leader → Elected d.electorate ballots node.state.currentTerm i

/-- What holds of a host, up or down. -/
def HostInv (d : Deployment) (ballots : Set (Ballot NodeId)) (i : NodeId) : Host → Prop
  | .running node => NodeInv d ballots i node
  | .down stores => StoresInv d i stores ∧ stores.voter.Consistent i ballots

/-- Nobody votes twice in a term, and nobody votes for a candidate before it has. -/
structure BallotsInv (ballots : Set (Ballot NodeId)) : Prop where
  one : OneVotePerTerm ballots
  self : ∀ voter term candidate, ⟨voter, term, candidate⟩ ∈ ballots →
    ⟨candidate, term, candidate⟩ ∈ ballots

/-- A vote request follows its sender's own ballot, a granted response follows the voter's. -/
def Justified (ballots : Set (Ballot NodeId)) (message : NodeId × RpcEnvelope) : Prop :=
  match message.2.payload with
  | .voteRequest request => request.isPreVote = false ∧ request.candidateId = message.2.source ∧
      ⟨message.2.source, request.term, message.2.source⟩ ∈ ballots
  | .voteResponse response => response.voteGranted = true →
      ⟨message.2.source, response.term, message.1⟩ ∈ ballots
  | _ => True

/-- Ballots were added by one voter only. -/
structure Extends (i : NodeId) (ballots later : Set (Ballot NodeId)) : Prop where
  grow : ballots ⊆ later
  own : ∀ ballot ∈ later, ballot ∈ ballots ∨ ballot.voter = i

/-- A method call of host `i` keeps the invariant, for a set of ballots that host `i` extended. -/
def Sound (d : Deployment) (ballots : Set (Ballot NodeId)) (i : NodeId) (node : RaftNode)
    (sent : List (NodeId × RpcEnvelope)) : Prop :=
  ∃ later, BallotsInv later ∧ Extends i ballots later ∧ NodeInv d later i node ∧
    ∀ message ∈ sent, Justified later message

/-- No ballots are added. -/
theorem Extends.refl (i : NodeId) (ballots : Set (Ballot NodeId)) : Extends i ballots ballots :=
  ⟨subset_rfl, fun _ h => Or.inl h⟩

/-- A call that casts no ballot and sends nothing is sound. -/
theorem Sound.silent (hb : BallotsInv ballots) {node : RaftNode} (h : NodeInv d ballots i node) :
    Sound d ballots i node [] :=
  ⟨ballots, hb, Extends.refl i ballots, h, by simp⟩

/-- Justified messages stay justified when ballots are added. -/
theorem Justified.mono {later : Set (Ballot NodeId)} (hgrow : ballots ⊆ later)
    {message : NodeId × RpcEnvelope} (h : Justified ballots message) : Justified later message := by
  unfold Justified at h ⊢
  split <;> simp_all only
  · exact ⟨trivial, trivial, hgrow h.2.2⟩
  · exact fun hgranted => hgrow (h hgranted)

/-- Ballots of another host leave a node's invariant intact. -/
theorem NodeInv.mono {later : Set (Ballot NodeId)} {j : NodeId} {node : RaftNode}
    (h : NodeInv d ballots i node) (hext : Extends j ballots later) (hne : i ≠ j) :
    NodeInv d later i node where
  nodeId := h.nodeId
  voterSet := h.voterSet
  stores := h.stores
  voter := h.voter.mono fun _ _ hballot => (hext.own _ hballot).resolve_right hne
  votes hrole x hx := (h.votes hrole x hx).imp_right fun hvote => ⟨hext.grow hvote.1, hvote.2⟩
  elected hrole := (h.elected hrole).mono hext.grow

/-- Ballots of another host leave a host's invariant intact. -/
theorem HostInv.mono {later : Set (Ballot NodeId)} {j : NodeId} {host : Host}
    (h : HostInv d ballots i host) (hext : Extends j ballots later) (hne : i ≠ j) :
    HostInv d later i host := by
  cases host with
  | running node => exact NodeInv.mono h hext hne
  | down stores =>
    exact ⟨h.1, h.2.mono fun _ _ hballot => (hext.own _ hballot).resolve_right hne⟩

end XRaft
