import XRaft.Core.RaftNode
import Mathlib.Logic.Relation
import Mathlib.Logic.Function.Basic

/-!
# A cluster of nodes over a lossy network

Each host is either down, with what its stores kept, or runs one `RaftNode`. Hosts
start from their stores, are bootstrapped with the deployment's cluster id and voters,
time out, receive envelopes and crash, in any order. The network remembers every
envelope ever handed to it and may deliver any of them to its addressee at any later
time, any number of times; an envelope that is never delivered was lost.

The outcomes of the fallible calls are chosen afresh at every step. A crash inside a
method is the method with its next fallible call failing, followed by a crash: the
memory is lost either way and the stores are the same. Terms stay below the largest `u64`:
a node that has reached it does not time out, as there is no next term.
-/

namespace XRaft

/-- What all hosts of a cluster are set up with. -/
structure Deployment where
  codec : VotersCodec
  clusterId : ClusterId
  voters : List VoterInfo
  config : NodeId → RaftConfig
  config_nodeId : ∀ i, (config i).nodeId = i

/-- Three voters, and a codec that knows the record of these voters only. -/
def threeVoters : Deployment where
  codec := .only ⟨1, [⟨1, "a"⟩, ⟨2, "b"⟩, ⟨3, "c"⟩]⟩
  clusterId := 7
  voters := [⟨1, "a"⟩, ⟨2, "b"⟩, ⟨3, "c"⟩]
  config i := { nodeId := i }
  config_nodeId _ := rfl

/-- A host runs a node or is down with its stores. -/
inductive Host where
  | running (node : RaftNode)
  | down (stores : Stores)

/-- All hosts and every envelope sent so far, with its addressee. -/
structure Cluster where
  hosts : NodeId → Host
  sent : List (NodeId × RpcEnvelope)

namespace Cluster

/-- Nothing has been started or written. -/
def init : Cluster := ⟨fun _ => .down Stores.empty, []⟩

/-- Replace one host. -/
def setHost (cluster : Cluster) (i : NodeId) (host : Host) : Cluster :=
  { cluster with hosts := Function.update cluster.hosts i host }

/-- Record the effect of a method call on a running host. -/
def act (cluster : Cluster) (i : NodeId) (outcome : Outcome Unit) : Cluster where
  hosts := Function.update cluster.hosts i (.running outcome.node)
  sent := cluster.sent ++ outcome.sent

/-- One step of the cluster. -/
inductive Step (d : Deployment) : Cluster → Cluster → Prop where
  | start (cluster : Cluster) (i : NodeId) (clock : Clock) (faults : Faults) (stores : Stores)
      (node : RaftNode) (hhost : cluster.hosts i = .down stores)
      (hnew : RaftNode.new d.codec clock faults (d.config i) stores = .ok node) :
      Step d cluster (cluster.setHost i (.running node))
  | bootstrap (cluster : Cluster) (i : NodeId) (clock : Clock) (faults : Faults) (node : RaftNode)
      (hhost : cluster.hosts i = .running node) :
      Step d cluster (cluster.act i (node.bootstrap clock faults d.clusterId d.voters))
  | tick (cluster : Cluster) (i : NodeId) (clock : Clock) (faults : Faults) (node : RaftNode)
      (hhost : cluster.hosts i = .running node) (hterm : node.state.currentTerm + 1 < 2 ^ 64) :
      Step d cluster (cluster.act i (node.tick d.codec clock faults))
  | electionTimeout (cluster : Cluster) (i : NodeId) (clock : Clock) (faults : Faults)
      (node : RaftNode)
      (hhost : cluster.hosts i = .running node) (hterm : node.state.currentTerm + 1 < 2 ^ 64) :
      Step d cluster (cluster.act i (node.handleElectionTimeout d.codec clock faults))
  | deliver (cluster : Cluster) (i : NodeId) (clock : Clock) (faults : Faults) (node : RaftNode)
      (envelope : RpcEnvelope) (hhost : cluster.hosts i = .running node)
      (hsent : (i, envelope) ∈ cluster.sent) :
      Step d cluster (cluster.act i (node.handleRpc d.codec clock faults envelope))
  | crash (cluster : Cluster) (i : NodeId) (node : RaftNode)
      (hhost : cluster.hosts i = .running node) :
      Step d cluster (cluster.setHost i (.down node.stores))

/-- Finitely many steps. -/
abbrev Run (d : Deployment) : Cluster → Cluster → Prop := Relation.ReflTransGen (Step d)

/-- The host runs a node that is in role leader for the term. -/
def Leads (cluster : Cluster) (i : NodeId) (term : ℕ) : Prop :=
  ∃ node, cluster.hosts i = .running node ∧ node.state.role = .leader ∧
    node.state.currentTerm = term

end Cluster

end XRaft
