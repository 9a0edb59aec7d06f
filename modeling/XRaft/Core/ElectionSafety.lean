import XRaft.Core.ElectionSteps
import XRaft.Core.Recovery
import Mathlib.Data.Finset.Dedup

/-!
# At most one leader per term

Bootstrapping and recovery establish the election invariant, every step of the cluster
keeps it, and so it holds after every run, for a set of ballots that only grows. Two
leaders of one term, at whatever moments of a run they led, were both elected by the
ballots of the later moment.
-/

namespace XRaft

open Lib

variable {d : Deployment} {ballots : Set (Ballot NodeId)} {i : NodeId} {node : RaftNode}

/-- Valid bootstrap arguments are a deployment that admits the node. -/
theorem admits_of_validateBootstrapConfig
    (h : RaftNode.validateBootstrapConfig i d.clusterId d.voters = .ok ()) : d.Admits i := by
  obtain ⟨-, hnodup, hmember⟩ := (RaftNode.validateBootstrapConfig_ok_iff _ _ _).mp h
  exact ⟨hnodup, List.mem_toFinset.mpr hmember⟩

/-- A voter that has saved nothing may be in any term, having cast no ballot. -/
theorem consistent_of_unsaved {voter other : Voter NodeId} (h : voter.Consistent i ballots)
    (hsaved : voter.saved = none) (hother : other.saved = none) : other.Consistent i ballots where
  bound _ _ hsome := by
    rw [hother] at hsome
    cases hsome
  recorded term candidate hballot := by
    obtain ⟨_, _, hsome, _⟩ := h.recorded term candidate hballot
    rw [hsaved] at hsome
    cases hsome

/-- Bootstrapping with the deployment's arguments keeps the invariant. -/
theorem bootstrap_inv (h : NodeInv d ballots i node) (clock : Clock) (faults : Faults) :
    NodeInv d ballots i (node.bootstrap clock faults d.clusterId d.voters).node := by
  unfold RaftNode.bootstrap
  split
  · exact h
  · split
    · exact h
    · cases hdata : RaftNode.hasExistingData node.stores faults with
      | error e => exact h
      | ok hasData =>
        cases hasData with
        | true => exact h
        | false =>
          cases hvalid : RaftNode.validateBootstrapConfig node.state.nodeId d.clusterId
            d.voters with
          | error e => exact h
          | ok _ =>
            have hadmits : d.Admits i := admits_of_validateBootstrapConfig (h.nodeId ▸ hvalid)
            have hsaved : node.voter.saved = none := by
              simp [RaftNode.voter, (RaftNode.noData_of_hasExistingData hdata).2.2.1]
            refine ⟨h.nodeId, Or.inr ⟨rfl, hadmits⟩, h.stores,
              consistent_of_unsaved h.voter hsaved hsaved, fun hrole => ?_, fun hrole => ?_⟩
            · cases hrole
            · cases hrole

/-- A bootstrap call sends nothing. -/
theorem bootstrap_sent (clock : Clock) (faults : Faults) (node : RaftNode) :
    (node.bootstrap clock faults d.clusterId d.voters).sent = [] := by
  unfold RaftNode.bootstrap
  split
  · rfl
  · split
    · rfl
    · split
      · rfl
      · rfl
      · split <;> rfl

/-- The voters recovered from the log are the deployment's. -/
theorem latestVoters_eq {stores : Stores} (h : StoresInv d i stores) {low high : ℕ}
    {voters : List VoterInfo}
    (hvoters : RaftNode.latestVoters d.codec (stores.log.read low high) = some voters) :
    voters = d.voters ∧ d.Admits i := by
  obtain ⟨e, hmem, hsome⟩ := List.exists_of_findSome?_eq_some hvoters
  have hentry := LogStore.mem_entries_of_mem_read (List.mem_reverse.mp hmem)
  split at hsome
  · rename_i htype
    cases hrecord : d.codec.deserialize e.payload with
    | error reason => simp [hrecord] at hsome
    | ok record =>
      simp only [hrecord, Option.some.injEq] at hsome
      rw [← hsome]
      exact h.voters e hentry htype record hrecord
  · cases hsome

/-- A started node satisfies the invariant that its stores kept through the crash. -/
theorem new_inv {stores : Stores} (hstores : StoresInv d i stores)
    (hvoter : stores.voter.Consistent i ballots) (clock : Clock) (faults : Faults)
    (hnew : RaftNode.new d.codec clock faults (d.config i) stores = .ok node) :
    NodeInv d ballots i node := by
  rcases RaftNode.new_spec hnew with ⟨hnoData, rfl⟩ | ⟨-, h⟩ | ⟨-, h⟩
  · have hsaved := hnoData.2.2.1
    refine ⟨d.config_nodeId i, Or.inl rfl, hstores, consistent_of_unsaved hvoter ?_ ?_,
      fun hrole => ?_, fun hrole => ?_⟩
    · simp [Stores.voter, Voter.restart, hsaved]
    · simp [RaftNode.voter, RaftNode.fresh, hsaved]
    · cases hrole
    · cases hrole
  · have hsame : node.voter = stores.voter := by
      unfold RaftNode.voter Stores.voter Voter.restart
      rw [h.currentTerm, h.votedFor, h.kept]
      cases stores.quorumState <;> rfl
    refine ⟨h.nodeId.trans (d.config_nodeId i), ?_, h.kept ▸ hstores, hsame ▸ hvoter,
      fun hrole => ?_, fun hrole => ?_⟩
    · rw [h.voterSet]
      exact (Stores.recoveredVoters_cases d.codec hstores.snapshot).imp_right
        (latestVoters_eq hstores)
    · rw [h.role] at hrole
      cases hrole
    · rw [h.role] at hrole
      cases hrole
  · have hsnapshot := h.snapshot
    rw [hstores.snapshot] at hsnapshot
    cases hsnapshot

/-- What holds of a cluster in terms of the ballots cast so far. -/
structure ClusterInv (d : Deployment) (ballots : Set (Ballot NodeId)) (cluster : Cluster) :
    Prop where
  cast : BallotsInv ballots
  hosts : ∀ i, HostInv d ballots i (cluster.hosts i)
  sent : ∀ message ∈ cluster.sent, Justified ballots message

variable {cluster later : Cluster}

/-- Before the first start no ballot has been cast. -/
theorem init_inv (d : Deployment) : ClusterInv d ∅ Cluster.init where
  cast := ⟨oneVotePerTerm_empty, fun _ _ _ h => h.elim⟩
  hosts _ := by
    refine ⟨⟨rfl, fun e he => ?_⟩, ⟨fun _ _ h => ?_, fun _ _ h => h.elim⟩⟩
    · cases he
    · cases h
  sent _ h := by cases h

/-- Starting or crashing a host keeps the invariant when it keeps the host's. -/
theorem ClusterInv.setHost (h : ClusterInv d ballots cluster) {host : Host}
    (hhost : HostInv d ballots i host) : ClusterInv d ballots (cluster.setHost i host) where
  cast := h.cast
  hosts j := by
    change HostInv d ballots j (Function.update cluster.hosts i host j)
    by_cases hij : j = i
    · subst hij
      rw [Function.update_self]
      exact hhost
    · rw [Function.update_of_ne hij]
      exact h.hosts j
  sent := h.sent

/-- A sound method call keeps the invariant and only adds ballots. -/
theorem ClusterInv.act (h : ClusterInv d ballots cluster) {outcome : Outcome Unit}
    (hsound : Sound d ballots i outcome.node outcome.sent) :
    ∃ more, ballots ⊆ more ∧ ClusterInv d more (cluster.act i outcome) := by
  obtain ⟨more, hmore, hext, hnode, hsent⟩ := hsound
  refine ⟨more, hext.grow, hmore, fun j => ?_, fun message hmessage => ?_⟩
  · change HostInv d more j (Function.update cluster.hosts i (.running outcome.node) j)
    by_cases hij : j = i
    · subst hij
      rw [Function.update_self]
      exact hnode
    · rw [Function.update_of_ne hij]
      exact (h.hosts j).mono hext hij
  · rcases List.mem_append.mp hmessage with hold | hnew
    · exact (h.sent message hold).mono hext.grow
    · exact hsent message hnew

/-- The invariant of the node a host runs. -/
theorem ClusterInv.running (h : ClusterInv d ballots cluster)
    (hhost : cluster.hosts i = .running node) : NodeInv d ballots i node := by
  have hi := h.hosts i
  rw [hhost] at hi
  exact hi

/-- Every step keeps the invariant and only adds ballots. -/
theorem ClusterInv.step (h : ClusterInv d ballots cluster) (hstep : Cluster.Step d cluster later) :
    ∃ more, ballots ⊆ more ∧ ClusterInv d more later := by
  cases hstep with
  | start i clock faults stores node hhost hnew =>
    have hi := h.hosts i
    rw [hhost] at hi
    have hnode : NodeInv d ballots i node := new_inv hi.1 hi.2 clock faults hnew
    exact ⟨ballots, subset_rfl, h.setHost hnode⟩
  | bootstrap i clock faults node hhost =>
    refine h.act ?_
    rw [bootstrap_sent]
    exact Sound.silent h.cast (bootstrap_inv (h.running hhost) clock faults)
  | tick i clock faults node hhost hterm =>
    exact h.act (tick_sound h.cast (h.running hhost) hterm clock faults)
  | electionTimeout i clock faults node hhost hterm =>
    exact h.act (handleElectionTimeout_sound h.cast (h.running hhost) hterm clock faults)
  | deliver i clock faults node envelope hhost hsent =>
    exact h.act (handleRpc_sound h.cast (h.running hhost) clock faults envelope (h.sent _ hsent))
  | crash i node hhost =>
    -- what comes back from the stores is the running voter after a restart
    have hnode := h.running hhost
    have hdown : HostInv d ballots i (.down node.stores) := ⟨hnode.stores, hnode.voter.restart⟩
    exact ⟨ballots, subset_rfl, h.setHost hdown⟩

/-- Every run keeps the invariant and only adds ballots. -/
theorem ClusterInv.run (h : ClusterInv d ballots cluster) (hrun : Cluster.Run d cluster later) :
    ∃ more, ballots ⊆ more ∧ ClusterInv d more later := by
  induction hrun with
  | refl => exact ⟨ballots, subset_rfl, h⟩
  | tail _ hstep ih =>
    obtain ⟨middle, hmiddle, hinv⟩ := ih
    obtain ⟨more, hmore, hinv⟩ := hinv.step hstep
    exact ⟨more, hmiddle.trans hmore, hinv⟩

/-- A node that leads was elected. -/
theorem ClusterInv.elected (h : ClusterInv d ballots cluster) {term : ℕ}
    (hleads : cluster.Leads i term) : Elected d.electorate ballots term i := by
  obtain ⟨node, hhost, hrole, rfl⟩ := hleads
  exact (h.running hhost).elected hrole

/-- Election safety: over a whole run, at most one node is ever leader of a term. -/
theorem election_safety (d : Deployment) {cluster later : Cluster}
    (hstart : Cluster.Run d .init cluster) (hrun : Cluster.Run d cluster later) {a b : NodeId}
    {term : ℕ} (ha : cluster.Leads a term) (hb : later.Leads b term) : a = b := by
  obtain ⟨ballots, _, hinv⟩ := (init_inv d).run hstart
  obtain ⟨more, hmore, hlater⟩ := hinv.run hrun
  exact elected_unique hlater.cast.one ((hinv.elected ha).mono hmore) (hlater.elected hb)

/-- The first of three voters wins the vote of the second; the second crashes, recovers and hears
of it again. -/
theorem election_safety_threeVoters :
    ∃ first second : Cluster, Cluster.Run threeVoters .init first ∧
      Cluster.Run threeVoters first second ∧
      first.Leads 1 1 ∧ second.Leads 1 1 ∧ (1 : NodeId) = 1 := by
  have hruns : ∃ first second, Cluster.Run threeVoters .init first ∧
      Cluster.Run threeVoters first second ∧
      first.Leads 1 1 ∧ second.Leads 1 1 := by
    refine ⟨_, _, ((((((Relation.ReflTransGen.refl.tail
      (.start _ 1 ⟨0, 0⟩ {} _ _ rfl rfl)).tail
      (.start _ 2 ⟨0, 0⟩ {} _ _ rfl rfl)).tail
      (.bootstrap _ 1 ⟨0, 0⟩ {} _ rfl)).tail
      (.bootstrap _ 2 ⟨0, 0⟩ {} _ rfl)).tail
      (.electionTimeout _ 1 ⟨0, 0⟩ {} _ rfl (by decide))).tail
      (.deliver _ 2 ⟨0, 0⟩ {} _ _ rfl (List.Mem.head _))).tail
      (.deliver _ 1 ⟨0, 0⟩ {} _ _ rfl (.tail _ (.tail _ (.head _)))),
      ((Relation.ReflTransGen.refl.tail
      (.crash _ 2 _ rfl)).tail
      (.start _ 2 ⟨0, 0⟩ {} _ _ rfl rfl)).tail
      (.deliver _ 2 ⟨0, 0⟩ {} _ _ rfl (List.Mem.head _)), ⟨_, rfl, rfl, rfl⟩, ⟨_, rfl, rfl, rfl⟩⟩
  obtain ⟨first, second, hstart, hrun, hfirst, hsecond⟩ := hruns
  exact ⟨first, second, hstart, hrun, hfirst, hsecond,
    election_safety threeVoters hstart hrun hfirst hsecond⟩

end XRaft
