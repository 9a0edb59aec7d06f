import XRaft.Core.Cluster
import XRaft.Core.NodeRun
import XRaft.Core.Recovery

/-!
# The lives of one node, across crashes

A host is started on its stores, receives calls, and crashes: between two calls, or in
the middle of one, when everything the call has written so far survives. A call cut short
is the call with its next fallible operation failing, followed by the crash: the memory is
lost either way and the stores are the same. The messages that reach the node are
arbitrary; what the environment does to its calls is a parameter.

The last part asks what a restart makes of the stores a crash leaves behind. A node that
was bootstrapped keeps its voters and its cluster id in memory until a quorum state and a
voters record have been written; a crash between the two leaves stores that can neither
be bootstrapped again nor say who the voters are.
-/

namespace XRaft

/-- The stores of a host, up or down. -/
def Host.stores : Host → Stores
  | .running node => node.stores
  | .down stores => stores

/-- Which calls return, and which are cut short by a crash. -/
structure Environment where
  call : RaftNode → NodeInput → Prop
  interrupt : RaftNode → NodeInput → Prop

/-- The environment in which everything may happen. -/
def Environment.any : Environment := ⟨fun _ _ => True, fun _ _ => True⟩

/-- The call bootstraps, if at all, with the deployment's cluster id and voters. -/
def Deployment.Permits (d : Deployment) (event : NodeEvent) : Prop :=
  ∀ clusterId voters, event = .bootstrap clusterId voters → clusterId = d.clusterId ∧
    voters = d.voters

/-- One step in the life of a host. -/
inductive LifeStep (d : Deployment) (i : NodeId) (env : Environment) : Host → Host → Prop where
  | start (clock : Clock) (faults : Faults) (stores : Stores) (node : RaftNode)
      (hnew : RaftNode.new d.codec clock faults (d.config i) stores = .ok node) :
      LifeStep d i env (.down stores) (.running node)
  | call (node : RaftNode) (input : NodeInput) (hevent : d.Permits input.event)
      (hcall : env.call node input) :
      LifeStep d i env (.running node) (.running (node.handle d.codec input))
  | crash (node : RaftNode) : LifeStep d i env (.running node) (.down node.stores)
  | interrupt (node : RaftNode) (input : NodeInput) (hevent : d.Permits input.event)
      (hinterrupt : env.interrupt node input) :
      LifeStep d i env (.running node) (.down (node.handle d.codec input).stores)

/-- A sequence of lives that begins with nothing stored. -/
abbrev Lives (d : Deployment) (i : NodeId) (env : Environment) (host : Host) : Prop :=
  Relation.ReflTransGen (LifeStep d i env) (.down Stores.empty) host

/-- One property for a node while it runs and one for its stores while it is down. -/
def Host.Satisfies (P : RaftNode → Prop) (Q : Stores → Prop) : Host → Prop
  | .running node => P node
  | .down stores => Q stores

variable {d : Deployment} {i : NodeId} {env : Environment} {host : Host}

/-- What starting, calling and crashing keep holds throughout all lives. -/
theorem Lives.keeps {P : RaftNode → Prop} {Q : Stores → Prop} (hempty : Q Stores.empty)
    (hstart : ∀ clock faults stores node, Q stores →
      RaftNode.new d.codec clock faults (d.config i) stores = .ok node → P node)
    (hcall : ∀ node input, P node → d.Permits input.event → env.call node input →
      P (node.handle d.codec input))
    (hcrash : ∀ node, P node → Q node.stores)
    (hinterrupt : ∀ node input, P node → d.Permits input.event → env.interrupt node input →
      Q (node.handle d.codec input).stores)
    (hlives : Lives d i env host) : host.Satisfies P Q := by
  induction hlives with
  | refl => exact hempty
  | tail _ hlast ih =>
    cases hlast with
    | start clock faults stores node hnew => exact hstart clock faults stores node ih hnew
    | call node input hevent hinput => exact hcall node input ih hevent hinput
    | crash node => exact hcrash node ih
    | interrupt node input hevent hinput => exact hinterrupt node input ih hevent hinput

/-- No snapshot, a contiguous log from offset zero, and only the deployment's voters on record. -/
structure StoresKept (d : Deployment) (stores : Stores) : Prop where
  snapshot : stores.snapshot = none
  contiguous : stores.log.Contiguous
  startOffset : stores.log.startOffset = 0
  records : ∀ e ∈ stores.log.entries, e.entryType = .votersRecord →
    d.codec.deserialize e.payload = .ok ⟨1, d.voters⟩

/-- The node has the deployment's voters or none, and so have its stores. -/
structure NodeKept (d : Deployment) (node : RaftNode) : Prop where
  stores : StoresKept d node.stores
  voterSet : node.state.voterSet = [] ∨ node.state.voterSet = d.voters

/-- The whole log is searched for the voters, and every record in it names the deployment's. -/
theorem StoresKept.latestVoters {stores : Stores} (h : StoresKept d stores) :
    RaftNode.latestVoters d.codec
      (stores.log.read stores.log.logStartOffset stores.log.logEndOffset) =
      if ∃ e ∈ stores.log.entries, e.entryType = .votersRecord then some d.voters else none := by
  rw [h.contiguous.read_all]
  unfold RaftNode.latestVoters
  split
  · rename_i hexists
    obtain ⟨e, he, htype⟩ := hexists
    cases hfound : stores.log.entries.reverse.findSome? _ with
    | none =>
      rw [List.findSome?_eq_none_iff] at hfound
      have hnone := hfound e (List.mem_reverse.mpr he)
      simp [htype, h.records e he htype] at hnone
    | some voters =>
      obtain ⟨e', he', hsome⟩ := List.exists_of_findSome?_eq_some hfound
      split at hsome
      · rename_i htype'
        simp only [h.records e' (List.mem_reverse.mp he') htype', Option.some.injEq] at hsome
        rw [hsome]
      · cases hsome
  · rename_i hnone
    rw [List.findSome?_eq_none_iff]
    intro e he
    rw [if_neg fun htype => hnone ⟨e, List.mem_reverse.mp he, htype⟩]

/-- Recovery finds the deployment's voters if there is a quorum state and a voters record, and
else none. -/
theorem StoresKept.recoveredVoters {stores : Stores} (h : StoresKept d stores) :
    stores.recoveredVoters d.codec =
      if stores.quorumState.isSome ∧ ∃ e ∈ stores.log.entries, e.entryType = .votersRecord
        then d.voters
      else [] := by
  unfold Stores.recoveredVoters
  rw [h.snapshot]
  dsimp only
  rw [h.latestVoters]
  by_cases hrecord : ∃ e ∈ stores.log.entries, e.entryType = .votersRecord
  · obtain ⟨e, he, htype⟩ := hrecord
    have hnonempty : stores.log.logEndOffset > stores.log.logStartOffset := by
      have hlength := List.length_pos_of_mem he
      have hend := h.contiguous.logEndOffset_eq
      rw [LogStore.logStartOffset]
      omega
    have hexists : ∃ e ∈ stores.log.entries, e.entryType = .votersRecord := ⟨e, he, htype⟩
    simp [hexists, hnonempty]
  · simp [hrecord]

variable {node after : RaftNode} {input : NodeInput}

/-- A winning node records no other voters than the deployment's. -/
theorem NodeKept.becomeLeader (h : NodeKept d node) (hquorum : node.hasQuorum = true)
    (faults : Faults) : NodeKept d (node.becomeLeader d.codec faults).2 := by
  have hgrown :=
    (RaftNode.becomeLeader_ascent h.stores.contiguous d.codec faults).grown h.stores.contiguous
  have hvoters : node.state.voterSet = d.voters :=
    h.voterSet.resolve_left (RaftNode.majority_of_hasQuorum hquorum).1
  obtain ⟨log, hentries, hnode⟩ := becomeLeader_cases d.codec faults node
  have hlog : (node.becomeLeader d.codec faults).2.stores.log = log := by
    rcases hnode with hnode | hnode <;> rw [hnode] <;> rfl
  refine ⟨⟨hgrown.snapshot.trans h.stores.snapshot, hgrown.contiguous,
    hgrown.startOffset.trans h.stores.startOffset, fun e he htype => ?_⟩, ?_⟩
  · rw [hlog] at he
    rcases hentries e he with hold | hchange | hrecord
    · exact h.stores.records e hold htype
    · rw [hchange] at htype
      cases htype
    · rw [hvoters] at hrecord
      exact d.codec.deserialize_serialize _ _ hrecord
  · rw [hgrown.voterSet]
    exact Or.inr hvoters

/-- A move that bootstraps with the deployment at most keeps its voters. -/
theorem NodeKept.move {origin : RaftNode} (h : NodeKept d node) (hevent : d.Permits input.event)
    (hmove : RaftNode.Move d.codec input origin node after) : NodeKept d after := by
  cases hmove with
  | formed clusterId voters hbootstrap => exact ⟨h.stores, Or.inr (hevent _ _ hbootstrap).2⟩
  | won hquorum => exact h.becomeLeader hquorum input.faults
  | elected source _ _ _ hquorum =>
    have hcounted : NodeKept d (node.count source) := ⟨h.stores, h.voterSet⟩
    exact hcounted.becomeLeader hquorum input.faults
  | saved =>
    exact ⟨⟨h.stores.snapshot, h.stores.contiguous, h.stores.startOffset, h.stores.records⟩,
      h.voterSet⟩
  | candidacy =>
    exact ⟨⟨h.stores.snapshot, h.stores.contiguous, h.stores.startOffset, h.stores.records⟩,
      h.voterSet⟩
  | _ => exact ⟨h.stores, h.voterSet⟩

/-- A call keeps the deployment's voters. -/
theorem NodeKept.handle (h : NodeKept d node) (hevent : d.Permits input.event) :
    NodeKept d (node.handle d.codec input) :=
  RaftNode.handle_keeps h fun _ _ hbefore hmove => hbefore.move hevent hmove

/-- A node started on stores with the deployment's voters has them or none. -/
theorem new_kept {stores : Stores} (h : StoresKept d stores) {clock : Clock} {faults : Faults}
    (hnew : RaftNode.new d.codec clock faults (d.config i) stores = .ok node) :
    NodeKept d node := by
  refine ⟨(RaftNode.new_stores hnew).symm ▸ h, ?_⟩
  rcases RaftNode.new_spec hnew with ⟨-, rfl⟩ | ⟨-, hrecovered⟩ | ⟨-, hstalled⟩
  · exact Or.inl rfl
  · rw [hrecovered.voterSet, h.recoveredVoters]
    split
    · exact Or.inr rfl
    · exact Or.inl rfl
  · have hsnapshot := hstalled.snapshot
    rw [h.snapshot] at hsnapshot
    cases hsnapshot

/-- Stores nothing was written to keep every deployment. -/
theorem storesKept_empty (d : Deployment) : StoresKept d Stores.empty :=
  ⟨rfl, by decide, rfl, fun e he => absurd he List.not_mem_nil⟩

/-- Throughout all lives the node and its stores have the deployment's voters or none. -/
theorem Lives.kept (hlives : Lives d i env host) : host.Satisfies (NodeKept d) (StoresKept d) :=
  hlives.keeps (storesKept_empty d) (fun _ _ _ _ h hnew => new_kept h hnew)
    (fun _ _ h hevent _ => h.handle hevent) (fun _ h => h.stores)
    (fun _ _ h hevent _ => (h.handle hevent).stores)

/-- The stores of a host have the deployment's voters or none at every moment. -/
theorem Lives.storesKept (hlives : Lives d i env host) : StoresKept d host.stores := by
  have hkept := hlives.kept
  cases host with
  | running node => exact hkept.stores
  | down stores => exact hkept

/-- The node can still be bootstrapped, or it knows the deployment's voters and cluster id. -/
def RaftNode.Usable (d : Deployment) (node : RaftNode) : Prop :=
  (∀ clock clusterId voters,
      RaftNode.validateBootstrapConfig node.state.nodeId clusterId voters = .ok () →
      (node.bootstrap clock {} clusterId voters).result = .ok ()) ∨
    node.state.voterSet = d.voters ∧ node.state.clusterId = d.clusterId

/-- The stores hold nothing, or both a quorum state of the cluster and a voters record. -/
def Stores.Conclusive (d : Deployment) (stores : Stores) : Prop :=
  stores.NoData ∨ (∃ qs, stores.quorumState = some qs ∧ qs.clusterId = d.clusterId) ∧
    ∃ e ∈ stores.log.entries, e.entryType = .votersRecord

/-- A fresh node on empty stores can be bootstrapped with any valid arguments. -/
theorem fresh_bootstraps {config : RaftConfig} {now : ℕ} {stores : Stores} (h : stores.NoData)
    (clock : Clock) {clusterId : ClusterId} {voters : List VoterInfo}
    (hvalid : RaftNode.validateBootstrapConfig config.nodeId clusterId voters = .ok ()) :
    ((RaftNode.fresh config now stores).bootstrap clock {} clusterId voters).result = .ok () := by
  obtain ⟨hstart, hend, hquorum, hsnapshot⟩ := h
  have hdata : RaftNode.hasExistingData (RaftNode.fresh config now stores).stores {} =
      .ok false := by
    simp [RaftNode.hasExistingData, RaftNode.fresh, hstart, hend, hquorum, hsnapshot]
  have hargs : RaftNode.validateBootstrapConfig (RaftNode.fresh config now stores).state.nodeId
      clusterId voters =
    .ok () := hvalid
  unfold RaftNode.bootstrap
  rw [if_neg (by simp [RaftNode.fresh]), if_neg (by simp [RaftNode.fresh, NodeState.newUnattached]),
    hdata]
  dsimp only
  rw [hargs]

/-- A bootstrapped node refuses to be bootstrapped, whatever the arguments. -/
theorem not_bootstraps (h : node.bootstrapped = true) :
    ¬ ∀ clock clusterId voters,
    RaftNode.validateBootstrapConfig node.state.nodeId clusterId voters = .ok () →
      (node.bootstrap clock {} clusterId voters).result = .ok () := by
  intro hall
  have hvalid : RaftNode.validateBootstrapConfig node.state.nodeId 1 [⟨node.state.nodeId, ""⟩] =
      .ok () :=
    (RaftNode.validateBootstrapConfig_ok_iff _ _ _).mpr ⟨by decide, by simp, by simp⟩
  have hok := hall ⟨0, 0⟩ 1 _ hvalid
  unfold RaftNode.bootstrap at hok
  rw [if_pos h] at hok
  cases hok

/-- A restart at any moment of a life bootstrapped with the deployment gives a usable node exactly
when the stores hold nothing yet, or already a quorum state of the cluster and a voters record. -/
theorem restart_usable_iff
    (hvalid : RaftNode.validateBootstrapConfig i d.clusterId d.voters = .ok ())
    (hlives : Lives d i .any host) {clock : Clock} {faults : Faults}
    (hnew : RaftNode.new d.codec clock faults (d.config i) host.stores = .ok node) :
    node.Usable d ↔ host.stores.Conclusive d := by
  obtain ⟨hcluster, -, hmember⟩ := (RaftNode.validateBootstrapConfig_ok_iff _ _ _).mp hvalid
  have hvoters : d.voters ≠ [] := by
    rintro hempty
    rw [hempty] at hmember
    cases hmember
  have hkept := hlives.storesKept
  rcases RaftNode.new_spec hnew with ⟨hnoData, rfl⟩ | ⟨hdata, h⟩ | ⟨-, hstalled⟩
  · exact iff_of_true (Or.inl fun clock _ _ hargs => fresh_bootstraps hnoData clock hargs)
      (Or.inl hnoData)
  · unfold RaftNode.Usable Stores.Conclusive
    rw [or_iff_right (not_bootstraps h.bootstrapped), or_iff_right hdata, h.voterSet, h.clusterId,
      hkept.recoveredVoters]
    cases hquorum : host.stores.quorumState with
    | none => simp [hvoters.symm]
    | some qs =>
      by_cases hrecord : ∃ e ∈ host.stores.log.entries, e.entryType = .votersRecord
      · simp [hrecord]
      · simp [hrecord, hvoters.symm]
  · have hsnapshot := hstalled.snapshot
    rw [hkept.snapshot] at hsnapshot
    cases hsnapshot

/-- The calls of an environment that does not look at the node. -/
theorem Lives.handleAll (h : Lives d i env (.running node)) {inputs : List NodeInput}
    (hinputs : ∀ input ∈ inputs, d.Permits input.event ∧ ∀ node, env.call node input) :
    Lives d i env (.running (node.handleAll d.codec inputs)) := by
  induction inputs generalizing node with
  | nil => exact h
  | cons input rest ih =>
    obtain ⟨⟨hpermits, hcall⟩, hrest⟩ := List.forall_mem_cons.mp hinputs
    exact ih (h.tail (.call node input hpermits (hcall node))) hrest

/-- The first calls node 1 of the three gets: bootstrap, election timeout, and the vote of node
2. -/
def firstElection : List NodeInput :=
  [⟨.bootstrap 7 [⟨1, "a"⟩, ⟨2, "b"⟩, ⟨3, "c"⟩], ⟨0, 5⟩, {}⟩, ⟨.electionTimeout, ⟨5, 5⟩, {}⟩,
    ⟨.rpc ⟨7, 0, 2, .voteResponse ⟨1, true, false⟩⟩, ⟨6, 5⟩, {}⟩]

/-- Node 1 after a number of these calls, in its first life. -/
def firstLife (calls : ℕ) : RaftNode :=
  (RaftNode.fresh (threeVoters.config 1) 0 Stores.empty).handleAll threeVoters.codec
    (firstElection.take calls)

/-- The first life is one of the lives in every environment that lets its calls return. -/
theorem firstLife_lives {env : Environment}
    (henv : ∀ k input, firstElection[k]? = some input → env.call (firstLife k) input) (calls : ℕ) :
    Lives threeVoters 1 env (.running (firstLife calls)) := by
  have hpermits : ∀ input ∈ firstElection, threeVoters.Permits input.event := by
    intro input hinput clusterId voters hevent
    simp only [firstElection, List.mem_cons, List.not_mem_nil, or_false] at hinput
    rcases hinput with rfl | rfl | rfl
    · cases hevent
      exact ⟨rfl, rfl⟩
    · cases hevent
    · cases hevent
  induction calls with
  | zero => exact .single (.start ⟨0, 5⟩ {} _ _ rfl)
  | succ calls ih =>
    cases hnext : firstElection[calls]? with
    | none =>
      have hsame : firstLife (calls + 1) = firstLife calls := by
        unfold firstLife
        rw [List.take_add_one, hnext, Option.toList_none, List.append_nil]
      exact hsame ▸ ih
    | some input =>
      have hstep : firstLife (calls + 1) = (firstLife calls).handle threeVoters.codec input := by
        unfold firstLife RaftNode.handleAll
        rw [List.take_add_one, hnext, Option.toList_some, List.foldl_concat]
      rw [hstep]
      exact ih.tail (.call _ _ (hpermits _ (List.mem_of_getElem? hnext)) (henv calls input hnext))

/-- A crash after the whole first election leaves a node that knows its voters. -/
theorem restart_usable_elected : ∃ node,
    RaftNode.new threeVoters.codec ⟨9, 5⟩ {} (threeVoters.config 1) (firstLife 3).stores =
      .ok node ∧
      node.Usable threeVoters := by
  have hlives : Lives threeVoters 1 .any (.running (firstLife 3)) :=
    firstLife_lives (fun _ _ _ => trivial) 3
  have hnew : RaftNode.new threeVoters.codec ⟨9, 5⟩ {} (threeVoters.config 1)
    (Host.running (firstLife 3)).stores = .ok _ := rfl
  refine ⟨_, hnew, (restart_usable_iff rfl hlives hnew).mpr (Or.inr ⟨⟨_, rfl, rfl⟩, ?_⟩)⟩
  decide +kernel

/-- A crash between the saved vote and the first voters record leaves a node that knows no voters
and refuses to be bootstrapped. -/
theorem restart_unusable_candidate : Lives threeVoters 1 .any (.down (firstLife 2).stores) ∧ ∃ node,
    RaftNode.new threeVoters.codec ⟨9, 5⟩ {} (threeVoters.config 1) (firstLife 2).stores =
      .ok node ∧
      node.state.voterSet = [] ∧ ¬ node.Usable threeVoters := by
  refine ⟨(firstLife_lives (fun _ _ _ => trivial) 2).tail (.crash _), _, rfl, rfl, ?_⟩
  rintro (hbootstrap | ⟨hvoters, -⟩)
  · exact not_bootstraps rfl hbootstrap
  · cases hvoters

end XRaft
