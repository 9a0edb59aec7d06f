import XRaft.Core.RaftNode

/-!
# What a node started on given stores looks like, and what bootstrapping checks

`RaftNode::new` has three ways to succeed: nothing is stored and the node is fresh, the
stores are recovered, or restoring the snapshot asks for operator intervention and the
node stays unattached. In each the stores are left alone and the node is determined by
them, apart from the election deadline. Only a fresh node can be bootstrapped.
-/

namespace XRaft

/-- The offset after the latest snapshot, zero without one. -/
def Stores.snapshotEnd (stores : Stores) : ℕ :=
  match stores.snapshot with
  | some snap => snap.metadata.lastIncludedOffset + 1
  | none => 0

/-- The voter set recovery takes from the stores: the snapshot's, else the log's if a quorum state
exists. -/
def Stores.recoveredVoters (codec : VotersCodec) (stores : Stores) : List VoterInfo :=
  match stores.snapshot with
  | some snap => snap.metadata.voters
  | none =>
    if stores.quorumState.isSome ∧ stores.log.logEndOffset > stores.log.logStartOffset then
      (RaftNode.latestVoters codec
        (stores.log.read stores.log.logStartOffset stores.log.logEndOffset)).getD []
    else []

/-- Without a snapshot, recovered voters come from the log. -/
theorem Stores.recoveredVoters_cases (codec : VotersCodec) {stores : Stores}
    (hsnapshot : stores.snapshot = none) :
    stores.recoveredVoters codec = [] ∨
      RaftNode.latestVoters codec
        (stores.log.read stores.log.logStartOffset stores.log.logEndOffset) =
        some (stores.recoveredVoters codec) := by
  unfold Stores.recoveredVoters
  rw [hsnapshot]
  dsimp only
  split
  · cases RaftNode.latestVoters codec
        (stores.log.read stores.log.logStartOffset stores.log.logEndOffset) with
    | none => exact Or.inl rfl
    | some voters => exact Or.inr rfl
  · exact Or.inl rfl

/-- Nothing has been stored. -/
def Stores.NoData (stores : Stores) : Prop :=
  stores.log.logStartOffset = 0 ∧ stores.log.logEndOffset = 0 ∧ stores.quorumState = none ∧
    stores.snapshot = none

instance (stores : Stores) : Decidable stores.NoData := inferInstanceAs (Decidable (_ ∧ _))

namespace RaftNode

/-- The node before recovery has looked at the stores. -/
def fresh (config : RaftConfig) (now : ℕ) (stores : Stores) : RaftNode :=
  ⟨NodeState.newUnattached config.nodeId now, config, stores, false, []⟩

/-- The node is the follower that recovery makes of the stores. -/
structure Recovered (codec : VotersCodec) (config : RaftConfig) (stores : Stores)
    (node : RaftNode) : Prop where
  kept : node.stores = stores
  nodeId : node.state.nodeId = config.nodeId
  role : node.state.role = .follower
  bootstrapped : node.bootstrapped = true
  currentTerm : node.state.currentTerm = (stores.quorumState.map (·.currentTerm)).getD 0
  votedFor : node.state.votedFor = stores.quorumState.bind (·.votedFor)
  clusterId : node.state.clusterId = (stores.quorumState.map (·.clusterId)).getD ClusterId.nil
  logStartOffset : node.state.logStartOffset = max stores.snapshotEnd stores.log.logStartOffset
  logEndOffset : node.state.logEndOffset = max stores.log.logEndOffset stores.snapshotEnd
  highWatermark : node.state.highWatermark = stores.snapshotEnd
  voterSet : node.state.voterSet = stores.recoveredVoters codec
  votesReceived : node.state.votesReceived = ∅

/-- The node stopped recovering at its snapshot and waits, unattached, for an operator. -/
structure Stalled (config : RaftConfig) (stores : Stores) (node : RaftNode) : Prop where
  kept : node.stores = stores
  nodeId : node.state.nodeId = config.nodeId
  role : node.state.role = .unattached
  bootstrapped : node.bootstrapped = true
  snapshot : stores.snapshot.isSome = true

variable {codec : VotersCodec} {clock : Clock} {faults : Faults} {config : RaftConfig}
  {stores : Stores} {node : RaftNode}

/-- Restoring the voters fails on a storage error, or yields the recovered voter set. -/
theorem restoreVoters_cases (codec : VotersCodec) (faults : Faults)
    (hvoters : node.state.voterSet = (node.stores.snapshot.map (·.metadata.voters)).getD []) :
    (∃ reason, node.restoreVoters codec faults = (.error (.storageError reason), node)) ∨
      node.restoreVoters codec faults = (.ok (), { node with
        state := { node.state with voterSet := node.stores.recoveredVoters codec } }) := by
  unfold restoreVoters Stores.recoveredVoters
  cases hsnapshot : node.stores.snapshot with
  | some snap =>
    simp only [hsnapshot, Option.map_some, Option.getD_some] at hvoters
    right
    simp [← hvoters]
  | none =>
    simp only [hsnapshot, Option.map_none, Option.getD_none] at hvoters
    simp only [Option.isNone_none, true_and]
    split
    · cases faults.read with
      | some reason => exact Or.inl ⟨reason, rfl⟩
      | none =>
        right
        cases latestVoters codec
            (node.stores.log.read node.stores.log.logStartOffset node.stores.log.logEndOffset) with
        | some voters => rfl
        | none => simp [← hvoters]
    · right
      simp [← hvoters]

/-- A fresh node after the quorum state and the snapshot have been restored into it. -/
def restored (config : RaftConfig) (now : ℕ) (stores : Stores) : RaftNode :=
  (fresh config now stores).restoreQuorumState.restoreSnapshot

/-- A restored node that gets its log bounds, voters and role is the recovered one. -/
theorem restored_recovered (codec : VotersCodec) (config : RaftConfig) (now deadline : ℕ)
    (stores : Stores) :
    Recovered codec config stores
      { (restored config now stores).restoreLogBounds with
        state := { (restored config now stores).restoreLogBounds.state with
          voterSet := (restored config now stores).restoreLogBounds.stores.recoveredVoters codec
          role := .follower
          electionDeadline := deadline }
        bootstrapped := true } := by
  obtain ⟨log, quorumState, snapshot⟩ := stores
  cases quorumState <;> cases snapshot <;> exact ⟨rfl, rfl, rfl, rfl, rfl, rfl, rfl, rfl, rfl,
    rfl, rfl, rfl⟩

/-- Restoring leaves the stores alone. -/
theorem restored_stores (config : RaftConfig) (now : ℕ) (stores : Stores) :
    (restored config now stores).stores = stores := by
  obtain ⟨log, quorumState, snapshot⟩ := stores
  cases quorumState <;> cases snapshot <;> rfl

/-- A restored node has the snapshot's voters. -/
theorem restored_voterSet (config : RaftConfig) (now : ℕ) (stores : Stores) :
    (restored config now stores).state.voterSet =
      (stores.snapshot.map (·.metadata.voters)).getD [] := by
  obtain ⟨log, quorumState, snapshot⟩ := stores
  cases quorumState <;> cases snapshot <;> rfl

/-- A node restored from a snapshot and no further is stalled. -/
theorem restored_stalled (config : RaftConfig) (now : ℕ) (stores : Stores)
    (hsnapshot : stores.snapshot.isSome = true) :
    Stalled config stores { restored config now stores with bootstrapped := true } := by
  obtain ⟨log, quorumState, snapshot⟩ := stores
  cases quorumState <;> cases snapshot <;> exact ⟨rfl, rfl, rfl, rfl, hsnapshot⟩

/-- Recovery fails on storage, stalls at the snapshot, or makes a follower of the stores. -/
theorem recover_spec (codec : VotersCodec) (clock : Clock) (faults : Faults)
    (config : RaftConfig) (now : ℕ) (stores : Stores) :
    (∃ reason failed, (fresh config now stores).recover codec clock faults =
        (.error (.storageError reason), failed)) ∨
      (∃ e failed, (fresh config now stores).recover codec clock faults = (.error e, failed) ∧
        faults.restore = some e ∧ Stalled config stores { failed with bootstrapped := true }) ∨
      ∃ recovered, (fresh config now stores).recover codec clock faults = (.ok (), recovered) ∧
        Recovered codec config stores recovered := by
  unfold recover
  cases faults.load with
  | some reason => exact Or.inl ⟨reason, _, rfl⟩
  | none =>
    cases faults.loadLatest with
    | some reason => exact Or.inl ⟨reason, _, rfl⟩
    | none =>
      have hstores := restored_stores config now stores
      unfold restored at hstores
      dsimp only
      rw [hstores]
      cases hrestore : (if stores.snapshot.isSome then faults.restore else none) with
      | some e =>
        by_cases hsnapshot : stores.snapshot.isSome = true
        · rw [if_pos hsnapshot] at hrestore
          exact Or.inr (Or.inl ⟨e, _, rfl, hrestore, restored_stalled config now stores hsnapshot⟩)
        · rw [if_neg hsnapshot] at hrestore
          cases hrestore
      | none =>
        have hbounds : (restored config now stores).restoreLogBounds.stores = stores :=
          restored_stores config now stores
        have hvoters : (restored config now stores).restoreLogBounds.state.voterSet =
            ((restored config now stores).restoreLogBounds.stores.snapshot.map
              (·.metadata.voters)).getD [] := by
          rw [hbounds]
          exact restored_voterSet config now stores
        rcases restoreVoters_cases codec faults hvoters with ⟨reason, hfail⟩ | hok
        · unfold restored at hfail
          rw [hfail]
          exact Or.inl ⟨reason, _, rfl⟩
        · unfold restored at hok
          rw [hok]
          exact Or.inr (Or.inr ⟨_, rfl, restored_recovered codec config now _ stores⟩)

/-- A check for existing data that finds none has seen empty stores. -/
theorem noData_of_hasExistingData (h : hasExistingData stores faults = .ok false) :
    stores.NoData := by
  unfold hasExistingData at h
  split at h
  · cases h
  rename_i hlog
  obtain ⟨hstart, hend⟩ := not_or.mp hlog
  cases hload : faults.loadExisting with
  | some reason => simp [hload] at h
  | none =>
    cases hquorum : stores.quorumState with
    | some qs => simp [hload, hquorum] at h
    | none =>
      cases hlatest : faults.loadLatestExisting with
      | some reason => simp [hload, hquorum, hlatest] at h
      | none =>
        simp only [hload, hquorum, hlatest, Option.isSome_none, Bool.false_eq_true, if_false,
          Except.ok.injEq, Option.isSome_eq_false_iff, Option.isNone_iff_eq_none] at h
        exact ⟨not_not.mp hstart, not_not.mp hend, hquorum, h⟩

/-- A check for existing data that finds some has seen stores with data. -/
theorem data_of_hasExistingData (h : hasExistingData stores faults = .ok true) :
    ¬ stores.NoData := by
  rintro ⟨hstart, hend, hquorum, hsnapshot⟩
  unfold hasExistingData at h
  rw [if_neg (by simp [hstart, hend]), hquorum, hsnapshot] at h
  cases hload : faults.loadExisting <;> cases hlatest : faults.loadLatestExisting <;>
    simp [hload, hlatest] at h

/-- A started node is fresh on empty stores, or recovered, or stalled. -/
theorem new_spec (hnew : new codec clock faults config stores = .ok node) :
    (stores.NoData ∧ node = fresh config clock.now stores) ∨
      (¬ stores.NoData ∧ Recovered codec config stores node) ∨
      (faults.restore = some .recoveryRequired ∧ Stalled config stores node) := by
  unfold new at hnew
  cases hconfig : config.validate with
  | error reason => simp [hconfig] at hnew
  | ok _ =>
    cases hdata : hasExistingData stores faults with
    | error e => simp [hconfig, hdata] at hnew
    | ok hasData =>
      simp only [hconfig, hdata] at hnew
      cases hasData with
      | false =>
        simp only [Bool.false_eq_true, if_false, Except.ok.injEq] at hnew
        exact Or.inl ⟨noData_of_hasExistingData hdata, hnew.symm⟩
      | true =>
        simp only [if_true] at hnew
        rcases recover_spec codec clock faults config clock.now stores with
          ⟨reason, failed, hfail⟩ | ⟨e, failed, hfail, hrestore, hstalled⟩ |
          ⟨recovered, hok, hrecovered⟩
        · unfold fresh at hfail
          simp [hfail] at hnew
        · unfold fresh at hfail
          rw [hfail] at hnew
          cases e <;> simp only [Except.ok.injEq, reduceCtorEq] at hnew
          rw [← hnew]
          exact Or.inr (Or.inr ⟨hrestore, hstalled⟩)
        · unfold fresh at hok
          simp only [hok, Except.ok.injEq] at hnew
          rw [← hnew]
          exact Or.inr (Or.inl ⟨data_of_hasExistingData hdata, hrecovered⟩)

/-- Starting a node leaves the stores alone. -/
theorem new_stores (hnew : new codec clock faults config stores = .ok node) :
    node.stores = stores := by
  rcases new_spec hnew with ⟨_, rfl⟩ | ⟨_, hrecovered⟩ | ⟨_, hstalled⟩
  · rfl
  · exact hrecovered.kept
  · exact hstalled.kept

/-- A list passes the duplicate check if its ids are distinct and none was seen before. -/
theorem duplicateVoter_eq_none_iff (seen : Finset NodeId) (voters : List VoterInfo) :
    duplicateVoter seen voters = none ↔
      (voters.map VoterInfo.nodeId).Nodup ∧ ∀ id ∈ voters.map VoterInfo.nodeId, id ∉ seen := by
  induction voters generalizing seen with
  | nil => simp [duplicateVoter]
  | cons voter rest ih =>
    rw [duplicateVoter, List.map_cons, List.nodup_cons, List.forall_mem_cons]
    by_cases hseen : voter.nodeId ∈ seen
    · simp [hseen]
    · rw [if_neg hseen, ih]
      simp only [Finset.mem_insert, not_or]
      constructor
      · rintro ⟨hnodup, hfresh⟩
        exact ⟨⟨fun hmem => (hfresh _ hmem).1 rfl, hnodup⟩, hseen, fun id hid => (hfresh id hid).2⟩
      · rintro ⟨⟨hfirst, hnodup⟩, -, hfresh⟩
        exact ⟨hnodup, fun id hid => ⟨fun heq => hfirst (heq ▸ hid), hfresh id hid⟩⟩

/-- Bootstrap arguments are valid if the cluster has an id and distinct voters, the node among
them. -/
theorem validateBootstrapConfig_ok_iff (nodeId : NodeId) (clusterId : ClusterId)
    (voters : List VoterInfo) :
    validateBootstrapConfig nodeId clusterId voters = .ok () ↔
      clusterId ≠ ClusterId.nil ∧ (voters.map VoterInfo.nodeId).Nodup ∧
        nodeId ∈ voters.map VoterInfo.nodeId := by
  have hduplicate := duplicateVoter_eq_none_iff ∅ voters
  simp only [Finset.notMem_empty, not_false_eq_true, implies_true, and_true] at hduplicate
  rw [← hduplicate]
  unfold validateBootstrapConfig
  by_cases hcluster : clusterId = ClusterId.nil
  · simp [hcluster]
  cases voters with
  | nil => simp [hcluster]
  | cons voter rest =>
    cases hfirst : duplicateVoter ∅ (voter :: rest) with
    | some id => simp [hcluster]
    | none =>
      simp only [hcluster, if_false, List.isEmpty_cons, Bool.false_eq_true, ne_eq,
        not_false_eq_true, true_and]
      have hany : (voter :: rest).any (fun other => other.nodeId == nodeId) = true ↔
          nodeId ∈ (voter :: rest).map VoterInfo.nodeId := by
        simp only [List.any_eq_true, List.mem_map, beq_iff_eq]
      rw [← hany]
      split <;> simp_all

end RaftNode

end XRaft
