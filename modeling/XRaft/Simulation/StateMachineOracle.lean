import XRaft.Simulation.LeaderCompletenessOracle
import XRaft.Simulation.TestStateMachine

/-!
# The state-machine check of the invariant checker

`check_state_machine_safety` asks of every active node that its log has all entries below
its high watermark and that its state machine was applied to in increasing order, without
duplicates; and of every two of them that they applied the same records and have the same
committed entries. It looks at the last record of every offset only. For state machines
that were applied to and restored, the order makes that enough: the check finishes exactly
if no two nodes ever applied different records at an offset.
-/

namespace XRaft

open Lib

/-- What makes the check panic. -/
inductive ApplyViolation where
  /-- The look-up of a node fails. -/
  | lookup (violation : Violation)
  /-- A node misses an entry below its high watermark. -/
  | missingCommitted (node : NodeId) (offset highWatermark : ℕ)
  /-- A state machine was applied to twice at an offset. -/
  | duplicateApplies (node : NodeId) (count : ℕ)
  /-- A state machine was not applied to in increasing order. -/
  | applyOrder (node : NodeId) (previous offset : UInt64) (index : ℕ)
  /-- Two state machines applied different data at an offset. -/
  | appliedData (offset : UInt64) (nodeA : NodeId) (dataA : Bytes) (nodeB : NodeId) (dataB : Bytes)
  /-- Two committed entries have different terms. -/
  | committedTerm (left right : ℕ)
  /-- Two committed entries have different data. -/
  | committedData (left right : Bytes)
  deriving DecidableEq, Repr

/-- A cluster with the state machines of its nodes. -/
structure TestCluster extends SimulatedCluster where
  machines : NodeId → TestStateMachine

namespace TestCluster

/-- The state machine of an id, which must be in the map of drivers. -/
def stateMachine (cluster : TestCluster) (id : NodeId) :
    Except ApplyViolation TestStateMachine := do
  let _ ← (cluster.node id).mapError .lookup
  return cluster.machines id

end TestCluster

namespace InvariantChecker

/-- The log of a node has every entry below its high watermark. -/
def checkCommittedPrefix (cluster : TestCluster) (id : NodeId) : Except ApplyViolation Unit := do
  let node ← (cluster.node id).mapError .lookup
  forM (List.range node.highWatermark) fun offset =>
    assertThat (.missingCommitted id offset node.highWatermark)
      ((entryAt node.log offset).isSome = true)

/-- The state machine of a node was applied to in increasing order and never twice at an offset. -/
def checkApplyOrder (cluster : TestCluster) (id : NodeId) : Except ApplyViolation Unit := do
  let machine ← cluster.stateMachine id
  assertThat (.duplicateApplies id machine.duplicateApplyCount) (machine.duplicateApplyCount = 0)
  checkNeighbours (.lookup .outOfBounds) (fun i previous offset => .applyOrder id previous offset i)
    (fun previous offset => previous < offset) machine.applyOrder

/-- The state machines of two nodes have the same data where both have some. -/
def checkApplied (cluster : TestCluster) (nodeA nodeB : NodeId) : Except ApplyViolation Unit := do
  let machineA ← cluster.stateMachine nodeA
  let machineB ← cluster.stateMachine nodeB
  forM machineA.applied.toList fun entry =>
    match machineB.getApplied entry.1 with
    | some recordB => assertThat (.appliedData entry.1 nodeA entry.2.data nodeB recordB.data)
        (entry.2.data = recordB.data)
    | none => .ok ()

/-- Two committed entries at an offset have the same term and data, if both are there. -/
def compareEntries : Option LogEntry → Option LogEntry → Except ApplyViolation Unit
  | some ea, some eb => do
    assertThat (.committedTerm ea.term eb.term) (ea.term = eb.term)
    assertThat (.committedData ea.payload eb.payload) (ea.payload = eb.payload)
  | _, _ => .ok ()

/-- The logs of two nodes have the same entries below both high watermarks. -/
def checkCommitted (cluster : TestCluster) (nodeA nodeB : NodeId) : Except ApplyViolation Unit := do
  let a ← (cluster.node nodeA).mapError .lookup
  let b ← (cluster.node nodeB).mapError .lookup
  forM (List.range (min a.highWatermark b.highWatermark)) fun offset =>
    compareEntries (entryAt a.log offset) (entryAt b.log offset)

/-- Invariant 5: state machine safety. -/
def checkStateMachineSafety (cluster : TestCluster) : Except ApplyViolation Unit :=
  if cluster.activeIds.isEmpty then .ok ()
  else do
    forM cluster.activeIds (checkCommittedPrefix cluster)
    forM cluster.activeIds (checkApplyOrder cluster)
    checkPairs (.lookup .outOfBounds) cluster.activeIds (checkApplied cluster)
    checkPairs (.lookup .outOfBounds) cluster.activeIds (checkCommitted cluster)

variable {cluster : TestCluster} {a b driver : NodeId × NodeState}

/-- The log of a node has every entry below its high watermark. -/
def Complete (driver : NodeId × NodeState) : Prop :=
  ∀ offset < driver.2.highWatermark, ∃ e, entryAt driver.2.log offset = some e

/-- The logs of two nodes agree below both high watermarks. -/
def CommittedAgree (a b : NodeId × NodeState) : Prop :=
  ∀ offset, offset < a.2.highWatermark → offset < b.2.highWatermark →
    heldAt offset a = heldAt offset b

/-- The state machines have the same record where both have one. -/
def AppliedAgree (first second : TestStateMachine) : Prop :=
  ∀ offset recordA recordB, first.getApplied offset = some recordA →
    second.getApplied offset = some recordB →
    recordA = recordB

/-- The look-ups of a driver succeed. -/
theorem lookup_driver (h : driver ∈ cluster.drivers) :
    (cluster.node driver.1).mapError ApplyViolation.lookup = .ok driver.2 ∧
      cluster.stateMachine driver.1 = .ok (cluster.machines driver.1) := by
  rw [TestCluster.stateMachine, SimulatedCluster.node_of_mem h]
  exact ⟨rfl, rfl⟩

/-- The check of the committed entries passes if the log is complete. -/
theorem checkCommittedPrefix_eq_ok (h : driver ∈ cluster.drivers) :
    checkCommittedPrefix cluster driver.1 = .ok () ↔ Complete driver := by
  simp [checkCommittedPrefix, (lookup_driver h).1, bind, Except.bind, Complete,
    Option.isSome_iff_exists]

/-- The check of the order passes if it increases and the counter is zero. -/
theorem checkApplyOrder_eq_ok (h : driver ∈ cluster.drivers) :
    checkApplyOrder cluster driver.1 = .ok () ↔
      (cluster.machines driver.1).duplicateApplyCount = 0 ∧
      (cluster.machines driver.1).applyOrder.Pairwise (· < ·) := by
  rw [checkApplyOrder, (lookup_driver h).2]
  refine (andThen_eq_ok _ _).trans ?_
  rw [assertThat_eq_ok, checkNeighbours_eq_ok, List.isChain_iff_pairwise]

/-- The comparison of two state machines passes if they agree. -/
theorem checkApplied_eq_ok (ha : a ∈ cluster.drivers) (hb : b ∈ cluster.drivers) :
    checkApplied cluster a.1 b.1 = .ok () ↔
      AppliedAgree (cluster.machines a.1) (cluster.machines b.1) := by
  simp only [checkApplied, (lookup_driver ha).2, (lookup_driver hb).2, bind, Except.bind,
    forM_eq_ok, AppliedAgree, Prod.forall, Std.ExtTreeMap.mem_toList_iff_getElem?_eq_some]
  refine forall₂_congr fun offset recordA => ?_
  constructor
  · intro h recordB hA hB
    have hround := h hA
    rw [hB] at hround
    obtain ⟨dataA⟩ := recordA
    obtain ⟨dataB⟩ := recordB
    simpa using hround
  · intro h hA
    cases hB : (cluster.machines b.1).getApplied offset with
    | none => rfl
    | some recordB => simp [h recordB hA hB]

/-- The comparison of two complete logs passes if they agree below both high watermarks. -/
theorem checkCommitted_eq_ok (ha : a ∈ cluster.drivers) (hb : b ∈ cluster.drivers)
    (hcompleteA : Complete a) (hcompleteB : Complete b) :
    checkCommitted cluster a.1 b.1 = .ok () ↔ CommittedAgree a b := by
  simp only [checkCommitted, (lookup_driver ha).1, (lookup_driver hb).1, bind,
    Except.bind, forM_eq_ok, List.mem_range, lt_min_iff, and_imp, CommittedAgree, heldAt]
  refine forall₃_congr fun offset hA hB => ?_
  obtain ⟨ea, hea⟩ := hcompleteA offset hA
  obtain ⟨eb, heb⟩ := hcompleteB offset hB
  rw [hea, heb, compareEntries]
  simp

/-- Agreement of state machines and of committed entries does not depend on the order of the two. -/
theorem AppliedAgree.symm {first second : TestStateMachine} (h : AppliedAgree first second) :
    AppliedAgree second first :=
  fun offset _ _ hB hA => (h offset _ _ hA hB).symm

theorem CommittedAgree.symm (h : CommittedAgree a b) : CommittedAgree b a :=
  fun offset hB hA => (h offset hA hB).symm

/-- The check is its four loops, which do nothing without active nodes. -/
theorem checkStateMachineSafety_loops (cluster : TestCluster) :
    checkStateMachineSafety cluster = .ok () ↔
      (∀ id ∈ cluster.activeIds, checkCommittedPrefix cluster id = .ok ()) ∧
      (∀ id ∈ cluster.activeIds, checkApplyOrder cluster id = .ok ()) ∧
      checkPairs (.lookup .outOfBounds) cluster.activeIds (checkApplied cluster) = .ok () ∧
      checkPairs (.lookup .outOfBounds) cluster.activeIds (checkCommitted cluster) = .ok () := by
  rw [checkStateMachineSafety]
  split
  · rename_i hempty
    rw [List.isEmpty_iff] at hempty
    simp [hempty, checkPairs_eq_ok]
  · rw [← forM_eq_ok, ← forM_eq_ok]
    exact (andThen_eq_ok _ _).trans (and_congr_right fun _ => (andThen_eq_ok _ _).trans
      (and_congr_right fun _ => andThen_eq_ok _ _))

/-- What the check asks of a cluster. -/
theorem checkStateMachineSafety_eq_ok (cluster : TestCluster) :
    checkStateMachineSafety cluster = .ok () ↔
      (∀ driver ∈ cluster.active, Complete driver) ∧
      (∀ driver ∈ cluster.active, (cluster.machines driver.1).duplicateApplyCount = 0 ∧
        (cluster.machines driver.1).applyOrder.Pairwise (· < ·)) ∧
      (∀ a ∈ cluster.active, ∀ b ∈ cluster.active,
        AppliedAgree (cluster.machines a.1) (cluster.machines b.1)) ∧
      ∀ a ∈ cluster.active, ∀ b ∈ cluster.active, CommittedAgree a b := by
  have hmem : ∀ driver ∈ cluster.active, driver ∈ cluster.drivers :=
    fun _ h => (SimulatedCluster.mem_active.mp h).1
  have hprefix : (∀ id ∈ cluster.activeIds, checkCommittedPrefix cluster id = .ok ()) ↔
      ∀ driver ∈ cluster.active, Complete driver := by
    rw [SimulatedCluster.activeIds_eq, List.forall_mem_map]
    exact forall₂_congr fun driver hdriver => checkCommittedPrefix_eq_ok (hmem driver hdriver)
  have horder : (∀ id ∈ cluster.activeIds, checkApplyOrder cluster id = .ok ()) ↔
      ∀ driver ∈ cluster.active, (cluster.machines driver.1).duplicateApplyCount = 0 ∧
        (cluster.machines driver.1).applyOrder.Pairwise (· < ·) := by
    rw [SimulatedCluster.activeIds_eq, List.forall_mem_map]
    exact forall₂_congr fun driver hdriver => checkApplyOrder_eq_ok (hmem driver hdriver)
  have happlied := SimulatedCluster.checkPairs_active (.lookup .outOfBounds) (checkApplied cluster)
    (fun a b => AppliedAgree (cluster.machines a.1) (cluster.machines b.1))
    (fun a ha b hb => checkApplied_eq_ok (hmem a ha) (hmem b hb))
    (fun _ _ _ _ hA hB => Option.some.inj (hA.symm.trans hB)) (fun _ _ => AppliedAgree.symm)
  rw [checkStateMachineSafety_loops, hprefix, horder, happlied]
  refine and_congr_right fun hcomplete => and_congr_right fun _ => and_congr_right fun _ => ?_
  exact SimulatedCluster.checkPairs_active _ (checkCommitted cluster) CommittedAgree
    (fun a ha b hb =>
      checkCommitted_eq_ok (hmem a ha) (hmem b hb) (hcomplete a ha) (hcomplete b hb))
    (fun _ _ _ _ => rfl) (fun _ _ => CommittedAgree.symm)

/-- No two entries of two histories have the same offset and different records. -/
def HistoriesAgree (first second : TestStateMachine) : Prop :=
  ∀ offset recordA recordB, (offset, recordA) ∈ first.appliedHistory →
    (offset, recordB) ∈ second.appliedHistory →
    recordA = recordB

/-- What was applied in increasing order is what the map has. -/
theorem mem_history_iff {machine : TestStateMachine} (h : machine.Coherent)
    (hincreasing : machine.applyOrder.Pairwise (· < ·)) (offset : UInt64) (appRecord : AppRecord) :
    (offset, appRecord) ∈ machine.appliedHistory ↔ machine.getApplied offset = some appRecord := by
  have hnodup : (machine.appliedHistory.map Prod.fst).Nodup := by
    rw [← h.ordered]
    exact hincreasing.imp UInt64.ne_of_lt
  have hlatest : machine.getApplied offset = machine.appliedHistory.reverse.lookup offset :=
    h.latest offset
  rw [hlatest, List.lookup_eq_some_iff]
  constructor
  · intro hmem
    obtain ⟨before, after, hsplit⟩ := List.append_of_mem (List.mem_reverse.mpr hmem)
    refine ⟨before, after, hsplit, fun other hother => ?_⟩
    have hreverse := List.nodup_reverse.mpr hnodup
    rw [← List.map_reverse, hsplit, List.map_append, List.map_cons] at hreverse
    have hother :=
      (List.nodup_append.mp hreverse).2.2 other.1 (List.mem_map_of_mem hother) offset
        List.mem_cons_self
    exact bne_iff_ne.mpr (Ne.symm hother)
  · rintro ⟨before, after, hsplit, -⟩
    rw [← List.mem_reverse, hsplit]
    exact List.mem_append_right _ List.mem_cons_self

/-- A state machine that was applied to, reset and restored from snapshots. -/
def Used (machine : TestStateMachine) : Prop :=
  ∃ operations : List TestStateMachine.Operation, (∀ operation ∈ operations, operation.Genuine) ∧
    machine = TestStateMachine.run operations

/-- For state machines that were applied to, reset and restored from snapshots, the check finishes
exactly if the active nodes have the entries below their high watermarks, applied records in
increasing order, never applied different records at one offset, and agree on what is below both
their high watermarks. -/
theorem checkStateMachineSafety_iff (cluster : TestCluster)
    (hused : ∀ driver ∈ cluster.active, Used (cluster.machines driver.1)) :
    checkStateMachineSafety cluster = .ok () ↔
      (∀ driver ∈ cluster.active, Complete driver) ∧
      (∀ driver ∈ cluster.active, (cluster.machines driver.1).applyOrder.Pairwise (· < ·)) ∧
      (∀ a ∈ cluster.active, ∀ b ∈ cluster.active,
        HistoriesAgree (cluster.machines a.1) (cluster.machines b.1)) ∧
      ∀ a ∈ cluster.active, ∀ b ∈ cluster.active, CommittedAgree a b := by
  have hcoherent : ∀ driver ∈ cluster.active, (cluster.machines driver.1).Coherent := by
    intro driver hdriver
    obtain ⟨operations, hgenuine, hrun⟩ := hused driver hdriver
    rw [hrun]
    exact TestStateMachine.run_coherent hgenuine
  have horder : (∀ driver ∈ cluster.active, (cluster.machines driver.1).duplicateApplyCount = 0 ∧
      (cluster.machines driver.1).applyOrder.Pairwise (· < ·)) ↔
      ∀ driver ∈ cluster.active, (cluster.machines driver.1).applyOrder.Pairwise (· < ·) := by
    refine forall₂_congr fun driver hdriver => and_iff_right_of_imp fun hincreasing => ?_
    exact (hcoherent driver hdriver).duplicates_iff.mpr (hincreasing.imp UInt64.ne_of_lt)
  rw [checkStateMachineSafety_eq_ok, horder]
  refine and_congr_right fun _ => and_congr_right fun hincreasing => and_congr_left fun _ => ?_
  refine forall₂_congr fun a ha => forall₂_congr fun b hb => ?_
  unfold AppliedAgree HistoriesAgree
  simp only [mem_history_iff (hcoherent a ha) (hincreasing a ha),
    mem_history_iff (hcoherent b hb) (hincreasing b hb)]

/-- A leader and a follower that trails it, both with the committed entry applied. -/
def trailingMachines : TestCluster where
  toSimulatedCluster := .trailing
  machines _ := .run [.apply 0 ⟨[1]⟩]

/-- The check passes them, and they have applied the same. -/
theorem checkStateMachineSafety_iff_trailing :
    checkStateMachineSafety trailingMachines = .ok () ∧
      ∀ a ∈ trailingMachines.active, ∀ b ∈ trailingMachines.active,
        HistoriesAgree (trailingMachines.machines a.1) (trailingMachines.machines b.1) := by
  have hused : ∀ driver ∈ trailingMachines.active, Used (trailingMachines.machines driver.1) :=
    fun _ _ => ⟨[.apply 0 ⟨[1]⟩], by simp [TestStateMachine.Operation.Genuine], rfl⟩
  have hpasses : checkStateMachineSafety trailingMachines = .ok () := by decide +kernel
  exact ⟨hpasses, ((checkStateMachineSafety_iff trailingMachines hused).mp hpasses).2.2.1⟩

end InvariantChecker

end XRaft
