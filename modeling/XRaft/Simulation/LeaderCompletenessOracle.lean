import XRaft.Lib.Tally
import XRaft.Simulation.SimulatedCluster

/-!
# The leader-completeness check of the invariant checker

`check_leader_completeness` takes the first leader among the active nodes and asks that its
log has every entry that is present on a majority of the voters, stopped nodes counted too.
It stands for "a leader's log contains every entry committed in prior terms", but presence on
a majority is not commitment, and the first leader met may be one of an old term. The check
finishes exactly if the first leader has what a majority has; a stale leader, or an entry of
an old term that was copied to a majority without being committed, makes it panic on states
in which no committed entry is missing.
-/

namespace XRaft

open Lib

namespace InvariantChecker

/-- The orders in which the maps of counts, one for each offset, are iterated. -/
structure MapOrder where
  iterate : ℕ → List ((ℕ × Bytes) × ℕ) → List ((ℕ × Bytes) × ℕ)
  perm : ∀ offset counts, (iterate offset counts).Perm counts

/-- Maps that are iterated in the order of insertion. -/
def MapOrder.insertion : MapOrder := ⟨fun _ counts => counts, fun _ _ => List.Perm.refl _⟩

/-- Count the entries of all nodes at an offset by term and data. -/
def entryCounts (cluster : SimulatedCluster) (offset : ℕ) :
    Except Violation (List ((ℕ × Bytes) × ℕ)) :=
  cluster.nodeIds.foldlM (fun counts id => do
    let node ← cluster.node id
    match entryAt node.log offset with
    | some e => return bump (e.term, e.payload) counts
    | none => return counts) []

/-- The leader must have an entry that is counted on a majority. -/
def checkCounted (leader : NodeId) (leaderNode : NodeState) (totalVoters offset : ℕ)
    (slot : (ℕ × Bytes) × ℕ) : Except Violation Unit :=
  if totalVoters / 2 + 1 ≤ slot.2 then
    match entryAt leaderNode.log offset with
    | none => .error (.missingCommitted leader offset slot.1.1 slot.2 totalVoters)
    | some le => do
      assertThat (.leaderTerm le.term slot.1.1) (le.term = slot.1.1)
      assertThat (.leaderData le.payload slot.1.2) (le.payload = slot.1.2)
  else .ok ()

/-- One round of the check: what a majority has at an offset. -/
def checkOffset (order : MapOrder) (cluster : SimulatedCluster) (leader : NodeId)
    (leaderNode : NodeState) (offset : ℕ) : Except Violation Unit := do
  let counts ← entryCounts cluster offset
  forM (order.iterate offset counts) fun slot =>
    checkCounted leader leaderNode cluster.voterCount offset slot

/-- The rounds of the check up to the end of the longest log. -/
def checkLeader (order : MapOrder) (cluster : SimulatedCluster) (leader : NodeId) :
    Except Violation Unit := do
  let leaderNode ← cluster.node leader
  let ends ← cluster.nodeIds.mapM fun id => return (← cluster.node id).logEndOffset
  let maxOffset := ends.max?.getD 0
  forM (List.range maxOffset) fun offset => checkOffset order cluster leader leaderNode offset

/-- Invariant 4: leader completeness. -/
def checkLeaderCompleteness (order : MapOrder) (cluster : SimulatedCluster) :
    Except Violation Unit := do
  match ← cluster.activeIds.findM? fun id => return (← cluster.node id).isLeader with
  | none => return ()
  | some leader => checkLeader order cluster leader

/-- A node's entry at an offset, by term and data. -/
def heldAt (offset : ℕ) (driver : NodeId × NodeState) : Option (ℕ × Bytes) :=
  (entryAt driver.2.log offset).map fun e => (e.term, e.payload)

/-- The number of nodes, stopped ones included, with an entry of some term and data at an offset. -/
def copies (cluster : SimulatedCluster) (offset term : ℕ) (data : Bytes) : ℕ :=
  cluster.drivers.countP fun driver => heldAt offset driver = some (term, data)

/-- An entry of some term and data at an offset is present on a majority of the voters. -/
def OnMajority (cluster : SimulatedCluster) (offset term : ℕ) (data : Bytes) : Prop :=
  cluster.voterCount / 2 + 1 ≤ copies cluster offset term data

variable {cluster : SimulatedCluster}

/-- The entries of all nodes are counted. -/
theorem entryCounts_eq (cluster : SimulatedCluster) (offset : ℕ) :
    entryCounts cluster offset = .ok (tally (cluster.drivers.filterMap (heldAt offset))) := by
  rw [tally, List.foldl_filterMap]
  refine foldlM_eq_ok (fun counts driver hdriver => ?_) []
  rw [SimulatedCluster.node_of_mem hdriver, heldAt]
  change (match entryAt driver.2.log offset with | some e => _ | none => _) = _
  cases entryAt driver.2.log offset <;> rfl

/-- The count of a term and data is the number of copies. -/
theorem countP_heldAt (cluster : SimulatedCluster) (offset : ℕ) (key : ℕ × Bytes) :
    (cluster.drivers.filterMap (heldAt offset)).countP (fun other => other = key) =
      copies cluster offset key.1 key.2 := by
  rw [List.countP_filterMap, copies]
  refine List.countP_congr fun driver _ => ?_
  cases heldAt offset driver <;> simp

/-- The check of a counted entry passes if the leader has it, should it be on a majority. -/
theorem checkCounted_eq_ok (leader : NodeId × NodeState) (totalVoters offset : ℕ)
    (slot : (ℕ × Bytes) × ℕ) :
    checkCounted leader.1 leader.2 totalVoters offset slot = .ok () ↔
      (totalVoters / 2 + 1 ≤ slot.2 → heldAt offset leader = some slot.1) := by
  rw [checkCounted, ite_eq_right_iff]
  refine imp_congr_right fun _ => ?_
  rw [heldAt]
  cases entryAt leader.2.log offset with
  | none => exact ⟨nofun, nofun⟩
  | some le => simp [Prod.ext_iff]

/-- The first leader among the active drivers. -/
def firstLeader (cluster : SimulatedCluster) : Option (NodeId × NodeState) :=
  cluster.active.find? fun driver => driver.2.isLeader

/-- The leader the check picks is the first one. -/
theorem findM?_activeIds (cluster : SimulatedCluster) :
    (cluster.activeIds.findM? fun id => return (← cluster.node id).isLeader) =
      .ok ((firstLeader cluster).map Prod.fst) := by
  rw [SimulatedCluster.activeIds_eq]
  refine findM?_eq_ok fun driver hdriver => ?_
  rw [SimulatedCluster.node_of_mem (SimulatedCluster.mem_active.mp hdriver).1]
  rfl

/-- The ends of all logs are looked up. -/
theorem mapM_nodeIds (cluster : SimulatedCluster) :
    (cluster.nodeIds.mapM fun id => return (← cluster.node id).logEndOffset) =
      .ok (cluster.drivers.map fun driver => driver.2.logEndOffset) := by
  refine mapM_eq_ok fun driver hdriver => ?_
  rw [SimulatedCluster.node_of_mem hdriver]
  rfl

/-- The logs start at offset 0 and have no gaps. -/
def LogsFromZero (cluster : SimulatedCluster) : Prop :=
  ∀ driver ∈ cluster.drivers, Consecutive LogEntry.offset 0 driver.2.log ∧
    driver.2.logEndOffset = driver.2.log.length

instance (cluster : SimulatedCluster) : Decidable (LogsFromZero cluster) :=
  inferInstanceAs (Decidable (∀ driver ∈ cluster.drivers,
    Consecutive LogEntry.offset 0 driver.2.log ∧ driver.2.logEndOffset = driver.2.log.length))

/-- What is present on a majority lies below the end of some log. -/
theorem OnMajority.lt_max (hlogs : LogsFromZero cluster) {offset term : ℕ} {data : Bytes}
    (h : OnMajority cluster offset term data) :
    offset < (cluster.drivers.map fun driver => driver.2.logEndOffset).max?.getD 0 := by
  obtain ⟨driver, hdriver, hheld⟩ := List.countP_pos_iff.mp (Nat.lt_of_lt_of_le (Nat.succ_pos _) h)
  obtain ⟨hconsecutive, hend⟩ := hlogs driver hdriver
  obtain ⟨e, hentry, -⟩ := Option.map_eq_some_iff.mp (of_decide_eq_true hheld)
  rw [entryAt_eq hconsecutive] at hentry
  have hbelow := (List.getElem?_eq_some_iff.mp hentry).1
  have hmax := List.le_max?_getD_of_mem (k := 0)
    (List.mem_map_of_mem (f := fun driver : NodeId × NodeState => driver.2.logEndOffset) hdriver)
  omega

/-- A round passes if the leader has what a majority has at the offset. -/
theorem checkOffset_eq_ok (order : MapOrder) (leader : NodeId × NodeState) (offset : ℕ) :
    checkOffset order cluster leader.1 leader.2 offset = .ok () ↔
      ∀ term data, OnMajority cluster offset term data →
        heldAt offset leader = some (term, data) := by
  have hslots : checkOffset order cluster leader.1 leader.2 offset = .ok () ↔
      ∀ slot ∈ tally (cluster.drivers.filterMap (heldAt offset)),
        cluster.voterCount / 2 + 1 ≤ slot.2 → heldAt offset leader = some slot.1 := by
    simp only [checkOffset, entryCounts_eq, bind, Except.bind, forM_eq_ok,
      (order.perm offset _).mem_iff, checkCounted_eq_ok]
  rw [hslots, forall_tally (Nat.succ_pos _) fun key => heldAt offset leader = some key]
  simp only [countP_heldAt, Prod.forall]
  rfl

/-- The rounds pass if the leader has what a majority has anywhere. -/
theorem checkLeader_eq_ok (order : MapOrder) (hlogs : LogsFromZero cluster)
    {leader : NodeId × NodeState} (hleader : leader ∈ cluster.drivers) :
    checkLeader order cluster leader.1 = .ok () ↔
      ∀ offset term data, OnMajority cluster offset term data →
        heldAt offset leader = some (term, data) := by
  rw [checkLeader, SimulatedCluster.node_of_mem hleader, mapM_nodeIds]
  simp only [bind, Except.bind, forM_eq_ok, List.mem_range, checkOffset_eq_ok]
  exact ⟨fun h offset term data hmajority => h offset (hmajority.lt_max hlogs) term data hmajority,
    fun h offset _ => h offset⟩

/-- The check finishes exactly if the first leader has what a majority has. -/
theorem checkLeaderCompleteness_eq_ok (order : MapOrder) (hlogs : LogsFromZero cluster) :
    checkLeaderCompleteness order cluster = .ok () ↔ ∀ leader, firstLeader cluster = some leader →
      ∀ offset term data, OnMajority cluster offset term data →
        heldAt offset leader = some (term, data) := by
  rw [checkLeaderCompleteness, findM?_activeIds]
  cases hleader : firstLeader cluster with
  | none => exact ⟨fun _ _ => nofun, fun _ => rfl⟩
  | some leader =>
    have hmem := (SimulatedCluster.mem_active.mp (List.mem_of_find?_eq_some hleader)).1
    simp only [Option.some.injEq, forall_eq']
    exact checkLeader_eq_ok order hlogs hmem

/-- The active drivers that lead. -/
def activeLeaders (cluster : SimulatedCluster) : List (NodeId × NodeState) :=
  cluster.active.filter fun driver => driver.2.isLeader

/-- No active leader has a higher term. -/
def Highest (cluster : SimulatedCluster) (leader : NodeId × NodeState) : Prop :=
  ∀ other ∈ activeLeaders cluster, other.2.currentTerm ≤ leader.2.currentTerm

instance (leader : NodeId × NodeState) : Decidable (Highest cluster leader) :=
  inferInstanceAs (Decidable (∀ other ∈ activeLeaders cluster,
    other.2.currentTerm ≤ leader.2.currentTerm))

/-- The states in which nothing is wrong with the leaders: their terms are distinct, and the one
with the highest term holds every entry that lies below the high watermark of a node. -/
structure LeaderComplete (cluster : SimulatedCluster) : Prop where
  logs : LogsFromZero cluster
  terms : ∀ first ∈ activeLeaders cluster, ∀ second ∈ activeLeaders cluster,
    first.2.currentTerm = second.2.currentTerm → first.1 = second.1
  holds : ∀ leader ∈ activeLeaders cluster, Highest cluster leader → ∀ driver ∈ cluster.drivers,
    ∀ e ∈ driver.2.log, e.offset < driver.2.highWatermark → entryAt leader.2.log e.offset = some e

/-- The first leader is one of the active leaders. -/
theorem mem_activeLeaders_of_firstLeader {leader : NodeId × NodeState}
    (h : firstLeader cluster = some leader) : leader ∈ activeLeaders cluster := by
  unfold firstLeader at h
  have hleads := List.find?_some h
  exact List.mem_filter.mpr ⟨List.mem_of_find?_eq_some h, hleads⟩

/-- The first leader is the driver of the id that `find_leader` returns. -/
theorem firstLeader_eq_some {leader : NodeId × NodeState} :
    firstLeader cluster = some leader ↔ leader ∈ cluster.drivers ∧
      cluster.findLeader = some leader.1 := by
  have hfound : cluster.findLeader = (firstLeader cluster).map Prod.fst := cluster.findLeader_eq
  constructor
  · intro h
    refine ⟨(SimulatedCluster.mem_active.mp (List.mem_of_find?_eq_some h)).1, ?_⟩
    rw [hfound, h, Option.map_some]
  · intro ⟨hmem, hid⟩
    rw [hfound] at hid
    obtain ⟨found, hfirst, hkey⟩ := Option.map_eq_some_iff.mp hid
    have hfoundMem := (SimulatedCluster.mem_active.mp (List.mem_of_find?_eq_some hfirst)).1
    rw [hfirst, List.inj_on_of_nodup_map cluster.nodup hfoundMem hmem hkey]

/-- What a majority has is committed: it lies below the high watermark of a node that has it. -/
def MajorityCommitted (cluster : SimulatedCluster) : Prop :=
  ∀ offset term data, OnMajority cluster offset term data →
    ∃ driver ∈ cluster.drivers, heldAt offset driver = some (term, data) ∧
    offset < driver.2.highWatermark

/-- If the first leader has the highest term and what a majority has is committed, it has what a
majority has. -/
theorem LeaderComplete.heldAt_firstLeader (h : LeaderComplete cluster)
    (hcommitted : MajorityCommitted cluster) {leader : NodeId × NodeState}
    (hleader : firstLeader cluster = some leader) (hhighest : Highest cluster leader)
    {offset term : ℕ} {data : Bytes} (hmajority : OnMajority cluster offset term data) :
    heldAt offset leader = some (term, data) := by
  obtain ⟨driver, hdriver, hheld, hbelow⟩ := hcommitted offset term data hmajority
  obtain ⟨e, hentry, hkey⟩ := Option.map_eq_some_iff.mp hheld
  have hoffset : e.offset = offset := by simpa using List.find?_some hentry
  have hleads := h.holds leader (mem_activeLeaders_of_firstLeader hleader) hhighest driver hdriver e
    (List.mem_of_find?_eq_some hentry) (hoffset ▸ hbelow)
  rw [hoffset] at hleads
  rw [heldAt, hleads, Option.map_some, hkey]

/-- On states in which nothing is wrong with the leaders, the check finishes exactly if the leader
it meets first has every entry that is present on a majority. It does if that leader has the
highest term and what a majority has is committed. -/
theorem checkLeaderCompleteness_iff (order : MapOrder) (cluster : SimulatedCluster)
    (h : LeaderComplete cluster) :
    (checkLeaderCompleteness order cluster = .ok () ↔
      ∀ leader ∈ cluster.drivers, cluster.findLeader = some leader.1 →
        ∀ offset term data,
        OnMajority cluster offset term data → heldAt offset leader = some (term, data)) ∧
    ((∀ leader ∈ cluster.drivers, cluster.findLeader = some leader.1 → Highest cluster leader) →
      MajorityCommitted cluster → checkLeaderCompleteness order cluster = .ok ()) := by
  rw [checkLeaderCompleteness_eq_ok order h.logs]
  refine ⟨?_, fun hhighest hcommitted leader hleader offset term data hmajority => ?_⟩
  · simp only [firstLeader_eq_some, and_imp]
  · obtain ⟨hmem, hfound⟩ := firstLeader_eq_some.mp hleader
    exact h.heldAt_firstLeader hcommitted hleader (hhighest leader hmem hfound) hmajority

/-- The check finishes on a cluster whose only leader has what a majority has. -/
theorem checkLeaderCompleteness_iff_trailing :
    LeaderComplete .trailing ∧ checkLeaderCompleteness .insertion .trailing = .ok () ∧
      ∀ leader ∈ SimulatedCluster.trailing.drivers, SimulatedCluster.trailing.findLeader =
        some leader.1 →
        ∀ offset term data, OnMajority .trailing offset term data →
          heldAt offset leader = some (term, data) := by
  have hcomplete : LeaderComplete .trailing :=
    ⟨by decide +kernel, by decide +kernel, by decide +kernel⟩
  exact ⟨hcomplete, rfl, (checkLeaderCompleteness_iff .insertion .trailing hcomplete).1.mp rfl⟩

/-- A leader of term 1 is cut off; the leader of term 2 has committed an entry that it misses. -/
def staleLeader : SimulatedCluster where
  drivers := [
    (1, .simulated 3 1 .leader 1 [⟨0, 1, .command, [1]⟩] 1),
    (2, .simulated 3 2 .leader 2 [⟨0, 1, .command, [1]⟩, ⟨1, 2, .command, [2]⟩] 2),
    (3, .simulated 3 3 .follower 2 [⟨0, 1, .command, [1]⟩, ⟨1, 2, .command, [2]⟩] 1)]
  stoppedNodes := []
  nodup := by decide
  keyed := by decide

/-- Node 1 copied its entry of term 2 to a majority in term 4 and stopped before committing
anything in that term; node 5, whose last entry is of term 3, has been elected in term 5 since. -/
def copiedOldTerm : SimulatedCluster where
  drivers := [
    (1, .simulated 5 1 .leader 4 [⟨0, 1, .command, [1]⟩, ⟨1, 2, .command, [2]⟩,
      ⟨2, 4, .command, [4]⟩] 1),
    (2, .simulated 5 2 .follower 5 [⟨0, 1, .command, [1]⟩, ⟨1, 2, .command, [2]⟩] 1),
    (3, .simulated 5 3 .follower 5 [⟨0, 1, .command, [1]⟩, ⟨1, 2, .command, [2]⟩] 1),
    (4, .simulated 5 4 .follower 5 [⟨0, 1, .command, [1]⟩] 1),
    (5, .simulated 5 5 .leader 5 [⟨0, 1, .command, [1]⟩, ⟨1, 3, .command, [3]⟩] 1)]
  stoppedNodes := [1]
  nodup := by decide
  keyed := by decide

/-- The check panics on states in which nothing is wrong with the leaders: when it meets the stale
leader first, and when an entry that was never committed is present on a majority. -/
theorem checkLeaderCompleteness_false_alarm :
    (LeaderComplete staleLeader ∧
      checkLeaderCompleteness .insertion staleLeader = .error (.missingCommitted 1 1 2 2 3)) ∧
    LeaderComplete copiedOldTerm ∧
      checkLeaderCompleteness .insertion copiedOldTerm = .error (.leaderTerm 3 2) :=
  ⟨⟨⟨by decide +kernel, by decide +kernel, by decide +kernel⟩, rfl⟩,
    ⟨by decide +kernel, by decide +kernel, by decide +kernel⟩, rfl⟩

end InvariantChecker

end XRaft
