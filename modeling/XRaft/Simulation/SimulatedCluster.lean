import XRaft.Core.Types
import XRaft.Lib.Assertions
import XRaft.Lib.Checked
import XRaft.Lib.Consecutive

/-!
# The simulated cluster as the invariant checker sees it

A cluster keeps its nodes in a hash map, and the checker looks at every node through the
map: its ids in the map's order of iteration, and the node of an id. The drivers are listed
in that order, which is arbitrary but the same for every pass over an unchanged map.
-/

namespace XRaft

open Lib

/-- What makes a check panic. -/
inductive Violation where
  /-- `node` is asked for an id that no driver has. -/
  | nodeNotFound (id : NodeId)
  /-- An index past the end of the active ids. -/
  | outOfBounds
  /-- The terms at an offset differ though a later entry matches. -/
  | matchingTerm (offset : ℕ) (nodeA nodeB : NodeId)
  /-- The entry types at an offset differ though a later entry matches. -/
  | matchingType (offset : ℕ) (nodeA nodeB : NodeId)
  /-- The data at an offset differ though a later entry matches. -/
  | matchingData (offset : ℕ) (nodeA nodeB : NodeId)
  /-- One log has the offset, the other one has later entries only. -/
  | prefixGap (offset : ℕ) (has lacks : NodeId)
  /-- The leader misses an entry that is present on a majority. -/
  | missingCommitted (leader : NodeId) (offset term count totalVoters : ℕ)
  /-- The leader's entry has another term than the one that is present on a majority. -/
  | leaderTerm (left right : ℕ)
  /-- The leader's entry has other data than the one that is present on a majority. -/
  | leaderData (left right : Bytes)
  deriving DecidableEq, Repr

/-- The nodes by id, in the order in which the map is iterated, and the stopped ones. -/
structure SimulatedCluster where
  drivers : List (NodeId × NodeState)
  stoppedNodes : List NodeId
  nodup : (drivers.map Prod.fst).Nodup
  keyed : ∀ driver ∈ drivers, driver.2.nodeId = driver.1

/-- Whether the node is a leader. -/
def NodeState.isLeader (node : NodeState) : Bool := node.role = .leader

namespace SimulatedCluster

/-- The ids of the map, in the order of iteration. -/
def nodeIds (cluster : SimulatedCluster) : List NodeId := cluster.drivers.map Prod.fst

/-- The node of an id, which must be in the map. -/
def node (cluster : SimulatedCluster) (id : NodeId) : Except Violation NodeState :=
  match cluster.drivers.find? fun driver => driver.1 == id with
  | some driver => .ok driver.2
  | none => .error (.nodeNotFound id)

/-- The size of the first node's voter set. -/
def voterCount (cluster : SimulatedCluster) : ℕ :=
  match cluster.drivers.head? with
  | some driver => driver.2.voterSet.length
  | none => 0

/-- The ids of the nodes that are not stopped. -/
def activeIds (cluster : SimulatedCluster) : List NodeId :=
  cluster.nodeIds.filter fun id => decide (id ∉ cluster.stoppedNodes)

/-- The first leader among the active nodes. -/
def findLeader (cluster : SimulatedCluster) : Option NodeId :=
  (((cluster.drivers.map Prod.snd).filter fun node =>
    decide (node.nodeId ∉ cluster.stoppedNodes)).find?
    NodeState.isLeader).map NodeState.nodeId

/-- The drivers that are not stopped. -/
def active (cluster : SimulatedCluster) : List (NodeId × NodeState) :=
  cluster.drivers.filter fun driver => decide (driver.1 ∉ cluster.stoppedNodes)

variable {cluster : SimulatedCluster} {driver : NodeId × NodeState}

/-- The node of a driver's id is the driver's. -/
theorem node_of_mem (h : driver ∈ cluster.drivers) : cluster.node driver.1 = .ok driver.2 := by
  cases hfound : cluster.drivers.find? fun other => other.1 == driver.1 with
  | none => exact absurd (beq_self_eq_true driver.1) (List.find?_eq_none.mp hfound driver h)
  | some found =>
    have hkey : found.1 = driver.1 := by simpa using List.find?_some hfound
    have hsame := List.inj_on_of_nodup_map cluster.nodup (List.mem_of_find?_eq_some hfound) h hkey
    rw [node, hfound, hsame]

/-- The active ids are those of the active drivers. -/
theorem activeIds_eq (cluster : SimulatedCluster) :
    cluster.activeIds = cluster.active.map Prod.fst := by
  rw [activeIds, nodeIds, List.filter_map]
  rfl

theorem mem_active :
    driver ∈ cluster.active ↔ driver ∈ cluster.drivers ∧ driver.1 ∉ cluster.stoppedNodes := by
  rw [active, List.mem_filter, decide_eq_true_eq]

/-- The leader that is found is the first active driver that leads. -/
theorem findLeader_eq (cluster : SimulatedCluster) :
    cluster.findLeader = (cluster.active.find? fun driver => driver.2.isLeader).map Prod.fst := by
  have hactive : cluster.drivers.filter
      ((fun node => decide (node.nodeId ∉ cluster.stoppedNodes)) ∘ Prod.snd) =
      cluster.active :=
    List.filter_congr fun driver hdriver =>
      by rw [Function.comp_apply, cluster.keyed driver hdriver]
  rw [findLeader, List.filter_map, hactive, List.find?_map, Option.map_map]
  cases hfound : cluster.active.find? (NodeState.isLeader ∘ Prod.snd) with
  | none =>
    change cluster.active.find? (fun driver => driver.2.isLeader) = none at hfound
    rw [hfound]
    rfl
  | some leader =>
    have hmem := (mem_active.mp (List.mem_of_find?_eq_some hfound)).1
    change cluster.active.find? (fun driver => driver.2.isLeader) = some leader at hfound
    rw [hfound]
    exact congrArg some (cluster.keyed leader hmem)

/-- A check of every two active nodes passes if a symmetric relation that it decides holds of all
of them. -/
theorem checkPairs_active {ε : Type} (outOfBounds : ε) (check : NodeId → NodeId → Except ε Unit)
    (related : NodeId × NodeState → NodeId × NodeState → Prop)
    (hcheck : ∀ a ∈ cluster.active, ∀ b ∈ cluster.active, check a.1 b.1 = .ok () ↔ related a b)
    (hrefl : ∀ a, related a a) (hsymm : ∀ a b, related a b → related b a) :
    checkPairs outOfBounds cluster.activeIds check = .ok () ↔
      ∀ a ∈ cluster.active, ∀ b ∈ cluster.active, related a b := by
  rw [checkPairs_eq_ok, activeIds_eq, List.pairwise_map]
  have hpairs : (cluster.active.Pairwise fun a b => check a.1 b.1 = .ok ()) ↔
      cluster.active.Pairwise related := List.Pairwise.iff_of_mem fun ha hb => hcheck _ ha _ hb
  rw [hpairs]
  constructor
  · intro h a ha b hb
    have hsymm' : Std.Symm related := ⟨hsymm⟩
    exact h.forall_of_forall (fun driver _ => hrefl driver) ha hb
  · exact fun h => List.Pairwise.imp_mem.mpr (List.pairwise_of_forall fun a b ha hb => h a ha b hb)

end SimulatedCluster

namespace InvariantChecker

/-- The entry of a log with a given offset. -/
def entryAt (log : List LogEntry) (offset : ℕ) : Option LogEntry :=
  log.find? fun e => e.offset == offset

variable {log : List LogEntry}

/-- In a log without gaps, the entry of an offset stands at that position. -/
theorem entryAt_eq (h : Consecutive LogEntry.offset 0 log) (offset : ℕ) :
    entryAt log offset = log[offset]? := by
  rw [entryAt, h.find?_key (Nat.zero_le offset), Nat.sub_zero]

/-- A log without gaps has an entry at every offset below one of its entries. -/
theorem exists_entryAt (h : Consecutive LogEntry.offset 0 log) {offset earlier : ℕ} {e : LogEntry}
    (hentry : entryAt log offset = some e) (hearlier : earlier ≤ offset) :
    ∃ e', entryAt log earlier = some e' := by
  rw [entryAt_eq h] at hentry ⊢
  have hlength := (List.getElem?_eq_some_iff.mp hentry).1
  exact ⟨_, List.getElem?_eq_getElem (Nat.lt_of_le_of_lt hearlier hlength)⟩

/-- An entry of a log without gaps is the one of its offset. -/
theorem entryAt_offset (h : Consecutive LogEntry.offset 0 log) {e : LogEntry} (he : e ∈ log) :
    entryAt log e.offset = some e := by
  obtain ⟨i, hi⟩ := List.getElem?_of_mem he
  have hoffset := h.key_getElem? hi
  rw [Nat.zero_add] at hoffset
  rw [entryAt_eq h, hoffset, hi]

end InvariantChecker

/-- A node of a cluster of some voters, numbered from 1, with a log from offset 0 on. -/
def NodeState.simulated (voters : ℕ) (id : NodeId) (role : Role) (term : ℕ) (log : List LogEntry)
    (highWatermark : ℕ) : NodeState :=
  { NodeState.newUnattached id 0 with
    role := role
    currentTerm := term
    log := log
    logEndOffset := log.length
    highWatermark := highWatermark
    voterSet := (List.range' 1 voters).map fun i => ⟨i, s!"127.0.0.1:{9000 + i}"⟩ }

/-- A leader and a follower that has yet to fetch an entry, and a stopped node with an entry of
its own. -/
def SimulatedCluster.trailing : SimulatedCluster where
  drivers := [
    (2, .simulated 3 2 .follower 2 [⟨0, 1, .command, [1]⟩] 1),
    (1, .simulated 3 1 .leader 2 [⟨0, 1, .command, [1]⟩, ⟨1, 2, .command, [2]⟩] 1),
    (3, .simulated 3 3 .follower 1 [⟨0, 1, .command, [3]⟩] 0)]
  stoppedNodes := [3]
  nodup := by decide
  keyed := by decide

end XRaft
