import XRaft.Core.Types
import XRaft.Lib.Runs

/-!
# The snapshot coordinator

`snapshot_coordinator.rs` creates snapshots at the commit index, installs those a leader
sends, and compacts the log up to the latest one. The `Log` type it is written against is
not in the tree; what it is assumed to do is `discard_before`, which removes exactly the
entries below an index, and `term_at`, which finds the term of an entry that is left.

The coordinator never compares snapshots: whatever is created or installed becomes the
latest. A node on which these calls interleave with appends and commits keeps every
committed index, in a snapshot or in the log, as long as no call replaces the latest
snapshot by one of a lower index.
-/

namespace XRaft.Snapshotting

open Lib

/-- A log of indexed entries, each with its term. -/
structure Log where
  entries : List (ℕ × ℕ)
  deriving DecidableEq, Repr

namespace Log

/-- The term of the entry at an index, if it is in the log. -/
def termAt (log : Log) (index : ℕ) : Option ℕ :=
  (log.entries.find? fun entry => entry.1 == index).map Prod.snd

/-- Add an entry. -/
def append (log : Log) (index term : ℕ) : Log := ⟨log.entries ++ [(index, term)]⟩

/-- Remove the entries below an index. -/
def discardBefore (log : Log) (index : ℕ) : Log :=
  ⟨log.entries.filter fun entry => decide (index ≤ entry.1)⟩

/-- There is an entry at the index. -/
def Has (log : Log) (index : ℕ) : Prop := (log.termAt index).isSome = true

instance (log : Log) (index : ℕ) : Decidable (log.Has index) :=
  inferInstanceAs (Decidable (_ = true))

/-- An index is in the log if some entry carries it. -/
theorem has_iff (log : Log) (index : ℕ) : log.Has index ↔ ∃ term, (index, term) ∈ log.entries := by
  unfold Has termAt
  rw [Option.isSome_map, List.find?_isSome]
  constructor
  · rintro ⟨⟨found, term⟩, hmem, hfound⟩
    exact ⟨term, (beq_iff_eq.mp hfound) ▸ hmem⟩
  · rintro ⟨term, hmem⟩
    exact ⟨_, hmem, beq_self_eq_true index⟩

/-- Appending keeps what is in the log. -/
theorem Has.append {log : Log} {index : ℕ} (h : log.Has index) (added term : ℕ) :
    (log.append added term).Has index := by
  rw [has_iff] at h ⊢
  obtain ⟨found, hmem⟩ := h
  exact ⟨found, List.mem_append_left _ hmem⟩

/-- Discarding keeps the entries from the index on. -/
theorem Has.discardBefore {log : Log} {index bound : ℕ} (h : log.Has index)
    (hbound : bound ≤ index) : (log.discardBefore bound).Has index := by
  rw [has_iff] at h ⊢
  obtain ⟨found, hmem⟩ := h
  exact ⟨found, List.mem_filter.mpr ⟨hmem, decide_eq_true hbound⟩⟩

end Log

/-- The part of a node's state a snapshot records. -/
structure RaftState where
  currentTerm : ℕ
  commitIndex : ℕ
  role : Role
  voters : VotersRecord
  deriving DecidableEq, Repr

namespace SnapshotCoordinator

/-- Metadata attached to every snapshot. -/
structure Metadata where
  lastIncludedIndex : ℕ
  lastIncludedTerm : ℕ
  leaderEpoch : ℕ
  voters : VotersRecord
  deriving DecidableEq, Repr

/-- A point-in-time snapshot of the state machine with its metadata. -/
structure Snapshot where
  metadata : Metadata
  data : Bytes
  deriving DecidableEq, Repr

end SnapshotCoordinator

/-- Coordinates snapshot creation, installation and compaction. -/
structure SnapshotCoordinator where
  snapshotDir : String
  latest : Option SnapshotCoordinator.Snapshot
  /-- The files written so far, with their paths. -/
  written : List (String × Bytes)
  deriving DecidableEq, Repr

namespace SnapshotCoordinator

/-- A coordinator without a snapshot. -/
def new (snapshotDir : String) : SnapshotCoordinator := ⟨snapshotDir, none, []⟩

/-- Write a snapshot to its file, unless the write fails. -/
def persistSnapshot (coordinator : SnapshotCoordinator) (snapshot : Snapshot)
    (fault : Option String) : Except String SnapshotCoordinator :=
  match fault with
  | some reason => .error reason
  | none =>
    let dir := coordinator.snapshotDir
    let index := snapshot.metadata.lastIncludedIndex
    .ok { coordinator with
      written := coordinator.written ++ [(s!"{dir}/snapshot-{index}.bin", snapshot.data)] }

/-- Install a snapshot: persist it and make it the latest. -/
def installSnapshot (coordinator : SnapshotCoordinator) (snapshot : Snapshot)
    (fault : Option String) : Except String Unit × SnapshotCoordinator :=
  match coordinator.persistSnapshot snapshot fault with
  | .error reason => (.error reason, coordinator)
  | .ok persisted => (.ok (), { persisted with latest := some snapshot })

/-- The snapshot that captures the current replicated state. -/
def capture (state : RaftState) (leaderEpoch : ℕ) (log : Log) (stateMachineData : Bytes) :
    Snapshot where
  metadata := {
    lastIncludedIndex := state.commitIndex
    lastIncludedTerm := (log.termAt state.commitIndex).getD state.currentTerm
    leaderEpoch := leaderEpoch
    voters := state.voters }
  data := stateMachineData

/-- Create a snapshot at the commit index: persist it and make it the latest. -/
def createSnapshot (coordinator : SnapshotCoordinator) (state : RaftState)
    (leaderEpoch : ℕ) (log : Log) (stateMachineData : Bytes) (fault : Option String) :
    Except String Snapshot × SnapshotCoordinator :=
  let snapshot := capture state leaderEpoch log stateMachineData
  match coordinator.persistSnapshot snapshot fault with
  | .error reason => (.error reason, coordinator)
  | .ok persisted => (.ok snapshot, { persisted with latest := some snapshot })

/-- Discard the log entries the latest snapshot covers, unless that fails. -/
def compactLog (coordinator : SnapshotCoordinator) (log : Log) (fault : Option String) :
    Except String Unit × Log :=
  match coordinator.latest, fault with
  | some snapshot, none => (.ok (), log.discardBefore snapshot.metadata.lastIncludedIndex)
  | some _, some reason => (.error reason, log)
  | none, _ => (.ok (), log)

/-- The index of the latest snapshot. -/
def latestIndex (coordinator : SnapshotCoordinator) : Option ℕ :=
  coordinator.latest.map fun snapshot => snapshot.metadata.lastIncludedIndex

/-- An installed snapshot is the latest, unless it could not be persisted. -/
theorem latestIndex_installSnapshot (coordinator : SnapshotCoordinator) (snapshot : Snapshot)
    (fault : Option String) :
    (coordinator.installSnapshot snapshot fault).2.latestIndex =
      if fault = none then some snapshot.metadata.lastIncludedIndex
        else coordinator.latestIndex := by
  cases fault <;> rfl

/-- A created snapshot is the latest, unless it could not be persisted. -/
theorem latestIndex_createSnapshot (coordinator : SnapshotCoordinator) (state : RaftState)
    (leaderEpoch : ℕ) (log : Log) (stateMachineData : Bytes) (fault : Option String) :
    (coordinator.createSnapshot state leaderEpoch log stateMachineData fault).2.latestIndex =
      if fault = none then some state.commitIndex else coordinator.latestIndex := by
  cases fault <;> rfl

end SnapshotCoordinator

/-- A node as far as snapshots are concerned. -/
structure SnapshotNode where
  state : RaftState
  log : Log
  coordinator : SnapshotCoordinator
  deriving DecidableEq, Repr

/-- A call on the node; the file system may fail those that use it. -/
inductive SnapshotOp where
  | append (index term : ℕ)
  | commit (index : ℕ)
  | createSnapshot (leaderEpoch : ℕ) (stateMachineData : Bytes) (fault : Option String)
  | installSnapshot (snapshot : SnapshotCoordinator.Snapshot) (fault : Option String)
  | compactLog (fault : Option String)
  deriving DecidableEq, Repr

namespace SnapshotNode

/-- A node nothing has happened to. -/
def new (state : RaftState) (snapshotDir : String) : SnapshotNode :=
  ⟨{ state with commitIndex := 0 }, ⟨[]⟩, SnapshotCoordinator.new snapshotDir⟩

/-- The node after a call. -/
def step (node : SnapshotNode) : SnapshotOp → SnapshotNode
  | .append index term => { node with log := node.log.append index term }
  | .commit index => { node with state := { node.state with commitIndex := index } }
  | .createSnapshot leaderEpoch stateMachineData fault =>
    { node with coordinator :=
        (node.coordinator.createSnapshot node.state leaderEpoch node.log stateMachineData fault).2 }
  | .installSnapshot snapshot fault =>
    { node with coordinator := (node.coordinator.installSnapshot snapshot fault).2 }
  | .compactLog fault => { node with log := (node.coordinator.compactLog node.log fault).2 }

/-- The index is in the latest snapshot or in the log. -/
def Covers (node : SnapshotNode) (index : ℕ) : Prop :=
  (∃ latest ∈ node.coordinator.latestIndex, index ≤ latest) ∨ node.log.Has index

/-- Every committed index is in the latest snapshot or in the log. -/
def KeepsCommitted (node : SnapshotNode) : Prop :=
  ∀ index, 0 < index → index ≤ node.state.commitIndex → node.Covers index

/-- The node's latest snapshot is at least that of an earlier state. -/
def SnapshotFrom (earlier node : SnapshotNode) : Prop :=
  ∀ index ∈ earlier.coordinator.latestIndex, ∃ latest ∈ node.coordinator.latestIndex, index ≤ latest

/-- The commit index moves only over indices the node has. -/
def Admits (node : SnapshotNode) : SnapshotOp → Prop
  | .commit index =>
    ∀ committed, node.state.commitIndex < committed → committed ≤ index → node.Covers committed
  | _ => True

/-- The call does not replace the latest snapshot by one of a lower index. -/
def Forward (node : SnapshotNode) : SnapshotOp → Prop
  | .createSnapshot _ _ none =>
    ∀ latest ∈ node.coordinator.latestIndex, latest ≤ node.state.commitIndex
  | .installSnapshot snapshot none =>
    ∀ latest ∈ node.coordinator.latestIndex, latest ≤ snapshot.metadata.lastIncludedIndex
  | _ => True

variable {node : SnapshotNode}

/-- The latest snapshot that is still the latest is not behind itself. -/
theorem snapshotFrom_of_eq {after : SnapshotNode}
    (h : after.coordinator.latestIndex = node.coordinator.latestIndex) : node.SnapshotFrom after :=
  fun index hindex => ⟨index, h ▸ hindex, le_rfl⟩

/-- A new latest snapshot is not behind the one it replaces exactly if its index is not lower. -/
theorem snapshotFrom_iff_of_replaced {after : SnapshotNode} {index : ℕ}
    (h : after.coordinator.latestIndex = some index) :
    node.SnapshotFrom after ↔ ∀ latest ∈ node.coordinator.latestIndex, latest ≤ index := by
  unfold SnapshotFrom
  rw [h]
  simp only [Option.mem_def, Option.some.injEq, exists_eq_left']

/-- A call leaves the latest snapshot behind exactly if it replaces it by one of a lower index. -/
theorem snapshotFrom_step_iff (node : SnapshotNode) (op : SnapshotOp) :
    node.SnapshotFrom (node.step op) ↔ node.Forward op := by
  cases op with
  | createSnapshot leaderEpoch stateMachineData fault =>
    have hlatest :=
      node.coordinator.latestIndex_createSnapshot node.state leaderEpoch node.log
        stateMachineData fault
    cases fault with
    | none => exact snapshotFrom_iff_of_replaced hlatest
    | some reason => exact iff_of_true (snapshotFrom_of_eq hlatest) trivial
  | installSnapshot snapshot fault =>
    have hlatest := node.coordinator.latestIndex_installSnapshot snapshot fault
    cases fault with
    | none => exact snapshotFrom_iff_of_replaced hlatest
    | some reason => exact iff_of_true (snapshotFrom_of_eq hlatest) trivial
  | _ => exact iff_of_true (snapshotFrom_of_eq rfl) trivial

/-- An index stays covered if the latest snapshot is not left behind and the log keeps what is
above it. -/
theorem Covers.of_snapshotFrom {after : SnapshotNode} {index : ℕ} (h : node.Covers index)
    (hfrom : node.SnapshotFrom after)
    (hlog : node.log.Has index → (∀ latest ∈ after.coordinator.latestIndex, latest ≤ index) →
      after.log.Has index) :
    after.Covers index := by
  rcases h with ⟨latest, hlatest, hle⟩ | hhas
  · obtain ⟨newer, hnewer, hle'⟩ := hfrom latest hlatest
    exact Or.inl ⟨newer, hnewer, hle.trans hle'⟩
  · by_cases hcovered : ∃ latest ∈ after.coordinator.latestIndex, index ≤ latest
    · exact Or.inl hcovered
    · refine Or.inr (hlog hhas fun latest hlatest => ?_)
      exact Nat.le_of_lt (Nat.lt_of_not_le fun hle => hcovered ⟨latest, hlatest, hle⟩)

/-- Compaction removes nothing above the latest snapshot. -/
theorem has_compactLog {index : ℕ} (h : node.log.Has index)
    (habove : ∀ latest ∈ node.coordinator.latestIndex, latest ≤ index) (fault : Option String) :
    (node.coordinator.compactLog node.log fault).2.Has index := by
  unfold SnapshotCoordinator.compactLog
  cases hlatest : node.coordinator.latest with
  | none => exact h
  | some snapshot =>
    cases fault with
    | some reason => exact h
    | none => exact h.discardBefore (habove _ (by simp [SnapshotCoordinator.latestIndex, hlatest]))

/-- No call that leaves the latest snapshot in place or replaces it by one of no lower index loses a
committed index. -/
theorem KeepsCommitted.step (h : node.KeepsCommitted) {op : SnapshotOp} (hadmits : node.Admits op)
    (hforward : node.Forward op) : (node.step op).KeepsCommitted := by
  have hfrom := (snapshotFrom_step_iff node op).mpr hforward
  intro index hpos hindex
  cases op with
  | commit committed =>
    by_cases hold : index ≤ node.state.commitIndex
    · exact (h index hpos hold).of_snapshotFrom hfrom fun hhas _ => hhas
    · exact (hadmits index (Nat.lt_of_not_le hold) hindex).of_snapshotFrom hfrom fun hhas _ => hhas
  | append added term =>
    exact (h index hpos hindex).of_snapshotFrom hfrom fun hhas _ => hhas.append added term
  | compactLog fault =>
    exact (h index hpos hindex).of_snapshotFrom hfrom fun hhas habove =>
      has_compactLog hhas habove fault
  | createSnapshot => exact (h index hpos hindex).of_snapshotFrom hfrom fun hhas _ => hhas
  | installSnapshot => exact (h index hpos hindex).of_snapshotFrom hfrom fun hhas _ => hhas

/-- On a new node, the latest snapshot never goes back and no committed index is ever lost exactly
if no call replaces the latest snapshot by one of a lower index. -/
theorem committed_kept_iff (state : RaftState) (snapshotDir : String) {ops : List SnapshotOp}
    (hops : Along step Admits (new state snapshotDir) ops) :
    Along step (fun node op => node.SnapshotFrom (node.step op) ∧ (node.step op).KeepsCommitted)
        (new state snapshotDir) ops ↔
      Along step Forward (new state snapshotDir) ops := by
  have hnew : (new state snapshotDir).KeepsCommitted :=
    fun index hpos hindex => absurd hpos (Nat.not_lt.mpr hindex)
  refine along_iff step KeepsCommitted (fun node op hkept hadmits => ?_)
    (fun node op hkept hadmits hforward => hkept.step hadmits hforward) hnew hops
  rw [snapshotFrom_step_iff]
  exact and_iff_left_of_imp fun hforward => hkept.step hadmits hforward

/-- A follower nothing has happened to. -/
def idle : SnapshotNode := new ⟨1, 0, .follower, ⟨1, []⟩⟩ "snapshots"

/-- Three entries are appended and committed, a snapshot of them is taken and the log compacted. -/
def compaction : List SnapshotOp :=
  [.append 1 1, .append 2 1, .append 3 1, .commit 3, .createSnapshot 1 [] none, .compactLog none]

/-- A snapshot a leader sent when only the first of these entries was committed. -/
def delayed : SnapshotCoordinator.Snapshot := ⟨⟨1, 1, 1, ⟨1, []⟩⟩, []⟩

/-- The three entries are in the log when they are committed, whatever is called afterwards. -/
theorem compaction_admitted (later : List SnapshotOp)
    (hlater : Along step Admits (compaction.foldl step idle) later) :
    Along step Admits idle (compaction ++ later) := by
  refine ⟨trivial, trivial, trivial, fun committed hlow hhigh => ?_, trivial, trivial, hlater⟩
  have hindex : committed = 1 ∨ committed = 2 ∨ committed = 3 := by
    have hnone : 0 < committed := hlow
    omega
  rcases hindex with rfl | rfl | rfl <;> exact Or.inr (by decide)

/-- Taking a snapshot and compacting the log loses no committed index. -/
theorem committed_kept_compaction :
    Along step (fun node op => node.SnapshotFrom (node.step op) ∧ (node.step op).KeepsCommitted)
      idle
      (compaction ++ []) := by
  have hforward : Along step Forward idle (compaction ++ []) :=
    ⟨trivial, trivial, trivial, trivial, (fun latest hlatest => nomatch hlatest), trivial, trivial⟩
  exact (committed_kept_iff _ _ (compaction_admitted [] trivial)).mpr hforward

/-- Installing the delayed snapshot afterwards takes the latest snapshot back from index 3 to
index 1; index 2 is committed and in neither the snapshot nor the log. -/
theorem committed_lost_delayed :
    Along step Admits idle (compaction ++ [.installSnapshot delayed none]) ∧
      (compaction.foldl step idle).coordinator.latestIndex = some 3 ∧
      ((compaction.foldl step idle).step (.installSnapshot delayed none)).coordinator.latestIndex =
        some 1 ∧
      ((compaction.foldl step idle).step (.installSnapshot delayed none)).state.commitIndex = 3 ∧
      ¬ ((compaction.foldl step idle).step (.installSnapshot delayed none)).Covers 2 := by
  refine ⟨compaction_admitted _ ⟨trivial, trivial⟩, rfl, rfl, rfl, ?_⟩
  rintro (⟨latest, hlatest, hle⟩ | hhas)
  · cases hlatest
    exact absurd hle (by decide)
  · exact absurd hhas (by decide)

end SnapshotNode

end XRaft.Snapshotting
