import Mathlib.Tactic.Common
import XRaft.Lib.AtomicReplace
import XRaft.Storage.Segment

/-!
# The leader-epoch checkpoint

`leader_epoch_checkpoint.rs`: the map from a leader epoch to the offset its tenure starts
at, in memory and in a file that is replaced through a temporary one. The `BTreeMap` of the
source is an ordered map with extensional equality here. `bincode` is a parameter; I/O
errors are left out except for what the content of the file can cause.
-/

namespace XRaft

open Lib

/-- Start offsets by epoch. -/
abbrev EpochMap := Std.ExtTreeMap ℕ ℕ

/-- `bincode` on epoch maps. -/
structure EpochBincode where
  serialize : EpochMap → Except String Bytes
  deserialize : Bytes → Except String EpochMap

/-- The epochs a process keeps in memory. -/
structure LeaderEpochCheckpoint where
  epochs : EpochMap

namespace LeaderEpochCheckpoint

/-- The file `leader-epoch-checkpoint` and its temporary file. -/
abbrev Files := Replaceable Unit Bytes

/-- Open or create a checkpoint. -/
def openFile (bincode : EpochBincode) (files : Files) : Except StorageError LeaderEpochCheckpoint :=
  match files.target with
  | none => .ok ⟨∅⟩
  | some data =>
    if data.isEmpty then .ok ⟨∅⟩
    else
      match bincode.deserialize data with
      | .error e => .error (.corruption s!"leader-epoch-checkpoint parse error: {e}")
      | .ok epochs => .ok ⟨epochs⟩

/-- Write the epochs to the file. -/
def persist (bincode : EpochBincode) (epochs : EpochMap) (files : Files) :
    Except StorageError Unit × Files :=
  match bincode.serialize epochs with
  | .error e => (.error (.serialization s!"leader-epoch-checkpoint serialize: {e}"), files)
  | .ok data => (.ok (), ReplaceOp.applyAll (replaceOps () data none) files)

/-- Replace the epochs, in memory and then in the file. -/
def rebuild (bincode : EpochBincode) (entries : EpochMap) (files : Files) :
    Except StorageError Unit × LeaderEpochCheckpoint × Files :=
  let persisted := persist bincode entries files
  (persisted.1, ⟨entries⟩, persisted.2)

/-- Add an epoch. -/
def append (bincode : EpochBincode) (epoch startOffset : ℕ) (checkpoint : LeaderEpochCheckpoint)
    (files : Files) : Except StorageError Unit × LeaderEpochCheckpoint × Files :=
  rebuild bincode (checkpoint.epochs.insert epoch startOffset) files

/-- The start offset of an epoch. -/
def lookup (checkpoint : LeaderEpochCheckpoint) (epoch : ℕ) : Option ℕ := checkpoint.epochs[epoch]?

/-- The last epoch up to the given one, with its start offset. -/
def lookupLe (checkpoint : LeaderEpochCheckpoint) (epoch : ℕ) : Option (ℕ × ℕ) :=
  (checkpoint.epochs.toList.filter fun entry => decide (entry.1 ≤ epoch)).getLast?

/-- The epoch itself is found exactly if it is in the map. -/
theorem lookupLe_eq_self_iff (checkpoint : LeaderEpochCheckpoint) (epoch startOffset : ℕ) :
    checkpoint.lookupLe epoch = some (epoch, startOffset) ↔
      checkpoint.lookup epoch = some startOffset := by
  unfold lookupLe lookup
  rw [← Std.ExtTreeMap.mem_toList_iff_getElem?_eq_some]
  have hordered := checkpoint.epochs.ordered_keys_toList
  generalize checkpoint.epochs.toList = entries at hordered ⊢
  constructor
  · intro hlast
    exact (List.mem_filter.mp (List.mem_of_getLast? hlast)).1
  · intro hmem
    obtain ⟨below, behind, rfl⟩ := List.append_of_mem hmem
    -- later keys are larger, so nothing behind the epoch is selected
    have hnone : behind.filter (fun entry => decide (entry.1 ≤ epoch)) = [] := by
      apply List.filter_eq_nil_iff.mpr
      intro entry hentry hle
      have hlater := (List.pairwise_append.mp hordered).2.1
      have hless := Nat.compare_eq_lt.mp ((List.pairwise_cons.mp hlater).1 entry hentry)
      exact absurd (of_decide_eq_true hle) (Nat.not_le.mpr hless)
    rw [List.filter_append, List.filter_cons_of_pos (by simp), hnone, List.getLast?_concat]

end LeaderEpochCheckpoint

end XRaft
