import Mathlib.Algebra.Group.Nat.Defs
import XRaft.Core.Types
import XRaft.Lib.Consecutive

/-!
# The log store behind a node

`RaftNode` reaches its durable log through the `LogStore` trait. The store below keeps
the entries in order together with the first offset, which is what the in-memory
implementation of `xraft-test` does; entries are selected by the offset they carry.
Whether a call fails is decided by the environment, not by the store, so the
operations here describe calls that succeed.
-/

namespace XRaft

/-- The stored entries and the first offset still in the log. -/
structure LogStore where
  entries : List LogEntry
  startOffset : ℕ
  deriving DecidableEq, Repr

namespace LogStore

open Lib

/-- A store nothing has been written to. -/
def new : LogStore := ⟨[], 0⟩

/-- Append entries at the end, without looking at their offsets. -/
def append (store : LogStore) (entries : List LogEntry) : LogStore :=
  { store with entries := store.entries ++ entries }

/-- The entries with offsets in `[startOffset, endOffset)`. -/
def read (store : LogStore) (startOffset endOffset : ℕ) : List LogEntry :=
  store.entries.filter fun e => decide (startOffset ≤ e.offset) && decide (e.offset < endOffset)

/-- Remove the entries from `fromOffset` on. -/
def truncateSuffix (store : LogStore) (fromOffset : ℕ) : LogStore :=
  { store with entries := store.entries.filter fun e => decide (e.offset < fromOffset) }

/-- Remove the entries below `upToOffset` and remember the new start. -/
def truncatePrefix (store : LogStore) (upToOffset : ℕ) : LogStore where
  entries := store.entries.filter fun e => decide (upToOffset ≤ e.offset)
  startOffset := upToOffset

/-- The first offset still in the log. -/
def logStartOffset (store : LogStore) : ℕ := store.startOffset

/-- The offset after the last entry, or the start of an empty log, as a number without a bound. -/
def logEndOffset (store : LogStore) : ℕ :=
  match store.entries.getLast? with
  | some e => e.offset + 1
  | none => store.startOffset

/-- The same as the `u64` a release build returns: behind the largest offset it is zero again. -/
def logEndOffset64 (store : LogStore) : ℕ := store.logEndOffset % 2 ^ 64

/-- The entry at an offset, if there is one. -/
def entryAt (store : LogStore) (offset : ℕ) : Option LogEntry :=
  store.entries.find? fun e => e.offset == offset

/-- Reading returns stored entries only. -/
theorem mem_entries_of_mem_read {store : LogStore} {low high : ℕ} {e : LogEntry}
    (h : e ∈ store.read low high) : e ∈ store.entries :=
  List.mem_of_mem_filter h

/-- Truncating a suffix leaves stored entries only. -/
theorem mem_entries_of_mem_truncateSuffix {store : LogStore} {offset : ℕ} {e : LogEntry}
    (h : e ∈ (store.truncateSuffix offset).entries) : e ∈ store.entries :=
  List.mem_of_mem_filter h

/-- The stored offsets follow each other without a gap, from the start of the log on. -/
def Contiguous (store : LogStore) : Prop :=
  Consecutive LogEntry.offset store.startOffset store.entries

instance (store : LogStore) : Decidable store.Contiguous :=
  inferInstanceAs (Decidable (Consecutive LogEntry.offset store.startOffset store.entries))

variable {store : LogStore}

/-- The end of a contiguous log counts its entries. -/
theorem Contiguous.logEndOffset_eq (h : store.Contiguous) :
    store.logEndOffset = store.startOffset + store.entries.length := by
  unfold logEndOffset
  cases hlast : store.entries.getLast? with
  | none =>
    rw [List.getLast?_eq_none_iff] at hlast
    rw [hlast, List.length_nil, Nat.add_zero]
  | some e =>
    have hkey := Consecutive.key_getElem? h (List.getLast?_eq_getElem? ▸ hlast)
    have hpos := List.length_pos_of_mem (List.mem_of_getLast? hlast)
    dsimp only
    omega

/-- An entry at the end offset keeps the log contiguous. -/
theorem Contiguous.append (h : store.Contiguous) {e : LogEntry}
    (he : e.offset = store.logEndOffset) :
    (store.append [e]).Contiguous := by
  have hnext : Consecutive LogEntry.offset (store.startOffset + store.entries.length) [e] := by
    rw [consecutive_cons]
    exact ⟨he.trans h.logEndOffset_eq, consecutive_nil _⟩
  exact (consecutive_append _ _ _).mpr ⟨h, hnext⟩

/-- The end offset moves past an appended entry. -/
@[simp] theorem logEndOffset_append (store : LogStore) (e : LogEntry) :
    (store.append [e]).logEndOffset = e.offset + 1 := by
  simp [logEndOffset, LogStore.append]

/-- Truncating at the offset of the entry just appended takes it away again. -/
theorem Contiguous.truncateSuffix_append (h : store.Contiguous) {e : LogEntry}
    (he : e.offset = store.logEndOffset) :
    (store.append [e]).truncateSuffix ((store.append [e]).logEndOffset - 1) = store := by
  have hlength := h.logEndOffset_eq
  have hfilter := Consecutive.filter_lt (h.append he) e.offset
  rw [logEndOffset_append, Nat.add_sub_cancel]
  unfold truncateSuffix
  rw [hfilter, he, hlength]
  simp [LogStore.append]

/-- The entry before the end of a contiguous log is its last one. -/
theorem Contiguous.entryAt_last (h : store.Contiguous) :
    store.entryAt (store.logEndOffset - 1) = store.entries.getLast? := by
  cases hentries : store.entries with
  | nil => rw [entryAt, hentries, List.find?_nil, List.getLast?_nil]
  | cons first rest =>
    have hpos : 0 < store.entries.length := by rw [hentries]; exact Nat.succ_pos _
    have hlow : store.startOffset ≤ store.startOffset + store.entries.length - 1 := by omega
    have hindex : store.startOffset + store.entries.length - 1 - store.startOffset =
        store.entries.length - 1 := by
      omega
    rw [← hentries, h.logEndOffset_eq, entryAt, Consecutive.find?_key h hlow, hindex,
      List.getLast?_eq_getElem?]

/-- Reading from start to end returns the whole log. -/
theorem Contiguous.read_all (h : store.Contiguous) :
    store.read store.logStartOffset store.logEndOffset = store.entries := by
  unfold read
  rw [List.filter_eq_self]
  intro e he
  have hbounds := Consecutive.key_bounds h he
  rw [h.logEndOffset_eq]
  exact Bool.and_eq_true_iff.mpr ⟨decide_eq_true hbounds.1, decide_eq_true hbounds.2⟩

end LogStore

end XRaft
