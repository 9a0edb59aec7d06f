import XRaft.Core.LogStore
import XRaft.Lib.Checked
import XRaft.Lib.Runs
import Mathlib.Data.Rat.Defs

/-!
# Two log stores in memory

The in-memory store of `xraft-storage` finds an entry by its position: the offset minus the
start of the log. The one of `xraft-test` (`LogStore`) compares the offsets that the entries
carry. Callers append at the end of the log and compact forwards; after every sequence of
such calls and of suffix truncations the positions are the offsets minus the start, so that
both stores give the same answers, and no subtraction or slice of the first is out of range.

This needs a bound on the offsets, which are `u64`. Behind an entry with the largest one the
log ends at zero for a release build, and an entry that is appended there has an offset below
the start: one store finds it, the other does not.
-/

namespace XRaft

open Lib

/-- How a call of the store fails: it panics, or it returns an error. -/
inductive MemoryFailure where
  | panicked
  | error (e : XraftError)
  deriving DecidableEq, Repr

/-- The entries by position, with the offset of the first one. -/
structure MemoryLogStore where
  entries : List LogEntry
  startOffset : ℕ
  /-- From 1 on, `append` returns a storage error. -/
  fsyncFailureProbability : ℚ
  deriving DecidableEq, Repr

namespace MemoryLogStore

/-- An empty log store starting at offset 0. -/
def new : MemoryLogStore := ⟨[], 0, 0⟩

/-- Push the entries, unless the write is made to fail. -/
def append (store : MemoryLogStore) (entries : List LogEntry) :
    Except MemoryFailure MemoryLogStore :=
  if 1 ≤ store.fsyncFailureProbability
    then .error (.error (.storageError "simulated fsync failure"))
  else .ok (entries.foldl (fun store e => { store with entries := store.entries ++ [e] }) store)

/-- The entries between two positions, both cut off at the start of the log and the end at its
length. -/
def read (store : MemoryLogStore) (startOffset endOffset : ℕ) :
    Except MemoryFailure (List LogEntry) :=
  let startIdx := startOffset - store.startOffset
  let endIdx := endOffset - store.startOffset
  let endIdx := min endIdx store.entries.length
  if endIdx < startIdx then .ok [] else slice .panicked store.entries startIdx endIdx

/-- The entry at the position of an offset. -/
def entryAt (store : MemoryLogStore) (offset : ℕ) : Except MemoryFailure (Option LogEntry) :=
  if offset < store.startOffset then .ok none
  else do
    let idx ← checkedSub .panicked offset store.startOffset
    return store.entries[idx]?

/-- Cut the entries at the position of an offset. -/
def truncateSuffix (store : MemoryLogStore) (fromOffset : ℕ) :
    Except MemoryFailure MemoryLogStore :=
  if fromOffset ≤ store.startOffset then .ok { store with entries := [] }
  else do
    let idx ← checkedSub .panicked fromOffset store.startOffset
    return { store with entries := store.entries.take idx }

/-- Remove the entries before the position of an offset (log compaction). -/
def truncatePrefix (store : MemoryLogStore) (upToOffset : ℕ) :
    Except MemoryFailure MemoryLogStore :=
  if upToOffset ≤ store.startOffset then .ok store
  else do
    let removeCount ← checkedSub .panicked upToOffset store.startOffset
    if store.entries.length ≤ removeCount then
      return { store with entries := [], startOffset := upToOffset }
    else
      let entries ← drain .panicked store.entries removeCount
      return { store with entries := entries, startOffset := upToOffset }

/-- The first offset still in the log. -/
def logStartOffset (store : MemoryLogStore) : ℕ := store.startOffset

/-- The start plus the number of entries, as a number without a bound. -/
def logEndOffset (store : MemoryLogStore) : ℕ := store.startOffset + store.entries.length

/-- The same as the `u64` a release build returns. -/
def logEndOffset64 (store : MemoryLogStore) : ℕ := store.logEndOffset % 2 ^ 64

end MemoryLogStore

/-- A call that changes a log store. -/
inductive LogOperation where
  | append (entries : List LogEntry)
  | truncateSuffix (fromOffset : ℕ)
  | truncatePrefix (upToOffset : ℕ)
  deriving DecidableEq, Repr

/-- Entries are appended at the end of the log, and the log is compacted forwards. -/
def LogOperation.Admissible (store : LogStore) : LogOperation → Prop
  | .append entries => Consecutive LogEntry.offset store.logEndOffset entries
  | .truncateSuffix _ => True
  | .truncatePrefix upToOffset => store.logStartOffset ≤ upToOffset

instance (store : LogStore) : (operation : LogOperation) → Decidable (operation.Admissible store)
  | .append entries =>
    inferInstanceAs (Decidable (Consecutive LogEntry.offset store.logEndOffset entries))
  | .truncateSuffix _ => isTrue trivial
  | .truncatePrefix upToOffset => inferInstanceAs (Decidable (store.logStartOffset ≤ upToOffset))

/-- All offsets of the call are below a bound, the others being any `u64`. -/
def LogOperation.Below (bound : ℕ) : LogOperation → Prop
  | .append entries => ∀ e ∈ entries, e.offset < bound
  | .truncateSuffix fromOffset => fromOffset < 2 ^ 64
  | .truncatePrefix upToOffset => upToOffset < 2 ^ 64

instance (bound : ℕ) : (operation : LogOperation) → Decidable (operation.Below bound)
  | .append entries => inferInstanceAs (Decidable (∀ e ∈ entries, e.offset < bound))
  | .truncateSuffix _ => inferInstanceAs (Decidable (_ < _))
  | .truncatePrefix _ => inferInstanceAs (Decidable (_ < _))

/-- A call with entries below a bound that a caller may make who sees the end of the log as a `u64`:
entries are appended there, and the log is compacted forwards. -/
def LogOperation.Admissible64 (bound : ℕ) (store : LogStore) (operation : LogOperation) : Prop :=
  operation.Below bound ∧
    match operation with
    | .append entries => Consecutive LogEntry.offset store.logEndOffset64 entries
    | .truncateSuffix _ => True
    | .truncatePrefix upToOffset => store.logStartOffset ≤ upToOffset

instance (bound : ℕ) (store : LogStore) :
    (operation : LogOperation) → Decidable (operation.Admissible64 bound store)
  | .append entries => inferInstanceAs
      (Decidable (_ ∧ Consecutive LogEntry.offset store.logEndOffset64 entries))
  | .truncateSuffix _ => inferInstanceAs (Decidable (_ ∧ True))
  | .truncatePrefix upToOffset =>
    inferInstanceAs (Decidable (_ ∧ store.logStartOffset ≤ upToOffset))

/-- One call on the store that compares offsets. -/
def LogStore.apply (store : LogStore) : LogOperation → LogStore
  | .append entries => store.append entries
  | .truncateSuffix fromOffset => store.truncateSuffix fromOffset
  | .truncatePrefix upToOffset => store.truncatePrefix upToOffset

/-- One call on the store that computes positions. -/
def MemoryLogStore.apply (store : MemoryLogStore) :
    LogOperation → Except MemoryFailure MemoryLogStore
  | .append entries => store.append entries
  | .truncateSuffix fromOffset => store.truncateSuffix fromOffset
  | .truncatePrefix upToOffset => store.truncatePrefix upToOffset

namespace MemoryLogStore

/-- Both stores hold the same log, whose offsets are the start plus the position, and writes do
not fail. -/
structure Mirrors (store : MemoryLogStore) (reference : LogStore) : Prop where
  entries : store.entries = reference.entries
  start : store.startOffset = reference.startOffset
  contiguous : reference.Contiguous
  writes : store.fsyncFailureProbability < 1

variable {store : MemoryLogStore} {reference : LogStore}

/-- Pushing entries one by one appends them. -/
theorem foldl_push (store : MemoryLogStore) (entries : List LogEntry) :
    entries.foldl (fun store e => { store with entries := store.entries ++ [e] }) store =
      { store with entries := store.entries ++ entries } := by
  induction entries generalizing store with
  | nil => rw [List.foldl_nil, List.append_nil]
  | cons e rest ih => rw [List.foldl_cons, ih, List.append_assoc, List.singleton_append]

namespace Mirrors

/-- Appending at the end keeps the stores alike. -/
theorem append (h : Mirrors store reference) {entries : List LogEntry}
    (hentries : Consecutive LogEntry.offset reference.logEndOffset entries) :
    ∃ next, store.append entries = .ok next ∧ Mirrors next (reference.append entries) := by
  refine ⟨{ store with entries := store.entries ++ entries }, ?_, ?_⟩
  · rw [MemoryLogStore.append, if_neg (Rat.not_le.mpr h.writes), foldl_push]
  · rw [h.contiguous.logEndOffset_eq] at hentries
    exact {
      entries := congrArg (· ++ entries) h.entries
      start := h.start
      contiguous := (consecutive_append _ _ _).mpr ⟨h.contiguous, hentries⟩
      writes := h.writes }

/-- Truncating a suffix keeps the stores alike. -/
theorem truncateSuffix (h : Mirrors store reference) (fromOffset : ℕ) :
    ∃ next, store.truncateSuffix fromOffset = .ok next ∧
      Mirrors next (reference.truncateSuffix fromOffset) := by
  -- below the start nothing is taken, so both branches take the same number of entries
  refine ⟨{ store with entries := store.entries.take (fromOffset - store.startOffset) }, ?_, ?_⟩
  · rw [MemoryLogStore.truncateSuffix]
    split_ifs with hbelow
    · rw [Nat.sub_eq_zero_of_le hbelow, List.take_zero]
    · rw [checkedSub_of_le _ (Nat.le_of_not_le hbelow)]
      rfl
  · have htaken := Consecutive.filter_lt h.contiguous fromOffset
    exact {
      entries := by rw [h.entries, h.start]; exact htaken.symm
      start := h.start
      contiguous := by
        unfold LogStore.Contiguous LogStore.truncateSuffix
        rw [htaken]
        exact Consecutive.take h.contiguous _
      writes := h.writes }

/-- Compacting forwards keeps the stores alike. -/
theorem truncatePrefix (h : Mirrors store reference) {upToOffset : ℕ}
    (hforwards : reference.logStartOffset ≤ upToOffset) :
    ∃ next, store.truncatePrefix upToOffset = .ok next ∧
      Mirrors next (reference.truncatePrefix upToOffset) := by
  rw [LogStore.logStartOffset, ← h.start] at hforwards
  -- past the end nothing is left, so both branches drop the same number of entries
  refine ⟨{ store with
    entries := store.entries.drop (upToOffset - store.startOffset), startOffset :=
      upToOffset }, ?_, ?_⟩
  · rw [MemoryLogStore.truncatePrefix]
    split_ifs with hstart
    · have heq : upToOffset = store.startOffset := Nat.le_antisymm hstart hforwards
      rw [heq, Nat.sub_self, List.drop_zero]
    · rw [checkedSub_of_le _ hforwards]
      change (if _ then _ else _) = _
      split_ifs with hpast
      · rw [List.drop_eq_nil_of_le hpast]
        rfl
      · rw [drain_of_le _ (Nat.le_of_not_le hpast)]
        rfl
  · have hdropped := Consecutive.filter_ge h.contiguous upToOffset
    exact {
      entries := by rw [h.entries, h.start]; exact hdropped.symm
      start := rfl
      contiguous := by
        unfold LogStore.Contiguous LogStore.truncatePrefix
        rw [hdropped]
        exact Consecutive.drop_to h.contiguous (h.start ▸ hforwards)
      writes := h.writes }

/-- Every admissible call succeeds and keeps the stores alike. -/
theorem apply (h : Mirrors store reference) {operation : LogOperation}
    (hoperation : operation.Admissible reference) :
    ∃ next, store.apply operation = .ok next ∧ Mirrors next (reference.apply operation) := by
  cases operation with
  | append entries => exact h.append hoperation
  | truncateSuffix fromOffset => exact h.truncateSuffix fromOffset
  | truncatePrefix upToOffset => exact h.truncatePrefix hoperation

/-- The end by position is the end by offset. -/
theorem logEndOffset_eq (h : Mirrors store reference) :
    store.logEndOffset = reference.logEndOffset := by
  rw [h.contiguous.logEndOffset_eq, logEndOffset, h.entries, h.start]

/-- Looking up a position finds the entry with the offset. -/
theorem entryAt_eq (h : Mirrors store reference) (offset : ℕ) :
    store.entryAt offset = .ok (reference.entryAt offset) := by
  rw [MemoryLogStore.entryAt, LogStore.entryAt]
  split_ifs with hbelow
  · have hnone : reference.entries.find? (fun e => e.offset == offset) = none := by
      refine List.find?_eq_none.mpr fun e he => ?_
      have hbounds := Consecutive.key_bounds h.contiguous he
      rw [← h.start] at hbounds
      simp only [beq_iff_eq]
      omega
    rw [hnone]
  · have habove : store.startOffset ≤ offset := Nat.le_of_not_lt hbelow
    rw [checkedSub_of_le _ habove, Consecutive.find?_key h.contiguous (h.start ▸ habove),
      ← h.entries, ← h.start]
    rfl

/-- Reading between positions returns the entries with the offsets. -/
theorem read_eq (h : Mirrors store reference) (startOffset endOffset : ℕ) :
    store.read startOffset endOffset = .ok (reference.read startOffset endOffset) := by
  have hread : reference.read startOffset endOffset =
      (store.entries.take (endOffset - store.startOffset)).drop
      (startOffset - store.startOffset) := by
    rw [h.entries, h.start]
    exact Consecutive.filter_range h.contiguous startOffset endOffset
  rw [hread, MemoryLogStore.read]
  split_ifs with hempty
  · rw [List.drop_eq_nil_of_le (by rw [List.length_take]; exact Nat.le_of_lt hempty)]
  · rw [slice_of_le _ (Nat.le_of_not_lt hempty) (Nat.min_le_right _ _), ← List.take_eq_take_min]

end Mirrors

/-- All offsets are so small that the end of the log fits a `u64`. -/
structure Bounded (reference : LogStore) : Prop where
  start : reference.startOffset < 2 ^ 64
  entries : ∀ e ∈ reference.entries, e.offset < 2 ^ 64 - 1

/-- The end of a bounded log is the `u64` that is returned. -/
theorem Bounded.logEndOffset64_eq (h : Bounded reference) :
    reference.logEndOffset64 = reference.logEndOffset := by
  refine Nat.mod_eq_of_lt ?_
  unfold LogStore.logEndOffset
  split
  · rename_i e hlast
    have hbound := h.entries e (List.mem_of_getLast? hlast)
    omega
  · exact h.start

/-- In a bounded log a call at the end as a `u64` is one at the end. -/
theorem Bounded.admissible (h : Bounded reference) {bound : ℕ} {operation : LogOperation}
    (hoperation : operation.Admissible64 bound reference) : operation.Admissible reference := by
  cases operation with
  | append entries =>
    rw [LogOperation.Admissible, ← h.logEndOffset64_eq]
    exact hoperation.2
  | truncateSuffix fromOffset => trivial
  | truncatePrefix upToOffset => exact hoperation.2

/-- A call with entries below the largest offset keeps the log bounded. -/
theorem Bounded.apply (h : Bounded reference) {operation : LogOperation}
    (hbelow : operation.Below (2 ^ 64 - 1)) : Bounded (reference.apply operation) := by
  cases operation with
  | append entries => exact ⟨h.start, List.forall_mem_append.mpr ⟨h.entries, hbelow⟩⟩
  | truncateSuffix fromOffset =>
    exact ⟨h.start, fun e he => h.entries e (List.mem_of_mem_filter he)⟩
  | truncatePrefix upToOffset =>
    exact ⟨hbelow, fun e he => h.entries e (List.mem_of_mem_filter he)⟩

/-- After every sequence of appends at the end of the log, suffix truncations and forward
compactions with entries below the largest offset, the store that computes positions has not
panicked and answers as the one that compares offsets; neither end of the log has overflown. -/
theorem index_eq_filter (operations : List LogOperation)
    (hoperations : Along LogStore.apply
      (fun store operation => operation.Admissible64 (2 ^ 64 - 1) store) .new operations) :
    ∃ store, operations.foldlM MemoryLogStore.apply .new = .ok store ∧
      store.logStartOffset = (operations.foldl LogStore.apply .new).logStartOffset ∧
      store.logEndOffset64 = (operations.foldl LogStore.apply .new).logEndOffset64 ∧
      store.logEndOffset64 = store.logEndOffset ∧
      (∀ offset, store.entryAt offset =
        .ok ((operations.foldl LogStore.apply .new).entryAt offset)) ∧
      ∀ startOffset endOffset, store.read startOffset endOffset =
        .ok ((operations.foldl LogStore.apply .new).read startOffset endOffset) := by
  have hnew : Mirrors new LogStore.new ∧ Bounded LogStore.new :=
    ⟨⟨rfl, rfl, consecutive_nil 0, by decide +kernel⟩, by decide, nofun⟩
  obtain ⟨store, hstore, h, hbounded⟩ := foldlM_refines LogStore.apply
    (fun store reference => Mirrors store reference ∧ Bounded reference)
    (fun _ _ _ h hoperation => by
      obtain ⟨next, hnext, hmirrors⟩ := h.1.apply (h.2.admissible hoperation)
      exact ⟨next, hnext, hmirrors, h.2.apply hoperation.1⟩) hnew hoperations
  have hend : store.logEndOffset64 = (operations.foldl LogStore.apply .new).logEndOffset64 :=
    congrArg (· % 2 ^ 64) h.logEndOffset_eq
  refine ⟨store, hstore, h.start, hend, ?_, h.entryAt_eq, h.read_eq⟩
  rw [hend, hbounded.logEndOffset64_eq, h.logEndOffset_eq]

/-- An append, a truncation below the end, another append, and a compaction past the end. -/
def rewritten : List LogOperation :=
  [.append [⟨0, 1, .command, []⟩, ⟨1, 1, .command, []⟩], .truncateSuffix 1,
    .append [⟨1, 2, .command, []⟩], .truncatePrefix 1, .truncatePrefix 5,
    .append [⟨5, 2, .command, []⟩]]

/-- The two stores agree after a log has been rewritten and compacted past its end. -/
theorem index_eq_filter_rewritten :
    Along LogStore.apply
        (fun store operation => operation.Admissible64 (2 ^ 64 - 1) store) .new rewritten ∧
      ∃ store, rewritten.foldlM MemoryLogStore.apply .new = .ok store ∧
        store.logEndOffset64 = (rewritten.foldl LogStore.apply .new).logEndOffset64 ∧
        ∀ startOffset endOffset, store.read startOffset endOffset =
          .ok ((rewritten.foldl LogStore.apply .new).read startOffset endOffset) := by
  have hrewritten : Along LogStore.apply
      (fun store operation => operation.Admissible64 (2 ^ 64 - 1) store) .new rewritten := by
    decide +kernel
  obtain ⟨store, hstore, -, hend, -, -, hread⟩ := index_eq_filter rewritten hrewritten
  exact ⟨hrewritten, store, hstore, hend, hread⟩

/-- A compaction to the largest offset, an entry there, and one at the end the stores then show. -/
def overflown : List LogOperation :=
  [.truncatePrefix (2 ^ 64 - 1), .append [⟨2 ^ 64 - 1, 1, .command, []⟩],
    .append [⟨0, 1, .command, []⟩]]

/-- Behind an entry with the largest offset both stores end at zero. What is appended there is found
by the store that compares offsets only. -/
theorem index_ne_filter :
    Along LogStore.apply
        (fun store operation => operation.Admissible64 (2 ^ 64) store) .new overflown ∧
      ∃ store, overflown.foldlM MemoryLogStore.apply .new = .ok store ∧
        store.entryAt 0 = .ok none ∧ store.read 0 1 = .ok [] ∧
        (overflown.foldl LogStore.apply .new).entryAt 0 = some ⟨0, 1, .command, []⟩ ∧
        (overflown.foldl LogStore.apply .new).read 0 1 = [⟨0, 1, .command, []⟩] := by
  refine ⟨by decide +kernel, ⟨[⟨2 ^ 64 - 1, 1, .command, []⟩, ⟨0, 1, .command, []⟩], 2 ^ 64 - 1, 0⟩,
    ?_, ?_, ?_, by decide +kernel, by decide +kernel⟩
  · rfl
  · rfl
  · rfl

end MemoryLogStore

end XRaft
