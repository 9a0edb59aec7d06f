import XRaft.Storage.MemoryLogStore
import XRaft.Storage.Refinement

/-!
# The log on disk and the logs in memory

Tests and simulations replace the segment log by a store in memory. Under calls that a
segment log accepts, the three log stores of the repository hold one list of entries: the
segments on disk, the list by position and the list by offset. What is read from them is
the same, however often the segment log was closed and opened in between.
-/

namespace XRaft

open Lib

/-- The call of a log store that an operation is, unless it only opens the log again. -/
def LogOp.call : LogOp → Option LogOperation
  | .append entries => some (.append entries)
  | .truncateSuffix fromOffset => some (.truncateSuffix fromOffset)
  | .truncatePrefix upToOffset => some (.truncatePrefix upToOffset)
  | .reopen _ => none

/-- The store that compares offsets holds the abstract log. -/
structure AbstractLog.HeldBy (log : AbstractLog) (reference : LogStore) : Prop where
  entries : reference.entries = log.entries
  start : reference.startOffset = log.start
  contiguous : reference.Contiguous

namespace AbstractLog.HeldBy

variable {codec : BatchCodec} {log : AbstractLog} {reference : LogStore}

/-- The store ends where the log ends. -/
theorem endOffset (h : log.HeldBy reference) : reference.logEndOffset = log.endOffset := by
  rw [h.contiguous.logEndOffset_eq, h.entries, h.start]
  rfl

/-- The entries of the log have consecutive offsets. -/
theorem consecutive (h : log.HeldBy reference) :
    Consecutive LogEntry.offset log.start log.entries := by
  rw [← h.entries, ← h.start]
  exact h.contiguous

/-- After a valid operation the store holds the log after it. -/
theorem apply (h : log.HeldBy reference) {op : LogOp} (hvalid : op.Valid codec log)
    {call : LogOperation} (hcall : op.call = some call) :
    (log.step op).HeldBy (reference.apply call) := by
  cases op with
  | append entries =>
    cases hcall
    have hcontinues : Consecutive LogEntry.offset (reference.startOffset + reference.entries.length)
        entries := by
      rw [h.entries, h.start]
      exact hvalid.1
    exact ⟨congrArg (· ++ entries) h.entries, h.start,
      (consecutive_append _ _ _).mpr ⟨h.contiguous, hcontinues⟩⟩
  | truncateSuffix fromOffset =>
    cases hcall
    have htaken := Consecutive.filter_lt h.contiguous fromOffset
    refine ⟨?_, h.start, ?_⟩
    · rw [LogStore.apply, LogStore.truncateSuffix, htaken, h.entries, h.start]
      rfl
    · change Consecutive LogEntry.offset reference.startOffset (reference.entries.filter _)
      rw [htaken]
      exact Consecutive.take h.contiguous _
  | truncatePrefix upToOffset =>
    cases hcall
    have hdropped := Consecutive.filter_ge h.contiguous upToOffset
    refine ⟨?_, rfl, ?_⟩
    · rw [LogStore.apply, LogStore.truncatePrefix, hdropped, h.entries, h.start]
      rfl
    · change Consecutive LogEntry.offset upToOffset (reference.entries.filter _)
      rw [hdropped]
      exact Consecutive.drop_to h.contiguous (h.start ▸ hvalid.1)
  | reopen limit => cases hcall

/-- Reading by offset selects from the log what the segment log does. -/
theorem read_eq_filter (h : log.HeldBy reference) (startOffset endOffset : ℕ) :
    reference.read startOffset endOffset = log.entries.filter fun entry =>
      decide (max startOffset log.start ≤ entry.offset) &&
        decide (entry.offset < min endOffset log.endOffset) := by
  rw [LogStore.read, h.entries]
  refine List.filter_congr fun entry hentry => ?_
  have hbounds := h.consecutive.key_bounds hentry
  rw [← Bool.decide_and, ← Bool.decide_and, decide_eq_decide, AbstractLog.endOffset,
    max_le_iff, lt_min_iff]
  omega

/-- Looking up an offset finds what the segment log finds. -/
theorem entryAt_eq_getElem? (h : log.HeldBy reference) (offset : ℕ) :
    reference.entryAt offset =
      if log.start ≤ offset then log.entries[offset - log.start]? else none := by
  rw [LogStore.entryAt, h.entries]
  split
  · rename_i hle
    exact h.consecutive.find?_key hle
  · rename_i hlt
    refine List.find?_eq_none.mpr fun entry hentry => ?_
    have hbounds := h.consecutive.key_bounds hentry
    simp only [beq_iff_eq]
    omega

/-- A segment log that represents the log answers like the store. -/
theorem answers (h : log.HeldBy reference) {store : Store} (hstore : store.Represents codec log) :
    store.log.logStartOffset = reference.logStartOffset ∧
      store.log.logEndOffset = reference.logEndOffset ∧
      (∀ startOffset endOffset,
        store.read codec startOffset endOffset = .ok (reference.read startOffset endOffset)) ∧
      ∀ offset, store.entryAt codec offset = .ok (reference.entryAt offset) := by
  refine ⟨?_, ?_, fun startOffset endOffset => ?_, fun offset => ?_⟩
  · exact hstore.logStartOffset.trans h.start.symm
  · exact hstore.logEndOffset.trans h.endOffset.symm
  · rw [hstore.read, h.read_eq_filter]
  · rw [hstore.entryAt, h.entryAt_eq_getElem?]

end AbstractLog.HeldBy

namespace MemoryLogStore

/-- Both stores in memory hold the abstract log. -/
structure Holds (log : AbstractLog) (memory : MemoryLogStore) (reference : LogStore) : Prop
    extends Mirrors memory reference where
  logEntries : reference.entries = log.entries
  logStart : reference.startOffset = log.start

variable {codec : BatchCodec} {log : AbstractLog} {memory : MemoryLogStore} {reference : LogStore}

/-- The store that compares offsets holds the log. -/
theorem Holds.heldBy (h : Holds log memory reference) : log.HeldBy reference :=
  ⟨h.logEntries, h.logStart, h.contiguous⟩

/-- A valid operation is admissible for the stores in memory, which then hold the log after it. -/
theorem Holds.apply (h : Holds log memory reference) {op : LogOp} (hvalid : op.Valid codec log)
    {call : LogOperation} (hcall : op.call = some call) :
    ∃ next, memory.apply call = .ok next ∧ Holds (log.step op) next (reference.apply call) := by
  have hadmissible : call.Admissible reference := by
    cases op with
    | append entries =>
      cases hcall
      rw [LogOperation.Admissible, h.heldBy.endOffset]
      exact hvalid.1
    | truncateSuffix fromOffset =>
      cases hcall
      trivial
    | truncatePrefix upToOffset =>
      cases hcall
      exact h.logStart.trans_le hvalid.1
    | reopen limit => cases hcall
  obtain ⟨next, hnext, hmirrors⟩ := h.toMirrors.apply hadmissible
  have hheld := h.heldBy.apply hvalid hcall
  exact ⟨next, hnext, hmirrors, hheld.entries, hheld.start⟩

/-- After valid operations the stores in memory hold the log. -/
theorem Holds.run (h : Holds log memory reference) {ops : List LogOp}
    (hvalid : log.ValidRun codec ops) :
    ∃ last, (ops.filterMap LogOp.call).foldlM MemoryLogStore.apply memory = .ok last ∧
      Holds (log.run ops) last ((ops.filterMap LogOp.call).foldl LogStore.apply reference) := by
  induction ops generalizing log memory reference with
  | nil => exact ⟨memory, rfl, h⟩
  | cons op ops ih =>
    obtain ⟨hop, hops⟩ := hvalid
    cases hcall : op.call with
    | none =>
      have hsame : log.step op = log := by
        cases op with
        | reopen limit => rfl
        | _ => cases hcall
      rw [hsame] at hops
      rw [List.filterMap_cons_none hcall, AbstractLog.run, List.foldl_cons, hsame]
      exact ih h hops
    | some call =>
      obtain ⟨next, hnext, hholds⟩ := h.apply hop hcall
      obtain ⟨last, hlast, hrun⟩ := ih hholds hops
      refine ⟨last, ?_, ?_⟩
      · rw [List.filterMap_cons_some hcall, List.foldlM_cons, hnext]
        exact hlast
      · rw [List.filterMap_cons_some hcall]
        exact hrun

end MemoryLogStore

/-- Under operations that are valid on a log, the segment log and both stores in memory succeed,
end with the same bounds, and answer every read and every lookup alike. -/
theorem stores_agree (codec : BatchCodec) {limit : ℕ} (hlimit : 1 ≤ limit) {ops : List LogOp}
    (hvalid : AbstractLog.empty.ValidRun codec ops) :
    ∃ disk memory, (Store.fresh codec limit).run codec ops = .ok disk ∧
      (ops.filterMap LogOp.call).foldlM MemoryLogStore.apply .new = .ok memory ∧
      let reference := (ops.filterMap LogOp.call).foldl LogStore.apply .new
      (disk.log.logStartOffset = reference.logStartOffset ∧
        memory.logStartOffset = reference.logStartOffset) ∧
      (disk.log.logEndOffset = reference.logEndOffset ∧
        memory.logEndOffset = reference.logEndOffset) ∧
      (∀ startOffset endOffset, disk.read codec startOffset endOffset =
        .ok (reference.read startOffset endOffset) ∧
        memory.read startOffset endOffset = .ok (reference.read startOffset endOffset)) ∧
      ∀ offset, disk.entryAt codec offset = .ok (reference.entryAt offset) ∧
        memory.entryAt offset = .ok (reference.entryAt offset) := by
  have hnew : MemoryLogStore.Holds .empty .new .new :=
    ⟨⟨rfl, rfl, consecutive_nil 0, by decide +kernel⟩, rfl, rfl⟩
  obtain ⟨disk, base, pieces, hdisk, hlaidOut⟩ := (Store.LaidOut.fresh codec hlimit).run hvalid
  obtain ⟨memory, hmemory, hholds⟩ := hnew.run hvalid
  obtain ⟨hstart, hend, hread, hentry⟩ := hholds.heldBy.answers hlaidOut.represents
  exact ⟨disk, memory, hdisk, hmemory, ⟨hstart, hholds.start⟩, ⟨hend, hholds.logEndOffset_eq⟩,
    fun startOffset endOffset =>
      ⟨hread startOffset endOffset, hholds.read_eq startOffset endOffset⟩,
    fun offset => ⟨hentry offset, hholds.entryAt_eq offset⟩⟩

/-- The stores agree after a run with a rollover, a batch cut in two, a hidden prefix and a
restart. -/
theorem stores_agree_sampleOps :
    ∃ disk memory, (Store.fresh bincodeCrc32c 64).run bincodeCrc32c Store.sampleOps = .ok disk ∧
      (Store.sampleOps.filterMap LogOp.call).foldlM MemoryLogStore.apply .new = .ok memory ∧
      disk.log.logEndOffset = memory.logEndOffset ∧
      ∀ offset, disk.entryAt bincodeCrc32c offset =
        .ok
          (((Store.sampleOps.filterMap LogOp.call).foldl LogStore.apply .new).entryAt offset) := by
  obtain ⟨disk, memory, hdisk, hmemory, -, ⟨hend, hend'⟩, -, hentry⟩ :=
    stores_agree bincodeCrc32c (by decide : 1 ≤ 64)
      (by decide +kernel : AbstractLog.empty.ValidRun bincodeCrc32c Store.sampleOps)
  exact ⟨disk, memory, hdisk, hmemory, hend.trans hend'.symm, fun offset => (hentry offset).1⟩

end XRaft
