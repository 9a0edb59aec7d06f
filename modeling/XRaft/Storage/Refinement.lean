import XRaft.Storage.Codec
import XRaft.Storage.LogSteps

/-!
# The segment log refines a list

Every valid operation succeeds on a laid out store and does to the visible log what it
does to a list of entries. By induction the same holds of every sequence of operations
from a fresh log, rollovers, rewritten batches, hidden prefixes and restarts included.
-/

namespace XRaft

open Lib

namespace Store

variable {codec : BatchCodec} {store : Store} {log : AbstractLog} {base : ℕ} {pieces : List Piece}

/-- A valid operation succeeds and follows the abstract one. -/
theorem LaidOut.step (h : store.LaidOut codec log base pieces) {op : LogOp}
    (hvalid : op.Valid codec log) :
    ∃ after base' pieces', store.step codec op = .ok after ∧
      after.LaidOut codec (log.step op) base' pieces' := by
  cases op with
  | append batch =>
    obtain ⟨after, pieces', hstep, hafter⟩ := h.append hvalid
    exact ⟨after, base, pieces', hstep, hafter⟩
  | truncateSuffix fromOffset =>
    obtain ⟨after, pieces', hstep, hafter⟩ := h.truncateSuffix hvalid
    exact ⟨after, base, pieces', hstep, hafter⟩
  | truncatePrefix upToOffset => exact h.truncatePrefix hvalid.1 hvalid.2
  | reopen limit => exact ⟨_, base, pieces, rfl, h.reopen hvalid⟩

/-- A valid sequence of operations succeeds and follows the abstract one. -/
theorem LaidOut.run (h : store.LaidOut codec log base pieces) {ops : List LogOp}
    (hvalid : log.ValidRun codec ops) :
    ∃ after base' pieces', store.run codec ops = .ok after ∧
      after.LaidOut codec (log.run ops) base' pieces' := by
  have hstep : ∀ (store : Store) (log : AbstractLog) (op : LogOp),
      (∃ base pieces, store.LaidOut codec log base pieces) → op.Valid codec log →
      ∃ after, store.step codec op = .ok after ∧
        ∃ base pieces, after.LaidOut codec (log.step op) base pieces := by
    rintro store log op ⟨base, pieces, hlaid⟩ hop
    obtain ⟨after, base', pieces', hstep, hafter⟩ := hlaid.step hop
    exact ⟨after, hstep, base', pieces', hafter⟩
  obtain ⟨after, hrun, base', pieces', hafter⟩ :=
    foldlM_refines AbstractLog.step _ hstep ⟨base, pieces, h⟩ hvalid
  exact ⟨after, base', pieces', hrun, hafter⟩

/-- From a fresh log, every valid sequence of operations succeeds, and what the users of the log
then observe is the list that appending, taking and dropping give. -/
theorem segmentLog_refines (codec : BatchCodec) {limit : ℕ} (hlimit : 1 ≤ limit) {ops : List LogOp}
    (hvalid : AbstractLog.empty.ValidRun codec ops) :
    ∃ after, (fresh codec limit).run codec ops = .ok after ∧
      after.Represents codec (AbstractLog.empty.run ops) := by
  obtain ⟨after, base, pieces, hrun, hafter⟩ := (LaidOut.fresh codec hlimit).run hvalid
  exact ⟨after, hrun, hafter.represents⟩

/-- An entry for runs of the model. -/
def sampleEntry (offset term : ℕ) : LogEntry := ⟨offset, term, .command, [UInt8.ofNat offset]⟩

/-- A run with rollover, a batch cut in two, a hidden prefix and a restart with another limit. -/
def sampleOps : List LogOp :=
  [.append [sampleEntry 0 1, sampleEntry 1 1],
    .append [sampleEntry 2 1, sampleEntry 3 1, sampleEntry 4 1], .truncateSuffix 4,
    .truncatePrefix 1, .reopen 500, .append [sampleEntry 4 2]]

/-- The sample run leaves offsets one to four, the last from the new term. -/
theorem segmentLog_refines_sampleOps :
    ∃ after, (fresh bincodeCrc32c 64).run bincodeCrc32c sampleOps = .ok after ∧
      after.Represents bincodeCrc32c
        ⟨1, [sampleEntry 1 1, sampleEntry 2 1, sampleEntry 3 1, sampleEntry 4 2]⟩ :=
  segmentLog_refines bincodeCrc32c (by decide)
    (by decide +kernel : AbstractLog.empty.ValidRun bincodeCrc32c sampleOps)

end Store

end XRaft
