import XRaft.Lib.Consecutive
import XRaft.Lib.Runs
import XRaft.Storage.SegmentLog

/-!
# A log as its users see it

The purpose of the segment log: a list of entries with consecutive offsets, from a start
that only prefix truncation moves. The operations of `LogStore` append to the list, take
a prefix of it or drop one; closing and reopening the log does nothing.

`Store.step` runs the same operations on a segment log and its directory.
-/

namespace XRaft

open Lib

/-- The first offset of a log and its entries from there on. -/
structure AbstractLog where
  start : ℕ
  entries : List LogEntry
  deriving DecidableEq, Repr

/-- An operation on a log. -/
inductive LogOp where
  | append (entries : List LogEntry)
  | truncateSuffix (fromOffset : ℕ)
  | truncatePrefix (upToOffset : ℕ)
  | reopen (segmentSizeLimit : ℕ)
  deriving DecidableEq, Repr

namespace AbstractLog

/-- A log without entries from offset zero on. -/
def empty : AbstractLog := ⟨0, []⟩

/-- The offset after the last entry. -/
def endOffset (log : AbstractLog) : ℕ := log.start + log.entries.length

/-- The effect of an operation. -/
def step (log : AbstractLog) : LogOp → AbstractLog
  | .append entries => { log with entries := log.entries ++ entries }
  | .truncateSuffix fromOffset => { log with entries := log.entries.take (fromOffset - log.start) }
  | .truncatePrefix upToOffset => ⟨upToOffset, log.entries.drop (upToOffset - log.start)⟩
  | .reopen _ => log

/-- The effect of a list of operations. -/
def run (log : AbstractLog) (ops : List LogOp) : AbstractLog := ops.foldl step log

end AbstractLog

/-- An operation the users of a log may call: batches continue the log and fit their frames, also
after a truncation inside the batch, and truncations stay within the bounds they must respect. -/
def LogOp.Valid (codec : BatchCodec) (log : AbstractLog) : LogOp → Prop
  | .append entries =>
    Consecutive LogEntry.offset log.endOffset entries ∧ ∀ part ∈ entries.inits,
      codec.format.Fits part
  | .truncateSuffix fromOffset => log.start ≤ fromOffset
  | .truncatePrefix upToOffset => log.start ≤ upToOffset ∧ upToOffset ≤ log.endOffset
  | .reopen segmentSizeLimit => 1 ≤ segmentSizeLimit

instance (codec : BatchCodec) (log : AbstractLog) : (op : LogOp) → Decidable (op.Valid codec log)
  | .append _ => inferInstanceAs (Decidable (_ ∧ _))
  | .truncateSuffix _ => inferInstanceAs (Decidable (_ ≤ _))
  | .truncatePrefix _ => inferInstanceAs (Decidable (_ ∧ _))
  | .reopen _ => inferInstanceAs (Decidable (_ ≤ _))

/-- Every operation of a list is valid when its turn comes. -/
def AbstractLog.ValidRun (codec : BatchCodec) (log : AbstractLog) (ops : List LogOp) : Prop :=
  Along step (fun log op => op.Valid codec log) log ops

instance (codec : BatchCodec) (log : AbstractLog) (ops : List LogOp) :
    Decidable (log.ValidRun codec ops) :=
  inferInstanceAs (Decidable (Along _ _ _ _))

/-- An open segment log and its directory. -/
structure Store where
  log : SegmentLog
  directory : Directory
  deriving DecidableEq, Repr

namespace Store

/-- Open a log on a directory. -/
def openOn (codec : BatchCodec) (directory : Directory) (segmentSizeLimit : ℕ) : Store :=
  let opened := SegmentLog.openWithLimit codec directory segmentSizeLimit
  ⟨opened.1, opened.2⟩

/-- A log opened on an empty directory. -/
def fresh (codec : BatchCodec) (segmentSizeLimit : ℕ) : Store :=
  openOn codec .empty segmentSizeLimit

/-- Run one operation. -/
def step (codec : BatchCodec) (store : Store) : LogOp → Except StorageError Store
  | .append entries =>
    (store.log.append codec store.directory entries).map fun after => ⟨after.1, after.2⟩
  | .truncateSuffix fromOffset =>
    (store.log.truncateSuffix codec store.directory fromOffset).map fun after => ⟨after.1, after.2⟩
  | .truncatePrefix upToOffset =>
    let after := store.log.truncatePrefix store.directory upToOffset
    .ok ⟨after.1, after.2⟩
  | .reopen segmentSizeLimit => .ok (openOn codec store.directory segmentSizeLimit)

/-- Run operations until one fails. -/
def run (codec : BatchCodec) (store : Store) (ops : List LogOp) : Except StorageError Store :=
  ops.foldlM (step codec) store

/-- Read the entries in `[startOffset, endOffset)`. -/
def read (codec : BatchCodec) (store : Store) (startOffset endOffset : ℕ) :
    Except StorageError (List LogEntry) :=
  store.log.read codec store.directory startOffset endOffset

/-- The entry at an offset, if there is one. -/
def entryAt (codec : BatchCodec) (store : Store) (offset : ℕ) :
    Except StorageError (Option LogEntry) :=
  store.log.entryAt codec store.directory offset

/-- What the users of a log can observe is what the abstract log says. -/
structure Represents (codec : BatchCodec) (store : Store) (log : AbstractLog) : Prop where
  consecutive : Consecutive LogEntry.offset log.start log.entries
  logStartOffset : store.log.logStartOffset = log.start
  logEndOffset : store.log.logEndOffset = log.start + log.entries.length
  read : ∀ startOffset endOffset, store.read codec startOffset endOffset =
    .ok (log.entries.filter fun entry => decide (max startOffset log.start ≤ entry.offset) &&
      decide (entry.offset < min endOffset log.endOffset))
  entryAt : ∀ offset, store.entryAt codec offset =
    .ok (if log.start ≤ offset then log.entries[offset - log.start]? else none)

end Store

end XRaft
