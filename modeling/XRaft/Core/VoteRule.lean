import Mathlib.Data.Prod.Lex
import XRaft.Core.NodeRun
import XRaft.Core.Recovery

/-!
# Votes and the log a voter holds

A voter may hold entries in its snapshot that its log store no longer has. The vote rule
compares the candidate with the log store alone, so a vote respects everything the voter
holds exactly when the last stored entry is at or past the snapshot, or when what the
comparison falls back to (term zero, at the end of the log store) happens to suffice.
-/

namespace XRaft

/-- The place of an entry in the order of logs: by term, then by offset. -/
def position (term offset : ℕ) : ℕ ×ₗ ℕ := toLex (term, offset)

/-- The place of a log entry. -/
def LogEntry.position (e : LogEntry) : ℕ ×ₗ ℕ := XRaft.position e.term e.offset

/-- The place of a snapshot's last entry. -/
def SnapshotMetadata.position (metadata : SnapshotMetadata) : ℕ ×ₗ ℕ :=
  XRaft.position metadata.lastIncludedTerm metadata.lastIncludedOffset

/-- The place of the last entry a candidate claims to hold. -/
def VoteRequest.position (request : VoteRequest) : ℕ ×ₗ ℕ :=
  XRaft.position request.lastLogTerm request.lastLogOffset

namespace Stores

/-- A contiguous log, and a snapshot that covers whatever was cut off before its start. -/
structure WellFormed (stores : Stores) : Prop where
  contiguous : stores.log.Contiguous
  covered : 0 < stores.log.startOffset → ∃ snap, stores.snapshot = some snap ∧
    stores.log.startOffset - 1 ≤ snap.metadata.lastIncludedOffset

end Stores

namespace RaftNode

variable {codec : VotersCodec} {clock : Clock} {faults : Faults} {config : RaftConfig}
  {stores : Stores} {node start : RaftNode}

end RaftNode

end XRaft
