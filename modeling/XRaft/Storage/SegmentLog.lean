import XRaft.Storage.Segment

/-!
# The segment log

`segment_log.rs`: a directory of segment files, named by their base offsets, and a file
with the persisted start offset. A segment file is addressed by its base offset, the
zero-padded name and its parsing being inverse to each other; the start offset files hold
the number itself.

The log keeps its bounds twice, once under the lock and once as atomics for synchronous
reads. I/O errors are left out except for what the contents of a file can cause. Prefix
truncation, which deletes files before it persists the new start, returns its changes of
the directory in order.
-/

namespace XRaft

open Lib

/-- The contents of a log directory. -/
structure Directory where
  files : List (ℕ × Bytes)
  /-- The file `log-start-offset`. -/
  startOffset : Option ℕ
  /-- The file `log-start-offset.tmp`. -/
  startOffsetTmp : Option ℕ
  deriving DecidableEq, Repr

namespace Directory

/-- A directory nothing has been written to. -/
def empty : Directory := ⟨[], none, none⟩

/-- The contents of a segment file, empty if it does not exist. -/
def file (directory : Directory) (baseOffset : ℕ) : Bytes :=
  (directory.files.lookup baseOffset).getD []

/-- Make changes to a segment file. -/
def edit (directory : Directory) (baseOffset : ℕ) (ops : List FileOp) : Directory :=
  { directory with
    files := put baseOffset (FileOp.applyAll ops (directory.file baseOffset)) directory.files }

/-- Delete a segment file. -/
def removeFile (directory : Directory) (baseOffset : ℕ) : Directory :=
  { directory with files := erase baseOffset directory.files }

/-- Persisted start offset; zero if absent. -/
def loadStartOffset (directory : Directory) : ℕ := directory.startOffset.getD 0

end Directory

/-- A change of the directory. -/
inductive DirectoryOp where
  | removeFile (baseOffset : ℕ)
  | writeStartOffsetTmp (offset : ℕ)
  | renameStartOffset
  deriving DecidableEq, Repr

namespace DirectoryOp

/-- The directory after a change. -/
def apply : DirectoryOp → Directory → Directory
  | removeFile baseOffset, directory => directory.removeFile baseOffset
  | writeStartOffsetTmp offset, directory => { directory with startOffsetTmp := some offset }
  | renameStartOffset, directory =>
    { directory with startOffset := directory.startOffsetTmp, startOffsetTmp := none }

/-- The directory after all changes of a list. -/
def applyAll (ops : List DirectoryOp) (directory : Directory) : Directory :=
  ops.foldl (fun directory op => op.apply directory) directory

end DirectoryOp

/-- An open segment log. -/
structure SegmentLog where
  segmentSizeLimit : ℕ
  startOffsetAtomic : ℕ
  endOffsetAtomic : ℕ
  segments : List Segment
  innerStartOffset : ℕ
  innerEndOffset : ℕ
  deriving DecidableEq, Repr

namespace SegmentLog

/-- Open the segment file at a base offset, creating it if needed. -/
def openSegment (codec : BatchCodec) (directory : Directory) (baseOffset : ℕ) :
    Segment × Directory :=
  let opened := Segment.openFile codec (directory.file baseOffset) baseOffset
  (opened.1, { directory with files := put baseOffset opened.2 directory.files })

/-- Open the segment files at the given base offsets in order. -/
def openSegments (codec : BatchCodec) : List ℕ → Directory → List Segment × Directory
  | [], directory => ([], directory)
  | baseOffset :: rest, directory =>
    let opened := openSegment codec directory baseOffset
    let others := openSegments codec rest opened.2
    (opened.1 :: others.1, others.2)

/-- Remove segments from the back, given last first, while more than one is left. -/
def popLoop (drops : Segment → Bool) : List Segment → Directory → List Segment × Directory
  | last :: previous :: rest, directory =>
    if drops last then popLoop drops (previous :: rest) (directory.removeFile last.baseOffset)
    else (last :: previous :: rest, directory)
  | segments, directory => (segments, directory)

/-- Remove trailing segments and their files while more than one is left. -/
def popTrailing (drops : Segment → Bool) (segments : List Segment) (directory : Directory) :
    List Segment × Directory :=
  let popped := popLoop drops segments.reverse directory
  (popped.1.reverse, popped.2)

/-- Open or create a segment log in the given directory. -/
def openWithLimit (codec : BatchCodec) (directory : Directory) (segmentSizeLimit : ℕ) :
    SegmentLog × Directory :=
  let opened := openSegments codec (sortedKeys directory.files) directory
  -- empty trailing segments come from a crash during rollover
  let trimmed := popTrailing (fun segment => segment.entryCount == 0) opened.1 opened.2
  let persistedStart := trimmed.2.loadStartOffset
  let physicalStart := (trimmed.1.head?.map Segment.baseOffset).getD 0
  let logStartOffset := max persistedStart physicalStart
  let logEndOffset := (trimmed.1.getLast?.map Segment.nextOffset).getD logStartOffset
  (⟨segmentSizeLimit, logStartOffset, logEndOffset, trimmed.1, logStartOffset, logEndOffset⟩,
    trimmed.2)

/-- The segment a batch goes to, behind the others, creating the first or rolling over as needed. -/
def writableSegment (codec : BatchCodec) (log : SegmentLog) (directory : Directory) (offset : ℕ) :
    List Segment × Segment × Directory :=
  let current :=
    match log.segments.getLast? with
    | some last => (log.segments.dropLast, last, directory)
    | none => ([], openSegment codec directory offset)
  if log.segmentSizeLimit ≤ current.2.1.size then
    (current.1 ++ [current.2.1], openSegment codec current.2.2 offset)
  else current

/-- Append a batch, whole, to a single segment. -/
def append (codec : BatchCodec) (log : SegmentLog) (directory : Directory)
    (entries : List LogEntry) : Except StorageError (SegmentLog × Directory) :=
  match entries with
  | [] => .ok (log, directory)
  | first :: _ =>
    if first.offset ≠ log.innerEndOffset then
      let expected := log.innerEndOffset
      let got := first.offset
      .error (.corruption s!"append offset mismatch: expected {expected}, got {got}")
    else
      let target := writableSegment codec log directory first.offset
      let written := target.2.1.append codec (target.2.2.file target.2.1.baseOffset) entries
      let logEndOffset := log.innerEndOffset + entries.length
      .ok ({ log with
          segments := target.1 ++ [written.1]
          innerEndOffset := logEndOffset
          endOffsetAtomic := logEndOffset },
        target.2.2.edit target.2.1.baseOffset written.2)

/-- Read the segments that overlap `[effectiveStart, endOffset)`. -/
def readSegments (codec : BatchCodec) (directory : Directory) (effectiveStart endOffset : ℕ) :
    List Segment → Except StorageError (List LogEntry)
  | [] => .ok []
  | segment :: rest =>
    if segment.nextOffset ≤ effectiveStart ∨ endOffset ≤ segment.baseOffset then
      readSegments codec directory effectiveStart endOffset rest
    else do
      let entries ← segment.read codec (directory.file segment.baseOffset) effectiveStart endOffset
      let others ← readSegments codec directory effectiveStart endOffset rest
      return entries ++ others

/-- Read the entries in `[startOffset, endOffset)`, none before the log's start. -/
def read (codec : BatchCodec) (log : SegmentLog) (directory : Directory)
    (startOffset endOffset : ℕ) : Except StorageError (List LogEntry) :=
  let effectiveStart := max startOffset log.innerStartOffset
  if endOffset ≤ effectiveStart then .ok []
  else readSegments codec directory effectiveStart endOffset log.segments

/-- Remove the entries from `fromOffset` on. -/
def truncateSuffix (codec : BatchCodec) (log : SegmentLog) (directory : Directory)
    (fromOffset : ℕ) : Except StorageError (SegmentLog × Directory) :=
  if log.innerEndOffset ≤ fromOffset then .ok (log, directory)
  else
    let popped :=
      popTrailing (fun segment => decide (fromOffset ≤ segment.baseOffset)) log.segments directory
    match popped.1.getLast? with
    | none =>
      .ok ({ log with
        segments := popped.1
        innerEndOffset := fromOffset
        endOffsetAtomic := fromOffset }, popped.2)
    | some last => do
      let cut ← last.truncateSuffix codec (popped.2.file last.baseOffset) fromOffset
      return ({ log with
          segments := popped.1.dropLast ++ [cut.2.1]
          innerEndOffset := fromOffset
          endOffsetAtomic := fromOffset },
        popped.2.edit last.baseOffset cut.2.2)

/-- Whether a prefix truncation removes the whole segment. -/
def removes (upToOffset : ℕ) (segment : Segment) : Bool :=
  decide (segment.nextOffset ≤ upToOffset)

/-- The changes of the directory a prefix truncation makes, in order.

The indices of the segments to remove are walked in reverse, so the last of these segments goes
first. -/
def truncatePrefixOps (log : SegmentLog) (upToOffset : ℕ) : List DirectoryOp :=
  ((log.segments.filter (removes upToOffset)).reverse.map fun segment =>
    .removeFile segment.baseOffset) ++
    [.writeStartOffsetTmp upToOffset, .renameStartOffset]

/-- Remove the entries below `upToOffset`, as far as they fill whole segments, and hide the
others. -/
def truncatePrefix (log : SegmentLog) (directory : Directory) (upToOffset : ℕ) :
    SegmentLog × Directory :=
  ({ log with
      segments := log.segments.filter fun segment => !removes upToOffset segment
      innerStartOffset := upToOffset
      startOffsetAtomic := upToOffset },
    DirectoryOp.applyAll (log.truncatePrefixOps upToOffset) directory)

/-- The first offset of the log, as read without the lock. -/
def logStartOffset (log : SegmentLog) : ℕ := log.startOffsetAtomic

/-- The offset after the last entry, as read without the lock. -/
def logEndOffset (log : SegmentLog) : ℕ := log.endOffsetAtomic

/-- The entry at an offset, if there is one. -/
def entryAt (codec : BatchCodec) (log : SegmentLog) (directory : Directory) (offset : ℕ) :
    Except StorageError (Option LogEntry) := do
  let entries ← log.read codec directory offset (offset + 1)
  return entries.head?

end SegmentLog

end XRaft
