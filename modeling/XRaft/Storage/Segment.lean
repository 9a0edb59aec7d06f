import XRaft.Core.Types
import XRaft.Lib.Files
import XRaft.Lib.Frames

/-!
# Log segments

`segment.rs`: one file of framed batches. The functions read the file from the start and
walk it batch by batch, each with its own reaction to a batch that does not check out:
recovery cuts the file there, reading fails, suffix truncation stops looking.

A segment is the bookkeeping kept in memory; the file is passed beside it. Every loop
carries fuel, and the file's length is always enough of it because a batch takes at
least its header. Operations that write return the changes they make to the file in
order. The `crc32c` and `bincode` crates are parameters; offsets and positions are
natural numbers.
-/

namespace XRaft

open Lib

/-- The errors of the storage layer. -/
inductive StorageError where
  | unexpectedEof
  | io (message : String)
  | corruption (message : String)
  | serialization (message : String)
  deriving DecidableEq, Repr

/-- The external functions a segment file depends on. -/
structure BatchCodec where
  crc32c : Bytes → UInt32
  serialize : List LogEntry → Bytes
  deserialize : Bytes → Except String (List LogEntry)

/-- Magic bytes written at the start of each batch. -/
def batchMagic : Bytes := [0x58, 0x52, 0x41, 0x46]

/-- The frame format of a segment file. -/
def BatchCodec.format (codec : BatchCodec) : Format (List LogEntry) where
  magic := batchMagic
  length_magic := rfl
  checksum := codec.crc32c
  serialize := codec.serialize
  deserialize := codec.deserialize

@[simp] theorem BatchCodec.format_magic (codec : BatchCodec) : codec.format.magic = batchMagic :=
  rfl

@[simp] theorem BatchCodec.format_checksum (codec : BatchCodec) :
    codec.format.checksum = codec.crc32c := rfl

@[simp] theorem BatchCodec.format_serialize (codec : BatchCodec) :
    codec.format.serialize = codec.serialize := rfl

/-- The bookkeeping of one segment file. -/
structure Segment where
  baseOffset : ℕ
  /-- File size (bytes written so far). -/
  size : ℕ
  entryCount : ℕ
  nextOffset : ℕ
  deriving DecidableEq, Repr

namespace Segment

/-- Scan batches from a position: the end of the last good batch and the entries up to there. -/
def recoverLoop (codec : BatchCodec) (file : Bytes) (fileSize : ℕ) : ℕ → ℕ → ℕ → ℕ × ℕ
  | 0, position, totalEntries => (position, totalEntries)
  | fuel + 1, position, totalEntries =>
    if position + 12 ≤ fileSize then
      match readExact 12 (file.drop position) with
      | none => (position, totalEntries)
      | some (bytes, rest) =>
        let header := Header.parse bytes
        if header.magic ≠ batchMagic then (position, totalEntries)
        else if fileSize < position + 12 + header.length then (position, totalEntries)
        else
          match readExact header.length rest with
          | none => (position, totalEntries)
          | some (payload, _) =>
            if codec.crc32c payload ≠ header.checksum then (position, totalEntries)
            else
              match codec.deserialize payload with
              | .error _ => (position, totalEntries)
              | .ok entries =>
                recoverLoop codec file fileSize fuel (position + 12 + header.length)
                  (totalEntries + entries.length)
    else (position, totalEntries)

/-- Count the good batches of a file and cut the file behind them. -/
def recover (codec : BatchCodec) (file : Bytes) (baseOffset : ℕ) : Segment × Bytes :=
  let scanned := recoverLoop codec file file.length file.length 0 0
  let size := if scanned.1 < file.length then scanned.1 else file.length
  (⟨baseOffset, size, scanned.2, baseOffset + scanned.2⟩,
    if scanned.1 < file.length then (FileOp.setLen scanned.1).apply file else file)

/-- Open a segment on the contents of its file, empty if it was just created. -/
def openFile (codec : BatchCodec) (file : Bytes) (baseOffset : ℕ) : Segment × Bytes :=
  if 0 < file.length then recover codec file baseOffset
  else (⟨baseOffset, file.length, 0, baseOffset⟩, file)

/-- Append a batch of entries. -/
def append (codec : BatchCodec) (segment : Segment) (file : Bytes) (entries : List LogEntry) :
    Segment × List FileOp :=
  if entries.isEmpty then (segment, [])
  else
    let payload := codec.serialize entries
    let buffer := batchMagic ++ toLeBytes (codec.crc32c payload) ++
      toLeBytes (UInt32.ofNat payload.length) ++ payload
    ({ segment with
        size := segment.size + buffer.length
        entryCount := segment.entryCount + entries.length
        nextOffset := segment.nextOffset + entries.length },
      [.writeAt file.length buffer])

/-- Collect the entries in `[startOffset, endOffset)` from a position on. -/
def readLoop (codec : BatchCodec) (file : Bytes) (fileSize startOffset endOffset : ℕ) :
    ℕ → ℕ → List LogEntry → Except StorageError (List LogEntry)
  | 0, _, result => .ok result
  | fuel + 1, position, result =>
    if position + 12 ≤ fileSize then
      match readExact 12 (file.drop position) with
      | none => .error .unexpectedEof
      | some (bytes, rest) =>
        let header := Header.parse bytes
        if header.magic ≠ batchMagic then .error (.corruption "invalid batch magic")
        else
          match readExact header.length rest with
          | none => .error .unexpectedEof
          | some (payload, _) =>
            if codec.crc32c payload ≠ header.checksum then .error (.corruption "CRC mismatch")
            else
              match codec.deserialize payload with
              | .error message => .error (.corruption ("deserialize error: " ++ message))
              | .ok entries =>
                readLoop codec file fileSize startOffset endOffset fuel
                  (position + 12 + header.length)
                  (result ++ entries.filter fun entry =>
                    decide (startOffset ≤ entry.offset) && decide (entry.offset < endOffset))
    else .ok result

/-- Read all entries from this segment in `[startOffset, endOffset)`. -/
def read (codec : BatchCodec) (segment : Segment) (file : Bytes) (startOffset endOffset : ℕ) :
    Except StorageError (List LogEntry) :=
  readLoop codec file segment.size startOffset endOffset segment.size 0 []

/-- Read all entries in this segment. -/
def readAll (codec : BatchCodec) (segment : Segment) (file : Bytes) :
    Except StorageError (List LogEntry) :=
  segment.read codec file 0 (2 ^ 64 - 1)

/-- Where a suffix truncation cuts, what stays, and the batch it rewrites first. -/
structure Truncation where
  truncatePosition : ℕ
  remainingEntries : ℕ
  rewrite : List FileOp
  deriving DecidableEq, Repr

/-- The four writes that replace the batch at a position. -/
def rewriteBatch (codec : BatchCodec) (batchStart : ℕ) (entries : List LogEntry) : List FileOp :=
  let payload := codec.serialize entries
  [.writeAt batchStart batchMagic, .writeAt (batchStart + 4) (toLeBytes (codec.crc32c payload)),
    .writeAt (batchStart + 8) (toLeBytes (UInt32.ofNat payload.length)),
    .writeAt (batchStart + 12) payload]

/-- Look for the first batch with an entry at or after `fromOffset`. -/
def truncateLoop (codec : BatchCodec) (file : Bytes) (fileSize fromOffset : ℕ) :
    ℕ → ℕ → ℕ → Except StorageError (Option Truncation)
  | 0, _, _ => .ok none
  | fuel + 1, position, remainingEntries =>
    if position + 12 ≤ fileSize then
      match readExact 12 (file.drop position) with
      | none => .error .unexpectedEof
      | some (bytes, rest) =>
        let header := Header.parse bytes
        if header.magic ≠ batchMagic then .ok none
        else
          match readExact header.length rest with
          | none => .error .unexpectedEof
          | some (payload, _) =>
            match codec.deserialize payload with
            | .error _ => .ok none
            | .ok entries =>
              if entries.any fun entry => decide (fromOffset ≤ entry.offset) then
                let entriesBefore := entries.filter fun entry => decide (entry.offset < fromOffset)
                if entriesBefore.isEmpty then .ok (some ⟨position, remainingEntries, []⟩)
                else
                  .ok (some ⟨position + 12 + (codec.serialize entriesBefore).length,
                    remainingEntries + entriesBefore.length,
                    rewriteBatch codec position entriesBefore⟩)
              else
                truncateLoop codec file fileSize fromOffset fuel (position + 12 + header.length)
                  (remainingEntries + entries.length)
    else .ok none

/-- Truncate all entries at and after `fromOffset`: whether anything was cut, and the file
changes. -/
def truncateSuffix (codec : BatchCodec) (segment : Segment) (file : Bytes) (fromOffset : ℕ) :
    Except StorageError (Bool × Segment × List FileOp) :=
  match truncateLoop codec file segment.size fromOffset segment.size 0 0 with
  | .error failure => .error failure
  | .ok none => .ok (false, segment, [])
  | .ok (some found) =>
    .ok (true,
      { segment with
        size := found.truncatePosition
        entryCount := found.remainingEntries
        nextOffset := segment.baseOffset + found.remainingEntries },
      found.rewrite ++ [.setLen found.truncatePosition])

end Segment

end XRaft
