import XRaft.Storage.Segment

/-!
# A codec to run the storage model with

The layout that the `bincode` crate gives a list of entries and the checksum that the
`crc32c` crate computes, so that the storage model can be evaluated on concrete files.
Integers have fixed width and are little-endian, a sequence is preceded by its length, an
enumeration by the index of its variant, and bytes behind the value are ignored. General
results do not depend on this choice.
-/

namespace XRaft

open Lib

namespace Crc32c

/-- Shift one bit out of the 32-bit register, with the reflected Castagnoli polynomial. -/
def shiftBit (register : ℕ) : ℕ :=
  if register % 2 = 1 then (register / 2) ^^^ 0x82F63B78 else register / 2

/-- Feed one byte into the register. -/
def feed (register : ℕ) (byte : UInt8) : ℕ :=
  (List.range 8).foldl (fun register _ => shiftBit register) (register ^^^ byte.toNat)

/-- Feed bytes into the register. The register is matched on so that it is evaluated at each
byte. -/
def feedAll : Bytes → ℕ → ℕ
  | [], register => register
  | byte :: rest, 0 => feedAll rest (feed 0 byte)
  | byte :: rest, register + 1 => feedAll rest (feed (register + 1) byte)

/-- The CRC-32C of some bytes. -/
def checksum (bytes : Bytes) : UInt32 :=
  UInt32.ofNat (feedAll bytes 0xFFFFFFFF ^^^ 0xFFFFFFFF)

-- the check value of the algorithm, the checksum of the digits one to nine
example : checksum [0x31, 0x32, 0x33, 0x34, 0x35, 0x36, 0x37, 0x38, 0x39] = 0xE3069283 := by
  decide +kernel

end Crc32c

namespace Bincode

/-- A 64-bit integer. -/
def encodeU64 (value : ℕ) : Bytes :=
  (List.range 8).map fun index => UInt8.ofNat (value / 2 ^ (8 * index))

/-- The index of a variant of `EntryType`. -/
def variantIndex : EntryType → UInt32
  | .command => 0
  | .leaderChangeMessage => 1
  | .votersRecord => 2

/-- A log entry, field by field. -/
def encodeEntry (entry : LogEntry) : Bytes :=
  encodeU64 entry.offset ++ encodeU64 entry.term ++ toLeBytes (variantIndex entry.entryType) ++
    encodeU64 entry.payload.length ++ entry.payload

/-- A list of log entries. -/
def encode (entries : List LogEntry) : Bytes :=
  encodeU64 entries.length ++ entries.flatMap encodeEntry

/-- Take bytes from the input or fail at its end. -/
def take (count : ℕ) (bytes : Bytes) : Except String (Bytes × Bytes) :=
  match readExact count bytes with
  | some taken => .ok taken
  | none => .error "io error: unexpected end of file"

/-- Read a 64-bit integer. -/
def decodeU64 (bytes : Bytes) : Except String (ℕ × Bytes) := do
  let (digits, rest) ← take 8 bytes
  return (digits.foldr (fun byte high => byte.toNat + 2 ^ 8 * high) 0, rest)

/-- Read a variant of `EntryType`. -/
def decodeEntryType (bytes : Bytes) : Except String (EntryType × Bytes) := do
  let (index, rest) ← take 4 bytes
  if ofLeBytes index = 0 then return (.command, rest)
  else if ofLeBytes index = 1 then return (.leaderChangeMessage, rest)
  else if ofLeBytes index = 2 then return (.votersRecord, rest)
  else .error "invalid value: expected variant index 0 <= i < 3"

/-- Read a log entry. -/
def decodeEntry (bytes : Bytes) : Except String (LogEntry × Bytes) := do
  let (offset, bytes) ← decodeU64 bytes
  let (term, bytes) ← decodeU64 bytes
  let (entryType, bytes) ← decodeEntryType bytes
  let (length, bytes) ← decodeU64 bytes
  let (payload, bytes) ← take length bytes
  return (⟨offset, term, entryType, payload⟩, bytes)

/-- Read so many log entries. -/
def decodeEntries : ℕ → Bytes → Except String (List LogEntry)
  | 0, _ => .ok []
  | count + 1, bytes => do
    let (entry, bytes) ← decodeEntry bytes
    let entries ← decodeEntries count bytes
    return entry :: entries

/-- Read a list of log entries. The number of entries read is bounded by the bytes there are. -/
def decode (bytes : Bytes) : Except String (List LogEntry) := do
  let (count, rest) ← decodeU64 bytes
  decodeEntries (min count (rest.length + 1)) rest

end Bincode

/-- The codec of segment files. -/
def bincodeCrc32c : BatchCodec := ⟨Crc32c.checksum, Bincode.encode, Bincode.decode⟩

end XRaft
