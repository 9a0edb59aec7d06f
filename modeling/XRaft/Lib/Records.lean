import XRaft.Lib.Frames

/-!
# Files of records of a fixed width

A record file is the concatenation of its records, each of the same number of bytes. The
first bytes of such a file are its first records and perhaps a part of the next one, so a
reader that leaves the partial record out gets the records that were written first.
-/

namespace XRaft.Lib

/-- The eight bytes of a word, least significant first. -/
def toLeBytes64 (word : UInt64) : List UInt8 :=
  (List.range 8).map fun index => UInt8.ofNat (word.toNat / 2 ^ (8 * index))

/-- The word with the given bytes, least significant first. -/
def ofLeBytes64 (bytes : List UInt8) : UInt64 :=
  UInt64.ofNat (bytes.foldr (fun byte high => byte.toNat + 2 ^ 8 * high) 0)

/-- A word takes eight bytes. -/
@[simp] theorem length_toLeBytes64 (word : UInt64) : (toLeBytes64 word).length = 8 := rfl

/-- Reading back the bytes of a word gives the word. -/
@[simp] theorem ofLeBytes64_toLeBytes64 (word : UInt64) :
    ofLeBytes64 (toLeBytes64 word) = word := by
  have hlt := word.toNat_lt
  apply UInt64.toNat_inj.mp
  simp only [ofLeBytes64, toLeBytes64, List.range, List.range.loop, List.map_cons, List.map_nil,
    List.foldr_cons, List.foldr_nil, UInt64.toNat_ofNat', UInt8.toNat_ofNat']
  omega

/-- How a record is written and read. -/
structure RecordFormat (α : Type*) where
  width : ℕ
  width_pos : 0 < width
  encode : α → List UInt8
  decode : List UInt8 → α
  length_encode : ∀ record, (encode record).length = width
  decode_encode : ∀ record, decode (encode record) = record

namespace RecordFormat

variable {α : Type*} (format : RecordFormat α)

/-- Read so many records, or fail at a premature end of the file. -/
def readRecords : ℕ → List UInt8 → Option (List α)
  | 0, _ => some []
  | count + 1, bytes =>
    match readExact format.width bytes with
    | none => none
    | some (record, rest) => (readRecords count rest).map (format.decode record :: ·)

/-- The bytes of some records. -/
def bytes (records : List α) : List UInt8 := records.flatMap format.encode

/-- The length of a record file counts its records. -/
@[simp] theorem length_bytes (records : List α) :
    (format.bytes records).length = format.width * records.length := by
  induction records with
  | nil => rfl
  | cons record rest ih =>
    rw [bytes, List.flatMap_cons, List.length_append, format.length_encode, List.length_cons,
      Nat.mul_succ]
    change _ + (format.bytes rest).length = _
    rw [ih, Nat.add_comm]

/-- One more record stands behind the others. -/
theorem bytes_append_singleton (records : List α) (record : α) :
    format.bytes (records ++ [record]) = format.bytes records ++ format.encode record := by
  simp [bytes]

/-- A record file that is cut behind a record is the file of the records in front of the cut. -/
theorem take_bytes (records : List α) (count : ℕ) :
    (format.bytes records).take (format.width * count) = format.bytes (records.take count) := by
  induction records generalizing count with
  | nil => simp [bytes]
  | cons record rest ih =>
    cases count with
    | zero => simp [bytes]
    | succ count =>
      have hlength := format.length_encode record
      have hsplit : format.width * (count + 1) = (format.encode record).length + format.width *
          count := by
        rw [hlength, Nat.mul_succ, Nat.add_comm]
      rw [List.take_succ_cons, bytes, List.flatMap_cons, hsplit, List.take_length_add_append]
      exact congrArg _ (ih count)

/-- Reading as many records as there are returns them. -/
theorem readRecords_bytes (records : List α) :
    format.readRecords records.length (format.bytes records) = some records := by
  induction records with
  | nil => rfl
  | cons record rest ih =>
    have hread : readExact format.width (format.bytes (record :: rest)) =
        some (format.encode record, format.bytes rest) :=
      readExact_append (format.length_encode record).symm (format.bytes rest)
    rw [List.length_cons, readRecords, hread]
    simp only [ih, Option.map_some, format.decode_encode]

end RecordFormat

/-- The eight bytes of a word, most significant first. -/
def toBeBytes64 (word : UInt64) : List UInt8 := (toLeBytes64 word).reverse

/-- The word with the given bytes, most significant first. -/
def ofBeBytes64 (bytes : List UInt8) : UInt64 := ofLeBytes64 bytes.reverse

/-- A word takes eight bytes. -/
@[simp] theorem length_toBeBytes64 (word : UInt64) : (toBeBytes64 word).length = 8 := rfl

/-- Reading back the bytes of a word gives the word. -/
@[simp] theorem ofBeBytes64_toBeBytes64 (word : UInt64) :
    ofBeBytes64 (toBeBytes64 word) = word := by
  rw [ofBeBytes64, toBeBytes64, List.reverse_reverse, ofLeBytes64_toLeBytes64]

end XRaft.Lib
