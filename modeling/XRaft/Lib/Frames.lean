import Mathlib.Algebra.Group.Nat.Defs
import Mathlib.Data.Nat.Notation
import Mathlib.Data.List.Basic
import Mathlib.Tactic.Common

/-!
# Checksummed frames

A record file is a concatenation of frames, each a twelve-byte header followed by a
payload. The header holds four magic bytes, a checksum of the payload and the payload's
length, both as little-endian words. The length is narrowed to 32 bits, so the header of
a frame describes its payload only for values that fit.

The checksum and the encoding of values are parameters. Nothing is assumed of them
globally: `Format.Fits` says of one value that it decodes to itself and that its length
survives the narrowing.
-/

namespace XRaft.Lib

/-- The four bytes of a word, least significant first. -/
def toLeBytes (word : UInt32) : List UInt8 :=
  [UInt8.ofNat word.toNat, UInt8.ofNat (word.toNat / 2 ^ 8), UInt8.ofNat (word.toNat / 2 ^ 16),
    UInt8.ofNat (word.toNat / 2 ^ 24)]

/-- The word with the given bytes, least significant first. -/
def ofLeBytes (bytes : List UInt8) : UInt32 :=
  UInt32.ofNat (bytes.foldr (fun byte high => byte.toNat + 2 ^ 8 * high) 0)

/-- A word takes four bytes. -/
@[simp] theorem length_toLeBytes (word : UInt32) : (toLeBytes word).length = 4 := rfl

@[simp] theorem take_toLeBytes (word : UInt32) : (toLeBytes word).take 4 = toLeBytes word := rfl

@[simp] theorem drop_toLeBytes (word : UInt32) : (toLeBytes word).drop 4 = [] := rfl

/-- Reading back the bytes of a word gives the word. -/
@[simp] theorem ofLeBytes_toLeBytes (word : UInt32) : ofLeBytes (toLeBytes word) = word := by
  have hlt := word.toNat_lt
  apply UInt32.toNat_inj.mp
  simp only [ofLeBytes, toLeBytes, List.foldr_cons, List.foldr_nil, UInt32.toNat_ofNat',
    UInt8.toNat_ofNat']
  omega

/-- Four bytes are the bytes of the word they are read as. -/
theorem toLeBytes_ofLeBytes {bytes : List UInt8} (hlength : bytes.length = 4) :
    toLeBytes (ofLeBytes bytes) = bytes := by
  obtain ⟨a, b, c, d, rfl⟩ := List.length_eq_four.mp hlength
  have ha := a.toNat_lt
  have hb := b.toNat_lt
  have hc := c.toNat_lt
  have hd := d.toNat_lt
  simp only [toLeBytes, ofLeBytes, List.foldr_cons, List.foldr_nil, UInt32.toNat_ofNat',
    List.cons.injEq, and_true, ← UInt8.toNat_inj, UInt8.toNat_ofNat']
  omega

/-- The next bytes of a stream and what follows them, or nothing at a premature end. -/
def readExact (count : ℕ) (bytes : List UInt8) : Option (List UInt8 × List UInt8) :=
  if count ≤ bytes.length then some (bytes.take count, bytes.drop count) else none

/-- Reading as many bytes as a known first part has returns that part. -/
theorem readExact_append {count : ℕ} {first : List UInt8} (hcount : count = first.length)
    (rest : List UInt8) : readExact count (first ++ rest) = some (first, rest) := by
  rw [readExact, if_pos (by rw [List.length_append]; omega), hcount, List.take_left, List.drop_left]

/-- What was read and what follows it are the bytes there were. -/
theorem readExact_eq_some {count : ℕ} {bytes first rest : List UInt8}
    (h : readExact count bytes = some (first, rest)) :
    bytes = first ++ rest ∧ first.length = count := by
  rw [readExact] at h
  split_ifs at h with hcount
  cases h
  exact ⟨(List.take_append_drop count bytes).symm, by rw [List.length_take, Nat.min_eq_left hcount]⟩

/-- The values from the front of a list whose pieces lie whole within so many first bytes. -/
def wholeWithin {α β : Type*} (encode : α → List β) (count : ℕ) : List α → List α
  | [] => []
  | value :: rest =>
    if (encode value).length ≤ count then
      value :: wholeWithin encode (count - (encode value).length) rest
    else []

/-- A concatenation of pieces that is cut anywhere is all whole pieces up to there and the begin
of the next one. -/
theorem exists_cut_piece {α β : Type*} (encode : α → List β) (values : List α) (count : ℕ) :
    ∃ lost rest, values = wholeWithin encode count values ++ lost ∧
      (values.flatMap encode).take count =
        (wholeWithin encode count values).flatMap encode ++ rest ∧
      ((wholeWithin encode count values).flatMap encode).length ≤ count ∧ (lost = [] → rest = []) ∧
      ∀ next ∈ lost.head?,
        rest = (encode next).take
          (count - ((wholeWithin encode count values).flatMap encode).length) ∧
          count < ((wholeWithin encode count values ++ [next]).flatMap encode).length := by
  induction values generalizing count with
  | nil => exact ⟨[], [], rfl, List.take_nil, Nat.zero_le count, fun _ => rfl, nofun⟩
  | cons value values ih =>
    rw [wholeWithin]
    split_ifs with hcount
    · obtain ⟨lost, rest, hsplit, htake, hkept, hrest, hlost⟩ := ih (count - (encode value).length)
      refine ⟨lost, rest, by rw [List.cons_append, ← hsplit], ?_, ?_, hrest, fun next hnext => ?_⟩
      · rw [List.flatMap_cons, List.take_append, List.take_of_length_le hcount, htake,
          List.flatMap_cons, List.append_assoc]
      · rw [List.flatMap_cons, List.length_append]
        omega
      · obtain ⟨hbegin, hlength⟩ := hlost next hnext
        rw [hbegin, List.cons_append, List.flatMap_cons, List.flatMap_cons, List.length_append,
          List.length_append, Nat.sub_sub]
        exact ⟨rfl, by omega⟩
    · have hcut : count < (encode value).length := Nat.lt_of_not_le hcount
      refine ⟨value :: values, (encode value).take count, rfl, ?_, Nat.zero_le count, nofun,
        fun next hnext => ?_⟩
      · rw [List.flatMap_cons, List.take_append_of_le_length (Nat.le_of_lt hcut), List.flatMap_nil,
          List.nil_append]
      · obtain rfl : value = next := Option.some.inj hnext
        simpa using hcut

/-- The fields of a frame header. -/
structure Header where
  magic : List UInt8
  checksum : UInt32
  length : ℕ
  deriving DecidableEq

/-- Split the bytes of a header into its fields. -/
def Header.parse (bytes : List UInt8) : Header where
  magic := bytes.take 4
  checksum := ofLeBytes ((bytes.drop 4).take 4)
  length := (ofLeBytes ((bytes.drop 8).take 4)).toNat

/-- A header names at most a length of 32 bits. -/
theorem Header.length_parse_lt (bytes : List UInt8) : (Header.parse bytes).length < 2 ^ 32 :=
  UInt32.toNat_lt _

/-- A frame format: its magic bytes, its checksum and the encoding of values. -/
structure Format (α : Type*) where
  magic : List UInt8
  length_magic : magic.length = 4
  checksum : List UInt8 → UInt32
  serialize : α → List UInt8
  deserialize : List UInt8 → Except String α

namespace Format

variable {α : Type*} (format : Format α)

/-- The header written before the payload of a value. -/
def header (value : α) : List UInt8 :=
  format.magic ++ toLeBytes (format.checksum (format.serialize value)) ++
    toLeBytes (UInt32.ofNat (format.serialize value).length)

/-- The bytes of one frame. -/
def frame (value : α) : List UInt8 :=
  format.header value ++ format.serialize value

/-- The bytes of a file that holds the given values. -/
def frames (values : List α) : List UInt8 :=
  values.flatMap format.frame

/-- The value decodes to itself and its payload length fits the header. -/
def Fits (value : α) : Prop :=
  (format.deserialize (format.serialize value)).toOption = some value ∧
    (format.serialize value).length < 2 ^ 32

instance [DecidableEq α] (value : α) : Decidable (format.Fits value) :=
  inferInstanceAs (Decidable (_ ∧ _))

variable {format}

/-- A value that fits is what its payload decodes to. -/
theorem Fits.deserialize_eq {value : α} (h : format.Fits value) :
    format.deserialize (format.serialize value) = .ok value := by
  have hoption := h.1
  cases hresult : format.deserialize (format.serialize value) with
  | error message =>
    rw [hresult] at hoption
    cases hoption
  | ok decoded =>
    rw [hresult] at hoption
    rw [Option.some.inj hoption]

variable (format)

/-- Headers take twelve bytes. -/
@[simp] theorem length_header (value : α) : (format.header value).length = 12 := by
  simp [header, format.length_magic]

/-- A frame is twelve bytes longer than its payload. -/
@[simp] theorem length_frame (value : α) :
    (format.frame value).length = 12 + (format.serialize value).length := by
  simp [frame]

@[simp] theorem frames_nil : format.frames [] = [] := rfl

@[simp] theorem frames_cons (value : α) (rest : List α) :
    format.frames (value :: rest) = format.frame value ++ format.frames rest := rfl

@[simp] theorem frames_append (left right : List α) :
    format.frames (left ++ right) = format.frames left ++ format.frames right :=
  List.flatMap_append

/-- Every frame takes at least a byte, so a file has no more frames than bytes. -/
theorem length_le_length_frames (values : List α) :
    values.length ≤ (format.frames values).length := by
  induction values with
  | nil => exact Nat.le_refl 0
  | cons value rest ih =>
    rw [frames_cons, List.length_append, length_frame, List.length_cons]
    omega

/-- The header of a frame comes first. -/
theorem readExact_frame (value : α) (rest : List UInt8) :
    readExact 12 (format.frame value ++ rest) =
      some (format.header value, format.serialize value ++ rest) := by
  rw [frame, List.append_assoc]
  exact readExact_append (format.length_header value).symm _

/-- What follows a known part of a file. -/
theorem drop_after {file first rest : List UInt8} {position : ℕ}
    (h : file.drop position = first ++ rest) {next : ℕ} (hnext : next = position + first.length) :
    file.drop next = rest := by
  rw [hnext, ← List.drop_drop, h, List.drop_left]

/-- A loop that takes one frame per round takes a run of frames in as many rounds. The loop's state
depends on the values it has passed. -/
theorem scan_frames {σ ρ : Type*} (loop : ℕ → ℕ → σ → ρ) (state : List α → σ) {file : List UInt8}
    {fileSize : ℕ} {values : List α}
    (hround : ∀ value ∈ values, ∀ fuel position passed rest,
      file.drop position = format.frame value ++ rest →
      position + (format.frame value).length ≤ fileSize →
      loop (fuel + 1) position (state passed) =
        loop fuel (position + (format.frame value).length) (state (passed ++ [value])))
    {position : ℕ} {rest : List UInt8} (hdrop : file.drop position = format.frames values ++ rest)
    (hsize : position + (format.frames values).length ≤ fileSize) (fuel : ℕ) (passed : List α) :
    loop (values.length + fuel) position (state passed) =
      loop fuel (position + (format.frames values).length) (state (passed ++ values)) := by
  induction values generalizing position passed with
  | nil => rw [List.length_nil, Nat.zero_add, List.append_nil]; rfl
  | cons value values ih =>
    rw [frames_cons, List.append_assoc] at hdrop
    rw [frames_cons, List.length_append] at hsize ⊢
    have hfuel : (value :: values).length + fuel = (values.length + fuel) + 1 := by
      rw [List.length_cons]
      omega
    rw [hfuel, hround value List.mem_cons_self _ _ _ _ hdrop (by omega),
      ih (fun later hlater => hround later (List.mem_cons_of_mem _ hlater)) (drop_after hdrop rfl)
      (by omega), Nat.add_assoc, List.append_assoc, List.singleton_append]

/-- The fields of a written header: the length is what is left of it in 32 bits. -/
theorem parse_header (value : α) :
    Header.parse (format.header value) =
      ⟨format.magic, format.checksum (format.serialize value),
        (format.serialize value).length % 2 ^ 32⟩ := by
  have hmagic := format.length_magic
  rw [Header.parse, header, List.append_assoc]
  simp [List.take_append, List.drop_append, hmagic, List.drop_of_length_le]

variable {format}

/-- The fields of a written header describe the payload of a value that fits. -/
theorem Fits.parse_header {value : α} (h : format.Fits value) :
    Header.parse (format.header value) =
      ⟨format.magic, format.checksum (format.serialize value),
        (format.serialize value).length⟩ := by
  rw [format.parse_header, Nat.mod_eq_of_lt h.2]

variable (format)

/-- Bytes that do not start with a good frame: they end too early, or a check of the frame fails. -/
def Unreadable (rest : List UInt8) : Prop :=
  rest.length < 12 ∨
    let header := Header.parse (rest.take 12)
    let payload := (rest.drop 12).take header.length
    header.magic ≠ format.magic ∨ rest.length < 12 + header.length ∨
      format.checksum payload ≠ header.checksum ∨
      (format.deserialize payload).toOption.isNone = true

instance (rest : List UInt8) : Decidable (format.Unreadable rest) :=
  inferInstanceAs (Decidable (_ ∨ _))

/-- Nothing is left to read at the end of a file. -/
theorem unreadable_nil : format.Unreadable [] := .inl (by decide)

variable {format}

/-- A frame that was cut short is not readable. -/
theorem Fits.unreadable_take {value : α} (h : format.Fits value) {count : ℕ}
    (hcount : count < (format.frame value).length) :
    format.Unreadable ((format.frame value).take count) := by
  have hlength : ((format.frame value).take count).length = count := by
    rw [List.length_take]
    omega
  by_cases hshort : count < 12
  · exact .inl (by omega)
  · -- the header is complete and names a longer payload than is left
    have hheader : ((format.frame value).take count).take 12 = format.header value := by
      rw [List.take_take, Nat.min_eq_left (by omega), frame, ← format.length_header value,
        List.take_left]
    refine .inr (.inr (.inl ?_))
    rw [hheader, h.parse_header, hlength]
    rwa [length_frame] at hcount

/-- A file of frames that is cut anywhere is all whole frames up to there and unreadable bytes. -/
theorem exists_cut_frame {values : List α} (hfits : ∀ value ∈ values, format.Fits value)
    (count : ℕ) :
    ∃ lost rest, values = wholeWithin format.frame count values ++ lost ∧
      (format.frames values).take count =
        format.frames (wholeWithin format.frame count values) ++ rest ∧
      format.Unreadable rest ∧
      (format.frames (wholeWithin format.frame count values)).length ≤ count ∧
      ∀ next ∈ lost.head?,
        count < (format.frames (wholeWithin format.frame count values ++ [next])).length := by
  obtain ⟨lost, rest, hsplit, htake, hkept, hwhole, hlost⟩ :=
    exists_cut_piece format.frame values count
  refine ⟨lost, rest, hsplit, htake, ?_, hkept, fun next hnext => (hlost next hnext).2⟩
  cases lost with
  | nil =>
    rw [hwhole rfl]
    exact format.unreadable_nil
  | cons next lost =>
    obtain ⟨hbegin, hlength⟩ := hlost next rfl
    have hnext : format.Fits next :=
      hfits next (hsplit ▸ List.mem_append_right _ List.mem_cons_self)
    rw [hbegin]
    refine hnext.unreadable_take ?_
    rw [List.flatMap_append, List.length_append, List.flatMap_singleton] at hlength
    omega

end Format

end XRaft.Lib
