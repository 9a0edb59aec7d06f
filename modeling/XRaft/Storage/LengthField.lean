import XRaft.Storage.Codec
import XRaft.Storage.SegmentFrames

/-!
# The length field of a batch

`Segment::append` narrows the length of the payload to 32 bits. The header of a batch whose
payload is longer names the remainder, and whoever scans the file steps to a place within
the batch. Nothing refuses such a batch.

The batch that a suffix truncation rewrites is never that long: it holds some entries of a
batch that was read, whose length the header named, and `bincode` encodes fewer entries in
no more bytes.
-/

namespace XRaft

open Lib

/-- What is kept of a decoded batch takes no more bytes than the batch. -/
def BatchCodec.Shrinks (codec : BatchCodec) : Prop :=
  ∀ payload entries kept, codec.deserialize payload = .ok entries → kept.Sublist entries →
    (codec.serialize kept).length ≤ payload.length

namespace Segment

variable (codec : BatchCodec)

/-- The header that a scan finds at a position. -/
def headerAt (file : Bytes) (position : ℕ) : Header := Header.parse ((file.drop position).take 12)

/-- The file ends with a batch whose length field is the number of payload bytes behind the
header, so that a scan steps from the batch to the end of the file. -/
structure EndsWithBatch (file : Bytes) (position : ℕ) (payload : Bytes) : Prop where
  bytes : file.drop (position + 12) = payload
  length : (headerAt file position).length = payload.length
  next : position + 12 + (headerAt file position).length = file.length

/-- A batch that is written has a true length field, and one whose payload is too long for it is
refused. -/
structure AppendsHonestly (segment : Segment) (file : Bytes) (entries : List LogEntry) : Prop where
  written : (segment.append codec file entries).2 ≠ [] →
    EndsWithBatch (FileOp.applyAll (segment.append codec file entries).2 file) file.length
    (codec.serialize entries)
  refused : entries ≠ [] → 2 ^ 32 ≤ (codec.serialize entries).length →
    FileOp.applyAll (segment.append codec file entries).2 file = file

/-- The header of a frame at the end of a file names the payload's length, as far as it fits. -/
theorem length_headerAt_frame (first : Bytes) (entries : List LogEntry) :
    (headerAt (first ++ codec.format.frame entries) first.length).length =
      (codec.serialize entries).length % 2 ^ 32 := by
  have hheader : (codec.format.frame entries).take 12 = codec.format.header entries := by
    rw [Format.frame, List.take_left' (codec.format.length_header entries)]
  rw [headerAt, List.drop_left, hheader, Format.parse_header]
  rfl

/-- A frame at the end of a file has a true length field exactly if the payload's length fits. -/
theorem endsWithBatch_frame_iff (first : Bytes) (entries : List LogEntry) :
    EndsWithBatch (first ++ codec.format.frame entries) first.length (codec.serialize entries) ↔
      (codec.serialize entries).length < 2 ^ 32 := by
  have hlength := length_headerAt_frame codec first entries
  constructor
  · intro h
    rw [← h.length]
    exact Header.length_parse_lt _
  · intro hfits
    rw [Nat.mod_eq_of_lt hfits] at hlength
    refine ⟨?_, hlength, ?_⟩
    · rw [← List.drop_drop, List.drop_left, Format.frame,
        List.drop_left' (codec.format.length_header entries)]
      rfl
    · rw [hlength, List.length_append, Format.length_frame, Nat.add_assoc]
      rfl

/-- Appending is honest exactly if the payload's length fits, or nothing is written. -/
theorem appendsHonestly_iff (segment : Segment) (file : Bytes) (entries : List LogEntry) :
    AppendsHonestly codec segment file entries ↔
      (entries ≠ [] → (codec.serialize entries).length < 2 ^ 32) := by
  by_cases hempty : entries = []
  · subst hempty
    exact iff_of_true ⟨fun hwritten => absurd rfl hwritten, fun hne => absurd rfl hne⟩ fun hne =>
      absurd rfl hne
  · have hwrites : (segment.append codec file entries).2 ≠ [] := by
      rw [append, if_neg (by simpa using hempty)]
      exact List.cons_ne_nil _ _
    have hafter : FileOp.applyAll (segment.append codec file entries).2 file =
        file ++ codec.format.frame entries :=
      applyAll_append segment hempty
    constructor
    · intro h _
      have hwritten := h.written hwrites
      rw [hafter] at hwritten
      exact (endsWithBatch_frame_iff codec file entries).mp hwritten
    · intro hfits
      have hshort := hfits hempty
      refine ⟨fun _ => ?_, fun _ hlong => absurd hshort (Nat.not_lt.mpr hlong)⟩
      rw [hafter]
      exact (endsWithBatch_frame_iff codec file entries).mpr hshort

/-- What a scan that finds a place to cut has seen there: the start of a batch, or a batch to
rewrite with some of its entries. -/
inductive Found (file : Bytes) : Truncation → Prop where
  | boundary (position remaining : ℕ) : Found file ⟨position, remaining, []⟩
  | inside (position remaining : ℕ) (payload : Bytes) (entries kept : List LogEntry)
      (hread : position + 12 + payload.length ≤ file.length) (hlength : payload.length < 2 ^ 32)
      (hdecode : codec.deserialize payload = .ok entries) (hkept : kept.Sublist entries) :
      Found file
        ⟨position + 12 + (codec.serialize kept).length, remaining, rewriteBatch codec position kept⟩

variable {codec} {file : Bytes}

/-- The scan finds nothing else. -/
theorem truncateLoop_found {fileSize fromOffset fuel position remaining : ℕ} {found : Truncation}
    (h : truncateLoop codec file fileSize fromOffset fuel position remaining = .ok (some found)) :
    Found codec file found := by
  induction fuel generalizing position remaining with
  | zero => cases h
  | succ fuel ih =>
    rw [truncateLoop] at h
    by_cases hroom : position + 12 ≤ fileSize
    · rw [if_pos hroom] at h
      split at h
      · cases h
      · rename_i bytes behind hheader
        dsimp only at h
        split_ifs at h with hmagic
        · cases h
        · split at h
          · cases h
          · rename_i payload rest hpayload
            split at h
            · cases h
            · rename_i entries hdecode
              split_ifs at h with hany hbefore
              · cases h
                exact .boundary position remaining
              · cases h
                obtain ⟨hbytes, hheaderlen⟩ := readExact_eq_some hheader
                obtain ⟨hbehind, hlength⟩ := readExact_eq_some hpayload
                have hread : position + 12 + payload.length ≤ file.length := by
                  have htotal := congrArg List.length hbytes
                  rw [hbehind, List.length_drop, List.length_append, List.length_append] at htotal
                  omega
                exact .inside position _ payload entries _ hread
                  (hlength ▸ Header.length_parse_lt bytes) hdecode
                  List.filter_sublist
              · exact ih h
    · rw [if_neg hroom] at h
      cases h

/-- A rewritten batch that fits where it stands leaves a file that ends with it. -/
theorem applyAll_rewrite {position : ℕ} {kept : List LogEntry}
    (hroom : position + 12 + (codec.serialize kept).length ≤ file.length) :
    FileOp.applyAll (rewriteBatch codec position kept ++
      [.setLen (position + 12 + (codec.serialize kept).length)])
      file = file.take position ++ codec.format.frame kept := by
  have hposition : (file.take position).length = position := by
    rw [List.length_take]
    omega
  have hend : position + 12 + (codec.serialize kept).length =
      (file.take position ++ codec.format.frame kept).length := by
    rw [List.length_append, hposition, Format.length_frame, Nat.add_assoc]
    rfl
  have hrewrite := @applyAll_rewriteBatch codec (file.take position) (file.drop position) kept
  rw [hposition, List.take_append_drop] at hrewrite
  rw [FileOp.applyAll, List.foldl_append]
  change FileOp.applyAll [_] (FileOp.applyAll _ _) = _
  rw [hrewrite, FileOp.applyAll_cons, FileOp.applyAll_nil]
  exact FileOp.apply_setLen_append hend _

/-- A truncation cuts at the start of a batch, or leaves a rewritten batch with a true length
field at the end. -/
theorem truncateSuffix_honest (hshrinks : codec.Shrinks) {segment after : Segment} {fromOffset : ℕ}
    {ops : List FileOp}
    (h : segment.truncateSuffix codec file fromOffset = .ok (true, after, ops)) :
    ops = [.setLen after.size] ∨ ∃ position kept,
    ops = rewriteBatch codec position kept ++ [.setLen after.size] ∧
      EndsWithBatch (FileOp.applyAll ops file) position (codec.serialize kept) := by
  rw [truncateSuffix] at h
  split at h
  · cases h
  · cases h
  · rename_i found hloop
    have hfound := truncateLoop_found hloop
    cases h
    cases hfound with
    | boundary position remaining => exact .inl rfl
    | inside position remaining payload entries kept hread hlength hdecode hkept =>
      have hshort := hshrinks payload entries kept hdecode hkept
      have hposition : (file.take position).length = position := by
        rw [List.length_take]
        omega
      refine .inr ⟨position, kept, rfl, ?_⟩
      dsimp only
      rw [applyAll_rewrite (by omega)]
      have hends := (endsWithBatch_frame_iff codec (file.take position) kept).mpr (by omega)
      rwa [hposition] at hends

/-- The length field of an appended batch is true and a batch that is too long for it refused,
exactly if the payload is shorter than `2 ^ 32` bytes or there is nothing to append. The length
field of the batch that a truncation rewrites is always true. -/
theorem length_field_iff (codec : BatchCodec) (hshrinks : codec.Shrinks) (segment : Segment)
    (file : Bytes) :
    (∀ entries, AppendsHonestly codec segment file entries ↔
      (entries ≠ [] → (codec.serialize entries).length < 2 ^ 32)) ∧
    ∀ fromOffset after ops, segment.truncateSuffix codec file fromOffset = .ok (true, after, ops) →
      ops = [.setLen after.size] ∨ ∃ position kept,
      ops = rewriteBatch codec position kept ++ [.setLen after.size] ∧
        EndsWithBatch (FileOp.applyAll ops file) position (codec.serialize kept) :=
  ⟨appendsHonestly_iff codec segment file, fun _ _ _ h => truncateSuffix_honest hshrinks h⟩

end Segment

namespace Bincode

/-- Integers take eight bytes. -/
@[simp] theorem length_encodeU64 (value : ℕ) : (encodeU64 value).length = 8 := rfl

/-- An entry takes 28 bytes more than its payload. -/
@[simp] theorem length_encodeEntry (entry : LogEntry) :
    (encodeEntry entry).length = 28 + entry.payload.length := by
  simp only [encodeEntry, List.length_append, length_encodeU64, length_toLeBytes]

/-- Taking bytes splits the input. -/
theorem take_ok {count : ℕ} {bytes first rest : Bytes} (h : take count bytes = .ok (first, rest)) :
    first.length = count ∧ bytes.length = count + rest.length := by
  rw [take] at h
  split at h
  · rename_i taken htaken
    cases h
    obtain ⟨hbytes, hfirst⟩ := readExact_eq_some htaken
    exact ⟨hfirst, by rw [hbytes, List.length_append, hfirst]⟩
  · cases h

/-- A sequence of two readings that succeeds consists of two that do. -/
theorem bind_ok {α β : Type} {first : Except String α} {next : α → Except String β} {result : β}
    (h : first >>= next = .ok result) : ∃ value, first = .ok value ∧ next value = .ok result := by
  cases first with
  | error message => cases h
  | ok value => exact ⟨value, rfl, h⟩

/-- An integer is read from eight bytes. -/
theorem decodeU64_ok {bytes rest : Bytes} {value : ℕ} (h : decodeU64 bytes = .ok (value, rest)) :
    bytes.length = 8 + rest.length := by
  obtain ⟨⟨digits, tail⟩, htake, hvalue⟩ := bind_ok h
  cases hvalue
  exact (take_ok htake).2

/-- An entry type is read from four bytes. -/
theorem decodeEntryType_ok {bytes rest : Bytes} {entryType : EntryType}
    (h : decodeEntryType bytes = .ok (entryType, rest)) : bytes.length = 4 + rest.length := by
  obtain ⟨⟨index, tail⟩, htake, hvalue⟩ := bind_ok h
  have htail : rest = tail := by
    dsimp only at hvalue
    split_ifs at hvalue <;> cases hvalue <;> rfl
  rw [htail]
  exact (take_ok htake).2

/-- An entry is read from as many bytes as it takes. -/
theorem decodeEntry_ok {bytes rest : Bytes} {entry : LogEntry}
    (h : decodeEntry bytes = .ok (entry, rest)) :
    bytes.length = (encodeEntry entry).length + rest.length := by
  obtain ⟨⟨offset, behindOffset⟩, hoffset, h⟩ := bind_ok h
  obtain ⟨⟨term, behindTerm⟩, hterm, h⟩ := bind_ok h
  obtain ⟨⟨entryType, behindType⟩, htype, h⟩ := bind_ok h
  obtain ⟨⟨length, behindLength⟩, hlength, h⟩ := bind_ok h
  obtain ⟨⟨payload, behindPayload⟩, hpayload, h⟩ := bind_ok h
  cases h
  have hoffset := decodeU64_ok hoffset
  have hterm := decodeU64_ok hterm
  have htype := decodeEntryType_ok htype
  have hlength := decodeU64_ok hlength
  have hpayload := take_ok hpayload
  rw [length_encodeEntry]
  dsimp only at *
  omega

/-- Entries are read from at least as many bytes as they take. -/
theorem decodeEntries_ok {count : ℕ} {bytes : Bytes} {entries : List LogEntry}
    (h : decodeEntries count bytes = .ok entries) :
    (entries.flatMap encodeEntry).length ≤ bytes.length := by
  induction count generalizing bytes entries with
  | zero =>
    cases h
    exact Nat.zero_le _
  | succ count ih =>
    obtain ⟨⟨entry, rest⟩, hentry, h⟩ := bind_ok h
    obtain ⟨others, hothers, h⟩ := bind_ok h
    cases h
    rw [List.flatMap_cons, List.length_append, decodeEntry_ok hentry]
    exact Nat.add_le_add_left (ih hothers) _

/-- Fewer entries take no more bytes. -/
theorem length_flatMap_sublist {kept entries : List LogEntry} (h : kept.Sublist entries) :
    (kept.flatMap encodeEntry).length ≤ (entries.flatMap encodeEntry).length := by
  induction h with
  | slnil => exact Nat.le_refl _
  | cons entry _ ih =>
    rw [List.flatMap_cons, List.length_append]
    exact Nat.le_add_left_of_le ih
  | cons_cons entry _ ih =>
    rw [List.flatMap_cons, List.flatMap_cons, List.length_append, List.length_append]
    exact Nat.add_le_add_left ih _

/-- A list of entries takes eight bytes more than the entries. -/
theorem length_encode (entries : List LogEntry) :
    (encode entries).length = 8 + (entries.flatMap encodeEntry).length := by
  rw [encode, List.length_append, length_encodeU64]

end Bincode

/-- The layout of `bincode` has no more bytes for fewer entries. -/
theorem bincodeCrc32c_shrinks : bincodeCrc32c.Shrinks := by
  intro payload entries kept hdecode hkept
  obtain ⟨⟨count, rest⟩, hcount, hentries⟩ := Bincode.bind_ok hdecode
  have hpayload := Bincode.decodeU64_ok hcount
  have hsize := Bincode.decodeEntries_ok hentries
  have hshort := Bincode.length_flatMap_sublist hkept
  change (Bincode.encode kept).length ≤ payload.length
  rw [Bincode.length_encode]
  omega

namespace Segment

/-- A batch of a single command. -/
def single (payload : Bytes) : List LogEntry := [⟨0, 1, .command, payload⟩]

/-- The batch takes 36 bytes more than the command. -/
theorem length_serialize_single (payload : Bytes) :
    (bincodeCrc32c.serialize (single payload)).length = payload.length + 36 := by
  change (Bincode.encode (single payload)).length = _
  rw [Bincode.length_encode, single, List.flatMap_cons, List.flatMap_nil, List.append_nil,
    Bincode.length_encodeEntry]
  dsimp only
  omega

/-- A batch of a command of `2 ^ 32` bytes is written with a length field of 36. -/
theorem append_single_wraps {payload : Bytes} (hpayload : payload.length = 2 ^ 32) :
    let file := FileOp.applyAll (Segment.append bincodeCrc32c ⟨0, 0, 0, 0⟩ [] (single payload)).2 []
    (bincodeCrc32c.serialize (single payload)).length = 2 ^ 32 + 36 ∧ file.length = 2 ^ 32 + 48 ∧
      (headerAt file 0).length = 36 ∧
      ¬ AppendsHonestly bincodeCrc32c ⟨0, 0, 0, 0⟩ [] (single payload) := by
  have hlength := length_serialize_single payload
  rw [hpayload] at hlength
  have hne : single payload ≠ [] := List.cons_ne_nil _ _
  have hfile : FileOp.applyAll (Segment.append bincodeCrc32c ⟨0, 0, 0, 0⟩ [] (single payload)).2
      [] =
      [] ++ bincodeCrc32c.format.frame (single payload) := applyAll_append _ hne
  have hheader := length_headerAt_frame bincodeCrc32c [] (single payload)
  rw [hlength] at hheader
  refine ⟨hlength, ?_, ?_, fun honest => ?_⟩
  · rw [hfile, List.nil_append, Format.length_frame, BatchCodec.format_serialize, hlength]
    omega
  · rw [hfile]
    exact hheader
  · have hfits := (appendsHonestly_iff bincodeCrc32c _ [] (single payload)).mp honest hne
    omega

/-- A batch of two entries and the truncation that keeps the first one. -/
theorem length_field_second :
    let entries : List LogEntry := [⟨0, 1, .command, [7]⟩, ⟨1, 1, .command, [8]⟩]
    let file := bincodeCrc32c.format.frame entries
    AppendsHonestly bincodeCrc32c ⟨0, 0, 0, 0⟩ [] entries ∧
      ∃ after ops, Segment.truncateSuffix bincodeCrc32c ⟨0, 78, 2, 2⟩ file 1 =
      .ok (true, after, ops) ∧
        ∃ position kept,
          EndsWithBatch (FileOp.applyAll ops file) position (bincodeCrc32c.serialize kept) := by
  intro entries file
  have happend := (length_field_iff bincodeCrc32c bincodeCrc32c_shrinks ⟨0, 0, 0, 0⟩ []).1 entries
  have htruncate := (length_field_iff bincodeCrc32c bincodeCrc32c_shrinks ⟨0, 78, 2, 2⟩ file).2 1
  have hcut : Segment.truncateSuffix bincodeCrc32c ⟨0, 78, 2, 2⟩ file 1 = .ok (true, ⟨0, 49, 1, 1⟩,
      rewriteBatch bincodeCrc32c 0 [⟨0, 1, .command, [7]⟩] ++ [.setLen 49]) := by decide +kernel
  refine ⟨happend.mpr fun _ => by decide, _, _, hcut, ?_⟩
  rcases htruncate _ _ hcut with hboundary | ⟨position, kept, -, hends⟩
  · exact absurd hboundary (by decide)
  · exact ⟨position, kept, hends⟩

/-- The payload of the batch takes `2 ^ 32 + 36` bytes; the header names 36 of them, and the batch
is not refused. -/
theorem append_length_wraps :
    let entries := single (List.replicate (2 ^ 32) 0)
    let file := FileOp.applyAll (Segment.append bincodeCrc32c ⟨0, 0, 0, 0⟩ [] entries).2 []
    (bincodeCrc32c.serialize entries).length = 2 ^ 32 + 36 ∧ file.length = 2 ^ 32 + 48 ∧
      (headerAt file 0).length = 36 ∧ ¬ AppendsHonestly bincodeCrc32c ⟨0, 0, 0, 0⟩ [] entries :=
  append_single_wraps List.length_replicate

end Segment

end XRaft
