import XRaft.Lib.BinarySearch
import XRaft.Lib.Records
import XRaft.Storage.Segment

/-!
# The sparse index of a segment

`segment_index.rs`: a file of pairs of a log offset and a byte position, kept in memory as
well. A look-up searches the pairs for the last offset that is not above the target. An
index file that ends within a pair is cut in front of it when it is opened.

As for segments, the file is passed beside the index and operations that write return
their changes to it. The search has as many rounds as there are entries; the window
shrinks in each of them. A look-up out of range and a search that is not over after its
rounds are results of the model, so that their absence can be stated.
-/

namespace XRaft

open Lib

/-- An index entry: a log offset and the byte position for it. -/
abbrev IndexEntry := UInt64 × UInt64

/-- An index entry takes sixteen bytes: the offset and the byte position, both little-endian. -/
def indexFormat : RecordFormat IndexEntry where
  width := 16
  width_pos := by decide
  encode entry := toLeBytes64 entry.1 ++ toLeBytes64 entry.2
  decode bytes := (ofLeBytes64 (bytes.take 8), ofLeBytes64 ((bytes.drop 8).take 8))
  length_encode _ := rfl
  decode_encode entry := by
    rw [List.take_left' (length_toLeBytes64 entry.1), List.drop_left' (length_toLeBytes64 entry.1),
      List.take_of_length_le (Nat.le_of_eq (length_toLeBytes64 entry.2)), ofLeBytes64_toLeBytes64,
      ofLeBytes64_toLeBytes64]

/-- The entries in memory and the recording interval. -/
structure SparseIndex where
  entries : List IndexEntry
  interval : UInt32
  deriving DecidableEq, Repr

namespace SparseIndex

/-- Create an empty index with an empty file. -/
def create (interval : UInt32) : SparseIndex × Bytes := (⟨[], interval⟩, [])

/-- Load an index file into memory and cut a partial entry from its end. -/
def openFile (interval : UInt32) (file : Bytes) : Except StorageError (SparseIndex × Bytes) :=
  let validLen := file.length - file.length % indexFormat.width
  let file := if validLen < file.length then (FileOp.setLen validLen).apply file else file
  match indexFormat.readRecords (validLen / indexFormat.width) file with
  | none => .error .unexpectedEof
  | some entries => .ok (⟨entries, interval⟩, file)

/-- Append an index entry: in memory, and with two writes at the end of the file. -/
def append (index : SparseIndex) (file : Bytes) (offset bytePosition : UInt64) :
    SparseIndex × List FileOp :=
  ({ index with entries := index.entries ++ [(offset, bytePosition)] },
    [.writeAt file.length (toLeBytes64 offset),
      .writeAt (file.length + 8) (toLeBytes64 bytePosition)])

/-- The byte position to start scanning from for an offset. -/
def lookup (index : SparseIndex) (targetOffset : UInt64) : Option (Option UInt64) :=
  if index.entries.isEmpty then some none
  else
    match partitionLoop (fun entry => decide (entry.1 ≤ targetOffset)) index.entries
      index.entries.length 0
      index.entries.length with
    | none => none
    | some low =>
      if low = 0 then some none
      else
        match index.entries[low - 1]? with
        | none => none
        | some entry => some (some entry.2)

/-- An index and its file after one more entry. -/
def appendEntry (state : SparseIndex × Bytes) (entry : IndexEntry) : SparseIndex × Bytes :=
  let appended := state.1.append state.2 entry.1 entry.2
  (appended.1, FileOp.applyAll appended.2 state.2)

/-- A new index and its file after some entries were appended. -/
def built (interval : UInt32) (entries : List IndexEntry) : SparseIndex × Bytes :=
  entries.foldl appendEntry (create interval)

/-- The last entry with an offset up to the target. -/
def floorEntry (entries : List IndexEntry) (targetOffset : UInt64) : Option IndexEntry :=
  (entries.filter fun entry => decide (entry.1 ≤ targetOffset)).getLast?

/-- There is no such entry exactly if all offsets are above the target. -/
theorem floorEntry_eq_none_iff {entries : List IndexEntry} {targetOffset : UInt64} :
    floorEntry entries targetOffset = none ↔ ∀ entry ∈ entries, targetOffset < entry.1 := by
  rw [floorEntry, List.getLast?_eq_none_iff, List.filter_eq_nil_iff]
  simp only [decide_eq_true_eq, UInt64.not_le]

/-- Appending an entry adds its bytes to the file. -/
theorem appendEntry_eq (index : SparseIndex) (file : Bytes) (entry : IndexEntry) :
    appendEntry (index, file) entry =
      ({ index with entries := index.entries ++ [entry] }, file ++ indexFormat.encode entry) := by
  have hsecond : file.length + 8 = (file ++ toLeBytes64 entry.1).length := by
    rw [List.length_append, length_toLeBytes64]
  have hwritten : FileOp.applyAll [.writeAt file.length (toLeBytes64 entry.1),
      .writeAt (file.length + 8) (toLeBytes64 entry.2)] file =
        file ++ indexFormat.encode entry := by
    rw [FileOp.applyAll_cons, FileOp.apply_writeAt_end, FileOp.applyAll_cons, hsecond,
      FileOp.apply_writeAt_end, List.append_assoc]
    rfl
  exact congrArg (Prod.mk _) hwritten

/-- A new index holds the entries in memory and their bytes in the file. -/
theorem built_eq (interval : UInt32) (entries : List IndexEntry) :
    built interval entries = (⟨entries, interval⟩, indexFormat.bytes entries) := by
  induction entries using List.reverseRecOn with
  | nil => rfl
  | append_singleton earlier entry ih =>
    rw [built, List.foldl_concat]
    change appendEntry (built interval earlier) entry = _
    rw [ih, appendEntry_eq, RecordFormat.bytes_append_singleton]

/-- A look-up among increasing offsets stays in range, ends, and finds the last entry up to the
target. -/
theorem lookup_eq {index : SparseIndex}
    (h : index.entries.Pairwise fun first second => first.1 < second.1) (targetOffset : UInt64) :
    index.lookup targetOffset = some ((floorEntry index.entries targetOffset).map Prod.snd) := by
  have hinitial : index.entries.Pairwise fun first second =>
      decide (second.1 ≤ targetOffset) = true → decide (first.1 ≤ targetOffset) = true := by
    refine h.imp fun hless hsecond => ?_
    exact decide_eq_true (UInt64.le_trans (UInt64.le_of_lt hless) (of_decide_eq_true hsecond))
  obtain ⟨count, hcount, hfilter⟩ := exists_holdsUpTo hinitial
  have hsearch := hcount.partitionLoop_eq (Nat.zero_le count) hcount.count_le (Nat.le_refl _)
    (Nat.le_of_eq (Nat.zero_add _).symm)
  unfold lookup floorEntry
  rw [hfilter]
  split_ifs with hempty
  · rw [List.isEmpty_iff.mp hempty, List.take_nil]
    rfl
  · rw [hsearch]
    dsimp only
    split_ifs with hzero
    · rw [hzero, List.take_zero]
      rfl
    · have hlast := getElem?_pred_eq_getLast?_take (Nat.pos_of_ne_zero hzero) hcount.count_le
      have hread :=
        List.getElem?_eq_getElem
          (show count - 1 < index.entries.length by have := hcount.count_le; omega)
      rw [← hlast, hread]
      rfl

/-- The number of entries that the first bytes of an index file hold in full. -/
theorem valid_take (entries : List IndexEntry) (count : ℕ) :
    min count (16 * entries.length) - min count (16 * entries.length) % 16 =
      16 * (entries.take (count / 16)).length := by
  rw [List.length_take]
  omega

/-- Cutting off a partial entry leaves the bytes of the entries that are held in full. -/
theorem cut_take (entries : List IndexEntry) (count : ℕ) :
    (if 16 * (entries.take (count / 16)).length < min count (16 * entries.length) then
      (FileOp.setLen (16 * (entries.take (count / 16)).length)).apply
          ((indexFormat.bytes entries).take count)
      else (indexFormat.bytes entries).take count) =
      indexFormat.bytes (entries.take (count / 16)) := by
  have hfirst : (indexFormat.bytes entries).take (16 * (entries.take (count / 16)).length) =
      indexFormat.bytes (entries.take (count / 16)) := by
    have hsame : entries.take (entries.take (count / 16)).length = entries.take (count / 16) :=
      List.take_eq_take_iff.mpr (by rw [List.length_take]; omega)
    exact (indexFormat.take_bytes entries _).trans (congrArg indexFormat.bytes hsame)
  have hbytes : (indexFormat.bytes entries).length = 16 * entries.length :=
    indexFormat.length_bytes entries
  have hshort : 16 * (entries.take (count / 16)).length ≤ count := by
    rw [List.length_take]
    omega
  split_ifs with hpartial
  · have hwithin : 16 * (entries.take (count / 16)).length ≤
        ((indexFormat.bytes entries).take count).length := by
      rw [List.length_take (l := indexFormat.bytes entries), hbytes]
      exact Nat.le_of_lt hpartial
    rw [FileOp.apply_setLen_of_le hwithin, List.take_take, Nat.min_eq_left hshort, hfirst]
  · rw [← hfirst, List.take_eq_take_iff, hbytes]
    omega

/-- The first bytes of an index file open as an index of the entries they hold in full. -/
theorem openFile_take (interval : UInt32) (entries : List IndexEntry) (count : ℕ) :
    openFile interval ((indexFormat.bytes entries).take count) =
      .ok (⟨entries.take (count / 16), interval⟩,
        (indexFormat.bytes entries).take (16 * (count / 16))) := by
  have hlength : ((indexFormat.bytes entries).take count).length =
      min count (16 * entries.length) := by
    rw [List.length_take, indexFormat.length_bytes]
    rfl
  have hread := indexFormat.readRecords_bytes (entries.take (count / 16))
  have hkept := indexFormat.take_bytes entries (count / 16)
  change (indexFormat.bytes entries).take (16 * (count / 16)) = _ at hkept
  unfold openFile
  simp only [hlength, show indexFormat.width = 16 from rfl, valid_take,
    Nat.mul_div_cancel_left _ (show 0 < 16 by decide), cut_take]
  rw [hread, hkept]

/-- Entries with increasing offsets were appended to a new index. A look-up ends within range at
the last entry up to the target, if there is one. The first bytes of the file, however many, open
as an index of the entries they hold in full; the file is cut behind these, and look-ups answer as
in an index to which only these were appended. -/
theorem lookup_reload (interval : UInt32) {entries : List IndexEntry}
    (hentries : entries.Pairwise fun first second => first.1 < second.1) :
    (∀ targetOffset,
      (built interval entries).1.lookup targetOffset =
        some ((floorEntry entries targetOffset).map Prod.snd) ∧
      ((built interval entries).1.lookup targetOffset = some none ↔ ∀ entry ∈ entries,
        targetOffset < entry.1)) ∧
    ∀ reopenInterval count, ∃ reopened,
      openFile reopenInterval ((built interval entries).2.take count) =
        .ok (reopened, (built interval entries).2.take (16 * (count / 16))) ∧
      reopened.entries = entries.take (count / 16) ∧
      ∀ targetOffset,
        reopened.lookup targetOffset =
          (built interval (entries.take (count / 16))).1.lookup targetOffset ∧
        reopened.lookup targetOffset =
          some ((floorEntry (entries.take (count / 16)) targetOffset).map Prod.snd) := by
  have hlookup : ∀ targetOffset,
      (built interval entries).1.lookup targetOffset =
      some ((floorEntry entries targetOffset).map Prod.snd) := by
    rw [built_eq]
    exact fun targetOffset => lookup_eq hentries targetOffset
  refine ⟨fun targetOffset => ⟨hlookup targetOffset, ?_⟩, fun reopenInterval count => ?_⟩
  · rw [hlookup, Option.some.injEq, Option.map_eq_none_iff, floorEntry_eq_none_iff]
  · have hkept := hentries.sublist (List.take_sublist (count / 16) entries)
    rw [built_eq, built_eq]
    refine ⟨_, openFile_take reopenInterval entries count, rfl, fun targetOffset => ?_⟩
    have hany : ∀ interval, SparseIndex.lookup ⟨entries.take (count / 16), interval⟩ targetOffset =
        some ((floorEntry (entries.take (count / 16)) targetOffset).map Prod.snd) :=
      fun _ => lookup_eq hkept targetOffset
    exact ⟨(hany reopenInterval).trans (hany interval).symm, hany reopenInterval⟩

/-- Three entries, as in the tests; the file is cut within the last one. -/
theorem lookup_reload_torn :
    let entries : List IndexEntry := [(0, 0), (16, 500), (32, 1200)]
    (built 16 entries).1.lookup 20 = some (some 500) ∧
      ∃ reopened, openFile 16 ((built 16 entries).2.take 45) =
      .ok (reopened, (built 16 entries).2.take 32) ∧
        reopened.lookup 100 = some (some 500) := by
  intro entries
  have hentries : entries.Pairwise fun first second => first.1 < second.1 := by decide
  obtain ⟨hlookup, hreload⟩ := lookup_reload 16 hentries
  obtain ⟨reopened, hopen, -, htargets⟩ := hreload 16 45
  exact ⟨(hlookup 20).1, reopened, hopen, (htargets 100).2⟩

end SparseIndex

end XRaft
