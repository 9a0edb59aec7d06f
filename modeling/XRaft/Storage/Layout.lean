import XRaft.Lib.Consecutive
import XRaft.Storage.SegmentFrames
import XRaft.Storage.SegmentLog

/-!
# What a log directory holds

Between the bytes on disk and the abstract log stands a list of pieces: one per segment,
with its base offset and the batches in its file. A piece determines both the segment's
bookkeeping and its file. The pieces of a log form a chain, each starting where the one
before ends.

The lemmas here follow the pieces through the steps the log takes on the directory:
opening, editing, creating and removing segment files.
-/

namespace XRaft

open Lib

/-- A segment as the batches in its file. -/
structure Piece where
  base : ℕ
  batches : List (List LogEntry)
  deriving DecidableEq, Repr

namespace Piece

variable {codec : BatchCodec}

/-- The entries of a piece in file order. -/
def entries (piece : Piece) : List LogEntry := piece.batches.flatten

/-- The offset after the last entry. -/
def endOffset (piece : Piece) : ℕ := piece.base + piece.entries.length

/-- The segment file. -/
def file (codec : BatchCodec) (piece : Piece) : Bytes := codec.format.frames piece.batches

/-- The bookkeeping of an open segment. -/
def segment (codec : BatchCodec) (piece : Piece) : Segment :=
  ⟨piece.base, (piece.file codec).length, piece.entries.length, piece.endOffset⟩

/-- The directory entry of a piece. -/
def listed (codec : BatchCodec) (piece : Piece) : ℕ × Bytes := (piece.base, piece.file codec)

/-- No batch is empty, and every part of a batch that a truncation can leave fits a frame. -/
def Fits (codec : BatchCodec) (piece : Piece) : Prop :=
  ∀ batch ∈ piece.batches, batch ≠ [] ∧ ∀ part, part <+: batch → codec.format.Fits part

/-- The batches of a piece fit. -/
theorem Fits.batch {piece : Piece} (h : piece.Fits codec) :
    ∀ batch ∈ piece.batches, codec.format.Fits batch :=
  fun batch hbatch => (h batch hbatch).2 batch (List.prefix_refl batch)

/-- A piece without entries has no batches. -/
theorem Fits.batches_eq_nil {piece : Piece} (h : piece.Fits codec) (hentries : piece.entries = []) :
    piece.batches = [] := by
  apply List.eq_nil_iff_forall_not_mem.mpr
  intro batch hbatch
  exact (h batch hbatch).1 (List.flatten_eq_nil_iff.mp hentries batch hbatch)

/-- The piece with another batch behind it. -/
def grow (piece : Piece) (batch : List LogEntry) : Piece := ⟨piece.base, piece.batches ++ [batch]⟩

@[simp] theorem base_grow (piece : Piece) (batch : List LogEntry) :
    (piece.grow batch).base = piece.base := rfl

@[simp] theorem entries_grow (piece : Piece) (batch : List LogEntry) :
    (piece.grow batch).entries = piece.entries ++ batch := by
  rw [entries, grow, List.flatten_append, List.flatten_singleton]
  rfl

/-- Appending a batch to the file of a piece gives the file of the grown piece. -/
theorem file_grow (piece : Piece) (batch : List LogEntry) :
    (piece.grow batch).file codec = piece.file codec ++ codec.format.frame batch := by
  rw [file, grow, Format.frames_append, Format.frames_cons, Format.frames_nil, List.append_nil]
  rfl

/-- Appending a batch to the segment of a piece gives the segment of the grown piece. -/
theorem append_segment (codec : BatchCodec) (piece : Piece) {batch : List LogEntry}
    (hbatch : batch ≠ []) :
    ((piece.segment codec).append codec (piece.file codec) batch).1 =
      (piece.grow batch).segment codec ∧
      FileOp.applyAll ((piece.segment codec).append codec (piece.file codec) batch).2
        (piece.file codec) =
        (piece.grow batch).file codec := by
  constructor
  · rw [Segment.append_segment _ hbatch, segment, segment, file_grow, endOffset, endOffset,
      entries_grow, List.length_append, List.length_append, base_grow, Nat.add_assoc]
  · rw [Segment.applyAll_append _ hbatch, file_grow]

/-- Growing keeps a piece fitting when the batch does. -/
theorem Fits.grow {piece : Piece} (h : piece.Fits codec) {batch : List LogEntry}
    (hbatch : batch ≠ []) (hfits : ∀ part, part <+: batch → codec.format.Fits part) :
    (piece.grow batch).Fits codec := by
  intro other hother
  rcases List.mem_append.mp hother with hearlier | hadded
  · exact h other hearlier
  · rw [List.mem_singleton.mp hadded]
    exact ⟨hbatch, hfits⟩

/-- The entries of several pieces in order. -/
def content (pieces : List Piece) : List LogEntry := pieces.flatMap entries

@[simp] theorem content_nil : content [] = [] := rfl

@[simp] theorem content_cons (piece : Piece) (rest : List Piece) :
    content (piece :: rest) = piece.entries ++ content rest := rfl

@[simp] theorem content_append (left right : List Piece) :
    content (left ++ right) = content left ++ content right :=
  List.flatMap_append

/-- Growing the last piece adds the batch to the entries. -/
theorem content_grow (init : List Piece) (last : Piece) (batch : List LogEntry) :
    content (init ++ [last.grow batch]) = content (init ++ [last]) ++ batch := by
  simp

/-- Each piece starts where the one before ends, and offsets are consecutive throughout. -/
def Chain : ℕ → List Piece → Prop
  | _, [] => True
  | start, piece :: rest =>
    piece.base = start ∧ Consecutive LogEntry.offset start piece.entries ∧
      Chain piece.endOffset rest

/-- A chain continues where its first part ends. -/
theorem chain_append {start : ℕ} {left right : List Piece} :
    Chain start (left ++ right) ↔ Chain start left ∧
      Chain (start + (content left).length) right := by
  induction left generalizing start with
  | nil => simp [Chain]
  | cons piece left ih =>
    rw [List.cons_append, Chain, Chain, ih, content_cons, List.length_append, endOffset]
    constructor
    · rintro ⟨rfl, hentries, hleft, hright⟩
      exact ⟨⟨rfl, hentries, hleft⟩, by rwa [← Nat.add_assoc]⟩
    · rintro ⟨⟨rfl, hentries, hleft⟩, hright⟩
      exact ⟨rfl, hentries, hleft, by rwa [Nat.add_assoc]⟩

/-- The entries of a chain have consecutive offsets. -/
theorem Chain.consecutive {start : ℕ} {pieces : List Piece} (h : Chain start pieces) :
    Consecutive LogEntry.offset start (content pieces) := by
  induction pieces generalizing start with
  | nil => exact consecutive_nil start
  | cons piece rest ih =>
    obtain ⟨hbase, hentries, hrest⟩ := h
    rw [content_cons, consecutive_append, ← hbase]
    exact ⟨hbase ▸ hentries, ih hrest⟩

/-- Each piece of a chain has consecutive offsets from its base. -/
theorem Chain.entries {start : ℕ} {pieces : List Piece} (h : Chain start pieces) :
    ∀ piece ∈ pieces, Consecutive LogEntry.offset piece.base piece.entries := by
  induction pieces generalizing start with
  | nil => exact fun _ hmem => absurd hmem List.not_mem_nil
  | cons first rest ih =>
    obtain ⟨hbase, hfirst, hrest⟩ := h
    exact List.forall_mem_cons.mpr ⟨hbase ▸ hfirst, ih hrest⟩

/-- No piece of a chain starts before the chain or ends behind it. -/
theorem Chain.bounds {start : ℕ} {pieces : List Piece} (h : Chain start pieces) {piece : Piece}
    (hpiece : piece ∈ pieces) :
    start ≤ piece.base ∧ piece.endOffset ≤ start + (content pieces).length := by
  induction pieces generalizing start with
  | nil => cases hpiece
  | cons first rest ih =>
    obtain ⟨hbase, -, hrest⟩ := h
    rw [content_cons, List.length_append]
    rcases List.mem_cons.mp hpiece with rfl | hlater
    · rw [endOffset]
      omega
    · have hbounds := ih hrest hlater
      rw [endOffset] at hbounds ⊢
      rw [endOffset] at hbounds
      omega

/-- Every piece holds an entry, except that a single piece may be empty. -/
def Solid (pieces : List Piece) : Prop :=
  pieces.length ≤ 1 ∨ ∀ piece ∈ pieces, piece.entries ≠ []

/-- The pieces in front of another one hold entries. -/
theorem Solid.full {pieces : List Piece} (h : Solid pieces) :
    ∀ piece ∈ pieces.dropLast, piece.entries ≠ [] := by
  intro piece hpiece
  refine h.resolve_left (fun hshort => ?_) piece (List.mem_of_mem_dropLast hpiece)
  rw [List.dropLast_eq_take, List.take_eq_nil_iff.mpr (.inl (by omega))] at hpiece
  cases hpiece

/-- The base offsets of a chain ascend if no piece but the last is empty. -/
theorem Chain.bases_ascend {start : ℕ} {pieces : List Piece} (h : Chain start pieces)
    (hfull : ∀ piece ∈ pieces.dropLast, piece.entries ≠ []) :
    (pieces.map base).Pairwise (· < ·) := by
  induction pieces generalizing start with
  | nil => exact List.Pairwise.nil
  | cons first rest ih =>
    obtain ⟨-, -, hrest⟩ := h
    rw [List.map_cons, List.pairwise_cons]
    by_cases hlast : rest = []
    · rw [hlast]
      exact ⟨fun _ hmem => absurd hmem List.not_mem_nil, List.Pairwise.nil⟩
    · rw [List.dropLast_cons_of_ne_nil hlast, List.forall_mem_cons] at hfull
      have hfirst := List.length_pos_iff.mpr hfull.1
      refine ⟨?_, ih hrest hfull.2⟩
      intro later hlater
      obtain ⟨piece, hpiece, rfl⟩ := List.mem_map.mp hlater
      have hbound := (hrest.bounds hpiece).1
      rw [endOffset] at hbound
      omega

/-- Replacing the last piece by one with the same base keeps the bases of the later pieces. -/
theorem later_replace {init : List Piece} {last replacement : Piece}
    (hbase : replacement.base = last.base) {start : ℕ}
    (hlater : ∀ piece ∈ (init ++ [last]).tail, start ≤ piece.base) :
    ∀ piece ∈ (init ++ [replacement]).tail, start ≤ piece.base := by
  cases init with
  | nil => exact fun _ hmem => absurd hmem List.not_mem_nil
  | cons first rest =>
    obtain ⟨hrest, hlast⟩ := List.forall_mem_append.mp hlater
    refine List.forall_mem_append.mpr ⟨hrest, List.forall_mem_singleton.mpr ?_⟩
    rw [hbase]
    exact hlast last List.mem_cons_self

/-- Replacing the last piece keeps a list solid if the new one holds entries behind others. -/
theorem Solid.replace {init : List Piece} {last replacement : Piece} (h : Solid (init ++ [last]))
    (hentries : init ≠ [] → replacement.entries ≠ []) : Solid (init ++ [replacement]) := by
  rcases h with hshort | hfull
  · left
    rwa [List.length_append, List.length_singleton] at hshort ⊢
  · by_cases hinit : init = []
    · rw [hinit]
      exact .inl (Nat.le_refl 1)
    · exact .inr (List.forall_mem_append.mpr ⟨(List.forall_mem_append.mp hfull).1,
        List.forall_mem_singleton.mpr (hentries hinit)⟩)

/-- Every part of a solid list of pieces is solid. -/
theorem Solid.sublist {pieces part : List Piece} (h : Solid pieces) (hpart : part.Sublist pieces) :
    Solid part := by
  rcases h with hshort | hfull
  · exact .inl (Nat.le_trans hpart.length_le hshort)
  · exact .inr fun piece hpiece => hfull piece (hpart.mem hpiece)

end Piece

namespace Directory

variable {codec : BatchCodec} {directory : Directory} {pieces : List Piece}

/-- The persisted start is read from its file alone. -/
theorem loadStartOffset_congr {other : Directory} (h : other.startOffset = directory.startOffset) :
    other.loadStartOffset = directory.loadStartOffset :=
  congrArg (·.getD 0) h

/-- The segment files of the directory are those of the pieces, under distinct names. -/
structure Holds (codec : BatchCodec) (directory : Directory) (pieces : List Piece) : Prop where
  files : directory.files.Perm (pieces.map (Piece.listed codec))
  nodup : (pieces.map Piece.base).Nodup

/-- The listed names are the base offsets. -/
theorem map_fst_listed (codec : BatchCodec) (pieces : List Piece) :
    (pieces.map (Piece.listed codec)).map Prod.fst = pieces.map Piece.base := by
  rw [List.map_map]
  rfl

namespace Holds

/-- The names in the directory are the base offsets. -/
theorem keys (h : Holds codec directory pieces) :
    (directory.files.map Prod.fst).Perm (pieces.map Piece.base) := by
  rw [← map_fst_listed codec]
  exact h.files.map Prod.fst

/-- The file of a piece is found under its base offset. -/
theorem file (h : Holds codec directory pieces) {piece : Piece} (hpiece : piece ∈ pieces) :
    directory.file piece.base = piece.file codec := by
  have hmem : (piece.base, piece.file codec) ∈ directory.files :=
    h.files.mem_iff.mpr (List.mem_map_of_mem (f := Piece.listed codec) hpiece)
  rw [Directory.file, lookup_of_mem (h.keys.nodup_iff.mpr h.nodup) hmem, Option.getD_some]

/-- Replacing the file of one piece by that of another with the same base. -/
theorem put {left right : List Piece} {piece replacement : Piece}
    (h : Holds codec directory (left ++ piece :: right)) (hbase : replacement.base = piece.base) :
    Holds codec
      { directory with files := Lib.put piece.base (replacement.file codec) directory.files }
      (left ++ replacement :: right) where
  files := by
    have hnodup := h.nodup
    rw [← map_fst_listed codec, List.map_append, List.map_cons] at hnodup
    refine (put_perm h.files _ _).trans ?_
    rw [List.map_append, List.map_cons, List.map_append, List.map_cons, Piece.listed,
      Piece.listed, hbase]
    exact put_middle _ hnodup
  nodup := by
    have hnodup := h.nodup
    rw [List.map_append, List.map_cons] at hnodup ⊢
    rwa [hbase]

/-- Changing the file of one piece. -/
theorem edit {left right : List Piece} {piece replacement : Piece}
    (h : Holds codec directory (left ++ piece :: right)) (hbase : replacement.base = piece.base)
    {ops : List FileOp} (hops : FileOp.applyAll ops (piece.file codec) = replacement.file codec) :
    Holds codec (directory.edit piece.base ops) (left ++ replacement :: right) := by
  rw [Directory.edit, h.file (List.mem_append_right _ List.mem_cons_self), hops]
  exact h.put hbase

/-- Removing the file of one piece. -/
theorem removeFile {left right : List Piece} {piece : Piece}
    (h : Holds codec directory (left ++ piece :: right)) :
    Holds codec (directory.removeFile piece.base) (left ++ right) where
  files := by
    have hnodup := h.nodup
    rw [← map_fst_listed codec, List.map_append, List.map_cons] at hnodup
    refine (erase_perm h.files _).trans ?_
    rw [List.map_append, List.map_cons, List.map_append, Piece.listed, erase_middle hnodup]
  nodup := by
    have hnodup := h.nodup
    rw [List.map_append, List.map_cons, List.nodup_middle, List.nodup_cons,
      ← List.map_append] at hnodup
    exact hnodup.2

/-- Opening a file under a new name creates an empty segment. -/
theorem createSegment (h : Holds codec directory pieces) {base : ℕ}
    (hbase : base ∉ pieces.map Piece.base) :
    (SegmentLog.openSegment codec directory base).1 = (Piece.mk base []).segment codec ∧
      Holds codec (SegmentLog.openSegment codec directory base).2 (pieces ++ [⟨base, []⟩]) := by
  have hnone : directory.file base = [] := by
    rw [Directory.file, lookup_of_notMem (mt h.keys.mem_iff.mp hbase), Option.getD_none]
  rw [SegmentLog.openSegment, hnone]
  refine ⟨rfl, ?_, ?_⟩
  · refine (put_perm h.files _ _).trans ?_
    rw [List.map_append]
    exact put_of_notMem _ (by rwa [map_fst_listed])
  · rw [List.map_append, List.nodup_append]
    refine ⟨h.nodup, List.nodup_singleton _, ?_⟩
    intro other hother new hnew heq
    rw [List.map_singleton, List.mem_singleton] at hnew
    have hsame : other = base := heq.trans hnew
    exact hbase (hsame ▸ hother)

/-- What removing trailing segments does to the pieces and the directory. -/
structure Popped (codec : BatchCodec) (drops : Segment → Bool) (directory : Directory)
    (pieces kept dropped : List Piece) (popped : List Segment × Directory) : Prop where
  split : pieces = kept ++ dropped
  segments : popped.1 = kept.map (Piece.segment codec)
  holds : Holds codec popped.2 kept
  startOffset : popped.2.startOffset = directory.startOffset
  all_drop : ∀ piece ∈ dropped, drops (piece.segment codec) = true
  keeps : pieces ≠ [] → kept ≠ []
  stops : kept.length ≤ 1 ∨ ∀ last, kept.getLast? = some last → drops (last.segment codec) = false

/-- Trailing segments are removed from the back until one stays. -/
theorem popTrailing (h : Holds codec directory pieces) (drops : Segment → Bool) :
    ∃ kept dropped, Popped codec drops directory pieces kept dropped
      (SegmentLog.popTrailing drops (pieces.map (Piece.segment codec)) directory) := by
  induction pieces using List.reverseRecOn generalizing directory with
  | nil => exact ⟨[], [], rfl, rfl, h, rfl, fun _ hmem => absurd hmem List.not_mem_nil, id,
      .inl (Nat.zero_le 1)⟩
  | append_singleton init last ih =>
    have hreverse : ((init ++ [last]).map (Piece.segment codec)).reverse =
        last.segment codec :: (init.map (Piece.segment codec)).reverse := by
      rw [List.map_append, List.map_singleton, List.reverse_append, List.reverse_singleton,
        List.singleton_append]
    cases hinit : (init.map (Piece.segment codec)).reverse with
    | nil =>
      have hnil : init = [] := List.map_eq_nil_iff.mp (List.reverse_eq_nil_iff.mp hinit)
      subst hnil
      exact ⟨[last], [], rfl, rfl, h, rfl, fun _ hmem => absurd hmem List.not_mem_nil,
        fun _ => List.cons_ne_nil _ _, .inl (Nat.le_refl 1)⟩
    | cons previous rest =>
      have hne : init ≠ [] := by
        rintro rfl
        cases hinit
      by_cases hdrop : drops (last.segment codec) = true
      · -- the last file goes, and the loop continues on the others
        have hholds : Holds codec (directory.removeFile last.base) init := by
          have hremoved := h.removeFile
          rwa [List.append_nil] at hremoved
        obtain ⟨kept, dropped, hpopped⟩ := ih hholds
        have heq :
            SegmentLog.popTrailing drops ((init ++ [last]).map (Piece.segment codec)) directory =
              SegmentLog.popTrailing drops (init.map (Piece.segment codec))
                (directory.removeFile last.base) := by
          rw [SegmentLog.popTrailing, SegmentLog.popTrailing, hreverse, hinit, SegmentLog.popLoop,
            if_pos hdrop]
          rfl
        rw [heq]
        refine ⟨kept, dropped ++ [last], ?_, hpopped.segments, hpopped.holds,
          hpopped.startOffset, ?_, fun _ => hpopped.keeps hne, hpopped.stops⟩
        · rw [hpopped.split, List.append_assoc]
        · intro piece hpiece
          rcases List.mem_append.mp hpiece with hearlier | hlast
          · exact hpopped.all_drop piece hearlier
          · rw [List.mem_singleton.mp hlast]
            exact hdrop
      · have heq :
            SegmentLog.popTrailing drops ((init ++ [last]).map (Piece.segment codec)) directory =
              ((init ++ [last]).map (Piece.segment codec), directory) := by
          rw [SegmentLog.popTrailing, hreverse, hinit, SegmentLog.popLoop, if_neg hdrop, ← hinit,
            ← hreverse, List.reverse_reverse]
        rw [heq]
        refine ⟨init ++ [last], [], (List.append_nil _).symm, rfl, h, rfl,
          fun _ hmem => absurd hmem List.not_mem_nil, id, .inr ?_⟩
        intro final hfinal
        rw [List.getLast?_append, List.getLast?_singleton, Option.some_or,
          Option.some.injEq] at hfinal
        rw [← hfinal]
        exact Bool.not_eq_true _ ▸ hdrop

/-- Removing the files of a run of pieces, last first. -/
theorem removeFiles {left removed right : List Piece}
    (h : Holds codec directory (left ++ removed ++ right)) :
    Holds codec
      (DirectoryOp.applyAll (removed.reverse.map fun piece => .removeFile piece.base) directory)
      (left ++ right) := by
  induction removed using List.reverseRecOn generalizing directory with
  | nil => rwa [List.append_nil] at h
  | append_singleton init last ih =>
    have hshape : left ++ (init ++ [last]) ++ right = left ++ init ++ last :: right := by simp
    rw [hshape] at h
    rw [List.reverse_append, List.reverse_singleton, List.singleton_append, List.map_cons]
    exact ih h.removeFile

end Holds

/-- The segment files are named by the pieces, and opening each of them finds its piece. Behind the
batches of a piece its file may hold bytes that recovery cuts off. -/
structure Recovers (codec : BatchCodec) (directory : Directory) (pieces : List Piece) : Prop where
  keys : (directory.files.map Prod.fst).Perm (pieces.map Piece.base)
  nodup : (pieces.map Piece.base).Nodup
  opens : ∀ piece ∈ pieces,
    Segment.openFile codec (directory.file piece.base) piece.base = (piece.segment codec,
      piece.file codec)

/-- Opening the files of pieces that fit finds the pieces. -/
theorem Holds.recovers (h : Holds codec directory pieces)
    (hfits : ∀ piece ∈ pieces, piece.Fits codec) : Recovers codec directory pieces where
  keys := h.keys
  nodup := h.nodup
  opens piece hpiece := by
    rw [h.file hpiece]
    exact Segment.openFile_frames (hfits piece hpiece).batch piece.base

/-- The directory with other contents in a segment file. -/
def overwrite (directory : Directory) (baseOffset : ℕ) (file : Bytes) : Directory :=
  { directory with files := put baseOffset file directory.files }

/-- Opening finds the piece that is left of a damaged one, and the others. -/
theorem Holds.recovers_overwrite {before after : List Piece} {piece left : Piece} {file : Bytes}
    (h : directory.Holds codec (before ++ piece :: after))
    (hfits : ∀ other ∈ before ++ piece :: after, other.Fits codec) (hbase : left.base = piece.base)
    (hopen : Segment.openFile codec file piece.base = (left.segment codec, left.file codec)) :
    (directory.overwrite piece.base file).Recovers codec (before ++ left :: after) := by
  have hbases : (before ++ left :: after).map Piece.base =
      (before ++ piece :: after).map Piece.base := by
    rw [List.map_append, List.map_append, List.map_cons, List.map_cons, hbase]
  have hnodup := h.nodup
  refine ⟨?_, hbases ▸ hnodup, ?_⟩
  · rw [hbases]
    refine (keys_put file (h.keys.nodup_iff.mpr hnodup) (h.keys.mem_iff.mpr ?_)).trans h.keys
    exact List.mem_map_of_mem (List.mem_append_right before List.mem_cons_self)
  · intro other hother
    rw [Directory.file, Directory.overwrite, lookup_put]
    rw [List.map_append, List.map_cons, List.nodup_middle, List.nodup_cons,
      ← List.map_append] at hnodup
    have hrest : other = left ∨ other ∈ before ++ after := by
      rw [List.mem_append, List.mem_cons] at hother
      rw [List.mem_append]
      tauto
    rcases hrest with rfl | hrest
    · rw [if_pos hbase, hbase]
      exact hopen
    · have hmem : other ∈ before ++ piece :: after := by
        rw [List.mem_append, List.mem_cons]
        rw [List.mem_append] at hrest
        tauto
      have hne : other.base ≠ piece.base := by
        intro heq
        exact hnodup.1 (heq ▸ List.mem_map_of_mem hrest)
      rw [if_neg hne]
      exact (h.recovers hfits).opens other hmem

namespace Recovers

/-- A directory is determined by its names and the files under them. -/
theorem holds (h : Recovers codec directory pieces)
    (hfiles : ∀ piece ∈ pieces, directory.file piece.base = piece.file codec) :
    Holds codec directory pieces where
  files := by
    have hself : directory.files = (directory.files.map Prod.fst).map fun key =>
      (key, directory.file key) := by
      rw [List.map_map]
      refine ((List.map_congr_left ?_).trans (List.map_id _)).symm
      intro entry hentry
      have hlookup := lookup_of_mem (h.keys.nodup_iff.mpr h.nodup) hentry
      exact Prod.ext rfl (congrArg (·.getD []) hlookup)
    rw [hself]
    refine (h.keys.map _).trans (List.Perm.of_eq ?_)
    rw [List.map_map]
    exact List.map_congr_left fun piece hpiece => Prod.ext rfl (hfiles piece hpiece)
  nodup := h.nodup

/-- Opening the file of a piece gives its segment, cuts the file to its batches and leaves the
others. -/
theorem openSegment (h : Recovers codec directory pieces)
    (hfits : ∀ piece ∈ pieces, piece.Fits codec) {piece : Piece} (hpiece : piece ∈ pieces) :
    (SegmentLog.openSegment codec directory piece.base).1 = piece.segment codec ∧
      Recovers codec (SegmentLog.openSegment codec directory piece.base).2 pieces ∧
      (SegmentLog.openSegment codec directory piece.base).2.file piece.base = piece.file codec ∧
      ∀ other ∈ pieces, directory.file other.base = other.file codec →
        (SegmentLog.openSegment codec directory piece.base).2.file other.base =
          other.file codec := by
  have hopen := h.opens piece hpiece
  have hfile : ∀ other ∈ pieces,
      (SegmentLog.openSegment codec directory piece.base).2.file other.base =
      if other = piece then piece.file codec else directory.file other.base := by
    intro other hother
    rw [SegmentLog.openSegment, hopen, Directory.file, lookup_put]
    by_cases hsame : other = piece
    · rw [if_pos hsame, if_pos (congrArg Piece.base hsame)]
      rfl
    · rw [if_neg hsame,
        if_neg fun hbase => hsame (List.inj_on_of_nodup_map h.nodup hother hpiece hbase)]
      rfl
  have hpiecefile := (hfile piece hpiece).trans (if_pos rfl)
  refine ⟨congrArg Prod.fst hopen, ⟨?_, h.nodup, ?_⟩, hpiecefile, ?_⟩
  · refine (keys_put _ (h.keys.nodup_iff.mpr h.nodup) (h.keys.mem_iff.mpr ?_)).trans h.keys
    exact List.mem_map_of_mem hpiece
  · intro other hother
    rw [hfile other hother]
    split_ifs with hsame
    · rw [hsame]
      exact Segment.openFile_frames (hfits piece hpiece).batch piece.base
    · exact h.opens other hother
  · intro other hother hsettled
    rw [hfile other hother]
    split_ifs with hsame
    · rw [hsame]
    · exact hsettled

/-- Opening the files of several pieces gives their segments and cuts their files. -/
theorem openSegments (h : Recovers codec directory pieces)
    (hfits : ∀ piece ∈ pieces, piece.Fits codec) {chosen : List Piece}
    (hchosen : ∀ piece ∈ chosen, piece ∈ pieces) :
    (SegmentLog.openSegments codec (chosen.map Piece.base) directory).1 =
      chosen.map (Piece.segment codec) ∧
      Recovers codec (SegmentLog.openSegments codec (chosen.map Piece.base) directory).2 pieces ∧
      (∀ piece ∈ pieces, piece ∈ chosen ∨ directory.file piece.base = piece.file codec →
        (SegmentLog.openSegments codec (chosen.map Piece.base) directory).2.file piece.base =
          piece.file codec) ∧
      (SegmentLog.openSegments codec (chosen.map Piece.base) directory).2.startOffset =
        directory.startOffset := by
  induction chosen generalizing directory with
  | nil =>
    refine ⟨rfl, h, fun piece _ hsettled => ?_, rfl⟩
    exact hsettled.resolve_left List.not_mem_nil
  | cons piece rest ih =>
    obtain ⟨hpiece, hrest⟩ := List.forall_mem_cons.mp hchosen
    obtain ⟨hsegment, hrecovers, hfile, hothers⟩ := h.openSegment hfits hpiece
    obtain ⟨hsegments, hafter, hfiles, hstart⟩ := ih hrecovers hrest
    rw [List.map_cons, SegmentLog.openSegments, List.map_cons]
    refine ⟨?_, hafter, ?_, hstart⟩
    · change _ :: _ = _
      rw [hsegment, hsegments]
    · intro other hother hsettled
      apply hfiles other hother
      rcases hsettled with hmem | hsettled
      · rcases List.mem_cons.mp hmem with rfl | hlater
        · exact .inr hfile
        · exact .inl hlater
      · exact .inr (hothers other hother hsettled)

end Recovers

end Directory

end XRaft
