import XRaft.Storage.Layout
import XRaft.Storage.Store

/-!
# The layout of a log on disk

The invariant that ties a segment log, its directory and the abstract log together. The
pieces form a chain from a physical base, which is not above the start: entries below the
start are hidden in the first piece only. Files other than those of the pieces do not
exist, the persisted start is the start, and every bound the log keeps agrees.
-/

namespace XRaft

open Lib

/-- The log and its directory show the abstract log through the pieces, of which the last may
be empty. -/
structure Store.Shows (codec : BatchCodec) (store : Store) (log : AbstractLog) (base : ℕ)
    (pieces : List Piece) : Prop where
  limit : 1 ≤ store.log.segmentSizeLimit
  chain : Piece.Chain base pieces
  fits : ∀ piece ∈ pieces, piece.Fits codec
  full : ∀ piece ∈ pieces.dropLast, piece.entries ≠ []
  holds : store.directory.Holds codec pieces
  segments : store.log.segments = pieces.map (Piece.segment codec)
  persisted : store.directory.loadStartOffset = log.start
  innerStart : store.log.innerStartOffset = log.start
  startAtomic : store.log.startOffsetAtomic = log.start
  innerEnd : store.log.innerEndOffset = log.endOffset
  endAtomic : store.log.endOffsetAtomic = log.endOffset
  base_le : base ≤ log.start
  start_le : log.start ≤ base + (Piece.content pieces).length
  visible : log.entries = (Piece.content pieces).drop (log.start - base)
  later : ∀ piece ∈ pieces.tail, log.start ≤ piece.base

/-- The log and its directory are laid out as the pieces: they show the abstract log, and no
piece but a single one is empty. -/
structure Store.LaidOut (codec : BatchCodec) (store : Store) (log : AbstractLog) (base : ℕ)
    (pieces : List Piece) : Prop extends store.Shows codec log base pieces where
  solid : Piece.Solid pieces

namespace Piece

variable {codec : BatchCodec} {pieces : List Piece} {base : ℕ}

/-- A chain ends where its last piece ends. -/
theorem Chain.endOffset_last {init : List Piece} {last : Piece} (h : Chain base (init ++ [last])) :
    last.base = base + (content init).length ∧
      last.endOffset = base + (content (init ++ [last])).length := by
  obtain ⟨-, hlast, -, -⟩ := chain_append.mp h
  rw [content_append, List.length_append, content_cons, content_nil, List.append_nil,
    endOffset, hlast]
  exact ⟨rfl, Nat.add_assoc _ _ _⟩

/-- Reading piece by piece selects from all their entries, whatever follows them in the files. -/
theorem readSegments_eq {directory : Directory}
    (hfiles : ∀ piece ∈ pieces, ∃ rest, directory.file piece.base = piece.file codec ++ rest)
    (hfits : ∀ piece ∈ pieces, piece.Fits codec)
    (hentries : ∀ piece ∈ pieces, Consecutive LogEntry.offset piece.base piece.entries)
    (startOffset endOffset : ℕ) :
    SegmentLog.readSegments codec directory startOffset endOffset (pieces.map (segment codec)) =
      .ok (Segment.inRange startOffset endOffset (content pieces)) := by
  induction pieces with
  | nil => rfl
  | cons piece rest ih =>
    have hothers := ih (fun other hother => hfiles other (List.mem_cons_of_mem _ hother))
      (fun other hother => hfits other (List.mem_cons_of_mem _ hother))
      (fun other hother => hentries other (List.mem_cons_of_mem _ hother))
    rw [List.map_cons, SegmentLog.readSegments, content_cons, Segment.inRange_append]
    by_cases hskip : (piece.segment codec).nextOffset ≤ startOffset ∨
      endOffset ≤ (piece.segment codec).baseOffset
    · -- no entry of a skipped segment is in the range
      have hnone : Segment.inRange startOffset endOffset piece.entries = [] := by
        apply List.filter_eq_nil_iff.mpr
        intro entry hentry hin
        have hbounds := (hentries piece List.mem_cons_self).key_bounds hentry
        rw [Bool.and_eq_true, decide_eq_true_eq, decide_eq_true_eq] at hin
        change piece.base + piece.entries.length ≤ startOffset ∨ endOffset ≤ piece.base at hskip
        omega
      rw [if_pos hskip, hothers, hnone, List.nil_append]
    · have hread :
          (piece.segment codec).read codec (directory.file piece.base) startOffset endOffset =
            .ok (Segment.inRange startOffset endOffset piece.entries) := by
        obtain ⟨rest, hfile⟩ := hfiles piece List.mem_cons_self
        rw [hfile]
        exact Segment.read_frames_append (hfits piece List.mem_cons_self).batch rfl rest
      rw [if_neg hskip]
      change (Except.bind
        ((piece.segment codec).read codec (directory.file piece.base) startOffset endOffset)
        fun entries => Except.bind (SegmentLog.readSegments codec directory startOffset endOffset
          (rest.map (segment codec))) fun others => .ok (entries ++ others)) = _
      rw [hread, hothers]
      rfl

end Piece

/-- The files of a directory that holds some pieces start with their batches. -/
theorem Directory.Holds.starts {codec : BatchCodec} {directory : Directory} {pieces : List Piece}
    (h : directory.Holds codec pieces) :
    ∀ piece ∈ pieces, ∃ rest, directory.file piece.base = piece.file codec ++ rest :=
  fun _ hpiece => ⟨[], (h.file hpiece).trans (List.append_nil _).symm⟩

namespace Store.Shows

variable {codec : BatchCodec} {store : Store} {log : AbstractLog} {base : ℕ} {pieces : List Piece}

/-- The visible log ends where the pieces end. -/
theorem endOffset_eq (h : store.Shows codec log base pieces) :
    log.endOffset = base + (Piece.content pieces).length := by
  have hlow := h.base_le
  have hhigh := h.start_le
  rw [AbstractLog.endOffset, h.visible, List.length_drop]
  omega

/-- The visible entries are consecutive from the start. -/
theorem consecutive (h : store.Shows codec log base pieces) :
    Consecutive LogEntry.offset log.start log.entries := by
  rw [h.visible]
  exact h.chain.consecutive.drop_to h.base_le

/-- Reading returns the visible entries in the range, also from files with more bytes behind the
batches. -/
theorem read_on (h : store.Shows codec log base pieces) {directory : Directory}
    (hfiles : ∀ piece ∈ pieces, ∃ rest, directory.file piece.base = piece.file codec ++ rest)
    (startOffset endOffset : ℕ) :
    store.log.read codec directory startOffset endOffset =
      .ok (Segment.inRange (max startOffset log.start) endOffset log.entries) := by
  have hcontent := h.chain.consecutive
  have hlow := h.base_le
  rw [SegmentLog.read, h.innerStart]
  by_cases hempty : endOffset ≤ max startOffset log.start
  · rw [if_pos hempty, Segment.inRange_eq_nil hempty]
  · rw [if_neg hempty, h.segments, Piece.readSegments_eq hfiles h.fits h.chain.entries]
    congr 1
    -- entries hidden below the start are below every effective start
    rw [Segment.inRange, Segment.inRange, hcontent.filter_range, h.consecutive.filter_range,
      h.visible, List.take_drop, List.drop_drop]
    congr 1
    · omega
    · congr 1
      omega

end Store.Shows

namespace Store.LaidOut

variable {codec : BatchCodec} {store : Store} {log : AbstractLog} {base : ℕ} {pieces : List Piece}

/-- Reading returns the visible entries in the range. -/
theorem read_eq (h : store.LaidOut codec log base pieces) (startOffset endOffset : ℕ) :
    store.read codec startOffset endOffset =
      .ok (Segment.inRange (max startOffset log.start) endOffset log.entries) :=
  h.read_on h.holds.starts startOffset endOffset

/-- Reading between the bounds returns all visible entries. -/
theorem read_whole (h : store.LaidOut codec log base pieces) :
    store.read codec log.start log.endOffset = .ok log.entries := by
  have hreach : log.start + log.entries.length ≤ log.endOffset := Nat.le_refl _
  rw [h.read_eq, Nat.max_self, Segment.inRange, h.consecutive.filter_range_end hreach, Nat.sub_self,
    List.drop_zero]

/-- A store that is laid out shows the abstract log to its users. -/
theorem represents (h : store.LaidOut codec log base pieces) : store.Represents codec log where
  consecutive := h.consecutive
  logStartOffset := h.startAtomic
  logEndOffset := h.endAtomic
  read startOffset endOffset := by
    rw [h.read_eq]
    congr 1
    apply List.filter_congr
    intro entry hentry
    have hbounds := (h.consecutive.key_bounds hentry).2
    have hend : log.endOffset = log.start + log.entries.length := rfl
    congr 1
    apply decide_eq_decide.mpr
    omega
  entryAt offset := by
    have hread := h.read_eq offset (offset + 1)
    rw [Store.read] at hread
    rw [Store.entryAt, SegmentLog.entryAt, hread]
    change Except.ok _ = _
    congr 1
    rw [Segment.inRange, h.consecutive.filter_range]
    by_cases hstart : log.start ≤ offset
    · rw [if_pos hstart, Nat.max_eq_left hstart, List.head?_drop, List.getElem?_take,
        if_pos (by omega)]
    · rw [if_neg hstart, show offset + 1 - log.start = 0 by omega, List.take_zero, List.drop_nil,
        List.head?_nil]

end Store.LaidOut

end XRaft
