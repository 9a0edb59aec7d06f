import XRaft.Storage.Codec
import XRaft.Storage.SegmentFrames

/-!
# Opening a segment with a torn tail

A segment file that holds only the first bytes of what was written opens as the segment to
which the whole batches among them were appended, and nothing else: file and bookkeeping are
the same, so every later operation does the same. Only `read_all` can miss an entry: it reads
up to the largest 64-bit number, which is not in the range.
-/

namespace XRaft

open Lib

namespace Segment

variable {codec : BatchCodec}

/-- All entries a segment holds are read, up to the largest 64-bit number. -/
theorem readAll_holding (baseOffset : ℕ) {batches : List (List LogEntry)}
    (hfits : ∀ batch ∈ batches, codec.format.Fits batch) :
    (holding codec baseOffset batches).1.readAll codec (holding codec baseOffset batches).2 =
      .ok (batches.flatten.filter fun entry => entry.offset < 2 ^ 64 - 1) := by
  rw [readAll]
  refine (read_frames hfits rfl).trans ?_
  simp [inRange]

/-- A command at an offset, of the first term and without a payload. -/
def tornEntry (offset : ℕ) : LogEntry := ⟨offset, 1, .command, []⟩

/-- Some batches were appended to a new segment, and its file holds the first bytes of what they
wrote. It opens as the segment that holds the whole batches among those bytes, to the last of
them, with the counters, the file and the behaviour of a segment to which only these were
appended. Reading all entries leaves out the offset that is the largest 64-bit number. -/
theorem torn_tail_opens (codec : BatchCodec) (baseOffset : ℕ) {batches : List (List LogEntry)}
    (hfits : ∀ batch ∈ batches, batch ≠ [] → codec.format.Fits batch) (count : ℕ) :
    ∃ kept lost, written batches = kept ++ lost ∧
      (built codec baseOffset kept).2.length ≤ count ∧
      (∀ next ∈ lost.head?, count < (built codec baseOffset (kept ++ [next])).2.length) ∧
      let opened := openFile codec ((built codec baseOffset batches).2.take count) baseOffset
      opened = built codec baseOffset kept ∧
        opened.2 = (built codec baseOffset batches).2.take (built codec baseOffset kept).2.length ∧
        opened.1.entryCount = kept.flatten.length ∧
        opened.1.nextOffset = baseOffset + kept.flatten.length ∧
        opened.1.readAll codec opened.2 =
        .ok (kept.flatten.filter fun entry => entry.offset < 2 ^ 64 - 1) := by
  have hnonempty : ∀ batch ∈ written batches, batch ≠ [] := fun batch hbatch => by
    simpa using (List.mem_filter.mp hbatch).2
  have hwritten : ∀ batch ∈ written batches, codec.format.Fits batch := fun batch hbatch =>
    hfits batch (List.mem_of_mem_filter hbatch) (hnonempty batch hbatch)
  obtain ⟨lost, rest, hsplit, htake, hrest, hkept, hlost⟩ := Format.exists_cut_frame hwritten count
  set kept := wholeWithin codec.format.frame count (written batches)
  rw [hsplit] at hnonempty hwritten
  have hbuilt : built codec baseOffset kept = holding codec baseOffset kept :=
    built_of_ne_nil baseOffset fun batch hbatch =>
      hnonempty batch (List.mem_append_left lost hbatch)
  have hfitsKept : ∀ batch ∈ kept, codec.format.Fits batch :=
    fun batch hbatch => hwritten batch (List.mem_append_left lost hbatch)
  have hopened : openFile codec ((built codec baseOffset batches).2.take count) baseOffset =
      holding codec baseOffset kept := by
    rw [built_eq]
    change openFile codec ((codec.format.frames (written batches)).take count) baseOffset = _
    rw [htake]
    exact openFile_unreadable hfitsKept hrest baseOffset
  refine ⟨kept, lost, hsplit, ?_, fun next hnext => ?_, ?_⟩
  · rw [hbuilt]
    exact hkept
  · have hlarger : ∀ batch ∈ kept ++ [next], batch ≠ [] := by
      intro batch hbatch
      rcases List.mem_append.mp hbatch with hold | hnew
      · exact hnonempty batch (List.mem_append_left lost hold)
      · rw [List.mem_singleton.mp hnew]
        exact hnonempty next (List.mem_append_right kept (List.mem_of_mem_head? hnext))
    rw [built_of_ne_nil baseOffset hlarger]
    exact hlost next hnext
  · dsimp only
    rw [hopened, hbuilt, built_eq, hsplit]
    refine ⟨rfl, ?_, rfl, rfl, readAll_holding baseOffset hfitsKept⟩
    change _ = (codec.format.frames (kept ++ lost)).take (codec.format.frames kept).length
    rw [Format.frames_append, List.take_left]
    rfl

/-- Two batches with an empty one between them; the file is cut inside the second frame. -/
theorem torn_tail_opens_second :
    ∃ kept lost, [[tornEntry 0, tornEntry 1], [tornEntry 2]] = kept ++ lost ∧
      (built bincodeCrc32c 0 kept).2.length ≤ 90 ∧
      (∀ next ∈ lost.head?, 90 < (built bincodeCrc32c 0 (kept ++ [next])).2.length) ∧
      openFile bincodeCrc32c
        ((built bincodeCrc32c 0 [[tornEntry 0, tornEntry 1], [], [tornEntry 2]]).2.take 90) 0 =
        built bincodeCrc32c 0 kept := by
  have hfits : ∀ batch ∈ [[tornEntry 0, tornEntry 1], [], [tornEntry 2]], batch ≠ [] →
      bincodeCrc32c.format.Fits batch := by
    decide +kernel
  obtain ⟨kept, lost, hsplit, hwithin, hbeyond, hopened, -⟩ :=
    torn_tail_opens bincodeCrc32c 0 hfits 90
  exact ⟨kept, lost, hsplit, hwithin, hbeyond, hopened⟩

/-- An entry with the largest 64-bit number as its offset is recovered and counted, but not read. -/
theorem readAll_misses_largest :
    let file := (built bincodeCrc32c 0 [[tornEntry (2 ^ 64 - 1)]]).2
    let opened := openFile bincodeCrc32c (file.take file.length) 0
    opened = built bincodeCrc32c 0 [[tornEntry (2 ^ 64 - 1)]] ∧ opened.1.entryCount = 1 ∧
      (opened.1.readAll bincodeCrc32c opened.2).toOption = some [] := by
  decide +kernel

end Segment

end XRaft
