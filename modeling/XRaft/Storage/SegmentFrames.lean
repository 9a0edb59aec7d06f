import XRaft.Storage.Segment

/-!
# Segments whose file holds whole batches

A segment file written by appends alone is a concatenation of frames. On such a file each
loop of `segment.rs` takes one frame per round, so what it computes is stated about the
list of batches: recovery counts them, reading filters their entries, truncation keeps the
batches before the first one it has to touch.
-/

namespace XRaft

open Lib

namespace Segment

variable {codec : BatchCodec} {file rest : Bytes} {batch : List LogEntry}
  {batches : List (List LogEntry)} {position fileSize : ℕ}

section Recover

/-- Recovery counts a whole batch and moves behind it. -/
theorem recoverLoop_frame (hfits : codec.format.Fits batch)
    (hdrop : file.drop position = codec.format.frame batch ++ rest)
    (hsize : position + (codec.format.frame batch).length ≤ fileSize) (fuel total : ℕ) :
    recoverLoop codec file fileSize (fuel + 1) position total =
      recoverLoop codec file fileSize fuel (position + (codec.format.frame batch).length)
        (total + batch.length) := by
  have hdecode : codec.deserialize (codec.serialize batch) = .ok batch := hfits.deserialize_eq
  rw [Format.length_frame, codec.format_serialize, ← Nat.add_assoc] at hsize ⊢
  rw [recoverLoop, if_pos (by omega), hdrop, Format.readExact_frame]
  simp [hfits.parse_header, readExact_append, hdecode, Nat.not_lt.mpr hsize]

/-- Recovery counts every batch of a run of whole batches. -/
theorem recoverLoop_frames (hfits : ∀ batch ∈ batches, codec.format.Fits batch)
    (hdrop : file.drop position = codec.format.frames batches ++ rest)
    (hsize : position + (codec.format.frames batches).length ≤ fileSize) (fuel total : ℕ) :
    recoverLoop codec file fileSize (batches.length + fuel) position total =
      recoverLoop codec file fileSize fuel (position + (codec.format.frames batches).length)
        (total + batches.flatten.length) := by
  apply codec.format.scan_frames (recoverLoop codec file fileSize)
    (fun passed => total + passed.flatten.length)
    (fun batch hbatch fuel position passed rest hdrop hsize => ?_) hdrop hsize fuel []
  rw [recoverLoop_frame (hfits batch hbatch) hdrop hsize, List.flatten_append, List.length_append,
    List.flatten_singleton, Nat.add_assoc total]

/-- Recovery stops at bytes that do not start with a good batch. -/
theorem recoverLoop_unreadable (hrest : codec.format.Unreadable rest)
    (hdrop : file.drop position = rest) (hsize : fileSize = position + rest.length)
    (fuel total : ℕ) : recoverLoop codec file fileSize fuel position total = (position, total) := by
  cases fuel with
  | zero => rfl
  | succ fuel =>
    rw [recoverLoop, hdrop]
    split_ifs with hheader
    · have hfails := hrest.resolve_left (by omega)
      rw [readExact, if_pos (by omega)]
      dsimp only at hfails ⊢
      generalize Header.parse (rest.take 12) = header at hfails ⊢
      split_ifs with hmagic hlong
      · rfl
      · rfl
      · rw [readExact, if_pos (by rw [List.length_drop]; omega)]
        dsimp only
        split_ifs with hchecksum
        · rfl
        · -- every other check passed, so the payload does not decode
          have hdecode :=
            ((hfails.resolve_left hmagic).resolve_left (by omega)).resolve_left hchecksum
          cases hresult : codec.deserialize ((rest.drop 12).take header.length) with
          | error message => rfl
          | ok entries =>
            rw [show codec.format.deserialize _ = _ from hresult] at hdecode
            cases hdecode
    · rfl

/-- Opening a file of whole batches with unreadable bytes behind them counts the batches and cuts
the rest. -/
theorem openFile_unreadable (hfits : ∀ batch ∈ batches, codec.format.Fits batch)
    (hrest : codec.format.Unreadable rest) (baseOffset : ℕ) :
    openFile codec (codec.format.frames batches ++ rest) baseOffset =
      (⟨baseOffset, (codec.format.frames batches).length, batches.flatten.length,
        baseOffset + batches.flatten.length⟩, codec.format.frames batches) := by
  set file := codec.format.frames batches ++ rest with hfile
  have hlength : file.length = (codec.format.frames batches).length + rest.length := by
    rw [hfile, List.length_append]
  have hscan : recoverLoop codec file file.length file.length 0 0 =
      ((codec.format.frames batches).length, batches.flatten.length) := by
    have hcount := codec.format.length_le_length_frames batches
    obtain ⟨fuel, hfuel⟩ := Nat.exists_eq_add_of_le (show batches.length ≤ file.length by omega)
    have hdrop : file.drop 0 = codec.format.frames batches ++ rest := hfile
    have hpass :=
      recoverLoop_frames hfits hdrop
        (show 0 + (codec.format.frames batches).length ≤ file.length by omega)
        fuel 0
    rw [Nat.zero_add, Nat.zero_add, ← hfuel] at hpass
    rw [hpass, recoverLoop_unreadable hrest (Format.drop_after hdrop (Nat.zero_add _).symm) hlength]
  by_cases hempty : 0 < file.length
  · rw [openFile, if_pos hempty, recover, hscan]
    dsimp only
    split_ifs with hcut
    · rw [hfile, FileOp.apply_setLen_append rfl]
    · have hnone : rest = [] := List.length_eq_zero_iff.mp (by omega)
      rw [hfile, hnone, List.append_nil]
  · have hcount := codec.format.length_le_length_frames batches
    have hbatches : batches = [] := List.length_eq_zero_iff.mp (by omega)
    have hnone : rest = [] := List.length_eq_zero_iff.mp (by omega)
    rw [openFile, if_neg hempty, hfile, hbatches, hnone]
    rfl

/-- Opening a file of whole batches keeps it and counts its entries. -/
theorem openFile_frames (hfits : ∀ batch ∈ batches, codec.format.Fits batch) (baseOffset : ℕ) :
    openFile codec (codec.format.frames batches) baseOffset =
      (⟨baseOffset, (codec.format.frames batches).length, batches.flatten.length,
        baseOffset + batches.flatten.length⟩, codec.format.frames batches) := by
  have hopen := openFile_unreadable hfits codec.format.unreadable_nil baseOffset
  rwa [List.append_nil] at hopen

end Recover

section Append

/-- A batch is appended as one frame behind the file. -/
theorem applyAll_append (segment : Segment) (hbatch : batch ≠ []) :
    FileOp.applyAll (segment.append codec file batch).2 file =
      file ++ codec.format.frame batch := by
  rw [append, if_neg (by simpa using hbatch), FileOp.applyAll_cons, FileOp.apply_writeAt_end]
  rfl

/-- Appending a batch moves the counters by its size and its number of entries. -/
theorem append_segment (segment : Segment) (hbatch : batch ≠ []) :
    (segment.append codec file batch).1 =
      ⟨segment.baseOffset, segment.size + (codec.format.frame batch).length,
        segment.entryCount + batch.length, segment.nextOffset + batch.length⟩ := by
  rw [append, if_neg (by simpa using hbatch)]
  rfl

end Append

section Built

variable {codec : BatchCodec}

/-- Append a batch to a segment and its file. -/
def appendBatch (codec : BatchCodec) (state : Segment × Bytes) (batch : List LogEntry) :
    Segment × Bytes :=
  let appended := state.1.append codec state.2 batch
  (appended.1, FileOp.applyAll appended.2 state.2)

/-- A segment opened on a new file, and its file, after some batches were appended. -/
def built (codec : BatchCodec) (baseOffset : ℕ) (batches : List (List LogEntry)) :
    Segment × Bytes :=
  batches.foldl (appendBatch codec) (openFile codec [] baseOffset)

/-- The batches that write something. -/
def written (batches : List (List LogEntry)) : List (List LogEntry) :=
  batches.filter fun batch => !batch.isEmpty

@[simp] theorem written_nil_cons (later : List (List LogEntry)) :
    written ([] :: later) = written later := rfl

@[simp] theorem written_cons_cons (first : LogEntry) (rest : List LogEntry)
    (later : List (List LogEntry)) :
    written ((first :: rest) :: later) = (first :: rest) :: written later := rfl

/-- A segment whose file holds the given batches. -/
def holding (codec : BatchCodec) (baseOffset : ℕ) (batches : List (List LogEntry)) :
    Segment × Bytes :=
  (⟨baseOffset, (codec.format.frames batches).length, batches.flatten.length,
      baseOffset + batches.flatten.length⟩,
    codec.format.frames batches)

/-- Appending a batch adds its frame. -/
theorem appendBatch_holding (baseOffset : ℕ) (held : List (List LogEntry)) {batch : List LogEntry}
    (hbatch : batch ≠ []) :
    appendBatch codec (holding codec baseOffset held) batch =
      holding codec baseOffset (held ++ [batch]) := by
  unfold appendBatch
  dsimp only
  rw [append_segment _ hbatch, applyAll_append _ hbatch]
  simp [holding, Nat.add_assoc]

/-- Appending batches adds the frames of those that are not empty. -/
theorem foldl_appendBatch (baseOffset : ℕ) (held batches : List (List LogEntry)) :
    batches.foldl (appendBatch codec) (holding codec baseOffset held) =
      holding codec baseOffset (held ++ written batches) := by
  induction batches generalizing held with
  | nil => rw [written, List.filter_nil, List.append_nil, List.foldl_nil]
  | cons batch later ih =>
    cases batch with
    | nil => exact ih held
    | cons first rest =>
      rw [List.foldl_cons, appendBatch_holding baseOffset held (List.cons_ne_nil first rest), ih,
        written_cons_cons, List.append_assoc, List.singleton_append]

/-- A new segment holds what was written to it. -/
theorem built_eq (codec : BatchCodec) (baseOffset : ℕ) (batches : List (List LogEntry)) :
    built codec baseOffset batches = holding codec baseOffset (written batches) := by
  have hnew : openFile codec [] baseOffset = holding codec baseOffset [] := rfl
  rw [built, hnew, foldl_appendBatch, List.nil_append]

/-- Every batch holds something, so a new segment holds them all. -/
theorem built_of_ne_nil (baseOffset : ℕ) {batches : List (List LogEntry)}
    (h : ∀ batch ∈ batches, batch ≠ []) :
    built codec baseOffset batches = holding codec baseOffset batches := by
  have hwritten : written batches = batches :=
    List.filter_eq_self.mpr fun batch hbatch => by simpa using h batch hbatch
  rw [built_eq, hwritten]

/-- Empty batches have no entries. -/
theorem flatten_written (batches : List (List LogEntry)) :
    (written batches).flatten = batches.flatten := by
  induction batches with
  | nil => rfl
  | cons batch later ih =>
    cases batch with
    | nil => rw [written_nil_cons, ih, List.flatten_cons, List.nil_append]
    | cons first rest => rw [written_cons_cons, List.flatten_cons, List.flatten_cons, ih]

end Built

section Read

variable {startOffset endOffset : ℕ}

/-- The entries of a list in a range of offsets. -/
def inRange (startOffset endOffset : ℕ) (entries : List LogEntry) : List LogEntry :=
  entries.filter fun entry => decide (startOffset ≤ entry.offset) &&
    decide (entry.offset < endOffset)

/-- Ranges are taken part by part. -/
@[simp] theorem inRange_append (left right : List LogEntry) :
    inRange startOffset endOffset (left ++ right) =
      inRange startOffset endOffset left ++ inRange startOffset endOffset right :=
  List.filter_append left right

/-- An empty range has no entries. -/
theorem inRange_eq_nil (h : endOffset ≤ startOffset) (entries : List LogEntry) :
    inRange startOffset endOffset entries = [] := by
  apply List.filter_eq_nil_iff.mpr
  intro entry _ hin
  rw [Bool.and_eq_true, decide_eq_true_eq, decide_eq_true_eq] at hin
  omega

/-- Reading collects the entries of a whole batch and moves behind it. -/
theorem readLoop_frame (hfits : codec.format.Fits batch)
    (hdrop : file.drop position = codec.format.frame batch ++ rest)
    (hsize : position + (codec.format.frame batch).length ≤ fileSize) (fuel : ℕ)
    (result : List LogEntry) :
    readLoop codec file fileSize startOffset endOffset (fuel + 1) position result =
      readLoop codec file fileSize startOffset endOffset fuel
        (position + (codec.format.frame batch).length)
        (result ++ inRange startOffset endOffset batch) := by
  have hdecode : codec.deserialize (codec.serialize batch) = .ok batch := hfits.deserialize_eq
  rw [Format.length_frame, codec.format_serialize, ← Nat.add_assoc] at hsize ⊢
  rw [readLoop, if_pos (by omega), hdrop, Format.readExact_frame]
  simp [hfits.parse_header, readExact_append, hdecode, inRange]

/-- Reading collects the entries of a run of whole batches. -/
theorem readLoop_frames (hfits : ∀ batch ∈ batches, codec.format.Fits batch)
    (hdrop : file.drop position = codec.format.frames batches ++ rest)
    (hsize : position + (codec.format.frames batches).length ≤ fileSize) (fuel : ℕ)
    (result : List LogEntry) :
    readLoop codec file fileSize startOffset endOffset (batches.length + fuel) position result =
      readLoop codec file fileSize startOffset endOffset fuel
        (position + (codec.format.frames batches).length)
        (result ++ inRange startOffset endOffset batches.flatten) := by
  have hscan := codec.format.scan_frames (readLoop codec file fileSize startOffset endOffset)
    (fun passed => result ++ inRange startOffset endOffset passed.flatten)
    (fun batch hbatch fuel position passed rest hdrop hsize => by
      rw [readLoop_frame (hfits batch hbatch) hdrop hsize, List.flatten_append, inRange_append,
        List.flatten_singleton, List.append_assoc]) hdrop hsize fuel []
  rwa [List.flatten_nil, inRange, List.filter_nil, List.append_nil] at hscan

/-- Reading ends where no further header fits. -/
theorem readLoop_end (hend : fileSize < position + 12) (fuel : ℕ) (result : List LogEntry) :
    readLoop codec file fileSize startOffset endOffset fuel position result = .ok result := by
  cases fuel with
  | zero => rfl
  | succ fuel => rw [readLoop, if_neg (by omega)]

/-- Reading up to the end of some whole batches returns their entries in the range, whatever
follows. -/
theorem read_frames_append (hfits : ∀ batch ∈ batches, codec.format.Fits batch) {segment : Segment}
    (hsize : segment.size = (codec.format.frames batches).length) (rest : Bytes) :
    segment.read codec (codec.format.frames batches ++ rest) startOffset endOffset =
      .ok (inRange startOffset endOffset batches.flatten) := by
  have hdrop : (codec.format.frames batches ++ rest).drop 0 = codec.format.frames batches ++ rest :=
    rfl
  obtain ⟨fuel, hsplit⟩ := Nat.exists_eq_add_of_le (codec.format.length_le_length_frames batches)
  have hrun := (readLoop_frames hfits hdrop (Nat.le_of_eq (Nat.zero_add _)) fuel [] :
    readLoop codec _ _ startOffset endOffset _ _ _ = _)
  rw [Nat.zero_add, ← hsplit, List.nil_append] at hrun
  rw [read, hsize, hrun, readLoop_end (by omega)]

/-- Reading a file of whole batches returns their entries in the range. -/
theorem read_frames (hfits : ∀ batch ∈ batches, codec.format.Fits batch) {segment : Segment}
    (hsize : segment.size = (codec.format.frames batches).length) :
    segment.read codec (codec.format.frames batches) startOffset endOffset =
      .ok (inRange startOffset endOffset batches.flatten) := by
  have hread := (read_frames_append hfits hsize [] : segment.read codec _ startOffset endOffset = _)
  rwa [List.append_nil] at hread

end Read

section Truncate

variable {fromOffset : ℕ}

/-- The batch has an entry that a truncation removes. -/
def Touched (fromOffset : ℕ) (batch : List LogEntry) : Prop :=
  ∃ entry ∈ batch, fromOffset ≤ entry.offset

instance (fromOffset : ℕ) (batch : List LogEntry) : Decidable (Touched fromOffset batch) :=
  inferInstanceAs (Decidable (∃ entry ∈ batch, fromOffset ≤ entry.offset))

/-- The entries of a batch that a truncation keeps. -/
def entriesBefore (fromOffset : ℕ) (batch : List LogEntry) : List LogEntry :=
  batch.filter fun entry => decide (entry.offset < fromOffset)

/-- Untouched batches are kept whole. -/
theorem entriesBefore_untouched (h : ∀ batch ∈ batches, ¬ Touched fromOffset batch) :
    entriesBefore fromOffset batches.flatten = batches.flatten := by
  apply List.filter_eq_self.mpr
  intro entry hentry
  obtain ⟨batch, hbatch, hin⟩ := List.mem_flatten.mp hentry
  exact decide_eq_true (Nat.not_le.mp fun hle => h batch hbatch ⟨entry, hin, hle⟩)

/-- What is left of the first touched batch: nothing, or one shorter batch. -/
def leftover (fromOffset : ℕ) (batch : List LogEntry) : List (List LogEntry) :=
  if (entriesBefore fromOffset batch).isEmpty then [] else [entriesBefore fromOffset batch]

/-- The leftover holds exactly the kept entries. -/
@[simp] theorem flatten_leftover (batch : List LogEntry) :
    (leftover fromOffset batch).flatten = entriesBefore fromOffset batch := by
  unfold leftover
  split
  · next hempty => rw [List.isEmpty_iff.mp hempty, List.flatten_nil]
  · simp

/-- Batches are untouched up to a first touched one, if there is one. -/
theorem exists_first_touched (fromOffset : ℕ) (batches : List (List LogEntry)) :
    (∀ batch ∈ batches, ¬ Touched fromOffset batch) ∨
      ∃ kept batch later, batches = kept ++ batch :: later ∧
        (∀ batch ∈ kept, ¬ Touched fromOffset batch) ∧
        Touched fromOffset batch := by
  induction batches with
  | nil => exact .inl fun _ hmem => absurd hmem List.not_mem_nil
  | cons first batches ih =>
    by_cases hfirst : Touched fromOffset first
    · exact .inr ⟨[], first, batches, rfl, fun _ hmem => absurd hmem List.not_mem_nil, hfirst⟩
    · rcases ih with hnone | ⟨kept, batch, later, heq, hkept, hbatch⟩
      · exact .inl (List.forall_mem_cons.mpr ⟨hfirst, hnone⟩)
      · exact .inr ⟨first :: kept, batch, later, by rw [heq, List.cons_append],
          List.forall_mem_cons.mpr ⟨hfirst, hkept⟩, hbatch⟩

/-- The scan passes a batch without a target. -/
theorem truncateLoop_frame (hfits : codec.format.Fits batch) (hbatch : ¬ Touched fromOffset batch)
    (hdrop : file.drop position = codec.format.frame batch ++ rest)
    (hsize : position + (codec.format.frame batch).length ≤ fileSize) (fuel remaining : ℕ) :
    truncateLoop codec file fileSize fromOffset (fuel + 1) position remaining =
      truncateLoop codec file fileSize fromOffset fuel
        (position + (codec.format.frame batch).length)
        (remaining + batch.length) := by
  have hdecode : codec.deserialize (codec.serialize batch) = .ok batch := hfits.deserialize_eq
  have hany : (batch.any fun entry => decide (fromOffset ≤ entry.offset)) = false := by
    simpa [Touched] using hbatch
  rw [Format.length_frame, codec.format_serialize, ← Nat.add_assoc] at hsize ⊢
  rw [truncateLoop, if_pos (by omega), hdrop, Format.readExact_frame]
  simp [hfits.parse_header, readExact_append, hdecode, hany]

/-- The scan passes a run of batches without a target. -/
theorem truncateLoop_frames (hfits : ∀ batch ∈ batches, codec.format.Fits batch)
    (hbatches : ∀ batch ∈ batches, ¬ Touched fromOffset batch)
    (hdrop : file.drop position = codec.format.frames batches ++ rest)
    (hsize : position + (codec.format.frames batches).length ≤ fileSize) (fuel remaining : ℕ) :
    truncateLoop codec file fileSize fromOffset (batches.length + fuel) position remaining =
      truncateLoop codec file fileSize fromOffset fuel
        (position + (codec.format.frames batches).length)
        (remaining + batches.flatten.length) := by
  apply codec.format.scan_frames (truncateLoop codec file fileSize fromOffset)
    (fun passed => remaining + passed.flatten.length)
    (fun batch hbatch fuel position passed rest hdrop hsize => ?_) hdrop hsize fuel []
  rw [truncateLoop_frame (hfits batch hbatch) (hbatches batch hbatch) hdrop hsize,
    List.flatten_append, List.length_append, List.flatten_singleton, Nat.add_assoc remaining]

/-- The changes a truncation makes to a file whose first touched batch comes after `kept`. -/
def truncationOps (codec : BatchCodec) (fromOffset : ℕ) (kept : List (List LogEntry))
    (batch : List LogEntry) : List FileOp :=
  (if (entriesBefore fromOffset batch).isEmpty then []
    else rewriteBatch codec (codec.format.frames kept).length (entriesBefore fromOffset batch)) ++
    [.setLen (codec.format.frames (kept ++ leftover fromOffset batch)).length]

/-- The scan stops at the first touched batch and cuts behind what it keeps of it. -/
theorem truncateLoop_touched (hfits : codec.format.Fits batch) (hbatch : Touched fromOffset batch)
    (hdrop : file.drop position = codec.format.frame batch ++ rest)
    (hsize : position + (codec.format.frame batch).length ≤ fileSize) (fuel remaining : ℕ) :
    truncateLoop codec file fileSize fromOffset (fuel + 1) position remaining =
      .ok (some ⟨position + (codec.format.frames (leftover fromOffset batch)).length,
        remaining + (entriesBefore fromOffset batch).length,
        if (entriesBefore fromOffset batch).isEmpty then []
        else rewriteBatch codec position (entriesBefore fromOffset batch)⟩) := by
  have hdecode : codec.deserialize (codec.serialize batch) = .ok batch := hfits.deserialize_eq
  have hany : (batch.any fun entry => decide (fromOffset ≤ entry.offset)) = true := by
    simpa [Touched] using hbatch
  rw [Format.length_frame, codec.format_serialize] at hsize
  rw [truncateLoop, if_pos (by omega), hdrop, Format.readExact_frame]
  simp only [hfits.parse_header, codec.format_magic, codec.format_checksum,
    codec.format_serialize, ne_eq, not_true_eq_false, if_false, readExact_append, hdecode,
    hany, if_true]
  change (if (entriesBefore fromOffset batch).isEmpty then _ else _) = _
  by_cases hempty : (entriesBefore fromOffset batch).isEmpty
  · rw [if_pos hempty, if_pos hempty, leftover, if_pos hempty, List.isEmpty_iff.mp hempty]
    rfl
  · rw [if_neg hempty, if_neg hempty, leftover, if_neg hempty, Format.frames_cons,
      Format.frames_nil, List.append_nil, Format.length_frame, ← Nat.add_assoc]
    rfl

/-- Without a touched batch nothing is truncated. -/
theorem truncateSuffix_untouched (hfits : ∀ batch ∈ batches, codec.format.Fits batch)
    (hbatches : ∀ batch ∈ batches, ¬ Touched fromOffset batch) {segment : Segment}
    (hsize : segment.size = (codec.format.frames batches).length) :
    segment.truncateSuffix codec (codec.format.frames batches) fromOffset =
      .ok (false, segment, []) := by
  have hdrop : (codec.format.frames batches).drop 0 = codec.format.frames batches ++ [] :=
    (List.append_nil _).symm
  obtain ⟨fuel, hsplit⟩ := Nat.exists_eq_add_of_le (codec.format.length_le_length_frames batches)
  have hrun := truncateLoop_frames hfits hbatches hdrop (Nat.le_of_eq (Nat.zero_add _)) fuel 0
  have hend : truncateLoop codec (codec.format.frames batches)
      (codec.format.frames batches).length fromOffset
      fuel (codec.format.frames batches).length batches.flatten.length = .ok none := by
    cases fuel with
    | zero => rfl
    | succ fuel => rw [truncateLoop, if_neg (by omega)]
  rw [Nat.zero_add, Nat.zero_add, ← hsplit, hend] at hrun
  rw [truncateSuffix, hsize, hrun]

/-- The segment and the file changes of a truncation at the first touched batch. -/
theorem truncateSuffix_touched {kept later : List (List LogEntry)}
    (hfits : ∀ other ∈ kept ++ batch :: later, codec.format.Fits other)
    (hkept : ∀ other ∈ kept, ¬ Touched fromOffset other) (hbatch : Touched fromOffset batch)
    {segment : Segment}
    (hsize : segment.size = (codec.format.frames (kept ++ batch :: later)).length) :
    segment.truncateSuffix codec (codec.format.frames (kept ++ batch :: later)) fromOffset =
      .ok (true,
        ⟨segment.baseOffset, (codec.format.frames (kept ++ leftover fromOffset batch)).length,
          (kept ++ leftover fromOffset batch).flatten.length,
          segment.baseOffset + (kept ++ leftover fromOffset batch).flatten.length⟩,
        truncationOps codec fromOffset kept batch) := by
  have hfile : codec.format.frames (kept ++ batch :: later) =
      codec.format.frames kept ++ (codec.format.frame batch ++ codec.format.frames later) := by
    rw [Format.frames_append, Format.frames_cons]
  have hlength := congrArg List.length hfile
  rw [List.length_append, List.length_append] at hlength
  have hdrop : (codec.format.frames (kept ++ batch :: later)).drop 0 =
      codec.format.frames kept ++ (codec.format.frame batch ++ codec.format.frames later) := hfile
  have hcount := codec.format.length_le_length_frames (kept ++ batch :: later)
  rw [List.length_append, List.length_cons] at hcount
  have hbatchdrop := Format.drop_after hdrop (Nat.zero_add (codec.format.frames kept).length).symm
  obtain ⟨fuel, hfuel⟩ := Nat.exists_eq_add_of_le (show kept.length + 1 ≤
    (codec.format.frames (kept ++ batch :: later)).length by omega)
  have hpass :=
    truncateLoop_frames (fun other hother => hfits other (List.mem_append_left _ hother)) hkept
      hdrop (show 0 + (codec.format.frames kept).length ≤
        (codec.format.frames (kept ++ batch :: later)).length by omega) (fuel + 1) 0
  have hfound :=
    truncateLoop_touched (hfits batch (List.mem_append_right _ List.mem_cons_self)) hbatch
      hbatchdrop (show (codec.format.frames kept).length + (codec.format.frame batch).length ≤
        (codec.format.frames (kept ++ batch :: later)).length by omega) fuel kept.flatten.length
  rw [Nat.zero_add, Nat.zero_add, hfound,
    show kept.length + (fuel + 1) = kept.length + 1 + fuel by omega, ← hfuel] at hpass
  rw [truncateSuffix, hsize, hpass, truncationOps]
  simp only [Format.frames_append, List.length_append, List.flatten_append, flatten_leftover]

/-- Rewriting a batch replaces the first bytes of what stood there by the new frame. -/
theorem applyAll_rewriteBatch (first rest : Bytes) (entries : List LogEntry) :
    FileOp.applyAll (rewriteBatch codec first.length entries) (first ++ rest) =
      first ++ codec.format.frame entries ++ rest.drop (codec.format.frame entries).length := by
  have hmagic : batchMagic.length = 4 := rfl
  have hframe : codec.format.frame entries =
      batchMagic ++ toLeBytes (codec.crc32c (codec.serialize entries)) ++
      toLeBytes (UInt32.ofNat (codec.serialize entries).length) ++ codec.serialize entries := rfl
  rw [rewriteBatch]
  simp only [FileOp.applyAll_cons, FileOp.applyAll_nil]
  rw [FileOp.apply_writeAt_append rfl, FileOp.apply_writeAt_append (by simp [hmagic]),
    FileOp.apply_writeAt_append (by simp [hmagic]), FileOp.apply_writeAt_append (by simp [hmagic]),
    hframe]
  simp only [List.append_assoc, List.drop_drop, List.length_append, Nat.add_assoc]

/-- A truncation leaves the kept batches and the leftover of the first touched one. -/
theorem applyAll_truncationOps (kept later : List (List LogEntry)) (batch : List LogEntry) :
    FileOp.applyAll (truncationOps codec fromOffset kept batch)
      (codec.format.frames (kept ++ batch :: later)) =
      codec.format.frames (kept ++ leftover fromOffset batch) := by
  unfold truncationOps leftover
  split
  · rw [List.nil_append, FileOp.applyAll_cons, List.append_nil, Format.frames_append]
    exact FileOp.apply_setLen_append rfl _
  · rw [FileOp.applyAll, List.foldl_append]
    change FileOp.applyAll [_] (FileOp.applyAll _ _) = _
    rw [Format.frames_append codec.format kept (batch :: later), applyAll_rewriteBatch,
      FileOp.applyAll_cons, FileOp.applyAll_nil, Format.frames_append, Format.frames_cons,
      Format.frames_nil, List.append_nil]
    exact FileOp.apply_setLen_append rfl _

end Truncate

end Segment

end XRaft
