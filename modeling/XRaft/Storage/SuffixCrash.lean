import XRaft.Storage.Layout
import XRaft.Storage.Refinement

/-!
# Crashes during suffix truncation

`Segment::truncate_suffix` rewrites a batch that straddles the offset in place, with four
writes, before it cuts the file. The new checksum is on disk before the new payload, so a
crash in between leaves a batch that fails its check, and recovery cuts it off together
with the entries that were to be kept.
-/

namespace XRaft

open Lib

namespace Segment

variable {codec : BatchCodec} {fromOffset base : ℕ} {batches : List (List LogEntry)}

/-- Every batch from the first touched one on has only entries that the truncation removes. -/
def CutsCleanly (fromOffset : ℕ) : List (List LogEntry) → Prop
  | [] => True
  | batch :: later =>
    if Touched fromOffset batch then ∀ other ∈ batch :: later, ∀ entry ∈ other,
      fromOffset ≤ entry.offset
    else CutsCleanly fromOffset later

/-- Reopening the file finds every entry below the offset that the batches had, in order. -/
def KeepsBefore (codec : BatchCodec) (base fromOffset : ℕ) (batches : List (List LogEntry))
    (file : Bytes) : Prop :=
  ∃ entries, (openFile codec file base).1.readAll codec (openFile codec file base).2 = .ok entries ∧
    (entriesBefore fromOffset batches.flatten).Sublist entries

/-- Empty batches do not matter for how a truncation cuts. -/
theorem cutsCleanly_written (fromOffset : ℕ) (batches : List (List LogEntry)) :
    CutsCleanly fromOffset (written batches) ↔ CutsCleanly fromOffset batches := by
  induction batches with
  | nil => exact Iff.rfl
  | cons batch later ih =>
    cases batch with
    | nil =>
      rw [written_nil_cons, ih, CutsCleanly, if_neg]
      rintro ⟨entry, hentry, -⟩
      cases hentry
    | cons first rest =>
      rw [written_cons_cons, CutsCleanly, CutsCleanly, ih]
      split
      · constructor
        · intro hall other hother entry hentry
          refine hall other ?_ entry hentry
          rcases List.mem_cons.mp hother with heq | hlater
          · exact heq ▸ List.mem_cons_self
          · refine List.mem_cons_of_mem _ (List.mem_filter.mpr ⟨hlater, ?_⟩)
            simp [List.ne_nil_of_mem hentry]
        · intro hall other hother
          apply hall other
          rcases List.mem_cons.mp hother with heq | hlater
          · exact heq ▸ List.mem_cons_self
          · exact List.mem_cons_of_mem _ (List.mem_of_mem_filter hlater)
      · exact Iff.rfl

/-- A batch whose stored checksum is wrong is not readable. -/
theorem unreadable_badChecksum {batch : List LogEntry} (hfits : codec.format.Fits batch)
    {checksum : UInt32} (hbad : codec.crc32c (codec.serialize batch) ≠ checksum) (rest : Bytes) :
    codec.format.Unreadable (batchMagic ++ (toLeBytes checksum ++
      (toLeBytes (UInt32.ofNat (codec.serialize batch).length) ++
        (codec.serialize batch ++ rest)))) := by
  have hlength : (UInt32.ofNat (codec.serialize batch).length).toNat =
      (codec.serialize batch).length := by
    rw [UInt32.toNat_ofNat']
    exact Nat.mod_eq_of_lt hfits.2
  set header :=
    batchMagic ++ (toLeBytes checksum ++ toLeBytes (UInt32.ofNat (codec.serialize batch).length))
      with hheader
  have htwelve : 12 = header.length := rfl
  have hparse : Header.parse header = ⟨batchMagic, checksum, (codec.serialize batch).length⟩ := by
    rw [← hlength, hheader]
    simp [Header.parse, batchMagic, List.take_append, List.drop_append]
  have hbytes : batchMagic ++ (toLeBytes checksum ++
      (toLeBytes (UInt32.ofNat (codec.serialize batch).length) ++
        (codec.serialize batch ++ rest))) =
      header ++ (codec.serialize batch ++ rest) := by
    simp only [hheader, List.append_assoc]
  refine .inr (.inr (.inr (.inl ?_)))
  rw [hbytes, htwelve, List.take_left, List.drop_left, hparse, List.take_left]
  exact hbad

/-- A file of whole batches keeps the entries below the offset if its batches have them. -/
theorem keepsBefore_frames {others : List (List LogEntry)}
    (hfits : ∀ batch ∈ others, codec.format.Fits batch) (hfrom : fromOffset ≤ 2 ^ 64 - 1)
    (hentries : (entriesBefore fromOffset batches.flatten).Sublist others.flatten) :
    KeepsBefore codec base fromOffset batches (codec.format.frames others) := by
  rw [KeepsBefore, openFile_frames hfits]
  refine ⟨_, read_frames hfits rfl, ?_⟩
  have hall : inRange 0 (2 ^ 64 - 1) (entriesBefore fromOffset batches.flatten) =
      entriesBefore fromOffset batches.flatten := by
    apply List.filter_eq_self.mpr
    intro entry hentry
    have hlt := of_decide_eq_true (List.mem_filter.mp hentry).2
    rw [Bool.and_eq_true, decide_eq_true_eq, decide_eq_true_eq]
    omega
  rw [← hall]
  exact hentries.filter _

/-- A file that is reopened as some untouched batches keeps the entries below the offset only if
there are no others. -/
theorem entriesBefore_of_keepsBefore {kept rest : List (List LogEntry)}
    (hfits : ∀ batch ∈ kept, codec.format.Fits batch)
    (huntouched : ∀ batch ∈ kept, ¬ Touched fromOffset batch) {file : Bytes}
    (hopen : openFile codec file base =
      (⟨base, (codec.format.frames kept).length, kept.flatten.length, base + kept.flatten.length⟩,
        codec.format.frames kept))
    (h : KeepsBefore codec base fromOffset (kept ++ rest) file) :
    entriesBefore fromOffset rest.flatten = [] := by
  rw [KeepsBefore, hopen] at h
  obtain ⟨entries, hread, hsub⟩ := h
  have hentries : inRange 0 (2 ^ 64 - 1) kept.flatten = entries :=
    Except.ok.inj ((read_frames hfits rfl).symm.trans hread)
  have hshort : entries.length ≤ kept.flatten.length := by
    rw [← hentries]
    exact List.length_filter_le _ _
  have hfirst := entriesBefore_untouched huntouched
  have hlong := hsub.length_le
  rw [List.flatten_append, entriesBefore, List.filter_append] at hlong
  change (entriesBefore fromOffset kept.flatten ++ entriesBefore fromOffset rest.flatten).length ≤
    _ at hlong
  rw [hfirst, List.length_append] at hlong
  exact List.length_eq_zero_iff.mp (by omega)

/-- A file with a batch that fails its checksum is cut before that batch. -/
theorem not_keepsBefore_badChecksum {kept later : List (List LogEntry)} {batch : List LogEntry}
    (hkept : ∀ other ∈ kept, codec.format.Fits other)
    (huntouched : ∀ other ∈ kept, ¬ Touched fromOffset other) (hbatch : codec.format.Fits batch)
    (hbefore : entriesBefore fromOffset batch ≠ []) {checksum : UInt32}
    (hbad : codec.crc32c (codec.serialize batch) ≠ checksum) (rest : Bytes) :
    ¬ KeepsBefore codec base fromOffset (kept ++ batch :: later) (codec.format.frames kept ++
      (batchMagic ++ (toLeBytes checksum ++
        (toLeBytes (UInt32.ofNat (codec.serialize batch).length) ++
          (codec.serialize batch ++ rest))))) := by
  have hopen := openFile_unreadable hkept (unreadable_badChecksum hbatch hbad rest) base
  intro hkeeps
  have hnone := entriesBefore_of_keepsBefore hkept huntouched hopen hkeeps
  rw [List.flatten_cons, entriesBefore, List.filter_append, List.append_eq_nil_iff] at hnone
  exact hbefore hnone.1

/-- Untouched batches are cut cleanly, there being nothing to cut. -/
theorem cutsCleanly_of_untouched (h : ∀ batch ∈ batches, ¬ Touched fromOffset batch) :
    CutsCleanly fromOffset batches := by
  induction batches with
  | nil => trivial
  | cons batch later ih =>
    obtain ⟨hbatch, hlater⟩ := List.forall_mem_cons.mp h
    rw [CutsCleanly, if_neg hbatch]
    exact ih hlater

/-- Only the batches from the first touched one on decide how a truncation cuts. -/
theorem cutsCleanly_append {kept later : List (List LogEntry)} {batch : List LogEntry}
    (hkept : ∀ other ∈ kept, ¬ Touched fromOffset other) (hbatch : Touched fromOffset batch) :
    CutsCleanly fromOffset (kept ++ batch :: later) ↔
      ∀ other ∈ batch :: later, ∀ entry ∈ other, fromOffset ≤ entry.offset := by
  induction kept with
  | nil => rw [List.nil_append, CutsCleanly, if_pos hbatch]
  | cons first kept ih =>
    obtain ⟨hfirst, hrest⟩ := List.forall_mem_cons.mp hkept
    rw [List.cons_append, CutsCleanly, if_neg hfirst, ih hrest]

/-- No entries are kept exactly if all are at or after the offset. -/
theorem entriesBefore_eq_nil {entries : List LogEntry} :
    entriesBefore fromOffset entries = [] ↔ ∀ entry ∈ entries, fromOffset ≤ entry.offset := by
  rw [entriesBefore, List.filter_eq_nil_iff]
  simp

/-- A crash once the new checksum is written, before the rest of the batch is. -/
theorem torn_checksum {kept later : List (List LogEntry)} {batch : List LogEntry}
    (hbefore : entriesBefore fromOffset batch ≠ []) :
    Torn (truncationOps codec fromOffset kept batch) (codec.format.frames (kept ++ batch :: later))
      (codec.format.frames kept ++ (batchMagic ++
        (toLeBytes (codec.crc32c (codec.serialize (entriesBefore fromOffset batch))) ++
          (toLeBytes (UInt32.ofNat (codec.serialize batch).length) ++
            (codec.serialize batch ++ codec.format.frames later))))) := by
  have hmagic : batchMagic.length = 4 := rfl
  have hfile : codec.format.frames (kept ++ batch :: later) =
      codec.format.frames kept ++
      (batchMagic ++ (toLeBytes (codec.crc32c (codec.serialize batch)) ++
        (toLeBytes (UInt32.ofNat (codec.serialize batch).length) ++
          (codec.serialize batch ++ codec.format.frames later)))) := by
    rw [Format.frames_append, Format.frames_cons, Format.frame, Format.header]
    simp only [List.append_assoc]
    rfl
  rw [truncationOps, if_neg (by simpa using hbefore), rewriteBatch, hfile]
  apply Torn.next
  apply Torn.next
  -- the magic bytes are overwritten by themselves, the checksum by the new one
  rw [FileOp.apply_writeAt_append rfl, List.drop_left,
    FileOp.apply_writeAt_append (by rw [List.length_append, hmagic]), length_toLeBytes,
    ← length_toLeBytes (codec.crc32c (codec.serialize batch)), List.drop_left]
  simp only [List.append_assoc]
  exact Torn.stopped _ _

/-- For batches on disk, a truncation is crash safe exactly when it cuts cleanly. -/
theorem keepsBefore_torn_iff {kept later : List (List LogEntry)} {batch : List LogEntry}
    (hfits : ∀ other ∈ kept ++ batch :: later, codec.format.Fits other)
    (hfrom : fromOffset ≤ 2 ^ 64 - 1) (hkept : ∀ other ∈ kept, ¬ Touched fromOffset other)
    (hcrc : entriesBefore fromOffset batch ≠ [] →
      codec.crc32c (codec.serialize batch) ≠
        codec.crc32c (codec.serialize (entriesBefore fromOffset batch))) :
    (∀ left,
        Torn (truncationOps codec fromOffset kept batch)
          (codec.format.frames (kept ++ batch :: later)) left →
        KeepsBefore codec base fromOffset (kept ++ batch :: later) left) ↔
      ∀ other ∈ batch :: later, ∀ entry ∈ other, fromOffset ≤ entry.offset := by
  have hkeptfits : ∀ other ∈ kept, codec.format.Fits other := fun other hother =>
    hfits other (List.mem_append_left _ hother)
  have hbefore : entriesBefore fromOffset (kept ++ batch :: later).flatten =
      entriesBefore fromOffset kept.flatten ++
        (entriesBefore fromOffset batch ++ entriesBefore fromOffset later.flatten) := by
    rw [List.flatten_append, List.flatten_cons, entriesBefore, List.filter_append,
      List.filter_append]
    rfl
  have hclean : (∀ other ∈ batch :: later, ∀ entry ∈ other, fromOffset ≤ entry.offset) ↔
      entriesBefore fromOffset batch = [] ∧ entriesBefore fromOffset later.flatten = [] := by
    rw [List.forall_mem_cons, entriesBefore_eq_nil, entriesBefore_eq_nil]
    simp only [List.mem_flatten, forall_exists_index, and_imp]
    exact and_congr_right fun _ => ⟨fun h entry other hother hentry => h other hother entry hentry,
      fun h other hother entry hentry => h entry other hother hentry⟩
  rw [hclean]
  constructor
  · intro hall
    have hnone : entriesBefore fromOffset batch = [] := by
      by_contra hsome
      exact not_keepsBefore_badChecksum hkeptfits hkept
        (hfits batch (List.mem_append_right _ List.mem_cons_self)) hsome (hcrc hsome)
        _ (hall _ (torn_checksum hsome))
    refine ⟨hnone, ?_⟩
    -- without a crash the file ends up as the kept batches
    have hfinal := hall _ (torn_applyAll _ _)
    rw [applyAll_truncationOps, leftover, if_pos (List.isEmpty_iff.mpr hnone),
      List.append_nil] at hfinal
    have hrest :=
      entriesBefore_of_keepsBefore hkeptfits hkept (openFile_frames hkeptfits base) hfinal
    rw [List.flatten_cons, entriesBefore, List.filter_append, List.append_eq_nil_iff] at hrest
    exact hrest.2
  · rintro ⟨hnone, hlater⟩ left htorn
    rw [truncationOps, if_pos (List.isEmpty_iff.mpr hnone), leftover,
      if_pos (List.isEmpty_iff.mpr hnone), List.append_nil, List.nil_append] at htorn
    cases htorn with
    | stopped => exact keepsBefore_frames hfits hfrom List.filter_sublist
    | next hdone =>
      cases hdone
      rw [Format.frames_append, FileOp.apply_setLen_append rfl]
      refine keepsBefore_frames hkeptfits hfrom ?_
      rw [hbefore, hnone, hlater, List.append_nil]
      exact (List.append_nil _).symm ▸ List.filter_sublist

/-- For every list of appended batches the truncation goes through without a crash, and every crash
leaves the entries below the offset, exactly when the truncation cuts cleanly. -/
theorem truncateSuffix_keepsBefore_iff (codec : BatchCodec) (base : ℕ)
    {batches : List (List LogEntry)} {fromOffset : ℕ} (hfrom : fromOffset ≤ 2 ^ 64 - 1)
    (hfits : ∀ batch ∈ batches, codec.format.Fits batch)
    (hcrc : ∀ batch ∈ batches, Touched fromOffset batch → entriesBefore fromOffset batch ≠ [] →
      codec.crc32c (codec.serialize batch) ≠
        codec.crc32c (codec.serialize (entriesBefore fromOffset batch))) :
    ∃ found after ops,
    (built codec base batches).1.truncateSuffix codec (built codec base batches).2
        fromOffset = .ok (found, after, ops) ∧
      ((∀ left, Torn ops (built codec base batches).2 left →
        KeepsBefore codec base fromOffset batches left) ↔
        CutsCleanly fromOffset batches) := by
  have hkeeps : ∀ left, KeepsBefore codec base fromOffset batches left ↔
      KeepsBefore codec base fromOffset (written batches) left := by
    intro left
    rw [KeepsBefore, KeepsBefore, flatten_written]
  have hwritten : ∀ batch ∈ written batches, codec.format.Fits batch :=
    fun batch hbatch => hfits batch (List.mem_of_mem_filter hbatch)
  rw [built_eq, ← cutsCleanly_written]
  simp only [hkeeps]
  rcases exists_first_touched fromOffset (written batches) with
    hnone | ⟨kept, batch, later, heq, hkept, hbatch⟩
  · refine ⟨_, _, _, truncateSuffix_untouched hwritten hnone rfl, ?_⟩
    refine iff_of_true ?_ (cutsCleanly_of_untouched hnone)
    intro left htorn
    cases htorn
    exact keepsBefore_frames hwritten hfrom List.filter_sublist
  · have hmem : batch ∈ batches := by
      have hin : batch ∈ kept ++ batch :: later := List.mem_append_right _ List.mem_cons_self
      exact List.mem_of_mem_filter (heq ▸ hin)
    rw [heq] at hwritten ⊢
    refine ⟨_, _, _, truncateSuffix_touched hwritten hkept hbatch rfl, ?_⟩
    rw [cutsCleanly_append hkept hbatch]
    exact keepsBefore_torn_iff hwritten hfrom hkept (hcrc batch hmem hbatch)

/-- One batch with offsets zero and one. -/
def twoEntries : List (List LogEntry) := [[Store.sampleEntry 0 1, Store.sampleEntry 1 1]]

/-- The changes a truncation to offset one makes to the batch. -/
def twoEntriesOps : List FileOp :=
  truncationOps bincodeCrc32c 1 [] [Store.sampleEntry 0 1, Store.sampleEntry 1 1]

/-- A crash after two of the four writes loses the entry at offset zero: the segment is reopened
without entries. -/
theorem not_truncateSuffix_keepsBefore :
    ((built bincodeCrc32c 0 twoEntries).1.truncateSuffix bincodeCrc32c
        (built bincodeCrc32c 0 twoEntries).2 1).toOption.map (fun result => result.2.2) =
        some twoEntriesOps ∧
      ∃ left, Torn twoEntriesOps (built bincodeCrc32c 0 twoEntries).2 left ∧
        ((openFile bincodeCrc32c left 0).1.readAll bincodeCrc32c
          (openFile bincodeCrc32c left 0).2).toOption =
          some [] ∧
        ¬ KeepsBefore bincodeCrc32c 0 1 twoEntries left := by
  have hread : ((openFile bincodeCrc32c
      (FileOp.applyAll (twoEntriesOps.take 2) (built bincodeCrc32c 0 twoEntries).2) 0).1.readAll
      bincodeCrc32c (openFile bincodeCrc32c
        (FileOp.applyAll (twoEntriesOps.take 2) (built bincodeCrc32c 0 twoEntries).2)
        0).2).toOption =
      some [] := by
    decide +kernel
  refine ⟨by decide +kernel, _, torn_applyAll_take twoEntriesOps 2 _, hread, ?_⟩
  rintro ⟨entries, hentries, hsub⟩
  rw [hentries] at hread
  rw [Option.some.inj hread] at hsub
  exact absurd (List.sublist_nil.mp hsub) (by decide)

/-- The batch fits and its two payloads differ in their checksums. -/
theorem truncateSuffix_keepsBefore_iff_twoEntries :
    ∃ found after ops, (built bincodeCrc32c 0 twoEntries).1.truncateSuffix bincodeCrc32c
        (built bincodeCrc32c 0 twoEntries).2 1 = .ok (found, after, ops) ∧
      ((∀ left, Torn ops (built bincodeCrc32c 0 twoEntries).2 left →
          KeepsBefore bincodeCrc32c 0 1 twoEntries left) ↔ CutsCleanly 1 twoEntries) :=
  truncateSuffix_keepsBefore_iff bincodeCrc32c 0 (by decide) (by decide +kernel) (by decide +kernel)

end Segment

end XRaft
