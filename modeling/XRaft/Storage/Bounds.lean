import XRaft.Lib.Runs
import XRaft.Storage.Refinement

/-!
# The bounds of a log under any truncation

`truncate_prefix` and `truncate_suffix` take any offset and never compare it with the other
bound. A log whose truncations stay within its bounds keeps the start below the end, never
moves the start back, can be appended to, and has the same bounds after a restart. A single
truncation outside the bounds breaks this at once: past the end or below the start the
prefix truncation moves the start there, and below the start the suffix truncation moves
the end there.

`append` moves the end by the number of entries and compares only the first offset with it.
A batch with a gap behind its first entry is accepted, and the bounds no longer count the
entries between them.
-/

namespace XRaft

open Lib

namespace Store

variable {codec : BatchCodec} {store : Store} {log : AbstractLog} {base : ℕ} {pieces : List Piece}

/-- The log after an operation. No operation fails on a log whose bounds were kept. -/
def attempt (codec : BatchCodec) (store : Store) (op : LogOp) : Store :=
  match store.step codec op with
  | .ok after => after
  | .error _ => store

/-- Batches continue the log and fit their frames. Truncations are not restricted. -/
def AppendsFit (codec : BatchCodec) (store : Store) : LogOp → Prop
  | .append entries =>
    Consecutive LogEntry.offset store.log.logEndOffset entries ∧ ∀ part ∈ entries.inits,
      codec.format.Fits part
  | .truncateSuffix _ => True
  | .truncatePrefix _ => True
  | .reopen segmentSizeLimit => 1 ≤ segmentSizeLimit

instance (codec : BatchCodec) (store : Store) : (op : LogOp) → Decidable (AppendsFit codec store op)
  | .append _ => inferInstanceAs (Decidable (_ ∧ _))
  | .truncateSuffix _ => isTrue trivial
  | .truncatePrefix _ => isTrue trivial
  | .reopen _ => inferInstanceAs (Decidable (_ ≤ _))

/-- Truncations stay within the bounds of the log. -/
def WithinBounds (store : Store) : LogOp → Prop
  | .truncateSuffix fromOffset => store.log.logStartOffset ≤ fromOffset
  | .truncatePrefix upToOffset =>
    store.log.logStartOffset ≤ upToOffset ∧ upToOffset ≤ store.log.logEndOffset
  | _ => True

instance (store : Store) : (op : LogOp) → Decidable (WithinBounds store op)
  | .append _ => isTrue trivial
  | .truncateSuffix _ => inferInstanceAs (Decidable (_ ≤ _))
  | .truncatePrefix _ => inferInstanceAs (Decidable (_ ∧ _))
  | .reopen _ => isTrue trivial

/-- The bounds are in order, the log continues at its end, and a restart finds the same bounds. -/
structure SoundBounds (codec : BatchCodec) (store : Store) : Prop where
  ordered : store.log.logStartOffset ≤ store.log.logEndOffset
  continues : ∀ batch, Consecutive LogEntry.offset store.log.logEndOffset batch →
    (∀ part ∈ batch.inits, codec.format.Fits part) →
    ∃ after, store.step codec (.append batch) = .ok after ∧
      after.read codec store.log.logEndOffset (store.log.logEndOffset + batch.length) = .ok batch
  reopens : ∀ limit, 1 ≤ limit →
    (openOn codec store.directory limit).log.logStartOffset = store.log.logStartOffset ∧
      (openOn codec store.directory limit).log.logEndOffset = store.log.logEndOffset

/-- An operation leaves sound bounds and does not move the start back. -/
def KeepsBounds (codec : BatchCodec) (store : Store) (op : LogOp) : Prop :=
  store.log.logStartOffset ≤ (store.attempt codec op).log.logStartOffset ∧
    SoundBounds codec (store.attempt codec op)

/-- A batch appended to a laid out log is what the log reads back behind its old end. -/
theorem LaidOut.read_appended (h : store.LaidOut codec log base pieces) {batch : List LogEntry}
    (hvalid : (LogOp.append batch).Valid codec log) :
    ∃ after, store.step codec (.append batch) = .ok after ∧
      after.read codec log.endOffset (log.endOffset + batch.length) = .ok batch := by
  obtain ⟨after, pieces', hstep, hafter⟩ := h.append hvalid
  refine ⟨after, hstep, ?_⟩
  have hconsecutive : Consecutive LogEntry.offset log.start (log.entries ++ batch) :=
    hafter.consecutive
  have hend : log.endOffset = log.start + log.entries.length := rfl
  rw [hafter.read_eq]
  change Except.ok (Segment.inRange (max log.endOffset log.start) _ (log.entries ++ batch)) = _
  rw [Segment.inRange, hconsecutive.filter_range_end (by rw [List.length_append]; omega),
    show max log.endOffset log.start - log.start = log.entries.length by omega, List.drop_left]

/-- A laid out log has sound bounds. -/
theorem LaidOut.soundBounds (h : store.LaidOut codec log base pieces) :
    SoundBounds codec store := by
  have hstart : store.log.logStartOffset = log.start := h.startAtomic
  have hend : store.log.logEndOffset = log.endOffset := h.endAtomic
  refine ⟨?_, ?_, ?_⟩
  · rw [hstart, hend]
    exact Nat.le_add_right _ _
  · intro batch hbatch hfits
    rw [hend] at hbatch ⊢
    exact h.read_appended ⟨hbatch, hfits⟩
  · intro limit hlimit
    have hreopened := h.reopen hlimit
    exact ⟨hreopened.startAtomic.trans hstart.symm, hreopened.endAtomic.trans hend.symm⟩

/-- A suffix truncation below the end succeeds, wherever the start is, and moves the end. -/
theorem LaidOut.truncateSuffix_moves_end (h : store.LaidOut codec log base pieces) {fromOffset : ℕ}
    (hend : fromOffset < log.endOffset) :
    ∃ after, store.step codec (.truncateSuffix fromOffset) = .ok after ∧
      after.log.logStartOffset = log.start ∧ after.log.logEndOffset = fromOffset := by
  obtain ⟨kept, dropped, hpopped⟩ :=
    h.holds.popTrailing fun segment => decide (fromOffset ≤ segment.baseOffset)
  rcases List.eq_nil_or_concat kept with rfl | ⟨init, last, rfl⟩
  · -- without segments only the bound moves
    have hstep : store.step codec (.truncateSuffix fromOffset) = .ok
        ⟨{ store.log with
            segments := []
            innerEndOffset := fromOffset
            endOffsetAtomic := fromOffset },
          (SegmentLog.popTrailing (fun segment => decide (fromOffset ≤ segment.baseOffset))
            (pieces.map (Piece.segment codec)) store.directory).2⟩ := by
      rw [Store.step, SegmentLog.truncateSuffix, h.innerEnd, if_neg (Nat.not_le.mpr hend),
        h.segments]
      simp only [hpopped.segments, List.map_nil, List.getLast?_nil]
      rfl
    exact ⟨_, hstep, h.startAtomic, rfl⟩
  · rw [List.concat_eq_append] at hpopped
    have hlast : last ∈ pieces :=
      hpopped.split ▸ List.mem_append_left _ (List.mem_append_right init List.mem_cons_self)
    obtain ⟨cut, found, ops, -, -, -, hcut, -⟩ :=
      truncate_piece (h.fits last hlast) (h.chain.entries last hlast) fromOffset
    exact ⟨_, h.truncateSuffix_eq hend hpopped hcut, h.startAtomic, rfl⟩

/-- An operation that respects the bounds is one the users of a log may call. -/
theorem LaidOut.valid_of_withinBounds (h : store.LaidOut codec log base pieces) {op : LogOp}
    (hfits : store.AppendsFit codec op) (hwithin : store.WithinBounds op) : op.Valid codec log := by
  have hstart : store.log.logStartOffset = log.start := h.startAtomic
  have hend : store.log.logEndOffset = log.endOffset := h.endAtomic
  cases op with
  | append entries =>
    rw [AppendsFit, hend] at hfits
    exact hfits
  | truncateSuffix fromOffset =>
    rw [WithinBounds, hstart] at hwithin
    exact hwithin
  | truncatePrefix upToOffset =>
    rw [WithinBounds, hstart, hend] at hwithin
    exact hwithin
  | reopen limit => exact hfits

/-- An operation that respects the bounds leaves a laid out log. -/
theorem LaidOut.attempt (h : store.LaidOut codec log base pieces) {op : LogOp}
    (hvalid : op.Valid codec log) :
    ∃ base' pieces', (store.attempt codec op).LaidOut codec (log.step op) base' pieces' := by
  obtain ⟨after, base', pieces', hstep, hafter⟩ := h.step hvalid
  refine ⟨base', pieces', ?_⟩
  rw [Store.attempt, hstep]
  exact hafter

/-- No valid operation moves the start of the abstract log back. -/
theorem start_le_step {op : LogOp} (hvalid : op.Valid codec log) :
    log.start ≤ (log.step op).start := by
  cases op with
  | truncatePrefix upToOffset => exact hvalid.1
  | append entries => exact Nat.le_refl _
  | truncateSuffix fromOffset => exact Nat.le_refl _
  | reopen limit => exact Nat.le_refl _

/-- On a laid out log, an operation keeps the bounds sound exactly if it respects them. -/
theorem LaidOut.keepsBounds_iff (h : store.LaidOut codec log base pieces) {op : LogOp}
    (hfits : store.AppendsFit codec op) : store.KeepsBounds codec op ↔ store.WithinBounds op := by
  have hstart : store.log.logStartOffset = log.start := h.startAtomic
  constructor
  · rintro ⟨hforward, hsound⟩
    have hordered := hsound.ordered
    cases op with
    | append entries => trivial
    | truncateSuffix fromOffset =>
      -- below the start it is below the end as well, and moves the end there
      by_contra hbelow
      have hlt : fromOffset < log.start := by
        rw [WithinBounds, hstart] at hbelow
        exact Nat.not_le.mp hbelow
      have hsmall : fromOffset < log.endOffset := Nat.lt_of_lt_of_le hlt (Nat.le_add_right _ _)
      obtain ⟨after, hstep, hafterStart, hafterEnd⟩ := h.truncateSuffix_moves_end hsmall
      rw [Store.attempt, hstep] at hordered
      change after.log.logStartOffset ≤ after.log.logEndOffset at hordered
      omega
    | truncatePrefix upToOffset => exact ⟨hforward, hordered⟩
    | reopen limit => trivial
  · intro hwithin
    have hvalid := h.valid_of_withinBounds hfits hwithin
    obtain ⟨base', pieces', hafter⟩ := h.attempt hvalid
    have hafterStart : (store.attempt codec op).log.logStartOffset = (log.step op).start :=
      hafter.startAtomic
    refine ⟨?_, hafter.soundBounds⟩
    rw [hstart, hafterStart]
    exact start_le_step hvalid

/-- From a fresh log, with valid appends, restarts and any truncations: the bounds are sound at
every point of the run, and the start never moves back, exactly if every truncation stays within
the bounds it finds. -/
theorem bounds_sound_iff (codec : BatchCodec) {limit : ℕ} (hlimit : 1 ≤ limit) {ops : List LogOp}
    (hfits : Along (attempt codec) (AppendsFit codec) (fresh codec limit) ops) :
    SoundBounds codec (fresh codec limit) ∧
      Along (attempt codec) (KeepsBounds codec) (fresh codec limit) ops ↔
      Along (attempt codec) WithinBounds (fresh codec limit) ops := by
  have hfresh := LaidOut.fresh codec hlimit
  rw [and_iff_right hfresh.soundBounds]
  refine along_iff (attempt codec) (fun store => ∃ log base pieces,
    store.LaidOut codec log base pieces) ?_ ?_
    ⟨_, _, _, hfresh⟩ hfits
  · rintro store op ⟨log, base, pieces, h⟩ hop
    exact h.keepsBounds_iff hop
  · rintro store op ⟨log, base, pieces, h⟩ hop hwithin
    obtain ⟨base', pieces', hafter⟩ := h.attempt (h.valid_of_withinBounds hop hwithin)
    exact ⟨log.step op, base', pieces', hafter⟩

/-- Truncations up to both bounds, with rollover and a restart. -/
def boundedOps : List LogOp :=
  [.append [sampleEntry 0 1, sampleEntry 1 1], .append [sampleEntry 2 1, sampleEntry 3 1],
    .truncatePrefix 4, .append [sampleEntry 4 1, sampleEntry 5 1], .truncateSuffix 4,
    .truncateSuffix 9, .reopen 500]

/-- The bounds stay sound when truncations reach but do not pass them. -/
theorem bounds_sound_boundedOps :
    Along (attempt bincodeCrc32c) (KeepsBounds bincodeCrc32c) (fresh bincodeCrc32c 64)
      boundedOps := by
  have hfits : Along (attempt bincodeCrc32c) (AppendsFit bincodeCrc32c) (fresh bincodeCrc32c 64)
      boundedOps := by
    decide +kernel
  have hwithin : Along (attempt bincodeCrc32c) WithinBounds (fresh bincodeCrc32c 64)
      boundedOps := by
    decide +kernel
  exact ((bounds_sound_iff bincodeCrc32c (by decide) hfits).mpr hwithin).2

/-- A prefix truncation past the end, as for a snapshot newer than the log, puts the start behind
the end: the next batch is accepted but not read back, and a restart finds another end. One below
the start moves the start back, and a suffix truncation below the start puts the end in front of
the start. -/
theorem bounds_unsound :
    let filled :=
      (fresh bincodeCrc32c 64).attempt bincodeCrc32c (.append [sampleEntry 0 1, sampleEntry 1 1])
    let past := filled.attempt bincodeCrc32c (.truncatePrefix 5)
    let continued := past.attempt bincodeCrc32c (.append [sampleEntry 2 1])
    let cut := filled.attempt bincodeCrc32c (.truncatePrefix 1)
    let back := cut.attempt bincodeCrc32c (.truncatePrefix 0)
    let below := cut.attempt bincodeCrc32c (.truncateSuffix 0)
    (past.log.logStartOffset = 5 ∧ past.log.logEndOffset = 2) ∧
      (continued.log.logEndOffset = 3 ∧ (continued.read bincodeCrc32c 2 3).toOption = some []) ∧
      (openOn bincodeCrc32c past.directory 64).log.logEndOffset = 5 ∧
      (cut.log.logStartOffset = 1 ∧ back.log.logStartOffset = 0) ∧
      below.log.logStartOffset = 1 ∧ below.log.logEndOffset = 0 := by
  decide +kernel

end Store

end XRaft
