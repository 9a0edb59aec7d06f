import XRaft.Storage.LaidOut

/-!
# Every operation keeps the layout

One theorem per operation of the segment log: from a laid out store, a valid operation
succeeds and leaves a store that is laid out for the abstract operation's result. Each
says which pieces the new store has; reopening keeps all of them.
-/

namespace XRaft

open Lib

namespace Store.LaidOut

variable {codec : BatchCodec} {store : Store} {log : AbstractLog} {base : ℕ} {pieces : List Piece}

section Reopen

/-- What opening a directory finds: the pieces it recovers, without empty ones behind the first. -/
structure Opened (codec : BatchCodec) (directory : Directory) (limit : ℕ)
    (pieces kept dropped : List Piece) (after : Directory) : Prop where
  split : pieces = kept ++ dropped
  empty : ∀ piece ∈ dropped, piece.entries = []
  keeps : pieces ≠ [] → kept ≠ []
  stops : kept.length ≤ 1 ∨ ∀ last, kept.getLast? = some last → last.entries ≠ []
  holds : after.Holds codec kept
  startOffset : after.startOffset = directory.startOffset
  opened : SegmentLog.openWithLimit codec directory limit =
    (let start := max directory.loadStartOffset ((kept.head?.map Piece.base).getD 0)
     let stop := (kept.getLast?.map Piece.endOffset).getD start
     (⟨limit, start, stop, kept.map (Piece.segment codec), start, stop⟩, after))

/-- Opening a directory recovers its pieces and removes the empty ones at the end. -/
theorem exists_opened {directory : Directory} (hbases : (pieces.map Piece.base).Pairwise (· < ·))
    (hfits : ∀ piece ∈ pieces, piece.Fits codec) (hrecovers : directory.Recovers codec pieces)
    (limit : ℕ) : ∃ kept dropped after, Opened codec directory limit pieces kept dropped after := by
  have hsorted : sortedKeys directory.files = pieces.map Piece.base :=
    sortedKeys_eq hrecovers.keys hbases
  obtain ⟨hsegments, hrecovered, hfiles, hstart⟩ := hrecovers.openSegments hfits fun _ hmem => hmem
  have hholds := hrecovered.holds fun piece hpiece => hfiles piece hpiece (.inl hpiece)
  obtain ⟨kept, dropped, hpopped⟩ := hholds.popTrailing fun segment => segment.entryCount == 0
  have hload := Directory.loadStartOffset_congr (hpopped.startOffset.trans hstart)
  refine ⟨kept, dropped, _, hpopped.split, ?_, hpopped.keeps, ?_, hpopped.holds,
    hpopped.startOffset.trans hstart, ?_⟩
  · intro piece hpiece
    exact List.length_eq_zero_iff.mp (eq_of_beq (hpopped.all_drop piece hpiece))
  · refine hpopped.stops.imp_right fun hstops last hlast hempty => ?_
    have hcount := hstops last hlast
    rw [show (last.segment codec).entryCount = last.entries.length from rfl, hempty] at hcount
    cases hcount
  · rw [SegmentLog.openWithLimit, hsorted, hsegments]
    simp only [hpopped.segments, hload, List.head?_map, List.getLast?_map, Option.map_map]
    rfl

namespace Opened

variable {directory after : Directory} {limit : ℕ} {kept dropped : List Piece}

/-- No entry is lost with the pieces that are removed. -/
theorem content (h : Opened codec directory limit pieces kept dropped after) :
    Piece.content kept = Piece.content pieces := by
  have hnone : Piece.content dropped = [] := List.flatMap_eq_nil_iff.mpr h.empty
  rw [h.split, Piece.content_append, hnone, List.append_nil]

/-- The first piece stays. -/
theorem head? (h : Opened codec directory limit pieces kept dropped after) :
    kept.head? = pieces.head? := by
  cases kept with
  | nil =>
    have hnone : pieces = [] := by
      by_contra hpieces
      exact h.keeps hpieces rfl
    rw [hnone]
  | cons first rest => rw [h.split, List.cons_append, List.head?_cons, List.head?_cons]

/-- The log starts at the persisted start, if no file starts behind it. -/
theorem logStartOffset (h : Opened codec directory limit pieces kept dropped after) :
    (openOn codec directory limit).log.logStartOffset =
      max directory.loadStartOffset ((pieces.head?.map Piece.base).getD 0) := by
  rw [openOn, h.opened, ← h.head?]
  rfl

/-- The log ends where the last piece ends that is left. -/
theorem logEndOffset (h : Opened codec directory limit pieces kept dropped after) :
    (openOn codec directory limit).log.logEndOffset = (kept.getLast?.map Piece.endOffset).getD
      (openOn codec directory limit).log.logStartOffset := by
  rw [openOn, h.opened]
  rfl

/-- A log opened on a chain of pieces ends where the chain ends. -/
theorem logEndOffset_chain (h : Opened codec directory limit pieces kept dropped after)
    (hchain : Piece.Chain base pieces) (hpieces : pieces ≠ []) :
    (openOn codec directory limit).log.logEndOffset = base + (Piece.content pieces).length := by
  obtain ⟨init, last, hkept⟩ := (List.eq_nil_or_concat kept).resolve_left (h.keeps hpieces)
  rw [List.concat_eq_append] at hkept
  rw [h.split, hkept] at hchain
  rw [h.logEndOffset, ← h.content, hkept, List.getLast?_concat]
  exact (Piece.chain_append.mp hchain).1.endOffset_last.2

/-- Reading from the start selects from the entries of all pieces. -/
theorem read (h : Opened codec directory limit pieces kept dropped after)
    (hfits : ∀ piece ∈ pieces, piece.Fits codec)
    (hentries : ∀ piece ∈ pieces, Consecutive LogEntry.offset piece.base piece.entries)
    (endOffset : ℕ) :
    (openOn codec directory limit).read codec
        (openOn codec directory limit).log.logStartOffset endOffset =
      .ok (Segment.inRange (openOn codec directory limit).log.logStartOffset endOffset
        (Piece.content pieces)) := by
  have hsub : ∀ piece ∈ kept, piece ∈ pieces :=
    fun piece hpiece => h.split ▸ List.mem_append_left dropped hpiece
  rw [← h.content, openOn, h.opened, Store.read, SegmentLog.read, SegmentLog.logStartOffset,
    Nat.max_self]
  split
  · next hempty => rw [Segment.inRange_eq_nil hempty]
  · exact Piece.readSegments_eq h.holds.starts (fun piece hpiece => hfits piece (hsub piece hpiece))
      (fun piece hpiece => hentries piece (hsub piece hpiece)) _ _

/-- The pieces that stay are solid if all but the last were written to. -/
theorem solid (h : Opened codec directory limit pieces kept dropped after)
    (hfull : ∀ piece ∈ pieces.dropLast, piece.entries ≠ []) : Piece.Solid kept := by
  refine h.stops.imp_right fun hlast => ?_
  rcases List.eq_nil_or_concat kept with rfl | ⟨init, last, rfl⟩
  · exact fun _ hmem => absurd hmem List.not_mem_nil
  · have hsplit := h.split
    rw [List.concat_eq_append] at hsplit hlast ⊢
    refine List.forall_mem_append.mpr ⟨fun piece hpiece => hfull piece ?_,
      List.forall_mem_singleton.mpr (hlast last List.getLast?_concat)⟩
    rw [hsplit, List.append_assoc, List.dropLast_append_of_ne_nil (by simp)]
    exact List.mem_append_left _ hpiece

/-- A log opened on a chain of pieces that reaches the persisted start is laid out. -/
theorem laidOut (h : Opened codec directory limit pieces kept dropped after) (hlimit : 1 ≤ limit)
    (hchain : Piece.Chain base pieces) (hfits : ∀ piece ∈ pieces, piece.Fits codec)
    (hfull : ∀ piece ∈ pieces.dropLast, piece.entries ≠ [])
    (hlow : base ≤ directory.loadStartOffset)
    (hhigh : directory.loadStartOffset ≤ base + (Piece.content pieces).length)
    (hlater : ∀ piece ∈ pieces.tail, directory.loadStartOffset ≤ piece.base) :
    (openOn codec directory limit).LaidOut codec
      ⟨directory.loadStartOffset, (Piece.content pieces).drop (directory.loadStartOffset - base)⟩
        base kept := by
  have hpart : kept <+: pieces := ⟨dropped, h.split.symm⟩
  have hstart : max directory.loadStartOffset ((kept.head?.map Piece.base).getD 0) =
      directory.loadStartOffset := by
    apply Nat.max_eq_left
    rw [h.head?]
    cases pieces with
    | nil => exact Nat.zero_le _
    | cons first rest => exact Nat.le_trans (Nat.le_of_eq hchain.1) hlow
  have hstop : (kept.getLast?.map Piece.endOffset).getD directory.loadStartOffset =
      directory.loadStartOffset +
      ((Piece.content pieces).drop (directory.loadStartOffset - base)).length := by
    rw [List.length_drop]
    by_cases hpieces : pieces = []
    · have hnone : kept = [] := List.prefix_nil.mp (hpieces ▸ hpart)
      rw [hnone, hpieces]
      change directory.loadStartOffset = _ + (0 - _)
      omega
    · have hend := h.logEndOffset_chain hchain hpieces
      rw [h.logEndOffset, openOn, h.opened] at hend
      change (kept.getLast?.map Piece.endOffset).getD (max _ _) = _ at hend
      rw [hstart] at hend
      omega
  have hchain' : Piece.Chain base kept := (Piece.chain_append.mp (h.split ▸ hchain)).1
  rw [openOn, h.opened]
  simp only [hstart, hstop]
  have hsolid := h.solid hfull
  refine ⟨⟨hlimit, hchain', fun piece hpiece => hfits piece (hpart.mem hpiece), hsolid.full,
    h.holds, rfl, Directory.loadStartOffset_congr h.startOffset, rfl, rfl, rfl, rfl, hlow,
    h.content ▸ hhigh, by rw [h.content], ?_⟩, hsolid⟩
  exact fun piece hpiece => hlater piece (hpart.sublist.tail.mem hpiece)

/-- All pieces stay if none but a single one is empty. -/
theorem kept_eq (h : Opened codec directory limit pieces kept dropped after)
    (hsolid : Piece.Solid pieces) : kept = pieces := by
  have hnone : dropped = [] := by
    rcases hsolid with hshort | hfull
    · have hlength := congrArg List.length h.split
      rw [List.length_append] at hlength
      by_cases hpieces : pieces = []
      · rw [hpieces, List.length_nil] at hlength
        exact List.length_eq_zero_iff.mp (by omega)
      · have hkept := List.length_pos_iff.mpr (h.keeps hpieces)
        exact List.length_eq_zero_iff.mp (by omega)
    · apply List.eq_nil_iff_forall_not_mem.mpr
      intro piece hpiece
      have hmem : piece ∈ pieces := h.split ▸ List.mem_append_right kept hpiece
      exact hfull piece hmem (h.empty piece hpiece)
  rw [h.split, hnone, List.append_nil]

end Opened

/-- Reopening changes nothing but the limit. -/
theorem reopen (h : store.LaidOut codec log base pieces) {limit : ℕ} (hlimit : 1 ≤ limit) :
    (openOn codec store.directory limit).LaidOut codec log base pieces := by
  obtain ⟨kept, dropped, after, hopened⟩ :=
    exists_opened (h.chain.bases_ascend h.full) h.fits (h.holds.recovers h.fits) limit
  have hlaid := hopened.laidOut hlimit h.chain h.fits h.full (by rw [h.persisted]; exact h.base_le)
    (by rw [h.persisted]; exact h.start_le) (by rw [h.persisted]; exact h.later)
  rw [h.persisted, ← h.visible] at hlaid
  obtain rfl := hopened.kept_eq h.solid
  exact hlaid

/-- A log opened on an empty directory is empty. -/
theorem fresh (codec : BatchCodec) {limit : ℕ} (hlimit : 1 ≤ limit) :
    (Store.fresh codec limit).LaidOut codec .empty 0 [] where
  limit := hlimit
  chain := trivial
  fits _ hmem := absurd hmem List.not_mem_nil
  full _ hmem := absurd hmem List.not_mem_nil
  solid := .inl (Nat.zero_le 1)
  holds := ⟨List.Perm.refl _, List.nodup_nil⟩
  segments := rfl
  persisted := rfl
  innerStart := rfl
  startAtomic := rfl
  innerEnd := rfl
  endAtomic := rfl
  base_le := Nat.le_refl 0
  start_le := Nat.le_refl 0
  visible := rfl
  later _ hmem := absurd hmem List.not_mem_nil

end Reopen

section Append

/-- The place a batch is written to: a last piece behind the others, all of which hold entries. -/
structure Target (codec : BatchCodec) (directory : Directory) (pieces : List Piece) (base : ℕ)
    (init : List Piece) (last : Piece) (target : List Segment × Segment × Directory) : Prop where
  segments : target.1 = init.map (Piece.segment codec)
  segment : target.2.1 = last.segment codec
  holds : target.2.2.Holds codec (init ++ [last])
  startOffset : target.2.2.startOffset = directory.startOffset
  chain : Piece.Chain base (init ++ [last])
  content : Piece.content (init ++ [last]) = Piece.content pieces
  fits : ∀ piece ∈ init ++ [last], piece.Fits codec
  full : ∀ piece ∈ init, piece.entries ≠ []
  bases : ∀ piece ∈ (init ++ [last]).tail,
    piece ∈ pieces.tail ∨ piece.base = base + (Piece.content pieces).length

/-- A new last piece is a place to write to, once every other piece holds entries. -/
theorem target_create {directory : Directory} (hchain : Piece.Chain base pieces)
    (hfits : ∀ piece ∈ pieces, piece.Fits codec) (hholds : directory.Holds codec pieces)
    (hfull : ∀ piece ∈ pieces, piece.entries ≠ []) {offset : ℕ}
    (hoffset : offset = base + (Piece.content pieces).length) :
    Target codec directory pieces base pieces ⟨offset, []⟩
      (pieces.map (Piece.segment codec), SegmentLog.openSegment codec directory offset) := by
  have hnew : offset ∉ pieces.map Piece.base := by
    intro hmem
    obtain ⟨piece, hpiece, hbase⟩ := List.mem_map.mp hmem
    have hbound := (hchain.bounds hpiece).2
    have hlength := List.length_pos_iff.mpr (hfull piece hpiece)
    rw [Piece.endOffset] at hbound
    omega
  obtain ⟨hsegment, hcreated⟩ := hholds.createSegment hnew
  refine ⟨rfl, hsegment, hcreated, rfl, ?_, ?_, ?_, hfull, ?_⟩
  · exact Piece.chain_append.mpr ⟨hchain, hoffset, consecutive_nil _, trivial⟩
  · rw [Piece.content_append]
    exact List.append_nil _
  · exact List.forall_mem_append.mpr ⟨hfits,
      List.forall_mem_singleton.mpr fun _ hmem => absurd hmem List.not_mem_nil⟩
  · intro piece hpiece
    cases pieces with
    | nil => cases hpiece
    | cons first rest =>
      rcases List.mem_append.mp hpiece with hold | hlast
      · exact .inl hold
      · rw [List.mem_singleton.mp hlast]
        exact .inr hoffset

/-- The segment chosen for a batch at the end of the log. -/
theorem writableSegment_target (h : store.Shows codec log base pieces) :
    ∃ init last, Target codec store.directory pieces base init last
      (store.log.writableSegment codec store.directory log.endOffset) := by
  have hlimit := h.limit
  rw [SegmentLog.writableSegment, h.segments]
  rcases List.eq_nil_or_concat pieces with rfl | ⟨init, last, heq⟩
  · have htarget :=
      target_create h.chain h.fits h.holds (fun _ hmem => absurd hmem List.not_mem_nil)
        h.endOffset_eq
    refine ⟨[], ⟨log.endOffset, []⟩, ?_⟩
    have hsize : ¬ store.log.segmentSizeLimit ≤
        (SegmentLog.openSegment codec store.directory log.endOffset).1.size := by
      rw [htarget.segment]
      exact Nat.not_le.mpr hlimit
    change Target _ _ _ _ _ _ (if _ ≤
      (SegmentLog.openSegment codec store.directory log.endOffset).1.size
      then _ else _)
    rw [if_neg hsize]
    exact htarget
  · rw [List.concat_eq_append] at heq
    subst heq
    have hlast : (init ++ [last]).map (Piece.segment codec) =
        init.map (Piece.segment codec) ++ [last.segment codec] := by
      rw [List.map_append, List.map_singleton]
    rw [hlast, List.getLast?_concat, List.dropLast_concat]
    change ∃ _ _, Target _ _ _ _ _ _ (if store.log.segmentSizeLimit ≤ (last.segment codec).size
      then (init.map (Piece.segment codec) ++ [last.segment codec], _)
      else (init.map (Piece.segment codec), last.segment codec, store.directory))
    have hinit := h.full
    rw [List.dropLast_concat] at hinit
    by_cases hroll : store.log.segmentSizeLimit ≤ (last.segment codec).size
    · -- a file of positive size holds entries, so the new base is new
      have hfull : ∀ piece ∈ init ++ [last], piece.entries ≠ [] := by
        refine List.forall_mem_append.mpr ⟨hinit, List.forall_mem_singleton.mpr fun hempty => ?_⟩
        have hnone :=
          (h.fits last (List.mem_append_right _ List.mem_cons_self)).batches_eq_nil hempty
        rw [Piece.segment, Piece.file, hnone] at hroll
        exact absurd hroll (Nat.not_le.mpr hlimit)
      rw [if_pos hroll, ← hlast]
      exact ⟨_, _, target_create h.chain h.fits h.holds hfull h.endOffset_eq⟩
    · rw [if_neg hroll]
      exact ⟨init, last, rfl, rfl, h.holds, rfl, h.chain, rfl, h.fits, hinit,
        fun _ hpiece => .inl hpiece⟩

/-- Growing the last piece by a batch that continues the log keeps the chain. -/
theorem Target.chain_grow {directory : Directory} {init : List Piece} {last : Piece}
    {target : List Segment × Segment × Directory}
    (h : Target codec directory pieces base init last target) {batch : List LogEntry}
    (hbatch : Consecutive LogEntry.offset (base + (Piece.content pieces).length) batch) :
    Piece.Chain base (init ++ [last.grow batch]) := by
  obtain ⟨hinit, hbase, hlast, -⟩ := Piece.chain_append.mp h.chain
  refine Piece.chain_append.mpr ⟨hinit, hbase, ?_, trivial⟩
  have hends := h.chain.endOffset_last
  rw [h.content, Piece.endOffset] at hends
  rw [Piece.entries_grow, consecutive_append, ← hbase, hends.2]
  exact ⟨hbase ▸ hlast, hbatch⟩

/-- Growing the last piece leaves the later pieces above the start. -/
theorem Target.later_grow {directory : Directory} {init : List Piece} {last : Piece}
    {target : List Segment × Segment × Directory}
    (h : Target codec directory pieces base init last target) {start : ℕ}
    (hlater : ∀ piece ∈ pieces.tail, start ≤ piece.base)
    (hstart : start ≤ base + (Piece.content pieces).length) {batch : List LogEntry} :
    ∀ piece ∈ (init ++ [last.grow batch]).tail, start ≤ piece.base := by
  refine Piece.later_replace (last.base_grow batch) fun other hother => ?_
  rcases h.bases other hother with hold | hnew
  · exact hlater other hold
  · rw [hnew]
    exact hstart

/-- Appending a batch that continues the log adds it to one piece. -/
theorem append_cons (h : store.Shows codec log base pieces) {first : LogEntry}
    {rest : List LogEntry} (hvalid : (LogOp.append (first :: rest)).Valid codec log) :
    ∃ after pieces', store.step codec (.append (first :: rest)) = .ok after ∧
      after.LaidOut codec (log.step (.append (first :: rest))) base pieces' := by
  obtain ⟨hconsecutive, hfits⟩ := hvalid
  obtain ⟨init, last, htarget⟩ := writableSegment_target h
  have hfirst : first.offset = log.endOffset := ((consecutive_cons _ _ _).mp hconsecutive).1
  have hne : first :: rest ≠ [] := List.cons_ne_nil _ _
  have hend := h.endOffset_eq
  set batch := first :: rest with hbatch
  obtain ⟨hsegment, hfile⟩ := last.append_segment codec hne
  have hlastfile :
      (store.log.writableSegment codec store.directory log.endOffset).2.2.file last.base =
        last.file codec :=
    htarget.holds.file (List.mem_append_right _ List.mem_cons_self)
  have hstep : store.step codec (.append batch) = .ok
      ⟨{ store.log with
          segments := (init ++ [last.grow batch]).map (Piece.segment codec)
          innerEndOffset := log.endOffset + batch.length
          endOffsetAtomic := log.endOffset + batch.length },
        (store.log.writableSegment codec store.directory log.endOffset).2.2.edit last.base
          ((last.segment codec).append codec (last.file codec) batch).2⟩ := by
    rw [hbatch, Store.step, SegmentLog.append, h.innerEnd, if_neg (not_not_intro hfirst), ← hbatch]
    simp only [hfirst, htarget.segments, htarget.segment, List.map_append, List.map_singleton]
    rw [show (last.segment codec).baseOffset = last.base from rfl, hlastfile, hsegment]
    rfl
  have hcontent : Piece.content (init ++ [last.grow batch]) = Piece.content pieces ++ batch := by
    rw [Piece.content_grow, htarget.content]
  have hgrown : log.endOffset + batch.length = (log.step (.append batch)).endOffset := by
    change log.start + log.entries.length + batch.length = log.start + (log.entries ++ batch).length
    rw [List.length_append, Nat.add_assoc]
  have hlow := h.base_le
  have hhigh := h.start_le
  obtain ⟨hinitfits, hlastfits⟩ := List.forall_mem_append.mp htarget.fits
  have hsolid : Piece.Solid (init ++ [last.grow batch]) := by
    refine .inr (List.forall_mem_append.mpr ⟨htarget.full, List.forall_mem_singleton.mpr ?_⟩)
    rw [Piece.entries_grow]
    exact List.append_ne_nil_of_right_ne_nil _ hne
  refine ⟨_, init ++ [last.grow batch], hstep,
    ⟨h.limit, htarget.chain_grow (hend ▸ hconsecutive), ?_, hsolid.full,
      htarget.holds.edit (last.base_grow batch) hfile, rfl,
      (Directory.loadStartOffset_congr htarget.startOffset).trans h.persisted, h.innerStart,
      h.startAtomic, hgrown, hgrown, hlow, ?_, ?_, htarget.later_grow h.later hhigh⟩, hsolid⟩
  · refine List.forall_mem_append.mpr ⟨hinitfits, List.forall_mem_singleton.mpr ?_⟩
    exact (List.forall_mem_singleton.mp hlastfits).grow hne
      fun part hpart => hfits part ((List.mem_inits part batch).mpr hpart)
  · rw [hcontent, List.length_append]
    exact Nat.le_trans hhigh (by omega)
  · change log.entries ++ batch = _
    rw [hcontent, List.drop_append_of_le_length (by change log.start - base ≤ _; omega), h.visible]
    rfl

/-- Appending a batch that continues the log keeps it laid out. -/
theorem append (h : store.LaidOut codec log base pieces) {batch : List LogEntry}
    (hvalid : (LogOp.append batch).Valid codec log) :
    ∃ after pieces', store.step codec (.append batch) = .ok after ∧
      after.LaidOut codec (log.step (.append batch)) base pieces' := by
  cases batch with
  | nil =>
    refine ⟨store, pieces, rfl, ?_⟩
    rw [AbstractLog.step, List.append_nil]
    exact h
  | cons first rest => exact append_cons h.toShows hvalid

end Append

section TruncateSuffix

/-- A piece of which only a first part of the entries is left. -/
theorem truncate_piece {piece : Piece} (hfits : piece.Fits codec)
    (hentries : Consecutive LogEntry.offset piece.base piece.entries) (fromOffset : ℕ) :
    ∃ cut : Piece, ∃ found : Bool, ∃ ops : List FileOp, cut.base = piece.base ∧ cut.Fits codec ∧
      cut.entries = piece.entries.take (fromOffset - piece.base) ∧
      (piece.segment codec).truncateSuffix codec (piece.file codec) fromOffset =
        .ok (found, cut.segment codec, ops) ∧
      FileOp.applyAll ops (piece.file codec) = cut.file codec := by
  rw [← hentries.filter_lt]
  rcases Segment.exists_first_touched fromOffset piece.batches with hnone |
    ⟨kept, batch, later, heq, hkept, hbatch⟩
  · exact ⟨piece, false, [], rfl, hfits, (Segment.entriesBefore_untouched hnone).symm,
      Segment.truncateSuffix_untouched hfits.batch hnone rfl, rfl⟩
  · have hall : piece.entries = kept.flatten ++ (batch ++ later.flatten) := by
      rw [Piece.entries, heq, List.flatten_append, List.flatten_cons]
    rw [hall, consecutive_append, consecutive_append] at hentries
    obtain ⟨-, hmiddle, hlater⟩ := hentries
    -- the touched batch reaches the offset, so every later entry is behind it
    have hbehind : later.flatten.filter (fun entry => decide (entry.offset < fromOffset)) = [] := by
      obtain ⟨target, htarget, hle⟩ := hbatch
      have hbelow := (hmiddle.key_bounds htarget).2
      apply List.filter_eq_nil_iff.mpr
      intro entry hentry hlt
      have habove := (hlater.key_bounds hentry).1
      have hlt := of_decide_eq_true hlt
      omega
    have hfirst : kept.flatten.filter (fun entry => decide (entry.offset < fromOffset)) =
        kept.flatten :=
      Segment.entriesBefore_untouched hkept
    have htruncate := Segment.truncateSuffix_touched (heq ▸ hfits.batch) hkept hbatch
      (show (piece.segment codec).size = _ by rw [← heq]; rfl)
    refine ⟨⟨piece.base, kept ++ Segment.leftover fromOffset batch⟩, true,
      Segment.truncationOps codec fromOffset kept batch, rfl, ?_, ?_, ?_, ?_⟩
    · intro other hother
      rcases List.mem_append.mp hother with hold | hleft
      · exact hfits other (heq ▸ List.mem_append_left _ hold)
      · -- the leftover is a prefix of the batch it came from
        unfold Segment.leftover at hleft
        split at hleft
        · cases hleft
        · next hne =>
          have hinitial : Segment.entriesBefore fromOffset batch <+: batch := by
            rw [Segment.entriesBefore, hmiddle.filter_lt]
            exact List.take_prefix _ _
          rw [List.mem_singleton.mp hleft]
          refine ⟨fun hnil => hne (List.isEmpty_iff.mpr hnil), fun part hpart => ?_⟩
          exact (hfits batch (heq ▸ List.mem_append_right _ List.mem_cons_self)).2 part
            (hpart.trans hinitial)
    · rw [hall, List.filter_append, List.filter_append, hfirst, hbehind, List.append_nil,
        Piece.entries, List.flatten_append, Segment.flatten_leftover]
      rfl
    · rw [Piece.file, heq, htruncate]
      rfl
    · rw [Piece.file, heq]
      exact Segment.applyAll_truncationOps kept later batch

/-- The pieces that stay when those based at or above an offset within the log are removed. -/
theorem exists_cut_piece (h : store.LaidOut codec log base pieces) {fromOffset : ℕ}
    (hstart : log.start ≤ fromOffset) (hend : fromOffset < log.endOffset)
    {kept dropped : List Piece} {popped : List Segment × Directory}
    (hpopped :
      Directory.Holds.Popped codec (fun segment => decide (fromOffset ≤ segment.baseOffset))
      store.directory pieces kept dropped popped) :
    ∃ init last, kept = init ++ [last] ∧ last.base ≤ fromOffset ∧
      fromOffset ≤ base + (Piece.content kept).length ∧ (init ≠ [] → last.base < fromOffset) := by
  have hlow := h.base_le
  have hstop := h.endOffset_eq
  have hpieces : pieces ≠ [] := by
    rintro rfl
    rw [Piece.content_nil, List.length_nil] at hstop
    omega
  obtain ⟨init, last, hkept⟩ := (List.eq_nil_or_concat kept).resolve_left (hpopped.keeps hpieces)
  rw [List.concat_eq_append] at hkept
  have hchain := h.chain
  rw [hpopped.split] at hchain
  obtain ⟨hkeptchain, hdropchain⟩ := Piece.chain_append.mp hchain
  have hlast := (hkept ▸ hkeptchain).endOffset_last.1
  have hinner : init ≠ [] → last.base < fromOffset := by
    intro hinit
    rcases hpopped.stops with hshort | hstops
    · rw [hkept, List.length_append, List.length_singleton] at hshort
      exact absurd (List.length_eq_zero_iff.mp (show init.length = 0 by omega)) hinit
    · have hkeeps := hstops last (by rw [hkept, List.getLast?_concat])
      exact Nat.not_le.mp (of_decide_eq_false hkeeps)
  refine ⟨init, last, hkept, ?_, ?_, hinner⟩
  · by_cases hinit : init = []
    · rw [hlast, hinit, Piece.content_nil, List.length_nil]
      omega
    · exact Nat.le_of_lt (hinner hinit)
  · cases dropped with
    | nil =>
      rw [hpopped.split, List.append_nil] at hstop
      omega
    | cons first rest =>
      -- the first removed piece starts where the kept ones end
      have hdrop : fromOffset ≤ first.base :=
        of_decide_eq_true (hpopped.all_drop first List.mem_cons_self)
      rw [← hdropchain.1]
      exact hdrop

/-- Cutting the last piece takes a first part of all entries. -/
theorem content_cut {init : List Piece} {last cut : Piece} {fromOffset : ℕ}
    (hlast : last.base = base + (Piece.content init).length) (hfrom : last.base ≤ fromOffset)
    (hcut : cut.entries = last.entries.take (fromOffset - last.base)) :
    Piece.content (init ++ [cut]) = (Piece.content (init ++ [last])).take (fromOffset - base) := by
  rw [Piece.content_append, Piece.content_append, List.take_append, Piece.content_cons,
    Piece.content_cons, Piece.content_nil, List.append_nil, List.append_nil, hcut,
    List.take_of_length_le (show (Piece.content init).length ≤ fromOffset - base by omega)]
  congr 2
  omega

/-- What truncating a suffix does, given what it does to the last segment that is left. -/
theorem truncateSuffix_eq (h : store.LaidOut codec log base pieces) {fromOffset : ℕ}
    (hend : fromOffset < log.endOffset) {init dropped : List Piece} {last cut : Piece}
    (hpopped :
      Directory.Holds.Popped codec (fun segment => decide (fromOffset ≤ segment.baseOffset))
      store.directory pieces (init ++ [last]) dropped
      (SegmentLog.popTrailing (fun segment => decide (fromOffset ≤ segment.baseOffset))
        (pieces.map (Piece.segment codec)) store.directory))
    {found : Bool} {ops : List FileOp}
    (hcut : (last.segment codec).truncateSuffix codec (last.file codec) fromOffset =
      .ok (found, cut.segment codec, ops)) :
    store.step codec (.truncateSuffix fromOffset) = .ok
      ⟨{ store.log with
          segments := (init ++ [cut]).map (Piece.segment codec)
          innerEndOffset := fromOffset
          endOffsetAtomic := fromOffset },
        (SegmentLog.popTrailing (fun segment => decide (fromOffset ≤ segment.baseOffset))
          (pieces.map (Piece.segment codec)) store.directory).2.edit last.base ops⟩ := by
  have hlastfile := hpopped.holds.file (List.mem_append_right init (List.mem_cons_self (a := last)))
  rw [Store.step, SegmentLog.truncateSuffix, h.innerEnd, if_neg (Nat.not_le.mpr hend), h.segments]
  simp only [hpopped.segments, List.map_append, List.map_singleton, List.getLast?_concat,
    List.dropLast_concat]
  rw [show (last.segment codec).baseOffset = last.base from rfl, hlastfile, hcut]
  rfl

/-- Truncating from the end on changes nothing. -/
theorem truncateSuffix_past (h : store.LaidOut codec log base pieces) {fromOffset : ℕ}
    (hend : log.endOffset ≤ fromOffset) :
    store.step codec (.truncateSuffix fromOffset) = .ok store ∧
      log.step (.truncateSuffix fromOffset) = log := by
  constructor
  · rw [Store.step, SegmentLog.truncateSuffix, h.innerEnd, if_pos hend]
    rfl
  · rw [AbstractLog.endOffset] at hend
    rw [AbstractLog.step, List.take_of_length_le (by omega)]

/-- A log that is truncated below its end ends at the offset. -/
theorem endOffset_truncateSuffix {log : AbstractLog} {fromOffset : ℕ}
    (hstart : log.start ≤ fromOffset) (hend : fromOffset < log.endOffset) :
    (log.step (.truncateSuffix fromOffset)).endOffset = fromOffset := by
  change log.start + (log.entries.take (fromOffset - log.start)).length = fromOffset
  rw [AbstractLog.endOffset] at hend
  rw [List.length_take]
  omega

/-- Truncating a suffix removes the pieces behind the offset and cuts the last one left. -/
theorem truncateSuffix (h : store.LaidOut codec log base pieces) {fromOffset : ℕ}
    (hstart : log.start ≤ fromOffset) :
    ∃ after pieces', store.step codec (.truncateSuffix fromOffset) = .ok after ∧
      after.LaidOut codec (log.step (.truncateSuffix fromOffset)) base pieces' := by
  have hlow := h.base_le
  have hhigh := h.start_le
  have hstop := h.endOffset_eq
  by_cases hend : log.endOffset ≤ fromOffset
  · obtain ⟨hstep, hlog⟩ := h.truncateSuffix_past hend
    exact ⟨store, pieces, hstep, hlog.symm ▸ h⟩
  · obtain ⟨kept, dropped, hpopped⟩ :=
      h.holds.popTrailing fun segment => decide (fromOffset ≤ segment.baseOffset)
    obtain ⟨init, last, hkept, hbase, hreach, hinner⟩ :=
      h.exists_cut_piece hstart (Nat.not_le.mp hend) hpopped
    have hsub : kept.Sublist pieces := hpopped.split ▸ List.sublist_append_left kept dropped
    have hchain := h.chain
    rw [hpopped.split] at hchain
    have hkeptchain := (Piece.chain_append.mp hchain).1
    have hfits : ∀ piece ∈ kept, piece.Fits codec :=
      fun piece hpiece => h.fits piece (hsub.mem hpiece)
    have hsolid := h.solid.sublist hsub
    have hholds := hpopped.holds
    have hlater : ∀ piece ∈ kept.tail, log.start ≤ piece.base :=
      fun piece hpiece => h.later piece (hsub.tail.mem hpiece)
    have hcontent : Piece.content pieces = Piece.content kept ++ Piece.content dropped := by
      rw [hpopped.split, Piece.content_append]
    subst hkept
    obtain ⟨hinitchain, hlastbase, hlastentries, -⟩ := Piece.chain_append.mp hkeptchain
    obtain ⟨cut, found, ops, hcutbase, hcutfits, hcutentries, hcut, hops⟩ :=
      truncate_piece (hfits last (List.mem_append_right _ List.mem_cons_self))
        (hlastbase ▸ hlastentries) fromOffset
    have hnew : Piece.content (init ++ [cut]) =
        (Piece.content pieces).take (fromOffset - base) := by
      rw [hcontent, List.take_append_of_le_length (by omega),
        content_cut hlastbase hbase hcutentries]
    have hstep := h.truncateSuffix_eq (Nat.not_le.mp hend) hpopped hcut
    have hlength := (endOffset_truncateSuffix hstart (Nat.not_le.mp hend)).symm
    obtain ⟨hinitfits, -⟩ := List.forall_mem_append.mp hfits
    have hcutsolid : Piece.Solid (init ++ [cut]) := by
      refine hsolid.replace fun hinit => ?_
      -- behind another piece the offset lies strictly inside the last one
      have hpositive := hinner hinit
      have hreached := hkeptchain.endOffset_last.2
      rw [Piece.endOffset] at hreached
      rw [hcutentries]
      apply List.length_pos_iff.mp
      rw [List.length_take]
      omega
    refine ⟨_, init ++ [cut], hstep, ⟨h.limit, ?_,
      List.forall_mem_append.mpr ⟨hinitfits, List.forall_mem_singleton.mpr hcutfits⟩,
      hcutsolid.full, hholds.edit hcutbase hops, rfl,
      (Directory.loadStartOffset_congr hpopped.startOffset).trans h.persisted, h.innerStart,
      h.startAtomic, hlength, hlength, hlow, ?_, ?_, Piece.later_replace hcutbase hlater⟩,
      hcutsolid⟩
    · refine Piece.chain_append.mpr ⟨hinitchain, hcutbase.trans hlastbase, ?_, trivial⟩
      rw [hcutentries]
      exact hlastentries.take _
    · rw [hnew, List.length_take]
      change log.start ≤ _
      omega
    · change log.entries.take (fromOffset - log.start) = List.drop (log.start - base) _
      rw [hnew, h.visible, List.take_drop]
      congr 2
      omega

end TruncateSuffix

section TruncatePrefix

/-- The pieces that end by an offset come before those that do not. -/
theorem exists_removed (hchain : Piece.Chain base pieces) (upToOffset : ℕ) :
    ∃ removed kept, pieces = removed ++ kept ∧ (∀ piece ∈ removed, piece.endOffset ≤ upToOffset) ∧
      ∀ piece ∈ kept, upToOffset < piece.endOffset := by
  induction pieces generalizing base with
  | nil => exact ⟨[], [], rfl, fun _ hmem => absurd hmem List.not_mem_nil,
      fun _ hmem => absurd hmem List.not_mem_nil⟩
  | cons first rest ih =>
    obtain ⟨-, -, hrest⟩ := hchain
    by_cases hfirst : first.endOffset ≤ upToOffset
    · obtain ⟨removed, kept, heq, hremoved, hkept⟩ := ih hrest
      exact ⟨first :: removed, kept, by rw [heq, List.cons_append],
        List.forall_mem_cons.mpr ⟨hfirst, hremoved⟩, hkept⟩
    · refine ⟨[], first :: rest, rfl, fun _ hmem => absurd hmem List.not_mem_nil, ?_⟩
      rw [List.forall_mem_cons]
      refine ⟨Nat.not_le.mp hfirst, fun piece hpiece => ?_⟩
      have hbound := (hrest.bounds hpiece).1
      have hself : piece.base ≤ piece.endOffset := Nat.le_add_right _ _
      omega

/-- The segments of the removed pieces are the ones a prefix truncation removes. -/
theorem filter_removes {removed kept : List Piece} {upToOffset : ℕ}
    (hremoved : ∀ piece ∈ removed, piece.endOffset ≤ upToOffset)
    (hkept : ∀ piece ∈ kept, upToOffset < piece.endOffset) :
    ((removed ++ kept).map (Piece.segment codec)).filter (SegmentLog.removes upToOffset) =
        removed.map (Piece.segment codec) ∧
      ((removed ++ kept).map (Piece.segment codec)).filter
        (fun segment => !SegmentLog.removes upToOffset segment) =
        kept.map (Piece.segment codec) := by
  have hyes : ∀ segment ∈ removed.map (Piece.segment codec),
      SegmentLog.removes upToOffset segment = true := by
    intro segment hsegment
    obtain ⟨piece, hpiece, rfl⟩ := List.mem_map.mp hsegment
    exact decide_eq_true (hremoved piece hpiece)
  have hno : ∀ segment ∈ kept.map (Piece.segment codec),
      SegmentLog.removes upToOffset segment = false := by
    intro segment hsegment
    obtain ⟨piece, hpiece, rfl⟩ := List.mem_map.mp hsegment
    exact decide_eq_false (Nat.not_le.mpr (hkept piece hpiece))
  rw [List.map_append, List.filter_append, List.filter_append]
  constructor
  · rw [List.filter_eq_self.mpr hyes,
      List.filter_eq_nil_iff.mpr fun segment hsegment => by simp [hno segment hsegment],
      List.append_nil]
  · rw [List.filter_eq_nil_iff.mpr fun segment hsegment => by simp [hyes segment hsegment],
      List.filter_eq_self.mpr fun segment hsegment => by simp [hno segment hsegment],
      List.nil_append]

/-- The removals of a prefix truncation, last removed piece first. -/
theorem truncatePrefixOps_eq (h : store.LaidOut codec log base pieces) {removed kept : List Piece}
    {upToOffset : ℕ} (hsplit : pieces = removed ++ kept)
    (hremoved : ∀ piece ∈ removed, piece.endOffset ≤ upToOffset)
    (hkept : ∀ piece ∈ kept, upToOffset < piece.endOffset) :
    store.log.truncatePrefixOps upToOffset =
      (removed.reverse.map fun piece => .removeFile piece.base) ++
        [.writeStartOffsetTmp upToOffset, .renameStartOffset] := by
  rw [SegmentLog.truncatePrefixOps, h.segments, hsplit, (filter_removes hremoved hkept).1,
    ← List.map_reverse, List.map_map]
  rfl

/-- Applying changes one list after the other. -/
theorem applyAll_append (first second : List DirectoryOp) (directory : Directory) :
    DirectoryOp.applyAll (first ++ second) directory =
      DirectoryOp.applyAll second (DirectoryOp.applyAll first directory) :=
  List.foldl_append

/-- The kept pieces start at or below an offset that the removed ones do not pass. -/
theorem kept_base_le (h : store.LaidOut codec log base pieces) {removed kept : List Piece}
    {upToOffset : ℕ} (hsplit : pieces = removed ++ kept)
    (hremoved : ∀ piece ∈ removed, piece.endOffset ≤ upToOffset) (hstart : log.start ≤ upToOffset) :
    base + (Piece.content removed).length ≤ upToOffset := by
  rcases List.eq_nil_or_concat removed with rfl | ⟨init, last, rfl⟩
  · exact Nat.le_trans h.base_le hstart
  · have hchain := h.chain
    rw [hsplit, List.concat_eq_append] at hchain
    rw [List.concat_eq_append] at hremoved ⊢
    rw [← (Piece.chain_append.mp hchain).1.endOffset_last.2]
    exact hremoved last (List.mem_append_right _ List.mem_cons_self)

/-- Truncating a prefix keeps the pieces that reach past the offset. -/
theorem truncatePrefix (h : store.LaidOut codec log base pieces) {upToOffset : ℕ}
    (hstart : log.start ≤ upToOffset) (hend : upToOffset ≤ log.endOffset) :
    ∃ after base' pieces', store.step codec (.truncatePrefix upToOffset) = .ok after ∧
      after.LaidOut codec (log.step (.truncatePrefix upToOffset)) base' pieces' := by
  have hlow := h.base_le
  have hstop := h.endOffset_eq
  obtain ⟨removed, kept, hsplit, hremoved, hkept⟩ := exists_removed h.chain upToOffset
  have hbase := h.kept_base_le hsplit hremoved hstart
  have hchain := h.chain
  have hholds := h.holds
  have hsub : kept.Sublist pieces := hsplit ▸ List.sublist_append_right removed kept
  have hcontent : Piece.content pieces = Piece.content removed ++ Piece.content kept := by
    rw [hsplit, Piece.content_append]
  have hlength := congrArg List.length hcontent
  rw [List.length_append] at hlength
  rw [hsplit] at hchain hholds
  obtain ⟨-, hkeptchain⟩ := Piece.chain_append.mp hchain
  have hleft : (DirectoryOp.applyAll (removed.reverse.map fun piece => .removeFile piece.base)
      store.directory).Holds codec ([] ++ kept) := Directory.Holds.removeFiles hholds
  have hstep : (log.step (.truncatePrefix upToOffset)).endOffset = log.endOffset := by
    change upToOffset + (log.entries.drop (upToOffset - log.start)).length =
      log.start + log.entries.length
    rw [AbstractLog.endOffset] at hend
    rw [List.length_drop]
    omega
  have hsolid := h.solid.sublist hsub
  refine ⟨_, base + (Piece.content removed).length, kept, rfl, ⟨h.limit, hkeptchain,
      fun piece hpiece => h.fits piece (hsub.mem hpiece), hsolid.full, ?_, ?_, ?_, rfl, rfl,
      h.innerEnd.trans hstep.symm, h.endAtomic.trans hstep.symm, hbase, ?_, ?_, ?_⟩, hsolid⟩
  · change (DirectoryOp.applyAll (store.log.truncatePrefixOps upToOffset) store.directory).Holds
      codec kept
    rw [h.truncatePrefixOps_eq hsplit hremoved hkept, applyAll_append]
    exact ⟨hleft.files, hleft.nodup⟩
  · change store.log.segments.filter _ = _
    rw [h.segments, hsplit, (filter_removes hremoved hkept).2]
  · change (DirectoryOp.applyAll (store.log.truncatePrefixOps upToOffset)
      store.directory).loadStartOffset = _
    rw [h.truncatePrefixOps_eq hsplit hremoved hkept, applyAll_append]
    rfl
  · change upToOffset ≤ _
    omega
  · change log.entries.drop (upToOffset - log.start) = List.drop (upToOffset - _) _
    rw [h.visible, List.drop_drop, hcontent, List.drop_append,
      List.drop_of_length_le (by omega), List.nil_append]
    congr 1
    omega
  · intro piece hpiece
    change upToOffset ≤ piece.base
    cases kept with
    | nil => cases hpiece
    | cons first rest =>
      have hreach := hkept first List.mem_cons_self
      have hbound := (hkeptchain.2.2.bounds hpiece).1
      omega

end TruncatePrefix

end Store.LaidOut

end XRaft
