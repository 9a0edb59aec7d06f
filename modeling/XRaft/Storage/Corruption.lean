import XRaft.Storage.Refinement

/-!
# Recovery from a damaged segment file

A segment file that is cut, or in which a batch no longer passes its checks, is cut back
to the batches in front of the damage when the log is opened. The other files are not
looked at, and the end of the log is that of the last segment. So the log is a prefix of
what it was if the damage is in the last segment and spares the part below the start;
damage in an earlier segment leaves a hole unless all it takes is below the start.
-/

namespace XRaft

open Lib

namespace Segment

/-- Damage to a segment file: it is cut at some byte, or from behind some batch on it is changed. -/
inductive Damage where
  | cut (count : ℕ)
  | changed (intact : ℕ) (rest : Bytes)
  deriving DecidableEq

/-- The damaged file of some batches. -/
def Damage.file (codec : BatchCodec) (batches : List (List LogEntry)) : Damage → Bytes
  | .cut count => (codec.format.frames batches).take count
  | .changed intact rest => codec.format.frames (batches.take intact) ++ rest

/-- The batches in front of the damage: the ones that are whole in the file. -/
def Damage.kept (codec : BatchCodec) (batches : List (List LogEntry)) :
    Damage → List (List LogEntry)
  | .cut count => wholeWithin codec.format.frame count batches
  | .changed intact _ => batches.take intact

/-- The batch at which the change begins fails one of its checks. -/
def Damage.Breaks (codec : BatchCodec) : Damage → Prop
  | .cut _ => True
  | .changed _ rest => codec.format.Unreadable rest

/-- Opening a damaged file finds the batches in front of the damage. -/
theorem Damage.openFile_file {codec : BatchCodec} {batches : List (List LogEntry)} {damage : Damage}
    (h : damage.Breaks codec) (hfits : ∀ batch ∈ batches, codec.format.Fits batch) (base : ℕ) :
    damage.kept codec batches <+: batches ∧
      openFile codec (damage.file codec batches) base =
        ((Piece.mk base (damage.kept codec batches)).segment codec,
          (Piece.mk base (damage.kept codec batches)).file codec) := by
  have hopen : ∀ kept rest, kept <+: batches → codec.format.Unreadable rest →
      openFile codec (codec.format.frames kept ++ rest) base =
        ((Piece.mk base kept).segment codec, (Piece.mk base kept).file codec) := by
    intro kept rest hkept hrest
    exact openFile_unreadable (fun batch hbatch => hfits batch (hkept.subset hbatch)) hrest base
  cases damage with
  | cut count =>
    obtain ⟨lost, rest, hsplit, htake, hrest, -⟩ := Format.exists_cut_frame hfits count
    have hkept : wholeWithin codec.format.frame count batches <+: batches := ⟨lost, hsplit.symm⟩
    rw [Damage.file, htake]
    exact ⟨hkept, hopen _ rest hkept hrest⟩
  | changed intact rest =>
    have hkept : batches.take intact <+: batches := List.take_prefix intact batches
    exact ⟨hkept, hopen _ rest hkept h⟩

end Segment

namespace Store

variable {codec : BatchCodec} {store : Store} {log : AbstractLog} {base : ℕ} {pieces : List Piece}

/-- Between its bounds a log reads as a prefix of another, with an entry for every offset. -/
def ReadsPrefixOf (codec : BatchCodec) (log : AbstractLog) (store : Store) : Prop :=
  ∃ entries, store.read codec store.log.logStartOffset store.log.logEndOffset = .ok entries ∧
    store.log.logStartOffset + entries.length = store.log.logEndOffset ∧
    Consecutive LogEntry.offset store.log.logStartOffset entries ∧ entries <+: log.entries

/-- What a damage leaves of a segment, up to an offset, suffices: in the last segment the entries up
to the start of the log, in front of others all entries from the start on. -/
def Suffices (log : AbstractLog) (piece : Piece) (after : List Piece) (keptEnd : ℕ) : Prop :=
  if after = [] then log.start ≤ keptEnd else piece.endOffset ≤ max keptEnd log.start

section

variable {before after : List Piece} {piece left : Piece} {lost : List (List LogEntry)}
  {file : Bytes}

/-- A laid out log reads as a prefix of itself. -/
theorem LaidOut.readsPrefixOf (h : store.LaidOut codec log base pieces) {whole : AbstractLog}
    (hfirst : log.entries <+: whole.entries) : store.ReadsPrefixOf codec whole := by
  have hstart : store.log.logStartOffset = log.start := h.startAtomic
  have hend : store.log.logEndOffset = log.endOffset := h.endAtomic
  refine ⟨log.entries, ?_, ?_, ?_, hfirst⟩
  · rw [hstart, hend, h.read_whole]
  · rw [hstart, hend]
    rfl
  · rw [hstart]
    exact h.consecutive

/-- Opening the damaged directory finds the pieces with what is left of the damaged one. -/
theorem LaidOut.exists_opened_overwrite
    (h : store.LaidOut codec log base (before ++ piece :: after))
    (hbase : left.base = piece.base) (hfits : left.Fits codec)
    (hopen : Segment.openFile codec file piece.base = (left.segment codec, left.file codec))
    (limit : ℕ) :
    ∃ kept dropped directory, LaidOut.Opened codec (store.directory.overwrite piece.base file) limit
      (before ++ left :: after) kept dropped directory := by
  apply LaidOut.exists_opened
  · have hbases := h.chain.bases_ascend h.solid.full
    rwa [List.map_append, List.map_cons, ← hbase, ← List.map_cons, ← List.map_append] at hbases
  · have hall := h.fits
    rw [List.forall_mem_append, List.forall_mem_cons] at hall ⊢
    exact ⟨hall.1, hfits, hall.2.2⟩
  · exact h.holds.recovers_overwrite h.fits hbase hopen

/-- The start of the log does not depend on the damage. -/
theorem LaidOut.logStartOffset_overwrite
    (h : store.LaidOut codec log base (before ++ piece :: after))
    (hbase : left.base = piece.base) {limit : ℕ} {kept dropped : List Piece} {directory : Directory}
    (hopened : LaidOut.Opened codec (store.directory.overwrite piece.base file) limit
      (before ++ left :: after) kept dropped directory) :
    (openOn codec (store.directory.overwrite piece.base file) limit).log.logStartOffset =
      log.start := by
  have hhead : ((before ++ left :: after).head?.map Piece.base).getD 0 = base := by
    have hchain := h.chain
    cases before with
    | nil => exact hbase.trans hchain.1
    | cons first rest => exact hchain.1
  have hpersisted : (store.directory.overwrite piece.base file).loadStartOffset = log.start :=
    h.persisted
  rw [hopened.logStartOffset, hhead, hpersisted]
  exact Nat.max_eq_left h.base_le

/-- A log with a damaged last segment reads as a prefix exactly if the entries up to its start are
left. -/
theorem LaidOut.readsPrefixOf_last_iff (h : store.LaidOut codec log base (before ++ [piece]))
    (hbase : left.base = piece.base) (hfits : left.Fits codec)
    (hentries : piece.entries = left.entries ++ lost.flatten) {limit : ℕ} (hlimit : 1 ≤ limit)
    {kept dropped : List Piece} {directory : Directory}
    (hopened : LaidOut.Opened codec (store.directory.overwrite piece.base file) limit
      (before ++ [left]) kept dropped directory) :
    (openOn codec (store.directory.overwrite piece.base file) limit).ReadsPrefixOf codec log ↔
      log.start ≤ left.endOffset := by
  have hstart := h.logStartOffset_overwrite hbase hopened
  obtain ⟨hbefore, hpiecebase, hpieceentries, -⟩ := Piece.chain_append.mp h.chain
  rw [hentries, consecutive_append] at hpieceentries
  have hchain : Piece.Chain base (before ++ [left]) :=
    Piece.chain_append.mpr ⟨hbefore, hbase.trans hpiecebase, hpieceentries.1, trivial⟩
  have hleft := hchain.endOffset_last.2
  constructor
  · rintro ⟨entries, -, hlength, -⟩
    rw [hstart, hopened.logEndOffset_chain hchain (by simp)] at hlength
    omega
  · intro hreach
    have hpersisted : (store.directory.overwrite piece.base file).loadStartOffset = log.start :=
      h.persisted
    have hinit := (List.forall_mem_append.mp h.fits).1
    have hfull := h.solid.full
    have hlater : ∀ other ∈ (before ++ [left]).tail, log.start ≤ other.base :=
      Piece.later_replace hbase h.later
    rw [List.dropLast_concat] at hfull
    have hlaid := hopened.laidOut hlimit hchain
      (List.forall_mem_append.mpr ⟨hinit, List.forall_mem_singleton.mpr hfits⟩)
      (by rwa [List.dropLast_concat]) (by rw [hpersisted]; exact h.base_le)
      (by rw [hpersisted]; omega) (by rwa [hpersisted])
    refine hlaid.readsPrefixOf ?_
    -- the entries of the damaged piece go last, so what is left is a prefix
    have hcontent : Piece.content (before ++ [piece]) = Piece.content (before ++ [left]) ++
        lost.flatten := by
      rw [Piece.content_append, Piece.content_append, Piece.content_cons, Piece.content_cons,
        Piece.content_nil, List.append_nil, List.append_nil, hentries, List.append_assoc]
    rw [hpersisted, h.visible, hcontent, List.drop_append_of_le_length (by omega)]
    exact List.prefix_append _ _

/-- Within the bounds of the log its entries are those of the pieces. -/
theorem LaidOut.inRange_content (h : store.LaidOut codec log base pieces) :
    Segment.inRange log.start log.endOffset (Piece.content pieces) = log.entries := by
  rw [Segment.inRange, h.chain.consecutive.filter_range_end (Nat.le_of_eq h.endOffset_eq.symm),
    h.visible]

/-- With an undamaged segment at the end, the end of the log does not depend on the damage. -/
theorem LaidOut.logEndOffset_overwrite (h : store.LaidOut codec log base (before ++ piece :: after))
    (hafter : after ≠ []) {limit : ℕ} {kept dropped : List Piece} {directory : Directory}
    (hopened : LaidOut.Opened codec (store.directory.overwrite piece.base file) limit
      (before ++ left :: after) kept dropped directory) :
    (openOn codec (store.directory.overwrite piece.base file) limit).log.logEndOffset =
      log.endOffset := by
  obtain ⟨middle, last, rfl⟩ := (List.eq_nil_or_concat after).resolve_left hafter
  rw [List.concat_eq_append, ← List.cons_append, ← List.append_assoc] at h
  have hsplit := hopened.split
  rw [List.concat_eq_append, ← List.cons_append, ← List.append_assoc] at hsplit
  -- the last segment has entries, so no segment is removed
  have hlast : last.entries ≠ [] := by
    refine h.solid.resolve_left (fun hshort => ?_) last (List.mem_append_right _ List.mem_cons_self)
    simp only [List.length_append, List.length_cons, List.length_nil] at hshort
    omega
  have hnone : dropped = [] := by
    rcases List.eq_nil_or_concat dropped with hnil | ⟨first, final, hdropped⟩
    · exact hnil
    · rw [List.concat_eq_append] at hdropped
      rw [hdropped, ← List.append_assoc] at hsplit
      have hfinal : last = final := (List.append_inj' hsplit rfl).2 |> List.singleton_inj.mp
      have hmem : last ∈ dropped := hdropped ▸ hfinal ▸ List.mem_append_right _ List.mem_cons_self
      exact absurd (hopened.empty last hmem) hlast
  rw [hnone, List.append_nil] at hsplit
  rw [hopened.logEndOffset, ← hsplit, List.getLast?_concat, h.endOffset_eq]
  exact h.chain.endOffset_last.2

/-- A log with a damaged earlier segment reads as a prefix exactly if no visible entry is lost. -/
theorem LaidOut.readsPrefixOf_earlier_iff
    (h : store.LaidOut codec log base (before ++ piece :: after))
    (hafter : after ≠ []) (hbase : left.base = piece.base) (hfits : left.Fits codec)
    (hentries : piece.entries = left.entries ++ lost.flatten) {limit : ℕ}
    {kept dropped : List Piece} {directory : Directory}
    (hopened : LaidOut.Opened codec (store.directory.overwrite piece.base file) limit
      (before ++ left :: after) kept dropped directory) :
    (openOn codec (store.directory.overwrite piece.base file) limit).ReadsPrefixOf codec log ↔
      piece.endOffset ≤ max left.endOffset log.start := by
  have hstart := h.logStartOffset_overwrite hbase hopened
  have hend := h.logEndOffset_overwrite hafter hopened
  have hall := h.fits
  have hoffsets := h.chain.entries
  have hpieceend := (h.chain.bounds (List.mem_append_right before List.mem_cons_self)).2
  rw [← h.endOffset_eq] at hpieceend
  rw [List.forall_mem_append, List.forall_mem_cons] at hall hoffsets
  obtain ⟨hbefore, hpiece, hbehind⟩ := hoffsets
  rw [hentries, consecutive_append, ← hbase] at hpiece
  have hread :=
    hopened.read (List.forall_mem_append.mpr ⟨hall.1, List.forall_mem_cons.mpr ⟨hfits, hall.2.2⟩⟩)
      (List.forall_mem_append.mpr ⟨hbefore, List.forall_mem_cons.mpr ⟨hpiece.1, hbehind⟩⟩)
      log.endOffset
  have hlength : piece.endOffset = left.endOffset + lost.flatten.length := by
    rw [Piece.endOffset, Piece.endOffset, hentries, List.length_append, hbase, Nat.add_assoc]
  have hlost : Segment.inRange log.start log.endOffset lost.flatten = [] ↔
      piece.endOffset ≤ max left.endOffset log.start := by
    have hpart := hpiece.2
    change Consecutive LogEntry.offset left.endOffset lost.flatten at hpart
    rw [Segment.inRange, hpart.filter_range_end (by omega), List.drop_eq_nil_iff]
    omega
  have hentire := h.inRange_content
  rw [Piece.content_append, Piece.content_cons, hentries, List.append_assoc, Segment.inRange_append,
    Segment.inRange_append, Segment.inRange_append] at hentire
  rw [hstart, Piece.content_append, Piece.content_cons, Segment.inRange_append,
    Segment.inRange_append] at hread
  rw [← hlost, ReadsPrefixOf, hstart, hend, hread]
  constructor
  · rintro ⟨entries, hentries', hlong, -⟩
    -- the entries that are read are too few by those that are lost
    have hcount := congrArg List.length hentire
    have hbound : log.endOffset = log.start + log.entries.length := rfl
    rw [← Except.ok.inj hentries'] at hlong
    simp only [List.length_append] at hcount hlong
    exact List.length_eq_zero_iff.mp (by omega)
  · intro hnone
    rw [hnone, List.nil_append] at hentire
    rw [hentire]
    exact ⟨log.entries, rfl, rfl, h.consecutive, List.prefix_refl _⟩

end

/-- For every valid run from a fresh log, every segment file it leaves and every damage to that
file: the log opened afterwards reads as a prefix of the original, without holes, exactly if the
batches in front of the damage suffice. -/
theorem recovery_leaves_prefix_iff (codec : BatchCodec) {limit : ℕ} (hlimit : 1 ≤ limit)
    {ops : List LogOp} (hvalid : AbstractLog.empty.ValidRun codec ops) :
    ∃ store base pieces, (fresh codec limit).run codec ops = .ok store ∧
      store.LaidOut codec (AbstractLog.empty.run ops) base pieces ∧
      ∀ before piece after (damage : Segment.Damage) newLimit, pieces = before ++ piece :: after →
        damage.Breaks codec → 1 ≤ newLimit →
        ((openOn codec (store.directory.overwrite piece.base (damage.file codec piece.batches))
            newLimit).ReadsPrefixOf codec (AbstractLog.empty.run ops) ↔
          Suffices (AbstractLog.empty.run ops) piece after
            (piece.base + (damage.kept codec piece.batches).flatten.length)) := by
  obtain ⟨store, base, pieces, hrun, hstore⟩ := (LaidOut.fresh codec hlimit).run hvalid
  refine ⟨store, base, pieces, hrun, hstore, ?_⟩
  rintro before piece after damage newLimit rfl hbreaks hnewLimit
  have hpiece := hstore.fits piece (List.mem_append_right before List.mem_cons_self)
  obtain ⟨⟨lost, hsplit⟩, hopen⟩ := Segment.Damage.openFile_file hbreaks hpiece.batch piece.base
  set left : Piece := ⟨piece.base, damage.kept codec piece.batches⟩
  have hbase : left.base = piece.base := rfl
  have hleft : left.Fits codec :=
    fun batch hbatch => hpiece batch (hsplit ▸ List.mem_append_left lost hbatch)
  have hentries : piece.entries = left.entries ++ lost.flatten := by
    rw [Piece.entries, ← hsplit, List.flatten_append]
    rfl
  obtain ⟨found, dropped, directory, hopened⟩ :=
    hstore.exists_opened_overwrite hbase hleft hopen newLimit
  rw [Suffices]
  split_ifs with hafter
  · subst hafter
    exact hstore.readsPrefixOf_last_iff hbase hleft hentries hnewLimit hopened
  · exact hstore.readsPrefixOf_earlier_iff hafter hbase hleft hentries hopened

/-- Two batches, each in a segment of its own. -/
def twoSegments : List LogOp :=
  [.append [sampleEntry 0 1, sampleEntry 1 1], .append [sampleEntry 2 1, sampleEntry 3 1]]

/-- The theorem for damage to one of two segments. -/
theorem recovery_leaves_prefix_twoSegments :
    ∃ store base pieces, (fresh bincodeCrc32c 64).run bincodeCrc32c twoSegments = .ok store ∧
      store.LaidOut bincodeCrc32c (AbstractLog.empty.run twoSegments) base pieces ∧
      ∀ before piece after (damage : Segment.Damage) newLimit, pieces = before ++ piece :: after →
        damage.Breaks bincodeCrc32c → 1 ≤ newLimit →
        ((openOn bincodeCrc32c
            (store.directory.overwrite piece.base (damage.file bincodeCrc32c piece.batches))
            newLimit).ReadsPrefixOf bincodeCrc32c (AbstractLog.empty.run twoSegments) ↔
          Suffices (AbstractLog.empty.run twoSegments) piece after
            (piece.base + (damage.kept bincodeCrc32c piece.batches).flatten.length)) :=
  recovery_leaves_prefix_iff bincodeCrc32c (by decide)
    (by decide +kernel : AbstractLog.empty.ValidRun bincodeCrc32c twoSegments)

/-- Without its last byte, the first of two segments is recovered as empty. The log still ends at
four, and reading all of it returns two entries. -/
theorem recovery_leaves_hole :
    let batches := [[sampleEntry 0 1, sampleEntry 1 1]]
    let damage : Segment.Damage := .cut ((bincodeCrc32c.format.frames batches).length - 1)
    let reopened (store : Store) :=
      openOn bincodeCrc32c (store.directory.overwrite 0 (damage.file bincodeCrc32c batches)) 64
    damage.Breaks bincodeCrc32c ∧ damage.kept bincodeCrc32c batches = [] ∧
      ((fresh bincodeCrc32c 64).run bincodeCrc32c twoSegments).toOption.map (fun store =>
        (store.directory.file 0, (reopened store).log.logStartOffset,
          (reopened store).log.logEndOffset,
          ((reopened store).read bincodeCrc32c 0 4).toOption)) =
        some (bincodeCrc32c.format.frames batches, 0, 4,
          some [sampleEntry 2 1, sampleEntry 3 1]) :=
  ⟨trivial, by decide +kernel, by decide +kernel⟩

end Store

end XRaft
