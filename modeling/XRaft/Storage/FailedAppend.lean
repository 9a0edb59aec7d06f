import XRaft.Lib.Runs
import XRaft.Storage.Refinement

/-!
# Appends that fail

An append that returns an error may have left a part of its frame in the segment file, or
all of it. The segment's bookkeeping is not updated, and nothing removes the bytes. Reads
stop where the bookkeeping says the file ends, and a restart cuts the bytes off or counts
them as a batch, so they do no harm until the next append: that one writes behind them,
while reads and the bookkeeping expect it in their place.

Every acknowledged entry is kept as long as no append finds such bytes, that is, as long as
the log is reopened between a failed append that left some and the next append.
-/

namespace XRaft

open Lib

/-- An append that returns an error once some bytes of its frame are in the file. A segment that
was created for the batch stays. -/
def SegmentLog.appendFailed (codec : BatchCodec) (log : SegmentLog) (directory : Directory)
    (entries : List LogEntry) (count : ℕ) : SegmentLog × Directory :=
  match entries with
  | [] => (log, directory)
  | first :: _ =>
    if first.offset ≠ log.innerEndOffset then (log, directory)
    else
      let target := log.writableSegment codec directory first.offset
      let file := target.2.2.file target.2.1.baseOffset
      ({ log with segments := target.1 ++ [target.2.1] },
        target.2.2.edit target.2.1.baseOffset
        [.writeAt file.length ((codec.format.frame entries).take count)])

/-- A call on a log whose writes may fail. -/
inductive AppendCall where
  | append (entries : List LogEntry)
  | failedAppend (entries : List LogEntry) (count : ℕ)
  | reopen (segmentSizeLimit : ℕ)
  deriving DecidableEq, Repr

/-- A log and the entries whose append returned successfully. -/
structure AppendSession where
  store : Store
  acked : List LogEntry
  deriving DecidableEq, Repr

namespace AppendSession

/-- The effect of a call. -/
def step (codec : BatchCodec) (session : AppendSession) : AppendCall → AppendSession
  | .append entries =>
    match session.store.step codec (.append entries) with
    | .ok after => ⟨after, session.acked ++ entries⟩
    | .error _ => session
  | .failedAppend entries count =>
    let after := session.store.log.appendFailed codec session.store.directory entries count
    { session with store := ⟨after.1, after.2⟩ }
  | .reopen segmentSizeLimit =>
    { session with store := Store.openOn codec session.store.directory segmentSizeLimit }

/-- The last segment file ends where the bookkeeping says. -/
def NoRemains (session : AppendSession) : Prop :=
  ∀ segment ∈ session.store.log.segments.getLast?,
    (session.store.directory.file segment.baseOffset).length = segment.size

instance (session : AppendSession) : Decidable session.NoRemains :=
  inferInstanceAs (Decidable (∀ segment ∈ session.store.log.segments.getLast?, _))

/-- Batches continue the log and fit their frames. -/
def Continues (codec : BatchCodec) (session : AppendSession) (entries : List LogEntry) : Prop :=
  Consecutive LogEntry.offset session.store.log.logEndOffset entries ∧ ∀ part ∈ entries.inits,
    codec.format.Fits part

instance (codec : BatchCodec) (session : AppendSession) (entries : List LogEntry) :
    Decidable (session.Continues codec entries) :=
  inferInstanceAs (Decidable (_ ∧ _))

/-- Batches continue the log, and no append finds bytes that a failed one left. -/
def Admits (codec : BatchCodec) (session : AppendSession) : AppendCall → Prop
  | .append entries => session.Continues codec entries ∧ session.NoRemains
  | .failedAppend entries _ => session.Continues codec entries ∧ session.NoRemains
  | .reopen segmentSizeLimit => 1 ≤ segmentSizeLimit

instance (codec : BatchCodec) (session : AppendSession) :
    (call : AppendCall) → Decidable (session.Admits codec call)
  | .append _ => inferInstanceAs (Decidable (_ ∧ _))
  | .failedAppend _ _ => inferInstanceAs (Decidable (_ ∧ _))
  | .reopen _ => inferInstanceAs (Decidable (_ ≤ _))

end AppendSession

namespace Store

/-- Every read of a range with the offset of the entry returns the entry, and no other one at that
offset. -/
def Returns (codec : BatchCodec) (store : Store) (entry : LogEntry) : Prop :=
  ∀ startOffset endOffset, startOffset ≤ entry.offset → entry.offset < endOffset →
    ∃ entries, store.read codec startOffset endOffset = .ok entries ∧
      entries.filter (fun other => other.offset == entry.offset) = [entry]

end Store

/-- Reads return the acknowledged entries, in the same process and after a restart. -/
def AppendSession.KeepsAcked (codec : BatchCodec) (session : AppendSession) : Prop :=
  ∀ entry ∈ session.acked, session.store.Returns codec entry ∧
    ∀ limit, 1 ≤ limit → (Store.openOn codec session.store.directory limit).Returns codec entry

namespace Store

variable {codec : BatchCodec} {store : Store} {log : AbstractLog} {base : ℕ} {pieces : List Piece}

/-- A log that reads as a list of consecutive entries returns each of them. -/
theorem returns_of_read {entry : LogEntry}
    (hconsecutive : Consecutive LogEntry.offset log.start log.entries)
    (hread : ∀ startOffset endOffset, store.read codec startOffset endOffset =
      .ok (Segment.inRange (max startOffset log.start) endOffset log.entries))
    (hentry : entry ∈ log.entries) : store.Returns codec entry := by
  intro startOffset endOffset hfrom hto
  refine ⟨_, hread startOffset endOffset, ?_⟩
  have hlow := (hconsecutive.key_bounds hentry).1
  obtain ⟨left, right, heq⟩ := List.append_of_mem hentry
  rw [heq, consecutive_append, consecutive_cons] at hconsecutive
  obtain ⟨hleft, hoffset, hright⟩ := hconsecutive
  -- the entries on either side have other offsets
  have hbefore : ∀ other ∈ left, other.offset ≠ entry.offset := by
    intro other hother
    have hbound := (hleft.key_bounds hother).2
    omega
  have hbehind : ∀ other ∈ right, other.offset ≠ entry.offset := by
    intro other hother
    have hbound := (hright.key_bounds hother).1
    omega
  have hin : Segment.inRange (max startOffset log.start) endOffset [entry] = [entry] := by
    apply List.filter_eq_self.mpr
    intro other hother
    rw [List.mem_singleton.mp hother, Bool.and_eq_true, decide_eq_true_eq, decide_eq_true_eq]
    omega
  have hnone : ∀ part : List LogEntry, (∀ other ∈ part, other.offset ≠ entry.offset) →
      (Segment.inRange (max startOffset log.start) endOffset part).filter
        (fun other => other.offset == entry.offset) = [] := by
    intro part hpart
    apply List.filter_eq_nil_iff.mpr
    intro other hother heq
    exact hpart other (List.mem_of_mem_filter hother) (eq_of_beq heq)
  rw [heq, ← List.singleton_append, Segment.inRange_append, Segment.inRange_append, hin,
    List.filter_append, List.filter_append, hnone left hbefore, hnone right hbehind,
    List.nil_append, List.append_nil, List.filter_singleton, BEq.rfl]
  rfl

/-- Reading stops where the bookkeeping ends, so bytes behind the last segment do not show. -/
theorem Shows.returns (h : store.Shows codec log base pieces) {directory : Directory}
    (hfiles : ∀ piece ∈ pieces, ∃ rest, directory.file piece.base = piece.file codec ++ rest)
    {entry : LogEntry} (hentry : entry ∈ log.entries) :
    (Store.mk store.log directory).Returns codec entry :=
  returns_of_read h.consecutive (fun startOffset endOffset =>
    h.read_on hfiles startOffset endOffset) hentry

/-- Opening a directory in which the pieces are recovered with some more entries behind them. -/
theorem Shows.reopen_on (h : store.Shows codec log base pieces) {limit : ℕ} (hlimit : 1 ≤ limit)
    {directory : Directory} (hpersisted : directory.loadStartOffset = log.start)
    {recovered : List Piece} (hrecovers : directory.Recovers codec recovered)
    (hchain : Piece.Chain base recovered) (hfits : ∀ piece ∈ recovered, piece.Fits codec)
    (hfull : ∀ piece ∈ recovered.dropLast, piece.entries ≠ [])
    (hlater : ∀ piece ∈ recovered.tail, log.start ≤ piece.base) {new : List LogEntry}
    (hcontent : Piece.content recovered = Piece.content pieces ++ new) :
    ∃ found, (openOn codec directory limit).LaidOut codec ⟨log.start,
      log.entries ++ new⟩ base found := by
  obtain ⟨found, dropped, after, hopened⟩ :=
    LaidOut.exists_opened (hchain.bases_ascend hfull) hfits hrecovers limit
  have hlow := h.base_le
  have hhigh := h.start_le
  have hlaid := hopened.laidOut hlimit hchain hfits hfull (by rw [hpersisted]; exact hlow)
    (by rw [hpersisted, hcontent, List.length_append]; omega) (by rw [hpersisted]; exact hlater)
  rw [hpersisted, hcontent, List.drop_append_of_le_length (by omega), ← h.visible] at hlaid
  exact ⟨found, hlaid⟩

/-- The log shows its entries, and the last segment file ends with a part of the frame of a failed
append. -/
structure Interrupted (codec : BatchCodec) (store : Store) (log : AbstractLog) (base : ℕ)
    (init : List Piece) (last : Piece) (clean : Directory) (batch : List LogEntry) (count : ℕ) :
    Prop where
  shows : (Store.mk store.log clean).Shows codec log base (init ++ [last])
  directory : store.directory =
    clean.overwrite last.base (last.file codec ++ (codec.format.frame batch).take count)
  nonempty : batch ≠ []
  continues : Consecutive LogEntry.offset log.endOffset batch
  fits : ∀ part ∈ batch.inits, codec.format.Fits part

/-- The log shows its entries, possibly with bytes of a failed append behind the last segment. -/
inductive Holding (codec : BatchCodec) (store : Store) (log : AbstractLog) (base : ℕ) : Prop where
  | settled {pieces : List Piece} (h : store.Shows codec log base pieces)
  | interrupted {init : List Piece} {last : Piece} {clean : Directory}
      {batch : List LogEntry} {count : ℕ}
      (h : store.Interrupted codec log base init last clean batch count)

namespace Interrupted

variable {init : List Piece} {last : Piece} {clean : Directory} {batch : List LogEntry} {count : ℕ}

/-- The files start with the batches of the pieces, the last one followed by the bytes that were
left. -/
theorem starts (h : store.Interrupted codec log base init last clean batch count) :
    ∀ piece ∈ init ++ [last], ∃ rest, store.directory.file piece.base = piece.file codec ++
      rest := by
  intro piece hpiece
  have hfile := h.shows.holds.file hpiece
  rw [h.directory, Directory.file, Directory.overwrite, lookup_put]
  split_ifs with hbase
  · have hsame : piece = last := List.inj_on_of_nodup_map h.shows.holds.nodup hpiece
      (List.mem_append_right init List.mem_cons_self) hbase
    exact ⟨_, by rw [hsame]; rfl⟩
  · exact ⟨[], hfile.trans (List.append_nil _).symm⟩

/-- Without bytes behind the last segment the log is as if the append had not been called. -/
theorem shows_of_noRemains (h : store.Interrupted codec log base init last clean batch count)
    (hnone : (store.directory.file last.base).length = (last.segment codec).size) :
    store.Shows codec log base (init ++ [last]) := by
  have hshows := h.shows
  have hbytes : (codec.format.frame batch).take count = [] := by
    rw [h.directory, Directory.file, Directory.overwrite, lookup_put, if_pos rfl, Option.getD_some,
      List.length_append] at hnone
    exact List.length_eq_zero_iff.mp (Nat.add_eq_left.mp hnone)
  have hdirectory := h.directory
  rw [hbytes, List.append_nil] at hdirectory
  have hholds : store.directory.Holds codec (init ++ [last]) := by
    rw [hdirectory]
    exact hshows.holds.put rfl
  have hpersisted : store.directory.loadStartOffset = log.start := by
    rw [hdirectory]
    exact hshows.persisted
  exact ⟨hshows.limit, hshows.chain, hshows.fits, hshows.full, hholds, hshows.segments, hpersisted,
    hshows.innerStart, hshows.startAtomic, hshows.innerEnd, hshows.endAtomic, hshows.base_le,
    hshows.start_le, hshows.visible, hshows.later⟩

/-- Recovery finds the batches of the last piece, and the new one if its frame is whole. -/
theorem exists_recovered (h : store.Interrupted codec log base init last clean batch count) :
    ∃ kept lost : List (List LogEntry), batch = kept.flatten ++ lost.flatten ∧
      (Piece.mk last.base (last.batches ++ kept)).Fits codec ∧
      Segment.openFile codec (last.file codec ++ (codec.format.frame batch).take count) last.base =
        ((Piece.mk last.base (last.batches ++ kept)).segment codec,
          (Piece.mk last.base (last.batches ++ kept)).file codec) := by
  have hlast := h.shows.fits last (List.mem_append_right init List.mem_cons_self)
  have hparts : ∀ part, part <+: batch → codec.format.Fits part :=
    fun part hpart => h.fits part ((List.mem_inits part batch).mpr hpart)
  obtain ⟨lost, rest, hsplit, htake, hrest, -⟩ :=
    Format.exists_cut_frame (List.forall_mem_singleton.mpr (hparts batch (List.prefix_refl batch)))
      count
  set kept := wholeWithin codec.format.frame count [batch]
  have hfits : (Piece.mk last.base (last.batches ++ kept)).Fits codec := by
    intro other hother
    rcases List.mem_append.mp hother with hold | hnew
    · exact hlast other hold
    · have hsame : other ∈ [batch] := hsplit ▸ List.mem_append_left lost hnew
      rw [List.mem_singleton.mp hsame]
      exact ⟨h.nonempty, hparts⟩
  have hfile : last.file codec ++ (codec.format.frame batch).take count =
      codec.format.frames (last.batches ++ kept) ++ rest := by
    rw [Format.frames_cons, Format.frames_nil, List.append_nil] at htake
    rw [htake, Format.frames_append, List.append_assoc]
    rfl
  refine ⟨kept, lost, ?_, hfits, ?_⟩
  · rw [← List.flatten_append, ← hsplit, List.flatten_singleton]
  · rw [hfile]
    exact Segment.openFile_unreadable hfits.batch hrest last.base

/-- What a restart makes of a failed append: a batch if all of its frame was written, else
nothing. -/
theorem reopen (h : store.Interrupted codec log base init last clean batch count) {limit : ℕ}
    (hlimit : 1 ≤ limit) :
    ∃ new found, (openOn codec store.directory limit).LaidOut codec ⟨log.start,
      log.entries ++ new⟩ base found := by
  have hshows := h.shows
  obtain ⟨kept, lost, hbatch, hleft, hopen⟩ := h.exists_recovered
  set left : Piece := ⟨last.base, last.batches ++ kept⟩
  have hbase : left.base = last.base := rfl
  have hentries : left.entries = last.entries ++ kept.flatten := List.flatten_append
  obtain ⟨hinitchain, hlastbase, hlastentries, -⟩ := Piece.chain_append.mp hshows.chain
  have hchain : Piece.Chain base (init ++ [left]) := by
    have hreach := hshows.chain.endOffset_last.2
    have hnew := h.continues
    rw [hbatch, consecutive_append, hshows.endOffset_eq, ← hreach] at hnew
    refine Piece.chain_append.mpr ⟨hinitchain, hlastbase, ?_, trivial⟩
    rw [hentries, consecutive_append, ← hlastbase]
    exact ⟨hlastbase ▸ hlastentries, hnew.1⟩
  have hcontent : Piece.content (init ++ [left]) = Piece.content (init ++ [last]) ++
      kept.flatten := by
    rw [Piece.content_append, Piece.content_append, Piece.content_cons, Piece.content_cons,
      Piece.content_nil, List.append_nil, List.append_nil, hentries, List.append_assoc]
  have hfull : ∀ piece ∈ (init ++ [left]).dropLast, piece.entries ≠ [] := by
    have hold := hshows.full
    rwa [List.dropLast_concat] at hold ⊢
  have hfits := (List.forall_mem_append.mp hshows.fits).1
  have hrecovers := hshows.holds.recovers_overwrite hshows.fits hbase hopen
  have hpersisted : store.directory.loadStartOffset = log.start := by
    rw [h.directory]
    exact hshows.persisted
  rw [← h.directory] at hrecovers
  exact ⟨kept.flatten, hshows.reopen_on hlimit hpersisted hrecovers hchain
    (List.forall_mem_append.mpr ⟨hfits, List.forall_mem_singleton.mpr hleft⟩) hfull
    (Piece.later_replace hbase hshows.later) hcontent⟩

end Interrupted

/-- An append that fails on a log without remains interrupts it. -/
theorem Shows.appendFailed (h : store.Shows codec log base pieces) {first : LogEntry}
    {rest : List LogEntry} (hvalid : (LogOp.append (first :: rest)).Valid codec log) (count : ℕ) :
    ∃ init last clean,
    (Store.mk (store.log.appendFailed codec store.directory (first :: rest) count).1
      (store.log.appendFailed codec store.directory (first :: rest) count).2).Interrupted codec log
      base init last
        clean (first :: rest) count := by
  obtain ⟨hconsecutive, hfits⟩ := hvalid
  obtain ⟨init, last, htarget⟩ := LaidOut.writableSegment_target h
  have hfirst : first.offset = log.endOffset := ((consecutive_cons _ _ _).mp hconsecutive).1
  set target := store.log.writableSegment codec store.directory log.endOffset with htargetdef
  have hlastfile : target.2.2.file last.base = last.file codec :=
    htarget.holds.file (List.mem_append_right _ List.mem_cons_self)
  have hbase : (last.segment codec).baseOffset = last.base := rfl
  have heq : store.log.appendFailed codec store.directory (first :: rest) count =
      ({ store.log with segments := (init ++ [last]).map (Piece.segment codec) },
        target.2.2.overwrite last.base
        (last.file codec ++ (codec.format.frame (first :: rest)).take count)) := by
    rw [SegmentLog.appendFailed, if_neg (not_not_intro (hfirst.trans h.innerEnd.symm)), hfirst,
      ← htargetdef]
    simp only [htarget.segments, htarget.segment, hbase, hlastfile, Directory.edit,
      FileOp.applyAll_cons, FileOp.applyAll_nil, FileOp.apply_writeAt_end, List.map_append,
      List.map_singleton]
    rfl
  rw [heq]
  refine ⟨init, last, target.2.2, ⟨h.limit, htarget.chain, htarget.fits, ?_, htarget.holds, rfl,
    (Directory.loadStartOffset_congr htarget.startOffset).trans h.persisted, h.innerStart,
    h.startAtomic, h.innerEnd, h.endAtomic, h.base_le, ?_, ?_, ?_⟩, rfl,
    List.cons_ne_nil first rest, hconsecutive, hfits⟩
  · rw [List.dropLast_concat]
    exact htarget.full
  · rw [htarget.content]
    exact h.start_le
  · rw [htarget.content]
    exact h.visible
  · intro piece hpiece
    rcases htarget.bases piece hpiece with hold | hnew
    · exact h.later piece hold
    · rw [hnew]
      exact h.start_le

namespace Holding

/-- A log that holds its entries returns them. -/
theorem returns (h : store.Holding codec log base) {entry : LogEntry}
    (hentry : entry ∈ log.entries) : store.Returns codec entry := by
  cases h with
  | settled h => exact h.returns h.holds.starts hentry
  | interrupted h => exact h.shows.returns h.starts hentry

/-- A restart keeps the entries, and may add those of a failed append behind them. -/
theorem reopen (h : store.Holding codec log base) {limit : ℕ} (hlimit : 1 ≤ limit) :
    ∃ new found, (openOn codec store.directory limit).LaidOut codec ⟨log.start,
      log.entries ++ new⟩ base found := by
  cases h with
  | settled h =>
    exact ⟨[],
      h.reopen_on hlimit h.persisted (h.holds.recovers h.fits) h.chain h.fits h.full h.later
      (List.append_nil _).symm⟩
  | interrupted h => exact h.reopen hlimit

/-- Without bytes behind the last segment there is nothing left of a failed append. -/
theorem settle (h : store.Holding codec log base) {acked : List LogEntry}
    (hnone : (AppendSession.mk store acked).NoRemains) :
    ∃ pieces, store.Shows codec log base pieces := by
  cases h with
  | settled h => exact ⟨_, h⟩
  | @interrupted init last clean batch count h =>
    refine ⟨init ++ [last], h.shows_of_noRemains (hnone (last.segment codec) ?_)⟩
    have hsegments : store.log.segments = _ := h.shows.segments
    rw [hsegments, List.map_append, List.map_singleton, List.getLast?_concat]
    rfl

/-- The bounds of a log that holds its entries. -/
theorem logEndOffset (h : store.Holding codec log base) :
    store.log.logEndOffset = log.endOffset := by
  cases h with
  | settled h => exact h.endAtomic
  | interrupted h => exact h.shows.endAtomic

end Holding

end Store

namespace AppendSession

variable {codec : BatchCodec} {session : AppendSession}

/-- The log holds the acknowledged entries. -/
def Kept (codec : BatchCodec) (session : AppendSession) : Prop :=
  ∃ log base, (∀ entry ∈ session.acked, entry ∈ log.entries) ∧ session.store.Holding codec log base

/-- Entries that are held are returned now and after a restart. -/
theorem Kept.keepsAcked (h : session.Kept codec) : session.KeepsAcked codec := by
  obtain ⟨log, base, hacked, hholding⟩ := h
  intro entry hentry
  refine ⟨hholding.returns (hacked entry hentry), fun limit hlimit => ?_⟩
  obtain ⟨new, found, hlaid⟩ := hholding.reopen hlimit
  exact (Store.Holding.settled hlaid.toShows).returns
    (List.mem_append_left new (hacked entry hentry))

/-- Calls that do not append behind remains keep the acknowledged entries. -/
theorem Kept.step (h : session.Kept codec) {call : AppendCall}
    (hadmits : session.Admits codec call) : (session.step codec call).Kept codec := by
  obtain ⟨log, base, hacked, hholding⟩ := h
  cases call with
  | append entries =>
    obtain ⟨⟨hconsecutive, hfits⟩, hnone⟩ := hadmits
    rw [hholding.logEndOffset] at hconsecutive
    obtain ⟨pieces, hshows⟩ := hholding.settle hnone
    cases entries with
    | nil =>
      have hsame : session.step codec (.append []) = session := by
        change AppendSession.mk session.store (session.acked ++ []) = session
        rw [List.append_nil]
      rw [hsame]
      exact ⟨log, base, hacked, hholding⟩
    | cons first rest =>
      obtain ⟨after, pieces', hstep, hafter⟩ :=
        Store.LaidOut.append_cons hshows ⟨hconsecutive, hfits⟩
      refine ⟨log.step (.append (first :: rest)), base, ?_, ?_⟩
      · rw [AppendSession.step, hstep]
        intro entry hentry
        rcases List.mem_append.mp hentry with hold | hnew
        · exact List.mem_append_left _ (hacked entry hold)
        · exact List.mem_append_right _ hnew
      · rw [AppendSession.step, hstep]
        exact .settled hafter.toShows
  | failedAppend entries count =>
    obtain ⟨⟨hconsecutive, hfits⟩, hnone⟩ := hadmits
    rw [hholding.logEndOffset] at hconsecutive
    obtain ⟨pieces, hshows⟩ := hholding.settle hnone
    cases entries with
    | nil => exact ⟨log, base, hacked, hholding⟩
    | cons first rest =>
      obtain ⟨init, last, clean, hinterrupted⟩ := hshows.appendFailed ⟨hconsecutive, hfits⟩ count
      exact ⟨log, base, hacked, .interrupted hinterrupted⟩
  | reopen limit =>
    obtain ⟨new, found, hlaid⟩ := hholding.reopen hadmits
    exact ⟨_, base, fun entry hentry => List.mem_append_left new (hacked entry hentry),
      .settled hlaid.toShows⟩

/-- For every log that valid operations lead to and every sequence of appends, failed appends and
restarts from there: as long as no append finds bytes of a failed one behind the last segment,
every acknowledged entry is returned, and no other at its offset, by all later reads and after
every restart. -/
theorem acked_kept_of_noRemains (codec : BatchCodec) {limit : ℕ} (hlimit : 1 ≤ limit)
    {ops : List LogOp} (hvalid : AbstractLog.empty.ValidRun codec ops) :
    ∃ store, (Store.fresh codec limit).run codec ops = .ok store ∧
      (AppendSession.mk store (AbstractLog.empty.run ops).entries).KeepsAcked codec ∧
      ∀ calls,
        Along (step codec) (Admits codec) ⟨store, (AbstractLog.empty.run ops).entries⟩ calls →
        Along (step codec) (fun session call => (session.step codec call).KeepsAcked codec)
          ⟨store, (AbstractLog.empty.run ops).entries⟩ calls := by
  obtain ⟨store, base, pieces, hrun, hstore⟩ := (Store.LaidOut.fresh codec hlimit).run hvalid
  have hkept : (AppendSession.mk store (AbstractLog.empty.run ops).entries).Kept codec :=
    ⟨_, base, fun _ hentry => hentry, .settled hstore.toShows⟩
  refine ⟨store, hrun, hkept.keepsAcked, fun calls hcalls => ?_⟩
  refine along_of_keeps (step codec) (Kept codec) (fun session call hsession hcall => ?_)
    hkept hcalls
  have hnext := hsession.step hcall
  exact ⟨hnext, hnext.keepsAcked⟩

/-- A log with one entry. -/
def oneEntry : Store :=
  ((Store.fresh bincodeCrc32c 64).run bincodeCrc32c [.append [Store.sampleEntry 0 1]]).toOption.getD
    (Store.fresh bincodeCrc32c 64)

/-- A failed append whose remains a restart removes, another batch in its place, and a failed
append that left nothing before it is repeated. -/
def harmlessCalls : List AppendCall :=
  [.failedAppend [Store.sampleEntry 1 1] 20, .reopen 64, .append [Store.sampleEntry 1 2],
    .failedAppend [Store.sampleEntry 2 2] 0, .append [Store.sampleEntry 2 2]]

/-- Failed appends that leave nothing for the next append to find do no harm. -/
theorem acked_kept_harmlessCalls :
    Along (step bincodeCrc32c)
      (fun session call => (session.step bincodeCrc32c call).KeepsAcked bincodeCrc32c)
      ⟨oneEntry, [Store.sampleEntry 0 1]⟩ harmlessCalls := by
  obtain ⟨store, hrun, -, hkept⟩ := acked_kept_of_noRemains bincodeCrc32c (show 1 ≤ 64 by decide)
    (show AbstractLog.empty.ValidRun bincodeCrc32c [.append [Store.sampleEntry 0 1]]
      by decide +kernel)
  have hstore : store = oneEntry := by
    rw [oneEntry, hrun]
    rfl
  subst hstore
  exact hkept harmlessCalls (by decide +kernel)

/-- If five bytes of a failed append stay and the append is repeated, the repeated append
succeeds; reads fail and a restart loses the entry. If a failed append wrote its whole frame and
another entry is appended at its offset, reads return the entry of the failed append in its
place. -/
theorem acked_lost :
    let session : AppendSession := ⟨oneEntry, [Store.sampleEntry 0 1]⟩
    let torn := session.step bincodeCrc32c (.failedAppend [Store.sampleEntry 1 1] 5)
    let repeated := torn.step bincodeCrc32c (.append [Store.sampleEntry 1 1])
    let whole := session.step bincodeCrc32c (.failedAppend [Store.sampleEntry 1 1] 49)
    let replaced := whole.step bincodeCrc32c (.append [Store.sampleEntry 1 2])
    repeated.acked = [Store.sampleEntry 0 1, Store.sampleEntry 1 1] ∧
      (repeated.store.read bincodeCrc32c 0 2).toOption = none ∧
      ((Store.openOn bincodeCrc32c repeated.store.directory 64).read bincodeCrc32c 0 2).toOption =
        some [Store.sampleEntry 0 1] ∧
      replaced.acked = [Store.sampleEntry 0 1, Store.sampleEntry 1 2] ∧
      (replaced.store.read bincodeCrc32c 0 2).toOption =
        some [Store.sampleEntry 0 1, Store.sampleEntry 1 1] := by
  decide +kernel

end AppendSession

end XRaft
