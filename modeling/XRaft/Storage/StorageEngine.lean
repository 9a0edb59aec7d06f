import XRaft.Storage.Bounds
import XRaft.Storage.LeaderEpochCheckpoint
import XRaft.Storage.QuorumStateFile

/-!
# Opening the storage engine

`StorageEngine::open` of `lib.rs` opens the segment log, the quorum state, the snapshots and
the leader-epoch checkpoint of a node. It then replaces the checkpoint by a scan of the log:
for each term, the first offset of a leader change message.

The scan sees what prefix truncation left. The checkpoint covers the retained entries if
each is at or behind a retained leader change of its term, and this fails exactly for the
term of the first retained entry, when its leader change was cut off. The checkpoint file,
which had that epoch, is overwritten.

The snapshot store that `lib.rs` was written against, with `open` and `load_latest`, is not
in the tree; what `load_latest` returns is a parameter.
-/

namespace XRaft

open Lib

/-- The first offset of each term among the leader changes of some entries. -/
def scanEpochs (entries : List LogEntry) : EpochMap :=
  entries.foldl (fun epochs entry =>
    if entry.entryType = .leaderChangeMessage then epochs.insertIfNew entry.term entry.offset
    else epochs) ∅

/-- The external functions that storage depends on. -/
structure StorageCodecs where
  batch : BatchCodec
  quorum : QuorumJson
  epochs : EpochBincode

/-- The files of a node, snapshots apart. -/
structure StorageFiles where
  log : Directory
  quorumState : QuorumStateFile.Files
  leaderEpochs : LeaderEpochCheckpoint.Files

/-- The durable state of a node. -/
structure StorageEngine where
  log : SegmentLog
  quorumState : QuorumStateFile
  leaderEpochs : LeaderEpochCheckpoint
  latestSnapshot : Option Snapshot

/-- The segment size of a log that is opened without one. -/
def SegmentLog.defaultSegmentSizeLimit : ℕ := 64 * 1024 * 1024

namespace StorageEngine

/-- The epochs of an open log, by a scan of its entries. -/
def scanLog (codec : BatchCodec) (log : SegmentLog) (directory : Directory) :
    Except StorageError EpochMap :=
  if log.innerStartOffset < log.innerEndOffset then
    (log.read codec directory log.innerStartOffset log.innerEndOffset).map scanEpochs
  else .ok ∅

/-- Open the storage of a node. -/
def openOn (codecs : StorageCodecs) (loadLatest : Except StorageError (Option Snapshot))
    (files : StorageFiles) : Except StorageError StorageEngine × StorageFiles :=
  let opened := SegmentLog.openWithLimit codecs.batch files.log SegmentLog.defaultSegmentSizeLimit
  let files := { files with log := opened.2 }
  match QuorumStateFile.openFile codecs.quorum files.quorumState with
  | .error e => (.error e, files)
  | .ok quorumState =>
    match loadLatest with
    | .error e => (.error e, files)
    | .ok latestSnapshot =>
      match LeaderEpochCheckpoint.openFile codecs.epochs files.leaderEpochs with
      | .error e => (.error e, files)
      | .ok _ =>
        -- what the file held is replaced, whatever the log has
        match scanLog codecs.batch opened.1 files.log with
        | .error e => (.error e, files)
        | .ok epochMap =>
          let rebuilt := LeaderEpochCheckpoint.rebuild codecs.epochs epochMap files.leaderEpochs
          let files := { files with leaderEpochs := rebuilt.2.2 }
          (rebuilt.1.map fun _ => ⟨opened.1, quorumState, rebuilt.2.1, latestSnapshot⟩, files)

/-- The checkpoint covers the entries of the log: each is of a known epoch that starts at or
before it. -/
def Covers (codec : BatchCodec) (engine : StorageEngine) (files : StorageFiles) : Prop :=
  ∃ entries, engine.log.read codec files.log engine.log.logStartOffset engine.log.logEndOffset =
    .ok entries ∧
    ∀ entry ∈ entries, ∃ startOffset,
      engine.leaderEpochs.lookupLe entry.term = some (entry.term, startOffset) ∧
      startOffset ≤ entry.offset

end StorageEngine

/-- A leader change of a term. -/
def LogEntry.announces (term : ℕ) (entry : LogEntry) : Bool :=
  entry.entryType = .leaderChangeMessage && entry.term == term

/-- An entry announces its own term only, as a leader change. -/
theorem LogEntry.announces_iff {entry : LogEntry} {term : ℕ} :
    entry.announces term = true ↔ entry.entryType = .leaderChangeMessage ∧ entry.term = term := by
  simp [announces]

/-- An epoch that is already in the map keeps its offset. -/
theorem getElem?_insertIfNew_epoch (epochs : EpochMap) (epoch offset term : ℕ) :
    (epochs.insertIfNew epoch offset)[term]? =
      epochs[term]?.or (if epoch = term then some offset else none) := by
  rw [Std.ExtTreeMap.getElem?_insertIfNew]
  simp only [Nat.compare_eq_eq]
  by_cases hterm : epoch = term
  · subst hterm
    by_cases hmem : epoch ∈ epochs
    · rw [if_neg (fun hnew => hnew.2 hmem), Std.ExtTreeMap.getElem?_eq_some_getElem hmem,
        Option.some_or]
    · rw [if_pos ⟨rfl, hmem⟩, if_pos rfl, Std.ExtTreeMap.getElem?_eq_none hmem, Option.none_or]
  · rw [if_neg (fun hnew => hterm hnew.1), if_neg hterm, Option.or_none]

/-- The scan finds the first leader change of each term. -/
theorem getElem?_scanEpochs (entries : List LogEntry) (term : ℕ) :
    (scanEpochs entries)[term]? =
      (entries.find? (LogEntry.announces term)).map LogEntry.offset := by
  have hscan : ∀ epochs : EpochMap,
      (entries.foldl (fun epochs entry => if entry.entryType = .leaderChangeMessage then
        epochs.insertIfNew entry.term entry.offset else epochs) epochs)[term]? =
      epochs[term]?.or ((entries.find? (LogEntry.announces term)).map LogEntry.offset) := by
    induction entries with
    | nil => simp
    | cons entry rest ih =>
      intro epochs
      rw [List.foldl_cons, ih]
      by_cases hhere : entry.announces term = true
      · obtain ⟨htype, hterm⟩ := LogEntry.announces_iff.mp hhere
        rw [List.find?_cons_of_pos hhere, if_pos htype, getElem?_insertIfNew_epoch, if_pos hterm,
          Option.or_assoc, Option.some_or, Option.map_some]
      · rw [List.find?_cons_of_neg hhere]
        by_cases htype : entry.entryType = .leaderChangeMessage
        · have hterm : entry.term ≠ term :=
            fun hterm => hhere (LogEntry.announces_iff.mpr ⟨htype, hterm⟩)
          rw [if_pos htype, getElem?_insertIfNew_epoch, if_neg hterm, Option.or_none]
        · rw [if_neg htype]
  rw [scanEpochs, hscan, Std.ExtTreeMap.getElem?_empty, Option.none_or]

/-- Each entry is at or behind a leader change of its term. -/
def EpochsAnnounced (entries : List LogEntry) : Prop :=
  ∀ entry ∈ entries, ∃ change ∈ entries, change.announces entry.term ∧ change.offset ≤ entry.offset

/-- Two announced parts are announced together. -/
theorem EpochsAnnounced.append {first second : List LogEntry} (hfirst : EpochsAnnounced first)
    (hsecond : EpochsAnnounced second) : EpochsAnnounced (first ++ second) := by
  intro entry hentry
  rcases List.mem_append.mp hentry with hentry | hentry
  · obtain ⟨change, hmem, hchange⟩ := hfirst entry hentry
    exact ⟨change, List.mem_append_left second hmem, hchange⟩
  · obtain ⟨change, hmem, hchange⟩ := hsecond entry hentry
    exact ⟨change, List.mem_append_right first hmem, hchange⟩

/-- A leader change announces what follows it in its term. -/
theorem announced_cons {change : LogEntry} {others : List LogEntry}
    (htype : change.entryType = .leaderChangeMessage)
    (hterm : ∀ entry ∈ others, entry.term = change.term)
    (hascend : (change :: others).Pairwise fun first second => first.offset < second.offset) :
    EpochsAnnounced (change :: others) := by
  intro entry hentry
  rcases List.mem_cons.mp hentry with rfl | hother
  · exact ⟨entry, List.mem_cons_self, LogEntry.announces_iff.mpr ⟨htype, rfl⟩, le_rfl⟩
  · exact ⟨change, List.mem_cons_self,
      LogEntry.announces_iff.mpr ⟨htype, (hterm entry hother).symm⟩,
      ((List.pairwise_cons.mp hascend).1 entry hother).le⟩

/-- A scan covers entries with ascending offsets exactly if each is announced. -/
theorem scanEpochs_covers_iff {entries : List LogEntry}
    (hascend : entries.Pairwise fun first second => first.offset < second.offset) :
    (∀ entry ∈ entries, ∃ startOffset,
      (LeaderEpochCheckpoint.mk (scanEpochs entries)).lookupLe entry.term =
        some (entry.term, startOffset) ∧
      startOffset ≤ entry.offset) ↔ EpochsAnnounced entries := by
  refine forall₂_congr fun entry _ => ?_
  simp only [LeaderEpochCheckpoint.lookupLe_eq_self_iff, LeaderEpochCheckpoint.lookup,
    getElem?_scanEpochs, Option.map_eq_some_iff]
  constructor
  · rintro ⟨startOffset, ⟨change, hfind, rfl⟩, hle⟩
    exact ⟨change, List.mem_of_find?_eq_some hfind, List.find?_some hfind, hle⟩
  · rintro ⟨change, hmem, hannounces, hle⟩
    have hexists : (entries.find? (LogEntry.announces entry.term)).isSome :=
      List.find?_isSome.mpr ⟨change, hmem, hannounces⟩
    obtain ⟨first, hfind⟩ := Option.isSome_iff_exists.mp hexists
    refine ⟨first.offset, ⟨first, hfind, rfl⟩, le_trans ?_ hle⟩
    -- the first leader change of the term is not behind any other
    obtain ⟨-, before, behind, rfl, hbefore⟩ := List.find?_eq_some_iff_append.mp hfind
    rcases List.mem_append.mp hmem with hearly | hmem
    · exact absurd hannounces (by simpa using hbefore change hearly)
    · rcases List.mem_cons.mp hmem with rfl | hlate
      · exact le_rfl
      · exact ((List.pairwise_cons.mp (List.pairwise_append.mp hascend).2.1).1 change hlate).le

/-- A leader's tenure: a leader change and further entries of its term. -/
structure Tenure where
  change : LogEntry
  others : List LogEntry
  announces : change.entryType = .leaderChangeMessage
  sameTerm : ∀ entry ∈ others, entry.term = change.term

namespace Tenure

/-- All entries of a tenure. -/
def entries (tenure : Tenure) : List LogEntry := tenure.change :: tenure.others

/-- The entries of a tenure are of one term. -/
theorem term_eq (tenure : Tenure) {entry : LogEntry} (h : entry ∈ tenure.entries) :
    entry.term = tenure.change.term := by
  rcases List.mem_cons.mp h with rfl | hother
  · rfl
  · exact tenure.sameTerm entry hother

/-- Whole tenures are announced. -/
theorem announced_flatMap {tenures : List Tenure}
    (hascend : (tenures.flatMap entries).Pairwise fun first second =>
      first.offset < second.offset) :
    EpochsAnnounced (tenures.flatMap entries) := by
  induction tenures with
  | nil => simp [EpochsAnnounced]
  | cons tenure rest ih =>
    rw [List.flatMap_cons] at hascend ⊢
    obtain ⟨hown, hothers, -⟩ := List.pairwise_append.mp hascend
    exact (announced_cons tenure.announces tenure.sameTerm hown).append (ih hothers)

/-- What is left of some tenures when the front is cut off is announced exactly if it begins with
a leader change. -/
theorem announced_drop_iff (tenures : List Tenure) (cut : ℕ)
    (hascend : ((tenures.flatMap entries).drop cut).Pairwise fun first second =>
      first.offset < second.offset) :
    EpochsAnnounced ((tenures.flatMap entries).drop cut) ↔
      ∀ first ∈ ((tenures.flatMap entries).drop cut).head?,
      first.entryType = .leaderChangeMessage := by
  constructor
  · intro hannounced first hfirst
    obtain ⟨rest, hrest⟩ := List.head?_eq_some_iff.mp hfirst
    rw [hrest] at hannounced hascend
    -- a leader change that is not behind the first entry is the first entry
    obtain ⟨change, hchange, hannounces, hle⟩ := hannounced first List.mem_cons_self
    rcases List.mem_cons.mp hchange with rfl | hlate
    · exact (LogEntry.announces_iff.mp hannounces).1
    · exact absurd hle (Nat.not_le.mpr ((List.pairwise_cons.mp hascend).1 change hlate))
  · intro hfirst
    induction tenures generalizing cut with
    | nil => simp [EpochsAnnounced]
    | cons tenure rest ih =>
      rw [List.flatMap_cons, List.drop_append] at hascend hfirst ⊢
      obtain ⟨hown, hothers, -⟩ := List.pairwise_append.mp hascend
      cases hleft : tenure.entries.drop cut with
      | nil =>
        rw [hleft, List.nil_append] at hfirst
        exact ih _ hothers hfirst
      | cons first left =>
        rw [hleft] at hfirst hown
        have hcut : cut - tenure.entries.length = 0 := by
          have hlength := congrArg List.length hleft
          rw [List.length_drop, List.length_cons] at hlength
          omega
        rw [hcut, List.drop_zero] at hothers ⊢
        have hmem : ∀ entry ∈ first :: left, entry ∈ tenure.entries :=
          fun entry hentry => List.mem_of_mem_drop (hleft ▸ hentry)
        have hsame : ∀ entry ∈ left, entry.term = first.term := fun entry hentry =>
          (tenure.term_eq (hmem entry (List.mem_cons_of_mem first hentry))).trans
            (tenure.term_eq (hmem first List.mem_cons_self)).symm
        exact (announced_cons (hfirst first rfl) hsame hown).append (announced_flatMap hothers)

end Tenure

namespace StorageEngine

variable {codecs : StorageCodecs} {store : Store} {log : AbstractLog} {base : ℕ}
  {pieces : List Piece}

/-- The scan of a laid out log is that of its entries. -/
theorem scanLog_eq (h : store.LaidOut codecs.batch log base pieces) :
    scanLog codecs.batch store.log store.directory = .ok (scanEpochs log.entries) := by
  have hread := h.read_whole
  unfold Store.read at hread
  rw [scanLog, h.innerStart, h.innerEnd, hread]
  split_ifs with hempty
  · rfl
  · have hnil : log.entries = [] := by
      rw [AbstractLog.endOffset] at hempty
      exact List.eq_nil_of_length_eq_zero (by omega)
    rw [hnil]
    rfl

/-- The content of the checkpoint file can be read. -/
def Readable (bincode : EpochBincode) (files : LeaderEpochCheckpoint.Files) : Prop :=
  ∀ data ∈ files.target, data = [] ∨ ∃ epochs, bincode.deserialize data = .ok epochs

/-- The checkpoint opens exactly if its file can be read. -/
theorem exists_openFile_iff (bincode : EpochBincode) (files : LeaderEpochCheckpoint.Files) :
    (∃ checkpoint, LeaderEpochCheckpoint.openFile bincode files = .ok checkpoint) ↔
      Readable bincode files := by
  unfold LeaderEpochCheckpoint.openFile Readable
  cases htarget : files.target with
  | none => simp
  | some data =>
    cases data with
    | nil => simp
    | cons byte rest => cases hdata : bincode.deserialize (byte :: rest) <;> simp [hdata]

/-- Opening the files of a laid out log, with the other components in order, gives the log and the
scan of its entries, if the checkpoint file can be read. -/
theorem openOn_laidOut (h : store.LaidOut codecs.batch log base pieces) {files : StorageFiles}
    (hlog : files.log = store.directory) {quorumState : QuorumStateFile}
    (hquorum : QuorumStateFile.openFile codecs.quorum files.quorumState = .ok quorumState)
    (hserialize : ∀ epochs, ∃ data, codecs.epochs.serialize epochs = .ok data)
    (latestSnapshot : Option Snapshot) (hreadable : Readable codecs.epochs files.leaderEpochs) :
    ∃ opened files', openOn codecs (.ok latestSnapshot) files =
        (.ok ⟨opened, quorumState, ⟨scanEpochs log.entries⟩, latestSnapshot⟩, files') ∧
      (Store.mk opened files'.log).LaidOut codecs.batch log base pieces := by
  have hopened := h.reopen (by decide : 1 ≤ SegmentLog.defaultSegmentSizeLimit)
  obtain ⟨checkpoint, hcheckpoint⟩ :=
    (exists_openFile_iff codecs.epochs files.leaderEpochs).mpr hreadable
  obtain ⟨data, hdata⟩ := hserialize (scanEpochs log.entries)
  have hscan := scanLog_eq hopened
  unfold Store.openOn at hopened hscan
  unfold openOn
  rw [hlog]
  simp only [hquorum, hcheckpoint, hscan, LeaderEpochCheckpoint.rebuild,
    LeaderEpochCheckpoint.persist, hdata]
  exact ⟨_, _, rfl, hopened⟩

/-- A storage engine that opens has read its checkpoint file. -/
theorem readable_of_openOn {files after : StorageFiles} {engine : StorageEngine}
    {loadLatest : Except StorageError (Option Snapshot)}
    (hopen : openOn codecs loadLatest files = (.ok engine, after)) :
    Readable codecs.epochs files.leaderEpochs := by
  rw [← exists_openFile_iff]
  cases hcheckpoint : LeaderEpochCheckpoint.openFile codecs.epochs files.leaderEpochs with
  | ok checkpoint => exact ⟨checkpoint, rfl⟩
  | error e =>
    unfold openOn at hopen
    simp only [hcheckpoint] at hopen
    split at hopen
    · nomatch hopen
    · split at hopen <;> nomatch hopen

/-- An engine on a laid out log covers it exactly if the entries are announced. -/
theorem covers_iff {engine : StorageEngine} {files : StorageFiles}
    (h : (Store.mk engine.log files.log).LaidOut codecs.batch log base pieces)
    (hepochs : engine.leaderEpochs = ⟨scanEpochs log.entries⟩) :
    engine.Covers codecs.batch files ↔ EpochsAnnounced log.entries := by
  have hread : engine.log.read codecs.batch files.log engine.log.logStartOffset
      engine.log.logEndOffset = .ok log.entries := by
    rw [SegmentLog.logStartOffset, SegmentLog.logEndOffset, h.startAtomic, h.endAtomic]
    exact h.read_whole
  rw [← scanEpochs_covers_iff h.consecutive.ascend, Covers, hread, hepochs]
  simp

/-- Appends and a prefix truncation, on a list of entries. -/
theorem run_appends_truncatePrefix (batches : List (List LogEntry)) (cut : ℕ) :
    AbstractLog.empty.run (batches.map .append ++ [.truncatePrefix cut]) =
      ⟨cut, batches.flatten.drop cut⟩ := by
  have happends : ∀ entries, (batches.map LogOp.append).foldl AbstractLog.step ⟨0, entries⟩ =
      ⟨0, entries ++ batches.flatten⟩ := by
    induction batches with
    | nil => simp
    | cons batch rest ih =>
      intro entries
      rw [List.map_cons, List.foldl_cons, AbstractLog.step, ih, List.flatten_cons,
        List.append_assoc]
  rw [AbstractLog.run, List.foldl_append, AbstractLog.empty, happends]
  rfl

/-- After the tenures of some leaders were appended, in any batches, and the log was cut at any
offset in it: opening the storage of the node succeeds with a checkpoint that covers the retained
entries exactly if the checkpoint file can be read and the first retained entry is a leader
change. -/
theorem covers_retained_iff (codecs : StorageCodecs)
    (hserialize : ∀ epochs, ∃ data, codecs.epochs.serialize epochs = .ok data) {limit : ℕ}
    (hlimit : 1 ≤ limit) {tenures : List Tenure} {batches : List (List LogEntry)}
    (hbuilt : batches.flatten = tenures.flatMap Tenure.entries) {cut : ℕ}
    (hvalid : AbstractLog.empty.ValidRun codecs.batch (batches.map .append ++
      [.truncatePrefix cut])) :
    ∃ store, (Store.fresh codecs.batch limit).run codecs.batch
    (batches.map .append ++ [.truncatePrefix cut]) =
        .ok store ∧
      ∀ (files : StorageFiles) (quorumState : QuorumStateFile) (latestSnapshot : Option Snapshot),
        files.log = store.directory →
        QuorumStateFile.openFile codecs.quorum files.quorumState = .ok quorumState →
          ((∃ engine after, openOn codecs (.ok latestSnapshot) files = (.ok engine, after) ∧
              engine.Covers codecs.batch after) ↔
            Readable codecs.epochs files.leaderEpochs ∧
              ∀ first ∈ (batches.flatten.drop cut).head?,
              first.entryType = .leaderChangeMessage) := by
  obtain ⟨store, base, pieces, hrun, hstore⟩ := (Store.LaidOut.fresh codecs.batch hlimit).run hvalid
  rw [run_appends_truncatePrefix] at hstore
  refine ⟨store, hrun, fun files quorumState latestSnapshot hlog hquorum => ?_⟩
  have hcut : EpochsAnnounced (batches.flatten.drop cut) ↔
      ∀ first ∈ (batches.flatten.drop cut).head?, first.entryType = .leaderChangeMessage := by
    rw [hbuilt]
    exact Tenure.announced_drop_iff tenures cut (hbuilt ▸ hstore.consecutive.ascend)
  rw [← hcut]
  constructor
  · rintro ⟨engine, after, hopen, hcovers⟩
    have hreadable := readable_of_openOn hopen
    obtain ⟨opened, files', hopened, hlaidOut⟩ :=
      openOn_laidOut hstore hlog hquorum hserialize latestSnapshot hreadable
    rw [hopen] at hopened
    cases hopened
    exact ⟨hreadable, (covers_iff hlaidOut rfl).mp hcovers⟩
  · rintro ⟨hreadable, hannounced⟩
    obtain ⟨opened, files', hopened, hlaidOut⟩ :=
      openOn_laidOut hstore hlog hquorum hserialize latestSnapshot hreadable
    exact ⟨_, files', hopened, (covers_iff hlaidOut rfl).mpr hannounced⟩

/-- Read so many epochs; of two offsets for one epoch the later one counts. -/
def decodeEpochs : ℕ → Bytes → Except String EpochMap
  | 0, _ => .ok ∅
  | count + 1, bytes => do
    let (epoch, bytes) ← Bincode.decodeU64 bytes
    let (offset, bytes) ← Bincode.decodeU64 bytes
    let epochs ← decodeEpochs count bytes
    return epochs.insertIfNew epoch offset

/-- The layout that the `bincode` crate gives a map: its size and its entries in order. -/
def epochBincode : EpochBincode where
  serialize epochs := .ok (Bincode.encodeU64 epochs.size ++
    epochs.toList.flatMap fun entry => Bincode.encodeU64 entry.1 ++ Bincode.encodeU64 entry.2)
  deserialize bytes := do
    let (count, rest) ← Bincode.decodeU64 bytes
    decodeEpochs (min count (rest.length + 1)) rest

/-- Codecs to run the model with, for a node that has not saved a quorum state. -/
def sampleCodecs : StorageCodecs where
  batch := bincodeCrc32c
  quorum := ⟨fun _ => .error "unsupported", fun _ => .error "unsupported", fun _ _ h => nomatch h⟩
  epochs := epochBincode

/-- A leader change followed by one command. -/
def shortTenure (offset term : ℕ) : Tenure where
  change := ⟨offset, term, .leaderChangeMessage, []⟩
  others := [Store.sampleEntry (offset + 1) term]
  announces := rfl
  sameTerm entry hentry := by rw [List.mem_singleton.mp hentry]; rfl

/-- The files of a node with a segment log and the content of the checkpoint file. -/
def filesWith (directory : Directory) (checkpoint : Option Bytes) : StorageFiles :=
  ⟨directory, ⟨none, fun _ => none⟩, ⟨checkpoint, fun _ => none⟩⟩

/-- A log that is cut where the second leader starts is covered. -/
theorem covers_retained_second :
    ∃ store, (Store.fresh bincodeCrc32c 64).run bincodeCrc32c
        ([.append (shortTenure 0 1).entries, .append (shortTenure 2 2).entries] ++
          [.truncatePrefix 2]) = .ok store ∧
      ∃ engine after, openOn sampleCodecs (.ok none) (filesWith store.directory none) =
        (.ok engine, after) ∧
        engine.Covers bincodeCrc32c after := by
  have hbuilt : [(shortTenure 0 1).entries, (shortTenure 2 2).entries].flatten =
      [shortTenure 0 1, shortTenure 2 2].flatMap Tenure.entries := rfl
  have hvalid : AbstractLog.empty.ValidRun sampleCodecs.batch
      ([(shortTenure 0 1).entries, (shortTenure 2 2).entries].map .append ++
        [.truncatePrefix 2]) := by
    decide +kernel
  obtain ⟨store, hrun, hcovers⟩ :=
    covers_retained_iff sampleCodecs (fun _ => ⟨_, rfl⟩) (by decide : 1 ≤ 64) hbuilt hvalid
  refine ⟨store, hrun, (hcovers (filesWith store.directory none) ⟨none⟩ none rfl rfl).mpr ⟨?_, ?_⟩⟩
  · exact fun data hdata => nomatch hdata
  · decide

/-- The log of one leader, cut behind its leader change, beside a checkpoint file that knows the
epoch. -/
def compacted : StorageFiles :=
  let filled :=
    (Store.fresh bincodeCrc32c 64).attempt bincodeCrc32c (.append (shortTenure 0 1).entries)
  filesWith (filled.attempt bincodeCrc32c (.truncatePrefix 1)).directory
    (epochBincode.serialize ((∅ : EpochMap).insert 1 0)).toOption

/-- The checkpoint file has the epoch of the retained entry, and opening the storage loses it. -/
theorem epoch_lost :
    ((LeaderEpochCheckpoint.openFile epochBincode compacted.leaderEpochs).toOption.map
      fun checkpoint =>
        checkpoint.lookupLe 1) = some (some (1, 0)) ∧
      ((openOn sampleCodecs (.ok none) compacted).1.toOption.map fun engine =>
        (engine.log.read bincodeCrc32c (openOn sampleCodecs (.ok none) compacted).2.log
          engine.log.logStartOffset
          engine.log.logEndOffset).toOption) = some (some [Store.sampleEntry 1 1]) ∧
      ((openOn sampleCodecs (.ok none) compacted).1.toOption.map fun engine =>
        engine.leaderEpochs.lookupLe 1) = some none := by
  decide +kernel

end StorageEngine

end XRaft
