import Mathlib.Logic.Encodable.Basic
import XRaft.Storage.StorageEngine
import XRaft.Storage.StoresAgree

/-!
# The storage of a node over its lifetimes

A node opens its storage, uses its log, saves its quorum state, adds leader epochs, and is
stopped and started again. A save may fail at any of its steps, or the process may crash in
it. What the components hold is a record of three values: the log, the quorum state that
was saved last and the leader epochs. Epochs that were added live until the next start,
which replaces them by those of the leader changes in the log.

Calls that change the log run to their end here; what is left of them otherwise is the
subject of other modules.
-/

namespace XRaft

open Lib

/-- The operation on a segment log that a call is. -/
def LogOperation.op : LogOperation → LogOp
  | .append entries => .append entries
  | .truncateSuffix fromOffset => .truncateSuffix fromOffset
  | .truncatePrefix upToOffset => .truncatePrefix upToOffset

/-- Something that happens to the storage of a node: a call that changes its log, a save that
completes or stops at a step, a new epoch whose file is replaced or not, a crash in a save before
or after the rename, or a stop. The last two are followed by a start. -/
inductive StorageEvent where
  | log (operation : LogOperation)
  | save (processId : ℕ) (state : QuorumState) (stop : Option (ReplaceStop String))
  | epoch (epoch startOffset : ℕ) (stop : Option (ReplaceStop Bytes))
  | crash (processId : ℕ) (state : QuorumState) (stop : Option (ReplaceStop String))
      (latest : Option Snapshot)
  | restart (latest : Option Snapshot)

/-- What the storage of a node is for: a log, the last quorum state and the leader epochs. -/
structure StorageRecord where
  log : AbstractLog
  quorumState : Option QuorumState
  epochs : EpochMap

namespace StorageRecord

/-- A node that has not stored anything. -/
def empty : StorageRecord := ⟨.empty, none, ∅⟩

/-- A save counts if its rename took place. -/
def save (record : StorageRecord) (state : QuorumState) :
    Option (ReplaceStop String) → StorageRecord
  | none => { record with quorumState := some state }
  | some _ => record

/-- A start finds the epochs of the log. -/
def start (record : StorageRecord) : StorageRecord :=
  { record with epochs := scanEpochs record.log.entries }

/-- What an event does. -/
def step (record : StorageRecord) : StorageEvent → StorageRecord
  | .log operation => { record with log := record.log.step operation.op }
  | .save _ state stop => record.save state stop
  | .epoch epoch startOffset _ => { record with epochs := record.epochs.insert epoch startOffset }
  | .crash _ state stop _ => (record.save state stop).start
  | .restart _ => record.start

end StorageRecord

/-- Calls are valid on the log. -/
def StorageEvent.Admits (codec : BatchCodec) (record : StorageRecord) : StorageEvent → Prop
  | .log operation => operation.op.Valid codec record.log
  | _ => True

instance (codec : BatchCodec) (record : StorageRecord) :
    (event : StorageEvent) → Decidable (event.Admits codec record)
  | .log operation => inferInstanceAs (Decidable (operation.op.Valid codec record.log))
  | .save .. | .epoch .. | .crash .. | .restart .. => isTrue trivial

/-- An open storage engine and its files. -/
structure StorageNode where
  engine : StorageEngine
  files : StorageFiles

namespace StorageNode

variable (codecs : StorageCodecs)

/-- Open the storage on some files. -/
def openOn (latest : Option Snapshot) (files : StorageFiles) : Except StorageError StorageNode :=
  match StorageEngine.openOn codecs (.ok latest) files with
  | (.ok engine, files) => .ok ⟨engine, files⟩
  | (.error e, _) => .error e

/-- How a save ends that stops at a step with an error, or completes. -/
def saveFate : Option (ReplaceStop String) → QuorumStateFile.Fate
  | none => .completes
  | some stop => .fails stop "stopped"

/-- How a save ends in a crash. -/
def crashFate : Option (ReplaceStop String) → QuorumStateFile.Fate
  | none => .crashesAfterRename
  | some stop => .crashes stop

/-- A call of `save` on the quorum state, with what it leaves in memory and on disk. -/
def save (node : StorageNode) (processId : ℕ) (state : QuorumState) (fate : QuorumStateFile.Fate) :
    StorageNode :=
  let saved := node.engine.quorumState.save codecs.quorum processId state fate
  { engine := { node.engine with quorumState := saved.file }
    files :=
      { node.files with quorumState := ReplaceOp.applyAll saved.ops node.files.quorumState } }

/-- A call of `append` on the epochs. If the file is not replaced, the epoch is in memory all the
same. -/
def appendEpoch (node : StorageNode) (epoch startOffset : ℕ) :
    Option (ReplaceStop Bytes) → StorageNode
  | none =>
    let appended :=
      node.engine.leaderEpochs.append codecs.epochs epoch startOffset node.files.leaderEpochs
    { engine := { node.engine with leaderEpochs := appended.2.1 }
      files := { node.files with leaderEpochs := appended.2.2 } }
  | some stop =>
    let epochs := node.engine.leaderEpochs.epochs.insert epoch startOffset
    let ops := match codecs.epochs.serialize epochs with
      | .ok data => replaceOps () data (some stop)
      | .error _ => []
    { engine := { node.engine with leaderEpochs := ⟨epochs⟩ }
      files := { node.files with leaderEpochs := ReplaceOp.applyAll ops node.files.leaderEpochs } }

/-- The node after an event. Errors of saves and epochs are returned to their callers, and the
node goes on. -/
def step (node : StorageNode) : StorageEvent → Except StorageError StorageNode
  | .log operation => do
    let after ← (Store.mk node.engine.log node.files.log).step codecs.batch operation.op
    return {
      engine := { node.engine with log := after.log }
      files := { node.files with log := after.directory } }
  | .save processId state stop => .ok (node.save codecs processId state (saveFate stop))
  | .epoch epoch startOffset stop => .ok (node.appendEpoch codecs epoch startOffset stop)
  | .crash processId state stop latest =>
    openOn codecs latest (node.save codecs processId state (crashFate stop)).files
  | .restart latest => openOn codecs latest node.files

/-- The node keeps a record: in its log, in memory and in the files that a start reads. -/
structure Keeps (node : StorageNode) (record : StorageRecord) : Prop where
  log : ∃ base pieces,
    (Store.mk node.engine.log node.files.log).LaidOut codecs.batch record.log base pieces
  cached : node.engine.quorumState = ⟨record.quorumState⟩
  saved : QuorumStateFile.openFile codecs.quorum node.files.quorumState = .ok ⟨record.quorumState⟩
  epochs : node.engine.leaderEpochs = ⟨record.epochs⟩
  readable : StorageEngine.Readable codecs.epochs node.files.leaderEpochs

/-- The codecs write everything, and can read what they wrote. -/
structure Total : Prop where
  quorum : ∀ state, ∃ text, codecs.quorum.toStringPretty state = .ok text
  epochs : ∀ epochs, ∃ data found, codecs.epochs.serialize epochs = .ok data ∧
    codecs.epochs.deserialize data = .ok found

variable {codecs} {node : StorageNode} {record : StorageRecord}

/-- A checkpoint file that was replaced can be read. -/
theorem readable_replace {epochs : EpochMap} {data : Bytes}
    (hback : codecs.epochs.deserialize data = .ok epochs) (files : LeaderEpochCheckpoint.Files) :
    StorageEngine.Readable codecs.epochs (ReplaceOp.applyAll (replaceOps () data none) files) := by
  intro found hfound
  rw [target_replace, Option.mem_some_iff] at hfound
  exact Or.inr ⟨epochs, hfound ▸ hback⟩

/-- Opening files that hold a record gives a node that keeps it as a start finds it. -/
theorem openOn_keeps (htotal : Total codecs) {files : StorageFiles} {base : ℕ} {pieces : List Piece}
    (hlog : (Store.openOn codecs.batch files.log SegmentLog.defaultSegmentSizeLimit).LaidOut
      codecs.batch record.log
      base pieces)
    (hquorum : QuorumStateFile.openFile codecs.quorum files.quorumState = .ok ⟨record.quorumState⟩)
    (hreadable : StorageEngine.Readable codecs.epochs files.leaderEpochs)
    (latest : Option Snapshot) :
    ∃ node, openOn codecs latest files = .ok node ∧ node.Keeps codecs record.start := by
  obtain ⟨checkpoint, hcheckpoint⟩ :=
    (StorageEngine.exists_openFile_iff codecs.epochs files.leaderEpochs).mpr hreadable
  obtain ⟨data, found, hdata, hback⟩ := htotal.epochs (scanEpochs record.log.entries)
  have hscan := StorageEngine.scanLog_eq hlog
  unfold Store.openOn at hlog hscan
  unfold openOn StorageEngine.openOn
  simp only [hquorum, hcheckpoint, hscan, LeaderEpochCheckpoint.rebuild,
    LeaderEpochCheckpoint.persist, hdata]
  exact ⟨_, rfl, ⟨base, pieces, hlog⟩, rfl, hquorum, rfl, readable_replace hback _⟩

/-- A save leaves the state in memory and on disk if it renames, and nothing otherwise. -/
theorem Keeps.save (htotal : Total codecs) (h : node.Keeps codecs record) (processId : ℕ)
    (state : QuorumState) (stop : Option (ReplaceStop String)) :
    (node.save codecs processId state (saveFate stop)).Keeps codecs (record.save state stop) := by
  obtain ⟨text, htext⟩ := htotal.quorum state
  cases stop with
  | none =>
    have hsaved : node.engine.quorumState.save codecs.quorum processId state (saveFate none) =
        ⟨some (.ok ()), ⟨some state⟩, replaceOps processId text none⟩ := by
      rw [QuorumStateFile.save, htext]
      rfl
    unfold StorageNode.save
    rw [hsaved]
    exact ⟨h.log, rfl, QuorumStateFile.openFile_of_target htext (target_replace _ _ _), h.epochs,
      h.readable⟩
  | some stop =>
    have hsaved : node.engine.quorumState.save codecs.quorum processId state
        (saveFate (some stop)) =
        ⟨some (.error (.io "stopped")), node.engine.quorumState,
          replaceOps processId text (some stop)⟩ := by
      rw [QuorumStateFile.save, htext]
      rfl
    unfold StorageNode.save
    rw [hsaved]
    exact ⟨h.log, h.cached,
      (QuorumStateFile.openFile_congr (target_replace_stopped _ _ _ _)).trans h.saved, h.epochs,
      h.readable⟩

/-- A save that ends in a crash leaves the files as the same save without one. -/
theorem files_crash (node : StorageNode) (processId : ℕ) (state : QuorumState)
    (stop : Option (ReplaceStop String)) :
    (node.save codecs processId state (crashFate stop)).files =
      (node.save codecs processId state (saveFate stop)).files := by
  unfold StorageNode.save QuorumStateFile.save
  cases codecs.quorum.toStringPretty state <;> cases stop <;> rfl

/-- A new epoch is in memory, and the file can be read whether it was replaced or not. -/
theorem Keeps.appendEpoch (htotal : Total codecs) (h : node.Keeps codecs record)
    (epoch startOffset : ℕ) (stop : Option (ReplaceStop Bytes)) :
    (node.appendEpoch codecs epoch startOffset stop).Keeps codecs
      { record with epochs := record.epochs.insert epoch startOffset } := by
  have hepochs : node.engine.leaderEpochs.epochs = record.epochs := congrArg _ h.epochs
  obtain ⟨data, found, hdata, hback⟩ := htotal.epochs (record.epochs.insert epoch startOffset)
  unfold StorageNode.appendEpoch
  cases stop with
  | none =>
    simp only [LeaderEpochCheckpoint.append, LeaderEpochCheckpoint.rebuild,
      LeaderEpochCheckpoint.persist, hepochs, hdata]
    exact ⟨h.log, h.cached, h.saved, rfl, readable_replace hback _⟩
  | some stop =>
    simp only [hepochs, hdata]
    refine ⟨h.log, h.cached, h.saved, rfl, fun found hfound => h.readable found ?_⟩
    rw [target_replace_stopped] at hfound
    exact hfound

/-- A start of a node that keeps a record succeeds. -/
theorem Keeps.start (htotal : Total codecs) (h : node.Keeps codecs record)
    (latest : Option Snapshot) :
    ∃ after, openOn codecs latest node.files = .ok after ∧ after.Keeps codecs record.start := by
  obtain ⟨base, pieces, hlog⟩ := h.log
  exact openOn_keeps htotal (hlog.reopen (by decide)) h.saved h.readable latest

/-- Every admissible event succeeds and does to the record what it says. -/
theorem Keeps.step (htotal : Total codecs) (h : node.Keeps codecs record) {event : StorageEvent}
    (hadmits : event.Admits codecs.batch record) :
    ∃ after, node.step codecs event = .ok after ∧ after.Keeps codecs (record.step event) := by
  cases event with
  | log operation =>
    obtain ⟨base, pieces, hlog⟩ := h.log
    obtain ⟨after, base', pieces', hstep, hafter⟩ := hlog.step hadmits
    refine ⟨⟨{ node.engine with log := after.log }, { node.files with log := after.directory }⟩, ?_,
      ⟨base', pieces', hafter⟩, h.cached, h.saved, h.epochs, h.readable⟩
    rw [StorageNode.step, hstep]
    rfl
  | save processId state stop => exact ⟨_, rfl, h.save htotal processId state stop⟩
  | epoch epoch startOffset stop => exact ⟨_, rfl, h.appendEpoch htotal epoch startOffset stop⟩
  | crash processId state stop latest =>
    rw [StorageNode.step, files_crash]
    exact (h.save htotal processId state stop).start htotal latest
  | restart latest => exact h.start htotal latest

/-- Files that no process has used yet, up to temporary files. -/
def unused (quorumTemps : ℕ → Option String) (epochTemps : Unit → Option Bytes) : StorageFiles :=
  ⟨.empty, ⟨none, quorumTemps⟩, ⟨none, epochTemps⟩⟩

/-- Opening unused files gives a node that keeps an empty record. -/
theorem openOn_unused (htotal : Total codecs) (quorumTemps : ℕ → Option String)
    (epochTemps : Unit → Option Bytes) (latest : Option Snapshot) :
    ∃ first, openOn codecs latest (unused quorumTemps epochTemps) = .ok first ∧
      first.Keeps codecs StorageRecord.empty.start := by
  have hfresh : (Store.openOn codecs.batch (unused quorumTemps epochTemps).log
      SegmentLog.defaultSegmentSizeLimit).LaidOut codecs.batch StorageRecord.empty.log 0 [] :=
    .fresh codecs.batch (by decide)
  have hreadable : StorageEngine.Readable codecs.epochs
      (unused quorumTemps epochTemps).leaderEpochs :=
    fun _ hnone => nomatch hnone
  exact openOn_keeps htotal hfresh rfl hreadable latest

/-- Whatever a node does with its storage, however saves fail and however often it crashes in one
or is started again: every call on the log and every start succeeds, and log, quorum state and
epochs are what the record says. A start now would find the log and the quorum state as they are,
and the epochs of the leader changes in the log. -/
theorem lifetimes_refine (htotal : Total codecs) (quorumTemps : ℕ → Option String)
    (epochTemps : Unit → Option Bytes) (latest : Option Snapshot) {events : List StorageEvent}
    (hevents : Along StorageRecord.step (fun record event => event.Admits codecs.batch record)
      .empty events) :
    ∃ first node, openOn codecs latest (unused quorumTemps epochTemps) = .ok first ∧
      events.foldlM (StorageNode.step codecs) first = .ok node ∧
      let record := events.foldl StorageRecord.step .empty
      (Store.mk node.engine.log node.files.log).Represents codecs.batch record.log ∧
      node.engine.quorumState.load = record.quorumState ∧
      (∀ epoch, node.engine.leaderEpochs.lookup epoch = record.epochs[epoch]?) ∧
      ∀ later, ∃ started, openOn codecs later node.files = .ok started ∧
        (Store.mk started.engine.log started.files.log).Represents codecs.batch record.log ∧
        started.engine.quorumState.load = record.quorumState ∧
        started.engine.leaderEpochs.epochs = scanEpochs record.log.entries := by
  obtain ⟨first, hfirst, hkeeps⟩ := openOn_unused htotal quorumTemps epochTemps latest
  obtain ⟨node, hnode, hlast⟩ := foldlM_refines StorageRecord.step (Keeps codecs)
    (fun _ _ _ hrelated hadmits => hrelated.step htotal hadmits) hkeeps hevents
  refine ⟨first, node, hfirst, hnode, ?_, ?_, ?_, fun later => ?_⟩
  · obtain ⟨base, pieces, hlog⟩ := hlast.log
    exact hlog.represents
  · rw [QuorumStateFile.load, hlast.cached]
    rfl
  · intro epoch
    rw [LeaderEpochCheckpoint.lookup, hlast.epochs]
    rfl
  · obtain ⟨started, hstarted, hafter⟩ := hlast.start htotal later
    obtain ⟨base, pieces, hlog⟩ := hafter.log
    refine ⟨started, hstarted, hlog.represents, ?_, ?_⟩
    · rw [QuorumStateFile.load, hafter.cached]
      rfl
    · rw [hafter.epochs]
      rfl

end StorageNode

namespace Bincode

/-- Eight bytes are an integer. -/
theorem decodeU64_of_le {bytes : Bytes} (h : 8 ≤ bytes.length) :
    ∃ value, decodeU64 bytes = .ok (value, bytes.drop 8) := by
  rw [decodeU64, take, readExact, if_pos h]
  exact ⟨_, rfl⟩

/-- An integer that was written is read back up to its eight bytes. -/
theorem decodeU64_encodeU64 (value : ℕ) (rest : Bytes) :
    decodeU64 (encodeU64 value ++ rest) = .ok (value % 2 ^ 64, rest) := by
  have hdigits : (encodeU64 value).foldr (fun byte high => byte.toNat + 2 ^ 8 * high) 0 =
      value % 2 ^ 64 := by
    simp only [encodeU64, List.range, List.range.loop, List.map_cons, List.map_nil, List.foldr_cons,
      List.foldr_nil, UInt8.toNat_ofNat']
    omega
  have hlength : 8 = (encodeU64 value).length := rfl
  rw [decodeU64, take, readExact_append hlength]
  exact congrArg (fun number => Except.ok (number, rest)) hdigits

end Bincode

namespace StorageEngine

/-- Sixteen bytes for each epoch can be read as so many epochs. -/
theorem decodeEpochs_of_le {count : ℕ} {bytes : Bytes} (h : 16 * count ≤ bytes.length) :
    ∃ epochs, decodeEpochs count bytes = .ok epochs := by
  induction count generalizing bytes with
  | zero => exact ⟨∅, rfl⟩
  | succ count ih =>
    obtain ⟨epoch, hepoch⟩ := Bincode.decodeU64_of_le (by omega : 8 ≤ bytes.length)
    obtain ⟨offset, hoffset⟩ :=
      Bincode.decodeU64_of_le (by rw [List.length_drop]; omega : 8 ≤ (bytes.drop 8).length)
    obtain ⟨epochs, hepochs⟩ :=
      ih (by simp only [List.length_drop]; omega : 16 * count ≤ ((bytes.drop 8).drop 8).length)
    refine ⟨epochs.insertIfNew epoch offset, ?_⟩
    simp only [decodeEpochs, bind, Except.bind, hepoch, hoffset, hepochs]
    rfl

/-- What is written of a map of epochs can be read. -/
theorem epochBincode_readable (epochs : EpochMap) :
    ∃ data found, epochBincode.serialize epochs = .ok data ∧
      epochBincode.deserialize data = .ok found := by
  have hlength : ∀ entries : List (ℕ × ℕ), (entries.flatMap fun entry =>
      Bincode.encodeU64 entry.1 ++ Bincode.encodeU64 entry.2).length = 16 * entries.length := by
    intro entries
    induction entries with
    | nil => rfl
    | cons entry others ih =>
      rw [List.flatMap_cons, List.length_append, ih, List.length_cons, Nat.mul_succ, Nat.add_comm]
      rfl
  have hsize := hlength epochs.toList
  rw [Std.ExtTreeMap.length_toList] at hsize
  generalize hrest :
      (epochs.toList.flatMap fun entry => Bincode.encodeU64 entry.1 ++ Bincode.encodeU64 entry.2) =
      rest
    at hsize
  have hcount : epochs.size % 2 ^ 64 ≤ epochs.size := Nat.mod_le _ _
  obtain ⟨found, hfound⟩ := decodeEpochs_of_le
    (by omega : 16 * min (epochs.size % 2 ^ 64) (rest.length + 1) ≤ rest.length)
  refine ⟨_, found, rfl, ?_⟩
  simp only [epochBincode, bind, Except.bind, hrest, Bincode.decodeU64_encodeU64]
  exact hfound

end StorageEngine

namespace StorageNode

/-- Some total function from quorum states to texts, with its inverse. -/
def unaryJson : QuorumJson where
  toStringPretty state := .ok (String.ofList (List.replicate
    (Encodable.encode (state.currentTerm, state.votedFor, state.leaderId, state.leaderEpoch,
      state.clusterId)) '1'))
  fromStr text :=
    match (Encodable.decode text.length : Option (ℕ × Option ℕ × Option ℕ × ℕ × ℕ)) with
    | some (currentTerm, votedFor, leaderId, leaderEpoch, clusterId) =>
      .ok ⟨currentTerm, votedFor, leaderId, leaderEpoch, clusterId⟩
    | none => .error "not a quorum state"
  fromStr_toStringPretty state text h := by
    cases h
    simp

/-- Codecs that write everything. -/
def totalCodecs : StorageCodecs := ⟨bincodeCrc32c, unaryJson, StorageEngine.epochBincode⟩

/-- A node that appends as the leader of term 1, fails to write an epoch, and crashes in the save
of term 2. -/
def crashedTerm : List StorageEvent :=
  [.log (.append [⟨0, 1, .leaderChangeMessage, []⟩, Store.sampleEntry 1 1]),
    .save 7 ⟨1, some 1, none, 0, 0⟩ none, .epoch 1 0 (some .sync),
    .crash 7 ⟨2, none, none, 0, 0⟩ (some .rename) none, .log (.truncateSuffix 1)]

/-- It is in term 1 with its vote, and knows the epoch from its log. -/
theorem lifetimes_refine_crashedTerm :
    ∃ first node, openOn totalCodecs none (unused (fun _ => none) fun _ => none) = .ok first ∧
      crashedTerm.foldlM (StorageNode.step totalCodecs) first = .ok node ∧
      (Store.mk node.engine.log node.files.log).Represents bincodeCrc32c
        ⟨0, [⟨0, 1, .leaderChangeMessage, []⟩]⟩ ∧
      node.engine.quorumState.load = some ⟨1, some 1, none, 0, 0⟩ ∧
      node.engine.leaderEpochs.lookup 1 = some 0 := by
  have htotal : Total totalCodecs := ⟨fun _ => ⟨_, rfl⟩, StorageEngine.epochBincode_readable⟩
  obtain ⟨first, node, hfirst, hnode, hlog, hquorum, hepochs, -⟩ :=
    lifetimes_refine htotal (fun _ => none)
      (fun _ => none) none (by decide +kernel :
        Along StorageRecord.step (fun record event => event.Admits totalCodecs.batch record) .empty
        crashedTerm)
  refine ⟨first, node, hfirst, hnode, hlog, hquorum, (hepochs 1).trans ?_⟩
  decide +kernel

end StorageNode

end XRaft
