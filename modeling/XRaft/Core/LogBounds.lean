import XRaft.Core.NodeRun
import XRaft.Core.Recovery

/-!
# The log bounds of a running node

Recovery takes the larger of the snapshot's end and the log store's end, while a node
that wins an election takes its offsets from the log store alone. The bounds never move
back as long as the log store reaches the end of the snapshot; a store that ends earlier
lets a new leader write below the snapshot and pulls the bounds down with it.
-/

namespace XRaft

namespace RaftNode

variable {codec : VotersCodec} {clock : Clock} {faults : Faults} {config : RaftConfig}
  {stores : Stores} {node after start : RaftNode} {input : NodeInput}

/-- The bounds are in order and the log store reaches past them and past the snapshot. -/
structure BoundsInv (node : RaftNode) : Prop where
  contiguous : node.stores.log.Contiguous
  start : node.state.logStartOffset ≤ node.state.logEndOffset
  watermark : node.state.highWatermark ≤ node.state.logEndOffset
  stored : node.state.logEndOffset ≤ node.stores.log.logEndOffset
  snapshot : node.stores.snapshotEnd ≤ node.stores.log.logEndOffset

/-- From one node to the next no bound moves back and nothing is written below the snapshot. -/
structure BoundsKept (node after : RaftNode) : Prop where
  logEndOffset : node.state.logEndOffset ≤ after.state.logEndOffset
  highWatermark : node.state.highWatermark ≤ after.state.highWatermark
  snapshot : after.stores.snapshot = node.stores.snapshot
  written : ∀ e ∈ after.stores.log.entries, e ∈ node.stores.log.entries ∨
    node.stores.snapshotEnd ≤ e.offset

/-- Nothing moves when nothing happens. -/
theorem BoundsKept.refl (node : RaftNode) : BoundsKept node node :=
  ⟨le_rfl, le_rfl, rfl, fun _ he => Or.inl he⟩

/-- Bounds that never move back in two steps do not move back in both. -/
theorem BoundsKept.trans {later : RaftNode} (h : BoundsKept node after)
    (h' : BoundsKept after later) : BoundsKept node later where
  logEndOffset := h.logEndOffset.trans h'.logEndOffset
  highWatermark := h.highWatermark.trans h'.highWatermark
  snapshot := h'.snapshot.trans h.snapshot
  written e he := by
    have hend : after.stores.snapshotEnd = node.stores.snapshotEnd := by
      unfold Stores.snapshotEnd
      rw [h.snapshot]
    rcases h'.written e he with hold | hnew
    · exact h.written e hold
    · exact Or.inr (hend ▸ hnew)

/-- Taking the leader role moves the bounds to the end of the log store. -/
theorem BoundsInv.enterLeaderRole (h : BoundsInv node) :
    BoundsInv node.enterLeaderRole ∧ BoundsKept node node.enterLeaderRole := by
  have hwatermark : node.state.highWatermark ≤ node.enterLeaderRole.state.highWatermark ∧
      node.enterLeaderRole.state.highWatermark ≤ node.stores.log.logEndOffset := by
    have hbelow := h.watermark.trans h.stored
    simp only [RaftNode.enterLeaderRole]
    split
    · exact ⟨hbelow, le_rfl⟩
    · exact ⟨le_rfl, hbelow⟩
  exact ⟨⟨h.contiguous, h.start.trans h.stored, hwatermark.2, le_rfl, h.snapshot⟩,
    ⟨h.stored, hwatermark.1, rfl, fun _ he => Or.inl he⟩⟩

/-- A log store that only grew keeps the bounds of an unchanged state. -/
theorem BoundsInv.storeLog (h : BoundsInv node) (log : LogStore)
    (hgrown : Grown node (node.storeLog log)) :
    BoundsInv (node.storeLog log) ∧ BoundsKept node (node.storeLog log) :=
  ⟨⟨hgrown.contiguous, h.start, h.watermark, h.stored.trans hgrown.logEndOffset,
      h.snapshot.trans hgrown.logEndOffset⟩,
    ⟨le_rfl, le_rfl, rfl, fun e he => (hgrown.entries e he).imp_right h.snapshot.trans⟩⟩

/-- Winning an election keeps the bounds. -/
theorem BoundsInv.becomeLeader (h : BoundsInv node) (codec : VotersCodec) (faults : Faults) :
    BoundsInv (node.becomeLeader codec faults).2 ∧
      BoundsKept node (node.becomeLeader codec faults).2 := by
  have hascent := becomeLeader_ascent h.contiguous codec faults
  have hgrown := hascent.grown h.contiguous
  generalize (node.becomeLeader codec faults).2 = after at hascent hgrown ⊢
  cases hascent with
  | unchanged => exact ⟨h, .refl node⟩
  | stranded => exact h.storeLog _ hgrown
  | confirmed =>
    obtain ⟨hinv, hkept⟩ := h.storeLog node.announce.stores.log
      ⟨hgrown.contiguous, rfl, rfl, rfl, hgrown.logEndOffset, hgrown.entries⟩
    exact hinv.enterLeaderRole.imp_right hkept.trans
  | recorded payload =>
    obtain ⟨hinv, hkept⟩ := h.storeLog (node.announceVoters payload).stores.log
      ⟨hgrown.contiguous, rfl, rfl, rfl, hgrown.logEndOffset, hgrown.entries⟩
    exact hinv.enterLeaderRole.imp_right hkept.trans

/-- A move keeps the bounds. -/
theorem BoundsInv.move {origin : RaftNode} (h : BoundsInv node)
    (hmove : Move codec input origin node after) : BoundsInv after ∧ BoundsKept node after := by
  cases hmove with
  | won => exact h.becomeLeader codec input.faults
  | elected source =>
    have hcounted : BoundsInv (node.count source) :=
      ⟨h.contiguous, h.start, h.watermark, h.stored, h.snapshot⟩
    obtain ⟨hinv, hkept⟩ := hcounted.becomeLeader codec input.faults
    exact ⟨hinv, hkept.logEndOffset, hkept.highWatermark, hkept.snapshot, hkept.written⟩
  | _ => exact ⟨⟨h.contiguous, h.start, h.watermark, h.stored, h.snapshot⟩,
      ⟨le_rfl, le_rfl, rfl, fun _ he => Or.inl he⟩⟩

/-- A call keeps the bounds. -/
theorem BoundsInv.handle (h : BoundsInv node) (input : NodeInput) :
    BoundsInv (node.handle codec input) ∧ BoundsKept node (node.handle codec input) := by
  refine handle_keeps (P := fun after => BoundsInv after ∧ BoundsKept node after) ⟨h, .refl node⟩ ?_
  rintro before after ⟨hinv, hkept⟩ hmove
  exact (hinv.move hmove).imp_right hkept.trans

end RaftNode

end XRaft
