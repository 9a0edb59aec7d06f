import XRaft.Core.Delivery
import XRaft.Storage.StorageEngine

/-!
# The epoch map of a follower and the scan at start-up

A follower keeps its leader-epoch checkpoint up to date in two places: committing a leader
change inserts its term, with the offset of the last one if there are several, and a
divergence deletes the epochs from the truncation point on. Opening the storage engine builds
the map from a scan, with the offset of the first leader change of a term.

Truncation never reaches below the high watermark and only committed leader changes are in
the map, so the deletions find nothing, and the map is that of the committed entries. The two
then differ only in which leader change of a term counts.
-/

namespace XRaft

open FollowerView

/-- No term has more than one leader change among the entries. -/
def OneChangePerTerm (entries : List LogEntry) : Prop :=
  ∀ term, (entries.filter (LogEntry.announces term)).length ≤ 1

namespace ReplicationManager

variable {σ κ : Type*} {mgr : ReplicationManager} {env : Collaborators σ κ}

/-- Recording two stretches of entries is recording them together. -/
theorem recordEpochs_append (epochs : ℕ → Option ℕ) (first second : List LogEntry) :
    recordEpochs (recordEpochs epochs first) second = recordEpochs epochs (first ++ second) :=
  List.foldl_append.symm

/-- The recorded offset of a term is that of its last leader change, or else the old one. -/
theorem recordEpochs_apply (epochs : ℕ → Option ℕ) (entries : List LogEntry) (term : ℕ) :
    recordEpochs epochs entries term =
      ((entries.filter (LogEntry.announces term)).getLast?.map LogEntry.offset).or
        (epochs term) := by
  induction entries generalizing epochs with
  | nil => rfl
  | cons entry rest ih =>
    rw [recordEpochs, List.foldl_cons]
    change recordEpochs _ rest term = _
    rw [ih]
    by_cases hhere : entry.announces term = true
    · obtain ⟨htype, hterm⟩ := LogEntry.announces_iff.mp hhere
      rw [List.filter_cons_of_pos hhere, List.getLast?_cons, if_pos htype, hterm,
        Function.update_self]
      cases (rest.filter (LogEntry.announces term)).getLast? <;> rfl
    · rw [List.filter_cons_of_neg hhere]
      by_cases htype : entry.entryType = .leaderChangeMessage
      · have hterm : term ≠ entry.term :=
          fun hterm => hhere (LogEntry.announces_iff.mpr ⟨htype, hterm.symm⟩)
        rw [if_pos htype, Function.update_of_ne hterm]
      · rw [if_neg htype]

/-- From an empty map, only offsets of the entries are recorded. -/
theorem exists_of_recordEpochs {entries : List LogEntry} {term offset : ℕ}
    (h : recordEpochs (fun _ => none) entries term = some offset) :
    ∃ entry ∈ entries, entry.offset = offset := by
  rw [recordEpochs_apply, Option.or_none, Option.map_eq_some_iff] at h
  obtain ⟨entry, hlast, hoffset⟩ := h
  exact ⟨entry, List.mem_of_mem_filter (List.mem_of_getLast? hlast), hoffset⟩

/-- With one leader change per term, recording finds what a scan finds. -/
theorem recordEpochs_eq_scanEpochs {entries : List LogEntry} (hone : OneChangePerTerm entries) :
    recordEpochs (fun _ => none) entries = fun term => (scanEpochs entries)[term]? := by
  funext term
  rw [recordEpochs_apply, Option.or_none, getElem?_scanEpochs, ← List.head?_filter]
  have hlength := hone term
  generalize entries.filter (LogEntry.announces term) = changes at hlength ⊢
  match changes, hlength with
  | [], _ => rfl
  | [change], _ => rfl

/-- What a call of the handler does to the epoch map: it deletes from a point that is not below
the watermark, or it records the leader changes among the entries it commits. -/
inductive Records (before after : NodeState) : Prop where
  | truncated (point : ℕ) (hpoint : before.highWatermark ≤ point)
      (hsame : after.highWatermark = before.highWatermark)
      (hepochs : after.leaderEpochCheckpoint = fun term =>
        (before.leaderEpochCheckpoint term).filter fun offset => offset < point)
  | recorded (hepochs : after.leaderEpochCheckpoint = recordEpochs before.leaderEpochCheckpoint
      (after.entriesInRange before.highWatermark after.highWatermark))

/-- A call that leaves watermark and map alone records nothing. -/
theorem Records.of_same {before after : NodeState}
    (hhw : after.highWatermark = before.highWatermark)
    (hepochs : after.leaderEpochCheckpoint = before.leaderEpochCheckpoint) :
    Records before after := by
  refine .recorded ?_
  rw [hhw, entriesInRange_self]
  exact hepochs

/-- Changes of the state that keep watermark and map may come before. -/
theorem Records.of_update {before state after : NodeState} (h : Records state after)
    (hhw : state.highWatermark = before.highWatermark)
    (hepochs : state.leaderEpochCheckpoint = before.leaderEpochCheckpoint) :
    Records before after := by
  cases h with
  | truncated point hpoint hsame htruncated =>
    rw [hhw] at hpoint hsame
    rw [hepochs] at htruncated
    exact .truncated point hpoint hsame htruncated
  | recorded hrecorded =>
    rw [hhw, hepochs] at hrecorded
    exact .recorded hrecorded

/-- Validation does not touch the epoch map. -/
theorem epochs_validateAndUpdateTerm (state : NodeState) (response : FetchResponse) :
    (validateAndUpdateTerm state response).2.leaderEpochCheckpoint =
      state.leaderEpochCheckpoint := by
  have hvalid := validateAndUpdateTerm_validated response state
  generalize validateAndUpdateTerm state response = outcome at hvalid ⊢
  cases hvalid <;> rfl

/-- Advancing the high watermark with success records what it commits. -/
theorem advanceHighWatermark_records {leaderHw : ℕ} {f : Follower σ κ}
    (hok : (advanceHighWatermark env leaderHw f).1 = .ok ()) :
    Records f.state (advanceHighWatermark env leaderHw f).2.state := by
  have hadvances := advanceHighWatermark_advances env leaderHw f
  generalize advanceHighWatermark env leaderHw f = outcome at hok hadvances ⊢
  cases hadvances with
  | kept => exact .of_same rfl rfl
  | raised newHw _ _ _ houtcome hhw hrange =>
    subst houtcome
    obtain ⟨after, hafter⟩ := exists_applied_of_ok hok
    refine .recorded ?_
    rw [hhw, hrange, executeCommitNotification_of_applied hafter]
    exact (applyCommitted_of_ok hafter).epochs

/-- The divergence branch deletes from the truncation point on, or leaves the map alone. -/
theorem handleDivergence_records (mgr : ReplicationManager) (diverging : DivergingEpoch)
    (deferred : Option QuorumState) (f : Follower σ κ) :
    Records f.state (mgr.handleDivergence diverging deferred f).2.state := by
  unfold handleDivergence
  dsimp only
  split
  · exact .of_same rfl rfl
  · rename_i hpoint
    exact .truncated _ (Nat.le_of_not_lt hpoint) rfl rfl

/-- Every call of the handler keeps the record of what is committed. -/
theorem handleFetchResponse_records
    (happly : ∀ calls offset record, env.applyError calls offset record = none) (clock : Clock)
    (response : FetchResponse) (f : Follower σ κ)
    (hread :
      Readable env.codec ((mgr.handleFetchResponse env clock response f).2.state.entriesInRange
      f.state.highWatermark (mgr.handleFetchResponse env clock response f).2.state.highWatermark)) :
    Records f.state (mgr.handleFetchResponse env clock response f).2.state := by
  obtain ⟨_, _, _, hhw⟩ := (accepts_validateAndUpdateTerm response f.state).log_eq
  have hepochs := epochs_validateAndUpdateTerm f.state response
  have hroute := handleFetchResponse_route mgr env clock response f
  generalize mgr.handleFetchResponse env clock response f = outcome at hroute hread ⊢
  cases hroute with
  | refused e => exact .of_same hhw hepochs
  | snapshot deferred state hvalid snapshotId =>
    rw [hvalid] at hhw hepochs
    rw [state_handleSnapshot]
    exact .of_same hhw hepochs
  | divergence deferred state hvalid diverging _ =>
    rw [hvalid] at hhw hepochs
    have hdiverged :=
      handleDivergence_records mgr diverging deferred (f.update (mgr.resetTimers state clock))
    exact hdiverged.of_update hhw hepochs
  | entries deferred state hvalid _ =>
    rw [hvalid] at hhw hepochs
    cases hcheck : checkEntries (f.update (mgr.resetTimers state clock)).state response.entries with
    | some e =>
      rw [handleEntries_of_refused env response hcheck]
      exact .of_same hhw hepochs
    | none =>
      rw [handleEntries_of_checked env response hcheck] at hread ⊢
      change NodeState.highWatermark state = f.state.highWatermark at hhw
      rw [← hhw] at hread
      exact (advanceHighWatermark_records (advanceHighWatermark_ok happly hread)).of_update
        hhw hepochs

/-- The map is what recording the committed entries gives. -/
def EpochsOfCommitted (state : NodeState) : Prop :=
  state.leaderEpochCheckpoint =
    recordEpochs (fun _ => none) (state.entriesInRange 0 state.highWatermark)

/-- A call keeps the map that of the committed entries. -/
theorem EpochsOfCommitted.step {before after : NodeState} (h : EpochsOfCommitted before)
    (hwf : after.view.WellFormed) (hprogress : Progress before.view after.view)
    (hrecords : Records before after) : EpochsOfCommitted after := by
  unfold EpochsOfCommitted at h ⊢
  cases hrecords with
  | truncated point hpoint hsame hepochs =>
    have hkept : after.entriesInRange 0 before.highWatermark =
        before.entriesInRange 0 before.highWatermark :=
      hprogress.committed _ _ le_rfl
    rw [hepochs, hsame, hkept, h]
    funext term
    cases hoffset : recordEpochs (fun _ => none) (before.entriesInRange 0 before.highWatermark)
      term with
    | none => rfl
    | some offset =>
      -- every recorded offset is committed, so it lies below the point
      obtain ⟨entry, hentry, rfl⟩ := exists_of_recordEpochs hoffset
      have hbelow := of_decide_eq_true (List.mem_filter.mp hentry).2
      exact Option.filter_some_pos (decide_eq_true (by omega))
  | recorded hepochs =>
    rw [hepochs, h, recordEpochs_append, committed_split hwf hprogress (Nat.zero_le _)]

/-- A run over readable entries keeps the map that of the committed entries. -/
theorem Handled.epochsOfCommitted
    (happly : ∀ calls offset record, env.applyError calls offset record = none)
    {before after : Follower σ κ} (hwf : before.state.view.WellFormed)
    (h : EpochsOfCommitted before.state) (hrun : mgr.Handled env before after)
    (hread : Readable env.codec (after.state.entriesInRange 0 after.state.highWatermark)) :
    EpochsOfCommitted after.state := by
  induction hrun with
  | refl => exact h
  | @tail middle last hrun hstep ih =>
    have hmiddle := Handled.wellFormed_progress hrun hwf
    have hlast := Handled.wellFormed_progress (.single hstep) hmiddle.1
    rw [committed_split hlast.1 hlast.2 (Nat.zero_le _)] at hread
    obtain ⟨hfirst, hsecond⟩ := Readable.of_append hread
    obtain ⟨clock, response, rfl⟩ := hstep
    exact (ih hfirst).step hlast.1 hlast.2
      (handleFetchResponse_records happly clock response middle hsecond)

/-- From an empty follower, over any sequence of fetch responses: where no term has two leader
changes in the log, the map kept by the handler is the map that opening the storage engine builds
from the committed entries. -/
theorem epochs_eq_scan (mgr : ReplicationManager) (env : Collaborators σ κ)
    (happly : ∀ calls offset record, env.applyError calls offset record = none)
    {before after : Follower σ κ} (hwf : before.state.view.WellFormed)
    (hempty : before.state.log = []) (hepochs : before.state.leaderEpochCheckpoint = fun _ => none)
    (hrun : mgr.Handled env before after)
    (hread : Readable env.codec (after.state.entriesInRange 0 after.state.highWatermark))
    (hone : OneChangePerTerm after.state.log) :
    after.state.leaderEpochCheckpoint =
      fun term => (scanEpochs (after.state.entriesInRange 0 after.state.highWatermark))[term]? := by
  have hstart : EpochsOfCommitted before.state := by
    unfold EpochsOfCommitted NodeState.entriesInRange
    rw [hempty]
    exact hepochs
  have hcommitted : OneChangePerTerm (after.state.entriesInRange 0 after.state.highWatermark) :=
    fun term =>
      (List.filter_sublist.filter (LogEntry.announces term)).length_le.trans (hone term)
  rw [← recordEpochs_eq_scanEpochs hcommitted]
  exact hrun.epochsOfCommitted happly hwf hstart hread

/-- A leader change and a command are committed, the leader change of a second leader is
truncated, and that of a third one is committed in its place. -/
theorem epochs_eq_scan_replaced :
    ∃ after : Follower Unit Bool, after.state.highWatermark = 3 ∧
      after.state.leaderEpochCheckpoint = fun term =>
        (scanEpochs [⟨0, 1, .leaderChangeMessage, []⟩, commandEntry 1 1,
          ⟨2, 3, .leaderChangeMessage, []⟩])[term]? := by
  have hwf : (followerOf 1 1 0 []).state.view.WellFormed := ⟨by decide, rfl, by decide, by decide⟩
  have hone : OneChangePerTerm
      [⟨0, 1, .leaderChangeMessage, []⟩, commandEntry 1 1, ⟨2, 3, .leaderChangeMessage, []⟩] := by
    intro term
    by_cases hterm : term = 1
    · rw [hterm]
      decide
    · rw [List.filter_cons_of_neg (by simp [LogEntry.announces, Ne.symm hterm])]
      exact List.length_filter_le (LogEntry.announces term) [⟨2, 3, .leaderChangeMessage, []⟩]
  have hrun : ∃ after, Handled ⟨1024, 50⟩ acceptingEnv (followerOf 1 1 0 []) after ∧
      after.state.highWatermark = 3 ∧
      after.state.log =
        [⟨0, 1, .leaderChangeMessage, []⟩, commandEntry 1 1, ⟨2, 3, .leaderChangeMessage, []⟩] :=
    ⟨_, ((Relation.ReflTransGen.refl.tail
      ⟨⟨0, 0⟩, ⟨1, 1, 2, 0, [⟨0, 1, .leaderChangeMessage, []⟩, commandEntry 1 1,
        ⟨2, 2, .leaderChangeMessage, []⟩], none, none⟩, rfl⟩).tail
      ⟨⟨0, 0⟩, ⟨3, 3, 2, 0, [], some ⟨1, 2⟩, none⟩, rfl⟩).tail
      ⟨⟨0, 0⟩, ⟨3, 3, 3, 0, [⟨2, 3, .leaderChangeMessage, []⟩], none, none⟩, rfl⟩, rfl, rfl⟩
  obtain ⟨after, hafter, hwatermark, hlog⟩ := hrun
  have hcommitted : after.state.entriesInRange 0 after.state.highWatermark =
      [⟨0, 1, .leaderChangeMessage, []⟩, commandEntry 1 1, ⟨2, 3, .leaderChangeMessage, []⟩] := by
    rw [NodeState.entriesInRange, hwatermark, hlog]
    rfl
  have hread : Readable acceptingEnv.codec
      (after.state.entriesInRange 0 after.state.highWatermark) := by
    rw [hcommitted]
    intro entry hentry htype
    simp only [List.mem_cons, List.not_mem_nil, or_false] at hentry
    rcases hentry with rfl | rfl | rfl <;> cases htype
  have hscan :=
    epochs_eq_scan ⟨1024, 50⟩ acceptingEnv (fun _ _ _ => rfl) hwf rfl rfl hafter hread (hlog ▸ hone)
  rw [hcommitted] at hscan
  exact ⟨after, hwatermark, hscan⟩

end ReplicationManager

end XRaft
