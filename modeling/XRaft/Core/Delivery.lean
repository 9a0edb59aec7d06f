import XRaft.Core.FollowerInvariant
import XRaft.Core.RaftNode

/-!
# Exactly-once delivery to the application

A call of the handler that raises the high watermark hands the state machine the
commands between the old and the new watermark, in order, and then the same batch to the
listener; every other call hands over nothing. Committed entries never change, so the
batches of a run add up to the commands of the final log between the first watermark and
the last.
-/

namespace XRaft

open Lib

/-- The records handed to the state machine, in order. -/
def applied {σ : Type*} (calls : List (Callback σ)) : List (ℕ × AppRecord) :=
  calls.filterMap fun
    | .apply offset record => some (offset, record)
    | _ => none

/-- The batches handed to the listener, in order. -/
def commits {σ : Type*} (calls : List (Callback σ)) : List (List (ℕ × AppRecord)) :=
  calls.filterMap fun
    | .handleCommit batch => some batch
    | _ => none

/-- The calls that hand records to the state machine. -/
def applies {σ : Type*} (records : List (ℕ × AppRecord)) : List (Callback σ) :=
  records.map fun x => .apply x.1 x.2

/-- Every voters record among the entries can be read. -/
def Readable (codec : VotersCodec) (entries : List LogEntry) : Prop :=
  ∀ e ∈ entries, e.entryType = .votersRecord → ∃ record, codec.deserialize e.payload = .ok record

section Calls

variable {σ : Type*}

/-- Applied records of consecutive calls. -/
@[simp] theorem applied_append (first second : List (Callback σ)) :
    applied (first ++ second) = applied first ++ applied second :=
  List.filterMap_append

/-- Batches of consecutive calls. -/
@[simp] theorem commits_append (first second : List (Callback σ)) :
    commits (first ++ second) = commits first ++ commits second :=
  List.filterMap_append

/-- Handing records over applies them. -/
@[simp] theorem applied_applies (records : List (ℕ × AppRecord)) :
    applied (applies records : List (Callback σ)) = records := by
  induction records with
  | nil => rfl
  | cons x rest ih => exact congrArg (x :: ·) ih

/-- Handing records to the state machine gives the listener nothing. -/
@[simp] theorem commits_applies (records : List (ℕ × AppRecord)) :
    commits (applies records : List (Callback σ)) = [] := by
  induction records with
  | nil => rfl
  | cons x rest ih => exact ih

/-- Settling clients hands nothing to the application. -/
theorem applied_commits_settled (senders : List (ℕ × σ)) (settle : ℕ × σ → Callback σ)
    (hsettle : ∀ x, settle x = .complete x.1 x.2 ∨ settle x = .fail x.1 x.2) :
    applied (senders.map settle) = [] ∧ commits (senders.map settle) = [] := by
  induction senders with
  | nil => exact ⟨rfl, rfl⟩
  | cons x rest ih =>
    rw [List.map_cons]
    rcases hsettle x with hx | hx
    · rw [hx]
      exact ih
    · rw [hx]
      exact ih

/-- The voters of two stretches of a log are those of the second, if it has any. -/
theorem latestVoters_append (codec : VotersCodec) (first second : List LogEntry)
    (voters : List VoterInfo) :
    (RaftNode.latestVoters codec (first ++ second)).getD voters =
      (RaftNode.latestVoters codec second).getD
        ((RaftNode.latestVoters codec first).getD voters) := by
  unfold RaftNode.latestVoters
  rw [List.reverse_append, List.findSome?_append]
  cases List.findSome? _ second.reverse <;> rfl

/-- Parts of a readable range are readable. -/
theorem Readable.of_append {codec : VotersCodec} {first second : List LogEntry}
    (h : Readable codec (first ++ second)) : Readable codec first ∧ Readable codec second :=
  ⟨fun e he => h e (List.mem_append_left _ he), fun e he => h e (List.mem_append_right _ he)⟩

end Calls

namespace ReplicationManager

open FollowerView

variable {σ κ : Type*} {mgr : ReplicationManager} {env : Collaborators σ κ}

/-- What one call of the handler delivers between the watermarks before and after it. -/
structure Delivers (env : Collaborators σ κ) (before after : Follower σ κ) : Prop where
  raised : before.state.highWatermark < after.state.highWatermark → ∃ rest,
    after.calls = before.calls ++ (applies (appRecords (after.state.entriesInRange
        before.state.highWatermark after.state.highWatermark)) ++
      .handleCommit (appRecords (after.state.entriesInRange
        before.state.highWatermark after.state.highWatermark)) :: rest) ∧
      applied rest = [] ∧ commits rest = []
  same : after.state.highWatermark = before.state.highWatermark → ∃ rest,
    after.calls = before.calls ++ rest ∧ applied rest = [] ∧ commits rest = []
  voters : after.state.voterSet = (RaftNode.latestVoters env.codec (after.state.entriesInRange
    before.state.highWatermark after.state.highWatermark)).getD before.state.voterSet

/-- The epochs after the leader changes among some entries. -/
def recordEpochs (epochs : ℕ → Option ℕ) (entries : List LogEntry) : ℕ → Option ℕ :=
  entries.foldl (fun epochs e => if e.entryType = .leaderChangeMessage then
    Function.update epochs e.term (some e.offset) else epochs) epochs

/-- Readable entries are applied unless the state machine fails. -/
theorem exists_applyCommitted_ok
    (happly : ∀ calls offset record, env.applyError calls offset record = none)
    {entries : List LogEntry} (hread : Readable env.codec entries) (f : Follower σ κ) :
    ∃ after, applyCommitted env entries f = (.ok (), after) := by
  induction entries generalizing f with
  | nil => exact ⟨f, rfl⟩
  | cons e rest ih =>
    have hrest : Readable env.codec rest := fun x hx => hread x (List.mem_cons_of_mem _ hx)
    rw [applyCommitted]
    cases htype : e.entryType with
    | command =>
      simp only [happly]
      exact ih hrest _
    | leaderChangeMessage => exact ih hrest _
    | votersRecord =>
      obtain ⟨record, hrecord⟩ := hread e List.mem_cons_self htype
      simp only [hrecord]
      exact ih hrest _

/-- What a successful application of entries has done. -/
structure AppliedAll (env : Collaborators σ κ) (entries : List LogEntry)
    (before after : Follower σ κ) : Prop where
  calls : after.calls = before.calls ++ applies (appRecords entries)
  voterSet : after.state.voterSet =
    (RaftNode.latestVoters env.codec entries).getD before.state.voterSet
  epochs : after.state.leaderEpochCheckpoint =
    recordEpochs before.state.leaderEpochCheckpoint entries

/-- Applying entries with success applies their commands, adopts their voters and records their
epochs. -/
theorem applyCommitted_of_ok {entries : List LogEntry} {f after : Follower σ κ}
    (hok : applyCommitted env entries f = (.ok (), after)) : AppliedAll env entries f after := by
  induction entries generalizing f with
  | nil =>
    cases hok
    exact ⟨(List.append_nil _).symm, rfl, rfl⟩
  | cons e rest ih =>
    have hvoters := latestVoters_append env.codec [e] rest f.state.voterSet
    rw [List.singleton_append] at hvoters
    rw [applyCommitted] at hok
    cases htype : e.entryType with
    | command =>
      simp only [htype] at hok
      cases hfails : env.applyError f.calls e.offset e.asAppRecord with
      | some reason =>
        rw [hfails] at hok
        cases hok
      | none =>
        rw [hfails] at hok
        obtain ⟨hcalls, hset, hepochs⟩ := ih hok
        refine ⟨?_, ?_, ?_⟩
        · rw [hcalls]
          simp [appRecords, applies, htype, Follower.call]
        · rw [hset, hvoters]
          simp [RaftNode.latestVoters, htype, Follower.call]
        · rw [hepochs]
          simp [recordEpochs, htype, Follower.call]
    | leaderChangeMessage =>
      simp only [htype] at hok
      obtain ⟨hcalls, hset, hepochs⟩ := ih hok
      refine ⟨?_, ?_, ?_⟩
      · rw [hcalls]
        simp [appRecords, htype, Follower.update]
      · rw [hset, hvoters]
        simp [RaftNode.latestVoters, htype, Follower.update]
      · rw [hepochs]
        simp [recordEpochs, htype, Follower.update]
    | votersRecord =>
      simp only [htype] at hok
      cases hrecord : env.codec.deserialize e.payload with
      | error reason =>
        rw [hrecord] at hok
        cases hok
      | ok record =>
        rw [hrecord] at hok
        obtain ⟨hcalls, hset, hepochs⟩ := ih hok
        refine ⟨?_, ?_, ?_⟩
        · rw [hcalls]
          simp [appRecords, htype, Follower.update]
        · rw [hset, hvoters]
          simp [RaftNode.latestVoters, htype, hrecord, Follower.update, adoptVoters]
        · rw [hepochs]
          simp [recordEpochs, htype, Follower.update, adoptVoters]

/-- No entry lies between a watermark and itself. -/
theorem entriesInRange_self (state : NodeState) (hw : ℕ) : state.entriesInRange hw hw = [] := by
  refine List.filter_eq_nil_iff.mpr fun e _ => ?_
  rw [decide_eq_true_eq]
  omega

/-- The entries of a range depend on the log only. -/
theorem entriesInRange_of_view {state other : NodeState} (h : state.view = other.view)
    (low high : ℕ) : state.entriesInRange low high = other.entriesInRange low high :=
  congrArg (fun view => view.entriesInRange low high) h

/-- What advancing the high watermark may do: nothing, or the commit notification up to a higher
watermark. -/
inductive Advances (env : Collaborators σ κ) (leaderHw : ℕ) (f : Follower σ κ) :
    Except XraftError Unit × Follower σ κ → Prop where
  | kept : Advances env leaderHw f (.ok (), f)
  | raised (newHw : ℕ) (outcome : Except XraftError Unit × Follower σ κ)
      (hnew : newHw = min leaderHw f.state.logEndOffset) (hlt : f.state.highWatermark < newHw)
      (houtcome : executeCommitNotification env f.state.highWatermark newHw
        (f.update { f.state with highWatermark := newHw }) = outcome)
      (hhw : outcome.2.state.highWatermark = newHw)
      (hrange : ∀ low high,
        outcome.2.state.entriesInRange low high = f.state.entriesInRange low high) :
      Advances env leaderHw f outcome

/-- Advancing the high watermark does one of these. -/
theorem advanceHighWatermark_advances (env : Collaborators σ κ) (leaderHw : ℕ) (f : Follower σ κ) :
    Advances env leaderHw f (advanceHighWatermark env leaderHw f) := by
  unfold advanceHighWatermark
  dsimp only
  split
  · rename_i hlt
    have hview := view_executeCommitNotification env
      (f.update { f.state with highWatermark := min leaderHw f.state.logEndOffset })
      f.state.highWatermark
      (min leaderHw f.state.logEndOffset)
    exact .raised _ _ rfl hlt rfl (congrArg FollowerView.highWatermark hview)
      fun low high => (entriesInRange_of_view hview low high).trans rfl
  · exact .kept

/-- No watermark was raised, no voters were adopted, and the calls, if any, settle clients. -/
structure Quiet (before after : Follower σ κ) : Prop where
  highWatermark : after.state.highWatermark = before.state.highWatermark
  voterSet : after.state.voterSet = before.state.voterSet
  calls : ∃ rest, after.calls = before.calls ++ rest ∧ applied rest = [] ∧ commits rest = []

/-- A change of the state that keeps watermark and voters is quiet. -/
theorem Quiet.of_update {before after : Follower σ κ}
    (hhw : after.state.highWatermark = before.state.highWatermark)
    (hvoters : after.state.voterSet = before.state.voterSet) (hcalls : after.calls = before.calls) :
    Quiet before after :=
  ⟨hhw, hvoters, [], by rw [hcalls, List.append_nil], rfl, rfl⟩

/-- Quiet stretches add up. -/
theorem Quiet.trans {before middle after : Follower σ κ} (h : Quiet before middle)
    (h' : Quiet middle after) : Quiet before after := by
  obtain ⟨rest, hcalls, happlied, hcommits⟩ := h.calls
  obtain ⟨rest', hcalls', happlied', hcommits'⟩ := h'.calls
  refine ⟨h'.highWatermark.trans h.highWatermark, h'.voterSet.trans h.voterSet,
    rest ++ rest', ?_, ?_, ?_⟩
  · rw [hcalls', hcalls, List.append_assoc]
  · rw [applied_append, happlied, happlied', List.append_nil]
  · rw [commits_append, hcommits, hcommits', List.append_nil]

/-- A quiet call delivers nothing. -/
theorem Quiet.delivers {before after : Follower σ κ} (h : Quiet before after) :
    Delivers env before after where
  raised hlt := by
    have := h.highWatermark
    omega
  same _ := h.calls
  voters := by
    rw [h.highWatermark, entriesInRange_self, h.voterSet]
    rfl

/-- Changes of the state that keep watermark and voters may come before a delivery. -/
theorem Delivers.of_update {before after : Follower σ κ} (state : NodeState)
    (hhw : state.highWatermark = before.state.highWatermark)
    (hvoters : state.voterSet = before.state.voterSet)
    (h : Delivers env (before.update state) after) : Delivers env before after := by
  obtain ⟨hraised, hsame, hset⟩ := h
  change state.highWatermark < _ → _ at hraised
  change _ = state.highWatermark → _ at hsame
  change _ = Option.getD _ state.voterSet at hset
  change after.state.voterSet = Option.getD (RaftNode.latestVoters env.codec
    (after.state.entriesInRange state.highWatermark after.state.highWatermark))
      state.voterSet at hset
  rw [hhw, hvoters] at hset
  rw [hhw] at hsame
  refine ⟨fun hlt => ?_, hsame, hset⟩
  rw [← hhw] at hlt ⊢
  exact hraised hlt

/-- Validation does not touch the voter set. -/
theorem voterSet_validateAndUpdateTerm (state : NodeState) (response : FetchResponse) :
    (validateAndUpdateTerm state response).2.voterSet = state.voterSet := by
  have hvalid := validateAndUpdateTerm_validated response state
  generalize validateAndUpdateTerm state response = outcome at hvalid ⊢
  cases hvalid <;> rfl

/-- The snapshot branch is quiet. -/
theorem handleSnapshot_quiet (response : FetchResponse) (snapshotId : SnapshotId)
    (deferred : Option QuorumState) (f : Follower σ κ) :
    Quiet f (handleSnapshot env response snapshotId deferred f).2 := by
  unfold handleSnapshot
  split <;> exact Quiet.of_update rfl rfl rfl

/-- The divergence branch is quiet. -/
theorem handleDivergence_quiet (diverging : DivergingEpoch) (deferred : Option QuorumState)
    (f : Follower σ κ) : Quiet f (mgr.handleDivergence diverging deferred f).2 := by
  unfold handleDivergence
  dsimp only
  split
  · exact Quiet.of_update rfl rfl rfl
  · exact ⟨rfl, rfl, _, rfl,
      applied_commits_settled _ (fun x => .fail x.1 x.2) (fun _ => Or.inr rfl)⟩

/-- A call of the handler is quiet, or it advances the watermark after quiet changes of the
state. -/
theorem handleFetchResponse_branches (clock : Clock) (response : FetchResponse) (f : Follower σ κ) :
    Quiet f (mgr.handleFetchResponse env clock response f).2 ∨
      ∃ state, state.highWatermark = f.state.highWatermark ∧ state.voterSet = f.state.voterSet ∧
        (mgr.handleFetchResponse env clock response f).2 =
          (advanceHighWatermark env response.highWatermark (f.update state)).2 ∧
        ∀ result, (mgr.handleFetchResponse env clock response f).1 = .ok result →
          (advanceHighWatermark env response.highWatermark (f.update state)).1 = .ok () := by
  obtain ⟨_, _, _, hhw⟩ := (accepts_validateAndUpdateTerm response f.state).log_eq
  have hvoters := voterSet_validateAndUpdateTerm f.state response
  have hroute := handleFetchResponse_route mgr env clock response f
  generalize mgr.handleFetchResponse env clock response f = outcome at hroute ⊢
  cases hroute with
  | refused e => exact Or.inl (Quiet.of_update hhw hvoters rfl)
  | snapshot deferred state hvalid snapshotId =>
    rw [hvalid] at hhw hvoters
    have hquiet : Quiet f (f.update (mgr.resetTimers state clock)) :=
      Quiet.of_update hhw hvoters rfl
    exact Or.inl (hquiet.trans (handleSnapshot_quiet response snapshotId deferred _))
  | divergence deferred state hvalid diverging _ =>
    rw [hvalid] at hhw hvoters
    have hquiet : Quiet f (f.update (mgr.resetTimers state clock)) :=
      Quiet.of_update hhw hvoters rfl
    exact Or.inl (hquiet.trans (handleDivergence_quiet diverging deferred _))
  | entries deferred state hvalid _ =>
    rw [hvalid] at hhw hvoters
    cases hcheck : checkEntries (f.update (mgr.resetTimers state clock)).state response.entries with
    | some e =>
      rw [handleEntries_of_refused env response hcheck]
      exact Or.inl (Quiet.of_update hhw hvoters rfl)
    | none =>
      rw [handleEntries_of_checked env response hcheck]
      exact Or.inr ⟨(mgr.resetTimers state clock).appendEntries response.entries, hhw, hvoters, rfl,
        fun result hok => handleEntries_ok env response hcheck hok⟩

/-- Once the entries are applied, the listener gets the batch and the clients below the watermark
are completed. -/
theorem executeCommitNotification_of_applied {oldHw newHw : ℕ} {f after : Follower σ κ}
    (hok : applyCommitted env (f.state.entriesInRange oldHw newHw) f = (.ok (), after)) :
    (executeCommitNotification env oldHw newHw f).2 =
      { after with
        queue := (after.queue.complete newHw).2
        calls := after.calls ++ .handleCommit (appRecords (f.state.entriesInRange oldHw newHw)) ::
          (after.queue.complete newHw).1.map fun x => .complete x.1 x.2 } := by
  unfold executeCommitNotification
  simp only [hok, Follower.call, List.append_assoc, List.singleton_append]

/-- A commit notification that succeeds has applied the entries. -/
theorem exists_applied_of_ok {oldHw newHw : ℕ} {f : Follower σ κ}
    (hok : (executeCommitNotification env oldHw newHw f).1 = .ok ()) :
    ∃ after, applyCommitted env (f.state.entriesInRange oldHw newHw) f = (.ok (), after) := by
  unfold executeCommitNotification at hok
  dsimp only at hok
  split at hok
  · cases hok
  · rename_i after happlied
    exact ⟨after, happlied⟩

/-- The commit notification applies the entries, tells the listener and settles clients. -/
theorem executeCommitNotification_ok {oldHw newHw : ℕ} {f : Follower σ κ}
    (hok : (executeCommitNotification env oldHw newHw f).1 = .ok ()) :
    ∃ rest, (executeCommitNotification env oldHw newHw f).2.calls =
        f.calls ++ (applies (appRecords (f.state.entriesInRange oldHw newHw)) ++
          .handleCommit (appRecords (f.state.entriesInRange oldHw newHw)) :: rest) ∧
      applied rest = [] ∧ commits rest = [] ∧
      (executeCommitNotification env oldHw newHw f).2.state.voterSet =
        (RaftNode.latestVoters env.codec (f.state.entriesInRange oldHw newHw)).getD
          f.state.voterSet := by
  obtain ⟨after, hafter⟩ := exists_applied_of_ok hok
  obtain ⟨hcalls, hvoters, -⟩ := applyCommitted_of_ok hafter
  obtain ⟨happlied, hcommits⟩ := applied_commits_settled (after.queue.complete newHw).1
    (fun x => .complete x.1 x.2) (fun _ => Or.inl rfl)
  rw [executeCommitNotification_of_applied hafter]
  refine ⟨_, ?_, happlied, hcommits, hvoters⟩
  rw [hcalls, List.append_assoc]

/-- Advancing the high watermark delivers what it commits. -/
theorem advanceHighWatermark_delivers {response : FetchResponse} {f : Follower σ κ}
    (hok : (advanceHighWatermark env response.highWatermark f).1 = .ok ()) :
    Delivers env f (advanceHighWatermark env response.highWatermark f).2 := by
  have hadvances := advanceHighWatermark_advances env response.highWatermark f
  generalize advanceHighWatermark env response.highWatermark f = outcome at hok hadvances ⊢
  cases hadvances with
  | kept => exact (Quiet.of_update rfl rfl rfl).delivers
  | raised newHw _ _ hlt houtcome hhw hrange =>
    subst houtcome
    obtain ⟨rest, hcalls, happlied, hcommits, hvoters⟩ := executeCommitNotification_ok hok
    refine ⟨fun _ => ⟨rest, ?_, happlied, hcommits⟩, fun hsame => ?_, ?_⟩
    · rw [hhw, hrange, hcalls]
      rfl
    · omega
    · rw [hhw, hrange, hvoters]
      rfl

/-- Advancing the high watermark over readable entries succeeds unless the state machine fails. -/
theorem advanceHighWatermark_ok
    (happly : ∀ calls offset record, env.applyError calls offset record = none)
    {response : FetchResponse} {f : Follower σ κ}
    (hread :
      Readable env.codec ((advanceHighWatermark env response.highWatermark f).2.state.entriesInRange
      f.state.highWatermark
        (advanceHighWatermark env response.highWatermark f).2.state.highWatermark)) :
    (advanceHighWatermark env response.highWatermark f).1 = .ok () := by
  have hadvances := advanceHighWatermark_advances env response.highWatermark f
  generalize advanceHighWatermark env response.highWatermark f = outcome at hread hadvances ⊢
  cases hadvances with
  | kept => rfl
  | raised newHw _ _ _ houtcome hhw hrange =>
    rw [hhw, hrange] at hread
    change Readable env.codec
      ((f.update { f.state with highWatermark := newHw }).state.entriesInRange
      f.state.highWatermark newHw) at hread
    obtain ⟨after, hafter⟩ := exists_applyCommitted_ok happly hread
      (f.update { f.state with highWatermark := newHw })
    rw [← houtcome]
    unfold executeCommitNotification
    simp only [hafter]

/-- Every call of the handler delivers what it commits. -/
theorem handleFetchResponse_delivers
    (happly : ∀ calls offset record, env.applyError calls offset record = none) (clock : Clock)
    (response : FetchResponse) (f : Follower σ κ)
    (hread :
      Readable env.codec ((mgr.handleFetchResponse env clock response f).2.state.entriesInRange
      f.state.highWatermark (mgr.handleFetchResponse env clock response f).2.state.highWatermark)) :
    Delivers env f (mgr.handleFetchResponse env clock response f).2 := by
  rcases handleFetchResponse_branches clock response f with hquiet |
    ⟨state, hhw, hvoters, hafter, -⟩
  · exact hquiet.delivers
  · rw [hafter, ← hhw] at hread
    rw [hafter]
    exact Delivers.of_update state hhw hvoters
      (advanceHighWatermark_delivers (advanceHighWatermark_ok happly hread))

/-- A call of the handler that succeeds delivers what it commits. -/
theorem handleFetchResponse_delivers_of_ok {clock : Clock} {response : FetchResponse}
    {f : Follower σ κ} {result : FetchResponseResult}
    (hok : (mgr.handleFetchResponse env clock response f).1 = .ok result) :
    Delivers env f (mgr.handleFetchResponse env clock response f).2 := by
  rcases handleFetchResponse_branches clock response f with hquiet |
    ⟨state, hhw, hvoters, hafter, hadvanced⟩
  · exact hquiet.delivers
  · rw [hafter]
    exact Delivers.of_update state hhw hvoters
      (advanceHighWatermark_delivers (hadvanced result hok))

/-- Between two states an initial part of the commands among some entries is applied. -/
def AppliesFirst (entries : List LogEntry) (before after : Follower σ κ) : Prop :=
  ∃ new, after.calls = before.calls ++ new ∧ applied new <+: appRecords entries

/-- A quiet call applies the empty part. -/
theorem Quiet.appliesFirst {before after : Follower σ κ} (h : Quiet before after)
    (entries : List LogEntry) : AppliesFirst entries before after := by
  obtain ⟨rest, hcalls, happlied, _⟩ := h.calls
  refine ⟨rest, hcalls, ?_⟩
  rw [happlied]
  exact List.nil_prefix

/-- The commands among entries whose first one is a command. -/
theorem appRecords_cons_command {e : LogEntry} (h : e.entryType = .command) (rest : List LogEntry) :
    appRecords (e :: rest) = (e.offset, e.asAppRecord) :: appRecords rest := by
  simp [appRecords, h]

/-- The commands among entries whose first one is none. -/
theorem appRecords_cons_other {e : LogEntry} (h : e.entryType ≠ .command) (rest : List LogEntry) :
    appRecords (e :: rest) = appRecords rest := by
  simp [appRecords, h]

/-- Applying entries applies the commands up to a failure. -/
theorem applyCommitted_appliesFirst (env : Collaborators σ κ) (entries : List LogEntry)
    (f : Follower σ κ) : AppliesFirst entries f (applyCommitted env entries f).2 := by
  induction entries generalizing f with
  | nil => exact (Quiet.of_update rfl rfl rfl).appliesFirst []
  | cons e rest ih =>
    rw [applyCommitted]
    cases htype : e.entryType with
    | command =>
      dsimp only
      cases env.applyError f.calls e.offset e.asAppRecord with
      | some reason =>
        refine ⟨_, rfl, ?_⟩
        rw [appRecords_cons_command htype]
        exact List.prefix_append [(e.offset, e.asAppRecord)] (appRecords rest)
      | none =>
        obtain ⟨new, hcalls, happlied⟩ := ih (f.call [.apply e.offset e.asAppRecord])
        refine ⟨.apply e.offset e.asAppRecord :: new, ?_, ?_⟩
        · rw [hcalls]
          simp [Follower.call]
        · rw [appRecords_cons_command htype]
          exact (List.prefix_cons_inj _).mpr happlied
    | leaderChangeMessage =>
      obtain ⟨new, hcalls, happlied⟩ := ih (f.update { f.state with
        leaderEpochCheckpoint :=
          Function.update f.state.leaderEpochCheckpoint e.term (some e.offset) })
      refine ⟨new, hcalls, ?_⟩
      rwa [appRecords_cons_other (by simp [htype])]
    | votersRecord =>
      dsimp only
      cases env.codec.deserialize e.payload with
      | error reason => exact (Quiet.of_update rfl rfl rfl).appliesFirst _
      | ok record =>
        obtain ⟨new, hcalls, happlied⟩ := ih (f.update (adoptVoters f.state record e.offset))
        refine ⟨new, hcalls, ?_⟩
        rwa [appRecords_cons_other (by simp [htype])]

/-- The commit notification applies the commands of its range up to a failure. -/
theorem executeCommitNotification_appliesFirst (env : Collaborators σ κ) (oldHw newHw : ℕ)
    (f : Follower σ κ) :
    AppliesFirst (f.state.entriesInRange oldHw newHw) f
      (executeCommitNotification env oldHw newHw f).2 := by
  obtain ⟨new, hcalls, happlied⟩ :=
    applyCommitted_appliesFirst env (f.state.entriesInRange oldHw newHw) f
  unfold executeCommitNotification
  dsimp only
  split
  · rename_i hresult
    rw [hresult] at hcalls
    exact ⟨new, hcalls, happlied⟩
  · rename_i after hresult
    rw [hresult] at hcalls
    obtain ⟨hsettled, _⟩ := applied_commits_settled (after.queue.complete newHw).1
      (fun x => .complete x.1 x.2) (fun _ => Or.inl rfl)
    refine ⟨new ++ .handleCommit (appRecords (f.state.entriesInRange oldHw newHw)) ::
      (after.queue.complete newHw).1.map fun x => .complete x.1 x.2, ?_, ?_⟩
    · change after.calls ++ [_] ++ _ = _
      change after.calls = _ at hcalls
      rw [hcalls]
      simp [Follower.call]
    · rw [applied_append]
      change applied new ++ applied ((after.queue.complete newHw).1.map _) <+: _
      rw [hsettled, List.append_nil]
      exact happlied

/-- Every call of the handler applies an initial part of the commands it commits. -/
theorem handleFetchResponse_appliesFirst (mgr : ReplicationManager) (env : Collaborators σ κ)
    (clock : Clock) (response : FetchResponse) (f : Follower σ κ) :
    AppliesFirst ((mgr.handleFetchResponse env clock response f).2.state.entriesInRange
      f.state.highWatermark (mgr.handleFetchResponse env clock response f).2.state.highWatermark) f
      (mgr.handleFetchResponse env clock response f).2 := by
  rcases handleFetchResponse_branches clock response f with hquiet |
    ⟨state, hhw, hvoters, hafter, -⟩
  · exact hquiet.appliesFirst _
  · rw [hafter, ← hhw]
    have hadvances := advanceHighWatermark_advances env response.highWatermark (f.update state)
    generalize advanceHighWatermark env response.highWatermark (f.update state) =
      outcome at hadvances ⊢
    cases hadvances with
    | kept =>
      have hquiet : Quiet f (f.update state) := Quiet.of_update hhw hvoters rfl
      exact hquiet.appliesFirst _
    | raised newHw _ _ _ houtcome hraised hrange =>
      rw [hraised, hrange, ← houtcome]
      exact executeCommitNotification_appliesFirst env state.highWatermark newHw
        ((f.update state).update { state with highWatermark := newHw })

/-- Records handed to the state machine between two states are commands among some entries. -/
def OnlyApplies (entries : List LogEntry) (before after : Follower σ κ) : Prop :=
  ∃ new, after.calls = before.calls ++ new ∧
    ∀ x ∈ applied new, ∃ e ∈ entries, e.entryType = .command ∧ x = (e.offset, e.asAppRecord)

/-- Every call of the handler applies commands between the watermarks before and after it only. -/
theorem handleFetchResponse_onlyApplies (mgr : ReplicationManager) (env : Collaborators σ κ)
    (clock : Clock) (response : FetchResponse) (f : Follower σ κ) :
    OnlyApplies ((mgr.handleFetchResponse env clock response f).2.state.entriesInRange
      f.state.highWatermark (mgr.handleFetchResponse env clock response f).2.state.highWatermark) f
      (mgr.handleFetchResponse env clock response f).2 := by
  obtain ⟨new, hcalls, hfirst⟩ := mgr.handleFetchResponse_appliesFirst env clock response f
  refine ⟨new, hcalls, fun x hx => ?_⟩
  obtain ⟨e, hcommand, rfl⟩ := List.mem_map.mp (hfirst.subset hx)
  obtain ⟨he, htype⟩ := List.mem_filter.mp hcommand
  exact ⟨e, he, of_decide_eq_true htype, rfl⟩

/-- A range of a well-formed log splits at any offset within it. -/
theorem entriesInRange_split {state : NodeState} (h : state.view.WellFormed) {low middle high : ℕ}
    (hlow : low ≤ middle) (hhigh : middle ≤ high) :
    state.entriesInRange low high = state.entriesInRange low middle ++
      state.entriesInRange middle high := by
  have hsplit := h.contiguous.filter_range_split hlow hhigh
  simp only [← Bool.decide_and] at hsplit
  exact hsplit

/-- The records of consecutive stretches of a log. -/
theorem appRecords_append (first second : List LogEntry) :
    appRecords (first ++ second) = appRecords first ++ appRecords second := by
  simp [appRecords]

/-- Progress keeps the entries that were committed and adds those up to the new watermark. -/
theorem committed_split {before after : NodeState} (hwf : after.view.WellFormed)
    (hprogress : Progress before.view after.view) {low : ℕ} (hlow : low ≤ before.highWatermark) :
    after.entriesInRange low after.highWatermark =
      before.entriesInRange low before.highWatermark ++
        after.entriesInRange before.highWatermark after.highWatermark := by
  have hraised : before.highWatermark ≤ after.highWatermark := hprogress.highWatermark
  have hkept : after.entriesInRange low before.highWatermark =
      before.entriesInRange low before.highWatermark :=
    hprogress.committed _ _ le_rfl
  rw [entriesInRange_split hwf hlow hraised, hkept]

/-- What a run of the handler has delivered between the watermarks before and after it. -/
structure Delivered (env : Collaborators σ κ) (before after : Follower σ κ) : Prop where
  calls : ∃ new, after.calls = before.calls ++ new ∧
    applied new = appRecords (after.state.entriesInRange
      before.state.highWatermark after.state.highWatermark) ∧
    (commits new).flatten = appRecords (after.state.entriesInRange
      before.state.highWatermark after.state.highWatermark)
  voters : after.state.voterSet = (RaftNode.latestVoters env.codec (after.state.entriesInRange
    before.state.highWatermark after.state.highWatermark)).getD before.state.voterSet

/-- The calls of one step, whether or not it raised the watermark. -/
theorem Delivers.delivered {before after : Follower σ κ} (h : Delivers env before after)
    (hle : before.state.highWatermark ≤ after.state.highWatermark) :
    Delivered env before after := by
  refine ⟨?_, h.voters⟩
  rcases Nat.eq_or_lt_of_le hle with heq | hlt
  · obtain ⟨rest, hcalls, happlied, hcommits⟩ := h.same heq.symm
    rw [← heq, entriesInRange_self]
    exact ⟨rest, hcalls, happlied, by rw [hcommits]; rfl⟩
  · obtain ⟨rest, hcalls, happlied, hcommits⟩ := h.raised hlt
    refine ⟨_, hcalls, ?_, ?_⟩
    · rw [applied_append, applied_applies]
      change _ ++ applied rest = _
      rw [happlied, List.append_nil]
    · rw [commits_append, commits_applies]
      change (_ :: commits rest).flatten = _
      rw [hcommits]
      simp

/-- Two stretches of a run deliver one after the other. -/
theorem Delivered.trans {before middle after : Follower σ κ} (hwf : after.state.view.WellFormed)
    (hprogress : Progress before.state.view middle.state.view)
    (hprogress' : Progress middle.state.view after.state.view)
    (h : Delivered env before middle) (h' : Delivered env middle after) :
    Delivered env before after := by
  obtain ⟨⟨new, hnew, happlied, hcommits⟩, hvoters⟩ := h
  obtain ⟨⟨new', hnew', happlied', hcommits'⟩, hvoters'⟩ := h'
  have hbefore : before.state.highWatermark ≤ middle.state.highWatermark := hprogress.highWatermark
  have hsplit := committed_split hwf hprogress' hbefore
  refine ⟨⟨new ++ new', ?_, ?_, ?_⟩, ?_⟩
  · rw [hnew', hnew, List.append_assoc]
  · rw [applied_append, happlied, happlied', hsplit, appRecords_append]
  · rw [commits_append, List.flatten_append, hcommits, hcommits', hsplit, appRecords_append]
  · rw [hsplit, latestVoters_append, hvoters', hvoters]

/-- A run over readable entries delivers what it commits. -/
theorem Handled.delivered
    (happly : ∀ calls offset record, env.applyError calls offset record = none)
    {before after : Follower σ κ} (h : before.state.view.WellFormed)
    (hrun : mgr.Handled env before after) (hread : Readable env.codec
      (after.state.entriesInRange before.state.highWatermark after.state.highWatermark)) :
    Delivered env before after := by
  induction hrun with
  | refl =>
    refine ⟨⟨[], (List.append_nil _).symm, ?_, ?_⟩, ?_⟩
    · rw [entriesInRange_self]
      rfl
    · rw [entriesInRange_self]
      rfl
    · rw [entriesInRange_self]
      rfl
  | @tail middle last hrun hstep ih =>
    have hmiddle := Handled.wellFormed_progress hrun h
    have hlast := Handled.wellFormed_progress (.single hstep) hmiddle.1
    -- what was committed before the last call is still in the log
    have hbefore : before.state.highWatermark ≤ middle.state.highWatermark :=
      hmiddle.2.highWatermark
    rw [committed_split hlast.1 hlast.2 hbefore] at hread
    obtain ⟨hfirst, hsecond⟩ := Readable.of_append hread
    obtain ⟨clock, response, rfl⟩ := hstep
    have hdelivers := handleFetchResponse_delivers happly clock response middle hsecond
    exact (ih hfirst).trans hlast.1 hmiddle.2 hlast.2 (hdelivers.delivered hlast.2.highWatermark)

/-- Exactly-once, in-order delivery over any sequence of fetch responses. -/
theorem exactly_once_delivery (mgr : ReplicationManager) (env : Collaborators σ κ)
    (happly : ∀ calls offset record, env.applyError calls offset record = none)
    {before after : Follower σ κ} (h : before.state.view.WellFormed)
    (hrun : mgr.Handled env before after) (hread : Readable env.codec
      (after.state.entriesInRange before.state.highWatermark after.state.highWatermark)) :
    Delivered env before after ∧
      ∀ f g, mgr.Handled env before f → mgr.Handles env f g → mgr.Handled env g after →
        Delivers env f g := by
  refine ⟨hrun.delivered happly h hread, fun f g hf hstep hg => ?_⟩
  obtain ⟨hwf, hprogress⟩ := Handled.wellFormed_progress hf h
  obtain ⟨hwg, hprogress'⟩ := Handled.wellFormed_progress (.single hstep) hwf
  obtain ⟨hwa, hlast⟩ := Handled.wellFormed_progress hg hwg
  -- the entries that the call commits are part of what the run commits
  have hbefore : before.state.highWatermark ≤ f.state.highWatermark := hprogress.highWatermark
  rw [committed_split hwa hlast (hbefore.trans hprogress'.highWatermark),
    committed_split hwg hprogress' hbefore] at hread
  have hcall := (Readable.of_append (Readable.of_append hread).1).2
  obtain ⟨clock, response, rfl⟩ := hstep
  exact handleFetchResponse_delivers happly clock response f hcall

/-- A command, a truncation, then a voters record and a command: two commands and the voters are
delivered. -/
theorem exactly_once_delivery_voters :
    ∃ after : Follower Unit Bool,
      after.state.highWatermark = 3 ∧
      (∃ new, after.calls = [] ++ new ∧
        applied new = [(0, ⟨[]⟩), (2, ⟨[]⟩)] ∧ (commits new).flatten = [(0, ⟨[]⟩), (2, ⟨[]⟩)]) ∧
      after.state.voterSet = [⟨1, "a"⟩, ⟨2, "b"⟩] := by
  have hwf : (followerOf 1 1 0 [commandEntry 0 1, commandEntry 1 1]).state.view.WellFormed :=
    ⟨by decide, rfl, by decide, by decide⟩
  have hdelivery := exactly_once_delivery ⟨1024, 50⟩ acceptingEnv (fun _ _ _ => rfl) hwf
    (((Relation.ReflTransGen.refl.tail ⟨⟨0, 0⟩, ⟨3, 2, 1, 0, [], none, none⟩, rfl⟩).tail
      ⟨⟨0, 0⟩, ⟨3, 2, 1, 0, [], some ⟨1, 1⟩, none⟩, rfl⟩).tail
      ⟨⟨0, 0⟩, ⟨3, 2, 3, 0, [⟨1, 2, .votersRecord, [1]⟩, commandEntry 2 2], none, none⟩, rfl⟩)
    (fun e he htype => by
      have hmem : e ∈ [commandEntry 0 1, ⟨1, 2, .votersRecord, [1]⟩, commandEntry 2 2] := he
      simp only [List.mem_cons, List.not_mem_nil, or_false] at hmem
      rcases hmem with rfl | rfl | rfl
      · cases htype
      · exact ⟨_, rfl⟩
      · cases htype)
  exact ⟨_, rfl, hdelivery.1.calls, hdelivery.1.voters⟩

end ReplicationManager

end XRaft
