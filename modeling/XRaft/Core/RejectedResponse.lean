import XRaft.Core.Delivery

/-!
# What a rejected fetch response leaves behind

The handler validates a response in several places. Term, vote, leader, role and the votes
of an election are settled by the first of them and never touched again, so a response
that is refused later has changed them exactly if it brought a new term or leader.

The log, the watermark and the application are touched in the normal branch only, after
its last check of the entries. A refusal that comes later still, from a voters record that
cannot be read while it is committed, leaves entries committed that were never applied and
appended that were never handed to storage.
-/

namespace XRaft

open Lib

/-- What a node knows of the current term and its elections. -/
structure NodeStanding where
  currentTerm : ℕ
  votedFor : Option NodeId
  leaderId : Option NodeId
  role : Role
  votesReceived : Finset NodeId
  preVotesReceived : Finset NodeId

/-- The part of the node state that a rejected response must not touch. -/
def NodeState.standing (state : NodeState) : NodeStanding where
  currentTerm := state.currentTerm
  votedFor := state.votedFor
  leaderId := state.leaderId
  role := state.role
  votesReceived := state.votesReceived
  preVotesReceived := state.preVotesReceived

/-- The error tells that the message was refused. -/
def XraftError.IsRejection : XraftError → Prop
  | .invalidResponse _ => True
  | .invalidClusterId => True
  | _ => False

namespace ReplicationManager

variable {σ κ : Type*} (mgr : ReplicationManager) (env : Collaborators σ κ) (clock : Clock)
  (response : FetchResponse) (f : Follower σ κ)

section NodeStanding

/-- Validation leaves the standing alone exactly if there is nothing to adopt. -/
theorem standing_validateAndUpdateTerm_iff (state : NodeState) :
    (validateAndUpdateTerm state response).2.standing = state.standing ↔
      ¬ Adopts state response := by
  have hvalid := validateAndUpdateTerm_validated response state
  generalize validateAndUpdateTerm state response = outcome at hvalid ⊢
  cases hvalid with
  | refused reason hsame => exact iff_of_true rfl hsame
  | same hsame => exact iff_of_true rfl hsame
  | follow hterm =>
    refine iff_of_false (fun heq => ?_) (not_not_intro (.inl hterm))
    have hsame : response.leaderEpoch = state.currentTerm := congrArg NodeStanding.currentTerm heq
    omega
  | discover hterm hrole hnone =>
    refine iff_of_false (fun heq => ?_) (not_not_intro (.inr ⟨hterm, hrole, hnone⟩))
    have hsame : some response.leaderId = state.leaderId := congrArg NodeStanding.leaderId heq
    rw [hnone] at hsame
    cases hsame

/-- Applying committed entries leaves the standing alone. -/
theorem standing_applyCommitted (entries : List LogEntry) :
    (applyCommitted env entries f).2.state.standing = f.state.standing := by
  obtain ⟨voters, pending, epochs, hstate⟩ := state_applyCommitted env entries f
  rw [hstate]
  rfl

/-- The commit notification leaves the standing alone. -/
theorem standing_executeCommitNotification (oldHw newHw : ℕ) :
    (executeCommitNotification env oldHw newHw f).2.state.standing = f.state.standing := by
  have hstanding := standing_applyCommitted env f (f.state.entriesInRange oldHw newHw)
  unfold executeCommitNotification
  dsimp only
  split
  · rename_i happly
    rw [happly] at hstanding
    exact hstanding
  · rename_i happly
    rw [happly] at hstanding
    exact hstanding

/-- Advancing the high watermark leaves the standing alone. -/
theorem standing_advanceHighWatermark (leaderHw : ℕ) :
    (advanceHighWatermark env leaderHw f).2.state.standing = f.state.standing := by
  have hadvances := advanceHighWatermark_advances env leaderHw f
  generalize advanceHighWatermark env leaderHw f = outcome at hadvances ⊢
  cases hadvances with
  | kept => rfl
  | raised newHw _ _ _ houtcome =>
    rw [← houtcome, standing_executeCommitNotification]
    rfl

/-- After the validation nothing touches the standing, whatever the handler returns. -/
theorem standing_handleFetchResponse :
    (mgr.handleFetchResponse env clock response f).2.state.standing =
      (validateAndUpdateTerm f.state response).2.standing := by
  have hroute := handleFetchResponse_route mgr env clock response f
  generalize mgr.handleFetchResponse env clock response f = outcome at hroute ⊢
  cases hroute with
  | refused e => rfl
  | snapshot deferred state hvalid snapshotId =>
    rw [hvalid, state_handleSnapshot]
    rfl
  | divergence deferred state hvalid diverging hdiverging =>
    rw [hvalid]
    unfold handleDivergence
    dsimp only
    split <;> rfl
  | entries deferred state hvalid hdiverging =>
    rw [hvalid]
    cases hcheck : checkEntries (f.update (mgr.resetTimers state clock)).state response.entries with
    | some e =>
      rw [handleEntries_of_refused env response hcheck]
      rfl
    | none =>
      rw [handleEntries_of_checked env response hcheck, standing_advanceHighWatermark]
      rfl

/-- The envelope reaches the handler of fetch responses with something to adopt. -/
def AdoptsFrom (state : NodeState) (envelope : RpcEnvelope) : Prop :=
  envelope.clusterId = state.clusterId ∧ ∃ response, envelope.payload = .fetchResponse response ∧
    envelope.source = response.leaderId ∧ Adopts state response

/-- Dispatching an envelope leaves the standing alone exactly if there is nothing to adopt. -/
theorem standing_handleMessage_iff (envelope : RpcEnvelope) :
    (mgr.handleMessage env clock envelope f).2.state.standing = f.state.standing ↔
      ¬ AdoptsFrom f.state envelope := by
  unfold handleMessage
  split
  · rename_i hcluster
    exact iff_of_true rfl fun hadopts => hcluster hadopts.1
  · rename_i hcluster
    split
    · rename_i response hpayload
      dsimp only
      split
      · rename_i hsource
        refine iff_of_true rfl fun hadopts => ?_
        obtain ⟨-, found, hfound, hleader, -⟩ := hadopts
        rw [hpayload, RpcPayload.fetchResponse.injEq] at hfound
        rw [← hfound] at hleader
        exact hsource hleader
      · rename_i hsource
        rw [standing_handleFetchResponse, standing_validateAndUpdateTerm_iff, not_iff_not]
        refine ⟨fun hadopts => ⟨not_not.mp hcluster, response, hpayload, not_not.mp hsource,
          hadopts⟩, ?_⟩
        rintro ⟨-, found, hfound, -, hadopts⟩
        rw [hpayload, RpcPayload.fetchResponse.injEq] at hfound
        rw [hfound]
        exact hadopts
    · rename_i other
      refine iff_of_true rfl fun hadopts => ?_
      obtain ⟨-, found, hfound, -⟩ := hadopts
      exact other found hfound

end NodeStanding

/-- A rejected response leaves term, vote, leader, role and votes alone exactly if it brings no
term and no leader the node does not have; likewise a rejected envelope. -/
theorem rejected_keeps_standing_iff :
    (∀ e, (mgr.handleFetchResponse env clock response f).1 = .error e → e.IsRejection →
      ((mgr.handleFetchResponse env clock response f).2.state.standing = f.state.standing ↔
        ¬ Adopts f.state response)) ∧
    ∀ envelope e, (mgr.handleMessage env clock envelope f).1 = .error e → e.IsRejection →
      ((mgr.handleMessage env clock envelope f).2.state.standing = f.state.standing ↔
        ¬ AdoptsFrom f.state envelope) := by
  refine ⟨fun _ _ _ => ?_,
    fun envelope _ _ _ => standing_handleMessage_iff mgr env clock f envelope⟩
  rw [standing_handleFetchResponse]
  exact standing_validateAndUpdateTerm_iff response f.state

/-- A gap in the entries of a known leader is rejected without a trace. -/
theorem rejected_keeps_standing_gap :
    (handleFetchResponse ⟨1024, 50⟩ acceptingEnv ⟨0, 0⟩ ⟨1, 1, 0, 0, [commandEntry 5 1], none, none⟩
        (followerOf 1 1 0 [])).1 =
      .error (.invalidResponse "first entry offset 5 does not match log_end_offset 0") ∧
    (handleFetchResponse ⟨1024, 50⟩ acceptingEnv ⟨0, 0⟩ ⟨1, 1, 0, 0, [commandEntry 5 1], none, none⟩
        (followerOf 1 1 0 [])).2.state.standing = (followerOf 1 1 0 []).state.standing := by
  refine ⟨rfl, ?_⟩
  have hsame : ¬ Adopts (followerOf 1 1 0 []).state ⟨1, 1, 0, 0, [commandEntry 5 1],
      none, none⟩ := by
    rintro (hterm | ⟨-, -, hleader⟩)
    · exact absurd hterm (by decide)
    · cases hleader
  exact ((rejected_keeps_standing_iff ⟨1024, 50⟩ acceptingEnv ⟨0, 0⟩
    ⟨1, 1, 0, 0, [commandEntry 5 1], none, none⟩ (followerOf 1 1 0 [])).1 _ rfl trivial).mpr hsame

/-- A response of term 2 that names both a snapshot and a divergence is rejected. The follower of
term 1 follows the leader of term 2 all the same, and nothing was saved. -/
theorem rejected_adopts_term :
    (handleFetchResponse ⟨1024, 50⟩ acceptingEnv ⟨0, 0⟩ ⟨3, 2, 0, 0, [], some ⟨1, 0⟩, some ⟨1, 1⟩⟩
        (followerOf 1 1 0 [])).1 = .error bothFields ∧
    (followerOf 1 1 0 []).state.currentTerm = 1 ∧
    (handleFetchResponse ⟨1024, 50⟩ acceptingEnv ⟨0, 0⟩ ⟨3, 2, 0, 0, [], some ⟨1, 0⟩, some ⟨1, 1⟩⟩
        (followerOf 1 1 0 [])).2.state.currentTerm = 2 ∧
    (handleFetchResponse ⟨1024, 50⟩ acceptingEnv ⟨0, 0⟩ ⟨3, 2, 0, 0, [], some ⟨1, 0⟩, some ⟨1, 1⟩⟩
        (followerOf 1 1 0 [])).2.state.leaderId = some 3 :=
  ⟨rfl, rfl, rfl, rfl⟩

section Untouched

/-- Log, watermark, voters and epochs, the application and its clients are as before. -/
structure Untouched (before after : Follower σ κ) : Prop where
  log : after.state.log = before.state.log
  logEndOffset : after.state.logEndOffset = before.state.logEndOffset
  highWatermark : after.state.highWatermark = before.state.highWatermark
  voterSet : after.state.voterSet = before.state.voterSet
  leaderEpochCheckpoint : after.state.leaderEpochCheckpoint = before.state.leaderEpochCheckpoint
  calls : after.calls = before.calls
  queue : after.queue = before.queue

/-- The response passes every check in front of the normal branch and in it. -/
structure Processes (state : NodeState) (response : FetchResponse) : Prop where
  accepted : ∃ deferred, (validateAndUpdateTerm state response).1 = .ok deferred
  snapshotId : response.snapshotId = none
  divergingEpoch : response.divergingEpoch = none
  entries : checkEntries state response.entries = none

/-- The entries that the normal branch commits. -/
def committedBy (state : NodeState) (response : FetchResponse) : List LogEntry :=
  (state.appendEntries response.entries).entriesInRange state.highWatermark
    (min response.highWatermark (state.logEndOffset + response.entries.length))

/-- Every voters record that the response commits can be read. -/
def CommitsReadable (codec : VotersCodec) (state : NodeState) (response : FetchResponse) : Prop :=
  Processes state response → Readable codec (committedBy state response)

/-- Validation touches nothing but the standing. -/
theorem untouched_validateAndUpdateTerm :
    Untouched f (f.update (validateAndUpdateTerm f.state response).2) := by
  have hvalid := validateAndUpdateTerm_validated response f.state
  generalize validateAndUpdateTerm f.state response = outcome at hvalid ⊢
  cases hvalid <;> exact ⟨rfl, rfl, rfl, rfl, rfl, rfl, rfl⟩

/-- Resetting the timers touches nothing else. -/
theorem Untouched.resetTimers {state : NodeState} (h : Untouched f (f.update state)) :
    Untouched f (f.update (mgr.resetTimers state clock)) :=
  ⟨h.log, h.logEndOffset, h.highWatermark, h.voterSet, h.leaderEpochCheckpoint, rfl, rfl⟩

/-- The check of the entries looks at the end of the log only. -/
theorem checkEntries_congr {state other : NodeState} (h : other.logEndOffset = state.logEndOffset)
    (entries : List LogEntry) : checkEntries other entries = checkEntries state entries := by
  cases entries with
  | nil => rfl
  | cons first rest =>
    unfold checkEntries
    rw [h]

/-- A response that is processed goes through the normal branch. -/
theorem handleFetchResponse_of_processes (h : Processes f.state response) :
    ∃ deferred state, validateAndUpdateTerm f.state response = (.ok deferred, state) ∧
      mgr.handleFetchResponse env clock response f =
        handleEntries env response deferred (f.update (mgr.resetTimers state clock)) := by
  obtain ⟨deferred, hdeferred⟩ := h.accepted
  have hvalid : validateAndUpdateTerm f.state response =
      (.ok deferred, (validateAndUpdateTerm f.state response).2) := Prod.ext hdeferred rfl
  refine ⟨deferred, _, hvalid, ?_⟩
  unfold handleFetchResponse
  rw [hvalid, h.snapshotId, h.divergingEpoch]
  rfl

/-- The snapshot branch does not fail. -/
theorem handleSnapshot_ne_error (snapshotId : SnapshotId) (deferred : Option QuorumState)
    (e : XraftError) : (handleSnapshot env response snapshotId deferred f).1 ≠ .error e := by
  unfold handleSnapshot
  split <;> exact nofun

/-- The divergence branch fails without a change. -/
theorem handleDivergence_of_error {diverging : DivergingEpoch} {deferred : Option QuorumState}
    {e : XraftError} (h : (mgr.handleDivergence diverging deferred f).1 = .error e) :
    (mgr.handleDivergence diverging deferred f).2 = f := by
  unfold handleDivergence at h ⊢
  dsimp only at h ⊢
  split
  · rfl
  · rename_i hpoint
    rw [if_neg hpoint] at h
    cases h

/-- A response that fails without being processed touches nothing. -/
theorem untouched_of_not_processes {e : XraftError}
    (herror : (mgr.handleFetchResponse env clock response f).1 = .error e)
    (h : ¬ Processes f.state response) :
    Untouched f (mgr.handleFetchResponse env clock response f).2 := by
  have hkept := untouched_validateAndUpdateTerm response f
  unfold handleFetchResponse at herror ⊢
  cases hvalid : validateAndUpdateTerm f.state response with
  | mk result state =>
    rw [hvalid] at herror hkept
    cases result with
    | error reason => exact hkept
    | ok deferred =>
      have htimers := hkept.resetTimers mgr clock
      dsimp only at herror ⊢
      split
      · exact hkept
      · rename_i hboth
        rw [if_neg hboth] at herror
        cases hsnapshot : response.snapshotId with
        | some snapshotId =>
          rw [hsnapshot] at herror
          exact absurd herror (handleSnapshot_ne_error env response _ snapshotId deferred e)
        | none =>
          rw [hsnapshot] at herror
          cases hdiverging : response.divergingEpoch with
          | some diverging =>
            rw [hdiverging] at herror
            dsimp only at herror ⊢
            rw [handleDivergence_of_error mgr _ herror]
            exact htimers
          | none =>
            dsimp only
            have hcheck := checkEntries_congr htimers.logEndOffset response.entries
            cases hrefused : checkEntries f.state response.entries with
            | some reason =>
              rw [hrefused] at hcheck
              rw [handleEntries_of_refused env response hcheck]
              exact htimers
            | none => exact absurd ⟨⟨deferred, by rw [hvalid]⟩, hsnapshot, hdiverging, hrefused⟩ h

end Untouched

section Rejected

variable {mgr env clock response f}

/-- A commit that ends in a refusal met a voters record that cannot be read. -/
theorem not_readable_of_applyCommitted {entries : List LogEntry} {reason : String}
    {f after : Follower σ κ}
    (h : applyCommitted env entries f = (.error (.invalidResponse reason), after)) :
    ¬ Readable env.codec entries := by
  induction entries generalizing f with
  | nil => cases h
  | cons e rest ih =>
    have hrest : ¬ Readable env.codec rest → ¬ Readable env.codec (e :: rest) :=
      fun hnot hread => hnot fun x hx => hread x (List.mem_cons_of_mem _ hx)
    rw [applyCommitted] at h
    cases htype : e.entryType with
    | command =>
      simp only [htype] at h
      cases hfails : env.applyError f.calls e.offset e.asAppRecord with
      | some message =>
        rw [hfails] at h
        cases h
      | none =>
        rw [hfails] at h
        exact hrest (ih h)
    | leaderChangeMessage =>
      simp only [htype] at h
      exact hrest (ih h)
    | votersRecord =>
      simp only [htype] at h
      cases hrecord : env.codec.deserialize e.payload with
      | error message =>
        intro hread
        obtain ⟨record, hok⟩ := hread e List.mem_cons_self htype
        rw [hrecord] at hok
        cases hok
      | ok record =>
        rw [hrecord] at h
        exact hrest (ih h)

/-- A refusal while the high watermark advances comes after it was raised, from a record that
cannot be read. -/
theorem advanceHighWatermark_refused {leaderHw : ℕ} {reason : String}
    (h : (advanceHighWatermark env leaderHw f).1 = .error (.invalidResponse reason)) :
    f.state.highWatermark < min leaderHw f.state.logEndOffset ∧
      ¬ Readable env.codec
        (f.state.entriesInRange f.state.highWatermark (min leaderHw f.state.logEndOffset)) := by
  have hadvances := advanceHighWatermark_advances env leaderHw f
  generalize advanceHighWatermark env leaderHw f = outcome at h hadvances
  cases hadvances with
  | kept => cases h
  | raised newHw _ hnew hlt houtcome =>
    rw [← hnew]
    refine ⟨hlt, ?_⟩
    rw [← houtcome] at h
    unfold executeCommitNotification at h
    dsimp only at h
    split at h
    · rename_i happly
      cases h
      exact not_readable_of_applyCommitted happly
    · cases h

/-- A refusal of a response that was processed comes from a record that cannot be read, after the
high watermark was raised. -/
theorem not_untouched_of_processes (h : Processes f.state response) {reason : String}
    (herror : (mgr.handleFetchResponse env clock response f).1 = .error (.invalidResponse reason)) :
    ¬ Untouched f (mgr.handleFetchResponse env clock response f).2 ∧
      ¬ Readable env.codec (committedBy f.state response) := by
  obtain ⟨deferred, state, hvalid, hhandle⟩ :=
    handleFetchResponse_of_processes mgr env clock response f h
  have hkept := untouched_validateAndUpdateTerm response f
  rw [hvalid] at hkept
  have htimers := hkept.resetTimers mgr clock
  have hcheck := (checkEntries_congr htimers.logEndOffset response.entries).trans h.entries
  rw [hhandle] at herror ⊢
  have hrefused :
      (advanceHighWatermark env response.highWatermark
        ((f.update (mgr.resetTimers state clock)).update
      ((mgr.resetTimers state clock).appendEntries response.entries))).1 =
        .error (.invalidResponse reason) := by
    unfold handleEntries at herror
    simp only [hcheck] at herror
    split at herror
    · rename_i hadvanced
      cases herror
      exact congrArg Prod.fst hadvanced
    · cases herror
  obtain ⟨hraised, hread⟩ := advanceHighWatermark_refused hrefused
  have hlog : (mgr.resetTimers state clock).log = f.state.log := htimers.log
  have hend : (mgr.resetTimers state clock).logEndOffset = f.state.logEndOffset :=
    htimers.logEndOffset
  have hhw : (mgr.resetTimers state clock).highWatermark = f.state.highWatermark :=
    htimers.highWatermark
  refine ⟨fun hsame => ?_, ?_⟩
  · have hview := congrArg FollowerView.highWatermark (view_advanceHighWatermark env response
      ((f.update (mgr.resetTimers state clock)).update
        ((mgr.resetTimers state clock).appendEntries response.entries)))
    have hafter := hsame.highWatermark
    rw [handleEntries_of_checked env response hcheck] at hafter
    have hmax : f.state.highWatermark = max (mgr.resetTimers state clock).highWatermark
        (min response.highWatermark ((mgr.resetTimers state clock).logEndOffset +
          response.entries.length)) :=
      hafter.symm.trans hview
    change (mgr.resetTimers state clock).highWatermark <
      min response.highWatermark
      ((mgr.resetTimers state clock).logEndOffset + response.entries.length) at hraised
    omega
  · change ¬ Readable env.codec
      (((mgr.resetTimers state clock).appendEntries response.entries).entriesInRange
      (mgr.resetTimers state clock).highWatermark
      (min response.highWatermark ((mgr.resetTimers state clock).logEndOffset +
        response.entries.length))) at hread
    rw [hhw, hend] at hread
    unfold NodeState.entriesInRange NodeState.appendEntries at hread
    rw [hlog] at hread
    exact hread

/-- A rejected response touches nothing exactly if it commits no voters record that cannot be
read. -/
theorem untouched_iff {reason : String}
    (herror : (mgr.handleFetchResponse env clock response f).1 = .error (.invalidResponse reason)) :
    Untouched f (mgr.handleFetchResponse env clock response f).2 ↔
      CommitsReadable env.codec f.state response := by
  by_cases h : Processes f.state response
  · obtain ⟨htouched, hread⟩ := not_untouched_of_processes h herror
    exact iff_of_false htouched fun hreadable => hread (hreadable h)
  · exact iff_of_true (untouched_of_not_processes mgr env clock response f herror h)
      fun hprocesses =>
      absurd hprocesses h

end Rejected

end ReplicationManager

/-- A follower, and the actions its handler has handed to storage and network so far. -/
structure Replica (σ κ : Type*) where
  follower : Follower σ κ
  handed : List IoAction

namespace Replica

open ReplicationManager FollowerView

variable {σ κ : Type*} {mgr : ReplicationManager} {env : Collaborators σ κ} {clock : Clock}
  {response : FetchResponse}

/-- One call after which the caller keeps going: it succeeds, or the response is invalid. -/
inductive Step (mgr : ReplicationManager) (env : Collaborators σ κ) (clock : Clock)
    (response : FetchResponse) (replica : Replica σ κ) : Replica σ κ → Prop where
  | handled (result : FetchResponseResult) (after : Follower σ κ)
      (hok : mgr.handleFetchResponse env clock response replica.follower = (.ok result, after)) :
      Step mgr env clock response replica ⟨after, replica.handed ++ result.ioBatch.actions⟩
  | rejected (reason : String) (after : Follower σ κ)
      (herror : mgr.handleFetchResponse env clock response replica.follower =
        (.error (.invalidResponse reason), after)) :
      Step mgr env clock response replica ⟨after, replica.handed⟩

/-- A call with a response that commits no voters record that cannot be read. -/
def Continues (mgr : ReplicationManager) (env : Collaborators σ κ) (before after : Replica σ κ) :
    Prop :=
  ∃ clock response, CommitsReadable env.codec before.follower.state response ∧
    Step mgr env clock response before after

/-- Committed commands have been applied, and entries in memory have been handed to storage. -/
structure Complete (replica : Replica σ κ) : Prop where
  applied : ∀ e ∈ replica.follower.state.log, e.entryType = .command →
    e.offset < replica.follower.state.highWatermark →
    (e.offset, e.asAppRecord) ∈ applied replica.follower.calls
  handed : ∀ e ∈ replica.follower.state.log, ∃ entries, .appendLog entries ∈ replica.handed ∧
    e ∈ entries

/-- The divergence branch adds nothing to the log. -/
theorem mem_log_of_divergence {f : Follower σ κ} {diverging : DivergingEpoch}
    {deferred : Option QuorumState} {e : LogEntry}
    (he : e ∈ (mgr.handleDivergence diverging deferred f).2.state.log) : e ∈ f.state.log := by
  rcases view_handleDivergence mgr f diverging deferred with hview | ⟨-, hview⟩
  · have hsame : (mgr.handleDivergence diverging deferred f).2.state.log = f.state.log :=
      congrArg FollowerView.log hview
    exact hsame ▸ he
  · have hcut := congrArg FollowerView.log hview
    change (mgr.handleDivergence diverging deferred f).2.state.log = f.state.log.filter _ at hcut
    rw [hcut] at he
    exact List.mem_of_mem_filter he

/-- The normal branch appends the entries to the log and hands them to storage, if it succeeds. -/
theorem mem_log_of_entries {f after : Follower σ κ} {deferred : Option QuorumState}
    {result : FetchResponseResult}
    (hok : handleEntries env response deferred f = (.ok result, after)) {e : LogEntry}
    (he : e ∈ after.state.log) :
    e ∈ f.state.log ∨ .appendLog response.entries ∈ result.ioBatch.actions ∧
      e ∈ response.entries := by
  cases hcheck : checkEntries f.state response.entries with
  | some reason =>
    unfold handleEntries at hok
    simp only [hcheck] at hok
    cases hok
  | none =>
    have hadvanced := handleEntries_of_checked env response hcheck deferred
    have hview := congrArg FollowerView.log
      (view_advanceHighWatermark env response (f.update (f.state.appendEntries response.entries)))
    rw [← hadvanced, hok] at hview
    change after.state.log = f.state.log ++ response.entries at hview
    rw [hview] at he
    refine (List.mem_append.mp he).imp_right fun hnew => ⟨?_, hnew⟩
    unfold handleEntries at hok
    simp only [hcheck] at hok
    split at hok
    · cases hok
    · cases hok
      rw [if_neg (List.ne_nil_of_mem hnew)]
      exact List.mem_append_left _ List.mem_cons_self

/-- A call that succeeds hands the entries it appends to storage. -/
theorem mem_log_of_ok {f after : Follower σ κ} {result : FetchResponseResult}
    (hok : mgr.handleFetchResponse env clock response f = (.ok result, after)) {e : LogEntry}
    (he : e ∈ after.state.log) :
    e ∈ f.state.log ∨ .appendLog response.entries ∈ result.ioBatch.actions ∧
      e ∈ response.entries := by
  obtain ⟨-, hlog, -, -⟩ := (accepts_validateAndUpdateTerm response f.state).log_eq
  have hroute := handleFetchResponse_route mgr env clock response f
  generalize hout : mgr.handleFetchResponse env clock response f = outcome at hroute
  rw [hok] at hout
  cases hroute with
  | refused reason => cases hout
  | snapshot deferred state hvalid snapshotId =>
    rw [hvalid] at hlog
    have hstate :=
      state_handleSnapshot env response (f.update (mgr.resetTimers state clock)) snapshotId deferred
    rw [← hout] at hstate
    have hsame : after.state.log = f.state.log := (congrArg NodeState.log hstate).trans hlog
    exact .inl (hsame ▸ he)
  | divergence deferred state hvalid diverging hdiverging =>
    rw [hvalid] at hlog
    change state.log = f.state.log at hlog
    have hafter : after =
        (mgr.handleDivergence diverging deferred (f.update (mgr.resetTimers state clock))).2 :=
      congrArg Prod.snd hout
    rw [hafter] at he
    exact .inl (hlog ▸ mem_log_of_divergence he)
  | entries deferred state hvalid hdiverging =>
    rw [hvalid] at hlog
    change state.log = f.state.log at hlog
    exact (mem_log_of_entries hout.symm he).imp_left fun hold => hlog ▸ hold

/-- A call that succeeds applies the commands it commits. -/
theorem mem_applied_of_ok {f after : Follower σ κ} {result : FetchResponseResult}
    (hok : mgr.handleFetchResponse env clock response f = (.ok result, after))
    (hwf : f.state.view.WellFormed)
    (happlied : ∀ e ∈ f.state.log, e.entryType = .command → e.offset < f.state.highWatermark →
      (e.offset, e.asAppRecord) ∈ applied f.calls) {e : LogEntry} (he : e ∈ after.state.log)
    (htype : e.entryType = .command) (hcommitted : e.offset < after.state.highWatermark) :
    (e.offset, e.asAppRecord) ∈ applied after.calls := by
  have hafter : after = (mgr.handleFetchResponse env clock response f).2 := by rw [hok]
  have hprogress :=
    (Handled.wellFormed_progress (.single ⟨clock, response, hafter⟩ : mgr.Handled env f after)
      hwf).2
  have hdelivers := handleFetchResponse_delivers_of_ok (congrArg Prod.fst hok)
  rw [← hafter] at hdelivers
  obtain ⟨⟨new, hcalls, hnew, -⟩, -⟩ := hdelivers.delivered hprogress.highWatermark
  rw [hcalls, applied_append]
  by_cases hbefore : e.offset < f.state.highWatermark
  · -- what was committed before is still in the log and was applied then
    have hkept : after.state.entriesInRange 0 f.state.highWatermark =
        f.state.entriesInRange 0 f.state.highWatermark := hprogress.committed 0 _ (Nat.le_refl _)
    have hmem : e ∈ after.state.entriesInRange 0 f.state.highWatermark :=
      List.mem_filter.mpr ⟨he, decide_eq_true ⟨Nat.zero_le _, hbefore⟩⟩
    rw [hkept] at hmem
    exact List.mem_append_left _ (happlied e (List.mem_of_mem_filter hmem) htype hbefore)
  · refine List.mem_append_right _ ?_
    rw [hnew]
    refine List.mem_map.mpr ⟨e, List.mem_filter.mpr ⟨?_, decide_eq_true htype⟩, rfl⟩
    exact List.mem_filter.mpr ⟨he, decide_eq_true ⟨Nat.not_lt.mp hbefore, hcommitted⟩⟩

/-- A call that may be rejected, but commits no record that cannot be read, keeps the replica
complete. -/
theorem Complete.step {before after : Replica σ κ} (h : before.Complete)
    (hwf : before.follower.state.view.WellFormed)
    (hreadable : CommitsReadable env.codec before.follower.state response)
    (hstep : Step mgr env clock response before after) : after.Complete := by
  cases hstep with
  | handled result after hok =>
    refine ⟨fun e he htype hcommitted => mem_applied_of_ok hok hwf h.applied he htype hcommitted,
      fun e he => ?_⟩
    rcases mem_log_of_ok hok he with hold | ⟨hhanded, hnew⟩
    · obtain ⟨entries, hentries, hmem⟩ := h.handed e hold
      exact ⟨entries, List.mem_append_left _ hentries, hmem⟩
    · exact ⟨response.entries, List.mem_append_right _ hhanded, hnew⟩
  | rejected reason after herror =>
    have hsame := (untouched_iff (congrArg Prod.fst herror)).mpr hreadable
    rw [herror] at hsame
    refine ⟨fun e he htype hcommitted => ?_, fun e he => h.handed e (hsame.log ▸ he)⟩
    rw [hsame.calls]
    exact h.applied e (hsame.log ▸ he) htype (hsame.highWatermark ▸ hcommitted)

/-- Every call of a run is a call of the handler. -/
theorem Step.handles {before after : Replica σ κ}
    (hstep : Step mgr env clock response before after) :
    mgr.Handles env before.follower after.follower := by
  cases hstep with
  | handled result after hok => exact ⟨clock, response, by rw [hok]⟩
  | rejected reason after herror => exact ⟨clock, response, by rw [herror]⟩

/-- A run keeps a well-formed replica well formed and complete. -/
theorem Complete.run {first last : Replica σ κ} (hwf : first.follower.state.view.WellFormed)
    (h : first.Complete) (hrun : Relation.ReflTransGen (Continues mgr env) first last) :
    last.follower.state.view.WellFormed ∧ last.Complete := by
  induction hrun with
  | refl => exact ⟨hwf, h⟩
  | tail _ hcall ih =>
    obtain ⟨clock, response, hreadable, hstep⟩ := hcall
    exact ⟨(Handled.wellFormed_progress (.single hstep.handles) ih.1).1,
      ih.2.step ih.1 hreadable hstep⟩

end Replica

end XRaft
