import XRaft.Core.FollowerView

/-!
# Every fetch response is made of moves

One lemma for each part of the handler says what it does to the replication view, and
`handleFetchResponse_effect` puts them together: a response first changes term and
leader or nothing, and then either leaves the log alone, or truncates it at the point it
names, or extends it with its entries and raises the high watermark. This holds for
arbitrary responses and for calls that fail halfway. The invariant of the follower over
whole runs follows from the moves.
-/

namespace XRaft

open Lib

namespace FollowerView

/-- What the validation of a response may do to the view. -/
inductive Accepts (response : FetchResponse) (view : FollowerView) : FollowerView → Prop where
  | same : Accepts response view view
  | follow (hterm : view.currentTerm < response.leaderEpoch) :
      Accepts response view (view.follow response.leaderEpoch response.leaderId)
  | discover (hnone : view.leaderId = none) : Accepts response view
      (view.discover response.leaderId)

/-- The high watermark after a response to a log that ends at `endOffset`. -/
def advanced (response : FetchResponse) (highWatermark endOffset : ℕ) : ℕ :=
  max highWatermark (min response.highWatermark endOffset)

/-- What a response may do to the view. -/
inductive Effect (response : FetchResponse) (view : FollowerView) : FollowerView → Prop where
  | kept (accepted : FollowerView) (haccept : Accepts response view accepted) : Effect response
      view accepted
  | truncated (accepted : FollowerView) (haccept : Accepts response view accepted)
      (diverging : DivergingEpoch) (hdiverging : response.divergingEpoch = some diverging)
      (hpoint : view.highWatermark ≤ min diverging.endOffset view.logEndOffset) :
      Effect response view (accepted.truncate (min diverging.endOffset view.logEndOffset))
  | extended (accepted : FollowerView) (haccept : Accepts response view accepted)
      (hdiverging : response.divergingEpoch = none)
      (hentries : Consecutive LogEntry.offset view.logEndOffset response.entries) :
      Effect response view ((accepted.extend response.entries).commit
        (advanced response view.highWatermark (view.logEndOffset + response.entries.length)))

variable {response : FetchResponse} {view after : FollowerView}

/-- Validation leaves the log and its watermark alone. -/
theorem Accepts.log_eq (h : Accepts response view after) :
    after.logStartOffset = view.logStartOffset ∧ after.log = view.log ∧
      after.logEndOffset = view.logEndOffset ∧ after.highWatermark = view.highWatermark := by
  cases h <;> exact ⟨rfl, rfl, rfl, rfl⟩

/-- Validation is at most one move. -/
theorem Accepts.moves (h : Accepts response view after) : Moves view after := by
  cases h with
  | same => exact .refl
  | follow hterm => exact .single (.follow view _ _ hterm)
  | discover hnone => exact .single (.discover view _ hnone)

/-- The effect of a response on a well-formed view is made of moves. -/
theorem Effect.moves (h : Effect response view after)
    (hview : view.highWatermark ≤ view.logEndOffset) : Moves view after := by
  cases h with
  | kept _ haccept => exact haccept.moves
  | truncated accepted haccept diverging _ hpoint =>
    obtain ⟨_, _, hend, hhw⟩ := haccept.log_eq
    refine haccept.moves.tail (.truncate accepted _ ?_ ?_)
    · rw [hhw]
      exact hpoint
    · rw [hend]
      exact min_le_right _ _
  | extended accepted haccept _ hentries =>
    obtain ⟨_, _, hend, hhw⟩ := haccept.log_eq
    refine (haccept.moves.tail (.extend accepted response.entries ?_)).tail (.commit _ _ ?_ ?_)
    · rw [hend]
      exact hentries
    · change accepted.highWatermark ≤ _
      rw [hhw]
      exact le_max_left _ _
    · change advanced response _ _ ≤ accepted.logEndOffset + response.entries.length
      rw [hend]
      exact max_le (by omega) (min_le_right _ _)

end FollowerView

namespace ReplicationManager

open FollowerView

variable {σ κ : Type*} (mgr : ReplicationManager) (env : Collaborators σ κ) (clock : Clock)
  (response : FetchResponse) (f : Follower σ κ)

/-- The response brings a term or a leader the node does not have yet. -/
def Adopts (state : NodeState) (response : FetchResponse) : Prop :=
  state.currentTerm < response.leaderEpoch ∨
    response.leaderEpoch = state.currentTerm ∧ state.role = .follower ∧ state.leaderId = none

/-- Everything the validation of a response may do. -/
inductive Validated (state : NodeState) (response : FetchResponse) :
    Except XraftError (Option QuorumState) × NodeState → Prop where
  | refused (reason : String) (hsame : ¬ Adopts state response) :
      Validated state response (.error (.invalidResponse reason), state)
  | same (hsame : ¬ Adopts state response) : Validated state response (.ok none, state)
  | follow (hterm : state.currentTerm < response.leaderEpoch) :
      Validated state response (.ok (some (quorumState (adoptTerm state response))),
        adoptTerm state response)
  | discover (hterm : response.leaderEpoch = state.currentTerm) (hrole : state.role = .follower)
      (hnone : state.leaderId = none) :
      Validated state response
      (.ok (some (quorumState { state with leaderId := some response.leaderId })),
        { state with leaderId := some response.leaderId })

/-- Validation refuses the response, accepts it, or adopts its term or leader. -/
theorem validateAndUpdateTerm_validated (state : NodeState) :
    Validated state response (validateAndUpdateTerm state response) := by
  unfold validateAndUpdateTerm
  dsimp only
  split
  · rename_i hstale
    exact .refused _ fun hadopts => by rcases hadopts with hnew | ⟨hterm, -⟩ <;> omega
  · rename_i hstale
    split
    · rename_i hnew
      exact .follow hnew
    · rename_i hold
      have hterm : response.leaderEpoch = state.currentTerm := by omega
      split
      · rename_i hrole
        exact .refused _ fun hadopts => hadopts.elim hold fun hsame => hrole hsame.2.1
      · rename_i hrole
        cases hleader : state.leaderId with
        | some known =>
          have hsame : ¬ Adopts state response := fun hadopts => hadopts.elim hold fun hsame => by
            rw [hleader] at hsame
            cases hsame.2.2
          dsimp only
          split
          · exact .refused _ hsame
          · split
            · exact .refused _ hsame
            · exact .same hsame
        | none => exact .discover hterm (not_not.mp hrole) hleader

/-- Validation accepts the response's term and leader or changes nothing. -/
theorem accepts_validateAndUpdateTerm (state : NodeState) :
    Accepts response state.view (validateAndUpdateTerm state response).2.view := by
  have hvalid := validateAndUpdateTerm_validated response state
  generalize validateAndUpdateTerm state response = outcome at hvalid ⊢
  cases hvalid with
  | refused reason => exact .same
  | same => exact .same
  | follow hterm => exact .follow hterm
  | discover _ _ hnone => exact .discover hnone

/-- The snapshot branch does not touch the node state. -/
theorem state_handleSnapshot (snapshotId : SnapshotId) (deferred : Option QuorumState) :
    (handleSnapshot env response snapshotId deferred f).2.state = f.state := by
  unfold handleSnapshot
  split <;> rfl

/-- The divergence branch truncates at or above the high watermark, or changes nothing. -/
theorem view_handleDivergence (diverging : DivergingEpoch) (deferred : Option QuorumState) :
    (mgr.handleDivergence diverging deferred f).2.state.view = f.state.view ∨
      f.state.highWatermark ≤ min diverging.endOffset f.state.logEndOffset ∧
        (mgr.handleDivergence diverging deferred f).2.state.view =
          f.state.view.truncate (min diverging.endOffset f.state.logEndOffset) := by
  unfold handleDivergence
  dsimp only
  split
  · exact Or.inl rfl
  · rename_i hpoint
    exact Or.inr ⟨Nat.not_lt.mp hpoint, rfl⟩

/-- Entries without a gap are consecutive from the first one on. -/
theorem consecutive_of_firstGap {first : LogEntry} {rest : List LogEntry}
    (h : firstGap (first :: rest) = none) :
    Consecutive LogEntry.offset first.offset (first :: rest) := by
  induction rest generalizing first with
  | nil => simp
  | cons second rest ih =>
    rw [firstGap] at h
    split at h
    · cases h
    · rename_i hnext
      refine (consecutive_cons _ _ _).mpr ⟨rfl, ?_⟩
      rw [← not_not.mp hnext]
      exact ih h

/-- Entries that pass the check continue the log. -/
theorem consecutive_of_checkEntries {state : NodeState} {entries : List LogEntry}
    (h : checkEntries state entries = none) :
    Consecutive LogEntry.offset state.logEndOffset entries := by
  cases entries with
  | nil => simp
  | cons first rest =>
    rw [checkEntries] at h
    split at h
    · cases h
    · rename_i hfirst
      cases hgap : firstGap (first :: rest) with
      | some gap => simp [hgap] at h
      | none =>
        rw [← not_not.mp hfirst]
        exact consecutive_of_firstGap hgap

/-- Applying committed entries changes the voters, the pending change and the epochs only. -/
theorem state_applyCommitted (entries : List LogEntry) (f : Follower σ κ) :
    ∃ voters pending epochs, (applyCommitted env entries f).2.state = { f.state with
      voterSet := voters
      pendingMembershipChange := pending
      leaderEpochCheckpoint := epochs } := by
  induction entries generalizing f with
  | nil => exact ⟨_, _, _, rfl⟩
  | cons e rest ih =>
    rw [applyCommitted]
    cases e.entryType with
    | command =>
      dsimp only
      cases env.applyError f.calls e.offset e.asAppRecord with
      | some reason => exact ⟨_, _, _, rfl⟩
      | none => exact ih _
    | leaderChangeMessage => exact ih _
    | votersRecord =>
      dsimp only
      cases env.codec.deserialize e.payload with
      | error reason => exact ⟨_, _, _, rfl⟩
      | ok record => exact ih _

/-- Applying committed entries leaves the replication view alone. -/
theorem view_applyCommitted (entries : List LogEntry) (f : Follower σ κ) :
    (applyCommitted env entries f).2.state.view = f.state.view := by
  obtain ⟨voters, pending, epochs, hstate⟩ := state_applyCommitted env entries f
  rw [hstate]
  rfl

/-- The commit notification leaves the replication view alone. -/
theorem view_executeCommitNotification (oldHw newHw : ℕ) :
    (executeCommitNotification env oldHw newHw f).2.state.view = f.state.view := by
  have hview := view_applyCommitted env (f.state.entriesInRange oldHw newHw) f
  unfold executeCommitNotification
  dsimp only
  split
  · rename_i happly
    rw [happly] at hview
    exact hview
  · rename_i happly
    rw [happly] at hview
    exact hview

/-- Advancing raises the high watermark to the leader's, as far as the log reaches. -/
theorem view_advanceHighWatermark :
    (advanceHighWatermark env response.highWatermark f).2.state.view =
      f.state.view.commit (advanced response f.state.highWatermark f.state.logEndOffset) := by
  unfold advanceHighWatermark advanced
  dsimp only
  split
  · rename_i hlt
    rw [view_executeCommitNotification, max_eq_right (le_of_lt hlt)]
    rfl
  · rename_i hle
    rw [max_eq_left (Nat.not_lt.mp hle)]
    rfl

/-- The normal branch leaves the follower alone if it refuses the entries. -/
theorem handleEntries_of_refused {f : Follower σ κ} {e : XraftError}
    (hcheck : checkEntries f.state response.entries = some e) (deferred : Option QuorumState) :
    (handleEntries env response deferred f).2 = f := by
  unfold handleEntries
  rw [hcheck]

/-- The normal branch appends the entries and advances the high watermark otherwise. -/
theorem handleEntries_of_checked {f : Follower σ κ}
    (hcheck : checkEntries f.state response.entries = none) (deferred : Option QuorumState) :
    (handleEntries env response deferred f).2 = (advanceHighWatermark env response.highWatermark
      (f.update (f.state.appendEntries response.entries))).2 := by
  unfold handleEntries
  simp only [hcheck]
  split <;> simp [*]

/-- The normal branch succeeds only if the high watermark was advanced with success. -/
theorem handleEntries_ok {f : Follower σ κ} (hcheck : checkEntries f.state response.entries = none)
    {deferred : Option QuorumState} {result : FetchResponseResult}
    (hok : (handleEntries env response deferred f).1 = .ok result) :
    (advanceHighWatermark env response.highWatermark
      (f.update (f.state.appendEntries response.entries))).1 = .ok () := by
  unfold handleEntries at hok
  simp only [hcheck] at hok
  split at hok
  · cases hok
  · rename_i hadvanced
    rw [hadvanced]

/-- The normal branch extends the log and advances, or changes nothing. -/
theorem view_handleEntries (deferred : Option QuorumState) :
    (handleEntries env response deferred f).2.state.view = f.state.view ∨
      Consecutive LogEntry.offset f.state.logEndOffset response.entries ∧
        (handleEntries env response deferred f).2.state.view =
          (f.state.view.extend response.entries).commit
            (advanced response f.state.highWatermark (f.state.logEndOffset +
              response.entries.length)) := by
  cases hcheck : checkEntries f.state response.entries with
  | some e => exact Or.inl (by rw [handleEntries_of_refused env response hcheck])
  | none =>
    refine Or.inr ⟨consecutive_of_checkEntries hcheck, ?_⟩
    rw [handleEntries_of_checked env response hcheck, view_advanceHighWatermark]
    rfl

/-- The branch a response takes, with the state its validation left. -/
inductive Route : Except XraftError FetchResponseResult × Follower σ κ → Prop where
  | refused (e : XraftError) : Route (.error e, f.update (validateAndUpdateTerm f.state response).2)
  | snapshot (deferred : Option QuorumState) (state : NodeState)
      (hvalid : validateAndUpdateTerm f.state response = (.ok deferred, state))
      (snapshotId : SnapshotId) :
      Route (handleSnapshot env response snapshotId deferred
        (f.update (mgr.resetTimers state clock)))
  | divergence (deferred : Option QuorumState) (state : NodeState)
      (hvalid : validateAndUpdateTerm f.state response = (.ok deferred, state))
      (diverging : DivergingEpoch) (hdiverging : response.divergingEpoch = some diverging) :
      Route (mgr.handleDivergence diverging deferred (f.update (mgr.resetTimers state clock)))
  | entries (deferred : Option QuorumState) (state : NodeState)
      (hvalid : validateAndUpdateTerm f.state response = (.ok deferred, state))
      (hdiverging : response.divergingEpoch = none) :
      Route (handleEntries env response deferred (f.update (mgr.resetTimers state clock)))

/-- The handler refuses the response or takes one of its three branches. -/
theorem handleFetchResponse_route :
    Route mgr env clock response f (mgr.handleFetchResponse env clock response f) := by
  have hrefused : ∀ e, Route mgr env clock response f
    (.error e, f.update (validateAndUpdateTerm f.state response).2) := .refused
  unfold handleFetchResponse
  cases hvalid : validateAndUpdateTerm f.state response with
  | mk result state =>
    rw [hvalid] at hrefused
    cases result with
    | error e => exact hrefused e
    | ok deferred =>
      dsimp only
      split
      · exact hrefused bothFields
      · cases response.snapshotId with
        | some snapshotId => exact .snapshot deferred state hvalid snapshotId
        | none =>
          cases hdiverging : response.divergingEpoch with
          | some diverging => exact .divergence deferred state hvalid diverging hdiverging
          | none => exact .entries deferred state hvalid hdiverging

/-- What the handler does to the view, for any response and whether it returns an error or not. -/
theorem handleFetchResponse_effect :
    Effect response f.state.view (mgr.handleFetchResponse env clock response f).2.state.view := by
  have haccept := accepts_validateAndUpdateTerm response f.state
  obtain ⟨_, _, hend, hhw⟩ := haccept.log_eq
  have hroute := handleFetchResponse_route mgr env clock response f
  generalize mgr.handleFetchResponse env clock response f = outcome at hroute ⊢
  cases hroute with
  | refused e => exact .kept _ haccept
  | snapshot deferred state hvalid snapshotId =>
    rw [hvalid] at haccept
    rw [state_handleSnapshot]
    exact .kept _ haccept
  | divergence deferred state hvalid diverging hdiverging =>
    rw [hvalid] at haccept hend hhw
    rcases view_handleDivergence mgr (f.update (mgr.resetTimers state clock)) diverging
      deferred with
      hview | ⟨hpoint, hview⟩
    · rw [hview]
      exact .kept _ haccept
    · rw [hview]
      change FollowerView.logEndOffset (NodeState.view state) = _ at hend
      have htruncated :=
        Effect.truncated _ haccept diverging hdiverging (by rw [← hhw, ← hend]; exact hpoint)
      rw [← hend] at htruncated
      exact htruncated
  | entries deferred state hvalid hdiverging =>
    rw [hvalid] at haccept hend hhw
    rcases view_handleEntries env response (f.update (mgr.resetTimers state clock)) deferred with
      hview | ⟨hentries, hview⟩
    · rw [hview]
      exact .kept _ haccept
    · rw [hview]
      have hextended := Effect.extended _ haccept hdiverging (by rw [← hend]; exact hentries)
      rw [← hend, ← hhw] at hextended
      exact hextended

/-- One call of the handler, with any clock reading and any response. -/
def Handles (before after : Follower σ κ) : Prop :=
  ∃ clock response, after = (mgr.handleFetchResponse env clock response before).2

/-- Any number of calls of the handler. -/
abbrev Handled : Follower σ κ → Follower σ κ → Prop := Relation.ReflTransGen (mgr.Handles env)

variable {mgr env}

/-- A run of the handler from a well-formed follower keeps it well formed and makes progress. -/
theorem Handled.wellFormed_progress {before after : Follower σ κ}
    (hrun : mgr.Handled env before after) (h : before.state.view.WellFormed) :
    after.state.view.WellFormed ∧ Progress before.state.view after.state.view := by
  induction hrun with
  | refl => exact ⟨h, Progress.refl _⟩
  | @tail middle last _ hstep ih =>
    obtain ⟨clock, response, rfl⟩ := hstep
    have heffect := handleFetchResponse_effect mgr env clock response middle
    obtain ⟨hafter, hprogress⟩ := (heffect.moves ih.1.le_end).wellFormed_progress ih.1
    exact ⟨hafter, ih.2.trans hprogress⟩

variable (mgr env)

/-- The follower invariant, over any sequence of arbitrary fetch responses. -/
theorem follower_invariant {before after : Follower σ κ} (h : before.state.view.WellFormed)
    (hrun : mgr.Handled env before after) :
    (Consecutive LogEntry.offset after.state.logStartOffset after.state.log ∧
      after.state.logEndOffset = after.state.logStartOffset + after.state.log.length ∧
      after.state.logStartOffset = before.state.logStartOffset) ∧
    after.state.highWatermark ≤ after.state.logEndOffset ∧
    before.state.highWatermark ≤ after.state.highWatermark ∧
    before.state.currentTerm ≤ after.state.currentTerm ∧
    (∀ low high, high ≤ before.state.highWatermark →
      after.state.entriesInRange low high = before.state.entriesInRange low high) ∧
    (after.state.votedFor ≠ before.state.votedFor →
      before.state.currentTerm < after.state.currentTerm) ∧
    (after.state.currentTerm = before.state.currentTerm →
      ∀ leader, before.state.leaderId = some leader → after.state.leaderId = some leader) := by
  obtain ⟨hwf, hprogress⟩ := hrun.wellFormed_progress h
  exact ⟨⟨hwf.contiguous, hwf.endOffset, hprogress.start⟩, hwf.le_end, hprogress.highWatermark,
    hprogress.term, hprogress.committed, hprogress.vote, hprogress.leader⟩

end ReplicationManager

/-- A command entry with an empty payload. -/
def commandEntry (offset term : ℕ) : LogEntry := ⟨offset, term, .command, []⟩

/-- Node 2 as a follower of a leader, with the given log from offset zero. -/
def followerOf (leader currentTerm highWatermark : ℕ) (log : List LogEntry) :
    Follower Unit Bool where
  state := { NodeState.newUnattached 2 0 with
    role := .follower
    currentTerm := currentTerm
    leaderId := some leader
    log := log
    logEndOffset := log.length
    highWatermark := highWatermark }
  queue := .new
  coordinator := false
  calls := []

/-- A state machine that accepts every record, and one known record of voters. -/
def acceptingEnv : Collaborators Unit Bool where
  codec := .only ⟨1, [⟨1, "a"⟩, ⟨2, "b"⟩]⟩
  applyError _ _ _ := none
  snapshots := .default 1024

namespace ReplicationManager

/-- A follower truncates at its watermark under a new leader, then catches up and commits. -/
theorem follower_invariant_catchUp :
    ∃ after : Follower Unit Bool,
      (followerOf 1 1 2 [commandEntry 0 1, commandEntry 1 1,
        commandEntry 2 1]).state.view.WellFormed ∧
      after.state.log = [commandEntry 0 1, commandEntry 1 1, commandEntry 2 2] ∧
      after.state.highWatermark = 3 ∧
      after.state.entriesInRange 0 2 = [commandEntry 0 1, commandEntry 1 1] := by
  have hwf : (followerOf 1 1 2
      [commandEntry 0 1, commandEntry 1 1, commandEntry 2 1]).state.view.WellFormed :=
    ⟨by decide, rfl, by decide, by decide⟩
  have hinv := follower_invariant ⟨1024, 50⟩ acceptingEnv hwf
    ((Relation.ReflTransGen.refl.tail ⟨⟨0, 0⟩, ⟨3, 2, 2, 0, [], some ⟨1, 2⟩, none⟩, rfl⟩).tail
      ⟨⟨0, 0⟩, ⟨3, 2, 3, 0, [commandEntry 2 2], none, none⟩, rfl⟩)
  exact ⟨_, hwf, rfl, rfl, hinv.2.2.2.2.1 0 2 (by decide)⟩

end ReplicationManager

end XRaft
