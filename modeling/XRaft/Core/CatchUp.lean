import XRaft.Core.AsyncMatching
import XRaft.Core.FollowerLoop

/-!
# A follower catches up with its leader

In a round the follower's tick sends its fetch request, the leader answers it and the
answer is handled. A follower whose log diverges is sent back, by one entry at least in
each round, until its log is a beginning of the leader's; from then on every round adds
entries. After enough rounds the follower has all the leader had at the first one, also
if the leader appends in between, and has committed what the leader had committed.
-/

namespace XRaft

open Lib

/-- Each leader is the one before it with a longer log and a higher watermark, or the same. -/
def Leader.Grows (leader later : Leader) : Prop :=
  leader.id = later.id ∧ leader.log <+: later.log ∧ leader.highWatermark ≤ later.highWatermark

/-- The node follows a leader in its term, with a log from offset zero on. -/
structure FollowerView.Following (term : ℕ) (leaderId : NodeId) (view : FollowerView) : Prop where
  wellFormed : view.WellFormed
  start : view.logStartOffset = 0
  role : view.role = .follower
  currentTerm : view.currentTerm = term
  leader : view.leaderId = some leaderId

namespace FollowerView

variable {term : ℕ} {leaderId : NodeId} {view : FollowerView}

/-- Truncation does not end the following. -/
theorem Following.truncate (h : Following term leaderId view) {point : ℕ}
    (hlow : view.highWatermark ≤ point) (hhigh : point ≤ view.logEndOffset) :
    Following term leaderId (view.truncate point) :=
  ⟨(Move.truncate view point hlow hhigh).wellFormed h.wellFormed, h.start, h.role,
    h.currentTerm, h.leader⟩

/-- Nor do new entries and a higher watermark within the log. -/
theorem Following.extend (h : Following term leaderId view) {entries : List LogEntry}
    (hentries : Consecutive LogEntry.offset view.logEndOffset entries) {highWatermark : ℕ}
    (hlow : view.highWatermark ≤ highWatermark)
    (hhigh : highWatermark ≤ view.logEndOffset + entries.length) :
    Following term leaderId ((view.extend entries).commit highWatermark) :=
  ⟨(Move.commit (view.extend entries) highWatermark hlow hhigh).wellFormed
    ((Move.extend view entries hentries).wellFormed h.wellFormed), h.start, h.role,
    h.currentTerm, h.leader⟩

end FollowerView

namespace ReplicationManager

open FollowerView

variable {σ κ : Type*} {mgr : ReplicationManager} {env : Collaborators σ κ} {f after : Follower σ κ}

/-- Entries without a gap behind the end of the log pass the check. -/
theorem checkEntries_of_consecutive {state : NodeState} {entries : List LogEntry}
    (h : Consecutive LogEntry.offset state.logEndOffset entries) :
    checkEntries state entries = none := by
  have hgap : ∀ (entries : List LogEntry) (start : ℕ), Consecutive LogEntry.offset start entries →
      firstGap entries = none := by
    intro entries
    induction entries with
    | nil => exact fun _ _ => rfl
    | cons first rest ih =>
      intro start h
      obtain ⟨hfirst, hrest⟩ := (consecutive_cons _ _ _).mp h
      cases rest with
      | nil => rfl
      | cons second rest =>
        have hsecond := ((consecutive_cons _ _ _).mp hrest).1
        rw [firstGap, if_neg (by omega)]
        exact ih _ hrest
  cases entries with
  | nil => rfl
  | cons first rest =>
    have hfirst := ((consecutive_cons _ _ _).mp h).1
    rw [checkEntries, if_neg (not_not.mpr hfirst), hgap _ _ h]

section Response

variable {term : ℕ} {leaderId : NodeId} {response : FetchResponse} {clock : Clock}
  {view : FollowerView}

/-- A response of the followed leader without a snapshot is valid and changes nothing by itself. -/
theorem validates_of_following (h : Following term leaderId f.state.view)
    (hepoch : response.leaderEpoch = term) (hid : response.leaderId = leaderId)
    (hsnapshot : response.snapshotId = none) :
    validateAndUpdateTerm f.state response = (.ok none, f.state) := by
  have hterm : f.state.currentTerm = term := h.currentTerm
  have hrole : f.state.role = .follower := h.role
  have hleader : f.state.leaderId = some leaderId := h.leader
  unfold validateAndUpdateTerm
  dsimp only
  rw [if_neg (by omega), if_neg (by omega), if_neg (not_not.mpr hrole), hleader]
  dsimp only
  rw [if_neg (not_not.mpr hid), hsnapshot, if_neg (by simp)]

/-- A diverging response of the followed leader truncates the log where it names. -/
theorem view_of_diverging (hview : f.state.view = view) (h : Following term leaderId view)
    (hepoch : response.leaderEpoch = term) (hid : response.leaderId = leaderId)
    (hsnapshot : response.snapshotId = none) {diverging : DivergingEpoch}
    (hdiverging : response.divergingEpoch = some diverging)
    (hpoint : view.highWatermark ≤ min diverging.endOffset view.logEndOffset) :
    (mgr.handleFetchResponse env clock response f).2.state.view =
      view.truncate (min diverging.endOffset view.logEndOffset) := by
  subst hview
  unfold handleFetchResponse
  simp only [validates_of_following h hepoch hid hsnapshot, hsnapshot, hdiverging,
    Option.isSome_none, Bool.false_eq_true, false_and, if_false]
  have hkept : ¬ min diverging.endOffset f.state.logEndOffset < f.state.highWatermark :=
    Nat.not_lt.mpr hpoint
  unfold handleDivergence
  dsimp only [Follower.update, resetTimers]
  rw [if_neg hkept]
  rfl

/-- Entries of the followed leader that continue the log extend it and advance the high
watermark. -/
theorem view_of_entries (hview : f.state.view = view) (h : Following term leaderId view)
    (hepoch : response.leaderEpoch = term) (hid : response.leaderId = leaderId)
    (hsnapshot : response.snapshotId = none) (hdiverging : response.divergingEpoch = none)
    (hentries : Consecutive LogEntry.offset view.logEndOffset response.entries) :
    (mgr.handleFetchResponse env clock response f).2.state.view =
      (view.extend response.entries).commit
        (advanced response view.highWatermark (view.logEndOffset + response.entries.length)) := by
  subst hview
  unfold handleFetchResponse
  simp only [validates_of_following h hepoch hid hsnapshot, hsnapshot, hdiverging,
    Option.isSome_none, Bool.false_eq_true, false_and, if_false]
  have hcheck : checkEntries (f.update (mgr.resetTimers f.state clock)).state response.entries =
      none :=
    checkEntries_of_consecutive hentries
  rw [handleEntries_of_checked env response hcheck, view_advanceHighWatermark]
  rfl

end Response

/-- The follower after a tick whose actions are carried out. -/
def ticked (mgr : ReplicationManager) (wake : Clock) (f : Follower σ κ) : Follower σ κ :=
  f.update (mgr.tick wake f.state).2

/-- A round: the tick sends a request, the leader answers it, with entries if it has some to send,
and the answer is handled. -/
structure Round (mgr : ReplicationManager) (env : Collaborators σ κ) (term : ℕ) (leader : Leader)
    (f after : Follower σ κ) (wake clock : Clock) (request : FetchRequest)
    (response : FetchResponse) : Prop where
  sent : (mgr.tick wake f.state).1.actions =
    [.sendRpc leader.id ⟨f.state.clusterId, term, f.state.nodeId, .fetchRequest request⟩]
  answered : Answers term leader ⟨request, f.state.log, fun _ => some leader⟩ response
  progress : response.divergingEpoch = none → request.fetchOffset < leader.log.length →
    response.entries ≠ []
  handled : after = (mgr.handleFetchResponse env clock response (mgr.ticked wake f)).2

/-- Rounds with a leader that may append and commit in between; what a tick sent may also be
lost. -/
inductive Rounds (mgr : ReplicationManager) (env : Collaborators σ κ) (term : ℕ) :
    List Leader → Follower σ κ → Follower σ κ → Prop where
  | done (f : Follower σ κ) : Rounds mgr env term [] f f
  | lost {leaders : List Leader} {f after : Follower σ κ} (wake : Clock)
      (hrest : Rounds mgr env term leaders (mgr.ticked wake f) after) : Rounds mgr env term
      leaders f after
  | round {leader : Leader} {leaders : List Leader} {f middle after : Follower σ κ}
      (wake clock : Clock)
      (request : FetchRequest) (response : FetchResponse)
      (hround : Round mgr env term leader f middle wake clock request response)
      (hrest : Rounds mgr env term leaders middle after) : Rounds mgr env term
      (leader :: leaders) f after

section Round

variable {term : ℕ} {leader : Leader} {leaderId : NodeId} {wake clock : Clock}
  {request : FetchRequest} {response : FetchResponse}

/-- A tick that sends asks for what follows the log. -/
theorem Round.request_eq (h : Round mgr env term leader f after wake clock request response) :
    request.fetchOffset = f.state.logEndOffset ∧
      request.lastFetchedEpoch = f.state.lastEntryTerm := by
  have hsent := h.sent
  by_cases hdue : wake.now ≥ f.state.fetchDeadline ∧ f.state.role = .follower
  · rw [mgr.tick_of_due hdue.1 hdue.2] at hsent
    cases hleader : f.state.leaderId with
    | none => simp [fetchActions, buildFetchRequest, hleader] at hsent
    | some id =>
      simp only [fetchActions, buildFetchRequest, hleader, hdue.2, ne_eq, not_true_eq_false,
        if_false, List.cons.injEq, IoAction.sendRpc.injEq, RpcEnvelope.mk.injEq,
        RpcPayload.fetchRequest.injEq] at hsent
      rw [← hsent.1.2.2.2.2]
      exact ⟨rfl, rfl⟩
  · rw [mgr.tick_of_not_due hdue] at hsent
    cases hsent

/-- The leader finds the end of the follower's log in its own exactly if the log is a beginning of
its own. -/
theorem Round.matches_iff (h : Round mgr env term leader f after wake clock request response)
    (hf : Following term leaderId f.state.view)
    (hmatching : LogMatching LogEntry.term f.state.log leader.log) :
    Matches leader.log request ↔ f.state.log <+: leader.log := by
  obtain ⟨hoffset, hepoch⟩ := h.request_eq
  have hend : f.state.logEndOffset = f.state.log.length := hf.wellFormed.logEndOffset_eq hf.start
  rw [Matches, hoffset, hepoch, hend]
  rcases Nat.eq_zero_or_eq_succ_pred f.state.log.length with hzero | hsucc
  · rw [List.length_eq_zero_iff.mp hzero]
    exact iff_of_true (Or.inl rfl) List.nil_prefix
  · obtain ⟨last, hlast, hterm⟩ := World.getElem?_last hsucc
    constructor
    · rintro (hzero | ⟨e, he, heterm⟩)
      · omega
      · rw [hmatching.prefix_of_term List.prefix_rfl hsucc hlast he (hterm.trans heterm.symm)]
        exact List.take_prefix _ _
    · exact fun hinitial => Or.inr ⟨last, getElem?_of_isPrefix hinitial hlast, hterm⟩

/-- A round of a follower whose log is a beginning of the leader's adds entries and commits. -/
theorem Round.extends (h : Round mgr env term leader f after wake clock request response)
    (hf : Following term leader.id f.state.view)
    (hoffsets : Consecutive LogEntry.offset 0 leader.log) (hinitial : f.state.log <+: leader.log) :
    Following term leader.id after.state.view ∧ f.state.log <+: after.state.log ∧
      after.state.log <+: leader.log ∧
      (f.state.log.length < leader.log.length → f.state.log.length < after.state.log.length) ∧
      f.state.highWatermark ≤ after.state.highWatermark ∧
      min leader.highWatermark after.state.log.length ≤ after.state.highWatermark := by
  have hoffset := h.request_eq.1
  have hend : f.state.logEndOffset = f.state.log.length := hf.wellFormed.logEndOffset_eq hf.start
  have hle : f.state.highWatermark ≤ f.state.logEndOffset := hf.wellFormed.le_end
  have hmatches : Matches leader.log request :=
    (h.matches_iff hf (LogMatching.of_isPrefix (fun _ _ _ _ _ _ => rfl) hinitial)).mpr hinitial
  have hprogress := h.progress
  cases h.answered with
  | diverging diverging logStartOffset hmatch => exact absurd hmatches hmatch
  | entries entries logStartOffset _ hentries =>
    rw [hoffset, hend] at hprogress
    dsimp only at hentries
    rw [hoffset, hend] at hentries
    have hconsecutive : Consecutive LogEntry.offset f.state.logEndOffset entries := by
      have hdrop := hoffsets.drop f.state.log.length hinitial.length_le
      obtain ⟨rest, hrest⟩ := hentries
      rw [← hrest, consecutive_append, Nat.zero_add] at hdrop
      rw [hend]
      exact hdrop.1
    have hview : after.state.view = (f.state.view.extend entries).commit
        (max f.state.highWatermark
          (min leader.highWatermark (f.state.logEndOffset + entries.length))) := by
      rw [h.handled]
      exact view_of_entries (mgr.view_tick wake f.state) hf rfl rfl rfl rfl hconsecutive
    have hlog : after.state.log = f.state.log ++ entries := congrArg FollowerView.log hview
    have hhw : after.state.highWatermark =
        max f.state.highWatermark
        (min leader.highWatermark (f.state.logEndOffset + entries.length)) :=
      congrArg FollowerView.highWatermark hview
    have hlength : after.state.log.length = f.state.logEndOffset + entries.length := by
      rw [hlog, List.length_append, hend]
    refine ⟨?_, ?_, ?_, fun hlt => ?_, ?_, ?_⟩
    · rw [hview]
      exact hf.extend hconsecutive (le_max_left _ _)
        (max_le (hle.trans (Nat.le_add_right _ _)) (min_le_right _ _))
    · rw [hlog]
      exact List.prefix_append _ _
    · rw [hlog, List.prefix_iff_eq_take.mp hinitial]
      exact append_prefix_of_take hentries
    · have hne : 0 < entries.length := List.length_pos_iff.mpr (hprogress rfl hlt)
      omega
    · rw [hhw]
      exact le_max_left _ _
    · rw [hhw, hlength]
      exact le_max_right _ _

/-- A round of any other follower drops uncommitted entries, one at least. -/
theorem Round.truncates (h : Round mgr env term leader f after wake clock request response)
    (hf : Following term leader.id f.state.view)
    (hmatching : LogMatching LogEntry.term f.state.log leader.log)
    (hheld : f.state.log.take f.state.highWatermark <+: leader.log)
    (hdiverges : ¬ f.state.log <+: leader.log) :
    Following term leader.id after.state.view ∧ after.state.log <+: f.state.log ∧
      after.state.log.length < f.state.log.length ∧
        after.state.highWatermark = f.state.highWatermark := by
  have hoffset := h.request_eq.1
  have hend : f.state.logEndOffset = f.state.log.length := hf.wellFormed.logEndOffset_eq hf.start
  have hle : f.state.highWatermark ≤ f.state.log.length := hf.wellFormed.highWatermark_le hf.start
  cases h.answered with
  | entries entries logStartOffset hmatch =>
    exact absurd ((h.matches_iff hf hmatching).mp hmatch) hdiverges
  | diverging diverging logStartOffset _ hlow hhigh =>
    dsimp only at hlow hhigh
    rw [hoffset, hend] at hhigh
    -- what is committed is shared with the leader, which names no point below what is shared
    have hshared : f.state.highWatermark ≤ diverging.endOffset :=
      (le_commonPrefix hle hheld).trans hlow
    have hpoint : min diverging.endOffset f.state.logEndOffset = diverging.endOffset := by
      rw [hend]
      exact min_eq_left hhigh.le
    have hview : after.state.view =
        f.state.view.truncate (min diverging.endOffset f.state.logEndOffset) := by
      rw [h.handled]
      refine view_of_diverging (mgr.view_tick wake f.state) hf rfl rfl rfl rfl ?_
      exact hshared.trans hpoint.ge
    rw [hpoint] at hview
    have hlog : after.state.log = f.state.log.take diverging.endOffset := by
      have htake := hf.wellFormed.log_truncate diverging.endOffset
      rw [hf.start, Nat.sub_zero] at htake
      exact (congrArg FollowerView.log hview).trans htake
    have hhw : after.state.highWatermark = f.state.highWatermark :=
      congrArg FollowerView.highWatermark hview
    rw [hview, hlog, List.length_take]
    exact ⟨hf.truncate hshared (hhigh.le.trans hend.ge), List.take_prefix _ _, by omega, hhw⟩

end Round

section Rounds

variable {term : ℕ} {leaders : List Leader} {leaderId : NodeId} {goal : Leader}

/-- The follower has what a leader had, and has committed what it had committed. -/
def Reached (goal : Leader) (view : FollowerView) : Prop :=
  goal.log <+: view.log ∧ goal.highWatermark ≤ view.highWatermark

/-- The states of the leader of a term since a given one, each with a log indexed by offset. -/
structure Since (goal : Leader) (leaders : List Leader) : Prop where
  grows : leaders.Pairwise Leader.Grows
  goal : ∀ leader ∈ leaders, goal.Grows leader
  offsets : ∀ leader ∈ leaders, Consecutive LogEntry.offset 0 leader.log

/-- Without the first of them. -/
theorem Since.tail {leader : Leader} (h : Since goal (leader :: leaders)) : Since goal leaders where
  grows := (List.pairwise_cons.mp h.grows).2
  goal other hmem := h.goal other (List.mem_cons_of_mem _ hmem)
  offsets other hmem := h.offsets other (List.mem_cons_of_mem _ hmem)

/-- A log that is a beginning of the first leader's is one of every later one's. -/
theorem Since.isPrefix {leader : Leader} (h : Since goal (leader :: leaders)) {log : List LogEntry}
    (hlog : log <+: leader.log) : ∀ later ∈ leader :: leaders, log <+: later.log := by
  intro later hmem
  rcases List.mem_cons.mp hmem with rfl | hmem
  · exact hlog
  · exact hlog.trans ((List.pairwise_cons.mp h.grows).1 later hmem).2.1

/-- Once the log is a beginning of the leader's, every round adds an entry until all of the goal
is there. -/
theorem Rounds.reached_of_isPrefix (h : Rounds mgr env term leaders f after)
    (hsince : Since goal leaders) (hf : Following term goal.id f.state.view)
    (hwatermark : goal.highWatermark ≤ goal.log.length)
    (hinitial : ∀ leader ∈ leaders, f.state.view.log <+: leader.log) {bound : List LogEntry}
    (hbound : ∀ leader ∈ leaders, leader.log <+: bound) (hwithin : f.state.view.log <+: bound)
    (hrest : Reached goal f.state.view ∨ leaders ≠ [] ∧
      goal.log.length < f.state.view.log.length + leaders.length) :
    Reached goal after.state.view ∧ after.state.view.log <+: bound := by
  induction h with
  | done f => exact ⟨hrest.resolve_right fun hmore => hmore.1 rfl, hwithin⟩
  | lost wake _ ih =>
    rw [ticked, Follower.update, mgr.view_tick] at ih
    exact ih hsince hf hinitial hbound hwithin hrest
  | @round leader leaders f middle after wake clock request response hround hrounds ih =>
    obtain ⟨hid, hgoal, hgoalHw⟩ := hsince.goal leader List.mem_cons_self
    rw [hid] at hf ih
    obtain ⟨hmiddle, hlog, hleader, hmore, hhw, hadvanced⟩ :=
      hround.extends hf (hsince.offsets leader List.mem_cons_self)
        (hinitial leader List.mem_cons_self)
    refine ih hsince.tail hmiddle
      (fun later hmem => hsince.isPrefix hleader later (List.mem_cons_of_mem _ hmem))
      (fun later hmem => hbound later (List.mem_cons_of_mem _ hmem))
      (hleader.trans (hbound leader List.mem_cons_self)) ?_
    rcases hrest with hreached | ⟨-, henough⟩
    · exact Or.inl ⟨hreached.1.trans hlog, hreached.2.trans hhw⟩
    · change goal.log.length < f.state.log.length + (leader :: leaders).length at henough
      rw [List.length_cons] at henough
      change _ ∨ _ ∧ goal.log.length < middle.state.log.length + leaders.length
      by_cases hall : goal.log.length ≤ middle.state.log.length
      · exact Or.inl ⟨List.prefix_of_prefix_length_le hgoal hleader hall,
          (le_min hgoalHw (hwatermark.trans hall)).trans hadvanced⟩
      · have hlonger := hmore (by have := hgoal.length_le; have := hlog.length_le; omega)
        refine Or.inr ⟨fun hnil => ?_, by omega⟩
        rw [hnil, List.length_nil] at henough
        omega

/-- Before that every round drops an entry, so that enough rounds reach the goal from any log that
matches. -/
theorem Rounds.reached (h : Rounds mgr env term leaders f after) (hsince : Since goal leaders)
    (hf : Following term goal.id f.state.view) (hwatermark : goal.highWatermark ≤ goal.log.length)
    (hmatching : ∀ leader ∈ leaders, LogMatching LogEntry.term f.state.view.log leader.log)
    (hheld : ∀ leader ∈ leaders, f.state.view.log.take f.state.view.highWatermark <+: leader.log)
    {bound : List LogEntry} (hbound : ∀ leader ∈ leaders, leader.log <+: bound)
    (henough : f.state.view.log.length + goal.log.length < leaders.length) :
    Reached goal after.state.view ∧ after.state.view.log <+: bound := by
  induction h with
  | done f => simp at henough
  | lost wake _ ih =>
    rw [ticked, Follower.update, mgr.view_tick] at ih
    exact ih hsince hf hmatching hheld hbound henough
  | @round leader leaders f middle after wake clock request response hround hrounds ih =>
    have hid := (hsince.goal leader List.mem_cons_self).1
    by_cases hinitial : f.state.view.log <+: leader.log
    · exact (Rounds.round wake clock request response hround hrounds).reached_of_isPrefix hsince hf
        hwatermark
        (hsince.isPrefix hinitial) hbound (hinitial.trans (hbound leader List.mem_cons_self))
        (Or.inr ⟨by simp, by omega⟩)
    · rw [hid] at hf ih
      obtain ⟨hmiddle, hlog, hshorter, hhw⟩ :=
        hround.truncates hf (hmatching leader List.mem_cons_self)
          (hheld leader List.mem_cons_self) hinitial
      have hcommitted : middle.state.log.take middle.state.highWatermark =
          f.state.log.take f.state.highWatermark := by
        rw [hhw, take_of_isPrefix hlog]
        rw [← hhw]
        exact hmiddle.wellFormed.highWatermark_le hmiddle.start
      change f.state.log.length + _ < (leader :: leaders).length at henough
      rw [List.length_cons] at henough
      refine ih hsince.tail hmiddle (fun later hmem => ?_) (fun later hmem => ?_)
        (fun later hmem => hbound later (List.mem_cons_of_mem _ hmem)) ?_
      · exact (hmatching later (List.mem_cons_of_mem _ hmem)).of_isPrefix hlog
      · change middle.state.log.take middle.state.highWatermark <+: _
        rw [hcommitted]
        exact hheld later (List.mem_cons_of_mem _ hmem)
      · change middle.state.log.length + _ < _
        omega

end Rounds

end ReplicationManager

end XRaft
