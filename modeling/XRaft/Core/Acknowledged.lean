import XRaft.Core.AsyncMatching

/-!
# Entries held of the leader's log

Within one term the follower should only gain entries of its leader's log: the leader
counts what the follower has asked beyond as replicated. Appending entries and growing
leaders never lose any. A diverging answer cuts the log where it names, and loses entries
exactly when it is acted on and names an offset below what the follower holds of the
leader's log by then. That happens when two requests were sent from the same diverging log
and both are answered: the second answer cuts off what the follower fetched after the
first.
-/

namespace XRaft

open Lib

/-- A response of the current term changes at most an unknown leader among term, role and leader. -/
theorem FollowerView.Effect.same_term {response : FetchResponse} {view after : FollowerView}
    (h : Effect response view after) (hterm : response.leaderEpoch = view.currentTerm) :
    after.currentTerm = view.currentTerm ∧ after.role = view.role ∧
      (after.leaderId = view.leaderId ∨ after.leaderId = some response.leaderId ∧
        view.leaderId = none) := by
  have haccepts : ∀ accepted, Accepts response view accepted →
      accepted.currentTerm = view.currentTerm ∧ accepted.role = view.role ∧
        (accepted.leaderId = view.leaderId ∨
          accepted.leaderId = some response.leaderId ∧ view.leaderId = none) := by
    intro accepted haccept
    cases haccept with
    | same => exact ⟨rfl, rfl, Or.inl rfl⟩
    | follow hlt => omega
    | discover hnone => exact ⟨rfl, rfl, Or.inr ⟨rfl, hnone⟩⟩
  cases h with
  | kept accepted haccept => exact haccepts _ haccept
  | truncated accepted haccept => exact haccepts accepted haccept
  | extended accepted haccept => exact haccepts accepted haccept

namespace World

variable {σ κ : Type*} {mgr : ReplicationManager} {env : Collaborators σ κ} {w later : World σ κ}
  {term : ℕ}

/-- How much of the log of the leader of a term the follower holds. -/
def held (term : ℕ) (w : World σ κ) : ℕ :=
  commonPrefix w.follower.state.log (logOf w.leaders term)

/-- A diverging answer is refused for the high watermark, or names an offset above what is held. -/
def KeepsHeld (term : ℕ) (w : World σ κ) (response : FetchResponse) : Prop :=
  ∀ diverging, response.divergingEpoch = some diverging →
    diverging.endOffset < w.follower.state.highWatermark ∨ held term w ≤ diverging.endOffset

/-- The leader of one term and no other. -/
def OnlyLeader (term : ℕ) (leaders : ℕ → Option Leader) : Prop :=
  ∀ other, other ≠ term → leaders other = none

/-- One leader, and answers delivered at any time. -/
def oneLeader (term : ℕ) : Rules σ κ :=
  ⟨fun leaders _ => OnlyLeader term leaders, fun _ _ _ => True⟩

/-- One leader, and answers delivered while they cut off nothing of the leader's log. -/
def keepingAnswer (term : ℕ) : Rules σ κ :=
  ⟨fun leaders _ => OnlyLeader term leaders, fun w _ response => KeepsHeld term w response⟩

/-- The follower follows the one leader of the term, known to it or not. -/
structure Follows (term : ℕ) (w : World σ κ) : Prop where
  wellFormed : w.follower.state.view.WellFormed
  start : w.follower.state.logStartOffset = 0
  role : w.follower.state.role = .follower
  currentTerm : w.follower.state.currentTerm = term
  leader : ∃ leader, w.leaders term = some leader ∧
    (w.follower.state.leaderId = none ∨ w.follower.state.leaderId = some leader.id) ∧
    ∀ sent response, (sent, response) ∈ w.answers →
      response.leaderEpoch = term ∧ response.leaderId = leader.id ∧ response.snapshotId = none
  only : OnlyLeader term w.leaders

/-- A response of the followed leader passes validation and leaves the log alone. -/
theorem Follows.validates (h : Follows term w) {sent : SentFetch} {response : FetchResponse}
    (hanswer : (sent, response) ∈ w.answers) :
    ∃ deferred state, ReplicationManager.validateAndUpdateTerm w.follower.state response =
      (.ok deferred, state) ∧ (state.view = w.follower.state.view ∨
        w.follower.state.leaderId = none ∧
          state.view = w.follower.state.view.discover response.leaderId) := by
  obtain ⟨leader, _, hknown, hanswers⟩ := h.leader
  obtain ⟨hepoch, hid, hsnapshot⟩ := hanswers sent response hanswer
  have hterm := h.currentTerm
  have hrole := h.role
  unfold ReplicationManager.validateAndUpdateTerm
  dsimp only
  rw [if_neg (by omega), if_neg (by omega), if_neg (not_not.mpr hrole)]
  rcases hknown with hnone | hsome
  · rw [hnone]
    exact ⟨_, _, rfl, Or.inr ⟨rfl, rfl⟩⟩
  · rw [hsome]
    dsimp only
    rw [if_neg (not_not.mpr hid), hsnapshot, if_neg (by simp)]
    exact ⟨_, _, rfl, Or.inl rfl⟩

/-- A diverging answer cuts the log where it names, unless that is below the high watermark. -/
theorem Follows.log_deliver (h : Follows term w) (mgr : ReplicationManager)
    (env : Collaborators σ κ) (clock : Clock) {sent : SentFetch} {response : FetchResponse}
    (hanswer : (sent, response) ∈ w.answers) {diverging : DivergingEpoch}
    (hdiverging : response.divergingEpoch = some diverging) :
    (w.deliver mgr env clock response).follower.state.log =
      if min diverging.endOffset w.follower.state.log.length < w.follower.state.highWatermark then
        w.follower.state.log
      else w.follower.state.log.take (min diverging.endOffset w.follower.state.log.length) := by
  obtain ⟨leader, _, _, hanswers⟩ := h.leader
  have hsnapshot := (hanswers sent response hanswer).2.2
  have hend : w.follower.state.logEndOffset = w.follower.state.log.length :=
    h.wellFormed.logEndOffset_eq h.start
  have htake : ∀ point, w.follower.state.log.filter (fun e => e.offset < point) =
      w.follower.state.log.take point := by
    intro point
    have hfilter := h.wellFormed.contiguous.filter_lt point
    change w.follower.state.log.filter _ =
      w.follower.state.log.take (point - w.follower.state.logStartOffset)
      at hfilter
    rw [h.start, Nat.sub_zero] at hfilter
    exact hfilter
  obtain ⟨deferred, state, hvalid, hview⟩ := h.validates hanswer
  have hsame : state.log = w.follower.state.log ∧
      state.logEndOffset = w.follower.state.logEndOffset ∧
      state.highWatermark = w.follower.state.highWatermark := by
    rcases hview with hview | ⟨_, hview⟩
    · exact ⟨congrArg FollowerView.log hview, congrArg FollowerView.logEndOffset hview,
        congrArg FollowerView.highWatermark hview⟩
    · exact ⟨congrArg FollowerView.log hview, congrArg FollowerView.logEndOffset hview,
        congrArg FollowerView.highWatermark hview⟩
  rw [follower_deliver]
  unfold ReplicationManager.handleFetchResponse
  simp only [hvalid, hsnapshot, hdiverging, Option.isSome_none, Bool.false_eq_true,
    false_and, if_false]
  unfold ReplicationManager.handleDivergence
  dsimp only [Follower.update, ReplicationManager.resetTimers]
  rw [hsame.2.1, hsame.2.2, hend]
  split
  · exact hsame.1
  · change state.log.filter _ = _
    rw [hsame.1, htake]

/-- A delivery keeps what is held of the leader's log exactly when the answer does. -/
theorem Follows.held_deliver_iff (h : Follows term w) (clock : Clock) {sent : SentFetch}
    {response : FetchResponse} (hanswer : (sent, response) ∈ w.answers) :
    held term w ≤ held term (w.deliver mgr env clock response) ↔ KeepsHeld term w response := by
  have hheld := (commonPrefix_le w.follower.state.log (logOf w.leaders term)).1
  change held term w ≤ _ at hheld
  have hwatermark : w.follower.state.highWatermark ≤ w.follower.state.log.length :=
    h.wellFormed.highWatermark_le h.start
  cases hdiverging : response.divergingEpoch with
  | some diverging =>
    have hlog := h.log_deliver mgr env clock hanswer hdiverging
    have hafter : held term (w.deliver mgr env clock response) =
        commonPrefix (w.deliver mgr env clock response).follower.state.log (logOf w.leaders term) :=
      rfl
    have hkeeps : KeepsHeld term w response ↔
        diverging.endOffset < w.follower.state.highWatermark ∨
        held term w ≤ diverging.endOffset := by
      constructor
      · exact fun hall => hall diverging hdiverging
      · intro hone other hother
        rw [hdiverging, Option.some.injEq] at hother
        rw [← hother]
        exact hone
    rw [hkeeps, hafter, hlog]
    split
    · rename_i hrefused
      exact iff_of_true le_rfl (Or.inl (by omega))
    · rename_i hacted
      rw [commonPrefix_take]
      change held term w ≤ min _ (held term w) ↔ _
      omega
  | none =>
    refine iff_of_true ?_ (fun other hother => ?_)
    · have heffect :=
        ReplicationManager.handleFetchResponse_effect mgr env clock response w.follower
      change _ ≤ commonPrefix
        (mgr.handleFetchResponse env clock response w.follower).2.state.view.log
        (logOf w.leaders term)
      rcases heffect.log_cases h.wellFormed h.start with ⟨hlog, _⟩ | ⟨other, hother, _⟩ |
        ⟨_, _, hlog, _⟩
      · rw [hlog]
        exact le_rfl
      · rw [hdiverging] at hother
        cases hother
      · rw [hlog]
        exact commonPrefix_append_left _ _ _
    · rw [hdiverging] at hother
      cases hother

/-- Every step under one leader keeps the follower following it. -/
theorem Follows.step {rules : Rules σ κ}
    (henv : ∀ leaders answers, rules.environment leaders answers → OnlyLeader term leaders)
    (h : Follows term w) (hstep : Step mgr env rules w later) : Follows term later := by
  obtain ⟨leader, hleader, hknown, hanswers⟩ := h.leader
  cases hstep with
  | poll now =>
    have hview : (w.poll mgr now).follower.state.view = w.follower.state.view := view_poll w now
    refine ⟨?_, (congrArg FollowerView.logStartOffset hview).trans h.start,
      (congrArg FollowerView.role hview).trans h.role,
      (congrArg FollowerView.currentTerm hview).trans h.currentTerm,
      ⟨leader, hleader, ?_, hanswers⟩, h.only⟩
    · rw [hview]
      exact h.wellFormed
    · have hid : (w.poll mgr now).follower.state.leaderId = w.follower.state.leaderId :=
        congrArg FollowerView.leaderId hview
      rw [hid]
      exact hknown
  | lead leaders hgrow hleaders =>
    obtain ⟨leader', hleader', hid, _, _⟩ := hgrow term leader hleader
    refine ⟨h.wellFormed, h.start, h.role, h.currentTerm, ⟨leader', hleader', ?_, ?_⟩,
      henv _ _ hleaders⟩
    · rw [hid]
      exact hknown
    · rw [hid]
      exact hanswers
  | answer other speaker sent response hspeaker _ hanswer =>
    refine ⟨h.wellFormed, h.start, h.role, h.currentTerm, ⟨leader, hleader, hknown, ?_⟩, h.only⟩
    intro sent' response' hmem
    rcases List.mem_append.mp hmem with hold | hnew
    · exact hanswers sent' response' hold
    · rw [List.mem_singleton, Prod.mk.injEq] at hnew
      rw [hnew.2]
      -- only the leader of the term can answer
      have hterm : other = term := by
        by_contra hne
        rw [h.only other hne] at hspeaker
        cases hspeaker
      subst hterm
      rw [hleader, Option.some.injEq] at hspeaker
      rw [hspeaker]
      cases hanswer <;> exact ⟨rfl, rfl, rfl⟩
  | deliver clock sent response hanswer =>
    have heffect := ReplicationManager.handleFetchResponse_effect mgr env clock response w.follower
    obtain ⟨hafter, hprogress⟩ :=
      (heffect.moves h.wellFormed.le_end).wellFormed_progress h.wellFormed
    obtain ⟨hepoch, hid, _⟩ := hanswers sent response hanswer
    obtain ⟨hterm, hrole, hleaderId⟩ := heffect.same_term (hepoch.trans h.currentTerm.symm)
    refine ⟨hafter, hprogress.start.trans h.start, hrole.trans h.role, hterm.trans h.currentTerm,
      ⟨leader, hleader, ?_, hanswers⟩, h.only⟩
    rcases hleaderId with hsame | ⟨hnew, _⟩
    · rcases hknown with hnone | hsome
      · exact Or.inl (hsame.trans hnone)
      · exact Or.inr (hsame.trans hsome)
    · rw [hid] at hnew
      exact Or.inr hnew

/-- Requests sent in the term acknowledge no more than the follower still holds. -/
def AckInv (term : ℕ) (w : World σ κ) : Prop :=
  ∀ sent ∈ w.sent, logOf sent.leaders term <+: logOf w.leaders term ∧
    commonPrefix sent.log (logOf sent.leaders term) ≤ held term w

/-- A request of some actions has the follower's log and the leaders of the moment. -/
theorem mem_fetches {follower : Follower σ κ} {leaders : ℕ → Option Leader}
    {actions : List IoAction} {sent : SentFetch} (h : sent ∈ fetches follower leaders actions) :
    sent.log = follower.state.log ∧ sent.leaders = leaders := by
  obtain ⟨action, _, hsome⟩ := List.mem_filterMap.mp h
  split at hsome
  · cases hsome
    exact ⟨rfl, rfl⟩
  · cases hsome

/-- The log of the leader of a term only grows. -/
theorem logOf_isPrefix {leaders after : ℕ → Option Leader} (hgrow : Grow leaders after) (term : ℕ) :
    logOf leaders term <+: logOf after term := by
  unfold logOf
  cases hleader : leaders term with
  | none => exact List.nil_prefix
  | some leader =>
    obtain ⟨leader', hleader', _, hinitial, _⟩ := hgrow term leader hleader
    rw [hleader']
    exact hinitial

/-- A step whose delivery, if any, keeps what is held loses nothing of the leader's log. -/
theorem Follows.held_step (h : Follows term w) (hstep : Step mgr env (keepingAnswer term) w later) :
    held term w ≤ held term later := by
  cases hstep with
  | poll now =>
    have hlog : (w.poll mgr now).follower.state.log = w.follower.state.log :=
      congrArg FollowerView.log (view_poll w now)
    change _ ≤ commonPrefix (w.poll mgr now).follower.state.log _
    rw [hlog]
    exact le_rfl
  | lead leaders hgrow =>
    obtain ⟨rest, hrest⟩ := logOf_isPrefix hgrow term
    change _ ≤ commonPrefix _ (logOf leaders term)
    rw [← hrest]
    exact commonPrefix_append_right _ _ _
  | answer => exact le_rfl
  | deliver clock sent response hanswer hkeeps =>
    exact (h.held_deliver_iff clock hanswer).mpr hkeeps

/-- Where the requests of a step come from. -/
theorem sent_step {rules : Rules σ κ} (hstep : Step mgr env rules w later) {sent : SentFetch}
    (hsent : sent ∈ later.sent) :
    sent ∈ w.sent ∨ sent.log = later.follower.state.log ∧ sent.leaders = later.leaders := by
  cases hstep with
  | poll now => exact (List.mem_append.mp hsent).imp_right mem_fetches
  | lead leaders => exact Or.inl hsent
  | answer => exact Or.inl hsent
  | deliver clock sent' response =>
    rw [sent_deliver, List.mem_append] at hsent
    refine hsent.imp_right fun hnew => ?_
    split at hnew
    · exact mem_fetches hnew
    · cases hnew

/-- The leaders of a step are those before it, grown. -/
theorem logOf_step {rules : Rules σ κ} (hstep : Step mgr env rules w later) (term : ℕ) :
    logOf w.leaders term <+: logOf later.leaders term := by
  cases hstep with
  | poll now => exact List.prefix_rfl
  | lead leaders hgrow => exact logOf_isPrefix hgrow term
  | answer => exact List.prefix_rfl
  | deliver clock sent response => exact List.prefix_rfl

/-- Steps that lose nothing keep what requests have acknowledged. -/
theorem AckInv.step {rules : Rules σ κ} (h : AckInv term w) (hstep : Step mgr env rules w later)
    (hheld : held term w ≤ held term later) : AckInv term later := by
  intro sent hsent
  rcases sent_step hstep hsent with hold | ⟨hlog, hleaders⟩
  · obtain ⟨hinitial, hle⟩ := h sent hold
    exact ⟨hinitial.trans (logOf_step hstep term), hle.trans hheld⟩
  · rw [hlog, hleaders]
    exact ⟨List.prefix_rfl, le_rfl⟩

/-- Runs under one leader keep the follower following it. -/
theorem Follows.run {rules : Rules σ κ}
    (henv : ∀ leaders answers, rules.environment leaders answers → OnlyLeader term leaders)
    (h : Follows term w) (hrun : Run mgr env rules w later) : Follows term later := by
  induction hrun with
  | refl => exact h
  | tail _ hstep ih => exact ih.step henv hstep

/-- Runs whose deliveries keep what is held lose nothing and keep what requests have
acknowledged. -/
theorem AckInv.run (h : AckInv term w) (hfollows : Follows term w)
    (hrun : Run mgr env (keepingAnswer term) w later) :
    held term w ≤ held term later ∧ AckInv term later := by
  induction hrun with
  | refl => exact ⟨le_rfl, h⟩
  | tail hrun hstep ih =>
    have hheld := (hfollows.run (fun _ _ henv => henv) hrun).held_step hstep
    exact ⟨ih.1.trans hheld, ih.2.step hstep hheld⟩

/-- An acknowledged request names entries that the follower still has. -/
theorem AckInv.take_eq (h : AckInv term w) {sent : SentFetch} (hsent : sent ∈ w.sent) :
    sent.log.take (commonPrefix sent.log (logOf sent.leaders term)) =
      w.follower.state.log.take (commonPrefix sent.log (logOf sent.leaders term)) := by
  obtain ⟨hinitial, hle⟩ := h sent hsent
  rw [take_commonPrefix _ _ le_rfl, ← take_of_isPrefix hinitial (commonPrefix_le _ _).2]
  exact (take_commonPrefix _ _ hle).symm

/-- What the follower holds of the leader's log is lost by exactly the deliveries that cut below
it. -/
theorem acknowledged_entries_kept (mgr : ReplicationManager) (env : Collaborators σ κ) (term : ℕ)
    {start : World σ κ} (hstart : Follows term start) (hsent : start.sent = []) :
    (∀ w, Run mgr env (oneLeader term) start w → ∀ clock sent response,
      (sent, response) ∈ w.answers →
      (held term w ≤ held term (w.deliver mgr env clock response) ↔ KeepsHeld term w response)) ∧
    ∀ w later, Run mgr env (keepingAnswer term) start w → Run mgr env (keepingAnswer term) w later →
      held term w ≤ held term later ∧ ∀ sent ∈ later.sent,
        sent.log.take (commonPrefix sent.log (logOf sent.leaders term)) =
          later.follower.state.log.take (commonPrefix sent.log (logOf sent.leaders term)) := by
  have hack : AckInv term start := by
    intro sent hmem
    rw [hsent] at hmem
    cases hmem
  refine ⟨fun w hrun clock sent response hanswer => ?_, fun w later hrun hlater => ?_⟩
  · exact (hstart.run (fun _ _ henv => henv) hrun).held_deliver_iff clock hanswer
  · obtain ⟨_, hw⟩ := hack.run hstart hrun
    obtain ⟨hheld, hafter⟩ := hw.run (hstart.run (fun _ _ henv => henv) hrun) hlater
    exact ⟨hheld, fun sent hmem => hafter.take_eq hmem⟩

/-- A leader of term two whose log leaves the follower's after the first entry. -/
def diverged : World Unit Bool where
  follower := followerOf 1 2 0 [commandEntry 0 1, commandEntry 1 1, commandEntry 2 1]
  leaders := leaderMap [(2, ⟨1, [commandEntry 0 1, commandEntry 1 2, commandEntry 2 2], 0⟩)]
  sent := []
  answers := []
  adopted := []

/-- The follower with the diverging log follows the leader. -/
theorem follows_diverged : Follows 2 diverged where
  wellFormed := ⟨by decide, rfl, by decide, by decide⟩
  start := rfl
  role := rfl
  currentTerm := rfl
  leader := ⟨_, rfl, Or.inr rfl, fun _ _ hmem => by cases hmem⟩
  only other hne := by
    have hother : leaderMap [(2, ⟨1, [commandEntry 0 1, commandEntry 1 2, commandEntry 2 2], 0⟩)]
        other = none := by
      simp [leaderMap, hne.symm]
    exact hother

/-- Of two requests sent from the diverging log, the late answer to the second cuts off
acknowledged entries. -/
theorem not_acknowledged_entries_kept :
    ∃ w sent response, Run ⟨1024, 50⟩ acceptingEnv (oneLeader 2) diverged w ∧
      (sent, response) ∈ w.answers ∧
      (∃ ack ∈ w.sent, ack.request.fetchOffset = 3 ∧ ack.log = logOf w.leaders 2) ∧
      held 2 w = 3 ∧ held 2 (w.deliver ⟨1024, 50⟩ acceptingEnv ⟨100, 0⟩ response) = 1 := by
  have honly : OnlyLeader 2 diverged.leaders := follows_diverged.only
  exact ⟨_, _, _, ((((((((Relation.ReflTransGen.refl.tail
    (.poll _ 0)).tail
    (.poll _ 50)).tail
    (.answer _ 2 _ _ _ rfl (List.Mem.head _) (.diverging ⟨1, 1⟩ 0 (by decide) (by decide)
      (by decide)) honly)).tail
    (.answer _ 2 _ _ _ rfl (.tail _ (.head _))
      (.diverging ⟨1, 1⟩ 0 (by decide) (by decide) (by decide)) honly)).tail
    (.deliver _ ⟨50, 0⟩ _ _ (List.Mem.head _) trivial)).tail
    (.answer _ 2 _ _ _ rfl (.tail _ (.tail _ (.head _)))
      (.entries [commandEntry 1 2, commandEntry 2 2] 0 (by decide) (by decide)) honly)).tail
    (.deliver _ ⟨50, 0⟩ _ _ (.tail _ (.tail _ (.head _))) trivial)).tail
    (.poll _ 100)), .tail _ (.head _), ⟨_, .tail _ (.tail _ (.tail _ (.head _))), rfl, rfl⟩,
    rfl, rfl⟩

/-- A single request, answered and followed up in turn, brings the follower to the leader's log. -/
theorem acknowledged_entries_kept_diverged :
    ∃ w, Run ⟨1024, 50⟩ acceptingEnv (keepingAnswer 2) diverged w ∧ held 2 w = 3 ∧
      held 2 diverged ≤ held 2 w := by
  have honly : OnlyLeader 2 diverged.leaders := follows_diverged.only
  have hrun : ∃ w, Run ⟨1024, 50⟩ acceptingEnv (keepingAnswer 2) diverged w ∧ held 2 w = 3 := by
    refine ⟨_, ((((Relation.ReflTransGen.refl.tail
      (.poll _ 0)).tail
      (.answer _ 2 _ _ _ rfl (List.Mem.head _)
        (.diverging ⟨1, 1⟩ 0 (by decide) (by decide) (by decide)) honly)).tail
      (.deliver _ ⟨50, 0⟩ _ _ (List.Mem.head _) fun diverging hsome => ?_)).tail
      (.answer _ 2 _ _ _ rfl (.tail _ (.head _))
        (.entries [commandEntry 1 2, commandEntry 2 2] 0 (by decide) (by decide)) honly)).tail
      (.deliver _ ⟨50, 0⟩ _ _ (.tail _ (.head _)) fun diverging hsome => ?_), rfl⟩
    · cases hsome
    · cases hsome
      exact Or.inr (by decide)
  obtain ⟨w, hrun, hheld⟩ := hrun
  exact ⟨w, hrun, hheld,
    ((acknowledged_entries_kept ⟨1024, 50⟩ acceptingEnv 2 follows_diverged rfl).2 diverged w
      .refl hrun).1⟩

end World

end XRaft
