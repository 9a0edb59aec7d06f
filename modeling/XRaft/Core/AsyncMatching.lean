import XRaft.Core.AsyncFetch

/-!
# Log matching at the follower

As long as every answer with entries that the handler appends was asked for at the term
the follower's log still ends with, the follower's log is a beginning of some leader's log,
and so it matches the logs of all leaders. The handler checks the offset of the first entry
only. A request can outlive the log it was sent for: after a truncation and a new append of
the same length, the answer to an old request fits by offset and is appended to entries its
leader never had.
-/

namespace XRaft

open Lib

namespace FollowerView

variable {response : FetchResponse} {view after : FollowerView}

/-- What a response does to a log that starts at offset zero. -/
theorem Effect.log_cases (h : Effect response view after) (hview : view.WellFormed)
    (hstart : view.logStartOffset = 0) :
    (after.log = view.log ∧ after.highWatermark = view.highWatermark) ∨
    (∃ diverging, response.divergingEpoch = some diverging ∧
      view.highWatermark ≤ min diverging.endOffset view.log.length ∧
      after.log = view.log.take (min diverging.endOffset view.log.length) ∧
      after.highWatermark = view.highWatermark) ∨
    (response.divergingEpoch = none ∧ Consecutive LogEntry.offset view.log.length response.entries ∧
      after.log = view.log ++ response.entries ∧ after.highWatermark =
        advanced response view.highWatermark (view.log.length + response.entries.length)) := by
  have hend := hview.logEndOffset_eq hstart
  cases h with
  | kept accepted haccept => exact Or.inl ⟨haccept.log_eq.2.1, haccept.log_eq.2.2.2⟩
  | truncated accepted haccept diverging hdiverging hpoint =>
    rw [hend] at hpoint ⊢
    refine Or.inr (Or.inl ⟨diverging, hdiverging, hpoint, ?_, haccept.log_eq.2.2.2⟩)
    have hlog := hview.log_truncate (min diverging.endOffset view.log.length)
    rw [hstart, Nat.sub_zero] at hlog
    rw [← hlog]
    change accepted.log.filter _ = view.log.filter _
    rw [haccept.log_eq.2.1]
  | extended accepted haccept hdiverging hentries =>
    rw [hend] at hentries ⊢
    refine Or.inr (Or.inr ⟨hdiverging, hentries, ?_, rfl⟩)
    change accepted.log ++ _ = _
    rw [haccept.log_eq.2.1]

end FollowerView

namespace World

variable {σ κ : Type*} {mgr : ReplicationManager} {env : Collaborators σ κ} {w later : World σ κ}

/-- Appendable entries were asked for at the term the follower's log ends with. -/
def AnswersTail (w : World σ κ) (sent : SentFetch) (response : FetchResponse) : Prop :=
  response.entries ≠ [] → sent.request.fetchOffset = w.follower.state.logEndOffset →
    w.follower.state.logEndOffset = 0 ∨
      w.follower.state.lastEntryTerm = sent.request.lastFetchedEpoch

/-- What an answer says stays true of its leader. -/
def AnswerInv (leaders : ℕ → Option Leader) (sent : SentFetch) (response : FetchResponse) : Prop :=
  ∃ leader, leaders response.leaderEpoch = some leader ∧ (response.divergingEpoch = none →
    Matches leader.log sent.request ∧ response.entries <+: leader.log.drop sent.request.fetchOffset)

/-- The follower's log is a beginning of some leader's log. -/
def FromLeader (leaders : ℕ → Option Leader) (log : List LogEntry) : Prop :=
  log = [] ∨ ∃ term leader, leaders term = some leader ∧ log <+: leader.log

/-- What holds along every run whose deliveries answer the follower's tail. -/
structure MatchInv (w : World σ κ) : Prop where
  leaders : LeadersMatch w.leaders
  wellFormed : w.follower.state.view.WellFormed
  start : w.follower.state.logStartOffset = 0
  origin : FromLeader w.leaders w.follower.state.log
  answers : ∀ sent response, (sent, response) ∈ w.answers → AnswerInv w.leaders sent response

/-- A follower before its first request, with a log that some leader had. -/
structure Initial (w : World σ κ) : Prop where
  leaders : LeadersMatch w.leaders
  wellFormed : w.follower.state.view.WellFormed
  start : w.follower.state.logStartOffset = 0
  origin : FromLeader w.leaders w.follower.state.log
  sent : w.sent = []
  answers : w.answers = []

/-- The invariant holds before the first request. -/
theorem Initial.matchInv (h : Initial w) : MatchInv w where
  leaders := h.leaders
  wellFormed := h.wellFormed
  start := h.start
  origin := h.origin
  answers sent response hmem := by
    rw [h.answers] at hmem
    cases hmem

/-- A log that a leader had is one that the leader has later. -/
theorem FromLeader.grow {leaders after : ℕ → Option Leader} {log : List LogEntry}
    (h : FromLeader leaders log) (hgrow : Grow leaders after) : FromLeader after log := by
  rcases h with hnil | ⟨term, leader, hleader, hlog⟩
  · exact Or.inl hnil
  · obtain ⟨leader', hleader', _, hinitial, _⟩ := hgrow term leader hleader
    exact Or.inr ⟨term, leader', hleader', hlog.trans hinitial⟩

/-- A request that matched a log matches every extension of it. -/
theorem matches_of_isPrefix {log more : List LogEntry} {request : FetchRequest}
    (h : Matches log request) (hinitial : log <+: more) : Matches more request := by
  rcases h with hzero | ⟨e, he, hterm⟩
  · exact Or.inl hzero
  · exact Or.inr ⟨e, getElem?_of_isPrefix hinitial he, hterm⟩

/-- Answers stay correct while the leaders' logs grow. -/
theorem AnswerInv.grow {leaders after : ℕ → Option Leader} {sent : SentFetch}
    {response : FetchResponse} (h : AnswerInv leaders sent response) (hgrow : Grow leaders after) :
    AnswerInv after sent response := by
  obtain ⟨leader, hleader, hentries⟩ := h
  obtain ⟨leader', hleader', _, hinitial, _⟩ := hgrow _ leader hleader
  refine ⟨leader', hleader', fun hdiverging => ?_⟩
  obtain ⟨hmatch, hdrop⟩ := hentries hdiverging
  exact ⟨matches_of_isPrefix hmatch hinitial, hdrop.trans (hinitial.drop _)⟩

/-- A fresh answer is correct. -/
theorem Answers.answerInv {leaders : ℕ → Option Leader} {term : ℕ} {leader : Leader}
    {sent : SentFetch} {response : FetchResponse} (hleader : leaders term = some leader)
    (h : Answers term leader sent response) : AnswerInv leaders sent response := by
  cases h with
  | entries entries logStartOffset hmatch hentries =>
    exact ⟨leader, hleader, fun _ => ⟨hmatch, hentries⟩⟩
  | diverging diverging logStartOffset =>
    refine ⟨leader, hleader, fun hnone => ?_⟩
    cases hnone

/-- The first of a run of consecutive entries has the offset at which the run starts. -/
theorem offset_of_consecutive {low high : ℕ} {entries : List LogEntry} (hne : entries ≠ [])
    (hlow : Consecutive LogEntry.offset low entries)
    (hhigh : Consecutive LogEntry.offset high entries) : low = high := by
  obtain ⟨first, rest, rfl⟩ := List.exists_cons_of_ne_nil hne
  exact ((consecutive_cons _ _ _).mp hlow).1.symm.trans ((consecutive_cons _ _ _).mp hhigh).1

/-- The last entry of a nonempty log has the log's last term. -/
theorem getElem?_last {state : NodeState} {n : ℕ} (hlength : state.log.length = n + 1) :
    ∃ e, state.log[n]? = some e ∧ e.term = state.lastEntryTerm := by
  have hlt : n < state.log.length := by omega
  refine ⟨state.log[n], List.getElem?_eq_getElem hlt, ?_⟩
  unfold NodeState.lastEntryTerm
  rw [List.getLast?_eq_getElem?, hlength, Nat.add_sub_cancel, List.getElem?_eq_getElem hlt]
  rfl

/-- Entries that answer the follower's tail continue the log as their leader's log does. -/
theorem MatchInv.extended_isPrefix (h : MatchInv w) {sent : SentFetch} {response : FetchResponse}
    {leader : Leader} (hleader : w.leaders response.leaderEpoch = some leader)
    (hmatch : Matches leader.log sent.request)
    (hdrop : response.entries <+: leader.log.drop sent.request.fetchOffset)
    (hne : response.entries ≠ [])
    (hentries : Consecutive LogEntry.offset w.follower.state.log.length response.entries)
    (htail : AnswersTail w sent response) :
    w.follower.state.log ++ response.entries <+: leader.log := by
  have hend : w.follower.state.logEndOffset = w.follower.state.log.length :=
    h.wellFormed.logEndOffset_eq h.start
  -- the leader has entries from the fetch offset on, so the offsets of the answer start there
  have hle : sent.request.fetchOffset ≤ leader.log.length := by
    by_contra hgt
    rw [List.drop_of_length_le (by omega)] at hdrop
    exact hne (List.prefix_nil.mp hdrop)
  have hoffset : sent.request.fetchOffset = w.follower.state.log.length := by
    have hleaderOffsets := (h.leaders.offsets _ leader hleader).drop _ hle
    rw [Nat.zero_add] at hleaderOffsets
    obtain ⟨rest, hrest⟩ := hdrop
    rw [← hrest, consecutive_append] at hleaderOffsets
    exact offset_of_consecutive hne hleaderOffsets.1 hentries
  have hlog : w.follower.state.log = leader.log.take sent.request.fetchOffset := by
    rcases Nat.eq_zero_or_eq_succ_pred w.follower.state.log.length with hzero | hsucc
    · rw [hoffset, hzero, List.take_zero]
      exact List.length_eq_zero_iff.mp hzero
    · obtain ⟨last, hlast, hterm⟩ := getElem?_last hsucc
      rcases htail hne (hoffset.trans hend.symm) with hempty | hepoch
      · omega
      · rcases hmatch with hzero | ⟨e, he, heterm⟩
        · omega
        · rcases h.origin with hnil | ⟨term, origin, horigin, hinitial⟩
          · rw [hnil] at hsucc
            cases hsucc
          · have hpred : sent.request.fetchOffset - 1 = w.follower.state.log.length.pred := by omega
            rw [hpred] at he
            have hfound :=
              (h.leaders.matching _ _ _ _ horigin hleader).prefix_of_term hinitial hsucc hlast he
                (by rw [hterm, heterm, hepoch])
            rw [hoffset, hsucc]
            exact hfound
  rw [hlog]
  exact append_prefix_of_take hdrop

section Runs

variable {rules : Rules σ κ}
  (henv : ∀ leaders answers, rules.environment leaders answers → LeadersMatch leaders)
  (htail : ∀ (w : World σ κ) sent response, rules.delivers w sent response →
    AnswersTail w sent response)

include henv htail

/-- Every step keeps the invariant when deliveries answer the follower's tail. -/
theorem MatchInv.step (h : MatchInv w) (hstep : Step mgr env rules w later) : MatchInv later := by
  cases hstep with
  | poll now =>
    have hview : (w.poll mgr now).follower.state.view = w.follower.state.view := view_poll w now
    refine ⟨h.leaders, ?_, ?_, ?_, h.answers⟩
    · rw [hview]
      exact h.wellFormed
    · exact (congrArg FollowerView.logStartOffset hview).trans h.start
    · have hlog : (w.poll mgr now).follower.state.log = w.follower.state.log :=
        congrArg FollowerView.log hview
      rw [hlog]
      exact h.origin
  | lead leaders hgrow hleaders =>
    exact ⟨henv _ _ hleaders, h.wellFormed, h.start, h.origin.grow hgrow,
      fun sent response hmem => (h.answers sent response hmem).grow hgrow⟩
  | answer term leader sent response hleader _ hanswer =>
    refine ⟨h.leaders, h.wellFormed, h.start, h.origin, fun sent' response' hmem => ?_⟩
    rcases List.mem_append.mp hmem with hold | hnew
    · exact h.answers sent' response' hold
    · rw [List.mem_singleton, Prod.mk.injEq] at hnew
      rw [hnew.1, hnew.2]
      exact Answers.answerInv hleader hanswer
  | deliver clock sent response hanswer hdelivers =>
    have heffect := ReplicationManager.handleFetchResponse_effect mgr env clock response w.follower
    obtain ⟨hafter, hprogress⟩ :=
      (heffect.moves h.wellFormed.le_end).wellFormed_progress h.wellFormed
    refine ⟨h.leaders, hafter, hprogress.start.trans h.start, ?_, h.answers⟩
    rw [follower_deliver]
    rcases heffect.log_cases h.wellFormed h.start with ⟨hlog, _⟩ | ⟨_, _, _, hlog, _⟩ |
      ⟨hdiverging, hentries, hlog, _⟩
    · change (mgr.handleFetchResponse env clock response w.follower).2.state.log =
        w.follower.state.log at hlog
      rw [hlog]
      exact h.origin
    · change (mgr.handleFetchResponse env clock response w.follower).2.state.log =
        w.follower.state.log.take _ at hlog
      rw [hlog]
      rcases h.origin with hnil | ⟨term, leader, hleader, hinitial⟩
      · exact Or.inl (by rw [hnil, List.take_nil])
      · exact Or.inr ⟨term, leader, hleader, (List.take_prefix _ _).trans hinitial⟩
    · change (mgr.handleFetchResponse env clock response w.follower).2.state.log =
        w.follower.state.log ++ response.entries at hlog
      rw [hlog]
      obtain ⟨leader, hleader, hcorrect⟩ := h.answers sent response hanswer
      obtain ⟨hmatch, hdrop⟩ := hcorrect hdiverging
      by_cases hne : response.entries = []
      · rw [hne, List.append_nil]
        exact h.origin
      · exact Or.inr ⟨_, leader, hleader,
          h.extended_isPrefix hleader hmatch hdrop hne hentries (htail _ _ _ hdelivers)⟩

/-- Every run keeps the invariant when deliveries answer the follower's tail. -/
theorem MatchInv.run (h : MatchInv w) (hrun : Run mgr env rules w later) : MatchInv later := by
  induction hrun with
  | refl => exact h
  | tail _ hstep ih => exact ih.step henv htail hstep

end Runs

/-- The follower's log matches that of every leader. -/
theorem MatchInv.logMatching (h : MatchInv w) {term : ℕ} {leader : Leader}
    (hleader : w.leaders term = some leader) :
    LogMatching LogEntry.term w.follower.state.log leader.log := by
  rcases h.origin with hnil | ⟨term', origin, horigin, hinitial⟩
  · rw [hnil]
    exact logMatching_nil _
  · exact (h.leaders.matching _ _ _ _ horigin hleader).of_isPrefix hinitial

/-- Leaders whose logs match, and answers delivered at any time. -/
def anyAnswer : Rules σ κ := ⟨fun leaders _ => LeadersMatch leaders, fun _ _ _ => True⟩

/-- Leaders whose logs match, and answers delivered while they answer the follower's tail. -/
def tailAnswer : Rules σ κ := ⟨fun leaders _ => LeadersMatch leaders, AnswersTail⟩

/-- Log matching with all leaders, in every state of every run whose deliveries answer the
follower's tail. -/
theorem follower_log_matching (mgr : ReplicationManager) (env : Collaborators σ κ)
    {start w : World σ κ} (hstart : Initial start) (hrun : Run mgr env tailAnswer start w)
    {term : ℕ} {leader : Leader} (hleader : w.leaders term = some leader) :
    LogMatching LogEntry.term w.follower.state.log leader.log :=
  (hstart.matchInv.run (fun _ _ h => h) (fun _ _ _ h => h) hrun).logMatching hleader

/-- Leaders that also retain what was reported as committed, and answers delivered at any time. -/
def raftAnswer : Rules σ κ := ⟨LeadersRetain, fun _ _ _ => True⟩

/-- Node 1 leads term one, node 3 term two, and node 1, with its old entry, term three. -/
def threeLeaders : List (ℕ × Leader) :=
  [(1, ⟨1, [commandEntry 0 1], 0⟩), (2, ⟨3, [commandEntry 0 2], 0⟩),
    (3, ⟨1, [commandEntry 0 1, commandEntry 1 3], 2⟩)]

/-- A follower of the first leader that holds its only entry. -/
def upToDate : World Unit Bool :=
  ⟨followerOf 1 1 0 [commandEntry 0 1], leaderMap (threeLeaders.take 1), [], [], []⟩

/-- The world of the up-to-date follower is initial. -/
theorem initial_upToDate : Initial upToDate where
  leaders :=
    (leadersRetain_of_list _ [] (by decide) (by decide) (by decide) (by decide)).toLeadersMatch
  wellFormed := ⟨by decide, rfl, by decide, by decide⟩
  start := rfl
  origin := Or.inr ⟨1, _, rfl, List.prefix_rfl⟩
  sent := rfl
  answers := rfl

/-- The answer of the third leader to a request of the first term is appended to the second
leader's entry. -/
theorem exists_run_upToDate :
    ∃ w, Run ⟨1024, 50⟩ acceptingEnv raftAnswer upToDate w ∧ w.leaders = leaderMap threeLeaders ∧
      w.follower.state.log = [commandEntry 0 2, commandEntry 1 3] ∧ w.adopted = [(3, 2)] := by
  refine ⟨_, ((((((((Relation.ReflTransGen.refl.tail
    -- the follower asks for what follows its entry of term one; the answer is delayed
    (.poll _ 0)).tail
    (.lead _ (leaderMap (threeLeaders.take 2)) (grow_append (threeLeaders.take 1) [_])
      (leadersRetain_of_list _ _ (by decide) (by decide) (by decide) (by decide)))).tail
    (.answer _ 2 _ _ _ rfl (List.Mem.head _)
      (.diverging ⟨1, 0⟩ 0 (by decide) (by decide) (by decide))
      (leadersRetain_of_list _ _ (by decide) (by decide) (by decide) (by decide)))).tail
    (.deliver _ ⟨0, 0⟩ _ _ (List.Mem.head _) trivial)).tail
    (.answer _ 2 _ _ _ rfl (.tail _ (.head _))
      (.entries [commandEntry 0 2] 0 (by decide) (by decide))
      (leadersRetain_of_list _ _ (by decide) (by decide) (by decide) (by decide)))).tail
    (.deliver _ ⟨0, 0⟩ _ _ (.tail _ (.head _)) trivial)).tail
    (.lead _ (leaderMap threeLeaders) (grow_append (threeLeaders.take 2) [_])
      (leadersRetain_of_list _ _ (by decide) (by decide) (by decide) (by decide)))).tail
    (.answer _ 3 _ _ _ rfl (List.Mem.head _) (.entries [commandEntry 1 3] 0 (by decide) (by decide))
      (leadersRetain_of_list _ _ (by decide) (by decide) (by decide) (by decide)))).tail
    (.deliver _ ⟨0, 0⟩ _ _ (.tail _ (.tail _ (.head _))) trivial), rfl, rfl, rfl⟩

/-- Late answers break log matching: equal entries at offset one, of term three, but not at offset
zero. -/
theorem not_follower_log_matching :
    ∃ w, Initial upToDate ∧ Run ⟨1024, 50⟩ acceptingEnv anyAnswer upToDate w ∧
      ∃ leader, w.leaders 3 = some leader ∧ w.follower.state.log[1]? = some (commandEntry 1 3) ∧
        leader.log[1]? = some (commandEntry 1 3) ∧ w.follower.state.log[0]? ≠ leader.log[0]? := by
  obtain ⟨w, hrun, hleaders, hlog, _⟩ := exists_run_upToDate
  have hany : Run ⟨1024, 50⟩ acceptingEnv anyAnswer upToDate w :=
    Run.mono (fun _ _ h => LeadersRetain.toLeadersMatch h) (fun _ _ _ _ => trivial) hrun
  refine ⟨w, initial_upToDate, hany, ?_⟩
  rw [hleaders, hlog]
  exact ⟨_, rfl, rfl, rfl, by decide⟩

/-- The same request, answered by the third leader while the follower still has the log it was
sent for. -/
theorem follower_log_matching_upToDate :
    ∃ w, Run ⟨1024, 50⟩ acceptingEnv tailAnswer upToDate w ∧
      w.follower.state.log = [commandEntry 0 1, commandEntry 1 3] ∧
      LogMatching LogEntry.term w.follower.state.log [commandEntry 0 1, commandEntry 1 3] := by
  have hrun : ∃ w, Run ⟨1024, 50⟩ acceptingEnv tailAnswer upToDate w ∧
      w.leaders = leaderMap threeLeaders ∧
      w.follower.state.log = [commandEntry 0 1, commandEntry 1 3] := by
    refine ⟨_, (((Relation.ReflTransGen.refl.tail
      (.poll _ 0)).tail
      (.lead _ (leaderMap threeLeaders) (grow_append (threeLeaders.take 1) [_, _])
        (leadersRetain_of_list _ [] (by decide) (by decide) (by decide)
          (by decide)).toLeadersMatch)).tail
      (.answer _ 3 _ _ _ rfl (List.Mem.head _)
        (.entries [commandEntry 1 3] 0 (by decide) (by decide))
        (leadersRetain_of_list _ [] (by decide) (by decide) (by decide)
          (by decide)).toLeadersMatch)).tail
      (.deliver _ ⟨0, 0⟩ _ _ (List.Mem.head _) fun _ _ => Or.inr rfl), rfl, rfl⟩
  obtain ⟨w, hrun, hleaders, hlog⟩ := hrun
  have hleader : w.leaders 3 = some ⟨1, [commandEntry 0 1, commandEntry 1 3], 2⟩ := by
    rw [hleaders]
    rfl
  exact ⟨w, hrun, hlog, follower_log_matching ⟨1024, 50⟩ acceptingEnv initial_upToDate hrun hleader⟩

end World

end XRaft
