import XRaft.Core.AsyncMatching
import XRaft.Core.Delivery

/-!
# State machine safety of the follower

The follower counts everything below the leader's high watermark as committed, as far as
its log reaches. That is right where its log agrees with the leader's up to there. It does
if the entries it appends answer its tail, and if an answer without entries raises the
watermark only to an offset before which the follower has the leader's entry; the handler
checks neither.
-/

namespace XRaft

open Lib

namespace World

variable {σ κ : Type*} {mgr : ReplicationManager} {env : Collaborators σ κ} {w later : World σ κ}

/-- An answer without entries raises the watermark only to where the terms agree with the
leader's. -/
def AgreesAtWatermark (w : World σ κ) (response : FetchResponse) : Prop :=
  response.entries = [] → response.divergingEpoch = none →
    w.follower.state.highWatermark < min response.highWatermark w.follower.state.logEndOffset →
      (w.follower.state.log[min response.highWatermark w.follower.state.logEndOffset - 1]?).map
          LogEntry.term =
        ((logOf w.leaders response.leaderEpoch)[min response.highWatermark
          w.follower.state.logEndOffset - 1]?).map LogEntry.term

/-- Leaders that retain committed entries, and answers that fit the follower's log when
delivered. -/
def fittingAnswer : Rules σ κ :=
  ⟨LeadersRetain, fun w sent response => AnswersTail w sent response ∧ AgreesAtWatermark w response⟩

/-- What the follower counts or applies below an adopted watermark is what the leader who reported
it has. -/
structure StateMachineSafe (w : World σ κ) : Prop where
  counted : ∀ term hw, (term, hw) ∈ w.adopted → ∃ leader, w.leaders term = some leader ∧
    ∀ o < hw, ∃ e, w.follower.state.log[o]? = some e ∧ leader.log[o]? = some e
  applies : ∀ o record, (o, record) ∈ applied w.follower.calls → ∃ term hw leader e,
    (term, hw) ∈ w.adopted ∧ o < hw ∧ w.leaders term = some leader ∧ leader.log[o]? = some e ∧
      e.entryType = .command ∧ record = e.asAppRecord
  watermark : w.follower.state.highWatermark = 0 ∨
    ∃ term, (term, w.follower.state.highWatermark) ∈ w.adopted

/-- The follower's log begins like that of the leader of a term, up to a watermark. -/
def AgreesUpTo (leaders : ℕ → Option Leader) (log : List LogEntry) (term hw : ℕ) : Prop :=
  ∃ leader, leaders term = some leader ∧ hw ≤ leader.log.length ∧ log.take hw = leader.log.take hw

/-- What holds of the adopted watermarks and the applied records along a run. -/
structure CommitInv (w : World σ κ) : Prop where
  adopted : ∀ term hw, (term, hw) ∈ w.adopted →
    hw ≤ w.follower.state.highWatermark ∧ AgreesUpTo w.leaders w.follower.state.log term hw
  applies : ∀ o record, (o, record) ∈ applied w.follower.calls → ∃ term hw e,
    (term, hw) ∈ w.adopted ∧
    o < hw ∧ w.follower.state.log[o]? = some e ∧ e.entryType = .command ∧ record = e.asAppRecord
  watermark : w.follower.state.highWatermark = 0 ∨
    ∃ term, (term, w.follower.state.highWatermark) ∈ w.adopted

/-- A follower that has just started: nothing counted, nothing applied. -/
structure Fresh (w : World σ κ) : Prop extends Initial w where
  highWatermark : w.follower.state.highWatermark = 0
  calls : w.follower.calls = []
  adopted : w.adopted = []

/-- The invariant holds of a fresh follower. -/
theorem Fresh.commitInv (h : Fresh w) : CommitInv w where
  adopted term hw hmem := by
    rw [h.adopted] at hmem
    cases hmem
  applies o record hmem := by
    rw [h.calls] at hmem
    cases hmem
  watermark := Or.inl h.highWatermark

/-- Agreement survives the growth of the leader's log. -/
theorem AgreesUpTo.grow {leaders after : ℕ → Option Leader} {log : List LogEntry} {term hw : ℕ}
    (h : AgreesUpTo leaders log term hw) (hgrow : Grow leaders after) :
    AgreesUpTo after log term hw := by
  obtain ⟨leader, hleader, hle, htake⟩ := h
  obtain ⟨leader', hleader', _, hinitial, _⟩ := hgrow term leader hleader
  exact ⟨leader', hleader', hle.trans hinitial.length_le,
    htake.trans (take_of_isPrefix hinitial hle).symm⟩

/-- An entry of a log from offset zero stands at its own offset. -/
theorem getElem?_offset {log : List LogEntry} (h : Consecutive LogEntry.offset 0 log) {e : LogEntry}
    (he : e ∈ log) : log[e.offset]? = some e := by
  obtain ⟨i, hi⟩ := List.mem_iff_getElem?.mp he
  rw [h.key_getElem? hi, Nat.zero_add]
  exact hi

/-- Lists with a common beginning agree at its positions. -/
theorem getElem?_of_take_eq {first second : List LogEntry} {n o : ℕ}
    (h : first.take n = second.take n) (ho : o < n) : first[o]? = second[o]? := by
  rw [← List.getElem?_take_of_lt ho, h, List.getElem?_take_of_lt ho]

/-- The invariant is what safety asks for. -/
theorem CommitInv.safe (h : CommitInv w) : StateMachineSafe w where
  counted term hw hmem := by
    obtain ⟨_, leader, hleader, hle, htake⟩ := h.adopted term hw hmem
    refine ⟨leader, hleader, fun o ho => ?_⟩
    have hequal := getElem?_of_take_eq htake ho
    have hlt : o < leader.log.length := by omega
    exact ⟨leader.log[o], hequal.trans (List.getElem?_eq_getElem hlt), List.getElem?_eq_getElem hlt⟩
  applies o record hmem := by
    obtain ⟨term, hw, e, hadopted, ho, he, htype, hrecord⟩ := h.applies o record hmem
    obtain ⟨_, leader, hleader, _, htake⟩ := h.adopted term hw hadopted
    exact ⟨term, hw, leader, e, hadopted, ho, hleader, (getElem?_of_take_eq htake ho).symm.trans he,
      htype, hrecord⟩
  watermark := h.watermark

/-- The log below the watermark is the same after a response. -/
theorem take_deliver (h : MatchInv w) (clock : Clock) (response : FetchResponse) {n : ℕ}
    (hn : n ≤ w.follower.state.highWatermark) :
    (w.deliver mgr env clock response).follower.state.log.take n = w.follower.state.log.take n := by
  have heffect := ReplicationManager.handleFetchResponse_effect mgr env clock response w.follower
  have hlength : w.follower.state.highWatermark ≤ w.follower.state.log.length :=
    h.wellFormed.highWatermark_le h.start
  change (mgr.handleFetchResponse env clock response w.follower).2.state.view.log.take n = _
  rcases heffect.log_cases h.wellFormed h.start with ⟨hlog, _⟩ | ⟨diverging, _, hpoint, hlog, _⟩ |
    ⟨_, _, hlog, _⟩
  · rw [hlog]
    rfl
  · change w.follower.state.highWatermark ≤ _ at hpoint
    rw [hlog, List.take_take, Nat.min_eq_left (hn.trans hpoint)]
    rfl
  · rw [hlog]
    exact List.take_append_of_le_length (hn.trans hlength)

/-- A beginning of a log from some leader agrees with a leader that has the same term at its end. -/
theorem MatchInv.take_eq_of_term (h : MatchInv w) {term : ℕ} {leader : Leader}
    (hleader : w.leaders term = some leader) {n : ℕ} (hpos : 0 < n)
    (hn : n ≤ w.follower.state.log.length)
    (hterm : (w.follower.state.log[n - 1]?).map LogEntry.term =
      (leader.log[n - 1]?).map LogEntry.term) :
    n ≤ leader.log.length ∧ w.follower.state.log.take n = leader.log.take n := by
  have hlt : n - 1 < w.follower.state.log.length := by omega
  rw [List.getElem?_eq_getElem hlt, Option.map_some, eq_comm, Option.map_eq_some_iff] at hterm
  obtain ⟨e, he, heterm⟩ := hterm
  have hbound := (List.getElem?_eq_some_iff.mp he).1
  refine ⟨by omega, ?_⟩
  have hmatching := h.logMatching hleader (n - 1) _ e (List.getElem?_eq_getElem hlt) he heterm.symm
  rw [show n - 1 + 1 = n by omega] at hmatching
  exact hmatching

/-- A fitting answer that raises the watermark does so over a log that agrees with its leader's. -/
theorem MatchInv.agreesUpTo_deliver (h : MatchInv w) (clock : Clock) {sent : SentFetch}
    {response : FetchResponse} (hanswer : (sent, response) ∈ w.answers)
    (htail : AnswersTail w sent response) (hagrees : AgreesAtWatermark w response)
    (hraised : w.follower.state.highWatermark <
      (w.deliver mgr env clock response).follower.state.highWatermark) :
    AgreesUpTo w.leaders (w.deliver mgr env clock response).follower.state.log response.leaderEpoch
      (w.deliver mgr env clock response).follower.state.highWatermark := by
  have heffect := ReplicationManager.handleFetchResponse_effect mgr env clock response w.follower
  have hend : w.follower.state.logEndOffset = w.follower.state.log.length :=
    h.wellFormed.logEndOffset_eq h.start
  obtain ⟨leader, hleader, hcorrect⟩ := h.answers sent response hanswer
  rcases heffect.log_cases h.wellFormed h.start with ⟨_, hhw⟩ | ⟨_, _, _, _, hhw⟩ |
    ⟨hdiverging, hentries, hlog, hhw⟩
  · exact absurd hhw (ne_of_gt hraised)
  · exact absurd hhw (ne_of_gt hraised)
  · change (w.deliver mgr env clock response).follower.state.log =
      w.follower.state.log ++ response.entries at hlog
    change (w.deliver mgr env clock response).follower.state.highWatermark = max
      w.follower.state.highWatermark (min response.highWatermark
        (w.follower.state.log.length + response.entries.length)) at hhw
    obtain ⟨hmatch, hdrop⟩ := hcorrect hdiverging
    by_cases hne : response.entries = []
    · -- the log stays; the terms agree right before the new watermark
      rw [hne, List.append_nil] at hlog
      rw [hne, List.length_nil, Nat.add_zero] at hhw
      have hmin : (w.deliver mgr env clock response).follower.state.highWatermark =
          min response.highWatermark w.follower.state.log.length := by omega
      have hterm := hagrees hne hdiverging (by rw [hend]; omega)
      rw [hend, ← hmin] at hterm
      have hlogOf : logOf w.leaders response.leaderEpoch = leader.log := by
        rw [logOf, hleader]
      rw [hlogOf] at hterm
      rw [hlog]
      exact ⟨leader, hleader, h.take_eq_of_term hleader (by omega) (by omega) hterm⟩
    · -- the extended log is a beginning of the leader's
      have hinitial := h.extended_isPrefix hleader hmatch hdrop hne hentries htail
      rw [← hlog] at hinitial
      have hle : (w.deliver mgr env clock response).follower.state.highWatermark ≤
          (w.deliver mgr env clock response).follower.state.log.length := by
        rw [hlog, List.length_append]
        omega
      exact ⟨leader, hleader, hle.trans hinitial.length_le, (take_of_isPrefix hinitial hle).symm⟩

/-- Watermarks adopted so far stay adopted. -/
theorem mem_adopted_deliver (w : World σ κ) (clock : Clock) (response : FetchResponse) {x : ℕ × ℕ}
    (h : x ∈ w.adopted) : x ∈ (w.deliver mgr env clock response).adopted :=
  List.mem_append_left _ h

/-- A raised watermark is adopted from the leader of the response. -/
theorem mem_adopted_of_raised (w : World σ κ) (clock : Clock) (response : FetchResponse)
    (hraised : w.follower.state.highWatermark <
      (w.deliver mgr env clock response).follower.state.highWatermark) :
    (response.leaderEpoch, (w.deliver mgr env clock response).follower.state.highWatermark) ∈
      (w.deliver mgr env clock response).adopted := by
  rw [adopted_deliver, if_pos hraised]
  exact List.mem_append_right _ (List.mem_singleton_self _)

/-- An adopted watermark was adopted before, or by the delivery that raised the follower's to it. -/
theorem adopted_deliver_cases (w : World σ κ) (clock : Clock) (response : FetchResponse) {x : ℕ × ℕ}
    (h : x ∈ (w.deliver mgr env clock response).adopted) :
    x ∈ w.adopted ∨
      w.follower.state.highWatermark <
        (w.deliver mgr env clock response).follower.state.highWatermark ∧
        x = (response.leaderEpoch,
          (w.deliver mgr env clock response).follower.state.highWatermark) := by
  rw [adopted_deliver, List.mem_append] at h
  rcases h with hold | hnew
  · exact Or.inl hold
  · by_cases hraised : w.follower.state.highWatermark <
        (w.deliver mgr env clock response).follower.state.highWatermark
    · rw [if_pos hraised] at hnew
      exact Or.inr ⟨hraised, List.mem_singleton.mp hnew⟩
    · rw [if_neg hraised] at hnew
      cases hnew

/-- A fitting delivery keeps the invariant. -/
theorem CommitInv.deliver (h : CommitInv w) (hmatch : MatchInv w) (clock : Clock) {sent : SentFetch}
    {response : FetchResponse} (hanswer : (sent, response) ∈ w.answers)
    (htail : AnswersTail w sent response) (hagrees : AgreesAtWatermark w response) :
    CommitInv (w.deliver mgr env clock response) := by
  have heffect := ReplicationManager.handleFetchResponse_effect mgr env clock response w.follower
  obtain ⟨hwf, hprogress⟩ :=
    (heffect.moves hmatch.wellFormed.le_end).wellFormed_progress hmatch.wellFormed
  have hhw : w.follower.state.highWatermark ≤
      (w.deliver mgr env clock response).follower.state.highWatermark := hprogress.highWatermark
  refine ⟨fun term hw hmem => ?_, fun o record hmem => ?_, ?_⟩
  · rcases adopted_deliver_cases w clock response hmem with hold | ⟨hraised, hnew⟩
    · obtain ⟨hle, leader, hleader, hbound, htake⟩ := h.adopted term hw hold
      exact ⟨hle.trans hhw, leader, hleader, hbound,
        (take_deliver hmatch clock response hle).trans htake⟩
    · cases hnew
      exact ⟨le_rfl, hmatch.agreesUpTo_deliver clock hanswer htail hagrees hraised⟩
  · obtain ⟨new, hcalls, honly⟩ :=
      ReplicationManager.handleFetchResponse_onlyApplies mgr env clock response w.follower
    rw [follower_deliver, hcalls, applied_append, List.mem_append] at hmem
    rcases hmem with hold | hnew
    · obtain ⟨term, hw, e, hadopted, ho, he, hrest⟩ := h.applies o record hold
      refine ⟨term, hw, e, mem_adopted_deliver w clock response hadopted, ho, ?_, hrest⟩
      have hheld := (h.adopted term hw hadopted).1
      rw [getElem?_of_take_eq (take_deliver hmatch clock response hheld) ho]
      exact he
    · obtain ⟨e, he, htype, hx⟩ := honly _ hnew
      obtain ⟨hmemLog, hrange⟩ := List.mem_filter.mp he
      rw [decide_eq_true_eq] at hrange
      cases hx
      have hraised : w.follower.state.highWatermark <
          (w.deliver mgr env clock response).follower.state.highWatermark := by
        rw [follower_deliver]
        omega
      have hoffsets := hwf.contiguous
      rw [hprogress.start.trans hmatch.start] at hoffsets
      exact ⟨_, _, e, mem_adopted_of_raised w clock response hraised, hrange.2,
        getElem?_offset hoffsets hmemLog, htype, rfl⟩
  · rcases Nat.eq_or_lt_of_le hhw with hsame | hraised
    · rw [← hsame]
      exact h.watermark.imp_right fun ⟨term, hmem⟩ =>
        ⟨term, mem_adopted_deliver w clock response hmem⟩
    · exact Or.inr ⟨_, mem_adopted_of_raised w clock response hraised⟩

/-- Every step keeps the invariant when the answers fit. -/
theorem CommitInv.step (h : CommitInv w) (hmatch : MatchInv w)
    (hstep : Step mgr env fittingAnswer w later) : CommitInv later := by
  cases hstep with
  | poll now =>
    have hview : (w.poll mgr now).follower.state.view = w.follower.state.view := view_poll w now
    have hlog : (w.poll mgr now).follower.state.log = w.follower.state.log :=
      congrArg FollowerView.log hview
    have hhw : (w.poll mgr now).follower.state.highWatermark = w.follower.state.highWatermark :=
      congrArg FollowerView.highWatermark hview
    refine ⟨?_, ?_, ?_⟩
    · rw [hlog, hhw]
      exact h.adopted
    · rw [hlog]
      exact h.applies
    · rw [hhw]
      exact h.watermark
  | lead leaders hgrow =>
    exact ⟨fun term hw hmem => ⟨(h.adopted term hw hmem).1, (h.adopted term hw hmem).2.grow hgrow⟩,
      h.applies, h.watermark⟩
  | answer => exact ⟨h.adopted, h.applies, h.watermark⟩
  | deliver clock sent response hanswer hdelivers =>
    exact h.deliver hmatch clock hanswer hdelivers.1 hdelivers.2

/-- Fitting runs keep both invariants. -/
theorem CommitInv.run (h : CommitInv w) (hmatch : MatchInv w)
    (hrun : Run mgr env fittingAnswer w later) : CommitInv later ∧ MatchInv later := by
  induction hrun with
  | refl => exact ⟨h, hmatch⟩
  | tail _ hstep ih =>
    refine ⟨ih.1.step ih.2 hstep, ih.2.step ?_ ?_ hstep⟩
    · exact fun _ _ henv => LeadersRetain.toLeadersMatch henv
    · exact fun _ _ _ hdelivers => And.left hdelivers

/-- State machine safety, in every state of every run whose deliveries fit the follower's log. -/
theorem follower_state_machine_safety (mgr : ReplicationManager) (env : Collaborators σ κ)
    {start w : World σ κ} (hstart : Fresh start) (hrun : Run mgr env fittingAnswer start w) :
    StateMachineSafe w :=
  (hstart.commitInv.run hstart.toInitial.matchInv hrun).1.safe

/-- The up-to-date follower has just started. -/
theorem fresh_upToDate : Fresh upToDate := ⟨initial_upToDate, rfl, rfl, rfl⟩

/-- Late answers make the follower count an entry of term two that the reporting leader does not
have. -/
theorem not_follower_state_machine_safety :
    ∃ w, Fresh upToDate ∧ Run ⟨1024, 50⟩ acceptingEnv raftAnswer upToDate w ∧
      w.adopted = [(3, 2)] ∧ w.follower.state.log[0]? = some (commandEntry 0 2) ∧
      (∃ leader, w.leaders 3 = some leader ∧ leader.log[0]? = some (commandEntry 0 1)) ∧
      ¬ StateMachineSafe w := by
  obtain ⟨w, hrun, hleaders, hlog, hadopted⟩ := exists_run_upToDate
  have hleader : w.leaders 3 = some ⟨1, [commandEntry 0 1, commandEntry 1 3], 2⟩ := by
    rw [hleaders]
    rfl
  refine ⟨w, fresh_upToDate, hrun, hadopted, by rw [hlog]; rfl, ⟨_, hleader, rfl⟩, fun hsafe => ?_⟩
  obtain ⟨leader, hsome, hagree⟩ :=
    hsafe.counted 3 2 (by rw [hadopted]; exact List.mem_singleton_self _)
  obtain ⟨e, he, he'⟩ := hagree 0 (by omega)
  rw [hleader, Option.some.injEq] at hsome
  rw [hlog] at he
  rw [← hsome, ← he] at he'
  exact absurd he' (by decide)

/-- The third leader's answer arrives in time: the follower counts and applies that leader's two
entries. -/
theorem follower_state_machine_safety_upToDate :
    ∃ w, Run ⟨1024, 50⟩ acceptingEnv fittingAnswer upToDate w ∧ w.adopted = [(3, 2)] ∧
      applied w.follower.calls = [(0, ⟨[]⟩), (1, ⟨[]⟩)] ∧ StateMachineSafe w := by
  have hrun : ∃ w, Run ⟨1024, 50⟩ acceptingEnv fittingAnswer upToDate w ∧ w.adopted = [(3, 2)] ∧
      applied w.follower.calls = [(0, ⟨[]⟩), (1, ⟨[]⟩)] := by
    refine ⟨_, (((Relation.ReflTransGen.refl.tail
      (.poll _ 0)).tail
      (.lead _ (leaderMap threeLeaders) (grow_append (threeLeaders.take 1) [_, _])
        (leadersRetain_of_list _ _ (by decide) (by decide) (by decide) (by decide)))).tail
      (.answer _ 3 _ _ _ rfl (List.Mem.head _)
        (.entries [commandEntry 1 3] 0 (by decide) (by decide))
        (leadersRetain_of_list _ _ (by decide) (by decide) (by decide) (by decide)))).tail
      (.deliver _ ⟨0, 0⟩ _ _ (List.Mem.head _) ⟨fun _ _ => Or.inr rfl, fun hnil => ?_⟩), rfl, rfl⟩
    cases hnil
  obtain ⟨w, hrun, hadopted, happlied⟩ := hrun
  exact ⟨w, hrun, hadopted, happlied,
    follower_state_machine_safety ⟨1024, 50⟩ acceptingEnv fresh_upToDate hrun⟩

end World

end XRaft
