import Mathlib.Logic.Relation
import XRaft.Core.Membership
import XRaft.Lib.Configurations

/-!
# The membership state follows the log

The membership state caches what the log says about configurations: the committed one, and
whether one more is on its way. It is driven next to a log that grows, commits, is cut
back and is replaced by a snapshot. The cache is exact in every state of every run: the
log has at most one uncommitted configuration, and it is the pending one.
-/

namespace XRaft.Membership

open Lib

/-- The record of a configuration at its offset. -/
def VotersRecord.ofConfig (config : ℕ × Finset NodeId) : VotersRecord := ⟨config.2, config.1⟩

/-- Report the configuration entries at the given offsets as committed, one by one. -/
def MembershipState.commitAll (offsets : List ℕ) (state : MembershipState) : MembershipState :=
  offsets.foldl (fun state offset => (state.commitChange offset).2) state

/-- A log and the membership state driven next to it. -/
structure Tracked where
  log : ConfigLog (Finset NodeId)
  state : MembershipState

/-- A log that holds its base configuration only, and the state started from it. -/
def Tracked.init (record : VotersRecord) (start : ℕ) : Tracked :=
  ⟨.install (record.offset, record.voters) start, .new record⟩

/-- One thing that happens to the log, and what the membership state is told. -/
inductive Tracked.Step : Tracked → Tracked → Prop where
  | propose (t : Tracked) (newVoters : Finset NodeId) (record : VotersRecord)
      (state : MembershipState)
      (haccepted : t.state.proposeChange newVoters t.log.endOffset = (.ok record, state)) :
      Step t ⟨t.log.append (some newVoters), state⟩
  | refuse (t : Tracked) (newVoters : Finset NodeId) (e : MembershipError) (state : MembershipState)
      (hrefused : t.state.proposeChange newVoters t.log.endOffset = (.error e, state)) :
      Step t ⟨t.log, state⟩
  | append (t : Tracked) : Step t ⟨t.log.append none, t.state⟩
  | commit (t : Tracked) (offset : ℕ) (hlow : t.log.committed ≤ offset)
      (hhigh : offset ≤ t.log.endOffset) :
      Step t ⟨t.log.commitTo offset hlow hhigh,
        t.state.commitAll ((t.log.unsettled.filter fun config => config.1 < offset).map Prod.fst)⟩
  | misdirect (t : Tracked) (offset : ℕ) (hwrong : ∀ config ∈ t.log.unsettled, config.1 ≠ offset) :
      Step t ⟨t.log, (t.state.commitChange offset).2⟩
  | truncate (t : Tracked) (offset : ℕ) (hlow : t.log.committed ≤ offset) :
      Step t ⟨t.log.truncate offset hlow, t.state.clearPendingIfTruncated offset⟩
  | install (t : Tracked) (record : VotersRecord) (start : ℕ) :
      Step t ⟨.install (record.offset, record.voters) start, t.state.applySnapshot record⟩

/-- Any number of steps. -/
abbrev Tracked.Run : Tracked → Tracked → Prop := Relation.ReflTransGen Tracked.Step

/-- The state says of the configurations what the log says. -/
structure Tracked.Mirrors (t : Tracked) : Prop where
  committed : t.state.committedVoters = .ofConfig t.log.committedConfig
  effective : t.state.effectiveVoters = .ofConfig t.log.effectiveConfig
  pending : t.state.hasPendingChange = true ↔ t.log.unsettled ≠ []
  single : t.log.unsettled.length ≤ 1

/-- The pending change as the configuration it puts into the log. -/
def MembershipState.pendingConfig (state : MembershipState) : Option (ℕ × Finset NodeId) :=
  state.pendingMembershipChange.map fun pending => (pending.record.offset, pending.record.voters)

/-- The uncommitted configurations are the pending one, at the offset the change remembers. -/
structure Tracked.Inv (t : Tracked) : Prop where
  committed : t.state.committed = .ofConfig t.log.committedConfig
  unsettled : t.log.unsettled = t.state.pendingConfig.toList
  offset : ∀ pending, t.state.pendingMembershipChange = some pending →
    pending.offset = pending.record.offset

/-- A log without changes is tracked. -/
theorem Tracked.inv_init (record : VotersRecord) (start : ℕ) : (Tracked.init record start).Inv := by
  refine ⟨?_, ConfigLog.unsettled_install _ _, fun _ h => by cases h⟩
  rw [Tracked.init, ConfigLog.committedConfig_install]
  rfl

variable {t after : Tracked}

/-- What the invariant makes of the log is what the state answers. -/
theorem Tracked.Inv.mirrors (h : t.Inv) : t.Mirrors := by
  obtain ⟨log, committed, pending⟩ := t
  have hcommitted : committed = .ofConfig log.committedConfig := h.committed
  have hunsettled : log.unsettled = (MembershipState.mk committed pending).pendingConfig.toList :=
    h.unsettled
  refine ⟨hcommitted, ?_, ?_, ?_⟩
  · rw [log.effectiveConfig_eq, hunsettled]
    cases pending with
    | none => exact hcommitted
    | some pending => rfl
  · rw [hunsettled]
    cases pending <;> simp [MembershipState.hasPendingChange, MembershipState.pendingConfig]
  · rw [hunsettled]
    cases pending <;> simp [MembershipState.pendingConfig]

/-- Committing part of the log keeps it tracked. -/
theorem Tracked.Inv.commit (h : t.Inv) {offset : ℕ} (hlow : t.log.committed ≤ offset)
    (hhigh : offset ≤ t.log.endOffset) :
    Tracked.Inv ⟨t.log.commitTo offset hlow hhigh,
      t.state.commitAll
        ((t.log.unsettled.filter fun config => config.1 < offset).map Prod.fst)⟩ := by
  obtain ⟨log, committed, pending⟩ := t
  have hcommitted : committed = .ofConfig log.committedConfig := h.committed
  have hunsettled : log.unsettled = (MembershipState.mk committed pending).pendingConfig.toList :=
    h.unsettled
  have hmoved := log.unsettled_commitTo offset hlow hhigh
  have hbelow := log.committedConfig_commitTo offset hlow hhigh
  dsimp only at hmoved hbelow ⊢
  cases pending with
  | none =>
    have hnil : log.unsettled = [] := hunsettled
    rw [hnil, List.filter_nil, List.nil_append] at hmoved
    rw [hnil, List.filter_nil] at hbelow
    rw [hnil]
    exact ⟨hcommitted.trans (congrArg VotersRecord.ofConfig hbelow.symm), hmoved.symm, h.offset⟩
  | some pending =>
    have hone : log.unsettled = [(pending.record.offset, pending.record.voters)] := hunsettled
    have hoffset : pending.offset = pending.record.offset := h.offset pending rfl
    rw [hone] at hmoved hbelow ⊢
    by_cases hpassed : pending.record.offset < offset
    · -- the commit offset passes the pending entry, which is reported at its own offset
      have hfilter : [(pending.record.offset, pending.record.voters)].filter
          (fun config => decide (config.1 < offset)) =
          [(pending.record.offset, pending.record.voters)] := by
        simp [hpassed]
      rw [hfilter] at hmoved hbelow ⊢
      have hreported : MembershipState.commitAll
          ([(pending.record.offset, pending.record.voters)].map Prod.fst)
          ⟨committed, some pending⟩ = ⟨pending.record, none⟩ := by
        simp [MembershipState.commitAll, MembershipState.commitChange, hoffset]
      rw [hreported]
      refine ⟨(congrArg VotersRecord.ofConfig hbelow).symm, ?_, fun _ hpending => by cases hpending⟩
      exact List.append_right_eq_self.mp hmoved.symm
    · have hfilter : [(pending.record.offset, pending.record.voters)].filter
          (fun config => decide (config.1 < offset)) = [] := by
        simp [hpassed]
      rw [hfilter] at hmoved hbelow ⊢
      exact ⟨hcommitted.trans (congrArg VotersRecord.ofConfig hbelow.symm), hmoved.symm, h.offset⟩

/-- Truncating clears the pending change exactly if it lies at or above the offset. -/
theorem clearPendingIfTruncated_eq (state : MembershipState) (offset : ℕ) :
    state.clearPendingIfTruncated offset =
      ⟨state.committed,
        state.pendingMembershipChange.filter fun pending => pending.offset < offset⟩ := by
  obtain ⟨committed, pending⟩ := state
  cases pending with
  | none => rfl
  | some pending =>
    rw [MembershipState.clearPendingIfTruncated]
    by_cases hcut : offset ≤ pending.offset
    · simp [Option.filter, hcut]
    · simp [Option.filter, hcut, Nat.lt_of_not_le hcut]

/-- Truncating the uncommitted part of the log keeps it tracked. -/
theorem Tracked.Inv.truncate (h : t.Inv) {offset : ℕ} (hlow : t.log.committed ≤ offset) :
    Tracked.Inv ⟨t.log.truncate offset hlow, t.state.clearPendingIfTruncated offset⟩ := by
  rw [clearPendingIfTruncated_eq]
  refine ⟨?_, ?_, fun pending hpending =>
    h.offset pending (Option.filter_eq_some_iff.mp hpending).1⟩
  · rw [ConfigLog.committedConfig_truncate]
    exact h.committed
  · rw [ConfigLog.unsettled_truncate, h.unsettled]
    unfold MembershipState.pendingConfig
    cases hpending : t.state.pendingMembershipChange with
    | none => rfl
    | some pending =>
      have hoffset : pending.offset = pending.record.offset := h.offset pending hpending
      by_cases hkept : pending.record.offset < offset
      · simp [Option.filter, hoffset, hkept]
      · simp [Option.filter, hoffset, hkept]

/-- Every step keeps the log tracked. -/
theorem Tracked.Inv.step (h : t.Inv) (hstep : Tracked.Step t after) : after.Inv := by
  obtain ⟨log, committed, pending⟩ := t
  have hcommitted : committed = .ofConfig log.committedConfig := h.committed
  have hunsettled : log.unsettled = (MembershipState.mk committed pending).pendingConfig.toList :=
    h.unsettled
  cases hstep with
  | propose newVoters record state haccepted =>
    cases pending with
    | some pending => cases haccepted
    | none =>
      cases haccepted
      refine ⟨?_, ?_, fun pending hpending => ?_⟩
      · rw [ConfigLog.committedConfig_append]
        exact hcommitted
      · rw [ConfigLog.unsettled_append, hunsettled]
        rfl
      · cases hpending
        rfl
  | refuse newVoters e state hrefused =>
    cases pending with
    | some pending =>
      cases hrefused
      exact h
    | none => cases hrefused
  | append =>
    refine ⟨?_, ?_, h.offset⟩
    · rw [ConfigLog.committedConfig_append]
      exact hcommitted
    · rw [ConfigLog.unsettled_append, hunsettled]
      exact List.append_nil _
  | commit offset hlow hhigh => exact h.commit hlow hhigh
  | misdirect offset hwrong =>
    cases pending with
    | none => exact h
    | some pending =>
      have hoffset : pending.offset ≠ offset := by
        rw [h.offset pending rfl]
        exact hwrong (pending.record.offset,
          pending.record.voters) (hunsettled ▸ List.mem_cons_self)
      simp only [MembershipState.commitChange, if_pos hoffset]
      exact h
  | truncate offset hlow => exact h.truncate hlow
  | install record start => exact Tracked.inv_init record start

/-- In every state of every run the committed and effective voters are the last configurations of
the committed part and of the whole log, a change is pending exactly when an uncommitted
configuration exists, there is at most one, and a refused call changes nothing. -/
theorem membership_mirrors_log (record : VotersRecord) (start : ℕ)
    (hrun : Tracked.Run (Tracked.init record start) t) :
    t.Mirrors ∧
      (∀ newVoters offset e, (t.state.proposeChange newVoters offset).1 = .error e →
        (t.state.proposeChange newVoters offset).2 = t.state) ∧
      ∀ offset e, (t.state.commitChange offset).1 = .error e →
        (t.state.commitChange offset).2 = t.state := by
  have hinv : t.Inv := by
    induction hrun with
    | refl => exact Tracked.inv_init record start
    | tail _ hlast ih => exact ih.step hlast
  refine ⟨hinv.mirrors, fun newVoters offset e herror => ?_, fun offset e herror => ?_⟩
  · unfold MembershipState.proposeChange at herror ⊢
    split at herror
    · rfl
    · cases herror
  · unfold MembershipState.commitChange at herror ⊢
    cases hpending : t.state.pendingMembershipChange with
    | none => rfl
    | some pending =>
      simp only [hpending] at herror ⊢
      split at herror
      · rename_i hwrong
        rw [if_pos hwrong]
      · cases herror

/-- A fourth voter is added at offset 1 and committed, while a plain entry behind it is not. -/
theorem membership_mirrors_log_added :
    ∃ t, Tracked.Run (Tracked.init ⟨{1, 2, 3}, 0⟩ 1) t ∧ t.Mirrors ∧
    t.state.committedVoters = ⟨{1, 2, 3, 4}, 1⟩ ∧ t.log.endOffset = 3 := by
  have hrun : Tracked.Run (Tracked.init ⟨{1, 2, 3}, 0⟩ 1) _ :=
    ((Relation.ReflTransGen.refl.tail (.propose _ {1, 2, 3, 4} _ _ rfl)).tail (.append _)).tail
      (.commit _ 2 (by decide) (by decide))
  exact ⟨_, hrun, (membership_mirrors_log _ _ hrun).1, by decide, by decide⟩

end XRaft.Membership
