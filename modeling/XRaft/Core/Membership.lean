import XRaft.Core.Types
import XRaft.Lib.Quorums

/-!
# Membership changes and their quorums

The membership state of `membership.rs`: the committed voter configuration and at most one
pending change, which is the effective configuration as soon as it is proposed. Nothing
relates a proposed set to the committed one. Majorities of the committed and of the
effective configuration meet in every state exactly when every proposal that is accepted
overlaps the committed set enough; adding or removing one voter always does.
-/

namespace XRaft.Membership

open Lib

/-- The voter set at a particular log offset. -/
structure VotersRecord where
  voters : Finset NodeId
  offset : ℕ
  deriving DecidableEq

/-- The number of voters required for a majority quorum. -/
def VotersRecord.quorumSize (record : VotersRecord) : ℕ := record.voters.card / 2 + 1

/-- An in-flight membership change and the offset where it was appended. -/
structure PendingMembershipChange where
  record : VotersRecord
  offset : ℕ
  deriving DecidableEq

/-- Why a membership operation is refused. -/
inductive MembershipError where
  | changeAlreadyPending (pendingOffset : ℕ)
  | noPendingChange
  | offsetMismatch (expected actual : ℕ)
  deriving DecidableEq, Repr

/-- The committed configuration and at most one uncommitted change. -/
structure MembershipState where
  committed : VotersRecord
  pendingMembershipChange : Option PendingMembershipChange
  deriving DecidableEq

namespace MembershipState

/-- Start from a committed voter record. -/
def new (committed : VotersRecord) : MembershipState := ⟨committed, none⟩

/-- The currently committed voter configuration. -/
def committedVoters (state : MembershipState) : VotersRecord := state.committed

/-- The effective configuration: the pending one if a change is in flight. -/
def effectiveVoters (state : MembershipState) : VotersRecord :=
  match state.pendingMembershipChange with
  | some pending => pending.record
  | none => state.committed

/-- Whether a membership change is in flight. -/
def hasPendingChange (state : MembershipState) : Bool := state.pendingMembershipChange.isSome

/-- Propose a membership change; only one may be pending. -/
def proposeChange (newVoters : Finset NodeId) (logOffset : ℕ) (state : MembershipState) :
    Except MembershipError VotersRecord × MembershipState :=
  match state.pendingMembershipChange with
  | some pending => (.error (.changeAlreadyPending pending.offset), state)
  | none =>
    let record : VotersRecord := ⟨newVoters, logOffset⟩
    (.ok record, { state with pendingMembershipChange := some ⟨record, logOffset⟩ })

/-- Commit the pending change once its log entry is committed. -/
def commitChange (committedOffset : ℕ) (state : MembershipState) :
    Except MembershipError VotersRecord × MembershipState :=
  match state.pendingMembershipChange with
  | none => (.error .noPendingChange, state)
  | some pending =>
    if pending.offset ≠ committedOffset then
      (.error (.offsetMismatch pending.offset committedOffset), state)
    else (.ok pending.record, ⟨pending.record, none⟩)

/-- Forget the pending change if its entry is at or beyond a truncation. -/
def clearPendingIfTruncated (truncateFrom : ℕ) (state : MembershipState) : MembershipState :=
  match state.pendingMembershipChange with
  | some pending =>
    if pending.offset ≥ truncateFrom then { state with pendingMembershipChange := none } else state
  | none => state

/-- Forget the pending change. -/
def clearPending (state : MembershipState) : MembershipState :=
  { state with pendingMembershipChange := none }

/-- Replace both committed and pending state by a snapshot's. -/
def applySnapshot (snapshotVoters : VotersRecord) (_state : MembershipState) : MembershipState :=
  ⟨snapshotVoters, none⟩

end MembershipState

/-- The calls that propose, commit and withdraw changes. -/
inductive Change where
  | propose (newVoters : Finset NodeId) (logOffset : ℕ)
  | commit (committedOffset : ℕ)
  | clearIfTruncated (truncateFrom : ℕ)
  | clear

namespace MembershipState

variable {state : MembershipState}

/-- The state after one call. -/
def apply (state : MembershipState) : Change → MembershipState
  | .propose newVoters logOffset => (state.proposeChange newVoters logOffset).2
  | .commit committedOffset => (state.commitChange committedOffset).2
  | .clearIfTruncated truncateFrom => state.clearPendingIfTruncated truncateFrom
  | .clear => state.clearPending

/-- The state after a sequence of calls. -/
def applyAll (state : MembershipState) (changes : List Change) : MembershipState :=
  changes.foldl apply state

/-- Any quorum of the committed and any of the effective configuration have a common member. -/
def MajoritiesMeet (state : MembershipState) : Prop :=
  QuorumsMeet state.committedVoters.voters state.effectiveVoters.voters
    state.committedVoters.quorumSize state.effectiveVoters.quorumSize

/-- The proposed voters share enough members with the committed ones. -/
def Overlaps (committed proposed : Finset NodeId) : Prop :=
  (committed ∩ proposed).card <
    sharedNeed committed proposed (committed.card / 2 + 1) (proposed.card / 2 + 1)

instance (committed proposed : Finset NodeId) : Decidable (Overlaps committed proposed) :=
  inferInstanceAs (Decidable (_ < _))

/-- The call is a proposal that will be accepted. -/
def Accepts (state : MembershipState) (change : Change) (newVoters : Finset NodeId) : Prop :=
  state.hasPendingChange = false ∧ ∃ logOffset, change = .propose newVoters logOffset

/-- Without a pending change the two configurations are one. -/
theorem majoritiesMeet_of_settled (h : state.pendingMembershipChange = none) :
    state.MajoritiesMeet := by
  have heffective : state.effectiveVoters = state.committedVoters := by
    unfold effectiveVoters
    rw [h]
    rfl
  unfold MajoritiesMeet
  rw [heffective]
  exact majorities_meet_self _

/-- A call proposes an accepted change, settles what is pending, or changes nothing. -/
theorem apply_cases (state : MembershipState) (change : Change) :
    (∃ newVoters logOffset, state.Accepts change newVoters ∧
        state.apply change = ⟨state.committed, some ⟨⟨newVoters, logOffset⟩, logOffset⟩⟩) ∨
      (∀ newVoters, ¬ state.Accepts change newVoters) ∧
        ((state.apply change).pendingMembershipChange = none ∨ state.apply change = state) := by
  obtain ⟨committed, pending⟩ := state
  cases pending with
  | none =>
    cases change with
    | propose newVoters logOffset => exact Or.inl ⟨newVoters, logOffset, ⟨rfl, logOffset, rfl⟩, rfl⟩
    | _ =>
      refine Or.inr ⟨?_, Or.inl rfl⟩
      rintro newVoters ⟨-, logOffset, hchange⟩
      cases hchange
  | some pending =>
    refine Or.inr ⟨fun newVoters haccepts => ?_, ?_⟩
    · cases haccepts.1
    · cases change with
      | propose newVoters logOffset => exact Or.inr rfl
      | commit committedOffset =>
        simp only [apply, commitChange]
        split
        · exact Or.inr rfl
        · exact Or.inl rfl
      | clearIfTruncated truncateFrom =>
        simp only [apply, clearPendingIfTruncated]
        split
        · exact Or.inl rfl
        · exact Or.inr rfl
      | clear => exact Or.inl rfl

/-- With a change pending, majorities meet exactly when the proposed voters overlap the committed
ones. -/
theorem majoritiesMeet_pending_iff (committed : VotersRecord) (pending : PendingMembershipChange) :
    (MembershipState.mk committed (some pending)).MajoritiesMeet ↔
      Overlaps committed.voters pending.record.voters :=
  quorumsMeet_iff _ _ _ _

/-- One call more. -/
theorem applyAll_take_succ (state : MembershipState) (changes : List Change) (k : ℕ) :
    state.applyAll (changes.take (k + 1)) =
      (changes[k]?.map (state.applyAll (changes.take k)).apply).getD
        (state.applyAll (changes.take k)) := by
  unfold applyAll
  rw [List.take_add_one]
  cases changes[k]? with
  | none => rw [Option.toList_none, List.append_nil, Option.map_none, Option.getD_none]
  | some change => rw [Option.toList_some, List.foldl_concat, Option.map_some, Option.getD_some]

/-- Majorities of the committed and of the effective configuration meet in every state of a run
exactly when every proposal accepted in it overlaps the committed voters. -/
theorem majoritiesMeet_iff_overlaps (initial : VotersRecord) (changes : List Change) :
    (∀ k, ((new initial).applyAll (changes.take k)).MajoritiesMeet) ↔
      ∀ k change newVoters, changes[k]? = some change →
        ((new initial).applyAll (changes.take k)).Accepts change newVoters →
        Overlaps ((new initial).applyAll (changes.take k)).committedVoters.voters newVoters := by
  constructor
  · intro hmeet k change newVoters hchange haccepts
    have hnext := hmeet (k + 1)
    rw [applyAll_take_succ, hchange, Option.map_some, Option.getD_some] at hnext
    rcases apply_cases ((new initial).applyAll (changes.take k)) change with
      ⟨proposed, logOffset, ⟨-, offset, hproposed⟩, happly⟩ | ⟨hnone, -⟩
    · obtain ⟨-, offset', hpropose⟩ := haccepts
      have hsame : newVoters = proposed := by
        rw [hpropose] at hproposed
        cases hproposed
        rfl
      rw [happly, majoritiesMeet_pending_iff] at hnext
      rw [hsame]
      exact hnext
    · exact absurd haccepts (hnone newVoters)
  · intro hoverlaps k
    induction k with
    | zero => exact majoritiesMeet_of_settled rfl
    | succ k ih =>
      rw [applyAll_take_succ]
      cases hchange : changes[k]? with
      | none => exact ih
      | some change =>
        rw [Option.map_some, Option.getD_some]
        rcases apply_cases ((new initial).applyAll (changes.take k)) change with
          ⟨newVoters, logOffset, haccepts, happly⟩ | ⟨-, hsettled | hsame⟩
        · rw [happly, majoritiesMeet_pending_iff]
          exact hoverlaps k change newVoters hchange haccepts
        · exact majoritiesMeet_of_settled hsettled
        · rw [hsame]
          exact ih

/-- Adding a voter to the committed ones overlaps them. -/
theorem overlaps_insert (committed : Finset NodeId) (voter : NodeId) :
    Overlaps committed (insert voter committed) :=
  (quorumsMeet_iff _ _ _ _).mp (majorities_meet_insert committed voter)

/-- Removing a voter from the committed ones overlaps them. -/
theorem overlaps_erase (committed : Finset NodeId) (voter : NodeId) :
    Overlaps committed (committed.erase voter) :=
  (quorumsMeet_iff _ _ _ _).mp (majorities_meet_erase committed voter)

/-- Replacing all three voters at once is accepted and leaves disjoint majorities. -/
theorem replaced_majorities_disjoint :
    let state := (new ⟨{1, 2, 3}, 0⟩).applyAll [.propose {4, 5, 6} 5]
    {1, 2} ⊆ state.committedVoters.voters ∧ {4, 5} ⊆ state.effectiveVoters.voters ∧
      state.committedVoters.quorumSize ≤ ({1, 2} : Finset NodeId).card ∧
      state.effectiveVoters.quorumSize ≤ ({4, 5} : Finset NodeId).card ∧
      ({1, 2} : Finset NodeId) ∩ {4, 5} = ∅ := by
  decide

end MembershipState

end XRaft.Membership
