import XRaft.Core.Replication
import XRaft.Lib.Consecutive
import Mathlib.Logic.Relation
import Mathlib.Order.Lattice

/-!
# What replication may do to a follower

The abstract follower is a log on a range of offsets with a high watermark, a term, a
vote and a leader. It has five moves: follow the leader of a higher term, learn the
leader of its own term, drop an uncommitted suffix, append entries that continue the
log, and raise the high watermark within the log. Every move keeps the log well formed
and only makes progress; the handler of fetch responses is shown elsewhere to be made of
these moves.
-/

namespace XRaft

open Lib

/-- The part of the node state that replication is about. -/
structure FollowerView where
  logStartOffset : ℕ
  log : List LogEntry
  logEndOffset : ℕ
  highWatermark : ℕ
  currentTerm : ℕ
  votedFor : Option NodeId
  leaderId : Option NodeId
  role : Role

/-- The replication view of a node state. -/
def NodeState.view (state : NodeState) : FollowerView where
  logStartOffset := state.logStartOffset
  log := state.log
  logEndOffset := state.logEndOffset
  highWatermark := state.highWatermark
  currentTerm := state.currentTerm
  votedFor := state.votedFor
  leaderId := state.leaderId
  role := state.role

namespace FollowerView

/-- The entries with offsets from `low` up to, not including, `high`. -/
def entriesInRange (view : FollowerView) (low high : ℕ) : List LogEntry :=
  view.log.filter fun e => low ≤ e.offset ∧ e.offset < high

/-- Follow the leader of a new term, as a follower without a vote. -/
def follow (view : FollowerView) (term : ℕ) (leader : NodeId) : FollowerView :=
  { view with currentTerm := term, votedFor := none, leaderId := some leader, role := .follower }

/-- Learn the leader of the current term. -/
def discover (view : FollowerView) (leader : NodeId) : FollowerView :=
  { view with leaderId := some leader }

/-- Drop the entries from an offset on. -/
def truncate (view : FollowerView) (point : ℕ) : FollowerView :=
  { view with log := view.log.filter (fun e => e.offset < point), logEndOffset := point }

/-- Append entries. -/
def extend (view : FollowerView) (entries : List LogEntry) : FollowerView :=
  { view with log := view.log ++ entries, logEndOffset := view.logEndOffset + entries.length }

/-- Set the high watermark. -/
def commit (view : FollowerView) (highWatermark : ℕ) : FollowerView :=
  { view with highWatermark := highWatermark }

/-- The log covers its range without gaps and the high watermark lies in the range. -/
structure WellFormed (view : FollowerView) : Prop where
  contiguous : Consecutive LogEntry.offset view.logStartOffset view.log
  endOffset : view.logEndOffset = view.logStartOffset + view.log.length
  start_le : view.logStartOffset ≤ view.highWatermark
  le_end : view.highWatermark ≤ view.logEndOffset

/-- What never goes back: watermark, term, committed entries, the vote and the leader of a term. -/
structure Progress (before after : FollowerView) : Prop where
  start : after.logStartOffset = before.logStartOffset
  highWatermark : before.highWatermark ≤ after.highWatermark
  term : before.currentTerm ≤ after.currentTerm
  committed : ∀ low high, high ≤ before.highWatermark →
    after.entriesInRange low high = before.entriesInRange low high
  vote : after.votedFor ≠ before.votedFor → before.currentTerm < after.currentTerm
  leader : after.currentTerm = before.currentTerm →
    ∀ leader, before.leaderId = some leader → after.leaderId = some leader

/-- The moves of a follower. -/
inductive Move : FollowerView → FollowerView → Prop where
  | follow (view : FollowerView) (term : ℕ) (leader : NodeId) (hterm : view.currentTerm < term) :
      Move view (view.follow term leader)
  | discover (view : FollowerView) (leader : NodeId) (hnone : view.leaderId = none) :
      Move view (view.discover leader)
  | truncate (view : FollowerView) (point : ℕ) (hlow : view.highWatermark ≤ point)
      (hhigh : point ≤ view.logEndOffset) : Move view (view.truncate point)
  | extend (view : FollowerView) (entries : List LogEntry)
      (hentries : Consecutive LogEntry.offset view.logEndOffset entries) :
      Move view (view.extend entries)
  | commit (view : FollowerView) (highWatermark : ℕ) (hlow : view.highWatermark ≤ highWatermark)
      (hhigh : highWatermark ≤ view.logEndOffset) : Move view (view.commit highWatermark)

/-- Finitely many moves. -/
abbrev Moves : FollowerView → FollowerView → Prop := Relation.ReflTransGen Move

variable {view after later : FollowerView}

/-- Nothing changes. -/
theorem Progress.refl (view : FollowerView) : Progress view view where
  start := rfl
  highWatermark := le_rfl
  term := le_rfl
  committed _ _ _ := rfl
  vote h := absurd rfl h
  leader _ _ h := h

/-- Progress adds up. -/
theorem Progress.trans (h : Progress view after) (h' : Progress after later) :
    Progress view later where
  start := h'.start.trans h.start
  highWatermark := h.highWatermark.trans h'.highWatermark
  term := h.term.trans h'.term
  committed low high hhigh :=
    (h'.committed low high (hhigh.trans h.highWatermark)).trans (h.committed low high hhigh)
  vote hvote := by
    have hterm := h.term
    have hterm' := h'.term
    by_cases hfirst : after.votedFor = view.votedFor
    · have := h'.vote (hfirst ▸ hvote)
      omega
    · have := h.vote hfirst
      omega
  leader hterm leader hleader := by
    have hterm₁ := h.term
    have hterm₂ := h'.term
    exact h'.leader (by omega) leader (h.leader (by omega) leader hleader)

/-- In a well-formed log, dropping a suffix is taking a prefix. -/
theorem WellFormed.log_truncate (h : WellFormed view) (point : ℕ) :
    (view.truncate point).log = view.log.take (point - view.logStartOffset) :=
  h.contiguous.filter_lt point

/-- A well-formed log from offset zero ends at its length. -/
theorem WellFormed.logEndOffset_eq (h : WellFormed view) (hstart : view.logStartOffset = 0) :
    view.logEndOffset = view.log.length := by
  rw [h.endOffset, hstart, Nat.zero_add]

/-- The high watermark of a well-formed log from offset zero is within its length. -/
theorem WellFormed.highWatermark_le (h : WellFormed view) (hstart : view.logStartOffset = 0) :
    view.highWatermark ≤ view.log.length :=
  h.le_end.trans (h.logEndOffset_eq hstart).le

/-- Every move keeps the log well formed. -/
theorem Move.wellFormed (hmove : Move view after) (h : WellFormed view) : WellFormed after := by
  have hend := h.endOffset
  have hstart := h.start_le
  have hle := h.le_end
  cases hmove with
  | follow term leader => exact ⟨h.contiguous, h.endOffset, h.start_le, h.le_end⟩
  | discover leader => exact ⟨h.contiguous, h.endOffset, h.start_le, h.le_end⟩
  | truncate point hlow hhigh =>
    have hlog := h.log_truncate point
    refine ⟨?_, ?_, h.start_le, hlow⟩
    · rw [hlog]
      exact h.contiguous.take _
    · rw [hlog, List.length_take]
      change point = view.logStartOffset + _
      omega
  | extend entries hentries =>
    refine ⟨?_, ?_, h.start_le, ?_⟩
    · rw [hend] at hentries
      exact (consecutive_append _ _ _).mpr ⟨h.contiguous, hentries⟩
    · change view.logEndOffset + entries.length = view.logStartOffset + (view.log ++ entries).length
      rw [List.length_append]
      omega
    · change view.highWatermark ≤ view.logEndOffset + entries.length
      omega
  | commit highWatermark hlow hhigh => exact ⟨h.contiguous, h.endOffset, hstart.trans hlow, hhigh⟩

/-- Dropping a suffix above a range leaves the range alone. -/
theorem entriesInRange_truncate (view : FollowerView) {point low high : ℕ} (h : high ≤ point) :
    (view.truncate point).entriesInRange low high = view.entriesInRange low high := by
  unfold entriesInRange truncate
  rw [List.filter_filter]
  refine List.filter_congr fun e _ => ?_
  rw [← Bool.decide_and, decide_eq_decide]
  omega

/-- Appending entries above a range leaves the range alone. -/
theorem entriesInRange_extend (view : FollowerView) {entries : List LogEntry} {low high : ℕ}
    (hentries : Consecutive LogEntry.offset view.logEndOffset entries)
    (h : high ≤ view.logEndOffset) :
    (view.extend entries).entriesInRange low high = view.entriesInRange low high := by
  have hnone : entries.filter (fun e => low ≤ e.offset ∧ e.offset < high) = [] := by
    refine List.filter_eq_nil_iff.mpr fun e he => ?_
    have hbounds := hentries.key_bounds he
    rw [decide_eq_true_eq]
    omega
  unfold entriesInRange extend
  rw [List.filter_append, hnone, List.append_nil]

/-- Every move of a well-formed follower is progress. -/
theorem Move.progress (hmove : Move view after) (h : WellFormed view) : Progress view after := by
  cases hmove with
  | follow term leader hterm =>
    refine ⟨rfl, le_rfl, hterm.le, fun _ _ _ => rfl, fun _ => hterm, fun heq => ?_⟩
    exact absurd heq (ne_of_gt hterm)
  | discover leader hnone =>
    refine ⟨rfl, le_rfl, le_rfl, fun _ _ _ => rfl, fun hvote => absurd rfl hvote,
      fun _ known hknown => ?_⟩
    rw [hnone] at hknown
    cases hknown
  | truncate point hlow hhigh =>
    exact ⟨rfl, le_rfl, le_rfl, fun low high hhw => view.entriesInRange_truncate (hhw.trans hlow),
      fun hvote => absurd rfl hvote, fun _ _ hleader => hleader⟩
  | extend entries hentries =>
    exact ⟨rfl, le_rfl, le_rfl,
      fun low high hhw => view.entriesInRange_extend hentries (hhw.trans h.le_end),
      fun hvote => absurd rfl hvote, fun _ _ hleader => hleader⟩
  | commit highWatermark hlow hhigh =>
    exact ⟨rfl, hlow, le_rfl, fun _ _ _ => rfl, fun hvote => absurd rfl hvote,
      fun _ _ hleader => hleader⟩

/-- Any number of moves keeps the log well formed and makes progress. -/
theorem Moves.wellFormed_progress (hmoves : Moves view after) (h : WellFormed view) :
    WellFormed after ∧ Progress view after := by
  induction hmoves with
  | refl => exact ⟨h, Progress.refl view⟩
  | tail _ hmove ih => exact ⟨hmove.wellFormed ih.1, ih.2.trans (hmove.progress ih.1)⟩

end FollowerView

end XRaft
