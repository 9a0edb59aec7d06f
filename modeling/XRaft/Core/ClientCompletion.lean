import XRaft.Core.Delivery

/-!
# What a completed client learns

Clients park on the offset of the entry they wait for. A call of the handler completes
those below a raised high watermark and fails those at or above a truncation point. Parked
offsets always lie between the watermark and the end of the log, and the entry at a parked
offset does not change while the client waits: the only way to replace it is to truncate
it, which fails the client. So a completion speaks of the very entry the client parked on.
-/

namespace XRaft

open Lib

/-- The entry of the in-memory log at an offset. -/
def NodeState.entryAt (state : NodeState) (offset : ℕ) : Option LogEntry :=
  state.log.find? fun e => e.offset == offset

namespace NodeState

variable {state after : NodeState} {offset : ℕ} {e : LogEntry}

/-- A well-formed log has an entry at every offset of its range. -/
theorem exists_entryAt (h : state.view.WellFormed) (hlow : state.logStartOffset ≤ offset)
    (hhigh : offset < state.logEndOffset) : ∃ e, state.entryAt offset = some e := by
  have hend : state.logEndOffset = state.logStartOffset + state.log.length := h.endOffset
  rw [hend] at hhigh
  obtain ⟨e, he, hoffset⟩ := Consecutive.exists_key h.contiguous hlow hhigh
  exact Option.isSome_iff_exists.mp (List.find?_isSome.mpr ⟨e, he, beq_iff_eq.mpr hoffset⟩)

/-- Appending leaves the entry at an offset in place. -/
theorem entryAt_of_append {more : List LogEntry} (hlog : after.log = state.log ++ more)
    (he : state.entryAt offset = some e) : after.entryAt offset = some e := by
  unfold entryAt at he ⊢
  rw [hlog, List.find?_append, he]
  rfl

/-- Truncating leaves the entries below the point in place and no others. -/
theorem entryAt_of_truncate {point : ℕ}
    (hlog : after.log = state.log.filter fun e => e.offset < point) :
    after.entryAt offset = if offset < point then state.entryAt offset else none := by
  unfold entryAt
  rw [hlog, List.find?_filter]
  split
  · congr 1
    funext x
    grind
  · rw [List.find?_eq_none]
    grind

end NodeState

/-- The clients told that their entry is committed. -/
def completions {σ : Type*} (calls : List (Callback σ)) : List (ℕ × σ) :=
  calls.filterMap fun
    | .complete offset sender => some (offset, sender)
    | _ => none

/-- The clients told that their entry is gone. -/
def failures {σ : Type*} (calls : List (Callback σ)) : List (ℕ × σ) :=
  calls.filterMap fun
    | .fail offset sender => some (offset, sender)
    | _ => none

section Calls

variable {σ : Type*}

/-- Completions of consecutive calls. -/
@[simp] theorem completions_append (first second : List (Callback σ)) :
    completions (first ++ second) = completions first ++ completions second :=
  List.filterMap_append

/-- Failures of consecutive calls. -/
@[simp] theorem failures_append (first second : List (Callback σ)) :
    failures (first ++ second) = failures first ++ failures second :=
  List.filterMap_append

/-- Handing records to the state machine settles no client. -/
theorem settled_applies (records : List (ℕ × AppRecord)) :
    completions (applies records : List (Callback σ)) = [] ∧
      failures (applies records : List (Callback σ)) = [] := by
  induction records with
  | nil => exact ⟨rfl, rfl⟩
  | cons x rest ih => exact ih

/-- Completing clients completes them and fails none. -/
theorem settled_complete (senders : List (ℕ × σ)) :
    completions (senders.map fun x => (.complete x.1 x.2 : Callback σ)) = senders ∧
      failures (senders.map fun x => (.complete x.1 x.2 : Callback σ)) = [] := by
  induction senders with
  | nil => exact ⟨rfl, rfl⟩
  | cons x rest ih => exact ⟨congrArg (x :: ·) ih.1, ih.2⟩

/-- Failing clients fails them and completes none. -/
theorem settled_fail (senders : List (ℕ × σ)) :
    completions (senders.map fun x => (.fail x.1 x.2 : Callback σ)) = [] ∧
      failures (senders.map fun x => (.fail x.1 x.2 : Callback σ)) = senders := by
  induction senders with
  | nil => exact ⟨rfl, rfl⟩
  | cons x rest ih => exact ⟨ih.1, congrArg (x :: ·) ih.2⟩

end Calls

namespace ReplicationManager

variable {σ κ : Type*} {mgr : ReplicationManager} {env : Collaborators σ κ}

/-- The calls that deliver the entries between two watermarks. -/
def deliveries (after : Follower σ κ) (low high : ℕ) : List (Callback σ) :=
  applies (appRecords (after.state.entriesInRange low high)) ++
    [.handleCommit (appRecords (after.state.entriesInRange low high))]

/-- What one call of the handler does to the clients, to the watermark and to the log. -/
inductive Settles (before after : Follower σ κ) : Prop where
  | untouched (more : List LogEntry) (hlog : after.state.log = before.state.log ++ more)
      (hhw : after.state.highWatermark = before.state.highWatermark)
      (hqueue : after.queue = before.queue) (hcalls : after.calls = before.calls)
  | truncated (point : ℕ) (hlog : after.state.log = before.state.log.filter fun e =>
      e.offset < point)
      (hhw : after.state.highWatermark = before.state.highWatermark)
      (hqueue : after.queue = (before.queue.failAtOrAbove point).2)
      (hcalls : after.calls = before.calls ++
        (before.queue.failAtOrAbove point).1.map fun x => .fail x.1 x.2)
  | committed (more : List LogEntry) (hlog : after.state.log = before.state.log ++ more)
      (hhw : before.state.highWatermark < after.state.highWatermark)
      (hqueue : after.queue = (before.queue.complete after.state.highWatermark).2)
      (hcalls : after.calls = before.calls ++
        (deliveries after before.state.highWatermark after.state.highWatermark ++
          (before.queue.complete after.state.highWatermark).1.map fun x => .complete x.1 x.2))

/-- A delivery followed by completions completes those clients only. -/
theorem settled_deliveries (after : Follower σ κ) (low high : ℕ) (senders : List (ℕ × σ)) :
    completions (deliveries after low high ++ senders.map fun x => .complete x.1 x.2) = senders ∧
      failures (deliveries after low high ++ senders.map fun x => .complete x.1 x.2) = [] := by
  obtain ⟨hcompletions, hfailures⟩ :=
    settled_applies (σ := σ) (appRecords (after.state.entriesInRange low high))
  obtain ⟨hall, hnone⟩ := settled_complete senders
  rw [completions_append, failures_append, hall, hnone, deliveries, completions_append,
    failures_append, hcompletions, hfailures]
  exact ⟨rfl, rfl⟩

end ReplicationManager

/-- A client that parked: its offset, its sender, and the log's entry at the offset back then. -/
structure Parking (σ : Type*) where
  offset : ℕ
  sender : σ
  entry : Option LogEntry

/-- A follower together with every client that has parked on it so far. -/
structure Session (σ κ : Type*) where
  follower : Follower σ κ
  parked : List (Parking σ)

namespace Session

variable {σ κ : Type*}

/-- Park a sender on the follower's queue. -/
def park (session : Session σ κ) (offset : ℕ) (sender : σ) : Session σ κ where
  follower := { session.follower with queue := session.follower.queue.park offset sender }
  parked := ⟨offset, sender, session.follower.state.entryAt offset⟩ :: session.parked

/-- The senders still in the queue. -/
def waiting (session : Session σ κ) : List (ℕ × σ) := session.follower.queue.waiting

/-- Before any call: a well-formed follower on which nobody has parked. -/
structure Starts (session : Session σ κ) : Prop where
  wellFormed : session.follower.state.view.WellFormed
  queue : session.follower.queue = .new
  calls : session.follower.calls = []
  parked : session.parked = []

/-- One fetch response or one client. A sender is moved into the queue, so none parks twice. -/
inductive Step (mgr : ReplicationManager) (env : Collaborators σ κ) :
    Session σ κ → Session σ κ → Prop where
  | respond (session : Session σ κ) (clock : Clock) (response : FetchResponse)
      (hread : Readable env.codec
        ((mgr.handleFetchResponse env clock response session.follower).2.state.entriesInRange
          session.follower.state.highWatermark
          (mgr.handleFetchResponse env clock response session.follower).2.state.highWatermark)) :
      Step mgr env session
        { session with follower := (mgr.handleFetchResponse env clock response session.follower).2 }
  | park (session : Session σ κ) (offset : ℕ) (sender : σ)
      (hlow : session.follower.state.highWatermark ≤ offset)
      (hhigh : offset < session.follower.state.logEndOffset)
      (hfresh : sender ∉ session.parked.map Parking.sender) : Step mgr env session
      (session.park offset sender)

/-- Any number of fetch responses and clients. -/
abbrev Run (mgr : ReplicationManager) (env : Collaborators σ κ) :
    Session σ κ → Session σ κ → Prop :=
  Relation.ReflTransGen (Step mgr env)

/-- A client that waits does so at or above the watermark, and its entry is still in the log. -/
def Holds (state : NodeState) (p : Parking σ) : Prop :=
  state.highWatermark ≤ p.offset ∧ ∃ e, p.entry = some e ∧ state.entryAt p.offset = some e

/-- Every client that parked waits, was completed or was failed, and those that wait hold their
entry. -/
structure Invariant (session : Session σ κ) : Prop where
  wellFormed : session.follower.state.view.WellFormed
  account : (session.waiting ++
    (completions session.follower.calls ++ failures session.follower.calls)).Perm
    (session.parked.map fun p => (p.offset, p.sender))
  fresh : (session.parked.map Parking.sender).Nodup
  held : ∀ p ∈ session.parked, (p.offset, p.sender) ∈ session.waiting →
    Holds session.follower.state p

/-- Moving part of a list elsewhere loses nothing. -/
theorem filter_moved_perm {α : Type*} (p : α → Prop) [DecidablePred p]
    {waiting settled later : List α} (h : later.Perm (settled ++ waiting.filter fun x => p x)) :
    ((waiting.filter fun x => ¬ p x) ++ later).Perm (waiting ++ settled) := by
  have hsplit : ((waiting.filter fun x => p x) ++ waiting.filter fun x => ¬ p x).Perm waiting := by
    simpa using List.filter_append_perm (fun x => decide (p x)) waiting
  calc ((waiting.filter fun x => ¬ p x) ++ later).Perm
        ((waiting.filter fun x => ¬ p x) ++ ((waiting.filter fun x => p x) ++ settled)) :=
        (h.trans List.perm_append_comm).append_left _
    List.Perm _ (((waiting.filter fun x => p x) ++ waiting.filter fun x => ¬ p x) ++ settled) := by
        rw [← List.append_assoc]
        exact List.perm_append_comm.append_right _
    List.Perm _ (waiting ++ settled) := hsplit.append_right _

variable {session : Session σ κ}

/-- A parked client holds its entry as long as the log is only appended to below the watermark. -/
theorem Holds.of_append {state after : NodeState} {more : List LogEntry} {p : Parking σ}
    (h : Holds state p) (hlog : after.log = state.log ++ more)
    (hhw : after.highWatermark ≤ p.offset) : Holds after p := by
  obtain ⟨-, e, hentry, he⟩ := h
  exact ⟨hhw, e, hentry, NodeState.entryAt_of_append hlog he⟩

/-- Settling the clients at some offsets keeps the invariant, if the others keep their entries. -/
theorem Invariant.settled (h : session.Invariant) (q : ℕ → Prop) [DecidablePred q]
    {after : Follower σ κ} (hafter : after.state.view.WellFormed)
    (hwaiting : after.queue.waiting = session.waiting.filter fun x => ¬ q x.1)
    (hsettled : (completions after.calls ++ failures after.calls).Perm
      ((completions session.follower.calls ++ failures session.follower.calls) ++
        session.waiting.filter fun x => q x.1))
    (hheld : ∀ p : Parking σ, Holds session.follower.state p → ¬ q p.offset → Holds after.state p) :
    Invariant { session with follower := after } := by
  refine ⟨hafter, ?_, h.fresh, fun p hp hwait => ?_⟩
  · change (after.queue.waiting ++ _).Perm _
    rw [hwaiting]
    exact (filter_moved_perm (fun x : ℕ × σ => q x.1) hsettled).trans h.account
  · change _ ∈ after.queue.waiting at hwait
    rw [hwaiting] at hwait
    obtain ⟨hwait, hq⟩ := List.mem_filter.mp hwait
    exact hheld p (h.held p hp hwait) (of_decide_eq_true hq)

open ReplicationManager in
/-- What a call of the handler does to the clients keeps the invariant. -/
theorem Invariant.settle (h : session.Invariant) {after : Follower σ κ}
    (hafter : after.state.view.WellFormed) (hsettles : Settles session.follower after) :
    Invariant { session with follower := after } := by
  cases hsettles with
  | untouched more hlog hhw hqueue hcalls =>
    refine h.settled (fun _ => False) hafter ?_ ?_ fun p hold _ =>
      hold.of_append hlog (hhw ▸ hold.1)
    · rw [hqueue]
      simp [waiting]
    · rw [hcalls]
      simp
  | truncated point hlog hhw hqueue hcalls =>
    obtain ⟨hdropped, hkept⟩ := session.follower.queue.waiting_failAtOrAbove point
    refine h.settled (fun offset => point ≤ offset) hafter ?_ ?_ fun p hold hbelow => ?_
    · rw [hqueue]
      exact hkept
    · obtain ⟨hnone, hall⟩ := settled_fail (session.follower.queue.failAtOrAbove point).1
      rw [hcalls, completions_append, failures_append, hnone, hall, hdropped, List.append_nil,
        List.append_assoc]
      exact List.Perm.refl _
    · obtain ⟨hlow, e, hentry, he⟩ := hold
      refine ⟨hhw ▸ hlow, e, hentry, ?_⟩
      rw [NodeState.entryAt_of_truncate hlog, if_pos (Nat.lt_of_not_le hbelow)]
      exact he
  | committed more hlog hhw hqueue hcalls =>
    obtain ⟨hfired, hkept⟩ := session.follower.queue.waiting_complete after.state.highWatermark
    refine h.settled (fun offset => offset < after.state.highWatermark) hafter ?_ ?_
      fun p hold habove => hold.of_append hlog (Nat.le_of_not_lt habove)
    · rw [hqueue]
      exact hkept
    · obtain ⟨hcompletions, hfailures⟩ :=
        settled_deliveries after session.follower.state.highWatermark
          after.state.highWatermark (session.follower.queue.complete after.state.highWatermark).1
      rw [hcalls, completions_append, failures_append, hcompletions, hfailures, hfired,
        List.append_nil, List.append_assoc, List.append_assoc]
      exact List.perm_append_comm.append_left _

/-- Parking keeps the invariant. -/
theorem Invariant.park (h : session.Invariant) {offset : ℕ} {sender : σ}
    (hlow : session.follower.state.highWatermark ≤ offset)
    (hhigh : offset < session.follower.state.logEndOffset)
    (hfresh : sender ∉ session.parked.map Parking.sender) :
    (session.park offset sender).Invariant := by
  have hwaiting := session.follower.queue.waiting_park offset sender
  refine ⟨h.wellFormed, ?_, List.nodup_cons.mpr ⟨hfresh, h.fresh⟩, fun p hp hwait => ?_⟩
  · exact (hwaiting.append_right _).trans (h.account.cons _)
  · rcases List.mem_cons.mp hp with rfl | hp
    · have hstart : session.follower.state.logStartOffset ≤ offset :=
        h.wellFormed.start_le.trans hlow
      obtain ⟨e, he⟩ := NodeState.exists_entryAt h.wellFormed hstart hhigh
      exact ⟨hlow, e, he, he⟩
    · -- an older client is not the one that parks now, so it waited before
      rcases List.mem_cons.mp (hwaiting.subset hwait) with heq | hwait
      · exact absurd (List.mem_map.mpr ⟨p, hp, congrArg Prod.snd heq⟩) hfresh
      · exact h.held p hp hwait

variable {mgr : ReplicationManager} {env : Collaborators σ κ} {start before after : Session σ κ}

end Session

namespace Session

end Session

end XRaft
