import XRaft.Core.Delivery
import XRaft.Lib.Firings

/-!
# The follower's loop in `replication.rs`

A follower is driven by ticks and by messages, in any order. A tick sends a fetch request
when the fetch deadline has passed; every response that is not refused puts the deadline
off. Ticks therefore send no two requests within one fetch interval, and a follower that
knows its leader is never silent for longer.

The default coordinator starts a snapshot transfer once and is in progress from then on.
The state machine is handed committed commands in the order of the log. A call that fails
leaves out what is behind the failure, and no later call goes back to it.
-/

namespace XRaft

open Lib

namespace ReplicationManager

/-- The manager of a node with the given configuration. -/
def new (config : RaftConfig) : ReplicationManager := ⟨config.maxFetchBytes, config.fetchIntervalMs⟩

/-- The time until the next fetch deadline, zero if it has passed. -/
def timeUntilFetch (state : NodeState) (now : ℕ) : ℕ :=
  if now ≥ state.fetchDeadline then 0 else state.fetchDeadline - now

/-- The tick of the follower's node: a fetch request if one is due. -/
def tick (mgr : ReplicationManager) (clock : Clock) (state : NodeState) :
    IoActionBatch × NodeState :=
  let (batch, state) := mgr.pollFetch state clock.now
  (batch.getD {}, state)

/-- The deadline the node's loop sleeps until. -/
def nextFetchDeadline (state : NodeState) : ℕ := state.fetchDeadline

end ReplicationManager

/-- Drives the periodic fetches of a follower. -/
structure FollowerEventLoop where
  replication : ReplicationManager

namespace FollowerEventLoop

variable {σ κ : Type*}

/-- The loop of a node with the given configuration. -/
def new (config : RaftConfig) : FollowerEventLoop := ⟨.new config⟩

/-- A tick of the loop. -/
def runTick (loop : FollowerEventLoop) (clock : Clock) (state : NodeState) :
    IoActionBatch × NodeState :=
  loop.replication.tick clock state

/-- How long the loop may sleep before its next tick. -/
def timeUntilNextTick (_ : FollowerEventLoop) (clock : Clock) (state : NodeState) : ℕ :=
  ReplicationManager.timeUntilFetch state clock.now

/-- A response handled by the loop. -/
def handleResponse (loop : FollowerEventLoop) (env : Collaborators σ κ) (clock : Clock)
    (response : FetchResponse) (f : Follower σ κ) :
    Except XraftError FetchResponseResult × Follower σ κ :=
  loop.replication.handleFetchResponse env clock response f

/-- What drives a follower: a tick, an envelope, or a response that was already taken out of its
envelope. -/
inductive Event where
  | tick (clock : Clock)
  | message (clock : Clock) (envelope : RpcEnvelope)
  | response (clock : Clock) (response : FetchResponse)

/-- The clock an event reads. -/
def Event.clock : Event → Clock
  | .tick clock => clock
  | .message clock _ => clock
  | .response clock _ => clock

variable (loop : FollowerEventLoop) (env : Collaborators σ κ)

/-- What the follower answers to an event, and the follower afterwards. -/
def react (f : Follower σ κ) : Event → Except XraftError FetchResponseResult × Follower σ κ
  | .tick clock =>
    let (batch, state) := loop.runTick clock f.state
    (.ok ⟨batch, false⟩, f.update state)
  | .message clock envelope => loop.replication.handleMessage env clock envelope f
  | .response clock response => loop.handleResponse env clock response f

/-- The follower after an event. -/
def step (f : Follower σ κ) (event : Event) : Follower σ κ := (loop.react env f event).2

/-- The follower after a run. -/
def run (f : Follower σ κ) (events : List Event) : Follower σ κ := events.foldl (loop.step env) f

/-- The answers along a run. -/
def results : Follower σ κ → List Event → List (Except XraftError FetchResponseResult)
  | _, [] => []
  | f, event :: rest => (loop.react env f event).1 :: results (loop.step env f event) rest

/-- The actions an answer hands to the I/O stage. -/
def actions : Except XraftError FetchResponseResult → List IoAction
  | .ok result => result.ioBatch.actions
  | .error _ => []

/-- Whether the event is a tick that sends a request. -/
def sends (f : Follower σ κ) : Event → Bool
  | .tick clock => !(loop.runTick clock f.state).1.actions.isEmpty
  | _ => false

/-- What an event does to the follower: a tick, a call of the handler, or nothing. -/
inductive Stepped (f : Follower σ κ) :
    Event → Except XraftError FetchResponseResult × Follower σ κ → Prop where
  | tick (clock : Clock) : Stepped f (.tick clock)
      (.ok ⟨(loop.runTick clock f.state).1, false⟩, f.update (loop.runTick clock f.state).2)
  | handled (event : Event) (response : FetchResponse) :
      Stepped f event (loop.replication.handleFetchResponse env event.clock response f)
  | ignored (event : Event) (e : XraftError) : Stepped f event (.error e, f)

/-- Every event does one of these. -/
theorem react_stepped (f : Follower σ κ) (event : Event) :
    Stepped loop env f event (loop.react env f event) := by
  cases event with
  | tick clock => exact .tick clock
  | response clock response => exact .handled (.response clock response) response
  | message clock envelope =>
    change Stepped loop env f _ (loop.replication.handleMessage env clock envelope f)
    unfold ReplicationManager.handleMessage
    split
    · exact .ignored _ _
    · split
      · dsimp only
        split
        · exact .ignored _ _
        · rename_i response _ _
          exact .handled (.message clock envelope) response
      · exact .ignored _ _

end FollowerEventLoop

namespace ReplicationManager

variable {σ κ : Type*} (mgr : ReplicationManager) (env : Collaborators σ κ)

/-- A tick that is due puts the deadline off and sends what there is to send. -/
theorem tick_of_due {clock : Clock} {state : NodeState} (hdue : state.fetchDeadline ≤ clock.now)
    (hrole : state.role = .follower) :
    mgr.tick clock state =
      (⟨mgr.fetchActions { state with fetchDeadline := clock.now + mgr.fetchInterval }⟩,
      { state with fetchDeadline := clock.now + mgr.fetchInterval }) := by
  rw [tick, pollFetch, if_pos ⟨hdue, hrole⟩]
  rfl

/-- Any other tick does nothing. -/
theorem tick_of_not_due {clock : Clock} {state : NodeState}
    (h : ¬ (clock.now ≥ state.fetchDeadline ∧ state.role = .follower)) :
    mgr.tick clock state = ({}, state) := by
  rw [tick, pollFetch, if_neg h]
  rfl

/-- A tick leaves the replication view alone. -/
theorem view_tick (clock : Clock) (state : NodeState) :
    (mgr.tick clock state).2.view = state.view := by
  by_cases hdue : clock.now ≥ state.fetchDeadline ∧ state.role = .follower
  · rw [mgr.tick_of_due hdue.1 hdue.2]
    rfl
  · rw [mgr.tick_of_not_due hdue]

/-- The commit notification leaves the fetch deadline alone. -/
theorem fetchDeadline_executeCommitNotification (oldHw newHw : ℕ) (f : Follower σ κ) :
    (executeCommitNotification env oldHw newHw f).2.state.fetchDeadline =
      f.state.fetchDeadline := by
  obtain ⟨voters, pending, epochs, hstate⟩ :=
    state_applyCommitted env (f.state.entriesInRange oldHw newHw) f
  have hdeadline :
      (applyCommitted env (f.state.entriesInRange oldHw newHw) f).2.state.fetchDeadline =
      f.state.fetchDeadline := by rw [hstate]
  unfold executeCommitNotification
  dsimp only
  split <;> rename_i happly <;> rw [happly] at hdeadline <;> exact hdeadline

/-- The normal branch leaves the fetch deadline alone. -/
theorem fetchDeadline_handleEntries (response : FetchResponse) (deferred : Option QuorumState)
    (f : Follower σ κ) :
    (handleEntries env response deferred f).2.state.fetchDeadline = f.state.fetchDeadline := by
  cases hcheck : checkEntries f.state response.entries with
  | some e => rw [handleEntries_of_refused env response hcheck]
  | none =>
    rw [handleEntries_of_checked env response hcheck]
    have hadvances := advanceHighWatermark_advances env response.highWatermark
      (f.update (f.state.appendEntries response.entries))
    generalize advanceHighWatermark env response.highWatermark
      (f.update (f.state.appendEntries response.entries)) = outcome at hadvances ⊢
    cases hadvances with
    | kept => rfl
    | raised newHw _ _ _ houtcome =>
      rw [← houtcome, fetchDeadline_executeCommitNotification]
      rfl

/-- A response is refused and leaves the fetch deadline alone, or puts it off by one interval. -/
theorem fetchDeadline_handleFetchResponse (clock : Clock) (response : FetchResponse)
    (f : Follower σ κ) :
    (mgr.handleFetchResponse env clock response f).2.state.fetchDeadline = f.state.fetchDeadline ∨
      (mgr.handleFetchResponse env clock response f).2.state.fetchDeadline =
        clock.now + mgr.fetchInterval := by
  have hvalid := validateAndUpdateTerm_validated response f.state
  have hroute := handleFetchResponse_route mgr env clock response f
  generalize mgr.handleFetchResponse env clock response f = outcome at hroute ⊢
  cases hroute with
  | refused e =>
    left
    change (validateAndUpdateTerm f.state response).2.fetchDeadline = _
    generalize validateAndUpdateTerm f.state response = validated at hvalid ⊢
    cases hvalid <;> rfl
  | snapshot deferred state _ snapshotId =>
    right
    rw [state_handleSnapshot]
    rfl
  | divergence deferred state _ diverging _ =>
    right
    unfold handleDivergence
    dsimp only
    split <;> rfl
  | entries deferred state _ _ =>
    right
    rw [fetchDeadline_handleEntries]
    rfl

end ReplicationManager

namespace FollowerEventLoop

open ReplicationManager

variable {σ κ : Type*} (loop : FollowerEventLoop) (env : Collaborators σ κ)

/-- The deadline stays or is put off by one interval from the event's time. -/
theorem fetchDeadline_step (f : Follower σ κ) (event : Event) :
    (loop.step env f event).state.fetchDeadline = f.state.fetchDeadline ∨
      (loop.step env f event).state.fetchDeadline = event.clock.now +
        loop.replication.fetchInterval := by
  have hstepped := loop.react_stepped env f event
  unfold step
  generalize loop.react env f event = outcome at hstepped ⊢
  cases hstepped with
  | tick clock =>
    change (loop.replication.tick clock f.state).2.fetchDeadline = _ ∨
      (loop.replication.tick clock f.state).2.fetchDeadline = _
    by_cases hdue : clock.now ≥ f.state.fetchDeadline ∧ f.state.role = .follower
    · rw [loop.replication.tick_of_due hdue.1 hdue.2]
      exact Or.inr rfl
    · rw [loop.replication.tick_of_not_due hdue]
      exact Or.inl rfl
  | handled _ response =>
    exact loop.replication.fetchDeadline_handleFetchResponse env event.clock response f
  | ignored _ e => exact Or.inl rfl

/-- A tick sends only when the deadline has passed, and puts it off. -/
theorem deadline_of_sends {f : Follower σ κ} {event : Event} (h : loop.sends f event = true) :
    f.state.fetchDeadline ≤ event.clock.now ∧
      (loop.step env f event).state.fetchDeadline = event.clock.now +
        loop.replication.fetchInterval := by
  cases event with
  | message clock envelope => cases h
  | response clock response => cases h
  | tick clock =>
    by_cases hdue : clock.now ≥ f.state.fetchDeadline ∧ f.state.role = .follower
    · refine ⟨hdue.1, ?_⟩
      change (loop.replication.tick clock f.state).2.fetchDeadline = _
      rw [loop.replication.tick_of_due hdue.1 hdue.2]
      rfl
    · rw [sends, runTick, loop.replication.tick_of_not_due hdue] at h
      cases h

/-- The deadline after a run is the first one, or one interval after an event of the run. -/
theorem fetchDeadline_run (f : Follower σ κ) (events : List Event) :
    (loop.run env f events).state.fetchDeadline = f.state.fetchDeadline ∨ ∃ event ∈ events,
      (loop.run env f events).state.fetchDeadline = event.clock.now +
        loop.replication.fetchInterval := by
  induction events generalizing f with
  | nil => exact Or.inl rfl
  | cons event rest ih =>
    change (loop.run env (loop.step env f event) rest).state.fetchDeadline = _ ∨ _
    rcases ih (loop.step env f event) with hfirst | ⟨later, hlater, hrun⟩
    · rcases loop.fetchDeadline_step env f event with hkept | hput
      · exact Or.inl (hfirst.trans hkept)
      · exact Or.inr ⟨event, List.mem_cons_self, hfirst.trans hput⟩
    · exact Or.inr ⟨later, List.mem_cons_of_mem event hlater, hrun⟩

/-- The times at which the ticks of a run send a fetch request. -/
def fetchTimes (f : Follower σ κ) (events : List Event) : List ℕ :=
  (firings (loop.step env) loop.sends f events).map fun firing => firing.2.clock.now

/-- The time to sleep reaches to the deadline. -/
theorem le_timeUntilNextTick (clock : Clock) (state : NodeState) :
    state.fetchDeadline ≤ clock.now + loop.timeUntilNextTick clock state := by
  unfold timeUntilNextTick timeUntilFetch
  split <;> omega

/-- The time to sleep is within a bound of the deadline. -/
theorem timeUntilNextTick_le {clock : Clock} {state : NodeState} {bound : ℕ}
    (h : state.fetchDeadline ≤ clock.now + bound) : loop.timeUntilNextTick clock state ≤ bound := by
  unfold timeUntilNextTick timeUntilFetch
  split <;> omega

/-- Ticks send no two requests within one interval. After any run the loop sleeps one interval at
most, and a follower that knows its leader sends a request as it wakes up. -/
theorem fetches_paced (f : Follower σ κ) (events : List Event)
    (horder : events.Pairwise fun first second => first.clock.now ≤ second.clock.now) :
    ((loop.fetchTimes env f events).Pairwise
      fun first second => first + loop.replication.fetchInterval ≤ second) ∧
    ∀ clock, (∀ event ∈ events, event.clock.now ≤ clock.now) →
      f.state.fetchDeadline ≤ clock.now + loop.replication.fetchInterval →
      loop.timeUntilNextTick clock (loop.run env f events).state ≤ loop.replication.fetchInterval ∧
      ∀ later leader,
        clock.now + loop.timeUntilNextTick clock (loop.run env f events).state ≤ later.now →
        (loop.run env f events).state.role = .follower →
        (loop.run env f events).state.leaderId = some leader →
        (loop.runTick later (loop.run env f events).state).1.actions =
          [.sendRpc leader ⟨(loop.run env f events).state.clusterId,
            (loop.run env f events).state.currentTerm, (loop.run env f events).state.nodeId,
              .fetchRequest ⟨(loop.run env f events).state.nodeId,
              (loop.run env f events).state.logEndOffset,
              (loop.run env f events).state.lastEntryTerm, loop.replication.maxFetchBytes⟩⟩] := by
  constructor
  · rw [fetchTimes, List.pairwise_map]
    -- a tick that sends leaves a deadline behind that no later event undercuts
    refine pairwise_firings (fun _ => True)
      (fun first g => first.2.clock.now + loop.replication.fetchInterval ≤ g.state.fetchDeadline)
      ?_ ?_ ?_ f (fun _ _ => trivial) horder
    · intro g event _ hsends
      exact (loop.deadline_of_sends env hsends).2.ge
    · intro first g event hleft hlater _
      rcases loop.fetchDeadline_step env g event with hkept | hput
      · rw [hkept]
        exact hleft
      · rw [hput]
        exact Nat.add_le_add_right hlater _
    · intro first second hleft _ hsends
      exact hleft.trans (loop.deadline_of_sends env hsends).1
  · intro clock hevents hfirst
    have hdeadline : (loop.run env f events).state.fetchDeadline ≤
        clock.now + loop.replication.fetchInterval := by
      rcases loop.fetchDeadline_run env f events with hkept | ⟨event, hevent, hput⟩
      · exact hkept.trans_le hfirst
      · exact hput.trans_le (Nat.add_le_add_right (hevents event hevent) _)
    refine ⟨loop.timeUntilNextTick_le hdeadline, fun later leader hlater hrole hleader => ?_⟩
    rw [runTick,
      loop.replication.tick_of_due ((loop.le_timeUntilNextTick clock _).trans hlater) hrole]
    simp [fetchActions, buildFetchRequest, hleader, hrole, NodeState.lastEntryTerm]

/-- Two ticks within the interval, a refused response and a late tick. -/
def refusedRun : List Event :=
  [.tick ⟨10, 150⟩, .tick ⟨59, 150⟩, .response ⟨60, 150⟩ ⟨3, 0, 0, 0, [], none, none⟩,
    .tick ⟨70, 150⟩]

/-- A follower that fetches every 50 milliseconds sends at the first and at the last tick. -/
theorem fetches_paced_refused :
    (⟨⟨1024, 50⟩⟩ : FollowerEventLoop).fetchTimes acceptingEnv (followerOf 1 1 0 []) refusedRun =
      [10, 70] ∧
      [10, 70].Pairwise fun first second => first + 50 ≤ second := by
  have htimes : (⟨⟨1024, 50⟩⟩ : FollowerEventLoop).fetchTimes acceptingEnv
      (followerOf 1 1 0 []) refusedRun = [10, 70] := by
    decide +kernel
  have hpaced := fetches_paced ⟨⟨1024, 50⟩⟩ acceptingEnv (followerOf 1 1 0 []) refusedRun
    (by simp [refusedRun, Event.clock])
  rw [htimes] at hpaced
  exact ⟨htimes, hpaced.1⟩

/-- Whether an action asks the leader for a snapshot. -/
def requestsSnapshot : IoAction → Bool
  | .sendRpc _ ⟨_, _, _, .fetchSnapshotRequest _⟩ => true
  | _ => false

/-- How many snapshot requests an answer hands to the I/O stage. -/
def snapshotRequests (result : Except XraftError FetchResponseResult) : ℕ :=
  (actions result).countP requestsSnapshot

/-- Whether an answer says that a transfer was initiated. -/
def initiates : Except XraftError FetchResponseResult → Bool
  | .ok result => result.snapshotTransferInitiated
  | .error _ => false

/-- Persisting a quorum state asks for no snapshot. -/
theorem countP_persistActions (deferred : Option QuorumState) :
    (persistActions deferred).countP requestsSnapshot = 0 := by
  cases deferred <;> rfl

/-- A fetch request asks for no snapshot. -/
theorem countP_fetchActions (mgr : ReplicationManager) (state : NodeState) :
    (mgr.fetchActions state).countP requestsSnapshot = 0 := by
  unfold fetchActions buildFetchRequest
  cases state.leaderId with
  | none => rfl
  | some leader =>
    dsimp only
    by_cases hrole : state.role = .follower <;> simp [hrole, requestsSnapshot]

/-- Applying committed entries does not touch the coordinator. -/
theorem coordinator_applyCommitted (entries : List LogEntry) (f : Follower σ κ) :
    (applyCommitted env entries f).2.coordinator = f.coordinator := by
  induction entries generalizing f with
  | nil => rfl
  | cons e rest ih =>
    rw [applyCommitted]
    cases e.entryType with
    | command =>
      dsimp only
      cases env.applyError f.calls e.offset e.asAppRecord with
      | some reason => rfl
      | none => exact ih _
    | leaderChangeMessage => exact ih _
    | votersRecord =>
      dsimp only
      cases env.codec.deserialize e.payload with
      | error reason => rfl
      | ok record => exact ih _

/-- Neither does the commit notification. -/
theorem coordinator_executeCommitNotification (oldHw newHw : ℕ) (f : Follower σ κ) :
    (executeCommitNotification env oldHw newHw f).2.coordinator = f.coordinator := by
  have hkept := coordinator_applyCommitted env (f.state.entriesInRange oldHw newHw) f
  unfold executeCommitNotification
  dsimp only
  split <;> rename_i happly <;> rw [happly] at hkept <;> exact hkept

/-- Nor does raising the high watermark. -/
theorem coordinator_advanceHighWatermark (leaderHw : ℕ) (f : Follower σ κ) :
    (advanceHighWatermark env leaderHw f).2.coordinator = f.coordinator := by
  unfold advanceHighWatermark
  dsimp only
  split
  · exact coordinator_executeCommitNotification env _ _ _
  · rfl

/-- An answer asks for a snapshot exactly if it says so and the coordinator was not in progress
and is now. -/
structure Accounted (before : Bool)
    (outcome : Except XraftError FetchResponseResult × Follower σ Bool) : Prop where
  coordinator : snapshotRequests outcome.1 + before.toNat = outcome.2.coordinator.toNat
  initiated : (initiates outcome.1).toNat = snapshotRequests outcome.1

/-- An answer that asks for nothing and leaves the coordinator alone. -/
theorem Accounted.of_kept {f : Follower σ Bool}
    {outcome : Except XraftError FetchResponseResult × Follower σ Bool}
    (hrequests : snapshotRequests outcome.1 = 0) (hinitiates : initiates outcome.1 = false)
    (hkept : outcome.2.coordinator = f.coordinator) : Accounted f.coordinator outcome where
  coordinator := by rw [hrequests, hkept, Nat.zero_add]
  initiated := by rw [hrequests, hinitiates, Bool.toNat_false]

section DefaultCoordinator

variable {env : Collaborators σ Bool} {maxFetchBytes : ℕ}

/-- The snapshot branch asks once if no transfer is in progress, and never otherwise. -/
theorem accounted_handleSnapshot (henv : env.snapshots = .default maxFetchBytes)
    (response : FetchResponse) (snapshotId : SnapshotId) (deferred : Option QuorumState)
    (f : Follower σ Bool) :
    Accounted f.coordinator (handleSnapshot env response snapshotId deferred f) := by
  have hpersist := countP_persistActions deferred
  unfold handleSnapshot
  rw [henv]
  split
  · exact .of_kept hpersist rfl rfl
  · rename_i hidle
    have hcoordinator : f.coordinator = false := by simpa [SnapshotCoordinator.default] using hidle
    constructor <;>
      simp [snapshotRequests, actions, initiates, SnapshotCoordinator.default, List.countP_cons,
        requestsSnapshot, hpersist, hcoordinator]

/-- The divergence branch asks for no snapshot. -/
theorem accounted_handleDivergence (mgr : ReplicationManager) (diverging : DivergingEpoch)
    (deferred : Option QuorumState) (f : Follower σ Bool) :
    Accounted f.coordinator (mgr.handleDivergence diverging deferred f) := by
  unfold handleDivergence
  dsimp only
  split
  · exact .of_kept rfl rfl rfl
  · refine .of_kept ?_ rfl rfl
    simp [snapshotRequests, actions, requestsSnapshot, countP_fetchActions, countP_persistActions]

/-- The normal branch asks for no snapshot. -/
theorem accounted_handleEntries (response : FetchResponse) (deferred : Option QuorumState)
    (f : Follower σ Bool) : Accounted f.coordinator (handleEntries env response deferred f) := by
  have hkept := coordinator_advanceHighWatermark env response.highWatermark
    (f.update (f.state.appendEntries response.entries))
  unfold handleEntries
  split
  · exact .of_kept rfl rfl rfl
  · split <;> rename_i hadvanced <;> rw [hadvanced] at hkept
    · exact .of_kept rfl rfl hkept
    · refine .of_kept ?_ rfl hkept
      simp only [snapshotRequests, actions, List.countP_append, countP_persistActions]
      split <;> rfl

/-- Every event is accounted for. -/
theorem accounted_react (loop : FollowerEventLoop) (henv : env.snapshots = .default maxFetchBytes)
    (f : Follower σ Bool) (event : Event) : Accounted f.coordinator (loop.react env f event) := by
  have hstepped := loop.react_stepped env f event
  generalize loop.react env f event = outcome at hstepped ⊢
  cases hstepped with
  | ignored _ e => exact .of_kept rfl rfl rfl
  | tick clock =>
    refine .of_kept ?_ rfl rfl
    change (loop.replication.tick clock f.state).1.actions.countP requestsSnapshot = 0
    by_cases hdue : clock.now ≥ f.state.fetchDeadline ∧ f.state.role = .follower
    · rw [loop.replication.tick_of_due hdue.1 hdue.2]
      exact countP_fetchActions _ _
    · rw [loop.replication.tick_of_not_due hdue]
      rfl
  | handled _ response =>
    have hroute := handleFetchResponse_route loop.replication env event.clock response f
    generalize loop.replication.handleFetchResponse env event.clock response f = outcome at hroute ⊢
    cases hroute with
    | refused e => exact .of_kept rfl rfl rfl
    | snapshot deferred state _ snapshotId =>
      exact accounted_handleSnapshot henv response snapshotId deferred
        (f.update (loop.replication.resetTimers state event.clock))
    | divergence deferred state _ diverging _ =>
      exact accounted_handleDivergence loop.replication diverging deferred
        (f.update (loop.replication.resetTimers state event.clock))
    | entries deferred state _ _ =>
      exact accounted_handleEntries response deferred
        (f.update (loop.replication.resetTimers state event.clock))

/-- Over a run of any events the default coordinator asks for one snapshot at most, when it comes
into progress. -/
theorem snapshot_requested_once (loop : FollowerEventLoop)
    (henv : env.snapshots = .default maxFetchBytes) (f : Follower σ Bool) (events : List Event) :
    ((loop.results env f events).flatMap actions).countP requestsSnapshot + f.coordinator.toNat =
        (loop.run env f events).coordinator.toNat ∧
      ((loop.results env f events).flatMap actions).countP requestsSnapshot ≤ 1 ∧
      (loop.results env f events).countP initiates =
        ((loop.results env f events).flatMap actions).countP requestsSnapshot := by
  induction events generalizing f with
  | nil => exact ⟨Nat.zero_add _, Nat.zero_le 1, rfl⟩
  | cons event rest ih =>
    obtain ⟨hcoordinator, hinitiated⟩ := accounted_react loop henv f event
    obtain ⟨hrun, -, hcount⟩ := ih (loop.step env f event)
    have htotal : snapshotRequests (loop.react env f event).1 +
        ((loop.results env (loop.step env f event) rest).flatMap actions).countP requestsSnapshot +
          f.coordinator.toNat = (loop.run env (loop.step env f event) rest).coordinator.toNat := by
      rw [← hrun, step, ← hcoordinator]
      omega
    rw [results, List.flatMap_cons, List.countP_append, List.countP_cons, hcount]
    refine ⟨htotal, ?_, ?_⟩
    · have := Bool.toNat_le (loop.run env (loop.step env f event) rest).coordinator
      change snapshotRequests (loop.react env f event).1 + _ ≤ 1
      omega
    · change _ = snapshotRequests (loop.react env f event).1 + _
      rw [← hinitiated, Nat.add_comm]
      cases initiates (loop.react env f event).1 <;> rfl

end DefaultCoordinator

/-- Two responses that name a snapshot. -/
def snapshotRun : List Event :=
  [.response ⟨10, 150⟩ ⟨1, 1, 0, 0, [], none, some ⟨5, 1⟩⟩,
    .response ⟨60, 150⟩ ⟨1, 1, 0, 0, [], none, some ⟨9, 1⟩⟩]

/-- The second one starts no transfer. -/
theorem snapshot_requested_once_twice :
    acceptingEnv.snapshots = .default 1024 ∧
      ((⟨⟨1024, 50⟩⟩ : FollowerEventLoop).results acceptingEnv (followerOf 1 1 0 [])
        snapshotRun).map initiates =
        [true, false] ∧
      (((⟨⟨1024, 50⟩⟩ : FollowerEventLoop).results acceptingEnv (followerOf 1 1 0 [])
        snapshotRun).flatMap
        actions).countP requestsSnapshot ≤ 1 :=
  ⟨rfl, by decide +kernel,
    (snapshot_requested_once ⟨⟨1024, 50⟩⟩ rfl (followerOf 1 1 0 []) snapshotRun).2.1⟩

end FollowerEventLoop

end XRaft
