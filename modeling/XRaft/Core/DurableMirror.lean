import XRaft.Core.FollowerInvariant
import XRaft.Core.IoStage

/-!
# The disk follows the follower's memory

The handler of fetch responses changes the log and the election state in memory and leaves
the disk to the actions of the batch it returns. Whichever way it succeeds, the actions
replay exactly its own changes: the log on disk becomes the log in memory again, and a
quorum state is saved exactly when term, vote or leader changed.
-/

namespace XRaft

/-- Perform the storage actions among the actions, in order. -/
def Stores.performAll (stores : Stores) (actions : List IoAction) : Stores :=
  actions.foldl Stores.perform stores

/-- The quorum states the actions save, in order. -/
def savedStates (actions : List IoAction) : List QuorumState :=
  actions.filterMap fun
    | .persistQuorumState state => some state
    | _ => none

/-- Term, vote and leader of a node. -/
def NodeState.ballot (state : NodeState) : ℕ × Option NodeId × Option NodeId :=
  (state.currentTerm, state.votedFor, state.leaderId)

/-- Term, vote and leader of a quorum state. -/
def QuorumState.ballot (qs : QuorumState) : ℕ × Option NodeId × Option NodeId :=
  (qs.currentTerm, qs.votedFor, qs.leaderId)

/-- The log in memory, as a log store. -/
def NodeState.logStore (state : NodeState) : LogStore := ⟨state.log, state.logStartOffset⟩

/-- Beginning a transfer only sends. -/
def SnapshotCoordinator.OnlySends {κ : Type*} (snapshots : SnapshotCoordinator κ) : Prop :=
  ∀ leaderId snapshotId state coordinator, ∀ action ∈
    (snapshots.beginSnapshotTransfer leaderId snapshotId state coordinator).1.actions,
      action.isSendRpc = true

/-- The default coordinator only sends. -/
theorem SnapshotCoordinator.default_onlySends (maxFetchBytes : ℕ) :
    (SnapshotCoordinator.default maxFetchBytes).OnlySends := by
  intro leaderId snapshotId state coordinator action haction
  rw [List.mem_singleton.mp haction]
  rfl

/-- Stores after two groups of actions. -/
@[simp] theorem Stores.performAll_append (stores : Stores) (first second : List IoAction) :
    stores.performAll (first ++ second) = (stores.performAll first).performAll second :=
  List.foldl_append

/-- Saves of two groups of actions. -/
@[simp] theorem savedStates_append (first second : List IoAction) :
    savedStates (first ++ second) = savedStates first ++ savedStates second :=
  List.filterMap_append

/-- Sends do not reach the stores and save nothing. -/
theorem performAll_sends {actions : List IoAction} (h : ∀ action ∈ actions, action.isSendRpc = true)
    (stores : Stores) : stores.performAll actions = stores ∧ savedStates actions = [] := by
  induction actions with
  | nil => exact ⟨rfl, rfl⟩
  | cons action rest ih =>
    obtain ⟨hfirst, hrest⟩ := List.forall_mem_cons.mp h
    cases action with
    | sendRpc target envelope => exact ih hrest
    | _ => cases hfirst

/-- The quorum state on disk is the last one saved. -/
theorem quorumState_performAll (stores : Stores) (actions : List IoAction) :
    (stores.performAll actions).quorumState =
      (savedStates actions).getLast?.or stores.quorumState := by
  induction actions generalizing stores with
  | nil => rfl
  | cons action rest ih =>
    rw [Stores.performAll, List.foldl_cons]
    refine (ih (stores.perform action)).trans ?_
    cases action with
    | persistQuorumState state =>
      change (savedStates rest).getLast?.or (some state) = (state :: savedStates rest).getLast?.or _
      rw [List.getLast?_cons, Option.some_or]
      cases (savedStates rest).getLast? <;> rfl
    | _ => rfl

namespace ReplicationManager

variable {σ κ : Type*} {mgr : ReplicationManager} {env : Collaborators σ κ} {clock : Clock}
  {response : FetchResponse} {f after : Follower σ κ} {result : FetchResponseResult}
  {stores : Stores} {deferred : Option QuorumState}

/-- A deferred save touches the quorum state only, and is the one save there is. -/
theorem performAll_persistActions (deferred : Option QuorumState) (stores : Stores) :
    (stores.performAll (persistActions deferred)).log = stores.log ∧
      savedStates (persistActions deferred) = deferred.toList := by
  cases deferred <;> exact ⟨rfl, rfl⟩

/-- A fetch request is a send. -/
theorem fetchActions_sends (mgr : ReplicationManager) (state : NodeState) :
    ∀ action ∈ mgr.fetchActions state, action.isSendRpc = true := by
  intro action haction
  unfold fetchActions at haction
  split at haction
  · rw [List.mem_singleton.mp haction]
    rfl
  · cases haction

/-- The actions replay the log changes, save what was deferred, and the handler left term, vote
and leader. -/
structure Replays (deferred : Option QuorumState) (stores : Stores) (f after : Follower σ κ)
    (result : FetchResponseResult) : Prop where
  log : stores.log = f.state.logStore →
    (stores.performAll result.ioBatch.actions).log = after.state.logStore
  saved : savedStates result.ioBatch.actions = deferred.toList
  ballot : after.state.ballot = f.state.ballot

/-- A successful validation defers a save exactly when it changes term, vote or leader. -/
theorem validateAndUpdateTerm_deferred {state updated : NodeState}
    (hok : validateAndUpdateTerm state response = (.ok deferred, updated)) :
    deferred.toList = (if updated.ballot = state.ballot then [] else [quorumState updated]) ∧
      updated.logStore = state.logStore := by
  have hvalid := validateAndUpdateTerm_validated response state
  rw [hok] at hvalid
  cases hvalid with
  | same hsame =>
    rw [if_pos rfl]
    exact ⟨rfl, rfl⟩
  | follow hterm =>
    have hchanged : (adoptTerm state response).ballot ≠ state.ballot := by
      intro heq
      have hsame := congrArg Prod.fst heq
      exact absurd hsame (ne_of_gt hterm)
    rw [if_neg hchanged]
    exact ⟨rfl, rfl⟩
  | discover hterm hrole hnone =>
    have hchanged : NodeState.ballot { state with leaderId := some response.leaderId } ≠
      state.ballot := by
      intro heq
      have hsame := congrArg (fun ballot => ballot.2.2) heq
      rw [NodeState.ballot, NodeState.ballot, hnone] at hsame
      cases hsame
    rw [if_neg hchanged]
    exact ⟨rfl, rfl⟩

/-- The snapshot branch leaves log and election state alone. -/
theorem handleSnapshot_replays (hsends : env.snapshots.OnlySends) {snapshotId : SnapshotId}
    (hok : handleSnapshot env response snapshotId deferred f = (.ok result, after)) :
    Replays deferred stores f after result := by
  have hpersist := performAll_persistActions deferred stores
  unfold handleSnapshot at hok
  split at hok
  · cases hok
    exact ⟨fun hlog => hpersist.1.trans hlog, hpersist.2, rfl⟩
  · have hbegin :=
      performAll_sends (hsends (f.state.leaderId.getD response.leaderId) snapshotId f.state
        f.coordinator) stores
    cases hok
    refine ⟨fun hlog => ?_, ?_, rfl⟩
    · rw [Stores.performAll_append, hbegin.1, hpersist.1]
      exact hlog
    · rw [savedStates_append, hbegin.2]
      exact hpersist.2

/-- The divergence branch truncates on disk what it truncates in memory. -/
theorem handleDivergence_replays {diverging : DivergingEpoch}
    (hok : mgr.handleDivergence diverging deferred f = (.ok result, after)) :
    Replays deferred stores f after result := by
  unfold handleDivergence at hok
  dsimp only at hok
  split at hok
  · cases hok
  · cases hok
    set point := min diverging.endOffset f.state.logEndOffset with hpoint
    have hsent := performAll_sends (fetchActions_sends mgr (truncateState f.state point))
      (stores.perform (.truncateSuffix point))
    have hpersist := performAll_persistActions deferred (stores.perform (.truncateSuffix point))
    refine ⟨fun hlog => ?_, ?_, rfl⟩
    · change (((stores.perform (.truncateSuffix point)).performAll
        (mgr.fetchActions (truncateState f.state point) ++ persistActions deferred))).log = _
      rw [Stores.performAll_append, hsent.1, hpersist.1, Stores.perform, hlog]
      rfl
    · change savedStates
        (mgr.fetchActions (truncateState f.state point) ++ persistActions deferred) = _
      rw [savedStates_append, hsent.2]
      exact hpersist.2

/-- The normal branch appends on disk what it appends in memory. -/
theorem handleEntries_replays (hok : handleEntries env response deferred f = (.ok result, after)) :
    Replays deferred stores f after result := by
  cases hcheck : checkEntries f.state response.entries with
  | some e => simp [handleEntries, hcheck] at hok
  | none =>
    have hview :=
      view_advanceHighWatermark env response (f.update (f.state.appendEntries response.entries))
    rw [← handleEntries_of_checked env response hcheck deferred, hok] at hview
    have hlog : after.state.log = f.state.log ++ response.entries := congrArg FollowerView.log hview
    have hstart : after.state.logStartOffset = f.state.logStartOffset :=
      congrArg FollowerView.logStartOffset hview
    have hballot : after.state.ballot = f.state.ballot :=
      congrArg (fun view => (view.currentTerm, view.votedFor, view.leaderId)) hview
    have hactions : result.ioBatch.actions =
        (if response.entries = [] then [] else [IoAction.appendLog response.entries]) ++
        persistActions deferred := by
      unfold handleEntries at hok
      simp only [hcheck] at hok
      split at hok
      · cases hok
      · cases hok
        rfl
    have hmemory : after.state.logStore = ⟨f.state.log ++ response.entries,
        f.state.logStartOffset⟩ := by
      rw [NodeState.logStore, hlog, hstart]
    refine ⟨fun hdisk => ?_, ?_, hballot⟩
    · rw [hactions, Stores.performAll_append, (performAll_persistActions deferred _).1, hmemory]
      split
      · rename_i hempty
        rw [hempty, List.append_nil]
        exact hdisk
      · change stores.log.append response.entries = _
        rw [hdisk]
        rfl
    · rw [hactions, savedStates_append, (performAll_persistActions deferred stores).2]
      split <;> rfl

/-- A successful call replays the changes it made to the log and saves the election state if it
changed. -/
theorem handleFetchResponse_replays (hsends : env.snapshots.OnlySends) (stores : Stores)
    (hok : mgr.handleFetchResponse env clock response f = (.ok result, after)) :
    (stores.log = f.state.logStore →
      (stores.performAll result.ioBatch.actions).log = after.state.logStore) ∧
      savedStates result.ioBatch.actions =
        if after.state.ballot = f.state.ballot then [] else [quorumState after.state] := by
  -- whichever branch the response took, it replays onto the stores from the validated state
  obtain ⟨deferred, updated, hvalid, hreplays⟩ : ∃ deferred updated,
      validateAndUpdateTerm f.state response = (.ok deferred, updated) ∧
        Replays deferred stores (f.update (mgr.resetTimers updated clock)) after result := by
    have hroute := handleFetchResponse_route mgr env clock response f
    generalize mgr.handleFetchResponse env clock response f = outcome at hroute hok
    cases hroute with
    | refused e => cases hok
    | snapshot deferred state hvalid snapshotId =>
      exact ⟨deferred, state, hvalid, handleSnapshot_replays hsends hok⟩
    | divergence deferred state hvalid diverging _ =>
      exact ⟨deferred, state, hvalid, handleDivergence_replays hok⟩
    | entries deferred state hvalid _ => exact ⟨deferred, state, hvalid, handleEntries_replays hok⟩
  obtain ⟨hdeferred, hlog⟩ := validateAndUpdateTerm_deferred hvalid
  have hballot : after.state.ballot = updated.ballot := hreplays.ballot
  refine ⟨fun hdisk => hreplays.log (hdisk.trans hlog.symm), ?_⟩
  have hquorum : quorumState after.state = quorumState updated := by
    simp only [NodeState.ballot, Prod.mk.injEq] at hballot
    simp only [quorumState, hballot.1, hballot.2.1, hballot.2.2]
  rw [hreplays.saved, hdeferred, hballot, hquorum]

/-- The stores hold the log and the term, vote and leader of the follower. -/
structure Mirrors (f : Follower σ κ) (stores : Stores) : Prop where
  log : stores.log = f.state.logStore
  quorumState : stores.quorumState.map QuorumState.ballot = some f.state.ballot

/-- A successful call of the handler whose batch is performed. -/
def Persists (mgr : ReplicationManager) (env : Collaborators σ κ)
    (before after : Follower σ κ × Stores) : Prop :=
  ∃ clock response result, mgr.handleFetchResponse env clock response before.1 =
    (.ok result, after.1) ∧
    after.2 = before.2.performAll result.ioBatch.actions

/-- Performing the batch of a successful call keeps the disk a mirror of the memory. -/
theorem Mirrors.persists (hsends : env.snapshots.OnlySends) {before after : Follower σ κ × Stores}
    (h : Mirrors before.1 before.2) (hstep : mgr.Persists env before after) :
    Mirrors after.1 after.2 := by
  obtain ⟨clock, response, result, hok, hperformed⟩ := hstep
  obtain ⟨hlog, hsaved⟩ := handleFetchResponse_replays hsends before.2 hok
  refine ⟨hperformed ▸ hlog h.log, ?_⟩
  rw [hperformed, quorumState_performAll, hsaved]
  split
  · rename_i hsame
    rw [hsame]
    exact h.quorumState
  · rfl

/-- Performing the batch of a successful call makes the log on disk the log in memory again; the
batch saves a quorum state exactly when term, vote or leader changed, one with the new ones; so
disk and memory agree after any sequence of successful calls. -/
theorem disk_mirrors_memory (hsends : env.snapshots.OnlySends) :
    (∀ clock response f (stores : Stores) result after, stores.log = f.state.logStore →
      mgr.handleFetchResponse env clock response f = (.ok result, after) →
        (stores.performAll result.ioBatch.actions).log = after.state.logStore ∧
        (savedStates result.ioBatch.actions ≠ [] ↔ after.state.ballot ≠ f.state.ballot) ∧
        (after.state.ballot ≠ f.state.ballot → ∃ qs,
          savedStates result.ioBatch.actions = [qs] ∧ qs.ballot = after.state.ballot)) ∧
      ∀ before after :
    Follower σ κ × Stores, Relation.ReflTransGen (mgr.Persists env) before after →
        Mirrors before.1 before.2 → Mirrors after.1 after.2 := by
  constructor
  · intro clock response f stores result after hdisk hok
    obtain ⟨hlog, hsaved⟩ := handleFetchResponse_replays hsends stores hok
    refine ⟨hlog hdisk, ?_, fun hchanged => ⟨quorumState after.state, ?_, rfl⟩⟩
    · rw [hsaved]
      split <;> simp [*]
    · rw [hsaved, if_neg hchanged]
  · intro before after hrun hbefore
    induction hrun with
    | refl => exact hbefore
    | tail _ hlast ih => exact ih.persists hsends hlast

/-- A follower in term 1 with an empty log that has not heard of a leader. -/
def leaderless : Follower Unit Bool :=
  (followerOf 1 1 0 []).update { (followerOf 1 1 0 []).state with leaderId := none }

/-- The stores of that follower. -/
def leaderlessStores : Stores := ⟨LogStore.new, some ⟨1, none, none, 0, 0⟩, none⟩

/-- It learns its leader together with an entry; disk and memory agree afterwards as they did
before. -/
theorem disk_mirrors_memory_discovery : ∃ after : Follower Unit Bool × Stores,
    Relation.ReflTransGen (Persists ⟨1024, 50⟩ acceptingEnv) (leaderless, leaderlessStores) after ∧
      after.1.state.log = [commandEntry 0 1] ∧ after.1.state.leaderId = some 1 ∧
        Mirrors after.1 after.2 := by
  have hok : handleFetchResponse ⟨1024, 50⟩ acceptingEnv ⟨0, 5⟩
    ⟨1, 1, 0, 0, [commandEntry 0 1], none, none⟩ leaderless = (.ok _, _) := rfl
  have hrun : Relation.ReflTransGen (Persists ⟨1024, 50⟩ acceptingEnv)
      (leaderless, leaderlessStores) (_, _) :=
    .single ⟨_, _, _, hok, rfl⟩
  have hsends := SnapshotCoordinator.default_onlySends 1024
  exact ⟨_, hrun, rfl, rfl, (disk_mirrors_memory hsends).2 _ _ hrun ⟨rfl, rfl⟩⟩

end ReplicationManager

end XRaft
