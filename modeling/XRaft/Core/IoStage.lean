import XRaft.Core.Election
import XRaft.Core.RaftNode
import XRaft.Lib.Lane
import Mathlib.Logic.Relation

/-!
# The I/O stage of `io_action.rs`

`IoStage::execute` splits a batch into storage actions and sends and runs the two groups
side by side with `try_join!`. Each group keeps the batch's order, and nothing orders one
group against the other: a send waits for no storage action. Both futures are polled in
one task, storage first, so a send is begun while storage waits for a call of its own or
has nothing left to do.

An execution ends when both groups are through, when a call fails (the other group is
dropped where it stands) or when the process crashes. A storage call that was running at
that moment may or may not have reached the disk.
-/

namespace XRaft

open Lib

/-- Whether the action makes protocol state durable: a quorum-state save or a log append. -/
def IoAction.isDurable : IoAction → Bool
  | .persistQuorumState _ => true
  | .appendLog _ => true
  | _ => false

namespace IoActionBatch

/-- The storage actions of the batch, with their positions. -/
def storageActions (batch : IoActionBatch) : List (IoAction × ℕ) :=
  batch.actions.zipIdx.filter fun task => !task.1.isSendRpc

/-- The sends of the batch, with their positions. -/
def networkActions (batch : IoActionBatch) : List (IoAction × ℕ) :=
  batch.actions.zipIdx.filter fun task => task.1.isSendRpc

/-- No quorum-state save and no log append stands before a send. -/
def SendsFirst (batch : IoActionBatch) : Prop :=
  ∀ (action : IoAction) (i : ℕ) (send : IoAction) (j : ℕ),
    batch.actions[i]? = some action → batch.actions[j]? = some send →
    action.isDurable → send.isSendRpc → j < i

end IoActionBatch

/-- The effect of a storage action on the stores. -/
def Stores.perform (stores : Stores) : IoAction → Stores
  | .persistQuorumState state => { stores with quorumState := some state }
  | .appendLog entries => { stores with log := stores.log.append entries }
  | .truncateSuffix offset => { stores with log := stores.log.truncateSuffix offset }
  | .truncatePrefix offset => { stores with log := stores.log.truncatePrefix offset }
  | .saveSnapshot snapshot => { stores with snapshot := some snapshot }
  | .sendRpc _ _ => stores

/-- Whether `execute` is running, has returned, or was cut off. -/
inductive Status where
  | running
  | returned (result : Except String Unit)
  | crashed

/-- A moment of one call of `IoStage::execute`. -/
structure Execution where
  storage : Lane (IoAction × ℕ)
  network : Lane (IoAction × ℕ)
  stores : Stores
  status : Status

namespace Execution

/-- The call of `execute` on a batch, before its first poll. -/
def execute (stores : Stores) (batch : IoActionBatch) : Execution :=
  ⟨.ofTasks batch.storageActions, .ofTasks batch.networkActions, stores, .running⟩

/-- Leave everything where it stands; the running storage call may have been written. -/
def abandon (x : Execution) (written : Bool) (status : Status) : Execution :=
  { x with
    stores := match x.storage.current with
      | some task => if written then x.stores.perform task.1 else x.stores
      | none => x.stores
    status := status }

/-- One step of an execution. -/
inductive Step : Execution → Execution → Prop where
  | storageCall (x : Execution) (task : IoAction × ℕ) (lane : Lane (IoAction × ℕ))
      (hrunning : x.status = .running) (hstart : x.storage.start = some (task, lane)) :
      Step x { x with storage := lane }
  | storageOk (x : Execution) (task : IoAction × ℕ) (lane : Lane (IoAction × ℕ))
      (hrunning : x.status = .running) (hfinish : x.storage.finish = some (task, lane)) :
      Step x { x with storage := lane, stores := x.stores.perform task.1 }
  | storageErr (x : Execution) (written : Bool) (reason : String)
      (hrunning : x.status = .running) (hcall : x.storage.current.isSome) :
      Step x (x.abandon written (.returned (.error reason)))
  | networkCall (x : Execution) (task : IoAction × ℕ) (lane : Lane (IoAction × ℕ))
      (hrunning : x.status = .running) (hwaiting : x.storage.Waiting)
      (hstart : x.network.start = some (task, lane)) :
      Step x { x with network := lane }
  | networkOk (x : Execution) (task : IoAction × ℕ) (lane : Lane (IoAction × ℕ))
      (hrunning : x.status = .running) (hfinish : x.network.finish = some (task, lane)) :
      Step x { x with network := lane }
  | networkErr (x : Execution) (written : Bool) (reason : String)
      (hrunning : x.status = .running) (hcall : x.network.current.isSome) :
      Step x (x.abandon written (.returned (.error reason)))
  | join (x : Execution) (hrunning : x.status = .running) (hstorage : x.storage.Finished)
      (hnetwork : x.network.Finished) :
      Step x { x with status := .returned (.ok ()) }
  | crash (x : Execution) (written : Bool) (hrunning : x.status = .running) :
      Step x (x.abandon written .crashed)

/-- Finitely many steps. -/
abbrev Run : Execution → Execution → Prop := Relation.ReflTransGen Step

/-- The send at position `j` has been handed to the transport. -/
def Handed (x : Execution) (send : IoAction) (j : ℕ) : Prop := (send, j) ∈ x.network.begun

/-- Every save and append at an earlier position of the batch than a handed send has completed. -/
def PersistedBeforeSent (batch : IoActionBatch) (x : Execution) : Prop :=
  ∀ send j, x.Handed send j → ∀ action i, batch.actions[i]? = some action →
    action.isDurable → i < j →
    (action, i) ∈ x.storage.done

variable {batch : IoActionBatch} {stores : Stores} {x y : Execution}

/-- What every moment of an execution keeps: the two groups, and the disk of the finished storage
actions. -/
structure Inv (stores : Stores) (batch : IoActionBatch) (x : Execution) : Prop where
  storage : x.storage.tasks = batch.storageActions
  network : x.network.tasks = batch.networkActions
  disk : x.status = .running →
    x.stores = x.storage.done.foldl (fun stores task => stores.perform task.1) stores
  ok : x.status = .returned (.ok ()) → x.storage.Finished ∧ x.network.Finished ∧
    x.stores = x.storage.done.foldl (fun stores task => stores.perform task.1) stores

/-- The invariant holds before the first poll. -/
theorem execute_inv (stores : Stores) (batch : IoActionBatch) :
    Inv stores batch (execute stores batch) where
  storage := rfl
  network := rfl
  disk _ := rfl
  ok h := by cases h

/-- Abandoning an execution keeps the two groups. -/
theorem Inv.abandon (h : Inv stores batch x) (written : Bool) {status : Status}
    (hrunning : status ≠ .running) (hok : status ≠ .returned (.ok ())) :
    Inv stores batch (x.abandon written status) where
  storage := h.storage
  network := h.network
  disk hstatus := absurd hstatus hrunning
  ok hstatus := absurd hstatus hok

/-- Every step keeps the invariant. -/
theorem Inv.step (h : Inv stores batch x) (hstep : Step x y) : Inv stores batch y := by
  cases hstep with
  | storageCall task lane hrunning hstart =>
    refine ⟨(Lane.tasks_start hstart).trans h.storage, h.network, fun _ => ?_, fun hok => ?_⟩
    · obtain ⟨done, todo, hlane, rfl⟩ := Lane.start_eq_some hstart
      rw [h.disk hrunning, hlane]
    · rw [hrunning] at hok
      cases hok
  | storageOk task lane hrunning hfinish =>
    refine ⟨(Lane.tasks_finish hfinish).trans h.storage, h.network, fun _ => ?_, fun hok => ?_⟩
    · obtain ⟨done, todo, hlane, rfl⟩ := Lane.finish_eq_some hfinish
      rw [h.disk hrunning, hlane, List.foldl_append]
      rfl
    · rw [hrunning] at hok
      cases hok
  | storageErr written reason => exact h.abandon written (by simp) (by simp)
  | networkCall task lane hrunning _ hstart =>
    refine ⟨h.storage, (Lane.tasks_start hstart).trans h.network, h.disk, fun hok => ?_⟩
    rw [hrunning] at hok
    cases hok
  | networkOk task lane hrunning hfinish =>
    refine ⟨h.storage, (Lane.tasks_finish hfinish).trans h.network, h.disk, fun hok => ?_⟩
    rw [hrunning] at hok
    cases hok
  | networkErr written reason => exact h.abandon written (by simp) (by simp)
  | join hrunning hstorage hnetwork =>
    refine ⟨h.storage, h.network, fun hstatus => ?_, fun _ => ⟨hstorage, hnetwork, h.disk hrunning⟩⟩
    cases hstatus
  | crash written => exact h.abandon written (by simp) (by simp)

/-- The invariant holds at every moment of every execution. -/
theorem inv_of_run (hrun : Run (execute stores batch) x) : Inv stores batch x := by
  induction hrun with
  | refl => exact execute_inv stores batch
  | tail _ hstep ih => exact ih.step hstep

/-- When `execute` returns without an error, the disk holds the batch's storage actions, in
order. -/
theorem stores_of_returned_ok (hrun : Run (execute stores batch) x)
    (hok : x.status = .returned (.ok ())) :
    x.stores = batch.storageActions.foldl (fun stores task => stores.perform task.1) stores := by
  have hinv := inv_of_run hrun
  obtain ⟨hstorage, _, hdisk⟩ := hinv.ok hok
  rw [hdisk, hstorage.done_eq, hinv.storage]

/-- While storage waits, the transport can be handed every send up to a given one. -/
theorem exists_handed (before : List (IoAction × ℕ)) {done after : List (IoAction × ℕ)}
    {task : IoAction × ℕ} (hrunning : x.status = .running) (hwaiting : x.storage.Waiting)
    (hnetwork : x.network = ⟨done, none, before ++ task :: after⟩) :
    ∃ done', Run x { x with network := ⟨done', some task, after⟩ } := by
  induction before generalizing x done with
  | nil =>
    refine ⟨done, .single (.networkCall x task _ hrunning hwaiting ?_)⟩
    rw [hnetwork]
    rfl
  | cons first before ih =>
    have hcall : Step x { x with network := ⟨done, some first, before ++ task :: after⟩ } := by
      refine .networkCall x first _ hrunning hwaiting ?_
      rw [hnetwork]
      rfl
    have hok : Step { x with network := ⟨done, some first, before ++ task :: after⟩ }
        { x with network := ⟨done ++ [first], none, before ++ task :: after⟩ } :=
      .networkOk _ first _ hrunning rfl
    obtain ⟨done', hrun⟩ :=
      ih (x := { x with network := ⟨done ++ [first], none, before ++ task :: after⟩ })
        hrunning hwaiting rfl
    exact ⟨done', .head hcall (.head hok hrun)⟩

/-- Without a written call the disk stays as it is. -/
@[simp] theorem stores_abandon_false (x : Execution) (status : Status) :
    (x.abandon false status).stores = x.stores := by
  unfold abandon
  cases x.storage.current <;> rfl

/-- A send can be handed over, and the process die, with no storage action completed and the disk
as it was. -/
theorem exists_handed_early (stores : Stores) (batch : IoActionBatch)
    {action send : IoAction} {i j : ℕ} (haction : batch.actions[i]? = some action)
    (hstorage : action.isSendRpc = false) (hsend : batch.actions[j]? = some send)
    (hnetwork : send.isSendRpc = true) :
    ∃ x, Run (execute stores batch) x ∧ x.status = .crashed ∧ x.Handed send j ∧
      x.storage.done = [] ∧
      x.stores = stores := by
  have hmem : (action, i) ∈ batch.storageActions := by
    simp [IoActionBatch.storageActions, List.mem_zipIdx_iff_getElem?, haction, hstorage]
  have htask : (send, j) ∈ batch.networkActions := by
    simp [IoActionBatch.networkActions, List.mem_zipIdx_iff_getElem?, hsend, hnetwork]
  obtain ⟨first, rest, hfirst⟩ := List.exists_cons_of_ne_nil (List.ne_nil_of_mem hmem)
  obtain ⟨before, after, hsplit⟩ := List.append_of_mem htask
  -- storage is polled first and waits in its first call
  have hcall : Step (execute stores batch)
      ⟨⟨[], some first, rest⟩, .ofTasks batch.networkActions, stores, .running⟩ := by
    refine .storageCall (execute stores batch) first _ rfl ?_
    rw [execute, hfirst]
    rfl
  obtain ⟨done, hrun⟩ := exists_handed (x :=
    ⟨⟨[], some first, rest⟩, .ofTasks batch.networkActions, stores, .running⟩) before rfl
      (Or.inl rfl)
    (by rw [hsplit]; rfl)
  refine ⟨_, .head hcall (hrun.tail (.crash _ false rfl)), rfl, ?_, rfl, stores_abandon_false _ _⟩
  simp [Handed, Lane.begun, abandon]

/-- Persisting precedes sending, in every execution of a batch, exactly when the batch gives it
nothing to order. -/
theorem persistedBeforeSent_iff_sendsFirst (stores : Stores) (batch : IoActionBatch) :
    (∀ x, Run (execute stores batch) x → x.PersistedBeforeSent batch) ↔ batch.SendsFirst := by
  constructor
  · intro hall action i send j haction hsend hdurable hrpc
    by_contra hle
    have hstorage : action.isSendRpc = false := by
      cases action <;> simp_all [IoAction.isDurable, IoAction.isSendRpc]
    have hne : i ≠ j := by
      rintro rfl
      rw [haction, Option.some.injEq] at hsend
      rw [hsend, hrpc] at hstorage
      cases hstorage
    obtain ⟨x, hrun, _, hhanded, hdone, _⟩ :=
      exists_handed_early stores batch haction hstorage hsend hrpc
    have hmem := hall x hrun send j hhanded action i haction hdurable (by omega)
    rw [hdone] at hmem
    cases hmem
  · intro hfirst x hrun send j hhanded action i haction hdurable hlt
    have hmem := Lane.mem_tasks_of_mem_begun hhanded
    rw [(inv_of_run hrun).network, IoActionBatch.networkActions, List.mem_filter,
      List.mem_zipIdx_iff_getElem?] at hmem
    have := hfirst action i send j haction hmem.1 hdurable hmem.2
    omega

/-- Whenever the election manager grants a vote, the answer can leave and the process die with the
vote unsaved. -/
theorem exists_granted_unsaved (timers : TimerMethods) (clock : Clock) (request : VoteRequest)
    (state : NodeState) (stores : Stores)
    (hrefuse : ElectionManager.mustRefuse
      (ElectionManager.maybeStepDownOnHigherTerm timers clock request.term state).2 request = false)
    (hlog : ElectionManager.logOk
      (ElectionManager.maybeStepDownOnHigherTerm timers clock request.term state).2
      request = true) :
    ∃ x,
      Run (execute stores (ElectionManager.handleVoteRequest timers clock request state {}).2) x ∧
      x.status = .crashed ∧ x.stores = stores ∧ x.Handed (ElectionManager.sendVoteResponse
        (ElectionManager.handleVoteRequest timers clock request state {}).1 request true) 1 := by
  obtain ⟨qs, hsave⟩ : ∃ qs,
      (ElectionManager.handleVoteRequest timers clock request state {}).2.actions[0]? =
      some (.persistQuorumState qs) := by
    simp [ElectionManager.handleVoteRequest, hrefuse, hlog, IoActionBatch.push]
  have hsend : (ElectionManager.handleVoteRequest timers clock request state {}).2.actions[1]? =
      some (ElectionManager.sendVoteResponse
        (ElectionManager.handleVoteRequest timers clock request state {}).1 request true) := by
    simp [ElectionManager.handleVoteRequest, hrefuse, hlog, IoActionBatch.push]
  obtain ⟨x, hrun, hcrashed, hhanded, _, hdisk⟩ := exists_handed_early stores _ hsave rfl hsend rfl
  exact ⟨x, hrun, hcrashed, hdisk, hhanded⟩

/-- Whenever an election has another voter to ask, the request can leave and the process die with
the vote unsaved. -/
theorem exists_requested_unsaved (timers : TimerMethods) (clock : Clock) (state : NodeState)
    (stores : Stores) {voter : VoterInfo} (hvoter : voter ∈ state.voterSet)
    (hother : voter.nodeId ≠ state.nodeId) :
    ∃ x j, Run (execute stores (ElectionManager.startElection timers clock state {}).2) x ∧
      x.status = .crashed ∧ x.stores = stores ∧ x.Handed
        (ElectionManager.sendVoteRequest (ElectionManager.startElection timers clock state {}).1
          voter) j := by
  have hactions := ElectionManager.actions_startElection timers clock state
  have hmem : ElectionManager.sendVoteRequest
      (ElectionManager.startElection timers clock state {}).1 voter ∈
      (ElectionManager.startElection timers clock state {}).2.actions := by
    rw [hactions]
    refine List.mem_cons_of_mem _ (List.mem_map_of_mem ?_)
    exact List.mem_filter.mpr ⟨hvoter, by simpa using hother⟩
  obtain ⟨j, hj⟩ := List.mem_iff_getElem?.mp hmem
  have hsave : (ElectionManager.startElection timers clock state {}).2.actions[0]? =
      some (.persistQuorumState (ElectionManager.quorumState
        (ElectionManager.startElection timers clock state {}).1 none)) := by
    rw [hactions]
    rfl
  obtain ⟨x, hrun, hcrashed, hhanded, _, hdisk⟩ := exists_handed_early stores _ hsave rfl hj rfl
  exact ⟨x, j, hrun, hcrashed, hdisk, hhanded⟩

/-- Three voters; this one is a follower in term zero that has not voted. -/
def freshVoter : NodeState :=
  { NodeState.newUnattached 1 0 with
    clusterId := 7
    role := .follower
    voterSet := [⟨1, "a"⟩, ⟨2, "b"⟩, ⟨3, "c"⟩] }

/-- A voter grants its vote for term one, the answer is handed over, and after a crash nothing is
on disk. -/
theorem persistedBeforeSent_freshVoter :
    ∃ x, Run (execute Stores.empty
        (ElectionManager.handleVoteRequest .given ⟨0, 150⟩ ⟨1, 2, 0, 0, false⟩ freshVoter {}).2) x ∧
      x.status = .crashed ∧ x.stores.quorumState = none ∧
      x.Handed (.sendRpc 2 ⟨7, 0, 1, .voteResponse ⟨1, true, false⟩⟩) 1 ∧
      ¬ x.PersistedBeforeSent
        (ElectionManager.handleVoteRequest .given ⟨0, 150⟩ ⟨1, 2, 0, 0,
          false⟩ freshVoter {}).2 := by
  obtain ⟨x, hrun, hcrashed, hhanded, hdone, hdisk⟩ := exists_handed_early Stores.empty
    (ElectionManager.handleVoteRequest .given ⟨0, 150⟩ ⟨1, 2, 0, 0, false⟩ freshVoter {}).2
    (i := 0) (j := 1) rfl rfl rfl rfl
  refine ⟨x, hrun, hcrashed, by rw [hdisk]; rfl, hhanded, fun hall => ?_⟩
  have hmem := hall _ 1 hhanded _ 0 rfl rfl (by omega)
  rw [hdone] at hmem
  cases hmem

end Execution

end XRaft
