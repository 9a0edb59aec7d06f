import XRaft.Core.Types
import XRaft.Lib.Grouping
import XRaft.Lib.Lane
import Mathlib.Logic.Relation
import Mathlib.Order.WellFounded

/-!
# The grouped I/O stage of `io_stage.rs`

`IoStage::execute` divides a batch into the actions for the log store, the snapshot store
and the network and runs the three groups with `join!`. A group takes its actions in order,
calls its trait object for each, turns what the call returns into a result and keeps the
action's index beside it. When all groups are through, the results are put together and
sorted by index.

A step is a call that a group makes, or the return of a call; the groups may take their steps
in any order. What the calls return is given as a function of the trait object and the number
of the call there.
-/

namespace XRaft

open Lib

namespace IoGroups

/-- The actions `execute` distinguishes. -/
inductive Action where
  | appendLog (entries : List LogEntry)
  | truncateSuffix (fromOffset : ℕ)
  | truncatePrefix (upToOffset : ℕ)
  | saveSnapshot (snapshot : Snapshot)
  | sendRpc (nodeId : NodeId) (data : RpcEnvelope)
  deriving DecidableEq, Repr

/-- The trait objects, each with a group of its own. -/
inductive Group where
  | log
  | snapshot
  | network
  deriving DecidableEq, Repr

/-- A call of a trait object. -/
inductive Call where
  | append (entries : List LogEntry)
  | truncateSuffix (fromOffset : ℕ)
  | truncatePrefix (upToOffset : ℕ)
  | save (snapshot : Snapshot)
  | send (nodeId : NodeId) (data : RpcEnvelope)
  deriving DecidableEq, Repr

/-- Result of executing a single action. -/
inductive IoResult (ε : Type*) where
  | snapshotSaved
  | snapshotSaveFailed (e : ε)
  | prefixTruncated
  | prefixTruncateFailed (e : ε)
  | logAppended
  | suffixTruncated
  | rpcSent
  | rpcFailed (e : ε)
  | storageFailed (e : ε)
  deriving DecidableEq, Repr

/-- The group an action is pushed to. -/
def Action.group : Action → Group
  | .appendLog _ => .log
  | .truncateSuffix _ => .log
  | .truncatePrefix _ => .log
  | .saveSnapshot _ => .snapshot
  | .sendRpc _ _ => .network

/-- The call a group makes for an action; for those of other groups its arm is `unreachable!`. -/
def Group.call : Group → Action → Option Call
  | .log, .appendLog entries => some (.append entries)
  | .log, .truncateSuffix fromOffset => some (.truncateSuffix fromOffset)
  | .log, .truncatePrefix upToOffset => some (.truncatePrefix upToOffset)
  | .snapshot, .saveSnapshot saved => some (.save saved)
  | .network, .sendRpc nodeId data => some (.send nodeId data)
  | _, _ => none

variable {ε : Type*}

/-- The result of a call that has returned. -/
def Call.result : Call → Except ε Unit → IoResult ε
  | .append _, .ok () => .logAppended
  | .append _, .error e => .storageFailed e
  | .truncateSuffix _, .ok () => .suffixTruncated
  | .truncateSuffix _, .error e => .storageFailed e
  | .truncatePrefix _, .ok () => .prefixTruncated
  | .truncatePrefix _, .error e => .prefixTruncateFailed e
  | .save _, .ok () => .snapshotSaved
  | .save _, .error e => .snapshotSaveFailed e
  | .send _ _, .ok () => .rpcSent
  | .send _ _, .error e => .rpcFailed e

/-- A group's loop over its indexed actions, the calls its trait object has received, and its
results. -/
structure GroupRun (ε : Type*) where
  lane : Lane (Action × ℕ)
  received : List Call
  results : List (ℕ × IoResult ε)

/-- One step of a group: it makes its next call, or its call returns. -/
inductive GroupRun.Step (group : Group) (answer : ℕ → Except ε Unit) :
    GroupRun ε → GroupRun ε → Prop where
  | call (run : GroupRun ε) (task : Action × ℕ) (lane : Lane (Action × ℕ)) (call : Call)
      (hstart : run.lane.start = some (task, lane)) (hcall : group.call task.1 = some call) :
      GroupRun.Step group answer run { run with lane := lane, received := run.received ++ [call] }
  | returns (run : GroupRun ε) (task : Action × ℕ) (lane : Lane (Action × ℕ)) (call : Call)
      (hfinish : run.lane.finish = some (task, lane)) (hcall : group.call task.1 = some call) :
      GroupRun.Step group answer run { run with
        lane := lane
        results := run.results ++ [(task.2, call.result (answer (run.received.length - 1)))] }

/-- Whether `execute` is running, has panicked or has returned its results. -/
inductive Status (ε : Type*) where
  | running
  | panicked
  | returned (results : List (IoResult ε))

/-- A moment of one call of `execute`. -/
structure Execution (ε : Type*) where
  groups : Group → GroupRun ε
  status : Status ε

/-- The call of `execute` on a batch, with the batch divided among the groups. -/
def execute (batch : List Action) : Execution ε where
  groups group := ⟨.ofTasks (distribute (fun task => task.1.group) batch.zipIdx group), [], []⟩
  status := .running

/-- The results of the three groups in the order of their indices. -/
def Execution.merge (x : Execution ε) : List (IoResult ε) :=
  (((x.groups .log).results ++ (x.groups .snapshot).results ++
    (x.groups .network).results).insertionSort
    fun a b => a.1 ≤ b.1).map Prod.snd

/-- One step of an execution. -/
inductive Step (answer : Group → ℕ → Except ε Unit) : Execution ε → Execution ε → Prop where
  | group (x : Execution ε) (group : Group) (next : GroupRun ε) (hrunning : x.status = .running)
      (hstep : (x.groups group).Step group (answer group) next) :
      Step answer x { x with groups := Function.update x.groups group next }
  | unreachable (x : Execution ε) (group : Group) (task : Action × ℕ) (lane : Lane (Action × ℕ))
      (hrunning : x.status = .running) (hstart : (x.groups group).lane.start = some (task, lane))
      (hcall : group.call task.1 = none) : Step answer x { x with status := .panicked }
  | join (x : Execution ε) (hrunning : x.status = .running) (hfinished : ∀ group,
      (x.groups group).lane.Finished) :
      Step answer x { x with status := .returned x.merge }

/-- Finitely many steps, in any interleaving of the groups. -/
abbrev Run (answer : Group → ℕ → Except ε Unit) : Execution ε → Execution ε → Prop :=
  Relation.ReflTransGen (Step answer)

/-- What an action asks of the trait object of its group. -/
def Action.call : Action → Call
  | .appendLog entries => .append entries
  | .truncateSuffix fromOffset => .truncateSuffix fromOffset
  | .truncatePrefix upToOffset => .truncatePrefix upToOffset
  | .saveSnapshot snapshot => .save snapshot
  | .sendRpc nodeId data => .send nodeId data

/-- A group knows the actions that are pushed to it. -/
theorem Group.call_group (action : Action) : action.group.call action = some action.call := by
  cases action <;> rfl

variable {answer : Group → ℕ → Except ε Unit} {batch : List Action} {x y : Execution ε}

/-- What every moment of a group keeps: its tasks are the group's actions, its trait object has
received the calls of those begun, and its results are those of the calls that have returned. -/
structure GroupRun.Inv (batch : List Action) (group : Group) (answer : ℕ → Except ε Unit)
    (run : GroupRun ε) : Prop where
  tasks : run.lane.tasks = batch.zipIdx.filter fun task => task.1.group = group
  received : run.received = run.lane.begun.map fun task => task.1.call
  results : run.results = run.lane.done.zipIdx.map fun x => (x.1.2, x.1.1.call.result (answer x.2))

namespace GroupRun.Inv

variable {group : Group} {answer : ℕ → Except ε Unit} {run next : GroupRun ε}

/-- The tasks of a group have calls of its trait object. -/
theorem call_eq (h : run.Inv batch group answer) {task : Action × ℕ}
    (htask : task ∈ run.lane.tasks) : group.call task.1 = some task.1.call := by
  rw [h.tasks, List.mem_filter, decide_eq_true_eq] at htask
  rw [← htask.2, Group.call_group]

/-- Every step of a group keeps its invariant. -/
theorem step (h : run.Inv batch group answer) (hstep : run.Step group answer next) :
    next.Inv batch group answer := by
  cases hstep with
  | call task lane call hstart hcall =>
    have htasks := Lane.tasks_start hstart
    obtain ⟨done, todo, hlane, rfl⟩ := Lane.start_eq_some hstart
    have htask : task ∈ run.lane.tasks := by simp [hlane, Lane.tasks]
    rw [h.call_eq htask, Option.some.injEq] at hcall
    refine ⟨htasks.trans h.tasks, ?_, ?_⟩
    · rw [h.received, hlane, ← hcall]
      simp [Lane.begun]
    · rw [h.results, hlane]
  | returns task lane call hfinish hcall =>
    have htasks := Lane.tasks_finish hfinish
    obtain ⟨done, todo, hlane, rfl⟩ := Lane.finish_eq_some hfinish
    have htask : task ∈ run.lane.tasks := by simp [hlane, Lane.tasks]
    rw [h.call_eq htask, Option.some.injEq] at hcall
    -- the call that returns is the last one made, so its number is the number of results so far
    have hnumber : run.received.length - 1 = done.length := by simp [h.received, hlane, Lane.begun]
    refine ⟨htasks.trans h.tasks, ?_, ?_⟩
    · rw [h.received, hlane]
      simp [Lane.begun]
    · rw [hnumber, h.results, hlane, ← hcall]
      simp [List.zipIdx_append]

/-- The calls of the group's tasks are those of its actions. -/
theorem calls_eq (h : run.Inv batch group answer) :
    (batch.filter fun action => action.group = group).map Action.call =
      run.lane.tasks.map fun task => task.1.call := by
  conv_lhs => rw [← List.zipIdx_map_fst 0 batch]
  rw [h.tasks, List.filter_map, List.map_map]
  rfl

/-- The trait object has received the first of the group's calls, in order. -/
theorem received_isPrefix (h : run.Inv batch group answer) :
    run.received <+: (batch.filter fun action => action.group = group).map Action.call := by
  rw [h.calls_eq, h.received, Lane.tasks, List.map_append]
  exact List.prefix_append _ _

/-- The trait object of a group that is through has received all of the group's calls. -/
theorem received_of_finished (h : run.Inv batch group answer) (hfinished : run.lane.Finished) :
    run.received = (batch.filter fun action => action.group = group).map Action.call := by
  rw [h.calls_eq, h.received, hfinished.begun_eq]

/-- A group that is through has all its results. -/
theorem results_of_finished (h : run.Inv batch group answer) (hfinished : run.lane.Finished) :
    run.results = ((batch.zipIdx.filter fun task => task.1.group = group).zipIdx).map
      fun x => (x.1.2, x.1.1.call.result (answer x.2)) := by
  rw [h.results, hfinished.done_eq, h.tasks]

end GroupRun.Inv

/-- What every moment of an execution keeps. -/
structure Inv (batch : List Action) (answer : Group → ℕ → Except ε Unit) (x : Execution ε) :
    Prop where
  groups : ∀ group, (x.groups group).Inv batch group (answer group)
  reachable : x.status ≠ .panicked
  returned : ∀ results, x.status = .returned results →
    (∀ group, (x.groups group).lane.Finished) ∧ results = x.merge

/-- The invariant holds when the batch has been divided. -/
theorem execute_inv (batch : List Action) (answer : Group → ℕ → Except ε Unit) :
    Inv batch answer (execute batch) where
  groups group :=
    ⟨distribute_eq (fun task : Action × ℕ => task.1.group) batch.zipIdx group, rfl, rfl⟩
  reachable h := by cases h
  returned _ h := by cases h

/-- Every step keeps the invariant. -/
theorem Inv.step (h : Inv batch answer x) (hstep : Step answer x y) : Inv batch answer y := by
  cases hstep with
  | group group next hrunning hstep =>
    refine ⟨?_, ?_, fun results hresults => ?_⟩
    · exact (Function.forall_update_iff x.groups fun group run =>
        run.Inv batch group (answer group)).mpr
        ⟨(h.groups group).step hstep, fun other _ => h.groups other⟩
    · exact h.reachable
    · rw [hrunning] at hresults
      cases hresults
  | unreachable group task lane hrunning hstart hcall =>
    have htask : task ∈ (x.groups group).lane.tasks := by
      obtain ⟨done, todo, hlane, -⟩ := Lane.start_eq_some hstart
      simp [hlane, Lane.tasks]
    rw [(h.groups group).call_eq htask] at hcall
    cases hcall
  | join hrunning hfinished =>
    refine ⟨h.groups, fun hpanicked => ?_, fun results hresults => ?_⟩
    · cases hpanicked
    · cases hresults
      exact ⟨hfinished, rfl⟩

/-- The invariant holds at every moment of an execution. -/
theorem run_inv (h : Run answer (execute batch) x) : Inv batch answer x := by
  induction h with
  | refl => exact execute_inv batch answer
  | tail _ hstep ih => exact ih.step hstep

/-- An execution that is running can go on. -/
theorem Inv.progress (h : Inv batch answer x) (hrunning : x.status = .running) :
    ∃ y, Step answer x y := by
  by_cases hfinished : ∀ group, (x.groups group).lane.Finished
  · exact ⟨_, .join x hrunning hfinished⟩
  · obtain ⟨group, hgroup⟩ := not_forall.mp hfinished
    obtain hdone | ⟨task, next, hstart⟩ | ⟨task, next, hfinish⟩ :=
      (x.groups group).lane.finished_or_start_or_finish
    · exact absurd hdone hgroup
    · obtain ⟨done, todo, hlane, -⟩ := Lane.start_eq_some hstart
      have htask : task ∈ (x.groups group).lane.tasks := by simp [hlane, Lane.tasks]
      have hcall := (h.groups group).call_eq htask
      exact ⟨_, .group x group _ hrunning (.call _ task next _ hstart hcall)⟩
    · obtain ⟨done, todo, hlane, -⟩ := Lane.finish_eq_some hfinish
      have htask : task ∈ (x.groups group).lane.tasks := by simp [hlane, Lane.tasks]
      have hcall := (h.groups group).call_eq htask
      exact ⟨_, .group x group _ hrunning (.returns _ task next _ hfinish hcall)⟩

/-- The steps an execution has left. -/
def Execution.remaining (x : Execution ε) : ℕ :=
  (x.groups .log).lane.remaining + (x.groups .snapshot).lane.remaining +
    (x.groups .network).lane.remaining +
    match x.status with
    | .running => 1
    | _ => 0

/-- A step of a group is one of those its lane has left. -/
theorem GroupRun.Step.remaining_lt {group : Group} {answer : ℕ → Except ε Unit}
    {run next : GroupRun ε} (h : run.Step group answer next) :
    next.lane.remaining < run.lane.remaining := by
  cases h with
  | call _ _ _ hstart _ => exact Lane.remaining_start hstart
  | returns _ _ _ hfinish _ => exact Lane.remaining_finish hfinish

/-- Every step is one of those the execution has left. -/
theorem Step.remaining_lt (h : Step answer x y) : y.remaining < x.remaining := by
  cases h with
  | group group next hrunning hstep =>
    have hlane := hstep.remaining_lt
    cases group <;> simp [Execution.remaining] <;> omega
  | unreachable _ _ _ hrunning _ _ => simp [Execution.remaining, hrunning]
  | join hrunning _ => simp [Execution.remaining, hrunning]

/-- Executions end. -/
theorem step_wellFounded (answer : Group → ℕ → Except ε Unit) :
    WellFounded fun y x => Step answer x y :=
  Subrelation.wf Step.remaining_lt (measure Execution.remaining).wf

/-- The merged results of groups that are through are those of the batch in order. -/
theorem Inv.merge_eq (h : Inv batch answer x)
    (hfinished : ∀ group, (x.groups group).lane.Finished) :
    x.merge = (numberIn Action.group (fun _ => 0) batch).map
      fun numbered => numbered.1.call.result (answer numbered.1.group numbered.2) := by
  have hresults : ∀ group, (x.groups group).results =
      groupResults Action.group
      (fun group action number => action.call.result (answer group number)) batch group :=
    fun group => (h.groups group).results_of_finished (hfinished group)
  have hnodup : [Group.log, .snapshot, .network].Nodup := by decide
  have hall : ∀ group : Group, group ∈ [Group.log, .snapshot, .network] := by
    intro group
    cases group <;> decide
  have hmerge := merge_groupResults Action.group
    (fun group action number => action.call.result (answer group number)) hnodup hall batch
  rw [← hmerge, Execution.merge, hresults, hresults, hresults]
  simp only [List.flatMap_cons, List.flatMap_nil, List.append_nil, List.append_assoc]

/-- Executions end, never in an `unreachable!` arm and never stuck. At every moment each trait
object has received the first of its actions, in the order of the batch. If `execute` has
returned, there is one result for each action of the batch: what became of the call that the
action's trait object received for it. -/
theorem execute_in_order (batch : List Action) (answer : Group → ℕ → Except ε Unit) :
    (WellFounded fun y x : Execution ε => Step answer x y) ∧
    ∀ x, Run answer (execute batch) x →
      x.status ≠ .panicked ∧ (x.status = .running → ∃ y, Step answer x y) ∧
      (∀ group, (x.groups group).received <+:
        (batch.filter fun action => action.group = group).map Action.call) ∧
      ∀ results, x.status = .returned results →
        (∀ group, (x.groups group).received =
          (batch.filter fun action => action.group = group).map Action.call) ∧
        results.length = batch.length ∧
        ∀ (i : ℕ) (action : Action), batch[i]? = some action →
          results[i]? = some (action.call.result
          (answer action.group ((batch.take i).countP fun other =>
            other.group = action.group))) := by
  refine ⟨step_wellFounded answer, fun x hrun => ?_⟩
  have h := run_inv hrun
  refine ⟨h.reachable, h.progress, fun group => (h.groups group).received_isPrefix,
    fun results hresults => ?_⟩
  obtain ⟨hfinished, rfl⟩ := h.returned results hresults
  rw [h.merge_eq hfinished]
  refine ⟨fun group => (h.groups group).received_of_finished (hfinished group), ?_,
    fun i action haction => ?_⟩
  · rw [List.length_map, length_numberIn]
  · rw [List.getElem?_map, getElem?_numberIn, haction]
    simp

/-- A snapshot between two actions on the log. -/
def mixed : List Action := [.appendLog [], .saveSnapshot ⟨⟨4, 1, [], 1⟩, []⟩, .truncatePrefix 5]

/-- The first append of the log store fails. -/
def fullDisk : Group → ℕ → Except String Unit
  | .log, 0 => .error "disk full"
  | _, _ => .ok ()

/-- The append fails while the snapshot is being saved, and the compaction goes on. -/
theorem execute_in_order_mixed : ∃ x results, Run fullDisk (execute mixed) x ∧
      x.status = .returned results ∧
    results.length = 3 ∧ results[0]? = some (.storageFailed "disk full") ∧
      results[1]? = some .snapshotSaved ∧
    results[2]? = some .prefixTruncated ∧
      (x.groups .log).received = [.append [], .truncatePrefix 5] := by
  have hrun : ∃ x : Execution String, Run fullDisk (execute mixed) x ∧
      ∃ results, x.status = .returned results := by
    refine ⟨_, .tail (.tail (.tail (.tail (.tail (.tail (.tail .refl
      (.group _ .log _ rfl (.call _ _ _ _ rfl rfl)))
        (.group _ .snapshot _ rfl (.call _ _ _ _ rfl rfl)))
      (.group _ .log _ rfl (.returns _ _ _ _ rfl rfl)))
        (.group _ .log _ rfl (.call _ _ _ _ rfl rfl)))
      (.group _ .log _ rfl (.returns _ _ _ _ rfl rfl)))
        (.group _ .snapshot _ rfl (.returns _ _ _ _ rfl rfl)))
      (.join _ rfl fun group => ?_), _, rfl⟩
    cases group <;> exact ⟨rfl, rfl⟩
  obtain ⟨x, hx, results, hresults⟩ := hrun
  obtain ⟨-, -, -, hreturned⟩ := (execute_in_order mixed fullDisk).2 x hx
  obtain ⟨hreceived, hlength, hresult⟩ := hreturned results hresults
  exact ⟨x, results, hx, hresults, hlength, hresult 0 _ rfl, hresult 1 _ rfl, hresult 2 _ rfl,
    hreceived .log⟩

end IoGroups

end XRaft
