import Mathlib.Data.List.Basic

/-!
# Sequential lanes

A lane works through a list of tasks one at a time: a task is begun, then finished,
then the next one is begun. Several lanes side by side are a concurrent program whose
interleavings are all orders of their steps; each lane keeps its own order in all of
them.
-/

namespace XRaft.Lib

/-- The finished tasks, the one that is running, and those not begun yet. -/
structure Lane (α : Type*) where
  done : List α
  current : Option α
  todo : List α

namespace Lane

variable {α : Type*} {lane next : Lane α} {task : α}

/-- A lane before its first task. -/
def ofTasks (tasks : List α) : Lane α := ⟨[], none, tasks⟩

/-- All tasks of the lane, in order. -/
def tasks (lane : Lane α) : List α := lane.done ++ lane.current.toList ++ lane.todo

/-- The tasks that have been begun, in order. -/
def begun (lane : Lane α) : List α := lane.done ++ lane.current.toList

/-- The lane waits for its running task or has nothing left to begin. -/
def Waiting (lane : Lane α) : Prop := lane.current.isSome ∨ lane.todo = []

/-- All tasks are finished. -/
def Finished (lane : Lane α) : Prop := lane.current = none ∧ lane.todo = []

/-- Begin the next task, if none is running. -/
def start : Lane α → Option (α × Lane α)
  | ⟨done, none, task :: todo⟩ => some (task, ⟨done, some task, todo⟩)
  | _ => none

/-- Finish the running task, if there is one. -/
def finish : Lane α → Option (α × Lane α)
  | ⟨done, some task, todo⟩ => some (task, ⟨done ++ [task], none, todo⟩)
  | _ => none

/-- What beginning a task does to the lane. -/
theorem start_eq_some (h : lane.start = some (task, next)) :
    ∃ done todo, lane = ⟨done, none, task :: todo⟩ ∧ next = ⟨done, some task, todo⟩ := by
  obtain ⟨done, current, todo⟩ := lane
  cases current with
  | some running => cases h
  | none =>
    cases todo with
    | nil => cases h
    | cons first rest =>
      cases h
      exact ⟨done, rest, rfl, rfl⟩

/-- What finishing a task does to the lane. -/
theorem finish_eq_some (h : lane.finish = some (task, next)) :
    ∃ done todo, lane = ⟨done, some task, todo⟩ ∧ next = ⟨done ++ [task], none, todo⟩ := by
  obtain ⟨done, current, todo⟩ := lane
  cases current with
  | none => cases h
  | some running =>
    cases h
    exact ⟨done, todo, rfl, rfl⟩

/-- Beginning a task changes neither the tasks nor their order. -/
theorem tasks_start (h : lane.start = some (task, next)) : next.tasks = lane.tasks := by
  obtain ⟨done, todo, rfl, rfl⟩ := start_eq_some h
  simp [tasks]

/-- Finishing a task changes neither the tasks nor their order. -/
theorem tasks_finish (h : lane.finish = some (task, next)) : next.tasks = lane.tasks := by
  obtain ⟨done, todo, rfl, rfl⟩ := finish_eq_some h
  simp [tasks]

/-- What has been begun is one of the tasks. -/
theorem mem_tasks_of_mem_begun (h : task ∈ lane.begun) : task ∈ lane.tasks :=
  List.mem_append_left _ h

/-- A lane that has finished is done with all its tasks. -/
theorem Finished.done_eq (h : lane.Finished) : lane.done = lane.tasks := by
  simp [tasks, h.1, h.2]

/-- A lane that has finished has begun all its tasks. -/
theorem Finished.begun_eq (h : lane.Finished) : lane.begun = lane.tasks := by
  simp [begun, tasks, h.2]

/-- A lane that has not finished can go on. -/
theorem finished_or_start_or_finish (lane : Lane α) :
    lane.Finished ∨ (∃ task next, lane.start = some (task, next)) ∨
      ∃ task next, lane.finish = some (task, next) := by
  obtain ⟨done, current, todo⟩ := lane
  cases current with
  | some task => exact .inr (.inr ⟨task, _, rfl⟩)
  | none =>
    cases todo with
    | nil => exact .inl ⟨rfl, rfl⟩
    | cons task rest => exact .inr (.inl ⟨task, _, rfl⟩)

/-- The steps a lane has left: two for a task to begin, one for the running one. -/
def remaining (lane : Lane α) : ℕ := 2 * lane.todo.length + lane.current.toList.length

/-- Beginning a task is a step. -/
theorem remaining_start (h : lane.start = some (task, next)) : next.remaining < lane.remaining := by
  obtain ⟨done, todo, rfl, rfl⟩ := start_eq_some h
  simp [remaining]
  omega

/-- Finishing a task is a step. -/
theorem remaining_finish (h : lane.finish = some (task, next)) :
    next.remaining < lane.remaining := by
  obtain ⟨done, todo, rfl, rfl⟩ := finish_eq_some h
  simp [remaining]

end Lane

end XRaft.Lib
