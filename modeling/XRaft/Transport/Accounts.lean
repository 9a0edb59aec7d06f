import Mathlib.Data.Multiset.OrderedMonoid
import XRaft.Lib.Runs
import XRaft.Transport.Simulator

/-!
# Where the messages of a link are

A message that was sent and not lost is in one of three places: in the target's inbox, in
the reorder buffer of its link, or in the hands of a call under way. `Network.account` adds
them up. `Outcome` lists what a section of a call can do to its message, and the rest is
read off it: every step adds to the account what it sends, less what it loses.

The simulator may lose a message when the rules are read on a partitioned link, when the
roll is below the drop probability, when the inbox is closed, and when a reset throws the
buffers away. A link that is spared of these loses nothing, whatever happens on the others.
-/

namespace XRaft

open Lib

namespace Task

/-- The call that a flush begins with the messages it has taken, if it took any. -/
def flushing (link : Link) : List RpcEnvelope → List Task
  | [] => []
  | message :: rest => [⟨link, message, .rules, false, rest⟩]

/-- The messages of a link in the hands of a call. -/
def carries (link : Link) (task : Task) : Multiset RpcEnvelope :=
  if task.link = link then task.message ::ₘ task.rest else 0

variable (link : Link) (task : Task)

/-- A call that is done with its message carries the others. -/
theorem carries_next :
    (if task.link = link then {task.message} else 0) + (task.next.toList.map (carries link)).sum =
      task.carries link := by
  unfold next carries
  cases task.rest with
  | nil => split <;> simp
  | cons message rest => split <;> simp_all

/-- Choosing the next stage leaves the messages in the call's hands. -/
@[simp] theorem carries_withStage (stage : Stage) :
    { task with stage := stage }.carries link = task.carries link := rfl

/-- A flush begins by reading the rules. -/
theorem stage_flushing {other : Link} {messages : List RpcEnvelope} {task : Task}
    (h : task ∈ flushing other messages) : task.stage = .rules := by
  cases messages with
  | nil => cases h
  | cons message rest => rw [List.mem_singleton.mp h]

/-- A flush has the messages it has taken in its hands. -/
theorem carries_flushing (other : Link) (messages : List RpcEnvelope) :
    ((flushing other messages).map (carries link)).sum = if other = link then ↑messages else 0 := by
  cases messages with
  | nil => exact (ite_self _).symm
  | cons message rest => simp [flushing, carries]

end Task

namespace SimulatorState

variable (state : SimulatorState) (link other : Link)

@[simp] theorem buffered_setBuffer (buffer : Option (List RpcEnvelope)) :
    (state.setBuffer link buffer).buffered other =
      if other = link then buffer.getD [] else state.buffered other := by
  unfold buffered setBuffer
  dsimp only
  rw [Function.update_apply]
  split <;> rfl

@[simp] theorem buffered_setRules (change : LinkRules → LinkRules) :
    (state.setRules link change).buffered other = state.buffered other := rfl

@[simp] theorem buffered_modifyRules (change : LinkRules → LinkRules) :
    (state.modifyRules link change).buffered other = state.buffered other := rfl

@[simp] theorem reorderBuffers_modifyRules (change : LinkRules → LinkRules) :
    (state.modifyRules link change).reorderBuffers = state.reorderBuffers := rfl

/-- Enabling reordering sets a rule, whatever else it does. -/
theorem linkRules_enableReordering :
    (state.enableReordering link).linkRules =
      (state.setRules link fun rules => { rules with reorder := true }).linkRules := rfl

/-- Setting the rules of a link keeps what the change keeps and the default rules have. -/
theorem setRules_keeps {Q : LinkRules → Prop} {change : LinkRules → LinkRules} {rules : LinkRules}
    (hrules : (state.setRules link change).linkRules other = some rules) (hdefault : Q {})
    (hchange : other = link → ∀ rules, Q rules → Q (change rules))
    (h : ∀ rules, state.linkRules other = some rules → Q rules) : Q rules := by
  unfold setRules at hrules
  dsimp only at hrules
  rw [Function.update_apply] at hrules
  split at hrules
  · rename_i hlink
    subst hlink
    cases hrules
    refine hchange rfl _ ?_
    cases hold : state.linkRules other with
    | none => exact hdefault
    | some old => exact h old hold
  · exact h rules hrules

/-- Modifying the rules of a link keeps what the change keeps. -/
theorem modifyRules_keeps {Q : LinkRules → Prop} {change : LinkRules → LinkRules}
    {rules : LinkRules} (hrules : (state.modifyRules link change).linkRules other = some rules)
    (hchange : other = link → ∀ rules, Q rules → Q (change rules))
    (h : ∀ rules, state.linkRules other = some rules → Q rules) : Q rules := by
  unfold modifyRules at hrules
  dsimp only at hrules
  rw [Function.update_apply] at hrules
  split at hrules
  · rename_i hlink
    subst hlink
    obtain ⟨old, hold, rfl⟩ := Option.map_eq_some_iff.mp hrules
    exact hchange rfl old (h old hold)
  · exact h rules hrules

/-- A link without a buffer has nothing to take out of it. -/
theorem buffered_of_none (h : state.reorderBuffers link = none) :
    [].Perm (state.buffered link) ∧
      state.buffered other = if other = link then [] else state.buffered other := by
  have hempty : state.buffered link = [] := by
    unfold buffered
    rw [h, Option.getD_none]
  refine ⟨by rw [hempty], ?_⟩
  split
  · rename_i hlink
    rw [hlink, hempty]
  · rfl

/-- What a flush takes out of the buffer of its link, up to order. -/
theorem flushReorderBuffer_drains (shuffle : Shuffle) :
    (state.flushReorderBuffer link shuffle).1.Perm (state.buffered link) ∧
      (state.flushReorderBuffer link shuffle).2.buffered other =
        if other = link then [] else state.buffered other := by
  unfold flushReorderBuffer
  cases hbuffer : state.reorderBuffers link with
  | some buffer => exact ⟨by simpa [buffered, hbuffer] using shuffle.2 buffer, by simp⟩
  | none => exact state.buffered_of_none link other hbuffer

/-- What disabling reordering takes out of the buffer of its link, up to order. -/
theorem disableReordering_drains (shuffle : Shuffle) :
    (state.disableReordering link shuffle).1.Perm (state.buffered link) ∧
      (state.disableReordering link shuffle).2.buffered other =
        if other = link then [] else state.buffered other := by
  unfold disableReordering
  dsimp only
  rw [reorderBuffers_modifyRules]
  cases hbuffer : state.reorderBuffers link with
  | some buffer => exact ⟨by simpa [buffered, hbuffer] using shuffle.2 buffer, by simp⟩
  | none => exact state.buffered_of_none link other hbuffer

end SimulatorState

namespace Network

/-- The message a step sends on a link. -/
def Event.sent? (link : Link) : Event → Option RpcEnvelope
  | .send sender message => if sender = link then some message else none
  | _ => none

/-- The messages sent on a link. -/
def sentOn (link : Link) (events : List Event) : List RpcEnvelope :=
  events.filterMap (Event.sent? link)

/-- What a run sends on a link begins with what its first step sends. -/
theorem sentOn_cons (link : Link) (event : Event) (rest : List Event) :
    sentOn link (event :: rest) = (event.sent? link).toList ++ sentOn link rest := by
  cases hsent : event.sent? link with
  | none => simp [sentOn, hsent]
  | some message => simp [sentOn, hsent]

/-- The messages of a link that have reached the inbox or wait in the buffer. -/
def placed (link : Link) (network : Network) : Multiset RpcEnvelope :=
  ↑(network.deliveredOn link) + ↑(network.state.buffered link)

/-- All messages of a link: delivered, buffered, or in the hands of a call. -/
def account (link : Link) (network : Network) : Multiset RpcEnvelope :=
  network.placed link + (network.tasks.map (Task.carries link)).sum

variable {network : Network} {link : Link} {task : Task}

/-- A run goes on from where its first part has led. -/
theorem run_append (network : Network) (before after : List Event) :
    network.run (before ++ after) = (network.run before).run after :=
  List.foldl_append

/-- The entries a run makes in the account of a link are the messages sent on it. -/
theorem sum_sent (link : Link) (events : List Event) :
    (events.map fun event => (↑(event.sent? link).toList : Multiset RpcEnvelope)).sum =
      ↑(sentOn link events) := by
  induction events with
  | nil => rfl
  | cons event rest ih => rw [List.map_cons, List.sum_cons, ih, Multiset.coe_add, sentOn_cons]

/-- Taking a call out of the list takes its share out of a sum over the calls. -/
theorem sum_map_tasks {tasks : List Task} {index : ℕ} {task : Task} (h : tasks[index]? = some task)
    (share : Task → Multiset RpcEnvelope) :
    (tasks.map share).sum = share task + ((tasks.eraseIdx index).map share).sum := by
  obtain ⟨hindex, htask⟩ := List.getElem?_eq_some_iff.mp h
  have hperm := List.getElem_cons_eraseIdx_perm hindex
  rw [htask] at hperm
  rw [← (hperm.map share).sum_eq, List.map_cons, List.sum_cons]

/-- A delivered message counts for the link it came over. -/
theorem deliveredOn_append (delivered : List (Link × RpcEnvelope)) (other : Link)
    (message : RpcEnvelope) :
    ((delivered ++ [(other, message)]).filter fun entry => entry.1 == link).map Prod.snd =
      (delivered.filter fun entry => entry.1 == link).map Prod.snd ++
        if other = link then [message] else [] := by
  rw [List.filter_append, List.map_append]
  by_cases h : other = link
  · simp [h]
  · simp [h]

/-- The messages of a link after one was put into its buffer. -/
theorem placed_push (network : Network) (other : Link) (message : RpcEnvelope) :
    placed link { network with state := network.state.push other message } =
      network.placed link + if other = link then {message} else 0 := by
  unfold placed SimulatorState.push
  rw [SimulatorState.buffered_setBuffer]
  by_cases hlink : link = other
  · subst hlink
    simp only [if_true, Option.getD_some, ← Multiset.coe_add, ← add_assoc]
    rfl
  · rw [if_neg hlink, if_neg (Ne.symm hlink), add_zero]
    rfl

/-- The messages of a link after one was delivered. -/
theorem placed_deliver (network : Network) (other : Link) (message : RpcEnvelope) :
    placed link { network with delivered := network.delivered ++ [(other, message)] } =
      network.placed link + if other = link then {message} else 0 := by
  unfold placed deliveredOn
  rw [deliveredOn_append, ← Multiset.coe_add, add_right_comm]
  split <;> rfl

/-- The next section of the call may lose its message. -/
def Loses (network : Network) (task : Task) : Prop :=
  match task.stage with
  | .rules => network.state.partitions task.link = true
  | .roll _ => True
  | .deliver => network.isOpen task.link.2 = false
  | _ => False

/-- What a section of a call can be. -/
inductive Outcome (network : Network) (task : Task) : Network × Option Task → Prop where
  | lost (hloses : network.Loses task) : Outcome network task (network, task.next)
  | rolling (hstage : task.stage = .rules) (hconnected : network.state.partitions task.link = false)
      (hdrops : 0 < (network.state.faultRules task.link).dropProbability) :
      Outcome network task
        (network, some { task with stage := .roll (network.state.faultRules task.link) })
  | routed (hstage : task.stage = .rules)
      (hconnected : network.state.partitions task.link = false) :
      Outcome network task (network, some (task.route (network.state.faultRules task.link)))
  | spared (rules : FaultRules) (hstage : task.stage = .roll rules) :
      Outcome network task (network, some (task.route rules))
  | delayed (minDelay maxDelay : ℕ) (hstage : task.stage = .delay minDelay maxDelay) :
      Outcome network task (network, some { task with stage := .deliver })
  | buffered (hstage : task.stage = .buffer) :
      Outcome network task
        ({ network with state := network.state.push task.link task.message }, task.next)
  | delivered (hstage : task.stage = .deliver) :
      Outcome network task
        ({ network with delivered := network.delivered ++ [(task.link, task.message)] }, task.next)

/-- Every section of a call has one of these outcomes. -/
theorem outcome (network : Network) (task : Task) (roll : ℚ) :
    Outcome network task (network.advance task roll) := by
  unfold advance
  cases hstage : task.stage with
  | rules =>
    dsimp only
    cases hparted : network.state.partitions task.link with
    | true =>
      rw [if_pos (show (network.state.faultRules task.link).isPartitioned = true from hparted)]
      exact .lost (by simpa only [Loses, hstage] using hparted)
    | false =>
      rw [if_neg (by simp [SimulatorState.faultRules, hparted])]
      split
      · exact .rolling hstage hparted ‹_›
      · exact .routed hstage hparted
  | roll rules =>
    dsimp only
    split
    · exact .lost (by simp only [Loses, hstage])
    · exact .spared rules hstage
  | buffer => exact .buffered hstage
  | delay minDelay maxDelay => exact .delayed minDelay maxDelay hstage
  | deliver =>
    cases hopen : network.isOpen task.link.2 with
    | true => exact .delivered hstage
    | false => exact .lost (by simpa only [Loses, hstage] using hopen)

/-- What the step of a call does: nothing if there is no such call, else one of the outcomes. -/
theorem step_advance (network : Network) (index : ℕ) (roll : ℚ) :
    network.step (.advance index roll) = network ∨ ∃ task after, network.tasks[index]? = some task ∧
      after = network.advance task roll ∧ Outcome network task after ∧
      network.step (.advance index roll) =
        { after.1 with tasks := after.2.toList ++ network.tasks.eraseIdx index } := by
  unfold Network.step
  dsimp only
  cases htask : network.tasks[index]? with
  | none => exact .inl rfl
  | some task => exact .inr ⟨task, _, rfl, rfl, outcome network task roll, rfl⟩

/-- A section of a call changes neither rules nor partitions nor inboxes. -/
theorem Outcome.frame {after : Network × Option Task} (h : Outcome network task after) :
    after.1.state.partitions = network.state.partitions ∧
      after.1.state.linkRules = network.state.linkRules ∧
      after.1.isOpen = network.isOpen := by
  cases h <;> exact ⟨rfl, rfl, rfl⟩

/-- A section of a call moves its message to its place, leaves it in the call's hands, or loses
it. -/
theorem Outcome.placed_add {after : Network × Option Task} (h : Outcome network task after)
    (link : Link) :
    ∃ lost, after.1.placed link + (after.2.toList.map (Task.carries link)).sum + lost =
        network.placed link + task.carries link ∧
          (lost ≠ 0 → task.link = link ∧ network.Loses task) := by
  cases h with
  | lost hloses =>
    refine ⟨if task.link = link then {task.message} else 0, ?_, fun hlost => ⟨?_, hloses⟩⟩
    · rw [add_assoc, add_comm _ (ite _ _ _), task.carries_next]
    · by_contra hother
      exact hlost (if_neg hother)
  | rolling => exact ⟨0, by simp, fun h => absurd rfl h⟩
  | routed => exact ⟨0, by simp [Task.route], fun h => absurd rfl h⟩
  | spared => exact ⟨0, by simp [Task.route], fun h => absurd rfl h⟩
  | delayed => exact ⟨0, by simp, fun h => absurd rfl h⟩
  | buffered =>
    refine ⟨0, ?_, fun h => absurd rfl h⟩
    rw [placed_push, add_zero, add_assoc, task.carries_next]
  | delivered =>
    refine ⟨0, ?_, fun h => absurd rfl h⟩
    rw [placed_deliver, add_zero, add_assoc, task.carries_next]

/-- A control method other than a reset leaves the buffers alone. -/
theorem buffered_control {control : Control} (hreset : control ≠ .reset) (state : SimulatorState)
    (link : Link) : (control.apply state).buffered link = state.buffered link := by
  cases control with
  | enableReordering enabled =>
    unfold Control.apply SimulatorState.enableReordering
    rw [SimulatorState.buffered_setBuffer]
    split
    · rename_i hlink
      rw [hlink]
      rfl
    · rfl
  | reset => exact absurd rfl hreset
  | _ => rfl

/-- Taking a buffer away changes neither rules nor partitions, except that disabling ends the
reordering. -/
theorem drained_frame (state : SimulatorState) (link : Link) (shuffle : Shuffle) :
    (state.flushReorderBuffer link shuffle).2.partitions = state.partitions ∧
      (state.flushReorderBuffer link shuffle).2.linkRules = state.linkRules ∧
      (state.disableReordering link shuffle).2.partitions = state.partitions ∧
      (state.disableReordering link shuffle).2.linkRules =
        (state.modifyRules link fun rules => { rules with reorder := false }).linkRules := by
  unfold SimulatorState.flushReorderBuffer SimulatorState.disableReordering
  dsimp only
  rw [SimulatorState.reorderBuffers_modifyRules]
  cases state.reorderBuffers link <;> exact ⟨rfl, rfl, rfl, rfl⟩

/-- The calls after a flush: the one it begins and the old ones. -/
theorem tasks_deliverAll (network : Network) (other : Link)
    (drained : List RpcEnvelope × SimulatorState) :
    (network.deliverAll other drained).tasks = Task.flushing other drained.1 ++ network.tasks := by
  unfold deliverAll Task.flushing
  cases drained.1 <;> rfl

/-- Taking the messages of a buffer to deliver them loses none. -/
theorem account_deliverAll {other : Link} {drained : List RpcEnvelope × SimulatorState}
    (hperm : drained.1.Perm (network.state.buffered other))
    (hbuffered : drained.2.buffered link =
      if link = other then [] else network.state.buffered link) :
    (network.deliverAll other drained).account link = network.account link := by
  have hplaced : (network.deliverAll other drained).placed link =
      ↑(network.deliveredOn link) + ↑(drained.2.buffered link) := rfl
  unfold account
  rw [hplaced, tasks_deliverAll, List.map_append, List.sum_append, Task.carries_flushing, hbuffered]
  by_cases hlink : link = other
  · subst hlink
    rw [if_pos rfl, if_pos rfl, Multiset.coe_eq_coe.mpr hperm, placed, Multiset.coe_nil, add_zero,
      add_assoc]
  · rw [if_neg hlink, if_neg (Ne.symm hlink), zero_add, placed]

/-- Every step adds to the account of a link what it sends on it, less what is lost: by a reset,
or by the section of a call that may lose its message. -/
theorem account_step_add (network : Network) (event : Event) (link : Link) :
    ∃ lost, (network.step event).account link + lost = network.account link +
      ↑(event.sent? link).toList ∧
      (lost ≠ 0 → event = .control .reset ∨ ∃ task ∈ network.tasks,
        task.link = link ∧ network.Loses task) := by
  have hkept (h : (network.step event).account link =
      network.account link + ↑(event.sent? link).toList) :
      ∃ lost, (network.step event).account link + lost = network.account link +
        ↑(event.sent? link).toList ∧
        (lost ≠ 0 → event = .control .reset ∨ ∃ task ∈ network.tasks,
          task.link = link ∧ network.Loses task) :=
    ⟨0, by rw [add_zero, h], fun hlost => absurd rfl hlost⟩
  cases event with
  | control control =>
    by_cases hreset : control = .reset
    · subst hreset
      refine ⟨↑(network.state.buffered link), ?_, fun _ => .inl rfl⟩
      have hplaced : (network.step (.control .reset)).placed link = ↑(network.deliveredOn link) :=
        add_zero _
      have htasks : (network.step (.control .reset)).tasks = network.tasks := rfl
      unfold account
      rw [hplaced, htasks, placed, add_right_comm]
      exact (add_zero _).symm
    · refine hkept ?_
      have hbuffered := buffered_control hreset network.state link
      unfold Network.step account placed deliveredOn
      dsimp only
      rw [hbuffered]
      exact (add_zero _).symm
  | send other message =>
    refine hkept ?_
    unfold Network.step account
    rw [List.map_cons, List.sum_cons, add_left_comm, add_comm]
    congr 1
    unfold Task.carries Event.sent?
    dsimp only
    split <;> rfl
  | flushReorderBuffer other shuffle =>
    obtain ⟨hperm, hbuffered⟩ := network.state.flushReorderBuffer_drains other link shuffle
    exact hkept ((account_deliverAll hperm hbuffered).trans (add_zero _).symm)
  | disableReordering other shuffle =>
    obtain ⟨hperm, hbuffered⟩ := network.state.disableReordering_drains other link shuffle
    exact hkept ((account_deliverAll hperm hbuffered).trans (add_zero _).symm)
  | advance index roll =>
    obtain hsame | ⟨task, after, htask, -, houtcome, hstep⟩ := network.step_advance index roll
    · exact hkept ((congrArg (account link) hsame).trans (add_zero _).symm)
    · obtain ⟨lost, heq, hcause⟩ := houtcome.placed_add link
      have hplaced : ∀ tasks, placed link { after.1 with tasks := tasks } = after.1.placed link :=
        fun _ => rfl
      refine ⟨lost, ?_, fun hlost => .inr ⟨task, List.mem_of_getElem? htask, hcause hlost⟩⟩
      unfold account
      rw [hstep, hplaced, List.map_append, List.sum_append, ← add_assoc, add_right_comm, heq,
        sum_map_tasks htask, add_assoc]
      exact (add_zero _).symm

/-- Every step adds to the account of a link at most what it sends on it. -/
theorem account_step_le (network : Network) (event : Event) (link : Link) :
    (network.step event).account link ≤ network.account link + ↑(event.sent? link).toList := by
  obtain ⟨lost, heq, -⟩ := network.account_step_add event link
  rw [← heq]
  exact Multiset.le_add_right _ _

/-- A call that turns to its next message stays on its link and reads the rules again. -/
theorem eq_of_next {later : Task} (h : task.next = some later) :
    later.link = task.link ∧ later.stage = .rules := by
  unfold Task.next at h
  cases hrest : task.rest with
  | nil => simp [hrest] at h
  | cons message rest =>
    rw [hrest] at h
    cases h
    exact ⟨rfl, rfl⟩

/-- Past the drop check a call does not roll again. -/
theorem route_ne_roll (task : Task) (rules others : FaultRules) :
    (task.route rules).stage ≠ .roll others := by
  unfold Task.route
  dsimp only
  split
  · exact nofun
  · split
    · split <;> exact nofun
    · exact nofun

/-- A call stays on its link. -/
theorem Outcome.link_eq {after : Network × Option Task} (h : Outcome network task after)
    {later : Task} (hlater : after.2 = some later) : later.link = task.link := by
  cases h with
  | lost => exact (eq_of_next hlater).1
  | buffered => exact (eq_of_next hlater).1
  | delivered => exact (eq_of_next hlater).1
  | _ => cases hlater; rfl

/-- A call comes to roll for a drop on a link with a positive drop probability only. -/
theorem Outcome.rolled {after : Network × Option Task} (h : Outcome network task after)
    {later : Task} (hlater : after.2 = some later) {rules : FaultRules}
    (hstage : later.stage = .roll rules) :
    rules = network.state.faultRules task.link ∧ 0 < rules.dropProbability := by
  have hnone (hnext : task.next = some later) : False := by
    have hrules := (eq_of_next hnext).2
    rw [hstage] at hrules
    cases hrules
  cases h with
  | lost => exact (hnone hlater).elim
  | rolling _ _ hdrops =>
    cases hlater
    cases hstage
    exact ⟨rfl, hdrops⟩
  | routed => cases hlater; exact absurd hstage (route_ne_roll _ _ _)
  | spared => cases hlater; exact absurd hstage (route_ne_roll _ _ _)
  | delayed => cases hlater; cases hstage
  | buffered => exact (hnone hlater).elim
  | delivered => exact (hnone hlater).elim

/-- The calls after a step: the old ones, a new one that will read the rules, and what an old one
has become. -/
theorem mem_tasks_step {event : Event} {later : Task} (h : later ∈ (network.step event).tasks) :
    later ∈ network.tasks ∨ later.stage = .rules ∨
      ∃ task ∈ network.tasks, ∃ after, Outcome network task after ∧ after.2 = some later := by
  have hflush : ∀ other drained, later ∈ (network.deliverAll other drained).tasks →
      later ∈ network.tasks ∨ later.stage = .rules := by
    intro other drained hmem
    rw [tasks_deliverAll] at hmem
    rcases List.mem_append.mp hmem with hnew | hold
    · exact .inr (Task.stage_flushing hnew)
    · exact .inl hold
  cases event with
  | control control => exact .inl h
  | send other message =>
    rcases List.mem_cons.mp h with rfl | hold
    · exact .inr (.inl rfl)
    · exact .inl hold
  | flushReorderBuffer other shuffle => exact (hflush other _ h).imp_right .inl
  | disableReordering other shuffle => exact (hflush other _ h).imp_right .inl
  | advance index roll =>
    obtain hsame | ⟨task, after, htask, -, houtcome, hstep⟩ := network.step_advance index roll
    · rw [hsame] at h
      exact .inl h
    · rw [hstep] at h
      rcases List.mem_append.mp h with hnew | hold
      · exact .inr (.inr ⟨task, List.mem_of_getElem? htask, after, houtcome,
          Option.mem_toList.mp hnew⟩)
      · exact .inl (List.mem_of_mem_eraseIdx hold)

/-- No step opens or closes an inbox. -/
theorem isOpen_step (network : Network) (event : Event) :
    (network.step event).isOpen = network.isOpen := by
  cases event with
  | advance index roll =>
    obtain hsame | ⟨task, after, -, -, houtcome, hstep⟩ := network.step_advance index roll
    · rw [hsame]
    · rw [hstep]
      exact houtcome.frame.2.2
  | _ => rfl

/-- Only control methods change partitions. -/
theorem partitions_step (network : Network) (event : Event) :
    (network.step event).state.partitions = match event with
      | .control control => (control.apply network.state).partitions
      | _ => network.state.partitions := by
  cases event with
  | control => rfl
  | send => rfl
  | flushReorderBuffer other shuffle => exact (drained_frame network.state other shuffle).1
  | disableReordering other shuffle => exact (drained_frame network.state other shuffle).2.2.1
  | advance index roll =>
    obtain hsame | ⟨task, after, -, -, houtcome, hstep⟩ := network.step_advance index roll
    · rw [hsame]
    · rw [hstep]
      exact houtcome.frame.1

/-- Only control methods, and the end of reordering, change the rules of a link. -/
theorem linkRules_step (network : Network) (event : Event) :
    (network.step event).state.linkRules = match event with
      | .control control => (control.apply network.state).linkRules
      | .disableReordering other _ =>
        (network.state.modifyRules other fun rules => { rules with reorder := false }).linkRules
      | _ => network.state.linkRules := by
  cases event with
  | control => rfl
  | send => rfl
  | flushReorderBuffer other shuffle => exact (drained_frame network.state other shuffle).2.1
  | disableReordering other shuffle => exact (drained_frame network.state other shuffle).2.2.2
  | advance index roll =>
    obtain hsame | ⟨task, after, -, -, houtcome, hstep⟩ := network.step_advance index roll
    · rw [hsame]
    · rw [hstep]
      exact houtcome.frame.2.1

/-- The step neither partitions a link, nor makes it drop messages, nor resets the simulator. -/
def Event.Spares (link : Link) : Event → Prop
  | .control (.setDropProbability dropped probability) => dropped = link → probability ≤ 0
  | .control (.partition setA setB) =>
    ¬ (link.1 ∈ setA ∧ link.2 ∈ setB) ∧ ¬ (link.1 ∈ setB ∧ link.2 ∈ setA)
  | .control (.partitionOneWay parted) => parted ≠ link
  | .control .reset => False
  | _ => True

/-- A link that is neither partitioned nor drops messages, with an open inbox behind it. -/
structure Spared (link : Link) (network : Network) : Prop where
  connected : network.state.partitions link = false
  undropped : ∀ rules, network.state.linkRules link = some rules → rules.dropProbability ≤ 0
  unrolled : ∀ task ∈ network.tasks, task.link = link → ∀ rules, task.stage ≠ .roll rules
  isOpen : network.isOpen link.2 = true

/-- Every link of a created network with an inbox behind it is spared. -/
theorem create_spared {nodeIds : List NodeId} (hopen : link.2 ∈ nodeIds) :
    (create nodeIds).Spared link :=
  ⟨rfl, nofun, fun _ htask => absurd htask List.not_mem_nil, List.contains_iff_mem.mpr hopen⟩

/-- No call loses a message of a link that is spared. -/
theorem Spared.keeps (h : network.Spared link) (hmem : task ∈ network.tasks)
    (hlink : task.link = link) : ¬ network.Loses task := by
  subst hlink
  unfold Loses
  cases hstage : task.stage with
  | rules => simp [h.connected]
  | roll rules => exact absurd hstage (h.unrolled task hmem rfl rules)
  | buffer => exact id
  | delay => exact id
  | deliver => simp [h.isOpen]

/-- A control method that spares a link leaves it connected. -/
theorem connected_apply {control : Control} (hspares : (Event.control control).Spares link)
    {state : SimulatorState} (h : state.partitions link = false) :
    (control.apply state).partitions link = false := by
  cases control with
  | partition setA setB =>
    obtain ⟨hforth, hback⟩ := hspares
    simp only [Control.apply, h, Bool.false_or, Bool.or_eq_false_iff, Bool.and_eq_false_iff,
      List.contains_eq_mem, decide_eq_false_iff_not]
    exact ⟨not_and_or.mp hforth, not_and_or.mp hback⟩
  | partitionOneWay parted =>
    simp only [Event.Spares] at hspares
    simp [Control.apply, hspares.symm, h]
  | healPartition => rfl
  | healLink healed =>
    simp only [Control.apply, Function.update_apply]
    split
    · rfl
    · exact h
  | reset => rfl
  | _ => exact h

/-- A control method that spares a link does not make it drop messages. -/
theorem undropped_apply {control : Control} (hspares : (Event.control control).Spares link)
    (state : SimulatorState)
    (h : ∀ rules, state.linkRules link = some rules → rules.dropProbability ≤ 0) (rules : LinkRules)
    (hrules : (control.apply state).linkRules link = some rules) : rules.dropProbability ≤ 0 := by
  unfold Control.apply at hrules
  cases control with
  | setDropProbability dropped probability =>
    refine state.setRules_keeps dropped link hrules (le_refl (0 : ℚ)) (fun hlink _ _ => ?_) h
    have hle : probability ≤ 0 := hspares hlink.symm
    dsimp only
    split
    · exact le_rfl
    · rw [if_neg (not_lt.mpr (hle.trans zero_le_one))]
      exact hle
  | setDelay delayed =>
    exact state.setRules_keeps delayed link hrules (le_refl (0 : ℚ)) (fun _ _ hle => hle) h
  | clearDelay delayed => exact state.modifyRules_keeps delayed link hrules (fun _ _ hle => hle) h
  | enableReordering enabled =>
    have hset := (congrFun (state.linkRules_enableReordering enabled) link).symm.trans hrules
    exact state.setRules_keeps enabled link hset (le_refl (0 : ℚ)) (fun _ _ hle => hle) h
  | reset => exact absurd hspares id
  | _ => exact h rules hrules

/-- A step that spares a link leaves it spared, whatever it does to the others. -/
theorem Spared.step (h : network.Spared link) {event : Event} (hspares : event.Spares link) :
    (network.step event).Spared link where
  connected := by
    rw [partitions_step]
    cases event with
    | control control => exact connected_apply hspares h.connected
    | _ => exact h.connected
  undropped := by
    rw [linkRules_step]
    cases event with
    | control control => exact undropped_apply hspares network.state h.undropped
    | disableReordering other shuffle =>
      intro rules hrules
      exact network.state.modifyRules_keeps other link hrules (fun _ _ hle => hle) h.undropped
    | _ => exact h.undropped
  unrolled := by
    intro later hlater hlink rules hstage
    rcases mem_tasks_step hlater with hold | hfresh | ⟨task, htask, after, houtcome, hadvanced⟩
    · exact h.unrolled later hold hlink rules hstage
    · rw [hfresh] at hstage
      cases hstage
    · obtain ⟨rfl, hdrops⟩ := houtcome.rolled hadvanced hstage
      rw [← houtcome.link_eq hadvanced, hlink] at hdrops
      unfold SimulatorState.faultRules at hdrops
      cases hrules : network.state.linkRules link with
      | none => simp [hrules] at hdrops
      | some old =>
        exact absurd (h.undropped old hrules) (not_le.mpr (by simpa [hrules] using hdrops))
  isOpen := by
    rw [isOpen_step]
    exact h.isOpen

/-- Every step that spares a link adds to its account what it sends on it. -/
theorem Spared.account_step (h : network.Spared link) {event : Event}
    (hspares : event.Spares link) :
    (network.step event).account link = network.account link + ↑(event.sent? link).toList := by
  obtain ⟨lost, heq, hcause⟩ := network.account_step_add event link
  have hnone : lost = 0 := by
    by_contra hlost
    rcases hcause hlost with rfl | ⟨task, hmem, hlink, hloses⟩
    · exact hspares
    · exact h.keeps hmem hlink hloses
  rw [← heq, hnone, add_zero]

/-- After a run that spares a link, all messages sent on it are in its account. -/
theorem Spared.account_run (h : network.Spared link) {events : List Event}
    (hspares : ∀ event ∈ events, event.Spares link) :
    (network.run events).account link = network.account link + ↑(sentOn link events) := by
  have haccount := foldl_account Network.step (Spared link) (account link)
    (fun event => (↑(event.sent? link).toList : Multiset RpcEnvelope))
    (fun _ _ h hevent => h.step hevent) (fun _ _ h hevent => h.account_step hevent) h hspares
  rw [sum_sent] at haccount
  exact haccount

end Network

end XRaft
