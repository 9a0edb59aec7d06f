import XRaft.Transport.Accounts

/-!
# What reordering does to the messages of a link

`disable_reordering` takes the buffer away, and no send that reads the rules afterwards
will buffer its message. A send that read them before will. What is left in the buffer at
the end are the messages of the sends that were between their two critical sections when
the last `disable_reordering` took the lock.
-/

namespace XRaft

open Lib

namespace Task

/-- The call has read that the link reorders and is about to buffer its message there. -/
def AboutToBuffer (link : Link) (task : Task) : Prop := task.link = link ∧ task.stage = .buffer

instance (link : Link) (task : Task) : Decidable (task.AboutToBuffer link) :=
  inferInstanceAs (Decidable (_ ∧ _))

/-- The message a call is about to buffer on a link. -/
def buffering (link : Link) (task : Task) : Multiset RpcEnvelope :=
  if task.AboutToBuffer link then {task.message} else 0

variable (link : Link) (task : Task)

/-- A call that turns to its next message is not about to buffer it. -/
theorem buffering_next : (task.next.toList.map (buffering link)).sum = 0 := by
  unfold next
  cases task.rest with
  | nil => rfl
  | cons message rest => simp [buffering, AboutToBuffer]

/-- A flush begins with nothing about to be buffered. -/
theorem buffering_flushing (other : Link) (messages : List RpcEnvelope) :
    ((flushing other messages).map (buffering link)).sum = 0 := by
  cases messages with
  | nil => rfl
  | cons message rest => simp [flushing, buffering, AboutToBuffer]

/-- A call at another stage is not about to buffer. -/
theorem buffering_of_stage_ne {task : Task} (h : task.stage ≠ .buffer) : task.buffering link = 0 :=
  if_neg fun habout => h habout.2

/-- A call on another link is not about to buffer. -/
theorem buffering_of_link_ne {task : Task} (h : task.link ≠ link) : task.buffering link = 0 :=
  if_neg fun habout => h habout.1

/-- On a link that does not reorder the next stage is never to buffer. -/
theorem route_ne_buffer {task : Task} {rules : FaultRules} (h : rules.reorder = false) :
    (task.route rules).stage ≠ .buffer := by
  simp only [Task.route, h, Bool.and_false, Bool.false_eq_true, if_false]
  split
  · split <;> simp
  · simp

end Task

namespace Network

/-- The step partitions nothing, drops nothing and does not reset the simulator. -/
def Event.Benign : Event → Prop
  | .control (.setDropProbability _ probability) => probability ≤ 0
  | .control (.partition _ _) => False
  | .control (.partitionOneWay _) => False
  | .control .reset => False
  | _ => True

/-- The step is a control call for reordering on a link. -/
def Event.Controls (link : Link) : Event → Prop
  | .control (.enableReordering controlled) => controlled = link
  | .flushReorderBuffer controlled _ => controlled = link
  | .disableReordering controlled _ => controlled = link
  | _ => False

/-- The messages of a link that are buffered or about to be. -/
def waiting (link : Link) (network : Network) : Multiset RpcEnvelope :=
  ↑(network.state.buffered link) + (network.tasks.map (Task.buffering link)).sum

variable {network : Network} {link : Link} {task : Task}

/-- A benign step spares every link. -/
theorem Event.Benign.spares {event : Event} (h : event.Benign) (link : Link) :
    event.Spares link := by
  cases event with
  | control control =>
    cases control with
    | setDropProbability => exact fun _ => h
    | partition => exact absurd h id
    | partitionOneWay => exact absurd h id
    | reset => exact h
    | _ => trivial
  | _ => trivial

/-- On a link that does not reorder, a section of a call buffers only what was about to be
buffered. -/
theorem Outcome.waiting {after : Network × Option Task} (h : Outcome network task after)
    (hreorder : (network.state.faultRules link).reorder = false)
    (hunrolled : task.link = link → ∀ rules, task.stage ≠ .roll rules) :
    (after.1.state.buffered link : Multiset RpcEnvelope) +
        (after.2.toList.map (Task.buffering link)).sum =
      ↑(network.state.buffered link) + task.buffering link := by
  have hnone (hstage : task.stage ≠ .buffer) : task.buffering link = 0 :=
    Task.buffering_of_stage_ne link hstage
  cases h with
  | lost hloses =>
    rw [task.buffering_next, hnone]
    intro hstage
    simp [Loses, hstage] at hloses
  | rolling hstage =>
    rw [hnone (by simp [hstage])]
    simp [Task.buffering, Task.AboutToBuffer]
  | routed hstage =>
    have hrouted : (task.route (network.state.faultRules task.link)).buffering link = 0 := by
      by_cases hlink : task.link = link
      · exact Task.buffering_of_stage_ne link (Task.route_ne_buffer (hlink ▸ hreorder))
      · exact Task.buffering_of_link_ne link hlink
    rw [hnone (by simp [hstage])]
    simp [hrouted]
  | spared rules hstage =>
    -- the rules may have been read while the link reordered, but on this link no call rolls
    have hlink : task.link ≠ link := fun heq => hunrolled heq rules hstage
    have hrouted : (task.route rules).buffering link = 0 := Task.buffering_of_link_ne link hlink
    rw [hnone (by simp [hstage])]
    simp [hrouted]
  | delayed minDelay maxDelay hstage =>
    rw [hnone (by simp [hstage])]
    simp [Task.buffering, Task.AboutToBuffer]
  | delivered hstage => rw [task.buffering_next, hnone (by simp [hstage])]
  | buffered hstage =>
    rw [task.buffering_next, add_zero]
    unfold Task.buffering SimulatorState.push
    rw [SimulatorState.buffered_setBuffer]
    by_cases hlink : link = task.link
    · subst hlink
      rw [if_pos rfl, if_pos ⟨rfl, hstage⟩, Option.getD_some, ← Multiset.coe_add]
      rfl
    · rw [if_neg hlink, if_neg fun h => hlink h.1.symm, add_zero]

/-- Only `enable_reordering` makes a link reorder. -/
theorem unordered_apply {control : Control} (henables : control ≠ .enableReordering link)
    (state : SimulatorState)
    (h : ∀ rules, state.linkRules link = some rules → rules.reorder = false)
    (rules : LinkRules) (hrules : (control.apply state).linkRules link = some rules) :
    rules.reorder = false := by
  have hdefault : ({} : LinkRules).reorder = false := rfl
  unfold Control.apply at hrules
  cases control with
  | setDropProbability dropped =>
    exact state.setRules_keeps dropped link hrules hdefault (fun _ _ hoff => hoff) h
  | setDelay delayed =>
    exact state.setRules_keeps delayed link hrules hdefault (fun _ _ hoff => hoff) h
  | clearDelay delayed =>
    exact state.modifyRules_keeps delayed link hrules (fun _ _ hoff => hoff) h
  | enableReordering enabled =>
    have hset := (congrFun (state.linkRules_enableReordering enabled) link).symm.trans hrules
    refine state.setRules_keeps enabled link hset hdefault (fun hlink => ?_) h
    exact absurd (congrArg Control.enableReordering hlink.symm) henables
  | reset => cases hrules
  | _ => exact h rules hrules

/-- A link that does not reorder does not until a step enables it. -/
theorem unordered_step {event : Event} (henables : event ≠ .control (.enableReordering link))
    (h : ∀ rules, network.state.linkRules link = some rules → rules.reorder = false) :
    ∀ rules, (network.step event).state.linkRules link = some rules → rules.reorder = false := by
  rw [linkRules_step]
  cases event with
  | control control =>
    exact unordered_apply (fun heq => henables (congrArg Event.control heq)) network.state h
  | disableReordering other shuffle =>
    intro rules hrules
    exact network.state.modifyRules_keeps other link hrules (fun _ _ _ => rfl) h
  | _ => exact h

/-- On a link that does not reorder a call reads so. -/
theorem faultRules_unordered {state : SimulatorState}
    (h : ∀ rules, state.linkRules link = some rules → rules.reorder = false) :
    (state.faultRules link).reorder = false := by
  unfold SimulatorState.faultRules
  cases hrules : state.linkRules link with
  | none => rfl
  | some rules => exact h rules hrules

/-- Taking the messages of a buffer to deliver them leaves those about to be buffered. -/
theorem waiting_deliverAll {other : Link} {drained : List RpcEnvelope × SimulatorState}
    (hbuffered : drained.2.buffered link =
      if link = other then [] else network.state.buffered link) :
    (network.deliverAll other drained).waiting link =
      if link = other then (network.tasks.map (Task.buffering link)).sum
      else network.waiting link := by
  have hstate : (network.deliverAll other drained).state = drained.2 := rfl
  unfold waiting
  rw [hstate, tasks_deliverAll, List.map_append, List.sum_append, Task.buffering_flushing, zero_add,
    hbuffered]
  split
  · rw [Multiset.coe_nil, zero_add]
  · rfl

/-- A link that is spared and does not reorder. -/
structure Unordered (link : Link) (network : Network) : Prop extends network.Spared link where
  unordered : ∀ rules, network.state.linkRules link = some rules → rules.reorder = false

/-- Only `enable_reordering` starts to reorder a link. -/
theorem Unordered.step (h : network.Unordered link) {event : Event} (hspares : event.Spares link)
    (hcontrol : ¬ event.Controls link) : (network.step event).Unordered link := by
  refine ⟨h.toSpared.step hspares, unordered_step ?_ h.unordered⟩
  rintro rfl
  exact hcontrol rfl

/-- Disabling reordering on a link ends it there. -/
theorem Spared.disableReordering (h : network.Spared link) (shuffle : Shuffle) :
    (network.step (.disableReordering link shuffle)).Unordered link := by
  refine ⟨h.step trivial, fun rules hrules => ?_⟩
  rw [linkRules_step] at hrules
  simp only [SimulatorState.modifyRules, Function.update_self] at hrules
  obtain ⟨old, -, rfl⟩ := Option.map_eq_some_iff.mp hrules
  rfl

/-- While a link does not reorder, no step but a control call changes what is buffered or about
to be. -/
theorem Unordered.waiting_step (h : network.Unordered link) {event : Event}
    (hspares : event.Spares link) (hcontrol : ¬ event.Controls link) :
    (network.step event).waiting link = network.waiting link := by
  cases event with
  | control control =>
    have hreset : control ≠ .reset := by
      rintro rfl
      exact hspares
    unfold Network.step waiting
    dsimp only
    rw [buffered_control hreset]
  | send other message =>
    unfold Network.step waiting
    rw [List.map_cons, List.sum_cons, Task.buffering, if_neg (fun h => nomatch h.2), zero_add]
  | flushReorderBuffer other shuffle =>
    have hdrains := network.state.flushReorderBuffer_drains other link shuffle
    exact (waiting_deliverAll hdrains.2).trans (if_neg fun heq => hcontrol heq.symm)
  | disableReordering other shuffle =>
    have hdrains := network.state.disableReordering_drains other link shuffle
    exact (waiting_deliverAll hdrains.2).trans (if_neg fun heq => hcontrol heq.symm)
  | advance index roll =>
    obtain hsame | ⟨task, after, htask, -, houtcome, hstep⟩ := network.step_advance index roll
    · rw [hsame]
    · have hunrolled := h.unrolled task (List.mem_of_getElem? htask)
      have hwaiting := houtcome.waiting (faultRules_unordered h.unordered) hunrolled
      unfold waiting
      rw [hstep, List.map_append, List.sum_append, ← add_assoc, hwaiting, add_assoc,
        sum_map_tasks htask]

/-- What is buffered after all calls have finished are the messages that were about to be
buffered when the last `disable_reordering` took the lock. -/
theorem buffered_run {nodeIds : List NodeId} (hopen : link.2 ∈ nodeIds) {shuffle : Shuffle}
    {before after : List Event}
    (hspares : ∀ event ∈ before ++ .disableReordering link shuffle :: after, event.Spares link)
    (hlast : ∀ event ∈ after, ¬ event.Controls link)
    (hfinished : ((create nodeIds).run
      (before ++ .disableReordering link shuffle :: after)).tasks = []) :
    (((create nodeIds).run
        (before ++ .disableReordering link shuffle :: after)).state.buffered link :
        Multiset RpcEnvelope) =
      (((create nodeIds).run before).tasks.map (Task.buffering link)).sum := by
  obtain ⟨hbefore, hrest⟩ := List.forall_mem_append.mp hspares
  obtain ⟨-, hafter⟩ := List.forall_mem_cons.mp hrest
  have hspared : ((create nodeIds).run before).Spared link :=
    foldl_keeps step (Spared link) (fun _ _ h hevent => h.step hevent) (create_spared hopen) hbefore
  have hdisabled := hspared.disableReordering shuffle
  have hquiet : ∀ event ∈ after, event.Spares link ∧ ¬ event.Controls link :=
    fun event hevent => ⟨hafter event hevent, hlast event hevent⟩
  have hwaiting := foldl_account step (Unordered link) (waiting link) (fun _ => 0)
    (fun _ _ h hevent => h.step hevent.1 hevent.2)
    (fun _ _ h hevent => (h.waiting_step hevent.1 hevent.2).trans (add_zero _).symm)
    hdisabled hquiet
  have hdrained :=
    (((create nodeIds).run before).state.disableReordering_drains link link shuffle).2
  have hzero : (after.map fun _ => (0 : Multiset RpcEnvelope)).sum = 0 := by simp
  rw [hzero, add_zero] at hwaiting
  rw [run_append] at hfinished ⊢
  generalize (create nodeIds).run before = disabled at hwaiting hdrained hfinished ⊢
  change (List.foldl step (disabled.step (.disableReordering link shuffle)) after).tasks =
    [] at hfinished
  rw [waiting, hfinished, List.map_nil, List.sum_nil, add_zero] at hwaiting
  exact hwaiting.trans ((waiting_deliverAll hdrained).trans (if_pos rfl))

/-- Nothing is about to be buffered on a link if no call is about to buffer there. -/
theorem sum_buffering_eq_zero_iff (link : Link) (tasks : List Task) :
    (tasks.map (Task.buffering link)).sum = 0 ↔ ∀ task ∈ tasks, ¬ task.AboutToBuffer link := by
  induction tasks with
  | nil => simp
  | cons task rest ih =>
    rw [List.map_cons, List.sum_cons, add_eq_zero, ih, List.forall_mem_cons, Task.buffering]
    split <;> simp_all

/-- When all calls have finished and the last control call on a link was `disable_reordering`,
every message sent on the link was delivered once and its buffer is empty, exactly if no send was
about to buffer its message there when that call took the lock. -/
theorem reordering_loses_nothing_iff {nodeIds : List NodeId} (hopen : link.2 ∈ nodeIds)
    {shuffle : Shuffle} {before after : List Event}
    (hbenign : ∀ event ∈ before ++ .disableReordering link shuffle :: after, event.Benign)
    (hlast : ∀ event ∈ after, ¬ event.Controls link)
    (hfinished : ((create nodeIds).run
      (before ++ .disableReordering link shuffle :: after)).tasks = []) :
    (((create nodeIds).run
        (before ++ .disableReordering link shuffle :: after)).deliveredOn link).Perm
        (sentOn link (before ++ .disableReordering link shuffle :: after)) ∧
      ((create nodeIds).run
        (before ++ .disableReordering link shuffle :: after)).state.buffered link = [] ↔
    ∀ task ∈ ((create nodeIds).run before).tasks, ¬ task.AboutToBuffer link := by
  have hspares : ∀ event ∈ before ++ .disableReordering link shuffle :: after, event.Spares link :=
    fun event hevent => (hbenign event hevent).spares link
  have haccount := (create_spared hopen).account_run hspares
  have hbuffered := buffered_run hopen hspares hlast hfinished
  have hcreated : (create nodeIds).account link = 0 := rfl
  rw [hcreated, zero_add, account, placed, hfinished, List.map_nil, List.sum_nil, add_zero]
    at haccount
  rw [← sum_buffering_eq_zero_iff, ← hbuffered, Multiset.coe_eq_zero]
  refine ⟨fun h => h.2, fun hempty => ⟨?_, hempty⟩⟩
  rw [hempty, Multiset.coe_nil, add_zero] at haccount
  exact Multiset.coe_eq_coe.mp haccount

/-- The order in which the random generator leaves the messages here. -/
def unshuffled : Shuffle := ⟨id, fun _ => List.Perm.refl _⟩

/-- A message from node 1 to node 2. -/
def probe : RpcEnvelope := ⟨7, 0, 1, .voteResponse ⟨1, true, false⟩⟩

/-- Reordering is enabled, a message is sent and buffered, reordering is disabled and the message
delivered. -/
theorem reordering_delivers_probe :
    (((create [1, 2]).run
        ([.control (.enableReordering (1, 2)), .send (1, 2) probe, .advance 0 0, .advance 0 0] ++
        .disableReordering (1, 2) unshuffled ::
          [.advance 0 0, .advance 0 0])).deliveredOn (1, 2)).Perm [probe] ∧
      ((create [1, 2]).run
        ([.control (.enableReordering (1, 2)), .send (1, 2) probe, .advance 0 0, .advance 0 0] ++
        .disableReordering (1, 2) unshuffled ::
          [.advance 0 0, .advance 0 0])).state.buffered (1, 2) = [] := by
  refine (reordering_loses_nothing_iff (by decide) ?_ ?_ (by decide +kernel)).mpr
    (by decide +kernel)
  · simp [Event.Benign]
  · simp [Event.Controls]

/-- A send reads that the link reorders, `disable_reordering` empties the buffer and ends, then
the send buffers its message: all calls have finished and the message is stuck. -/
theorem reordering_strands_probe :
    ((create [1, 2]).run
        ([.control (.enableReordering (1, 2)), .send (1, 2) probe, .advance 0 0] ++
        .disableReordering (1, 2) unshuffled :: [.advance 0 0])).tasks = [] ∧
      ((create [1, 2]).run
        ([.control (.enableReordering (1, 2)), .send (1, 2) probe, .advance 0 0] ++
        .disableReordering (1, 2) unshuffled :: [.advance 0 0])).deliveredOn (1, 2) = [] ∧
      ((create [1, 2]).run
        ([.control (.enableReordering (1, 2)), .send (1, 2) probe, .advance 0 0] ++
        .disableReordering (1, 2) unshuffled ::
          [.advance 0 0])).state.buffered (1, 2) = [probe] := by
  decide +kernel

end Network

end XRaft
