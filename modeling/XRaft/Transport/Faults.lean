import XRaft.Transport.Reordering

/-!
# What the simulated network does under faults

Whatever the faults and the interleaving, nothing is delivered that was not sent, and
nothing more often than it was sent. A link that is spared loses nothing, whatever happens
on the others. A partition stops every message that has not yet passed the check of the
rules. Without reordering, a sender that awaits its sends is heard in order.
-/

namespace XRaft

open Lib

namespace Network

variable {network : Network} {link : Link} {task : Task}

/-- Whatever the faults and the interleaving, the messages of a link that are delivered, buffered
or in the hands of a call are, counted with multiplicity, among those sent on it. -/
theorem account_le_sent (nodeIds : List NodeId) (events : List Event) (link : Link) :
    ((create nodeIds).run events).account link ≤ ↑(sentOn link events) := by
  have hany : ∀ event ∈ events, (fun _ : Event => True) event := fun _ _ => trivial
  have haccount : ((create nodeIds).run events).account link ≤ (create nodeIds).account link +
      (events.map fun event => (↑(event.sent? link).toList : Multiset RpcEnvelope)).sum :=
    foldl_account_le step (fun _ => True) (account link) _ (fun _ _ _ _ => trivial)
      (fun network event _ _ => network.account_step_le event link) trivial hany
  rw [sum_sent] at haccount
  exact haccount.trans (zero_add _).le

/-- Faults on other links do not reach a link that is spared: whatever the interleaving, each
message sent on it is delivered, buffered or in the hands of a call, once. -/
theorem account_eq_sent {nodeIds : List NodeId} {link : Link} (hopen : link.2 ∈ nodeIds)
    {events : List Event} (hspares : ∀ event ∈ events, event.Spares link) :
    ((create nodeIds).run events).account link = ↑(sentOn link events) := by
  have haccount := (create_spared hopen).account_run hspares
  exact haccount.trans (zero_add _)

/-- One direction is cut off and dropped from, and the other, delayed and reordered, loses
nothing. -/
theorem account_eq_sent_probe :
    ((create [1, 2]).run [.control (.partitionOneWay (2, 1)),
        .control (.setDropProbability (2, 1) 1), .control (.setDelay (1, 2) 1 4),
        .control (.enableReordering (1, 2)), .send (1, 2) probe, .advance 0 0, .advance 0 0,
        .flushReorderBuffer (1, 2) unshuffled]).account (1, 2) = {probe} := by
  refine account_eq_sent (by decide) ?_
  simp [Event.Spares]

/-- The control method partitions a link. -/
def Parts (link : Link) : Control → Prop
  | .partition setA setB => (link.1 ∈ setA ∧ link.2 ∈ setB) ∨ (link.1 ∈ setB ∧ link.2 ∈ setA)
  | .partitionOneWay parted => parted = link
  | _ => False

/-- The step may end the partition of a link. -/
def Event.Heals (link : Link) : Event → Prop
  | .control .healPartition => True
  | .control (.healLink healed) => healed = link
  | .control .reset => True
  | _ => False

/-- The message of a call on a link that has passed the check for partitions and is not to be
buffered. -/
def passes (link : Link) (task : Task) : Multiset RpcEnvelope :=
  if task.link = link ∧ task.stage ≠ .rules ∧ task.stage ≠ .buffer then {task.message} else 0

/-- The messages of a link that have passed the check for partitions and will be delivered
directly. -/
def passing (link : Link) (network : Network) : Multiset RpcEnvelope :=
  (network.tasks.map (passes link)).sum

/-- A partitioned link stays so until it is healed. -/
theorem parted_step {event : Event} (hholds : ¬ event.Heals link)
    (h : network.state.partitions link = true) :
    (network.step event).state.partitions link = true := by
  rw [partitions_step]
  cases event with
  | control control =>
    cases control with
    | healPartition => exact absurd trivial hholds
    | reset => exact absurd trivial hholds
    | healLink healed =>
      have hother : link ≠ healed := fun heq => hholds heq.symm
      simpa [Control.apply, hother] using h
    | partition setA setB => simp [Control.apply, h]
    | partitionOneWay parted =>
      simp only [Control.apply, Function.update_apply]
      split
      · rfl
      · exact h
    | _ => exact h
  | _ => exact h

/-- A call that turns to its next message has not passed the check. -/
theorem passes_next (link : Link) (task : Task) : (task.next.toList.map (passes link)).sum = 0 := by
  cases hnext : task.next with
  | none => rfl
  | some later => simp [passes, (eq_of_next hnext).2]

/-- A call on another link passes nothing. -/
theorem passes_of_ne (h : task.link ≠ link) : passes link task = 0 :=
  if_neg fun hpasses => h hpasses.1

/-- On a partitioned link a section of a call delivers only what had passed the check. -/
theorem Outcome.passes_le {after : Network × Option Task} (h : Outcome network task after)
    (hparted : network.state.partitions link = true) :
    (after.1.deliveredOn link : Multiset RpcEnvelope) + (after.2.toList.map (passes link)).sum ≤
      ↑(network.deliveredOn link) + passes link task := by
  have hchecked (hconnected : network.state.partitions task.link = false) : task.link ≠ link := by
    rintro rfl
    rw [hparted] at hconnected
    cases hconnected
  cases h with
  | lost =>
    rw [passes_next]
    exact add_le_add_right (Multiset.zero_le _) _
  | rolling _ hconnected => simp [passes_of_ne, hchecked hconnected]
  | routed _ hconnected => simp [passes, Task.route, hchecked hconnected]
  | spared rules hstage =>
    refine add_le_add_right ?_ _
    simp only [Option.toList_some, List.map_cons, List.map_nil, List.sum_cons,
      List.sum_nil, add_zero]
    by_cases hlink : task.link = link
    · simp only [passes, hlink, hstage, ne_eq, reduceCtorEq, not_false_eq_true, and_self, if_true]
      split
      · exact le_rfl
      · exact Multiset.zero_le _
    · rw [passes_of_ne (show (task.route rules).link ≠ link from hlink)]
      exact Multiset.zero_le _
  | delayed minDelay maxDelay hstage => simp [passes, hstage]
  | buffered hstage =>
    rw [passes_next]
    exact add_le_add_right (Multiset.zero_le _) _
  | delivered hstage =>
    rw [passes_next, add_zero]
    unfold deliveredOn passes
    rw [deliveredOn_append, ← Multiset.coe_add]
    by_cases hlink : task.link = link
    · simp [hlink, hstage]
    · simp [hlink]

/-- While a link is partitioned, no step increases what is delivered on it or has passed the
check. -/
theorem passing_step (hparted : network.state.partitions link = true) (event : Event) :
    ((network.step event).deliveredOn link : Multiset RpcEnvelope) +
      (network.step event).passing link ≤
      ↑(network.deliveredOn link) + network.passing link := by
  have hflush : ∀ other drained, (network.deliverAll other drained).passing link =
      network.passing link := by
    intro other drained
    unfold passing
    rw [tasks_deliverAll, List.map_append, List.sum_append]
    cases drained.1 with
    | nil => exact zero_add _
    | cons message rest => simp [Task.flushing, passes]
  cases event with
  | control control => exact le_rfl
  | send other message => simp [Network.step, passing, passes, deliveredOn]
  | flushReorderBuffer other shuffle => exact add_le_add_right (hflush other _).le _
  | disableReordering other shuffle => exact add_le_add_right (hflush other _).le _
  | advance index roll =>
    obtain hsame | ⟨task, after, htask, -, houtcome, hstep⟩ := network.step_advance index roll
    · rw [hsame]
    · have hplaced : ∀ tasks, deliveredOn { after.1 with tasks := tasks } link =
        after.1.deliveredOn link :=
        fun _ => rfl
      unfold passing
      rw [hstep, hplaced, List.map_append, List.sum_append, ← add_assoc,
        sum_map_tasks htask (passes link), ← add_assoc]
      exact add_le_add_left (houtcome.passes_le hparted) _

/-- A section of a call delivers nothing on a link, or its message, with which it is then done. -/
theorem Outcome.deliveredOn_eq {after : Network × Option Task} (h : Outcome network task after)
    (link : Link) :
    after.1.deliveredOn link = network.deliveredOn link ∨
      (task.link = link ∧ after.1.deliveredOn link = network.deliveredOn link ++ [task.message] ∧
        after.2 = task.next) := by
  cases h with
  | delivered =>
    unfold deliveredOn
    rw [deliveredOn_append]
    by_cases hlink : task.link = link
    · exact .inr ⟨hlink, by rw [if_pos hlink], rfl⟩
    · exact .inl (by rw [if_neg hlink, List.append_nil])
  | _ => exact .inl rfl

/-- The inboxes only grow. -/
theorem deliveredOn_step (network : Network) (event : Event) (link : Link) :
    network.deliveredOn link <+: (network.step event).deliveredOn link := by
  cases event with
  | advance index roll =>
    obtain hsame | ⟨task, after, -, -, houtcome, hstep⟩ := network.step_advance index roll
    · rw [hsame]
    · have hsame : (network.step (.advance index roll)).deliveredOn link =
          after.1.deliveredOn link := by
        rw [hstep]
        rfl
      rw [hsame]
      rcases houtcome.deliveredOn_eq link with hnone | ⟨-, hone, -⟩
      · rw [hnone]
      · exact ⟨_, hone.symm⟩
  | _ => exact List.prefix_rfl

/-- A partition stops what has not passed the check of the rules: after it, and until the link is
healed, only messages are delivered that were past the check already, each at most once. -/
theorem partition_stops {nodeIds : List NodeId} {link : Link} {before after : List Event}
    {control : Control} (hparts : Parts link control)
    (hholds : ∀ event ∈ after, ¬ event.Heals link) :
    ∃ late : List RpcEnvelope,
      ((create nodeIds).run (before ++ .control control :: after)).deliveredOn link =
        ((create nodeIds).run before).deliveredOn link ++ late ∧
      (late : Multiset RpcEnvelope) ≤ ((create nodeIds).run before).passing link := by
  rw [run_append]
  generalize (create nodeIds).run before = network
  have hparted : (network.step (.control control)).state.partitions link = true := by
    cases control with
    | partition setA setB =>
      simpa [Parts, Network.step, Control.apply, or_assoc] using Or.inr hparts
    | partitionOneWay parted =>
      obtain rfl : parted = link := hparts
      simp [Network.step, Control.apply]
    | _ => exact absurd hparts id
  have hgrown : (network.step (.control control)).deliveredOn link <+:
      (network.run (.control control :: after)).deliveredOn link := by
    refine foldl_keeps step (fun later => (network.step (.control control)).deliveredOn link <+:
      later.deliveredOn link)
      (fun later event hlater _ => hlater.trans (later.deliveredOn_step event link))
      List.prefix_rfl hholds
  obtain ⟨late, hlate⟩ := hgrown
  have hpassing := foldl_account_le step (fun later => later.state.partitions link = true)
    (fun later => (↑(later.deliveredOn link) + later.passing link : Multiset RpcEnvelope))
    (fun _ => 0) (fun _ _ h hevent => parted_step hevent h)
    (fun _ event h _ => (passing_step h event).trans (add_zero _).ge)
    hparted hholds
  refine ⟨late, hlate.symm, ?_⟩
  rw [show (after.map fun _ => (0 : Multiset RpcEnvelope)).sum = 0 by simp, add_zero] at hpassing
  have hfinal : (↑((network.run (.control control :: after)).deliveredOn link) :
      Multiset RpcEnvelope) ≤
      ↑(network.deliveredOn link) + network.passing link :=
    (Multiset.le_add_right _ _).trans hpassing
  rw [← hlate, ← Multiset.coe_add] at hfinal
  exact (add_le_add_iff_left _).mp hfinal

/-- A call under way on a link when it is partitioned still delivers its message; one sent
afterwards is lost. -/
theorem partition_stops_probe :
    ∃ late : List RpcEnvelope,
      ((create [1, 2]).run ([.send (1, 2) probe, .advance 0 0] ++ .control (.partition [1] [2]) ::
          [.send (1, 2) probe, .advance 1 0, .advance 0 0])).deliveredOn (1, 2) =
        ((create [1, 2]).run [.send (1, 2) probe, .advance 0 0]).deliveredOn (1, 2) ++ late ∧
      (late : Multiset RpcEnvelope) ≤
        ((create [1, 2]).run [.send (1, 2) probe, .advance 0 0]).passing (1, 2) :=
  partition_stops (by simp [Parts]) (by simp [Event.Heals])

/-- The calls under way on a link. -/
def underWay (link : Link) (network : Network) : List Task :=
  network.tasks.filter fun task => task.link == link

/-- The messages of a link in the order of their delivery, those under way last. -/
def lined (link : Link) (network : Network) : List RpcEnvelope :=
  network.deliveredOn link ++ (network.underWay link).map Task.message

/-- The sender of a link waits for its sends: it begins one when no call on the link is under
way. -/
def Awaits (link : Link) (network : Network) : Event → Prop
  | .send sender _ => sender = link → network.underWay link = []
  | _ => True

/-- Reordering was never enabled on a link, and at most one call is under way there. -/
structure Direct (link : Link) (network : Network) : Prop where
  unordered : ∀ rules, network.state.linkRules link = some rules → rules.reorder = false
  unbuffered : network.state.buffered link = []
  single : (network.underWay link).length ≤ 1
  straight : ∀ task ∈ network.underWay link, task.rest = [] ∧ task.stage ≠ .buffer ∧
    ∀ rules, task.stage = .roll rules → rules.reorder = false

/-- A permutation of at most one element is the same list. -/
theorem eq_of_perm_single {first second : List Task} (hperm : first.Perm second)
    (hsingle : second.length ≤ 1) : first = second := by
  cases second with
  | nil => exact hperm.eq_nil
  | cons task rest =>
    obtain rfl : rest = [] := List.eq_nil_of_length_eq_zero (by simpa using hsingle)
    exact List.perm_singleton.mp hperm

/-- A step of a call on a link concerns the only call under way there, and no other link. -/
theorem Direct.underWay_advance (h : network.Direct link) {index : ℕ}
    (htask : network.tasks[index]? = some task) {after : Network × Option Task}
    (houtcome : Outcome network task after) :
    let stepped := { after.1 with tasks := after.2.toList ++ network.tasks.eraseIdx index }
    (task.link ≠ link ∧ stepped.underWay link = network.underWay link) ∨
      (task.link = link ∧ network.underWay link = [task] ∧
        stepped.underWay link = after.2.toList) := by
  obtain ⟨hindex, hget⟩ := List.getElem?_eq_some_iff.mp htask
  have hperm := (List.getElem_cons_eraseIdx_perm hindex).filter fun task => task.link == link
  rw [hget] at hperm
  have hlater : ∀ later ∈ after.2.toList, later.link = task.link :=
    fun later hmem => houtcome.link_eq (Option.mem_toList.mp hmem)
  unfold underWay
  dsimp only
  rw [List.filter_append]
  by_cases hlink : task.link = link
  · rw [List.filter_cons_of_pos (by simp [hlink])] at hperm
    have hwhole := eq_of_perm_single hperm h.single
    have hsingle := h.single
    rw [underWay, ← hwhole, List.length_cons] at hsingle
    have hnone : (network.tasks.eraseIdx index).filter (fun task => task.link == link) = [] :=
      List.eq_nil_of_length_eq_zero (by omega)
    refine .inr ⟨hlink, by rw [← hwhole, hnone], ?_⟩
    rw [hnone, List.append_nil, List.filter_eq_self]
    intro later hmem
    simp [hlater later hmem, hlink]
  · rw [List.filter_cons_of_neg (by simp [hlink])] at hperm
    refine .inl ⟨hlink, ?_⟩
    have hnone : after.2.toList.filter (fun task => task.link == link) = [] := by
      rw [List.filter_eq_nil_iff]
      intro later hmem
      simp [hlater later hmem, hlink]
    rw [hnone, List.nil_append]
    exact eq_of_perm_single hperm h.single

/-- A call on a link without reordering ends with its message or keeps it, and will not buffer
it. -/
theorem Direct.straight_outcome (h : network.Direct link) {after : Network × Option Task}
    (houtcome : Outcome network task after) (hmem : task ∈ network.underWay link) {later : Task}
    (hlater : after.2 = some later) :
    later.message = task.message ∧ later.rest = [] ∧ later.stage ≠ .buffer ∧
      ∀ rules, later.stage = .roll rules → rules.reorder = false := by
  obtain ⟨hrest, hbuffer, hroll⟩ := h.straight task hmem
  have hlink : task.link = link := by simpa using (List.mem_filter.mp hmem).2
  have hnext : task.next = none := by
    unfold Task.next
    rw [hrest]
  have hreorder : (network.state.faultRules task.link).reorder = false := by
    rw [hlink]
    exact faultRules_unordered h.unordered
  cases houtcome with
  | lost => cases hnext.symm.trans hlater
  | rolling =>
    cases hlater
    refine ⟨rfl, hrest, nofun, fun rules hstage => ?_⟩
    cases hstage
    exact hreorder
  | routed =>
    cases hlater
    exact ⟨rfl, hrest, Task.route_ne_buffer hreorder,
      fun rules hstage => absurd hstage (route_ne_roll _ _ _)⟩
  | spared rules hstage =>
    cases hlater
    exact ⟨rfl, hrest, Task.route_ne_buffer (hroll rules hstage),
      fun rules hstage => absurd hstage (route_ne_roll _ _ _)⟩
  | delayed =>
    cases hlater
    exact ⟨rfl, hrest, nofun, nofun⟩
  | buffered hstage => exact absurd hstage hbuffer
  | delivered => cases hnext.symm.trans hlater

/-- A flush takes up no message of a link whose buffer is empty. -/
theorem Direct.underWay_deliverAll (h : network.Direct link) {other : Link}
    {drained : List RpcEnvelope × SimulatorState}
    (hperm : drained.1.Perm (network.state.buffered other)) :
    (network.deliverAll other drained).underWay link = network.underWay link := by
  unfold underWay
  rw [tasks_deliverAll]
  cases hdrained : drained.1 with
  | nil => rfl
  | cons message rest =>
    have hother : other ≠ link := by
      rintro rfl
      rw [h.unbuffered, hdrained] at hperm
      exact List.cons_ne_nil _ _ hperm.eq_nil
    exact List.filter_cons_of_neg (by simpa using hother)

/-- A flush leaves a direct link as it is. -/
theorem Direct.deliverAll (h : network.Direct link) {other : Link}
    {drained : List RpcEnvelope × SimulatorState}
    (hdrains : drained.1.Perm (network.state.buffered other) ∧
      drained.2.buffered link = if link = other then [] else network.state.buffered link)
    (hunordered : ∀ rules, drained.2.linkRules link = some rules → rules.reorder = false) :
    (network.deliverAll other drained).Direct link := by
  have hsame := h.underWay_deliverAll hdrains.1
  have hempty : drained.2.buffered link = [] := by rw [hdrains.2, h.unbuffered, ite_self]
  exact ⟨hunordered, hempty, hsame ▸ h.single, hsame ▸ h.straight⟩

/-- No call buffers a message on a direct link. -/
theorem Direct.unbuffered_outcome (h : network.Direct link) {after : Network × Option Task}
    (houtcome : Outcome network task after) (hstraight : task.link = link → task.stage ≠ .buffer) :
    after.1.state.buffered link = [] := by
  cases houtcome with
  | buffered hstage =>
    have hother : link ≠ task.link := fun heq => hstraight heq.symm hstage
    rw [SimulatorState.push, SimulatorState.buffered_setBuffer, if_neg hother, h.unbuffered]
  | _ => exact h.unbuffered

/-- A step keeps a link direct unless it enables reordering there or its sender does not wait. -/
theorem Direct.step (h : network.Direct link) {event : Event} (hawaits : network.Awaits link event)
    (henables : event ≠ .control (.enableReordering link)) : (network.step event).Direct link := by
  have hunordered := unordered_step henables h.unordered
  cases event with
  | control control =>
    refine ⟨hunordered, ?_, h.single, h.straight⟩
    by_cases hreset : control = .reset
    · rw [hreset]
      rfl
    · exact (buffered_control hreset network.state link).trans h.unbuffered
  | send other message =>
    by_cases hlink : other = link
    · have hnew : (network.step (.send other message)).underWay link =
          [⟨other, message, .rules, true, []⟩] := by
        have hnone : network.tasks.filter (fun task => task.link == link) = [] := hawaits hlink
        simp [underWay, Network.step, hlink, hnone]
      refine ⟨hunordered, h.unbuffered, by rw [hnew]; exact le_rfl, ?_⟩
      rw [hnew]
      simp
    · have hsame : (network.step (.send other message)).underWay link = network.underWay link :=
        List.filter_cons_of_neg (by simpa using hlink)
      exact ⟨hunordered, h.unbuffered, by rw [hsame]; exact h.single,
        by rw [hsame]; exact h.straight⟩
  | flushReorderBuffer other shuffle =>
    exact h.deliverAll (network.state.flushReorderBuffer_drains other link shuffle) hunordered
  | disableReordering other shuffle =>
    exact h.deliverAll (network.state.disableReordering_drains other link shuffle) hunordered
  | advance index roll =>
    obtain hsame | ⟨task, after, htask, -, houtcome, hstep⟩ := network.step_advance index roll
    · rw [hsame]
      exact h
    · rw [hstep] at hunordered ⊢
      rcases h.underWay_advance htask houtcome with ⟨hother, hsame⟩ | ⟨hlink, hold, hnew⟩
      · have hempty := h.unbuffered_outcome houtcome fun hlink => absurd hlink hother
        exact ⟨hunordered, hempty, hsame ▸ h.single, hsame ▸ h.straight⟩
      · have hmem : task ∈ network.underWay link := hold ▸ List.mem_singleton_self task
        have hempty := h.unbuffered_outcome houtcome fun _ => (h.straight task hmem).2.1
        refine ⟨hunordered, hempty, ?_, fun later hlater => ?_⟩
        · rw [hnew]
          exact Option.length_toList_le
        · rw [hnew] at hlater
          exact (h.straight_outcome houtcome hmem (Option.mem_toList.mp hlater)).2

/-- A step delivers the message under way on a direct link, drops it or leaves it; a send comes
behind it. -/
theorem Direct.lined_step (h : network.Direct link) {event : Event}
    (hawaits : network.Awaits link event) :
    ((network.step event).lined link).Sublist
      (network.lined link ++ (event.sent? link).toList) := by
  cases event with
  | control control => exact List.sublist_append_left _ _
  | send other message =>
    by_cases hlink : other = link
    · have hnone : network.tasks.filter (fun task => task.link == link) = [] := hawaits hlink
      simp [lined, underWay, Network.step, Event.sent?, hlink, hnone, deliveredOn]
    · simp [lined, underWay, Network.step, Event.sent?, hlink, deliveredOn]
  | flushReorderBuffer other shuffle =>
    have hsame :=
      h.underWay_deliverAll (network.state.flushReorderBuffer_drains other link shuffle).1
    refine List.Sublist.trans ?_ (List.sublist_append_left _ _)
    simp only [lined, Network.step, hsame]
    exact List.Sublist.refl _
  | disableReordering other shuffle =>
    have hsame :=
      h.underWay_deliverAll (network.state.disableReordering_drains other link shuffle).1
    refine List.Sublist.trans ?_ (List.sublist_append_left _ _)
    simp only [lined, Network.step, hsame]
    exact List.Sublist.refl _
  | advance index roll =>
    refine List.Sublist.trans ?_ (List.sublist_append_left _ _)
    obtain hsame | ⟨task, after, htask, -, houtcome, hstep⟩ := network.step_advance index roll
    · rw [hsame]
    · have hlined : (network.step (.advance index roll)).lined link = after.1.deliveredOn link ++
          (underWay link { after.1 with
            tasks := after.2.toList ++ network.tasks.eraseIdx index }).map Task.message := by
        rw [hstep]
        rfl
      rw [hlined, lined]
      rcases h.underWay_advance htask houtcome with ⟨hother, hsame⟩ | ⟨hlink, hold, hnew⟩
      · rcases houtcome.deliveredOn_eq link with hnone | ⟨hlink, -, -⟩
        · rw [hsame, hnone]
        · exact absurd hlink hother
      · have hmem : task ∈ network.underWay link := hold ▸ List.mem_singleton_self task
        rw [hnew, hold]
        rcases houtcome.deliveredOn_eq link with hnone | ⟨-, hone, hnext⟩
        · rw [hnone]
          refine List.Sublist.append_left ?_ _
          cases hlater : after.2 with
          | none => exact List.nil_sublist _
          | some later => simp [(h.straight_outcome houtcome hmem hlater).1]
        · have hdone : task.next = none := by rw [Task.next, (h.straight task hmem).1]
          rw [hone, hnext, hdone]
          simp

/-- Along a run without reordering whose sender waits, the messages stay in the order of their
sends. -/
theorem Direct.lined_run (h : network.Direct link) {events : List Event}
    (hawaits : Along Network.step (Awaits link) network events)
    (henables : ∀ event ∈ events, event ≠ .control (.enableReordering link)) :
    ((network.run events).lined link).Sublist (network.lined link ++ sentOn link events) := by
  induction events generalizing network with
  | nil => exact List.sublist_append_left _ _
  | cons event rest ih =>
    obtain ⟨hevent, hrest⟩ := hawaits
    obtain ⟨henable, hothers⟩ := List.forall_mem_cons.mp henables
    rw [sentOn_cons, ← List.append_assoc]
    exact (ih (h.step hevent henable) hrest hothers).trans ((h.lined_step hevent).append_right _)

/-- Without reordering on a link, a sender that waits for its sends is heard in order, with
nothing twice, under whatever drops, delays, partitions, resets and faults on other links. -/
theorem delivered_in_order {nodeIds : List NodeId} {link : Link} {events : List Event}
    (hawaits : Along step (Awaits link) (create nodeIds) events)
    (henables : ∀ event ∈ events, event ≠ .control (.enableReordering link)) :
    (((create nodeIds).run events).deliveredOn link).Sublist (sentOn link events) := by
  have hcreated : (create nodeIds).Direct link :=
    ⟨nofun, rfl, Nat.zero_le _, fun _ htask => absurd htask List.not_mem_nil⟩
  exact (List.sublist_append_left _ _).trans (hcreated.lined_run hawaits henables)

/-- A second message from node 1 to node 2. -/
def reply : RpcEnvelope := ⟨7, 0, 1, .voteResponse ⟨2, true, false⟩⟩

/-- The sender waits through a delay and a drop before it sends the next message. -/
theorem delivered_in_order_delayed :
    (((create [1, 2]).run [.control (.setDelay (1, 2) 5 9), .send (1, 2) probe, .advance 0 0,
      .advance 0 0, .advance 0 0, .send (1, 2) reply, .advance 0 0, .advance 0 0,
      .advance 0 0]).deliveredOn (1, 2)).Sublist
        [probe, reply] := by
  refine delivered_in_order ?_ ?_
  · simp only [Along, Awaits, and_true, true_and]
    decide +kernel
  · simp

end Network

end XRaft
