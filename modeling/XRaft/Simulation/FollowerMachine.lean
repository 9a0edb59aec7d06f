import XRaft.Core.FollowerLoop
import XRaft.Simulation.StateMachineOracle

/-!
# A follower that feeds the test state machine

A follower hands the commands it commits to its state machine. Whatever the leader sends
and wherever a call fails, what one call applies is an initial part of the commands it
commits, and the next call starts behind all of them. The state machine of the tests,
which records every call, therefore never counts a duplicate and sees increasing offsets.

A cluster of such followers gives the state-machine check nothing to find but a difference
between their committed logs.
-/

namespace XRaft

open Lib

namespace ReplicationManager

variable {σ κ : Type*} (mgr : ReplicationManager)

/-- A tick is quiet. -/
theorem tick_quiet (clock : Clock) (f : Follower σ κ) :
    Quiet f (f.update (mgr.tick clock f.state).2) := by
  by_cases hdue : clock.now ≥ f.state.fetchDeadline ∧ f.state.role = .follower
  · rw [mgr.tick_of_due hdue.1 hdue.2]
    exact Quiet.of_update rfl rfl rfl
  · rw [mgr.tick_of_not_due hdue]
    exact Quiet.of_update rfl rfl rfl

end ReplicationManager

namespace FollowerEventLoop

open ReplicationManager

variable {σ κ : Type*} (loop : FollowerEventLoop) (env : Collaborators σ κ)

/-- An event keeps a well-formed follower well formed and makes progress. -/
theorem step_progress {f : Follower σ κ} (h : f.state.view.WellFormed) (event : Event) :
    (loop.step env f event).state.view.WellFormed ∧
      FollowerView.Progress f.state.view (loop.step env f event).state.view := by
  have hstepped := loop.react_stepped env f event
  unfold step
  generalize loop.react env f event = outcome at hstepped ⊢
  cases hstepped with
  | ignored _ e => exact ⟨h, .refl _⟩
  | tick clock =>
    have hview : (f.update (loop.runTick clock f.state).2).state.view = f.state.view :=
      loop.replication.view_tick clock f.state
    rw [hview]
    exact ⟨h, .refl _⟩
  | handled _ response =>
    exact Handled.wellFormed_progress (.single ⟨event.clock, response, rfl⟩) h

/-- Between two states some of the committed commands are applied, in order, and all of them if
nothing failed. -/
def Applies (succeeded : Prop) (before after : Follower σ κ) : Prop :=
  ∃ new, after.calls = before.calls ++ new ∧
    (applied new).Sublist (appRecords
      (after.state.entriesInRange before.state.highWatermark after.state.highWatermark)) ∧
    (succeeded → applied new = appRecords
      (after.state.entriesInRange before.state.highWatermark after.state.highWatermark))

/-- Nothing is applied where nothing is committed. -/
theorem Applies.of_quiet {before after : Follower σ κ} (h : Quiet before after) (succeeded : Prop) :
    Applies succeeded before after := by
  obtain ⟨rest, hcalls, happlied, _⟩ := h.calls
  refine ⟨rest, hcalls, ?_⟩
  rw [happlied, h.highWatermark, entriesInRange_self]
  exact ⟨.slnil, fun _ => rfl⟩

/-- An event applies some of the commands it commits, and all of them if it is answered with
success. -/
theorem applies_step {f : Follower σ κ} (h : f.state.view.WellFormed) (event : Event) :
    Applies (∃ result, (loop.react env f event).1 = .ok result) f (loop.step env f event) := by
  have hstepped := loop.react_stepped env f event
  unfold step
  generalize loop.react env f event = outcome at hstepped ⊢
  cases hstepped with
  | ignored _ e => exact .of_quiet (.of_update rfl rfl rfl) _
  | tick clock =>
    exact .of_quiet (loop.replication.tick_quiet clock f) _
  | handled _ response =>
    have hprogress := (Handled.wellFormed_progress
      (.single ⟨event.clock, response, rfl⟩ : loop.replication.Handled env f _) h).2
    obtain ⟨new, hcalls, hfirst⟩ :=
      loop.replication.handleFetchResponse_appliesFirst env event.clock response f
    refine ⟨new, hcalls, hfirst.sublist, ?_⟩
    rintro ⟨result, hok⟩
    obtain ⟨⟨new', hcalls', happlied, _⟩, _⟩ :=
      (handleFetchResponse_delivers_of_ok hok).delivered hprogress.highWatermark
    rw [List.append_cancel_left (hcalls.symm.trans hcalls')]
    exact happlied

/-- Stretches of a run apply one after the other. -/
theorem Applies.trans {p q : Prop} {before middle after : Follower σ κ}
    (hwf : after.state.view.WellFormed)
    (hfirst : FollowerView.Progress before.state.view middle.state.view)
    (hsecond : FollowerView.Progress middle.state.view after.state.view)
    (h : Applies p before middle) (h' : Applies q middle after) : Applies (p ∧ q) before after := by
  obtain ⟨new, hcalls, hsome, hall⟩ := h
  obtain ⟨new', hcalls', hsome', hall'⟩ := h'
  have hbefore : before.state.highWatermark ≤ middle.state.highWatermark := hfirst.highWatermark
  have hsplit := committed_split hwf hsecond hbefore
  refine ⟨new ++ new', ?_, ?_, ?_⟩
  · rw [hcalls', hcalls, List.append_assoc]
  · rw [applied_append, hsplit, appRecords_append]
    exact hsome.append hsome'
  · rintro ⟨hp, hq⟩
    rw [applied_append, hsplit, appRecords_append, hall hp, hall' hq]

/-- A run applies some of the commands it commits, in order, and all of them if no event fails. -/
theorem applies_run {f : Follower σ κ} (h : f.state.view.WellFormed) (events : List Event) :
    Applies (∀ answer ∈ loop.results env f events, ∃ result,
      answer = .ok result) f (loop.run env f events) ∧
      (loop.run env f events).state.view.WellFormed ∧
      FollowerView.Progress f.state.view (loop.run env f events).state.view := by
  induction events generalizing f with
  | nil => exact ⟨.of_quiet (.of_update rfl rfl rfl) _, h, .refl _⟩
  | cons event rest ih =>
    obtain ⟨hstep, hprogress⟩ := loop.step_progress env h event
    obtain ⟨happlies, hrun, hprogress'⟩ := ih hstep
    refine ⟨?_, hrun, hprogress.trans hprogress'⟩
    rw [results, List.forall_mem_cons]
    exact (loop.applies_step env h event).trans hrun hprogress hprogress' happlies

end FollowerEventLoop

namespace TestStateMachine

/-- The state machine to which some records were applied. -/
def feed (records : List (ℕ × AppRecord)) : TestStateMachine :=
  run (records.map fun x => .apply (UInt64.ofNat x.1) x.2)

/-- Applying records adds them to the history. -/
theorem history_foldl (records : List (ℕ × AppRecord)) (machine : TestStateMachine) :
    ((records.map fun x => Operation.apply (UInt64.ofNat x.1) x.2).foldl step
      machine).appliedHistory =
      machine.appliedHistory ++ records.map fun x => (UInt64.ofNat x.1, x.2) := by
  induction records generalizing machine with
  | nil => simp
  | cons x rest ih =>
    have happly : (machine.step (.apply (UInt64.ofNat x.1) x.2)).appliedHistory =
        machine.appliedHistory ++ [(UInt64.ofNat x.1, x.2)] := by
      simp only [step, apply, record]
      split <;> rfl
    rw [List.map_cons, List.foldl_cons, ih, happly]
    simp

/-- The history is what was applied. -/
theorem history_feed (records : List (ℕ × AppRecord)) :
    (feed records).appliedHistory = records.map fun x => (UInt64.ofNat x.1, x.2) :=
  history_foldl records new

/-- Applying records leaves a coherent state machine. -/
theorem feed_coherent (records : List (ℕ × AppRecord)) : (feed records).Coherent :=
  run_coherent fun operation hoperation => by
    obtain ⟨x, _, rfl⟩ := List.mem_map.mp hoperation
    trivial

/-- Offsets that increase and can be written in 64 bits increase for the state machine. -/
theorem order_feed {records : List (ℕ × AppRecord)} (hbound : ∀ x ∈ records, x.1 < 2 ^ 64)
    (hincreasing : records.Pairwise fun first second => first.1 < second.1) :
    (feed records).applyOrder.Pairwise (· < ·) := by
  rw [(feed_coherent records).ordered, history_feed, List.map_map, List.pairwise_map]
  refine hincreasing.imp_of_mem fun {first second} hfirst hsecond hlt => ?_
  change UInt64.ofNat first.1 < UInt64.ofNat second.1
  rw [UInt64.lt_iff_toNat_lt, UInt64.toNat_ofNat_of_lt' (hbound _ hfirst),
    UInt64.toNat_ofNat_of_lt' (hbound _ hsecond)]
  exact hlt

/-- What the state machine has at an offset was applied there. -/
theorem getApplied_feed {records : List (ℕ × AppRecord)} (hbound : ∀ x ∈ records, x.1 < 2 ^ 64)
    (hincreasing : records.Pairwise fun first second => first.1 < second.1) (offset : UInt64)
    (appRecord : AppRecord) :
    (feed records).getApplied offset = some appRecord ↔ (offset.toNat, appRecord) ∈ records := by
  rw [← InvariantChecker.mem_history_iff (feed_coherent records) (order_feed hbound hincreasing),
    history_feed, List.mem_map]
  constructor
  · rintro ⟨x, hx, heq⟩
    obtain ⟨rfl, rfl⟩ := Prod.mk.inj heq
    rwa [UInt64.toNat_ofNat_of_lt' (hbound x hx)]
  · intro hmem
    exact ⟨_, hmem, by rw [UInt64.ofNat_toNat]⟩

end TestStateMachine

namespace FollowerEventLoop

open ReplicationManager

variable {σ κ : Type*} (loop : FollowerEventLoop) (env : Collaborators σ κ)

/-- The commands of a range, in order, with offsets within the range. -/
theorem appRecords_range {state : NodeState} (h : state.view.WellFormed) (low high : ℕ) :
    ((appRecords (state.entriesInRange low high)).Pairwise fun first second => first.1 < second.1) ∧
      ∀ x ∈ appRecords (state.entriesInRange low high), ∃ e ∈ state.log, e.entryType = .command ∧
        x = (e.offset, e.asAppRecord) ∧ low ≤ e.offset ∧ e.offset < high := by
  constructor
  · rw [appRecords, List.pairwise_map]
    exact ((h.contiguous.ascend.filter _).filter _)
  · intro x hx
    obtain ⟨e, he, rfl⟩ := List.mem_map.mp hx
    obtain ⟨hrange, htype⟩ := List.mem_filter.mp he
    obtain ⟨hlog, hbounds⟩ := List.mem_filter.mp hrange
    rw [decide_eq_true_eq] at htype hbounds
    exact ⟨e, hlog, htype, rfl, hbounds⟩

/-- The records a follower without earlier calls has applied after a run. -/
structure Recorded (before after : Follower σ κ) : Prop where
  increasing : (applied after.calls).Pairwise fun first second => first.1 < second.1
  committed : ∀ x ∈ applied after.calls, ∃ e ∈ after.state.log, e.entryType = .command ∧
    x = (e.offset, e.asAppRecord) ∧ before.state.highWatermark ≤ e.offset ∧
    e.offset < after.state.highWatermark

/-- A run records committed commands in order. -/
theorem recorded_run {f : Follower σ κ} (h : f.state.view.WellFormed) (hcalls : f.calls = [])
    (events : List Event) : Recorded f (loop.run env f events) := by
  obtain ⟨⟨new, hnew, hsome, -⟩, hwf, -⟩ := loop.applies_run env h events
  rw [hcalls, List.nil_append] at hnew
  rw [← hnew] at hsome
  obtain ⟨hincreasing, hcommitted⟩ := appRecords_range hwf f.state.highWatermark
    (loop.run env f events).state.highWatermark
  exact ⟨hincreasing.sublist hsome, fun x hx => hcommitted x (hsome.subset hx)⟩

/-- The state machine of a follower sees the committed commands in order and at most once,
whatever is received and whatever fails, and all of them if nothing fails. -/
theorem machine_follows_commits {f : Follower σ κ} (h : f.state.view.WellFormed)
    (hcalls : f.calls = []) (events : List Event)
    (hbound : (loop.run env f events).state.highWatermark ≤ 2 ^ 64) :
    (TestStateMachine.feed (applied (loop.run env f events).calls)).duplicateApplyCount = 0 ∧
    (TestStateMachine.feed (applied (loop.run env f events).calls)).applyOrder.Pairwise (· < ·) ∧
    (∀ offset appRecord,
      (TestStateMachine.feed (applied (loop.run env f events).calls)).getApplied offset =
        some appRecord →
        ∃ e ∈ (loop.run env f events).state.entriesInRange f.state.highWatermark
          (loop.run env f events).state.highWatermark,
          e.entryType = .command ∧ e.offset = offset.toNat ∧ appRecord = e.asAppRecord) ∧
    ((∀ answer ∈ loop.results env f events, ∃ result, answer = .ok result) →
      (TestStateMachine.feed (applied (loop.run env f events).calls)).appliedHistory =
        (appRecords ((loop.run env f events).state.entriesInRange f.state.highWatermark
          (loop.run env f events).state.highWatermark)).map fun x => (UInt64.ofNat x.1, x.2)) := by
  obtain ⟨hincreasing, hcommitted⟩ := loop.recorded_run env h hcalls events
  have hbounds : ∀ x ∈ applied (loop.run env f events).calls, x.1 < 2 ^ 64 := by
    intro x hx
    obtain ⟨e, -, -, rfl, -, hhigh⟩ := hcommitted x hx
    exact hhigh.trans_le hbound
  have horder := TestStateMachine.order_feed hbounds hincreasing
  refine ⟨?_, horder, fun offset appRecord hget => ?_, fun hok => ?_⟩
  · exact (TestStateMachine.feed_coherent _).duplicates_iff.mpr (horder.imp UInt64.ne_of_lt)
  · obtain ⟨e, hlog, htype, heq, hlow, hhigh⟩ :=
      hcommitted _ ((TestStateMachine.getApplied_feed hbounds hincreasing offset appRecord).mp hget)
    obtain ⟨hoffset, hrecord⟩ := Prod.mk.inj heq
    exact ⟨e, List.mem_filter.mpr ⟨hlog, by simp [hlow, hhigh]⟩, htype, hoffset.symm, hrecord⟩
  · obtain ⟨⟨new, hnew, -, hall⟩, -⟩ := loop.applies_run env h events
    rw [hcalls, List.nil_append] at hnew
    rw [TestStateMachine.history_feed, hnew, hall hok]

/-- A response with two commands, of which one is committed, one with an entry too far, one with
the third command. -/
def gapRun : List Event :=
  [.response ⟨10, 150⟩ ⟨1, 1, 1, 0, [⟨0, 1, .command, [7]⟩, ⟨1, 1, .command, [8]⟩], none, none⟩,
    .response ⟨20, 150⟩ ⟨1, 1, 3, 0, [⟨5, 1, .command, [9]⟩], none, none⟩,
    .response ⟨30, 150⟩ ⟨1, 1, 3, 0, [⟨2, 1, .command, [9]⟩], none, none⟩]

/-- The entry too far is refused, and the state machine gets the three commands. -/
theorem machine_follows_commits_gap :
    applied
      ((⟨⟨1024, 50⟩⟩ : FollowerEventLoop).run acceptingEnv (followerOf 1 1 0 []) gapRun).calls =
        [(0, ⟨[7]⟩), (1, ⟨[8]⟩), (2, ⟨[9]⟩)] ∧
      (TestStateMachine.feed [(0, ⟨[7]⟩), (1, ⟨[8]⟩), (2, ⟨[9]⟩)]).duplicateApplyCount = 0 := by
  have happlied : applied
      ((⟨⟨1024, 50⟩⟩ : FollowerEventLoop).run acceptingEnv (followerOf 1 1 0 []) gapRun).calls =
      [(0, ⟨[7]⟩), (1, ⟨[8]⟩), (2, ⟨[9]⟩)] := by decide +kernel
  have hmachine := machine_follows_commits ⟨⟨1024, 50⟩⟩ acceptingEnv
    (show (followerOf 1 1 0 []).state.view.WellFormed from ⟨by decide, rfl, by decide, by decide⟩)
    rfl gapRun
    (by decide +kernel)
  rw [happlied] at hmachine
  exact ⟨happlied, hmachine.1⟩

end FollowerEventLoop

namespace InvariantChecker

open ReplicationManager

variable {σ κ : Type*} {cluster : TestCluster} {driver : NodeId × NodeState}

/-- A node that was driven by any events, from a log that starts at offset zero and with nothing
applied, and the state machine it fed. -/
structure Driven (σ κ : Type*) (driver : NodeId × NodeState) (machine : TestStateMachine) :
    Prop where
  start : ∃ (loop : FollowerEventLoop) (env : Collaborators σ κ) (f : Follower σ κ)
    (events : List FollowerEventLoop.Event), f.state.view.WellFormed ∧ f.state.logStartOffset = 0 ∧
    f.calls = [] ∧
      driver.2 = (loop.run env f events).state ∧
      machine = TestStateMachine.feed (applied (loop.run env f events).calls)
  bounded : driver.2.highWatermark ≤ 2 ^ 64

/-- What the check needs to know of a driven node. -/
structure Faithful (driver : NodeId × NodeState) (machine : TestStateMachine) : Prop where
  complete : Complete driver
  once : machine.duplicateApplyCount = 0
  ordered : machine.applyOrder.Pairwise (· < ·)
  applied : ∀ offset appRecord, machine.getApplied offset = some appRecord →
    offset.toNat < driver.2.highWatermark ∧
      (heldAt offset.toNat driver).map Prod.snd = some appRecord.data

/-- A driven node is faithful. -/
theorem Driven.faithful {machine : TestStateMachine} (h : Driven σ κ driver machine) :
    Faithful driver machine := by
  obtain ⟨⟨loop, env, f, events, hwf, hstart, hcalls, hstate, hmachine⟩, hbound⟩ := h
  obtain ⟨-, hafter, hprogress⟩ := loop.applies_run env hwf events
  obtain ⟨hincreasing, hcommitted⟩ := loop.recorded_run env hwf hcalls events
  rw [← hstate] at hafter hprogress
  have hzero : driver.2.logStartOffset = 0 := hprogress.start.trans hstart
  have hlog : Consecutive LogEntry.offset 0 driver.2.log := by
    rw [← hzero]
    exact hafter.contiguous
  have hbounds : ∀ x ∈ applied (loop.run env f events).calls, x.1 < 2 ^ 64 := by
    intro x hx
    obtain ⟨e, -, -, rfl, -, hhigh⟩ := hcommitted x hx
    rw [← hstate] at hhigh
    exact hhigh.trans_le hbound
  have horder := TestStateMachine.order_feed hbounds hincreasing
  rw [← hmachine] at horder
  refine ⟨fun offset hoffset => ?_, ?_, horder, fun offset appRecord hget => ?_⟩
  · have hlength : driver.2.logEndOffset = driver.2.logStartOffset + driver.2.log.length :=
      hafter.endOffset
    have hend : driver.2.highWatermark ≤ driver.2.logEndOffset := hafter.le_end
    rw [entryAt_eq hlog]
    exact ⟨_, List.getElem?_eq_getElem (by omega)⟩
  · rw [hmachine] at horder ⊢
    exact (TestStateMachine.feed_coherent _).duplicates_iff.mpr (horder.imp UInt64.ne_of_lt)
  · rw [hmachine, TestStateMachine.getApplied_feed hbounds hincreasing] at hget
    obtain ⟨e, hmem, -, heq, -, hhigh⟩ := hcommitted _ hget
    obtain ⟨hoffset, rfl⟩ := Prod.mk.inj heq
    rw [← hstate] at hmem hhigh
    rw [hoffset, heldAt, entryAt_offset hlog hmem]
    exact ⟨hhigh, rfl⟩

/-- Faithful nodes whose committed logs agree have applied the same. -/
theorem Faithful.appliedAgree {a b : NodeId × NodeState} {first second : TestStateMachine}
    (ha : Faithful a first) (hb : Faithful b second) (hagree : CommittedAgree a b) :
    AppliedAgree first second := by
  intro offset recordA recordB hA hB
  obtain ⟨hlowA, hdataA⟩ := ha.applied offset recordA hA
  obtain ⟨hlowB, hdataB⟩ := hb.applied offset recordB hB
  rw [hagree offset.toNat hlowA hlowB, hdataB, Option.some.injEq] at hdataA
  obtain ⟨dataA⟩ := recordA
  obtain ⟨dataB⟩ := recordB
  exact congrArg AppRecord.mk hdataA.symm

/-- In a cluster of followers that feed their state machines, whatever they received, the check
finishes exactly if the committed logs of the active ones agree. -/
theorem checkStateMachineSafety_driven (cluster : TestCluster)
    (hdriven : ∀ driver ∈ cluster.active, Driven σ κ driver (cluster.machines driver.1)) :
    checkStateMachineSafety cluster = .ok () ↔
      ∀ a ∈ cluster.active, ∀ b ∈ cluster.active, CommittedAgree a b := by
  have hfaithful : ∀ driver ∈ cluster.active, Faithful driver (cluster.machines driver.1) :=
    fun driver hdriver => (hdriven driver hdriver).faithful
  rw [checkStateMachineSafety_eq_ok]
  constructor
  · exact fun h => h.2.2.2
  · intro hagree
    refine ⟨fun driver hdriver => (hfaithful driver hdriver).complete,
      fun driver hdriver => ⟨(hfaithful driver hdriver).once, (hfaithful driver hdriver).ordered⟩,
      fun a ha b hb => (hfaithful a ha).appliedAgree (hfaithful b hb) (hagree a ha b hb), hagree⟩

/-- A follower of node 1 with an empty log. -/
def emptyFollower (id : NodeId) : Follower Unit Bool :=
  (followerOf 1 1 0 []).update { (followerOf 1 1 0 []).state with nodeId := id }

/-- The follower after the first responses of the run above. -/
def afterResponses (id : NodeId) (count : ℕ) : Follower Unit Bool :=
  (⟨⟨1024, 50⟩⟩ : FollowerEventLoop).run acceptingEnv (emptyFollower id)
    (FollowerEventLoop.gapRun.take count)

/-- Two followers, one of which is a response behind. -/
def drivenCluster : TestCluster where
  drivers := [(2, (afterResponses 2 3).state), (3, (afterResponses 3 1).state)]
  stoppedNodes := []
  nodup := by decide
  keyed := by decide +kernel
  machines id := .feed (applied (if id = 2 then afterResponses 2 3 else afterResponses 3 1).calls)

/-- The check finishes on them, so their committed logs agree. -/
theorem checkStateMachineSafety_driven_behind :
    checkStateMachineSafety drivenCluster = .ok () ∧
      ∀ a ∈ drivenCluster.active, ∀ b ∈ drivenCluster.active, CommittedAgree a b := by
  have hdriven : ∀ driver ∈ drivenCluster.active,
      Driven Unit Bool driver (drivenCluster.machines driver.1) := by
    intro driver hdriver
    have hstart : ∀ id, (emptyFollower id).state.view.WellFormed :=
      fun _ => ⟨rfl, rfl, Nat.le_refl 0, Nat.le_refl 0⟩
    have hmem : driver ∈ drivenCluster.drivers := (SimulatedCluster.mem_active.mp hdriver).1
    rcases List.mem_cons.mp hmem with rfl | hmem
    · exact ⟨⟨⟨⟨1024, 50⟩⟩, acceptingEnv, emptyFollower 2, _, hstart 2, rfl, rfl, rfl, rfl⟩,
        by decide +kernel⟩
    · obtain rfl := List.mem_singleton.mp hmem
      exact ⟨⟨⟨⟨1024, 50⟩⟩, acceptingEnv, emptyFollower 3, _, hstart 3, rfl, rfl, rfl, rfl⟩,
        by decide +kernel⟩
  have hpasses : checkStateMachineSafety drivenCluster = .ok () := by decide +kernel
  exact ⟨hpasses, (checkStateMachineSafety_driven drivenCluster hdriven).mp hpasses⟩

end InvariantChecker

end XRaft
