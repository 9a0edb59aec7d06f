import XRaft.Core.CheckQuorumSafety
import XRaft.Lib.Consecutive
import XRaft.Lib.Runs
import Mathlib.Logic.Relation

/-!
# Runs of the event loop in `event_loop.rs`

A pass of the loop serves the timers, then sleeps until the next deadline or until a
message arrives. The handlers publish the state and hand a batch to the I/O stage; the
loop ends with the first batch that fails, or when it is told to shut down.

`Move` lists what the handlers can do to what the environment sees: the roles and terms,
the timers, what the listener was told, and the last quorum state and the log entries
that were handed over. What holds of whole runs is read off the moves.
-/

namespace XRaft

open Lib

/-- The entries an action appends. -/
def IoAction.entries : IoAction → List LogEntry
  | .appendLog entries => entries
  | _ => []

/-- The term and the vote that are saved after an action. -/
def IoAction.save (saved : ℕ × Option NodeId) : IoAction → ℕ × Option NodeId
  | .persistQuorumState qs => (qs.currentTerm, qs.votedFor)
  | _ => saved

namespace EventLoop

variable {φ : Type*}

/-- The handlers of the loop. -/
inductive Handler where
  | checkQuorum
  | electionTimeout
  | rpc (envelope : RpcEnvelope)

/-- A call of a handler. -/
def handle (methods : QuorumMethods φ) (clock : Clock) (loop : EventLoop φ) :
    Handler → EventLoop φ × IoActionBatch
  | .checkQuorum => loop.handleCheckQuorum methods clock
  | .electionTimeout => loop.handleElectionTimeout methods clock
  | .rpc envelope => loop.handleRpc methods clock envelope

/-- The deadline of the timer that the role uses. -/
def nextDeadline (loop : EventLoop φ) : ℕ :=
  if loop.state.role = .leader then loop.checkQuorumDeadline else loop.state.electionDeadline

/-- A call that was made, with the loop before and after it. -/
structure Call (φ : Type*) where
  handler : Handler
  clock : Clock
  before : EventLoop φ
  after : EventLoop φ

/-- The loop with everything it has done: its calls, the actions it handed to the I/O stage, how
often the listener was told to shut down, and how it ended. -/
structure Session (φ : Type*) where
  loop : EventLoop φ
  calls : List (Call φ)
  handed : List IoAction
  shutdowns : ℕ
  ended : Option (Except XraftError Unit)

/-- What ends the wait of a pass: a message, with the outcome of the I/O it causes, the order to
shut down, a closed channel, or the timer. -/
inductive Wake where
  | rpc (clock : Clock) (envelope : RpcEnvelope) (io : Option XraftError)
  | shutdown
  | closed
  | timer

/-- A pass of the loop: the time it starts, the clock and the I/O of the timer it may serve, and
how it goes on. -/
structure Pass where
  now : ℕ
  clock : Clock
  io : Option XraftError
  wake : Wake

namespace Session

/-- A loop that has not done anything yet. -/
def begin (loop : EventLoop φ) : Session φ := ⟨loop, [], [], 0, none⟩

variable (methods : QuorumMethods φ)

/-- Call a handler and execute its batch, which ends the loop if it fails. -/
def call (handler : Handler) (clock : Clock) (io : Option XraftError) (session : Session φ) :
    Session φ :=
  let (loop, batch) := session.loop.handle methods clock handler
  { session with
    loop := loop
    calls := session.calls ++ [⟨handler, clock, session.loop, loop⟩]
    handed := session.handed ++ batch.actions
    -- an empty batch has no action that could fail
    ended := if batch.actions = [] then none else io.map .error }

/-- Serve the timer of the role if its deadline has passed. -/
def serveTimers (pass : Pass) (session : Session φ) : Session φ :=
  if session.loop.state.role = .leader then
    if pass.now ≥ session.loop.checkQuorumDeadline
      then session.call methods .checkQuorum pass.clock pass.io
    else session
  else if (session.loop.state.role = .follower ∨ session.loop.state.role = .candidate) ∧
      pass.now ≥ session.loop.state.electionDeadline then
    session.call methods .electionTimeout pass.clock pass.io
  else session

/-- Go on with what ended the wait. -/
def wakeUp (session : Session φ) : Wake → Session φ
  | .rpc clock envelope io => session.call methods (.rpc envelope) clock io
  | .shutdown => { session with shutdowns := session.shutdowns + 1, ended := some (.ok ()) }
  | .closed => { session with shutdowns := session.shutdowns + 1, ended := some (.ok ()) }
  | .timer => session

/-- One pass of the loop, unless it has ended. -/
def step (session : Session φ) (pass : Pass) : Session φ :=
  if session.ended.isSome then session
  else
    let session := session.serveTimers methods pass
    if session.ended.isSome then session else session.wakeUp methods pass.wake

/-- The passes of a run. -/
def run (loop : EventLoop φ) (passes : List Pass) : Session φ :=
  passes.foldl (step methods) (begin loop)

end Session

/-- What the environment sees of a loop, with the term and vote saved last and the entries
appended so far. -/
structure View where
  nodeId : NodeId
  currentTerm : ℕ
  votedFor : Option NodeId
  role : Role
  logEndOffset : ℕ
  checkQuorumDeadline : ℕ
  checkQuorumInterval : ℕ
  leaderChanges : List (NodeId × ℕ)
  saved : ℕ × Option NodeId
  appended : List LogEntry

/-- The view of a loop that has handed over some actions. -/
def view (first : ℕ × Option NodeId) (loop : EventLoop φ) (handed : List IoAction) : View where
  nodeId := loop.state.nodeId
  currentTerm := loop.state.currentTerm
  votedFor := loop.state.votedFor
  role := loop.state.role
  logEndOffset := loop.state.logEndOffset
  checkQuorumDeadline := loop.checkQuorumDeadline
  checkQuorumInterval := loop.checkQuorumInterval
  leaderChanges := loop.leaderChanges
  saved := handed.foldl IoAction.save first
  appended := handed.flatMap IoAction.entries

/-- The moves of a loop at a clock reading. The quorum is confirmed only if the check passes, and
the timer of a new leader is the one it is given if the methods set that. -/
inductive Move (timers : TimerMethods) (clock : Clock) (passes : Prop) : View → View → Prop where
  | follow (view : View) (term : ℕ) (hterm : view.currentTerm < term) :
      Move timers clock passes view
      { view with
        currentTerm := term
        votedFor := none
        role := .follower
        saved := (term, none) }
  | resign (view : View) : Move timers clock passes view
      { view with
        role := .follower
        saved := (view.currentTerm, view.votedFor) }
  | stand (view : View) : Move timers clock passes view
      { view with
        currentTerm := view.currentTerm + 1
        votedFor := some view.nodeId
        role := .candidate
        saved := (view.currentTerm + 1, some view.nodeId) }
  | lead (view : View) (hstands : view.role = .candidate) (deadline interval : ℕ)
      (htimer : timers.Sets →
        deadline = clock.now + clock.randomElectionTimeout ∧
        interval = clock.randomElectionTimeout) :
      Move timers clock passes view
      { view with
        role := .leader
        logEndOffset := view.logEndOffset + 1
        checkQuorumDeadline := deadline
        checkQuorumInterval := interval
        leaderChanges := view.leaderChanges ++ [(view.nodeId, view.currentTerm)]
        saved := (view.currentTerm, view.votedFor)
        appended := view.appended ++
          [⟨view.logEndOffset, view.currentTerm, .leaderChangeMessage, []⟩] }
  | grant (view : View) (candidate : NodeId) : Move timers clock passes view
      { view with
        votedFor := some candidate
        saved := (view.currentTerm, some candidate) }
  | confirm (view : View) (hpasses : passes) : Move timers clock passes view
      { view with checkQuorumDeadline := clock.now + view.checkQuorumInterval }

/-- Finitely many moves. -/
abbrev Moves (timers : TimerMethods) (clock : Clock) (passes : Prop) : View → View → Prop :=
  Relation.ReflTransGen (Move timers clock passes)

section Handlers

variable (methods : QuorumMethods φ) (clock : Clock) (passes : Prop) (first : ℕ × Option NodeId)

/-- Messages change nothing that is seen. -/
theorem view_append_sends (loop : EventLoop φ) (handed sent : List IoAction)
    (hsent : ∀ action ∈ sent, ∃ target envelope, action = .sendRpc target envelope) :
    view first loop (handed ++ sent) = view first loop handed := by
  have hsave : ∀ saved, sent.foldl IoAction.save saved = saved := by
    induction sent with
    | nil => intro saved; rfl
    | cons action rest ih =>
      intro saved
      obtain ⟨⟨target, envelope, rfl⟩, hrest⟩ := List.forall_mem_cons.mp hsent
      exact ih hrest saved
  have hentries : sent.flatMap IoAction.entries = [] := by
    rw [List.flatMap_eq_nil_iff]
    intro action haction
    obtain ⟨target, envelope, rfl⟩ := hsent action haction
    rfl
  simp only [view, List.foldl_append, List.flatMap_append, hsave, hentries, List.append_nil]

/-- One more message changes nothing that is seen. -/
theorem view_push_send (loop : EventLoop φ) (handed : List IoAction) (batch : IoActionBatch)
    (target : NodeId) (envelope : RpcEnvelope) :
    view first loop (handed ++ (batch.push (.sendRpc target envelope)).actions) =
      view first loop (handed ++ batch.actions) := by
  rw [IoActionBatch.push, ← List.append_assoc]
  exact view_append_sends first loop _ _ (by simp)

/-- Persisting a quorum state saves its term and vote. -/
theorem view_push_persist (loop : EventLoop φ) (handed : List IoAction) (batch : IoActionBatch)
    (qs : QuorumState) :
    view first loop (handed ++ (batch.push (.persistQuorumState qs)).actions) =
      { view first loop (handed ++ batch.actions) with
        saved := (qs.currentTerm, qs.votedFor) } := by
  simp [view, IoActionBatch.push, IoAction.save, IoAction.entries]

/-- A candidate that takes the lead makes one move. -/
theorem lead_moves (loop : EventLoop φ) (hstands : loop.state.role = .candidate)
    (handed : List IoAction) (batch : IoActionBatch) :
    Move methods.toTimerMethods clock passes (view first loop (handed ++ batch.actions))
      (view first ((loop.becomeLeader methods clock).onBecomeLeader batch).1
        (handed ++ ((loop.becomeLeader methods clock).onBecomeLeader batch).2.actions)) := by
  have hlead : Move methods.toTimerMethods clock passes
      (view first loop (handed ++ batch.actions)) _ :=
    .lead _ hstands (methods.leaderDeadline loop.state clock.now clock.randomElectionTimeout)
      (methods.leaderInterval loop.state clock.now clock.randomElectionTimeout)
      fun hsets => ⟨hsets.leaderDeadline _ _ _, hsets.leaderInterval _ _ _⟩
  convert hlead using 1
  simp [view, onBecomeLeader, becomeLeader, NodeState.becomeLeader,
    ElectionManager.appendLeaderChangeMessage, IoActionBatch.push, IoAction.save, IoAction.entries]

/-- A check of the quorum confirms it or resigns. -/
theorem handleCheckQuorum_moves (loop : EventLoop φ) (handed : List IoAction)
    (hpasses : methods.checkQuorum loop.state loop.followerState clock.now
      loop.checkQuorumInterval = true → passes) :
    Moves methods.toTimerMethods clock passes (view first loop handed)
    (view first (loop.handleCheckQuorum methods clock).1
      (handed ++ (loop.handleCheckQuorum methods clock).2.actions)) := by
  unfold handleCheckQuorum
  dsimp only
  split
  · rename_i hcheck
    rw [List.append_nil]
    exact .single (.confirm _ (hpasses hcheck))
  · rw [view_push_persist, List.append_nil]
    exact .single (.resign _)

/-- An election of a voter stands, and leads at once if there is no other voter. -/
theorem handleElectionTimeout_moves (loop : EventLoop φ) (handed : List IoAction) :
    Moves methods.toTimerMethods clock passes (view first loop handed)
      (view first (loop.handleElectionTimeout methods clock).1
      (handed ++ (loop.handleElectionTimeout methods clock).2.actions)) := by
  unfold handleElectionTimeout
  split
  · rw [List.append_nil]
    exact .refl
  · let started := ElectionManager.startElection methods.toTimerMethods clock loop.state {}
    have hstand : Move methods.toTimerMethods clock passes (view first loop handed)
        (view first (loop.update started.1) (handed ++ started.2.actions)) := by
      have hsends : view first (loop.update started.1) (handed ++ started.2.actions) =
          view first (loop.update started.1)
            (handed ++ [.persistQuorumState (ElectionManager.quorumState started.1 none)]) := by
        rw [ElectionManager.actions_startElection, List.append_cons]
        refine view_append_sends first _ _ _ fun action haction => ?_
        obtain ⟨voter, -, rfl⟩ := List.mem_map.mp haction
        exact ⟨_, _, rfl⟩
      rw [hsends]
      have hmove : Move methods.toTimerMethods clock passes (view first loop handed) _ := .stand _
      convert hmove using 1
      simp [view, IoAction.save, IoAction.entries, started, update, ElectionManager.startElection,
        NodeState.becomeCandidate, ElectionManager.quorumState]
    dsimp only
    split
    · exact (Relation.ReflTransGen.single hstand).tail
        (lead_moves methods clock passes first (loop.update started.1) rfl handed started.2)
    · exact .single hstand

/-- Stepping down follows a higher term; afterwards no real message has a higher term. -/
theorem stepDown_moves (envelope : RpcEnvelope) (loop : EventLoop φ) (handed : List IoAction) :
    Moves methods.toTimerMethods clock passes (view first loop handed)
      (view first (loop.stepDown methods.toTimerMethods clock envelope).2.1
        (handed ++ (loop.stepDown methods.toTimerMethods clock envelope).2.2.actions)) ∧
      (envelope.payload.isPreVote = false →
        envelope.effectiveTerm ≤
          (loop.stepDown methods.toTimerMethods clock envelope).2.1.state.currentTerm) := by
  unfold stepDown
  split
  · rename_i hpre
    rw [List.append_nil]
    exact ⟨.refl, fun hreal => absurd (hpre.symm.trans hreal) (by decide)⟩
  · by_cases hterm : envelope.effectiveTerm > loop.state.currentTerm
    · rw [ElectionManager.maybeStepDownOnHigherTerm, if_pos hterm]
      dsimp only
      rw [if_pos rfl, view_push_persist, List.append_nil]
      exact ⟨.single (.follow _ _ hterm), fun _ => le_rfl⟩
    · rw [ElectionManager.maybeStepDownOnHigherTerm, if_neg hterm]
      dsimp only
      rw [if_neg Bool.false_ne_true, List.append_nil]
      exact ⟨.refl, fun _ => Nat.not_lt.mp hterm⟩

/-- A vote request of no higher term is granted or refused. -/
theorem handleVoteRequest_moves (request : VoteRequest) (loop : EventLoop φ)
    (hterm : request.term ≤ loop.state.currentTerm) (handed : List IoAction)
    (batch : IoActionBatch) :
    Moves methods.toTimerMethods clock passes (view first loop (handed ++ batch.actions))
      (view first
        (loop.update (ElectionManager.handleVoteRequest methods.toTimerMethods clock request
          loop.state batch).1)
        (handed ++ (ElectionManager.handleVoteRequest methods.toTimerMethods clock request
          loop.state batch).2.actions)) := by
  unfold ElectionManager.handleVoteRequest ElectionManager.maybeStepDownOnHigherTerm
  rw [if_neg (Nat.not_lt.mpr hterm)]
  dsimp only
  split
  · rw [ElectionManager.sendVoteResponse, view_push_send, view_push_persist]
    exact .single (.grant _ request.candidateId)
  · rw [ElectionManager.sendVoteResponse, view_push_send]
    exact .refl

/-- A vote is counted, and leads if it makes a majority. -/
theorem handleVoteResponse_moves (source : NodeId) (steppedDown : Bool) (response : VoteResponse)
    (loop : EventLoop φ) (handed : List IoAction) (batch : IoActionBatch) :
    Moves methods.toTimerMethods clock passes (view first loop (handed ++ batch.actions))
      (view first (loop.handleVoteResponse methods clock source steppedDown response batch).1
        (handed ++ (loop.handleVoteResponse methods clock source steppedDown response
          batch).2.actions)) := by
  unfold handleVoteResponse
  split
  · split <;> exact .refl
  · split
    · rename_i hcounts
      have hstands : loop.state.role = .candidate := by
        simp only [Bool.and_eq_true, beq_iff_eq] at hcounts
        exact hcounts.1.1.2
      split
      · exact .refl
      · rw [ElectionManager.recordVote, if_neg (not_not.mpr hstands)]
        dsimp only
        split
        · exact .single (lead_moves methods clock passes first
            (loop.update { loop.state with
              votesReceived := insert source loop.state.votesReceived }) hstands handed batch)
        · exact .refl
    · exact .refl

/-- A message makes the moves of its payload after those of its term. -/
theorem handleRpc_moves (envelope : RpcEnvelope) (loop : EventLoop φ) (handed : List IoAction) :
    Moves methods.toTimerMethods clock passes (view first loop handed)
      (view first (loop.handleRpc methods clock envelope).1
      (handed ++ (loop.handleRpc methods clock envelope).2.actions)) := by
  unfold handleRpc
  split
  · rw [List.append_nil]
  · obtain ⟨hdown, hterm⟩ := stepDown_moves methods clock passes first envelope loop handed
    refine hdown.trans ?_
    generalize loop.stepDown methods.toTimerMethods clock envelope = stepped at hterm ⊢
    obtain ⟨steppedDown, loop, batch⟩ := stepped
    change Moves methods.toTimerMethods clock passes (view first loop (handed ++ batch.actions))
      (view first (loop.dispatch methods clock envelope steppedDown batch).1
        (handed ++ (loop.dispatch methods clock envelope steppedDown batch).2.actions))
    unfold dispatch
    split
    · rename_i request hpayload
      split
      · rw [ElectionManager.handlePreVoteRequest, view_push_send]
      · rename_i hreal
        have hreal : envelope.payload.isPreVote = false := by
          rw [hpayload]
          exact Bool.eq_false_iff.mpr hreal
        have hterm := hterm hreal
        rw [RpcEnvelope.effectiveTerm, hpayload] at hterm
        exact handleVoteRequest_moves methods clock passes first request loop hterm handed batch
    · exact handleVoteResponse_moves methods clock passes first _ _ _ loop handed batch
    · split <;> exact .refl
    · exact .refl

/-- Every handler makes moves. -/
theorem handle_moves (handler : Handler) (loop : EventLoop φ) (handed : List IoAction)
    (hpasses : handler = .checkQuorum →
      methods.checkQuorum loop.state loop.followerState clock.now loop.checkQuorumInterval = true →
        passes) :
    Moves methods.toTimerMethods clock passes (view first loop handed)
    (view first (loop.handle methods clock handler).1
      (handed ++ (loop.handle methods clock handler).2.actions)) := by
  cases handler with
  | checkQuorum =>
    exact handleCheckQuorum_moves methods clock passes first loop handed (hpasses rfl)
  | electionTimeout => exact handleElectionTimeout_moves methods clock passes first loop handed
  | rpc envelope => exact handleRpc_moves methods clock passes first envelope loop handed

end Handlers

/-- The call checked the quorum with success. -/
def Call.Passes (methods : QuorumMethods φ) (call : Call φ) : Prop :=
  call.handler = .checkQuorum ∧
    methods.checkQuorum call.before.state call.before.followerState call.clock.now
    call.before.checkQuorumInterval = true

/-- The call won an election, of which the listener was told. -/
def Call.Elects (call : Call φ) : Prop :=
  ∃ told, call.after.leaderChanges = call.before.leaderChanges ++ told ∧
    (call.after.state.nodeId, call.after.state.currentTerm) ∈ told

/-- The entries that were appended announce the leaderships, as the listener was told, one for
each term. -/
structure Announces (first : ℕ) (view : View) : Prop where
  offsets : Consecutive LogEntry.offset first view.appended
  endOffset : view.logEndOffset = first + view.appended.length
  control : ∀ e ∈ view.appended, e.entryType = .leaderChangeMessage
  told : view.leaderChanges = view.appended.map fun e => (view.nodeId, e.term)
  increasing : view.appended.Pairwise fun earlier later => earlier.term < later.term
  bounded : ∀ e ∈ view.appended, e.term ≤ view.currentTerm
  candidate : view.role = .candidate → ∀ e ∈ view.appended, e.term < view.currentTerm
  leader : view.role = .leader → ∃ e ∈ view.appended, e.term = view.currentTerm

variable {timers : TimerMethods} {clock : Clock} {passes : Prop} {before after : View}

/-- A move keeps the announcements in order. -/
theorem Announces.move {first : ℕ} (h : Announces first before)
    (hmove : Move timers clock passes before after) : Announces first after := by
  cases hmove with
  | follow term hterm =>
    exact { h with
      bounded := fun e he => (h.bounded e he).trans hterm.le
      candidate := nofun
      leader := nofun }
  | resign => exact { h with candidate := nofun, leader := nofun }
  | stand =>
    exact { h with
      bounded := fun e he => (h.bounded e he).trans (Nat.le_succ _)
      candidate := fun _ e he => Nat.lt_succ_of_le (h.bounded e he)
      leader := nofun }
  | grant candidate => exact { h with }
  | confirm hpasses => exact { h with }
  | lead hstands deadline interval htimer =>
    have hearlier := h.candidate hstands
    refine ⟨?_, ?_, ?_, ?_, ?_, ?_, nofun,
      fun _ => ⟨_, List.mem_append_right _ List.mem_cons_self, rfl⟩⟩
    · rw [consecutive_append, ← h.endOffset]
      exact ⟨h.offsets, rfl⟩
    · rw [List.length_append, h.endOffset]
      rfl
    · intro e he
      rcases List.mem_append.mp he with hold | hnew
      · exact h.control e hold
      · rw [List.mem_singleton.mp hnew]
    · rw [List.map_append, h.told]
      rfl
    · refine List.pairwise_append.mpr ⟨h.increasing, List.pairwise_singleton _ _,
        fun e he later hlater => ?_⟩
      rw [List.mem_singleton.mp hlater]
      exact hearlier e he
    · intro e he
      rcases List.mem_append.mp he with hold | hnew
      · exact h.bounded e hold
      · rw [List.mem_singleton.mp hnew]

/-- What was saved last is the term and the vote. -/
def Saved (view : View) : Prop := view.saved = (view.currentTerm, view.votedFor)

/-- A move saves what it changes. -/
theorem Saved.move (h : Saved before) (hmove : Move timers clock passes before after) :
    Saved after := by
  cases hmove with
  | confirm hpasses => exact h
  | _ => rfl

/-- A property of views that every move keeps is kept by moves. -/
theorem moves_keep {P : View → Prop}
    (hmove : ∀ {before after}, P before → Move timers clock passes before after → P after)
    (h : P before) (hmoves : Moves timers clock passes before after) : P after := by
  induction hmoves with
  | refl => exact h
  | tail _ hlast ih => exact hmove ih hlast


/-- A leader after some moves led in the term before with the same timer, or its timer was started
at the reading, by a quorum check or by an election of which the listener was told. -/
def Renewed (clock : Clock) (passes : Prop) (before after : View) : Prop :=
  ∃ told, after.leaderChanges = before.leaderChanges ++ told ∧ (after.role = .leader →
    (before.role = .leader ∧ after.currentTerm = before.currentTerm ∧
      after.checkQuorumDeadline = before.checkQuorumDeadline ∧
      after.checkQuorumInterval = before.checkQuorumInterval) ∨
    after.checkQuorumDeadline = clock.now + after.checkQuorumInterval ∧
      (passes ∨ (after.nodeId, after.currentTerm) ∈ told))

/-- One more move keeps that. -/
theorem Renewed.move (hsets : timers.Sets) {start : View} (h : Renewed clock passes start before)
    (hmove : Move timers clock passes before after) : Renewed clock passes start after := by
  obtain ⟨told, hgrown, hleader⟩ := h
  cases hmove with
  | follow term hterm => exact ⟨told, hgrown, nofun⟩
  | resign => exact ⟨told, hgrown, nofun⟩
  | stand => exact ⟨told, hgrown, nofun⟩
  | grant candidate => exact ⟨told, hgrown, hleader⟩
  | confirm hpasses => exact ⟨told, hgrown, fun _ => Or.inr ⟨rfl, Or.inl hpasses⟩⟩
  | lead hstands deadline interval htimer =>
    obtain ⟨rfl, rfl⟩ := htimer hsets
    refine ⟨told ++ [(before.nodeId, before.currentTerm)], ?_, fun _ => Or.inr ⟨rfl, Or.inr ?_⟩⟩
    · change before.leaderChanges ++ _ = _
      rw [hgrown, List.append_assoc]
    · exact List.mem_append_right _ List.mem_cons_self

/-- The timer of a leader does not stand still. -/
def Ticks (view : View) : Prop := view.role = .leader → 0 < view.checkQuorumInterval

/-- Moves at a reading with a positive timeout keep it going. -/
theorem Ticks.move (hsets : timers.Sets) (hpositive : 0 < clock.randomElectionTimeout)
    (h : Ticks before) (hmove : Move timers clock passes before after) : Ticks after := by
  cases hmove with
  | lead hstands deadline interval htimer =>
    obtain ⟨rfl, rfl⟩ := htimer hsets
    exact fun _ => hpositive
  | grant candidate => exact h
  | confirm hpasses => exact h
  | _ => exact nofun

/-- Every handler leaves the state published. -/
theorem published_handle (methods : QuorumMethods φ) (clock : Clock) {loop : EventLoop φ}
    (h : loop.published = loop.state.project) (handler : Handler) :
    (loop.handle methods clock handler).1.published =
      (loop.handle methods clock handler).1.state.project := by
  cases handler with
  | checkQuorum =>
    change (loop.handleCheckQuorum methods clock).1.published = _
    unfold handle handleCheckQuorum
    dsimp only
    split <;> rfl
  | electionTimeout =>
    unfold handle handleElectionTimeout
    dsimp only
    split
    · exact h
    · rfl
  | rpc envelope =>
    unfold handle handleRpc
    dsimp only
    split
    · exact h
    · rfl

/-- Every clock reading of the pass is admissible. -/
def Pass.Admissible (admits : Clock → Prop) (pass : Pass) : Prop :=
  admits pass.clock ∧ ∀ clock envelope io, pass.wake = .rpc clock envelope io → admits clock

namespace Session

variable {methods : QuorumMethods φ} {P : Session φ → Prop} {admits : Clock → Prop}

/-- What every call keeps, serving the timers keeps. -/
theorem serveTimers_keeps
    (hcall : ∀ session handler clock io, admits clock → P session →
      P (session.call methods handler clock io))
    {session : Session φ} (h : P session) {pass : Pass} (hpass : admits pass.clock) :
    P (session.serveTimers methods pass) := by
  unfold serveTimers
  split
  · split
    · exact hcall _ _ _ _ hpass h
    · exact h
  · split
    · exact hcall _ _ _ _ hpass h
    · exact h

/-- What every call keeps, a pass keeps, if it does not depend on how the loop ended. -/
theorem step_keeps
    (hcall : ∀ session handler clock io, admits clock → P session →
      P (session.call methods handler clock io))
    (hend : ∀ session shutdowns ended, P session →
      P { session with shutdowns := shutdowns, ended := ended })
    {session : Session φ} (h : P session) {pass : Pass} (hpass : pass.Admissible admits) :
    P (session.step methods pass) := by
  unfold step
  split
  · exact h
  · have hserved : P (session.serveTimers methods pass) := serveTimers_keeps hcall h hpass.1
    dsimp only
    split
    · exact hserved
    · unfold wakeUp
      split
      · rename_i clock envelope io hwake
        exact hcall _ _ _ _ (hpass.2 clock envelope io hwake) hserved
      · exact hend _ _ _ hserved
      · exact hend _ _ _ hserved
      · exact hserved

/-- What every call keeps holds after every run. -/
theorem run_keeps (admits : Clock → Prop)
    (hcall : ∀ session handler clock io, admits clock → P session →
      P (session.call methods handler clock io))
    (hend : ∀ session shutdowns ended, P session →
      P { session with shutdowns := shutdowns, ended := ended })
    {loop : EventLoop φ} (h : P (begin loop)) {passes : List Pass}
    (hpasses : ∀ pass ∈ passes, pass.Admissible admits) : P (run methods loop passes) :=
  foldl_keeps (step methods) P (fun _ _ h hpass => step_keeps hcall hend h hpass) h hpasses

/-- A call makes moves. -/
theorem call_moves (methods : QuorumMethods φ) (first : ℕ × Option NodeId) (session : Session φ)
    (handler : Handler) (clock : Clock) (io : Option XraftError) :
    Moves methods.toTimerMethods clock
      (Call.Passes methods ⟨handler, clock, session.loop,
        (session.call methods handler clock io).loop⟩)
      (view first session.loop session.handed)
      (view first (session.call methods handler clock io).loop
        (session.call methods handler clock io).handed) :=
  handle_moves methods clock _ first handler session.loop session.handed fun hhandler hcheck =>
    ⟨hhandler, hcheck⟩

/-- One of three voters stands for election as its timer expires, and is elected by another one. -/
def electedRun : List Pass :=
  [⟨10, ⟨11, 150⟩, none, .rpc ⟨12, 150⟩ ⟨0, 0, 2, .voteResponse ⟨1, true, false⟩⟩ none⟩]

/-- How the loop ended and what the listener was told of it. -/
structure Closed (session : Session φ) : Prop where
  once : session.shutdowns ≤ 1
  told : session.shutdowns = 1 ↔ session.ended = some (.ok ())

/-- A call of a loop that has not ended ends it with an error at most. -/
theorem Closed.call {session : Session φ} (h : session.Closed) (hrunning : session.ended = none)
    (handler : Handler) (clock : Clock) (io : Option XraftError) :
    (session.call methods handler clock io).Closed := by
  have hnone : session.shutdowns ≠ 1 := fun hone => by
    rw [h.told.mp hone] at hrunning
    cases hrunning
  refine ⟨h.once, iff_of_false hnone ?_⟩
  change (if (session.loop.handle methods clock handler).2.actions = [] then none
    else io.map Except.error) ≠ _
  by_cases hempty : (session.loop.handle methods clock handler).2.actions = []
  · simp [hempty]
  · cases io <;> simp [hempty]

/-- Serving the timers of a loop that has not ended ends it with an error at most. -/
theorem Closed.serveTimers {session : Session φ} (h : session.Closed)
    (hrunning : session.ended = none) (pass : Pass) :
    (session.serveTimers methods pass).Closed := by
  unfold Session.serveTimers
  split
  · split
    · exact h.call hrunning _ _ _
    · exact h
  · split
    · exact h.call hrunning _ _ _
    · exact h

/-- The listener is told to shut down once, as the loop ends. -/
theorem Closed.step {session : Session φ} (h : session.Closed) (pass : Pass) :
    (session.step methods pass).Closed := by
  unfold Session.step
  split
  · exact h
  · rename_i hrunning
    have hserved : (session.serveTimers methods pass).Closed :=
      h.serveTimers (Option.not_isSome_iff_eq_none.mp hrunning) pass
    dsimp only
    split
    · exact hserved
    · rename_i hwaits
      have hwaits := Option.not_isSome_iff_eq_none.mp hwaits
      have hzero : (session.serveTimers methods pass).shutdowns = 0 := by
        have honce := hserved.once
        have htold := hserved.told
        rw [hwaits] at htold
        have hnone : (session.serveTimers methods pass).shutdowns ≠ 1 :=
          fun hone => by cases htold.mp hone
        omega
      have hends : ∀ session : Session φ, session.shutdowns = 0 →
          Closed { session with shutdowns := session.shutdowns + 1, ended := some (.ok ()) } := by
        intro session hzero
        exact ⟨by rw [hzero], iff_of_true (by rw [hzero]) rfl⟩
      unfold wakeUp
      split
      · exact hserved.call hwaits _ _ _
      · exact hends _ hzero
      · exact hends _ hzero
      · exact hserved

/-- Whatever arrives and whenever timers expire and I/O fails, whenever the loop waits or has
ended, the state in memory is the one that was published, and its term and vote are those of the
last quorum state handed to the I/O stage. The listener is told to shut down exactly if the loop
ends without an error, and once. -/
theorem memory_handed_over (methods : QuorumMethods φ) (start : EventLoop φ)
    (hpublished : start.published = start.state.project) (passes : List Pass) :
    (run methods start passes).loop.published = (run methods start passes).loop.state.project ∧
      (run methods start passes).handed.foldl IoAction.save
          (start.state.currentTerm, start.state.votedFor) =
        ((run methods start passes).loop.state.currentTerm,
          (run methods start passes).loop.state.votedFor) ∧
      (run methods start passes).shutdowns ≤ 1 ∧
      ((run methods start passes).shutdowns = 1 ↔
        (run methods start passes).ended = some (.ok ())) := by
  have hmemory : (run methods start passes).loop.published =
      (run methods start passes).loop.state.project ∧
      Saved (view (start.state.currentTerm, start.state.votedFor) (run methods start passes).loop
        (run methods start passes).handed) := by
    refine run_keeps (fun _ => True)
      (P := fun session => session.loop.published = session.loop.state.project ∧
        Saved (view (start.state.currentTerm, start.state.votedFor) session.loop session.handed))
      (fun session handler clock io _ h => ⟨published_handle methods clock h.1 handler, ?_⟩)
      (fun _ _ _ h => h) ⟨hpublished, rfl⟩ fun _ _ => ⟨trivial, fun _ _ _ _ => trivial⟩
    exact moves_keep Saved.move h.2 (call_moves methods _ session handler clock io)
  have hclosed : (run methods start passes).Closed :=
    foldl_keeps (step methods) Closed (fun _ pass h (_ : True) => h.step pass) ⟨Nat.zero_le 1,
      by simp [begin]⟩
      fun _ _ => trivial
  exact ⟨hmemory.1, hmemory.2, hclosed.once, hclosed.told⟩

/-- The vote of a candidate cannot be saved; the loop ends, and an order to shut down comes too
late. -/
def failedRun : List Pass :=
  [⟨10, ⟨11, 150⟩, some (.storageError "disk full"), .timer⟩, ⟨20, ⟨21, 150⟩, none, .shutdown⟩]

/-- The candidate's state was published, and its vote handed over. -/
theorem memory_handed_over_failed :
    (run fetchWindow (EventLoops.threeLoops.loops 1) failedRun).shutdowns = 0 ∧
      (run fetchWindow (EventLoops.threeLoops.loops 1) failedRun).handed.foldl IoAction.save
        (0, none) = (1, some 1) ∧
      (run fetchWindow (EventLoops.threeLoops.loops 1) failedRun).loop.published =
        (run fetchWindow (EventLoops.threeLoops.loops 1) failedRun).loop.state.project := by
  have hmemory := memory_handed_over fetchWindow (EventLoops.threeLoops.loops 1) rfl failedRun
  exact ⟨by decide +kernel, hmemory.2.1.trans (by decide +kernel), hmemory.1⟩

/-- A leader's timer was started by a call that elected it or passed the quorum check in its
term. -/
def Leased (methods : QuorumMethods φ) (session : Session φ) : Prop :=
  session.loop.state.role = .leader → ∃ call ∈ session.calls, (call.Passes methods ∨ call.Elects) ∧
    call.after.state.currentTerm = session.loop.state.currentTerm ∧
    session.loop.checkQuorumDeadline = call.clock.now + session.loop.checkQuorumInterval

/-- A call leaves the lease alone or renews it. -/
theorem Leased.call (hsets : methods.Sets) {session : Session φ} (h : session.Leased methods)
    (handler : Handler) (clock : Clock) (io : Option XraftError) :
    (session.call methods handler clock io).Leased methods := by
  intro hleads
  obtain ⟨told, hgrown, hrenewed⟩ : Renewed clock _ _ _ :=
    moves_keep (Renewed.move hsets) ⟨[], (List.append_nil _).symm,
      fun hleads => Or.inl ⟨hleads, rfl, rfl, rfl⟩⟩
      (call_moves methods (0, none) session handler clock io)
  rcases hrenewed hleads with ⟨hled, hterm, hdeadline, hinterval⟩ | ⟨hdeadline, hwhy⟩
  · obtain ⟨call, hcall, hconfirms, hcurrent, hstarted⟩ := h hled
    refine ⟨call, List.mem_append_left _ hcall, hconfirms, hcurrent.trans hterm.symm, ?_⟩
    exact (hdeadline.trans hstarted).trans (congrArg _ hinterval.symm)
  · exact ⟨_, List.mem_append_right _ List.mem_cons_self,
      hwhy.imp id fun hmem => ⟨told, hgrown, hmem⟩, rfl, hdeadline⟩

/-- A check of the quorum sets the deadline of the role it leaves. -/
theorem nextDeadline_handleCheckQuorum (hsets : methods.Sets) (clock : Clock) {loop : EventLoop φ}
    (hleads : loop.state.role = .leader) (hinterval : 0 < loop.checkQuorumInterval)
    (htimeout : 0 < clock.randomElectionTimeout) :
    clock.now < (loop.handleCheckQuorum methods clock).1.nextDeadline ∧
      (loop.handleCheckQuorum methods clock).1.state.role ≠ .unattached := by
  unfold handleCheckQuorum
  dsimp only
  split
  · have hrole : ({ loop with
        checkQuorumDeadline := clock.now + loop.checkQuorumInterval }.publish).state.role =
          .leader := hleads
    rw [nextDeadline, if_pos hrole, hrole]
    exact ⟨Nat.lt_add_of_pos_right hinterval, nofun⟩
  · refine ⟨?_, nofun⟩
    change clock.now < methods.followerDeadline loop.state (clock.now + clock.randomElectionTimeout)
    rw [hsets.follower]
    exact Nat.lt_add_of_pos_right htimeout

/-- An election timeout sets the deadline of the role it leaves. -/
theorem nextDeadline_handleElectionTimeout (hsets : methods.Sets) (clock : Clock)
    {loop : EventLoop φ} (hrole : loop.state.role = .follower ∨ loop.state.role = .candidate)
    (htimeout : 0 < clock.randomElectionTimeout) :
    clock.now < (loop.handleElectionTimeout methods clock).1.nextDeadline ∧
      (loop.handleElectionTimeout methods clock).1.state.role ≠ .unattached := by
  unfold handleElectionTimeout
  split
  · have hdeadline : (loop.update { loop.state with
        electionDeadline := clock.now + clock.randomElectionTimeout }).nextDeadline =
          clock.now + clock.randomElectionTimeout := by
      rcases hrole with hrole | hrole <;> simp [nextDeadline, update, hrole]
    rw [hdeadline]
    refine ⟨Nat.lt_add_of_pos_right htimeout, ?_⟩
    change loop.state.role ≠ .unattached
    rcases hrole with hrole | hrole <;> rw [hrole] <;> exact nofun
  · have hlater : clock.now < clock.now + clock.randomElectionTimeout :=
      Nat.lt_add_of_pos_right htimeout
    dsimp only
    split
    · refine ⟨?_, nofun⟩
      change clock.now < methods.leaderDeadline _ clock.now clock.randomElectionTimeout
      rwa [hsets.leaderDeadline]
    · refine ⟨?_, nofun⟩
      change clock.now <
        methods.candidateDeadline loop.state (clock.now + clock.randomElectionTimeout)
      rwa [hsets.candidate]

/-- Once the timers are served, the next deadline lies ahead, except for an unattached node whose
election deadline has passed. -/
theorem serveTimers_deadline (hsets : methods.Sets) {session : Session φ}
    (hticks : session.loop.state.role = .leader →
    0 < session.loop.checkQuorumInterval) {pass : Pass}
    (htimeout : 0 < pass.clock.randomElectionTimeout) (htime : pass.now ≤ pass.clock.now) :
    pass.now < (session.serveTimers methods pass).loop.nextDeadline ↔
      ¬ ((session.serveTimers methods pass).loop.state.role = .unattached ∧
        (session.serveTimers methods pass).loop.state.electionDeadline ≤ pass.now) := by
  have hserved : ∀ loop : EventLoop φ, pass.clock.now < loop.nextDeadline ∧
      loop.state.role ≠ .unattached →
      (pass.now < loop.nextDeadline ↔
        ¬ (loop.state.role = .unattached ∧ loop.state.electionDeadline ≤ pass.now)) :=
    fun loop h => iff_of_true (htime.trans_lt h.1) fun hunattached => h.2 hunattached.1
  unfold serveTimers
  split
  · rename_i hleads
    split
    · exact hserved _
        (nextDeadline_handleCheckQuorum hsets pass.clock hleads (hticks hleads) htimeout)
    · rename_i hearly
      rw [nextDeadline, if_pos hleads, hleads]
      exact iff_of_true (Nat.not_le.mp hearly) fun hunattached => by cases hunattached.1
  · rename_i hleads
    split
    · rename_i hdue
      exact hserved _ (nextDeadline_handleElectionTimeout hsets pass.clock hdue.1 htimeout)
    · rename_i hdue
      rw [nextDeadline, if_neg hleads]
      constructor
      · exact fun hearly hunattached => absurd hunattached.2 (Nat.not_le.mpr hearly)
      · intro hattached
        by_contra hlate
        cases hrole : session.loop.state.role with
        | unattached => exact hattached ⟨hrole, Nat.not_lt.mp hlate⟩
        | follower => exact hdue ⟨Or.inl hrole, Nat.not_lt.mp hlate⟩
        | candidate => exact hdue ⟨Or.inr hrole, Nat.not_lt.mp hlate⟩
        | leader => exact hleads hrole

/-- After any run with methods that set the timers they are given, a loop that has served its
timers sleeps until a deadline in the future, unless it is unattached and its election deadline
has passed; a leader that goes to sleep was elected or had its quorum confirmed in its term less
than one interval before. -/
theorem waits_for_future (methods : QuorumMethods φ) (hsets : methods.Sets) (start : EventLoop φ)
    (hrole : start.state.role ≠ .leader) {passes : List Pass}
    (hpasses : ∀ pass ∈ passes, pass.Admissible fun clock => 0 < clock.randomElectionTimeout)
    {pass : Pass} (htimeout : 0 < pass.clock.randomElectionTimeout)
    (htime : pass.now ≤ pass.clock.now) :
    (pass.now < ((run methods start passes).serveTimers methods pass).loop.nextDeadline ↔
      ¬ (((run methods start passes).serveTimers methods pass).loop.state.role = .unattached ∧
        ((run methods start passes).serveTimers methods pass).loop.state.electionDeadline ≤
          pass.now)) ∧
    (((run methods start passes).serveTimers methods pass).loop.state.role = .leader →
      ∃ call ∈ ((run methods start passes).serveTimers methods pass).calls,
        (call.Passes methods ∨ call.Elects) ∧
        call.after.state.currentTerm =
          ((run methods start passes).serveTimers methods pass).loop.state.currentTerm ∧
        pass.now < call.clock.now +
          ((run methods start passes).serveTimers methods pass).loop.checkQuorumInterval) := by
  have hticks : Ticks
      (view (0, none) (run methods start passes).loop (run methods start passes).handed) :=
    run_keeps (fun clock => 0 < clock.randomElectionTimeout)
      (P := fun session => Ticks (view (0, none) session.loop session.handed))
      (fun session handler clock io hclock h =>
        moves_keep (Ticks.move hsets hclock) h (call_moves methods _ session handler clock io))
      (fun _ _ _ h => h) (fun hleads => absurd hleads hrole) hpasses
  have hleased : (run methods start passes).Leased methods :=
    run_keeps (fun clock => 0 < clock.randomElectionTimeout)
      (P := fun session => session.Leased methods)
      (fun _ handler clock io _ h => Leased.call hsets h handler clock io)
      (fun _ _ _ h => h) (fun hleads => absurd hleads hrole) hpasses
  have hdeadline : pass.now <
      ((run methods start passes).serveTimers methods pass).loop.nextDeadline ↔ _ :=
    serveTimers_deadline hsets hticks htimeout htime
  refine ⟨hdeadline, fun hleads => ?_⟩
  have hserved : ((run methods start passes).serveTimers methods pass).Leased methods :=
    serveTimers_keeps (P := fun session => session.Leased methods)
      (fun _ handler clock io (_ : 0 < clock.randomElectionTimeout) h =>
        Leased.call hsets h handler clock io)
      hleased htimeout
  obtain ⟨call, hcall, hconfirms, hterm, hstarted⟩ := hserved hleads
  refine ⟨call, hcall, hconfirms, hterm, ?_⟩
  rw [← hstarted]
  have hahead := hdeadline.mpr fun hunattached => by
    rw [hleads] at hunattached
    cases hunattached.1
  rw [nextDeadline, if_pos hleads] at hahead
  exact hahead

/-- The elected voter sleeps until its quorum check. -/
theorem waits_for_future_elected :
    ((run fetchWindow (EventLoops.threeLoops.loops 1) electedRun).serveTimers fetchWindow
        ⟨100, ⟨101, 150⟩, none, .timer⟩).loop.state.role = .leader ∧
      100 < ((run fetchWindow (EventLoops.threeLoops.loops 1) electedRun).serveTimers fetchWindow
        ⟨100, ⟨101, 150⟩, none, .timer⟩).loop.nextDeadline := by
  have hpositive : ∀ pass ∈ electedRun, pass.Admissible fun clock =>
    0 < clock.randomElectionTimeout := by
    intro pass hpass
    obtain rfl := List.mem_singleton.mp hpass
    refine ⟨by decide, fun clock envelope io hwake => ?_⟩
    cases hwake
    decide
  have hwaits :=
    waits_for_future fetchWindow TimerMethods.sets_given (EventLoops.threeLoops.loops 1)
      nofun hpositive
      (show 0 < (⟨100, ⟨101, 150⟩, none, .timer⟩ : Pass).clock.randomElectionTimeout by decide)
      (by decide)
  have hleads :
      ((run fetchWindow (EventLoops.threeLoops.loops 1) electedRun).serveTimers fetchWindow
      ⟨100, ⟨101, 150⟩, none, .timer⟩).loop.state.role = .leader := by decide +kernel
  refine ⟨hleads, hwaits.1.mpr fun hunattached => ?_⟩
  rw [hleads] at hunattached
  cases hunattached.1

end Session

end EventLoop

end XRaft
