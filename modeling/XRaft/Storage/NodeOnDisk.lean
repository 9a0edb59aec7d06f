import XRaft.Core.Life
import XRaft.Storage.EngineLifetimes

/-!
# A node on the storage engine

`RaftNode` takes its stores as trait objects, and `StorageEngine` provides them: a segment log
and a quorum state file. Here the two are put together. A call of the node makes calls on its
stores, in the order of the source, and the engine carries them out on its files. A crash
loses the node and the engine in memory; the next start opens the files and gives the node
what it finds there.

The node on the engine is the node of the other modules, whose stores are values that survive
a crash: it goes through the same states, no call on the engine fails, and what the engine
answers is what the stores hold. The calls of the node are what the engine asks for; in
particular it appends at the end of its log only.

A failing append fails here before it has written anything. A save that fails stops at one of
its steps before the rename; that it is cut off after the rename is a crash.
-/

namespace XRaft

open Lib

/-- A call of a node on its stores that changes them; a save replaces the state or stops before. -/
inductive StoreCall where
  | append (entries : List LogEntry)
  | truncateSuffix (fromOffset : ℕ)
  | save (state : QuorumState) (written : Bool)
  deriving DecidableEq, Repr

/-- The stores after a call. -/
def Stores.apply (stores : Stores) : StoreCall → Stores
  | .append entries => { stores with log := stores.log.append entries }
  | .truncateSuffix fromOffset => { stores with log := stores.log.truncateSuffix fromOffset }
  | .save state written => if written then { stores with quorumState := some state } else stores

/-- What the call is for the engine, in a process and with the step at which a failing save
stops. -/
def StoreCall.event (processId : ℕ) (stop : ReplaceStop String) : StoreCall → StorageEvent
  | .append entries => .log (.append entries)
  | .truncateSuffix fromOffset => .log (.truncateSuffix fromOffset)
  | .save state written => .save processId state (if written then none else some stop)

/-- The entries of the call fit the frames of a segment. -/
def StoreCall.Fits (codec : BatchCodec) : StoreCall → Prop
  | .append entries => ∀ part ∈ entries.inits, codec.format.Fits part
  | _ => True

instance (codec : BatchCodec) : DecidablePred (StoreCall.Fits codec)
  | .append entries => inferInstanceAs (Decidable (∀ part ∈ entries.inits, codec.format.Fits part))
  | .truncateSuffix _ | .save _ _ => isTrue trivial

/-- The call continues the log, or truncates it behind its start. -/
def StoreCall.Valid (stores : Stores) : StoreCall → Prop
  | .append entries => Consecutive LogEntry.offset stores.log.logEndOffset entries
  | .truncateSuffix fromOffset => stores.log.startOffset ≤ fromOffset
  | .save _ _ => True

/-- The save replaces the stored state. -/
def SaveOutcome.written : SaveOutcome → Bool
  | .ok => true
  | .failed _ => false
  | .failedAfterWrite _ => true

/-- No save fails after it has written. -/
def Faults.Reported (faults : Faults) : Prop :=
  ∀ reason, faults.saveTerm ≠ .failedAfterWrite reason ∧ faults.saveVote ≠ .failedAfterWrite reason

namespace RaftNode

/-- The calls of `become_leader` on the stores. -/
def leaderCalls (codec : VotersCodec) (faults : Faults) (node : RaftNode) : List StoreCall :=
  match faults.appendLeaderChange with
  | some _ => []
  | none =>
    .append [node.leaderChange] ::
      if node.logHasVotersRecord faults then []
      else match codec.serialize ⟨1, node.state.voterSet⟩ with
        | .error _ => []
        | .ok payload =>
          match faults.appendVoters, faults.rollback with
          | none, _ => [.append [node.votersEntry payload]]
          | some _, none => [.truncateSuffix node.stores.log.logEndOffset]
          | some _, some _ => []

/-- The calls of `handle_election_timeout`. -/
def electionCalls (codec : VotersCodec) (faults : Faults) (node : RaftNode) : List StoreCall :=
  if node.state.role ≠ .follower ∧ node.state.role ≠ .candidate then []
  else
    let node := node.becomeCandidate
    let state := node.quorumState node.state.votedFor
    .save state faults.saveVote.written ::
      match node.save faults.saveVote state with
      | (.error _, _) => []
      | (.ok _, node) => if node.hasQuorum then node.leaderCalls codec faults else []

/-- The calls of the decision of a vote request. -/
def decideCalls (faults : Faults) (request : VoteRequest) (node : RaftNode) : List StoreCall :=
  if request.term < node.state.currentTerm then []
  else if (node.canVote request && node.logOk faults request) && !request.isPreVote then
    [.save ((node.voteFor request.candidateId).quorumState (some request.candidateId))
      faults.saveVote.written]
  else []

/-- The calls of `handle_vote_request`. -/
def requestCalls (clock : Clock) (faults : Faults) (request : VoteRequest) (node : RaftNode) :
    List StoreCall :=
  if ¬ node.state.voterSet.any (fun voter => voter.nodeId == request.candidateId) then []
  else if request.term > node.state.currentTerm then
    let node := node.stepDown clock request.term
    .save (node.quorumState none) faults.saveTerm.written ::
      match node.save faults.saveTerm (node.quorumState none) with
      | (.error _, _) => []
      | (.ok _, node) => node.decideCalls faults request
  else node.decideCalls faults request

/-- The calls of `handle_vote_response`. -/
def responseCalls (codec : VotersCodec) (clock : Clock) (faults : Faults) (source : NodeId)
    (response : VoteResponse) (node : RaftNode) : List StoreCall :=
  if response.term > node.state.currentTerm then
    [.save ((node.stepDown clock response.term).quorumState none) faults.saveTerm.written]
  else if node.state.role ≠ .candidate ∨ response.term ≠ node.state.currentTerm then []
  else if response.isPreVote then []
  else if ¬ node.state.voterSet.any (fun voter => voter.nodeId == source) then []
  else if response.voteGranted then
    if (node.count source).hasQuorum then (node.count source).leaderCalls codec faults else []
  else []

/-- The calls of `handle_rpc`. -/
def rpcCalls (codec : VotersCodec) (clock : Clock) (faults : Faults) (envelope : RpcEnvelope)
    (node : RaftNode) : List StoreCall :=
  if node.bootstrapped ∧ node.state.clusterId ≠ ClusterId.nil ∧
      (envelope.clusterId = ClusterId.nil ∨ node.state.clusterId ≠ envelope.clusterId) then []
  else match envelope.payload with
    | .voteRequest request => node.requestCalls clock faults request
    | .voteResponse response => node.responseCalls codec clock faults envelope.source response
    | _ => []

/-- The calls that a call of the node makes on its stores. -/
def storeCalls (codec : VotersCodec) (node : RaftNode) (input : NodeInput) : List StoreCall :=
  match input.event with
  | .bootstrap _ _ => []
  | .tick =>
    if (node.state.role = .follower ∨ node.state.role = .candidate) ∧
      input.clock.now ≥ node.state.electionDeadline then
      node.electionCalls codec input.faults
    else []
  | .electionTimeout => node.electionCalls codec input.faults
  | .voteRequest request => node.requestCalls input.clock input.faults request
  | .voteResponse source response =>
    node.responseCalls codec input.clock input.faults source response
  | .rpc envelope => node.rpcCalls codec input.clock input.faults envelope

/-- The calls are valid one after another, and make of the stores before the stores after. -/
structure Performs (before : Stores) (calls : List StoreCall) (after : Stores) : Prop where
  valid : Along Stores.apply StoreCall.Valid before calls
  stores : calls.foldl Stores.apply before = after

section

variable {before after : Stores} {calls : List StoreCall} {node : RaftNode}

/-- Nothing is called. -/
theorem Performs.nil (stores : Stores) : Performs stores [] stores := ⟨trivial, rfl⟩

/-- One call before others. -/
theorem Performs.cons {call : StoreCall} (hcall : call.Valid before)
    (h : Performs (before.apply call) calls after) : Performs before (call :: calls) after :=
  ⟨⟨hcall, h.valid⟩, h.stores⟩

/-- One call. -/
theorem Performs.single {call : StoreCall} (hcall : call.Valid before) :
    Performs before [call] (before.apply call) :=
  .cons hcall (.nil _)

/-- What a save leaves in the stores. -/
theorem stores_save (node : RaftNode) (outcome : SaveOutcome) (state : QuorumState) :
    (node.save outcome state).2.stores = node.stores.apply (.save state outcome.written) := by
  cases outcome <;> rfl

/-- The calls of a node that won, on a contiguous log. -/
theorem performs_becomeLeader (h : node.stores.log.Contiguous) (codec : VotersCodec)
    (faults : Faults) :
    Performs node.stores (node.leaderCalls codec faults)
      (node.becomeLeader codec faults).2.stores := by
  have hchange : (StoreCall.append [node.leaderChange]).Valid node.stores :=
    (consecutive_cons _ _ _).mpr ⟨rfl, consecutive_nil _⟩
  unfold leaderCalls becomeLeader
  dsimp only
  cases faults.appendLeaderChange with
  | some reason => exact .nil _
  | none =>
    dsimp only
    refine .cons hchange ?_
    cases node.logHasVotersRecord faults with
    | true => exact .nil _
    | false =>
      simp only [Bool.false_eq_true, if_false, Bool.not_false, if_true]
      cases codec.serialize ⟨1, node.state.voterSet⟩ with
      | error reason => exact .nil _
      | ok payload =>
        dsimp only
        cases faults.appendVoters with
        | none =>
          dsimp only
          rw [LogStore.logEndOffset_append]
          refine .single ((consecutive_cons _ _ _).mpr ⟨?_, consecutive_nil _⟩)
          exact (LogStore.logEndOffset_append _ node.leaderChange).symm
        | some reason =>
          cases faults.rollback with
          | some _ => exact .nil _
          | none =>
            dsimp only
            rw [LogStore.logEndOffset_append]
            have hbehind : (StoreCall.truncateSuffix node.stores.log.logEndOffset).Valid
                (node.stores.apply (.append [node.leaderChange])) :=
              h.logEndOffset_eq ▸ Nat.le_add_right _ _
            exact .single hbehind

/-- The calls of an election timeout. -/
theorem performs_handleElectionTimeout (h : node.stores.log.Contiguous) (codec : VotersCodec)
    (clock : Clock) (faults : Faults) :
    Performs node.stores (node.electionCalls codec faults)
      (node.handleElectionTimeout codec clock faults).node.stores := by
  unfold electionCalls handleElectionTimeout
  split_ifs
  · exact .nil _
  · dsimp only
    refine .cons trivial ?_
    rw [show node.stores = node.becomeCandidate.stores from rfl, ← stores_save]
    have hlog : (node.becomeCandidate.save faults.saveVote
        (node.becomeCandidate.quorumState
          node.becomeCandidate.state.votedFor)).2.stores.log.Contiguous := by
      cases faults.saveVote <;> exact h
    generalize node.becomeCandidate.save faults.saveVote
      (node.becomeCandidate.quorumState node.becomeCandidate.state.votedFor) = saved at hlog ⊢
    obtain ⟨result, saved⟩ := saved
    cases result with
    | error e => exact .nil _
    | ok _ =>
      dsimp only
      split_ifs
      · exact performs_becomeLeader hlog codec faults
      · exact .nil _

/-- The calls of the decision of a vote request. -/
theorem performs_decideVote (clock : Clock) (faults : Faults) (request : VoteRequest)
    (node : RaftNode) :
    Performs node.stores (node.decideCalls faults request)
      (node.decideVote clock faults request).2.stores := by
  unfold decideCalls decideVote
  dsimp only
  split_ifs
  · exact .nil _
  · cases faults.saveVote <;> exact .single trivial
  · exact .nil _

/-- The calls of a vote request. -/
theorem performs_handleVoteRequest (clock : Clock) (faults : Faults) (request : VoteRequest)
    (node : RaftNode) :
    Performs node.stores (node.requestCalls clock faults request)
      (node.handleVoteRequest clock faults request).2.stores := by
  unfold requestCalls handleVoteRequest
  split
  · exact .nil _
  · split
    · dsimp only
      refine .cons trivial ?_
      rw [show node.stores = (node.stepDown clock request.term).stores from rfl, ← stores_save]
      generalize (node.stepDown clock request.term).save faults.saveTerm
        ((node.stepDown clock request.term).quorumState none) = saved
      obtain ⟨result, saved⟩ := saved
      cases result with
      | error e => exact .nil _
      | ok _ => exact performs_decideVote clock faults request saved
    · exact performs_decideVote clock faults request node

/-- The calls of a vote response. -/
theorem performs_handleVoteResponse (h : node.stores.log.Contiguous) (codec : VotersCodec)
    (clock : Clock) (faults : Faults) (source : NodeId) (response : VoteResponse) :
    Performs node.stores (node.responseCalls codec clock faults source response)
      (node.handleVoteResponse codec clock faults source response).2.stores := by
  have hcounted : Performs (node.count source).stores
      (if (node.count source).hasQuorum then (node.count source).leaderCalls codec faults else [])
      (if (node.count source).hasQuorum then (node.count source).becomeLeader codec faults
        else (.ok (), node.count source)).2.stores := by
    have hlog : (node.count source).stores.log.Contiguous := h
    split
    · exact performs_becomeLeader hlog codec faults
    · exact .nil _
  unfold responseCalls handleVoteResponse
  split
  · rw [stores_save]
    exact .single trivial
  · split
    · exact .nil _
    · split
      · exact .nil _
      · split
        · exact .nil _
        · split
          · exact hcounted
          · exact .nil _

/-- The calls of an envelope. -/
theorem performs_handleRpc (h : node.stores.log.Contiguous) (codec : VotersCodec) (clock : Clock)
    (faults : Faults) (envelope : RpcEnvelope) :
    Performs node.stores (node.rpcCalls codec clock faults envelope)
      (node.handleRpc codec clock faults envelope).node.stores := by
  unfold rpcCalls handleRpc
  split_ifs
  · exact .nil _
  · obtain ⟨clusterId, leaderEpoch, source, payload⟩ := envelope
    cases payload with
    | voteRequest request =>
      have hrequest := performs_handleVoteRequest clock faults request node
      dsimp only
      generalize node.handleVoteRequest clock faults request = handled at hrequest ⊢
      obtain ⟨result, handled⟩ := handled
      cases result with
      | error e => exact hrequest
      | ok response => cases faults.send <;> exact hrequest
    | voteResponse response =>
      exact performs_handleVoteResponse h codec clock faults source response
    | _ => exact .nil _

/-- Forming a cluster calls nothing. -/
theorem stores_bootstrap (clock : Clock) (faults : Faults) (clusterId : ClusterId)
    (voters : List VoterInfo) (node : RaftNode) :
    (node.bootstrap clock faults clusterId voters).node.stores = node.stores := by
  unfold bootstrap
  split_ifs
  · rfl
  · rfl
  · split
    · rfl
    · rfl
    · split <;> rfl

/-- A call of a node with a contiguous log makes valid calls on the stores, and these make the
stores after it. -/
theorem performs_handle (h : node.stores.log.Contiguous) (codec : VotersCodec) (input : NodeInput) :
    Performs node.stores (node.storeCalls codec input) (node.handle codec input).stores := by
  unfold storeCalls handle
  cases input.event with
  | bootstrap clusterId voters =>
    dsimp only
    rw [stores_bootstrap]
    exact .nil _
  | tick =>
    dsimp only
    unfold tick
    split_ifs
    · exact performs_handleElectionTimeout h codec input.clock input.faults
    · exact .nil _
  | electionTimeout => exact performs_handleElectionTimeout h codec input.clock input.faults
  | voteRequest request => exact performs_handleVoteRequest input.clock input.faults request node
  | voteResponse source response =>
    exact performs_handleVoteResponse h codec input.clock input.faults source response
  | rpc envelope => exact performs_handleRpc h codec input.clock input.faults envelope

end

end RaftNode

/-- The record of the storage is what the stores hold. -/
structure StorageRecord.Mirrors (record : StorageRecord) (stores : Stores) : Prop where
  log : record.log.HeldBy stores.log
  quorumState : record.quorumState = stores.quorumState
  snapshot : stores.snapshot = none

namespace StorageRecord.Mirrors

variable {codec : BatchCodec} {record : StorageRecord} {stores : Stores}

/-- A start does not change what is held. -/
theorem start (h : record.Mirrors stores) : record.start.Mirrors stores :=
  ⟨h.log, h.quorumState, h.snapshot⟩

/-- A valid call is one that the engine accepts, and does the same to both. -/
theorem apply (h : record.Mirrors stores) {call : StoreCall} (hvalid : call.Valid stores)
    (hfits : call.Fits codec) (processId : ℕ) (stop : ReplaceStop String) :
    (call.event processId stop).Admits codec record ∧
      (record.step (call.event processId stop)).Mirrors (stores.apply call) := by
  cases call with
  | append entries =>
    have hadmits : (LogOp.append entries).Valid codec record.log :=
      ⟨h.log.endOffset ▸ hvalid, hfits⟩
    exact ⟨hadmits, h.log.apply hadmits rfl, h.quorumState, h.snapshot⟩
  | truncateSuffix fromOffset =>
    have hadmits : (LogOp.truncateSuffix fromOffset).Valid codec record.log :=
      h.log.start.symm.le.trans hvalid
    exact ⟨hadmits, h.log.apply hadmits rfl, h.quorumState, h.snapshot⟩
  | save state written =>
    refine ⟨trivial, ?_⟩
    cases written with
    | true => exact ⟨h.log, rfl, h.snapshot⟩
    | false => exact h

/-- Valid calls are accepted one after another, and do the same to both. -/
theorem performs (h : record.Mirrors stores) {calls : List StoreCall} {after : Stores}
    (hcalls : RaftNode.Performs stores calls after) (hfits : ∀ call ∈ calls, call.Fits codec)
    (processId : ℕ) (stop : ReplaceStop String) :
    Along StorageRecord.step (fun record event => event.Admits codec record) record
        (calls.map (StoreCall.event processId stop)) ∧
      ((calls.map (StoreCall.event processId stop)).foldl StorageRecord.step record).Mirrors
        after := by
  obtain ⟨hvalid, rfl⟩ := hcalls
  induction calls generalizing record stores with
  | nil => exact ⟨trivial, h⟩
  | cons call rest ih =>
    obtain ⟨hcall, hrest⟩ := List.forall_mem_cons.mp hfits
    obtain ⟨hadmits, hnext⟩ := h.apply hvalid.1 hcall processId stop
    obtain ⟨halong, hlast⟩ := ih hnext hrest hvalid.2
    exact ⟨⟨hadmits, halong⟩, hlast⟩

end StorageRecord.Mirrors

namespace StorageNode

variable (codecs : StorageCodecs)

/-- What the engine gives a node that starts: its whole log, and the quorum state. -/
def stores (disk : StorageNode) : Except StorageError Stores := do
  let entries ← (Store.mk disk.engine.log disk.files.log).read codecs.batch
      disk.engine.log.logStartOffset
    disk.engine.log.logEndOffset
  return ⟨⟨entries, disk.engine.log.logStartOffset⟩, disk.engine.quorumState.load, none⟩

/-- The engine answers every call that reads as the stores do. -/
structure Answers (disk : StorageNode) (stores : Stores) : Prop where
  logStartOffset : disk.engine.log.logStartOffset = stores.log.logStartOffset
  logEndOffset : disk.engine.log.logEndOffset = stores.log.logEndOffset
  read : ∀ startOffset endOffset,
    (Store.mk disk.engine.log disk.files.log).read codecs.batch startOffset endOffset =
    .ok (stores.log.read startOffset endOffset)
  entryAt : ∀ offset, (Store.mk disk.engine.log disk.files.log).entryAt codecs.batch offset =
    .ok (stores.log.entryAt offset)
  load : disk.engine.quorumState.load = stores.quorumState

/-- The engine holds the stores of a node. -/
def Holds (disk : StorageNode) (stores : Stores) : Prop :=
  ∃ record : StorageRecord, disk.Keeps codecs record ∧ record.Mirrors stores

variable {codecs} {disk : StorageNode} {stores : Stores}

/-- An engine that holds the stores answers as they do. -/
theorem Holds.answers (h : disk.Holds codecs stores) : disk.Answers codecs stores := by
  obtain ⟨record, hkeeps, hmirrors⟩ := h
  obtain ⟨base, pieces, hlog⟩ := hkeeps.log
  obtain ⟨hstart, hend, hread, hentry⟩ := hmirrors.log.answers hlog.represents
  refine ⟨hstart, hend, hread, hentry, ?_⟩
  rw [QuorumStateFile.load, hkeeps.cached]
  exact hmirrors.quorumState

/-- An engine that holds the stores gives them to a node that starts. -/
theorem Holds.stores_eq (h : disk.Holds codecs stores) : disk.stores codecs = .ok stores := by
  obtain ⟨hstart, hend, hread, -, hload⟩ := h.answers
  obtain ⟨record, -, hmirrors⟩ := h
  rw [StorageNode.stores, hread, hstart, hend, hload, hmirrors.log.contiguous.read_all]
  obtain ⟨log, quorumState, snapshot⟩ := stores
  obtain rfl : snapshot = none := hmirrors.snapshot
  rfl

/-- The calls of a node succeed on an engine that holds its stores, which holds the stores after
them. -/
theorem Holds.performs (htotal : Total codecs) (h : disk.Holds codecs stores)
    {calls : List StoreCall} {after : Stores} (hcalls : RaftNode.Performs stores calls after)
    (hfits : ∀ call ∈ calls, call.Fits codecs.batch) (processId : ℕ) (stop : ReplaceStop String) :
    ∃ next, (calls.map (StoreCall.event processId stop)).foldlM (StorageNode.step codecs) disk =
      .ok next ∧
      next.Holds codecs after := by
  obtain ⟨record, hkeeps, hmirrors⟩ := h
  obtain ⟨halong, hlast⟩ := hmirrors.performs hcalls hfits processId stop
  obtain ⟨next, hnext, hnextKeeps⟩ := foldlM_refines StorageRecord.step (Keeps codecs)
    (fun _ _ _ hrelated hadmits => hrelated.step htotal hadmits) hkeeps halong
  exact ⟨next, hnext, _, hnextKeeps, hlast⟩

/-- The files of an engine that holds the stores can be opened, and then hold them. -/
theorem Holds.start (htotal : Total codecs) (h : disk.Holds codecs stores) :
    ∃ next, openOn codecs none disk.files = .ok next ∧ next.Holds codecs stores := by
  obtain ⟨record, hkeeps, hmirrors⟩ := h
  obtain ⟨next, hnext, hnextKeeps⟩ := hkeeps.start htotal none
  exact ⟨next, hnext, record.start, hnextKeeps, hmirrors.start⟩

/-- Files that no process has used hold empty stores. -/
theorem holds_unused (htotal : Total codecs) (quorumTemps : ℕ → Option String)
    (epochTemps : Unit → Option Bytes) :
    ∃ first, openOn codecs none (unused quorumTemps epochTemps) = .ok first ∧
      first.Holds codecs Stores.empty := by
  obtain ⟨first, hfirst, hkeeps⟩ := openOn_unused htotal quorumTemps epochTemps none
  exact ⟨first, hfirst, _, hkeeps, ⟨rfl, rfl, consecutive_nil 0⟩, rfl, rfl⟩

end StorageNode

/-- What happens to the process of a node: a start, a call that returns, a crash in a call, and a
crash between calls. A call comes with its process and with the step at which a failing save
stops. -/
inductive ProcessEvent where
  | start (clock : Clock) (faults : Faults)
  | call (input : NodeInput) (processId : ℕ) (stop : ReplaceStop String)
  | interrupt (input : NodeInput) (processId : ℕ) (stop : ReplaceStop String)
  | crash

/-- The host after an event. A start that fails, and an event that does not concern it, leave it
as it is. -/
def Host.next (d : Deployment) (i : NodeId) : Host → ProcessEvent → Host
  | .down stores, .start clock faults =>
    match RaftNode.new d.codec clock faults (d.config i) stores with
    | .ok node => .running node
    | .error _ => .down stores
  | .running node, .call input _ _ => .running (node.handle d.codec input)
  | .running node, .interrupt input _ _ => .down (node.handle d.codec input).stores
  | .running node, .crash => .down node.stores
  | host, _ => host

/-- The calls of a node are permitted and fit the frames, and a save that fails in a call that
returns has not written. -/
def ProcessEvent.Admits (codec : BatchCodec) (d : Deployment) : Host → ProcessEvent → Prop
  | .running node, .call input _ _ =>
    d.Permits input.event ∧ input.faults.Reported ∧ ∀ call ∈ node.storeCalls d.codec input,
      call.Fits codec
  | .running node, .interrupt input _ _ =>
    d.Permits input.event ∧ ∀ call ∈ node.storeCalls d.codec input, call.Fits codec
  | _, _ => True

/-- A host with its files: a node and an engine, or the files alone. -/
inductive DiskHost where
  | running (node : RaftNode) (disk : StorageNode)
  | down (files : StorageFiles)

namespace DiskHost

variable (codecs : StorageCodecs) (d : Deployment) (i : NodeId)

/-- The calls of a node on its engine. -/
def perform (node : RaftNode) (disk : StorageNode) (input : NodeInput) (processId : ℕ)
    (stop : ReplaceStop String) :
    Except StorageError StorageNode :=
  ((node.storeCalls d.codec input).map (StoreCall.event processId stop)).foldlM
    (StorageNode.step codecs) disk

/-- The host after an event. A start opens the files and gives the node what is in them. -/
def step : DiskHost → ProcessEvent → Except StorageError DiskHost
  | .down files, .start clock faults => do
    let disk ← StorageNode.openOn codecs none files
    let stores ← disk.stores codecs
    match RaftNode.new d.codec clock faults (d.config i) stores with
    | .ok node => return .running node disk
    | .error _ => return .down disk.files
  | .running node disk, .call input processId stop => do
    let disk ← perform codecs d node disk input processId stop
    return .running (node.handle d.codec input) disk
  | .running node disk, .interrupt input processId stop => do
    let disk ← perform codecs d node disk input processId stop
    return .down disk.files
  | .running _ disk, .crash => .ok (.down disk.files)
  | host, _ => .ok host

/-- The node is the same, and its engine or its files hold its stores. -/
inductive Matches : DiskHost → Host → Prop where
  | running (node : RaftNode) (disk : StorageNode) (hholds : disk.Holds codecs node.stores) :
      Matches (.running node disk) (.running node)
  | down (files : StorageFiles) (stores : Stores) (disk : StorageNode)
      (hopen : StorageNode.openOn codecs none files = .ok disk)
      (hholds : disk.Holds codecs stores) :
      Matches (.down files) (.down stores)

variable {codecs d i} {onDisk : DiskHost} {host : Host}

/-- A host whose files are opened again matches. -/
theorem matches_down (htotal : StorageNode.Total codecs) {disk : StorageNode} {stores : Stores}
    (h : disk.Holds codecs stores) : Matches codecs (.down disk.files) (.down stores) := by
  obtain ⟨next, hopen, hholds⟩ := h.start htotal
  exact .down _ _ next hopen hholds

/-- The calls of a node succeed on its engine, which then holds what the node has stored. -/
theorem perform_holds (htotal : StorageNode.Total codecs) {node : RaftNode} {disk : StorageNode}
    (h : disk.Holds codecs node.stores) {input : NodeInput}
    (hfits : ∀ call ∈ node.storeCalls d.codec input, call.Fits codecs.batch) (processId : ℕ)
    (stop : ReplaceStop String) :
    ∃ next, perform codecs d node disk input processId stop = .ok next ∧
      next.Holds codecs (node.handle d.codec input).stores := by
  obtain ⟨record, -, hmirrors⟩ := id h
  exact h.performs htotal (RaftNode.performs_handle hmirrors.log.contiguous d.codec input) hfits
    processId stop

/-- Every admissible event succeeds, and keeps the hosts alike. -/
theorem Matches.step (htotal : StorageNode.Total codecs) (h : Matches codecs onDisk host)
    {event : ProcessEvent} (hadmits : event.Admits codecs.batch d host) :
    ∃ next, onDisk.step codecs d i event = .ok next ∧
      Matches codecs next (host.next d i event) := by
  cases h with
  | running node disk hholds =>
    cases event with
    | start clock faults => exact ⟨_, rfl, .running node disk hholds⟩
    | call input processId stop =>
      obtain ⟨next, hnext, hnextHolds⟩ := perform_holds htotal hholds hadmits.2.2 processId stop
      exact ⟨.running _ next, by simp [DiskHost.step, hnext, pure, Except.pure, bind, Except.bind],
        .running _ next hnextHolds⟩
    | interrupt input processId stop =>
      obtain ⟨next, hnext, hnextHolds⟩ := perform_holds htotal hholds hadmits.2 processId stop
      exact ⟨.down next.files, by simp [DiskHost.step, hnext, pure, Except.pure, bind, Except.bind],
        matches_down htotal hnextHolds⟩
    | crash => exact ⟨_, rfl, matches_down htotal hholds⟩
  | down files stores disk hopen hholds =>
    cases event with
    | start clock faults =>
      -- the node is made from what the engine reads, which is what the stores hold
      have hstep : DiskHost.step codecs d i (.down files) (.start clock faults) =
          match RaftNode.new d.codec clock faults (d.config i) stores with
          | .ok node => .ok (.running node disk)
          | .error _ => .ok (.down disk.files) := by
        simp only [DiskHost.step, hopen, hholds.stores_eq, pure, Except.pure, bind, Except.bind]
      rw [hstep, Host.next]
      cases hnew : RaftNode.new d.codec clock faults (d.config i) stores with
      | ok node => exact ⟨_, rfl, .running node disk (RaftNode.new_stores hnew ▸ hholds)⟩
      | error e => exact ⟨_, rfl, matches_down htotal hholds⟩
    | call input processId stop => exact ⟨_, rfl, .down files stores disk hopen hholds⟩
    | interrupt input processId stop => exact ⟨_, rfl, .down files stores disk hopen hholds⟩
    | crash => exact ⟨_, rfl, .down files stores disk hopen hholds⟩

/-- The events of a process are steps in the life of its host. -/
theorem lives_next (hlives : Lives d i .any host) {codec : BatchCodec} {event : ProcessEvent}
    (hadmits : event.Admits codec d host) : Lives d i .any (host.next d i event) := by
  cases host with
  | running node =>
    cases event with
    | start clock faults => exact hlives
    | call input processId stop => exact hlives.tail (.call node input hadmits.1 trivial)
    | interrupt input processId stop => exact hlives.tail (.interrupt node input hadmits.1 trivial)
    | crash => exact hlives.tail (.crash node)
  | down stores =>
    cases event with
    | start clock faults =>
      cases hnew : RaftNode.new d.codec clock faults (d.config i) stores with
      | ok node =>
        rw [Host.next, hnew]
        exact hlives.tail (.start clock faults stores node hnew)
      | error e =>
        rw [Host.next, hnew]
        exact hlives
    | call input processId stop => exact hlives
    | interrupt input processId stop => exact hlives
    | crash => exact hlives

/-- All events of a process are steps in the life of its host. -/
theorem lives_run (hlives : Lives d i .any host) {codec : BatchCodec} {events : List ProcessEvent}
    (hevents : Along (Host.next d i) (fun host event => event.Admits codec d host) host events) :
    Lives d i .any (events.foldl (Host.next d i) host) := by
  induction events generalizing host with
  | nil => exact hlives
  | cons event rest ih => exact ih (lives_next hlives hevents.1) hevents.2

/-- Whatever happens to the process of a node on the files of a storage engine, and however often
it crashes: no call on the engine fails and every start finds its files readable. The node goes
through one of the lives of a node whose stores survive crashes, and the engine, or the files when
they are opened, answers every read as those stores. -/
theorem node_on_disk_refines (htotal : StorageNode.Total codecs) (d : Deployment) (i : NodeId)
    (quorumTemps : ℕ → Option String) (epochTemps : Unit → Option Bytes)
    {events : List ProcessEvent}
    (hevents : Along (Host.next d i) (fun host event => event.Admits codecs.batch d host)
      (.down .empty) events) :
    let host := events.foldl (Host.next d i) (.down .empty)
    Lives d i .any host ∧
      ∃ last, events.foldlM (DiskHost.step codecs d i)
      (.down (StorageNode.unused quorumTemps epochTemps)) = .ok last ∧
        match host with
        | .running node => ∃ disk, last = .running node disk ∧ disk.Answers codecs node.stores
        | .down stores =>
          ∃ files disk, last = .down files ∧ StorageNode.openOn codecs none files = .ok disk ∧
            disk.Answers codecs stores := by
  intro host
  obtain ⟨first, hopen, hfirst⟩ := StorageNode.holds_unused htotal quorumTemps epochTemps
  obtain ⟨last, hlast, hmatches⟩ := foldlM_refines (Host.next d i) (Matches codecs)
    (fun _ _ _ hrelated hadmits => hrelated.step htotal hadmits)
    (.down _ _ first hopen hfirst) hevents
  refine ⟨lives_run .refl hevents, last, hlast, ?_⟩
  change Matches codecs last host at hmatches
  generalize host = reached at hmatches ⊢
  cases hmatches with
  | running node disk hholds => exact ⟨disk, rfl, hholds.answers⟩
  | down files stores disk hopened hholds => exact ⟨files, disk, rfl, hopened, hholds.answers⟩

/-- Node 1 of the three is started, bootstrapped and elected, crashes, and is started again. -/
def electedAndCrashed : List ProcessEvent :=
  [.start ⟨0, 5⟩ {}, .call ⟨.bootstrap 7 [⟨1, "a"⟩, ⟨2, "b"⟩, ⟨3, "c"⟩], ⟨0, 5⟩, {}⟩ 4 .sync,
    .call ⟨.electionTimeout, ⟨5, 5⟩, {}⟩ 4 .sync,
    .interrupt ⟨.rpc ⟨7, 0, 2, .voteResponse ⟨1, true, false⟩⟩, ⟨6, 5⟩, {}⟩ 4 .sync,
    .start ⟨9, 5⟩ {}]

/-- It finds its vote of the first term and the voters on its disk. -/
theorem node_on_disk_refines_elected :
    ∃ node disk, electedAndCrashed.foldlM (DiskHost.step StorageNode.totalCodecs threeVoters 1)
        (.down (StorageNode.unused (fun _ => none) fun _ => none)) = .ok (.running node disk) ∧
      disk.engine.quorumState.load = some ⟨1, some 1, none, 0, 7⟩ ∧
        disk.engine.log.logEndOffset = 2 := by
  have htotal : StorageNode.Total StorageNode.totalCodecs :=
    ⟨fun _ => ⟨_, rfl⟩, StorageEngine.epochBincode_readable⟩
  have hpermits : ∀ event, (∀ clusterId voters, event ≠ NodeEvent.bootstrap clusterId voters) →
      threeVoters.Permits event :=
    fun _ hnot clusterId voters heq => absurd heq (hnot clusterId voters)
  have hreported : Faults.Reported {} := fun _ => ⟨nofun, nofun⟩
  have hevents : Along (Host.next threeVoters 1)
      (fun host event => event.Admits StorageNode.totalCodecs.batch threeVoters host) (.down .empty)
      electedAndCrashed := by
    refine ⟨trivial, ⟨?_, hreported, ?_⟩, ⟨hpermits _ nofun, hreported, ?_⟩, ⟨hpermits _ nofun, ?_⟩,
      trivial, trivial⟩
    · intro clusterId voters heq
      cases heq
      exact ⟨rfl, rfl⟩
    · decide +kernel
    · decide +kernel
    · decide +kernel
  obtain ⟨-, last, hlast, disk, rfl, hanswers⟩ :=
    node_on_disk_refines htotal threeVoters 1 (fun _ => none)
      (fun _ => none) hevents
  refine ⟨_, disk, hlast, hanswers.load.trans ?_, hanswers.logEndOffset.trans ?_⟩ <;> decide +kernel

end DiskHost

end XRaft
