import XRaft.Core.ElectionSteps

/-!
# The life of one node within a process

A node is driven from outside by its public methods, each called with a reading of the
clock and with the outcomes of the fallible calls it makes. What a method does to the
node is a short sequence of moves, each with what the source has checked before it. A
property that every move keeps holds after every call, and after every sequence of calls.
-/

namespace XRaft

/-- The calls a running node receives. -/
inductive NodeEvent where
  | bootstrap (clusterId : ClusterId) (initialVoters : List VoterInfo)
  | tick
  | electionTimeout
  | voteRequest (request : VoteRequest)
  | voteResponse (source : NodeId) (response : VoteResponse)
  | rpc (envelope : RpcEnvelope)
  deriving DecidableEq, Repr

/-- The vote response an event brings, with the node it comes from. -/
def NodeEvent.response? : NodeEvent → Option (NodeId × VoteResponse)
  | .voteResponse source response => some (source, response)
  | .rpc ⟨_, _, source, .voteResponse response⟩ => some (source, response)
  | _ => none

/-- The event is a real vote granted by a node in a term. -/
def NodeEvent.Grants (event : NodeEvent) (source : NodeId) (term : ℕ) : Prop :=
  event.response? = some (source, ⟨term, true, false⟩)

instance (event : NodeEvent) (source : NodeId) (term : ℕ) : Decidable (event.Grants source term) :=
  inferInstanceAs (Decidable (_ = _))

/-- The event may find that the election timeout has passed. -/
def NodeEvent.TimesOut (event : NodeEvent) : Prop := event = .tick ∨ event = .electionTimeout

/-- A call together with what the environment contributes to it. -/
structure NodeInput where
  event : NodeEvent
  clock : Clock
  faults : Faults := {}

namespace RaftNode

/-- The node after one call. -/
def handle (codec : VotersCodec) (node : RaftNode) (input : NodeInput) : RaftNode :=
  match input.event with
  | .bootstrap clusterId voters => (node.bootstrap input.clock input.faults clusterId voters).node
  | .tick => (node.tick codec input.clock input.faults).node
  | .electionTimeout => (node.handleElectionTimeout codec input.clock input.faults).node
  | .voteRequest request => (node.handleVoteRequest input.clock input.faults request).2
  | .voteResponse source response =>
    (node.handleVoteResponse codec input.clock input.faults source response).2
  | .rpc envelope => (node.handleRpc codec input.clock input.faults envelope).node

/-- The node after a sequence of calls. -/
def handleAll (codec : VotersCodec) (node : RaftNode) (inputs : List NodeInput) : RaftNode :=
  inputs.foldl (handle codec) node

/-- The node with the cluster's identity and voters in memory, as a follower. -/
def form (clusterId : ClusterId) (voters : List VoterInfo) (node : RaftNode) : RaftNode :=
  { node with
    state := { node.state with
      clusterId := clusterId
      voterSet := voters
      currentTerm := 0
      votedFor := none
      leaderId := none
      role := .follower
      votesReceived := ∅
      preVotesReceived := ∅ }
    bootstrapped := true }

/-- The node with one more vote. -/
def count (source : NodeId) (node : RaftNode) : RaftNode :=
  { node with state := { node.state with votesReceived := insert source node.state.votesReceived } }

/-- The node with its vote of the current term given to a candidate. -/
def voteFor (candidate : NodeId) (node : RaftNode) : RaftNode :=
  { node with state := { node.state with votedFor := some candidate } }

/-- The node as a candidate of the next term whose vote for itself is saved. -/
def candidacy (node : RaftNode) : RaftNode :=
  node.becomeCandidate.storeQuorumState
    (node.becomeCandidate.quorumState node.becomeCandidate.state.votedFor)

/-- One change a call makes to the node it was made on, `origin`, and what was checked before it. -/
inductive Move (codec : VotersCodec) (input : NodeInput) (origin : RaftNode) :
    RaftNode → RaftNode → Prop where
  | timer (node : RaftNode) : Move codec input origin node (node.resetElectionTimer input.clock)
  | formed (clusterId : ClusterId) (voters : List VoterInfo)
      (hevent : input.event = .bootstrap clusterId voters)
      (hrole : origin.state.role = .unattached) (hfresh : origin.bootstrapped = false)
      (hdata : hasExistingData origin.stores input.faults = .ok false)
      (hvalid : validateBootstrapConfig origin.state.nodeId clusterId voters = .ok ()) :
      Move codec input origin origin (origin.form clusterId voters)
  | candidate (hevent : input.event.TimesOut) (hunsaved : input.faults.saveVote ≠ .ok) :
      Move codec input origin origin origin.becomeCandidate
  | candidacy (hevent : input.event.TimesOut) : Move codec input origin origin origin.candidacy
  | term (term : ℕ) (hterm : origin.state.currentTerm < term) :
      Move codec input origin origin (origin.stepDown input.clock term)
  | vote (node : RaftNode) (candidate : NodeId)
      (hfree : node.state.votedFor = none ∨ node.state.votedFor = some candidate) :
      Move codec input origin node (node.voteFor candidate)
  | saved (node : RaftNode) :
      Move codec input origin node (node.storeQuorumState (node.quorumState node.state.votedFor))
  | won (hquorum : origin.candidacy.hasQuorum = true) :
      Move codec input origin origin.candidacy (origin.candidacy.becomeLeader codec input.faults).2
  | counted (source : NodeId) (hgrant : input.event.Grants source origin.state.currentTerm)
      (hrole : origin.state.role = .candidate)
      (hvoter : origin.state.voterSet.any (fun voter => voter.nodeId == source) = true) :
      Move codec input origin origin (origin.count source)
  | elected (source : NodeId) (hgrant : input.event.Grants source origin.state.currentTerm)
      (hrole : origin.state.role = .candidate)
      (hvoter : origin.state.voterSet.any (fun voter => voter.nodeId == source) = true)
      (hquorum : (origin.count source).hasQuorum = true) :
      Move codec input origin origin ((origin.count source).becomeLeader codec input.faults).2

/-- The moves of one call, in sequence. -/
abbrev Moves (codec : VotersCodec) (input : NodeInput) (origin : RaftNode) :
    RaftNode → RaftNode → Prop :=
  Relation.ReflTransGen (Move codec input origin)

variable {codec : VotersCodec} {input : NodeInput} {node : RaftNode}

/-- A save is a single move or none. -/
theorem save_moves (origin node : RaftNode) (outcome : SaveOutcome) :
    Moves codec input origin node (node.save outcome (node.quorumState node.state.votedFor)).2 := by
  cases outcome with
  | ok => exact .single (.saved node)
  | failed reason => exact .refl
  | failedAfterWrite reason => exact .single (.saved node)

/-- Bootstrapping forms the cluster or does nothing. -/
theorem bootstrap_moves (clusterId : ClusterId) (voters : List VoterInfo)
    (hevent : input.event = .bootstrap clusterId voters) :
    Moves codec input node node
      (node.bootstrap input.clock input.faults clusterId voters).node := by
  unfold bootstrap
  by_cases hfresh : node.bootstrapped = true
  · rw [if_pos hfresh]
  by_cases hrole : node.state.role ≠ .unattached
  · rw [if_neg hfresh, if_pos hrole]
  rw [if_neg hfresh, if_neg hrole]
  cases hdata : hasExistingData node.stores input.faults with
  | error e => exact .refl
  | ok data =>
    cases data with
    | true => exact .refl
    | false =>
      cases hvalid : validateBootstrapConfig node.state.nodeId clusterId voters with
      | error e => exact .refl
      | ok _ =>
        have hformed : Move codec input node node (node.form clusterId voters) :=
          .formed clusterId voters hevent (not_not.mp hrole) (Bool.not_eq_true _ ▸ hfresh) hdata
            hvalid
        exact (Relation.ReflTransGen.single hformed).tail (.timer _)

/-- An election timeout makes the node a candidate, saves its vote, and may make it leader. -/
theorem handleElectionTimeout_moves (hevent : input.event.TimesOut) :
    Moves codec input node node
      (node.handleElectionTimeout codec input.clock input.faults).node := by
  unfold handleElectionTimeout
  by_cases hrole : node.state.role ≠ .follower ∧ node.state.role ≠ .candidate
  · rw [if_pos hrole]
  rw [if_neg hrole]
  dsimp only
  cases houtcome : input.faults.saveVote with
  | failed reason => exact .single (.candidate hevent (by rw [houtcome]; simp))
  | failedAfterWrite reason => exact .single (.candidacy hevent)
  | ok =>
    simp only [save]
    split
    · rename_i hquorum
      exact (Relation.ReflTransGen.single (.candidacy hevent)).tail (.won hquorum)
    · exact (Relation.ReflTransGen.single (.candidacy hevent)).tail (.timer _)

/-- A tick is an election timeout or nothing. -/
theorem tick_moves (hevent : input.event.TimesOut) :
    Moves codec input node node (node.tick codec input.clock input.faults).node := by
  unfold tick
  split
  · exact handleElectionTimeout_moves hevent
  · exact .refl

/-- Deciding a vote request moves the vote at most to the candidate, and saves it. -/
theorem decideVote_moves (origin : RaftNode) (request : VoteRequest) :
    Moves codec input origin node (node.decideVote input.clock input.faults request).2 := by
  unfold decideVote
  split
  · exact .refl
  dsimp only
  split
  · rename_i hgranted
    have hfree : node.state.votedFor = none ∨ node.state.votedFor = some request.candidateId := by
      simp only [Bool.and_eq_true, canVote] at hgranted
      cases hvoted : node.state.votedFor with
      | none => exact Or.inl rfl
      | some voted =>
        simp only [hvoted, beq_iff_eq] at hgranted
        exact Or.inr (congrArg some hgranted.1.1)
    have hvote : Move codec input origin node (node.voteFor request.candidateId) :=
      .vote node _ hfree
    have hsave : Moves codec input origin node _ :=
      (save_moves origin (node.voteFor request.candidateId) input.faults.saveVote).head hvote
    cases houtcome : input.faults.saveVote with
    | failed reason =>
      rw [houtcome] at hsave
      exact hsave
    | failedAfterWrite reason =>
      rw [houtcome] at hsave
      exact hsave
    | ok =>
      rw [houtcome] at hsave
      exact hsave.tail (.timer _)
  · exact .refl

/-- A vote request moves the term, then the vote. -/
theorem handleVoteRequest_moves (request : VoteRequest) :
    Moves codec input node node (node.handleVoteRequest input.clock input.faults request).2 := by
  unfold handleVoteRequest
  split
  · exact .refl
  split
  · rename_i hterm
    have hadopt : Move codec input node node (node.stepDown input.clock request.term) :=
      .term _ hterm
    have hsave : Moves codec input node node _ :=
      (save_moves node (node.stepDown input.clock request.term) input.faults.saveTerm).head hadopt
    cases houtcome : input.faults.saveTerm with
    | failed reason =>
      rw [houtcome] at hsave
      exact hsave
    | failedAfterWrite reason =>
      rw [houtcome] at hsave
      exact hsave
    | ok =>
      rw [houtcome] at hsave
      exact hsave.trans (decideVote_moves node request)
  · exact decideVote_moves node request

/-- A vote response moves the term, or is counted and may make the node leader. -/
theorem handleVoteResponse_moves {source : NodeId} {response : VoteResponse}
    (hevent : input.event.response? = some (source, response)) :
    Moves codec input node node
      (node.handleVoteResponse codec input.clock input.faults source response).2 := by
  unfold handleVoteResponse
  by_cases hterm : response.term > node.state.currentTerm
  · rw [if_pos hterm]
    have hadopt : Move codec input node node (node.stepDown input.clock response.term) :=
      .term _ hterm
    exact (save_moves node (node.stepDown input.clock response.term) input.faults.saveTerm).head
      hadopt
  rw [if_neg hterm]
  by_cases hstale : node.state.role ≠ .candidate ∨ response.term ≠ node.state.currentTerm
  · rw [if_pos hstale]
  rw [if_neg hstale]
  by_cases hpre : response.isPreVote = true
  · rw [if_pos hpre]
  rw [if_neg hpre]
  by_cases hvoter : node.state.voterSet.any (fun voter => voter.nodeId == source) = true
  swap
  · rw [if_pos hvoter]
  rw [if_neg (not_not.mpr hvoter)]
  by_cases hgranted : response.voteGranted = true
  swap
  · rw [if_neg hgranted]
  rw [if_pos hgranted]
  obtain ⟨hrole, hcurrent⟩ := not_or.mp hstale
  have hgrant : input.event.Grants source node.state.currentTerm := by
    obtain ⟨term, granted, preVote⟩ := response
    simp only [Bool.not_eq_true, not_not] at hcurrent hpre hgranted
    rw [NodeEvent.Grants, hevent, hcurrent, hpre, hgranted]
  dsimp only
  split
  · rename_i hquorum
    exact .single (.elected source hgrant (not_not.mp hrole) hvoter hquorum)
  · exact .single (.counted source hgrant (not_not.mp hrole) hvoter)

/-- An envelope is dispatched to the handler of its payload, or dropped. -/
theorem handleRpc_moves {envelope : RpcEnvelope} (hevent : input.event = .rpc envelope) :
    Moves codec input node node (node.handleRpc codec input.clock input.faults envelope).node := by
  obtain ⟨clusterId, leaderEpoch, source, payload⟩ := envelope
  unfold handleRpc
  split
  · exact .refl
  cases payload with
  | voteRequest request =>
    have hmoves : Moves codec input node node _ := handleVoteRequest_moves request
    dsimp only
    cases houtcome : node.handleVoteRequest input.clock input.faults request with
    | mk result after =>
      rw [houtcome] at hmoves
      cases result with
      | error e => exact hmoves
      | ok response => cases hsend : input.faults.send <;> simpa [houtcome, hsend] using hmoves
  | voteResponse response =>
    have hresponse : input.event.response? = some (source, response) := by
      rw [hevent]
      rfl
    exact handleVoteResponse_moves hresponse
  | _ => exact .refl

/-- Every call is a sequence of moves from the node it was made on. -/
theorem handle_moves (codec : VotersCodec) (node : RaftNode) (input : NodeInput) :
    Moves codec input node node (node.handle codec input) := by
  unfold handle
  split
  case h_1 clusterId voters hevent => exact bootstrap_moves clusterId voters hevent
  case h_2 hevent => exact tick_moves (.inl hevent)
  case h_3 hevent => exact handleElectionTimeout_moves (.inr hevent)
  case h_4 request _ => exact handleVoteRequest_moves request
  case h_5 source response hevent =>
    have hresponse : input.event.response? = some (source, response) := by
      rw [hevent]
      rfl
    exact handleVoteResponse_moves hresponse
  case h_6 envelope hevent => exact handleRpc_moves hevent

/-- What every move keeps holds after the call. -/
theorem handle_keeps {P : RaftNode → Prop} (hstart : P node)
    (hmove : ∀ a b, P a → Move codec input node a b → P b) : P (node.handle codec input) := by
  have hmoves := handle_moves codec node input
  generalize node.handle codec input = after at hmoves ⊢
  induction hmoves with
  | refl => exact hstart
  | tail _ hlast ih => exact hmove _ _ ih hlast

/-- What every call keeps about the calls so far holds after every sequence of calls. -/
theorem handleAll_traces {P : List NodeInput → RaftNode → Prop} (hstart : P [] node)
    (hcall : ∀ inputs input node, P inputs node → P (inputs ++ [input]) (node.handle codec input))
    (inputs : List NodeInput) : P inputs (node.handleAll codec inputs) := by
  induction inputs using List.reverseRecOn with
  | nil => exact hstart
  | append_singleton earlier input ih =>
    unfold handleAll at ih ⊢
    rw [List.foldl_concat]
    exact hcall earlier input _ ih

/-- A quorum needs voters, and is a majority of them. -/
theorem majority_of_hasQuorum (h : node.hasQuorum = true) :
    node.state.voterSet ≠ [] ∧
      node.state.voterSet.length / 2 + 1 ≤ node.state.votesReceived.card := by
  unfold hasQuorum at h
  split at h
  · cases h
  · rename_i hlength
    exact ⟨fun hempty => hlength (by rw [hempty]; rfl), of_decide_eq_true h⟩

/-- The leader change a winning node appends. -/
def leaderChange (node : RaftNode) : LogEntry :=
  ⟨node.stores.log.logEndOffset, node.state.currentTerm, .leaderChangeMessage, []⟩

/-- The voters record a winning node appends behind its leader change. -/
def votersEntry (payload : Bytes) (node : RaftNode) : LogEntry :=
  ⟨node.stores.log.logEndOffset + 1, node.state.currentTerm, .votersRecord, payload⟩

/-- The node with the leader change in its log. -/
def announce (node : RaftNode) : RaftNode :=
  node.storeLog (node.stores.log.append [node.leaderChange])

/-- The node with the leader change and the voters record in its log. -/
def announceVoters (payload : Bytes) (node : RaftNode) : RaftNode :=
  node.storeLog ((node.stores.log.append [node.leaderChange]).append [node.votersEntry payload])

/-- What a node that won is left as: unchanged, with a leader change only, or leading. -/
inductive Ascent (codec : VotersCodec) (faults : Faults) (node : RaftNode) : RaftNode → Prop where
  | unchanged : Ascent codec faults node node
  | stranded (hneeds : node.logHasVotersRecord faults = false)
      (hwhy : (∃ reason, codec.serialize ⟨1, node.state.voterSet⟩ = .error reason) ∨
        faults.rollback.isSome) :
      Ascent codec faults node node.announce
  | confirmed (hrecord : node.logHasVotersRecord faults = true) :
      Ascent codec faults node node.announce.enterLeaderRole
  | recorded (payload : Bytes) (hneeds : node.logHasVotersRecord faults = false)
      (hserialize : codec.serialize ⟨1, node.state.voterSet⟩ = .ok payload) :
      Ascent codec faults node (node.announceVoters payload).enterLeaderRole

/-- On a contiguous log a failed second append is rolled back without a trace. -/
theorem becomeLeader_ascent (h : node.stores.log.Contiguous) (codec : VotersCodec)
    (faults : Faults) : Ascent codec faults node (node.becomeLeader codec faults).2 := by
  unfold becomeLeader
  dsimp only
  cases faults.appendLeaderChange with
  | some reason => exact .unchanged
  | none =>
    dsimp only
    cases hrecord : node.logHasVotersRecord faults with
    | true => exact .confirmed hrecord
    | false =>
      rw [Bool.not_false, if_pos rfl]
      cases hserialize : codec.serialize ⟨1, node.state.voterSet⟩ with
      | error reason => exact .stranded hrecord (Or.inl ⟨reason, hserialize⟩)
      | ok payload =>
        dsimp only
        cases faults.appendVoters with
        | none =>
          rw [LogStore.logEndOffset_append]
          exact .recorded payload hrecord hserialize
        | some reason =>
          dsimp only
          cases hrollback : faults.rollback with
          | some _ => exact .stranded hrecord (Or.inr (by rw [hrollback]; rfl))
          | none =>
            have hundone := h.truncateSuffix_append (e := node.leaderChange) rfl
            rw [leaderChange] at hundone
            rw [hundone]
            exact .unchanged

/-- The log store of the second node is contiguous and has the base of the first one's. -/
structure Grown (node after : RaftNode) : Prop where
  contiguous : after.stores.log.Contiguous
  startOffset : after.stores.log.startOffset = node.stores.log.startOffset
  snapshot : after.stores.snapshot = node.stores.snapshot
  voterSet : after.state.voterSet = node.state.voterSet
  logEndOffset : node.stores.log.logEndOffset ≤ after.stores.log.logEndOffset
  entries : ∀ e ∈ after.stores.log.entries, e ∈ node.stores.log.entries ∨
    node.stores.log.logEndOffset ≤ e.offset

/-- A node that won only adds to its log, at the end. -/
theorem Ascent.grown {faults : Faults} {after : RaftNode} (h : Ascent codec faults node after)
    (hlog : node.stores.log.Contiguous) : Grown node after := by
  have hchange : (node.stores.log.append [node.leaderChange]).Contiguous := hlog.append rfl
  have hend : node.announce.stores.log.logEndOffset = node.stores.log.logEndOffset + 1 :=
    LogStore.logEndOffset_append _ _
  have hentries : ∀ e ∈ node.announce.stores.log.entries,
      e ∈ node.stores.log.entries ∨ node.stores.log.logEndOffset ≤ e.offset := by
    intro e he
    rcases List.mem_append.mp he with he | he
    · exact Or.inl he
    · rw [List.mem_singleton] at he
      exact Or.inr (by rw [he]; exact le_rfl)
  cases h with
  | unchanged => exact ⟨hlog, rfl, rfl, rfl, le_rfl, fun e he => Or.inl he⟩
  | stranded => exact ⟨hchange, rfl, rfl, rfl, by omega, hentries⟩
  | confirmed =>
    refine ⟨hchange, rfl, rfl, rfl, ?_, hentries⟩
    change _ ≤ node.announce.stores.log.logEndOffset
    omega
  | recorded payload =>
    refine ⟨hchange.append ?_, rfl, rfl, rfl, ?_, fun e he => ?_⟩
    · rw [LogStore.logEndOffset_append]
      rfl
    · change _ ≤
        ((node.stores.log.append [node.leaderChange]).append
          [node.votersEntry payload]).logEndOffset
      rw [LogStore.logEndOffset_append]
      exact Nat.le_add_right _ 2
    · rcases List.mem_append.mp he with he | he
      · exact hentries e he
      · rw [List.mem_singleton] at he
        refine Or.inr ?_
        rw [he, votersEntry]
        exact Nat.le_succ _

/-- A move keeps the log contiguous and its base in place. -/
theorem Move.contiguous {origin before after : RaftNode}
    (hmove : Move codec input origin before after) (hlog : before.stores.log.Contiguous) :
    after.stores.log.Contiguous ∧ after.stores.log.startOffset = before.stores.log.startOffset ∧
      after.stores.snapshot = before.stores.snapshot := by
  cases hmove with
  | won =>
    have hgrown := (becomeLeader_ascent hlog codec input.faults).grown hlog
    exact ⟨hgrown.contiguous, hgrown.startOffset, hgrown.snapshot⟩
  | elected source _ _ _ _ =>
    have hcounted : (origin.count source).stores.log.Contiguous := hlog
    have hgrown := (becomeLeader_ascent hcounted codec input.faults).grown hcounted
    exact ⟨hgrown.contiguous, hgrown.startOffset, hgrown.snapshot⟩
  | _ => exact ⟨hlog, rfl, rfl⟩

end RaftNode

end XRaft
