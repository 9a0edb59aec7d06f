import XRaft.Core.Life

/-!
# Cluster identity: one bootstrap, fencing, and the time before it

A node gets its cluster id from a bootstrap call or from the quorum state it recovers, and
writes it with every quorum state it saves. The lifetimes below are those of one node on
the same stores, with arbitrary configurations, arbitrary bootstrap arguments and arbitrary
messages. A saved cluster id that is not nil is never replaced.

The fence of `handle_rpc` compares cluster ids only if the node has one. A node that
recovered without one, or with the nil id, takes every envelope. Before bootstrap there is
no fence at all, and a vote response of a later term makes the node save the nil id.
-/

namespace XRaft

/-- The cluster id recovery takes from the stores, nil without a quorum state. -/
def Stores.clusterId (stores : Stores) : ClusterId :=
  (stores.quorumState.map (·.clusterId)).getD ClusterId.nil

/-- The quorum state on record was saved while the node's cluster id was the given one. -/
def Stores.SavedUnder (cluster : ClusterId) (stores : Stores) : Prop :=
  ∃ qs, stores.quorumState = some qs ∧ qs.clusterId = cluster

namespace RaftNode

variable {codec : VotersCodec} {clock : Clock} {faults : Faults} {config : RaftConfig}
  {stores : Stores} {node after : RaftNode} {input : NodeInput} {cluster : ClusterId}

/-- A successful save records the cluster id the node has. -/
theorem save_savedUnder (node : RaftNode) (votedFor : Option NodeId) :
    (node.save .ok (node.quorumState votedFor)).2.stores.SavedUnder node.state.clusterId :=
  ⟨_, rfl, rfl⟩

/-- Looking for the voters leaves the cluster id alone. -/
theorem restoreVoters_clusterId (codec : VotersCodec) (faults : Faults) (node : RaftNode) :
    (node.restoreVoters codec faults).2.state.clusterId = node.state.clusterId := by
  unfold restoreVoters
  dsimp only
  split
  · split
    · rfl
    · split <;> rfl
  · rfl

/-- A restored node has the cluster id on record. -/
theorem restored_clusterId (config : RaftConfig) (now : ℕ) (stores : Stores) :
    (restored config now stores).state.clusterId = stores.clusterId := by
  obtain ⟨log, quorumState, snapshot⟩ := stores
  cases quorumState <;> cases snapshot <;> rfl

/-- Recovery cannot load the quorum state, or has the cluster id on record however it ends. -/
theorem recover_clusterId (codec : VotersCodec) (clock : Clock) (faults : Faults)
    (config : RaftConfig) (now : ℕ) (stores : Stores) :
    (∃ reason, ((fresh config now stores).recover codec clock faults).1 =
      .error (.storageError reason)) ∨
      ((fresh config now stores).recover codec clock faults).2.state.clusterId =
        stores.clusterId := by
  have hrestored := restored_clusterId config now stores
  have hvoters := restoreVoters_clusterId codec faults (restored config now stores).restoreLogBounds
  unfold restored at hrestored hvoters
  unfold recover
  cases faults.load with
  | some reason => exact Or.inl ⟨reason, rfl⟩
  | none =>
    cases faults.loadLatest with
    | some reason => exact Or.inl ⟨reason, rfl⟩
    | none =>
      right
      dsimp only
      split
      · exact hrestored
      · generalize restoreVoters codec faults _ = found at hvoters ⊢
        obtain ⟨result, found⟩ := found
        cases result <;> exact hvoters.trans hrestored

/-- A started node has the cluster id on record, whatever it found in the other stores. -/
theorem new_clusterId (hnew : new codec clock faults config stores = .ok node) :
    node.state.clusterId = stores.clusterId := by
  unfold new at hnew
  cases hconfig : config.validate with
  | error reason => simp [hconfig] at hnew
  | ok _ =>
    cases hdata : hasExistingData stores faults with
    | error e => simp [hconfig, hdata] at hnew
    | ok hasData =>
      simp only [hconfig, hdata] at hnew
      cases hasData with
      | false =>
        simp only [Bool.false_eq_true, if_false, Except.ok.injEq] at hnew
        obtain ⟨-, -, hquorum, -⟩ := noData_of_hasExistingData hdata
        rw [← hnew, Stores.clusterId, hquorum]
        rfl
      | true =>
        simp only [if_true] at hnew
        have hrecover := recover_clusterId codec clock faults config clock.now stores
        unfold fresh at hrecover
        generalize recover codec clock faults _ = outcome at hrecover hnew
        obtain ⟨result, recovered⟩ := outcome
        rcases hrecover with ⟨reason, hfail⟩ | hcluster
        · simp [show result = _ from hfail] at hnew
        · cases result with
          | ok _ =>
            cases hnew
            exact hcluster
          | error e =>
            cases e <;> cases hnew
            exact hcluster

/-- A node started on stores with a quorum state counts as bootstrapped. -/
theorem new_bootstrapped (hnew : new codec clock faults config stores = .ok node)
    (hquorum : stores.quorumState.isSome = true) : node.bootstrapped = true := by
  rcases new_spec hnew with ⟨⟨-, -, hnone, -⟩, -⟩ | ⟨-, hrecovered⟩ | ⟨-, hstalled⟩
  · rw [hnone] at hquorum
    cases hquorum
  · exact hrecovered.bootstrapped
  · exact hstalled.bootstrapped

/-- A bootstrapped node refuses every bootstrap call and stays as it is. -/
theorem bootstrap_of_bootstrapped (h : node.bootstrapped = true) (clock : Clock) (faults : Faults)
    (clusterId : ClusterId) (voters : List VoterInfo) :
    node.bootstrap clock faults clusterId voters =
      ⟨.error (.alreadyBootstrapped "node has already been bootstrapped or recovered"), node,
        []⟩ := by
  unfold bootstrap
  rw [if_pos h]

/-- A bootstrap call changes nothing, or its arguments were valid. -/
theorem bootstrap_cases (node : RaftNode) (clock : Clock) (faults : Faults) (clusterId : ClusterId)
    (voters : List VoterInfo) :
    (∃ e, node.bootstrap clock faults clusterId voters = ⟨.error e, node, []⟩) ∨
      (node.bootstrap clock faults clusterId voters).result = .ok () ∧
        validateBootstrapConfig node.state.nodeId clusterId voters = .ok () := by
  unfold bootstrap
  split
  · exact Or.inl ⟨_, rfl⟩
  split
  · exact Or.inl ⟨_, rfl⟩
  cases hasExistingData node.stores faults with
  | error e => exact Or.inl ⟨e, rfl⟩
  | ok hasData =>
    cases hasData with
    | true => exact Or.inl ⟨_, rfl⟩
    | false =>
      cases hvalid : validateBootstrapConfig node.state.nodeId clusterId voters with
      | error e => exact Or.inl ⟨e, rfl⟩
      | ok _ => exact Or.inr ⟨rfl, rfl⟩

/-- The stored cluster id is the one in memory, and only a bootstrapped node has one. -/
structure Identified (node : RaftNode) : Prop where
  saved : ∀ qs, node.stores.quorumState = some qs → qs.clusterId = node.state.clusterId
  bootstrapped : node.state.clusterId ≠ ClusterId.nil → node.bootstrapped = true

/-- The node belongs to the cluster, in memory and on record, and cannot be bootstrapped again. -/
structure BelongsTo (cluster : ClusterId) (node : RaftNode) : Prop where
  clusterId : node.state.clusterId = cluster
  bootstrapped : node.bootstrapped = true
  saved : node.stores.SavedUnder cluster

/-- Winning an election touches neither the quorum state nor what the node knows of its cluster. -/
theorem becomeLeader_identity (codec : VotersCodec) (faults : Faults) (node : RaftNode) :
    (node.becomeLeader codec faults).2.state.clusterId = node.state.clusterId ∧
      (node.becomeLeader codec faults).2.bootstrapped = node.bootstrapped ∧
      (node.becomeLeader codec faults).2.stores.quorumState = node.stores.quorumState := by
  obtain ⟨log, -, hnode | hnode⟩ := becomeLeader_cases codec faults node
  · rw [hnode]
    exact ⟨rfl, rfl, rfl⟩
  · rw [hnode]
    exact ⟨rfl, rfl, rfl⟩

/-- Nodes that agree on the cluster id, the flag and the quorum state are identified alike. -/
theorem Identified.congr (h : node.Identified)
    (hsame : after.state.clusterId = node.state.clusterId ∧ after.bootstrapped = node.bootstrapped ∧
      after.stores.quorumState = node.stores.quorumState) : after.Identified := by
  obtain ⟨hcluster, hflag, hquorum⟩ := hsame
  refine ⟨fun qs hqs => ?_, fun hne => ?_⟩
  · rw [hcluster]
    exact h.saved qs (hquorum ▸ hqs)
  · rw [hflag]
    exact h.bootstrapped (hcluster ▸ hne)

/-- Nodes that agree on the cluster id, the flag and the quorum state belong to the same cluster. -/
theorem BelongsTo.congr (h : node.BelongsTo cluster)
    (hsame : after.state.clusterId = node.state.clusterId ∧ after.bootstrapped = node.bootstrapped ∧
      after.stores.quorumState = node.stores.quorumState) : after.BelongsTo cluster := by
  obtain ⟨hcluster, hflag, hquorum⟩ := hsame
  refine ⟨hcluster.trans h.clusterId, hflag.trans h.bootstrapped, ?_⟩
  obtain ⟨qs, hqs, hid⟩ := h.saved
  exact ⟨qs, hquorum.trans hqs, hid⟩

/-- Forming a cluster, saving, or leaving the identity alone: the three things a move does to it. -/
theorem Move.identity {origin before : RaftNode} (hmove : Move codec input origin before after) :
    (before.bootstrapped = false ∧ before.stores.NoData ∧ after.stores = before.stores ∧
      after.bootstrapped = true) ∨
      (∃ votedFor term,
        after.stores.quorumState = some ⟨term, votedFor, none, 0, before.state.clusterId⟩) ∧
          after.state.clusterId = before.state.clusterId ∧
            after.bootstrapped = before.bootstrapped ∨
      after.state.clusterId = before.state.clusterId ∧ after.bootstrapped = before.bootstrapped ∧
        after.stores.quorumState = before.stores.quorumState := by
  cases hmove with
  | formed clusterId voters hevent hrole hfresh hdata hvalid =>
    exact Or.inl ⟨hfresh, noData_of_hasExistingData hdata, rfl, rfl⟩
  | candidacy => exact Or.inr (Or.inl ⟨⟨_, _, rfl⟩, rfl, rfl⟩)
  | saved => exact Or.inr (Or.inl ⟨⟨_, _, rfl⟩, rfl, rfl⟩)
  | won => exact Or.inr (Or.inr (becomeLeader_identity codec input.faults _))
  | elected source _ _ _ _ =>
    exact Or.inr (Or.inr (becomeLeader_identity codec input.faults (origin.count source)))
  | _ => exact Or.inr (Or.inr ⟨rfl, rfl, rfl⟩)

/-- A move keeps memory and record in agreement. -/
theorem Identified.move {origin before : RaftNode} (h : before.Identified)
    (hmove : Move codec input origin before after) : after.Identified := by
  rcases hmove.identity with ⟨-, ⟨-, -, hquorum, -⟩, hstores, hflag⟩ |
    ⟨⟨votedFor, term, hsaved⟩, hcluster, hflag⟩ | hsame
  · refine ⟨fun qs hqs => ?_, fun _ => hflag⟩
    rw [hstores, hquorum] at hqs
    cases hqs
  · refine ⟨fun qs hqs => ?_, fun hne => ?_⟩
    · rw [hsaved] at hqs
      cases hqs
      exact hcluster.symm
    · rw [hflag]
      exact h.bootstrapped (hcluster ▸ hne)
  · exact h.congr hsame

/-- A move does not take a node out of its cluster. -/
theorem BelongsTo.move {origin before : RaftNode} (h : before.BelongsTo cluster)
    (hmove : Move codec input origin before after) : after.BelongsTo cluster := by
  rcases hmove.identity with ⟨hfresh, -⟩ | ⟨⟨votedFor, term, hsaved⟩, hcluster, hflag⟩ | hsame
  · rw [h.bootstrapped] at hfresh
    cases hfresh
  · exact ⟨hcluster.trans h.clusterId, hflag.trans h.bootstrapped, _, hsaved, h.clusterId⟩
  · exact h.congr hsame

/-- Memory and record agree in a node that was just started. -/
theorem new_identified (hnew : new codec clock faults config stores = .ok node) :
    node.Identified := by
  have hcluster := new_clusterId hnew
  have hstores := new_stores hnew
  unfold Stores.clusterId at hcluster
  refine ⟨fun qs hqs => ?_, fun hne => ?_⟩
  · rw [hstores] at hqs
    rw [hcluster, hqs]
    rfl
  · cases hquorum : stores.quorumState with
    | none =>
      rw [hcluster, hquorum] at hne
      exact absurd rfl hne
    | some qs => exact new_bootstrapped hnew (by rw [hquorum]; rfl)

/-- A node started on the record of a cluster belongs to it. -/
theorem new_belongsTo (hnew : new codec clock faults config stores = .ok node)
    (hsaved : stores.SavedUnder cluster) : node.BelongsTo cluster := by
  obtain ⟨qs, hqs, hid⟩ := hsaved
  have hcluster := new_clusterId hnew
  rw [Stores.clusterId, hqs] at hcluster
  exact ⟨hcluster.trans hid, new_bootstrapped hnew (by rw [hqs]; rfl), qs,
    (new_stores hnew).symm ▸ hqs, hid⟩

/-- A running node whose record names a cluster belongs to it. -/
theorem Identified.belongsTo (h : node.Identified) (hsaved : node.stores.SavedUnder cluster)
    (hnil : cluster ≠ ClusterId.nil) : node.BelongsTo cluster := by
  obtain ⟨qs, hqs, hid⟩ := hsaved
  have hcluster : node.state.clusterId = cluster := (h.saved qs hqs).symm.trans hid
  exact ⟨hcluster, h.bootstrapped (hcluster ▸ hnil), qs, hqs, hid⟩

end RaftNode

section Lifetimes

variable {codec : VotersCodec} {first host later : Host} {cluster : ClusterId}

/-- One step in the lifetimes of a node on the same stores: nothing about the calls is fixed. -/
inductive LifetimeStep (codec : VotersCodec) : Host → Host → Prop where
  | start (clock : Clock) (faults : Faults) (config : RaftConfig) (stores : Stores)
      (node : RaftNode)
      (hnew : RaftNode.new codec clock faults config stores = .ok node) :
      LifetimeStep codec (.down stores) (.running node)
  | call (node : RaftNode) (input : NodeInput) :
      LifetimeStep codec (.running node) (.running (node.handle codec input))
  | crash (node : RaftNode) : LifetimeStep codec (.running node) (.down node.stores)
  | interrupt (node : RaftNode) (input : NodeInput) :
      LifetimeStep codec (.running node) (.down (node.handle codec input).stores)

/-- A sequence of lifetimes. -/
abbrev Lifetimes (codec : VotersCodec) : Host → Host → Prop :=
  Relation.ReflTransGen (LifetimeStep codec)

/-- What starting, every move of a call, and crashing keep holds throughout all later lifetimes. -/
theorem Lifetimes.keeps {P : RaftNode → Prop} {Q : Stores → Prop}
    (hstart : ∀ clock faults config stores node, Q stores →
      RaftNode.new codec clock faults config stores = .ok node → P node)
    (hmove : ∀ input origin before after, P before → RaftNode.Move codec input origin before after →
      P after)
    (hcrash : ∀ node, P node → Q node.stores) (hlives : Lifetimes codec first host)
    (hfirst : first.Satisfies P Q) : host.Satisfies P Q := by
  have hcall : ∀ node input, P node → P (node.handle codec input) := fun node input h =>
    RaftNode.handle_keeps h (hmove input node)
  induction hlives with
  | refl => exact hfirst
  | tail _ hlast ih =>
    cases hlast with
    | start clock faults config stores node hnew =>
      exact hstart clock faults config stores node ih hnew
    | call node input => exact hcall node input ih
    | crash node => exact hcrash node ih
    | interrupt node input => exact hcrash _ (hcall node input ih)

/-- Throughout all lifetimes a running node's memory agrees with its record. -/
theorem Lifetimes.identified {initial : Stores} (hlives : Lifetimes codec (.down initial) host) :
    host.Satisfies RaftNode.Identified fun _ => True :=
  hlives.keeps (fun _ _ _ _ _ _ hnew => RaftNode.new_identified hnew)
    (fun _ _ _ _ h hmove => h.move hmove)
    (fun _ _ => trivial) trivial

/-- A host with a cluster on record belongs to it in all its later lifetimes. -/
theorem Lifetimes.belongsTo {initial : Stores} (hhost : Lifetimes codec (.down initial) host)
    (hsaved : host.stores.SavedUnder cluster) (hnil : cluster ≠ ClusterId.nil)
    (hlater : Lifetimes codec host later) :
    later.Satisfies (RaftNode.BelongsTo cluster) (Stores.SavedUnder cluster) := by
  have hidentified := hhost.identified
  have hnow : host.Satisfies (RaftNode.BelongsTo cluster) (Stores.SavedUnder cluster) := by
    cases host with
    | running node => exact hidentified.belongsTo hsaved hnil
    | down stores => exact hsaved
  exact hlater.keeps (fun _ _ _ _ _ h hnew => RaftNode.new_belongsTo hnew h)
    (fun _ _ _ _ h hmove => h.move hmove) (fun _ h => h.saved) hnow

/-- Once a quorum state has been saved under a cluster id, the node keeps it in all later
lifetimes and refuses every bootstrap; and a bootstrap call that fails changes nothing, one that
succeeds had valid arguments. -/
theorem one_cluster_for_life {initial : Stores} (hhost : Lifetimes codec (.down initial) host)
    (hsaved : host.stores.SavedUnder cluster) (hnil : cluster ≠ ClusterId.nil)
    (hlater : Lifetimes codec host later) :
    (∀ node, later = .running node → node.state.clusterId = cluster ∧
      ∀ clock faults clusterId voters,
        node.bootstrap clock faults clusterId voters =
          ⟨.error (.alreadyBootstrapped "node has already been bootstrapped or recovered"), node,
            []⟩) ∧
      (∀ clock faults config node, RaftNode.new codec clock faults config later.stores = .ok node →
        node.state.clusterId = cluster) ∧
      ∀ (node : RaftNode) (clock : Clock) (faults : Faults) (clusterId : ClusterId)
        (voters : List VoterInfo),
        (∀ e, (node.bootstrap clock faults clusterId voters).result = .error e →
          (node.bootstrap clock faults clusterId voters).node = node) ∧
        ((node.bootstrap clock faults clusterId voters).result = .ok () →
          clusterId ≠ ClusterId.nil ∧ voters ≠ [] ∧ (voters.map VoterInfo.nodeId).Nodup ∧
            node.state.nodeId ∈ voters.map VoterInfo.nodeId) := by
  have hbelongs := hhost.belongsTo hsaved hnil hlater
  refine ⟨?_, ?_, ?_⟩
  · rintro node rfl
    exact ⟨hbelongs.clusterId, RaftNode.bootstrap_of_bootstrapped hbelongs.bootstrapped⟩
  · intro clock faults config node hnew
    have hrecord : later.stores.SavedUnder cluster := by
      cases later with
      | running running => exact hbelongs.saved
      | down stores => exact hbelongs
    exact (RaftNode.new_belongsTo hnew hrecord).clusterId
  · intro node clock faults clusterId voters
    rcases node.bootstrap_cases clock faults clusterId voters with ⟨e, hfailed⟩ | ⟨hok, hvalid⟩
    · rw [hfailed]
      exact ⟨fun _ _ => rfl, fun h => nomatch h⟩
    · rw [hok]
      obtain ⟨hcluster, hnodup, hmember⟩ :=
        (RaftNode.validateBootstrapConfig_ok_iff _ _ _).mp hvalid
      refine ⟨fun _ h => (nomatch h), fun _ => ⟨hcluster, ?_, hnodup, hmember⟩⟩
      rintro rfl
      cases hmember

/-- Node 1 of the three, bootstrapped with cluster id 7 and a candidate, crashes and restarts. -/
theorem one_cluster_for_life_candidate : ∃ node,
    RaftNode.new threeVoters.codec ⟨9, 5⟩ {} (threeVoters.config 1) (firstLife 2).stores =
      .ok node ∧
      node.state.clusterId = 7 ∧ node.bootstrap ⟨9, 5⟩ {} 8 [⟨1, "a"⟩] =
        ⟨.error (.alreadyBootstrapped "node has already been bootstrapped or recovered"), node,
          []⟩ := by
  have hlives : Lifetimes threeVoters.codec (.down Stores.empty) (.running (firstLife 2)) :=
    ((Relation.ReflTransGen.single (.start ⟨0, 5⟩ {} (threeVoters.config 1) _ _ rfl)).tail
      (.call _ ⟨.bootstrap 7 [⟨1, "a"⟩, ⟨2, "b"⟩, ⟨3, "c"⟩], ⟨0, 5⟩, {}⟩)).tail
        (.call _ ⟨.electionTimeout, ⟨5, 5⟩, {}⟩)
  have hnew : RaftNode.new threeVoters.codec ⟨9, 5⟩ {} (threeVoters.config 1) (firstLife 2).stores =
      .ok _ := rfl
  have hlater : Lifetimes threeVoters.codec (.running (firstLife 2)) (.running _) :=
    (Relation.ReflTransGen.single (.crash _)).tail
      (.start ⟨9, 5⟩ {} (threeVoters.config 1) _ _ hnew)
  have h := (one_cluster_for_life hlives ⟨_, rfl, rfl⟩ (by decide) hlater).1 _ rfl
  exact ⟨_, hnew, h.1, h.2 _ _ _ _⟩

end Lifetimes

namespace RaftNode

variable {codec : VotersCodec} {clock : Clock} {faults : Faults} {config : RaftConfig}
  {node : RaftNode} {envelope : RpcEnvelope}

/-- A save fails on storage only. -/
theorem save_error {outcome : SaveOutcome} {qs : QuorumState} {e : XraftError}
    (h : (node.save outcome qs).1 = .error e) : ∃ reason, e = .storageError reason := by
  cases outcome with
  | ok => cases h
  | failed reason => exact ⟨reason, (Except.error.inj h).symm⟩
  | failedAfterWrite reason => exact ⟨reason, (Except.error.inj h).symm⟩

/-- Winning an election fails on storage only. -/
theorem becomeLeader_error {e : XraftError} (h : (node.becomeLeader codec faults).1 = .error e) :
    ∃ reason, e = .storageError reason := by
  unfold becomeLeader at h
  dsimp only at h
  split at h
  · exact ⟨_, (Except.error.inj h).symm⟩
  · split at h
    · split at h
      · exact ⟨_, (Except.error.inj h).symm⟩
      · split at h
        · split at h <;> exact ⟨_, (Except.error.inj h).symm⟩
        · cases h
    · cases h

/-- Deciding a vote fails on storage only. -/
theorem decideVote_error {request : VoteRequest} {e : XraftError}
    (h : (node.decideVote clock faults request).1 = .error e) :
    ∃ reason, e = .storageError reason := by
  unfold decideVote at h
  dsimp only at h
  split at h
  · cases h
  · split at h
    · cases hsave : faults.saveVote with
      | ok => simp [hsave, save] at h
      | failed reason => exact ⟨reason, by simpa [hsave, save] using h.symm⟩
      | failedAfterWrite reason => exact ⟨reason, by simpa [hsave, save] using h.symm⟩
    · cases h

/-- Handling a vote request fails on storage only. -/
theorem handleVoteRequest_error {request : VoteRequest} {e : XraftError}
    (h : (node.handleVoteRequest clock faults request).1 = .error e) :
    ∃ reason, e = .storageError reason := by
  unfold handleVoteRequest at h
  dsimp only at h
  split at h
  · cases h
  · split at h
    · cases hsave : faults.saveTerm with
      | ok =>
        simp only [hsave, save] at h
        exact decideVote_error h
      | failed reason => exact ⟨reason, by simpa [hsave, save] using h.symm⟩
      | failedAfterWrite reason => exact ⟨reason, by simpa [hsave, save] using h.symm⟩
    · exact decideVote_error h

/-- Handling a vote response fails on storage only. -/
theorem handleVoteResponse_error {source : NodeId} {response : VoteResponse} {e : XraftError}
    (h : (node.handleVoteResponse codec clock faults source response).1 = .error e) :
    ∃ reason, e = .storageError reason := by
  unfold handleVoteResponse at h
  dsimp only at h
  split at h
  · exact save_error h
  split at h
  · cases h
  split at h
  · cases h
  split at h
  · cases h
  split at h
  · split at h
    · exact becomeLeader_error h
    · cases h
  · cases h

/-- A node without a cluster id never finds fault with that of an envelope. -/
theorem handleRpc_of_nil (hnil : node.state.clusterId = ClusterId.nil) (codec : VotersCodec)
    (clock : Clock) (faults : Faults) (envelope : RpcEnvelope) :
    (node.handleRpc codec clock faults envelope).result ≠ .error .invalidClusterId := by
  unfold handleRpc
  rw [if_neg fun hfence => hfence.2.1 hnil]
  intro hresult
  cases hpayload : envelope.payload with
  | voteRequest request =>
    simp only [hpayload] at hresult
    cases houtcome : node.handleVoteRequest clock faults request with
    | mk result answered =>
      rw [houtcome] at hresult
      cases result with
      | error e =>
        obtain ⟨reason, he⟩ := handleVoteRequest_error (congrArg Prod.fst houtcome)
        rw [he] at hresult
        cases hresult
      | ok response => cases hsend : faults.send <;> simp [hsend] at hresult
  | voteResponse response =>
    simp only [hpayload] at hresult
    obtain ⟨reason, he⟩ := handleVoteResponse_error hresult
    cases he
  | _ => simp [hpayload] at hresult

/-- A bootstrapped or recovered node fences off an envelope of no or another cluster exactly if it
has a cluster id itself. -/
theorem fenced_iff (hbootstrapped : node.bootstrapped = true)
    (hforeign : envelope.clusterId = ClusterId.nil ∨ envelope.clusterId ≠ node.state.clusterId) :
    node.handleRpc codec clock faults envelope = ⟨.error .invalidClusterId, node, []⟩ ↔
      node.state.clusterId ≠ ClusterId.nil := by
  constructor
  · intro hfenced hnil
    exact handleRpc_of_nil hnil codec clock faults envelope (by rw [hfenced])
  · intro hne
    unfold handleRpc
    rw [if_pos ⟨hbootstrapped, hne, hforeign.imp_right Ne.symm⟩]

/-- Node 1 of the three, bootstrapped with cluster id 7, fences off an envelope of cluster 8. -/
theorem fenced_other_cluster :
    (firstLife 1).handleRpc threeVoters.codec ⟨1, 5⟩ {} ⟨8, 0, 2, .voteResponse ⟨5, false, false⟩⟩ =
      ⟨.error .invalidClusterId, firstLife 1, []⟩ :=
  (fenced_iff rfl (Or.inr (by decide))).mpr (by decide)

/-- A recovered node has a cluster id exactly if it recovered a quorum state with one. -/
theorem new_clusterId_ne_nil_iff {stores : Stores}
    (hnew : new codec clock faults config stores = .ok node) :
    node.state.clusterId ≠ ClusterId.nil ↔
      ∃ cluster ≠ ClusterId.nil, stores.SavedUnder cluster := by
  rw [new_clusterId hnew, Stores.clusterId]
  cases hquorum : stores.quorumState with
  | none => simp [Stores.SavedUnder, hquorum]
  | some qs => simp [Stores.SavedUnder, hquorum]

/-- What the transport brings a node before anyone has bootstrapped it: a vote response of term
1. -/
def strayResponse : RpcEnvelope := ⟨9, 0, 2, .voteResponse ⟨1, false, false⟩⟩

/-- An unbootstrapped node 1 that got a stray vote response. -/
def strayed : RaftNode :=
  ((fresh (threeVoters.config 1) 0 Stores.empty).handleRpc threeVoters.codec ⟨0, 5⟩ {}
    strayResponse).node

/-- A restart after the stray response recovers a quorum state without a cluster id; the node
counts as bootstrapped and then adopts the term of an envelope of any cluster, and saves it. -/
theorem unfenced_after_stray : ∃ node,
    Lifetimes threeVoters.codec (.down Stores.empty) (.running node) ∧ node.bootstrapped = true ∧
      (node.handleRpc threeVoters.codec ⟨9, 5⟩ {} ⟨8, 0, 2,
        .voteResponse ⟨5, false, false⟩⟩).result = .ok () ∧
      (node.handleRpc threeVoters.codec ⟨9, 5⟩ {} ⟨8, 0, 2,
        .voteResponse ⟨5, false, false⟩⟩).node.state.currentTerm =
        5 ∧ node.state.currentTerm = 1 := by
  have hnew : new threeVoters.codec ⟨9, 5⟩ {} (threeVoters.config 1) strayed.stores = .ok _ := rfl
  have hlives : Lifetimes threeVoters.codec (.down Stores.empty) (.running strayed) :=
    (Relation.ReflTransGen.single (.start ⟨0, 5⟩ {} (threeVoters.config 1) _ _ rfl)).tail
      (.call _ ⟨.rpc strayResponse, ⟨0, 5⟩, {}⟩)
  have hrestart := (hlives.tail (.crash _)).tail (.start ⟨9, 5⟩ {} (threeVoters.config 1) _ _ hnew)
  exact ⟨_, hrestart, rfl, rfl, rfl, rfl⟩

end RaftNode

/-- A call the event loop makes on a node. -/
inductive LoopCall where
  | rpc (clock : Clock) (faults : Faults) (envelope : RpcEnvelope)
  | tick (clock : Clock) (faults : Faults)
  | step (timer clock : Clock) (timerFaults faults : Faults) (received : RaftNode.Received)

/-- The envelope a call brings. -/
def LoopCall.envelope? : LoopCall → Option RpcEnvelope
  | .rpc _ _ envelope => some envelope
  | .step _ _ _ _ (.envelope envelope) => some envelope
  | _ => none

/-- The envelope is a vote response of a later term than zero. -/
def RpcEnvelope.BringsTerm (envelope : RpcEnvelope) : Prop :=
  ∃ response, envelope.payload = .voteResponse response ∧ 0 < response.term

namespace RaftNode

/-- The node after a call of the event loop. -/
def loop (codec : VotersCodec) (node : RaftNode) : LoopCall → RaftNode
  | .rpc clock faults envelope => (node.handleRpc codec clock faults envelope).node
  | .tick clock faults => (node.tick codec clock faults).node
  | .step timer clock timerFaults faults received =>
    (node.step codec timer clock timerFaults faults received).node

/-- The node after a sequence of calls of the event loop. -/
def loopAll (codec : VotersCodec) (node : RaftNode) (calls : List LoopCall) : RaftNode :=
  calls.foldl (loop codec) node

/-- Nothing has happened to the node, nothing is stored, and it can still be bootstrapped. -/
structure Inert (node : RaftNode) : Prop where
  role : node.state.role = .unattached
  currentTerm : node.state.currentTerm = 0
  votedFor : node.state.votedFor = none
  stores : node.stores = Stores.empty
  bootstraps : ∀ clock clusterId voters,
    validateBootstrapConfig node.state.nodeId clusterId voters = .ok () →
    (node.bootstrap clock {} clusterId voters).result = .ok ()

variable {codec : VotersCodec} {clock : Clock} {faults : Faults} {config : RaftConfig}
  {node : RaftNode} {envelope : RpcEnvelope}

/-- A tick that succeeds comes before the received envelope is handled. -/
theorem step_node_cases (codec : VotersCodec) (timer clock : Clock) (timerFaults faults : Faults)
    (received : Received) (node : RaftNode) :
    (node.step codec timer clock timerFaults faults received).node =
      (node.tick codec timer timerFaults).node ∨
      ∃ envelope, received = .envelope envelope ∧
        (node.step codec timer clock timerFaults faults received).node =
          ((node.tick codec timer timerFaults).node.handleRpc codec clock faults
            envelope).node := by
  unfold step
  obtain ⟨result, ticked, sent⟩ := node.tick codec timer timerFaults
  cases result with
  | error e => exact Or.inl rfl
  | ok _ =>
    cases received with
    | envelope envelope => exact Or.inr ⟨envelope, rfl, rfl⟩
    | idle => exact Or.inl rfl
    | failed reason => exact Or.inl rfl

/-- What every move keeps holds after a call of the event loop. -/
theorem loop_keeps {P : RaftNode → Prop}
    (hmove : ∀ input origin before after, P before → Move codec input origin before after → P after)
    (call : LoopCall) (hnode : P node) : P (node.loop codec call) := by
  have hcall : ∀ node input, P node → P (node.handle codec input) := fun node input h =>
    handle_keeps h (hmove input node)
  cases call with
  | rpc clock faults envelope => exact hcall node ⟨.rpc envelope, clock, faults⟩ hnode
  | tick clock faults => exact hcall node ⟨.tick, clock, faults⟩ hnode
  | step timer clock timerFaults faults received =>
    have hticked := hcall node ⟨.tick, timer, timerFaults⟩ hnode
    change P (node.step codec timer clock timerFaults faults received).node
    rcases step_node_cases codec timer clock timerFaults faults received node with hstep |
      ⟨envelope, -, hstep⟩
    · exact hstep ▸ hticked
    · exact hstep ▸ hcall _ ⟨.rpc envelope, clock, faults⟩ hticked

/-- No move makes a node unattached. -/
theorem Move.attached {input : NodeInput} {origin before after : RaftNode}
    (hbefore : before.state.role ≠ .unattached) (hmove : Move codec input origin before after) :
    after.state.role ≠ .unattached := by
  have hleader : ∀ winner : RaftNode, winner.state.role ≠ .unattached →
      (winner.becomeLeader codec input.faults).2.state.role ≠ .unattached := by
    intro winner hwinner
    obtain ⟨log, -, hnode | hnode⟩ := becomeLeader_cases codec input.faults winner
    · rw [hnode]
      exact hwinner
    · rw [hnode]
      exact nofun
  cases hmove with
  | won => exact hleader _ hbefore
  | elected source _ _ _ _ => exact hleader (origin.count source) hbefore
  | formed => exact nofun
  | candidate => exact nofun
  | candidacy => exact nofun
  | term => exact nofun
  | _ => exact hbefore

/-- A node that has left the unattached role never gets back to it. -/
theorem loopAll_attached (calls : List LoopCall) (h : node.state.role ≠ .unattached) :
    (node.loopAll codec calls).state.role ≠ .unattached := by
  induction calls generalizing node with
  | nil => exact h
  | cons call rest ih =>
    exact ih (loop_keeps (fun _ _ _ _ hbefore hmove => hmove.attached hbefore) call h)

/-- An envelope without a term does nothing to a fresh node. -/
theorem handleRpc_fresh (codec : VotersCodec) (clock : Clock) (faults : Faults)
    (config : RaftConfig) (now : ℕ) (stores : Stores) (henvelope : ¬ envelope.BringsTerm) :
    ((fresh config now stores).handleRpc codec clock faults envelope).node =
      fresh config now stores := by
  unfold handleRpc
  rw [if_neg (by simp [fresh])]
  cases hpayload : envelope.payload with
  | voteRequest request =>
    cases faults.send <;> simp [handleVoteRequest, fresh, NodeState.newUnattached]
  | voteResponse response =>
    have hterm : ¬ 0 < response.term := fun hpos => henvelope ⟨response, hpayload, hpos⟩
    simp [handleVoteResponse, fresh, NodeState.newUnattached, Nat.eq_zero_of_not_pos hterm]
  | _ => rfl

/-- A vote response of a later term makes a fresh node a follower. -/
theorem handleRpc_fresh_bringsTerm (codec : VotersCodec) (clock : Clock) (faults : Faults)
    (config : RaftConfig) (now : ℕ) (stores : Stores) (henvelope : envelope.BringsTerm) :
    ((fresh config now stores).handleRpc codec clock faults envelope).node.state.role =
      .follower := by
  obtain ⟨response, hpayload, hterm⟩ := henvelope
  unfold handleRpc
  rw [if_neg (by simp [fresh]), hpayload]
  have hlater : response.term > (fresh config now stores).state.currentTerm := hterm
  dsimp only [handleVoteResponse]
  rw [if_pos hlater]
  cases faults.saveTerm <;> rfl

/-- The timer of a fresh node does not run. -/
theorem tick_fresh (codec : VotersCodec) (clock : Clock) (faults : Faults)
    (config : RaftConfig) (now : ℕ) (stores : Stores) :
    (fresh config now stores).tick codec clock faults = ⟨.ok (), fresh config now stores, []⟩ := by
  unfold tick
  rw [if_neg (by simp [fresh, NodeState.newUnattached])]

/-- What a call does to a fresh node is what its envelope does. -/
theorem loop_fresh (codec : VotersCodec) (call : LoopCall) (config : RaftConfig) (now : ℕ)
    (stores : Stores) :
    call.envelope? = none ∧ (fresh config now stores).loop codec call = fresh config now stores ∨
      ∃ envelope clock faults, call.envelope? = some envelope ∧
        (fresh config now stores).loop codec call =
        ((fresh config now stores).handleRpc codec clock faults envelope).node := by
  cases call with
  | rpc clock faults envelope => exact Or.inr ⟨envelope, clock, faults, rfl, rfl⟩
  | tick clock faults => exact Or.inl ⟨rfl, by rw [loop, tick_fresh]⟩
  | step timer clock timerFaults faults received =>
    have htick := tick_fresh codec timer timerFaults config now stores
    cases received with
    | envelope envelope =>
      exact Or.inr ⟨envelope, clock, faults, rfl, by simp only [loop, step, htick]⟩
    | idle => exact Or.inl ⟨rfl, by simp only [loop, step, htick]⟩
    | failed reason => exact Or.inl ⟨rfl, by simp only [loop, step, htick]⟩

/-- A node created on empty stores is inert after a sequence of calls exactly if none of them
brought a vote response of a later term than zero. -/
theorem inert_iff (hnew : new codec clock faults config Stores.empty = .ok node)
    (calls : List LoopCall) :
    (node.loopAll codec calls).Inert ↔
      ∀ call ∈ calls, ∀ envelope, call.envelope? = some envelope → ¬ envelope.BringsTerm := by
  have hfresh : node = fresh config clock.now Stores.empty := by
    rcases new_spec hnew with ⟨-, rfl⟩ | ⟨hdata, -⟩ | ⟨-, hstalled⟩
    · rfl
    · exact absurd (by decide) hdata
    · cases hstalled.snapshot
  subst hfresh
  induction calls with
  | nil =>
    refine iff_of_true ⟨rfl, rfl, rfl, rfl, fun later _ _ hvalid => ?_⟩ (fun _ h => nomatch h)
    exact fresh_bootstraps (by decide) later hvalid
  | cons call rest ih =>
    rw [List.forall_mem_cons]
    change (((fresh config clock.now Stores.empty).loop codec call).loopAll codec rest).Inert ↔ _
    rcases loop_fresh codec call config clock.now Stores.empty with
      ⟨hnone, hsame⟩ | ⟨envelope, rpcClock, rpcFaults, hsome, hnode⟩
    · rw [hsame]
      exact ih.trans (by simp [hnone])
    · by_cases hbrings : envelope.BringsTerm
      · refine iff_of_false (fun hinert => ?_) (fun hnone => hnone.1 envelope hsome hbrings)
        have hfollower :=
          handleRpc_fresh_bringsTerm codec rpcClock rpcFaults config clock.now Stores.empty hbrings
        refine loopAll_attached rest ?_ hinert.role
        rw [hnode, hfollower]
        exact nofun
      · rw [hnode, handleRpc_fresh codec rpcClock rpcFaults config clock.now Stores.empty hbrings]
        exact ih.trans (by simp [hsome, hbrings])

/-- Node 1 of the three ignores a vote request and a vote response of term zero and can still be
bootstrapped. -/
theorem inert_after_requests :
    ((fresh (threeVoters.config 1) 0 Stores.empty).loopAll threeVoters.codec
      [.rpc ⟨1, 5⟩ {} ⟨9, 0, 2, .voteRequest ⟨4, 2, 0, 0, false⟩⟩,
        .step ⟨2, 5⟩ ⟨2, 5⟩ {} {} (.envelope ⟨9, 0, 2, .voteResponse ⟨0, true, false⟩⟩),
        .tick ⟨900, 5⟩ {}]).Inert := by
  have hnew : new threeVoters.codec ⟨0, 5⟩ {} (threeVoters.config 1) Stores.empty = .ok _ := rfl
  refine (inert_iff hnew _).mpr ?_
  rintro call hcall envelope henvelope ⟨response, hpayload, hterm⟩
  simp only [List.mem_cons, List.not_mem_nil, or_false] at hcall
  rcases hcall with rfl | rfl | rfl
  · cases henvelope
    cases hpayload
  · cases henvelope
    cases hpayload
    cases hterm
  · cases henvelope

/-- One stray vote response makes the unbootstrapped node a follower of term 1 and writes a quorum
state with the nil cluster id, after which it cannot be bootstrapped. -/
theorem stray_not_inert :
    new threeVoters.codec ⟨0, 5⟩ {} (threeVoters.config 1) Stores.empty =
        .ok (fresh (threeVoters.config 1) 0 Stores.empty) ∧
      (fresh (threeVoters.config 1) 0 Stores.empty).loopAll threeVoters.codec
        [.rpc ⟨0, 5⟩ {} strayResponse] = strayed ∧
      strayed.bootstrapped = false ∧ strayed.state.role = .follower ∧
        strayed.state.currentTerm = 1 ∧
      strayed.stores.quorumState = some ⟨1, none, none, 0, ClusterId.nil⟩ ∧
      (strayed.bootstrap ⟨9, 5⟩ {} 7 [⟨1, "a"⟩, ⟨2, "b"⟩, ⟨3, "c"⟩]).result =
        .error (.alreadyBootstrapped "node is not in Unattached state") :=
  ⟨rfl, rfl, rfl, rfl, rfl, rfl, rfl⟩

end RaftNode

end XRaft
