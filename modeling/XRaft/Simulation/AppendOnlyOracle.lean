import XRaft.Lib.Monitor
import XRaft.Simulation.LeaderCompletenessOracle

/-!
# The checks of leaders over time

`check_leader_append_only` is the one check with a memory. It keeps the log of every leader
by node and term, and each time it meets the leader again, in the same term, it compares the
log with the kept one: the entries that were there must still be there. Comparing with the
last observation is enough: the relation is transitive, so a history of clusters passes
exactly if every two observations of a leader are so related, however far apart they are and
whatever the node was in between.
-/

namespace XRaft

open Lib

/-- What makes one of the checks over time panic. -/
inductive LeaderViolation where
  /-- The look-up of a node or of an entry fails. -/
  | lookup (violation : Violation)
  /-- A term has several leaders. -/
  | multipleLeaders (term : ℕ) (leaders : List NodeId)
  /-- An entry's offset is not above that of the entry before it. -/
  | nonMonotonicOffsets (leader : NodeId) (index : ℕ)
  /-- An entry's term is below that of the entry before it. -/
  | decreasingTerms (leader : NodeId) (termBefore offsetBefore term offset : ℕ)
  /-- An entry that the leader had is gone. -/
  | deletedEntry (leader : NodeId) (term offset : ℕ)
  /-- An entry that the leader had has another term. -/
  | changedTerm (leader : NodeId) (term offset entryBefore entryNow : ℕ)
  /-- An entry that the leader had has other data. -/
  | changedData (leader : NodeId) (term offset : ℕ)
  /-- The log has become shorter. -/
  | shrankLog (leader : NodeId) (term lengthBefore length : ℕ)
  deriving DecidableEq, Repr

namespace InvariantChecker

/-- The active leaders by term. -/
def leadersPerTerm (cluster : SimulatedCluster) : Except LeaderViolation (List (ℕ × List NodeId)) :=
  cluster.nodeIds.foldlM (fun leaders id =>
    if id ∈ cluster.stoppedNodes then return leaders
    else do
      let node ← (cluster.node id).mapError .lookup
      if node.isLeader then return pushAt node.currentTerm id leaders else return leaders) []

/-- The order in which the map of leaders is iterated. -/
def TermOrder : Type :=
  { iterate : List (ℕ × List NodeId) → List (ℕ × List NodeId) // ∀ leaders,
    (iterate leaders).Perm leaders }

/-- Invariant 1: at most one leader per term. -/
def checkLeaderElectionSafety (order : TermOrder) (cluster : SimulatedCluster) :
    Except LeaderViolation Unit := do
  let leaders ← leadersPerTerm cluster
  forM (order.1 leaders) fun slot => assertThat (.multipleLeaders slot.1 slot.2) (slot.2.length ≤ 1)

/-- The map has the active leaders of every term. -/
theorem leadersPerTerm_eq (cluster : SimulatedCluster) :
    leadersPerTerm cluster =
      .ok
        (buckets ((activeLeaders cluster).map fun leader => (leader.2.currentTerm, leader.1))) := by
  rw [leadersPerTerm, SimulatedCluster.nodeIds, buckets, List.foldl_map, activeLeaders,
    List.foldl_filter, SimulatedCluster.active, List.foldl_filter]
  refine foldlM_eq_ok (fun leaders driver hdriver => ?_) []
  rw [SimulatedCluster.node_of_mem hdriver]
  by_cases hstopped : driver.1 ∈ cluster.stoppedNodes
  · simp [hstopped, pure, Except.pure]
  · cases hleads : driver.2.isLeader with
    | true => simp [hstopped, hleads, Except.mapError, bind, Except.bind, pure, Except.pure]
    | false => simp [hstopped, hleads, Except.mapError, bind, Except.bind, pure, Except.pure]

/-- The check finishes, in whatever order the map is iterated, exactly if no two active nodes lead
in one term. -/
theorem checkLeaderElectionSafety_iff (order : TermOrder) (cluster : SimulatedCluster) :
    checkLeaderElectionSafety order cluster = .ok () ↔
      ∀ first ∈ activeLeaders cluster, ∀ second ∈ activeLeaders cluster,
        first.2.currentTerm = second.2.currentTerm → first.1 = second.1 := by
  have hterms : checkLeaderElectionSafety order cluster = .ok () ↔
      ((activeLeaders cluster).map fun leader => leader.2.currentTerm).Nodup := by
    have hsingle :=
      buckets_single_iff ((activeLeaders cluster).map fun leader =>
        (leader.2.currentTerm, leader.1))
    rw [List.map_map] at hsingle
    simp only [checkLeaderElectionSafety, leadersPerTerm_eq, bind, Except.bind, forM_eq_ok,
      (order.2 _).mem_iff, assertThat_eq_ok]
    exact hsingle
  have hmem : ∀ leader ∈ activeLeaders cluster, leader ∈ cluster.drivers := fun leader hleader =>
    (SimulatedCluster.mem_active.mp (List.mem_of_mem_filter hleader)).1
  rw [hterms]
  constructor
  · intro h first hfirst second hsecond hterm
    rw [List.inj_on_of_nodup_map h hfirst hsecond hterm]
  · intro h
    have hnodup : (activeLeaders cluster).Nodup :=
      (cluster.nodup.of_map Prod.fst).filter _ |>.filter _
    refine hnodup.map_on fun first hfirst second hsecond hterm => ?_
    exact List.inj_on_of_nodup_map cluster.nodup (hmem first hfirst) (hmem second hsecond)
      (h first hfirst second hsecond hterm)

end InvariantChecker

/-- The checker's memory: the logs of leaders by node and term. -/
structure InvariantChecker where
  leaderLogSnapshots : NodeId × ℕ → Option (List LogEntry)

namespace InvariantChecker

/-- A checker that has seen nothing. -/
def new : InvariantChecker := ⟨fun _ => none⟩

/-- Every entry's offset is above that of the entry before it. -/
def checkOffsets (leader : NodeId) (log : List LogEntry) : Except LeaderViolation Unit :=
  checkNeighbours (.lookup .outOfBounds) (fun i _ _ => .nonMonotonicOffsets leader i)
    (fun previous entry => previous.offset < entry.offset) log

/-- No entry's term is below that of the entry before it. -/
def checkTerms (leader : NodeId) (log : List LogEntry) : Except LeaderViolation Unit :=
  checkNeighbours (.lookup .outOfBounds)
    (fun _ previous entry =>
      .decreasingTerms leader previous.term previous.offset entry.term entry.offset)
    (fun previous entry => previous.term ≤ entry.term) log

/-- An entry that was there is still there, with its term and data. -/
def checkRetained (leader : NodeId) (term : ℕ) (log : List LogEntry) (prevEntry : LogEntry) :
    Except LeaderViolation Unit :=
  match entryAt log prevEntry.offset with
  | none => .error (.deletedEntry leader term prevEntry.offset)
  | some ce => do
    assertThat (.changedTerm leader term prevEntry.offset prevEntry.term ce.term)
      (ce.term = prevEntry.term)
    assertThat (.changedData leader term prevEntry.offset) (ce.payload = prevEntry.payload)

/-- Compare a leader's log with the one that was kept. -/
def checkHistorical (leader : NodeId) (term : ℕ) (log : List LogEntry) :
    Option (List LogEntry) → Except LeaderViolation Unit
  | none => .ok ()
  | some prevSnapshot => do
    forM prevSnapshot fun prevEntry => checkRetained leader term log prevEntry
    assertThat (.shrankLog leader term prevSnapshot.length log.length)
      (prevSnapshot.length ≤ log.length)

/-- Check the log of a leader, and keep it. -/
def watch (checker : InvariantChecker) (observation : (NodeId × ℕ) × List LogEntry) :
    Except LeaderViolation InvariantChecker := do
  checkOffsets observation.1.1 observation.2
  checkTerms observation.1.1 observation.2
  checkHistorical observation.1.1 observation.1.2 observation.2
    (checker.leaderLogSnapshots observation.1)
  return ⟨Function.update checker.leaderLogSnapshots observation.1 (some observation.2)⟩

/-- One round of the check: stopped nodes and nodes that do not lead are left out. -/
def watchNode (cluster : SimulatedCluster) (checker : InvariantChecker) (id : NodeId) :
    Except LeaderViolation InvariantChecker :=
  if id ∈ cluster.stoppedNodes then return checker
  else do
    let node ← (cluster.node id).mapError .lookup
    if !node.isLeader then return checker
    else checker.watch ((id, node.currentTerm), node.log)

/-- Invariant 2: a leader never overwrites or deletes its own entries. -/
def checkLeaderAppendOnly (checker : InvariantChecker) (cluster : SimulatedCluster) :
    Except LeaderViolation InvariantChecker :=
  cluster.nodeIds.foldlM (watchNode cluster) checker

/-- The offsets of a log increase and its terms do not decrease. -/
structure Ordered (log : List LogEntry) : Prop where
  offsets : (log.map LogEntry.offset).Pairwise (· < ·)
  terms : (log.map LogEntry.term).Pairwise (· ≤ ·)

/-- Every entry of an earlier log is still there, with its term and data. -/
def Retains (earlier later : List LogEntry) : Prop :=
  ∀ e ∈ earlier, ∃ e', entryAt later e.offset = some e' ∧ e'.term = e.term ∧ e'.payload = e.payload

/-- What the check sees of a cluster: the logs of its active leaders. -/
def observations (cluster : SimulatedCluster) : List ((NodeId × ℕ) × List LogEntry) :=
  (activeLeaders cluster).map fun leader => ((leader.1, leader.2.currentTerm), leader.2.log)

variable {log earlier middle later : List LogEntry}

/-- What is retained over two periods is retained over both. -/
theorem Retains.trans (h : Retains earlier middle) (h' : Retains middle later) :
    Retains earlier later := by
  intro e he
  obtain ⟨em, hentry, hterm, hpayload⟩ := h e he
  obtain ⟨e', hentry', hterm', hpayload'⟩ := h' em (List.mem_of_find?_eq_some hentry)
  have hoffset : em.offset = e.offset := by simpa using List.find?_some hentry
  rw [hoffset] at hentry'
  exact ⟨e', hentry', hterm'.trans hterm, hpayload'.trans hpayload⟩

/-- A log that retains one of increasing offsets is not shorter. -/
theorem Retains.length_le (h : Retains earlier later) (hordered : Ordered earlier) :
    earlier.length ≤ later.length := by
  have hnodup : (earlier.map LogEntry.offset).Nodup := hordered.offsets.imp Nat.ne_of_lt
  have hsubset : earlier.map LogEntry.offset ⊆ later.map LogEntry.offset := by
    intro offset hmem
    obtain ⟨e, he, rfl⟩ := List.mem_map.mp hmem
    obtain ⟨e', hentry, -⟩ := h e he
    exact List.mem_map.mpr ⟨e', List.mem_of_find?_eq_some hentry,
      by simpa using List.find?_some hentry⟩
  simpa using (List.subperm_of_subset hnodup hsubset).length_le

/-- The loops over neighbouring entries pass if the log is ordered. -/
theorem checkOrdered_eq_ok (leader : NodeId) (log : List LogEntry) :
    checkOffsets leader log = .ok () ∧ checkTerms leader log = .ok () ↔ Ordered log := by
  rw [checkOffsets, checkTerms, checkNeighbours_eq_ok, checkNeighbours_eq_ok]
  have hoffsets : log.IsChain (fun previous entry => previous.offset < entry.offset) ↔
      (log.map LogEntry.offset).Pairwise (· < ·) := by
    rw [← List.isChain_iff_pairwise, List.isChain_map]
  have hterms : log.IsChain (fun previous entry => previous.term ≤ entry.term) ↔
      (log.map LogEntry.term).Pairwise (· ≤ ·) := by
    rw [← List.isChain_iff_pairwise, List.isChain_map]
  rw [hoffsets, hterms]
  exact ⟨fun h => ⟨h.1, h.2⟩, fun h => ⟨h.offsets, h.terms⟩⟩

/-- The comparison with a kept log passes if its entries are retained and the log is not shorter. -/
theorem checkHistorical_eq_ok (leader : NodeId) (term : ℕ) (log : List LogEntry)
    (kept : Option (List LogEntry)) :
    checkHistorical leader term log kept = .ok () ↔
      ∀ last, kept = some last → Retains last log ∧ last.length ≤ log.length := by
  cases kept with
  | none => simp [checkHistorical]
  | some last =>
    have hentry : ∀ e, checkRetained leader term log e = .ok () ↔
        ∃ e', entryAt log e.offset = some e' ∧ e'.term = e.term ∧ e'.payload = e.payload := by
      intro e
      rw [checkRetained]
      cases entryAt log e.offset with
      | none => simp
      | some e' => simp
    simp [checkHistorical, hentry, Retains]

/-- The log of an observation is ordered. -/
def Sound (observation : (NodeId × ℕ) × List LogEntry) : Prop := Ordered observation.2

/-- A log retains another and is not shorter. -/
def Outgrows (earlier later : List LogEntry) : Prop :=
  Retains earlier later ∧ earlier.length ≤ later.length

/-- The check of a leader's log passes if it is ordered and retains the one kept last. -/
theorem watch_eq_ok {checker : InvariantChecker} {observation : (NodeId × ℕ) × List LogEntry}
    (h : Sound observation ∧ Follows Outgrows checker.leaderLogSnapshots observation) :
    checker.watch observation = .ok ⟨observe checker.leaderLogSnapshots observation⟩ := by
  obtain ⟨hoffsets, hterms⟩ := (checkOrdered_eq_ok observation.1.1 observation.2).mpr h.1
  have hhistorical :=
    (checkHistorical_eq_ok observation.1.1 observation.1.2 observation.2 _).mpr h.2
  rw [watch, hoffsets, hterms, hhistorical]
  rfl

/-- Otherwise it panics. -/
theorem watch_eq_error {checker : InvariantChecker} {observation : (NodeId × ℕ) × List LogEntry}
    (h : ¬ (Sound observation ∧ Follows Outgrows checker.leaderLogSnapshots observation)) :
    ∃ raised, checker.watch observation = .error raised := by
  rw [watch]
  cases hoffsets : checkOffsets observation.1.1 observation.2 with
  | error raised => exact ⟨raised, rfl⟩
  | ok =>
    cases hterms : checkTerms observation.1.1 observation.2 with
    | error raised => exact ⟨raised, rfl⟩
    | ok =>
      cases hhistorical : checkHistorical observation.1.1 observation.1.2 observation.2
          (checker.leaderLogSnapshots observation.1) with
      | error raised => exact ⟨raised, rfl⟩
      | ok =>
        have hsound := (checkOrdered_eq_ok observation.1.1 observation.2).mp ⟨hoffsets, hterms⟩
        exact absurd ⟨hsound, (checkHistorical_eq_ok _ _ _ _).mp hhistorical⟩ h

/-- The check of a cluster watches the logs of its active leaders. -/
theorem checkLeaderAppendOnly_eq (checker : InvariantChecker) (cluster : SimulatedCluster) :
    checker.checkLeaderAppendOnly cluster = (observations cluster).foldlM watch checker := by
  rw [checkLeaderAppendOnly, SimulatedCluster.nodeIds, List.foldlM_map, observations,
    List.foldlM_map, activeLeaders, List.foldlM_filter, SimulatedCluster.active, List.foldlM_filter]
  refine foldlM_congr (fun checker driver hdriver => ?_) checker
  rw [watchNode, SimulatedCluster.node_of_mem hdriver]
  by_cases hstopped : driver.1 ∈ cluster.stoppedNodes
  · simp [hstopped]
  · cases hleads : driver.2.isLeader with
    | true => simp [hstopped, hleads, Except.mapError, bind, Except.bind]
    | false => simp [hstopped, hleads, Except.mapError, bind, Except.bind]

/-- A history of clusters is watched leader by leader. -/
theorem foldlM_checkLeaderAppendOnly (history : List SimulatedCluster)
    (checker : InvariantChecker) :
    history.foldlM checkLeaderAppendOnly checker =
      (history.flatMap observations).foldlM watch checker := by
  rw [← foldlM_flatMap]
  congr 1
  funext checker cluster
  exact checkLeaderAppendOnly_eq checker cluster

/-- Watching some leaders passes if each log is ordered and outgrows the one kept last. -/
theorem foldlM_watch (checker : InvariantChecker) (observed : List ((NodeId × ℕ) × List LogEntry)) :
    (∃ last, observed.foldlM watch checker = .ok last) ↔
      (∀ observation ∈ observed, Sound observation) ∧
        Along observe (Follows Outgrows) checker.leaderLogSnapshots observed := by
  rw [foldlM_ok_iff (fun _ _ => watch_eq_ok) (fun _ _ => watch_eq_error), ← along_and]
  induction observed generalizing checker with
  | nil => exact Iff.rfl
  | cons observation rest ih => exact and_congr_right fun _ => ih _

/-- The leaders a cluster shows have different ids. -/
theorem observations_distinct (cluster : SimulatedCluster) :
    (observations cluster).Pairwise fun first second => first.1 ≠ second.1 := by
  have hids : (cluster.drivers.map Prod.fst).Nodup := cluster.nodup
  rw [List.Nodup, List.pairwise_map] at hids
  rw [observations, List.pairwise_map]
  refine ((hids.filter _).filter _).imp fun hne heq => hne ?_
  exact (Prod.ext_iff.mp heq).1

/-- A log that outgrows one of increasing offsets is one that retains it. -/
theorem outgrows_iff (hordered : Ordered earlier) :
    Outgrows earlier later ↔ Retains earlier later :=
  ⟨fun h => h.1, fun h => ⟨h, h.length_le hordered⟩⟩

/-- A history of clusters passes the check exactly if the logs of all active leaders are ordered,
and whenever a node leads in one term at two times, however far apart, it has retained its entries
with their terms and data. -/
theorem history_appendOnly_iff (history : List SimulatedCluster) :
    (∃ checker, history.foldlM checkLeaderAppendOnly new = .ok checker) ↔
      (∀ cluster ∈ history, ∀ leader ∈ activeLeaders cluster, Ordered leader.2.log) ∧
        history.Pairwise fun earlier later => ∀ leader ∈ activeLeaders earlier,
        ∀ again ∈ activeLeaders later,
          leader.1 = again.1 → leader.2.currentTerm = again.2.currentTerm →
            Retains leader.2.log again.2.log := by
  have htrans : ∀ a b c, Outgrows a b → Outgrows b c → Outgrows a c :=
    fun _ _ _ h h' => ⟨h.1.trans h'.1, h.2.trans h'.2⟩
  have hsound : (∀ observation ∈ history.flatMap observations, Sound observation) ↔
      ∀ cluster ∈ history, ∀ leader ∈ activeLeaders cluster, Ordered leader.2.log := by
    simp only [List.forall_mem_flatMap, observations, List.forall_mem_map, Sound]
  rw [foldlM_checkLeaderAppendOnly, foldlM_watch, along_follows htrans, hsound]
  refine and_congr_right fun hordered => ?_
  have hfresh : ∀ observation ∈ history.flatMap observations,
      Follows Outgrows new.leaderLogSnapshots observation :=
    fun _ _ _ => nofun
  have hinside : ∀ cluster ∈ history, (observations cluster).Pairwise
      fun first second => first.1 = second.1 → Outgrows first.2 second.2 :=
    fun cluster _ => (observations_distinct cluster).imp fun hne heq => absurd heq hne
  rw [List.pairwise_flatMap, and_iff_right hfresh, and_iff_right hinside]
  refine List.Pairwise.iff_of_mem fun {earlier later} hearlier _ => ?_
  simp only [observations, List.forall_mem_map, Prod.mk.injEq, and_imp]
  refine forall₂_congr fun leader hleader => ?_
  simp only [outgrows_iff (hordered earlier hearlier leader hleader)]

end InvariantChecker

end XRaft
