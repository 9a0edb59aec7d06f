import XRaft.Simulation.SimulatedCluster

/-!
# The log-matching check of the invariant checker

`check_log_matching` goes through every pair of active nodes and every pair of their entries;
where two entries have the same offset and term, `verify_prefix_match` compares the two logs
at every offset up to theirs. For logs without gaps the check finishes exactly if the logs
have the log matching property.
-/

namespace XRaft

open Lib

namespace InvariantChecker

/-- Compare two logs at one offset. -/
def matchAt (logA logB : List LogEntry) (nodeA nodeB : NodeId) (offset : ℕ) :
    Except Violation Unit :=
  match entryAt logA offset, entryAt logB offset with
  | some ea, some eb => do
    assertThat (.matchingTerm offset nodeA nodeB) (ea.term = eb.term)
    assertThat (.matchingType offset nodeA nodeB) (ea.entryType = eb.entryType)
    assertThat (.matchingData offset nodeA nodeB) (ea.payload = eb.payload)
  | some _, none =>
    assertThat (.prefixGap offset nodeA nodeB) (¬ (logB.any fun e => offset < e.offset) = true)
  | none, some _ =>
    assertThat (.prefixGap offset nodeB nodeA) (¬ (logA.any fun e => offset < e.offset) = true)
  | none, none => .ok ()

/-- Compare two logs at every offset up to a given one. -/
def verifyPrefixMatch (logA logB : List LogEntry) (upToOffset : ℕ) (nodeA nodeB : NodeId) :
    Except Violation Unit :=
  forM (List.range (upToOffset + 1)) fun offset => matchAt logA logB nodeA nodeB offset

/-- Compare the logs of two nodes wherever they have entries of one offset and term. -/
def matchLogs (logA logB : List LogEntry) (nodeA nodeB : NodeId) : Except Violation Unit :=
  forM logA fun entryA => forM logB fun entryB =>
    if entryA.offset = entryB.offset ∧ entryA.term = entryB.term then
      verifyPrefixMatch logA logB entryA.offset nodeA nodeB
    else .ok ()

/-- One round of the check: the logs of two nodes. -/
def matchPair (cluster : SimulatedCluster) (nodeA nodeB : NodeId) : Except Violation Unit := do
  let logA := (← cluster.node nodeA).log
  let logB := (← cluster.node nodeB).log
  matchLogs logA logB nodeA nodeB

/-- Invariant 3: log matching. -/
def checkLogMatching (cluster : SimulatedCluster) : Except Violation Unit :=
  checkPairs .outOfBounds cluster.activeIds (matchPair cluster)

/-- What the check compares of an entry. -/
def content (e : LogEntry) : ℕ × EntryType × Bytes := (e.term, e.entryType, e.payload)

/-- Two logs agree in term, entry type and data at an offset. -/
def AgreeAt (logA logB : List LogEntry) (offset : ℕ) : Prop :=
  (entryAt logA offset).map content = (entryAt logB offset).map content

/-- Where two logs have entries of equal term, they agree up to there. -/
def LogsMatch (logA logB : List LogEntry) : Prop :=
  ∀ offset ea eb, entryAt logA offset = some ea → entryAt logB offset = some eb →
    ea.term = eb.term →
    ∀ earlier ≤ offset, AgreeAt logA logB earlier

variable {logA logB : List LogEntry} {nodeA nodeB : NodeId}

/-- A log is matched by itself. -/
theorem LogsMatch.refl (log : List LogEntry) : LogsMatch log log := fun _ _ _ _ _ _ _ _ => rfl

/-- Matching does not depend on the order of the two logs. -/
theorem LogsMatch.symm (h : LogsMatch logA logB) : LogsMatch logB logA :=
  fun offset eb ea heb hea hterm earlier hearlier =>
    (h offset ea eb hea heb hterm.symm earlier hearlier).symm

/-- Where both logs have an entry, the comparison passes if they agree. -/
theorem matchAt_eq_ok {offset : ℕ} {ea eb : LogEntry} (hea : entryAt logA offset = some ea)
    (heb : entryAt logB offset = some eb) :
    matchAt logA logB nodeA nodeB offset = .ok () ↔ AgreeAt logA logB offset := by
  rw [matchAt, hea, heb]
  simp [AgreeAt, hea, heb, content]

section Pair

variable (hA : Consecutive LogEntry.offset 0 logA) (hB : Consecutive LogEntry.offset 0 logB)

include hA hB

/-- The comparison up to an offset both logs have passes if they agree up to there. -/
theorem verifyPrefixMatch_eq_ok {offset : ℕ} {ea eb : LogEntry}
    (hea : entryAt logA offset = some ea) (heb : entryAt logB offset = some eb) :
    verifyPrefixMatch logA logB offset nodeA nodeB = .ok () ↔
      ∀ earlier ≤ offset, AgreeAt logA logB earlier := by
  rw [verifyPrefixMatch, forM_eq_ok]
  refine forall_congr' fun earlier => ?_
  rw [List.mem_range, Nat.lt_succ_iff]
  refine imp_congr_right fun hearlier => ?_
  obtain ⟨a, ha⟩ := exists_entryAt hA hea hearlier
  obtain ⟨b, hb⟩ := exists_entryAt hB heb hearlier
  exact matchAt_eq_ok ha hb

/-- The comparison of two logs passes if they match. -/
theorem matchLogs_eq_ok : matchLogs logA logB nodeA nodeB = .ok () ↔ LogsMatch logA logB := by
  simp only [matchLogs, forM_eq_ok, ite_eq_right_iff, and_imp]
  constructor
  · intro h offset ea eb hea heb hterm
    have hoffsetA : ea.offset = offset := by simpa using List.find?_some hea
    have hoffsetB : eb.offset = offset := by simpa using List.find?_some heb
    have hverified := h ea (List.mem_of_find?_eq_some hea) eb (List.mem_of_find?_eq_some heb)
      (hoffsetA.trans hoffsetB.symm) hterm
    rw [hoffsetA] at hverified
    exact (verifyPrefixMatch_eq_ok hA hB hea heb).mp hverified
  · intro h ea hea eb heb hoffset hterm
    have hentryA := entryAt_offset hA hea
    have hentryB := entryAt_offset hB heb
    rw [← hoffset] at hentryB
    exact (verifyPrefixMatch_eq_ok hA hB hentryA hentryB).mpr
      (h ea.offset ea eb hentryA hentryB hterm)

end Pair

/-- One round compares the logs of two active drivers. -/
theorem matchPair_eq {cluster : SimulatedCluster} {a b : NodeId × NodeState}
    (ha : a ∈ cluster.active) (hb : b ∈ cluster.active) :
    matchPair cluster a.1 b.1 = matchLogs a.2.log b.2.log a.1 b.1 := by
  have hnodeA := SimulatedCluster.node_of_mem (SimulatedCluster.mem_active.mp ha).1
  have hnodeB := SimulatedCluster.node_of_mem (SimulatedCluster.mem_active.mp hb).1
  simp only [matchPair, hnodeA, hnodeB, bind, Except.bind]

/-- For clusters whose active logs have no gaps, the check finishes exactly if every two active
logs match. -/
theorem checkLogMatching_iff (cluster : SimulatedCluster)
    (hlogs : ∀ driver ∈ cluster.active, Consecutive LogEntry.offset 0 driver.2.log) :
    checkLogMatching cluster = .ok () ↔
      ∀ a ∈ cluster.active, ∀ b ∈ cluster.active, LogsMatch a.2.log b.2.log := by
  refine SimulatedCluster.checkPairs_active _ (matchPair cluster)
    (fun a b => LogsMatch a.2.log b.2.log) (fun a ha b hb => ?_)
    (fun driver => LogsMatch.refl driver.2.log) (fun _ _ => LogsMatch.symm)
  rw [matchPair_eq ha hb]
  exact matchLogs_eq_ok (hlogs a ha) (hlogs b hb)

/-- The check passes a follower that trails its leader, and the logs of the two match. -/
theorem checkLogMatching_iff_trailing :
    (∀ driver ∈ SimulatedCluster.trailing.active, Consecutive LogEntry.offset 0 driver.2.log) ∧
      checkLogMatching .trailing = .ok () ∧
      ∀ a ∈ SimulatedCluster.trailing.active, ∀ b ∈ SimulatedCluster.trailing.active,
      LogsMatch a.2.log b.2.log := by
  have hlogs : ∀ driver ∈ SimulatedCluster.trailing.active,
      Consecutive LogEntry.offset 0 driver.2.log := by
    decide +kernel
  exact ⟨hlogs, rfl, (checkLogMatching_iff .trailing hlogs).mp rfl⟩

end InvariantChecker

end XRaft
