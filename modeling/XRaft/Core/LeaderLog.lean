import XRaft.Core.Life

/-!
# The log of a node that is its only writer

Every election a node wins adds a leader change to its log, and the first one a voters
record behind it. The two are separate appends: a failed second append is rolled back,
while a crash in between leaves the leader change alone. The log keeps its shape through
all of this, because a candidate's term is above everything stored, a term is saved before
it leads, and a node that has lost its voters never leads again.

Two things can break it. There is no term above the largest `u64`, and a node that times out
in it starts again from zero. And vote requests leave a candidate only after its vote has been
saved, but a granted response of a term that was not saved is counted too, although it answers
no request of the node. The environments below have a next term for every timeout, and either
deliver no such response or let every save of a vote succeed.
-/

namespace XRaft

open Lib

/-- The shape of the log: dense offsets, ordered terms, one leader change per term, and at most
one voters record, directly behind a leader change of its term. -/
structure LeaderLog (entries : List LogEntry) : Prop where
  offsets : Consecutive LogEntry.offset 0 entries
  terms : entries.Pairwise fun earlier later => earlier.term ≤ later.term
  changes : (entries.filter fun e => e.entryType = .leaderChangeMessage).Pairwise
    fun earlier later => earlier.term < later.term
  records : (entries.filter fun e => e.entryType = .votersRecord).length ≤ 1
  placed : ∀ k record, entries[k]? = some record → record.entryType = .votersRecord →
    ∃ j change, k = j + 1 ∧ entries[j]? = some change ∧ change.entryType = .leaderChangeMessage ∧
      change.term = record.term

/-- An empty log has the shape. -/
theorem leaderLog_nil : LeaderLog [] :=
  ⟨consecutive_nil 0, .nil, .nil, Nat.zero_le 1, fun k record h => by simp at h⟩

/-- An entry of an extended log is an old one or the last. -/
theorem getElem?_concat_cases {α : Type*} {values : List α} {last value : α} {k : ℕ}
    (h : (values ++ [last])[k]? = some value) :
    values[k]? = some value ∨ k = values.length ∧ last = value := by
  rw [List.getElem?_append] at h
  split at h
  · exact Or.inl h
  · rename_i hk
    rw [List.getElem?_singleton] at h
    split at h
    · exact Or.inr ⟨by omega, Option.some.inj h⟩
    · cases h

/-- The entries of a longer log at the positions of a shorter one are the shorter one's. -/
theorem LeaderLog.placed_append {entries : List LogEntry} (h : LeaderLog entries)
    (more : List LogEntry) {k : ℕ} {record : LogEntry} (hk : entries[k]? = some record)
    (htype : record.entryType = .votersRecord) :
    ∃ j change, k = j + 1 ∧ (entries ++ more)[j]? = some change ∧
      change.entryType = .leaderChangeMessage ∧ change.term = record.term := by
  obtain ⟨j, change, hj, hchange, hrest⟩ := h.placed k record hk htype
  have hlength := (List.getElem?_eq_some_iff.mp hchange).1
  exact ⟨j, change, hj, (List.getElem?_append_left hlength).trans hchange, hrest⟩

/-- A leader change of a higher term keeps the shape. -/
theorem LeaderLog.append_change {entries : List LogEntry} (h : LeaderLog entries)
    {change : LogEntry} (hoffset : change.offset = entries.length)
    (htype : change.entryType = .leaderChangeMessage)
    (hterm : ∀ e ∈ entries, e.term < change.term) : LeaderLog (entries ++ [change]) where
  offsets := by
    rw [consecutive_append, consecutive_cons, Nat.zero_add]
    exact ⟨h.offsets, hoffset, consecutive_nil _⟩
  terms := by
    rw [List.pairwise_append]
    refine ⟨h.terms, List.pairwise_singleton _ _, fun e he later hlater => ?_⟩
    rw [List.mem_singleton.mp hlater]
    exact (hterm e he).le
  changes := by
    rw [List.filter_append, List.pairwise_append]
    refine ⟨h.changes, List.Pairwise.filter _ (List.pairwise_singleton _ _),
      fun e he later hlater => ?_⟩
    rw [List.mem_singleton.mp (List.mem_of_mem_filter hlater)]
    exact hterm e (List.mem_of_mem_filter he)
  records := by
    rw [List.filter_append, List.filter_cons_of_neg (by simp [htype]), List.filter_nil,
      List.append_nil]
    exact h.records
  placed k record hk hrecord := by
    rcases getElem?_concat_cases hk with hold | ⟨-, rfl⟩
    · exact h.placed_append [change] hold hrecord
    · rw [htype] at hrecord
      cases hrecord

/-- The first voters record may follow the leader change of its term. -/
theorem LeaderLog.append_record {entries : List LogEntry} {change record : LogEntry}
    (h : LeaderLog (entries ++ [change])) (hchange : change.entryType = .leaderChangeMessage)
    (hfirst : ∀ e ∈ entries, e.entryType ≠ .votersRecord)
    (hoffset : record.offset = entries.length + 1) (htype : record.entryType = .votersRecord)
    (hterm : record.term = change.term) : LeaderLog (entries ++ [change] ++ [record]) where
  offsets := by
    rw [consecutive_append, consecutive_cons, Nat.zero_add]
    refine ⟨h.offsets, ?_, consecutive_nil _⟩
    rw [hoffset, List.length_append, List.length_singleton]
  terms := by
    rw [List.pairwise_append]
    refine ⟨h.terms, List.pairwise_singleton _ _, fun e he later hlater => ?_⟩
    rw [List.mem_singleton.mp hlater, hterm]
    rcases List.mem_append.mp he with hold | hlast
    · exact (List.pairwise_append.mp h.terms).2.2 e hold change List.mem_cons_self
    · rw [List.mem_singleton.mp hlast]
  changes := by
    rw [List.filter_append, List.filter_cons_of_neg (by simp [htype]), List.filter_nil,
      List.append_nil]
    exact h.changes
  records := by
    have hnone : (entries ++ [change]).filter (fun e => e.entryType = .votersRecord) = [] := by
      rw [List.filter_eq_nil_iff]
      intro e he
      rcases List.mem_append.mp he with hold | hlast
      · simpa using hfirst e hold
      · rw [List.mem_singleton.mp hlast]
        simp [hchange]
    rw [List.filter_append, hnone, List.nil_append]
    exact List.length_filter_le _ _
  placed k other hk hother := by
    rcases getElem?_concat_cases hk with hold | ⟨hlast, rfl⟩
    · exact h.placed_append [record] hold hother
    · refine ⟨entries.length, change, ?_, ?_, hchange, hterm.symm⟩
      · rw [hlast, List.length_append, List.length_singleton]
      · rw [List.append_assoc, List.getElem?_append_right le_rfl, Nat.sub_self]
        rfl

/-- The term of the saved quorum state, zero without one. -/
def Stores.savedTerm (stores : Stores) : ℕ := (stores.quorumState.map (·.currentTerm)).getD 0

/-- The log has its shape and no term above the saved one. -/
structure StoresShape (d : Deployment) (stores : Stores) : Prop where
  kept : StoresKept d stores
  shape : LeaderLog stores.log.entries
  terms : ∀ e ∈ stores.log.entries, e.term ≤ stores.savedTerm

/-- A leader change of the term and a voters record are in the log. -/
def Announced (entries : List LogEntry) (term : ℕ) : Prop :=
  (∃ e ∈ entries, e.entryType = .leaderChangeMessage ∧ e.term = term) ∧
    ∃ e ∈ entries, e.entryType = .votersRecord

/-- A candidate's term is above the log, a leader's is announced in it. -/
structure NodeShape (d : Deployment) (node : RaftNode) : Prop where
  kept : NodeKept d node
  stores : StoresShape d node.stores
  saved : node.stores.savedTerm ≤ node.state.currentTerm
  candidate : node.state.role = .candidate → ∀ e ∈ node.stores.log.entries,
    e.term < node.state.currentTerm
  leader : node.state.role = .leader → Announced node.stores.log.entries node.state.currentTerm

/-- The call wrote a leader change, no voters record, and did not undo it. -/
structure Stranded (d : Deployment) (faults : Faults) (before : LogStore) (node : RaftNode) :
    Prop where
  stores : StoresShape d node.stores
  saved : node.stores.savedTerm ≤ node.state.currentTerm
  log : node.stores.log ≠ before
  why : (∃ reason, d.codec.serialize ⟨1, d.voters⟩ = .error reason) ∨ faults.rollback.isSome

variable {d : Deployment} {i : NodeId} {host : Host} {node origin after : RaftNode}
  {input : NodeInput} {faults : Faults}

/-- Without read errors the search for a voters record is exact. -/
theorem logHasVotersRecord_iff (h : node.stores.log.Contiguous) (hread : faults.read = none) :
    node.logHasVotersRecord faults = true ↔ ∃ e ∈ node.stores.log.entries,
    e.entryType = .votersRecord := by
  unfold RaftNode.logHasVotersRecord
  dsimp only
  rw [hread, h.read_all]
  split
  · rename_i hempty
    have hend := h.logEndOffset_eq
    have hnil : node.stores.log.entries = [] := by
      rw [← List.length_eq_zero_iff]
      rw [LogStore.logStartOffset] at hempty
      omega
    simp [hnil]
  · simp

/-- The log with the leader change of a candidate above it has its shape. -/
theorem NodeShape.announce (h : NodeShape d node) (hrole : node.state.role = .candidate) :
    LeaderLog node.announce.stores.log.entries := by
  refine h.stores.shape.append_change ?_ rfl (h.candidate hrole)
  have hend := h.stores.kept.contiguous.logEndOffset_eq
  rw [h.stores.kept.startOffset, Nat.zero_add] at hend
  exact hend

/-- A winning candidate whose term is saved leads with its log in shape, or is stranded. -/
theorem NodeShape.becomeLeader (h : NodeShape d node) (hrole : node.state.role = .candidate)
    (hquorum : node.hasQuorum = true) (hsaved : node.stores.savedTerm = node.state.currentTerm)
    (hread : faults.read = none) :
    NodeShape d (node.becomeLeader d.codec faults).2 ∨
      Stranded d faults node.stores.log (node.becomeLeader d.codec faults).2 := by
  have hlog := h.stores.kept.contiguous
  have hkept := h.kept.becomeLeader hquorum faults
  have hvoters := h.kept.voterSet.resolve_left (RaftNode.majority_of_hasQuorum hquorum).1
  have hshape := h.announce hrole
  have hend : node.stores.log.logEndOffset = node.stores.log.entries.length := by
    rw [hlog.logEndOffset_eq, h.stores.kept.startOffset, Nat.zero_add]
  have hold : ∀ e ∈ node.announce.stores.log.entries, e.term ≤ node.stores.savedTerm := by
    intro e he
    rcases List.mem_append.mp he with he | he
    · exact h.stores.terms e he
    · rw [List.mem_singleton.mp he]
      exact hsaved.symm.le
  have hascent := RaftNode.becomeLeader_ascent hlog d.codec faults
  generalize (node.becomeLeader d.codec faults).2 = after at hascent hkept ⊢
  cases hascent with
  | unchanged => exact Or.inl h
  | stranded _ hwhy =>
    refine Or.inr ⟨⟨hkept.stores, hshape, hold⟩, h.saved, fun heq => ?_, hvoters ▸ hwhy⟩
    have hlength := congrArg (fun log : LogStore => log.entries.length) heq
    simp [RaftNode.announce, RaftNode.storeLog, LogStore.append] at hlength
  | confirmed hrecord =>
    obtain ⟨e, he, htype⟩ := (logHasVotersRecord_iff hlog hread).mp hrecord
    refine Or.inl ⟨hkept, ⟨hkept.stores, hshape, hold⟩, h.saved, fun hcandidate => ?_, fun _ => ?_⟩
    · cases hcandidate
    · exact ⟨⟨node.leaderChange, List.mem_append_right _ List.mem_cons_self, rfl, rfl⟩,
        e, List.mem_append_left _ he, htype⟩
  | recorded payload hneeds =>
    have hnone : ∀ e ∈ node.stores.log.entries, e.entryType ≠ .votersRecord := by
      intro e he htype
      rw [(logHasVotersRecord_iff hlog hread).mpr ⟨e, he, htype⟩] at hneeds
      cases hneeds
    have hrecord : LeaderLog (node.announceVoters payload).stores.log.entries :=
      hshape.append_record rfl hnone (congrArg (· + 1) hend) rfl rfl
    refine Or.inl ⟨hkept, ⟨hkept.stores, hrecord, fun e he => ?_⟩, h.saved, fun hcandidate => ?_,
      fun _ => ?_⟩
    · rcases List.mem_append.mp he with he | he
      · exact hold e he
      · rw [List.mem_singleton.mp he]
        exact hsaved.symm.le
    · cases hcandidate
    · exact ⟨⟨node.leaderChange,
        List.mem_append_left _ (List.mem_append_right _ List.mem_cons_self), rfl, rfl⟩,
        node.votersEntry payload, List.mem_append_right _ List.mem_cons_self, rfl⟩

/-- A granted vote of the current term reaches a candidate only if its candidacy was saved. -/
def Answered (node : RaftNode) (input : NodeInput) : Prop :=
  ∀ source, input.event.Grants source node.state.currentTerm → node.state.role = .candidate →
    node.stores.savedTerm = node.state.currentTerm

/-- There is a next term for a candidacy. -/
def HasNextTerm (node : RaftNode) (input : NodeInput) : Prop :=
  input.event.TimesOut → node.state.currentTerm + 1 < 2 ^ 64

/-- Reading and rolling back succeed, unless a crash comes first. -/
def Environment.readable : Environment where
  call _ input := input.faults.read = none ∧ input.faults.rollback = none
  interrupt _ input := input.faults.read = none

/-- Besides, terms have not run out and votes answer requests. -/
def Environment.soleWriter : Environment where
  call node input := readable.call node input ∧ HasNextTerm node input ∧ Answered node input
  interrupt node input :=
    readable.interrupt node input ∧ HasNextTerm node input ∧ Answered node input

/-- Saving the current term keeps the log below the saved term. -/
theorem StoresShape.save (h : StoresShape d node.stores)
    (hsaved : node.stores.savedTerm ≤ node.state.currentTerm) (votedFor : Option NodeId) :
    StoresShape d (node.storeQuorumState (node.quorumState votedFor)).stores :=
  ⟨⟨h.kept.snapshot, h.kept.contiguous, h.kept.startOffset, h.kept.records⟩, h.shape,
    fun e he => (h.terms e he).trans hsaved⟩

/-- A stranded node stays stranded: the moves left to it write no entries. -/
theorem Stranded.move (h : Stranded d input.faults origin.stores.log node)
    (hmove : RaftNode.Move d.codec input origin node after) :
    Stranded d input.faults origin.stores.log after := by
  cases hmove with
  | timer => exact ⟨h.stores, h.saved, h.log, h.why⟩
  | vote => exact ⟨h.stores, h.saved, h.log, h.why⟩
  | saved => exact ⟨h.stores.save h.saved _, le_rfl, h.log, h.why⟩
  | _ => exact absurd rfl h.log

/-- A move keeps the shape of the log, or strands the node. -/
theorem NodeShape.move (h : NodeShape d node) (hevent : d.Permits input.event)
    (hread : input.faults.read = none) (hnext : HasNextTerm origin input)
    (hanswered : Answered origin input)
    (hmove : RaftNode.Move d.codec input origin node after) :
    NodeShape d after ∨ Stranded d input.faults origin.stores.log after := by
  have hkept := h.kept.move hevent hmove
  have habove : ∀ e ∈ node.stores.log.entries, e.term ≤ node.state.currentTerm :=
    fun e he => (h.stores.terms e he).trans h.saved
  cases hmove with
  | formed clusterId voters _ _ _ hdata =>
    obtain ⟨-, -, hquorum, -⟩ := RaftNode.noData_of_hasExistingData hdata
    have hzero : node.stores.savedTerm = 0 := by
      rw [Stores.savedTerm, hquorum]
      rfl
    refine Or.inl ⟨hkept, h.stores, hzero.le, fun hrole => ?_, fun hrole => ?_⟩
    · cases hrole
    · cases hrole
  | candidate htimeout =>
    have hterm := RaftNode.currentTerm_becomeCandidate (hnext htimeout)
    refine Or.inl ⟨hkept, h.stores, h.saved.trans (hterm ▸ Nat.le_succ _), fun _ e he => ?_,
      fun hrole => ?_⟩
    · exact hterm ▸ Nat.lt_succ_of_le (habove e he)
    · cases hrole
  | candidacy htimeout =>
    have hterm := RaftNode.currentTerm_becomeCandidate (hnext htimeout)
    have hstores : StoresShape d node.becomeCandidate.stores := h.stores
    refine Or.inl ⟨hkept, hstores.save (h.saved.trans (hterm ▸ Nat.le_succ _)) _, le_rfl,
      fun _ e he => ?_, fun hrole => ?_⟩
    · exact hterm ▸ Nat.lt_succ_of_le (habove e he)
    · cases hrole
  | term term hterm =>
    refine Or.inl ⟨hkept, h.stores, h.saved.trans hterm.le, fun hrole => ?_, fun hrole => ?_⟩
    · cases hrole
    · cases hrole
  | saved => exact Or.inl ⟨hkept, h.stores.save h.saved _, le_rfl, h.candidate, h.leader⟩
  | won hquorum => exact h.becomeLeader rfl hquorum rfl hread
  | elected source hgrant hrole hvoter hquorum =>
    have hcounted : NodeShape d (node.count source) :=
      ⟨⟨h.kept.stores, h.kept.voterSet⟩, h.stores, h.saved, h.candidate, h.leader⟩
    exact hcounted.becomeLeader hrole hquorum (hanswered source hgrant hrole) hread
  | _ => exact Or.inl ⟨hkept, h.stores, h.saved, h.candidate, h.leader⟩

/-- A call keeps the shape of the log, or strands the node. -/
theorem NodeShape.handle (h : NodeShape d node) (hevent : d.Permits input.event)
    (hread : input.faults.read = none) (hnext : HasNextTerm node input)
    (hanswered : Answered node input) :
    NodeShape d (node.handle d.codec input) ∨
      Stranded d input.faults node.stores.log (node.handle d.codec input) := by
  refine RaftNode.handle_keeps (P := fun after => NodeShape d after ∨
    Stranded d input.faults node.stores.log after)
    (Or.inl h) ?_
  rintro before after (hshape | hstranded) hmove
  · exact hshape.move hevent hread hnext hanswered hmove
  · exact Or.inr (hstranded.move hmove)

/-- A started node is no candidate and no leader, and continues from the saved term. -/
theorem new_shape {stores : Stores} (h : StoresShape d stores) {clock : Clock}
    (hnew : RaftNode.new d.codec clock faults (d.config i) stores = .ok node) :
    NodeShape d node := by
  have hkept := new_kept h.kept hnew
  rcases RaftNode.new_spec hnew with ⟨⟨-, -, hquorum, -⟩, rfl⟩ | ⟨-, hrecovered⟩ | ⟨-, hstalled⟩
  · have hzero : stores.savedTerm = 0 := by
      rw [Stores.savedTerm, hquorum]
      rfl
    refine ⟨hkept, h, hzero.le, fun hrole => ?_, fun hrole => ?_⟩
    · cases hrole
    · cases hrole
  · refine ⟨hkept, hrecovered.kept.symm ▸ h, ?_, fun hrole => ?_, fun hrole => ?_⟩
    · rw [hrecovered.currentTerm, hrecovered.kept]
      exact le_rfl
    · rw [hrecovered.role] at hrole
      cases hrole
    · rw [hrecovered.role] at hrole
      cases hrole
  · have hsnapshot := hstalled.snapshot
    rw [h.kept.snapshot] at hsnapshot
    cases hsnapshot

/-- Throughout all lives of a node that is its only writer the log keeps its shape. -/
theorem Lives.shape (hserialize : ∃ payload, d.codec.serialize ⟨1, d.voters⟩ = .ok payload)
    (hlives : Lives d i .soleWriter host) : host.Satisfies (NodeShape d) (StoresShape d) := by
  refine hlives.keeps ⟨storesKept_empty d, leaderLog_nil, fun e he => absurd he List.not_mem_nil⟩
    (fun _ _ _ _ h hnew => new_shape h hnew) ?_ (fun _ h => h.stores) ?_
  · rintro node input h hevent ⟨⟨hread, hrollback⟩, hnext, hanswered⟩
    refine (h.handle hevent hread hnext hanswered).resolve_right fun hstranded => ?_
    rcases hstranded.why with ⟨reason, hreason⟩ | hfailed
    · obtain ⟨payload, hpayload⟩ := hserialize
      rw [hpayload] at hreason
      cases hreason
    · rw [hrollback] at hfailed
      cases hfailed
  · rintro node input h hevent ⟨hread, hnext, hanswered⟩
    exact (h.handle hevent hread hnext hanswered).elim NodeShape.stores Stranded.stores

/-- Besides, terms have not run out and saving votes succeeds, unless a crash comes first; any votes
may arrive. -/
def Environment.reliable : Environment where
  call node input :=
    readable.call node input ∧ HasNextTerm node input ∧ input.faults.saveVote = .ok
  interrupt node input := readable.interrupt node input ∧ HasNextTerm node input

/-- The term of a candidate is the saved one. -/
def CandidacySaved (node : RaftNode) : Prop :=
  node.state.role = .candidate → node.stores.savedTerm = node.state.currentTerm

/-- While saves succeed, the term of a candidate is the saved one. -/
theorem CandidacySaved.handle (h : CandidacySaved node) {codec : VotersCodec}
    (hsave : input.faults.saveVote = .ok) : CandidacySaved (node.handle codec input) := by
  have hwon : ∀ winner : RaftNode, CandidacySaved winner →
      CandidacySaved (winner.becomeLeader codec input.faults).2 := by
    intro winner hwinner
    obtain ⟨log, -, hnode | hnode⟩ := becomeLeader_cases codec input.faults winner
    · rw [hnode]
      exact hwinner
    · rw [hnode]
      intro hrole
      cases hrole
  refine RaftNode.handle_keeps h fun before after hbefore hmove => ?_
  cases hmove with
  | timer => exact hbefore
  | formed => exact fun hrole => by cases hrole
  | candidate _ hunsaved => exact absurd hsave hunsaved
  | candidacy => exact fun _ => rfl
  | term => exact fun hrole => by cases hrole
  | vote => exact hbefore
  | saved => exact fun _ => rfl
  | won => exact hwon _ fun _ => rfl
  | counted => exact hbefore
  | elected source => exact hwon (node.count source) hbefore

/-- When saves succeed, votes are answers whatever arrives. -/
theorem Lives.of_reliable (hlives : Lives d i .reliable host) :
    Lives d i .soleWriter host ∧ host.Satisfies CandidacySaved fun _ => True := by
  induction hlives with
  | refl => exact ⟨.refl, trivial⟩
  | tail _ hlast ih =>
    obtain ⟨hlives, hsaved⟩ := ih
    cases hlast with
    | start clock faults stores node hnew =>
      refine ⟨hlives.tail (.start clock faults stores node hnew), fun hrole => ?_⟩
      rcases RaftNode.new_spec hnew with ⟨-, rfl⟩ | ⟨-, hrecovered⟩ | ⟨-, hstalled⟩
      · cases hrole
      · rw [hrecovered.role] at hrole
        cases hrole
      · rw [hstalled.role] at hrole
        cases hrole
    | call node input hevent hinput =>
      obtain ⟨hreadable, hnext, hsave⟩ := hinput
      have hanswered : Answered node input := fun _ _ hrole => hsaved hrole
      exact ⟨hlives.tail (.call node input hevent ⟨hreadable, hnext, hanswered⟩),
        hsaved.handle hsave⟩
    | crash node => exact ⟨hlives.tail (.crash node), trivial⟩
    | interrupt node input hevent hinput =>
      obtain ⟨hread, hnext⟩ := hinput
      have hanswered : Answered node input := fun _ _ hrole => hsaved hrole
      exact ⟨hlives.tail (.interrupt node input hevent ⟨hread, hnext, hanswered⟩), trivial⟩

/-- A node that is the only writer of its log, in any number of lives from bootstrap on empty stores
and with a next term at every timeout, has a log in shape, with no term above the current one, and
has announced itself whenever it leads. Any messages may arrive while saves of the vote succeed; if
they may fail, votes have to answer requests. -/
theorem leader_log_shape (hserialize : ∃ payload, d.codec.serialize ⟨1, d.voters⟩ = .ok payload)
    (hlives : Lives d i .reliable host ∨ Lives d i .soleWriter host) :
    LeaderLog host.stores.log.entries ∧ ∀ node, host = .running node →
      (∀ e ∈ node.stores.log.entries, e.term ≤ node.state.currentTerm) ∧
        (node.state.role = .leader → Announced node.stores.log.entries node.state.currentTerm) := by
  have hwriter : Lives d i .soleWriter host :=
    hlives.elim (fun hreliable => hreliable.of_reliable.1) id
  have hshape := hwriter.shape hserialize
  cases host with
  | down stores => exact ⟨hshape.shape, fun node hnode => by cases hnode⟩
  | running node =>
    refine ⟨hshape.stores.shape, fun running hrunning => ?_⟩
    cases hrunning
    exact ⟨fun e he => (hshape.stores.terms e he).trans hshape.saved, hshape.leader⟩

/-- The first of three voters leads with its leader change and the voters record in its log. -/
theorem leader_log_shape_threeVoters : (firstLife 3).state.role = .leader ∧
    LeaderLog (firstLife 3).stores.log.entries ∧ Announced (firstLife 3).stores.log.entries 1 := by
  have hlives : Lives threeVoters 1 .reliable (.running (firstLife 3)) := by
    refine firstLife_lives (fun k input hk => ?_) 3
    match k, hk with
    | 0, hk =>
      cases hk
      exact ⟨⟨rfl, rfl⟩, by simp [HasNextTerm, NodeEvent.TimesOut], rfl⟩
    | 1, hk =>
      cases hk
      exact ⟨⟨rfl, rfl⟩, fun _ => by decide +kernel, rfl⟩
    | 2, hk =>
      cases hk
      exact ⟨⟨rfl, rfl⟩, by simp [HasNextTerm, NodeEvent.TimesOut], rfl⟩
  obtain ⟨hshape, hnode⟩ := leader_log_shape ⟨[1], rfl⟩ (.inl hlives)
  have hrole : (firstLife 3).state.role = .leader := by decide +kernel
  exact ⟨hrole, hshape, (hnode _ rfl).2 hrole⟩

/-- One voter, and a codec that knows its record only. -/
def oneVoter : Deployment :=
  { threeVoters with codec := .only ⟨1, [⟨1, "a"⟩]⟩, voters := [⟨1, "a"⟩] }

/-- The only voter is elected, hears of the largest term, and times out in it. -/
def largestTerm : RaftNode :=
  (RaftNode.fresh (oneVoter.config 1) 0 Stores.empty).handleAll oneVoter.codec
    [⟨.bootstrap 7 [⟨1, "a"⟩], ⟨0, 5⟩, {}⟩, ⟨.electionTimeout, ⟨5, 5⟩, {}⟩,
      ⟨.voteResponse 2 ⟨2 ^ 64 - 1, false, false⟩, ⟨6, 5⟩, {}⟩, ⟨.electionTimeout, ⟨11, 5⟩, {}⟩]

/-- The first of three voters fails to save its candidacy and is granted a vote for it. -/
def unsavedTerm : RaftNode :=
  (RaftNode.fresh (threeVoters.config 1) 0 Stores.empty).handleAll threeVoters.codec
    [⟨.bootstrap 7 [⟨1, "a"⟩, ⟨2, "b"⟩, ⟨3, "c"⟩], ⟨0, 5⟩, {}⟩,
      ⟨.electionTimeout, ⟨5, 5⟩, { saveVote := .failed "disk full" }⟩,
      ⟨.voteResponse 2 ⟨1, true, false⟩, ⟨6, 5⟩, {}⟩]

/-- Two lives in which every read and every rollback succeeds. In the first all saves succeed too,
and a leader change of term zero follows the entries of term one. In the second one save fails, and
after a restart the log has a term above the current one. -/
theorem leader_log_shape_broken :
    (Lives oneVoter 1 .readable (.running largestTerm) ∧
      largestTerm.stores.log.entries.map LogEntry.term = [1, 1, 0] ∧
      ¬ LeaderLog largestTerm.stores.log.entries) ∧
      ∃ node, Lives threeVoters 1 .readable (.running node) ∧ node.state.currentTerm = 0 ∧
        node.stores.log.entries.map LogEntry.term = [1, 1] ∧
        ¬ ∀ e ∈ node.stores.log.entries, e.term ≤ node.state.currentTerm := by
  refine ⟨⟨Lives.handleAll (.single (.start ⟨0, 5⟩ {} _ _ rfl)) ?_, ?_⟩, ?_⟩
  · simp only [List.forall_mem_cons, Deployment.Permits, Environment.readable]
    simp [oneVoter, threeVoters]
  · have hterms : largestTerm.stores.log.entries.map LogEntry.term = [1, 1, 0] := by decide +kernel
    refine ⟨hterms, fun hshape => ?_⟩
    have hordered : (largestTerm.stores.log.entries.map LogEntry.term).Pairwise (· ≤ ·) :=
      List.pairwise_map.mpr hshape.terms
    rw [hterms] at hordered
    exact absurd hordered (by decide)
  · have hlives : Lives threeVoters 1 .readable (.running unsavedTerm) := by
      refine Lives.handleAll (.single (.start ⟨0, 5⟩ {} _ _ rfl)) ?_
      simp only [List.forall_mem_cons, Deployment.Permits, Environment.readable]
      simp [threeVoters]
    refine ⟨_, (hlives.tail (.crash _)).tail (.start ⟨9, 5⟩ {} _ _ rfl), ?_, ?_, ?_⟩
    · decide +kernel
    · decide +kernel
    · decide +kernel

end XRaft
