import XRaft.Lib.Ballots
import Mathlib.Logic.Function.Basic
import Mathlib.Logic.Relation

/-!
# Elections among members that keep their memory

Members move through numbered terms, choose at most one candidate in each, announce
their choices, stand in elections and count the choices announced for them. A candidate
that has counted a majority of the electorate leads its term; it may resign and stay in
the term, but does not choose again. Announcements are never taken back, so counting may
happen at any later time and more than once.

Every choice ever made is a ballot. A member's ballots of its current term agree with its
choice, so nobody casts two in one term, and two leaders of a term would share a voter.
-/

namespace XRaft.Lib

variable {N : Type*}

/-- What a member does in its current term. -/
inductive Standing where
  | idle
  | candidate
  | leader
  deriving DecidableEq, Repr

/-- A member's term, its choice and standing in that term, and the votes it has counted. -/
structure Member (N : Type*) where
  term : ℕ
  vote : Option N
  standing : Standing
  votes : Finset N

namespace Member

/-- The ballot of the current choice, if there is one. -/
def current (member : Member N) (id : N) : Set (Ballot N) :=
  { ballot | ballot.voter = id ∧ ballot.term = member.term ∧ member.vote = some ballot.candidate }

/-- What a member may do, given the choices announced so far. -/
inductive Move [DecidableEq N] (electorate : Finset N) (grants : Set (Ballot N)) (id : N) :
    Member N → Member N → Prop where
  | adopt (member : Member N) (term : ℕ) (hterm : member.term < term) :
      Move electorate grants id member ⟨term, none, .idle, ∅⟩
  | resign (member : Member N) :
      Move electorate grants id member { member with standing := .idle, votes := ∅ }
  | choose (member : Member N) (candidate : N)
      (hfree : member.vote = none ∨ member.vote = some candidate) :
      Move electorate grants id member { member with vote := some candidate }
  | stand (member : Member N) (hid : id ∈ electorate) :
      Move electorate grants id member ⟨member.term + 1, some id, .candidate, {id}⟩
  | count (member : Member N) (voter : N) (hvoter : voter ∈ electorate)
      (hgrant : ⟨voter, member.term, id⟩ ∈ grants) :
      Move electorate grants id member { member with votes := insert voter member.votes }
  | win (member : Member N) (hstands : member.standing = .candidate)
      (hmajority : electorate.card / 2 + 1 ≤ member.votes.card) :
      Move electorate grants id member { member with standing := .leader }

/-- The ballots bear out the member's choice, the votes it counted and its leadership. -/
structure Kept (electorate : Finset N) (ballots : Set (Ballot N)) (id : N) (member : Member N) :
    Prop where
  bound : ∀ term candidate, ⟨id, term, candidate⟩ ∈ ballots →
    term ≤ member.term ∧ (term = member.term → member.vote = some candidate)
  cast : ∀ candidate, member.vote = some candidate → ⟨id, member.term, candidate⟩ ∈ ballots
  counted : member.standing = .candidate →
    ∀ voter ∈ member.votes, voter ∈ electorate ∧ ⟨voter, member.term, id⟩ ∈ ballots
  leads : member.standing = .leader → Elected electorate ballots member.term id

variable {electorate : Finset N} {grants ballots later : Set (Ballot N)} {id : N}
  {member after : Member N}

/-- Ballots of other members may be added. -/
theorem Kept.mono (h : member.Kept electorate ballots id) (hgrow : ballots ⊆ later)
    (hother : ∀ term candidate, ⟨id, term, candidate⟩ ∈ later → ⟨id, term, candidate⟩ ∈ ballots) :
    member.Kept electorate later id where
  bound term candidate hballot := h.bound term candidate (hother term candidate hballot)
  cast candidate hvote := hgrow (h.cast candidate hvote)
  counted hstands voter hvoter :=
    ⟨(h.counted hstands voter hvoter).1, hgrow (h.counted hstands voter hvoter).2⟩
  leads hleads := (h.leads hleads).mono hgrow

/-- A changed choice or term adds its ballot; counting and leading are checked against all
ballots. -/
theorem Kept.step (h : member.Kept electorate ballots id) (hterm : member.term ≤ after.term)
    (hvote : after.term = member.term → ∀ candidate, member.vote = some candidate →
      after.vote = some candidate)
    (hcounted : after.standing = .candidate →
      ∀ voter ∈ after.votes, voter ∈ electorate ∧
        ⟨voter, after.term, id⟩ ∈ ballots ∪ after.current id)
    (hleads : after.standing = .leader →
      Elected electorate (ballots ∪ after.current id) after.term id) :
    after.Kept electorate (ballots ∪ after.current id) id where
  bound term candidate hballot := by
    rcases hballot with hold | ⟨-, hcurrent, hchoice⟩
    · obtain ⟨hle, hagrees⟩ := h.bound term candidate hold
      refine ⟨hle.trans hterm, fun heq => ?_⟩
      have hsame : after.term = member.term := by omega
      exact hvote hsame candidate (hagrees (heq.trans hsame))
    · change term = after.term at hcurrent
      exact ⟨hcurrent.le, fun _ => hchoice⟩
  cast candidate hchoice := Or.inr ⟨rfl, rfl, hchoice⟩
  counted := hcounted
  leads := hleads

variable [DecidableEq N]

/-- Every move keeps the ballots in line with the member. -/
theorem Move.kept (hmove : Move electorate grants id member after) (hgrants : grants ⊆ ballots)
    (h : member.Kept electorate ballots id) :
    after.Kept electorate (ballots ∪ after.current id) id := by
  cases hmove with
  | adopt term hterm =>
    refine h.step hterm.le (fun heq => ?_) nofun nofun
    exact absurd heq (Nat.ne_of_gt hterm)
  | resign => exact h.step le_rfl (fun _ _ hvote => hvote) nofun nofun
  | choose candidate hfree =>
    refine h.step le_rfl (fun _ other hvote => ?_) (fun hstands voter hvoter => ?_)
      (fun hleads => ?_)
    · rcases hfree with hnone | hsame
      · rw [hnone] at hvote
        cases hvote
      · exact hsame ▸ hvote
    · exact ⟨(h.counted hstands voter hvoter).1, Or.inl (h.counted hstands voter hvoter).2⟩
    · exact (h.leads hleads).mono Set.subset_union_left
  | stand hid =>
    refine h.step (Nat.le_succ _) (fun heq => ?_) (fun _ voter hvoter => ?_) nofun
    · exact absurd heq (Nat.succ_ne_self _)
    · obtain rfl := Finset.mem_singleton.mp hvoter
      exact ⟨hid, Or.inr ⟨rfl, rfl, rfl⟩⟩
  | count voter hvoter hgrant =>
    refine h.step le_rfl (fun _ _ hvote => hvote) (fun hstands other hother => ?_)
      (fun hleads => ?_)
    · rcases Finset.mem_insert.mp hother with rfl | hother
      · exact ⟨hvoter, Or.inl (hgrants hgrant)⟩
      · exact ⟨(h.counted hstands other hother).1, Or.inl (h.counted hstands other hother).2⟩
    · exact (h.leads hleads).mono Set.subset_union_left
  | win hstands hmajority =>
    refine h.step le_rfl (fun _ _ hvote => hvote) nofun (fun _ => ?_)
    exact ⟨member.votes, fun voter hvoter => (h.counted hstands voter hvoter).1, hmajority,
      fun voter hvoter => Or.inl (h.counted hstands voter hvoter).2⟩

end Member

/-- All members, and the choices they have announced. -/
structure Election (N : Type*) where
  members : N → Member N
  grants : Set (Ballot N)

namespace Election

/-- Nobody stands or leads, and nothing has been announced. -/
structure Fresh (election : Election N) : Prop where
  idle : ∀ id, (election.members id).standing = .idle
  silent : election.grants = ∅

/-- The ballots include what was announced and are in line with every member. -/
structure Sound (electorate : Finset N) (ballots : Set (Ballot N)) (election : Election N) :
    Prop where
  one : OneVotePerTerm ballots
  grants : election.grants ⊆ ballots
  kept : ∀ id, (election.members id).Kept electorate ballots id

variable {electorate : Finset N} {ballots : Set (Ballot N)} {start election after : Election N}
  {id : N}

/-- At the start the ballots are the members' current choices. -/
theorem Fresh.sound (h : start.Fresh) :
    start.Sound electorate { ballot | ballot ∈ (start.members ballot.voter).current ballot.voter }
      where
  one voter term first second hfirst hsecond := by
    obtain ⟨-, -, hfirst⟩ := hfirst
    obtain ⟨-, -, hsecond⟩ := hsecond
    exact Option.some.inj (hfirst.symm.trans hsecond)
  grants := by
    rw [h.silent]
    exact Set.empty_subset _
  kept id :=
    { bound := fun term candidate hballot => ⟨hballot.2.1.le, fun _ => hballot.2.2⟩
      cast := fun candidate hvote => ⟨rfl, rfl, hvote⟩
      counted := fun hstands => absurd ((h.idle id).symm.trans hstands) nofun
      leads := fun hleads => absurd ((h.idle id).symm.trans hleads) nofun }

variable [DecidableEq N]

/-- Replace one member. -/
def put (election : Election N) (id : N) (member : Member N) : Election N :=
  { election with members := Function.update election.members id member }

/-- One member moves, or choices are announced. -/
inductive Step (electorate : Finset N) : Election N → Election N → Prop where
  | move (election : Election N) (id : N) (after : Member N)
      (hmove : Member.Move electorate election.grants id (election.members id) after) :
      Step electorate election (election.put id after)
  | announce (election : Election N) (new : Set (Ballot N))
      (hnew : ∀ ballot ∈ new, ballot ∈ (election.members ballot.voter).current ballot.voter) :
      Step electorate election { election with grants := election.grants ∪ new }

/-- Finitely many steps. -/
abbrev Run (electorate : Finset N) : Election N → Election N → Prop :=
  Relation.ReflTransGen (Step electorate)

/-- Several moves of one member are moves of the election. -/
theorem Run.of_moves {member : Member N}
    (h : Relation.ReflTransGen (Member.Move electorate election.grants id)
      (election.members id) member) :
    Run electorate election (election.put id member) := by
  induction h with
  | refl =>
    rw [put, Function.update_eq_self]
  | @tail middle last _ hmove ih =>
    have hself : (election.put id middle).members id = middle := Function.update_self ..
    have hlast : (election.put id middle).put id last = election.put id last := by
      simp [put]
    have hstep := Step.move (election.put id middle) id last (hself.symm ▸ hmove)
    exact ih.tail (hlast ▸ hstep)

/-- Every step keeps the election sound, with ballots that only grow. -/
theorem Step.sound (hstep : Step electorate election after)
    (h : election.Sound electorate ballots) :
    ∃ later, ballots ⊆ later ∧ after.Sound electorate later := by
  cases hstep with
  | move id member hmove =>
    have hkept := hmove.kept h.grants (h.kept id)
    refine ⟨ballots ∪ member.current id, Set.subset_union_left, ?_, ?_, fun other => ?_⟩
    · -- a new ballot agrees with the member's other ballots of the term
      rintro voter term first second hfirst hsecond
      by_cases hcurrent : voter = id ∧ term = member.term
      · obtain ⟨rfl, rfl⟩ := hcurrent
        have hone := (hkept.bound _ _ hfirst).2 rfl
        exact Option.some.inj (hone.symm.trans ((hkept.bound _ _ hsecond).2 rfl))
      · have hold : ∀ candidate, ⟨voter, term, candidate⟩ ∈ ballots ∪ member.current id →
            ⟨voter, term, candidate⟩ ∈ ballots := fun candidate hballot =>
          hballot.resolve_right fun hnew => hcurrent ⟨hnew.1, hnew.2.1⟩
        exact h.one voter term first second (hold first hfirst) (hold second hsecond)
    · exact h.grants.trans Set.subset_union_left
    · change Member.Kept _ _ _ (Function.update election.members id member other)
      by_cases hother : other = id
      · subst hother
        rw [Function.update_self]
        exact hkept
      · rw [Function.update_of_ne hother]
        exact (h.kept other).mono Set.subset_union_left fun term candidate hballot =>
          hballot.resolve_right fun hnew => hother hnew.1
  | announce new hnew =>
    refine ⟨ballots, subset_rfl, h.one, Set.union_subset h.grants fun ballot hballot => ?_, h.kept⟩
    obtain ⟨-, hterm, hvote⟩ := hnew ballot hballot
    have hcast := (h.kept ballot.voter).cast ballot.candidate hvote
    rw [← hterm] at hcast
    exact hcast

/-- Every run keeps the election sound, with ballots that only grow. -/
theorem Run.sound (hrun : Run electorate election after) (h : election.Sound electorate ballots) :
    ∃ later, ballots ⊆ later ∧ after.Sound electorate later := by
  induction hrun with
  | refl => exact ⟨ballots, subset_rfl, h⟩
  | tail _ hstep ih =>
    obtain ⟨middle, hmiddle, hsound⟩ := ih
    obtain ⟨later, hlater, hafter⟩ := hstep.sound hsound
    exact ⟨later, hmiddle.trans hlater, hafter⟩

/-- Leaders of one term, at whatever moments of a run they lead, are the same member. -/
theorem leader_unique (hstart : start.Fresh) (hrun : Run electorate start election)
    (hlater : Run electorate election after) {first second : N}
    (hfirst : (election.members first).standing = .leader)
    (hsecond : (after.members second).standing = .leader)
    (hterm : (election.members first).term = (after.members second).term) : first = second := by
  have hfresh : start.Sound electorate _ := hstart.sound
  obtain ⟨ballots, -, hsound⟩ := hrun.sound hfresh
  obtain ⟨later, hgrow, hafter⟩ := hlater.sound hsound
  have helected := ((hsound.kept first).leads hfirst).mono hgrow
  rw [hterm] at helected
  exact elected_unique hafter.one helected ((hafter.kept second).leads hsecond)

/-- A member's choices in one term, at whatever moments of a run, are the same. -/
theorem vote_unique (hstart : start.Fresh) (hrun : Run electorate start election)
    (hlater : Run electorate election after) {first second : N}
    (hfirst : (election.members id).vote = some first)
    (hsecond : (after.members id).vote = some second)
    (hterm : (election.members id).term = (after.members id).term) : first = second := by
  have hfresh : start.Sound electorate _ := hstart.sound
  obtain ⟨ballots, -, hsound⟩ := hrun.sound hfresh
  obtain ⟨later, hgrow, hafter⟩ := hlater.sound hsound
  have hcast := hgrow ((hsound.kept id).cast first hfirst)
  rw [hterm] at hcast
  exact hafter.one id _ first second hcast ((hafter.kept id).cast second hsecond)

end Election

end XRaft.Lib
