import Mathlib.Data.Finset.Card
import Mathlib.Data.Set.Insert
import Mathlib.Tactic.Common

/-!
# Majority elections over a growing set of ballots

Voters cast ballots for candidates in numbered terms and never take one back. An
electorate of any finite size elects a candidate in a term when a strict majority of
its members cast their ballots of that term for the candidate. If nobody casts two
different ballots in one term, no term elects two candidates, at whatever moments the
two majorities are counted.

A voter that can crash keeps its term and choice in memory and saves them from time to
time; only what is saved survives. Counting a choice as a ballot no earlier than when it
is saved is enough for one vote per term, whatever the voter forgets.
-/

namespace XRaft.Lib

variable {N : Type*}

/-- One voter's irrevocable choice in one term. -/
structure Ballot (N : Type*) where
  voter : N
  term : ℕ
  candidate : N

/-- Nobody has cast ballots for two candidates in one term. -/
def OneVotePerTerm (ballots : Set (Ballot N)) : Prop :=
  ∀ voter term first second, ⟨voter, term, first⟩ ∈ ballots → ⟨voter, term, second⟩ ∈ ballots →
    first = second

/-- A strict majority of the electorate voted for the candidate in the term. -/
def Elected (electorate : Finset N) (ballots : Set (Ballot N)) (term : ℕ) (candidate : N) : Prop :=
  ∃ quorum ⊆ electorate, electorate.card / 2 + 1 ≤ quorum.card ∧
    ∀ voter ∈ quorum, ⟨voter, term, candidate⟩ ∈ ballots

/-- No ballots have been cast, so none conflict. -/
theorem oneVotePerTerm_empty : OneVotePerTerm (∅ : Set (Ballot N)) :=
  fun _ _ _ _ h => h.elim

/-- A ballot that agrees with the voter's earlier ballots of that term may be added. -/
theorem OneVotePerTerm.insert {ballots : Set (Ballot N)} (h : OneVotePerTerm ballots)
    (ballot : Ballot N)
    (hagrees : ∀ other, ⟨ballot.voter, ballot.term, other⟩ ∈ ballots → other = ballot.candidate) :
    OneVotePerTerm (insert ballot ballots) := by
  rintro voter term first second (hfirst | hfirst) (hsecond | hsecond)
  · exact (congrArg Ballot.candidate hfirst).trans (congrArg Ballot.candidate hsecond).symm
  · subst hfirst
    exact (hagrees second hsecond).symm
  · subst hsecond
    exact hagrees first hfirst
  · exact h voter term first second hfirst hsecond

/-- An election result survives every later ballot. -/
theorem Elected.mono {electorate : Finset N} {ballots later : Set (Ballot N)} {term : ℕ}
    {candidate : N} (h : Elected electorate ballots term candidate) (hgrow : ballots ⊆ later) :
    Elected electorate later term candidate := by
  obtain ⟨quorum, hsub, hcard, hvotes⟩ := h
  exact ⟨quorum, hsub, hcard, fun voter hvoter => hgrow (hvotes voter hvoter)⟩

/-- Two majorities share a voter, so a term elects at most one candidate. -/
theorem elected_unique [DecidableEq N] {electorate : Finset N} {ballots : Set (Ballot N)}
    (hone : OneVotePerTerm ballots) {term : ℕ} {first second : N}
    (hfirst : Elected electorate ballots term first)
    (hsecond : Elected electorate ballots term second) : first = second := by
  obtain ⟨left, hleft, hleftCard, hleftVotes⟩ := hfirst
  obtain ⟨right, hright, hrightCard, hrightVotes⟩ := hsecond
  have hoverlap : electorate.card < left.card + right.card := by omega
  obtain ⟨voter, hvoter⟩ := Finset.inter_nonempty_of_card_lt_card_add_card hleft hright hoverlap
  obtain ⟨hinLeft, hinRight⟩ := Finset.mem_inter.mp hvoter
  exact hone voter term first second (hleftVotes voter hinLeft) (hrightVotes voter hinRight)

/-- A voter's current term and choice, and the pair it saved last. -/
structure Voter (N : Type*) where
  term : ℕ
  vote : Option N
  saved : Option (ℕ × Option N)

namespace Voter

/-- The saved pair still tells that the voter chose the candidate in the term, or that the term is
over. -/
def Recorded (voter : Voter N) (term : ℕ) (candidate : N) : Prop :=
  ∃ savedTerm savedVote, voter.saved = some (savedTerm, savedVote) ∧
    (term < savedTerm ∨ term = savedTerm ∧ savedVote = some candidate)

/-- Memory has not fallen behind the saved pair, and the saved pair records every ballot cast. -/
structure Consistent (voter : Voter N) (id : N) (ballots : Set (Ballot N)) : Prop where
  bound : ∀ savedTerm savedVote, voter.saved = some (savedTerm, savedVote) →
    savedTerm ≤ voter.term ∧ (savedTerm = voter.term → savedVote = none ∨ savedVote = voter.vote)
  recorded : ∀ term candidate, ⟨id, term, candidate⟩ ∈ ballots → voter.Recorded term candidate

/-- Move to a later term, in which no choice has been made. -/
def advance (voter : Voter N) (term : ℕ) : Voter N := { voter with term := term, vote := none }

/-- Choose a candidate in the current term. -/
def choose (voter : Voter N) (candidate : N) : Voter N := { voter with vote := some candidate }

/-- Save the current term and choice. -/
def persist (voter : Voter N) : Voter N := { voter with saved := some (voter.term, voter.vote) }

/-- Lose the memory and continue from the saved pair. -/
def restart (voter : Voter N) : Voter N where
  term := (voter.saved.map Prod.fst).getD 0
  vote := voter.saved.bind Prod.snd
  saved := voter.saved

variable {voter : Voter N} {id : N} {ballots : Set (Ballot N)}

/-- Entering a later term keeps every record. -/
theorem Consistent.advance (h : voter.Consistent id ballots) {term : ℕ}
    (hterm : voter.term < term) : (voter.advance term).Consistent id ballots where
  bound savedTerm savedVote hsaved := by
    have hle := (h.bound savedTerm savedVote hsaved).1
    refine ⟨hle.trans hterm.le, fun heq => ?_⟩
    exact absurd heq (Nat.ne_of_lt (lt_of_le_of_lt hle hterm))
  recorded := h.recorded

/-- A first choice, or the same choice again, keeps every record. -/
theorem Consistent.choose (h : voter.Consistent id ballots) {candidate : N}
    (hfree : voter.vote = none ∨ voter.vote = some candidate) :
    (voter.choose candidate).Consistent id ballots where
  bound savedTerm savedVote hsaved := by
    obtain ⟨hle, hvote⟩ := h.bound savedTerm savedVote hsaved
    refine ⟨hle, fun heq => ?_⟩
    rcases hvote heq with hnone | hsame
    · exact Or.inl hnone
    · rcases hfree with hfree | hfree
      · exact Or.inl (hsame.trans hfree)
      · exact Or.inr (hsame.trans hfree)
  recorded := h.recorded

/-- Saving never forgets a ballot. -/
theorem Consistent.persist (h : voter.Consistent id ballots) :
    voter.persist.Consistent id ballots where
  bound savedTerm savedVote hsaved := by
    simp only [Voter.persist, Option.some.injEq, Prod.mk.injEq] at hsaved
    obtain ⟨rfl, rfl⟩ := hsaved
    exact ⟨le_rfl, fun _ => Or.inr rfl⟩
  recorded term candidate hballot := by
    obtain ⟨savedTerm, savedVote, hsaved, hrecord⟩ := h.recorded term candidate hballot
    obtain ⟨hle, hvote⟩ := h.bound savedTerm savedVote hsaved
    refine ⟨voter.term, voter.vote, rfl, ?_⟩
    rcases hrecord with hlt | ⟨rfl, hcandidate⟩
    · exact Or.inl (lt_of_lt_of_le hlt hle)
    · rcases Nat.lt_or_eq_of_le hle with hlt | heq
      · exact Or.inl hlt
      · rcases hvote heq with hnone | hsame
        · rw [hnone] at hcandidate
          cases hcandidate
        · exact Or.inr ⟨heq, hsame.symm.trans hcandidate⟩

/-- A ballot already cast in the current term was cast for the current choice. -/
theorem Consistent.agrees (h : voter.Consistent id ballots) {candidate : N}
    (hballot : ⟨id, voter.term, candidate⟩ ∈ ballots) : voter.vote = some candidate := by
  obtain ⟨savedTerm, savedVote, hsaved, hrecord⟩ := h.recorded _ _ hballot
  obtain ⟨hle, hvote⟩ := h.bound savedTerm savedVote hsaved
  rcases hrecord with hlt | ⟨heq, hcandidate⟩
  · exact absurd hlt (Nat.not_lt_of_le hle)
  · rcases hvote heq.symm with hnone | hsame
    · rw [hnone] at hcandidate
      cases hcandidate
    · exact hsame.symm.trans hcandidate

/-- Once the choice is saved it may be counted as a ballot. -/
theorem Consistent.cast (h : voter.persist.Consistent id ballots) {candidate : N}
    (hvote : voter.vote = some candidate) :
    voter.persist.Consistent id (insert ⟨id, voter.term, candidate⟩ ballots) where
  bound := h.bound
  recorded term other hballot := by
    rcases hballot with heq | hold
    · simp only [Ballot.mk.injEq, true_and] at heq
      obtain ⟨rfl, rfl⟩ := heq
      exact ⟨voter.term, voter.vote, rfl, Or.inr ⟨rfl, hvote⟩⟩
    · exact h.recorded term other hold

/-- Restarting from the saved pair keeps every record. -/
theorem Consistent.restart (h : voter.Consistent id ballots) :
    voter.restart.Consistent id ballots where
  bound savedTerm savedVote hsaved := by
    change voter.saved = some (savedTerm, savedVote) at hsaved
    simp only [Voter.restart, hsaved, Option.map_some, Option.getD_some, Option.bind_some, le_refl,
      true_and]
    exact fun _ => Or.inr trivial
  recorded := h.recorded

/-- Ballots of other voters do not concern this one. -/
theorem Consistent.mono {later : Set (Ballot N)} (h : voter.Consistent id ballots)
    (hother : ∀ term candidate, ⟨id, term, candidate⟩ ∈ later → ⟨id, term, candidate⟩ ∈ ballots) :
    voter.Consistent id later where
  bound := h.bound
  recorded term candidate hballot := h.recorded term candidate (hother term candidate hballot)

end Voter

end XRaft.Lib
