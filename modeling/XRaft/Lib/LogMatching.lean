import Mathlib.Data.List.Basic
import Mathlib.Data.List.Infix

/-!
# Log matching and common prefixes

Two logs match if an entry of equal term at one position makes them equal up to that
position. A log that matches, position by position, a log it is not a copy of can still
be replaced by it: if one is a prefix of a log that matches the other and the terms agree
at its last entry, it is a prefix of the other. The second half is about the length of the
longest common prefix of two lists, under appending and truncating.
-/

namespace XRaft.Lib

section LogMatching

variable {α : Type*} {term : α → ℕ}

/-- Entries of equal term at one position make the logs equal up to and including it. -/
def LogMatching (term : α → ℕ) (first second : List α) : Prop :=
  ∀ i a b, first[i]? = some a → second[i]? = some b → term a = term b →
    first.take (i + 1) = second.take (i + 1)

instance [DecidableEq α] (term : α → ℕ) (first second : List α) :
    Decidable (LogMatching term first second) :=
  decidable_of_iff (∀ i < first.length, ∀ a ∈ first[i]?, ∀ b ∈ second[i]?, term a = term b →
      first.take (i + 1) = second.take (i + 1))
    ⟨fun h i a b ha hb => h i (List.getElem?_eq_some_iff.mp ha).1 a ha b hb,
      fun h i _ a ha b hb => h i a b ha hb⟩

/-- Nothing in an empty log can disagree. -/
theorem logMatching_nil (log : List α) : LogMatching term [] log := by
  intro i a b ha
  simp at ha

/-- A prefix keeps the entries at its positions. -/
theorem getElem?_of_isPrefix {small log : List α} (h : small <+: log) {i : ℕ} {a : α}
    (ha : small[i]? = some a) : log[i]? = some a := by
  obtain ⟨rest, rfl⟩ := h
  rw [List.getElem?_append_left (List.getElem?_eq_some_iff.mp ha).1]
  exact ha

/-- A prefix keeps the beginnings within its length. -/
theorem take_of_isPrefix {small log : List α} (h : small <+: log) {n : ℕ} (hn : n ≤ small.length) :
    log.take n = small.take n := by
  obtain ⟨rest, rfl⟩ := h
  exact List.take_append_of_le_length hn

/-- A prefix of a log matches whatever the log matches. -/
theorem LogMatching.of_isPrefix {small first second : List α} (h : LogMatching term first second)
    (hsmall : small <+: first) : LogMatching term small second := by
  intro i a b ha hb hterm
  have hlt := (List.getElem?_eq_some_iff.mp ha).1
  rw [← take_of_isPrefix hsmall hlt]
  exact h i a b (getElem?_of_isPrefix hsmall ha) hb hterm

/-- Agreeing in term at the last of `n` entries makes a prefix of one log a prefix of the other. -/
theorem LogMatching.prefix_of_term {small first second : List α} (h : LogMatching term first second)
    (hsmall : small <+: first) {n : ℕ} (hn : small.length = n + 1) {a b : α}
    (ha : small[n]? = some a) (hb : second[n]? = some b) (hterm : term a = term b) :
    small = second.take (n + 1) := by
  have hequal := h n a b (getElem?_of_isPrefix hsmall ha) hb hterm
  rw [take_of_isPrefix hsmall hn.ge, ← hn, List.take_length] at hequal
  rw [hequal, hn]

/-- Continuing a beginning of a log with what follows it there is a beginning again. -/
theorem append_prefix_of_take {log entries : List α} {n : ℕ}
    (hentries : entries <+: log.drop n) : log.take n ++ entries <+: log := by
  obtain ⟨rest, hrest⟩ := hentries
  refine ⟨rest, ?_⟩
  rw [List.append_assoc, hrest, List.take_append_drop]

end LogMatching

section CommonPrefix

variable {α : Type*} [DecidableEq α]

/-- The length of the longest common prefix. -/
def commonPrefix : List α → List α → ℕ
  | a :: first, b :: second => if a = b then commonPrefix first second + 1 else 0
  | _, _ => 0

/-- Nothing is shared with an empty list. -/
@[simp] theorem commonPrefix_nil (first : List α) : commonPrefix first [] = 0 := by
  cases first <;> rfl

/-- The common prefix is no longer than the lists. -/
theorem commonPrefix_le (first second : List α) :
    commonPrefix first second ≤ first.length ∧ commonPrefix first second ≤ second.length := by
  induction first generalizing second with
  | nil => exact ⟨Nat.zero_le _, Nat.zero_le _⟩
  | cons a first ih =>
    cases second with
    | nil => exact ⟨Nat.zero_le _, Nat.zero_le _⟩
    | cons b second =>
      rw [commonPrefix]
      split
      · have := ih second
        simp only [List.length_cons]
        omega
      · exact ⟨Nat.zero_le _, Nat.zero_le _⟩

/-- The lists agree on their common prefix. -/
theorem take_commonPrefix (first second : List α) {n : ℕ} (hn : n ≤ commonPrefix first second) :
    first.take n = second.take n := by
  induction first generalizing second n with
  | nil =>
    have hzero : n = 0 := Nat.le_zero.mp hn
    rw [hzero, List.take_zero, List.take_zero]
  | cons a first ih =>
    cases second with
    | nil =>
      have hzero : n = 0 := Nat.le_zero.mp hn
      rw [hzero, List.take_zero, List.take_zero]
    | cons b second =>
      rw [commonPrefix] at hn
      cases n with
      | zero => rfl
      | succ n =>
        split at hn
        · rename_i hab
          rw [List.take_succ_cons, List.take_succ_cons, hab, ih second (Nat.le_of_succ_le_succ hn)]
        · omega

/-- Appending to the first list keeps the common prefix. -/
theorem commonPrefix_append_left (first more second : List α) :
    commonPrefix first second ≤ commonPrefix (first ++ more) second := by
  induction first generalizing second with
  | nil => exact Nat.zero_le _
  | cons a first ih =>
    cases second with
    | nil => exact Nat.zero_le _
    | cons b second =>
      rw [List.cons_append, commonPrefix, commonPrefix]
      split
      · exact Nat.succ_le_succ (ih second)
      · exact le_rfl

/-- Appending to the second list keeps the common prefix. -/
theorem commonPrefix_append_right (first second more : List α) :
    commonPrefix first second ≤ commonPrefix first (second ++ more) := by
  induction first generalizing second with
  | nil => exact Nat.zero_le _
  | cons a first ih =>
    cases second with
    | nil => exact Nat.zero_le _
    | cons b second =>
      rw [List.cons_append, commonPrefix, commonPrefix]
      split
      · exact Nat.succ_le_succ (ih second)
      · exact le_rfl

/-- Truncating the first list cuts the common prefix at that point. -/
theorem commonPrefix_take (first second : List α) (n : ℕ) :
    commonPrefix (first.take n) second = min n (commonPrefix first second) := by
  induction first generalizing second n with
  | nil =>
    rw [List.take_nil]
    exact (Nat.min_zero n).symm
  | cons a first ih =>
    cases n with
    | zero => exact (Nat.zero_min _).symm
    | succ n =>
      cases second with
      | nil => simp
      | cons b second =>
        rw [List.take_succ_cons, commonPrefix, commonPrefix, ih]
        split
        · exact (Nat.succ_min_succ n _).symm
        · exact (Nat.min_zero _).symm

/-- A beginning of the first list that is one of the second belongs to the common prefix. -/
theorem le_commonPrefix {first second : List α} {n : ℕ} (hn : n ≤ first.length)
    (h : first.take n <+: second) : n ≤ commonPrefix first second := by
  induction first generalizing second n with
  | nil => exact hn
  | cons a first ih =>
    cases n with
    | zero => exact Nat.zero_le _
    | succ n =>
      cases second with
      | nil => simp at h
      | cons b second =>
        rw [List.take_succ_cons, List.cons_prefix_cons] at h
        rw [commonPrefix, if_pos h.1]
        exact Nat.succ_le_succ (ih (Nat.le_of_succ_le_succ hn) h.2)

end CommonPrefix

end XRaft.Lib
