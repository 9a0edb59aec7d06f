import Mathlib.Data.List.Basic
import Mathlib.Tactic.Common

/-!
# Operations that check their range

Subtraction, indexing, slices and draining stop the program when they are out of range. Each of
them is given here what it raises then, and has one lemma for the case that it is in range.
-/

namespace XRaft.Lib

variable {α ε : Type*} (raised : ε)

/-- Subtract, unless the result would be negative. -/
def checkedSub (left right : ℕ) : Except ε ℕ :=
  if right ≤ left then .ok (left - right) else .error raised

/-- The values at the positions in `[low, high)`. -/
def slice (values : List α) (low high : ℕ) : Except ε (List α) :=
  if low ≤ high ∧ high ≤ values.length then .ok ((values.take high).drop low) else .error raised

/-- Remove the first values and keep the others. -/
def drain (values : List α) (count : ℕ) : Except ε (List α) :=
  if count ≤ values.length then .ok (values.drop count) else .error raised

/-- The value at a position. -/
def nth (values : List α) (i : ℕ) : Except ε α :=
  match values[i]? with
  | some value => .ok value
  | none => .error raised

theorem checkedSub_of_le {left right : ℕ} (h : right ≤ left) :
    checkedSub raised left right = .ok (left - right) :=
  if_pos h

theorem slice_of_le {values : List α} {low high : ℕ} (hlow : low ≤ high)
    (hhigh : high ≤ values.length) :
    slice raised values low high = .ok ((values.take high).drop low) :=
  if_pos ⟨hlow, hhigh⟩

theorem drain_of_le {values : List α} {count : ℕ} (h : count ≤ values.length) :
    drain raised values count = .ok (values.drop count) :=
  if_pos h

theorem nth_of_getElem? {values : List α} {i : ℕ} {value : α} (h : values[i]? = some value) :
    nth raised values i = .ok value := by
  rw [nth, h]

end XRaft.Lib
