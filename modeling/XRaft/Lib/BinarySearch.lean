import Mathlib.Data.List.Basic
import Mathlib.Data.Nat.Notation
import Mathlib.Tactic.Common

/-!
# Binary search for the end of an initial segment

A list is searched for the place where a property stops to hold. The loop keeps a window
of places that are still possible and looks at its middle. If the property holds for an
initial segment of the list, the place found is the length of that segment, which is then
also all that a filter by the property keeps.
-/

namespace XRaft.Lib

variable {α : Type*} {holds : α → Bool} {values : List α}

/-- Halve the window `[low, high)` until it is empty. There is no result if a look-up is out of
range or if the window is not empty after the given number of rounds. -/
def partitionLoop (holds : α → Bool) (values : List α) : ℕ → ℕ → ℕ → Option ℕ
  | 0, low, high => if low < high then none else some low
  | fuel + 1, low, high =>
    if low < high then
      match values[low + (high - low) / 2]? with
      | none => none
      | some value =>
        if holds value then partitionLoop holds values fuel (low + (high - low) / 2 + 1) high
        else partitionLoop holds values fuel low (low + (high - low) / 2)
    else some low

/-- The property holds for the first values, as many as given, and for no others. -/
structure HoldsUpTo (holds : α → Bool) (values : List α) (count : ℕ) : Prop where
  count_le : count ≤ values.length
  iff_lt : ∀ index value, values[index]? = some value → (holds value = true ↔ index < count)

/-- With enough rounds, the window closes on the end of the initial segment. -/
theorem HoldsUpTo.partitionLoop_eq {count : ℕ} (h : HoldsUpTo holds values count)
    {fuel low high : ℕ} (hlow : low ≤ count) (hhigh : count ≤ high) (hrange : high ≤ values.length)
    (hfuel : high ≤ low + fuel) : partitionLoop holds values fuel low high = some count := by
  induction fuel generalizing low high with
  | zero =>
    have hclosed : low = count := by omega
    rw [partitionLoop, if_neg (by omega), hclosed]
  | succ fuel ih =>
    rw [partitionLoop]
    split_ifs with hopen
    · have hmiddle : low + (high - low) / 2 < values.length := by omega
      have hside := h.iff_lt _ _ (List.getElem?_eq_getElem hmiddle)
      rw [List.getElem?_eq_getElem hmiddle]
      dsimp only
      split_ifs with hvalue
      · have hless := hside.mp hvalue
        exact ih (by omega) hhigh hrange (by omega)
      · have hmore := mt hside.mpr hvalue
        exact ih hlow (by omega) (by omega) (by omega)
    · have hclosed : low = count := by omega
      rw [hclosed]

/-- If the property holds for everything before a value for which it holds, it holds for an
initial segment, which is what a filter keeps. -/
theorem exists_holdsUpTo
    (h : values.Pairwise fun first second => holds second = true → holds first = true) :
    ∃ count, HoldsUpTo holds values count ∧ values.filter holds = values.take count := by
  induction values with
  | nil => exact ⟨0, ⟨Nat.le_refl 0, by simp⟩, rfl⟩
  | cons first rest ih =>
    obtain ⟨hfirst, hrest⟩ := List.pairwise_cons.mp h
    cases hholds : holds first with
    | true =>
      obtain ⟨count, hcount, hfilter⟩ := ih hrest
      refine ⟨count + 1, ⟨Nat.succ_le_succ hcount.count_le, fun index value hvalue => ?_⟩, ?_⟩
      · cases index with
        | zero =>
          cases hvalue
          simp [hholds]
        | succ index => rw [hcount.iff_lt index value hvalue, Nat.succ_lt_succ_iff]
      · rw [List.filter_cons_of_pos hholds, hfilter, List.take_succ_cons]
    | false =>
      have hnone : ∀ value ∈ first :: rest, holds value = false := by
        refine List.forall_mem_cons.mpr ⟨hholds, fun value hvalue => ?_⟩
        rw [← Bool.not_eq_true]
        intro htrue
        rw [hfirst value hvalue htrue] at hholds
        cases hholds
      refine ⟨0, ⟨Nat.zero_le _, fun index value hvalue => ?_⟩, ?_⟩
      · rw [hnone value (List.mem_of_getElem? hvalue)]
        simp
      · rw [List.take_zero, List.filter_eq_nil_iff]
        intro value hvalue
        rw [hnone value hvalue]
        exact Bool.false_ne_true

/-- The last value of an initial segment stands in front of its end. -/
theorem getElem?_pred_eq_getLast?_take {count : ℕ} (hpos : 0 < count)
    (hcount : count ≤ values.length) : values[count - 1]? = (values.take count).getLast? := by
  rw [List.getLast?_eq_getElem?, List.length_take, Nat.min_eq_left hcount,
    List.getElem?_take_of_lt (by omega)]

end XRaft.Lib
