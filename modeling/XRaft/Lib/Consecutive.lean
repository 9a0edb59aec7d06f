import Mathlib.Data.List.Range
import Mathlib.Data.List.Basic
import Mathlib.Tactic.Common

/-!
# Lists whose keys are consecutive

A log is stored as a list of entries that carry their own offsets. The lemmas below
relate the two ways of addressing such a list: by position, as lists are, and by the
key an entry carries, as the callers of a log do. Selecting by key is then `take` and
`drop` by position, and neither view needs the other's bounds checks.
-/

namespace XRaft.Lib

variable {α : Type*} {key : α → ℕ}

/-- The keys of the list are `start`, `start + 1`, and so on, in order. -/
def Consecutive (key : α → ℕ) (start : ℕ) (values : List α) : Prop :=
  values.map key = List.range' start values.length

instance (key : α → ℕ) (start : ℕ) (values : List α) : Decidable (Consecutive key start values) :=
  inferInstanceAs (Decidable (values.map key = List.range' start values.length))

/-- No entries are consecutive from every start. -/
@[simp] theorem consecutive_nil (start : ℕ) : Consecutive key start [] := rfl

/-- The first key is the start and the rest continues from its successor. -/
@[simp] theorem consecutive_cons (start : ℕ) (value : α) (rest : List α) :
    Consecutive key start (value :: rest) ↔ key value = start ∧
      Consecutive key (start + 1) rest := by
  simp [Consecutive, List.range'_succ]

/-- Two consecutive runs concatenate exactly when the second starts where the first ends. -/
@[simp] theorem consecutive_append (start : ℕ) (left right : List α) :
    Consecutive key start (left ++ right) ↔
      Consecutive key start left ∧ Consecutive key (start + left.length) right := by
  induction left generalizing start with
  | nil => simp
  | cons value left ih =>
    rw [List.cons_append, consecutive_cons, ih, consecutive_cons, and_assoc, List.length_cons,
      Nat.add_assoc, Nat.add_comm 1]

/-- Every prefix of a consecutive list is consecutive. -/
theorem Consecutive.take {start : ℕ} {values : List α}
    (h : Consecutive key start values) (count : ℕ) : Consecutive key start (values.take count) := by
  rw [← List.take_append_drop count values, consecutive_append] at h
  exact h.1

/-- Dropping entries moves the start by the number dropped. -/
theorem Consecutive.drop {start : ℕ} {values : List α}
    (h : Consecutive key start values) (count : ℕ) (hcount : count ≤ values.length) :
    Consecutive key (start + count) (values.drop count) := by
  rw [← List.take_append_drop count values, consecutive_append, List.length_take,
    Nat.min_eq_left hcount] at h
  exact h.2

/-- Dropping the keys below a bound moves the start there, also past the end. -/
theorem Consecutive.drop_to {start : ℕ} {values : List α}
    (h : Consecutive key start values) {bound : ℕ} (hbound : start ≤ bound) :
    Consecutive key bound (values.drop (bound - start)) := by
  by_cases hpast : values.length ≤ bound - start
  · rw [List.drop_eq_nil_of_le hpast]
    exact consecutive_nil bound
  · have hdropped := h.drop (bound - start) (Nat.le_of_not_le hpast)
    rwa [Nat.add_sub_cancel' hbound] at hdropped

/-- The keys of a consecutive list ascend. -/
theorem Consecutive.ascend {start : ℕ} {values : List α} (h : Consecutive key start values) :
    values.Pairwise fun first second => key first < key second := by
  rw [← List.pairwise_map (f := key) (R := (· < ·)), h]
  exact List.pairwise_lt_range'

/-- The key at a position is the start plus that position. -/
theorem Consecutive.key_getElem? {start : ℕ} {values : List α} (h : Consecutive key start values)
    {i : ℕ} {value : α} (hi : values[i]? = some value) : key value = start + i := by
  induction values generalizing start i with
  | nil => simp at hi
  | cons first rest ih =>
    obtain ⟨hfirst, hrest⟩ := (consecutive_cons start first rest).mp h
    cases i with
    | zero =>
      rw [List.getElem?_cons_zero, Option.some.injEq] at hi
      rw [← hi, hfirst, Nat.add_zero]
    | succ i =>
      rw [List.getElem?_cons_succ] at hi
      rw [ih hrest hi, Nat.add_assoc, Nat.add_comm 1]

/-- Every key lies between the start and the end of the run. -/
theorem Consecutive.key_bounds {start : ℕ} {values : List α} (h : Consecutive key start values)
    {value : α} (hmem : value ∈ values) :
    start ≤ key value ∧ key value < start + values.length := by
  obtain ⟨i, hi, hget⟩ := List.mem_iff_getElem.mp hmem
  have hkey := h.key_getElem? (List.getElem?_eq_some_iff.mpr ⟨hi, hget⟩)
  omega

/-- Every key within the bounds belongs to a value. -/
theorem Consecutive.exists_key {start : ℕ} {values : List α}
    (h : Consecutive key start values) {k : ℕ} (hlow : start ≤ k)
    (hhigh : k < start + values.length) : ∃ value ∈ values, key value = k := by
  have hindex : k - start < values.length := by omega
  have hkey := h.key_getElem? (List.getElem?_eq_getElem hindex)
  exact ⟨_, List.getElem_mem hindex, by omega⟩

/-- The value of a key stands at the key minus the start. -/
theorem Consecutive.find?_key {start : ℕ} {values : List α}
    (h : Consecutive key start values) {k : ℕ} (hk : start ≤ k) :
    values.find? (fun value => key value == k) = values[k - start]? := by
  induction values generalizing start with
  | nil => rfl
  | cons first rest ih =>
    obtain ⟨hfirst, hrest⟩ := (consecutive_cons start first rest).mp h
    rw [List.find?_cons, hfirst]
    by_cases heq : start = k
    · rw [heq, Nat.sub_self, beq_self_eq_true, List.getElem?_cons_zero]
    · rw [beq_eq_false_iff_ne.mpr heq, show k - start = (k - (start + 1)) + 1 by omega,
        List.getElem?_cons_succ]
      exact ih hrest (by omega)

/-- Keeping the keys below a bound is taking a prefix. -/
theorem Consecutive.filter_lt {start : ℕ} {values : List α} (h : Consecutive key start values)
    (bound : ℕ) :
    values.filter (fun value => decide (key value < bound)) = values.take (bound - start) := by
  induction values generalizing start with
  | nil => simp
  | cons first rest ih =>
    obtain ⟨hfirst, hrest⟩ := (consecutive_cons start first rest).mp h
    rw [List.filter_cons, ih hrest]
    by_cases hlt : start < bound
    · rw [if_pos (by simpa [hfirst] using hlt),
        show bound - start = (bound - (start + 1)) + 1 by omega, List.take_succ_cons]
    · rw [if_neg (by simpa [hfirst] using hlt), show bound - start = 0 by omega,
        show bound - (start + 1) = 0 by omega, List.take_zero, List.take_zero]

/-- Keeping the keys from a bound on is dropping a prefix. -/
theorem Consecutive.filter_ge {start : ℕ} {values : List α} (h : Consecutive key start values)
    (bound : ℕ) :
    values.filter (fun value => decide (bound ≤ key value)) = values.drop (bound - start) := by
  induction values generalizing start with
  | nil => simp
  | cons first rest ih =>
    obtain ⟨hfirst, hrest⟩ := (consecutive_cons start first rest).mp h
    rw [List.filter_cons, ih hrest]
    by_cases hlt : start < bound
    · rw [if_neg (by simpa [hfirst] using hlt),
        show bound - start = (bound - (start + 1)) + 1 by omega, List.drop_succ_cons]
    · rw [if_pos (by simpa [hfirst] using hlt), show bound - start = 0 by omega,
        show bound - (start + 1) = 0 by omega, List.drop_zero, List.drop_zero]

/-- Keeping a range of keys is a prefix of a suffix. -/
theorem Consecutive.filter_range {start : ℕ} {values : List α} (h : Consecutive key start values)
    (low high : ℕ) :
    values.filter (fun value => decide (low ≤ key value) && decide (key value < high)) =
      (values.take (high - start)).drop (low - start) := by
  rw [← h.filter_lt high, ← List.filter_filter, h.filter_lt high, (h.take _).filter_ge low]

/-- Keeping the keys from a bound up to the end or beyond is dropping a prefix. -/
theorem Consecutive.filter_range_end {start : ℕ} {values : List α}
    (h : Consecutive key start values) {high : ℕ} (hhigh : start + values.length ≤ high) (low : ℕ) :
    values.filter (fun value => decide (low ≤ key value) && decide (key value < high)) =
      values.drop (low - start) := by
  rw [h.filter_range, List.take_of_length_le (Nat.le_sub_of_add_le' hhigh)]

/-- A range of keys splits at any key within it. -/
theorem Consecutive.filter_range_split {start : ℕ} {values : List α}
    (h : Consecutive key start values) {low middle high : ℕ} (hlow : low ≤ middle)
    (hhigh : middle ≤ high) :
    values.filter (fun value => decide (low ≤ key value) && decide (key value < high)) =
      values.filter (fun value => decide (low ≤ key value) && decide (key value < middle)) ++
        values.filter (fun value => decide (middle ≤ key value) && decide (key value < high)) := by
  rw [h.filter_range, h.filter_range, h.filter_range,
    ← List.take_append_drop ((middle - start) - (low - start))
    ((values.take (high - start)).drop (low - start)), List.take_drop, List.drop_drop,
    List.take_take]
  congr 2
  · congr 1
    omega
  · omega

end XRaft.Lib
