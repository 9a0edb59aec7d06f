import Mathlib.Data.List.Basic
import Mathlib.Tactic.Common
import XRaft.Lib.Checked

/-!
# Loops of assertions

A checker runs through nested loops and raises the first assertion that fails. It finishes
exactly if every assertion holds at every round, so a loop of assertions is a quantifier over
what it runs through, and one over neighbouring elements is a chain. A look-up that may
raise, and is only made where it succeeds, leaves the loops `mapM`, `findM?` and `foldlM`
what they are without it.
-/

namespace XRaft.Lib

variable {α β κ ε : Type}

/-- Go on if the condition holds. -/
def assertThat (raised : ε) (p : Prop) [Decidable p] : Except ε Unit :=
  if p then .ok () else .error raised

@[simp] theorem assertThat_eq_ok (raised : ε) (p : Prop) [Decidable p] :
    assertThat raised p = .ok () ↔ p := by
  unfold assertThat
  split_ifs with h
  · simp [h]
  · simp [h]

/-- One check after the other finishes if both do. -/
@[simp] theorem andThen_eq_ok (first second : Except ε Unit) :
    (do first; second) = .ok () ↔ first = .ok () ∧ second = .ok () := by
  cases first with
  | error e => exact ⟨nofun, fun h => nomatch h.1⟩
  | ok done => exact ⟨fun h => ⟨rfl, h⟩, fun h => h.2⟩

/-- A loop of checks finishes if every round does. -/
@[simp] theorem forM_eq_ok (values : List α) (check : α → Except ε Unit) :
    forM values check = .ok () ↔ ∀ value ∈ values, check value = .ok () := by
  induction values with
  | nil => simp [pure, Except.pure]
  | cons value rest ih => rw [List.forM_cons, andThen_eq_ok, ih, List.forall_mem_cons]

/-- Assert a relation between neighbouring elements, by their indices from 1 on. -/
def checkNeighbours (outOfBounds : ε) (raised : ℕ → α → α → ε) (related : α → α → Prop)
    [∀ previous value, Decidable (related previous value)] (values : List α) : Except ε Unit :=
  forM (List.range' 1 (values.length - 1)) fun i => do
    let value ← nth outOfBounds values i
    let previous ← nth outOfBounds values (i - 1)
    assertThat (raised i previous value) (related previous value)

/-- The loop over neighbours finishes if they are all related. -/
theorem checkNeighbours_eq_ok (outOfBounds : ε) (raised : ℕ → α → α → ε) (related : α → α → Prop)
    [∀ previous value, Decidable (related previous value)] (values : List α) :
    checkNeighbours outOfBounds raised related values = .ok () ↔ values.IsChain related := by
  have hround : ∀ i (hi : i + 1 < values.length), (do
      let value ← nth outOfBounds values (i + 1)
      let previous ← nth outOfBounds values (i + 1 - 1)
      assertThat (raised (i + 1) previous value) (related previous value)) = .ok () ↔
        related values[i] values[i + 1] := by
    intro i hi
    rw [nth_of_getElem? outOfBounds (List.getElem?_eq_getElem hi), Nat.add_sub_cancel,
      nth_of_getElem? outOfBounds (List.getElem?_eq_getElem (Nat.lt_of_succ_lt hi))]
    exact assertThat_eq_ok _ _
  rw [checkNeighbours, forM_eq_ok, List.isChain_iff_getElem]
  constructor
  · intro h i hi
    exact (hround i hi).mp (h (i + 1) (List.mem_range'_1.mpr (by omega)))
  · intro h i hi
    obtain ⟨hone, hlast⟩ := List.mem_range'_1.mp hi
    obtain ⟨j, rfl⟩ := Nat.exists_eq_add_of_le' hone
    exact (hround j (by omega)).mpr (h j (by omega))

/-- Run a check on every two elements, by their indices. -/
def checkPairs (outOfBounds : ε) (values : List α) (check : α → α → Except ε Unit) :
    Except ε Unit :=
  forM (List.range values.length) fun i =>
    forM (List.range' (i + 1) (values.length - (i + 1))) fun j => do
      let first ← nth outOfBounds values i
      let second ← nth outOfBounds values j
      check first second

/-- The loops over pairs finish if the check does for every two elements. -/
theorem checkPairs_eq_ok (outOfBounds : ε) (values : List α) (check : α → α → Except ε Unit) :
    checkPairs outOfBounds values check = .ok () ↔
      values.Pairwise fun a b => check a b = .ok () := by
  have hround : ∀ i j (hi : i < values.length) (hj : j < values.length), (do
      let first ← nth outOfBounds values i
      let second ← nth outOfBounds values j
      check first second) = check values[i] values[j] := by
    intro i j hi hj
    rw [nth_of_getElem? outOfBounds (List.getElem?_eq_getElem hi),
      nth_of_getElem? outOfBounds (List.getElem?_eq_getElem hj)]
    rfl
  simp only [checkPairs, forM_eq_ok, List.mem_range, List.mem_range'_1, List.pairwise_iff_getElem]
  constructor
  · intro h i j hi hj hij
    rw [← hround i j hi hj]
    exact h i hi j ⟨hij, by omega⟩
  · intro h i hi j hj
    have hj' : j < values.length := by omega
    rw [hround i j hi hj']
    exact h i j hi hj' hj.1

section Lookups

variable {values : List α} {key : α → κ}

/-- Mapping with look-ups that succeed. -/
theorem mapM_eq_ok {f : κ → Except ε β} {g : α → β}
    (h : ∀ value ∈ values, f (key value) = .ok (g value)) :
    (values.map key).mapM f = .ok (values.map g) := by
  induction values with
  | nil => rfl
  | cons value rest ih =>
    obtain ⟨hvalue, hrest⟩ := List.forall_mem_cons.mp h
    rw [List.map_cons, List.mapM_cons, hvalue, ih hrest]
    rfl

/-- Searching with look-ups that succeed. -/
theorem findM?_eq_ok {f : κ → Except ε Bool} {p : α → Bool}
    (h : ∀ value ∈ values, f (key value) = .ok (p value)) :
    (values.map key).findM? f = .ok ((values.find? p).map key) := by
  induction values with
  | nil => rfl
  | cons value rest ih =>
    obtain ⟨hvalue, hrest⟩ := List.forall_mem_cons.mp h
    rw [List.map_cons, List.findM?, hvalue, List.find?_cons]
    change (match p value with | true => pure (some (key value)) | false => _) = _
    cases p value with
    | true => rfl
    | false => exact ih hrest

/-- Accumulating with look-ups that succeed. -/
theorem foldlM_eq_ok {f : β → κ → Except ε β} {g : β → α → β}
    (h : ∀ state, ∀ value ∈ values, f state (key value) = .ok (g state value)) (state : β) :
    (values.map key).foldlM f state = .ok (values.foldl g state) := by
  induction values generalizing state with
  | nil => rfl
  | cons value rest ih =>
    rw [List.map_cons, List.foldlM_cons, h state value List.mem_cons_self]
    exact ih (fun state value hvalue => h state value (List.mem_cons_of_mem _ hvalue))
      (g state value)

end Lookups

end XRaft.Lib
