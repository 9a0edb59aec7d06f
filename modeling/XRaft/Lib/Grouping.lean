import Mathlib.Data.List.Induction
import Mathlib.Data.List.Perm.Basic
import Mathlib.Data.List.Sort
import Mathlib.Logic.Function.Basic

/-!
# Grouping and merging back

A list is divided among finitely many groups, each value with its index. Every group works
through its values in order, so that a value is numbered within its group, and returns a
result with the value's index. Put together and sorted by index, the results stand in the
order of the list, each computed from its value and the value's number in its group.
-/

namespace XRaft.Lib

variable {α β κ : Type*} [DecidableEq κ] (group : α → κ)

/-- Push every value to its group. -/
def distribute (values : List α) : κ → List α :=
  values.foldl (fun groups value =>
    Function.update groups (group value) (groups (group value) ++ [value]))
    fun _ => []

/-- A group receives its values in order. -/
theorem distribute_eq (values : List α) (k : κ) :
    distribute group values k = values.filter fun value => group value = k := by
  induction values using List.reverseRecOn with
  | nil => rfl
  | append_singleton values value ih =>
    rw [distribute, List.foldl_append, List.filter_append, ← ih]
    change Function.update (distribute group values) _ _ k = _
    by_cases hk : group value = k
    · rw [hk, Function.update_self, List.filter_singleton, decide_eq_true hk, cond_true]
      rfl
    · rw [Function.update_of_ne (Ne.symm hk), List.filter_singleton, decide_eq_false hk, cond_false,
        List.append_nil]

/-- The values of all groups together are the list. -/
theorem flatMap_filter_perm {groups : List κ} (hnodup : groups.Nodup) {values : List α}
    (hall : ∀ value ∈ values, group value ∈ groups) :
    (groups.flatMap fun k => values.filter fun value => group value = k).Perm values := by
  induction groups generalizing values with
  | nil =>
    rw [List.eq_nil_iff_forall_not_mem.mpr fun value hvalue =>
      List.not_mem_nil (hall value hvalue)]; rfl
  | cons k rest ih =>
    obtain ⟨hk, hrest⟩ := List.nodup_cons.mp hnodup
    have hothers : (rest.flatMap fun other => values.filter fun value => group value = other) =
        rest.flatMap fun other => (values.filter fun value => !decide (group value = k)).filter
          fun value => group value = other := by
      refine List.flatMap_congr fun other hother => ?_
      rw [List.filter_filter]
      refine List.filter_congr fun value _ => ?_
      by_cases heq : group value = other
      · have hne : other ≠ k := fun hother' => hk (hother' ▸ hother)
        simp [heq, hne]
      · simp [heq]
    have hleft : ∀ value ∈ values.filter (fun value => !decide (group value = k)),
        group value ∈ rest := by
      intro value hvalue
      obtain ⟨hmem, hne⟩ := List.mem_filter.mp hvalue
      exact (List.mem_cons.mp (hall value hmem)).resolve_left (by simpa using hne)
    rw [List.flatMap_cons, hothers]
    exact ((ih hrest hleft).append_left _).trans (List.filter_append_perm _ values)

/-- Every value with the number of values of its group before it, starting from the numbers seen
so far. -/
def numberIn : (κ → ℕ) → List α → List (α × ℕ)
  | _, [] => []
  | seen, value :: rest =>
    (value, seen (group value)) ::
      numberIn (Function.update seen (group value) (seen (group value) + 1)) rest

@[simp] theorem length_numberIn (seen : κ → ℕ) (values : List α) :
    (numberIn group seen values).length = values.length := by
  induction values generalizing seen with
  | nil => rfl
  | cons value rest ih => rw [numberIn, List.length_cons, ih, List.length_cons]

/-- The number of a value counts its group before it. -/
theorem getElem?_numberIn (seen : κ → ℕ) (values : List α) (i : ℕ) :
    (numberIn group seen values)[i]? = values[i]?.map fun value =>
      (value, seen (group value) + (values.take i).countP fun other =>
        group other = group value) := by
  induction values generalizing seen i with
  | nil => rfl
  | cons value rest ih =>
    cases i with
    | zero => simp [numberIn]
    | succ i =>
      rw [numberIn, List.getElem?_cons_succ, ih, List.getElem?_cons_succ, List.take_succ_cons]
      refine congrArg (fun f => Option.map f rest[i]?) (funext fun other => ?_)
      rw [List.countP_cons]
      by_cases heq : group value = group other
      · rw [← heq, Function.update_self]
        simp
        omega
      · rw [Function.update_of_ne (Ne.symm heq)]
        simp [heq]

/-- What a group returns: for each of its values the index in the list and a result that may
depend on the number in the group. -/
def groupResults (f : κ → α → ℕ → β) (values : List α) (k : κ) : List (ℕ × β) :=
  ((values.zipIdx.filter fun x => group x.1 = k).zipIdx).map fun x => (x.1.2, f k x.1.1 x.2)

/-- Numbering the indexed values of a group is selecting it from the numbered list. -/
theorem zipIdx_filter_zipIdx (f : κ → α → ℕ → β) (k : κ) (seen : κ → ℕ)
    (values : List α) (start : ℕ) :
    (((values.zipIdx start).filter fun x => group x.1 = k).zipIdx (seen k)).map
      (fun x => (x.1.2, f k x.1.1 x.2)) =
      (((numberIn group seen values).zipIdx start).filter fun x => group x.1.1 = k).map
        fun x => (x.2, f (group x.1.1) x.1.1 x.1.2) := by
  induction values generalizing seen start with
  | nil => rfl
  | cons value rest ih =>
    have hrest := ih (Function.update seen (group value) (seen (group value) + 1)) (start + 1)
    by_cases hk : group value = k
    · rw [← hk, Function.update_self] at hrest
      simpa [numberIn, List.zipIdx_cons, ← hk] using hrest
    · rw [Function.update_of_ne (Ne.symm hk)] at hrest
      simpa [numberIn, List.zipIdx_cons, hk] using hrest

/-- Sorting by distinct indices restores their order. -/
theorem insertionSort_eq_of_perm {indexed ordered : List (ℕ × β)} (hperm : indexed.Perm ordered)
    (hordered : ordered.Pairwise fun a b => a.1 < b.1) :
    indexed.insertionSort (fun a b => a.1 ≤ b.1) = ordered := by
  have htotal : Std.Total (fun a b : ℕ × β => a.1 ≤ b.1) := ⟨fun a b => Nat.le_total a.1 b.1⟩
  have htrans : IsTrans (ℕ × β) (fun a b => a.1 ≤ b.1) := ⟨fun _ _ _ => Nat.le_trans⟩
  have hindices : (ordered.map Prod.fst).Nodup := (List.pairwise_map.mpr hordered).imp Nat.ne_of_lt
  have hsorted : (indexed.insertionSort fun a b => a.1 ≤ b.1).Perm ordered :=
    (List.perm_insertionSort _ indexed).trans hperm
  refine hsorted.eq_of_pairwise (fun a b ha hb hab hba => ?_)
    (List.pairwise_insertionSort _ indexed)
    (hordered.imp Nat.le_of_lt)
  exact List.inj_on_of_nodup_map hindices (hsorted.mem_iff.mp ha) hb (Nat.le_antisymm hab hba)

/-- The results of all groups, sorted by index, are those of the numbered list in order. -/
theorem merge_groupResults (f : κ → α → ℕ → β) {groups : List κ} (hnodup : groups.Nodup)
    (hall : ∀ k, k ∈ groups) (values : List α) :
    ((groups.flatMap (groupResults group f values)).insertionSort
        fun a b => a.1 ≤ b.1).map Prod.snd =
      (numberIn group (fun _ => 0) values).map fun x => f (group x.1) x.1 x.2 := by
  let numbered := (numberIn group (fun _ => 0) values).zipIdx
  let result : (α × ℕ) × ℕ → ℕ × β := fun x => (x.2, f (group x.1.1) x.1.1 x.1.2)
  have hordered : (numbered.map result).Pairwise fun a b => a.1 < b.1 := by
    have hindices : (numbered.map Prod.snd).Pairwise (· < ·) := by
      rw [List.zipIdx_map_snd]
      exact List.pairwise_lt_range'
    exact List.pairwise_map.mpr (List.pairwise_map.mp hindices)
  have hperm : (groups.flatMap (groupResults group f values)).Perm (numbered.map result) := by
    have hgroups : groups.flatMap (groupResults group f values) =
        (groups.flatMap fun k => numbered.filter fun x => group x.1.1 = k).map result := by
      rw [List.map_flatMap]
      exact List.flatMap_congr fun k _ => zipIdx_filter_zipIdx group f k (fun _ => 0) values 0
    rw [hgroups]
    exact (flatMap_filter_perm (fun x : (α × ℕ) × ℕ => group x.1.1) hnodup fun _ _ =>
      hall _).map result
  calc ((groups.flatMap (groupResults group f values)).insertionSort
        fun a b => a.1 ≤ b.1).map Prod.snd
      = (numbered.map result).map Prod.snd := by rw [insertionSort_eq_of_perm hperm hordered]
    _ = (numbered.map Prod.fst).map fun x => f (group x.1) x.1 x.2 := by
      rw [List.map_map, List.map_map]
      rfl
    _ = _ := by rw [List.zipIdx_map_fst]

end XRaft.Lib
