import Mathlib.Data.List.Induction
import Mathlib.Data.List.Nodup
import Mathlib.Tactic.Common

/-!
# Counting in a map

Keys are counted one by one in a map from keys to counts, a list of slots with distinct keys.
What is asked of every slot whose count reaches a bound is then asked of every key that
occurs as often. A map from keys to lists of values has buckets of the counted sizes.
-/

namespace XRaft.Lib

variable {κ : Type*} [DecidableEq κ]

/-- Count a key once more in a map of counts. -/
def bump (key : κ) : List (κ × ℕ) → List (κ × ℕ)
  | [] => [(key, 1)]
  | slot :: rest => if slot.1 = key then (slot.1, slot.2 + 1) :: rest else slot :: bump key rest

/-- The map of counts of some keys. -/
def tally (keys : List κ) : List (κ × ℕ) := keys.foldl (fun counts key => bump key counts) []

/-- Counting a key adds no other key. -/
theorem mem_keys_bump {counts : List (κ × ℕ)} {key other : κ} :
    other ∈ (bump key counts).map Prod.fst ↔ other = key ∨ other ∈ counts.map Prod.fst := by
  induction counts with
  | nil => simp [bump]
  | cons slot rest ih =>
    rw [bump]
    split_ifs with hkey
    · simp [hkey]
    · simp only [List.map_cons, List.mem_cons, ih]
      exact or_left_comm

/-- Counting a key keeps the keys distinct. -/
theorem nodup_bump {counts : List (κ × ℕ)} (h : (counts.map Prod.fst).Nodup) (key : κ) :
    ((bump key counts).map Prod.fst).Nodup := by
  induction counts with
  | nil => simp [bump]
  | cons slot rest ih =>
    obtain ⟨hslot, hrest⟩ := List.nodup_cons.mp h
    rw [bump]
    split_ifs with hkey
    · exact h
    · refine List.nodup_cons.mpr ⟨fun hmem => ?_, ih hrest⟩
      exact (mem_keys_bump.mp hmem).elim hkey hslot

/-- What a map of counts says of a key. -/
def countIn : List (κ × ℕ) → κ → ℕ
  | [], _ => 0
  | slot :: rest, key => if slot.1 = key then slot.2 else countIn rest key

/-- Counting a key changes its count only. -/
theorem countIn_bump (counts : List (κ × ℕ)) (key other : κ) :
    countIn (bump key counts) other = countIn counts other + if key = other then 1 else 0 := by
  induction counts with
  | nil => rw [bump, countIn, countIn, Nat.zero_add]; rfl
  | cons slot rest ih =>
    rw [bump]
    split_ifs with hkey hother hother
    · simp [countIn, hkey, hother]
    · simp [countIn, hkey, hother]
    · rw [countIn, countIn, if_neg (hother ▸ hkey), if_neg (hother ▸ hkey), ih, if_pos hother]
    · rw [countIn, countIn, ih, if_neg hother, Nat.add_zero]
      rfl

/-- A slot of a map with distinct keys says what the map says. -/
theorem countIn_of_mem {counts : List (κ × ℕ)} (h : (counts.map Prod.fst).Nodup) {slot : κ × ℕ}
    (hslot : slot ∈ counts) : countIn counts slot.1 = slot.2 := by
  induction counts with
  | nil => cases hslot
  | cons first rest ih =>
    obtain ⟨hfirst, hrest⟩ := List.nodup_cons.mp h
    rw [countIn]
    cases hslot with
    | head => rw [if_pos rfl]
    | tail _ hlater =>
      have hne : first.1 ≠ slot.1 := fun heq => hfirst (heq ▸ List.mem_map_of_mem hlater)
      rw [if_neg hne, ih hrest hlater]

/-- A key that is counted has a slot. -/
theorem mem_of_countIn_pos {counts : List (κ × ℕ)} {key : κ} (h : 0 < countIn counts key) :
    (key, countIn counts key) ∈ counts := by
  induction counts with
  | nil => cases h
  | cons slot rest ih =>
    rw [countIn] at h ⊢
    split_ifs at h ⊢ with hkey
    · exact hkey ▸ List.mem_cons_self
    · exact List.mem_cons_of_mem slot (ih h)

/-- A tally has distinct keys and counts each of them. -/
theorem tally_counts (keys : List κ) :
    ((tally keys).map Prod.fst).Nodup ∧ ∀ key, countIn (tally keys) key = keys.countP fun other =>
      other = key := by
  induction keys using List.reverseRecOn with
  | nil => exact ⟨List.nodup_nil, fun _ => rfl⟩
  | append_singleton keys last ih =>
    have htally : tally (keys ++ [last]) = bump last (tally keys) := by
      rw [tally, List.foldl_append]
      rfl
    rw [htally]
    refine ⟨nodup_bump ih.1 last, fun key => ?_⟩
    rw [countIn_bump, ih.2, List.countP_append, List.countP_singleton]
    simp

/-- What holds of the slots that reach a bound holds of the keys that occur as often. -/
theorem forall_tally {keys : List κ} {bound : ℕ} (hbound : 0 < bound) (holds : κ → Prop) :
    (∀ slot ∈ tally keys, bound ≤ slot.2 → holds slot.1) ↔
      ∀ key, bound ≤ keys.countP (fun other => other = key) → holds key := by
  obtain ⟨hnodup, hcounts⟩ := tally_counts keys
  constructor
  · intro h key hkey
    rw [← hcounts] at hkey
    exact h (key, countIn (tally keys) key) (mem_of_countIn_pos (Nat.lt_of_lt_of_le hbound hkey))
      hkey
  · intro h slot hslot hcount
    refine h slot.1 ?_
    rwa [← hcounts, countIn_of_mem hnodup hslot]

section Buckets

variable {β : Type*}

/-- Add a value to the bucket of a key. -/
def pushAt (key : κ) (value : β) : List (κ × List β) → List (κ × List β)
  | [] => [(key, [value])]
  | slot :: rest =>
    if slot.1 = key then (slot.1, slot.2 ++ [value]) :: rest else slot :: pushAt key value rest

/-- The map of the values of some keys. -/
def buckets (pairs : List (κ × β)) : List (κ × List β) :=
  pairs.foldl (fun slots pair => pushAt pair.1 pair.2 slots) []

/-- The sizes of buckets are counts. -/
theorem map_length_pushAt (key : κ) (value : β) (slots : List (κ × List β)) :
    (pushAt key value slots).map (fun slot => (slot.1, slot.2.length)) =
      bump key (slots.map fun slot => (slot.1, slot.2.length)) := by
  induction slots with
  | nil => rfl
  | cons slot rest ih =>
    rw [pushAt, List.map_cons, bump]
    split_ifs with hkey
    · simp
    · rw [List.map_cons, ih]

/-- The sizes of all buckets are a tally of the keys. -/
theorem map_length_buckets (pairs : List (κ × β)) :
    (buckets pairs).map (fun slot => (slot.1, slot.2.length)) = tally (pairs.map Prod.fst) := by
  induction pairs using List.reverseRecOn with
  | nil => rfl
  | append_singleton pairs last ih =>
    have hbuckets : buckets (pairs ++ [last]) = pushAt last.1 last.2 (buckets pairs) := by
      rw [buckets, List.foldl_append]
      rfl
    rw [hbuckets, map_length_pushAt, ih, tally, tally, List.map_append, List.foldl_append]
    rfl

/-- No bucket has two values exactly if the keys are distinct. -/
theorem buckets_single_iff (pairs : List (κ × β)) :
    (∀ slot ∈ buckets pairs, slot.2.length ≤ 1) ↔ (pairs.map Prod.fst).Nodup := by
  have hsizes : (∀ slot ∈ buckets pairs, slot.2.length ≤ 1) ↔
      ∀ slot ∈ tally (pairs.map Prod.fst), 2 ≤ slot.2 → False := by
    rw [← map_length_buckets, List.forall_mem_map]
    refine forall₂_congr fun slot _ => ?_
    rw [imp_false, Nat.not_le, Nat.lt_succ_iff]
  rw [hsizes, forall_tally Nat.two_pos fun _ => False, List.nodup_iff_count_le_one]
  refine forall_congr' fun key => ?_
  have hcount : (pairs.map Prod.fst).count key = (pairs.map Prod.fst).countP fun other =>
    other = key :=
    List.countP_congr fun _ _ => by simp
  rw [hcount, imp_false, Nat.not_le, Nat.lt_succ_iff]

end Buckets

end XRaft.Lib
