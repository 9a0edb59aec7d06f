import Mathlib.Data.List.Sort
import Mathlib.Data.Nat.Notation
import Mathlib.Tactic.Common

/-!
# Files, torn writes and directories

A file is a list of bytes. A program changes it by overwriting bytes at a position and
by setting its length. If the program stops, the file is left as some number of these
changes made it, the last write possibly with only its first bytes applied; `Torn` is
the relation between a file, the changes under way and what can be left.

A directory maps keys to files. It is kept as an unordered list of pairs, as a directory
listing has no order, and statements about it are up to permutation.
-/

namespace XRaft.Lib

/-- A change of one file. -/
inductive FileOp where
  | writeAt (position : ℕ) (bytes : List UInt8)
  | setLen (length : ℕ)
  deriving DecidableEq, Repr

namespace FileOp

/-- The file after a change. Writing past the end and extending fill with zeros. -/
def apply : FileOp → List UInt8 → List UInt8
  | writeAt position bytes, file =>
    file.take position ++ List.replicate (position - file.length) 0 ++ bytes ++
      file.drop (position + bytes.length)
  | setLen length, file => file.take length ++ List.replicate (length - file.length) 0

/-- The file after all changes of a list. -/
def applyAll (ops : List FileOp) (file : List UInt8) : List UInt8 :=
  ops.foldl (fun file op => op.apply file) file

@[simp] theorem applyAll_nil (file : List UInt8) : applyAll [] file = file := rfl

@[simp] theorem applyAll_cons (op : FileOp) (ops : List FileOp) (file : List UInt8) :
    applyAll (op :: ops) file = applyAll ops (op.apply file) := rfl

/-- Writing at the end appends. -/
theorem apply_writeAt_end (file bytes : List UInt8) :
    (writeAt file.length bytes).apply file = file ++ bytes := by
  simp [apply]

/-- Writing at the end of a known first part overwrites what follows it. -/
theorem apply_writeAt_append {position : ℕ} {first : List UInt8}
    (hposition : position = first.length) (rest bytes : List UInt8) :
    (writeAt position bytes).apply (first ++ rest) = first ++ bytes ++ rest.drop bytes.length := by
  subst hposition
  simp [apply, List.drop_append]

/-- Setting a length that the file has cuts it there. -/
theorem apply_setLen_of_le {length : ℕ} {file : List UInt8} (hlength : length ≤ file.length) :
    (setLen length).apply file = file.take length := by
  simp [apply, hlength]

/-- Setting the length to that of a known first part cuts what follows it. -/
theorem apply_setLen_append {length : ℕ} {first : List UInt8} (hlength : length = first.length)
    (rest : List UInt8) : (setLen length).apply (first ++ rest) = first := by
  subst hlength
  simp [apply]

end FileOp

/-- What a file can be left as when the program stops while making some changes. -/
inductive Torn : List FileOp → List UInt8 → List UInt8 → Prop where
  | stopped (ops : List FileOp) (file : List UInt8) : Torn ops file file
  | written (position : ℕ) (bytes : List UInt8) (count : ℕ) (ops : List FileOp)
      (file : List UInt8) :
      Torn (.writeAt position bytes :: ops) file
      ((FileOp.writeAt position (bytes.take count)).apply file)
  | next {op : FileOp} {ops : List FileOp} {file left : List UInt8}
      (h : Torn ops (op.apply file) left) :
      Torn (op :: ops) file left

/-- Stopping between two changes leaves the file as the first of them made it. -/
theorem torn_applyAll_take (ops : List FileOp) (count : ℕ) (file : List UInt8) :
    Torn ops file (FileOp.applyAll (ops.take count) file) := by
  induction ops generalizing count file with
  | nil =>
    rw [List.take_nil]
    exact .stopped [] file
  | cons op ops ih =>
    cases count with
    | zero => exact .stopped _ file
    | succ count => exact .next (ih count (op.apply file))

/-- Stopping after all changes leaves the changed file. -/
theorem torn_applyAll (ops : List FileOp) (file : List UInt8) :
    Torn ops file (FileOp.applyAll ops file) := by
  have htorn := torn_applyAll_take ops ops.length file
  rwa [List.take_length] at htorn

section Directory

variable {κ β : Type*} [DecidableEq κ]

/-- Create or replace the file of a key. -/
def put (key : κ) (file : β) (files : List (κ × β)) : List (κ × β) :=
  (key, file) :: files.filter fun entry => entry.1 != key

/-- Delete the file of a key. -/
def erase (key : κ) (files : List (κ × β)) : List (κ × β) :=
  files.filter fun entry => entry.1 != key

variable {files other : List (κ × β)}

/-- A file in a directory with distinct keys is found by its key. -/
theorem lookup_of_mem (hkeys : (files.map Prod.fst).Nodup) {key : κ} {file : β}
    (hmem : (key, file) ∈ files) : files.lookup key = some file := by
  induction files with
  | nil => cases hmem
  | cons entry files ih =>
    obtain ⟨hnotin, hrest⟩ := List.nodup_cons.mp hkeys
    by_cases hkey : key = entry.1
    · rcases List.mem_cons.mp hmem with heq | hlater
      · rw [← heq, List.lookup_cons_self]
      · exact absurd (List.mem_map_of_mem (f := Prod.fst) hlater) (hkey ▸ hnotin)
    · rw [List.lookup_cons, beq_eq_false_iff_ne.mpr hkey]
      rcases List.mem_cons.mp hmem with heq | hlater
      · exact absurd (congrArg Prod.fst heq) hkey
      · exact ih hrest hlater

/-- A directory has no file for a key it does not list. -/
theorem lookup_of_notMem {key : κ} (hkey : key ∉ files.map Prod.fst) : files.lookup key = none := by
  induction files with
  | nil => rfl
  | cons entry files ih =>
    rw [List.map_cons, List.mem_cons, not_or] at hkey
    rw [List.lookup_cons, beq_eq_false_iff_ne.mpr hkey.1]
    exact ih hkey.2

/-- A key is listed if a file is found under it. -/
theorem mem_keys_iff {key : κ} :
    key ∈ files.map Prod.fst ↔ ∃ file, files.lookup key = some file := by
  constructor
  · intro hkey
    refine Option.isSome_iff_exists.mp (List.lookup_isSome_iff.mpr ?_)
    obtain ⟨entry, hentry, rfl⟩ := List.mem_map.mp hkey
    exact ⟨entry, hentry, BEq.rfl⟩
  · rintro ⟨file, hfound⟩
    by_contra hkey
    rw [lookup_of_notMem hkey] at hfound
    cases hfound

/-- Files that are selected by their keys are found as before. -/
theorem lookup_filter (p : κ → Bool) (files : List (κ × β)) (key : κ) :
    (files.filter fun entry => p entry.1).lookup key =
      if p key then files.lookup key else none := by
  induction files with
  | nil => simp
  | cons entry files ih =>
    obtain ⟨name, file⟩ := entry
    by_cases hname : key = name
    · subst hname
      cases hselected : p key <;> simp [hselected, ih]
    · have hbeq : (key == name) = false := beq_eq_false_iff_ne.mpr hname
      cases hselected : p name <;> simp [List.lookup_cons, hselected, hbeq, ih]

/-- Replacing a file changes what is found under its key only. -/
theorem lookup_put (key other : κ) (file : β) (files : List (κ × β)) :
    (put key file files).lookup other = if other = key then some file else files.lookup other := by
  rw [put, List.lookup_cons]
  by_cases hother : other = key
  · rw [if_pos hother, beq_iff_eq.mpr hother]
  · rw [if_neg hother, beq_eq_false_iff_ne.mpr hother]
    dsimp only
    rw [lookup_filter (fun name => name != key), if_pos (bne_iff_ne.mpr hother)]

/-- A file that was written is found. -/
@[simp] theorem lookup_put_self (key : κ) (file : β) (files : List (κ × β)) :
    (put key file files).lookup key = some file := by
  rw [lookup_put, if_pos rfl]

/-- The files of a directory after one was written. -/
theorem mem_put {key : κ} {file : β} {entry : κ × β} (h : entry ∈ put key file files) :
    entry = (key, file) ∨ entry ∈ files := by
  rcases List.mem_cons.mp h with rfl | hold
  · exact .inl rfl
  · exact .inr (List.mem_filter.mp hold).1

omit [DecidableEq κ] in
/-- Keys stay distinct if some files are taken out. -/
theorem nodup_filter (p : κ × β → Bool) (hkeys : (files.map Prod.fst).Nodup) :
    ((files.filter p).map Prod.fst).Nodup :=
  hkeys.sublist (List.filter_sublist.map Prod.fst)

/-- Keys stay distinct when a file is replaced. -/
theorem nodup_put (key : κ) (file : β) (hkeys : (files.map Prod.fst).Nodup) :
    ((put key file files).map Prod.fst).Nodup := by
  rw [put, List.map_cons, List.nodup_cons]
  refine ⟨?_, nodup_filter _ hkeys⟩
  simp

/-- The listing order does not matter for replacing a file. -/
theorem put_perm (h : files.Perm other) (key : κ) (file : β) :
    (put key file files).Perm (put key file other) :=
  (h.filter _).cons _

/-- The listing order does not matter for deleting a file. -/
theorem erase_perm (h : files.Perm other) (key : κ) : (erase key files).Perm (erase key other) :=
  h.filter _

/-- Deleting a key that is not listed changes nothing. -/
theorem erase_of_notMem {key : κ} (hkey : key ∉ files.map Prod.fst) : erase key files = files := by
  apply List.filter_eq_self.mpr
  intro entry hentry
  exact bne_iff_ne.mpr fun heq => hkey (heq ▸ List.mem_map_of_mem hentry)

/-- Deleting from the middle of a listing with distinct keys. -/
theorem erase_middle {left right : List (κ × β)} {key : κ} {file : β}
    (hkeys : ((left ++ (key, file) :: right).map Prod.fst).Nodup) :
    erase key (left ++ (key, file) :: right) = left ++ right := by
  rw [List.map_append, List.map_cons, List.nodup_middle, List.nodup_cons, List.mem_append,
    not_or] at hkeys
  have hleft := erase_of_notMem hkeys.1.1
  have hright := erase_of_notMem hkeys.1.2
  unfold erase at hleft hright ⊢
  rw [List.filter_append, List.filter_cons_of_neg (by simp), hleft, hright]

/-- Replacing a file in the middle of a listing with distinct keys. -/
theorem put_middle {left right : List (κ × β)} {key : κ} {file : β} (replacement : β)
    (hkeys : ((left ++ (key, file) :: right).map Prod.fst).Nodup) :
    (put key replacement (left ++ (key, file) :: right)).Perm
      (left ++ (key, replacement) :: right) := by
  have herase := erase_middle hkeys
  unfold erase at herase
  rw [put, herase]
  exact List.perm_middle.symm

/-- Replacing a file keeps the listed keys. -/
theorem keys_put {key : κ} (file : β) (hkeys : (files.map Prod.fst).Nodup)
    (hkey : key ∈ files.map Prod.fst) :
    ((put key file files).map Prod.fst).Perm (files.map Prod.fst) := by
  obtain ⟨⟨_, old⟩, hmem, rfl⟩ := List.mem_map.mp hkey
  obtain ⟨left, right, rfl⟩ := List.append_of_mem hmem
  refine ((put_middle file hkeys).map Prod.fst).trans (List.Perm.of_eq ?_)
  rw [List.map_append, List.map_append, List.map_cons, List.map_cons]

/-- Creating a file under a new key. -/
theorem put_of_notMem {key : κ} (file : β) (hkey : key ∉ files.map Prod.fst) :
    (put key file files).Perm (files ++ [(key, file)]) := by
  have herase := erase_of_notMem hkey
  unfold erase at herase
  rw [put, herase]
  exact (List.perm_append_singleton _ _).symm

/-- The keys of a directory in ascending order. -/
def sortedKeys (files : List (ℕ × β)) : List ℕ :=
  (files.map Prod.fst).insertionSort (· ≤ ·)

/-- The sorted keys of a directory are any ascending list of the same keys. -/
theorem sortedKeys_eq {files : List (ℕ × β)} {keys : List ℕ} (h : (files.map Prod.fst).Perm keys)
    (hsorted : keys.Pairwise (· < ·)) : sortedKeys files = keys := by
  have hle : keys.Pairwise (· ≤ ·) := hsorted.imp fun hlt => Nat.le_of_lt hlt
  exact ((List.perm_insertionSort _ _).trans h).eq_of_pairwise
    (fun _ _ _ _ hab hba => Nat.le_antisymm hab hba) (List.pairwise_insertionSort _ _) hle

end Directory

end XRaft.Lib
