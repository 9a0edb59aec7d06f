import Mathlib.Data.List.Basic
import Mathlib.Tactic.Common

/-!
# Logs that carry configurations

Some entries of a log carry a configuration, which holds from there on. A log has a base
configuration, an offset its entries start at and an offset up to which they are
committed. The committed configuration is the last one below that offset, the effective
one the last of all. How the two move under the operations of a log is said here in terms
of the uncommitted configurations alone, so that whoever keeps track of them need not
look at the log.
-/

namespace XRaft.Lib

variable {V : Type*}

/-- The configurations among the entries, with the offsets they are at. -/
def stamped (start : ℕ) : List (Option V) → List (ℕ × V)
  | [] => []
  | none :: rest => stamped (start + 1) rest
  | some config :: rest => (start, config) :: stamped (start + 1) rest

/-- The configurations of two parts of a log, one after the other. -/
theorem stamped_append (start : ℕ) (left right : List (Option V)) :
    stamped start (left ++ right) = stamped start left ++ stamped (start + left.length) right := by
  induction left generalizing start with
  | nil => rfl
  | cons entry rest ih =>
    have hlength : start + (rest.length + 1) = start + 1 + rest.length := by omega
    cases entry <;> simp [stamped, ih, hlength]

/-- Every configuration is at an offset of the log. -/
theorem stamped_bounds {start : ℕ} {entries : List (Option V)} {config : ℕ × V}
    (h : config ∈ stamped start entries) :
    start ≤ config.1 ∧ config.1 < start + entries.length := by
  induction entries generalizing start with
  | nil => cases h
  | cons entry rest ih =>
    rw [List.length_cons]
    cases entry with
    | none =>
      have hrest := ih h
      omega
    | some first =>
      rcases List.mem_cons.mp h with rfl | hmem
      · dsimp only
        omega
      · have hrest := ih hmem
        omega

/-- The configurations below an offset are those of the entries below it. -/
theorem stamped_filter_lt (start bound : ℕ) (entries : List (Option V)) :
    (stamped start entries).filter (fun config => config.1 < bound) =
      stamped start (entries.take (bound - start)) := by
  have hsplit := stamped_append start (entries.take (bound - start)) (entries.drop (bound - start))
  rw [List.take_append_drop] at hsplit
  have hbelow : ∀ config ∈ stamped start (entries.take (bound - start)), config.1 < bound := by
    intro config hmem
    have hbounds := stamped_bounds hmem
    rw [List.length_take] at hbounds
    omega
  have habove : ∀ config ∈ stamped (start + (entries.take (bound - start)).length)
      (entries.drop (bound - start)), ¬ config.1 < bound := by
    intro config hmem
    have hbounds := stamped_bounds hmem
    rw [List.length_take, List.length_drop] at hbounds
    omega
  rw [hsplit, List.filter_append, List.filter_eq_self.mpr (by simpa using hbelow),
    List.filter_eq_nil_iff.mpr (by simpa using habove), List.append_nil]

/-- A log over a base configuration, committed up to an offset within it. -/
structure ConfigLog (V : Type*) where
  initial : ℕ × V
  start : ℕ
  entries : List (Option V)
  committed : ℕ
  start_le : start ≤ committed
  committed_le : committed ≤ start + entries.length

namespace ConfigLog

/-- The offset after the last entry. -/
def endOffset (log : ConfigLog V) : ℕ := log.start + log.entries.length

/-- The configurations in the committed part. -/
def settled (log : ConfigLog V) : List (ℕ × V) :=
  stamped log.start (log.entries.take (log.committed - log.start))

/-- The configurations in the uncommitted part. -/
def unsettled (log : ConfigLog V) : List (ℕ × V) :=
  stamped log.committed (log.entries.drop (log.committed - log.start))

/-- The last configuration in the committed part, or the base. -/
def committedConfig (log : ConfigLog V) : ℕ × V := log.settled.getLast?.getD log.initial

/-- The last configuration in the whole log, or the base. -/
def effectiveConfig (log : ConfigLog V) : ℕ × V :=
  (stamped log.start log.entries).getLast?.getD log.initial

/-- Nothing but the base configuration. -/
def install (initial : ℕ × V) (start : ℕ) : ConfigLog V :=
  ⟨initial, start, [], start, Nat.le_refl _, Nat.le_refl _⟩

/-- A fresh log is committed at its base. -/
@[simp] theorem committedConfig_install (initial : ℕ × V) (start : ℕ) :
    (install initial start).committedConfig = initial := by
  simp [committedConfig, settled, install, stamped]

/-- A fresh log has no uncommitted configuration. -/
@[simp] theorem unsettled_install (initial : ℕ × V) (start : ℕ) :
    (install initial start).unsettled = [] := by
  simp [unsettled, install, stamped]

/-- Append an entry, with or without a configuration. -/
def append (entry : Option V) (log : ConfigLog V) : ConfigLog V :=
  { log with
    entries := log.entries ++ [entry]
    committed_le := by
      rw [List.length_append]
      have := log.committed_le
      omega }

/-- Advance the commit offset. -/
def commitTo (offset : ℕ) (log : ConfigLog V) (hlow : log.committed ≤ offset)
    (hhigh : offset ≤ log.endOffset) :
    ConfigLog V :=
  { log with
    committed := offset
    start_le := Nat.le_trans log.start_le hlow
    committed_le := hhigh }

/-- Remove the entries from an uncommitted offset on. -/
def truncate (offset : ℕ) (log : ConfigLog V) (hlow : log.committed ≤ offset) : ConfigLog V :=
  { log with
    entries := log.entries.take (offset - log.start)
    committed_le := by
      rw [List.length_take]
      have := log.committed_le
      omega }

/-- The configurations are the committed ones, then the others. -/
theorem stamped_eq (log : ConfigLog V) :
    stamped log.start log.entries = log.settled ++ log.unsettled := by
  have hlength : log.start + (log.entries.take (log.committed - log.start)).length =
      log.committed := by
    have hlow := log.start_le
    have hhigh := log.committed_le
    rw [List.length_take]
    omega
  have hsplit := stamped_append log.start (log.entries.take (log.committed - log.start))
    (log.entries.drop (log.committed - log.start))
  rw [List.take_append_drop, hlength] at hsplit
  exact hsplit

/-- The effective configuration is the last uncommitted one, or the committed one. -/
theorem effectiveConfig_eq (log : ConfigLog V) :
    log.effectiveConfig = log.unsettled.getLast?.getD log.committedConfig := by
  unfold effectiveConfig committedConfig
  rw [log.stamped_eq, List.getLast?_append]
  cases log.unsettled.getLast? <;> simp

/-- Appending does not touch the committed part. -/
@[simp] theorem committedConfig_append (entry : Option V) (log : ConfigLog V) :
    (log.append entry).committedConfig = log.committedConfig := by
  have hlength : log.committed - log.start ≤ log.entries.length := by
    have hhigh := log.committed_le
    omega
  unfold committedConfig settled append
  rw [List.take_append_of_le_length hlength]

/-- An appended configuration is the last of the uncommitted ones. -/
@[simp] theorem unsettled_append (entry : Option V) (log : ConfigLog V) :
    (log.append entry).unsettled = log.unsettled ++ stamped log.endOffset [entry] := by
  have hlow := log.start_le
  have hhigh := log.committed_le
  have hend : log.committed + (log.entries.drop (log.committed - log.start)).length =
      log.endOffset := by
    rw [List.length_drop, endOffset]
    omega
  unfold unsettled append
  dsimp only
  rw [List.drop_append_of_le_length (by omega), stamped_append, hend]

/-- Committing moves the configurations below the new offset out of the uncommitted part. -/
theorem unsettled_commitTo (offset : ℕ) (log : ConfigLog V) (hlow : log.committed ≤ offset)
    (hhigh : offset ≤ log.endOffset) :
    log.unsettled = log.unsettled.filter (fun config => config.1 < offset) ++
      (log.commitTo offset hlow hhigh).unsettled := by
  have hstart := log.start_le
  unfold endOffset at hhigh
  have hlength : log.committed + ((log.entries.drop (log.committed - log.start)).take
      (offset - log.committed)).length = offset := by
    rw [List.length_take, List.length_drop]
    omega
  have hdrop : (log.entries.drop (log.committed - log.start)).drop (offset - log.committed) =
      log.entries.drop (offset - log.start) := by
    rw [List.drop_drop]
    congr 1
    omega
  unfold unsettled commitTo
  dsimp only
  rw [stamped_filter_lt]
  conv_lhs => rw [← List.take_append_drop (offset - log.committed)
    (log.entries.drop (log.committed - log.start)), stamped_append, hlength, hdrop]

/-- The last configuration moved is the committed one afterwards. -/
theorem committedConfig_commitTo (offset : ℕ) (log : ConfigLog V) (hlow : log.committed ≤ offset)
    (hhigh : offset ≤ log.endOffset) :
    (log.commitTo offset hlow hhigh).committedConfig =
      (log.unsettled.filter (fun config => config.1 < offset)).getLast?.getD
        log.committedConfig := by
  have hmoved : (log.commitTo offset hlow hhigh).settled =
      log.settled ++ log.unsettled.filter (fun config => config.1 < offset) := by
    have hbefore := log.stamped_eq
    have hafter := (log.commitTo offset hlow hhigh).stamped_eq
    rw [log.unsettled_commitTo offset hlow hhigh, ← List.append_assoc] at hbefore
    exact List.append_cancel_right (hafter.symm.trans hbefore)
  unfold committedConfig
  rw [hmoved, List.getLast?_append]
  cases (log.unsettled.filter (fun config => config.1 < offset)).getLast? <;> simp [commitTo]

/-- Truncating does not touch the committed part. -/
@[simp] theorem committedConfig_truncate (offset : ℕ) (log : ConfigLog V)
    (hlow : log.committed ≤ offset) :
    (log.truncate offset hlow).committedConfig = log.committedConfig := by
  unfold committedConfig settled truncate
  dsimp only
  rw [List.take_take, Nat.min_eq_left (by omega)]

/-- Truncating removes the uncommitted configurations from the offset on. -/
@[simp] theorem unsettled_truncate (offset : ℕ) (log : ConfigLog V)
    (hlow : log.committed ≤ offset) :
    (log.truncate offset hlow).unsettled =
      log.unsettled.filter (fun config => config.1 < offset) := by
  have hstart := log.start_le
  unfold unsettled truncate
  dsimp only
  rw [stamped_filter_lt, List.drop_take]
  congr 2
  omega

end ConfigLog

end XRaft.Lib
