import Mathlib.Data.Finset.Card
import Mathlib.Tactic.Common
import XRaft.Core.Types
import XRaft.Lib.LengthPrefixed
import XRaft.Lib.Records
import XRaft.Lib.Runs
import XRaft.Lib.Sparse

/-!
# The state machine of the scenario tests

`test_state_machine.rs` keeps what was applied, by offset and in the order of the calls,
and counts the calls that came a second time to an offset. Its snapshot lists the applied
records in the order of their offsets, each behind its offset and its length; restoring
reads records until the bytes end, or end within a record.

The length is written as a `u32`, so records have to be shorter than that (`Fits`) for a
snapshot to be read back. A restored machine counts no duplicates, whatever the bytes say;
if they come from a snapshot, cut or not, there are none.
-/

namespace XRaft

open Lib

/-- Opaque application snapshot. -/
structure AppSnapshot where
  data : Bytes
  deriving DecidableEq, Repr

/-- A state machine that records every applied entry. -/
structure TestStateMachine where
  /-- Applied records by offset; the last one wins. -/
  applied : Std.ExtTreeMap UInt64 AppRecord
  /-- Every call of `apply`, in order. -/
  appliedHistory : List (UInt64 × AppRecord)
  applyOrder : List UInt64
  duplicateApplyCount : ℕ

namespace TestStateMachine

/-- A state machine to which nothing was applied. -/
def new : TestStateMachine := ⟨∅, [], [], 0⟩

/-- Forget everything, as a restart does. -/
def reset (_ : TestStateMachine) : TestStateMachine := new

/-- Whether an offset has been applied. -/
def hasApplied (machine : TestStateMachine) (offset : UInt64) : Bool :=
  machine.applied.contains offset

/-- The record applied at an offset. -/
def getApplied (machine : TestStateMachine) (offset : UInt64) : Option AppRecord :=
  machine.applied[offset]?

/-- The number of offsets that have been applied. -/
def appliedCount (machine : TestStateMachine) : ℕ := machine.applied.size

/-- The highest offset that has been applied. -/
def highestAppliedOffset (machine : TestStateMachine) : Option UInt64 :=
  machine.applied.keys.getLast?

/-- Keep a record at an offset. -/
def record (machine : TestStateMachine) (entry : UInt64 × AppRecord) : TestStateMachine :=
  { machine with
    applied := machine.applied.insert entry.1 entry.2
    appliedHistory := machine.appliedHistory ++ [entry]
    applyOrder := machine.applyOrder ++ [entry.1] }

/-- Apply a record at an offset, and count it if the offset was applied before. -/
def apply (offset : UInt64) (appRecord : AppRecord) (machine : TestStateMachine) :
    TestStateMachine :=
  let machine := if machine.applied.contains offset then
    { machine with duplicateApplyCount := machine.duplicateApplyCount + 1 } else machine
  machine.record (offset, appRecord)

/-- A record behind its offset and its length. -/
def encodeRecord (entry : UInt64 × AppRecord) : Bytes :=
  toBeBytes64 entry.1 ++ toBeBytes (UInt32.ofNat entry.2.data.length) ++ entry.2.data

/-- The applied records in the order of their offsets. -/
def snapshot (machine : TestStateMachine) : AppSnapshot :=
  ⟨machine.applied.toList.flatMap encodeRecord⟩

/-- Read records from a position on until the bytes end, or end within a record. -/
def restoreFrom (data : Bytes) (cursor : ℕ) (machine : TestStateMachine) : TestStateMachine :=
  if cursor + 12 ≤ data.length then
    let offset := ofBeBytes64 (piece data cursor 8)
    let len := (ofBeBytes (piece data (cursor + 8) 4)).toNat
    if data.length < cursor + 12 + len then machine
    else restoreFrom data (cursor + 12 + len)
      (machine.record (offset, ⟨piece data (cursor + 12) len⟩))
  else machine
termination_by data.length - cursor

/-- Replace the state by that of a snapshot. -/
def restore (appSnapshot : AppSnapshot) (_ : TestStateMachine) : TestStateMachine :=
  restoreFrom appSnapshot.data 0 new

/-- The length of a record can be written. -/
def Fits (entries : List (UInt64 × AppRecord)) : Prop :=
  ∀ entry ∈ entries, entry.2.data.length < 2 ^ 32

/-- The bytes end within a record. -/
def Torn (rest : Bytes) : Prop := rest.length < 12 + (ofBeBytes (piece rest 8 4)).toNat

variable {machine : TestStateMachine} {entry : UInt64 × AppRecord}
  {entries : List (UInt64 × AppRecord)}

@[simp] theorem length_encodeRecord (entry : UInt64 × AppRecord) :
    (encodeRecord entry).length = 12 + entry.2.data.length := by
  simp [encodeRecord]
  omega

/-- No bytes at all end a snapshot. -/
theorem torn_nil : Torn [] := by
  rw [Torn, List.length_nil]
  omega

/-- The length field of a record that fits. -/
theorem toNat_length_of_fits (hfits : entry.2.data.length < 2 ^ 32) :
    (UInt32.ofNat entry.2.data.length).toNat = entry.2.data.length := by
  rw [UInt32.toNat_ofNat', Nat.mod_eq_of_lt hfits]

/-- A proper part of a record ends a snapshot. -/
theorem torn_take (hfits : entry.2.data.length < 2 ^ 32) {count : ℕ}
    (hcount : count < (encodeRecord entry).length) : Torn ((encodeRecord entry).take count) := by
  rw [Torn, List.length_take, Nat.min_eq_left (Nat.le_of_lt hcount)]
  rw [length_encodeRecord] at hcount
  by_cases hheader : count < 12
  · omega
  · have hsplit : (encodeRecord entry).take count = toBeBytes64 entry.1 ++
        (toBeBytes (UInt32.ofNat entry.2.data.length) ++ entry.2.data.take (count - 12)) := by
      rw [encodeRecord, List.append_assoc, List.take_append, List.take_append,
        List.take_of_length_le, List.take_of_length_le, length_toBeBytes64, length_toBeBytes,
        Nat.sub_sub]
      · rw [length_toBeBytes, length_toBeBytes64]
        omega
      · rw [length_toBeBytes64]
        omega
    rw [hsplit, piece_append (length_toBeBytes64 _).symm (length_toBeBytes _).symm,
      ofBeBytes_toBeBytes, toNat_length_of_fits hfits]
    exact hcount

/-- The fields of a record between other bytes. -/
theorem pieces_of_record (before : Bytes) (entry : UInt64 × AppRecord) (after : Bytes) :
    piece (before ++ (encodeRecord entry ++ after)) before.length 8 = toBeBytes64 entry.1 ∧
      piece (before ++ (encodeRecord entry ++ after)) (before.length + 8) 4 =
        toBeBytes (UInt32.ofNat entry.2.data.length) ∧
      piece (before ++ (encodeRecord entry ++ after)) (before.length + 12) entry.2.data.length =
        entry.2.data := by
  let offset := toBeBytes64 entry.1
  let len := toBeBytes (UInt32.ofNat entry.2.data.length)
  have hoffset : offset.length = 8 := length_toBeBytes64 _
  have hlen : len.length = 4 := length_toBeBytes _
  have hdata : before ++ (encodeRecord entry ++ after) =
      before ++ (offset ++ (len ++ (entry.2.data ++ after))) := by
    simp [encodeRecord, offset, len]
  have hbehindOffset : before ++ (offset ++ (len ++ (entry.2.data ++ after))) =
      before ++ offset ++ (len ++ (entry.2.data ++ after)) := by simp
  have hbehindLen : before ++ (offset ++ (len ++ (entry.2.data ++ after))) =
      before ++ offset ++ len ++ (entry.2.data ++ after) := by simp
  rw [hdata]
  refine ⟨piece_append rfl hoffset.symm _, ?_, ?_⟩
  · rw [hbehindOffset]
    exact piece_append (by rw [List.length_append, hoffset]) hlen.symm _
  · rw [hbehindLen]
    exact piece_append (by rw [List.length_append, List.length_append, hoffset, hlen]) rfl _

/-- Reading on behind some bytes gives the records that stand there. -/
theorem restoreFrom_records (hfits : Fits entries) {rest : Bytes} (hrest : Torn rest)
    (before : Bytes) (machine : TestStateMachine) :
    restoreFrom (before ++ (entries.flatMap encodeRecord ++ rest)) before.length machine =
      entries.foldl record machine := by
  induction entries generalizing before machine with
  | nil =>
    rw [List.flatMap_nil, List.nil_append, restoreFrom]
    have hpiece : piece (before ++ rest) (before.length + 8) 4 = piece rest 8 4 := by
      rw [piece, List.drop_length_add_append, piece]
    rw [hpiece]
    have hshort : (before ++ rest).length < before.length + 12 +
        (ofBeBytes (piece rest 8 4)).toNat := by
      rw [List.length_append]
      unfold Torn at hrest
      omega
    split
    · exact if_pos hshort
    · rfl
  | cons entry entries ih =>
    obtain ⟨hentry, hentries⟩ := List.forall_mem_cons.mp hfits
    have hnext := ih hentries (before ++ encodeRecord entry) (machine.record entry)
    rw [List.flatMap_cons, List.append_assoc]
    obtain ⟨hoffset, hlen, hrecord⟩ :=
      pieces_of_record before entry (entries.flatMap encodeRecord ++ rest)
    rw [List.append_assoc, List.length_append, length_encodeRecord, ← Nat.add_assoc] at hnext
    generalize hdata : before ++ (encodeRecord entry ++ (entries.flatMap encodeRecord ++ rest)) =
      data at *
    have hlength : before.length + 12 + entry.2.data.length ≤ data.length := by
      simp only [← hdata, List.length_append, length_encodeRecord]
      omega
    rw [restoreFrom, if_pos (by omega)]
    simp only [hoffset, hlen, ofBeBytes_toBeBytes, ofBeBytes64_toBeBytes64,
      toNat_length_of_fits hentry, hrecord]
    rw [if_neg (by omega)]
    exact hnext

/-- Keeping some records, one after the other. -/
theorem foldl_record (entries : List (UInt64 × AppRecord)) (machine : TestStateMachine) :
    entries.foldl record machine = ⟨machine.applied.insertMany entries,
      machine.appliedHistory ++ entries, machine.applyOrder ++ entries.map Prod.fst,
      machine.duplicateApplyCount⟩ := by
  induction entries generalizing machine with
  | nil => simp
  | cons entry entries ih =>
    obtain ⟨offset, appRecord⟩ := entry
    simp [ih, record, Std.ExtTreeMap.insertMany_cons]

/-- The records of a map make up the map again. -/
theorem insertMany_toList (applied : Std.ExtTreeMap UInt64 AppRecord) :
    (∅ : Std.ExtTreeMap UInt64 AppRecord).insertMany applied.toList = applied := by
  apply Std.ExtTreeMap.ext_getElem?
  intro offset
  cases hfound : applied[offset]? with
  | some appRecord =>
    refine Std.ExtTreeMap.getElem?_insertMany_list_of_mem Std.ReflCmp.compare_self
      Std.ExtTreeMap.distinct_keys_toList ?_
    exact Std.ExtTreeMap.mem_toList_iff_getElem?_eq_some.mpr hfound
  | none =>
    rw [Std.ExtTreeMap.getElem?_insertMany_list_of_contains_eq_false]
    · rfl
    · have hmissing : offset ∉ applied := by
        rw [Std.ExtTreeMap.mem_iff_isSome_getElem?, hfound]
        exact Bool.false_ne_true
      rw [Std.ExtTreeMap.map_fst_toList_eq_keys]
      simpa using hmissing

/-- What a snapshot is restored to. -/
theorem restore_records (hfits : Fits entries) {rest : Bytes} (hrest : Torn rest)
    (machine : TestStateMachine) :
    restore ⟨entries.flatMap encodeRecord ++ rest⟩ machine =
      ⟨(∅ : Std.ExtTreeMap UInt64 AppRecord).insertMany entries, entries, entries.map Prod.fst,
        0⟩ := by
  have hread := restoreFrom_records hfits hrest [] new
  rw [foldl_record] at hread
  simpa [restore, new] using hread

/-- Restoring a snapshot gives the applied records back, in the order of their offsets. -/
theorem restore_snapshot (hfits : Fits machine.applied.toList) (other : TestStateMachine) :
    restore machine.snapshot other = ⟨machine.applied, machine.applied.toList,
      machine.applied.keys, 0⟩ := by
  have hread := restore_records hfits torn_nil other
  rwa [List.append_nil, insertMany_toList, Std.ExtTreeMap.map_fst_toList_eq_keys] at hread

/-- Two records, applied out of order. -/
def twoApplied : TestStateMachine := (new.apply 5 ⟨[1, 2]⟩).apply 3 ⟨[7]⟩

/-- The records of the two are short. -/
theorem fits_twoApplied : Fits twoApplied.applied.toList := by
  unfold Fits
  decide +kernel

/-- The two records come back, the one of the lower offset first. -/
theorem restore_snapshot_two :
    restore twoApplied.snapshot new = ⟨twoApplied.applied, twoApplied.applied.toList,
      twoApplied.applied.keys, 0⟩ ∧
      twoApplied.applied.keys = [3, 5] :=
  ⟨restore_snapshot fits_twoApplied new, by decide +kernel⟩

/-- The bytes of some records that are cut anywhere are restored to the records that are whole in
them. -/
theorem restore_cut_records (hfits : Fits entries) (count : ℕ) (other : TestStateMachine) :
    restore ⟨(entries.flatMap encodeRecord).take count⟩ other =
      ⟨(∅ : Std.ExtTreeMap UInt64 AppRecord).insertMany (wholeWithin encodeRecord count entries),
        wholeWithin encodeRecord count entries,
        (wholeWithin encodeRecord count entries).map Prod.fst, 0⟩ := by
  obtain ⟨lost, rest, hsplit, htake, hkept, hwhole, hlost⟩ :=
    exists_cut_piece encodeRecord entries count
  rw [hsplit] at hfits
  obtain ⟨hfitsKept, hfitsLost⟩ := List.forall_mem_append.mp hfits
  rw [htake]
  refine restore_records hfitsKept ?_ other
  cases lost with
  | nil =>
    rw [hwhole rfl]
    exact torn_nil
  | cons next lost =>
    obtain ⟨hbegin, hlength⟩ := hlost next rfl
    rw [hbegin]
    refine torn_take (hfitsLost next List.mem_cons_self) ?_
    rw [List.flatMap_append, List.length_append, List.flatMap_singleton] at hlength
    omega

/-- A snapshot that is cut anywhere is restored to the records of lowest offsets that are whole in
it. -/
theorem restore_cut (hfits : Fits machine.applied.toList) (count : ℕ) (other : TestStateMachine) :
    ∃ kept lost, machine.applied.toList = kept ++ lost ∧
      restore ⟨machine.snapshot.data.take count⟩ other =
        ⟨(∅ : Std.ExtTreeMap UInt64 AppRecord).insertMany kept, kept, kept.map Prod.fst, 0⟩ ∧
      (kept.flatMap encodeRecord).length ≤ count ∧
      ∀ next ∈ lost.head?, count < ((kept ++ [next]).flatMap encodeRecord).length := by
  obtain ⟨lost, rest, hsplit, -, hkept, -, hlost⟩ :=
    exists_cut_piece encodeRecord machine.applied.toList count
  exact ⟨_, lost, hsplit, restore_cut_records hfits count other, hkept,
    fun next hnext => (hlost next hnext).2⟩

/-- Of the two records, fourteen bytes of the snapshot hold the first one and a byte of the
second. -/
theorem restore_cut_two :
    ∃ kept lost, twoApplied.applied.toList = kept ++ lost ∧
      restore ⟨twoApplied.snapshot.data.take 14⟩ new =
        ⟨(∅ : Std.ExtTreeMap UInt64 AppRecord).insertMany kept, kept, kept.map Prod.fst, 0⟩ ∧
      (kept.flatMap encodeRecord).length ≤ 14 ∧
      ∀ next ∈ lost.head?, 14 < ((kept ++ [next]).flatMap encodeRecord).length :=
  restore_cut fits_twoApplied 14 new

/-- A call of the state machine. -/
inductive Operation where
  | apply (offset : UInt64) (appRecord : AppRecord)
  | reset
  | restore (appSnapshot : AppSnapshot)
  deriving DecidableEq, Repr

/-- The state machine after a call. -/
def step (machine : TestStateMachine) : Operation → TestStateMachine
  | .apply offset appRecord => machine.apply offset appRecord
  | .reset => machine.reset
  | .restore appSnapshot => machine.restore appSnapshot

/-- The state machine after some calls. -/
def run (operations : List Operation) : TestStateMachine := operations.foldl step new

/-- What is restored, if anything, was once a snapshot, and may have been cut since. -/
def Operation.Genuine : Operation → Prop
  | .restore appSnapshot => ∃ (source : TestStateMachine) (count : ℕ),
      Fits source.applied.toList ∧ appSnapshot.data = source.snapshot.data.take count
  | _ => True

/-- The record at an offset is the last one of the history there. -/
def Latest (machine : TestStateMachine) : Prop :=
  ∀ offset, machine.applied[offset]? = machine.appliedHistory.reverse.lookup offset

/-- Map, history, order and counter tell the same story. -/
structure Coherent (machine : TestStateMachine) : Prop where
  ordered : machine.applyOrder = machine.appliedHistory.map Prod.fst
  latest : machine.Latest
  counted : machine.applied.size + machine.duplicateApplyCount = machine.applyOrder.length

/-- A new state machine is coherent. -/
theorem new_coherent : new.Coherent := ⟨rfl, fun _ => rfl, rfl⟩

/-- A record that is kept is the latest one at its offset. -/
theorem Latest.record (h : machine.Latest) (entry : UInt64 × AppRecord) :
    (machine.record entry).Latest := by
  obtain ⟨applied, appRecord⟩ := entry
  intro offset
  simp only [TestStateMachine.record, List.reverse_append, List.reverse_singleton,
    List.singleton_append, List.lookup_cons, Std.ExtTreeMap.getElem?_insert, h offset,
    Std.LawfulEqOrd.compare_eq_iff_eq]
  by_cases hoffset : applied = offset
  · simp [hoffset]
  · rw [if_neg hoffset, beq_false_of_ne (Ne.symm hoffset)]

/-- Applying a record keeps the state machine coherent. -/
theorem Coherent.apply (h : machine.Coherent) (offset : UInt64) (appRecord : AppRecord) :
    (machine.apply offset appRecord).Coherent := by
  have hcounted := h.counted
  unfold TestStateMachine.apply
  by_cases hseen : machine.applied.contains offset = true
  · rw [if_pos hseen]
    refine ⟨by simp [TestStateMachine.record, h.ordered], Latest.record h.latest _, ?_⟩
    simp only [TestStateMachine.record, Std.ExtTreeMap.size_insert, hseen, if_true,
      List.length_append, List.length_singleton]
    omega
  · rw [if_neg hseen]
    refine ⟨by simp [TestStateMachine.record, h.ordered], Latest.record h.latest _, ?_⟩
    simp only [TestStateMachine.record, Std.ExtTreeMap.size_insert, hseen,
      Bool.false_eq_true, if_false, List.length_append, List.length_singleton]
    omega

/-- Records of different offsets make up a coherent state machine. -/
theorem coherent_of_distinct (hdistinct : entries.Pairwise fun a b => ¬ compare a.1 b.1 = .eq) :
    Coherent ⟨(∅ : Std.ExtTreeMap UInt64 AppRecord).insertMany entries, entries,
      entries.map Prod.fst, 0⟩ := by
  have hfold := foldl_record entries new
  have hlatest : (entries.foldl TestStateMachine.record new).Latest :=
    foldl_keeps TestStateMachine.record Latest (fun _ entry h _ => h.record entry)
      new_coherent.latest
      (fun _ _ => trivial)
  rw [hfold] at hlatest
  refine ⟨rfl, by simpa [new] using hlatest, ?_⟩
  rw [Std.ExtTreeMap.size_insertMany_list hdistinct (by simp)]
  simp

/-- Every call keeps the state machine coherent, if only snapshots are restored. -/
theorem Coherent.step (h : machine.Coherent) {operation : Operation}
    (hgenuine : operation.Genuine) : (machine.step operation).Coherent := by
  cases operation with
  | apply offset appRecord => exact h.apply offset appRecord
  | reset => exact new_coherent
  | restore appSnapshot =>
    obtain ⟨source, count, hfits, hdata⟩ := hgenuine
    obtain ⟨lost, -, hsplit, -⟩ := exists_cut_piece encodeRecord source.applied.toList count
    have hdistinct := source.applied.distinct_keys_toList
    rw [hsplit] at hdistinct
    have hcut : appSnapshot = ⟨(source.applied.toList.flatMap encodeRecord).take count⟩ :=
      congrArg AppSnapshot.mk hdata
    rw [TestStateMachine.step, hcut, restore_cut_records hfits]
    exact coherent_of_distinct (List.pairwise_append.mp hdistinct).1

/-- The offsets in the map are those of the order. -/
theorem Coherent.mem_keys (h : machine.Coherent) (offset : UInt64) :
    offset ∈ machine.applied.keys ↔ offset ∈ machine.applyOrder := by
  rw [Std.ExtTreeMap.mem_keys, Std.ExtTreeMap.mem_iff_isSome_getElem?, h.latest, h.ordered,
    Option.isSome_iff_ne_none, ne_eq, List.lookup_eq_none_iff]
  simp only [List.mem_reverse, not_forall, exists_prop, List.mem_map, bne_iff_ne, ne_eq, not_not,
    @eq_comm _ offset]

/-- The map has as many records as the order has different offsets. -/
theorem Coherent.size_eq (h : machine.Coherent) :
    machine.applied.size = machine.applyOrder.toFinset.card := by
  have hnodup : machine.applied.keys.Nodup := by
    refine machine.applied.ordered_keys.imp ?_
    rintro a b hlt rfl
    simp at hlt
  have hsame : machine.applied.keys.toFinset = machine.applyOrder.toFinset := by
    ext offset
    rw [List.mem_toFinset, List.mem_toFinset, h.mem_keys]
  rw [← Std.ExtTreeMap.length_keys, ← List.toFinset_card_of_nodup hnodup, hsame]

/-- The counter is zero exactly if no offset was applied twice. -/
theorem Coherent.duplicates_iff (h : machine.Coherent) :
    machine.duplicateApplyCount = 0 ↔ machine.applyOrder.Nodup := by
  have hcounted := h.counted
  rw [h.size_eq] at hcounted
  constructor
  · intro hzero
    rw [hzero, Nat.add_zero, List.card_toFinset] at hcounted
    rw [← (List.dedup_sublist machine.applyOrder).eq_of_length hcounted]
    exact List.nodup_dedup _
  · intro hnodup
    rw [List.toFinset_card_of_nodup hnodup] at hcounted
    omega

/-- Every run that restores only snapshots leaves the state machine coherent. -/
theorem run_coherent {operations : List Operation}
    (hgenuine : ∀ operation ∈ operations, operation.Genuine) : (run operations).Coherent :=
  foldl_keeps step Coherent (fun _ _ h hevent => h.step hevent) new_coherent hgenuine

/-- A call whose snapshot, if it restores one, is named by the state machine that wrote it and the
number of its bytes that are left. -/
inductive Call where
  | apply (offset : UInt64) (appRecord : AppRecord)
  | reset
  | restore (source : TestStateMachine) (count : ℕ)

/-- The call with the bytes of its snapshot. -/
def Call.operation : Call → Operation
  | .apply offset appRecord => .apply offset appRecord
  | .reset => .reset
  | .restore source count => .restore ⟨source.snapshot.data.take count⟩

/-- The snapshot of a call could be written. -/
def Call.Fits : Call → Prop
  | .restore source _ => TestStateMachine.Fits source.applied.toList
  | _ => True

/-- The records the state machine has after a call: one more after an application, none after a
reset, and after a restore the ones that are whole in the bytes. -/
def Call.recorded (records : List (UInt64 × AppRecord)) : Call → List (UInt64 × AppRecord)
  | .apply offset appRecord => records ++ [(offset, appRecord)]
  | .reset => []
  | .restore source count => wholeWithin encodeRecord count source.applied.toList

/-- The records of the last restore or reset, followed by those applied since. -/
def recorded (calls : List Call) : List (UInt64 × AppRecord) := calls.foldl Call.recorded []

/-- A call restores a snapshot, if anything. -/
theorem Call.Fits.genuine {call : Call} (h : call.Fits) : call.operation.Genuine := by
  cases call with
  | apply offset appRecord => trivial
  | reset => trivial
  | restore source count => exact ⟨source, count, h, rfl⟩

/-- A call leaves the history with the records it should have. -/
theorem Call.Fits.appliedHistory_step {call : Call} (h : call.Fits) (machine : TestStateMachine) :
    (machine.step call.operation).appliedHistory = call.recorded machine.appliedHistory := by
  cases call with
  | apply offset appRecord =>
    simp only [Call.operation, TestStateMachine.step, TestStateMachine.apply,
      TestStateMachine.record, Call.recorded]
    split <;> rfl
  | reset => rfl
  | restore source count =>
    have hrestored := restore_cut_records h count machine
    exact congrArg appliedHistory hrestored

/-- The history of a run is the records of the last restore or reset, followed by those applied
since. -/
theorem appliedHistory_run {calls : List Call} (hfits : ∀ call ∈ calls, call.Fits) :
    (run (calls.map Call.operation)).appliedHistory = recorded calls := by
  have hfold : ∀ machine : TestStateMachine,
      ((calls.map Call.operation).foldl step machine).appliedHistory =
        calls.foldl Call.recorded machine.appliedHistory := by
    induction calls with
    | nil => exact fun _ => rfl
    | cons call rest ih =>
      obtain ⟨hcall, hrest⟩ := List.forall_mem_cons.mp hfits
      intro machine
      rw [List.map_cons, List.foldl_cons, List.foldl_cons, ih hrest, hcall.appliedHistory_step]
  exact hfold new

/-- After any calls, with only snapshots restored, whole or cut: history and order are the records
of the last restore or reset followed by those applied since. The map has one record for each
offset among these, the last one, and the counter is the number of the others. -/
theorem history_exact {calls : List Call} (hfits : ∀ call ∈ calls, call.Fits) :
    let machine := run (calls.map Call.operation)
    machine.appliedHistory = recorded calls ∧
      machine.applyOrder = (recorded calls).map Prod.fst ∧
      machine.appliedCount = ((recorded calls).map Prod.fst).toFinset.card ∧
      machine.appliedCount + machine.duplicateApplyCount = (recorded calls).length ∧
      (machine.duplicateApplyCount = 0 ↔ ((recorded calls).map Prod.fst).Nodup) ∧
      (∀ offset, machine.hasApplied offset ↔ offset ∈ (recorded calls).map Prod.fst) ∧
      ∀ offset, machine.getApplied offset = (recorded calls).reverse.lookup offset := by
  intro machine
  have hhistory : machine.appliedHistory = recorded calls := appliedHistory_run hfits
  have hcoherent : machine.Coherent := by
    refine run_coherent fun operation hoperation => ?_
    obtain ⟨call, hcall, rfl⟩ := List.mem_map.mp hoperation
    exact (hfits call hcall).genuine
  have horder : machine.applyOrder = (recorded calls).map Prod.fst := by
    rw [hcoherent.ordered, hhistory]
  have hcounted := hcoherent.counted
  rw [horder, List.length_map] at hcounted
  refine ⟨hhistory, horder, ?_, hcounted, ?_, fun offset => ?_, fun offset => ?_⟩
  · rw [← horder]
    exact hcoherent.size_eq
  · rw [← horder]
    exact hcoherent.duplicates_iff
  · rw [← horder, hasApplied, ← hcoherent.mem_keys, Std.ExtTreeMap.mem_keys,
      Std.ExtTreeMap.mem_iff_contains]
  · rw [← hhistory]
    exact hcoherent.latest offset

/-- An offset is applied twice, the first of two records is restored, and one more is applied: two
records, of which one was applied since. -/
theorem history_exact_restored :
    let calls : List Call :=
      [.apply 5 ⟨[1]⟩, .apply 5 ⟨[2]⟩, .restore twoApplied 14, .apply 3 ⟨[8]⟩]
    recorded calls = [(3, ⟨[7]⟩), (3, ⟨[8]⟩)] ∧
      (run (calls.map Call.operation)).appliedHistory = recorded calls ∧
      (run (calls.map Call.operation)).appliedCount = 1 ∧
      (run (calls.map Call.operation)).duplicateApplyCount = 1 := by
  intro calls
  have hfits : ∀ call ∈ calls, call.Fits := by
    simp only [calls, List.forall_mem_cons]
    exact ⟨trivial, trivial, fits_twoApplied, trivial, by simp⟩
  have hrecorded : recorded calls = [(3, ⟨[7]⟩), (3, ⟨[8]⟩)] := by decide +kernel
  obtain ⟨hhistory, -, hcount, htotal, -⟩ := history_exact hfits
  rw [hrecorded] at hcount htotal
  have hone : (run (calls.map Call.operation)).appliedCount = 1 := by
    rw [hcount]
    decide
  rw [hone] at htotal
  exact ⟨hrecorded, hhistory, hone, Nat.add_left_cancel htotal⟩

end TestStateMachine

end XRaft
