import XRaft.Core.CompletionFates

/-!
# The completion tracker of the simulation

`completion_tracker.rs` stands for the deferred completion queue in simulated runs: an offset
is tracked when it is proposed and counts as completed when the high watermark has passed it.
The tracker has no counterpart of `fail_at_or_above`. Without failures it agrees with the
queue. With them it keeps the dropped proposals as pending, and counts them as completed once
a later watermark passes their offset, although their clients saw an error.
-/

namespace XRaft

/-- Tracks pending proposals and resolves them when the high watermark advances. -/
structure CompletionTracker where
  pending : List ℕ
  completed : List ℕ
  deriving DecidableEq, Repr

namespace CompletionTracker

/-- A tracker of no proposals. -/
def new : CompletionTracker := ⟨[], []⟩

/-- Register a proposal offset as pending. -/
def track (tracker : CompletionTracker) (offset : ℕ) : CompletionTracker :=
  { tracker with pending := tracker.pending ++ [offset] }

/-- Resolve all pending proposals with offsets below the high watermark. -/
def resolve (tracker : CompletionTracker) (hw : ℕ) : CompletionTracker :=
  tracker.pending.foldl (fun swept offset =>
    if offset < hw then { swept with completed := swept.completed ++ [offset] }
    else { swept with pending := swept.pending ++ [offset] }) { tracker with pending := [] }

/-- Check if all tracked proposals have been completed. -/
def allCompleted (tracker : CompletionTracker) : Bool := tracker.pending.isEmpty

/-- The number of pending proposals. -/
def pendingCount (tracker : CompletionTracker) : ℕ := tracker.pending.length

/-- The number of completed proposals. -/
def completedCount (tracker : CompletionTracker) : ℕ := tracker.completed.length

/-- All completed offsets. -/
def completedOffsets (tracker : CompletionTracker) : List ℕ := tracker.completed

open DeferredCompletionQueue

variable {σ : Type*}

/-- The tracker is told of a call of the queue, of a failure nothing. -/
def watch (tracker : CompletionTracker) : Call σ → CompletionTracker
  | .park offset _ => tracker.track offset
  | .complete highWatermark => tracker.resolve highWatermark
  | .failAtOrAbove _ => tracker

/-- One of the calls moves the high watermark past an offset. -/
def passed (offset : ℕ) : List (Call σ) → Bool
  | [] => false
  | .complete highWatermark :: later => decide (offset < highWatermark) || passed offset later
  | _ :: later => passed offset later

/-- The offsets that are parked, in order: those passed later, or those not passed. -/
def offsets (wanted : Bool) : List (Call σ) → List ℕ
  | [] => []
  | .park offset _ :: later =>
    if passed offset later = wanted then offset :: offsets wanted later else offsets wanted later
  | _ :: later => offsets wanted later

/-- The senders the queue drops: those whose offset is passed later, or those not passed. -/
def dropped (wanted : Bool) : List (Call σ) → List (ℕ × σ)
  | [] => []
  | .park offset sender :: later =>
    if fate offset later = .failed ∧ passed offset later = wanted
      then (offset, sender) :: dropped wanted later
    else dropped wanted later
  | _ :: later => dropped wanted later

/-- The loop of `resolve` splits the pending offsets at the watermark, in order. -/
theorem resolve_eq (tracker : CompletionTracker) (hw : ℕ) :
    tracker.resolve hw = ⟨tracker.pending.filter fun offset => !decide (offset < hw),
      tracker.completed ++ tracker.pending.filter fun offset => offset < hw⟩ := by
  have hloop : ∀ (offsets : List ℕ) (swept : CompletionTracker), offsets.foldl (fun swept offset =>
      if offset < hw then { swept with completed := swept.completed ++ [offset] }
      else { swept with pending := swept.pending ++ [offset] }) swept =
        ⟨swept.pending ++ offsets.filter fun offset => !decide (offset < hw),
          swept.completed ++ offsets.filter fun offset => offset < hw⟩ := by
    intro offsets
    induction offsets with
    | nil => simp
    | cons offset rest ih =>
      intro swept
      rw [List.foldl_cons, ih]
      by_cases hbelow : offset < hw <;> simp [hbelow]
  rw [resolve, hloop]
  rfl

/-- A filter and its complement make up a list. -/
theorem filter_or_perm (p q : ℕ → Bool) (offsets : List ℕ) :
    (offsets.filter p ++ (offsets.filter fun offset => !p offset).filter q).Perm
      (offsets.filter fun offset => p offset || q offset) := by
  induction offsets with
  | nil => simp
  | cons offset rest ih =>
    cases hfirst : p offset with
    | true => simpa [hfirst] using ih
    | false =>
      cases hsecond : q offset with
      | true => simpa [hfirst, hsecond] using List.perm_middle.trans (ih.cons offset)
      | false => simpa [hfirst, hsecond] using ih

/-- What a run makes of the offsets that are pending when it starts, and of those that it parks. -/
theorem watch_run (calls : List (Call σ)) (tracker : CompletionTracker) :
    (calls.foldl watch tracker).pending =
        (tracker.pending.filter fun offset => !passed offset calls) ++ offsets false calls ∧
      (calls.foldl watch tracker).completed.Perm
        (tracker.completed ++
          ((tracker.pending.filter fun offset => passed offset calls) ++ offsets true calls)) := by
  induction calls generalizing tracker with
  | nil => simp [passed, offsets]
  | cons call later ih =>
    obtain ⟨hpending, hcompleted⟩ := ih (tracker.watch call)
    rw [List.foldl_cons]
    cases call with
    | park offset sender =>
      rw [hpending]
      refine ⟨?_, hcompleted.trans ?_⟩
      · cases hpassed : passed offset later <;> simp [watch, track, passed, offsets, hpassed]
      · cases hpassed : passed offset later <;> simp [watch, track, passed, offsets, hpassed]
    | complete hw =>
      rw [hpending]
      refine ⟨?_, hcompleted.trans ?_⟩
      · simp only [watch, resolve_eq, List.filter_filter, passed, offsets, Bool.not_or,
          Bool.and_comm]
      · simp only [watch, resolve_eq, List.append_assoc]
        refine List.Perm.append_left _ ?_
        rw [← List.append_assoc]
        exact (filter_or_perm (fun offset => decide (offset < hw)) (fun offset =>
          passed offset later) _).append_right _
    | failAtOrAbove threshold =>
      rw [hpending]
      exact ⟨rfl, hcompleted⟩

/-- A completed sender's offset was passed. -/
theorem passed_of_completed {offset : ℕ} {calls : List (Call σ)}
    (h : fate offset calls = .completed) : passed offset calls = true := by
  induction calls with
  | nil => simp [fate] at h
  | cons call later ih =>
    cases call with
    | park other sender => exact ih h
    | complete hw =>
      rw [fate] at h
      split_ifs at h with hbelow
      · simp [passed, hbelow]
      · simp [passed, ih h]
    | failAtOrAbove threshold =>
      rw [fate] at h
      split_ifs at h
      exact ih h

/-- A pending sender's offset was not passed. -/
theorem passed_of_pending {offset : ℕ} {calls : List (Call σ)} (h : fate offset calls = .pending) :
    passed offset calls = false := by
  induction calls with
  | nil => rfl
  | cons call later ih =>
    cases call with
    | park other sender => exact ih h
    | complete hw =>
      rw [fate] at h
      split_ifs at h with hbelow
      simp [passed, hbelow, ih h]
    | failAtOrAbove threshold =>
      rw [fate] at h
      split_ifs at h
      exact ih h

/-- The parked offsets by what became of their senders. -/
theorem offsets_perm (calls : List (Call σ)) :
    (offsets true calls).Perm ((withFate calls .completed ++ dropped true calls).map Prod.fst) ∧
      (offsets false calls).Perm ((withFate calls .pending ++ dropped false calls).map Prod.fst) ∧
      (withFate calls .failed).Perm (dropped true calls ++ dropped false calls) := by
  induction calls with
  | nil => simp [offsets, withFate, parked, ofFate, dropped]
  | cons call later ih =>
    obtain ⟨htrue, hfalse, hfailed⟩ := ih
    cases call with
    | park offset sender =>
      have hparked : ∀ wanted, withFate (.park offset sender :: later) wanted =
          if fate offset later = wanted then (offset, sender) :: withFate later wanted
          else withFate later wanted :=
        fun wanted => ofFate_cons wanted _ _
      simp only [hparked, offsets, dropped]
      cases hfate : fate offset later with
      | pending =>
        simp only [passed_of_pending hfate]
        simpa using ⟨by simpa using htrue, by simpa using hfalse.cons offset, hfailed⟩
      | completed =>
        simp only [passed_of_completed hfate]
        simpa using ⟨by simpa using htrue.cons offset, by simpa using hfalse, hfailed⟩
      | failed =>
        cases hpassed : passed offset later with
        | true =>
          refine ⟨?_, ?_, ?_⟩
          · simpa using (htrue.cons offset).trans (by simpa using List.perm_middle.symm)
          · simpa using hfalse
          · simpa using hfailed.cons (offset, sender)
        | false =>
          refine ⟨?_, ?_, ?_⟩
          · simpa using htrue
          · simpa using (hfalse.cons offset).trans (by simpa using List.perm_middle.symm)
          · simpa using (hfailed.cons (offset, sender)).trans List.perm_middle.symm
    | complete hw => exact ⟨htrue, hfalse, hfailed⟩
    | failAtOrAbove threshold => exact ⟨htrue, hfalse, hfailed⟩

/-- Without failures the queue drops no sender. -/
theorem dropped_eq_nil {calls : List (Call σ)} (h : ∀ threshold, .failAtOrAbove threshold ∉ calls)
    (wanted : Bool) : dropped wanted calls = [] := by
  have hfate : ∀ {later : List (Call σ)}, (∀ threshold, .failAtOrAbove threshold ∉ later) →
      ∀ offset, fate offset later ≠ .failed := by
    intro later hlater offset
    induction later with
    | nil => simp [fate]
    | cons call rest ih =>
      have hrest := ih fun threshold hmem => hlater threshold (List.mem_cons_of_mem _ hmem)
      cases call with
      | park other sender => exact hrest
      | complete hw =>
        rw [fate]
        split_ifs
        · simp
        · exact hrest
      | failAtOrAbove threshold => exact absurd List.mem_cons_self (hlater threshold)
  induction calls with
  | nil => rfl
  | cons call later ih =>
    have hlater : ∀ threshold, .failAtOrAbove threshold ∉ later :=
      fun threshold hmem => h threshold (List.mem_cons_of_mem _ hmem)
    cases call with
    | park offset sender =>
      rw [dropped, if_neg fun hboth => hfate hlater offset hboth.1]
      exact ih hlater
    | complete hw => exact ih hlater
    | failAtOrAbove threshold => exact ih hlater

/-- After every sequence of calls, the tracker has completed what the queue has completed,
together with the dropped senders whose offset a later watermark passed, and keeps the other
dropped ones as pending. Without failures its pending and completed offsets are those of the
queue. -/
theorem tracker_follows_queue (calls : List (Call σ)) :
    let life := Lifetime.run calls
    let tracker := calls.foldl watch new
    tracker.completedOffsets.Perm ((life.completed ++ dropped true calls).map Prod.fst) ∧
      tracker.pending.Perm ((life.queue.waiting ++ dropped false calls).map Prod.fst) ∧
      life.failed.Perm (dropped true calls ++ dropped false calls) ∧
      (tracker.allCompleted = true ↔ life.queue.len = 0 ∧ dropped false calls = []) ∧
      ((∀ threshold, .failAtOrAbove threshold ∉ calls) →
        tracker.completedOffsets.Perm (life.completed.map Prod.fst) ∧
        tracker.pendingCount = life.queue.len) := by
  intro life tracker
  have haccounts := accounts_run calls
  obtain ⟨hpassed, hwaiting, hfailed⟩ := offsets_perm calls
  obtain ⟨hpending, hcompleted⟩ := watch_run calls new
  simp only [new, List.filter_nil, List.nil_append] at hpending hcompleted
  have hdone : tracker.completedOffsets.Perm
      ((life.completed ++ dropped true calls).map Prod.fst) :=
    (hcompleted.trans hpassed).trans ((haccounts.completed.symm.append_right _).map _)
  have hopen : tracker.pending.Perm ((life.queue.waiting ++ dropped false calls).map Prod.fst) :=
    ((List.Perm.of_eq hpending).trans hwaiting).trans
      ((haccounts.waiting.symm.append_right _).map _)
  have hlength := hopen.length_eq
  rw [List.length_map, List.length_append, ← len_eq] at hlength
  refine ⟨hdone, hopen, haccounts.failed.trans hfailed, ?_, fun hnone => ?_⟩
  · rw [allCompleted, List.isEmpty_iff, ← List.length_eq_zero_iff, hlength, Nat.add_eq_zero_iff,
      List.length_eq_zero_iff]
  · rw [dropped_eq_nil hnone, List.append_nil] at hdone
    rw [dropped_eq_nil hnone, List.length_nil, Nat.add_zero] at hlength
    exact ⟨hdone, hlength⟩

/-- The proposal that was dropped at offset 2 counts as completed when the watermark reaches 3. -/
example : [Call.park 2 "dropped", .failAtOrAbove 1, .park 2 "kept", .complete 3].foldl watch new =
      ⟨[], [2, 2]⟩ ∧
    dropped true [Call.park 2 "dropped", .failAtOrAbove 1, .park 2 "kept", .complete 3] =
      [(2, "dropped")] := by
  decide

end CompletionTracker

end XRaft
