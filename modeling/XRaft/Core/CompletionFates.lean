import XRaft.Core.DeferredCompletion
import Mathlib.Data.List.Induction
import Mathlib.Data.List.Perm.Basic

/-!
# The fate of a parked sender

`complete` and `fail_at_or_above` first collect the offsets in their range and then remove
them from the map one by one, settling the senders of each. These loops are modelled here
step by step and shown to do what the queue's operations say.

A parked sender is settled by the first later call that reaches its offset: `complete` from
above, `fail_at_or_above` from below. After any sequence of calls, the senders that wait in
the queue, those that received their offset and those that were dropped are the parked
senders, each where the calls behind it put it.
-/

namespace XRaft

namespace DeferredCompletionQueue

variable {σ : Type*}

/-- Remove an offset from the map: its senders and the map without them. -/
def remove (offset : ℕ) : List (ℕ × List σ) → Option (List σ × List (ℕ × List σ))
  | [] => none
  | slot :: rest =>
    if slot.1 = offset then some (slot.2, rest)
    else (remove offset rest).map fun removed => (removed.1, slot :: removed.2)

/-- What a loop over offsets has done so far: the senders it settled, its count and the map. -/
structure Sweep (σ : Type*) where
  settled : List (ℕ × σ)
  count : ℕ
  pending : List (ℕ × List σ)

/-- Send every sender the offset, and count it. -/
def fire (offset : ℕ) (senders : List σ) (sweep : Sweep σ) : Sweep σ :=
  senders.foldl (fun sweep sender =>
    { sweep with settled := sweep.settled ++ [(offset, sender)], count := sweep.count + 1 }) sweep

/-- Drop the senders and add their number to the count. -/
def dropAll (offset : ℕ) (senders : List σ) (sweep : Sweep σ) : Sweep σ :=
  { sweep with
    settled := sweep.settled ++ senders.map fun sender => (offset, sender)
    count := sweep.count + senders.length }

/-- Remove one offset after the other and settle its senders. -/
def sweepOffsets (settle : ℕ → List σ → Sweep σ → Sweep σ) : List ℕ → Sweep σ → Sweep σ
  | [], sweep => sweep
  | offset :: rest, sweep =>
    match remove offset sweep.pending with
    | none => sweepOffsets settle rest sweep
    | some (senders, pending) =>
      sweepOffsets settle rest (settle offset senders { sweep with pending := pending })

/-- The loop of `complete`, over the offsets below the high watermark. -/
def completeLoop (queue : DeferredCompletionQueue σ) (highWatermark : ℕ) : Sweep σ :=
  sweepOffsets fire ((queue.pending.filter fun slot => slot.1 < highWatermark).map Prod.fst) ⟨[], 0,
    queue.pending⟩

/-- The loop of `fail_at_or_above`, over the offsets from the threshold on. -/
def failLoop (queue : DeferredCompletionQueue σ) (threshold : ℕ) : Sweep σ :=
  sweepOffsets dropAll ((queue.pending.filter fun slot => threshold ≤ slot.1).map Prod.fst) ⟨[], 0,
    queue.pending⟩

/-- Number of pending completions. -/
def len (queue : DeferredCompletionQueue σ) : ℕ :=
  queue.pending.foldl (fun total slot => total + slot.2.length) 0

/-- Firing senders one by one settles and counts them all. -/
theorem fire_eq_dropAll (offset : ℕ) (senders : List σ) (sweep : Sweep σ) :
    fire offset senders sweep = dropAll offset senders sweep := by
  induction senders generalizing sweep with
  | nil => simp [fire, dropAll]
  | cons sender rest ih =>
    rw [fire, List.foldl_cons]
    change fire offset rest _ = _
    rw [ih]
    simp only [dropAll, List.append_assoc, List.singleton_append, List.map_cons, List.length_cons,
      Nat.add_assoc, Nat.add_comm 1]

/-- Removing an offset that stands in the map, and once only. -/
theorem remove_append_cons {kept rest : List (ℕ × List σ)} {slot : ℕ × List σ}
    (h : ∀ other ∈ kept, other.1 < slot.1) :
    remove slot.1 (kept ++ slot :: rest) = some (slot.2, kept ++ rest) := by
  induction kept with
  | nil => simp [remove]
  | cons first others ih =>
    obtain ⟨hfirst, hothers⟩ := List.forall_mem_cons.mp h
    rw [List.cons_append, remove, if_neg (Nat.ne_of_lt hfirst), ih hothers]
    rfl

/-- A sweep over the selected offsets of a map settles their senders in order and leaves the other
slots. -/
theorem sweepOffsets_eq {settle : ℕ → List σ → Sweep σ → Sweep σ}
    (hsettle : ∀ offset senders sweep, settle offset senders sweep = dropAll offset senders sweep)
    (p : ℕ → Bool) {kept slots : List (ℕ × List σ)}
    (hsorted : (kept ++ slots).Pairwise fun a b => a.1 < b.1)
    (settled : List (ℕ × σ)) (count : ℕ) :
    sweepOffsets settle ((slots.filter fun slot => p slot.1).map Prod.fst) ⟨settled, count,
      kept ++ slots⟩ =
      ⟨settled ++ senders (slots.filter fun slot => p slot.1),
        count + (senders (slots.filter fun slot => p slot.1)).length,
        kept ++ slots.filter fun slot => !p slot.1⟩ := by
  induction slots generalizing kept settled count with
  | nil => simp [sweepOffsets, senders]
  | cons slot rest ih =>
    cases hselected : p slot.1 with
    | true =>
      have hbefore : ∀ other ∈ kept, other.1 < slot.1 :=
        fun other hother =>
          (List.pairwise_append.mp hsorted).2.2 other hother slot List.mem_cons_self
      have hrest : (kept ++ rest).Pairwise fun a b => a.1 < b.1 :=
        hsorted.sublist ((List.sublist_cons_self slot rest).append_left kept)
      have hsenders : senders (slot :: rest.filter fun slot => p slot.1) =
          (slot.2.map fun sender => (slot.1, sender)) ++
          senders (rest.filter fun slot => p slot.1) := rfl
      simp only [List.filter_cons, hselected, if_true, List.map_cons, sweepOffsets,
        remove_append_cons hbefore, hsettle, dropAll, ih hrest, hsenders, Bool.not_true,
        Bool.false_eq_true, if_false, List.append_assoc, List.length_append, List.length_map,
        Nat.add_assoc]
    | false =>
      have hmoved : kept ++ slot :: rest = (kept ++ [slot]) ++ rest := by simp
      rw [hmoved] at hsorted
      simp only [List.filter_cons, hselected, Bool.false_eq_true, if_false, Bool.not_false, if_true]
      rw [hmoved, ih hsorted, List.append_assoc, List.singleton_append]

/-- The loop of `complete` fires and counts what the operation fires, and leaves the same map. -/
theorem completeLoop_eq (queue : DeferredCompletionQueue σ) (highWatermark : ℕ) :
    queue.completeLoop highWatermark =
      ⟨(queue.complete highWatermark).1, (queue.complete highWatermark).1.length,
        (queue.complete highWatermark).2.pending⟩ := by
  have hsweep := sweepOffsets_eq fire_eq_dropAll (fun offset => decide (offset < highWatermark))
    (show ([] ++ queue.pending).Pairwise _ from queue.sorted) [] 0
  simp only [List.nil_append, Nat.zero_add] at hsweep
  rw [completeLoop, hsweep]
  simp only [complete, decide_not]

/-- The loop of `fail_at_or_above` drops and counts what the operation drops, and leaves the same
map. -/
theorem failLoop_eq (queue : DeferredCompletionQueue σ) (threshold : ℕ) :
    queue.failLoop threshold =
      ⟨(queue.failAtOrAbove threshold).1, (queue.failAtOrAbove threshold).1.length,
        (queue.failAtOrAbove threshold).2.pending⟩ := by
  have hsweep := sweepOffsets_eq (fun _ _ _ => rfl) (fun offset => decide (threshold ≤ offset))
    (show ([] ++ queue.pending).Pairwise _ from queue.sorted) [] 0
  simp only [List.nil_append, Nat.zero_add] at hsweep
  rw [failLoop, hsweep]
  simp only [failAtOrAbove, decide_not]

/-- Adding up the slots counts their senders. -/
theorem foldl_length (slots : List (ℕ × List σ)) (total : ℕ) :
    slots.foldl (fun total slot => total + slot.2.length) total =
      total + (senders slots).length := by
  induction slots generalizing total with
  | nil => rfl
  | cons slot rest ih => simp [ih, senders, Nat.add_assoc]

/-- The length of the queue is the number of senders that wait. -/
theorem len_eq (queue : DeferredCompletionQueue σ) : queue.len = queue.waiting.length := by
  rw [len, foldl_length, Nat.zero_add, waiting]

/-- Senders of ordered slots stand in the order of their offsets. -/
theorem senders_ordered {slots : List (ℕ × List σ)} (h : slots.Pairwise fun a b => a.1 < b.1) :
    (senders slots).Pairwise fun a b => a.1 ≤ b.1 := by
  refine List.pairwise_flatMap.mpr ⟨fun slot _ => ?_,
    h.imp fun hless first hfirst second hsecond => ?_⟩
  · exact List.pairwise_map.mpr (List.pairwise_of_forall fun _ _ => Nat.le_refl slot.1)
  · obtain ⟨_, -, rfl⟩ := List.mem_map.mp hfirst
    obtain ⟨_, -, rfl⟩ := List.mem_map.mp hsecond
    exact Nat.le_of_lt hless

/-- The senders of one offset. -/
def sendersAt (offset : ℕ) (senders : List (ℕ × σ)) : List (ℕ × σ) :=
  senders.filter fun x => x.1 == offset

@[simp] theorem sendersAt_append (offset : ℕ) (left right : List (ℕ × σ)) :
    sendersAt offset (left ++ right) = sendersAt offset left ++ sendersAt offset right :=
  List.filter_append left right

/-- Slots above an offset hold none of its senders. -/
theorem sendersAt_senders_eq_nil {offset : ℕ} {slots : List (ℕ × List σ)}
    (h : ∀ slot ∈ slots, offset < slot.1) : sendersAt offset (senders slots) = [] := by
  refine List.filter_eq_nil_iff.mpr fun x hx => ?_
  obtain ⟨slot, hslot, hx⟩ := List.mem_flatMap.mp hx
  obtain ⟨_, -, rfl⟩ := List.mem_map.mp hx
  simpa using Nat.ne_of_gt (h slot hslot)

/-- At any offset, a sender may stand before or behind slots above its own. -/
theorem sendersAt_swap {offset : ℕ} (sender : σ) {slots : List (ℕ × List σ)}
    (h : ∀ slot ∈ slots, offset < slot.1) (other : ℕ) :
    sendersAt other [(offset, sender)] ++ sendersAt other (senders slots) =
      sendersAt other (senders slots) ++ sendersAt other [(offset, sender)] := by
  by_cases hother : offset = other
  · rw [← hother, sendersAt_senders_eq_nil h, List.nil_append, List.append_nil]
  · have hnone : sendersAt other [(offset, sender)] = [] := by simp [sendersAt, hother]
    rw [hnone, List.nil_append, List.append_nil]

/-- A sender is parked behind those of its offset, and the other offsets keep theirs. -/
theorem sendersAt_parkIn (offset : ℕ) (sender : σ) {slots : List (ℕ × List σ)}
    (hsorted : slots.Pairwise fun a b => a.1 < b.1) (other : ℕ) :
    sendersAt other (senders (parkIn offset sender slots)) =
      sendersAt other (senders slots) ++ sendersAt other [(offset, sender)] := by
  have hcons : ∀ first others, senders (first :: others) =
      (first.2.map fun sender : σ => (first.1, sender)) ++ senders others := fun _ _ => rfl
  induction slots with
  | nil => rfl
  | cons slot rest ih =>
    obtain ⟨hslot, hrest⟩ := List.pairwise_cons.mp hsorted
    rw [parkIn]
    split_ifs with hless hequal
    · have habove : ∀ later ∈ slot :: rest, offset < later.1 :=
        List.forall_mem_cons.mpr ⟨hless,
          fun later hlater => Nat.lt_trans hless (hslot later hlater)⟩
      rw [hcons, sendersAt_append]
      exact sendersAt_swap sender habove other
    · rw [hcons, hcons, List.map_append, sendersAt_append, sendersAt_append, sendersAt_append,
        List.append_assoc, List.append_assoc, hequal]
      exact congrArg _ (sendersAt_swap sender hslot other)
    · rw [hcons, sendersAt_append, ih hrest, hcons, sendersAt_append, List.append_assoc]

/-- A call of the queue. -/
inductive Call (σ : Type*) where
  | park (offset : ℕ) (sender : σ)
  | complete (highWatermark : ℕ)
  | failAtOrAbove (threshold : ℕ)

/-- The queue, and the senders that received an offset or were dropped so far. -/
structure Lifetime (σ : Type*) where
  queue : DeferredCompletionQueue σ
  completed : List (ℕ × σ)
  failed : List (ℕ × σ)

namespace Lifetime

/-- One call, with the loops of the source. -/
def step (life : Lifetime σ) : Call σ → Lifetime σ
  | .park offset sender => { life with queue := life.queue.park offset sender }
  | .complete highWatermark =>
    { life with
      queue := ⟨(life.queue.completeLoop highWatermark).pending, by
        rw [completeLoop_eq]
        exact (life.queue.complete highWatermark).2.sorted⟩
      completed := life.completed ++ (life.queue.completeLoop highWatermark).settled }
  | .failAtOrAbove threshold =>
    { life with
      queue := ⟨(life.queue.failLoop threshold).pending, by
        rw [failLoop_eq]
        exact (life.queue.failAtOrAbove threshold).2.sorted⟩
      failed := life.failed ++ (life.queue.failLoop threshold).settled }

/-- A sequence of calls on a new queue. -/
def run (calls : List (Call σ)) : Lifetime σ := calls.foldl step ⟨new, [], []⟩

end Lifetime

/-- What has become of a parked sender. -/
inductive Fate where
  | pending
  | completed
  | failed
  deriving DecidableEq, Repr

/-- What the calls after it make of a sender parked for an offset: the first one that reaches it
settles it. -/
def fate (offset : ℕ) : List (Call σ) → Fate
  | [] => .pending
  | .park _ _ :: later => fate offset later
  | .complete highWatermark :: later =>
    if offset < highWatermark then .completed else fate offset later
  | .failAtOrAbove threshold :: later => if threshold ≤ offset then .failed else fate offset later

/-- The parked senders in the order of parking, each with its offset and its fate. -/
def parked : List (Call σ) → List ((ℕ × σ) × Fate)
  | [] => []
  | .park offset sender :: later => ((offset, sender), fate offset later) :: parked later
  | .complete _ :: later => parked later
  | .failAtOrAbove _ :: later => parked later

/-- The senders with a given fate. -/
def ofFate (wanted : Fate) (senders : List ((ℕ × σ) × Fate)) : List (ℕ × σ) :=
  (senders.filter fun x => x.2 = wanted).map Prod.fst

/-- The parked senders with a given fate, in the order of parking. -/
def withFate (calls : List (Call σ)) (wanted : Fate) : List (ℕ × σ) := ofFate wanted (parked calls)

/-- A further call settles only who is still pending. -/
def Fate.next (offset : ℕ) (call : Call σ) : Fate → Fate
  | .pending => fate offset [call]
  | settled => settled

/-- The fate after one more call. -/
theorem fate_concat (offset : ℕ) (calls : List (Call σ)) (call : Call σ) :
    fate offset (calls ++ [call]) = (fate offset calls).next offset call := by
  induction calls with
  | nil => rfl
  | cons first later ih =>
    cases first with
    | park _ _ => exact ih
    | complete highWatermark =>
      rw [List.cons_append, fate, fate]
      split_ifs
      · rfl
      · exact ih
    | failAtOrAbove threshold =>
      rw [List.cons_append, fate, fate]
      split_ifs
      · rfl
      · exact ih

/-- One more call moves the parked senders on and may park another one. -/
theorem parked_concat (calls : List (Call σ)) (call : Call σ) :
    parked (calls ++ [call]) = (parked calls).map (fun x => (x.1, x.2.next x.1.1 call)) ++
      parked [call] := by
  induction calls with
  | nil => rfl
  | cons first later ih =>
    cases first with
    | park offset sender =>
      rw [List.cons_append, parked, ih, fate_concat, parked, List.map_cons, List.cons_append]
    | complete _ => exact ih
    | failAtOrAbove _ => exact ih

/-- Settle the pending senders whose offsets are reached. -/
def settleReached (reached : ℕ → Bool) (settled : Fate) (senders : List ((ℕ × σ) × Fate)) :
    List ((ℕ × σ) × Fate) :=
  senders.map fun x => (x.1, if x.2 = .pending ∧ reached x.1.1 = true then settled else x.2)

@[simp] theorem ofFate_cons (wanted : Fate) (x : (ℕ × σ) × Fate) (rest : List ((ℕ × σ) × Fate)) :
    ofFate wanted (x :: rest) =
      if x.2 = wanted then x.1 :: ofFate wanted rest else ofFate wanted rest := by
  unfold ofFate
  rw [List.filter_cons]
  split_ifs <;> simp_all

@[simp] theorem settleReached_cons (reached : ℕ → Bool) (settled : Fate) (x : (ℕ × σ) × Fate)
    (rest : List ((ℕ × σ) × Fate)) : settleReached reached settled (x :: rest) =
      (x.1, if x.2 = .pending ∧ reached x.1.1 = true then settled else x.2) ::
        settleReached reached settled rest := rfl

section SettleReached

variable (reached : ℕ → Bool) {settled : Fate} (hsettled : settled ≠ .pending)
  (senders : List ((ℕ × σ) × Fate))

include hsettled

/-- Those that are not reached stay pending. -/
theorem ofFate_pending_settleReached : ofFate .pending (settleReached reached settled senders) =
    (ofFate .pending senders).filter fun x => !reached x.1 := by
  induction senders with
  | nil => rfl
  | cons x rest ih =>
    by_cases hpending : x.2 = .pending
    · cases hreached : reached x.1.1 with
      | true => simp [hpending, hreached, hsettled, ih]
      | false => simp [hpending, hreached, ih]
    · simp [hpending, ih]

/-- Those that are reached join the settled ones. -/
theorem ofFate_settled_settleReached : (ofFate settled (settleReached reached settled senders)).Perm
    (ofFate settled senders ++ (ofFate .pending senders).filter fun x => reached x.1) := by
  induction senders with
  | nil => exact List.Perm.refl _
  | cons x rest ih =>
    by_cases hpending : x.2 = .pending
    · cases hreached : reached x.1.1 with
      | true =>
        simpa [hpending, hreached, hsettled.symm] using (ih.cons x.1).trans List.perm_middle.symm
      | false => simpa [hpending, hreached, hsettled.symm] using ih
    · by_cases hbefore : x.2 = settled
      · simpa [hpending, hbefore, hsettled] using ih.cons x.1
      · simpa [hpending, hbefore] using ih

omit hsettled in
/-- The others keep their fate. -/
theorem ofFate_other_settleReached {other : Fate} (hother : other ≠ .pending)
    (hne : other ≠ settled) :
    ofFate other (settleReached reached settled senders) = ofFate other senders := by
  induction senders with
  | nil => rfl
  | cons x rest ih =>
    by_cases hpending : x.2 = .pending
    · cases hreached : reached x.1.1 with
      | true => simp [hpending, hreached, hne.symm, hother.symm, ih]
      | false => simp [hpending, hreached, hother.symm, ih]
    · simp [hpending, ih]

end SettleReached

/-- A park leaves the others and adds one pending sender. -/
theorem parked_park (calls : List (Call σ)) (offset : ℕ) (sender : σ) :
    parked (calls ++ [.park offset sender]) = parked calls ++ [((offset, sender), .pending)] := by
  have hsame : (fun x : (ℕ × σ) × Fate => (x.1, x.2.next x.1.1 (.park offset sender : Call σ))) =
      id := by
    funext x
    obtain ⟨entry, before⟩ := x
    cases before <;> rfl
  rw [parked_concat, hsame, List.map_id]
  rfl

/-- A call that parks nobody settles the pending senders that it reaches. -/
theorem parked_settle (calls : List (Call σ)) {call : Call σ} (hparks : parked [call] = [])
    {reached : ℕ → Bool} {settled : Fate}
    (hreached : ∀ offset,
      fate offset [call] = if reached offset = true then settled else .pending) :
    parked (calls ++ [call]) = settleReached reached settled (parked calls) := by
  rw [parked_concat, hparks, List.append_nil]
  refine List.map_congr_left fun x _ => ?_
  obtain ⟨entry, before⟩ := x
  cases before <;> simp [Fate.next, hreached]

/-- A complete call settles those below the watermark. -/
theorem parked_complete (calls : List (Call σ)) (highWatermark : ℕ) :
    parked (calls ++ [.complete highWatermark]) =
      settleReached (fun offset => decide (offset < highWatermark)) .completed (parked calls) :=
  parked_settle calls rfl fun offset => by simp [fate]

/-- A failing call settles those from the threshold on. -/
theorem parked_failAtOrAbove (calls : List (Call σ)) (threshold : ℕ) :
    parked (calls ++ [.failAtOrAbove threshold]) =
      settleReached (fun offset => decide (threshold ≤ offset)) .failed (parked calls) :=
  parked_settle calls rfl fun offset => by simp [fate]

/-- What the queue and the settled senders are after some calls: the parked senders by their
fates, and those that wait at an offset in the order of parking. -/
structure Accounts (calls : List (Call σ)) (life : Lifetime σ) : Prop where
  waiting : life.queue.waiting.Perm (withFate calls .pending)
  order : ∀ offset, sendersAt offset life.queue.waiting = sendersAt offset (withFate calls .pending)
  completed : life.completed.Perm (withFate calls .completed)
  failed : life.failed.Perm (withFate calls .failed)

/-- Selecting by offset keeps the order at each offset. -/
theorem sendersAt_filter (p : ℕ → Bool) (offset : ℕ) (senders : List (ℕ × σ)) :
    sendersAt offset (senders.filter fun x => p x.1) =
      (sendersAt offset senders).filter fun x => p x.1 := by
  simp only [sendersAt, List.filter_filter, Bool.and_comm]

variable {calls : List (Call σ)} {life : Lifetime σ}

/-- Parking keeps the accounts. -/
theorem Accounts.park (h : Accounts calls life) (offset : ℕ) (sender : σ) :
    Accounts (calls ++ [.park offset sender]) (life.step (.park offset sender)) := by
  have hpending : withFate (calls ++ [.park offset sender]) .pending =
      withFate calls .pending ++ [(offset, sender)] := by
    simp [withFate, parked_park, ofFate]
  have hothers : ∀ other, other ≠ .pending →
      withFate (calls ++ [.park offset sender]) other = withFate calls other := by
    intro other hother
    simp [withFate, parked_park, ofFate, hother.symm]
  refine ⟨?_, fun other => ?_, ?_, ?_⟩
  · rw [hpending]
    exact ((waiting_park life.queue offset sender).trans (h.waiting.cons _)).trans
      (List.perm_append_singleton _ _).symm
  · rw [hpending, sendersAt_append, ← h.order other]
    exact sendersAt_parkIn offset sender life.queue.sorted other
  · rw [hothers .completed (by decide)]
    exact h.completed
  · rw [hothers .failed (by decide)]
    exact h.failed

section Settle

variable {reached : ℕ → Bool} {settled : Fate} {more : List (Call σ)}

/-- The senders that stay in the queue are those that stay pending. -/
theorem Accounts.pending_of_settle (h : Accounts calls life) (hsettled : settled ≠ .pending)
    (hmore : parked more = settleReached reached settled (parked calls)) :
    (life.queue.waiting.filter fun x => !reached x.1).Perm (withFate more .pending) ∧
      ∀ offset, sendersAt offset (life.queue.waiting.filter fun x => !reached x.1) =
        sendersAt offset (withFate more .pending) := by
  have hpending : withFate more .pending = (withFate calls .pending).filter fun x =>
    !reached x.1 := by
    rw [withFate, hmore, ofFate_pending_settleReached reached hsettled, withFate]
  rw [hpending]
  refine ⟨h.waiting.filter _, fun offset => ?_⟩
  rw [sendersAt_filter (fun offset => !reached offset),
    sendersAt_filter (fun offset => !reached offset), h.order]

/-- The senders taken from the queue are those that become settled. -/
theorem Accounts.settled_of_settle (h : Accounts calls life) (hsettled : settled ≠ .pending)
    (hmore : parked more = settleReached reached settled (parked calls)) {done : List (ℕ × σ)}
    (hdone : done.Perm (withFate calls settled)) :
    (done ++ life.queue.waiting.filter fun x => reached x.1).Perm (withFate more settled) := by
  have hjoined := ofFate_settled_settleReached reached hsettled (parked calls)
  rw [← hmore] at hjoined
  exact (hdone.append (h.waiting.filter _)).trans hjoined.symm

/-- A settled sender keeps its fate. -/
theorem withFate_of_settle (hmore : parked more = settleReached reached settled (parked calls))
    {other : Fate} (hother : other ≠ .pending) (hne : other ≠ settled) :
    withFate more other = withFate calls other := by
  rw [withFate, hmore, ofFate_other_settleReached reached _ hother hne, withFate]

end Settle

/-- The loop of `complete` fires the senders below the watermark. -/
theorem settled_completeLoop (queue : DeferredCompletionQueue σ) (highWatermark : ℕ) :
    (queue.completeLoop highWatermark).settled = queue.waiting.filter fun x =>
      x.1 < highWatermark := by
  rw [completeLoop_eq]
  exact (waiting_complete queue highWatermark).1

/-- The loop of `fail_at_or_above` drops the senders from the threshold on. -/
theorem settled_failLoop (queue : DeferredCompletionQueue σ) (threshold : ℕ) :
    (queue.failLoop threshold).settled = queue.waiting.filter fun x => threshold ≤ x.1 := by
  rw [failLoop_eq]
  exact (waiting_failAtOrAbove queue threshold).1

/-- Completing keeps the accounts. -/
theorem Accounts.complete (h : Accounts calls life) (highWatermark : ℕ) :
    Accounts (calls ++ [.complete highWatermark]) (life.step (.complete highWatermark)) := by
  have hparked := parked_complete calls highWatermark
  have hwaiting : (life.step (.complete highWatermark)).queue.waiting =
      life.queue.waiting.filter fun x => !decide (x.1 < highWatermark) := by
    have hstays := (waiting_complete life.queue highWatermark).2
    simp only [decide_not] at hstays
    rw [← hstays]
    simp only [Lifetime.step, completeLoop_eq]
  obtain ⟨hpending, horder⟩ := h.pending_of_settle (by decide) hparked
  refine ⟨?_, ?_, ?_, ?_⟩
  · rw [hwaiting]
    exact hpending
  · rw [hwaiting]
    exact horder
  · change (life.completed ++ (life.queue.completeLoop highWatermark).settled).Perm _
    rw [settled_completeLoop]
    exact h.settled_of_settle (by decide) hparked h.completed
  · rw [withFate_of_settle hparked (by decide) (by decide)]
    exact h.failed

/-- Failing keeps the accounts. -/
theorem Accounts.failAtOrAbove (h : Accounts calls life) (threshold : ℕ) :
    Accounts (calls ++ [.failAtOrAbove threshold]) (life.step (.failAtOrAbove threshold)) := by
  have hparked := parked_failAtOrAbove calls threshold
  have hwaiting : (life.step (.failAtOrAbove threshold)).queue.waiting =
      life.queue.waiting.filter fun x => !decide (threshold ≤ x.1) := by
    have hstays := (waiting_failAtOrAbove life.queue threshold).2
    simp only [decide_not] at hstays
    rw [← hstays]
    simp only [Lifetime.step, failLoop_eq]
  obtain ⟨hpending, horder⟩ := h.pending_of_settle (by decide) hparked
  refine ⟨?_, ?_, ?_, ?_⟩
  · rw [hwaiting]
    exact hpending
  · rw [hwaiting]
    exact horder
  · rw [withFate_of_settle hparked (by decide) (by decide)]
    exact h.completed
  · change (life.failed ++ (life.queue.failLoop threshold).settled).Perm _
    rw [settled_failLoop]
    exact h.settled_of_settle (by decide) hparked h.failed

/-- One call keeps the accounts. -/
theorem Accounts.step (h : Accounts calls life) (call : Call σ) :
    Accounts (calls ++ [call]) (life.step call) := by
  cases call with
  | park offset sender => exact h.park offset sender
  | complete highWatermark => exact h.complete highWatermark
  | failAtOrAbove threshold => exact h.failAtOrAbove threshold

/-- The accounts hold after every sequence of calls. -/
theorem accounts_run (calls : List (Call σ)) : Accounts calls (Lifetime.run calls) := by
  induction calls using List.reverseRecOn with
  | nil => exact ⟨List.Perm.refl _, fun _ => rfl, List.Perm.refl _, List.Perm.refl _⟩
  | append_singleton calls call ih =>
    have hrun : Lifetime.run (calls ++ [call]) = (Lifetime.run calls).step call := by
      rw [Lifetime.run, List.foldl_append]
      rfl
    rw [hrun]
    exact ih.step call

/-- Every sender has one of the fates. -/
theorem ofFate_partition (senders : List ((ℕ × σ) × Fate)) :
    (ofFate .pending senders ++ ofFate .completed senders ++ ofFate .failed senders).Perm
      (senders.map Prod.fst) := by
  induction senders with
  | nil => exact List.Perm.refl _
  | cons x rest ih =>
    rw [List.map_cons]
    refine List.Perm.trans ?_ (ih.cons x.1)
    cases hfate : x.2 with
    | pending => simp [hfate]
    | completed => simp [hfate]
    | failed =>
      rw [ofFate_cons, ofFate_cons, ofFate_cons, if_neg (by simp [hfate]), if_neg (by simp [hfate]),
        if_pos hfate]
      exact List.perm_middle

/-- After every sequence of calls, the senders that wait, those that received their offset and
those that were dropped are the parked senders by their fates. The next `complete` fires the
pending senders below its watermark in the order of offsets, and at each offset in the order of
parking; the next `fail_at_or_above` drops the pending ones from its threshold on. Both return the
number they settle, and the length is the number that are pending. -/
theorem settled_once (calls : List (Call σ)) :
    ((Lifetime.run calls).queue.waiting ++ (Lifetime.run calls).completed ++
      (Lifetime.run calls).failed).Perm
      ((parked calls).map Prod.fst) ∧
    (Lifetime.run calls).queue.waiting.Perm (withFate calls .pending) ∧
    (Lifetime.run calls).completed.Perm (withFate calls .completed) ∧
    (Lifetime.run calls).failed.Perm (withFate calls .failed) ∧
    (Lifetime.run calls).queue.len = (withFate calls .pending).length ∧
    (∀ highWatermark, let sweep := (Lifetime.run calls).queue.completeLoop highWatermark
      sweep.settled.Perm ((withFate calls .pending).filter fun x => x.1 < highWatermark) ∧
      sweep.count = sweep.settled.length ∧
      sweep.settled.Pairwise (fun first second => first.1 ≤ second.1) ∧
      ∀ offset < highWatermark,
      sendersAt offset sweep.settled = sendersAt offset (withFate calls .pending)) ∧
    ∀ threshold, let sweep := (Lifetime.run calls).queue.failLoop threshold
      sweep.settled.Perm ((withFate calls .pending).filter fun x => threshold ≤ x.1) ∧
      sweep.count = sweep.settled.length := by
  have h := accounts_run calls
  refine ⟨?_, h.waiting, h.completed, h.failed, ?_,
    fun highWatermark => ⟨?_, ?_, ?_, fun offset hoffset => ?_⟩, fun threshold => ⟨?_, ?_⟩⟩
  · exact ((h.waiting.append h.completed).append h.failed).trans (ofFate_partition (parked calls))
  · rw [len_eq]
    exact h.waiting.length_eq
  · rw [settled_completeLoop]
    exact h.waiting.filter _
  · rw [completeLoop_eq]
  · rw [settled_completeLoop]
    exact (senders_ordered (Lifetime.run calls).queue.sorted).filter _
  · rw [settled_completeLoop, sendersAt_filter (fun offset => decide (offset < highWatermark)),
      ← h.order offset]
    refine List.filter_eq_self.mpr fun x hx => ?_
    rw [eq_of_beq (List.mem_filter.mp hx).2]
    exact decide_eq_true hoffset
  · rw [settled_failLoop]
    exact h.waiting.filter _
  · rw [failLoop_eq]

end DeferredCompletionQueue

end XRaft
