import Mathlib.Data.List.Basic

/-!
# The deferred completion queue of `deferred_completion.rs`

Client futures wait here, keyed by the offset of the entry they were parked for. The
source keeps them in a `BTreeMap`; here they are a list with strictly increasing keys.
Completing and failing return the senders that were fired or dropped, in the order in
which the source visits them.
-/

namespace XRaft

/-- Parked senders by offset, in increasing order of the offsets. -/
structure DeferredCompletionQueue (σ : Type*) where
  pending : List (ℕ × List σ)
  sorted : pending.Pairwise fun a b => a.1 < b.1

namespace DeferredCompletionQueue

variable {σ : Type*}

/-- A queue with nothing parked. -/
def new : DeferredCompletionQueue σ := ⟨[], List.Pairwise.nil⟩

/-- Add a sender under its offset, after those parked there before. -/
def parkIn (offset : ℕ) (sender : σ) : List (ℕ × List σ) → List (ℕ × List σ)
  | [] => [(offset, [sender])]
  | slot :: rest =>
    if offset < slot.1 then (offset, [sender]) :: slot :: rest
    else if offset = slot.1 then (slot.1, slot.2 ++ [sender]) :: rest
    else slot :: parkIn offset sender rest

/-- Parking introduces no key but its own. -/
theorem fst_of_mem_parkIn {offset : ℕ} {sender : σ} {pending : List (ℕ × List σ)}
    {slot : ℕ × List σ} (h : slot ∈ parkIn offset sender pending) :
    slot.1 = offset ∨ ∃ other ∈ pending, other.1 = slot.1 := by
  induction pending with
  | nil =>
    rw [parkIn, List.mem_singleton] at h
    exact Or.inl (by rw [h])
  | cons first rest ih =>
    rw [parkIn] at h
    split at h
    · rcases List.mem_cons.mp h with rfl | hmem
      · exact Or.inl rfl
      · exact Or.inr ⟨slot, hmem, rfl⟩
    · split at h
      · rcases List.mem_cons.mp h with rfl | hmem
        · exact Or.inr ⟨first, List.mem_cons_self, rfl⟩
        · exact Or.inr ⟨slot, List.mem_cons_of_mem _ hmem, rfl⟩
      · rcases List.mem_cons.mp h with rfl | hmem
        · exact Or.inr ⟨slot, List.mem_cons_self, rfl⟩
        · rcases ih hmem with heq | ⟨other, hother, heq⟩
          · exact Or.inl heq
          · exact Or.inr ⟨other, List.mem_cons_of_mem _ hother, heq⟩

/-- Parking keeps the keys in order. -/
theorem parkIn_sorted (offset : ℕ) (sender : σ) {pending : List (ℕ × List σ)}
    (h : pending.Pairwise fun a b => a.1 < b.1) :
    (parkIn offset sender pending).Pairwise fun a b => a.1 < b.1 := by
  induction pending with
  | nil => exact List.pairwise_singleton _ _
  | cons first rest ih =>
    obtain ⟨hfirst, hrest⟩ := List.pairwise_cons.mp h
    rw [parkIn]
    split
    · rename_i hlt
      refine List.pairwise_cons.mpr ⟨fun slot hslot => ?_, h⟩
      rcases List.mem_cons.mp hslot with rfl | hslot
      · exact hlt
      · exact Nat.lt_trans hlt (hfirst slot hslot)
    · split
      · exact List.pairwise_cons.mpr ⟨hfirst, hrest⟩
      · rename_i hge hne
        refine List.pairwise_cons.mpr ⟨fun slot hslot => ?_, ih hrest⟩
        rcases fst_of_mem_parkIn hslot with heq | ⟨other, hother, heq⟩
        · omega
        · exact heq ▸ hfirst other hother

/-- Park a completion sender for the given offset. -/
def park (queue : DeferredCompletionQueue σ) (offset : ℕ) (sender : σ) :
    DeferredCompletionQueue σ :=
  ⟨parkIn offset sender queue.pending, parkIn_sorted offset sender queue.sorted⟩

/-- The senders of some slots, each with the offset it was parked for. -/
def senders (slots : List (ℕ × List σ)) : List (ℕ × σ) :=
  slots.flatMap fun slot => slot.2.map fun sender => (slot.1, sender)

/-- Complete all entries below the high watermark: what is fired, and what stays. -/
def complete (queue : DeferredCompletionQueue σ) (highWatermark : ℕ) :
    List (ℕ × σ) × DeferredCompletionQueue σ :=
  (senders (queue.pending.filter fun slot => slot.1 < highWatermark),
    ⟨queue.pending.filter fun slot => ¬ slot.1 < highWatermark, queue.sorted.filter _⟩)

/-- Fail all completions at or above the threshold: what is dropped, and what stays. -/
def failAtOrAbove (queue : DeferredCompletionQueue σ) (threshold : ℕ) :
    List (ℕ × σ) × DeferredCompletionQueue σ :=
  (senders (queue.pending.filter fun slot => threshold ≤ slot.1),
    ⟨queue.pending.filter fun slot => ¬ threshold ≤ slot.1, queue.sorted.filter _⟩)

/-- The senders that are parked, each with its offset. -/
def waiting (queue : DeferredCompletionQueue σ) : List (ℕ × σ) := senders queue.pending

/-- Selecting slots by offset selects their senders. -/
theorem senders_filter (slots : List (ℕ × List σ)) (p : ℕ → Bool) :
    senders (slots.filter fun slot => p slot.1) = (senders slots).filter fun x => p x.1 := by
  induction slots with
  | nil => rfl
  | cons slot rest ih =>
    have hslot : (slot.2.map fun sender => (slot.1, sender)).filter (fun x => p x.1) =
        if p slot.1 then slot.2.map fun sender => (slot.1, sender) else [] := by
      split
      · rename_i hkeep
        rw [List.filter_eq_self]
        intro x hx
        obtain ⟨sender, -, rfl⟩ := List.mem_map.mp hx
        exact hkeep
      · rename_i hdrop
        rw [List.filter_eq_nil_iff]
        intro x hx
        obtain ⟨sender, -, rfl⟩ := List.mem_map.mp hx
        exact hdrop
    unfold senders at ih ⊢
    rw [List.flatMap_cons, List.filter_append, hslot, ← ih, List.filter_cons]
    split <;> rfl

/-- Parking adds one sender to the slots. -/
theorem senders_parkIn (offset : ℕ) (sender : σ) (slots : List (ℕ × List σ)) :
    (senders (parkIn offset sender slots)).Perm ((offset, sender) :: senders slots) := by
  induction slots with
  | nil => exact List.Perm.refl _
  | cons slot rest ih =>
    unfold senders at ih ⊢
    rw [parkIn]
    split
    · exact List.Perm.refl _
    · split
      · rename_i heq
        rw [List.flatMap_cons, List.flatMap_cons, List.map_append, List.map_singleton, heq,
          List.append_assoc]
        exact List.perm_middle
      · rw [List.flatMap_cons, List.flatMap_cons]
        exact (ih.append_left _).trans List.perm_middle

/-- Parking adds one sender. -/
theorem waiting_park (queue : DeferredCompletionQueue σ) (offset : ℕ) (sender : σ) :
    (queue.park offset sender).waiting.Perm ((offset, sender) :: queue.waiting) :=
  senders_parkIn offset sender queue.pending

/-- Completing fires the senders below the watermark and keeps the others. -/
theorem waiting_complete (queue : DeferredCompletionQueue σ) (highWatermark : ℕ) :
    (queue.complete highWatermark).1 = queue.waiting.filter (fun x => x.1 < highWatermark) ∧
      (queue.complete highWatermark).2.waiting = queue.waiting.filter fun x =>
        ¬ x.1 < highWatermark :=
  ⟨senders_filter queue.pending fun offset => offset < highWatermark,
    senders_filter queue.pending fun offset => ¬ offset < highWatermark⟩

/-- Failing drops the senders at or above the threshold and keeps the others. -/
theorem waiting_failAtOrAbove (queue : DeferredCompletionQueue σ) (threshold : ℕ) :
    (queue.failAtOrAbove threshold).1 = queue.waiting.filter (fun x => threshold ≤ x.1) ∧
      (queue.failAtOrAbove threshold).2.waiting = queue.waiting.filter fun x => ¬ threshold ≤ x.1 :=
  ⟨senders_filter queue.pending fun offset => threshold ≤ offset,
    senders_filter queue.pending fun offset => ¬ threshold ≤ offset⟩

end DeferredCompletionQueue

end XRaft
