import Mathlib.Data.List.Basic

/-!
# Firings along a run

Some events of a run fire: a timer expires, a request is sent. A firing leaves something
behind in the state. What later events keep of it is there when the next firing happens,
so that it relates every two firings of the run, in order.
-/

namespace XRaft.Lib

variable {σ ε : Type*} (step : σ → ε → σ) (fires : σ → ε → Bool)

/-- The events of a run that fire, each with the state it meets. -/
def firings : σ → List ε → List (σ × ε)
  | _, [] => []
  | state, event :: rest =>
    if fires state event then (state, event) :: firings (step state event) rest
    else firings (step state event) rest

variable {step fires} {admits : ε → Prop} {ordered : ε → ε → Prop} {left : σ × ε → σ → Prop}

/-- What a firing has left behind is there at every later firing. -/
theorem left_of_mem_firings {first : σ × ε}
    (hkeep : ∀ state event, left first state → ordered first.2 event → admits event →
      left first (step state event))
    {state : σ} (hstate : left first state) {events : List ε}
    (hevents : ∀ event ∈ events, admits event) (hlater : ∀ event ∈ events, ordered first.2 event)
    {second : σ × ε} (hmem : second ∈ firings step fires state events) :
    left first second.1 ∧ fires second.1 second.2 = true ∧ second.2 ∈ events := by
  induction events generalizing state with
  | nil => exact absurd hmem List.not_mem_nil
  | cons event rest ih =>
    obtain ⟨hevent, hrest⟩ := List.forall_mem_cons.mp hevents
    obtain ⟨horder, horders⟩ := List.forall_mem_cons.mp hlater
    have hrun : second ∈ firings step fires (step state event) rest →
        left first second.1 ∧ fires second.1 second.2 = true ∧ second.2 ∈ event :: rest := by
      intro hmem
      obtain ⟨hleft, hfires, hmem⟩ := ih (hkeep state event hstate horder hevent) hrest horders hmem
      exact ⟨hleft, hfires, List.mem_cons_of_mem event hmem⟩
    rw [firings] at hmem
    split at hmem
    · rename_i hfires
      rcases List.mem_cons.mp hmem with rfl | hmem
      · exact ⟨hstate, hfires, List.mem_cons_self⟩
      · exact hrun hmem
    · exact hrun hmem

/-- Every two firings are related if a firing leaves behind what relates it to the ones after it. -/
theorem pairwise_firings (admits : ε → Prop) (left : σ × ε → σ → Prop)
    {related : σ × ε → σ × ε → Prop}
    (hleave : ∀ state event, admits event → fires state event = true →
      left (state, event) (step state event))
    (hkeep : ∀ first state event, left first state → ordered first.2 event → admits event →
      left first (step state event))
    (hrelated : ∀ first second, left first second.1 → ordered first.2 second.2 →
      fires second.1 second.2 = true →
      related first second)
    (state : σ) {events : List ε} (hevents : ∀ event ∈ events, admits event)
    (horder : events.Pairwise ordered) : (firings step fires state events).Pairwise related := by
  induction events generalizing state with
  | nil => exact .nil
  | cons event rest ih =>
    obtain ⟨hevent, hrest⟩ := List.forall_mem_cons.mp hevents
    obtain ⟨hlater, horder⟩ := List.pairwise_cons.mp horder
    rw [firings]
    split
    · rename_i hfires
      refine List.pairwise_cons.mpr ⟨fun second hmem => ?_, ih _ hrest horder⟩
      obtain ⟨hleft, hsecond, hmem⟩ := left_of_mem_firings (hkeep (state, event))
        (hleave state event hevent hfires) hrest hlater hmem
      exact hrelated _ _ hleft (hlater _ hmem) hsecond
    · exact ih _ hrest horder

end XRaft.Lib
