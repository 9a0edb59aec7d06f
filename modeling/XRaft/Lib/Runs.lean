import Mathlib.Algebra.BigOperators.Group.List.Basic
import Mathlib.Algebra.Order.Monoid.Defs

/-!
# Runs of a step function

A system is stepped by events, and a run is the fold of its step function over a list of
events. What every admissible event keeps holds after every run of such events. An account
to which every admissible event adds its entry has, after a run, received the entries of
all its events; one to which every event adds at most its entry, at most these.

`Along` says something of every event of a run and the state it meets. Two such properties
that are equivalent at every state an invariant allows are equivalent along the run. A
step function that may fail refines one that does not along the runs whose events are
admissible for the latter.
-/

namespace XRaft.Lib

variable {σ ε M : Type*} (step : σ → ε → σ) (P : σ → Prop) {admits : ε → Prop}

/-- What every admissible event keeps holds after every run. -/
theorem foldl_keeps (hstep : ∀ state event, P state → admits event → P (step state event))
    {state : σ} (hstate : P state) {events : List ε} (hevents : ∀ event ∈ events, admits event) :
    P (events.foldl step state) := by
  induction events generalizing state with
  | nil => exact hstate
  | cons event rest ih =>
    obtain ⟨hevent, hrest⟩ := List.forall_mem_cons.mp hevents
    exact ih (hstep state event hstate hevent) hrest

/-- An account to which every event adds its entry receives the entries of the whole run. -/
theorem foldl_account [AddCommMonoid M] (account : σ → M) (entry : ε → M)
    (hstep : ∀ state event, P state → admits event → P (step state event))
    (hentry : ∀ state event, P state → admits event →
      account (step state event) = account state + entry event)
    {state : σ} (hstate : P state) {events : List ε} (hevents : ∀ event ∈ events, admits event) :
    account (events.foldl step state) = account state + (events.map entry).sum := by
  induction events generalizing state with
  | nil => rw [List.map_nil, List.sum_nil, add_zero, List.foldl_nil]
  | cons event rest ih =>
    obtain ⟨hevent, hrest⟩ := List.forall_mem_cons.mp hevents
    rw [List.foldl_cons, ih (hstep state event hstate hevent) hrest,
      hentry state event hstate hevent, List.map_cons, List.sum_cons, add_assoc]

/-- An account to which every event adds at most its entry receives at most the entries of the
whole run. -/
theorem foldl_account_le [AddCommMonoid M] [PartialOrder M] [IsOrderedAddMonoid M] (account : σ → M)
    (entry : ε → M) (hstep : ∀ state event, P state → admits event → P (step state event))
    (hentry : ∀ state event, P state → admits event →
      account (step state event) ≤ account state + entry event)
    {state : σ} (hstate : P state) {events : List ε} (hevents : ∀ event ∈ events, admits event) :
    account (events.foldl step state) ≤ account state + (events.map entry).sum := by
  induction events generalizing state with
  | nil => rw [List.map_nil, List.sum_nil, add_zero, List.foldl_nil]
  | cons event rest ih =>
    obtain ⟨hevent, hrest⟩ := List.forall_mem_cons.mp hevents
    rw [List.foldl_cons, List.map_cons, List.sum_cons, ← add_assoc]
    exact (ih (hstep state event hstate hevent) hrest).trans
      (add_le_add_left (hentry state event hstate hevent) _)

/-- Every event of a run has a property at the state it meets. -/
def Along (holds : σ → ε → Prop) : σ → List ε → Prop
  | _, [] => True
  | state, event :: rest => holds state event ∧ Along holds (step state event) rest

instance decidableAlong {holds : σ → ε → Prop} [∀ state event, Decidable (holds state event)] :
    (state : σ) → (events : List ε) → Decidable (Along step holds state events)
  | _, [] => isTrue trivial
  | state, event :: rest =>
    have : Decidable (Along step holds (step state event) rest) :=
      decidableAlong (step state event) rest
    inferInstanceAs (Decidable (_ ∧ _))

/-- Properties that agree wherever an invariant holds, and keep it, agree along every run from
there. -/
theorem along_iff {admits holds holds' : σ → ε → Prop}
    (hiff : ∀ state event, P state → admits state event → (holds state event ↔ holds' state event))
    (hkeeps : ∀ state event, P state → admits state event → holds' state event →
      P (step state event))
    {state : σ} (hstate : P state) {events : List ε} (hevents : Along step admits state events) :
    Along step holds state events ↔ Along step holds' state events := by
  induction events generalizing state with
  | nil => exact Iff.rfl
  | cons event rest ih =>
    obtain ⟨hevent, hrest⟩ := hevents
    unfold Along
    rw [hiff state event hstate hevent]
    refine and_congr_right fun hholds => ?_
    exact ih (hkeeps state event hstate hevent hholds) hrest

/-- What follows at every event from an invariant that admissible events keep holds along every
run. -/
theorem along_of_keeps {admits holds : σ → ε → Prop}
    (hstep : ∀ state event, P state → admits state event → P (step state event) ∧ holds state event)
    {state : σ} (hstate : P state) {events : List ε} (hevents : Along step admits state events) :
    Along step holds state events := by
  induction events generalizing state with
  | nil => trivial
  | cons event rest ih =>
    obtain ⟨hevent, hrest⟩ := hevents
    obtain ⟨hnext, hholds⟩ := hstep state event hstate hevent
    exact ⟨hholds, ih hnext hrest⟩

/-- A step function that may fail does not, and stays related to another one, along every run
whose events are admissible there. -/
theorem foldlM_refines {τ κ : Type*} {fallible : τ → ε → Except κ τ} {admits : σ → ε → Prop}
    (related : τ → σ → Prop)
    (hstep : ∀ concrete state event, related concrete state → admits state event →
      ∃ next, fallible concrete event = .ok next ∧ related next (step state event))
    {concrete : τ} {state : σ} (hrelated : related concrete state) {events : List ε}
    (hevents : Along step admits state events) :
    ∃ last, events.foldlM fallible concrete = .ok last ∧
      related last (events.foldl step state) := by
  induction events generalizing concrete state with
  | nil => exact ⟨concrete, rfl, hrelated⟩
  | cons event rest ih =>
    obtain ⟨hevent, hrest⟩ := hevents
    obtain ⟨next, hnext, hnextRelated⟩ := hstep concrete state event hrelated hevent
    obtain ⟨last, hlast, hlastRelated⟩ := ih hnextRelated hrest
    refine ⟨last, ?_, hlastRelated⟩
    rw [List.foldlM_cons, hnext]
    exact hlast

end XRaft.Lib
