import XRaft.Lib.Runs

/-!
# Monitors

A monitor watches a sequence of observations, each of a key and a value. It keeps the last
value of every key and compares a new value with it. For a transitive relation, comparing
consecutive values of each key is comparing all of them in order.

A monitor that raises an error at the first observation it does not accept goes through a
sequence exactly if every observation is accepted at the state it meets.
-/

namespace XRaft.Lib

variable {κ α σ ε : Type*} [DecidableEq κ]

/-- Keep the value of an observation as the last one of its key. -/
def observe (seen : κ → Option α) (observation : κ × α) : κ → Option α :=
  Function.update seen observation.1 (some observation.2)

/-- The value of an observation is related to the last one of its key, if there is one. -/
def Follows (related : α → α → Prop) (seen : κ → Option α) (observation : κ × α) : Prop :=
  ∀ last, seen observation.1 = some last → related last observation.2

/-- Consecutive observations of a key are related exactly if all observations of it are, in
order. -/
theorem along_follows {related : α → α → Prop}
    (htrans : ∀ a b c, related a b → related b c → related a c) (seen : κ → Option α)
    (observations : List (κ × α)) :
    Along observe (Follows related) seen observations ↔
      (∀ observation ∈ observations, Follows related seen observation) ∧
        observations.Pairwise fun first second => first.1 = second.1 →
          related first.2 second.2 := by
  induction observations generalizing seen with
  | nil => simp [Along]
  | cons observation rest ih =>
    rw [Along, ih, List.forall_mem_cons, List.pairwise_cons, and_assoc]
    refine and_congr_right fun hfollows => ?_
    rw [← and_assoc]
    refine and_congr_left fun _ => ?_
    constructor
    · intro h
      refine ⟨fun later hlater last hlast => ?_, fun later hlater hkey => ?_⟩
      · by_cases hkey : later.1 = observation.1
        · -- the value in between is related to both
          have hbetween :=
            h later hlater observation.2 (by rw [observe, hkey, Function.update_self])
          exact htrans _ _ _ (hfollows last (hkey ▸ hlast)) hbetween
        · exact h later hlater last (by rw [observe, Function.update_of_ne hkey, hlast])
      · exact h later hlater observation.2 (by rw [observe, hkey, Function.update_self])
    · rintro ⟨hold, hnew⟩ later hlater last hlast
      by_cases hkey : later.1 = observation.1
      · rw [observe, hkey, Function.update_self, Option.some.injEq] at hlast
        exact hlast ▸ hnew later hlater hkey.symm
      · rw [observe, Function.update_of_ne hkey] at hlast
        exact hold later hlater last hlast

omit [DecidableEq κ]

/-- What an event must be in itself, it must be wherever it stands in a run. -/
theorem along_and (step : σ → κ → σ) (good : κ → Prop) (holds : σ → κ → Prop) (state : σ)
    (events : List κ) :
    Along step (fun state event => good event ∧ holds state event) state events ↔
      (∀ event ∈ events, good event) ∧ Along step holds state events := by
  induction events generalizing state with
  | nil => simp [Along]
  | cons event rest ih =>
    rw [Along, Along, ih, List.forall_mem_cons]
    tauto

/-- A step function that may fail goes through a run exactly if each event is accepted at the
state it meets. -/
theorem foldlM_ok_iff {fallible : σ → κ → Except ε σ} {step : σ → κ → σ} {accepts : σ → κ → Prop}
    (hok : ∀ state event, accepts state event → fallible state event = .ok (step state event))
    (herror : ∀ state event, ¬ accepts state event → ∃ raised, fallible state event = .error raised)
    (state : σ) (events : List κ) :
    (∃ last, events.foldlM fallible state = .ok last) ↔ Along step accepts state events := by
  induction events generalizing state with
  | nil => exact ⟨fun _ => trivial, fun _ => ⟨state, rfl⟩⟩
  | cons event rest ih =>
    rw [Along, List.foldlM_cons]
    by_cases haccepts : accepts state event
    · rw [hok state event haccepts, ← ih]
      exact ⟨fun h => ⟨haccepts, h⟩, fun h => h.2⟩
    · obtain ⟨raised, hraised⟩ := herror state event haccepts
      rw [hraised]
      exact ⟨nofun, fun h => absurd h.1 haccepts⟩

/-- Step functions that agree on the events of a run agree on the run. -/
theorem foldlM_congr {first second : σ → κ → Except ε σ} {events : List κ}
    (h : ∀ state, ∀ event ∈ events, first state event = second state event) (state : σ) :
    events.foldlM first state = events.foldlM second state := by
  induction events generalizing state with
  | nil => rfl
  | cons event rest ih =>
    obtain ⟨hevent, hrest⟩ := forall_and.mp fun state => List.forall_mem_cons.mp (h state)
    rw [List.foldlM_cons, List.foldlM_cons, hevent]
    congr 1
    funext next
    exact ih hrest next

/-- Events that come in groups are gone through one by one. -/
theorem foldlM_flatMap {τ : Type*} (fallible : σ → κ → Except ε σ) (group : τ → List κ)
    (groups : List τ) (state : σ) :
    groups.foldlM (fun state g => (group g).foldlM fallible state) state =
      (groups.flatMap group).foldlM fallible state := by
  induction groups generalizing state with
  | nil => rfl
  | cons g rest ih =>
    rw [List.foldlM_cons, List.flatMap_cons, List.foldlM_append]
    congr 1
    funext next
    exact ih next

end XRaft.Lib
