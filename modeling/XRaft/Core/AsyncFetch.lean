import XRaft.Core.FollowerInvariant
import XRaft.Lib.LogMatching

/-!
# A follower that fetches over an asynchronous network

The world is one follower and the leaders of all terms. The follower sends fetch requests
from its periodic tick and after a truncation; requests carry no correlation id and are
never forgotten, so any leader may answer any of them at any later time. Answers are never
forgotten either, and each may be delivered late, out of order and repeatedly.

A correct answer depends on the leader's log and on the request alone. What the follower's
log looks like when the answer arrives is not part of it, and the handler does not compare
the two. The rules of a world restrict the leaders, and the answers that are delivered.
-/

namespace XRaft

open Lib

/-- The leader of one term. -/
structure Leader where
  id : NodeId
  log : List LogEntry
  highWatermark : ℕ
  deriving DecidableEq

/-- The log of the leader of a term, empty where there is none. -/
def logOf (leaders : ℕ → Option Leader) (term : ℕ) : List LogEntry :=
  match leaders term with
  | some leader => leader.log
  | none => []

/-- A fetch request, with the follower's log and the leaders at the time it was sent. -/
structure SentFetch where
  request : FetchRequest
  log : List LogEntry
  leaders : ℕ → Option Leader

/-- The log has an entry of the epoch the request names right before the offset it asks for. -/
def Matches (log : List LogEntry) (request : FetchRequest) : Prop :=
  request.fetchOffset = 0 ∨
    ∃ e, log[request.fetchOffset - 1]? = some e ∧ e.term = request.lastFetchedEpoch

instance (log : List LogEntry) (request : FetchRequest) : Decidable (Matches log request) :=
  decidable_of_iff (request.fetchOffset = 0 ∨
      (log[request.fetchOffset - 1]?).map LogEntry.term = some request.lastFetchedEpoch) (by
    rw [Option.map_eq_some_iff]
    rfl)

/-- The correct answers of the leader of a term to a request. -/
inductive Answers (term : ℕ) (leader : Leader) (sent : SentFetch) : FetchResponse → Prop where
  | entries (entries : List LogEntry) (logStartOffset : ℕ)
      (hmatch : Matches leader.log sent.request)
      (hentries : entries <+: leader.log.drop sent.request.fetchOffset) :
      Answers term leader sent
        ⟨leader.id, term, leader.highWatermark, logStartOffset, entries, none, none⟩
  | diverging (diverging : DivergingEpoch) (logStartOffset : ℕ)
      (hmatch : ¬ Matches leader.log sent.request)
      (hlow : commonPrefix sent.log (logOf sent.leaders term) ≤ diverging.endOffset)
      (hhigh : diverging.endOffset < sent.request.fetchOffset) :
      Answers term leader sent
        ⟨leader.id, term, leader.highWatermark, logStartOffset, [], some diverging, none⟩

/-- The follower, the leaders, and all requests, answers and adopted watermarks so far. -/
structure World (σ κ : Type*) where
  follower : Follower σ κ
  leaders : ℕ → Option Leader
  sent : List SentFetch
  answers : List (SentFetch × FetchResponse)
  adopted : List (ℕ × ℕ)

/-- What the leaders and their answers satisfy, and which answers may be delivered. -/
structure Rules (σ κ : Type*) where
  environment : (ℕ → Option Leader) → List (SentFetch × FetchResponse) → Prop
  delivers : World σ κ → SentFetch → FetchResponse → Prop

/-- Leaders stay leaders of their terms and their logs and watermarks only grow. -/
def Grow (leaders later : ℕ → Option Leader) : Prop :=
  ∀ term leader, leaders term = some leader → ∃ leader', later term = some leader' ∧
    leader'.id = leader.id ∧ leader.log <+: leader'.log ∧
    leader.highWatermark ≤ leader'.highWatermark

/-- Leader logs are indexed by offset and match pairwise. -/
structure LeadersMatch (leaders : ℕ → Option Leader) : Prop where
  offsets : ∀ term leader, leaders term = some leader → Consecutive LogEntry.offset 0 leader.log
  matching : ∀ term leader term' leader', leaders term = some leader →
    leaders term' = some leader' →
    LogMatching LogEntry.term leader.log leader'.log

/-- Moreover every leader holds what a leader of its own or an earlier term reported as
committed. -/
structure LeadersRetain (leaders : ℕ → Option Leader)
    (answers : List (SentFetch × FetchResponse)) : Prop extends LeadersMatch leaders where
  watermark : ∀ term leader, leaders term = some leader → leader.highWatermark ≤ leader.log.length
  retained : ∀ answer ∈ answers, ∀ term leader, answer.2.leaderEpoch ≤ term →
    leaders term = some leader →
    (logOf leaders answer.2.leaderEpoch).take answer.2.highWatermark <+: leader.log

/-- Finitely many leaders, each with its term. -/
def leaderMap (leaders : List (ℕ × Leader)) (term : ℕ) : Option Leader :=
  (leaders.find? fun x => x.1 = term).map Prod.snd

/-- A leader of the map is one of the list. -/
theorem mem_of_leaderMap {leaders : List (ℕ × Leader)} {term : ℕ} {leader : Leader}
    (h : leaderMap leaders term = some leader) : (term, leader) ∈ leaders := by
  obtain ⟨x, hfind, hx⟩ := Option.map_eq_some_iff.mp h
  have hterm : x.1 = term := by simpa using List.find?_some hfind
  rw [← hx, ← hterm]
  exact List.mem_of_find?_eq_some hfind

/-- More leaders leave the first ones alone. -/
theorem grow_append (leaders more : List (ℕ × Leader)) :
    Grow (leaderMap leaders) (leaderMap (leaders ++ more)) := by
  intro term leader hleader
  obtain ⟨x, hfind, hx⟩ := Option.map_eq_some_iff.mp hleader
  refine ⟨leader, ?_, rfl, List.prefix_rfl, le_rfl⟩
  rw [leaderMap, List.find?_append, hfind]
  exact congrArg some hx

/-- The conditions on finitely many leaders can be checked one by one. -/
theorem leadersRetain_of_list (leaders : List (ℕ × Leader))
    (answers : List (SentFetch × FetchResponse))
    (hoffsets : ∀ x ∈ leaders, Consecutive LogEntry.offset 0 x.2.log)
    (hmatching : ∀ x ∈ leaders, ∀ y ∈ leaders, LogMatching LogEntry.term x.2.log y.2.log)
    (hwatermark : ∀ x ∈ leaders, x.2.highWatermark ≤ x.2.log.length)
    (hretained : ∀ answer ∈ answers, ∀ x ∈ leaders, answer.2.leaderEpoch ≤ x.1 →
      (logOf (leaderMap leaders) answer.2.leaderEpoch).take answer.2.highWatermark <+: x.2.log) :
    LeadersRetain (leaderMap leaders) answers where
  offsets _ _ h := hoffsets _ (mem_of_leaderMap h)
  matching _ _ _ _ h h' := hmatching _ (mem_of_leaderMap h) _ (mem_of_leaderMap h')
  watermark _ _ h := hwatermark _ (mem_of_leaderMap h)
  retained answer hanswer _ _ hle h := hretained answer hanswer _ (mem_of_leaderMap h) hle

namespace World

variable {σ κ : Type*}

/-- The fetch requests among the actions of a batch. -/
def fetches (follower : Follower σ κ) (leaders : ℕ → Option Leader) (actions : List IoAction) :
    List SentFetch :=
  actions.filterMap fun
    | .sendRpc _ ⟨_, _, _, .fetchRequest request⟩ => some ⟨request, follower.state.log, leaders⟩
    | _ => none

/-- The periodic fetch tick of the follower. -/
def poll (mgr : ReplicationManager) (now : ℕ) (w : World σ κ) : World σ κ :=
  let (batch, state) := mgr.pollFetch w.follower.state now
  let follower := w.follower.update state
  { w with
    follower := follower
    sent := w.sent ++ fetches follower w.leaders (batch.getD {}).actions }

/-- The delivery of a response; a raised watermark is remembered with the leader's epoch. -/
def deliver (mgr : ReplicationManager) (env : Collaborators σ κ) (clock : Clock)
    (response : FetchResponse) (w : World σ κ) : World σ κ :=
  let (result, follower) := mgr.handleFetchResponse env clock response w.follower
  { w with
    follower := follower
    sent := w.sent ++ match result with
      | .ok result => fetches follower w.leaders result.ioBatch.actions
      | .error _ => []
    adopted := w.adopted ++
      if w.follower.state.highWatermark < follower.state.highWatermark then
        [(response.leaderEpoch, follower.state.highWatermark)]
      else [] }

/-- One step of the world. -/
inductive Step (mgr : ReplicationManager) (env : Collaborators σ κ) (rules : Rules σ κ) :
    World σ κ → World σ κ → Prop where
  | poll (w : World σ κ) (now : ℕ) : Step mgr env rules w (w.poll mgr now)
  | lead (w : World σ κ) (leaders : ℕ → Option Leader) (hgrow : Grow w.leaders leaders)
      (henv : rules.environment leaders w.answers) : Step mgr env rules w
      { w with leaders := leaders }
  | answer (w : World σ κ) (term : ℕ) (leader : Leader) (sent : SentFetch)
      (response : FetchResponse)
      (hleader : w.leaders term = some leader) (hsent : sent ∈ w.sent)
      (hanswer : Answers term leader sent response)
      (henv : rules.environment w.leaders (w.answers ++ [(sent, response)])) :
      Step mgr env rules w { w with answers := w.answers ++ [(sent, response)] }
  | deliver (w : World σ κ) (clock : Clock) (sent : SentFetch) (response : FetchResponse)
      (hanswer : (sent, response) ∈ w.answers) (hdelivers : rules.delivers w sent response) :
      Step mgr env rules w (w.deliver mgr env clock response)

/-- Finitely many steps. -/
abbrev Run (mgr : ReplicationManager) (env : Collaborators σ κ) (rules : Rules σ κ) :
    World σ κ → World σ κ → Prop :=
  Relation.ReflTransGen (Step mgr env rules)

variable {mgr : ReplicationManager} {env : Collaborators σ κ}

/-- A run under some rules is a run under weaker ones. -/
theorem Run.mono {rules weaker : Rules σ κ}
    (henv : ∀ leaders answers, rules.environment leaders answers →
      weaker.environment leaders answers)
    (hdelivers : ∀ w sent response, rules.delivers w sent response →
      weaker.delivers w sent response)
    {w later : World σ κ} (hrun : Run mgr env rules w later) : Run mgr env weaker w later := by
  refine Relation.ReflTransGen.mono (fun before after hstep => ?_) _ _ hrun
  cases hstep with
  | poll now => exact .poll before now
  | lead leaders hgrow h => exact .lead before leaders hgrow (henv _ _ h)
  | answer term leader sent response hleader hsent hanswer h =>
    exact .answer before term leader sent response hleader hsent hanswer (henv _ _ h)
  | deliver clock sent response hanswer h =>
    exact .deliver before clock sent response hanswer (hdelivers _ _ _ h)

/-- Polling changes no more than the fetch deadline of the follower. -/
theorem view_poll (w : World σ κ) (now : ℕ) :
    (w.poll mgr now).follower.state.view = w.follower.state.view := by
  unfold poll ReplicationManager.pollFetch
  split
  rename_i batch state heq
  split at heq
  · cases heq
    rfl
  · cases heq
    rfl

/-- The follower after a delivery is the handler's. -/
theorem follower_deliver (w : World σ κ) (clock : Clock) (response : FetchResponse) :
    (w.deliver mgr env clock response).follower =
      (mgr.handleFetchResponse env clock response w.follower).2 := rfl

/-- A delivery that succeeds sends the fetch requests of its batch. -/
theorem sent_deliver (w : World σ κ) (clock : Clock) (response : FetchResponse) :
    (w.deliver mgr env clock response).sent = w.sent ++
      match (mgr.handleFetchResponse env clock response w.follower).1 with
      | .ok result =>
        fetches (w.deliver mgr env clock response).follower w.leaders result.ioBatch.actions
      | .error _ => [] := rfl

/-- A delivery adopts the watermark it raises. -/
theorem adopted_deliver (w : World σ κ) (clock : Clock) (response : FetchResponse) :
    (w.deliver mgr env clock response).adopted = w.adopted ++
      if w.follower.state.highWatermark <
        (w.deliver mgr env clock response).follower.state.highWatermark then
        [(response.leaderEpoch, (w.deliver mgr env clock response).follower.state.highWatermark)]
      else [] := rfl

end World

end XRaft
