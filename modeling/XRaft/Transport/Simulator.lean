import Mathlib.Algebra.Order.Ring.Rat
import XRaft.Core.Types

/-!
# The network simulator

`simulator.rs` wraps the channels between nodes with faults: partitions, drops, delays and
reordering, configured per directed link. All its state is behind one lock. A call takes
the lock for a moment, releases it, and takes it again later, so calls interleave at their
critical sections; the steps below are these sections. A send reads the rules of its link
first and acts on what it read, under the lock again if it has to draw a number or to
buffer its message.

A call under way is a task with the message it is about, the stage it is in and, for a
flush, the messages still to come. What the random generator draws is part of the step, a
shuffle being any function that permutes. The `f64` drop probabilities are rational
numbers, sleeping between two critical sections is the freedom of the schedule, and what a
call returns is left out.
-/

namespace XRaft

/-- A directed link: source and destination. -/
abbrev Link := NodeId × NodeId

/-- Per-link fault injection rules. -/
structure LinkRules where
  dropProbability : ℚ := 0
  delayRange : Option (ℕ × ℕ) := none
  /-- Whether to buffer and reorder messages on this link. -/
  reorder : Bool := false
  deriving DecidableEq, Repr

/-- The state behind the lock. -/
structure SimulatorState where
  linkRules : Link → Option LinkRules
  partitions : Link → Bool
  reorderBuffers : Link → Option (List RpcEnvelope)

/-- A permutation chosen by the random generator. -/
def Shuffle : Type :=
  { shuffle : List RpcEnvelope → List RpcEnvelope // ∀ messages, (shuffle messages).Perm messages }

namespace SimulatorState

/-- Change the rules of a link, creating the default ones if it has none. -/
def setRules (state : SimulatorState) (link : Link) (change : LinkRules → LinkRules) :
    SimulatorState :=
  { state with linkRules :=
      Function.update state.linkRules link (some (change ((state.linkRules link).getD {}))) }

/-- Change the rules of a link that has some. -/
def modifyRules (state : SimulatorState) (link : Link) (change : LinkRules → LinkRules) :
    SimulatorState :=
  { state with
    linkRules := Function.update state.linkRules link ((state.linkRules link).map change) }

/-- Replace the reorder buffer of a link. -/
def setBuffer (state : SimulatorState) (link : Link) (buffer : Option (List RpcEnvelope)) :
    SimulatorState :=
  { state with reorderBuffers := Function.update state.reorderBuffers link buffer }

/-- The messages buffered on a link. -/
def buffered (state : SimulatorState) (link : Link) : List RpcEnvelope :=
  (state.reorderBuffers link).getD []

/-- Enable message reordering on a link. -/
def enableReordering (state : SimulatorState) (link : Link) : SimulatorState :=
  let state := state.setRules link fun rules => { rules with reorder := true }
  state.setBuffer link (some ((state.reorderBuffers link).getD []))

/-- The critical section of `disable_reordering`: reordering ends and the buffer is taken away. -/
def disableReordering (state : SimulatorState) (link : Link) (shuffle : Shuffle) :
    List RpcEnvelope × SimulatorState :=
  let state := state.modifyRules link fun rules => { rules with reorder := false }
  match state.reorderBuffers link with
  | some buffer => (shuffle.1 buffer, state.setBuffer link none)
  | none => ([], state)

/-- The critical section of `flush_reorder_buffer`: the buffer is emptied. -/
def flushReorderBuffer (state : SimulatorState) (link : Link) (shuffle : Shuffle) :
    List RpcEnvelope × SimulatorState :=
  match state.reorderBuffers link with
  | some buffer => (shuffle.1 buffer, state.setBuffer link (some []))
  | none => ([], state)

/-- Add a message to the reorder buffer of a link, creating the buffer if there is none. -/
def push (state : SimulatorState) (link : Link) (message : RpcEnvelope) : SimulatorState :=
  state.setBuffer link (some (state.buffered link ++ [message]))

end SimulatorState

/-- The control methods that are a single critical section, `enable_reordering` among them. -/
inductive Control where
  | setDropProbability (link : Link) (probability : ℚ)
  | setDelay (link : Link) (minDelay maxDelay : ℕ)
  | clearDelay (link : Link)
  | enableReordering (link : Link)
  | partition (setA setB : List NodeId)
  | partitionOneWay (link : Link)
  | healPartition
  | healLink (link : Link)
  | reset
  deriving DecidableEq, Repr

/-- The state after a control method. -/
def Control.apply (state : SimulatorState) : Control → SimulatorState
  | .setDropProbability link probability =>
    let clamped := if probability < 0 then 0 else if 1 < probability then 1 else probability
    state.setRules link fun rules => { rules with dropProbability := clamped }
  | .setDelay link minDelay maxDelay =>
    let range := if maxDelay < minDelay then (maxDelay, minDelay) else (minDelay, maxDelay)
    state.setRules link fun rules => { rules with delayRange := some range }
  | .clearDelay link => state.modifyRules link fun rules => { rules with delayRange := none }
  | .enableReordering link => state.enableReordering link
  | .partition setA setB =>
    { state with partitions := fun link => state.partitions link ||
        (setA.contains link.1 && setB.contains link.2) ||
        (setB.contains link.1 && setA.contains link.2) }
  | .partitionOneWay link => { state with partitions := Function.update state.partitions link true }
  | .healPartition => { state with partitions := fun _ => false }
  | .healLink link => { state with partitions := Function.update state.partitions link false }
  | .reset => ⟨fun _ => none, fun _ => false, fun _ => none⟩

/-- The fault rules of a link as a call reads them. -/
structure FaultRules where
  isPartitioned : Bool
  dropProbability : ℚ
  delayRange : Option (ℕ × ℕ)
  reorder : Bool
  deriving DecidableEq, Repr

/-- Snapshot the fault rules of a link. -/
def SimulatorState.faultRules (state : SimulatorState) (link : Link) : FaultRules where
  isPartitioned := state.partitions link
  dropProbability := ((state.linkRules link).map (·.dropProbability)).getD 0
  delayRange := (state.linkRules link).bind (·.delayRange)
  reorder := ((state.linkRules link).map (·.reorder)).getD false

/-- What a call does next with the message in its hands. -/
inductive Stage where
  | rules
  | roll (rules : FaultRules)
  | buffer
  | delay (minDelay maxDelay : ℕ)
  | deliver
  deriving DecidableEq, Repr

/-- A call under way. A send may buffer its message; a flush may not, and has more messages to
come. -/
structure Task where
  link : Link
  message : RpcEnvelope
  stage : Stage
  buffers : Bool
  rest : List RpcEnvelope
  deriving DecidableEq, Repr

namespace Task

/-- The call when it is done with its message: it turns to the next one, or it has finished. -/
def next (task : Task) : Option Task :=
  match task.rest with
  | [] => none
  | message :: rest => some { task with message := message, stage := .rules, rest := rest }

/-- Past the drop check: a send buffers on a reordering link, else the message is delayed and
delivered. -/
def route (task : Task) (rules : FaultRules) : Task :=
  { task with stage :=
      if task.buffers && rules.reorder then .buffer
      else match rules.delayRange with
        | some (minDelay, maxDelay) =>
          if maxDelay ≤ minDelay then .deliver else .delay minDelay maxDelay
        | none => .deliver }

end Task

/-- The simulator, the messages put into inboxes so far with the link they came over, and the
calls under way. -/
structure Network where
  state : SimulatorState
  delivered : List (Link × RpcEnvelope)
  tasks : List Task
  /-- Whether a node has an inbox that is open. -/
  isOpen : NodeId → Bool

namespace Network

/-- A simulator between the given nodes. -/
def create (nodeIds : List NodeId) : Network :=
  ⟨⟨fun _ => none, fun _ => false, fun _ => none⟩, [], [], fun node => nodeIds.contains node⟩

/-- The next section of a call: what becomes of the network without it, and of the call. -/
def advance (network : Network) (task : Task) (roll : ℚ) : Network × Option Task :=
  match task.stage with
  | .rules =>
    let rules := network.state.faultRules task.link
    if rules.isPartitioned then (network, task.next)
    else if 0 < rules.dropProbability then (network, some { task with stage := .roll rules })
    else (network, some (task.route rules))
  | .roll rules =>
    if roll < rules.dropProbability then (network, task.next)
    else (network, some (task.route rules))
  | .buffer => ({ network with state := network.state.push task.link task.message }, task.next)
  | .delay _ _ => (network, some { task with stage := .deliver })
  | .deliver =>
    if network.isOpen task.link.2 then
      ({ network with delivered := network.delivered ++ [(task.link, task.message)] }, task.next)
    else (network, task.next)

/-- A flush has taken the messages of a buffer and will deliver them. -/
def deliverAll (network : Network) (link : Link) (drained : List RpcEnvelope × SimulatorState) :
    Network :=
  { network with
    state := drained.2
    tasks := match drained.1 with
      | [] => network.tasks
      | message :: rest => ⟨link, message, .rules, false, rest⟩ :: network.tasks }

/-- A control method, the begin of a send, the draining section of a flush, or the next section of
a call. -/
inductive Event where
  | control (control : Control)
  | send (link : Link) (message : RpcEnvelope)
  | flushReorderBuffer (link : Link) (shuffle : Shuffle)
  | disableReordering (link : Link) (shuffle : Shuffle)
  | advance (index : ℕ) (roll : ℚ)

/-- One step of the simulator. -/
def step (network : Network) : Event → Network
  | .control control => { network with state := control.apply network.state }
  | .send link message =>
    { network with tasks := ⟨link, message, .rules, true, []⟩ :: network.tasks }
  | .flushReorderBuffer link shuffle =>
    network.deliverAll link (network.state.flushReorderBuffer link shuffle)
  | .disableReordering link shuffle =>
    network.deliverAll link (network.state.disableReordering link shuffle)
  | .advance index roll =>
    match network.tasks[index]? with
    | none => network
    | some task =>
      let advanced := network.advance task roll
      { advanced.1 with tasks := advanced.2.toList ++ network.tasks.eraseIdx index }

/-- The simulator after a sequence of steps. -/
def run (network : Network) (events : List Event) : Network := events.foldl step network

/-- The messages that reached an inbox over a link. -/
def deliveredOn (network : Network) (link : Link) : List RpcEnvelope :=
  (network.delivered.filter fun entry => entry.1 == link).map Prod.snd

end Network

end XRaft
