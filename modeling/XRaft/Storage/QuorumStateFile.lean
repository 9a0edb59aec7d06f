import XRaft.Lib.AtomicReplace
import XRaft.Storage.Segment

/-!
# The quorum state file

`quorum_state_file.rs`: the voting state of a node as a JSON file, which `save` replaces
through a temporary file named by the process id, and a copy of it in memory, which `load`
returns. Each step of a save can fail, and the process can crash at each of them, also
between the rename and the update of the copy.

A run is any sequence of starts, saves and crashes on one directory. The file is always
what the last save with a rename wrote. In a process, a save renames exactly if it returns
`Ok`, so the copy in memory is that of the last such save, or what `open` found.

Saves hold the lock, so they do not overlap. `serde_json` is a parameter, and reading the
file does not fail. A rename that fails has not happened.
-/

namespace XRaft

open Lib

/-- `serde_json` on quorum states: serialising may fail, deserialising undoes it. -/
structure QuorumJson where
  toStringPretty : QuorumState → Except String String
  fromStr : String → Except String QuorumState
  fromStr_toStringPretty : ∀ state text, toStringPretty state = .ok text → fromStr text = .ok state

/-- The copy of the quorum state that a process keeps. -/
structure QuorumStateFile where
  cached : Option QuorumState
  deriving DecidableEq, Repr

namespace QuorumStateFile

/-- The file `quorum-state` and the temporary files, by process id. -/
abbrev Files := Replaceable ℕ String

/-- Read the quorum state, if there is one. -/
def openFile (json : QuorumJson) (files : Files) : Except StorageError QuorumStateFile :=
  match files.target with
  | none => .ok ⟨none⟩
  | some data =>
    match json.fromStr data with
    | .error e => .error (.corruption s!"quorum-state parse error: {e}")
    | .ok state => .ok ⟨some state⟩

/-- The saved quorum state, from memory. -/
def load (file : QuorumStateFile) : Option QuorumState := file.cached

/-- How the environment lets a save end. -/
inductive Fate where
  | completes
  | fails (stop : ReplaceStop String) (reason : String)
  | crashes (stop : ReplaceStop String)
  | crashesAfterRename
  deriving DecidableEq, Repr

/-- What a save returns, unless the process crashes, the copy in memory and the changes of the
files. -/
structure Saved where
  result : Option (Except StorageError Unit)
  file : QuorumStateFile
  ops : List (ReplaceOp ℕ String)

/-- Save a quorum state through a temporary file. -/
def save (json : QuorumJson) (processId : ℕ) (state : QuorumState) (fate : Fate)
    (file : QuorumStateFile) : Saved :=
  match json.toStringPretty state with
  | .error e => ⟨some (.error (.serialization s!"quorum-state serialize: {e}")), file, []⟩
  | .ok text =>
    match fate with
    | .completes => ⟨some (.ok ()), ⟨some state⟩, replaceOps processId text none⟩
    | .fails stop reason =>
      ⟨some (.error (.io reason)), file, replaceOps processId text (some stop)⟩
    | .crashes stop => ⟨none, file, replaceOps processId text (some stop)⟩
    | .crashesAfterRename => ⟨none, file, replaceOps processId text none⟩

/-- A call of `save` in a run: the state it was given, its result and whether its rename took
place. -/
structure Call where
  state : QuorumState
  result : Option (Except StorageError Unit)
  renamed : Bool

/-- Whether the call returned `Ok`. -/
def Call.isOk (call : Call) : Bool :=
  match call.result with
  | some (.ok _) => true
  | _ => false

/-- The state of the last call whose rename took place. -/
def lastRenamed (calls : List Call) : Option QuorumState :=
  (calls.reverse.find? Call.renamed).map Call.state

/-- The state of the last call that returned `Ok`. -/
def lastOk (calls : List Call) : Option QuorumState :=
  (calls.reverse.find? Call.isOk).map Call.state

/-- A live process: its id, what `open` returned, the calls it made and its copy of the state. -/
structure Process where
  id : ℕ
  found : Option QuorumState
  calls : List Call
  file : QuorumStateFile

/-- The files, the process that uses them if one is live, and all calls of `save` so far. -/
structure World where
  files : Files
  process : Option Process
  history : List Call

/-- A directory in which no quorum state was saved, perhaps with old temporary files. -/
def World.initial (temps : ℕ → Option String) : World := ⟨⟨none, temps⟩, none, []⟩

/-- What can happen next. -/
inductive Event where
  | start (processId : ℕ)
  | save (state : QuorumState) (fate : Fate)
  | crash

namespace World

/-- A process starts and opens the file, unless one is live or the file cannot be read. -/
def start (json : QuorumJson) (processId : ℕ) (world : World) : World :=
  match world.process, openFile json world.files with
  | none, .ok file => { world with process := some ⟨processId, file.load, [], file⟩ }
  | _, _ => world

/-- The live process calls `save`, and is gone if it crashes on the way. -/
def save (json : QuorumJson) (state : QuorumState) (fate : Fate) (world : World) : World :=
  match world.process with
  | none => world
  | some process =>
    let saved := process.file.save json process.id state fate
    let call : Call := ⟨state, saved.result, decide (.rename process.id ∈ saved.ops)⟩
    { files := ReplaceOp.applyAll saved.ops world.files
      process := saved.result.map fun _ =>
        { process with calls := process.calls ++ [call], file := saved.file }
      history := world.history ++ [call] }

/-- The world after an event. -/
def step (json : QuorumJson) (world : World) : Event → World
  | .start processId => world.start json processId
  | .save state fate => world.save json state fate
  | .crash => { world with process := none }

/-- The world after a sequence of events. -/
def run (json : QuorumJson) (world : World) (events : List Event) : World :=
  events.foldl (step json) world

end World

section

variable {json : QuorumJson} {world : World}

/-- One more call is the last one with a rename, or leaves it as it was. -/
theorem lastRenamed_append (calls : List Call) (call : Call) :
    lastRenamed (calls ++ [call]) =
      if call.renamed then some call.state else lastRenamed calls := by
  unfold lastRenamed
  rw [List.reverse_append, List.reverse_singleton, List.singleton_append, List.find?_cons]
  cases call.renamed <;> rfl

/-- One more call is the last one that returned `Ok`, or leaves it as it was. -/
theorem lastOk_append (calls : List Call) (call : Call) :
    lastOk (calls ++ [call]) = if call.isOk then some call.state else lastOk calls := by
  unfold lastOk
  rw [List.reverse_append, List.reverse_singleton, List.singleton_append, List.find?_cons]
  cases call.isOk <;> rfl

/-- What a save does. With a rename the file becomes the new state and without one it stays;
unless the process crashes, the save returns `Ok` exactly if it renames, and the copy in memory
follows the file. -/
structure Replaces (json : QuorumJson) (processId : ℕ) (state : QuorumState)
    (before : QuorumStateFile) (saved : Saved) : Prop where
  renamed : .rename processId ∈ saved.ops → ∀ files,
    openFile json (ReplaceOp.applyAll saved.ops files) = .ok ⟨some state⟩
  kept : .rename processId ∉ saved.ops → ∀ files, (ReplaceOp.applyAll saved.ops files).target =
    files.target
  ok : ∀ result, saved.result = some result → (result = .ok () ↔ .rename processId ∈ saved.ops)
  cached : saved.result ≠ none → saved.file = if .rename processId ∈ saved.ops
    then ⟨some state⟩ else before

/-- A target with the text of a state opens as the state. -/
theorem openFile_of_target {files : Files} {state : QuorumState} {text : String}
    (htext : json.toStringPretty state = .ok text) (htarget : files.target = some text) :
    openFile json files = .ok ⟨some state⟩ := by
  simp only [openFile, htarget, json.fromStr_toStringPretty state text htext]

/-- Opening depends on the target only. -/
theorem openFile_congr {files other : Files} (htarget : other.target = files.target) :
    openFile json other = openFile json files := by
  unfold openFile
  rw [htarget]

/-- Every save does what a replacement should, wherever it ends. -/
theorem save_replaces (json : QuorumJson) (processId : ℕ) (state : QuorumState) (fate : Fate)
    (file : QuorumStateFile) :
    Replaces json processId state file (file.save json processId state fate) := by
  unfold save
  cases htext : json.toStringPretty state with
  | error e => constructor <;> simp [ReplaceOp.applyAll]
  | ok text =>
    cases fate with
    | completes =>
      exact ⟨fun _ files => openFile_of_target htext (target_replace processId text files), by simp,
        by simp, by simp⟩
    | crashesAfterRename =>
      exact ⟨fun _ files => openFile_of_target htext (target_replace processId text files), by simp,
        by simp, by simp⟩
    | fails stop reason => constructor <;> simp
    | crashes stop => constructor <;> simp

/-- What ties a live process to the calls so far: its copy is the last renamed state, which is the
last one it got `Ok` for, or else what it found. -/
structure Process.Follows (process : Process) (history : List Call) : Prop where
  cached : process.file.cached = lastRenamed history
  latest : process.file.cached = (lastOk process.calls).or process.found
  since : ∃ earlier, history = earlier ++ process.calls ∧ process.found = lastRenamed earlier

/-- The file opens as the last renamed state, and a live process follows the history. -/
structure World.Sound (json : QuorumJson) (world : World) : Prop where
  opens : openFile json world.files = .ok ⟨lastRenamed world.history⟩
  follows : ∀ process ∈ world.process, process.Follows world.history

/-- Nothing was saved at first, and nothing is found. -/
theorem World.sound_initial (json : QuorumJson) (temps : ℕ → Option String) :
    (World.initial temps).Sound json where
  opens := rfl
  follows _ hprocess := nomatch hprocess

/-- A process starts with what it finds. -/
theorem World.Sound.start (h : world.Sound json) (processId : ℕ) :
    (world.start json processId).Sound json := by
  unfold World.start
  rw [h.opens]
  split
  · rename_i file _ hfile
    cases hfile
    refine ⟨h.opens, fun process hprocess => ?_⟩
    cases hprocess
    exact ⟨rfl, rfl, world.history, (List.append_nil _).symm, rfl⟩
  · exact h

/-- Unless the process crashes, a call is `Ok` exactly if it renames. -/
theorem Replaces.isOk {processId : ℕ} {state : QuorumState} {before : QuorumStateFile}
    {saved : Saved} (h : Replaces json processId state before saved)
    {result : Except StorageError Unit} (hresult : saved.result = some result) (renamed : Bool) :
    Call.isOk ⟨state, saved.result, renamed⟩ = decide (.rename processId ∈ saved.ops) := by
  have hok := h.ok result hresult
  rw [hresult]
  cases result with
  | error e => exact (decide_eq_false fun hrename => nomatch hok.mpr hrename).symm
  | ok value => exact (decide_eq_true (hok.mp rfl)).symm

/-- A process that survives its save follows the history with the call in it. -/
theorem Process.Follows.save {process : Process} {history : List Call} (h : process.Follows history)
    {state : QuorumState} {saved : Saved}
    (hreplaces : Replaces json process.id state process.file saved)
    {result : Except StorageError Unit} (hresult : saved.result = some result) :
    let call : Call := ⟨state, saved.result, decide (.rename process.id ∈ saved.ops)⟩
    Process.Follows { process with calls := process.calls ++ [call], file := saved.file }
      (history ++ [call]) := by
  intro call
  have hcached := hreplaces.cached (by rw [hresult]; exact Option.some_ne_none result)
  obtain ⟨earlier, hhistory, hfound⟩ := h.since
  refine ⟨?_, ?_, earlier, ?_, hfound⟩
  · simp only [lastRenamed_append, hcached, call, decide_eq_true_eq]
    split_ifs
    · rfl
    · exact h.cached
  · simp only [lastOk_append, hcached, call, hreplaces.isOk hresult, decide_eq_true_eq]
    split_ifs
    · rfl
    · exact h.latest
  · rw [hhistory, List.append_assoc]

/-- A save moves file and memory together, or leaves the process dead. -/
theorem World.Sound.save (h : world.Sound json) (state : QuorumState) (fate : Fate) :
    (world.save json state fate).Sound json := by
  unfold World.save
  split
  · exact h
  rename_i process hprocess
  have hreplaces := save_replaces json process.id state fate process.file
  generalize process.file.save json process.id state fate = saved at hreplaces ⊢
  refine ⟨?_, fun after hafter => ?_⟩
  · simp only [lastRenamed_append, decide_eq_true_eq]
    split_ifs with hrename
    · exact hreplaces.renamed hrename world.files
    · rw [openFile_congr (hreplaces.kept hrename world.files)]
      exact h.opens
  · obtain ⟨result, hresult, rfl⟩ := Option.map_eq_some_iff.mp hafter
    exact (h.follows process hprocess).save hreplaces hresult

/-- Every event keeps the world sound. -/
theorem World.Sound.step (h : world.Sound json) (event : Event) :
    (world.step json event).Sound json := by
  cases event with
  | start processId => exact h.start processId
  | save state fate => exact h.save state fate
  | crash => exact ⟨h.opens, fun _ hprocess => nomatch hprocess⟩

/-- Every sequence of events keeps the world sound. -/
theorem World.Sound.run (h : world.Sound json) (events : List Event) :
    (world.run json events).Sound json := by
  induction events generalizing world with
  | nil => exact h
  | cons event events ih => exact ih (h.step event)

end

/-- However saves fail and processes crash, opening the file afterwards returns the state of the
last save whose rename took place. A live process loads the state of the last save that returned
`Ok` to it, before the first one what it opened, and this is what a process would open now. -/
theorem saved_atomically (json : QuorumJson) (temps : ℕ → Option String) (events : List Event) :
    let world := (World.initial temps).run json events
    openFile json world.files = .ok ⟨lastRenamed world.history⟩ ∧
      ∀ process, world.process = some process →
        process.file.load = (lastOk process.calls).or process.found ∧
          openFile json world.files = .ok process.file ∧
          ∃ earlier, world.history = earlier ++ process.calls ∧
          process.found = lastRenamed earlier := by
  have hsound := (World.sound_initial json temps).run events
  refine ⟨hsound.opens, fun process hprocess => ?_⟩
  have hfollows := hsound.follows process hprocess
  refine ⟨hfollows.latest, ?_, hfollows.since⟩
  rw [hsound.opens, ← hfollows.cached]

end QuorumStateFile

end XRaft
