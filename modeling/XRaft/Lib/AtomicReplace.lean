import Mathlib.Data.List.Basic
import Mathlib.Logic.Function.Basic

/-!
# Replacing a file through a temporary one

A writer that must not leave half of its content behind writes it to a temporary file,
syncs that file and renames it to the target. The rename is one change: the target has its
old content until then and the new one from then on. A replacement that stops before the
rename, by an error or by a crash, leaves the target alone and perhaps a temporary file,
which the next replacement under the same name overwrites.
-/

namespace XRaft.Lib

/-- A file and the temporary files beside it, by name. -/
structure Replaceable (τ ν : Type*) where
  target : Option ν
  temps : τ → Option ν

/-- A change that a replacement makes. -/
inductive ReplaceOp (τ ν : Type*) where
  | writeTemp (name : τ) (content : ν)
  | rename (name : τ)
  deriving DecidableEq, Repr

/-- The step a replacement stops at; an interrupted write leaves some content, or no new file at
all. -/
inductive ReplaceStop (ν : Type*) where
  | write (left : Option ν)
  | openTemp
  | sync
  | rename
  deriving DecidableEq, Repr

section

variable {τ ν : Type*}

/-- The changes of a replacement, up to the step it stops at. -/
def replaceOps (name : τ) (content : ν) : Option (ReplaceStop ν) → List (ReplaceOp τ ν)
  | some (.write none) => []
  | some (.write (some left)) => [.writeTemp name left]
  | some .openTemp | some .sync | some .rename => [.writeTemp name content]
  | none => [.writeTemp name content, .rename name]

/-- A replacement that does not stop renames. -/
@[simp] theorem rename_mem_replaceOps (name : τ) (content : ν) :
    .rename name ∈ replaceOps name content none := by
  simp [replaceOps]

/-- A replacement that stops does not rename. -/
@[simp] theorem rename_notMem_replaceOps (name : τ) (content : ν) (stop : ReplaceStop ν) :
    .rename name ∉ replaceOps name content (some stop) := by
  rcases stop with (_ | left) | _ | _ | _ <;> simp [replaceOps]

variable [DecidableEq τ]

/-- The files after a change. -/
def ReplaceOp.apply : ReplaceOp τ ν → Replaceable τ ν → Replaceable τ ν
  | writeTemp name content, files =>
    { files with temps := Function.update files.temps name (some content) }
  | rename name, files => ⟨files.temps name, Function.update files.temps name none⟩

/-- The files after all changes of a list. -/
def ReplaceOp.applyAll (ops : List (ReplaceOp τ ν)) (files : Replaceable τ ν) : Replaceable τ ν :=
  ops.foldl (fun files op => op.apply files) files

/-- The target has the new content after a replacement. -/
@[simp] theorem target_replace (name : τ) (content : ν) (files : Replaceable τ ν) :
    (ReplaceOp.applyAll (replaceOps name content none) files).target = some content := by
  simp [replaceOps, ReplaceOp.applyAll, ReplaceOp.apply]

/-- The target has its old content after a replacement that stops. -/
@[simp] theorem target_replace_stopped (name : τ) (content : ν) (stop : ReplaceStop ν)
    (files : Replaceable τ ν) :
    (ReplaceOp.applyAll (replaceOps name content (some stop)) files).target = files.target := by
  rcases stop with (_ | left) | _ | _ | _ <;> rfl

end

end XRaft.Lib
