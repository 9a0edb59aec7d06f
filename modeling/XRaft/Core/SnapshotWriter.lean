import Mathlib.Logic.Function.Basic
import XRaft.Core.Types
import XRaft.Lib.Sparse

/-!
# The snapshot writer of `snapshot.rs`

A follower receives a snapshot in chunks through a `SnapshotWriter`: each chunk is written to a
temporary file at its position, and `finish` syncs that file and renames it to its final path.
Any step may fail. The final path changes by the rename alone, so it holds what the last
finished session assembled, whatever happened to the other sessions.

What a session assembles is another matter. `finish` does not compare it with anything; not
even with `bytes_written`, which is the end of the last chunk whose call succeeded. It is the
sender's snapshot exactly if the bytes that reached the file are all its bytes, zeros in front
of a byte that did excepted.

A call that succeeds has not written its chunk yet. A `tokio` file takes the bytes in buffers
and writes each of them behind the caller's back; the failure of one is reported when the next
one is handed over, which is then not written, and `sync_all` does not report it at all.
-/

namespace XRaft

open Lib

/-- A file of `tokio`: how many bytes it takes at once, and whether the write of the last of them
failed without anybody having been told. -/
structure TokioFile where
  maxBufSize : ℕ
  unreported : Bool
  deriving DecidableEq, Repr

/-- A chunked write session for receiving a snapshot. -/
structure SnapshotWriter (τ : Type*) where
  tempPath : τ
  finalPath : τ
  /-- The temporary file, as long as it is open. -/
  file : Option TokioFile
  bytesWritten : ℕ
  deriving DecidableEq, Repr

namespace SnapshotWriter

/-- The errors of a session. -/
inductive Error where
  | other (message : String)
  | io
  deriving DecidableEq, Repr

/-- The error of a writer whose file is gone. -/
def alreadyFinalized : Error := .other "writer already finalized"

/-- How the write of a chunk goes. -/
inductive ChunkFate where
  | seekFails
  | writeStops (count : ℕ)
  | written
  deriving DecidableEq, Repr

/-- How the end of a session goes. -/
inductive FinishFate where
  | syncFails
  | renameFails
  | renamed
  deriving DecidableEq, Repr

end SnapshotWriter

/-- Hand some bytes over to the file: whether the caller is told that this went well, the file
afterwards, and the bytes that reach the disk. -/
def TokioFile.writeAll (file : TokioFile) (data : Bytes) (fate : SnapshotWriter.ChunkFate) :
    Bool × TokioFile × Bytes :=
  if data = [] then (true, file, [])
  -- the failure of the bytes before is reported now, and these are not written
  else if file.unreported then (false, { file with unreported := false }, [])
  else
    match fate with
    | .writeStops count =>
      -- the failure of a buffer is seen by this call if there is one behind it
      if (count / file.maxBufSize + 1) * file.maxBufSize < data.length then
        (false, file, data.take count)
      else (true, { file with unreported := true }, data.take count)
    | _ => (true, file, data)

namespace SnapshotWriter

variable {τ : Type*}

/-- A new snapshot writer over an open file. -/
def new (tempPath finalPath : τ) (file : TokioFile) : SnapshotWriter τ :=
  ⟨tempPath, finalPath, some file, 0⟩

variable [DecidableEq τ]

/-- Write some bytes at a position of the temporary file. -/
def writeTemp (writer : SnapshotWriter τ) (position : ℕ) (data : Bytes) (files : τ → Option Bytes) :
    τ → Option Bytes :=
  Function.update files writer.tempPath ((files writer.tempPath).map (writeAll position data))

/-- Write a chunk of snapshot data at the expected position. -/
def writeChunk (writer : SnapshotWriter τ) (position : ℕ) (data : Bytes) (fate : ChunkFate)
    (files : τ → Option Bytes) : Except Error Unit × SnapshotWriter τ × (τ → Option Bytes) :=
  match writer.file with
  | none => (.error alreadyFinalized, writer, files)
  | some file =>
    if fate = .seekFails then (.error .io, writer, files)
    else
      let (accepted, file, reaching) := file.writeAll data fate
      let files := writer.writeTemp position reaching files
      if accepted then
        (.ok (), { writer with file := some file, bytesWritten := position + data.length }, files)
      else (.error .io, { writer with file := some file }, files)

/-- Finalize the snapshot: sync and move to the final path. -/
def finish (writer : SnapshotWriter τ) (fate : FinishFate) (files : τ → Option Bytes) :
    Except Error Unit × (τ → Option Bytes) :=
  if writer.file.isSome then
    match fate with
    -- waits for the bytes handed over last, whether they are written or not
    | .syncFails => (.error .io, files)
    | .renameFails => (.error .io, files)
    | .renamed =>
      (.ok (), Function.update (Function.update files writer.finalPath (files writer.tempPath))
        writer.tempPath none)
  else (.error alreadyFinalized, files)

/-- Abort the receive session. That the temporary file cannot be removed is ignored. -/
def abort (writer : SnapshotWriter τ) (removeFails : Bool) (files : τ → Option Bytes) :
    τ → Option Bytes :=
  if writer.file.isSome && !removeFails then Function.update files writer.tempPath none else files

end SnapshotWriter

/-- A chunk that arrives, and how its write goes. -/
structure ChunkWrite where
  position : ℕ
  data : Bytes
  fate : SnapshotWriter.ChunkFate
  deriving DecidableEq, Repr

/-- How a session ends; a writer that is dropped leaves the temporary file. -/
inductive SessionEnd where
  | finish (fate : SnapshotWriter.FinishFate)
  | abort (removeFails : Bool)
  | dropped
  deriving DecidableEq, Repr

/-- A session of a snapshot writer. -/
structure ReceiveSession where
  writes : List ChunkWrite
  ending : SessionEnd
  deriving DecidableEq, Repr

namespace ChunkWrite

/-- The file after a chunk, and the bytes of the chunk that reach the disk. -/
def handOver (file : TokioFile) (write : ChunkWrite) : TokioFile × Bytes :=
  if write.fate = .seekFails then (file, []) else (file.writeAll write.data write.fate).2

/-- The parts of the chunks that reach the disk, with their positions. -/
def reached (file : TokioFile) : List ChunkWrite → List (ℕ × Bytes)
  | [] => []
  | write :: rest =>
    (write.position, (write.handOver file).2) :: reached (write.handOver file).1 rest

variable {τ : Type*} [DecidableEq τ]

/-- The writer and the files after a chunk. -/
def run (state : SnapshotWriter τ × (τ → Option Bytes)) (write : ChunkWrite) :
    SnapshotWriter τ × (τ → Option Bytes) :=
  (state.1.writeChunk write.position write.data write.fate state.2).2

end ChunkWrite

/-- Write some parts at their positions, one after the other. -/
def assemble (file : Bytes) (parts : List (ℕ × Bytes)) : Bytes :=
  parts.foldl (fun file part => writeAll part.1 part.2 file) file

/-- One of the parts brings the byte at an index. -/
def PartBrings (parts : List (ℕ × Bytes)) (index : ℕ) : Prop :=
  ∃ part ∈ parts, part.1 ≤ index ∧ index < part.1 + part.2.length

namespace ReceiveSession

/-- The session finishes. -/
def finished (session : ReceiveSession) : Bool := session.ending = .finish .renamed

/-- The parts of the session's chunks that reach the disk through a new file. -/
def reached (maxBufSize : ℕ) (session : ReceiveSession) : List (ℕ × Bytes) :=
  ChunkWrite.reached ⟨maxBufSize, false⟩ session.writes

/-- What the session assembles in its file. -/
def assembled (maxBufSize : ℕ) (session : ReceiveSession) : Bytes :=
  assemble [] (session.reached maxBufSize)

/-- All chunks of the session are pieces of a content. -/
def Sends (content : Bytes) (session : ReceiveSession) : Prop :=
  ∀ write ∈ session.writes, ∃ size, write.data = piece content write.position size

/-- What reaches the disk is a whole content, except perhaps for zeros in front of a byte that
does. -/
def BringAll (maxBufSize : ℕ) (content : Bytes) (session : ReceiveSession) : Prop :=
  ∀ index byte, content[index]? = some byte →
    PartBrings (session.reached maxBufSize) index ∨
      byte = 0 ∧ ∃ later, index < later ∧ PartBrings (session.reached maxBufSize) later

section

variable {τ : Type*} [DecidableEq τ]

/-- The end of a session. -/
def close (ending : SessionEnd) (writer : SnapshotWriter τ) (files : τ → Option Bytes) :
    τ → Option Bytes :=
  match ending with
  | .finish fate => (writer.finish fate files).2
  | .abort removeFails => writer.abort removeFails files
  | .dropped => files

/-- The files after a session on a new temporary file. -/
def run (maxBufSize : ℕ) (tempPath finalPath : τ) (files : τ → Option Bytes)
    (session : ReceiveSession) : τ → Option Bytes :=
  let received := session.writes.foldl ChunkWrite.run
    (SnapshotWriter.new tempPath finalPath ⟨maxBufSize, false⟩,
      Function.update files tempPath (some []))
  close session.ending received.1 received.2

end

end ReceiveSession

namespace ChunkWrite

variable {τ : Type*} [DecidableEq τ] {tempPath finalPath : τ} {before : τ → Option Bytes}
  {content : Bytes}

/-- A session in progress: the writer has its file, the content of which was assembled, and no other
file has changed. -/
structure Receiving (tempPath finalPath : τ) (before : τ → Option Bytes) (handle : TokioFile)
    (file : Bytes) (state : SnapshotWriter τ × (τ → Option Bytes)) : Prop where
  temp : state.1.tempPath = tempPath
  final : state.1.finalPath = finalPath
  opened : state.1.file = some handle
  files : state.2 = Function.update before tempPath (some file)

/-- Each chunk adds what reaches the disk. -/
theorem Receiving.run {handle : TokioFile} {file : Bytes}
    {state : SnapshotWriter τ × (τ → Option Bytes)}
    (h : Receiving tempPath finalPath before handle file state) (write : ChunkWrite) :
    Receiving tempPath finalPath before (write.handOver handle).1
      (writeAll write.position (write.handOver handle).2 file) (run state write) := by
  obtain ⟨writer, files⟩ := state
  obtain ⟨rfl, rfl, hopened, hfiles⟩ := h
  simp only at hopened hfiles
  subst hfiles
  have hwrite : ∀ bytes, writer.writeTemp write.position bytes
      (Function.update before writer.tempPath (some file)) =
        Function.update before writer.tempPath (some (writeAll write.position bytes file)) := by
    intro bytes
    simp [SnapshotWriter.writeTemp]
  simp only [ChunkWrite.run, SnapshotWriter.writeChunk, hopened, handOver]
  split_ifs with hseek haccepted
  · exact ⟨rfl, rfl, hopened, by simp [writeAll]⟩
  · exact ⟨rfl, rfl, rfl, hwrite _⟩
  · exact ⟨rfl, rfl, rfl, hwrite _⟩

/-- All chunks of a session assemble its file. -/
theorem Receiving.runAll {handle : TokioFile} {file : Bytes}
    {state : SnapshotWriter τ × (τ → Option Bytes)}
    (h : Receiving tempPath finalPath before handle file state) (writes : List ChunkWrite) :
    ∃ last, Receiving tempPath finalPath before last (assemble file (reached handle writes))
      (writes.foldl ChunkWrite.run state) := by
  induction writes generalizing handle file state with
  | nil => exact ⟨handle, h⟩
  | cons write rest ih => exact ih (h.run write)

/-- What reaches the disk of a piece of a content is such a piece. -/
theorem exists_handOver_piece {write : ChunkWrite} {size : ℕ}
    (h : write.data = piece content write.position size) (handle : TokioFile) :
    ∃ size, (write.handOver handle).2 = piece content write.position size := by
  have hnone : ∃ size, ([] : Bytes) = piece content write.position size := ⟨0, by simp [piece]⟩
  have htake : ∀ count, ∃ size, write.data.take count = piece content write.position size :=
    fun count => ⟨min count size, by rw [h, piece, piece, List.take_take]⟩
  unfold handOver TokioFile.writeAll
  split_ifs
  · exact hnone
  · exact hnone
  · exact hnone
  · split
    · split_ifs
      · exact htake _
      · exact htake _
    · exact ⟨size, h⟩

/-- All parts of a content's pieces that reach the disk are such pieces. -/
theorem exists_reached_piece {writes : List ChunkWrite}
    (hwrites : ∀ write ∈ writes, ∃ size, write.data = piece content write.position size)
    (handle : TokioFile) :
    ∀ part ∈ reached handle writes, ∃ size, part.2 = piece content part.1 size := by
  induction writes generalizing handle with
  | nil => exact nofun
  | cons write rest ih =>
    obtain ⟨⟨size, hdata⟩, hrest⟩ := List.forall_mem_cons.mp hwrites
    exact List.forall_mem_cons.mpr ⟨exists_handOver_piece hdata handle, ih hrest _⟩

end ChunkWrite

/-- Pieces of a content, at any position and in any order, fill in the bytes they bring. -/
theorem sparse_assemble {content file : Bytes} {delivered : ℕ → Prop}
    (h : Sparse content delivered file) {parts : List (ℕ × Bytes)}
    (hparts : ∀ part ∈ parts, ∃ size, part.2 = piece content part.1 size) :
    Sparse content (fun index => delivered index ∨ PartBrings parts index)
      (assemble file parts) := by
  induction parts generalizing file delivered with
  | nil => exact h.congr fun index => by simp [PartBrings]
  | cons part rest ih =>
    obtain ⟨⟨size, hpart⟩, hrest⟩ := List.forall_mem_cons.mp hparts
    have hnext := h.writeAll part.1 size
    rw [← hpart] at hnext
    refine (ih hnext hrest).congr fun index => ?_
    simp [PartBrings, or_assoc]

namespace ReceiveSession

variable {τ : Type*} [DecidableEq τ] {tempPath finalPath : τ} {maxBufSize : ℕ}

/-- A session changes the final path by finishing only, and no other path but the temporary one. -/
theorem run_apply (files : τ → Option Bytes) (session : ReceiveSession) {path : τ}
    (hpath : path ≠ tempPath) :
    session.run maxBufSize tempPath finalPath files path =
      if path = finalPath ∧ session.finished = true then some (session.assembled maxBufSize)
      else files path := by
  have hstart : ChunkWrite.Receiving tempPath finalPath files ⟨maxBufSize, false⟩ []
      (SnapshotWriter.new tempPath finalPath ⟨maxBufSize, false⟩,
        Function.update files tempPath (some [])) := ⟨rfl, rfl, rfl, rfl⟩
  obtain ⟨handle, htemp, hfinal, hopened, hfiles⟩ := hstart.runAll session.writes
  have hother : ∀ found, Function.update files tempPath found path = files path :=
    fun found => Function.update_of_ne hpath _ _
  obtain ⟨writes, ending⟩ := session
  simp only [run] at htemp hfinal hopened hfiles ⊢
  cases ending with
  | finish fate =>
    cases fate with
    | renamed =>
      simp only [close, SnapshotWriter.finish, hopened, Option.isSome_some, if_true, htemp, hfinal,
        hfiles, Function.update_self, Function.update_of_ne hpath]
      by_cases hsame : path = finalPath
      · simp [hsame, finished, assembled, reached]
      · simp [hsame, hother]
    | syncFails => simp [close, SnapshotWriter.finish, hopened, hfiles, hother, finished]
    | renameFails => simp [close, SnapshotWriter.finish, hopened, hfiles, hother, finished]
  | abort removeFails =>
    cases removeFails <;> simp [close, SnapshotWriter.abort, hopened, htemp, hfiles,
      hpath, finished]
  | dropped => simp [close, hfiles, hother, finished]

/-- After any sessions, the final path holds what the last finished one assembled. -/
theorem runAll_apply (files : τ → Option Bytes) (sessions : List ReceiveSession) {path : τ}
    (hpath : path ≠ tempPath) :
    sessions.foldl (fun files session => session.run maxBufSize tempPath finalPath files)
      files path =
      if path = finalPath then
        ((sessions.reverse.find? finished).map (assembled maxBufSize)).or (files path)
      else files path := by
  induction sessions using List.reverseRecOn with
  | nil => simp
  | append_singleton sessions session ih =>
    rw [List.foldl_append, List.foldl_cons, List.foldl_nil, run_apply _ session hpath, ih,
      List.reverse_append, List.reverse_singleton, List.singleton_append, List.find?_cons]
    by_cases hsame : path = finalPath <;> cases session.finished <;> simp [hsame]

/-- What a session assembles is the content exactly if what reaches the disk is all of it. -/
theorem assembled_eq_iff {content : Bytes} {session : ReceiveSession} (h : session.Sends content) :
    session.assembled maxBufSize = content ↔ session.BringAll maxBufSize content := by
  have hparts := ChunkWrite.exists_reached_piece h ⟨maxBufSize, false⟩
  have hsparse : Sparse content (PartBrings (session.reached maxBufSize))
      (session.assembled maxBufSize) :=
    (sparse_assemble (Sparse.empty content) hparts).congr fun index => by simp [reached]
  exact hsparse.eq_iff

/-- After any sessions, with chunks in any order, repeated or lost, and with any failures: the final
path holds what the last finished session assembled, and that is the content it was sent exactly if
what reached the disk is all of it. Without a finished session it is unchanged, and so are all paths
but the temporary one. -/
theorem sessions_install (maxBufSize : ℕ) (hne : tempPath ≠ finalPath) (files : τ → Option Bytes)
    (sessions : List ReceiveSession) :
    let after := sessions.foldl
      (fun files session => session.run maxBufSize tempPath finalPath files) files
    (∀ path, path ≠ tempPath → path ≠ finalPath → after path = files path) ∧
      (sessions.reverse.find? finished = none → after finalPath = files finalPath) ∧
      ∀ last, sessions.reverse.find? finished = some last →
        after finalPath = some (last.assembled maxBufSize) ∧
        ∀ content, last.Sends content →
          (after finalPath = some content ↔ last.BringAll maxBufSize content) := by
  intro after
  have hinstalled : after finalPath =
      ((sessions.reverse.find? finished).map (assembled maxBufSize)).or (files finalPath) :=
    (runAll_apply files sessions hne.symm).trans (if_pos rfl)
  refine ⟨fun path htemp hfinal => ?_, fun hnone => ?_, fun last hlast => ?_⟩
  · exact (runAll_apply files sessions htemp).trans (if_neg hfinal)
  · simpa [hnone] using hinstalled
  · have hvalue : after finalPath = some (last.assembled maxBufSize) := by
      simpa [hlast] using hinstalled
    refine ⟨hvalue, fun content hsends => ?_⟩
    rw [hvalue, Option.some.injEq]
    exact assembled_eq_iff hsends

/-- A session whose first write stops, so that the second chunk is refused and sent again, and one
that is aborted after it. -/
def retriedSession : List ReceiveSession :=
  [⟨[⟨2, [3, 4], .writeStops 1⟩, ⟨0, [1, 2], .written⟩, ⟨0, [1, 2], .written⟩,
    ⟨2, [3, 4], .written⟩],
      .finish .renamed⟩,
    ⟨[⟨0, [9], .written⟩], .abort true⟩]

/-- The snapshot of the first session is installed. -/
theorem sessions_install_retried :
    retriedSession.foldl
      (fun files session => session.run (2 * 1024 * 1024) "snap.tmp" "snap" files)
      (fun _ => none) "snap" = some [1, 2, 3, 4] :=
  ((sessions_install (2 * 1024 * 1024) (by decide : "snap.tmp" ≠ "snap") (fun _ => none)
    retriedSession).2.2 _ rfl).1.trans (by decide)

/-- Without the repetition the refused chunk is missing, and a last write that stops is not noticed:
both sessions finish. -/
example :
    (ReceiveSession.mk [⟨2, [3, 4], .writeStops 1⟩, ⟨0, [1, 2], .written⟩, ⟨2, [3, 4], .written⟩]
        (.finish .renamed)).assembled (2 * 1024 * 1024) = [0, 0, 3, 4] ∧
      (ReceiveSession.mk [⟨0, [1, 2], .written⟩, ⟨2, [3, 4], .writeStops 1⟩]
        (.finish .renamed)).assembled (2 * 1024 * 1024) = [1, 2, 3] := by
  decide

end ReceiveSession

end XRaft
