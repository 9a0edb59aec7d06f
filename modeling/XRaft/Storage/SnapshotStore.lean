import Mathlib.Data.List.Sort
import XRaft.Core.Types
import XRaft.Lib.Sparse

/-!
# The snapshot store

`snapshot_store.rs`: snapshots are files named by term and index, each beside a `.meta`
file that lists it. A snapshot is sent to another store in chunks. `read_chunk` answers
for any position; `write_chunk` writes a chunk at its position, creating or truncating the
file for position zero, and writes the `.meta` file with the chunk marked as done.

A listed snapshot is what the sender has exactly if all its bytes arrived since the last
chunk for position zero did. The store does not check this: it lists a snapshot of which a
chunk in the middle was lost, and keeps listing one that a repeated first chunk truncates.

Files are addressed by the metadata in their names. I/O errors are left out except for
what the contents of the directory can cause; `serde_json` is a parameter.
-/

namespace XRaft

open Lib

namespace SnapshotStore

/-- What a snapshot is named by. -/
structure Metadata where
  term : ℕ
  index : ℕ
  deriving DecidableEq, Repr

/-- A part of a snapshot in transfer. -/
structure Chunk where
  data : Bytes
  position : ℕ
  done : Bool
  deriving DecidableEq, Repr

/-- The errors of the snapshot store. -/
inductive Error where
  | notFound (message : String)
  | serialization (message : String)
  /-- The file to open or to inspect does not exist. -/
  | io
  deriving DecidableEq, Repr

/-- `serde_json` on metadata: serialising may fail, deserialising undoes it. -/
structure Json where
  toVec : Metadata → Except String Bytes
  fromSlice : Bytes → Except String Metadata
  fromSlice_toVec : ∀ metadata bytes, toVec metadata = .ok bytes → fromSlice bytes = .ok metadata

/-- The contents of a snapshot directory. -/
structure Directory where
  snapshots : List (Metadata × Bytes)
  metas : List (Metadata × Bytes)
  deriving DecidableEq, Repr

/-- The directory of a store nothing was saved in. -/
def Directory.empty : Directory := ⟨[], []⟩

/-- Create or replace a file. -/
def writeFile (metadata : Metadata) (bytes : Bytes) (files : List (Metadata × Bytes)) :
    List (Metadata × Bytes) :=
  put metadata bytes files

end SnapshotStore

/-- A snapshot store over a directory. -/
structure SnapshotStore where
  baseDir : String
  chunkSize : ℕ
  chunkSize_pos : 0 < chunkSize

namespace SnapshotStore

/-- Default chunk size for snapshot transfers. -/
def defaultChunkSize : ℕ := 64 * 1024

/-- A store with the default chunk size. -/
def new (baseDir : String) : SnapshotStore := ⟨baseDir, defaultChunkSize, by decide⟩

/-- Override the default chunk size. -/
def withChunkSize (store : SnapshotStore) (chunkSize : ℕ) (h : 0 < chunkSize) : SnapshotStore :=
  { store with chunkSize := chunkSize, chunkSize_pos := h }

/-- The path of a snapshot file, as messages show it. -/
def snapshotPath (store : SnapshotStore) (metadata : Metadata) : String :=
  s!"{store.baseDir}/{metadata.term}-{metadata.index}.snap"

/-- Persist some bytes as a snapshot. -/
def saveSnapshot (json : Json) (metadata : Metadata) (data : Bytes) (directory : Directory) :
    Except Error Unit × Directory :=
  match json.toVec metadata with
  | .error error => (.error (.serialization error), directory)
  | .ok bytes =>
    (.ok (), ⟨writeFile metadata data directory.snapshots,
      writeFile metadata bytes directory.metas⟩)

/-- The bytes of a snapshot. -/
def loadSnapshot (store : SnapshotStore) (metadata : Metadata) (directory : Directory) :
    Except Error Bytes :=
  match directory.snapshots.lookup metadata with
  | none => .error (.notFound s!"snapshot file not found: {store.snapshotPath metadata}")
  | some data => .ok data

/-- Read a single chunk of a snapshot. -/
def readChunk (store : SnapshotStore) (metadata : Metadata) (position : ℕ) (directory : Directory) :
    Except Error Chunk :=
  match directory.snapshots.lookup metadata with
  | none => .error .io
  | some file =>
    if file.length ≤ position then .ok ⟨[], position, true⟩
    else
      let toRead := min (file.length - position) store.chunkSize
      .ok ⟨(file.drop position).take toRead, position, decide (file.length ≤ position + toRead)⟩

/-- Write a chunk received during snapshot installation. -/
def writeChunk (json : Json) (metadata : Metadata) (chunk : Chunk) (directory : Directory) :
    Except Error Unit × Directory :=
  -- position zero creates or truncates the file, any other position has to find it
  match if chunk.position = 0 then some [] else directory.snapshots.lookup metadata with
  | none => (.error .io, directory)
  | some file =>
    let written := { directory with
      snapshots :=
        writeFile metadata (writeAll chunk.position chunk.data file) directory.snapshots }
    if chunk.done then
      match json.toVec metadata with
      | .error error => (.error (.serialization error), written)
      | .ok bytes => (.ok (), { written with metas := writeFile metadata bytes written.metas })
    else (.ok (), written)

/-- Newer snapshots first. -/
def NotOlder (first second : Metadata) : Prop :=
  second.term < first.term ∨ second.term = first.term ∧ second.index ≤ first.index

instance : DecidableRel NotOlder := fun first second =>
  inferInstanceAs (Decidable (second.term < first.term ∨ second.term = first.term ∧
    second.index ≤ first.index))

/-- All snapshots with a `.meta` file. -/
def listSnapshots (json : Json) (directory : Directory) : Except Error (List Metadata) := do
  let entries ← directory.metas.mapM fun file => (json.fromSlice file.2).mapError .serialization
  return entries.insertionSort NotOlder

/-- A snapshot is among those the store lists. -/
def Listed (json : Json) (metadata : Metadata) (directory : Directory) : Prop :=
  ∃ listing, listSnapshots json directory = .ok listing ∧ metadata ∈ listing

/-- Chunks delivered one after another. A chunk that fails to be written leaves what it wrote. -/
def receive (json : Json) (metadata : Metadata) (chunks : List Chunk) (directory : Directory) :
    Directory :=
  chunks.foldl (fun directory chunk => (writeChunk json metadata chunk directory).2) directory

/-- The chunks since the file was last created, when one more arrives. -/
def keepSinceCreated (kept : List Chunk) (chunk : Chunk) : List Chunk :=
  if chunk.position = 0 then [chunk] else if kept = [] then [] else kept ++ [chunk]

/-- The delivered chunks from the last one for position zero on. -/
def sinceCreated (chunks : List Chunk) : List Chunk := chunks.foldl keepSinceCreated []

/-- One of the chunks has the byte at an index. -/
def Brings (chunks : List Chunk) (index : ℕ) : Prop :=
  ∃ chunk ∈ chunks, chunk.position ≤ index ∧ index < chunk.position + chunk.data.length

/-- The chunks bring a whole content, except perhaps for zeros in front of a byte they bring. -/
def BringAll (chunks : List Chunk) (content : Bytes) : Prop :=
  ∀ index byte, content[index]? = some byte →
    Brings chunks index ∨ byte = 0 ∧ ∃ later, index < later ∧ Brings chunks later

/-- The store has no file of a snapshot, and its `.meta` files are named by what they hold. -/
structure NotReceived (json : Json) (metadata : Metadata) (directory : Directory) : Prop where
  noSnapshot : directory.snapshots.lookup metadata = none
  noMeta : metadata ∉ directory.metas.map Prod.fst
  named : ∀ file ∈ directory.metas, json.fromSlice file.2 = .ok file.1

/-- A chunk that is marked as done arrives when the file exists, that is with or behind a chunk for
position zero, and the metadata can be written. -/
def Announced (json : Json) (metadata : Metadata) (chunks : List Chunk) : Prop :=
  (∃ bytes, json.toVec metadata = .ok bytes) ∧
    ∃ arrived last, arrived ++ [last] <+: chunks ∧ last.done = true ∧
      ∃ chunk ∈ arrived ++ [last], chunk.position = 0

/-- What the deliveries so far have made of the directory. -/
structure Receiving (json : Json) (metadata : Metadata) (content : Bytes) (arrived : List Chunk)
    (directory : Directory) : Prop where
  named : ∀ file ∈ directory.metas, json.fromSlice file.2 = .ok file.1
  listed : metadata ∈ directory.metas.map Prod.fst ↔ Announced json metadata arrived
  absent : sinceCreated arrived = [] → directory.snapshots.lookup metadata = none
  present : sinceCreated arrived ≠ [] →
    ∃ file, directory.snapshots.lookup metadata = some file ∧
      Sparse content (Brings (sinceCreated arrived)) file

section

variable {json : Json} {metadata : Metadata} {content : Bytes} {arrived kept : List Chunk}
  {directory : Directory}

@[simp] theorem lookup_writeFile (bytes : Bytes) (files : List (Metadata × Bytes)) :
    (writeFile metadata bytes files).lookup metadata = some bytes :=
  lookup_put_self metadata bytes files

@[simp] theorem sinceCreated_concat (arrived : List Chunk) (chunk : Chunk) :
    sinceCreated (arrived ++ [chunk]) = keepSinceCreated (sinceCreated arrived) chunk := by
  simp [sinceCreated]

/-- The file exists from the first chunk for position zero on. -/
theorem sinceCreated_ne_nil_iff (arrived : List Chunk) :
    sinceCreated arrived ≠ [] ↔ ∃ chunk ∈ arrived, chunk.position = 0 := by
  induction arrived using List.reverseRecOn with
  | nil => simp [sinceCreated]
  | append_singleton arrived chunk ih =>
    rw [sinceCreated_concat, keepSinceCreated]
    by_cases hzero : chunk.position = 0
    · simp [hzero]
    · simp only [List.mem_append, List.mem_singleton, or_and_right, exists_or,
        exists_eq_left, hzero, or_false, ← ih]
      split_ifs <;> simp_all

/-- One more chunk announces the snapshot if it is marked as done and finds or creates the file. -/
theorem announced_concat (arrived : List Chunk) (chunk : Chunk) :
    Announced json metadata (arrived ++ [chunk]) ↔ Announced json metadata arrived ∨
      (∃ bytes, json.toVec metadata = .ok bytes) ∧ chunk.done = true ∧
        sinceCreated (arrived ++ [chunk]) ≠ [] := by
  rw [Announced, Announced, ← and_or_left, sinceCreated_ne_nil_iff]
  refine and_congr_right fun _ => ⟨?_, ?_⟩
  · rintro ⟨before, last, hprefix, hdone, hcreated⟩
    rcases List.prefix_concat_iff.mp hprefix with heq | hearlier
    · obtain ⟨rfl, hlast⟩ := List.append_inj' heq rfl
      obtain rfl := List.singleton_inj.mp hlast
      exact .inr ⟨hdone, hcreated⟩
    · exact .inl ⟨before, last, hearlier, hdone, hcreated⟩
  · rintro (⟨before, last, hprefix, hdone, hcreated⟩ | ⟨hdone, hcreated⟩)
    · exact ⟨before, last, hprefix.trans (List.prefix_append _ _), hdone, hcreated⟩
    · exact ⟨arrived, chunk, List.prefix_refl _, hdone, hcreated⟩

/-- An announced snapshot has a file. -/
theorem Announced.sinceCreated_ne_nil (h : Announced json metadata arrived) :
    sinceCreated arrived ≠ [] := by
  obtain ⟨-, before, last, hprefix, -, chunk, hchunk, hzero⟩ := h
  exact (sinceCreated_ne_nil_iff arrived).mpr ⟨chunk, hprefix.subset hchunk, hzero⟩

/-- A chunk is the piece of the file at its position, done if it reaches the end. -/
theorem readChunk_eq (store : SnapshotStore) {file : Bytes}
    (hfile : directory.snapshots.lookup metadata = some file) (position : ℕ) :
    store.readChunk metadata position directory =
      .ok ⟨piece file position store.chunkSize, position,
        decide (file.length ≤ position + store.chunkSize)⟩ := by
  simp only [readChunk, hfile]
  split_ifs with hpast
  · rw [piece, List.drop_eq_nil_of_le hpast, List.take_nil, decide_eq_true (by omega)]
  · have hpiece : (file.drop position).take (min (file.length - position) store.chunkSize)
        = piece file position store.chunkSize := by
      rw [piece, ← List.length_drop, Nat.min_comm, ← List.take_take, List.take_length]
    rw [hpiece]
    congr 2
    exact decide_eq_decide.mpr (by omega)

/-- `.meta` files that are named by what they hold are listed by their names. -/
theorem listSnapshots_eq (h : ∀ file ∈ directory.metas, json.fromSlice file.2 = .ok file.1) :
    listSnapshots json directory = .ok ((directory.metas.map Prod.fst).insertionSort NotOlder) := by
  have hread : ∀ files : List (Metadata × Bytes),
      (∀ file ∈ files, json.fromSlice file.2 = .ok file.1) →
      files.mapM (fun file => (json.fromSlice file.2).mapError Error.serialization) =
      .ok (files.map Prod.fst) := by
    intro files hfiles
    induction files with
    | nil => rfl
    | cons file rest ih =>
      obtain ⟨hfile, hrest⟩ := List.forall_mem_cons.mp hfiles
      rw [List.mapM_cons, hfile, ih hrest]
      rfl
  rw [listSnapshots, hread _ h]
  rfl

/-- A snapshot is listed if it has a `.meta` file. -/
theorem listed_iff (h : ∀ file ∈ directory.metas, json.fromSlice file.2 = .ok file.1) :
    Listed json metadata directory ↔ metadata ∈ directory.metas.map Prod.fst := by
  rw [Listed, listSnapshots_eq h]
  simp

/-- One more chunk brings its own bytes. -/
theorem brings_append (chunk : Chunk) (index : ℕ) :
    Brings (kept ++ [chunk]) index ↔
      Brings kept index ∨ chunk.position ≤ index ∧ index < chunk.position + chunk.data.length := by
  simp [Brings, or_and_right, exists_or]

/-- A store that has not received a snapshot is ready to receive it. -/
theorem NotReceived.receiving (h : NotReceived json metadata directory) :
    Receiving json metadata content [] directory where
  named := h.named
  listed := by
    refine iff_of_false h.noMeta fun hannounced => ?_
    exact hannounced.sinceCreated_ne_nil rfl
  absent _ := h.noSnapshot
  present hne := absurd rfl hne

/-- Writing a chunk to the file it finds, or creates. -/
theorem Receiving.write (h : Receiving json metadata content arrived directory) {chunk : Chunk}
    {found : Bytes} {before : ℕ → Prop}
    (hfound : (if chunk.position = 0 then some [] else directory.snapshots.lookup metadata) =
      some found)
    (hsparse : Sparse content before found) {size : ℕ}
    (hdata : chunk.data = piece content chunk.position size)
    (hne : sinceCreated (arrived ++ [chunk]) ≠ [])
    (hafter : ∀ index, Brings (sinceCreated (arrived ++ [chunk])) index ↔
      before index ∨ chunk.position ≤ index ∧ index < chunk.position + chunk.data.length) :
    Receiving json metadata content (arrived ++ [chunk])
      (writeChunk json metadata chunk directory).2 := by
  have hpresent : Sparse content (Brings (sinceCreated (arrived ++ [chunk])))
      (writeAll chunk.position chunk.data found) := by
    rw [hdata] at hafter ⊢
    exact (hsparse.writeAll chunk.position size).congr hafter
  -- the snapshot file is the same in all three cases, the `.meta` file is written in one of them
  have hwritten : ∀ metas, (∀ file ∈ metas, json.fromSlice file.2 = .ok file.1) →
      (metadata ∈ metas.map Prod.fst ↔ Announced json metadata (arrived ++ [chunk])) →
      Receiving json metadata content (arrived ++ [chunk])
        ⟨writeFile metadata (writeAll chunk.position chunk.data found) directory.snapshots,
          metas⟩ :=
    fun metas hnamed hlisted => ⟨hnamed, hlisted, fun hnil => absurd hnil hne,
      fun _ => ⟨_, lookup_writeFile _ _, hpresent⟩⟩
  simp only [writeChunk, hfound]
  split_ifs with hdone
  · cases hjson : json.toVec metadata with
    | error error =>
      refine hwritten _ h.named (h.listed.trans ?_)
      have hnone : ¬ ∃ bytes, json.toVec metadata = .ok bytes := by simp [hjson]
      exact iff_of_false (fun hold => hnone hold.1) fun hnew => hnone hnew.1
    | ok bytes =>
      refine hwritten _ (fun file hfile => ?_) (iff_of_true List.mem_cons_self ?_)
      · rcases mem_put hfile with rfl | hold
        · exact json.fromSlice_toVec metadata bytes hjson
        · exact h.named file hold
      · exact (announced_concat arrived chunk).mpr (.inr ⟨⟨bytes, hjson⟩, hdone, hne⟩)
  · refine hwritten _ h.named (h.listed.trans ?_)
    rw [announced_concat]
    exact ⟨.inl, fun hor => hor.resolve_right fun hnew => hdone hnew.2.1⟩

/-- Delivering a chunk of the content, at any position, keeps the record of what was delivered. -/
theorem Receiving.writeChunk (h : Receiving json metadata content arrived directory) {chunk : Chunk}
    {size : ℕ} (hdata : chunk.data = piece content chunk.position size) :
    Receiving json metadata content (arrived ++ [chunk])
      (writeChunk json metadata chunk directory).2 := by
  by_cases hzero : chunk.position = 0
  · have hsince : sinceCreated (arrived ++ [chunk]) = [chunk] := by
      rw [sinceCreated_concat, keepSinceCreated, if_pos hzero]
    refine h.write (by rw [if_pos hzero]) (Sparse.empty content) hdata (by simp [hsince]) ?_
    intro index
    simp [hsince, Brings]
  · have hkeep : sinceCreated (arrived ++ [chunk]) =
        if sinceCreated arrived = [] then [] else sinceCreated arrived ++ [chunk] := by
      rw [sinceCreated_concat, keepSinceCreated, if_neg hzero]
    by_cases hnil : sinceCreated arrived = []
    · -- the file does not exist yet
      rw [if_pos hnil] at hkeep
      have hnone := h.absent hnil
      simp only [SnapshotStore.writeChunk, if_neg hzero, hnone]
      refine ⟨h.named, h.listed.trans ?_, fun _ => hnone, fun hne => absurd hkeep hne⟩
      rw [announced_concat]
      exact ⟨.inl, fun hor => hor.resolve_right fun hnew => hnew.2.2 hkeep⟩
    · rw [if_neg hnil] at hkeep
      obtain ⟨file, hfile, hsparse⟩ := h.present hnil
      refine h.write (by rw [if_neg hzero, hfile]) hsparse hdata (by simp [hkeep]) ?_
      rw [hkeep]
      exact brings_append chunk

/-- After any deliveries of chunks of the content, the file holds what was brought since it was
created. -/
theorem Receiving.receive (h : Receiving json metadata content arrived directory)
    {chunks : List Chunk}
    (hchunks : ∀ chunk ∈ chunks, ∃ size, chunk.data = piece content chunk.position size) :
    Receiving json metadata content (arrived ++ chunks)
      (receive json metadata chunks directory) := by
  induction chunks generalizing arrived directory with
  | nil => rwa [List.append_nil]
  | cons chunk rest ih =>
    obtain ⟨⟨size, hdata⟩, hrest⟩ := List.forall_mem_cons.mp hchunks
    rw [List.append_cons]
    exact ih (h.writeChunk hdata) hrest

/-- A snapshot is listed exactly if it was announced. -/
theorem Receiving.listed_iff (h : Receiving json metadata content arrived directory) :
    Listed json metadata directory ↔ Announced json metadata arrived :=
  (SnapshotStore.listed_iff h.named).trans h.listed

/-- An announced snapshot is the content exactly if its bytes were brought since the file was
created. -/
theorem Receiving.loadSnapshot_iff (h : Receiving json metadata content arrived directory)
    (store : SnapshotStore) (hannounced : Announced json metadata arrived) :
    store.loadSnapshot metadata directory = .ok content ↔
      BringAll (sinceCreated arrived) content := by
  obtain ⟨file, hfile, hsparse⟩ := h.present hannounced.sinceCreated_ne_nil
  rw [loadSnapshot, hfile, Except.ok.injEq]
  exact hsparse.eq_iff

end

/-- Whatever chunks of a sender's snapshot are delivered, in any order, repeated or lost: a listed
snapshot loads as the sender's bytes exactly if these, once it is announced, were all brought since
the last chunk for position zero. -/
theorem listed_complete_iff (json : Json) (metadata : Metadata) (sender receiver : SnapshotStore)
    {source target : Directory} {content : Bytes}
    (hsaved : sender.loadSnapshot metadata source = .ok content)
    (htarget : NotReceived json metadata target) {chunks : List Chunk}
    (hchunks : ∀ chunk ∈ chunks,
      ∃ position, sender.readChunk metadata position source = .ok chunk) :
    (Listed json metadata (receive json metadata chunks target) →
        receiver.loadSnapshot metadata (receive json metadata chunks target) = .ok content) ↔
      (Announced json metadata chunks → BringAll (sinceCreated chunks) content) := by
  have hfile : source.snapshots.lookup metadata = some content := by
    unfold loadSnapshot at hsaved
    split at hsaved
    · nomatch hsaved
    · rename_i hfile
      rw [hfile, Except.ok.inj hsaved]
  have hpieces : ∀ chunk ∈ chunks, ∃ size, chunk.data = piece content chunk.position size := by
    intro chunk hchunk
    obtain ⟨position, hread⟩ := hchunks chunk hchunk
    rw [readChunk_eq sender hfile] at hread
    cases hread
    exact ⟨sender.chunkSize, rfl⟩
  have hreceiving := htarget.receiving.receive hpieces
  rw [List.nil_append] at hreceiving
  rw [hreceiving.listed_iff]
  exact imp_congr_right fun hannounced => hreceiving.loadSnapshot_iff receiver hannounced

/-- A codec for the metadata of term 3 and index 100. -/
def testJson : Json where
  toVec metadata := if metadata = ⟨3, 100⟩ then .ok [123, 125] else .error "unsupported"
  fromSlice bytes := if bytes = [123, 125] then .ok ⟨3, 100⟩ else .error "unsupported"
  fromSlice_toVec metadata bytes h := by
    split_ifs at h with hmetadata
    · cases h
      rw [hmetadata, if_pos rfl]

/-- A sender with chunks of two bytes. -/
def testSender : SnapshotStore := (new "sender").withChunkSize 2 (by decide)

/-- The sender's directory with a snapshot of five bytes. -/
def testSource : Directory := (saveSnapshot testJson ⟨3, 100⟩ [1, 2, 3, 4, 5] .empty).2

/-- An empty directory has not received the snapshot. -/
theorem notReceived_empty (json : Json) (metadata : Metadata) :
    NotReceived json metadata .empty where
  noSnapshot := rfl
  noMeta := List.not_mem_nil
  named _ hfile := absurd hfile List.not_mem_nil

/-- Chunks out of order and repeated, the second arriving again after the last. -/
theorem listed_complete_reordered :
    let chunks : List Chunk :=
      [⟨[3, 4], 2, false⟩, ⟨[1, 2], 0, false⟩, ⟨[5], 4, true⟩, ⟨[3, 4], 2, false⟩]
    (new "receiver").loadSnapshot ⟨3, 100⟩ (receive testJson ⟨3, 100⟩ chunks .empty) =
      .ok [1, 2, 3, 4, 5] ∧
      BringAll (sinceCreated chunks) [1, 2, 3, 4, 5] := by
  intro chunks
  have hchunks : ∀ chunk ∈ chunks, ∃ position, testSender.readChunk ⟨3, 100⟩ position testSource =
      .ok chunk := by
    simp only [chunks, List.forall_mem_cons]
    exact ⟨⟨2, rfl⟩, ⟨0, rfl⟩, ⟨4, rfl⟩, ⟨2, rfl⟩, by simp⟩
  have hannounced : Announced testJson ⟨3, 100⟩ chunks :=
    ⟨⟨[123, 125], rfl⟩, [⟨[3, 4], 2, false⟩, ⟨[1, 2], 0, false⟩], ⟨[5], 4, true⟩,
      ⟨[⟨[3, 4], 2, false⟩], rfl⟩, rfl, ⟨[1, 2], 0, false⟩, by decide, rfl⟩
  have hload : (new "receiver").loadSnapshot ⟨3, 100⟩
      (receive testJson ⟨3, 100⟩ chunks .empty) = .ok [1, 2, 3, 4, 5] := rfl
  exact ⟨hload, (listed_complete_iff testJson ⟨3, 100⟩ testSender (new "receiver") rfl
    (notReceived_empty testJson ⟨3, 100⟩) hchunks).mp (fun _ => hload) hannounced⟩

/-- The transfer reads three chunks, each at the position the one before it reached. If the second
is lost, the snapshot is listed with zeros in its place. If the first arrives again at the end,
only that is left of the listed snapshot. -/
theorem listed_incomplete :
    let first : Chunk := ⟨[1, 2], 0, false⟩
    let second : Chunk := ⟨[3, 4], 2, false⟩
    let last : Chunk := ⟨[5], 4, true⟩
    let lost := receive testJson ⟨3, 100⟩ [first, last] .empty
    let repeated := receive testJson ⟨3, 100⟩ [first, second, last, first] .empty
    testSender.loadSnapshot ⟨3, 100⟩ testSource = .ok [1, 2, 3, 4, 5] ∧
      testSender.readChunk ⟨3, 100⟩ 0 testSource = .ok first ∧
      testSender.readChunk ⟨3, 100⟩ (0 + first.data.length) testSource = .ok second ∧
      testSender.readChunk ⟨3, 100⟩ (2 + second.data.length) testSource = .ok last ∧
      listSnapshots testJson lost = .ok [⟨3, 100⟩] ∧
      (new "receiver").loadSnapshot ⟨3, 100⟩ lost = .ok [1, 2, 0, 0, 5] ∧
      listSnapshots testJson repeated = .ok [⟨3, 100⟩] ∧
      (new "receiver").loadSnapshot ⟨3, 100⟩ repeated = .ok [1, 2] :=
  ⟨rfl, rfl, rfl, rfl, rfl, rfl, rfl, rfl⟩

end SnapshotStore

end XRaft
