import Mathlib.Data.List.Nodup
import Mathlib.Data.Nat.Pairing
import Mathlib.Logic.Function.Basic
import XRaft.Storage.SnapshotStore

/-!
# A snapshot directory over many saves, transfers and purges

`snapshot_store.rs` keeps no index: what is stored is what the directory holds, and the
operations find it by listing the `.meta` files. Here saves and chunk writes may stop in
either of the two files they write, and `purge_older_than` goes on when a file cannot be
removed. The catalogue says what a directory amounts to: the contents of each snapshot file,
and whether its `.meta` file is whole or torn.

A torn `.meta` file is not skipped. `list_snapshots` fails for the whole directory, and
`purge_older_than` fails with it, so nothing is removed until the same snapshot is
saved or received again.
-/

namespace XRaft

open Lib

namespace SnapshotStore

/-- The order of term and index by which a purge selects. -/
def Older (snap keep : Metadata) : Prop :=
  snap.term < keep.term ∨ snap.term = keep.term ∧ snap.index < keep.index

instance : DecidableRel Older := fun snap keep =>
  inferInstanceAs (Decidable (snap.term < keep.term ∨ snap.term = keep.term ∧
    snap.index < keep.index))

/-- The snapshots of which a file cannot be removed. -/
structure RemoveFaults where
  snapshot : Metadata → Bool
  metaFile : Metadata → Bool

/-- Remove a file. A failure is ignored, and so is a file that does not exist. -/
def removeFile (fails : Bool) (metadata : Metadata) (files : List (Metadata × Bytes)) :
    List (Metadata × Bytes) :=
  if fails then files else erase metadata files

/-- The loop of a purge over the listed snapshots, with the number it counts. -/
def purgeLoop (faults : RemoveFaults) (keep : Metadata) (all : List Metadata)
    (state : ℕ × Directory) : ℕ × Directory :=
  all.foldl (fun state snap =>
    if Older snap keep then
      (state.1 + 1, ⟨removeFile (faults.snapshot snap) snap state.2.snapshots,
        removeFile (faults.metaFile snap) snap state.2.metas⟩)
    else state) state

/-- Delete all snapshots older than the one to keep. -/
def purgeOlderThan (json : Json) (faults : RemoveFaults) (keep : Metadata) (directory : Directory) :
    Except Error ℕ × Directory :=
  match listSnapshots json directory with
  | .error error => (.error error, directory)
  | .ok all =>
    let purged := purgeLoop faults keep all (0, directory)
    (.ok purged.1, purged.2)

/-- The total size in bytes of a snapshot file. -/
def snapshotSize (metadata : Metadata) (directory : Directory) : Except Error ℕ :=
  match directory.snapshots.lookup metadata with
  | none => .error .io
  | some data => .ok data.length

/-- The file in whose write an operation stops: after some bytes of the snapshot file, or with so
many bytes and one more missing in the `.meta` file. -/
inductive WriteStop where
  | snapshot (count : ℕ)
  | metaFile (lost : ℕ)
  deriving DecidableEq, Repr

/-- A `.meta` file whose last bytes are missing. -/
def torn (lost : ℕ) (bytes : Bytes) : Bytes := bytes.take (bytes.length - (lost + 1))

/-- The directory after a save that may stop. -/
def saveUntil (json : Json) (metadata : Metadata) (data : Bytes) (stop : Option WriteStop)
    (directory : Directory) :
    Directory :=
  match json.toVec metadata, stop with
  | .error _, _ => directory
  | .ok _, some (.snapshot count) =>
    { directory with snapshots := writeFile metadata (data.take count) directory.snapshots }
  | .ok bytes, some (.metaFile lost) =>
    ⟨writeFile metadata data directory.snapshots,
      writeFile metadata (torn lost bytes) directory.metas⟩
  | .ok _, none => (saveSnapshot json metadata data directory).2

/-- The directory after the write of a chunk that may stop. -/
def writeUntil (json : Json) (metadata : Metadata) (chunk : Chunk) (stop : Option WriteStop)
    (directory : Directory) :
    Directory :=
  match stop with
  | none => (writeChunk json metadata chunk directory).2
  | some (.snapshot count) =>
    (writeChunk json metadata ⟨chunk.data.take count, chunk.position, false⟩ directory).2
  | some (.metaFile lost) =>
    match writeChunk json metadata ⟨chunk.data, chunk.position, false⟩ directory with
    | (.error _, same) => same
    | (.ok _, written) =>
      match chunk.done, json.toVec metadata with
      | true, .ok bytes =>
        { written with metas := writeFile metadata (torn lost bytes) written.metas }
      | _, _ => written

/-- What happens to a snapshot directory. -/
inductive SnapshotEvent where
  | save (metadata : Metadata) (data : Bytes) (stop : Option WriteStop)
  | write (metadata : Metadata) (chunk : Chunk) (stop : Option WriteStop)
  | purge (keep : Metadata) (faults : RemoveFaults)

/-- The directory after an event. -/
def Directory.step (json : Json) (directory : Directory) : SnapshotEvent → Directory
  | .save metadata data stop => saveUntil json metadata data stop directory
  | .write metadata chunk stop => writeUntil json metadata chunk stop directory
  | .purge keep faults => (purgeOlderThan json faults keep directory).2

/-- The event is to write the `.meta` file of a snapshot, and does not stop. -/
def SnapshotEvent.Completes (metadata : Metadata) : SnapshotEvent → Prop
  | .save name _ stop => name = metadata ∧ stop = none
  | .write name chunk stop => name = metadata ∧ chunk.done = true ∧ stop = none
  | .purge _ _ => False

/-- The event is to write the file of a snapshot. -/
def SnapshotEvent.Writes (metadata : Metadata) : SnapshotEvent → Prop
  | .save name _ _ => name = metadata
  | .write name _ _ => name = metadata
  | .purge _ _ => False

/-- The state of a `.meta` file. -/
inductive Mark where
  | whole
  | torn
  deriving DecidableEq, Repr

/-- What a directory amounts to. -/
structure Catalogue where
  contents : Metadata → Option Bytes
  marks : Metadata → Option Mark

namespace Catalogue

/-- Nothing was stored. -/
def empty : Catalogue := ⟨fun _ => none, fun _ => none⟩

/-- A snapshot file has a new content. -/
def put (metadata : Metadata) (data : Bytes) (catalogue : Catalogue) : Catalogue :=
  { catalogue with contents := Function.update catalogue.contents metadata (some data) }

/-- A `.meta` file was written. -/
def mark (metadata : Metadata) (mark : Mark) (catalogue : Catalogue) : Catalogue :=
  { catalogue with marks := Function.update catalogue.marks metadata (some mark) }

/-- Some `.meta` file is torn. -/
def Blocked (catalogue : Catalogue) : Prop := ∃ metadata, catalogue.marks metadata = some .torn

/-- A purge selects the snapshots that are marked and older. -/
def Selects (keep : Metadata) (catalogue : Catalogue) (metadata : Metadata) : Prop :=
  catalogue.marks metadata = some .whole ∧ Older metadata keep

/-- The mark that a write leaves which may stop in the `.meta` file. -/
def markUntil (metadata : Metadata) (stop : Option WriteStop) (catalogue : Catalogue) : Catalogue :=
  match stop with
  | none => catalogue.mark metadata .whole
  | some (.snapshot _) => catalogue
  | some (.metaFile _) => catalogue.mark metadata .torn

/-- The bytes that a write brings which may stop in the snapshot file. -/
def dataUntil (data : Bytes) : Option WriteStop → Bytes
  | some (.snapshot count) => data.take count
  | _ => data

open Classical in
/-- The catalogue after an event. -/
noncomputable def step (catalogue : Catalogue) : SnapshotEvent → Catalogue
  | .save metadata data stop =>
    (catalogue.put metadata (dataUntil data stop)).markUntil metadata stop
  | .write metadata chunk stop =>
    match if chunk.position = 0 then some [] else catalogue.contents metadata with
    | none => catalogue
    | some file =>
      let written :=
        catalogue.put metadata (writeAll chunk.position (dataUntil chunk.data stop) file)
      if chunk.done then written.markUntil metadata stop else written
  | .purge keep faults =>
    if catalogue.Blocked then catalogue
    else
      ⟨fun metadata =>
          if catalogue.Selects keep metadata ∧ faults.snapshot metadata = false then none
          else catalogue.contents metadata,
        fun metadata =>
          if catalogue.Selects keep metadata ∧ faults.metaFile metadata = false then none
          else catalogue.marks metadata⟩

end Catalogue

/-- What `serde_json` does on metadata: it never fails to write it, and it does not read it with
bytes missing. -/
structure Json.Sound (json : Json) : Prop where
  total : ∀ metadata, ∃ bytes, json.toVec metadata = .ok bytes
  cut : ∀ metadata bytes lost, json.toVec metadata = .ok bytes → ∃ error,
    json.fromSlice (torn lost bytes) = .error error

/-- How a `.meta` file with a mark reads. -/
def Reads (json : Json) (metadata : Metadata) : Mark → Bytes → Prop
  | .whole, bytes => json.fromSlice bytes = .ok metadata
  | .torn, bytes => ∃ error, json.fromSlice bytes = .error error

/-- The directory holds what the catalogue says, each `.meta` file once. -/
structure Catalogue.Represents (json : Json) (catalogue : Catalogue) (directory : Directory) :
    Prop where
  contents : ∀ metadata, directory.snapshots.lookup metadata = catalogue.contents metadata
  marks : ∀ metadata,
    Option.Rel (Reads json metadata) (catalogue.marks metadata) (directory.metas.lookup metadata)
  distinct : (directory.metas.map Prod.fst).Nodup

/-- The files by name after one was written. -/
theorem lookup_writeFile_eq (metadata : Metadata) (bytes : Bytes) (files : List (Metadata × Bytes))
    (other : Metadata) :
    (writeFile metadata bytes files).lookup other =
      Function.update (fun name => files.lookup name) metadata (some bytes) other := by
  rw [writeFile, lookup_put, Function.update_apply]

section Listing

variable {metadata keep : Metadata}

/-- The order of the listing is total. -/
instance : Std.Total NotOlder := ⟨fun first second => by unfold NotOlder; omega⟩

/-- The order of the listing is transitive. -/
instance : IsTrans Metadata NotOlder := ⟨fun first second third => by unfold NotOlder; omega⟩

/-- Of two snapshots in the order of the listing, the second is older. -/
theorem older_of_notOlder {first second : Metadata} (h : NotOlder first second)
    (hne : first ≠ second) : Older second first := by
  obtain ⟨term, index⟩ := first
  obtain ⟨otherTerm, otherIndex⟩ := second
  simp only [NotOlder, Older, ne_eq, Metadata.mk.injEq] at h hne ⊢
  omega

/-- Distinct snapshots are listed from the newest on. -/
theorem descending_insertionSort {names : List Metadata} (h : names.Nodup) :
    (names.insertionSort NotOlder).Pairwise fun first second => Older second first := by
  have hnodup : (names.insertionSort NotOlder).Nodup :=
    (List.perm_insertionSort NotOlder names).nodup_iff.mpr h
  exact ((List.pairwise_insertionSort NotOlder names).and hnodup).imp fun hpair =>
    older_of_notOlder hpair.1 hpair.2

/-- One file that cannot be read fails the listing. -/
theorem listSnapshots_error {json : Json} {directory : Directory}
    (h : ∃ file ∈ directory.metas, ∃ error, json.fromSlice file.2 = .error error) :
    ∃ error, listSnapshots json directory = .error (.serialization error) := by
  have hread : ∀ files : List (Metadata × Bytes),
      (∃ file ∈ files, ∃ error, json.fromSlice file.2 = .error error) →
      ∃ error, files.mapM (fun file => (json.fromSlice file.2).mapError Error.serialization)
        = .error (.serialization error) := by
    intro files hfiles
    induction files with
    | nil => simp at hfiles
    | cons file rest ih =>
      rw [List.mapM_cons]
      cases hfile : json.fromSlice file.2 with
      | error error => exact ⟨error, rfl⟩
      | ok found =>
        obtain ⟨bad, hmem, error, hbad⟩ := hfiles
        have hrest : bad ∈ rest := by
          rcases List.mem_cons.mp hmem with rfl | hrest
          · simp [hfile] at hbad
          · exact hrest
        obtain ⟨error, herror⟩ := ih ⟨bad, hrest, error, hbad⟩
        rw [herror]
        exact ⟨error, rfl⟩
  obtain ⟨error, herror⟩ := hread _ h
  rw [listSnapshots, herror]
  exact ⟨error, rfl⟩

/-- The files that a purge of some snapshots leaves. -/
def purged (fails : Metadata → Bool) (keep : Metadata) (all : List Metadata) (metadata : Metadata) :
    Bool :=
  decide (metadata ∈ all ∧ Older metadata keep ∧ fails metadata = false)

/-- One round of the loop leaves the files of all other snapshots. -/
theorem removeFile_eq (fails : Metadata → Bool) (snap : Metadata)
    (files : List (Metadata × Bytes)) :
    removeFile (fails snap) snap files = files.filter fun file =>
      !decide (file.1 = snap ∧ fails file.1 = false) := by
  rw [removeFile]
  split_ifs with hfails
  · refine (List.filter_eq_self.mpr fun file _ => ?_).symm
    by_cases hname : file.1 = snap <;> simp [hname, hfails]
  · refine List.filter_congr fun file _ => ?_
    by_cases hname : file.1 = snap <;> simp [hname, hfails]

/-- The loop counts the older snapshots and removes their files, those that can be removed. -/
theorem purgeLoop_eq (faults : RemoveFaults) (keep : Metadata) (all : List Metadata) (removed : ℕ)
    (directory : Directory) :
    purgeLoop faults keep all (removed, directory) =
      (removed + all.countP fun snap => Older snap keep,
        ⟨directory.snapshots.filter fun file => !purged faults.snapshot keep all file.1,
          directory.metas.filter fun file => !purged faults.metaFile keep all file.1⟩) := by
  induction all generalizing removed directory with
  | nil => simp [purgeLoop, purged]
  | cons snap rest ih =>
    have hnext : ∀ state, purgeLoop faults keep (snap :: rest) state = purgeLoop faults keep rest
        (if Older snap keep then
          (state.1 + 1, ⟨removeFile (faults.snapshot snap) snap state.2.snapshots,
            removeFile (faults.metaFile snap) snap state.2.metas⟩)
        else state) := fun _ => rfl
    have hfilter : ∀ (fails : Metadata → Bool) (files : List (Metadata × Bytes)), Older snap keep →
        (removeFile (fails snap) snap files).filter (fun file => !purged fails keep rest file.1) =
          files.filter fun file => !purged fails keep (snap :: rest) file.1 := by
      intro fails files holder
      rw [removeFile_eq, List.filter_filter]
      refine List.filter_congr fun file _ => ?_
      by_cases hname : file.1 = snap <;> cases hfails : fails snap <;>
        simp [purged, hname, holder, hfails]
    rw [hnext]
    split_ifs with holder
    · rw [ih, hfilter _ _ holder, hfilter _ _ holder,
        List.countP_cons_of_pos (by simpa using holder)]
      congr 1
      omega
    · have hsame : ∀ fails : Metadata → Bool, purged fails keep (snap :: rest) =
          purged fails keep rest := by
        intro fails
        funext metadata
        by_cases hname : metadata = snap <;> simp [purged, hname, holder]
      rw [ih, hsame, hsame, List.countP_cons_of_neg (by simpa using holder)]

end Listing

namespace Catalogue

variable {json : Json} {catalogue : Catalogue} {directory : Directory} {metadata : Metadata}

/-- An empty directory represents the empty catalogue. -/
theorem represents_empty (json : Json) : Catalogue.empty.Represents json .empty where
  contents _ := rfl
  marks _ := .none
  distinct := List.nodup_nil

/-- Writing a snapshot file. -/
theorem Represents.put (h : catalogue.Represents json directory) (metadata : Metadata)
    (data : Bytes) :
    (catalogue.put metadata data).Represents json
      { directory with snapshots := writeFile metadata data directory.snapshots } where
  contents other := by rw [lookup_writeFile_eq, funext h.contents, Catalogue.put]
  marks := h.marks
  distinct := h.distinct

/-- Writing a `.meta` file. -/
theorem Represents.mark (h : catalogue.Represents json directory) {mark : Mark} {bytes : Bytes}
    (hreads : Reads json metadata mark bytes) :
    (catalogue.mark metadata mark).Represents json
      { directory with metas := writeFile metadata bytes directory.metas } where
  contents := h.contents
  marks other := by
    simp only [lookup_writeFile_eq, Catalogue.mark]
    by_cases hsame : other = metadata
    · subst hsame
      rw [Function.update_self, Function.update_self]
      exact .some hreads
    · rw [Function.update_of_ne hsame, Function.update_of_ne hsame]
      exact h.marks other
  distinct := nodup_put metadata bytes h.distinct

/-- A save that may stop. -/
theorem Represents.save (hjson : json.Sound) (h : catalogue.Represents json directory)
    (metadata : Metadata) (data : Bytes) (stop : Option WriteStop) :
    (catalogue.step (.save metadata data stop)).Represents json
      (saveUntil json metadata data stop directory) := by
  obtain ⟨bytes, hbytes⟩ := hjson.total metadata
  rcases stop with _ | count | lost
  · simp only [saveUntil, saveSnapshot, hbytes]
    exact (h.put metadata data).mark (json.fromSlice_toVec metadata bytes hbytes)
  · simp only [saveUntil, hbytes]
    exact h.put metadata (data.take count)
  · simp only [saveUntil, hbytes]
    exact (h.put metadata data).mark (hjson.cut metadata bytes lost hbytes)

/-- The write of a chunk that may stop. -/
theorem Represents.write (hjson : json.Sound) (h : catalogue.Represents json directory)
    (metadata : Metadata) (chunk : Chunk) (stop : Option WriteStop) :
    (catalogue.step (.write metadata chunk stop)).Represents json
      (writeUntil json metadata chunk stop directory) := by
  obtain ⟨bytes, hbytes⟩ := hjson.total metadata
  obtain ⟨data, position, done⟩ := chunk
  have hfound : (if position = 0 then some [] else directory.snapshots.lookup metadata) =
      if position = 0 then some [] else catalogue.contents metadata := by rw [h.contents]
  cases hfile : if position = 0 then some [] else catalogue.contents metadata with
  | none =>
    rw [hfile] at hfound
    rcases stop with _ | count | lost <;> simpa only [step, writeUntil, writeChunk, hfile,
      hfound] using h
  | some file =>
    rw [hfile] at hfound
    have hwhole : Reads json metadata .whole bytes := json.fromSlice_toVec metadata bytes hbytes
    rcases stop with _ | count | lost
    · have hput := h.put metadata (writeAll position data file)
      cases done
      · simpa [step, writeUntil, writeChunk, hfile, hfound, dataUntil] using hput
      · simpa [step, writeUntil, writeChunk, hfile, hfound, hbytes, dataUntil, markUntil]
          using hput.mark hwhole
    · have hput := h.put metadata (writeAll position (data.take count) file)
      simpa [step, writeUntil, writeChunk, hfile, hfound, dataUntil, markUntil] using hput
    · have hput := h.put metadata (writeAll position data file)
      have htorn : Reads json metadata .torn (torn lost bytes) :=
        hjson.cut metadata bytes lost hbytes
      cases done
      · simpa [step, writeUntil, writeChunk, hfile, hfound, dataUntil] using hput
      · simpa [step, writeUntil, writeChunk, hfile, hfound, hbytes, dataUntil, markUntil]
          using hput.mark htorn

/-- A directory with a torn `.meta` file cannot be listed. -/
theorem Represents.list_blocked (h : catalogue.Represents json directory)
    (hblocked : catalogue.Blocked) :
    ∃ error, listSnapshots json directory = .error (.serialization error) := by
  obtain ⟨metadata, htorn⟩ := hblocked
  have hmark := h.marks metadata
  rw [htorn] at hmark
  cases hfile : directory.metas.lookup metadata with
  | none =>
    rw [hfile] at hmark
    nomatch hmark
  | some bytes =>
    rw [hfile] at hmark
    cases hmark with
    | some hreads =>
      refine listSnapshots_error ⟨(metadata, bytes), ?_, hreads⟩
      obtain ⟨before, after, hfiles, -⟩ := List.lookup_eq_some_iff.mp hfile
      simp [hfiles]

/-- Every `.meta` file of a directory without torn ones holds its name. -/
theorem Represents.named (h : catalogue.Represents json directory) (hfree : ¬ catalogue.Blocked) :
    ∀ file ∈ directory.metas, json.fromSlice file.2 = .ok file.1 := by
  rintro ⟨metadata, bytes⟩ hfile
  have hmark := h.marks metadata
  rw [lookup_of_mem h.distinct hfile] at hmark
  cases hfound : catalogue.marks metadata with
  | none =>
    rw [hfound] at hmark
    nomatch hmark
  | some mark =>
    rw [hfound] at hmark
    cases hmark with
    | some hreads =>
      cases mark with
      | whole => exact hreads
      | torn => exact absurd ⟨metadata, hfound⟩ hfree

/-- The names of the `.meta` files of a directory without torn ones. -/
theorem Represents.mem_names (h : catalogue.Represents json directory)
    (hfree : ¬ catalogue.Blocked) :
    metadata ∈ directory.metas.map Prod.fst ↔ catalogue.marks metadata = some .whole := by
  have hmark := h.marks metadata
  rw [mem_keys_iff]
  cases hfound : catalogue.marks metadata with
  | none =>
    rw [hfound] at hmark
    cases hfile : directory.metas.lookup metadata with
    | none => simp
    | some bytes =>
      rw [hfile] at hmark
      nomatch hmark
  | some mark =>
    rw [hfound] at hmark
    cases hfile : directory.metas.lookup metadata with
    | none =>
      rw [hfile] at hmark
      nomatch hmark
    | some bytes =>
      cases mark with
      | whole => simp
      | torn => exact absurd ⟨metadata, hfound⟩ hfree

/-- The listing of a directory without torn `.meta` files. -/
theorem Represents.list_eq (h : catalogue.Represents json directory) (hfree : ¬ catalogue.Blocked) :
    ∃ listing, listSnapshots json directory = .ok listing ∧
      (listing.Pairwise fun first second => Older second first) ∧
      ∀ metadata, metadata ∈ listing ↔ catalogue.marks metadata = some .whole := by
  refine ⟨_, listSnapshots_eq (h.named hfree), descending_insertionSort h.distinct,
    fun metadata => ?_⟩
  rw [List.mem_insertionSort, h.mem_names hfree]

/-- A purge, in which some files may not be removed. -/
theorem Represents.purge (h : catalogue.Represents json directory) (keep : Metadata)
    (faults : RemoveFaults) :
    (catalogue.step (.purge keep faults)).Represents json
      (purgeOlderThan json faults keep directory).2 := by
  by_cases hblocked : catalogue.Blocked
  · obtain ⟨error, herror⟩ := h.list_blocked hblocked
    simpa only [step, if_pos hblocked, purgeOlderThan, herror] using h
  · obtain ⟨listing, hlisting, -, hmem⟩ := h.list_eq hblocked
    have hpurged : ∀ fails : Metadata → Bool, ∀ metadata,
        purged fails keep listing metadata = true ↔
        catalogue.Selects keep metadata ∧ fails metadata = false := by
      intro fails metadata
      simp [purged, Selects, hmem, and_assoc]
    simp only [step, if_neg hblocked, purgeOlderThan, hlisting, purgeLoop_eq]
    refine ⟨fun metadata => ?_, fun metadata => ?_, nodup_filter _ h.distinct⟩
    · rw [lookup_filter (fun name => !purged faults.snapshot keep listing name), h.contents]
      by_cases hselected : purged faults.snapshot keep listing metadata = true
      · simp [hselected, (hpurged _ _).mp hselected]
      · simp [hselected, mt (hpurged _ _).mpr hselected]
    · simp only [lookup_filter fun name => !purged faults.metaFile keep listing name]
      by_cases hselected : purged faults.metaFile keep listing metadata = true
      · rw [if_pos ((hpurged _ _).mp hselected)]
        simp [hselected]
      · rw [if_neg (mt (hpurged _ _).mpr hselected)]
        simpa [hselected] using h.marks metadata

/-- Every event keeps the directory in step with the catalogue. -/
theorem Represents.step (hjson : json.Sound) (h : catalogue.Represents json directory)
    (event : SnapshotEvent) :
    (catalogue.step event).Represents json (directory.step json event) := by
  cases event with
  | save metadata data stop => exact h.save hjson metadata data stop
  | write metadata chunk stop => exact h.write hjson metadata chunk stop
  | purge keep faults => exact h.purge keep faults

/-- Every run keeps the directory in step with the catalogue. -/
theorem Represents.run (hjson : json.Sound) (h : catalogue.Represents json directory)
    (events : List SnapshotEvent) :
    (events.foldl Catalogue.step catalogue).Represents json
      (events.foldl (Directory.step json) directory) := by
  induction events generalizing catalogue directory with
  | nil => exact h
  | cons event rest ih => exact ih (h.step hjson event)

/-- A torn `.meta` file stays until it is written again in full. -/
theorem marks_step_of_torn {event : SnapshotEvent} (htorn : catalogue.marks metadata = some .torn)
    (hevent : ¬ event.Completes metadata) : (catalogue.step event).marks metadata = some .torn := by
  have hput : ∀ name data, (catalogue.put name data).marks metadata = some .torn := fun _ _ => htorn
  have hmark : ∀ name data stop, ¬ (name = metadata ∧ stop = none) →
      ((catalogue.put name data).markUntil name stop).marks metadata = some .torn := by
    intro name data stop hnot
    rcases stop with _ | count | lost
    · have hne : metadata ≠ name := fun heq => hnot ⟨heq.symm, rfl⟩
      simp only [markUntil, mark, Function.update_of_ne hne, hput]
    · exact htorn
    · by_cases hsame : metadata = name
      · simp [markUntil, mark, hsame]
      · simp only [markUntil, mark, Function.update_of_ne hsame, hput]
  cases event with
  | save name data stop => exact hmark name _ stop hevent
  | write name chunk stop =>
    simp only [step]
    split
    · exact htorn
    · split_ifs with hdone
      · exact hmark name _ stop fun hboth => hevent ⟨hboth.1, hdone, hboth.2⟩
      · exact htorn
  | purge keep faults => rw [step, if_pos ⟨metadata, htorn⟩, htorn]

/-- A blocked directory loses no snapshot. -/
theorem contents_step_of_blocked {event : SnapshotEvent} (hblocked : catalogue.Blocked)
    (hevent : ¬ event.Writes metadata) :
    (catalogue.step event).contents metadata = catalogue.contents metadata := by
  have hput : ∀ name data stop, name ≠ metadata →
      ((catalogue.put name data).markUntil name stop).contents metadata =
      catalogue.contents metadata := by
    intro name data stop hne
    rcases stop with _ | count | lost <;> exact Function.update_of_ne hne.symm _ _
  cases event with
  | save name data stop => exact hput name _ stop hevent
  | write name chunk stop =>
    simp only [step]
    split
    · rfl
    · split_ifs
      · exact hput name _ stop hevent
      · exact Function.update_of_ne (Ne.symm hevent) _ _
  | purge keep faults => rw [step, if_pos hblocked]

/-- Along a run that does not write a torn `.meta` file in full, it stays torn and no other
snapshot is lost. -/
theorem run_of_torn (htorn : catalogue.marks metadata = some .torn) {events : List SnapshotEvent}
    (hevents : ∀ event ∈ events, ¬ event.Completes metadata) :
    (events.foldl Catalogue.step catalogue).marks metadata = some .torn ∧
      ∀ other, (∀ event ∈ events, ¬ event.Writes other) →
        (events.foldl Catalogue.step catalogue).contents other = catalogue.contents other := by
  induction events generalizing catalogue with
  | nil => exact ⟨htorn, fun _ _ => rfl⟩
  | cons event rest ih =>
    obtain ⟨hevent, hrest⟩ := List.forall_mem_cons.mp hevents
    obtain ⟨hmark, hcontents⟩ := ih (marks_step_of_torn htorn hevent) hrest
    refine ⟨hmark, fun other hother => ?_⟩
    obtain ⟨hfirst, hothers⟩ := List.forall_mem_cons.mp hother
    rw [List.foldl_cons, hcontents other hothers, contents_step_of_blocked ⟨metadata, htorn⟩ hfirst]

end Catalogue

/-- Whatever is saved, received in chunks and purged, with writes that stop and files that cannot
be removed: the directory holds what the catalogue says. Unless a `.meta` file is torn, the
listing is the marked snapshots from the newest on, and a purge counts the older ones of them. If
one is torn, listing fails and a purge changes nothing. -/
theorem directory_refines_catalogue {json : Json} (hjson : json.Sound) (store : SnapshotStore)
    (events : List SnapshotEvent) :
    let directory := events.foldl (Directory.step json) .empty
    let catalogue := events.foldl Catalogue.step .empty
    (∀ metadata data, store.loadSnapshot metadata directory = .ok data ↔
      catalogue.contents metadata = some data) ∧
      (∀ metadata size, snapshotSize metadata directory = .ok size ↔
        (catalogue.contents metadata).map List.length = some size) ∧
      (¬ catalogue.Blocked → ∃ listing, listSnapshots json directory = .ok listing ∧
        (listing.Pairwise fun first second => Older second first) ∧
        (∀ metadata, metadata ∈ listing ↔ catalogue.marks metadata = some .whole) ∧
        ∀ keep faults, (purgeOlderThan json faults keep directory).1 =
          .ok (listing.countP fun snap => Older snap keep)) ∧
      (catalogue.Blocked → ∃ error, listSnapshots json directory = .error (.serialization error) ∧
        ∀ keep faults, purgeOlderThan json faults keep directory = (.error (.serialization error),
          directory)) := by
  intro directory catalogue
  have h : catalogue.Represents json directory := (Catalogue.represents_empty json).run hjson events
  refine ⟨fun metadata data => ?_, fun metadata size => ?_, fun hfree => ?_, fun hblocked => ?_⟩
  · rw [loadSnapshot, h.contents]
    cases catalogue.contents metadata <;> simp
  · rw [snapshotSize, h.contents]
    cases catalogue.contents metadata <;> simp
  · obtain ⟨listing, hlisting, hdescending, hmem⟩ := h.list_eq hfree
    refine ⟨listing, hlisting, hdescending, hmem, fun keep faults => ?_⟩
    simp only [purgeOlderThan, hlisting, purgeLoop_eq, Nat.zero_add]
  · obtain ⟨error, herror⟩ := h.list_blocked hblocked
    exact ⟨error, herror, fun keep faults => by rw [purgeOlderThan, herror]⟩

/-- A codec for metadata that ends with a byte of its own. -/
def endedJson : Json where
  toVec metadata := .ok (List.replicate (Nat.pair metadata.term metadata.index) 49 ++ [125])
  fromSlice bytes :=
    if bytes.getLast? = some 125 then
      .ok ⟨(Nat.unpair (bytes.length - 1)).1, (Nat.unpair (bytes.length - 1)).2⟩
    else .error "EOF while parsing an object"
  fromSlice_toVec metadata bytes h := by
    cases h
    simp

/-- With the last byte missing, the rest is not read. -/
theorem endedJson_sound : endedJson.Sound where
  total _ := ⟨_, rfl⟩
  cut metadata bytes lost h := by
    cases h
    have htorn : torn lost (List.replicate (Nat.pair metadata.term metadata.index) 49 ++ [125]) =
        List.replicate (Nat.pair metadata.term metadata.index - lost) 49 := by
      rw [torn, List.length_append, List.length_replicate, List.length_singleton,
        List.take_append_of_le_length
        (by rw [List.length_replicate]; omega), List.take_replicate]
      congr 1
      omega
    refine ⟨_, if_neg ?_⟩
    rw [htorn, List.getLast?_replicate]
    split_ifs <;> simp

/-- A snapshot, and a newer one received in one chunk whose `.meta` file is torn. -/
def tornTransfer : List SnapshotEvent :=
  [.save ⟨1, 5⟩ [1] none, .write ⟨2, 9⟩ ⟨[2, 3], 0, true⟩ (some (.metaFile 1))]

/-- Both snapshots are there, but the directory cannot be listed. -/
theorem directory_refines_catalogue_torn :
    (new "dir").loadSnapshot ⟨2, 9⟩ (tornTransfer.foldl (Directory.step endedJson) .empty) =
      .ok [2, 3] ∧
      ∃ error, listSnapshots endedJson (tornTransfer.foldl (Directory.step endedJson) .empty) =
        .error (.serialization error) := by
  obtain ⟨hload, -, -, hblocked⟩ :=
    directory_refines_catalogue endedJson_sound (new "dir") tornTransfer
  obtain ⟨error, herror, -⟩ := hblocked ⟨⟨2, 9⟩, rfl⟩
  exact ⟨(hload ⟨2, 9⟩ [2, 3]).mpr rfl, error, herror⟩

/-- From the tear of a `.meta` file on, until this file is written again in full: the directory
cannot be listed, and no purge removes a snapshot. -/
theorem torn_meta_blocks {json : Json} (hjson : json.Sound) (store : SnapshotStore)
    {metadata : Metadata} (before : List SnapshotEvent) (data : Bytes) (lost : ℕ)
    {later : List SnapshotEvent} (hlater : ∀ event ∈ later, ¬ event.Completes metadata) :
    let torn :=
      (before ++ [SnapshotEvent.save metadata data (some (.metaFile lost))]).foldl
        (Directory.step json) .empty
    let directory := later.foldl (Directory.step json) torn
    (∃ error, listSnapshots json directory = .error (.serialization error)) ∧
      ∀ other, (∀ event ∈ later, ¬ event.Writes other) →
        store.loadSnapshot other directory = store.loadSnapshot other torn := by
  intro torn directory
  have hbefore := (Catalogue.represents_empty json).run hjson
    (before ++ [.save metadata data (some (.metaFile lost))])
  have hafter := hbefore.run hjson later
  have htorn :
      ((before ++ [SnapshotEvent.save metadata data (some (.metaFile lost))]).foldl Catalogue.step
      .empty).marks metadata = some .torn := by
    rw [List.foldl_append]
    exact Function.update_self _ _ _
  obtain ⟨hmark, hcontents⟩ := Catalogue.run_of_torn htorn hlater
  refine ⟨hafter.list_blocked ⟨metadata, hmark⟩, fun other hother => ?_⟩
  rw [loadSnapshot, loadSnapshot, hafter.contents, hbefore.contents, hcontents other hother]

/-- The purge that follows leaves the older snapshot in place. -/
theorem torn_meta_blocks_purge :
    let torn := [SnapshotEvent.save ⟨1, 5⟩ [1] none, .save ⟨2, 9⟩ [2, 3] (some (.metaFile 0))].foldl
      (Directory.step endedJson) .empty
    let directory := [SnapshotEvent.purge ⟨2, 9⟩ ⟨fun _ => false, fun _ => false⟩].foldl
      (Directory.step endedJson) torn
    (∃ error, listSnapshots endedJson directory = .error (.serialization error)) ∧
      (new "dir").loadSnapshot ⟨1, 5⟩ directory = .ok [1] := by
  intro torn directory
  obtain ⟨hlist, hload⟩ :=
    torn_meta_blocks endedJson_sound (new "dir") [.save ⟨1, 5⟩ [1] none] [2, 3] 0
      (by simp [SnapshotEvent.Completes] :
        ∀ event ∈ [SnapshotEvent.purge ⟨2, 9⟩ ⟨fun _ => false, fun _ => false⟩],
        ¬ event.Completes ⟨2, 9⟩)
  exact ⟨hlist, (hload ⟨1, 5⟩ (by simp [SnapshotEvent.Writes])).trans rfl⟩

end SnapshotStore

end XRaft
