import XRaft.Storage.SnapshotStore

/-!
# The transfer of a whole snapshot

The loop around `read_chunk` and `write_chunk`: from position zero on, a chunk is read from the
sender, written to the receiver and followed by the next one, until a chunk is marked as done.
Before each round the receiver's file is the content up to the position; the first round
creates or truncates the file, so what the receiver had before does not matter.

The loop carries fuel for its rounds. It needs one round for each chunk, and one for a
snapshot without bytes.
-/

namespace XRaft

open Lib

namespace SnapshotStore

/-- A round of a transfer: the chunk, and the receiver's directory when it was written. -/
structure Round where
  chunk : Chunk
  after : Directory
  deriving DecidableEq, Repr

/-- Read chunks and write them until one is done; `none` if the rounds run out. -/
def transfer (json : Json) (metadata : Metadata) (sender : SnapshotStore) (source : Directory) :
    ℕ → ℕ → Directory → Option (Except Error (List Round))
  | 0, _, _ => none
  | fuel + 1, position, target =>
    match sender.readChunk metadata position source with
    | .error error => some (.error error)
    | .ok chunk =>
      match writeChunk json metadata chunk target with
      | (.error error, _) => some (.error error)
      | (.ok _, after) =>
        if chunk.done then some (.ok [⟨chunk, after⟩])
        else
          (transfer json metadata sender source fuel (position + chunk.data.length) after).map
            (Except.map (⟨chunk, after⟩ :: ·))

/-- The number of chunks of a content, at least one. -/
def roundCount (length chunkSize : ℕ) : ℕ := max 1 ((length + chunkSize - 1) / chunkSize)

/-- A content that fits a chunk takes one round. -/
theorem roundCount_of_le {length chunkSize : ℕ} (hpos : 0 < chunkSize) (h : length ≤ chunkSize) :
    roundCount length chunkSize = 1 := by
  have hless : (length + chunkSize - 1) / chunkSize < 2 := by
    rw [Nat.div_lt_iff_lt_mul hpos]
    omega
  rw [roundCount]
  omega

/-- A longer content takes one round more than what is left behind the first chunk. -/
theorem roundCount_of_lt {length chunkSize : ℕ} (hpos : 0 < chunkSize) (h : chunkSize < length) :
    roundCount length chunkSize = roundCount (length - chunkSize) chunkSize + 1 := by
  have hsplit : length + chunkSize - 1 = (length - chunkSize + chunkSize - 1) + chunkSize := by
    omega
  have hleft : 1 ≤ (length - chunkSize + chunkSize - 1) / chunkSize := by
    rw [Nat.le_div_iff_mul_le hpos]
    omega
  rw [roundCount, roundCount, hsplit, Nat.add_div_right _ hpos]
  omega

/-- Writing the piece at the end of the content so far extends it. -/
theorem writeAll_piece {content : Bytes} {position : ℕ}
    (hposition : position ≤ content.length) (size : ℕ) :
    writeAll position (piece content position size) (content.take position) =
      content.take (position + size) := by
  have hlength : (content.take position).length = position := by
    rw [List.length_take]
    omega
  rw [List.take_add]
  change _ = content.take position ++ piece content position size
  rw [writeAll]
  split_ifs with hempty
  · rw [hempty, List.append_nil]
  · have hend := FileOp.apply_writeAt_end (content.take position) (piece content position size)
    rwa [hlength] at hend

/-- What a transfer to a directory does: the number of its rounds, `done` in the last one only,
the `.meta` file written then and not before, and the content in place. -/
structure Transferred (metadata : Metadata) (metaFile content : Bytes)
    (target : Directory) (count : ℕ) (rounds : List Round) : Prop where
  length : rounds.length = count
  done : rounds.map (fun round => round.chunk.done) = List.replicate (count - 1) false ++ [true]
  before : ∀ round ∈ rounds.dropLast, round.after.metas = target.metas
  last : ∃ last ∈ rounds.getLast?, last.after.metas = writeFile metadata metaFile target.metas ∧
    ∀ receiver : SnapshotStore, receiver.loadSnapshot metadata last.after = .ok content

section

variable {json : Json} {metadata : Metadata} {sender : SnapshotStore} {source target : Directory}
  {content metaFile : Bytes} {position : ℕ}

/-- The round that brings a piece before the end of the content. -/
def nextRound (metadata : Metadata) (content : Bytes) (position size : ℕ) (target : Directory) :
    Round :=
  ⟨⟨piece content position size, position, false⟩,
    ⟨writeFile metadata (content.take (position + size)) target.snapshots, target.metas⟩⟩

/-- The round that brings the last piece of the content, and the `.meta` file with it. -/
def lastRound (metadata : Metadata) (metaFile content : Bytes) (position size : ℕ)
    (target : Directory) : Round :=
  ⟨⟨piece content position size, position, true⟩,
    ⟨writeFile metadata content target.snapshots, writeFile metadata metaFile target.metas⟩⟩

/-- The last round is a transfer by itself. -/
theorem Transferred.lastRound (position size : ℕ) :
    Transferred metadata metaFile content target 1
      [lastRound metadata metaFile content position size target] where
  length := rfl
  done := rfl
  before _ hround := absurd hround List.not_mem_nil
  last := by
    refine ⟨_, rfl, rfl, fun receiver => ?_⟩
    rw [List.getLast_singleton, loadSnapshot, SnapshotStore.lastRound, lookup_writeFile]

/-- A round before a transfer makes it one round longer. -/
theorem Transferred.nextRound {size count : ℕ} {rounds : List Round} (hcount : 1 ≤ count)
    (h : Transferred metadata metaFile content
      (nextRound metadata content position size target).after count rounds) :
    Transferred metadata metaFile content target (count + 1)
      (nextRound metadata content position size target :: rounds) := by
  have hrounds : rounds ≠ [] := List.length_pos_iff.mp (h.length ▸ hcount)
  refine ⟨by rw [List.length_cons, h.length], ?_, ?_, ?_⟩
  · rw [List.map_cons, h.done, Nat.add_sub_cancel, ← Nat.sub_add_cancel hcount]
    rfl
  · rw [List.dropLast_cons_of_ne_nil hrounds, List.forall_mem_cons]
    exact ⟨rfl, h.before⟩
  · rw [List.getLast?_cons_of_ne_nil hrounds]
    exact h.last

/-- Before each round, the receiver has the content up to the position; at position zero it may
have anything. -/
def UpTo (metadata : Metadata) (content : Bytes) (position : ℕ) (target : Directory) : Prop :=
  position = 0 ∨ target.snapshots.lookup metadata = some (content.take position)

/-- Writing a chunk at the position reached brings the content up to the end of the chunk. -/
theorem writeChunk_upTo (hjson : json.toVec metadata = .ok metaFile)
    (htarget : UpTo metadata content position target) (hposition : position ≤ content.length)
    (size : ℕ) (done : Bool) :
    writeChunk json metadata ⟨piece content position size, position, done⟩ target =
      (.ok (), ⟨writeFile metadata (content.take (position + size)) target.snapshots,
        if done then writeFile metadata metaFile target.metas else target.metas⟩) := by
  have hfound : (if position = 0 then some [] else target.snapshots.lookup metadata) =
      some (content.take position) := by
    rcases htarget with rfl | hlookup
    · rfl
    · split_ifs with hzero
      · rw [hzero, List.take_zero]
      · exact hlookup
  simp only [writeChunk, hfound, writeAll_piece hposition size, hjson]
  cases done <;> rfl

/-- If the chunk reaches the end of the content, the round is the last. -/
theorem transfer_last (hsource : source.snapshots.lookup metadata = some content)
    (hjson : json.toVec metadata = .ok metaFile) (htarget : UpTo metadata content position target)
    (hposition : position ≤ content.length) (hlast : content.length ≤ position + sender.chunkSize)
    (fuel : ℕ) :
    transfer json metadata sender source (fuel + 1) position target =
      some (.ok [lastRound metadata metaFile content position sender.chunkSize target]) := by
  rw [transfer, readChunk_eq sender hsource, decide_eq_true hlast]
  simp only [writeChunk_upTo hjson htarget hposition, List.take_of_length_le hlast,
    if_true, lastRound]

/-- If it does not, the transfer goes on behind the chunk. -/
theorem transfer_next (hsource : source.snapshots.lookup metadata = some content)
    (hjson : json.toVec metadata = .ok metaFile) (htarget : UpTo metadata content position target)
    (hnext : position + sender.chunkSize < content.length) (fuel : ℕ) :
    let round := nextRound metadata content position sender.chunkSize target
    transfer json metadata sender source (fuel + 1) position target =
      (transfer json metadata sender source fuel (position + sender.chunkSize) round.after).map
        (Except.map (round :: ·)) := by
  have hposition : position ≤ content.length := by omega
  have hlength : (piece content position sender.chunkSize).length = sender.chunkSize := by
    rw [piece, List.length_take, List.length_drop]
    omega
  rw [transfer, readChunk_eq sender hsource, decide_eq_false (Nat.not_le.mpr hnext)]
  simp only [writeChunk_upTo hjson htarget hposition, Bool.false_eq_true, if_false,
    hlength, nextRound]

/-- From a position that was reached, with enough rounds, the rest of the content is transferred. -/
theorem transfer_from (hsource : source.snapshots.lookup metadata = some content)
    (hjson : json.toVec metadata = .ok metaFile) (count : ℕ)
    (htarget : UpTo metadata content position target) (hposition : position ≤ content.length)
    (hcount : roundCount (content.length - position) sender.chunkSize = count) :
    ∃ rounds, (∀ fuel, count ≤ fuel →
        transfer json metadata sender source fuel position target = some (.ok rounds)) ∧
      Transferred metadata metaFile content target count rounds := by
  have hpos := sender.chunkSize_pos
  have hone : 1 ≤ roundCount (content.length - position) sender.chunkSize := Nat.le_max_left _ _
  induction count generalizing position target with
  | zero => omega
  | succ count ih =>
    by_cases hlast : content.length ≤ position + sender.chunkSize
    · rw [roundCount_of_le hpos (by omega)] at hcount
      obtain rfl : count = 0 := by omega
      refine ⟨_, fun fuel hfuel => ?_, .lastRound position sender.chunkSize⟩
      obtain ⟨fuel, rfl⟩ := Nat.exists_eq_add_of_le' hfuel
      exact transfer_last hsource hjson htarget hposition hlast fuel
    · rw [roundCount_of_lt hpos (by omega), Nat.sub_sub, Nat.add_right_cancel_iff] at hcount
      have hleft : 1 ≤ roundCount (content.length - (position + sender.chunkSize))
          sender.chunkSize :=
        Nat.le_max_left _ _
      have hreached : UpTo metadata content (position + sender.chunkSize)
          (nextRound metadata content position sender.chunkSize target).after :=
        Or.inr (lookup_writeFile _ _)
      obtain ⟨rounds, hrounds, htransferred⟩ := ih hreached (Nat.le_of_not_le hlast) hcount hleft
      refine ⟨_, fun fuel hfuel => ?_, htransferred.nextRound (hcount ▸ hleft)⟩
      obtain ⟨fuel, rfl⟩ := Nat.exists_eq_add_of_le' hfuel
      rw [← Nat.add_assoc, transfer_next hsource hjson htarget (Nat.lt_of_not_le hlast),
        hrounds _ (Nat.le_add_left count fuel)]
      rfl

end

/-- The transfer of a saved snapshot ends after one round for each chunk, whatever the receiver's
directory held: the content is in place, and the last round alone is done and writes the `.meta`
file. -/
theorem transfer_lossless (json : Json) (metadata : Metadata) (sender : SnapshotStore)
    {data : Bytes} {before source : Directory}
    (hsave : saveSnapshot json metadata data before = (.ok (), source))
    (target : Directory) :
    ∃ metaFile rounds, json.toVec metadata = .ok metaFile ∧
      (∀ fuel, roundCount data.length sender.chunkSize ≤ fuel →
        transfer json metadata sender source fuel 0 target = some (.ok rounds)) ∧
      Transferred metadata metaFile data target (roundCount data.length sender.chunkSize)
        rounds := by
  rw [saveSnapshot] at hsave
  split at hsave
  · cases hsave
  · rename_i metaFile hjson
    have hsource : source.snapshots.lookup metadata = some data := by
      cases hsave
      exact lookup_writeFile data before.snapshots
    obtain ⟨rounds, hrounds⟩ :=
      transfer_from hsource hjson _ (Or.inl rfl) (Nat.zero_le data.length) rfl
    exact ⟨metaFile, rounds, hjson, hrounds⟩

/-- Five bytes in chunks of two, to a receiver with a longer file under the same name. -/
theorem transfer_lossless_stale :
    let stale : Directory := ⟨[(⟨3, 100⟩, [9, 9, 9, 9, 9, 9, 9])], []⟩
    saveSnapshot testJson ⟨3, 100⟩ [1, 2, 3, 4, 5] .empty = (.ok (), testSource) ∧
      ∃ rounds, transfer testJson ⟨3, 100⟩ testSender testSource 3 0 stale = some (.ok rounds) ∧
        Transferred ⟨3, 100⟩ [123, 125] [1, 2, 3, 4, 5] stale 3 rounds := by
  intro stale
  have hsave : saveSnapshot testJson ⟨3, 100⟩ [1, 2, 3, 4, 5] .empty = (.ok (), testSource) := rfl
  obtain ⟨metaFile, rounds, hjson, hrounds, htransferred⟩ :=
    transfer_lossless testJson ⟨3, 100⟩ testSender hsave stale
  cases hjson
  exact ⟨hsave, rounds, hrounds 3 (by decide), htransferred⟩

end SnapshotStore

end XRaft
