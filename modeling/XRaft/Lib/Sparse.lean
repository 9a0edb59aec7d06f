import Mathlib.Order.MinMax
import XRaft.Lib.Files

/-!
# Files that hold some of the bytes of a content

A content is sent in pieces, and each piece is written to a file at its position. Writing
past the end fills the gap with zeros. A file that received some of the pieces has the
content's byte wherever one was delivered and zeros elsewhere, up to the last delivered
byte. It is the content exactly if every byte was delivered, except for zeros in front of
a delivered byte.
-/

namespace XRaft.Lib

/-- Write all bytes at a position. Writing no bytes leaves the length, also past the end. -/
def writeAll (position : ℕ) (bytes file : List UInt8) : List UInt8 :=
  if bytes = [] then file else (FileOp.writeAt position bytes).apply file

/-- The length of a file after some bytes were written. -/
theorem length_writeAt (position : ℕ) (bytes file : List UInt8) :
    ((FileOp.writeAt position bytes).apply file).length =
      max file.length (position + bytes.length) := by
  simp only [FileOp.apply, List.length_append, List.length_take, List.length_replicate,
    List.length_drop]
  omega

/-- A byte in front of the written ones: the old one, or a zero of the gap. -/
theorem getElem?_writeAt_before {position index : ℕ} (bytes file : List UInt8)
    (h : index < position) :
    ((FileOp.writeAt position bytes).apply file)[index]? = some (file[index]?.getD 0) := by
  have hfirst : index <
      (file.take position ++ List.replicate (position - file.length) 0).length := by
    simp only [List.length_append, List.length_take, List.length_replicate]
    omega
  rw [FileOp.apply, List.append_assoc _ bytes, List.getElem?_append_left hfirst]
  by_cases hold : index < file.length
  · rw [List.getElem?_append_left (by rw [List.length_take]; omega), List.getElem?_take_of_lt h,
      List.getElem?_eq_getElem hold, Option.getD_some]
  · rw [List.getElem?_append_right (by rw [List.length_take]; omega), List.getElem?_replicate_of_lt
      (by rw [List.length_take]; omega), List.getElem?_eq_none (by omega), Option.getD_none]

/-- A written byte. -/
theorem getElem?_writeAt_within {position index : ℕ} (bytes file : List UInt8)
    (hfrom : position ≤ index) (hto : index < position + bytes.length) :
    ((FileOp.writeAt position bytes).apply file)[index]? = bytes[index - position]? := by
  have hfirst : (file.take position ++ List.replicate (position - file.length) 0).length =
      position := by
    simp only [List.length_append, List.length_take, List.length_replicate]
    omega
  rw [FileOp.apply, List.getElem?_append_left (by rw [List.length_append, hfirst]; omega),
    List.getElem?_append_right (by omega), hfirst]

/-- A byte behind the written ones. -/
theorem getElem?_writeAt_behind {position index : ℕ} (bytes file : List UInt8)
    (h : position + bytes.length ≤ index) :
    ((FileOp.writeAt position bytes).apply file)[index]? = file[index]? := by
  have hfirst : (file.take position ++ List.replicate (position - file.length) 0 ++ bytes).length
      = position + bytes.length := by
    simp only [List.length_append, List.length_take, List.length_replicate]
    omega
  rw [FileOp.apply, List.getElem?_append_right (by omega), hfirst, List.getElem?_drop]
  congr 1
  omega

/-- A byte of the longer file that was not written: the old one, or a zero of the gap. -/
theorem getElem?_writeAt_outside {position index : ℕ} (bytes file : List UInt8)
    (hinside : index < ((FileOp.writeAt position bytes).apply file).length)
    (hnot : ¬ (position ≤ index ∧ index < position + bytes.length)) :
    ((FileOp.writeAt position bytes).apply file)[index]? = some (file[index]?.getD 0) := by
  by_cases hbefore : index < position
  · exact getElem?_writeAt_before bytes file hbefore
  · rw [length_writeAt] at hinside
    have hold : index < file.length := by omega
    rw [getElem?_writeAt_behind bytes file (by omega), List.getElem?_eq_getElem hold,
      Option.getD_some]

/-- The bytes of a content from a position on, up to a size. -/
def piece (content : List UInt8) (position size : ℕ) : List UInt8 :=
  (content.drop position).take size

/-- The piece between two parts of some bytes. -/
theorem piece_append {before middle : List UInt8} {position size : ℕ}
    (hposition : position = before.length) (hsize : size = middle.length) (after : List UInt8) :
    piece (before ++ (middle ++ after)) position size = middle := by
  rw [piece, hposition, List.drop_left, hsize, List.take_left]

/-- A byte of a piece is the content's. -/
theorem getElem?_piece {content : List UInt8} {position size index : ℕ} (hfrom : position ≤ index)
    (hto : index < position + (piece content position size).length) :
    (piece content position size)[index - position]? = content[index]? := by
  have hsize : index - position < size := by
    rw [piece, List.length_take] at hto
    omega
  rw [piece, List.getElem?_take_of_lt hsize, List.getElem?_drop]
  congr 1
  omega

/-- The file holds the delivered bytes of a content, and zeros in the gaps between them. -/
structure Sparse (content : List UInt8) (delivered : ℕ → Prop) (file : List UInt8) : Prop where
  known : ∀ index, delivered index → index < content.length
  reach : ∀ index, index < file.length ↔ ∃ later, index ≤ later ∧ delivered later
  byte : ∀ index, delivered index → file[index]? = content[index]?
  gap : ∀ index, index < file.length → ¬ delivered index → file[index]? = some 0

namespace Sparse

variable {content file : List UInt8} {delivered : ℕ → Prop}

/-- The empty file received nothing. -/
theorem empty (content : List UInt8) : Sparse content (fun _ => False) [] where
  known _ hnone := hnone.elim
  reach index := by simp
  byte _ hnone := hnone.elim
  gap index hinside := absurd hinside (Nat.not_lt_zero index)

/-- What is delivered matters only up to equivalence. -/
theorem congr (h : Sparse content delivered file) {other : ℕ → Prop}
    (heq : ∀ index, other index ↔ delivered index) : Sparse content other file := by
  obtain rfl : other = delivered := funext fun index => propext (heq index)
  exact h

/-- The file is the content exactly if each byte was delivered, or is a zero in front of a
delivered one. -/
theorem eq_iff (h : Sparse content delivered file) :
    file = content ↔ ∀ index byte, content[index]? = some byte →
      delivered index ∨ byte = 0 ∧ ∃ later, index < later ∧ delivered later := by
  constructor
  · rintro rfl index byte hbyte
    by_cases hdelivered : delivered index
    · exact .inl hdelivered
    · have hinside : index < file.length := (List.getElem?_eq_some_iff.mp hbyte).1
      obtain ⟨later, hle, hlater⟩ := (h.reach index).mp hinside
      have hne : index ≠ later := fun heq => hdelivered (heq ▸ hlater)
      exact .inr ⟨Option.some.inj (hbyte.symm.trans (h.gap index hinside hdelivered)), later,
        by omega, hlater⟩
  · intro hwhole
    apply List.ext_getElem?
    intro index
    by_cases hdelivered : delivered index
    · exact h.byte index hdelivered
    · rcases hcontent : content[index]? with _ | byte
      · -- nothing was delivered from here on, so the file ends too
        apply List.getElem?_eq_none
        by_contra hinside
        obtain ⟨later, hle, hlater⟩ := (h.reach index).mp (by omega)
        have hlt := h.known later hlater
        have hend := List.getElem?_eq_none_iff.mp hcontent
        omega
      · obtain hhere | ⟨rfl, later, hlt, hlater⟩ := hwhole index byte hcontent
        · exact absurd hhere hdelivered
        · exact h.gap index ((h.reach index).mpr ⟨later, Nat.le_of_lt hlt, hlater⟩) hdelivered

/-- Writing a piece of the content delivers its bytes. -/
theorem writeAll (h : Sparse content delivered file) (position size : ℕ) :
    Sparse content
      (fun index => delivered index ∨
        position ≤ index ∧ index < position + (piece content position size).length)
      (writeAll position (piece content position size) file) := by
  have hpiece : position + (piece content position size).length ≤ content.length ∨
      piece content position size = [] := by
    rw [piece, List.take_eq_nil_iff, List.drop_eq_nil_iff, List.length_take, List.length_drop]
    omega
  generalize hdata : piece content position size = data at hpiece ⊢
  by_cases hnil : data = []
  · rw [Lib.writeAll, if_pos hnil]
    subst hnil
    exact h.congr fun index => or_iff_left fun hnone => absurd hnone.2 (by simpa using hnone.1)
  have hend := hpiece.resolve_right hnil
  have hpos : 0 < data.length := List.length_pos_of_ne_nil hnil
  rw [Lib.writeAll, if_neg hnil]
  have hreach : ∀ index, index < ((FileOp.writeAt position data).apply file).length ↔
      ∃ later, index ≤ later ∧
      (delivered later ∨ position ≤ later ∧ later < position + data.length) := by
    intro index
    rw [length_writeAt, lt_max_iff, h.reach]
    constructor
    · rintro (⟨later, hle, hlater⟩ | hlt)
      · exact ⟨later, hle, .inl hlater⟩
      · exact ⟨position + data.length - 1, by omega, .inr ⟨by omega, by omega⟩⟩
    · rintro ⟨later, hle, hlater | ⟨hfrom, hto⟩⟩
      · exact .inl ⟨later, hle, hlater⟩
      · exact .inr (by omega)
  refine ⟨?_, hreach, ?_, ?_⟩
  · rintro index (hold | ⟨hfrom, hto⟩)
    · exact h.known index hold
    · omega
  · intro index hindex
    by_cases hwritten : position ≤ index ∧ index < position + data.length
    · rw [getElem?_writeAt_within data file hwritten.1 hwritten.2, ← hdata]
      exact getElem?_piece hwritten.1 (by rw [hdata]; exact hwritten.2)
    · have hold := hindex.resolve_right hwritten
      rw [getElem?_writeAt_outside data file ((hreach index).mpr ⟨index, le_rfl, hindex⟩) hwritten,
        h.byte index hold, List.getElem?_eq_getElem (h.known index hold), Option.getD_some]
  · intro index hinside hnot
    rw [not_or] at hnot
    rw [getElem?_writeAt_outside data file hinside hnot.2]
    by_cases hold : index < file.length
    · rw [h.gap index hold hnot.1, Option.getD_some]
    · rw [List.getElem?_eq_none (by omega), Option.getD_none]

end Sparse

end XRaft.Lib
