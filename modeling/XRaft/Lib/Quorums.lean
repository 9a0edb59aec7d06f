import Mathlib.Data.Finset.Card
import Mathlib.Order.Interval.Finset.Nat

/-!
# When all quorums of two sets meet

Two voter sets with a quorum size each. Disjoint quorums exist exactly when the common
members suffice for what each quorum is missing outside of them, so the question whether
all quorums meet is one of counting, and single additions and removals always pass.
-/

namespace XRaft.Lib

variable {α : Type*} [DecidableEq α]

/-- Every quorum of the one set has a member in common with every quorum of the other. -/
def QuorumsMeet (left right : Finset α) (leftSize rightSize : ℕ) : Prop :=
  ∀ a ⊆ left, ∀ b ⊆ right, leftSize ≤ a.card → rightSize ≤ b.card → (a ∩ b).Nonempty

/-- What a quorum of the one set needs from the common members, plus what a quorum of the other
does. -/
def sharedNeed (left right : Finset α) (leftSize rightSize : ℕ) : ℕ :=
  (leftSize - (left \ right).card) + (rightSize - (right \ left).card)

/-- A quorum takes from the common members at least what the rest cannot give. -/
theorem need_le_card_inter {left a : Finset α} (right : Finset α) {size : ℕ} (ha : a ⊆ left)
    (hsize : size ≤ a.card) : size - (left \ right).card ≤ (a ∩ right).card := by
  have hsplit : (a \ right).card + (a ∩ right).card = a.card :=
    Finset.card_sdiff_add_card_inter a right
  have hrest : (a \ right).card ≤ (left \ right).card :=
    Finset.card_le_card (Finset.sdiff_subset_sdiff ha subset_rfl)
  omega

/-- A set outside the common members together with any of these is a quorum if they suffice. -/
theorem exists_quorum {left right part : Finset α} {size : ℕ} (hpart : part ⊆ left ∩ right)
    (hneed : size - (left \ right).card ≤ part.card) :
    (left \ right) ∪ part ⊆ left ∧ size ≤ ((left \ right) ∪ part).card := by
  have hdisjoint : Disjoint (left \ right) part :=
    Finset.disjoint_of_subset_right (hpart.trans Finset.inter_subset_right) Finset.sdiff_disjoint
  refine ⟨Finset.union_subset Finset.sdiff_subset (hpart.trans Finset.inter_subset_left), ?_⟩
  rw [Finset.card_union_of_disjoint hdisjoint]
  omega

/-- All quorums meet exactly when the common members are too few for two disjoint ones. -/
theorem quorumsMeet_iff (left right : Finset α) (leftSize rightSize : ℕ) :
    QuorumsMeet left right leftSize rightSize ↔
      (left ∩ right).card < sharedNeed left right leftSize rightSize := by
  constructor
  · intro hmeet
    by_contra hfew
    rw [not_lt, sharedNeed] at hfew
    obtain ⟨a, ha, hacard⟩ := Finset.exists_subset_card_eq
      ((Nat.le_add_right (leftSize - (left \ right).card) (rightSize - (right \ left).card)).trans
        hfew)
    have hroom : rightSize - (right \ left).card ≤ ((left ∩ right) \ a).card := by
      rw [Finset.card_sdiff_of_subset ha]
      omega
    obtain ⟨b, hb, hbcard⟩ := Finset.exists_subset_card_eq hroom
    obtain ⟨hleft, hleftSize⟩ := exists_quorum ha hacard.ge
    obtain ⟨hright, hrightSize⟩ := exists_quorum
      (hb.trans (Finset.sdiff_subset.trans (Finset.inter_comm left right).subset)) hbcard.ge
    obtain ⟨x, hx⟩ := hmeet _ hleft _ hright hleftSize hrightSize
    have hcommon : ∀ y ∈ a, y ∉ b := fun y hya hyb => (Finset.mem_sdiff.mp (hb hyb)).2 hya
    have hinner : ∀ y ∈ a ∪ b, y ∈ left ∧ y ∈ right := by
      intro y hy
      rcases Finset.mem_union.mp hy with hya | hyb
      · exact Finset.mem_inter.mp (ha hya)
      · exact Finset.mem_inter.mp (Finset.sdiff_subset (hb hyb))
    simp only [Finset.mem_inter, Finset.mem_union, Finset.mem_sdiff] at hx hinner
    have := hcommon x
    have := hinner x
    tauto
  · intro hmany a ha b hb hasize hbsize
    by_contra hempty
    rw [Finset.not_nonempty_iff_eq_empty] at hempty
    have hdisjoint : Disjoint (a ∩ right) (b ∩ left) := by
      rw [Finset.disjoint_left]
      intro x hxa hxb
      have hx : x ∈ a ∩ b :=
        Finset.mem_inter.mpr ⟨(Finset.mem_inter.mp hxa).1, (Finset.mem_inter.mp hxb).1⟩
      rw [hempty] at hx
      cases hx
    have hunion : a ∩ right ∪ b ∩ left ⊆ left ∩ right := by
      intro x hx
      simp only [Finset.mem_union, Finset.mem_inter] at hx ⊢
      rcases hx with ⟨hxa, hxr⟩ | ⟨hxb, hxl⟩
      · exact ⟨ha hxa, hxr⟩
      · exact ⟨hxl, hb hxb⟩
    have htotal := Finset.card_le_card hunion
    rw [Finset.card_union_of_disjoint hdisjoint] at htotal
    have hneedLeft := need_le_card_inter right ha hasize
    have hneedRight := need_le_card_inter left hb hbsize
    rw [sharedNeed] at hmany
    omega

/-- Majorities of one set meet. -/
theorem majorities_meet_self (voters : Finset α) :
    QuorumsMeet voters voters (voters.card / 2 + 1) (voters.card / 2 + 1) := by
  rw [quorumsMeet_iff, sharedNeed, Finset.inter_self, Finset.sdiff_self, Finset.card_empty]
  omega

/-- Majorities still meet when one member is added. -/
theorem majorities_meet_insert (voters : Finset α) (member : α) :
    QuorumsMeet voters (insert member voters) (voters.card / 2 + 1)
      ((insert member voters).card / 2 + 1) := by
  by_cases hmember : member ∈ voters
  · rw [Finset.insert_eq_self.mpr hmember]
    exact majorities_meet_self voters
  · have hnew : insert member voters \ voters = {member} := by
      rw [Finset.insert_sdiff_of_notMem _ hmember, Finset.sdiff_self, insert_empty_eq]
    rw [quorumsMeet_iff, sharedNeed, Finset.card_insert_of_notMem hmember, hnew,
      Finset.inter_eq_left.mpr (Finset.subset_insert _ _),
      Finset.sdiff_eq_empty_iff_subset.mpr (Finset.subset_insert _ _), Finset.card_empty,
      Finset.card_singleton]
    omega

/-- Quorums meet in either order. -/
theorem QuorumsMeet.symm {left right : Finset α} {leftSize rightSize : ℕ}
    (h : QuorumsMeet left right leftSize rightSize) :
    QuorumsMeet right left rightSize leftSize := by
  intro a ha b hb hasize hbsize
  rw [Finset.inter_comm]
  exact h b hb a ha hbsize hasize

/-- Majorities still meet when one member is removed. -/
theorem majorities_meet_erase (voters : Finset α) (member : α) :
    QuorumsMeet voters (voters.erase member) (voters.card / 2 + 1)
      ((voters.erase member).card / 2 + 1) := by
  by_cases hmember : member ∈ voters
  · have hmeet := (majorities_meet_insert (voters.erase member) member).symm
    rw [Finset.insert_erase hmember] at hmeet
    exact hmeet
  · rw [Finset.erase_eq_of_notMem hmember]
    exact majorities_meet_self voters

end XRaft.Lib
