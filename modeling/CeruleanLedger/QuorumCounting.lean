import Mathlib

/-!
Counting facts about two quorums drawn from one finite membership. Two
quorums whose sizes exceed the membership by more than the faulty set meet
in a member outside that set; below this bound two quorums exist whose
whole overlap is small enough to be faulty. The bound is therefore exact.
-/

namespace CeruleanLedger.QuorumCounting

variable {Member : Type*} [DecidableEq Member]

/-- The pigeonhole step: the overlap is larger than the faulty set. -/
theorem common_member_outside (members left right faulty : Finset Member)
    (leftKnown : left ⊆ members) (rightKnown : right ⊆ members)
    (large : members.card + faulty.card < left.card + right.card) :
    ∃ member, member ∈ left ∧ member ∈ right ∧ member ∉ faulty := by
  have unionBound : (left ∪ right).card ≤ members.card :=
    Finset.card_le_card (Finset.union_subset leftKnown rightKnown)
  have overlap := Finset.card_union_add_card_inter left right
  have exceeds : faulty.card < (left ∩ right).card := by omega
  obtain ⟨member, both, honest⟩ := Finset.exists_mem_notMem_of_card_lt_card exceeds
  exact ⟨member, (Finset.mem_inter.mp both).1, (Finset.mem_inter.mp both).2, honest⟩

/-- Below the bound the second quorum reuses as few members of the first as
the membership allows. -/
theorem exists_small_overlap (members : Finset Member) (size budget : Nat)
    (fits : size ≤ members.card) (small : 2 * size ≤ members.card + budget) :
    ∃ left right, left ⊆ members ∧ right ⊆ members ∧ left.card = size ∧
      right.card = size ∧ (left ∩ right).card ≤ budget := by
  obtain ⟨left, leftKnown, leftSize⟩ := Finset.exists_subset_card_eq fits
  have restSize : (members \ left).card = members.card - size := by
    rw [Finset.card_sdiff_of_subset leftKnown, leftSize]
  obtain ⟨fresh, freshRest, freshSize⟩ :=
    Finset.exists_subset_card_eq (s := members \ left)
      (n := min size (members.card - size)) (by omega)
  obtain ⟨shared, sharedLeft, sharedSize⟩ :=
    Finset.exists_subset_card_eq (s := left)
      (n := size - min size (members.card - size)) (by omega)
  have apart : Disjoint fresh left := by
    rw [Finset.disjoint_left]
    intro member isFresh isLeft
    exact (Finset.mem_sdiff.mp (freshRest isFresh)).2 isLeft
  have overlap : left ∩ (fresh ∪ shared) = shared := by
    rw [Finset.inter_union_distrib_left, Finset.inter_comm left fresh,
      Finset.disjoint_iff_inter_eq_empty.mp apart, Finset.empty_union]
    exact Finset.inter_eq_right.mpr sharedLeft
  refine ⟨left, fresh ∪ shared, leftKnown, ?_, leftSize, ?_, ?_⟩
  · exact Finset.union_subset (freshRest.trans Finset.sdiff_subset)
      (sharedLeft.trans leftKnown)
  · rw [Finset.card_union_of_disjoint (apart.mono_right sharedLeft), freshSize, sharedSize]
    omega
  · rw [overlap, sharedSize]
    omega

/-- With `f = (n - 1) / 3` and quorums of `2f + 1`, integer division leaves
the bound satisfied only when `n = 3f + 1` exactly. -/
theorem two_thirds_overlap_iff (count : Nat) (positive : 0 < count) :
    count + (count - 1) / 3 < 2 * (2 * ((count - 1) / 3) + 1) ↔ count % 3 = 1 := by
  omega

end CeruleanLedger.QuorumCounting
