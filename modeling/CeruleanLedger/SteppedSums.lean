import Mathlib

/-!
Sums over an initial segment of a sequence that is constant on blocks of equal
width, and the part of a list that lies in one of these blocks, as it grows with
the list.
-/

namespace CeruleanLedger.SteppedSums

section Sequences

variable (width : ℕ) (value : ℕ → ℕ)

/-- The sum of the first `count` elements, where the value changes with the block. -/
def stepped (count : ℕ) : ℕ := ∑ index ∈ Finset.range count, value (index / width)

theorem stepped_mono {count more : ℕ} (within : count ≤ more) :
    stepped width value count ≤ stepped width value more :=
  Finset.sum_le_sum_of_subset (Finset.range_mono within)

theorem stepped_blocks (positive : 0 < width) (blocks : ℕ) :
    stepped width value (width * blocks) = width * ∑ block ∈ Finset.range blocks, value block := by
  induction blocks with
  | zero => rfl
  | succ blocks ih =>
    have last : ∑ offset ∈ Finset.range width, value ((width * blocks + offset) / width) =
        width * value blocks := by
      have constant : ∀ offset ∈ Finset.range width,
          value ((width * blocks + offset) / width) = value blocks := by
        intro offset member
        rw [Nat.mul_add_div positive, Nat.div_eq_of_lt (Finset.mem_range.mp member),
          Nat.add_zero]
      rw [Finset.sum_congr rfl constant, Finset.sum_const, Finset.card_range, smul_eq_mul]
    rw [stepped, Nat.mul_succ, Finset.sum_range_add, last, ← stepped, ih,
      Finset.sum_range_succ, Nat.mul_add]

theorem stepped_le (positive : 0 < width) (blocks : ℕ)
    (ends : ∀ later, value (blocks + later) = 0) (count : ℕ) :
    stepped width value count ≤ width * ∑ block ∈ Finset.range blocks, value block := by
  calc stepped width value count
      ≤ stepped width value (width * (blocks + count)) := by
        apply stepped_mono
        calc count ≤ blocks + count := Nat.le_add_left _ _
          _ ≤ width * (blocks + count) := Nat.le_mul_of_pos_left _ positive
    _ = width * ∑ block ∈ Finset.range (blocks + count), value block :=
        stepped_blocks width value positive _
    _ = width * ∑ block ∈ Finset.range blocks, value block := by
        rw [Finset.sum_range_add, Finset.sum_eq_zero fun later _ => ends later, Nat.add_zero]

end Sequences

variable {Item : Type*} (width : ℕ) (weight : Item → ℕ)

def window (items : List Item) (block : ℕ) : ℕ :=
  ((items.zipIdx.filter fun entry => entry.2 / width = block).map fun entry =>
    weight entry.1).sum

theorem window_append (items : List Item) (item : Item) (block : ℕ) :
    window width weight (items ++ [item]) block =
      window width weight items block +
        if items.length / width = block then weight item else 0 := by
  have added : (items ++ [item]).zipIdx = items.zipIdx ++ [(item, items.length)] := by
    rw [List.zipIdx_append, Nat.zero_add]
    rfl
  rw [window, added, List.filter_append, List.map_append, List.sum_append]
  congr 1
  by_cases inside : items.length / width = block
  · simp [inside]
  · simp [inside]

theorem window_le (items : List Item) (block : ℕ) :
    window width weight items block ≤ (items.map weight).sum := by
  induction items using List.reverseRecOn with
  | nil => exact Nat.le_refl 0
  | append_singleton items item ih =>
    rw [window_append, List.map_append, List.sum_append, List.map_singleton, List.sum_singleton]
    split
    · exact Nat.add_le_add_right ih _
    · exact Nat.add_le_add ih (Nat.zero_le _)

theorem window_beyond (positive : 0 < width) (items : List Item) {block : ℕ}
    (beyond : items.length ≤ width * block) : window width weight items block = 0 := by
  have none : (items.zipIdx.filter fun entry => entry.2 / width = block) = [] := by
    apply List.filter_eq_nil_iff.mpr
    intro entry member inside
    have before := (List.mem_zipIdx member).2.1
    have reached : entry.2 / width = block := of_decide_eq_true inside
    have below : entry.2 / width < block := (Nat.div_lt_iff_lt_mul positive).mpr (by
      rw [Nat.mul_comm]
      omega)
    omega
  rw [window, none]
  rfl

end CeruleanLedger.SteppedSums
