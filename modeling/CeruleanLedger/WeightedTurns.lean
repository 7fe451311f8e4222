import Mathlib

/-!
Turns in proportion to weights. The items own consecutive intervals of positions,
each as long as its weight; a turn goes to the owner of its residue modulo the total
weight. Over any window of as many turns as the total weight, an item has exactly
its weight of them.
-/

namespace CeruleanLedger.WeightedTurns

variable {Item : Type} (weight : Item → Nat)

def totalWeight (items : List Item) : Nat := (items.map weight).sum

theorem total_weight_cons (item : Item) (rest : List Item) :
    totalWeight weight (item :: rest) = weight item + totalWeight weight rest := by
  simp [totalWeight]

/-- The item whose interval contains a position. -/
def owner : List Item → Nat → Option Item
  | [], _ => none
  | item :: rest, position =>
    if position < weight item then some item else owner rest (position - weight item)

theorem owner_mem {items : List Item} {position : Nat} {item : Item}
    (found : owner weight items position = some item) : item ∈ items := by
  induction items generalizing position with
  | nil => cases found
  | cons first rest ih =>
    rw [owner] at found
    split at found
    · cases found
      exact List.mem_cons_self
    · exact List.mem_cons_of_mem _ (ih found)

theorem owner_exists {items : List Item} {position : Nat}
    (inside : position < totalWeight weight items) :
    ∃ item, owner weight items position = some item := by
  induction items generalizing position with
  | nil => exact absurd inside (Nat.not_lt_zero _)
  | cons first rest ih =>
    rw [owner]
    split
    · exact ⟨first, rfl⟩
    · rw [total_weight_cons] at inside
      exact ih (by omega)

theorem owner_append (before rest : List Item) (position : Nat) :
    owner weight (before ++ rest) position =
      if position < totalWeight weight before then owner weight before position
      else owner weight rest (position - totalWeight weight before) := by
  induction before generalizing position with
  | nil => simp [totalWeight]
  | cons first before ih =>
    simp only [List.cons_append, owner, ih, total_weight_cons]
    split
    · rw [if_pos (by omega)]
    · rw [Nat.sub_add_eq]
      congr 1
      exact propext (by omega)

theorem exists_crossing {items : List Item} {bound : Nat} (positive : 0 < bound)
    (heavy : bound ≤ totalWeight weight items) :
    ∃ before item after, items = before ++ item :: after ∧
      totalWeight weight before < bound ∧ bound ≤ totalWeight weight before + weight item := by
  induction items generalizing bound with
  | nil => exact absurd (positive.trans_le heavy) (Nat.lt_irrefl 0)
  | cons first rest ih =>
    rw [total_weight_cons] at heavy
    by_cases here : bound ≤ weight first
    · exact ⟨[], first, rest, rfl, positive, by simpa [totalWeight] using here⟩
    · obtain ⟨before, item, after, rfl, below, reached⟩ :=
        @ih (bound - weight first) (by omega) (by omega)
      refine ⟨first :: before, item, after, rfl, ?_, ?_⟩ <;> rw [total_weight_cons] <;> omega

section Loop

variable (stake : Item → UInt64)

def units (item : Item) : Nat := (stake item).toNat

/-- A loop that adds up the stakes until the position is passed. -/
def claim (position : UInt64) : UInt64 → List Item → Option Item
  | _, [] => none
  | cumulative, item :: rest =>
    let cumulative := cumulative + stake item
    if position < cumulative then some item else claim position cumulative rest

theorem fold_stakes (items : List Item) (start : UInt64) :
    items.foldl (fun total item => total + stake item) start =
      start + UInt64.ofNat (totalWeight (units stake) items) := by
  induction items generalizing start with
  | nil => exact (UInt64.add_zero start).symm
  | cons item rest ih =>
    rw [List.foldl_cons, ih, total_weight_cons, UInt64.ofNat_add, units, UInt64.ofNat_toNat,
      UInt64.add_assoc]

theorem claim_mem {position cumulative : UInt64} {items : List Item} {item : Item}
    (claimed : claim stake position cumulative items = some item) : item ∈ items := by
  induction items generalizing cumulative with
  | nil => cases claimed
  | cons first rest ih =>
    simp only [claim] at claimed
    split at claimed
    · cases claimed
      exact List.mem_cons_self
    · exact List.mem_cons_of_mem _ (ih claimed)

/-- The loop ends on its running sum, wrapped or not, so that some item has a
position below that. -/
theorem claim_exists {position cumulative : UInt64} {items : List Item}
    (reached : cumulative ≤ position)
    (inside : position < items.foldl (fun total item => total + stake item) cumulative) :
    ∃ item, claim stake position cumulative items = some item := by
  induction items generalizing cumulative with
  | nil => exact absurd inside (UInt64.not_lt.mpr reached)
  | cons first rest ih =>
    simp only [claim]
    split
    · exact ⟨first, rfl⟩
    · next past => exact ih (UInt64.not_lt.mp past) inside

/-- Up to the width of the sum, an item's interval ends at the running sum. -/
theorem claim_append (position : UInt64) (before rest : List Item) (cumulative : UInt64)
    (reached : cumulative.toNat ≤ position.toNat)
    (fits : cumulative.toNat + totalWeight (units stake) before < 2 ^ 64) :
    claim stake position cumulative (before ++ rest) =
      if position.toNat < cumulative.toNat + totalWeight (units stake) before then
        owner (units stake) before (position.toNat - cumulative.toNat)
      else claim stake position
        (cumulative + UInt64.ofNat (totalWeight (units stake) before)) rest := by
  induction before generalizing cumulative with
  | nil => simp [totalWeight, Nat.not_lt.mpr reached]
  | cons item before ih =>
    rw [total_weight_cons] at fits ⊢
    have next : (cumulative + stake item).toNat = cumulative.toNat + units stake item := by
      unfold units at fits ⊢
      rw [UInt64.toNat_add, Nat.mod_eq_of_lt (by omega)]
    have sum : cumulative + stake item = cumulative + UInt64.ofNat (units stake item) := by
      rw [units, UInt64.ofNat_toNat]
    simp only [List.cons_append, claim, owner, UInt64.lt_iff_toNat_lt, next]
    by_cases inside : position.toNat < cumulative.toNat + units stake item
    · rw [if_pos inside, if_pos (by omega), if_pos (by omega)]
    · have outside : ¬ position.toNat - cumulative.toNat < units stake item := by omega
      rw [if_neg inside, if_neg outside, ih _ (by omega) (by omega), next, sum, UInt64.ofNat_add,
        UInt64.add_assoc, ← Nat.add_assoc, Nat.sub_add_eq]

/-- An item that has a position after others comes after the sum of these, and
the running sum does not wrap at it. -/
theorem claimed_after {position : UInt64} {before after : List Item} {item : Item}
    (distinct : (before ++ item :: after).Nodup)
    (fits : totalWeight (units stake) before < 2 ^ 64)
    (claimed : claim stake position 0 (before ++ item :: after) = some item) :
    totalWeight (units stake) before ≤ position.toNat ∧
      position.toNat < totalWeight (units stake) before + units stake item ∧
      totalWeight (units stake) before + units stake item < 2 ^ 64 := by
  obtain ⟨-, tail, apart⟩ := List.nodup_append.mp distinct
  rw [claim_append stake position before _ 0 (Nat.zero_le _) (by simpa using fits)] at claimed
  split at claimed
  · exact absurd rfl (apart item (owner_mem _ claimed) item List.mem_cons_self)
  · next past =>
    rw [claim] at claimed
    split at claimed
    · next inside =>
      rw [UInt64.zero_add, UInt64.lt_iff_toNat_lt, UInt64.toNat_add,
        UInt64.toNat_ofNat_of_lt' fits] at inside
      have bound := (stake item).toNat_lt
      simp only [UInt64.toNat_zero, Nat.zero_add] at past
      unfold units at *
      omega
    · exact absurd (claim_mem stake claimed) (List.nodup_cons.mp tail).1

variable {items : List Item} (fits : totalWeight (units stake) items < 2 ^ 64)
include fits

theorem total_stake :
    (items.foldl (fun total item => total + stake item) 0).toNat =
      totalWeight (units stake) items := by
  rw [fold_stakes, UInt64.zero_add, UInt64.toNat_ofNat_of_lt' fits]

theorem claim_eq_owner (position : UInt64) :
    claim stake position 0 items = owner (units stake) items position.toNat := by
  have looped := claim_append stake position items [] 0 (Nat.zero_le _) (by simpa using fits)
  have owned := owner_append (units stake) items [] position.toNat
  simp only [List.append_nil, UInt64.toNat_zero, Nat.zero_add, Nat.sub_zero] at looped owned
  rw [looped, owned]
  split <;> rfl

end Loop

variable [DecidableEq Item]

/-- Over one cycle, the positions of an item are its interval, once for each
occurrence. -/
theorem count_owner (items : List Item) (item : Item) :
    Nat.count (fun position => owner weight items position = some item)
        (totalWeight weight items) = items.count item * weight item := by
  induction items with
  | nil => simp [totalWeight]
  | cons first rest ih =>
    have later : (fun position => owner weight (first :: rest) (weight first + position) =
        some item) = fun position => owner weight rest position = some item := by
      funext position
      rw [owner, if_neg (by omega), Nat.add_sub_cancel_left]
    rw [total_weight_cons, Nat.count_add]
    simp only [later]
    rw [ih, List.count_cons]
    by_cases same : first = item
    · subst same
      rw [Nat.count_of_forall (by
        intro position inside
        rw [owner, if_pos inside])]
      simp only [beq_self_eq_true, ↓reduceIte]
      ring
    · rw [Nat.count_of_forall_not (by
        intro position inside
        rw [owner, if_pos inside]
        simpa using same)]
      simp [same]

/-- A window may start anywhere: residues repeat with the total weight. -/
theorem count_turns {items : List Item} (distinct : items.Nodup) {item : Item}
    (member : item ∈ items) (start : Nat) :
    ((Finset.Ico start (start + totalWeight weight items)).filter fun turn =>
      owner weight items (turn % totalWeight weight items) = some item).card = weight item := by
  have periodic : Function.Periodic (fun turn =>
      owner weight items (turn % totalWeight weight items) = some item)
      (totalWeight weight items) := by
    intro turn
    simp only [Nat.add_mod_right]
  rw [Nat.filter_Ico_card_eq_of_periodic _ _ _ periodic]
  have cycle : Nat.count (fun turn => owner weight items (turn % totalWeight weight items) =
      some item) (totalWeight weight items) =
      Nat.count (fun position => owner weight items position = some item)
        (totalWeight weight items) := by
    rw [Nat.count_eq_card_filter_range, Nat.count_eq_card_filter_range]
    congr 1
    apply Finset.filter_congr
    intro position inside
    rw [Nat.mod_eq_of_lt (Finset.mem_range.mp inside)]
  rw [cycle, count_owner, List.count_eq_one_of_mem distinct member, Nat.one_mul]

def othersWeight (items : List Item) (item : Item) : Nat :=
  totalWeight weight (items.filter (· ≠ item))

theorem perm_others {items : List Item} {item : Item} (distinct : items.Nodup)
    (member : item ∈ items) : (item :: items.filter (· ≠ item)).Perm items := by
  have removed := distinct.erase_eq_filter item
  simp only [bne, ← decide_not, beq_eq_decide] at removed
  rw [← removed]
  exact (List.perm_cons_erase member).symm

/-- Where the loop gives a position to the same item in every order, the sum does
not wrap, and the item has it listed first and listed last. -/
theorem claimed_in_every_order {stake : Item → UInt64} {items : List Item} {item : Item}
    {position : UInt64} (distinct : items.Nodup) (member : item ∈ items)
    (claimed : ∀ listing : List Item, listing.Perm items →
      claim stake position 0 listing = some item) :
    totalWeight (units stake) items < 2 ^ 64 ∧
      othersWeight (units stake) items item ≤ position.toNat ∧
      position.toNat < units stake item := by
  have listed := perm_others distinct member
  have after : ∀ before rest : List Item, (before ++ item :: rest).Perm items →
      totalWeight (units stake) before < 2 ^ 64 →
      totalWeight (units stake) before ≤ position.toNat ∧
        position.toNat < totalWeight (units stake) before + units stake item ∧
        totalWeight (units stake) before + units stake item < 2 ^ 64 :=
    fun before rest order fits =>
      claimed_after stake (order.nodup_iff.mpr distinct) fits (claimed _ order)
  have first := (after [] _ listed (by simp [totalWeight])).2.1
  have fits : othersWeight (units stake) items item < 2 ^ 64 := by
    by_contra heavy
    obtain ⟨before, crossing, rest, split, below, reached⟩ :=
      exists_crossing (units stake) (by decide) (Nat.le_of_not_lt heavy)
    rw [split] at listed
    -- The item at which the others wrap is no larger than the position, which is below the item.
    have early := after [crossing] (before ++ rest)
      ((List.Perm.swap item crossing _).trans ((List.perm_middle.symm.cons item).trans listed))
      (by simpa [totalWeight, units] using (stake crossing).toNat_lt)
    have late := after before (crossing :: rest) (List.perm_middle.trans listed) below
    simp only [totalWeight, List.map_cons, List.map_nil, List.sum_cons, List.sum_nil] at *
    omega
  have last := after _ [] ((List.perm_append_singleton item _).trans listed) fits
  refine ⟨?_, last.1, by simpa [totalWeight] using first⟩
  rw [totalWeight, ← (listed.map _).sum_eq, ← totalWeight, total_weight_cons, Nat.add_comm]
  exact last.2.2

variable {weight} {items : List Item} {item : Item} {position : Nat}

/-- An item owns a position in every order if it does so listed first and listed
last. -/
theorem owner_any_order {listing : List Item} (distinct : items.Nodup)
    (listed : listing.Perm items) (member : item ∈ items)
    (others : othersWeight weight items item ≤ position) (inside : position < weight item) :
    owner weight listing position = some item := by
  obtain ⟨before, after, rfl⟩ := List.append_of_mem (listed.mem_iff.mpr member)
  have apart : item ∉ before := by
    have nodup := List.nodup_append.mp (listed.nodup_iff.mpr distinct)
    exact fun early => nodup.2.2 item early item List.mem_cons_self rfl
  have least : totalWeight weight before ≤ othersWeight weight items item := by
    have same : othersWeight weight items item =
        othersWeight weight (before ++ item :: after) item := ((listed.filter _).map _).sum_eq.symm
    have kept : before.filter (· ≠ item) = before :=
      List.filter_eq_self.mpr fun other early => by simpa using ne_of_mem_of_not_mem early apart
    rw [same, othersWeight, List.filter_append, kept]
    simp [totalWeight]
  rw [owner_append, if_neg (by omega), owner, if_pos (by omega)]

end CeruleanLedger.WeightedTurns
