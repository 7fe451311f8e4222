import CeruleanLedger.IterationOrder
import CeruleanLedger.Unstaking
import CeruleanLedger.WeightedTurns

/-!
`select_validator` of `staking.rs`. The validators own intervals of the residues in
the order in which their hash map happens to be listed, so that how many residues a
validator has is fixed, and which ones is not.
-/

namespace CeruleanLedger.Staking

open ByteCodec IterationOrder WeightedTurns

/-- An entry of the map, as the iterator yields it. -/
abbrev Entry := String × Validator

def Entry.stake (entry : Entry) : UInt64 := entry.2.stakedAmount

/-- The first eight bytes, most significant first. -/
def randomValue (hash : Hash32) : UInt64 :=
  (hash.toList.take 8).foldl (fun value byte => value <<< 8 ||| byte.toUInt64) 0

namespace StakingManager

def activeEntries (order : Arrangement Entry) (manager : StakingManager) : List Entry :=
  (order.arrange manager.validators.toList).filter fun entry =>
    entry.2.isActive && !entry.2.unstakingRequested && entry.2.hasMinimumStake manager.minStake

/-- The weighted choice; the first validator is the fallback. -/
def choose (active : List Entry) (randomStake : UInt64) : Option String :=
  match claim Entry.stake randomStake 0 active with
  | some entry => some entry.1
  | none => active.head?.map Prod.fst

def selectValidator (sha256 : Bytes → Hash32) (order : Arrangement Entry)
    (manager : StakingManager) (blockHash : String) : Option String :=
  let active := manager.activeEntries order
  if active.isEmpty then none
  else
    let totalStake := active.foldl (fun total entry => total + entry.stake) 0
    if totalStake = 0 then none
    else choose active (randomValue (sha256 (utf8 blockHash)) % totalStake)

def activeStake (manager : StakingManager) : Nat :=
  totalWeight (units Entry.stake) (manager.activeEntries .asStored)

variable {manager : StakingManager} (order : Arrangement Entry)

theorem active_perm :
    (manager.activeEntries order).Perm (manager.activeEntries .asStored) :=
  (order.perm _).filter _

theorem active_nodup : ((manager.activeEntries order).map Prod.fst).Nodup := by
  have keys := OrderedMap.keys_nodup manager.validators
  have listed : ((order.arrange manager.validators.toList).map Prod.fst).Nodup :=
    ((order.perm _).map _).nodup_iff.mpr keys
  exact listed.sublist (List.filter_sublist.map _)

theorem active_total :
    totalWeight (units Entry.stake) (manager.activeEntries order) = manager.activeStake :=
  ((active_perm order).map _).sum_eq

theorem entry_eq {entry other : Entry} (listed : entry ∈ manager.activeEntries order)
    (known : other ∈ manager.activeEntries order) (same : entry.1 = other.1) : entry = other :=
  List.inj_on_of_nodup_map (active_nodup order) listed known same

/-- Whatever listing of the active validators one takes, some map yields them so. -/
theorem active_listing {listing : List Entry}
    (listed : listing.Perm (manager.activeEntries .asStored)) :
    ∃ order, manager.activeEntries order = listing := by
  let isActive := fun entry : Entry =>
    entry.2.isActive && !entry.2.unstakingRequested && entry.2.hasMinimumStake manager.minStake
  have whole : (listing ++ manager.validators.toList.filter fun entry => !isActive entry).Perm
      manager.validators.toList :=
    (listed.append_right _).trans (List.filter_append_perm isActive _)
  obtain ⟨order, arranged⟩ := Arrangement.exists_arranging whole
  refine ⟨order, ?_⟩
  have kept : listing.filter isActive = listing := List.filter_eq_self.mpr fun entry member =>
    (List.mem_filter.mp (listed.mem_iff.mp member)).2
  have others : (manager.validators.toList.filter fun entry => !isActive entry).filter isActive =
      [] := by simp [List.filter_filter]
  rw [activeEntries, arranged]
  change List.filter isActive _ = _
  rw [List.filter_append, kept, others, List.append_nil]

def residue (sha256 : Bytes → Hash32) (manager : StakingManager) (blockHash : String) : UInt64 :=
  randomValue (sha256 (utf8 blockHash)) % UInt64.ofNat manager.activeStake

/-- The sum of the stakes wraps, and is the same in every order. -/
theorem select_choice (sha256 : Bytes → Hash32) (blockHash : String) :
    manager.selectValidator sha256 order blockHash =
      if UInt64.ofNat manager.activeStake = 0 then none
      else choose (manager.activeEntries order) (manager.residue sha256 blockHash) := by
  unfold selectValidator residue
  dsimp only
  rw [fold_stakes, active_total, UInt64.zero_add]
  split
  · next none =>
    have nothing := @active_total manager order
    rw [List.isEmpty_iff.mp none] at nothing
    rw [← nothing]
    rfl
  · rfl

variable {residue : UInt64} (below : residue < UInt64.ofNat manager.activeStake)
include below

/-- Wrapped or not, the sum is passed by some validator before the fallback. -/
theorem choose_claim :
    ∃ entry ∈ manager.activeEntries order,
      claim Entry.stake residue 0 (manager.activeEntries order) = some entry ∧
        choose (manager.activeEntries order) residue = some entry.1 := by
  have passed : residue <
      (manager.activeEntries order).foldl (fun total entry => total + entry.stake) 0 := by
    rwa [fold_stakes, active_total, UInt64.zero_add]
  obtain ⟨entry, found⟩ := claim_exists Entry.stake UInt64.zero_le passed
  refine ⟨entry, claim_mem _ found, found, ?_⟩
  rw [choose, found]

theorem chosen_iff {entry : Entry} (listed : entry ∈ manager.activeEntries order) :
    choose (manager.activeEntries order) residue = some entry.1 ↔
      claim Entry.stake residue 0 (manager.activeEntries order) = some entry := by
  obtain ⟨chosen, member, found, choice⟩ := choose_claim order below
  rw [choice, found, Option.some_inj, Option.some_inj]
  exact ⟨entry_eq order member listed, congrArg Prod.fst⟩

omit below

theorem chosen_count (fits : manager.activeStake < 2 ^ 64) {entry : Entry}
    (listed : entry ∈ manager.activeEntries order) :
    ((Finset.range manager.activeStake).filter fun residue =>
      choose (manager.activeEntries order) (UInt64.ofNat residue) = some entry.1).card =
        entry.2.stakedAmount.toNat := by
  have owned := count_turns (units Entry.stake) (active_nodup order).of_map listed 0
  rw [Nat.zero_add, ← Finset.range_eq_Ico, active_total] at owned
  rw [← Entry.stake, ← units, ← owned]
  congr 1
  apply Finset.filter_congr
  intro residue inside
  have below := Finset.mem_range.mp inside
  have same : (UInt64.ofNat residue).toNat = residue :=
    UInt64.toNat_ofNat_of_lt' (below.trans fits)
  have less : UInt64.ofNat residue < UInt64.ofNat manager.activeStake := by
    rwa [UInt64.lt_iff_toNat_lt, same, UInt64.toNat_ofNat_of_lt' fits]
  rw [chosen_iff order less listed, claim_eq_owner Entry.stake ((active_total order).trans_lt fits),
    same, Nat.mod_eq_of_lt below]

omit below in
/-- If the order does not matter, one entry claims the residue in every listing. -/
theorem claimed_of_order_free {sha256 : Bytes → Hash32} {blockHash : String}
    (staked : UInt64.ofNat manager.activeStake ≠ 0)
    (same : ∀ first second, manager.selectValidator sha256 first blockHash =
      manager.selectValidator sha256 second blockHash) :
    ∃ entry ∈ manager.activeEntries .asStored, ∀ listing : List Entry,
      listing.Perm (manager.activeEntries .asStored) →
        claim Entry.stake (manager.residue sha256 blockHash) 0 listing = some entry := by
  have below : manager.residue sha256 blockHash < UInt64.ofNat manager.activeStake :=
    UInt64.mod_lt _ (UInt64.pos_iff_ne_zero.mpr staked)
  obtain ⟨entry, member, _, chosen⟩ := choose_claim .asStored below
  refine ⟨entry, member, fun listing listed => ?_⟩
  obtain ⟨order, rfl⟩ := active_listing listed
  have selected := same order .asStored
  rw [select_choice, select_choice, if_neg staked, if_neg staked, chosen] at selected
  exact (chosen_iff order below (listed.mem_iff.mpr member)).mp selected

end StakingManager

open StakingManager

/-- The order does not matter exactly when the sum of the stakes is 0 modulo `2 ^ 64`,
or fits into 64 bits and one validator has more than the residue and all the others
together have not. While the sum fits, how many residues select a validator never
depends on the order. -/
theorem selection_order_free_iff (manager : StakingManager) (sha256 : Bytes → Hash32)
    (blockHash : String) :
    let active := manager.activeEntries .asStored
    let residue := (randomValue (sha256 (utf8 blockHash))).toNat % manager.activeStake
    ((∀ first second, manager.selectValidator sha256 first blockHash =
        manager.selectValidator sha256 second blockHash) ↔
      manager.activeStake % 2 ^ 64 = 0 ∨ manager.activeStake < 2 ^ 64 ∧ ∃ entry ∈ active,
        othersWeight (units Entry.stake) active entry ≤ residue ∧
          residue < entry.2.stakedAmount.toNat) ∧
      (manager.activeStake < 2 ^ 64 → ∀ order, ∀ entry ∈ manager.activeEntries order,
        ((Finset.range manager.activeStake).filter fun residue =>
          choose (manager.activeEntries order) (UInt64.ofNat residue) = some entry.1).card =
            entry.2.stakedAmount.toNat) := by
  intro active residue
  have nodup : active.Nodup := (active_nodup .asStored).of_map
  have zero_iff : UInt64.ofNat manager.activeStake = 0 ↔ manager.activeStake % 2 ^ 64 = 0 := by
    rw [← UInt64.toNat_inj, UInt64.toNat_ofNat']
    rfl
  have position : manager.activeStake < 2 ^ 64 →
      (manager.residue sha256 blockHash).toNat = residue := by
    intro fits
    rw [StakingManager.residue, UInt64.toNat_mod, UInt64.toNat_ofNat_of_lt' fits]
  refine ⟨⟨fun same => ?_, ?_⟩, fun fits order entry listed => chosen_count order fits listed⟩
  · by_cases zero : manager.activeStake % 2 ^ 64 = 0
    · exact .inl zero
    obtain ⟨entry, member, claimed⟩ := claimed_of_order_free (mt zero_iff.mp zero) same
    obtain ⟨fits, others, inside⟩ := claimed_in_every_order nodup member claimed
    rw [position fits] at others inside
    exact .inr ⟨fits, entry, member, others, inside⟩
  · rintro (zero | ⟨fits, entry, member, others, inside⟩) first second
    · rw [select_choice, select_choice, if_pos (zero_iff.mpr zero), if_pos (zero_iff.mpr zero)]
    · have owned : ∀ order, claim Entry.stake (manager.residue sha256 blockHash) 0
          (manager.activeEntries order) = some entry := by
        intro order
        rw [claim_eq_owner Entry.stake ((active_total order).trans_lt fits), position fits]
        exact owner_any_order nodup (active_perm order) member others inside
      rw [select_choice, select_choice, choose, choose, owned first, owned second]

def twoValidators : StakingManager :=
  StakingManager.loadValidators ⟨∅, 1000, 100, 5⟩ [.new "ana" 1000 0, .new "ben" 1000 0]

def oneValidator : StakingManager :=
  StakingManager.loadValidators ⟨∅, 1000, 100, 5⟩ [.new "ana" 1000 0]

theorem lone_validator_selected :
    oneValidator.selectValidator (fun _ => zeroHash) .asStored "0" =
      oneValidator.selectValidator (fun _ => zeroHash) (.preferring (·.1 = "ben")) "0" :=
  (selection_order_free_iff oneValidator (fun _ => zeroHash) "0").1.mpr
    (by decide +kernel) _ _

theorem selection_follows_order :
    let sha256 := fun _ : Bytes => zeroHash
    twoValidators.selectValidator sha256 .asStored "0" = some "ana" ∧
      twoValidators.selectValidator sha256 (.preferring (·.1 = "ben")) "0" = some "ben" := by
  decide +kernel

end CeruleanLedger.Staking
