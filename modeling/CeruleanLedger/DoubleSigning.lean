import CeruleanLedger.Unstaking

/-!
What the double-sign detector of `staking.rs` tells. A validator's record holds the index
of its latest validation, 0 before the first, and no hash: the detector compares indices only.
-/

namespace CeruleanLedger.Staking

open OrderedMap

structure Validation where
  validator : String
  index : UInt64
  hash : String
  reward : UInt64
  deriving DecidableEq

/-- The validator has validated another block at this index. -/
def DoubleSigned (earlier : List Validation) (next : Validation) : Prop :=
  ∃ other ∈ earlier, other.validator = next.validator ∧ other.index = next.index ∧
    other.hash ≠ next.hash
  deriving Decidable

def latestIndex (earlier : List Validation) (address : String) (first : UInt64) : UInt64 :=
  earlier.foldl (fun latest validation =>
    if validation.validator = address then validation.index else latest) first

namespace StakingManager

def detects (manager : StakingManager) (validation : Validation) : Bool :=
  (manager.detectAndSlashDoubleSign validation.validator validation.index).2

/-- What the mining handler does with a validated block. -/
def handle (manager : StakingManager) (validation : Validation) : StakingManager :=
  let detected := manager.detectAndSlashDoubleSign validation.validator validation.index
  if detected.2 then detected.1
  else detected.1.recordValidation validation.validator validation.index validation.reward

def handled (slashPercentage : UInt8) (validation : Validation) (validator : Validator) :
    Validator :=
  if validator.lastValidatedBlock = validation.index then
    (validator.slash (validator.stakedAmount * slashPercentage.toUInt64 / 100)).1
  else (validator.incrementValidation validation.index).addReward validation.reward

variable {manager : StakingManager} {validation : Validation} {address : String}

theorem detects_iff : manager.detects validation = true ↔
    ∃ validator, manager.validators[validation.validator]? = some validator ∧
      validator.lastValidatedBlock = validation.index := by
  unfold detects detectAndSlashDoubleSign
  split
  · next missing => simp [missing]
  · next validator found => split <;> simp_all

theorem handle_get : (manager.handle validation).validators[address]? =
    if validation.validator = address then
      (manager.validators[address]?).map (handled manager.slashPercentage validation)
    else manager.validators[address]? := by
  unfold handle detectAndSlashDoubleSign
  cases found : manager.validators[validation.validator]? with
  | none => grind [recordValidation]
  | some validator =>
    by_cases same : validator.lastValidatedBlock = validation.index
    · simp only [if_pos same, get_insert, if_true]
      grind [handled]
    · grind [recordValidation, handled]

/-- Slashed or not, the record now holds this index. -/
theorem handle_last :
    ((manager.handle validation).validators[address]?).map Validator.lastValidatedBlock =
      (manager.validators[address]?).map fun validator =>
        latestIndex [validation] address validator.lastValidatedBlock := by
  rw [handle_get]
  split
  · next here =>
    rw [Option.map_map]
    congr 1
    funext validator
    simp only [Function.comp_apply, handled, latestIndex, List.foldl_cons, List.foldl_nil,
      if_pos here]
    split
    · next same => exact same
    · rfl
  · next elsewhere => simp [latestIndex, elsewhere]

theorem run_last (validations : List Validation) (manager : StakingManager) :
    ((validations.foldl handle manager).validators[address]?).map Validator.lastValidatedBlock =
      (manager.validators[address]?).map fun validator =>
        latestIndex validations address validator.lastValidatedBlock := by
  induction validations generalizing manager with
  | nil => rfl
  | cons validation rest ih =>
    have step := congrArg (Option.map (latestIndex rest address))
      (@handle_last manager validation address)
    rw [Option.map_map, Option.map_map] at step
    rw [List.foldl_cons, ih]
    exact step

theorem handle_stake (moved : (manager.handle validation).stakeOf address ≠
    manager.stakeOf address) :
    address = validation.validator ∧ manager.detects validation = true := by
  unfold stakeOf getValidator at moved
  rw [handle_get] at moved
  split at moved
  · next here =>
    subst here
    refine ⟨rfl, detects_iff.mpr ?_⟩
    cases found : manager.validators[validation.validator]? with
    | none => simp [found] at moved
    | some validator =>
      refine ⟨validator, rfl, Classical.byContradiction fun other => moved ?_⟩
      simp [found, handled, other, Validator.addReward, Validator.incrementValidation]
  · exact absurd rfl moved

/-- The detector is right about the next block exactly if a double signature is of the block
the validator validated last, and a block that has the index validated last (0 at first) is
one. A stake changes only where the detector fires. -/
theorem double_sign_exact_iff (manager : StakingManager) (earlier : List Validation)
    (next : Validation)
    (unused : ∀ (address : String) (validator : Validator),
      manager.validators[address]? = some validator → validator.lastValidatedBlock = 0) :
    let reached := earlier.foldl handle manager
    ((reached.detects next = true ↔ DoubleSigned earlier next) ↔
      (DoubleSigned earlier next → next.validator ∈ manager.validators ∧
        latestIndex earlier next.validator 0 = next.index) ∧
      (next.validator ∈ manager.validators → latestIndex earlier next.validator 0 = next.index →
        DoubleSigned earlier next)) ∧
    ∀ address, (reached.handle next).stakeOf address ≠ reached.stakeOf address →
      address = next.validator ∧ reached.detects next = true := by
  refine ⟨?_, fun address => handle_stake⟩
  have fires : (earlier.foldl handle manager).detects next = true ↔
      next.validator ∈ manager.validators ∧
        latestIndex earlier next.validator 0 = next.index := by
    have kept := @run_last next.validator earlier manager
    rw [detects_iff, Std.ExtTreeMap.mem_iff_isSome_getElem?]
    cases found : manager.validators[next.validator]? with
    | none =>
      rw [found] at kept
      simp [Option.map_eq_none_iff.mp kept]
    | some validator =>
      rw [found, Option.map_some, unused _ _ found] at kept
      obtain ⟨last, present, same⟩ := Option.map_eq_some_iff.mp kept
      simp [present, same]
  rw [fires]
  tauto

def signedBy (index : UInt64) (hash : String) : Validation := ⟨"ana", index, hash, 50⟩

theorem staked_unused (address : String) (validator : Validator)
    (found : staked.validators[address]? = some validator) : validator.lastValidatedBlock = 0 := by
  unfold staked at found
  rw [get_insert] at found
  split at found
  · cases found
    rfl
  · simp at found

theorem second_signature_slashed :
    (staked.handle (signedBy 1 "a")).detects (signedBy 1 "b") = true ∧
      DoubleSigned [signedBy 1 "a"] (signedBy 1 "b") :=
  have fires : (staked.handle (signedBy 1 "a")).detects (signedBy 1 "b") = true := by
    decide +kernel
  ⟨fires, (((double_sign_exact_iff staked [signedBy 1 "a"] (signedBy 1 "b") staked_unused).1.mpr
    (by decide +kernel)).mp fires)⟩

/-- The first block at index 0 is slashed, and so is a block handled twice; a second block at
an index is not once another index came between. -/
theorem double_sign_misjudged :
    staked.detects (signedBy 0 "a") = true ∧
    (staked.handle (signedBy 0 "a")).stakeOf "ana" < staked.stakeOf "ana" ∧
    ¬ DoubleSigned [] (signedBy 0 "a") ∧
    (staked.handle (signedBy 1 "a")).detects (signedBy 1 "a") = true ∧
    ¬ DoubleSigned [signedBy 1 "a"] (signedBy 1 "a") ∧
    (([signedBy 1 "a", signedBy 2 "b"].foldl handle staked).detects (signedBy 1 "c") = false ∧
      DoubleSigned [signedBy 1 "a", signedBy 2 "b"] (signedBy 1 "c")) := by
  decide +kernel

end StakingManager

end CeruleanLedger.Staking
