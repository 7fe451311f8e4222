import CeruleanLedger.Staking

/-!
Leaving the validators: `request_unstake`, `complete_unstake` and the operations of
`staking.rs` that can come between them. The amount of a request is answered and not
kept; a completion pays the whole stake.
-/

namespace CeruleanLedger.Staking

open OrderedMap

namespace Validator

def addReward (validator : Validator) (reward : UInt64) : Validator :=
  { validator with totalRewards := validator.totalRewards + reward }

def incrementValidation (validator : Validator) (blockIndex : UInt64) : Validator :=
  { validator with
    validationCount := validator.validationCount + 1
    lastValidatedBlock := blockIndex }

/-- With a minimum of its own, whatever the manager's is. -/
def slash (validator : Validator) (slashAmount : UInt64) : Validator × UInt64 :=
  let actualSlash := min slashAmount validator.stakedAmount
  let stakedAmount := validator.stakedAmount - actualSlash
  ({ validator with
    slashCount := validator.slashCount + 1
    stakedAmount
    isActive := if stakedAmount < 1000 then false else validator.isActive }, actualSlash)

end Validator

namespace StakingManager

def requestUnstake (manager : StakingManager) (address : String) (amount : Option UInt64)
    (now : UInt64) : Except String (StakingManager × UInt64) :=
  match manager.validators[address]? with
  | none => .error "No eres un validador"
  | some validator =>
    if validator.unstakingRequested then .error "Ya tienes un unstaking pendiente"
    else
      let unstakeAmount := amount.getD validator.stakedAmount
      if validator.stakedAmount < unstakeAmount then
        .error "No puedes retirar más de lo que tienes staked"
      else
        let leaving := { validator with
          isActive := if validator.stakedAmount - unstakeAmount < manager.minStake then false
            else validator.isActive
          unstakingRequested := true
          unstakingTimestamp := some now }
        .ok ({ manager with validators := manager.validators.insert address leaving },
          unstakeAmount)

/-- The amount is the stake itself, so that the last branch is never taken. -/
def completeUnstake (manager : StakingManager) (address : String) (now : UInt64) :
    Except String (StakingManager × UInt64) :=
  match manager.validators[address]? with
  | none => .error "No eres un validador"
  | some validator =>
    if !validator.unstakingRequested then .error "No tienes un unstaking pendiente"
    else match validator.unstakingTimestamp with
      | none => .error "Timestamp de unstaking no encontrado"
      | some timestamp =>
        if now < timestamp + manager.unstakingPeriod then
          .error ("Período de lock aún no ha terminado. Espera " ++
            toString (timestamp + manager.unstakingPeriod - now) ++ " segundos más")
        else
          let unstakeAmount := validator.stakedAmount
          let validators :=
            if validator.stakedAmount ≤ unstakeAmount then manager.validators.erase address
            else manager.validators.insert address { validator with
              stakedAmount := validator.stakedAmount - unstakeAmount
              unstakingRequested := false
              unstakingTimestamp := none }
          .ok ({ manager with validators }, unstakeAmount)

def load (validators : Std.ExtTreeMap String Validator) (validator : Validator) :
    Std.ExtTreeMap String Validator :=
  validators.insert validator.address validator

def loadValidators (manager : StakingManager) (validatorsFromDb : List Validator) :
    StakingManager :=
  { manager with validators := validatorsFromDb.foldl load manager.validators }

def recordValidation (manager : StakingManager) (address : String)
    (blockIndex reward : UInt64) : StakingManager :=
  { manager with validators := manager.validators.modify address fun validator =>
      (validator.incrementValidation blockIndex).addReward reward }

def detectAndSlashDoubleSign (manager : StakingManager) (address : String)
    (blockIndex : UInt64) : StakingManager × Bool :=
  match manager.validators[address]? with
  | none => (manager, false)
  | some validator =>
    if validator.lastValidatedBlock = blockIndex then
      let slashAmount := validator.stakedAmount * manager.slashPercentage.toUInt64 / 100
      let slashed := (validator.slash slashAmount).1
      ({ manager with validators := manager.validators.insert address slashed }, true)
    else (manager, false)

end StakingManager

inductive Operation where
  | stake (address : String) (amount : UInt64) (walletExists : Bool) (now : UInt64)
  | requestUnstake (address : String) (amount : Option UInt64) (now : UInt64)
  | completeUnstake (address : String) (now : UInt64)
  | recordValidation (address : String) (blockIndex reward : UInt64)
  | detectAndSlash (address : String) (blockIndex : UInt64)
  | load (validators : List Validator)

def Operation.touches : Operation → List String
  | .stake address .. => [address]
  | .requestUnstake address .. => [address]
  | .completeUnstake address .. => [address]
  | .recordValidation address .. => [address]
  | .detectAndSlash address .. => [address]
  | .load validators => validators.map Validator.address

namespace StakingManager

def perform (manager : StakingManager) : Operation → StakingManager
  | .stake address amount walletExists now =>
    (manager.stake address amount walletExists now).toOption.getD manager
  | .requestUnstake address amount now =>
    ((manager.requestUnstake address amount now).map Prod.fst).toOption.getD manager
  | .completeUnstake address now =>
    ((manager.completeUnstake address now).map Prod.fst).toOption.getD manager
  | .recordValidation address blockIndex reward =>
    manager.recordValidation address blockIndex reward
  | .detectAndSlash address blockIndex =>
    (manager.detectAndSlashDoubleSign address blockIndex).1
  | .load validators => manager.loadValidators validators

variable {manager after : StakingManager} {address : String} {amount : Option UInt64}
variable {now answer : UInt64}

theorem request_ok (requested : manager.requestUnstake address amount now = .ok (after, answer)) :
    ∃ validator leaving, manager.validators[address]? = some validator ∧
      after = { manager with validators := manager.validators.insert address leaving } ∧
      leaving.stakedAmount = validator.stakedAmount := by
  unfold requestUnstake at requested
  split at requested
  · cases requested
  next validator found =>
    dsimp only at requested
    split at requested
    · cases requested
    split at requested
    · cases requested
    · cases requested
      exact ⟨validator, _, found, rfl, rfl⟩

theorem complete_ok (completed : manager.completeUnstake address now = .ok (after, answer)) :
    ∃ validator, manager.validators[address]? = some validator ∧
      after = { manager with validators := manager.validators.erase address } ∧
      answer = validator.stakedAmount := by
  unfold completeUnstake at completed
  split at completed
  · cases completed
  next validator found =>
    split at completed
    · cases completed
    split at completed
    · cases completed
    dsimp only at completed
    split at completed
    · cases completed
    · rw [if_pos (UInt64.le_refl _)] at completed
      cases completed
      exact ⟨validator, found, rfl, rfl⟩

theorem stake_ok {amount : UInt64} {walletExists : Bool}
    (staked : manager.stake address amount walletExists now = .ok after) :
    ∃ validator,
      after = { manager with validators := manager.validators.insert address validator } := by
  unfold stake at staked
  split at staked
  · cases staked
  split at staked
  · cases staked
  split at staked
  · split at staked
    · cases staked
    · cases staked
      exact ⟨_, rfl⟩
  · cases staked
    exact ⟨_, rfl⟩

theorem load_elsewhere (validators : List Validator)
    (apart : address ∉ validators.map Validator.address) (map : Std.ExtTreeMap String Validator) :
    (validators.foldl load map)[address]? = map[address]? := by
  induction validators generalizing map with
  | nil => rfl
  | cons validator rest ih =>
    obtain ⟨other, apart⟩ := not_or.mp (mt List.mem_cons.mpr apart)
    rw [List.foldl_cons, ih apart, load, get_insert, if_neg (Ne.symm other)]

/-- An operation changes no validator but those it names. -/
theorem perform_elsewhere (operation : Operation) (apart : address ∉ operation.touches) :
    (manager.perform operation).validators[address]? = manager.validators[address]? := by
  cases operation with
  | stake other amount walletExists now =>
    have apart := Ne.symm (List.ne_of_not_mem_cons apart)
    cases answer : manager.stake other amount walletExists now with
    | error reason => simp [perform, answer, Except.toOption]
    | ok after =>
      obtain ⟨validator, stored⟩ := stake_ok answer
      simp [perform, answer, Except.toOption, stored, get_insert, apart]
  | requestUnstake other amount now =>
    have apart := Ne.symm (List.ne_of_not_mem_cons apart)
    cases answer : manager.requestUnstake other amount now with
    | error reason => simp [perform, answer, Except.map, Except.toOption]
    | ok result =>
      obtain ⟨validator, leaving, -, stored, -⟩ := request_ok answer
      simp [perform, answer, Except.map, Except.toOption, stored, get_insert, apart]
  | completeUnstake other now =>
    have apart := Ne.symm (List.ne_of_not_mem_cons apart)
    cases answer : manager.completeUnstake other now with
    | error reason => simp [perform, answer, Except.map, Except.toOption]
    | ok result =>
      obtain ⟨validator, -, stored, -⟩ := complete_ok answer
      simp [perform, answer, Except.map, Except.toOption, stored, get_erase, apart]
  | recordValidation other blockIndex reward =>
    have apart := Ne.symm (List.ne_of_not_mem_cons apart)
    simp [perform, recordValidation, get_modify, apart]
  | detectAndSlash other blockIndex =>
    have apart := Ne.symm (List.ne_of_not_mem_cons apart)
    unfold perform detectAndSlashDoubleSign
    dsimp only
    split
    · rfl
    split
    · simp [get_insert, apart]
    · rfl
  | load validators => exact load_elsewhere validators apart manager.validators

theorem run_elsewhere (operations : List Operation)
    (others : ∀ operation ∈ operations, address ∉ operation.touches) (manager : StakingManager) :
    (operations.foldl perform manager).validators[address]? = manager.validators[address]? := by
  induction operations generalizing manager with
  | nil => rfl
  | cons operation rest ih =>
    obtain ⟨apart, others⟩ := List.forall_mem_cons.mp others
    rw [List.foldl_cons, ih others, perform_elsewhere operation apart]

/-- A request for a part and its completion, with anything about other validators in
between, do what was asked for exactly when the part is the whole stake. -/
theorem unstake_exact_iff (manager requested final : StakingManager) (address : String)
    (validator : Validator) (asked answered returned now later : UInt64)
    (operations : List Operation) (found : manager.validators[address]? = some validator)
    (accepted : manager.requestUnstake address (some asked) now = .ok (requested, answered))
    (others : ∀ operation ∈ operations, address ∉ operation.touches)
    (completed : (operations.foldl perform requested).completeUnstake address later =
      .ok (final, returned)) :
    (returned = asked ∧ final.stakeOf address = validator.stakedAmount - asked ∧
        (final.getValidator address = none → asked = validator.stakedAmount)) ↔
      asked = validator.stakedAmount := by
  obtain ⟨known, leaving, stored, rfl, same⟩ := request_ok accepted
  obtain ⟨left, present, rfl, rfl⟩ := complete_ok completed
  have whole : left.stakedAmount = validator.stakedAmount := by
    rw [run_elsewhere operations others, get_insert, if_pos rfl] at present
    cases present
    cases stored.symm.trans found
    exact same
  constructor
  · rintro ⟨paid, -, -⟩
    exact paid.symm.trans whole
  · rintro rfl
    refine ⟨whole, ?_, fun _ => rfl⟩
    simp [stakeOf, getValidator]

def staked : StakingManager :=
  ⟨(∅ : Std.ExtTreeMap String Validator).insert "ana" (.new "ana" 2000 0), 1000, 100, 5⟩

def leaving (active : Bool) : StakingManager :=
  { staked with validators :=
      staked.validators.insert "ana" ⟨"ana", 2000, active, 0, 0, 0, 0, 0, true, some 10⟩ }

def withoutAna (manager : StakingManager) : StakingManager :=
  { manager with validators := manager.validators.erase "ana" }

theorem whole_stake_paid :
    let manager := (leaving false).perform (.stake "ben" 1000 true 20)
    manager.completeUnstake "ana" 110 = .ok (manager.withoutAna, 2000) ∧
      manager.withoutAna.stakeOf "ana" = 2000 - 2000 :=
  have paid := unstake_exact_iff staked (leaving false) _ "ana" (.new "ana" 2000 0) 2000 2000 2000
    10 110 [.stake "ben" 1000 true 20] (by decide +kernel) (by rfl) (by decide) (by rfl)
  ⟨by rfl, (paid.mpr rfl).2.1⟩

theorem part_paid_whole :
    staked.requestUnstake "ana" (some 500) 10 = .ok (leaving true, 500) ∧
      (leaving true).completeUnstake "ana" 110 = .ok ((leaving true).withoutAna, 2000) ∧
      (leaving true).withoutAna.getValidator "ana" = none :=
  ⟨by rfl, by rfl, by decide +kernel⟩

end StakingManager

end CeruleanLedger.Staking
