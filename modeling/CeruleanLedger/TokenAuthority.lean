import CeruleanLedger.ContractSteps

/-!
Who may change the balances of a token contract. `mint` and `burn` are the functions that do not
look at their caller.
-/

namespace CeruleanLedger.TokenAuthority

open SmartContracts ContractSteps GuardedRun OrderedMap

section Law

variable (platform : Platform)

def supply (contract : SmartContract) : ℕ :=
  total (fun _ balance => balance.toNat) contract.state.balances

/-- The call moves tokens of the holder within an allowance of the caller. -/
def SpendsAllowance (contract : SmartContract) (call : Call) (holder : String) : Prop :=
  ∃ toAddr amount spender, call.function = .transferFrom holder toAddr amount ∧
    call.caller = some spender ∧ amount ≤ contract.allowance holder spender

structure Authorised (contract : SmartContract) (call : Call) : Prop where
  spent : ∀ holder, (step platform contract call).getBalance holder < contract.getBalance holder →
    call.caller = some holder ∨ SpendsAllowance contract call holder
  created : supply contract < supply (step platform contract call) →
    call.caller = some contract.owner

/-- An allowance changes when its holder sets it or its spender uses it. -/
def AllowancesGranted (contract : SmartContract) (call : Call) : Prop :=
  ∀ holder spender,
    let before := contract.allowance holder spender
    let after := (step platform contract call).allowance holder spender
    after = before ∨
      (call.function = .approve spender after ∧ call.caller = some holder) ∨
      ∃ toAddr amount, call.function = .transferFrom holder toAddr amount ∧
        call.caller = some spender ∧ amount ≤ before ∧ after = before - amount

/-- An accepted mint is called by the owner, an accepted burn by the holder. -/
def CallerFits (contract : SmartContract) (call : Call) : Prop :=
  accepted platform contract call →
    match call.function with
    | .mint _ _ => call.caller = some contract.owner
    | .burn fromAddr _ => call.caller = some fromAddr
    | _ => True

end Law

theorem balance_insert (balances : Std.ExtTreeMap String UInt64) (address other : String)
    (balance : UInt64) :
    (balances.insert address balance)[other]?.getD 0 =
      if address = other then balance else balances[other]?.getD 0 := by
  rw [get_insert]
  split <;> rfl

theorem supply_insert (contract : SmartContract) (address : String) (balance : UInt64) :
    total (fun _ balance => balance.toNat) (contract.state.balances.insert address balance) +
        (contract.getBalance address).toNat = supply contract + balance.toNat :=
  total_replace contract.state.balances UInt64.toNat rfl address balance

theorem supply_move {contract : SmartContract} {fromAddr toAddr : String} {amount : UInt64}
    (apart : fromAddr ≠ toAddr) (covered : amount ≤ contract.getBalance fromAddr)
    (fits : (contract.getBalance toAddr).toNat + amount.toNat < 2 ^ 64) :
    total (fun _ balance => balance.toNat) (movedBalance contract fromAddr toAddr amount) =
      supply contract := by
  have first := supply_insert contract fromAddr (contract.getBalance fromAddr - amount)
  have second := total_replace
    (contract.state.balances.insert fromAddr (contract.getBalance fromAddr - amount))
    (fun balance => balance.toNat) (rfl : (0 : UInt64).toNat = 0) toAddr
    (contract.getBalance toAddr + amount)
  rw [balance_insert, if_neg apart, ← SmartContract.getBalance, UInt64.toNat_add,
    Nat.mod_eq_of_lt fits] at second
  rw [UInt64.toNat_sub_of_le _ _ covered] at first
  have enough := UInt64.le_iff_toNat_le.mp covered
  unfold movedBalance
  omega

theorem supply_minted {contract : SmartContract} {toAddr : String} {amount : UInt64}
    (fits : (contract.getBalance toAddr).toNat + amount.toNat < 2 ^ 64) :
    total (fun _ balance => balance.toNat)
        (contract.state.balances.insert toAddr (contract.getBalance toAddr + amount)) =
      supply contract + amount.toNat := by
  have inserted := supply_insert contract toAddr (contract.getBalance toAddr + amount)
  rw [UInt64.toNat_add, Nat.mod_eq_of_lt fits] at inserted
  omega

theorem supply_burned {contract : SmartContract} {fromAddr : String} {amount : UInt64}
    (covered : amount ≤ contract.getBalance fromAddr) :
    total (fun _ balance => balance.toNat)
        (contract.state.balances.insert fromAddr (contract.getBalance fromAddr - amount)) +
      amount.toNat = supply contract := by
  have inserted := supply_insert contract fromAddr (contract.getBalance fromAddr - amount)
  have enough := UInt64.le_iff_toNat_le.mp covered
  rw [UInt64.toNat_sub_of_le _ _ covered] at inserted
  omega

theorem grown_not_less {balance amount : UInt64} (fits : balance.toNat + amount.toNat < 2 ^ 64) :
    ¬ balance + amount < balance := by
  rw [UInt64.lt_iff_toNat_lt, UInt64.toNat_add, Nat.mod_eq_of_lt fits]
  omega

theorem positive_toNat {amount : UInt64} (positive : amount ≠ 0) : 0 < amount.toNat := by
  rw [Nat.pos_iff_ne_zero]
  exact fun zero => positive (UInt64.toNat_inj.mp zero)

section Calls

variable {platform : Platform} {contract : SmartContract}
variable {call : Call} {amount : UInt64}

theorem untouched_authorised
    (same : (step platform contract call).state.balances = contract.state.balances) :
    Authorised platform contract call := by
  constructor
  · intro holder less
    rw [SmartContract.getBalance, same] at less
    exact absurd less (UInt64.lt_irrefl _)
  · intro more
    rw [supply.eq_1 (step platform contract call), same] at more
    exact absurd more (Nat.lt_irrefl _)

theorem moved_authorised {fromAddr toAddr : String}
    (moved : (step platform contract call).state.balances =
      movedBalance contract fromAddr toAddr amount)
    (apart : fromAddr ≠ toAddr) (covered : amount ≤ contract.getBalance fromAddr)
    (fits : (contract.getBalance toAddr).toNat + amount.toNat < 2 ^ 64)
    (allowed : call.caller = some fromAddr ∨ SpendsAllowance contract call fromAddr) :
    Authorised platform contract call := by
  constructor
  · intro holder less
    rw [SmartContract.getBalance, moved, movedBalance, balance_insert, balance_insert] at less
    split at less
    · next same =>
      subst same
      exact absurd less (grown_not_less fits)
    split at less
    · next same => exact same ▸ allowed
    · exact absurd less (UInt64.lt_irrefl _)
  · intro more
    rw [supply.eq_1 (step platform contract call), moved, supply_move apart covered fits] at more
    exact absurd more (Nat.lt_irrefl _)

theorem minted_authorised_iff {toAddr : String}
    (minted : (step platform contract call).state.balances =
      contract.state.balances.insert toAddr (contract.getBalance toAddr + amount))
    (positive : amount ≠ 0) (fits : (contract.getBalance toAddr).toNat + amount.toNat < 2 ^ 64) :
    Authorised platform contract call ↔ call.caller = some contract.owner := by
  have grown := supply_minted fits
  have some := positive_toNat positive
  rw [← minted] at grown
  constructor
  · intro authorised
    apply authorised.created
    rw [supply.eq_1 (step platform contract call)]
    omega
  · intro owner
    refine ⟨fun holder less => ?_, fun _ => owner⟩
    rw [SmartContract.getBalance, minted, balance_insert] at less
    split at less
    · next same =>
      subst same
      exact absurd less (grown_not_less fits)
    · exact absurd less (UInt64.lt_irrefl _)

theorem burned_authorised_iff {fromAddr : String}
    (burned : (step platform contract call).state.balances =
      contract.state.balances.insert fromAddr (contract.getBalance fromAddr - amount))
    (positive : amount ≠ 0) (covered : amount ≤ contract.getBalance fromAddr)
    (burns : ∀ toAddr amount, call.function ≠ .transferFrom fromAddr toAddr amount) :
    Authorised platform contract call ↔ call.caller = some fromAddr := by
  have shrunk := supply_burned covered
  have some := positive_toNat positive
  have enough := UInt64.le_iff_toNat_le.mp covered
  rw [← burned] at shrunk
  constructor
  · intro authorised
    have less : (step platform contract call).getBalance fromAddr <
        contract.getBalance fromAddr := by
      rw [SmartContract.getBalance, burned, balance_insert, if_pos rfl, UInt64.lt_iff_toNat_lt,
        UInt64.toNat_sub_of_le _ _ covered]
      omega
    rcases authorised.spent fromAddr less with own | ⟨toAddr, amount, _, spends, _⟩
    · exact own
    · exact absurd spends (burns toAddr amount)
  · intro own
    constructor
    · intro holder less
      rw [SmartContract.getBalance, burned, balance_insert] at less
      split at less
      · next same => exact .inl (same ▸ own)
      · exact absurd less (UInt64.lt_irrefl _)
    · intro more
      rw [supply.eq_1 (step platform contract call)] at more
      omega

/-- The checks of the code miss exactly the caller of a mint and of a burn. -/
theorem authorised_iff (contract : SmartContract) (call : Call) :
    Authorised platform contract call ↔ CallerFits platform contract call := by
  rcases step_cases platform contract call with ⟨refused, same⟩ | ⟨passed, state, outcome, done⟩
  · refine iff_of_true (untouched_authorised (by rw [same])) ?_
    exact fun passed => absurd passed refused
  · obtain ⟨env, function, caller⟩ := call
    have balances := congrArg (fun contract => contract.state.balances) done
    rw [CallerFits, forall_prop_of_true passed]
    cases outcome with
    | transferred metadata positive apart covered fits =>
      exact iff_of_true (moved_authorised balances apart covered fits (.inl rfl)) trivial
    | transferredFrom metadata positive apart allowed covered fits =>
      refine iff_of_true (moved_authorised balances apart covered fits (.inr ?_)) trivial
      exact ⟨_, _, _, rfl, rfl, allowed⟩
    | minted positive capped fits => exact minted_authorised_iff balances positive fits
    | burned positive covered => exact burned_authorised_iff balances positive covered nofun
    | _ => exact iff_of_true (untouched_authorised balances) trivial

end Calls

section Allowances

variable {platform : Platform} (contract : SmartContract)

theorem allowance_insert (owner spender other another : String) (amount : UInt64) :
    (((contract.state.allowances.insert owner
      ((contract.state.allowances[owner]?.getD ∅).insert spender amount))[other]?).bind
        (·[another]?)).getD 0 =
      if owner = other ∧ spender = another then amount else contract.allowance other another := by
  rw [get_insert]
  by_cases sameOwner : owner = other
  · subst sameOwner
    rw [if_pos rfl, Option.bind_some, get_insert]
    by_cases sameSpender : spender = another
    · rw [if_pos sameSpender, if_pos ⟨rfl, sameSpender⟩]
      rfl
    · rw [if_neg sameSpender, if_neg fun both => sameSpender both.2, SmartContract.allowance]
      cases contract.state.allowances[owner]? <;> rfl
  · rw [if_neg sameOwner, if_neg fun both => sameOwner both.1]
    rfl

variable {contract}

theorem allowance_decrease {owner spender : String} {amount : UInt64}
    (allowed : amount ≤ contract.allowance owner spender) (other another : String) :
    ((contract.decreaseAllowance owner spender amount)[other]?.bind (·[another]?)).getD 0 =
      if owner = other ∧ spender = another then contract.allowance other another - amount
      else contract.allowance other another := by
  rw [SmartContract.decreaseAllowance, get_modify]
  by_cases sameOwner : owner = other
  · subst sameOwner
    unfold SmartContract.allowance at allowed ⊢
    cases found : contract.state.allowances[owner]? with
    | none =>
      -- nothing was granted, so the amount is zero
      rw [found] at allowed
      have zero : amount = 0 := UInt64.le_antisymm allowed UInt64.zero_le
      simp [zero]
    | some granted =>
      rw [found, Option.bind_some] at allowed
      rw [if_pos rfl, Option.map_some, Option.bind_some, Option.bind_some, get_modify]
      by_cases sameSpender : spender = another
      · subst sameSpender
        rw [if_pos rfl, if_pos ⟨rfl, rfl⟩]
        cases current : granted[spender]? with
        | none =>
          rw [current] at allowed
          have zero : amount = 0 := UInt64.le_antisymm allowed UInt64.zero_le
          simp [zero]
        | some value =>
          rw [current, Option.getD_some] at allowed
          simp [allowed]
      · rw [if_neg sameSpender, if_neg fun both => sameSpender both.2]
  · rw [if_neg sameOwner, if_neg fun both => sameOwner both.1]
    rfl

theorem allowances_granted (contract : SmartContract) (call : Call) :
    AllowancesGranted platform contract call := by
  intro holder spender
  rcases step_cases platform contract call with ⟨_, same⟩ | ⟨_, state, outcome, done⟩
  · exact .inl (by rw [same])
  · obtain ⟨env, function, caller⟩ := call
    rw [done]
    cases outcome with
    | transferredFrom metadata positive apart allowed covered fits =>
      have after := allowance_decrease allowed holder spender
      split at after
      · next both =>
        obtain ⟨rfl, rfl⟩ := both
        exact .inr (.inr ⟨_, _, rfl, rfl, allowed, after⟩)
      · exact .inl after
    | @approved owner allowed amount metadata apart =>
      have after := allowance_insert contract owner allowed holder spender amount
      split at after
      · next both =>
        obtain ⟨rfl, rfl⟩ := both
        exact .inr (.inl ⟨congrArg (ContractFunction.approve allowed) after.symm, rfl⟩)
      · exact .inl after
    | _ => exact .inl rfl

end Allowances

/-- All calls of a run are authorised exactly if every accepted mint and burn has
the right caller, and no call changes an allowance that is not its caller's. -/
theorem calls_authorised_iff (platform : Platform) (contract : SmartContract)
    (calls : List Call) :
    (AllMeet (step platform) (Authorised platform) contract calls ↔
        AllMeet (step platform) (CallerFits platform) contract calls) ∧
      AllMeet (step platform) (AllowancesGranted platform) contract calls := by
  constructor
  · apply all_meet_iff (fun _ => True) _ (fun _ _ _ => trivial) _ _ _ trivial
    intro contract call _
    exact authorised_iff contract call
  · exact all_meet_of_forall (fun contract call => allowances_granted contract call) contract calls

/-- A stranger burns the tokens of a holder, and mints tokens of their own. -/
theorem stranger_burns_and_mints :
    ¬ AllMeet (step plain) (Authorised plain) (deployed "erc20")
        [called 'o' (.mint (account 'h') 100), called 's' (.burn (account 'h') 100)] ∧
      ¬ AllMeet (step plain) (Authorised plain) (deployed "erc20")
        [called 's' (.mint (account 's') 100)] := by
  constructor
  · intro ⟨_, burned, _⟩
    rcases burned.spent (account 'h') (by decide +kernel) with own | ⟨_, _, _, spends, _⟩
    · exact absurd own (by decide +kernel)
    · nomatch spends
  · intro ⟨minted, _⟩
    exact absurd (minted.created (by decide +kernel)) (by decide +kernel)

end CeruleanLedger.TokenAuthority
