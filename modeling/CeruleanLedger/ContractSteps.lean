import CeruleanLedger.ContractMethods
import CeruleanLedger.GuardedRun

/-!
What one call of a contract can do. An accepted call writes the contract with a
new state, one of twelve, and the checks that the call has passed come with it;
a refused call changes nothing. The event log is left open: nothing reads it.
-/

namespace CeruleanLedger.ContractSteps

open SmartContracts SmartContract ContractMethods InPlace

theorem bind_ok_iff {Reason First Second : Type} {first : Except Reason First}
    {next : First → Except Reason Second} {result : Second} :
    (first >>= next) = .ok result ↔ ∃ value, first = .ok value ∧ next value = .ok result := by
  cases first with
  | error reason => simp [bind, Except.bind]
  | ok value => simp [bind, Except.bind]

theorem checked_add_ok_iff {left right sum : UInt64} {message : String} :
    checkedAdd left right message = .ok sum ↔
      left.toNat + right.toNat < 2 ^ 64 ∧ left + right = sum := by
  unfold checkedAdd
  split
  · next fits => exact ⟨fun same => ⟨fits, Except.ok.inj same⟩, fun both => congrArg _ both.2⟩
  · next exceeds => exact iff_of_false nofun fun both => exceeds both.1

theorem checked_sub_ok_iff {left right difference : UInt64} {message : String} :
    checkedSub left right message = .ok difference ↔ right ≤ left ∧ left - right = difference := by
  unfold checkedSub
  split
  · next fits => exact ⟨fun same => ⟨fits, Except.ok.inj same⟩, fun both => congrArg _ both.2⟩
  · next short => exact iff_of_false nofun fun both => short both.1

theorem owned_by_ok_iff {contract : SmartContract} {owner : String} {tokenId : UInt64}
    {done : Unit} :
    contract.ownedBy owner tokenId = .ok done ↔
      contract.state.tokenOwners[tokenId]? = some owner := by
  unfold ownedBy
  cases contract.state.tokenOwners[tokenId]? with
  | none => exact iff_of_false nofun nofun
  | some current => simp [refuse_ok_iff]

theorem check_supply_ok {contract : SmartContract} {amount : UInt64} {done : Unit}
    (passed : contract.checkSupply amount = .ok done) :
    ∀ cap ∈ contract.totalSupply,
      contract.getCurrentSupply.toNat + amount.toNat ≤ cap.toNat := by
  unfold checkSupply at passed
  intro cap capped
  rw [capped] at passed
  simp only [bind_ok_iff, checked_add_ok_iff, refuse_ok_iff] at passed
  obtain ⟨_, ⟨fits, rfl⟩, below⟩ := passed
  have within := UInt64.le_iff_toNat_le.mp (UInt64.not_lt.mp below)
  rwa [UInt64.toNat_add, Nat.mod_eq_of_lt fits] at within

def movedBalance (contract : SmartContract) (fromAddr toAddr : String) (amount : UInt64) :
    Std.ExtTreeMap String UInt64 :=
  (contract.state.balances.insert fromAddr (contract.getBalance fromAddr - amount)).insert toAddr
    (contract.getBalance toAddr + amount)

section Tokens

variable (state : ContractState)

def movedToken (fromAddr toAddr : String) (tokenId : UInt64) : ContractState :=
  let dropped := state.dropNftBalance fromAddr
  { state with
    tokenOwners := state.tokenOwners.insert tokenId toAddr
    nftBalances := dropped.insert toAddr (dropped[toAddr]?.getD 0 + 1)
    ownerToTokens := ContractState.addOwned (state.dropOwned fromAddr tokenId) toAddr tokenId }

def addedToken (toAddr : String) (tokenId : UInt64) (tokenUri : String) : ContractState :=
  { state with
    tokenOwners := state.tokenOwners.insert tokenId toAddr
    tokenUris := if tokenUri = "" then state.tokenUris else state.tokenUris.insert tokenId tokenUri
    nftBalances := state.nftBalances.insert toAddr (state.nftBalance toAddr + 1)
    ownerToTokens := ContractState.addOwned state.ownerToTokens toAddr tokenId
    tokenIndex := state.tokenIndex ++ [tokenId] }

def removedToken (owner : String) (tokenId : UInt64) : ContractState :=
  { state with
    tokenOwners := state.tokenOwners.erase tokenId
    tokenUris := state.tokenUris.erase tokenId
    tokenApprovals := state.tokenApprovals.erase tokenId
    nftMetadata := state.nftMetadata.erase tokenId
    nftBalances := state.dropNftBalance owner
    ownerToTokens := state.dropOwned owner tokenId
    tokenIndex := state.tokenIndex.erase tokenId }

end Tokens

abbrev EventLog := Std.ExtTreeMap String String

inductive Outcome (contract : SmartContract) :
    ContractFunction → Option String → ContractState → Prop
  | transferred {fromAddr toAddr : String} {amount : UInt64}
      (metadata : EventLog) (positive : amount ≠ 0)
      (apart : fromAddr ≠ toAddr) (covered : amount ≤ contract.getBalance fromAddr)
      (fits : (contract.getBalance toAddr).toNat + amount.toNat < 2 ^ 64) :
      Outcome contract (.transfer toAddr amount) (some fromAddr)
        { contract.state with
          balances := movedBalance contract fromAddr toAddr amount
          metadata }
  | transferredFrom {fromAddr toAddr spender : String} {amount : UInt64}
      (metadata : EventLog) (positive : amount ≠ 0)
      (apart : fromAddr ≠ toAddr) (allowed : amount ≤ contract.allowance fromAddr spender)
      (covered : amount ≤ contract.getBalance fromAddr)
      (fits : (contract.getBalance toAddr).toNat + amount.toNat < 2 ^ 64) :
      Outcome contract (.transferFrom fromAddr toAddr amount) (some spender)
        { contract.state with
          balances := movedBalance contract fromAddr toAddr amount
          allowances := contract.decreaseAllowance fromAddr spender amount
          metadata }
  | approved {owner spender : String} {amount : UInt64}
      (metadata : EventLog) (apart : owner ≠ spender) :
      Outcome contract (.approve spender amount) (some owner)
        { contract.state with
          allowances := contract.state.allowances.insert owner
            ((contract.state.allowances[owner]?.getD ∅).insert spender amount)
          metadata }
  | minted {toAddr : String} {amount : UInt64} {caller : Option String} (positive : amount ≠ 0)
      (capped : ∀ cap ∈ contract.totalSupply,
        contract.getCurrentSupply.toNat + amount.toNat ≤ cap.toNat)
      (fits : (contract.getBalance toAddr).toNat + amount.toNat < 2 ^ 64) :
      Outcome contract (.mint toAddr amount) caller
        { contract.state with
          balances := contract.state.balances.insert toAddr
            (contract.getBalance toAddr + amount) }
  | burned {fromAddr : String} {amount : UInt64} {caller : Option String}
      (positive : amount ≠ 0) (covered : amount ≤ contract.getBalance fromAddr) :
      Outcome contract (.burn fromAddr amount) caller
        { contract.state with
          balances := contract.state.balances.insert fromAddr
            (contract.getBalance fromAddr - amount) }
  | mintedNft {toAddr tokenUri : String} {tokenId : UInt64} {caller : Option String}
      (metadata : EventLog)
      (fresh : contract.state.tokenOwners[tokenId]? = none)
      (room : contract.state.tokenIndex.length < maxTokensPerContract) :
      Outcome contract (.mintNFT toAddr tokenId tokenUri) caller
        { addedToken contract.state toAddr tokenId tokenUri with metadata }
  | transferredNft {fromAddr toAddr caller : String} {tokenId : UInt64}
      (metadata : EventLog) (apart : fromAddr ≠ toAddr)
      (owned : contract.state.tokenOwners[tokenId]? = some fromAddr)
      (allowed : caller = fromAddr ∨ contract.state.tokenApprovals[tokenId]? = some caller) :
      Outcome contract (.transferNFT fromAddr toAddr tokenId) (some caller)
        { movedToken contract.state fromAddr toAddr tokenId with
          tokenApprovals :=
            if caller = fromAddr then contract.state.tokenApprovals
            else contract.state.tokenApprovals.erase tokenId
          metadata }
  | approvedNft {owner toAddr : String} {tokenId : UInt64}
      (metadata : EventLog)
      (owned : contract.state.tokenOwners[tokenId]? = some owner) :
      Outcome contract (.approveNFT toAddr tokenId) (some owner)
        { contract.state with
          tokenApprovals := contract.state.tokenApprovals.insert tokenId toAddr
          metadata }
  | transferredFromNft {fromAddr toAddr spender : String} {tokenId : UInt64}
      (metadata : EventLog) (apart : fromAddr ≠ toAddr)
      (owned : contract.state.tokenOwners[tokenId]? = some fromAddr)
      (allowed : contract.state.tokenApprovals[tokenId]? = some spender) :
      Outcome contract (.transferFromNFT fromAddr toAddr tokenId) (some spender)
        { movedToken contract.state fromAddr toAddr tokenId with
          tokenApprovals := contract.state.tokenApprovals.erase tokenId
          metadata }
  | burnedNft {owner : String} {tokenId : UInt64} (metadata : EventLog)
      (owned : contract.state.tokenOwners[tokenId]? = some owner) :
      Outcome contract (.burnNFT owner tokenId) (some owner)
        { removedToken contract.state owner tokenId with metadata }
  | described {tokenId : UInt64} {metadata : NFTMetadata} {caller : Option String} :
      Outcome contract (.setNFTMetadata tokenId metadata) caller
        { contract.state with nftMetadata := contract.state.nftMetadata.insert tokenId metadata }
  | recorded {name : String} {params : List String} {caller : Option String}
      (metadata : EventLog) :
      Outcome contract (.custom name params) caller { contract.state with metadata }

section Calls

variable (platform : Platform)

structure Call where
  env : CallEnv
  function : ContractFunction
  caller : Option String

def perform (contract : SmartContract) (call : Call) :
    EStateM.Result String SmartContract String :=
  (execute platform call.env call.function call.caller).run contract

def accepted (contract : SmartContract) (call : Call) : Bool :=
  match perform platform contract call with
  | .ok _ _ => true
  | .error _ _ => false

def step (contract : SmartContract) (call : Call) : SmartContract :=
  match perform platform contract call with
  | .ok _ after => after
  | .error _ after => after

variable {platform}

theorem execute_ok {contract after : SmartContract} {env : CallEnv}
    {function : ContractFunction} {caller : Option String} {answer : String}
    (ran : (execute platform env function caller).run contract = .ok answer after) :
    ∃ state, Outcome contract function caller state ∧
      after = contract.commit platform env state := by
  cases function with
  | transfer toAddr amount =>
    simp only [execute, transfer, run_check_ok_iff, run_read, ok_or_ok_iff, refuse_ok_iff,
      checked_add_ok_iff, checked_sub_ok_iff] at ran
    obtain ⟨_, rfl, _, _, _, _, _, positive, _, _, _, apart, _, _, _, ⟨fits, rfl⟩, _,
      ⟨covered, rfl⟩, ended⟩ := ran
    obtain ⟨_, rfl⟩ := EStateM.Result.ok.inj ended
    exact ⟨_, .transferred _ positive apart covered fits, rfl⟩
  | transferFrom fromAddr toAddr amount =>
    simp only [execute, transferFrom, run_check_ok_iff, run_read, ok_or_ok_iff,
      refuse_ok_iff, checked_add_ok_iff, checked_sub_ok_iff] at ran
    obtain ⟨_, rfl, _, _, _, _, _, _, _, positive, _, _, _, apart, _, allowed, _, _, _,
      ⟨fits, rfl⟩, _, ⟨covered, rfl⟩, ended⟩ := ran
    obtain ⟨_, rfl⟩ := EStateM.Result.ok.inj ended
    exact ⟨_, .transferredFrom _ positive apart (UInt64.not_lt.mp allowed) covered fits, rfl⟩
  | approve spender amount =>
    simp only [execute, approve, run_check_ok_iff, ok_or_ok_iff, refuse_ok_iff] at ran
    obtain ⟨_, rfl, _, _, _, _, _, apart, _, _, ended⟩ := ran
    obtain ⟨_, rfl⟩ := EStateM.Result.ok.inj ended
    exact ⟨_, .approved _ apart, rfl⟩
  | mint toAddr amount =>
    simp only [execute, mint, run_check_ok_iff, run_read, refuse_ok_iff, checked_add_ok_iff]
      at ran
    obtain ⟨_, _, _, positive, _, _, _, supply, _, ⟨fits, rfl⟩, ended⟩ := ran
    obtain ⟨_, rfl⟩ := EStateM.Result.ok.inj ended
    exact ⟨_, .minted positive (check_supply_ok supply) fits, rfl⟩
  | burn fromAddr amount =>
    simp only [execute, burn, run_check_ok_iff, run_read, refuse_ok_iff, checked_sub_ok_iff]
      at ran
    obtain ⟨_, _, _, positive, _, _, _, _, _, ⟨covered, rfl⟩, ended⟩ := ran
    obtain ⟨_, rfl⟩ := EStateM.Result.ok.inj ended
    exact ⟨_, .burned positive covered, rfl⟩
  | mintNFT toAddr tokenId tokenUri =>
    simp only [execute, mintNft, run_check_ok_iff, run_read, refuse_ok_iff] at ran
    obtain ⟨_, _, _, _, _, _, _, unknown, _, room, _, _, _, _, ended⟩ := ran
    obtain ⟨_, rfl⟩ := EStateM.Result.ok.inj ended
    have fresh := Std.ExtTreeMap.getElem?_eq_none_of_contains_eq_false
      (Bool.eq_false_of_not_eq_true unknown)
    exact ⟨_, .mintedNft _ fresh (Nat.lt_of_not_le room), rfl⟩
  | transferNFT fromAddr toAddr tokenId =>
    simp only [execute, transferNft, run_check_ok_iff, run_read, ok_or_ok_iff,
      refuse_ok_iff, owned_by_ok_iff] at ran
    obtain ⟨caller, rfl, _, _, _, _, _, _, _, _, _, apart, _, owned, _, permitted, ended⟩ := ran
    have allowed : caller = fromAddr ∨
        contract.state.tokenApprovals[tokenId]? = some caller := by
      by_contra neither
      exact permitted (not_or.mp neither)
    refine ⟨_, .transferredNft (emitNftTransferEvent env contract fromAddr toAddr tokenId) apart
      owned allowed, ?_⟩
    by_cases own : caller = fromAddr
    · rw [if_neg (not_not.mpr own)] at ended
      rw [if_pos own]
      exact (EStateM.Result.ok.inj ended).2.symm
    · rw [if_pos own] at ended
      rw [if_neg own]
      exact (EStateM.Result.ok.inj ended).2.symm
  | approveNFT toAddr tokenId =>
    simp only [execute, approveNft, run_check_ok_iff, run_read, ok_or_ok_iff,
      refuse_ok_iff, owned_by_ok_iff] at ran
    obtain ⟨_, rfl, _, _, _, _, _, _, _, _, _, owned, ended⟩ := ran
    obtain ⟨_, rfl⟩ := EStateM.Result.ok.inj ended
    exact ⟨_, .approvedNft _ owned, rfl⟩
  | transferFromNFT fromAddr toAddr tokenId =>
    simp only [execute, transferFromNft, run_check_ok_iff, run_read, ok_or_ok_iff,
      refuse_ok_iff, owned_by_ok_iff] at ran
    obtain ⟨_, rfl, _, _, _, _, _, _, _, _, _, apart, _, owned, _, _, _, allowed, ended⟩ := ran
    obtain ⟨_, rfl⟩ := EStateM.Result.ok.inj ended
    exact ⟨_, .transferredFromNft _ apart owned (not_not.mp allowed), rfl⟩
  | burnNFT owner tokenId =>
    simp only [execute, burnNft, run_check_ok_iff, run_read, ok_or_ok_iff, refuse_ok_iff,
      owned_by_ok_iff] at ran
    obtain ⟨_, rfl, _, _, _, _, _, _, _, owned, _, own, ended⟩ := ran
    obtain ⟨_, rfl⟩ := EStateM.Result.ok.inj ended
    rw [not_not.mp own]
    exact ⟨_, .burnedNft _ owned, rfl⟩
  | setNFTMetadata tokenId metadata =>
    simp only [execute, setNftMetadata, run_check_ok_iff, run_read] at ran
    obtain ⟨_, _, _, _, _, _, _, _, _, _, _, _, _, _, _, _, _, _, ended⟩ := ran
    obtain ⟨_, rfl⟩ := EStateM.Result.ok.inj ended
    exact ⟨_, .described, rfl⟩
  | custom name params =>
    obtain ⟨_, rfl⟩ := EStateM.Result.ok.inj ran
    exact ⟨_, .recorded _, rfl⟩

theorem transfer_nft_atomic (env : CallEnv) (contract : SmartContract)
    (fromAddr toAddr : String) (tokenId : UInt64) (caller : String) :
    Atomic (transferNft platform env fromAddr toAddr tokenId caller) contract := by
  refine atomic_read (atomic_check fun _ => atomic_check fun _ => atomic_check fun _ => ?_)
  refine atomic_check fun _ => atomic_check fun _ => atomic_read (atomic_check fun _ => ?_)
  refine atomic_read (atomic_check fun _ => ?_)
  -- The approval is cleared after the last check, and only if it was needed.
  by_cases own : caller = fromAddr
  · rw [if_neg (not_not.mpr own)]
    exact atomic_done ⟨_, _, rfl⟩
  · rw [if_pos own]
    exact atomic_done ⟨_, _, rfl⟩

/-- Every check comes before the first write, whatever is called by whomever. -/
theorem execute_atomic (env : CallEnv) (contract : SmartContract) (function : ContractFunction)
    (caller : Option String) : Atomic (execute platform env function caller) contract := by
  cases function with
  | transferNFT fromAddr toAddr tokenId =>
    exact atomic_check fun caller => transfer_nft_atomic env contract fromAddr toAddr tokenId caller
  | _ =>
    repeat first
      | refine atomic_check fun _ => ?_
      | refine atomic_read ?_
      | exact atomic_done ⟨_, _, rfl⟩

theorem perform_cases (platform : Platform) (contract : SmartContract) (call : Call) :
    (∃ reason, perform platform contract call = .error reason contract) ∨
      ∃ answer state, Outcome contract call.function call.caller state ∧
        perform platform contract call =
          .ok answer (contract.commit platform call.env state) := by
  cases ran : perform platform contract call with
  | error reason after =>
    cases execute_atomic call.env contract call.function call.caller reason after ran
    exact .inl ⟨reason, rfl⟩
  | ok answer after =>
    obtain ⟨state, outcome, rfl⟩ := execute_ok ran
    exact .inr ⟨answer, state, outcome, rfl⟩

theorem step_cases (platform : Platform) (contract : SmartContract) (call : Call) :
    (¬ accepted platform contract call ∧ step platform contract call = contract) ∨
      accepted platform contract call ∧
        ∃ state, Outcome contract call.function call.caller state ∧
          step platform contract call = contract.commit platform call.env state := by
  unfold accepted step
  rcases perform_cases platform contract call with
    ⟨reason, failed⟩ | ⟨answer, state, outcome, done⟩
  · rw [failed]
    exact .inl ⟨Bool.false_ne_true, rfl⟩
  · rw [done]
    exact .inr ⟨rfl, state, outcome, rfl⟩

end Calls

def plain : Platform where
  sha256 := fun _ => ByteCodec.zeroHash
  isAlphanumeric := Char.isAlphanum
  debugText := id
  jsonText := id

def account (letter : Char) : String :=
  String.ofList (List.replicate minAddressLength letter)

def called (caller : Char) (function : ContractFunction) : Call :=
  ⟨⟨0, .asStored, .asStored⟩, function, some (account caller)⟩

def deployed (contractType : String) : SmartContract :=
  .new plain ⟨0, .asStored, .asStored⟩ "id" (account 'o') contractType "name" none none none

end CeruleanLedger.ContractSteps
