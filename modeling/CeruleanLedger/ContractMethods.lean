import CeruleanLedger.SmartContracts

/-!
The methods behind `SmartContract::execute` as `smart_contracts.rs` writes them:
checks that may return early and single writes to `self`, in the order of the
source. Minting, burning a fungible token and describing an NFT look at no caller.
-/

namespace CeruleanLedger.ContractMethods

open SmartContracts InPlace

abbrev Method := EStateM String SmartContract String

def write (change : ContractState → ContractState) : EStateM String SmartContract Unit :=
  modify fun contract => { contract with state := change contract.state }

def setBalance (address : String) (balance : UInt64) : EStateM String SmartContract Unit :=
  write fun state => { state with balances := state.balances.insert address balance }

def setNftBalance (address : String) (balance : UInt64) : EStateM String SmartContract Unit :=
  write fun state => { state with nftBalances := state.nftBalances.insert address balance }

def emitEvent (log : SmartContract → Std.ExtTreeMap String String) :
    EStateM String SmartContract Unit :=
  modify fun contract =>
    { contract with state := { contract.state with metadata := log contract } }

def touch (platform : Platform) (env : CallEnv) : EStateM String SmartContract Unit :=
  modify fun contract => contract.commit platform env contract.state

variable (platform : Platform) (env : CallEnv)

def transfer (fromAddr toAddr : String) (amount : UInt64) : Method := do
  check (validateAddress platform fromAddr)
  check (validateAddress platform toAddr)
  check (refuseIf (amount = 0) "Amount must be greater than 0")
  check (refuseIf (maxAmount < amount)
    ("Amount exceeds maximum allowed: " ++ toString maxAmount))
  check (refuseIf (fromAddr = toAddr) "Cannot transfer to self")
  let fromBalance := (← get).getBalance fromAddr
  check (refuseIf (fromBalance < amount) "Insufficient balance")
  let toBalance := (← get).getBalance toAddr
  let newToBalance ← check (checkedAdd toBalance amount
    "Balance overflow: recipient balance would exceed maximum")
  let newFromBalance ← check (checkedSub fromBalance amount
    "Balance underflow: insufficient balance")
  setBalance fromAddr newFromBalance
  setBalance toAddr newToBalance
  emitEvent (emitTransferEvent env · fromAddr toAddr amount)
  touch platform env
  return "Transferred " ++ toString amount ++ " from " ++ fromAddr ++ " to " ++ toAddr

def decreaseAllowance (owner spender : String) (amount : UInt64) :
    EStateM String SmartContract Unit :=
  modify fun contract => { contract with
    state := { contract.state with
      allowances := contract.decreaseAllowance owner spender amount } }

def transferFrom (fromAddr toAddr : String) (amount : UInt64) (spender : String) : Method := do
  check (validateAddress platform fromAddr)
  check (validateAddress platform toAddr)
  check (validateAddress platform spender)
  check (refuseIf (amount = 0) "Amount must be greater than 0")
  check (refuseIf (maxAmount < amount)
    ("Amount exceeds maximum allowed: " ++ toString maxAmount))
  check (refuseIf (fromAddr = toAddr) "Cannot transfer to self")
  let allowance := (← get).allowance fromAddr spender
  check (refuseIf (allowance < amount) "Insufficient allowance")
  let fromBalance := (← get).getBalance fromAddr
  check (refuseIf (fromBalance < amount) "Insufficient balance")
  let toBalance := (← get).getBalance toAddr
  let newToBalance ← check (checkedAdd toBalance amount
    "Balance overflow: recipient balance would exceed maximum")
  let newFromBalance ← check (checkedSub fromBalance amount
    "Balance underflow: insufficient balance")
  setBalance fromAddr newFromBalance
  setBalance toAddr newToBalance
  decreaseAllowance fromAddr spender amount
  emitEvent (emitTransferEvent env · fromAddr toAddr amount)
  touch platform env
  return "Transferred " ++ toString amount ++ " from " ++ fromAddr ++ " to " ++ toAddr ++
    " via " ++ spender

def approve (owner spender : String) (amount : UInt64) : Method := do
  check (validateAddress platform owner)
  check (validateAddress platform spender)
  check (refuseIf (owner = spender) "Cannot approve self")
  check (refuseIf (maxAmount < amount)
    ("Allowance amount exceeds maximum allowed: " ++ toString maxAmount))
  write fun state => { state with
    allowances := state.allowances.insert owner
      ((state.allowances[owner]?.getD ∅).insert spender amount) }
  emitEvent (emitApprovalEvent env · owner spender amount)
  touch platform env
  return "Approved " ++ spender ++ " to spend " ++ toString amount ++ " tokens from " ++ owner

def mint (toAddr : String) (amount : UInt64) : Method := do
  check (validateAddress platform toAddr)
  check (refuseIf (amount = 0) "Amount must be greater than 0")
  check (refuseIf (maxAmount < amount)
    ("Mint amount exceeds maximum allowed: " ++ toString maxAmount))
  check ((← get).checkSupply amount)
  let currentBalance := (← get).getBalance toAddr
  let newBalance ← check (checkedAdd currentBalance amount
    "Balance overflow: recipient balance would exceed maximum")
  setBalance toAddr newBalance
  touch platform env
  return "Minted " ++ toString amount ++ " to " ++ toAddr

def burn (fromAddr : String) (amount : UInt64) : Method := do
  check (validateAddress platform fromAddr)
  check (refuseIf (amount = 0) "Amount must be greater than 0")
  check (refuseIf (maxAmount < amount)
    ("Burn amount exceeds maximum allowed: " ++ toString maxAmount))
  let fromBalance := (← get).getBalance fromAddr
  check (refuseIf (fromBalance < amount) "Insufficient balance to burn")
  let newBalance ← check (checkedSub fromBalance amount
    "Balance underflow: insufficient balance")
  setBalance fromAddr newBalance
  touch platform env
  return "Burned " ++ toString amount ++ " from " ++ fromAddr

def executeCustom (name : String) : Method := do
  write fun state => { state with
    metadata := state.metadata.insert ("last_execution_" ++ name) (toString env.now) }
  touch platform env
  return "Executed custom function: " ++ name

def dropNftBalance (address : String) : EStateM String SmartContract Unit :=
  write fun state => { state with nftBalances := state.dropNftBalance address }

def raiseNftBalance (address : String) : EStateM String SmartContract Unit := do
  let balance := (← get).state.nftBalance address
  setNftBalance address (balance + 1)

def dropOwned (owner : String) (tokenId : UInt64) : EStateM String SmartContract Unit :=
  write fun state => { state with ownerToTokens := state.dropOwned owner tokenId }

def addOwned (owner : String) (tokenId : UInt64) : EStateM String SmartContract Unit :=
  write fun state =>
    { state with ownerToTokens := ContractState.addOwned state.ownerToTokens owner tokenId }

def setOwner (toAddr : String) (tokenId : UInt64) : EStateM String SmartContract Unit :=
  write fun state => { state with tokenOwners := state.tokenOwners.insert tokenId toAddr }

def clearApproval (tokenId : UInt64) : EStateM String SmartContract Unit :=
  write fun state => { state with tokenApprovals := state.tokenApprovals.erase tokenId }

def mintNft (toAddr : String) (tokenId : UInt64) (tokenUri : String) : Method := do
  check (ensureContractType (← get) "nft")
  check (validateAddress platform toAddr)
  check (validateTokenId tokenId)
  check (refuseIf ((← get).state.tokenOwners.contains tokenId)
    ("Token ID " ++ toString tokenId ++ " already exists"))
  check (refuseIf (maxTokensPerContract ≤ (← get).state.tokenIndex.length)
    ("Maximum tokens per contract reached: " ++ toString maxTokensPerContract))
  let ownerTokenCount :=
    ((← get).state.ownerToTokens[toAddr]?.map Std.ExtTreeSet.size).getD 0
  check (refuseIf (maxTokensPerOwner ≤ ownerTokenCount)
    ("Maximum tokens per owner reached: " ++ toString maxTokensPerOwner))
  check (refuseIf (tokenUri ≠ "" ∧ maxTokenUriLength < tokenUri.utf8ByteSize)
    ("Token URI exceeds maximum length (" ++ toString maxTokenUriLength ++ " characters)"))
  setOwner toAddr tokenId
  write fun state => { state with
    tokenUris :=
      if tokenUri = "" then state.tokenUris else state.tokenUris.insert tokenId tokenUri }
  raiseNftBalance toAddr
  addOwned toAddr tokenId
  write fun state => { state with tokenIndex := state.tokenIndex ++ [tokenId] }
  emitEvent (emitNftTransferEvent env · "0" toAddr tokenId)
  touch platform env
  return "Minted NFT " ++ toString tokenId ++ " to " ++ toAddr

def moveToken (fromAddr toAddr : String) (tokenId : UInt64) :
    EStateM String SmartContract Unit := do
  dropNftBalance fromAddr
  raiseNftBalance toAddr
  dropOwned fromAddr tokenId
  addOwned toAddr tokenId

def transferNft (fromAddr toAddr : String) (tokenId : UInt64) (caller : String) : Method := do
  check (ensureContractType (← get) "nft")
  check (validateAddress platform fromAddr)
  check (validateAddress platform toAddr)
  check (validateAddress platform caller)
  check (refuseIf (fromAddr = toAddr) "Cannot transfer NFT to self")
  check ((← get).ownedBy fromAddr tokenId)
  check (refuseIf (caller ≠ fromAddr ∧ (← get).state.tokenApprovals[tokenId]? ≠ some caller)
    ("Caller " ++ caller ++ " is not authorized to transfer token " ++ toString tokenId))
  if caller ≠ fromAddr then clearApproval tokenId
  setOwner toAddr tokenId
  moveToken fromAddr toAddr tokenId
  emitEvent (emitNftTransferEvent env · fromAddr toAddr tokenId)
  touch platform env
  return "Transferred NFT " ++ toString tokenId ++ " from " ++ fromAddr ++ " to " ++ toAddr

def approveNft (owner toAddr : String) (tokenId : UInt64) : Method := do
  check (ensureContractType (← get) "nft")
  check (validateAddress platform owner)
  check (validateAddress platform toAddr)
  check (refuseIf (owner = toAddr) "Cannot approve self")
  check ((← get).ownedBy owner tokenId)
  write fun state => { state with tokenApprovals := state.tokenApprovals.insert tokenId toAddr }
  emitEvent (emitNftApprovalEvent env · owner toAddr tokenId)
  touch platform env
  return "Approved " ++ toAddr ++ " to transfer NFT " ++ toString tokenId

def transferFromNft (fromAddr toAddr : String) (tokenId : UInt64) (spender : String) :
    Method := do
  check (ensureContractType (← get) "nft")
  check (validateAddress platform fromAddr)
  check (validateAddress platform toAddr)
  check (validateAddress platform spender)
  check (refuseIf (fromAddr = toAddr) "Cannot transfer NFT to self")
  check ((← get).ownedBy fromAddr tokenId)
  let approved := (← get).state.tokenApprovals[tokenId]?
  check (refuseIf (approved = none)
    ("Token " ++ toString tokenId ++ " is not approved for transfer"))
  check (refuseIf (approved ≠ some spender)
    ("Spender " ++ spender ++ " is not approved to transfer token " ++ toString tokenId))
  setOwner toAddr tokenId
  clearApproval tokenId
  moveToken fromAddr toAddr tokenId
  emitEvent (emitNftTransferEvent env · fromAddr toAddr tokenId)
  touch platform env
  return "Transferred NFT " ++ toString tokenId ++ " from " ++ fromAddr ++ " to " ++ toAddr ++
    " via " ++ spender

def burnNft (owner : String) (tokenId : UInt64) (caller : String) : Method := do
  check (ensureContractType (← get) "nft")
  check (validateAddress platform owner)
  check (validateAddress platform caller)
  check ((← get).ownedBy owner tokenId)
  check (refuseIf (caller ≠ owner)
    ("Caller " ++ caller ++ " is not authorized to burn token " ++ toString tokenId))
  write fun state => { state with tokenOwners := state.tokenOwners.erase tokenId }
  write fun state => { state with tokenUris := state.tokenUris.erase tokenId }
  clearApproval tokenId
  write fun state => { state with nftMetadata := state.nftMetadata.erase tokenId }
  dropNftBalance owner
  dropOwned owner tokenId
  write fun state => { state with tokenIndex := state.tokenIndex.erase tokenId }
  emitEvent (emitNftTransferEvent env · owner "0" tokenId)
  touch platform env
  return "Burned NFT " ++ toString tokenId

def setNftMetadata (tokenId : UInt64) (metadata : NFTMetadata) : Method := do
  check (ensureContractType (← get) "nft")
  check (validateTokenId tokenId)
  check (refuseIf (¬ (← get).state.tokenOwners.contains tokenId)
    ("Token ID " ++ toString tokenId ++ " does not exist"))
  check (SmartContract.checkLength metadata.name maxMetadataNameLength "Metadata name")
  check (SmartContract.checkLength metadata.description maxMetadataDescriptionLength
    "Metadata description")
  check (SmartContract.checkLength metadata.image maxMetadataUrlLength "Metadata image URL")
  check (SmartContract.checkLength metadata.externalUrl maxMetadataUrlLength
    "Metadata external_url")
  check (refuseIf (maxMetadataAttributes < metadata.attributes.length)
    ("Metadata attributes exceed maximum count (" ++ toString maxMetadataAttributes ++ ")"))
  check (SmartContract.checkAttributes metadata.attributes)
  write fun state => { state with nftMetadata := state.nftMetadata.insert tokenId metadata }
  touch platform env
  return "Metadata set for token " ++ toString tokenId

def execute (function : ContractFunction) (caller : Option String) : Method :=
  match function with
  | .transfer toAddr amount => do
    let sender ← check (okOr caller "Caller address required for transfer")
    transfer platform env sender toAddr amount
  | .transferFrom fromAddr toAddr amount => do
    let spender ← check (okOr caller "Caller address required for transferFrom")
    transferFrom platform env fromAddr toAddr amount spender
  | .approve spender amount => do
    let owner ← check (okOr caller "Caller address required for approve")
    approve platform env owner spender amount
  | .mint toAddr amount => mint platform env toAddr amount
  | .burn fromAddr amount => burn platform env fromAddr amount
  | .mintNFT toAddr tokenId tokenUri => mintNft platform env toAddr tokenId tokenUri
  | .transferNFT fromAddr toAddr tokenId => do
    let caller ← check (okOr caller "Caller address required for transferNFT")
    transferNft platform env fromAddr toAddr tokenId caller
  | .approveNFT toAddr tokenId => do
    let owner ← check (okOr caller "Caller address required for approveNFT")
    approveNft platform env owner toAddr tokenId
  | .transferFromNFT fromAddr toAddr tokenId => do
    let spender ← check (okOr caller "Caller address required for transferFromNFT")
    transferFromNft platform env fromAddr toAddr tokenId spender
  | .burnNFT owner tokenId => do
    let caller ← check (okOr caller "Caller address required for burnNFT")
    burnNft platform env owner tokenId caller
  | .setNFTMetadata tokenId metadata => setNftMetadata platform env tokenId metadata
  | .custom name _ => executeCustom platform env name

end CeruleanLedger.ContractMethods
