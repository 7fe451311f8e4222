import CeruleanLedger.ByteCodec
import CeruleanLedger.InPlace
import CeruleanLedger.IterationOrder
import CeruleanLedger.OrderedMap

/-!
The token and NFT contracts of `smart_contracts.rs`: their state, the checks that
the methods make, the events and the integrity hash. SHA-256, the Unicode class of
alphanumeric characters and the quoting of texts are parameters. A call reads the
clock, and the order in which the hash maps list their contents then; both are
inputs of the call. Integers are `u64` and wrap where the source does not check, as
in a release build.
-/

namespace CeruleanLedger.SmartContracts

open ByteCodec InPlace IterationOrder

def minAddressLength : Nat := 32
def maxAddressLength : Nat := 128
def maxTokenId : UInt64 := 1000000000
def maxAmount : UInt64 := 1000000000000
def maxTokensPerContract : Nat := 10000000
def maxTokensPerOwner : Nat := 1000000
def maxTokenUriLength : Nat := 2048
def maxMetadataNameLength : Nat := 256
def maxMetadataDescriptionLength : Nat := 2048
def maxMetadataUrlLength : Nat := 512
def maxMetadataAttributes : Nat := 50
def maxAttributeTraitTypeLength : Nat := 64
def maxAttributeValueLength : Nat := 256
def reservedTokenId : UInt64 := 0
def maxEvents : Nat := 1000

structure Attribute where
  traitType : String
  value : String
  deriving DecidableEq

structure NFTMetadata where
  name : String
  description : String
  image : String
  externalUrl : String
  attributes : List Attribute
  deriving DecidableEq

inductive ContractFunction where
  | transfer (toAddr : String) (amount : UInt64)
  | transferFrom (fromAddr toAddr : String) (amount : UInt64)
  | approve (spender : String) (amount : UInt64)
  | mint (toAddr : String) (amount : UInt64)
  | burn (fromAddr : String) (amount : UInt64)
  | mintNFT (toAddr : String) (tokenId : UInt64) (tokenUri : String)
  | transferNFT (fromAddr toAddr : String) (tokenId : UInt64)
  | approveNFT (toAddr : String) (tokenId : UInt64)
  | transferFromNFT (fromAddr toAddr : String) (tokenId : UInt64)
  | burnNFT (owner : String) (tokenId : UInt64)
  | setNFTMetadata (tokenId : UInt64) (metadata : NFTMetadata)
  | custom (name : String) (params : List String)

structure ContractState where
  balances : Std.ExtTreeMap String UInt64
  metadata : Std.ExtTreeMap String String
  allowances : Std.ExtTreeMap String (Std.ExtTreeMap String UInt64)
  tokenOwners : Std.ExtTreeMap UInt64 String
  tokenUris : Std.ExtTreeMap UInt64 String
  tokenApprovals : Std.ExtTreeMap UInt64 String
  nftBalances : Std.ExtTreeMap String UInt64
  nftMetadata : Std.ExtTreeMap UInt64 NFTMetadata
  ownerToTokens : Std.ExtTreeMap String (Std.ExtTreeSet UInt64)
  tokenIndex : List UInt64

def ContractState.new : ContractState := ⟨∅, ∅, ∅, ∅, ∅, ∅, ∅, ∅, ∅, []⟩

structure SmartContract where
  address : String
  owner : String
  contractType : String
  name : String
  symbol : Option String
  totalSupply : Option UInt64
  decimals : Option UInt8
  state : ContractState
  bytecode : Option Bytes
  abi : Option String
  createdAt : UInt64
  updatedAt : UInt64
  updateSequence : UInt64
  integrityHash : Option String

structure Platform where
  sha256 : Bytes → Hash32
  isAlphanumeric : Char → Bool
  debugText : String → String
  jsonText : String → String

structure CallEnv where
  now : UInt64
  entryOrder : Arrangement (String × String)
  itemOrder : Arrangement String

section Integrity

variable (platform : Platform) (env : CallEnv)

def debugOption : Option String → String
  | none => "None"
  | some text => "Some(" ++ text ++ ")"

def jsonList (items : List String) : String := "[" ++ ",".intercalate items ++ "]"

def jsonMap (entries : List (String × String)) : String :=
  "\x7b" ++ ",".intercalate ((env.entryOrder.arrange entries).map fun entry =>
    entry.1 ++ ":" ++ entry.2) ++ "\x7d"

def jsonNumber (number : UInt64) : String := toString number

def jsonKey (number : UInt64) : String := "\"" ++ toString number ++ "\""

def jsonAttribute (trait : Attribute) : String :=
  "\x7b\"trait_type\":" ++ platform.jsonText trait.traitType ++
    ",\"value\":" ++ platform.jsonText trait.value ++ "\x7d"

def jsonMetadata (metadata : NFTMetadata) : String :=
  "\x7b\"name\":" ++ platform.jsonText metadata.name ++
    ",\"description\":" ++ platform.jsonText metadata.description ++
    ",\"image\":" ++ platform.jsonText metadata.image ++
    ",\"external_url\":" ++ platform.jsonText metadata.externalUrl ++
    ",\"attributes\":" ++ jsonList (metadata.attributes.map (jsonAttribute platform)) ++ "\x7d"

def jsonOf {Key Value : Type} {cmp : Key → Key → Ordering} [Std.TransCmp cmp]
    (key : Key → String) (value : Value → String) (map : Std.ExtTreeMap Key Value cmp) : String :=
  jsonMap env (map.toList.map fun entry => (key entry.1, value entry.2))

/-- The nine texts of `calculate_hash`; the event log is not among them. -/
def ContractState.json (state : ContractState) : String :=
  jsonOf env platform.jsonText jsonNumber state.balances ++
    jsonOf env platform.jsonText (jsonOf env platform.jsonText jsonNumber) state.allowances ++
    jsonOf env jsonKey platform.jsonText state.tokenOwners ++
    jsonOf env jsonKey platform.jsonText state.tokenUris ++
    jsonOf env jsonKey platform.jsonText state.tokenApprovals ++
    jsonOf env platform.jsonText jsonNumber state.nftBalances ++
    jsonOf env jsonKey (jsonMetadata platform) state.nftMetadata ++
    jsonOf env platform.jsonText
      (fun tokens => jsonList (env.itemOrder.arrange (tokens.toList.map jsonNumber)))
      state.ownerToTokens ++
    jsonList (state.tokenIndex.map jsonNumber)

namespace SmartContract

variable (contract : SmartContract)

def calculateHash : String :=
  hexEncode (platform.sha256 (utf8 (contract.address ++ contract.owner ++ contract.contractType ++
    contract.name ++ debugOption (contract.symbol.map platform.debugText) ++
    debugOption (contract.totalSupply.map toString) ++
    debugOption (contract.decimals.map toString) ++ contract.state.json platform env ++
    toString contract.createdAt ++ toString contract.updatedAt ++
    toString contract.updateSequence))).toList

def validateIntegrity : Bool :=
  match contract.integrityHash with
  | some storedHash => storedHash = contract.calculateHash platform env
  | none => false

/-- The end of every accepted call: time, sequence number and hash. -/
def commit (state : ContractState) : SmartContract :=
  let updated := { contract with
    state
    updatedAt := env.now
    updateSequence := contract.updateSequence + 1 }
  { updated with integrityHash := some (updated.calculateHash platform env) }

def new (uuid owner contractType name : String) (symbol : Option String)
    (totalSupply : Option UInt64) (decimals : Option UInt8) : SmartContract :=
  let digest := platform.sha256 (utf8 (owner ++ name ++ uuid))
  let contract : SmartContract :=
    ⟨"contract_" ++ hexEncode digest.toList, owner, contractType, name, symbol, totalSupply,
      decimals, .new, none, none, env.now, env.now, 0, none⟩
  { contract with integrityHash := some (contract.calculateHash platform env) }

end SmartContract

end Integrity

def checkedAdd (left right : UInt64) (message : String) : Except String UInt64 :=
  if left.toNat + right.toNat < 2 ^ 64 then .ok (left + right) else .error message

def checkedSub (left right : UInt64) (message : String) : Except String UInt64 :=
  if right ≤ left then .ok (left - right) else .error message

def validateAddress (platform : Platform) (address : String) : Except String Unit := do
  refuseIf (address = "") "Address cannot be empty"
  refuseIf (address = "0" ∨ address.utf8ByteSize = 1 ∧ address.toList.all (· = '0'))
    "Zero address is not allowed"
  refuseIf (address.utf8ByteSize < minAddressLength)
    ("Address format invalid: minimum length is " ++ toString minAddressLength ++ " characters")
  refuseIf (maxAddressLength < address.utf8ByteSize)
    ("Address format invalid: maximum length is " ++ toString maxAddressLength ++ " characters")
  refuseIf (¬ address.toList.all fun char =>
      platform.isAlphanumeric char || char = '_' || char = '-')
    ("Address contains invalid characters (only alphanumeric, underscore, and hyphen allowed)")

def validateTokenId (tokenId : UInt64) : Except String Unit := do
  refuseIf (tokenId = reservedTokenId)
    ("Token ID " ++ toString reservedTokenId ++ " is reserved and cannot be used")
  refuseIf (maxTokenId < tokenId)
    ("Token ID exceeds maximum allowed: " ++ toString maxTokenId)

def ensureContractType (contract : SmartContract) (expected : String) : Except String Unit :=
  refuseIf (contract.contractType ≠ expected)
    ("This function is only available for " ++ expected ++ " contracts, but contract is " ++
      contract.contractType)

/-- Old events go when there are many, the first ones in the order of the map. -/
def pruneEvents (env : CallEnv) (metadata : Std.ExtTreeMap String String) :
    Std.ExtTreeMap String String :=
  let eventKeys := env.itemOrder.arrange metadata.keys |>.filter fun key =>
    "event_".toList.isPrefixOf key.toList
  if maxEvents ≤ metadata.size ∧ 500 < eventKeys.length then
    (eventKeys.take (eventKeys.length - 500)).foldl (fun metadata key => metadata.erase key)
      metadata
  else metadata

def emit (env : CallEnv) (contract : SmartContract) (kind text : String) :
    Std.ExtTreeMap String String :=
  (pruneEvents env contract.state.metadata).insert
    ("event_" ++ kind ++ "_" ++ toString contract.updateSequence) text

def emitTransferEvent (env : CallEnv) (contract : SmartContract) (fromAddr toAddr : String)
    (value : UInt64) : Std.ExtTreeMap String String :=
  emit env contract "transfer"
    ("from:" ++ fromAddr ++ "|to:" ++ toAddr ++ "|value:" ++ toString value)

def emitApprovalEvent (env : CallEnv) (contract : SmartContract) (owner spender : String)
    (value : UInt64) : Std.ExtTreeMap String String :=
  emit env contract "approval"
    ("owner:" ++ owner ++ "|spender:" ++ spender ++ "|value:" ++ toString value)

def emitNftTransferEvent (env : CallEnv) (contract : SmartContract) (fromAddr toAddr : String)
    (tokenId : UInt64) : Std.ExtTreeMap String String :=
  emit env contract "nft_transfer"
    ("from:" ++ fromAddr ++ "|to:" ++ toAddr ++ "|token_id:" ++ toString tokenId)

def emitNftApprovalEvent (env : CallEnv) (contract : SmartContract) (owner approved : String)
    (tokenId : UInt64) : Std.ExtTreeMap String String :=
  emit env contract "nft_approval"
    ("owner:" ++ owner ++ "|approved:" ++ approved ++ "|token_id:" ++ toString tokenId)

namespace SmartContract

variable (contract : SmartContract)

def getBalance (address : String) : UInt64 := contract.state.balances[address]?.getD 0

def allowance (owner spender : String) : UInt64 :=
  (contract.state.allowances[owner]?.bind (·[spender]?)).getD 0

def getCurrentSupply : UInt64 := (contract.state.balances.toList.map Prod.snd).sum

def decreaseAllowance (owner spender : String) (amount : UInt64) :
    Std.ExtTreeMap String (Std.ExtTreeMap String UInt64) :=
  contract.state.allowances.modify owner fun allowances =>
    allowances.modify spender fun current => if amount ≤ current then current - amount else current

/-- The cap on the supply; the sum of the balances wraps. -/
def checkSupply (amount : UInt64) : Except String Unit :=
  match contract.totalSupply with
  | none => .ok ()
  | some maxSupply => do
    let newSupply ← checkedAdd contract.getCurrentSupply amount
      "Supply overflow: minting would cause overflow"
    refuseIf (maxSupply < newSupply) "Minting would exceed total supply"

end SmartContract

namespace ContractState

variable (state : ContractState)

def nftBalance (address : String) : UInt64 := state.nftBalances[address]?.getD 0

def dropNftBalance (address : String) : Std.ExtTreeMap String UInt64 :=
  if 0 < state.nftBalance address then
    state.nftBalances.insert address (state.nftBalance address - 1)
  else state.nftBalances

/-- The token leaves the set of its owner; an empty set is not kept. -/
def dropOwned (owner : String) (tokenId : UInt64) :
    Std.ExtTreeMap String (Std.ExtTreeSet UInt64) :=
  match state.ownerToTokens[owner]? with
  | none => state.ownerToTokens
  | some tokens =>
    let left := tokens.erase tokenId
    if left.isEmpty then state.ownerToTokens.erase owner
    else state.ownerToTokens.insert owner left

def addOwned (owned : Std.ExtTreeMap String (Std.ExtTreeSet UInt64)) (owner : String)
    (tokenId : UInt64) : Std.ExtTreeMap String (Std.ExtTreeSet UInt64) :=
  owned.insert owner ((owned[owner]?.getD ∅).insert tokenId)

end ContractState

namespace SmartContract

variable (contract : SmartContract)

def ownerOf (tokenId : UInt64) : Option String := contract.state.tokenOwners[tokenId]?

def getApproved (tokenId : UInt64) : Option String := contract.state.tokenApprovals[tokenId]?

def ownedBy (owner : String) (tokenId : UInt64) : Except String Unit :=
  match contract.state.tokenOwners[tokenId]? with
  | none => .error ("Token ID " ++ toString tokenId ++ " does not exist")
  | some currentOwner =>
    refuseIf (currentOwner ≠ owner) ("Token " ++ toString tokenId ++ " is not owned by " ++ owner)

def checkLength (text : String) (limit : Nat) (what : String) : Except String Unit :=
  refuseIf (limit < text.utf8ByteSize)
    (what ++ " exceeds maximum length (" ++ toString limit ++ " characters)")

def checkAttributes : List Attribute → Except String Unit
  | [] => .ok ()
  | trait :: rest => do
    checkLength trait.traitType maxAttributeTraitTypeLength "Attribute trait_type"
    checkLength trait.value maxAttributeValueLength "Attribute value"
    checkAttributes rest

end SmartContract

structure ContractManager where
  contracts : Std.ExtTreeMap String SmartContract

namespace ContractManager

variable (manager : ContractManager)

def deployContract (contract : SmartContract) : Except String (ContractManager × String) :=
  if manager.contracts.contains contract.address then .error "Contract address already exists"
  else .ok (⟨manager.contracts.insert contract.address contract⟩, contract.address)

def getContract (address : String) : Option SmartContract := manager.contracts[address]?

end ContractManager

end CeruleanLedger.SmartContracts
