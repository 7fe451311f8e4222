import CeruleanLedger.SmartContracts

/-!
Contracts between nodes: the messages `Contracts` and `UpdateContract` as `process_message` of
`network/mod.rs` handles them.
-/

namespace CeruleanLedger.ContractReplication

open SmartContracts

def maxContractSize : Nat := 1000000
def updatesPerMinute : Nat := 20

inductive Message where
  | contracts (contracts : List SmartContract)
  | updateContract (contract : SmartContract)

/-- A message with what its handling reads: the peer it comes from, the clock at the
rate limit and at the receipts, and the order of the hash maps. -/
structure Delivery where
  message : Message
  sourcePeer : Option String
  limitTime : UInt64
  receiptTime : UInt64
  env : CallEnv

abbrev RateLimits := Std.ExtTreeMap String (UInt64 × Nat)

abbrev Receipts := Std.ExtTreeMap String (UInt64 × String)

structure Node where
  contractManager : ContractManager
  rateLimits : RateLimits
  recentReceipts : Receipts

section Size

variable (platform : Platform) (env : CallEnv)

def jsonOption : Option String → String
  | none => "null"
  | some text => text

def stateJson (state : ContractState) : String :=
  "\x7b\"balances\":" ++ jsonOf env platform.jsonText jsonNumber state.balances ++
    ",\"metadata\":" ++ jsonOf env platform.jsonText platform.jsonText state.metadata ++
    ",\"allowances\":" ++
      jsonOf env platform.jsonText (jsonOf env platform.jsonText jsonNumber) state.allowances ++
    ",\"token_owners\":" ++ jsonOf env jsonKey platform.jsonText state.tokenOwners ++
    ",\"token_uris\":" ++ jsonOf env jsonKey platform.jsonText state.tokenUris ++
    ",\"token_approvals\":" ++ jsonOf env jsonKey platform.jsonText state.tokenApprovals ++
    ",\"nft_balances\":" ++ jsonOf env platform.jsonText jsonNumber state.nftBalances ++
    ",\"nft_metadata\":" ++ jsonOf env jsonKey (jsonMetadata platform) state.nftMetadata ++
    ",\"owner_to_tokens\":" ++ jsonOf env platform.jsonText
      (fun tokens => jsonList (env.itemOrder.arrange (tokens.toList.map jsonNumber)))
      state.ownerToTokens ++
    ",\"token_index\":" ++ jsonList (state.tokenIndex.map jsonNumber) ++ "\x7d"

def contractJson (contract : SmartContract) : String :=
  "\x7b\"address\":" ++ platform.jsonText contract.address ++
    ",\"owner\":" ++ platform.jsonText contract.owner ++
    ",\"contract_type\":" ++ platform.jsonText contract.contractType ++
    ",\"name\":" ++ platform.jsonText contract.name ++
    ",\"symbol\":" ++ jsonOption (contract.symbol.map platform.jsonText) ++
    ",\"total_supply\":" ++ jsonOption (contract.totalSupply.map toString) ++
    ",\"decimals\":" ++ jsonOption (contract.decimals.map toString) ++
    ",\"state\":" ++ stateJson platform env contract.state ++
    ",\"bytecode\":" ++ jsonOption (contract.bytecode.map fun bytes =>
      jsonList (bytes.map toString)) ++
    ",\"abi\":" ++ jsonOption (contract.abi.map platform.jsonText) ++
    ",\"created_at\":" ++ toString contract.createdAt ++
    ",\"updated_at\":" ++ toString contract.updatedAt ++
    ",\"update_sequence\":" ++ toString contract.updateSequence ++
    ",\"integrity_hash\":" ++ jsonOption (contract.integrityHash.map platform.jsonText) ++ "\x7d"

end Size

def shouldUpdate (existing contract : SmartContract) : Bool :=
  existing.updatedAt < contract.updatedAt ||
    (contract.updatedAt = existing.updatedAt && existing.updateSequence < contract.updateSequence)

def merge (manager : ContractManager) (contract : SmartContract) : ContractManager :=
  match manager.getContract contract.address with
  | none =>
    match manager.deployContract contract with
    | .ok (deployed, _) => deployed
    | .error _ => manager
  | some existing =>
    if contract.owner ≠ existing.owner then manager
    else if shouldUpdate existing contract then
      ⟨manager.contracts.insert contract.address contract⟩
    else manager

/-- The entry is made where there is none; the minute restarts after sixty seconds. -/
def rateLimit (limit : Nat) (limits : RateLimits) (peer : String) (now : UInt64) :
    Option RateLimits :=
  let (last, count) := limits[peer]?.getD (now, 0)
  if now - last < 60 then
    if limit ≤ count then none else some (limits.insert peer (last, count + 1))
  else some (limits.insert peer (now, 1))

def receiptKey (contract : SmartContract) : String :=
  contract.address ++ ":" ++ toString contract.updatedAt ++ ":" ++ toString contract.updateSequence

def keptReceipts (receipts : Receipts) (now : UInt64) : Receipts :=
  receipts.filter fun _ receipt => now - receipt.1 < 300

def recentlyReceived (receipts : Receipts) (key peer : String) (now : UInt64) : Bool :=
  match receipts[key]? with
  | some (time, previous) => previous = peer && now - time < 30
  | none => false

variable (platform : Platform)

def receive (env : CallEnv) (manager : ContractManager) (contract : SmartContract) :
    ContractManager :=
  if contract.validateIntegrity platform env then merge manager contract else manager

def onContracts (node : Node) (env : CallEnv) (contracts : List SmartContract) : Node :=
  { node with contractManager := contracts.foldl (receive platform env) node.contractManager }

def onUpdateContract (node : Node) (delivery : Delivery) (contract : SmartContract) : Node :=
  let received := receive platform delivery.env node.contractManager contract
  if maxContractSize < (contractJson platform delivery.env contract).utf8ByteSize then node
  else
    match delivery.sourcePeer with
    | none => { node with contractManager := received }
    | some peer =>
      match rateLimit updatesPerMinute node.rateLimits peer delivery.limitTime with
      | none => node
      | some rateLimits =>
        let receipts := keptReceipts node.recentReceipts delivery.receiptTime
        let key := receiptKey contract
        if recentlyReceived receipts key peer delivery.receiptTime then
          { node with rateLimits, recentReceipts := receipts }
        else
          ⟨received, rateLimits, receipts.insert key (delivery.receiptTime, peer)⟩

def processMessage (node : Node) (delivery : Delivery) : Node :=
  match delivery.message with
  | .contracts contracts => onContracts platform node delivery.env contracts
  | .updateContract contract => onUpdateContract platform node delivery contract

end CeruleanLedger.ContractReplication
