import CeruleanLedger.GuardedRun
import CeruleanLedger.OrderingLayer
import CeruleanLedger.Simulation

/-!
`Gateway::submit` of `gateway/mod.rs` for any number of clients on one node with the solo
ordering service. Each client is a program counter; every lock acquisition of the source is one
step, and steps of different clients interleave freely. What discovery, the policy stores and
remote endorsers answer is part of the request. Events and the broadcast to peers change nothing
modelled here.
-/

namespace CeruleanLedger.GatewaySubmit

open ByteCodec EndorsementCheck BlockStore VersionedState Mvcc Simulation OrderingLayer GuardedRun

inductive GatewayError where
  | policyNotSatisfied (detail : String)
  | ordering (reason : String)
  | storage (reason : String)
  | simulation (reason : String)
  deriving DecidableEq

structure TxResult where
  txId : String
  blockHeight : UInt64
  valid : Bool
  deriving DecidableEq

inductive BlockEvent where
  | blockCommitted (channelId : String) (height : UInt64) (txCount : Nat)
  | transactionCommitted (channelId txId : String) (blockHeight : UInt64) (valid : Bool)
  deriving DecidableEq

inductive DiscoveryError where
  | policyNotFound (resource : String)
  | insufficientPeers
  | peerNotFound (addr : String)

def DiscoveryError.display : DiscoveryError → String
  | .policyNotFound resource => "no policy found for " ++ resource
  | .insufficientPeers => "cannot satisfy endorsement policy: insufficient peers"
  | .peerNotFound addr => "peer not found: " ++ addr

/-- The three endorsement paths, with the answers they receive. -/
inductive Endorsers where
  | remote (answer : Except GatewayError ReadWriteSet)
  | discovered (plan : Except DiscoveryError Unit)
  | registry

structure Request where
  tx : Transaction
  chaincodeId : String
  endorsers : Endorsers
  policy : Option EndorsementPolicy
  registeredOrgs : List String
  keyPolicies : Option (String → Option EndorsementPolicy)

def satisfiedBy (orgIds : List String) : EndorsementPolicy → Bool
  | .and left right => (EndorsementPolicy.and left right).evaluate orgIds
  | .or left right => (EndorsementPolicy.or left right).evaluate orgIds
  | .anyOf orgs => orgs.any (orgIds.contains ·)
  | .allOf orgs => orgs.all (orgIds.contains ·)
  | .nOutOf n orgs => n ≤ (orgs.filter (orgIds.contains ·)).length
  | .ouBased ouIds minCount => (EndorsementPolicy.ouBased ouIds minCount).evaluate orgIds

def selfEndorse (request : Request) : Except GatewayError Unit :=
  match request.policy with
  | none => .ok ()
  | some policy =>
    if satisfiedBy request.registeredOrgs policy then .ok ()
    else .error (.policyNotSatisfied request.chaincodeId)

def validateKeyPolicies (request : Request) (policies : String → Option EndorsementPolicy) :
    List KVWrite → Except GatewayError Unit
  | [] => .ok ()
  | write :: rest =>
    match policies write.key with
    | none => validateKeyPolicies request policies rest
    | some policy =>
      if policy.evaluate request.registeredOrgs then
        validateKeyPolicies request policies rest
      else .error (.policyNotSatisfied (request.chaincodeId ++ "/" ++ write.key))

def validateKeyPoliciesForRwset (request : Request) (rwset : ReadWriteSet) :
    Except GatewayError Unit :=
  match request.keyPolicies with
  | none => .ok ()
  | some policies => validateKeyPolicies request policies rwset.writes

def simulateLocally (guest : Option Guest) (order : HashOrder) (request : Request)
    (world : Option WorldState) : Except GatewayError (Option ReadWriteSet) :=
  match guest, world with
  | some guest, some state =>
    match simulate guest order state with
    | .error reason => .error (.simulation ("wasm execution error: " ++ reason))
    | .ok (_, rwset) =>
      match validateKeyPoliciesForRwset request rwset with
      | .error reason => .error reason
      | .ok () => .ok (some rwset)
  | _, _ => .ok none

def planned (request : Request) : Except DiscoveryError Unit → Except GatewayError Unit
  | .ok () => .ok ()
  | .error (.policyNotFound _) => selfEndorse request
  | .error .insufficientPeers => .error (.policyNotSatisfied request.chaincodeId)
  | .error (.peerNotFound addr) => .error (.policyNotSatisfied ("peer not found: " ++ addr))

def endorse (guest : Option Guest) (order : HashOrder) (request : Request)
    (world : Option WorldState) : Except GatewayError (Option ReadWriteSet) :=
  match request.endorsers with
  | .remote answer => answer.map some
  | .discovered plan =>
    match planned request plan with
    | .error reason => .error reason
    | .ok () => simulateLocally guest order request world
  | .registry =>
    match selfEndorse request with
    | .error reason => .error reason
    | .ok () => simulateLocally guest order request world

inductive Stage where
  | start
  | endorsed (rwset : Option ReadWriteSet)
  | queued (rwset : Option ReadWriteSet)
  | atHeight (rwset : Option ReadWriteSet) (height : UInt64)
  | cut (rwset : Option ReadWriteSet) (block : Block)
  | indexing (rwset : Option ReadWriteSet) (block : Block) (rest : List String)
  | applying (block : Block) (rest : List KVWrite)
  | finished (result : Except GatewayError TxResult)
  deriving DecidableEq

structure Shared where
  world : Option WorldState
  ordering : OrderingService
  store : Store

structure Node where
  crypto : Crypto
  clock : Clock
  guest : Option Guest

structure Moment where
  now : UInt64
  fault : Option String
  hashOrder : HashOrder

/-- `get_latest_height().unwrap_or(0)`: a database fault reads as zero. -/
def latestHeightOr (fault : Option String) : Store → UInt64
  | .memory store => (Store.memory store).getLatestHeight
  | .rocksDb store => if fault.isSome then 0 else (Store.rocksDb store).getLatestHeight

/-- The record written for one id of the block: only the client's own
transaction keeps its fields. -/
def indexedTx (tx : Transaction) (block : Block) (id : String) : Transaction :=
  if id = tx.id then
    { id, blockHeight := block.height, timestamp := block.timestamp, inputDid := tx.inputDid
      outputRecipient := tx.outputRecipient, amount := tx.amount, state := "committed" }
  else
    { id, blockHeight := block.height, timestamp := block.timestamp, inputDid := ""
      outputRecipient := "", amount := 0, state := "committed" }

/-- `let _ = store.write_transaction(..)`: a fault is ignored. -/
def indexTransaction (fault : Option String) (tx : Transaction) : Store → Store
  | .memory store => (Store.memory store).writeTransaction tx
  | .rocksDb store =>
    if fault.isSome then .rocksDb store else (Store.rocksDb store).writeTransaction tx

@[simp] theorem index_transaction_blocks (fault : Option String) (tx : Transaction)
    (store : Store) : (indexTransaction fault tx store).blocks = store.blocks := by
  cases store with
  | memory inner => rfl
  | rocksDb inner =>
    simp only [indexTransaction]
    split
    · rfl
    · rfl

def returned (request : Request) (block : Block) (valid : Bool) : Stage :=
  .finished (.ok ⟨request.tx.id, block.height, valid⟩)

def advance (node : Node) (request : Request) (moment : Moment) (shared : Shared) :
    Stage → Stage × Shared
  -- Step 1: endorsement, with one local simulation on the current world state.
  | .start =>
    match endorse node.guest moment.hashOrder request shared.world with
    | .error reason => (.finished (.error reason), shared)
    | .ok rwset => (.endorsed rwset, shared)
  -- Step 2.
  | .endorsed rwset =>
    (.queued rwset, { shared with ordering := shared.ordering.submitTx request.tx })
  -- Step 3: the height is read first; other clients may store a block before the cut.
  | .queued rwset => (.atHeight rwset (latestHeightOr moment.fault shared.store + 1), shared)
  | .atHeight rwset height =>
    match shared.ordering.cutBlock node.crypto moment.now height "gateway" with
    | (ordering, none) =>
      (.finished (.error (.ordering "cut_block returned no block")), { shared with ordering })
    | (ordering, some block) => (.cut rwset block, { shared with ordering })
  | .cut rwset block =>
    match shared.store.writeBlock moment.fault block with
    | .error reason => (.finished (.error (.storage reason.display)), shared)
    | .ok store => (.indexing rwset block block.transactions, { shared with store })
  -- Step 3.1: every id of the block, not only the client's own.
  | .indexing rwset block (id :: rest) =>
    (.indexing rwset block rest, { shared with
      store := indexTransaction moment.fault (indexedTx request.tx block id) shared.store })
  -- Step 3.5: no lock is held from the validation to the last put.
  | .indexing (some rwset) block [] =>
    match shared.world with
    | none => (returned request block true, shared)
    | some state =>
      match validateRwset rwset state with
      | .ok () => (.applying block rwset.writes, shared)
      | .error _ => (returned request block false, shared)
  | .indexing none block [] => (returned request block true, shared)
  | .applying block (write :: rest) =>
    (.applying block rest, { shared with
      world := shared.world.map fun state => state.put node.clock write.key write.value })
  | .applying block [] => (returned request block true, shared)
  | .finished result => (.finished result, shared)

inductive Transition (node : Node) (request : Request) (moment : Moment) (shared : Shared) :
    Stage → Stage × Shared → Prop where
  | refused (reason : GatewayError)
      (failed : endorse node.guest moment.hashOrder request shared.world = .error reason) :
      Transition node request moment shared .start (.finished (.error reason), shared)
  | endorsed (rwset : Option ReadWriteSet)
      (answered : endorse node.guest moment.hashOrder request shared.world = .ok rwset) :
      Transition node request moment shared .start (.endorsed rwset, shared)
  | enqueued (rwset : Option ReadWriteSet) :
      Transition node request moment shared (.endorsed rwset)
        (.queued rwset, { shared with ordering := shared.ordering.submitTx request.tx })
  | heightRead (rwset : Option ReadWriteSet) :
      Transition node request moment shared (.queued rwset)
        (.atHeight rwset (latestHeightOr moment.fault shared.store + 1), shared)
  | nothingCut (rwset : Option ReadWriteSet) (height : UInt64) (ordering : OrderingService)
      (cut : shared.ordering.cutBlock node.crypto moment.now height "gateway" =
        (ordering, none)) :
      Transition node request moment shared (.atHeight rwset height)
        (.finished (.error (.ordering "cut_block returned no block")), { shared with ordering })
  | blockCut (rwset : Option ReadWriteSet) (height : UInt64) (ordering : OrderingService)
      (block : Block)
      (cut : shared.ordering.cutBlock node.crypto moment.now height "gateway" =
        (ordering, some block)) :
      Transition node request moment shared (.atHeight rwset height)
        (.cut rwset block, { shared with ordering })
  | writeFailed (rwset : Option ReadWriteSet) (block : Block) (reason : StorageError)
      (failed : shared.store.writeBlock moment.fault block = .error reason) :
      Transition node request moment shared (.cut rwset block)
        (.finished (.error (.storage reason.display)), shared)
  | blockWritten (rwset : Option ReadWriteSet) (block : Block) (store : Store)
      (written : shared.store.writeBlock moment.fault block = .ok store) :
      Transition node request moment shared (.cut rwset block)
        (.indexing rwset block block.transactions, { shared with store })
  | indexed (rwset : Option ReadWriteSet) (block : Block) (id : String) (rest : List String) :
      Transition node request moment shared (.indexing rwset block (id :: rest))
        (.indexing rwset block rest, { shared with
          store := indexTransaction moment.fault (indexedTx request.tx block id) shared.store })
  | unchecked (rwset : Option ReadWriteSet) (block : Block)
      (absent : rwset = none ∨ shared.world = none) :
      Transition node request moment shared (.indexing rwset block [])
        (returned request block true, shared)
  | validated (rwset : ReadWriteSet) (block : Block) (state : WorldState)
      (present : shared.world = some state) (valid : validateRwset rwset state = .ok ()) :
      Transition node request moment shared (.indexing (some rwset) block [])
        (.applying block rwset.writes, shared)
  | conflicted (rwset : ReadWriteSet) (block : Block) (state : WorldState)
      (conflict : MvccConflict) (present : shared.world = some state)
      (invalid : validateRwset rwset state = .error conflict) :
      Transition node request moment shared (.indexing (some rwset) block [])
        (returned request block false, shared)
  | put (block : Block) (write : KVWrite) (rest : List KVWrite) :
      Transition node request moment shared (.applying block (write :: rest))
        (.applying block rest, { shared with
          world := shared.world.map fun state => state.put node.clock write.key write.value })
  | applied (block : Block) :
      Transition node request moment shared (.applying block [])
        (returned request block true, shared)
  | rested (result : Except GatewayError TxResult) :
      Transition node request moment shared (.finished result) (.finished result, shared)

theorem advance_transition (node : Node) (request : Request) (moment : Moment) (shared : Shared)
    (stage : Stage) :
    Transition node request moment shared stage (advance node request moment shared stage) := by
  cases stage with
  | start =>
    simp only [advance]
    split
    · exact .refused _ ‹_›
    · exact .endorsed _ ‹_›
  | endorsed rwset => exact .enqueued rwset
  | queued rwset => exact .heightRead rwset
  | atHeight rwset height =>
    simp only [advance]
    split
    · exact .nothingCut rwset height _ ‹_›
    · exact .blockCut rwset height _ _ ‹_›
  | cut rwset block =>
    simp only [advance]
    split
    · exact .writeFailed rwset block _ ‹_›
    · exact .blockWritten rwset block _ ‹_›
  | indexing rwset block rest =>
    cases rest with
    | cons id rest => exact .indexed rwset block id rest
    | nil =>
      cases rwset with
      | none => exact .unchecked none block (Or.inl rfl)
      | some rwset =>
        simp only [advance]
        split
        · exact .unchecked (some rwset) block (Or.inr ‹_›)
        · split
          · exact .validated rwset block _ ‹_› ‹_›
          · exact .conflicted rwset block _ _ ‹_› ‹_›
  | applying block rest =>
    cases rest with
    | nil => exact .applied block
    | cons write rest => exact .put block write rest
  | finished result => exact .rested result

/-- The clients and the shared state. `applied` records each client's puts; no
step reads it. -/
structure System (count : Nat) where
  stages : Fin count → Stage
  shared : Shared
  applied : Fin count → List KVWrite

def startOf (count : Nat) (shared : Shared) : System count :=
  ⟨fun _ => .start, shared, fun _ => []⟩

def Stage.nextPut : Stage → List KVWrite
  | .applying _ (write :: _) => [write]
  | _ => []

variable {count : Nat}

def stepClient (node : Node) (requests : Fin count → Request) (system : System count)
    (input : Fin count × Moment) : System count :=
  let moved := advance node (requests input.1) input.2 system.shared (system.stages input.1)
  { stages := Function.update system.stages input.1 moved.1
    shared := moved.2
    applied := Function.update system.applied input.1
      (system.applied input.1 ++ (system.stages input.1).nextPut) }

def runClients (node : Node) (requests : Fin count → Request) (system : System count)
    (inputs : List (Fin count × Moment)) : System count :=
  inputs.foldl (stepClient node requests) system

def plainRequest (id : String) : Request :=
  ⟨sampleTx id, "chaincode", .registry, none, [], none⟩

def turns (clients : List (Fin count)) : List (Fin count × Moment) :=
  clients.map fun client => (client, ⟨0, none, .asStored⟩)

end CeruleanLedger.GatewaySubmit
