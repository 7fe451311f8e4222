import CeruleanLedger.InPlace
import CeruleanLedger.InclusionProofs
import CeruleanLedger.OrderedMap

/-!
The cross-chain bridge: the escrow vault of `bridge/escrow.rs`, the chain registry
and the engine of `bridge/protocol.rs`, and the relayer of `bridge/relayer.rs`.
SHA-256 and the JSON form of a payload are parameters; serialising a payload does
not fail. Amounts and sequence numbers are `u64` and wrap, as in a release build.
Chain ids are their texts. A lock is held over each step, so a call is one step.
-/

namespace CeruleanLedger.Bridge

open ByteCodec InPlace InclusionProofs OrderedMap

inductive MessagePayload where
  | tokenTransfer (sender recipient : String) (amount : UInt64) (denom : String)
  | dataRelay (contractId function : String) (data : Bytes)
  | ack (originalId : Hash32) (success : Bool) (error : Option String)
  deriving DecidableEq

structure BridgeMessage where
  id : Hash32
  sourceChain : String
  destChain : String
  sequence : UInt64
  payload : MessagePayload
  sourceHeight : UInt64
  sourceTimestamp : UInt64
  proof : Option InclusionProof
  deriving DecidableEq

structure ChainConfig where
  chainId : String
  active : Bool
  minConfirmations : UInt64
  maxTransfer : UInt64

inductive TransferStatus where
  | pending
  | completed
  | refunded
  | expired
  deriving DecidableEq

def TransferStatus.debug : TransferStatus → String
  | .pending => "Pending"
  | .completed => "Completed"
  | .refunded => "Refunded"
  | .expired => "Expired"

def native : String := "rust-bc"

structure Platform where
  sha256 : Bytes → Hash32
  payloadJson : MessagePayload → Bytes

structure EscrowEntry where
  messageId : Hash32
  sender : String
  amount : UInt64
  denom : String
  destChain : String
  status : TransferStatus
  lockedAt : UInt64
  releasedAt : Option UInt64
  deriving DecidableEq

structure WrappedBalance where
  balances : Std.ExtTreeMap String UInt64
  totalSupply : UInt64

structure EscrowVault where
  locked : Std.ExtTreeMap Hash32 EscrowEntry compareHash
  wrapped : Std.ExtTreeMap (String × String) WrappedBalance comparePair
  totalLocked : UInt64

inductive EscrowError where
  | insufficientBalance (required available : UInt64)
  | notFound (messageId : Hash32)
  | alreadyExists (messageId : Hash32)
  | invalidState (reason : String)
  | zeroAmount
  deriving DecidableEq

def EscrowError.display : EscrowError → String
  | .insufficientBalance required available =>
    "insufficient balance: need " ++ toString required ++ ", have " ++ toString available
  | .notFound messageId => "escrow entry not found: " ++ toString messageId.toList
  | .alreadyExists messageId => "escrow entry already exists: " ++ toString messageId.toList
  | .invalidState reason => "invalid state transition: " ++ reason
  | .zeroAmount => "amount must be > 0"

namespace EscrowVault

def new : EscrowVault := ⟨∅, ∅, 0⟩

abbrev Method := EStateM EscrowError EscrowVault

def setEntry (messageId : Hash32) (entry : EscrowEntry) : Method Unit :=
  modify fun vault => { vault with locked := vault.locked.insert messageId entry }

def setLocked (update : UInt64 → UInt64) : Method Unit :=
  modify fun vault => { vault with totalLocked := update vault.totalLocked }

def setWrapped (token : String × String) (balance : WrappedBalance) : Method Unit :=
  modify fun vault => { vault with wrapped := vault.wrapped.insert token balance }

def lock (messageId : Hash32) (sender : String) (amount : UInt64) (denom destChain : String)
    (blockHeight : UInt64) : Method Unit := do
  check (refuseIf (amount = 0) .zeroAmount)
  check (refuseIf ((← get).locked.contains messageId) (.alreadyExists messageId))
  setEntry messageId
    ⟨messageId, sender, amount, denom, destChain, .pending, blockHeight, none⟩
  setLocked (· + amount)

/-- `release` and `refund` differ in the status they leave. -/
def settle (status : TransferStatus) (messageId : Hash32) (blockHeight : UInt64) :
    Method EscrowEntry := do
  let entry ← check (okOr (← get).locked[messageId]? (.notFound messageId))
  check (refuseIf (entry.status ≠ .pending)
    (.invalidState ("expected Pending, got " ++ entry.status.debug)))
  setEntry messageId { entry with status }
  setEntry messageId { entry with status, releasedAt := some blockHeight }
  setLocked (· - entry.amount)
  return { entry with status, releasedAt := some blockHeight }

def release : Hash32 → UInt64 → Method EscrowEntry := settle .completed

def refund : Hash32 → UInt64 → Method EscrowEntry := settle .refunded

def wrappedOf (vault : EscrowVault) (sourceChain denom : String) : WrappedBalance :=
  vault.wrapped[(sourceChain, denom)]?.getD ⟨∅, 0⟩

def mint (recipient : String) (amount : UInt64) (sourceChain denom : String) :
    Method UInt64 := do
  check (refuseIf (amount = 0) .zeroAmount)
  let balance := (← get).wrappedOf sourceChain denom
  setWrapped (sourceChain, denom) balance
  let minted := balance.balances[recipient]?.getD 0 + amount
  let balance := { balance with balances := balance.balances.insert recipient minted }
  setWrapped (sourceChain, denom) balance
  setWrapped (sourceChain, denom) { balance with totalSupply := balance.totalSupply + amount }
  return minted

def burn (account : String) (amount : UInt64) (sourceChain denom : String) :
    Method UInt64 := do
  check (refuseIf (amount = 0) .zeroAmount)
  let balance ← check
    (okOr (← get).wrapped[(sourceChain, denom)]? (.insufficientBalance amount 0))
  let held ← check (okOr balance.balances[account]? (.insufficientBalance amount 0))
  check (refuseIf (held < amount) (.insufficientBalance amount held))
  let balance := { balance with balances := balance.balances.insert account (held - amount) }
  setWrapped (sourceChain, denom) balance
  setWrapped (sourceChain, denom) { balance with totalSupply := balance.totalSupply - amount }
  return held - amount

def wrappedTotalSupply (vault : EscrowVault) (sourceChain denom : String) : UInt64 :=
  (vault.wrappedOf sourceChain denom).totalSupply

end EscrowVault

inductive BridgeError where
  | unknownChain (chain : String)
  | chainNotActive (chain : String)
  | proofFailed (reason : String)
  | escrow (reason : String)
  | exceedsMax (amount max : UInt64)
  | insufficientConfirmations (available need : UInt64)
  deriving DecidableEq

def BridgeError.display : BridgeError → String
  | .unknownChain chain => "unknown chain: " ++ chain
  | .chainNotActive chain => "chain not active: " ++ chain
  | .proofFailed reason => "proof verification failed: " ++ reason
  | .escrow reason => "escrow error: " ++ reason
  | .exceedsMax amount max =>
    "transfer exceeds maximum: " ++ toString amount ++ " > " ++ toString max
  | .insufficientConfirmations available need =>
    "insufficient confirmations: have " ++ toString available ++ ", need " ++ toString need

structure BridgeEngine where
  registry : Std.ExtTreeMap String ChainConfig
  escrow : EscrowVault
  processed : Std.ExtTreeMap Hash32 TransferStatus compareHash
  sequences : Std.ExtTreeMap (String × String) UInt64 comparePair

namespace BridgeEngine

def new : BridgeEngine := ⟨∅, .new, ∅, ∅⟩

def register (engine : BridgeEngine) (config : ChainConfig) : BridgeEngine :=
  { engine with registry := engine.registry.insert config.chainId config }

variable (platform : Platform)

def computeMessageId (sender recipient : String) (amount sequence : UInt64) : Hash32 :=
  platform.sha256 (utf8 sender ++ utf8 recipient ++ toLeBytes amount ++ toLeBytes sequence)

def nextSequence (engine : BridgeEngine) (source dest : String) : BridgeEngine × UInt64 :=
  let sequence := engine.sequences[(source, dest)]?.getD 0 + 1
  ({ engine with sequences := engine.sequences.insert (source, dest) sequence }, sequence)

/-- A sequence number is used up even when the lock fails. -/
def initiateTransfer (engine : BridgeEngine) (sender recipient : String) (amount : UInt64)
    (denom destChain : String) (blockHeight : UInt64) :
    BridgeEngine × Except BridgeError BridgeMessage :=
  match engine.registry[destChain]? with
  | none => (engine, .error (.unknownChain destChain))
  | some config =>
    if ¬ config.active then (engine, .error (.chainNotActive destChain))
    else if 0 < config.maxTransfer ∧ config.maxTransfer < amount then
      (engine, .error (.exceedsMax amount config.maxTransfer))
    else
      let (engine, sequence) := engine.nextSequence native destChain
      let id := computeMessageId platform sender recipient amount sequence
      match (EscrowVault.lock id sender amount denom destChain blockHeight).run engine.escrow with
      | .error reason escrow => ({ engine with escrow }, .error (.escrow reason.display))
      | .ok () escrow =>
        ({ engine with escrow, processed := engine.processed.insert id .pending },
          .ok ⟨id, native, destChain, sequence, .tokenTransfer sender recipient amount denom,
            blockHeight, 0, none⟩)

def confirmations (currentHeight sourceHeight : UInt64) : UInt64 :=
  if sourceHeight ≤ currentHeight then currentHeight - sourceHeight else 0

def checkInbound (engine : BridgeEngine) (message : BridgeMessage) (currentHeight : UInt64) :
    Except BridgeError Unit :=
  match engine.registry[message.sourceChain]? with
  | none => .error (.unknownChain message.sourceChain)
  | some config =>
    let available := confirmations currentHeight message.sourceHeight
    if ¬ config.active then .error (.chainNotActive message.sourceChain)
    else if available < config.minConfirmations then
      .error (.insufficientConfirmations available config.minConfirmations)
    else match message.proof with
      | none => .error (.proofFailed "missing proof")
      | some proof =>
        if ¬ verifyMerkleProof platform.sha256 (platform.payloadJson message.payload) proof then
          .error (.proofFailed "merkle proof verification failed")
        else if engine.processed.contains message.id then
          .error (.proofFailed "message already processed")
        else .ok ()

/-- The id is marked before the tokens are minted, and stays so if minting fails. -/
def processInbound (engine : BridgeEngine) (message : BridgeMessage) (currentHeight : UInt64) :
    BridgeEngine × Except BridgeError Unit :=
  match engine.checkInbound platform message currentHeight with
  | .error reason => (engine, .error reason)
  | .ok () =>
    let marked := { engine with processed := engine.processed.insert message.id .completed }
    match message.payload with
    | .tokenTransfer _ recipient amount denom =>
      match (EscrowVault.mint recipient amount message.sourceChain denom).run engine.escrow with
      | .error reason escrow => ({ marked with escrow }, .error (.escrow reason.display))
      | .ok _ escrow => ({ marked with escrow }, .ok ())
    | _ => (marked, .ok ())

end BridgeEngine

inductive RelayDirection where
  | outbound
  | inbound
  deriving DecidableEq

inductive RelayerStatus where
  | idle
  | syncing
  | relaying
  | error
  deriving DecidableEq

structure RelayJob where
  message : BridgeMessage
  direction : RelayDirection
  attempts : UInt32
  maxAttempts : UInt32

inductive RelayerError where
  | bridge (reason : String)
  | maxRetries (messageId : Hash32)
  | emptyQueue
  | externalChain (reason : String)
  deriving DecidableEq

def RelayerError.display : RelayerError → String
  | .bridge reason => "bridge error: " ++ reason
  | .maxRetries messageId => "max retries exceeded for message " ++ toString messageId.toList
  | .emptyQueue => "queue is empty"
  | .externalChain reason => "external chain error: " ++ reason

structure Relayer where
  queue : List RelayJob
  completed : List Hash32
  failed : List (Hash32 × String)
  status : RelayerStatus
  maxAttempts : UInt32

def maxRelayQueue : Nat := 10000

def maxRelayHistory : Nat := 50000

/-- A full history loses its older half before the entry is added. -/
def pushHistory {Entry : Type} (history : List Entry) (entry : Entry) : List Entry :=
  (if maxRelayHistory ≤ history.length then history.drop (history.length / 2) else history) ++
    [entry]

namespace Relayer

def new (maxAttempts : UInt32) : Relayer := ⟨[], [], [], .idle, maxAttempts⟩

def enqueue (direction : RelayDirection) (relayer : Relayer) (message : BridgeMessage) :
    Relayer :=
  if maxRelayQueue ≤ relayer.queue.length then relayer
  else { relayer with queue := relayer.queue ++ [⟨message, direction, 0, relayer.maxAttempts⟩] }

def queueOutbound : Relayer → BridgeMessage → Relayer := enqueue .outbound

def queueInbound : Relayer → BridgeMessage → Relayer := enqueue .inbound

variable (platform : Platform)

/-- A message without a proof gets the one of a tree with its payload only. -/
def withProof (message : BridgeMessage) : BridgeMessage :=
  match message.proof with
  | some _ => message
  | none =>
    { message with
      proof := (buildMerkleTree platform.sha256 [platform.payloadJson message.payload]).2.head? }

def attempt (job : RelayJob) (engine : BridgeEngine) (currentHeight : UInt64) :
    RelayJob × BridgeEngine × Except RelayerError Hash32 :=
  let job := { job with attempts := job.attempts + 1 }
  match job.direction with
  | .inbound =>
    let job := { job with message := withProof platform job.message }
    match engine.processInbound platform job.message currentHeight with
    | (engine, .ok ()) => (job, engine, .ok job.message.id)
    | (engine, .error reason) => (job, engine, .error (.bridge reason.display))
  | .outbound => (job, engine, .ok job.message.id)

def processNext (relayer : Relayer) (engine : BridgeEngine) (currentHeight : UInt64) :
    Relayer × BridgeEngine × Except RelayerError Hash32 :=
  match relayer.queue with
  | [] => (relayer, engine, .error .emptyQueue)
  | job :: rest =>
    match attempt platform job engine currentHeight with
    | (_, engine, .ok id) =>
      ({ relayer with
          queue := rest
          completed := pushHistory relayer.completed id
          status := .idle }, engine, .ok id)
    | (job, engine, .error reason) =>
      if job.maxAttempts ≤ job.attempts then
        ({ relayer with
            queue := rest
            failed := pushHistory relayer.failed (job.message.id, reason.display)
            status := .error }, engine, .error (.maxRetries job.message.id))
      else ({ relayer with queue := rest ++ [job], status := .idle }, engine, .error reason)

/-- The loop of `process_all` over at most the given number of jobs. -/
def processWithin : Nat → Relayer → BridgeEngine → UInt64 → Relayer × BridgeEngine × (Nat × Nat)
  | 0, relayer, engine, _ => (relayer, engine, (0, 0))
  | fuel + 1, relayer, engine, currentHeight =>
    match relayer.processNext platform engine currentHeight with
    | (relayer, engine, .error .emptyQueue) => (relayer, engine, (0, 0))
    | (relayer, engine, .error _) =>
      let (relayer, engine, success, failures) := processWithin fuel relayer engine currentHeight
      (relayer, engine, (success, failures + 1))
    | (relayer, engine, .ok _) =>
      let (relayer, engine, success, failures) := processWithin fuel relayer engine currentHeight
      (relayer, engine, (success + 1, failures))

def triesLeft (job : RelayJob) : Nat := max 1 (job.maxAttempts.toNat - job.attempts.toNat)

def allTriesLeft (relayer : Relayer) : Nat := (relayer.queue.map triesLeft).sum

def processAll (relayer : Relayer) (engine : BridgeEngine) (currentHeight : UInt64) :
    Relayer × BridgeEngine × (Nat × Nat) :=
  relayer.processWithin platform (relayer.allTriesLeft + 1) engine currentHeight

end Relayer

end CeruleanLedger.Bridge
