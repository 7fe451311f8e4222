import CeruleanLedger.GatewaySubmit
import CeruleanLedger.Mining

/-!
`MiningService::mine_block` of `mining.rs` and `Gateway::submit` on one store. Every store
access of a call is one step, and the steps of different calls interleave freely. The gateway
never names a parent, and a miner signs a text where `verify_block_signature` checks a digest.
The configured hash and the `Debug` of a text are parameters.
-/

namespace CeruleanLedger.VerifiableChain

open ByteCodec EndorsementCheck BlockStore OrderingLayer GatewaySubmit Mining

section Texts

structure Platform where
  hash : Bytes → Hash32
  debugText : String → String

def debugList (printed : List String) : String := "[" ++ ", ".intercalate printed ++ "]"

def debugHash (digest : Hash32) : String := debugList (digest.toList.map toString)

variable (platform : Platform)

def debugTexts (texts : List String) : String := debugList (texts.map platform.debugText)

def blockHash (block : Block) : Hash32 :=
  platform.hash (utf8 (toString block.height ++ ":" ++ toString block.timestamp ++ ":" ++
    debugHash block.parentHash ++ ":" ++ debugTexts platform block.transactions))

def blockData (height : UInt64) (parentHash merkleRoot : Hash32) (txIds : List String) : String :=
  toString height ++ ":" ++ debugHash parentHash ++ ":" ++ debugHash merkleRoot ++ ":" ++
    debugTexts platform txIds

theorem separators_le (first : String) (printed : List String) :
    2 * printed.length ≤ (", ".intercalate (first :: printed)).utf8ByteSize := by
  induction printed generalizing first with
  | nil => simp
  | cons second rest ih =>
    have later := ih second
    have separator : (", " : String).utf8ByteSize = 2 := rfl
    rw [String.intercalate_cons_cons, String.utf8ByteSize_append, String.utf8ByteSize_append,
      separator, List.length_cons]
    omega

theorem debug_hash_size (digest : Hash32) : 62 ≤ (debugHash digest).utf8ByteSize := by
  obtain ⟨first, rest, printed⟩ : ∃ first rest, digest.toList.map toString = first :: rest :=
    List.exists_cons_of_length_pos (by simp)
  have counted : rest.length + 1 = 32 := by
    rw [← List.length_cons, ← printed, List.length_map, Vector.length_toList]
  have separators := separators_le first rest
  rw [debugHash, debugList, printed, String.utf8ByteSize_append, String.utf8ByteSize_append]
  omega

theorem block_data_ne_digest (height : UInt64) (parentHash merkleRoot digest : Hash32)
    (txIds : List String) :
    digest.toList ≠ utf8 (blockData platform height parentHash merkleRoot txIds) := by
  intro same
  have lengths := congrArg List.length same
  have size := debug_hash_size parentHash
  simp only [Vector.length_toList, utf8_length, blockData, String.utf8ByteSize_append] at lengths
  omega

end Texts

section Mining

structure MineCall where
  config : MiningConfig
  signer : Option SigningProvider
  minerAddress : String
  transactions : List Transaction

inductive MineStage where
  | start
  | numbered (latestHeight : UInt64)
  | placed (newHeight : UInt64)
  | linked (newHeight : UInt64) (coinbase : Transaction) (parentHash : Hash32)
  | built (coinbase : Transaction) (block : Block)
  | paying (newHeight : UInt64) (coinbase : Transaction)
  | recording (newHeight : UInt64) (rest : List Transaction)
  | finished (result : Except String UInt64)
  /-- A halving interval of zero. -/
  | panicked
  deriving DecidableEq

/-- `block_exists(height).unwrap_or(false)`. -/
def blockExistsOr (fault : Option String) : Store → UInt64 → Bool
  | .memory store, height => store.blockExists height
  | .rocksDb store, height => fault.isNone && store.blockExists height

def readBlock (fault : Option String) : Store → UInt64 → Except StorageError Block
  | .memory store, height => store.readBlock height
  | .rocksDb store, height =>
    match fault with
    | some reason => .error (.rocksDbError reason)
    | none => store.readBlock height

def writeTransaction (fault : Option String) (tx : Transaction) :
    Store → Except StorageError Store
  | .memory store => .ok ((Store.memory store).writeTransaction tx)
  | .rocksDb store =>
    match fault with
    | some reason => .error (.rocksDbError reason)
    | none => .ok ((Store.rocksDb store).writeTransaction tx)

def coinbaseTx (now newHeight reward : UInt64) (minerAddress : String) : Transaction :=
  { id := "coinbase-" ++ toString newHeight, blockHeight := newHeight, timestamp := now
    inputDid := "coinbase", outputRecipient := minerAddress, amount := reward
    state := "confirmed" }

variable (platform : Platform)

def parentHashOf (fault : Option String) (store : Store) (newHeight : UInt64) :
    Except StorageError Hash32 :=
  if newHeight > 0 then (readBlock fault store (newHeight - 1)).map (blockHash platform)
  else .ok zeroHash

/-- `unwrap_or_default` on the signature, and the default algorithm without a signer. -/
def minerSignature (signer : Option SigningProvider) (data : Bytes) : Bytes × SigningAlgorithm :=
  match signer with
  | some signer => ((signer.sign data).getD [], signer.algorithm)
  | none => ([], .ed25519)

def minedBlock (call : MineCall) (now newHeight : UInt64) (coinbase : Transaction)
    (parentHash : Hash32) : Block :=
  let allTxIds := coinbase.id :: call.transactions.map Transaction.id
  let merkleRoot := platform.hash (utf8 (",".intercalate allTxIds))
  let signed := minerSignature call.signer
    (utf8 (blockData platform newHeight parentHash merkleRoot allTxIds))
  { height := newHeight, timestamp := now, parentHash, merkleRoot, transactions := allTxIds
    proposer := call.minerAddress, signature := signed.1, signatureAlgorithm := signed.2
    endorsements := [], secondarySignature := none, secondarySignatureAlgorithm := none
    hashAlgorithm := .sha256, ordererSignature := none }

def mine (call : MineCall) (moment : Moment) (store : Store) : MineStage → MineStage × Store
  | .start => (.numbered (latestHeightOr moment.fault store), store)
  | .numbered latestHeight =>
    (.placed (if blockExistsOr moment.fault store 0 then latestHeight + 1 else 0), store)
  | .placed newHeight =>
    match calculateReward call.config newHeight with
    | none => (.panicked, store)
    | some reward =>
      match parentHashOf platform moment.fault store newHeight with
      | .error reason =>
        (.finished (.error ("failed to read parent block: " ++ reason.display)), store)
      | .ok parentHash =>
        (.linked newHeight (coinbaseTx moment.now newHeight reward call.minerAddress)
          parentHash, store)
  | .linked newHeight coinbase parentHash =>
    (.built coinbase (minedBlock platform call moment.now newHeight coinbase parentHash), store)
  | .built coinbase block =>
    match store.writeBlock moment.fault block with
    | .error reason => (.finished (.error ("failed to write block: " ++ reason.display)), store)
    | .ok store => (.paying block.height coinbase, store)
  | .paying newHeight coinbase =>
    match writeTransaction moment.fault coinbase store with
    | .error reason =>
      (.finished (.error ("failed to write coinbase tx: " ++ reason.display)), store)
    | .ok store => (.recording newHeight call.transactions, store)
  | .recording newHeight (tx :: rest) =>
    match writeTransaction moment.fault
        { tx with blockHeight := newHeight, state := "confirmed" } store with
    | .error reason => (.finished (.error ("failed to write tx: " ++ reason.display)), store)
    | .ok store => (.recording newHeight rest, store)
  | .recording newHeight [] => (.finished (.ok newHeight), store)
  | .finished result => (.finished result, store)
  | .panicked => (.panicked, store)

end Mining

section System

/-- A provider together with its `verify`. Neither software provider ever fails to
sign, and no signature is empty. -/
structure Signer extends SigningProvider where
  verify : Bytes → Bytes → Except String Bool
  signs : ∀ data, ∃ signature, sign data = some signature ∧ signature ≠ []

/-- The signature of the one message verifies for the other only if they are equal. -/
def Signer.Binds (signer : Signer) (signed checked : Bytes) : Prop :=
  ∀ signature, signer.sign signed = some signature →
    (signer.verify checked signature = .ok true ↔ checked = signed)

inductive Producer (Miner : Type) where
  | orderer
  | miner (index : Miner)
  deriving DecidableEq

/-- The calls that are made on the store, and the keys of those who make blocks. -/
structure Setup (Client Miner : Type) where
  platform : Platform
  node : Node
  requests : Client → Request
  calls : Miner → MineCall
  signers : Producer Miner → Signer
  minersSign : ∀ miner, (calls miner).signer = some (signers (.miner miner)).toSigningProvider

/-- No block is stored yet, and the ordering service signs with the key of the orderer. -/
structure Opens {Client Miner : Type} (setup : Setup Client Miner) (shared : Shared) : Prop where
  empty : shared.store.blocks = ∅
  ordererSigns :
    shared.ordering.signingProvider = some (setup.signers .orderer).toSigningProvider

/-- `producers` says who wrote the block at a height; no step reads it. -/
structure System (Client Miner : Type) where
  submits : Client → Stage
  mines : Miner → MineStage
  shared : Shared
  producers : UInt64 → Option (Producer Miner)

variable {Client Miner : Type} [DecidableEq Client] [DecidableEq Miner]

def System.opening (shared : Shared) : System Client Miner :=
  ⟨fun _ => .start, fun _ => .start, shared, fun _ => none⟩

def ordered : Stage → Option Block
  | .cut _ block => some block
  | _ => none

def mined : MineStage → Option Block
  | .built _ block => some block
  | _ => none

def noteProducer (fault : Option String) (store : Store) (producer : Producer Miner)
    (producers : UInt64 → Option (Producer Miner)) :
    Option Block → UInt64 → Option (Producer Miner)
  | none => producers
  | some block =>
    match store.writeBlock fault block with
    | .error _ => producers
    | .ok _ => Function.update producers block.height (some producer)

def stepLedger (setup : Setup Client Miner) (system : System Client Miner) :
    (Client ⊕ Miner) × Moment → System Client Miner
  | (.inl client, moment) =>
    let stage := system.submits client
    let moved := advance setup.node (setup.requests client) moment system.shared stage
    { system with
      submits := Function.update system.submits client moved.1
      shared := moved.2
      producers := noteProducer moment.fault system.shared.store .orderer system.producers
        (ordered stage) }
  | (.inr miner, moment) =>
    let stage := system.mines miner
    let moved := mine setup.platform (setup.calls miner) moment system.shared.store stage
    { system with
      mines := Function.update system.mines miner moved.1
      shared := { system.shared with store := moved.2 }
      producers := noteProducer moment.fault system.shared.store (.miner miner)
        system.producers (mined stage) }

def runLedger (setup : Setup Client Miner) (shared : Shared)
    (inputs : List ((Client ⊕ Miner) × Moment)) : System Client Miner :=
  inputs.foldl (stepLedger setup) (.opening shared)

def verified (setup : Setup Client Miner) (producer : Producer Miner) (block : Block) :
    Except String Bool :=
  verifyBlockSignature setup.node.crypto block (setup.signers producer).toSigningProvider
    (setup.signers producer).verify

structure OneVerifiableChain (setup : Setup Client Miner) (system : System Client Miner) :
    Prop where
  linked : ∀ (height : UInt64) (block parent : Block), 1 ≤ height →
    system.shared.store.blocks[height]? = some block →
    system.shared.store.blocks[height - 1]? = some parent →
    block.parentHash = blockHash setup.platform parent
  signed : ∀ (height : UInt64) (block : Block) (producer : Producer Miner),
    system.shared.store.blocks[height]? = some block →
    system.producers height = some producer → verified setup producer block = .ok true

end System

section Made

variable {Client Miner : Type} (setup : Setup Client Miner)

def signedMessage (block : Block) : Producer Miner → Bytes
  | .orderer => (blockHashForSigning setup.node.crypto block).toList
  | .miner _ => utf8 (blockData setup.platform block.height block.parentHash block.merkleRoot
      block.transactions)

structure Made (producer : Producer Miner) (block : Block) : Prop where
  algorithm : block.signatureAlgorithm = (setup.signers producer).algorithm
  signature : (setup.signers producer).sign (signedMessage setup block producer) =
    some block.signature
  unlinked : producer = .orderer → block.parentHash = zeroHash

variable {setup}

theorem cut_block_made {service after : OrderingService} {now height : UInt64}
    {proposer : String} {block : Block}
    (signs : service.signingProvider = some (setup.signers .orderer).toSigningProvider)
    (cut : service.cutBlock setup.node.crypto now height proposer = (after, some block)) :
    Made setup .orderer block := by
  unfold OrderingService.cutBlock at cut
  split at cut
  · cases cut
  · simp only [signs, signOrdered, signBlockWithProvider] at cut
    split at cut
    · next failed =>
      obtain ⟨signature, made, -⟩ := (setup.signers .orderer).signs
        (blockHashForSigning setup.node.crypto (orderedBlock now height proposer
          ((service.pendingTxs.take (min service.pendingTxs.length
            service.maxBatchSize)).map Transaction.id))).toList
      rw [failed] at made
      cases made
    · next signature made =>
      cases cut
      exact ⟨rfl, made, fun _ => rfl⟩

theorem mined_block_made (miner : Miner) (now newHeight : UInt64) (coinbase : Transaction)
    (parentHash : Hash32) :
    Made setup (.miner miner)
      (minedBlock setup.platform (setup.calls miner) now newHeight coinbase parentHash) := by
  have configured : ∀ data, minerSignature (setup.calls miner).signer data =
      (((setup.signers (.miner miner)).sign data).getD [],
        (setup.signers (.miner miner)).algorithm) := by
    intro data
    rw [setup.minersSign miner, minerSignature]
  refine ⟨?_, ?_, by intro same; cases same⟩
  · simp only [minedBlock, configured]
  · simp only [minedBlock, configured, signedMessage]
    obtain ⟨signature, made, -⟩ := (setup.signers (.miner miner)).signs _
    rw [made, Option.getD_some]

/-- A block that was made verifies exactly when the digest is what was signed. -/
theorem Made.verified_iff {producer : Producer Miner} {block : Block}
    (made : Made setup producer block)
    (binds : (setup.signers producer).Binds (signedMessage setup block producer)
      (blockHashForSigning setup.node.crypto block).toList) :
    verified setup producer block = .ok true ↔ producer = .orderer := by
  have present : block.signature.isEmpty = false := by
    obtain ⟨signature, same, nonempty⟩ := (setup.signers producer).signs
      (signedMessage setup block producer)
    rw [made.signature, Option.some.injEq] at same
    rw [same]
    simpa using nonempty
  have checked : verified setup producer block = .ok true ↔
      (setup.signers producer).verify (blockHashForSigning setup.node.crypto block).toList
        block.signature = .ok true := by
    rw [verified, verifyBlockSignature]
    simp only [made.algorithm, ne_eq, not_true_eq_false, ↓reduceIte, present, Bool.false_eq_true]
    split
    · next answer => rw [answer]
    · next answer => simp [answer]
  rw [checked, binds _ made.signature]
  cases producer with
  | orderer => simp [signedMessage]
  | miner index =>
    have longer := block_data_ne_digest setup.platform block.height block.parentHash
      block.merkleRoot (blockHashForSigning setup.node.crypto block) block.transactions
    simpa [signedMessage] using longer

end Made

section Steps

def blocksAfter (fault : Option String) (store : Store) :
    Option Block → Std.ExtTreeMap UInt64 Block
  | none => store.blocks
  | some block =>
    match store.writeBlock fault block with
    | .error _ => store.blocks
    | .ok after => after.blocks

theorem write_transaction_blocks {fault : Option String} {tx : Transaction}
    {store after : Store} (written : writeTransaction fault tx store = .ok after) :
    after.blocks = store.blocks := by
  cases store with
  | memory inner =>
    cases written
    rfl
  | rocksDb inner =>
    cases fault with
    | some reason => cases written
    | none =>
      cases written
      rfl

theorem cut_block_provider (crypto : Crypto) (service : OrderingService) (now height : UInt64)
    (proposer : String) :
    (service.cutBlock crypto now height proposer).1.signingProvider =
      service.signingProvider := by
  unfold OrderingService.cutBlock
  split
  · rfl
  · rfl

theorem advance_ledger (node : Node) (request : Request) (moment : Moment) (shared : Shared)
    (stage : Stage) :
    (advance node request moment shared stage).2.store.blocks =
        blocksAfter moment.fault shared.store (ordered stage) ∧
      (advance node request moment shared stage).2.ordering.signingProvider =
        shared.ordering.signingProvider := by
  have transition := advance_transition node request moment shared stage
  generalize advance node request moment shared stage = moved at transition ⊢
  cases transition with
  | nothingCut rwset height ordering cut =>
    have kept := cut_block_provider node.crypto shared.ordering moment.now height "gateway"
    rw [cut] at kept
    exact ⟨rfl, kept⟩
  | blockCut rwset height ordering block cut =>
    have kept := cut_block_provider node.crypto shared.ordering moment.now height "gateway"
    rw [cut] at kept
    exact ⟨rfl, kept⟩
  | writeFailed rwset block reason failed => simp [blocksAfter, ordered, failed]
  | blockWritten rwset block store written => simp [blocksAfter, ordered, written]
  | indexed rwset block id rest => exact ⟨index_transaction_blocks .., rfl⟩
  | _ => exact ⟨rfl, rfl⟩

variable {platform : Platform} {call : MineCall} {moment : Moment} {store : Store}

theorem mine_ledger (stage : MineStage) :
    (mine platform call moment store stage).2.blocks =
      blocksAfter moment.fault store (mined stage) := by
  cases stage with
  | placed newHeight =>
    simp only [mine]
    split
    · rfl
    · split
      · rfl
      · rfl
  | built coinbase block =>
    simp only [mine, mined, blocksAfter]
    split
    · rfl
    · rfl
  | paying newHeight coinbase =>
    simp only [mine]
    split
    · rfl
    · exact write_transaction_blocks ‹_›
  | recording newHeight rest =>
    cases rest with
    | nil => rfl
    | cons tx rest =>
      simp only [mine]
      split
      · rfl
      · exact write_transaction_blocks ‹_›
  | _ => rfl

theorem mine_mined {stage : MineStage} {block : Block}
    (ready : mined (mine platform call moment store stage).1 = some block) :
    ∃ newHeight coinbase parentHash,
      block = minedBlock platform call moment.now newHeight coinbase parentHash := by
  cases stage with
  | linked newHeight coinbase parentHash =>
    cases ready
    exact ⟨newHeight, coinbase, parentHash, rfl⟩
  | placed newHeight =>
    simp only [mine] at ready
    split at ready
    · cases ready
    · split at ready
      · cases ready
      · cases ready
  | built coinbase block =>
    simp only [mine] at ready
    split at ready
    · cases ready
    · cases ready
  | paying newHeight coinbase =>
    simp only [mine] at ready
    split at ready
    · cases ready
    · cases ready
  | recording newHeight rest =>
    cases rest with
    | nil => cases ready
    | cons tx rest =>
      simp only [mine] at ready
      split at ready
      · cases ready
      · cases ready
  | _ => cases ready

end Steps

section Runs

variable {Client Miner : Type} {setup : Setup Client Miner}

/-- Every stored block has a noted producer, who made it. -/
def Accounted (setup : Setup Client Miner) (blocks : Std.ExtTreeMap UInt64 Block)
    (producers : UInt64 → Option (Producer Miner)) : Prop :=
  ∀ (height : UInt64) (block : Block), blocks[height]? = some block →
    ∃ producer, producers height = some producer ∧ Made setup producer block

theorem Accounted.note {fault : Option String} {store : Store} {producer : Producer Miner}
    {producers : UInt64 → Option (Producer Miner)} {ready : Option Block}
    (accounted : Accounted setup store.blocks producers)
    (made : ∀ block, ready = some block → Made setup producer block) :
    Accounted setup (blocksAfter fault store ready)
      (noteProducer fault store producer producers ready) := by
  cases ready with
  | none => exact accounted
  | some block =>
    simp only [blocksAfter, noteProducer]
    cases written : store.writeBlock fault block with
    | error reason => exact accounted
    | ok after =>
      simp only [(Store.write_block_ok written).1]
      intro height other found
      by_cases same : block.height = height
      · subst same
        rw [Std.ExtTreeMap.getElem?_insert_self, Option.some.injEq] at found
        subst found
        exact ⟨producer, Function.update_self .., made block rfl⟩
      · rw [Std.ExtTreeMap.getElem?_insert, if_neg (by simpa using same)] at found
        rw [Function.update_of_ne (Ne.symm same)]
        exact accounted height other found

variable [DecidableEq Client] [DecidableEq Miner]

structure Sound (setup : Setup Client Miner) (system : System Client Miner) : Prop where
  stored : Accounted setup system.shared.store.blocks system.producers
  cut : ∀ client block, ordered (system.submits client) = some block →
    Made setup .orderer block
  built : ∀ miner block, mined (system.mines miner) = some block →
    Made setup (.miner miner) block
  provider : system.shared.ordering.signingProvider =
    some (setup.signers .orderer).toSigningProvider

theorem Sound.step {system : System Client Miner} (sound : Sound setup system)
    (input : (Client ⊕ Miner) × Moment) : Sound setup (stepLedger setup system input) := by
  obtain ⟨turn, moment⟩ := input
  cases turn with
  | inl client =>
    obtain ⟨blocks, provider⟩ := advance_ledger setup.node (setup.requests client) moment
      system.shared (system.submits client)
    refine ⟨?_, ?_, sound.built, provider.trans sound.provider⟩
    · simp only [stepLedger, blocks]
      exact sound.stored.note (sound.cut client)
    · intro other block ready
      simp only [stepLedger] at ready
      by_cases same : other = client
      · subst same
        rw [Function.update_self] at ready
        have transition := advance_transition setup.node (setup.requests other) moment
          system.shared (system.submits other)
        generalize advance setup.node _ moment system.shared _ = moved at transition ready
        generalize system.submits other = stage at transition
        cases transition with
        | blockCut rwset height ordering cutBlock cut =>
          cases ready
          exact cut_block_made sound.provider cut
        | _ => cases ready
      · rw [Function.update_of_ne same] at ready
        exact sound.cut other block ready
  | inr miner =>
    refine ⟨?_, sound.cut, ?_, sound.provider⟩
    · simp only [stepLedger, mine_ledger]
      exact sound.stored.note (sound.built miner)
    · intro other block ready
      simp only [stepLedger] at ready
      by_cases same : other = miner
      · subst same
        rw [Function.update_self] at ready
        obtain ⟨newHeight, coinbase, parentHash, built⟩ := mine_mined ready
        rw [built]
        exact mined_block_made other ..
      · rw [Function.update_of_ne same] at ready
        exact sound.built other block ready

theorem run_ledger_sound {shared : Shared} (opens : Opens setup shared)
    (inputs : List ((Client ⊕ Miner) × Moment)) : Sound setup (runLedger setup shared inputs) := by
  have opened : Sound setup (.opening shared : System Client Miner) := by
    refine ⟨?_, ?_, ?_, opens.ordererSigns⟩
    · intro height block found
      simp [System.opening, opens.empty] at found
    · intro client block ready
      cases ready
    · intro miner block ready
      cases ready
  exact List.foldlRecOn inputs _ opened fun system sound input _ => sound.step input

theorem mem_blocks_iff {blocks : Std.ExtTreeMap UInt64 Block} {height : UInt64} :
    height ∈ blocks ↔ ∃ block, blocks[height]? = some block := by
  rw [← Std.ExtTreeMap.isSome_getElem?_iff_mem, Option.isSome_iff_exists]

/-- On the stored blocks the primitives behave as they should: a signature
verifies only for what was signed, and no block has the zero hash. -/
structure Secure (setup : Setup Client Miner) (system : System Client Miner) : Prop where
  binds : ∀ (height : UInt64) (block : Block) (producer : Producer Miner),
    system.shared.store.blocks[height]? = some block → system.producers height = some producer →
    (setup.signers producer).Binds (signedMessage setup block producer)
      (blockHashForSigning setup.node.crypto block).toList
  nonzero : ∀ (height : UInt64) (block : Block),
    system.shared.store.blocks[height]? = some block → blockHash setup.platform block ≠ zeroHash

/-- The stored ledger is one verifiable chain exactly when every stored block
comes from the orderer and none has a predecessor in the store. -/
theorem one_verifiable_chain_iff (setup : Setup Client Miner) (shared : Shared)
    (opens : Opens setup shared) (inputs : List ((Client ⊕ Miner) × Moment))
    (secure : Secure setup (runLedger setup shared inputs)) :
    OneVerifiableChain setup (runLedger setup shared inputs) ↔
      ∀ height ∈ (runLedger setup shared inputs).shared.store.blocks,
        (runLedger setup shared inputs).producers height = some .orderer ∧
          (1 ≤ height → height - 1 ∉ (runLedger setup shared inputs).shared.store.blocks) := by
  have sound := run_ledger_sound opens inputs
  generalize runLedger setup shared inputs = system at sound secure ⊢
  constructor
  · intro chain height present
    obtain ⟨block, found⟩ := mem_blocks_iff.mp present
    obtain ⟨producer, noted, made⟩ := sound.stored height block found
    have fromOrderer : producer = .orderer :=
      (made.verified_iff (secure.binds height block producer found noted)).mp
        (chain.signed height block producer found noted)
    refine ⟨by rw [noted, fromOrderer], ?_⟩
    intro above predecessor
    obtain ⟨parent, parentFound⟩ := mem_blocks_iff.mp predecessor
    apply secure.nonzero _ parent parentFound
    rw [← chain.linked height block parent above found parentFound]
    exact made.unlinked fromOrderer
  · intro alone
    constructor
    · intro height block parent above found parentFound
      have present := mem_blocks_iff.mpr ⟨block, found⟩
      exact absurd (mem_blocks_iff.mpr ⟨parent, parentFound⟩) ((alone height present).2 above)
    · intro height block producer found noted
      have fromOrderer := (alone height (mem_blocks_iff.mpr ⟨block, found⟩)).1
      obtain ⟨maker, makerNoted, made⟩ := sound.stored height block found
      obtain rfl : maker = producer := Option.some.inj (makerNoted.symm.trans noted)
      apply (made.verified_iff (secure.binds height block maker found noted)).mpr
      exact Option.some.inj (noted.symm.trans fromOrderer)

end Runs

/-- A digest that is never zero, and a scheme whose signatures show the message. -/
def tagged (data : Bytes) : Hash32 := Vector.ofFn fun place => (1 :: data).getD place 0

theorem tagged_ne_zero (data : Bytes) : tagged data ≠ zeroHash := by
  intro same
  have first : (1 : UInt8) = 0 := by
    simpa only [tagged, zeroHash, Vector.getElem_ofFn, Vector.getElem_replicate,
      List.getD_cons_zero] using congrArg (fun digest : Hash32 => digest[0]) same
  exact absurd first (by decide)

def showingSigner : Signer where
  algorithm := .ed25519
  sign data := some (1 :: data)
  verify data signature := .ok (signature == 1 :: data)
  signs data := ⟨1 :: data, rfl, List.cons_ne_nil 1 data⟩

theorem showing_signer_binds (signed checked : Bytes) : showingSigner.Binds signed checked := by
  rintro signature ⟨⟩
  simpa [showingSigner] using eq_comm

def smallSetup : Setup Bool Unit where
  platform := ⟨tagged, id⟩
  node := ⟨paddingCrypto, fun _ _ => 0, none⟩
  requests second := plainRequest (if second then "tx2" else "tx1")
  calls _ := ⟨.default, some showingSigner.toSigningProvider, "miner1", []⟩
  signers _ := showingSigner
  minersSign _ := rfl

def smallShared : Shared :=
  ⟨none, ⟨[], 100, none, some showingSigner.toSigningProvider⟩, .memory .new⟩

theorem small_opens : Opens smallSetup smallShared := ⟨rfl, rfl⟩

def inTurn (calls : List (Bool ⊕ Unit)) : System Bool Unit :=
  runLedger smallSetup smallShared (calls.flatMap fun call =>
    List.replicate 7 (call, ⟨0, none, .asStored⟩))

theorem in_turn_sound (calls : List (Bool ⊕ Unit)) : Sound smallSetup (inTurn calls) :=
  run_ledger_sound small_opens _

theorem small_secure (system : System Bool Unit) : Secure smallSetup system :=
  ⟨fun _ _ _ _ _ => showing_signer_binds _ _, fun _ _ _ => tagged_ne_zero _⟩

theorem first_submit_verifiable :
    (inTurn [.inl false]).submits false = .finished (.ok ⟨"tx1", 1, true⟩) ∧
      OneVerifiableChain smallSetup (inTurn [.inl false]) := by
  refine ⟨rfl, (one_verifiable_chain_iff smallSetup smallShared small_opens _
    (small_secure _)).mpr ?_⟩
  intro height present
  obtain ⟨block, blocks⟩ : ∃ block, (inTurn [.inl false]).shared.store.blocks =
      (∅ : Std.ExtTreeMap UInt64 Block).insert 1 block := ⟨_, rfl⟩
  rw [inTurn] at blocks
  rw [blocks, Std.ExtTreeMap.mem_insert] at present
  obtain rfl : 1 = height := by simpa using present
  exact ⟨rfl, fun _ => by decide +kernel⟩

/-- The second block of the gateway names no parent, and what is mined fails the
check under the miner's own key. -/
theorem chain_not_verifiable :
    (inTurn [.inl false, .inl true]).submits true = .finished (.ok ⟨"tx2", 2, true⟩) ∧
      ¬ OneVerifiableChain smallSetup (inTurn [.inl false, .inl true]) ∧
      (inTurn [.inr ()]).mines () = .finished (.ok 0) ∧
      ¬ OneVerifiableChain smallSetup (inTurn [.inr ()]) := by
  refine ⟨rfl, ?_, rfl, ?_⟩
  · intro chain
    have linked := chain.linked 2 _ _ (by decide) rfl rfl
    exact tagged_ne_zero _ linked.symm
  · intro chain
    have accepted := chain.signed 0 _ (.miner ()) rfl rfl
    obtain ⟨producer, noted, made⟩ := (in_turn_sound [.inr ()]).stored 0 _ rfl
    cases noted
    cases (made.verified_iff (showing_signer_binds _ _)).mp accepted

end CeruleanLedger.VerifiableChain
