import CeruleanLedger.BlockStore

/-!
The ordering layer: `ordering/mod.rs` (what an orderer signs and how the
signature is checked), the solo queue of `ordering/service.rs` and the Raft
queue of `ordering/raft_service.rs`. SHA-256 and Ed25519 are parameters; a key
is its 32 bytes. Metrics are left out, and a Raft node is the list of committed
entries it has not handed out yet.
-/

namespace CeruleanLedger.OrderingLayer

open ByteCodec EndorsementCheck BlockStore

structure Crypto extends Ed25519 where
  sha256 : Bytes → Hash32
  sign : Hash32 → Bytes → Vector UInt8 64
  verifyingKey : Hash32 → Hash32

structure SigningProvider where
  algorithm : SigningAlgorithm
  sign : Bytes → Option Bytes

def softwareProvider (crypto : Crypto) (key : Hash32) : SigningProvider :=
  ⟨.ed25519, fun data => some (crypto.sign key data).toList⟩

section Signing

variable (crypto : Crypto)

def signingPreimage (block : Block) : Bytes :=
  toLeBytes block.height ++ block.parentHash.toList ++ block.merkleRoot.toList

def blockHashForSigning (block : Block) : Hash32 := crypto.sha256 (signingPreimage block)

def signBlock (key : Hash32) (block : Block) : Block :=
  { block with
    ordererSignature := some (crypto.sign key (blockHashForSigning crypto block).toList).toList }

def signBlockWithProvider (provider : SigningProvider) (block : Block) : Block :=
  match provider.sign (blockHashForSigning crypto block).toList with
  | none => block
  | some signature =>
    { block with
      signature
      signatureAlgorithm := provider.algorithm
      ordererSignature := some signature }

/-- The text of the library's own error is not modelled. -/
def verifyOrdererSignature (block : Block) (ordererKey : Hash32) : Except String Bool :=
  match block.ordererSignature with
  | none => .ok false
  | some signature =>
    if signature.length ≠ 64 then .error "invalid signature length: expected 64 bytes"
    else if crypto.verify ordererKey (blockHashForSigning crypto block).toList signature then
      .ok true
    else .error "invalid orderer signature: "

def debugName : SigningAlgorithm → String
  | .ed25519 => "Ed25519"
  | .mlDsa65 => "MlDsa65"

/-- `verify_block_signature`, with the `verify` of the provider apart. It looks at
the signature of the proposer. -/
def verifyBlockSignature (block : Block) (provider : SigningProvider)
    (verify : Bytes → Bytes → Except String Bool) : Except String Bool :=
  if block.signatureAlgorithm ≠ provider.algorithm then
    .error ("algorithm mismatch: block uses " ++ debugName block.signatureAlgorithm ++
      ", provider uses " ++ debugName provider.algorithm)
  else if block.signature.isEmpty then .ok false
  else
    match verify (blockHashForSigning crypto block).toList block.signature with
    | .ok verified => .ok verified
    | .error reason => .error ("block signature verification failed: " ++ reason)

def orderedBlock (now height : UInt64) (proposer : String) (txIds : List String) : Block :=
  { height, timestamp := now, parentHash := zeroHash, merkleRoot := zeroHash
    transactions := txIds, proposer, signature := List.replicate 64 0
    signatureAlgorithm := .ed25519, endorsements := [], secondarySignature := none
    secondarySignatureAlgorithm := none, hashAlgorithm := .sha256, ordererSignature := none }

/-- A provider takes precedence over a bare key. -/
def signOrdered (provider : Option SigningProvider) (key : Option Hash32) (block : Block) :
    Block :=
  match provider, key with
  | some provider, _ => signBlockWithProvider crypto provider block
  | none, some key => signBlock crypto key block
  | none, none => block

end Signing

structure OrderingService where
  pendingTxs : List Transaction
  maxBatchSize : Nat
  signingKey : Option Hash32
  signingProvider : Option SigningProvider

namespace OrderingService

variable (crypto : Crypto)

def submitTx (service : OrderingService) (tx : Transaction) : OrderingService :=
  { service with pendingTxs := service.pendingTxs ++ [tx] }

def batch (service : OrderingService) : List Transaction :=
  service.pendingTxs.take service.maxBatchSize

def cutBlock (service : OrderingService) (now height : UInt64) (proposer : String) :
    OrderingService × Option Block :=
  if service.pendingTxs.isEmpty then (service, none)
  else
    let count := min service.pendingTxs.length service.maxBatchSize
    let txIds := (service.pendingTxs.take count).map Transaction.id
    ({ service with pendingTxs := service.pendingTxs.drop count },
      some (signOrdered crypto service.signingProvider service.signingKey
        (orderedBlock now height proposer txIds)))

theorem sign_ordered_transactions (provider : Option SigningProvider) (key : Option Hash32)
    (block : Block) :
    (signOrdered crypto provider key block).transactions = block.transactions := by
  unfold signOrdered signBlockWithProvider signBlock
  split
  · split
    · rfl
    · rfl
  · rfl
  · rfl

theorem cut_block_some {service after : OrderingService} {now height : UInt64}
    {proposer : String} {block : Block}
    (cut : service.cutBlock crypto now height proposer = (after, some block)) :
    block.transactions = service.batch.map Transaction.id ∧
      after.pendingTxs = service.pendingTxs.drop service.maxBatchSize ∧
      after.maxBatchSize = service.maxBatchSize := by
  unfold cutBlock at cut
  split at cut
  · cases cut
  · cases cut
    rw [sign_ordered_transactions]
    refine ⟨?_, ?_, rfl⟩
    · apply congrArg (List.map Transaction.id)
      rw [batch, List.take_eq_take_iff]
      omega
    · rw [List.drop_eq_drop_iff]
      omega

theorem cut_block_none {service after : OrderingService} {now height : UInt64}
    {proposer : String} (cut : service.cutBlock crypto now height proposer = (after, none)) :
    service.pendingTxs = [] := by
  unfold cutBlock at cut
  split at cut
  · exact List.isEmpty_iff.mp ‹_›
  · cases cut

end OrderingService

structure RaftOrderingService where
  /-- Data of the committed entries not consumed yet. -/
  committedEntries : List Bytes
  maxBatchSize : Nat
  signingKey : Option Hash32
  signingProvider : Option SigningProvider

/-- The draining loop: entries without a transaction are dropped. `decode` is
the JSON reader. -/
def drainEntries (decode : Bytes → Option Transaction) (limit : Nat) :
    List Bytes → List String → List Bytes × List String
  | [], txIds => ([], txIds)
  | data :: rest, txIds =>
    if txIds.length < limit then
      if data.isEmpty then drainEntries decode limit rest txIds
      else match decode data with
        | some tx => drainEntries decode limit rest (txIds ++ [tx.id])
        | none => drainEntries decode limit rest txIds
    else (data :: rest, txIds)

def RaftOrderingService.cutBlock (crypto : Crypto) (decode : Bytes → Option Transaction)
    (service : RaftOrderingService) (now height : UInt64) (proposer : String) :
    RaftOrderingService × Option Block :=
  let (rest, txIds) := drainEntries decode service.maxBatchSize service.committedEntries []
  if txIds.isEmpty then ({ service with committedEntries := rest }, none)
  else
    ({ service with committedEntries := rest },
      some (signOrdered crypto service.signingProvider service.signingKey
        (orderedBlock now height proposer txIds)))

section Binding

variable (crypto : Crypto) (key : Hash32)

/-- The configurations in which the Ed25519 key signs the block. -/
def SignsWith (signingProvider : Option SigningProvider) (signingKey : Option Hash32) : Prop :=
  signingProvider = some (softwareProvider crypto key) ∨
    (signingProvider = none ∧ signingKey = some key)

/-- Blocks cut by either service while it signs with the key. -/
inductive CutBy : Block → Prop where
  | solo (service : OrderingService) (now height : UInt64) (proposer : String) {block : Block}
      (signs : SignsWith crypto key service.signingProvider service.signingKey)
      (cut : (service.cutBlock crypto now height proposer).2 = some block) : CutBy block
  | raft (decode : Bytes → Option Transaction) (service : RaftOrderingService)
      (now height : UInt64) (proposer : String) {block : Block}
      (signs : SignsWith crypto key service.signingProvider service.signingKey)
      (cut : (service.cutBlock crypto decode now height proposer).2 = some block) : CutBy block

/-- Over digests, the key's signatures verify for the signed digest only. -/
def SignatureBinds : Prop :=
  ∀ signed checked : Hash32, crypto.verify (crypto.verifyingKey key) checked.toList
    (crypto.sign key signed.toList).toList = true ↔ checked = signed

def NoCollision (left right : Block) : Prop :=
  blockHashForSigning crypto left = blockHashForSigning crypto right →
    signingPreimage left = signingPreimage right

variable {crypto key}

theorem sign_ordered_fields {provider : Option SigningProvider} {signingKey : Option Hash32}
    (signs : SignsWith crypto key provider signingKey) (block : Block) :
    (signOrdered crypto provider signingKey block).ordererSignature =
        some (crypto.sign key (blockHashForSigning crypto block).toList).toList ∧
      signingPreimage (signOrdered crypto provider signingKey block) = signingPreimage block := by
  rcases signs with provided | ⟨absent, present⟩
  · subst provided
    exact ⟨rfl, rfl⟩
  · subst absent present
    exact ⟨rfl, rfl⟩

/-- A cut block carries zero parent and Merkle hashes and the key's signature
over its own preimage. -/
theorem cut_by_fields {block : Block} (produced : CutBy crypto key block) :
    block.ordererSignature =
        some (crypto.sign key (blockHashForSigning crypto block).toList).toList ∧
      signingPreimage block =
        toLeBytes block.height ++ zeroHash.toList ++ zeroHash.toList := by
  -- Signing changes neither the preimage nor the height.
  have signed : ∀ {provider signingKey} (now height : UInt64) (proposer : String)
      (txIds : List String), SignsWith crypto key provider signingKey →
      signOrdered crypto provider signingKey (orderedBlock now height proposer txIds) = block →
      block.ordererSignature =
          some (crypto.sign key (blockHashForSigning crypto block).toList).toList ∧
        signingPreimage block =
          toLeBytes block.height ++ zeroHash.toList ++ zeroHash.toList := by
    intro provider signingKey now height proposer txIds signs same
    obtain ⟨signature, preimage⟩ :=
      sign_ordered_fields signs (orderedBlock now height proposer txIds)
    rw [same] at signature preimage
    have sameHeight : toLeBytes block.height = toLeBytes height :=
      (List.append_inj (List.append_inj preimage (by simp)).1 (by simp)).1
    refine ⟨?_, ?_⟩
    · rw [signature, blockHashForSigning, blockHashForSigning, preimage]
    · rw [preimage, sameHeight]
      rfl
  cases produced with
  | solo service now height proposer signs cut =>
    simp only [OrderingService.cutBlock] at cut
    split at cut
    · cases cut
    · exact signed _ _ _ _ signs (Option.some.inj cut)
  | raft decode service now height proposer signs cut =>
    simp only [RaftOrderingService.cutBlock] at cut
    split at cut
    · cases cut
    · exact signed _ _ _ _ signs (Option.some.inj cut)

theorem same_preimage_iff {block other : Block} (zeroed : signingPreimage block =
    toLeBytes block.height ++ zeroHash.toList ++ zeroHash.toList) :
    signingPreimage other = signingPreimage block ↔
      other.height = block.height ∧ other.parentHash = zeroHash ∧ other.merkleRoot = zeroHash := by
  rw [zeroed]
  constructor
  · intro same
    obtain ⟨front, merkle⟩ := List.append_inj same (by simp)
    obtain ⟨height, parent⟩ := List.append_inj front (by simp)
    exact ⟨to_le_bytes_injective height, hash_bytes_injective parent,
      hash_bytes_injective merkle⟩
  · rintro ⟨height, parent, merkle⟩
    rw [signingPreimage, height, parent, merkle]

end Binding

/-- A block that reuses the signature of a cut block with other transactions is
refused exactly when it also changes the height or carries a non-zero parent or
Merkle hash: the transaction list itself is not signed. -/
theorem reused_signature_refused_iff (crypto : Crypto) (key : Hash32) (block other : Block)
    (binds : SignatureBinds crypto key) (produced : CutBy crypto key block)
    (collisionFree : NoCollision crypto other block)
    (carried : other.ordererSignature = block.ordererSignature) :
    verifyOrdererSignature crypto other (crypto.verifyingKey key) ≠ .ok true ↔
      other.height ≠ block.height ∨ other.parentHash ≠ zeroHash ∨
        other.merkleRoot ≠ zeroHash := by
  obtain ⟨signature, zeroed⟩ := cut_by_fields produced
  have accepted : verifyOrdererSignature crypto other (crypto.verifyingKey key) = .ok true ↔
      blockHashForSigning crypto other = blockHashForSigning crypto block := by
    unfold verifyOrdererSignature
    rw [carried, signature]
    by_cases same : blockHashForSigning crypto other = blockHashForSigning crypto block
    · have verified := (binds _ _).mpr same
      rw [same] at verified ⊢
      simp [verified]
    · have refused := mt (binds _ _).mp same
      simp [refused, same]
  have sameHash : blockHashForSigning crypto other = blockHashForSigning crypto block ↔
      signingPreimage other = signingPreimage block := by
    refine ⟨collisionFree, ?_⟩
    intro same
    rw [blockHashForSigning, same, blockHashForSigning]
  rw [ne_eq, accepted, sameHash, same_preimage_iff zeroed]
  tauto

def pad (data : Bytes) : Vector UInt8 64 := Vector.ofFn fun place => data.getD place 0

def paddingCrypto : Crypto :=
  { keyDecodes := fun _ => true
    verify := fun _ data signature => signature == (pad data).toList
    sha256 := fun data => Vector.ofFn fun place => data.getD place 0
    sign := fun _ data => pad data
    verifyingKey := id }

theorem pad_injective (left right : Hash32) (same : pad left.toList = pad right.toList) :
    left = right := by
  apply Vector.ext
  intro place inside
  have wide : place < 64 := by omega
  have entry : (pad left.toList)[place] = (pad right.toList)[place] := by rw [same]
  rw [pad, pad, Vector.getElem_ofFn, Vector.getElem_ofFn,
    List.getD_eq_getElem _ _ (by simpa using inside),
    List.getD_eq_getElem _ _ (by simpa using inside)] at entry
  exact entry

theorem padding_binds (key : Hash32) : SignatureBinds paddingCrypto key := by
  intro signed checked
  have opened : paddingCrypto.verify (paddingCrypto.verifyingKey key) checked.toList
      (paddingCrypto.sign key signed.toList).toList =
        ((pad signed.toList).toList == (pad checked.toList).toList) := rfl
  rw [opened, beq_iff_eq, Vector.toList_inj]
  constructor
  · intro same
    exact (pad_injective signed checked same).symm
  · intro same
    rw [same]

def sampleTx (id : String) : Transaction := ⟨id, 0, 0, "did:bc:alice", "did:bc:bob", 1, "pending"⟩

def sampleService : OrderingService := ⟨[sampleTx "tx1"], 100, some zeroHash, none⟩

def sampleCut : Block := signBlock paddingCrypto zeroHash (orderedBlock 0 1 "orderer" ["tx1"])

theorem sample_cut_by : CutBy paddingCrypto zeroHash sampleCut :=
  .solo sampleService 0 1 "orderer" (Or.inr ⟨rfl, rfl⟩) rfl

theorem other_height_refused :
    verifyOrdererSignature paddingCrypto { sampleCut with height := 2, transactions := ["tx2"] }
      zeroHash ≠ .ok true :=
  (reused_signature_refused_iff paddingCrypto zeroHash sampleCut
    { sampleCut with height := 2, transactions := ["tx2"] } (padding_binds _) sample_cut_by
    (fun same => absurd same (by decide)) rfl).mpr (Or.inl (by decide))

/-- Replacing the transactions of a cut block keeps its signature valid. -/
theorem replaced_transactions_verify :
    ¬ ∀ (crypto : Crypto) (key : Hash32) (block other : Block), SignatureBinds crypto key →
      CutBy crypto key block → NoCollision crypto other block →
      other.ordererSignature = block.ordererSignature → other.transactions ≠ block.transactions →
      verifyOrdererSignature crypto other (crypto.verifyingKey key) ≠ .ok true := by
  intro claim
  exact claim paddingCrypto zeroHash sampleCut { sampleCut with transactions := ["tx2"] }
    (padding_binds _) sample_cut_by (fun _ => rfl) rfl (by decide) (by decide)

end CeruleanLedger.OrderingLayer
