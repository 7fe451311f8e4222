import CeruleanLedger.ChainSync
import CeruleanLedger.GuardedRun

/-!
The `Blocks` and `NewBlock` arms of `process_message` in `network/mod.rs`, with the checks of
`checkpoint.rs`. The wallets at the time of a message are part of the input; what a message does
to them is left out. Nothing records a checkpoint while messages are handled, so the manager is
fixed.
-/

namespace CeruleanLedger.ChainMessages

open ChainSync GuardedRun NativeLedger

structure Checkpoint where
  blockIndex : UInt64
  blockHash : String

structure CheckpointManager where
  checkpoints : Std.ExtTreeMap UInt64 Checkpoint
  maxReorgDepth : UInt64

namespace CheckpointManager

def getCheckpoint (manager : CheckpointManager) (blockIndex : UInt64) : Option Checkpoint :=
  manager.checkpoints[blockIndex]?

/-- The greatest index wins, so the order of the hash map does not matter. A
checkpoint at index zero is never found. -/
def getLatestCheckpointBefore (manager : CheckpointManager) (blockIndex : UInt64) :
    Option Checkpoint :=
  (manager.checkpoints.toList.foldl
    (fun latest entry =>
      if entry.1 ≤ blockIndex ∧ latest.2 < entry.1 then (some entry.2, entry.1) else latest)
    ((none : Option Checkpoint), (0 : UInt64))).1

def matchesExact (manager : CheckpointManager) (blockIndex : UInt64) (blockHash : String) :
    Except String Unit :=
  match manager.getCheckpoint blockIndex with
  | none => .ok ()
  | some checkpoint =>
    if checkpoint.blockHash ≠ blockHash then
      .error ("Bloque " ++ toString blockIndex ++ " no coincide con checkpoint: esperado " ++
        checkpoint.blockHash ++ ", recibido " ++ blockHash)
    else .ok ()

def withinDepth (manager : CheckpointManager) (blockIndex : UInt64) : Except String Unit :=
  match manager.getLatestCheckpointBefore blockIndex with
  | none => .ok ()
  | some latest =>
    let distance := saturatingSub blockIndex latest.blockIndex
    if distance > manager.maxReorgDepth then
      .error ("Reorganización demasiado profunda: " ++ toString distance ++
        " bloques desde checkpoint en " ++ toString latest.blockIndex ++ " (máximo permitido: " ++
        toString manager.maxReorgDepth ++ ")")
    else .ok ()

/-- The hash of the previous block is an argument that the source ignores. -/
def validateBlockAgainstCheckpoints (manager : CheckpointManager) (blockIndex : UInt64)
    (blockHash : String) : Except String Unit :=
  match manager.matchesExact blockIndex blockHash with
  | .error reason => .error reason
  | .ok () => manager.withinDepth blockIndex

end CheckpointManager

section Handlers

variable (crypto : Crypto)

/-- The loop of `is_valid_chain` from the second block on; indices are not
compared. -/
def hashesLinked (previous : Block) : List Block → Bool
  | [] => true
  | current :: rest =>
    current.previousHash == previous.hash && current.isValid crypto && hashesLinked current rest

/-- The first block is not checked. -/
def isValidChain : List Block → Bool
  | [] => true
  | first :: rest => hashesLinked crypto first rest

def handleBlocks (wallets : Option WalletManager) (ledger : Blockchain) (blocks : List Block) :
    Blockchain :=
  if ledger.chain.length < blocks.length && isValidChain crypto blocks then
    match wallets with
    | some wallets => (resolveConflict crypto ledger blocks wallets).2
    | none => { ledger with chain := blocks }
  else ledger

def appends (manager : Option CheckpointManager) (wallets : Option WalletManager)
    (ledger : Blockchain) (latest block : Block) : Bool :=
  !ledger.chain.any (fun existing => existing.hash == block.hash) &&
    block.previousHash == latest.hash && block.isValid crypto &&
    (manager.all fun manager =>
      (manager.validateBlockAgainstCheckpoints block.index block.hash).isOk) &&
    wallets.all fun wallets => block.transactions.all (replays crypto ledger wallets)

/-- `Message::NewBlock`. An empty chain is a panic. -/
def handleNewBlock (manager : Option CheckpointManager) (wallets : Option WalletManager)
    (ledger : Blockchain) (block : Block) : Blockchain :=
  match ledger.chain.getLast? with
  | none => ledger
  | some latest =>
    if appends crypto manager wallets ledger latest block then
      { ledger with chain := ledger.chain ++ [block] }
    else ledger

inductive ChainMessage where
  | blocks (blocks : List Block)
  | newBlock (block : Block)

def processMessage (manager : Option CheckpointManager) (ledger : Blockchain)
    (input : Option WalletManager × ChainMessage) : Blockchain :=
  match input.2 with
  | .blocks blocks => handleBlocks crypto input.1 ledger blocks
  | .newBlock block => handleNewBlock crypto manager input.1 ledger block

variable {crypto}

theorem handle_blocks_cases (wallets : Option WalletManager) (ledger : Blockchain)
    (blocks : List Block) :
    handleBlocks crypto wallets ledger blocks = ledger ∨
      handleBlocks crypto wallets ledger blocks = { ledger with chain := blocks } := by
  unfold handleBlocks
  split
  · cases wallets with
    | none => exact Or.inr rfl
    | some wallets =>
      simp only [resolveConflict]
      split
      · exact Or.inl rfl
      · split
        · exact Or.inl rfl
        · split
          · exact Or.inr rfl
          · exact Or.inl rfl
  · exact Or.inl rfl

theorem handle_new_block_cases (manager : CheckpointManager) (wallets : Option WalletManager)
    (ledger : Blockchain) (block : Block) :
    handleNewBlock crypto (some manager) wallets ledger block = ledger ∨
      handleNewBlock crypto (some manager) wallets ledger block =
          { ledger with chain := ledger.chain ++ [block] } ∧
        manager.validateBlockAgainstCheckpoints block.index block.hash = .ok () := by
  unfold handleNewBlock
  split
  · exact Or.inl rfl
  · split
    · next passed =>
      refine Or.inr ⟨rfl, ?_⟩
      simp only [appends, Option.all_some, Bool.and_eq_true] at passed
      have checked := passed.1.2
      cases verdict : manager.validateBlockAgainstCheckpoints block.index block.hash with
      | error reason =>
        rw [verdict] at checked
        cases checked
      | ok value => rfl
    · exact Or.inl rfl

end Handlers

/-- Every checkpoint that the chain reaches has the hash of the block there. -/
def Final (manager : CheckpointManager) (chain : List Block) : Prop :=
  ∀ (index : UInt64) (checkpoint : Checkpoint) (block : Block),
    manager.checkpoints[index]? = some checkpoint → chain[index.toNat]? = some block →
      block.hash = checkpoint.blockHash

/-- A chain that is adopted agrees with the checkpoints; a block that is appended
under the index of another place agrees with the checkpoint of its own. -/
def RespectsCheckpoints (crypto : Crypto) (manager : CheckpointManager) (ledger : Blockchain)
    (input : Option WalletManager × ChainMessage) : Prop :=
  match input.2 with
  | .blocks blocks =>
    handleBlocks crypto input.1 ledger blocks = { ledger with chain := blocks } →
      Final manager blocks
  | .newBlock block =>
    handleNewBlock crypto (some manager) input.1 ledger block =
        { ledger with chain := ledger.chain ++ [block] } →
      block.index.toNat ≠ ledger.chain.length →
        ∀ (index : UInt64) (checkpoint : Checkpoint), index.toNat = ledger.chain.length →
          manager.checkpoints[index]? = some checkpoint → block.hash = checkpoint.blockHash

variable {crypto : Crypto} {manager : CheckpointManager}

theorem appended_final_iff {chain : List Block} (block : Block) (final : Final manager chain) :
    Final manager (chain ++ [block]) ↔
      ∀ (index : UInt64) (checkpoint : Checkpoint), index.toNat = chain.length →
        manager.checkpoints[index]? = some checkpoint → block.hash = checkpoint.blockHash := by
  constructor
  · intro kept index checkpoint last recorded
    exact kept index checkpoint block recorded (by rw [last, List.getElem?_concat_length])
  · intro agrees index checkpoint found recorded present
    by_cases before : index.toNat < chain.length
    · rw [List.getElem?_append_left before] at present
      exact final index checkpoint found recorded present
    · obtain ⟨inside, same⟩ := List.getElem?_eq_some_iff.mp present
      rw [List.length_append, List.length_singleton] at inside
      have last : index.toNat = chain.length := by omega
      rw [last, List.getElem?_concat_length] at present
      cases present
      exact agrees index checkpoint last recorded

theorem blocks_final_iff (wallets : Option WalletManager) (ledger : Blockchain)
    (blocks : List Block) (final : Final manager ledger.chain) :
    Final manager (handleBlocks crypto wallets ledger blocks).chain ↔
      RespectsCheckpoints crypto manager ledger (wallets, .blocks blocks) := by
  dsimp only [RespectsCheckpoints]
  rcases handle_blocks_cases wallets ledger blocks with same | adopted
  · rw [same]
    refine ⟨fun _ unchanged => ?_, fun _ => final⟩
    rwa [congrArg Blockchain.chain unchanged] at final
  · rw [adopted]
    exact ⟨fun kept _ => kept, fun respects => respects rfl⟩

theorem new_block_final_iff (wallets : Option WalletManager) (ledger : Blockchain) (block : Block)
    (final : Final manager ledger.chain) :
    Final manager (handleNewBlock crypto (some manager) wallets ledger block).chain ↔
      RespectsCheckpoints crypto manager ledger (wallets, .newBlock block) := by
  dsimp only [RespectsCheckpoints]
  rcases handle_new_block_cases manager wallets ledger block with same | ⟨appended, validated⟩
  · rw [same]
    refine ⟨fun _ grown => ?_, fun _ => final⟩
    have longer := congrArg (fun ledger : Blockchain => ledger.chain.length) grown
    simp at longer
  · rw [appended, appended_final_iff block final]
    constructor
    · intro agrees _ _
      exact agrees
    · intro respects index checkpoint last recorded
      -- Under the index of its own place the block has passed the checkpoint test.
      by_cases own : block.index.toNat = ledger.chain.length
      · have here : index = block.index := UInt64.toNat_inj.mp (last.trans own.symm)
        subst here
        by_contra differ
        simp only [CheckpointManager.validateBlockAgainstCheckpoints,
          CheckpointManager.matchesExact, CheckpointManager.getCheckpoint, recorded,
          if_pos (Ne.symm differ)] at validated
        cases validated
      · exact respects rfl own index checkpoint last recorded

theorem process_final_iff (ledger : Blockchain) (input : Option WalletManager × ChainMessage)
    (final : Final manager ledger.chain) :
    Final manager (processMessage crypto (some manager) ledger input).chain ↔
      RespectsCheckpoints crypto manager ledger input := by
  obtain ⟨wallets, message⟩ := input
  cases message with
  | blocks blocks => exact blocks_final_iff wallets ledger blocks final
  | newBlock block => exact new_block_final_iff wallets ledger block final

/-- Over every sequence of messages, the checkpoints stay final exactly when the
chain agrees with them at the start and every message respects them. -/
theorem checkpoints_final_iff (crypto : Crypto) (manager : CheckpointManager) (ledger : Blockchain)
    (inputs : List (Option WalletManager × ChainMessage)) :
    (∀ count, Final manager
      ((inputs.take count).foldl (processMessage crypto (some manager)) ledger).chain) ↔
      Final manager ledger.chain ∧
        AllMeet (processMessage crypto (some manager)) (RespectsCheckpoints crypto manager) ledger
          inputs := by
  have exact := prefixes_hold_iff (fun ledger : Blockchain => Final manager ledger.chain)
    (@process_final_iff crypto manager) ledger inputs
  constructor
  · intro always
    exact ⟨always 0, (exact (always 0)).mp always⟩
  · rintro ⟨initial, respects⟩
    exact (exact initial).mpr respects

open TokenBalances (openCrypto)

def sealed (now index : UInt64) (previousHash : String) : Block :=
  let block := Block.new openCrypto now index [] previousHash 0
  { block with hash := block.calculateHash openCrypto }

def chainAt (times : List UInt64) : List Block :=
  times.foldl (fun chain now => chain ++
    [sealed now (UInt64.ofNat chain.length) ((chain.getLast?.map Block.hash).getD "0")]) []

def ledgerAt (times : List UInt64) : Blockchain := ⟨chainAt times, 0, 60, 10, 1000, 1000000⟩

def checkpointed (times : List UInt64) : CheckpointManager where
  checkpoints := (∅ : Std.ExtTreeMap UInt64 Checkpoint).insert 1
    ⟨1, (((chainAt times)[1]?).map Block.hash).getD ""⟩
  maxReorgDepth := 2000

def atCheckpoint (manager : CheckpointManager) (ledger : Blockchain) :
    Option String × Option String :=
  ((manager.getCheckpoint 1).map Checkpoint.blockHash, (ledger.chain[1]?).map Block.hash)

/-- A longer chain that forks below the checkpoint is adopted, wallets or not; and
a block that claims a later index is appended in the place of the checkpoint. -/
theorem checkpoint_rewritten :
    let manager := checkpointed [0, 1, 2]
    let before := atCheckpoint manager (ledgerAt [0, 1, 2])
    let adopted := fun wallets => atCheckpoint manager (processMessage openCrypto (some manager)
      (ledgerAt [0, 1, 2]) (wallets, .blocks (chainAt [0, 7, 8, 9])))
    let claimed := atCheckpoint manager (processMessage openCrypto (some manager)
      (ledgerAt [0]) (none, .newBlock (sealed 7 5 (sealed 0 0 "0").hash)))
    before.1 = before.2 ∧ before.1.isSome = true ∧
      ((adopted none).1 ≠ (adopted none).2 ∧ (adopted none).2.isSome = true) ∧
      ((adopted (some ∅)).1 ≠ (adopted (some ∅)).2 ∧ (adopted (some ∅)).2.isSome = true) ∧
      claimed.1 ≠ claimed.2 ∧ claimed.2.isSome = true := by
  decide +kernel

end CeruleanLedger.ChainMessages
