import CeruleanLedger.EndorsementCheck

/-!
The native-token ledger of `blockchain.rs` with the transactions and wallets of
`models.rs`: Merkle roots, proof of work, the genesis block, validation and
`add_block`. SHA-256, Ed25519 and ML-DSA-65 are parameters, as are the clock and
the random id of the genesis transaction. Amounts, nonces and indices are `u64`
and wrap, as in a release build. The mining loop tries each of the 2^64 nonces
once; `none` stands for a search that never ends. The `f64` ratio of
`adjust_difficulty` is read as an exact rational.
-/

namespace CeruleanLedger.NativeLedger

open ByteCodec EndorsementCheck

structure Crypto extends Ed25519 where
  sha256 : Bytes → Hash32
  mldsaKeyDecodes : Bytes → Bool
  mldsaSignatureDecodes : Bytes → Bool
  mldsaVerify : Bytes → Bytes → Bytes → Bool

def Crypto.hashText (crypto : Crypto) (text : String) : String :=
  hexEncode (crypto.sha256 (utf8 text)).toList

structure Transaction where
  id : String
  fromAddr : String
  toAddr : String
  amount : UInt64
  fee : UInt64
  data : Option String
  timestamp : UInt64
  signature : String
  deriving DecidableEq

def Transaction.newWithFee (id : String) (now : UInt64) (fromAddr toAddr : String)
    (amount fee : UInt64) (data : Option String) : Transaction :=
  ⟨id, fromAddr, toAddr, amount, fee, data, now, ""⟩

structure Wallet where
  publicKey : Hash32

abbrev WalletManager := Std.ExtTreeMap String Wallet

structure Block where
  index : UInt64
  timestamp : UInt64
  transactions : List Transaction
  previousHash : String
  hash : String
  nonce : UInt64
  difficulty : UInt8
  merkleRoot : String
  deriving DecidableEq

structure Blockchain where
  chain : List Block
  difficulty : UInt8
  targetBlockTime : UInt64
  difficultyAdjustmentInterval : Nat
  maxTransactionsPerBlock : Nat
  maxBlockSizeBytes : Nat

def genesisTimestamp : UInt64 := 1700000000

def genesisNonceLimit : Nat := 10000000

def genesisFallbackNonce : Nat := 12345

def maxCoinbaseAmount : UInt64 := 1000000000

def minAddressLength : Nat := 32

def saturatingSub (left right : UInt64) : UInt64 := if right ≤ left then left - right else 0

theorem saturating_sub_toNat (left right : UInt64) :
    (saturatingSub left right).toNat = left.toNat - right.toNat := by
  unfold saturatingSub
  split
  · next fits => exact UInt64.toNat_sub_of_le left right fits
  · next short =>
    have below := UInt64.lt_iff_toNat_lt.mp (UInt64.not_le.mp short)
    exact (Nat.sub_eq_zero_of_le below.le).symm

def target (difficulty : UInt8) : String := String.ofList (List.replicate difficulty.toNat '0')

variable (crypto : Crypto)

namespace Transaction

def hashedText (tx : Transaction) : String :=
  tx.id ++ tx.fromAddr ++ tx.toAddr ++ toString tx.amount ++ toString tx.fee ++
    tx.data.getD "" ++ toString tx.timestamp

def calculateHash (tx : Transaction) : String := crypto.hashText tx.hashedText

def isValid (tx : Transaction) : Bool :=
  tx.fromAddr ≠ "" && tx.toAddr ≠ "" && 0 < tx.amount

/-- `verify_signature(..).is_ok()`: the lengths choose the scheme. -/
def hasValidSignature (tx : Transaction) (publicKey : Bytes) : Bool :=
  if tx.signature = "" then false
  else match hexDecode tx.signature with
    | none => false
    | some signature =>
      let message := utf8 (tx.calculateHash crypto)
      if known : publicKey.length = 32 ∧ signature.length = 64 then
        let key : Hash32 := ⟨publicKey.toArray, known.1⟩
        crypto.keyDecodes key && crypto.verify key message signature
      else if publicKey.length = 1952 ∧ signature.length = 3309 then
        crypto.mldsaKeyDecodes publicKey && crypto.mldsaSignatureDecodes signature &&
          crypto.mldsaVerify publicKey message signature
      else false

end Transaction

/-- One level of the tree; an odd last hash moves up unchanged. -/
def merkleLevel : List String → List String
  | left :: right :: rest => crypto.hashText (left ++ right) :: merkleLevel rest
  | rest => rest

/-- The loop `while hashes.len() > 1`, with the list's length as fuel. -/
def merkleLevels : Nat → List String → List String
  | 0, hashes => hashes
  | fuel + 1, hashes =>
    if 1 < hashes.length then merkleLevels fuel (merkleLevel crypto hashes) else hashes

theorem merkle_level_length (hashes : List String) :
    (merkleLevel crypto hashes).length = (hashes.length + 1) / 2 := by
  fun_induction merkleLevel crypto hashes with
  | case1 left right rest ih =>
    simp only [List.length_cons, ih]
    omega
  | case2 rest small =>
    match rest, small with
    | [], _ => simp
    | [_], _ => simp
    | left :: right :: rest, small => exact absurd rfl (small left right rest)

/-- The fuel is enough: at most one hash is left. -/
theorem merkle_levels_length (fuel : Nat) (hashes : List String)
    (enough : hashes.length ≤ fuel + 1) : (merkleLevels crypto fuel hashes).length ≤ 1 := by
  induction fuel generalizing hashes with
  | zero => exact enough
  | succ fuel ih =>
    unfold merkleLevels
    split
    · apply ih
      rw [merkle_level_length]
      omega
    · omega

def Block.calculateMerkleRoot (transactions : List Transaction) : String :=
  let hashes := transactions.map (Transaction.calculateHash crypto)
  (merkleLevels crypto hashes.length hashes).head?.getD ""

/-- The copy of the loop that the genesis block uses. -/
def Blockchain.calculateMerkleRootStatic : List Transaction → String :=
  Block.calculateMerkleRoot crypto

def headerText (index timestamp : UInt64) (merkleRoot previousHash : String) (nonce : UInt64)
    (count : Nat) : String :=
  toString index ++ toString timestamp ++ merkleRoot ++ previousHash ++ toString nonce ++
    toString count

namespace Block

def new (now index : UInt64) (transactions : List Transaction) (previousHash : String)
    (difficulty : UInt8) : Block :=
  { index, timestamp := now, transactions, previousHash, hash := "", nonce := 0, difficulty
    merkleRoot := calculateMerkleRoot crypto transactions }

def calculateHash (block : Block) : String :=
  crypto.hashText (headerText block.index block.timestamp block.merkleRoot block.previousHash
    block.nonce block.transactions.length)

/-- `mine_sequential` with a bound on the number of nonces tried. -/
def mineWithin : Nat → Block → Option Block
  | 0, _ => none
  | tries + 1, block =>
    let hashed := { block with hash := block.calculateHash crypto }
    if startsWith hashed.hash (target block.difficulty) then some hashed
    else mineWithin tries { hashed with nonce := hashed.nonce + 1 }

/-- After 2^64 nonces the search is back where it started. -/
def mineSequential (block : Block) : Option Block := mineWithin crypto UInt64.size block

def mine (block : Block) : Option Block := block.mineSequential crypto

def isValid (block : Block) : Bool :=
  block.hash == block.calculateHash crypto && startsWith block.hash (target block.difficulty) &&
    block.merkleRoot == calculateMerkleRoot crypto block.transactions

end Block

namespace Blockchain

/-- The nonce search of the genesis block. The nonce is advanced after each
hash and before the test; past the limit a fixed nonce is taken untested. -/
def genesisSearch (hashAt : Nat → String) (difficulty : UInt8) : Nat → Nat → String →
    Nat × String
  | 0, nonce, finalHash => (nonce, finalHash)
  | fuel + 1, nonce, finalHash =>
    -- `nonce` is already one past the nonce that gave `finalHash`.
    if startsWith finalHash (target difficulty) then (nonce, finalHash)
    else if genesisNonceLimit < nonce + 1 then
      (genesisFallbackNonce, hashAt genesisFallbackNonce)
    else genesisSearch hashAt difficulty fuel (nonce + 1) (hashAt nonce)

def genesisTransaction (id : String) (now : UInt64) : Transaction :=
  .newWithFee id now "0" "genesis" 0 0 (some "Genesis Block - Rust Blockchain")

def genesisHeader (genesisTx : Transaction) (nonce : UInt64) : String :=
  headerText 0 genesisTimestamp (calculateMerkleRootStatic crypto [genesisTx]) "0" nonce 1

def genesisBlock (genesisTx : Transaction) (difficulty : UInt8) : Block :=
  let found := genesisSearch
    (fun nonce => crypto.hashText (genesisHeader crypto genesisTx (UInt64.ofNat nonce)))
    difficulty (genesisNonceLimit + 1) 0 ""
  { index := 0, timestamp := genesisTimestamp, transactions := [genesisTx], previousHash := "0"
    hash := found.2, nonce := UInt64.ofNat found.1, difficulty
    merkleRoot := calculateMerkleRootStatic crypto [genesisTx] }

def createGenesisBlock (id : String) (now : UInt64) (ledger : Blockchain) : Blockchain :=
  if ledger.chain.isEmpty then
    { ledger with
      chain := [genesisBlock crypto (genesisTransaction id now) ledger.difficulty] }
  else ledger

def new (id : String) (now : UInt64) (difficulty : UInt8) : Blockchain :=
  createGenesisBlock crypto id now
    { chain := [], difficulty, targetBlockTime := 60, difficultyAdjustmentInterval := 10
      maxTransactionsPerBlock := 1000, maxBlockSizeBytes := 1000000 }

def adjusted (difficulty : UInt8) (expectedTime timeSpan : UInt64) : UInt8 :=
  let ratio : ℚ := if 0 < timeSpan then expectedTime.toNat / timeSpan.toNat else 1
  let moved : Nat :=
    if ratio < 8 / 10 then min (difficulty.toNat + 1) 255
    else if 12 / 10 < ratio then difficulty.toNat - 1
    else difficulty.toNat
  UInt8.ofNat (max 1 (min 20 moved))

def adjustDifficulty (ledger : Blockchain) : Bool × Blockchain :=
  let interval := ledger.difficultyAdjustmentInterval
  let recent := ledger.chain.drop (ledger.chain.length - interval)
  if ledger.chain.length < 2 ∨ ledger.chain.length % interval ≠ 0 then (false, ledger)
  else match recent.head?, recent.getLast? with
    | some first, some last =>
      if recent.length < 2 then (false, ledger)
      else
        let difficulty := adjusted ledger.difficulty
          (ledger.targetBlockTime * UInt64.ofNat interval)
          (saturatingSub last.timestamp first.timestamp)
        (ledger.difficulty != difficulty, { ledger with difficulty })
    | _, _ => (false, ledger)

def allTransactions (ledger : Blockchain) : List Transaction :=
  ledger.chain.flatMap Block.transactions

def balanceStep (address : String) (balance : UInt64) (tx : Transaction) : UInt64 :=
  if tx.fromAddr = "0" ∧ tx.toAddr = address then balance + tx.amount
  -- A transfer to oneself is counted as sent only.
  else if tx.fromAddr = address then saturatingSub balance (tx.amount + tx.fee)
  else if tx.toAddr = address then balance + tx.amount
  else balance

def calculateBalance (ledger : Blockchain) (address : String) : UInt64 :=
  ledger.allTransactions.foldl (balanceStep address) 0

def validateCoinbaseTransaction (tx : Transaction) : Except String Unit :=
  if tx.fromAddr ≠ "0" then .error "No es una transacción coinbase"
  else if tx.toAddr = "" then
    .error "Dirección destinataria de coinbase no puede estar vacía"
  else if tx.amount = 0 then .error "Cantidad de coinbase debe ser mayor a 0"
  else if maxCoinbaseAmount < tx.amount then
    .error ("Cantidad de coinbase excede el límite máximo: " ++ toString maxCoinbaseAmount)
  else if tx.signature ≠ "" then .error "Transacciones coinbase no deben tener firma"
  else if tx.toAddr.utf8ByteSize < minAddressLength then
    .error ("Dirección destinataria de coinbase debe tener al menos " ++
      toString minAddressLength ++ " caracteres")
  else .ok ()

def isDoubleSpend (ledger : Blockchain) (tx : Transaction) : Bool :=
  ledger.allTransactions.any fun existing => existing.id == tx.id

/-- The checks after the signature: balance, fee, reuse of an id. -/
def validateSpend (ledger : Blockchain) (tx : Transaction) : Except String Unit :=
  -- Transactions earlier in the same block are not part of this balance.
  let available := ledger.calculateBalance tx.fromAddr
  let required := tx.amount + tx.fee
  if available < required then
    .error ("Saldo insuficiente de token nativo. Disponible: " ++ toString available ++
      ", Requerido: " ++ toString required ++ " (amount: " ++ toString tx.amount ++ " + fee: " ++
      toString tx.fee ++ "). Los fees solo se pueden pagar con el token nativo.")
  else if tx.fee = 0 then
    .error ("Fee requerido: todas las transacciones deben incluir un fee > 0 " ++
      "pagado con token nativo")
  else if ledger.isDoubleSpend tx then .error "Doble gasto detectado"
  else .ok ()

def validateTransaction (ledger : Blockchain) (wallets : WalletManager) (tx : Transaction) :
    Except String Unit :=
  if ¬ tx.isValid then .error "Transacción inválida: campos básicos incorrectos"
  else if tx.fromAddr = "STAKING" then .ok ()
  else if tx.fromAddr = "0" then .ok ()
  else match wallets[tx.fromAddr]? with
    | none => .error "Wallet no encontrado"
    | some wallet =>
      if ¬ tx.hasValidSignature crypto wallet.publicKey.toList then
        .error "Firma digital inválida"
      else ledger.validateSpend tx

def calculateBlockSize (transactions : List Transaction) : Nat :=
  200 + (transactions.map fun tx =>
    tx.fromAddr.utf8ByteSize + tx.toAddr.utf8ByteSize + tx.signature.utf8ByteSize + 50).sum

/-- The loop of `add_block` over the transactions; the result counts the
coinbases. -/
def checkTransactions (ledger : Blockchain) (wallets : WalletManager) :
    List Transaction → Nat → Except String Nat
  | [], coinbases => .ok coinbases
  | tx :: rest, coinbases =>
    if tx.fromAddr = "0" then
      match validateCoinbaseTransaction tx with
      | .error reason => .error ("Transacción coinbase inválida: " ++ reason)
      | .ok () => checkTransactions ledger wallets rest (coinbases + 1)
    -- Unstaking transactions pass unchecked.
    else if tx.fromAddr = "STAKING" then checkTransactions ledger wallets rest coinbases
    else match ledger.validateTransaction crypto wallets tx with
      | .error reason => .error ("Transacción inválida: " ++ reason)
      | .ok () => checkTransactions ledger wallets rest coinbases

/-- Everything `add_block` checks before it changes the chain. -/
def admissible (ledger : Blockchain) (wallets : WalletManager) (transactions : List Transaction) :
    Except String Unit :=
  if transactions.isEmpty then .error "Un bloque debe tener al menos una transacción"
  else if ledger.maxBlockSizeBytes < calculateBlockSize transactions then
    .error ("Bloque excede tamaño máximo: " ++ toString (calculateBlockSize transactions) ++
      " bytes")
  else if ledger.maxTransactionsPerBlock < transactions.length then
    .error ("Bloque excede máximo de transacciones: " ++ toString transactions.length)
  else match ledger.checkTransactions crypto wallets transactions 0 with
    | .error reason => .error reason
    | .ok coinbases =>
      if 1 < coinbases then .error "Solo puede haber una transacción coinbase por bloque"
      else .ok ()

/-- The hash and the ledger after a successful call; `none` if mining does not
end. A chain has its genesis block, so `get_latest_block` finds one. -/
def addBlock (ledger : Blockchain) (now : UInt64) (wallets : WalletManager)
    (transactions : List Transaction) : Except String (Option (String × Blockchain)) :=
  match ledger.admissible crypto wallets transactions with
  | .error reason => .error reason
  | .ok () =>
    -- Nothing can fail from here on, so a rejected call has changed nothing.
    let ledger := ledger.adjustDifficulty.2
    let previousHash := (ledger.chain.getLast?.map Block.hash).getD ""
    let block := Block.new crypto now (UInt64.ofNat ledger.chain.length) transactions
      previousHash ledger.difficulty
    .ok ((block.mine crypto).map fun mined =>
    (mined.hash, { ledger with chain := ledger.chain ++ [mined] }))

/-- The loop of `is_chain_valid` from the second block on. -/
def linksValid (previous : Block) (seenIndices : List UInt64) : List Block → Bool
  | [] => true
  | current :: rest =>
    current.isValid crypto && current.previousHash == previous.hash &&
      current.index == previous.index + 1 && !seenIndices.contains current.index &&
      linksValid current (current.index :: seenIndices) rest

def isChainValid (ledger : Blockchain) : Bool :=
  match ledger.chain with
  | [] => false
  | first :: rest => first.isValid crypto && linksValid crypto first [0] rest

/-- The reward of the block after the chain. As in a release build, a shift
counts modulo 64. -/
def calculateMiningReward (ledger : Blockchain) : UInt64 :=
  50 >>> min (UInt64.ofNat ledger.chain.length / 210000) 64

end Blockchain

theorem mine_within_some {tries : Nat} {block mined : Block}
    (found : block.mineWithin crypto tries = some mined) :
    (∃ nonce hash, mined = { block with nonce, hash }) ∧
      mined.hash = mined.calculateHash crypto ∧
      startsWith mined.hash (target mined.difficulty) = true := by
  induction tries generalizing block with
  | zero => cases found
  | succ tries ih =>
    simp only [Block.mineWithin] at found
    split at found
    · cases found
      exact ⟨⟨_, _, rfl⟩, rfl, ‹_›⟩
    · obtain ⟨⟨nonce, hash, same⟩, rest⟩ := ih found
      exact ⟨⟨nonce, hash, same⟩, rest⟩

@[simp] theorem adjust_difficulty_chain (ledger : Blockchain) :
    ledger.adjustDifficulty.2.chain = ledger.chain := by
  simp only [Blockchain.adjustDifficulty]
  split
  · rfl
  · split
    · split
      · rfl
      · rfl
    · rfl

variable {crypto} {ledger after : Blockchain} {wallets : WalletManager} {now : UInt64}
variable {transactions : List Transaction}

theorem mined_valid {now index : UInt64} {transactions : List Transaction}
    {previousHash : String} {difficulty : UInt8} {mined : Block}
    (found : (Block.new crypto now index transactions previousHash difficulty).mine crypto =
      some mined) : mined.isValid crypto = true := by
  obtain ⟨⟨nonce, hash, fields⟩, hashed, fits⟩ := mine_within_some crypto found
  have root : mined.merkleRoot = Block.calculateMerkleRoot crypto mined.transactions := by
    rw [fields]
    rfl
  simp only [Block.isValid, Bool.and_eq_true, beq_iff_eq]
  exact ⟨⟨hashed, fits⟩, root⟩

/-- A successful call passed every check and appended one valid block with
exactly the given transactions, linked to the block before it. -/
theorem add_block_mined {hash : String}
    (added : ledger.addBlock crypto now wallets transactions = .ok (some (hash, after))) :
    ledger.admissible crypto wallets transactions = .ok () ∧
      ∃ mined : Block, after.chain = ledger.chain ++ [mined] ∧
        mined.transactions = transactions ∧ mined.isValid crypto = true ∧
        mined.index = UInt64.ofNat ledger.chain.length ∧
        mined.previousHash = (ledger.chain.getLast?.map Block.hash).getD "" := by
  unfold Blockchain.addBlock at added
  split at added
  · cases added
  · constructor
    · assumption
    · simp only [Except.ok.injEq, Option.map_eq_some_iff, Prod.mk.injEq,
        adjust_difficulty_chain] at added
      obtain ⟨mined, found, _, same⟩ := added
      have valid := mined_valid found
      obtain ⟨⟨nonce, hash, fields⟩, _⟩ := mine_within_some crypto found
      refine ⟨mined, ?_, ?_, valid, ?_, ?_⟩
      · rw [← same]
      · rw [fields]
        rfl
      · rw [fields]
        rfl
      · rw [fields]
        rfl

theorem add_block_ok {hash : String}
    (added : ledger.addBlock crypto now wallets transactions = .ok (some (hash, after))) :
    ledger.admissible crypto wallets transactions = .ok () ∧
      ∃ mined : Block, after.chain = ledger.chain ++ [mined] ∧
        mined.transactions = transactions := by
  obtain ⟨passed, mined, appended, same, _⟩ := add_block_mined added
  exact ⟨passed, mined, appended, same⟩

def nextBlock (crypto : Crypto) (ledger : Blockchain) (now : UInt64)
    (transactions : List Transaction) : Block :=
  .new crypto now (UInt64.ofNat ledger.chain.length) transactions
    ((ledger.chain.getLast?.map Block.hash).getD "") ledger.adjustDifficulty.2.difficulty

theorem add_block_iff :
    (∃ hash after, ledger.addBlock crypto now wallets transactions = .ok (some (hash, after))) ↔
      ledger.admissible crypto wallets transactions = .ok () ∧
        ((nextBlock crypto ledger now transactions).mine crypto).isSome = true := by
  unfold Blockchain.addBlock nextBlock
  cases ledger.admissible crypto wallets transactions with
  | error reason => simp
  | ok => simp [Option.isSome_iff_exists]

theorem check_transactions_of (coinbases : Nat)
    (checked : ∀ tx ∈ transactions, tx.fromAddr ≠ "0" ∧
      ledger.validateTransaction crypto wallets tx = .ok ()) :
    ledger.checkTransactions crypto wallets transactions coinbases = .ok coinbases := by
  induction transactions with
  | nil => rfl
  | cons tx rest ih =>
    obtain ⟨ordinary, valid⟩ := checked tx List.mem_cons_self
    have later := ih fun tx member => checked tx (List.mem_cons_of_mem _ member)
    rw [Blockchain.checkTransactions, if_neg ordinary, valid]
    split
    · exact later
    · exact later

theorem admissible_iff : ledger.admissible crypto wallets transactions = .ok () ↔
    transactions ≠ [] ∧
      Blockchain.calculateBlockSize transactions ≤ ledger.maxBlockSizeBytes ∧
      transactions.length ≤ ledger.maxTransactionsPerBlock ∧
      ∃ coinbases ≤ 1, ledger.checkTransactions crypto wallets transactions 0 = .ok coinbases := by
  have filled : transactions.isEmpty = true ↔ ¬ transactions ≠ [] := by simp
  simp only [Blockchain.admissible, filled, ← Nat.not_le]
  by_cases occupied : transactions ≠ []
  · by_cases small : Blockchain.calculateBlockSize transactions ≤ ledger.maxBlockSizeBytes
    · by_cases few : transactions.length ≤ ledger.maxTransactionsPerBlock
      · cases ledger.checkTransactions crypto wallets transactions 0 with
        | error reason => simp [occupied, small, few]
        | ok coinbases =>
          by_cases single : coinbases ≤ 1
          · simp [occupied, small, few, single]
          · simp [occupied, small, few, single]
      · simp [occupied, small, few]
    · simp [occupied, small]
  · simp [occupied]

theorem check_transactions_ok {coinbases total : Nat}
    (checked : ledger.checkTransactions crypto wallets transactions coinbases = .ok total)
    (tx : Transaction) (member : tx ∈ transactions) (notCoinbase : tx.fromAddr ≠ "0")
    (notStaking : tx.fromAddr ≠ "STAKING") :
    ledger.validateTransaction crypto wallets tx = .ok () := by
  induction transactions generalizing coinbases with
  | nil => cases member
  | cons first rest ih =>
    simp only [Blockchain.checkTransactions] at checked
    rcases List.mem_cons.mp member with same | later
    · subst same
      rw [if_neg notCoinbase, if_neg notStaking] at checked
      split at checked
      · cases checked
      · assumption
    · split at checked
      · split at checked
        · cases checked
        · exact ih checked later
      · split at checked
        · exact ih checked later
        · split at checked
          · cases checked
          · exact ih checked later

theorem admissible_ok (passed : ledger.admissible crypto wallets transactions = .ok ())
    (tx : Transaction) (member : tx ∈ transactions) (notCoinbase : tx.fromAddr ≠ "0")
    (notStaking : tx.fromAddr ≠ "STAKING") :
    ledger.validateTransaction crypto wallets tx = .ok () := by
  obtain ⟨-, -, -, coinbases, -, checked⟩ := admissible_iff.mp passed
  exact check_transactions_ok checked tx member notCoinbase notStaking

theorem check_transactions_count {coinbases total : Nat}
    (checked : ledger.checkTransactions crypto wallets transactions coinbases = .ok total) :
    total = coinbases + transactions.countP (·.fromAddr = "0") := by
  fun_induction Blockchain.checkTransactions crypto ledger wallets transactions coinbases with
  | case1 coinbases => simpa using checked.symm
  | case2 => cases checked
  | case3 tx rest coinbases coinbase valid ih =>
    rw [ih checked, List.countP_cons_of_pos (by simpa using coinbase)]
    omega
  | case4 tx rest coinbases ordinary staking ih =>
    rw [ih checked, List.countP_cons_of_neg (by simpa using ordinary)]
  | case5 => cases checked
  | case6 tx rest coinbases ordinary notStaking valid ih =>
    rw [ih checked, List.countP_cons_of_neg (by simpa using ordinary)]

theorem validate_spend_iff {tx : Transaction} :
    ledger.validateSpend tx = .ok () ↔
      tx.amount + tx.fee ≤ ledger.calculateBalance tx.fromAddr ∧ tx.fee ≠ 0 ∧
        ledger.isDoubleSpend tx = false := by
  simp only [Blockchain.validateSpend]
  by_cases short : ledger.calculateBalance tx.fromAddr < tx.amount + tx.fee
  · simp [short, UInt64.not_le.mpr short]
  · by_cases free : tx.fee = 0
    · rw [if_neg short, if_pos free]
      simp [free]
    · rw [if_neg short, if_neg free]
      simp [free, UInt64.not_lt.mp short]

theorem validate_transaction_staking {tx : Transaction} (staking : tx.fromAddr = "STAKING") :
    ledger.validateTransaction crypto wallets tx = .ok () ↔ tx.isValid = true := by
  unfold Blockchain.validateTransaction
  by_cases formed : tx.isValid = true
  · simp [formed, staking]
  · simp [formed]

theorem validate_transaction_iff {tx : Transaction} (notCoinbase : tx.fromAddr ≠ "0")
    (notStaking : tx.fromAddr ≠ "STAKING") :
    ledger.validateTransaction crypto wallets tx = .ok () ↔
      tx.isValid = true ∧
        (∃ wallet, wallets[tx.fromAddr]? = some wallet ∧
          tx.hasValidSignature crypto wallet.publicKey.toList = true) ∧
        ledger.validateSpend tx = .ok () := by
  unfold Blockchain.validateTransaction
  rw [if_neg notStaking, if_neg notCoinbase]
  by_cases formed : tx.isValid = true
  · cases known : wallets[tx.fromAddr]? with
    | none => simp [formed]
    | some wallet =>
      by_cases signed : tx.hasValidSignature crypto wallet.publicKey.toList = true
      · simp [formed, signed]
      · simp [formed, signed]
  · simp [formed]

structure Call where
  now : UInt64
  wallets : WalletManager
  transactions : List Transaction

def applyCall (crypto : Crypto) (ledger : Blockchain) (call : Call) : Blockchain :=
  match ledger.addBlock crypto call.now call.wallets call.transactions with
  | .ok (some (_, after)) => after
  | _ => ledger

theorem apply_call_cases (ledger : Blockchain) (call : Call) :
    applyCall crypto ledger call = ledger ∨
      (ledger.admissible crypto call.wallets call.transactions = .ok () ∧
        ∃ mined : Block, (applyCall crypto ledger call).chain = ledger.chain ++ [mined] ∧
          mined.transactions = call.transactions) := by
  unfold applyCall
  split
  · exact Or.inr (add_block_ok ‹_›)
  · exact Or.inl rfl

end CeruleanLedger.NativeLedger
