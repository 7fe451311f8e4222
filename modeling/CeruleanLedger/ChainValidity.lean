import CeruleanLedger.HashLinks
import CeruleanLedger.NativeLedger

/-!
Whether a node accepts the chains it builds itself, and what a Merkle root says of the
transactions below it. The genesis search stores the nonce after the one it hashed, stores no
hash at all at difficulty 0, and past its limit takes a nonce that it has already rejected.
-/

namespace CeruleanLedger.ChainValidity

open ByteCodec HashLinks NativeLedger Blockchain

def Uncollided (crypto : Crypto) (left right : String) : Prop :=
  crypto.sha256 (utf8 left) = crypto.sha256 (utf8 right) → left = right

def GenesisUncollided (crypto : Crypto) (genesisTx : Transaction) (difficulty : UInt8) : Prop :=
  let nonce := (genesisBlock crypto genesisTx difficulty).nonce
  Uncollided crypto (genesisHeader crypto genesisTx nonce)
    (genesisHeader crypto genesisTx (nonce - 1))

section Texts

variable {crypto : Crypto}

theorem hash_text_length (text : String) : (crypto.hashText text).length = 64 := by
  rw [← String.length_toList, Crypto.hashText, hexEncode, String.toList_ofList,
    nibble_text_length, Vector.length_toList]

theorem hash_text_ne_empty (text : String) : crypto.hashText text ≠ "" := by
  intro empty
  have width : (crypto.hashText text).length = 64 := hash_text_length text
  rw [empty] at width
  cases width

theorem nothing_starts (difficulty : UInt8) (positive : difficulty ≠ 0) :
    startsWith "" (target difficulty) = false := by
  have count : difficulty.toNat ≠ 0 := fun zero => positive (UInt8.toNat_inj.mp zero)
  obtain ⟨fewer, more⟩ := Nat.exists_eq_succ_of_ne_zero count
  simp [startsWith, target, more, List.replicate_succ]

end Texts

section Genesis

variable (hashAt : Nat → String) (difficulty : UInt8)

/-- Within its limit the search ends one past the nonce it hashed; beyond it,
at a nonce that it has seen fail. -/
theorem genesis_search_ends (fuel nonce : Nat) (finalHash : String)
    (budget : nonce + fuel = genesisNonceLimit + 1) (within : nonce ≤ genesisNonceLimit)
    (unhashed : nonce = 0 → startsWith finalHash (target difficulty) = false)
    (hashed : ∀ last, nonce = last + 1 → finalHash = hashAt last)
    (failed : ∀ earlier, earlier + 1 < nonce →
      startsWith (hashAt earlier) (target difficulty) = false) :
    (∃ tried, genesisSearch hashAt difficulty fuel nonce finalHash =
        (tried + 1, hashAt tried)) ∨
    (genesisSearch hashAt difficulty fuel nonce finalHash =
        (genesisFallbackNonce, hashAt genesisFallbackNonce) ∧
      startsWith (hashAt genesisFallbackNonce) (target difficulty) = false) := by
  have limit : genesisNonceLimit = 10000000 := rfl
  have fallback : genesisFallbackNonce = 12345 := rfl
  induction fuel generalizing nonce finalHash with
  | zero => omega
  | succ fuel ih =>
    unfold genesisSearch
    cases fits : startsWith finalHash (target difficulty) with
    | true =>
      cases nonce with
      | zero => exact absurd fits (by rw [unhashed rfl]; exact Bool.false_ne_true)
      | succ last =>
        rw [if_pos rfl, hashed last rfl]
        exact Or.inl ⟨last, rfl⟩
    | false =>
      -- The test that failed was of the last nonce, so all have failed now.
      have allFailed : ∀ earlier, earlier < nonce →
          startsWith (hashAt earlier) (target difficulty) = false := by
        intro earlier before
        by_cases isLast : nonce = earlier + 1
        · rw [← hashed earlier isLast]
          exact fits
        · exact failed earlier (by omega)
      rw [if_neg Bool.false_ne_true]
      split
      · exact Or.inr ⟨rfl, allFailed _ (by omega)⟩
      · exact ih (nonce + 1) (hashAt nonce) (by omega) (by omega) (fun zero => by omega)
          (fun last same => by rw [Nat.succ.inj same])
          (fun earlier before => allFailed earlier (by omega))

variable (crypto : Crypto) (genesisTx : Transaction)

theorem genesis_hash_cases :
    (genesisBlock crypto genesisTx difficulty).hash = "" ∨
    (∃ tried, (genesisBlock crypto genesisTx difficulty).nonce = tried + 1 ∧
      (genesisBlock crypto genesisTx difficulty).hash =
        crypto.hashText (genesisHeader crypto genesisTx tried)) ∨
    startsWith (genesisBlock crypto genesisTx difficulty).hash
      (target difficulty) = false := by
  by_cases zero : difficulty = 0
  · subst zero
    exact Or.inl rfl
  · rcases genesis_search_ends
      (fun nonce => crypto.hashText
        (genesisHeader crypto genesisTx (UInt64.ofNat nonce)))
      difficulty (genesisNonceLimit + 1) 0 "" (Nat.zero_add _) (Nat.zero_le _)
      (fun _ => nothing_starts difficulty zero) (fun last impossible => by omega)
      (fun earlier impossible => by omega) with ⟨tried, ends⟩ | ⟨ends, misses⟩
    · refine Or.inr (Or.inl ⟨UInt64.ofNat tried, ?_, ?_⟩)
      · rw [genesisBlock, ends]
        exact UInt64.ofNat_add tried 1
      · rw [genesisBlock, ends]
    · refine Or.inr (Or.inr ?_)
      rw [genesisBlock, ends]
      exact misses

/-- The genesis block fails its own check unless the header texts of two
successive nonces collide. -/
theorem genesis_invalid (uncollided : GenesisUncollided crypto genesisTx difficulty) :
    (genesisBlock crypto genesisTx difficulty).isValid crypto = false := by
  rw [Bool.eq_false_iff]
  intro valid
  simp only [Block.isValid, Bool.and_eq_true, beq_iff_eq] at valid
  obtain ⟨⟨rehashed, fits⟩, _⟩ := valid
  change _ = crypto.hashText (genesisHeader crypto genesisTx _) at rehashed
  rcases genesis_hash_cases difficulty crypto genesisTx with
    missing | ⟨tried, stored, hashed⟩ | misses
  · rw [missing] at rehashed
    exact hash_text_ne_empty _ rehashed.symm
  · rw [hashed, stored] at rehashed
    rw [GenesisUncollided, stored, add_sub_cancel_right] at uncollided
    have sameText := uncollided (hash_bytes_injective (hex_encode_injective rehashed.symm))
    unfold genesisHeader headerText at sameText
    rw [String.append_left_inj, String.append_right_inj] at sameText
    have sameNonce := decimal_injective sameText
    rw [add_eq_left] at sameNonce
    exact absurd sameNonce (by decide)
  · change startsWith _ (target difficulty) = true at fits
    rw [misses] at fits
    cases fits

end Genesis

variable (crypto : Crypto)

theorem apply_call_first (ledger : Blockchain) (call : Call) (first : Block) (rest : List Block)
    (starts : ledger.chain = first :: rest) :
    ∃ more, (applyCall crypto ledger call).chain = first :: more := by
  rcases @apply_call_cases crypto ledger call with unchanged | ⟨_, mined, appended, _⟩
  · exact ⟨rest, by rw [unchanged, starts]⟩
  · exact ⟨rest ++ [mined], by rw [appended, starts]; rfl⟩

theorem run_first (calls : List Call) (ledger : Blockchain) (first : Block) (rest : List Block)
    (starts : ledger.chain = first :: rest) :
    ∃ more, (calls.foldl (applyCall crypto) ledger).chain = first :: more := by
  induction calls generalizing ledger rest with
  | nil => exact ⟨rest, starts⟩
  | cons call calls ih =>
    obtain ⟨more, next⟩ := apply_call_first crypto ledger call first rest starts
    exact ih (applyCall crypto ledger call) more next

theorem started_chain_invalid {ledger : Blockchain} {id : String} {now : UInt64}
    {difficulty : UInt8} {more : List Block}
    (starts : ledger.chain =
      genesisBlock crypto (genesisTransaction id now) difficulty :: more)
    (uncollided : GenesisUncollided crypto (genesisTransaction id now) difficulty) :
    ledger.isChainValid crypto = false := by
  have invalid := genesis_invalid difficulty crypto (genesisTransaction id now)
    uncollided
  rw [isChainValid, starts]
  change (_ && _) = false
  rw [invalid, Bool.false_and]

/-- No chain a node builds from its own genesis block passes `is_chain_valid`. -/
theorem built_chain_invalid (id : String) (now : UInt64) (difficulty : UInt8)
    (calls : List Call)
    (uncollided : GenesisUncollided crypto (genesisTransaction id now) difficulty) :
    (calls.foldl (applyCall crypto) (new crypto id now difficulty)).isChainValid
      crypto = false := by
  obtain ⟨more, starts⟩ := run_first crypto calls (new crypto id now difficulty) _ []
    rfl
  exact started_chain_invalid crypto starts uncollided

def sampleId : String := "00000000-0000-4000-8000-000000000034"

def sampleRoot : String := "47bde3fe90894a9afa597a60e6ae7e1ede71ea95fb8babab527dfcc71787a314"

def digestOf (text : String) : Hash32 :=
  Vector.ofFn fun place => ((hexDecode text).getD []).getD place 0

/-- SHA-256 on the texts hashed for the sample: the genesis transaction and the
headers with nonce 0 and nonce 1. -/
def recordedCrypto : Crypto :=
  { keyDecodes := fun _ => true
    verify := fun _ _ _ => false
    sha256 := fun data =>
      if data = utf8 (genesisTransaction sampleId 1700000000).hashedText then
        digestOf sampleRoot
      else if data = utf8 (headerText 0 genesisTimestamp sampleRoot "0" 0 1) then
        digestOf "05a5b53cdbebfd697190a22ceed9362abd4ac64f79fce5681d771b28c7194fab"
      else digestOf "a2764459407f84cd7539ea791914115abe31639a7215a216ec7b5a6ba805a137"
    mldsaKeyDecodes := fun _ => true
    mldsaSignatureDecodes := fun _ => true
    mldsaVerify := fun _ _ _ => false }

theorem sample_uncollided : GenesisUncollided recordedCrypto
    (genesisTransaction sampleId 1700000000) 1 := by
  intro same
  exact absurd same (by decide +kernel)

theorem sample_chain_invalid :
    (new recordedCrypto sampleId 1700000000 1).isChainValid recordedCrypto = false :=
  built_chain_invalid recordedCrypto sampleId 1700000000 1 [] sample_uncollided

/-- At difficulty 1 nonce 0 fits and nonce 1 is stored beside its hash. -/
theorem fresh_chain_rejected :
    ¬ ∀ (crypto : Crypto) (id : String) (now : UInt64) (difficulty : UInt8),
      GenesisUncollided crypto (genesisTransaction id now) difficulty →
      (new crypto id now difficulty).isChainValid crypto = true := by
  intro accepted
  have valid := accepted recordedCrypto sampleId 1700000000 1 sample_uncollided
  rw [started_chain_invalid recordedCrypto rfl sample_uncollided] at valid
  cases valid

section MerkleRoots

/-- What one level of the tree hashes. -/
def levelInputs : List String → List String
  | left :: right :: rest => (left ++ right) :: levelInputs rest
  | _ => []

variable (crypto : Crypto)

def treeInputs : Nat → List String → List String
  | 0, _ => []
  | fuel + 1, hashes =>
    if 1 < hashes.length then levelInputs hashes ++ treeInputs fuel (merkleLevel crypto hashes)
    else []

def merkleInputs (transactions : List Transaction) : List String :=
  let hashes := transactions.map (Transaction.calculateHash crypto)
  treeInputs crypto hashes.length hashes

variable {crypto} {lefts rights : List String}

theorem level_inputs_length (wide : ∀ hash ∈ lefts, hash.length = 64) :
    ∀ input ∈ levelInputs lefts, input.length = 128 := by
  fun_induction levelInputs lefts with
  | case1 left right rest ih =>
    simp only [List.forall_mem_cons] at wide ⊢
    exact ⟨by rw [String.length_append, wide.1, wide.2.1], ih wide.2.2⟩
  | case2 => simp

theorem merkle_level_wide (wide : ∀ hash ∈ lefts, hash.length = 64) :
    ∀ hash ∈ merkleLevel crypto lefts, hash.length = 64 := by
  fun_induction merkleLevel crypto lefts with
  | case1 left right rest ih =>
    simp only [List.forall_mem_cons] at wide ⊢
    exact ⟨hash_text_length _, ih wide.2.2⟩
  | case2 => exact wide

theorem tree_inputs_length (fuel : Nat) (wide : ∀ hash ∈ lefts, hash.length = 64) :
    ∀ input ∈ treeInputs crypto fuel lefts, input.length = 128 := by
  induction fuel generalizing lefts with
  | zero => simp [treeInputs]
  | succ fuel ih =>
    unfold treeInputs
    split
    · exact List.forall_mem_append.mpr ⟨level_inputs_length wide, ih (merkle_level_wide wide)⟩
    · simp

/-- One level is determined by the one above it. -/
theorem merkle_level_inj
    (free : CollisionFree crypto.hashText (levelInputs lefts ++ levelInputs rights))
    (length : lefts.length = rights.length) (wide : ∀ hash ∈ lefts, hash.length = 64)
    (other : ∀ hash ∈ rights, hash.length = 64)
    (same : merkleLevel crypto lefts = merkleLevel crypto rights) : lefts = rights := by
  fun_induction merkleLevel crypto lefts generalizing rights with
  | case1 left right rest ih =>
    rcases rights with _ | ⟨left', _ | ⟨right', rest'⟩⟩
    · cases length
    · cases length
    · simp only [List.forall_mem_cons] at wide other
      obtain ⟨here, above⟩ := List.cons.inj same
      obtain ⟨rfl, rfl⟩ := text_append_inj (free.heads here) (.inl (wide.1.trans other.1.symm))
      rw [ih free.tails (by simpa using length) wide.2.2 other.2.2 above]
  | case2 rest small =>
    rcases rights with _ | ⟨left', _ | ⟨right', rest'⟩⟩
    · exact same
    · exact same
    · obtain ⟨left, right, rest, rfl⟩ : ∃ left right more, rest = left :: right :: more := by
        rcases rest with _ | ⟨left, _ | ⟨right, more⟩⟩
        · cases length
        · cases length
        · exact ⟨left, right, more, rfl⟩
      exact absurd rfl (small left right rest)

theorem single_of_head (short : lefts.length ≤ 1) (length : lefts.length = rights.length)
    (same : lefts.head?.getD "" = rights.head?.getD "") : lefts = rights := by
  rcases lefts with _ | ⟨only, _ | ⟨next, rest⟩⟩
  · exact (List.length_eq_zero_iff.mp length.symm).symm
  · obtain ⟨single, rfl⟩ := List.length_eq_one_iff.mp length.symm
    exact congrArg ([·]) same
  · simp at short

theorem merkle_levels_inj (fuel : Nat) (enough : lefts.length ≤ fuel + 1)
    (free : CollisionFree crypto.hashText
      (treeInputs crypto fuel lefts ++ treeInputs crypto fuel rights))
    (length : lefts.length = rights.length) (wide : ∀ hash ∈ lefts, hash.length = 64)
    (other : ∀ hash ∈ rights, hash.length = 64)
    (same : (merkleLevels crypto fuel lefts).head?.getD "" =
      (merkleLevels crypto fuel rights).head?.getD "") : lefts = rights := by
  induction fuel generalizing lefts rights with
  | zero => exact single_of_head enough length same
  | succ fuel ih =>
    unfold merkleLevels at same
    unfold treeInputs at free
    rw [← length] at same free
    split at same
    · next several =>
      rw [if_pos several, if_pos several] at free
      have here : CollisionFree crypto.hashText (levelInputs lefts ++ levelInputs rights) :=
        fun one mem two mem' => free one (by grind) two (by grind)
      have above : CollisionFree crypto.hashText (treeInputs crypto fuel
          (merkleLevel crypto lefts) ++ treeInputs crypto fuel (merkleLevel crypto rights)) :=
        fun one mem two mem' => free one (by grind) two (by grind)
      apply merkle_level_inj here length wide other
      apply ih _ above _ (merkle_level_wide wide) (merkle_level_wide other) same
      · rw [merkle_level_length]
        omega
      · rw [merkle_level_length, merkle_level_length, length]
    · next single => exact single_of_head (Nat.not_lt.mp single) length same

end MerkleRoots

/-- At equal length the root binds the transactions' hashes, if no two of the
128-character texts hashed for the two roots collide. -/
theorem merkle_root_binds (crypto : Crypto) (left right : List Transaction)
    (length : left.length = right.length) :
    (∀ input ∈ merkleInputs crypto left ++ merkleInputs crypto right, input.length = 128) ∧
    (CollisionFree (fun text => crypto.sha256 (utf8 text))
        (merkleInputs crypto left ++ merkleInputs crypto right) →
      Block.calculateMerkleRoot crypto left = Block.calculateMerkleRoot crypto right →
      left.map (Transaction.calculateHash crypto) =
        right.map (Transaction.calculateHash crypto)) := by
  have wide : ∀ transactions : List Transaction,
      ∀ hash ∈ transactions.map (Transaction.calculateHash crypto), hash.length = 64 := by
    intro transactions hash member
    obtain ⟨tx, -, rfl⟩ := List.mem_map.mp member
    exact hash_text_length _
  have lengths : (left.map (Transaction.calculateHash crypto)).length =
      (right.map (Transaction.calculateHash crypto)).length := by
    rw [List.length_map, List.length_map, length]
  refine ⟨List.forall_mem_append.mpr ⟨tree_inputs_length _ (wide left),
    tree_inputs_length _ (wide right)⟩, fun free same => ?_⟩
  simp only [merkleInputs] at free
  simp only [Block.calculateMerkleRoot] at same
  rw [← lengths] at free same
  refine merkle_levels_inj _ (Nat.le_succ _) (fun one mem two mem' collide => ?_) lengths
    (wide left) (wide right) same
  exact free one mem two mem' (Vector.toList_inj.mp (hex_encode_injective collide))

def signedSample : Transaction :=
  { genesisTransaction sampleId 1700000000 with signature := "00" }

theorem signed_sample_bound :
    let left := [signedSample, signedSample]
    let right := [genesisTransaction sampleId 1700000000, signedSample]
    left ≠ right ∧ left.map (Transaction.calculateHash recordedCrypto) =
      right.map (Transaction.calculateHash recordedCrypto) :=
  ⟨by decide +kernel, (merkle_root_binds recordedCrypto _ _ rfl).2
    (by unfold CollisionFree; decide +kernel) (by decide +kernel)⟩

end CeruleanLedger.ChainValidity
