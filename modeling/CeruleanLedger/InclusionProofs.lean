import CeruleanLedger.ByteCodec
import CeruleanLedger.HashLinks

/-!
The Merkle inclusion proofs of `bridge/verifier.rs`. SHA-256 is a parameter. The
root that a proof is checked against is a field of the proof itself. A root and a
place in the tree determine the data of the leaf, unless two of the byte strings
hashed on the way up collide.
-/

namespace CeruleanLedger.InclusionProofs

open ByteCodec HashLinks

structure InclusionProof where
  merklePath : List Hash32
  leafIndex : UInt64
  root : Hash32
  blockHash : Hash32
  blockHeight : UInt64
  deriving DecidableEq

variable (sha256 : Bytes → Hash32)

def hashPair (left right : Hash32) : Hash32 := sha256 (left.toList ++ right.toList)

/-- The loop of `verify_merkle_proof`. -/
def climb (hash : Hash32) (index : UInt64) : List Hash32 → Hash32
  | [] => hash
  | sibling :: rest =>
    climb (if index % 2 = 0 then hashPair sha256 hash sibling else hashPair sha256 sibling hash)
      (index / 2) rest

def verifyMerkleProof (data : Bytes) (proof : InclusionProof) : Bool :=
  climb sha256 (sha256 data) proof.leafIndex proof.merklePath == proof.root

def nextPowerOfTwo (count : Nat) : Nat :=
  if count ≤ 1 then 1 else 2 ^ (Nat.log2 (count - 1) + 1)

/-- The level above. A layer of a padded tree has no odd one out. -/
def pairUp : List Hash32 → List Hash32
  | left :: right :: rest => hashPair sha256 left right :: pairUp rest
  | _ => []

/-- All layers from the leaves to the root; the fuel bounds their number. -/
def layersFrom : Nat → List Hash32 → List (List Hash32)
  | 0, layer => [layer]
  | fuel + 1, layer =>
    if layer.length ≤ 1 then [layer] else layer :: layersFrom fuel (pairUp sha256 layer)

/-- The siblings on the way up, one for each layer but the last. -/
def siblings (index : Nat) : List (List Hash32) → List Hash32
  | [] => []
  | [_] => []
  | layer :: above :: rest =>
    layer.getD (if index % 2 = 0 then index + 1 else index - 1) zeroHash ::
      siblings (index / 2) (above :: rest)

def paddedLeaves (leaves : List Bytes) : List Hash32 :=
  leaves.map sha256 ++ List.replicate (nextPowerOfTwo leaves.length - leaves.length) zeroHash

def buildMerkleTree (leaves : List Bytes) : Option Hash32 × List InclusionProof :=
  if leaves = [] then (none, [])
  else
    let layer := paddedLeaves sha256 leaves
    let layers := layersFrom sha256 layer.length layer
    let root := (layers.getLastD []).headD zeroHash
    (some root, (List.range leaves.length).map fun index =>
      ⟨siblings index layers, UInt64.ofNat index, root, zeroHash, 0⟩)

def soleProof (data : Bytes) : InclusionProof := ⟨[], 0, sha256 data, zeroHash, 0⟩

theorem build_single_leaf (data : Bytes) :
    buildMerkleTree sha256 [data] = (some (sha256 data), [soleProof sha256 data]) := by
  rfl

theorem sole_proof_verifies (data : Bytes) :
    verifyMerkleProof sha256 data (soleProof sha256 data) = true := by
  simp [verifyMerkleProof, soleProof, climb]

def pairBytes (index : UInt64) (hash sibling : Hash32) : Bytes :=
  if index % 2 = 0 then hash.toList ++ sibling.toList else sibling.toList ++ hash.toList

def climbInputs (hash : Hash32) (index : UInt64) : List Hash32 → List Bytes
  | [] => []
  | sibling :: rest =>
    pairBytes index hash sibling ::
      climbInputs (sha256 (pairBytes index hash sibling)) (index / 2) rest

def verifyInputs (data : Bytes) (proof : InclusionProof) : List Bytes :=
  data :: climbInputs sha256 (sha256 data) proof.leafIndex proof.merklePath

theorem climb_cons (hash sibling : Hash32) (index : UInt64) (rest : List Hash32) :
    climb sha256 hash index (sibling :: rest) =
      climb sha256 (sha256 (pairBytes index hash sibling)) (index / 2) rest := by
  rw [climb]
  unfold pairBytes hashPair
  split <;> rfl

theorem pair_bytes_inj {index : UInt64} {hash other sibling across : Hash32}
    (same : pairBytes index hash sibling = pairBytes index other across) :
    hash = other ∧ sibling = across := by
  unfold pairBytes at same
  split at same
  · obtain ⟨left, right⟩ := List.append_inj same (by simp)
    exact ⟨hash_bytes_injective left, hash_bytes_injective right⟩
  · obtain ⟨left, right⟩ := List.append_inj same (by simp)
    exact ⟨hash_bytes_injective right, hash_bytes_injective left⟩

variable {sha256}

/-- From equal roots down: the top pair agrees, so the nodes below it do. -/
theorem climb_binds (path others : List Hash32) (hash other : Hash32) (index : UInt64)
    (depth : path.length = others.length)
    (free : CollisionFree sha256
      (climbInputs sha256 hash index path ++ climbInputs sha256 other index others))
    (same : climb sha256 hash index path = climb sha256 other index others) :
    hash = other ∧ path = others := by
  induction path generalizing others hash other index with
  | nil =>
    rw [List.length_eq_zero_iff.mp depth.symm] at same ⊢
    exact ⟨same, rfl⟩
  | cons sibling rest ih =>
    cases others with
    | nil => contradiction
    | cons across above =>
      rw [climb_cons, climb_cons] at same
      unfold climbInputs at free
      obtain ⟨nodes, paths⟩ := ih above _ _ (index / 2) (Nat.succ.inj depth)
        free.tails same
      obtain ⟨hashes, siblings⟩ := pair_bytes_inj (free.heads nodes)
      exact ⟨hashes, by rw [siblings, paths]⟩

theorem verified_data_unique {data other : Bytes} {proof against : InclusionProof}
    (sameRoot : proof.root = against.root) (sameLeaf : proof.leafIndex = against.leafIndex)
    (sameDepth : proof.merklePath.length = against.merklePath.length)
    (free : CollisionFree sha256 (verifyInputs sha256 data proof ++
      verifyInputs sha256 other against))
    (verified : verifyMerkleProof sha256 data proof = true)
    (verifiedOther : verifyMerkleProof sha256 other against = true) : data = other := by
  unfold verifyMerkleProof at verified verifiedOther
  rw [beq_iff_eq] at verified verifiedOther
  unfold verifyInputs at free
  rw [← sameLeaf] at verifiedOther free
  have leaves := (climb_binds _ _ _ _ proof.leafIndex sameDepth free.tails
    (by rw [verified, verifiedOther, sameRoot])).1
  exact free.heads leaves

end CeruleanLedger.InclusionProofs
