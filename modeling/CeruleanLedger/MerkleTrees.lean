import CeruleanLedger.InclusionProofs

/-!
The trees of `build_merkle_tree` against `verify_merkle_proof`. Every proof that the
builder returns is accepted. In the other direction, leaves and pairs of nodes are
hashed alike and the verifier does not know how high the tree is. A path of its height
leads to a leaf, a shorter one to a pair of nodes, and a longer one goes on below a
leaf that has the 64 bytes of a pair.
-/

namespace CeruleanLedger.MerkleTrees

open ByteCodec HashLinks InclusionProofs

variable (sha256 : Bytes → Hash32)

theorem pair_up_length (layer : List Hash32) :
    (pairUp sha256 layer).length = layer.length / 2 := by
  fun_induction pairUp with
  | case1 left right rest ih =>
    simp only [List.length_cons, ih]
    omega
  | case2 layer short =>
    rcases layer with _ | ⟨left, _ | ⟨right, rest⟩⟩
    · rfl
    · simp
    · exact absurd rfl (short left right rest)

theorem pair_up_get (layer : List Hash32) (index : Nat) (inside : 2 * index + 1 < layer.length) :
    (pairUp sha256 layer).getD index zeroHash =
      hashPair sha256 (layer.getD (2 * index) zeroHash) (layer.getD (2 * index + 1) zeroHash) := by
  induction index generalizing layer with
  | zero =>
    rcases layer with _ | ⟨left, _ | ⟨right, rest⟩⟩
    · simp at inside
    · simp at inside
    · rfl
  | succ index ih =>
    rcases layer with _ | ⟨left, _ | ⟨right, rest⟩⟩
    · simp at inside
    · simp at inside
    · simp only [List.length_cons] at inside
      exact ih rest (by omega)

theorem layers_from_cons (fuel : Nat) (layer : List Hash32) :
    ∃ above, layersFrom sha256 fuel layer = layer :: above := by
  cases fuel with
  | zero => exact ⟨[], rfl⟩
  | succ fuel =>
    unfold layersFrom
    split
    · exact ⟨[], rfl⟩
    · exact ⟨_, rfl⟩

def rootOf (layers : List (List Hash32)) : Hash32 := (layers.getLastD []).headD zeroHash

/-- The climb along the siblings of a node goes through its ancestors to the root. -/
theorem climb_siblings (depth fuel : Nat) (enough : depth ≤ fuel) (layer : List Hash32)
    (size : layer.length = 2 ^ depth) (index : Nat) (inside : index < 2 ^ depth)
    (small : index < 2 ^ 64) :
    climb sha256 (layer.getD index zeroHash) (UInt64.ofNat index)
        (siblings index (layersFrom sha256 fuel layer)) =
      rootOf (layersFrom sha256 fuel layer) := by
  induction depth generalizing fuel layer index with
  | zero =>
    obtain ⟨node, rfl⟩ := List.length_eq_one_iff.mp size
    obtain rfl : index = 0 := by omega
    cases fuel with
    | zero => rfl
    | succ fuel => rfl
  | succ depth ih =>
    cases fuel with
    | zero => omega
    | succ fuel =>
      have doubled : layer.length = 2 * 2 ^ depth := by rw [size, Nat.pow_succ, Nat.mul_comm]
      have positive := Nat.two_pow_pos depth
      have half : (pairUp sha256 layer).length = 2 ^ depth := by
        rw [pair_up_length]
        omega
      have several : ¬ layer.length ≤ 1 := by omega
      have parent := pair_up_get sha256 layer (index / 2) (by omega)
      have higher := ih fuel (by omega) (pairUp sha256 layer) half (index / 2) (by omega) (by omega)
      have halved : UInt64.ofNat index / 2 = UInt64.ofNat (index / 2) := by
        apply UInt64.toNat_inj.mp
        simp only [UInt64.toNat_div, UInt64.toNat_ofNat', UInt64.reduceToNat]
        omega
      have parity : UInt64.ofNat index % 2 = 0 ↔ index % 2 = 0 := by
        rw [← UInt64.toNat_inj]
        simp only [UInt64.toNat_mod, UInt64.toNat_ofNat', UInt64.reduceToNat]
        omega
      obtain ⟨above, shape⟩ := layers_from_cons sha256 fuel (pairUp sha256 layer)
      have topmost : rootOf (layer :: pairUp sha256 layer :: above) =
          rootOf (pairUp sha256 layer :: above) := rfl
      simp only [layersFrom, several, ↓reduceIte, shape, siblings, climb, halved, parity]
        at higher ⊢
      rw [topmost, ← higher, parent]
      split
      · next even =>
        have here : 2 * (index / 2) = index := by omega
        rw [here]
      · next odd =>
        have here : 2 * (index / 2) + 1 = index := by omega
        have before : 2 * (index / 2) = index - 1 := by omega
        rw [here, before]

theorem padded_length (leaves : List Bytes) :
    (paddedLeaves sha256 leaves).length = nextPowerOfTwo leaves.length ∧
      leaves.length ≤ nextPowerOfTwo leaves.length := by
  have enough : leaves.length ≤ nextPowerOfTwo leaves.length := by
    unfold nextPowerOfTwo
    split
    · assumption
    · have below := @Nat.lt_log2_self (leaves.length - 1)
      omega
  refine ⟨?_, enough⟩
  simp only [paddedLeaves, List.length_append, List.length_map, List.length_replicate]
  omega

/-- The number of levels above the leaves. -/
def height (leaves : List Bytes) : Nat := Nat.log2 (nextPowerOfTwo leaves.length)

theorem two_pow_height (leaves : List Bytes) :
    nextPowerOfTwo leaves.length = 2 ^ height leaves := by
  unfold height nextPowerOfTwo
  split
  · rfl
  · rw [Nat.log2_two_pow]

/-- Every leaf gets a proof of the common root that is accepted for it. A slice has
no more than `2 ^ 64` elements. -/
theorem merkle_proofs_complete (leaves : List Bytes) (nonempty : leaves ≠ [])
    (addressable : leaves.length ≤ 2 ^ 64) :
    ∃ root proofs, buildMerkleTree sha256 leaves = (some root, proofs) ∧
      proofs.length = leaves.length ∧
      ∀ (index : Nat) (leaf : Bytes) (proof : InclusionProof), leaves[index]? = some leaf →
        proofs[index]? = some proof →
          proof.root = root ∧ verifyMerkleProof sha256 leaf proof = true := by
  obtain ⟨padded, enough⟩ := padded_length sha256 leaves
  rw [two_pow_height] at padded enough
  refine ⟨_, _, if_neg nonempty, by simp, ?_⟩
  intro index leaf proof present proven
  obtain ⟨inside, here⟩ := List.getElem?_eq_some_iff.mp present
  simp only [List.getElem?_map, List.getElem?_range inside, Option.map_some,
    Option.some.injEq] at proven
  subst proven
  refine ⟨rfl, ?_⟩
  have climbed := climb_siblings sha256 (height leaves) (paddedLeaves sha256 leaves).length
    (padded ▸ Nat.lt_two_pow_self.le) (paddedLeaves sha256 leaves) padded index (by omega)
    (by omega)
  have start : (paddedLeaves sha256 leaves).getD index zeroHash = sha256 leaf := by
    rw [paddedLeaves, List.getD_append _ _ _ _ (by simpa using inside)]
    simp [List.getD_eq_getElem?_getD, present]
  rw [start] at climbed
  simpa [verifyMerkleProof, rootOf] using climbed

section Soundness

/-- What is hashed for the level above. -/
def pairsOf : List Hash32 → List Bytes
  | left :: right :: rest => (left.toList ++ right.toList) :: pairsOf rest
  | _ => []

def treeLevel (leaves : List Bytes) (level : Nat) : List Hash32 :=
  (pairUp sha256)^[level] (paddedLeaves sha256 leaves)

def treePairs (leaves : List Bytes) (level : Nat) : List Bytes :=
  pairsOf (treeLevel sha256 leaves level)

def treeInputs (leaves : List Bytes) : List Bytes :=
  leaves ++ (List.range (height leaves)).flatMap (treePairs sha256 leaves)

/-- SHA-256 is free of collisions, and of the hash that pads the tree, on the byte
strings that anybody knows. -/
structure Secure (known : Set Bytes) : Prop where
  free : Set.InjOn sha256 known
  nonzero : ∀ input ∈ known, sha256 input ≠ zeroHash

theorem secure_of_list {inputs : List Bytes} (free : CollisionFree sha256 inputs)
    (nonzero : ∀ input ∈ inputs, sha256 input ≠ zeroHash) :
    Secure sha256 {input | input ∈ inputs} :=
  ⟨fun left here right there => free left here right there, nonzero⟩

/-- A proof against the root of the tree, with a path of this length and of known
inputs, is accepted for the data. -/
def Accepted (known : Set Bytes) (leaves : List Bytes) (length : Nat) (data : Bytes) : Prop :=
  ∃ proof : InclusionProof, (buildMerkleTree sha256 leaves).1 = some proof.root ∧
    proof.merklePath.length = length ∧
    (∀ input ∈ verifyInputs sha256 data proof, input ∈ known) ∧
    verifyMerkleProof sha256 data proof = true

/-- The hash of the data is one half of a byte string of the size of a pair. -/
def ShowsHash (shown data : Bytes) : Prop :=
  shown.length = 64 ∧
    (shown.take 32 = (sha256 data).toList ∨ shown.drop 32 = (sha256 data).toList)
  deriving Decidable

variable {sha256}

section Pairs

variable {layer : List Hash32}

theorem pair_up_eq (layer : List Hash32) : pairUp sha256 layer = (pairsOf layer).map sha256 := by
  fun_induction pairUp with
  | case1 left right rest ih => rw [pairsOf, List.map_cons, ih, hashPair]
  | case2 layer short =>
    rcases layer with _ | ⟨left, _ | ⟨right, rest⟩⟩
    · rfl
    · rfl
    · exact absurd rfl (short left right rest)

theorem mem_pairs {pair : Bytes} (member : pair ∈ pairsOf layer) :
    ∃ left ∈ layer, ∃ right ∈ layer, pair = left.toList ++ right.toList := by
  fun_induction pairsOf with
  | case1 left right rest ih =>
    rcases List.mem_cons.mp member with rfl | later
    · exact ⟨left, by simp, right, by simp, rfl⟩
    · obtain ⟨first, here, second, there, same⟩ := ih later
      exact ⟨first, by simp [here], second, by simp [there], same⟩
  | case2 layer short => cases member

theorem shows_pair (data : Bytes) (index : UInt64) (sibling : Hash32) :
    ShowsHash sha256 (pairBytes index (sha256 data) sibling) data := by
  unfold ShowsHash pairBytes
  split
  · exact ⟨by simp, Or.inl (List.take_left' (by simp))⟩
  · exact ⟨by simp, Or.inr (List.drop_left' (by simp))⟩

/-- In a level without an odd one out every hash is shown by a pair. -/
theorem shown_in_level {data : Bytes} (even : layer.length % 2 = 0)
    (member : sha256 data ∈ layer) : ∃ pair ∈ pairsOf layer, ShowsHash sha256 pair data := by
  fun_induction pairsOf layer with
  | case1 left right rest ih =>
    simp only [List.length_cons] at even
    rcases List.mem_cons.mp member with same | later
    · exact ⟨_, List.mem_cons_self, same ▸ shows_pair data 0 right⟩
    rcases List.mem_cons.mp later with same | later
    · exact ⟨_, List.mem_cons_self, same ▸ shows_pair data 1 left⟩
    · obtain ⟨pair, paired, half⟩ := ih (by omega) later
      exact ⟨pair, List.mem_cons_of_mem _ paired, half⟩
  | case2 layer short =>
    rcases layer with _ | ⟨left, _ | ⟨right, rest⟩⟩
    · cases member
    · cases even
    · exact absurd rfl (short left right rest)

theorem hash_of_bytes (bytes : Bytes) (size : bytes.length = 32) :
    ∃ hash : Hash32, hash.toList = bytes :=
  ⟨⟨bytes.toArray, by simpa using size⟩, by simp [Vector.toList]⟩

/-- What shows a hash is a pair with it, below any index that can be doubled. -/
theorem shown_pair {shown data : Bytes} (half : ShowsHash sha256 shown data) (index : Nat)
    (small : index < 2 ^ 63) :
    ∃ side < 2, ∃ sibling, UInt64.ofNat (2 * index + side) / 2 = UInt64.ofNat index ∧
      pairBytes (UInt64.ofNat (2 * index + side)) (sha256 data) sibling = shown := by
  have halved : ∀ side < 2, UInt64.ofNat (2 * index + side) / 2 = UInt64.ofNat index ∧
      (UInt64.ofNat (2 * index + side) % 2 = 0 ↔ side = 0) := by
    intro side bit
    simp only [← UInt64.toNat_inj, UInt64.toNat_div, UInt64.toNat_mod, UInt64.toNat_ofNat',
      UInt64.reduceToNat]
    omega
  obtain ⟨size, first | second⟩ := half
  · obtain ⟨sibling, same⟩ := hash_of_bytes (shown.drop 32) (by simp [size])
    obtain ⟨above, parity⟩ := halved 0 (by omega)
    refine ⟨0, by omega, sibling, above, ?_⟩
    rw [pairBytes, if_pos (parity.mpr rfl), ← first, same, List.take_append_drop]
  · obtain ⟨sibling, same⟩ := hash_of_bytes (shown.take 32) (by simp [size])
    obtain ⟨above, parity⟩ := halved 1 (by omega)
    refine ⟨1, by omega, sibling, above, ?_⟩
    rw [pairBytes, if_neg fun even => absurd (parity.mp even) (by omega), ← second, same,
      List.take_append_drop]

end Pairs

section Tree

variable {known : Set Bytes} {leaves : List Bytes} {level length : Nat} {data : Bytes}

theorem tree_level_succ (leaves : List Bytes) (level : Nat) :
    treeLevel sha256 leaves (level + 1) = (treePairs sha256 leaves level).map sha256 := by
  rw [treeLevel, Function.iterate_succ_apply', pair_up_eq]
  rfl

theorem tree_level_length (leaves : List Bytes) (level : Nat) :
    (treeLevel sha256 leaves level).length = 2 ^ height leaves / 2 ^ level := by
  induction level with
  | zero =>
    rw [pow_zero, Nat.div_one, ← two_pow_height, ← (padded_length sha256 leaves).1]
    rfl
  | succ level ih =>
    rw [treeLevel, Function.iterate_succ_apply', pair_up_length, ← treeLevel, ih,
      Nat.div_div_eq_div_mul, ← pow_succ]

theorem tree_level_even (inside : level < height leaves) :
    (treeLevel sha256 leaves level).length % 2 = 0 := by
  obtain ⟨above, whole⟩ := Nat.exists_eq_add_of_lt inside
  rw [tree_level_length, Nat.pow_div (Nat.le_of_lt inside) Nat.two_pos, whole,
    Nat.add_assoc, Nat.add_sub_cancel_left, pow_succ, Nat.mul_mod_left]

theorem level_of_pair {pair : Bytes} (member : pair ∈ treePairs sha256 leaves level) :
    level < height leaves := by
  have some := List.length_pos_of_mem (List.mem_map.mpr ⟨pair, member, rfl⟩ :
    sha256 pair ∈ (treePairs sha256 leaves level).map sha256)
  rw [← tree_level_succ, tree_level_length] at some
  exact (Nat.pow_le_pow_iff_right Nat.one_lt_two).mp (Nat.div_pos_iff.mp some).2

theorem last_layer (depth fuel : Nat) (enough : depth ≤ fuel) (layer : List Hash32)
    (size : layer.length = 2 ^ depth) :
    (pairUp sha256)^[depth] layer = [rootOf (layersFrom sha256 fuel layer)] := by
  induction depth generalizing fuel layer with
  | zero =>
    obtain ⟨node, rfl⟩ := List.length_eq_one_iff.mp size
    cases fuel <;> rfl
  | succ depth ih =>
    obtain ⟨fuel, rfl⟩ := Nat.exists_eq_succ_of_ne_zero (Nat.ne_of_gt (Nat.zero_lt_of_lt enough))
    rw [Nat.pow_succ] at size
    have positive := Nat.two_pow_pos depth
    have several : ¬ layer.length ≤ 1 := by omega
    have half : (pairUp sha256 layer).length = 2 ^ depth := by
      rw [pair_up_length]
      omega
    obtain ⟨above, shape⟩ := layers_from_cons sha256 fuel (pairUp sha256 layer)
    rw [Function.iterate_succ_apply, ih fuel (by omega) _ half, layersFrom, if_neg several, shape]
    rfl

variable (sha256) in
theorem build_root (nonempty : leaves ≠ []) :
    ∃ root, (buildMerkleTree sha256 leaves).1 = some root ∧
      treeLevel sha256 leaves (height leaves) = [root] := by
  have padded := (padded_length sha256 leaves).1
  rw [two_pow_height] at padded
  refine ⟨_, ?_, last_layer (height leaves) (paddedLeaves sha256 leaves).length
    (padded ▸ Nat.lt_two_pow_self.le) (paddedLeaves sha256 leaves) padded⟩
  rw [buildMerkleTree, if_neg nonempty]
  rfl

/-- A path that does not use more bits of the index than it has steps. -/
def Leads (sha256 : Bytes → Hash32) (known : Set Bytes) (root : Hash32) (length : Nat)
    (data : Bytes) : Prop :=
  ∃ path index, path.length = length ∧ index < 2 ^ length ∧
    climb sha256 (sha256 data) (UInt64.ofNat index) path = root ∧
    ∀ input ∈ climbInputs sha256 (sha256 data) (UInt64.ofNat index) path, input ∈ known

theorem Leads.shown {root : Hash32} {shown : Bytes} (leads : Leads sha256 known root length shown)
    (short : length < 64) (listed : shown ∈ known) (half : ShowsHash sha256 shown data) :
    Leads sha256 known root (length + 1) data := by
  obtain ⟨path, index, long, placed, climbed, inputs⟩ := leads
  have few : 2 ^ length ≤ 2 ^ 63 := Nat.pow_le_pow_right Nat.two_pos (by omega)
  obtain ⟨side, bit, sibling, halved, same⟩ := shown_pair half index (by omega)
  refine ⟨sibling :: path, 2 * index + side, congrArg Nat.succ long, by omega, ?_, ?_⟩
  · rw [climb_cons, same, halved, climbed]
  · rw [climbInputs, same, halved]
    exact List.forall_mem_cons.mpr ⟨listed, inputs⟩

theorem Leads.accepted {root : Hash32} (leads : Leads sha256 known root length data)
    (built : (buildMerkleTree sha256 leaves).1 = some root) (listed : data ∈ known) :
    Accepted sha256 known leaves length data := by
  obtain ⟨path, index, long, -, climbed, inputs⟩ := leads
  refine ⟨⟨path, UInt64.ofNat index, root, zeroHash, 0⟩, built, long, ?_, ?_⟩
  · exact List.forall_mem_cons.mpr ⟨listed, inputs⟩
  · rw [verifyMerkleProof, beq_iff_eq]
    exact climbed

variable (secure : Secure sha256 known)
  (covered : ∀ input ∈ treeInputs sha256 leaves, input ∈ known)

include covered in
theorem pair_known {pair : Bytes} (member : pair ∈ treePairs sha256 leaves level) :
    pair ∈ known :=
  covered pair (List.mem_append_right _
    (List.mem_flatMap.mpr ⟨level, List.mem_range.mpr (level_of_pair member), member⟩))

include covered in
/-- Up from a node, through the pairs that show it, there is a path to the root. -/
theorem node_leads {root : Hash32} (low : height leaves ≤ 64)
    (top : treeLevel sha256 leaves (height leaves) = [root])
    (total : level + length = height leaves)
    (member : sha256 data ∈ treeLevel sha256 leaves level) :
    Leads sha256 known root length data := by
  induction length generalizing level data with
  | zero =>
    rw [Nat.add_zero] at total
    rw [total, top] at member
    exact ⟨[], 0, rfl, by omega, List.mem_singleton.mp member, fun _ none => by cases none⟩
  | succ length ih =>
    obtain ⟨pair, paired, half⟩ := shown_in_level (tree_level_even (by omega)) member
    have above : sha256 pair ∈ treeLevel sha256 leaves (level + 1) := by
      rw [tree_level_succ]
      exact List.mem_map.mpr ⟨pair, paired, rfl⟩
    exact (ih (by omega) above).shown (by omega) (pair_known covered paired) half

include secure covered

/-- What hashes to a node above the leaves is the pair below it. -/
theorem pair_of_parent (listed : data ∈ known)
    (present : sha256 data ∈ treeLevel sha256 leaves (level + 1)) :
    data ∈ treePairs sha256 leaves level := by
  rw [tree_level_succ] at present
  obtain ⟨pair, member, same⟩ := List.mem_map.mp present
  exact secure.free (pair_known covered member) listed same ▸ member

theorem leaf_of_bottom (listed : data ∈ known)
    (present : sha256 data ∈ treeLevel sha256 leaves 0) : data ∈ leaves := by
  rcases List.mem_append.mp present with hashed | padding
  · obtain ⟨leaf, member, same⟩ := List.mem_map.mp hashed
    have leafKnown := covered leaf (List.mem_append_left _ member)
    exact secure.free leafKnown listed same ▸ member
  · exact absurd (List.eq_of_mem_replicate padding) (secure.nonzero data listed)

/-- A climb that ends in some level has started as many levels below as it has
steps: the pairs on its way are those of the tree. -/
theorem climb_level (path : List Hash32) (hash : Hash32) (index : UInt64) (level : Nat)
    (listed : ∀ input ∈ climbInputs sha256 hash index path, input ∈ known)
    (reached : climb sha256 hash index path ∈ treeLevel sha256 leaves (level + path.length)) :
    hash ∈ treeLevel sha256 leaves level := by
  induction path generalizing hash index level with
  | nil => exact reached
  | cons sibling rest ih =>
    obtain ⟨own, later⟩ := List.forall_mem_cons.mp listed
    rw [climb_cons, List.length_cons, ← Nat.add_assoc, Nat.add_right_comm] at reached
    have parent := ih _ _ (level + 1) later reached
    obtain ⟨left, here, right, there, same⟩ :=
      mem_pairs (pair_of_parent secure covered own parent)
    unfold pairBytes at same
    split at same
    · exact hash_bytes_injective (List.append_inj_left same (by simp)) ▸ here
    · exact hash_bytes_injective (List.append_inj_right same (by simp)) ▸ there

theorem accepted_iff_node (nonempty : leaves ≠ []) (low : height leaves ≤ 64)
    (total : level + length = height leaves) :
    Accepted sha256 known leaves length data ↔
      data ∈ known ∧ sha256 data ∈ treeLevel sha256 leaves level := by
  obtain ⟨root, built, top⟩ := build_root sha256 nonempty
  constructor
  · rintro ⟨proof, same, long, listed, verified⟩
    obtain ⟨own, later⟩ := List.forall_mem_cons.mp listed
    rw [verifyMerkleProof, beq_iff_eq] at verified
    refine ⟨own, climb_level secure covered proof.merklePath _ proof.leafIndex level later ?_⟩
    rw [long, total, top, verified, List.mem_singleton]
    exact Option.some.inj (same.symm.trans built)
  · rintro ⟨own, node⟩
    exact (node_leads covered low top total node).accepted built own

theorem accepted_leaf_iff (nonempty : leaves ≠ []) (low : height leaves ≤ 64) :
    Accepted sha256 known leaves (height leaves) data ↔ data ∈ leaves := by
  rw [accepted_iff_node secure covered nonempty low (Nat.zero_add _)]
  constructor
  · rintro ⟨own, bottom⟩
    exact leaf_of_bottom secure covered own bottom
  · intro member
    exact ⟨covered data (List.mem_append_left _ member),
      List.mem_append_left _ (List.mem_map.mpr ⟨data, member, rfl⟩)⟩

theorem accepted_pair_iff (nonempty : leaves ≠ []) (low : height leaves ≤ 64)
    (inside : level < height leaves) :
    Accepted sha256 known leaves (height leaves - (level + 1)) data ↔
      data ∈ treePairs sha256 leaves level := by
  rw [accepted_iff_node secure covered nonempty low (Nat.add_sub_of_le inside)]
  constructor
  · rintro ⟨own, parent⟩
    exact pair_of_parent secure covered own parent
  · intro member
    rw [tree_level_succ]
    exact ⟨pair_known covered member, List.mem_map.mpr ⟨data, member, rfl⟩⟩

omit secure in
/-- What a leaf shows is accepted with a path one step longer than the tree is high. -/
theorem accepted_of_shown {leaf : Bytes} (nonempty : leaves ≠ []) (low : height leaves < 64)
    (member : leaf ∈ leaves) (listed : data ∈ known) (half : ShowsHash sha256 leaf data) :
    Accepted sha256 known leaves (height leaves + 1) data := by
  obtain ⟨root, built, top⟩ := build_root sha256 nonempty
  have leads := node_leads covered low.le top (Nat.zero_add _)
    (List.mem_append_left _ (List.mem_map.mpr ⟨leaf, member, rfl⟩))
  exact (leads.shown low (covered leaf (List.mem_append_left _ member)) half).accepted built listed

omit secure covered in
theorem shown_of_longer (accepted : Accepted sha256 known leaves (length + 1) data) :
    data ∈ known ∧ ∃ shown, Accepted sha256 known leaves length shown ∧
      ShowsHash sha256 shown data := by
  obtain ⟨⟨path, index, root, blockHash, blockHeight⟩, built, long, listed, verified⟩ := accepted
  cases path with
  | nil => cases long
  | cons sibling rest =>
    obtain ⟨own, later⟩ := List.forall_mem_cons.mp listed
    rw [verifyMerkleProof, climb_cons] at verified
    exact ⟨own, pairBytes index (sha256 data) sibling,
      ⟨⟨rest, index / 2, root, blockHash, blockHeight⟩, built, Nat.succ.inj long, later, verified⟩,
      shows_pair data index sibling⟩

end Tree

end Soundness

theorem height_le {leaves : List Bytes} {bits : Nat} (addressable : leaves.length ≤ 2 ^ bits) :
    height leaves ≤ bits := by
  unfold height nextPowerOfTwo
  split
  · exact Nat.zero_le bits
  · rw [Nat.log2_two_pow]
    exact (Nat.log2_lt (by omega)).mpr (by omega)

/-- A path of the tree's height is accepted for the leaves, a shorter one for the pairs
of nodes at its level, and a longer one for what is shown by something that the rest
of the path is accepted for. So accepted data is always a leaf exactly when every pair
is one and leaves show nothing else. -/
theorem merkle_proof_sound_iff (leaves : List Bytes) (nonempty : leaves ≠ [])
    (addressable : leaves.length ≤ 2 ^ 63) (known : Set Bytes) (secure : Secure sha256 known)
    (covered : ∀ input ∈ treeInputs sha256 leaves, input ∈ known) :
    (∀ data, Accepted sha256 known leaves (height leaves) data ↔ data ∈ leaves) ∧
    (∀ level < height leaves, ∀ data,
      Accepted sha256 known leaves (height leaves - (level + 1)) data ↔
        data ∈ treePairs sha256 leaves level) ∧
    (∀ length data, Accepted sha256 known leaves (length + 1) data →
      ∃ shown, Accepted sha256 known leaves length shown ∧ ShowsHash sha256 shown data) ∧
    ((∀ length data, Accepted sha256 known leaves length data → data ∈ leaves) ↔
      (∀ level < height leaves, ∀ pair ∈ treePairs sha256 leaves level, pair ∈ leaves) ∧
      ∀ leaf ∈ leaves, ∀ data ∈ known, ShowsHash sha256 leaf data → data ∈ leaves) := by
  have low : height leaves ≤ 63 := height_le addressable
  have exactly : ∀ data, Accepted sha256 known leaves (height leaves) data ↔ data ∈ leaves :=
    fun data => accepted_leaf_iff secure covered nonempty (by omega)
  have shorter : ∀ level < height leaves, ∀ data,
      Accepted sha256 known leaves (height leaves - (level + 1)) data ↔
        data ∈ treePairs sha256 leaves level :=
    fun level inside data => accepted_pair_iff secure covered nonempty (by omega) inside
  refine ⟨exactly, shorter, fun length data accepted => (shown_of_longer accepted).2, ?_, ?_⟩
  · intro sound
    constructor
    · intro level inside pair member
      exact sound _ pair ((shorter level inside pair).mpr member)
    · intro leaf member data listed half
      exact sound _ data (accepted_of_shown covered nonempty (by omega) member listed half)
  · rintro ⟨pairs, shown⟩ length
    by_cases short : length < height leaves
    · intro data accepted
      have level : height leaves - (height leaves - (length + 1) + 1) = length := by omega
      rw [← level] at accepted
      exact pairs _ (by omega) data ((shorter _ (by omega) data).mp accepted)
    · -- Down from the leaf that a longer path opens, everything shown is a leaf.
      obtain ⟨extra, rfl⟩ := Nat.exists_eq_add_of_le (Nat.le_of_not_lt short)
      clear short
      induction extra with
      | zero => exact fun data accepted => (exactly data).mp accepted
      | succ extra ih =>
        intro data accepted
        obtain ⟨own, leaf, opened, half⟩ := shown_of_longer accepted
        exact shown leaf (ih leaf opened) data own half

def shownHash (data : Bytes) : Hash32 := Vector.ofFn fun place => data.getD place 0 + 1

def twoLeaves : List Bytes := [[1], [2]]

theorem two_leaves_complete :
    ∃ root proofs, buildMerkleTree shownHash twoLeaves = (some root, proofs) ∧
      proofs.length = 2 := by
  obtain ⟨root, proofs, built, listed, _⟩ :=
    merkle_proofs_complete shownHash twoLeaves (by decide) (by decide)
  exact ⟨root, proofs, built, listed⟩

def pairSized : Bytes := List.replicate 64 0

/-- A tree of one leaf, of the size of a pair, that shows no known hash. -/
theorem sole_leaf_sound :
    (∀ data, Accepted shownHash {input | input ∈ [pairSized, [1]]} [pairSized] 0 data ↔
      data ∈ [pairSized]) ∧
    ∀ length data, Accepted shownHash {input | input ∈ [pairSized, [1]]} [pairSized] length data →
      data ∈ [pairSized] := by
  obtain ⟨exactly, -, -, always⟩ := merkle_proof_sound_iff shownHash [pairSized] (by decide)
    (by decide) {input | input ∈ [pairSized, [1]]}
    (secure_of_list shownHash (by decide +kernel) (by decide +kernel))
    (by decide +kernel)
  have shown : ∀ leaf ∈ [pairSized], ∀ data ∈ [pairSized, [1]],
      ShowsHash shownHash leaf data → data ∈ [pairSized] := by decide +kernel
  exact ⟨exactly, always.mpr ⟨by decide +kernel, shown⟩⟩

/-- A pair of nodes passes for a leaf, and what a leaf of 64 bytes shows does, too. -/
theorem foreign_data_accepted :
    let pair := (shownHash [1]).toList ++ (shownHash [2]).toList
    let short : InclusionProof := ⟨[], 0, shownHash pair, zeroHash, 0⟩
    let long : InclusionProof := ⟨[shownHash [2]], 0, shownHash pair, zeroHash, 0⟩
    ((buildMerkleTree shownHash twoLeaves).1 = some short.root ∧
      verifyMerkleProof shownHash pair short = true ∧ pair ∉ twoLeaves ∧
      Secure shownHash
        {input | input ∈ treeInputs shownHash twoLeaves ++ verifyInputs shownHash pair short}) ∧
    (buildMerkleTree shownHash [pair]).1 = some long.root ∧
      verifyMerkleProof shownHash [1] long = true ∧ [1] ∉ [pair] ∧
      Secure shownHash
        {input | input ∈ treeInputs shownHash [pair] ++ verifyInputs shownHash [1] long} := by
  refine ⟨⟨by decide +kernel, by decide +kernel, by decide +kernel, ?_⟩, by decide +kernel,
    by decide +kernel, by decide +kernel, ?_⟩
  · exact secure_of_list shownHash (by decide +kernel) (by decide +kernel)
  · exact secure_of_list shownHash (by decide +kernel) (by decide +kernel)

end CeruleanLedger.MerkleTrees
