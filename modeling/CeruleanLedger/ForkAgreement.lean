import CeruleanLedger.BlockAdmission
import CeruleanLedger.ForkChoice

/-!
The canonical chain as a function of the accepted blocks. A DAG built by
`add_block`, directly or through `accept_block`, mirrors the list of blocks in
order of arrival; which genesis the chain starts from is then the only thing
that two such DAGs with the same blocks can disagree about.
-/

namespace CeruleanLedger.ForkAgreement

open ByteCodec BlockDag BlockAdmission QuorumValidation ForestFold ForkChoice IterationOrder OrderedMap

def childHashes (blocks : List DagBlock) (hash : Hash32) : List Hash32 :=
  (blocks.filter fun block => !block.isGenesis && block.parentHash == hash).map DagBlock.hash

structure Mirrors (dag : Dag) (blocks : List DagBlock) : Prop where
  distinct : (blocks.map DagBlock.hash).Nodup
  stored : ∀ hash block, dag.getBlock hash = some block ↔ block ∈ blocks ∧ block.hash = hash
  children : ∀ hash, childrenOf dag hash = childHashes blocks hash
  size : dag.vertices.size = blocks.length
  parents : ∀ block ∈ blocks, block.isGenesis = false →
    block.parentHash ∈ blocks.map DagBlock.hash
  grounded : Grounded dag

theorem mem_child_hashes {blocks : List DagBlock} {hash child : Hash32} :
    child ∈ childHashes blocks hash ↔
      ∃ block ∈ blocks, block.isGenesis = false ∧ block.parentHash = hash ∧
        block.hash = child := by
  simp only [childHashes, List.mem_map, List.mem_filter, Bool.and_eq_true, Bool.not_eq_true',
    beq_iff_eq]
  constructor
  · rintro ⟨block, ⟨member, plain, parent⟩, same⟩
    exact ⟨block, member, plain, parent, same⟩
  · rintro ⟨block, member, plain, parent, same⟩
    exact ⟨block, ⟨member, plain, parent⟩, same⟩

theorem child_hashes_append (blocks : List DagBlock) (block : DagBlock) (hash : Hash32) :
    childHashes (blocks ++ [block]) hash =
      if block.isGenesis = false ∧ block.parentHash = hash then
        childHashes blocks hash ++ [block.hash]
      else childHashes blocks hash := by
  simp only [childHashes, List.filter_append, List.map_append]
  by_cases plain : block.isGenesis = false
  · by_cases parent : block.parentHash = hash
    · simp [plain, parent]
    · simp [parent]
  · simp [plain]

variable {dag after : Dag} {block : DagBlock} {blocks : List DagBlock}

section AddBlock

def linked (dag : Dag) (block : DagBlock) : Std.ExtTreeMap Hash32 DagVertex compareHash :=
  if block.isGenesis then dag.vertices.insert block.hash (DagVertex.new block)
  else (dag.vertices.insert block.hash (DagVertex.new block)).modify block.parentHash
    (·.addChild block.hash)

theorem add_block_ok (added : dag.addBlock block = .ok after) :
    block.hash ∉ dag.vertices ∧
      (block.isGenesis = false → block.parentHash ∈ dag.vertices) ∧
      after.vertices = linked dag block := by
  unfold Dag.addBlock at added
  split at added
  · cases added
  · rename_i fresh
    split at added
    · cases added
    · rename_i known
      cases added
      refine ⟨by simpa using fresh, ?_, rfl⟩
      intro plain
      simpa [plain] using known

theorem size_add_block (added : dag.addBlock block = .ok after) :
    after.vertices.size = dag.vertices.size + 1 := by
  obtain ⟨fresh, _, vertices⟩ := add_block_ok added
  rw [vertices, linked]
  split <;> simp [Std.ExtTreeMap.size_insert, Std.ExtTreeMap.size_modify, fresh]

theorem children_add_block (added : dag.addBlock block = .ok after)
    (unlinked : block.hash ∉ childrenOf dag block.parentHash) (hash : Hash32) :
    childrenOf after hash =
      if block.isGenesis = false ∧ block.parentHash = hash then
        childrenOf dag hash ++ [block.hash]
      else childrenOf dag hash := by
  obtain ⟨fresh, known, vertices⟩ := add_block_ok added
  have absent : dag.vertices[block.hash]? = none := Std.ExtTreeMap.getElem?_eq_none fresh
  -- A new vertex has no children, like a hash that is not in the DAG.
  have inserted : ((dag.vertices.insert block.hash (DagVertex.new block))[hash]?.map
      DagVertex.children).getD [] = (dag.vertices[hash]?.map DagVertex.children).getD [] := by
    rw [get_insert]
    split
    · rename_i same
      rw [← same, absent]
      rfl
    · rfl
  unfold childrenOf at unlinked ⊢
  rw [vertices, linked]
  by_cases plain : block.isGenesis = false
  · simp only [plain, Bool.false_eq_true, ↓reduceIte, true_and, get_modify]
    by_cases parent : block.parentHash = hash
    · subst parent
      -- The parent is in the DAG and the block is not.
      have elsewhere : block.hash ≠ block.parentHash := by
        intro same
        exact fresh (same ▸ known plain)
      rw [if_pos rfl, if_pos rfl, get_insert, if_neg elsewhere]
      cases found : dag.vertices[block.parentHash]? with
      | none => simp [Std.ExtTreeMap.getElem?_eq_some_getElem (known plain)] at found
      | some vertex =>
        have outside : block.hash ∉ vertex.children := by simpa [found] using unlinked
        simp [DagVertex.addChild, outside]
    · rw [if_neg parent, if_neg parent]
      exact inserted
  · have genesis : block.isGenesis = true := by simpa using plain
    simp only [genesis, Bool.true_eq_false, ↓reduceIte, false_and]
    exact inserted

end AddBlock

namespace Mirrors

theorem mem_vertices (mirrors : Mirrors dag blocks) (hash : Hash32) :
    hash ∈ dag.vertices ↔ hash ∈ blocks.map DagBlock.hash := by
  constructor
  · intro known
    obtain ⟨vertex, found⟩ := Option.isSome_iff_exists.mp
      (Std.ExtTreeMap.isSome_getElem?_iff_mem.mpr known)
    have stored := (mirrors.stored hash vertex.block).mp (by rw [Dag.getBlock, found]; rfl)
    exact List.mem_map.mpr ⟨vertex.block, stored⟩
  · intro member
    obtain ⟨block, listed⟩ := List.mem_map.mp member
    have stored := (mirrors.stored hash block).mpr listed
    rw [Dag.getBlock, Option.map_eq_some_iff] at stored
    obtain ⟨vertex, found, _⟩ := stored
    exact Std.ExtTreeMap.isSome_getElem?_iff_mem.mp (by rw [found]; rfl)

theorem child_known (mirrors : Mirrors dag blocks) {hash child : Hash32}
    (member : child ∈ childrenOf dag hash) :
    child ∈ blocks.map DagBlock.hash ∧ hash ∈ blocks.map DagBlock.hash := by
  rw [mirrors.children, mem_child_hashes] at member
  obtain ⟨block, listed, plain, parent, same⟩ := member
  constructor
  · exact List.mem_map.mpr ⟨block, listed, same⟩
  · rw [← parent]
    exact mirrors.parents block listed plain

theorem start : Mirrors Dag.new [] where
  distinct := List.nodup_nil
  stored := by
    intro hash block
    simp [Dag.getBlock, Dag.new]
  children := by
    intro hash
    simp [childrenOf, childHashes, Dag.new]
  size := by simp [Dag.new]
  parents := by
    intro block member
    cases member
  grounded := by
    refine ⟨fun _ => 0, ?_, fun _ => Nat.zero_le _⟩
    intro hash child member
    simp [childrenOf, Dag.new] at member

/-- The new block is a leaf, so every other rank can move up by one. -/
theorem grounded_step (mirrors : Mirrors dag blocks) (added : dag.addBlock block = .ok after)
    (fresh : block.hash ∉ blocks.map DagBlock.hash)
    (children : ∀ hash, childrenOf after hash = childHashes (blocks ++ [block]) hash) :
    Grounded after := by
  obtain ⟨rank, ranked, bounded⟩ := mirrors.grounded
  refine ⟨fun hash => if hash = block.hash then 0 else rank hash + 1, ?_, ?_⟩
  · intro hash child member
    rw [children, child_hashes_append, ← mirrors.children] at member
    have old : child ∈ childrenOf dag hash →
        (if child = block.hash then 0 else rank child + 1) <
          if hash = block.hash then 0 else rank hash + 1 := by
      intro inside
      obtain ⟨childKnown, hashKnown⟩ := mirrors.child_known inside
      have childOther : child ≠ block.hash := fun same => fresh (same ▸ childKnown)
      have hashOther : hash ≠ block.hash := fun same => fresh (same ▸ hashKnown)
      rw [if_neg childOther, if_neg hashOther]
      exact Nat.succ_lt_succ (ranked hash child inside)
    split at member
    · rename_i linkedHere
      rcases List.mem_append.mp member with inside | last
      · exact old inside
      · rw [List.mem_singleton] at last
        have hashOther : hash ≠ block.hash := by
          intro same
          have known := (add_block_ok added).2.1 linkedHere.1
          rw [linkedHere.2, same, mirrors.mem_vertices] at known
          exact fresh known
        dsimp only
        rw [if_pos last, if_neg hashOther]
        exact Nat.succ_pos _
    · exact old member
  · intro hash
    rw [size_add_block added]
    dsimp only
    split
    · exact Nat.zero_le _
    · exact Nat.succ_le_succ (bounded hash)

theorem step (mirrors : Mirrors dag blocks) (added : dag.addBlock block = .ok after) :
    Mirrors after (blocks ++ [block]) := by
  have fresh : block.hash ∉ blocks.map DagBlock.hash := by
    rw [← mirrors.mem_vertices]
    exact (add_block_ok added).1
  have unlinked : block.hash ∉ childrenOf dag block.parentHash := by
    intro member
    exact fresh (mirrors.child_known member).1
  have children : ∀ hash, childrenOf after hash = childHashes (blocks ++ [block]) hash := by
    intro hash
    rw [children_add_block added unlinked, child_hashes_append, mirrors.children]
  constructor
  · rw [List.map_append, List.map_singleton, List.nodup_append]
    refine ⟨mirrors.distinct, List.nodup_singleton _, ?_⟩
    intro hash member last same equal
    rw [List.mem_singleton] at same
    exact fresh (same ▸ equal ▸ member)
  · intro hash other
    rw [Dag.get_block_add_block added, List.mem_append, List.mem_singleton]
    split
    · rename_i here
      constructor
      · intro same
        cases same
        exact ⟨Or.inr rfl, here⟩
      · rintro ⟨old | last, same⟩
        · exact absurd (List.mem_map.mpr ⟨other, old, same.trans here.symm⟩) fresh
        · rw [last]
    · rename_i elsewhere
      rw [mirrors.stored]
      constructor
      · rintro ⟨old, same⟩
        exact ⟨Or.inl old, same⟩
      · rintro ⟨old | last, same⟩
        · exact ⟨old, same⟩
        · exact absurd (last ▸ same) elsewhere
  · exact children
  · rw [size_add_block added, mirrors.size, List.length_append, List.length_singleton]
  · intro other member plain
    rw [List.map_append]
    rcases List.mem_append.mp member with old | last
    · exact List.mem_append_left _ (mirrors.parents other old plain)
    · rw [List.mem_singleton] at last
      subst last
      apply List.mem_append_left
      rw [← mirrors.mem_vertices]
      exact (add_block_ok added).2.1 plain
  · exact grounded_step mirrors added fresh children

theorem mem_values (mirrors : Mirrors dag blocks) (block : DagBlock) :
    block ∈ (dag.vertices.toList.map Prod.snd).map DagVertex.block ↔ block ∈ blocks := by
  rw [List.map_map, List.mem_map]
  constructor
  · rintro ⟨⟨hash, vertex⟩, listed, same⟩
    have found := Std.ExtTreeMap.mem_toList_iff_getElem?_eq_some.mp listed
    exact ((mirrors.stored hash block).mp (by rw [Dag.getBlock, found, ← same]; rfl)).1
  · intro member
    have found := (mirrors.stored block.hash block).mpr ⟨member, rfl⟩
    obtain ⟨vertex, stored, same⟩ := Option.map_eq_some_iff.mp found
    exact ⟨(block.hash, vertex), Std.ExtTreeMap.mem_toList_iff_getElem?_eq_some.mpr stored, same⟩

theorem values_nodup (mirrors : Mirrors dag blocks) :
    ((dag.vertices.toList.map Prod.snd).map DagVertex.block).Nodup := by
  rw [List.map_map]
  apply List.Nodup.map_on
  · rintro ⟨hash, vertex⟩ listed ⟨hash', vertex'⟩ listed' same
    have found := Std.ExtTreeMap.mem_toList_iff_getElem?_eq_some.mp listed
    have found' := Std.ExtTreeMap.mem_toList_iff_getElem?_eq_some.mp listed'
    -- Equal blocks have equal hashes, and a hash is the key of one vertex.
    have keyed := (mirrors.stored hash vertex.block).mp (by rw [Dag.getBlock, found]; rfl)
    have keyed' := (mirrors.stored hash' vertex'.block).mp (by rw [Dag.getBlock, found']; rfl)
    have equal : vertex.block = vertex'.block := same
    have sameHash : hash = hash' := by rw [← keyed.2, ← keyed'.2, equal]
    subst sameHash
    rw [Option.some.inj (found.symm.trans found')]
  · apply List.Nodup.of_map Prod.fst
    exact keys_nodup dag.vertices

theorem listing (mirrors : Mirrors dag blocks) (iteration : Arrangement DagVertex) :
    ((iteration.arrange (dag.vertices.toList.map Prod.snd)).map DagVertex.block).Perm blocks := by
  have stored : ((dag.vertices.toList.map Prod.snd).map DagVertex.block).Perm blocks :=
    (List.perm_ext_iff_of_nodup mirrors.values_nodup mirrors.distinct.of_map).mpr
      mirrors.mem_values
  exact ((iteration.perm _).map _).trans stored

end Mirrors

section Genesis

theorem genesis_hash_listing (iteration : Arrangement DagVertex) (dag : Dag) :
    genesisHash iteration dag =
      ((((iteration.arrange (dag.vertices.toList.map Prod.snd)).map DagVertex.block).filter
        DagBlock.isGenesis).head?).map DagBlock.hash := by
  rw [List.head?_filter, List.find?_map, Option.map_map]
  rfl

theorem genesis_hash_single {arrived : List DagBlock} (mirrors : Mirrors dag arrived)
    (reordered : arrived.Perm blocks) (single : (blocks.filter DagBlock.isGenesis).length ≤ 1)
    (iteration : Arrangement DagVertex) :
    genesisHash iteration dag =
      ((blocks.filter DagBlock.isGenesis).head?).map DagBlock.hash := by
  have same := ((mirrors.listing iteration).trans reordered).filter DagBlock.isGenesis
  rw [genesis_hash_listing]
  cases found : blocks.filter DagBlock.isGenesis with
  | nil =>
    rw [found] at same
    rw [List.perm_nil.mp same]
  | cons genesis rest =>
    rw [found] at same single
    have none : rest = [] := by
      apply List.eq_nil_of_length_eq_zero
      simp only [List.length_cons] at single
      omega
    subst none
    rw [List.perm_singleton.mp same]

theorem genesis_hash_preferring (mirrors : Mirrors dag blocks) {genesis : DagBlock}
    (member : genesis ∈ blocks) (isGenesis : genesis.isGenesis = true) :
    genesisHash (.preferring fun vertex => vertex.block.hash == genesis.hash) dag =
      some genesis.hash := by
  obtain ⟨vertex, listed, same⟩ := List.mem_map.mp ((mirrors.mem_values genesis).mpr member)
  rw [genesisHash, Arrangement.preferring, List.find?_append, List.find?_filter]
  cases found : (dag.vertices.toList.map Prod.snd).find? (fun vertex => decide
      ((vertex.block.hash == genesis.hash) = true ∧ vertex.block.isGenesis = true)) with
  | none =>
    have refused := List.find?_eq_none.mp found vertex listed
    simp [same, isGenesis] at refused
  | some first =>
    have chosen := List.find?_some found
    simp only [beq_iff_eq, decide_eq_true_eq] at chosen
    rw [Option.some_or, Option.map_some, chosen.1]

end Genesis

def Added (blocks : List DagBlock) (dag : Dag) : Prop :=
  blocks.foldlM Dag.addBlock Dag.new = .ok dag

def Accepted (blocks : List DagBlock) (dag : Dag) : Prop :=
  ∃ (engine : ConsensusEngine) (calls : List (Surroundings × DagBlock)),
    engine.dag = Dag.new ∧ calls.map Prod.snd = blocks ∧
    (∀ entry ∈ (acceptAll engine calls).2, ∃ hash, entry.answer = .ok hash) ∧
    (acceptAll engine calls).1.dag = dag

def Built (blocks : List DagBlock) (dag : Dag) : Prop := Added blocks dag ∨ Accepted blocks dag

theorem added_mirrors {dag after : Dag} {seen blocks : List DagBlock}
    (mirrors : Mirrors dag seen) (added : blocks.foldlM Dag.addBlock dag = .ok after) :
    Mirrors after (seen ++ blocks) := by
  induction blocks generalizing dag seen with
  | nil =>
    cases added
    rw [List.append_nil]
    exact mirrors
  | cons block rest ih =>
    rw [List.foldlM_cons] at added
    cases first : dag.addBlock block with
    | error reason =>
      rw [first] at added
      cases added
    | ok next =>
      rw [first] at added
      have grown := ih (mirrors.step first) added
      rw [List.append_assoc] at grown
      exact grown

theorem accept_block_adds {engine : ConsensusEngine} {surroundings : Surroundings}
    {block : DagBlock} {hash : Hash32}
    (accepted : (engine.acceptBlock surroundings block).2 = .ok hash) :
    engine.dag.addBlock block = .ok (engine.acceptBlock surroundings block).1.dag := by
  unfold ConsensusEngine.acceptBlock at accepted ⊢
  cases admitted : engine.admission surroundings block with
  | error reason => simp [admitted] at accepted
  | ok value =>
    cases added : engine.dag.addBlock block with
    | error reason => simp [admitted, added] at accepted
    | ok dag =>
      cases attached : engine.store with
      | none => simp
      | some store =>
        cases written : store.writeBlock surroundings.fault
            (ConsensusEngine.storageBlock block) with
        | error reason => simp [written]
        | ok store => simp [written]

theorem accept_all_adds (engine : ConsensusEngine) (calls : List (Surroundings × DagBlock))
    (accepted : ∀ entry ∈ (acceptAll engine calls).2, ∃ hash, entry.answer = .ok hash) :
    (calls.map Prod.snd).foldlM Dag.addBlock engine.dag =
      .ok (acceptAll engine calls).1.dag := by
  induction calls generalizing engine with
  | nil => rfl
  | cons call rest ih =>
    obtain ⟨surroundings, block⟩ := call
    obtain ⟨hash, answered⟩ := accepted _ List.mem_cons_self
    have later := ih (engine.acceptBlock surroundings block).1
      (fun entry member => accepted entry (List.mem_cons_of_mem _ member))
    rw [List.map_cons, List.foldlM_cons, accept_block_adds answered]
    exact later

theorem built_mirrors {blocks : List DagBlock} {dag : Dag} (built : Built blocks dag) :
    Mirrors dag blocks := by
  have added : blocks.foldlM Dag.addBlock Dag.new = .ok dag := by
    rcases built with direct | ⟨engine, calls, empty, same, accepted, final⟩
    · exact direct
    · have taken := accept_all_adds engine calls accepted
      rw [empty, same, final] at taken
      exact taken
  exact added_mirrors Mirrors.start added

/-- Mirrors of one block set differ in the order of child lists only. -/
theorem same_up_to_order {left right : Dag} {first second : List DagBlock}
    (mirrors : Mirrors left first) (mirrors' : Mirrors right second)
    (same : first.Perm second) : SameUpToOrder left right where
  size := by rw [mirrors.size, mirrors'.size, same.length_eq]
  block := by
    intro hash
    apply Option.ext
    intro block
    rw [mirrors.stored, mirrors'.stored, same.mem_iff]
  children := by
    intro hash
    rw [mirrors.children, mirrors'.children]
    exact (same.filter _).map _

/-- Every two ways to build a DAG from the blocks, and every two iteration
orders of the vertex map, give one chain. -/
def OrderFree (rule : ForkChoiceRule) (blocks : List DagBlock) : Prop :=
  ∀ first second left right, first.Perm blocks → second.Perm blocks →
    Built first left → Built second right → ∀ iteration iteration',
      ∃ chain, canonicalChain rule iteration left = some chain ∧
        canonicalChain rule iteration' right = some chain

theorem order_free_of_single {rule : ForkChoiceRule} {blocks : List DagBlock}
    (single : (blocks.filter DagBlock.isGenesis).length ≤ 1) : OrderFree rule blocks := by
  intro first second left right same same' built built' iteration iteration'
  have mirrors := built_mirrors built
  have mirrors' := built_mirrors built'
  have reordered : first.Perm second := same.trans same'.symm
  have genesis : genesisHash iteration left = genesisHash iteration' right := by
    rw [genesis_hash_single mirrors same single, genesis_hash_single mirrors' same' single]
  obtain ⟨chain, returned, _⟩ := chain_returns mirrors.grounded rule iteration
  refine ⟨chain, returned, ?_⟩
  rw [← chain_eq (same_up_to_order mirrors mirrors' reordered) rule iteration iteration' genesis]
  exact returned

theorem chain_preferring {dag : Dag} {blocks : List DagBlock} (mirrors : Mirrors dag blocks)
    (rule : ForkChoiceRule) {genesis : DagBlock} (member : genesis ∈ blocks)
    (isGenesis : genesis.isGenesis = true) :
    ∃ iteration chain, canonicalChain rule iteration dag = some chain ∧
      chain.head? = some genesis.hash := by
  obtain ⟨chain, returned, head⟩ := chain_returns mirrors.grounded rule
    (.preferring fun vertex => vertex.block.hash == genesis.hash)
  rw [genesis_hash_preferring mirrors member isGenesis] at head
  exact ⟨_, chain, returned, head⟩

theorem same_genesis_of_order_free {rule : ForkChoiceRule} {blocks : List DagBlock} {dag : Dag}
    (built : Built blocks dag) (free : OrderFree rule blocks) {left right : DagBlock}
    (leftGenesis : left ∈ blocks.filter DagBlock.isGenesis)
    (rightGenesis : right ∈ blocks.filter DagBlock.isGenesis) : left.hash = right.hash := by
  have mirrors := built_mirrors built
  obtain ⟨member, isGenesis⟩ := List.mem_filter.mp leftGenesis
  obtain ⟨member', isGenesis'⟩ := List.mem_filter.mp rightGenesis
  -- Two iteration orders, each of which yields one of the blocks first.
  obtain ⟨iteration, chain, returned, head⟩ := chain_preferring mirrors rule member isGenesis
  obtain ⟨iteration', chain', returned', head'⟩ := chain_preferring mirrors rule member' isGenesis'
  obtain ⟨common, found, found'⟩ :=
    free blocks blocks dag dag (List.Perm.refl _) (List.Perm.refl _) built built iteration iteration'
  have same : chain = common := Option.some.inj (returned.symm.trans found)
  have same' : chain' = common := Option.some.inj (returned'.symm.trans found')
  rw [same] at head
  rw [same', head] at head'
  exact Option.some.inj head'

/-- Where some order of arrival is accepted, the canonical chain is a function
of the block set exactly when the set has at most one genesis block. -/
theorem order_free_iff (rule : ForkChoiceRule) (blocks : List DagBlock) (dag : Dag)
    (built : Built blocks dag) :
    OrderFree rule blocks ↔ (blocks.filter DagBlock.isGenesis).length ≤ 1 := by
  constructor
  · intro free
    have distinct : ((blocks.filter DagBlock.isGenesis).map DagBlock.hash).Nodup :=
      (built_mirrors built).distinct.sublist (List.filter_sublist.map _)
    match found : blocks.filter DagBlock.isGenesis with
    | [] => exact Nat.zero_le _
    | [_] => exact Nat.le_refl _
    | first :: second :: rest =>
      have same : first.hash = second.hash := by
        apply same_genesis_of_order_free built free
        · rw [found]
          exact List.mem_cons_self
        · rw [found]
          exact List.mem_cons_of_mem _ List.mem_cons_self
      rw [found] at distinct
      simp [same] at distinct
  · exact order_free_of_single

def soleProposer : ConsensusEngine := ConsensusEngine.new 6000 ["v1"] 0

def offered (parents : List (Hash32 × Hash32)) : List (Surroundings × DagBlock) :=
  parents.map fun (hash, parent) => (calm, sampleBlock hash parent none)

theorem accepted_by_sole_proposer (calls : List (Surroundings × DagBlock))
    (accepted : (acceptAll soleProposer calls).2.all (·.answer.isOk) = true) :
    Accepted (calls.map Prod.snd) (acceptAll soleProposer calls).1.dag := by
  refine ⟨soleProposer, calls, rfl, rfl, ?_, rfl⟩
  intro entry member
  have passed := List.all_eq_true.mp accepted entry member
  cases answered : entry.answer with
  | error reason => simp [answered, Except.isOk, Except.toBool] at passed
  | ok hash => exact ⟨hash, rfl⟩

def singleGenesis : List (Surroundings × DagBlock) :=
  offered [(firstHash, zeroHash), (secondHash, firstHash)]

def twoGenesis : List (Surroundings × DagBlock) :=
  offered [(firstHash, zeroHash), (secondHash, zeroHash)]

theorem single_genesis_order_free :
    OrderFree .heaviestSubtree (singleGenesis.map Prod.snd) ∧
      OrderFree .longestChain (singleGenesis.map Prod.snd) := by
  have built : Built (singleGenesis.map Prod.snd) (acceptAll soleProposer singleGenesis).1.dag :=
    Or.inr (accepted_by_sole_proposer singleGenesis (by decide))
  exact ⟨(order_free_iff .heaviestSubtree _ _ built).mpr (by decide),
    (order_free_iff .longestChain _ _ built).mpr (by decide)⟩

/-- A second block with a zero parent is accepted, and the chain starts from
whichever of the two the vertex map yields first. -/
theorem two_genesis_chains :
    ∃ (blocks : List DagBlock) (dag : Dag) (iteration iteration' : Arrangement DagVertex),
      Accepted blocks dag ∧ ∀ rule,
        canonicalChain rule iteration dag ≠ canonicalChain rule iteration' dag := by
  refine ⟨twoGenesis.map Prod.snd, (acceptAll soleProposer twoGenesis).1.dag, .asStored,
    .preferring fun vertex => vertex.block.hash == secondHash,
    accepted_by_sole_proposer twoGenesis (by decide), ?_⟩
  intro rule
  cases rule <;> decide +kernel

end CeruleanLedger.ForkAgreement
