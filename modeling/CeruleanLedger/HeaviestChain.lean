import CeruleanLedger.DagStructure

/-!
`canonical_chain` and `resolve_fork` of `consensus/dag.rs` on a DAG with a single
genesis block. The chain is the path of heaviest children, so a position on it
identifies a block, and the deepest candidate is the one with the greatest position.
-/

namespace CeruleanLedger.HeaviestChain

open ByteCodec BlockDag ForestFold ForestPaths ForkChoice ForkAgreement DagStructure
open BlockAdmission IterationOrder OrderedMap QuorumValidation

def byPosition (left right : Hash32 × Nat) : Bool := left.2 ≤ right.2

def positionsOf (chain : List Hash32) : Std.ExtTreeMap Hash32 Nat compareHash :=
  chain.zipIdx.foldl (fun positions entry => positions.insert entry.1 entry.2) ∅

def located (positions : Std.ExtTreeMap Hash32 Nat compareHash) (hash : Hash32) :
    Option (Hash32 × Nat) :=
  positions[hash]?.map fun position => (hash, position)

/-- The outer `none` is a chain that was not computed within its bound. -/
def resolveFork (iteration : Arrangement DagVertex) (dag : Dag) (candidates : List Hash32) :
    Option (Option Hash32) :=
  if candidates.isEmpty then some none
  else (Dag.canonicalChain iteration dag).map fun canonical =>
    (maxBy byPosition (candidates.filterMap (located (positionsOf canonical)))).map Prod.fst

theorem collected_get (entries : List (Hash32 × Nat)) (distinct : (entries.map Prod.fst).Nodup)
    (start : Std.ExtTreeMap Hash32 Nat compareHash) (hash : Hash32) (position : Nat) :
    (entries.foldl (fun positions entry => positions.insert entry.1 entry.2) start)[hash]? =
        some position ↔
      (hash, position) ∈ entries ∨
        hash ∉ entries.map Prod.fst ∧ start[hash]? = some position := by
  induction entries generalizing start with
  | nil => simp
  | cons entry rest ih =>
    obtain ⟨key, value⟩ := entry
    obtain ⟨fresh, later⟩ := List.nodup_cons.mp distinct
    rw [List.foldl_cons, ih later, get_insert, List.map_cons, List.mem_cons, List.mem_cons]
    by_cases same : key = hash
    · subst same
      have outside : (key, position) ∉ rest := fun inside =>
        fresh (List.mem_map.mpr ⟨_, inside, rfl⟩)
      simp [fresh, outside, eq_comm]
    · simp [same, Ne.symm same]

theorem positions_of_get {chain : List Hash32} (distinct : chain.Nodup) (hash : Hash32)
    (position : Nat) :
    (positionsOf chain)[hash]? = some position ↔ chain[position]? = some hash := by
  have keys : (chain.zipIdx.map Prod.fst).Nodup := by
    rwa [List.zipIdx_map_fst]
  rw [positionsOf, collected_get _ keys]
  simp [List.mem_zipIdx_iff_getElem?]

theorem mem_located {chain : List Hash32} (distinct : chain.Nodup) (candidates : List Hash32)
    (hash : Hash32) (position : Nat) :
    (hash, position) ∈ candidates.filterMap (located (positionsOf chain)) ↔
      hash ∈ candidates ∧ chain[position]? = some hash := by
  rw [List.mem_filterMap]
  constructor
  · rintro ⟨candidate, member, found⟩
    obtain ⟨place, placed, pair⟩ := Option.map_eq_some_iff.mp found
    cases pair
    exact ⟨member, (positions_of_get distinct hash position).mp placed⟩
  · rintro ⟨member, placed⟩
    refine ⟨hash, member, ?_⟩
    rw [located, (positions_of_get distinct hash position).mpr placed]
    rfl

structure DeepestOn (path candidates : List Hash32) (chosen : Hash32) : Prop where
  candidate : chosen ∈ candidates
  deepest : ∃ position : Nat, path[position]? = some chosen ∧
    ∀ other ∈ candidates, ∀ place : Nat, path[place]? = some other → place ≤ position

theorem greatest_position {chain : List Hash32} (distinct : chain.Nodup)
    (candidates : List Hash32) {best : Hash32 × Nat}
    (greatest : maxBy byPosition (candidates.filterMap (located (positionsOf chain))) =
      some best) : DeepestOn chain candidates best.1 := by
  obtain ⟨chosen, position⟩ := best
  obtain ⟨candidate, placed⟩ :=
    (mem_located distinct candidates chosen position).mp (max_by_mem greatest)
  refine ⟨candidate, position, placed, ?_⟩
  intro other member place there
  -- Comparing by position is total and transitive, whatever the hashes.
  have below : byPosition (other, place) (chosen, position) = true := by
    apply le_max_by _ _ greatest _ ((mem_located distinct candidates other place).mpr
      ⟨member, there⟩)
    · intro left right
      simp only [byPosition, decide_eq_true_eq]
      exact Nat.le_total _ _
    · intro left middle right first second
      simp only [byPosition, decide_eq_true_eq] at first second ⊢
      exact Nat.le_trans first second
  simpa [byPosition] using below

theorem no_position_iff {chain : List Hash32} (distinct : chain.Nodup)
    (candidates : List Hash32) :
    maxBy byPosition (candidates.filterMap (located (positionsOf chain))) = none ↔
      ∀ candidate ∈ candidates, candidate ∉ chain := by
  rw [max_by_eq_none_iff, List.eq_nil_iff_forall_not_mem]
  constructor
  · intro nowhere candidate member inside
    obtain ⟨position, placed⟩ := List.mem_iff_getElem?.mp inside
    exact nowhere (candidate, position)
      ((mem_located distinct candidates candidate position).mpr ⟨member, placed⟩)
  · rintro outside ⟨candidate, position⟩ listed
    obtain ⟨member, placed⟩ := (mem_located distinct candidates candidate position).mp listed
    exact outside candidate member (List.mem_iff_getElem?.mpr ⟨position, placed⟩)

def Heaviest (dag : Dag) (hash next : Hash32) : Prop :=
  next ∈ childrenOf dag hash ∧ ∃ weight, subtreeWeight dag next = some weight ∧
    ∀ other ∈ childrenOf dag hash, ∃ weight', subtreeWeight dag other = some weight' ∧
      (weight' < weight ∨ weight' = weight ∧ (compareHash next other).isLE = true)

structure HeaviestPath (dag : Dag) (genesis : Hash32) (path : List Hash32) : Prop where
  starts : path.head? = some genesis
  steps : path.IsChain (Heaviest dag)
  ends : ∀ last, path.getLast? = some last → childrenOf dag last = []
  distinct : path.Nodup

structure OnlyGenesis (dag : Dag) (genesis : DagBlock) : Prop where
  stored : dag.getBlock genesis.hash = some genesis
  parentless : genesis.isGenesis = true
  only : ∀ hash block, dag.getBlock hash = some block → block.isGenesis = true →
    block = genesis

section Chain

variable {dag : Dag} {blocks : List DagBlock} {genesis : DagBlock}

theorem only_genesis_iff (mirrors : Mirrors dag blocks) :
    OnlyGenesis dag genesis ↔ blocks.filter DagBlock.isGenesis = [genesis] := by
  constructor
  · intro single
    have distinct : (blocks.filter DagBlock.isGenesis).Nodup := mirrors.distinct.of_map.filter _
    apply List.perm_singleton.mp
    rw [List.perm_ext_iff_of_nodup distinct (List.nodup_singleton _)]
    intro block
    rw [List.mem_filter, List.mem_singleton]
    constructor
    · rintro ⟨listed, parentless⟩
      exact single.only block.hash block ((mirrors.stored _ _).mpr ⟨listed, rfl⟩) parentless
    · intro same
      subst same
      exact ⟨((mirrors.stored _ _).mp single.stored).1, single.parentless⟩
  · intro listed
    have members : ∀ block, block ∈ blocks ∧ block.isGenesis = true ↔ block = genesis := by
      intro block
      rw [← List.mem_filter, listed, List.mem_singleton]
    obtain ⟨member, parentless⟩ := (members genesis).mpr rfl
    refine ⟨(mirrors.stored _ _).mpr ⟨member, rfl⟩, parentless, ?_⟩
    intro hash block stored genesisBlock
    exact (members block).mp ⟨((mirrors.stored hash block).mp stored).1, genesisBlock⟩

theorem genesis_hash_only (mirrors : Mirrors dag blocks) (single : OnlyGenesis dag genesis)
    (iteration : Arrangement DagVertex) : genesisHash iteration dag = some genesis.hash := by
  have listed := (only_genesis_iff mirrors).mp single
  rw [genesis_hash_single mirrors (List.Perm.refl blocks) (by rw [listed]; exact le_rfl)
    iteration, listed]
  rfl

theorem heaviest_of_best {hash next : Hash32}
    (best : Best (childrenOf dag) (subtreeWeight dag) scoreThenSmallestHash hash next) :
    Heaviest dag hash next := by
  obtain ⟨member, weight, weighed, above⟩ := best
  refine ⟨member, weight, weighed, ?_⟩
  intro other sibling
  obtain ⟨weight', weighed', below⟩ := above other sibling
  exact ⟨weight', weighed', (score_then_smallest_hash_iff _ _).mp below⟩

theorem canonical_chain_path (mirrors : Mirrors dag blocks) (single : OnlyGenesis dag genesis)
    (iteration : Arrangement DagVertex) :
    ∃ path, Dag.canonicalChain iteration dag = some path ∧
      HeaviestPath dag genesis.hash path := by
  obtain ⟨path, returned, _⟩ := chain_returns mirrors.grounded .heaviestSubtree iteration
  obtain ⟨rank, ranked, _⟩ := mirrors.grounded
  have walked : descend (childrenOf dag) (subtreeWeight dag) scoreThenSmallestHash
      (depthBound dag) genesis.hash = some path := by
    rwa [canonical_chain_eq, chainBy, genesis_hash_only mirrors single] at returned
  obtain ⟨starts, steps, ends⟩ := descend_path score_then_smallest_hash_linear _ _ _ walked
  refine ⟨path, returned, starts, steps.imp fun _ _ => heaviest_of_best, ends, ?_⟩
  exact path_nodup ranked (steps.imp fun _ _ best => best.1)

end Chain

/-- On every DAG that `add_block` calls build with one genesis block, the chain is
the heaviest path and a fork resolves to the deepest candidate on it. -/
theorem heaviest_chain_resolves (blocks : List DagBlock) (genesis : DagBlock)
    (single : OnlyGenesis (offerAll blocks) genesis) (iteration : Arrangement DagVertex) :
    ∃ path, Dag.canonicalChain iteration (offerAll blocks) = some path ∧
      HeaviestPath (offerAll blocks) genesis.hash path ∧
      ∀ candidates, ∃ answer,
        resolveFork iteration (offerAll blocks) candidates = some answer ∧
        (answer = none ↔ ∀ candidate ∈ candidates, candidate ∉ path) ∧
        ∀ chosen, answer = some chosen → DeepestOn path candidates chosen := by
  obtain ⟨⟨kept, mirrors⟩, _⟩ := offer_all_counted blocks
  obtain ⟨path, returned, heaviest⟩ := canonical_chain_path mirrors single iteration
  refine ⟨path, returned, heaviest, fun candidates => ?_⟩
  cases candidates with
  | nil => exact ⟨none, rfl, by simp, by simp⟩
  | cons first rest =>
    refine ⟨_, by rw [resolveFork, returned]; rfl, ?_, ?_⟩
    · rw [Option.map_eq_none_iff, no_position_iff heaviest.distinct]
    · intro chosen answered
      obtain ⟨best, greatest, same⟩ := Option.map_eq_some_iff.mp answered
      subst same
      exact greatest_position heaviest.distinct _ greatest

def thirdHash : Hash32 := Vector.replicate 32 3

def forked : List DagBlock :=
  [sampleBlock firstHash zeroHash none, sampleBlock thirdHash firstHash none,
    sampleBlock secondHash firstHash none]

theorem forked_single : OnlyGenesis (offerAll forked) (sampleBlock firstHash zeroHash none) := by
  have root : Mirrors (offerAll (forked.take 1)) (forked.take 1) :=
    Mirrors.start.step (offer_ok (by decide +kernel))
  have left : Mirrors (offerAll (forked.take 2)) (forked.take 2) :=
    root.step (offer_ok (by decide +kernel))
  have right : Mirrors (offerAll forked) forked := left.step (offer_ok (by decide +kernel))
  exact (only_genesis_iff right).mpr (by decide)

/-- Both children weigh the same, so the smaller hash is on the chain. -/
theorem fork_resolves_to_root :
    Dag.canonicalChain .asStored (offerAll forked) = some [firstHash, secondHash] ∧
      resolveFork .asStored (offerAll forked) [thirdHash, firstHash] = some (some firstHash) ∧
      ∃ path, Dag.canonicalChain .asStored (offerAll forked) = some path ∧
        HeaviestPath (offerAll forked) firstHash path := by
  refine ⟨by decide +kernel, by decide +kernel, ?_⟩
  obtain ⟨path, returned, heaviest, _⟩ :=
    heaviest_chain_resolves forked (sampleBlock firstHash zeroHash none) forked_single .asStored
  exact ⟨path, returned, heaviest⟩

end CeruleanLedger.HeaviestChain
