import CeruleanLedger.ForestPaths
import CeruleanLedger.ForkAgreement
import CeruleanLedger.GuardedRun

/-!
What every sequence of `add_block` calls leaves behind, refused calls included. No check looks
for a cycle: a block can only name a parent that is already there, and itself it is not.
-/

namespace CeruleanLedger.DagStructure

open ByteCodec BlockDag ForestFold ForestPaths ForkChoice ForkAgreement GuardedRun

def offerBlock (dag : Dag) (block : DagBlock) : Dag :=
  match dag.addBlock block with
  | .ok after => after
  | .error _ => dag

def offerAll (blocks : List DagBlock) : Dag := blocks.foldl offerBlock Dag.new

/-- The loop of `traverse_parents`, `none` when the bound ends it. -/
def traverseFrom (dag : Dag) : Nat → Hash32 → Option (List DagBlock)
  | 0, _ => none
  | depth + 1, current =>
    match dag.getBlock current with
    | none => some []
    | some block =>
      if block.isGenesis then some [block]
      else (traverseFrom dag depth block.parentHash).map (block :: ·)

def traverseParents (dag : Dag) (start : Hash32) : Option (List DagBlock) :=
  traverseFrom dag (depthBound dag) start

variable {dag : Dag} {blocks : List DagBlock}

section Reached

variable {after : Dag} {block : DagBlock}

theorem block_count_add_block (added : dag.addBlock block = .ok after) :
    after.blockCount = dag.blockCount + 1 := by
  unfold Dag.addBlock at added
  split at added
  · cases added
  · split at added
    · cases added
    · cases added
      rfl

def Counted (dag : Dag) : Prop :=
  (∃ blocks, Mirrors dag blocks) ∧ dag.blockCount = UInt64.ofNat dag.vertices.size

theorem offer_ok (taken : (dag.addBlock block).isOk = true) :
    dag.addBlock block = .ok (offerBlock dag block) := by
  unfold offerBlock
  cases added : dag.addBlock block with
  | error reason => simp [added, Except.isOk, Except.toBool] at taken
  | ok after => rfl

theorem counted_offer (counted : Counted dag) (block : DagBlock) :
    Counted (offerBlock dag block) := by
  unfold offerBlock
  cases added : dag.addBlock block with
  | error reason => exact counted
  | ok after =>
    obtain ⟨⟨blocks, mirrors⟩, count⟩ := counted
    refine ⟨⟨blocks ++ [block], mirrors.step added⟩, ?_⟩
    rw [block_count_add_block added, size_add_block added, count, UInt64.ofNat_add]
    rfl

theorem offer_all_counted (blocks : List DagBlock) : Counted (offerAll blocks) :=
  run_keeps Counted Dag.new blocks ⟨⟨[], Mirrors.start⟩, by simp [Dag.new]⟩
    fun _ block counted => counted_offer counted block

end Reached

section Shape

theorem children_forest (mirrors : Mirrors dag blocks) : Forest (childrenOf dag) where
  distinct := by
    intro hash
    rw [mirrors.children]
    exact mirrors.distinct.sublist (List.filter_sublist.map _)
  parent := by
    intro hash hash' child here there
    rw [mirrors.children, mem_child_hashes] at here there
    obtain ⟨block, listed, _, parent, same⟩ := here
    obtain ⟨block', listed', _, parent', same'⟩ := there
    rw [← parent, ← parent',
      List.inj_on_of_nodup_map mirrors.distinct listed listed' (same.trans same'.symm)]

theorem mem_children_iff (mirrors : Mirrors dag blocks) (parent child : Hash32) :
    child ∈ childrenOf dag parent ↔
      ∃ block, dag.getBlock child = some block ∧ block.isGenesis = false ∧
        block.parentHash = parent := by
  rw [mirrors.children, mem_child_hashes]
  constructor
  · rintro ⟨block, listed, plain, named, same⟩
    exact ⟨block, (mirrors.stored child block).mpr ⟨listed, same⟩, plain, named⟩
  · rintro ⟨block, stored, plain, named⟩
    obtain ⟨listed, same⟩ := (mirrors.stored child block).mp stored
    exact ⟨block, listed, plain, named, same⟩

theorem parent_stored (mirrors : Mirrors dag blocks) {hash : Hash32} {block : DagBlock}
    (stored : dag.getBlock hash = some block) (plain : block.isGenesis = false) :
    ∃ parent, dag.getBlock block.parentHash = some parent := by
  obtain ⟨listed, _⟩ := (mirrors.stored hash block).mp stored
  obtain ⟨parent, member, same⟩ := List.mem_map.mp (mirrors.parents block listed plain)
  exact ⟨parent, (mirrors.stored _ parent).mpr ⟨member, same⟩⟩

def HasParent (dag : Dag) (block parent : DagBlock) : Prop :=
  block.isGenesis = false ∧ dag.getBlock block.parentHash = some parent

structure LeadsToGenesis (dag : Dag) (block : DagBlock) (path : List DagBlock) : Prop where
  starts : path.head? = some block
  climbs : path.IsChain (HasParent dag)
  ends : ∃ genesis, path.getLast? = some genesis ∧ genesis.isGenesis = true

theorem LeadsToGenesis.extend {block parent : DagBlock} {path : List DagBlock}
    (above : HasParent dag block parent) (leads : LeadsToGenesis dag parent path) :
    LeadsToGenesis dag block (block :: path) := by
  obtain ⟨starts, climbs, ends⟩ := leads
  cases path with
  | nil => cases starts
  | cons first rest =>
    cases starts
    exact ⟨rfl, .cons_cons above climbs, by rwa [List.getLast?_cons_cons]⟩

/-- Ranks grow along parents and are bounded, which bounds the loop. -/
theorem traverse_from_leads (mirrors : Mirrors dag blocks) {rank : Hash32 → Nat}
    (ranked : Ranked (childrenOf dag) rank) (bounded : ∀ hash, rank hash ≤ dag.vertices.size)
    (depth : Nat) (hash : Hash32) (block : DagBlock) (stored : dag.getBlock hash = some block)
    (enough : dag.vertices.size - rank hash < depth) :
    ∃ path, traverseFrom dag depth hash = some path ∧ LeadsToGenesis dag block path := by
  induction depth generalizing hash block with
  | zero => exact absurd enough (Nat.not_lt_zero _)
  | succ depth ih =>
    rw [traverseFrom, stored]
    by_cases genesis : block.isGenesis = true
    · refine ⟨[block], by simp only [genesis, ↓reduceIte], rfl, .singleton block, ?_⟩
      exact ⟨block, rfl, genesis⟩
    · have plain : block.isGenesis = false := by simpa using genesis
      obtain ⟨parent, found⟩ := parent_stored mirrors stored plain
      have child : hash ∈ childrenOf dag block.parentHash :=
        (mem_children_iff mirrors _ _).mpr ⟨block, stored, plain, rfl⟩
      have grows := ranked block.parentHash hash child
      have limit := bounded block.parentHash
      obtain ⟨path, walked, leads⟩ := ih block.parentHash parent found (by omega)
      refine ⟨block :: path, ?_, leads.extend ⟨plain, found⟩⟩
      simp only [plain, Bool.false_eq_true, ↓reduceIte, walked, Option.map_some]

end Shape

section Weights

abbrev properDescendants (dag : Dag) (hash : Hash32) : Set Hash32 :=
  descendants (childrenOf dag) hash

def Weighs (dag : Dag) (hash : Hash32) (weight : UInt64) : Prop :=
  ∃ count : Nat, (properDescendants dag hash).encard = count ∧ weight = UInt64.ofNat count

theorem fold_weights (counts : List Nat) (start : Nat) :
    (counts.map UInt64.ofNat).foldl (· + ·) (UInt64.ofNat start) =
      UInt64.ofNat (start + counts.sum) := by
  induction counts generalizing start with
  | nil => simp
  | cons count rest ih =>
    rw [List.map_cons, List.foldl_cons, ← UInt64.ofNat_add, ih, List.sum_cons, Nat.add_assoc]

theorem add_weights_counts (hash : Hash32) (counts : List Nat) :
    addWeights hash (counts.map UInt64.ofNat) =
      UInt64.ofNat (counts.map (· + 1)).sum := by
  unfold addWeights
  rw [List.length_map, fold_weights, List.sum_map_add]
  simp [Nat.add_comm]

theorem weighs_counts {hashes : List Hash32} {weights : List UInt64}
    (weighed : List.Forall₂ (Weighs dag) hashes weights) :
    ∃ counts : List Nat, weights = counts.map UInt64.ofNat ∧
      (hashes.map fun hash => (properDescendants dag hash).encard + 1).sum =
        ((counts.map (· + 1)).sum : Nat) := by
  induction weighed with
  | nil => exact ⟨[], rfl, rfl⟩
  | cons first _ ih =>
    obtain ⟨count, counted, same⟩ := first
    obtain ⟨counts, listed, total⟩ := ih
    refine ⟨count :: counts, by rw [same, listed, List.map_cons], ?_⟩
    rw [List.map_cons, List.sum_cons, total, counted]
    simp

theorem subtree_weight_weighs (mirrors : Mirrors dag blocks) {hash : Hash32} {weight : UInt64}
    (returned : subtreeWeight dag hash = some weight) : Weighs dag hash weight := by
  obtain ⟨rank, ranked, _⟩ := mirrors.grounded
  apply fold_rule (Weighs dag) addWeights _ (depthBound dag) hash weight returned
  intro node weights weighed
  obtain ⟨counts, listed, total⟩ := weighs_counts weighed
  refine ⟨(counts.map (· + 1)).sum, ?_, by rw [listed, add_weights_counts]⟩
  rw [properDescendants, encard_descendants ranked (children_forest mirrors), total]

theorem descendants_bounded (mirrors : Mirrors dag blocks) (hash : Hash32) :
    (properDescendants dag hash).encard ≤ dag.vertices.size := by
  have known : properDescendants dag hash ⊆ ((blocks.map DagBlock.hash).toFinset : Set Hash32) := by
    intro below inside
    obtain ⟨parent, _, child⟩ := Relation.TransGen.tail'_iff.mp inside
    rw [List.coe_toFinset]
    exact (mirrors.child_known child).1
  calc (properDescendants dag hash).encard
      ≤ ((blocks.map DagBlock.hash).toFinset : Set Hash32).encard := Set.encard_le_encard known
    _ = (blocks.map DagBlock.hash).toFinset.card := Set.encard_coe_eq_coe_finsetCard _
    _ ≤ dag.vertices.size := by
        rw [mirrors.size, ← List.length_map DagBlock.hash]
        exact_mod_cast List.toFinset_card_le _

end Weights

/-- What the operations rely on. The two counters are machine numbers, so they
equal `vertices.len() as u64` and the number of descendants in that type. -/
structure WellFormed (dag : Dag) : Prop where
  counted : dag.blockCount = UInt64.ofNat dag.vertices.size
  linked : ∀ parent child, child ∈ childrenOf dag parent ↔
    ∃ block, dag.getBlock child = some block ∧ block.isGenesis = false ∧
      block.parentHash = parent
  once : ∀ parent, (childrenOf dag parent).Nodup
  rooted : ∀ hash block, dag.getBlock hash = some block →
    ∃ path, traverseParents dag hash = some path ∧ LeadsToGenesis dag block path
  weighed : ∀ hash, ∃ count : Nat, (properDescendants dag hash).encard = count ∧
    count ≤ dag.vertices.size ∧ subtreeWeight dag hash = some (UInt64.ofNat count)

theorem counted_well_formed {dag : Dag} (counted : Counted dag) : WellFormed dag := by
  obtain ⟨⟨blocks, mirrors⟩, count⟩ := counted
  refine ⟨count, mem_children_iff mirrors, (children_forest mirrors).distinct, ?_, ?_⟩
  · intro hash block stored
    obtain ⟨rank, ranked, bounded⟩ := mirrors.grounded
    apply traverse_from_leads mirrors ranked bounded (depthBound dag) hash block stored
    unfold depthBound
    omega
  · intro hash
    obtain ⟨weight, returned⟩ := score_returns mirrors.grounded .heaviestSubtree hash
    obtain ⟨count, cardinality, same⟩ := subtree_weight_weighs mirrors returned
    have bound := descendants_bounded mirrors hash
    rw [cardinality] at bound
    refine ⟨count, cardinality, by exact_mod_cast bound, ?_⟩
    rw [← same]
    exact returned

/-- Any sequence of `add_block` calls leaves a well-formed DAG; while the vertices
fit the address space, both counters are exact. -/
theorem offered_dag_well_formed (blocks : List DagBlock) :
    WellFormed (offerAll blocks) ∧
      ((offerAll blocks).vertices.size < 2 ^ 64 →
        (offerAll blocks).blockCount.toNat = (offerAll blocks).vertices.size ∧
        ∀ hash, ∃ weight, subtreeWeight (offerAll blocks) hash = some weight ∧
          (properDescendants (offerAll blocks) hash).encard = weight.toNat) := by
  have formed := counted_well_formed (offer_all_counted blocks)
  refine ⟨formed, ?_⟩
  intro fits
  constructor
  · rw [formed.counted, UInt64.toNat_ofNat_of_lt' fits]
  · intro hash
    obtain ⟨count, cardinality, bound, returned⟩ := formed.weighed hash
    refine ⟨UInt64.ofNat count, returned, ?_⟩
    rw [UInt64.toNat_ofNat_of_lt' (lt_of_le_of_lt bound fits)]
    exact cardinality

end CeruleanLedger.DagStructure
