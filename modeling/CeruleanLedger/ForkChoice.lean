import CeruleanLedger.BlockDag
import CeruleanLedger.ForestFold
import CeruleanLedger.IterationOrder

/-!
The canonical chain of a DAG under both rules of `consensus/fork_choice.rs`,
with `subtree_weight` and `canonical_chain` of `consensus/dag.rs`. The source
recurses over child lists without a bound; here the depth is bounded by the
number of vertices and `none` stands for a recursion that goes deeper.
Descendant counts wrap as in a release build.
-/

namespace CeruleanLedger.ForkChoice

open ByteCodec BlockDag ForestFold IterationOrder

inductive ForkChoiceRule where
  | heaviestSubtree
  | longestChain
  deriving DecidableEq

def childrenOf (dag : Dag) (hash : Hash32) : List Hash32 :=
  (dag.vertices[hash]?.map DagVertex.children).getD []

def addWeights (_ : Hash32) (weights : List UInt64) : UInt64 :=
  weights.foldl (· + ·) (UInt64.ofNat weights.length)

def atMost (left right : UInt64) : Bool := left ≤ right

/-- A leaf counts its own height, an inner vertex only those below it. -/
def greatestHeight (dag : Dag) (hash : Hash32) (heights : List UInt64) : UInt64 :=
  match dag.vertices[hash]? with
  | none => 0
  | some vertex => (maxBy atMost heights).getD vertex.block.height

def depthBound (dag : Dag) : Nat := dag.vertices.size + 1

def subtreeWeight (dag : Dag) : Hash32 → Option UInt64 :=
  fold (childrenOf dag) addWeights (depthBound dag)

def maxHeightInSubtree (dag : Dag) : Hash32 → Option UInt64 :=
  fold (childrenOf dag) (greatestHeight dag) (depthBound dag)

def scoreThenSmallestHash (left right : UInt64 × Hash32) : Bool :=
  left.1 < right.1 || left.1 == right.1 && (compareHash right.2 left.2).isLE

def genesisHash (iteration : Arrangement DagVertex) (dag : Dag) : Option Hash32 :=
  ((iteration.arrange (dag.vertices.toList.map Prod.snd)).find? (·.block.isGenesis)).map
    (·.block.hash)

def chainBy (score : Hash32 → Option UInt64) (iteration : Arrangement DagVertex) (dag : Dag) :
    Option (List Hash32) :=
  match genesisHash iteration dag with
  | none => some []
  | some genesis =>
    descend (childrenOf dag) score scoreThenSmallestHash (depthBound dag) genesis

def longestChain (iteration : Arrangement DagVertex) (dag : Dag) : Option (List Hash32) :=
  chainBy (maxHeightInSubtree dag) iteration dag

def Dag.canonicalChain (iteration : Arrangement DagVertex) (dag : Dag) : Option (List Hash32) :=
  chainBy (subtreeWeight dag) iteration dag

def canonicalChain (rule : ForkChoiceRule) (iteration : Arrangement DagVertex) (dag : Dag) :
    Option (List Hash32) :=
  match rule with
  | .heaviestSubtree => Dag.canonicalChain iteration dag
  | .longestChain => longestChain iteration dag

def scoreOf (dag : Dag) : ForkChoiceRule → Hash32 → Option UInt64
  | .heaviestSubtree => subtreeWeight dag
  | .longestChain => maxHeightInSubtree dag

theorem canonical_chain_eq (rule : ForkChoiceRule) (iteration : Arrangement DagVertex)
    (dag : Dag) : canonicalChain rule iteration dag = chainBy (scoreOf dag rule) iteration dag := by
  cases rule <;> rfl

theorem at_most_linear : Linear atMost where
  total := by
    intro left right
    simp only [atMost, decide_eq_true_eq]
    exact UInt64.le_total left right
  trans := by
    intro left middle right below above
    simp only [atMost, decide_eq_true_eq] at below above ⊢
    exact UInt64.le_trans below above
  antisymm := by
    intro left right below above
    simp only [atMost, decide_eq_true_eq] at below above
    exact UInt64.le_antisymm below above

theorem compare_hash_swap (left right : Hash32) :
    compareHash right left = (compareHash left right).swap :=
  Std.OrientedCmp.eq_swap

theorem compare_hash_total (left right : Hash32) :
    (compareHash left right).isLE = true ∨ (compareHash right left).isLE = true := by
  rw [compare_hash_swap left right]
  cases compareHash left right <;> simp

theorem compare_hash_antisymm {left right : Hash32} (below : (compareHash left right).isLE = true)
    (above : (compareHash right left).isLE = true) : left = right := by
  rw [compare_hash_swap left right] at above
  cases compared : compareHash left right with
  | lt => simp [compared] at above
  | eq => exact Std.LawfulEqCmp.eq_of_compare compared
  | gt => simp [compared] at below

theorem score_then_smallest_hash_iff (left right : UInt64 × Hash32) :
    scoreThenSmallestHash left right = true ↔
      left.1 < right.1 ∨ left.1 = right.1 ∧ (compareHash right.2 left.2).isLE = true := by
  simp [scoreThenSmallestHash]

theorem score_then_smallest_hash_linear : Linear scoreThenSmallestHash where
  total := by
    intro left right
    simp only [score_then_smallest_hash_iff]
    by_cases same : left.1 = right.1
    · rcases compare_hash_total left.2 right.2 with below | above
      · exact Or.inr (Or.inr ⟨same.symm, below⟩)
      · exact Or.inl (Or.inr ⟨same, above⟩)
    · rcases UInt64.lt_or_lt_of_ne same with below | above
      · exact Or.inl (Or.inl below)
      · exact Or.inr (Or.inl above)
  trans := by
    intro left middle right
    simp only [score_then_smallest_hash_iff]
    rintro (below | ⟨same, below⟩) (above | ⟨same', above⟩)
    · exact Or.inl (UInt64.lt_trans below above)
    · exact Or.inl (same' ▸ below)
    · exact Or.inl (same ▸ above)
    · exact Or.inr ⟨same.trans same', Std.TransCmp.isLE_trans above below⟩
  antisymm := by
    intro left right
    simp only [score_then_smallest_hash_iff]
    rintro (below | ⟨same, below⟩) (above | ⟨same', above⟩)
    · exact absurd (UInt64.lt_trans below above) (UInt64.lt_irrefl _)
    · exact absurd (same' ▸ below) (UInt64.lt_irrefl _)
    · exact absurd (same ▸ above) (UInt64.lt_irrefl _)
    · exact Prod.ext same (compare_hash_antisymm above below)

section Reordering

variable {left right : Dag}

structure SameUpToOrder (left right : Dag) : Prop where
  size : left.vertices.size = right.vertices.size
  block : ∀ hash, left.getBlock hash = right.getBlock hash
  children : ∀ hash, (childrenOf left hash).Perm (childrenOf right hash)

theorem greatest_height_eq (same : SameUpToOrder left right) :
    greatestHeight left = greatestHeight right := by
  funext hash heights
  have block := same.block hash
  unfold Dag.getBlock at block
  unfold greatestHeight
  cases found : left.vertices[hash]? <;> cases found' : right.vertices[hash]? <;>
    simp_all

theorem score_eq (same : SameUpToOrder left right) (rule : ForkChoiceRule) :
    scoreOf left rule = scoreOf right rule := by
  cases rule with
  | heaviestSubtree =>
    simp only [scoreOf, subtreeWeight, depthBound, same.size]
    refine fold_perm same.children addWeights (fun hash weights weights' perm => ?_) _
    rw [addWeights, addWeights, perm.length_eq, perm.foldl_eq]
  | longestChain =>
    simp only [scoreOf, maxHeightInSubtree, depthBound, same.size, greatest_height_eq same]
    refine fold_perm same.children _ (fun hash heights heights' perm => ?_) _
    rw [greatestHeight, greatestHeight, max_by_perm at_most_linear perm]

/-- Past the choice of the genesis nothing depends on an order. -/
theorem chain_eq (same : SameUpToOrder left right) (rule : ForkChoiceRule)
    (iteration iteration' : Arrangement DagVertex)
    (genesis : genesisHash iteration left = genesisHash iteration' right) :
    canonicalChain rule iteration left = canonicalChain rule iteration' right := by
  rw [canonical_chain_eq, canonical_chain_eq, chainBy, chainBy, genesis, score_eq same rule]
  cases genesisHash iteration' right with
  | none => rfl
  | some hash =>
    -- Depth bounds and scores agree, and a descent ignores the order of children.
    simp only [depthBound, same.size,
      descend_perm same.children (scoreOf right rule) score_then_smallest_hash_linear]

end Reordering

def Grounded (dag : Dag) : Prop :=
  ∃ rank, Ranked (childrenOf dag) rank ∧ ∀ hash, rank hash ≤ dag.vertices.size

theorem score_returns {dag : Dag} (grounded : Grounded dag) (rule : ForkChoiceRule)
    (hash : Hash32) : ∃ value, scoreOf dag rule hash = some value := by
  obtain ⟨rank, ranked, bounded⟩ := grounded
  have enough : rank hash < depthBound dag := Nat.lt_succ_of_le (bounded hash)
  cases rule with
  | heaviestSubtree => exact fold_returns ranked _ _ hash enough
  | longestChain => exact fold_returns ranked _ _ hash enough

theorem chain_returns {dag : Dag} (grounded : Grounded dag) (rule : ForkChoiceRule)
    (iteration : Arrangement DagVertex) :
    ∃ chain, canonicalChain rule iteration dag = some chain ∧
      chain.head? = genesisHash iteration dag := by
  rw [canonical_chain_eq, chainBy]
  cases genesisHash iteration dag with
  | none => exact ⟨[], rfl, rfl⟩
  | some genesis =>
    have scored := score_returns grounded rule
    obtain ⟨rank, ranked, bounded⟩ := grounded
    obtain ⟨path, walked⟩ := descend_returns ranked scoreThenSmallestHash scored
      (depthBound dag) genesis (Nat.lt_succ_of_le (bounded genesis))
    exact ⟨genesis :: path, walked, rfl⟩

end CeruleanLedger.ForkChoice
