import CeruleanLedger.BftVotes
import CeruleanLedger.EndorsementCheck
import CeruleanLedger.OrderedMap

/-!
Blocks of the consensus layer and the DAG that holds them: `consensus/dag.rs`.
The vertex map is keyed by block hash; iteration order plays no part in the
operations modelled here.
-/

namespace CeruleanLedger.BlockDag

open ByteCodec BftVotes EndorsementCheck OrderedMap

structure DagBlock where
  hash : Hash32
  parentHash : Hash32
  height : UInt64
  slot : UInt64
  timestamp : UInt64
  proposer : String
  signature : Bytes
  signatureAlgorithm : SigningAlgorithm
  secondarySignature : Option Bytes
  secondarySignatureAlgorithm : Option SigningAlgorithm
  transactions : List Hash32
  commitQc : Option QuorumCertificate
  deriving DecidableEq

def DagBlock.isGenesis (block : DagBlock) : Bool := block.parentHash == zeroHash

structure DagVertex where
  block : DagBlock
  children : List Hash32
  deriving DecidableEq

def DagVertex.new (block : DagBlock) : DagVertex := ⟨block, []⟩

def DagVertex.addChild (vertex : DagVertex) (childHash : Hash32) : DagVertex :=
  if vertex.children.contains childHash then vertex
  else { vertex with children := vertex.children ++ [childHash] }

structure Dag where
  vertices : Std.ExtTreeMap Hash32 DagVertex compareHash
  head : Option Hash32
  blockCount : UInt64

namespace Dag

def new : Dag := ⟨∅, none, 0⟩

def addBlock (dag : Dag) (block : DagBlock) : Except String Dag :=
  if dag.vertices.contains block.hash then .error "Block already exists"
  else if !block.isGenesis && !dag.vertices.contains block.parentHash then
    .error "Parent block not found"
  else
    let inserted := dag.vertices.insert block.hash (DagVertex.new block)
    .ok {
      vertices :=
        if block.isGenesis then inserted
        else inserted.modify block.parentHash (·.addChild block.hash)
      head := some block.hash
      blockCount := dag.blockCount + 1 }

def getBlock (dag : Dag) (hash : Hash32) : Option DagBlock :=
  dag.vertices[hash]?.map DagVertex.block

@[simp] theorem add_child_block (vertex : DagVertex) (childHash : Hash32) :
    (vertex.addChild childHash).block = vertex.block := by
  unfold DagVertex.addChild
  split <;> rfl

/-- Adding a block makes exactly that block visible: linking it into the
parent's child list changes no stored block. -/
theorem get_block_add_block {dag after : Dag} {block : DagBlock}
    (added : dag.addBlock block = .ok after) (hash : Hash32) :
    after.getBlock hash = if block.hash = hash then some block else dag.getBlock hash := by
  unfold addBlock at added
  split at added
  · cases added
  · split at added
    · cases added
    · simp only [Except.ok.injEq] at added
      subst added
      unfold getBlock
      by_cases genesis : block.isGenesis = true
      · simp only [genesis, ↓reduceIte, get_insert]
        split <;> rfl
      · simp only [genesis, Bool.false_eq_true, ↓reduceIte, get_modify, get_insert]
        by_cases isParent : block.parentHash = hash
        · subst isParent
          by_cases same : block.hash = block.parentHash
          · simp [same, DagVertex.new]
          · simp [same, Function.comp_def]
        · by_cases same : block.hash = hash <;> simp [isParent, same, DagVertex.new]

end Dag

end CeruleanLedger.BlockDag
