import CeruleanLedger.GuardedRun
import CeruleanLedger.OrderedMap
import CeruleanLedger.OrderingLayer

/-!
What P2P messages write into a peer's block store, in `network/mod.rs`: the
`OrderedBlock` arm of `process_message` and the answers that the pull loop reads.
Each `write_block` is one step, and what the database answers to it is part of
the input. No other message touches the block store.
-/

namespace CeruleanLedger.PeerStore

open ByteCodec BlockStore GuardedRun OrderingLayer

inductive NodeRole where
  | peer
  | orderer
  | peerAndOrderer
  deriving DecidableEq

inductive Message where
  | orderedBlock (block : Block)
  | stateResponse (blocks : List Block)
  | other

def stateBatchSize : Nat := 50

/-- A message that a peer sends, or the answer to a `StateRequest` that the pull
loop reads from its own stream. -/
inductive Arrival where
  | sent (message : Message)
  | pulled (answer : Message)

def handled (role : NodeRole) : Arrival → List Block
  | .sent (.orderedBlock block) =>
    match role with
    | .peer => [block]
    | .orderer => []
    | .peerAndOrderer => [block]
  -- An unsolicited answer is ignored.
  | .sent _ => []
  | .pulled (.stateResponse blocks) => blocks.take stateBatchSize
  | .pulled _ => []

/-- The store, and the heights that message handling has written; no step reads
the latter. -/
structure Peer where
  store : Store
  written : List UInt64

/-- `let _ = store.write_block(&block)`. -/
def write (peer : Peer) (input : Block × Option String) : Peer :=
  match peer.store.writeBlock input.2 input.1 with
  | .error _ => peer
  | .ok store => ⟨store, input.1.height :: peer.written⟩

/-- The writes of a sequence of messages; the database answers the one at each
place with the given fault. -/
def writes (role : NodeRole) (faults : Nat → Option String) (arrivals : List Arrival) :
    List (Block × Option String) :=
  (arrivals.flatMap (handled role)).zipIdx.map fun entry => (entry.1, faults entry.2)

/-- A key that the peer knows an orderer by. -/
inductive OrdererKey where
  | ed25519 (key : Hash32)
  | provider (signer : SigningProvider) (verify : Bytes → Bytes → Except String Bool)

def OrdererKey.verifies (crypto : Crypto) (block : Block) : OrdererKey → Prop
  | .ed25519 key => verifyOrdererSignature crypto block key = .ok true
  | .provider signer verify => verifyBlockSignature crypto block signer verify = .ok true

variable (crypto : Crypto) (known : List OrdererKey) (hashOf : Block → Hash32)

def Authenticated (block : Block) : Prop := ∃ key ∈ known, key.verifies crypto block

def Linked (store : Store) (height : UInt64) (block : Block) : Prop :=
  ∃ parent, store.blocks[height - 1]? = some parent ∧ block.parentHash = hashOf parent

/-- Every block above the genesis that message handling has written and that is
stored is authenticated, and linked to the block stored below it. -/
def Sound (peer : Peer) : Prop :=
  ∀ (height : UInt64) (block : Block), height ∈ peer.written → 0 < height →
    peer.store.blocks[height]? = some block →
      Authenticated crypto known block ∧ Linked hashOf peer.store height block

/-- A block that gets stored is authenticated and linked, and what was linked to
the block in its place is linked to it as well. -/
def Fits (peer : Peer) (input : Block × Option String) : Prop :=
  (peer.store.writeBlock input.2 input.1).isOk = true →
    (0 < input.1.height →
      Authenticated crypto known input.1 ∧ Linked hashOf peer.store input.1.height input.1) ∧
    ∀ (height : UInt64) (child : Block), height ∈ peer.written → 0 < height →
      height - 1 = input.1.height → peer.store.blocks[height]? = some child →
        child.parentHash = hashOf input.1

variable {crypto known hashOf}

theorem below_ne (height : UInt64) : height ≠ height - 1 := by
  intro same
  exact absurd (sub_eq_self.mp same.symm) (by decide)

theorem write_sound_iff (peer : Peer) (input : Block × Option String)
    (sound : Sound crypto known hashOf peer) :
    Sound crypto known hashOf (write peer input) ↔ Fits crypto known hashOf peer input := by
  obtain ⟨block, fault⟩ := input
  cases answered : peer.store.writeBlock fault block with
  | error reason =>
    have same : write peer (block, fault) = peer := by
      simp only [write, answered]
    have refused : Fits crypto known hashOf peer (block, fault) := by
      intro stored
      rw [answered] at stored
      cases stored
    rw [same]
    exact ⟨fun _ => refused, fun _ => sound⟩
  | ok store =>
    have after : write peer (block, fault) = ⟨store, block.height :: peer.written⟩ := by
      simp only [write, answered]
    have lookup : ∀ height : UInt64, store.blocks[height]? =
        if block.height = height then some block else peer.store.blocks[height]? := by
      intro height
      rw [(Store.write_block_ok answered).1, OrderedMap.get_insert]
    have stored : (peer.store.writeBlock fault block).isOk = true := by
      rw [answered]
      rfl
    rw [after]
    constructor
    · intro kept _
      constructor
      · intro positive
        obtain ⟨authentic, parent, found, link⟩ := kept block.height block List.mem_cons_self
          positive (by rw [lookup, if_pos rfl])
        rw [lookup, if_neg (below_ne _)] at found
        exact ⟨authentic, parent, found, link⟩
      · intro height child member positive below present
        have other : block.height ≠ height := by
          rw [← below]
          exact (below_ne height).symm
        obtain ⟨-, parent, found, link⟩ := kept height child (List.mem_cons_of_mem _ member)
          positive (by rw [lookup, if_neg other]; exact present)
        rw [below, lookup, if_pos rfl] at found
        cases found
        exact link
    · intro fits height current member positive present
      obtain ⟨own, children⟩ := fits stored
      rw [lookup] at present
      by_cases same : block.height = height
      · rw [if_pos same] at present
        cases present
        subst same
        obtain ⟨authentic, parent, found, link⟩ := own positive
        refine ⟨authentic, parent, ?_, link⟩
        rw [lookup, if_neg (below_ne _)]
        exact found
      · rw [if_neg same] at present
        have old : height ∈ peer.written :=
          (List.mem_cons.mp member).resolve_left (Ne.symm same)
        obtain ⟨authentic, parent, found, link⟩ := sound height current old positive present
        refine ⟨authentic, ?_⟩
        -- The block below may be the one that was replaced just now.
        by_cases below : block.height = height - 1
        · refine ⟨block, ?_, children height current old positive below.symm present⟩
          rw [lookup, if_pos below]
        · refine ⟨parent, ?_, link⟩
          rw [lookup, if_neg below]
          exact found

/-- For every sequence of messages, the store is sound at every moment exactly
when every block that gets stored fits: the handlers check nothing themselves. -/
theorem stores_sound_iff (crypto : Crypto) (known : List OrdererKey) (hashOf : Block → Hash32)
    (role : NodeRole) (store : Store) (faults : Nat → Option String) (arrivals : List Arrival) :
    (∀ count, Sound crypto known hashOf
      (((writes role faults arrivals).take count).foldl write ⟨store, []⟩)) ↔
      AllMeet write (Fits crypto known hashOf) ⟨store, []⟩ (writes role faults arrivals) := by
  apply prefixes_hold_iff (Sound crypto known hashOf) write_sound_iff
  intro height block member
  cases member

def forgedBlock (height : UInt64) : Block := orderedBlock 0 height "mallory" ["theft"]

def genuineBlock : Block :=
  signBlock paddingCrypto zeroHash (orderedBlock 0 1 "orderer" ["tx1"])

/-- One message puts an unsigned block without a predecessor into an empty store,
and the answer to a pull replaces the orderer's signed block in a database. -/
theorem forged_blocks_stored :
    let sent := (writes .peer (fun _ => none) [.sent (.orderedBlock (forgedBlock 7))]).foldl write
      ⟨.memory .new, []⟩
    let pulled := (writes .peer (fun _ => none) [.sent (.orderedBlock genuineBlock),
      .pulled (.stateResponse [forgedBlock 1])]).foldl write ⟨.rocksDb .new, []⟩
    sent.store.blocks[(7 : UInt64)]? = some (forgedBlock 7) ∧
      sent.store.blocks[(6 : UInt64)]? = none ∧
      verifyOrdererSignature paddingCrypto (forgedBlock 7) zeroHash = .ok false ∧
      ¬ Sound paddingCrypto [.ed25519 zeroHash] (blockHashForSigning paddingCrypto) sent ∧
      verifyOrdererSignature paddingCrypto genuineBlock zeroHash = .ok true ∧
      pulled.store.blocks[(1 : UInt64)]? = some (forgedBlock 1) := by
  intro sent pulled
  have stored : sent.store.blocks[(7 : UInt64)]? = some (forgedBlock 7) := by decide +kernel
  have alone : sent.store.blocks[(6 : UInt64)]? = none := by decide +kernel
  refine ⟨stored, alone, rfl, ?_, by decide +kernel, by decide +kernel⟩
  intro sound
  obtain ⟨-, parent, found, -⟩ := sound 7 (forgedBlock 7) (by decide +kernel) (by decide) stored
  have below : (7 : UInt64) - 1 = 6 := rfl
  rw [below, alone] at found
  cases found

end CeruleanLedger.PeerStore
