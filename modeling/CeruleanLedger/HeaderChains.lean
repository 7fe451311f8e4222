import CeruleanLedger.BftVotes
import CeruleanLedger.GuardedRun
import CeruleanLedger.HashLinks

/-!
The headers of `light_client/header.rs` and the chain a light client builds from
them. SHA-256 is a parameter. The hashed bytes have fixed widths up to the
proposer, which comes last, so they determine the fields; `tx_count` and
`commit_qc` are not hashed.
-/

namespace CeruleanLedger.HeaderChains

open ByteCodec BftVotes GuardedRun HashLinks

structure BlockHeader where
  height : UInt64
  hash : Hash32
  parentHash : Hash32
  txMerkleRoot : Hash32
  stateRoot : Hash32
  timestamp : UInt64
  proposer : String
  txCount : UInt32
  commitQc : Option QuorumCertificate
  deriving DecidableEq

inductive HeaderError where
  | invalidHash (height : UInt64)
  | invalidParent (height : UInt64)
  | invalidGenesis
  deriving DecidableEq

/-- How `append` ends without a new header: its own errors, or the panic of
`Vec::push` when the vector cannot grow. -/
inductive Refusal where
  | error (reason : HeaderError)
  | capacityOverflow
  deriving DecidableEq

/-- A vector holds at most `isize::MAX` bytes, so no more headers than that. -/
def vecLimit : Nat := 2 ^ 63 - 1

structure HeaderChain where
  headers : List BlockHeader
  fits : headers.length ≤ vecLimit

namespace BlockHeader

/-- The bytes hashed by `compute_hash`, in the order of the updates. -/
def hashedBytes (header : BlockHeader) : Bytes :=
  toLeBytes header.height ++ (header.parentHash.toList ++ (header.txMerkleRoot.toList ++
    (header.stateRoot.toList ++ (toLeBytes header.timestamp ++ utf8 header.proposer))))

def covered (header : BlockHeader) : Hash32 × Hash32 × Hash32 × UInt64 × String :=
  (header.parentHash, header.txMerkleRoot, header.stateRoot, header.timestamp, header.proposer)

theorem hashed_bytes_determine {left right : BlockHeader}
    (same : left.hashedBytes = right.hashedBytes) :
    left.height = right.height ∧ left.covered = right.covered := by
  unfold hashedBytes at same
  obtain ⟨height, same⟩ := List.append_inj same (by simp)
  obtain ⟨parentHash, same⟩ := List.append_inj same (by simp)
  obtain ⟨txMerkleRoot, same⟩ := List.append_inj same (by simp)
  obtain ⟨stateRoot, same⟩ := List.append_inj same (by simp)
  obtain ⟨timestamp, proposer⟩ := List.append_inj same (by simp)
  simp only [covered, Prod.mk.injEq]
  exact ⟨to_le_bytes_injective height, hash_bytes_injective parentHash,
    hash_bytes_injective txMerkleRoot, hash_bytes_injective stateRoot,
    to_le_bytes_injective timestamp, utf8_injective proposer⟩

variable (sha256 : Bytes → Hash32) (header : BlockHeader)

def computeHash : Hash32 := sha256 header.hashedBytes

def verifyHash : Bool := header.hash == header.computeHash sha256

/-- The height of the parent plus one wraps in a release build. -/
def verifyParent (parent : BlockHeader) : Bool :=
  header.parentHash == parent.hash && header.height == parent.height + 1

end BlockHeader

open BlockHeader

namespace HeaderChain

def new : HeaderChain := ⟨[], by decide⟩

variable (sha256 : Bytes → Hash32) (chain : HeaderChain) (header : BlockHeader)

def tip : Option BlockHeader := chain.headers.getLast?

def get (height : UInt64) : Option BlockHeader := chain.headers[height.toNat]?

def len : Nat := chain.headers.length

def checkLinkage : Except HeaderError Unit :=
  match chain.tip with
  | some tip =>
    if header.verifyParent tip then .ok () else .error (.invalidParent header.height)
  | none => if header.height ≠ 0 then .error .invalidGenesis else .ok ()

def push : Except Refusal HeaderChain :=
  if room : chain.headers.length < vecLimit then
    .ok ⟨chain.headers ++ [header], by rw [List.length_append]; exact room⟩
  else .error .capacityOverflow

def append : Except Refusal HeaderChain :=
  if !header.verifyHash sha256 then .error (.error (.invalidHash header.height))
  else match chain.checkLinkage header with
    | .error reason => .error (.error reason)
    | .ok () => chain.push header

def offer : HeaderChain := (chain.append sha256 header).toOption.getD chain

def built (headers : List BlockHeader) : HeaderChain := headers.foldl (offer sha256) new

def hashedInputs : List Bytes := chain.headers.map hashedBytes

end HeaderChain

section Linkage

variable {sha256 : Bytes → Hash32} {chain next : HeaderChain} {header : BlockHeader}

structure Verified (sha256 : Bytes → Hash32) (chain : HeaderChain) : Prop where
  hashed : ∀ header ∈ chain.headers, header.hash = header.computeHash sha256
  linked : Linked hash parentHash (fun header => header.height.toNat)
    chain.headers

theorem append_ok (appended : chain.append sha256 header = .ok next) :
    header.hash = header.computeHash sha256 ∧ chain.checkLinkage header = .ok () ∧
      chain.headers.length < vecLimit ∧ next.headers = chain.headers ++ [header] := by
  unfold HeaderChain.append HeaderChain.push at appended
  split at appended
  · contradiction
  · rename_i hashed
    split at appended
    · contradiction
    · rename_i linkage
      split at appended
      · rename_i room
        refine ⟨by simpa [verifyHash] using hashed, linkage, room, ?_⟩
        rw [← Except.ok.inj appended]
      · contradiction

theorem check_linkage_some {tip : BlockHeader} (present : chain.tip = some tip)
    (checked : chain.checkLinkage header = .ok ()) :
    header.parentHash = tip.hash ∧ header.height = tip.height + 1 := by
  unfold HeaderChain.checkLinkage at checked
  rw [present] at checked
  dsimp only at checked
  split at checked
  · rename_i verified
    simpa [verifyParent] using verified
  · contradiction

theorem check_linkage_none (absent : chain.tip = none)
    (checked : chain.checkLinkage header = .ok ()) : header.height = 0 := by
  unfold HeaderChain.checkLinkage at checked
  rw [absent] at checked
  dsimp only at checked
  split at checked
  · contradiction
  · rename_i zero
    exact not_not.mp zero

/-- The capacity of the vector keeps the height from wrapping. -/
theorem next_height (verified : Verified sha256 chain)
    (checked : chain.checkLinkage header = .ok ()) :
    header.height.toNat = chain.headers.length := by
  cases standing : chain.tip with
  | none =>
    rw [check_linkage_none standing checked, List.getLast?_eq_none_iff.mp standing]
    rfl
  | some tip =>
    have some := List.length_pos_of_mem (List.mem_of_getLast? standing)
    have fits := chain.fits
    have place := verified.linked.positioned _ tip
      (by rw [← List.getLast?_eq_getElem?]; exact standing)
    rw [(check_linkage_some standing checked).2, UInt64.toNat_add, place]
    simp only [vecLimit, UInt64.reduceToNat] at *
    omega

theorem append_verified (verified : Verified sha256 chain)
    (appended : chain.append sha256 header = .ok next) : Verified sha256 next := by
  obtain ⟨hashed, linkage, _, extended⟩ := append_ok appended
  constructor
  · intro other member
    rw [extended, List.mem_append, List.mem_singleton] at member
    rcases member with earlier | rfl
    · exact verified.hashed other earlier
    · exact hashed
  · rw [extended]
    apply verified.linked.extend header (next_height verified linkage)
    intro tip last
    exact (check_linkage_some last linkage).1

theorem offer_verified (verified : Verified sha256 chain) (header : BlockHeader) :
    Verified sha256 (chain.offer sha256 header) := by
  unfold HeaderChain.offer
  cases appended : chain.append sha256 header with
  | error reason => exact verified
  | ok next => exact append_verified verified appended

theorem built_verified (sha256 : Bytes → Hash32) (headers : List BlockHeader) :
    Verified sha256 (.built sha256 headers) :=
  run_keeps (Verified sha256) .new headers ⟨fun _ member => (nomatch member), linked_nil⟩
    fun _ header verified => offer_verified verified header

variable {left right : HeaderChain} (leftVerified : Verified sha256 left)
variable (rightVerified : Verified sha256 right)
variable (free : CollisionFree sha256 (left.hashedInputs ++ right.hashedInputs))

include leftVerified rightVerified free

theorem same_hash_same_fields {first second : BlockHeader} (inLeft : first ∈ left.headers)
    (inRight : second ∈ right.headers) (same : first.hash = second.hash) :
    first.height = second.height ∧ first.covered = second.covered := by
  rw [leftVerified.hashed first inLeft, rightVerified.hashed second inRight] at same
  apply hashed_bytes_determine
  apply free _ _ _ _ same
  · exact List.mem_append_left _ (List.mem_map_of_mem inLeft)
  · exact List.mem_append_right _ (List.mem_map_of_mem inRight)

theorem hashes_bind :
    Binds hash parentHash (fun header => header.height.toNat)
      left.headers right.headers := by
  intro first inLeft second inRight same
  obtain ⟨height, covered⟩ :=
    same_hash_same_fields leftVerified rightVerified free inLeft inRight same
  exact ⟨congrArg UInt64.toNat height, congrArg Prod.fst covered⟩

theorem same_tip_same_fields
    (tips : left.tip.map hash = right.tip.map hash) (height : UInt64) :
    (left.get height).map covered = (right.get height).map covered := by
  have hashes := digests_agree leftVerified.linked rightVerified.linked
    (hashes_bind leftVerified rightVerified free) tips height.toNat
  unfold HeaderChain.get
  cases first : left.headers[height.toNat]? with
  | none =>
    rw [first, Option.map_none, eq_comm, Option.map_eq_none_iff] at hashes
    rw [hashes]
  | some header =>
    cases second : right.headers[height.toNat]? with
    | none => rw [first, second] at hashes; exact nomatch hashes
    | some other =>
      rw [first, second] at hashes
      have fields := same_hash_same_fields leftVerified rightVerified free
        (List.mem_of_getElem? first) (List.mem_of_getElem? second) (Option.some.inj hashes)
      exact congrArg some fields.2

end Linkage

/-- A header is found under its own height, and two chains that end in the same
hash have the same length and the same hashed fields at every height. Of SHA-256
it is only assumed that the headers of the two chains do not collide. -/
theorem one_tip_one_chain (sha256 : Bytes → Hash32) (leftOffered rightOffered : List BlockHeader) :
    let left := HeaderChain.built sha256 leftOffered
    let right := HeaderChain.built sha256 rightOffered
    (∀ height header, left.get height = some header → header.height = height) ∧
      (CollisionFree sha256 (left.hashedInputs ++ right.hashedInputs) →
        left.tip.map hash = right.tip.map hash →
        left.len = right.len ∧
          ∀ height, (left.get height).map covered =
            (right.get height).map covered) := by
  intro left right
  have leftVerified : Verified sha256 left := built_verified sha256 leftOffered
  have rightVerified : Verified sha256 right := built_verified sha256 rightOffered
  constructor
  · intro height header found
    exact UInt64.toNat_inj.mp (leftVerified.linked.positioned _ _ found)
  · intro free tips
    have lengths := lengths_agree leftVerified.linked rightVerified.linked
      (hashes_bind leftVerified rightVerified free) tips
    exact ⟨lengths, same_tip_same_fields leftVerified rightVerified free tips⟩

/-- Stands in for SHA-256: the first 32 bytes, which include the height. -/
def leadingBytes (bytes : Bytes) : Hash32 :=
  ⟨((bytes ++ List.replicate 32 0).take 32).toArray, by simp⟩

def sealed (height : UInt64) (parentHash : Hash32) (txCount : UInt32) : BlockHeader :=
  let header : BlockHeader := ⟨height, zeroHash, parentHash, zeroHash, zeroHash, 7, "node", txCount,
    none⟩
  { header with hash := header.computeHash leadingBytes }

def first : BlockHeader := sealed 0 zeroHash 0

/-- The second chain was offered the second header too early and with another
count of transactions, which the hash does not cover. -/
theorem two_headers_bound :
    let left := [first, sealed 1 first.hash 2]
    let right := [sealed 1 first.hash 9, first, sealed 1 first.hash 9]
    (HeaderChain.built leadingBytes left).len = 2 ∧
      (HeaderChain.built leadingBytes left).len = (HeaderChain.built leadingBytes right).len ∧
      ((HeaderChain.built leadingBytes left).get 1).map covered =
        ((HeaderChain.built leadingBytes right).get 1).map covered := by
  intro left right
  have agreement := (one_tip_one_chain leadingBytes left right).2 (by decide +kernel)
    (by decide +kernel)
  exact ⟨by decide +kernel, agreement.1, agreement.2 1⟩

end CeruleanLedger.HeaderChains
