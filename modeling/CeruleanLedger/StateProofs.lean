import CeruleanLedger.HeaderChains
import CeruleanLedger.InclusionProofs
import CeruleanLedger.QuorumValidation

/-!
The light client of `light_client/client.rs`. With a validator set it only tracks headers that
are certified, from the second on. The leaf of a state proof is the key followed by the value,
or the key alone for a key that does not exist: one leaf can be read as several statements.
-/

namespace CeruleanLedger.StateProofs

open ByteCodec BftVotes QuorumValidation GuardedRun HeaderChains HashLinks InclusionProofs

structure StateProof where
  key : String
  value : Bytes
  exists_ : Bool
  height : UInt64
  proof : InclusionProof

inductive LightClientError where
  | header (reason : HeaderError)
  | heightNotFound (height : UInt64)
  | proofFailed (key : String)
  | bftFailed (reason : String)
  | missingQc (height : UInt64)
  deriving DecidableEq

structure LightClient where
  chain : HeaderChain
  quorumValidator : Option QuorumValidator

/-- How `sync_header` ends without a new header: its own errors, or the panic
of the append. -/
inductive SyncFailure where
  | error (reason : LightClientError)
  | capacityOverflow
  deriving DecidableEq

namespace LightClient

def new : LightClient := ⟨.new, none⟩

def withBft (validators : List String) (verifier : SignatureVerifier) : LightClient :=
  ⟨.new, some (.new validators verifier)⟩

def checkCommitQc (validator : QuorumValidator) (header : BlockHeader) :
    Except LightClientError Unit :=
  match header.commitQc with
  | none => .error (.missingQc header.height)
  | some certificate =>
    if certificate.phase ≠ .commit then
      .error (.bftFailed ("expected Commit QC, got " ++ certificate.phase.debug))
    else if certificate.blockHash ≠ header.hash then
      .error (.bftFailed "QC block_hash does not match header hash")
    else match validator.validateQc certificate with
      | .error reason => .error (.bftFailed reason.display)
      | .ok () => .ok ()

def checkBft (client : LightClient) (header : BlockHeader) : Except LightClientError Unit :=
  match client.quorumValidator with
  | none => .ok ()
  | some validator => if header.height > 0 then checkCommitQc validator header else .ok ()

variable (sha256 : Bytes → Hash32) (client : LightClient)

def syncHeader (header : BlockHeader) : Except SyncFailure LightClient :=
  match client.checkBft header with
  | .error reason => .error (.error reason)
  | .ok () =>
    match client.chain.append sha256 header with
    | .error (.error reason) => .error (.error (.header reason))
    | .error .capacityOverflow => .error .capacityOverflow
    | .ok chain => .ok { client with chain := chain }

def offered (header : BlockHeader) : LightClient :=
  (client.syncHeader sha256 header).toOption.getD client

end LightClient

section Sync

def Certified (validator : QuorumValidator) (header : BlockHeader) : Prop :=
  ∃ certificate, header.commitQc = some certificate ∧ certificate.phase = .commit ∧
    certificate.blockHash = header.hash ∧ validator.validateQc certificate = .ok ()

theorem commit_qc_certified {validator : QuorumValidator} {header : BlockHeader}
    (checked : LightClient.checkCommitQc validator header = .ok ()) :
    Certified validator header := by
  unfold LightClient.checkCommitQc at checked
  split at checked
  · contradiction
  · rename_i certificate carried
    split at checked
    · contradiction
    · rename_i phase
      split at checked
      · contradiction
      · rename_i named
        split at checked
        · contradiction
        · rename_i valid
          exact ⟨certificate, carried, not_not.mp phase, not_not.mp named, valid⟩

/-- The headers of a client with a validator set: one verified chain, certified
above genesis. -/
structure Tracks (sha256 : Bytes → Hash32) (validator : QuorumValidator) (client : LightClient) :
    Prop where
  keeps : client.quorumValidator = some validator
  verified : Verified sha256 client.chain
  certified : ∀ header ∈ client.chain.headers, 0 < header.height → Certified validator header

variable {sha256 : Bytes → Hash32} {validator : QuorumValidator} {client : LightClient}

theorem sync_header_tracks (tracks : Tracks sha256 validator client) {header : BlockHeader}
    {next : LightClient} (synced : client.syncHeader sha256 header = .ok next) :
    Tracks sha256 validator next := by
  unfold LightClient.syncHeader LightClient.checkBft at synced
  rw [tracks.keeps] at synced
  dsimp only at synced
  split at synced
  · contradiction
  · rename_i checked
    split at synced
    · contradiction
    · contradiction
    · rename_i chain appended
      rw [← Except.ok.inj synced]
      refine ⟨rfl, append_verified tracks.verified appended, ?_⟩
      intro other member above
      rw [(append_ok appended).2.2.2, List.mem_append, List.mem_singleton] at member
      rcases member with earlier | rfl
      · exact tracks.certified other earlier above
      · rw [if_pos above] at checked
        exact commit_qc_certified checked

theorem offered_tracks (tracks : Tracks sha256 validator client) (header : BlockHeader) :
    Tracks sha256 validator (client.offered sha256 header) := by
  unfold LightClient.offered
  cases synced : client.syncHeader sha256 header with
  | error reason => exact tracks
  | ok next => exact sync_header_tracks tracks synced

/-- Over every run of `sync_header`, whatever headers are offered. -/
theorem synced_chain_certified (sha256 : Bytes → Hash32) (validators : List String)
    (verifier : SignatureVerifier) (headers : List BlockHeader) :
    Tracks sha256 (.new validators verifier)
      (headers.foldl (LightClient.offered sha256) (.withBft validators verifier)) :=
  run_keeps (Tracks sha256 (.new validators verifier)) _ headers
    ⟨rfl, ⟨fun _ member => (nomatch member), linked_nil⟩, fun _ member => (nomatch member)⟩
    fun _ header tracks => offered_tracks tracks header

end Sync

def StateProof.leafData (proof : StateProof) : Bytes :=
  if proof.exists_ then utf8 proof.key ++ proof.value else utf8 proof.key

namespace LightClient

variable (sha256 : Bytes → Hash32) (client : LightClient)

def verifyStateProof (proof : StateProof) : Except LightClientError Bool :=
  match client.chain.get proof.height with
  | none => .error (.heightNotFound proof.height)
  | some header =>
    if proof.proof.root ≠ header.stateRoot then
      .error (.proofFailed ("proof root does not match state_root at height " ++
        toString proof.height))
    else if !verifyMerkleProof sha256 proof.leafData proof.proof then
      .error (.proofFailed proof.key)
    else .ok proof.exists_

def Accepts (proof : StateProof) : Prop :=
  ∃ found, client.verifyStateProof sha256 proof = .ok found

theorem accepts_iff (proof : StateProof) :
    client.Accepts sha256 proof ↔
      ∃ header, client.chain.get proof.height = some header ∧
        proof.proof.root = header.stateRoot ∧
        verifyMerkleProof sha256 proof.leafData proof.proof = true := by
  unfold Accepts verifyStateProof
  cases client.chain.get proof.height with
  | none => simp
  | some header =>
    by_cases rooted : proof.proof.root = header.stateRoot
    · cases verified : verifyMerkleProof sha256 proof.leafData proof.proof <;> simp [rooted]
    · simp [rooted]

end LightClient

section Readings

/-- The first gives a key its value; the second names another key for the leaf, or
says that the key is absent or has another value. -/
def Denies (second first : StateProof) : Prop :=
  first.exists_ = true ∧
    (second.key ≠ first.key ∨ second.exists_ = false ∨ second.value ≠ first.value)

def Contradictory (first second : StateProof) : Prop :=
  Denies second first ∨ Denies first second

def SameLayout (first second : StateProof) : Prop :=
  (utf8 first.key).length = (utf8 second.key).length ∧ first.exists_ = second.exists_
  deriving Decidable

variable {first second : StateProof}

theorem same_layout_comm : SameLayout first second ↔ SameLayout second first := by
  unfold SameLayout
  rw [eq_comm, eq_comm (a := first.exists_)]

theorem same_leaf_same_statement (layout : SameLayout first second)
    (leaf : first.leafData = second.leafData) :
    first.key = second.key ∧ (first.exists_ = true → first.value = second.value) := by
  obtain ⟨lengths, flags⟩ := layout
  unfold StateProof.leafData at leaf
  rw [← flags] at leaf
  cases present : first.exists_ with
  | false =>
    rw [present] at leaf
    exact ⟨utf8_injective leaf, fun absent => nomatch absent⟩
  | true =>
    rw [present] at leaf
    obtain ⟨keys, values⟩ := List.append_inj leaf lengths
    exact ⟨utf8_injective keys, fun _ => values⟩

theorem not_denied (layout : SameLayout first second)
    (leaf : first.leafData = second.leafData) : ¬ Denies second first := by
  rintro ⟨present, otherKey | absent | otherValue⟩
  · exact otherKey (same_leaf_same_statement layout leaf).1.symm
  · rw [layout.2, absent] at present
    contradiction
  · exact otherValue ((same_leaf_same_statement layout leaf).2 present).symm

theorem denied_of_layout (present : first.exists_ = true) (layout : ¬ SameLayout first second) :
    Denies second first := by
  refine ⟨present, ?_⟩
  by_contra same
  push Not at same
  apply layout
  exact ⟨by rw [same.1], by rw [present, eq_comm, ← Bool.not_eq_false]; exact same.2.1⟩

/-- Two readings of one leaf contradict each other exactly if they split it
differently. -/
theorem contradictory_iff (leaf : first.leafData = second.leafData) :
    Contradictory first second ↔ ¬ SameLayout first second := by
  constructor
  · rintro (denied | denied) layout
    · exact not_denied layout leaf denied
    · exact not_denied (same_layout_comm.mp layout) leaf.symm denied
  · intro layout
    cases firstPresent : first.exists_ with
    | true => exact .inl (denied_of_layout firstPresent layout)
    | false =>
      cases secondPresent : second.exists_ with
      | true => exact .inr (denied_of_layout secondPresent (mt same_layout_comm.mp layout))
      | false =>
        -- Two keys alone: the leaves are the keys.
        exfalso
        apply layout
        unfold StateProof.leafData at leaf
        rw [firstPresent, secondPresent] at leaf
        exact ⟨congrArg List.length leaf, by rw [firstPresent, secondPresent]⟩

end Readings

variable (sha256 : Bytes → Hash32) (client : LightClient) (first second : StateProof)

def hashedInputs : List Bytes :=
  verifyInputs sha256 first.leafData first.proof ++ verifyInputs sha256 second.leafData second.proof

structure SamePlace (first second : StateProof) : Prop where
  height : first.height = second.height
  leaf : first.proof.leafIndex = second.proof.leafIndex
  depth : first.proof.merklePath.length = second.proof.merklePath.length

/-- The Merkle path pins the bytes of the leaf and nothing else: proofs accepted
for one place have one leaf, and they contradict each other exactly if they split
it at different lengths or disagree on whether there is a value. -/
theorem accepted_readings (place : SamePlace first second)
    (free : CollisionFree sha256 (hashedInputs sha256 first second))
    (firstAccepted : client.Accepts sha256 first)
    (secondAccepted : client.Accepts sha256 second) :
    first.leafData = second.leafData ∧
      (Contradictory first second ↔ ¬ SameLayout first second) := by
  obtain ⟨header, found, rooted, verified⟩ := (client.accepts_iff sha256 first).mp firstAccepted
  obtain ⟨other, foundOther, rootedOther, verifiedOther⟩ :=
    (client.accepts_iff sha256 second).mp secondAccepted
  have sameHeader : header = other := by
    rw [place.height, foundOther] at found
    exact (Option.some.inj found).symm
  have sameRoot : first.proof.root = second.proof.root := by
    rw [rooted, rootedOther, sameHeader]
  have leaf := verified_data_unique sameRoot place.leaf place.depth free verified verifiedOther
  exact ⟨leaf, contradictory_iff leaf⟩

/-- No two proofs that the client accepts for one place contradict each other. -/
def NeverContradictory : Prop :=
  ∀ (client : LightClient) first second, SamePlace first second →
    CollisionFree sha256 (hashedInputs sha256 first second) →
    client.Accepts sha256 first → client.Accepts sha256 second → ¬ Contradictory first second

def abcHeader : BlockHeader :=
  let header : BlockHeader :=
    ⟨0, zeroHash, zeroHash, zeroHash, sha256 (utf8 "abc"), 0, "node", 0, none⟩
  { header with hash := header.computeHash sha256 }

def abcClient : LightClient := ⟨.built sha256 [abcHeader sha256], none⟩

theorem abc_header_synced : (abcClient sha256).chain.get 0 = some (abcHeader sha256) := by
  have appended : HeaderChain.append sha256 .new (abcHeader sha256) =
      .ok ⟨[abcHeader sha256], by simp [vecLimit]⟩ := by
    unfold HeaderChain.append
    rw [if_neg (by simp [BlockHeader.verifyHash, abcHeader, BlockHeader.computeHash,
      BlockHeader.hashedBytes])]
    rfl
  simp only [abcClient, HeaderChain.built, List.foldl_cons, List.foldl_nil, HeaderChain.offer,
    appended]
  rfl

def reading (key value : String) : StateProof :=
  ⟨key, utf8 value, true, 0, soleProof sha256 (utf8 "abc")⟩

theorem reading_accepted (key value : String) (split : utf8 key ++ utf8 value = utf8 "abc") :
    (abcClient sha256).Accepts sha256 (reading sha256 key value) := by
  rw [LightClient.accepts_iff]
  refine ⟨abcHeader sha256, abc_header_synced sha256, rfl, ?_⟩
  change verifyMerkleProof sha256 (utf8 key ++ utf8 value) _ = true
  rw [split]
  exact sole_proof_verifies sha256 _

/-- Whatever hash function is used: a client that has synced a header over the
leaf `abc` accepts `bc` under the key `a` and `c` under the key `ab`. -/
theorem leaf_read_two_ways : ¬ ∃ sha256, NeverContradictory sha256 := by
  rintro ⟨sha256, never⟩
  have keys : "ab" ≠ "a" := by decide
  apply never (abcClient sha256) (reading sha256 "a" "bc") (reading sha256 "ab" "c")
    ⟨rfl, rfl, rfl⟩ ?_ (reading_accepted sha256 _ _ (by decide))
    (reading_accepted sha256 _ _ (by decide))
  · exact .inl ⟨rfl, .inl keys⟩
  · -- Both checks hash the one string `abc`.
    have inputs : hashedInputs sha256 (reading sha256 "a" "bc") (reading sha256 "ab" "c") =
        [utf8 "abc", utf8 "abc"] := by rfl
    rw [inputs]
    simp [CollisionFree]

theorem right_leaf_read_two_ways :
    let place : InclusionProof := ⟨[leadingBytes (utf8 "x")], 1,
      hashPair leadingBytes (leadingBytes (utf8 "x")) (leadingBytes (utf8 "abc")), zeroHash, 0⟩
    let header : BlockHeader := { sealed 0 zeroHash 0 with stateRoot := place.root }
    let client : LightClient :=
      ⟨.built leadingBytes [{ header with hash := header.computeHash leadingBytes }], none⟩
    let first : StateProof := ⟨"a", utf8 "bc", true, 0, place⟩
    let second : StateProof := ⟨"ab", utf8 "c", true, 0, place⟩
    client.Accepts leadingBytes first ∧ client.Accepts leadingBytes second ∧
      Contradictory first second := by
  intro place header client first second
  have firstAccepted : client.Accepts leadingBytes first := ⟨true, by decide +kernel⟩
  have secondAccepted : client.Accepts leadingBytes second := ⟨true, by decide +kernel⟩
  have readings := accepted_readings leadingBytes client first second ⟨rfl, rfl, rfl⟩
    (by decide +kernel) firstAccepted secondAccepted
  exact ⟨firstAccepted, secondAccepted, readings.2.mpr (by decide +kernel)⟩

end CeruleanLedger.StateProofs
