import CeruleanLedger.ForestPaths
import CeruleanLedger.GatewaySubmit
import CeruleanLedger.IterationOrder

/-!
Endorsement over the network: the peer's side of a `ProposalRequest` in `network/mod.rs`, the
plan of `discovery/service.rs`, and `collect_endorsements` of `gateway/mod.rs`. A Wasm package
with its fuel is the guest it computes for each exported function; JSON coding and SHA-256 are
parameters. The request's proposal field is constant and no peer reads it.
-/

namespace CeruleanLedger.EndorsementCollection

open ByteCodec
open EndorsementCheck
open GatewaySubmit
open IterationOrder
open Mvcc
open OrderingLayer
open Simulation
open VersionedState

structure ProposalRequest where
  requestId : String
  chaincodeId : String
  function : String
  channelId : String

/-- The signer's DID and the time stand beside the endorsement they belong to. -/
structure ProposalResponse where
  requestId : String
  rwset : ReadWriteSet
  endorsement : Endorsement
  signerDid : String
  timestamp : UInt64
  result : Bytes

inductive Reply where
  | proposalResponse (response : ProposalResponse)
  | unexpected

structure Platform where
  compile : Bytes → Nat → Option (String → Guest)
  encode : ReadWriteSet → Bytes
  sha256 : Bytes → Hash32

structure EndorserKey extends SigningProvider where
  publicKey : Bytes

structure Endorser where
  /-- `get_package(id, version)`; a failed and an empty lookup end alike. -/
  chaincodeStore : Option (String → String → Option Bytes)
  worldState : Option WorldState
  signingProvider : Option EndorserKey
  nodeOrgId : String

def payloadHash (platform : Platform) (rwset : ReadWriteSet) : Hash32 :=
  platform.sha256 (platform.encode rwset)

/-- The handler of a proposal; whatever is missing or fails leaves it unanswered. -/
def handleProposal (platform : Platform) (endorser : Endorser) (order : HashOrder)
    (now : UInt64) (request : ProposalRequest) : Option ProposalResponse := do
  let packages ← endorser.chaincodeStore
  let state ← endorser.worldState
  let signer ← endorser.signingProvider
  let wasm ← packages request.chaincodeId "latest"
  let exported ← platform.compile wasm 1000000
  let (result, rwset) ← (simulate (exported request.function) order state).toOption
  let signature ← signer.sign (payloadHash platform rwset).toList
  return {
    requestId := request.requestId
    rwset
    endorsement := {
      orgId := endorser.nodeOrgId
      signature
      -- The default, whatever the provider's own algorithm.
      signatureAlgorithm := .ed25519
      payloadHash := payloadHash platform rwset }
    signerDid := "did:key:" ++ hexEncode signer.publicKey
    timestamp := now
    result }

structure PeerDescriptor where
  peerAddress : String
  orgId : String
  chaincodes : List String
  channels : List String
  deriving DecidableEq

structure DiscoveryService where
  peers : Std.ExtTreeMap String PeerDescriptor
  policyStore : PolicyStore

abbrev PeerByOrg := Std.ExtTreeMap String PeerDescriptor

def firstAvailable (available : PeerByOrg) (count : Nat) (orgs : List String) :
    Except DiscoveryError (List String) :=
  let covered := (orgs.filter available.contains).take count
  if count ≤ covered.length then .ok covered else .error .insufficientPeers

def requiredOrgsForPolicy (available : PeerByOrg) :
    EndorsementPolicy → Except DiscoveryError (List String)
  | .anyOf orgs =>
    match orgs.find? available.contains with
    | some org => .ok [org]
    | none => .error .insufficientPeers
  | .allOf orgs =>
    let covered := orgs.filter available.contains
    if covered.length = orgs.length then .ok covered else .error .insufficientPeers
  | .nOutOf n orgs => firstAvailable available n orgs
  | .and left right =>
    match requiredOrgsForPolicy available left, requiredOrgsForPolicy available right with
    | .error reason, _ => .error reason
    | .ok _, .error reason => .error reason
    | .ok first, .ok second => .ok (first ++ second.filter fun org => !first.contains org)
  | .or left right =>
    match requiredOrgsForPolicy available left, requiredOrgsForPolicy available right with
    | .ok first, .ok second => .ok (if first.length ≤ second.length then first else second)
    | .ok first, .error _ => .ok first
    | .error _, .ok second => .ok second
    | .error reason, .error _ => .error reason
  | .ouBased ouIds minCount => firstAvailable available minCount ouIds

def candidates (order : Arrangement PeerDescriptor) (service : DiscoveryService)
    (chaincodeId channelId : String) : List PeerDescriptor :=
  (order.arrange (service.peers.toList.map Prod.snd)).filter fun peer =>
    peer.chaincodes.contains chaincodeId && peer.channels.contains channelId

def orgToPeer (candidates : List PeerDescriptor) : PeerByOrg :=
  candidates.foldl (fun chosen peer => chosen.insertIfNew peer.orgId peer) ∅

def resourceId (chaincodeId channelId : String) : String := channelId ++ "/" ++ chaincodeId

def endorsementPlan (order : Arrangement PeerDescriptor) (service : DiscoveryService)
    (chaincodeId channelId : String) : Except DiscoveryError (List PeerDescriptor) :=
  match service.policyStore[resourceId chaincodeId channelId]? with
  | none => .error (.policyNotFound (resourceId chaincodeId channelId))
  | some policy =>
    let available := orgToPeer (candidates order service chaincodeId channelId)
    match requiredOrgsForPolicy available policy with
    | .error reason => .error reason
    | .ok orgs => .ok (orgs.filterMap fun org => available[org]?)

/-- `send_and_wait`: what the peer asked at a place of the loop brings back. -/
abbrev Network := Nat → String → ProposalRequest → Except String Reply

def proposalTo (chaincodeId channelId : String) (peer : PeerDescriptor) : ProposalRequest :=
  { requestId := chaincodeId ++ "-" ++ peer.peerAddress
    chaincodeId, function := "invoke", channelId }

def collectResponses (network : Network) (chaincodeId channelId : String) :
    Nat → List PeerDescriptor → Except GatewayError (List ProposalResponse)
  | _, [] => .ok []
  | place, peer :: rest =>
    match network place peer.peerAddress (proposalTo chaincodeId channelId peer) with
    | .error reason =>
      .error (.policyNotSatisfied ("peer " ++ peer.peerAddress ++ " failed: " ++ reason))
    | .ok .unexpected =>
      .error (.policyNotSatisfied ("unexpected response from " ++ peer.peerAddress))
    | .ok (.proposalResponse response) =>
      match collectResponses network chaincodeId channelId (place + 1) rest with
      | .error reason => .error reason
      | .ok responses => .ok (response :: responses)

def rwsetMismatch (place : Nat) : GatewayError :=
  .simulation ("rwset mismatch between endorser 0 and endorser " ++ toString place ++
    " — non-deterministic chaincode")

def compareRwsets : List ReadWriteSet → Except GatewayError Unit
  | [] => .ok ()
  | reference :: rest =>
    match rest.findIdx? fun rwset => rwset ≠ reference with
    | some place => .error (rwsetMismatch (place + 1))
    | none => .ok ()

def collectEndorsements (order : Arrangement PeerDescriptor)
    (discoveryService : Option DiscoveryService) (p2pNode : Option Network)
    (chaincodeId channelId : String) :
    Except GatewayError (ReadWriteSet × List Endorsement) :=
  match discoveryService, p2pNode with
  | none, _ => .error (.policyNotSatisfied "no discovery service for multi-peer endorsement")
  | some _, none => .error (.policyNotSatisfied "no P2P node for multi-peer endorsement")
  | some discovery, some network =>
    match endorsementPlan order discovery chaincodeId channelId with
    | .error reason => .error (.policyNotSatisfied reason.display)
    | .ok endorsers =>
      match collectResponses network chaincodeId channelId 0 endorsers with
      | .error reason => .error reason
      | .ok responses =>
        let rwsets := responses.map ProposalResponse.rwset
        match compareRwsets rwsets with
        | .error reason => .error reason
        | .ok () => .ok (rwsets.head?.getD ⟨[], []⟩, responses.map ProposalResponse.endorsement)

section HonestEndorsers

variable {platform : Platform} {wasm : Bytes} {state : WorldState}

/-- The endorser serves this package of the chaincode on this world state. -/
def InSync (chaincodeId : String) (wasm : Bytes) (state : WorldState) (endorser : Endorser) :
    Prop :=
  endorser.worldState = some state ∧ ∃ packages, endorser.chaincodeStore = some packages ∧
    packages chaincodeId "latest" = some wasm

/-- The answer of some endorser in sync, whatever order its hash map lists in. -/
def HonestAnswer (platform : Platform) (wasm : Bytes) (state : WorldState)
    (request : ProposalRequest) (response : ProposalResponse) : Prop :=
  ∃ endorser order now, InSync request.chaincodeId wasm state endorser ∧
    handleProposal platform endorser order now request = some response

/-- Two answers to the same chaincode call agree on the read-write set and on
the hash that is signed. -/
def EndorsersAgree (platform : Platform) (wasm : Bytes) (state : WorldState)
    (chaincodeId function : String) : Prop :=
  ∀ request request' response response',
    request.chaincodeId = chaincodeId → request'.chaincodeId = chaincodeId →
    request.function = function → request'.function = function →
    HonestAnswer platform wasm state request response →
    HonestAnswer platform wasm state request' response' →
    response.rwset = response'.rwset ∧
      response.endorsement.payloadHash = response'.endorsement.payloadHash

/-- The function ends with at most one key in its write buffer. -/
def WritesAtMostOneKey (platform : Platform) (wasm : Bytes) (state : WorldState)
    (function : String) : Prop :=
  ∀ exported ∈ platform.compile wasm 1000000, ∀ sim result,
    invoke (exported function) (.new state) = (sim, .ok result) → sim.bufferedWrites.length ≤ 1

/-- Whoever answers is in sync; a peer may also fail to answer. -/
def HonestNetwork (platform : Platform) (wasm : Bytes) (state : WorldState)
    (network : Network) : Prop :=
  ∀ place address request response,
    network place address request = .ok (.proposalResponse response) →
      HonestAnswer platform wasm state request response

theorem arrange_short (order : HashOrder) {writes : List KVWrite} (short : writes.length ≤ 1) :
    order.arrange writes = writes := by
  match writes, short with
  | [], _ => exact List.Perm.eq_nil (order.perm [])
  | [write], _ => exact List.perm_singleton.mp (order.perm [write])

theorem short_of_reverse_eq {writes : List KVWrite} (distinct : (writes.map KVWrite.key).Nodup)
    (same : writes.reverse = writes) : writes.length ≤ 1 := by
  match writes with
  | [] => exact Nat.zero_le 1
  | [_] => exact Nat.le_refl 1
  | first :: second :: rest =>
    -- The first write is also the last one, which is in the tail.
    have last : (second :: rest).getLast? = some first := by
      have ends := congrArg List.head? same
      rwa [List.head?_reverse, List.getLast?_cons_cons, List.head?_cons] at ends
    have inTail : first ∈ second :: rest := List.mem_of_getLast? last
    have fresh := (List.nodup_cons.mp (List.map_cons ▸ distinct)).1
    exact absurd (List.mem_map_of_mem inTail) fresh

variable {chaincodeId channelId : String} {request : ProposalRequest}

theorem honest_answer_rwset {response : ProposalResponse}
    (answers : HonestAnswer platform wasm state request response) :
    ∃ exported ∈ platform.compile wasm 1000000, ∃ sim result order,
      invoke (exported request.function) (.new state) = (sim, .ok result) ∧
      response.rwset = sim.toRwset order ∧
      response.endorsement.payloadHash = payloadHash platform response.rwset := by
  obtain ⟨endorser, order, now, ⟨synced, packages, stored, found⟩, handled⟩ := answers
  simp only [handleProposal, Option.bind_eq_bind, Option.bind_eq_some_iff, synced, stored, found,
    Option.some.injEq, exists_eq_left', Option.pure_def] at handled
  obtain ⟨signer, -, exported, compiled, outcome, simulated, signature, -, rfl⟩ := handled
  refine ⟨exported, compiled, ?_⟩
  rw [simulate] at simulated
  split at simulated
  · cases simulated
  · next sim result ran =>
    cases simulated
    exact ⟨sim, result, order, ran, rfl, rfl⟩

theorem honest_answer_exists {exported : String → Guest}
    (compiled : platform.compile wasm 1000000 = some exported) {sim : SimulationWorldState}
    {result : Bytes} (ran : invoke (exported request.function) (.new state) = (sim, .ok result))
    (order : HashOrder) :
    ∃ response, HonestAnswer platform wasm state request response ∧
      response.rwset = sim.toRwset order := by
  let endorser : Endorser :=
    { chaincodeStore := some fun _ _ => some wasm, worldState := some state
      signingProvider := some ⟨⟨.ed25519, some⟩, []⟩, nodeOrgId := "" }
  have simulated : simulate (exported request.function) order state =
      .ok (result, sim.toRwset order) := by
    rw [simulate, ran]
  have handled : ∃ response, handleProposal platform endorser order 0 request = some response ∧
      response.rwset = sim.toRwset order := by
    simp only [handleProposal, endorser, Option.bind_eq_bind, Option.bind_some, compiled,
      simulated, Except.toOption, Option.pure_def, Option.some.injEq, exists_eq_left']
  obtain ⟨response, answered, same⟩ := handled
  exact ⟨response, ⟨endorser, order, 0, ⟨rfl, _, rfl, rfl⟩, answered⟩, same⟩

theorem same_rwset_of_short {function : String}
    (short : WritesAtMostOneKey platform wasm state function) {request' : ProposalRequest}
    {response response' : ProposalResponse} (called : request.function = function)
    (called' : request'.function = function)
    (answers : HonestAnswer platform wasm state request response)
    (answers' : HonestAnswer platform wasm state request' response') :
    response.rwset = response'.rwset := by
  obtain ⟨exported, compiled, sim, result, order, ran, same, -⟩ := honest_answer_rwset answers
  obtain ⟨exported', compiled', sim', result', order', ran', same', -⟩ :=
    honest_answer_rwset answers'
  cases compiled.symm.trans compiled'
  rw [called] at ran
  rw [called'] at ran'
  cases ran.symm.trans ran'
  have bounded := short exported compiled sim result ran
  rw [same, same', SimulationWorldState.toRwset, SimulationWorldState.toRwset,
    arrange_short order bounded, arrange_short order' bounded]

theorem agree_iff_short (platform : Platform) (wasm : Bytes) (state : WorldState)
    (chaincodeId function : String) :
    EndorsersAgree platform wasm state chaincodeId function ↔
      WritesAtMostOneKey platform wasm state function := by
  constructor
  · intro agree exported compiled sim result ran
    let request : ProposalRequest := ⟨"", chaincodeId, function, ""⟩
    have ranHere : invoke (exported request.function) (.new state) = (sim, .ok result) := ran
    obtain ⟨sorted, answers, same⟩ := honest_answer_exists compiled ranHere .asStored
    obtain ⟨reversed, answers', same'⟩ := honest_answer_exists compiled ranHere .reversed
    have equal := (agree request request sorted reversed rfl rfl rfl rfl answers answers').1
    rw [same, same'] at equal
    exact short_of_reverse_eq (buffered_keys_nodup sim) (ReadWriteSet.mk.inj equal).2.symm
  · intro short request request' response response' _ _ called called' answers answers'
    have same := same_rwset_of_short short called called' answers answers'
    obtain ⟨-, -, -, -, -, -, -, hashed⟩ := honest_answer_rwset answers
    obtain ⟨-, -, -, -, -, -, -, hashed'⟩ := honest_answer_rwset answers'
    exact ⟨same, by rw [hashed, hashed', same]⟩

theorem collect_responses_mem {network : Network} {place : Nat} {peers : List PeerDescriptor}
    {responses : List ProposalResponse}
    (collected : collectResponses network chaincodeId channelId place peers = .ok responses) :
    List.Forall₂ (fun peer response => ∃ asked,
      network asked peer.peerAddress (proposalTo chaincodeId channelId peer) =
        .ok (.proposalResponse response)) peers responses := by
  induction peers generalizing place responses with
  | nil =>
    cases collected
    exact .nil
  | cons peer rest ih =>
    rw [collectResponses] at collected
    split at collected
    · cases collected
    · cases collected
    · next response answered =>
      split at collected
      · cases collected
      · next later continued =>
        cases collected
        exact .cons ⟨place, answered⟩ (ih continued)

theorem collect_responses_error {network : Network} {place : Nat} {peers : List PeerDescriptor}
    {reason : GatewayError}
    (failed : collectResponses network chaincodeId channelId place peers = .error reason) :
    ∃ detail, reason = .policyNotSatisfied detail := by
  induction peers generalizing place with
  | nil => cases failed
  | cons peer rest ih =>
    rw [collectResponses] at failed
    split at failed
    · cases failed
      exact ⟨_, rfl⟩
    · cases failed
      exact ⟨_, rfl⟩
    · split at failed
      · next continued =>
        cases failed
        exact ih continued
      · cases failed

theorem compare_rwsets_iff (rwsets : List ReadWriteSet) :
    compareRwsets rwsets = .ok () ↔ ∀ reference ∈ rwsets.head?, ∀ rwset ∈ rwsets,
      rwset = reference := by
  cases rwsets with
  | nil => simp [compareRwsets]
  | cons reference rest =>
    cases found : rest.findIdx? fun rwset => decide (rwset ≠ reference) with
    | none =>
      have same := List.findIdx?_eq_none_iff.mp found
      simp only [compareRwsets, found, List.head?_cons, Option.mem_some_iff, forall_eq',
        List.forall_mem_cons, true_and, true_iff]
      intro rwset member
      simpa using same rwset member
    | some place =>
      obtain ⟨within, differs, -⟩ := List.findIdx?_eq_some_iff_getElem.mp found
      simp only [compareRwsets, found, reduceCtorEq, List.head?_cons, Option.mem_some_iff,
        forall_eq', List.forall_mem_cons, true_and, false_iff]
      intro same
      exact absurd (same rest[place] (List.getElem_mem within)) (by simpa using differs)

theorem collect_endorsements_ok {order : Arrangement PeerDescriptor}
    {discoveryService : Option DiscoveryService} {p2pNode : Option Network} {rwset : ReadWriteSet}
    {endorsements : List Endorsement}
    (collected : collectEndorsements order discoveryService p2pNode chaincodeId channelId =
      .ok (rwset, endorsements)) :
    ∃ discovery network plan responses, discoveryService = some discovery ∧
      p2pNode = some network ∧
      endorsementPlan order discovery chaincodeId channelId = .ok plan ∧
      collectResponses network chaincodeId channelId 0 plan = .ok responses ∧
      (∀ response ∈ responses, response.rwset = rwset) ∧
      endorsements = responses.map ProposalResponse.endorsement := by
  unfold collectEndorsements at collected
  split at collected
  · cases collected
  · cases collected
  · next discovery network =>
    split at collected
    · cases collected
    · next plan planned =>
      split at collected
      · cases collected
      · next responses answered =>
        dsimp only at collected
        split at collected
        · cases collected
        · next compared =>
          cases collected
          refine ⟨discovery, network, plan, responses, rfl, rfl, planned, answered, ?_, rfl⟩
          have same := (compare_rwsets_iff _).mp compared
          cases responses with
          | nil => nofun
          | cons first rest =>
            intro response member
            exact same _ rfl _ (List.mem_map_of_mem member)

theorem no_mismatch_of_short (short : WritesAtMostOneKey platform wasm state "invoke")
    (order : Arrangement PeerDescriptor) (discoveryService : Option DiscoveryService)
    (network : Network) (honest : HonestNetwork platform wasm state network) (place : Nat) :
    collectEndorsements order discoveryService (some network) chaincodeId channelId ≠
      .error (rwsetMismatch place) := by
  unfold collectEndorsements
  split
  · nofun
  · nofun
  · next discovery used present =>
    cases present
    split
    · nofun
    · next plan planned =>
      split
      · next reason failed =>
        obtain ⟨detail, rfl⟩ := collect_responses_error failed
        nofun
      · next responses collected =>
        -- Each answer is honest, so the comparison finds no difference.
        have answers : ∀ response ∈ responses, ∃ request,
            request.function = "invoke" ∧
              HonestAnswer platform wasm state request response := by
          intro response member
          obtain ⟨peer, -, asked, answered⟩ :=
            ForestPaths.forall₂_mem_left (collect_responses_mem collected).flip member
          exact ⟨_, rfl, honest _ _ _ _ answered⟩
        have compared : compareRwsets (responses.map ProposalResponse.rwset) = .ok () := by
          rw [compare_rwsets_iff]
          intro reference first rwset member
          obtain ⟨response, inside, rfl⟩ := List.mem_map.mp member
          obtain ⟨leader, leading, rfl⟩ := List.mem_map.mp (List.mem_of_head? first)
          obtain ⟨request, called, honestly⟩ := answers response inside
          obtain ⟨request', called', honestly'⟩ := answers leader leading
          exact same_rwset_of_short short called called' honestly honestly'
        simp only [compared]
        nofun

/-- Honest endorsers in sync agree whatever their hash maps do exactly when the
function leaves at most one key in the write buffer, and the gateway then never
reports a mismatch. -/
theorem honest_endorsers_agree_iff (platform : Platform) (wasm : Bytes) (state : WorldState)
    (chaincodeId function : String) :
    (EndorsersAgree platform wasm state chaincodeId function ↔
      WritesAtMostOneKey platform wasm state function) ∧
    (WritesAtMostOneKey platform wasm state "invoke" →
      ∀ order discoveryService network channelId place,
        HonestNetwork platform wasm state network →
        collectEndorsements order discoveryService (some network) chaincodeId channelId ≠
          .error (rwsetMismatch place)) :=
  ⟨agree_iff_short platform wasm state chaincodeId function,
    fun short order discoveryService network _ place honest =>
      no_mismatch_of_short short order discoveryService network honest place⟩

end HonestEndorsers

def twoWrites : Guest := .putState "a" [1] (.putState "b" [2] (.done []))

def samplePlatform : Platform :=
  { compile := fun _ _ => some fun _ => twoWrites
    encode := fun rwset => rwset.writes.flatMap KVWrite.value
    sha256 := paddingCrypto.sha256 }

def sampleEndorser (org : String) : Endorser :=
  { chaincodeStore := some fun _ _ => some [0], worldState := some .new
    signingProvider := some ⟨softwareProvider paddingCrypto zeroHash, []⟩, nodeOrgId := org }

def samplePeer (org : String) : PeerDescriptor := ⟨org, org, ["cc"], ["ch"]⟩

def twoOrgs : DiscoveryService :=
  { peers := (∅ : Std.ExtTreeMap String PeerDescriptor).insert "org1" (samplePeer "org1")
      |>.insert "org2" (samplePeer "org2")
    policyStore := (∅ : PolicyStore).insert "ch/cc" (.allOf ["org1", "org2"]) }

def servedIn (orders : Nat → HashOrder) : Network := fun place address request =>
  match handleProposal samplePlatform (sampleEndorser address) (orders place) 0 request with
  | some response => .ok (.proposalResponse response)
  | none => .error "no response"

def oppositeOrders : Nat → HashOrder := fun place => if place = 0 then .asStored else .reversed

theorem served_honest (orders : Nat → HashOrder) :
    HonestNetwork samplePlatform [0] .new (servedIn orders) := by
  intro place address request response answered
  unfold servedIn at answered
  split at answered
  · next handled =>
    cases answered
    exact ⟨sampleEndorser address, _, 0, ⟨rfl, _, rfl, rfl⟩, handled⟩
  · cases answered

/-- Two honest endorsers in sync sign different hashes and the gateway gives up. -/
theorem honest_endorsers_mismatch :
    HonestNetwork samplePlatform [0] .new (servedIn oppositeOrders) ∧
      collectEndorsements .asStored (some twoOrgs) (some (servedIn oppositeOrders)) "cc" "ch" =
        .error (rwsetMismatch 1) ∧
      payloadHash samplePlatform ⟨[], [⟨"a", [1]⟩, ⟨"b", [2]⟩]⟩ ≠
        payloadHash samplePlatform ⟨[], [⟨"b", [2]⟩, ⟨"a", [1]⟩]⟩ :=
  ⟨served_honest oppositeOrders, by decide +kernel, by decide +kernel⟩

end CeruleanLedger.EndorsementCollection
