import CeruleanLedger.PolicyChoices
import CeruleanLedger.SubmitAlone

/-!
What stands behind a write set that `submit` applies on the multi-peer path. The gateway
compares the read-write sets it is sent and drops the endorsements: no signature is verified, no
payload hash is compared, and no key-level policy is evaluated.
-/

namespace CeruleanLedger.EndorsedCommit

open ByteCodec
open EndorsementCheck
open EndorsementCollection
open GatewaySubmit
open IterationOrder
open Mvcc
open PolicyChoices
open SubmitAlone

section Endorsed

variable (ed25519 : Ed25519) (platform : Platform) (registry : OrgRegistry)

/-- The endorsement carries the hash of the read-write set, and a root key of
its organisation verifies the signature over it. -/
def signsRwset (rwset : ReadWriteSet) (endorsement : Endorsement) : Bool :=
  endorsement.payloadHash == payloadHash platform rwset &&
    match registry[endorsement.orgId]? with
    | none => false
    | some org => org.rootPublicKeys.any fun publicKey =>
      (verifyEndorsement ed25519 endorsement publicKey).isOk

def signerOrgs (rwset : ReadWriteSet) (endorsements : List Endorsement) : List String :=
  (endorsements.filter (signsRwset ed25519 platform registry rwset)).map Endorsement.orgId

def KeyPoliciesMet (keyPolicies : String → Option EndorsementPolicy) (rwset : ReadWriteSet)
    (orgs : List String) : Prop :=
  ∀ write ∈ rwset.writes, ∀ policy ∈ keyPolicies write.key, policy.evaluate orgs = true

/-- The organisations that signed the set satisfy the chaincode's policy and the
policy of every written key. -/
def Endorsed (policy : Option EndorsementPolicy)
    (keyPolicies : String → Option EndorsementPolicy) (rwset : ReadWriteSet)
    (endorsements : List Endorsement) : Prop :=
  (∃ required ∈ policy,
    required.evaluate (signerOrgs ed25519 platform registry rwset endorsements) = true) ∧
  KeyPoliciesMet keyPolicies rwset (signerOrgs ed25519 platform registry rwset endorsements)

/-- Each planned peer that answers signs the set it returns, for the organisation
discovery lists it under. -/
def SignsOwnAnswers (network : Network) (chaincodeId channelId : String)
    (plan : List PeerDescriptor) : Prop :=
  ∀ peer ∈ plan, ∀ place response,
    network place peer.peerAddress (proposalTo chaincodeId channelId peer) =
        .ok (.proposalResponse response) →
      response.endorsement.orgId = peer.orgId ∧
        signsRwset ed25519 platform registry response.rwset response.endorsement = true

/-- The organisation whose key stands behind what the peer at a place answers. -/
def ownSigner (network : Network) (chaincodeId channelId : String) (place : Nat)
    (peer : PeerDescriptor) : Option String :=
  match network place peer.peerAddress (proposalTo chaincodeId channelId peer) with
  | .ok (.proposalResponse response) =>
    if signsRwset ed25519 platform registry response.rwset response.endorsement then
      some response.endorsement.orgId
    else none
  | _ => none

def answerSigners (network : Network) (chaincodeId channelId : String) :
    Nat → List PeerDescriptor → List String
  | _, [] => []
  | place, peer :: rest =>
    (ownSigner ed25519 platform registry network chaincodeId channelId place peer).toList ++
      answerSigners network chaincodeId channelId (place + 1) rest

end Endorsed

section Plan

variable {available : PeerByOrg} {orgs : List String}

theorem required_orgs_cover (policy : EndorsementPolicy)
    (planned : requiredOrgsForPolicy available policy = .ok orgs) :
    (∀ org ∈ orgs, available.contains org = true) ∧
      ∀ signers : List String, (∀ org ∈ orgs, org ∈ signers) → policy.evaluate signers = true := by
  have first := planned_first available policy
  rw [planned] at first
  exact choice_covers policy (List.mem_of_head? first.symm)

def Filed (chosen : PeerByOrg) : Prop :=
  ∀ (org : String) peer, chosen[org]? = some peer → peer.orgId = org

theorem filed_insert {chosen : PeerByOrg} (filed : Filed chosen) (candidate : PeerDescriptor) :
    Filed (chosen.insertIfNew candidate.orgId candidate) := by
  intro org peer present
  rw [Std.ExtTreeMap.getElem?_insertIfNew] at present
  split at present
  · next fresh =>
    cases present
    exact Std.LawfulEqCmp.eq_of_compare fresh.1
  · exact filed org peer present

theorem org_to_peer_filed (peers : List PeerDescriptor) : Filed (orgToPeer peers) := by
  have empty : Filed ∅ := by
    intro org peer present
    rw [Std.ExtTreeMap.getElem?_empty] at present
    cases present
  exact List.foldlRecOn peers _ empty fun _ filed candidate _ => filed_insert filed candidate

theorem plan_orgs (filed : Filed available)
    (present : ∀ org ∈ orgs, available.contains org = true) :
    (orgs.filterMap fun org => available[org]?).map PeerDescriptor.orgId = orgs := by
  induction orgs with
  | nil => rfl
  | cons org rest ih =>
    obtain ⟨here, later⟩ := List.forall_mem_cons.mp present
    rw [Std.ExtTreeMap.contains_eq_isSome_getElem?, Option.isSome_iff_exists] at here
    obtain ⟨peer, found⟩ := here
    rw [List.filterMap_cons_some found, List.map_cons, ih later, filed org peer found]

theorem plan_satisfies {order : Arrangement PeerDescriptor} {service : DiscoveryService}
    {chaincodeId channelId : String} {plan : List PeerDescriptor}
    (planned : endorsementPlan order service chaincodeId channelId = .ok plan) :
    ∃ policy ∈ service.policyStore[resourceId chaincodeId channelId]?,
      policy.evaluate (plan.map PeerDescriptor.orgId) = true := by
  unfold endorsementPlan at planned
  split at planned
  · cases planned
  · next policy stored =>
    dsimp only at planned
    split at planned
    · cases planned
    · next orgs required =>
      cases planned
      obtain ⟨present, satisfied⟩ := required_orgs_cover policy required
      refine ⟨policy, stored, satisfied _ ?_⟩
      rw [plan_orgs (org_to_peer_filed _) present]
      exact fun org member => member

end Plan

section Answers

variable {ed25519 : Ed25519} {platform : Platform} {registry : OrgRegistry}
  {network : Network} {chaincodeId channelId : String} {rwset : ReadWriteSet}

theorem signer_orgs_of_answers {place : Nat} {plan : List PeerDescriptor}
    {responses : List ProposalResponse}
    (collected : collectResponses network chaincodeId channelId place plan = .ok responses)
    (same : ∀ response ∈ responses, response.rwset = rwset) :
    signerOrgs ed25519 platform registry rwset (responses.map ProposalResponse.endorsement) =
      answerSigners ed25519 platform registry network chaincodeId channelId place plan := by
  induction plan generalizing place responses with
  | nil =>
    cases collected
    rfl
  | cons peer rest ih =>
    rw [collectResponses] at collected
    split at collected
    · cases collected
    · cases collected
    · next response answered =>
      split at collected
      · cases collected
      · next responses later =>
        cases collected
        obtain ⟨here, others⟩ := List.forall_mem_cons.mp same
        have signers := ih later others
        simp only [answerSigners, ownSigner, answered, here, ← signers, signerOrgs, List.map_cons,
          List.filter_cons]
        split <;> rfl

theorem signer_orgs_of_signed {plan : List PeerDescriptor} {responses : List ProposalResponse}
    (answered : List.Forall₂ (fun peer response => ∃ place,
      network place peer.peerAddress (proposalTo chaincodeId channelId peer) =
        .ok (.proposalResponse response)) plan responses)
    (signed : SignsOwnAnswers ed25519 platform registry network chaincodeId channelId plan)
    (same : ∀ response ∈ responses, response.rwset = rwset) :
    signerOrgs ed25519 platform registry rwset (responses.map ProposalResponse.endorsement) =
      plan.map PeerDescriptor.orgId := by
  induction answered with
  | nil => rfl
  | @cons peer response restPlan restResponses answer _ ih =>
    obtain ⟨place, sent⟩ := answer
    obtain ⟨own, signs⟩ := signed peer List.mem_cons_self place response sent
    obtain ⟨here, later⟩ := List.forall_mem_cons.mp same
    have rest := ih (fun peer member => signed peer (List.mem_cons_of_mem _ member)) later
    rw [here] at signs
    simp only [signerOrgs, List.map_cons, List.filter_cons, signs, if_true, own]
    exact congrArg _ rest

end Answers

section Runs

variable {count : Nat} {node : Node} {requests : Fin count → Request}

/-- What a client has done with the answer of the remote endorsers. -/
def Follows (answer : Except GatewayError ReadWriteSet) (applied : List KVWrite) : Stage → Prop
  | .start => applied = []
  | .applying _ rest => ∃ rwset, answer = .ok rwset ∧ applied ++ rest = rwset.writes
  | .finished (.ok _) => ∃ rwset, answer = .ok rwset ∧ ∀ write ∈ applied, write ∈ rwset.writes
  | .finished (.error _) => True
  | stage => applied = [] ∧ ∃ rwset, answer = .ok rwset ∧ carried stage = some (some rwset)

theorem follows_advance {answer : Except GatewayError ReadWriteSet} {applied : List KVWrite}
    {request : Request} (routed : request.endorsers = .remote answer) (moment : Moment)
    (shared : Shared) (stage : Stage) (follows : Follows answer applied stage) :
    Follows answer (applied ++ stage.nextPut) (advance node request moment shared stage).1 := by
  have transition := advance_transition node request moment shared stage
  generalize advance node request moment shared stage = moved at transition
  cases transition with
  | refused reason failed => trivial
  | endorsed rwset answered =>
    rw [endorse, routed] at answered
    cases answer with
    | error reason => cases answered
    | ok found =>
      cases answered
      exact ⟨(List.append_nil _).trans follows, found, rfl, rfl⟩
  | nothingCut rwset height ordering cut => trivial
  | writeFailed rwset block reason failed => trivial
  | unchecked rwset block absent =>
    obtain ⟨none, found, answered, -⟩ := follows
    exact ⟨found, answered, by rw [none]; nofun⟩
  | validated rwset block state present valid =>
    obtain ⟨none, found, answered, carries⟩ := follows
    cases carries
    exact ⟨rwset, answered, by rw [none]; rfl⟩
  | conflicted rwset block state conflict present invalid =>
    obtain ⟨none, found, answered, -⟩ := follows
    exact ⟨found, answered, by rw [none]; nofun⟩
  | put block write rest =>
    obtain ⟨found, answered, whole⟩ := follows
    exact ⟨found, answered, by rw [← whole, List.append_assoc]; rfl⟩
  | applied block =>
    obtain ⟨found, answered, whole⟩ := follows
    refine ⟨found, answered, fun write member => ?_⟩
    rw [← whole]
    exact member
  | rested result =>
    rw [show applied ++ (Stage.finished result).nextPut = applied from List.append_nil _]
    exact follows
  | _ => exact ⟨(List.append_nil _).trans follows.1, follows.2⟩

/-- Whoever else runs, a client on the remote path writes only what it was sent. -/
theorem run_follows {answer : Except GatewayError ReadWriteSet} {client : Fin count}
    (routed : (requests client).endorsers = .remote answer) (shared : Shared)
    (inputs : List (Fin count × Moment)) :
    Follows answer ((runClients node requests (startOf count shared) inputs).applied client)
      ((runClients node requests (startOf count shared) inputs).stages client) := by
  have initial : Follows answer ((startOf count shared).applied client)
      ((startOf count shared).stages client) := rfl
  refine List.foldlRecOn
    (motive := fun system : System count =>
      Follows answer (system.applied client) (system.stages client))
    inputs (stepClient node requests) initial ?_
  intro system follows input _
  by_cases same : client = input.1
  · subst same
    simp only [stepClient, Function.update_self]
    exact follows_advance routed input.2 system.shared _ follows
  · simp only [stepClient, Function.update_of_ne same]
    exact follows

/-- A client that returned has put only writes of the collected set. Nobody asked
for the signatures, so the set is endorsed exactly when the organisations that
happen to sign their answers meet the chaincode's policy and those of the written
keys. If every planned peer signs, the key-level policies decide. -/
theorem committed_endorsed_iff (ed25519 : Ed25519) (platform : Platform) (registry : OrgRegistry)
    (keyPolicies : String → Option EndorsementPolicy) (order : Arrangement PeerDescriptor)
    (discovery : DiscoveryService) (network : Network) (chaincodeId channelId : String)
    (node : Node) (requests : Fin count → Request) (shared : Shared)
    (inputs : List (Fin count × Moment)) (client : Fin count) (result : TxResult)
    (plan : List PeerDescriptor)
    (routed : (requests client).endorsers = .remote
      ((collectEndorsements order (some discovery) (some network) chaincodeId channelId).map
        Prod.fst))
    (returned : (runClients node requests (startOf count shared) inputs).stages client =
      .finished (.ok result))
    (planned : endorsementPlan order discovery chaincodeId channelId = .ok plan) :
    ∃ rwset endorsements,
      collectEndorsements order (some discovery) (some network) chaincodeId channelId =
        .ok (rwset, endorsements) ∧
      (∀ write ∈ (runClients node requests (startOf count shared) inputs).applied client,
        write ∈ rwset.writes) ∧
      (Endorsed ed25519 platform registry
          discovery.policyStore[resourceId chaincodeId channelId]? keyPolicies rwset endorsements ↔
        (∃ required ∈ discovery.policyStore[resourceId chaincodeId channelId]?,
          required.evaluate (answerSigners ed25519 platform registry network chaincodeId channelId
            0 plan) = true) ∧
        KeyPoliciesMet keyPolicies rwset (answerSigners ed25519 platform registry network
          chaincodeId channelId 0 plan)) ∧
      (SignsOwnAnswers ed25519 platform registry network chaincodeId channelId plan →
        (Endorsed ed25519 platform registry
            discovery.policyStore[resourceId chaincodeId channelId]? keyPolicies rwset
            endorsements ↔
          KeyPoliciesMet keyPolicies rwset (plan.map PeerDescriptor.orgId))) := by
  have follows := @run_follows count node requests _ client routed shared inputs
  rw [returned] at follows
  obtain ⟨rwset, answer, written⟩ := follows
  cases collected : collectEndorsements order (some discovery) (some network) chaincodeId
      channelId with
  | error reason =>
    rw [collected] at answer
    cases answer
  | ok found =>
    obtain ⟨found, endorsements⟩ := found
    rw [collected] at answer
    cases answer
    obtain ⟨_, _, plan', responses, isDiscovery, isNetwork, planned', answered, same, rfl⟩ :=
      collect_endorsements_ok collected
    cases isDiscovery
    cases isNetwork
    cases planned.symm.trans planned'
    refine ⟨_, _, rfl, written, ?_, ?_⟩
    · rw [Endorsed, signer_orgs_of_answers answered same]
    · intro signed
      rw [Endorsed, signer_orgs_of_signed (collect_responses_mem answered) signed same]
      exact and_iff_right (plan_satisfies planned)

end Runs

variable {count : Nat}

def sampleRegistry : OrgRegistry :=
  (∅ : OrgRegistry).insert "org1" ⟨"org1MSP", [zeroHash]⟩ |>.insert "org2" ⟨"org2MSP", [zeroHash]⟩

def remoteRequest (network : Network) : Request :=
  { tx := OrderingLayer.sampleTx "tx", chaincodeId := "cc"
    endorsers := .remote
      ((collectEndorsements .asStored (some twoOrgs) (some network) "cc" "ch").map Prod.fst)
    policy := none, registeredOrgs := [], keyPolicies := none }

def remoteNode : Node := ⟨OrderingLayer.paddingCrypto, fun _ _ => 0, none⟩

def remoteShared : Shared := ⟨some .new, ⟨[], 100, none, none⟩, .memory .new⟩

def remoteRun (network : Network) (client : Fin count) : System count :=
  runClients remoteNode (fun _ => remoteRequest network) (startOf count remoteShared)
    (turns (List.replicate 10 client))

def sortedPeers : Network := servedIn fun _ => .asStored

def twoWritten : ReadWriteSet := ⟨[], [⟨"a", [1]⟩, ⟨"b", [2]⟩]⟩

def sampleEndorsement (org : String) : Endorsement :=
  ⟨org, (OrderingLayer.pad (payloadHash samplePlatform twoWritten).toList).toList, .ed25519,
    payloadHash samplePlatform twoWritten⟩

theorem sorted_peers_answer (place : Nat) (org : String) :
    ∃ response, sortedPeers place org (proposalTo "cc" "ch" (samplePeer org)) =
        .ok (.proposalResponse response) ∧
      response.rwset = twoWritten ∧ response.endorsement = sampleEndorsement org :=
  ⟨_, rfl, rfl, rfl⟩

theorem sorted_peers_sign :
    SignsOwnAnswers OrderingLayer.paddingCrypto.toEd25519 samplePlatform sampleRegistry sortedPeers
      "cc" "ch" [samplePeer "org1", samplePeer "org2"] := by
  have signs : ∀ org, signsRwset OrderingLayer.paddingCrypto.toEd25519 samplePlatform
      sampleRegistry twoWritten (sampleEndorsement org) = true → ∀ place response,
      sortedPeers place org (proposalTo "cc" "ch" (samplePeer org)) =
          .ok (.proposalResponse response) →
        response.endorsement.orgId = org ∧ signsRwset OrderingLayer.paddingCrypto.toEd25519
          samplePlatform sampleRegistry response.rwset response.endorsement = true := by
    intro org verified place response answered
    obtain ⟨sent, same, written, endorsed⟩ := sorted_peers_answer place org
    cases answered.symm.trans same
    rw [written, endorsed]
    exact ⟨rfl, verified⟩
  intro peer member
  rcases List.mem_cons.mp member with rfl | member
  · exact signs "org1" (by decide +kernel)
  · rw [List.mem_singleton.mp member]
    exact signs "org2" (by decide +kernel)

theorem sorted_peers_commit_endorsed :
    ∃ rwset endorsements,
      collectEndorsements .asStored (some twoOrgs) (some sortedPeers) "cc" "ch" =
        .ok (rwset, endorsements) ∧
      (∀ write ∈ (remoteRun sortedPeers (0 : Fin 1)).applied 0, write ∈ rwset.writes) ∧
      Endorsed OrderingLayer.paddingCrypto.toEd25519 samplePlatform sampleRegistry
        twoOrgs.policyStore[resourceId "cc" "ch"]? (fun _ => none) rwset endorsements := by
  obtain ⟨rwset, endorsements, collected, written, -, all⟩ :=
    committed_endorsed_iff OrderingLayer.paddingCrypto.toEd25519 samplePlatform sampleRegistry
      (fun _ => none) .asStored twoOrgs sortedPeers "cc" "ch" remoteNode
      (fun _ => remoteRequest sortedPeers) remoteShared (turns (List.replicate 10 0)) (0 : Fin 1)
      ⟨"tx", 1, true⟩ [samplePeer "org1", samplePeer "org2"] rfl (by decide +kernel) (by rfl)
  exact ⟨rwset, endorsements, collected, written,
    (all sorted_peers_sign).mpr (by simp [KeyPoliciesMet])⟩

def forgedAnswer : ProposalResponse :=
  ⟨"", ⟨[], [⟨"k", [9]⟩]⟩, ⟨"org1", [], .ed25519, zeroHash⟩, "", 0, []⟩

def forgedPeers : Network := fun _ _ _ => .ok (.proposalResponse forgedAnswer)

def guardedKeys (key : String) : Option EndorsementPolicy :=
  if key = "a" then some (.allOf ["org3"]) else none

/-- A set that nobody signed is applied, and so is a set signed by the planned
organisations only, whatever the policy of its keys. -/
theorem unendorsed_commit :
    ((remoteRun forgedPeers (0 : Fin 1)).stages 0 = .finished (.ok ⟨"tx", 1, true⟩) ∧
      (remoteRun forgedPeers (0 : Fin 1)).applied 0 = forgedAnswer.rwset.writes ∧
      ¬ Endorsed OrderingLayer.paddingCrypto.toEd25519 samplePlatform sampleRegistry
        (some (.allOf ["org1", "org2"])) (fun _ => none) forgedAnswer.rwset
        [forgedAnswer.endorsement, forgedAnswer.endorsement]) ∧
    ((remoteRun sortedPeers (0 : Fin 1)).stages 0 = .finished (.ok ⟨"tx", 1, true⟩) ∧
      (remoteRun sortedPeers (0 : Fin 1)).applied 0 = twoWritten.writes ∧
      ¬ Endorsed OrderingLayer.paddingCrypto.toEd25519 samplePlatform sampleRegistry
        (some (.allOf ["org1", "org2"])) guardedKeys twoWritten
        [sampleEndorsement "org1", sampleEndorsement "org2"]) := by
  unfold Endorsed KeyPoliciesMet
  decide +kernel

end CeruleanLedger.EndorsedCommit
