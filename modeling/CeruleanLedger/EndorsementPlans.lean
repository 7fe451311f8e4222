import CeruleanLedger.EndorsedCommit

/-!
Endorsement policies as predicates on sets of organisations, and the plans that
`discovery/service.rs` makes for them. Choices in the two sides of an `And` are made apart, and
a repeated name is planned twice.
-/

namespace CeruleanLedger.EndorsementPlans

open EndorsementCheck EndorsementCollection EndorsedCommit GatewaySubmit IterationOrder
open EndorsementPolicy
open PolicyChoices

def mentions : EndorsementPolicy → List String
  | .anyOf orgs => orgs
  | .allOf orgs => orgs
  | .nOutOf _ orgs => orgs
  | .and left right => mentions left ++ mentions right
  | .or left right => mentions left ++ mentions right
  | .ouBased ouIds _ => ouIds

theorem count_le_of_mentioned {orgs signers others : List String}
    (kept : ∀ org ∈ orgs, org ∈ signers → org ∈ others) :
    (orgs.filter (signers.contains ·)).length ≤ (orgs.filter (others.contains ·)).length := by
  rw [← List.countP_eq_length_filter, ← List.countP_eq_length_filter]
  apply List.countP_mono_left
  intro org mentioned signed
  exact List.contains_iff_mem.mpr (kept org mentioned (List.contains_iff_mem.mp signed))

theorem evaluate_of_mentioned (policy : EndorsementPolicy) {signers others : List String}
    (kept : ∀ org ∈ mentions policy, org ∈ signers → org ∈ others)
    (accepted : policy.evaluate signers = true) : policy.evaluate others = true := by
  induction policy with
  | anyOf orgs =>
    simp only [evaluate, List.any_eq_true, List.contains_iff_mem] at accepted ⊢
    obtain ⟨org, listed, signed⟩ := accepted
    exact ⟨org, listed, kept org listed signed⟩
  | allOf orgs =>
    simp only [evaluate, List.all_eq_true, List.contains_iff_mem] at accepted ⊢
    exact fun org listed => kept org listed (accepted org listed)
  | and left right leftIh rightIh =>
    simp only [evaluate, Bool.and_eq_true] at accepted ⊢
    obtain ⟨keptLeft, keptRight⟩ := List.forall_mem_append.mp kept
    exact ⟨leftIh keptLeft accepted.1, rightIh keptRight accepted.2⟩
  | or left right leftIh rightIh =>
    simp only [evaluate, Bool.or_eq_true] at accepted ⊢
    obtain ⟨keptLeft, keptRight⟩ := List.forall_mem_append.mp kept
    exact accepted.imp (leftIh keptLeft) (rightIh keptRight)
  | _ =>
    simp only [evaluate, decide_eq_true_eq] at accepted ⊢
    exact accepted.trans (count_le_of_mentioned kept)

theorem evaluate_mono (policy : EndorsementPolicy) {signers others : List String}
    (kept : ∀ org ∈ signers, org ∈ others) (accepted : policy.evaluate signers = true) :
    policy.evaluate others = true :=
  evaluate_of_mentioned policy (fun org _ signed => kept org signed) accepted

/-- A policy is a monotone predicate on the set of its mentioned signers: more
signers never hurt, and neither order, repetition nor strangers matter. -/
theorem policy_monotone_set (policy : EndorsementPolicy) :
    (∀ signers others : List String, (∀ org ∈ signers, org ∈ others) →
      policy.evaluate signers = true → policy.evaluate others = true) ∧
    (∀ signers others : List String, (∀ org, org ∈ signers ↔ org ∈ others) →
      policy.evaluate signers = policy.evaluate others) ∧
    ∀ signers : List String, policy.evaluate signers =
      policy.evaluate (signers.filter ((mentions policy).contains ·)) := by
  refine ⟨fun signers others kept => evaluate_mono policy kept, ?_, ?_⟩
  · intro signers others same
    rw [Bool.eq_iff_iff]
    exact ⟨evaluate_mono policy fun org => (same org).mp,
      evaluate_mono policy fun org => (same org).mpr⟩
  · intro signers
    rw [Bool.eq_iff_iff]
    constructor
    · exact evaluate_of_mentioned policy fun org mentioned signed =>
        List.mem_filter.mpr ⟨signed, List.contains_iff_mem.mpr mentioned⟩
    · exact evaluate_mono policy fun org filtered => (List.mem_filter.mp filtered).1

section Eligible

def Eligible (service : DiscoveryService) (chaincodeId channelId : String)
    (peer : PeerDescriptor) : Prop :=
  (∃ address : String, service.peers[address]? = some peer) ∧
    chaincodeId ∈ peer.chaincodes ∧ channelId ∈ peer.channels

def eligibleOrgs (service : DiscoveryService) (chaincodeId channelId : String) : List String :=
  ((service.peers.toList.map Prod.snd).filter fun peer =>
    peer.chaincodes.contains chaincodeId && peer.channels.contains channelId).map
      PeerDescriptor.orgId

variable {order : Arrangement PeerDescriptor} {service : DiscoveryService}
  {chaincodeId channelId : String}

theorem mem_candidates {peer : PeerDescriptor} :
    peer ∈ candidates order service chaincodeId channelId ↔
      Eligible service chaincodeId channelId peer := by
  simp only [candidates, List.mem_filter, Arrangement.mem_arrange, List.mem_map, Prod.exists,
    exists_eq_right, Std.ExtTreeMap.mem_toList_iff_getElem?_eq_some, Bool.and_eq_true,
    List.contains_iff_mem, Eligible]

theorem mem_eligible_orgs {org : String} :
    org ∈ eligibleOrgs service chaincodeId channelId ↔
      ∃ peer, Eligible service chaincodeId channelId peer ∧ peer.orgId = org := by
  simp only [eligibleOrgs, List.mem_map, List.mem_filter, Prod.exists, exists_eq_right,
    Std.ExtTreeMap.mem_toList_iff_getElem?_eq_some, Bool.and_eq_true, List.contains_iff_mem,
    Eligible]

theorem org_to_peer_chosen (peers : List PeerDescriptor) (chosen : PeerByOrg) (org : String) :
    (∀ peer, (peers.foldl (fun chosen peer => chosen.insertIfNew peer.orgId peer) chosen)[org]? =
        some peer → chosen[org]? = some peer ∨ peer ∈ peers) ∧
      ((peers.foldl (fun chosen peer => chosen.insertIfNew peer.orgId peer) chosen).contains org =
        true ↔ chosen.contains org = true ∨ ∃ peer ∈ peers, peer.orgId = org) := by
  induction peers generalizing chosen with
  | nil => simp
  | cons head rest ih =>
    obtain ⟨source, covered⟩ := ih (chosen.insertIfNew head.orgId head)
    constructor
    · intro peer found
      rcases source peer found with earlier | later
      · rw [Std.ExtTreeMap.getElem?_insertIfNew] at earlier
        split at earlier
        · cases earlier
          exact Or.inr List.mem_cons_self
        · exact Or.inl earlier
      · exact Or.inr (List.mem_cons_of_mem _ later)
    · rw [List.foldl_cons, covered, Std.ExtTreeMap.contains_insertIfNew, Bool.or_eq_true,
        beq_iff_eq, Std.LawfulEqCmp.compare_eq_iff_eq]
      simp only [List.exists_mem_cons_iff]
      tauto

theorem available_iff {org : String} :
    (orgToPeer (candidates order service chaincodeId channelId)).contains org = true ↔
      org ∈ eligibleOrgs service chaincodeId channelId := by
  have covered := (org_to_peer_chosen (candidates order service chaincodeId channelId) ∅ org).2
  rw [orgToPeer, covered, mem_eligible_orgs]
  simp [mem_candidates]

theorem available_eligible {org : String} {peer : PeerDescriptor}
    (found : (orgToPeer (candidates order service chaincodeId channelId))[org]? = some peer) :
    Eligible service chaincodeId channelId peer := by
  rcases (org_to_peer_chosen _ ∅ org).1 peer found with none | candidate
  · simp at none
  · exact mem_candidates.mp candidate

theorem endorsement_plan_ok_iff {policy : EndorsementPolicy} {plan : List PeerDescriptor}
    (stored : service.policyStore[resourceId chaincodeId channelId]? = some policy) :
    endorsementPlan order service chaincodeId channelId = .ok plan ↔
      ∃ orgs, requiredOrgsForPolicy (orgToPeer (candidates order service chaincodeId channelId))
          policy = .ok orgs ∧
        plan = orgs.filterMap fun org =>
          (orgToPeer (candidates order service chaincodeId channelId))[org]? := by
  simp only [endorsementPlan, stored]
  cases requiredOrgsForPolicy (orgToPeer (candidates order service chaincodeId channelId))
    policy with
  | error reason => simp
  | ok orgs => simp [eq_comm]

end Eligible

theorem required_orgs_ok {available : PeerByOrg} {policy : EndorsementPolicy}
    {choice : List String} (offered : choice ∈ choices available.contains policy) :
    ∃ orgs, requiredOrgsForPolicy available policy = .ok orgs := by
  have first := planned_first available policy
  cases planned : requiredOrgsForPolicy available policy with
  | ok orgs => exact ⟨orgs, rfl⟩
  | error reason =>
    rw [planned] at first
    rw [List.head?_eq_none_iff.mp first.symm] at offered
    cases offered

/-- A plan exists exactly where the organisations with an eligible peer satisfy
the policy; then its own organisations do, and its peers are eligible. -/
theorem plan_feasible_iff (order : Arrangement PeerDescriptor) (service : DiscoveryService)
    (chaincodeId channelId : String) (policy : EndorsementPolicy)
    (stored : service.policyStore[resourceId chaincodeId channelId]? = some policy) :
    ((∃ plan, endorsementPlan order service chaincodeId channelId = .ok plan) ↔
      policy.evaluate (eligibleOrgs service chaincodeId channelId) = true) ∧
    ∀ plan, endorsementPlan order service chaincodeId channelId = .ok plan →
      policy.evaluate (plan.map PeerDescriptor.orgId) = true ∧
        ∀ peer ∈ plan, Eligible service chaincodeId channelId peer := by
  have satisfied : ∀ plan, endorsementPlan order service chaincodeId channelId = .ok plan →
      policy.evaluate (plan.map PeerDescriptor.orgId) = true ∧
        ∀ peer ∈ plan, Eligible service chaincodeId channelId peer := by
    intro plan planned
    obtain ⟨own, found, accepted⟩ := plan_satisfies planned
    rw [stored, Option.mem_some_iff] at found
    obtain ⟨orgs, _, rfl⟩ := (endorsement_plan_ok_iff stored).mp planned
    refine ⟨found ▸ accepted, ?_⟩
    intro peer member
    obtain ⟨org, _, chosen⟩ := List.mem_filterMap.mp member
    exact available_eligible chosen
  refine ⟨⟨?_, ?_⟩, satisfied⟩
  · rintro ⟨plan, planned⟩
    obtain ⟨accepted, eligible⟩ := satisfied plan planned
    refine evaluate_mono policy ?_ accepted
    intro org member
    obtain ⟨peer, inPlan, rfl⟩ := List.mem_map.mp member
    exact mem_eligible_orgs.mpr ⟨peer, eligible peer inPlan, rfl⟩
  · intro accepted
    have present : ∀ org ∈ eligibleOrgs service chaincodeId channelId,
        (orgToPeer (candidates order service chaincodeId channelId)).contains org = true :=
      fun org member => available_iff.mpr member
    obtain ⟨choice, offered, -⟩ := choice_within policy present accepted
    obtain ⟨orgs, planned⟩ := required_orgs_ok offered
    exact ⟨_, (endorsement_plan_ok_iff stored).mpr ⟨orgs, planned, rfl⟩⟩

def samplePeer (orgId : String) : PeerDescriptor := ⟨orgId ++ ":7051", orgId, ["cc"], ["ch"]⟩

def sampleService (policy : EndorsementPolicy) (orgs : List String) : DiscoveryService :=
  { peers := Std.ExtTreeMap.ofList (orgs.map fun org => (org ++ ":7051", samplePeer org))
    policyStore := (∅ : PolicyStore).insert "ch/cc" policy }

def quorumPolicy : EndorsementPolicy := .and (.anyOf ["A", "B"]) (.nOutOf 2 ["C", "D", "E"])

def quorumService : DiscoveryService := sampleService quorumPolicy ["A", "C", "E"]

theorem quorum_plan_feasible :
    quorumService.policyStore[resourceId "cc" "ch"]? = some quorumPolicy ∧
      ∃ plan, endorsementPlan .asStored quorumService "cc" "ch" = .ok plan :=
  have stored : quorumService.policyStore[resourceId "cc" "ch"]? = some quorumPolicy := by
    decide +kernel
  ⟨stored, (plan_feasible_iff .asStored quorumService "cc" "ch" quorumPolicy stored).1.mpr
    (by decide +kernel)⟩

end CeruleanLedger.EndorsementPlans
