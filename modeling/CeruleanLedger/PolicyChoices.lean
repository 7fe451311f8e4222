import CeruleanLedger.EndorsementCollection

/-!
The choices of organisations that an endorsement policy spells out, each met by every set that
contains it. The planner of `discovery/service.rs` takes the first of them: the first organisation
with a peer, the first places of a list, the first choices of both sides of an `And` without
repeating the second, and of an `Or` the side whose first choice is shorter.
-/

namespace CeruleanLedger.PolicyChoices

open EndorsementCheck EndorsementCollection EndorsementPolicy GatewaySubmit

/-- So many places of a list, its front first. -/
def picks (count : Nat) (orgs : List String) : List (List String) :=
  (orgs.sublistsLen count).reverse

def joined (first second : List String) : List String :=
  first ++ second.filter fun org => !first.contains org

def shorterFirst (left right : List (List String)) : List (List String) :=
  match left.head?, right.head? with
  | some first, some second =>
    if first.length ≤ second.length then left ++ right else right ++ left
  | _, _ => left ++ right

def choices (hasPeer : String → Bool) : EndorsementPolicy → List (List String)
  | .anyOf orgs => (orgs.filter hasPeer).map ([·])
  | .allOf orgs => if orgs.all hasPeer then [orgs] else []
  | .nOutOf n orgs => picks n (orgs.filter hasPeer)
  | .and left right =>
    (choices hasPeer left).flatMap fun first => (choices hasPeer right).map (joined first)
  | .or left right => shorterFirst (choices hasPeer left) (choices hasPeer right)
  | .ouBased ouIds minCount => picks minCount (ouIds.filter hasPeer)

theorem mem_picks {count : Nat} {orgs choice : List String} :
    choice ∈ picks count orgs ↔ choice.Sublist orgs ∧ choice.length = count := by
  rw [picks, List.mem_reverse, List.mem_sublistsLen]

theorem picks_head (count : Nat) (orgs : List String) :
    (picks count orgs).head? = if count ≤ orgs.length then some (orgs.take count) else none := by
  rw [picks, List.head?_reverse]
  induction orgs generalizing count with
  | nil => cases count <;> simp
  | cons org rest ih =>
    cases count with
    | zero => simp
    | succ count =>
      rw [List.sublistsLen_succ_cons, List.getLast?_append, List.getLast?_map, ih, ih]
      by_cases enough : count ≤ rest.length
      · simp [enough]
      · simp [enough, Nat.not_le.mpr (Nat.lt_succ_of_lt (Nat.lt_of_not_le enough))]

theorem joined_head (left right : List (List String)) :
    (left.flatMap fun first => right.map (joined first)).head? =
      left.head?.bind fun first => right.head?.map (joined first) := by
  cases right with
  | nil => simp
  | cons second rest =>
    cases left with
    | nil => rfl
    | cons first others => rfl

theorem shorter_first_head (left right : List (List String)) :
    (shorterFirst left right).head? =
      match left.head?, right.head? with
      | some first, some second => some (if first.length ≤ second.length then first else second)
      | some first, none => some first
      | none, last => last := by
  cases left with
  | nil => rfl
  | cons first others =>
    cases right with
    | nil => rfl
    | cons second rest =>
      simp only [shorterFirst, List.head?_cons]
      split <;> rfl

theorem mem_joined {first second : List String} {org : String} :
    org ∈ joined first second ↔ org ∈ first ∨ org ∈ second := by
  by_cases early : org ∈ first <;> simp [joined, early]

theorem mem_shorter_first {left right : List (List String)} {choice : List String} :
    choice ∈ shorterFirst left right ↔ choice ∈ left ∨ choice ∈ right := by
  unfold shorterFirst
  split
  · split
    · exact List.mem_append
    · rw [List.mem_append, Or.comm]
  · exact List.mem_append

section Planner

variable (available : PeerByOrg)

theorem first_available_eq (count : Nat) (orgs : List String) :
    (firstAvailable available count orgs).toOption =
      (picks count (orgs.filter available.contains)).head? := by
  rw [picks_head, firstAvailable]
  simp only [List.length_take]
  by_cases enough : count ≤ (orgs.filter available.contains).length
  · rw [if_pos (by omega), if_pos enough]
    rfl
  · rw [if_neg (by omega), if_neg enough]
    rfl

/-- The planner returns the first choice, and fails where there is none. -/
theorem planned_first (policy : EndorsementPolicy) :
    (requiredOrgsForPolicy available policy).toOption =
      (choices available.contains policy).head? := by
  induction policy with
  | anyOf orgs =>
    rw [choices, List.head?_map, List.head?_filter, requiredOrgsForPolicy]
    cases orgs.find? available.contains <;> rfl
  | allOf orgs =>
    have every : (orgs.filter available.contains).length = orgs.length ↔
        orgs.all available.contains = true := by
      rw [List.length_filter_eq_length_iff, List.all_eq_true]
    simp only [requiredOrgsForPolicy, choices, every]
    split
    · next all =>
      rw [List.filter_eq_self.mpr (List.all_eq_true.mp all)]
      rfl
    · rfl
  | nOutOf n orgs => exact first_available_eq available n orgs
  | ouBased ouIds minCount => exact first_available_eq available minCount ouIds
  | and left right leftIh rightIh =>
    rw [choices, joined_head, ← leftIh, ← rightIh, requiredOrgsForPolicy]
    cases requiredOrgsForPolicy available left <;>
      cases requiredOrgsForPolicy available right <;> rfl
  | or left right leftIh rightIh =>
    rw [choices, shorter_first_head, ← leftIh, ← rightIh, requiredOrgsForPolicy]
    cases requiredOrgsForPolicy available left <;>
      cases requiredOrgsForPolicy available right <;> rfl

end Planner

variable {hasPeer : String → Bool}

theorem pick_covers {count : Nat} {orgs choice : List String}
    (picked : choice ∈ picks count (orgs.filter hasPeer)) :
    (∀ org ∈ choice, hasPeer org = true) ∧
      ∀ signers : List String, (∀ org ∈ choice, org ∈ signers) →
        count ≤ (orgs.filter (signers.contains ·)).length := by
  obtain ⟨part, size⟩ := mem_picks.mp picked
  refine ⟨fun org member => (List.mem_filter.mp (part.mem member)).2, ?_⟩
  intro signers signed
  have kept := (part.trans List.filter_sublist).filter (signers.contains ·)
  rw [List.filter_eq_self.mpr fun org member => List.contains_iff_mem.mpr (signed org member)]
    at kept
  exact size ▸ kept.length_le

/-- Every choice is of organisations with a peer, and whoever else signs, the
policy is met. -/
theorem choice_covers (policy : EndorsementPolicy) {choice : List String}
    (offered : choice ∈ choices hasPeer policy) :
    (∀ org ∈ choice, hasPeer org = true) ∧
      ∀ signers : List String, (∀ org ∈ choice, org ∈ signers) →
        policy.evaluate signers = true := by
  induction policy generalizing choice with
  | anyOf orgs =>
    obtain ⟨org, listed, rfl⟩ := List.mem_map.mp offered
    obtain ⟨member, present⟩ := List.mem_filter.mp listed
    simp only [List.forall_mem_singleton]
    exact ⟨present, fun signers signed =>
      List.any_eq_true.mpr ⟨org, member, List.contains_iff_mem.mpr signed⟩⟩
  | allOf orgs =>
    simp only [choices] at offered
    split at offered
    · next every =>
      cases List.mem_singleton.mp offered
      exact ⟨List.all_eq_true.mp every, fun signers signed => List.all_eq_true.mpr
        fun org member => List.contains_iff_mem.mpr (signed org member)⟩
    · cases offered
  | and left right leftIh rightIh =>
    obtain ⟨first, fromLeft, inner⟩ := List.mem_flatMap.mp offered
    obtain ⟨second, fromRight, rfl⟩ := List.mem_map.mp inner
    obtain ⟨presentLeft, leftMet⟩ := leftIh fromLeft
    obtain ⟨presentRight, rightMet⟩ := rightIh fromRight
    simp only [mem_joined, or_imp, forall_and]
    exact ⟨⟨presentLeft, presentRight⟩, fun signers signed =>
      Bool.and_eq_true_iff.mpr ⟨leftMet signers signed.1, rightMet signers signed.2⟩⟩
  | or left right leftIh rightIh =>
    rcases mem_shorter_first.mp offered with fromLeft | fromRight
    · obtain ⟨present, met⟩ := leftIh fromLeft
      exact ⟨present, fun signers signed =>
        Bool.or_eq_true_iff.mpr (Or.inl (met signers signed))⟩
    · obtain ⟨present, met⟩ := rightIh fromRight
      exact ⟨present, fun signers signed =>
        Bool.or_eq_true_iff.mpr (Or.inr (met signers signed))⟩
  | _ =>
    obtain ⟨present, met⟩ := pick_covers offered
    exact ⟨present, fun signers signed => decide_eq_true (met signers signed)⟩

theorem pick_within {count : Nat} {orgs signers : List String}
    (present : ∀ org ∈ signers, hasPeer org = true)
    (enough : count ≤ (orgs.filter (signers.contains ·)).length) :
    ∃ choice ∈ picks count (orgs.filter hasPeer), ∀ org ∈ choice, org ∈ signers := by
  have part : (orgs.filter (signers.contains ·)).Sublist (orgs.filter hasPeer) :=
    List.monotone_filter_right _ fun org signed => present org (List.contains_iff_mem.mp signed)
  refine ⟨(orgs.filter (signers.contains ·)).take count, mem_picks.mpr ⟨?_, ?_⟩, ?_⟩
  · exact (List.take_sublist _ _).trans part
  · rw [List.length_take, Nat.min_eq_left enough]
  · intro org member
    exact List.contains_iff_mem.mp (List.mem_filter.mp (List.mem_of_mem_take member)).2

/-- Organisations with a peer that meet the policy contain one of its choices. -/
theorem choice_within (policy : EndorsementPolicy) {signers : List String}
    (present : ∀ org ∈ signers, hasPeer org = true) (met : policy.evaluate signers = true) :
    ∃ choice ∈ choices hasPeer policy, ∀ org ∈ choice, org ∈ signers := by
  induction policy with
  | anyOf orgs =>
    simp only [evaluate, List.any_eq_true, List.contains_iff_mem] at met
    obtain ⟨org, listed, signed⟩ := met
    refine ⟨[org], List.mem_map_of_mem (List.mem_filter.mpr ⟨listed, present org signed⟩), ?_⟩
    exact List.forall_mem_singleton.mpr signed
  | allOf orgs =>
    simp only [evaluate, List.all_eq_true, List.contains_iff_mem] at met
    have every : orgs.all hasPeer = true :=
      List.all_eq_true.mpr fun org listed => present org (met org listed)
    exact ⟨orgs, by simp [choices, every], met⟩
  | and left right leftIh rightIh =>
    obtain ⟨metLeft, metRight⟩ := Bool.and_eq_true_iff.mp met
    obtain ⟨first, fromLeft, leftSigned⟩ := leftIh metLeft
    obtain ⟨second, fromRight, rightSigned⟩ := rightIh metRight
    refine ⟨joined first second, List.mem_flatMap.mpr
      ⟨first, fromLeft, List.mem_map_of_mem fromRight⟩, fun org member => ?_⟩
    exact (mem_joined.mp member).elim (leftSigned org) (rightSigned org)
  | or left right leftIh rightIh =>
    rcases Bool.or_eq_true_iff.mp met with metLeft | metRight
    · obtain ⟨choice, offered, signed⟩ := leftIh metLeft
      exact ⟨choice, mem_shorter_first.mpr (Or.inl offered), signed⟩
    · obtain ⟨choice, offered, signed⟩ := rightIh metRight
      exact ⟨choice, mem_shorter_first.mpr (Or.inr offered), signed⟩
  | _ => exact pick_within present (of_decide_eq_true met)

end CeruleanLedger.PolicyChoices
