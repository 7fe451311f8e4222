import CeruleanLedger.ContractSteps

/-!
Consent of the owner to a move of an NFT. The code keeps a single approval for each token and
clears it only where it is used or the token is burned: one that is there when the owner
transfers the token stays, and moves it again from the new owner.
-/

namespace CeruleanLedger.NftConsent

open SmartContracts ContractSteps GuardedRun OrderedMap

section Law

variable (platform : Platform)

structure Watched where
  contract : SmartContract
  /-- Whom the owner of a token has approved since they acquired it. -/
  consents : UInt64 → List String
  /-- The standing approval of the token is older than the current ownership. -/
  leftOver : UInt64 → Bool

/-- The approvals that are there at the start count as the owners' own. -/
def watching (contract : SmartContract) : Watched where
  contract
  consents := fun tokenId => (contract.getApproved tokenId).toList
  leftOver := fun _ => false

def granted (contract : SmartContract) (call : Call) (tokenId : UInt64) : Option String :=
  match call.function with
  | .approveNFT toAddr approved =>
    if accepted platform contract call ∧ approved = tokenId ∧
        call.caller = contract.ownerOf tokenId then some toAddr
    else none
  | _ => none

def changesOwner (contract : SmartContract) (call : Call) (tokenId : UInt64) : Bool :=
  (step platform contract call).ownerOf tokenId ≠ contract.ownerOf tokenId

def watch (watched : Watched) (call : Call) : Watched :=
  let after := step platform watched.contract call
  { contract := after
    consents := fun tokenId =>
      if changesOwner platform watched.contract call tokenId then []
      else (granted platform watched.contract call tokenId).toList ++ watched.consents tokenId
    leftOver := fun tokenId =>
      if changesOwner platform watched.contract call tokenId then
        (after.getApproved tokenId).isSome
      else watched.leftOver tokenId && (granted platform watched.contract call tokenId).isNone }

/-- A token leaves its owner in a call of theirs or of someone they approved. -/
def Consented (watched : Watched) (call : Call) : Prop :=
  ∀ tokenId owner, watched.contract.ownerOf tokenId = some owner →
    (step platform watched.contract call).ownerOf tokenId ≠ some owner →
    call.caller = some owner ∨ ∃ caller ∈ watched.consents tokenId, call.caller = some caller

/-- An accepted transfer by someone else than the owner uses no left-over approval. -/
def ApprovalFresh (watched : Watched) (call : Call) : Prop :=
  accepted platform watched.contract call →
    match call.function with
    | .transferNFT fromAddr _ tokenId => call.caller ≠ some fromAddr →
        watched.leftOver tokenId = false
    | .transferFromNFT fromAddr _ tokenId => call.caller ≠ some fromAddr →
        watched.leftOver tokenId = false
    | _ => True

end Law

section Approvals

variable {platform : Platform} {contract : SmartContract} {call : Call} {tokenId : UInt64}

theorem granted_accepted {address : String}
    (grant : granted platform contract call tokenId = some address) :
    accepted platform contract call ∧ call.function = .approveNFT address tokenId := by
  unfold granted at grant
  split at grant
  · next function =>
    split at grant
    · next all =>
      obtain ⟨passed, rfl, _⟩ := all
      exact ⟨passed, Option.some.inj grant ▸ function⟩
    · nomatch grant
  · nomatch grant

theorem approval_granted {address : String}
    (grant : granted platform contract call tokenId = some address) :
    (step platform contract call).getApproved tokenId = some address := by
  obtain ⟨passed, function⟩ := granted_accepted grant
  rcases step_cases platform contract call with ⟨refused, _⟩ | ⟨_, state, outcome, done⟩
  · exact absurd passed refused
  · obtain ⟨env, _, caller⟩ := call
    subst function
    rw [done]
    cases outcome with
    | approvedNft metadata owned => exact (get_insert _ _ _ _).trans (if_pos rfl)

theorem moved_other {fromAddr toAddr : String} {moved : UInt64} (apart : fromAddr ≠ toAddr)
    (owned : contract.state.tokenOwners[moved]? = some fromAddr)
    (kept : (contract.state.tokenOwners.insert moved toAddr)[tokenId]? =
      contract.state.tokenOwners[tokenId]?) : moved ≠ tokenId := by
  rintro rfl
  rw [get_insert, if_pos rfl, owned] at kept
  exact apart (Option.some.inj kept).symm

/-- The approval of a token that keeps its owner is an old one, unless one was granted. -/
theorem approval_kept {address : String}
    (same : changesOwner platform contract call tokenId = false)
    (ungranted : granted platform contract call tokenId = none)
    (approved : (step platform contract call).getApproved tokenId = some address) :
    contract.getApproved tokenId = some address := by
  have kept := not_not.mp (of_decide_eq_false same)
  unfold SmartContract.ownerOf at kept
  unfold SmartContract.getApproved at approved ⊢
  rcases step_cases platform contract call with ⟨_, refused⟩ | ⟨passed, state, outcome, done⟩
  · rw [refused] at approved
    exact approved
  · obtain ⟨env, function, caller⟩ := call
    rw [done] at kept approved
    cases outcome with
    | transferredNft metadata apart owned allowed =>
      have other := moved_other apart owned kept
      change (if _ then _ else _)[tokenId]? = _ at approved
      split at approved
      · exact approved
      · rwa [get_erase, if_neg other] at approved
    | transferredFromNft metadata apart owned allowed =>
      have other := moved_other apart owned kept
      change (contract.state.tokenApprovals.erase _)[tokenId]? = _ at approved
      rwa [get_erase, if_neg other] at approved
    | @approvedNft owner toAddr token metadata owned =>
      change (contract.state.tokenApprovals.insert _ _)[tokenId]? = _ at approved
      rw [get_insert] at approved
      split at approved
      · next at_token =>
        subst at_token
        -- the owner has approved, so the watched approval is this one
        exact nomatch (if_pos ⟨passed, rfl, owned.symm⟩).symm.trans ungranted
      · exact approved
    | burnedNft metadata owned =>
      change (contract.state.tokenApprovals.erase _)[tokenId]? = _ at approved
      rw [get_erase] at approved
      split at approved
      · nomatch approved
      · exact approved
    | _ => exact approved

end Approvals

section Tracking

variable {platform : Platform}

/-- A standing approval is the current owner's, or the mark says that it is not. -/
structure Tracked (watched : Watched) : Prop where
  own : ∀ tokenId address, watched.leftOver tokenId = false →
    watched.contract.getApproved tokenId = some address → address ∈ watched.consents tokenId
  old : ∀ tokenId, watched.leftOver tokenId = true → watched.consents tokenId = []

theorem watching_tracked (contract : SmartContract) : Tracked (watching contract) where
  own := fun _ _ _ approved => Option.mem_toList.mpr approved
  old := nofun

theorem tracked_step (watched : Watched) (call : Call) (tracked : Tracked watched) :
    Tracked (watch platform watched call) := by
  constructor
  · intro tokenId address current approved
    unfold watch at current approved ⊢
    dsimp only at current approved ⊢
    cases changes : changesOwner platform watched.contract call tokenId with
    | true =>
      rw [changes, if_pos rfl, approved] at current
      nomatch current
    | false =>
      rw [changes] at current
      rw [if_neg Bool.false_ne_true] at current ⊢
      cases grant : granted platform watched.contract call tokenId with
      | some given =>
        have same := (approval_granted grant).symm.trans approved
        exact List.mem_append_left _ (Option.mem_toList.mpr same)
      | none =>
        rw [grant, Option.isNone_none, Bool.and_true] at current
        exact List.mem_append_right _
          (tracked.own tokenId address current (approval_kept changes grant approved))
  · intro tokenId left
    unfold watch at left ⊢
    dsimp only at left ⊢
    split at left
    · next changes => exact if_pos changes
    · next same =>
      rw [if_neg same]
      obtain ⟨before, ungranted⟩ := Bool.and_eq_true_iff.mp left
      rw [Option.isNone_iff_eq_none.mp ungranted, tracked.old tokenId before]
      rfl

end Tracking

section Calls

variable {platform : Platform} {watched : Watched}

theorem consented_of_kept {call : Call}
    (kept : ∀ tokenId owner, watched.contract.ownerOf tokenId = some owner →
      (step platform watched.contract call).ownerOf tokenId = some owner) :
    Consented platform watched call :=
  fun tokenId owner owned moved => absurd (kept tokenId owner owned) moved

theorem consented_move_iff {call : Call} {fromAddr toAddr caller : String} {moved : UInt64}
    (apart : fromAddr ≠ toAddr) (owned : watched.contract.ownerOf moved = some fromAddr)
    (owners : (step platform watched.contract call).state.tokenOwners =
      watched.contract.state.tokenOwners.insert moved toAddr)
    (called : call.caller = some caller) :
    Consented platform watched call ↔
      (caller ≠ fromAddr → caller ∈ watched.consents moved) := by
  have place (tokenId : UInt64) : (step platform watched.contract call).ownerOf tokenId =
      if moved = tokenId then some toAddr else watched.contract.ownerOf tokenId := by
    rw [SmartContract.ownerOf, owners, get_insert]
    rfl
  unfold Consented
  rw [called]
  constructor
  · intro consented stranger
    have gone : (step platform watched.contract call).ownerOf moved ≠ some fromAddr := by
      rw [place, if_pos rfl]
      exact fun same => apart (Option.some.inj same).symm
    rcases consented moved fromAddr owned gone with own | ⟨approved, member, same⟩
    · exact absurd (Option.some.inj own) stranger
    · exact Option.some.inj same ▸ member
  · intro allowed tokenId owner before gone
    have here : moved = tokenId := by
      by_contra elsewhere
      exact gone (by rw [place, if_neg elsewhere, before])
    subst here
    obtain rfl := Option.some.inj (owned.symm.trans before)
    by_cases own : caller = fromAddr
    · exact .inl (congrArg some own)
    · exact .inr ⟨caller, allowed own, rfl⟩

theorem consent_of_approval (tracked : Tracked watched) {tokenId : UInt64} {address : String}
    (approved : watched.contract.getApproved tokenId = some address) :
    address ∈ watched.consents tokenId ↔ watched.leftOver tokenId = false := by
  constructor
  · intro consented
    cases left : watched.leftOver tokenId with
    | false => rfl
    | true =>
      rw [tracked.old tokenId left] at consented
      nomatch consented
  · intro current
    exact tracked.own tokenId address current approved

theorem transfer_consented_iff (tracked : Tracked watched) {call : Call}
    {fromAddr toAddr caller : String} {moved : UInt64} (apart : fromAddr ≠ toAddr)
    (owned : watched.contract.ownerOf moved = some fromAddr)
    (owners : (step platform watched.contract call).state.tokenOwners =
      watched.contract.state.tokenOwners.insert moved toAddr)
    (called : call.caller = some caller)
    (allowed : caller = fromAddr ∨ watched.contract.getApproved moved = some caller) :
    Consented platform watched call ↔
      (call.caller ≠ some fromAddr → watched.leftOver moved = false) := by
  rw [consented_move_iff apart owned owners called, called]
  constructor
  · intro consents stranger
    have apart : caller ≠ fromAddr := fun same => stranger (congrArg some same)
    exact (consent_of_approval tracked (allowed.resolve_left apart)).mp (consents apart)
  · intro fresh apart
    have stranger : some caller ≠ some fromAddr := fun same => apart (Option.some.inj same)
    exact (consent_of_approval tracked (allowed.resolve_left apart)).mpr (fresh stranger)

theorem consented_iff (watched : Watched) (call : Call) (tracked : Tracked watched) :
    Consented platform watched call ↔ ApprovalFresh platform watched call := by
  rcases step_cases platform watched.contract call with
    ⟨refused, same⟩ | ⟨passed, state, outcome, done⟩
  · refine iff_of_true (consented_of_kept fun _ _ owned => by rw [same, owned]) ?_
    exact fun passed => absurd passed refused
  · obtain ⟨env, function, caller⟩ := call
    have owners := congrArg (fun contract => contract.state.tokenOwners) done
    rw [ApprovalFresh, forall_prop_of_true passed]
    cases outcome with
    | transferredNft metadata apart owned allowed =>
      exact transfer_consented_iff tracked apart owned owners rfl allowed
    | transferredFromNft metadata apart owned allowed =>
      exact transfer_consented_iff tracked apart owned owners rfl (.inr allowed)
    | mintedNft metadata fresh =>
      refine iff_of_true (consented_of_kept fun tokenId owner owned => ?_) trivial
      apply (congrArg (·[tokenId]?) owners).trans
      refine (get_insert _ _ _ _).trans ((if_neg ?_).trans owned)
      rintro rfl
      nomatch fresh.symm.trans owned
    | burnedNft metadata owned =>
      refine iff_of_true (fun tokenId owner before gone => ?_) trivial
      rw [SmartContract.ownerOf, owners] at gone
      change (watched.contract.state.tokenOwners.erase _)[tokenId]? ≠ _ at gone
      rw [get_erase] at gone
      split at gone
      · next here => exact .inl (owned.symm.trans ((congrArg _ here).trans before))
      · exact absurd before gone
    | _ =>
      refine iff_of_true (consented_of_kept fun tokenId owner owned => ?_) trivial
      exact (congrArg (·[tokenId]?) owners).trans owned

end Calls

/-- All moves of a run have the consent of the current owner exactly if none uses
an approval that is left over from an earlier one. -/
theorem moves_consented_iff (platform : Platform) (contract : SmartContract)
    (calls : List Call) :
    AllMeet (watch platform) (Consented platform) (watching contract) calls ↔
      AllMeet (watch platform) (ApprovalFresh platform) (watching contract) calls :=
  all_meet_iff Tracked _ tracked_step consented_iff _ _ (watching_tracked contract)

/-- The owner approves an address and gives the token away; the approved address
then takes it from the new owner. -/
theorem taken_by_old_approval :
    ¬ AllMeet (watch plain) (Consented plain) (watching (deployed "nft"))
      [called 'a' (.mintNFT (account 'a') 1 ""), called 'a' (.approveNFT (account 'x') 1),
        called 'a' (.transferNFT (account 'a') (account 'b') 1),
        called 'x' (.transferFromNFT (account 'b') (account 'x') 1)] := by
  intro ⟨_, _, _, taken, _⟩
  rcases taken 1 (account 'b') (by decide +kernel) (by decide +kernel) with
    own | ⟨caller, approved, _⟩
  · exact absurd own (by decide +kernel)
  · exact absurd (List.ne_nil_of_mem approved) (by decide +kernel)

end CeruleanLedger.NftConsent
