import CeruleanLedger.EndorsementCheck

/-!
Channel governance: `channel/config.rs` and the handler `update_channel_config`
of `api/handlers/channels.rs`. A request is taken as one step on the channel
state. The ACL check of the API layer is a parameter, and so is the hash of what
the signers of a config transaction sign: no function of the source computes it.
-/

namespace CeruleanLedger.ConfigUpdate

open ByteCodec
open EndorsementCheck

inductive ChannelError where
  | orgAlreadyExists (org : String)
  | orgNotFound (org : String)
  | endorsementFailed (reason : String)
  deriving DecidableEq

def ChannelError.display : ChannelError → String
  | .orgAlreadyExists org => "org already exists: " ++ org
  | .orgNotFound org => "org not found: " ++ org
  | .endorsementFailed reason => "endorsement validation failed: " ++ reason

structure RetentionPolicy where
  blockRetentionCount : UInt64 := 0
  privateDataTtlBlocks : UInt64 := 0
  transactionRetentionSecs : UInt64 := 0
  deriving DecidableEq

structure ChannelConfig where
  version : UInt64 := 0
  memberOrgs : List String := []
  ordererOrgs : List String := []
  endorsementPolicy : EndorsementPolicy := .anyOf []
  acls : Std.ExtTreeMap String String := ∅
  batchSize : Nat := 100
  batchTimeoutMs : UInt64 := 2000
  anchorPeers : Std.ExtTreeMap String (List String) := ∅
  retentionPolicy : RetentionPolicy := {}

inductive ConfigUpdateType where
  | addOrg (org : String)
  | removeOrg (org : String)
  | setPolicy (policy : EndorsementPolicy)
  | setAcl (resource policyRef : String)
  | setBatchSize (size : Nat)
  | setBatchTimeout (ms : UInt64)
  | setAnchorPeer (orgId peerAddress : String)
  | setRetention (policy : RetentionPolicy)
  deriving DecidableEq

def applyUpdate (next : ChannelConfig) : ConfigUpdateType → Except ChannelError ChannelConfig
  | .addOrg org =>
    if next.memberOrgs.contains org then .error (.orgAlreadyExists org)
    else .ok { next with memberOrgs := next.memberOrgs ++ [org] }
  | .removeOrg org =>
    match next.memberOrgs.findIdx? (· == org) with
    | none => .error (.orgNotFound org)
    | some pos => .ok { next with memberOrgs := next.memberOrgs.eraseIdx pos }
  | .setPolicy policy => .ok { next with endorsementPolicy := policy }
  | .setAcl resource policyRef => .ok { next with acls := next.acls.insert resource policyRef }
  | .setBatchSize size => .ok { next with batchSize := size }
  | .setBatchTimeout ms => .ok { next with batchTimeoutMs := ms }
  | .setAnchorPeer orgId peerAddress =>
    .ok { next with anchorPeers :=
      next.anchorPeers.insert orgId ((next.anchorPeers[orgId]?).getD [] ++ [peerAddress]) }
  | .setRetention policy => .ok { next with retentionPolicy := policy }

def applyConfigUpdate (config : ChannelConfig) (updates : List ConfigUpdateType) :
    Except ChannelError ChannelConfig :=
  (updates.foldlM applyUpdate config).map fun next => { next with version := next.version + 1 }

structure ConfigTransaction where
  txId : String
  channelId : String
  updates : List ConfigUpdateType
  signatures : List Endorsement
  createdAt : UInt64

/-- The policy stored for the channel that the transaction names, or the one of
the current configuration. -/
def modPolicy (tx : ConfigTransaction) (currentConfig : ChannelConfig)
    (policyStore : PolicyStore) : EndorsementPolicy :=
  (policyStore["channel/" ++ tx.channelId ++ "/mod_policy"]?).getD currentConfig.endorsementPolicy

def validateConfigTx (ed25519 : Ed25519) (pqcRequired : Bool) (tx : ConfigTransaction)
    (currentConfig : ChannelConfig) (policyStore : PolicyStore) (orgRegistry : OrgRegistry) :
    Except ChannelError Unit :=
  match validateEndorsements ed25519 pqcRequired tx.signatures
      (modPolicy tx currentConfig policyStore) orgRegistry none with
  | .ok () => .ok ()
  | .error reason => .error (.endorsementFailed reason.display)

inductive ApiError where
  | forbidden (reason : String)
  | notFound (resource : String)
  | validationError (field reason : String)
  deriving DecidableEq

/-- The part of `AppState` that the handler uses: the channels with a store, the
history of each configuration, and the registries when they are there. -/
structure ChannelState where
  channels : List String
  channelConfigs : Std.ExtTreeMap String (List ChannelConfig)
  policyStore : Option PolicyStore
  orgRegistry : Option OrgRegistry

/-- The channel of the path and the channel that the transaction names are not
compared. -/
def updateChannelConfig (ed25519 : Ed25519) (pqcRequired : Bool) (acl : Except ApiError Unit)
    (state : ChannelState) (channelId : String) (tx : ConfigTransaction) :
    Except ApiError (ChannelState × ChannelConfig) := do
  acl
  if !state.channels.contains channelId then
    throw (.notFound ("channel '" ++ channelId ++ "'"))
  let history := (state.channelConfigs[channelId]?).getD []
  match history.getLast? with
  | none => throw (.notFound ("config for channel '" ++ channelId ++ "'"))
  | some current =>
    match validateConfigTx ed25519 pqcRequired tx current (state.policyStore.getD ∅)
        (state.orgRegistry.getD ∅) with
    | .error reason => throw (.validationError "signatures" reason.display)
    | .ok () =>
      match applyConfigUpdate current tx.updates with
      | .error reason => throw (.validationError "updates" reason.display)
      | .ok newConfig =>
        return ({ state with channelConfigs :=
          state.channelConfigs.insert channelId (history ++ [newConfig]) }, newConfig)

section ValidOrgs

theorem evaluate_congr {left right : List String}
    (same : ∀ org, left.contains org = right.contains org) (policy : EndorsementPolicy) :
    policy.evaluate left = policy.evaluate right := by
  induction policy with
  | and first second firstIh secondIh =>
    simp only [EndorsementPolicy.evaluate, firstIh, secondIh]
  | or first second firstIh secondIh =>
    simp only [EndorsementPolicy.evaluate, firstIh, secondIh]
  | _ => simp only [EndorsementPolicy.evaluate, same]

variable (ed25519 : Ed25519) (pqcRequired : Bool) (registry : OrgRegistry)

def Counts (endorsement : Endorsement) : Prop :=
  validOrgsStep ed25519 pqcRequired registry none [] endorsement = .ok [endorsement.orgId]

variable {ed25519 : Ed25519} {pqcRequired : Bool} {registry : OrgRegistry}

/-- Whether an endorsement fails, is passed over or counts does not depend on
those before it. -/
theorem step_cases (endorsement : Endorsement) :
    (∃ reason, ∀ validOrgs, validOrgsStep ed25519 pqcRequired registry none validOrgs endorsement =
        .error reason) ∨
      (¬ Counts ed25519 pqcRequired registry endorsement ∧ ∀ validOrgs,
        validOrgsStep ed25519 pqcRequired registry none validOrgs endorsement = .ok validOrgs) ∨
      (Counts ed25519 pqcRequired registry endorsement ∧ ∀ validOrgs,
        validOrgsStep ed25519 pqcRequired registry none validOrgs endorsement =
          .ok (if validOrgs.contains endorsement.orgId then validOrgs
            else validOrgs ++ [endorsement.orgId])) := by
  unfold Counts validOrgsStep
  cases validateSignatureConsistency endorsement.signatureAlgorithm endorsement.signature
      "endorsement signature" with
  | error reason => exact Or.inl ⟨_, fun _ => rfl⟩
  | ok _ =>
    cases enforcePqc pqcRequired endorsement.signatureAlgorithm "endorsement signature" with
    | error reason => exact Or.inl ⟨_, fun _ => rfl⟩
    | ok _ =>
      cases registry[endorsement.orgId]? with
      | none => exact Or.inl ⟨_, fun _ => rfl⟩
      | some org =>
        dsimp only
        cases org.rootPublicKeys.find? fun publicKey =>
            (verifyEndorsement ed25519 endorsement publicKey).isOk with
        | none =>
          refine Or.inr (Or.inl ⟨?_, fun _ => rfl⟩)
          intro counted
          cases counted
        | some publicKey =>
          refine Or.inr (Or.inr ⟨rfl, fun validOrgs => ?_⟩)
          dsimp only [Option.map_none, Option.getD_none]
          simp only [Bool.false_eq_true, if_false]
          split
          · rfl
          · rfl

theorem joined_mem (validOrgs : List String) (orgId org : String) :
    org ∈ (if validOrgs.contains orgId then validOrgs else validOrgs ++ [orgId]) ↔
      org ∈ validOrgs ∨ orgId = org := by
  split
  · next present =>
    constructor
    · exact Or.inl
    · rintro (old | rfl)
      · exact old
      · exact List.contains_iff_mem.mp present
  · simp [eq_comm]

theorem valid_orgs_mem {endorsements : List Endorsement} {before after : List String}
    (ran : endorsements.foldlM (validOrgsStep ed25519 pqcRequired registry none) before =
      .ok after) (org : String) :
    org ∈ after ↔ org ∈ before ∨ ∃ endorsement ∈ endorsements,
      endorsement.orgId = org ∧ Counts ed25519 pqcRequired registry endorsement := by
  induction endorsements generalizing before with
  | nil =>
    cases ran
    simp
  | cons endorsement rest ih =>
    rw [List.foldlM_cons] at ran
    rcases step_cases endorsement with ⟨reason, failed⟩ | ⟨passedOver, same⟩ | ⟨counts, joined⟩
    · rw [failed] at ran
      cases ran
    · rw [same] at ran
      rw [ih ran]
      simp only [List.mem_cons, exists_eq_or_imp, passedOver, and_false, false_or]
    · rw [joined] at ran
      rw [ih ran]
      simp only [List.mem_cons, exists_eq_or_imp, counts, and_true, joined_mem, or_assoc]

theorem counted_loop_ok {endorsements : List Endorsement}
    (counted : ∀ endorsement ∈ endorsements, Counts ed25519 pqcRequired registry endorsement)
    (before : List String) :
    ∃ after, endorsements.foldlM (validOrgsStep ed25519 pqcRequired registry none) before =
      .ok after := by
  induction endorsements generalizing before with
  | nil => exact ⟨before, rfl⟩
  | cons endorsement rest ih =>
    obtain ⟨first, others⟩ := List.forall_mem_cons.mp counted
    rw [List.foldlM_cons]
    rcases step_cases endorsement with ⟨reason, failed⟩ | ⟨passedOver, same⟩ | ⟨counts, joined⟩
    · rw [Counts, failed] at first
      cases first
    · exact absurd first passedOver
    · rw [joined]
      exact ih others _

end ValidOrgs

variable (ed25519 : Ed25519) (pqcRequired : Bool) (policyStore : PolicyStore)
  (registry : OrgRegistry)

/-- Among the endorsements ever given there is a signature of the message by a root
key of the organisation. The scheme accepts a signature only for the message
signed, so verifying it tells. -/
def SignedBy (given : Set Endorsement) (orgId : String) (message : Hash32) : Prop :=
  ∃ org, registry[orgId]? = some org ∧ ∃ publicKey ∈ org.rootPublicKeys, ∃ endorsement ∈ given,
    ed25519.verify publicKey message.toList endorsement.signature = true

abbrev PayloadHash := String → String → List ConfigUpdateType → Hash32

def signingPayload (payload : PayloadHash) (tx : ConfigTransaction) : Hash32 :=
  payload tx.txId tx.channelId tx.updates

/-- If some of the given endorsements make both transactions acceptable, then one of
the endorsing organisations at least has signed the second. -/
def AuthorisesOnce (given : Set Endorsement) (payload : PayloadHash)
    (first second : ConfigTransaction) (firstConfig secondConfig : ChannelConfig) : Prop :=
  ∀ signatures : List Endorsement, (∀ endorsement ∈ signatures, endorsement ∈ given) →
    validateConfigTx ed25519 pqcRequired { first with signatures } firstConfig policyStore
        registry = .ok () →
      validateConfigTx ed25519 pqcRequired { second with signatures } secondConfig policyStore
          registry = .ok () →
        ∃ endorsement ∈ signatures,
          SignedBy ed25519 registry given endorsement.orgId (signingPayload payload second)

/-- The organisation has given a valid endorsement of something, and has not signed
the message. -/
def EndorsedOtherwise (given : Set Endorsement) (message : Hash32) (orgId : String) : Prop :=
  ¬ SignedBy ed25519 registry given orgId message ∧ ∃ endorsement ∈ given,
    endorsement.orgId = orgId ∧ Counts ed25519 pqcRequired registry endorsement

variable {ed25519 pqcRequired policyStore registry}

theorem validate_ok_iff (tx : ConfigTransaction) (config : ChannelConfig) :
    validateConfigTx ed25519 pqcRequired tx config policyStore registry = .ok () ↔
      ∃ validOrgs, tx.signatures.foldlM (validOrgsStep ed25519 pqcRequired registry none) [] =
        .ok validOrgs ∧ (modPolicy tx config policyStore).evaluate validOrgs = true := by
  unfold validateConfigTx validateEndorsements
  cases tx.signatures.foldlM (validOrgsStep ed25519 pqcRequired registry none) [] with
  | error reason =>
    constructor
    · intro accepted
      cases accepted
    · rintro ⟨validOrgs, ran, -⟩
      cases ran
  | ok validOrgs =>
    dsimp only
    constructor
    · intro accepted
      refine ⟨validOrgs, rfl, ?_⟩
      split at accepted
      · next verdict =>
        split at verdict
        · assumption
        · cases verdict
      · cases accepted
    · rintro ⟨same, ran, satisfied⟩
      cases ran
      rw [if_pos satisfied]

theorem endorsements_for {given : Set Endorsement} {message : Hash32} {orgs : List String}
    (otherwise : ∀ org ∈ orgs, EndorsedOtherwise ed25519 pqcRequired registry given message org) :
    ∃ signatures : List Endorsement, signatures.map Endorsement.orgId = orgs ∧
      ∀ endorsement ∈ signatures,
        endorsement ∈ given ∧ Counts ed25519 pqcRequired registry endorsement := by
  induction orgs with
  | nil => exact ⟨[], rfl, fun _ member => absurd member List.not_mem_nil⟩
  | cons org rest ih =>
    obtain ⟨⟨-, endorsement, made, own, counts⟩, others⟩ := List.forall_mem_cons.mp otherwise
    obtain ⟨signatures, named, counted⟩ := ih others
    refine ⟨endorsement :: signatures, ?_, List.forall_mem_cons.mpr ⟨⟨made, counts⟩, counted⟩⟩
    rw [List.map_cons, own, named]

theorem counted_accepted {signatures : List Endorsement}
    (counted : ∀ endorsement ∈ signatures, Counts ed25519 pqcRequired registry endorsement)
    (tx : ConfigTransaction) (config : ChannelConfig)
    (satisfied : (modPolicy tx config policyStore).evaluate (signatures.map Endorsement.orgId) =
      true) :
    validateConfigTx ed25519 pqcRequired { tx with signatures } config policyStore registry =
      .ok () := by
  obtain ⟨validOrgs, ran⟩ := counted_loop_ok counted []
  have members : ∀ org, validOrgs.contains org =
      (signatures.map Endorsement.orgId).contains org := by
    intro org
    rw [Bool.eq_iff_iff, List.contains_iff_mem, List.contains_iff_mem, valid_orgs_mem ran,
      List.mem_map]
    constructor
    · rintro (none | ⟨endorsement, member, own, -⟩)
      · cases none
      · exact ⟨endorsement, member, own⟩
    · rintro ⟨endorsement, member, own⟩
      exact Or.inr ⟨endorsement, member, own, counted endorsement member⟩
  refine (validate_ok_iff _ _).mpr ⟨validOrgs, ran, ?_⟩
  rw [evaluate_congr members]
  exact satisfied

/-- Signatures authorise one change only, for a given pair of transactions,
exactly when the policies of the two channels are never both satisfied by
organisations that have signed something else only: the verdict does not depend on
what was signed. -/
theorem authorises_once_iff (given : Set Endorsement) (payload : PayloadHash)
    (first second : ConfigTransaction) (firstConfig secondConfig : ChannelConfig) :
    AuthorisesOnce ed25519 pqcRequired policyStore registry given payload first second firstConfig
        secondConfig ↔
      ∀ orgs : List String,
        (∀ org ∈ orgs, EndorsedOtherwise ed25519 pqcRequired registry given
          (signingPayload payload second) org) →
        (modPolicy first firstConfig policyStore).evaluate orgs = true →
        (modPolicy second secondConfig policyStore).evaluate orgs = false := by
  constructor
  · intro once orgs otherwise firstSatisfied
    rw [← Bool.not_eq_true]
    intro secondSatisfied
    obtain ⟨signatures, named, chosen⟩ := endorsements_for otherwise
    obtain ⟨made, counted⟩ := forall₂_and.mp chosen
    rw [← named] at firstSatisfied secondSatisfied
    obtain ⟨endorsement, member, signed⟩ := once signatures made
      (counted_accepted counted first _ firstSatisfied)
      (counted_accepted counted second _ secondSatisfied)
    have present : endorsement.orgId ∈ orgs := by
      rw [← named]
      exact List.mem_map_of_mem member
    exact (otherwise _ present).1 signed
  · intro apart signatures made firstAccepted secondAccepted
    obtain ⟨validOrgs, ran, firstSatisfied⟩ := (validate_ok_iff _ _).mp firstAccepted
    obtain ⟨same, ranAgain, secondSatisfied⟩ := (validate_ok_iff _ _).mp secondAccepted
    cases ran.symm.trans ranAgain
    by_contra unsigned
    have otherwise : ∀ org ∈ validOrgs, EndorsedOtherwise ed25519 pqcRequired registry given
        (signingPayload payload second) org := by
      intro org member
      rcases (valid_orgs_mem ran org).mp member with none | ⟨endorsement, inside, rfl, counts⟩
      · cases none
      · exact ⟨fun signed => unsigned ⟨endorsement, inside, signed⟩, endorsement,
          made endorsement inside, rfl, counts⟩
    have rejected := apart validOrgs otherwise firstSatisfied
    exact Bool.false_ne_true (rejected.symm.trans secondSatisfied)

def samplePayload : PayloadHash := fun txId _ _ =>
  if txId = "tx-1" then Vector.replicate 32 1 else Vector.replicate 32 2

/-- Every message has a signature of its own. -/
def paddedScheme : Ed25519 where
  keyDecodes _ := true
  verify _ message signature := signature == message ++ List.replicate 32 0

def addMember : ConfigTransaction where
  txId := "tx-1"
  channelId := "main"
  updates := [.addOrg "org2"]
  signatures := [⟨"org1", List.replicate 32 1 ++ List.replicate 32 0, .ed25519,
    Vector.replicate 32 1⟩]
  createdAt := 1700000000

def takeOver : ConfigTransaction :=
  { addMember with txId := "tx-2", updates := [.removeOrg "org1", .setPolicy (.anyOf ["mallory"])] }

def sampleRegistry : OrgRegistry :=
  (∅ : OrgRegistry).insert "org1" ⟨"org1", [Vector.replicate 32 7]⟩

def sampleChannel : ChannelState where
  channels := ["main"]
  channelConfigs := (∅ : Std.ExtTreeMap String (List ChannelConfig)).insert "main"
    [{ memberOrgs := ["org1"], endorsementPolicy := .allOf ["org1"] }]
  policyStore := none
  orgRegistry := some sampleRegistry

/-- The organisation has signed that a member is added. Its endorsement is taken
for that, and then for a change that removes it and hands the channel over. -/
theorem signature_reused :
    signingPayload samplePayload addMember ≠ signingPayload samplePayload takeOver ∧
      (∀ orgId, ¬ SignedBy paddedScheme sampleRegistry {made | made ∈ addMember.signatures} orgId
        (signingPayload samplePayload takeOver)) ∧
      takeOver.signatures = addMember.signatures ∧
      let added := updateChannelConfig paddedScheme false (.ok ()) sampleChannel "main" addMember
      let taken := added.bind fun answer =>
        updateChannelConfig paddedScheme false (.ok ()) answer.1 "main" takeOver
      (added.toOption.map fun answer => answer.2.memberOrgs) = some ["org1", "org2"] ∧
        (taken.toOption.map fun answer => (answer.2.memberOrgs, answer.2.endorsementPolicy)) =
          some (["org2"], .anyOf ["mallory"]) := by
  refine ⟨by decide +kernel, ?_, rfl, by decide +kernel⟩
  rintro orgId ⟨org, -, publicKey, -, endorsement, made, verified⟩
  cases List.mem_singleton.mp made
  have differ : paddedScheme.verify publicKey (signingPayload samplePayload takeOver).toList
      (List.replicate 32 1 ++ List.replicate 32 0) = false := by
    change (_ == _) = false
    decide +kernel
  exact Bool.false_ne_true (differ.symm.trans verified)

end CeruleanLedger.ConfigUpdate
