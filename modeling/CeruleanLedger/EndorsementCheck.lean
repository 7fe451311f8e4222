import CeruleanLedger.ByteCodec

/-!
Endorsement policies and their verification: `identity/pqc_policy.rs`,
`endorsement/policy.rs` and `validate_endorsements` of
`endorsement/validator.rs`. Ed25519 is a parameter, and so is the
`REQUIRE_PQC_SIGNATURES` environment flag. Admin and member lists of an
organisation, signer DIDs and endorsement timestamps are read by none of these
functions and are left out.
-/

namespace CeruleanLedger.EndorsementCheck

open ByteCodec

inductive SigningAlgorithm where
  | ed25519
  | mlDsa65
  deriving DecidableEq, Repr

def SigningAlgorithm.isPostQuantum : SigningAlgorithm → Bool
  | .ed25519 => false
  | .mlDsa65 => true

def SigningAlgorithm.display : SigningAlgorithm → String
  | .ed25519 => "Ed25519"
  | .mlDsa65 => "ML-DSA-65"

def enforcePqc (pqcRequired : Bool) (algorithm : SigningAlgorithm) (context : String) :
    Except String Unit :=
  if pqcRequired && !algorithm.isPostQuantum then
    .error ("PQC policy violation: " ++ context ++ " uses " ++ algorithm.display ++
      ", but REQUIRE_PQC_SIGNATURES is enabled")
  else .ok ()

def SigningAlgorithm.signatureLength : SigningAlgorithm → Nat
  | .ed25519 => 64
  | .mlDsa65 => 3309

def validateSignatureConsistency (algorithm : SigningAlgorithm) (signature : Bytes)
    (context : String) : Except String Unit :=
  if signature.length ≠ algorithm.signatureLength then
    .error ("signature/algorithm mismatch in " ++ context ++ ": declared " ++
      algorithm.display ++ " expects " ++ toString algorithm.signatureLength ++
      " bytes, got " ++ toString signature.length)
  else .ok ()

inductive EndorsementPolicy where
  | anyOf (orgs : List String)
  | allOf (orgs : List String)
  | nOutOf (n : Nat) (orgs : List String)
  | and (left right : EndorsementPolicy)
  | or (left right : EndorsementPolicy)
  | ouBased (ouIds : List String) (minCount : Nat)
  deriving DecidableEq

def EndorsementPolicy.evaluate : EndorsementPolicy → List String → Bool
  | .anyOf orgs, signerOrgs => orgs.any (signerOrgs.contains ·)
  | .allOf orgs, signerOrgs => orgs.all (signerOrgs.contains ·)
  | .nOutOf n orgs, signerOrgs => n ≤ (orgs.filter (signerOrgs.contains ·)).length
  | .and left right, signerOrgs => left.evaluate signerOrgs && right.evaluate signerOrgs
  | .or left right, signerOrgs => left.evaluate signerOrgs || right.evaluate signerOrgs
  | .ouBased ouIds minCount, signerOrgs =>
    minCount ≤ (ouIds.filter (signerOrgs.contains ·)).length

structure Endorsement where
  orgId : String
  signature : Bytes
  signatureAlgorithm : SigningAlgorithm
  payloadHash : Hash32
  deriving DecidableEq

structure Organization where
  mspId : String
  rootPublicKeys : List Hash32
  deriving DecidableEq

/-- `OrgRegistry::get_org` and `PolicyStore::get_policy` look a name up. -/
abbrev OrgRegistry := Std.ExtTreeMap String Organization
abbrev PolicyStore := Std.ExtTreeMap String EndorsementPolicy

/-- `CrlStore::read_crl`; `none` is a read error. -/
abbrev CrlStore := String → Option (List String)

structure Ed25519 where
  keyDecodes : Hash32 → Bool
  verify : Hash32 → Bytes → Bytes → Bool

inductive EndorsementError where
  | invalidPublicKey (reason : String)
  | invalidSignature (reason : String)
  | verificationFailed
  | orgNotFound (orgId : String)
  | signerRevoked (serial mspId : String)
  | policyNotSatisfied (got : Nat)
  deriving DecidableEq

def EndorsementError.display : EndorsementError → String
  | .invalidPublicKey reason => "invalid public key: " ++ reason
  | .invalidSignature reason => "invalid signature: " ++ reason
  | .verificationFailed => "signature verification failed"
  | .orgNotFound orgId => "organization not found: " ++ orgId
  | .signerRevoked serial mspId =>
    "signer key revoked (serial " ++ serial ++ ") in MSP " ++ mspId
  | .policyNotSatisfied got =>
    "policy not satisfied: got " ++ toString got ++ " matching orgs, need more"

/-- The library's texts for a bad key and a bad signature are not modelled. -/
def verifyEndorsement (ed25519 : Ed25519) (endorsement : Endorsement) (publicKey : Hash32) :
    Except EndorsementError Unit :=
  if !ed25519.keyDecodes publicKey then .error (.invalidPublicKey "")
  else if endorsement.signature.length ≠ 64 then .error (.invalidSignature "")
  else if ed25519.verify publicKey endorsement.payloadHash.toList endorsement.signature then
    .ok ()
  else .error .verificationFailed

def validOrgsStep (ed25519 : Ed25519) (pqcRequired : Bool) (registry : OrgRegistry)
    (crlStore : Option CrlStore) (validOrgs : List String) (endorsement : Endorsement) :
    Except EndorsementError (List String) :=
  match validateSignatureConsistency endorsement.signatureAlgorithm endorsement.signature
      "endorsement signature" with
  | .error reason => .error (.invalidSignature reason)
  | .ok () =>
    match enforcePqc pqcRequired endorsement.signatureAlgorithm "endorsement signature" with
    | .error reason => .error (.invalidSignature reason)
    | .ok () =>
      match registry[endorsement.orgId]? with
      | none => .error (.orgNotFound endorsement.orgId)
      | some org =>
        match org.rootPublicKeys.find? fun publicKey =>
            (verifyEndorsement ed25519 endorsement publicKey).isOk with
        | none => .ok validOrgs
        | some publicKey =>
          let serial := hexEncode publicKey.toList
          if (crlStore.map fun store =>
              ((store org.mspId).getD []).contains serial).getD false then
            .error (.signerRevoked serial org.mspId)
          else if validOrgs.contains endorsement.orgId then .ok validOrgs
          else .ok (validOrgs ++ [endorsement.orgId])

def validateEndorsements (ed25519 : Ed25519) (pqcRequired : Bool)
    (endorsements : List Endorsement) (policy : EndorsementPolicy) (registry : OrgRegistry)
    (crlStore : Option CrlStore) : Except EndorsementError Unit :=
  match endorsements.foldlM (validOrgsStep ed25519 pqcRequired registry crlStore) [] with
  | .error reason => .error reason
  | .ok validOrgs =>
    if policy.evaluate validOrgs then .ok () else .error (.policyNotSatisfied validOrgs.length)

end CeruleanLedger.EndorsementCheck
