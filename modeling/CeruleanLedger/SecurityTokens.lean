import CeruleanLedger.Governance
import CeruleanLedger.GuardedRun
import CeruleanLedger.InPlace
import CeruleanLedger.OrderedMap

/-!
The security token of `compliance/erc3643.rs` with the compliance check of its transfers. The
methods write to the token in place. Updates that the source leaves unchecked wrap in a release
build and stop the call in a build with overflow checks; both are modelled. The sum in the
ownership rule is not an update and wraps in both.
-/

namespace CeruleanLedger.SecurityTokens

open GuardedRun OrderedMap InPlace
open Governance.VoteStore (saturatingMul)

inductive ClaimType where
  | identityVerified
  | accreditedInvestor
  | countryVerified
  | amlCleared
  deriving DecidableEq

def ClaimType.debug : ClaimType → String
  | .identityVerified => "IdentityVerified"
  | .accreditedInvestor => "AccreditedInvestor"
  | .countryVerified => "CountryVerified"
  | .amlCleared => "AmlCleared"

structure IdentityClaim where
  claimType : ClaimType
  issuerDid : String
  issuedAt : UInt64
  expiresAt : Option UInt64
  country : Option String

def IdentityClaim.isExpired (claim : IdentityClaim) (now : UInt64) : Bool :=
  claim.expiresAt.any fun expires => now > expires

structure InvestorIdentity where
  did : String
  claims : List IdentityClaim
  frozen : Bool

structure IdentityRegistry where
  identities : Std.ExtTreeMap String InvestorIdentity

namespace IdentityRegistry

variable (registry : IdentityRegistry) (did : String)

def get : Option InvestorIdentity := registry.identities[did]?

def hasValidClaim (claimType : ClaimType) (now : UInt64) : Bool :=
  (registry.get did).any fun identity => identity.claims.any fun claim =>
    claim.claimType = claimType && !claim.isExpired now

def isFrozen : Bool := (registry.get did).any InvestorIdentity.frozen

end IdentityRegistry

inductive ComplianceRule where
  | requireClaim (claimType : ClaimType)
  | maxHolders (max : Nat)
  | allowedCountries (countries : List String)
  | minHoldingPeriod (seconds : UInt64)
  | maxOwnershipPercent (maxPct : UInt8)

inductive ComplianceResult where
  | allowed
  | denied (reason : String)
  deriving DecidableEq

structure ComplianceModule where
  rules : List ComplianceRule

structure Transfer where
  fromDid : String
  toDid : String
  amount : UInt64
  registry : IdentityRegistry
  now : UInt64
  currentHolders : Nat
  recipientBalance : UInt64
  totalSupply : UInt64

namespace Transfer

variable (transfer : Transfer)

/-- The first country claim counts, expired or not. -/
def checkCountry (countries : List String) (did : String) : Except String Unit :=
  match transfer.registry.get did with
  | none => .error "identity not found"
  | some identity =>
    match (identity.claims.find? fun claim => claim.claimType = .countryVerified).bind
        IdentityClaim.country with
    | none => .error "no country claim"
    | some country =>
      if countries.contains country then .ok ()
      else .error ("country " ++ country ++ " not in allowed list")

/-- The sum in `maxOwnershipPercent` wraps here in either build. With overflow
checks the source stops the call at it, before anything is written. -/
def checkRule : ComplianceRule → ComplianceResult
  | .requireClaim claimType =>
    if !transfer.registry.hasValidClaim transfer.fromDid claimType transfer.now then
      .denied ("sender missing claim: " ++ claimType.debug)
    else if !transfer.registry.hasValidClaim transfer.toDid claimType transfer.now then
      .denied ("recipient missing claim: " ++ claimType.debug)
    else .allowed
  | .maxHolders max =>
    if transfer.recipientBalance = 0 ∧ max ≤ transfer.currentHolders then
      .denied ("max holders (" ++ toString max ++ ") would be exceeded")
    else .allowed
  | .allowedCountries countries =>
    match transfer.checkCountry countries transfer.fromDid with
    | .error reason => .denied ("sender: " ++ reason)
    | .ok () =>
      match transfer.checkCountry countries transfer.toDid with
      | .error reason => .denied ("recipient: " ++ reason)
      | .ok () => .allowed
  | .maxOwnershipPercent maxPct =>
    let newBalance := transfer.recipientBalance + transfer.amount
    -- `checked_div`: without a supply there is no percentage.
    if transfer.totalSupply = 0 then .allowed
    else
      let pct := saturatingMul newBalance 100 / transfer.totalSupply
      if maxPct.toUInt64 < pct then
        .denied ("recipient would own " ++ toString pct ++ "%, max is " ++ toString maxPct ++
          "%")
      else .allowed
  | .minHoldingPeriod _ => .allowed

/-- The first rule that denies decides. -/
def checkRules : List ComplianceRule → ComplianceResult
  | [] => .allowed
  | rule :: rest =>
    match transfer.checkRule rule with
    | .denied reason => .denied reason
    | .allowed => checkRules rest

end Transfer

def ComplianceModule.checkTransfer (compliance : ComplianceModule) (transfer : Transfer) :
    ComplianceResult :=
  if transfer.registry.isFrozen transfer.fromDid then .denied "sender is frozen"
  else if transfer.registry.isFrozen transfer.toDid then .denied "recipient is frozen"
  else transfer.checkRules compliance.rules

structure SecurityToken where
  name : String
  symbol : String
  totalSupply : UInt64
  issuerDid : String
  balances : Std.ExtTreeMap String UInt64

namespace SecurityToken

def new (name symbol issuerDid : String) (initialSupply : UInt64) : SecurityToken :=
  ⟨name, symbol, initialSupply, issuerDid, (∅ : Std.ExtTreeMap String UInt64).insert issuerDid
    initialSupply⟩

variable (token : SecurityToken)

def balanceOf (did : String) : UInt64 := token.balances[did]?.getD 0

def holderCount : Nat :=
  ((token.balances.toList.map Prod.snd).filter fun balance => 0 < balance).length

end SecurityToken

section Methods

/-- An error of the method itself, or the stop at an arithmetic overflow. -/
inductive Failure where
  | err (message : String)
  | overflow
  deriving DecidableEq

inductive Build where
  | release
  | overflowChecked

abbrev Method (Value : Type) := EStateM Failure SecurityToken Value

variable (build : Build)

def subtract (left right : UInt64) : Method UInt64 :=
  match build with
  | .release => pure (left - right)
  | .overflowChecked => if right ≤ left then pure (left - right) else throw .overflow

def plus (left right : UInt64) : Method UInt64 :=
  match build with
  | .release => pure (left + right)
  | .overflowChecked =>
    if left.toNat + right.toNat < 2 ^ 64 then pure (left + right) else throw .overflow

def checkedAdd (left right : UInt64) (message : String) : Method UInt64 :=
  if left.toNat + right.toNat < 2 ^ 64 then pure (left + right) else throw (.err message)

def setBalance (did : String) (balance : UInt64) : Method Unit :=
  modify fun token => { token with balances := token.balances.insert did balance }

def setSupply (totalSupply : UInt64) : Method Unit :=
  modify fun token => { token with totalSupply }

def takeFrom (did : String) (amount : UInt64) : Method Unit := do
  let left ← subtract build ((← get).balanceOf did) amount
  setBalance did left

def giveTo (did : String) (amount : UInt64) : Method Unit := do
  let grown ← plus build ((← get).balanceOf did) amount
  setBalance did grown

def move (fromDid toDid : String) (amount : UInt64) : Method Unit := do
  takeFrom build fromDid amount
  giveTo build toDid amount

def transfer (fromDid toDid : String) (amount : UInt64) (compliance : ComplianceModule)
    (registry : IdentityRegistry) (now : UInt64) : Method ComplianceResult := do
  let token ← get
  if token.balanceOf fromDid < amount then return .denied "insufficient balance"
  else
    match compliance.checkTransfer ⟨fromDid, toDid, amount, registry, now, token.holderCount,
        token.balanceOf toDid, token.totalSupply⟩ with
    | .denied reason => return .denied reason
    | .allowed =>
      move build fromDid toDid amount
      return .allowed

def forceTransfer (caller fromDid toDid : String) (amount : UInt64) : Method Unit := do
  let token ← get
  if caller ≠ token.issuerDid then throw (.err "only issuer can force transfer")
  else if token.balanceOf fromDid < amount then throw (.err "insufficient balance")
  else move build fromDid toDid amount

def mint (caller toDid : String) (amount : UInt64) : Method Unit := do
  let token ← get
  if caller ≠ token.issuerDid then throw (.err "only issuer can mint")
  else
    let supply ← checkedAdd token.totalSupply amount
      "overflow: total supply would exceed u64::MAX"
    setSupply supply
    let balance ← checkedAdd ((← get).balanceOf toDid) amount
      "overflow: balance would exceed u64::MAX"
    setBalance toDid balance

def burn (holder : String) (amount : UInt64) : Method Unit := do
  if (← get).balanceOf holder < amount then throw (.err "insufficient balance")
  else
    takeFrom build holder amount
    let supply ← subtract build (← get).totalSupply amount
    setSupply supply

inductive Call where
  | transfer (fromDid toDid : String) (amount : UInt64) (compliance : ComplianceModule)
      (registry : IdentityRegistry) (now : UInt64)
  | forceTransfer (caller fromDid toDid : String) (amount : UInt64)
  | mint (caller toDid : String) (amount : UInt64)
  | burn (holder : String) (amount : UInt64)

inductive Answer where
  | done
  | denied (reason : String)
  | failed (failure : Failure)
  deriving DecidableEq

def methodOf : Call → Method ComplianceResult
  | .transfer fromDid toDid amount compliance registry now =>
    transfer build fromDid toDid amount compliance registry now
  | .forceTransfer caller fromDid toDid amount => do
      forceTransfer build caller fromDid toDid amount
      return .allowed
  | .mint caller toDid amount => do
      mint caller toDid amount
      return .allowed
  | .burn holder amount => do
      burn build holder amount
      return .allowed

def perform (token : SecurityToken) (call : Call) : SecurityToken × Answer :=
  match (methodOf build call).run token with
  | .ok .allowed after => (after, .done)
  | .ok (.denied reason) after => (after, .denied reason)
  | .error failure after => (after, .failed failure)

def performed (token : SecurityToken) (call : Call) : SecurityToken :=
  (perform build token call).1

end Methods

def holdings (token : SecurityToken) : ℕ :=
  total (fun _ balance => balance.toNat) token.balances

def Exact (token : SecurityToken) : Prop := holdings token = token.totalSupply.toNat

section Sums

variable {token : SecurityToken} {did : String} {amount : UInt64}

theorem holdings_insert (token : SecurityToken) (did : String) (balance : UInt64) :
    holdings { token with balances := token.balances.insert did balance } +
      (token.balanceOf did).toNat = holdings token + balance.toNat :=
  total_replace token.balances UInt64.toNat rfl did balance

theorem balance_le_holdings (token : SecurityToken) (did : String) :
    (token.balanceOf did).toNat ≤ holdings token := by
  rw [holdings, total_erase _ _ did, SecurityToken.balanceOf,
    ← weightAt_getD token.balances UInt64.toNat rfl]
  exact Nat.le_add_right _ _

end Sums

section Updates

variable {build : Build} {token : SecurityToken} {did : String} {amount : UInt64}

theorem subtract_exact {left right : UInt64} (covered : right ≤ left) :
    subtract build left right = pure (left - right) := by
  cases build with
  | release => rfl
  | overflowChecked => exact if_pos covered

theorem plus_exact {left right : UInt64} (fits : left.toNat + right.toNat < 2 ^ 64) :
    plus build left right = pure (left + right) := by
  cases build with
  | release => rfl
  | overflowChecked => exact if_pos fits

theorem take_run (build : Build) (covered : amount ≤ token.balanceOf did) :
    (takeFrom build did amount).run token = .ok ()
      { token with balances := token.balances.insert did (token.balanceOf did - amount) } := by
  change (subtract build (token.balanceOf did) amount >>= setBalance did).run token = _
  rw [subtract_exact covered]
  rfl

/-- What is taken from one holder fits for the other, also where they are one. -/
theorem move_run (exact : Exact token) {fromDid : String} (toDid : String)
    (covered : amount ≤ token.balanceOf fromDid) :
    ∃ after, Exact after ∧
      ∀ build, (move build fromDid toDid amount).run token = .ok () after := by
  let taken : SecurityToken :=
    { token with balances := token.balances.insert fromDid (token.balanceOf fromDid - amount) }
  have less : holdings taken + amount.toNat = holdings token := by
    have inserted := holdings_insert token fromDid (token.balanceOf fromDid - amount)
    have enough := UInt64.le_iff_toNat_le.mp covered
    rw [UInt64.toNat_sub_of_le _ _ covered] at inserted
    change holdings taken + _ = _ at inserted
    omega
  have fits : (taken.balanceOf toDid).toNat + amount.toNat < 2 ^ 64 := by
    have part := balance_le_holdings taken toDid
    have bounded := token.totalSupply.toNat_lt
    rw [← exact, ← less] at bounded
    omega
  refine ⟨{ taken with balances := taken.balances.insert toDid (taken.balanceOf toDid + amount) },
    ?_, fun build => ?_⟩
  · have inserted := holdings_insert taken toDid (taken.balanceOf toDid + amount)
    rw [UInt64.toNat_add, Nat.mod_eq_of_lt fits] at inserted
    change holdings _ = token.totalSupply.toNat
    rw [← exact, ← less]
    omega
  · rw [move, run_bind (take_run build covered)]
    change (plus build _ amount >>= setBalance _).run _ = _
    rw [plus_exact fits]
    rfl

theorem mint_run (exact : Exact token) {caller : String} (toDid : String)
    (issued : caller = token.issuerDid)
    (fits : token.totalSupply.toNat + amount.toNat < 2 ^ 64) :
    ∃ after, Exact after ∧ (mint caller toDid amount).run token = .ok () after := by
  let raised : SecurityToken := { token with totalSupply := token.totalSupply + amount }
  -- The balance is no more than the supply, so its sum fits where the supply's does.
  have below : (token.balanceOf toDid).toNat + amount.toNat < 2 ^ 64 := by
    have part := balance_le_holdings token toDid
    rw [exact] at part
    omega
  have supply : (checkedAdd token.totalSupply amount
      "overflow: total supply would exceed u64::MAX").run token =
        .ok (token.totalSupply + amount) token := by
    rw [checkedAdd, if_pos fits]
    rfl
  have balance : (checkedAdd (token.balanceOf toDid) amount
      "overflow: balance would exceed u64::MAX").run raised =
        .ok (token.balanceOf toDid + amount) raised := by
    rw [checkedAdd, if_pos below]
    rfl
  refine ⟨{ raised with
    balances := token.balances.insert toDid (token.balanceOf toDid + amount) }, ?_, ?_⟩
  · have inserted := holdings_insert token toDid (token.balanceOf toDid + amount)
    rw [UInt64.toNat_add, Nat.mod_eq_of_lt below] at inserted
    change total _ (token.balances.insert _ _) + _ = _ at inserted
    change total _ (token.balances.insert _ _) = (token.totalSupply + amount).toNat
    rw [UInt64.toNat_add, Nat.mod_eq_of_lt fits, ← exact]
    omega
  · change EStateM.run (ite _ _ _) token = _
    rw [if_neg (not_not.mpr issued), run_bind supply]
    change (checkedAdd (token.balanceOf toDid) amount _ >>= setBalance toDid).run raised = _
    rw [run_bind balance]
    rfl

theorem burn_run (exact : Exact token) {holder : String}
    (covered : amount ≤ token.balanceOf holder) :
    ∃ after, Exact after ∧ ∀ build, (burn build holder amount).run token = .ok () after := by
  have enough := UInt64.le_iff_toNat_le.mp covered
  have within : amount ≤ token.totalSupply := by
    have part := balance_le_holdings token holder
    rw [exact] at part
    exact UInt64.le_iff_toNat_le.mpr (enough.trans part)
  let taken : SecurityToken :=
    { token with balances := token.balances.insert holder (token.balanceOf holder - amount) }
  refine ⟨{ taken with totalSupply := token.totalSupply - amount }, ?_, fun build => ?_⟩
  · have inserted := holdings_insert token holder (token.balanceOf holder - amount)
    rw [UInt64.toNat_sub_of_le _ _ covered] at inserted
    change holdings taken = (token.totalSupply - amount).toNat
    change holdings taken + _ = _ at inserted
    rw [UInt64.toNat_sub_of_le _ _ within, ← exact]
    omega
  · change EStateM.run (ite _ _ _) token = _
    rw [if_neg (UInt64.not_lt.mpr covered), run_bind (take_run build covered)]
    change (subtract build token.totalSupply amount >>= setSupply).run taken = _
    rw [subtract_exact within]
    rfl

end Updates

section Step

variable {token : SecurityToken}

/-- A call is refused and changes nothing, or is done and keeps the sums; in both
cases whether overflow is checked makes no difference. -/
inductive Ended (token : SecurityToken) (call : Call) : Prop where
  | refused (answer : Answer) (notDone : answer ≠ .done) (sound : answer ≠ .failed .overflow)
      (same : ∀ build, perform build token call = (token, answer))
  | done (after : SecurityToken) (exact : Exact after)
      (same : ∀ build, perform build token call = (after, .done))

theorem transfer_ended (exact : Exact token) (fromDid toDid : String) (amount : UInt64)
    (compliance : ComplianceModule) (registry : IdentityRegistry) (now : UInt64) :
    Ended token (.transfer fromDid toDid amount compliance registry now) := by
  by_cases short : token.balanceOf fromDid < amount
  · refine .refused (.denied "insufficient balance") nofun nofun fun build => ?_
    have ran : (transfer build fromDid toDid amount compliance registry now).run token =
        .ok (.denied "insufficient balance") token := by
      change EStateM.run (ite _ _ _) token = _
      rw [if_pos short]
      rfl
    rw [perform, methodOf, ran]
  · cases checked : compliance.checkTransfer ⟨fromDid, toDid, amount, registry, now,
      token.holderCount, token.balanceOf toDid, token.totalSupply⟩ with
    | denied reason =>
      refine .refused (.denied reason) nofun nofun fun build => ?_
      have ran : (transfer build fromDid toDid amount compliance registry now).run token =
          .ok (.denied reason) token := by
        change EStateM.run (ite _ _ _) token = _
        rw [if_neg short, checked]
        rfl
      rw [perform, methodOf, ran]
    | allowed =>
      obtain ⟨after, kept, moved⟩ := move_run exact toDid (UInt64.not_lt.mp short)
      refine .done after kept fun build => ?_
      have ran : (transfer build fromDid toDid amount compliance registry now).run token =
          .ok .allowed after := by
        change EStateM.run (ite _ _ _) token = _
        rw [if_neg short, checked]
        dsimp only
        rw [run_bind (moved build)]
        rfl
      rw [perform, methodOf, ran]

theorem failed_ended {call : Call} {method : Build → Method Unit} (message : String)
    (runs : ∀ build, methodOf build call = method build >>= fun _ => pure .allowed)
    (failed : ∀ build, (method build).run token = .error (.err message) token) :
    Ended token call := by
  refine .refused (.failed (.err message)) nofun nofun fun build => ?_
  rw [perform, runs build, run_bind_error (failed build)]

theorem finished_ended {call : Call} {method : Build → Method Unit} {after : SecurityToken}
    (exact : Exact after)
    (runs : ∀ build, methodOf build call = method build >>= fun _ => pure .allowed)
    (finished : ∀ build, (method build).run token = .ok () after) : Ended token call := by
  refine .done after exact fun build => ?_
  rw [perform, runs build, run_bind (finished build)]
  rfl

theorem force_transfer_ended (exact : Exact token) (caller fromDid toDid : String)
    (amount : UInt64) : Ended token (.forceTransfer caller fromDid toDid amount) := by
  by_cases issuer : caller = token.issuerDid
  · by_cases short : token.balanceOf fromDid < amount
    · refine failed_ended "insufficient balance" (fun _ => rfl) fun build => ?_
      change EStateM.run (ite _ _ _) token = _
      rw [if_neg (not_not.mpr issuer), if_pos short]
      rfl
    · obtain ⟨after, kept, moved⟩ := move_run exact toDid (UInt64.not_lt.mp short)
      refine finished_ended kept (fun _ => rfl) fun build => ?_
      change EStateM.run (ite _ _ _) token = _
      rw [if_neg (not_not.mpr issuer), if_neg short]
      exact moved build
  · refine failed_ended "only issuer can force transfer" (fun _ => rfl) fun build => ?_
    change EStateM.run (ite _ _ _) token = _
    rw [if_pos issuer]
    rfl

theorem mint_ended (exact : Exact token) (caller toDid : String) (amount : UInt64) :
    Ended token (.mint caller toDid amount) := by
  by_cases issuer : caller = token.issuerDid
  · by_cases fits : token.totalSupply.toNat + amount.toNat < 2 ^ 64
    · obtain ⟨after, kept, minted⟩ := mint_run exact toDid issuer fits
      exact finished_ended kept (fun _ => rfl) fun _ => minted
    · refine failed_ended "overflow: total supply would exceed u64::MAX" (fun _ => rfl) fun _ => ?_
      change EStateM.run (ite _ _ _) token = _
      rw [if_neg (not_not.mpr issuer)]
      apply run_bind_error
      rw [checkedAdd, if_neg fits]
      rfl
  · refine failed_ended "only issuer can mint" (fun _ => rfl) fun _ => ?_
    change EStateM.run (ite _ _ _) token = _
    rw [if_pos issuer]
    rfl

theorem burn_ended (exact : Exact token) (holder : String) (amount : UInt64) :
    Ended token (.burn holder amount) := by
  by_cases short : token.balanceOf holder < amount
  · refine failed_ended "insufficient balance" (fun _ => rfl) fun build => ?_
    change EStateM.run (ite _ _ _) token = _
    rw [if_pos short]
    rfl
  · obtain ⟨after, kept, burned⟩ := burn_run exact (UInt64.not_lt.mp short)
    exact finished_ended kept (fun _ => rfl) burned

theorem call_ended (exact : Exact token) (call : Call) : Ended token call := by
  cases call with
  | transfer fromDid toDid amount compliance registry now =>
    exact transfer_ended exact fromDid toDid amount compliance registry now
  | forceTransfer caller fromDid toDid amount =>
    exact force_transfer_ended exact caller fromDid toDid amount
  | mint caller toDid amount => exact mint_ended exact caller toDid amount
  | burn holder amount => exact burn_ended exact holder amount

theorem performed_exact (token : SecurityToken) (call : Call) (exact : Exact token) :
    Exact (performed .release token call) := by
  rw [performed]
  cases call_ended exact call with
  | refused answer notDone sound same => rwa [same]
  | done after kept same => rwa [same]

end Step

theorem new_exact (name symbol issuerDid : String) (initialSupply : UInt64) :
    Exact (.new name symbol issuerDid initialSupply) := by
  change total _ _ = initialSupply.toNat
  rw [SecurityToken.new, total_insert_fresh _ _ _ rfl, total_empty, Nat.zero_add]

/-- In every token reached from a new one the balances add up to the supply; the
next call does the same with and without overflow checks, so none of its updates
overflows; and unless it is done, it changes no balance and not the supply. -/
theorem security_supply_exact (name symbol issuerDid : String) (initialSupply : UInt64)
    (calls : List Call) :
    let token := calls.foldl (performed .release) (.new name symbol issuerDid initialSupply)
    holdings token = token.totalSupply.toNat ∧
      ∀ call,
        perform .overflowChecked token call = perform .release token call ∧
        (perform .overflowChecked token call).2 ≠ .failed .overflow ∧
        ((perform .release token call).2 ≠ .done →
          (perform .release token call).1.balances = token.balances ∧
            (perform .release token call).1.totalSupply = token.totalSupply) := by
  intro token
  have exact : Exact token := run_keeps Exact _ calls
    (new_exact name symbol issuerDid initialSupply) performed_exact
  refine ⟨exact, fun call => ?_⟩
  cases call_ended exact call with
  | refused answer notDone sound same =>
    rw [same, same]
    exact ⟨rfl, sound, fun _ => ⟨rfl, rfl⟩⟩
  | done after kept same =>
    rw [same, same]
    exact ⟨rfl, nofun, fun undone => absurd rfl undone⟩

end CeruleanLedger.SecurityTokens
