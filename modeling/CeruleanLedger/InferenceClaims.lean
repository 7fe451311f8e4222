import CeruleanLedger.AliasRegistry
import CeruleanLedger.ByteCodec
import CeruleanLedger.KeyPrefixes

/-!
Inference claims and challenges in `storage/adapters.rs` and `storage/memory.rs`. RocksDB keeps
both in one column family, and the listing parses every row as a claim that it does not pass
over. JSON is a codec that gives a claim back except perhaps for the `f64` of its tolerance, and
does not take a challenge for a claim; every database operation is taken to succeed. An `f64`
stands as its bits.
-/

namespace CeruleanLedger.InferenceClaims

open AliasRegistry (ReadError)
open ByteCodec (startsWith)
open IterationOrder KeyPrefixes OrderedMap

inductive ClaimStatus where
  | pending
  | finalized
  | disputed
  | slashed
  | rejected
  deriving DecidableEq

inductive OutputTolerance where
  | exact
  | numeric (threshold : UInt64)
  | cosine (minSimilarity : UInt64)
  deriving DecidableEq

structure InferenceClaim where
  id : String
  oracleId : String
  modelHash : String
  modelVersion : String
  inputHash : String
  inputUri : Option String
  output : String
  outputHash : String
  timestamp : UInt64
  signature : String
  status : ClaimStatus
  tolerance : OutputTolerance
  disputeDeadline : UInt64
  finalizedAt : Option UInt64
  deriving DecidableEq

structure InferenceChallenge where
  id : String
  claimId : String
  challengerId : String
  challengerOutput : String
  challengerOutputHash : String
  bond : UInt64
  timestamp : UInt64
  signature : String
  succeeded : Option Bool
  deriving DecidableEq

structure Codec (Value : Type) where
  claimJson : InferenceClaim → Value
  challengeJson : InferenceChallenge → Value
  text : String → Value
  parseClaim : Value → Except String InferenceClaim
  /-- A threshold that is not a number does not come back at all. -/
  claim_back : ∀ claim read, parseClaim (claimJson claim) = .ok read →
    read = { claim with tolerance := read.tolerance }
  /-- A challenge has no `oracle_id`. -/
  challenge_refused : ∀ challenge, ∃ reason, parseClaim (challengeJson challenge) = .error reason

abbrev Rows (Value : Type) := Std.ExtTreeMap String Value

abbrev Claims := Std.ExtTreeMap String InferenceClaim

def reserved : List String := ["oracle:", "model:", "challenge:", "claim_challenge:"]

def Plain (id : String) : Prop := ∀ front ∈ reserved, startsWith id front = false
  deriving Decidable

def oracleKey (claim : InferenceClaim) : String :=
  "oracle:" ++ (claim.oracleId ++ ":" ++ claim.id)

def modelKey (claim : InferenceClaim) : String :=
  "model:" ++ (claim.modelHash ++ ":" ++ claim.id)

def challengeKey (challenge : InferenceChallenge) : String := "challenge:" ++ challenge.id

def claimChallengeKey (challenge : InferenceChallenge) : String :=
  "claim_challenge:" ++ (challenge.claimId ++ ":" ++ challenge.id)

structure Filters where
  status : Option ClaimStatus
  oracleId : Option String
  modelHash : Option String

def Filters.accepts (filters : Filters) (claim : InferenceClaim) : Bool :=
  filters.status.all (claim.status = ·) && filters.oracleId.all (claim.oracleId = ·) &&
    filters.modelHash.all (claim.modelHash = ·)

variable {Value : Type} {rows : Rows Value} {claims : Claims} {challenged : Prop}

section Stores

variable (codec : Codec Value)

def writeInferenceClaim (rows : Rows Value) (claim : InferenceClaim) : Rows Value :=
  ((rows.insert claim.id (codec.claimJson claim)).insert (oracleKey claim)
    (codec.text claim.id)).insert (modelKey claim) (codec.text claim.id)

def writeInferenceChallenge (rows : Rows Value) (challenge : InferenceChallenge) : Rows Value :=
  (rows.insert (challengeKey challenge) (codec.challengeJson challenge)).insert
    (claimChallengeKey challenge) (codec.text challenge.id)

def isSkipped (key : String) : Bool := startsWith key "oracle:" || startsWith key "model:"

def parseRow (row : String × Value) : Except ReadError InferenceClaim :=
  match codec.parseClaim row.2 with
  | .error reason => .error (.deserializationError reason)
  | .ok claim => .ok claim

def listInferenceClaims (rows : Rows Value) (filters : Filters) :
    Except ReadError (List InferenceClaim) :=
  match (rows.toList.filter fun row => !isSkipped row.1).mapM (parseRow codec) with
  | .error reason => .error reason
  | .ok claims => .ok (claims.filter filters.accepts)

def memoryListInferenceClaims (order : Arrangement InferenceClaim) (claims : Claims)
    (filters : Filters) : List InferenceClaim :=
  (((order.arrange (claims.toList.map Prod.snd)).filter
    fun claim => filters.status.all (claim.status = ·)).filter
    fun claim => filters.oracleId.all (claim.oracleId = ·)).filter
    fun claim => filters.modelHash.all (claim.modelHash = ·)

inductive WriteCall where
  | writeClaim (claim : InferenceClaim)
  | writeChallenge (challenge : InferenceChallenge)

def apply (rows : Rows Value) : WriteCall → Rows Value
  | .writeClaim claim => writeInferenceClaim codec rows claim
  | .writeChallenge challenge => writeInferenceChallenge codec rows challenge

/-- The claims of `MemoryStore` after a call; challenges have a map of their own. -/
def memoryApply (claims : Claims) : WriteCall → Claims
  | .writeClaim claim => claims.insert claim.id claim
  | .writeChallenge _ => claims

/-- A claim's id is not one of the other keys. -/
def WriteCall.IsPlain : WriteCall → Prop
  | .writeClaim claim => Plain claim.id
  | .writeChallenge _ => True

instance : ∀ call : WriteCall, Decidable call.IsPlain
  | .writeClaim claim => inferInstanceAs (Decidable (Plain claim.id))
  | .writeChallenge _ => inferInstanceAs (Decidable True)

def WriteCall.IsChallenge : WriteCall → Prop
  | .writeClaim _ => False
  | .writeChallenge _ => True

/-- Every listing succeeds with the claims that `MemoryStore` lists, in any order of
its map. -/
def Exact (rows : Rows Value) (claims : Claims) : Prop :=
  ∀ filters, ∃ found, listInferenceClaims codec rows filters = .ok found ∧
    ∀ order, found.Perm (memoryListInferenceClaims order claims filters)

def Intact (claim : InferenceClaim) : Prop :=
  codec.parseClaim (codec.claimJson claim) = .ok claim

structure Formed (rows : Rows Value) (claims : Claims) (challenged : Prop) : Prop where
  claim_rows : ∀ id, Plain id → rows[id]? = claims[id]?.map codec.claimJson
  ids : ∀ id claim, claims[id]? = some claim → Plain id ∧ claim.id = id
  other_rows : ∀ key value, rows[key]? = some value →
    Plain key ∨ isSkipped key = true ∨ challenged
  challenge_rows : challenged → ∃ challenge,
    rows[challengeKey challenge]? = some (codec.challengeJson challenge)

end Stores

theorem startsWith_append (front rest : String) : startsWith (front ++ rest) front = true := by
  rw [startsWith, List.isPrefixOf_iff_prefix, String.toList_append]
  exact List.prefix_append _ _

theorem starts_apart {key front : String} (starts : startsWith key front = true)
    (other : String) (apart : startsWith front other = false)
    (apart' : startsWith other front = false) : startsWith key other = false := by
  rw [Bool.eq_false_iff] at apart apart' ⊢
  intro starts'
  rw [startsWith, List.isPrefixOf_iff_prefix] at starts starts'
  rcases List.prefix_or_prefix_of_prefix starts starts' with longer | shorter
  · exact apart' (List.isPrefixOf_iff_prefix.mpr longer)
  · exact apart (List.isPrefixOf_iff_prefix.mpr shorter)

theorem prefixed_ne {front other : String} (apart : startsWith front other = false)
    (apart' : startsWith other front = false) (rest rest' : String) :
    front ++ rest ≠ other ++ rest' := by
  intro same
  have starts := starts_apart (startsWith_append front rest) other apart apart'
  rw [same, startsWith_append] at starts
  cases starts

theorem plain_ne {id front : String} (plain : Plain id) (listed : front ∈ reserved)
    (rest : String) : front ++ rest ≠ id := by
  intro same
  have starts := startsWith_append front rest
  rw [same, plain front listed] at starts
  cases starts

theorem plain_not_skipped {id : String} (plain : Plain id) : isSkipped id = false := by
  rw [isSkipped, plain "oracle:" (by decide), plain "model:" (by decide)]
  rfl

theorem challenge_not_skipped (challenge : InferenceChallenge) :
    isSkipped (challengeKey challenge) = false := by
  have starts := startsWith_append "challenge:" challenge.id
  rw [isSkipped, challengeKey, starts_apart starts "oracle:" (by decide) (by decide),
    starts_apart starts "model:" (by decide) (by decide)]
  rfl

section Writes

variable {codec : Codec Value}
theorem skipped_oracle (claim : InferenceClaim) : isSkipped (oracleKey claim) = true := by
  rw [isSkipped, oracleKey, startsWith_append, Bool.true_or]

theorem skipped_model (claim : InferenceClaim) : isSkipped (modelKey claim) = true := by
  rw [isSkipped, modelKey, startsWith_append, Bool.or_true]

theorem write_claim_row (claim : InferenceClaim) {key : String} (shown : isSkipped key = false) :
    (writeInferenceClaim codec rows claim)[key]? =
      if claim.id = key then some (codec.claimJson claim) else rows[key]? := by
  have oracle : oracleKey claim ≠ key := by
    rintro rfl
    rw [skipped_oracle] at shown
    cases shown
  have model : modelKey claim ≠ key := by
    rintro rfl
    rw [skipped_model] at shown
    cases shown
  rw [writeInferenceClaim, get_insert, if_neg model, get_insert, if_neg oracle, get_insert]

theorem formed_claim (formed : Formed codec rows claims challenged) {claim : InferenceClaim}
    (plain : Plain claim.id) :
    Formed codec (writeInferenceClaim codec rows claim) (claims.insert claim.id claim)
      challenged where
  claim_rows := by
    intro id listed
    rw [write_claim_row claim (plain_not_skipped listed), get_insert, formed.claim_rows id listed]
    split
    · rfl
    · rfl
  ids := by
    intro id found stored
    rw [get_insert] at stored
    split at stored
    · next same =>
      cases stored
      exact ⟨same ▸ plain, same⟩
    · exact formed.ids id found stored
  other_rows := by
    intro key value stored
    cases shown : isSkipped key with
    | true => exact Or.inr (Or.inl rfl)
    | false =>
      rw [write_claim_row claim shown] at stored
      split at stored
      · next same => exact Or.inl (same ▸ plain)
      · rw [← shown]
        exact formed.other_rows key value stored
  challenge_rows := by
    intro disputed
    obtain ⟨challenge, stored⟩ := formed.challenge_rows disputed
    refine ⟨challenge, ?_⟩
    have apart : claim.id ≠ challengeKey challenge :=
      (plain_ne plain (by decide) challenge.id).symm
    rw [write_claim_row claim (challenge_not_skipped challenge), if_neg apart, stored]

theorem formed_challenge (formed : Formed codec rows claims challenged)
    (challenge : InferenceChallenge) :
    Formed codec (writeInferenceChallenge codec rows challenge) claims True where
  claim_rows := by
    intro id plain
    have apart : challengeKey challenge ≠ id := plain_ne plain (by decide) _
    have apart' : claimChallengeKey challenge ≠ id := plain_ne plain (by decide) _
    rw [writeInferenceChallenge, get_insert, if_neg apart', get_insert, if_neg apart,
      formed.claim_rows id plain]
  ids := formed.ids
  other_rows := fun _ _ _ => Or.inr (Or.inr trivial)
  challenge_rows := by
    intro _
    refine ⟨challenge, ?_⟩
    have apart : claimChallengeKey challenge ≠ challengeKey challenge :=
      prefixed_ne (by decide) (by decide) _ _
    rw [writeInferenceChallenge, get_insert, if_neg apart, get_insert, if_pos rfl]

theorem formed_iff {other : Prop} (same : challenged ↔ other)
    (formed : Formed codec rows claims challenged) : Formed codec rows claims other :=
  propext same ▸ formed

/-- After any calls the rows hold the claims of `MemoryStore`, and a challenge if
one was written. -/
theorem formed_run (calls : List WriteCall) (plain : ∀ call ∈ calls, call.IsPlain) :
    Formed codec (calls.foldl (apply codec) ∅) (calls.foldl memoryApply ∅)
      (∃ call ∈ calls, call.IsChallenge) := by
  have along : ∀ (rows : Rows Value) (claims : Claims) (challenged : Prop),
      Formed codec rows claims challenged →
      Formed codec (calls.foldl (apply codec) rows) (calls.foldl memoryApply claims)
        (challenged ∨ ∃ call ∈ calls, call.IsChallenge) := by
    induction calls with
    | nil =>
      intro rows claims challenged formed
      exact formed_iff (by simp) formed
    | cons call rest ih =>
      intro rows claims challenged formed
      obtain ⟨here, later⟩ := List.forall_mem_cons.mp plain
      cases call with
      | writeClaim claim =>
        have next := ih later _ _ _ (formed_claim formed here)
        exact formed_iff (by simp [WriteCall.IsChallenge]) next
      | writeChallenge challenge =>
        have next := ih later _ _ _ (formed_challenge formed challenge)
        exact formed_iff (by simp [WriteCall.IsChallenge]) next
  have empty : Formed codec (∅ : Rows Value) ∅ False :=
    { claim_rows := by simp, ids := by simp, other_rows := by simp, challenge_rows := by simp }
  exact formed_iff (by simp) (along ∅ ∅ False empty)

end Writes

variable {codec : Codec Value}
theorem memory_list_eq (order : Arrangement InferenceClaim) (filters : Filters) :
    memoryListInferenceClaims order claims filters =
      (order.arrange (claims.toList.map Prod.snd)).filter filters.accepts := by
  rw [memoryListInferenceClaims, List.filter_filter, List.filter_filter]
  apply List.filter_congr
  intro claim _
  rw [Filters.accepts]
  ac_rfl

theorem shown_iff (row : String × Value) :
    (row ∈ rows.toList.filter fun row => !isSkipped row.1) ↔
      rows[row.1]? = some row.2 ∧ isSkipped row.1 = false := by
  rw [List.mem_filter, Std.ExtTreeMap.mem_toList_iff_getElem?_eq_some, Bool.not_eq_true']

theorem stored_shown (formed : Formed codec rows claims challenged) {id : String}
    {claim : InferenceClaim} (stored : claims[id]? = some claim) :
    (id, codec.claimJson claim) ∈ rows.toList.filter fun row => !isSkipped row.1 := by
  have plain := (formed.ids id claim stored).1
  rw [shown_iff, formed.claim_rows id plain, stored]
  exact ⟨rfl, plain_not_skipped plain⟩

theorem listing_parses {filters : Filters} {found : List InferenceClaim}
    (listed : listInferenceClaims codec rows filters = .ok found) {row : String × Value}
    (shown : row ∈ rows.toList.filter fun row => !isSkipped row.1) :
    ∃ read, codec.parseClaim row.2 = .ok read ∧ (filters.accepts read = true → read ∈ found) := by
  unfold listInferenceClaims at listed
  split at listed
  · cases listed
  · next claims collected =>
    cases listed
    obtain ⟨read, inside, parsed⟩ := collect_each collected shown
    unfold parseRow at parsed
    split at parsed
    · cases parsed
    · next same =>
      cases parsed
      exact ⟨read, same, fun accepted => List.mem_filter.mpr ⟨inside, accepted⟩⟩

theorem listing_eq (formed : Formed codec rows claims challenged) (quiet : ¬ challenged)
    (intact : ∀ (id : String) (claim : InferenceClaim), claims[id]? = some claim →
      Intact codec claim) (filters : Filters) :
    listInferenceClaims codec rows filters =
      .ok ((((rows.toList.filter fun row => !isSkipped row.1).map Prod.fst).filterMap
        fun id => claims[id]?).filter filters.accepts) := by
  have collected : (rows.toList.filter fun row => !isSkipped row.1).mapM (parseRow codec) =
      .ok (((rows.toList.filter fun row => !isSkipped row.1).map Prod.fst).filterMap
        fun id => claims[id]?) := by
    rw [List.filterMap_map]
    apply collect_ok
    rintro ⟨key, value⟩ member
    obtain ⟨stored, shown⟩ := (shown_iff _).mp member
    have plain : Plain key := by
      rcases formed.other_rows key value stored with plain | skipped | disputed
      · exact plain
      · rw [shown] at skipped
        cases skipped
      · exact absurd disputed quiet
    rw [formed.claim_rows key plain, Option.map_eq_some_iff] at stored
    obtain ⟨claim, kept, rfl⟩ := stored
    have back : codec.parseClaim (codec.claimJson claim) = .ok claim := intact key claim kept
    refine ⟨claim, kept, ?_⟩
    simp only [parseRow, back]
  rw [listInferenceClaims, collected]

theorem listed_perm (formed : Formed codec rows claims challenged) :
    (((rows.toList.filter fun row => !isSkipped row.1).map Prod.fst).filterMap
      fun id => claims[id]?).Perm (claims.toList.map Prod.snd) := by
  have keyed := fun id claim stored => (formed.ids id claim stored).2
  have distinct : ((rows.toList.filter fun row => !isSkipped row.1).map Prod.fst).Nodup :=
    (keys_nodup rows).sublist (List.filter_sublist.map _)
  apply (List.perm_ext_iff_of_nodup (distinct.filterMap ?_) (values_nodup keyed)).mpr
  · intro claim
    rw [mem_values_iff keyed, List.mem_filterMap]
    constructor
    · rintro ⟨id, _, stored⟩
      rwa [keyed id claim stored]
    · intro stored
      exact ⟨claim.id, List.mem_map.mpr ⟨_, stored_shown formed stored, rfl⟩, stored⟩
  · intro id other claim stored stored'
    rw [← keyed id claim stored, keyed other claim stored']

/-- Listings are exact if and only if no challenge was written and every stored
claim is read back as it was. -/
theorem listing_exact_iff (formed : Formed codec rows claims challenged) :
    Exact codec rows claims ↔
      ¬ challenged ∧ ∀ (id : String) (claim : InferenceClaim), claims[id]? = some claim →
        Intact codec claim := by
  constructor
  · intro exact
    obtain ⟨found, listed, same⟩ := exact ⟨none, none, none⟩
    constructor
    · intro disputed
      obtain ⟨challenge, stored⟩ := formed.challenge_rows disputed
      obtain ⟨reason, refused⟩ := codec.challenge_refused challenge
      have shown := (shown_iff (_, _)).mpr ⟨stored, challenge_not_skipped challenge⟩
      obtain ⟨read, parsed, _⟩ := listing_parses listed shown
      rw [refused] at parsed
      cases parsed
    · intro id claim stored
      obtain ⟨read, parsed, inside⟩ := listing_parses listed (stored_shown formed stored)
      have keyed := fun id claim stored => (formed.ids id claim stored).2
      have kept := (same .asStored).mem_iff.mp (inside rfl)
      rw [memory_list_eq, List.mem_filter, Arrangement.mem_arrange, mem_values_iff keyed] at kept
      -- What was read has the id of the claim, so it is the claim itself.
      have named : read.id = id := by
        rw [codec.claim_back claim read parsed]
        exact keyed id claim stored
      rw [named, stored] at kept
      cases kept.1
      exact parsed
  · rintro ⟨quiet, intact⟩ filters
    refine ⟨_, listing_eq formed quiet intact filters, ?_⟩
    intro order
    rw [memory_list_eq]
    exact ((listed_perm formed).trans (order.perm _).symm).filter _

/-- After any calls the listings are exact if and only if none of them wrote a
challenge and the stored claims are read back as they were. -/
theorem claims_listed_iff (codec : Codec Value) (calls : List WriteCall)
    (plain : ∀ call ∈ calls, call.IsPlain) :
    Exact codec (calls.foldl (apply codec) ∅) (calls.foldl memoryApply ∅) ↔
      (∀ call ∈ calls, ¬ call.IsChallenge) ∧
        ∀ (id : String) (claim : InferenceClaim),
          (calls.foldl memoryApply ∅)[id]? = some claim → Intact codec claim := by
  rw [listing_exact_iff (formed_run calls plain)]
  simp only [not_exists, not_and]

def plainCodec : Codec (String ⊕ InferenceClaim ⊕ InferenceChallenge) where
  claimJson claim := .inr (.inl claim)
  challengeJson challenge := .inr (.inr challenge)
  text := .inl
  parseClaim
    | .inr (.inl claim) => .ok claim
    | .inr (.inr _) => .error "missing field oracle_id"
    | .inl _ => .error "expected value"
  claim_back := by
    intro claim read parsed
    cases parsed
    rfl
  challenge_refused _ := ⟨_, rfl⟩

def sampleClaim (id : String) : InferenceClaim :=
  ⟨id, "oracle-1", "model-1", "v1", "input", none, "42", "output", 0, "signature", .pending,
    .exact, 100, none⟩

def sampleChallenge (id claimId : String) : InferenceChallenge :=
  ⟨id, claimId, "challenger", "43", "other", 10, 1, "signature", none⟩

def twoClaims : List WriteCall := [.writeClaim (sampleClaim "c1"), .writeClaim (sampleClaim "c2")]

theorem two_claims_listed :
    Exact plainCodec (twoClaims.foldl (apply plainCodec) ∅) (twoClaims.foldl memoryApply ∅) :=
  (claims_listed_iff plainCodec twoClaims (by decide)).mpr
    ⟨by simp [twoClaims, WriteCall.IsChallenge], fun _ _ _ => rfl⟩

/-- With one challenge, a listing fails that returned a claim before. -/
theorem challenge_hides_claims :
    listInferenceClaims plainCodec
        ([WriteCall.writeClaim (sampleClaim "c1")].foldl (apply plainCodec) ∅)
        ⟨none, none, none⟩ = .ok [sampleClaim "c1"] ∧
      listInferenceClaims plainCodec
        ([WriteCall.writeClaim (sampleClaim "c1"),
          .writeChallenge (sampleChallenge "x1" "c1")].foldl (apply plainCodec) ∅)
        ⟨none, none, none⟩ = .error (.deserializationError "missing field oracle_id") := by
  decide +kernel

end CeruleanLedger.InferenceClaims
