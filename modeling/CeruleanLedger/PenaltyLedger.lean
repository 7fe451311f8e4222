import CeruleanLedger.ByteCodec
import CeruleanLedger.GuardedRun
import CeruleanLedger.OrderedMap

/-!
Penalties for equivocation: `PenaltyManager` of `consensus/slashing.rs`. Heights and reputations
wrap as in a release build; the slashing amounts of a policy are read by nothing here and are
left out.
-/

namespace CeruleanLedger.PenaltyLedger

open ByteCodec GuardedRun OrderedMap

inductive PenaltyReason where
  | equivocation
  | invalidPqcSignatureFlood
  | protocolViolation
  deriving DecidableEq

inductive PenaltyStatus where
  | active
  | expired
  | permanent
  deriving DecidableEq

structure PenaltyRecord where
  validatorId : String
  reason : PenaltyReason
  proofHash : Option Hash32
  startHeight : UInt64
  untilHeight : Option UInt64
  reputationDelta : Int64
  status : PenaltyStatus
  deriving DecidableEq

def PenaltyRecord.statusAt (record : PenaltyRecord) (currentHeight : UInt64) : PenaltyStatus :=
  match record.untilHeight with
  | none => .permanent
  | some limit => if currentHeight ≥ limit then .expired else .active

/-- Active or permanent, the test of both callers of `status_at`. -/
def PenaltyRecord.penalizesAt (record : PenaltyRecord) (currentHeight : UInt64) : Bool :=
  record.statusAt currentHeight == .active || record.statusAt currentHeight == .permanent

structure PenaltyPolicy where
  equivocationPenaltyDurationBlocks : UInt64
  equivocationIsPermanent : Bool
  reputationPenalty : Int64
  escalateOnRepeat : Bool

def PenaltyPolicy.default : PenaltyPolicy := ⟨10000, false, -100, true⟩

structure PenaltyManager where
  records : Std.ExtTreeMap String (List PenaltyRecord)
  reputations : Std.ExtTreeMap String Int64
  processedProofs : List Hash32

namespace PenaltyManager

def new : PenaltyManager := ⟨∅, ∅, []⟩

variable (manager : PenaltyManager)

def getRecords (validatorId : String) : List PenaltyRecord :=
  (manager.records[validatorId]?).getD []

def reputation (validatorId : String) : Int64 := (manager.reputations[validatorId]?).getD 0

def isActivePenalty (validatorId : String) (currentHeight : UInt64) : Bool :=
  (manager.getRecords validatorId).any (·.penalizesAt currentHeight)

/-- The record of a new proof; a repeated offence may become permanent. -/
def equivocationRecord (validatorId : String) (proofHash : Hash32) (detectionHeight : UInt64)
    (policy : PenaltyPolicy) : PenaltyRecord :=
  let hasActive := (manager.getRecords validatorId).any (·.penalizesAt detectionHeight)
  let permanent := policy.equivocationIsPermanent || (policy.escalateOnRepeat && hasActive)
  { validatorId
    reason := .equivocation
    proofHash := some proofHash
    startHeight := detectionHeight
    untilHeight :=
      if permanent then none
      else some (detectionHeight + policy.equivocationPenaltyDurationBlocks)
    reputationDelta := policy.reputationPenalty
    status := if permanent then .permanent else .active }

def book (validatorId : String) (proofHash : Hash32) (record : PenaltyRecord) :
    PenaltyManager where
  records := manager.records.insert validatorId (manager.getRecords validatorId ++ [record])
  reputations := manager.reputations.insert validatorId
    (manager.reputation validatorId + record.reputationDelta)
  processedProofs := manager.processedProofs ++ [proofHash]

def penalizeEquivocation (validatorId : String) (proofHash : Hash32) (detectionHeight : UInt64)
    (policy : PenaltyPolicy) : PenaltyManager × Option PenaltyRecord :=
  if manager.processedProofs.contains proofHash then (manager, none)
  else
    let record := manager.equivocationRecord validatorId proofHash detectionHeight policy
    (manager.book validatorId proofHash record, some record)

end PenaltyManager

open PenaltyManager

structure PenaltyCall where
  validatorId : String
  proofHash : Hash32
  detectionHeight : UInt64
  policy : PenaltyPolicy

def penalize (manager : PenaltyManager) (call : PenaltyCall) : PenaltyManager :=
  (manager.penalizeEquivocation call.validatorId call.proofHash call.detectionHeight
    call.policy).1

def penalizeAll (calls : List PenaltyCall) : PenaltyManager := calls.foldl penalize .new

section Booking

variable (manager : PenaltyManager) (validatorId : String) (proofHash : Hash32)
  (record : PenaltyRecord)

theorem records_book (other : String) :
    (manager.book validatorId proofHash record).getRecords other =
      if validatorId = other then manager.getRecords other ++ [record]
      else manager.getRecords other := by
  simp only [book, getRecords, get_insert]
  split
  · rename_i same
    subst same
    rfl
  · rfl

theorem reputation_book (other : String) :
    (manager.book validatorId proofHash record).reputation other =
      if validatorId = other then manager.reputation other + record.reputationDelta
      else manager.reputation other := by
  simp only [book, reputation, get_insert]
  split
  · rename_i same
    subst same
    rfl
  · rfl

theorem total_book (measure : List PenaltyRecord → Nat) (empty : measure [] = 0)
    (adds : ∀ records record, measure (records ++ [record]) = measure records + measure [record]) :
    total (fun _ => measure) (manager.book validatorId proofHash record).records =
      total (fun _ => measure) manager.records + measure [record] := by
  have replaced := total_replace manager.records measure empty validatorId
    (manager.getRecords validatorId ++ [record])
  have inserted : (manager.book validatorId proofHash record).records =
      manager.records.insert validatorId (manager.getRecords validatorId ++ [record]) := rfl
  rw [← getRecords, adds] at replaced
  rw [inserted]
  omega

end Booking

theorem penalize_cases (manager : PenaltyManager) (call : PenaltyCall) :
    (call.proofHash ∈ manager.processedProofs ∧ penalize manager call = manager) ∨
      (call.proofHash ∉ manager.processedProofs ∧
        penalize manager call = manager.book call.validatorId call.proofHash
          (manager.equivocationRecord call.validatorId call.proofHash call.detectionHeight
            call.policy)) := by
  unfold penalize penalizeEquivocation
  by_cases known : call.proofHash ∈ manager.processedProofs
  · left
    simp [known]
  · right
    simp [known]

def recordsWith (manager : PenaltyManager) (proofHash : Hash32) : Nat :=
  total (fun _ records => records.countP fun record => record.proofHash == some proofHash)
    manager.records

def recordCount (manager : PenaltyManager) : Nat :=
  total (fun _ records => records.length) manager.records

def deltaSum (manager : PenaltyManager) (validatorId : String) : Int :=
  ((manager.getRecords validatorId).map fun record => record.reputationDelta.toInt).sum

structure Balanced (manager : PenaltyManager) : Prop where
  once : ∀ proofHash, recordsWith manager proofHash =
    if proofHash ∈ manager.processedProofs then 1 else 0
  distinct : manager.processedProofs.Nodup
  counted : recordCount manager = manager.processedProofs.length
  scored : ∀ validatorId, (manager.reputation validatorId).toInt =
    (deltaSum manager validatorId).bmod (2 ^ 64)
  owned : ∀ validatorId, ∀ record ∈ manager.getRecords validatorId,
    record.validatorId = validatorId ∧ (record.status = .permanent ↔ record.untilHeight = none)

theorem balanced_new : Balanced .new where
  once := by
    intro proofHash
    simp [recordsWith, new]
  distinct := List.nodup_nil
  counted := by simp [recordCount, new]
  scored := by
    intro validatorId
    simp [reputation, deltaSum, getRecords, new]
  owned := by
    intro validatorId record member
    simp [getRecords, new] at member

theorem balanced_step (manager : PenaltyManager) (call : PenaltyCall)
    (balanced : Balanced manager) : Balanced (penalize manager call) := by
  rcases penalize_cases manager call with ⟨_, same⟩ | ⟨fresh, booked⟩
  · rw [same]
    exact balanced
  · obtain ⟨record, made, proof, owner, label⟩ : ∃ record, manager.equivocationRecord
        call.validatorId call.proofHash call.detectionHeight call.policy = record ∧
        record.proofHash = some call.proofHash ∧ record.validatorId = call.validatorId ∧
        (record.status = .permanent ↔ record.untilHeight = none) := by
      refine ⟨_, rfl, rfl, rfl, ?_⟩
      dsimp only [equivocationRecord]
      split <;> simp
    rw [booked, made]
    clear made
    constructor
    · intro proofHash
      rw [recordsWith, total_book _ _ _ _ _ rfl (fun _ _ => List.countP_append), ← recordsWith,
        balanced.once]
      by_cases same : proofHash = call.proofHash
      · subst same
        simp [book, fresh, proof]
      · simp [book, proof, same, Ne.symm same]
    · rw [book, List.nodup_append]
      refine ⟨balanced.distinct, List.nodup_singleton _, ?_⟩
      intro earlier member last same equal
      rw [List.mem_singleton] at same
      exact fresh (same ▸ equal ▸ member)
    · rw [recordCount, total_book _ _ _ _ _ rfl (fun _ _ => List.length_append), ← recordCount,
        balanced.counted]
      simp [book]
    · intro validatorId
      rw [reputation_book, deltaSum, records_book]
      split
      · rw [Int64.toInt_add, balanced.scored, List.map_append, List.sum_append,
          Int.bmod_add_bmod]
        simp [deltaSum]
      · exact balanced.scored validatorId
    · intro validatorId held member
      rw [records_book] at member
      split at member
      · rename_i same
        rcases List.mem_append.mp member with earlier | last
        · exact balanced.owned validatorId held earlier
        · rw [List.mem_singleton] at last
          subst last
          exact ⟨owner.trans same, label⟩
      · exact balanced.owned validatorId held member

theorem penalize_all_balanced (calls : List PenaltyCall) : Balanced (penalizeAll calls) :=
  run_keeps Balanced .new calls balanced_new balanced_step

theorem processed_step (manager : PenaltyManager) (call : PenaltyCall) (proofHash : Hash32) :
    proofHash ∈ (penalize manager call).processedProofs ↔
      proofHash ∈ manager.processedProofs ∨ proofHash = call.proofHash := by
  rcases penalize_cases manager call with ⟨known, same⟩ | ⟨_, booked⟩
  · rw [same]
    constructor
    · exact Or.inl
    · rintro (old | equal)
      · exact old
      · exact equal ▸ known
  · rw [booked, book, List.mem_append, List.mem_singleton]

theorem processed_iff (calls : List PenaltyCall) (start : PenaltyManager) (proofHash : Hash32) :
    proofHash ∈ (calls.foldl penalize start).processedProofs ↔
      proofHash ∈ start.processedProofs ∨ proofHash ∈ calls.map PenaltyCall.proofHash := by
  induction calls generalizing start with
  | nil => simp
  | cons call rest ih =>
    rw [List.foldl_cons, ih, processed_step, List.map_cons, List.mem_cons, or_assoc]

theorem records_kept (calls : List PenaltyCall) (start : PenaltyManager) (validatorId : String)
    {record : PenaltyRecord} (member : record ∈ start.getRecords validatorId) :
    record ∈ (calls.foldl penalize start).getRecords validatorId := by
  apply run_keeps (fun manager : PenaltyManager => record ∈ manager.getRecords validatorId)
    start calls member
  intro manager call held
  rcases penalize_cases manager call with ⟨_, same⟩ | ⟨_, booked⟩
  · rw [same]
    exact held
  · rw [booked, records_book]
    split
    · exact List.mem_append_left _ held
    · exact held

/-- Any sequence of calls, over any validators, proofs, heights and policies,
keeps the ledger balanced. Its processed proofs are those of the calls; a
reputation that fits its type is the sum on record; and a permanent record
penalizes at every height from then on. -/
theorem penalty_ledger_balanced (calls : List PenaltyCall) :
    Balanced (penalizeAll calls) ∧
      (∀ proofHash, proofHash ∈ (penalizeAll calls).processedProofs ↔
        proofHash ∈ calls.map PenaltyCall.proofHash) ∧
      (∀ validatorId, -2 ^ 63 ≤ deltaSum (penalizeAll calls) validatorId →
        deltaSum (penalizeAll calls) validatorId < 2 ^ 63 →
        ((penalizeAll calls).reputation validatorId).toInt =
          deltaSum (penalizeAll calls) validatorId) ∧
      ∀ earlier later, calls = earlier ++ later → ∀ validatorId,
        ∀ record ∈ (penalizeAll earlier).getRecords validatorId, record.status = .permanent →
        ∀ height, (penalizeAll calls).isActivePenalty validatorId height = true := by
  have balanced := penalize_all_balanced calls
  refine ⟨balanced, ?_, ?_, ?_⟩
  · intro proofHash
    rw [penalizeAll, processed_iff]
    simp [new]
  · intro validatorId lower upper
    rw [balanced.scored, Int.bmod_eq_of_le (by omega) (by omega)]
  · intro earlier later split validatorId record member permanent height
    have kept : record ∈ (penalizeAll calls).getRecords validatorId := by
      rw [split, penalizeAll, List.foldl_append]
      exact records_kept later _ validatorId member
    have unlimited := (balanced.owned validatorId record kept).2.mp permanent
    apply List.any_eq_true.mpr
    refine ⟨record, kept, ?_⟩
    simp [PenaltyRecord.penalizesAt, PenaltyRecord.statusAt, unlimited]

/-- With the default policy, a second proof during the first penalty makes the
penalty permanent; after it, a second penalty would have ended. -/
example :
    (penalizeAll [⟨"v", Vector.replicate 32 1, 5, .default⟩,
      ⟨"v", Vector.replicate 32 2, 10000, .default⟩]).isActivePenalty "v" 30000 = true ∧
    (penalizeAll [⟨"v", Vector.replicate 32 1, 5, .default⟩,
      ⟨"v", Vector.replicate 32 2, 10005, .default⟩]).isActivePenalty "v" 30000 = false := by
  decide +kernel

end CeruleanLedger.PenaltyLedger
