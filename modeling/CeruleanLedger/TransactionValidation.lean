import CeruleanLedger.BlockStore
import CeruleanLedger.NativeLedger
import CeruleanLedger.OrderedMap
import CeruleanLedger.Staking

/-!
The validation gate of `transaction_validation.rs` with the seen-transaction
functions of the block store it is attached to: the defaults of the trait, which
`MemoryStore` inherits, and the rows `seen_tx:..` of RocksDB, a map from ids to
times here. SHA-256 is a parameter. The clock readings of a call are arguments,
and so are the faults of the database. Times are `u64`, and `now - timestamp`
wraps as in a release build.
-/

namespace CeruleanLedger.TransactionValidation

open BlockStore OrderedMap
open NativeLedger (saturatingSub saturating_sub_toNat)
open Staking (saturatingAdd saturating_add_toNat)

section Model

structure Validatable where
  id : String
  sender : String
  recipient : String
  amount : UInt64
  fee : UInt64
  timestamp : UInt64
  data : Option String
  deriving DecidableEq

structure ValidationConfig where
  /-- `(min_fee as f64 * fee_multiplier) as u64`, all that is read of the two. -/
  adjustedMinFee : UInt64
  minAmount : UInt64
  maxAmount : UInt64
  minAddressLength : Nat
  maxAddressLength : Nat
  enableSequenceTracking : Bool
  maxPendingPerSender : Nat
  maxFutureDriftSecs : UInt64
  maxPastAgeSecs : UInt64
  deriving DecidableEq

def ValidationConfig.default : ValidationConfig :=
  ⟨0, 0, UInt64.ofNat (2 ^ 64 - 1), 5, 256, true, 100, 30, 600⟩

structure SenderState where
  lastConfirmedSequence : UInt64
  pendingTransactions : List UInt64
  deriving DecidableEq

namespace SenderState

def new : SenderState := ⟨0, []⟩

def isValidSequence (state : SenderState) (sequence : UInt64) : Bool :=
  sequence > state.lastConfirmedSequence || state.pendingTransactions.contains sequence

def addPending (state : SenderState) (sequence : UInt64) : Except String SenderState :=
  if 100 ≤ state.pendingTransactions.length then
    .error ("Sender has too many pending transactions: " ++
      toString state.pendingTransactions.length)
  else .ok { state with pendingTransactions := state.pendingTransactions ++ [sequence] }

def confirmSequence (state : SenderState) (sequence : UInt64) : SenderState :=
  ⟨sequence, state.pendingTransactions.filter (· ≠ sequence)⟩

end SenderState

structure ValidationResult where
  isValid : Bool
  errors : List String
  warnings : List String
  deriving DecidableEq

def ValidationResult.valid : ValidationResult := ⟨true, [], []⟩

def ValidationResult.invalid (error : String) : ValidationResult := ⟨false, [error], []⟩

inductive SeenStore where
  | memory
  | rocksDb (rows : Std.ExtTreeMap String UInt64)

namespace SeenStore

def markTxSeen (fault : Option String) (txId : String) (timestamp : UInt64) :
    SeenStore → Except StorageError SeenStore
  | .memory => .ok .memory
  | .rocksDb rows =>
    match fault with
    | some reason => .error (.rocksDbError reason)
    | none => .ok (.rocksDb (rows.insert txId timestamp))

def loadSeenTxs (fault : Option String) : SeenStore → Except StorageError (List (String × UInt64))
  | .memory => .ok []
  | .rocksDb rows =>
    match fault with
    | some reason => .error (.rocksDbError reason)
    | none => .ok rows.toList

/-- The loop of `cleanup_seen_txs`; the first delete that fails ends it. -/
def dropOld (now maxAgeSecs : UInt64) (fails : String → Bool) :
    List (String × UInt64) → Std.ExtTreeMap String UInt64 → Std.ExtTreeMap String UInt64
  | [], rows => rows
  | (txId, timestamp) :: rest, rows =>
    if saturatingSub now timestamp > maxAgeSecs then
      if fails txId then rows else dropOld now maxAgeSecs fails rest (rows.erase txId)
    else dropOld now maxAgeSecs fails rest rows

def cleanupSeenTxs (now maxAgeSecs : UInt64) (fault : Option String) (fails : String → Bool) :
    SeenStore → SeenStore
  | .memory => .memory
  | .rocksDb rows =>
    match loadSeenTxs fault (.rocksDb rows) with
    | .error _ => .rocksDb rows
    | .ok entries => .rocksDb (dropOld now maxAgeSecs fails entries rows)

end SeenStore

structure TransactionValidator where
  config : ValidationConfig
  senderStates : Std.ExtTreeMap String SenderState
  seenTransactionIds : Std.ExtTreeMap String UInt64
  seenContentHashes : Std.ExtTreeMap String UInt64
  store : Option SeenStore

namespace TransactionValidator

def new (config : ValidationConfig) : TransactionValidator := ⟨config, ∅, ∅, ∅, none⟩

def withStore (validator : TransactionValidator) (store : SeenStore) (fault : Option String) :
    TransactionValidator :=
  match store.loadSeenTxs fault with
  | .error _ => { validator with store := some store }
  | .ok entries =>
    { validator with
      seenTransactionIds := validator.seenTransactionIds.insertMany entries
      store := some store }

end TransactionValidator

variable (config : ValidationConfig) (tx : Validatable)

def validateFormat : Except String Unit :=
  if tx.id.isEmpty then .error "Transaction ID cannot be empty"
  else if tx.id.utf8ByteSize > 256 then .error "Transaction ID too long (max 256 chars)"
  else if tx.sender = tx.recipient then .error "Sender and receiver cannot be the same"
  else .ok ()

def validateTimestamp (now : UInt64) : Except String Unit :=
  if tx.timestamp > saturatingAdd now config.maxFutureDriftSecs then
    .error ("Transaction timestamp " ++ toString tx.timestamp ++
      " is too far in the future (max drift " ++ toString config.maxFutureDriftSecs ++ "s)")
  else if saturatingSub now tx.timestamp > config.maxPastAgeSecs then
    .error ("Transaction timestamp " ++ toString tx.timestamp ++ " is too old (max age " ++
      toString config.maxPastAgeSecs ++ "s)")
  else .ok ()

def validateAmounts : Except String Unit :=
  if 2 ^ 64 ≤ tx.amount.toNat + tx.fee.toNat then .error "Amount + fee overflow"
  else if tx.amount < config.minAmount then
    .error ("Amount " ++ toString tx.amount ++ " is below minimum " ++ toString config.minAmount)
  else if tx.amount > config.maxAmount then
    .error ("Amount " ++ toString tx.amount ++ " exceeds maximum " ++ toString config.maxAmount)
  else if tx.amount + tx.fee = 0 then
    .error "Transaction has zero total value (amount + fee)"
  else .ok ()

def validateFees : Except String Unit :=
  if tx.fee < config.adjustedMinFee then
    .error ("Fee " ++ toString tx.fee ++ " is below minimum " ++ toString config.adjustedMinFee)
  else .ok ()

def validateLength (whose address : String) : Except String Unit :=
  if address.utf8ByteSize < config.minAddressLength then
    .error (whose ++ " address too short: " ++ toString address.utf8ByteSize ++ " < " ++
      toString config.minAddressLength)
  else if address.utf8ByteSize > config.maxAddressLength then
    .error (whose ++ " address too long: " ++ toString address.utf8ByteSize ++ " > " ++
      toString config.maxAddressLength)
  else .ok ()

def firstError : List (Except String Unit) → Except String Unit
  | [] => .ok ()
  | .error reason :: _ => .error reason
  | .ok () :: rest => firstError rest

def validateAddresses : Except String Unit :=
  firstError [
    if tx.sender ≠ "0" ∧ tx.sender ≠ "genesis" then validateLength config "Sender" tx.sender
      else .ok (),
    validateLength config "Recipient" tx.recipient]

def validateSequence (senderStates : Std.ExtTreeMap String SenderState) : Except String Unit :=
  let senderState := senderStates[tx.sender]?.getD .new
  if senderState.isValidSequence tx.timestamp then .ok ()
  else
    .error ("Invalid sequence number: " ++ toString tx.timestamp ++ " (expected > " ++
      toString senderState.lastConfirmedSequence ++ ")")

def checkDoubleSpend (senderStates : Std.ExtTreeMap String SenderState) : Except String Unit :=
  match senderStates[tx.sender]? with
  | none => .ok ()
  | some senderState =>
    if config.maxPendingPerSender ≤ senderState.pendingTransactions.length then
      .error ("Sender has too many pending transactions: " ++
        toString senderState.pendingTransactions.length)
    else .ok ()

/-- The text that `content_hash` digests: everything but the id and the timestamp. -/
def content : String :=
  tx.sender ++ ":" ++ tx.recipient ++ ":" ++ toString tx.amount ++ ":" ++ toString tx.fee ++
    ":" ++ tx.data.getD ""

namespace TransactionValidator

variable (digest : String → String) (validator : TransactionValidator)

def contentHash : String := digest (content tx)

def checks (now : UInt64) : List (Except String Unit) :=
  [ validateFormat tx,
    if validator.seenTransactionIds.contains tx.id then
      .error "Transaction already seen (duplicate ID)"
    else .ok (),
    if validator.seenContentHashes.contains (contentHash tx digest) then
      .error "Transaction with identical content already seen (replay)"
    else .ok (),
    validateTimestamp validator.config tx now,
    validateAmounts validator.config tx,
    validateFees validator.config tx,
    validateAddresses validator.config tx,
    if validator.config.enableSequenceTracking then validateSequence tx validator.senderStates
    else .ok (),
    checkDoubleSpend validator.config tx validator.senderStates ]

/-- The state of the sender after an accepted transaction: what `add_pending`
refuses is not counted. -/
def pendingState : SenderState :=
  let senderState := validator.senderStates[tx.sender]?.getD .new
  if validator.config.enableSequenceTracking then
    match senderState.addPending tx.timestamp with
    | .ok added => added
    | .error _ => senderState
  else senderState

/-- An accepted transaction is recorded in both memories and marked in the
store; an error of the store is ignored. -/
def record (now : UInt64) (fault : Option String) : TransactionValidator :=
  { validator with
    seenTransactionIds := validator.seenTransactionIds.insert tx.id now
    seenContentHashes := validator.seenContentHashes.insert (contentHash tx digest) now
    store := validator.store.map fun store =>
      match store.markTxSeen fault tx.id now with
      | .ok marked => marked
      | .error _ => store
    senderStates := validator.senderStates.insert tx.sender (pendingState tx validator) }

/-- `validate`, which reads the clock for the timestamp check and once more for
the records. -/
def validate (checkedAt recordedAt : UInt64) (fault : Option String) :
    TransactionValidator × ValidationResult :=
  match firstError (checks tx digest validator checkedAt) with
  | .error reason => (validator, .invalid reason)
  | .ok () => (record tx digest validator recordedAt fault, .valid)

def confirmTransaction : TransactionValidator :=
  { validator with
    senderStates := validator.senderStates.modify tx.sender
      (SenderState.confirmSequence · tx.timestamp) }

def cleanupOldRecords (now storeNow maxAgeSeconds : UInt64) (fault : Option String)
    (fails : String → Bool) : TransactionValidator :=
  { validator with
    seenTransactionIds := validator.seenTransactionIds.filter fun _ timestamp =>
      now - timestamp < maxAgeSeconds
    seenContentHashes := validator.seenContentHashes.filter fun _ timestamp =>
      now - timestamp < maxAgeSeconds
    store := validator.store.map (SeenStore.cleanupSeenTxs storeNow maxAgeSeconds fault fails) }

end TransactionValidator

end Model

theorem first_error_ok {row : List (Except String Unit)} :
    firstError row = .ok () ↔ ∀ check ∈ row, check = .ok () := by
  induction row with
  | nil => simp [firstError]
  | cons check rest ih =>
    cases check with
    | error reason => simp [firstError]
    | ok _ => simp [firstError, ih]

variable {config : ValidationConfig} {tx : Validatable}

theorem validate_timestamp_ok {now : UInt64} (valid : validateTimestamp config tx now = .ok ()) :
    tx.timestamp.toNat ≤ now.toNat + config.maxFutureDriftSecs.toNat ∧
      now.toNat ≤ tx.timestamp.toNat + config.maxPastAgeSecs.toNat := by
  unfold validateTimestamp at valid
  split at valid
  · cases valid
  · next near =>
    split at valid
    · cases valid
    · next recent =>
      rw [gt_iff_lt, UInt64.not_lt, UInt64.le_iff_toNat_le, saturating_add_toNat] at near
      rw [gt_iff_lt, UInt64.not_lt, UInt64.le_iff_toNat_le, saturating_sub_toNat] at recent
      omega

open TransactionValidator

variable {digest : String → String} {validator : TransactionValidator} {now : UInt64}

theorem checks_ok (passed : firstError (checks tx digest validator now) = .ok ()) :
    validator.seenTransactionIds[tx.id]? = none ∧
      validator.seenContentHashes[contentHash tx digest]? = none ∧
      validateTimestamp validator.config tx now = .ok () := by
  rw [first_error_ok, checks] at passed
  simp only [List.forall_mem_cons] at passed
  obtain ⟨-, newId, newContent, timely, -⟩ := passed
  refine ⟨?_, ?_, timely⟩
  · simpa using newId
  · simpa using newContent

theorem drop_old_get (now maxAgeSecs : UInt64) (fails : String → Bool)
    {rows : Std.ExtTreeMap String UInt64} {entries : List (String × UInt64)} {key : String}
    {timestamp : UInt64} (only : ∀ other, (key, other) ∈ entries → other = timestamp)
    (found : rows[key]? = some timestamp) :
    (SeenStore.dropOld now maxAgeSecs fails entries rows)[key]? = some timestamp ∨
      saturatingSub now timestamp > maxAgeSecs := by
  induction entries generalizing rows with
  | nil => exact Or.inl found
  | cons entry rest ih =>
    obtain ⟨txId, recorded⟩ := entry
    have later := fun other member => only other (List.mem_cons_of_mem _ member)
    simp only [SeenStore.dropOld]
    split
    · next old =>
      by_cases same : txId = key
      · subst same
        rw [only recorded List.mem_cons_self] at old
        exact Or.inr old
      · split
        · exact Or.inl found
        · apply ih later
          rw [get_erase, if_neg same, found]
    · exact ih later found

end CeruleanLedger.TransactionValidation
