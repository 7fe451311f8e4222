import CeruleanLedger.NativeLedger

/-!
What a transaction's signature covers. `calculate_hash` of `models.rs` joins
seven fields of variable length without separators, so the hashed text fixes
the fields only together with their lengths. Which pairs of lengths are safe
is stated exactly; the numerals of all-one digits show the rest to collide.
-/

namespace CeruleanLedger.TransactionSigning

open ByteCodec NativeLedger

def hashedBytes (tx : Transaction) : Bytes := utf8 tx.hashedText

def signTransaction (crypto : Crypto) (sign : Bytes → Bytes) (tx : Transaction) : Transaction :=
  { tx with signature := hexEncode (sign (utf8 (tx.calculateHash crypto))) }

def covered (tx : Transaction) :
    String × String × String × UInt64 × UInt64 × Option String × UInt64 :=
  (tx.id, tx.fromAddr, tx.toAddr, tx.amount, tx.fee, tx.data, tx.timestamp)

/-- The number of characters of each field as it is written. -/
structure Layout where
  id : Nat
  fromAddr : Nat
  toAddr : Nat
  amount : Nat
  fee : Nat
  data : Option Nat
  timestamp : Nat
  deriving DecidableEq

def layout (tx : Transaction) : Layout :=
  { id := tx.id.length, fromAddr := tx.fromAddr.length, toAddr := tx.toAddr.length
    amount := (toString tx.amount).length, fee := (toString tx.fee).length
    data := tx.data.map String.length, timestamp := (toString tx.timestamp).length }

/-- Absent data is written like empty data. -/
def Layout.total (shape : Layout) : Nat :=
  shape.id + shape.fromAddr + shape.toAddr + shape.amount + shape.fee + shape.data.getD 0 +
    shape.timestamp

theorem data_length (data : Option String) :
    (data.getD "").length = (data.map String.length).getD 0 := by
  cases data with
  | none => rfl
  | some text => rfl

theorem hashed_text_length (tx : Transaction) : tx.hashedText.length = (layout tx).total := by
  simp only [Transaction.hashedText, String.length_append, data_length, layout, Layout.total]

theorem data_of_text {left right : Option String} (text : left.getD "" = right.getD "")
    (size : left.map String.length = right.map String.length) : left = right := by
  cases left with
  | none =>
    cases right with
    | none => rfl
    | some text => cases size
  | some first =>
    cases right with
    | none => cases size
    | some second => exact congrArg some text

theorem covered_of_text {left right : Transaction} (shape : layout left = layout right)
    (same : left.hashedText = right.hashedText) : covered left = covered right := by
  simp only [layout, Layout.mk.injEq] at shape
  obtain ⟨_, _, toSize, amountSize, feeSize, dataSize, timeSize⟩ := shape
  have dataLength : (left.data.getD "").length = (right.data.getD "").length := by
    rw [data_length, data_length, dataSize]
  -- Peel the joined text from its end, one field of known length at a time.
  obtain ⟨same, timestamp⟩ := text_append_inj same (.inr timeSize)
  obtain ⟨same, data⟩ := text_append_inj same (.inr dataLength)
  obtain ⟨same, fee⟩ := text_append_inj same (.inr feeSize)
  obtain ⟨same, amount⟩ := text_append_inj same (.inr amountSize)
  obtain ⟨same, toAddr⟩ := text_append_inj same (.inr toSize)
  obtain ⟨id, fromAddr⟩ := text_append_inj same (.inr ‹_›)
  simp only [covered, Prod.mk.injEq]
  exact ⟨id, fromAddr, toAddr, decimal_injective amount, decimal_injective fee,
    data_of_text data dataSize, decimal_injective timestamp⟩

def ones (count : Nat) : String := String.ofList (List.replicate count '1')

@[simp] theorem ones_length (count : Nat) : (ones count).length = count := by
  simp [ones]

theorem ones_append (first second : Nat) : ones first ++ ones second = ones (first + second) := by
  rw [ones, ones, ones, ← String.ofList_append, List.replicate_append_replicate]

def repunit : Nat → Nat
  | 0 => 0
  | digits + 1 => 10 * repunit digits + 1

theorem repunit_text (value : UInt64) :
    toString (UInt64.ofNat (repunit (toString value).length)) = ones (toString value).length := by
  obtain ⟨some, few⟩ := decimal_length value
  generalize (toString value).length = digits at *
  interval_cases digits <;> decide

def filled (tx : Transaction) : Transaction :=
  { id := ones tx.id.length
    fromAddr := ones tx.fromAddr.length
    toAddr := ones tx.toAddr.length
    amount := UInt64.ofNat (repunit (toString tx.amount).length)
    fee := UInt64.ofNat (repunit (toString tx.fee).length)
    data := tx.data.map fun text => ones text.length
    timestamp := UInt64.ofNat (repunit (toString tx.timestamp).length)
    signature := tx.signature }

theorem filled_layout (tx : Transaction) : layout (filled tx) = layout tx := by
  simp only [layout, filled, ones_length, repunit_text, Option.map_map, Function.comp_def]

theorem filled_text (tx : Transaction) : (filled tx).hashedText = ones (layout tx).total := by
  have data : (filled tx).data.getD "" = ones ((layout tx).data.getD 0) := by
    cases written : tx.data with
    | none => simp [filled, layout, written, ones]
    | some text => simp [filled, layout, written]
  rw [Transaction.hashedText, data]
  simp only [filled, repunit_text, ones_append]
  rfl

/-- All transactions of two given layouts are hashed from different bytes as
soon as they differ, exactly when the layouts are equal or differ in total. -/
theorem distinct_bytes_iff (left right : Transaction) :
    (∀ first second : Transaction, layout first = layout left → layout second = layout right →
      covered first ≠ covered second → hashedBytes first ≠ hashedBytes second) ↔
    layout left = layout right ∨ (layout left).total ≠ (layout right).total := by
  constructor
  · intro distinct
    by_contra exposed
    rw [not_or, not_ne_iff] at exposed
    obtain ⟨apart, total⟩ := exposed
    apply distinct (filled left) (filled right) (filled_layout left) (filled_layout right)
    · intro same
      simp only [covered, Prod.mk.injEq] at same
      obtain ⟨id, fromAddr, toAddr, amount, fee, data, timestamp⟩ := same
      apply apart
      rw [← filled_layout left, ← filled_layout right]
      simp only [layout, id, fromAddr, toAddr, amount, fee, data, timestamp]
    · rw [hashedBytes, hashedBytes, filled_text, filled_text, total]
  · intro safe first second firstShape secondShape differ same
    have text := utf8_injective same
    rcases safe with shape | total
    · exact differ (covered_of_text (by rw [firstShape, secondShape, shape]) text)
    · have size := congrArg String.length text
      rw [hashed_text_length, hashed_text_length, firstShape, secondShape] at size
      exact total size

/-- Verification sees the hashed text and the signature, and nothing else. -/
theorem same_text_verifies {left right : Transaction} (same : left.hashedText = right.hashedText)
    (crypto : Crypto) (signature : String) (publicKey : Bytes) :
    { left with signature }.hasValidSignature crypto publicKey =
      { right with signature }.hasValidSignature crypto publicKey := by
  have message : { left with signature }.calculateHash crypto =
      { right with signature }.calculateHash crypto := congrArg crypto.hashText same
  simp only [Transaction.hasValidSignature, message]

def payment : Transaction := .newWithFee "tx" 0 "alice" "bob" 1 11 none

/-- The same digits, read as eleven units with a fee of one. -/
def inflated : Transaction := .newWithFee "tx" 0 "alice" "bob" 11 1 none

/-- The two are hashed from the same bytes, so the signature of the one
verifies on the other under every scheme and key. -/
theorem inflated_payment_verifies :
    covered payment ≠ covered inflated ∧ hashedBytes payment = hashedBytes inflated ∧
      ∀ (crypto : Crypto) (sign : Bytes → Bytes) (publicKey : Bytes),
        { inflated with signature := (signTransaction crypto sign payment).signature
          }.hasValidSignature crypto publicKey =
        (signTransaction crypto sign payment).hasValidSignature crypto publicKey := by
  have same : payment.hashedText = inflated.hashedText := by decide
  have differ : covered payment ≠ covered inflated := by
    intro fields
    exact absurd (congrArg (fun fields => fields.2.2.2.1) fields) (by decide)
  refine ⟨differ, congrArg utf8 same, ?_⟩
  intro crypto sign publicKey
  exact (same_text_verifies same crypto _ publicKey).symm

end CeruleanLedger.TransactionSigning
