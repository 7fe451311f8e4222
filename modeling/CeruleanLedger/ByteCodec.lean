import Mathlib

/-!
Byte strings as the hashing and signing code builds them: fixed-width
little-endian integers and lower-case hexadecimal text. Both encodings are
injective, so equal byte strings come from equal fields. Nothing here
depends on which record the bytes were taken from.
-/

namespace CeruleanLedger.ByteCodec

abbrev Bytes := List UInt8

abbrev Hash32 := Vector UInt8 32

def zeroHash : Hash32 := Vector.replicate 32 0

structure Codec (Value Form : Type) where
  encode : Value → Form
  decode : Form → Option Value
  roundTrip : ∀ value, decode (encode value) = some value

def Codec.plain {Value : Type} : Codec Value Value := ⟨id, some, fun _ => rfl⟩

def toLeBytes (value : UInt64) : Bytes :=
  (List.range 8).map fun index => UInt8.ofNat (value.toNat / 256 ^ index)

@[simp] theorem to_le_bytes_length (value : UInt64) : (toLeBytes value).length = 8 := by
  simp [toLeBytes]

/-- The first `count` digits determine a number up to a multiple of `base ^ count`. -/
theorem mod_eq_of_digits {base left right : Nat} (count : Nat)
    (digit : ∀ index < count, left / base ^ index % base = right / base ^ index % base) :
    left % base ^ count = right % base ^ count := by
  induction count with
  | zero => rw [Nat.pow_zero, Nat.mod_one, Nat.mod_one]
  | succ count ih =>
    have lower := ih fun index inside => digit index (Nat.lt_succ_of_lt inside)
    rw [Nat.mod_pow_succ, Nat.mod_pow_succ, lower, digit count (Nat.lt_succ_self count)]

theorem to_le_bytes_injective : Function.Injective toLeBytes := by
  intro left right same
  have digit : ∀ index < 8,
      left.toNat / 256 ^ index % 256 = right.toNat / 256 ^ index % 256 := by
    intro index inside
    have entries := congrArg (fun bytes => bytes[index]?) same
    have bytes : UInt8.ofNat (left.toNat / 256 ^ index) = UInt8.ofNat (right.toNat / 256 ^ index) :=
      by simpa [toLeBytes, inside] using entries
    simpa using congrArg UInt8.toNat bytes
  -- Eight base-256 digits determine a number below 2^64.
  have word : ∀ value : UInt64, value.toNat % 256 ^ 8 = value.toNat :=
    fun value => Nat.mod_eq_of_lt value.toNat_lt
  apply UInt64.toNat_inj.mp
  rw [← word left, ← word right]
  exact mod_eq_of_digits 8 digit

theorem hash_bytes_injective {left right : Hash32}
    (same : left.toList = right.toList) : left = right :=
  Vector.toList_inj.mp same

def compareHash (left right : Hash32) : Ordering := compare left.toList right.toList

instance : Std.TransCmp compareHash where
  eq_swap {left right} :=
    @Std.OrientedCmp.eq_swap (List UInt8) compare _ left.toList right.toList
  isLE_trans {left middle right} :=
    @Std.TransCmp.isLE_trans (List UInt8) compare _ left.toList middle.toList right.toList

instance : Std.LawfulEqCmp compareHash where
  compare_self {hash} := @Std.ReflCmp.compare_self (List UInt8) compare _ hash.toList
  eq_of_compare equal :=
    hash_bytes_injective (@Std.LawfulEqCmp.eq_of_compare (List UInt8) compare _ _ _ equal)

def nibbleChar (value : Nat) : Char :=
  if value < 10 then Char.ofNat (48 + value) else Char.ofNat (87 + value)

def nibbleText : Bytes → List Char
  | [] => []
  | byte :: rest => nibbleChar (byte.toNat / 16) :: nibbleChar (byte.toNat % 16) :: nibbleText rest

def hexEncode (bytes : Bytes) : String := String.ofList (nibbleText bytes)

def charNibble (digit : Char) : Option Nat :=
  let code := digit.toNat
  if 48 ≤ code ∧ code ≤ 57 then some (code - 48)
  else if 97 ≤ code ∧ code ≤ 102 then some (code - 87)
  else if 65 ≤ code ∧ code ≤ 70 then some (code - 55)
  else none

def readNibbles : List Char → Option Bytes
  | [] => some []
  | [_] => none
  | high :: low :: rest =>
    match charNibble high, charNibble low, readNibbles rest with
    | some first, some second, some tail => some (UInt8.ofNat (16 * first + second) :: tail)
    | _, _, _ => none

def hexDecode (text : String) : Option Bytes := readNibbles text.toList

theorem char_nibble_round (value : Nat) (small : value < 16) :
    charNibble (nibbleChar value) = some value := by
  interval_cases value <;> decide

theorem read_nibble_text (bytes : Bytes) : readNibbles (nibbleText bytes) = some bytes := by
  induction bytes with
  | nil => rfl
  | cons byte rest ih =>
    have bound := byte.toNat_lt
    have high := char_nibble_round (byte.toNat / 16) (by omega)
    have low := char_nibble_round (byte.toNat % 16) (by omega)
    have whole : 16 * (byte.toNat / 16) + byte.toNat % 16 = byte.toNat := by omega
    simp [nibbleText, readNibbles, high, low, ih, whole]

theorem hex_decode_encode (bytes : Bytes) : hexDecode (hexEncode bytes) = some bytes := by
  simp [hexDecode, hexEncode, read_nibble_text]

theorem read_nibbles_digits {text : List Char} {bytes : Bytes}
    (decoded : readNibbles text = some bytes) : ∀ char ∈ text, (charNibble char).isSome = true := by
  fun_induction readNibbles text generalizing bytes with
  | case1 => exact fun _ member => absurd member List.not_mem_nil
  | case2 => cases decoded
  | case3 high low rest first second tail restRead lowRead highRead ih =>
    simp only [List.forall_mem_cons, highRead, lowRead]
    exact ⟨rfl, rfl, ih restRead⟩
  | case4 => cases decoded

theorem hex_encode_injective : Function.Injective hexEncode := by
  intro left right same
  have decoded := hex_decode_encode left
  rw [same, hex_decode_encode] at decoded
  exact (Option.some.inj decoded).symm

theorem nibble_text_length (bytes : Bytes) : (nibbleText bytes).length = 2 * bytes.length := by
  induction bytes with
  | nil => rfl
  | cons byte rest ih =>
    simp only [nibbleText, List.length_cons, ih]
    omega

/-- Texts put together come apart where one of the parts has a known length. -/
theorem text_append_inj {left left' right right' : String}
    (same : left ++ right = left' ++ right')
    (size : left.length = left'.length ∨ right.length = right'.length) :
    left = left' ∧ right = right' := by
  have chars := congrArg String.toList same
  simp only [String.toList_append] at chars
  simp only [← String.length_toList] at size
  have parts : left.toList = left'.toList ∧ right.toList = right'.toList := by
    rcases size with front | back
    · exact List.append_inj chars front
    · exact List.append_inj' chars back
  exact ⟨String.toList_inj.mp parts.1, String.toList_inj.mp parts.2⟩

def startsWith (text front : String) : Bool := front.toList.isPrefixOf text.toList

def utf8 (text : String) : Bytes := text.toUTF8.data.toList

theorem utf8_length (text : String) : (utf8 text).length = text.utf8ByteSize := rfl

theorem utf8_injective : Function.Injective utf8 := by
  intro left right same
  apply String.toByteArray_inj.mp
  apply ByteArray.ext
  exact Array.toList_inj.mp same

/-- `{:0width}` of a `u64`; a longer numeral is not cut. -/
def zeroPadded (width : Nat) (value : UInt64) : String :=
  String.ofList ((toString value).toList.leftpad width '0')

theorem decimal_injective {left right : UInt64} (same : toString left = toString right) :
    left = right :=
  UInt64.toNat_inj.mp (Nat.repr_injective same)

theorem decimal_length (value : UInt64) :
    1 ≤ (toString value).length ∧ (toString value).length ≤ 20 := by
  have bound := value.toNat_lt
  constructor
  · change 1 ≤ (Nat.repr value.toNat).length
    rw [Nat.repr, String.length_ofList]
    exact Nat.length_toDigits_pos
  · exact Nat.repr_length value.toNat 20 (by decide) (by omega)

end CeruleanLedger.ByteCodec
