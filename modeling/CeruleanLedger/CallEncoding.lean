import CeruleanLedger.ByteCodec

/-!
The call encoding of `evm_compat/abi.rs`: a selector, one word for each argument, and the
arguments of variable size behind them, found by their offsets. Sizes are below 2^64.
-/

namespace CeruleanLedger.CallEncoding

open ByteCodec

inductive AbiValue where
  | uint256 (value : Vector UInt8 32)
  | address (value : Vector UInt8 20)
  | bool (value : Bool)
  | bytes (value : Bytes)
  | string (value : String)
  deriving DecidableEq

def toBeBytes (value : UInt64) : Bytes := (toLeBytes value).reverse

/-- A number in the last eight bytes of a word. -/
def word (value : Nat) : Bytes := List.replicate 24 0 ++ toBeBytes (UInt64.ofNat value)

def functionSelector (sha256 : Bytes → Hash32) (signature : String) : Bytes :=
  (sha256 (utf8 signature)).toList.take 4

/-- The contents of an argument of variable size. -/
def AbiValue.raw? : AbiValue → Option Bytes
  | .bytes value => some value
  | .string value => some (utf8 value)
  | _ => none

/-- Length, contents and zeros up to the next word. -/
def padded (raw : Bytes) : Bytes :=
  word raw.length ++ raw ++ List.replicate ((32 - raw.length % 32) % 32) 0

/-- The word of an argument in the head; one of variable size has the offset of its contents. -/
def headWord (offset : Nat) : AbiValue → Bytes
  | .uint256 value => value.toList
  | .address value => List.replicate 12 0 ++ value.toList
  | .bool value => List.replicate 31 0 ++ [if value then 1 else 0]
  | _ => word offset

def tailPart (arg : AbiValue) : Bytes := (arg.raw?.map padded).getD []

/-- One round of the loop over the arguments. -/
def encodeArg (headSize : Nat) (sections : Bytes × Bytes) (arg : AbiValue) : Bytes × Bytes :=
  (sections.1 ++ headWord (headSize + sections.2.length) arg, sections.2 ++ tailPart arg)

def encodeCall (sha256 : Bytes → Hash32) (signature : String) (args : List AbiValue) : Bytes :=
  let (head, tail) := args.foldl (encodeArg (args.length * 32)) ([], [])
  functionSelector sha256 signature ++ head ++ tail

/-- The head of arguments whose contents start at an offset. -/
def heads (offset : Nat) : List AbiValue → Bytes
  | [] => []
  | arg :: rest => headWord offset arg ++ heads (offset + (tailPart arg).length) rest

theorem encode_args (headSize : Nat) (args : List AbiValue) (head tail : Bytes) :
    args.foldl (encodeArg headSize) (head, tail) =
      (head ++ heads (headSize + tail.length) args, tail ++ args.flatMap tailPart) := by
  induction args generalizing head tail with
  | nil => simp [heads]
  | cons arg rest ih =>
    rw [List.foldl_cons, encodeArg, ih]
    simp [heads, Nat.add_assoc]

theorem encode_call_eq (sha256 : Bytes → Hash32) (signature : String) (args : List AbiValue) :
    encodeCall sha256 signature args = functionSelector sha256 signature ++
      (heads (args.length * 32) args ++ args.flatMap tailPart) := by
  simp [encodeCall, encode_args]

theorem word_length (value : Nat) : (word value).length = 32 := by
  simp [word, toBeBytes, toLeBytes]

theorem word_inj {left right : Nat} (small : left < 2 ^ 64) (other : right < 2 ^ 64)
    (same : word left = word right) : left = right := by
  have bytes := List.append_cancel_left same
  have numbers := to_le_bytes_injective (List.reverse_injective bytes)
  have values := congrArg UInt64.toNat numbers
  rwa [UInt64.toNat_ofNat_of_lt' small, UInt64.toNat_ofNat_of_lt' other] at values

theorem head_word_length (offset : Nat) (arg : AbiValue) : (headWord offset arg).length = 32 := by
  cases arg <;> simp [headWord, word_length]

theorem heads_length (offset : Nat) (args : List AbiValue) :
    (heads offset args).length = args.length * 32 := by
  induction args generalizing offset with
  | nil => rfl
  | cons arg rest ih =>
    rw [heads, List.length_append, head_word_length, ih, List.length_cons]
    omega

theorem selector_length (sha256 : Bytes → Hash32) (signature : String) :
    (functionSelector sha256 signature).length = 4 := by
  simp [functionSelector]

theorem tails_length (args : List AbiValue) : (args.flatMap tailPart).length % 32 = 0 := by
  induction args with
  | nil => rfl
  | cons arg rest ih =>
    have whole : (tailPart arg).length % 32 = 0 := by
      cases arg <;> simp [tailPart, AbiValue.raw?, padded, word_length] <;> omega
    rw [List.flatMap_cons, List.length_append]
    omega

theorem padded_inj {left right more others : Bytes} (small : (padded left ++ more).length < 2 ^ 64)
    (other : (padded right ++ others).length < 2 ^ 64)
    (same : padded left ++ more = padded right ++ others) : left = right ∧ more = others := by
  simp only [padded, List.append_assoc, List.length_append] at small other same
  obtain ⟨sizes, rest⟩ := List.append_inj same (by rw [word_length, word_length])
  have size := word_inj (by omega) (by omega) sizes
  obtain ⟨rfl, rest⟩ := List.append_inj rest size
  exact ⟨rfl, List.append_cancel_left rest⟩

theorem arg_inj {offset : Nat} {left right : AbiValue} {more others : Bytes}
    (variants : left.ctorIdx = right.ctorIdx) (words : headWord offset left = headWord offset right)
    (small : (tailPart left ++ more).length < 2 ^ 64)
    (other : (tailPart right ++ others).length < 2 ^ 64)
    (same : tailPart left ++ more = tailPart right ++ others) : left = right ∧ more = others := by
  cases left <;> cases right <;> try cases variants
  case uint256.uint256 => exact ⟨congrArg _ (Vector.toList_inj.mp words), same⟩
  case address.address =>
    exact ⟨congrArg _ (Vector.toList_inj.mp (List.append_cancel_left words)), same⟩
  case bool.bool left right =>
    have bits := List.append_cancel_left words
    cases left <;> cases right <;> first | exact ⟨rfl, same⟩ | exact absurd bits (by decide)
  case bytes.bytes =>
    obtain ⟨rfl, rest⟩ := padded_inj small other same
    exact ⟨rfl, rest⟩
  case string.string =>
    obtain ⟨raws, rest⟩ := padded_inj small other same
    exact ⟨congrArg _ (utf8_injective raws), rest⟩

theorem args_inj (offset : Nat) (left right : List AbiValue)
    (variants : left.map AbiValue.ctorIdx = right.map AbiValue.ctorIdx)
    (small : (left.flatMap tailPart).length < 2 ^ 64)
    (other : (right.flatMap tailPart).length < 2 ^ 64)
    (words : heads offset left = heads offset right)
    (same : left.flatMap tailPart = right.flatMap tailPart) : left = right := by
  induction left generalizing right offset with
  | nil => simpa [eq_comm] using variants
  | cons arg rest ih =>
    cases right with
    | nil => cases variants
    | cons arg' rest' =>
      obtain ⟨variant, later⟩ := List.cons.inj variants
      obtain ⟨word, words⟩ := List.append_inj words
        (by rw [head_word_length, head_word_length])
      rw [List.flatMap_cons] at small same other
      obtain ⟨rfl, tails⟩ := arg_inj variant word small other same
      rw [List.length_append] at small other
      rw [ih _ rest' later (by omega) (by omega) words tails]

theorem heads_split (offset : Nat) (before : List AbiValue) (arg : AbiValue)
    (after : List AbiValue) : ∃ later, heads offset (before ++ arg :: after) =
      heads offset before ++
        (headWord (offset + (before.flatMap tailPart).length) arg ++ later) := by
  induction before generalizing offset with
  | nil => exact ⟨_, rfl⟩
  | cons first rest ih =>
    obtain ⟨later, split⟩ := ih (offset + (tailPart first).length)
    refine ⟨later, ?_⟩
    rw [List.cons_append, heads, split]
    simp [heads, Nat.add_assoc]

/-- Calls with arguments of the same variants are told apart by their bytes. They are whole
words behind the selector, and the head has for each argument of variable size the offset at
which its length, its contents and the padding stand. -/
theorem call_encoding (sha256 : Bytes → Hash32) (signature : String) :
    (∀ left right : List AbiValue,
      left.map AbiValue.ctorIdx = right.map AbiValue.ctorIdx →
      (encodeCall sha256 signature left).length < 2 ^ 64 →
      encodeCall sha256 signature left = encodeCall sha256 signature right → left = right) ∧
    (∀ args, (encodeCall sha256 signature args).length % 32 = 4) ∧
    ∀ before arg after raw, arg.raw? = some raw →
      let data := encodeCall sha256 signature (before ++ arg :: after)
      data.length < 2 ^ 64 →
      ∃ offset < 2 ^ 64, (data.drop (4 + 32 * before.length)).take 32 = word offset ∧
        padded raw <+: data.drop (4 + offset) := by
  refine ⟨fun left right variants small same => ?_, fun args => ?_, ?_⟩
  · have other := same ▸ small
    rw [encode_call_eq, encode_call_eq] at same
    rw [encode_call_eq, List.length_append, List.length_append] at small other
    have count : left.length = right.length := by simpa using congrArg List.length variants
    have sections := List.append_cancel_left same
    rw [← count] at sections
    obtain ⟨words, tails⟩ := List.append_inj sections (by rw [heads_length, heads_length, count])
    exact args_inj _ left right variants (by omega) (by omega) words tails
  · have tails := tails_length args
    rw [encode_call_eq, List.length_append, List.length_append, selector_length, heads_length]
    omega
  · intro before arg after raw dynamic data small
    have layout : data = _ := encode_call_eq sha256 signature (before ++ arg :: after)
    obtain ⟨later, split⟩ := heads_split ((before ++ arg :: after).length * 32) before arg after
    have offset_word : ∀ offset, headWord offset arg = word offset := by
      cases arg <;> cases dynamic <;> exact fun _ => rfl
    have contents : tailPart arg = padded raw := by rw [tailPart, dynamic]; rfl
    refine ⟨(before ++ arg :: after).length * 32 + (before.flatMap tailPart).length, ?_, ?_, ?_⟩
    · have size := congrArg List.length layout
      simp only [List.length_append, heads_length, List.flatMap_append] at size ⊢
      omega
    · rw [layout, split, offset_word, List.append_assoc, ← List.append_assoc, List.drop_left',
        List.append_assoc, List.take_left' (word_length _)]
      rw [List.length_append, selector_length, heads_length, Nat.mul_comm]
    · refine ⟨after.flatMap tailPart, ?_⟩
      rw [layout, List.flatMap_append, List.flatMap_cons, contents, ← List.append_assoc,
        ← List.append_assoc, List.drop_left']
      rw [List.length_append, List.length_append, selector_length, heads_length, Nat.add_assoc]

theorem dynamic_argument_found :
    let data := encodeCall (fun _ => zeroHash) "f(bool,bytes)" [.bool true, .bytes [1, 2, 3]]
    ∃ offset < 2 ^ 64, (data.drop 36).take 32 = word offset ∧
      padded [1, 2, 3] <+: data.drop (4 + offset) :=
  (call_encoding _ "f(bool,bytes)").2.2 [.bool true] (.bytes [1, 2, 3]) [] _ rfl
    (by decide +kernel)

end CeruleanLedger.CallEncoding
