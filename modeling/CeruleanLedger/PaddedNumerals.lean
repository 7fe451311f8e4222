import CeruleanLedger.ByteCodec

/-!
Decimal numerals as keys: reading a numeral back, and the order of numerals
that are padded with zeros to one width. Padded to twenty digits, every `u64`
sorts as a string where it sorts as a number.
-/

namespace CeruleanLedger.PaddedNumerals

open ByteCodec

def parseU64 (text : String) : Option UInt64 :=
  let digits := match text.toList with
    | '+' :: rest => rest
    | all => all
  if digits.isEmpty || !digits.all Char.isDigit then none
  else
    let value := Nat.ofDigitChars 10 digits 0
    if value < 2 ^ 64 then some (UInt64.ofNat value) else none

def Digits (text : List Char) : Prop := ∀ char ∈ text, char.isDigit = true

theorem digit_bounds {char : Char} (digit : char.isDigit = true) :
    48 ≤ char.toNat ∧ char.toNat ≤ 57 := by
  simp only [Char.isDigit, Bool.and_eq_true, decide_eq_true_eq] at digit
  exact ⟨digit.1, digit.2⟩

theorem value_cons (char : Char) (rest : List Char) :
    Nat.ofDigitChars 10 (char :: rest) 0 =
      10 ^ rest.length * (char.toNat - 48) + Nat.ofDigitChars 10 rest 0 := by
  rw [Nat.ofDigitChars_cons, Nat.ofDigitChars_eq_ofDigitChars_zero]
  simp

theorem value_lt (text : List Char) (digits : Digits text) :
    Nat.ofDigitChars 10 text 0 < 10 ^ text.length := by
  induction text with
  | nil => simp
  | cons char rest ih =>
    obtain ⟨here, others⟩ := List.forall_mem_cons.mp digits
    have bounds := digit_bounds here
    have below := ih others
    rw [value_cons, List.length_cons, Nat.pow_succ]
    have scaled : 10 ^ rest.length * (char.toNat - 48) ≤ 10 ^ rest.length * 9 :=
      Nat.mul_le_mul_left _ (by omega)
    omega

/-- The leading digit decides, and the rest decides between equal ones. -/
theorem leading_digit {scale high high' low low' : Nat} (below : low < scale)
    (below' : low' < scale) :
    high < high' ∨ high = high' ∧ low < low' ↔ scale * high + low < scale * high' + low' := by
  rcases Nat.lt_trichotomy high high' with less | same | greater
  · have scaled : scale * (high + 1) ≤ scale * high' := Nat.mul_le_mul_left scale less
    rw [Nat.mul_succ] at scaled
    constructor
    · intro _
      omega
    · intro _
      exact Or.inl less
  · subst same
    simp
  · have scaled : scale * (high' + 1) ≤ scale * high := Nat.mul_le_mul_left scale greater
    rw [Nat.mul_succ] at scaled
    constructor
    · rintro (less | ⟨same, _⟩)
      · omega
      · omega
    · intro _
      omega

theorem digits_lt_iff {left right : List Char} (sameLength : left.length = right.length)
    (digits : Digits left) (digits' : Digits right) :
    left < right ↔ Nat.ofDigitChars 10 left 0 < Nat.ofDigitChars 10 right 0 := by
  induction left generalizing right with
  | nil =>
    have empty : right = [] := List.eq_nil_of_length_eq_zero sameLength.symm
    simp [empty]
  | cons char rest ih =>
    cases right with
    | nil => cases sameLength
    | cons char' rest' =>
      have sameRest : rest.length = rest'.length := Nat.succ.inj sameLength
      obtain ⟨here, others⟩ := List.forall_mem_cons.mp digits
      obtain ⟨here', others'⟩ := List.forall_mem_cons.mp digits'
      have bounds := digit_bounds here
      have bounds' := digit_bounds here'
      have below := value_lt rest others
      have below' := value_lt rest' others'
      -- Both orders look at the first digit, then at the rest.
      rw [List.cons_lt_cons_iff, value_cons, value_cons, ih sameRest others others', sameRest]
      rw [sameRest] at below
      have sameOrder : char < char' ↔ char.toNat - 48 < char'.toNat - 48 := by
        rw [Char.lt_def, UInt32.lt_iff_toNat_lt]
        change char.toNat < char'.toNat ↔ _
        omega
      have sameDigit : char = char' ↔ char.toNat - 48 = char'.toNat - 48 := by
        rw [← Char.toNat_inj]
        omega
      rw [sameOrder, sameDigit]
      exact leading_digit below below'

variable (width : Nat) (value : UInt64)

theorem decimal_chars : (toString value).toList = Nat.toDigits 10 value.toNat :=
  Nat.toList_repr

theorem decimal_digits : Digits (toString value).toList := by
  intro char member
  rw [decimal_chars] at member
  exact Nat.isDigit_of_mem_toDigits (by decide) (by decide) member

theorem padded_digits : Digits (zeroPadded width value).toList := by
  intro char member
  rw [zeroPadded, String.toList_ofList, List.leftpad, List.mem_append] at member
  rcases member with padding | digit
  · rw [List.eq_of_mem_replicate padding]
    rfl
  · exact decimal_digits value char digit

theorem padded_value : Nat.ofDigitChars 10 (zeroPadded width value).toList 0 = value.toNat := by
  rw [zeroPadded, String.toList_ofList, List.leftpad, decimal_chars, Nat.ofDigitChars_append,
    Nat.ofDigitChars_replicate_zero, Nat.mul_zero, Nat.ofDigitChars_ten_toDigits]

theorem padded_length : (zeroPadded 20 value).toList.length = 20 := by
  have short := (decimal_length value).2
  rw [← String.length_toList] at short
  rw [zeroPadded, String.toList_ofList, List.length_leftpad]
  omega

theorem padded_lt_iff (left right : UInt64) :
    zeroPadded 20 left < zeroPadded 20 right ↔ left < right := by
  rw [String.lt_iff_toList_lt, digits_lt_iff (by rw [padded_length, padded_length])
    (padded_digits 20 left) (padded_digits 20 right), padded_value, padded_value,
    UInt64.lt_iff_toNat_lt]

theorem padded_nonempty : (zeroPadded width value).toList.isEmpty = false := by
  have long := (decimal_length value).1
  rw [← String.length_toList] at long
  rw [zeroPadded, String.toList_ofList, List.isEmpty_eq_false_iff, ← List.length_pos_iff,
    List.length_leftpad]
  omega

theorem parse_padded : parseU64 (zeroPadded width value) = some value := by
  have digits := padded_digits width value
  have unsigned : (match (zeroPadded width value).toList with
      | '+' :: rest => rest
      | all => all) = (zeroPadded width value).toList := by
    split
    · rename_i rest plus
      rw [plus] at digits
      exact absurd (digits '+' List.mem_cons_self) (by decide)
    · rfl
  have allDigits : (zeroPadded width value).toList.all Char.isDigit = true :=
    List.all_eq_true.mpr digits
  rw [parseU64, unsigned]
  simp only [padded_nonempty, allDigits, Bool.not_true, Bool.or_self, Bool.false_eq_true,
    ↓reduceIte, padded_value, if_pos value.toNat_lt, UInt64.ofNat_toNat]

end CeruleanLedger.PaddedNumerals
