import Mathlib.Algebra.Order.Ring.Nat

/-!
# Decimal numerals

A numeral is a list of digits that stands for a number.  A parser reads it from the left and fails
as soon as the number is beyond its limit, as `str::parse` does for each of the integer types.
-/

namespace EScp
namespace Numeral

/-- A decimal numeral for a number. -/
def Decimal (text : List Char) (value : Nat) : Prop :=
  text ≠ [] ∧ (∀ digit ∈ text, digit.isDigit) ∧ Nat.ofDigitChars 10 text 0 = value

/-- The digits of a number below `limit`, after those that make up `value`. -/
def parseDigits (limit value : Nat) : List Char → Option Nat
  | [] => some value
  | digit :: digits =>
      if digit.isDigit then
        let value := 10 * value + (digit.toNat - '0'.toNat)
        if value < limit then parseDigits limit value digits else none
      else none

/-- `str::parse` of an unsigned type whose values are below `limit`. -/
def parseUnsigned (limit : Nat) : List Char → Option Nat
  | [] => none
  | ['+'] => none
  | '+' :: digits => parseDigits limit 0 digits
  | digits => parseDigits limit 0 digits

/-- `str::parse` of a signed type whose values are from `-limit` to below `limit`. -/
def parseSigned (limit : Nat) : List Char → Option Int
  | ['-'] => none
  | '-' :: digits => (parseDigits (limit + 1) 0 digits).map fun value : Nat => -(value : Int)
  | text => (parseUnsigned limit text).map fun value : Nat => (value : Int)

/-- `printf` of a number with a sign. -/
def formatInt (value : Int) : List Char :=
  if value < 0 then '-' :: Nat.toDigits 10 value.natAbs else Nat.toDigits 10 value.natAbs

variable {text : List Char} {limit value result : Nat}

theorem le_ofDigitChars : value ≤ Nat.ofDigitChars 10 text value := by
  rw [Nat.ofDigitChars_eq_ofDigitChars_zero]
  calc
    value ≤ 10 ^ text.length * value := Nat.le_mul_of_pos_left _ (Nat.pow_pos (by decide))
    _ ≤ _ := Nat.le_add_right _ _

theorem parseDigits_eq_some_iff (fits : value < limit) :
    parseDigits limit value text = some result ↔
      (∀ digit ∈ text, digit.isDigit) ∧ Nat.ofDigitChars 10 text value = result ∧
        result < limit := by
  induction text generalizing value with
  | nil =>
      simp only [parseDigits, Option.some.injEq, Nat.ofDigitChars_nil]
      constructor
      · rintro rfl
        exact ⟨by simp, rfl, fits⟩
      · exact fun parsed => parsed.2.1
  | cons digit text ih =>
      rw [parseDigits, Nat.ofDigitChars_cons, List.forall_mem_cons]
      split
      · rename_i is_digit
        dsimp only
        split
        · rename_i below
          rw [ih below, and_iff_right is_digit]
        · rename_i above
          refine iff_of_false (by simp) ?_
          rintro ⟨-, rfl, below⟩
          exact above (lt_of_le_of_lt le_ofDigitChars below)
      · rename_i not_digit
        exact iff_of_false (by simp) fun parsed => not_digit parsed.1.1

theorem Decimal.head_ne (decimal : Decimal text value) {c : Char} (no_digit : c.isDigit = false) :
    text.head? ≠ some c := by
  intro first
  have digit := decimal.2.1 c (List.mem_of_mem_head? first)
  rw [no_digit] at digit
  cases digit

/-- A numeral is parsed exactly if its number is below the limit. -/
theorem parseUnsigned_decimal (decimal : Decimal text value) (positive : 0 < limit) :
    parseUnsigned limit text = if value < limit then some value else none := by
  obtain ⟨nonempty, digits, same⟩ := decimal
  have unsigned := Decimal.head_ne ⟨nonempty, digits, same⟩ (show '+'.isDigit = false by decide)
  have read : parseUnsigned limit text = parseDigits limit 0 text := by
    unfold parseUnsigned
    split
    · exact absurd rfl nonempty
    · exact absurd rfl unsigned
    · exact absurd rfl unsigned
    · rfl
  rw [read]
  split
  · rename_i below
    exact (parseDigits_eq_some_iff positive).mpr ⟨digits, same, below⟩
  · rename_i above
    rw [Option.eq_none_iff_forall_ne_some]
    intro result parsed
    obtain ⟨-, other, below⟩ := (parseDigits_eq_some_iff positive).mp parsed
    exact above (by rwa [← same, other])

theorem parseUnsigned_lt (positive : 0 < limit) (parsed : parseUnsigned limit text = some result) :
    result < limit := by
  unfold parseUnsigned at parsed
  split at parsed
  · cases parsed
  · cases parsed
  · exact ((parseDigits_eq_some_iff positive).mp parsed).2.2
  · exact ((parseDigits_eq_some_iff positive).mp parsed).2.2

/-- Without a minus sign, a signed number is parsed as an unsigned one. -/
theorem parseSigned_of_head_ne (unsigned : text.head? ≠ some '-') :
    parseSigned limit text = (parseUnsigned limit text).map fun value : Nat => (value : Int) := by
  unfold parseSigned
  split
  · exact absurd rfl unsigned
  · exact absurd rfl unsigned
  · rfl

theorem formatInt_of_nonneg {number : Int} (nonneg : 0 ≤ number) :
    formatInt number = Nat.toDigits 10 number.natAbs := if_neg (by omega)

theorem length_formatInt_le {number : Int} {digits : Nat} (positive : 0 < digits)
    (small : number.natAbs < 10 ^ digits) : (formatInt number).length ≤ digits + 1 := by
  have length := (Nat.length_toDigits_le_iff (by decide) positive).mpr small
  rw [formatInt]
  split
  · rw [List.length_cons]
    omega
  · omega

/-- Every number has a numeral. -/
theorem decimal_toDigits (value : Nat) : Decimal (Nat.toDigits 10 value) value := by
  refine ⟨Nat.toDigits_ne_nil, ?_, Nat.ofDigitChars_ten_toDigits⟩
  exact fun digit mem => Nat.isDigit_of_mem_toDigits (by decide) (by decide) mem

theorem mem_formatInt {number : Int} {c : Char} (mem : c ∈ formatInt number) :
    c = '-' ∨ c.isDigit := by
  have digit := (decimal_toDigits number.natAbs).2.1 c
  rw [formatInt] at mem
  split at mem
  · rw [List.mem_cons] at mem
    exact mem.imp_right digit
  · exact .inr (digit mem)

end Numeral
end EScp
