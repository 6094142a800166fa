import EScp.Numeral
import EScp.Residue
import Mathlib.Data.List.Infix
import Mathlib.Data.List.TakeWhile

/-!
# Sizes on the command line

`int_from_human` reads a number with a unit, and `start_escp` makes a block size of it.  The release
build does not check for overflow, so that the product wraps, and the block size is cut to 32 bits
with a sign.  A string is a list of characters; of `to_lowercase` only the ASCII letters matter.
-/

namespace EScp
namespace HumanSize

open Numeral

/-! ## The code -/

/-- What `int_from_human` returns, and what it prints. -/
structure Conversion where
  value : UInt64
  message : Option (List Char)
deriving DecidableEq

/-- `" kmgtpe"`. -/
def unitNames : List Char := [' ', 'k', 'm', 'g', 't', 'p', 'e']

/-- `"bit"`. -/
def bit : List Char := ['b', 'i', 't']

def intFromHuman (str : List Char) : Conversion :=
  let number := str.takeWhile fun c => !c.isAlpha
  let unit := str.dropWhile fun c => !c.isAlpha
  match parseUnsigned (2 ^ 64) number with
  | none => ⟨0, some ("Unable to parse ".toList ++ str)⟩
  | some val =>
      let u := unit.map Char.toLower
      let pow := u.head?.elim 0 fun x => (unitNames.idxOf? x).getD 0
      let multiplier : UInt64 := if bit <:+: u then 1000 else 1024
      let divisor : UInt64 := if bit <:+: u then 8 else 1
      ⟨UInt64.ofNat val * multiplier ^ pow / divisor, none⟩

/-- `args.block`, and what the user is told about it. -/
structure Block where
  block : Int32
  message : Option (List Char)
deriving DecidableEq

/-- The block size in `start_escp`. -/
def startEscp (blockSz : List Char) : Block :=
  let block := (intFromHuman blockSz).value.toUInt32.toInt32
  if block < 256 * 1024 then
    ⟨256 * 1024, some "setting block size to 256K, which is minimum block size".toList⟩
  else ⟨block, none⟩

/-! ## Sizes -/

/-- The letters for powers of 1024. -/
inductive UnitName where
  | k | m | g | t | p | e
deriving DecidableEq

namespace UnitName

def power : UnitName → Nat
  | k => 1
  | m => 2
  | g => 3
  | t => 4
  | p => 5
  | e => 6

/-- A letter in lower or in upper case. -/
def letter : UnitName → Bool → Char
  | k, false => 'k'
  | k, true => 'K'
  | m, false => 'm'
  | m, true => 'M'
  | g, false => 'g'
  | g, true => 'G'
  | t, false => 't'
  | t, true => 'T'
  | p, false => 'p'
  | p, true => 'P'
  | e, false => 'e'
  | e, true => 'E'

end UnitName

/-- A number, a unit if there is one, and more text.  Text without a unit starts with another
letter. -/
structure Size where
  digits : List Char
  number : Nat
  unit : Option (UnitName × Bool)
  text : List Char
  decimal : Decimal digits number
  fits : number < 2 ^ 64
  unit_first : unit = none → ∀ c, text.head? = some c → c.isAlpha ∧ c.toLower ∉ unitNames

namespace Size

def suffix (size : Size) : List Char :=
  size.unit.elim [] (fun unit => [unit.1.letter unit.2]) ++ size.text

def written (size : Size) : List Char := size.digits ++ size.suffix

/-- The text makes it a number of bits. -/
def Bits (size : Size) : Prop := bit <:+: size.text.map Char.toLower

instance (size : Size) : Decidable size.Bits := by
  unfold Bits
  infer_instance

/-- The number times the unit, which is one of bytes or of bits. -/
def product (size : Size) : Nat :=
  size.number * (if size.Bits then 1000 else 1024) ^ size.unit.elim 0 fun unit => unit.1.power

/-- The bytes that are denoted. -/
def bytes (size : Size) : Nat := if size.Bits then size.product / 8 else size.product

/-- `int_from_human` returns the bytes when they fit, and reports failure when they do not. -/
def Converts (size : Size) : Prop :=
  (size.bytes < 2 ^ 64 → intFromHuman size.written = ⟨UInt64.ofNat size.bytes, none⟩) ∧
    (2 ^ 64 ≤ size.bytes → (intFromHuman size.written).message ≠ none)

/-- `start_escp` takes the bytes for the block size, but 256K at least, or it tells the user. -/
def Sets (size : Size) : Prop :=
  (startEscp size.written).block.toInt = max size.bytes 262144 ∨
    (startEscp size.written).message ≠ none

end Size

/-! ## Reading a size -/

section Reading

variable (size : Size)

theorem UnitName.letter_isAlpha (unit : UnitName) (upper : Bool) : (unit.letter upper).isAlpha := by
  cases unit <;> cases upper <;> decide

theorem UnitName.idxOf?_letter (unit : UnitName) (upper : Bool) :
    unitNames.idxOf? (unit.letter upper).toLower = some unit.power := by
  cases unit <;> cases upper <;> decide

theorem UnitName.letter_ne (unit : UnitName) (upper : Bool) :
    (unit.letter upper).toLower ≠ 'b' := by
  cases unit <;> cases upper <;> decide

theorem suffix_head (c : Char) (first : size.suffix.head? = some c) : c.isAlpha := by
  cases given : size.unit with
  | none =>
      rw [Size.suffix, given] at first
      exact (size.unit_first given c first).1
  | some unit =>
      rw [Size.suffix, given] at first
      obtain rfl : unit.1.letter unit.2 = c := Option.some.inj first
      exact unit.1.letter_isAlpha unit.2

theorem digits_plain (c : Char) (mem : c ∈ size.digits) : (!c.isAlpha) = true := by
  have digit := size.decimal.2.1 c mem
  have below : c.toNat ≤ 57 :=
    UInt32.le_iff_toNat_le.mp (of_decide_eq_true (Bool.and_eq_true_iff.mp digit).2)
  have not_upper : c.isUpper = false := decide_eq_false fun letter => by
    have above : 65 ≤ c.toNat := UInt32.le_iff_toNat_le.mp letter.1
    omega
  have not_lower : c.isLower = false := by
    refine Bool.and_eq_false_iff.mpr (.inl (decide_eq_false fun letter => ?_))
    have above : 97 ≤ c.toNat := UInt32.le_iff_toNat_le.mp letter
    omega
  exact congrArg not (Bool.or_eq_false_iff.mpr ⟨not_upper, not_lower⟩)

theorem takeWhile_written :
    (size.written.takeWhile fun c => !c.isAlpha) = size.digits ∧
      (size.written.dropWhile fun c => !c.isAlpha) = size.suffix := by
  rw [Size.written, List.takeWhile_append_of_pos (digits_plain size),
    List.dropWhile_append_of_pos (digits_plain size)]
  cases parts : size.suffix with
  | nil => simp
  | cons first rest =>
      have alpha := suffix_head size first (by rw [parts]; rfl)
      simp [alpha]

theorem bits_iff : bit <:+: size.suffix.map Char.toLower ↔ size.Bits := by
  cases given : size.unit with
  | none => simp [Size.suffix, Size.Bits, given]
  | some unit =>
      have other := unit.1.letter_ne unit.2
      simp only [Size.suffix, Size.Bits, given, Option.elim_some, List.singleton_append,
        List.map_cons, List.infix_cons_iff, or_iff_right_iff_imp]
      intro start
      obtain ⟨rest, same⟩ := start
      exact absurd (List.cons.inj same).1.symm other

/-- What `int_from_human` computes. -/
theorem intFromHuman_written : intFromHuman size.written =
    ⟨UInt64.ofNat size.number *
      (if size.Bits then 1000 else 1024) ^ size.unit.elim 0 (fun unit => unit.1.power) /
        if size.Bits then 8 else 1, none⟩ := by
  have number := parseUnsigned_decimal size.decimal (show 0 < 2 ^ 64 by decide)
  rw [if_pos size.fits] at number
  have power : (size.suffix.map Char.toLower).head?.elim 0
      (fun x => (unitNames.idxOf? x).getD 0) = size.unit.elim 0 fun unit => unit.1.power := by
    cases given : size.unit with
    | none =>
        cases text : size.text with
        | nil => simp [Size.suffix, given, text]
        | cons first rest =>
            obtain ⟨-, other⟩ := size.unit_first given first (by rw [text]; rfl)
            simp [Size.suffix, given, text, List.idxOf?_eq_none_iff.mpr other]
    | some unit => simp [Size.suffix, given, unit.1.idxOf?_letter unit.2]
  obtain ⟨front, back⟩ := takeWhile_written size
  simp only [intFromHuman, front, back, number, power, bits_iff]

end Reading

/-! ## Results -/

section Results

variable (size : Size)

theorem toNat_pow (base : UInt64) (exponent : Nat) :
    (base ^ exponent).toNat = base.toNat ^ exponent % 2 ^ 64 := by
  induction exponent with
  | zero => rfl
  | succ exponent ih => rw [UInt64.pow_succ, UInt64.toNat_mul, ih, Nat.mod_mul_mod,
        @Nat.pow_succ base.toNat]

/-- The value comes from the wrapped product. -/
theorem value_written : (intFromHuman size.written).value.toNat =
    size.product % 2 ^ 64 / if size.Bits then 8 else 1 := by
  have number : (UInt64.ofNat size.number).toNat = size.number := by
    rw [UInt64.toNat_ofNat', Nat.mod_eq_of_lt size.fits]
  have multiplier : (if size.Bits then 1000 else 1024 : UInt64).toNat =
      if size.Bits then 1000 else 1024 := by
    split <;> rfl
  have divisor : (if size.Bits then 8 else 1 : UInt64).toNat = if size.Bits then 8 else 1 := by
    split <;> rfl
  rw [intFromHuman_written, UInt64.toNat_div, UInt64.toNat_mul, toNat_pow, number,
    multiplier, divisor, Nat.mul_mod_mod]
  rfl

theorem message_written : (intFromHuman size.written).message = none := by
  rw [intFromHuman_written]

/-- Failure is never reported, and the value is right exactly if the product does not wrap. -/
theorem converts_iff : size.Converts ↔ size.product < 2 ^ 64 := by
  have value := value_written size
  constructor
  · rintro ⟨returned, reported⟩
    have small : size.bytes < 2 ^ 64 := by
      by_contra large
      exact reported (by omega) (message_written size)
    have same : (intFromHuman size.written).value.toNat = size.bytes := by
      rw [returned small, UInt64.toNat_ofNat', Nat.mod_eq_of_lt small]
    rw [same, Size.bytes] at value
    rw [Size.bytes] at small
    split at value
    · omega
    · simpa [‹¬size.Bits›] using small
  · intro product
    have same : (intFromHuman size.written).value.toNat = size.bytes := by
      rw [value, Nat.mod_eq_of_lt product, Size.bytes]
      split
      · rfl
      · rw [Nat.div_one]
    have small : size.bytes < 2 ^ 64 := by
      rw [← same]
      exact UInt64.toNat_lt _
    refine ⟨fun _ => ?_, fun large => by omega⟩
    have parts : ∀ conversion : Conversion, conversion.message = none →
        conversion = ⟨conversion.value, none⟩ := by
      rintro ⟨value, message⟩ rfl
      rfl
    rw [parts _ (message_written size), ← same, UInt64.ofNat_toNat]

/-- The block size before it is compared with 256K. -/
theorem cut_toInt (product : size.product < 2 ^ 64) :
    (intFromHuman size.written).value.toUInt32.toInt32.toInt =
      ((size.bytes : Int)).bmod (2 ^ 32) := by
  have small : size.bytes < 2 ^ 64 := by
    rw [Size.bytes]
    split <;> omega
  rw [((converts_iff size).mpr product).1 small, toInt_toInt32_eq_bmod, UInt64.toNat_ofNat',
    Nat.mod_eq_of_lt small]

/-- The block size is as it should be, or the user is told, exactly if it fits in 31 bits or is cut
to less than 256K. -/
theorem sets_iff (product : size.product < 2 ^ 64) : size.Sets ↔
    size.bytes < 2 ^ 31 ∨ size.bytes % 2 ^ 32 < 262144 ∨ 2 ^ 31 ≤ size.bytes % 2 ^ 32 := by
  have cut := cut_toInt size product
  rw [Int.bmod_def] at cut
  rw [Size.Sets, startEscp]
  split
  · rename_i short
    rw [Int32.lt_iff_toInt_lt, show (256 * 1024 : Int32).toInt = 262144 by decide] at short
    refine iff_of_true (.inr (by simp)) ?_
    omega
  · rename_i long
    rw [Int32.lt_iff_toInt_lt, show (256 * 1024 : Int32).toInt = 262144 by decide] at long
    simp only [ne_eq, not_true, or_false]
    omega

/-- Sizes mean what they say exactly if the product fits in 64 bits, and the bytes fit in 31 bits
unless their low 32 bits are taken for less than 256K. -/
theorem means_iff : size.Converts ∧ size.Sets ↔ size.product < 2 ^ 64 ∧
    (size.bytes < 2 ^ 31 ∨ size.bytes % 2 ^ 32 < 262144 ∨ 2 ^ 31 ≤ size.bytes % 2 ^ 32) := by
  rw [converts_iff]
  exact and_congr_right fun product => sets_iff size product

end Results

/-! ## Large sizes -/

/-- A number with a unit. -/
def plainSize (number : Nat) (fits : number < 2 ^ 64) (unit : UnitName) : Size where
  digits := Nat.toDigits 10 number
  number := number
  unit := some (unit, false)
  text := []
  decimal := decimal_toDigits number
  fits := fits
  unit_first none_given := by cases none_given

/-- The block size `5g` becomes one gigabyte without a word, and `16777216t` is zero. -/
theorem not_means_of_large :
    startEscp ['5', 'g'] = ⟨1073741824, none⟩ ∧
      intFromHuman ("16777216t".toList) = ⟨0, none⟩ ∧
        ¬∀ size : Size, size.Converts ∧ size.Sets := by
  refine ⟨by decide, by decide, ?_⟩
  intro means
  have fives : (plainSize 5 (by decide) .g).product < 2 ^ 64 := by decide
  have small := (sets_iff _ fives).mp (means _).2
  revert small
  decide

end HumanSize
end EScp
