import Mathlib.Algebra.BigOperators.Group.List.Basic
import Mathlib.Algebra.Order.Ring.Nat
import Mathlib.Data.List.Infix
import Mathlib.Data.List.TakeWhile
import Mathlib.Tactic.SplitIfs

/-!
# Text

A text is a list of characters that is stored in UTF-8: positions in it count bytes, and bytes may
fail to be a text.  A pattern is a label and some characters of a class behind it.
-/

namespace EScp
namespace Text

/-- The bytes of a text. -/
def toUtf8 (text : List Char) : List UInt8 := text.flatMap String.utf8EncodeChar

/-- A character of one byte that is not zero. -/
def Plain (c : Char) : Prop := 0 < c.toNat ∧ c.toNat < 128

instance (c : Char) : Decidable (Plain c) := by
  unfold Plain
  infer_instance

/-- `CStr::to_str`. -/
def fromUtf8 (bytes : List UInt8) : Option (List Char) :=
  bytes.toByteArray.utf8Decode?.map Array.toList

/-- `str::len`. -/
def size (text : List Char) : Nat := (text.map Char.utf8Size).sum

/-- `str::split_at`, which panics when there is no position of so many bytes. -/
def splitAt : Nat → List Char → Option (List Char × List Char)
  | 0, text => some ([], text)
  | _ + 1, [] => none
  | mid + 1, c :: text =>
      if c.utf8Size ≤ mid + 1 then
        (splitAt (mid + 1 - c.utf8Size) text).map fun parts => (c :: parts.1, parts.2)
      else none

/-- `str::trim`. -/
def trim (space : Char → Bool) (text : List Char) : List Char :=
  ((text.dropWhile space).reverse.dropWhile space).reverse

/-- A label at the beginning of a text with all characters of a class that follow it, and at least
one of them. -/
def matchHere (label : List Char) (member : Char → Bool) (text : List Char) : Option (List Char) :=
  if label <+: text then
    let run := (text.drop label.length).takeWhile member
    if run = [] then none else some (label ++ run)
  else none

/-- The leftmost match, and the position where it ends. -/
def find (label : List Char) (member : Char → Bool) : List Char → Option (Nat × List Char)
  | [] => none
  | c :: text =>
      match matchHere label member (c :: text) with
      | some found => some (size found, found)
      | none => (find label member text).map fun found => (c.utf8Size + found.1, found.2)

/-! ## Bytes -/

section Bytes

variable {front back text : List Char}

theorem size_append : size (front ++ back) = size front + size back := by
  rw [size, List.map_append, List.sum_append]
  rfl

theorem size_le_of_prefix (start : front <+: text) : size front ≤ size text := by
  obtain ⟨back, rfl⟩ := start
  rw [size_append]
  exact Nat.le_add_right _ _

theorem size_cons (c : Char) (text : List Char) : size (c :: text) = c.utf8Size + size text := rfl

theorem size_le_of_sublist (sublist : front.Sublist text) : size front ≤ size text := by
  induction sublist with
  | slnil => exact le_rfl
  | cons c _ ih => exact ih.trans (Nat.le_add_left _ _)
  | cons_cons c _ ih => exact Nat.add_le_add_left ih _

theorem toUtf8_append (front back : List Char) :
    toUtf8 (front ++ back) = toUtf8 front ++ toUtf8 back := List.flatMap_append

theorem length_toUtf8 (text : List Char) : (toUtf8 text).length = size text := by
  rw [toUtf8, List.length_flatMap, size]
  simp only [String.length_utf8EncodeChar]

theorem fromUtf8_append (front : List Char) (back : List UInt8) :
    fromUtf8 (toUtf8 front ++ back) = (fromUtf8 back).map (front ++ ·) := by
  induction front with
  | nil => simp [toUtf8]
  | cons c front ih =>
      have first : (toUtf8 (c :: front) ++ back).toByteArray =
          [c].utf8Encode ++ (toUtf8 front ++ back).toByteArray := by
        rw [List.utf8Encode_singleton, ← List.toByteArray_append]
        simp [toUtf8]
      rw [fromUtf8] at ih
      rw [fromUtf8, first, ByteArray.utf8Decode?_utf8Encode_singleton_append, Option.map_map]
      have order : Array.toList ∘ (#[c] ++ ·) = (c :: ·) ∘ Array.toList := by
        funext text
        simp
      rw [order, ← Option.map_map, ih, Option.map_map]
      rfl

theorem fromUtf8_toUtf8 (text : List Char) : fromUtf8 (toUtf8 text) = some text := by
  have decoded := @List.utf8Decode?_utf8Encode text
  rw [List.utf8Encode] at decoded
  rw [fromUtf8, toUtf8, decoded]
  rfl

theorem toUtf8_of_fromUtf8 {bytes : List UInt8} (read : fromUtf8 bytes = some text) :
    toUtf8 text = bytes := by
  rw [fromUtf8, Option.map_eq_some_iff] at read
  obtain ⟨chars, decoded, rfl⟩ := read
  have valid : bytes.toByteArray.utf8Decode?.isSome := by rw [decoded]; rfl
  have encoded := @ByteArray.utf8Encode_get_utf8Decode? bytes.toByteArray valid
  simp only [decoded, Option.get_some] at encoded
  rw [List.utf8Encode] at encoded
  exact List.toByteArray_inj.mp encoded

/-- Text is split between two of its characters. -/
theorem splitAt_append (front back : List Char) :
    splitAt (size front) (front ++ back) = some (front, back) := by
  induction front with
  | nil => cases back <;> rfl
  | cons c front ih =>
      have positive := c.utf8Size_pos
      obtain ⟨mid, same⟩ : ∃ mid, size (c :: front) = mid + 1 :=
        Nat.exists_eq_succ_of_ne_zero (by rw [size_cons]; omega)
      rw [size_cons] at same
      have rest : mid + 1 - c.utf8Size = size front := by omega
      rw [size_cons, same, List.cons_append, splitAt, if_pos (by omega), rest, ih]
      rfl

theorem append_of_splitAt {mid : Nat} {parts : List Char × List Char}
    (cut : splitAt mid text = some parts) : parts.1 ++ parts.2 = text := by
  induction text generalizing mid parts with
  | nil =>
      cases mid with
      | zero =>
          obtain rfl := Option.some.inj cut
          rfl
      | succ mid => cases cut
  | cons c text ih =>
      cases mid with
      | zero =>
          obtain rfl := Option.some.inj cut
          rfl
      | succ mid =>
          rw [splitAt] at cut
          split_ifs at cut
          obtain ⟨rest, cut_rest, rfl⟩ := Option.map_eq_some_iff.mp cut
          exact congrArg (List.cons c) (ih cut_rest)

theorem size_le_of_splitAt {mid : Nat} {parts : List Char × List Char}
    (cut : splitAt mid text = some parts) : size parts.2 ≤ size text := by
  rw [← append_of_splitAt cut, size_append]
  exact Nat.le_add_left _ _

theorem Plain.utf8Size {c : Char} (plain : Plain c) : c.utf8Size = 1 := by
  rw [Char.utf8Size_eq_one_iff, UInt32.le_iff_toNat_le]
  exact Nat.le_of_lt_succ plain.2

theorem plain_of_all (all : text.all fun c => decide (Plain c)) : ∀ c ∈ text, Plain c := by
  simpa using all

theorem size_of_plain (plain : ∀ c ∈ text, Plain c) : size text = text.length := by
  induction text with
  | nil => rfl
  | cons c text ih =>
      rw [List.forall_mem_cons] at plain
      rw [size_cons, plain.1.utf8Size, ih plain.2, List.length_cons, Nat.add_comm]

theorem toUtf8_ne_zero (plain : ∀ c ∈ text, Plain c) : ∀ byte ∈ toUtf8 text, byte ≠ 0 := by
  intro byte mem
  obtain ⟨c, member, encoded⟩ := List.mem_flatMap.mp mem
  obtain ⟨positive, small⟩ := plain c member
  rw [String.utf8EncodeChar_eq_singleton (plain c member).utf8Size, List.mem_singleton] at encoded
  subst encoded
  intro zero
  have value : c.val.toUInt8.toNat = c.toNat % 256 := UInt32.toNat_toUInt8 c.val
  rw [zero] at value
  have nothing : (0 : UInt8).toNat = 0 := rfl
  omega

theorem plain_of_isDigit {c : Char} (digit : c.isDigit) : Plain c := by
  simp only [Char.isDigit, Bool.and_eq_true, decide_eq_true_eq, ge_iff_le,
    UInt32.le_iff_toNat_le] at digit
  have low : ('0').val.toNat = 48 := rfl
  have high : ('9').val.toNat = 57 := rfl
  have value : c.toNat = c.val.toNat := rfl
  rw [Plain]
  omega

end Bytes

/-! ## Spaces -/

theorem size_trim_le (space : Char → Bool) (text : List Char) :
    size (trim space text) ≤ size text := by
  apply size_le_of_sublist
  have front := List.dropWhile_sublist space (l := text)
  have back := List.dropWhile_sublist space (l := (text.dropWhile space).reverse)
  rw [trim, ← List.reverse_sublist, List.reverse_reverse]
  exact back.trans (List.reverse_sublist.mpr front)

/-- The text up to a character that is no space stays. -/
theorem trim_cons_append {space : Char → Bool} {first last : Char}
    (first_plain : space first = false) (last_plain : space last = false)
    (middle back : List Char) :
    ∃ kept, kept <+: back ∧
      trim space (first :: (middle ++ last :: back)) = first :: (middle ++ last :: kept) := by
  refine ⟨(back.reverse.dropWhile space).reverse, ?_, ?_⟩
  · rw [← List.reverse_suffix, List.reverse_reverse]
    exact List.dropWhile_suffix space
  · have whole : (first :: (middle ++ last :: back)).reverse =
        back.reverse ++ last :: (first :: middle).reverse := by simp
    rw [trim, List.dropWhile_cons_of_neg (by simp [first_plain]), whole, List.dropWhile_append]
    split
    · rename_i blank
      rw [List.dropWhile_cons_of_neg (by simp [last_plain]), List.isEmpty_iff.mp blank]
      simp
    · simp

/-! ## Matches -/

section Matches

variable {label front back text run found : List Char} {first c stop : Char}
  {member : Char → Bool} {position : Nat}

theorem matchHere_append (nonempty : run ≠ []) (members : ∀ c ∈ run, member c)
    (stops : member stop = false) (label back : List Char) :
    matchHere label member (label ++ (run ++ stop :: back)) = some (label ++ run) := by
  have ended : (run ++ stop :: back).takeWhile member = run := by
    rw [List.takeWhile_append_of_pos members, List.takeWhile_cons_of_neg (by simp [stops]),
      List.append_nil]
  rw [matchHere, if_pos (List.prefix_append _ _), List.drop_left]
  simp only [ended, if_neg nonempty]

theorem matchHere_eq_none_of_ne {second other : Char} (differs : c ≠ second) :
    matchHere (first :: second :: label) member (other :: c :: text) = none := by
  rw [matchHere, if_neg]
  intro start
  have next := (List.cons_prefix_cons.mp start).2
  exact differs (List.cons_prefix_cons.mp next).1.symm

/-- What is found is the label and characters of the class. -/
theorem exists_of_matchHere (here : matchHere label member text = some found) :
    ∃ run, found = label ++ run ∧ ∀ c ∈ run, member c := by
  rw [matchHere] at here
  dsimp only at here
  split_ifs at here
  obtain rfl := Option.some.inj here
  exact ⟨_, rfl, fun c mem => List.mem_takeWhile_imp mem⟩

theorem find_cons_of_none (none_here : matchHere label member (c :: text) = none) :
    find label member (c :: text) =
      (find label member text).map fun found => (c.utf8Size + found.1, found.2) := by
  rw [find, none_here]

theorem find_of_matchHere (nonempty : text ≠ []) (here : matchHere label member text = some found) :
    find label member text = some (size found, found) := by
  cases text with
  | nil => exact absurd rfl nonempty
  | cons c text => rw [find, here]

/-- A match begins with the first character of the label. -/
theorem find_append (absent : first ∉ front) :
    find (first :: label) member (front ++ back) =
      (find (first :: label) member back).map fun found => (size front + found.1, found.2) := by
  induction front with
  | nil => simp [size]
  | cons c front ih =>
      rw [List.mem_cons, not_or] at absent
      obtain ⟨differs, absent⟩ := absent
      have none_here : matchHere (first :: label) member (c :: (front ++ back)) = none := by
        rw [matchHere, if_neg]
        intro start
        exact differs (List.cons_prefix_cons.mp start).1
      rw [List.cons_append, find_cons_of_none none_here, ih absent, Option.map_map]
      congr 1
      funext found
      simp [size_cons, Nat.add_assoc]

/-- A first character of the label with another character behind it is passed by. -/
theorem find_pass {second : Char} (other : c ≠ second) (absent : first ∉ c :: front) :
    find (first :: second :: label) member (first :: c :: (front ++ back)) =
      (find (first :: second :: label) member back).map fun found =>
        (size (first :: c :: front) + found.1, found.2) := by
  rw [find_cons_of_none (matchHere_eq_none_of_ne other), ← List.cons_append, find_append absent,
    Option.map_map]
  congr 1
  funext found
  simp [size_cons, Nat.add_assoc]

theorem exists_of_find (matched : find label member text = some (position, found)) :
    ∃ run, found = label ++ run ∧ ∀ c ∈ run, member c := by
  induction text generalizing position with
  | nil => cases matched
  | cons c text ih =>
      rw [find] at matched
      split at matched
      · rename_i here
        obtain ⟨-, rfl⟩ := Prod.mk.inj (Option.some.inj matched)
        exact exists_of_matchHere here
      · obtain ⟨⟨before, same⟩, later, shifted⟩ := Option.map_eq_some_iff.mp matched
        obtain ⟨-, rfl⟩ := Prod.mk.inj shifted
        exact ih later

end Matches

end Text
end EScp
