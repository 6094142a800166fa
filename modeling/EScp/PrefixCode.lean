import Mathlib.Algebra.BigOperators.Group.List.Basic
import Mathlib.Algebra.Order.Ring.Nat
import Mathlib.Logic.Function.Basic

/-!
# Prefix codes

Values are encoded as bytes so that they can be read again, whatever follows them.  The codes are
closed under pairs and lists.
-/

namespace EScp
namespace PrefixCode

variable {α β : Type*}

/-- An encoding ends where its value says. -/
def PrefixFree (encode : α → List UInt8) : Prop :=
  ∀ left right rest other, encode left ++ rest = encode right ++ other →
    left = right ∧ rest = other

/-- The items, each behind a one, and a zero. -/
def encodeList (encode : α → List UInt8) (items : List α) : List UInt8 :=
  items.flatMap (fun item => 1 :: encode item) ++ [0]

open Classical in
/-- The value whose encoding the bytes begin with. -/
noncomputable def read (encode : α → List UInt8) (bytes : List UInt8) : Option α :=
  if found : ∃ value rest, bytes = encode value ++ rest then some found.choose else none

variable {encode : α → List UInt8}

theorem PrefixFree.read_append (free : PrefixFree encode) (value : α) (rest : List UInt8) :
    read encode (encode value ++ rest) = some value := by
  have found : ∃ other left, encode value ++ rest = encode other ++ left := ⟨value, rest, rfl⟩
  obtain ⟨left, same⟩ := found.choose_spec
  rw [read, dif_pos found]
  exact congrArg some (free _ _ _ _ same).1.symm

theorem PrefixFree.of_length (injective : encode.Injective)
    (length : ∀ left right, (encode left).length = (encode right).length) :
    PrefixFree encode := by
  intro left right rest other same
  obtain ⟨front, back⟩ := List.append_inj same (length left right)
  exact ⟨injective front, back⟩

theorem PrefixFree.comp (free : PrefixFree encode) {part : β → α} (injective : part.Injective) :
    PrefixFree fun value => encode (part value) := by
  intro left right rest other same
  obtain ⟨front, back⟩ := free _ _ _ _ same
  exact ⟨injective front, back⟩

theorem PrefixFree.prod (free : PrefixFree encode) {code : β → List UInt8}
    (second : PrefixFree code) :
    PrefixFree fun pair : α × β => encode pair.1 ++ code pair.2 := by
  intro left right rest other same
  rw [List.append_assoc, List.append_assoc] at same
  obtain ⟨first_same, same⟩ := free _ _ _ _ same
  obtain ⟨second_same, same⟩ := second _ _ _ _ same
  exact ⟨Prod.ext first_same second_same, same⟩

theorem encodeList_cons (item : α) (items : List α) (rest : List UInt8) :
    encodeList encode (item :: items) ++ rest =
      1 :: (encode item ++ (encodeList encode items ++ rest)) := by
  simp [encodeList]

theorem PrefixFree.list (free : PrefixFree encode) : PrefixFree (encodeList encode) := by
  intro left
  induction left with
  | nil =>
      intro right rest other same
      cases right with
      | nil => exact ⟨rfl, by simpa [encodeList] using same⟩
      | cons item right => simp [encodeList] at same
  | cons item left ih =>
      intro right rest other same
      cases right with
      | nil => simp [encodeList] at same
      | cons head right =>
          rw [encodeList_cons, encodeList_cons, List.cons.injEq] at same
          obtain ⟨same_item, same⟩ := free _ _ _ _ same.2
          obtain ⟨same_items, same⟩ := ih _ _ _ same
          exact ⟨by rw [same_item, same_items], same⟩

/-- A list is as long as the weights of its items allow. -/
theorem length_encodeList_le {weight : α → Nat} {items : List α}
    (bound : ∀ item ∈ items, (encode item).length < weight item) :
    (encodeList encode items).length ≤ (items.map weight).sum + 1 := by
  induction items with
  | nil => simp [encodeList]
  | cons item items ih =>
      rw [List.forall_mem_cons] at bound
      have shape := congrArg List.length (@encodeList_cons α encode item items [])
      have rest := ih bound.2
      have first := bound.1
      simp only [List.length_append, List.length_cons, List.length_nil] at shape
      rw [List.map_cons, List.sum_cons]
      omega

end PrefixCode
end EScp
