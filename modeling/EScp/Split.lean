import Mathlib.Data.List.DropRight

/-!
# Splitting at a delimiter

A list is split at the first or at the last place where a delimiter stands, as `str::split_once` and
`str::rsplit_once` do it.  What stands around that place determines the result.
-/

namespace EScp
namespace Split

variable {α : Type*} [DecidableEq α]

/-- Split at the first delimiter. -/
def splitOnce (delimiter : α) : List α → Option (List α × List α)
  | [] => none
  | first :: rest =>
      if first = delimiter then some ([], rest)
      else (splitOnce delimiter rest).map fun (before, after) => (first :: before, after)

/-- Split at the last delimiter. -/
def rsplitOnce (delimiter : α) : List α → Option (List α × List α)
  | [] => none
  | first :: rest =>
      match rsplitOnce delimiter rest with
      | some (before, after) => some (first :: before, after)
      | none => if first = delimiter then some ([], rest) else none

/-- What follows a prefix of one element. -/
def stripPrefix (first : α) : List α → Option (List α)
  | [] => none
  | other :: rest => if other = first then some rest else none

variable {delimiter : α} {whole before after front : List α}

theorem stripPrefix_eq_some_iff :
    stripPrefix delimiter whole = some after ↔ whole = delimiter :: after := by
  cases whole with
  | nil => simp [stripPrefix]
  | cons first rest => simp [stripPrefix]

@[simp] theorem splitOnce_eq_none_iff : splitOnce delimiter whole = none ↔ delimiter ∉ whole := by
  induction whole with
  | nil => simp [splitOnce]
  | cons first rest ih =>
      rw [splitOnce]
      split
      · rename_i same
        simp [same]
      · rename_i other
        rw [Option.map_eq_none_iff, ih, List.mem_cons, not_or]
        exact (and_iff_right (Ne.symm other)).symm

theorem splitOnce_append (apart : delimiter ∉ before) :
    splitOnce delimiter (before ++ delimiter :: after) = some (before, after) := by
  induction before with
  | nil => simp [splitOnce]
  | cons first before ih =>
      obtain ⟨other, apart⟩ := not_or.mp (mt List.mem_cons.mpr apart)
      rw [List.cons_append, splitOnce, if_neg (Ne.symm other), ih apart]
      rfl

theorem splitOnce_eq_some_iff :
    splitOnce delimiter whole = some (before, after) ↔
      whole = before ++ delimiter :: after ∧ delimiter ∉ before := by
  constructor
  · intro split
    induction whole generalizing before with
    | nil => cases split
    | cons first rest ih =>
        rw [splitOnce] at split
        split at split
        · rename_i same
          obtain ⟨rfl, rfl⟩ := Prod.mk.inj (Option.some.inj split)
          exact ⟨by rw [same]; rfl, List.not_mem_nil⟩
        · rename_i other
          obtain ⟨⟨left, right⟩, inner, same⟩ := Option.map_eq_some_iff.mp split
          obtain ⟨rfl, rfl⟩ := Prod.mk.inj same
          obtain ⟨rfl, apart⟩ := ih inner
          exact ⟨rfl, fun mem => (List.mem_cons.mp mem).elim (Ne.symm other) apart⟩
  · rintro ⟨rfl, apart⟩
    exact splitOnce_append apart

@[simp] theorem rsplitOnce_eq_none_iff :
    rsplitOnce delimiter whole = none ↔ delimiter ∉ whole := by
  induction whole with
  | nil => simp [rsplitOnce]
  | cons first rest ih =>
      rw [rsplitOnce, List.mem_cons, not_or, ← ih]
      cases inner : rsplitOnce delimiter rest with
      | some parts => simp
      | none =>
          dsimp only
          split
          · rename_i same
            simp [same]
          · rename_i other
            simp [Ne.symm other]

theorem rsplitOnce_append (apart : delimiter ∉ after) :
    rsplitOnce delimiter (before ++ delimiter :: after) = some (before, after) := by
  induction before with
  | nil => simp [rsplitOnce, rsplitOnce_eq_none_iff.mpr apart]
  | cons first before ih => rw [List.cons_append, rsplitOnce, ih]

theorem rsplitOnce_eq_some_iff :
    rsplitOnce delimiter whole = some (before, after) ↔
      whole = before ++ delimiter :: after ∧ delimiter ∉ after := by
  constructor
  · intro split
    induction whole generalizing before with
    | nil => cases split
    | cons first rest ih =>
        rw [rsplitOnce] at split
        split at split
        · rename_i left right inner
          obtain ⟨rfl, rfl⟩ := Prod.mk.inj (Option.some.inj split)
          obtain ⟨rfl, apart⟩ := ih inner
          exact ⟨rfl, apart⟩
        · rename_i inner
          split at split
          · rename_i same
            obtain ⟨rfl, rfl⟩ := Prod.mk.inj (Option.some.inj split)
            exact ⟨by rw [same]; rfl, rsplitOnce_eq_none_iff.mp inner⟩
          · cases split
  · rintro ⟨rfl, apart⟩
    exact rsplitOnce_append apart

/-- There is only one last delimiter. -/
theorem rsplit_unique {left right : List α} (apart : delimiter ∉ after) (other : delimiter ∉ right)
    (same : before ++ delimiter :: after = left ++ delimiter :: right) :
    before = left ∧ after = right := by
  have parts : rsplitOnce delimiter (before ++ delimiter :: after) = some (before, after) :=
    rsplitOnce_append apart
  rw [same, rsplitOnce_append other] at parts
  obtain ⟨rfl, rfl⟩ := Prod.mk.inj (Option.some.inj parts)
  exact ⟨rfl, rfl⟩

theorem takeWhile_ne_append (apart : delimiter ∉ before) :
    ((before ++ delimiter :: after).takeWhile fun c => c ≠ delimiter) = before := by
  rw [List.takeWhile_append_of_pos, List.takeWhile_cons_of_neg (by simp), List.append_nil]
  intro c mem
  exact decide_eq_true fun same => apart (same ▸ mem)

theorem rtakeWhile_ne_append (apart : delimiter ∉ after) :
    ((before ++ delimiter :: after).rtakeWhile fun c => c ≠ delimiter) = after := by
  have turned : (before ++ delimiter :: after).reverse =
      after.reverse ++ delimiter :: before.reverse := by simp
  rw [List.rtakeWhile, turned, takeWhile_ne_append (mt List.mem_reverse.mp apart),
    List.reverse_reverse]

theorem exists_rsplitOnce (mem : delimiter ∈ whole) :
    ∃ before after, rsplitOnce delimiter whole = some (before, after) := by
  cases parts : rsplitOnce delimiter whole with
  | some found => exact ⟨found.1, found.2, rfl⟩
  | none => exact absurd mem (rsplitOnce_eq_none_iff.mp parts)

/-- What stands in front of the last delimiter does not change the split. -/
theorem rsplitOnce_append_left (parts : rsplitOnce delimiter whole = some (before, after)) :
    rsplitOnce delimiter (front ++ whole) = some (front ++ before, after) := by
  obtain ⟨rfl, apart⟩ := rsplitOnce_eq_some_iff.mp parts
  rw [← List.append_assoc]
  exact rsplitOnce_append apart

end Split
end EScp
