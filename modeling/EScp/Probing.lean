import Mathlib.Logic.Function.Basic

/-!
# Open addressing

Each key has a chain of slots.  An entry is put in the first vacant slot of the chain of its key,
and it is sought in the whole chain: a search goes on over vacant slots, so that an entry can be
erased without a mark in its place.
-/

namespace EScp
namespace Probing

variable {Key Entry Slot : Type*}

/-- What each slot holds. -/
abbrev Table (Entry Slot : Type*) := Slot → Option Entry

section

variable [DecidableEq Key] (key : Entry → Key) (chain : Key → List Slot)

/-- The first slot of the chain whose entry has the key. -/
def lookup (table : Table Entry Slot) (sought : Key) : Option Slot :=
  (chain sought).find? fun slot => decide ((table slot).map key = some sought)

/-- The first vacant slot of the chain. -/
def vacancy (chain : Key → List Slot) (table : Table Entry Slot) (sought : Key) : Option Slot :=
  (chain sought).find? fun slot => (table slot).isNone

/-- Each entry lies on the chain of its key, and no two entries have the same key. -/
structure WellFormed (table : Table Entry Slot) : Prop where
  onChain : ∀ slot entry, table slot = some entry → slot ∈ chain (key entry)
  unique : ∀ left right first second, table left = some first → table right = some second →
    key first = key second → left = right

end

variable {key : Entry → Key} {chain : Key → List Slot} {table : Table Entry Slot} {slot : Slot}
  {entry : Entry}

theorem wellFormed_empty : WellFormed key chain (fun _ : Slot => (none : Option Entry)) where
  onChain _ _ held := nomatch held
  unique _ _ _ _ held := nomatch held

section Lookup

variable [DecidableEq Key] {sought : Key}

/-- A search finds an entry exactly where it is. -/
theorem WellFormed.lookup_eq_some_iff (wellFormed : WellFormed key chain table) :
    lookup key chain table sought = some slot ↔
      ∃ entry, table slot = some entry ∧ key entry = sought := by
  constructor
  · intro found
    have tested := List.find?_some found
    have hit := of_decide_eq_true tested
    exact Option.map_eq_some_iff.mp hit
  · rintro ⟨entry, held, rfl⟩
    have hit : (lookup key chain table (key entry)).isSome := by
      rw [lookup, List.find?_isSome]
      refine ⟨slot, wellFormed.onChain slot entry held, ?_⟩
      rw [held]
      exact decide_eq_true rfl
    obtain ⟨other, found⟩ := Option.isSome_iff_exists.mp hit
    have tested := List.find?_some found
    have same := of_decide_eq_true tested
    obtain ⟨present, at_other, same_key⟩ := Option.map_eq_some_iff.mp same
    rw [found, wellFormed.unique other slot present entry at_other held same_key]

end Lookup

theorem vacancy_eq_none_iff {sought : Key} :
    vacancy chain table sought = none ↔
      ∀ slot ∈ chain sought, ∃ entry, table slot = some entry := by
  rw [vacancy, List.find?_eq_none]
  simp [Option.ne_none_iff_exists']

theorem none_of_vacancy {sought : Key} (vacant : vacancy chain table sought = some slot) :
    table slot = none := by
  have tested := List.find?_some vacant
  exact Option.isNone_iff_eq_none.mp tested

variable [DecidableEq Slot]

/-- An entry with a new key is put in the first vacant slot. -/
theorem WellFormed.insert (wellFormed : WellFormed key chain table)
    (vacant : vacancy chain table (key entry) = some slot)
    (fresh : ∀ slot other, table slot = some other → key other ≠ key entry) :
    WellFormed key chain (Function.update table slot (some entry)) := by
  constructor
  · intro place held at_place
    by_cases same : place = slot
    · subst same
      obtain rfl : entry = held := by simpa using at_place
      exact List.mem_of_find?_eq_some vacant
    · rw [Function.update_of_ne same] at at_place
      exact wellFormed.onChain place held at_place
  · intro left right first second at_left at_right same_key
    by_cases same_left : left = slot
    · by_cases same_right : right = slot
      · exact same_left.trans same_right.symm
      · rw [Function.update_of_ne same_right] at at_right
        obtain rfl : entry = first := by simpa [same_left] using at_left
        exact absurd same_key.symm (fresh right second at_right)
    · rw [Function.update_of_ne same_left] at at_left
      by_cases same_right : right = slot
      · obtain rfl : entry = second := by simpa [same_right] using at_right
        exact absurd same_key (fresh left first at_left)
      · rw [Function.update_of_ne same_right] at at_right
        exact wellFormed.unique left right first second at_left at_right same_key

/-- An entry gives way to another with its key. -/
theorem WellFormed.replace (wellFormed : WellFormed key chain table) {old : Entry}
    (held : table slot = some old) (same_key : key entry = key old) :
    WellFormed key chain (Function.update table slot (some entry)) := by
  have before : ∀ place present, Function.update table slot (some entry) place = some present →
      ∃ earlier, table place = some earlier ∧ key earlier = key present := by
    intro place present at_place
    by_cases same : place = slot
    · subst same
      obtain rfl : entry = present := by simpa using at_place
      exact ⟨old, held, same_key.symm⟩
    · rw [Function.update_of_ne same] at at_place
      exact ⟨present, at_place, rfl⟩
  constructor
  · intro place present at_place
    obtain ⟨earlier, at_earlier, same⟩ := before place present at_place
    exact same ▸ wellFormed.onChain place earlier at_earlier
  · intro left right first second at_left at_right same
    obtain ⟨earlier, at_earlier, same_first⟩ := before left first at_left
    obtain ⟨later, at_later, same_second⟩ := before right second at_right
    exact wellFormed.unique left right earlier later at_earlier at_later
      (same_first.trans (same.trans same_second.symm))

/-- An entry is erased. -/
theorem WellFormed.erase (wellFormed : WellFormed key chain table) (slot : Slot) :
    WellFormed key chain (Function.update table slot none) := by
  have before : ∀ place present, Function.update table slot none place = some present →
      table place = some present := by
    intro place present at_place
    by_cases same : place = slot
    · rw [same, Function.update_self] at at_place
      cases at_place
    · rwa [Function.update_of_ne same] at at_place
  constructor
  · intro place present at_place
    exact wellFormed.onChain place present (before place present at_place)
  · intro left right first second at_left at_right same
    exact wellFormed.unique left right first second (before left first at_left)
      (before right second at_right) same

end Probing
end EScp
