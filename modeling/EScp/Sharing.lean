import Mathlib.Data.List.Nodup
import Mathlib.Data.List.Perm.Basic

/-!
# Items shared out

Items are shared out among lanes by a key, each lane keeps its own in some order, and in the end the
lanes are put together again.  Nothing is lost on the way, and nothing comes twice.
-/

namespace EScp

variable {Item Lane : Type*} [DecidableEq Lane]

/-- The lanes together have the items whose lane is among them. -/
theorem perm_flatMap_filter (lane : Item → Lane) (items : List Item) {lanes : List Lane}
    (nodup : lanes.Nodup) :
    (lanes.flatMap fun own => items.filter (lane · = own)).Perm
      (items.filter (lane · ∈ lanes)) := by
  induction lanes with
  | nil => simp
  | cons first lanes ih =>
      obtain ⟨fresh, nodup⟩ := List.nodup_cons.mp nodup
      have split := List.filter_append_perm (fun item => decide (lane item = first))
        (items.filter (lane · ∈ first :: lanes))
      rw [List.filter_filter, List.filter_filter] at split
      have own : items.filter (fun item => decide (lane item = first) &&
          decide (lane item ∈ first :: lanes)) = items.filter (lane · = first) := by
        refine List.filter_congr fun item _ => ?_
        by_cases here : lane item = first <;> simp [here]
      have others : items.filter (fun item => !decide (lane item = first) &&
          decide (lane item ∈ first :: lanes)) = items.filter (lane · ∈ lanes) := by
        refine List.filter_congr fun item _ => ?_
        by_cases here : lane item = first <;> simp [here, fresh]
      rw [own, others] at split
      rw [List.flatMap_cons]
      exact ((ih nodup).append_left _).trans split

/-- When every item has a lane, the lanes together have all items. -/
theorem perm_flatMap_filter_self (lane : Item → Lane) {items : List Item} {lanes : List Lane}
    (nodup : lanes.Nodup) (within : ∀ item ∈ items, lane item ∈ lanes) :
    (lanes.flatMap fun own => items.filter (lane · = own)).Perm items := by
  have all : items.filter (lane · ∈ lanes) = items :=
    List.filter_eq_self.mpr fun item mem => decide_eq_true (within item mem)
  exact (perm_flatMap_filter lane items nodup).trans (.of_eq all)

omit [DecidableEq Lane] in
/-- Of the lanes together, a property of the items of one lane leaves that lane. -/
theorem filter_flatMap_eq (property : Item → Bool) (items : Lane → List Item) {lanes : List Lane}
    (nodup : lanes.Nodup) {own : Lane} (mem : own ∈ lanes)
    (inside : ∀ item ∈ items own, property item)
    (outside : ∀ other ≠ own, ∀ item ∈ items other, ¬property item) :
    (lanes.flatMap items).filter property = items own := by
  have none_of (others : List Lane) (absent : own ∉ others) :
      (others.flatMap items).filter property = [] := by
    refine List.filter_eq_nil_iff.mpr fun item listed => ?_
    obtain ⟨other, other_mem, item_mem⟩ := List.mem_flatMap.mp listed
    exact outside other (fun same => absent (same ▸ other_mem)) item item_mem
  induction lanes with
  | nil => cases mem
  | cons first lanes ih =>
      obtain ⟨fresh, nodup⟩ := List.nodup_cons.mp nodup
      rw [List.flatMap_cons, List.filter_append]
      rcases List.mem_cons.mp mem with rfl | later
      · rw [none_of lanes fresh, List.append_nil]
        exact List.filter_eq_self.mpr inside
      · have other : first ≠ own := fun same => fresh (same ▸ later)
        have dropped : (items first).filter property = [] :=
          List.filter_eq_nil_iff.mpr (outside first other)
        rw [dropped, List.nil_append]
        exact ih nodup later

end EScp
