import EScp.Residue
import Mathlib.Logic.Function.Basic

/-!
# Windows of a cyclic counter

A counter that is set to a number and then incremented before each use hands out the numbers of a
window, reduced modulo its period.  Numbers handed out by several windows are all different
exactly when no window is longer than the period and no two windows overlap on the circle.
-/

namespace EScp

/-- The uses of a counter of period `size` since it was last set. -/
structure Window (size : Nat) where
  /-- The number the counter was set to. -/
  first : Nat
  /-- How often it has been incremented since. -/
  count : Nat
  inside : first < size

namespace Window

variable {size : Nat}

/-- The numbers handed out by a window, oldest first. -/
def values (window : Window size) : List Nat :=
  (List.range window.count).map fun index => (window.first + 1 + index) % size

/-- The number handed out last, the one the counter holds. -/
def last (window : Window size) : Nat := (window.first + window.count) % size

/-- The window after one more use. -/
def extend (window : Window size) : Window size := { window with count := window.count + 1 }

/-- How many steps lead from the number `left` was set to up to the one `right` was set to. -/
def ahead (left right : Window size) : Nat := (right.first + (size - left.first)) % size

/-- The windows do not overlap: one of them is unused, or each ends before the other begins. -/
def Apart (left right : Window size) : Prop :=
  left.count = 0 ∨ right.count = 0 ∨
    (left.count ≤ left.ahead right ∧ right.count ≤ right.ahead left)

instance (left right : Window size) : Decidable (left.Apart right) := by
  unfold Apart
  infer_instance

@[simp] theorem extend_first (window : Window size) : window.extend.first = window.first := rfl

@[simp] theorem extend_count (window : Window size) : window.extend.count = window.count + 1 := rfl

theorem values_extend (window : Window size) :
    window.extend.values = window.values ++ [window.extend.last] := by
  simp only [values, extend_count, extend_first, List.range_succ, List.map_append, List.map_cons,
    List.map_nil, last]
  rw [Nat.add_right_comm]
  rfl

theorem last_extend (window : Window size) :
    window.extend.last = (window.last + 1) % size := by
  simp [last, Nat.add_assoc]

theorem last_of_unused {window : Window size} (unused : window.count = 0) :
    window.last = window.first := by
  rw [last, unused, Nat.add_zero, Nat.mod_eq_of_lt window.inside]

theorem mem_values {window : Window size} {value : Nat} :
    value ∈ window.values ↔
      ∃ index < window.count, (window.first + 1 + index) % size = value := by
  simp [values]

theorem lt_of_mem_values {window : Window size} {value : Nat} (mem : value ∈ window.values) :
    value < size := by
  obtain ⟨index, -, rfl⟩ := mem_values.mp mem
  exact Nat.mod_lt _ (Nat.zero_lt_of_lt window.inside)

/-- A window repeats itself exactly when it is longer than the period. -/
theorem nodup_values_iff (window : Window size) :
    window.values.Nodup ↔ window.count ≤ size := by
  have positive : 0 < size := Nat.zero_lt_of_lt window.inside
  constructor
  · intro nodup
    by_contra longer
    have repeats := List.inj_on_of_nodup_map nodup (x := 0) (y := size)
      (List.mem_range.mpr (by omega)) (List.mem_range.mpr (by omega)) (by simp)
    omega
  · intro short
    refine List.Nodup.map_on ?_ List.nodup_range
    intro i i_mem j j_mem same
    have i_low := List.mem_range.mp i_mem
    have j_low := List.mem_range.mp j_mem
    have := @eq_of_window size (window.first + 1) _ _ (by omega) (by omega) (by omega) (by omega)
      same
    omega

theorem ahead_spec (left right : Window size) :
    left.first + left.ahead right = right.first ∨
      left.first + left.ahead right = right.first + size := by
  have left_inside := left.inside
  have right_inside := right.inside
  rw [ahead]
  by_cases after : left.first ≤ right.first
  · left
    rw [show right.first + (size - left.first) = right.first - left.first + size by omega,
      Nat.add_mod_right, Nat.mod_eq_of_lt (by omega)]
    omega
  · right
    rw [Nat.mod_eq_of_lt (by omega)]
    omega

theorem ahead_lt (left right : Window size) : left.ahead right < size :=
  Nat.mod_lt _ (Nat.zero_lt_of_lt left.inside)

/-- A used window that reaches past the beginning of a used window shares its first number. -/
theorem not_disjoint_of_reaches {left right : Window size} (used : 0 < right.count)
    (reaches : left.ahead right < left.count) : ¬left.values.Disjoint right.values := by
  intro disjoint
  refine disjoint (mem_values.mpr ⟨left.ahead right, reaches, rfl⟩)
    (mem_values.mpr ⟨0, used, ?_⟩)
  rcases left.ahead_spec right with same | lap
  · rw [← same]
    congr 1
    omega
  · rw [show left.first + 1 + left.ahead right = right.first + 1 + 0 + size by omega,
      Nat.add_mod_right]

/-- Two windows share no number exactly when they do not overlap. -/
theorem disjoint_values_iff (left right : Window size) :
    left.values.Disjoint right.values ↔ left.Apart right := by
  constructor
  · intro disjoint
    by_contra overlap
    simp only [Apart, not_or, not_and_or, Nat.not_le] at overlap
    obtain ⟨left_used, right_used, left_reaches | right_reaches⟩ := overlap
    · exact not_disjoint_of_reaches (Nat.pos_of_ne_zero right_used) left_reaches disjoint
    · exact not_disjoint_of_reaches (Nat.pos_of_ne_zero left_used) right_reaches disjoint.symm
  · rintro (unused | unused | ⟨left_ends, right_ends⟩) value left_mem right_mem
    · obtain ⟨index, low, -⟩ := mem_values.mp left_mem
      omega
    · obtain ⟨index, low, -⟩ := mem_values.mp right_mem
      omega
    · obtain ⟨i, i_low, left_eq⟩ := mem_values.mp left_mem
      obtain ⟨j, j_low, right_eq⟩ := mem_values.mp right_mem
      have left_inside := left.inside
      have right_inside := right.inside
      have there := left.ahead_spec right
      have back := right.ahead_spec left
      have there_low := left.ahead_lt right
      have back_low := right.ahead_lt left
      -- Seen from `left`, the number `j` of `right` is the number `ahead + j` of `left`.
      have shifted : (left.first + 1 + i) % size =
          (left.first + 1 + (left.ahead right + j)) % size := by
        rw [left_eq, ← right_eq]
        rcases there with same | lap
        · congr 1
          omega
        · rw [show left.first + 1 + (left.ahead right + j) = right.first + 1 + j + size by omega,
            Nat.add_mod_right]
      have := @eq_of_window size (left.first + 1) _ _ (by omega) (by omega) (by omega) (by omega)
        shifted
      omega

/-- The numbers handed out by several windows are all different exactly when each window fits the
period and no two overlap. -/
theorem nodup_flatMap_values_iff (windows : List (Window size)) :
    (windows.flatMap values).Nodup ↔
      (∀ window ∈ windows, window.count ≤ size) ∧ windows.Pairwise Apart := by
  rw [List.nodup_flatMap]
  have overlap : Function.onFun List.Disjoint (@values size) = Apart := by
    funext left right
    exact propext (disjoint_values_iff left right)
  simp only [nodup_values_iff, overlap]

theorem Apart.of_extend {left right : Window size} (apart : left.extend.Apart right) :
    left.Apart right := by
  rcases apart with unused | unused | ⟨left_ends, right_ends⟩
  · simp at unused
  · exact Or.inr (Or.inl unused)
  · refine Or.inr (Or.inr ⟨?_, right_ends⟩)
    rw [extend_count] at left_ends
    exact Nat.le_of_succ_le left_ends

end Window

/-! ## Several counters -/

/-- The windows of the counters of `sources`: one in use for each, and those left behind when a
counter was set again. -/
structure Ledger (Source : Type*) (size : Nat) where
  current : Source → Window size
  closed : List (Window size)

namespace Ledger

variable {Source : Type*} [DecidableEq Source] {size : Nat} {sources : List Source}

/-- Leave the window of `source` behind and begin another one. -/
def restart (ledger : Ledger Source size) (source : Source) (window : Window size) :
    Ledger Source size where
  current := Function.update ledger.current source window
  closed := ledger.current source :: ledger.closed

/-- Use the counter of `source` once more. -/
def extend (ledger : Ledger Source size) (source : Source) : Ledger Source size :=
  { ledger with
    current := Function.update ledger.current source (ledger.current source).extend }

/-- The windows other than the one in use by `source`. -/
def others (sources : List Source) (ledger : Ledger Source size) (source : Source) :
    List (Window size) :=
  (sources.erase source).map ledger.current ++ ledger.closed

/-- All windows. -/
def windows (sources : List Source) (ledger : Ledger Source size) : List (Window size) :=
  sources.map ledger.current ++ ledger.closed

/-- All numbers handed out. -/
def values (sources : List Source) (ledger : Ledger Source size) : List Nat :=
  (ledger.windows sources).flatMap Window.values

/-- One more use by `source` stays within the period and clear of the other windows. -/
def Fits (sources : List Source) (ledger : Ledger Source size) (source : Source) : Prop :=
  (ledger.current source).extend.count ≤ size ∧
    ∀ window ∈ ledger.others sources source, (ledger.current source).extend.Apart window

instance (ledger : Ledger Source size) (source : Source) :
    Decidable (ledger.Fits sources source) := by
  unfold Fits
  infer_instance

theorem windows_perm (ledger : Ledger Source size) {source : Source} (mem : source ∈ sources) :
    (ledger.windows sources).Perm (ledger.current source :: ledger.others sources source) := by
  have split := (List.perm_cons_erase mem).map ledger.current
  exact split.append_right ledger.closed

theorem map_update_erase (nodup : sources.Nodup) (current : Source → Window size)
    (source : Source) (window : Window size) :
    (sources.erase source).map (Function.update current source window) =
      (sources.erase source).map current := by
  apply List.map_congr_left
  intro other mem
  exact Function.update_of_ne (nodup.mem_erase_iff.mp mem).1 _ _

theorem windows_extend (nodup : sources.Nodup) (ledger : Ledger Source size) {source : Source}
    (mem : source ∈ sources) :
    ((ledger.extend source).windows sources).Perm
      ((ledger.current source).extend :: ledger.others sources source) := by
  have split := (ledger.extend source).windows_perm mem
  simpa only [extend, others, Function.update_self, map_update_erase nodup] using split

/-- One more use hands out the number the counter holds then. -/
theorem values_extend (nodup : sources.Nodup) (ledger : Ledger Source size) {source : Source}
    (mem : source ∈ sources) :
    ((ledger.extend source).values sources).Perm
      (ledger.values sources ++ [(ledger.current source).extend.last]) := by
  have grown := (windows_extend nodup ledger mem).flatMap_right Window.values
  have before := (ledger.windows_perm mem).flatMap_right Window.values
  rw [List.flatMap_cons, Window.values_extend] at grown
  rw [List.flatMap_cons] at before
  refine grown.trans (List.Perm.trans ?_ (before.symm.append_right _))
  rw [List.append_assoc, List.append_assoc]
  exact List.perm_append_comm.append_left _

/-- Setting a counter hands out nothing. -/
theorem values_restart (nodup : sources.Nodup) (ledger : Ledger Source size) {source : Source}
    (mem : source ∈ sources) (window : Window size) (unused : window.count = 0) :
    ((ledger.restart source window).values sources).Perm (ledger.values sources) := by
  have set := ((ledger.restart source window).windows_perm mem).flatMap_right Window.values
  have before := (ledger.windows_perm mem).flatMap_right Window.values
  have empty : window.values = [] := by simp [Window.values, unused]
  simp only [restart, others, Function.update_self, map_update_erase nodup, List.flatMap_cons,
    List.flatMap_append, empty, List.nil_append] at set
  refine set.trans (List.Perm.trans ?_ before.symm)
  simp only [others, List.flatMap_cons, List.flatMap_append, ← List.append_assoc]
  exact List.perm_append_comm.append_right _

/-- All numbers stay different exactly when the new use fits. -/
theorem nodup_extend_iff (nodup : sources.Nodup) (ledger : Ledger Source size) {source : Source}
    (mem : source ∈ sources) :
    ((ledger.extend source).values sources).Nodup ↔
      (ledger.values sources).Nodup ∧ ledger.Fits sources source := by
  have grown := (windows_extend nodup ledger mem).flatMap_right Window.values
  have before := (ledger.windows_perm mem).flatMap_right Window.values
  rw [values, grown.nodup_iff, values, before.nodup_iff, Window.nodup_flatMap_values_iff,
    Window.nodup_flatMap_values_iff, List.forall_mem_cons, List.forall_mem_cons,
    List.pairwise_cons, List.pairwise_cons, Fits]
  constructor
  · rintro ⟨⟨short, shorts⟩, apart, aparts⟩
    rw [Window.extend_count] at short
    exact ⟨⟨⟨by omega, shorts⟩, fun window other => (apart window other).of_extend, aparts⟩,
      short, apart⟩
  · rintro ⟨⟨⟨-, shorts⟩, -, aparts⟩, short, apart⟩
    exact ⟨⟨short, shorts⟩, apart, aparts⟩

end Ledger
end EScp
