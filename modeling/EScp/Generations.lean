import Mathlib.Algebra.BigOperators.Group.Finset.Basic
import Mathlib.Algebra.Order.BigOperators.Group.Finset
import Mathlib.Algebra.Order.Group.Multiset
import Mathlib.Data.Multiset.Bind

/-!
# Generations

A bag that holds some roots and the children of whatever it holds, and nothing else, is the sum of
the generations that descend from the roots, when children have a higher rank than their parents.
-/

namespace EScp

variable {Node : Type*} (children : Node → Multiset Node)

/-- The nodes after so many steps from parents to children. -/
def generation (roots : Multiset Node) : Nat → Multiset Node
  | 0 => roots
  | steps + 1 => (generation roots steps).bind children

variable {children} {roots all : Multiset Node} {rank : Node → Nat}

theorem generation_add (left right : Multiset Node) (steps : Nat) :
    generation children (left + right) steps =
      generation children left steps + generation children right steps := by
  induction steps with
  | zero => rfl
  | succ steps ih => rw [generation, ih, Multiset.add_bind, generation, generation]

theorem generation_bind (roots : Multiset Node) (steps : Nat) :
    generation children (roots.bind children) steps = generation children roots (steps + 1) := by
  induction steps with
  | zero => rfl
  | succ steps ih => rw [generation, ih, ← generation]

/-- Each step raises the rank. -/
theorem le_rank_of_mem (deeper : ∀ parent, ∀ child ∈ children parent, rank parent < rank child)
    {steps : Nat} {node : Node} (mem : node ∈ generation children roots steps) :
    steps ≤ rank node := by
  induction steps generalizing node with
  | zero => exact Nat.zero_le _
  | succ steps ih =>
      obtain ⟨parent, parent_mem, child_mem⟩ := Multiset.mem_bind.mp mem
      exact Nat.lt_of_le_of_lt (ih parent_mem) (deeper parent node child_mem)

/-- What holds the roots and all children falls into some generations and the rest. -/
theorem eq_sum_add_generation (closed : all = roots + all.bind children) (depth : Nat) :
    all = ∑ steps ∈ Finset.range depth, generation children roots steps +
      generation children all depth := by
  induction depth with
  | zero => rw [Finset.sum_range_zero, zero_add, generation]
  | succ depth ih =>
      have split_eq : generation children all depth =
          generation children roots depth + generation children all (depth + 1) := by
        rw [← generation_bind, ← generation_add, ← closed]
      rw [Finset.sum_range_succ, add_assoc, ← split_eq]
      exact ih

/-- Every generation lies in what is closed. -/
theorem generation_le (closed : all = roots + all.bind children) (depth : Nat) :
    generation children roots depth ≤ all := by
  have split_eq := eq_sum_add_generation closed (depth + 1)
  rw [Finset.sum_range_succ] at split_eq
  exact split_eq ▸ (Multiset.le_add_left _ _).trans (Multiset.le_add_right _ _)

/-- Nothing is left after enough generations. -/
theorem eq_sum_of_closed (deeper : ∀ parent, ∀ child ∈ children parent, rank parent < rank child)
    (closed : all = roots + all.bind children) :
    ∃ depth, generation children roots depth = 0 ∧
      all = ∑ steps ∈ Finset.range depth, generation children roots steps := by
  obtain ⟨depth, above⟩ : ∃ depth, ∀ node ∈ all, rank node < depth := by
    refine ⟨(all.map rank).sum + 1, fun node mem => Nat.lt_succ_of_le ?_⟩
    exact Multiset.le_sum_of_mem (Multiset.mem_map_of_mem rank mem)
  have split_eq := eq_sum_add_generation closed depth
  have rest : generation children all depth = 0 := by
    refine Multiset.eq_zero_of_forall_notMem fun node mem => ?_
    have within : node ∈ all := by
      rw [split_eq]
      exact Multiset.mem_add.mpr (.inr mem)
    exact absurd (le_rank_of_mem deeper mem) (Nat.not_le.mpr (above node within))
  have apart : generation children all depth = generation children roots depth +
      generation children (all.bind children) depth := by
    rw [← generation_add, ← closed]
  rw [rest] at split_eq apart
  exact ⟨depth, (add_eq_zero.mp apart.symm).1, split_eq.trans (add_zero _)⟩

end EScp
