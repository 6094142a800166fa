import Mathlib.Data.Fintype.Card
import Mathlib.Logic.Function.Basic

/-!
# Numbers from a shared counter

Each thread takes a number at most once, by an atomic increment of a counter that begins at zero.
The numbers that have been taken are those below the counter, each by one thread.
-/

namespace EScp

variable {Thread : Type*}

/-- The numbers below the counter have been taken, each by one thread. -/
structure Tickets (number : Thread → Option Nat) (count : Nat) : Prop where
  below : ∀ thread value, number thread = some value → value < count
  distinct : ∀ left right value, number left = some value → number right = some value →
    left = right
  each : ∀ value < count, ∃ thread, number thread = some value

namespace Tickets

variable {number after : Thread → Option Nat} {count : Nat} {thread : Thread}

theorem init : Tickets (fun _ : Thread => none) 0 where
  below _ _ taken := by cases taken
  distinct _ _ _ taken := by cases taken
  each _ less := absurd less (Nat.not_lt_zero _)

/-- A thread takes the next number. -/
theorem take (tickets : Tickets number count) (thread : Thread) (none : number thread = none)
    (own : after thread = some count) (others : ∀ other ≠ thread, after other = number other) :
    Tickets after (count + 1) where
  below other value taken := by
    by_cases same : other = thread
    · rw [same, own] at taken
      obtain rfl := Option.some.inj taken
      exact Nat.lt_succ_self count
    · rw [others other same] at taken
      exact Nat.lt_succ_of_lt (tickets.below other value taken)
  distinct left right value at_left at_right := by
    by_cases left_own : left = thread <;> by_cases right_own : right = thread
    · rw [left_own, right_own]
    · rw [left_own, own] at at_left
      rw [others right right_own, ← Option.some.inj at_left] at at_right
      exact absurd (tickets.below right count at_right) (lt_irrefl _)
    · rw [right_own, own] at at_right
      rw [others left left_own, ← Option.some.inj at_right] at at_left
      exact absurd (tickets.below left count at_left) (lt_irrefl _)
    · rw [others left left_own] at at_left
      rw [others right right_own] at at_right
      exact tickets.distinct left right value at_left at_right
  each value less := by
    rcases Nat.lt_succ_iff_lt_or_eq.mp less with smaller | rfl
    · obtain ⟨other, taken⟩ := tickets.each value smaller
      refine ⟨other, ?_⟩
      rw [others other, taken]
      rintro rfl
      rw [none] at taken
      cases taken
    · exact ⟨thread, own⟩

variable [Fintype Thread]

/-- There are no more numbers than threads. -/
theorem le_card (tickets : Tickets number count) : count ≤ Fintype.card Thread := by
  choose holder holds using fun value : Fin count => tickets.each value value.isLt
  have injective : Function.Injective holder := by
    intro left right same
    have at_right := holds right
    rw [← same, holds left] at at_right
    exact Fin.ext (Option.some.inj at_right)
  simpa using Fintype.card_le_of_injective holder injective

theorem lt_card (tickets : Tickets number count) {value : Nat}
    (taken : number thread = some value) : value < Fintype.card Thread :=
  Nat.lt_of_lt_of_le (tickets.below thread value taken) tickets.le_card

end Tickets
end EScp
