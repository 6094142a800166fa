import Mathlib.Algebra.BigOperators.Group.Finset.Basic
import Mathlib.Data.Fintype.BigOperators

/-!
# Tallies over a family of threads

A quantity that is shared among threads is the sum of what each thread has of it.  When one thread
moves on, the sum changes by the share of that thread.
-/

namespace EScp

variable {Thread Place Amount : Type*} [Fintype Thread] [AddCommMonoid Amount]

/-- The sum of the shares of all threads. -/
def tally (share : Place → Amount) (threads : Thread → Place) : Amount :=
  ∑ thread, share (threads thread)

theorem tally_zero {share : Place → Amount} {threads : Thread → Place}
    (none : ∀ thread, share (threads thread) = 0) : tally share threads = 0 :=
  Finset.sum_eq_zero fun thread _ => none thread

variable [DecidableEq Thread]

variable (share : Place → Amount) (threads : Thread → Place) (thread : Thread) (place : Place)

/-- The thread that moves gives up its old share and takes its new one. -/
theorem tally_update :
    tally share (Function.update threads thread place) + share (threads thread) =
      tally share threads + share place := by
  have others : ∑ other ∈ Finset.univ.erase thread,
      share (Function.update threads thread place other) =
        ∑ other ∈ Finset.univ.erase thread, share (threads other) :=
    Finset.sum_congr rfl fun other mem => by
      rw [Function.update_of_ne (Finset.ne_of_mem_erase mem)]
  unfold tally
  rw [← Finset.add_sum_erase _ _ (Finset.mem_univ thread),
    ← Finset.add_sum_erase _ (fun other => share (threads other)) (Finset.mem_univ thread),
    others, Function.update_self]
  ac_rfl

variable {share threads thread place}

/-- A move that keeps the share of the thread keeps the tally. -/
theorem tally_update_same (same : share place = share (threads thread)) :
    tally share (Function.update threads thread place) = tally share threads := by
  rw [tally]
  apply Finset.sum_congr rfl
  intro other _
  by_cases moved : other = thread
  · rw [moved, Function.update_self, same]
  · rw [Function.update_of_ne moved]

/-- A thread takes a share. -/
theorem tally_update_take (none : share (threads thread) = 0) :
    tally share (Function.update threads thread place) = tally share threads + share place := by
  rw [← tally_update share threads thread place, none, add_zero]

/-- A thread gives its share up. -/
theorem tally_update_give (none : share place = 0) :
    tally share (Function.update threads thread place) + share (threads thread) =
      tally share threads := by
  rw [tally_update, none, add_zero]

section Cancel

variable {Amount : Type*} [AddCancelCommMonoid Amount] {share : Place → Amount} {extra : Amount}

/-- A thread takes more. -/
theorem tally_update_more (more : share place = share (threads thread) + extra) :
    tally share (Function.update threads thread place) = tally share threads + extra := by
  have moved := tally_update share threads thread place
  rw [more, ← add_assoc, add_right_comm] at moved
  exact add_right_cancel moved

/-- A thread gives some of its share up. -/
theorem tally_update_less (less : share (threads thread) = share place + extra) :
    tally share (Function.update threads thread place) + extra = tally share threads := by
  have moved := tally_update share threads thread place
  rw [less, ← add_assoc, add_right_comm] at moved
  exact add_right_cancel moved

end Cancel

end EScp
