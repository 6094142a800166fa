import EScp.Transition
import Mathlib.Data.Fintype.Card
import Mathlib.Data.Finset.Card

/-!
# The receiver at the end of a session

All files are confirmed, the sender has sent `msg_session_complete` on the metadata connection and
lets every `tx_worker` send its BYE.  The main loop of the receiver ends the session when it reads
one of these messages.  It aborts when it finds the ring empty and then reads that all data
connections have finished.
-/

namespace EScp
namespace ReceiverExit

/-- A message that ends the session. -/
inductive Msg where
  | sessionComplete
  | bye
deriving DecidableEq

/-- Where the main loop of `escp_receiver` stands. -/
inductive Main where
  /-- About to test whether the transfer is complete; all files are in and out. -/
  | top
  /-- About to call `meta_recv`. -/
  | recv
  /-- `meta_recv` has returned nothing; no completions are left to send. -/
  | completions
  /-- About to call `get_threads_finished`. -/
  | count
  /-- Sleeps, after a keepalive perhaps. -/
  | delay
  /-- Has met the transfer-complete condition. -/
  | complete
  /-- `process::exit(-1)`. -/
  | aborted
deriving DecidableEq

/-- The metadata ring, the receiving threads and the main loop. -/
structure State (threadCount : Nat) where
  /-- The messages published and not read. -/
  ring : List Msg
  /-- `msg_session_complete` is still on its way. -/
  awaited : Bool
  /-- The data connections whose BYE has not been published. -/
  reading : Finset (Fin threadCount)
  /-- The data connections that have not incremented `threads_finished`. -/
  running : Finset (Fin threadCount)
  threadsFinished : Nat
  main : Main
  transferComplete : Bool

/-- One step. -/
inductive Label (threadCount : Nat) where
  /-- The metadata connection publishes `msg_session_complete`. -/
  | sessionComplete
  /-- A data connection publishes its BYE. -/
  | bye (thread : Fin threadCount)
  /-- A data connection increments `threads_finished`. -/
  | finish (thread : Fin threadCount)
  | main

variable {threadCount : Nat}

/-- One step of the main loop. -/
def State.stepMain (state : State threadCount) : Option (State threadCount) :=
  match state.main with
  | .top => some { state with main := if state.transferComplete then .complete else .recv }
  | .recv =>
      match state.ring with
      | [] => some { state with main := .completions }
      | _ :: rest => some { state with ring := rest, transferComplete := true, main := .top }
  | .completions => some { state with main := .count }
  | .count =>
      some { state with
        main := if threadCount ≤ state.threadsFinished then .aborted else .delay }
  | .delay => some { state with main := .top }
  | .complete => none
  | .aborted => none

/-- One step. -/
def next (state : State threadCount) : Label threadCount → Option (State threadCount)
  | .sessionComplete =>
      if state.awaited then
        some { state with ring := state.ring ++ [.sessionComplete], awaited := false }
      else
        none
  | .bye thread =>
      if thread ∈ state.reading then
        some { state with
          ring := state.ring ++ [.bye]
          reading := state.reading.erase thread }
      else
        none
  | .finish thread =>
      if thread ∈ state.running ∧ thread ∉ state.reading then
        some { state with
          running := state.running.erase thread
          threadsFinished := state.threadsFinished + 1 }
      else
        none
  | .main => state.stepMain

/-- The sender has sent everything and the receiver has read nothing of it. -/
def State.init (threadCount : Nat) (main : Main) : State threadCount where
  ring := []
  awaited := true
  reading := Finset.univ
  running := Finset.univ
  threadsFinished := 0
  main := main
  transferComplete := false

/-- The end of a session at the receiver, whose main loop is anywhere before its test. -/
def machine (threadCount : Nat) : Machine (State threadCount) (Label threadCount) where
  initial state := state = State.init threadCount .top ∨ state = State.init threadCount .delay
  next := next

/-- The main loop does not abort, and when it reads that all data connections have finished after
`meta_recv` has returned nothing, no message waits in the ring. -/
structure Sound (state : State threadCount) : Prop where
  lives : state.main ≠ .aborted
  nothing : state.main = .count → threadCount ≤ state.threadsFinished → state.ring = []

/-- The last data connection does not finish between a `meta_recv` that returned nothing and the
read of the counter that follows it. -/
def NotInWindow (state : State threadCount) : Label threadCount → Prop
  | .finish thread =>
      state.running = {thread} → state.main ≠ .completions ∧ state.main ≠ .count
  | _ => True

instance (state : State threadCount) (label : Label threadCount) :
    Decidable (NotInWindow state label) := by
  unfold NotInWindow
  split <;> infer_instance

/-- The invariant of the end of a session. -/
structure Inv (state : State threadCount) : Prop where
  counted : state.threadsFinished + state.running.card = threadCount
  finished : ∀ thread, thread ∉ state.running → thread ∉ state.reading
  /-- What is published stays in the ring until the transfer is complete. -/
  waits : state.transferComplete = false → state.ring = [] → state.reading = Finset.univ
  incomplete : state.main = .recv ∨ state.main = .completions ∨ state.main = .count →
    state.transferComplete = false
  window : state.main = .completions ∨ state.main = .count → state.running ≠ ∅
  lives : state.main ≠ .aborted

variable {state after : State threadCount}

theorem inv_init {main : Main} (before : main = .top ∨ main = .delay) :
    Inv (State.init threadCount main) where
  counted := by simp [State.init]
  finished thread out := (out (Finset.mem_univ thread)).elim
  waits _ _ := rfl
  incomplete _ := rfl
  window at_window := by
    rcases before with rfl | rfl <;> rcases at_window with at_window | at_window <;> cases at_window
  lives aborted := by
    rcases before with rfl | rfl <;> cases aborted

theorem Inv.publish (inv : Inv state) (msg : Msg) (awaited : Bool)
    (reading : Finset (Fin threadCount)) (subset : reading ⊆ state.reading) :
    Inv { state with ring := state.ring ++ [msg], awaited := awaited, reading := reading } where
  counted := inv.counted
  finished thread out mem := inv.finished thread out (subset mem)
  waits _ empty := by simp at empty
  incomplete := inv.incomplete
  window := inv.window
  lives := inv.lives

theorem Inv.finish (inv : Inv state) {thread : Fin threadCount}
    (running : thread ∈ state.running) (published : thread ∉ state.reading)
    (allowed : NotInWindow state (.finish thread)) :
    Inv { state with
      running := state.running.erase thread
      threadsFinished := state.threadsFinished + 1 } where
  counted := by
    have counted := inv.counted
    have positive := Finset.card_pos.mpr ⟨thread, running⟩
    have erased := Finset.card_erase_of_mem running
    simp only [erased]
    omega
  finished other out := by
    by_cases same : other = thread
    · rw [same]
      exact published
    · exact inv.finished other fun mem => out (Finset.mem_erase.mpr ⟨same, mem⟩)
  waits := inv.waits
  incomplete := inv.incomplete
  window at_window none_left := by
    have only : state.running = {thread} :=
      ((Finset.erase_eq_empty_iff _ _).mp none_left).resolve_left (Finset.ne_empty_of_mem running)
    obtain ⟨not_completions, not_count⟩ := allowed only
    exact at_window.elim not_completions not_count
  lives := inv.lives

theorem Inv.stepMain (inv : Inv state) (positive : 0 < threadCount)
    (taken : state.stepMain = some after) : Inv after := by
  rw [State.stepMain] at taken
  cases at_main : state.main with
  | top =>
      simp only [at_main, Option.some.injEq] at taken
      subst taken
      by_cases complete : state.transferComplete = true
      · rw [if_pos complete]
        exact ⟨inv.counted, inv.finished, inv.waits, by simp, by simp, by simp⟩
      · rw [if_neg complete]
        exact ⟨inv.counted, inv.finished, inv.waits,
          fun _ => Bool.eq_false_iff.mpr complete, by simp, by simp⟩
  | recv =>
      have incomplete := inv.incomplete (Or.inl at_main)
      simp only [at_main] at taken
      split at taken <;> rename_i ring_eq <;> obtain rfl := Option.some.inj taken
      · refine ⟨inv.counted, inv.finished, fun _ _ => inv.waits incomplete ring_eq,
          fun _ => incomplete, fun _ none_left => ?_, by simp⟩
        -- Nothing has been published, so no connection can have finished.
        have all_reading := inv.waits incomplete ring_eq
        have first : (⟨0, positive⟩ : Fin threadCount) ∉ state.running := by
          change state.running = ∅ at none_left
          rw [none_left]
          exact Finset.notMem_empty _
        have done := inv.finished _ first
        rw [all_reading] at done
        exact done (Finset.mem_univ _)
      · exact ⟨inv.counted, inv.finished, by simp, by simp, by simp, by simp⟩
  | completions =>
      have incomplete := inv.incomplete (Or.inr (Or.inl at_main))
      have window := inv.window (Or.inl at_main)
      simp only [at_main, Option.some.injEq] at taken
      subst taken
      exact ⟨inv.counted, inv.finished, inv.waits, fun _ => incomplete, fun _ => window, by simp⟩
  | count =>
      have window := inv.window (Or.inr at_main)
      have counted := inv.counted
      have still_running := Finset.card_pos.mpr (Finset.nonempty_iff_ne_empty.mpr window)
      simp only [at_main, Option.some.injEq] at taken
      subst taken
      rw [if_neg (by omega)]
      exact ⟨inv.counted, inv.finished, inv.waits, by simp, by simp, by simp⟩
  | delay =>
      simp only [at_main, Option.some.injEq] at taken
      subst taken
      exact ⟨inv.counted, inv.finished, inv.waits, by simp, by simp, by simp⟩
  | complete => simp [at_main] at taken
  | aborted => simp [at_main] at taken

theorem Inv.next (inv : Inv state) (positive : 0 < threadCount) {label : Label threadCount}
    (allowed : NotInWindow state label)
    (taken : ReceiverExit.next state label = some after) : Inv after := by
  cases label with
  | sessionComplete =>
      simp only [ReceiverExit.next] at taken
      split at taken
      · obtain rfl := Option.some.inj taken
        exact inv.publish .sessionComplete false state.reading (Finset.Subset.refl _)
      · cases taken
  | bye thread =>
      simp only [ReceiverExit.next] at taken
      split at taken
      · obtain rfl := Option.some.inj taken
        exact inv.publish .bye state.awaited _ (Finset.erase_subset _ _)
      · cases taken
  | finish thread =>
      simp only [ReceiverExit.next] at taken
      split at taken
      · rename_i meets
        obtain rfl := Option.some.inj taken
        exact inv.finish meets.1 meets.2 allowed
      · cases taken
  | main => exact inv.stepMain positive taken

/-- The main loop finds the ring empty, and the only data connection publishes its BYE and finishes
before the counter is read. -/
theorem abort_in_window : ∃ state,
    (machine 1).run (State.init 1 .top)
        [.main, .main, .main, .sessionComplete, .bye 0, .finish 0, .main] = some state ∧
      state.main = .aborted ∧ state.ring = [.sessionComplete, .bye] :=
  ⟨_, rfl, rfl, rfl⟩

end ReceiverExit
end EScp
