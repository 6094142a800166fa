import EScp.Transition
import Mathlib.Data.Fintype.Card
import Mathlib.Data.Finset.Card

/-!
# The checksum worker of the receiver

With `do_hash` 2 every `rx_worker` puts a record of each block it receives on the checksum ring, and
`cksum_worker` appends the records to one file for each file number.  It leaves when it finds the
ring empty and then reads that all threads have finished.
-/

namespace EScp
namespace CksumWorker

/-- `struct cksum_t`, less its padding. -/
structure Cksum where
  type : UInt64
  fino : UInt64
  offset : UInt64
  checksum : List UInt8
deriving DecidableEq

/-- Where `cksum_worker` stands. -/
inductive Worker where
  /-- About to call `dtn_cksum_dequeue`. -/
  | dequeue
  /-- About to write the record it has taken. -/
  | write (cksum : Cksum)
  /-- About to call `get_threads_finished`. -/
  | count
  | left
deriving DecidableEq

/-- The ring, the threads and the files of the session directory. -/
structure State (threadCount : Nat) where
  ring : List Cksum
  /-- The `rx_worker` threads, `thread_count + 1` of them, that have not finished. -/
  running : Finset (Fin (threadCount + 1))
  threadsFinished : Nat
  worker : Worker
  currentFino : UInt64
  /-- The file that `fd` is open on. -/
  fd : Option UInt64
  /-- The records appended to each file. -/
  files : UInt64 → List Cksum
  /-- Every record put on the ring so far. -/
  enqueued : List Cksum

/-- One step. -/
inductive Label (threadCount : Nat) where
  | enqueue (thread : Fin (threadCount + 1)) (cksum : Cksum)
  /-- A thread increments `threads_finished` and ends. -/
  | finish (thread : Fin (threadCount + 1))
  | work

variable {threadCount : Nat}

/-- The write of a record, after the file has been opened if it is not the current one. -/
def State.append (state : State threadCount) (cksum : Cksum) : State threadCount :=
  let opened :=
    if cksum.fino ≠ state.currentFino then
      { state with fd := some cksum.fino, currentFino := cksum.fino }
    else
      state
  match opened.fd with
  | some name =>
      { opened with
        files := Function.update opened.files name (opened.files name ++ [cksum])
        worker := .dequeue }
  | none => { opened with worker := .dequeue }

/-- One step of `cksum_worker`. -/
def State.work (state : State threadCount) : Option (State threadCount) :=
  match state.worker with
  | .dequeue =>
      match state.ring with
      | cksum :: rest => some { state with ring := rest, worker := .write cksum }
      | [] => some { state with worker := .count }
  | .write cksum => some (state.append cksum)
  | .count =>
      some { state with
        worker := if threadCount + 1 ≤ state.threadsFinished then .left else .dequeue }
  | .left => none

/-- One step; `rx_worker` asserts that the file number of a block is not zero. -/
def next (state : State threadCount) : Label threadCount → Option (State threadCount)
  | .enqueue thread cksum =>
      if thread ∈ state.running ∧ cksum.fino ≠ 0 then
        some { state with
          ring := state.ring ++ [cksum]
          enqueued := state.enqueued ++ [cksum] }
      else
        none
  | .finish thread =>
      if thread ∈ state.running then
        some { state with
          running := state.running.erase thread
          threadsFinished := state.threadsFinished + 1 }
      else
        none
  | .work => state.work

/-- The state when `cksum_worker` starts. -/
def State.init (threadCount : Nat) : State threadCount where
  ring := []
  running := Finset.univ
  threadsFinished := 0
  worker := .dequeue
  currentFino := 0
  fd := none
  files _ := []
  enqueued := []

/-- The receiving threads and the checksum worker. -/
def machine (threadCount : Nat) : Machine (State threadCount) (Label threadCount) where
  initial state := state = State.init threadCount
  next := next

/-- When the worker has left, the file of each file number holds the records of that file number
that were ever put on the ring, each once. -/
def Lossless (state : State threadCount) : Prop :=
  state.worker = .left →
    ∀ fino, state.files fino = state.enqueued.filter fun cksum => cksum.fino = fino

/-- The last thread does not finish between an empty dequeue and the read of the counter that
follows it. -/
def NotInWindow (state : State threadCount) : Label threadCount → Prop
  | .finish thread => state.running = {thread} → state.worker ≠ .count
  | _ => True

instance (state : State threadCount) (label : Label threadCount) :
    Decidable (NotInWindow state label) := by
  unfold NotInWindow
  split <;> infer_instance

/-- The record that the worker has taken and not written. -/
def Worker.inHand : Worker → List Cksum
  | .write cksum => [cksum]
  | _ => []

/-- The invariant of the checksum worker. -/
structure Inv (state : State threadCount) : Prop where
  counted : state.threadsFinished + state.running.card = threadCount + 1
  /-- The records are written in the order of the ring. -/
  written : ∃ written, state.enqueued = written ++ (state.worker.inHand ++ state.ring) ∧
    ∀ fino, state.files fino = written.filter fun cksum => cksum.fino = fino
  named : ∀ cksum ∈ state.worker.inHand ++ state.ring, cksum.fino ≠ 0
  current : state.currentFino ≠ 0 → state.fd = some state.currentFino
  /-- Nothing is left when the worker reads that all threads have finished. -/
  empty : state.worker = .count → state.running = ∅ → state.ring = []
  gone : state.worker = .left → state.running = ∅ ∧ state.ring = []

variable {state after : State threadCount}

theorem inv_init : Inv (State.init threadCount) where
  counted := by simp [State.init]
  written := ⟨[], rfl, fun _ => rfl⟩
  named := by simp [State.init, Worker.inHand]
  current := by simp [State.init]
  empty _ _ := rfl
  gone := by simp [State.init]

theorem Inv.enqueue (inv : Inv state) {thread : Fin (threadCount + 1)} {cksum : Cksum}
    (running : thread ∈ state.running) (named : cksum.fino ≠ 0) :
    Inv { state with
      ring := state.ring ++ [cksum]
      enqueued := state.enqueued ++ [cksum] } where
  counted := inv.counted
  written := by
    obtain ⟨written, enqueued_eq, files_eq⟩ := inv.written
    refine ⟨written, ?_, files_eq⟩
    rw [enqueued_eq]
    simp
  named other mem := by
    rw [← List.append_assoc] at mem
    rcases List.mem_append.mp mem with earlier | last
    · exact inv.named other earlier
    · rw [List.mem_singleton.mp last]
      exact named
  current := inv.current
  empty _ finished := by
    change state.running = ∅ at finished
    rw [finished] at running
    exact absurd running (Finset.notMem_empty thread)
  gone at_left := by
    rw [(inv.gone at_left).1] at running
    exact absurd running (Finset.notMem_empty thread)

theorem Inv.finish (inv : Inv state) {thread : Fin (threadCount + 1)}
    (running : thread ∈ state.running) (allowed : NotInWindow state (.finish thread)) :
    Inv { state with
      running := state.running.erase thread
      threadsFinished := state.threadsFinished + 1 } where
  counted := by
    have counted := inv.counted
    have positive := Finset.card_pos.mpr ⟨thread, running⟩
    have erased := Finset.card_erase_of_mem running
    simp only [erased]
    omega
  written := inv.written
  named := inv.named
  current := inv.current
  empty at_count finished := by
    have only : state.running = {thread} :=
      ((Finset.erase_eq_empty_iff _ _).mp finished).resolve_left (Finset.ne_empty_of_mem running)
    exact absurd at_count (allowed only)
  gone at_left := by
    rw [(inv.gone at_left).1] at running
    exact absurd running (Finset.notMem_empty thread)

/-- The write of a record to the file named after it. -/
theorem State.append_eq (state : State threadCount) {cksum : Cksum} (named : cksum.fino ≠ 0)
    (current : state.currentFino ≠ 0 → state.fd = some state.currentFino) :
    state.append cksum = { state with
      fd := some cksum.fino
      currentFino := cksum.fino
      files := Function.update state.files cksum.fino (state.files cksum.fino ++ [cksum])
      worker := .dequeue } := by
  rw [State.append]
  by_cases same : cksum.fino = state.currentFino
  · have opened := current (same ▸ named)
    simp [same, opened]
  · simp [same]

theorem Inv.work (inv : Inv state) (taken : state.work = some after) : Inv after := by
  obtain ⟨written, enqueued_eq, files_eq⟩ := inv.written
  have named := inv.named
  rw [State.work] at taken
  cases at_worker : state.worker with
  | dequeue =>
      simp only [at_worker] at taken
      rw [at_worker] at enqueued_eq named
      cases ring_eq : state.ring with
      | nil =>
          simp only [ring_eq, Option.some.injEq] at taken
          subst taken
          rw [ring_eq] at enqueued_eq named
          exact ⟨inv.counted, ⟨written, enqueued_eq, files_eq⟩, named, inv.current,
            fun _ _ => rfl, by simp⟩
      | cons cksum rest =>
          simp only [ring_eq, Option.some.injEq] at taken
          subst taken
          rw [ring_eq] at enqueued_eq named
          exact ⟨inv.counted, ⟨written, enqueued_eq, files_eq⟩, named, inv.current,
            by simp, by simp⟩
  | write cksum =>
      simp only [at_worker, Option.some.injEq] at taken
      rw [at_worker] at enqueued_eq named
      have cksum_named : cksum.fino ≠ 0 := named cksum (by simp [Worker.inHand])
      rw [state.append_eq cksum_named inv.current] at taken
      subst taken
      refine ⟨inv.counted, ⟨written ++ [cksum], ?_, fun fino => ?_⟩, fun other mem => ?_,
        fun _ => rfl, by simp, by simp⟩
      · rw [enqueued_eq]
        simp [Worker.inHand]
      · by_cases same : fino = cksum.fino
        · subst same
          simp [files_eq]
        · simp [same, files_eq, Ne.symm same]
      · exact named other (List.mem_append_right _ (by simpa [Worker.inHand] using mem))
  | count =>
      simp only [at_worker, Option.some.injEq] at taken
      subst taken
      rw [at_worker] at enqueued_eq named
      split
      · rename_i enough
        have counted := inv.counted
        have finished : state.running = ∅ := Finset.card_eq_zero.mp (by omega)
        exact ⟨inv.counted, ⟨written, enqueued_eq, files_eq⟩, named, inv.current,
          by simp, fun _ => ⟨finished, inv.empty at_worker finished⟩⟩
      · exact ⟨inv.counted, ⟨written, enqueued_eq, files_eq⟩, named, inv.current,
          by simp, by simp⟩
  | left => simp [at_worker] at taken

theorem Inv.next (inv : Inv state) {label : Label threadCount}
    (allowed : NotInWindow state label)
    (taken : CksumWorker.next state label = some after) : Inv after := by
  cases label with
  | enqueue thread cksum =>
      simp only [CksumWorker.next] at taken
      split at taken
      · rename_i meets
        obtain rfl := Option.some.inj taken
        exact inv.enqueue meets.1 meets.2
      · cases taken
  | finish thread =>
      simp only [CksumWorker.next] at taken
      split at taken
      · rename_i running
        obtain rfl := Option.some.inj taken
        exact inv.finish running allowed
      · cases taken
  | work => exact inv.work taken

/-- No block checksum is lost when the last thread does not finish in the window. -/
theorem lossless_of_notInWindow
    (reached : (machine threadCount).ReachedUnder NotInWindow state) : Lossless state := by
  have inv : Inv state := by
    refine reached.invariant Inv ?_ fun _ _ _ inv allowed taken => inv.next allowed taken
    rintro _ rfl
    exact inv_init
  intro at_left fino
  obtain ⟨written, enqueued_eq, files_eq⟩ := inv.written
  rw [at_left, (inv.gone at_left).2] at enqueued_eq
  rw [files_eq, enqueued_eq]
  simp [Worker.inHand]

/-! ## Two threads -/

/-- The record of a block. -/
def record (fino : UInt64) : Cksum := ⟨0, fino, 0, List.replicate 32 0⟩

/-- Both threads finish before the ring is found empty. -/
theorem lossless_after_two : ∃ state,
    (machine 1).run (State.init 1) ([.enqueue 0 (record 5), .finish 0, .enqueue 1 (record 6),
        .finish 1] ++ List.replicate 6 .work) = some state ∧
      state.worker = .left ∧ Lossless state := by
  refine ⟨_, rfl, rfl, lossless_of_notInWindow (.of_restrict (Machine.reached_of_run rfl
    ([.enqueue 0 (record 5), .finish 0, .enqueue 1 (record 6), .finish 1] ++
      List.replicate 6 .work) rfl))⟩

/-- The last thread puts a record on the ring and finishes after the ring was found empty. -/
theorem lost_in_window : ∃ state,
    (machine 1).run (State.init 1)
        [.finish 0, .work, .enqueue 1 (record 6), .finish 1, .work] = some state ∧
      state.worker = .left ∧ state.enqueued = [record 6] ∧ state.files 6 = [] :=
  ⟨_, rfl, rfl, rfl, rfl⟩

/-- Arbitrary interleavings lose block checksums. -/
theorem not_lossless_of_reached :
    ¬∀ state : State 1, (machine 1).Reached state → Lossless state := by
  intro lossless
  obtain ⟨state, taken, at_left, enqueued_eq, files_eq⟩ := lost_in_window
  have reached : (machine 1).Reached state := Machine.reached_of_run rfl _ taken
  have written := lossless state reached at_left 6
  rw [enqueued_eq, files_eq] at written
  simp [record] at written

end CksumWorker
end EScp
