import EScp.ListingComplete
import Mathlib.Algebra.Order.BigOperators.Group.Finset
import Mathlib.Algebra.Order.Ring.Nat

/-!
# The listing pipeline with full channels

The main thread reads messages only after it has sent all its paths.  While it waits for room on the
path channel, the file workers can wait for room on the message channel, and neither comes.
-/

namespace EScp
namespace Listing

variable {Path : Type*} {system : FileSystem Path} {recursive : Bool}
  {sources fileList : List Path} {state after : State Path}

/-- The main thread is at a `send` on the path channel. -/
def Main.sending : Main Path → Bool
  | .sources (_ :: _) _ | .fileList (_ :: _) => true
  | _ => false

/-- The main thread waits for room on the path channel, and all file workers wait for room on the
message channel. -/
structure Stuck (state : State Path) : Prop where
  main : state.main.sending = true
  files : filesBound ≤ state.files.length
  workers : ∀ id, ∃ path fino, state.workers id = .sendMsg path fino
  msgs : msgBound ≤ state.msgs.length

/-- The weight of a path bounds the number of paths at and below it. -/
def FileSystem.Bounded (system : FileSystem Path) (weight : Path → Nat) : Prop :=
  ∀ path,
    1 + (if system.kind path = .directory then ((system.entries path).map weight).sum else 0) ≤
      weight path

/-- The paths that fill both channels and all file workers. -/
def capacity : Nat := filesBound + msgBound + fileopenCount

/-! ## Few paths -/

/-- The weight of the path that a file worker holds. -/
def FileWorker.carried (weight : Path → Nat) (worker : FileWorker Path) : Nat :=
  (worker.held.map weight).sum

theorem FileWorker.carried_of_held {weight : Path → Nat} {worker : FileWorker Path} {path : Path}
    (held : worker.held = [path]) : worker.carried weight = weight path := by
  simp [carried, held]

/-- The weight of the entries that a directory worker has still to send. -/
def FileSystem.below (system : FileSystem Path) (weight : Path → Nat) : DirWorker Path → Nat
  | .waiting => 0
  | .opening path => ((system.entries path).map weight).sum
  | .listing rest => (rest.map weight).sum

/-- The weight of all paths that are somewhere in the pipeline. -/
def FileSystem.load (system : FileSystem Path) (weight : Path → Nat) (state : State Path) : Nat :=
  state.announced.length + (state.files.map weight).sum +
    tally (FileWorker.carried weight) state.workers +
    (state.dirs.map weight).sum + tally (system.below weight) state.dirWorkers

/-- No more weight is in the pipeline than the main thread has sent. -/
structure Frugal (system : FileSystem Path) (weight : Path → Nat) (total : Nat)
    (state : State Path) : Prop where
  dirs : ∀ path ∈ state.dirs, system.kind path = .directory
  opening : ∀ id path, state.dirWorkers id = .opening path → system.kind path = .directory
  msgs : state.msgs.length ≤ state.announced.length
  budget : system.load weight state + (state.main.pending.map weight).sum ≤ total

variable {weight : Path → Nat} {total : Nat}

theorem FileSystem.Bounded.pos (bounded : system.Bounded weight) (path : Path) :
    1 ≤ weight path := (Nat.le_add_right _ _).trans (bounded path)

theorem FileSystem.Bounded.entries_lt (bounded : system.Bounded weight) {path : Path}
    (directory : system.kind path = .directory) :
    ((system.entries path).map weight).sum < weight path := by
  have bound := bounded path
  rw [if_pos directory] at bound
  omega

theorem FileSystem.Bounded.length_le (bounded : system.Bounded weight) (paths : List Path) :
    paths.length ≤ (paths.map weight).sum := by
  induction paths with
  | nil => rfl
  | cons path paths ih =>
      have one := bounded.pos path
      rw [List.map_cons, List.sum_cons, List.length_cons]
      omega

theorem Frugal.stepMain (frugal : Frugal system weight total state)
    (taken : state.stepMain = some after) : Frugal system weight total after := by
  obtain ⟨dirs, opening, msgs, budget⟩ := frugal
  rw [FileSystem.load] at budget
  cases mainStep taken with
  | source at_main sent | entry at_main sent =>
      rw [at_main] at budget
      rw [State.sendFile_eq sent]
      refine ⟨dirs, opening, msgs, ?_⟩
      simp only [Main.pending, List.cons_append, List.map_cons, List.sum_cons] at budget
      simp only [FileSystem.load, State.setMain, Main.pending, List.map_append, List.map_cons,
        List.map_nil, List.sum_append, List.sum_cons, List.sum_nil] at budget ⊢
      omega
  | noSource at_main | credit at_main | noEntry at_main | ended at_main _ =>
      rw [at_main] at budget
      exact ⟨dirs, opening, msgs, budget⟩
  | read _ msgs_eq =>
      refine ⟨dirs, opening, ?_, budget⟩
      rw [msgs_eq] at msgs
      exact (Nat.le_succ _).trans msgs
  | polled _ => exact ⟨dirs, opening, msgs, budget⟩

theorem Frugal.stepDirWorker (bounded : system.Bounded weight)
    (frugal : Frugal system weight total state) {id : Fin diropenCount}
    (taken : state.stepDirWorker system id = some after) : Frugal system weight total after := by
  obtain ⟨dirs, opening, msgs, budget⟩ := frugal
  rw [FileSystem.load] at budget
  have moved (worker : DirWorker Path) :
      tally (system.below weight) (Function.update state.dirWorkers id worker) +
        system.below weight (state.dirWorkers id) =
      tally (system.below weight) state.dirWorkers + system.below weight worker :=
    tally_update (system.below weight) state.dirWorkers id worker
  have opens (worker : DirWorker Path) (new : ∀ path, worker = .opening path →
      system.kind path = .directory) (other : Fin diropenCount) (path : Path)
      (at_opening : Function.update state.dirWorkers id worker other = .opening path) :
      system.kind path = .directory := by
    by_cases same : other = id
    · rw [same, Function.update_self] at at_opening
      exact new path at_opening
    · rw [Function.update_of_ne same] at at_opening
      exact opening other path at_opening
  cases dirStep taken with
  | @receive path rest at_worker dirs_eq =>
      have directory := dirs path (by rw [dirs_eq]; exact List.mem_cons_self)
      have lighter := bounded.entries_lt directory
      have share := moved (.opening path)
      rw [at_worker] at share
      refine ⟨fun other mem => dirs other (by rw [dirs_eq]; exact List.mem_cons_of_mem _ mem),
        opens _ (by rintro _ ⟨⟩; exact directory), msgs, ?_⟩
      simp only [dirs_eq, List.map_cons, List.sum_cons] at budget
      simp only [FileSystem.below] at share
      simp only [FileSystem.load, State.setDirWorker]
      omega
  | @list path at_worker =>
      have share := moved (.listing (system.entries path))
      rw [at_worker] at share
      simp only [FileSystem.below] at share
      refine ⟨dirs, opens _ (by simp), msgs, ?_⟩
      simp only [FileSystem.load, State.setDirWorker]
      omega
  | @entry path rest _ at_worker sent =>
      rw [State.sendFile_eq sent]
      have share := moved (.listing rest)
      rw [at_worker] at share
      simp only [FileSystem.below, List.map_cons, List.sum_cons] at share
      refine ⟨dirs, opens _ (by simp), msgs, ?_⟩
      simp only [FileSystem.load, State.setDirWorker, List.map_append, List.map_cons,
        List.map_nil, List.sum_append, List.sum_cons, List.sum_nil]
      omega
  | credit at_worker =>
      have share := moved .waiting
      rw [at_worker] at share
      simp only [FileSystem.below, List.map_nil, List.sum_nil] at share
      refine ⟨dirs, opens _ (by simp), msgs, ?_⟩
      simp only [FileSystem.load, State.setDirWorker]
      omega

theorem Frugal.stepWorker (bounded : system.Bounded weight) (accounted : Accounted system state)
    (frugal : Frugal system weight total state) {id : Fin fileopenCount}
    (taken : state.stepWorker system recursive id = some after) :
    Frugal system weight total after := by
  obtain ⟨dirs, opening, msgs, budget⟩ := frugal
  rw [FileSystem.load] at budget
  have knows := accounted.knows id
  have share (worker : FileWorker Path) :
      tally (FileWorker.carried weight) (Function.update state.workers id worker) +
        (state.workers id).carried weight =
      tally (FileWorker.carried weight) state.workers + worker.carried weight :=
    tally_update (FileWorker.carried weight) state.workers id worker
  -- The worker moves on and holds no more than before.
  have moves (worker : FileWorker Path)
      (le : worker.carried weight ≤ (state.workers id).carried weight) :
      Frugal system weight total (state.setWorker id worker) := by
    have moved := share worker
    refine ⟨dirs, opening, msgs, ?_⟩
    simp only [FileSystem.load, State.setWorker]
    omega
  -- A path is taken from the channel.
  have receives {path : Path} {rest : List Path} (worker : FileWorker Path)
      (at_worker : state.workers id = .waiting) (files_eq : state.files = path :: rest)
      (held : worker.held = [path]) :
      Frugal system weight total { state.setWorker id worker with files := rest } := by
    have moved := share worker
    rw [at_worker, FileWorker.carried_of_held held] at moved
    have idle : FileWorker.waiting.carried weight = 0 := rfl
    refine ⟨dirs, opening, msgs, ?_⟩
    simp only [files_eq, List.map_cons, List.sum_cons] at budget
    simp only [FileSystem.load, State.setWorker]
    omega
  cases workerStep taken with
  | timeout at_worker _ | loadTail at_worker | unequal at_worker _ | equal at_worker _ _
  | equalReady at_worker _ _ | exit at_worker _ | stay at_worker _ | regular at_worker _
  | directory at_worker _ | addFile at_worker =>
      exact moves _ (by rw [at_worker]; exact le_rfl)
  | drop at_worker _ => exact moves _ (by rw [at_worker]; exact Nat.zero_le _)
  | receive at_worker files_eq _ | receiveReady at_worker files_eq _ =>
      exact receives _ at_worker files_eq rfl
  | setBit at_worker =>
      have moved := moves .loadMask (by rw [at_worker]; exact le_rfl)
      exact ⟨moved.dirs, moved.opening, moved.msgs, moved.budget⟩
  | @clearBit path at_worker =>
      have moved := moves (.opening path) (by rw [at_worker]; exact le_rfl)
      exact ⟨moved.dirs, moved.opening, moved.msgs, moved.budget⟩
  | @countDir path at_worker =>
      have moved := moves (.sendDir path) (by rw [at_worker]; exact le_rfl)
      exact ⟨moved.dirs, moved.opening, moved.msgs, moved.budget⟩
  | @sendDir path at_worker =>
      rw [at_worker] at knows
      have moved := share .waiting
      rw [at_worker, FileWorker.carried_of_held rfl] at moved
      have idle : FileWorker.waiting.carried weight = 0 := rfl
      refine ⟨fun other mem => ?_, opening, msgs, ?_⟩
      · rcases List.mem_append.mp mem with earlier | last
        · exact dirs other earlier
        · rw [List.mem_singleton.mp last]
          exact knows
      · simp only [FileSystem.load, State.setWorker, List.map_append, List.map_cons, List.map_nil,
          List.sum_append, List.sum_cons, List.sum_nil]
        omega
  | @takeNumber path at_worker =>
      have moved := moves (.addFile path (state.fino + 1)) (by rw [at_worker]; exact le_rfl)
      exact ⟨moved.dirs, moved.opening, moved.msgs, moved.budget⟩
  | @sendMsg path fino at_worker _ =>
      have one := bounded.pos path
      have moved := share .waiting
      rw [at_worker, FileWorker.carried_of_held rfl] at moved
      have idle : FileWorker.waiting.carried weight = 0 := rfl
      refine ⟨dirs, opening, ?_, ?_⟩
      · simpa using msgs
      · simp only [FileSystem.load, State.setWorker, List.length_append, List.length_singleton]
        omega

theorem frugal_reached (bounded : system.Bounded weight)
    (reached : (machine system recursive sources fileList).Reached state) :
    Accounted system state ∧
      Frugal system weight ((sources ++ fileList.reverse).map weight).sum state := by
  refine reached.invariant
    (fun state => Accounted system state ∧
      Frugal system weight ((sources ++ fileList.reverse).map weight).sum state) ?_ ?_
  · rintro _ rfl
    refine ⟨@accounted_reached _ system _ recursive sources fileList (.start rfl),
      by simp [State.init], by simp [State.init], le_rfl, ?_⟩
    have idle : tally (FileWorker.carried weight) (State.init sources fileList).workers = 0 :=
      tally_zero fun _ => rfl
    have asleep : tally (system.below weight) (State.init sources fileList).dirWorkers = 0 :=
      tally_zero fun _ => rfl
    rw [FileSystem.load, idle, asleep]
    simp [State.init, Main.pending]
  · rintro before label after ⟨accounted, frugal⟩ _ taken
    refine ⟨accounted.next taken, ?_⟩
    cases label with
    | main => exact frugal.stepMain taken
    | fileWorker id => exact frugal.stepWorker bounded accounted taken
    | dirWorker id => exact frugal.stepDirWorker bounded taken

theorem Main.pending_of_sending {main : Main Path} (sending : main.sending = true) :
    main.pending ≠ [] := by
  unfold Main.sending at sending
  split at sending
  · simp [Main.pending]
  · simp [Main.pending]
  · cases sending

/-- With few paths before the last one of the main thread, nothing gets stuck. -/
theorem not_stuck_of_few (bounded : system.Bounded weight)
    (few : ((sources ++ fileList.reverse).dropLast.map weight).sum < capacity)
    (reached : (machine system recursive sources fileList).Reached state) : ¬Stuck state := by
  intro stuck
  obtain ⟨-, frugal⟩ := frugal_reached bounded reached
  obtain ⟨sent, split_eq, -⟩ := (told_reached reached).listed
  have pending_ne := Main.pending_of_sending stuck.main
  have budget := frugal.budget
  rw [split_eq, List.dropLast_append_of_ne_nil pending_ne, List.map_append, List.sum_append] at few
  rw [split_eq, List.map_append, List.sum_append, FileSystem.load] at budget
  have files_le := bounded.length_le state.files
  have held_le : fileopenCount ≤
      tally (FileWorker.carried weight) state.workers := by
    calc fileopenCount = tally (fun _ : FileWorker Path => 1) state.workers := by
          simp [tally]
      _ ≤ _ := by
          refine Finset.sum_le_sum fun id _ => ?_
          obtain ⟨path, fino, at_send⟩ := stuck.workers id
          rw [at_send, FileWorker.carried_of_held rfl]
          exact bounded.pos path
  have files_full := stuck.files
  have msgs_full := stuck.msgs
  have announced := frugal.msgs
  rw [capacity] at few
  omega

/-! ## Many regular files -/

/-- How far a run of regular files has filled the pipeline. -/
structure Filled (system : FileSystem Path) (msgs files left : Nat)
    (busy : Finset (Fin fileopenCount)) (state : State Path) : Prop where
  msgs : state.msgs.length = msgs
  files : state.files.length = files
  left : state.main.pending.length = left
  blocked : ∀ id ∈ busy, ∃ path fino, state.workers id = .sendMsg path fino
  waiting : ∀ id, id ∉ busy → state.workers id = .waiting
  unready : ∀ id, state.exitReady id = false
  regular : ∀ path ∈ state.files ++ state.main.pending, system.kind path = .regular

/-- The main thread comes to its next `send`. -/
theorem main_sends {path : Path} {rest : List Path}
    (pending_eq : state.main.pending = path :: rest) :
    ∃ before, (machine system recursive sources fileList).PathBy (· = .main) state before ∧
      before.main.sending = true ∧ before.main.pending = path :: rest ∧
      before.workers = state.workers ∧ before.exitReady = state.exitReady ∧
      before.files = state.files ∧ before.msgs = state.msgs := by
  cases at_main : state.main with
  | sources unsent entries =>
      cases unsent with
      | cons other unsent =>
          refine ⟨state, .refl, ?_, pending_eq, rfl, rfl, rfl, rfl⟩
          rw [at_main]
          rfl
      | nil =>
          have reversed : entries.reverse = path :: rest := by
            simpa [at_main, Main.pending] using pending_eq
          have taken : (machine system recursive sources fileList).run state [.main, .main] =
              some { state with main := .fileList (path :: rest), tail := state.tail + 1 } := by
            simp [machine, Listing.next, State.stepMain, at_main, State.setMain, reversed]
          exact ⟨_, .of_run (by simp) taken, rfl, rfl, rfl, rfl, rfl, rfl⟩
  | creditTail entries =>
      have reversed : entries.reverse = path :: rest := by
        simpa [at_main, Main.pending] using pending_eq
      have taken : (machine system recursive sources fileList).run state [.main] =
          some { state with main := .fileList (path :: rest), tail := state.tail + 1 } := by
        simp [machine, Listing.next, State.stepMain, at_main, State.setMain, reversed]
      exact ⟨_, .of_run (by simp) taken, rfl, rfl, rfl, rfl, rfl, rfl⟩
  | fileList unsent =>
      cases unsent with
      | cons other unsent =>
          refine ⟨state, .refl, ?_, pending_eq, rfl, rfl, rfl, rfl⟩
          rw [at_main]
          rfl
      | nil => simp [at_main, Main.pending] at pending_eq
  | reading | ended => simp [at_main, Main.pending] at pending_eq

/-- The main thread sends its next path. -/
theorem main_sent {path : Path} {rest : List Path}
    (pending_eq : state.main.pending = path :: rest) (room : state.files.length < filesBound) :
    ∃ after, (machine system recursive sources fileList).PathBy (· = .main) state after ∧
      after.main.pending = rest ∧ after.workers = state.workers ∧
      after.exitReady = state.exitReady ∧ after.files = state.files ++ [path] ∧
      after.msgs = state.msgs := by
  obtain ⟨before, path_to, sending, before_pending, workers_eq, ready_eq, files_eq, msgs_eq⟩ :=
    main_sends pending_eq
  rw [← files_eq] at room
  cases at_main : before.main with
  | sources unsent entries =>
      cases unsent with
      | nil => simp [at_main, Main.sending] at sending
      | cons other unsent =>
          obtain ⟨rfl, rest_eq⟩ : other = path ∧ unsent ++ entries.reverse = rest := by
            simpa [at_main, Main.pending] using before_pending
          refine ⟨{ before with
            main := .sources unsent entries
            files := before.files ++ [other]
            put := before.put ++ [other] }, path_to.tail ⟨_, rfl, ?_⟩, rest_eq, workers_eq,
            ready_eq, by rw [files_eq], msgs_eq⟩
          simp [machine, Listing.next, State.stepMain, at_main, State.setMain, State.sendFile, room]
  | fileList unsent =>
      cases unsent with
      | nil => simp [at_main, Main.sending] at sending
      | cons other unsent =>
          obtain ⟨rfl, rest_eq⟩ : other = path ∧ unsent = rest := by
            simpa [at_main, Main.pending] using before_pending
          refine ⟨{ before with
            main := .fileList unsent
            files := before.files ++ [other]
            put := before.put ++ [other] }, path_to.tail ⟨_, rfl, ?_⟩, rest_eq, workers_eq,
            ready_eq, by rw [files_eq], msgs_eq⟩
          simp [machine, Listing.next, State.stepMain, at_main, State.setMain, State.sendFile, room]
  | creditTail | reading | ended => simp [at_main, Main.sending] at sending

/-- A waiting worker receives a regular file and comes to its `send`. -/
theorem worker_takes {id : Fin fileopenCount} {path : Path} {rest : List Path}
    (waits : state.workers id = .waiting) (unready : state.exitReady id = false)
    (files_eq : state.files = path :: rest) (regular : system.kind path = .regular) :
    ∃ after, (machine system recursive sources fileList).PathBy (· = .fileWorker id) state after ∧
      after.workers = Function.update state.workers id (.sendMsg path (state.fino + 1)) ∧
      after.exitReady = state.exitReady ∧ after.files = rest ∧ after.msgs = state.msgs ∧
      after.main = state.main := by
  have taken : (machine system recursive sources fileList).run state
      (List.replicate 4 (.fileWorker id)) = some { state with
        workers := Function.update state.workers id (.sendMsg path (state.fino + 1))
        files := rest
        fino := state.fino + 1 } := by
    simp [machine, Listing.next, State.stepWorker, State.setWorker, waits, unready, files_eq,
      regular, List.replicate_succ]
  exact ⟨_, .of_run (by simp) taken, rfl, rfl, rfl, rfl, rfl⟩

/-- A worker with a message sends it while the channel has room. -/
theorem worker_announces {id : Fin fileopenCount} {path : Path} {fino : Nat}
    (sends : state.workers id = .sendMsg path fino) (room : state.msgs.length < msgBound) :
    ∃ after, (machine system recursive sources fileList).PathBy (· = .fileWorker id) state after ∧
      after.workers = Function.update state.workers id .waiting ∧
      after.exitReady = state.exitReady ∧ after.files = state.files ∧
      after.msgs = state.msgs ++ [(path, fino)] ∧ after.main = state.main := by
  have taken : (machine system recursive sources fileList).next state (.fileWorker id) =
      some { state.setWorker id .waiting with
        msgs := state.msgs ++ [(path, fino)]
        announced := state.announced ++ [(path, fino)] } := by
    simp [machine, Listing.next, State.stepWorker, sends, room]
  exact ⟨_, .single _ rfl taken, rfl, rfl, rfl, rfl, rfl⟩

variable {msgs files left : Nat} {busy : Finset (Fin fileopenCount)}

/-- The main thread puts one more path on the path channel. -/
theorem Filled.fill (filled : Filled system msgs files (left + 1) busy state)
    (room : files < filesBound)
    (reached : (machine system recursive sources fileList).Reached state) :
    ∃ after, (machine system recursive sources fileList).Reached after ∧
      Filled system msgs (files + 1) left busy after := by
  have pending_length := filled.left
  obtain ⟨path, rest, pending_eq⟩ : ∃ path rest, state.main.pending = path :: rest := by
    cases pending_eq : state.main.pending with
    | nil => rw [pending_eq] at pending_length; cases pending_length
    | cons path rest => exact ⟨path, rest, rfl⟩
  rw [pending_eq, List.length_cons, Nat.add_right_cancel_iff] at pending_length
  obtain ⟨after, path_to, rest_eq, workers_eq, ready_eq, files_eq, msgs_eq⟩ :=
    main_sent pending_eq (by rw [filled.files]; exact room)
  refine ⟨after, path_to.reached reached, ?_, ?_, ?_, ?_, ?_,
    by rw [ready_eq]; exact filled.unready, ?_⟩
  · rw [msgs_eq, filled.msgs]
  · rw [files_eq, List.length_append, filled.files, List.length_singleton]
  · rw [rest_eq, pending_length]
  · rw [workers_eq]
    exact filled.blocked
  · rw [workers_eq]
    exact filled.waiting
  · have regular := filled.regular
    rw [files_eq, rest_eq, List.append_assoc, List.singleton_append]
    rwa [pending_eq] at regular

/-- A waiting worker takes the only path of the channel and comes to its `send`. -/
theorem Filled.block (filled : Filled system msgs 1 left busy state) {id : Fin fileopenCount}
    (free : id ∉ busy) (reached : (machine system recursive sources fileList).Reached state) :
    ∃ after, (machine system recursive sources fileList).Reached after ∧
      Filled system msgs 0 left (insert id busy) after := by
  obtain ⟨path, files_eq⟩ := List.length_eq_one_iff.mp filled.files
  obtain ⟨after, path_to, workers_eq, ready_eq, rest_eq, msgs_eq, main_eq⟩ :=
    worker_takes (filled.waiting id free) (filled.unready id) files_eq
      (filled.regular path (by simp [files_eq]))
  refine ⟨after, path_to.reached reached, ?_, by rw [rest_eq]; rfl, ?_, ?_, ?_,
    by rw [ready_eq]; exact filled.unready, ?_⟩
  · rw [msgs_eq, filled.msgs]
  · rw [main_eq, filled.left]
  · intro other mem
    rw [workers_eq]
    by_cases same : other = id
    · rw [same, Function.update_self]
      exact ⟨path, _, rfl⟩
    · rw [Function.update_of_ne same]
      exact filled.blocked other (Finset.mem_of_mem_insert_of_ne mem same)
  · intro other mem
    rw [Finset.mem_insert, not_or] at mem
    rw [workers_eq, Function.update_of_ne mem.1]
    exact filled.waiting other mem.2
  · intro other mem
    rw [rest_eq, main_eq] at mem
    exact filled.regular other (List.mem_append_right _ (by simpa using mem))

/-- A path passes through to the message channel. -/
theorem Filled.announce (filled : Filled system msgs 0 (left + 1) ∅ state) (room : msgs < msgBound)
    (reached : (machine system recursive sources fileList).Reached state) :
    ∃ after, (machine system recursive sources fileList).Reached after ∧
      Filled system (msgs + 1) 0 left ∅ after := by
  obtain ⟨first, first_reached, first_filled⟩ := filled.fill (by decide) reached
  obtain ⟨second, second_reached, second_filled⟩ :=
    first_filled.block (Finset.notMem_empty (0 : Fin fileopenCount)) first_reached
  obtain ⟨path, fino, sends⟩ := second_filled.blocked 0 (Finset.mem_insert_self _ _)
  obtain ⟨after, path_to, workers_eq, ready_eq, files_eq, msgs_eq, main_eq⟩ :=
    @worker_announces _ system recursive sources fileList second 0 path fino sends
      (by rw [second_filled.msgs]; exact room)
  refine ⟨after, path_to.reached second_reached, ?_, ?_, ?_, by simp, ?_,
    by rw [ready_eq]; exact second_filled.unready, ?_⟩
  · rw [msgs_eq, List.length_append, second_filled.msgs, List.length_singleton]
  · rw [files_eq, second_filled.files]
  · rw [main_eq, second_filled.left]
  · intro id _
    rw [workers_eq]
    by_cases same : id = 0
    · rw [same, Function.update_self]
    · rw [Function.update_of_ne same]
      exact second_filled.waiting id (by simp [same])
  · rw [files_eq, main_eq]
    exact second_filled.regular

/-- `count` paths pass through. -/
theorem Filled.announceAll {count : Nat}
    (filled : Filled system msgs 0 (left + count) ∅ state) (room : msgs + count ≤ msgBound)
    (reached : (machine system recursive sources fileList).Reached state) :
    ∃ after, (machine system recursive sources fileList).Reached after ∧
      Filled system (msgs + count) 0 left ∅ after := by
  induction count generalizing state msgs with
  | zero => exact ⟨state, reached, filled⟩
  | succ count ih =>
      obtain ⟨middle, middle_reached, middle_filled⟩ :=
        Filled.announce filled (by omega) reached
      obtain ⟨after, after_reached, after_filled⟩ :=
        ih middle_filled (by omega) middle_reached
      exact ⟨after, after_reached, by rwa [show msgs + (count + 1) = msgs + 1 + count by omega]⟩

/-- The listed workers come to their `send`. -/
theorem Filled.blockAll {ids : List (Fin fileopenCount)} (distinct : ids.Nodup)
    (free : ∀ id ∈ ids, id ∉ busy) (filled : Filled system msgs 0 (left + ids.length) busy state)
    (reached : (machine system recursive sources fileList).Reached state) :
    ∃ after, (machine system recursive sources fileList).Reached after ∧
      Filled system msgs 0 left (ids.toFinset ∪ busy) after := by
  induction ids generalizing state busy with
  | nil => exact ⟨state, reached, by simpa using filled⟩
  | cons id ids ih =>
      rw [List.nodup_cons] at distinct
      obtain ⟨first, first_reached, first_filled⟩ :=
        Filled.fill filled (by decide) reached
      obtain ⟨second, second_reached, second_filled⟩ :=
        first_filled.block (free id List.mem_cons_self) first_reached
      have still_free : ∀ other ∈ ids, other ∉ insert id busy := by
        intro other mem
        rw [Finset.mem_insert, not_or]
        exact ⟨fun same => distinct.1 (same ▸ mem), free other (List.mem_cons_of_mem _ mem)⟩
      obtain ⟨after, after_reached, after_filled⟩ :=
        ih distinct.2 still_free second_filled second_reached
      refine ⟨after, after_reached, ?_⟩
      rwa [List.toFinset_cons, Finset.insert_union, ← Finset.union_insert]

/-- The path channel fills up. -/
theorem Filled.fillAll {count : Nat} (filled : Filled system msgs files (left + count) busy state)
    (room : files + count ≤ filesBound)
    (reached : (machine system recursive sources fileList).Reached state) :
    ∃ after, (machine system recursive sources fileList).Reached after ∧
      Filled system msgs (files + count) left busy after := by
  induction count generalizing state files with
  | zero => exact ⟨state, reached, filled⟩
  | succ count ih =>
      obtain ⟨middle, middle_reached, middle_filled⟩ :=
        Filled.fill filled (by omega) reached
      obtain ⟨after, after_reached, after_filled⟩ :=
        ih middle_filled (by omega) middle_reached
      exact ⟨after, after_reached, by rwa [show files + (count + 1) = files + 1 + count by omega]⟩

/-- Regular files beyond the capacity get the pipeline stuck. -/
theorem stuck_of_many (regular : ∀ path ∈ sources ++ fileList, system.kind path = .regular)
    (many : capacity < (sources ++ fileList).length) :
    ∃ state, (machine system recursive sources fileList).Reached state ∧ Stuck state := by
  obtain ⟨left, left_eq⟩ : ∃ left, (sources ++ fileList).length = left + 1 + capacity :=
    ⟨(sources ++ fileList).length - 1 - capacity, by omega⟩
  have start : Filled system 0 0 (left + 1 + filesBound + (List.finRange fileopenCount).length +
      msgBound) ∅ (State.init sources fileList) := by
    refine ⟨rfl, rfl, ?_, by simp, fun _ _ => rfl, fun _ => rfl, ?_⟩
    · rw [List.length_finRange, Nat.add_assoc (left + 1 + filesBound), Nat.add_assoc (left + 1)]
      simpa [State.init, Main.pending, capacity, Nat.add_comm, Nat.add_left_comm,
        Nat.add_assoc] using left_eq
    · simpa [State.init, Main.pending] using regular
  obtain ⟨first, first_reached, first_filled⟩ :=
    Filled.announceAll start (by simp) (.start rfl)
  obtain ⟨second, second_reached, second_filled⟩ :=
    Filled.blockAll (List.nodup_finRange _) (by simp) first_filled first_reached
  obtain ⟨third, third_reached, third_filled⟩ :=
    Filled.fillAll second_filled (by simp) second_reached
  obtain ⟨path, rest, pending_eq⟩ : ∃ path rest, third.main.pending = path :: rest := by
    have pending_length := third_filled.left
    cases pending_eq : third.main.pending with
    | nil => rw [pending_eq] at pending_length; cases pending_length
    | cons path rest => exact ⟨path, rest, rfl⟩
  obtain ⟨state, path_to, sending, -, workers_eq, -, files_eq, msgs_eq⟩ := main_sends pending_eq
  refine ⟨state, path_to.reached third_reached, sending, ?_, fun id => ?_, ?_⟩
  · rw [files_eq, third_filled.files, Nat.zero_add]
  · rw [workers_eq]
    exact third_filled.blocked id (by simp)
  · rw [msgs_eq, third_filled.msgs, Nat.zero_add]

/-- Regular files need no more than the weight 1. -/
theorem FileSystem.Bounded.lighten (bounded : system.Bounded weight) :
    system.Bounded fun path => if system.kind path = .regular then 1 else weight path := by
  intro path
  have lighter (other : Path) : (if system.kind other = .regular then 1 else weight other) ≤
      weight other := by
    split
    · exact bounded.pos other
    · exact le_rfl
  change 1 + _ ≤ if system.kind path = .regular then 1 else weight path
  by_cases directory : system.kind path = .directory
  · rw [if_pos directory, if_neg (show ¬system.kind path = .regular by rw [directory]; decide)]
    have below : ((system.entries path).map fun other =>
        if system.kind other = .regular then 1 else weight other).sum ≤
          ((system.entries path).map weight).sum :=
      List.sum_le_sum fun other _ => lighter other
    have lt := bounded.entries_lt directory
    omega
  · rw [if_neg directory]
    split
    · exact le_rfl
    · exact bounded.pos path

/-- Regular files within the capacity never get the pipeline stuck. -/
theorem not_stuck_of_regular (bounded : system.Bounded weight)
    (regular : ∀ path ∈ sources ++ fileList, system.kind path = .regular)
    (few : (sources ++ fileList).length ≤ capacity)
    (reached : (machine system recursive sources fileList).Reached state) : ¬Stuck state := by
  refine not_stuck_of_few bounded.lighten ?_ reached
  have ones : ((sources ++ fileList.reverse).dropLast.map fun path =>
      if system.kind path = .regular then 1 else weight path) =
        (sources ++ fileList.reverse).dropLast.map fun _ => 1 := by
    apply List.map_congr_left
    intro path mem
    have listed : path ∈ sources ++ fileList := by
      simpa using List.mem_of_mem_dropLast mem
    exact if_pos (regular path listed)
  have positive : 0 < capacity := by decide
  rw [ones]
  simp only [List.map_const', List.sum_replicate_nat, mul_one, List.length_dropLast,
    List.length_append, List.length_reverse] at few ⊢
  omega

/-- The pipeline never gets stuck when the paths before the last one of the main thread, with all
that lies below them, do not reach the capacity of the channels and the workers; when only regular
files are listed, this is the exact bound. -/
theorem never_stuck (bounded : system.Bounded weight) :
    (((sources ++ fileList.reverse).dropLast.map weight).sum < capacity →
      ∀ state, (machine system recursive sources fileList).Reached state → ¬Stuck state) ∧
    ((∀ path ∈ sources ++ fileList, system.kind path = .regular) →
      ((∀ state, (machine system recursive sources fileList).Reached state → ¬Stuck state) ↔
        (sources ++ fileList).length ≤ capacity)) := by
  refine ⟨fun few state reached => not_stuck_of_few bounded few reached, fun regular => ?_⟩
  constructor
  · intro never
    by_contra many
    obtain ⟨state, reached, stuck⟩ :=
      @stuck_of_many _ system recursive sources fileList regular (Nat.lt_of_not_le many)
    exact never state reached stuck
  · intro few state reached
    exact not_stuck_of_regular bounded regular few reached

theorem flatDisk_bounded : flatDisk.Bounded fun _ => 1 := by
  intro path
  simp [flatDisk]

/-- Two sources and one entry of a file list are fine on a disk of regular files. -/
theorem never_stuck_flat : (([7, 8] ++ [9].reverse).dropLast.map fun _ : Nat => 1).sum < capacity ∧
    ∀ state, (machine flatDisk true [7, 8] [9]).Reached state → ¬Stuck state :=
  ⟨by decide, (@never_stuck _ flatDisk true [7, 8] [9] _ flatDisk_bounded).1 (by decide)⟩

/-- One source more than the capacity gets the pipeline stuck. -/
theorem stuck_of_15405 : ¬∀ state,
    (machine flatDisk true (List.range (capacity + 1)) []).Reached state → ¬Stuck state := by
  intro never
  obtain ⟨state, reached, stuck⟩ :=
    @stuck_of_many _ flatDisk true (List.range (capacity + 1)) [] (fun _ _ => rfl) (by simp)
  exact never state reached stuck

end Listing
end EScp
