import EScp.Listing

/-!
# How the file workers find out that they are done

A file worker that times out while `GLOBAL_FILEOPEN_TAIL` equals `GLOBAL_FILEOPEN_CLEANUP` sets its
bit of the mask and its flag, and leaves once the mask is full.  When it receives a path afterwards
it clears the bit and keeps the flag, so that the bit is never set again.
-/

namespace EScp
namespace Listing

variable {Path : Type*}

/-- The path channel holds nothing for a worker that is ready to exit. -/
def NotCalledBack (state : State Path) : Label → Prop
  | .fileWorker id =>
      match state.workers id with
      | .waiting => state.exitReady id = true → state.files = []
      | _ => True
  | _ => True

instance (state : State Path) : (label : Label) → Decidable (NotCalledBack state label)
  | .fileWorker id => by
      dsimp only [NotCalledBack]
      generalize state.workers id = worker
      exact match worker with
        | .waiting => inferInstance
        | .loadTail | .loadCleanup _ | .setBit | .loadMask | .clearBit _ | .opening _ | .countDir _
        | .sendDir _ | .takeNumber _ | .addFile .. | .sendMsg .. | .exited =>
            inferInstanceAs (Decidable True)
  | .main | .dirWorker _ => inferInstanceAs (Decidable True)

/-- What the flag of a worker says at each point of its loop. -/
def FileWorker.Agrees (ready : Bool) : FileWorker Path → Prop
  | .setBit => ready = false
  | .loadMask | .exited => ready = true
  | .clearBit _ => False
  | _ => True

/-- Bit and flag of every worker say the same. -/
structure Level (state : State Path) : Prop where
  agree : ∀ id, state.mask id = state.exitReady id
  workers : ∀ id, (state.workers id).Agrees (state.exitReady id)

variable {state : State Path} {id : Fin fileopenCount}

theorem Level.setWorker (level : Level state) {worker : FileWorker Path}
    (agrees : worker.Agrees (state.exitReady id)) : Level (state.setWorker id worker) where
  agree := level.agree
  workers other := by
    by_cases same : other = id
    · subst same
      rw [State.setWorker_self]
      exact agrees
    · rw [State.setWorker_of_ne state same]
      exact level.workers other

/-- Steps that change neither the workers nor their bits and flags. -/
theorem Level.keep {after : State Path} (level : Level state)
    (workers_eq : after.workers = state.workers) (mask_eq : after.mask = state.mask)
    (ready_eq : after.exitReady = state.exitReady) : Level after where
  agree other := by rw [mask_eq, ready_eq, level.agree]
  workers other := by rw [workers_eq, ready_eq]; exact level.workers other

theorem Level.setBit (level : Level state) {worker : FileWorker Path}
    (agrees : worker.Agrees true) : Level { state.setWorker id worker with
      mask := Function.update state.mask id true
      exitReady := Function.update state.exitReady id true } where
  agree other := by
    by_cases same : other = id
    · subst same
      simp
    · simpa [same] using level.agree other
  workers other := by
    by_cases same : other = id
    · subst same
      simpa [State.setWorker] using agrees
    · simpa [State.setWorker, same] using level.workers other

variable {system : FileSystem Path} {recursive : Bool}

theorem Level.stepMain (level : Level state) {after : State Path}
    (taken : state.stepMain = some after) : Level after := by
  cases mainStep taken with
  | source _ sent | entry _ sent =>
      rw [State.sendFile_eq sent]
      exact level.keep rfl rfl rfl
  | noSource _ | credit _ | noEntry _ | read _ _ | ended _ _ => exact level.keep rfl rfl rfl
  | polled _ => exact level

theorem Level.stepDirWorker (level : Level state) {id : Fin diropenCount} {after : State Path}
    (taken : state.stepDirWorker system id = some after) : Level after := by
  cases dirStep taken with
  | entry _ sent =>
      rw [State.sendFile_eq sent]
      exact level.keep rfl rfl rfl
  | receive _ _ | list _ | credit _ => exact level.keep rfl rfl rfl

theorem Level.stepWorker (level : Level state) (allowed : NotCalledBack state (.fileWorker id))
    {after : State Path} (taken : state.stepWorker system recursive id = some after) :
    Level after := by
  have agrees := level.workers id
  simp only [NotCalledBack] at allowed
  cases workerStep taken with
  | timeout _ _ | loadTail _ | unequal _ _ | stay _ _ | regular _ _ | directory _ _ | drop _ _
  | addFile _ => exact level.setWorker trivial
  | receive _ _ _ | countDir _ | sendDir _ | takeNumber _ | sendMsg _ _ =>
      refine Level.keep (level.setWorker ?_) rfl rfl rfl
      trivial
  | receiveReady at_worker files_eq ready =>
      simp only [at_worker] at allowed
      rw [allowed ready] at files_eq
      cases files_eq
  | equal _ _ unready => exact level.setWorker unready
  | equalReady _ _ ready => exact level.setWorker ready
  | setBit _ => exact level.setBit rfl
  | exit at_worker _ =>
      rw [at_worker] at agrees
      exact level.setWorker agrees
  | clearBit at_worker =>
      rw [at_worker] at agrees
      exact agrees.elim

theorem Level.next (level : Level state) {label : Label} (allowed : NotCalledBack state label)
    {after : State Path} (taken : Listing.next system recursive state label = some after) :
    Level after := by
  cases label with
  | main => exact level.stepMain taken
  | fileWorker id => exact level.stepWorker allowed taken
  | dirWorker id => exact level.stepDirWorker taken

theorem level_reached {sources fileList : List Path}
    (reached : (machine system recursive sources fileList).ReachedUnder NotCalledBack state) :
    Level state := by
  refine reached.invariant Level ?_ fun _ _ _ level allowed taken => level.next allowed taken
  rintro _ rfl
  exact ⟨fun _ => rfl, fun _ => trivial⟩

/-! ## Leaving -/

/-- All queues are empty, no worker holds a path and `GLOBAL_FILEOPEN_TAIL` is
`GLOBAL_FILEOPEN_CLEANUP`. -/
structure Quiet (state : State Path) : Prop where
  files : state.files = []
  dirs : state.dirs = []
  msgs : state.msgs = []
  held : ∀ id, (state.workers id).held = []
  dirWorkers : ∀ id, state.dirWorkers id = .waiting
  counted : state.tail = state.cleanup

/-- The worker waits in `recv_timeout`, or has left. -/
def State.Parked (state : State Path) (id : Fin fileopenCount) : Prop :=
  state.workers id = .waiting ∨ state.workers id = .exited

/-- One time-out of a worker, up to its next `recv_timeout` or its exit; a worker that has left
does nothing. -/
inductive TimesOut (machine : Machine (State Path) Label) (id : Fin fileopenCount) :
    State Path → State Path → Prop
  | left {state : State Path} : state.workers id = .exited → TimesOut machine id state state
  | fires {before middle after : State Path} : before.workers id = .waiting →
      machine.next before (.fileWorker id) = some middle →
      machine.PathBy (· = .fileWorker id) middle after → after.Parked id →
      TimesOut machine id before after

/-- Time-outs of the listed workers in turn. -/
inductive TimeOuts (machine : Machine (State Path) Label) :
    List (Fin fileopenCount) → State Path → State Path → Prop
  | nil {state : State Path} : TimeOuts machine [] state state
  | cons {id : Fin fileopenCount} {ids : List (Fin fileopenCount)}
      {before middle after : State Path} : TimesOut machine id before middle →
      TimeOuts machine ids middle after → TimeOuts machine (id :: ids) before after

/-- Only file workers move. -/
def Label.IsFileWorker : Label → Prop
  | .fileWorker _ => True
  | _ => False

/-- Bit and flag agree in every waiting worker, and from a quiet state the workers leave: they come
back to `recv_timeout`, then one time-out of each fills the mask, and the next one of each ends
it. -/
structure Detects (machine : Machine (State Path) Label) (state : State Path) : Prop where
  agree : ∀ id, state.workers id = .waiting →
    (state.mask id = true ↔ state.exitReady id = true)
  leaves : Quiet state → ∃ parked, machine.PathBy Label.IsFileWorker state parked ∧
    (∀ id, parked.Parked id) ∧
    ∀ first : List (Fin fileopenCount), (∀ id, id ∈ first) →
      ∃ full, TimeOuts machine first parked full ∧ full.maskFull ∧
        ∀ second : List (Fin fileopenCount), (∀ id, id ∈ second) →
          ∃ after, TimeOuts machine second full after ∧ ∀ id, after.workers id = .exited

/-- The state after a whole time-out of a worker. -/
def State.timedOut (state : State Path) (id : Fin fileopenCount) : State Path :=
  let marked := { state with
    mask := Function.update state.mask id true
    exitReady := Function.update state.exitReady id true }
  marked.setWorker id (if marked.maskFull then .exited else .waiting)

theorem State.timedOut_setWorker (state : State Path) (id : Fin fileopenCount)
    (worker : FileWorker Path) : (state.setWorker id worker).timedOut id = state.timedOut id := by
  simp only [State.timedOut, State.setWorker, Function.update_idem]
  rfl

theorem State.timedOut_setBit (state : State Path) (id : Fin fileopenCount)
    (worker : FileWorker Path) :
    State.timedOut { state.setWorker id worker with
      mask := Function.update state.mask id true
      exitReady := Function.update state.exitReady id true } id = state.timedOut id := by
  simp only [State.timedOut, State.setWorker, Function.update_idem]
  rfl

variable {sources fileList : List Path}

/-- The last step of a time-out. -/
theorem Level.loadMask (level : Level state) (at_mask : state.workers id = .loadMask) :
    (machine system recursive sources fileList).next state (.fileWorker id) =
      some (state.timedOut id) := by
  have ready := level.workers id
  rw [at_mask] at ready
  have marked := level.agree id
  have mask_eq : Function.update state.mask id true = state.mask := by
    rw [← ready, ← marked, Function.update_eq_self]
  have ready_eq : Function.update state.exitReady id true = state.exitReady := by
    rw [← ready, Function.update_eq_self]
  simp only [machine, Listing.next, State.stepWorker, at_mask, State.timedOut, mask_eq, ready_eq]

theorem Level.setBit_path (level : Level state) (at_bit : state.workers id = .setBit) :
    (machine system recursive sources fileList).PathBy (· = .fileWorker id) state
      (state.timedOut id) := by
  have taken : (machine system recursive sources fileList).next state (.fileWorker id) =
      some { state.setWorker id .loadMask with
        mask := Function.update state.mask id true
        exitReady := Function.update state.exitReady id true } := by
    simp only [machine, Listing.next, State.stepWorker, at_bit]
  have marked : Level { state.setWorker id .loadMask with
      mask := Function.update state.mask id true
      exitReady := Function.update state.exitReady id true } := level.setBit rfl
  rw [← State.timedOut_setBit state id .loadMask]
  exact .head ⟨_, rfl, taken⟩
    (Machine.PathBy.single _ rfl (marked.loadMask (state.setWorker_self id .loadMask)))

theorem Level.loadCleanup_path (level : Level state)
    (at_cleanup : state.workers id = .loadCleanup state.cleanup) :
    (machine system recursive sources fileList).PathBy (· = .fileWorker id) state
      (state.timedOut id) := by
  cases ready : state.exitReady id with
  | true =>
      have taken : (machine system recursive sources fileList).next state (.fileWorker id) =
          some (state.setWorker id .loadMask) := by
        simp only [machine, Listing.next, State.stepWorker, at_cleanup, ready, if_true]
      rw [← State.timedOut_setWorker state id .loadMask]
      exact .head ⟨_, rfl, taken⟩ (Machine.PathBy.single _ rfl
        (Level.loadMask (level.setWorker ready) (state.setWorker_self id .loadMask)))
  | false =>
      have taken : (machine system recursive sources fileList).next state (.fileWorker id) =
          some (state.setWorker id .setBit) := by
        simp only [machine, Listing.next, State.stepWorker, at_cleanup, ready, if_true,
          Bool.false_eq_true, if_false]
      rw [← State.timedOut_setWorker state id .setBit]
      exact .head ⟨_, rfl, taken⟩
        (Level.setBit_path (level.setWorker ready) (state.setWorker_self id .setBit))

theorem Level.loadTail_path (level : Level state) (counted : state.tail = state.cleanup)
    (at_tail : state.workers id = .loadTail) :
    (machine system recursive sources fileList).PathBy (· = .fileWorker id) state
      (state.timedOut id) := by
  have taken : (machine system recursive sources fileList).next state (.fileWorker id) =
      some (state.setWorker id (.loadCleanup state.cleanup)) := by
    simp only [machine, Listing.next, State.stepWorker, at_tail, counted]
  rw [← State.timedOut_setWorker state id (.loadCleanup state.cleanup)]
  exact .head ⟨_, rfl, taken⟩
    (Level.loadCleanup_path (level.setWorker trivial) (state.setWorker_self id _))

theorem State.timedOut_parked (state : State Path) (id : Fin fileopenCount) :
    (state.timedOut id).Parked id := by
  simp only [State.timedOut, State.Parked, State.setWorker_self]
  split
  · exact Or.inr rfl
  · exact Or.inl rfl

/-- A waiting worker of a quiet state has a whole time-out. -/
theorem Quiet.timesOut (quiet : Quiet state) (level : Level state)
    (waits : state.workers id = .waiting) :
    TimesOut (machine system recursive sources fileList) id state (state.timedOut id) := by
  have taken : (machine system recursive sources fileList).next state (.fileWorker id) =
      some (state.setWorker id .loadTail) := by
    simp only [machine, Listing.next, State.stepWorker, waits, quiet.files]
  refine .fires waits taken ?_ (state.timedOut_parked id)
  rw [← State.timedOut_setWorker state id .loadTail]
  exact Level.loadTail_path (level.setWorker trivial) quiet.counted
    (state.setWorker_self id .loadTail)

/-- Quiet states stay so when workers time out. -/
theorem Quiet.timedOut (quiet : Quiet state) (id : Fin fileopenCount) :
    Quiet (state.timedOut id) where
  files := quiet.files
  dirs := quiet.dirs
  msgs := quiet.msgs
  held other := by
    by_cases same : other = id
    · subst same
      rcases state.timedOut_parked other with waits | left
      · rw [waits]
        rfl
      · rw [left]
        rfl
    · rw [State.timedOut, State.setWorker_of_ne _ same]
      exact quiet.held other
  dirWorkers := quiet.dirWorkers
  counted := quiet.counted

theorem Level.timedOut (level : Level state) (id : Fin fileopenCount) :
    Level (state.timedOut id) where
  agree := (@Level.setBit _ state id level .waiting trivial).agree
  workers other := by
    by_cases same : other = id
    · subst same
      have ready : (state.timedOut other).exitReady other = true := Function.update_self ..
      rw [ready]
      rcases state.timedOut_parked other with waits | left
      · rw [waits]
        trivial
      · rw [left]
        rfl
    · have ready : (state.timedOut id).exitReady other = state.exitReady other :=
        Function.update_of_ne same ..
      rw [ready, State.timedOut, State.setWorker_of_ne _ same]
      exact level.workers other

/-- What a quiet state keeps while its workers time out. -/
structure Resting (state : State Path) : Prop where
  quiet : Quiet state
  level : Level state
  parked : ∀ id, state.Parked id

theorem Resting.timedOut (resting : Resting state) (id : Fin fileopenCount) :
    Resting (state.timedOut id) where
  quiet := resting.quiet.timedOut id
  level := resting.level.timedOut id
  parked other := by
    by_cases same : other = id
    · subst same
      exact state.timedOut_parked other
    · rw [State.Parked]
      rw [State.timedOut, State.setWorker_of_ne _ same]
      exact resting.parked other

/-- Time-outs of the listed workers set their bits, keep the bits that are set, and let them leave
when the mask was full before. -/
theorem Resting.timeOuts (resting : Resting state) (ids : List (Fin fileopenCount)) :
    ∃ after, TimeOuts (machine system recursive sources fileList) ids state after ∧
      Resting after ∧ (∀ id, state.mask id = true → after.mask id = true) ∧
      (∀ id ∈ ids, after.mask id = true) ∧
      (∀ id, state.workers id = .exited → after.workers id = .exited) ∧
      (state.maskFull → ∀ id ∈ ids, after.workers id = .exited) := by
  induction ids generalizing state with
  | nil => exact ⟨state, .nil, resting, fun _ => id, by simp, fun _ => id, by simp⟩
  | cons id ids ih =>
      rcases resting.parked id with waits | left
      · have marks : (state.timedOut id).mask id = true := Function.update_self ..
        have keeps (other : Fin fileopenCount) (set : state.mask other = true) :
            (state.timedOut id).mask other = true := by
          by_cases same : other = id
          · rw [same, marks]
          · exact (Function.update_of_ne same ..).trans set
        obtain ⟨after, path, rests, more, all, stay, leave⟩ := ih (resting.timedOut id)
        refine ⟨after, .cons (resting.quiet.timesOut resting.level waits) path, rests,
          fun other set => more other (keeps other set), ?_, ?_, ?_⟩
        · intro other mem
          rcases List.mem_cons.mp mem with rfl | mem
          · exact more _ marks
          · exact all other mem
        · intro other gone
          refine stay other ?_
          have ne : other ≠ id := fun same => by rw [same, waits] at gone; cases gone
          rw [State.timedOut, State.setWorker_of_ne _ ne]
          exact gone
        · intro full other mem
          have still : (state.timedOut id).maskFull := fun bit => keeps bit (full bit)
          rcases List.mem_cons.mp mem with rfl | mem
          · refine stay _ ?_
            rw [State.timedOut, State.setWorker_self, if_pos]
            exact still
          · exact leave still other mem
      · obtain ⟨after, path, rests, more, all, stay, leave⟩ := ih resting
        have marked : state.mask id = true := by
          have ready := resting.level.workers id
          rw [left] at ready
          exact (resting.level.agree id).trans ready
        refine ⟨after, .cons (.left left) path, rests, more, ?_, stay, ?_⟩
        · intro other mem
          rcases List.mem_cons.mp mem with rfl | mem
          · exact more _ marked
          · exact all other mem
        · intro full other mem
          rcases List.mem_cons.mp mem with rfl | mem
          · exact stay _ left
          · exact leave full other mem

/-- A worker of a quiet state comes back to `recv_timeout` or leaves. -/
theorem Quiet.parks (quiet : Quiet state) (level : Level state) (id : Fin fileopenCount) :
    ∃ after, (machine system recursive sources fileList).PathBy (· = .fileWorker id) state after ∧
      Quiet after ∧ Level after ∧ after.Parked id ∧
      ∀ other, other ≠ id → after.workers other = state.workers other := by
  have whole (path : (machine system recursive sources fileList).PathBy (· = .fileWorker id) state
      (state.timedOut id)) : ∃ after,
      (machine system recursive sources fileList).PathBy (· = .fileWorker id) state after ∧
        Quiet after ∧ Level after ∧ after.Parked id ∧
        ∀ other, other ≠ id → after.workers other = state.workers other :=
    ⟨_, path, quiet.timedOut id, level.timedOut id, state.timedOut_parked id, fun other ne => by
      rw [State.timedOut, State.setWorker_of_ne _ ne]⟩
  have empty := quiet.held id
  cases at_worker : state.workers id with
  | waiting => exact ⟨state, .refl, quiet, level, Or.inl at_worker, fun _ _ => rfl⟩
  | exited => exact ⟨state, .refl, quiet, level, Or.inr at_worker, fun _ _ => rfl⟩
  | loadTail => exact whole (level.loadTail_path quiet.counted at_worker)
  | loadCleanup tail =>
      by_cases current : tail = state.cleanup
      · rw [current] at at_worker
        exact whole (level.loadCleanup_path at_worker)
      · have taken : (machine system recursive sources fileList).next state (.fileWorker id) =
            some (state.setWorker id .waiting) := by
          simp only [machine, Listing.next, State.stepWorker, at_worker, current, if_false]
        refine ⟨_, .single _ rfl taken, ⟨quiet.files, quiet.dirs, quiet.msgs, ?_,
          quiet.dirWorkers, quiet.counted⟩, level.setWorker trivial,
          Or.inl (state.setWorker_self id _), fun other ne => state.setWorker_of_ne ne _⟩
        intro other
        by_cases same : other = id
        · rw [same, State.setWorker_self]
          rfl
        · rw [State.setWorker_of_ne _ same]
          exact quiet.held other
  | setBit => exact whole (level.setBit_path at_worker)
  | loadMask => exact whole (.single _ rfl (level.loadMask at_worker))
  | clearBit | opening | countDir | sendDir | takeNumber | addFile | sendMsg =>
      rw [at_worker] at empty
      cases empty

/-- All workers of a quiet state come back to `recv_timeout` or leave. -/
theorem Quiet.parkAll (quiet : Quiet state) (level : Level state)
    (ids : List (Fin fileopenCount)) :
    ∃ after, (machine system recursive sources fileList).PathBy Label.IsFileWorker state after ∧
      Quiet after ∧ Level after ∧ ∀ id, (id ∈ ids ∨ state.Parked id) → after.Parked id := by
  induction ids generalizing state with
  | nil => exact ⟨state, .refl, quiet, level, fun id parked => parked.resolve_left (by simp)⟩
  | cons id ids ih =>
      obtain ⟨middle, path, middle_quiet, middle_level, parked, others⟩ := quiet.parks level id
      obtain ⟨after, onward, after_quiet, after_level, all⟩ := ih middle_quiet middle_level
      have moves : (machine system recursive sources fileList).PathBy Label.IsFileWorker state
          middle := Machine.PathBy.mono (fun label is => by rw [is]; trivial) path
      refine ⟨after, moves.trans onward, after_quiet, after_level, ?_⟩
      intro other where_it_is
      by_cases same : other = id
      · exact all other (Or.inr (same ▸ parked))
      · refine all other ?_
        rcases where_it_is with listed | parked
        · exact Or.inl ((List.mem_cons.mp listed).resolve_left same)
        · refine Or.inr ?_
          rw [State.Parked]
          rw [others other same]
          exact parked

/-- From a quiet state the workers leave in two time-outs of each. -/
theorem Quiet.leaves (quiet : Quiet state) (level : Level state) :
    ∃ parked, (machine system recursive sources fileList).PathBy Label.IsFileWorker state parked ∧
      (∀ id, parked.Parked id) ∧
      ∀ first : List (Fin fileopenCount), (∀ id, id ∈ first) →
        ∃ full, TimeOuts (machine system recursive sources fileList) first parked full ∧
          full.maskFull ∧
          ∀ second : List (Fin fileopenCount), (∀ id, id ∈ second) →
            ∃ after, TimeOuts (machine system recursive sources fileList) second full after ∧
              ∀ id, after.workers id = .exited := by
  obtain ⟨parked, path, parked_quiet, parked_level, all⟩ :=
    quiet.parkAll level (List.finRange fileopenCount)
  have resting : Resting parked :=
    ⟨parked_quiet, parked_level, fun id => all id (Or.inl (List.mem_finRange id))⟩
  refine ⟨parked, path, resting.parked, ?_⟩
  intro first first_all
  obtain ⟨full, fills, full_resting, -, marked, -, -⟩ := resting.timeOuts first
  have mask_full : full.maskFull := fun id => marked id (first_all id)
  refine ⟨full, fills, mask_full, ?_⟩
  intro second second_all
  obtain ⟨after, leaves, -, -, -, -, gone⟩ := full_resting.timeOuts second
  exact ⟨after, leaves, fun id => gone mask_full id (second_all id)⟩

/-- While no worker that is ready to exit is handed a path, the detection works. -/
theorem detects_of_notCalledBack
    (reached : (machine system recursive sources fileList).ReachedUnder NotCalledBack state) :
    Detects (machine system recursive sources fileList) state := by
  have level := level_reached reached
  exact ⟨fun id _ => by rw [level.agree], fun quiet => quiet.leaves level⟩

/-! ## A file list with one entry -/

/-- A source is announced before any worker times out. -/
theorem detects_after_source : ∃ state,
    (machine flatDisk true [7] []).run (State.init [7] [])
        ([.main] ++ List.replicate 5 (.fileWorker 0) ++ List.replicate 4 .main) = some state ∧
      state.announced = [(7, 1)] ∧ Detects (machine flatDisk true [7] []) state := by
  refine ⟨_, rfl, rfl, detects_of_notCalledBack (.of_restrict (Machine.reached_of_run rfl
    ([.main] ++ List.replicate 5 (.fileWorker 0) ++ List.replicate 4 .main) rfl))⟩

/-- Worker 0 gets ready to exit after the main thread has credited `GLOBAL_FILEOPEN_TAIL`, and then
receives the entry of the file list. -/
theorem called_back : ∃ state,
    (machine flatDisk true [] [7]).run (State.init [] [7])
        (List.replicate 2 .main ++ List.replicate 5 (.fileWorker 0) ++ [.main] ++
          List.replicate 6 (.fileWorker 0)) = some state ∧
      state.workers 0 = .waiting ∧ state.mask 0 = false ∧ state.exitReady 0 = true :=
  ⟨_, rfl, rfl, rfl, rfl⟩

/-- Arbitrary interleavings separate bit and flag. -/
theorem not_detects_of_reached :
    ¬∀ state, (machine flatDisk true [] [7]).Reached state →
      Detects (machine flatDisk true [] [7]) state := by
  intro detects
  obtain ⟨state, taken, waits, cleared, ready⟩ := called_back
  have reached : (machine flatDisk true [] [7]).Reached state :=
    Machine.reached_of_run rfl _ taken
  have agree := (detects state reached).agree 0 waits
  rw [cleared, ready] at agree
  exact absurd (agree.mpr rfl) (by decide)

end Listing
end EScp
