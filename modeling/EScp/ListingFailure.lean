import EScp.ListingComplete
import EScp.ListingExit

/-!
# Paths that cannot be opened

A file worker whose open fails with an error other than `EMFILE` returns.  Its bit of the mask is
clear and stays so, so that the others never leave.  As long as no open fails the pipeline works as
the one that passes over such paths.
-/

namespace EScp
namespace Listing

variable {Path : Type*} (system : FileSystem Path) (unopenable : Path → Bool) (recursive : Bool)

/-- The worker is about to open a path on the disk that it cannot open. -/
def FileSystem.openFails (state : State Path) (id : Fin fileopenCount) : Bool :=
  match state.workers id with
  | .opening path =>
      unopenable path && !decide (system.kind path = .notOnDisk ∨ system.kind path = .outside)
  | _ => false

/-- One step.  A file worker whose open fails returns. -/
def nextOpen (state : State Path) : Label → Option (State Path)
  | .main => state.stepMain
  | .fileWorker id =>
      if system.openFails unopenable state id then some (state.setWorker id .exited)
      else state.stepWorker system recursive id
  | .dirWorker id => state.stepDirWorker system id

/-- The pipeline on given sources and a given file list, with opens that may fail. -/
def openMachine (sources fileList : List Path) : Machine (State Path) Label where
  initial state := state = State.init sources fileList
  next := nextOpen system unopenable recursive

/-- The open of the step does not fail. -/
def Opens (state : State Path) : Label → Prop
  | .fileWorker id => system.openFails unopenable state id = false
  | _ => True

instance (state : State Path) : (label : Label) → Decidable (Opens system unopenable state label)
  | .fileWorker id => inferInstanceAs (Decidable (system.openFails unopenable state id = false))
  | .main | .dirWorker _ => inferInstanceAs (Decidable True)

/-- No path is left: the main thread reads messages, all channels are empty and no worker is
busy. -/
structure Handled (state : State Path) : Prop where
  main : state.main = .reading
  files : state.files = []
  dirs : state.dirs = []
  msgs : state.msgs = []
  held : ∀ id, (state.workers id).held = []
  dirWorkers : ∀ id, state.dirWorkers id = .waiting

/-- Paths that cannot be opened do not affect the others: when no path is left, or the main thread
has seen the end of the message channel, all paths were listed and the regular files among them
that can be opened are announced, and when no path is left all workers can leave and the main
thread ends. -/
structure Unaffected (sources fileList : List Path) (state : State Path) : Prop where
  listed : state.main = .ended ∨ Handled state → (sources ++ fileList.reverse).Sublist state.put
  announced : state.main = .ended ∨ Handled state →
    (state.announced.map Prod.fst).Perm (state.put.filter fun path =>
      system.kind path = .regular ∧ unopenable path = false)
  ends : Handled state → ∃ after,
    (openMachine system unopenable recursive sources fileList).PathBy (fun _ => True) state after ∧
      (∀ id, after.workers id = .exited) ∧ after.main = .ended

/-- What the steps of a run have to meet: no open fails, no worker that is ready to exit receives a
path, and the last bit of the mask is set with nothing left to list. -/
def Spared (state : State Path) (label : Label) : Prop :=
  Opens system unopenable state label ∧ NotCalledBack state label ∧ LastBitOnEmpty state label

instance (state : State Path) (label : Label) :
    Decidable (Spared system unopenable state label) :=
  inferInstanceAs (Decidable (_ ∧ _))

/-! ## The pipeline that passes over unopenable paths -/

/-- The file system in which unopenable paths are ignored. -/
def FileSystem.ignoring : FileSystem Path where
  kind path := if unopenable path then .other else system.kind path
  entries := system.entries

theorem FileSystem.ignoring_regular (path : Path) :
    (system.ignoring unopenable).kind path = .regular ↔
      system.kind path = .regular ∧ unopenable path = false := by
  cases refused : unopenable path with
  | true => simp [ignoring, refused]
  | false => simp [ignoring, refused]

variable {system unopenable recursive} {state after : State Path}

/-- Unless an open fails, ignoring makes no difference. -/
theorem stepWorker_ignoring {id : Fin fileopenCount}
    (opens : system.openFails unopenable state id = false) :
    state.stepWorker (system.ignoring unopenable) recursive id =
      state.stepWorker system recursive id := by
  cases at_worker : state.workers id with
  | opening path =>
      simp only [FileSystem.openFails, at_worker] at opens
      simp only [State.stepWorker, at_worker, FileSystem.ignoring]
      cases refused : unopenable path with
      | false => rfl
      | true =>
          rw [refused] at opens
          simp only [Bool.true_and, Bool.not_eq_false', decide_eq_true_eq] at opens
          rcases opens with absent | outside
          · rw [absent]
            rfl
          · rw [outside]
            rfl
  | _ => simp only [State.stepWorker, at_worker]

theorem nextOpen_eq {label : Label} (opens : Opens system unopenable state label) :
    nextOpen system unopenable recursive state label =
      Listing.next (system.ignoring unopenable) recursive state label := by
  cases label with
  | main => rfl
  | fileWorker id =>
      have succeeds : system.openFails unopenable state id = false := opens
      rw [nextOpen, succeeds, Listing.next, stepWorker_ignoring succeeds]
      rfl
  | dirWorker id => rfl

variable {sources fileList : List Path}

/-- A run in which no open fails is a run that passes over unopenable paths. -/
theorem reached_ignoring
    (reached : (openMachine system unopenable recursive sources fileList).ReachedUnder
      (Spared system unopenable) state) :
    (machine (system.ignoring unopenable) recursive sources fileList).ReachedUnder
      (fun state label => NotCalledBack state label ∧ LastBitOnEmpty state label) state := by
  induction reached with
  | start initial => exact .start initial
  | step _ spared taken ih =>
      obtain ⟨opens, not_back, last⟩ := spared
      exact .step ih ⟨not_back, last⟩ ((nextOpen_eq opens).symm.trans taken)

/-! ## Leaving -/

theorem Handled.opens (handled : Handled state) (id : Fin fileopenCount) :
    system.openFails unopenable state id = false := by
  cases at_worker : state.workers id with
  | opening path =>
      have held := handled.held id
      rw [at_worker] at held
      cases held
  | _ => simp only [FileSystem.openFails, at_worker]

theorem Handled.setWorker (handled : Handled state) {id : Fin fileopenCount}
    {worker : FileWorker Path} (held : worker.held = []) :
    Handled (state.setWorker id worker) where
  main := handled.main
  files := handled.files
  dirs := handled.dirs
  msgs := handled.msgs
  dirWorkers := handled.dirWorkers
  held other := by
    by_cases same : other = id
    · subst same
      rw [State.setWorker_self]
      exact held
    · rw [State.setWorker_of_ne _ same]
      exact handled.held other

theorem Handled.stepWorker (handled : Handled state) {id : Fin fileopenCount}
    (taken : state.stepWorker system recursive id = some after) : Handled after := by
  have held := handled.held id
  cases workerStep taken with
  | timeout _ _ | loadTail _ | unequal _ _ | equal _ _ _ | equalReady _ _ _ | exit _ _
  | stay _ _ => exact handled.setWorker rfl
  | setBit _ =>
      have moved : Handled (state.setWorker id .loadMask) := handled.setWorker rfl
      exact { moved with }
  | receive _ files_eq _ | receiveReady _ files_eq _ =>
      rw [handled.files] at files_eq
      cases files_eq
  | clearBit at_worker | regular at_worker _ | directory at_worker _ | drop at_worker _
  | countDir at_worker | sendDir at_worker | takeNumber at_worker | addFile at_worker
  | sendMsg at_worker _ =>
      rw [at_worker] at held
      cases held

/-- In a handled state the file workers move as in the pipeline that passes over paths. -/
theorem Handled.path (handled : Handled state)
    (path : (machine (system.ignoring unopenable) recursive sources fileList).PathBy
      Label.IsFileWorker state after) :
    (openMachine system unopenable recursive sources fileList).PathBy (fun _ => True) state after ∧
      Handled after := by
  induction path with
  | refl => exact ⟨.refl, handled⟩
  | tail _ last ih =>
      obtain ⟨label, is_worker, taken⟩ := last
      obtain ⟨earlier, still⟩ := ih
      cases label with
      | fileWorker id =>
          have opens : Opens system unopenable _ (.fileWorker id) := still.opens id
          have moved := (nextOpen_eq opens).trans taken
          exact ⟨earlier.tail ⟨.fileWorker id, trivial, moved⟩, still.stepWorker taken⟩
      | main | dirWorker _ => exact is_worker.elim

theorem TimesOut.path {machine : Machine (State Path) Label} {id : Fin fileopenCount}
    (timesOut : TimesOut machine id state after) :
    machine.PathBy Label.IsFileWorker state after := by
  cases timesOut with
  | left _ => exact .refl
  | fires _ first rest _ =>
      have moves : machine.PathBy Label.IsFileWorker _ after :=
        Machine.PathBy.mono (fun label is => by rw [is]; trivial) rest
      exact .head ⟨.fileWorker id, trivial, first⟩ moves

theorem TimeOuts.path {machine : Machine (State Path) Label} {ids : List (Fin fileopenCount)}
    (timeOuts : TimeOuts machine ids state after) :
    machine.PathBy Label.IsFileWorker state after := by
  induction timeOuts with
  | nil => exact .refl
  | cons first _ ih => exact first.path.trans ih

/-- The main thread ends when all file workers have left. -/
theorem Handled.stepMain (handled : Handled state) (gone : ∀ id, state.workers id = .exited) :
    (openMachine system unopenable recursive sources fileList).next state .main =
      some (state.setMain .ended) := by
  change state.stepMain = _
  simp only [State.stepMain, handled.main, handled.msgs, disconnected_iff.mpr gone, if_true]

/-- When nothing is in flight the counters are equal. -/
theorem Handled.quiet (handled : Handled state) (counted : Counted state) : Quiet state := by
  have workers_zero : tally FileWorker.owes state.workers = 0 := by
    apply tally_zero
    intro id
    have held := handled.held id
    cases at_worker : state.workers id with
    | sendDir path =>
        rw [at_worker] at held
        cases held
    | _ => rfl
  have dirs_zero : tally DirWorker.owes state.dirWorkers = 0 :=
    tally_zero fun id => by rw [handled.dirWorkers id]; rfl
  have balance := counted.balance
  rw [workers_zero, dirs_zero, handled.main, handled.dirs] at balance
  exact ⟨handled.files, handled.dirs, handled.msgs, handled.held, handled.dirWorkers,
    balance.symm⟩

/-- From a handled state all workers can leave and the main thread ends. -/
theorem Handled.ends (handled : Handled state) (counted : Counted state)
    (reached : (machine (system.ignoring unopenable) recursive sources fileList).ReachedUnder
      NotCalledBack state) : ∃ after,
    (openMachine system unopenable recursive sources fileList).PathBy (fun _ => True) state after ∧
      (∀ id, after.workers id = .exited) ∧ after.main = .ended := by
  obtain ⟨parked, parks, -, leave⟩ :=
    (handled.quiet counted).leaves (level_reached reached)
  obtain ⟨full, fills, -, leave⟩ := leave (List.finRange fileopenCount) List.mem_finRange
  obtain ⟨left, leaves, gone⟩ := leave (List.finRange fileopenCount) List.mem_finRange
  obtain ⟨path, still⟩ := handled.path ((parks.trans fills.path).trans leaves.path)
  exact ⟨left.setMain .ended, path.tail ⟨.main, trivial, still.stepMain gone⟩, gone, rfl⟩

/-- In every run whose steps meet the condition, unopenable paths do not affect the others. -/
theorem unaffected_of_spared
    (reached : (openMachine system unopenable recursive sources fileList).ReachedUnder
      (Spared system unopenable) state) :
    Unaffected system unopenable recursive sources fileList state := by
  have ignored := reached_ignoring reached
  have not_back := ignored.mono fun _ _ spared => spared.1
  have last := ignored.mono fun _ _ spared => spared.2
  have told := told_reached ignored.reached
  have same_filter : (state.put.filter fun path =>
      (system.ignoring unopenable).kind path = .regular) =
        state.put.filter fun path => system.kind path = .regular ∧ unopenable path = false :=
    List.filter_congr fun path _ =>
      decide_eq_decide.mpr (system.ignoring_regular unopenable path)
  constructor
  · rintro (is_ended | handled)
    · exact told.listed_sublist (by rw [is_ended]; rfl)
    · exact told.listed_sublist (by rw [handled.main]; rfl)
  · rw [← same_filter]
    rintro (is_ended | handled)
    · exact announced_perm_of_ended last is_ended
    · exact (accounted_reached ignored.reached).announced_perm handled.files handled.held
  · intro handled
    exact handled.ends (drained_reached last).counted not_back

/-- File 7 can be opened and is announced. -/
theorem unaffected_after_source : ∃ state,
    (openMachine flatDisk (fun path => decide (path = 8)) true [7] []).run (State.init [7] [])
        ([.main] ++ List.replicate 5 (.fileWorker 0) ++ List.replicate 4 .main) = some state ∧
      state.announced = [(7, 1)] ∧
        Unaffected flatDisk (fun path => decide (path = 8)) true [7] [] state := by
  refine ⟨_, rfl, rfl, unaffected_of_spared (.of_restrict (Machine.reached_of_run rfl
    ([.main] ++ List.replicate 5 (.fileWorker 0) ++ List.replicate 4 .main) rfl))⟩

/-! ## A worker that has returned -/

/-- A worker has returned without its bit, another is there, and no path is left. -/
structure Hung (failed live : Fin fileopenCount) (state : State Path) : Prop where
  handled : Handled state
  gone : state.workers failed = .exited
  clear : state.mask failed = false
  alive : state.workers live ≠ .exited

/-- While a bit is missing, no worker leaves. -/
theorem stepWorker_alive {id failed : Fin fileopenCount}
    (clear : state.mask failed = false)
    (taken : state.stepWorker system recursive id = some after) :
    after.workers id ≠ .exited := by
  cases workerStep taken with
  | exit _ full =>
      rw [full failed] at clear
      cases clear
  | _ => simp [State.setWorker]

theorem Hung.next {failed live : Fin fileopenCount} (hung : Hung failed live state)
    {label : Label} (taken : nextOpen system unopenable recursive state label = some after) :
    Hung failed live after := by
  cases label with
  | main =>
      have here : ¬state.disconnected = true := by
        intro gone
        exact hung.alive (disconnected_iff.mp gone live)
      simp only [nextOpen, State.stepMain, hung.handled.main, hung.handled.msgs, if_neg here,
        Option.some.injEq] at taken
      subst taken
      exact hung
  | fileWorker id =>
      simp only [nextOpen, hung.handled.opens, Bool.false_eq_true, if_false] at taken
      have others := stepWorker_others taken
      have apart : failed ≠ id := by
        rintro rfl
        simp [State.stepWorker, hung.gone] at taken
      obtain ⟨gone, clear, -⟩ := others failed apart
      constructor
      · exact hung.handled.stepWorker taken
      · rw [gone]
        exact hung.gone
      · rw [clear]
        exact hung.clear
      · by_cases same : live = id
        · subst same
          exact stepWorker_alive hung.clear taken
        · rw [(others live same).1]
          exact hung.alive
  | dirWorker id =>
      simp [nextOpen, State.stepDirWorker, hung.handled.dirWorkers id, hung.handled.dirs] at taken

/-- Such a state is never left. -/
theorem Hung.path {failed live : Fin fileopenCount} (hung : Hung failed live state)
    {allowed : Label → Prop} (path : (openMachine system unopenable recursive sources
      fileList).PathBy allowed state after) : Hung failed live after := by
  induction path with
  | refl => exact hung
  | tail _ last ih =>
      obtain ⟨label, -, taken⟩ := last
      exact ih.next taken

/-- A worker that has left without its bit: its open has failed. -/
def State.Failed (state : State Path) (id : Fin fileopenCount) : Prop :=
  state.workers id = .exited ∧ state.mask id = false

theorem failed_next {id : Fin fileopenCount} (failed : state.Failed id) {label : Label}
    (taken : nextOpen system unopenable recursive state label = some after) : after.Failed id := by
  obtain ⟨gone, clear⟩ := failed
  cases label with
  | main =>
      obtain ⟨workers, mask, -⟩ := stepMain_shared taken
      exact ⟨(congrFun workers id).trans gone, (congrFun mask id).trans clear⟩
  | dirWorker other =>
      obtain ⟨-, workers, mask, -⟩ := stepDirWorker_shared taken
      exact ⟨(congrFun workers id).trans gone, (congrFun mask id).trans clear⟩
  | fileWorker other =>
      by_cases same : id = other
      · subst same
        simp [nextOpen, FileSystem.openFails, State.stepWorker, gone] at taken
      · simp only [nextOpen] at taken
        split at taken
        · obtain rfl := Option.some.inj taken
          exact ⟨(state.setWorker_of_ne same _).trans gone, clear⟩
        · obtain ⟨workers, mask, -⟩ := stepWorker_others taken id same
          exact ⟨workers.trans gone, mask.trans clear⟩

/-- In every run that meets the other two conditions, no open has failed or the failure shows. -/
theorem reached_or_failed
    (reached : (openMachine system unopenable recursive sources fileList).ReachedUnder
      (fun state label => NotCalledBack state label ∧ LastBitOnEmpty state label) state) :
    (machine (system.ignoring unopenable) recursive sources fileList).ReachedUnder
      (fun state label => NotCalledBack state label ∧ LastBitOnEmpty state label) state ∨
        ∃ id, state.Failed id := by
  induction reached with
  | start initial => exact .inl (.start initial)
  | @step before after label _ allowed taken ih =>
      rcases ih with earlier | ⟨id, failed⟩
      · by_cases opens : Opens system unopenable before label
        · exact .inl (.step earlier allowed ((nextOpen_eq opens).symm.trans taken))
        · cases label with
          | main | dirWorker _ => exact absurd trivial opens
          | fileWorker id =>
              have fails : system.openFails unopenable before id = true :=
                Bool.eq_true_of_not_eq_false opens
              have marked := (drained_reached (earlier.mono fun _ _ both => both.2)).marked id
              simp only [openMachine, nextOpen, fails, if_true, Option.some.injEq] at taken
              subst taken
              refine .inr ⟨id, before.setWorker_self id _, Bool.eq_false_iff.mpr fun bit => ?_⟩
              have resting := marked.resting bit
              cases at_worker : before.workers id with
              | opening path =>
                  rw [at_worker] at resting
                  exact resting
              | _ => simp [FileSystem.openFails, at_worker] at fails
      · exact .inr ⟨id, failed_next failed taken⟩

/-- A handled state can end exactly if no open has failed, or all workers have left. -/
theorem ends_iff_none_failed
    (reached : (openMachine system unopenable recursive sources fileList).ReachedUnder
      (fun state label => NotCalledBack state label ∧ LastBitOnEmpty state label) state)
    (handled : Handled state) :
    (∃ after, (openMachine system unopenable recursive sources fileList).PathBy (fun _ => True)
      state after ∧ after.main = .ended) ↔
        (∀ id, ¬state.Failed id) ∨ ∀ id, state.workers id = .exited := by
  constructor
  · rintro ⟨after, path, is_ended⟩
    by_contra neither
    obtain ⟨some_failed, some_alive⟩ := not_or.mp neither
    obtain ⟨failed, gone, clear⟩ : ∃ id, state.Failed id := by
      simpa using some_failed
    obtain ⟨live, alive⟩ := not_forall.mp some_alive
    have hung : Hung failed live state := ⟨handled, gone, clear, alive⟩
    have still := (hung.path path).handled.main
    rw [is_ended] at still
    cases still
  · rintro (none | gone)
    · rcases reached_or_failed reached with earlier | ⟨id, failed⟩
      · have counted := (drained_reached (earlier.mono fun _ _ both => both.2)).counted
        obtain ⟨after, path, -, is_ended⟩ :=
          handled.ends counted (earlier.mono fun _ _ both => both.1)
        exact ⟨after, path, is_ended⟩
      · exact absurd failed (none id)
    · exact ⟨_, .single .main trivial (handled.stepMain gone), rfl⟩

/-- Worker 0 cannot open path 8 and returns; worker 1 announces file 7. -/
def openRefused : List Label :=
  [.main, .main, .fileWorker 0, .fileWorker 0] ++ List.replicate 5 (.fileWorker 1) ++
    List.replicate 4 .main

theorem hung_after_refused : ∃ state,
    (openMachine flatDisk (fun path => decide (path = 8)) true [8, 7] []).run
      (State.init [8, 7] []) openRefused = some state ∧ Hung 0 1 state := by
  refine ⟨_, rfl, ⟨rfl, rfl, rfl, rfl, ?_, fun _ => rfl⟩, rfl, rfl, ?_⟩
  · decide
  · nofun

/-- An unopenable path keeps the pipeline from ending. -/
theorem not_unaffected_of_refused :
    ¬∀ state, (openMachine flatDisk (fun path => decide (path = 8)) true [8, 7] []).Reached state →
      Unaffected flatDisk (fun path => decide (path = 8)) true [8, 7] [] state := by
  intro unaffected
  obtain ⟨state, taken, hung⟩ := hung_after_refused
  have reached := Machine.reached_of_run rfl openRefused taken
  obtain ⟨after, path, gone, -⟩ := (unaffected state reached).ends hung.handled
  exact (hung.path path).alive (gone 1)

end Listing
end EScp
