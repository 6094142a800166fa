import EScp.Listing
import EScp.Tally
import Mathlib.Data.Multiset.Filter
import Mathlib.Algebra.Order.Group.Multiset

/-!
# Every path is announced before the queue ends

`iterate_files` takes the end of the message channel for the end of the listing.  The channel ends
when all file workers have left, which they do on a full mask.  When the last bit of the mask is set
with nothing left to list, every regular file that was put on the path channel has been announced.
-/

namespace EScp
namespace Listing

variable {Path : Type*} (system : FileSystem Path)

/-! ## Regular files in flight -/

/-- The regular files of a list. -/
def FileSystem.regulars (paths : List Path) : Multiset Path :=
  ↑(paths.filter fun path => system.kind path = .regular)

@[simp] theorem FileSystem.regulars_nil : system.regulars [] = 0 := rfl

@[simp] theorem FileSystem.regulars_append (left right : List Path) :
    system.regulars (left ++ right) = system.regulars left + system.regulars right := by
  simp [regulars]

theorem FileSystem.regulars_cons (path : Path) (paths : List Path) :
    system.regulars (path :: paths) = system.regulars [path] + system.regulars paths :=
  system.regulars_append [path] paths

theorem FileSystem.regulars_of_ne {path : Path} (ne : system.kind path ≠ .regular) :
    system.regulars [path] = 0 := by
  simp [regulars, ne]

/-- The regular files that a file worker holds. -/
def FileSystem.holds (worker : FileWorker Path) : Multiset Path := system.regulars worker.held

/-- What a file worker has learnt about the path it holds. -/
def FileSystem.Knows : FileWorker Path → Prop
  | .takeNumber path | .addFile path _ | .sendMsg path _ => system.kind path = .regular
  | .countDir path | .sendDir path => system.kind path = .directory
  | _ => True

/-- Every regular file that was put on the path channel is there, with a worker, or announced. -/
structure Accounted (state : State Path) : Prop where
  knows : ∀ id, system.Knows (state.workers id)
  announced : ∀ msg ∈ state.announced, system.kind msg.1 = .regular
  balance : system.regulars state.put = system.regulars (state.announced.map Prod.fst) +
    (system.regulars state.files + tally system.holds state.workers)

variable {system} {state after : State Path}

theorem Accounted.keep (accounted : Accounted system state)
    (workers_eq : after.workers = state.workers) (announced_eq : after.announced = state.announced)
    (files_eq : after.files = state.files) (put_eq : after.put = state.put) :
    Accounted system after := by
  obtain ⟨knows, announced, balance⟩ := accounted
  refine ⟨?_, ?_, ?_⟩
  · rwa [workers_eq]
  · rwa [announced_eq]
  · rwa [put_eq, announced_eq, files_eq, workers_eq]

theorem Accounted.setMain (accounted : Accounted system state) (main : Main Path) :
    Accounted system (state.setMain main) := accounted.keep rfl rfl rfl rfl

theorem Accounted.setDirWorker (accounted : Accounted system state) (id : Fin diropenCount)
    (worker : DirWorker Path) : Accounted system (state.setDirWorker id worker) :=
  accounted.keep rfl rfl rfl rfl

theorem Accounted.sendFile (accounted : Accounted system state) {path : Path}
    (taken : state.sendFile path = some after) : Accounted system after := by
  rw [State.sendFile_eq taken]
  refine ⟨accounted.knows, accounted.announced, ?_⟩
  change system.regulars (state.put ++ [path]) = system.regulars (state.announced.map Prod.fst) +
    (system.regulars (state.files ++ [path]) + tally system.holds state.workers)
  rw [FileSystem.regulars_append, FileSystem.regulars_append, accounted.balance]
  ac_rfl

theorem knows_update {workers : Fin fileopenCount → FileWorker Path}
    (knows : ∀ id, system.Knows (workers id)) {id : Fin fileopenCount} {worker : FileWorker Path}
    (new : system.Knows worker) (other : Fin fileopenCount) :
    system.Knows (Function.update workers id worker other) := by
  by_cases same : other = id
  · rw [same, Function.update_self]
    exact new
  · rw [Function.update_of_ne same]
    exact knows other

/-- A worker moves on with the regular files it holds. -/
theorem Accounted.setWorker (accounted : Accounted system state) {id : Fin fileopenCount}
    {worker : FileWorker Path} (knows : system.Knows worker)
    (same : system.holds worker = system.holds (state.workers id)) :
    Accounted system (state.setWorker id worker) where
  knows := knows_update accounted.knows knows
  announced := accounted.announced
  balance := by
    have tally_eq : tally system.holds (state.setWorker id worker).workers =
        tally system.holds state.workers := tally_update_same same
    rw [tally_eq]
    exact accounted.balance

theorem Accounted.receive (accounted : Accounted system state) {id : Fin fileopenCount}
    {path : Path} {rest : List Path} {worker : FileWorker Path}
    (files_eq : state.files = path :: rest) (idle : system.holds (state.workers id) = 0)
    (knows : system.Knows worker)
    (holds : system.holds worker = system.regulars [path]) :
    Accounted system { state.setWorker id worker with files := rest } where
  knows := knows_update accounted.knows knows
  announced := accounted.announced
  balance := by
    have taken_up : tally system.holds (Function.update state.workers id worker) =
        tally system.holds state.workers + system.holds worker := tally_update_take idle
    change system.regulars state.put = system.regulars (state.announced.map Prod.fst) +
      (system.regulars rest + tally system.holds (Function.update state.workers id worker))
    rw [accounted.balance, files_eq, system.regulars_cons path rest, taken_up, holds]
    ac_rfl

theorem Accounted.announce (accounted : Accounted system state) {id : Fin fileopenCount}
    {path : Path} {fino : Nat} (at_worker : state.workers id = .sendMsg path fino)
    (msgs : List (Path × Nat)) :
    Accounted system { state.setWorker id .waiting with
      msgs := msgs
      announced := state.announced ++ [(path, fino)] } where
  knows := knows_update accounted.knows trivial
  announced := by
    have regular := accounted.knows id
    rw [at_worker] at regular
    intro msg mem
    rcases List.mem_append.mp mem with earlier | last
    · exact accounted.announced msg earlier
    · rw [List.mem_singleton.mp last]
      exact regular
  balance := by
    have given_up : tally system.holds (Function.update state.workers id .waiting) +
        system.holds (state.workers id) = tally system.holds state.workers :=
      tally_update_give rfl
    rw [at_worker] at given_up
    change system.regulars state.put =
      system.regulars ((state.announced ++ [(path, fino)]).map Prod.fst) +
        (system.regulars state.files +
          tally system.holds (Function.update state.workers id .waiting))
    rw [accounted.balance, ← given_up, List.map_append, system.regulars_append]
    change _ =
      system.regulars (state.announced.map Prod.fst) + system.holds (.sendMsg path fino) + _
    ac_rfl

/-- A worker drops a path that is no regular file. -/
theorem Accounted.drop (accounted : Accounted system state) {id : Fin fileopenCount} {path : Path}
    (held : (state.workers id).held = [path]) (ne : system.kind path ≠ .regular) :
    Accounted system (state.setWorker id .waiting) := by
  refine accounted.setWorker trivial ?_
  rw [FileSystem.holds, FileSystem.holds, held, system.regulars_of_ne ne]
  rfl

theorem Accounted.stepWorker {recursive : Bool} (accounted : Accounted system state)
    {id : Fin fileopenCount} (taken : state.stepWorker system recursive id = some after) :
    Accounted system after := by
  have knows := accounted.knows id
  cases workerStep taken with
  | timeout at_worker _ | loadTail at_worker | unequal at_worker _ | equal at_worker _ _
  | equalReady at_worker _ _ | exit at_worker _ | stay at_worker _ =>
      exact accounted.setWorker trivial (by rw [at_worker]; rfl)
  | receive at_worker files_eq _ | receiveReady at_worker files_eq _ =>
      exact accounted.receive files_eq (by rw [at_worker]; rfl) trivial rfl
  | setBit at_worker =>
      have moved : Accounted system (state.setWorker id .loadMask) :=
        accounted.setWorker trivial (by rw [at_worker]; rfl)
      exact moved.keep rfl rfl rfl rfl
  | @clearBit path at_worker =>
      have moved : Accounted system (state.setWorker id (.opening path)) :=
        accounted.setWorker trivial (by rw [at_worker]; rfl)
      exact moved.keep rfl rfl rfl rfl
  | regular at_worker kind_eq | directory at_worker kind_eq =>
      exact accounted.setWorker kind_eq (by rw [at_worker]; rfl)
  | drop at_worker kind_ne => exact accounted.drop (by rw [at_worker]; rfl) kind_ne
  | @countDir path at_worker =>
      rw [at_worker] at knows
      have moved : Accounted system (state.setWorker id (.sendDir path)) :=
        accounted.setWorker knows (by rw [at_worker]; rfl)
      exact moved.keep rfl rfl rfl rfl
  | @sendDir path at_worker =>
      rw [at_worker] at knows
      have directory : system.kind path = .directory := knows
      have moved : Accounted system (state.setWorker id .waiting) :=
        accounted.drop (by rw [at_worker]; rfl) (by rw [directory]; decide)
      exact moved.keep rfl rfl rfl rfl
  | @takeNumber path at_worker =>
      rw [at_worker] at knows
      have moved : Accounted system (state.setWorker id (.addFile path (state.fino + 1))) :=
        accounted.setWorker knows (by rw [at_worker]; rfl)
      exact moved.keep rfl rfl rfl rfl
  | addFile at_worker =>
      rw [at_worker] at knows
      exact accounted.setWorker knows (by rw [at_worker]; rfl)
  | sendMsg at_worker _ => exact accounted.announce at_worker _

theorem Accounted.next {recursive : Bool} (accounted : Accounted system state) {label : Label}
    (taken : Listing.next system recursive state label = some after) :
    Accounted system after := by
  cases label with
  | main =>
      cases mainStep taken with
      | source _ sent | entry _ sent => exact (accounted.setMain _).sendFile sent
      | noSource _ | credit _ | noEntry _ | read _ _ | ended _ _ | polled _ =>
          exact accounted.keep rfl rfl rfl rfl
  | fileWorker id => exact accounted.stepWorker taken
  | dirWorker id =>
      cases dirStep taken with
      | entry _ sent => exact (accounted.setDirWorker id _).sendFile sent
      | receive _ _ | list _ | credit _ => exact accounted.keep rfl rfl rfl rfl

/-! ## Directories in flight -/

/-- A worker has counted a directory and not sent it yet. -/
def FileWorker.owes : FileWorker Path → Nat
  | .sendDir _ => 1
  | _ => 0

/-- A directory worker has not credited its directory yet. -/
def DirWorker.owes : DirWorker Path → Nat
  | .waiting => 0
  | _ => 1

/-- The main thread has not credited itself yet. -/
def Main.owes : Main Path → Nat
  | .sources _ _ | .creditTail _ => 1
  | _ => 0

/-- `GLOBAL_FILEOPEN_CLEANUP` is ahead of `GLOBAL_FILEOPEN_TAIL` by what is in flight. -/
structure Counted (state : State Path) : Prop where
  balance : state.cleanup = state.tail + (state.main.owes + tally FileWorker.owes state.workers +
    state.dirs.length + tally DirWorker.owes state.dirWorkers)
  stale : ∀ id tail, state.workers id = .loadCleanup tail → tail ≤ state.tail

theorem Counted.le (counted : Counted state) : state.tail ≤ state.cleanup :=
  counted.balance ▸ Nat.le_add_right _ _

/-- Nothing is in flight when the counters are equal. -/
theorem Counted.settled (counted : Counted state) (level : state.tail = state.cleanup) :
    state.main.owes = 0 ∧ state.dirs = [] ∧ ∀ id, (state.dirWorkers id).owes = 0 := by
  have balance := counted.balance
  have dirs_zero : state.dirs.length = 0 := by omega
  have busy_zero : tally DirWorker.owes state.dirWorkers = 0 := by omega
  refine ⟨by omega, List.length_eq_zero_iff.mp dirs_zero, fun id => ?_⟩
  exact (Finset.sum_eq_zero_iff.mp busy_zero) id (Finset.mem_univ id)

theorem stale_update {workers : Fin fileopenCount → FileWorker Path} {bound limit : Nat}
    (stale : ∀ id tail, workers id = .loadCleanup tail → tail ≤ bound) (le : bound ≤ limit)
    {id : Fin fileopenCount} {worker : FileWorker Path}
    (new : ∀ tail, worker = .loadCleanup tail → tail ≤ limit) (other : Fin fileopenCount)
    (tail : Nat) (at_cleanup : Function.update workers id worker other = .loadCleanup tail) :
    tail ≤ limit := by
  by_cases same : other = id
  · rw [same, Function.update_self] at at_cleanup
    exact new tail at_cleanup
  · rw [Function.update_of_ne same] at at_cleanup
    exact (stale other tail at_cleanup).trans le

theorem Counted.setWorker (counted : Counted state) {id : Fin fileopenCount}
    {worker : FileWorker Path} (same : worker.owes = (state.workers id).owes)
    (new : ∀ tail, worker = .loadCleanup tail → tail ≤ state.tail) :
    Counted (state.setWorker id worker) where
  balance := by
    have tally_eq : tally FileWorker.owes (state.setWorker id worker).workers =
        tally FileWorker.owes state.workers := tally_update_same same
    rw [tally_eq]
    exact counted.balance
  stale := stale_update counted.stale le_rfl new

/-- Steps that touch neither counters nor what is counted. -/
theorem Counted.keep (counted : Counted state) (workers_eq : after.workers = state.workers)
    (dirs_eq : after.dirs = state.dirs) (busy_eq : after.dirWorkers = state.dirWorkers)
    (owes_eq : after.main.owes = state.main.owes) (cleanup_eq : after.cleanup = state.cleanup)
    (tail_eq : after.tail = state.tail) : Counted after where
  balance := by
    rw [workers_eq, dirs_eq, busy_eq, owes_eq, cleanup_eq, tail_eq]
    exact counted.balance
  stale := by
    rw [workers_eq, tail_eq]
    exact counted.stale

theorem Counted.stepWorker {recursive : Bool} (counted : Counted state)
    {id : Fin fileopenCount} (taken : state.stepWorker system recursive id = some after) :
    Counted after := by
  have balance := counted.balance
  have moved (worker : FileWorker Path) (same : worker.owes = (state.workers id).owes)
      (other : ∀ tail, worker ≠ .loadCleanup tail) : Counted (state.setWorker id worker) :=
    counted.setWorker same fun tail at_cleanup => (other tail at_cleanup).elim
  cases workerStep taken with
  | timeout at_worker _ | unequal at_worker _ | equal at_worker _ _ | equalReady at_worker _ _
  | exit at_worker _ | stay at_worker _ | regular at_worker _ | directory at_worker _
  | drop at_worker _ | addFile at_worker =>
      exact moved _ (by rw [at_worker]; rfl) (by simp)
  | receive at_worker _ _ | receiveReady at_worker _ _ | setBit at_worker | clearBit at_worker
  | takeNumber at_worker | sendMsg at_worker _ =>
      exact (moved _ (by rw [at_worker]; rfl) (by simp)).keep rfl rfl rfl rfl rfl rfl
  | loadTail at_worker =>
      refine counted.setWorker (by rw [at_worker]; rfl) fun tail at_cleanup => ?_
      injection at_cleanup with tail_eq
      exact tail_eq.ge
  | @countDir path at_worker =>
      have taken_up : tally FileWorker.owes (Function.update state.workers id (.sendDir path)) =
          tally FileWorker.owes state.workers + 1 :=
        tally_update_take (by rw [at_worker]; rfl)
      refine ⟨?_, stale_update counted.stale le_rfl (by simp)⟩
      simp only [State.setWorker, taken_up]
      omega
  | sendDir at_worker =>
      have given_up : tally FileWorker.owes (Function.update state.workers id .waiting) +
          (state.workers id).owes = tally FileWorker.owes state.workers := tally_update_give rfl
      rw [at_worker] at given_up
      simp only [FileWorker.owes] at given_up
      refine ⟨?_, stale_update counted.stale le_rfl (by simp)⟩
      simp only [State.setWorker, List.length_append, List.length_singleton]
      omega

theorem Counted.setMain (counted : Counted state) {main : Main Path}
    (same : main.owes = state.main.owes) : Counted (state.setMain main) :=
  counted.keep rfl rfl rfl same rfl rfl

theorem Counted.sendFile (counted : Counted state) {path : Path}
    (taken : state.sendFile path = some after) : Counted after := by
  rw [State.sendFile_eq taken]
  exact counted.keep rfl rfl rfl rfl rfl rfl

theorem Counted.stepMain (counted : Counted state) (taken : state.stepMain = some after) :
    Counted after := by
  cases mainStep taken with
  | source at_main sent | entry at_main sent =>
      exact Counted.sendFile (counted.setMain (by rw [at_main]; rfl)) sent
  | noSource at_main | noEntry at_main | ended at_main _ =>
      exact counted.setMain (by rw [at_main]; rfl)
  | credit at_main =>
      have balance := counted.balance
      refine ⟨?_, fun id tail at_cleanup =>
        (counted.stale id tail at_cleanup).trans (Nat.le_succ _)⟩
      simp only [at_main, Main.owes] at balance
      simp only [State.setMain, Main.owes]
      omega
  | read at_main _ => exact counted.keep rfl rfl rfl (by rw [at_main]) rfl rfl
  | polled _ => exact counted

theorem Counted.setDirWorker (counted : Counted state) {id : Fin diropenCount}
    {worker : DirWorker Path} (same : worker.owes = (state.dirWorkers id).owes) :
    Counted (state.setDirWorker id worker) where
  balance := by
    have tally_eq : tally DirWorker.owes (state.setDirWorker id worker).dirWorkers =
        tally DirWorker.owes state.dirWorkers := tally_update_same same
    rw [tally_eq]
    exact counted.balance
  stale := counted.stale

theorem Counted.stepDirWorker (counted : Counted state) {id : Fin diropenCount}
    (taken : state.stepDirWorker system id = some after) : Counted after := by
  have balance := counted.balance
  cases dirStep taken with
  | @receive path rest at_worker dirs_eq =>
      have taken_up : tally DirWorker.owes (Function.update state.dirWorkers id (.opening path)) =
          tally DirWorker.owes state.dirWorkers + 1 :=
        tally_update_take (by rw [at_worker]; rfl)
      refine ⟨?_, counted.stale⟩
      simp only [dirs_eq, List.length_cons] at balance
      simp only [State.setDirWorker, taken_up]
      omega
  | list at_worker => exact counted.setDirWorker (by rw [at_worker]; rfl)
  | entry at_worker sent =>
      exact Counted.sendFile (counted.setDirWorker (by rw [at_worker]; rfl)) sent
  | credit at_worker =>
      have given_up : tally DirWorker.owes (Function.update state.dirWorkers id .waiting) +
          (state.dirWorkers id).owes = tally DirWorker.owes state.dirWorkers :=
        tally_update_give rfl
      rw [at_worker] at given_up
      simp only [DirWorker.owes] at given_up
      refine ⟨?_, fun id tail at_cleanup =>
        (counted.stale id tail at_cleanup).trans (Nat.le_succ _)⟩
      simp only [State.setDirWorker]
      omega

/-! ## Workers that have set their bit -/

/-- Where a worker can be while its bit is set. -/
def FileWorker.Resting : FileWorker Path → Prop
  | .waiting | .loadTail | .loadCleanup _ | .loadMask | .clearBit _ | .exited => True
  | _ => False

/-- A bit tells that its worker is done, at least until it receives a path. -/
structure Marked (state : State Path) (id : Fin fileopenCount) : Prop where
  ready : state.mask id = true → state.exitReady id = true
  resting : state.mask id = true → (state.workers id).Resting
  exited : state.workers id = .exited → state.mask id = true

/-- What happens to the others leaves the bit of a worker marked. -/
theorem Marked.keep {after : State Path} {id : Fin fileopenCount} (marked : Marked state id)
    (mask_eq : after.mask id = state.mask id) (ready_eq : after.exitReady id = state.exitReady id)
    (workers_eq : after.workers id = state.workers id) : Marked after id := by
  constructor
  · rw [mask_eq, ready_eq]
    exact marked.ready
  · rw [mask_eq, workers_eq]
    exact marked.resting
  · rw [mask_eq, workers_eq]
    exact marked.exited

/-- The bit of the worker is set and it is not about to clear it. -/
def State.Settled (state : State Path) (id : Fin fileopenCount) : Prop :=
  state.mask id = true ∧ ∀ path, state.workers id ≠ .clearBit path

/-- One more bit and the worker is settled. -/
def State.Settles (state : State Path) (id : Fin fileopenCount) : Prop :=
  state.Settled id ∨ state.workers id = .setBit

/-- A step of a worker concerns its own bit, flag and place. -/
theorem stepWorker_others {recursive : Bool} {id : Fin fileopenCount}
    (taken : state.stepWorker system recursive id = some after) (other : Fin fileopenCount)
    (ne : other ≠ id) : after.workers other = state.workers other ∧
      after.mask other = state.mask other ∧ after.exitReady other = state.exitReady other := by
  cases workerStep taken <;> simp [State.setWorker, ne]

/-- A worker that moves from one place where its bit may be set to another. -/
theorem Marked.move {id : Fin fileopenCount} (marked : Marked state id) {worker : FileWorker Path}
    (resting : worker.Resting) (stays : worker ≠ .exited ∨ state.mask id = true)
    (other : ∀ path, state.workers id ≠ .clearBit path) :
    Marked (state.setWorker id worker) id ∧
      ((state.setWorker id worker).Settled id → state.Settled id) where
  left :=
    { ready := marked.ready
      resting := fun _ => by rwa [State.setWorker_self]
      exited := fun gone => by
        rw [State.setWorker_self] at gone
        exact stays.resolve_left (absurd gone) }
  right settled := ⟨settled.1, other⟩

/-- A worker whose bit is clear moves on. -/
theorem Marked.of_clear {id : Fin fileopenCount} {worker : FileWorker Path}
    (clear : after.mask id = false) (at_worker : after.workers id = worker)
    (stays : worker ≠ .exited) : Marked after id ∧ ¬after.Settled id where
  left :=
    { ready := fun set => by rw [clear] at set; cases set
      resting := fun set => by rw [clear] at set; cases set
      exited := fun gone => (stays (at_worker.symm.trans gone)).elim }
  right settled := by
    rw [State.Settled, clear] at settled
    cases settled.1

/-- What a step of a worker does to its own bit: it settles only through `setBit`, and comes to
`setBit` only while the counters are equal. -/
theorem stepWorker_marked {recursive : Bool} {id : Fin fileopenCount} (marked : Marked state id)
    (counted : Counted state) (taken : state.stepWorker system recursive id = some after) :
    Marked after id ∧ (after.Settled id → state.Settles id) ∧
      (after.workers id = .setBit → state.tail = state.cleanup) := by
  have clear (busy : ¬(state.workers id).Resting) : state.mask id = false := by
    by_contra set
    exact busy (marked.resting (Bool.eq_true_of_not_eq_false set))
  have unready (not_ready : state.exitReady id = false) : state.mask id = false := by
    by_contra set
    have ready := marked.ready (Bool.eq_true_of_not_eq_false set)
    rw [not_ready] at ready
    cases ready
  -- A worker whose bit is clear does not settle without `setBit`.
  have unset {next : State Path} {worker : FileWorker Path} (mask_clear : next.mask id = false)
      (at_next : next.workers id = worker) (stays : worker ≠ .exited)
      (counters : worker = .setBit → state.tail = state.cleanup) :
      Marked next id ∧ (next.Settled id → state.Settles id) ∧
        (next.workers id = .setBit → state.tail = state.cleanup) :=
    have cleared := Marked.of_clear mask_clear at_next stays
    ⟨cleared.1, fun settled => (cleared.2 settled).elim, fun at_bit =>
      counters (at_next.symm.trans at_bit)⟩
  -- A worker that may have its bit set moves on to such a place.
  have rest {worker : FileWorker Path} (resting : worker.Resting)
      (stays : worker ≠ .exited ∨ state.mask id = true)
      (other : ∀ path, state.workers id ≠ .clearBit path) :
      Marked (state.setWorker id worker) id ∧
        ((state.setWorker id worker).Settled id → state.Settles id) ∧
        ((state.setWorker id worker).workers id = .setBit → state.tail = state.cleanup) := by
    have moved := marked.move resting stays other
    refine ⟨moved.1, fun settled => Or.inl (moved.2 settled), fun at_bit => ?_⟩
    rw [State.setWorker_self] at at_bit
    rw [at_bit] at resting
    exact resting.elim
  cases workerStep taken with
  | timeout at_worker _ | loadTail at_worker | unequal at_worker _ | equalReady at_worker _ _
  | stay at_worker _ =>
      exact rest trivial (Or.inl (by simp)) (by simp [at_worker])
  | receive at_worker _ not_ready =>
      exact unset (unready not_ready) (State.setWorker_self ..) (by simp) (by simp)
  | @receiveReady path _ at_worker _ _ =>
      refine ⟨⟨marked.ready, fun _ => ?_, fun gone => ?_⟩, fun settled => ?_, fun at_bit => ?_⟩
      · simp [State.setWorker, FileWorker.Resting]
      · simp [State.setWorker] at gone
      · exact (settled.2 path (by simp [State.setWorker])).elim
      · simp [State.setWorker] at at_bit
  | @equal tail at_worker done not_ready =>
      refine unset (unready not_ready) (State.setWorker_self ..) (by simp) fun _ => ?_
      have stale := counted.stale id tail at_worker
      have le := counted.le
      omega
  | setBit at_worker =>
      refine ⟨⟨fun _ => ?_, fun _ => ?_, fun gone => ?_⟩, fun _ => Or.inr at_worker,
        fun at_bit => ?_⟩
      · exact Function.update_self ..
      · simp [State.setWorker, FileWorker.Resting]
      · simp [State.setWorker] at gone
      · simp [State.setWorker] at at_bit
  | exit at_worker full => exact rest trivial (Or.inr (full id)) (by simp [at_worker])
  | clearBit at_worker =>
      exact unset (Function.update_self ..) (State.setWorker_self ..) (by simp) (by simp)
  | regular at_worker _ | directory at_worker _ | drop at_worker _ | countDir at_worker
  | sendDir at_worker | takeNumber at_worker | addFile at_worker | sendMsg at_worker _ =>
      exact unset (clear (by rw [at_worker]; exact not_false)) (State.setWorker_self ..) (by simp)
        (by simp)

/-! ## The last bit -/

/-- The last bit of the mask is set with nothing left on the path channel and nothing left for the
main thread to put there. -/
def LastBitOnEmpty (state : State Path) : Label → Prop
  | .fileWorker id =>
      match state.workers id with
      | .setBit => (∀ other, other ≠ id → state.mask other = true) →
          state.files.isEmpty = true ∧ state.main.pending.isEmpty = true
      | _ => True
  | _ => True

instance (state : State Path) (label : Label) : Decidable (LastBitOnEmpty state label) := by
  unfold LastBitOnEmpty
  split
  · split <;> infer_instance
  · infer_instance

/-- When all workers are settled, nothing is left to list. -/
structure Drained (state : State Path) : Prop where
  counted : Counted state
  marked : ∀ id, Marked state id
  level : (∀ id, state.Settles id) → state.tail = state.cleanup
  empty : (∀ id, state.Settled id) → state.files = [] ∧ state.main.pending = []

/-- What a step of a worker does to the rest. -/
theorem stepWorker_shared {recursive : Bool} {id : Fin fileopenCount}
    (taken : state.stepWorker system recursive id = some after) :
    after.main = state.main ∧ after.tail = state.tail ∧ (state.files = [] → after.files = []) ∧
      (after.cleanup = state.cleanup ∨ ∃ path, after.workers id = .sendDir path) := by
  cases workerStep taken with
  | receive _ files_eq _ | receiveReady _ files_eq _ => simp [State.setWorker, files_eq]
  | _ => simp [State.setWorker]

/-- What a step of the main thread does. -/
theorem stepMain_shared (taken : state.stepMain = some after) :
    after.workers = state.workers ∧ after.mask = state.mask ∧
      after.exitReady = state.exitReady ∧ after.cleanup = state.cleanup ∧
      (state.main.owes = 0 → after.tail = state.tail) ∧
      (state.main.pending = [] → after.files = state.files ∧ after.main.pending = []) := by
  cases mainStep taken with
  | source at_main sent | entry at_main sent =>
      rw [State.sendFile_eq sent, at_main]
      simp [State.setMain, Main.pending]
  | noSource at_main | credit at_main => simp [State.setMain, at_main, Main.owes, Main.pending]
  | noEntry _ | ended _ _ => simp [State.setMain, Main.pending]
  | read at_main _ => simp [at_main, Main.pending]
  | polled at_main => simp [at_main, Main.pending]

/-- What a step of a directory worker does. -/
theorem stepDirWorker_shared {id : Fin diropenCount}
    (taken : state.stepDirWorker system id = some after) :
    after.main = state.main ∧ after.workers = state.workers ∧ after.mask = state.mask ∧
      after.exitReady = state.exitReady ∧ after.cleanup = state.cleanup ∧
      ((state.dirWorkers id).owes = 0 → after.tail = state.tail ∧ after.files = state.files) := by
  cases dirStep taken with
  | entry at_worker sent =>
      rw [State.sendFile_eq sent, at_worker]
      simp [State.setDirWorker, DirWorker.owes]
  | receive _ _ | list _ => simp [State.setDirWorker]
  | credit at_worker => simp [State.setDirWorker, at_worker, DirWorker.owes]

theorem Drained.stepWorker {recursive : Bool} (drained : Drained state)
    {id : Fin fileopenCount} (allowed : LastBitOnEmpty state (.fileWorker id))
    (taken : state.stepWorker system recursive id = some after) : Drained after := by
  obtain ⟨main_eq, tail_eq, files_nil, cleanup_eq⟩ := stepWorker_shared taken
  obtain ⟨marked, from_settled, from_bit⟩ :=
    stepWorker_marked (drained.marked id) drained.counted taken
  have others := stepWorker_others taken
  have settled_other {other : Fin fileopenCount} (ne : other ≠ id) (settled : after.Settled other) :
      state.Settled other := by
    obtain ⟨workers_eq, mask_eq, -⟩ := others other ne
    rwa [State.Settled, mask_eq, workers_eq] at settled
  refine ⟨drained.counted.stepWorker taken, fun other => ?_, fun all => ?_, fun all => ?_⟩
  · by_cases same : other = id
    · rw [same]
      exact marked
    · obtain ⟨workers_eq, mask_eq, ready_eq⟩ := others other same
      exact (drained.marked other).keep mask_eq ready_eq workers_eq
  · have unchanged : after.cleanup = state.cleanup := by
      refine cleanup_eq.resolve_right ?_
      rintro ⟨path, at_send⟩
      rcases all id with settled | at_bit
      · have resting := marked.resting settled.1
        rw [at_send] at resting
        exact resting
      · rw [at_send] at at_bit
        cases at_bit
    have level : state.tail = state.cleanup := by
      rcases all id with settled | at_bit
      · refine drained.level fun other => ?_
        by_cases same : other = id
        · rw [same]
          exact from_settled settled
        · refine (all other).imp (settled_other same) fun at_bit => ?_
          rwa [(others other same).1] at at_bit
      · exact from_bit at_bit
    rw [tail_eq, unchanged, level]
  · have empty : state.files = [] ∧ state.main.pending = [] := by
      rcases from_settled (all id) with settled | at_bit
      · refine drained.empty fun other => ?_
        by_cases same : other = id
        · rw [same]
          exact settled
        · exact settled_other same (all other)
      · simp only [LastBitOnEmpty, at_bit] at allowed
        have last := allowed fun other ne => (settled_other ne (all other)).1
        exact ⟨List.isEmpty_iff.mp last.1, List.isEmpty_iff.mp last.2⟩
    rw [main_eq]
    exact ⟨files_nil empty.1, empty.2⟩

theorem Drained.next {recursive : Bool} (drained : Drained state) {label : Label}
    (allowed : LastBitOnEmpty state label)
    (taken : Listing.next system recursive state label = some after) : Drained after := by
  cases label with
  | fileWorker id => exact drained.stepWorker allowed taken
  | main =>
      obtain ⟨workers_eq, mask_eq, ready_eq, cleanup_eq, tail_eq, pending_eq⟩ :=
        stepMain_shared taken
      have settled_eq (id : Fin fileopenCount) : after.Settled id ↔ state.Settled id := by
        rw [State.Settled, State.Settled, mask_eq, workers_eq]
      refine ⟨drained.counted.stepMain taken, fun id => ?_, fun all => ?_, fun all => ?_⟩
      · exact (drained.marked id).keep (congrFun mask_eq id) (congrFun ready_eq id)
          (congrFun workers_eq id)
      · have level : state.tail = state.cleanup := drained.level fun id =>
          (all id).imp (settled_eq id).mp fun at_bit => by rwa [workers_eq] at at_bit
        rw [cleanup_eq, tail_eq (drained.counted.settled level).1, level]
      · obtain ⟨files_nil, pending_nil⟩ := drained.empty fun id => (settled_eq id).mp (all id)
        obtain ⟨files_eq, after_pending⟩ := pending_eq pending_nil
        exact ⟨files_eq.trans files_nil, after_pending⟩
  | dirWorker id =>
      obtain ⟨main_eq, workers_eq, mask_eq, ready_eq, cleanup_eq, idle⟩ :=
        stepDirWorker_shared taken
      have settled_eq (id : Fin fileopenCount) : after.Settled id ↔ state.Settled id := by
        rw [State.Settled, State.Settled, mask_eq, workers_eq]
      have level (all : ∀ id, after.Settles id) : state.tail = state.cleanup :=
        drained.level fun id =>
          (all id).imp (settled_eq id).mp fun at_bit => by rwa [workers_eq] at at_bit
      refine ⟨drained.counted.stepDirWorker taken, fun id => ?_, fun all => ?_, fun all => ?_⟩
      · exact (drained.marked id).keep (congrFun mask_eq id) (congrFun ready_eq id)
          (congrFun workers_eq id)
      · have nothing := (drained.counted.settled (level all)).2.2 id
        rw [cleanup_eq, (idle nothing).1, level all]
      · have nothing := (drained.counted.settled (level fun id => Or.inl (all id))).2.2 id
        obtain ⟨files_nil, pending_nil⟩ := drained.empty fun id => (settled_eq id).mp (all id)
        rw [main_eq]
        exact ⟨(idle nothing).2.trans files_nil, pending_nil⟩

/-! ## The end of the queue -/

/-- What the main thread has not to send any more is on record, and it ends after the workers. -/
structure Told (sources fileList : List Path) (state : State Path) : Prop where
  listed : ∃ sent, sources ++ fileList.reverse = sent ++ state.main.pending ∧ sent.Sublist state.put
  ended : state.main = .ended → ∀ id, state.workers id = .exited

theorem disconnected_iff : state.disconnected = true ↔ ∀ id, state.workers id = .exited := by
  rw [State.disconnected, List.all_eq_true]
  constructor
  · intro gone id
    have at_id := gone id (List.mem_finRange id)
    cases at_worker : state.workers id <;> simp [at_worker] at at_id
    rfl
  · intro gone id _
    rw [gone id]

theorem Told.next {sources fileList : List Path} {recursive : Bool}
    (told : Told sources fileList state) {label : Label}
    (taken : Listing.next system recursive state label = some after) :
    Told sources fileList after := by
  obtain ⟨⟨sent, split_eq, sublist⟩, ended⟩ := told
  cases label with
  | main =>
      -- what is left is what there was, less what is sent
      have kept {main : Main Path} (same : main.pending = state.main.pending) :
          sources ++ fileList.reverse = sent ++ main.pending := by rw [split_eq, same]
      have sends {main : Main Path} {path : Path}
          (same : state.main.pending = path :: main.pending) :
          sources ++ fileList.reverse = sent ++ [path] ++ main.pending := by
        rw [split_eq, same, List.append_assoc, List.singleton_append]
      cases mainStep taken with
      | source at_main given | entry at_main given =>
          rw [State.sendFile_eq given]
          refine ⟨⟨_, sends (by rw [at_main]; rfl), sublist.append_right _⟩, ?_⟩
          simp [State.setMain]
      | noSource at_main | noEntry at_main | credit at_main =>
          refine ⟨⟨sent, kept (by rw [at_main]; rfl), sublist⟩, ?_⟩
          simp [State.setMain]
      | read at_main _ | polled at_main => exact ⟨⟨sent, split_eq, sublist⟩, ended⟩
      | ended at_main gone =>
          exact ⟨⟨sent, kept (by rw [at_main]; rfl), sublist⟩, fun _ => disconnected_iff.mp gone⟩
  | fileWorker id =>
      have main_eq := (stepWorker_shared taken).1
      have put_eq : after.put = state.put := by cases workerStep taken <;> rfl
      refine ⟨⟨sent, by rw [main_eq, split_eq], by rw [put_eq]; exact sublist⟩, fun is_ended => ?_⟩
      have gone := ended (main_eq.symm.trans is_ended) id
      simp [Listing.next, State.stepWorker, gone] at taken
  | dirWorker id =>
      obtain ⟨main_eq, workers_eq, -⟩ := stepDirWorker_shared taken
      have grows : state.put.Sublist after.put := by
        cases dirStep taken with
        | receive _ _ | list _ | credit _ => exact .refl _
        | entry _ given =>
            rw [State.sendFile_eq given]
            exact List.sublist_append_left _ _
      refine ⟨⟨sent, by rw [main_eq, split_eq], sublist.trans grows⟩, fun is_ended => ?_⟩
      rw [workers_eq]
      exact ended (main_eq.symm.trans is_ended)

theorem accounted_reached {recursive : Bool} {sources fileList : List Path}
    (reached : (machine system recursive sources fileList).Reached state) :
    Accounted system state := by
  refine reached.invariant (Accounted system) ?_ fun _ _ _ kept _ taken => kept.next taken
  rintro _ rfl
  exact ⟨fun _ => trivial, by simp [State.init], rfl⟩

theorem told_reached {recursive : Bool} {sources fileList : List Path}
    (reached : (machine system recursive sources fileList).Reached state) :
    Told sources fileList state := by
  refine reached.invariant (Told sources fileList) ?_ fun _ _ _ kept _ taken => kept.next taken
  rintro _ rfl
  exact ⟨⟨[], rfl, .refl _⟩, by simp [State.init]⟩

/-- When the main thread has seen the end of the message channel, all sources and all entries of the
file list were put on the path channel, and the regular files that were put there, by the main
thread or by a directory worker, are announced, once for each occurrence. -/
structure Complete (system : FileSystem Path) (sources fileList : List Path) (state : State Path) :
    Prop where
  listed : state.main = .ended → (sources ++ fileList.reverse).Sublist state.put
  announced : state.main = .ended →
    (state.announced.map Prod.fst).Perm (state.put.filter fun path => system.kind path = .regular)

/-- When no regular file is on its way, all that were put on the path channel are announced. -/
theorem Accounted.announced_perm (accounted : Accounted system state) (files : state.files = [])
    (held : ∀ id, (state.workers id).held = []) :
    (state.announced.map Prod.fst).Perm
      (state.put.filter fun path => system.kind path = .regular) := by
  have idle : tally system.holds state.workers = 0 :=
    tally_zero fun id => by rw [FileSystem.holds, held id, system.regulars_nil]
  have balance := accounted.balance
  rw [files, idle, system.regulars_nil, add_zero, add_zero] at balance
  have all_regular : (state.announced.map Prod.fst).filter
      (fun path => system.kind path = .regular) = state.announced.map Prod.fst := by
    rw [List.filter_eq_self]
    intro path mem
    obtain ⟨msg, listed, rfl⟩ := List.mem_map.mp mem
    exact decide_eq_true (accounted.announced msg listed)
  rw [FileSystem.regulars, FileSystem.regulars, all_regular] at balance
  exact (Multiset.coe_eq_coe.mp balance).symm

/-- When the main thread has nothing left to send, it has sent everything. -/
theorem Told.listed_sublist {sources fileList : List Path} (told : Told sources fileList state)
    (pending : state.main.pending = []) : (sources ++ fileList.reverse).Sublist state.put := by
  obtain ⟨sent, split_eq, sublist⟩ := told.listed
  rw [pending, List.append_nil] at split_eq
  rw [split_eq]
  exact sublist

theorem drained_reached {recursive : Bool} {sources fileList : List Path}
    (reached : (machine system recursive sources fileList).ReachedUnder LastBitOnEmpty state) :
    Drained state := by
  refine reached.invariant Drained ?_ fun _ _ _ kept allowed taken => kept.next allowed taken
  rintro _ rfl
  refine ⟨⟨rfl, by simp [State.init]⟩, fun _ => ⟨by simp [State.init], by simp [State.init],
    by simp [State.init]⟩, fun all => ?_, fun all => ?_⟩
  · rcases all 0 with settled | at_bit
    · cases settled.1
    · cases at_bit
  · cases (all 0).1

/-- When the main thread ends, all regular files that were put on the path channel are announced. -/
theorem announced_perm_of_ended {recursive : Bool} {sources fileList : List Path}
    (reached : (machine system recursive sources fileList).ReachedUnder LastBitOnEmpty state)
    (is_ended : state.main = .ended) :
    (state.announced.map Prod.fst).Perm
      (state.put.filter fun path => system.kind path = .regular) := by
  have drained := drained_reached reached
  have gone := (told_reached reached.reached).ended is_ended
  have settled : ∀ id, state.Settled id := fun id =>
    ⟨(drained.marked id).exited (gone id), by simp [gone id]⟩
  have files_nil := (drained.empty settled).1
  exact (accounted_reached reached.reached).announced_perm files_nil
    fun id => by rw [gone id]; rfl

/-- The listing is complete when the last bit of the mask is set with nothing left to list. -/
theorem complete_of_lastBitOnEmpty {recursive : Bool} {sources fileList : List Path}
    (reached : (machine system recursive sources fileList).ReachedUnder LastBitOnEmpty state) :
    Complete system sources fileList state := by
  constructor
  · intro is_ended
    exact (told_reached reached.reached).listed_sublist (by rw [is_ended]; rfl)
  · exact announced_perm_of_ended reached

/-! ## A directory whose files are left behind -/

/-- A directory 0 with one regular file 1. -/
def smallTree : FileSystem Nat where
  kind path := if path = 0 then .directory else .regular
  entries path := if path = 0 then [1] else []

/-- Steps of all four workers in turn. -/
def rounds (count : Nat) : List Label :=
  (List.replicate count (List.ofFn Label.fileWorker)).flatten

/-- The main thread sends the directory, worker 0 passes it on and directory worker 0 opens it. -/
def openTree : List Label :=
  List.replicate 4 .main ++ List.replicate 4 (.fileWorker 0) ++ List.replicate 2 (.dirWorker 0)

/-- The directory is listed before the workers time out, and its file is announced. -/
theorem complete_after_tree : ∃ state,
    (machine smallTree true [0] []).run (State.init [0] [])
        (openTree ++ List.replicate 2 (.dirWorker 0) ++ List.replicate 5 (.fileWorker 0) ++
          rounds 5 ++ [.main, .main]) = some state ∧
      state.main = .ended ∧ state.announced = [(1, 1)] ∧ Complete smallTree [0] [] state := by
  refine ⟨_, rfl, rfl, rfl, @complete_of_lastBitOnEmpty _ smallTree _ true _ _
    (.of_restrict (Machine.reached_of_run rfl
      (openTree ++ List.replicate 2 (.dirWorker 0) ++ List.replicate 5 (.fileWorker 0) ++
        rounds 5 ++ [.main, .main]) rfl))⟩

/-- All workers time out while the directory is open, and load the counters when it is credited:
its file stays on the path channel. -/
theorem left_behind : ∃ state,
    (machine smallTree true [0] []).run (State.init [0] [])
        (openTree ++ rounds 1 ++ List.replicate 2 (.dirWorker 0) ++ rounds 4 ++ [.main]) =
      some state ∧
      state.main = .ended ∧ state.announced = [] ∧ state.put = [0, 1] :=
  ⟨_, rfl, rfl, rfl, rfl⟩

/-- Arbitrary interleavings lose regular files. -/
theorem not_complete_of_reached :
    ¬∀ state, (machine smallTree true [0] []).Reached state →
      Complete smallTree [0] [] state := by
  intro complete
  obtain ⟨state, taken, is_ended, announced_eq, put_eq⟩ := left_behind
  have reached : (machine smallTree true [0] []).Reached state :=
    Machine.reached_of_run rfl _ taken
  have lengths := ((complete state reached).announced is_ended).length_eq
  rw [announced_eq, put_eq] at lengths
  exact absurd lengths (by decide)

end Listing
end EScp
