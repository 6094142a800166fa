import EScp.Generations
import EScp.IterateFiles
import EScp.ListingComplete
import Mathlib.Tactic.Abel

/-!
# The tree below the sources

The pipeline puts on the path channel the sources, the entries of the file list and the entries of
the directories that it has put there.  When it comes to its end every regular file of the tree has
been announced, once for each time it is met, under a number of its own, and `iterate_files` sends
the files in the order of the numbers.
-/

namespace EScp
namespace Listing

variable {Path : Type*} (system : FileSystem Path) (recursive : Bool)

/-! ## Entries in flight -/

/-- What is put on the path channel because of a path. -/
def FileSystem.children (path : Path) : Multiset Path :=
  if recursive = true ∧ system.kind path = .directory then ↑(system.entries path) else 0

/-- What is put there because of some paths. -/
def FileSystem.brings (paths : List Path) : Multiset Path :=
  (paths : Multiset Path).bind (system.children recursive)

@[simp] theorem FileSystem.brings_nil : system.brings recursive [] = 0 := rfl

theorem FileSystem.brings_append (left right : List Path) :
    system.brings recursive (left ++ right) =
      system.brings recursive left + system.brings recursive right := by
  rw [brings, ← Multiset.coe_add, Multiset.add_bind, brings, brings]

theorem FileSystem.brings_cons (path : Path) (paths : List Path) :
    system.brings recursive (path :: paths) =
      system.children recursive path + system.brings recursive paths := by
  rw [brings, ← Multiset.cons_coe, Multiset.cons_bind, brings]

@[simp] theorem FileSystem.brings_singleton (path : Path) :
    system.brings recursive [path] = system.children recursive path := by
  rw [brings_cons, brings_nil, add_zero]

/-- A path that is listed. -/
def FileSystem.Lists (path : Path) : Prop := recursive = true ∧ system.kind path = .directory

variable {recursive} in
theorem FileSystem.children_of_lists {path : Path} (lists : system.Lists recursive path) :
    system.children recursive path = ↑(system.entries path) := if_pos lists

variable {recursive} in
theorem FileSystem.children_of_not_lists {path : Path} (skips : ¬system.Lists recursive path) :
    system.children recursive path = 0 := if_neg skips

/-- What the path of a file worker will bring. -/
def FileSystem.willBring (worker : FileWorker Path) : Multiset Path :=
  system.brings recursive worker.held

/-- What a directory worker has still to put there. -/
def FileSystem.willPut : DirWorker Path → Multiset Path
  | .waiting => 0
  | .opening path => system.children recursive path
  | .listing rest => ↑rest

/-- A file worker passes on directories only. -/
def FileSystem.Sends : FileWorker Path → Prop
  | .countDir path | .sendDir path => system.Lists recursive path
  | _ => True

/-- What has been put on the path channel, or will be, are the roots and the entries of the
directories among what has been put there. -/
structure Rooted (roots : Multiset Path) (state : State Path) : Prop where
  sends : ∀ id, system.Sends recursive (state.workers id)
  dirs : ∀ path ∈ state.dirs, system.Lists recursive path
  opening : ∀ id path, state.dirWorkers id = .opening path → system.Lists recursive path
  balance : ↑state.put + (↑state.main.pending + tally (system.willPut recursive) state.dirWorkers) +
      (system.brings recursive state.files + tally (system.willBring recursive) state.workers +
        system.brings recursive state.dirs) =
    roots + system.brings recursive state.put

variable {system} {recursive} {roots : Multiset Path} {state after : State Path}

theorem Rooted.keep (rooted : Rooted system recursive roots state)
    (workers_eq : after.workers = state.workers) (busy_eq : after.dirWorkers = state.dirWorkers)
    (files_eq : after.files = state.files) (dirs_eq : after.dirs = state.dirs)
    (put_eq : after.put = state.put) (pending_eq : after.main.pending = state.main.pending) :
    Rooted system recursive roots after := by
  obtain ⟨sends, dirs, opening, balance⟩ := rooted
  refine ⟨?_, ?_, ?_, ?_⟩
  · rwa [workers_eq]
  · rwa [dirs_eq]
  · rwa [busy_eq]
  · rwa [put_eq, pending_eq, busy_eq, files_eq, workers_eq, dirs_eq]

theorem sends_update {workers : Fin fileopenCount → FileWorker Path}
    (sends : ∀ id, system.Sends recursive (workers id)) {id : Fin fileopenCount}
    {worker : FileWorker Path} (new : system.Sends recursive worker) (other : Fin fileopenCount) :
    system.Sends recursive (Function.update workers id worker other) := by
  by_cases same : other = id
  · rw [same, Function.update_self]
    exact new
  · rw [Function.update_of_ne same]
    exact sends other

/-- A worker moves on with the path it holds. -/
theorem Rooted.setWorker (rooted : Rooted system recursive roots state) {id : Fin fileopenCount}
    {worker : FileWorker Path} (sends : system.Sends recursive worker)
    (same : system.willBring recursive worker = system.willBring recursive (state.workers id)) :
    Rooted system recursive roots (state.setWorker id worker) where
  sends := sends_update rooted.sends sends
  dirs := rooted.dirs
  opening := rooted.opening
  balance := by
    have tally_eq : tally (system.willBring recursive) (state.setWorker id worker).workers =
        tally (system.willBring recursive) state.workers := tally_update_same same
    rw [tally_eq]
    exact rooted.balance

theorem Rooted.receive (rooted : Rooted system recursive roots state) {id : Fin fileopenCount}
    {path : Path} {rest : List Path} {worker : FileWorker Path}
    (files_eq : state.files = path :: rest)
    (idle : system.willBring recursive (state.workers id) = 0)
    (sends : system.Sends recursive worker) (held : worker.held = [path]) :
    Rooted system recursive roots { state.setWorker id worker with files := rest } where
  sends := sends_update rooted.sends sends
  dirs := rooted.dirs
  opening := rooted.opening
  balance := by
    have taken_up : tally (system.willBring recursive)
        (Function.update state.workers id worker) =
          tally (system.willBring recursive) state.workers + system.children recursive path := by
      rw [tally_update_take idle, FileSystem.willBring, held, FileSystem.brings_singleton]
    have balance := rooted.balance
    rw [files_eq, FileSystem.brings_cons] at balance
    change ↑state.put + (↑state.main.pending +
        tally (system.willPut recursive) state.dirWorkers) + (system.brings recursive rest +
      tally (system.willBring recursive) (Function.update state.workers id worker) +
        system.brings recursive state.dirs) = roots + system.brings recursive state.put
    rw [taken_up, ← balance]
    abel

/-- A worker drops a path that brings nothing. -/
theorem Rooted.drop (rooted : Rooted system recursive roots state) {id : Fin fileopenCount}
    {path : Path} (held : (state.workers id).held = [path])
    (skips : ¬system.Lists recursive path) :
    Rooted system recursive roots (state.setWorker id .waiting) := by
  refine rooted.setWorker trivial ?_
  rw [FileSystem.willBring, FileSystem.willBring, held, FileSystem.brings_singleton,
    system.children_of_not_lists skips]
  rfl

/-- A worker passes on its directory. -/
theorem Rooted.sendDir (rooted : Rooted system recursive roots state) {id : Fin fileopenCount}
    {path : Path} (at_worker : state.workers id = .sendDir path) :
    Rooted system recursive roots
      { state.setWorker id .waiting with dirs := state.dirs ++ [path] } where
  sends := sends_update rooted.sends trivial
  dirs := by
    have listed := rooted.sends id
    rw [at_worker] at listed
    intro other mem
    rcases List.mem_append.mp mem with earlier | last
    · exact rooted.dirs other earlier
    · rw [List.mem_singleton.mp last]
      exact listed
  opening := rooted.opening
  balance := by
    have given_up : tally (system.willBring recursive)
        (Function.update state.workers id .waiting) + system.willBring recursive
          (state.workers id) = tally (system.willBring recursive) state.workers :=
      tally_update_give rfl
    have balance := rooted.balance
    rw [at_worker, FileSystem.willBring, FileWorker.held, FileSystem.brings_singleton] at given_up
    rw [← given_up] at balance
    change ↑state.put + (↑state.main.pending +
        tally (system.willPut recursive) state.dirWorkers) + (system.brings recursive state.files +
      tally (system.willBring recursive) (Function.update state.workers id .waiting) +
        system.brings recursive (state.dirs ++ [path])) = roots + system.brings recursive state.put
    rw [FileSystem.brings_append, FileSystem.brings_singleton, ← balance]
    abel

/-- A path is put on the path channel by whoever had still to put it there. -/
theorem Rooted.sendFile {before : State Path} (rooted : Rooted system recursive roots before)
    {path : Path} (taken : state.sendFile path = some after)
    (workers_eq : state.workers = before.workers) (files_eq : state.files = before.files)
    (dirs_eq : state.dirs = before.dirs) (put_eq : state.put = before.put)
    (opening : ∀ id path, state.dirWorkers id = .opening path → system.Lists recursive path)
    (less : ↑state.main.pending + tally (system.willPut recursive) state.dirWorkers + {path} =
      ↑before.main.pending + tally (system.willPut recursive) before.dirWorkers) :
    Rooted system recursive roots after := by
  rw [State.sendFile_eq taken]
  refine ⟨?_, ?_, opening, ?_⟩
  · rw [workers_eq]
    exact rooted.sends
  · rw [dirs_eq]
    exact rooted.dirs
  · have balance := rooted.balance
    rw [← less, ← workers_eq, ← files_eq, ← dirs_eq, ← put_eq] at balance
    have moved := congrArg (· + system.children recursive path) balance
    dsimp only at moved ⊢
    rw [FileSystem.brings_append, FileSystem.brings_append, FileSystem.brings_singleton,
      ← add_assoc roots, ← moved, ← Multiset.coe_add, Multiset.coe_singleton]
    abel

theorem Rooted.stepMain (rooted : Rooted system recursive roots state)
    (taken : state.stepMain = some after) : Rooted system recursive roots after := by
  cases mainStep taken with
  | @source path rest fileList _ at_main sent =>
      refine rooted.sendFile sent rfl rfl rfl rfl rooted.opening ?_
      rw [at_main]
      change (↑(rest ++ fileList.reverse) : Multiset Path) + _ + _ =
        ↑(path :: (rest ++ fileList.reverse)) + _
      rw [← Multiset.cons_coe, ← Multiset.singleton_add]
      simp only [State.setMain]
      abel
  | @entry path rest _ at_main sent =>
      refine rooted.sendFile sent rfl rfl rfl rfl rooted.opening ?_
      rw [at_main]
      change (↑rest : Multiset Path) + _ + _ = ↑(path :: rest) + _
      rw [← Multiset.cons_coe, ← Multiset.singleton_add]
      simp only [State.setMain]
      abel
  | noSource at_main | credit at_main | noEntry at_main | ended at_main _ =>
      exact rooted.keep rfl rfl rfl rfl rfl (by rw [at_main]; rfl)
  | read _ _ | polled _ => exact rooted.keep rfl rfl rfl rfl rfl rfl

/-- What a file worker learns from `open` and `fstat`. -/
theorem lists_of_opening {id : Fin fileopenCount} {path : Path}
    (at_worker : state.workers id = .opening path)
    (taken : state.stepWorker system recursive id = some after) :
    (after.workers id = .countDir path ↔ system.Lists recursive path) := by
  simp only [State.stepWorker, at_worker, Option.some.injEq] at taken
  subst taken
  rw [State.setWorker_self, FileSystem.Lists]
  cases kind_eq : system.kind path <;> simp

theorem Rooted.stepWorker (rooted : Rooted system recursive roots state)
    (accounted : Accounted system state) {id : Fin fileopenCount}
    (taken : state.stepWorker system recursive id = some after) :
    Rooted system recursive roots after := by
  have sends := rooted.sends id
  have knows := accounted.knows id
  have not_listed {path : Path} (kind_eq : system.kind path = .regular) :
      ¬system.Lists recursive path := by
    rintro ⟨-, directory⟩
    rw [kind_eq] at directory
    cases directory
  cases workerStep taken with
  | timeout at_worker _ | loadTail at_worker | unequal at_worker _ | equal at_worker _ _
  | equalReady at_worker _ _ | exit at_worker _ | stay at_worker _ =>
      exact rooted.setWorker trivial (by rw [at_worker]; rfl)
  | receive at_worker files_eq _ | receiveReady at_worker files_eq _ =>
      exact rooted.receive files_eq (by rw [at_worker]; rfl) trivial rfl
  | setBit at_worker =>
      have moved : Rooted system recursive roots (state.setWorker id .loadMask) :=
        rooted.setWorker trivial (by rw [at_worker]; rfl)
      exact moved.keep rfl rfl rfl rfl rfl rfl
  | @clearBit path at_worker =>
      have moved : Rooted system recursive roots (state.setWorker id (.opening path)) :=
        rooted.setWorker trivial (by rw [at_worker]; rfl)
      exact moved.keep rfl rfl rfl rfl rfl rfl
  | regular at_worker _ => exact rooted.setWorker trivial (by rw [at_worker]; rfl)
  | directory at_worker _ =>
      exact rooted.setWorker ((lists_of_opening at_worker taken).mp (State.setWorker_self ..))
        (by rw [at_worker]; rfl)
  | @drop path at_worker _ =>
      refine rooted.drop (by rw [at_worker]; rfl) fun listed => ?_
      have counts := (lists_of_opening at_worker taken).mpr listed
      rw [State.setWorker_self] at counts
      cases counts
  | @countDir path at_worker =>
      rw [at_worker] at sends
      have moved : Rooted system recursive roots (state.setWorker id (.sendDir path)) :=
        rooted.setWorker sends (by rw [at_worker]; rfl)
      exact moved.keep rfl rfl rfl rfl rfl rfl
  | sendDir at_worker => exact rooted.sendDir at_worker
  | @takeNumber path at_worker =>
      have moved : Rooted system recursive roots
          (state.setWorker id (.addFile path (state.fino + 1))) :=
        rooted.setWorker trivial (by rw [at_worker]; rfl)
      exact moved.keep rfl rfl rfl rfl rfl rfl
  | addFile at_worker => exact rooted.setWorker trivial (by rw [at_worker]; rfl)
  | sendMsg at_worker _ =>
      rw [at_worker] at knows
      have moved : Rooted system recursive roots (state.setWorker id .waiting) :=
        rooted.drop (by rw [at_worker]; rfl) (not_listed knows)
      exact moved.keep rfl rfl rfl rfl rfl rfl

theorem opening_update {dirWorkers : Fin diropenCount → DirWorker Path}
    (opening : ∀ id path, dirWorkers id = .opening path → system.Lists recursive path)
    {id : Fin diropenCount} {worker : DirWorker Path}
    (new : ∀ path, worker = .opening path → system.Lists recursive path)
    (other : Fin diropenCount) (path : Path)
    (at_other : Function.update dirWorkers id worker other = .opening path) :
    system.Lists recursive path := by
  by_cases same : other = id
  · rw [same, Function.update_self] at at_other
    exact new path at_other
  · rw [Function.update_of_ne same] at at_other
    exact opening other path at_other

theorem Rooted.stepDirWorker (rooted : Rooted system recursive roots state)
    {id : Fin diropenCount} (taken : state.stepDirWorker system id = some after) :
    Rooted system recursive roots after := by
  have balance := rooted.balance
  cases dirStep taken with
  | @receive path rest at_worker dirs_eq =>
      have taken_up : tally (system.willPut recursive)
          (Function.update state.dirWorkers id (.opening path)) =
            tally (system.willPut recursive) state.dirWorkers + system.children recursive path :=
        tally_update_take (by rw [at_worker]; rfl)
      have listed := rooted.dirs
      rw [dirs_eq] at listed
      refine ⟨rooted.sends, fun other mem => listed other (List.mem_cons_of_mem _ mem),
        opening_update rooted.opening ?_, ?_⟩
      · intro other same
        obtain rfl := DirWorker.opening.inj same
        exact listed path (List.mem_cons_self ..)
      · rw [dirs_eq, FileSystem.brings_cons] at balance
        change ↑state.put + (↑state.main.pending + tally (system.willPut recursive)
            (Function.update state.dirWorkers id (.opening path))) +
          (system.brings recursive state.files +
            tally (system.willBring recursive) state.workers + system.brings recursive rest) =
              roots + system.brings recursive state.put
        rw [taken_up, ← balance]
        abel
  | @list path at_worker =>
      have same : system.willPut recursive (.listing (system.entries path)) =
          system.willPut recursive (state.dirWorkers id) := by
        rw [at_worker]
        exact (system.children_of_lists (rooted.opening id path at_worker)).symm
      have tally_eq : tally (system.willPut recursive)
          (Function.update state.dirWorkers id (.listing (system.entries path))) =
            tally (system.willPut recursive) state.dirWorkers := tally_update_same same
      refine ⟨rooted.sends, rooted.dirs, opening_update rooted.opening (by simp), ?_⟩
      rw [← tally_eq] at balance
      exact balance
  | @entry path rest _ at_worker sent =>
      refine rooted.sendFile sent rfl rfl rfl rfl (opening_update rooted.opening (by simp)) ?_
      have given_up : tally (system.willPut recursive)
          (Function.update state.dirWorkers id (.listing rest)) + {path} =
            tally (system.willPut recursive) state.dirWorkers := by
        refine tally_update_less ?_
        rw [at_worker, FileSystem.willPut, FileSystem.willPut, ← Multiset.cons_coe,
          ← Multiset.singleton_add, add_comm]
      rw [← given_up, ← add_assoc]
      rfl
  | credit at_worker =>
      have same : system.willPut recursive .waiting =
          system.willPut recursive (state.dirWorkers id) := by
        rw [at_worker]
        rfl
      have tally_eq : tally (system.willPut recursive)
          (Function.update state.dirWorkers id .waiting) =
            tally (system.willPut recursive) state.dirWorkers := tally_update_same same
      refine ⟨rooted.sends, rooted.dirs, opening_update rooted.opening (by simp), ?_⟩
      rw [← tally_eq] at balance
      exact balance

variable {sources fileList : List Path}

theorem rooted_reached (reached : (machine system recursive sources fileList).Reached state) :
    Rooted system recursive ↑(sources ++ fileList) state := by
  have both : Accounted system state ∧ Rooted system recursive ↑(sources ++ fileList) state := by
    refine reached.invariant
      (fun state => Accounted system state ∧ Rooted system recursive ↑(sources ++ fileList) state)
      ?_ ?_
    · rintro _ rfl
      refine ⟨@accounted_reached _ system _ recursive sources fileList (.start rfl),
        fun _ => trivial, by simp [State.init], by simp [State.init], ?_⟩
      have idle : tally (system.willPut recursive) (State.init sources fileList).dirWorkers = 0 :=
        tally_zero fun _ => rfl
      have none : tally (system.willBring recursive) (State.init sources fileList).workers = 0 :=
        tally_zero fun _ => rfl
      rw [idle, none]
      change (0 : Multiset Path) + (↑(sources ++ fileList.reverse) + 0) + (0 + 0 + 0) =
        ↑(sources ++ fileList) + 0
      rw [← Multiset.coe_add, ← Multiset.coe_add, Multiset.coe_reverse]
      abel
    · rintro before label after ⟨accounted, rooted⟩ _ taken
      refine ⟨accounted.next taken, ?_⟩
      cases label with
      | main => exact rooted.stepMain taken
      | fileWorker id => exact rooted.stepWorker accounted taken
      | dirWorker id => exact rooted.stepDirWorker taken
  exact both.2

/-- When the main thread ends, what was put on the path channel holds the roots and the entries of
its directories, and nothing else. -/
theorem put_eq_of_ended
    (reached : (machine system recursive sources fileList).ReachedUnder LastBitOnEmpty state)
    (is_ended : state.main = .ended) :
    (↑state.put : Multiset Path) =
      ↑(sources ++ fileList) + (↑state.put : Multiset Path).bind (system.children recursive) := by
  have drained := drained_reached reached
  have gone := (told_reached reached.reached).ended is_ended
  have settled : ∀ id, state.Settled id := fun id =>
    ⟨(drained.marked id).exited (gone id), by simp [gone id]⟩
  obtain ⟨files_nil, pending_nil⟩ := drained.empty settled
  obtain ⟨-, dirs_nil, waiting⟩ :=
    drained.counted.settled (drained.level fun id => .inl (settled id))
  have idle : tally (system.willPut recursive) state.dirWorkers = 0 := by
    refine tally_zero fun id => ?_
    have at_worker := waiting id
    cases state_eq : state.dirWorkers id <;> rw [state_eq] at at_worker
    · rfl
    · cases at_worker
    · cases at_worker
  have none : tally (system.willBring recursive) state.workers = 0 :=
    tally_zero fun id => by rw [gone id]; rfl
  have balance := (rooted_reached reached.reached).balance
  rw [files_nil, pending_nil, dirs_nil, idle, none] at balance
  simpa [FileSystem.brings] using balance

/-! ## Numbers -/

/-- The number that a file worker has taken and not announced yet. -/
def FileWorker.number : FileWorker Path → Multiset Nat
  | .addFile _ fino | .sendMsg _ fino => {fino}
  | _ => 0

/-- Every number up to `GLOBAL_FINO` is announced or with a worker. -/
def Numbered (state : State Path) : Prop :=
  (↑(List.range' 1 state.fino) : Multiset Nat) =
    ↑(state.announced.map Prod.snd) + tally FileWorker.number state.workers

theorem Numbered.keep (numbered : Numbered state) (workers_eq : after.workers = state.workers)
    (fino_eq : after.fino = state.fino) (announced_eq : after.announced = state.announced) :
    Numbered after := by
  rw [Numbered, workers_eq, fino_eq, announced_eq]
  exact numbered

theorem Numbered.setWorker (numbered : Numbered state) {id : Fin fileopenCount}
    {worker : FileWorker Path} (same : worker.number = (state.workers id).number) :
    Numbered (state.setWorker id worker) := by
  have tally_eq : tally FileWorker.number (state.setWorker id worker).workers =
      tally FileWorker.number state.workers := tally_update_same same
  rw [Numbered, tally_eq]
  exact numbered

theorem Numbered.stepWorker (numbered : Numbered state) {id : Fin fileopenCount}
    (taken : state.stepWorker system recursive id = some after) : Numbered after := by
  have moved (worker : FileWorker Path) (same : worker.number = (state.workers id).number) :
      Numbered (state.setWorker id worker) := numbered.setWorker same
  cases workerStep taken with
  | timeout at_worker _ | loadTail at_worker | unequal at_worker _ | equal at_worker _ _
  | equalReady at_worker _ _ | exit at_worker _ | stay at_worker _ | regular at_worker _
  | directory at_worker _ | drop at_worker _ | addFile at_worker =>
      exact moved _ (by rw [at_worker]; rfl)
  | receive at_worker _ _ | receiveReady at_worker _ _ | setBit at_worker | clearBit at_worker
  | countDir at_worker | sendDir at_worker =>
      exact (moved _ (by rw [at_worker]; rfl)).keep rfl rfl rfl
  | @takeNumber path at_worker =>
      have taken_up : tally FileWorker.number
          (Function.update state.workers id (.addFile path (state.fino + 1))) =
            tally FileWorker.number state.workers + {state.fino + 1} :=
        tally_update_take (by rw [at_worker]; rfl)
      have longer : List.range' 1 (state.fino + 1) =
          List.range' 1 state.fino ++ [state.fino + 1] := by
        rw [List.range'_1_concat, Nat.add_comm 1]
      change (↑(List.range' 1 (state.fino + 1)) : Multiset Nat) =
        ↑(state.announced.map Prod.snd) + tally FileWorker.number
          (Function.update state.workers id (.addFile path (state.fino + 1)))
      rw [taken_up, longer, ← Multiset.coe_add, numbered, Multiset.coe_singleton, add_assoc]
  | @sendMsg path fino at_worker _ =>
      have given_up : tally FileWorker.number (Function.update state.workers id .waiting) +
          (state.workers id).number = tally FileWorker.number state.workers :=
        tally_update_give rfl
      rw [at_worker] at given_up
      change (↑(List.range' 1 state.fino) : Multiset Nat) =
        ↑((state.announced ++ [(path, fino)]).map Prod.snd) + tally FileWorker.number
          (Function.update state.workers id .waiting)
      rw [numbered, ← given_up, List.map_append, ← Multiset.coe_add]
      change _ = _ + {fino} + _
      rw [FileWorker.number]
      abel

theorem numbered_reached (reached : (machine system recursive sources fileList).Reached state) :
    Numbered state := by
  refine reached.invariant Numbered ?_ ?_
  · rintro _ rfl
    have none : tally FileWorker.number (State.init sources fileList).workers = 0 :=
      tally_zero fun _ => rfl
    rw [Numbered, none]
    rfl
  · intro before label after numbered _ taken
    cases label with
    | main =>
        cases mainStep taken with
        | source _ sent | entry _ sent =>
            rw [State.sendFile_eq sent]
            exact numbered.keep rfl rfl rfl
        | _ => exact numbered.keep rfl rfl rfl
    | fileWorker id => exact numbered.stepWorker taken
    | dirWorker id =>
        cases dirStep taken with
        | entry _ sent =>
            rw [State.sendFile_eq sent]
            exact numbered.keep rfl rfl rfl
        | _ => exact numbered.keep rfl rfl rfl

/-- When the main thread ends, the announced files have the numbers from 1 on. -/
theorem numbers_of_ended (reached : (machine system recursive sources fileList).Reached state)
    (is_ended : state.main = .ended) :
    (state.announced.map Prod.snd).Perm (List.range' 1 state.announced.length) := by
  have gone := (told_reached reached).ended is_ended
  have none : tally FileWorker.number state.workers = 0 :=
    tally_zero fun id => by rw [gone id]; rfl
  have numbered := numbered_reached reached
  rw [Numbered, none, add_zero] at numbered
  have perm := Multiset.coe_eq_coe.mp numbered
  have length_eq := perm.length_eq
  rw [List.length_range', List.length_map] at length_eq
  rw [length_eq] at perm
  exact perm.symm

/-! ## The lists -/

open IterateFiles (Queued Stat Args Event Open arrivals)

/-- The paths up to some depth below the sources and the entries of the file list. -/
def FileSystem.tree (system : FileSystem Path) (recursive : Bool) (roots : List Path)
    (depth : Nat) : Multiset Path :=
  ∑ steps ∈ Finset.range depth, generation (system.children recursive) ↑roots steps

/-- The regular files of the whole tree, each as often as it is met. -/
def FileSystem.Covers (system : FileSystem Path) (recursive : Bool) (roots files : List Path) :
    Prop :=
  ∃ depth, generation (system.children recursive) ↑roots depth = 0 ∧
    ↑files = (system.tree recursive roots depth).filter (system.kind · = .regular)

/-- When the main thread ends, the announced files are those of the tree. -/
theorem covers_of_ended {rank : Path → Nat}
    (deeper : ∀ parent, ∀ child ∈ system.entries parent, rank parent < rank child)
    (reached : (machine system recursive sources fileList).ReachedUnder LastBitOnEmpty state)
    (is_ended : state.main = .ended) :
    system.Covers recursive (sources ++ fileList) (state.announced.map Prod.fst) := by
  have children_deeper : ∀ parent, ∀ child ∈ system.children recursive parent,
      rank parent < rank child := by
    intro parent child mem
    by_cases listed : system.Lists recursive parent
    · rw [system.children_of_lists listed] at mem
      exact deeper parent child mem
    · rw [system.children_of_not_lists listed] at mem
      exact absurd mem (Multiset.notMem_zero child)
  obtain ⟨depth, last, whole⟩ := eq_sum_of_closed children_deeper (put_eq_of_ended reached is_ended)
  refine ⟨depth, last, ?_⟩
  rw [FileSystem.tree, ← whole, Multiset.filter_coe]
  exact Multiset.coe_eq_coe.mpr (announced_perm_of_ended reached is_ended)

/-- A permutation of images is the image of a permutation. -/
theorem exists_perm_of_map {Item Image : Type*} {image : Item → Image} {items : List Item}
    {ordered : List Image} (perm : ordered.Perm (items.map image)) :
    ∃ own : List Item, own.Perm items ∧ ordered = own.map image := by
  have paired : List.Forall₂ (fun left right => left = image right) (items.map image) items :=
    List.forall₂_map_left_iff.mpr (List.forall₂_same.mpr fun _ _ => rfl)
  obtain ⟨own, matched, own_perm⟩ := List.perm_comp_forall₂ perm paired
  refine ⟨own, own_perm, ?_⟩
  exact List.forall₂_eq_eq_eq ▸ List.forall₂_map_right_iff.mpr matched

/-- Whatever the order in which the workers announce the files and the time-outs between them, when
the last bit of the mask is set with nothing left to list, `iterate_files` returns and its lists are
the regular files of the whole tree in the order of their numbers, which are those from 1 on. -/
theorem lists_of_tree {rank : Path → Nat}
    (deeper : ∀ parent, ∀ child ∈ system.entries parent, rank parent < rank child)
    (name : Path → String) (st : Path → Stat) (args : Args)
    (reached : (machine system recursive sources fileList).ReachedUnder LastBitOnEmpty state)
    (is_ended : state.main = .ended) {events : List Event} (live : Open events)
    (arrived : arrivals events = state.announced.map fun msg => ⟨msg.2, name msg.1, st msg.1⟩) :
    ∃ after files, IterateFiles.State.init.run args (events ++ [.disconnected]) = .returned after ∧
      system.Covers recursive (sources ++ fileList) files ∧
      after.files = (files.zipIdx 1).map fun file =>
        args.entry ⟨file.2, name file.1, st file.1⟩ := by
  have numbers : ((arrivals events).map Queued.fino).Perm
      (List.range' 1 state.announced.length) := by
    rw [arrived, List.map_map]
    exact numbers_of_ended reached.reached is_ended
  obtain ⟨after, ran, complete⟩ := IterateFiles.complete_of_disconnected args live numbers
  obtain ⟨ordered, perm, in_order, files_eq⟩ := complete.sent
  rw [arrived] at perm
  obtain ⟨msgs, msgs_perm, rfl⟩ := exists_perm_of_map perm
  have numbers_eq : msgs.map Prod.snd = List.range' 1 msgs.length := by
    rw [List.map_map] at in_order
    rw [msgs_perm.length_eq]
    exact in_order
  have msgs_eq : msgs = (msgs.map Prod.fst).zipIdx 1 := by
    rw [List.zipIdx_eq_zip_range', List.length_map, ← numbers_eq, ← List.unzip_fst,
      ← List.unzip_snd, List.zip_unzip]
  obtain ⟨depth, last, whole⟩ := covers_of_ended deeper reached is_ended
  refine ⟨after, msgs.map Prod.fst, ran, ⟨depth, last, ?_⟩, ?_⟩
  · rw [← whole]
    exact Multiset.coe_eq_coe.mpr (msgs_perm.map Prod.fst)
  · rw [files_eq, ← msgs_eq, List.map_map]
    rfl

/-- A file of four bytes. -/
def smallStat : Stat := ⟨4, 0o644, 0, 0, 0, 0, 0, 0⟩

/-- The directory is listed before the workers time out. -/
def listTree : List Label :=
  openTree ++ List.replicate 2 (.dirWorker 0) ++ List.replicate 5 (.fileWorker 0) ++ rounds 5 ++
    [.main, .main]

theorem smallTree_deeper (parent : Nat) : ∀ child ∈ smallTree.entries parent, parent < child := by
  intro child mem
  by_cases root : parent = 0
  · rw [root] at mem ⊢
    rw [List.mem_singleton.mp mem]
    exact Nat.one_pos
  · simp [smallTree, root] at mem

theorem lists_of_smallTree : ∃ after files,
    IterateFiles.State.init.run ⟨"", false⟩
      [.message ⟨1, "f", smallStat⟩, .timeout 1, .disconnected] = .returned after ∧
    smallTree.Covers true [0] files ∧
    after.files = (files.zipIdx 1).map fun file =>
      Args.entry ⟨"", false⟩ ⟨file.2, "f", smallStat⟩ := by
  obtain ⟨state, taken, is_ended, announced_eq⟩ : ∃ state,
      ((machine smallTree true [0] []).restrict LastBitOnEmpty).run (State.init [0] []) listTree =
        some state ∧ state.main = .ended ∧ state.announced = [(1, 1)] := ⟨_, rfl, rfl, rfl⟩
  have live : Open [.message ⟨1, "f", smallStat⟩, .timeout 1] := ⟨by simp, by simp⟩
  have reached : (machine smallTree true [0] []).ReachedUnder LastBitOnEmpty state :=
    .of_restrict (Machine.reached_of_run rfl listTree taken)
  exact lists_of_tree smallTree_deeper (fun _ => "f") (fun _ => smallStat) ⟨"", false⟩ reached
    is_ended live (by rw [announced_eq]; rfl)

end Listing
end EScp
