import EScp.Transition
import Mathlib.Algebra.Order.Ring.Nat
import Mathlib.Data.Fin.Basic
import Mathlib.Logic.Function.Basic

/-!
# The listing pipeline of the sender

`iterate_files` puts the sources and the file-list entries on the path channel.  Four file workers
open what they receive there: regular files get a number and go to the message channel, directories
go to the directory channel.  Two directory workers put the entries of directories back on the path
channel.  Each channel operation, each access to a shared counter and each call of the file system
is one step, and all opens succeed.
-/

namespace EScp
namespace Listing

/-- `GLOBAL_FILEOPEN_COUNT`. -/
abbrev fileopenCount : Nat := 4

/-- `GLOBAL_DIROPEN_COUNT`. -/
abbrev diropenCount : Nat := 2

scoped instance fileopenCount_neZero : NeZero fileopenCount := ⟨by decide⟩

scoped instance diropenCount_neZero : NeZero diropenCount := ⟨by decide⟩

/-- The bound of the path channel. -/
def filesBound : Nat := 15000

/-- The bound of the message channel. -/
def msgBound : Nat := 400

/-- What `canonicalize`, the prefix check and `fstat` say about a path. -/
inductive Kind where
  | notOnDisk
  | outside
  | noStat
  | regular
  | directory
  | link
  | other
deriving DecidableEq

/-- The file system below the sources. -/
structure FileSystem (Path : Type*) where
  kind : Path → Kind
  /-- The regular files and directories that `readdir` lists, other than `.` and `..`. -/
  entries : Path → List Path

/-- The main thread in `iterate_files`. -/
inductive Main (Path : Type*) where
  /-- Sends the sources, then reads the file list. -/
  | sources (rest fileList : List Path)
  /-- About to credit `GLOBAL_FILEOPEN_TAIL`. -/
  | creditTail (fileList : List Path)
  /-- Sends the file list, which is popped from its end. -/
  | fileList (rest : List Path)
  /-- Reads messages. -/
  | reading
  /-- Has seen the message channel disconnected. -/
  | ended

/-- A thread in `iterate_file_worker`. -/
inductive FileWorker (Path : Type*) where
  /-- In `recv_timeout`. -/
  | waiting
  /-- Timed out, about to load `GLOBAL_FILEOPEN_TAIL`. -/
  | loadTail
  /-- About to load `GLOBAL_FILEOPEN_CLEANUP` and to compare. -/
  | loadCleanup (tail : Nat)
  /-- About to set its bit. -/
  | setBit
  /-- About to load the mask. -/
  | loadMask
  /-- About to clear its bit. -/
  | clearBit (path : Path)
  /-- About to open the path. -/
  | opening (path : Path)
  /-- About to count a directory in `GLOBAL_FILEOPEN_CLEANUP`. -/
  | countDir (path : Path)
  | sendDir (path : Path)
  /-- About to take a file number. -/
  | takeNumber (path : Path)
  | addFile (path : Path) (fino : Nat)
  | sendMsg (path : Path) (fino : Nat)
  | exited

/-- A thread in `iterate_dir_worker`. -/
inductive DirWorker (Path : Type*) where
  | waiting
  /-- About to open the directory. -/
  | opening (path : Path)
  /-- About to send the next entry, or to credit `GLOBAL_FILEOPEN_TAIL` after the last one. -/
  | listing (rest : List Path)

/-- The channels, the counters, the threads and the history. -/
structure State (Path : Type*) where
  main : Main Path
  workers : Fin fileopenCount → FileWorker Path
  /-- `exit_ready` of each file worker. -/
  exitReady : Fin fileopenCount → Bool
  dirWorkers : Fin diropenCount → DirWorker Path
  /-- The path channel. -/
  files : List Path
  /-- The directory channel. -/
  dirs : List Path
  /-- The message channel. -/
  msgs : List (Path × Nat)
  /-- `GLOBAL_FILEOPEN_CLEANUP`. -/
  cleanup : Nat
  /-- `GLOBAL_FILEOPEN_TAIL`. -/
  tail : Nat
  /-- The bits of `GLOBAL_FILEOPEN_MASK`. -/
  mask : Fin fileopenCount → Bool
  /-- `GLOBAL_FINO`. -/
  fino : Nat
  /-- Every path put on the path channel so far. -/
  put : List Path
  /-- Every message sent so far. -/
  announced : List (Path × Nat)

/-- One step of one thread. -/
inductive Label where
  | main
  | fileWorker (id : Fin fileopenCount)
  | dirWorker (id : Fin diropenCount)
deriving DecidableEq

variable {Path : Type*}

namespace State

def setMain (state : State Path) (main : Main Path) : State Path := { state with main := main }

def setWorker (state : State Path) (id : Fin fileopenCount) (worker : FileWorker Path) :
    State Path :=
  { state with workers := Function.update state.workers id worker }

def setDirWorker (state : State Path) (id : Fin diropenCount) (worker : DirWorker Path) :
    State Path :=
  { state with dirWorkers := Function.update state.dirWorkers id worker }

/-- `files_in.send`, which blocks while the channel is full. -/
def sendFile (state : State Path) (path : Path) : Option (State Path) :=
  if state.files.length < filesBound then
    some { state with files := state.files ++ [path], put := state.put ++ [path] }
  else
    none

@[simp] theorem setWorker_self (state : State Path) (id : Fin fileopenCount)
    (worker : FileWorker Path) : (state.setWorker id worker).workers id = worker := by
  simp [State.setWorker]

theorem setWorker_of_ne (state : State Path) {id other : Fin fileopenCount}
    (ne : other ≠ id) (worker : FileWorker Path) :
    (state.setWorker id worker).workers other = state.workers other := by
  simp [State.setWorker, ne]

/-- `sendFile` touches the path channel and its history only. -/
theorem sendFile_eq {state : State Path} {path : Path} {after : State Path}
    (taken : state.sendFile path = some after) :
    after = { state with files := state.files ++ [path], put := state.put ++ [path] } := by
  rw [sendFile] at taken
  split at taken
  · exact (Option.some.inj taken).symm
  · cases taken

/-- `GLOBAL_FILEOPEN_MASK` is `(1 << GLOBAL_FILEOPEN_COUNT) - 1`. -/
def maskFull (state : State Path) : Prop := ∀ id, state.mask id = true

instance (state : State Path) : Decidable state.maskFull := by
  unfold maskFull
  infer_instance

/-- The message channel is disconnected: all its senders are gone. -/
def disconnected (state : State Path) : Bool :=
  (List.finRange fileopenCount).all fun id =>
    match state.workers id with
    | .exited => true
    | _ => false

/-- One step of the main thread. -/
def stepMain (state : State Path) : Option (State Path) :=
  match state.main with
  | .sources (path :: rest) fileList =>
      (state.setMain (.sources rest fileList)).sendFile path
  | .sources [] fileList => some (state.setMain (.creditTail fileList))
  | .creditTail fileList =>
      some { state.setMain (.fileList fileList.reverse) with tail := state.tail + 1 }
  | .fileList (path :: rest) => (state.setMain (.fileList rest)).sendFile path
  | .fileList [] => some (state.setMain .reading)
  | .reading =>
      match state.msgs with
      | _ :: rest => some { state with msgs := rest }
      | [] => if state.disconnected then some (state.setMain .ended) else some state
  | .ended => none

/-- One step of a file worker. -/
def stepWorker (system : FileSystem Path) (recursive : Bool) (state : State Path)
    (id : Fin fileopenCount) : Option (State Path) :=
  match state.workers id with
  | .waiting =>
      match state.files with
      | [] => some (state.setWorker id .loadTail)
      | path :: rest =>
          some { state.setWorker id
            (if state.exitReady id then .clearBit path else .opening path) with files := rest }
  | .loadTail => some (state.setWorker id (.loadCleanup state.tail))
  | .loadCleanup tail =>
      some (state.setWorker id
        (if tail = state.cleanup then if state.exitReady id then .loadMask else .setBit
          else .waiting))
  | .setBit =>
      some { state.setWorker id .loadMask with
        mask := Function.update state.mask id true
        exitReady := Function.update state.exitReady id true }
  | .loadMask => some (state.setWorker id (if state.maskFull then .exited else .waiting))
  | .clearBit path =>
      -- The flag `exit_ready` keeps its value.
      some { state.setWorker id (.opening path) with
        mask := Function.update state.mask id false }
  | .opening path =>
      some (state.setWorker id
        (match system.kind path with
          | .regular => .takeNumber path
          | .directory => if recursive then .countDir path else .waiting
          | _ => .waiting))
  | .countDir path =>
      some { state.setWorker id (.sendDir path) with cleanup := state.cleanup + 1 }
  | .sendDir path =>
      some { state.setWorker id .waiting with dirs := state.dirs ++ [path] }
  | .takeNumber path =>
      some { state.setWorker id (.addFile path (state.fino + 1)) with fino := state.fino + 1 }
  | .addFile path fino => some (state.setWorker id (.sendMsg path fino))
  | .sendMsg path fino =>
      if state.msgs.length < msgBound then
        some { state.setWorker id .waiting with
          msgs := state.msgs ++ [(path, fino)]
          announced := state.announced ++ [(path, fino)] }
      else
        none
  | .exited => none

/-- One step of a directory worker. -/
def stepDirWorker (system : FileSystem Path) (state : State Path) (id : Fin diropenCount) :
    Option (State Path) :=
  match state.dirWorkers id with
  | .waiting =>
      match state.dirs with
      | [] => none
      | path :: rest => some { state.setDirWorker id (.opening path) with dirs := rest }
  | .opening path => some (state.setDirWorker id (.listing (system.entries path)))
  | .listing (path :: rest) => (state.setDirWorker id (.listing rest)).sendFile path
  | .listing [] => some { state.setDirWorker id .waiting with tail := state.tail + 1 }

/-- The threads have been started; `GLOBAL_FILEOPEN_CLEANUP` counts the main thread. -/
def init (sources fileList : List Path) : State Path where
  main := .sources sources fileList
  workers _ := .waiting
  exitReady _ := false
  dirWorkers _ := .waiting
  files := []
  dirs := []
  msgs := []
  cleanup := 1
  tail := 0
  mask _ := false
  fino := 0
  put := []
  announced := []

end State

/-- One step. -/
def next (system : FileSystem Path) (recursive : Bool) (state : State Path) :
    Label → Option (State Path)
  | .main => state.stepMain
  | .fileWorker id => state.stepWorker system recursive id
  | .dirWorker id => state.stepDirWorker system id

/-- The pipeline on given sources and a given file list. -/
def machine (system : FileSystem Path) (recursive : Bool) (sources fileList : List Path) :
    Machine (State Path) Label where
  initial state := state = State.init sources fileList
  next := next system recursive

/-! ## What a step does -/

/-- What a step of the main thread does. -/
inductive MainStep (state : State Path) : State Path → Prop
  | source {path : Path} {rest fileList : List Path} {after : State Path}
      (at_main : state.main = .sources (path :: rest) fileList)
      (sent : (state.setMain (.sources rest fileList)).sendFile path = some after) :
      MainStep state after
  | noSource {fileList : List Path} (at_main : state.main = .sources [] fileList) :
      MainStep state (state.setMain (.creditTail fileList))
  | credit {fileList : List Path} (at_main : state.main = .creditTail fileList) :
      MainStep state
        { state.setMain (.fileList fileList.reverse) with tail := state.tail + 1 }
  | entry {path : Path} {rest : List Path} {after : State Path}
      (at_main : state.main = .fileList (path :: rest))
      (sent : (state.setMain (.fileList rest)).sendFile path = some after) : MainStep state after
  | noEntry (at_main : state.main = .fileList []) : MainStep state (state.setMain .reading)
  | read {msg : Path × Nat} {rest : List (Path × Nat)} (at_main : state.main = .reading)
      (msgs_eq : state.msgs = msg :: rest) : MainStep state { state with msgs := rest }
  | ended (at_main : state.main = .reading) (gone : state.disconnected = true) :
      MainStep state (state.setMain .ended)
  | polled (at_main : state.main = .reading) : MainStep state state

theorem mainStep {state after : State Path} (taken : state.stepMain = some after) :
    MainStep state after := by
  rw [State.stepMain] at taken
  split at taken
  · exact .source ‹_› taken
  · obtain rfl := Option.some.inj taken
    exact .noSource ‹_›
  · obtain rfl := Option.some.inj taken
    exact .credit ‹_›
  · exact .entry ‹_› taken
  · obtain rfl := Option.some.inj taken
    exact .noEntry ‹_›
  · rename_i at_main
    split at taken
    · obtain rfl := Option.some.inj taken
      exact .read at_main ‹_›
    · split at taken <;> obtain rfl := Option.some.inj taken
      · exact .ended at_main ‹_›
      · exact .polled at_main
  · cases taken

/-- What a step of a file worker does. -/
inductive WorkerStep (system : FileSystem Path) (recursive : Bool) (state : State Path)
    (id : Fin fileopenCount) : State Path → Prop
  | timeout (at_worker : state.workers id = .waiting) (files_eq : state.files = []) :
      WorkerStep system recursive state id (state.setWorker id .loadTail)
  | receive {path : Path} {rest : List Path} (at_worker : state.workers id = .waiting)
      (files_eq : state.files = path :: rest) (unready : state.exitReady id = false) :
      WorkerStep system recursive state id
        { state.setWorker id (.opening path) with files := rest }
  | receiveReady {path : Path} {rest : List Path} (at_worker : state.workers id = .waiting)
      (files_eq : state.files = path :: rest) (ready : state.exitReady id = true) :
      WorkerStep system recursive state id
        { state.setWorker id (.clearBit path) with files := rest }
  | loadTail (at_worker : state.workers id = .loadTail) :
      WorkerStep system recursive state id (state.setWorker id (.loadCleanup state.tail))
  | unequal {tail : Nat} (at_worker : state.workers id = .loadCleanup tail)
      (open_paths : tail ≠ state.cleanup) :
      WorkerStep system recursive state id (state.setWorker id .waiting)
  | equal {tail : Nat} (at_worker : state.workers id = .loadCleanup tail)
      (done : tail = state.cleanup) (unready : state.exitReady id = false) :
      WorkerStep system recursive state id (state.setWorker id .setBit)
  | equalReady {tail : Nat} (at_worker : state.workers id = .loadCleanup tail)
      (done : tail = state.cleanup) (ready : state.exitReady id = true) :
      WorkerStep system recursive state id (state.setWorker id .loadMask)
  | setBit (at_worker : state.workers id = .setBit) :
      WorkerStep system recursive state id
        { state.setWorker id .loadMask with
          mask := Function.update state.mask id true
          exitReady := Function.update state.exitReady id true }
  | exit (at_worker : state.workers id = .loadMask) (full : state.maskFull) :
      WorkerStep system recursive state id (state.setWorker id .exited)
  | stay (at_worker : state.workers id = .loadMask) (missing : ¬ state.maskFull) :
      WorkerStep system recursive state id (state.setWorker id .waiting)
  | clearBit {path : Path} (at_worker : state.workers id = .clearBit path) :
      WorkerStep system recursive state id
        { state.setWorker id (.opening path) with mask := Function.update state.mask id false }
  | regular {path : Path} (at_worker : state.workers id = .opening path)
      (kind_eq : system.kind path = .regular) :
      WorkerStep system recursive state id (state.setWorker id (.takeNumber path))
  | directory {path : Path} (at_worker : state.workers id = .opening path)
      (kind_eq : system.kind path = .directory) :
      WorkerStep system recursive state id (state.setWorker id (.countDir path))
  | drop {path : Path} (at_worker : state.workers id = .opening path)
      (kind_ne : system.kind path ≠ .regular) :
      WorkerStep system recursive state id (state.setWorker id .waiting)
  | countDir {path : Path} (at_worker : state.workers id = .countDir path) :
      WorkerStep system recursive state id
        { state.setWorker id (.sendDir path) with cleanup := state.cleanup + 1 }
  | sendDir {path : Path} (at_worker : state.workers id = .sendDir path) :
      WorkerStep system recursive state id
        { state.setWorker id .waiting with dirs := state.dirs ++ [path] }
  | takeNumber {path : Path} (at_worker : state.workers id = .takeNumber path) :
      WorkerStep system recursive state id
        { state.setWorker id (.addFile path (state.fino + 1)) with fino := state.fino + 1 }
  | addFile {path : Path} {fino : Nat} (at_worker : state.workers id = .addFile path fino) :
      WorkerStep system recursive state id (state.setWorker id (.sendMsg path fino))
  | sendMsg {path : Path} {fino : Nat} (at_worker : state.workers id = .sendMsg path fino)
      (room : state.msgs.length < msgBound) :
      WorkerStep system recursive state id
        { state.setWorker id .waiting with
          msgs := state.msgs ++ [(path, fino)]
          announced := state.announced ++ [(path, fino)] }

theorem workerStep {system : FileSystem Path} {recursive : Bool} {state after : State Path}
    {id : Fin fileopenCount} (taken : state.stepWorker system recursive id = some after) :
    WorkerStep system recursive state id after := by
  rw [State.stepWorker] at taken
  cases at_worker : state.workers id with
  | waiting =>
      simp only [at_worker] at taken
      split at taken <;> obtain rfl := Option.some.inj taken
      · exact .timeout at_worker ‹_›
      · split
        · exact .receiveReady at_worker ‹_› ‹_›
        · exact .receive at_worker ‹_› (Bool.eq_false_of_not_eq_true ‹_›)
  | loadCleanup tail =>
      simp only [at_worker, Option.some.injEq] at taken
      subst taken
      split
      · split
        · exact .equalReady at_worker ‹_› ‹_›
        · exact .equal at_worker ‹_› (Bool.eq_false_of_not_eq_true ‹_›)
      · exact .unequal at_worker ‹_›
  | loadMask =>
      simp only [at_worker, Option.some.injEq] at taken
      subst taken
      split
      · exact .exit at_worker ‹_›
      · exact .stay at_worker ‹_›
  | opening path =>
      simp only [at_worker, Option.some.injEq] at taken
      subst taken
      split
      · exact .regular at_worker ‹_›
      · rename_i kind_eq
        split
        · exact .directory at_worker kind_eq
        · exact .drop at_worker (by rw [kind_eq]; decide)
      · rename_i kind_ne _
        exact .drop at_worker kind_ne
  | sendMsg path fino =>
      simp only [at_worker] at taken
      split at taken
      · obtain rfl := Option.some.inj taken
        exact .sendMsg at_worker ‹_›
      · cases taken
  | exited => simp [at_worker] at taken
  | loadTail =>
      simp only [at_worker, Option.some.injEq] at taken
      exact taken ▸ .loadTail at_worker
  | setBit =>
      simp only [at_worker, Option.some.injEq] at taken
      exact taken ▸ .setBit at_worker
  | clearBit path =>
      simp only [at_worker, Option.some.injEq] at taken
      exact taken ▸ .clearBit at_worker
  | countDir path =>
      simp only [at_worker, Option.some.injEq] at taken
      exact taken ▸ .countDir at_worker
  | sendDir path =>
      simp only [at_worker, Option.some.injEq] at taken
      exact taken ▸ .sendDir at_worker
  | takeNumber path =>
      simp only [at_worker, Option.some.injEq] at taken
      exact taken ▸ .takeNumber at_worker
  | addFile path fino =>
      simp only [at_worker, Option.some.injEq] at taken
      exact taken ▸ .addFile at_worker

/-- What a step of a directory worker does. -/
inductive DirStep (system : FileSystem Path) (state : State Path) (id : Fin diropenCount) :
    State Path → Prop
  | receive {path : Path} {rest : List Path} (at_worker : state.dirWorkers id = .waiting)
      (dirs_eq : state.dirs = path :: rest) :
      DirStep system state id { state.setDirWorker id (.opening path) with dirs := rest }
  | list {path : Path} (at_worker : state.dirWorkers id = .opening path) :
      DirStep system state id (state.setDirWorker id (.listing (system.entries path)))
  | entry {path : Path} {rest : List Path} {after : State Path}
      (at_worker : state.dirWorkers id = .listing (path :: rest))
      (sent : (state.setDirWorker id (.listing rest)).sendFile path = some after) :
      DirStep system state id after
  | credit (at_worker : state.dirWorkers id = .listing []) :
      DirStep system state id { state.setDirWorker id .waiting with tail := state.tail + 1 }

theorem dirStep {system : FileSystem Path} {state after : State Path} {id : Fin diropenCount}
    (taken : state.stepDirWorker system id = some after) : DirStep system state id after := by
  rw [State.stepDirWorker] at taken
  split at taken
  · split at taken
    · cases taken
    · obtain rfl := Option.some.inj taken
      exact .receive ‹_› ‹_›
  · obtain rfl := Option.some.inj taken
    exact .list ‹_›
  · exact .entry ‹_› taken
  · obtain rfl := Option.some.inj taken
    exact .credit ‹_›

/-- The path that a file worker has received and not finished. -/
def FileWorker.held : FileWorker Path → List Path
  | .clearBit path | .opening path | .countDir path | .sendDir path | .takeNumber path
  | .addFile path _ | .sendMsg path _ => [path]
  | _ => []

/-- The paths that the main thread has still to send. -/
def Main.pending : Main Path → List Path
  | .sources rest entries => rest ++ entries.reverse
  | .creditTail entries => entries.reverse
  | .fileList rest => rest
  | _ => []

/-- A disk that holds regular files only. -/
def flatDisk : FileSystem Nat where
  kind _ := .regular
  entries _ := []

end Listing
end EScp
