import EScp.BlockWrites
import EScp.FileChecksum

/-!
# The files of the receiver

The main loop keeps what it has heard of a file in `files_hash`, opens files in the order of
`files_add` and closes them in the order of `files_close`.  The threads of `rx_worker` find the file
of a block in the file table, wait until it is there, and count the blocks they have written in its
entry.  Each atomic operation, each copy of an entry and each round of a loop of the main loop is
one step.
-/

namespace EScp
namespace ReceiveFiles

open StateWord FileTable FileChecksum

/-! ## Data -/

/-- A file in a `file_spec` message. -/
structure FileEntry where
  name : String := ""
  fino : Nat := 0
  sz : Int := 0
  blocks : Int := 0
  mode : Nat := 0
  uid : Nat := 0
  gid : Nat := 0
  atimSec : Int := 0
  atimNano : Int := 0
  mtimSec : Int := 0
  mtimNano : Int := 0

structure FileInformation where
  path : String := ""
  fino : Nat := 0
  sz : Int := 0
  blocks : Int := -1
  fd : Int := 0
  mode : Nat := 0
  uid : Nat := 0
  gid : Nat := 0
  atimSec : Int := 0
  atimNano : Int := 0
  mtimSec : Int := 0
  mtimNano : Int := 0
  crc : Nat := 0
deriving DecidableEq

/-- The files that the sender announces and sends. -/
structure Transfer (File : Type*) where
  root : File → String
  entry : File → FileEntry
  /-- The number of blocks of each file, which its completion entry carries. -/
  blocks : File → Nat
  content : (file : File) → Fin (blocks file) → List UInt8
  fileHash : List UInt8 → List UInt8
  fino_injective : Function.Injective fun file => (entry file).fino
  fino_ne : ∀ file, (entry file).fino ≠ 0
  blocks_lt : ∀ file, blocks file < 2 ^ 63

variable {File : Type*} {Thread : Type*}

namespace Transfer

variable (transfer : Transfer File)

def fino (file : File) : Nat := (transfer.entry file).fino

/-- A block of one of the files. -/
abbrev Block : Type _ := (file : File) × Fin (transfer.blocks file)

/-- The entry that `send_file_complete` makes for a file. -/
def completion (file : File) : FileEntry :=
  { fino := transfer.fino file, blocks := transfer.blocks file }

end Transfer

/-- How far a block is. -/
inductive Progress where
  | sent
  /-- A thread has received it. -/
  | received
  | hashed
  | written
  | sized
  | counted
deriving DecidableEq

/-- Where a thread is in `rx_worker`. -/
inductive Stage (Block : Type*) where
  /-- In `network_recv`. -/
  | idle
  /-- In `file_wait`, about to copy the entry of the slot that is tried after `index` others. -/
  | wait (block : Block) (index : Nat)
  /-- In `file_wait`, about to compare and swap its state. -/
  | compare (block : Block) (index : Nat)
  /-- About to update `crc`. -/
  | hash (block : Block)
  /-- About to write. -/
  | write (block : Block)
  /-- About to update `bytes_total`. -/
  | size (block : Block)
  /-- About to update `block_total`. -/
  | count (block : Block)

/-- A thread of `rx_worker`. -/
structure RxWorker (Block : Type*) where
  fileCur : Nat
  fsPtr : Nat
  fs : FileStat
  stage : Stage Block

/-- What a descriptor is open on: the file for which it was opened, and the path. -/
structure Opened where
  fino : Nat
  path : String
deriving DecidableEq

/-- A call of `pwrite`. -/
structure Write (Block : Type*) where
  block : Block
  opened : Option Opened

/-- What `close_file` has truncated and closed, as it reports it, and the entry at that time. -/
structure Closed where
  info : FileInformation
  opened : Option Opened
  stat : FileStat

/-- Where the main loop stands. -/
inductive Main where
  | idle
  /-- In `close_file`, which has found the file complete. -/
  | closing (fino slot : Nat)
deriving DecidableEq

structure State (transfer : Transfer File) (Thread : Type*) where
  /-- The file has been announced. -/
  specs : File → Bool
  /-- The completion entry of the file has arrived. -/
  completions : File → Bool
  main : Main
  filesHash : Nat → Option FileInformation
  filesAdd : List Nat
  filesClose : List Nat
  fileStat : Nat → FileStat
  opened : Int → Option Opened
  workers : Thread → RxWorker transfer.Block
  progress : transfer.Block → Progress
  writes : List (Write transfer.Block)
  closed : List Closed

/-- One step. -/
inductive Label (transfer : Transfer File) (Thread : Type*) where
  /-- The main loop reads the entry of a file in a message with a root. -/
  | spec (file : File)
  /-- The main loop reads the entry of a file in a message without one. -/
  | completion (file : File)
  /-- A round of `add_file`, in which `open` returns `fd`. -/
  | add (fd : Int)
  /-- A round of `close_file`, up to the test of `block_total`. -/
  | check
  /-- The rest of that round. -/
  | close
  /-- A thread receives a block. -/
  | receive (thread : Thread) (block : transfer.Block)
  /-- A thread takes its next step. -/
  | work (thread : Thread)
  /-- A weak compare and swap fails without reason. -/
  | spurious (thread : Thread)

/-! ## The file table -/

/-- The slots that are tried for a file number, in order. -/
def probes (fileno : Nat) : List Nat := (List.range fileStatCountCc).map (probe fileno)

/-- `file_addfile` with offset and read limit 0. -/
def fileAddfile (fileStat : Nat → FileStat) (fileno : Nat) (fd : Int) : Option (Nat → FileStat) :=
  ((probes fileno).find? fun slot => (fileStat slot).state = 0).map fun slot =>
    Function.update fileStat slot (newStat fileno fd slot)

/-- `file_getstats`. -/
def fileGetstats (fileStat : Nat → FileStat) (fileno : Nat) : Option Nat :=
  (probes fileno).find? fun slot => fileno = (fileStat slot).fileNo

variable {transfer : Transfer File}

namespace State

/-! ## The main loop -/

def insertHash (state : State transfer Thread) (fino : Nat) (info : FileInformation) :
    State transfer Thread :=
  { state with filesHash := Function.update state.filesHash fino (some info) }

/-- `full_path`. -/
def fullPath (root name : String) : String := if root = "" then name else root ++ "/" ++ name

/-- An entry of a message with a root. -/
def fileSpec (state : State transfer Thread) (root : String) (entry : FileEntry) :
    State transfer Thread :=
  let fi := (state.filesHash entry.fino).getD {}
  let fi := { fi with
    path := fullPath root entry.name
    sz := if fi.sz = 0 then entry.sz else fi.sz
    fino := entry.fino
    mode := entry.mode
    uid := entry.uid
    gid := entry.gid
    atimSec := entry.atimSec
    atimNano := entry.atimNano
    mtimSec := entry.mtimSec
    mtimNano := entry.mtimNano }
  { state.insertHash entry.fino fi with filesAdd := state.filesAdd ++ [entry.fino] }

/-- An entry of a message without a root. -/
def fileCompletion (state : State transfer Thread) (entry : FileEntry) : State transfer Thread :=
  let fi := (state.filesHash entry.fino).getD {}
  let fi := { fi with
    blocks := entry.blocks
    sz := if entry.sz > 0 then entry.sz else fi.sz }
  { state.insertHash entry.fino fi with filesClose := state.filesClose ++ [entry.fino] }

/-- The path that `add_file` opens first. -/
def openPath (path : String) : String := String.ofList (path.toList.takeWhile (· ≠ '\x00'))

/-- A round of `add_file`, with `open` returning a descriptor that is not in use. -/
def addFile (state : State transfer Thread) (fd : Int) : Option (State transfer Thread) :=
  match state.filesAdd with
  | [] => none
  | fino :: rest =>
      if 1 ≤ fd ∧ state.opened fd = none then
        (state.filesHash fino).bind fun fi =>
          (fileAddfile state.fileStat fi.fino fd).map fun fileStat =>
            { state.insertHash fino { fi with fd := fd } with
              opened := Function.update state.opened fd (some ⟨fino, openPath fi.path⟩)
              fileStat := fileStat
              filesAdd := rest }
      else
        none

/-- A round of `close_file`, up to the test of `block_total`. -/
def checkFile (state : State transfer Thread) : Option (State transfer Thread) :=
  match state.filesClose with
  | [] => none
  | fino :: _ =>
      (fileGetstats state.fileStat fino).bind fun slot =>
        (state.filesHash fino).bind fun fi =>
          if fi.blocks < 0 then none
          else if (BitVec.ofNat 64 ((state.fileStat slot).rustValue .blockTotal)).toInt <
              fi.blocks then
            none
          else
            some { state with main := .closing fino slot }

/-- The rest of that round. -/
def closeFile (state : State transfer Thread) (fino slot : Nat) : Option (State transfer Thread) :=
  (state.filesHash fino).map fun fi =>
    let stat := state.fileStat slot
    { state with
      main := .idle
      closed := state.closed ++
        [Closed.mk { fi with crc := stat.rustValue .crc } (state.opened fi.fd) stat]
      opened := Function.update state.opened fi.fd none
      filesHash := Function.update state.filesHash fino none
      filesClose := state.filesClose.tail
      fileStat := Function.update state.fileStat slot FileStat.zero }

/-! ## The threads of `rx_worker` -/

variable [DecidableEq File] [DecidableEq Thread]

def setWorker (state : State transfer Thread) (thread : Thread)
    (worker : RxWorker transfer.Block) : State transfer Thread :=
  { state with workers := Function.update state.workers thread worker }

def setStage (state : State transfer Thread) (thread : Thread) (stage : Stage transfer.Block) :
    State transfer Thread :=
  state.setWorker thread { state.workers thread with stage := stage }

def setStat (state : State transfer Thread) (slot : Nat) (stat : FileStat) :
    State transfer Thread :=
  { state with fileStat := Function.update state.fileStat slot stat }

def setProgress (state : State transfer Thread) (block : transfer.Block) (progress : Progress) :
    State transfer Thread :=
  { state with progress := Function.update state.progress block progress }

/-- A thread receives a block, and calls `file_wait` unless it has had the file before. -/
def receive (state : State transfer Thread) (thread : Thread) (block : transfer.Block) :
    Option (State transfer Thread) :=
  match (state.workers thread).stage, state.progress block with
  | .idle, .sent =>
      some ((state.setProgress block .received).setStage thread
        (if (state.workers thread).fileCur = transfer.fino block.1 then .hash block
        else .wait block 0))
  | _, _ => none

/-- `file_wait` returns. -/
def found (state : State transfer Thread) (thread : Thread) (block : transfer.Block) (slot : Nat)
    (testFs : FileStat) : State transfer Thread :=
  state.setWorker thread ⟨transfer.fino block.1, slot, testFs, .hash block⟩

/-- One step of a thread. -/
def work (state : State transfer Thread) (thread : Thread) : Option (State transfer Thread) :=
  let worker := state.workers thread
  match worker.stage with
  | .idle => none
  | .wait block index =>
      if index < fileStatCountCc then
        let slot := probe (transfer.fino block.1) index
        let testFs := state.fileStat slot
        some (
          if testFs.fileNo ≠ transfer.fino block.1 then
            state.setWorker thread { worker with fs := testFs, stage := .wait block (index + 1) }
          else if testFs.state = fsInit then
            state.setWorker thread { worker with fs := testFs, stage := .compare block index }
          else if testFs.state &&& fsIo ≠ 0 then
            state.found thread block slot testFs
          else
            state.setWorker thread { worker with fs := testFs, stage := .wait block (index + 1) })
      else
        some (state.setStage thread (.wait block 0))
  | .compare block index =>
      let slot := probe (transfer.fino block.1) index
      if (state.fileStat slot).state = fsInit then
        some ((state.setStat slot
          { state.fileStat slot with state := fsComplete ||| fsIo }).found thread block slot
            worker.fs)
      else
        some (state.setStage thread (.wait block (index + 1)))
  | .hash block =>
      let stat := state.fileStat worker.fsPtr
      some (((state.setStat worker.fsPtr { stat with
        crc := stat.crc ^^^ word transfer.fileHash (transfer.content block.1) block.2 }).setProgress
          block .hashed).setStage thread (.write block))
  | .write block =>
      some (({ state with
        writes := state.writes ++ [Write.mk block (state.opened worker.fs.fd)] }.setProgress
          block .written).setStage thread (.size block))
  | .size block =>
      let stat := state.fileStat worker.fsPtr
      let sz := BlockWrites.rxSize (BitVec.ofNat 32 (transfer.content block.1 block.2).length)
      some (((state.setStat worker.fsPtr { stat with
        bytesTotal := stat.bytesTotal + sz.toNat }).setProgress block .sized).setStage thread
          (.count block))
  | .count block =>
      let stat := state.fileStat worker.fsPtr
      some (((state.setStat worker.fsPtr { stat with
        blockTotal := stat.blockTotal + 1 }).setProgress block .counted).setStage thread .idle)

end State

/-! ## The machine -/

variable [DecidableEq File] [DecidableEq Thread]

/-- One step. -/
def next (state : State transfer Thread) : Label transfer Thread → Option (State transfer Thread)
  | .spec file =>
      if state.main = .idle ∧ state.specs file = false then
        some ({ state with specs := Function.update state.specs file true }.fileSpec
          (transfer.root file) (transfer.entry file))
      else
        none
  | .completion file =>
      if state.main = .idle ∧ state.completions file = false then
        some ({ state with
          completions := Function.update state.completions file true }.fileCompletion
            (transfer.completion file))
      else
        none
  | .add fd => if state.main = .idle then state.addFile fd else none
  | .check => if state.main = .idle then state.checkFile else none
  | .close =>
      match state.main with
      | .idle => none
      | .closing fino slot => state.closeFile fino slot
  | .receive thread block => state.receive thread block
  | .work thread => state.work thread
  | .spurious thread =>
      match (state.workers thread).stage with
      | .compare block index => some (state.setStage thread (.wait block (index + 1)))
      | _ => none

/-- The state before anything has arrived. -/
def State.init (transfer : Transfer File) (Thread : Type*) : State transfer Thread where
  specs _ := false
  completions _ := false
  main := .idle
  filesHash _ := none
  filesAdd := []
  filesClose := []
  fileStat _ := FileStat.zero
  opened _ := none
  workers _ := ⟨0, 0, FileStat.zero, .idle⟩
  progress _ := .sent
  writes := []
  closed := []

/-- The interleavings of the main loop and the threads of `rx_worker`. -/
def machine (transfer : Transfer File) (Thread : Type*) [DecidableEq Thread] :
    Machine (State transfer Thread) (Label transfer Thread) where
  initial state := state = State.init transfer Thread
  next := next

end ReceiveFiles
end EScp
