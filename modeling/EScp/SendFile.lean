import EScp.FileChecksum

/-!
# The life of a file on the sender

A worker that `file_next` has given the file reads blocks until it meets the end of the file, drains
its queue and leaves.  Whoever leaves last closes the file, reports it with `fc_push` and wipes the
entry.  Each atomic operation and each copy of an entry is one step.  An engine returns the reads of
its worker in any order.
-/

namespace EScp
namespace SendFile

open StateWord FileTable FileChecksum

/-- A file that `file_addfile` has registered, and what `dtn_args` says about reading it. -/
structure Job where
  fileNo : Nat
  fd : Int
  /-- The slot of its entry. -/
  slot : Nat
  content : List UInt8
  /-- `dtn->block`. -/
  block : Nat
  /-- The number of operations that an engine takes. -/
  depth : Nat
  doHash : Bool
  fileHash : List UInt8 → List UInt8
  /-- `tx_worker` takes the descriptor 0 for none. -/
  fd_ne : fd ≠ 0
  block_pos : 0 < block
  depth_pos : 0 < depth

/-- What `pread` returns at an offset. -/
def Job.pread (job : Job) (offset : Nat) : List UInt8 := (job.content.drop offset).take job.block

/-- What `FOB_HASH` returns for the block at an offset. -/
def Job.word (job : Job) (offset : Nat) : BitVec 32 := firstWord (job.fileHash (job.pread offset))

/-- Where a worker stands that has the file.  `frames` counts the calls of `submit_work` that have
met the end of the file and wait for the current one. -/
inductive Stage where
  /-- In `tx_worker`, about to fetch. -/
  | fetch
  /-- About to call `fob->submit`. -/
  | submit (frames : Nat)
  /-- About to update `crc`. -/
  | hash (frames offset : Nat)
  | send (frames offset : Nat)
  /-- About to update `bytes_total`. -/
  | size (frames offset : Nat)
  /-- About to update `block_total`. -/
  | count (frames offset : Nat)
  /-- About to call `file_iow_remove`. -/
  | remove (frames : Nat)
  | close (frames : Nat)
  /-- About to copy the entry. -/
  | copy (frames : Nat)
  /-- About to call `fc_push`. -/
  | push (frames : Nat)
  | wipe (frames : Nat)
  /-- Back in the calls that wait, with `*fs` cleared. -/
  | unwind (frames : Nat)
deriving DecidableEq

/-- Where a `tx_worker` stands. -/
inductive Place where
  /-- With another file, or in `file_next`. -/
  | away
  /-- In the second loop of `file_next`, about to compare and swap. -/
  | casClaim (testFs : FileStat)
  /-- In the first loop of `file_next`, about to compare and swap. -/
  | casAttach (testFs : FileStat)
  /-- Ended because the descriptor is zero. -/
  | stopped
  /-- With the file; `queue` are the offsets of the operations that the engine has. -/
  | run (fsLcl : FileStat) (queue : List Nat) (stage : Stage)
deriving DecidableEq

/-- A block that `network_send` has sent. -/
structure Sent where
  id : Id
  fileNo : Nat
  offset : Nat
  bytes : List UInt8
deriving DecidableEq

/-- What `fc_push` gets. -/
structure Record where
  fileNo : Nat
  bytes : Nat
  blocks : Nat
  crc : BitVec 32
deriving DecidableEq

/-- The entry of the file, the workers, and what they have done with it. -/
structure State where
  stat : FileStat
  workers : Id → Place
  sent : List Sent
  /-- What `file_iow_remove` has returned to whom. -/
  removed : List (Id × BitVec 64)
  /-- The calls of `fob->close`. -/
  closed : List Id
  pushed : List Record
  wiped : List Id

/-- One step. -/
inductive Label where
  /-- A worker copies the entry in the second loop of `file_next`. -/
  | find (id : Id)
  /-- A worker copies the entry in the first loop of `file_next`. -/
  | copy (id : Id)
  /-- A weak compare and swap fails without reason. -/
  | spurious (id : Id)
  /-- A worker takes its next step. -/
  | work (id : Id)
  /-- `fob->submit` returns the operation at an offset. -/
  | submit (id : Id) (offset : Nat)

def State.setWorker (state : State) (id : Id) (place : Place) : State :=
  { state with workers := Function.update state.workers id place }

/-- `file_next` returns the slot to `tx_worker`. -/
def returned (testFs : FileStat) : Place :=
  if testFs.fd = 0 then .stopped else .run testFs [] .fetch

/-- `submit_work` returns 0 to the call that waits, which calls it again, or to `tx_worker`. -/
def resume (frames : Nat) : Stage := if frames = 0 then .fetch else .submit frames

/-- One step of a worker that has the file, when `pread` is what reading gives at an offset. -/
def State.runWith (pread : Nat → List UInt8) (job : Job) (state : State) (id : Id)
    (fsLcl : FileStat) (queue : List Nat) : Stage → Option State
  | .fetch =>
      if queue.length < job.depth then
        some ({ state with
          stat := { state.stat with blockOffset := state.stat.blockOffset + 1 } }.setWorker id
            (.run fsLcl (queue ++ [state.stat.blockOffset * job.block]) .fetch))
      else
        some (state.setWorker id (.run fsLcl queue (.submit 0)))
  | .submit frames =>
      -- there is no operation left: -1 ends the loop that drains the queue
      if queue = [] then
        some (state.setWorker id (.run fsLcl queue
          (if frames = 0 then .fetch else .remove (frames - 1))))
      else
        none
  | .hash frames offset =>
      some ({ state with stat := { state.stat with
        crc := state.stat.crc ^^^ firstWord (job.fileHash (pread offset)) } }.setWorker id
          (.run fsLcl queue (.send frames offset)))
  | .send frames offset =>
      some ({ state with
        sent := state.sent ++ [Sent.mk id fsLcl.fileNo offset (pread offset)] }.setWorker id
          (.run fsLcl queue (.size frames offset)))
  | .size frames offset =>
      some ({ state with stat := { state.stat with
        bytesTotal := state.stat.bytesTotal + (pread offset).length } }.setWorker id
          (.run fsLcl queue (.count frames offset)))
  | .count frames _ =>
      some ({ state with stat := { state.stat with
        blockTotal := state.stat.blockTotal + 1 } }.setWorker id
          (.run fsLcl queue (resume frames)))
  | .remove frames =>
      let res := state.stat.state &&& ~~~(idBit id ||| fsIo)
      some ({ state with
        stat := { state.stat with state := res }
        removed := state.removed ++ [(id, res)] }.setWorker id
          (.run fsLcl queue (if res = fsComplete then .close frames else .unwind frames)))
  | .close frames =>
      some ({ state with closed := state.closed ++ [id] }.setWorker id
        (.run fsLcl queue (.copy frames)))
  | .copy frames => some (state.setWorker id (.run state.stat queue (.push frames)))
  | .push frames =>
      some ({ state with pushed := state.pushed ++
        [Record.mk fsLcl.fileNo fsLcl.bytesTotal fsLcl.blockTotal fsLcl.crc] }.setWorker id
          (.run fsLcl queue (.wipe frames)))
  | .wipe frames =>
      some ({ state with stat := FileStat.zero, wiped := state.wiped ++ [id] }.setWorker id
        (.run fsLcl queue (.unwind frames)))
  | .unwind frames =>
      -- with an operation left the call that waits would use the cleared `*fs`
      if queue = [] then
        some (state.setWorker id (if frames = 0 then .away else
          .run fsLcl queue (.unwind (frames - 1))))
      else
        none

/-- One step of a worker that has the file, with whole reads. -/
def State.run (job : Job) (state : State) (id : Id) (fsLcl : FileStat) (queue : List Nat)
    (stage : Stage) : Option State :=
  state.runWith job.pread job id fsLcl queue stage

/-- One step of a worker. -/
def State.workWith (pread : Nat → List UInt8) (job : Job) (state : State) (id : Id) :
    Option State :=
  match state.workers id with
  | .casClaim testFs =>
      if state.stat.state = fsInit then
        some ({ state with stat := { state.stat with
          state := fsComplete ||| fsIo ||| idBit id } }.setWorker id (returned testFs))
      else
        some (state.setWorker id .away)
  | .casAttach testFs =>
      if state.stat.state = testFs.state then
        some ({ state with stat := { state.stat with
          state := testFs.state ||| idBit id } }.setWorker id (returned testFs))
      else
        some (state.setWorker id .away)
  | .run fsLcl queue stage => state.runWith pread job id fsLcl queue stage
  | .away | .stopped => none

/-- One step of a worker, with whole reads. -/
def State.work (job : Job) (state : State) (id : Id) : Option State :=
  state.workWith job.pread job id

/-- `fob->submit` returns the operation at an offset to `submit_work`. -/
def State.submitWith (pread : Nat → List UInt8) (job : Job) (state : State) (id : Id)
    (offset : Nat) : Option State :=
  match state.workers id with
  | .run fsLcl queue (.submit frames) =>
      if offset ∈ queue then
        some (state.setWorker id (.run fsLcl (queue.erase offset)
          (if pread offset = [] then .submit (frames + 1)
          else if job.doHash then .hash frames offset
          else .send frames offset)))
      else
        none
  | _ => none

/-- `fob->submit` returns the operation at an offset, which has been read as a whole. -/
def State.submit (job : Job) (state : State) (id : Id) (offset : Nat) : Option State :=
  state.submitWith job.pread job id offset

theorem State.submit_eq_some {job : Job} {state after : State} {id : Id} {offset : Nat}
    (taken : state.submit job id offset = some after) :
    ∃ fsLcl queue frames, state.workers id = .run fsLcl queue (.submit frames) ∧ offset ∈ queue ∧
      after = state.setWorker id (.run fsLcl (queue.erase offset)
        (if job.pread offset = [] then .submit (frames + 1)
        else if job.doHash then .hash frames offset
        else .send frames offset)) := by
  rw [State.submit, State.submitWith] at taken
  split at taken
  · rename_i fsLcl queue frames at_stage
    obtain ⟨mem, moved⟩ := Option.ite_none_right_eq_some.mp taken
    exact ⟨fsLcl, queue, frames, at_stage, mem, (Option.some.inj moved).symm⟩
  · cases taken

/-- One step. -/
def nextWith (pread : Nat → List UInt8) (job : Job) (state : State) : Label → Option State
  | .find id =>
      if state.workers id = .away ∧ state.stat.fileNo = job.fileNo ∧ state.stat.state = fsInit then
        some (state.setWorker id (.casClaim state.stat))
      else
        none
  | .copy id =>
      if state.workers id = .away ∧ state.stat.state &&& fsIo ≠ 0 then
        some (state.setWorker id (.casAttach state.stat))
      else
        none
  | .spurious id =>
      match state.workers id with
      | .casClaim _ | .casAttach _ => some (state.setWorker id .away)
      | _ => none
  | .work id => state.workWith pread job id
  | .submit id offset => state.submitWith pread job id offset

/-- One step, with whole reads. -/
def next (job : Job) (state : State) (label : Label) : Option State :=
  nextWith job.pread job state label

/-- The state after `file_addfile`. -/
def State.init (job : Job) : State where
  stat := newStat job.fileNo job.fd job.slot
  workers _ := .away
  sent := []
  removed := []
  closed := []
  pushed := []
  wiped := []

/-- The interleavings of the workers with one file. -/
def machine (job : Job) : Machine State Label where
  initial state := state = State.init job
  next := next job

end SendFile
end EScp
