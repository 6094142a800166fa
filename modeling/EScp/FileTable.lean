import EScp.FileStat
import EScp.StateWord
import EScp.Tally
import EScp.Transition

/-!
# The file table of the sender

`file_addfile` puts a file in a slot of the table that a hash of its number selects.  `file_next`
gives a worker a new file, by its number, or attaches it to a file that other workers have, by the
slot that one of them has published.  The last worker that leaves a file wipes its slot.  Each
atomic operation and each copy of an entry is one step.
-/

namespace EScp
namespace FileTable

open StateWord

/-- `THREAD_COUNT`. -/
def threadCount : Nat := 32

/-- `FILE_STAT_COUNT_HSZ`. -/
def fileStatCountHsz : Nat := 2048

/-- `FILE_STAT_COUNT_CC`. -/
def fileStatCountCc : Nat := 22

/-- `xorshift64s`. -/
def xorshift64s (word : BitVec 64) : BitVec 64 :=
  let word := word ^^^ (word >>> 12)
  let word := word ^^^ (word <<< 25)
  let word := word ^^^ (word >>> 27)
  word * 0x2545F4914F6CDD1D

/-- The slot that is tried for a file number after `index` others. -/
def probe (fileno index : Nat) : Nat :=
  (xorshift64s^[index + 1] (BitVec.ofNat 64 fileno)).toNat % fileStatCountHsz

/-- A thread of `iterate_file_worker`, in `file_addfile` unless idle. -/
inductive Adder where
  | idle
  /-- About to compare and swap the state of the slot `probe fileno index`. -/
  | reserve (fileno : Nat) (fd : Int) (index : Nat)
  /-- About to copy the entry to the slot. -/
  | fill (fileno : Nat) (fd : Int) (slot : Nat)
  /-- About to increment `file_count`. -/
  | count (fileno : Nat)
deriving DecidableEq

/-- Where a `tx_worker` stands. -/
inductive Worker where
  /-- In `file_next`, about to load `file_count`. -/
  | loadCount
  /-- About to load `file_head`. -/
  | loadHead (fc : Nat)
  /-- About to increment `file_head`, whatever it is. -/
  | addHead
  /-- About to compare and swap `file_head`. -/
  | casHead (fh : Nat)
  /-- About to load `file_activefile[index].position`, or `transfer_complete` after the last. -/
  | scan (index : Nat)
  /-- About to copy the entry of `slot`. -/
  | copy (index slot : Nat)
  /-- About to compare and swap the state of `slot`, which had been wiped `wipes` times when it was
  copied. -/
  | casAttach (index slot : Nat) (testFs : FileStat) (wipes : Nat)
  /-- In the second loop for the file `fh`, about to copy the entry of `probe fh index`. -/
  | find (fh index : Nat)
  /-- About to compare and swap the state of `probe fh index`. -/
  | casClaim (fh index : Nat) (testFs : FileStat)
  /-- About to publish the file in `file_activefile`. -/
  | activate (slot : Nat) (testFs : FileStat)
  /-- `file_next` has returned the slot. -/
  | attached (slot : Nat) (testFs : FileStat)
  /-- `tx_worker` has ended because the descriptor is zero. -/
  | stopped (slot : Nat) (testFs : FileStat)
  /-- The last to leave, about to copy the entry for `fc_push`. -/
  | last (slot : Nat)
  /-- About to wipe the slot. -/
  | wipe (slot : Nat)
  /-- `file_next` has returned 0. -/
  | exited
deriving DecidableEq

/-- The table, its counters and the threads; `Thread` are the threads that add files. -/
structure State (Thread : Type*) where
  fileStat : Nat → FileStat
  fileCount : Nat
  fileHead : Nat
  transferComplete : Bool
  fileActivefile : Nat → FileStat
  /-- `GLOBAL_FINO`. -/
  globalFino : Nat
  adders : Thread → Adder
  workers : Id → Worker
  /-- How often each slot has been wiped. -/
  wipes : Nat → Nat
  /-- The file numbers claimed from `file_head`, with the worker that has claimed each. -/
  claimed : List (Nat × Id)

/-- What a worker may change in an entry while it is attached. -/
structure Totals where
  blockOffset : Nat
  blockTotal : Nat
  bytesTotal : Nat
  crc : BitVec 32

/-- One step. -/
inductive Label (Thread : Type*) where
  /-- A thread has opened a file and takes a number for it. -/
  | take (thread : Thread) (fd : Int)
  /-- A thread goes on in `file_addfile`. -/
  | add (thread : Thread)
  /-- A worker takes its next step; one that is attached calls `file_iow_remove`. -/
  | work (id : Id)
  /-- A weak compare and swap fails without reason. -/
  | spurious (id : Id)
  /-- An attached worker updates the counters of its entry. -/
  | update (id : Id) (totals : Totals)
  | completeTransfer

variable {Thread : Type*}

def State.setStat (state : State Thread) (slot : Nat) (stat : FileStat) : State Thread :=
  { state with fileStat := Function.update state.fileStat slot stat }

def State.setWord (state : State Thread) (slot : Nat) (word : BitVec 64) : State Thread :=
  state.setStat slot { state.fileStat slot with state := word }

def State.setWorker (state : State Thread) (id : Id) (worker : Worker) : State Thread :=
  { state with workers := Function.update state.workers id worker }

/-- `file_next` returns a slot to `tx_worker`. -/
def returned (slot : Nat) (testFs : FileStat) : Worker :=
  if testFs.fd = 0 then .stopped slot testFs else .attached slot testFs

/-- `file_head` gives out its next number. -/
def State.claimHead (state : State Thread) (id : Id) : State Thread :=
  { state with
    fileHead := state.fileHead + 1
    claimed := state.claimed ++ [(state.fileHead + 1, id)] }.setWorker id
      (.find (state.fileHead + 1) 0)

/-- The decision of `file_next` on what it has loaded. -/
def decideNext (fc fh : Nat) : Worker :=
  if (threadCount : Int) < fc - fh then .addHead
  else if (0 : Int) < fc - fh then .casHead fh
  else .scan 0

/-- `file_iow_remove`, and the test of what it returns. -/
def State.iowRemove (state : State Thread) (id : Id) (slot : Nat) : State Thread :=
  let res := (state.fileStat slot).state &&& ~~~(idBit id ||| fsIo)
  (state.setWord slot res).setWorker id (if res = fsComplete then .last slot else .loadCount)

/-- One step of a worker. -/
def State.work (state : State Thread) (id : Id) : Option (State Thread) :=
  match state.workers id with
  | .loadCount => some (state.setWorker id (.loadHead state.fileCount))
  | .loadHead fc => some (state.setWorker id (decideNext fc state.fileHead))
  | .addHead => some (state.claimHead id)
  | .casHead fh =>
      if state.fileHead = fh then some (state.claimHead id)
      else some (state.setWorker id .loadCount)
  | .scan index =>
      if index < threadCount then
        let slot := (state.fileActivefile index).position
        some (state.setWorker id (if slot ≠ 0 then .copy index slot else .scan (index + 1)))
      else
        some (state.setWorker id (if state.transferComplete then .exited else .loadCount))
  | .copy index slot =>
      let testFs := state.fileStat slot
      some (state.setWorker id
        (if testFs.state &&& fsIo ≠ 0 then .casAttach index slot testFs (state.wipes slot)
        else .scan (index + 1)))
  | .casAttach index slot testFs _ =>
      if (state.fileStat slot).state = testFs.state then
        some ((state.setWord slot (testFs.state ||| idBit id)).setWorker id (returned slot testFs))
      else
        some (state.setWorker id (.scan (index + 1)))
  | .find fh index =>
      if index < fileStatCountCc then
        let testFs := state.fileStat (probe fh index)
        some (state.setWorker id
          (if testFs.fileNo = fh ∧ testFs.state = fsInit then .casClaim fh index testFs
          else .find fh (index + 1)))
      else
        some (state.setWorker id (.find fh 0))
  | .casClaim fh index testFs =>
      let slot := probe fh index
      if (state.fileStat slot).state = fsInit then
        some ((state.setWord slot (fsComplete ||| fsIo ||| idBit id)).setWorker id
          (.activate slot testFs))
      else
        some (state.setWorker id (.find fh (index + 1)))
  | .activate slot testFs =>
      some ({ state with
        fileActivefile := Function.update state.fileActivefile id testFs }.setWorker id
          (returned slot testFs))
  | .attached slot _ => some (state.iowRemove id slot)
  | .last slot => some (state.setWorker id (.wipe slot))
  | .wipe slot =>
      some ({ state.setStat slot FileStat.zero with
        wipes := Function.update state.wipes slot (state.wipes slot + 1) }.setWorker id .loadCount)
  | .stopped _ _ | .exited => none

/-- A weak compare and swap fails without reason. -/
def State.spurious (state : State Thread) (id : Id) : Option (State Thread) :=
  match state.workers id with
  | .casHead _ => some (state.setWorker id .loadCount)
  | .casAttach index _ _ _ => some (state.setWorker id (.scan (index + 1)))
  | .casClaim fh index _ => some (state.setWorker id (.find fh (index + 1)))
  | _ => none

/-- An attached worker updates the counters of its entry. -/
def State.update (state : State Thread) (id : Id) (totals : Totals) : Option (State Thread) :=
  match state.workers id with
  | .attached slot _ =>
      some (state.setStat slot { state.fileStat slot with
        blockOffset := totals.blockOffset
        blockTotal := totals.blockTotal
        bytesTotal := totals.bytesTotal
        crc := totals.crc })
  | _ => none

variable [DecidableEq Thread]

def State.setAdder (state : State Thread) (thread : Thread) (adder : Adder) : State Thread :=
  { state with adders := Function.update state.adders thread adder }

/-- The entry that `file_addfile` copies to its slot. -/
def newStat (fileno : Nat) (fd : Int) (slot : Nat) : FileStat :=
  { FileStat.zero with state := fsInit, fd := fd, fileNo := fileno, position := slot }

/-- One step of `file_addfile`, which is called again when all its slots are in use. -/
def State.add (state : State Thread) (thread : Thread) : Option (State Thread) :=
  match state.adders thread with
  | .idle => none
  | .reserve fileno fd index =>
      if index < fileStatCountCc then
        let slot := probe fileno index
        if (state.fileStat slot).state = 0 then
          some ((state.setWord slot reserved).setAdder thread (.fill fileno fd slot))
        else
          some (state.setAdder thread (.reserve fileno fd (index + 1)))
      else
        some (state.setAdder thread (.reserve fileno fd 0))
  | .fill fileno fd slot =>
      some ((state.setStat slot (newStat fileno fd slot)).setAdder thread (.count fileno))
  | .count _ =>
      some ({ state with fileCount := state.fileCount + 1 }.setAdder thread .idle)

/-- One step. -/
def next (state : State Thread) : Label Thread → Option (State Thread)
  | .take thread fd =>
      match state.adders thread with
      | .idle =>
          some ({ state with globalFino := state.globalFino + 1 }.setAdder thread
            (.reserve (1 + state.globalFino) fd 0))
      | _ => none
  | .add thread => state.add thread
  | .work id => state.work id
  | .spurious id => state.spurious id
  | .update id totals => state.update id totals
  | .completeTransfer => some { state with transferComplete := true }

/-- The state before any file is added. -/
def State.init : State Thread where
  fileStat _ := FileStat.zero
  fileCount := 0
  fileHead := 0
  transferComplete := false
  fileActivefile _ := FileStat.zero
  globalFino := 0
  adders _ := .idle
  workers _ := .loadCount
  wipes _ := 0
  claimed := []

/-- The interleavings of the threads that add files and of the workers. -/
def machine (Thread : Type*) [DecidableEq Thread] : Machine (State Thread) (Label Thread) where
  initial state := state = State.init
  next := next

end FileTable
end EScp
