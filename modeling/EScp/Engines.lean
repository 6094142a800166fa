import EScp.BlockQueue
import EScp.Transition
import Mathlib.Data.List.Perm.Basic

/-!
# The file engines

The posix, dummy and uring engines stand behind one table of functions; `set` and `close` are those
of the posix engine or like them.  A worker owns its engine: it fills the queue, takes out what has
been done, and on the sender drains it at the end of a file and may close the descriptor.  What the
disk, the kernel and the other workers do is an argument of the steps.
-/

namespace EScp
namespace Engines

/-! ## Operations -/

/-- `struct posix_op`. -/
structure PosixOp where
  /-- Which of the buffers it has, if any. -/
  buf : Option Nat := none
  sz : UInt64 := 0
  offset : UInt64 := 0
  fd : UInt32 := 0
  compressed : UInt32 := 0
  hash : UInt32 := 0
  /-- The place of its SQE, until that is submitted. -/
  ptr2 : Nat := 0

/-- The keys that are set. -/
inductive Key where
  | sz
  | offset
  | fd

/-- `file_posixset`. -/
def filePosixset (op : PosixOp) (value : UInt64) : Key → PosixOp
  | .sz => { op with sz := value }
  | .offset => { op with offset := value }
  | .fd => { op with fd := value.toUInt32 }

/-- A submission queue entry as it has been prepared. -/
structure Sqe where
  userData : Nat := 0
  fd : UInt32 := 0
  off : UInt64 := 0

/-- A ring of `io_uring`: its entries, which keep what has been written to them, those handed out
and not submitted, the requests that the kernel works on, and those that have ended. -/
structure Ring where
  sqes : Nat → Sqe := fun _ => {}
  pending : List Nat := []
  inFlight : List Sqe := []
  cq : List (Sqe × Int32) := []

/-- `struct file_object`; `pvdr` is an array of operations, and tokens are places in it. -/
structure FileObject where
  QD : Nat
  compression : Bool
  doHash : Bool
  sparse : Bool
  /-- `O_WRONLY` is in `io_flags`. -/
  wronly : Bool
  blkSz : UInt32
  head : Int := 0
  tail : Int := 0
  pvdr : Nat → PosixOp := fun _ => {}
  ring : Ring := {}

/-- What comes from outside in a call. -/
structure Answer where
  /-- What `pread` or `pwrite` returns, or the request that ends. -/
  res : Int32 := 0
  errno : Int32 := 0
  /-- `memcmp_zero` finds zeros only. -/
  zero : Bool := false
  hash : UInt32 := 0
  /-- What `ZSTD_compressCCtx` returns. -/
  csz : UInt64 := 0
  /-- The size of the file in `items`. -/
  fileSz : UInt64 := 0
  /-- The place of the SQE that `io_uring_get_sqe` returns. -/
  sqe : Option Nat := none
  /-- Which of the requests in flight ends first. -/
  ended : Nat := 0

/-- What `submit` returns with a token, and where the operation has taken place. -/
structure Submitted where
  token : Nat
  sz : Int32
  offset : UInt64
  place : UInt64 × UInt32

/-- `set` on a token. -/
def FileObject.set (fob : FileObject) (token : Nat) (key : Key) (value : UInt64) : FileObject :=
  { fob with pvdr := Function.update fob.pvdr token (filePosixset (fob.pvdr token) value key) }

/-! ## The posix engine -/

/-- `file_posixfetch`. -/
def filePosixfetch (fob : FileObject) : Option Nat × FileObject :=
  if 1 ≤ fob.head - fob.tail then (none, fob) else (some 0, { fob with head := fob.head + 1 })

/-- What `file_posixsubmit` writes to the operation after a read of `sz` bytes. -/
def filePosixread (answer : Answer) (fob : FileObject) (sz : Int32) (op : PosixOp) : PosixOp :=
  if 0 < sz then
    { op with
      hash := if fob.doHash then answer.hash else op.hash
      compressed :=
        if fob.compression then
          if 0 < answer.csz ∧ answer.csz < sz.toInt64.toUInt64 then answer.csz.toUInt32 else 0
        else op.compressed }
  else op

/-- `file_posixsubmit`; the process ends if `errno` is not set. -/
def filePosixsubmit (answer : Answer) (fob : FileObject) : Option (Option Submitted × FileObject) :=
  let op := fob.pvdr 0
  if fob.tail < fob.head then
    let sz := if fob.wronly ∧ fob.sparse ∧ answer.zero then op.sz.toUInt32.toInt32 else answer.res
    let after := { fob with
      tail := fob.tail + 1
      pvdr := Function.update fob.pvdr 0
        (if fob.wronly then op else filePosixread answer fob sz op) }
    if sz = -1 then
      if -answer.errno < 0 then some (some ⟨0, -answer.errno, op.offset, op.offset, op.fd⟩, after)
      else none
    else some (some ⟨0, sz, op.offset, op.offset, op.fd⟩, after)
  else some (none, fob)

/-- `file_posixclose`: the descriptor given to `close`. -/
def filePosixclose (fob : FileObject) : UInt32 := (fob.pvdr 0).fd

/-! ## The dummy engine -/

/-- `file_dummysubmit`; `offset` is what stands in the variable of the caller. -/
def fileDummysubmit (answer : Answer) (offset : UInt64) (fob : FileObject) :
    Option (Option Submitted × FileObject) :=
  let op := fob.pvdr 0
  if fob.head ≤ fob.tail then some (none, fob)
  else if fob.compression then none
  else
    let after := { fob with tail := fob.tail + 1 }
    if fob.wronly then some (some ⟨0, op.sz.toUInt32.toInt32, offset, op.offset, op.fd⟩, after)
    else
      let blkSz := fob.blkSz.toUInt64.toInt64
      let szRet := (answer.fileSz - op.offset).toInt64
      let szRet := if blkSz < szRet then blkSz else szRet
      let szRet := if answer.fileSz ≤ op.offset then 0 else szRet
      let hash := if fob.doHash ∧ szRet ≠ 0 then answer.hash else op.hash
      some (some ⟨0, szRet.toInt32, offset, op.offset, op.fd⟩,
        { after with pvdr := Function.update fob.pvdr 0 { op with hash := hash } })

/-- `file_dummyclose`: the descriptor put back on the stack. -/
def fileDummyclose (fob : FileObject) : UInt32 := (fob.pvdr 0).fd

/-! ## The uring engine -/

/-- A fetched SQE belongs to the operation in place `token`. -/
def useSqe (fob : FileObject) (place token : Nat) (op : PosixOp) : FileObject :=
  { fob with
    head := fob.head + 1
    pvdr := Function.update fob.pvdr token { op with ptr2 := place }
    ring := { fob.ring with
      sqes := Function.update fob.ring.sqes place { fob.ring.sqes place with userData := token }
      pending := fob.ring.pending ++ [place] } }

/-- `file_uringfetch`; the process ends if no operation is without a buffer for a new SQE. -/
def fileUringfetch (answer : Answer) (fob : FileObject) : Option (Option Nat × FileObject) :=
  if fob.QD ≤ fob.head - fob.tail then some (none, fob)
  else
    match answer.sqe with
    | none => some (none, fob)
    | some place =>
        let token := (fob.ring.sqes place).userData
        if token = 0 then
          match (List.range' 1 fob.QD).find? fun i => (fob.pvdr i).buf = none with
          | none => none
          | some i => some (some i, useSqe fob place i { fob.pvdr i with buf := some (i - 1) })
        else some (some token, useSqe fob place token (fob.pvdr token))

/-- `file_uringflush`. -/
def fileUringflush (token : Nat) (fob : FileObject) : FileObject :=
  let op := fob.pvdr token
  let sqes := Function.update fob.ring.sqes op.ptr2
    { fob.ring.sqes op.ptr2 with fd := op.fd, off := op.offset }
  { fob with ring := { fob.ring with
      sqes := sqes
      pending := []
      inFlight := fob.ring.inFlight ++ fob.ring.pending.map sqes } }

/-- `io_uring_wait_cqe`: what has ended first, or else the request that ends next. -/
def Ring.wait (answer : Answer) (ring : Ring) : Option ((Sqe × Int32) × Ring) :=
  match ring.cq with
  | cqe :: _ => some (cqe, ring)
  | [] =>
      (ring.inFlight[answer.ended]?).map fun sqe =>
        ((sqe, answer.res), { ring with
          inFlight := ring.inFlight.eraseIdx answer.ended
          cq := [(sqe, answer.res)] })

/-- `file_uringsubmit`. -/
def fileUringsubmit (answer : Answer) (fob : FileObject) :
    Option (Option Submitted × FileObject) :=
  if fob.tail < fob.head then
    (fob.ring.wait answer).map fun (cqe, ring) =>
      let token := cqe.1.userData
      let op := fob.pvdr token
      let hash := if fob.doHash then answer.hash else op.hash
      (some ⟨token, cqe.2, op.offset, cqe.1.off, cqe.1.fd⟩,
        { fob with ring := ring, pvdr := Function.update fob.pvdr token { op with hash := hash } })
  else some (none, fob)

/-- `file_uringcomplete`. -/
def fileUringcomplete (fob : FileObject) : FileObject :=
  { fob with tail := fob.tail + 1, ring := { fob.ring with cq := fob.ring.cq.tail } }

/-! ## The table -/

inductive Engine where
  | posix
  | dummy
  | uring
deriving DecidableEq

namespace Engine

def fetch (answer : Answer) (fob : FileObject) : Engine → Option (Option Nat × FileObject)
  | posix | dummy => some (filePosixfetch fob)
  | uring => fileUringfetch answer fob

def flush (token : Nat) (fob : FileObject) : Engine → FileObject
  | posix | dummy => fob
  | uring => fileUringflush token fob

/-- `submit`, with the variable whose address is `offset`. -/
def submit (answer : Answer) (offset : UInt64) (fob : FileObject) :
    Engine → Option (Option Submitted × FileObject)
  | posix => filePosixsubmit answer fob
  | dummy => fileDummysubmit answer offset fob
  | uring => fileUringsubmit answer fob

def complete (fob : FileObject) : Engine → FileObject
  | posix | dummy => fob
  | uring => fileUringcomplete fob

def close (fob : FileObject) : Engine → UInt32
  | posix | uring => filePosixclose fob
  | dummy => fileDummyclose fob

end Engine

/-- The fields that `file_memoryinit` takes from its arguments. -/
structure Options where
  QD : Nat
  compression : Bool := false
  doHash : Bool := false
  sparse : Bool := false
  wronly : Bool := false
  blkSz : UInt32

/-- `file_posixinit`, `file_dummyinit` and `file_uringinit`. -/
def Engine.init (options : Options) : Engine → FileObject
  | .posix | .dummy =>
      { options with QD := 1, pvdr := fun _ => { buf := some 0 } }
  | .uring => { options with }

/-! ## Workers -/

/-- A call of a worker. -/
abbrev Call := BlockCall Nat UInt64 UInt32

/-- Where a worker is. -/
inductive Pc where
  /-- `tx_worker` before `file_next`. -/
  | next
  /-- `tx_worker` fetches. -/
  | fill
  /-- In `submit_work`, inside so many loops at the end of a file. -/
  | submitWork (depth : Nat)
  /-- `rx_worker` before `network_recv`. -/
  | receive
  /-- `rx_worker` writes, with what is in `res`. -/
  | write (res : UInt64)
  | exited

structure Worker where
  fob : FileObject
  pc : Pc
  /-- `fd` in the local copy of the file. -/
  fd : Int32
  /-- `fs` is not null. -/
  fs : Bool
  calls : List Call

def Worker.tx (fob : FileObject) : Worker := ⟨fob, .next, 0, false, []⟩

def Worker.rx (fob : FileObject) : Worker := ⟨fob, .receive, 0, false, []⟩

/-- What a worker meets in a step. -/
inductive Input where
  /-- `file_next` returns a file with a descriptor, or nothing. -/
  | file (fd : Option Int32)
  /-- `fetch`, and what is in `block_offset` of the file. -/
  | fill (answer : Answer) (blockOffset : UInt64)
  /-- `submit_work`, with what is in its variable `offset`, and whether `file_iow_remove` finds that
  no other worker has the file. -/
  | submitWork (answer : Answer) (offset : UInt64) (last : Bool)
  /-- A block, and the descriptor of its file. -/
  | message (answer : Answer) (offset : UInt64) (sz fd : Int32)
  /-- `submit` in `rx_worker`. -/
  | drain (answer : Answer)

namespace Worker

/-- A fetched operation is told where to take place. -/
def issue (engine : Engine) (worker : Worker) (fob : FileObject) (token : Nat) (fd : Int32)
    (offset sz : UInt64) : Worker :=
  let value := fd.toInt64.toUInt64
  let fob := ((fob.set token .offset offset).set token .sz sz).set token .fd value
  { worker with
    fob := engine.flush token fob
    calls := worker.calls ++ [.fetch token, .setOffset token offset, .setFd token value.toUInt32] }

/-- `submit` has returned a token. -/
def submitted (worker : Worker) (fob : FileObject) (done : Submitted) : Worker :=
  { worker with fob := fob, calls := worker.calls ++ [.submit done.token done.place done.offset] }

def complete (engine : Engine) (worker : Worker) (done : Submitted) : Worker :=
  { worker with
    fob := engine.complete worker.fob, calls := worker.calls ++ [.complete done.token] }

/-- `submit_work` returns to `tx_worker` or to the loop around it. -/
def returned (worker : Worker) : Nat → Worker
  | 0 => { worker with pc := if worker.fs then .fill else .next }
  | depth + 1 => { worker with pc := .submitWork (depth + 1) }

/-- The loop at the end of a file has ended. -/
def finish (engine : Engine) (worker : Worker) (last : Bool) : Worker :=
  if worker.fs then
    if last then
      { worker with fs := false, calls := worker.calls ++ [.close (engine.close worker.fob)] }
    else { worker with fs := false }
  else worker

/-- `submit_work`. -/
def submitWork (engine : Engine) (worker : Worker) (depth : Nat) (answer : Answer)
    (offset : UInt64) (last : Bool) : Option Worker :=
  (engine.submit answer offset worker.fob).map fun (done, fob) =>
    match done, depth with
    | none, 0 => { worker with fob := fob }.returned 0
    | none, depth + 1 => ({ worker with fob := fob }.finish engine last).returned depth
    | some done, depth =>
        let worker := worker.submitted fob done
        if done.sz < 0 then { worker with pc := .exited }
        else if done.sz = 0 then { worker.complete engine done with pc := .submitWork (depth + 1) }
        else if worker.fs then (worker.complete engine done).returned depth
        else { worker with pc := .exited }

/-- A step of `tx_worker` or `rx_worker`. -/
def step (engine : Engine) (worker : Worker) : Input → Option Worker
  | .file fd =>
      match worker.pc, fd with
      | .next, some fd =>
          if fd = 0 then some { worker with pc := .exited }
          else some { worker with pc := .fill, fd := fd, fs := true }
      | .next, none => some { worker with pc := .exited }
      | _, _ => none
  | .fill answer blockOffset =>
      match worker.pc with
      | .fill =>
          (engine.fetch answer worker.fob).map fun (token, fob) =>
            match token with
            | some token =>
                let block := worker.fob.blkSz.toUInt64
                worker.issue engine fob token worker.fd (blockOffset * block) block
            | none => { worker with fob := fob, pc := .submitWork 0 }
      | _ => none
  | .submitWork answer offset last =>
      match worker.pc with
      | .submitWork depth => worker.submitWork engine depth answer offset last
      | _ => none
  | .message answer offset sz fd =>
      match worker.pc with
      | .receive =>
          (engine.fetch answer worker.fob).map fun (token, fob) =>
            match token with
            | some token =>
                let sz := (sz + 4095) &&& ~~~4095
                { worker.issue engine fob token fd offset sz.toInt64.toUInt64 with pc := .write 0 }
            | none => { worker with fob := fob, pc := .exited }
      | _ => none
  | .drain answer =>
      match worker.pc with
      | .write res =>
          (engine.submit answer res worker.fob).map fun (done, fob) =>
            match done with
            | some done =>
                let worker := worker.submitted fob done
                if done.sz ≤ 0 then { worker with pc := .exited }
                else { worker.complete engine done with pc := .write done.offset }
            | none => { worker with fob := fob, pc := .receive }
      | _ => none

/-- The calls of a worker so far are those of a block queue. -/
def Contract (worker : Worker) : Prop :=
  ((BlockQueue.empty : BlockQueue Nat UInt64 UInt32).calls worker.calls).isSome = true

instance (worker : Worker) : Decidable worker.Contract :=
  inferInstanceAs (Decidable (_ = true))

/-- A fetched SQE does not belong to an operation that the kernel works on. -/
def Unused (answer : Answer) (worker : Worker) : Prop :=
  worker.fob.head - worker.fob.tail < worker.fob.QD → ∀ place, answer.sqe = some place →
    (worker.fob.ring.sqes place).userData ∉ worker.fob.ring.inFlight.map Sqe.userData

/-- The variable that is passed to `submit` holds the offset of the operation, if there is one. -/
def Foretold (offset : UInt64) (worker : Worker) : Prop :=
  worker.fob.tail < worker.fob.head → offset = (worker.fob.pvdr 0).offset

/-- The worker is about to leave its file with an empty queue. -/
def AtEnd (worker : Worker) : Prop :=
  worker.fs = true ∧ worker.fob.head ≤ worker.fob.tail ∧
    ∃ depth, worker.pc = .submitWork (depth + 1)

/-- A step in which the dummy engine need not write the offset, and in which the uring engine is
handed an SQE whose operation is not under way and is not to close. -/
def Spared (engine : Engine) (worker : Worker) : Input → Prop
  | .file _ => True
  | .fill answer _ | .message answer _ _ _ => engine = .uring → worker.Unused answer
  | .submitWork _ offset last =>
      (engine = .dummy → worker.Foretold offset) ∧
        (engine = .uring → worker.AtEnd → last = false)
  | .drain _ => engine = .dummy → ∀ res, worker.pc = .write res → worker.Foretold res

end Worker

/-- A worker with its engine. -/
def machine (engine : Engine) : Machine Worker Input where
  initial worker := ∃ options, worker = .tx (engine.init options) ∨
    worker = .rx (engine.init options)
  next worker input := worker.step engine input

end Engines
end EScp
