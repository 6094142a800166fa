import EScp.StateWord
import EScp.Tally
import EScp.Tickets
import EScp.Transition

/-!
# How the connections begin

The sender sends `session_init`; the receiver listens, publishes its port and answers.  Then
`tx_start` creates the workers of the sender and waits until each has its memory, while each worker
connects; and `rx_start` accepts connections and creates a worker for each until it has one more
than `thread_count`.  The receiver goes on when one of its workers has met its first frame.
-/

namespace EScp
namespace ConnectionStart

/-- A place in `DTN_THREAD` of the sender. -/
abbrev Thread := Fin 30

/-- The main thread of the sender. -/
inductive Sender where
  /-- About to send `session_init`. -/
  | init
  /-- Waits for the answer. -/
  | reply
  /-- In `tx_start`, about to create the worker `i`. -/
  | spawn (i : Nat)
  /-- In `tx_start`, waits for `meminit`. -/
  | meminit
  /-- `tx_start` has returned. -/
  | started
  | exited
  deriving DecidableEq

/-- A `tx_worker`, with the number it has taken. -/
inductive TxWorker where
  | absent
  /-- About to take its number. -/
  | starting
  /-- About to increment `meminit`. -/
  | numbered (id : Nat)
  /-- About to connect. -/
  | counted (id : Nat)
  /-- About to write the first message. -/
  | connected (id : Nat)
  | opened (id : Nat)
  deriving DecidableEq

/-- The main thread of the receiver. -/
inductive Receiver where
  /-- Waits for `session_init`. -/
  | init
  /-- In `file_get_activeport`. -/
  | activePort
  /-- In `dtn_waituntilready`. -/
  | ready
  | started
  | exited
  deriving DecidableEq

/-- The thread of the receiver that runs `rx_start`. -/
inductive RxStart where
  | absent
  | bind
  /-- About to publish the port. -/
  | publish
  | accept
  | returned
  deriving DecidableEq

/-- The `rx_worker` of a connection, with the number it has taken. -/
inductive RxWorker where
  | absent
  /-- About to take its number. -/
  | starting
  /-- About to read the first message. -/
  | numbered (id : Nat)
  /-- About to read the first frame. -/
  | ready (id : Nat)
  | live (id : Nat)
  deriving DecidableEq

structure State where
  sender : Sender
  /-- `args->thread_count` of the sender. -/
  senderCount : Int
  /-- `thread_id` of the sender. -/
  threadId : Nat
  meminit : Nat
  txWorkers : Thread → TxWorker
  /-- A worker has sent its first frame. -/
  framed : Thread → Bool
  /-- The `session_init` that the receiver has still to read, with its `thread_count`. -/
  sessionInit : Option Int
  /-- The sender has still to read the answer. -/
  reply : Bool
  receiver : Receiver
  /-- `args->thread_count` of the receiver. -/
  receiverCount : Int
  rxStart : RxStart
  /-- `i` in `rx_start`. -/
  slot : Nat
  activePort : Bool
  /-- The connections that wait to be accepted, by the place of their worker. -/
  backlog : List Thread
  accepted : List Thread
  /-- `dtn->thread_id` of the receiver. -/
  rxThreadId : Nat
  rxWorkers : Thread → RxWorker
  /-- `dtn->fob` of the receiver is set. -/
  fob : Bool

/-- One step. -/
inductive Label where
  | sessionInit
  | readInit
  | bind
  | publish
  | reply
  | readReply
  /-- The sender finds its channel to the receiver closed. -/
  | readNothing
  | spawn
  /-- `tx_start` finds `meminit` at its end. -/
  | meminit
  | tx (thread : Thread)
  /-- A worker, or `meta_send`, sends the first frame of a connection. -/
  | frame (thread : Thread)
  | accept
  | rx (thread : Thread)
  /-- `dtn_waituntilready` finds `fob` set. -/
  | ready
  /-- `poll` returns 0. -/
  | timeout
  /-- `dtn_waituntilready` has waited for too long. -/
  | giveUp

/-- The number of a worker of the sender. -/
def TxWorker.id : TxWorker → Option Nat
  | .absent | .starting => none
  | .numbered id | .counted id | .connected id | .opened id => some id

/-- The number of a worker of the receiver. -/
def RxWorker.id : RxWorker → Option Nat
  | .absent | .starting => none
  | .numbered id | .ready id | .live id => some id

/-- A worker that has incremented `meminit`. -/
def TxWorker.initialized : TxWorker → Nat
  | .absent | .starting | .numbered _ => 0
  | .counted _ | .connected _ | .opened _ => 1

/-- A worker whose connection stands. -/
def TxWorker.Connects : TxWorker → Prop
  | .absent | .starting | .numbered _ | .counted _ => False
  | .connected _ | .opened _ => True

instance (worker : TxWorker) : Decidable worker.Connects := by
  cases worker <;> first | exact instDecidableFalse | exact instDecidableTrue

/-- A worker that has written its first message. -/
def TxWorker.Opens : TxWorker → Prop
  | .absent | .starting | .numbered _ | .counted _ | .connected _ => False
  | .opened _ => True

instance (worker : TxWorker) : Decidable worker.Opens := by
  cases worker <;> first | exact instDecidableFalse | exact instDecidableTrue

namespace State

def setTx (state : State) (thread : Thread) (worker : TxWorker) : State :=
  { state with txWorkers := Function.update state.txWorkers thread worker }

def setRx (state : State) (thread : Thread) (worker : RxWorker) : State :=
  { state with rxWorkers := Function.update state.rxWorkers thread worker }

/-- The socket of the receiver listens. -/
def Listens (state : State) : Prop :=
  state.receiver ≠ .exited ∧ state.rxStart ≠ .absent ∧ state.rxStart ≠ .bind

instance (state : State) : Decidable state.Listens := by
  unfold Listens
  infer_instance

/-- A step of a `tx_worker`. -/
def tx (state : State) (thread : Thread) : Option State :=
  match state.txWorkers thread with
  | .absent | .opened _ => none
  | .starting =>
      some ({ state with threadId := state.threadId + 1 }.setTx thread (.numbered state.threadId))
  | .numbered id => some ({ state with meminit := state.meminit + 1 }.setTx thread (.counted id))
  | .counted id =>
      if state.Listens then
        -- the queue of `listen` has `THREAD_COUNT` places
        if state.backlog.length < 32 then
          some ({ state with backlog := state.backlog ++ [thread] }.setTx thread (.connected id))
        else
          none
      else
        some { state with sender := .exited }
  | .connected id => some (state.setTx thread (.opened id))

/-- A step of an `rx_worker`. -/
def rx (state : State) (thread : Thread) : Option State :=
  match state.rxWorkers thread with
  | .absent | .live _ => none
  | .starting =>
      some ({ state with rxThreadId := state.rxThreadId + 1 }.setRx thread
        (.numbered state.rxThreadId))
  | .numbered id =>
      if (state.txWorkers thread).Opens then some (state.setRx thread (.ready id)) else none
  | .ready id =>
      if state.framed thread then some ({ state with fob := true }.setRx thread (.live id))
      else none

/-- `tx_start` has read the answer. -/
def txStart (state : State) : State :=
  let count := if state.senderCount = 0 then 1 else state.senderCount
  { state with
    reply := false
    senderCount := count
    sender := if count < 30 then .spawn 0 else .exited }

/-- `tx_start` creates the worker `i`. -/
def spawn (state : State) (i : Nat) : Option State :=
  if inside : i < 30 then
    some ({ state with
      -- the last one is the worker for metadata
      sender := if (i : Int) < state.senderCount then .spawn (i + 1) else .meminit }.setTx
        ⟨i, inside⟩ .starting)
  else
    none

/-- `rx_start` accepts a connection. -/
def accept (state : State) (thread : Thread) (rest : List Thread) : State :=
  let slot := (state.slot + 1) % 32
  { state with
    backlog := rest
    accepted := state.accepted ++ [thread]
    slot := slot
    rxStart :=
      if state.receiverCount ≠ 0 ∧ state.receiverCount < slot then .returned else .accept }.setRx
        thread .starting

end State

/-- One step. -/
def next (state : State) : Label → Option State
  | .sessionInit =>
      if state.sender = .init then
        some { state with sender := .reply, sessionInit := some state.senderCount }
      else
        none
  | .readInit =>
      match state.sessionInit with
      | none => none
      | some count =>
          if state.receiver = .init then
            some { state with
              sessionInit := none
              receiver := .activePort
              receiverCount := count
              rxStart := .bind }
          else
            none
  | .bind =>
      if state.receiver ≠ .exited ∧ state.rxStart = .bind then
        some { state with rxStart := .publish }
      else
        none
  | .publish =>
      if state.receiver ≠ .exited ∧ state.rxStart = .publish then
        some { state with rxStart := .accept, activePort := true }
      else
        none
  | .reply =>
      if state.receiver = .activePort ∧ state.activePort then
        some { state with receiver := .ready, reply := true }
      else
        none
  | .readReply => if state.sender = .reply ∧ state.reply then some state.txStart else none
  | .readNothing =>
      if state.sender = .reply ∧ state.reply = false ∧ state.receiver = .exited then
        some { state with sender := .exited }
      else
        none
  | .spawn =>
      match state.sender with
      | .spawn i => state.spawn i
      | _ => none
  | .meminit =>
      if state.sender = .meminit ∧ (state.meminit : Int) = state.senderCount + 1 then
        some { state with sender := .started }
      else
        none
  | .tx thread => if state.sender = .exited then none else state.tx thread
  | .frame thread =>
      if state.sender = .started ∧ (state.txWorkers thread).Opens ∧ state.framed thread = false then
        some { state with framed := Function.update state.framed thread true }
      else
        none
  | .accept =>
      match state.backlog with
      | [] => none
      | thread :: rest =>
          if state.receiver ≠ .exited ∧ state.rxStart = .accept then
            some (state.accept thread rest)
          else
            none
  | .rx thread => if state.receiver = .exited then none else state.rx thread
  | .ready =>
      if state.receiver = .ready ∧ state.fob then some { state with receiver := .started }
      else none
  | .timeout =>
      if state.receiver ≠ .exited ∧ state.rxStart = .accept ∧ state.backlog = [] then
        some { state with receiver := .exited }
      else
        none
  | .giveUp =>
      if state.receiver = .ready ∧ state.fob = false then
        some { state with receiver := .exited }
      else
        none

/-- The state before the session. -/
def State.init (threadCount : Int) : State where
  sender := .init
  senderCount := threadCount
  threadId := 0
  meminit := 0
  txWorkers _ := .absent
  framed _ := false
  sessionInit := none
  reply := false
  receiver := .init
  receiverCount := 0
  rxStart := .absent
  slot := 0
  activePort := false
  backlog := []
  accepted := []
  rxThreadId := 0
  rxWorkers _ := .absent
  fob := false

/-- The interleavings of the start of a session. -/
def machine (threadCount : Int) : Machine State Label where
  initial state := state = State.init threadCount
  next := next

end ConnectionStart
end EScp
