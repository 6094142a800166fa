import EScp.Confirmation
import EScp.IterateFiles
import EScp.ReceiveFilesClose

/-!
# A session

The sender lists its files, sends their blocks, completes them and counts the confirmations; the
receiver opens, writes, closes and confirms them.  Each direction of the metadata connection is a
queue.  A session is made of the listing of `iterate_files`, the main thread and `fc_worker` of the
sender, the main loop and the threads of the receiver, and these two queues.
-/

namespace EScp
namespace Session

open ReceiveFiles (FileEntry FileInformation Transfer)
open Confirmation (Entry)

/-! ## The files -/

/-- The files of a session, numbered in the order in which they are opened.  With hashing off the
hash of a block is taken to be empty, and its first word is zero. -/
structure Plan (total : Nat) where
  args : IterateFiles.Args
  file : Fin total → IterateFiles.Queued
  blocks : Fin total → Nat
  content : (index : Fin total) → Fin (blocks index) → List UInt8
  fileHash : List UInt8 → List UInt8
  numbered : ∀ index, (file index).fino = index + 1
  blocks_lt : ∀ index, blocks index < 2 ^ 63
  total_lt : total < 2 ^ 64
  /-- Without files the sender exits. -/
  total_pos : 0 < total

variable {total : Nat} (plan : Plan total) {Thread : Type*}

/-- The number of a file, as the sender keeps it. -/
def fino (index : Fin total) : UInt64 := UInt64.ofNat (index + 1)

namespace Plan

/-- What the receiver is told of the files, and the blocks that it gets. -/
def transfer : Transfer (Fin total) where
  root _ := plan.args.destPath
  entry index := plan.args.entry (plan.file index)
  blocks := plan.blocks
  content := plan.content
  fileHash := plan.fileHash
  fino_injective left right same := by
    have numbers := plan.numbered
    simp only [IterateFiles.Args.entry] at same
    refine Fin.ext ?_
    split at same <;> simp_all
  fino_ne index := by
    have numbers := plan.numbered index
    simp only [IterateFiles.Args.entry]
    split <;> simp [numbers]
  blocks_lt := plan.blocks_lt

/-- What `fc_worker` sends to `fc2_out` for a file. -/
def record (index : Fin total) : UInt64 × UInt64 :=
  (fino index, UInt64.ofNat (plan.blocks index))

/-- The checksum that `fc_push` has got for a file. -/
def crc (index : Fin total) : UInt32 :=
  UInt32.ofBitVec (FileChecksum.checksum plan.fileHash (plan.content index))

end Plan

/-! ## Both ends -/

/-- A message of the sender. -/
inductive Message where
  /-- `msg_file_spec`: file specs under a root, or completions without one. -/
  | fileSpec (root : Option String) (files : List FileEntry)
  /-- `msg_session_complete`. -/
  | sessionComplete
  /-- The BYE of a connection. -/
  | bye

structure State (plan : Plan total) (Thread : Type*) where
  sender : Confirmation.State
  listing : IterateFiles.State
  /-- The sender has sent `msg_session_complete`. -/
  completeSent : Bool
  /-- The messages that `meta_recv` of the receiver has still to return. -/
  toReceiver : List Message
  /-- The root of the message that the main loop of the receiver reads. -/
  root : Option String
  /-- The entries of that message which are left. -/
  entries : List FileEntry
  receiver : ReceiveFiles.State plan.transfer Thread
  filesComplete : List FileInformation
  fileCountIn : Nat
  fileCountOut : Nat
  transferComplete : Bool
  /-- The main loop of the receiver has met its transfer-complete condition. -/
  met : Bool

/-- One step. -/
inductive Label (plan : Plan total) (Thread : Type*) where
  /-- `iterate_files` takes a file from `msg_out`. -/
  | announce (index : Fin total)
  /-- `iterate_files` finds nothing in `msg_out` for a moment. -/
  | timeout
  /-- `iterate_files` finds that no more files will come. -/
  | disconnected
  /-- `escp_sender` leaves the loop that shows the progress. -/
  | advance
  /-- `fc_worker` takes the record of a file and sends its checksum. -/
  | pop (index : Fin total)
  | sendBlocks
  /-- The main thread of the sender calls `file_check`. -/
  | check
  /-- The main thread of the sender goes on in `file_check`. -/
  | work
  /-- `escp_sender` leaves its final loop. -/
  | leave
  | sessionComplete
  | bye
  /-- `meta_recv` of the receiver returns a message. -/
  | read
  /-- The main loop of the receiver takes the next entry of a message. -/
  | entry
  /-- A step of the receiver that reads no message. -/
  | receiver (label : ReceiveFiles.Label plan.transfer Thread)
  /-- `send_file_completions`. -/
  | confirm
  | keepalive
  /-- The receiver finds that the transfer is complete. -/
  | exit

/-- `FileArgs` of `send_file_complete`. -/
def completionEntry (record : UInt64 × UInt64) : FileEntry :=
  { fino := record.1.toNat, blocks := record.2.toInt64.toInt }

/-- `FileArgs` of `send_file_completions`, as the sender reads it. -/
def confirmation (info : FileInformation) : Entry :=
  ⟨UInt64.ofNat info.fino, UInt32.ofNat info.crc, 0⟩

/-- The most files in a message of `send_file_completions`. -/
def maxConfirmed : Nat := 4096

namespace State

variable {plan}

/-- `file_spec` messages for what has been added to the lists of `iterate_files`. -/
def specMessages (before after : List IterateFiles.FileList) : List Message :=
  (after.drop before.length).map fun list => .fileSpec (some list.root) list.files

/-- The message for what `send_file_complete` has added to what is completed, if that is
anything. -/
def completionMessages (before after : List (UInt64 × UInt64)) : List Message :=
  match after.drop before.length with
  | [] => []
  | records => [.fileSpec none (records.map completionEntry)]

/-- A result of `msg_out` in `iterate_files`. -/
def list (state : State plan Thread) (sender : Confirmation.State) (event : IterateFiles.Event) :
    Option (State plan Thread) :=
  match state.listing.step plan.args event with
  | .running listing =>
      some { state with
        sender := sender
        listing := listing
        toReceiver := state.toReceiver ++ specMessages state.listing.sent listing.sent }
  | .returned listing =>
      some { state with
        sender := { sender with stage := .progress }
        listing := listing
        toReceiver := state.toReceiver ++ specMessages state.listing.sent listing.sent }
  | .exited | .panicked => none

/-- A step of the sender in `file_check` or `fc_worker`. -/
def send (state : State plan Thread) (sender : Confirmation.State) : State plan Thread :=
  { state with
    sender := sender
    toReceiver := state.toReceiver ++ completionMessages state.sender.completed sender.completed }

/-- A file that an entry names is marked. -/
def mark (plan : Plan total) (flags : Fin total → Bool) (fino : Nat) : Fin total → Bool :=
  fun index => flags index || plan.transfer.fino index == fino

/-- The main loop of the receiver takes an entry. -/
def takeEntry (state : State plan Thread) (entry : FileEntry) (rest : List FileEntry) :
    State plan Thread :=
  match state.root with
  | some root =>
      { state with
        entries := rest
        receiver := { state.receiver with
          specs := mark plan state.receiver.specs entry.fino }.fileSpec root entry }
  | none =>
      { state with
        entries := rest
        receiver := { state.receiver with
          completions := mark plan state.receiver.completions entry.fino }.fileCompletion entry }

/-- A message of the receiver. -/
def reply (state : State plan Thread) (message : Confirmation.Message) : State plan Thread :=
  { state with sender := { state.sender with
    inbox := state.sender.inbox ++ [message]
    confirmed := state.sender.confirmed ++ message.confirmations } }

/-- What a step of the receiver does to the counts and to `files_complete`. -/
def tally (state : State plan Thread) (receiver : ReceiveFiles.State plan.transfer Thread) :
    State plan Thread :=
  { state with
    receiver := receiver
    fileCountIn := state.fileCountIn + (state.receiver.filesAdd.length - receiver.filesAdd.length)
    fileCountOut := state.fileCountOut + (receiver.closed.length - state.receiver.closed.length)
    filesComplete := state.filesComplete ++
      (receiver.closed.drop state.receiver.closed.length).map ReceiveFiles.Closed.info }

/-- The main loop of the receiver is between two messages and between two rounds. -/
def AtTop (state : State plan Thread) : Prop :=
  state.entries = [] ∧ state.receiver.main = .idle ∧ state.met = false

instance (state : State plan Thread) : Decidable state.AtTop := by
  unfold AtTop
  infer_instance

end State

/-- Whether a step of the receiver is one of its main loop. -/
def isMain : ReceiveFiles.Label plan.transfer Thread → Bool
  | .add _ | .check | .close => true
  | _ => false

/-- Whether a step of the receiver reads an entry of a message. -/
def readsEntry : ReceiveFiles.Label plan.transfer Thread → Bool
  | .spec _ | .completion _ => true
  | _ => false

variable [DecidableEq Thread]

/-- One step. -/
def next (state : State plan Thread) : Label plan Thread → Option (State plan Thread)
  | .announce index =>
      (Confirmation.next state.sender (.announce (fino index) (plan.file index).name)).bind
        fun sender => state.list sender (.message (plan.file index))
  | .timeout =>
      if state.sender.main = .loop ∧ state.sender.stage = .iterateFiles then
        state.list state.sender (.timeout 1)
      else
        none
  | .disconnected =>
      if state.sender.main = .loop ∧ state.sender.stage = .iterateFiles ∧
          ∀ index : Fin total, fino index ∈ state.sender.announced then
        state.list state.sender .disconnected
      else
        none
  | .advance =>
      if state.sender.stage = .progress then
        (Confirmation.next state.sender .advance).map state.send
      else
        none
  | .pop index =>
      (Confirmation.next state.sender (.pop (fino index) (plan.crc index)
        (plan.record index).2)).map state.send
  | .sendBlocks => (Confirmation.next state.sender .sendBlocks).map state.send
  | .check => (Confirmation.next state.sender .check).map state.send
  | .work => (Confirmation.next state.sender .work).map state.send
  | .leave => (Confirmation.next state.sender .leave).map state.send
  | .sessionComplete =>
      if state.sender.main = .left ∧ state.completeSent = false then
        some { state with
          completeSent := true
          toReceiver := state.toReceiver ++ [.sessionComplete] }
      else
        none
  | .bye =>
      if state.completeSent then some { state with toReceiver := state.toReceiver ++ [.bye] }
      else none
  | .read =>
      if state.AtTop then
        match state.toReceiver with
        | [] => none
        | .fileSpec root files :: rest =>
            some { state with toReceiver := rest, root := root, entries := files }
        | .sessionComplete :: rest | .bye :: rest =>
            some { state with toReceiver := rest, transferComplete := true }
      else
        none
  | .entry =>
      match state.entries with
      | [] => none
      | entry :: rest => some (state.takeEntry entry rest)
  | .receiver label =>
      if readsEntry plan label then none
      else if isMain plan label ∧ (state.entries ≠ [] ∨ state.met) then none
      else (ReceiveFiles.next state.receiver label).map state.tally
  | .confirm =>
      if state.AtTop ∧ state.filesComplete ≠ [] then
        some { state.reply (.fileStat ((state.filesComplete.reverse.take maxConfirmed).map
            confirmation)) with
          filesComplete :=
            state.filesComplete.take (state.filesComplete.length - maxConfirmed) }
      else
        none
  | .keepalive => if state.AtTop then some (state.reply .keepalive) else none
  | .exit =>
      if state.AtTop ∧ state.transferComplete ∧ state.fileCountIn = state.fileCountOut then
        some { state with met := true }
      else
        none

/-- The state before anything has been listed. -/
def State.init (plan : Plan total) (Thread : Type*) : State plan Thread where
  sender := Confirmation.State.init
  listing := IterateFiles.State.init
  completeSent := false
  toReceiver := []
  root := none
  entries := []
  receiver := ReceiveFiles.State.init plan.transfer Thread
  filesComplete := []
  fileCountIn := 0
  fileCountOut := 0
  transferComplete := false
  met := false

/-- The interleavings of a session. -/
def machine (Thread : Type*) [DecidableEq Thread] : Machine (State plan Thread) (Label plan Thread)
    where
  initial state := state = State.init plan Thread
  next := next plan

end Session
end EScp
