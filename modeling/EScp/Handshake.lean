import EScp.Transition
import Mathlib.Tactic.SplitIfs

/-!
# The end of a session

When all files are confirmed, the sender announces that the session is complete and waits for the
acknowledgement of the receiver.  Both directions of the metadata connection are queues.  The
receiver uses its direction also for keepalives, confirmations and errors, and the wait of the
sender ends with whatever message comes first.
-/

namespace EScp
namespace Handshake

/-- A message from the receiver. -/
inductive Msg where
  /-- `msg_file_stat` that confirms some files with the right checksums. -/
  | fileStat (confirmed : Nat)
  | keepalive
  /-- `msg_message`, or `msg_file_stat` with an error or a wrong checksum: the sender exits. -/
  | failure
  | sessionComplete
deriving DecidableEq

/-- A message in the metadata ring of the receiver. -/
inductive RxMsg where
  /-- `msg_file_spec`: file specs or completions. -/
  | fileSpec
  | sessionComplete
  | bye
deriving DecidableEq

/-- Where `escp_sender` stands. -/
inductive Sender where
  /-- In the loop that waits for confirmations. -/
  | confirming
  /-- About to send `msg_session_complete`. -/
  | sendComplete
  /-- About to call `file_completetransfer`. -/
  | completeTransfer
  /-- In the loop that waits for the acknowledgement. -/
  | waiting
  /-- About to call `meta_complete` and to print. -/
  | acknowledged
  | complete
  | exited
deriving DecidableEq

/-- Where the main loop of `escp_receiver` stands. -/
inductive Receiver where
  /-- About to call `add_file` and `close_file`, and to test whether the transfer is complete. -/
  | top
  /-- About to call `meta_recv`. -/
  | recv
  /-- `meta_recv` has returned nothing. -/
  | quiet
  /-- About to send `msg_session_complete`. -/
  | leaving
  | done
deriving DecidableEq

/-- Both ends and the two directions between them. -/
structure State where
  sender : Sender
  filesOk : Nat
  filesTotal : Nat
  /-- The messages that `meta_recv` of the sender has still to return. -/
  toSender : List Msg
  /-- The messages that `meta_recv` of the receiver has still to return. -/
  toReceiver : List RxMsg
  receiver : Receiver
  transferComplete : Bool
  fileCountIn : Nat
  fileCountOut : Nat
  /-- The message that ended the wait for the acknowledgement. -/
  ack : Option Msg
  /-- The main loop of the receiver has met its transfer-complete condition. -/
  met : Bool
deriving DecidableEq

/-- One step. -/
inductive Label where
  | sender
  /-- The sender's `send_file_complete` inside `file_check`. -/
  | fileSpec
  /-- A connection delivers its BYE, which `tx_worker` sends after `file_completetransfer`. -/
  | bye
  /-- `add_file` and `close_file` return their counts. -/
  | top (added closed : Nat)
  | recv
  /-- The receiver sends a message, when `meta_recv` has returned nothing or for an error. -/
  | send (msg : Msg)
  /-- The receiver sends nothing and goes on. -/
  | delay

/-- One step of `escp_sender`. -/
def State.stepSender (state : State) : Option State :=
  match state.sender with
  | .confirming =>
      if state.filesTotal ≤ state.filesOk then
        some { state with sender := .sendComplete }
      else
        match state.toSender with
        | [] => some state
        | .fileStat confirmed :: rest =>
            some { state with toSender := rest, filesOk := state.filesOk + confirmed }
        | .failure :: rest => some { state with toSender := rest, sender := .exited }
        | _ :: rest => some { state with toSender := rest }
  | .sendComplete =>
      some { state with
        sender := .completeTransfer
        toReceiver := state.toReceiver ++ [.sessionComplete] }
  | .completeTransfer => some { state with sender := .waiting }
  | .waiting =>
      match state.toSender with
      | [] => some state
      | msg :: rest =>
          some { state with sender := .acknowledged, toSender := rest, ack := some msg }
  | .acknowledged => some { state with sender := .complete }
  | .complete => none
  | .exited => none

/-- One step of the main loop of `escp_receiver` up to its test. -/
def State.stepTop (state : State) (added closed : Nat) : Option State :=
  if state.receiver = .top then
    let counted := { state with
      fileCountIn := state.fileCountIn + added
      fileCountOut := state.fileCountOut + closed }
    if counted.transferComplete ∧ counted.fileCountIn = counted.fileCountOut then
      some { counted with receiver := .leaving, met := true }
    else if 0 < added then
      some counted
    else
      some { counted with receiver := .recv }
  else
    none

/-- `meta_recv` of the receiver and what it does with the message; the last message. -/
def State.stepRecv (state : State) : Option State :=
  match state.receiver with
  | .recv =>
      match state.toReceiver with
      | [] => some { state with receiver := .quiet }
      | .fileSpec :: rest => some { state with receiver := .top, toReceiver := rest }
      | _ :: rest =>
          some { state with receiver := .top, toReceiver := rest, transferComplete := true }
  | .leaving =>
      some { state with receiver := .done, toSender := state.toSender ++ [.sessionComplete] }
  | _ => none

/-- What the receiver may send, and where. -/
def State.stepSend (state : State) (msg : Msg) : Option State :=
  match state.receiver, msg with
  | .top, .failure => some { state with toSender := state.toSender ++ [msg] }
  | .quiet, .fileStat _ | .quiet, .keepalive =>
      some { state with receiver := .top, toSender := state.toSender ++ [msg] }
  | _, _ => none

/-- One step. -/
def next (state : State) : Label → Option State
  | .sender => state.stepSender
  | .fileSpec =>
      if state.sender = .confirming then
        some { state with toReceiver := state.toReceiver ++ [.fileSpec] }
      else
        none
  | .bye =>
      match state.sender with
      | .waiting | .acknowledged | .complete =>
          some { state with toReceiver := state.toReceiver ++ [.bye] }
      | _ => none
  | .top added closed => state.stepTop added closed
  | .recv => state.stepRecv
  | .send msg => state.stepSend msg
  | .delay =>
      if state.receiver = .quiet then some { state with receiver := .top } else none

/-- The sender begins to wait for confirmations. -/
def State.init (filesTotal : Nat) : State where
  sender := .confirming
  filesOk := 0
  filesTotal := filesTotal
  toSender := []
  toReceiver := []
  receiver := .top
  transferComplete := false
  fileCountIn := 0
  fileCountOut := 0
  ack := none
  met := false

/-- The two ends of a session. -/
def machine : Machine State Label where
  initial state := ∃ filesTotal, state = State.init filesTotal
  next := next

/-- The sender prints `Complete` only after the message of the receiver that says so, and so only
after the receiver has met its condition. -/
def Acknowledged (state : State) : Prop :=
  state.sender = .acknowledged ∨ state.sender = .complete →
    state.ack = some .sessionComplete ∧ state.met = true

/-- Nothing from the receiver waits when the sender leaves the loop of confirmations, and from then
on the receiver sends nothing but its own `msg_session_complete`. -/
def NothingElse (state : State) : Label → Prop
  | .sender => state.sender = .confirming → state.filesTotal ≤ state.filesOk → state.toSender = []
  | .send _ => state.sender = .confirming
  | _ => True

instance (state : State) (label : Label) : Decidable (NothingElse state label) := by
  unfold NothingElse
  split <;> infer_instance

/-! ## Runs without other messages -/

/-- What is under way to the sender once it has left the loop of confirmations. -/
structure Inv (state : State) : Prop where
  sent : .sessionComplete ∈ state.toSender → state.met = true
  only : state.sender ≠ .confirming → state.sender ≠ .exited →
    ∀ msg ∈ state.toSender, msg = .sessionComplete
  leaving : state.receiver = .leaving → state.met = true
  ended : Acknowledged state

variable {state after : State}

/-- A step that takes no message from the receiver. -/
theorem Inv.keep (inv : Inv state) (toSender_eq : after.toSender = state.toSender)
    (sender_eq : after.sender = state.sender) (ack_eq : after.ack = state.ack)
    (met_mono : state.met = true → after.met = true)
    (leaving : after.receiver = .leaving → after.met = true) : Inv after where
  sent := by
    rw [toSender_eq]
    exact met_mono ∘ inv.sent
  only := by
    rw [sender_eq, toSender_eq]
    exact inv.only
  leaving := leaving
  ended := by
    rw [Acknowledged, sender_eq, ack_eq]
    exact fun at_end => (inv.ended at_end).imp_right met_mono

theorem Inv.stepSender (inv : Inv state)
    (allowed : NothingElse state .sender) (taken : state.stepSender = some after) :
    Inv after := by
  rw [State.stepSender] at taken
  cases at_sender : state.sender with
  | confirming =>
      -- Messages are taken from the front, and the sender does not move on.
      have taken_from (rest : List Msg) (sender : Sender) (filesOk : Nat)
          (stays : sender = .confirming ∨ sender = .exited)
          (fewer : ∀ msg ∈ rest, msg ∈ state.toSender) :
          Inv { state with toSender := rest, sender := sender, filesOk := filesOk } :=
        { sent := fun mem => inv.sent (fewer _ mem)
          only := fun confirming exited => (stays.elim confirming exited).elim
          leaving := inv.leaving
          ended := fun at_end => by
            rcases stays with rfl | rfl <;> rcases at_end with at_end | at_end <;> cases at_end }
      simp only [at_sender] at taken
      split at taken
      · rename_i enough
        obtain rfl := Option.some.inj taken
        have empty := allowed at_sender enough
        refine ⟨inv.sent, fun _ _ msg mem => ?_, inv.leaving, fun at_end => ?_⟩
        · change msg ∈ state.toSender at mem
          rw [empty] at mem
          cases mem
        · rcases at_end with at_end | at_end <;> cases at_end
      · split at taken <;> rename_i queue_eq <;> obtain rfl := Option.some.inj taken
        · exact inv
        all_goals
          refine taken_from _ _ _ (by simp) fun msg mem => ?_
          rw [queue_eq]
          exact List.mem_cons_of_mem _ mem
  | sendComplete =>
      simp only [at_sender, Option.some.injEq] at taken
      subst taken
      refine ⟨inv.sent, fun _ _ => inv.only (by simp [at_sender]) (by simp [at_sender]),
        inv.leaving, fun at_end => ?_⟩
      rcases at_end with at_end | at_end <;> cases at_end
  | completeTransfer =>
      simp only [at_sender, Option.some.injEq] at taken
      subst taken
      refine ⟨inv.sent, fun _ _ => inv.only (by simp [at_sender]) (by simp [at_sender]),
        inv.leaving, fun at_end => ?_⟩
      rcases at_end with at_end | at_end <;> cases at_end
  | waiting =>
      have only := inv.only (by simp [at_sender]) (by simp [at_sender])
      simp only [at_sender] at taken
      split at taken
      · obtain rfl := Option.some.inj taken
        exact inv
      · rename_i msg rest queue_eq
        obtain rfl := Option.some.inj taken
        rw [queue_eq] at only
        have is_complete := only msg List.mem_cons_self
        have met := inv.sent (by rw [queue_eq, is_complete]; exact List.mem_cons_self)
        refine ⟨fun _ => met, fun _ _ other mem => only other (List.mem_cons_of_mem _ mem),
          inv.leaving, fun _ => ⟨?_, met⟩⟩
        rw [is_complete]
  | acknowledged =>
      simp only [at_sender, Option.some.injEq] at taken
      subst taken
      exact ⟨inv.sent, fun _ _ => inv.only (by simp [at_sender]) (by simp [at_sender]),
        inv.leaving, fun _ => inv.ended (Or.inl at_sender)⟩
  | complete => simp [at_sender] at taken
  | exited => simp [at_sender] at taken

theorem Inv.stepTop (inv : Inv state) {added closed : Nat}
    (taken : state.stepTop added closed = some after) : Inv after := by
  rw [State.stepTop] at taken
  simp only at taken
  split_ifs at taken <;> obtain rfl := Option.some.inj taken
  · exact inv.keep rfl rfl rfl (fun _ => rfl) fun _ => rfl
  · exact inv.keep rfl rfl rfl id inv.leaving
  · exact inv.keep rfl rfl rfl id fun at_leaving => by cases at_leaving

theorem Inv.stepRecv (inv : Inv state) (taken : state.stepRecv = some after) : Inv after := by
  rw [State.stepRecv] at taken
  cases at_receiver : state.receiver with
  | recv =>
      simp only [at_receiver] at taken
      split at taken <;> obtain rfl := Option.some.inj taken <;>
        exact inv.keep rfl rfl rfl id fun at_leaving => by cases at_leaving
  | leaving =>
      have met := inv.leaving at_receiver
      simp only [at_receiver, Option.some.injEq] at taken
      subst taken
      refine ⟨fun _ => met, fun confirming exited msg mem => ?_, fun _ => met, inv.ended⟩
      rcases List.mem_append.mp mem with earlier | last
      · exact inv.only confirming exited msg earlier
      · exact List.mem_singleton.mp last
  | top | quiet | done => simp [at_receiver] at taken

/-- While the sender is in the loop of confirmations, the receiver may send anything. -/
theorem Inv.send (inv : Inv state) (confirming : state.sender = .confirming) {msg : Msg}
    (other : msg ≠ .sessionComplete) {receiver : Receiver}
    (stays : receiver = .leaving → state.met = true) :
    Inv { state with receiver := receiver, toSender := state.toSender ++ [msg] } where
  sent mem := by
    rcases List.mem_append.mp mem with earlier | last
    · exact inv.sent earlier
    · exact (other (List.mem_singleton.mp last).symm).elim
  only moved _ := (moved confirming).elim
  leaving := stays
  ended at_end := by
    change state.sender = .acknowledged ∨ state.sender = .complete at at_end
    rw [confirming] at at_end
    rcases at_end with at_end | at_end <;> cases at_end

theorem Inv.next (inv : Inv state) {label : Label} (allowed : NothingElse state label)
    (taken : Handshake.next state label = some after) : Inv after := by
  cases label with
  | sender => exact inv.stepSender allowed taken
  | fileSpec =>
      simp only [Handshake.next] at taken
      split at taken
      · obtain rfl := Option.some.inj taken
        exact inv.keep rfl rfl rfl id inv.leaving
      · cases taken
  | bye =>
      simp only [Handshake.next] at taken
      split at taken
      · obtain rfl := Option.some.inj taken
        exact inv.keep rfl rfl rfl id inv.leaving
      · obtain rfl := Option.some.inj taken
        exact inv.keep rfl rfl rfl id inv.leaving
      · obtain rfl := Option.some.inj taken
        exact inv.keep rfl rfl rfl id inv.leaving
      · cases taken
  | top added closed => exact inv.stepTop taken
  | recv => exact inv.stepRecv taken
  | send msg =>
      simp only [Handshake.next, State.stepSend] at taken
      split at taken
      · rename_i at_top
        obtain rfl := Option.some.inj taken
        exact @Inv.send state inv allowed .failure (by simp) _ inv.leaving
      · obtain rfl := Option.some.inj taken
        exact inv.send allowed (by simp) (by simp)
      · obtain rfl := Option.some.inj taken
        exact inv.send allowed (by simp) (by simp)
      · cases taken
  | delay =>
      simp only [Handshake.next] at taken
      split at taken
      · obtain rfl := Option.some.inj taken
        exact inv.keep rfl rfl rfl id fun at_leaving => by cases at_leaving
      · cases taken

/-- When nothing else is under way, the sender completes after the receiver. -/
theorem acknowledged_of_nothingElse (reached : machine.ReachedUnder NothingElse state) :
    Acknowledged state := by
  have inv : Inv state := by
    refine reached.invariant Inv ?_ fun _ _ _ inv allowed taken => inv.next allowed taken
    rintro _ ⟨filesTotal, rfl⟩
    refine ⟨by simp [State.init], by simp [State.init], by simp [State.init], fun at_end => ?_⟩
    rcases at_end with at_end | at_end <;> cases at_end
  exact inv.ended

/-! ## A session with one file -/

/-- The receiver closes the only file and confirms it; the sender leaves its loop. -/
def confirmOne : List Label :=
  [.top 1 0, .top 0 1, .recv, .send (.fileStat 1), .sender, .sender]

/-- The receiver hears that the session is complete and acknowledges it. -/
theorem acknowledged_after_one : ∃ state,
    machine.run (State.init 1) (confirmOne ++ [.sender, .sender, .top 0 0, .recv, .top 0 0, .recv,
        .sender, .sender]) = some state ∧
      state.sender = .complete ∧ Acknowledged state := by
  refine ⟨_, rfl, rfl, acknowledged_of_nothingElse (.of_restrict (Machine.reached_of_run ⟨1, rfl⟩
    (confirmOne ++ [.sender, .sender, .top 0 0, .recv, .top 0 0, .recv, .sender, .sender]) rfl))⟩

/-- A keepalive of the receiver ends the wait before it has heard anything. -/
theorem keepalive_ends_wait : ∃ state,
    machine.run (State.init 1) (confirmOne ++ [.top 0 0, .recv, .send .keepalive, .sender, .sender,
        .sender, .sender]) = some state ∧
      state.sender = .complete ∧ state.ack = some .keepalive ∧ state.met = false :=
  ⟨_, rfl, rfl, rfl, rfl⟩

/-- Arbitrary interleavings let the sender complete first. -/
theorem not_acknowledged_of_reached : ¬∀ state, machine.Reached state → Acknowledged state := by
  intro acknowledged
  obtain ⟨state, taken, is_complete, ack_eq, -⟩ := keepalive_ends_wait
  have reached : machine.Reached state := Machine.reached_of_run ⟨1, rfl⟩ _ taken
  have ack := (acknowledged state reached (Or.inr is_complete)).1
  rw [ack_eq] at ack
  cases ack

end Handshake
end EScp
