import EScp.MetaRingInvariant
import Mathlib.Data.Fintype.Basic

/-!
# The BYE frame and pending metadata

The last frame that `tx_worker` sends on a connection is typed as metadata.  `network_recv` puts it
in the ring of the metadata connection, and runs `meta_init` first when the connection has not
carried metadata before.
-/

namespace EScp
namespace MetaRing

open Layout LapRing

variable {Connection : Type*} [DecidableEq Connection]

/-- The metadata published is received in order: nothing else is ever received, what is still
pending is received when the consumer goes on, and a frame that is about to be published follows
it. -/
structure Fifo (state : State Connection) : Prop where
  in_order : state.received <+: messages state.published
  delivers : state.exited = false → ∃ after,
    (machine Connection).PathBy (· = .consume) state after ∧ after.exited = false ∧
      after.published = state.published ∧ after.received = messages state.published
  followed : ∀ connection frame head buf, state.phases connection = .publish frame head buf →
    state.exited = false → ∃ middle after, next state (.produce connection) = some middle ∧
      (machine Connection).PathBy (· = .consume) middle after ∧ after.exited = false ∧
      after.received = messages state.published ++ [frame.frame.message]

/-- A ring delivers what is pending. -/
theorem Ring.delivers {state : State Connection} {pending : List (Record Frame)}
    (ring : Ring state pending) (running : state.exited = false) : ∃ after,
    (machine Connection).PathBy (· = .consume) state after ∧ after.exited = false ∧
      after.published = state.published ∧ after.received = messages state.published := by
  obtain ⟨after, path, drained, after_runs, -, published_eq, -⟩ := ring.drain running
  refine ⟨after, path, after_runs, published_eq, ?_⟩
  rw [drained.received_of_drained, published_eq]

theorem next_publish {state : State Connection} {connection : Connection} {frame : Incoming}
    {head buf : Nat} (at_publish : state.phases connection = .publish frame head buf)
    (running : state.exited = false) : ∃ middle, next state (.produce connection) = some middle ∧
      middle.exited = false ∧
        messages middle.published = messages state.published ++ [frame.frame.message] := by
  obtain ⟨index, index_eq⟩ : ∃ index, index = head + frame.frame.increment := ⟨_, rfl⟩
  refine ⟨(state.setPhase connection .idle).storeHead
    ⟨decide (head ≠ state.metahead), frame.frame⟩ index, ?_, by simp [running], by simp [messages]⟩
  simp [next, running, State.advance, State.stores, State.commit, at_publish, index_eq]

/-- While buffers are exchanged on a drained ring only and connections load `metahead` one at a
time, pending metadata is received, and what a connection publishes follows it. -/
theorem fifo_of_undisturbed {state : State Connection}
    (reached : (machine Connection).ReachedUnder Undisturbed state) : Fifo state := by
  obtain ⟨pending, ring⟩ := ring_reached reached
  refine ⟨ring.received_prefix, ring.delivers, ?_⟩
  intro connection frame head buf at_publish running
  obtain ⟨middle, taken, middle_runs, messages_eq⟩ := next_publish at_publish running
  have allowed : Undisturbed state (.produce connection) := by
    simp only [Undisturbed, at_publish]
  obtain ⟨records, published⟩ := ring.next allowed taken
  obtain ⟨after, path, after_runs, -, received_eq⟩ := published.delivers middle_runs
  exact ⟨middle, after, taken, path, after_runs, received_eq.trans messages_eq⟩

instance [Fintype Connection] (state : State Connection) (label : Label Connection) :
    Decidable (Undisturbed state label) := by
  unfold Undisturbed
  split
  · split <;> infer_instance
  · infer_instance

/-! ## Two connections -/

/-- A frame without payload, authentic on the wire. -/
def bare (hdr : List UInt8) (hdr_length : hdr.length = 16)
    (empty : ntohl (firstWord hdr) = 0) : Incoming where
  frame := ⟨hdr, [], hdr_length, empty, by simp⟩
  cipher := []
  cipher_length := rfl
  authentic := true

/-- The BYE of `tx_worker`: `hdr` is 0xB43, everything else is 0. -/
def bye : Incoming :=
  bare [0, 0, 0, 0, 0x43, 0x0b, 0, 0, 0, 0, 0, 0, 0, 0, 0, 0] rfl (by decide)

/-- `msg_session_complete` of the sender, without payload. -/
def sessionComplete : Incoming :=
  bare [0, 0, 0, 0, 0, 1, 0, 0, 0, 0, 0, 0, 0, 0, 0, 0] rfl (by decide)

/-- Connection 0 has carried no metadata before, and neither has connection 1. -/
def start : State (Fin 2) := State.init (fun _ => 0) fun _ _ => 0

/-- A whole pass of a connection through `network_recv`. -/
def receive (connection : Fin 2) (frame : Incoming) (steps : Nat) : List (Label (Fin 2)) :=
  .recv connection frame :: List.replicate steps (.produce connection)

/-- The message of connection 0 is completed before the BYE arrives on connection 1. -/
theorem fifo_after_bye : ∃ state,
    (machine (Fin 2)).run start
        (receive 0 sessionComplete 12 ++ List.replicate 7 .consume ++ receive 1 bye 12) =
      some state ∧
    messages state.published = [sessionComplete.frame.message, bye.frame.message] ∧
      Fifo state := by
  refine ⟨_, rfl, rfl, fifo_of_undisturbed (.of_restrict (Machine.reached_of_run
    ⟨fun _ => 0, fun _ _ => 0, rfl⟩
    (receive 0 sessionComplete 12 ++ List.replicate 7 .consume ++ receive 1 bye 12) rfl))⟩

/-- The BYE of connection 1 installs a new buffer under a message that is pending: the consumer
gets zeros instead of it. -/
theorem bye_clears_pending : ∃ state,
    (machine (Fin 2)).run start
        (receive 0 sessionComplete 12 ++ receive 1 bye 12 ++ List.replicate 6 .consume) =
      some state ∧
    messages state.published = [sessionComplete.frame.message, bye.frame.message] ∧
      state.received = [(List.replicate 16 0, [])] :=
  ⟨_, rfl, rfl, rfl⟩

/-- Arbitrary interleavings lose pending metadata. -/
theorem not_fifo_of_reached :
    ¬∀ state : State (Fin 2), (machine (Fin 2)).Reached state → Fifo state := by
  intro fifo
  obtain ⟨state, taken, published_eq, received_eq⟩ := bye_clears_pending
  have reached : (machine (Fin 2)).Reached state :=
    Machine.reached_of_run ⟨fun _ => 0, fun _ _ => 0, rfl⟩ _ taken
  have in_order := (fifo state reached).in_order
  rw [published_eq, received_eq] at in_order
  revert in_order
  decide

end MetaRing
end EScp
