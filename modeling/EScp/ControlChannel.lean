import EScp.MetaConnection
import EScp.MetaFifo

/-!
# A control message from one end to the other

A message is built, compressed and sent as a metadata frame, received and placed in the ring, and
read by the other end out of the memory of the ring.  `network_recv` and the reader go on at any
pace, and all messages that fit are read in their order.
-/

namespace EScp
namespace ControlChannel

open MetaRing (Incoming Phase)

/-! ## The reading end -/

/-- The ring of a metadata connection, with the frames that `network_recv` has still to take. -/
structure State where
  ring : MetaRing.State Unit
  coming : List Incoming

/-- One step. -/
inductive Label where
  /-- `network_recv` takes the next frame. -/
  | recv
  /-- `network_recv` goes on with its frame. -/
  | produce
  /-- The reader goes on in `meta_recv`, with its message or in `meta_complete`. -/
  | consume

def next (state : State) : Label → Option State
  | .recv =>
      match state.coming with
      | [] => none
      | frame :: coming =>
          (MetaRing.next state.ring (.recv () frame)).map fun ring => ⟨ring, coming⟩
  | .produce => (MetaRing.next state.ring (.produce ())).map fun ring => ⟨ring, state.coming⟩
  | .consume => (MetaRing.next state.ring .consume).map fun ring => ⟨ring, state.coming⟩

/-- A metadata connection on which these frames arrive. -/
def machine (coming : List Incoming) : Machine State Label where
  initial state := ∃ block buffers, block () ≠ Network.metaBlock ∧
    state = ⟨MetaRing.State.init block buffers, coming⟩
  next := next

/-! ## Frames on their way -/

/-- The frame in the metadata branch whose tag has not been checked. -/
def unchecked : Phase → List Incoming
  | .idle | .publish _ _ _ => []
  | .metaInit frame | .metaZero frame | .loadHead frame | .loadTail frame _ | .loadBuf frame _ _
  | .wrap frame _ _ _ | .wait frame _ _ _ | .copyHdr frame _ _ | .readPayload frame _ _
  | .decrypt frame _ _ | .checkTag frame _ _ => [frame]

/-- The frames whose tags are still to be checked. -/
def State.ahead (state : State) : List Incoming :=
  unchecked (state.ring.phases ()) ++ state.coming

/-- A buffer is installed when the connection is marked. -/
def Installed (ring : MetaRing.State Unit) : Prop :=
  ring.block () = Network.metaBlock → ring.metabuf ≠ none

/-- What a step in the branch does to the frames. -/
structure Passes (before after : MetaRing.State Unit) : Prop where
  runs : after.exited = false
  installed : Installed after
  same : after.authenticated ++ (unchecked (after.phases ())).map (·.frame) =
    before.authenticated ++ (unchecked (before.phases ())).map (·.frame)
  fewer : ∀ frame ∈ unchecked (after.phases ()), frame ∈ unchecked (before.phases ())

theorem Passes.setPhase {ring : MetaRing.State Unit} (running : ring.exited = false)
    (installed : Installed ring) {phase : Phase}
    (same : unchecked phase = unchecked (ring.phases ())) :
    Passes ring (ring.setPhase () phase) where
  runs := running
  installed := installed
  same := by
    rw [MetaRing.setPhase_phases, same]
    rfl
  fewer := by
    rw [MetaRing.setPhase_phases, same]
    exact fun _ mem => mem

/-- A step changes the state of the ring in what these fields do not show. -/
theorem Passes.congr {before middle after : MetaRing.State Unit} (passes : Passes before middle)
    (exited_eq : after.exited = middle.exited) (installed : Installed after)
    (authenticated_eq : after.authenticated = middle.authenticated)
    (phases_eq : after.phases = middle.phases) : Passes before after where
  runs := exited_eq.trans passes.runs
  installed := installed
  same := by
    rw [authenticated_eq, phases_eq]
    exact passes.same
  fewer := by
    rw [phases_eq]
    exact passes.fewer

/-- A frame with the right tag goes on, and the process with it. -/
theorem passes_of_advance {ring after : MetaRing.State Unit}
    {pending : List (LapRing.Record MetaRing.Frame)}
    (invariant : MetaRing.Ring ring pending) (fresh : MetaRing.Fresh ring)
    (running : ring.exited = false) (installed : Installed ring)
    (authentic : ∀ frame ∈ unchecked (ring.phases ()), frame.authentic = true)
    (taken : ring.advance () = some after) : Passes ring after := by
  have agrees := invariant.phases ()
  have branch := fresh.branch
  cases at_phase : ring.phases () with
  | idle => simp [MetaRing.State.advance, at_phase] at taken
  | metaInit frame =>
      simp only [MetaRing.State.advance, at_phase, Option.some.injEq] at taken
      subst taken
      have moved : Passes ring (ring.setPhase () (.metaZero frame)) :=
        .setPhase running installed (by rw [at_phase]; rfl)
      exact moved.congr rfl (fun _ => Option.some_ne_none _) rfl rfl
  | metaZero frame =>
      rw [at_phase] at branch
      have present : ring.metabuf.isNone = false :=
        Option.isNone_eq_false_iff.mpr (Option.isSome_iff_ne_none.mpr branch.2)
      simp only [MetaRing.State.advance, at_phase, present, Bool.false_eq_true, if_false,
        Option.some.injEq] at taken
      subst taken
      have moved : Passes ring (ring.setPhase () (.loadHead frame)) :=
        .setPhase running installed (by rw [at_phase]; rfl)
      exact moved.congr rfl (fun _ => branch.2) rfl rfl
  | loadHead | loadTail | loadBuf | copyHdr | readPayload | decrypt =>
      simp only [MetaRing.State.advance, at_phase, Option.some.injEq] at taken
      subst taken
      exact .setPhase running installed (by rw [at_phase]; rfl)
  | wrap frame head tail buf =>
      rw [at_phase] at branch agrees
      obtain ⟨-, -, buf_eq⟩ := agrees
      have marked : ring.block () = Network.metaBlock := branch
      obtain ⟨current, current_eq⟩ := Option.ne_none_iff_exists'.mp (installed marked)
      rw [buf_eq, current_eq] at at_phase
      have small : frame.frame.sz < MetaRing.metabufSz / 2 :=
        frame.frame.sz_le.trans_lt (by decide)
      simp only [MetaRing.State.advance, at_phase, small, not_true_eq_false, if_false] at taken
      split at taken <;> obtain rfl := Option.some.inj taken
      · exact .setPhase running installed (by rw [at_phase]; rfl)
      · exact .setPhase running installed (by rw [at_phase]; rfl)
  | wait frame head tail buf =>
      simp only [MetaRing.State.advance, at_phase] at taken
      split at taken <;> obtain rfl := Option.some.inj taken
      · exact .setPhase running installed (by rw [at_phase]; rfl)
      · exact .setPhase running installed (by rw [at_phase]; rfl)
  | checkTag frame head buf =>
      have right : frame.authentic = true := authentic frame (by rw [at_phase]; simp [unchecked])
      simp only [MetaRing.State.advance, at_phase, right, if_true, Option.some.injEq] at taken
      subst taken
      refine ⟨running, installed, ?_, ?_⟩
      · simp [MetaRing.State.setPhase, at_phase, unchecked]
      · simp [MetaRing.State.setPhase, unchecked]
  | publish frame head buf =>
      obtain ⟨index, index_eq⟩ : ∃ index, index = head + frame.frame.increment := ⟨_, rfl⟩
      simp only [MetaRing.State.advance, at_phase, ← index_eq, Option.some.injEq] at taken
      subst taken
      have moved : Passes ring (ring.setPhase () .idle) :=
        .setPhase running installed (by rw [at_phase]; rfl)
      exact moved.congr rfl installed rfl rfl

/-! ## Everything is read in order -/

/-- All steps but the arrival of a frame. -/
theorem next_of_goes {state : State} {label : MetaRing.Label Unit} (goes : label.Goes)
    {ring : MetaRing.State Unit} (taken : MetaRing.next state.ring label = some ring) :
    ∃ own, next state own = some ⟨ring, state.coming⟩ := by
  cases label with
  | recv connection frame => exact goes.elim
  | produce connection => exact ⟨.produce, by rw [next, taken]; rfl⟩
  | consume => exact ⟨.consume, by rw [next, taken]; rfl⟩

/-- What holds while the frames of a list arrive. -/
structure Inv (sent : List Incoming) (state : State) : Prop where
  reached : (MetaRing.machine Unit).Reached state.ring
  runs : state.ring.exited = false
  installed : Installed state.ring
  authentic : ∀ frame ∈ state.ahead, frame.authentic = true
  all : state.ring.authenticated ++ state.ahead.map (·.frame) = sent.map (·.frame)

variable {sent : List Incoming} {before after state : State}

theorem reached_of_next {ring later : MetaRing.State Unit} {label : MetaRing.Label Unit}
    (reached : (MetaRing.machine Unit).Reached ring)
    (taken : MetaRing.next ring label = some later) :
    (MetaRing.machine Unit).Reached later :=
  @Machine.ReachedUnder.step _ _ (MetaRing.machine Unit) _ _ _ label reached trivial taken

theorem Inv.init (authentic : ∀ frame ∈ sent, frame.authentic = true)
    (initial : (machine sent).initial state) : Inv sent state := by
  obtain ⟨block, buffers, unmarked, rfl⟩ := initial
  refine ⟨.start ⟨block, buffers, rfl⟩, rfl, fun marked => (unmarked marked).elim, ?_, ?_⟩
  · simpa [State.ahead, unchecked, MetaRing.State.init] using authentic
  · simp [State.ahead, unchecked, MetaRing.State.init]

theorem Inv.ring (inv : Inv sent state) :
    MetaRing.Inv state.ring ∧ ∃ pending, MetaRing.Ring state.ring pending := by
  have ring_inv := MetaRing.inv_reached inv.reached
  exact ⟨ring_inv, MetaRing.ring_reached ring_inv.undisturbed⟩

theorem Inv.recv (inv : Inv sent before) (taken : next before .recv = some after) :
    Inv sent after := by
  rw [next] at taken
  cases coming_eq : before.coming with
  | nil =>
      rw [coming_eq] at taken
      cases taken
  | cons frame coming =>
      rw [coming_eq] at taken
      obtain ⟨ring, moved, rfl⟩ := Option.map_eq_some_iff.mp taken
      have reached := reached_of_next inv.reached moved
      obtain ⟨outside, entered⟩ : before.ring.phases () = .idle ∧ ∃ phase,
          unchecked phase = [frame] ∧ ring = before.ring.setPhase () phase := by
        rw [MetaRing.next, if_neg (by simp [inv.runs])] at moved
        split at moved
        · rename_i outside
          obtain rfl := Option.some.inj moved
          refine ⟨outside, _, ?_, rfl⟩
          split <;> rfl
        · cases moved
      obtain ⟨phase, alone, rfl⟩ := entered
      have ahead_eq : State.ahead ⟨before.ring.setPhase () phase, coming⟩ = before.ahead := by
        rw [State.ahead, State.ahead, MetaRing.setPhase_phases, outside, alone, coming_eq]
        rfl
      refine ⟨reached, inv.runs, inv.installed, ?_, ?_⟩
      · rw [ahead_eq]
        exact inv.authentic
      · rw [ahead_eq]
        exact inv.all

theorem Inv.produce (inv : Inv sent before) (taken : next before .produce = some after) :
    Inv sent after := by
  obtain ⟨ring, moved, rfl⟩ := Option.map_eq_some_iff.mp taken
  have reached := reached_of_next inv.reached moved
  obtain ⟨ring_inv, pending, invariant⟩ := inv.ring
  rw [MetaRing.next, if_neg (by simp [inv.runs])] at moved
  obtain ⟨middle, advanced, stored⟩ := Option.map_eq_some_iff.mp moved
  have passes := passes_of_advance invariant ring_inv.fresh inv.runs inv.installed
    (fun frame mem => inv.authentic frame (List.mem_append_left _ mem)) advanced
  obtain ⟨buffers, buffers_eq⟩ := MetaRing.commit_eq middle (before.ring.stores ())
  rw [buffers_eq] at stored
  subst stored
  refine ⟨reached, passes.runs, passes.installed, fun frame mem => ?_, ?_⟩
  · rcases List.mem_append.mp mem with inside | waiting
    · exact inv.authentic frame (List.mem_append_left _ (passes.fewer frame inside))
    · exact inv.authentic frame (List.mem_append_right _ waiting)
  · have all := inv.all
    rw [State.ahead, List.map_append, ← List.append_assoc] at all ⊢
    rw [← passes.same] at all
    exact all

theorem Inv.consume (inv : Inv sent before) (taken : next before .consume = some after) :
    Inv sent after := by
  obtain ⟨ring, moved, rfl⟩ := Option.map_eq_some_iff.mp taken
  have reached := reached_of_next inv.reached moved
  obtain ⟨-, pending, invariant⟩ := inv.ring
  rw [MetaRing.next, if_neg (by simp [inv.runs])] at moved
  obtain rfl := Option.some.inj moved
  obtain ⟨phases_eq, -, -, authenticated_eq, block_eq, buf_eq⟩ := before.ring.consume_keeps
  obtain ⟨records, -, exited_eq, -⟩ := invariant.consume
  have ahead_eq : State.ahead ⟨before.ring.consume, before.coming⟩ = before.ahead := by
    rw [State.ahead, State.ahead, phases_eq]
  refine ⟨reached, exited_eq.trans inv.runs, ?_, ?_, ?_⟩
  · rw [Installed, block_eq, buf_eq]
    exact inv.installed
  · rw [ahead_eq]
    exact inv.authentic
  · rw [ahead_eq, authenticated_eq]
    exact inv.all

theorem inv_reached (authentic : ∀ frame ∈ sent, frame.authentic = true)
    (reached : (machine sent).Reached state) : Inv sent state := by
  refine reached.invariant (Inv sent) (fun _ => Inv.init authentic) ?_
  intro before label after inv _ taken
  cases label with
  | recv => exact inv.recv taken
  | produce => exact inv.produce taken
  | consume => exact inv.consume taken

/-- What the ring does between two arrivals is done here. -/
theorem path_of_goes {ring after : MetaRing.State Unit} {coming : List Incoming}
    (path : (MetaRing.machine Unit).PathBy MetaRing.Label.Goes ring after) :
    (machine sent).PathBy (fun _ => True) ⟨ring, coming⟩ ⟨after, coming⟩ := by
  induction path with
  | refl => exact .refl
  | tail _ last ih =>
      obtain ⟨label, goes, taken⟩ := last
      obtain ⟨own, moved⟩ := @next_of_goes ⟨_, coming⟩ label goes _ taken
      exact ih.tail ⟨own, trivial, moved⟩

/-- A frame whose tag is right is not refused. -/
theorem Inv.not_refused (inv : Inv sent state) : ¬(state.ring.phases ()).Refused := by
  obtain ⟨ring_inv, pending, invariant⟩ := inv.ring
  have agrees := invariant.phases ()
  have branch := ring_inv.fresh.branch
  have authentic := inv.authentic
  rw [State.ahead] at authentic
  intro refused
  cases at_phase : state.ring.phases () <;> rw [at_phase] at refused agrees branch authentic
  case wrap frame head tail buf =>
    obtain ⟨-, -, rfl⟩ := agrees
    have marked : state.ring.block () = Network.metaBlock := branch
    obtain ⟨current, current_eq⟩ := Option.ne_none_iff_exists'.mp (inv.installed marked)
    rw [current_eq] at refused
    exact refused
  case checkTag frame head buf =>
    have right := authentic frame (by simp [unchecked])
    rw [MetaRing.Phase.Refused, right] at refused
    cases refused
  all_goals exact refused

/-- What has come is read before the next frame comes. -/
theorem Inv.settles (authentic : ∀ frame ∈ sent, frame.authentic = true)
    (reached : (machine sent).Reached state) :
    ∃ ring, (machine sent).PathBy (fun _ => True) state ⟨ring, state.coming⟩ ∧
      ring.phases () = .idle ∧ ring.exited = false ∧
        ring.received ++ state.coming.map (·.frame.message) = sent.map (·.frame.message) := by
  have inv := inv_reached authentic reached
  obtain ⟨ring, path, runs, received, -, ends⟩ :=
    (MetaRing.inv_reached inv.reached).delivers inv.runs
  have lifted : (machine sent).PathBy (fun _ => True) state ⟨ring, state.coming⟩ :=
    path_of_goes path
  have last := inv_reached authentic (lifted.reached reached)
  have outside := ends.resolve_right last.not_refused
  have all := congrArg (List.map MetaRing.Frame.message) last.all
  rw [State.ahead] at all
  dsimp only at all
  rw [outside, unchecked, List.nil_append, List.map_append, ← received, List.map_map,
    List.map_map] at all
  exact ⟨ring, lifted, outside, runs, all⟩

/-- From every state on, all frames are read. -/
theorem delivers (authentic : ∀ frame ∈ sent, frame.authentic = true)
    (reached : (machine sent).Reached state) :
    ∃ after, (machine sent).PathBy (fun _ => True) state after ∧
      after.ring.received = sent.map (·.frame.message) := by
  obtain ⟨coming, coming_eq⟩ : ∃ coming, coming = state.coming := ⟨_, rfl⟩
  induction coming generalizing state with
  | nil =>
      obtain ⟨ring, path, -, -, received⟩ := Inv.settles authentic reached
      rw [← coming_eq, List.map_nil, List.append_nil] at received
      exact ⟨_, path, received⟩
  | cons frame coming ih =>
      obtain ⟨ring, path, outside, runs, -⟩ := Inv.settles authentic reached
      rw [← coming_eq] at path
      obtain ⟨entered, moved⟩ : ∃ entered, MetaRing.next ring (.recv () frame) = some entered := by
        rw [MetaRing.next, if_neg (by simp [runs])]
        rw [outside]
        exact ⟨_, rfl⟩
      have taken : next ⟨ring, frame :: coming⟩ .recv = some ⟨entered, coming⟩ := by
        rw [next]
        dsimp only
        rw [moved]
        rfl
      have further : (machine sent).PathBy (fun _ => True) state ⟨entered, coming⟩ :=
        path.tail ⟨.recv, trivial, taken⟩
      obtain ⟨after, rest, received⟩ := ih (further.reached reached) rfl
      exact ⟨after, further.trans rest, received⟩

/-! ## From one end to the other -/

open Network CryptoInit DataConnection MetaConnection
open ControlMessage (FlatBuffers Fits fromHeader toHeader)
open Replay (sendWhole)

section Ends

variable (zstd : ControlMessage.Zstd) (flat : FlatBuffers)

/-- A message is sent by this call of `meta_send`. -/
def Calls (message : ControlMessage.Message) (call : MetaConnection.Message) : Prop :=
  message.send zstd flat = some (call.head ++ call.buf)

/-- The other end reads a message from its image in the ring, whatever lies behind it. -/
def Reads (message : ControlMessage.Message) (image : MetaRing.Message) : Prop :=
  ∀ dst beyond : List UInt8, dst.length = 131072 →
    message.receive zstd flat dst (image.1 ++ image.2 ++ beyond) = some message.table

end Ends

/-- The frames that come out of a connection, as `network_recv` takes them. -/
structure Carries (coming : List Incoming) (arrivals : List Arrival) : Prop where
  authentic : ∀ frame ∈ coming, frame.authentic = true
  same : coming.map (fun frame => Arrival.metadata frame.frame.hdr frame.frame.payload) = arrivals

/-- What comes out of a connection is read, image by image. -/
structure Heard (images : List MetaRing.Message) (ending : Ending) (run : RxRun) : Prop where
  ending_eq : run.ending = ending
  carried : ∃ coming, Carries coming run.arrivals
  runs : ∀ coming, Carries coming run.arrivals → ∀ state, (machine coming).Reached state →
    state.ring.exited = false
  in_order : ∀ coming, Carries coming run.arrivals → ∀ state, (machine coming).Reached state →
    state.ring.received <+: images
  delivers : ∀ coming, Carries coming run.arrivals → ∀ state, (machine coming).Reached state →
    ∃ after, (machine coming).PathBy (fun _ => True) state after ∧ after.ring.received = images

variable {zstd : ControlMessage.Zstd} {flat : FlatBuffers}

theorem eq_of_image {call other : MetaConnection.Message}
    (same : call.head ++ call.buf = other.head ++ other.buf) : call = other := by
  obtain ⟨head_eq, buf_eq⟩ := List.append_inj same rfl
  have typ_of_head (message : MetaConnection.Message) :
      (fromHeader message.head).2 = message.typ := ControlMessage.snd_fromHeader ..
  have typ_eq : call.typ = other.typ := by
    rw [← typ_of_head, ← typ_of_head, head_eq]
  cases call
  cases other
  simp_all

/-- A message is sent by a call that is not taken for a BYE. -/
theorem exists_call {message : ControlMessage.Message} {frame : List UInt8}
    (sent : message.send zstd flat = some frame) : ∃ call : MetaConnection.Message,
      frame = call.head ++ call.buf ∧ call.typ ≠ byeType ∧ call.buf.length ≤ 1024 * 1024 := by
  have compressed {room : Nat} {typ : UInt16} {buf : List UInt8} (plain : typ ≠ byeType)
      (limit : room ≤ 100000)
      (sent : ControlMessage.sendCompressed zstd room typ buf = some frame) :
      ∃ call : MetaConnection.Message, frame = call.head ++ call.buf ∧ call.typ ≠ byeType ∧
        call.buf.length ≤ 1024 * 1024 := by
    obtain ⟨dst, dst_eq, rfl⟩ := Option.map_eq_some_iff.mp sent
    have bounded := zstd.length_compress _ _ _ dst_eq
    refine ⟨⟨typ, dst⟩, (head_append_buf ⟨typ, dst⟩).symm, plain, ?_⟩
    dsimp only
    omega
  cases message with
  | fileSpec list =>
      simp only [ControlMessage.Message.send] at sent
      split at sent
      · exact compressed (by decide) (by decide) sent
      · rename_i short
        obtain rfl := Option.some.inj sent
        have plain : ControlMessage.msgFileSpec ≠ byeType := by decide
        exact ⟨⟨ControlMessage.msgFileSpec, _⟩, (head_append_buf ⟨_, _⟩).symm, plain,
          (Nat.not_lt.mp short).trans (by decide)⟩
  | fileComplete vec => exact compressed (by decide) (by decide) sent
  | fileCompletions files => exact compressed (by decide) (by decide) sent
  | fileError fino name errmsg errno => exact compressed (by decide) (by decide) sent

theorem Calls.bounds {message : ControlMessage.Message} {call : MetaConnection.Message}
    (calls : Calls zstd flat message call) :
    call.typ ≠ byeType ∧ call.buf.length ≤ 1024 * 1024 := by
  obtain ⟨other, same, bounds⟩ := exists_call calls
  rw [eq_of_image same]
  exact bounds

/-- What is sent by a call is read from its image. -/
theorem Calls.reads {message : ControlMessage.Message} {call : MetaConnection.Message}
    (calls : Calls zstd flat message call) (fits : Fits zstd flat message) :
    Reads zstd flat message (call.head, call.buf) := by
  obtain ⟨frame, sent, read⟩ := ControlMessage.delivered_of_fits fits
  rw [Calls, sent, Option.some.injEq] at calls
  intro dst beyond size
  rw [← calls]
  exact read dst beyond size

/-- What lies in the ring when a call has arrived. -/
def imageOf (call : MetaConnection.Message) : MetaRing.Message := (call.head, call.buf)

theorem exists_calls {messages : List ControlMessage.Message}
    (fits : ∀ message ∈ messages, Fits zstd flat message) :
    ∃ calls, List.Forall₂ (Calls zstd flat) messages calls := by
  induction messages with
  | nil => exact ⟨[], .nil⟩
  | cons message messages ih =>
      obtain ⟨message_fits, others_fit⟩ := List.forall_mem_cons.mp fits
      obtain ⟨frame, sent, -⟩ := ControlMessage.delivered_of_fits message_fits
      obtain ⟨call, rfl, -⟩ := exists_call sent
      obtain ⟨calls, called⟩ := ih others_fit
      exact ⟨call :: calls, .cons sent called⟩

theorem bounds_of_calls {messages : List ControlMessage.Message}
    {calls : List MetaConnection.Message} (called : List.Forall₂ (Calls zstd flat) messages calls) :
    ∀ call ∈ calls, call.typ ≠ byeType ∧ call.buf.length ≤ 1024 * 1024 := by
  induction called with
  | nil => simp
  | cons call_of _ ih => exact List.forall_mem_cons.mpr ⟨call_of.bounds, ih⟩

theorem reads_of_calls {messages : List ControlMessage.Message}
    {calls : List MetaConnection.Message} (called : List.Forall₂ (Calls zstd flat) messages calls)
    (fits : ∀ message ∈ messages, Fits zstd flat message) :
    List.Forall₂ (Reads zstd flat) messages (calls.map imageOf) := by
  induction called with
  | nil => exact .nil
  | cons call_of _ ih =>
      obtain ⟨message_fits, others_fit⟩ := List.forall_mem_cons.mp fits
      exact .cons (call_of.reads message_fits) (ih others_fit)

/-! ## Frames of images -/

theorem ntohl_bytes {a b c d : Nat} (a_lt : a < 256) (b_lt : b < 256) (c_lt : c < 256)
    (d_lt : d < 256) : MetaRing.ntohl (a + 256 * (b + 256 * (c + 256 * d))) =
      d + 256 * (c + 256 * (b + 256 * a)) := by
  have second : (a + 256 * (b + 256 * (c + 256 * d))) / 2 ^ 8 = b + 256 * (c + 256 * d) := by omega
  have third : (a + 256 * (b + 256 * (c + 256 * d))) / 2 ^ 16 = c + 256 * d := by omega
  have fourth : (a + 256 * (b + 256 * (c + 256 * d))) / 2 ^ 24 = d := by omega
  rw [MetaRing.ntohl, second, third, fourth]
  simp only [Nat.add_mul_mod_self_left, Nat.mod_eq_of_lt a_lt, Nat.mod_eq_of_lt b_lt,
    Nat.mod_eq_of_lt c_lt, Nat.mod_eq_of_lt d_lt]
  omega

/-- `ntohl` of the first word is the number that the wire carries. -/
theorem ntohl_firstWord {head : List UInt8} (length_eq : head.length = 16) :
    MetaRing.ntohl (MetaRing.firstWord head) = numberOf (head.take 4).reverse := by
  match head, length_eq with
  | a :: b :: c :: d :: rest, _ =>
      exact ntohl_bytes a.toNat_lt b.toNat_lt c.toNat_lt d.toNat_lt

/-- The frame of an image. -/
theorem exists_incoming {image : MetaRing.Message} (framed : Framed image.1 image.2)
    (short : image.2.length ≤ 1024 * 1024) :
    ∃ frame : Incoming, frame.authentic = true ∧ frame.frame.message = image :=
  ⟨⟨⟨image.1, image.2, framed.head_length,
    (ntohl_firstWord framed.head_length).trans framed.size_eq, short⟩, image.2, rfl, true⟩, rfl,
    rfl⟩

theorem exists_carries {images : List MetaRing.Message}
    (framed : ∀ image ∈ images, Framed image.1 image.2 ∧ image.2.length ≤ 1024 * 1024) :
    ∃ coming, Carries coming (images.map fun image => .metadata image.1 image.2) := by
  induction images with
  | nil => exact ⟨[], by simp, rfl⟩
  | cons image images ih =>
      obtain ⟨image_framed, short⟩ := framed image (List.mem_cons_self ..)
      obtain ⟨frame, authentic, rfl⟩ := exists_incoming image_framed short
      obtain ⟨coming, carried⟩ := ih fun other mem => framed other (List.mem_cons_of_mem _ mem)
      refine ⟨frame :: coming, List.forall_mem_cons.mpr ⟨authentic, carried.authentic⟩, ?_⟩
      rw [List.map_cons, carried.same]
      rfl

theorem Carries.images_eq {coming : List Incoming} {images : List MetaRing.Message}
    (carried : Carries coming (images.map fun image => .metadata image.1 image.2)) :
    coming.map (·.frame.message) = images := by
  have injective : Function.Injective fun image : MetaRing.Message =>
      Arrival.metadata image.1 image.2 := by
    intro left right same
    obtain ⟨head_eq, body_eq⟩ := Arrival.metadata.inj same
    exact Prod.ext head_eq body_eq
  apply injective.list_map
  rw [← carried.same, List.map_map]
  rfl

/-- What comes out of a connection is read. -/
theorem heard_of_arrivals {images : List MetaRing.Message} {run : RxRun} {ending : Ending}
    (framed : ∀ image ∈ images, Framed image.1 image.2 ∧ image.2.length ≤ 1024 * 1024)
    (arrivals_eq : run.arrivals = images.map fun image => .metadata image.1 image.2)
    (ending_eq : run.ending = ending) : Heard images ending run := by
  refine ⟨ending_eq, arrivals_eq ▸ exists_carries framed, ?_, ?_, ?_⟩ <;>
    intro coming carried state reached <;> rw [arrivals_eq] at carried
  · exact (inv_reached carried.authentic reached).runs
  · have inv := inv_reached carried.authentic reached
    have in_order := MetaRing.received_prefix_of_reached inv.reached
    have all := congrArg (List.map MetaRing.Frame.message) inv.all
    rw [List.map_append, List.map_map, List.map_map] at all
    rw [← carried.images_eq]
    exact in_order.trans ⟨_, all⟩
  · rw [← carried.images_eq]
    exact delivers carried.authentic reached

/-! ## The whole way -/

variable {aes : List UInt8 → Gcm} {args : CryptoArgs} {globalIv : BitVec 64} {key : List UInt8}
  {written : Int} {opening : Opening}

/-- AES-128-GCM under the key 00 01 .. 0f for a list of two bytes and for a BYE, each the first long
frame of an object with salt 0x5eed. -/
def lastListGcm : Gcm where
  keystream := firstFrameGcm.keystream
  tag nonce aad ciphertext :=
    if ciphertext = [109, 68, 69, 45, 234, 109, 86, 223, 143, 204, 21, 232, 226, 251, 163, 184, 206,
        179] then
      [37, 39, 130, 135, 169, 20, 251, 237, 242, 106, 208, 239, 114, 63, 204, 206]
    else
      keepaliveGcm.tag nonce aad ciphertext
  length_tag nonce aad ciphertext := by
    split
    · rfl
    · exact keepaliveGcm.length_tag nonce aad ciphertext

/-- AES-128-GCM under the key of the session and under that of the connection. -/
def lastListAes (key : List UInt8) : Gcm :=
  if key = firstArgs.cryptoKey then firstAes key else lastListGcm

def lastListBytes : List UInt8 :=
  [1, 0, 0, 0, 0, 0, 0, 0, 109, 68, 69, 45, 234, 109, 86, 223, 143, 204, 21, 232, 226, 251, 163,
    184, 206, 179, 37, 39, 130, 135, 169, 20, 251, 237, 242, 106, 208, 239, 114, 63, 204, 206]

/-- The list that `iterate_files` sends last, with nothing left in it. -/
def lastList : ControlMessage.Message := .fileSpec ⟨"", [], true⟩

/-- The buffers can be numbered so that the last list takes two bytes. -/
theorem exists_flat : ∃ flat : FlatBuffers, flat.finishedData lastList.table = [0, 0] := by
  obtain ⟨number, injective⟩ := Countable.exists_injective_nat ControlMessage.EscpFileList
  refine ⟨ControlMessage.numbering (Equiv.swap (number lastList.table) 0 ∘ number)
    ((Equiv.injective _).comp injective), ?_⟩
  simp [ControlMessage.numbering, lastList, ControlMessage.Message.table,
    ControlMessage.EscpFileList.textSize, ControlMessage.textBytes]

end ControlChannel
end EScp
