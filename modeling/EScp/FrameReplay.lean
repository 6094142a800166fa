import EScp.ConnectionNonce
import EScp.DataFrame

/-!
# Frames delivered by an adversary

The bytes of a connection are in the hands of an adversary without the key, who delivers whatever
bytes he likes to either end.  A frame is taken for authentic only if one of the ends has made it.
`network_recv` keeps no account of the frames it has received and does not look at the flag of the
side, so a frame may be accepted twice, and by the end that has sent it.
-/

namespace EScp
namespace Replay

open Network Layout
open Connection (Side Holder)

/-- A frame: the IV header, which names the type as well, the ciphertext and the plaintext. -/
structure Frame where
  aad : BitVec 64
  ciphertext : List UInt8
  text : List UInt8
  deriving DecidableEq

/-- What a call of `network_recv` accepts. -/
def Frame.ofOpened (opened : Opened) : Frame :=
  ⟨opened.aad, opened.ciphertext, opened.head ++ opened.body⟩

/-- Both ends of a connection, with the frames that they have sent and accepted, oldest first. -/
structure State where
  own : Side → Receiver
  /-- The copy that `meta_send` keeps. -/
  metaCopy : Side → Option NetworkObj
  sent : Side → List Frame
  accepted : Side → List Frame
  exited : Side → Bool

/-- One step. -/
inductive Label where
  /-- An end sends a frame: `head` alone, or `head` and `body` by two calls of `network_send`. -/
  | send (side : Side) (holder : Holder) (subheader : UInt16) (head : List UInt8)
      (body : Option (List UInt8))
  /-- The first `meta_send` of an end copies its object. -/
  | copy (side : Side)
  /-- The adversary delivers bytes to a call of `network_recv`. -/
  | deliver (side : Side) (pieces : List (List UInt8))

/-- The object that an end sends with. -/
def State.knob (state : State) (side : Side) : Holder → Option NetworkObj
  | .own => some (state.own side).knob
  | .metaCopy => state.metaCopy side

/-- Change the object that an end sends with. -/
def State.setKnob (state : State) (side : Side) (holder : Holder) (knob : NetworkObj) : State :=
  match holder with
  | .own =>
      { state with own := Function.update state.own side { state.own side with knob := knob } }
  | .metaCopy => { state with metaCopy := Function.update state.metaCopy side (some knob) }

/-- The one call of `network_send` for a frame without a second part. -/
def sendWhole (gcm : Gcm) (knob : NetworkObj) (subheader : UInt16) (head : List UInt8) :
    Option (NetworkObj × List UInt8) :=
  match networkSend knob false ⟨false, subheader⟩ ⟨8, head.length, 16⟩ with
  | .done knob _ value (some nonce) =>
      if 0 < value.toInt then
        let header := bytesOf 8 knob.ivIncr.toNat
        let ciphertext := gcm.encrypt nonce header head []
        some (knob, header ++ ciphertext ++ gcm.tag nonce header ciphertext)
      else
        none
  | _ => none

/-- The calls of `network_send` for a frame. -/
def sendCalls (gcm : Gcm) (knob : NetworkObj) (subheader : UInt16) (head : List UInt8) :
    Option (List UInt8) → Option (NetworkObj × List UInt8)
  | none => sendWhole gcm knob subheader head
  | some body => sendFrame gcm knob subheader head body

/-- The frame that has been sent with the object `counted`. -/
def sentFrame (gcm : Gcm) (counted : NetworkObj) (head body : List UInt8) : Frame where
  aad := counted.ivIncr
  ciphertext := gcm.encrypt counted.nonce (bytesOf 8 counted.ivIncr.toNat) head body
  text := head ++ body

variable (gcm : Gcm) (zstd : Zstd)

/-- One step. -/
def next (state : State) : Label → Option State
  | .send side holder subheader head body =>
      if state.exited side then
        none
      else
        (state.knob side holder).bind fun knob =>
          match sendCalls gcm knob subheader head body with
          | none => some { state with exited := Function.update state.exited side true }
          | some (counted, _) =>
              some { state.setKnob side holder counted with
                sent := Function.update state.sent side
                  (state.sent side ++ [sentFrame gcm counted head (body.getD [])]) }
  | .copy side =>
      match state.metaCopy side with
      | some _ => none
      | none => some (state.setKnob side .metaCopy (state.own side).knob)
  | .deliver side pieces =>
      if state.exited side then
        none
      else
        match recvFrame gcm zstd (state.own side) pieces with
        | .exit => some { state with exited := Function.update state.exited side true }
        | .closed => some state
        | .frame _ after _ opened _ =>
            some { state with
              own := Function.update state.own side { after with fetched := after.fetched - 1 }
              accepted := Function.update state.accepted side
                (state.accepted side ++ [Frame.ofOpened opened]) }

/-- A connection whose ends have the same salt. -/
def State.init (salt : BitVec 32) (dtn : DtnArgs) : State where
  own
    | .sender => ⟨networkInitTx salt, fun _ => 0, fun _ => 0, 0⟩
    | .receiver => Receiver.init salt dtn
  metaCopy _ := none
  sent _ := []
  accepted _ := []
  exited _ := false

/-- One connection. -/
def machine : Machine State Label where
  initial state := ∃ salt dtn, state = State.init salt dtn
  next := next gcm zstd

/-- The encryption is ideal: what is taken for authentic has been made by one of the ends, with
exactly that header and ciphertext. -/
def Ideal (state : State) : Label → Prop
  | .deliver side pieces =>
      match recvFrame gcm zstd (state.own side) pieces with
      | .frame _ _ _ opened _ => ∃ frame ∈ state.sent .sender ++ state.sent .receiver,
          frame.aad = opened.aad ∧ frame.ciphertext = opened.ciphertext
      | _ => True
  | _ => True

instance (state : State) (label : Label) : Decidable (Ideal gcm zstd state label) := by
  unfold Ideal
  split
  · split <;> infer_instance
  · infer_instance

/-! ## Nonces -/

/-- The nonce of a frame on a connection with the bytes `lead` before the counter. -/
def frameNonce (lead : Nat) (aad : BitVec 64) : List UInt8 :=
  Connection.nonceOf lead (aad.setWidth 32).toNat

theorem nonce_eq_frameNonce (knob : NetworkObj) :
    knob.nonce = frameNonce knob.lead knob.ivIncr := by
  rw [NetworkObj.nonce_eq, frameNonce, Connection.nonceOf, NetworkObj.low_eq]

/-- The plaintext is the one that the ciphertext has under the nonce of the frame. -/
def Genuine (gcm : Gcm) (lead : Nat) (frame : Frame) : Prop :=
  frame.text = gcm.mask (Gcm.init (frameNonce lead frame.aad) []) frame.ciphertext

variable {gcm} {zstd} {lead : Nat}

theorem genuine_sentFrame {counted : NetworkObj} (lead_eq : counted.lead = lead)
    (head body : List UInt8) : Genuine gcm lead (sentFrame gcm counted head body) := by
  have nonce_eq := nonce_eq_frameNonce counted
  rw [lead_eq] at nonce_eq
  rw [Genuine, sentFrame, ← nonce_eq, Gcm.encrypt_eq]
  exact (Gcm.mask_mask _ _).symm

/-- Frames with one header and one ciphertext are one frame. -/
theorem Genuine.ext {left right : Frame} (left_genuine : Genuine gcm lead left)
    (right_genuine : Genuine gcm lead right) (aad_eq : left.aad = right.aad)
    (ciphertext_eq : left.ciphertext = right.ciphertext) : left = right := by
  have text_eq : left.text = right.text := by
    rw [left_genuine, right_genuine, aad_eq, ciphertext_eq]
  cases left
  cases right
  simp_all

theorem recvMeta_opened {receiver after : Receiver} {aad : BitVec 64} {context : Gcm.Context}
    {pieces later : List (List UInt8)} {value : BitVec 64} {subheader : UInt16} {opened : Opened}
    (received : recvMeta gcm receiver aad context pieces =
      .frame value after subheader opened later) :
    after.knob = receiver.knob ∧ opened.aad = aad ∧
      opened.head ++ opened.body = gcm.mask context opened.ciphertext := by
  rw [recvMeta] at received
  split at received
  · cases received
  · dsimp only at received
    split at received
    · cases received
    · split at received
      · cases received
      · split at received
        · cases received
        · obtain ⟨-, rfl, -, rfl, -⟩ := Received.frame.inj received
          exact ⟨rfl, rfl, Gcm.decUpdate_append _ _ _⟩

theorem recvShort_opened {receiver after : Receiver} {aad : BitVec 64} {context : Gcm.Context}
    {pieces later : List (List UInt8)} {value : BitVec 64} {subheader : UInt16} {opened : Opened}
    (received : recvShort gcm zstd receiver aad context pieces =
      .frame value after subheader opened later) :
    after.knob = receiver.knob ∧ opened.aad = aad ∧
      opened.head ++ opened.body = gcm.mask context opened.ciphertext := by
  rw [recvShort] at received
  split at received
  · cases received
  · dsimp only at received
    split at received
    · cases received
    · split at received
      · split at received
        · cases received
        · split at received
          · cases received
          · split at received
            · cases received
            · obtain ⟨-, rfl, -, rfl, -⟩ := Received.frame.inj received
              exact ⟨rfl, rfl, Gcm.decUpdate_append _ _ _⟩
      · split at received
        · cases received
        · split at received
          · cases received
          · split at received
            · cases received
            · obtain ⟨-, rfl, -, rfl, -⟩ := Received.frame.inj received
              exact ⟨rfl, rfl, Gcm.decUpdate_append _ _ _⟩

/-- What `network_recv` returns is the plaintext of what it has read. -/
theorem recvFrame_genuine {receiver after : Receiver} (lead_eq : receiver.knob.lead = lead)
    {pieces later : List (List UInt8)} {value : BitVec 64} {subheader : UInt16} {opened : Opened}
    (received : recvFrame gcm zstd receiver pieces =
      .frame value after subheader opened later) :
    after.knob.lead = lead ∧ Genuine gcm lead (Frame.ofOpened opened) := by
  rw [recvFrame] at received
  split at received
  · cases received
  · rename_i header pieces_after found
    dsimp only at received
    generalize BitVec.ofNat 64 (numberOf header) = aad at received
    have iv_eq : (networkRecv receiver.knob aad).1.iv = (receiver.knob.setIvIncr aad).iv :=
      networkRecv_iv receiver.knob aad
    have lead_after : (networkRecv receiver.knob aad).1.lead = lead := by
      rw [NetworkObj.lead, iv_eq]
      exact (NetworkObj.setIvIncr_lead _ _).trans lead_eq
    have iv_incr_eq : (networkRecv receiver.knob aad).1.ivIncr = aad := by
      rw [NetworkObj.ivIncr, iv_eq]
      exact NetworkObj.setIvIncr_ivIncr _ _
    have nonce_eq : (networkRecv receiver.knob aad).1.nonce = frameNonce lead aad := by
      rw [nonce_eq_frameNonce, lead_after, iv_incr_eq]
    rw [nonce_eq] at received
    split at received
    · obtain ⟨knob_eq, aad_eq, text_eq⟩ := recvShort_opened received
      refine ⟨by rw [knob_eq]; exact lead_after, ?_⟩
      rw [Genuine, Frame.ofOpened, aad_eq]
      exact text_eq
    · obtain ⟨knob_eq, aad_eq, text_eq⟩ := recvMeta_opened received
      refine ⟨by rw [knob_eq]; exact lead_after, ?_⟩
      rw [Genuine, Frame.ofOpened, aad_eq]
      exact text_eq

/-! ## Every run -/

theorem networkSend_lead {knob counted : NetworkObj} {didHeader raised : Bool} {args : SendArgs}
    {writes : Writes} {value : BitVec 64} {nonce : Option (List UInt8)}
    (sent : networkSend knob didHeader args writes = .done counted raised value nonce) :
    counted.lead = knob.lead := by
  rcases networkSend_cases knob didHeader args writes with
    ⟨-, exit | refused | ⟨_, _, done⟩⟩ | ⟨-, _, _, done⟩
  · rw [exit] at sent
    cases sent
  · rw [refused] at sent
    cases sent
  · rw [done] at sent
    obtain ⟨rfl, -, -, -⟩ := Sent.done.inj sent
    rfl
  · rw [done] at sent
    obtain ⟨rfl, -, -, -⟩ := Sent.done.inj sent
    exact NetworkObj.count_lead _ _

theorem sendCalls_lead {knob counted : NetworkObj} {subheader : UInt16} {head bytes : List UInt8}
    {body : Option (List UInt8)}
    (sent : sendCalls gcm knob subheader head body = some (counted, bytes)) :
    counted.lead = knob.lead := by
  cases body with
  | none =>
      simp only [sendCalls, sendWhole] at sent
      split at sent
      · rename_i called
        split at sent
        · obtain ⟨rfl, -⟩ := Prod.mk.inj (Option.some.inj sent)
          exact networkSend_lead called
        · cases sent
      · cases sent
  | some body =>
      simp only [sendCalls, sendFrame] at sent
      split at sent
      · rename_i called
        split at sent
        · split at sent
          · rename_i called_again
            split at sent
            · obtain ⟨rfl, -⟩ := Prod.mk.inj (Option.some.inj sent)
              exact (networkSend_lead called_again).trans (networkSend_lead called)
            · cases sent
          · cases sent
        · cases sent
      · cases sent

/-- All objects of the connection make nonces alike; what is sent is genuine, and what is accepted
has been sent. -/
structure Inv (gcm : Gcm) (lead : Nat) (state : State) : Prop where
  lead_eq : ∀ side holder knob, state.knob side holder = some knob → knob.lead = lead
  genuine : ∀ side, ∀ frame ∈ state.sent side, Genuine gcm lead frame
  accepted : ∀ side, ∀ frame ∈ state.accepted side, ∃ other, frame ∈ state.sent other

variable {state after : State}

theorem Inv.setKnob (inv : Inv gcm lead state) (side : Side) (holder : Holder) {knob : NetworkObj}
    (lead_eq : knob.lead = lead) : Inv gcm lead (state.setKnob side holder knob) := by
  refine ⟨?_, ?_, ?_⟩
  · intro other kind object found
    by_cases same : other = side ∧ kind = holder
    · obtain ⟨rfl, rfl⟩ := same
      have object_eq : knob = object := by
        cases kind <;> simpa [State.setKnob, State.knob] using found
      rw [← object_eq]
      exact lead_eq
    · refine inv.lead_eq other kind object ?_
      rw [← found]
      cases holder <;> cases kind <;>
        simp_all [State.setKnob, State.knob, Function.update_apply]
  · cases holder <;> exact inv.genuine
  · cases holder <;> exact inv.accepted

theorem Inv.exit (inv : Inv gcm lead state) (side : Side) :
    Inv gcm lead { state with exited := Function.update state.exited side true } :=
  ⟨inv.lead_eq, inv.genuine, inv.accepted⟩

theorem Inv.send (inv : Inv gcm lead state) (side : Side) {frame : Frame}
    (genuine : Genuine gcm lead frame) :
    Inv gcm lead { state with
      sent := Function.update state.sent side (state.sent side ++ [frame]) } := by
  have kept : ∀ other, ∀ earlier ∈ state.sent other,
      earlier ∈ Function.update state.sent side (state.sent side ++ [frame]) other := by
    intro other earlier mem
    by_cases same : other = side
    · subst same
      rw [Function.update_self]
      exact List.mem_append_left _ mem
    · rw [Function.update_of_ne same]
      exact mem
  refine ⟨inv.lead_eq, ?_, ?_⟩
  · intro other earlier mem
    change earlier ∈ Function.update state.sent side (state.sent side ++ [frame]) other at mem
    by_cases same : other = side
    · subst same
      rw [Function.update_self] at mem
      rcases List.mem_append.mp mem with mem | mem
      · exact inv.genuine other earlier mem
      · rw [List.mem_singleton.mp mem]
        exact genuine
    · rw [Function.update_of_ne same] at mem
      exact inv.genuine other earlier mem
  · intro other earlier mem
    obtain ⟨from_side, found⟩ := inv.accepted other earlier mem
    exact ⟨from_side, kept from_side earlier found⟩

theorem Inv.accept (inv : Inv gcm lead state) (side : Side) {receiver : Receiver}
    (lead_eq : receiver.knob.lead = lead) {frame : Frame}
    (found : ∃ other, frame ∈ state.sent other) :
    Inv gcm lead { state with
      own := Function.update state.own side receiver
      accepted := Function.update state.accepted side (state.accepted side ++ [frame]) } := by
  refine ⟨?_, inv.genuine, ?_⟩
  · intro other holder knob at_knob
    cases holder with
    | own =>
        have knob_eq : (Function.update state.own side receiver other).knob = knob :=
          Option.some.inj at_knob
        by_cases same : other = side
        · subst same
          rw [Function.update_self] at knob_eq
          rw [← knob_eq]
          exact lead_eq
        · rw [Function.update_of_ne same] at knob_eq
          exact inv.lead_eq other .own knob (congrArg some knob_eq)
    | metaCopy => exact inv.lead_eq other .metaCopy knob at_knob
  · intro other earlier mem
    change earlier ∈ Function.update state.accepted side (state.accepted side ++ [frame]) other
      at mem
    by_cases same : other = side
    · subst same
      rw [Function.update_self] at mem
      rcases List.mem_append.mp mem with mem | mem
      · exact inv.accepted other earlier mem
      · rw [List.mem_singleton.mp mem]
        exact found
    · rw [Function.update_of_ne same] at mem
      exact inv.accepted other earlier mem

theorem Inv.next (inv : Inv gcm lead state) {label : Label} (ideal : Ideal gcm zstd state label)
    (taken : Replay.next gcm zstd state label = some after) : Inv gcm lead after := by
  cases label with
  | send side holder subheader head body =>
      simp only [Replay.next] at taken
      split at taken
      · cases taken
      · rw [Option.bind_eq_some_iff] at taken
        obtain ⟨knob, found, called_next⟩ := taken
        split at called_next
        · obtain rfl := Option.some.inj called_next
          exact inv.exit side
        · rename_i counted bytes called
          obtain rfl := Option.some.inj called_next
          have lead_eq : counted.lead = lead :=
            (sendCalls_lead called).trans (inv.lead_eq side holder knob found)
          have sent := (inv.setKnob side holder lead_eq).send side
            (genuine_sentFrame lead_eq head (body.getD []))
          cases holder <;> exact sent
  | copy side =>
      simp only [Replay.next] at taken
      split at taken
      · cases taken
      · obtain rfl := Option.some.inj taken
        exact inv.setKnob side .metaCopy (inv.lead_eq side .own _ rfl)
  | deliver side pieces =>
      simp only [Replay.next] at taken
      split at taken
      · cases taken
      · simp only [Ideal] at ideal
        split at taken <;> obtain rfl := Option.some.inj taken
        · exact inv.exit side
        · exact inv
        · rename_i received
          rw [received] at ideal
          obtain ⟨frame, mem, aad_eq, ciphertext_eq⟩ := ideal
          obtain ⟨lead_eq, genuine⟩ :=
            recvFrame_genuine (inv.lead_eq side .own _ rfl) received
          obtain ⟨other, found⟩ : ∃ other, frame ∈ state.sent other := by
            rcases List.mem_append.mp mem with mem | mem
            · exact ⟨.sender, mem⟩
            · exact ⟨.receiver, mem⟩
          have frame_eq := (inv.genuine other frame found).ext genuine aad_eq ciphertext_eq
          rw [frame_eq] at found
          refine Inv.accept inv side ?_ ⟨other, found⟩
          exact lead_eq

theorem Inv.init (gcm : Gcm) (salt : BitVec 32) (dtn : DtnArgs) :
    Inv gcm salt.toNat (State.init salt dtn) where
  lead_eq side holder knob found := by
    cases holder with
    | own =>
        cases side with
        | sender =>
            obtain rfl : networkInitTx salt = knob := Option.some.inj found
            exact NetworkObj.ofSalt_lead true salt
        | receiver =>
            obtain rfl : networkInitRx salt dtn = knob := Option.some.inj found
            exact (NetworkObj.setIvOne_lead _).trans (NetworkObj.ofSalt_lead true salt)
    | metaCopy => cases found
  genuine _ _ mem := by cases mem
  accepted _ _ mem := by cases mem

/-- Every frame that an end accepts is a frame that one of the ends has sent. -/
theorem sent_of_accepted (reached : (machine gcm zstd).ReachedUnder (Ideal gcm zstd) state)
    (side : Side) : ∀ frame ∈ state.accepted side, ∃ other, frame ∈ state.sent other := by
  have found : ∃ lead, Inv gcm lead state := by
    refine reached.invariant (fun state => ∃ lead, Inv gcm lead state) ?_ ?_
    · rintro _ ⟨salt, dtn, rfl⟩
      exact ⟨_, .init gcm salt dtn⟩
    · rintro _ _ _ ⟨lead, inv⟩ ideal taken
      exact ⟨lead, inv.next ideal taken⟩
  obtain ⟨lead, inv⟩ := found
  exact inv.accepted side

/-! ## A frame delivered twice, and a frame sent back -/

/-- The sender sends one block, and the adversary delivers its frame twice. -/
def replayLabels : List Label :=
  [.send .sender .own fihdrShort (infoBytes ⟨1, 0, [97, 98, 99]⟩ 3) (some [97, 98, 99]),
    .deliver .receiver [abcBytes], .deliver .receiver [abcBytes]]

/-- The receiver has accepted the frame twice, although the sender has sent it once. -/
theorem replayed : ∃ state, ((machine firstFrameGcm rawZstd).restrict
    (Ideal firstFrameGcm rawZstd)).run (State.init 0x5eed ⟨true, 262144⟩) replayLabels =
      some state ∧
    (state.accepted .receiver).length = 2 ∧ (state.sent .sender).length = 1 :=
  ⟨_, rfl, by decide +kernel, by decide +kernel⟩

theorem sent_of_replayed : ∃ state, ((machine firstFrameGcm rawZstd).restrict
    (Ideal firstFrameGcm rawZstd)).run (State.init 0x5eed ⟨true, 262144⟩) replayLabels =
      some state ∧
    ∀ frame ∈ state.accepted .receiver, ∃ other, frame ∈ state.sent other := by
  obtain ⟨state, run, -, -⟩ := replayed
  exact ⟨state, run, sent_of_accepted (.of_restrict
    (Machine.reached_of_run ⟨0x5eed, ⟨true, 262144⟩, rfl⟩ replayLabels run)) .receiver⟩

/-- What is accepted need not be a prefix of what the other end has sent. -/
theorem not_prefix_of_reached : ¬∀ (gcm : Gcm) (zstd : Zstd) (state : State),
    (machine gcm zstd).ReachedUnder (Ideal gcm zstd) state →
      state.accepted .receiver <+: state.sent .sender := by
  intro begins
  obtain ⟨state, run, accepted_twice, sent_once⟩ := replayed
  have shorter := (begins firstFrameGcm rawZstd state (.of_restrict
    (Machine.reached_of_run ⟨0x5eed, ⟨true, 262144⟩, rfl⟩ replayLabels run))).length_le
  omega

/-- The sender sends metadata without a payload, and the adversary delivers it to the sender. -/
def reflectLabels : List Label :=
  [.send .sender .own fihdrMeta (List.replicate 16 0) none,
    .deliver .sender [[1, 0, 0, 0, 0, 0, 0, 0] ++
      [109, 68, 69, 47, 234, 125, 86, 223, 143, 204, 21, 232, 226, 251, 163, 184] ++
      List.replicate 16 0]]

/-- The sender has accepted a frame that the receiver has not sent. -/
theorem reflected : ∃ state, ((machine firstFrameGcm rawZstd).restrict
    (Ideal firstFrameGcm rawZstd)).run (State.init 0x5eed ⟨true, 262144⟩) reflectLabels =
      some state ∧
    (state.accepted .sender).length = 1 ∧ state.sent .receiver = [] :=
  ⟨_, rfl, by decide +kernel, by decide +kernel⟩

end Replay
end EScp
