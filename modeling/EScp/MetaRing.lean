import EScp.LapRing
import EScp.Layout
import EScp.NetworkObj
import EScp.Transition

/-!
# The metadata ring

`network_recv` places the metadata frames of its connection in `metabuf`, a ring of 65536 slots of
64 bytes, and publishes them through `metahead`.  `meta_recv` returns a pointer to the oldest one,
and `meta_complete` frees it through `metatail`.  Each atomic operation, each copy into the ring
and each in-place decryption is one step.

The counters are unbounded: 2^64 slots are out of reach of a session.
-/

namespace EScp
namespace MetaRing

open Layout

/-- `METABUF_SZ`. -/
def metabufSz : Nat := 4 * 1024 * 1024

/-- `METABUF_SZ/64`. -/
def metaSlots : Nat := metabufSz / 64

/-- The wrap marker `~0`. -/
def wrapMarker : Nat := 2 ^ 32 - 1

/-- `ntohl` of a word loaded on a little-endian machine. -/
def ntohl (word : Nat) : Nat :=
  word % 256 * 2 ^ 24 + word / 2 ^ 8 % 256 * 2 ^ 16 + word / 2 ^ 16 % 256 * 2 ^ 8 +
    word / 2 ^ 24 % 256

/-- The number of slots of a message with `sz` payload bytes. -/
def increment (sz : Nat) : Nat := (sz + 16 + 63) / 64

/-- The first word of a header. -/
def firstWord (hdr : List UInt8) : Nat := load (fun index => hdr.getD index 0) 0 4

/-- A metadata frame after decryption, within the limit of `meta_send`. -/
structure Frame where
  hdr : List UInt8
  payload : List UInt8
  hdr_length : hdr.length = 16
  sz_eq : ntohl (firstWord hdr) = payload.length
  short : payload.length ≤ 1024 * 1024

/-- What the higher layer gets: header and payload. -/
abbrev Message := List UInt8 × List UInt8

/-- The message of a frame. -/
def Frame.message (frame : Frame) : Message := (frame.hdr, frame.payload)

/-- The messages of published frames. -/
def messages (records : List (LapRing.Record Frame)) : List Message :=
  records.map fun record => record.frame.message

/-- The size that the header announces. -/
def Frame.sz (frame : Frame) : Nat := ntohl (firstWord frame.hdr)

/-- The slots of a frame. -/
def Frame.increment (frame : Frame) : Nat := MetaRing.increment frame.sz

/-- A frame on the wire. -/
structure Incoming where
  frame : Frame
  /-- The payload before decryption. -/
  cipher : List UInt8
  cipher_length : cipher.length = frame.payload.length
  /-- The authentication tag is the computed one. -/
  authentic : Bool

/-- Where a connection stands in the metadata branch of `network_recv`. -/
inductive Phase where
  /-- Outside the branch. -/
  | idle
  /-- About to publish a new buffer, in `meta_init`. -/
  | metaInit (frame : Incoming)
  /-- About to clear the buffer, in `meta_init`. -/
  | metaZero (frame : Incoming)
  | loadHead (frame : Incoming)
  | loadTail (frame : Incoming) (head : Nat)
  | loadBuf (frame : Incoming) (head tail : Nat)
  /-- About to check the size and to leave a marker where the frame would cross the end. -/
  | wrap (frame : Incoming) (head tail : Nat) (buf : Option Nat)
  /-- About to test for room, and to load the tail again when there is none. -/
  | wait (frame : Incoming) (head tail buf : Nat)
  | copyHdr (frame : Incoming) (head buf : Nat)
  | readPayload (frame : Incoming) (head buf : Nat)
  | decrypt (frame : Incoming) (head buf : Nat)
  | checkTag (frame : Incoming) (head buf : Nat)
  | publish (frame : Incoming) (head buf : Nat)

/-- Where the consumer stands. -/
inductive Consumer where
  /-- Outside, or about to load `metahead` in `meta_recv`. -/
  | idle
  | loadTail (head : Nat)
  /-- About to load the first word of the slot of `tail`. -/
  | loadWord (tail : Nat)
  /-- About to store `metatail` after a marker. -/
  | storeTail (tail : Nat)
  /-- About to return the address of slot `t`. -/
  | point (t : Nat)
  /-- Outside, with the pointer that `meta_recv` returned; about to read the message. -/
  | holding (buf offset : Nat)
  /-- About to load tail and size in `meta_complete`. -/
  | complete
  /-- About to store `metatail` in `meta_complete`. -/
  | storeComplete (tail : Nat)

/-- The ring, the connections that fill it, its consumer and its history. -/
structure State (Connection : Type*) where
  metahead : Nat
  metatail : Nat
  /-- The buffer that `metabuf` points to. -/
  metabuf : Option Nat
  /-- The number of buffers allocated so far. -/
  allocated : Nat
  buffers : Nat → Memory
  /-- `knob->block` of each connection. -/
  block : Connection → UInt32
  phases : Connection → Phase
  consumer : Consumer
  exited : Bool
  /-- The frames whose tag was right, in the order of the checks. -/
  authenticated : List Frame
  /-- The frames published, in the order of the stores of `metahead`, each with whether a marker
  was left before it. -/
  published : List (LapRing.Record Frame)
  /-- The messages the consumer has read. -/
  received : List Message

/-- One step. -/
inductive Label (Connection : Type*) where
  /-- A connection enters the metadata branch with a frame. -/
  | recv (connection : Connection) (frame : Incoming)
  /-- A connection goes on inside the branch. -/
  | produce (connection : Connection)
  /-- The consumer goes on. -/
  | consume

variable {Connection : Type*} [DecidableEq Connection]

/-- The first index of the next lap, `head + (METABUF_SZ/64) - h`. -/
def nextLap (head : Nat) : Nat := head + (metaSlots - head % metaSlots)

/-- The frame would reach the end of the buffer. -/
def crosses (head : Nat) (frame : Frame) : Bool :=
  metabufSz ≤ (head % metaSlots + frame.increment) * 64

/-- The condition of the wait loop. -/
def blocked (head tail : Nat) (frame : Frame) : Bool :=
  let h := head % metaSlots
  let t := tail % metaSlots
  tail + metaSlots ≤ head ∨ (h < t ∧ t ≤ h + frame.increment)

/-- What the next step of a connection stores, and in which buffer. -/
def State.stores (state : State Connection) (connection : Connection) : Option (Nat × Write) :=
  match state.phases connection with
  | .metaZero _ => state.metabuf.map fun buf => (buf, ⟨0, metabufSz, fun _ => 0⟩)
  | .wrap frame head _ (some buf) =>
      if frame.frame.sz < metabufSz / 2 ∧ crosses head frame.frame then
        some (buf, Write.ofBytes (head % metaSlots * 64) (List.replicate 4 0xff))
      else
        none
  | .copyHdr frame head buf =>
      some (buf, Write.ofBytes (head % metaSlots * 64) frame.frame.hdr)
  | .readPayload frame head buf =>
      some (buf, Write.ofBytes (head % metaSlots * 64 + 16) frame.cipher)
  | .decrypt frame head buf =>
      some (buf, Write.ofBytes (head % metaSlots * 64 + 16) frame.frame.payload)
  | _ => none

/-- The state after a store. -/
def State.commit (state : State Connection) : Option (Nat × Write) → State Connection
  | none => state
  | some (buf, write) =>
      { state with
        buffers := Function.update state.buffers buf (write.apply (state.buffers buf)) }

def State.setPhase (state : State Connection) (connection : Connection) (phase : Phase) :
    State Connection :=
  { state with phases := Function.update state.phases connection phase }

/-- The store of `metahead` that publishes a frame. -/
def State.storeHead (state : State Connection) (record : LapRing.Record Frame) (head : Nat) :
    State Connection :=
  { state with
    metahead := head
    published := state.published ++ [record] }

@[simp] theorem State.setPhase_exited (state : State Connection) (connection : Connection)
    (phase : Phase) : (state.setPhase connection phase).exited = state.exited := rfl

@[simp] theorem State.setPhase_published (state : State Connection) (connection : Connection)
    (phase : Phase) : (state.setPhase connection phase).published = state.published := rfl

omit [DecidableEq Connection] in
@[simp] theorem State.storeHead_exited (state : State Connection)
    (record : LapRing.Record Frame) (head : Nat) :
    (state.storeHead record head).exited = state.exited := rfl

omit [DecidableEq Connection] in
@[simp] theorem State.storeHead_published (state : State Connection)
    (record : LapRing.Record Frame) (head : Nat) :
    (state.storeHead record head).published = state.published ++ [record] := rfl

/-- `VRFY` fails, or a null pointer is followed. -/
def State.exit (state : State Connection) : State Connection := { state with exited := true }

/-- The next step of a connection in the metadata branch, less its store. -/
def State.advance (state : State Connection) (connection : Connection) :
    Option (State Connection) :=
  match state.phases connection with
  | .idle => none
  | .metaInit frame =>
      some { state.setPhase connection (.metaZero frame) with
        metabuf := some state.allocated
        allocated := state.allocated + 1 }
  | .metaZero frame =>
      if state.metabuf.isNone then
        some state.exit
      else
        some { state.setPhase connection (.loadHead frame) with
          block := Function.update state.block connection Network.metaBlock }
  | .loadHead frame => some (state.setPhase connection (.loadTail frame state.metahead))
  | .loadTail frame head =>
      some (state.setPhase connection (.loadBuf frame head state.metatail))
  | .loadBuf frame head tail =>
      some (state.setPhase connection (.wrap frame head tail state.metabuf))
  | .wrap _ _ _ none => some state.exit
  | .wrap frame head tail (some buf) =>
      if ¬frame.frame.sz < metabufSz / 2 then
        some state.exit
      else if crosses head frame.frame then
        some (state.setPhase connection (.wait frame (nextLap head) tail buf))
      else
        some (state.setPhase connection (.wait frame head tail buf))
  | .wait frame head tail buf =>
      if blocked head tail frame.frame then
        some (state.setPhase connection (.wait frame head state.metatail buf))
      else
        some (state.setPhase connection (.copyHdr frame head buf))
  | .copyHdr frame head buf => some (state.setPhase connection (.readPayload frame head buf))
  | .readPayload frame head buf => some (state.setPhase connection (.decrypt frame head buf))
  | .decrypt frame head buf => some (state.setPhase connection (.checkTag frame head buf))
  | .checkTag frame head buf =>
      if frame.authentic then
        some { state.setPhase connection (.publish frame head buf) with
          authenticated := state.authenticated ++ [frame.frame] }
      else
        some state.exit
  | .publish frame head _ =>
      some ((state.setPhase connection .idle).storeHead
        ⟨decide (head ≠ state.metahead), frame.frame⟩ (head + frame.frame.increment))

/-- The memory that `metabuf` points to. -/
def State.memory (state : State Connection) : Memory :=
  match state.metabuf with
  | some buf => state.buffers buf
  | none => fun _ => 0

/-- `meta_recv`, the read of the message it returns, and `meta_complete`, one step. -/
def State.consume (state : State Connection) : State Connection :=
  match state.consumer with
  | .idle => { state with consumer := .loadTail state.metahead }
  | .loadTail head =>
      if head ≤ state.metatail then
        { state with consumer := .idle }
      else
        { state with consumer := .loadWord state.metatail }
  | .loadWord tail =>
      if state.metabuf.isNone then
        state.exit
      else if load state.memory (tail % metaSlots * 64) 4 = wrapMarker then
        { state with consumer := .storeTail (nextLap tail) }
      else
        { state with consumer := .point (tail % metaSlots) }
  | .storeTail tail => { state with metatail := tail, consumer := .point 0 }
  | .point t =>
      match state.metabuf with
      | some buf => { state with consumer := .holding buf (t * 64) }
      | none => state.exit
  | .holding buf offset =>
      let hdr := bytesAt (state.buffers buf) offset 16
      let payload := bytesAt (state.buffers buf) (offset + 16) (ntohl (firstWord hdr))
      { state with consumer := .complete, received := state.received ++ [(hdr, payload)] }
  | .complete =>
      if state.metabuf.isNone then
        state.exit
      else
        let sz := ntohl (load state.memory (state.metatail % metaSlots * 64) 4)
        { state with
          consumer := .storeComplete (state.metatail + (sz + 63 + 16) % 2 ^ 32 / 64) }
  | .storeComplete tail => { state with metatail := tail, consumer := .idle }

/-- One step; nothing happens after an exit. -/
def next (state : State Connection) (label : Label Connection) : Option (State Connection) :=
  if state.exited then
    none
  else
    match label with
    | .recv connection frame =>
        match state.phases connection with
        | .idle =>
            some (state.setPhase connection
              (if state.block connection = Network.metaBlock then .loadHead frame
                else .metaInit frame))
        | _ => none
    | .produce connection =>
        (state.advance connection).map fun after => after.commit (state.stores connection)
    | .consume => some state.consume

/-- The state before the first frame, with any block sizes and any memory. -/
def State.init (block : Connection → UInt32) (buffers : Nat → Memory) : State Connection where
  metahead := 0
  metatail := 0
  metabuf := none
  allocated := 0
  buffers := buffers
  block := block
  phases _ := .idle
  consumer := .idle
  exited := false
  authenticated := []
  published := []
  received := []

/-- The metadata ring, filled by any number of connections. -/
def machine (Connection : Type*) [DecidableEq Connection] :
    Machine (State Connection) (Label Connection) where
  initial state := ∃ block buffers, state = State.init block buffers
  next := next

end MetaRing
end EScp
