import EScp.NetworkObj
import EScp.Tally
import EScp.Transition

/-!
# Frames of the metadata connection

Any number of threads call `meta_send`.  The lock `meta_lock` is a counter that a thread raises to
enter; a thread that finds it raised lowers it again and tries once more, so the threads that back
off are counted as well as the one that holds the lock.  The send buffer and the copy of the network
object are shared by all calls, and `network_send` keeps a flag for each thread.

The socket is followed symbol by symbol, with the plaintext in place of what is encrypted.
-/

namespace EScp
namespace MetaSend

open Network

/-! ## The socket -/

/-- A byte on the socket. -/
inductive Symbol where
  /-- A byte of the IV header of a frame. -/
  | iv (counter : BitVec 64) (index : Nat)
  /-- An encrypted byte, before its encryption. -/
  | text (byte : UInt8)
  | tag (index : Nat)
  deriving DecidableEq

def ivSymbols (counter : BitVec 64) : List Symbol := (List.range 8).map (.iv counter)

def textSymbols (text : List UInt8) : List Symbol := text.map .text

def tagSymbols : List Symbol := (List.range 16).map .tag

/-- The socket, whose connection stays broken once a write has failed. -/
structure Socket where
  written : List Symbol
  broken : Bool

/-- `write_fixed` on a connection that takes `room` more bytes before it breaks: the socket, the
value returned and the room that is left. -/
def Socket.write (socket : Socket) (room : Nat) (data : List Symbol) : Socket × Int × Nat :=
  if data.length ≤ room then
    ({ socket with written := socket.written ++ data }, data.length, room - data.length)
  else
    (⟨socket.written ++ data.take room, true⟩, -1, 0)

/-- The writes of one `network_send` with an encrypting object, and how the call ends. -/
def transmit (socket : Socket) (room : Nat) (knob : NetworkObj) (didHeader : Bool)
    (args : SendArgs) (text : List UInt8) : Socket × Sent :=
  let counted := knob.count args.subheader
  if didHeader = false ∧ counted.ivIncr.getLsbD 61 = true then
    (socket, .exit)
  else
    let room := if socket.broken then 0 else room
    let (socket, header, room) :=
      if didHeader then (socket, 0, room) else socket.write room (ivSymbols counted.ivIncr)
    let (socket, payload, room) := socket.write room (textSymbols text)
    let (socket, tag, _) :=
      if args.isPartial = true ∨ BitVec.ofInt 64 payload < 1 then
        (socket, 0, room)
      else
        socket.write room tagSymbols
    (socket, networkSend knob didHeader args ⟨header, payload, tag⟩)

/-- A stream has been put on a socket, as far as the connection has taken it. -/
structure Delivered (socket : Socket) (stream : List Symbol) : Prop where
  started : socket.written <+: stream
  whole : socket.broken = false → socket.written = stream

/-- A broken connection takes nothing more. -/
structure Delivers (socket : Socket) (room : Nat) (stream : List Symbol) : Prop
    extends Delivered socket stream where
  spent : socket.broken = true → room = 0

variable {socket : Socket} {room : Nat} {stream : List Symbol}

theorem Delivers.write (delivers : Delivers socket room stream) (data : List Symbol) :
    Delivers (socket.write room data).1 (socket.write room data).2.2 (stream ++ data) := by
  rw [Socket.write]
  by_cases broken : socket.broken = true
  · have room_eq := delivers.spent broken
    split
    · obtain rfl : data = [] := List.length_eq_zero_iff.mp (by omega)
      simp only [List.append_nil, List.length_nil, Nat.sub_zero]
      exact delivers
    · rw [room_eq, List.take_zero, List.append_nil]
      exact ⟨⟨delivers.started.trans (List.prefix_append _ _), by simp⟩, fun _ => rfl⟩
  · rw [delivers.whole (Bool.eq_false_iff.mpr broken)]
    split
    · exact ⟨⟨List.prefix_rfl, fun _ => rfl⟩, fun now => (broken now).elim⟩
    · refine ⟨⟨?_, by simp⟩, fun _ => rfl⟩
      exact (List.prefix_append_right_inj _).mpr (List.take_prefix _ _)

theorem write_value (socket : Socket) (room : Nat) (data : List Symbol) :
    (socket.write room data).2.1 = data.length ∨ (socket.write room data).2.1 = -1 := by
  rw [Socket.write]
  split
  · exact Or.inl rfl
  · exact Or.inr rfl

theorem write_nil (socket : Socket) (room : Nat) : socket.write room [] = (socket, 0, room) := by
  simp [Socket.write]

/-- The length of what `meta_send` writes is no multiple of 2^64 other than zero. -/
theorem ofInt_lt_one_iff {text : List UInt8} (bound : text.length ≤ 1024 * 1024) (socket : Socket)
    (room : Nat) :
    BitVec.ofInt 64 (socket.write room (textSymbols text)).2.1 < 1 ↔ text = [] := by
  have length_eq : (textSymbols text).length = text.length := List.length_map ..
  constructor
  · intro less
    rcases write_value socket room (textSymbols text) with value | value
    · rw [value, length_eq, BitVec.ofInt_natCast, BitVec.lt_def, BitVec.toNat_ofNat] at less
      change _ < 1 at less
      exact List.length_eq_zero_iff.mp (by omega)
    · rw [value] at less
      exact absurd less (by decide)
  · rintro rfl
    rw [textSymbols, List.map_nil, write_nil]
    change (0 : BitVec 64) < 1
    decide

/-- A call that returns something positive leaves the flag raised exactly in the middle of a
frame. -/
theorem sendPayload_raised {args : SendArgs} {writes : Writes} {sent : BitVec 64}
    (positive : 0 < (sendPayload args writes sent).1.toInt) :
    (sendPayload args writes sent).2 = args.isPartial := by
  have zero_of_lt : ∀ value : BitVec 64, value < 1 → ¬0 < value.toInt := by
    intro value less greater
    have value_zero : value = 0 := BitVec.eq_of_toNat_eq (Nat.lt_one_iff.mp less)
    rw [value_zero] at greater
    exact absurd greater (by decide)
  rw [sendPayload] at positive ⊢
  dsimp only at positive ⊢
  split at positive
  · rename_i less
    exact absurd positive (zero_of_lt _ less)
  · rename_i some_payload
    rw [if_neg some_payload]
    cases at_part : args.isPartial with
    | true => rfl
    | false =>
        simp only [at_part, Bool.false_eq_true, if_false] at positive ⊢
        split at positive
        · rename_i less
          exact absurd positive (zero_of_lt _ less)
        · rename_i some_tag
          rw [if_neg some_tag]

/-- What a call puts before its text. -/
def opening (knob : NetworkObj) (didHeader : Bool) (args : SendArgs) : List Symbol :=
  if didHeader then [] else ivSymbols (knob.count args.subheader).ivIncr

/-- What a call puts behind its text. -/
def closing (args : SendArgs) : List Symbol := if args.isPartial then [] else tagSymbols

variable (room) (knob : NetworkObj) (didHeader : Bool) (args : SendArgs) (text : List UInt8)

/-- A call that passes `VRFY` puts header, text and tag behind what has been delivered. -/
theorem transmit_delivered (delivered : Delivered socket stream)
    (within : didHeader = false → (knob.count args.subheader).ivIncr.getLsbD 61 = false)
    (bound : text.length ≤ 1024 * 1024) (some_text : text ≠ []) :
    Delivered (transmit socket room knob didHeader args text).1
      (stream ++ opening knob didHeader args ++ textSymbols text ++ closing args) := by
  have passes : ¬(didHeader = false ∧ (knob.count args.subheader).ivIncr.getLsbD 61 = true) := by
    rintro ⟨lowered, exceeded⟩
    rw [within lowered] at exceeded
    cases exceeded
  have first : Delivers socket (if socket.broken then 0 else room) stream :=
    ⟨delivered, fun broken => if_pos broken⟩
  rw [transmit]
  dsimp only
  rw [if_neg passes]
  generalize (if socket.broken then 0 else room) = room at first
  have second : Delivers
      (if didHeader then (socket, (0 : Int), room)
        else socket.write room (ivSymbols (knob.count args.subheader).ivIncr)).1
      (if didHeader then (socket, (0 : Int), room)
        else socket.write room (ivSymbols (knob.count args.subheader).ivIncr)).2.2
      (stream ++ opening knob didHeader args) := by
    cases didHeader with
    | true => simpa [opening] using first
    | false => simpa [opening] using first.write _
  generalize (if didHeader then (socket, (0 : Int), room)
    else socket.write room (ivSymbols (knob.count args.subheader).ivIncr)) = headed at second
  have third := second.write (textSymbols text)
  have no_error : ¬BitVec.ofInt 64 (headed.1.write headed.2.2 (textSymbols text)).2.1 < 1 :=
    fun less => some_text ((ofInt_lt_one_iff bound _ _).mp less)
  rw [closing]
  by_cases sent_part : args.isPartial = true
  · rw [if_pos (Or.inl sent_part), if_pos sent_part, List.append_nil]
    exact third.toDelivered
  · rw [if_neg (not_or.mpr ⟨sent_part, no_error⟩), if_neg sent_part]
    exact (third.write tagSymbols).toDelivered

/-- A call that passes `VRFY` returns; the value is positive only if there was something to send,
and then the flag is raised exactly in the middle of a frame. -/
theorem transmit_sent (crypto : knob.doCrypto = true)
    (within : didHeader = false → (knob.count args.subheader).ivIncr.getLsbD 61 = false)
    (bound : text.length ≤ 1024 * 1024) (socket : Socket) :
    ∃ raised value, (transmit socket room knob didHeader args text).2 =
        .done (if didHeader then knob else knob.count args.subheader) raised value
          (if didHeader then none else some (knob.count args.subheader).nonce) ∧
      (0 < value.toInt → raised = args.isPartial ∧ text ≠ []) := by
  have passes : ¬(didHeader = false ∧ (knob.count args.subheader).ivIncr.getLsbD 61 = true) := by
    rintro ⟨lowered, exceeded⟩
    rw [within lowered] at exceeded
    cases exceeded
  rw [transmit]
  dsimp only
  rw [if_neg passes]
  generalize (if socket.broken then 0 else room) = room
  have header_value : ¬BitVec.ofInt 64
      (if didHeader then (socket, (0 : Int), room)
        else socket.write room (ivSymbols (knob.count args.subheader).ivIncr)).2.1 < 8 ∨
      didHeader = true := by
    cases didHeader with
    | true => exact Or.inr rfl
    | false =>
        refine Or.inl ?_
        rcases write_value socket room (ivSymbols (knob.count args.subheader).ivIncr) with
          value | value
        · simp only [Bool.false_eq_true, if_false]
          rw [value, ivSymbols, List.length_map, List.length_range]
          decide
        · simp only [Bool.false_eq_true, if_false]
          rw [value]
          decide
  generalize (if didHeader then (socket, (0 : Int), room)
    else socket.write room (ivSymbols (knob.count args.subheader).ivIncr)) = headed at header_value
  have payload_value := ofInt_lt_one_iff bound headed.1 headed.2.2
  generalize headed.1.write headed.2.2 (textSymbols text) = sent at payload_value
  generalize (if args.isPartial = true ∨ BitVec.ofInt 64 sent.2.1 < 1 then
    (sent.1, (0 : Int), sent.2.2) else sent.1.write sent.2.2 tagSymbols) = tagged
  have some_text : ∀ start,
      0 < (sendPayload args ⟨headed.2.1, sent.2.1, tagged.2.1⟩ start).1.toInt → text ≠ [] := by
    intro start positive empty
    have less := payload_value.mpr empty
    rw [sendPayload, if_pos less] at positive
    rw [BitVec.eq_of_toNat_eq (y := 0) (Nat.lt_one_iff.mp less)] at positive
    exact absurd positive (by decide)
  rw [networkSend]
  rw [if_pos crypto]
  cases didHeader with
  | true =>
      exact ⟨_, _, rfl, fun positive => ⟨sendPayload_raised positive, some_text _ positive⟩⟩
  | false =>
      have long : ¬BitVec.ofInt 64 headed.2.1 < 8 := by simpa using header_value
      simp only [Bool.false_eq_true, if_false, within rfl, if_neg long]
      exact ⟨_, _, rfl, fun positive => ⟨sendPayload_raised positive, some_text _ positive⟩⟩

/-- A call in the middle of a frame that has nothing to send leaves the socket alone. -/
theorem transmit_nil (socket : Socket) :
    (transmit socket room knob true args []).1 = socket := by
  have less : BitVec.ofInt 64 0 < 1 := by decide
  simp [transmit, textSymbols, write_nil]

/-! ## The calls of `meta_send` -/

/-- The arguments of a call: the header and the payload, whose length is `len`. -/
structure Call where
  hdr : List UInt8
  buf : Option (List UInt8)

/-- The 16 bytes that `meta_send` sends as the header. -/
def Call.header (call : Call) : List UInt8 :=
  call.hdr.take 6 ++ List.replicate (16 - (call.hdr.take 6).length) 0

/-- A frame with the counter of its IV header. -/
structure Frame where
  counter : BitVec 64
  call : Call

/-- What stands on the socket for a frame up to its payload. -/
def Frame.head (frame : Frame) : List Symbol :=
  ivSymbols frame.counter ++ textSymbols frame.call.header

/-- A whole frame: one IV header, the header and the payload of the call, one tag. -/
def Frame.symbols (frame : Frame) : List Symbol :=
  frame.head ++ textSymbols (frame.call.buf.getD []) ++ tagSymbols

/-- Where a thread stands in `meta_send`. -/
inductive Pc where
  | idle
  /-- About to add one to `meta_lock`. -/
  | lock (call : Call)
  /-- Has found `meta_lock` raised and is about to subtract one. -/
  | backOff (call : Call)
  /-- Holds the lock and is about to fill `temp_buf`. -/
  | copy (call : Call)
  /-- Waits for `metaknob` unless the object has been copied before. -/
  | knob (call : Call)
  /-- About to send the header. -/
  | head (call : Call)
  /-- About to send `temp_buf`. -/
  | body (call : Call)
  /-- About to subtract one from `meta_lock`. -/
  | unlock

/-- The thread is between acquiring and releasing `meta_lock`. -/
def Pc.holds : Pc → Bool
  | .copy _ | .knob _ | .head _ | .body _ | .unlock => true
  | .idle | .lock _ | .backOff _ => false

/-- The thread is between the two halves of a frame. -/
def Pc.between : Pc → Bool
  | .body _ => true
  | _ => false

/-- What the thread has added to `meta_lock` and not subtracted. -/
def Pc.added : Pc → Nat
  | .backOff _ | .copy _ | .knob _ | .head _ | .body _ | .unlock => 1
  | .idle | .lock _ => 0

/-- One end of the metadata connection. -/
structure State (threadCount : Nat) where
  metaLock : Int
  pc : Fin threadCount → Pc
  tempBuf : List UInt8
  /-- The object of the connection. -/
  own : NetworkObj
  /-- `metaknob` points to the object of the connection. -/
  metaknob : Bool
  /-- The copy that all calls share. -/
  knob : Option NetworkObj
  /-- The thread-local flag of `network_send`. -/
  didHeader : Fin threadCount → Bool
  socket : Socket
  /-- The frames whose IV header has been given out, oldest first. -/
  frames : List Frame
  exited : Bool

/-- One step. -/
inductive Label (threadCount : Nat) where
  /-- `do_meta` calls `meta_init`. -/
  | doMeta
  /-- `network_recv` reads the header `aad`. -/
  | networkRecv (aad : BitVec 64)
  | call (thread : Fin threadCount) (call : Call)
  /-- A thread goes on in `meta_send`.  The connection takes `room` more bytes during a call of
  `network_send`, whose encryption leaves `left` in `temp_buf`. -/
  | step (thread : Fin threadCount) (room : Nat) (left : List UInt8)

variable {threadCount : Nat}

def State.move (state : State threadCount) (thread : Fin threadCount) (pc : Pc) :
    State threadCount :=
  { state with pc := Function.update state.pc thread pc }

/-- `VRFY` fails. -/
def State.exit (state : State threadCount) : State threadCount := { state with exited := true }

/-- A call of `network_send` has ended as `sent` says, and the thread goes on at `pc` if that is
a success. -/
def State.finish (state : State threadCount) (thread : Fin threadCount) (call : Call)
    (socket : Socket) (sent : Sent) (pc : Pc) : State threadCount :=
  match sent with
  | .exit => state.exit
  | .refused knob => { state with socket := socket, knob := some knob }.exit
  | .done knob raised value nonce =>
      let state := { state with
        socket := socket
        knob := some knob
        didHeader := Function.update state.didHeader thread raised
        frames :=
          if nonce.isSome then state.frames ++ [(⟨knob.ivIncr, call⟩ : Frame)] else state.frames }
      if 0 < value.toInt then state.move thread pc else state.exit

/-- A thread goes on in `meta_send`. -/
def State.stepThread (state : State threadCount) (thread : Fin threadCount) (room : Nat)
    (left : List UInt8) : Option (State threadCount) :=
  match state.pc thread with
  | .idle => none
  | .lock call =>
      some ({ state with metaLock := state.metaLock + 1 }.move thread
        (if state.metaLock = 0 then .copy call else .backOff call))
  | .backOff call =>
      some ({ state with metaLock := state.metaLock - 1 }.move thread (.lock call))
  | .copy call =>
      match call.buf with
      | none => some (state.move thread (.knob call))
      | some buf =>
          if buf.length ≤ 1024 * 1024 then
            some ({ state with tempBuf := buf ++ state.tempBuf.drop buf.length }.move thread
              (.knob call))
          else
            some state.exit
  | .knob call =>
      match state.knob with
      | some _ => some (state.move thread (.head call))
      | none =>
          if state.metaknob then
            some ({ state with knob := some state.own }.move thread (.head call))
          else
            some state
  | .head call =>
      match state.knob with
      | none => none
      | some knob =>
          let (socket, sent) := transmit state.socket room knob (state.didHeader thread)
            ⟨call.buf.isSome, fihdrMeta⟩ call.header
          some (state.finish thread call socket sent
            (if call.buf.isSome then .body call else .unlock))
  | .body call =>
      match state.knob, call.buf with
      | some knob, some buf =>
          let (socket, sent) := transmit state.socket room knob (state.didHeader thread)
            ⟨false, fihdrMeta⟩ (state.tempBuf.take buf.length)
          if left.length = buf.length then
            some ({ state with tempBuf := left ++ state.tempBuf.drop buf.length }.finish thread call
              socket sent .unlock)
          else
            none
      | _, _ => none
  | .unlock => some ({ state with metaLock := state.metaLock - 1 }.move thread .idle)

/-- One step of the process, as long as it runs. -/
def next (state : State threadCount) (label : Label threadCount) : Option (State threadCount) :=
  if state.exited then
    none
  else
    match label with
    | .doMeta => some { state with own := state.own.metaInit, metaknob := true }
    | .networkRecv aad =>
        -- The other end has sent `aad`, so it has passed `VRFY` there.
        if aad.getLsbD 61 then
          none
        else
          let (received, inited) := Network.networkRecv state.own aad
          some { state with own := received, metaknob := state.metaknob || inited }
    | .call thread call =>
        match state.pc thread with
        | .idle => some (state.move thread (.lock call))
        | _ => none
    | .step thread room left => state.stepThread thread room left

/-- No thread has called `meta_send`. -/
def State.init (threadCount : Nat) (own : NetworkObj) : State threadCount where
  metaLock := 0
  pc _ := .idle
  tempBuf := []
  own := own
  metaknob := false
  knob := none
  didHeader _ := false
  socket := ⟨[], false⟩
  frames := []
  exited := false

/-- One end of an encrypted metadata connection: the sender or the receiver. -/
def machine (threadCount : Nat) : Machine (State threadCount) (Label threadCount) where
  initial state := ∃ salt, state = State.init threadCount (networkInitTx salt) ∨
    ∃ dtn, state = State.init threadCount (networkInitRx salt dtn)
  next := next

/-- One thread at most holds the lock; the socket carries whole frames one after the other, the
last one in progress while its thread is between the two halves; each frame has a larger counter
than the one before. -/
structure Sound (state : State threadCount) : Prop where
  exclusive : ∀ left right, (state.pc left).holds = true → (state.pc right).holds = true →
    left = right
  started : state.socket.written <+: state.frames.flatMap Frame.symbols
  whole : state.exited = false → state.socket.broken = false →
    (∀ thread, (state.pc thread).between = false) →
    state.socket.written = state.frames.flatMap Frame.symbols
  between : state.exited = false → state.socket.broken = false →
    ∀ thread call, state.pc thread = .body call → ∃ earlier counter,
      state.frames = earlier ++ [⟨counter, call⟩] ∧
        state.socket.written = earlier.flatMap Frame.symbols ++ Frame.head ⟨counter, call⟩
  increasing : state.frames.Pairwise fun earlier later => earlier.counter < later.counter
  /-- What the other end may rely on. -/
  within : ∀ frame ∈ state.frames, frame.counter.getLsbD 61 = false

/-! ## Counters -/

/-- The copy of the object has a counter that no frame exceeds and that leaves the bit of `VRFY`
clear. -/
structure Counters (own : NetworkObj) (knob : Option NetworkObj) (frames : List Frame) : Prop where
  own_crypto : own.doCrypto = true
  own_below : own.ivIncr.getLsbD 61 = false
  crypto : ∀ copied, knob = some copied → copied.doCrypto = true
  below : ∀ copied, knob = some copied → copied.ivIncr.getLsbD 61 = false
  long : ∀ copied, knob = some copied → frames ≠ [] → copied.ivIncr.getLsbD 62 = false
  covered : ∀ copied, knob = some copied → ∀ frame ∈ frames, frame.counter ≤ copied.ivIncr
  fresh : knob = none → frames = []
  increasing : frames.Pairwise fun earlier later => earlier.counter < later.counter
  within : ∀ frame ∈ frames, frame.counter.getLsbD 61 = false

variable {own : NetworkObj} {frames : List Frame}

theorem Counters.init (doCrypto_eq : own.doCrypto = true) (below : own.ivIncr.getLsbD 61 = false) :
    Counters own none [] where
  own_crypto := doCrypto_eq
  own_below := below
  crypto _ found := by cases found
  below _ found := by cases found
  long _ found := by cases found
  covered _ found := by cases found
  fresh _ := rfl
  increasing := List.Pairwise.nil
  within _ mem := by cases mem

/-- The first call takes its copy of the object. -/
theorem Counters.copy (counters : Counters own none frames) : Counters own (some own) frames where
  own_crypto := counters.own_crypto
  own_below := counters.own_below
  crypto := by
    rintro _ ⟨⟩
    exact counters.own_crypto
  below := by
    rintro _ ⟨⟩
    exact counters.own_below
  long _ _ some_frame := (some_frame (counters.fresh rfl)).elim
  covered _ _ frame mem := by
    rw [counters.fresh rfl] at mem
    cases mem
  fresh none := by cases none
  increasing := counters.increasing
  within := counters.within

/-- A frame gets the next number, which is larger than those of all frames before. -/
theorem Counters.count {copied : NetworkObj} (counters : Counters own (some copied) frames)
    (within : (copied.count fihdrMeta).ivIncr.getLsbD 61 = false) (call : Call) :
    Counters own (some (copied.count fihdrMeta))
      (frames ++ [⟨(copied.count fihdrMeta).ivIncr, call⟩]) := by
  have below := counters.below copied rfl
  have larger : ∀ frame ∈ frames, frame.counter < (copied.count fihdrMeta).ivIncr := by
    intro frame mem
    have long := counters.long copied rfl (List.ne_nil_of_mem mem)
    exact Nat.lt_of_le_of_lt (counters.covered copied rfl frame mem)
      (NetworkObj.lt_count_meta copied below long)
  refine ⟨counters.own_crypto, counters.own_below, ?_, ?_, ?_, ?_, ?_, ?_, ?_⟩
  · rintro _ ⟨⟩
    exact counters.crypto copied rfl
  · rintro _ ⟨⟩
    exact within
  · rintro _ ⟨⟩ -
    exact NetworkObj.count_meta_getLsbD copied below
  · rintro _ ⟨⟩ frame mem
    rcases List.mem_append.mp mem with mem | mem
    · exact Nat.le_of_lt (larger frame mem)
    · rw [List.mem_singleton.mp mem]
      exact Nat.le_refl _
  · intro none
    cases none
  · refine List.pairwise_append.mpr ⟨counters.increasing, List.pairwise_singleton _ _, ?_⟩
    intro earlier mem later last
    rw [List.mem_singleton.mp last]
    exact larger earlier mem
  · intro frame mem
    rcases List.mem_append.mp mem with mem | mem
    · exact counters.within frame mem
    · rw [List.mem_singleton.mp mem]
      exact within

/-- The object of the connection goes on without the copy. -/
theorem Counters.setOwn {knob : Option NetworkObj} (counters : Counters own knob frames)
    {changed : NetworkObj} (doCrypto_eq : changed.doCrypto = true)
    (below : changed.ivIncr.getLsbD 61 = false) : Counters changed knob frames :=
  { counters with own_crypto := doCrypto_eq, own_below := below }

/-! ## The invariant -/

/-- `temp_buf` holds the payload of the call. -/
def Copied (state : State threadCount) (call : Call) : Prop :=
  ∀ buf, call.buf = some buf →
    buf.length ≤ 1024 * 1024 ∧ state.tempBuf.take buf.length = buf

/-- All frames stand on the socket. -/
def Settled (state : State threadCount) : Prop :=
  Delivered state.socket (state.frames.flatMap Frame.symbols)

/-- The last frame is the one of `call`, without its payload. -/
def Opened (state : State threadCount) (call : Call) : Prop :=
  ∃ earlier counter, state.frames = earlier ++ [⟨counter, call⟩] ∧
    Delivered state.socket (earlier.flatMap Frame.symbols ++ Frame.head ⟨counter, call⟩)

/-- What holds while a thread stands at a place. -/
def Placed (state : State threadCount) : Pc → Prop
  | .copy _ | .unlock => Settled state
  | .knob call | .head call => Copied state call ∧ Settled state
  | .body call => Copied state call ∧ Opened state call
  | .idle | .lock _ | .backOff _ => True

/-- The invariant of a running process. -/
structure Live (state : State threadCount) : Prop where
  lock_eq : state.metaLock = tally Pc.added state.pc
  exclusive : ∀ left right, (state.pc left).holds = true → (state.pc right).holds = true →
    left = right
  raised : ∀ thread, state.didHeader thread = (state.pc thread).between
  placed : ∀ thread, Placed state (state.pc thread)
  free : (∀ thread, (state.pc thread).holds = false) → Settled state
  counters : Counters state.own state.knob state.frames

variable {state after : State threadCount} {thread : Fin threadCount}

theorem placed_of_not_holds (state : State threadCount) {pc : Pc} (free : pc.holds = false) :
    Placed state pc := by
  cases pc with
  | idle | lock | backOff => trivial
  | copy | knob | head | body | unlock => cases free

theorem between_of_not_holds {pc : Pc} (free : pc.holds = false) : pc.between = false := by
  cases pc with
  | body => cases free
  | _ => rfl

theorem added_of_holds {pc : Pc} (holds : pc.holds = true) : pc.added = 1 := by
  cases pc with
  | idle | lock | backOff => cases holds
  | _ => rfl

theorem Live.others (live : Live state) (holds : (state.pc thread).holds = true)
    {other : Fin threadCount} (ne : other ≠ thread) : (state.pc other).holds = false :=
  Bool.eq_false_iff.mpr fun also => ne (live.exclusive other thread also holds)

theorem Frame.head_prefix (frame : Frame) : frame.head <+: frame.symbols :=
  ⟨_, (List.append_assoc ..).symm⟩

theorem flatMap_snoc (frames : List Frame) (frame : Frame) :
    (frames ++ [frame]).flatMap Frame.symbols = frames.flatMap Frame.symbols ++ frame.symbols := by
  simp

theorem Opened.started {call : Call} (opened : Opened state call) :
    state.socket.written <+: state.frames.flatMap Frame.symbols := by
  obtain ⟨earlier, counter, frames_eq, delivered⟩ := opened
  rw [frames_eq, flatMap_snoc]
  exact delivered.started.trans
    ((List.prefix_append_right_inj _).mpr (Frame.head_prefix _))

theorem Live.started (live : Live state) :
    state.socket.written <+: state.frames.flatMap Frame.symbols := by
  by_cases free : ∀ thread, (state.pc thread).holds = false
  · exact (live.free free).started
  · obtain ⟨thread, holds⟩ := not_forall.mp free
    have placed := live.placed thread
    cases at_pc : state.pc thread with
    | idle | lock | backOff => simp [at_pc, Pc.holds] at holds
    | copy | unlock =>
        rw [at_pc] at placed
        exact Delivered.started placed
    | knob | head =>
        rw [at_pc] at placed
        exact placed.2.started
    | body =>
        rw [at_pc] at placed
        exact placed.2.started

theorem Live.sound (live : Live state) : Sound state where
  exclusive := live.exclusive
  started := live.started
  whole _ unbroken none_between := by
    by_cases free : ∀ thread, (state.pc thread).holds = false
    · exact (live.free free).whole unbroken
    · obtain ⟨thread, holds⟩ := not_forall.mp free
      have placed := live.placed thread
      have not_between := none_between thread
      cases at_pc : state.pc thread with
      | idle | lock | backOff => simp [at_pc, Pc.holds] at holds
      | copy | unlock =>
          rw [at_pc] at placed
          exact Delivered.whole placed unbroken
      | knob | head =>
          rw [at_pc] at placed
          exact placed.2.whole unbroken
      | body => simp [at_pc, Pc.between] at not_between
  between _ unbroken thread call at_pc := by
    have placed := live.placed thread
    rw [at_pc] at placed
    obtain ⟨-, earlier, counter, frames_eq, delivered⟩ := placed
    exact ⟨earlier, counter, frames_eq, delivered.whole unbroken⟩
  increasing := live.counters.increasing
  within := live.counters.within

/-- What a process leaves behind when `VRFY` ends it. -/
theorem Sound.of_exited (exited : state.exited = true)
    (exclusive : ∀ left right, (state.pc left).holds = true → (state.pc right).holds = true →
      left = right)
    (started : state.socket.written <+: state.frames.flatMap Frame.symbols)
    {own : NetworkObj} {knob : Option NetworkObj} (counters : Counters own knob state.frames) :
    Sound state where
  exclusive := exclusive
  started := started
  whole running := by
    rw [exited] at running
    cases running
  between running := by
    rw [exited] at running
    cases running
  increasing := counters.increasing
  within := counters.within

/-! ## Steps -/

/-- The thread that holds the lock goes on. -/
theorem Live.hold (live : Live state) (holds : (state.pc thread).holds = true) (place : Pc)
    (pc_eq : after.pc = Function.update state.pc thread place)
    (lock_eq : after.metaLock + 1 = state.metaLock + place.added)
    (raised : after.didHeader = Function.update state.didHeader thread place.between)
    (placed : Placed after place) (free : place.holds = false → Settled after)
    (counters : Counters after.own after.knob after.frames) : Live after := by
  have others : ∀ other, other ≠ thread → (after.pc other).holds = false := by
    intro other ne
    rw [pc_eq, Function.update_of_ne ne]
    exact live.others holds ne
  refine ⟨?_, ?_, ?_, ?_, ?_, counters⟩
  · have moved := tally_update Pc.added state.pc thread place
    have before := live.lock_eq
    rw [added_of_holds holds, ← pc_eq] at moved
    omega
  · intro left right left_holds right_holds
    have is_thread : ∀ other, (after.pc other).holds = true → other = thread := by
      intro other other_holds
      by_contra ne
      rw [others other ne] at other_holds
      cases other_holds
    rw [is_thread left left_holds, is_thread right right_holds]
  · intro other
    rw [raised, pc_eq]
    by_cases same : other = thread
    · subst same
      rw [Function.update_self, Function.update_self]
    · rw [Function.update_of_ne same, Function.update_of_ne same]
      exact live.raised other
  · intro other
    by_cases same : other = thread
    · subst same
      rw [pc_eq, Function.update_self]
      exact placed
    · exact placed_of_not_holds after (others other same)
  · intro none_holds
    have place_free := none_holds thread
    rw [pc_eq, Function.update_self] at place_free
    exact free place_free

/-- A thread that does not hold the lock goes on and does not acquire it. -/
theorem Live.wait (live : Live state) (outside : (state.pc thread).holds = false) {place : Pc}
    (stays : place.holds = false) {metaLock : Int}
    (lock_eq : metaLock + (state.pc thread).added = state.metaLock + place.added) :
    Live ({ state with metaLock := metaLock }.move thread place) := by
  have holds_eq : ∀ other, (Function.update state.pc thread place other).holds =
      (state.pc other).holds := by
    intro other
    by_cases same : other = thread
    · rw [same, Function.update_self, stays, outside]
    · rw [Function.update_of_ne same]
  refine ⟨?_, ?_, ?_, ?_, ?_, live.counters⟩
  · have moved := tally_update Pc.added state.pc thread place
    have before := live.lock_eq
    change metaLock = ((tally Pc.added (Function.update state.pc thread place) : Nat) : Int)
    omega
  · intro left right left_holds right_holds
    exact live.exclusive left right ((holds_eq left).symm.trans left_holds)
      ((holds_eq right).symm.trans right_holds)
  · intro other
    refine (live.raised other).trans ?_
    change (state.pc other).between = (Function.update state.pc thread place other).between
    by_cases same : other = thread
    · rw [same, Function.update_self, between_of_not_holds stays, between_of_not_holds outside]
    · rw [Function.update_of_ne same]
  · intro other
    change Placed _ (Function.update state.pc thread place other)
    by_cases same : other = thread
    · rw [same, Function.update_self]
      exact placed_of_not_holds _ stays
    · rw [Function.update_of_ne same]
      have placed := live.placed other
      cases at_pc : state.pc other <;> rw [at_pc] at placed <;> exact placed
  · intro none_holds
    exact live.free fun other => (holds_eq other).symm.trans (none_holds other)

/-- A thread that finds `meta_lock` at zero finds no other thread in the section. -/
theorem Live.enter (live : Live state) (outside : (state.pc thread).holds = false)
    (unlocked : state.metaLock = 0) (call : Call) :
    Live ({ state with metaLock := state.metaLock + 1 }.move thread (.copy call)) := by
  have lock_eq := live.lock_eq
  have none_added : ∀ other, (state.pc other).added = 0 := by
    intro other
    have sum_zero : tally Pc.added state.pc = 0 := by omega
    exact Finset.sum_eq_zero_iff.mp sum_zero other (Finset.mem_univ other)
  have none_holds : ∀ other, (state.pc other).holds = false := by
    intro other
    refine Bool.eq_false_iff.mpr fun holds => ?_
    have added := added_of_holds holds
    rw [none_added other] at added
    cases added
  have others : ∀ other, other ≠ thread →
      (Function.update state.pc thread (.copy call) other).holds = false := by
    intro other ne
    rw [Function.update_of_ne ne]
    exact none_holds other
  refine ⟨?_, ?_, ?_, ?_, ?_, live.counters⟩
  · have moved := tally_update Pc.added state.pc thread (.copy call)
    rw [none_added thread] at moved
    change state.metaLock + 1 =
      ((tally Pc.added (Function.update state.pc thread (.copy call)) : Nat) : Int)
    rw [show (Pc.copy call).added = 1 by rfl] at moved
    omega
  · intro left right left_holds right_holds
    have is_thread : ∀ other,
        (Function.update state.pc thread (.copy call) other).holds = true → other = thread := by
      intro other other_holds
      by_contra ne
      rw [others other ne] at other_holds
      cases other_holds
    rw [is_thread left left_holds, is_thread right right_holds]
  · intro other
    refine (live.raised other).trans ?_
    change (state.pc other).between = (Function.update state.pc thread (.copy call) other).between
    by_cases same : other = thread
    · rw [same, Function.update_self, between_of_not_holds outside]
      rfl
    · rw [Function.update_of_ne same]
  · intro other
    change Placed _ (Function.update state.pc thread (.copy call) other)
    by_cases same : other = thread
    · rw [same, Function.update_self]
      exact live.free none_holds
    · exact placed_of_not_holds _ (others other same)
  · intro none_after
    have held := none_after thread
    change (Function.update state.pc thread (.copy call) thread).holds = false at held
    rw [Function.update_self] at held
    cases held

theorem header_length (call : Call) : call.header.length = 16 := by
  have bound : (call.hdr.take 6).length ≤ 6 := by
    rw [List.length_take]
    exact Nat.min_le_left _ _
  rw [Call.header, List.length_append, List.length_replicate]
  omega

/-- Where the process stands after a step: it runs, or `VRFY` has ended it. -/
def Kept (state : State threadCount) : Prop :=
  Sound state ∧ (state.exited = false → Live state)

theorem Live.kept (live : Live state) : Kept state := ⟨live.sound, fun _ => live⟩

theorem Live.exit (live : Live state) : Kept state.exit :=
  ⟨.of_exited rfl live.exclusive live.started live.counters, fun running => by
    cases running⟩

/-- The header goes out, for a call whose payload follows or for a whole frame. -/
theorem Live.sendHead (live : Live state) {call : Call} (at_pc : state.pc thread = .head call)
    {knob : NetworkObj} (found : state.knob = some knob) (room : Nat) :
    Kept (state.finish thread call
      (transmit state.socket room knob (state.didHeader thread) ⟨call.buf.isSome, fihdrMeta⟩
        call.header).1
      (transmit state.socket room knob (state.didHeader thread) ⟨call.buf.isSome, fihdrMeta⟩
        call.header).2
      (if call.buf.isSome then .body call else .unlock)) := by
  have holds : (state.pc thread).holds = true := by rw [at_pc]; rfl
  have lowered : state.didHeader thread = false := by rw [live.raised, at_pc]; rfl
  obtain ⟨copied, settled⟩ : Copied state call ∧ Settled state := by
    simpa only [at_pc, Placed] using live.placed thread
  have counters := live.counters
  rw [found] at counters
  rw [lowered]
  by_cases exceeded : (knob.count fihdrMeta).ivIncr.getLsbD 61 = true
  · rw [transmit, if_pos ⟨rfl, exceeded⟩]
    exact live.exit
  · have within := Bool.eq_false_iff.mpr exceeded
    have length_eq := header_length call
    have some_text : call.header ≠ [] := by
      rw [← List.length_pos_iff_ne_nil]
      omega
    have counted := counters.count within call
    obtain ⟨raised, value, sent, positive_iff⟩ := transmit_sent room knob false
      ⟨call.buf.isSome, fihdrMeta⟩ call.header (counters.crypto knob rfl) (fun _ => within)
      (by omega) state.socket
    have delivered := transmit_delivered room knob false ⟨call.buf.isSome, fihdrMeta⟩ call.header
      settled (fun _ => within) (by omega) some_text
    rw [sent]
    generalize (transmit state.socket room knob false ⟨call.buf.isSome, fihdrMeta⟩
      call.header).1 = socket at delivered
    let frame : Frame := ⟨(knob.count fihdrMeta).ivIncr, call⟩
    have stream_eq : state.frames.flatMap Frame.symbols ++
        opening knob false ⟨call.buf.isSome, fihdrMeta⟩ ++ textSymbols call.header =
          state.frames.flatMap Frame.symbols ++ frame.head := List.append_assoc ..
    rw [stream_eq] at delivered
    simp only [State.finish, Bool.false_eq_true, if_false, Option.isSome_some, if_true]
    split
    · rename_i positive
      obtain ⟨raised_eq, -⟩ := positive_iff positive
      cases at_buf : call.buf with
      | none =>
          have settled_after : Delivered socket
              ((state.frames ++ [frame]).flatMap Frame.symbols) := by
            rw [flatMap_snoc, Frame.symbols, at_buf]
            simpa [closing, at_buf, textSymbols] using delivered
          refine Live.kept (live.hold holds .unlock rfl rfl ?_ settled_after
            (fun free => by cases free) counted)
          rw [raised_eq, at_buf]
          rfl
      | some buf =>
          refine Live.kept (live.hold holds (.body call) rfl rfl ?_ ⟨copied, ?_⟩
            (fun free => by cases free) counted)
          · rw [raised_eq, at_buf]
            rfl
          · have opened : Delivered socket
                (state.frames.flatMap Frame.symbols ++ frame.head) := by
              simpa [closing, at_buf] using delivered
            exact ⟨state.frames, _, rfl, opened⟩
    · refine ⟨.of_exited rfl live.exclusive ?_ counted, fun running => by cases running⟩
      refine delivered.started.trans ?_
      change _ <+: (state.frames ++ [frame]).flatMap Frame.symbols
      rw [flatMap_snoc, List.append_assoc, List.prefix_append_right_inj, Frame.symbols,
        List.append_assoc, List.prefix_append_right_inj]
      cases at_buf : call.buf with
      | none => simp [closing, textSymbols]
      | some buf => simp [closing]

/-- The payload goes out and the frame ends. -/
theorem Live.sendBody (live : Live state) {call : Call} (at_pc : state.pc thread = .body call)
    {knob : NetworkObj} (found : state.knob = some knob) {buf : List UInt8}
    (at_buf : call.buf = some buf) (room : Nat) (tempBuf : List UInt8) :
    Kept ({ state with tempBuf := tempBuf }.finish thread call
      (transmit state.socket room knob (state.didHeader thread) ⟨false, fihdrMeta⟩
        (state.tempBuf.take buf.length)).1
      (transmit state.socket room knob (state.didHeader thread) ⟨false, fihdrMeta⟩
        (state.tempBuf.take buf.length)).2 .unlock) := by
  have holds : (state.pc thread).holds = true := by rw [at_pc]; rfl
  have raised_before : state.didHeader thread = true := by rw [live.raised, at_pc]; rfl
  obtain ⟨copied, opened⟩ : Copied state call ∧ Opened state call := by
    simpa only [at_pc, Placed] using live.placed thread
  have counters := live.counters
  rw [found] at counters
  obtain ⟨bound, text_eq⟩ := copied buf at_buf
  obtain ⟨raised, value, sent, positive_iff⟩ := transmit_sent room knob true
    ⟨false, fihdrMeta⟩ buf (counters.crypto knob rfl) (fun lowered => by cases lowered) bound
    state.socket
  rw [raised_before, text_eq, sent]
  simp only [State.finish, if_true, Option.isSome_none, Bool.false_eq_true, if_false]
  have whole : buf ≠ [] →
      Delivered (transmit state.socket room knob true ⟨false, fihdrMeta⟩ buf).1
        (state.frames.flatMap Frame.symbols) := by
    intro some_text
    obtain ⟨earlier, counter, frames_eq, delivered⟩ := opened
    have sent_all := transmit_delivered room knob true ⟨false, fihdrMeta⟩ buf delivered
      (fun lowered => by cases lowered) bound some_text
    rw [frames_eq, flatMap_snoc, Frame.symbols, at_buf]
    simpa [opening, closing] using sent_all
  split
  · rename_i positive
    obtain ⟨raised_eq, some_text⟩ := positive_iff positive
    refine Live.kept (live.hold holds .unlock rfl rfl ?_ (whole some_text)
      (fun free => by cases free) counters)
    rw [raised_eq]
    rfl
  · refine ⟨.of_exited rfl live.exclusive ?_ live.counters,
      fun running => by cases running⟩
    by_cases empty : buf = []
    · subst empty
      have unchanged := transmit_nil room knob ⟨false, fihdrMeta⟩ state.socket
      change (transmit state.socket room knob true ⟨false, fihdrMeta⟩ []).1.written <+: _
      rw [unchanged]
      exact opened.started
    · exact (whole empty).started

theorem Live.stepThread (live : Live state) {room : Nat} {left : List UInt8}
    (taken : state.stepThread thread room left = some after) : Kept after := by
  have placed := live.placed thread
  rw [State.stepThread] at taken
  cases at_pc : state.pc thread with
  | idle => simp [at_pc] at taken
  | lock call =>
      simp only [at_pc, Option.some.injEq] at taken
      subst taken
      have outside : (state.pc thread).holds = false := by rw [at_pc]; rfl
      split
      · rename_i unlocked
        exact Live.kept (live.enter outside unlocked call)
      · refine Live.kept (live.wait outside rfl ?_)
        rw [at_pc]
        change state.metaLock + 1 + 0 = state.metaLock + 1
        omega
  | backOff call =>
      simp only [at_pc, Option.some.injEq] at taken
      subst taken
      have outside : (state.pc thread).holds = false := by rw [at_pc]; rfl
      refine Live.kept (live.wait outside rfl ?_)
      rw [at_pc]
      change state.metaLock - 1 + 1 = state.metaLock + 0
      omega
  | copy call =>
      have holds : (state.pc thread).holds = true := by rw [at_pc]; rfl
      have lowered : state.didHeader thread = false := by rw [live.raised, at_pc]; rfl
      rw [at_pc] at placed
      simp only [at_pc] at taken
      split at taken
      · rename_i no_buf
        obtain rfl := Option.some.inj taken
        refine Live.kept (live.hold holds (.knob call) rfl rfl ?_ ⟨?_, placed⟩
          (fun free => by cases free) live.counters)
        · exact (Function.update_eq_self_iff.mpr lowered.symm).symm
        · intro buf found
          rw [no_buf] at found
          cases found
      · rename_i buf at_buf
        split at taken <;> obtain rfl := Option.some.inj taken
        · rename_i bound
          refine Live.kept (live.hold holds (.knob call) rfl rfl ?_ ⟨?_, placed⟩
            (fun free => by cases free) live.counters)
          · exact (Function.update_eq_self_iff.mpr lowered.symm).symm
          · intro other found
            obtain rfl : buf = other := Option.some.inj (at_buf.symm.trans found)
            exact ⟨bound, List.take_left⟩
        · exact live.exit
  | knob call =>
      have holds : (state.pc thread).holds = true := by rw [at_pc]; rfl
      have lowered : state.didHeader thread = false := by rw [live.raised, at_pc]; rfl
      rw [at_pc] at placed
      simp only [at_pc] at taken
      split at taken
      · obtain rfl := Option.some.inj taken
        exact Live.kept (live.hold holds (.head call) rfl rfl
          (Function.update_eq_self_iff.mpr lowered.symm).symm placed (fun free => by cases free)
          live.counters)
      · rename_i not_copied
        split at taken <;> obtain rfl := Option.some.inj taken
        · have counters := live.counters
          rw [not_copied] at counters
          exact Live.kept (live.hold holds (.head call) rfl rfl
            (Function.update_eq_self_iff.mpr lowered.symm).symm placed (fun free => by cases free)
            counters.copy)
        · exact live.kept
  | head call =>
      simp only [at_pc] at taken
      split at taken
      · cases taken
      · rename_i knob found
        obtain rfl := Option.some.inj taken
        exact live.sendHead at_pc found room
  | body call =>
      simp only [at_pc] at taken
      split at taken
      · rename_i knob buf found at_buf
        split at taken
        · obtain rfl := Option.some.inj taken
          exact live.sendBody at_pc found at_buf room _
        · cases taken
      · cases taken
  | unlock =>
      have holds : (state.pc thread).holds = true := by rw [at_pc]; rfl
      have lowered : state.didHeader thread = false := by rw [live.raised, at_pc]; rfl
      rw [at_pc] at placed
      simp only [at_pc, Option.some.injEq] at taken
      subst taken
      refine Live.kept (live.hold holds .idle rfl ?_
        (Function.update_eq_self_iff.mpr lowered.symm).symm trivial (fun _ => placed) live.counters)
      change state.metaLock - 1 + 1 = state.metaLock + 0
      omega

theorem networkRecv_doCrypto (knob : NetworkObj) (aad : BitVec 64) :
    (Network.networkRecv knob aad).1.doCrypto = knob.doCrypto := by
  have attach_eq : (knob.setIvIncr aad).attach.doCrypto = knob.doCrypto := by
    rw [NetworkObj.attach]
    split
    · split <;> rfl
    · rfl
  unfold Network.networkRecv
  dsimp only
  generalize (if aad &&& isFihdrShort ≠ 0 then fihdrShort else fihdrMeta) = subheader
  split
  · exact attach_eq
  · exact attach_eq

theorem networkRecv_ivIncr (knob : NetworkObj) (aad : BitVec 64) :
    (Network.networkRecv knob aad).1.ivIncr = aad := by
  rw [NetworkObj.ivIncr, networkRecv_iv]
  exact NetworkObj.setIvIncr_ivIncr knob aad

/-- Changes of the object do not touch what a running call knows. -/
theorem Live.setOwn (live : Live state) {own : NetworkObj} (metaknob : Bool)
    (doCrypto_eq : own.doCrypto = true) (below : own.ivIncr.getLsbD 61 = false) :
    Live { state with own := own, metaknob := metaknob } where
  lock_eq := live.lock_eq
  exclusive := live.exclusive
  raised := live.raised
  placed other := by
    have placed := live.placed other
    change Placed _ (state.pc other)
    cases at_pc : state.pc other <;> rw [at_pc] at placed <;> exact placed
  free := live.free
  counters := live.counters.setOwn doCrypto_eq below

theorem Kept.next (kept : Kept state) {label : Label threadCount}
    (taken : MetaSend.next state label = some after) : Kept after := by
  unfold MetaSend.next at taken
  split at taken
  · cases taken
  · rename_i running
    have live := kept.2 (Bool.eq_false_iff.mpr running)
    cases label with
    | doMeta =>
        obtain rfl := Option.some.inj taken
        exact Live.kept (live.setOwn true live.counters.own_crypto live.counters.own_below)
    | networkRecv aad =>
        dsimp only at taken
        split at taken
        · cases taken
        · rename_i below
          obtain rfl := Option.some.inj taken
          refine Live.kept (live.setOwn _ ?_ ?_)
          · rw [networkRecv_doCrypto]
            exact live.counters.own_crypto
          · rw [networkRecv_ivIncr]
            exact Bool.eq_false_iff.mpr below
    | call thread call =>
        dsimp only at taken
        split at taken
        · rename_i at_pc
          obtain rfl := Option.some.inj taken
          refine Live.kept (live.wait (by rw [at_pc]; rfl) rfl ?_)
          rw [at_pc]
          rfl
        · cases taken
    | step thread room left => exact live.stepThread taken

theorem Live.init {own : NetworkObj} (doCrypto_eq : own.doCrypto = true)
    (below : own.ivIncr.getLsbD 61 = false) : Live (State.init threadCount own) where
  lock_eq := by
    have none_added : tally Pc.added (State.init threadCount own).pc = 0 := tally_zero fun _ => rfl
    rw [none_added]
    rfl
  exclusive _ _ holds := by cases holds
  raised _ := rfl
  placed _ := trivial
  free _ := ⟨List.prefix_rfl, fun _ => rfl⟩
  counters := .init doCrypto_eq below

/-- Whatever the threads that call `meta_send` do, their frames are not interleaved. -/
theorem sound_of_reached (reached : (machine threadCount).Reached state) : Sound state := by
  refine (reached.invariant Kept ?_ fun _ _ _ kept _ taken => kept.next taken).1
  rintro _ ⟨salt, rfl | ⟨dtn, rfl⟩⟩
  · refine (Live.init rfl ?_).kept
    rw [networkInitTx_ivIncr]
    decide
  · refine (Live.init rfl ?_).kept
    rw [networkInitRx_ivIncr]
    decide

/-! ## Two threads -/

/-- The first thread sends a payload of three bytes while the second one backs off once. -/
def twoLabels : List (Label 2) :=
  [.doMeta, .call 0 ⟨[0, 0, 0, 3, 0, 5], some [1, 2, 3]⟩, .call 1 ⟨[0, 0, 0, 0, 0, 6], none⟩,
    .step 0 0 [], .step 1 0 [], .step 0 0 [], .step 1 0 [], .step 0 0 [], .step 0 24 [],
    .step 0 19 [7, 8, 9], .step 0 0 [], .step 1 0 [], .step 1 0 [], .step 1 0 [], .step 1 40 []]

theorem sound_after_two : ∃ state,
    (machine 2).run (State.init 2 (networkInitTx 0x5eed)) twoLabels = some state ∧
      state.frames.map Frame.counter = [1, 2] ∧ state.socket.written.length = 83 ∧ Sound state :=
  ⟨_, rfl, by decide +kernel, by decide +kernel,
    sound_of_reached (Machine.reached_of_run ⟨0x5eed, Or.inl rfl⟩ twoLabels rfl)⟩

end MetaSend
end EScp
