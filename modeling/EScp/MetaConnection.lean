import EScp.ControlMessage
import EScp.DataConnection

/-!
# The metadata connection in both directions

The messages of the two ends travel as metadata frames, those of the sender to the loop of
`rx_worker` and those of the receiver to `do_meta`.  Each end encrypts them with the copy that its
first `meta_send` has taken of its object, whose counter stood anywhere then.  What arrives in the
ring is the image that `meta_recv` hands out, message by message in order.
-/

namespace EScp
namespace MetaConnection

open Network Layout CryptoInit DataConnection
open ControlMessage (toHeader)
open Replay (sendCalls sendWhole)

/-- A message for the other end. -/
structure Message where
  typ : UInt16
  /-- The payload; a call without one passes a null pointer. -/
  buf : List UInt8

/-- The header with its padding. -/
def Message.head (message : Message) : List UInt8 :=
  toHeader (UInt32.ofNat message.buf.length) message.typ ++ List.replicate 10 0

/-- The type of the BYE, as `from_header` reads it. -/
def byeType : UInt16 := 0x430B

variable (gcm : Gcm) (zstd : Zstd)

/-- `meta_send` with its copy of the object, when all writes succeed. -/
def metaSend (knob : NetworkObj) (message : Message) : Option (NetworkObj × List UInt8) :=
  if 1024 * 1024 < message.buf.length then
    none
  else
    sendCalls gcm knob fihdrMeta message.head
      (if message.buf = [] then none else some message.buf)

/-- Successive calls of `meta_send`. -/
def metaSends : NetworkObj → List Message → Option (NetworkObj × List UInt8)
  | knob, [] => some (knob, [])
  | knob, message :: messages =>
      (metaSend gcm knob message).bind fun sent =>
        (metaSends sent.1 messages).map fun done => (done.1, sent.2 ++ done.2)

/-- `do_meta` of the sender.  It goes on as long as `network_recv` returns more than 1. -/
def doMeta : Nat → Receiver → List (List UInt8) → Option RxRun
  | 0, _, _ => none
  | fuel + 1, receiver, pieces =>
      match recvFrame gcm zstd receiver pieces with
      | .exit => some ⟨[], ⟨0, 0, 0⟩, .exit, pieces⟩
      | .closed => some ⟨[], ⟨0, 0, 0⟩, .closed, pieces⟩
      | .frame readSz after subheader opened later =>
          if 1 < readSz.toInt then
            (doMeta fuel after later).map fun run =>
              { run with arrivals := arrivalOf after subheader opened :: run.arrivals }
          else
            some ⟨[arrivalOf after subheader opened], ⟨0, 0, 0⟩, .closed, later⟩

/-! ## Headers -/

theorem length_head (message : Message) : message.head.length = 16 := rfl

/-- `ntohl` of the first word is the length of the payload. -/
theorem numberOf_head (message : Message) (small : message.buf.length < 2 ^ 32) :
    numberOf (message.head.take 4).reverse = message.buf.length := by
  obtain ⟨sz, sz_eq⟩ : ∃ sz, sz = UInt32.ofNat message.buf.length := ⟨_, rfl⟩
  have bytes : (message.head.take 4).reverse =
      [(sz &&& 0xffff).toUInt16.toUInt8, ((sz &&& 0xffff).toUInt16 >>> 8).toUInt8,
        (sz >>> 16).toUInt16.toUInt8, ((sz >>> 16).toUInt16 >>> 8).toUInt8] := by
    rw [sz_eq]
    rfl
  have value : sz.toNat = message.buf.length := by
    rw [sz_eq, UInt32.toNat_ofNat', Nat.mod_eq_of_lt small]
  have low_byte : ∀ number : Nat, number &&& 255 = number % 256 :=
    fun number => Nat.and_two_pow_sub_one_eq_mod number 8
  have low_word : ∀ number : Nat, number &&& 65535 = number % 65536 :=
    fun number => Nat.and_two_pow_sub_one_eq_mod number 16
  have wide := sz.toNat_lt
  rw [bytes, ← value]
  simp [numberOf, load, Nat.shiftRight_eq_div_pow, low_byte, low_word]
  omega

theorem isBye_head (message : Message) : isBye message.head = true ↔ message.typ = byeType := by
  have bytes : (message.head.drop 4).take 2 =
      [(message.typ >>> 8).toUInt8, message.typ.toUInt8] := rfl
  have wide := message.typ.toNat_lt
  rw [isBye, decide_eq_true_eq, bytes, byeType]
  simp [numberOf, load, Nat.shiftRight_eq_div_pow, ← UInt16.toNat_inj]
  omega

theorem framed_message {message : Message} (small : message.buf.length ≤ 1024 * 1024) :
    Framed message.head message.buf where
  head_length := length_head message
  size_eq := numberOf_head message (by omega)
  small := by omega

/-- What `meta_recv` hands out of a message is its image in memory. -/
theorem head_append_buf (message : Message) : message.head ++ message.buf =
    ControlMessage.metaSend message.buf
      (toHeader (UInt32.ofNat message.buf.length) message.typ) := rfl

/-! ## Sending -/

/-- An object that frames can be sent with: the first object of a connection, or a copy. -/
structure Ready (lead : Nat) (knob : NetworkObj) : Prop where
  crypto : knob.doCrypto = true
  lead_eq : knob.lead = lead
  below : knob.ivIncr.getLsbD 61 = false

variable {gcm} {zstd} {lead : Nat} {knob : NetworkObj}

/-- A message that has gone out is one frame. -/
theorem metaSend_eq (ready : Ready lead knob) {message : Message} {sent : NetworkObj × List UInt8}
    (went : metaSend gcm knob message = some sent) :
    message.buf.length ≤ 1024 * 1024 ∧ Ready lead sent.1 ∧ sent.1.ivIncr.getLsbD 62 = false ∧
      sent.2 = frameBytes gcm sent.1 message.head message.buf := by
  have counted_ready : (knob.count fihdrMeta).ivIncr.getLsbD 61 = false →
      Ready lead (knob.count fihdrMeta) :=
    fun below => ⟨ready.crypto, (NetworkObj.count_lead _ _).trans ready.lead_eq, below⟩
  have long := NetworkObj.count_meta_getLsbD knob ready.below
  have head_length : 0 < message.head.length ∧ message.head.length < 2 ^ 31 := by
    rw [length_head]
    decide
  rw [metaSend] at went
  split at went
  · cases went
  · rename_i short
    have small : message.buf.length ≤ 1024 * 1024 := Nat.not_lt.mp short
    refine ⟨small, ?_⟩
    by_cases empty : message.buf = []
    · rw [if_pos empty, sendCalls, sendWhole_eq ready.crypto fihdrMeta head_length] at went
      split_ifs at went with exceeded
      · obtain rfl := Option.some.inj went
        exact ⟨counted_ready (Bool.eq_false_iff.mpr exceeded), long, by rw [empty]⟩
    · have buf_length : 0 < message.buf.length ∧ message.buf.length < 2 ^ 31 :=
        ⟨List.length_pos_of_ne_nil empty, by omega⟩
      rw [if_neg empty, sendCalls,
        sendFrame_eq ready.crypto fihdrMeta head_length buf_length] at went
      split_ifs at went with exceeded
      · obtain rfl := Option.some.inj went
        exact ⟨counted_ready (Bool.eq_false_iff.mpr exceeded), long, rfl⟩

/-- A frame takes at least 40 bytes. -/
theorem length_metaSends {messages : List Message} (ready : Ready lead knob)
    {sent : NetworkObj × List UInt8} (went : metaSends gcm knob messages = some sent) :
    40 * messages.length ≤ sent.2.length := by
  induction messages generalizing knob sent with
  | nil => exact Nat.zero_le _
  | cons message messages ih =>
      obtain ⟨first, went_first, went_rest⟩ := Option.bind_eq_some_iff.mp went
      obtain ⟨others, sent_others, rfl⟩ := Option.map_eq_some_iff.mp went_rest
      obtain ⟨-, ready_first, -, first_eq⟩ := metaSend_eq ready went_first
      have others_le := ih ready_first sent_others
      rw [List.length_append, first_eq, length_frameBytes, length_head, List.length_cons]
      omega

/-! ## Receiving -/

/-- What a message brings. -/
def Message.arrival (message : Message) : Arrival := .metadata message.head message.buf

variable (zstd) in
theorem rxLoop_message {receiver : Receiver} (lead_eq : receiver.knob.lead = lead)
    {counted : NetworkObj} (ready : Ready lead counted)
    (long : counted.ivIncr.getLsbD 62 = false) {message : Message}
    (small : message.buf.length ≤ 1024 * 1024) (plain : message.typ ≠ byeType)
    {pieces : List (List UInt8)} {rest : List UInt8}
    (stream : Stream pieces (frameBytes gcm counted message.head message.buf ++ rest))
    (totals : Totals) :
    ∃ after later, Stream later rest ∧ after.knob.lead = lead ∧
      ∀ fuel, rxLoop zstd gcm (fuel + 1) receiver totals pieces =
        (rxLoop zstd gcm fuel after (totals.add 24 0 0) later).map fun run =>
          { run with arrivals := message.arrival :: run.arrivals } := by
  obtain ⟨after, opened, later, received, head_eq, body_eq, left, lead_after⟩ :=
    recvFrame_metadata zstd lead_eq ready.lead_eq long (framed_message small) stream
  have apart : fihdrMeta ≠ fihdrShort := by decide
  obtain ⟨bye, -⟩ | ⟨-, clear, value_eq⟩ := metaValue_cases message.head
  · exact (plain ((isBye_head message).mp bye)).elim
  · refine ⟨after, later, left, lead_after, fun fuel => ?_⟩
    rw [rxLoop, received]
    dsimp only
    rw [if_neg (not_not.mpr clear), value_eq]
    simp only [Totals.recv, if_neg apart, arrivalOf, submitted, head_eq, body_eq,
      Totals.addNetwork, Totals.add, Message.arrival]
    simp

variable (zstd) in
/-- The loop takes the messages one after the other and goes on with what follows. -/
theorem rxLoop_of_metaSends {messages : List Message}
    (plain : ∀ message ∈ messages, message.typ ≠ byeType) (ready : Ready lead knob)
    {receiver : Receiver} (lead_eq : receiver.knob.lead = lead)
    {sent : NetworkObj × List UInt8} (went : metaSends gcm knob messages = some sent)
    {pieces : List (List UInt8)} {rest : List UInt8} (stream : Stream pieces (sent.2 ++ rest))
    (totals : Totals) :
    ∃ after later, Stream later rest ∧ after.knob.lead = lead ∧
      ∀ fuel, rxLoop zstd gcm (messages.length + fuel) receiver totals pieces =
        (rxLoop zstd gcm fuel after (totals.add (24 * messages.length) 0 0) later).map fun run =>
          { run with arrivals := messages.map Message.arrival ++ run.arrivals } := by
  induction messages generalizing knob receiver sent pieces totals with
  | nil =>
      obtain rfl := Option.some.inj went
      refine ⟨receiver, pieces, stream, lead_eq, fun fuel => ?_⟩
      have same : totals.add 0 0 0 = totals := by simp [Totals.add]
      simp [same]
  | cons message messages ih =>
      obtain ⟨first, went_first, went_rest⟩ := Option.bind_eq_some_iff.mp went
      obtain ⟨others, sent_others, rfl⟩ := Option.map_eq_some_iff.mp went_rest
      obtain ⟨small, ready_first, long, first_eq⟩ := metaSend_eq ready went_first
      dsimp only at stream ⊢
      rw [first_eq, List.append_assoc] at stream
      obtain ⟨middle, between, stream_rest, lead_middle, first_loop⟩ :=
        rxLoop_message zstd lead_eq ready_first long small
          (plain message (List.mem_cons_self ..)) stream totals
      obtain ⟨after, later, left, lead_after, rest_loop⟩ :=
        ih (fun other mem => plain other (List.mem_cons_of_mem _ mem)) ready_first lead_middle
          sent_others stream_rest (totals.add 24 0 0)
      refine ⟨after, later, left, lead_after, fun fuel => ?_⟩
      have totals_eq : (totals.add 24 0 0).add (24 * messages.length) 0 0 =
          totals.add (24 * (messages.length + 1)) 0 0 := by
        have size_eq : 24 + 24 * messages.length = 24 * (messages.length + 1) := by omega
        rw [Totals.add_add, size_eq]
      rw [List.length_cons, Nat.add_right_comm, first_loop, rest_loop, totals_eq, Option.map_map]
      rfl

theorem doMeta_message {receiver : Receiver} (lead_eq : receiver.knob.lead = lead)
    {counted : NetworkObj} (ready : Ready lead counted)
    (long : counted.ivIncr.getLsbD 62 = false) {message : Message}
    (small : message.buf.length ≤ 1024 * 1024) {pieces : List (List UInt8)} {rest : List UInt8}
    (stream : Stream pieces (frameBytes gcm counted message.head message.buf ++ rest)) :
    ∃ after later, Stream later rest ∧ after.knob.lead = lead ∧
      ∀ fuel, doMeta gcm zstd (fuel + 1) receiver pieces =
        (doMeta gcm zstd fuel after later).map fun run =>
          { run with arrivals := message.arrival :: run.arrivals } := by
  obtain ⟨after, opened, later, received, head_eq, body_eq, left, lead_after⟩ :=
    recvFrame_metadata zstd lead_eq ready.lead_eq long (framed_message small) stream
  have apart : fihdrMeta ≠ fihdrShort := by decide
  have more : 1 < (metaValue message.head).toInt := by
    rw [metaValue]
    cases isBye message.head <;> decide
  refine ⟨after, later, left, lead_after, fun fuel => ?_⟩
  rw [doMeta, received]
  simp only [more, if_true, arrivalOf, if_neg apart, head_eq, body_eq, Message.arrival]

/-- `do_meta` takes the messages one after the other and ends with the connection. -/
theorem doMeta_of_metaSends {messages : List Message} (ready : Ready lead knob)
    {receiver : Receiver} (lead_eq : receiver.knob.lead = lead)
    {sent : NetworkObj × List UInt8} (went : metaSends gcm knob messages = some sent)
    {pieces : List (List UInt8)} (stream : Stream pieces sent.2) {fuel : Nat}
    (enough : messages.length < fuel) :
    doMeta gcm zstd fuel receiver pieces =
      some ⟨messages.map Message.arrival, ⟨0, 0, 0⟩, .closed, []⟩ := by
  induction messages generalizing knob receiver sent pieces fuel with
  | nil =>
      obtain rfl := Option.some.inj went
      obtain rfl : pieces = [] := by
        cases pieces with
        | nil => rfl
        | cons piece pieces =>
            have empty : piece = [] := (List.append_eq_nil_iff.mp stream.whole).1
            exact (stream.positive piece (List.mem_cons_self ..) empty).elim
      obtain ⟨left, rfl⟩ := Nat.exists_eq_succ_of_ne_zero (Nat.ne_of_gt enough)
      rfl
  | cons message messages ih =>
      obtain ⟨first, went_first, went_rest⟩ := Option.bind_eq_some_iff.mp went
      obtain ⟨others, sent_others, rfl⟩ := Option.map_eq_some_iff.mp went_rest
      obtain ⟨small, ready_first, long, first_eq⟩ := metaSend_eq ready went_first
      obtain ⟨left, rfl⟩ := Nat.exists_eq_succ_of_ne_zero (Nat.ne_of_gt (Nat.zero_lt_of_lt enough))
      dsimp only at stream
      rw [first_eq] at stream
      obtain ⟨middle, between, stream_rest, lead_middle, first_loop⟩ :=
        doMeta_message lead_eq ready_first long small stream
      rw [Nat.succ_eq_add_one, first_loop, ih ready_first lead_middle sent_others stream_rest
        (Nat.lt_of_succ_lt_succ enough)]
      rfl

/-! ## The whole connection -/

variable {aes : List UInt8 → Gcm} {args : CryptoArgs} {dtn : DtnArgs}

/-- What an `rx_worker` has received on a metadata connection. -/
structure Heard (messages : List Message) (rest : List UInt8) (run : RxRun) : Prop where
  arrivals : run.arrivals = messages.map Message.arrival ++ [.metadata byeInfo []]
  ending : run.ending = .bye
  later : Stream run.later rest
  totals : run.totals = ⟨BitVec.ofNat 64 (24 * (messages.length + 1)), 0, 0⟩

/-- What the sender has sent comes out at the receiver. -/
theorem rxWorker_of_metaSends (zstd : Zstd) {dtn : DtnArgs} {globalIv : BitVec 64}
    {key : List UInt8} {written : Int} {opening : Opening} (crypto : args.doCrypto = true)
    (begun : networkInittx aes args globalIv key written = some opening)
    {messages : List Message} (plain : ∀ message ∈ messages, message.typ ≠ byeType)
    {knob : NetworkObj} (ready : Ready (saltOf key).toNat knob) {sent : NetworkObj × List UInt8}
    (went : metaSends (aes (key.take 16)) knob messages = some sent) {own : NetworkObj}
    {bye : NetworkObj × List UInt8} (ready_own : Ready (saltOf key).toNat own)
    (sent_bye : sendWhole (aes (key.take 16)) own fihdrMeta byeInfo = some bye)
    {rest : List UInt8} {pieces : List (List UInt8)}
    (stream : Stream pieces (opening.message ++ sent.2 ++ bye.2 ++ rest)) :
    ∃ run, rxWorker zstd aes args dtn pieces = some run ∧ Heard messages rest run := by
  have sizes := length_metaSends ready went
  have bye_length : 0 < byeInfo.length ∧ byeInfo.length < 2 ^ 31 := by decide
  rw [sendWhole_eq ready_own.crypto fihdrMeta bye_length] at sent_bye
  split_ifs at sent_bye
  obtain rfl := Option.some.inj sent_bye
  dsimp only at stream
  rw [List.append_assoc, List.append_assoc] at stream
  obtain ⟨acceptance, later, accepted, stream_sent, -, agree⟩ :=
    acceptConnection_of_message dtn crypto begun stream
  obtain ⟨gkey_eq, salt, tx_eq, rx_eq⟩ := agree
  obtain ⟨-, object_eq, -⟩ := networkInittx_cases crypto begun
  rw [object_eq] at gkey_eq tx_eq
  dsimp only at gkey_eq tx_eq
  have salt_eq : salt.toNat = (saltOf key).toNat := by
    have tx_lead := congrArg NetworkObj.lead tx_eq
    rw [networkInitTx, networkInitTx, NetworkObj.ofSalt_lead, NetworkObj.ofSalt_lead] at tx_lead
    exact tx_lead.symm
  have lead_eq : (Receiver.init salt dtn).knob.lead = (saltOf key).toNat :=
    (ready_init salt dtn).lead_eq.trans salt_eq
  obtain ⟨after, later_bye, stream_bye, lead_after, loop_eq⟩ :=
    rxLoop_of_metaSends zstd plain ready lead_eq went stream_sent ⟨0, 0, 0⟩
  obtain ⟨left, stream_rest, ended⟩ := rxLoop_bye zstd lead_after
    (NetworkObj.count_lead _ _ |>.trans ready_own.lead_eq)
    (NetworkObj.count_meta_getLsbD _ ready_own.below) stream_bye
    (Totals.add ⟨0, 0, 0⟩ (24 * messages.length) 0 0)
    (later.flatten.length - messages.length)
  have fuel_eq : later.flatten.length + 1 =
      messages.length + (later.flatten.length - messages.length + 1) := by
    have enough : messages.length ≤ later.flatten.length := by
      rw [stream_sent.whole, List.length_append]
      omega
    omega
  have ran : rxWorker zstd aes args dtn pieces = some
      ⟨messages.map Message.arrival ++ [.metadata byeInfo []],
        (Totals.add ⟨0, 0, 0⟩ (24 * messages.length) 0 0).add 24 0 0, .bye, left⟩ := by
    rw [rxWorker, accepted]
    simp only [gkey_eq, rx_eq]
    rw [fuel_eq]
    exact (loop_eq _).trans (by rw [ended]; rfl)
  rw [Totals.add_add] at ran
  refine ⟨_, ran, ⟨rfl, rfl, stream_rest, ?_⟩⟩
  simp [Totals.add, Nat.mul_add]

/-- Whatever copies of their objects the two ends send with, the messages of each end come out at
the other in order and unchanged, in whatever pieces the bytes arrive. -/
theorem metadata_of_connection (zstd : Zstd) (dtn : DtnArgs) {globalIv : BitVec 64}
    {key : List UInt8} {written : Int} {opening : Opening} (crypto : args.doCrypto = true)
    (begun : networkInittx aes args globalIv key written = some opening)
    {messages : List Message} (plain : ∀ message ∈ messages, message.typ ≠ byeType)
    {knob : NetworkObj} (ready : Ready (saltOf key).toNat knob) {sent : NetworkObj × List UInt8}
    (went : metaSends (aes (key.take 16)) knob messages = some sent) :
    (∀ own bye, Ready (saltOf key).toNat own →
      sendWhole (aes (key.take 16)) own fihdrMeta byeInfo = some bye →
      ∀ rest pieces, Stream pieces (opening.message ++ sent.2 ++ bye.2 ++ rest) →
        ∃ run, rxWorker zstd aes args dtn pieces = some run ∧ Heard messages rest run) ∧
    ∀ receiver : Receiver, receiver.knob.lead = (saltOf key).toNat →
      ∀ pieces, Stream pieces sent.2 →
        doMeta (aes (key.take 16)) zstd (pieces.flatten.length + 1) receiver pieces =
          some ⟨messages.map Message.arrival, ⟨0, 0, 0⟩, .closed, []⟩ := by
  have sizes := length_metaSends ready went
  constructor
  · exact fun own bye ready_own sent_bye rest pieces stream =>
      rxWorker_of_metaSends zstd crypto begun plain ready went ready_own sent_bye stream
  · intro receiver lead_eq pieces stream
    refine doMeta_of_metaSends ready lead_eq went stream ?_
    rw [stream.whole]
    omega

/-! ## A keepalive and a BYE -/

/-- AES-128-GCM under the key 00 01 .. 0f for the first long frame of each of two objects with salt
0x5eed, which share their nonce. -/
def keepaliveGcm : Gcm where
  keystream := firstFrameGcm.keystream
  tag _ _ ciphertext :=
    if ciphertext = [109, 68, 69, 47, 234, 111, 86, 223, 143, 204, 21, 232, 226, 251, 163, 184] then
      [31, 75, 19, 30, 226, 135, 19, 130, 131, 83, 89, 114, 89, 133, 120, 120]
    else if ciphertext =
        [109, 68, 69, 47, 169, 118, 86, 223, 143, 204, 21, 232, 226, 251, 163, 184] then
      [20, 234, 31, 34, 108, 46, 191, 16, 250, 158, 198, 102, 166, 59, 232, 230]
    else
      List.replicate 16 0
  length_tag nonce aad ciphertext := by
    split
    · rfl
    · split <;> rfl

/-- AES-128-GCM under the key of the session and under that of the connection. -/
def keepaliveAes (key : List UInt8) : Gcm :=
  if key = firstArgs.cryptoKey then firstAes key else keepaliveGcm

def keepaliveBytes : List UInt8 :=
  [1, 0, 0, 0, 0, 0, 0, 0, 109, 68, 69, 47, 234, 111, 86, 223, 143, 204, 21, 232, 226, 251, 163,
    184, 31, 75, 19, 30, 226, 135, 19, 130, 131, 83, 89, 114, 89, 133, 120, 120]

def firstByeBytes : List UInt8 :=
  [1, 0, 0, 0, 0, 0, 0, 0, 109, 68, 69, 47, 169, 118, 86, 223, 143, 204, 21, 232, 226, 251, 163,
    184, 20, 234, 31, 34, 108, 46, 191, 16, 250, 158, 198, 102, 166, 59, 232, 230]

theorem ready_firstKnob : Ready (saltOf firstKey).toNat (networkInitTx 0x5eed) where
  crypto := rfl
  lead_eq := NetworkObj.ofSalt_lead true 0x5eed
  below := by rw [networkInitTx_ivIncr]; decide

theorem metadata_of_keepalive : ∃ run,
    rxWorker rawZstd keepaliveAes firstArgs ⟨true, 262144⟩
      [firstMessage ++ keepaliveBytes ++ firstByeBytes] = some run ∧
    Heard [⟨18, []⟩] [] run := by
  have begun : ∃ opening, networkInittx keepaliveAes firstArgs 0 firstKey csiSize = some opening ∧
      opening.message = firstMessage := ⟨_, rfl, by decide +kernel⟩
  have went : ∃ sent, metaSends (keepaliveAes (firstKey.take 16)) (networkInitTx 0x5eed)
      [⟨18, []⟩] = some sent ∧ sent.2 = keepaliveBytes := ⟨_, rfl, by decide +kernel⟩
  have ended : ∃ bye, sendWhole (keepaliveAes (firstKey.take 16)) (networkInitTx 0x5eed) fihdrMeta
      byeInfo = some bye ∧ bye.2 = firstByeBytes := ⟨_, rfl, by decide +kernel⟩
  obtain ⟨opening, begun, opening_eq⟩ := begun
  obtain ⟨sent, went, sent_eq⟩ := went
  obtain ⟨bye, ended, bye_eq⟩ := ended
  have plain : ∀ message ∈ [(⟨18, []⟩ : Message)], message.typ ≠ byeType := by
    intro message mem
    rw [List.mem_singleton.mp mem]
    decide
  refine (metadata_of_connection rawZstd ⟨true, 262144⟩ rfl begun plain ready_firstKnob went).1
    (networkInitTx 0x5eed) bye ready_firstKnob ended [] _ ⟨by decide, ?_⟩
  rw [opening_eq, sent_eq, bye_eq]
  decide

end MetaConnection
end EScp
