import EScp.CryptoInit
import EScp.FrameWire

/-!
# A connection from its first byte to its BYE

`tx_worker` begins a connection, sends its blocks and closes with a BYE.  `rx_worker` accepts the
connection and calls `network_recv` until it has a BYE or the connection ends, and counts what it
has received in three totals.
-/

namespace EScp
namespace DataConnection

open Network Layout CryptoInit
open Replay (sendWhole)

/-! ## Receiving -/

/-- The counters in the object of an `rx_worker`. -/
structure Totals where
  bytesNetwork : BitVec 64
  bytesDisk : BitVec 64
  bytesCompressed : BitVec 64
  deriving DecidableEq

/-- A frame that has come out of the connection. -/
inductive Arrival where
  /-- A block lies in the buffer of the I/O engine. -/
  | data (delivery : Delivery)
  /-- A first part and a body lie in the metadata ring. -/
  | metadata (head body : List UInt8)
  deriving DecidableEq

/-- How the loop of `rx_worker` ends. -/
inductive Ending where
  /-- `VRFY` ends the process. -/
  | exit
  /-- `network_recv` returns 0. -/
  | closed
  | bye
  deriving DecidableEq

/-- What a run of `rx_worker` has done with a connection, and what follows the last frame. -/
structure RxRun where
  arrivals : List Arrival
  totals : Totals
  ending : Ending
  later : List (List UInt8)
  deriving DecidableEq

/-- `fi->sz` as it was received, widened to `block_sz`. -/
def blockSz (opened : Opened) : BitVec 64 :=
  (BitVec.ofNat 32 (numberOf (opened.head.drop 16))).signExtend 64

variable (zstd : Zstd)

/-- What a data frame adds to `bytes_disk`. -/
def diskBytes (block : UInt32) (opened : Opened) : BitVec 64 :=
  if blockSz opened &&& compressedFlag ≠ 0 then
    (zstd.decompressDCtx block.toNat opened.body).1
  else
    blockSz opened

/-- The part of `network_recv` that counts. -/
def Totals.recv (totals : Totals) (after : Receiver) (subheader : UInt16) (opened : Opened) :
    Totals :=
  if subheader = fihdrShort then
    { totals with
      bytesDisk := totals.bytesDisk + diskBytes zstd after.knob.block opened
      bytesCompressed := totals.bytesCompressed + BitVec.ofNat 64 opened.body.length }
  else
    totals

/-- `knob->bytes_network += read_sz`. -/
def Totals.addNetwork (totals : Totals) (readSz : BitVec 64) : Totals :=
  { totals with bytesNetwork := totals.bytesNetwork + readSz }

/-- What a frame has brought. -/
def arrivalOf (after : Receiver) (subheader : UInt16) (opened : Opened) : Arrival :=
  if subheader = fihdrShort then
    .data (after.delivery subheader)
  else
    .metadata opened.head opened.body

/-- The operation of a data frame is submitted before the next call. -/
def submitted (after : Receiver) (subheader : UInt16) : Receiver :=
  if subheader = fihdrShort then { after with fetched := after.fetched - 1 } else after

/-- The loop of `rx_worker`, whose writes succeed. -/
def rxLoop (gcm : Gcm) : Nat → Receiver → Totals → List (List UInt8) → Option RxRun
  | 0, _, _, _ => none
  | fuel + 1, receiver, totals, pieces =>
      match recvFrame gcm zstd receiver pieces with
      | .exit => some ⟨[], totals, .exit, pieces⟩
      | .closed => some ⟨[], totals, .closed, pieces⟩
      | .frame readSz after subheader opened later =>
          let totals := totals.recv zstd after subheader opened
          if readSz &&& byeFlag ≠ 0 then
            some ⟨[arrivalOf after subheader opened], totals.addNetwork (readSz &&& 31), .bye,
              later⟩
          else
            (rxLoop gcm fuel (submitted after subheader) (totals.addNetwork readSz) later).map
              fun run => { run with arrivals := arrivalOf after subheader opened :: run.arrivals }

variable (aes : List UInt8 → Gcm) (args : CryptoArgs) (dtn : DtnArgs)

/-- `rx_worker`.  Each frame takes some bytes, so the length of the connection is enough fuel. -/
def rxWorker (pieces : List (List UInt8)) : Option RxRun :=
  match acceptConnection aes args dtn pieces with
  | none => some ⟨[], ⟨0, 0, 0⟩, .exit, pieces⟩
  | some (acceptance, later) =>
      match acceptance.object.gkey with
      | none => some ⟨[], ⟨0, 0, 0⟩, .exit, later⟩
      | some gcm =>
          rxLoop zstd gcm (later.flatten.length + 1)
            ⟨acceptance.object.knob, fun _ => 0, fun _ => 0, 0⟩ ⟨0, 0, 0⟩ later

/-! ## Sending -/

variable (compression : Bool) (blkSz : Nat)

/-- The loop of `tx_worker` over its blocks. -/
def txLoop (gcm : Gcm) : Sender → List Block → Option (Sender × List UInt8)
  | sender, [] => some (sender, [])
  | sender, block :: blocks =>
      (submitWork gcm zstd compression blkSz sender block).bind fun sent =>
        (txLoop gcm sent.1 blocks).map fun done => (done.1, sent.2 ++ done.2)

/-- The `meta_info` of a BYE. -/
def byeInfo : List UInt8 := bytesOf 4 0 ++ bytesOf 2 0xB43 ++ bytesOf 2 0 ++ bytesOf 8 0

/-- `tx_worker` on an encrypted connection: the bytes that it writes, or nothing when `VRFY` ends
the process. -/
def txWorker (globalIv : BitVec 64) (key : List UInt8) (blocks : List Block) :
    Option (List UInt8) :=
  (networkInittx aes args globalIv key csiSize).bind fun opening =>
    opening.object.gkey.bind fun gcm =>
      (txLoop zstd compression blkSz gcm ⟨opening.object.knob, fun _ => 0, 0, 0⟩ blocks).bind
        fun done =>
          (sendWhole gcm done.1.knob fihdrMeta byeInfo).map fun bye =>
            opening.message ++ done.2 ++ bye.2

/-! ## The totals -/

/-- What the totals leave out of a frame: the first part and the body of metadata. -/
def Arrival.uncounted : Arrival → Nat
  | .data _ => 0
  | .metadata _ body => 16 + body.length

/-- What `bytes_network` counts of a frame besides the body of a block. -/
def Arrival.overhead : Arrival → Nat
  | .data _ => 44
  | .metadata _ _ => 24

/-- How the totals and the bytes read hang together. -/
structure Accounts (before : Totals) (pieces : List (List UInt8)) (run : RxRun) : Prop where
  read : ∃ size, pieces.flatten.length = size + run.later.flatten.length ∧
    run.totals.bytesNetwork + BitVec.ofNat 64 (run.arrivals.map Arrival.uncounted).sum =
      before.bytesNetwork + BitVec.ofNat 64 size
  compressed : run.totals.bytesNetwork + before.bytesCompressed =
    before.bytesNetwork + run.totals.bytesCompressed +
      BitVec.ofNat 64 (run.arrivals.map Arrival.overhead).sum

theorem byeFlag_getLsbD {index : Nat} (low : index < 32) : byeFlag.getLsbD index = false := by
  have value : byeFlag = BitVec.ofNat 64 (2 ^ 32 * 0xB43) := by decide
  rw [value, BitVec.getLsbD_ofNat, Nat.testBit_two_pow_mul]
  simp [Nat.not_le.mpr low]

/-- A length below 2^32 is never taken for a BYE. -/
theorem and_byeFlag_eq_zero {value : BitVec 64} (small : value.toNat < 2 ^ 32) :
    value &&& byeFlag = 0 := by
  apply BitVec.eq_of_getLsbD_eq
  intro index inside
  rw [BitVec.getLsbD_and]
  by_cases low : index < 32
  · rw [byeFlag_getLsbD low]
    simp
  · have clear : value.getLsbD index = false := by
      rw [← BitVec.testBit_toNat]
      exact Nat.testBit_lt_two_pow (Nat.lt_of_lt_of_le small
        (Nat.pow_le_pow_right (by decide) (Nat.not_lt.mp low)))
    rw [clear]
    simp

theorem short_and_byeFlag {length : Nat} (small : length < 2 ^ 31) :
    BitVec.ofNat 64 (44 + length) &&& byeFlag = 0 := by
  refine and_byeFlag_eq_zero ?_
  rw [BitVec.toNat_ofNat]
  omega

/-- Metadata counts 24 bytes, whether it is a BYE or not. -/
theorem metaValue_cases (head : List UInt8) :
    (isBye head = true ∧ metaValue head &&& byeFlag ≠ 0 ∧ metaValue head &&& 31 = 24) ∨
      (isBye head = false ∧ metaValue head &&& byeFlag = 0 ∧ metaValue head = 24) := by
  cases bye : isBye head with
  | false =>
      refine .inr ⟨rfl, ?_, ?_⟩ <;> rw [metaValue, bye] <;> decide
  | true =>
      refine .inl ⟨rfl, ?_, ?_⟩ <;> rw [metaValue, bye] <;> decide

theorem Accounts.nil (before : Totals) (pieces : List (List UInt8)) (ending : Ending) :
    Accounts before pieces ⟨[], before, ending, pieces⟩ where
  read := ⟨0, (Nat.zero_add _).symm, by simp⟩
  compressed := by simp

/-- A frame moves the accounts on. -/
theorem Accounts.frame {after : Receiver} {before : Totals} {pieces later : List (List UInt8)}
    {value readSz : BitVec 64} {subheader : UInt16} {opened : Opened} {zstd : Zstd}
    (taken : Taken pieces later value subheader opened)
    (read_eq : readSz = if subheader = fihdrShort then value else 24) {run : RxRun}
    (accounts : Accounts ((before.recv zstd after subheader opened).addNetwork readSz) later run) :
    Accounts before pieces
      { run with arrivals := arrivalOf after subheader opened :: run.arrivals } := by
  obtain ⟨size, length_eq, network_eq⟩ := accounts.read
  have whole := taken.length
  have compressed_eq := accounts.compressed
  have apart : fihdrMeta ≠ fihdrShort := by decide
  rcases taken.kind with ⟨rfl, head_length, -, value_eq⟩ | ⟨rfl, head_length, -⟩
  · rw [if_pos rfl] at read_eq
    simp only [Totals.addNetwork, Totals.recv, if_true, read_eq, value_eq,
      BitVec.ofNat_add 44] at network_eq compressed_eq
    refine ⟨⟨44 + opened.body.length + size, ?_, ?_⟩, ?_⟩
    · change pieces.flatten.length = 44 + opened.body.length + size + run.later.flatten.length
      omega
    · simp only [arrivalOf, if_true, List.map_cons, List.sum_cons, Arrival.uncounted, Nat.zero_add,
        BitVec.ofNat_add]
      grind
    · simp only [arrivalOf, if_true, List.map_cons, List.sum_cons, Arrival.overhead,
        BitVec.ofNat_add]
      grind
  · rw [if_neg apart] at read_eq
    simp only [Totals.addNetwork, Totals.recv, if_neg apart, read_eq] at network_eq compressed_eq
    refine ⟨⟨40 + opened.body.length + size, ?_, ?_⟩, ?_⟩
    · change pieces.flatten.length = 40 + opened.body.length + size + run.later.flatten.length
      omega
    · simp only [arrivalOf, if_neg apart, List.map_cons, List.sum_cons, Arrival.uncounted,
        BitVec.ofNat_add]
      grind
    · simp only [arrivalOf, if_neg apart, List.map_cons, List.sum_cons, Arrival.overhead,
        BitVec.ofNat_add]
      grind

/-- Whatever arrives, `bytes_network` counts the bytes of the frames that have been read except the
first parts and bodies of metadata, and exceeds `bytes_compressed` by a fixed number for each
frame. -/
theorem accounts_of_rxLoop {gcm : Gcm} {zstd : Zstd} {fuel : Nat} {receiver : Receiver}
    {before : Totals} {pieces : List (List UInt8)} {run : RxRun}
    (made : rxLoop zstd gcm fuel receiver before pieces = some run) :
    Accounts before pieces run := by
  induction fuel generalizing receiver before pieces run with
  | zero => cases made
  | succ fuel ih =>
      rw [rxLoop] at made
      split at made
      · obtain rfl := Option.some.inj made
        exact .nil _ _ _
      · obtain rfl := Option.some.inj made
        exact .nil _ _ _
      · rename_i readSz after subheader opened later received
        have taken := recvFrame_taken received
        have apart : fihdrMeta ≠ fihdrShort := by decide
        dsimp only at made
        split at made
        · rename_i flagged
          obtain rfl := Option.some.inj made
          refine Accounts.frame taken ?_ (.nil _ _ .bye)
          rcases taken.kind with ⟨-, -, small, value_eq⟩ | ⟨rfl, -, value_eq⟩
          · rw [value_eq] at flagged
            exact (flagged (short_and_byeFlag small)).elim
          · rw [if_neg apart, value_eq]
            rw [value_eq] at flagged
            obtain ⟨-, -, masked⟩ | ⟨-, clear, -⟩ := metaValue_cases opened.head
            · exact masked
            · exact (flagged clear).elim
        · rename_i unflagged
          obtain ⟨rest, made_rest, rfl⟩ := Option.map_eq_some_iff.mp made
          refine Accounts.frame taken ?_ (ih made_rest)
          rcases taken.kind with ⟨rfl, -, -, -⟩ | ⟨rfl, -, value_eq⟩
          · rw [if_pos rfl]
          · rw [if_neg apart, value_eq]
            rw [value_eq] at unflagged
            obtain ⟨-, flagged, -⟩ | ⟨-, -, plain⟩ := metaValue_cases opened.head
            · exact (unflagged flagged).elim
            · exact plain

/-- Each frame takes bytes from the connection, so the loop ends. -/
theorem rxLoop_of_enough (zstd : Zstd) (gcm : Gcm) {fuel : Nat} (receiver : Receiver)
    (before : Totals) {pieces : List (List UInt8)} (enough : pieces.flatten.length < fuel) :
    ∃ run, rxLoop zstd gcm fuel receiver before pieces = some run := by
  induction fuel generalizing receiver before pieces with
  | zero => omega
  | succ fuel ih =>
      rw [rxLoop]
      split
      · exact ⟨_, rfl⟩
      · exact ⟨_, rfl⟩
      · rename_i readSz after subheader opened later received
        have shorter := (recvFrame_taken received).length
        dsimp only
        split
        · exact ⟨_, rfl⟩
        · have enough_later : later.flatten.length < fuel := by omega
          obtain ⟨run, made⟩ := ih (submitted after subheader)
            ((before.recv zstd after subheader opened).addNetwork readSz) enough_later
          exact ⟨_, by rw [made]; rfl⟩

variable {zstd : Zstd} {gcm : Gcm} {compression : Bool} {blkSz lead : Nat}

theorem numberOf_infoBytes (block : Block) (sz : BitVec 32) :
    BitVec.ofNat 32 (numberOf ((infoBytes block sz).drop 16)) = sz := by
  have front : (bytesOf 8 block.offset.toNat ++ bytesOf 8 block.fileNo.toNat).length = 16 := by
    rw [List.length_append, length_bytesOf, length_bytesOf]
  have fits := sz.isLt
  rw [infoBytes, List.drop_left' front, numberOf_bytesOf, Nat.mod_eq_of_lt (by omega),
    BitVec.ofNat_toNat, BitVec.setWidth_eq]

/-- A block adds its length to `bytes_disk`, compressed or not. -/
theorem diskBytes_of_encodes {block : Block} {sz : BitVec 32} {body : List UInt8} {size : UInt32}
    {opened : Opened} (size_eq : size.toNat = blkSz) (small : blkSz < 2 ^ 31)
    (fits : Fits blkSz block) (encodes : Encodes zstd blkSz block sz body)
    (head_eq : opened.head = infoBytes block sz) (body_eq : opened.body = body) :
    diskBytes zstd size opened = BitVec.ofNat 64 block.content.length := by
  have le := fits.le
  rw [diskBytes, blockSz, head_eq, numberOf_infoBytes, body_eq, size_eq]
  cases encodes with
  | raw =>
      have narrow : (BitVec.ofNat 32 block.content.length).toNat = block.content.length := by
        rw [BitVec.toNat_ofNat]
        omega
      have wide : (BitVec.ofNat 32 block.content.length).signExtend 64 =
          BitVec.ofNat 64 block.content.length := by
        apply BitVec.eq_of_toNat_eq
        rw [signExtend_small (by omega), narrow, BitVec.toNat_ofNat]
        omega
      have unmarked : BitVec.ofNat 64 block.content.length &&& compressedFlag = 0 := by
        refine small_and_flag ?_
        rw [BitVec.toNat_ofNat]
        omega
      rw [wide, unmarked, if_neg (by simp)]
  | compressed compressed_eq no_error _ _ _ =>
      have undone := zstd.decompress_compress blkSz block.content blkSz
      rw [compressed_eq] at undone
      rw [signExtend_marked, if_pos (marked_and_flag _), undone no_error le]

/-- The totals after some bytes more. -/
def Totals.add (totals : Totals) (network disk compressed : Nat) : Totals where
  bytesNetwork := totals.bytesNetwork + BitVec.ofNat 64 network
  bytesDisk := totals.bytesDisk + BitVec.ofNat 64 disk
  bytesCompressed := totals.bytesCompressed + BitVec.ofNat 64 compressed

theorem Totals.add_add (totals : Totals)
    (network disk compressed network' disk' compressed' : Nat) :
    (totals.add network disk compressed).add network' disk' compressed' =
      totals.add (network + network') (disk + disk') (compressed + compressed') := by
  simp only [Totals.add, BitVec.ofNat_add, BitVec.add_assoc]

/-- The loop takes the next block and goes on. -/
theorem rxLoop_block {receiver : Receiver} (ready : Ready lead blkSz receiver)
    (small : blkSz < 2 ^ 31) {counted : NetworkObj} (counted_lead : counted.lead = lead)
    (short : counted.ivIncr.getLsbD 62 = true) {block : Block} (fits : Fits blkSz block)
    {sz : BitVec 32} {body rest : List UInt8} (encodes : Encodes zstd blkSz block sz body)
    {pieces : List (List UInt8)}
    (stream : Stream pieces (frameBytes gcm counted (infoBytes block sz) body ++ rest))
    (totals : Totals) :
    ∃ after later, Stream later rest ∧ Ready lead blkSz after ∧
      ∀ fuel, rxLoop zstd gcm (fuel + 1) receiver totals pieces =
        (rxLoop zstd gcm fuel after
          (totals.add (44 + body.length) block.content.length body.length) later).map
            fun run => { run with arrivals := .data block.delivery :: run.arrivals } := by
  obtain ⟨after, opened, later, received, head_eq, body_eq, block_eq, left, delivery_eq,
    ready_after⟩ := recvFrame_block ready small counted_lead short fits encodes stream
  have counted_disk := diskBytes_of_encodes block_eq small fits encodes head_eq body_eq
  have clear := short_and_byeFlag (encodes.length fits small).2
  refine ⟨_, later, left, ready_after, fun fuel => ?_⟩
  rw [rxLoop, received]
  simp only [clear, ne_eq, not_true_eq_false, if_false, Totals.recv, if_true, counted_disk,
    Totals.addNetwork, submitted, arrivalOf, delivery_eq, body_eq, Totals.add]

theorem length_frameBytes (gcm : Gcm) (counted : NetworkObj) (head body : List UInt8) :
    (frameBytes gcm counted head body).length = 24 + head.length + body.length := by
  simp only [frameBytes, List.length_append, length_bytesOf, Gcm.encrypt_eq, Gcm.length_mask,
    Gcm.length_tag]
  omega

/-- The loop takes the blocks one after the other and goes on with what follows. -/
theorem rxLoop_of_txLoop (small : blkSz < 2 ^ 31) {rest : List UInt8} {blocks : List Block}
    (fits : ∀ block ∈ blocks, Fits blkSz block) {sender done : Sender}
    (sending : Sending compression lead sender) {receiver : Receiver}
    (ready : Ready lead blkSz receiver) {bytes : List UInt8}
    (sent : txLoop zstd compression blkSz gcm sender blocks = some (done, bytes))
    {pieces : List (List UInt8)} (stream : Stream pieces (bytes ++ rest)) (totals : Totals) :
    ∃ after later wire, Stream later rest ∧ Ready lead blkSz after ∧
      Sending compression lead done ∧ bytes.length = 44 * blocks.length + wire ∧
      ∀ fuel, rxLoop zstd gcm (blocks.length + fuel) receiver totals pieces =
        (rxLoop zstd gcm fuel after (totals.add (44 * blocks.length + wire)
          (blocks.map fun block => block.content.length).sum wire) later).map fun run =>
            { run with
              arrivals := (blocks.map fun block => .data block.delivery) ++ run.arrivals } := by
  induction blocks generalizing sender receiver bytes pieces totals with
  | nil =>
      obtain ⟨rfl, rfl⟩ := Prod.mk.inj (Option.some.inj sent)
      refine ⟨receiver, pieces, 0, stream, ready, sending, rfl, fun fuel => ?_⟩
      have same : totals.add 0 0 0 = totals := by simp [Totals.add]
      simp [same]
  | cons block blocks ih =>
      have fits_block := fits block (List.mem_cons_self ..)
      have fits_rest : ∀ other ∈ blocks, Fits blkSz other :=
        fun other mem => fits other (List.mem_cons_of_mem _ mem)
      obtain ⟨op, sz, body, fresh, encodes, work_eq⟩ :=
        submitWork_eq gcm zstd sending.crypto sending.fresh fits_block small
      rw [txLoop, work_eq] at sent
      split_ifs at sent with exceeded
      · cases sent
      · have within := Bool.eq_false_iff.mpr exceeded
        obtain ⟨⟨last, others⟩, sent_rest, made⟩ := Option.map_eq_some_iff.mp sent
        obtain ⟨rfl, rfl⟩ := Prod.mk.inj made
        rw [List.append_assoc] at stream
        obtain ⟨middle, between, stream_rest, ready_middle, first⟩ :=
          rxLoop_block ready small (NetworkObj.count_lead _ _ |>.trans sending.lead_eq)
            (NetworkObj.count_short_getLsbD _ sending.below) fits_block encodes stream totals
        obtain ⟨after, later, wire, left, ready_after, sending_after, length_eq, rest_eq⟩ :=
          ih fits_rest (sending.count within fresh) ready_middle sent_rest stream_rest
            (totals.add (44 + body.length) block.content.length body.length)
        refine ⟨after, later, body.length + wire, left, ready_after, sending_after, ?_, ?_⟩
        · rw [List.length_append, length_frameBytes, length_infoBytes, length_eq,
            List.length_cons]
          omega
        · intro fuel
          have totals_eq : (totals.add (44 + body.length) block.content.length body.length).add
              (44 * blocks.length + wire) (blocks.map fun block => block.content.length).sum wire =
                totals.add (44 * (blocks.length + 1) + (body.length + wire))
                  (block.content.length + (blocks.map fun block => block.content.length).sum)
                  (body.length + wire) := by
            have size_eq : 44 + body.length + (44 * blocks.length + wire) =
                44 * (blocks.length + 1) + (body.length + wire) := by omega
            rw [Totals.add_add, size_eq]
          rw [List.length_cons, Nat.add_right_comm, first, rest_eq, totals_eq, Option.map_map]
          rfl

theorem framed_byeInfo : Framed byeInfo [] where
  head_length := by decide
  size_eq := by decide
  small := by decide

variable (zstd) in
/-- A BYE ends the loop. -/
theorem rxLoop_bye {receiver : Receiver} (lead_eq : receiver.knob.lead = lead)
    {counted : NetworkObj} (counted_lead : counted.lead = lead)
    (long : counted.ivIncr.getLsbD 62 = false) {rest : List UInt8} {pieces : List (List UInt8)}
    (stream : Stream pieces (frameBytes gcm counted byeInfo [] ++ rest)) (totals : Totals)
    (fuel : Nat) :
    ∃ later, Stream later rest ∧ rxLoop zstd gcm (fuel + 1) receiver totals pieces =
      some ⟨[.metadata byeInfo []], totals.add 24 0 0, .bye, later⟩ := by
  obtain ⟨after, opened, later, received, head_eq, body_eq, left, -⟩ :=
    recvFrame_metadata zstd lead_eq counted_lead long framed_byeInfo stream
  have apart : fihdrMeta ≠ fihdrShort := by decide
  obtain ⟨-, flagged, masked⟩ | ⟨plain, -⟩ := metaValue_cases byeInfo
  · refine ⟨later, left, ?_⟩
    rw [rxLoop, received]
    simp only [flagged, ne_eq, not_false_eq_true, if_true, Totals.recv, if_neg apart, masked,
      arrivalOf, head_eq, body_eq, Totals.addNetwork, Totals.add]
    simp
  · exact absurd plain (by decide)

variable (zstd) (gcm) in
/-- The counter of a sender lasts for fewer than 2^61 frames. -/
theorem txLoop_of_short {sender : Sender} (sending : Sending compression lead sender)
    (small : blkSz < 2 ^ 31) {blocks : List Block} (fits : ∀ block ∈ blocks, Fits blkSz block)
    (short : sender.knob.ivIncr.toNat % 2 ^ 61 + blocks.length < 2 ^ 61) :
    ∃ done bytes, txLoop zstd compression blkSz gcm sender blocks = some (done, bytes) ∧
      Sending compression lead done ∧
      done.knob.ivIncr.toNat % 2 ^ 61 = sender.knob.ivIncr.toNat % 2 ^ 61 + blocks.length := by
  induction blocks generalizing sender with
  | nil => exact ⟨sender, [], rfl, sending, (Nat.add_zero _).symm⟩
  | cons block blocks ih =>
      have fits_block := fits block (List.mem_cons_self ..)
      have fits_rest : ∀ other ∈ blocks, Fits blkSz other :=
        fun other mem => fits other (List.mem_cons_of_mem _ mem)
      obtain ⟨op, sz, body, fresh, encodes, work_eq⟩ :=
        submitWork_eq gcm zstd sending.crypto sending.fresh fits_block small
      have counted := NetworkObj.count_short_mod sender.knob sending.below
      rw [List.length_cons] at short
      have within : (sender.knob.count fihdrShort).ivIncr.getLsbD 61 = false := by
        rw [← BitVec.testBit_toNat, Nat.testBit_eq_decide_div_mod_eq]
        refine decide_eq_false ?_
        omega
      have counter : (sender.knob.count fihdrShort).ivIncr.toNat % 2 ^ 61 =
          sender.knob.ivIncr.toNat % 2 ^ 61 + 1 := by omega
      obtain ⟨done, bytes, sent, sending_done, counter_eq⟩ := ih (sending.count within fresh)
        fits_rest (by
          change (sender.knob.count fihdrShort).ivIncr.toNat % 2 ^ 61 + blocks.length < 2 ^ 61
          omega)
      change _ = (sender.knob.count fihdrShort).ivIncr.toNat % 2 ^ 61 + blocks.length at counter_eq
      refine ⟨done,
        frameBytes gcm (sender.knob.count fihdrShort) (infoBytes block sz) body ++ bytes, ?_,
        sending_done, by rw [counter_eq, counter, List.length_cons]; omega⟩
      rw [txLoop, work_eq, within]
      simp only [Bool.false_eq_true, if_false, Option.bind_some, sent, Option.map_some]

theorem stamp_meta_mod_eq (knob : NetworkObj) :
    (knob.stamp fihdrMeta).toNat % 2 ^ 61 = knob.ivIncr.toNat % 2 ^ 61 := by
  apply Nat.eq_of_testBit_eq
  intro index
  rw [Nat.testBit_mod_two_pow, Nat.testBit_mod_two_pow, BitVec.testBit_toNat, BitVec.testBit_toNat,
    NetworkObj.stamp_meta_getLsbD]
  by_cases low : index < 61
  · have not_flag : ¬62 = index := by omega
    rw [NetworkObj.sided_getLsbD_of_ne _ (by omega), decide_eq_true not_flag, Bool.true_and]
  · rw [decide_eq_false low, Bool.false_and, Bool.false_and]

/-- The counter leaves room for a BYE. -/
theorem count_meta_within {knob : NetworkObj} (below : knob.ivIncr.getLsbD 61 = false)
    (room : knob.ivIncr.toNat % 2 ^ 61 + 1 < 2 ^ 61) :
    (knob.count fihdrMeta).ivIncr.getLsbD 61 = false := by
  have bound := NetworkObj.stamp_meta_mod_lt knob below
  have low := stamp_meta_mod_eq knob
  rw [← BitVec.testBit_toNat, NetworkObj.count_meta_toNat knob below,
    Nat.testBit_eq_decide_div_mod_eq]
  refine decide_eq_false ?_
  omega

/-- What a connection has brought that was sent whole. -/
structure Whole (blocks : List Block) (bytes rest : List UInt8) (run : RxRun) : Prop where
  arrivals : run.arrivals =
    (blocks.map fun block => .data block.delivery) ++ [.metadata byeInfo []]
  ending : run.ending = .bye
  later : Stream run.later rest
  /-- The sum of the block lengths. -/
  disk : run.totals.bytesDisk =
    BitVec.ofNat 64 (blocks.map fun block => block.content.length).sum
  /-- All bytes but the first message and the first part of the BYE. -/
  network : run.totals.bytesNetwork + 68 = BitVec.ofNat 64 bytes.length
  compressed : run.totals.bytesNetwork =
    run.totals.bytesCompressed + BitVec.ofNat 64 (44 * blocks.length + 24)

variable {aes : List UInt8 → Gcm} {args : CryptoArgs} {dtn : DtnArgs} {globalIv : BitVec 64}
  {key : List UInt8} {blocks : List Block}

theorem networkInittx_ready (aes : List UInt8 → Gcm) (crypto : args.doCrypto = true)
    (key_length : key.length = 20) (globalIv : BitVec 64) :
    ∃ opening, networkInittx aes args globalIv key csiSize = some opening ∧
      opening.object = ⟨networkInitTx (saltOf key), some (aes (key.take 16))⟩ := by
  rw [networkInittx, if_pos crypto, if_neg (not_not.mpr key_length)]
  exact ⟨_, rfl, rfl⟩

/-- A `tx_worker` before its first block. -/
theorem sending_of_init (compression : Bool) (salt : BitVec 32) :
    Sending compression salt.toNat ⟨networkInitTx salt, fun _ => 0, 0, 0⟩ :=
  sending_init compression salt

/-- What was sent comes back block by block up to the BYE, in whatever pieces it arrives. -/
theorem rxWorker_of_sent (zstd : Zstd) {compression : Bool} {aes : List UInt8 → Gcm}
    {dtn : DtnArgs} {globalIv : BitVec 64} (crypto : args.doCrypto = true)
    (key_length : key.length = 20) (small : dtn.block.toNat < 2 ^ 31)
    (fits : ∀ block ∈ blocks, Fits dtn.block.toNat block) {bytes : List UInt8}
    (sent : txWorker zstd aes args compression dtn.block.toNat globalIv key blocks = some bytes)
    {rest : List UInt8} {pieces : List (List UInt8)} (stream : Stream pieces (bytes ++ rest)) :
    ∃ run, rxWorker zstd aes args dtn pieces = some run ∧ Whole blocks bytes rest run := by
  obtain ⟨opening, begun, object_eq⟩ := networkInittx_ready aes crypto key_length globalIv
  have bye_length : 0 < byeInfo.length ∧ byeInfo.length < 2 ^ 31 := by decide
  rw [txWorker, begun, Option.bind_some, object_eq, Option.bind_some] at sent
  obtain ⟨⟨done, data⟩, sent_data, sent_bye⟩ := Option.bind_eq_some_iff.mp sent
  obtain ⟨⟨counted, bye⟩, whole, rfl⟩ := Option.map_eq_some_iff.mp sent_bye
  dsimp only at stream
  rw [List.append_assoc, List.append_assoc] at stream
  obtain ⟨acceptance, later, accepted, stream_data, -, agree⟩ :=
    acceptConnection_of_message dtn crypto begun stream
  obtain ⟨gkey_eq, salt, tx_eq, rx_eq⟩ := agree
  rw [object_eq] at gkey_eq tx_eq
  dsimp only at gkey_eq tx_eq sent_data whole
  rw [tx_eq] at sent_data
  obtain ⟨after, later_bye, wire, stream_bye, ready_after, sending_done, length_eq, loop_eq⟩ :=
    rxLoop_of_txLoop small fits (sending_of_init compression salt) (ready_init salt dtn) sent_data
      stream_data ⟨0, 0, 0⟩
  rw [sendWhole_eq sending_done.crypto fihdrMeta bye_length] at whole
  split_ifs at whole
  obtain ⟨rfl, rfl⟩ := Prod.mk.inj (Option.some.inj whole)
  have enough : blocks.length ≤ later.flatten.length := by
    rw [stream_data.whole, List.length_append]
    omega
  obtain ⟨left, stream_rest, ended⟩ := rxLoop_bye zstd ready_after.lead_eq
    (NetworkObj.count_lead _ _ |>.trans sending_done.lead_eq)
    (NetworkObj.count_meta_getLsbD _ sending_done.below) stream_bye
    (Totals.add ⟨0, 0, 0⟩ (44 * blocks.length + wire)
      (blocks.map fun block => block.content.length).sum wire)
    (later.flatten.length - blocks.length)
  have fuel_eq : later.flatten.length + 1 =
      blocks.length + (later.flatten.length - blocks.length + 1) := by omega
  have ran : rxWorker zstd aes args dtn pieces = some
      ⟨(blocks.map fun block => .data block.delivery) ++ [.metadata byeInfo []],
        (Totals.add ⟨0, 0, 0⟩ (44 * blocks.length + wire)
          (blocks.map fun block => block.content.length).sum wire).add 24 0 0, .bye, left⟩ := by
    rw [rxWorker, accepted]
    simp only [gkey_eq, rx_eq]
    rw [fuel_eq]
    exact (loop_eq _).trans (by rw [ended]; rfl)
  rw [Totals.add_add] at ran
  refine ⟨_, ran, ⟨rfl, rfl, stream_rest, ?_, ?_, ?_⟩⟩
  · simp only [Totals.add, Nat.add_zero]
    exact BitVec.zero_add _
  · have bytes_length : (opening.message ++ data ++ frameBytes (aes (key.take 16))
        (done.knob.count fihdrMeta) byeInfo []).length =
          44 * blocks.length + wire + 24 + 68 := by
      rw [List.length_append, List.length_append, length_message crypto begun, csiSize, length_eq,
        length_frameBytes, List.length_nil, framed_byeInfo.head_length]
      omega
    rw [bytes_length, BitVec.ofNat_add (44 * blocks.length + wire + 24) 68]
    exact congrArg (· + 68#64) (BitVec.zero_add _)
  · have sum_eq : 44 * blocks.length + wire + 24 = wire + 0 + (44 * blocks.length + 24) := by
      omega
    rw [sum_eq]
    simp only [Totals.add, BitVec.ofNat_add, BitVec.add_assoc]

/-- A connection with fewer than 2^61 frames is sent whole; and whatever was sent comes back block
by block up to the BYE, in whatever pieces it arrives, with totals that match. -/
theorem rxWorker_of_txWorker (zstd : Zstd) (compression : Bool) (aes : List UInt8 → Gcm)
    (dtn : DtnArgs) (globalIv : BitVec 64) (crypto : args.doCrypto = true)
    (key_length : key.length = 20) (small : dtn.block.toNat < 2 ^ 31)
    (fits : ∀ block ∈ blocks, Fits dtn.block.toNat block) :
    (blocks.length + 1 < 2 ^ 61 → ∃ bytes,
      txWorker zstd aes args compression dtn.block.toNat globalIv key blocks = some bytes) ∧
    ∀ bytes,
      txWorker zstd aes args compression dtn.block.toNat globalIv key blocks = some bytes →
        ∀ rest pieces, Stream pieces (bytes ++ rest) →
          ∃ run, rxWorker zstd aes args dtn pieces = some run ∧ Whole blocks bytes rest run := by
  obtain ⟨opening, begun, object_eq⟩ := networkInittx_ready aes crypto key_length globalIv
  have sending := sending_of_init compression (saltOf key)
  have bye_length : 0 < byeInfo.length ∧ byeInfo.length < 2 ^ 31 := by decide
  constructor
  · intro short
    have counter : (networkInitTx (saltOf key)).ivIncr.toNat % 2 ^ 61 = 0 := by
      rw [networkInitTx_ivIncr]
      rfl
    obtain ⟨done, bytes, sent, sending_done, counter_eq⟩ :=
      txLoop_of_short zstd (aes (key.take 16)) sending small fits (by
        change (networkInitTx (saltOf key)).ivIncr.toNat % 2 ^ 61 + blocks.length < 2 ^ 61
        omega)
    change _ = (networkInitTx (saltOf key)).ivIncr.toNat % 2 ^ 61 + blocks.length at counter_eq
    have within := count_meta_within sending_done.below (by omega)
    refine ⟨opening.message ++ bytes ++
      frameBytes (aes (key.take 16)) (done.knob.count fihdrMeta) byeInfo [], ?_⟩
    rw [txWorker, begun, Option.bind_some, object_eq, Option.bind_some, sent, Option.bind_some,
      sendWhole_eq sending_done.crypto fihdrMeta bye_length, within]
    rfl
  · exact fun bytes sent rest pieces stream =>
      rxWorker_of_sent zstd crypto key_length small fits sent stream

/-! ## A connection with one block of three bytes -/

/-- AES-128-GCM under the key 00 01 .. 0f for the two frames of a connection with salt 0x5eed. -/
def connectionGcm : Gcm where
  keystream nonce index :=
    if nonce = [0xed, 0x5e, 0, 0, 0, 0, 0, 0, 2, 0, 0, 0] then
      [224, 100, 219, 191, 131, 85, 142, 178, 252, 37, 6, 37, 207, 10, 203, 181].getD index 0
    else
      firstFrameGcm.keystream nonce index
  tag nonce aad ciphertext :=
    if nonce = [0xed, 0x5e, 0, 0, 0, 0, 0, 0, 2, 0, 0, 0] then
      [249, 184, 28, 32, 55, 150, 72, 233, 17, 53, 161, 179, 130, 155, 103, 123]
    else
      firstFrameGcm.tag nonce aad ciphertext
  length_tag nonce aad ciphertext := by
    split
    · rfl
    · exact firstFrameGcm.length_tag nonce aad ciphertext

/-- AES-128-GCM under the key of the session and under that of the connection. -/
def connectionAes (key : List UInt8) : Gcm :=
  if key = firstArgs.cryptoKey then firstAes key else connectionGcm

/-- The frame of the BYE. -/
def byeBytes : List UInt8 :=
  [2, 0, 0, 0, 0, 0, 0, 0, 224, 100, 219, 191, 192, 94, 142, 178, 252, 37, 6, 37, 207, 10, 203, 181,
    249, 184, 28, 32, 55, 150, 72, 233, 17, 53, 161, 179, 130, 155, 103, 123]

def abcConnection : List UInt8 := firstMessage ++ abcBytes ++ byeBytes

theorem rxWorker_of_abc :
    txWorker rawZstd connectionAes firstArgs true 262144 0 firstKey [⟨1, 0, [97, 98, 99]⟩] =
        some abcConnection ∧
      ∃ run, rxWorker rawZstd connectionAes firstArgs ⟨true, 262144⟩
        [abcConnection.take 60, abcConnection.drop 60] = some run ∧
          Whole [⟨1, 0, [97, 98, 99]⟩] abcConnection [] run := by
  have sent : txWorker rawZstd connectionAes firstArgs true 262144 0 firstKey
      [⟨1, 0, [97, 98, 99]⟩] = some abcConnection := by decide +kernel
  have fits : ∀ block ∈ [(⟨1, 0, [97, 98, 99]⟩ : Block)], Fits 262144 block := by
    intro block mem
    rw [List.mem_singleton.mp mem]
    exact ⟨by decide, by decide⟩
  exact ⟨sent, (rxWorker_of_txWorker rawZstd true connectionAes ⟨true, 262144⟩ 0 rfl (by decide)
    (by decide) fits).2 abcConnection sent [] _ ⟨by decide, by decide⟩⟩

end DataConnection
end EScp
