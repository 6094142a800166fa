import EScp.Layout
import EScp.Residue
import EScp.Transition
import Mathlib.Data.List.GetD
import Mathlib.Logic.Function.Basic

/-!
# The log rings

`dtn_log` and `dtn_error` each keep their messages in a ring of 16384 slots of 128 bytes, and
`dtn_log_getnext` and `dtn_err_getnext` return them.  A writer takes its slot from a counter of 64
bits that it puts in an `int`; a reader takes it from a cursor of 64 bits of its own, which skips
what has been overwritten.  Calls do not overlap here, so that each of them is one step.
-/

namespace EScp
namespace LogRing

open Layout
open Machine (reached_of_run)

/-! ## The code -/

/-- `ESCP_MSG_COUNT`. -/
def msgCount : Nat := 16384

/-- `ESCP_MSG_SZ`. -/
def msgSz : Nat := 128

/-- The end of `struct dtn_args`, from `debug_claim` to `msg_poison`. -/
inductive Field where
  | debugClaim | debugCount | debugBuf | debugPoison | msgClaim | msgCount | msgBuf | msgPoison
  deriving DecidableEq

/-- The members in their order; counters have a cache line to themselves. -/
def fields : List (Member Field) :=
  [⟨.debugClaim, 8, 64⟩, ⟨.debugCount, 8, 64⟩, ⟨.debugBuf, msgSz * msgCount, 1⟩,
    ⟨.debugPoison, 8, 8⟩, ⟨.msgClaim, 8, 64⟩, ⟨.msgCount, 8, 64⟩,
    ⟨.msgBuf, msgSz * msgCount, 1⟩, ⟨.msgPoison, 8, 8⟩]

/-- The ring of `dtn_log` or that of `dtn_error`. -/
inductive Channel where
  | debug | msg
  deriving DecidableEq

/-- `debug_buf` or `msg_buf`. -/
def Channel.field : Channel → Field
  | .debug => .debugBuf
  | .msg => .msgBuf

/-- The address of the buffer; `args` is that of `debug_claim`. -/
def Channel.buf (args : Nat) (channel : Channel) : Nat :=
  args + offsetOf false fields channel.field

/-- `log_idx`, which is an `int`. -/
def logIdx (claim : UInt64) : Int32 :=
  let log_idx := claim.toUInt32.toInt32
  (log_idx % 16384) * 128

/-- `strncpy` of a message and a NUL at the end: the bytes of a slot. -/
def slotBytes (msg : List UInt8) : List UInt8 :=
  let text := msg.takeWhile fun byte => byte ≠ 0
  (text ++ List.replicate msgSz 0).take (msgSz - 1) ++ [0]

/-- What a writer with this claim stores. -/
def logWrite (args : Nat) (channel : Channel) (claim : UInt64) (msg : List UInt8) : Write :=
  Write.ofBytes ((channel.buf args : Int) + (logIdx claim).toInt).toNat (slotBytes msg)

/-- Where a reader with this cursor reads. -/
def readPtr (args : Nat) (channel : Channel) (cursor : Int64) : Nat :=
  ((channel.buf args : Int) + (cursor % 16384 * 128).toInt).toNat

/-- A ring with its counters, its readers and its history. -/
structure Ring (Reader : Type*) where
  claim : UInt64
  count : UInt64
  /-- The cursor of each thread. -/
  cursor : Reader → Int64
  /-- The messages in the order of the calls. -/
  messages : List (List UInt8)
  /-- What the calls have stored. -/
  stores : List Write
  /-- What each reader was given. -/
  returned : Reader → List (List UInt8)

structure State (Reader : Type*) where
  memory : Memory
  rings : Channel → Ring Reader

inductive Label (Reader : Type*) where
  /-- `dtn_log` or `dtn_error`. -/
  | log (channel : Channel) (msg : List UInt8)
  /-- `dtn_log_getnext` or `dtn_err_getnext`. -/
  | getnext (channel : Channel) (reader : Reader)

variable {Reader : Type*}

/-- The ring after a message has been stored. -/
def Ring.log (ring : Ring Reader) (msg : List UInt8) (write : Write) : Ring Reader :=
  { ring with
    claim := ring.claim + 1
    count := ring.count + 1
    messages := ring.messages ++ [msg]
    stores := ring.stores ++ [write] }

/-- The ring after a reader has been given what it finds at its cursor. -/
def Ring.give [DecidableEq Reader] (ring : Ring Reader) (reader : Reader) (cursor : Int64)
    (msg : List UInt8) : Ring Reader :=
  { ring with
    cursor := Function.update ring.cursor reader (cursor + 1)
    returned := Function.update ring.returned reader (ring.returned reader ++ [msg]) }

/-- `dtn_log` and `dtn_error`. -/
def State.log (args : Nat) (state : State Reader) (channel : Channel) (msg : List UInt8) :
    State Reader :=
  let ring := state.rings channel
  let write := logWrite args channel ring.claim msg
  { memory := write.apply state.memory
    rings := Function.update state.rings channel (ring.log msg write) }

/-- The cursor, unless the head has advanced past it by more than the ring. -/
def catchUp (head cursor : Int64) : Int64 :=
  if head > 16384 ∧ head - 16384 > cursor then head - 16384 else cursor

/-- `dtn_log_getnext` and `dtn_err_getnext`. -/
def State.getnext [DecidableEq Reader] (args : Nat) (state : State Reader) (channel : Channel)
    (reader : Reader) : State Reader :=
  let ring := state.rings channel
  let head := ring.count.toInt64
  if ring.cursor reader ≥ head then state
  else
    let cursor := catchUp head (ring.cursor reader)
    let msg := bytesAt state.memory (readPtr args channel cursor) msgSz
    { state with
      rings := Function.update state.rings channel (ring.give reader cursor msg) }

/-- The state after `args_new`. -/
def State.init (memory : Memory) : State Reader where
  memory := memory
  rings _ := ⟨0, 0, fun _ => 0, [], [], fun _ => []⟩

def next [DecidableEq Reader] (args : Nat) (state : State Reader) :
    Label Reader → State Reader
  | .log channel msg => state.log args channel msg
  | .getnext channel reader => state.getnext args channel reader

/-- The log rings of a session. -/
def machine (args : Nat) (Reader : Type*) [DecidableEq Reader] :
    Machine (State Reader) (Label Reader) where
  initial state := ∃ memory, state = State.init memory
  next state label := some (next args state label)

/-! ## Reading in order -/

/-- The indices that a reader with a ring of `slots` has been given up to its cursor, when `count`
messages have been written. -/
structure Given (slots count cursor : Nat) (indices : List Nat) : Prop where
  increasing : indices.Pairwise (· < ·)
  below : ∀ index ∈ indices, index < cursor
  /-- What was skipped is older than the newest message by the size of the ring. -/
  skipped : ∀ index < cursor, index ∉ indices → index + slots < count

namespace Given

variable {slots count later cursor target : Nat} {indices : List Nat}

theorem nil : Given slots count 0 [] where
  increasing := List.Pairwise.nil
  below := by simp
  skipped := by simp

theorem mono (given : Given slots count cursor indices) (more : count ≤ later) :
    Given slots later cursor indices where
  increasing := given.increasing
  below := given.below
  skipped index low missing := lt_of_lt_of_le (given.skipped index low missing) more

/-- The reader is given a message and passes over older ones. -/
theorem advance (given : Given slots count cursor indices) (ahead : cursor ≤ target)
    (overwritten : ∀ index, cursor ≤ index → index < target → index + slots < count) :
    Given slots count (target + 1) (indices ++ [target]) where
  increasing := by
    rw [List.pairwise_append]
    refine ⟨given.increasing, List.pairwise_singleton _ _, ?_⟩
    intro index mem other last
    obtain rfl := List.mem_singleton.mp last
    exact lt_of_lt_of_le (given.below index mem) ahead
  below := by
    intro index mem
    rcases List.mem_append.mp mem with earlier | last
    · have := given.below index earlier
      omega
    · rw [List.mem_singleton.mp last]
      omega
  skipped := by
    intro index low missing
    rw [List.mem_append, List.mem_singleton, not_or] at missing
    obtain ⟨not_earlier, not_last⟩ := missing
    rcases Nat.lt_or_ge index cursor with before | after
    · exact given.skipped index before not_earlier
    · exact overwritten index after (by omega)

end Given

/-! ## The property -/

/-- The address lies in the slot of a message. -/
def InSlot (args : Nat) (channel : Channel) (index address : Nat) : Prop :=
  channel.buf args + index % msgCount * msgSz ≤ address ∧
    address < channel.buf args + index % msgCount * msgSz + msgSz

/-- What a reader was given are messages in their order, less some that are a ring older than the
newest. -/
def InOrder (messages : List (List UInt8)) (cursor : Int64) (returned : List (List UInt8)) : Prop :=
  ∃ indices, Given msgCount messages.length cursor.toInt.toNat indices ∧
    returned = indices.map fun index => slotBytes (messages.getD index [])

/-- The property of a ring: each message is stored in its own slot, where it is looked for,
and each reader is given messages in order. -/
structure Ring.Sound (args : Nat) (channel : Channel) (ring : Ring Reader) : Prop where
  inside : ∀ index write, ring.stores[index]? = some write →
    ∀ address, write.Covers address → InSlot args channel index address
  same_slot : ∀ index < ring.messages.length, ∀ address,
    readPtr args channel (Int64.ofNat index) ≤ address →
      address < readPtr args channel (Int64.ofNat index) + msgSz →
        InSlot args channel index address
  in_order : ∀ reader, InOrder ring.messages (ring.cursor reader) (ring.returned reader)

def State.Sound (args : Nat) (state : State Reader) : Prop :=
  ∀ channel, (state.rings channel).Sound args channel

/-! ## Slots -/

section Slots

variable {args : Nat} {channel : Channel} {index : Nat}

/-- The address of a slot. -/
def slot (args : Nat) (channel : Channel) (index : Nat) : Nat :=
  channel.buf args + index % msgCount * msgSz

theorem buf_debug (args : Nat) : Channel.debug.buf args = args + 72 := rfl

theorem buf_msg (args : Nat) : Channel.msg.buf args = args + 2097352 := by
  have offset : offsetOf false fields Channel.msg.field = 2097352 := by decide
  rw [Channel.buf, offset]

theorem buf_pos : 0 < channel.buf args := by
  cases channel with
  | debug => rw [buf_debug]; omega
  | msg => rw [buf_msg]; omega

@[simp] theorem length_slotBytes (msg : List UInt8) : (slotBytes msg).length = msgSz := by
  simp [slotBytes, msgSz]

/-- The remainder has the sign of the `int`. -/
theorem logIdx_toInt (claim : UInt64) :
    (logIdx claim).toInt = ((claim.toNat : Int).bmod (2 ^ 32)).tmod 16384 * 128 := by
  have cut := toInt_toInt32_eq_bmod claim
  have positive : (0 : Int) < 16384 := by omega
  have low := Int.lt_tmod_of_pos ((claim.toNat : Int).bmod (2 ^ 32)) positive
  have high := Int.tmod_lt_of_pos ((claim.toNat : Int).bmod (2 ^ 32)) positive
  rw [logIdx, Int32.toInt_mul, Int32.toInt_mod, cut, show (16384 : Int32).toInt = 16384 from rfl,
    show (128 : Int32).toInt = 128 from rfl]
  exact Int.bmod_eq_of_le (by omega) (by omega)

theorem logIdx_eq_iff (claim : UInt64) :
    (logIdx claim).toInt = (claim.toNat % msgCount * msgSz : Nat) ↔
      claim.toNat % 2 ^ 32 < 2 ^ 31 ∨ msgCount ∣ claim.toNat := by
  rw [logIdx_toInt, Int.bmod_def, msgCount, msgSz]
  split
  · rename_i positive
    rw [Int.tmod_eq_emod_of_nonneg (by omega)]
    omega
  · rename_i negative
    rw [← Int.neg_neg ((claim.toNat : Int) % (2 ^ 32 : Nat) - (2 ^ 32 : Nat)), Int.neg_tmod,
      Int.tmod_eq_emod_of_nonneg (by omega)]
    omega

/-- A call stores its message in its own slot exactly if its number is not negative as an `int`, or
is a multiple of the number of slots. -/
theorem inside_iff (claim : UInt64) (msg : List UInt8) :
    (∀ address, (logWrite args channel claim msg).Covers address →
      InSlot args channel claim.toNat address) ↔
      claim.toNat % 2 ^ 32 < 2 ^ 31 ∨ msgCount ∣ claim.toNat := by
  have buffer := @buf_pos args channel
  rw [← logIdx_eq_iff]
  simp only [Write.Covers, logWrite, Write.ofBytes_offset, Write.ofBytes_size, length_slotBytes,
    InSlot]
  constructor
  · intro inside
    have size : 0 < msgSz := by decide
    have first := inside ((channel.buf args : Int) + (logIdx claim).toInt).toNat (by omega)
    have last := inside (((channel.buf args : Int) + (logIdx claim).toInt).toNat + (msgSz - 1))
      (by omega)
    omega
  · intro same address covered
    omega

theorem logWrite_eq (few : index ≤ 2 ^ 31) (msg : List UInt8) :
    logWrite args channel (UInt64.ofNat index) msg =
      Write.ofBytes (slot args channel index) (slotBytes msg) := by
  have number : (UInt64.ofNat index).toNat = index := by
    rw [UInt64.toNat_ofNat']
    omega
  have own : (logIdx (UInt64.ofNat index)).toInt = (index % msgCount * msgSz : Nat) := by
    have shown := logIdx_eq_iff (UInt64.ofNat index)
    rw [number] at shown
    apply shown.mpr
    rw [msgCount]
    omega
  rw [logWrite, own, slot]
  congr 1

/-- A reader looks for a message in the slot of its cursor. -/
theorem readPtr_eq {cursor : Int64} (low : 0 ≤ cursor.toInt) :
    readPtr args channel cursor = slot args channel cursor.toInt.toNat := by
  have offset : (cursor % 16384 * 128).toInt = cursor.toInt % 16384 * 128 := by
    rw [Int64.toInt_mul, Int64.toInt_mod, show (16384 : Int64).toInt = 16384 from rfl,
      show (128 : Int64).toInt = 128 from rfl, Int.tmod_eq_emod_of_nonneg low]
    exact Int.bmod_eq_of_le (by omega) (by omega)
  rw [readPtr, offset, slot, msgCount, msgSz]
  omega

/-- Slots of different channels or residues are apart. -/
theorem slot_apart {other : Channel} {older : Nat}
    (different : channel ≠ other ∨ index % msgCount ≠ older % msgCount) :
    slot args channel index + msgSz ≤ slot args other older ∨
      slot args other older + msgSz ≤ slot args channel index := by
  have low := Nat.mod_lt index (show 0 < msgCount by decide)
  have older_low := Nat.mod_lt older (show 0 < msgCount by decide)
  rw [slot, slot]
  rw [msgCount] at *
  rw [msgSz] at *
  cases channel <;> cases other <;> simp only [buf_debug, buf_msg] at * <;> grind

/-- What a slot holds does not change when another one is written. -/
theorem bytesAt_slot_of_apart {other : Channel} {older : Nat} (memory : Memory) (msg : List UInt8)
    (different : channel ≠ other ∨ index % msgCount ≠ older % msgCount) :
    bytesAt ((Write.ofBytes (slot args channel index) (slotBytes msg)).apply memory)
      (slot args other older) msgSz = bytesAt memory (slot args other older) msgSz := by
  have apart := @slot_apart args _ _ _ _ different
  apply bytesAt_congr
  intro address low high
  apply Write.apply_of_not_covers
  simp only [Write.Covers, Write.ofBytes_offset, Write.ofBytes_size, length_slotBytes]
  omega

theorem bytesAt_slot (memory : Memory) (msg : List UInt8) :
    bytesAt ((Write.ofBytes (slot args channel index) (slotBytes msg)).apply memory)
      (slot args channel index) msgSz = slotBytes msg := by
  have stored := bytesAt_ofBytes memory (slot args channel index) (slotBytes msg)
  rwa [length_slotBytes] at stored

end Slots

/-! ## Invariants -/

/-- A reader stands among the messages and was given what it should. -/
structure Follows (messages : List (List UInt8)) (cursor : Int64) (returned : List (List UInt8)) :
    Prop where
  low : 0 ≤ cursor.toInt
  high : cursor.toInt ≤ messages.length
  in_order : InOrder messages cursor returned

/-- The counters count the messages, and each message is stored under its own number. -/
structure Ring.Counted (args : Nat) (channel : Channel) (ring : Ring Reader) : Prop where
  claim : ring.claim = UInt64.ofNat ring.messages.length
  count : ring.count = UInt64.ofNat ring.messages.length
  stores : ring.stores = ring.messages.mapIdx fun index msg =>
    logWrite args channel (UInt64.ofNat index) msg

/-- The slots hold the newest messages, and the readers have been given what they should. -/
structure Ring.Kept (args : Nat) (channel : Channel) (memory : Memory) (ring : Ring Reader) :
    Prop where
  holds : ∀ index < ring.messages.length, ring.messages.length ≤ index + msgCount →
    bytesAt memory (slot args channel index) msgSz = slotBytes (ring.messages.getD index [])
  follows : ∀ reader, Follows ring.messages (ring.cursor reader) (ring.returned reader)

section Invariants

variable {args : Nat} {channel : Channel} {ring : Ring Reader} {memory : Memory}

theorem Follows.log {messages returned : List (List UInt8)} {cursor : Int64}
    (follows : Follows messages cursor returned) (msg : List UInt8) :
    Follows (messages ++ [msg]) cursor returned where
  low := follows.low
  high := by
    have before := follows.high
    rw [List.length_append, List.length_singleton]
    push_cast
    omega
  in_order := by
    obtain ⟨indices, given, rfl⟩ := follows.in_order
    refine ⟨indices, given.mono (by simp), ?_⟩
    apply List.map_congr_left
    intro index mem
    have below := given.below index mem
    have high := follows.high
    rw [List.getD_append _ _ _ _ (by omega)]

/-- A reader is given a message that is among the newest, at its cursor or behind it. -/
theorem Follows.give {messages returned : List (List UInt8)} {cursor target : Int64}
    (follows : Follows messages cursor returned) (few : messages.length < 2 ^ 63)
    (behind : cursor.toInt < messages.length)
    (caught : target.toInt = max cursor.toInt (messages.length - 16384)) :
    Follows messages (target + 1)
      (returned ++ [slotBytes (messages.getD target.toInt.toNat [])]) := by
  have low := follows.low
  have next : (target + 1).toInt = target.toInt + 1 := by
    rw [Int64.toInt_add, show (1 : Int64).toInt = 1 from rfl]
    exact Int.bmod_eq_of_le (by omega) (by omega)
  obtain ⟨indices, given, rfl⟩ := follows.in_order
  refine ⟨by omega, by omega, indices ++ [target.toInt.toNat], ?_, ?_⟩
  · rw [next, show (target.toInt + 1).toNat = target.toInt.toNat + 1 by omega]
    apply given.advance
    · omega
    · intro index after before
      rw [msgCount]
      omega
  · rw [List.map_append]
    rfl

theorem Ring.Counted.log (counted : ring.Counted args channel) (msg : List UInt8) :
    (ring.log msg (logWrite args channel ring.claim msg)).Counted args channel where
  claim := by simp [Ring.log, counted.claim]
  count := by simp [Ring.log, counted.count]
  stores := by simp [Ring.log, counted.stores, counted.claim, List.mapIdx_concat]

theorem Ring.Counted.give [DecidableEq Reader] (counted : ring.Counted args channel)
    (reader : Reader) (cursor : Int64) (msg : List UInt8) :
    (ring.give reader cursor msg).Counted args channel :=
  ⟨counted.claim, counted.count, counted.stores⟩

/-- The newest message takes the slot of the one that is a ring older. -/
theorem Ring.Kept.log (kept : ring.Kept args channel memory) (msg : List UInt8) (write : Write) :
    (ring.log msg write).Kept args channel
      ((Write.ofBytes (slot args channel ring.messages.length) (slotBytes msg)).apply memory) where
  holds := by
    intro index below recent
    simp only [Ring.log, List.length_append, List.length_singleton] at below recent ⊢
    rcases Nat.lt_or_ge index ring.messages.length with earlier | own
    · rw [bytesAt_slot_of_apart, List.getD_append _ _ _ _ earlier]
      · exact kept.holds index earlier (by omega)
      · right
        exact @mod_ne_of_window msgCount index _ _ (by omega) (by omega) (by omega) (by omega)
          (by omega)
    · obtain rfl : index = ring.messages.length := by omega
      rw [bytesAt_slot, List.getD_append_right _ _ _ _ le_rfl, Nat.sub_self]
      rfl
  follows reader := (kept.follows reader).log msg

/-- A ring is kept when a slot of the other one is written. -/
theorem Ring.Kept.other {other : Channel} {index : Nat} (kept : ring.Kept args channel memory)
    (different : other ≠ channel) (msg : List UInt8) :
    ring.Kept args channel
      ((Write.ofBytes (slot args other index) (slotBytes msg)).apply memory) where
  holds older below recent := by
    rw [bytesAt_slot_of_apart _ _ (.inl different)]
    exact kept.holds older below recent
  follows := kept.follows

/-- The head that a reader loads. -/
theorem Ring.Counted.head (counted : ring.Counted args channel)
    (few : ring.messages.length < 2 ^ 63) :
    ring.count.toInt64.toInt = ring.messages.length := by
  have number : ring.count.toNat = ring.messages.length := by
    rw [counted.count, UInt64.toNat_ofNat']
    omega
  rw [toInt_toInt64_of_lt (by omega), number]

theorem catchUp_toInt {head cursor : Int64} (low : 0 ≤ cursor.toInt)
    (behind : cursor.toInt ≤ head.toInt) :
    (catchUp head cursor).toInt = max cursor.toInt (head.toInt - 16384) := by
  have word := head.toInt_lt
  have start : (head - 16384).toInt = head.toInt - 16384 := by
    rw [Int64.toInt_sub, show (16384 : Int64).toInt = 16384 from rfl]
    exact Int.bmod_eq_of_le (by omega) (by omega)
  rw [catchUp]
  split
  · rename_i lapped
    rw [gt_iff_lt, gt_iff_lt, Int64.lt_iff_toInt_lt, Int64.lt_iff_toInt_lt, start] at lapped
    omega
  · rename_i recent
    rw [gt_iff_lt, gt_iff_lt, Int64.lt_iff_toInt_lt, Int64.lt_iff_toInt_lt, start,
      show (16384 : Int64).toInt = 16384 from rfl] at recent
    omega

/-- A reader that finds a message is given what the slot of one of the newest holds. -/
theorem Ring.Kept.give [DecidableEq Reader] (kept : ring.Kept args channel memory)
    (counted : ring.Counted args channel) (few : ring.messages.length < 2 ^ 63) {reader : Reader}
    (found : ¬ring.cursor reader ≥ ring.count.toInt64) :
    let cursor := catchUp ring.count.toInt64 (ring.cursor reader)
    (ring.give reader cursor (bytesAt memory (readPtr args channel cursor) msgSz)).Kept args channel
      memory := by
  intro cursor
  have head := counted.head few
  have low := (kept.follows reader).low
  have behind : (ring.cursor reader).toInt < ring.messages.length := by
    rw [ge_iff_le, Int64.le_iff_toInt_le, head] at found
    omega
  have caught : cursor.toInt = max (ring.cursor reader).toInt (ring.messages.length - 16384) := by
    rw [catchUp_toInt low (by omega), head]
  have shown : bytesAt memory (readPtr args channel cursor) msgSz =
      slotBytes (ring.messages.getD cursor.toInt.toNat []) := by
    rw [readPtr_eq (by omega)]
    exact kept.holds _ (by omega) (by rw [msgCount]; omega)
  rw [shown]
  refine ⟨kept.holds, ?_⟩
  intro other
  rcases eq_or_ne other reader with rfl | different
  · have given := (kept.follows other).give few behind caught
    simpa [Ring.give] using given
  · have unchanged := kept.follows other
    simpa [Ring.give, Function.update_of_ne different] using unchanged

end Invariants

/-! ## Runs -/

/-- The invariant of a run. -/
structure State.Inv (args : Nat) (state : State Reader) : Prop where
  counted : ∀ channel, (state.rings channel).Counted args channel
  /-- As long as no number was negative as an `int`. -/
  kept : (∀ channel, (state.rings channel).messages.length ≤ 2 ^ 31 + 1) →
    ∀ channel, (state.rings channel).Kept args channel state.memory

section Runs

variable {args : Nat} {state : State Reader}

theorem State.Inv.init (memory : Memory) : (State.init memory : State Reader).Inv args where
  counted channel := ⟨rfl, rfl, rfl⟩
  kept _ channel := by
    refine ⟨by simp [State.init], fun reader => ⟨le_rfl, le_rfl, [], Given.nil, rfl⟩⟩

theorem State.Inv.log (inv : state.Inv args) (channel : Channel) (msg : List UInt8) :
    (state.log args channel msg).Inv args where
  counted := (Function.forall_update_iff state.rings fun other ring => ring.Counted args other).mpr
    ⟨(inv.counted channel).log msg, fun other _ => inv.counted other⟩
  kept := by
    intro few
    obtain ⟨own, others⟩ := (Function.forall_update_iff state.rings fun _ ring =>
      ring.messages.length ≤ 2 ^ 31 + 1).mp few
    rw [Ring.log, List.length_append, List.length_singleton] at own
    have kept := inv.kept ((and_forall_ne channel).mp ⟨by omega, others⟩)
    have stored : (state.log args channel msg).memory =
        (Write.ofBytes (slot args channel (state.rings channel).messages.length)
          (slotBytes msg)).apply state.memory := by
      simp only [State.log]
      rw [(inv.counted channel).claim, logWrite_eq (by omega)]
    rw [stored]
    exact (Function.forall_update_iff state.rings fun other ring => ring.Kept args other _).mpr
      ⟨(kept channel).log msg _, fun other different => (kept other).other different.symm msg⟩

variable [DecidableEq Reader]

theorem State.Inv.getnext (inv : state.Inv args) (channel : Channel) (reader : Reader) :
    (state.getnext args channel reader).Inv args := by
  simp only [State.getnext]
  split
  · exact inv
  · rename_i found
    refine ⟨?_, ?_⟩
    · exact (Function.forall_update_iff state.rings fun other ring =>
        ring.Counted args other).mpr
          ⟨(inv.counted channel).give reader _ _, fun other _ => inv.counted other⟩
    · intro few
      -- a reader leaves the messages as they are
      obtain ⟨own, others⟩ := (Function.forall_update_iff state.rings fun _ ring =>
        ring.messages.length ≤ 2 ^ 31 + 1).mp few
      have before : (state.rings channel).messages.length ≤ 2 ^ 31 + 1 := own
      have kept := inv.kept ((and_forall_ne channel).mp ⟨before, others⟩)
      exact (Function.forall_update_iff state.rings fun other ring =>
        ring.Kept args other state.memory).mpr
          ⟨(kept channel).give (inv.counted channel) (by omega) found, fun other _ => kept other⟩

theorem inv_reached (reached : (machine args Reader).Reached state) : state.Inv args := by
  refine reached.invariant (State.Inv args) ?_ ?_
  · rintro _ ⟨memory, rfl⟩
    exact State.Inv.init memory
  · rintro before label after inv - taken
    obtain rfl := Option.some.inj taken
    cases label with
    | log channel msg => exact inv.log channel msg
    | getnext channel reader => exact inv.getnext channel reader

/-- Message 2^31 + 1 is not stored in its slot. -/
theorem few_of_sound (reached : (machine args Reader).Reached state) (sound : state.Sound args)
    (channel : Channel) : (state.rings channel).messages.length ≤ 2 ^ 31 + 1 := by
  have inv := inv_reached reached
  by_contra many
  rw [not_le] at many
  have inside := (sound channel).inside (2 ^ 31 + 1)
  rw [(inv.counted channel).stores, List.getElem?_mapIdx, List.getElem?_eq_getElem many,
    Option.map_some] at inside
  have own := (inside_iff (UInt64.ofNat (2 ^ 31 + 1)) _).mp (inside _ rfl)
  revert own
  decide

/-- In every run, messages are stored in their slots and readers are given them in order exactly if
no ring was given more than 2^31 + 1 messages. -/
theorem sound_iff_few (reached : (machine args Reader).Reached state) :
    state.Sound args ↔
      ∀ channel, (state.rings channel).messages.length ≤ 2 ^ 31 + 1 := by
  have inv := inv_reached reached
  constructor
  · exact fun sound => few_of_sound reached sound
  · intro few channel
    have kept := inv.kept few channel
    refine ⟨?_, ?_, fun reader => (kept.follows reader).in_order⟩
    · intro index write stored
      rw [(inv.counted channel).stores, List.getElem?_mapIdx, Option.map_eq_some_iff] at stored
      obtain ⟨msg, found, rfl⟩ := stored
      have below := (List.getElem?_eq_some_iff.mp found).1
      have bound := few channel
      have number : (UInt64.ofNat index).toNat = index := by
        rw [UInt64.toNat_ofNat']
        omega
      have own := (@inside_iff args channel (UInt64.ofNat index) msg).mpr
      rw [number] at own
      apply own
      rw [msgCount]
      omega
    · intro index below address low high
      have bound := few channel
      have number : (Int64.ofNat index).toInt = index := Int64.toInt_ofNat_of_lt (by omega)
      rw [readPtr_eq (by omega), number, Int.toNat_natCast, slot] at low high
      exact ⟨low, high⟩

/-- A message is logged and read. -/
theorem sound_of_oneMessage :
    (next 0 (next 0 (State.init fun _ => 0) (.log .debug [72, 105])) (.getnext .debug ()) :
      State Unit).Sound 0 := by
  refine (sound_iff_few (reached_of_run ⟨fun _ => 0, rfl⟩
    [.log .debug [72, 105], .getnext .debug ()] rfl)).mpr ?_
  intro channel
  cases channel
  · change 1 ≤ _
    omega
  · exact Nat.zero_le _

/-- There are runs with any number of messages. -/
theorem reached_messages (args count : Nat) :
    ∃ state : State Reader, (machine args Reader).Reached state ∧
      (state.rings .debug).messages.length = count := by
  induction count with
  | zero => exact ⟨State.init fun _ => 0, .start ⟨_, rfl⟩, rfl⟩
  | succ count ih =>
      obtain ⟨state, reached, length⟩ := ih
      refine ⟨next args state (.log .debug []), .step reached trivial rfl, ?_⟩
      simp [next, State.log, Ring.log, length]

/-- The message with the number 2^31 + 1 is stored some two megabytes in front of the buffer. -/
theorem not_sound_of_negativeClaim :
    (logIdx (UInt64.ofNat (2 ^ 31 + 1))).toInt = -2097024 ∧
      ¬∀ args, ∀ state : State Unit, (machine args Unit).Reached state → state.Sound args := by
  refine ⟨by decide, ?_⟩
  intro always
  obtain ⟨state, reached, length⟩ := @reached_messages Unit _ 0 (2 ^ 31 + 2)
  have few := few_of_sound reached (always 0 state reached) .debug
  omega

end Runs

end LogRing
end EScp
