import EScp.Layout

/-!
# The network object and its calls

`struct network_obj` of `dtn.c` keeps the nonce of the next frame in a union: `iv[16]` shares its
bytes with the struct `{uint32 iv_salt; uint64 iv_incr; uint32 iv_one}`, which is not packed.
`network_send` writes `iv_incr` as the header of a frame and begins the encryption with the first
12 bytes of `iv`; `network_recv` overwrites `iv_incr` with the header it reads.
-/

namespace EScp
namespace Network

open Layout

/-! ## The union -/

/-- The members of the struct inside the union. -/
inductive IvField where
  | ivSalt | ivIncr | ivOne
  deriving DecidableEq

/-- The size of a member in bytes. -/
def IvField.size : IvField → Nat
  | .ivSalt | .ivOne => 4
  | .ivIncr => 8

/-- The offset of a member inside the union. -/
def ivOffset (field : IvField) : Nat :=
  offsetOf false ([.ivSalt, .ivIncr, .ivOne].map fun field => ⟨field, field.size, field.size⟩)
    field

/-- The counter lies behind four bytes of padding, so the nonce holds only its low half. -/
@[simp] theorem ivOffset_ivIncr : ivOffset .ivIncr = 8 := by decide

@[simp] theorem ivOffset_ivSalt : ivOffset .ivSalt = 0 := by decide

@[simp] theorem ivOffset_ivOne : ivOffset .ivOne = 16 := by decide

/-! ## The object -/

/-- What the calls read of `struct dtn_args`. -/
structure DtnArgs where
  doServer : Bool
  block : UInt32

/-- What the calls read and write of `struct network_obj`. -/
structure NetworkObj where
  doCrypto : Bool
  block : UInt32
  /-- The pointer `dtn`, null on the sender. -/
  dtn : Option DtnArgs
  iv : Memory
  /-- Whether `fob` has been set. -/
  fob : Bool

/-- The multi-character constant `'meta'`. -/
def metaBlock : UInt32 := 0x6d657461

namespace NetworkObj

/-- The member `iv_incr`. -/
def ivIncr (knob : NetworkObj) : BitVec 64 :=
  BitVec.ofNat 64 (load knob.iv (ivOffset .ivIncr) IvField.ivIncr.size)

/-- Assign the member `iv_incr`. -/
def setIvIncr (knob : NetworkObj) (value : BitVec 64) : NetworkObj :=
  { knob with iv := store knob.iv (ivOffset .ivIncr) IvField.ivIncr.size value.toNat }

/-- The nonce that `isal_aes_gcm_init_128` takes from `iv`. -/
def nonce (knob : NetworkObj) : List UInt8 := bytesAt knob.iv 0 12

/-- The low half of the counter, the part that reaches the nonce. -/
def low (knob : NetworkObj) : Nat := load knob.iv 8 4

/-- The bytes before the counter: the salt and the padding. -/
def lead (knob : NetworkObj) : Nat := load knob.iv 0 8

/-- A zeroed object with the salt and the flag that both init functions set. -/
def ofSalt (doCrypto : Bool) (salt : BitVec 32) : NetworkObj where
  doCrypto := doCrypto
  block := 0
  dtn := none
  iv := store (fun _ => 0) (ivOffset .ivSalt) IvField.ivSalt.size salt.toNat
  fob := false

/-- `iv_one = 1`. -/
def setIvOne (knob : NetworkObj) : NetworkObj :=
  { knob with iv := store knob.iv (ivOffset .ivOne) IvField.ivOne.size 1 }

end NetworkObj

/-- The object that `network_inittx` returns on an encrypted connection. -/
def networkInitTx (salt : BitVec 32) : NetworkObj := NetworkObj.ofSalt true salt

/-- The object that `network_initrx` returns on an encrypted connection, with the pointer that
`rx_worker` sets next. -/
def networkInitRx (salt : BitVec 32) (dtn : DtnArgs) : NetworkObj :=
  { (NetworkObj.ofSalt true salt).setIvOne with dtn := some dtn }

/-! ## Sending -/

def isReceiver : BitVec 64 := 1 <<< 63

def isFihdrShort : BitVec 64 := 1 <<< 62

def fihdrShort : UInt16 := 16

def fihdrMeta : UInt16 := 3

/-- The arguments of `network_send` that its control flow reads. -/
structure SendArgs where
  isPartial : Bool
  subheader : UInt16

/-- What the calls of `write_fixed` inside one `network_send` return, as `int`. -/
structure Writes where
  /-- For the header, or for the subheader of an unencrypted connection. -/
  header : Int
  payload : Int
  tag : Int

/-- The counter with the flag of its side. -/
def NetworkObj.sided (knob : NetworkObj) : BitVec 64 :=
  match knob.dtn with
  | some dtn => if dtn.doServer then knob.ivIncr ||| isReceiver else knob.ivIncr
  | none => knob.ivIncr

/-- The counter with the flags that `network_send` gives to a frame. -/
def NetworkObj.stamp (knob : NetworkObj) (subheader : UInt16) : BitVec 64 :=
  if subheader = fihdrShort then knob.sided ||| isFihdrShort else knob.sided &&& ~~~isFihdrShort

/-- The object after `network_send` has counted a frame in. -/
def NetworkObj.count (knob : NetworkObj) (subheader : UInt16) : NetworkObj :=
  knob.setIvIncr (knob.stamp subheader + 1)

/-- How one call of `network_send` ends. -/
inductive Sent where
  /-- `VRFY` ends the process. -/
  | exit
  /-- The header of a frame could not be written: the call returns -1 and leaves `did_header`
  raised. -/
  | refused (knob : NetworkObj)
  /-- The call returns `value`; `nonce` is the one given to the frame, if the call began one. -/
  | done (knob : NetworkObj) (didHeader : Bool) (value : BitVec 64) (nonce : Option (List UInt8))

/-- The part of `network_send` after the header: the value returned and `did_header`. -/
def sendPayload (args : SendArgs) (writes : Writes) (sent : BitVec 64) : BitVec 64 × Bool :=
  let res := BitVec.ofInt 64 writes.payload
  if res < 1 then
    (res, true)
  else
    let sent := sent + res
    if args.isPartial then
      (sent, true)
    else
      let res := res + BitVec.ofInt 64 writes.tag
      if res < 1 then (res, true) else (sent + res, false)

/-- `network_send`.  `sent` is unsigned, so a header write that returned -1 does not look short. -/
def networkSend (knob : NetworkObj) (didHeader : Bool) (args : SendArgs) (writes : Writes) :
    Sent :=
  if knob.doCrypto then
    if didHeader then
      let (value, didHeader) := sendPayload args writes 0
      .done knob didHeader value none
    else
      let knob := knob.count args.subheader
      if knob.ivIncr.getLsbD 61 then
        .exit
      else
        let sent := BitVec.ofInt 64 writes.header
        if sent < 8 then
          .refused knob
        else
          let (value, didHeader) := sendPayload args writes sent
          .done knob didHeader value (some knob.nonce)
  else
    let sent := BitVec.ofInt 64 writes.payload
    if sent < 1 then
      .done knob true sent none
    else
      .done knob args.isPartial sent none

/-- The call begins a frame. -/
def Begins (knob : NetworkObj) (didHeader : Bool) (args : SendArgs) (writes : Writes) : Prop :=
  knob.doCrypto = true ∧ didHeader = false ∧
    (knob.count args.subheader).ivIncr.getLsbD 61 = false ∧
    ¬BitVec.ofInt 64 writes.header < 8

instance (knob : NetworkObj) (didHeader : Bool) (args : SendArgs) (writes : Writes) :
    Decidable (Begins knob didHeader args writes) := by
  unfold Begins
  infer_instance

/-! ## Receiving -/

/-- `meta_init`, as far as it changes the object. -/
def NetworkObj.metaInit (knob : NetworkObj) : NetworkObj := { knob with block := metaBlock }

/-- What the first call of `network_recv` does to the object of a receiver. -/
def NetworkObj.attach (knob : NetworkObj) : NetworkObj :=
  match knob.dtn with
  | some dtn => if knob.fob then knob else { knob with block := dtn.block, fob := true }
  | none => knob

/-- `network_recv` up to the header of a metadata frame, after the header `aad` has been read: the
object, and whether `meta_init` ran.  What follows reads the rest of the frame and leaves these
members alone. -/
def networkRecv (knob : NetworkObj) (aad : BitVec 64) : NetworkObj × Bool :=
  let subheader := if aad &&& isFihdrShort ≠ 0 then fihdrShort else fihdrMeta
  let knob := (knob.setIvIncr aad).attach
  if subheader = fihdrMeta ∧ knob.block ≠ metaBlock then (knob.metaInit, true) else (knob, false)

/-! ## What the calls do to the nonce -/

namespace NetworkObj

theorem low_lt (knob : NetworkObj) : knob.low < 2 ^ 32 := load_lt _ _ _

/-- A nonce is determined by the bytes before the counter and its low half. -/
theorem nonce_eq (knob : NetworkObj) :
    knob.nonce = bytesOf 12 (knob.lead + 256 ^ 8 * knob.low) := by
  rw [nonce, bytesAt_eq, show 12 = 8 + 4 by rfl, load_add]
  rfl

theorem ivIncr_toNat (knob : NetworkObj) : knob.ivIncr.toNat = load knob.iv 8 8 := by
  have fits := load_lt knob.iv 8 8
  rw [ivIncr, ivOffset_ivIncr, BitVec.toNat_ofNat]
  exact Nat.mod_eq_of_lt fits

theorem low_eq (knob : NetworkObj) : knob.low = (knob.ivIncr.setWidth 32).toNat := by
  rw [BitVec.toNat_setWidth, ivIncr_toNat]
  exact load_prefix _ _ (by decide)

@[simp] theorem setIvIncr_ivIncr (knob : NetworkObj) (value : BitVec 64) :
    (knob.setIvIncr value).ivIncr = value := by
  apply BitVec.eq_of_toNat_eq
  rw [ivIncr_toNat, setIvIncr, ivOffset_ivIncr]
  exact (load_store _ _ _ _).trans (Nat.mod_eq_of_lt value.isLt)

@[simp] theorem setIvIncr_lead (knob : NetworkObj) (value : BitVec 64) :
    (knob.setIvIncr value).lead = knob.lead :=
  load_store_disjoint _ (by simp)

theorem sided_setWidth (knob : NetworkObj) :
    knob.sided.setWidth 32 = knob.ivIncr.setWidth 32 := by
  have receiver : isReceiver.setWidth 32 = 0#32 := by decide
  rw [sided]
  split
  · split
    · rw [BitVec.setWidth_or, receiver, BitVec.or_zero]
    · rfl
  · rfl

/-- The flag bits lie above the low half. -/
theorem stamp_setWidth (knob : NetworkObj) (subheader : UInt16) :
    (knob.stamp subheader).setWidth 32 = knob.ivIncr.setWidth 32 := by
  have short : isFihdrShort.setWidth 32 = 0#32 := by decide
  have long : (~~~isFihdrShort).setWidth 32 = BitVec.allOnes 32 := by decide
  rw [stamp]
  split
  · rw [BitVec.setWidth_or, short, BitVec.or_zero, sided_setWidth]
  · rw [BitVec.setWidth_and, long, BitVec.and_allOnes, sided_setWidth]

/-- A counted frame moves the low half by one. -/
theorem count_low (knob : NetworkObj) (subheader : UInt16) :
    (knob.count subheader).low = (knob.low + 1) % 2 ^ 32 := by
  have counted : (knob.stamp subheader + 1).setWidth 32 = knob.ivIncr.setWidth 32 + 1 := by
    rw [BitVec.setWidth_add _ _ (by decide), stamp_setWidth]
    rfl
  rw [low_eq, count, setIvIncr_ivIncr, counted, BitVec.toNat_add, ← low_eq]
  rfl

@[simp] theorem count_lead (knob : NetworkObj) (subheader : UInt16) :
    (knob.count subheader).lead = knob.lead :=
  setIvIncr_lead _ _

/-- The init functions leave the padding and the counter zero. -/
theorem ofSalt_lead (doCrypto : Bool) (salt : BitVec 32) :
    (ofSalt doCrypto salt).lead = salt.toNat := by
  have stored := load_store (fun _ => 0) 0 4 salt.toNat
  have padding := @load_store_disjoint (fun _ => 0) 0 4 salt.toNat 4 4 (by omega)
  have fits : salt.toNat < 256 ^ 4 := salt.isLt
  rw [Nat.mod_eq_of_lt fits] at stored
  rw [load_zero] at padding
  rw [lead, show 8 = 4 + 4 by rfl, load_add]
  change load (store (fun _ => 0) 0 4 salt.toNat) 0 4 +
    256 ^ 4 * load (store (fun _ => 0) 0 4 salt.toNat) 4 4 = salt.toNat
  rw [stored, padding, Nat.mul_zero, Nat.add_zero]

theorem ofSalt_low (doCrypto : Bool) (salt : BitVec 32) : (ofSalt doCrypto salt).low = 0 :=
  (load_store_disjoint _ (by simp [IvField.size])).trans (load_zero _ _)

@[simp] theorem setIvOne_lead (knob : NetworkObj) : knob.setIvOne.lead = knob.lead :=
  load_store_disjoint _ (by simp)

@[simp] theorem setIvOne_low (knob : NetworkObj) : knob.setIvOne.low = knob.low :=
  load_store_disjoint _ (by simp)

theorem ofSalt_ivIncr (doCrypto : Bool) (salt : BitVec 32) : (ofSalt doCrypto salt).ivIncr = 0 := by
  apply BitVec.eq_of_toNat_eq
  rw [ivIncr_toNat]
  exact (load_store_disjoint _ (by simp [IvField.size])).trans (load_zero _ _)

@[simp] theorem setIvOne_ivIncr (knob : NetworkObj) : knob.setIvOne.ivIncr = knob.ivIncr := by
  apply BitVec.eq_of_toNat_eq
  rw [ivIncr_toNat, ivIncr_toNat]
  exact load_store_disjoint _ (by simp)

/-! The flags and the order of the counters of long frames -/

theorem isReceiver_getLsbD {index : Nat} (inside : index < 64) :
    isReceiver.getLsbD index = decide (63 = index) := by
  have value : isReceiver = BitVec.ofNat 64 (2 ^ 63) := by decide
  rw [value, BitVec.getLsbD_ofNat, Nat.testBit_two_pow]
  simp [inside]

theorem isFihdrShort_getLsbD {index : Nat} (inside : index < 64) :
    isFihdrShort.getLsbD index = decide (62 = index) := by
  have value : isFihdrShort = BitVec.ofNat 64 (2 ^ 62) := by decide
  rw [value, BitVec.getLsbD_ofNat, Nat.testBit_two_pow]
  simp [inside]

theorem sided_getLsbD_of_ne (knob : NetworkObj) {index : Nat} (ne : 63 ≠ index) :
    knob.sided.getLsbD index = knob.ivIncr.getLsbD index := by
  by_cases inside : index < 64
  · rw [sided]
    split
    · split
      · rw [BitVec.getLsbD_or, isReceiver_getLsbD inside, decide_eq_false ne, Bool.or_false]
      · rfl
    · rfl
  · rw [BitVec.getLsbD_of_ge _ _ (by omega), BitVec.getLsbD_of_ge _ _ (by omega)]

theorem sided_getLsbD_of_set (knob : NetworkObj) {index : Nat}
    (set : knob.ivIncr.getLsbD index = true) : knob.sided.getLsbD index = true := by
  rw [sided]
  split
  · split
    · rw [BitVec.getLsbD_or, set, Bool.true_or]
    · exact set
  · exact set

theorem stamp_meta (knob : NetworkObj) : knob.stamp fihdrMeta = knob.sided &&& ~~~isFihdrShort :=
  if_neg (by decide)

theorem stamp_meta_getLsbD (knob : NetworkObj) (index : Nat) :
    (knob.stamp fihdrMeta).getLsbD index = (decide (62 ≠ index) && knob.sided.getLsbD index) := by
  rw [stamp_meta]
  by_cases inside : index < 64
  · rw [BitVec.getLsbD_and, BitVec.getLsbD_not, isFihdrShort_getLsbD inside, decide_eq_true inside]
    simp [Bool.and_comm]
  · rw [BitVec.getLsbD_of_ge _ _ (by omega), BitVec.getLsbD_of_ge _ _ (by omega), Bool.and_false]

/-- A counter below the bit that `VRFY` tests stays below it under the flags of a long frame. -/
theorem stamp_meta_mod_lt (knob : NetworkObj) (below : knob.ivIncr.getLsbD 61 = false) :
    (knob.stamp fihdrMeta).toNat % 2 ^ 63 < 2 ^ 61 := by
  refine Nat.lt_pow_two_of_testBit _ fun index ge => ?_
  rw [Nat.testBit_mod_two_pow, BitVec.testBit_toNat, stamp_meta_getLsbD]
  rcases (by omega : index = 61 ∨ index = 62 ∨ 63 ≤ index) with rfl | rfl | out
  · rw [sided_getLsbD_of_ne _ (by decide), below]
    simp
  · simp
  · rw [decide_eq_false (by omega), Bool.false_and]

theorem count_meta_toNat (knob : NetworkObj) (below : knob.ivIncr.getLsbD 61 = false) :
    (knob.count fihdrMeta).ivIncr.toNat = (knob.stamp fihdrMeta).toNat + 1 := by
  have bound := stamp_meta_mod_lt knob below
  have width := (knob.stamp fihdrMeta).isLt
  rw [count, setIvIncr_ivIncr, BitVec.toNat_add]
  refine Nat.mod_eq_of_lt ?_
  change _ + 1 < _
  omega

/-- The counter of a long frame keeps the flag of short frames clear. -/
theorem count_meta_getLsbD (knob : NetworkObj) (below : knob.ivIncr.getLsbD 61 = false) :
    (knob.count fihdrMeta).ivIncr.getLsbD 62 = false := by
  have bound := stamp_meta_mod_lt knob below
  rw [← BitVec.testBit_toNat, count_meta_toNat knob below, Nat.testBit_eq_decide_div_mod_eq]
  refine decide_eq_false ?_
  omega

/-- A long frame after a long frame gets a larger counter. -/
theorem lt_count_meta (knob : NetworkObj) (below : knob.ivIncr.getLsbD 61 = false)
    (long : knob.ivIncr.getLsbD 62 = false) :
    knob.ivIncr.toNat < (knob.count fihdrMeta).ivIncr.toNat := by
  rw [count_meta_toNat knob below, Nat.lt_add_one_iff]
  refine Nat.le_of_testBit fun index set => ?_
  rw [BitVec.testBit_toNat] at set ⊢
  rw [stamp_meta_getLsbD, sided_getLsbD_of_set knob set, Bool.and_true]
  refine decide_eq_true ?_
  rintro rfl
  rw [long] at set
  cases set

theorem and_isFihdrShort_ne_zero {aad : BitVec 64} (short : aad.getLsbD 62 = true) :
    aad &&& isFihdrShort ≠ 0 := by
  intro zero
  have bit : (aad &&& isFihdrShort).getLsbD 62 = true := by
    rw [BitVec.getLsbD_and, short, isFihdrShort_getLsbD (by decide)]
    rfl
  rw [zero] at bit
  exact absurd bit (by decide)

theorem stamp_short_mod_lt (knob : NetworkObj) (below : knob.ivIncr.getLsbD 61 = false) :
    (knob.stamp fihdrShort).toNat % 2 ^ 62 < 2 ^ 61 := by
  have stamp_eq : knob.stamp fihdrShort = knob.sided ||| isFihdrShort := if_pos rfl
  refine Nat.lt_pow_two_of_testBit _ fun index ge => ?_
  rw [Nat.testBit_mod_two_pow, BitVec.testBit_toNat]
  by_cases at_bit : index = 61
  · subst at_bit
    rw [stamp_eq, BitVec.getLsbD_or, sided_getLsbD_of_ne _ (by decide), below,
      isFihdrShort_getLsbD (by decide)]
    rfl
  · rw [decide_eq_false (by omega), Bool.false_and]

theorem stamp_short_mod_eq (knob : NetworkObj) :
    (knob.stamp fihdrShort).toNat % 2 ^ 61 = knob.ivIncr.toNat % 2 ^ 61 := by
  have stamp_eq : knob.stamp fihdrShort = knob.sided ||| isFihdrShort := if_pos rfl
  apply Nat.eq_of_testBit_eq
  intro index
  rw [Nat.testBit_mod_two_pow, Nat.testBit_mod_two_pow, BitVec.testBit_toNat, BitVec.testBit_toNat]
  by_cases low : index < 61
  · rw [stamp_eq, BitVec.getLsbD_or, sided_getLsbD_of_ne _ (by omega),
      isFihdrShort_getLsbD (by omega), @decide_eq_false (62 = index) _ (by omega), Bool.or_false]
  · rw [decide_eq_false low, Bool.false_and, Bool.false_and]

/-- A short frame counts by one, up to the bit that `VRFY` tests. -/
theorem count_short_mod (knob : NetworkObj) (below : knob.ivIncr.getLsbD 61 = false) :
    (knob.count fihdrShort).ivIncr.toNat % 2 ^ 62 = knob.ivIncr.toNat % 2 ^ 61 + 1 := by
  have bound := stamp_short_mod_lt knob below
  have low := stamp_short_mod_eq knob
  rw [count, setIvIncr_ivIncr, BitVec.toNat_add]
  change ((knob.stamp fihdrShort).toNat + 1) % 2 ^ 64 % 2 ^ 62 = _
  omega

/-- The counter of a short frame carries the flag of short frames. -/
theorem count_short_getLsbD (knob : NetworkObj) (below : knob.ivIncr.getLsbD 61 = false) :
    (knob.count fihdrShort).ivIncr.getLsbD 62 = true := by
  have bound := stamp_short_mod_lt knob below
  have width := (knob.stamp fihdrShort).isLt
  have flag : (knob.stamp fihdrShort).toNat.testBit 62 = true := by
    have stamp_eq : knob.stamp fihdrShort = knob.sided ||| isFihdrShort := if_pos rfl
    rw [BitVec.testBit_toNat, stamp_eq, BitVec.getLsbD_or,
      isFihdrShort_getLsbD (by decide)]
    simp
  rw [Nat.testBit_eq_decide_div_mod_eq, decide_eq_true_iff] at flag
  have value : (knob.count fihdrShort).ivIncr.toNat = (knob.stamp fihdrShort).toNat + 1 := by
    rw [count, setIvIncr_ivIncr, BitVec.toNat_add]
    refine Nat.mod_eq_of_lt ?_
    change _ + 1 < _
    omega
  rw [← BitVec.testBit_toNat, value, Nat.testBit_eq_decide_div_mod_eq, decide_eq_true_iff]
  omega

end NetworkObj

/-- Both init functions start the counter at zero. -/
theorem networkInitTx_ivIncr (salt : BitVec 32) : (networkInitTx salt).ivIncr = 0 :=
  NetworkObj.ofSalt_ivIncr true salt

theorem networkInitRx_ivIncr (salt : BitVec 32) (dtn : DtnArgs) :
    (networkInitRx salt dtn).ivIncr = 0 :=
  (NetworkObj.setIvOne_ivIncr _).trans (NetworkObj.ofSalt_ivIncr true salt)

/-- The ways in which a call of `network_send` can end. -/
theorem networkSend_cases (knob : NetworkObj) (didHeader : Bool) (args : SendArgs)
    (writes : Writes) :
    (¬Begins knob didHeader args writes ∧
        (networkSend knob didHeader args writes = .exit ∨
          networkSend knob didHeader args writes = .refused (knob.count args.subheader) ∨
          ∃ raised value, networkSend knob didHeader args writes =
            .done knob raised value none)) ∨
      (Begins knob didHeader args writes ∧
        ∃ raised value, networkSend knob didHeader args writes =
          .done (knob.count args.subheader) raised value
            (some (knob.count args.subheader).nonce)) := by
  rw [networkSend, Begins]
  split
  · rename_i crypto
    split
    · rename_i raised
      exact Or.inl ⟨by simp [raised], Or.inr (Or.inr ⟨_, _, rfl⟩)⟩
    · rename_i lowered
      dsimp only
      split
      · rename_i exceeded
        exact Or.inl ⟨by simp [exceeded], Or.inl rfl⟩
      · rename_i fits
        split
        · rename_i short
          exact Or.inl ⟨fun begins => begins.2.2.2 short, Or.inr (Or.inl rfl)⟩
        · rename_i written
          exact Or.inr ⟨⟨crypto, Bool.eq_false_iff.mpr lowered, Bool.eq_false_iff.mpr fits,
            written⟩, _, _, rfl⟩
  · rename_i plain
    refine Or.inl ⟨fun begins => plain begins.1, Or.inr (Or.inr ?_)⟩
    dsimp only
    split
    · exact ⟨_, _, rfl⟩
    · exact ⟨_, _, rfl⟩

theorem NetworkObj.attach_iv (knob : NetworkObj) : knob.attach.iv = knob.iv := by
  rw [attach]
  split
  · split <;> rfl
  · rfl

/-- A received header sets the counter and leaves the bytes before it. -/
theorem networkRecv_iv (knob : NetworkObj) (aad : BitVec 64) :
    (networkRecv knob aad).1.iv = (knob.setIvIncr aad).iv := by
  unfold networkRecv
  dsimp only
  generalize (if aad &&& isFihdrShort ≠ 0 then fihdrShort else fihdrMeta) = subheader
  split
  · exact NetworkObj.attach_iv _
  · exact NetworkObj.attach_iv _

end Network
end EScp
