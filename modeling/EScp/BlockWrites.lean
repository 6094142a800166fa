import EScp.FileContent

/-!
# Writing the blocks of a file

`tx_worker` lays the blocks of a file out at multiples of the block size that `start_escp` takes
from the command line.  `rx_worker` rounds the length of a block up to 4096 in `int` arithmetic and
writes that many bytes of its buffer at the offset of the block; the bytes after the block are left
over from earlier use.  `close_file` truncates the file to its size.
-/

namespace EScp
namespace BlockWrites

open Layout

/-! ## The code -/

/-- `args.block` as `start_escp` leaves it, from the number given with `--blocksize`. -/
def startEscp (blockSize : BitVec 64) : BitVec 32 :=
  let block := blockSize.setWidth 32
  if block.toInt < 256 * 1024 then 256 * 1024 else block

/-- The offset that `tx_worker` gives to the block `index`. -/
def txOffset (block : BitVec 32) (index : Nat) : BitVec 64 :=
  BitVec.ofNat 64 index * block.signExtend 64

/-- The length that `rx_worker` hands to `fob->set`, from the length `sz` of the block. -/
def rxSize (sz : BitVec 32) : BitVec 64 := ((sz + 4095#32) &&& ~~~4095#32).signExtend 64

/-- The write that `rx_worker` hands to the engine. -/
def rxWrite (offset : BitVec 64) (sz : BitVec 32) (buffer : Nat → UInt8) : Write :=
  ⟨offset.toNat, (rxSize sz).toNat, buffer⟩

/-- The length of the block `index` of a file of `size` bytes, as a whole read returns it. -/
def blockLength (block : BitVec 32) (size index : Nat) : Nat :=
  min block.toNat (size - index * block.toNat)

/-- The number of blocks of a file of `size` bytes. -/
def blockCount (block : BitVec 32) (size : Nat) : Nat := (size + block.toNat - 1) / block.toNat

/-- A block as it arrives: its index and what the buffer holds from earlier use. -/
structure Arrival where
  index : Nat
  stale : Nat → UInt8

/-- The buffer of an arriving block. -/
def Arrival.buffer (arrival : Arrival) (block : BitVec 32) (size : Nat) (content : Nat → UInt8) :
    Nat → UInt8 := fun position =>
  if position < blockLength block size arrival.index then
    content (arrival.index * block.toNat + position)
  else
    arrival.stale position

/-- The write of an arriving block. -/
def Arrival.write (arrival : Arrival) (block : BitVec 32) (size : Nat) (content : Nat → UInt8) :
    Write :=
  rxWrite (txOffset block arrival.index)
    (BitVec.ofNat 32 (blockLength block size arrival.index)) (arrival.buffer block size content)

/-- The file after all arrivals, closed by `close_file`. -/
def received (block : BitVec 32) (size : Nat) (content : Nat → UInt8)
    (arrivals : List Arrival) : File :=
  (File.empty.writeAll (arrivals.map fun arrival => arrival.write block size content)).truncate size

/-- Each block of the file arrives once. -/
def Whole (block : BitVec 32) (size : Nat) (arrivals : List Arrival) : Prop :=
  (arrivals.map Arrival.index).Perm (List.range (blockCount block size))

/-! ## Blocks that stay apart -/

/-- The byte range written for a block of length `length` lies in the range of the block. -/
def Inside (block : BitVec 32) (index length : Nat) : Prop :=
  index * block.toNat ≤ (txOffset block index).toNat ∧
    (txOffset block index).toNat + (rxSize (BitVec.ofNat 32 length)).toNat ≤
      (index + 1) * block.toNat

/-- Every write stays inside its block, writes of different blocks of a file are disjoint, and the
content received does not depend on the order of arrival. -/
structure Apart (block : BitVec 32) : Prop where
  inside : ∀ size < 2 ^ 63, ∀ index, index * block.toNat < size →
    ∀ length, 1 ≤ length → length ≤ block.toNat → Inside block index length
  disjoint : ∀ size < 2 ^ 63, ∀ left right : Nat, left * block.toNat < size →
    right * block.toNat < size → left ≠ right →
    ∀ lefts rights, 1 ≤ lefts → lefts ≤ block.toNat → 1 ≤ rights → rights ≤ block.toNat →
    ∀ address buffer,
      ¬((rxWrite (txOffset block left) (BitVec.ofNat 32 lefts) buffer).Covers address ∧
        (rxWrite (txOffset block right) (BitVec.ofNat 32 rights) buffer).Covers address)
  same_content : ∀ size < 2 ^ 63, ∀ content arrivals others, Whole block size arrivals →
    Whole block size others →
    received block size content arrivals = received block size content others

/-! ## Arithmetic of the code -/

theorem startEscp_bounds (blockSize : BitVec 64) :
    262144 ≤ (startEscp blockSize).toNat ∧ (startEscp blockSize).toNat < 2 ^ 31 := by
  unfold startEscp
  dsimp only
  split
  · decide
  · rename_i large
    have cases := BitVec.toInt_eq_toNat_cond (blockSize.setWidth 32)
    have fits := (blockSize.setWidth 32).isLt
    split at cases <;> omega

/-- Clearing the low twelve bits rounds down to a multiple of 4096. -/
theorem and_not_4095 (number : BitVec 32) :
    (number &&& ~~~4095#32).toNat = number.toNat / 4096 * 4096 := by
  have rounded : number &&& ~~~4095#32 = (number >>> 12) <<< 12 := by
    apply BitVec.eq_of_getLsbD_eq
    intro bit in_range
    have mask : (4095#32).getLsbD bit = decide (bit < 12) := by
      rw [show 4095#32 = BitVec.ofNat 32 (2 ^ 12 - 1) by rfl, BitVec.getLsbD_ofNat,
        Nat.testBit_two_pow_sub_one]
      simp [in_range]
    rw [BitVec.getLsbD_and, BitVec.getLsbD_not, mask, BitVec.getLsbD_shiftLeft,
      BitVec.getLsbD_ushiftRight]
    by_cases low : bit < 12
    · simp [low]
    · have high : 12 + (bit - 12) = bit := by omega
      simp [low, high, in_range]
  have fits := number.isLt
  rw [rounded, BitVec.toNat_shiftLeft, BitVec.toNat_ushiftRight, Nat.shiftRight_eq_div_pow,
    Nat.shiftLeft_eq, Nat.mod_eq_of_lt (by omega)]

/-- The rounded length, as the engine gets it; past 2^31 the sign fills the upper half. -/
theorem rxSize_toNat {length : Nat} (fits : length < 2 ^ 31) :
    (rxSize (BitVec.ofNat 32 length)).toNat =
      (length + 4095) / 4096 * 4096 + if length + 4095 < 2 ^ 31 then 0 else 2 ^ 64 - 2 ^ 32 := by
  have sum : (BitVec.ofNat 32 length + 4095#32).toNat = length + 4095 := by
    rw [BitVec.toNat_add, BitVec.toNat_ofNat, BitVec.toNat_ofNat]
    omega
  rw [rxSize, BitVec.toNat_signExtend, BitVec.toNat_setWidth, BitVec.msb_eq_decide, and_not_4095,
    sum, Nat.mod_eq_of_lt (by omega)]
  by_cases small : length + 4095 < 2 ^ 31
  · rw [if_neg (by simp; omega), if_pos small]
  · rw [if_pos (by simp; omega), if_neg small]

theorem txOffset_toNat {block : BitVec 32} (positive : 0 < block.toNat)
    (small : block.toNat < 2 ^ 31) {index : Nat} (fits : index * block.toNat < 2 ^ 63) :
    (txOffset block index).toNat = index * block.toNat := by
  have index_fits : index < 2 ^ 64 := by
    have := Nat.le_mul_of_pos_right index positive
    omega
  have extended : (block.signExtend 64).toNat = block.toNat := by
    rw [BitVec.toNat_signExtend, BitVec.toNat_setWidth, BitVec.msb_eq_decide,
      if_neg (by simp; omega)]
    omega
  rw [txOffset, BitVec.toNat_mul, BitVec.toNat_ofNat, extended, Nat.mod_eq_of_lt index_fits,
    Nat.mod_eq_of_lt (by omega)]

/-! ## Block sizes that are multiples of 4096 -/

section Multiple

variable {block : BitVec 32} (positive : 0 < block.toNat) (small : block.toNat < 2 ^ 31)

include positive small

/-- Rounding up stays inside a block whose size is a multiple of 4096. -/
theorem inside_of_dvd (multiple : 4096 ∣ block.toNat) {index length : Nat}
    (fits : index * block.toNat < 2 ^ 63) (short : length ≤ block.toNat) :
    Inside block index length := by
  obtain ⟨pages, block_eq⟩ := multiple
  have no_overflow : length + 4095 < 2 ^ 31 := by omega
  rw [Inside, txOffset_toNat positive small fits, rxSize_toNat (by omega), if_pos no_overflow,
    Nat.add_mul, Nat.one_mul]
  omega

/-- A full block is written inside its range only when the block size is a multiple of 4096. -/
theorem dvd_of_inside (inside : Inside block 0 block.toNat) : 4096 ∣ block.toNat := by
  have within := inside.2
  rw [txOffset_toNat positive small (by omega), rxSize_toNat small] at within
  split at within <;> omega

theorem index_lt_of_whole {size : Nat} {arrivals : List Arrival}
    (whole : Whole block size arrivals) {arrival : Arrival} (mem : arrival ∈ arrivals) :
    arrival.index * block.toNat < size := by
  have listed := whole.mem_iff.mp (List.mem_map_of_mem mem)
  have low := List.mem_range.mp listed
  rw [blockCount, ← Nat.succ_le_iff, Nat.le_div_iff_mul_le positive, Nat.succ_mul] at low
  omega

/-- What a block writes inside the file is its content. -/
theorem data_of_covers (multiple : 4096 ∣ block.toNat) {size : Nat} (size_fits : size < 2 ^ 63)
    (content : Nat → UInt8) {arrivals : List Arrival} (whole : Whole block size arrivals)
    {arrival : Arrival} (arrived : arrival ∈ arrivals) {address : Nat} (inside : address < size)
    (covers : (arrival.write block size content).Covers address) :
    (arrival.write block size content).data
      (address - (arrival.write block size content).offset) = content address := by
  have short : blockLength block size arrival.index ≤ block.toNat := Nat.min_le_left _ _
  have begins := index_lt_of_whole positive small whole arrived
  have within := inside_of_dvd positive small multiple
    (show arrival.index * block.toNat < 2 ^ 63 by omega) short
  simp only [Write.Covers, Arrival.write, rxWrite] at covers
  have offset := txOffset_toNat positive small
    (show arrival.index * block.toNat < 2 ^ 63 by omega)
  have high := within.2
  rw [Nat.add_mul, Nat.one_mul, offset] at high
  rw [offset] at covers
  simp only [Arrival.write, rxWrite, Arrival.buffer]
  rw [offset, if_pos (by rw [blockLength]; omega)]
  congr 1
  omega

/-- Whatever the order, the file received is the file sent. -/
theorem received_bytes (multiple : 4096 ∣ block.toNat) {size : Nat} (size_fits : size < 2 ^ 63)
    (content : Nat → UInt8) {arrivals : List Arrival} (whole : Whole block size arrivals)
    {address : Nat} (inside : address < size) :
    (File.empty.writeAll
      (arrivals.map fun arrival => arrival.write block size content)).bytes address =
        content address := by
  have length_le (index : Nat) : blockLength block size index ≤ block.toNat :=
    Nat.min_le_left _ _
  apply File.bytes_writeAll
  · -- The block that holds the address covers it.
    have split := Nat.div_add_mod' address block.toNat
    have rest := Nat.mod_lt address positive
    have listed : address / block.toNat ∈ arrivals.map Arrival.index := by
      rw [whole.mem_iff, List.mem_range, blockCount, ← Nat.succ_le_iff,
        Nat.le_div_iff_mul_le positive, Nat.succ_mul]
      omega
    obtain ⟨arrival, mem, index_eq⟩ := List.mem_map.mp listed
    refine ⟨_, List.mem_map_of_mem mem, ?_⟩
    have short := length_le arrival.index
    have reaches := rxSize_toNat (show blockLength block size arrival.index < 2 ^ 31 by omega)
    have covers : address - arrival.index * block.toNat < blockLength block size arrival.index := by
      rw [index_eq, blockLength]
      omega
    simp only [Write.Covers, Arrival.write, rxWrite]
    rw [txOffset_toNat positive small (by rw [index_eq]; omega), reaches]
    rw [index_eq] at covers ⊢
    omega
  · intro write mem covers
    obtain ⟨arrival, arrived, rfl⟩ := List.mem_map.mp mem
    exact data_of_covers positive small multiple size_fits content whole arrived inside covers

theorem apart_of_dvd (multiple : 4096 ∣ block.toNat) : Apart block where
  inside size size_fits index begins length _ short :=
    inside_of_dvd positive small multiple (by omega) short
  disjoint := by
    intro size size_fits left right left_begins right_begins ne lefts rights _ left_short _
      right_short address buffer
    rintro ⟨left_covers, right_covers⟩
    have left_inside := inside_of_dvd positive small multiple
      (show left * block.toNat < 2 ^ 63 by omega) left_short
    have right_inside := inside_of_dvd positive small multiple
      (show right * block.toNat < 2 ^ 63 by omega) right_short
    simp only [Inside, Write.Covers, rxWrite] at left_inside right_inside left_covers right_covers
    rcases Nat.lt_or_gt_of_ne ne with before | after
    · have := Nat.mul_le_mul_right block.toNat (Nat.succ_le_of_lt before)
      rw [Nat.succ_eq_add_one] at this
      omega
    · have := Nat.mul_le_mul_right block.toNat (Nat.succ_le_of_lt after)
      rw [Nat.succ_eq_add_one] at this
      omega
  same_content := by
    intro size size_fits content arrivals others whole others_whole
    apply File.truncate_congr
    intro address inside
    rw [received_bytes positive small multiple size_fits content whole inside,
      received_bytes positive small multiple size_fits content others_whole inside]

end Multiple

/-- Block writes stay apart exactly for the block sizes that are multiples of 4096. -/
theorem apart_iff_dvd (blockSize : BitVec 64) :
    Apart (startEscp blockSize) ↔ 4096 ∣ (startEscp blockSize).toNat := by
  obtain ⟨large, small⟩ := startEscp_bounds blockSize
  refine ⟨fun apart => ?_, apart_of_dvd (by omega) small⟩
  exact dvd_of_inside (by omega) small
    (apart.inside (startEscp blockSize).toNat (by omega) 0 (by omega) _ (by omega) le_rfl)

/-- With a block size of 262145 bytes a full first block is written into the second one. -/
theorem not_apart_262145 : ¬∀ blockSize : BitVec 64, Apart (startEscp blockSize) := by
  intro apart
  have overlap := (apart 262145).inside 524290 (by decide) 0 (by decide) 262145 (by decide)
    (by decide)
  exact absurd overlap.2 (by decide)

end BlockWrites
end EScp
