import EScp.NetworkRecv

/-!
# The buffer of a block

`network_recv` reads a block into a buffer of the I/O engine.  The size in the header, which has not
been authenticated at that point, tells how many bytes are read and where they go: to the start of
the buffer, or, if they are compressed, in front of the place `FIO_COMPRESS_MARGIN` behind the end
of the block.
-/

namespace EScp
namespace BlockBuffer

open Network

/-! ## The code -/

/-- The engines of `file_memoryinit`. -/
inductive Engine where
  | posix
  | uring
  | dummy
  | shmem
deriving DecidableEq

/-- What `file_memoryinit` takes from its arguments. -/
structure Options where
  block : BitVec 32
  compression : Bool
  QD : BitVec 32

/-- The bytes mapped for a buffer by `file_posixinit`, `file_uringinit`, `file_dummyinit` and
`file_shmeminit`, the last of which does not start with compression. -/
def Engine.allocSz (options : Options) : Engine → Option (BitVec 64)
  | .posix =>
      let allocSz := options.block.setWidth 64
      some (if options.compression then allocSz * 2 else allocSz)
  | .uring | .dummy => some (options.block.setWidth 64)
  | .shmem =>
      if options.compression then none
      else some ((1024 + options.block * options.QD).setWidth 64)

/-- `FIO_COMPRESS_MARGIN`. -/
def fioCompressMargin : Nat := 256 * 1024

/-- What `network_recv` does with a block. -/
inductive Placed where
  /-- `VRFY` ends the process. -/
  | rejected
  /-- So many bytes are read to this place in the buffer. -/
  | read (place : Int) (size : Nat)
deriving DecidableEq

/-- The part of `network_recv` that reads a block, by the size in its header. -/
def recvBlock (block sz : BitVec 32) : Placed :=
  let blockSz := sz.signExtend 64
  if blockSz &&& compressedFlag ≠ 0 then
    let blockSz := blockSz &&& ~~~compressedFlag
    .read (block.toNat + fioCompressMargin - blockSz.toNat) blockSz.toNat
  else if block.toNat < blockSz.toNat then .rejected
  else .read 0 blockSz.toNat

/-- All the bytes that are read lie in what has been allocated; an engine that does not start reads
none. -/
def Contained (engine : Engine) (options : Options) (sz : BitVec 32) : Prop :=
  ∀ allocSz, engine.allocSz options = some allocSz →
    ∀ place size, recvBlock options.block sz = .read place size →
      ∀ address : Int, place ≤ address → address < place + size →
        0 ≤ address ∧ address < allocSz.toNat

/-- The size of a compressed block. -/
def compressedSize (sz : BitVec 32) : Nat := sz.toNat % 2 ^ 31

/-- A block that is not compressed fits unless the size of a shared memory wraps.  A compressed one
fits when it is empty, or when it is no longer than a block and the margin and the engine has got a
buffer for compression, as the posix engine does. -/
def Fits (engine : Engine) (options : Options) (sz : BitVec 32) : Prop :=
  let shared := (1024 + options.block * options.QD).toNat
  if sz.msb then
    compressedSize sz = 0 ∨
      match engine with
      | .posix => options.compression = true ∧
          compressedSize sz ≤ options.block.toNat + fioCompressMargin
      | .uring | .dummy => False
      | .shmem => options.compression = true ∨
          compressedSize sz ≤ options.block.toNat + fioCompressMargin ∧
            options.block.toNat + fioCompressMargin ≤ shared
  else
    engine = .shmem → options.compression = false → sz.toNat ≤ options.block.toNat →
      sz.toNat ≤ shared

/-! ## Where a block is read to -/

section Placed

variable {block sz : BitVec 32}

/-- The flag is the sign, and what is left without it are the other bits. -/
theorem signExtend_flag (negative : sz.msb = true) :
    sz.signExtend 64 &&& compressedFlag ≠ 0 ∧
      (sz.signExtend 64 &&& ~~~compressedFlag).toNat = compressedSize sz := by
  constructor
  · intro zero
    have bit : (sz.signExtend 64 &&& compressedFlag).getLsbD 63 = true := by
      rw [BitVec.getLsbD_and, compressedFlag_getLsbD (by decide), BitVec.getLsbD_signExtend,
        negative]
      simp
    rw [zero] at bit
    exact absurd bit (by decide)
  · have low : ~~~compressedFlag = BitVec.ofNat 64 (2 ^ 31 - 1) := by decide
    have fits := sz.isLt
    rw [low, BitVec.toNat_and, BitVec.toNat_ofNat, Nat.mod_eq_of_lt (by decide),
      Nat.and_two_pow_sub_one_eq_mod, compressedSize, BitVec.toNat_signExtend, negative,
      if_pos rfl, BitVec.toNat_setWidth]
    omega

theorem toNat_lt_of_msb (positive : sz.msb = false) : sz.toNat < 2 ^ 31 := by
  rw [BitVec.msb_eq_decide, decide_eq_false_iff_not] at positive
  omega

theorem recvBlock_compressed (negative : sz.msb = true) :
    recvBlock block sz =
      .read (block.toNat + fioCompressMargin - compressedSize sz) (compressedSize sz) := by
  obtain ⟨flag, size⟩ := signExtend_flag negative
  rw [recvBlock]
  dsimp only
  rw [if_pos flag, size]

theorem recvBlock_raw (positive : sz.msb = false) :
    recvBlock block sz = if block.toNat < sz.toNat then .rejected else .read 0 sz.toNat := by
  have small := toNat_lt_of_msb positive
  have size := signExtend_small small
  have unmarked : sz.signExtend 64 &&& compressedFlag = 0 := small_and_flag (by omega)
  rw [recvBlock]
  dsimp only
  rw [if_neg (not_not.mpr unmarked), size]

/-- The bytes of a range lie below a bound. -/
theorem forall_range_iff {place : Int} {size bound : Nat} :
    (∀ address : Int, place ≤ address → address < place + size → 0 ≤ address ∧ address < bound) ↔
      size = 0 ∨ 0 ≤ place ∧ place + size ≤ bound := by
  constructor
  · intro inside
    rcases Nat.eq_zero_or_pos size with empty | positive
    · exact .inl empty
    · have first := inside place le_rfl (by omega)
      have last := inside (place + size - 1) (by omega) (by omega)
      exact .inr ⟨first.1, by omega⟩
  · rintro (rfl | ⟨low, high⟩) address from_place to_end <;> omega

end Placed

/-! ## What has been allocated -/

section Allocated

variable {engine : Engine} {options : Options} {sz : BitVec 32}

/-- The number of bytes that an engine has for a block. -/
def Engine.room (options : Options) : Engine → Option Nat
  | .posix =>
      some (if options.compression then options.block.toNat * 2 else options.block.toNat)
  | .uring | .dummy => some options.block.toNat
  | .shmem =>
      if options.compression then none else some (1024 + options.block * options.QD).toNat

theorem Engine.room_eq (engine : Engine) (options : Options) :
    engine.room options = (engine.allocSz options).map BitVec.toNat := by
  have fits := options.block.isLt
  have wide : (options.block.setWidth 64).toNat = options.block.toNat := by
    rw [BitVec.toNat_setWidth]
    omega
  cases engine with
  | posix =>
      have doubled : (options.block.setWidth 64 * 2).toNat = options.block.toNat * 2 := by
        rw [BitVec.toNat_mul, wide]
        change options.block.toNat * 2 % 2 ^ 64 = options.block.toNat * 2
        omega
      simp only [room, allocSz, Option.map_some]
      split <;> simp only [doubled, wide]
  | uring => simp only [room, allocSz, Option.map_some, wide]
  | dummy => simp only [room, allocSz, Option.map_some, wide]
  | shmem =>
      have shared : ((1024 + options.block * options.QD).setWidth 64).toNat =
          (1024 + options.block * options.QD).toNat := by
        rw [BitVec.toNat_setWidth, Nat.mod_eq_of_lt]
        exact (BitVec.isLt _).trans (by decide)
      simp only [room, allocSz]
      split
      · rfl
      · rw [Option.map_some, shared]

theorem contained_iff_room : Contained engine options sz ↔
    ∀ room, engine.room options = some room →
      ∀ place size, recvBlock options.block sz = .read place size →
        size = 0 ∨ 0 ≤ place ∧ place + size ≤ room := by
  simp only [Contained, forall_range_iff, engine.room_eq, Option.map_eq_some_iff,
    forall_exists_index, and_imp, forall_apply_eq_imp_iff₂]

theorem contained_raw_iff (positive : sz.msb = false) :
    Contained engine options sz ↔ ∀ room, engine.room options = some room →
      sz.toNat ≤ options.block.toNat → sz.toNat ≤ room := by
  rw [contained_iff_room]
  refine forall_congr' fun room => imp_congr_right fun _ => ?_
  rw [recvBlock_raw positive]
  constructor
  · intro inside short
    have range := inside 0 sz.toNat (if_neg (by omega))
    omega
  · intro inside place size placed
    split at placed
    · cases placed
    · obtain ⟨rfl, rfl⟩ := Placed.read.inj placed
      have short := inside (by omega)
      omega

theorem contained_compressed_iff (negative : sz.msb = true) :
    Contained engine options sz ↔ ∀ room, engine.room options = some room →
      compressedSize sz = 0 ∨ compressedSize sz ≤ options.block.toNat + fioCompressMargin ∧
        options.block.toNat + fioCompressMargin ≤ room := by
  rw [contained_iff_room]
  refine forall_congr' fun room => imp_congr_right fun _ => ?_
  rw [recvBlock_compressed negative]
  constructor
  · intro inside
    have range := inside _ _ rfl
    omega
  · intro inside place size placed
    obtain ⟨rfl, rfl⟩ := Placed.read.inj placed
    omega

/-- What is read of a block lies in its buffer exactly when the block fits. -/
theorem contained_iff_fits (engine : Engine) (options : Options) (sz : BitVec 32)
    (large : 256 * 1024 ≤ options.block.toInt) :
    Contained engine options sz ↔ Fits engine options sz := by
  have block_ge : fioCompressMargin ≤ options.block.toNat := by
    have cases := BitVec.toInt_eq_toNat_cond options.block
    have fits := options.block.isLt
    rw [fioCompressMargin]
    split at cases <;> omega
  have margin : 0 < fioCompressMargin := by decide
  unfold Fits
  cases sign : sz.msb with
  | true =>
      rw [contained_compressed_iff sign, if_pos rfl]
      cases engine with
      | posix =>
          simp only [Engine.room, Option.some.injEq, forall_eq']
          cases options.compression with
          | true =>
              simp only [if_true, true_and]
              omega
          | false =>
              simp only [Bool.false_eq_true, if_false, false_and, or_false]
              omega
      | uring =>
          simp only [Engine.room, Option.some.injEq, forall_eq', or_false]
          omega
      | dummy =>
          simp only [Engine.room, Option.some.injEq, forall_eq', or_false]
          omega
      | shmem =>
          simp only [Engine.room]
          cases options.compression <;> simp
  | false =>
      rw [contained_raw_iff sign, if_neg (by decide)]
      cases engine with
      | posix =>
          refine iff_of_true ?_ nofun
          simp only [Engine.room, Option.some.injEq, forall_eq']
          intro short
          split <;> omega
      | uring => simp [Engine.room]
      | dummy => simp [Engine.room]
      | shmem =>
          simp only [Engine.room]
          cases options.compression <;> simp

/-- A compressed block of a sender with the posix engine fits. -/
theorem contained_iff_fits_of_posix :
    Contained .posix ⟨262144, true, 4⟩ 0x80001000 ↔ Fits .posix ⟨262144, true, 4⟩ 0x80001000 :=
  contained_iff_fits _ _ _ (by decide)

/-- A compressed block may reach in front of the buffer of the posix engine, and it lies behind that
of the uring engine, or of the posix engine when compression has not been agreed on. -/
theorem not_contained_of_compressed :
    ¬Contained .posix ⟨262144, true, 4⟩ 0xFFFFFFFF ∧
    ¬Contained .uring ⟨262144, true, 4⟩ 0x80001000 ∧
    ¬Contained .posix ⟨262144, false, 4⟩ 0x80001000 ∧
    ¬∀ engine options sz, 256 * 1024 ≤ options.block.toInt → Contained engine options sz := by
  have behind : recvBlock 262144 0x80001000 = .read 520192 4096 := by decide
  have before : recvBlock 262144 0xFFFFFFFF = .read (-2146959359) 2147483647 := by decide
  have uring : ¬Contained .uring ⟨262144, true, 4⟩ 0x80001000 := by
    intro contained
    have last := contained 262144 rfl _ _ behind 524287 (by decide) (by decide)
    exact absurd last.2 (by decide)
  refine ⟨fun contained => ?_, uring, fun contained => ?_, fun always => ?_⟩
  · have first := contained 524288 (by decide) _ _ before (-1) (by decide) (by decide)
    exact absurd first.1 (by decide)
  · have last := contained 262144 (by decide) _ _ behind 524287 (by decide) (by decide)
    exact absurd last.2 (by decide)
  · exact uring (always .uring ⟨262144, true, 4⟩ 0x80001000 (by decide))

end Allocated

/-! ## In `network_recv` -/

section Received

variable {gcm : Gcm} {zstd : Zstd} {receiver : Receiver} {aad : BitVec 64} {context : Gcm.Context}
  {pieces later : List (List UInt8)} {sealedHead : List UInt8}

/-- The size in the first part of a frame. -/
def headSz (gcm : Gcm) (receiver : Receiver) (context : Gcm.Context) (sealedHead : List UInt8) :
    BitVec 32 :=
  (receiver.headed (gcm.decUpdate context sealedHead).2).sz

/-- A block that is rejected ends the process. -/
theorem recvShort_of_rejected (read : readFixed 20 pieces = some (sealedHead, later))
    (rejected : recvBlock receiver.knob.block.toBitVec (headSz gcm receiver context sealedHead) =
      .rejected) : recvShort gcm zstd receiver aad context pieces = .exit := by
  rw [recvShort]
  rw [read]
  dsimp only
  rw [recvBlock, headSz] at rejected
  dsimp only at rejected
  split
  · rfl
  · split at rejected
    · cases rejected
    · rename_i raw
      rw [if_neg raw]
      split at rejected
      · rename_i long
        exact if_pos long
      · cases rejected

/-- When the connection ends within a block there is no frame. -/
theorem recvShort_of_end (read : readFixed 20 pieces = some (sealedHead, later)) {place : Int}
    {size : Nat} (placed : recvBlock receiver.knob.block.toBitVec
      (headSz gcm receiver context sealedHead) = .read place size)
    (ends : readFixed size later = none) :
    recvShort gcm zstd receiver aad context pieces = .exit ∨
      recvShort gcm zstd receiver aad context pieces = .closed := by
  rw [recvShort]
  rw [read]
  dsimp only
  rw [recvBlock, headSz] at placed
  dsimp only at placed
  split
  · exact .inl rfl
  · split at placed
    · rename_i compressed
      obtain ⟨-, rfl⟩ := Placed.read.inj placed
      rw [if_pos compressed, ends]
      exact .inr rfl
    · rename_i raw
      rw [if_neg raw]
      split at placed
      · cases placed
      · rename_i short
        obtain ⟨-, rfl⟩ := Placed.read.inj placed
        have continued : ¬(receiver.headed (gcm.decUpdate context sealedHead).2).knob.block.toNat <
            (BitVec.signExtend 64
              (receiver.headed (gcm.decUpdate context sealedHead).2).sz).toNat := short
        rw [if_neg continued, ends]
        exact .inl rfl

end Received

end BlockBuffer
end EScp
