import EScp.Gcm
import EScp.NetworkObj
import EScp.Pieces

/-!
# Receiving a frame

`network_recv` reads one frame from a connection: the IV header, which names the type, a first part
of fixed length, a body whose length stands in the first part, and the tag.  The length of a data
frame is signed, and its sign tells that the body is compressed.
-/

namespace EScp
namespace Network

open Layout

/-! ## Numbers and bytes -/

/-- The little-endian number in a list of bytes. -/
def numberOf (bytes : List UInt8) : Nat := load (fun index => bytes.getD index 0) 0 bytes.length

theorem getD_bytesOf {size index : Nat} (inside : index < size) (value : Nat) :
    (bytesOf size value).getD index 0 = leByte value index := by
  simp [bytesOf, inside]

theorem length_bytesOf (size value : Nat) : (bytesOf size value).length = size := by
  simp [bytesOf]

theorem numberOf_bytesOf (size value : Nat) :
    numberOf (bytesOf size value) = value % 256 ^ size := by
  rw [numberOf, length_bytesOf, ← load_store (fun _ => 0) 0 size value]
  apply load_congr
  intro address _ high
  rw [getD_bytesOf (by omega), store, if_pos (by omega), Nat.sub_zero]

/-! ## Compression -/

/-- `ZSTD_isError`: the 120 largest numbers. -/
def zstdIsError (code : BitVec 64) : Bool := decide (2 ^ 64 - 120 < code.toNat)

/-- The library that compresses and decompresses: both calls take the capacity of the destination
and the source, and return a code and what they have written.  What was compressed without an error
is decompressed to what it was. -/
structure Zstd where
  compressCCtx : Nat → List UInt8 → BitVec 64 × List UInt8
  decompressDCtx : Nat → List UInt8 → BitVec 64 × List UInt8
  length_compress : ∀ room source, zstdIsError (compressCCtx room source).1 = false →
    (compressCCtx room source).2.length = (compressCCtx room source).1.toNat
  decompress_compress : ∀ room source capacity,
    zstdIsError (compressCCtx room source).1 = false → source.length ≤ capacity →
      decompressDCtx capacity (compressCCtx room source).2 =
        (BitVec.ofNat 64 source.length, source)

/-- The flag that marks a compressed body, `1 << 31` as an `int` widened to 64 bits. -/
def compressedFlag : BitVec 64 := (1 <<< 31 : BitVec 32).signExtend 64

theorem compressedFlag_getLsbD {index : Nat} (inside : index < 64) :
    compressedFlag.getLsbD index = decide (31 ≤ index) := by
  have value : compressedFlag = BitVec.ofNat 64 (2 ^ 64 - 2 ^ 31) := by decide
  have all : ∀ index : Fin 64, (BitVec.ofNat 64 (2 ^ 64 - 2 ^ 31)).getLsbD index =
      decide (31 ≤ index.val) := by decide
  rw [value]
  exact all ⟨index, inside⟩

theorem getLsbD_of_small {width : Nat} {value : BitVec width} (small : value.toNat < 2 ^ 31)
    {index : Nat} (high : 31 ≤ index) : value.getLsbD index = false := by
  rw [← BitVec.testBit_toNat]
  exact Nat.testBit_lt_two_pow (Nat.lt_of_lt_of_le small (Nat.pow_le_pow_right (by decide) high))

/-- A length carries no mark of its own. -/
theorem small_and_flag {value : BitVec 64} (small : value.toNat < 2 ^ 31) :
    value &&& compressedFlag = 0 := by
  apply BitVec.eq_of_getLsbD_eq
  intro index inside
  rw [BitVec.getLsbD_and, compressedFlag_getLsbD inside]
  by_cases high : 31 ≤ index
  · rw [getLsbD_of_small small high]
    simp
  · simp [high]

/-- A marked length survives its way through the 32 bits of `fi->sz`. -/
theorem signExtend_marked (value : BitVec 64) :
    ((value ||| compressedFlag).setWidth 32).signExtend 64 = value ||| compressedFlag := by
  have msb : ((value ||| compressedFlag).setWidth 32).msb = true := by
    rw [BitVec.msb_eq_getLsbD_last, BitVec.getLsbD_setWidth, BitVec.getLsbD_or,
      compressedFlag_getLsbD (by decide)]
    simp
  apply BitVec.eq_of_getLsbD_eq
  intro index inside
  rw [BitVec.getLsbD_signExtend, msb, BitVec.getLsbD_setWidth, BitVec.getLsbD_or,
    compressedFlag_getLsbD inside]
  by_cases high : 31 ≤ index
  · simp [high, inside]
  · have narrow : index < 32 := by omega
    simp [high, inside, narrow]

theorem marked_and_flag (value : BitVec 64) :
    (value ||| compressedFlag) &&& compressedFlag ≠ 0 := by
  intro zero
  have bit : ((value ||| compressedFlag) &&& compressedFlag).getLsbD 31 = true := by
    rw [BitVec.getLsbD_and, BitVec.getLsbD_or, compressedFlag_getLsbD (by decide)]
    simp
  rw [zero] at bit
  exact absurd bit (by decide)

theorem marked_and_not_flag {value : BitVec 64} (small : value.toNat < 2 ^ 31) :
    (value ||| compressedFlag) &&& ~~~compressedFlag = value := by
  apply BitVec.eq_of_getLsbD_eq
  intro index inside
  rw [BitVec.getLsbD_and, BitVec.getLsbD_or, BitVec.getLsbD_not, compressedFlag_getLsbD inside]
  by_cases high : 31 ≤ index
  · rw [getLsbD_of_small small high]
    simp [high]
  · simp [high, inside]

theorem signExtend_small {value : BitVec 32} (small : value.toNat < 2 ^ 31) :
    (value.signExtend 64).toNat = value.toNat := by
  have msb : value.msb = false := by
    rw [BitVec.msb_eq_getLsbD_last]
    exact getLsbD_of_small small (by decide)
  rw [BitVec.signExtend_eq_setWidth_of_msb_false msb, BitVec.toNat_setWidth]
  exact Nat.mod_eq_of_lt (by omega)

/-! ## Receiving -/

/-- The members of `struct file_info`, which is packed. -/
inductive InfoField where
  | offset | fileNo | sz
  deriving DecidableEq

/-- The size of a member in bytes. -/
def InfoField.size : InfoField → Nat
  | .offset | .fileNo => 8
  | .sz => 4

/-- The offset of a member inside `struct file_info`. -/
def infoOffset (field : InfoField) : Nat :=
  offsetOf true ([.offset, .fileNo, .sz].map fun field => ⟨field, field.size, field.size⟩) field

/-- A receiving thread: its object with the buffers it fills. -/
structure Receiver where
  knob : NetworkObj
  /-- `knob->buf`, with the first part of the last frame. -/
  buf : Memory
  /-- The buffer of the I/O engine. -/
  buffer : Memory
  /-- The operations of the I/O engine that are fetched and not submitted. -/
  fetched : Nat

/-- A member of the `file_info` in `knob->buf`. -/
def Receiver.info (receiver : Receiver) (field : InfoField) : Nat :=
  load receiver.buf (infoOffset field) field.size

/-- `fi->sz`. -/
def Receiver.sz (receiver : Receiver) : BitVec 32 := BitVec.ofNat 32 (receiver.info .sz)

/-- The first part of a data frame is in `knob->buf`, and an operation has been fetched. -/
def Receiver.headed (receiver : Receiver) (head : List UInt8) : Receiver :=
  { receiver with
    buf := (Write.ofBytes 0 head).apply receiver.buf
    fetched := receiver.fetched + 1 }

/-- What has been authenticated: the header and the ciphertext, with the two parts of the
plaintext. -/
structure Opened where
  aad : BitVec 64
  ciphertext : List UInt8
  head : List UInt8
  body : List UInt8
  deriving DecidableEq

/-- How a call of `network_recv` ends. -/
inductive Received where
  /-- `VRFY` ends the process. -/
  | exit
  /-- The call returns 0. -/
  | closed
  /-- The call returns `value` with a frame and leaves `later` on the connection. -/
  | frame (value : BitVec 64) (receiver : Receiver) (subheader : UInt16) (opened : Opened)
      (later : List (List UInt8))

variable (gcm : Gcm) (zstd : Zstd)

/-- Read the tag and compare it. -/
def recvTag (context : Gcm.Context) (pieces : List (List UInt8)) :
    Option (List (List UInt8)) :=
  match readFixed 16 pieces with
  | none => none
  | some (actualHash, later) => if actualHash = gcm.finalize context then some later else none

/-- The flag in the value returned for a BYE. -/
def byeFlag : BitVec 64 := 0xB43 <<< 32

/-- The part of `network_recv` for metadata, whose length is in network byte order.  The frame goes
to the metadata ring. -/
def recvMeta (receiver : Receiver) (aad : BitVec 64) (context : Gcm.Context)
    (pieces : List (List UInt8)) : Received :=
  match readFixed 16 pieces with
  | none => .exit
  | some (sealedHead, pieces) =>
      let (context, head) := gcm.decUpdate context sealedHead
      let sz := numberOf (head.take 4).reverse
      if 4 * 1024 * 1024 / 2 ≤ sz then
        .exit
      else
        match readFixed sz pieces with
        | none => .exit
        | some (sealedBody, pieces) =>
            let (context, body) := gcm.decUpdate context sealedBody
            match recvTag gcm context pieces with
            | none => .exit
            | some later =>
                let bye := numberOf ((head.drop 4).take 2) = 0xB43
                .frame ((if bye then 8 ||| byeFlag else 8) + 16)
                  { receiver with buf := (Write.ofBytes 0 head).apply receiver.buf } fihdrMeta
                  ⟨aad, sealedHead ++ sealedBody, head, body⟩ later

/-- The part of `network_recv` for a data block. -/
def recvShort (receiver : Receiver) (aad : BitVec 64) (context : Gcm.Context)
    (pieces : List (List UInt8)) : Received :=
  match readFixed 20 pieces with
  | none => .exit
  | some (sealedHead, pieces) =>
      let (context, head) := gcm.decUpdate context sealedHead
      if receiver.fetched ≥ 1 then
        .exit
      else
        let receiver := receiver.headed head
        let blockSz := receiver.sz.signExtend 64
        if blockSz &&& compressedFlag ≠ 0 then
          -- The compressed bytes lie at the right end of the buffer while they are decompressed.
          let blockSz := blockSz &&& ~~~compressedFlag
          match readFixed blockSz.toNat pieces with
          | none => .closed
          | some (sealedBody, pieces) =>
              let (context, body) := gcm.decUpdate context sealedBody
              let (res, out) := zstd.decompressDCtx receiver.knob.block.toNat body
              if zstdIsError res then
                .exit
              else
                match recvTag gcm context pieces with
                | none => .exit
                | some later =>
                    .frame (8 + 20 + blockSz + 16) { receiver with
                      buf := store receiver.buf (infoOffset .sz) InfoField.sz.size res.toNat
                      buffer := (Write.ofBytes 0 out).apply receiver.buffer } fihdrShort
                      ⟨aad, sealedHead ++ sealedBody, head, body⟩ later
        else if receiver.knob.block.toNat < blockSz.toNat then
          .exit
        else
          match readFixed blockSz.toNat pieces with
          | none => .exit
          | some (sealedBody, pieces) =>
              let (context, body) := gcm.decUpdate context sealedBody
              match recvTag gcm context pieces with
              | none => .exit
              | some later =>
                  .frame (8 + 20 + blockSz + 16) { receiver with
                    buffer := (Write.ofBytes 0 body).apply receiver.buffer } fihdrShort
                    ⟨aad, sealedHead ++ sealedBody, head, body⟩ later

/-- `network_recv` on an encrypted connection. -/
def recvFrame (receiver : Receiver) (pieces : List (List UInt8)) : Received :=
  match readFixed 8 pieces with
  | none => .closed
  | some (header, pieces) =>
      let aad := BitVec.ofNat 64 (numberOf header)
      let receiver := { receiver with knob := (networkRecv receiver.knob aad).1 }
      let context := Gcm.init receiver.knob.nonce header
      if aad &&& isFihdrShort ≠ 0 then
        recvShort gcm zstd receiver aad context pieces
      else
        recvMeta gcm receiver aad context pieces

end Network
end EScp
