import EScp.NetworkRecv

/-!
# Data blocks on a connection

`submit_work` sends a block as one frame: the 20 bytes of a `file_info`, then the content, which
`file_posixsubmit` has compressed if that makes it shorter.  What `network_recv` returns for the
frames of a list of blocks is that list, in whatever pieces the bytes arrive.
-/

namespace EScp
namespace Network

open Layout

/-- A block read from a file: `content` is what `pread` returns. -/
structure Block where
  fileNo : BitVec 64
  offset : BitVec 64
  content : List UInt8
  deriving DecidableEq

/-- The operation of the posix engine: `buf` holds the block, and from `compressOffset` on what it
has been compressed to. -/
structure PosixOp where
  buf : Memory
  compressed : BitVec 32
  compressOffset : Nat

/-- A sending thread. -/
structure Sender where
  knob : NetworkObj
  op : PosixOp

variable (gcm : Gcm) (zstd : Zstd) (compression : Bool) (blkSz : Nat)

/-- `file_posixsubmit` after a `pread` that returns `content`. -/
def posixSubmit (op : PosixOp) (content : List UInt8) : PosixOp :=
  let op := { op with buf := (Write.ofBytes 0 content).apply op.buf }
  if compression then
    let (csz, out) := zstd.compressCCtx blkSz content
    { op with
      buf := (Write.ofBytes blkSz out).apply op.buf
      compressOffset := blkSz
      compressed := if 0 < csz.toNat ∧ csz.toNat < content.length then csz.setWidth 32 else 0 }
  else
    op

/-- The two calls of `network_send` for one frame, when all writes succeed: the object and the
bytes written, or nothing when `VRFY` fails. -/
def sendFrame (knob : NetworkObj) (subheader : UInt16) (head body : List UInt8) :
    Option (NetworkObj × List UInt8) :=
  match networkSend knob false ⟨true, subheader⟩ ⟨8, head.length, 0⟩ with
  | .done knob raised value (some nonce) =>
      if 0 < value.toInt then
        match networkSend knob raised ⟨false, subheader⟩ ⟨0, body.length, 16⟩ with
        | .done knob _ value none =>
            if 0 < value.toInt then
              let header := bytesOf 8 knob.ivIncr.toNat
              let ciphertext := gcm.encrypt nonce header head body
              some (knob, header ++ ciphertext ++ gcm.tag nonce header ciphertext)
            else
              none
        | _ => none
      else
        none
  | _ => none

/-- `fi`, as `submit_work` fills it. -/
def infoBytes (block : Block) (sz : BitVec 32) : List UInt8 :=
  bytesOf 8 block.offset.toNat ++ bytesOf 8 block.fileNo.toNat ++ bytesOf 4 sz.toNat

/-- `fi.sz`: the size read, or the compressed one with its mark. -/
def PosixOp.sz (op : PosixOp) (bytesRead : Nat) : BitVec 32 :=
  let compressed := op.compressed.setWidth 64
  if compressed ≠ 0 then (compressed ||| compressedFlag).setWidth 32 else BitVec.ofNat 32 bytesRead

/-- The `bytes_sent` bytes at `FOB_BUF`. -/
def PosixOp.body (op : PosixOp) (bytesRead : Nat) : List UInt8 :=
  let compressed := op.compressed.setWidth 64
  let bytesSent := if compressed ≠ 0 then compressed.toNat else bytesRead
  bytesAt op.buf (if op.compressed ≠ 0 then op.compressOffset else 0) bytesSent

/-- `submit_work` for a block that is not empty. -/
def submitWork (sender : Sender) (block : Block) : Option (Sender × List UInt8) :=
  let op := posixSubmit zstd compression blkSz sender.op block.content
  let bytesRead := block.content.length
  (sendFrame gcm sender.knob fihdrShort (infoBytes block (op.sz bytesRead)) (op.body bytesRead)).map
    fun sent => (⟨sent.1, op⟩, sent.2)

/-- A sending thread before its first block. -/
def Sender.init (salt : BitVec 32) : Sender := ⟨networkInitTx salt, fun _ => 0, 0, 0⟩

/-- A receiving thread before its first frame. -/
def Receiver.init (salt : BitVec 32) (dtn : DtnArgs) : Receiver :=
  ⟨networkInitRx salt dtn, fun _ => 0, fun _ => 0, 0⟩

/-- The bytes that a sending thread writes for a list of blocks. -/
def sendBlocks : Sender → List Block → Option (List UInt8)
  | _, [] => some []
  | sender, block :: blocks =>
      (submitWork gcm zstd compression blkSz sender block).bind fun sent =>
        (sendBlocks sent.1 blocks).map fun bytes => sent.2 ++ bytes

/-- What a receiving thread finds after a call of `network_recv`. -/
structure Delivery where
  subheader : UInt16
  fileNo : Nat
  offset : Nat
  sz : BitVec 32
  /-- The first `sz` bytes of the buffer. -/
  content : List UInt8
  deriving DecidableEq

/-- What a call of `network_recv` has left in the buffers. -/
def Receiver.delivery (receiver : Receiver) (subheader : UInt16) : Delivery where
  subheader := subheader
  fileNo := receiver.info .fileNo
  offset := receiver.info .offset
  sz := receiver.sz
  content := bytesAt receiver.buffer 0 receiver.sz.toNat

/-- The delivery that hands a block on as it is. -/
def Block.delivery (block : Block) : Delivery where
  subheader := fihdrShort
  fileNo := block.fileNo.toNat
  offset := block.offset.toNat
  sz := BitVec.ofNat 32 block.content.length
  content := block.content

/-- Successive calls of `network_recv`, after each of which the receiving thread submits the
operation: the deliveries, and what is left of the connection. -/
def recvBlocks : Nat → Receiver → List (List UInt8) → Option (List Delivery × List (List UInt8))
  | 0, _, pieces => some ([], pieces)
  | count + 1, receiver, pieces =>
      match recvFrame gcm zstd receiver pieces with
      | .frame _ receiver subheader _ later =>
          (recvBlocks count { receiver with fetched := receiver.fetched - 1 } later).map
            fun rest => (receiver.delivery subheader :: rest.1, rest.2)
      | _ => none

/-! ## Sending -/

variable {gcm} {zstd} {compression} {blkSz}

theorem toInt_pos {value : BitVec 64} (positive : 0 < value.toNat) (small : value.toNat < 2 ^ 63) :
    0 < value.toInt := by
  rw [BitVec.toInt_eq_toNat_of_lt (by omega)]
  exact Int.natCast_pos.mpr positive

theorem ofInt_length_toNat {length : Nat} (small : length < 2 ^ 31) :
    (BitVec.ofInt 64 (length : Int)).toNat = length := by
  rw [BitVec.ofInt_natCast, BitVec.toNat_ofNat]
  exact Nat.mod_eq_of_lt (by omega)

/-- The first call for a frame, whose 8 bytes of header are counted in. -/
theorem sendPayload_partial {length : Nat} (positive : 0 < length) (small : length < 2 ^ 31)
    (subheader : UInt16) (header tag : Int) :
    ∃ value, sendPayload ⟨true, subheader⟩ ⟨header, length, tag⟩ 8 = (value, true) ∧
      0 < value.toInt := by
  have value_eq := ofInt_length_toNat small
  have not_less : ¬BitVec.ofInt 64 (length : Int) < 1 := by
    intro less
    rw [BitVec.lt_def, value_eq] at less
    change length < 1 at less
    omega
  refine ⟨8 + BitVec.ofInt 64 length, ?_, ?_⟩
  · simp only [sendPayload, if_neg not_less, if_true]
  · have sum : (8 + BitVec.ofInt 64 (length : Int)).toNat = 8 + length := by
      rw [BitVec.toNat_add, value_eq]
      change (8 + length) % 2 ^ 64 = 8 + length
      omega
    exact toInt_pos (by omega) (by omega)

/-- The second call for a frame, with its tag. -/
theorem sendPayload_last {length : Nat} (positive : 0 < length) (small : length < 2 ^ 31)
    (subheader : UInt16) (header : Int) :
    ∃ value, sendPayload ⟨false, subheader⟩ ⟨header, length, 16⟩ 0 = (value, false) ∧
      0 < value.toInt := by
  have value_eq := ofInt_length_toNat small
  have not_less : ¬BitVec.ofInt 64 (length : Int) < 1 := by
    intro less
    rw [BitVec.lt_def, value_eq] at less
    change length < 1 at less
    omega
  have tagged : (BitVec.ofInt 64 (length : Int) + BitVec.ofInt 64 16).toNat = length + 16 := by
    rw [BitVec.toNat_add, value_eq]
    change (length + 16) % 2 ^ 64 = length + 16
    omega
  have not_less_tagged : ¬BitVec.ofInt 64 (length : Int) + BitVec.ofInt 64 16 < 1 := by
    intro less
    rw [BitVec.lt_def, tagged] at less
    change length + 16 < 1 at less
    omega
  refine ⟨0 + BitVec.ofInt 64 length + (BitVec.ofInt 64 length + BitVec.ofInt 64 16), ?_, ?_⟩
  · simp only [sendPayload, if_neg not_less, if_neg not_less_tagged, Bool.false_eq_true, if_false]
  · have sum : (0 + BitVec.ofInt 64 (length : Int) +
        (BitVec.ofInt 64 (length : Int) + BitVec.ofInt 64 16)).toNat = 2 * length + 16 := by
      have zero_add : (0 : BitVec 64) + BitVec.ofInt 64 (length : Int) = BitVec.ofInt 64 length :=
        BitVec.zero_add _
      rw [zero_add, BitVec.toNat_add, value_eq, tagged]
      omega
    exact toInt_pos (by omega) (by omega)

/-- A frame whose parts are not empty goes out unless the counter has come to its end. -/
theorem sendFrame_eq {knob : NetworkObj} (crypto : knob.doCrypto = true) (subheader : UInt16)
    {head body : List UInt8} (head_length : 0 < head.length ∧ head.length < 2 ^ 31)
    (body_length : 0 < body.length ∧ body.length < 2 ^ 31) :
    sendFrame gcm knob subheader head body =
      if (knob.count subheader).ivIncr.getLsbD 61 then
        none
      else
        let counted := knob.count subheader
        let header := bytesOf 8 counted.ivIncr.toNat
        let ciphertext := gcm.encrypt counted.nonce header head body
        some (counted, header ++ ciphertext ++ gcm.tag counted.nonce header ciphertext) := by
  obtain ⟨value, first, value_pos⟩ :=
    sendPayload_partial head_length.1 head_length.2 subheader 8 0
  obtain ⟨last, second, last_pos⟩ :=
    sendPayload_last body_length.1 body_length.2 subheader 0
  have header_written : ¬(8 : BitVec 64) < 8 := by decide
  have eight : BitVec.ofInt 64 8 = 8 := by decide
  have first_call : networkSend knob false ⟨true, subheader⟩ ⟨8, head.length, 0⟩ =
      if (knob.count subheader).ivIncr.getLsbD 61 then
        .exit
      else
        .done (knob.count subheader) true value (some (knob.count subheader).nonce) := by
    simp only [networkSend, crypto, if_true, Bool.false_eq_true, if_false, header_written, eight,
      first]
  have second_call : networkSend (knob.count subheader) true ⟨false, subheader⟩
      ⟨0, body.length, 16⟩ = .done (knob.count subheader) false last none := by
    have crypto_after : (knob.count subheader).doCrypto = true := crypto
    simp only [networkSend, crypto_after, if_true, second]
  rw [sendFrame]
  rw [first_call]
  split_ifs with exceeded
  · rfl
  · simp only [if_pos value_pos, second_call, if_pos last_pos]

/-- The second part of a frame for a block, with the size that goes with it. -/
inductive Encodes (zstd : Zstd) (blkSz : Nat) (block : Block) : BitVec 32 → List UInt8 → Prop
  | raw : Encodes zstd blkSz block (BitVec.ofNat 32 block.content.length) block.content
  | compressed {csz : BitVec 64} {out : List UInt8} :
      zstd.compressCCtx blkSz block.content = (csz, out) → zstdIsError csz = false →
      0 < csz.toNat → csz.toNat < 2 ^ 31 → out.length = csz.toNat →
      Encodes zstd blkSz block ((csz ||| compressedFlag).setWidth 32) out

/-- A block that `pread` may return. -/
structure Fits (blkSz : Nat) (block : Block) : Prop where
  positive : 0 < block.content.length
  le : block.content.length ≤ blkSz

theorem Encodes.length {block : Block} {sz : BitVec 32} {body : List UInt8}
    (encodes : Encodes zstd blkSz block sz body) (fits : Fits blkSz block)
    (small : blkSz < 2 ^ 31) : 0 < body.length ∧ body.length < 2 ^ 31 := by
  cases encodes with
  | raw => exact ⟨fits.positive, Nat.lt_of_le_of_lt fits.le small⟩
  | compressed _ _ positive less length_eq =>
      rw [length_eq]
      exact ⟨positive, less⟩

theorem bytesAt_ofBytes_of_length (memory : Memory) (offset : Nat) {bytes : List UInt8} {size : Nat}
    (length_eq : bytes.length = size) :
    bytesAt ((Write.ofBytes offset bytes).apply memory) offset size = bytes := by
  subst length_eq
  exact bytesAt_ofBytes memory offset bytes

/-- The block lies at the start of the buffer when its compressed form lies behind it. -/
theorem bytesAt_behind (memory : Memory) {content : List UInt8} (le : content.length ≤ blkSz)
    (out : List UInt8) :
    bytesAt ((Write.ofBytes blkSz out).apply ((Write.ofBytes 0 content).apply memory)) 0
      content.length = content := by
  refine (bytesAt_congr fun address low high => ?_).trans (bytesAt_ofBytes memory 0 content)
  refine Write.apply_of_not_covers fun covers => ?_
  have from_blkSz : blkSz ≤ address := covers.1
  omega

/-- An operation without a compressed form sends the block as it is. -/
theorem encodes_of_raw {op : PosixOp} {block : Block} (none : op.compressed = 0)
    (content_eq : bytesAt op.buf 0 block.content.length = block.content) :
    Encodes zstd blkSz block (op.sz block.content.length) (op.body block.content.length) := by
  have wide : (0 : BitVec 32).setWidth 64 = 0 := by decide
  simp only [PosixOp.sz, PosixOp.body, none, wide, ne_eq, not_true_eq_false, if_false, content_eq]
  exact .raw

/-- An operation with a compressed form sends that. -/
theorem encodes_of_compressed {op : PosixOp} {block : Block} {csz : BitVec 64} {out : List UInt8}
    (compressed_eq : zstd.compressCCtx blkSz block.content = (csz, out)) (positive : 0 < csz.toNat)
    (small : csz.toNat < 2 ^ 31) (op_eq : op.compressed = csz.setWidth 32)
    (out_eq : out.length = csz.toNat → bytesAt op.buf op.compressOffset csz.toNat = out) :
    Encodes zstd blkSz block (op.sz block.content.length) (op.body block.content.length) := by
  have no_error : zstdIsError csz = false := by
    refine decide_eq_false ?_
    omega
  have length_eq : out.length = csz.toNat := by
    have written := zstd.length_compress blkSz block.content
    rw [compressed_eq] at written
    exact written no_error
  have wide : (csz.setWidth 32).setWidth 64 = csz := by
    apply BitVec.eq_of_toNat_eq
    rw [BitVec.toNat_setWidth, BitVec.toNat_setWidth]
    omega
  have nonzero : csz ≠ 0 := by
    rintro rfl
    exact absurd positive (by decide)
  have narrow_nonzero : csz.setWidth 32 ≠ 0 := by
    intro zero
    rw [zero] at wide
    exact nonzero wide.symm
  simp only [PosixOp.sz, PosixOp.body, op_eq, wide, ne_eq, nonzero, narrow_nonzero,
    not_false_eq_true, if_true, out_eq length_eq]
  exact .compressed compressed_eq no_error positive small length_eq

/-- Whatever `ZSTD_compressCCtx` returns, the operation is left with an encoding of the block. -/
theorem posixSubmit_encodes (op : PosixOp) (fresh : compression = false → op.compressed = 0)
    {block : Block} (fits : Fits blkSz block) (small : blkSz < 2 ^ 31) :
    Encodes zstd blkSz block
      ((posixSubmit zstd compression blkSz op block.content).sz block.content.length)
      ((posixSubmit zstd compression blkSz op block.content).body block.content.length) := by
  cases compression with
  | false => exact encodes_of_raw (fresh rfl) (bytesAt_ofBytes op.buf 0 block.content)
  | true =>
      have le := fits.le
      cases compressed_eq : zstd.compressCCtx blkSz block.content with
      | mk csz out =>
          by_cases shorter : 0 < csz.toNat ∧ csz.toNat < block.content.length
          · refine encodes_of_compressed compressed_eq shorter.1 (by omega) ?_ ?_
            · simp only [posixSubmit, if_true, compressed_eq, if_pos shorter]
            · intro length_eq
              simp only [posixSubmit, if_true, compressed_eq]
              exact bytesAt_ofBytes_of_length _ blkSz length_eq
          · refine encodes_of_raw ?_ ?_
            · simp only [posixSubmit, if_true, compressed_eq, if_neg shorter]
            · simp only [posixSubmit, if_true, compressed_eq]
              exact bytesAt_behind op.buf le out

theorem posixSubmit_fresh (op : PosixOp) (fresh : compression = false → op.compressed = 0)
    (content : List UInt8) :
    compression = false → (posixSubmit zstd compression blkSz op content).compressed = 0 := by
  rintro rfl
  exact fresh rfl

/-- The bytes of a frame. -/
def frameBytes (gcm : Gcm) (counted : NetworkObj) (head body : List UInt8) : List UInt8 :=
  let header := bytesOf 8 counted.ivIncr.toNat
  let ciphertext := gcm.encrypt counted.nonce header head body
  header ++ ciphertext ++ gcm.tag counted.nonce header ciphertext

theorem length_infoBytes (block : Block) (sz : BitVec 32) : (infoBytes block sz).length = 20 := by
  simp [infoBytes, length_bytesOf]

variable (gcm) (zstd) in
/-- `submit_work` sends an encoding of the block, unless the counter has come to its end. -/
theorem submitWork_eq {sender : Sender} (crypto : sender.knob.doCrypto = true)
    (fresh : compression = false → sender.op.compressed = 0) {block : Block}
    (fits : Fits blkSz block) (small : blkSz < 2 ^ 31) :
    ∃ op sz body, (compression = false → op.compressed = 0) ∧ Encodes zstd blkSz block sz body ∧
      submitWork gcm zstd compression blkSz sender block =
        if (sender.knob.count fihdrShort).ivIncr.getLsbD 61 then
          none
        else
          some (⟨sender.knob.count fihdrShort, op⟩,
            frameBytes gcm (sender.knob.count fihdrShort) (infoBytes block sz) body) := by
  have encodes : Encodes zstd blkSz block _ _ := posixSubmit_encodes sender.op fresh fits small
  refine ⟨posixSubmit zstd compression blkSz sender.op block.content, _, _,
    posixSubmit_fresh sender.op fresh block.content, encodes, ?_⟩
  unfold submitWork
  dsimp only
  rw [sendFrame_eq crypto fihdrShort (by rw [length_infoBytes]; decide)
    (encodes.length fits small)]
  split_ifs with exceeded
  · rfl
  · rfl

/-! ## Receiving -/

/-- A number written inside a list of bytes is loaded where it stands. -/
theorem load_ofBytes (memory : Memory) (front back : List UInt8) (size value : Nat) :
    load ((Write.ofBytes 0 (front ++ bytesOf size value ++ back)).apply memory) front.length size =
      value % 256 ^ size := by
  rw [← load_store (fun _ => 0) front.length size value]
  refine load_congr fun address low high => ?_
  have covers : (Write.ofBytes 0 (front ++ bytesOf size value ++ back)).Covers address := by
    refine ⟨Nat.zero_le _, ?_⟩
    simp only [Write.ofBytes_offset, Write.ofBytes_size, List.length_append, length_bytesOf]
    omega
  have inside : address - front.length < (bytesOf size value).length := by
    rw [length_bytesOf]
    omega
  rw [Write.apply, if_pos covers, store, if_pos ⟨low, high⟩]
  change (front ++ bytesOf size value ++ back).getD (address - 0) 0 = _
  rw [Nat.sub_zero, List.getD_eq_getElem?_getD, List.append_assoc,
    List.getElem?_append_right low, List.getElem?_append_left inside,
    ← List.getD_eq_getElem?_getD, getD_bytesOf (by omega)]

/-- The receiver finds in `knob->buf` what the sender has put in `fi`. -/
theorem info_infoBytes (memory : Memory) (block : Block) (sz : BitVec 32) :
    load ((Write.ofBytes 0 (infoBytes block sz)).apply memory) (infoOffset .offset)
        InfoField.offset.size = block.offset.toNat ∧
      load ((Write.ofBytes 0 (infoBytes block sz)).apply memory) (infoOffset .fileNo)
        InfoField.fileNo.size = block.fileNo.toNat ∧
      load ((Write.ofBytes 0 (infoBytes block sz)).apply memory) (infoOffset .sz)
        InfoField.sz.size = sz.toNat := by
  have offsets : infoOffset .offset = 0 ∧ infoOffset .fileNo = 8 ∧ infoOffset .sz = 16 := by decide
  have at_offset := load_ofBytes memory []
    (bytesOf 8 block.fileNo.toNat ++ bytesOf 4 sz.toNat) 8 block.offset.toNat
  have at_fileNo := load_ofBytes memory (bytesOf 8 block.offset.toNat) (bytesOf 4 sz.toNat) 8
    block.fileNo.toNat
  have at_sz := load_ofBytes memory (bytesOf 8 block.offset.toNat ++ bytesOf 8 block.fileNo.toNat)
    [] 4 sz.toNat
  have wide : ∀ value : BitVec 64, value.toNat % 256 ^ 8 = value.toNat := by
    intro value
    have fits := value.isLt
    omega
  have narrow : sz.toNat % 256 ^ 4 = sz.toNat := by
    have fits := sz.isLt
    omega
  rw [List.nil_append, ← List.append_assoc, wide] at at_offset
  rw [length_bytesOf, wide] at at_fileNo
  rw [List.append_nil, List.length_append, length_bytesOf, length_bytesOf, narrow] at at_sz
  obtain ⟨offset_eq, fileNo_eq, sz_eq⟩ := offsets
  rw [offset_eq, fileNo_eq, sz_eq]
  exact ⟨at_offset, at_fileNo, at_sz⟩

/-- What a receiving thread keeps between two frames of a connection. -/
structure Ready (lead blkSz : Nat) (receiver : Receiver) : Prop where
  lead_eq : receiver.knob.lead = lead
  /-- The block size is known from the first frame on. -/
  block_eq : ∃ dtn, receiver.knob.dtn = some dtn ∧ dtn.block.toNat = blkSz ∧
    (receiver.knob.fob = true → receiver.knob.block = dtn.block)
  submitted : receiver.fetched = 0

/-- The object after the header of a data frame. -/
theorem networkRecv_short {knob : NetworkObj} {aad : BitVec 64} (short : aad.getLsbD 62 = true) :
    (networkRecv knob aad).1 = (knob.setIvIncr aad).attach := by
  have not_meta : fihdrShort ≠ fihdrMeta := by decide
  unfold networkRecv
  dsimp only
  rw [if_pos (NetworkObj.and_isFihdrShort_ne_zero short), if_neg fun branch => not_meta branch.1]

theorem attach_block (knob : NetworkObj) {dtn : DtnArgs} (found : knob.dtn = some dtn)
    (known : knob.fob = true → knob.block = dtn.block) :
    knob.attach.block = dtn.block ∧ knob.attach.dtn = some dtn ∧ knob.attach.fob = true := by
  rw [NetworkObj.attach]
  rw [found]
  dsimp only
  split
  · rename_i set
    exact ⟨known set, found, set⟩
  · exact ⟨rfl, rfl, rfl⟩

/-- The pieces of a stream, none of which is empty. -/
structure Stream (pieces : List (List UInt8)) (bytes : List UInt8) : Prop where
  positive : ∀ piece ∈ pieces, piece ≠ []
  whole : pieces.flatten = bytes

theorem Stream.read {pieces : List (List UInt8)} {data rest : List UInt8} {size : Nat}
    (stream : Stream pieces (data ++ rest)) (length_eq : data.length = size) :
    ∃ later, readFixed size pieces = some (data, later) ∧ Stream later rest := by
  subst length_eq
  obtain ⟨later, found, flatten_eq, positive⟩ :=
    readFixed_of_flatten stream.positive stream.whole
  exact ⟨later, found, positive, flatten_eq⟩

theorem Stream.recvTag {pieces : List (List UInt8)} {rest : List UInt8} {context : Gcm.Context}
    (stream : Stream pieces (gcm.finalize context ++ rest)) :
    ∃ later, Network.recvTag gcm context pieces = some later ∧ Stream later rest := by
  obtain ⟨later, found, left⟩ := stream.read (Gcm.length_finalize context)
  exact ⟨later, by simp [Network.recvTag, found], left⟩

theorem headed_sz (receiver : Receiver) (block : Block) (sz : BitVec 32) :
    (receiver.headed (infoBytes block sz)).sz = sz := by
  obtain ⟨-, -, sz_eq⟩ := info_infoBytes receiver.buf block sz
  rw [Receiver.sz, Receiver.info, Receiver.headed, sz_eq]
  rw [BitVec.ofNat_toNat, BitVec.setWidth_eq]

/-- A raw block is returned as it was sent. -/
theorem recvShort_raw (receiver : Receiver) (aad : BitVec 64) (context : Gcm.Context)
    (submitted : receiver.fetched = 0) {block : Block} (fits : Fits receiver.knob.block.toNat block)
    (small : receiver.knob.block.toNat < 2 ^ 31) {head : List UInt8}
    (head_eq : head = infoBytes block (BitVec.ofNat 32 block.content.length))
    {pieces : List (List UInt8)} {rest : List UInt8}
    (stream : Stream pieces ((gcm.encUpdate context head).2 ++
      ((gcm.encUpdate (gcm.encUpdate context head).1 block.content).2 ++
        (gcm.finalize (gcm.encUpdate (gcm.encUpdate context head).1 block.content).1 ++ rest)))) :
    ∃ value opened later, recvShort gcm zstd receiver aad context pieces =
        .frame value { receiver.headed head with
          buffer := (Write.ofBytes 0 block.content).apply receiver.buffer } fihdrShort opened
          later ∧ Stream later rest := by
  have le := fits.le
  have head_length : (gcm.encUpdate context head).2.length = 20 := by
    rw [Gcm.length_encUpdate, head_eq, length_infoBytes]
  obtain ⟨pieces_body, found_head, stream_body⟩ := stream.read head_length
  obtain ⟨pieces_tag, found_body, stream_tag⟩ := stream_body.read (Gcm.length_encUpdate _ _)
  obtain ⟨later, found_tag, left⟩ := stream_tag.recvTag
  have sz_eq : (receiver.headed head).sz = BitVec.ofNat 32 block.content.length := by
    rw [head_eq, headed_sz]
  have narrow : (BitVec.ofNat 32 block.content.length).toNat = block.content.length := by
    rw [BitVec.toNat_ofNat]
    omega
  have wide : ((BitVec.ofNat 32 block.content.length).signExtend 64).toNat =
      block.content.length := by
    rw [signExtend_small (by omega), narrow]
  have unmarked : (BitVec.ofNat 32 block.content.length).signExtend 64 &&& compressedFlag = 0 :=
    small_and_flag (by omega)
  rw [recvShort]
  rw [found_head]
  simp only [Gcm.decUpdate_encUpdate]
  have fits_block : ¬(receiver.headed head).knob.block.toNat < block.content.length := by
    change ¬receiver.knob.block.toNat < _
    omega
  rw [if_neg (by omega), sz_eq, unmarked, wide, if_neg (by simp), if_neg fits_block, found_body]
  simp only [Gcm.decUpdate_encUpdate, found_tag]
  exact ⟨_, _, _, rfl, left⟩

/-- A compressed block is returned as it was before. -/
theorem recvShort_compressed (receiver : Receiver) (aad : BitVec 64) (context : Gcm.Context)
    (submitted : receiver.fetched = 0) {block : Block} (fits : Fits receiver.knob.block.toNat block)
    (small : receiver.knob.block.toNat < 2 ^ 31) {csz : BitVec 64} {out : List UInt8}
    (compressed_eq : zstd.compressCCtx receiver.knob.block.toNat block.content = (csz, out))
    (no_error : zstdIsError csz = false) (csz_small : csz.toNat < 2 ^ 31)
    (length_eq : out.length = csz.toNat) {head : List UInt8}
    (head_eq : head = infoBytes block ((csz ||| compressedFlag).setWidth 32))
    {pieces : List (List UInt8)} {rest : List UInt8}
    (stream : Stream pieces ((gcm.encUpdate context head).2 ++
      ((gcm.encUpdate (gcm.encUpdate context head).1 out).2 ++
        (gcm.finalize (gcm.encUpdate (gcm.encUpdate context head).1 out).1 ++ rest)))) :
    ∃ value opened later, recvShort gcm zstd receiver aad context pieces =
        .frame value { receiver.headed head with
          buf := store (receiver.headed head).buf (infoOffset .sz) InfoField.sz.size
            block.content.length
          buffer := (Write.ofBytes 0 block.content).apply receiver.buffer } fihdrShort opened
          later ∧ Stream later rest := by
  have le := fits.le
  have head_length : (gcm.encUpdate context head).2.length = 20 := by
    rw [Gcm.length_encUpdate, head_eq, length_infoBytes]
  obtain ⟨pieces_body, found_head, stream_body⟩ := stream.read head_length
  obtain ⟨pieces_tag, found_body, stream_tag⟩ := stream_body.read
    ((Gcm.length_encUpdate _ _).trans length_eq)
  obtain ⟨later, found_tag, left⟩ := stream_tag.recvTag
  have sz_eq : (receiver.headed head).sz = (csz ||| compressedFlag).setWidth 32 := by
    rw [head_eq, headed_sz]
  have decompressed : zstd.decompressDCtx receiver.knob.block.toNat out =
      (BitVec.ofNat 64 block.content.length, block.content) := by
    have undone := zstd.decompress_compress receiver.knob.block.toNat block.content
      receiver.knob.block.toNat
    rw [compressed_eq] at undone
    exact undone no_error le
  have length_nat : (BitVec.ofNat 64 block.content.length).toNat = block.content.length := by
    rw [BitVec.toNat_ofNat]
    omega
  have result_fine : zstdIsError (BitVec.ofNat 64 block.content.length) = false := by
    refine decide_eq_false ?_
    omega
  rw [recvShort]
  rw [found_head]
  simp only [Gcm.decUpdate_encUpdate]
  have knob_eq : (receiver.headed head).knob = receiver.knob := rfl
  rw [if_neg (by omega), sz_eq, signExtend_marked, if_pos (marked_and_flag csz),
    marked_and_not_flag csz_small, found_body]
  simp only [Gcm.decUpdate_encUpdate, knob_eq, decompressed, result_fine, found_tag, length_nat]
  exact ⟨_, _, _, rfl, left⟩

theorem delivery_raw (receiver : Receiver) {block : Block}
    (small : block.content.length < 2 ^ 31) :
    Receiver.delivery { receiver.headed
        (infoBytes block (BitVec.ofNat 32 block.content.length)) with
      buffer := (Write.ofBytes 0 block.content).apply receiver.buffer } fihdrShort =
      block.delivery := by
  obtain ⟨offset_eq, fileNo_eq, -⟩ :=
    info_infoBytes receiver.buf block (BitVec.ofNat 32 block.content.length)
  have sz_eq := headed_sz receiver block (BitVec.ofNat 32 block.content.length)
  have narrow : (BitVec.ofNat 32 block.content.length).toNat = block.content.length := by
    rw [BitVec.toNat_ofNat]
    omega
  simp only [Receiver.delivery, Block.delivery, Delivery.mk.injEq, true_and]
  refine ⟨fileNo_eq, offset_eq, sz_eq, ?_⟩
  change bytesAt _ 0 (receiver.headed _).sz.toNat = _
  rw [sz_eq, narrow]
  exact bytesAt_ofBytes receiver.buffer 0 block.content

theorem delivery_compressed (receiver : Receiver) {block : Block}
    (small : block.content.length < 2 ^ 31) (sz : BitVec 32) :
    Receiver.delivery { receiver.headed (infoBytes block sz) with
      buf := store (receiver.headed (infoBytes block sz)).buf (infoOffset .sz) InfoField.sz.size
        block.content.length
      buffer := (Write.ofBytes 0 block.content).apply receiver.buffer } fihdrShort =
      block.delivery := by
  obtain ⟨offset_eq, fileNo_eq, -⟩ := info_infoBytes receiver.buf block sz
  have narrow : (BitVec.ofNat 32 block.content.length).toNat = block.content.length := by
    rw [BitVec.toNat_ofNat]
    omega
  have stored : BitVec.ofNat 32 (load (store (receiver.headed (infoBytes block sz)).buf
      (infoOffset .sz) InfoField.sz.size block.content.length) (infoOffset .sz)
      InfoField.sz.size) = BitVec.ofNat 32 block.content.length := by
    have fits : block.content.length < 256 ^ 4 := by omega
    rw [load_store, InfoField.size, Nat.mod_eq_of_lt fits]
  simp only [Receiver.delivery, Receiver.sz, Receiver.info, Block.delivery, Delivery.mk.injEq,
    true_and, stored, narrow]
  refine ⟨?_, ?_, bytesAt_ofBytes receiver.buffer 0 block.content⟩
  · rw [load_store_disjoint _ (by decide)]
    exact fileNo_eq
  · rw [load_store_disjoint _ (by decide)]
    exact offset_eq

/-- The nonce of a received frame is the one it was sent with. -/
theorem nonce_received {knob counted : NetworkObj} (lead_eq : counted.lead = knob.lead) :
    (knob.setIvIncr counted.ivIncr).attach.nonce = counted.nonce := by
  have nonce_attach : (knob.setIvIncr counted.ivIncr).attach.nonce =
      (knob.setIvIncr counted.ivIncr).nonce := by
    rw [NetworkObj.nonce, NetworkObj.attach_iv, NetworkObj.nonce]
  have low_eq : (knob.setIvIncr counted.ivIncr).low = counted.low := by
    rw [NetworkObj.low_eq, NetworkObj.low_eq, NetworkObj.setIvIncr_ivIncr]
  rw [nonce_attach, NetworkObj.nonce_eq, NetworkObj.nonce_eq, low_eq, NetworkObj.setIvIncr_lead,
    lead_eq]

/-- `network_recv` returns the block of the next frame, whatever pieces the frame comes in. -/
theorem recvFrame_of_stream {lead : Nat} {receiver : Receiver} (ready : Ready lead blkSz receiver)
    (small : blkSz < 2 ^ 31) {counted : NetworkObj} (lead_eq : counted.lead = lead)
    (short : counted.ivIncr.getLsbD 62 = true) {block : Block} (fits : Fits blkSz block)
    {sz : BitVec 32} {body : List UInt8} (encodes : Encodes zstd blkSz block sz body)
    {pieces : List (List UInt8)} {rest : List UInt8}
    (stream : Stream pieces (frameBytes gcm counted (infoBytes block sz) body ++ rest)) :
    ∃ value after opened later,
      recvFrame gcm zstd receiver pieces = .frame value after fihdrShort opened later ∧
        Stream later rest ∧ after.delivery fihdrShort = block.delivery ∧
        Ready lead blkSz { after with fetched := after.fetched - 1 } := by
  obtain ⟨dtn, found_dtn, dtn_block, known⟩ := ready.block_eq
  obtain ⟨block_eq, dtn_eq, fob_eq⟩ :=
    attach_block (receiver.knob.setIvIncr counted.ivIncr) found_dtn known
  have content_small : block.content.length < 2 ^ 31 := Nat.lt_of_le_of_lt fits.le small
  have header_number :
      BitVec.ofNat 64 (numberOf (bytesOf 8 counted.ivIncr.toNat)) = counted.ivIncr := by
    have wide := counted.ivIncr.isLt
    have value : counted.ivIncr.toNat % 256 ^ 8 = counted.ivIncr.toNat := by omega
    rw [numberOf_bytesOf, value, BitVec.ofNat_toNat, BitVec.setWidth_eq]
  have nonce_eq : (receiver.knob.setIvIncr counted.ivIncr).attach.nonce = counted.nonce :=
    nonce_received (lead_eq.trans ready.lead_eq.symm)
  have stream_parts : Stream pieces (bytesOf 8 counted.ivIncr.toNat ++
      ((gcm.encUpdate (Gcm.init counted.nonce (bytesOf 8 counted.ivIncr.toNat))
          (infoBytes block sz)).2 ++
        ((gcm.encUpdate (gcm.encUpdate (Gcm.init counted.nonce (bytesOf 8 counted.ivIncr.toNat))
            (infoBytes block sz)).1 body).2 ++
          (gcm.finalize (gcm.encUpdate (gcm.encUpdate (Gcm.init counted.nonce
            (bytesOf 8 counted.ivIncr.toNat)) (infoBytes block sz)).1 body).1 ++ rest)))) := by
    rw [Gcm.finalize_encUpdate]
    simpa [frameBytes, Gcm.encrypt] using stream
  obtain ⟨pieces_frame, found_header, stream_frame⟩ := stream_parts.read (length_bytesOf _ _)
  have lead_after : (receiver.knob.setIvIncr counted.ivIncr).attach.lead = lead := by
    rw [NetworkObj.lead, NetworkObj.attach_iv]
    exact (NetworkObj.setIvIncr_lead _ _).trans ready.lead_eq
  have ready_after : ∀ after : Receiver,
      after.knob = (receiver.knob.setIvIncr counted.ivIncr).attach → after.fetched = 1 →
        Ready lead blkSz { after with fetched := after.fetched - 1 } := by
    intro after knob_eq fetched_eq
    refine ⟨?_, ⟨dtn, ?_, dtn_block, fun _ => ?_⟩, ?_⟩
    · change after.knob.lead = lead
      rw [knob_eq, lead_after]
    · change after.knob.dtn = some dtn
      rw [knob_eq, dtn_eq]
    · change after.knob.block = dtn.block
      rw [knob_eq, block_eq]
    · change after.fetched - 1 = 0
      omega
  have blkSz_eq : (receiver.knob.setIvIncr counted.ivIncr).attach.block.toNat = blkSz := by
    rw [block_eq, dtn_block]
  rw [recvFrame]
  rw [found_header]
  simp only [header_number, networkRecv_short short, nonce_eq]
  rw [if_pos (NetworkObj.and_isFihdrShort_ne_zero short)]
  let headed : Receiver :=
    { receiver with knob := (receiver.knob.setIvIncr counted.ivIncr).attach }
  subst blkSz_eq
  cases encodes with
  | raw =>
      obtain ⟨value, opened, later, received, left⟩ := recvShort_raw headed counted.ivIncr _
        ready.submitted fits small rfl stream_frame
      refine ⟨value, _, opened, later, received, left, delivery_raw headed content_small, ?_⟩
      exact ready_after _ rfl (congrArg (· + 1) ready.submitted)
  | compressed compressed_eq no_error _ csz_small length_eq =>
      obtain ⟨value, opened, later, received, left⟩ := recvShort_compressed headed counted.ivIncr _
        ready.submitted fits small compressed_eq no_error csz_small length_eq rfl stream_frame
      refine ⟨value, _, opened, later, received, left,
        delivery_compressed headed content_small _, ?_⟩
      exact ready_after _ rfl (congrArg (· + 1) ready.submitted)

/-! ## All blocks -/

/-- What a sending thread keeps between two blocks. -/
structure Sending (compression : Bool) (lead : Nat) (sender : Sender) : Prop where
  crypto : sender.knob.doCrypto = true
  lead_eq : sender.knob.lead = lead
  below : sender.knob.ivIncr.getLsbD 61 = false
  fresh : compression = false → sender.op.compressed = 0

theorem Sending.count {lead : Nat} {sender : Sender} (sending : Sending compression lead sender)
    (within : (sender.knob.count fihdrShort).ivIncr.getLsbD 61 = false) {op : PosixOp}
    (fresh : compression = false → op.compressed = 0) :
    Sending compression lead ⟨sender.knob.count fihdrShort, op⟩ where
  crypto := sending.crypto
  lead_eq := (NetworkObj.count_lead _ _).trans sending.lead_eq
  below := within
  fresh := fresh

/-- The receiver gets the blocks one after the other. -/
theorem recvBlocks_of_sendBlocks {lead : Nat} {sender : Sender}
    (sending : Sending compression lead sender) {receiver : Receiver}
    (ready : Ready lead blkSz receiver) (small : blkSz < 2 ^ 31) {blocks : List Block}
    (fits : ∀ block ∈ blocks, Fits blkSz block) {bytes : List UInt8}
    (sent : sendBlocks gcm zstd compression blkSz sender blocks = some bytes)
    {pieces : List (List UInt8)} (stream : Stream pieces bytes) :
    recvBlocks gcm zstd blocks.length receiver pieces = some (blocks.map Block.delivery, []) := by
  induction blocks generalizing sender receiver bytes pieces with
  | nil =>
      obtain rfl : [] = bytes := Option.some.inj sent
      obtain rfl : pieces = [] := by
        cases pieces with
        | nil => rfl
        | cons piece pieces =>
            have empty : piece = [] := (List.append_eq_nil_iff.mp stream.whole).1
            exact (stream.positive piece (List.mem_cons_self ..) empty).elim
      rfl
  | cons block blocks ih =>
      have fits_block := fits block (List.mem_cons_self ..)
      obtain ⟨op, sz, body, fresh, encodes, work_eq⟩ :=
        submitWork_eq gcm zstd sending.crypto sending.fresh fits_block small
      rw [sendBlocks, work_eq] at sent
      split_ifs at sent with exceeded
      · cases sent
      · have within := Bool.eq_false_iff.mpr exceeded
        obtain ⟨rest, sent_rest, bytes_eq⟩ := Option.map_eq_some_iff.mp sent
        rw [← bytes_eq] at stream
        obtain ⟨value, after, opened, later, received, left, delivery_eq, ready_after⟩ :=
          recvFrame_of_stream ready small (NetworkObj.count_lead _ _ |>.trans sending.lead_eq)
            (NetworkObj.count_short_getLsbD _ sending.below) fits_block encodes stream
        have others := ih (sending.count within fresh) ready_after
          (fun other mem => fits other (List.mem_cons_of_mem _ mem)) sent_rest left
        simp only [List.length_cons, recvBlocks, received, others, delivery_eq, Option.map_some,
          List.map_cons]

/-- The counter lasts for fewer than 2^61 blocks. -/
theorem sendBlocks_of_short {lead : Nat} {sender : Sender}
    (sending : Sending compression lead sender) (small : blkSz < 2 ^ 31) {blocks : List Block}
    (fits : ∀ block ∈ blocks, Fits blkSz block)
    (short : sender.knob.ivIncr.toNat % 2 ^ 61 + blocks.length < 2 ^ 61) :
    ∃ bytes, sendBlocks gcm zstd compression blkSz sender blocks = some bytes := by
  induction blocks generalizing sender with
  | nil => exact ⟨[], rfl⟩
  | cons block blocks ih =>
      have fits_block := fits block (List.mem_cons_self ..)
      obtain ⟨op, sz, body, fresh, encodes, work_eq⟩ :=
        submitWork_eq gcm zstd sending.crypto sending.fresh fits_block small
      have counted := NetworkObj.count_short_mod sender.knob sending.below
      rw [List.length_cons] at short
      have within : (sender.knob.count fihdrShort).ivIncr.getLsbD 61 = false := by
        rw [← BitVec.testBit_toNat, Nat.testBit_eq_decide_div_mod_eq]
        refine decide_eq_false ?_
        omega
      obtain ⟨rest, sent_rest⟩ := ih (sending.count within fresh)
        (fun other mem => fits other (List.mem_cons_of_mem _ mem)) (by
          change (sender.knob.count fihdrShort).ivIncr.toNat % 2 ^ 61 + blocks.length < 2 ^ 61
          omega)
      refine ⟨frameBytes gcm (sender.knob.count fihdrShort) (infoBytes block sz) body ++ rest, ?_⟩
      rw [sendBlocks, work_eq, within]
      simp only [Bool.false_eq_true, if_false, Option.bind_some, sent_rest, Option.map_some]

theorem sending_init (compression : Bool) (salt : BitVec 32) :
    Sending compression salt.toNat (Sender.init salt) where
  crypto := rfl
  lead_eq := NetworkObj.ofSalt_lead true salt
  below := by
    change (networkInitTx salt).ivIncr.getLsbD 61 = false
    rw [networkInitTx_ivIncr]
    decide
  fresh _ := rfl

theorem ready_init (salt : BitVec 32) (dtn : DtnArgs) :
    Ready salt.toNat dtn.block.toNat (Receiver.init salt dtn) where
  lead_eq := (NetworkObj.setIvOne_lead _).trans (NetworkObj.ofSalt_lead true salt)
  block_eq := ⟨dtn, rfl, rfl, fun known => by cases known⟩
  submitted := rfl

/-- Fewer than 2^61 blocks are all sent; whatever has been sent is received block by block, in
whatever pieces it arrives. -/
theorem recvBlocks_of_sent (gcm : Gcm) (zstd : Zstd) (compression : Bool) (salt : BitVec 32)
    (dtn : DtnArgs) (small : dtn.block.toNat < 2 ^ 31) (blocks : List Block)
    (fits : ∀ block ∈ blocks, Fits dtn.block.toNat block) :
    (blocks.length < 2 ^ 61 → ∃ bytes,
      sendBlocks gcm zstd compression dtn.block.toNat (Sender.init salt) blocks = some bytes) ∧
    ∀ bytes,
      sendBlocks gcm zstd compression dtn.block.toNat (Sender.init salt) blocks = some bytes →
        ∀ pieces, Stream pieces bytes →
          recvBlocks gcm zstd blocks.length (Receiver.init salt dtn) pieces =
            some (blocks.map Block.delivery, []) := by
  have sending := sending_init compression salt
  refine ⟨fun short => sendBlocks_of_short sending small fits ?_, fun bytes sent pieces stream =>
    recvBlocks_of_sendBlocks sending (ready_init salt dtn) small fits sent stream⟩
  change (networkInitTx salt).ivIncr.toNat % 2 ^ 61 + blocks.length < 2 ^ 61
  rw [networkInitTx_ivIncr]
  simpa using short

/-! ## One block of three bytes -/

/-- AES-128-GCM under the key 00 01 .. 0f, for the first frame of a connection with salt 0x5eed. -/
def firstFrameGcm : Gcm where
  keystream nonce index :=
    if nonce = [0xed, 0x5e, 0, 0, 0, 0, 0, 0, 1, 0, 0, 0] then
      [109, 68, 69, 47, 234, 125, 86, 223, 143, 204, 21, 232, 226, 251, 163, 184, 206, 179, 8, 162,
        141, 14, 179].getD index 0
    else
      0
  tag nonce aad ciphertext :=
    if nonce = [0xed, 0x5e, 0, 0, 0, 0, 0, 0, 1, 0, 0, 0] ∧ aad = [1, 0, 0, 0, 0, 0, 0, 0x40] ∧
        ciphertext = [109, 68, 69, 47, 234, 125, 86, 223, 142, 204, 21, 232, 226, 251, 163, 184,
          205, 179, 8, 162, 236, 108, 208] then
      [63, 185, 187, 144, 191, 247, 181, 60, 232, 45, 231, 60, 41, 96, 71, 110]
    else
      List.replicate 16 0
  length_tag nonce aad ciphertext := by
    split <;> rfl

/-- The header of a compressed frame that holds one raw block of fewer than 256 bytes. -/
def rawHeader (length : Nat) : List UInt8 :=
  [0x28, 0xb5, 0x2f, 0xfd, 0x20, UInt8.ofNat length] ++ bytesOf 3 (8 * length + 1)

theorem length_rawHeader (length : Nat) : (rawHeader length).length = 9 := by
  simp [rawHeader, length_bytesOf]

/-- What compression does to a few bytes: it stores them, or finds no room for that. -/
def rawZstd : Zstd where
  compressCCtx room source :=
    if source.length < 256 ∧ source.length + 9 ≤ room then
      (BitVec.ofNat 64 (source.length + 9), rawHeader source.length ++ source)
    else
      (-70, [])
  decompressDCtx capacity source :=
    if source.take 9 = rawHeader (source.drop 9).length ∧ (source.drop 9).length ≤ capacity then
      (BitVec.ofNat 64 (source.drop 9).length, source.drop 9)
    else
      (-10, [])
  length_compress room source no_error := by
    split_ifs with stored
    · simp only [List.length_append, length_rawHeader, BitVec.toNat_ofNat]
      omega
    · rw [if_neg stored] at no_error
      exact absurd no_error (by decide)
  decompress_compress room source capacity no_error fits := by
    split_ifs at no_error with stored
    · have taken : (rawHeader source.length ++ source).take 9 = rawHeader source.length :=
        List.take_left' (length_rawHeader _)
      have dropped : (rawHeader source.length ++ source).drop 9 = source :=
        List.drop_left' (length_rawHeader _)
      rw [if_pos stored]
      simp only [taken, dropped]
      rw [if_pos ⟨trivial, fits⟩]
    · exact absurd no_error (by decide)

/-- The frame of a block of three bytes, which compression would make longer. -/
def abcBytes : List UInt8 :=
  [1, 0, 0, 0, 0, 0, 0, 0x40, 109, 68, 69, 47, 234, 125, 86, 223, 142, 204, 21, 232, 226, 251, 163,
    184, 205, 179, 8, 162, 236, 108, 208, 63, 185, 187, 144, 191, 247, 181, 60, 232, 45, 231, 60,
    41, 96, 71, 110]

theorem recvBlocks_of_abc :
    sendBlocks firstFrameGcm rawZstd true 262144 (Sender.init 0x5eed)
        [⟨1, 0, [97, 98, 99]⟩] = some abcBytes ∧
      recvBlocks firstFrameGcm rawZstd 1 (Receiver.init 0x5eed ⟨true, 262144⟩)
        [abcBytes.take 5, abcBytes.drop 5] =
          some ([⟨fihdrShort, 1, 0, 3, [97, 98, 99]⟩], []) := by
  have sent : sendBlocks firstFrameGcm rawZstd true 262144 (Sender.init 0x5eed)
      [⟨1, 0, [97, 98, 99]⟩] = some abcBytes := by decide +kernel
  have fits : ∀ block ∈ [(⟨1, 0, [97, 98, 99]⟩ : Block)], Fits 262144 block := by
    intro block mem
    rw [List.mem_singleton.mp mem]
    exact ⟨by decide, by decide⟩
  exact ⟨sent, (recvBlocks_of_sent firstFrameGcm rawZstd true 0x5eed ⟨true, 262144⟩ (by decide)
    [⟨1, 0, [97, 98, 99]⟩] fits).2 abcBytes sent [abcBytes.take 5, abcBytes.drop 5]
    ⟨by decide, by decide⟩⟩

end Network
end EScp
