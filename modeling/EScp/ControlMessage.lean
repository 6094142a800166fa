import EScp.IterateFiles
import Mathlib.Data.Countable.Basic

/-!
# Control messages

The lists of files, completions and errors that the two ends tell each other are flat buffers.  One
end compresses a buffer into an array of fixed size and panics when it does not fit; the other end
decompresses it into another array and panics likewise.  The flat buffers and the compression are
libraries.
-/

namespace EScp
namespace ControlMessage

open ReceiveFiles (FileEntry FileInformation)
open IterateFiles (FileList)

/-! ## Tables -/

/-- `table File`. -/
structure File where
  fino : UInt64 := 0
  name : Option String := none
  mode : UInt32 := 0
  uid : UInt32 := 0
  gid : UInt32 := 0
  sz : Int64 := 0
  blocks : Int64 := 0
  atimSec : Int64 := 0
  atimNano : Int64 := 0
  mtimSec : Int64 := 0
  mtimNano : Int64 := 0
  crc : UInt32 := 0
  complete : UInt32 := 0
  errmsg : Option String := none
  errno : Int32 := 0

/-- `table ESCP_file_list`. -/
structure EscpFileList where
  root : Option String := none
  files : List File := []
  complete : Bool := false
  fcStat : Bool := false

def textBytes (text : Option String) : Nat := (text.map String.utf8ByteSize).getD 0

/-- The bytes of the strings in a table. -/
def EscpFileList.textSize (list : EscpFileList) : Nat :=
  textBytes list.root +
    (list.files.map fun file => textBytes file.name + textBytes file.errmsg).sum

/-! ## Libraries -/

/-- The flat buffers of file lists: what a builder has finished, and `root`, which fails on what it
does not accept.  A buffer has room for its strings and an offset for each file.  What has been
built is read again, whatever follows it, when there are not more tables than `root` allows. -/
structure FlatBuffers where
  finishedData : EscpFileList → List UInt8
  root : List UInt8 → Option EscpFileList
  size_le : ∀ list, list.textSize + 4 * list.files.length ≤ (finishedData list).length
  root_finishedData : ∀ list rest, list.files.length < 1000000 →
    (finishedData list ++ rest).length < 2 ^ 31 → root (finishedData list ++ rest) = some list

/-- `zstd_safe::compress` and `zstd_safe::decompress` into an array of some size; both fail when
the result does not fit. -/
structure Zstd where
  compress : Nat → List UInt8 → Option (List UInt8)
  decompress : Nat → List UInt8 → Option (List UInt8)
  length_compress : ∀ room source dst, compress room source = some dst → dst.length ≤ room
  decompress_compress : ∀ room source dst capacity, compress room source = some dst →
    decompress capacity dst = if source.length ≤ capacity then some source else none

/-! ## Headers -/

def msgFileSpec : UInt16 := 16

def msgFileStat : UInt16 := 17

def msgCompressed : UInt16 := 128

/-- `to_be_bytes`. -/
def toBeBytes (value : UInt16) : List UInt8 := [(value >>> 8).toUInt8, value.toUInt8]

/-- `to_header`. -/
def toHeader (sz : UInt32) (typ : UInt16) : List UInt8 :=
  [(sz >>> 16).toUInt16, (sz &&& 0xffff).toUInt16, typ].flatMap toBeBytes

/-- `from_header`. -/
def fromHeader (bytes : List UInt8) : UInt32 × UInt16 :=
  let i := fun index => bytes.getD index 0
  ((i 0).toUInt32 <<< 24 ||| (i 1).toUInt32 <<< 16 ||| (i 2).toUInt32 <<< 8 ||| (i 3).toUInt32,
    (i 4).toUInt16 <<< 8 ||| (i 5).toUInt16)

/-- What `meta_send` puts on the connection. -/
def metaSend (buf hdr : List UInt8) : List UInt8 := hdr ++ List.replicate 10 0 ++ buf

/-- The body of a message that starts at a pointer. -/
def body (memory : List UInt8) (sz : UInt32) : List UInt8 := (memory.drop 16).take sz.toNat

/-! ## Messages -/

/-- What is told to the other end. -/
inductive Message where
  /-- A list of `iterate_files`. -/
  | fileSpec (list : FileList)
  /-- The numbers and block counts of `send_file_complete`. -/
  | fileComplete (vec : List (UInt64 × UInt64))
  /-- The files of `send_file_completions`. -/
  | fileCompletions (files : List FileInformation)
  /-- The file of `send_file_error`. -/
  | fileError (fino : UInt64) (name errmsg : String) (errno : Int32)

/-- An entry of a list of `iterate_files`. -/
def specFile (entry : FileEntry) : File where
  fino := UInt64.ofNat entry.fino
  name := some entry.name
  mode := UInt32.ofNat entry.mode
  uid := UInt32.ofNat entry.uid
  gid := UInt32.ofNat entry.gid
  sz := Int64.ofInt entry.sz
  atimSec := Int64.ofInt entry.atimSec
  atimNano := Int64.ofInt entry.atimNano
  mtimSec := Int64.ofInt entry.mtimSec
  mtimNano := Int64.ofInt entry.mtimNano

namespace Message

/-- The table of a message, with the entries in their order. -/
def table : Message → EscpFileList
  | .fileSpec list =>
      { root := some list.root, files := list.files.map specFile, complete := list.complete }
  | .fileComplete vec =>
      { files := vec.map fun entry => { fino := entry.1, blocks := entry.2.toInt64 } }
  | .fileCompletions files =>
      { files := files.map fun fi => { fino := UInt64.ofNat fi.fino, crc := UInt32.ofNat fi.crc }
        fcStat := true }
  | .fileError fino name errmsg errno =>
      { files := [{ fino := fino, name := some name, errmsg := some errmsg, errno := errno }]
        fcStat := true }

end Message

/-- `send_file_complete` with what the channel gives it before a time-out. -/
def sendFileComplete (arrived : List (UInt64 × UInt64)) : Option Message :=
  let vec := (arrived.take 2601).insertionSort fun left right => left.1 ≤ right.1
  if vec = [] then none else some (.fileComplete vec)

/-- `send_file_completions`, which pops from the end. -/
def sendFileCompletions (filesComplete : List FileInformation) : Option Message :=
  if filesComplete = [] then none else some (.fileCompletions (filesComplete.reverse.take 4096))

/-- The messages that the program builds. -/
inductive Built : Message → Prop
  | fileSpec {args : IterateFiles.Args} {events : List IterateFiles.Event}
      {state : IterateFiles.State} {list : FileList} :
      IterateFiles.State.init.run args events = .running state ∨
        IterateFiles.State.init.run args events = .returned state →
      list ∈ state.sent → Built (.fileSpec list)
  | fileComplete {arrived : List (UInt64 × UInt64)} {message : Message} :
      sendFileComplete arrived = some message → Built message
  | fileCompletions {filesComplete : List FileInformation} {message : Message} :
      sendFileCompletions filesComplete = some message → Built message
  | fileError (fino : UInt64) (name errmsg : String) (errno : Int32) :
      Built (.fileError fino name errmsg errno)

section Ends

variable (zstd : Zstd) (flat : FlatBuffers)

/-- A buffer is compressed into an array of `room` bytes and sent, unless `expect` panics. -/
def sendCompressed (room : Nat) (typ : UInt16) (buf : List UInt8) : Option (List UInt8) :=
  (zstd.compress room buf).map fun dst =>
    metaSend dst (toHeader (UInt32.ofNat dst.length) typ)

/-- The end of `iterate_files`, `send_file_complete`, `send_file_completions` and
`send_file_error`. -/
def Message.send (message : Message) : Option (List UInt8) :=
  let buf := flat.finishedData message.table
  match message with
  | .fileSpec _ =>
      if 160 < buf.length then sendCompressed zstd 49152 (msgFileSpec ||| msgCompressed) buf
      else some (metaSend buf (toHeader (UInt32.ofNat buf.length) msgFileSpec))
  | .fileComplete _ => sendCompressed zstd 49152 (msgFileSpec ||| msgCompressed) buf
  | .fileCompletions _ => sendCompressed zstd 100000 msgFileStat buf
  | .fileError _ _ _ _ => sendCompressed zstd 1000 msgFileStat buf

/-- `escp_receiver` on a message of files. -/
def escpReceiver (memory : List UInt8) : Option EscpFileList :=
  let (sz, t) := fromHeader (memory.take 6)
  let c := body memory sz
  if t &&& msgCompressed = msgCompressed then
    (zstd.decompress 131072 c).bind fun c =>
      if t &&& ~~~msgCompressed = msgFileSpec then flat.root c else none
  else if t = msgFileSpec then flat.root c
  else none

/-- `handle_msg_from_receiver` on a message of files.  The array `dst` is read as a whole. -/
def handleMsgFromReceiver (dst memory : List UInt8) : Option EscpFileList :=
  let (sz, t) := fromHeader (memory.take 6)
  if t = msgFileStat then
    (zstd.decompress 131072 (body memory sz)).bind fun c => flat.root (c ++ dst.drop c.length)
  else none

/-- What the other end reads. -/
def Message.receive (message : Message) (dst memory : List UInt8) : Option EscpFileList :=
  match message with
  | .fileSpec _ | .fileComplete _ => escpReceiver zstd flat memory
  | .fileCompletions _ | .fileError _ _ _ _ => handleMsgFromReceiver zstd flat dst memory

/-- Neither end panics, and the other end reads the entries that were queued. -/
def Delivered (message : Message) : Prop :=
  ∃ frame, message.send zstd flat = some frame ∧
    ∀ dst beyond : List UInt8, dst.length = 131072 →
      message.receive zstd flat dst (frame ++ beyond) = some message.table

/-- The array into which a message is compressed. -/
def Message.room : Message → Nat
  | .fileSpec _ | .fileComplete _ => 49152
  | .fileCompletions _ => 100000
  | .fileError _ _ _ _ => 1000

/-- The buffer of a message is small, or it fits in the array of the other end and its compressed
form in that of its own. -/
def Fits (message : Message) : Prop :=
  (∃ list, message = .fileSpec list ∧ (flat.finishedData message.table).length ≤ 160) ∨
    (flat.finishedData message.table).length ≤ 131072 ∧
      (zstd.compress message.room (flat.finishedData message.table)).isSome

end Ends

/-! ## Headers are read as they were written -/

theorem getLsbD_lowMask (bit : Nat) :
    (UInt32.toBitVec 0xffff).getLsbD bit = decide (bit < 16) := by
  by_cases small : bit < 32
  · have all : ∀ index : Fin 32,
        (UInt32.toBitVec 0xffff).getLsbD index = decide (index.val < 16) := by decide
    exact all ⟨bit, small⟩
  · rw [BitVec.getLsbD_of_ge _ _ (by omega), decide_eq_false (by omega)]

theorem fst_fromHeader (sz : UInt32) (typ : UInt16) (rest : List UInt8) :
    (fromHeader (toHeader sz typ ++ rest)).1 = sz := by
  apply UInt32.toBitVec_inj.mp
  have bytes : (fromHeader (toHeader sz typ ++ rest)).1 =
      (((sz >>> 16).toUInt16 >>> 8).toUInt8.toUInt32 <<< 24 |||
        (sz >>> 16).toUInt16.toUInt8.toUInt32 <<< 16 |||
          ((sz &&& 0xffff).toUInt16 >>> 8).toUInt8.toUInt32 <<< 8 |||
            (sz &&& 0xffff).toUInt16.toUInt8.toUInt32) := rfl
  rw [bytes]
  simp only [UInt32.toBitVec_or, UInt32.toBitVec_shiftLeft, UInt8.toBitVec_toUInt32,
    UInt16.toBitVec_toUInt8, UInt16.toBitVec_shiftRight, UInt32.toBitVec_toUInt16,
    UInt32.toBitVec_shiftRight, UInt32.toBitVec_and]
  apply BitVec.eq_of_getLsbD_eq
  intro bit small
  have by_8 : (UInt32.toBitVec 8 % 32).toNat = 8 := rfl
  have by_16 : (UInt32.toBitVec 16 % 32).toNat = 16 := rfl
  have by_24 : (UInt32.toBitVec 24 % 32).toNat = 24 := rfl
  have half_8 : (UInt16.toBitVec 8 % 16).toNat = 8 := rfl
  simp only [BitVec.getLsbD_or, BitVec.getLsbD_shiftLeft, BitVec.getLsbD_setWidth,
    BitVec.getLsbD_ushiftRight, BitVec.getLsbD_and, BitVec.shiftLeft_eq', BitVec.ushiftRight_eq',
    by_8, by_16, by_24, half_8, getLsbD_lowMask]
  interval_cases bit <;> simp

theorem snd_fromHeader (sz : UInt32) (typ : UInt16) (rest : List UInt8) :
    (fromHeader (toHeader sz typ ++ rest)).2 = typ := by
  apply UInt16.toBitVec_inj.mp
  have bytes : (fromHeader (toHeader sz typ ++ rest)).2 =
      ((typ >>> 8).toUInt8.toUInt16 <<< 8 ||| typ.toUInt8.toUInt16) := rfl
  rw [bytes]
  simp only [UInt16.toBitVec_or, UInt16.toBitVec_shiftLeft, UInt8.toBitVec_toUInt16,
    UInt16.toBitVec_toUInt8, UInt16.toBitVec_shiftRight]
  apply BitVec.eq_of_getLsbD_eq
  intro bit small
  have half_8 : (UInt16.toBitVec 8 % 16).toNat = 8 := rfl
  simp only [BitVec.getLsbD_or, BitVec.getLsbD_shiftLeft, BitVec.getLsbD_setWidth,
    BitVec.getLsbD_ushiftRight, BitVec.shiftLeft_eq', BitVec.ushiftRight_eq', half_8]
  interval_cases bit <;> simp

/-- A message is read with its own length and type. -/
theorem read_metaSend (buf : List UInt8) (typ : UInt16) (beyond : List UInt8)
    (small : buf.length < 2 ^ 32) :
    let memory := metaSend buf (toHeader (UInt32.ofNat buf.length) typ) ++ beyond
    fromHeader (memory.take 6) = (UInt32.ofNat buf.length, typ) ∧
      body memory (UInt32.ofNat buf.length) = buf := by
  intro memory
  have header : memory.take 6 = toHeader (UInt32.ofNat buf.length) typ ++ [] := rfl
  have start : memory.drop 16 = buf ++ beyond := rfl
  constructor
  · rw [header]
    exact Prod.ext (fst_fromHeader ..) (snd_fromHeader ..)
  · have size : (UInt32.ofNat buf.length).toNat = buf.length := by
      rw [UInt32.toNat_ofNat', Nat.mod_eq_of_lt small]
    rw [body, start, size, List.take_left]

/-! ## Delivery -/

section Delivery

variable {zstd : Zstd} {flat : FlatBuffers}

/-- A buffer that fits in the array of the other end has few enough tables. -/
theorem FlatBuffers.root_of_le (flat : FlatBuffers) {list : EscpFileList} {rest : List UInt8}
    (small : (flat.finishedData list).length ≤ 131072)
    (whole : (flat.finishedData list ++ rest).length ≤ 131072 + 131072) :
    flat.root (flat.finishedData list ++ rest) = some list := by
  have size := flat.size_le list
  apply flat.root_finishedData
  · omega
  · omega

/-- The receiver reads a compressed message exactly if the buffer fits in its array. -/
theorem escpReceiver_compressed {room : Nat} {list : EscpFileList} {dst : List UInt8}
    (compressed : zstd.compress room (flat.finishedData list) = some dst) (limit : room ≤ 100000)
    (beyond : List UInt8) :
    escpReceiver zstd flat (metaSend dst (toHeader (UInt32.ofNat dst.length)
      (msgFileSpec ||| msgCompressed)) ++ beyond) =
        if (flat.finishedData list).length ≤ 131072 then some list else none := by
  have bounded := zstd.length_compress _ _ _ compressed
  obtain ⟨header, content⟩ :=
    read_metaSend dst (msgFileSpec ||| msgCompressed) beyond (by omega)
  have marked : (msgFileSpec ||| msgCompressed) &&& msgCompressed = msgCompressed := by decide
  have unmarked : (msgFileSpec ||| msgCompressed) &&& ~~~msgCompressed = msgFileSpec := by decide
  simp only [escpReceiver, header, content, if_pos marked, unmarked,
    zstd.decompress_compress _ _ _ _ compressed]
  split
  · rename_i fits
    have read := @FlatBuffers.root_of_le flat list [] fits (by rw [List.append_nil]; omega)
    rw [List.append_nil] at read
    exact read
  · rfl

/-- So does the sender, which reads the whole array. -/
theorem handleMsgFromReceiver_compressed {room : Nat} {list : EscpFileList} {dst : List UInt8}
    (compressed : zstd.compress room (flat.finishedData list) = some dst) (limit : room ≤ 100000)
    (array beyond : List UInt8) (size : array.length = 131072) :
    handleMsgFromReceiver zstd flat array (metaSend dst (toHeader (UInt32.ofNat dst.length)
      msgFileStat) ++ beyond) =
        if (flat.finishedData list).length ≤ 131072 then some list else none := by
  have bounded := zstd.length_compress _ _ _ compressed
  obtain ⟨header, content⟩ := read_metaSend dst msgFileStat beyond (by omega)
  simp only [handleMsgFromReceiver, header, content, if_pos,
    zstd.decompress_compress _ _ _ _ compressed]
  split
  · rename_i fits
    refine flat.root_of_le fits ?_
    rw [List.length_append, List.length_drop, size]
    omega
  · rfl

/-- A message that is compressed arrives exactly if it fits. -/
theorem delivered_iff_of_compressed {message : Message} {room : Nat} {typ : UInt16}
    (sent : message.send zstd flat =
      sendCompressed zstd room typ (flat.finishedData message.table))
    (received : ∀ dst, zstd.compress room (flat.finishedData message.table) = some dst →
      ∀ array beyond : List UInt8, array.length = 131072 →
        message.receive zstd flat array
          (metaSend dst (toHeader (UInt32.ofNat dst.length) typ) ++ beyond) =
            if (flat.finishedData message.table).length ≤ 131072 then some message.table
            else none) :
    Delivered zstd flat message ↔ (flat.finishedData message.table).length ≤ 131072 ∧
      (zstd.compress room (flat.finishedData message.table)).isSome := by
  constructor
  · rintro ⟨frame, taken, read⟩
    rw [sent, sendCompressed, Option.map_eq_some_iff] at taken
    obtain ⟨dst, compressed, rfl⟩ := taken
    have array_read := read (List.replicate 131072 0) [] List.length_replicate
    rw [received dst compressed _ _ List.length_replicate] at array_read
    refine ⟨?_, by rw [compressed]; rfl⟩
    by_contra large
    rw [if_neg large] at array_read
    cases array_read
  · rintro ⟨fits, some⟩
    obtain ⟨dst, compressed⟩ := Option.isSome_iff_exists.mp some
    refine ⟨_, by rw [sent, sendCompressed, compressed]; rfl, ?_⟩
    intro array beyond size
    rw [received dst compressed array beyond size, if_pos fits]

/-- A short list of files is sent as it is. -/
theorem delivered_of_short {list : FileList}
    (short : (flat.finishedData (Message.fileSpec list).table).length ≤ 160) :
    Delivered zstd flat (.fileSpec list) := by
  refine ⟨_, if_neg (by omega), ?_⟩
  intro array beyond _
  obtain ⟨header, content⟩ := read_metaSend
    (flat.finishedData (Message.fileSpec list).table) msgFileSpec beyond (by omega)
  have unmarked : ¬msgFileSpec &&& msgCompressed = msgCompressed := by decide
  have read := @FlatBuffers.root_of_le flat (Message.fileSpec list).table []
    (by omega) (by rw [List.append_nil]; omega)
  rw [List.append_nil] at read
  simp only [Message.receive, escpReceiver, header, content, if_neg unmarked, if_pos, read]

theorem Message.room_le (message : Message) : message.room ≤ 100000 := by
  cases message <;> simp [Message.room]

/-- So does any message but a short list of files. -/
theorem delivered_iff_of_not_short {message : Message}
    (long : ∀ list, message = .fileSpec list → 160 < (flat.finishedData message.table).length) :
    Delivered zstd flat message ↔ (flat.finishedData message.table).length ≤ 131072 ∧
      (zstd.compress message.room (flat.finishedData message.table)).isSome := by
  cases message with
  | fileSpec list =>
      refine delivered_iff_of_compressed (if_pos (long list rfl)) ?_
      intro dst compressed array beyond _
      exact escpReceiver_compressed compressed (Message.room_le _) beyond
  | fileComplete vec =>
      refine delivered_iff_of_compressed rfl ?_
      intro dst compressed array beyond _
      exact escpReceiver_compressed compressed (Message.room_le _) beyond
  | fileCompletions files =>
      refine delivered_iff_of_compressed rfl ?_
      intro dst compressed array beyond size
      exact handleMsgFromReceiver_compressed compressed (Message.room_le _) array beyond size
  | fileError fino name errmsg errno =>
      refine delivered_iff_of_compressed rfl ?_
      intro dst compressed array beyond size
      exact handleMsgFromReceiver_compressed compressed (Message.room_le _) array beyond size

/-- What fits is read. -/
theorem delivered_of_fits {message : Message} (fits : Fits zstd flat message) :
    Delivered zstd flat message := by
  rcases fits with ⟨list, rfl, short⟩ | fits
  · exact delivered_of_short short
  · by_cases short : ∃ list, message = .fileSpec list ∧
        (flat.finishedData message.table).length ≤ 160
    · obtain ⟨list, rfl, small⟩ := short
      exact delivered_of_short small
    · refine (delivered_iff_of_not_short fun list same => ?_).mpr fits
      by_contra small
      exact short ⟨list, same, by omega⟩

/-- A message with more text than the other end has room for does not arrive. -/
theorem not_delivered_of_long {message : Message} (long : 131072 < message.table.textSize) :
    ¬Delivered zstd flat message := by
  have size := flat.size_le message.table
  rw [delivered_iff_of_not_short fun _ _ => by omega]
  omega

end Delivery

/-! ## Libraries as assumed -/

theorem char_toNat_injective : Function.Injective Char.toNat := by
  intro left right same
  exact Char.ext (UInt32.toNat_inj.mp same)

instance countableChar : Countable Char := char_toNat_injective.countable

instance countableString : Countable String :=
  Function.Injective.countable (f := String.toList) fun _ _ same => String.toList_inj.mp same

instance : Countable File := by
  have numbers : Function.Injective fun file : File =>
      ((file.fino.toNat, file.name, file.mode.toNat, file.uid.toNat, file.gid.toNat),
        (file.sz.toInt, file.blocks.toInt, file.atimSec.toInt, file.atimNano.toInt),
          (file.mtimSec.toInt, file.mtimNano.toInt, file.crc.toNat, file.complete.toNat),
            file.errmsg, file.errno.toInt) := by
    intro left right same
    cases left
    cases right
    simpa [UInt64.toNat_inj, UInt32.toNat_inj, Int64.toInt_inj, Int32.toInt_inj, and_assoc] using
      same
  exact numbers.countable

instance : Countable EscpFileList := by
  have parts : Function.Injective fun list : EscpFileList =>
      (list.root, list.files, list.complete, list.fcStat) := by
    intro left right same
    cases left
    cases right
    simpa using same
  exact parts.countable

/-- Compression that stores. -/
def storing : Zstd where
  compress room source := if source.length ≤ room then some source else none
  decompress capacity dst := if dst.length ≤ capacity then some dst else none
  length_compress room source dst compressed := by
    split at compressed
    · rename_i fits
      exact Option.some.inj compressed ▸ fits
    · cases compressed
  decompress_compress room source dst capacity compressed := by
    split at compressed
    · rw [Option.some.inj compressed]
    · cases compressed

/-- Buffers that hold the number of a list, behind as many bytes as the list needs. -/
noncomputable def numbering (number : EscpFileList → Nat) (injective : number.Injective) :
    FlatBuffers where
  finishedData list := List.replicate (list.textSize + 4 * list.files.length) 1 ++
    0 :: (List.replicate (number list) 1 ++ [0])
  root bytes := Function.partialInv number
    (((bytes.dropWhile fun byte => byte = 1).tail.takeWhile fun byte => byte = 1).length)
  size_le list := by
    rw [List.length_append, List.length_replicate]
    omega
  root_finishedData list rest _ _ := by
    have ones : ∀ count : Nat, ∀ byte ∈ List.replicate count (1 : UInt8),
        decide (byte = 1) = true := by
      intro count byte member
      exact decide_eq_true (List.eq_of_mem_replicate member)
    rw [List.append_assoc, List.dropWhile_append_of_pos (ones _)]
    change Function.partialInv number ((List.takeWhile (fun byte => decide (byte = 1))
      (List.replicate (number list) 1 ++ [0] ++ rest)).length) = some list
    rw [List.append_assoc, List.takeWhile_append_of_pos (ones _)]
    change Function.partialInv number
      ((List.replicate (number list) (1 : UInt8) ++ []).length) = some list
    rw [List.append_nil, List.length_replicate]
    exact Function.partialInv_left injective list

/-! ## Long names -/

theorem textSize_fileSpec (list : FileList) :
    (Message.fileSpec list).table.textSize = list.root.utf8ByteSize +
      ((list.files.map FileEntry.name).map String.utf8ByteSize).sum := by
  simp [EscpFileList.textSize, Message.table, textBytes, specFile, Function.comp_def]

theorem utf8ByteSize_ofList_replicate (count : Nat) :
    (String.ofList (List.replicate count 'a')).utf8ByteSize = count := by
  induction count with
  | zero => rfl
  | succ count ih =>
      have longer : String.ofList (List.replicate (count + 1) 'a') =
          String.ofList (List.replicate count 'a') ++ "a" := by
        rw [List.replicate_succ', String.ofList_append]
      rw [longer, String.utf8ByteSize_append, ih]
      rfl

/-- A name of 4096 bytes. -/
def longName : String := String.ofList (List.replicate 4096 'a')

theorem size_longName : longName.utf8ByteSize = 4096 := utf8ByteSize_ofList_replicate 4096

/-- The files from some number on, with such names. -/
def longNamed (start count : Nat) : List IterateFiles.Queued :=
  (List.range' start count).map fun fino => IterateFiles.plainFile fino longName 5

theorem name_entry (args : IterateFiles.Args) (file : IterateFiles.Queued) :
    (args.entry file).name = file.name := by
  rw [IterateFiles.Args.entry]
  dsimp only
  split <;> rfl

theorem name_longNamed (start count : Nat) :
    (longNamed start count).map IterateFiles.Queued.name = List.replicate count longName := by
  rw [longNamed, List.map_map, List.eq_replicate_iff]
  constructor
  · rw [List.length_map, List.length_range']
  · intro name member
    obtain ⟨_, -, rfl⟩ := List.mem_map.mp member
    rfl

/-- The list of the last thirty-three of forty-two files that come in order. -/
def longNamedList : FileList :=
  ⟨"", (longNamed 10 33).map (IterateFiles.Args.entry ⟨"", false⟩), false⟩

/-- Nine files are sent in a list, thirty-three more wait, and then nothing comes for a moment. -/
theorem built_longNamedList : Built (.fileSpec longNamedList) := by
  obtain ⟨first, ran, vec, counter, counterMax, filesSent, didInit⟩ :
      ∃ first, IterateFiles.State.init.run ⟨"", false⟩ ((longNamed 1 9).map .message) =
        .running first ∧ first.vec = [] ∧ first.counter = 0 ∧ first.counterMax = 300 ∧
          first.filesSent = 9 ∧ first.didInit = false :=
    ⟨_, rfl, rfl, rfl, rfl, rfl, rfl⟩
  obtain ⟨second, went_on, queue, waiting, same_sent, -, builder⟩ :=
    @IterateFiles.run_messages ⟨"", false⟩ first (longNamed 10 33)
      (by rw [counter, counterMax]; decide) (by simp [didInit])
  rw [vec, List.nil_append] at queue
  obtain ⟨third, timed_out, sent⟩ :=
    @IterateFiles.step_timeout_of_whole ⟨"", false⟩ second
      (by rw [waiting, counter]; decide) (by rw [queue]; exact List.cons_ne_nil _ _)
      (by rw [queue, same_sent, filesSent]; rfl) builder
  have whole : IterateFiles.State.init.run ⟨"", false⟩ ((longNamed 1 9).map .message ++
      ((longNamed 10 33).map .message ++ [.timeout 1])) = .running third := by
    rw [IterateFiles.run_append _ ran, IterateFiles.run_append _ went_on, IterateFiles.State.run,
      timed_out]
    rfl
  have listed : longNamedList ∈ third.sent := by
    rw [sent, queue]
    exact List.mem_concat_self
  exact .fileSpec (.inl whole) listed

end ControlMessage
end EScp
