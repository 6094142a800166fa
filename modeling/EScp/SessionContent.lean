import EScp.SendFileFinish
import EScp.SessionEnd
import EScp.SparseWrite

/-!
# What arrives

The workers of the sender cut a file into blocks and report how many there were; the receiver writes
the blocks at their offsets in any order, rounded up to whole pages, and truncates the file to its
size.  When the sender has left its final loop each file of the receiver is the file of the sender.
-/

namespace EScp
namespace Session

open BlockWrites (Arrival startEscp)

/-! ## The files of the sender -/

/-- What a session is about: the files in the order in which they are opened, and the arguments. -/
structure Source (total : Nat) where
  args : IterateFiles.Args
  name : Fin total → String
  content : Fin total → List UInt8
  /-- What `fstat` has said, apart from the size. -/
  st : Fin total → IterateFiles.Stat
  fd : Fin total → Int
  slot : Fin total → Nat
  /-- The number given with `--blocksize`. -/
  blockSize : BitVec 64
  depth : Nat
  doHash : Bool
  fileHash : List UInt8 → List UInt8
  fd_ne : ∀ index, fd index ≠ 0
  depth_pos : 0 < depth
  content_lt : ∀ index, (content index).length < 2 ^ 63
  total_lt : total < 2 ^ 64
  total_pos : 0 < total

variable {total : Nat} (source : Source total)

namespace Source

/-- `args.block`. -/
def block : BitVec 32 := startEscp source.blockSize

theorem block_pos : 0 < source.block.toNat := by
  have bounds := BlockWrites.startEscp_bounds source.blockSize
  rw [block]
  omega

/-- What the workers are given to read. -/
def job (index : Fin total) : SendFile.Job where
  fileNo := index + 1
  fd := source.fd index
  slot := source.slot index
  content := source.content index
  block := source.block.toNat
  depth := source.depth
  doHash := source.doHash
  fileHash := source.fileHash
  fd_ne := source.fd_ne index
  block_pos := source.block_pos
  depth_pos := source.depth_pos

theorem blocks_le (index : Fin total) :
    (source.job index).blocks ≤ (source.content index).length := by
  have positive := source.block_pos
  have whole := Nat.le_mul_of_pos_right (source.content index).length positive
  have same : (source.job index).blocks =
      ((source.content index).length + source.block.toNat - 1) / source.block.toNat := rfl
  rw [same]
  refine Nat.le_of_lt_succ ((Nat.div_lt_iff_lt_mul positive).mpr ?_)
  rw [Nat.succ_mul]
  omega

/-- What the lister finds, and what the workers send and report. -/
def plan : Plan total where
  args := source.args
  file index := ⟨index + 1, source.name index,
    { source.st index with size := (source.content index).length }⟩
  blocks index := (source.job index).blocks
  content index block := (source.job index).pread (block * source.block.toNat)
  fileHash bytes := if source.doHash then source.fileHash bytes else []
  numbered _ := rfl
  blocks_lt index := Nat.lt_of_le_of_lt (source.blocks_le index) (source.content_lt index)
  total_lt := source.total_lt
  total_pos := source.total_pos

end Source

/-! ## What the workers report -/

section Report

variable {source} {index : Fin total}

/-- The offsets of the blocks of a file. -/
theorem offsets_blocks : (source.job index).offsets (source.job index).blocks =
    (Finset.univ : Finset (Fin (source.job index).blocks)).val.map
      fun block : Fin _ => block.val * source.block.toNat := by
  have numbers : (Finset.univ : Finset (Fin (source.job index).blocks)).val.map
      (fun block : Fin _ => block.val * source.block.toNat) =
        ((List.finRange (source.job index).blocks).map Fin.val).map (· * source.block.toNat) := by
    rw [List.map_map]
    rfl
  rw [numbers, List.map_coe_finRange_eq_range]
  rfl

/-- The words of the blocks of a file, as the workers fold them. -/
theorem crcOf_blocks : (source.job index).crcOf
    ((source.job index).offsets (source.job index).blocks) =
      FileChecksum.checksum source.plan.fileHash (source.plan.content index) := by
  rw [SendFile.Job.crcOf, offsets_blocks]
  split
  · rename_i hashing
    have on : source.plan.fileHash = source.fileHash := by
      funext bytes
      exact if_pos hashing
    rw [on, FileChecksum.checksum, Finset.fold, Multiset.map_map]
    rfl
  · rename_i off
    have crc := source.plan.checksum_eq_zero (fun bytes => if_neg off) index
    exact crc.symm

/-- When the workers are through with a file, they have sent the blocks that the receiver gets. -/
theorem sent_of_finished {state : SendFile.State}
    (inv : SendFile.Inv (source.job index) state)
    (finished : SendFile.Finished (source.job index) state) :
    (state.sent.map fun sent => (sent.offset, sent.bytes)).Perm
      ((List.finRange (source.plan.blocks index)).map fun block =>
        (block.val * source.block.toNat, source.plan.content index block)) := by
  have sent : state.sent.map (fun sent => (sent.offset, sent.bytes)) =
      (state.sent.map SendFile.Sent.offset).map
        fun offset => (offset, (source.job index).pread offset) := by
    rw [List.map_map]
    refine List.map_congr_left fun block mem => ?_
    rw [(inv.block_of_sent mem).2.1]
    rfl
  have blocks : (List.finRange (source.plan.blocks index)).map (fun block =>
      (block.val * source.block.toNat, source.plan.content index block)) =
        (((List.finRange (source.plan.blocks index)).map Fin.val).map
          (· * source.block.toNat)).map
            fun offset => (offset, (source.job index).pread offset) := by
    rw [List.map_map, List.map_map]
    rfl
  rw [sent, blocks, List.map_coe_finRange_eq_range]
  exact finished.sent.map _

end Report

/-! ## What the receiver writes -/

section Disk

variable {plan : Plan total} {Thread : Type*}

/-- The operation that `rx_worker` gives to the engine for a block: behind the bytes of the block
is what the buffer holds from earlier use. -/
def blockWrite (plan : Plan total) (block : BitVec 32)
    (stale : ReceiveFiles.Write plan.transfer.Block → Nat → UInt8)
    (written : ReceiveFiles.Write plan.transfer.Block) : Layout.Write :=
  let bytes := plan.content written.block.1 written.block.2
  BlockWrites.rxWrite (BlockWrites.txOffset block written.block.2) (BitVec.ofNat 32 bytes.length)
    fun position => bytes.getD position (stale written position)

/-- What is at a path after all writes through descriptors that are open on it, truncated to a
size. -/
def State.disk (state : State plan Thread) (sparse : Bool) (block : BitVec 32)
    (stale : ReceiveFiles.Write plan.transfer.Block → Nat → UInt8) (path : String) (sz : Int) :
    File :=
  (SparseWrite.submitAll sparse
    ((state.receiver.writes.filter fun write =>
      write.opened.map ReceiveFiles.Opened.path = some path).map
        (blockWrite plan block stale))).truncate sz.toNat

end Disk

section Content

variable {source} {Thread : Type*} {index : Fin total}

/-- A block that arrives. -/
def arrival (stale : ReceiveFiles.Write source.plan.transfer.Block → Nat → UInt8)
    (written : ReceiveFiles.Write source.plan.transfer.Block) : Arrival :=
  ⟨written.block.2, stale written⟩

/-- A block of a file is written as it arrives. -/
theorem Source.write_eq (source : Source total) (index : Fin total) (number : Nat)
    (stale : Nat → UInt8) :
    BlockWrites.rxWrite (BlockWrites.txOffset source.block number)
        (BitVec.ofNat 32 ((source.job index).pread (number * source.block.toNat)).length)
        (fun position => ((source.job index).pread (number * source.block.toNat)).getD position
          (stale position)) =
      (Arrival.mk number stale).write source.block (source.content index).length
        fun address => (source.content index).getD address 0 := by
  have length : ((source.job index).pread (number * source.block.toNat)).length =
      BlockWrites.blockLength source.block (source.content index).length number :=
    SendFile.Job.length_pread _
  rw [Arrival.write]
  dsimp only
  rw [length]
  congr 1
  funext position
  rw [Arrival.buffer]
  dsimp only
  split
  · rename_i inside
    rw [BlockWrites.blockLength] at inside
    have bytes : (source.job index).pread (number * source.block.toNat) =
        ((source.content index).drop (number * source.block.toNat)).take source.block.toNat := rfl
    have there : number * source.block.toNat + position < (source.content index).length := by
      omega
    rw [bytes, List.getD_eq_getElem?_getD, List.getD_eq_getElem?_getD,
      List.getElem?_take_of_lt (by omega), List.getElem?_drop, List.getElem?_eq_getElem there]
    rfl
  · rename_i outside
    rw [← length] at outside
    rw [List.getD_eq_getElem?_getD, List.getElem?_eq_none (not_lt.mp outside)]
    rfl

/-- When each block has arrived once, what has been written is the file. -/
theorem Source.received_eq (source : Source total) (index : Fin total)
    (multiple : 4096 ∣ source.block.toNat) (sparse : Bool) {arrivals : List Arrival}
    (whole : BlockWrites.Whole source.block (source.content index).length arrivals) :
    SparseWrite.received sparse source.block (source.content index).length
      (fun address => (source.content index).getD address 0) arrivals =
        File.ofBytes (source.content index) := by
  have bounds := BlockWrites.startEscp_bounds source.blockSize
  refine (File.truncate_congr fun address inside => ?_).trans
    (File.ofBytes (source.content index)).truncate_self
  exact SparseWrite.bytes_of_whole sparse source.block_pos bounds.2 multiple
    (source.content_lt index) _ whole inside

/-- A block is written as it arrives. -/
theorem blockWrite_eq (stale : ReceiveFiles.Write source.plan.transfer.Block → Nat → UInt8)
    {written : ReceiveFiles.Write source.plan.transfer.Block} (of_file : written.block.1 = index) :
    blockWrite source.plan source.block stale written =
      (arrival stale written).write source.block (source.content index).length
        fun address => (source.content index).getD address 0 := by
  subst of_file
  exact source.write_eq written.block.1 written.block.2 (stale written)

theorem block_ext {left right : source.plan.transfer.Block} (file : left.1 = right.1)
    (number : (left.2 : Nat) = right.2) : left = right := by
  obtain ⟨left_file, left_number⟩ := left
  obtain ⟨right_file, right_number⟩ := right
  obtain rfl : left_file = right_file := file
  exact congrArg (Sigma.mk left_file) (Fin.ext number)

/-- The blocks of a closed file arrive once. -/
theorem whole_arrivals [DecidableEq Thread] {state : State source.plan Thread}
    (reached : (machine source.plan Thread).Reached state) (transferred : state.Transferred index)
    (stale : ReceiveFiles.Write source.plan.transfer.Block → Nat → UInt8) :
    BlockWrites.Whole source.block (source.content index).length
      ((state.receiver.writes.filter fun write => write.block.1 = index).map (arrival stale)) := by
  obtain ⟨phase, books⟩ := ReceiveFiles.inv_reached (inv_reached reached).receiver
  have once := books.written.nodup
  have distinct : (((state.receiver.writes.filter fun write => write.block.1 = index).map
      (arrival stale)).map Arrival.index).Nodup := by
    rw [List.map_map]
    refine (List.nodup_map_iff_inj_on ?_).mpr ?_
    · exact (once.of_map _).filter _
    · intro left left_mem right right_mem same
      have left_file := of_decide_eq_true (List.mem_filter.mp left_mem).2
      have right_file := of_decide_eq_true (List.mem_filter.mp right_mem).2
      exact List.inj_on_of_nodup_map once (List.mem_filter.mp left_mem).1
        (List.mem_filter.mp right_mem).1 (block_ext (left_file.trans right_file.symm) same)
  refine (List.perm_ext_iff_of_nodup distinct List.nodup_range).mpr fun number => ?_
  rw [List.map_map, List.mem_map, List.mem_range]
  constructor
  · rintro ⟨write, mem, rfl⟩
    have of_file := of_decide_eq_true (List.mem_filter.mp mem).2
    subst of_file
    exact write.block.2.isLt
  · intro below
    obtain ⟨write, mem, at_block, -⟩ := transferred.2 ⟨number, below⟩
    refine ⟨write, List.mem_filter.mpr ⟨mem, decide_eq_true (by rw [at_block])⟩, ?_⟩
    exact congrArg (fun block : source.plan.transfer.Block => (block.2 : Nat)) at_block

variable [DecidableEq Thread] {state : State source.plan Thread}

/-- The writes at the path of a file are those of its blocks. -/
theorem filter_path (reached : (machine source.plan Thread).Reached state)
    (distinct : Function.Injective fun index => (source.plan.transfer.opened index).path)
    (index : Fin total) :
    (state.receiver.writes.filter fun write => write.opened.map ReceiveFiles.Opened.path =
      some (source.plan.transfer.opened index).path) =
        state.receiver.writes.filter fun write => write.block.1 = index := by
  obtain ⟨phase, books⟩ := ReceiveFiles.inv_reached (inv_reached reached).receiver
  refine List.filter_congr fun write mem => decide_eq_decide.mpr ?_
  rw [books.written.opened write mem, Option.map_some, Option.some_inj]
  exact ⟨fun same => distinct same, fun same => by rw [same]⟩

omit [DecidableEq Thread] in
/-- The size that is announced. -/
theorem sz_entry (index : Fin total) :
    (source.plan.transfer.entry index).sz = (source.content index).length := by
  change (source.args.entry _).sz = _
  rw [IterateFiles.Args.entry]
  split <;> rfl

/-- What is at the path of a file that has been transferred is the file of the sender. -/
theorem disk_eq (reached : (machine source.plan Thread).Reached state)
    (multiple : 4096 ∣ source.block.toNat)
    (distinct : Function.Injective fun index => (source.plan.transfer.opened index).path)
    (sparse : Bool) (stale : ReceiveFiles.Write source.plan.transfer.Block → Nat → UInt8)
    (transferred : state.Transferred index) :
    state.disk sparse source.block stale (source.plan.transfer.opened index).path
      (source.content index).length = File.ofBytes (source.content index) := by
  have whole := whole_arrivals reached transferred stale
  have writes : ((state.receiver.writes.filter fun write => write.block.1 = index).map
      (blockWrite source.plan source.block stale)) =
        ((state.receiver.writes.filter fun write => write.block.1 = index).map
          (arrival stale)).map fun arrival =>
            arrival.write source.block (source.content index).length
              fun address => (source.content index).getD address 0 := by
    rw [List.map_map]
    exact List.map_congr_left fun write mem =>
      blockWrite_eq stale (of_decide_eq_true (List.mem_filter.mp mem).2)
  rw [State.disk, filter_path reached distinct, writes, Int.toNat_natCast]
  exact source.received_eq index multiple sparse whole

/-- What is at the path of a closed file is the file of the sender. -/
theorem disk_of_closed (reached : (machine source.plan Thread).Reached state)
    (multiple : 4096 ∣ source.block.toNat)
    (distinct : Function.Injective fun index => (source.plan.transfer.opened index).path)
    {record : ReceiveFiles.Closed} (mem : record ∈ state.receiver.closed) : ∃ index,
      ReceiveFiles.Complete source.plan.transfer index record ∧ ∀ sparse stale,
        state.disk sparse source.block stale (ReceiveFiles.State.openPath record.info.path)
          record.info.sz = File.ofBytes (source.content index) := by
  have inv := inv_reached reached
  obtain ⟨phase, books⟩ := ReceiveFiles.inv_reached inv.receiver
  obtain ⟨index, complete⟩ := books.closed.complete record mem
  refine ⟨index, complete, fun sparse stale => ?_⟩
  have sz : record.info.sz = ((source.content index).length : Int) := by
    rw [complete.info]
    exact sz_entry index
  have path : record.info.path = source.plan.transfer.path index := by
    rw [complete.info]
    rfl
  rw [sz, path]
  exact disk_eq reached multiple distinct sparse stale (inv.transferred ⟨record, mem, complete⟩)

/-- However the workers of the sender and the threads of the receiver take their steps, what is sent
of a file are the blocks that the receiver gets, each once, and the number of blocks and the
checksum that `fc_push` gets are those that the entry of the file has on the receiver when it is
closed. -/
theorem reports_agree {sender : SendFile.State}
    (sent : (SendFile.machine (source.job index)).Reached sender)
    (claimed : sender.stat.state ≠ StateWord.fsInit)
    (through : ∀ id, (sender.workers id).role ≠ .on ∧ (sender.workers id).role ≠ .closing)
    (reached : (machine source.plan Thread).Reached state) :
    (sender.sent.map fun sent => (sent.offset, sent.bytes)).Perm
      ((List.finRange (source.plan.blocks index)).map fun block =>
        (block.val * source.block.toNat, source.plan.content index block)) ∧
    ∃ report, sender.pushed = [report] ∧ report.fileNo = index + 1 ∧
      report.bytes = (source.content index).length ∧
      ∀ record ∈ state.receiver.closed, record.info.fino = report.fileNo →
        record.info.blocks = report.blocks ∧ record.stat.blockTotal = report.blocks ∧
          record.stat.crc = report.crc := by
  have inv := SendFile.inv_reached sent
  have finished := inv.finished claimed through
  refine ⟨sent_of_finished inv finished, (source.job index).record, finished.pushed, rfl, rfl, ?_⟩
  intro record mem number
  obtain ⟨phase, books⟩ := ReceiveFiles.inv_reached (inv_reached reached).receiver
  obtain ⟨other, complete⟩ := books.closed.complete record mem
  have same : other = index := by
    have other_number : record.info.fino = source.plan.transfer.fino other := by
      rw [complete.info]
      rfl
    have equal := other_number.symm.trans number
    rw [source.plan.transfer_fino] at equal
    exact Fin.ext (Nat.succ.inj equal)
  subst same
  refine ⟨?_, complete.blockTotal, complete.crc.trans crcOf_blocks.symm⟩
  rw [complete.info]
  rfl

end Content

/-! ## Three bytes -/

/-- A file of three bytes, with the default block size. -/
def oneSource : Source 1 where
  args := ⟨"dst", false⟩
  name _ := "abc"
  content _ := [97, 98, 99]
  st _ := ⟨0, 0o644, 0, 0, 0, 0, 0, 0⟩
  fd _ := 4
  slot _ := 9
  blockSize := 1048576
  depth := 2
  doHash := false
  fileHash bytes := bytes
  fd_ne := by decide
  depth_pos := Nat.two_pos
  content_lt := by decide
  total_lt := one_lt_two_pow
  total_pos := Nat.one_pos

/-- The same file with hashing on. -/
def hashedSource : Source 1 := { oneSource with doHash := true, total_pos := Nat.one_pos }

/-- One worker sends the file. -/
def hashedSteps : List SendFile.Label :=
  [.find 0, .work 0, .work 0, .work 0, .work 0, .submit 0 0] ++ List.replicate 6 (.work 0) ++
    [.submit 0 1048576, .submit 0 2097152] ++ List.replicate 8 (.work 0)

/-- The checksum is 0x636261 on both sides. -/
theorem reports_agree_of_hashed : ∃ state : State hashedSource.plan Unit,
    (machine hashedSource.plan Unit).Reached state ∧ ∃ sender : SendFile.State,
      sender.pushed.map SendFile.Record.crc = [0x636261] ∧
        ∃ report, sender.pushed = [report] ∧ report.fileNo = 1 ∧ report.bytes = 3 ∧
          ∀ record ∈ state.receiver.closed, record.info.fino = report.fileNo →
            record.info.blocks = report.blocks ∧ record.stat.blockTotal = report.blocks ∧
              record.stat.crc = report.crc := by
  have ran : ∃ state ∈ (machine hashedSource.plan Unit).run (State.init hashedSource.plan Unit)
      (transferRun hashedSource.plan ⟨oneFile, ⟨0, by decide⟩⟩),
        state.receiver.closed.length = 1 := by
    decide +kernel
  obtain ⟨state, run, -⟩ := ran
  have reached : (machine hashedSource.plan Unit).Reached state := Machine.reached_of_run rfl _ run
  have sent : ∃ sender ∈ (SendFile.machine (hashedSource.job oneFile)).run
      (SendFile.State.init (hashedSource.job oneFile)) hashedSteps,
        sender.stat.state ≠ StateWord.fsInit ∧
          (∀ id, (sender.workers id).role ≠ .on ∧ (sender.workers id).role ≠ .closing) ∧
            sender.pushed.map SendFile.Record.crc = [0x636261] := by
    decide +kernel
  obtain ⟨sender, sender_run, claimed, through, crc⟩ := sent
  have sender_reached : (SendFile.machine (hashedSource.job oneFile)).Reached sender :=
    Machine.reached_of_run rfl _ sender_run
  exact ⟨state, reached, sender, crc,
    (reports_agree sender_reached claimed through reached).2⟩

end Session
end EScp
