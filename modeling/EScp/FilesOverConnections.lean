import EScp.DataConnection
import EScp.SessionContent
import EScp.Sharing

/-!
# Files over connections

Several workers of the sender share the blocks of all files; each sends those it has taken on a
connection of its own, encrypted and perhaps compressed, and closes with a BYE.  Each connection
comes in pieces of any size, and what the receiving threads take from their connections is written
in any order.
-/

namespace EScp
namespace Session

open Network CryptoInit DataConnection
open StateWord (Id)
open BlockWrites (Arrival)

variable {total : Nat}

/-- What the workers have sent of all files. -/
def sentOf (senders : Fin total → SendFile.State) : List SendFile.Sent :=
  (List.finRange total).flatMap fun index => (senders index).sent

/-- A block as `submit_work` gives it to `network_send`. -/
def blockOf (sent : SendFile.Sent) : Network.Block :=
  ⟨BitVec.ofNat 64 sent.fileNo, BitVec.ofNat 64 sent.offset, sent.bytes⟩

/-- The workers `0` to `threads - 1` have sent all files.  Each has sent what it has taken in an
order of its own. -/
structure AllSent (source : Source total) (threads : Nat) (senders : Fin total → SendFile.State)
    (blocks : Fin threads → List Network.Block) : Prop where
  reached : ∀ index, (SendFile.machine (source.job index)).Reached (senders index)
  claimed : ∀ index, (senders index).stat.state ≠ StateWord.fsInit
  through : ∀ index id, ((senders index).workers id).role ≠ .on ∧
    ((senders index).workers id).role ≠ .closing
  within : ∀ sent ∈ sentOf senders, sent.id.val < threads
  order : ∀ thread, (blocks thread).Perm
    (((sentOf senders).filter (·.id.val = thread.val)).map blockOf)

/-- What the frames of a connection have brought besides metadata. -/
def deliveries (run : RxRun) : List Delivery :=
  run.arrivals.filterMap fun arrival =>
    match arrival with
    | .data delivery => some delivery
    | .metadata _ _ => none

/-- The operation that `rx_worker` gives to the engine for a block, with what the buffer holds
behind it. -/
def deliveryWrite (arrived : Delivery × (Nat → UInt8)) : Layout.Write :=
  BlockWrites.rxWrite (BitVec.ofNat 64 arrived.1.offset) arrived.1.sz fun position =>
    arrived.1.content.getD position (arrived.2 position)

/-- What has been written to a file, truncated to its size. -/
def fileOf (sparse : Bool) (fileNo : Nat) (arrived : List (Delivery × (Nat → UInt8)))
    (size : Nat) : File :=
  (SparseWrite.submitAll sparse
    ((arrived.filter fun block => block.1.fileNo = fileNo).map deliveryWrite)).truncate size

section Blocks

variable {source : Source total} {threads : Nat} {senders : Fin total → SendFile.State}
  {blocks : Fin threads → List Network.Block}

/-- A block that has been sent. -/
theorem AllSent.block (sent : AllSent source threads senders blocks) {index : Fin total}
    {block : SendFile.Sent} (mem : block ∈ (senders index).sent) :
    block.fileNo = index + 1 ∧ block.bytes = (source.job index).pread block.offset ∧
      ∃ number, number * source.block.toNat < (source.content index).length ∧
        block.offset = number * source.block.toNat :=
  (SendFile.inv_reached (sent.reached index)).block_of_sent mem

/-- A block has at least one byte and fits the buffers. -/
theorem AllSent.fits (sent : AllSent source threads senders blocks) {thread : Fin threads} :
    ∀ block ∈ blocks thread, Fits source.block.toNat block := by
  intro block mem
  obtain ⟨piece, listed, rfl⟩ := List.mem_map.mp ((sent.order thread).mem_iff.mp mem)
  obtain ⟨index, -, taken⟩ := List.mem_flatMap.mp (List.mem_filter.mp listed).1
  obtain ⟨-, bytes_eq, number, inside, offset_eq⟩ := sent.block taken
  have length : ((source.job index).pread piece.offset).length =
      min source.block.toNat ((source.content index).length - piece.offset) :=
    SendFile.Job.length_pread _
  have positive := source.block_pos
  rw [← bytes_eq, offset_eq] at length
  constructor
  · change 0 < piece.bytes.length
    omega
  · change piece.bytes.length ≤ _
    omega

/-- The threads together have sent all blocks. -/
theorem AllSent.blocks_perm (sent : AllSent source threads senders blocks) :
    ((List.finRange threads).flatMap blocks).Perm ((sentOf senders).map blockOf) := by
  have shared := perm_flatMap_filter_self (fun block : SendFile.Sent => block.id.val)
    List.nodup_range fun block mem => List.mem_range.mpr (sent.within block mem)
  have lanes : (List.range threads).flatMap (fun own => (sentOf senders).filter (·.id.val = own)) =
      (List.finRange threads).flatMap fun thread =>
        (sentOf senders).filter (·.id.val = thread.val) := by
    rw [← List.map_coe_finRange_eq_range, List.flatMap_map]
  rw [lanes] at shared
  refine List.Perm.trans ?_ (shared.map blockOf)
  rw [List.map_flatMap]
  exact List.Perm.flatMap_left _ fun thread _ => sent.order thread

/-- Of what has been sent, the blocks with the number of a file are those of the file. -/
theorem AllSent.filter_sentOf (sent : AllSent source threads senders blocks) (index : Fin total) :
    (sentOf senders).filter (fun block => (blockOf block).delivery.fileNo = index + 1) =
      (senders index).sent := by
  have number (other : Fin total) {block : SendFile.Sent} (mem : block ∈ (senders other).sent) :
      (blockOf block).delivery.fileNo = other + 1 := by
    have below := source.total_lt
    have small := other.isLt
    change (BitVec.ofNat 64 block.fileNo).toNat = _
    rw [(sent.block mem).1, BitVec.toNat_ofNat, Nat.mod_eq_of_lt (by omega)]
  refine filter_flatMap_eq _ _ (List.nodup_finRange total) (List.mem_finRange index) ?_ ?_
  · intro block mem
    exact decide_eq_true (number index mem)
  · intro other ne block mem same
    have equal := (number other mem).symm.trans (of_decide_eq_true same)
    exact ne (Fin.ext (Nat.succ.inj equal))

/-- A block arrives with its number. -/
theorem AllSent.offset (sent : AllSent source threads senders blocks) {index : Fin total}
    {block : SendFile.Sent} (mem : block ∈ (senders index).sent) :
    ∃ number, number * source.block.toNat < (source.content index).length ∧
      block.offset = number * source.block.toNat ∧
        (blockOf block).delivery.offset = number * source.block.toNat := by
  obtain ⟨-, -, number, inside, offset_eq⟩ := sent.block mem
  have size_fits := source.content_lt index
  refine ⟨number, inside, offset_eq, ?_⟩
  change (BitVec.ofNat 64 block.offset).toNat = _
  rw [offset_eq, BitVec.toNat_ofNat, Nat.mod_eq_of_lt (by omega)]

/-- A block of a file is written where it belongs, and with its bytes. -/
theorem AllSent.deliveryWrite_eq (sent : AllSent source threads senders blocks) {index : Fin total}
    {block : SendFile.Sent} (mem : block ∈ (senders index).sent) (stale : Nat → UInt8) :
    deliveryWrite ((blockOf block).delivery, stale) =
      (Arrival.mk ((blockOf block).delivery.offset / source.block.toNat) stale).write source.block
        (source.content index).length fun address => (source.content index).getD address 0 := by
  have bounds := BlockWrites.startEscp_bounds source.blockSize
  have size_fits := source.content_lt index
  obtain ⟨-, bytes_eq, -⟩ := sent.block mem
  obtain ⟨number, inside, offset_eq, arrives⟩ := sent.offset mem
  have place : BitVec.ofNat 64 (blockOf block).delivery.offset =
      BlockWrites.txOffset source.block number := by
    apply BitVec.eq_of_toNat_eq
    rw [arrives, BlockWrites.txOffset_toNat source.block_pos bounds.2 (by omega),
      BitVec.toNat_ofNat, Nat.mod_eq_of_lt (by omega)]
  have content : (blockOf block).delivery.content =
      (source.job index).pread (number * source.block.toNat) := by
    rw [← offset_eq, ← bytes_eq]
    rfl
  have sz : (blockOf block).delivery.sz =
      BitVec.ofNat 32 (blockOf block).delivery.content.length := rfl
  rw [deliveryWrite, sz, content, place, arrives, Nat.mul_div_cancel _ source.block_pos]
  exact source.write_eq index number stale

/-- The blocks of a file, in any order and with anything behind them, make up the file. -/
theorem AllSent.fileOf_eq (sent : AllSent source threads senders blocks)
    (multiple : 4096 ∣ source.block.toNat) {arrived : List (Delivery × (Nat → UInt8))}
    (perm : (arrived.map Prod.fst).Perm
      ((sentOf senders).map fun block => (blockOf block).delivery))
    (sparse : Bool) (index : Fin total) :
    fileOf sparse (index + 1) arrived (source.content index).length =
      File.ofBytes (source.content index) := by
  obtain ⟨own, own_eq⟩ : ∃ own,
      own = arrived.filter fun block => block.1.fileNo = index.val + 1 := ⟨_, rfl⟩
  have own_perm : (own.map Prod.fst).Perm
      ((senders index).sent.map fun block => (blockOf block).delivery) := by
    have filtered := perm.filter fun delivery => decide (delivery.fileNo = index.val + 1)
    rw [List.filter_map, List.filter_map] at filtered
    rw [own_eq, ← sent.filter_sentOf index]
    exact filtered
  have writes : own.map deliveryWrite =
      (own.map fun block => Arrival.mk (block.1.offset / source.block.toNat) block.2).map
        fun arrival => arrival.write source.block (source.content index).length
          fun address => (source.content index).getD address 0 := by
    rw [List.map_map]
    refine List.map_congr_left fun block mem => ?_
    obtain ⟨piece, taken, same⟩ :=
      List.mem_map.mp (own_perm.mem_iff.mp (List.mem_map_of_mem mem))
    obtain ⟨delivery, stale⟩ := block
    obtain rfl := same
    exact sent.deliveryWrite_eq taken stale
  have whole : BlockWrites.Whole source.block (source.content index).length
      (own.map fun block => Arrival.mk (block.1.offset / source.block.toNat) block.2) := by
    have finished := (SendFile.inv_reached (sent.reached index)).finished
      (sent.claimed index) (sent.through index)
    have numbers := own_perm.map fun delivery => delivery.offset / source.block.toNat
    have sent_numbers : ((senders index).sent.map fun block => (blockOf block).delivery).map
        (fun delivery => delivery.offset / source.block.toNat) =
          ((senders index).sent.map SendFile.Sent.offset).map (· / source.block.toNat) := by
      rw [List.map_map, List.map_map]
      refine List.map_congr_left fun block mem => ?_
      obtain ⟨number, -, offset_eq, arrives⟩ := sent.offset mem
      dsimp only [Function.comp_apply]
      rw [arrives, offset_eq]
    have range_eq : ((List.range (source.job index).blocks).map
        (· * (source.job index).block)).map (· / source.block.toNat) =
          List.range (source.job index).blocks := by
      rw [List.map_map]
      refine (List.map_congr_left fun number _ => ?_).trans (List.map_id _)
      exact Nat.mul_div_cancel _ source.block_pos
    have listed := finished.sent.map (· / source.block.toNat)
    rw [range_eq] at listed
    rw [sent_numbers, List.map_map] at numbers
    rw [BlockWrites.Whole, List.map_map]
    exact numbers.trans listed
  rw [fileOf, ← own_eq, writes]
  exact source.received_eq index multiple sparse whole

/-- The blocks of all files have the lengths of the files. -/
theorem AllSent.length_eq (sent : AllSent source threads senders blocks) :
    (((List.finRange threads).flatMap blocks).map fun block => block.content.length).sum =
      ((List.finRange total).map fun index => (source.content index).length).sum := by
  have own (index : Fin total) : ((senders index).sent.map fun block => block.bytes.length).sum =
      (source.content index).length := by
    have finished := (SendFile.inv_reached (sent.reached index)).finished
      (sent.claimed index) (sent.through index)
    have lengths := (finished.sent.map fun offset =>
      ((source.job index).pread offset).length).sum_eq
    have listed : ((senders index).sent.map SendFile.Sent.offset).map
        (fun offset => ((source.job index).pread offset).length) =
          (senders index).sent.map fun block => block.bytes.length := by
      rw [List.map_map]
      refine List.map_congr_left fun block mem => ?_
      rw [(sent.block mem).2.1]
      rfl
    have whole : ((source.job index).offsets (source.job index).blocks).map
        (fun offset => ((source.job index).pread offset).length) =
          (((List.range (source.job index).blocks).map (· * (source.job index).block)).map
            fun offset => ((source.job index).pread offset).length : List Nat) := rfl
    have total_length : (((source.job index).offsets (source.job index).blocks).map
        fun offset => ((source.job index).pread offset).length).sum =
          (source.content index).length := SendFile.Job.sum_length_blocks
    rw [whole, Multiset.sum_coe] at total_length
    rw [listed, total_length] at lengths
    exact lengths
  have same := (sent.blocks_perm.map fun block => block.content.length).sum_eq
  rw [same, List.map_map, sentOf, List.map_flatMap, List.flatMap_def, List.sum_flatten,
    List.map_map]
  exact congrArg List.sum (List.map_congr_left fun index _ => own index)

end Blocks

/-! ## All connections -/

/-- What a connection that was sent whole has brought. -/
theorem deliveries_of_whole {blocks : List Network.Block} {bytes rest : List UInt8} {run : RxRun}
    (whole : DataConnection.Whole blocks bytes rest run) :
    deliveries run = blocks.map Network.Block.delivery := by
  rw [deliveries, whole.arrivals, List.filterMap_append, List.filterMap_map]
  simp

theorem sum_ofNat (numbers : List Nat) :
    (numbers.map (BitVec.ofNat 64)).sum = BitVec.ofNat 64 numbers.sum := by
  induction numbers with
  | nil => rfl
  | cons number numbers ih => rw [List.map_cons, List.sum_cons, List.sum_cons, BitVec.ofNat_add, ih]

variable {source : Source total} {threads : Nat} {senders : Fin total → SendFile.State}
  {blocks : Fin threads → List Network.Block} {args : CryptoArgs}
  {globalIv : Fin threads → BitVec 64} {key : Fin threads → List UInt8}
  {bytes : Fin threads → List UInt8} {pieces : Fin threads → List (List UInt8)}

/-- When the workers are through with all files and each has closed its connection, each receiving
thread ends with a BYE, in whatever pieces its connection comes; the threads have counted the
lengths of all files; and whatever the order in which the blocks of all threads are written, with
or without holes and whatever lies behind them, each file is that of the sender. -/
theorem files_of_connections (zstd : Zstd) (compression : Bool) (aes : List UInt8 → Gcm)
    (dtn : DtnArgs) (crypto : args.doCrypto = true)
    (sent : AllSent source threads senders blocks) (multiple : 4096 ∣ source.block.toNat)
    (block_eq : dtn.block.toNat = source.block.toNat)
    (key_length : ∀ thread, (key thread).length = 20)
    (written : ∀ thread, txWorker zstd aes args compression source.block.toNat (globalIv thread)
      (key thread) (blocks thread) = some (bytes thread))
    (stream : ∀ thread, Stream (pieces thread) (bytes thread)) :
    ∃ rx : Fin threads → RxRun,
      (∀ thread, rxWorker zstd aes args dtn (pieces thread) = some (rx thread) ∧
        (rx thread).ending = .bye) ∧
      ((List.finRange threads).map fun thread => (rx thread).totals.bytesDisk).sum =
        BitVec.ofNat 64
          ((List.finRange total).map fun index => (source.content index).length).sum ∧
      ∀ arrived : List (Delivery × (Nat → UInt8)),
        (arrived.map Prod.fst).Perm
          ((List.finRange threads).flatMap fun thread => deliveries (rx thread)) →
        ∀ sparse, ∀ index : Fin total,
          fileOf sparse (index + 1) arrived (source.content index).length =
            File.ofBytes (source.content index) := by
  have bounds := BlockWrites.startEscp_bounds source.blockSize
  have small : dtn.block.toNat < 2 ^ 31 := block_eq ▸ bounds.2
  have took (thread : Fin threads) : ∃ run, rxWorker zstd aes args dtn (pieces thread) = some run ∧
      DataConnection.Whole (blocks thread) (bytes thread) [] run := by
    have fits : ∀ block ∈ blocks thread, Fits dtn.block.toNat block := by
      rw [block_eq]
      exact sent.fits
    exact rxWorker_of_sent zstd crypto (key_length thread) small fits
      (by rw [block_eq]; exact written thread)
      ((List.append_nil (bytes thread)).symm ▸ stream thread)
  choose rx ran whole using took
  refine ⟨rx, fun thread => ⟨ran thread, (whole thread).ending⟩, ?_, ?_⟩
  · have counted : (List.finRange threads).map (fun thread => (rx thread).totals.bytesDisk) =
        ((List.finRange threads).map fun thread =>
          ((blocks thread).map fun block => block.content.length).sum).map (BitVec.ofNat 64) := by
      rw [List.map_map]
      exact List.map_congr_left fun thread _ => (whole thread).disk
    rw [counted, sum_ofNat, ← sent.length_eq, List.map_flatMap, List.flatMap_def, List.sum_flatten,
      List.map_map]
    rfl
  · intro arrived perm sparse index
    have all : (List.finRange threads).flatMap (fun thread => deliveries (rx thread)) =
        ((List.finRange threads).flatMap blocks).map Network.Block.delivery := by
      rw [List.map_flatMap]
      exact List.flatMap_congr fun thread _ => deliveries_of_whole (whole thread)
    rw [all] at perm
    have blocks_perm := sent.blocks_perm.map Network.Block.delivery
    rw [List.map_map] at blocks_perm
    exact sent.fileOf_eq multiple (perm.trans blocks_perm) sparse index

/-- One worker has sent a file of three bytes. -/
theorem allSent_abc : ∃ sender : SendFile.State,
    AllSent hashedSource 1 (fun _ => sender) fun _ => [⟨1, 0, [97, 98, 99]⟩] := by
  have ran : ∃ sender ∈ (SendFile.machine (hashedSource.job oneFile)).run
      (SendFile.State.init (hashedSource.job oneFile)) hashedSteps,
        sender.stat.state ≠ StateWord.fsInit ∧
          (∀ id, (sender.workers id).role ≠ .on ∧ (sender.workers id).role ≠ .closing) ∧
            sender.sent = [⟨0, 1, 0, [97, 98, 99]⟩] := by
    decide +kernel
  obtain ⟨sender, sender_run, claimed, through, sent_eq⟩ := ran
  have listed : sentOf (fun _ : Fin 1 => sender) = [⟨0, 1, 0, [97, 98, 99]⟩] := by
    change sender.sent ++ [] = _
    rw [sent_eq]
    rfl
  refine ⟨sender, ?_, fun _ => claimed, fun _ => through, ?_, ?_⟩
  · intro index
    rw [Subsingleton.elim index oneFile]
    exact Machine.reached_of_run rfl _ sender_run
  · rw [listed]
    decide
  · intro thread
    rw [listed, Subsingleton.elim thread 0]
    exact .refl _

end Session
end EScp
