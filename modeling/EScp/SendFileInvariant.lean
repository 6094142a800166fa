import EScp.SendFile

/-!
# The account of the blocks of a file

Each block that has been fetched is owed by one worker or sent.  The counters of the entry lag
behind by what each worker still has to add.  The word of the entry has the bits of the workers that
may owe something, so the last of them finds the account settled.
-/

namespace EScp
namespace SendFile

open StateWord FileTable FileChecksum

/-! ## The blocks of the file -/

namespace Job

variable (job : Job)

/-- `st_size`. -/
def size : Nat := job.content.length

/-- The number of blocks. -/
def blocks : Nat := (job.size + job.block - 1) / job.block

/-- The offsets of the first blocks. -/
def offsets (count : Nat) : Multiset Nat := (Multiset.range count).map (· * job.block)

/-- What is to be folded into `crc` for blocks at some offsets. -/
def crcOf (offsets : Multiset Nat) : BitVec 32 :=
  if job.doHash then (offsets.map job.word).fold xorWord 0 else 0

/-- What `fc_push` is to get. -/
def record : Record := ⟨job.fileNo, job.size, job.blocks, job.crcOf (job.offsets job.blocks)⟩

variable {job}

theorem length_pread (offset : Nat) :
    (job.pread offset).length = min job.block (job.size - offset) := by
  simp [pread, size]

theorem pread_eq_nil {offset : Nat} : job.pread offset = [] ↔ job.size ≤ offset := by
  rw [← List.length_eq_zero_iff, length_pread]
  have := job.block_pos
  omega

/-- The block `index` has bytes of the file. -/
theorem mul_block_lt {index : Nat} : index * job.block < job.size ↔ index < job.blocks := by
  have positive := job.block_pos
  rw [blocks, Nat.lt_iff_add_one_le (m := index), Nat.le_div_iff_mul_le positive, Nat.succ_mul]
  omega

theorem offsets_succ (count : Nat) :
    job.offsets (count + 1) = job.offsets count + {count * job.block} := by
  rw [offsets, Multiset.range_succ, Multiset.map_cons, ← Multiset.singleton_add, add_comm]
  rfl

theorem mem_offsets {count offset : Nat} :
    offset ∈ job.offsets count ↔ ∃ index < count, index * job.block = offset := by
  simp [offsets]

/-- When the end of the file has been reached, all blocks have been fetched. -/
theorem data_offsets {count : Nat} (ended : job.size ≤ count * job.block) :
    (job.offsets count).filter (· < job.size) = job.offsets job.blocks := by
  have all : job.blocks ≤ count := by
    by_contra fewer
    exact absurd (mul_block_lt.mpr (not_le.mp fewer)) (not_lt.mpr ended)
  obtain ⟨rest, rfl⟩ := Nat.exists_eq_add_of_le all
  clear ended all
  induction rest with
  | zero =>
      refine Multiset.filter_eq_self.mpr fun offset mem => ?_
      obtain ⟨index, below, rfl⟩ := mem_offsets.mp mem
      exact mul_block_lt.mpr below
  | succ rest ih =>
      have past : ¬(job.blocks + rest) * job.block < job.size := by
        rw [mul_block_lt]
        omega
      rw [← Nat.add_assoc, offsets_succ, Multiset.filter_add, ih, Multiset.filter_singleton,
        if_neg past]
      exact add_zero _

theorem sum_length (count : Nat) :
    ((job.offsets count).map fun offset => (job.pread offset).length).sum =
      min (count * job.block) job.size := by
  induction count with
  | zero => simp [offsets]
  | succ count ih =>
      rw [offsets_succ, Multiset.map_add, Multiset.sum_add, ih, Multiset.map_singleton,
        Multiset.sum_singleton, length_pread, Nat.succ_mul]
      omega

/-- The lengths of all blocks add up to the size. -/
theorem sum_length_blocks :
    ((job.offsets job.blocks).map fun offset => (job.pread offset).length).sum = job.size := by
  rw [sum_length, Nat.min_eq_right]
  by_contra short
  exact absurd (mul_block_lt.mp (not_le.mp short)) (lt_irrefl _)

theorem crcOf_zero : job.crcOf 0 = 0 := by
  simp [crcOf]

/-- A block is folded in. -/
theorem crcOf_add (offsets : Multiset Nat) (offset : Nat) (hashing : job.doHash = true) :
    job.crcOf (offsets + {offset}) = job.crcOf offsets ^^^ job.word offset := by
  rw [crcOf, crcOf, if_pos hashing, if_pos hashing, Multiset.map_add, Multiset.map_singleton,
    add_comm, Multiset.singleton_add, Multiset.fold_cons_right]
  rfl

end Job

/-! ## What a worker owes -/

/-- The block that is read but not sent. -/
def Stage.reading : Stage → Multiset Nat
  | .hash _ offset | .send _ offset => {offset}
  | _ => 0

/-- The block that is folded into `crc` but not sent. -/
def Stage.hashed : Stage → Multiset Nat
  | .send _ offset => {offset}
  | _ => 0

/-- What is sent but not added to `bytes_total`. -/
def Stage.unsized (job : Job) : Stage → Nat
  | .size _ offset => (job.pread offset).length
  | _ => 0

/-- What is sent but not added to `block_total`. -/
def Stage.uncounted : Stage → Nat
  | .size _ _ | .count _ _ => 1
  | _ => 0

/-- The worker has met the end of the file. -/
def Stage.Ended : Stage → Prop
  | .submit frames | .hash frames _ | .send frames _ | .size frames _ | .count frames _ =>
      frames ≠ 0
  | .remove _ => True
  | _ => False

namespace Place

/-- The blocks that the worker is to send. -/
def owed (job : Job) : Place → Multiset Nat
  | .run _ queue stage => Multiset.filter (· < job.size) queue + stage.reading
  | _ => 0

def hashed : Place → Multiset Nat
  | .run _ _ stage => stage.hashed
  | _ => 0

def unsized (job : Job) : Place → Nat
  | .run _ _ stage => stage.unsized job
  | _ => 0

def uncounted : Place → Nat
  | .run _ _ stage => stage.uncounted
  | _ => 0

/-- All that the worker still has to do for the entry. -/
def shares (job : Job) (place : Place) : Multiset Nat × Multiset Nat × Nat × Nat :=
  (place.owed job, place.hashed, place.unsized job, place.uncounted)

def queue : Place → List Nat
  | .run _ queue _ => queue
  | _ => []

def Ended : Place → Prop
  | .run _ _ stage => stage.Ended
  | _ => False

end Place

/-- The offsets of the blocks that are sent. -/
def sentOffsets (sent : List Sent) : Multiset Nat := sent.map Sent.offset

theorem sentOffsets_append (sent : List Sent) (block : Sent) :
    sentOffsets (sent ++ [block]) = sentOffsets sent + {block.offset} := by
  rw [sentOffsets, List.map_append, ← Multiset.coe_add]
  rfl

/-- The entry against the workers and the blocks that are sent. -/
structure Account (job : Job) (stat : FileStat) (workers : Id → Place) (sent : List Sent) :
    Prop where
  fileNo : stat.fileNo = job.fileNo
  fd : stat.fd = job.fd
  offsets : (job.offsets stat.blockOffset).filter (· < job.size) =
    sentOffsets sent + tally (Place.owed job) workers
  crc : stat.crc = job.crcOf (sentOffsets sent + tally Place.hashed workers)
  bytesTotal : stat.bytesTotal + tally (Place.unsized job) workers =
    ((sentOffsets sent).map fun offset => (job.pread offset).length).sum
  blockTotal : stat.blockTotal + tally Place.uncounted workers = (sentOffsets sent).card
  fetched : ∀ id, ∀ offset ∈ (workers id).queue, offset ∈ job.offsets stat.blockOffset
  ended : ∀ id, (workers id).Ended → job.size ≤ stat.blockOffset * job.block

section Account

variable {job : Job} {stat : FileStat} {workers : Id → Place} {sent : List Sent} {id : Id}
  {place : Place}

/-- A property of all workers, after one of them has moved. -/
theorem all_update (property : Place → Prop) (before : ∀ other, property (workers other))
    (moved : property place) (other : Id) : property (Function.update workers id place other) := by
  by_cases same : other = id
  · rwa [same, Function.update_self]
  · rw [Function.update_of_ne same]
    exact before other

/-- A worker moves on and owes what it owed before. -/
theorem Account.move (account : Account job stat workers sent) (word : BitVec 64)
    (same : place.shares job = (workers id).shares job)
    (queue : ∀ offset ∈ place.queue, offset ∈ (workers id).queue)
    (ended : place.Ended → job.size ≤ stat.blockOffset * job.block) :
    Account job { stat with state := word } (Function.update workers id place) sent := by
  have owed : place.owed job = (workers id).owed job := congrArg Prod.fst same
  have hashed : place.hashed = (workers id).hashed := congrArg (·.2.1) same
  have unsized : place.unsized job = (workers id).unsized job := congrArg (·.2.2.1) same
  have uncounted : place.uncounted = (workers id).uncounted := congrArg (·.2.2.2) same
  constructor
  · exact account.fileNo
  · exact account.fd
  · rw [tally_update_same owed]
    exact account.offsets
  · rw [tally_update_same hashed]
    exact account.crc
  · rw [tally_update_same unsized]
    exact account.bytesTotal
  · rw [tally_update_same uncounted]
    exact account.blockTotal
  · exact all_update (fun place => ∀ offset ∈ place.queue, offset ∈ job.offsets stat.blockOffset)
      account.fetched fun offset mem => account.fetched id offset (queue offset mem)
  · exact all_update (fun place => place.Ended → job.size ≤ stat.blockOffset * job.block)
      account.ended ended

variable {fsLcl : FileStat} {queue : List Nat} {frames offset : Nat}

/-- A worker takes the next block. -/
theorem Account.fetch (account : Account job stat workers sent)
    (at_stage : workers id = .run fsLcl queue .fetch) :
    Account job { stat with blockOffset := stat.blockOffset + 1 } (Function.update workers id
      (.run fsLcl (queue ++ [stat.blockOffset * job.block]) .fetch)) sent := by
  have more : (Place.run fsLcl (queue ++ [stat.blockOffset * job.block]) .fetch).owed job =
      (workers id).owed job +
        Multiset.filter (· < job.size) {stat.blockOffset * job.block} := by
    rw [at_stage, Place.owed, Place.owed, ← Multiset.coe_add, Multiset.filter_add, add_right_comm]
    rfl
  have later : ∀ offset ∈ job.offsets stat.blockOffset,
      offset ∈ job.offsets (stat.blockOffset + 1) := fun offset mem => by
    rw [Job.offsets_succ]
    exact Multiset.mem_add.mpr (.inl mem)
  constructor
  · exact account.fileNo
  · exact account.fd
  · rw [tally_update_more more, ← add_assoc, ← account.offsets, Job.offsets_succ,
      Multiset.filter_add]
  · rw [tally_update_same (by rw [at_stage]; rfl)]
    exact account.crc
  · rw [tally_update_same (by rw [at_stage]; rfl)]
    exact account.bytesTotal
  · rw [tally_update_same (by rw [at_stage]; rfl)]
    exact account.blockTotal
  · refine all_update
      (fun place => ∀ offset ∈ place.queue, offset ∈ job.offsets (stat.blockOffset + 1))
      (fun other offset mem => later offset (account.fetched other offset mem)) fun offset mem => ?_
    rcases List.mem_append.mp mem with old | new
    · exact later offset (account.fetched id offset (by rwa [at_stage]))
    · rw [List.mem_singleton.mp new, Job.offsets_succ]
      exact Multiset.mem_add.mpr (.inr (Multiset.mem_singleton_self _))
  · refine all_update (fun place => place.Ended → job.size ≤ (stat.blockOffset + 1) * job.block)
      (fun other ended => ?_) False.elim
    exact (account.ended other ended).trans (Nat.mul_le_mul_right _ (Nat.le_succ _))

/-- The queue without an operation that the engine has returned. -/
theorem filter_queue (mem : offset ∈ queue) :
    Multiset.filter (· < job.size) (queue : Multiset Nat) =
      Multiset.filter (· < job.size) (queue.erase offset : Multiset Nat) +
        Multiset.filter (· < job.size) {offset} := by
  rw [← Multiset.coe_erase, ← Multiset.filter_add, add_comm, Multiset.singleton_add,
    Multiset.cons_erase (Multiset.mem_coe.mpr mem)]

/-- The engine returns a block. -/
theorem Account.take (account : Account job stat workers sent)
    (at_stage : workers id = .run fsLcl queue (.submit frames)) (mem : offset ∈ queue)
    (data : offset < job.size) :
    Account job stat (Function.update workers id (.run fsLcl (queue.erase offset)
      (if job.doHash then .hash frames offset else .send frames offset))) sent := by
  have owed : ∀ stage : Stage, stage.reading = {offset} →
      (Place.run fsLcl (queue.erase offset) stage).owed job = (workers id).owed job := by
    intro stage reading
    rw [at_stage, Place.owed, Place.owed, filter_queue mem, reading, Multiset.filter_singleton,
      if_pos data]
    exact (add_zero _).symm
  have kept : ∀ left ∈ queue.erase offset, left ∈ (workers id).queue := fun left mem => by
    rw [at_stage]
    exact List.mem_of_mem_erase mem
  have ended : frames ≠ 0 → job.size ≤ stat.blockOffset * job.block := fun ended =>
    account.ended id (by rwa [at_stage])
  by_cases hashing : job.doHash = true
  · rw [if_pos hashing]
    have same : (Place.run fsLcl (queue.erase offset) (.hash frames offset)).shares job =
        (workers id).shares job := by
      rw [Place.shares, owed _ rfl, Place.shares, at_stage]
      rfl
    exact account.move stat.state same kept ended
  · rw [if_neg hashing]
    constructor
    · exact account.fileNo
    · exact account.fd
    · rw [tally_update_same (owed _ rfl)]
      exact account.offsets
    · rw [Job.crcOf, if_neg hashing]
      have zero := account.crc
      rwa [Job.crcOf, if_neg hashing] at zero
    · rw [tally_update_same (by rw [at_stage]; rfl)]
      exact account.bytesTotal
    · rw [tally_update_same (by rw [at_stage]; rfl)]
      exact account.blockTotal
    · exact all_update (fun place => ∀ offset ∈ place.queue, offset ∈ job.offsets stat.blockOffset)
        account.fetched fun left mem => account.fetched id left (kept left mem)
    · exact all_update (fun place => place.Ended → job.size ≤ stat.blockOffset * job.block)
        account.ended ended

/-- The engine returns a read past the end of the file. -/
theorem Account.atEnd (account : Account job stat workers sent)
    (at_stage : workers id = .run fsLcl queue (.submit frames)) (mem : offset ∈ queue)
    (past : job.size ≤ offset) :
    Account job stat (Function.update workers id
      (.run fsLcl (queue.erase offset) (.submit (frames + 1)))) sent := by
  have same : (Place.run fsLcl (queue.erase offset) (.submit (frames + 1))).shares job =
      (workers id).shares job := by
    rw [at_stage, Place.shares, Place.shares, Place.owed, Place.owed, filter_queue mem,
      Multiset.filter_singleton, if_neg (not_lt.mpr past)]
    rw [show (∅ : Multiset Nat) = 0 from rfl, add_zero]
    rfl
  refine account.move stat.state same (fun left mem => ?_) fun _ => ?_
  · rw [at_stage]
    exact List.mem_of_mem_erase mem
  · have fetched := account.fetched id offset (by rwa [at_stage])
    obtain ⟨index, below, rfl⟩ := Job.mem_offsets.mp fetched
    exact past.trans (Nat.mul_le_mul_right _ below.le)

/-- A worker folds a hash in. -/
theorem Account.hash (account : Account job stat workers sent)
    (at_stage : workers id = .run fsLcl queue (.hash frames offset))
    (hashing : job.doHash = true) :
    Account job { stat with crc := stat.crc ^^^ job.word offset } (Function.update workers id
      (.run fsLcl queue (.send frames offset))) sent := by
  have more : (Place.run fsLcl queue (.send frames offset)).hashed =
      (workers id).hashed + {offset} := by
    rw [at_stage]
    exact (zero_add _).symm
  constructor
  · exact account.fileNo
  · exact account.fd
  · rw [tally_update_same (by rw [at_stage]; rfl)]
    exact account.offsets
  · rw [tally_update_more more, ← add_assoc, Job.crcOf_add _ _ hashing, ← account.crc]
  · rw [tally_update_same (by rw [at_stage]; rfl)]
    exact account.bytesTotal
  · rw [tally_update_same (by rw [at_stage]; rfl)]
    exact account.blockTotal
  · exact all_update (fun place => ∀ offset ∈ place.queue, offset ∈ job.offsets stat.blockOffset)
      account.fetched fun left mem => account.fetched id left (by rwa [at_stage])
  · exact all_update (fun place => place.Ended → job.size ≤ stat.blockOffset * job.block)
      account.ended fun ended => account.ended id (by rwa [at_stage])

/-- A worker sends a block. -/
theorem Account.send (account : Account job stat workers sent)
    (at_stage : workers id = .run fsLcl queue (.send frames offset)) :
    Account job stat (Function.update workers id (.run fsLcl queue (.size frames offset)))
      (sent ++ [Sent.mk id fsLcl.fileNo offset (job.pread offset)]) := by
  have owed : (workers id).owed job =
      (Place.run fsLcl queue (.size frames offset)).owed job + {offset} := by
    rw [at_stage, Place.owed, Place.owed, add_assoc]
    rfl
  have hashed : (workers id).hashed =
      (Place.run fsLcl queue (.size frames offset)).hashed + {offset} := by
    rw [at_stage]
    exact (zero_add _).symm
  have unsized : (Place.run fsLcl queue (.size frames offset)).unsized job =
      (workers id).unsized job + (job.pread offset).length := by
    rw [at_stage]
    exact (zero_add _).symm
  have uncounted : (Place.run fsLcl queue (.size frames offset)).uncounted =
      (workers id).uncounted + 1 := by
    rw [at_stage]
    rfl
  constructor
  · exact account.fileNo
  · exact account.fd
  · rw [sentOffsets_append, account.offsets, ← tally_update_less owed]
    exact (add_assoc _ _ _).symm.trans (add_right_comm _ _ _)
  · rw [sentOffsets_append, account.crc, ← tally_update_less hashed]
    refine congrArg job.crcOf ?_
    exact (add_assoc _ _ _).symm.trans (add_right_comm _ _ _)
  · rw [sentOffsets_append, tally_update_more unsized, ← add_assoc, account.bytesTotal,
      Multiset.map_add, Multiset.sum_add, Multiset.map_singleton, Multiset.sum_singleton]
  · rw [sentOffsets_append, tally_update_more uncounted, ← add_assoc, account.blockTotal,
      Multiset.card_add, Multiset.card_singleton]
  · exact all_update (fun place => ∀ offset ∈ place.queue, offset ∈ job.offsets stat.blockOffset)
      account.fetched fun left mem => account.fetched id left (by rwa [at_stage])
  · exact all_update (fun place => place.Ended → job.size ≤ stat.blockOffset * job.block)
      account.ended fun ended => account.ended id (by rwa [at_stage])

/-- A worker adds to `bytes_total`. -/
theorem Account.size (account : Account job stat workers sent)
    (at_stage : workers id = .run fsLcl queue (.size frames offset)) :
    Account job { stat with bytesTotal := stat.bytesTotal + (job.pread offset).length }
      (Function.update workers id (.run fsLcl queue (.count frames offset))) sent := by
  have unsized : (workers id).unsized job =
      (Place.run fsLcl queue (.count frames offset)).unsized job + (job.pread offset).length := by
    rw [at_stage]
    exact (zero_add _).symm
  constructor
  · exact account.fileNo
  · exact account.fd
  · rw [tally_update_same (by rw [at_stage]; rfl)]
    exact account.offsets
  · rw [tally_update_same (by rw [at_stage]; rfl)]
    exact account.crc
  · rw [← account.bytesTotal, ← tally_update_less unsized]
    exact (add_right_comm _ _ _).trans (add_assoc _ _ _)
  · rw [tally_update_same (by rw [at_stage]; rfl)]
    exact account.blockTotal
  · exact all_update (fun place => ∀ offset ∈ place.queue, offset ∈ job.offsets stat.blockOffset)
      account.fetched fun left mem => account.fetched id left (by rwa [at_stage])
  · exact all_update (fun place => place.Ended → job.size ≤ stat.blockOffset * job.block)
      account.ended fun ended => account.ended id (by rwa [at_stage])

/-- A worker adds to `block_total`. -/
theorem Account.count (account : Account job stat workers sent)
    (at_stage : workers id = .run fsLcl queue (.count frames offset)) :
    Account job { stat with blockTotal := stat.blockTotal + 1 }
      (Function.update workers id (.run fsLcl queue (resume frames))) sent := by
  have shares : ∀ other : Job, (resume frames).reading = 0 ∧ (resume frames).hashed = 0 ∧
      (resume frames).unsized other = 0 ∧ (resume frames).uncounted = 0 := fun other => by
    rw [resume]
    split <;> exact ⟨rfl, rfl, rfl, rfl⟩
  obtain ⟨reading, hashed, unsized, none⟩ := shares job
  have uncounted : (workers id).uncounted =
      (Place.run fsLcl queue (resume frames)).uncounted + 1 := by
    rw [at_stage, Place.uncounted, Place.uncounted, none]
    rfl
  constructor
  · exact account.fileNo
  · exact account.fd
  · rw [tally_update_same (by rw [at_stage, Place.owed, Place.owed, reading]; rfl)]
    exact account.offsets
  · rw [tally_update_same (by rw [at_stage, Place.hashed, Place.hashed, hashed]; rfl)]
    exact account.crc
  · rw [tally_update_same (by rw [at_stage, Place.unsized, Place.unsized, unsized]; rfl)]
    exact account.bytesTotal
  · rw [← account.blockTotal, ← tally_update_less uncounted]
    exact (add_right_comm _ _ _).trans (add_assoc _ _ _)
  · exact all_update (fun place => ∀ offset ∈ place.queue, offset ∈ job.offsets stat.blockOffset)
      account.fetched fun left mem => account.fetched id left (by rwa [at_stage])
  · refine all_update (fun place => place.Ended → job.size ≤ stat.blockOffset * job.block)
      account.ended fun ended => account.ended id ?_
    rw [at_stage]
    rintro rfl
    exact ended

end Account
end SendFile
end EScp
