import EScp.SendFileFinish

/-!
# Short reads on the sender

`pread` may return less than it is asked for, and the offset of the next block does not depend on
what the last one returned.  Which blocks are sent, and who closes the file, is the same as with
whole reads: the two runs agree in everything but the lengths and the hash words.
-/

namespace EScp
namespace ShortRead

open StateWord SendFile

/-- How much `pread` returns at each offset; each offset is read once. -/
structure Reads (job : Job) where
  count : Nat → Nat
  legal : ∀ offset < job.size, 1 ≤ count offset ∧ count offset ≤ min job.block (job.size - offset)

variable {job : Job}

/-- What `pread` returns at an offset. -/
def Reads.pread (reads : Reads job) (offset : Nat) : List UInt8 :=
  (job.content.drop offset).take (reads.count offset)

/-- The interleavings of the workers with one file, with short reads. -/
def machine (job : Job) (reads : Reads job) : Machine State Label where
  initial state := state = State.init job
  next := nextWith reads.pread job

/-- The byte ranges that are sent cover the file. -/
def Covers (job : Job) (state : State) : Prop :=
  ∀ address < job.size, ∃ block ∈ state.sent,
    block.offset ≤ address ∧ address < block.offset + block.bytes.length

theorem Reads.length_pread (reads : Reads job) {offset : Nat} (inside : offset < job.size) :
    (reads.pread offset).length = reads.count offset := by
  have legal := reads.legal offset inside
  have size : job.size = job.content.length := rfl
  rw [pread, List.length_take, List.length_drop]
  omega

theorem Reads.pread_eq_nil (reads : Reads job) (offset : Nat) :
    reads.pread offset = [] ↔ job.pread offset = [] := by
  rw [Job.pread_eq_nil]
  constructor
  · intro nil
    by_contra inside
    have length := reads.length_pread (not_le.mp inside)
    have legal := reads.legal offset (not_le.mp inside)
    rw [nil, List.length_nil] at length
    omega
  · intro past
    have size : job.size = job.content.length := rfl
    rw [pread, List.drop_eq_nil_of_le (by omega), List.take_nil]

/-! ## What does not depend on the lengths -/

def blurStat (stat : FileStat) : FileStat := { stat with bytesTotal := 0, crc := 0 }

def blurPlace : Place → Place
  | .casClaim testFs => .casClaim (blurStat testFs)
  | .casAttach testFs => .casAttach (blurStat testFs)
  | .run fsLcl queue stage => .run (blurStat fsLcl) queue stage
  | .away => .away
  | .stopped => .stopped

def blurSent (block : Sent) : Sent := { block with bytes := [] }

def blurRecord (record : Record) : Record := { record with bytes := 0, crc := 0 }

/-- The state without the lengths and the hash words. -/
def blur (state : State) : State where
  stat := blurStat state.stat
  workers id := blurPlace (state.workers id)
  sent := state.sent.map blurSent
  removed := state.removed
  closed := state.closed
  pushed := state.pushed.map blurRecord
  wiped := state.wiped

variable {state : State} {id : Id}

theorem blur_setWorker (place : Place) :
    blur (state.setWorker id place) = (blur state).setWorker id (blurPlace place) := by
  rw [State.setWorker, State.setWorker, blur, blur]
  congr 1
  funext other
  exact Function.apply_update (fun _ => blurPlace) state.workers id place other

@[simp] theorem blurPlace_blurPlace (place : Place) :
    blurPlace (blurPlace place) = blurPlace place := by
  cases place with
  | away | casClaim | casAttach | stopped | run => rfl

@[simp] theorem blur_blur (state : State) : blur (blur state) = blur state := by
  simp [blur, blurStat, blurSent, blurRecord]

theorem blurPlace_returned (testFs : FileStat) :
    blurPlace (returned testFs) = returned (blurStat testFs) := by
  rw [returned]
  split
  · rename_i zero
    exact (if_pos zero).symm
  · rename_i nonzero
    exact (if_neg nonzero).symm

theorem blurPlace_returned_blur (testFs : FileStat) :
    blurPlace (returned testFs) = blurPlace (returned (blurStat testFs)) := by
  rw [blurPlace_returned, blurPlace_returned]
  rfl

theorem blurPlace_eq_away {place : Place} : blurPlace place = .away ↔ place = .away := by
  cases place with
  | away => simp [blurPlace]
  | casClaim | casAttach | stopped | run => simp [blurPlace]

theorem blur_congr {one two : State} {place other : Place} (same : blur one = blur two)
    (places : blurPlace place = blurPlace other) :
    blur (one.setWorker id place) = blur (two.setWorker id other) := by
  rw [blur_setWorker, blur_setWorker, same, places]

/-- A step of a worker that has the file does not depend on what the reads return. -/
theorem blur_runWith (pread other : Nat → List UInt8) (fsLcl : FileStat) (queue : List Nat)
    (stage : Stage) :
    (state.runWith pread job id fsLcl queue stage).map blur =
      ((blur state).runWith other job id (blurStat fsLcl) queue stage).map blur := by
  cases stage with
  | fetch =>
      simp only [State.runWith]
      split
      · exact congrArg some (blur_congr (by simp [blur, blurStat, blurSent, blurRecord]) rfl)
      · exact congrArg some (blur_congr (blur_blur state).symm rfl)
  | submit frames | unwind frames =>
      simp only [State.runWith]
      split
      · refine congrArg some (blur_congr (blur_blur state).symm ?_)
        split <;> rfl
      · rfl
  | hash | send | size | count | close | push | wipe =>
      exact congrArg some (blur_congr (by simp [blur, blurStat, blurSent, blurRecord]) rfl)
  | copy => exact congrArg some (blur_congr (blur_blur state).symm rfl)
  | remove frames =>
      exact congrArg some (blur_congr (by simp [blur, blurStat, blurSent, blurRecord]) rfl)

/-- Nor does any other step, as long as the reads end at the same place. -/
theorem blur_nextWith (job : Job) (state : State) {pread other : Nat → List UInt8}
    (ends : ∀ offset, pread offset = [] ↔ other offset = []) (label : Label) :
    (nextWith pread job state label).map blur =
      (nextWith other job (blur state) label).map blur := by
  cases label with
  | find id =>
      have guards : ((blur state).workers id = .away ∧ (blur state).stat.fileNo = job.fileNo ∧
          (blur state).stat.state = fsInit) ↔
          state.workers id = .away ∧ state.stat.fileNo = job.fileNo ∧ state.stat.state = fsInit :=
        and_congr_left' blurPlace_eq_away
      simp only [nextWith, guards]
      split
      · exact congrArg some (blur_congr (blur_blur state).symm rfl)
      · rfl
  | copy id =>
      have guards : ((blur state).workers id = .away ∧ (blur state).stat.state &&& fsIo ≠ 0) ↔
          state.workers id = .away ∧ state.stat.state &&& fsIo ≠ 0 :=
        and_congr_left' blurPlace_eq_away
      simp only [nextWith, guards]
      split
      · exact congrArg some (blur_congr (blur_blur state).symm rfl)
      · rfl
  | spurious id =>
      have workers : (blur state).workers id = blurPlace (state.workers id) := rfl
      simp only [nextWith, workers]
      cases state.workers id with
      | casClaim | casAttach => exact congrArg some (blur_congr (blur_blur state).symm rfl)
      | away | stopped | run => rfl
  | work id =>
      have workers : (blur state).workers id = blurPlace (state.workers id) := rfl
      have word : (blur state).stat.state = state.stat.state := rfl
      simp only [nextWith, State.workWith, workers]
      cases state.workers id with
      | away | stopped => rfl
      | casClaim testFs =>
          simp only [blurPlace, word]
          split
          · exact congrArg some (blur_congr (by simp [blur, blurStat, blurSent, blurRecord])
              (blurPlace_returned_blur testFs))
          · exact congrArg some (blur_congr (blur_blur state).symm rfl)
      | casAttach testFs =>
          have copied : (blurStat testFs).state = testFs.state := rfl
          simp only [blurPlace, word, copied]
          split
          · exact congrArg some (blur_congr (by simp [blur, blurStat, blurSent, blurRecord])
              (blurPlace_returned_blur testFs))
          · exact congrArg some (blur_congr (blur_blur state).symm rfl)
      | run fsLcl queue stage => exact blur_runWith pread other fsLcl queue stage
  | submit id offset =>
      have workers : (blur state).workers id = blurPlace (state.workers id) := rfl
      simp only [nextWith, State.submitWith, workers]
      cases state.workers id with
      | away | stopped | casClaim | casAttach => rfl
      | run fsLcl queue stage =>
          cases stage with
          | submit frames =>
              simp only [blurPlace]
              split
              · refine congrArg some (blur_congr (blur_blur state).symm ?_)
                simp only [ends offset]
                rfl
              · rfl
          | fetch | hash | send | size | count | remove | close | copy | push | wipe | unwind => rfl

/-- A run with short reads is a run with whole reads, but for the lengths and the hash words. -/
theorem whole_of_reached {reads : Reads job} (reached : (machine job reads).Reached state) :
    ∃ whole, (SendFile.machine job).Reached whole ∧ blur whole = blur state := by
  induction reached with
  | start initial => exact ⟨_, .start initial, rfl⟩
  | @step before after label _ _ taken ih =>
      obtain ⟨whole, whole_reached, same⟩ := ih
      have moved : (next job whole label).map blur = some (blur after) := by
        have taken : nextWith reads.pread job before label = some after := taken
        rw [next, blur_nextWith job whole (fun _ => Iff.rfl), same,
          ← blur_nextWith job before reads.pread_eq_nil, taken]
        rfl
      obtain ⟨later, later_taken, later_same⟩ := Option.map_eq_some_iff.mp moved
      exact ⟨later, .step whole_reached trivial later_taken, later_same⟩

/-! ## What is covered -/

/-- A worker that has the file sends nothing or one block, with what `pread` has returned. -/
theorem sent_runWith {pread : Nat → List UInt8} {after : State} {fsLcl : FileStat}
    {queue : List Nat} {stage : Stage}
    (taken : state.runWith pread job id fsLcl queue stage = some after) :
    ∀ block ∈ after.sent, block ∈ state.sent ∨ block.bytes = pread block.offset := by
  cases stage with
  | fetch =>
      rw [State.runWith] at taken
      split at taken
      · obtain rfl := Option.some.inj taken
        exact fun block mem => .inl mem
      · obtain rfl := Option.some.inj taken
        exact fun block mem => .inl mem
  | submit | unwind =>
      obtain ⟨-, left⟩ := Option.ite_none_right_eq_some.mp taken
      obtain rfl := Option.some.inj left
      exact fun block mem => .inl mem
  | send frames offset =>
      obtain rfl := Option.some.inj taken
      intro block mem
      rcases List.mem_append.mp mem with earlier | last
      · exact .inl earlier
      · obtain rfl := List.mem_singleton.mp last
        exact .inr rfl
  | hash | size | count | remove | close | copy | push | wipe =>
      obtain rfl := Option.some.inj taken
      exact fun block mem => .inl mem

/-- So does any step. -/
theorem sent_nextWith {pread : Nat → List UInt8} {after : State} {label : Label}
    (taken : nextWith pread job state label = some after) :
    ∀ block ∈ after.sent, block ∈ state.sent ∨ block.bytes = pread block.offset := by
  cases label with
  | find id | copy id =>
      obtain ⟨-, moved⟩ := Option.ite_none_right_eq_some.mp taken
      obtain rfl := Option.some.inj moved
      exact fun block mem => .inl mem
  | spurious id =>
      rw [nextWith] at taken
      split at taken
      · obtain rfl := Option.some.inj taken
        exact fun block mem => .inl mem
      · obtain rfl := Option.some.inj taken
        exact fun block mem => .inl mem
      · cases taken
  | work id =>
      rw [nextWith, State.workWith] at taken
      split at taken
      · split at taken
        · obtain rfl := Option.some.inj taken
          exact fun block mem => .inl mem
        · obtain rfl := Option.some.inj taken
          exact fun block mem => .inl mem
      · split at taken
        · obtain rfl := Option.some.inj taken
          exact fun block mem => .inl mem
        · obtain rfl := Option.some.inj taken
          exact fun block mem => .inl mem
      · exact sent_runWith taken
      · cases taken
      · cases taken
  | submit id offset =>
      rw [nextWith, State.submitWith] at taken
      split at taken
      · obtain ⟨-, moved⟩ := Option.ite_none_right_eq_some.mp taken
        obtain rfl := Option.some.inj moved
        exact fun block mem => .inl mem
      · cases taken

theorem sent_of_reached {reads : Reads job} (reached : (machine job reads).Reached state) :
    ∀ block ∈ state.sent, block.bytes = reads.pread block.offset := by
  refine reached.invariant
    (fun state => ∀ block ∈ state.sent, block.bytes = reads.pread block.offset)
    ?_ fun before label after sent _ taken block mem => ?_
  · rintro _ rfl block mem
    cases mem
  · exact (sent_nextWith taken block mem).elim (sent block) id

/-- When the file has been reported, the blocks that are sent are those of the file. -/
theorem offsets_of_pushed (inv : Inv job state) (pushed : state.pushed ≠ []) :
    sentOffsets state.sent = job.offsets job.blocks := by
  cases inv.life with
  | fresh fresh => exact absurd fresh.untouched.2.2.1 pushed
  | claimed io claimed => exact absurd claimed.untouched.2.2.1 pushed
  | closing id closing =>
      have off : ∀ other, (state.workers other).role ≠ .on := by
        intro other
        by_cases same : other = id
        · obtain ⟨fsLcl, queue, stage, at_stage, closed⟩ := closing.closed
          have role : (state.workers id).role = .closing := by
            rw [at_stage]
            exact closed.role
          rw [same, role]
          decide
        · exact (closing.alone other same).1
      exact (closing.account.whole inv.places off closing.ended).1
  | wiped id wiped => exact wiped.whole

/-- The offsets that are sent, as the run with whole reads has them. -/
theorem offsets_of_reached {reads : Reads job} (reached : (machine job reads).Reached state)
    (pushed : state.pushed ≠ []) :
    sentOffsets state.sent = job.offsets job.blocks := by
  obtain ⟨whole, whole_reached, same⟩ := whole_of_reached reached
  have sent : whole.sent.map blurSent = state.sent.map blurSent := congrArg State.sent same
  have pushed_eq : whole.pushed.map blurRecord = state.pushed.map blurRecord :=
    congrArg State.pushed same
  have whole_pushed : whole.pushed ≠ [] := by
    intro nil
    rw [nil, List.map_nil] at pushed_eq
    exact pushed (List.map_eq_nil_iff.mp pushed_eq.symm)
  have offsets : state.sent.map Sent.offset = whole.sent.map Sent.offset := by
    have blurred := congrArg (List.map Sent.offset) sent
    rw [List.map_map, List.map_map] at blurred
    exact blurred.symm
  rw [← offsets_of_pushed (SendFile.inv_reached whole_reached) whole_pushed, sentOffsets,
    sentOffsets, offsets]

/-- The blocks that are sent, when the file has been reported. -/
theorem mem_sent {reads : Reads job} (reached : (machine job reads).Reached state)
    (pushed : state.pushed ≠ []) {offset : Nat} :
    (∃ block ∈ state.sent, block.offset = offset) ↔
      ∃ index, index * job.block < job.size ∧ index * job.block = offset := by
  have offsets := offsets_of_reached reached pushed
  have listed : (∃ block ∈ state.sent, block.offset = offset) ↔
      offset ∈ sentOffsets state.sent := by
    rw [sentOffsets, Multiset.mem_coe, List.mem_map]
  rw [listed, offsets, Job.mem_offsets]
  simp only [Job.mul_block_lt]

/-- When the file has been reported, its bytes are covered exactly if each read of a block has
returned all of it. -/
theorem covers_iff {reads : Reads job} (reached : (machine job reads).Reached state)
    (pushed : state.pushed ≠ []) :
    Covers job state ↔ ∀ index, index * job.block < job.size →
      reads.count (index * job.block) = min job.block (job.size - index * job.block) := by
  have length_of : ∀ block ∈ state.sent, block.offset < job.size →
      block.bytes.length = reads.count block.offset := by
    intro block mem inside
    rw [sent_of_reached reached block mem]
    exact reads.length_pread inside
  have positive := job.block_pos
  constructor
  · intro covers index inside
    have legal := reads.legal _ inside
    by_contra short
    -- the first byte that the read has left out is in no other block
    obtain ⟨block, mem, low, high⟩ :=
      covers (index * job.block + reads.count (index * job.block)) (by omega)
    obtain ⟨other, other_inside, other_eq⟩ := (mem_sent reached pushed).mp ⟨block, mem, rfl⟩
    have other_legal := reads.legal _ other_inside
    rw [length_of block mem (by omega), ← other_eq] at high
    rw [← other_eq] at low
    have same : other = index := by
      rcases Nat.lt_trichotomy other index with before | equal | after
      · have apart := Nat.mul_le_mul_right job.block before
        rw [Nat.succ_mul] at apart
        omega
      · exact equal
      · have apart := Nat.mul_le_mul_right job.block after
        rw [Nat.succ_mul] at apart
        omega
    rw [same] at high
    omega
  · intro whole address inside
    have split_address := Nat.div_add_mod' address job.block
    have rest := Nat.mod_lt address positive
    have begins : address / job.block * job.block < job.size := by omega
    obtain ⟨block, mem, offset_eq⟩ :=
      (mem_sent reached pushed).mpr ⟨address / job.block, begins, rfl⟩
    refine ⟨block, mem, by omega, ?_⟩
    rw [length_of block mem (by omega), offset_eq, whole _ begins]
    omega

/-! ## A file of three bytes -/

/-- A file "abc", which is smaller than a block. -/
def abcJob : Job where
  fileNo := 1
  fd := 4
  slot := 1
  content := [97, 98, 99]
  block := 262144
  depth := 1
  doHash := false
  fileHash _ := []
  fd_ne := nofun
  block_pos := by decide
  depth_pos := by decide

/-- Reads of the file that return at most `most` bytes. -/
def abcReads (most : Nat) (positive : 1 ≤ most) : Reads abcJob where
  count offset := min most (3 - offset)
  legal offset inside := by
    change offset < 3 at inside
    change _ ∧ _ ≤ min 262144 (3 - offset)
    omega

/-- One worker reads the file, meets its end and reports it. -/
def abcSteps : List Label :=
  [.find 0, .work 0, .work 0, .work 0, .submit 0 0, .work 0, .work 0, .work 0, .work 0, .work 0,
    .submit 0 262144, .work 0, .work 0, .work 0, .work 0, .work 0]

theorem abc_reached (most : Nat) (positive : 1 ≤ most) (ran : ∃ state ∈
      (machine abcJob (abcReads most positive)).run (State.init abcJob) abcSteps,
      state.pushed.length = 1) :
    ∃ state, (machine abcJob (abcReads most positive)).Reached state ∧ state.pushed ≠ [] := by
  obtain ⟨state, taken, pushed⟩ := ran
  refine ⟨state, Machine.reached_of_run rfl abcSteps taken, ?_⟩
  rintro nil
  rw [nil] at pushed
  cases pushed

/-- A whole read covers the file. -/
theorem covers_of_whole : ∃ state, (machine abcJob (abcReads 3 (by decide))).Reached state ∧
    state.pushed ≠ [] ∧ Covers abcJob state := by
  obtain ⟨state, reached, pushed⟩ := abc_reached 3 (by decide) (by decide +kernel)
  refine ⟨state, reached, pushed, (covers_iff reached pushed).mpr fun index inside => ?_⟩
  change index * 262144 < 3 at inside
  change min 3 (3 - index * 262144) = min 262144 (3 - index * 262144)
  omega

/-- A read that returns two of the three bytes loses the third. -/
theorem not_covers_of_reached :
    ¬∀ (job : Job) (reads : Reads job) (state : State), (machine job reads).Reached state →
      state.pushed ≠ [] → Covers job state := by
  intro covers
  obtain ⟨state, reached, pushed⟩ := abc_reached 2 (by decide) (by decide +kernel)
  obtain ⟨block, mem, low, high⟩ := covers _ _ state reached pushed 2 (by decide)
  have inside : block.offset < abcJob.size := low.trans_lt (by decide)
  have length := Reads.length_pread (abcReads 2 (by decide)) inside
  rw [← sent_of_reached reached block mem] at length
  obtain ⟨index, -, offset⟩ := (mem_sent reached pushed).mp ⟨block, mem, rfl⟩
  change index * 262144 = block.offset at offset
  change block.bytes.length = min 2 (3 - block.offset) at length
  omega

end ShortRead
end EScp
