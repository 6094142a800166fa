import EScp.SendFileLife

/-!
# Each file is finished once

What is left to do for a file is a number that every step of a worker that has the file lowers, and
no step raises.  A worker that has the file can always go on.  So the last worker is reached, and it
reports each block once.
-/

namespace EScp
namespace SendFile

open StateWord FileTable FileChecksum

/-! ## What is left to do -/

/-- Workers may come to the entry. -/
def State.Admits (state : State) : Prop :=
  state.stat.state = fsInit ∨ state.stat.state &&& fsIo ≠ 0

instance (state : State) : Decidable state.Admits := by
  unfold State.Admits
  infer_instance

/-- The operations that a worker in `tx_worker` may still ask for. -/
def Job.room (job : Job) (frames length : Nat) : Nat :=
  if frames = 0 then 3 * (job.depth - length) else 0

/-- What is left to do in `submit_work` and `tx_worker`, with `length` operations in the queue. -/
def Stage.rank (job : Job) (length : Nat) : Stage → Nat
  | .fetch => 7 + job.room 0 length
  | .submit frames => frames + 6 + job.room frames length
  | .hash frames _ => frames + 11 + job.room frames length
  | .send frames _ => frames + 10 + job.room frames length
  | .size frames _ => frames + 9 + job.room frames length
  | .count frames _ => frames + 8 + job.room frames length
  | .remove frames => frames + 6
  | .close frames => frames + 5
  | .copy frames => frames + 4
  | .push frames => frames + 3
  | .wipe frames => frames + 2
  | .unwind frames => frames + 1

/-- What is left to do for an operation in a queue. -/
def Job.operation (job : Job) (offset : Nat) : Nat := if offset < job.size then 9 else 2

/-- What is left to do for a worker outside the file, that comes to it if it may. -/
def Job.visit (job : Job) (admits : Bool) : Nat := if admits then 8 + 3 * job.depth else 0

/-- What is left to do for a worker. -/
def Place.rank (job : Job) (admits : Bool) : Place → Nat
  | .run _ queue stage => (queue.map job.operation).sum + stage.rank job queue.length
  | _ => job.visit admits

/-- What is left to do for the blocks that are not fetched. -/
def State.unfetched (job : Job) (state : State) : Nat :=
  if state.wiped = [] then 7 * (job.blocks - state.stat.blockOffset) else 0

/-- What is left to do for the file. -/
def State.rank (job : Job) (state : State) : Nat :=
  state.unfetched job + tally (Place.rank job state.Admits) state.workers

/-- The worker that takes a step. -/
def Label.id : Label → Id
  | .find id | .copy id | .spurious id | .work id | .submit id _ => id

variable {job : Job} {state after : State} {id : Id} {place : Place}

theorem rank_mono {admits less : Bool} (le : less = true → admits = true) (place : Place) :
    place.rank job less ≤ place.rank job admits := by
  have visit : job.visit less ≤ job.visit admits := by
    rw [Job.visit, Job.visit]
    split
    · rename_i may
      rw [if_pos (le may)]
    · exact Nat.zero_le _
  cases place with
  | run => exact le_rfl
  | away | casClaim | casAttach | stopped => exact visit

/-- One worker moves, and no more workers may come than before. -/
theorem rank_move (job : Job) (workers : after.workers = Function.update state.workers id place)
    (admits : after.Admits → state.Admits) :
    tally (Place.rank job after.Admits) after.workers +
        (state.workers id).rank job state.Admits ≤
      tally (Place.rank job state.Admits) state.workers + place.rank job state.Admits := by
  rw [workers, ← tally_update]
  refine Nat.add_le_add_right (Finset.sum_le_sum fun other _ => rank_mono ?_ _) _
  simpa using admits

/-- Nobody comes to the entry after somebody has left. -/
theorem Life.not_admits (life : Life job state) (left : (state.workers id).role = .unwinding) :
    ¬state.Admits := by
  have closed : ∀ io, Claimed job io state → ¬state.Admits := by
    rintro io claimed (word | flag)
    · exact claimed.marks.claimed.2.2 word
    · exact claimed.none_left (claimed.marks.and_fsIo.mp flag) id left
  cases life with
  | fresh fresh => exact absurd ((fresh.idle id).symm.trans left) (by decide)
  | claimed io claimed => exact closed io claimed
  | closing last closing =>
      rw [State.Admits, closing.word]
      decide
  | wiped last wiped =>
      rw [State.Admits, wiped.stat]
      decide

theorem sum_erase (job : Job) {queue : List Nat} {offset : Nat} (mem : offset ∈ queue) :
    job.operation offset + ((queue.erase offset).map job.operation).sum =
      (queue.map job.operation).sum :=
  List.sum_map_erase _ mem

theorem room_erase (job : Job) (frames : Nat) {queue : List Nat} {offset : Nat}
    (mem : offset ∈ queue) :
    job.room frames (queue.erase offset).length ≤ job.room frames queue.length + 3 := by
  rw [List.length_erase_of_mem mem, Job.room, Job.room]
  split <;> omega

/-- What is left is less when it is less for the worker that moves. -/
theorem rank_lt (workers : after.workers = Function.update state.workers id place)
    (admits : after.Admits → state.Admits)
    (less : after.unfetched job + place.rank job state.Admits <
      state.unfetched job + (state.workers id).rank job state.Admits) :
    after.rank job < state.rank job := by
  have moved := rank_move job workers admits
  rw [State.rank, State.rank]
  omega

/-- A worker has less left, and the word is the same. -/
theorem rank_lt_of_kept (workers : after.workers = Function.update state.workers id place)
    (word : after.stat.state = state.stat.state)
    (unfetched : after.unfetched job ≤ state.unfetched job)
    (less : place.rank job state.Admits < (state.workers id).rank job state.Admits) :
    after.rank job < state.rank job := by
  refine rank_lt workers (fun may => ?_) (Nat.add_lt_add_of_le_of_lt unfetched less)
  rwa [State.Admits, word] at may

/-- A worker that has the file lowers what is left. -/
theorem rank_run (inv : Inv job state) {fsLcl : FileStat} {queue : List Nat} {stage : Stage}
    (at_stage : state.workers id = .run fsLcl queue stage)
    (taken : state.run job id fsLcl queue stage = some after) :
    after.rank job < state.rank job := by
  have ok := inv.places id
  rw [at_stage] at ok
  obtain ⟨-, stage_ok⟩ := ok
  have role : (state.workers id).role = stage.role := by rw [at_stage]; rfl
  have before : (state.workers id).rank job state.Admits =
      (queue.map job.operation).sum + stage.rank job queue.length := by rw [at_stage]; rfl
  cases stage with
  | fetch =>
      rw [State.run, State.runWith] at taken
      split at taken
      · rename_i free
        obtain rfl := Option.some.inj taken
        obtain ⟨io, claimed⟩ := inv.life.claimed_of_on role
        refine rank_lt rfl (fun may => may) ?_
        rw [before]
        simp only [State.unfetched, State.setWorker, claimed.untouched.2.2.2, Place.rank,
          Stage.rank, Job.room, Job.operation, if_true, List.map_append, List.map_cons,
          List.map_nil, List.sum_append, List.sum_cons, List.sum_nil, List.length_append,
          List.length_singleton, Job.mul_block_lt]
        split <;> omega
      · obtain rfl := Option.some.inj taken
        refine rank_lt_of_kept rfl rfl le_rfl ?_
        rw [before]
        simp only [Place.rank, Stage.rank]
        omega
  | submit frames =>
      rw [State.run, State.runWith] at taken
      split at taken
      · rename_i none
        obtain rfl := Option.some.inj taken
        have deep : frames ≠ 0 := fun zero => stage_ok zero none
        rw [if_neg deep]
        refine rank_lt_of_kept rfl rfl le_rfl ?_
        rw [before]
        simp only [Place.rank, Stage.rank]
        omega
      · cases taken
  | hash frames offset | send frames offset | size frames offset | close frames | copy frames
  | push frames =>
      obtain rfl := Option.some.inj taken
      refine rank_lt_of_kept rfl rfl le_rfl ?_
      rw [before]
      simp only [Place.rank, Stage.rank]
      omega
  | count frames offset =>
      obtain rfl := Option.some.inj taken
      refine rank_lt_of_kept rfl rfl le_rfl ?_
      rw [before, Place.rank, resume]
      split
      · rename_i zero
        simp only [Stage.rank, zero]
        omega
      · simp only [Stage.rank]
        omega
  | remove frames =>
      obtain rfl := Option.some.inj taken
      obtain rfl : queue = [] := stage_ok
      obtain ⟨io, claimed⟩ := inv.life.claimed_of_on role
      have marks := claimed.marks.remove id
      refine rank_lt rfl ?_ (Nat.add_lt_add_left ?_ _)
      · rintro (word | flag)
        · exact absurd word marks.claimed.2.2
        · exact absurd (marks.and_fsIo.mp flag) (by decide)
      · rw [before, Place.rank]
        split
        · simp only [Stage.rank]
          omega
        · simp only [Stage.rank]
          omega
  | wipe frames =>
      obtain rfl := Option.some.inj taken
      refine rank_lt rfl ?_ (Nat.add_lt_add_of_le_of_lt ?_ ?_)
      · rintro (word | flag)
        · have cleared : (0 : BitVec 64) = fsInit := word
          exact absurd cleared (by decide)
        · have cleared : (0 : BitVec 64) &&& fsIo ≠ 0 := flag
          exact absurd (by decide) cleared
      · simp [State.unfetched, State.setWorker]
      · rw [before]
        simp only [Place.rank, Stage.rank]
        omega
  | unwind frames =>
      rw [State.run, State.runWith] at taken
      split at taken
      · obtain rfl := Option.some.inj taken
        obtain rfl : queue = [] := stage_ok
        refine rank_lt_of_kept rfl rfl le_rfl ?_
        rw [before]
        split
        · have none : job.visit (decide state.Admits) = 0 := by
            rw [Job.visit, decide_eq_false (inv.life.not_admits role)]
            rfl
          simp only [Place.rank, Stage.rank, none]
          omega
        · simp only [Place.rank, Stage.rank]
          omega
      · cases taken

/-- So does the engine when it returns an operation. -/
theorem rank_submit {offset : Nat} (taken : state.submit job id offset = some after) :
    after.rank job < state.rank job := by
  obtain ⟨fsLcl, queue, frames, at_stage, mem, rfl⟩ := State.submit_eq_some taken
  have before : (state.workers id).rank job state.Admits =
      (queue.map job.operation).sum + (frames + 6 + job.room frames queue.length) := by
    rw [at_stage]
    rfl
  have erased := sum_erase job mem
  have room := room_erase job frames mem
  refine rank_lt_of_kept rfl rfl le_rfl ?_
  rw [before, Place.rank]
  by_cases past : job.size ≤ offset
  · have weight : job.operation offset = 2 := if_neg (not_lt.mpr past)
    have none : job.room (frames + 1) (queue.erase offset).length = 0 :=
      if_neg (Nat.succ_ne_zero _)
    rw [if_pos (Job.pread_eq_nil.mpr past), Stage.rank, none]
    omega
  · have weight : job.operation offset = 9 := if_pos (not_le.mp past)
    rw [if_neg (Job.pread_eq_nil.not.mpr past)]
    split
    · rw [Stage.rank]
      omega
    · rw [Stage.rank]
      omega

/-- A worker outside the file moves, and may come to it. -/
theorem rank_off (role : (state.workers id).role = .off)
    (workers : after.workers = Function.update state.workers id place)
    (admits : after.Admits → state.Admits) (unfetched : after.unfetched job = state.unfetched job)
    (outside : place.role = .off ∨ state.Admits ∧ ∃ testFs, place = .run testFs [] .fetch) :
    after.rank job ≤ state.rank job := by
  have visit : ∀ place : Place, place.role = .off →
      place.rank job state.Admits = job.visit state.Admits := by
    intro place off
    cases place with
    | away | casClaim | casAttach | stopped => rfl
    | run fsLcl queue stage => cases stage <;> cases off
  have less : place.rank job state.Admits ≤ (state.workers id).rank job state.Admits := by
    rw [visit _ role]
    rcases outside with off | ⟨may, testFs, rfl⟩
    · rw [visit _ off]
    · rw [Job.visit, decide_eq_true may, if_pos rfl, Place.rank, Stage.rank, Job.room, if_pos rfl]
      simp
  have moved := rank_move job workers admits
  rw [State.rank, State.rank, unfetched]
  omega

/-- No step raises what is left, and a worker that has the file lowers it. -/
theorem rank_next (inv : Inv job state) {label : Label}
    (taken : next job state label = some after) :
    after.rank job ≤ state.rank job ∧
      ((state.workers label.id).role ≠ .off → after.rank job < state.rank job) := by
  cases label with
  | find id =>
      obtain ⟨⟨at_place, -, -⟩, rfl⟩ := Option.ite_none_right_eq_some.mp taken
        |>.imp_right Option.some.inj
      have role : (state.workers id).role = .off := by rw [at_place]; rfl
      exact ⟨rank_off role rfl (fun may => may) rfl (.inl rfl), absurd role⟩
  | copy id =>
      obtain ⟨⟨at_place, -⟩, rfl⟩ := Option.ite_none_right_eq_some.mp taken
        |>.imp_right Option.some.inj
      have role : (state.workers id).role = .off := by rw [at_place]; rfl
      exact ⟨rank_off role rfl (fun may => may) rfl (.inl rfl), absurd role⟩
  | spurious id =>
      have role : (state.workers id).role = .off ∧ after = state.setWorker id .away := by
        simp only [next, nextWith] at taken
        split at taken
        · rename_i at_place
          exact ⟨by rw [at_place]; rfl, (Option.some.inj taken).symm⟩
        · rename_i at_place
          exact ⟨by rw [at_place]; rfl, (Option.some.inj taken).symm⟩
        · cases taken
      obtain ⟨role, rfl⟩ := role
      exact ⟨rank_off role rfl (fun may => may) rfl (.inl rfl), absurd role⟩
  | submit id offset =>
      have less := rank_submit taken
      exact ⟨less.le, fun _ => less⟩
  | work id =>
      have ok := inv.places id
      rw [next, nextWith] at taken
      cases at_place : state.workers id with
      | away | stopped => simp [State.workWith, at_place] at taken
      | casClaim testFs =>
          have role : (state.workers id).role = .off := by rw [at_place]; rfl
          refine ⟨?_, absurd role⟩
          rw [at_place] at ok
          simp only [State.workWith, at_place] at taken
          split at taken
          · rename_i word
            obtain rfl := Option.some.inj taken
            rw [Inv.returned_eq ok.2]
            exact rank_off role rfl (fun _ => .inl word) rfl (.inr ⟨.inl word, testFs, rfl⟩)
          · obtain rfl := Option.some.inj taken
            exact rank_off role rfl (fun may => may) rfl (.inl rfl)
      | casAttach testFs =>
          have role : (state.workers id).role = .off := by rw [at_place]; rfl
          refine ⟨?_, absurd role⟩
          rw [at_place] at ok
          simp only [State.workWith, at_place] at taken
          split at taken
          · rename_i word
            obtain rfl := Option.some.inj taken
            have may : state.Admits := .inr (word ▸ ok.2.2)
            rw [Inv.returned_eq ok.2.1]
            exact rank_off role rfl (fun _ => may) rfl (.inr ⟨may, testFs, rfl⟩)
          · obtain rfl := Option.some.inj taken
            exact rank_off role rfl (fun may => may) rfl (.inl rfl)
      | run fsLcl queue stage =>
          simp only [State.workWith, at_place] at taken
          have less := rank_run inv at_place taken
          exact ⟨less.le, fun _ => less⟩

/-- A worker that has the file can go on. -/
theorem Inv.moves (inv : Inv job state) (busy : (state.workers id).role ≠ .off) :
    ∃ label : Label, label.id = id ∧ (SendFile.next job state label).isSome := by
  have ok := inv.places id
  cases at_place : state.workers id with
  | away | casClaim | casAttach | stopped =>
      rw [at_place] at busy
      exact absurd rfl busy
  | run fsLcl queue stage =>
      rw [at_place] at ok
      have goes : ∀ after, state.run job id fsLcl queue stage = some after →
          ∃ label : Label, label.id = id ∧ (SendFile.next job state label).isSome := by
        intro after taken
        refine ⟨.work id, rfl, ?_⟩
        rw [State.run] at taken
        simp only [SendFile.next, nextWith, State.workWith, at_place, taken, Option.isSome_some]
      cases stage with
      | fetch =>
          rw [State.run, State.runWith] at goes
          split at goes
          · exact goes _ rfl
          · exact goes _ rfl
      | submit frames =>
          cases at_queue : queue with
          | nil => exact goes _ (if_pos at_queue)
          | cons offset rest =>
              refine ⟨.submit id offset, rfl, ?_⟩
              simp [SendFile.next, nextWith, State.submitWith, at_place, at_queue]
      | unwind frames => exact goes _ (if_pos ok.2)
      | hash | send | size | count | remove | close | copy | push | wipe => exact goes _ rfl

/-! ## The life of the file -/

/-- One worker has closed the file, reported it and wiped its entry, and each block is sent once. -/
structure Finished (job : Job) (state : State) : Prop where
  last : ∃ id, state.completes = [id] ∧ state.closed = [id] ∧ state.wiped = [id]
  pushed : state.pushed = [job.record]
  sent : (state.sent.map Sent.offset).Perm ((List.range job.blocks).map (· * job.block))

/-- The life of a file: no block is sent twice or by two workers, at most one worker closes and
reports the file, and when the workers are through with it all is done.  They get there: whoever has
the file can go on, and each of its steps lowers what is left to do. -/
structure LifeCycle (job : Job) (state : State) : Prop where
  sent : ∀ block ∈ state.sent, block.fileNo = job.fileNo ∧ block.bytes = job.pread block.offset ∧
    ∃ index, index * job.block < job.size ∧ block.offset = index * job.block
  once : (state.sent.map Sent.offset).Nodup
  last : state.completes.length ≤ 1
  closed : state.closed <+: state.completes
  pushed : state.pushed <+: [job.record]
  wiped : state.wiped <+: state.completes
  finished : state.stat.state ≠ fsInit →
    (∀ id, (state.workers id).role ≠ .on ∧ (state.workers id).role ≠ .closing) →
      Finished job state
  moves : ∀ id, (state.workers id).role ≠ .off →
    ∃ label : Label, label.id = id ∧ (next job state label).isSome
  settles : ∀ label after, next job state label = some after →
    after.rank job ≤ state.rank job ∧
      ((state.workers label.id).role ≠ .off → after.rank job < state.rank job)

theorem Job.size_le : job.size ≤ job.blocks * job.block := by
  by_contra short
  exact absurd (mul_block_lt.mp (not_le.mp short)) (lt_irrefl _)

theorem Job.nodup_offsets (count : Nat) : (job.offsets count).Nodup :=
  (Multiset.nodup_range count).map fun _ _ same => Nat.eq_of_mul_eq_mul_right job.block_pos same

/-- What is sent are blocks of the file. -/
theorem Inv.sent_le (inv : Inv job state) :
    ∃ count, sentOffsets state.sent ≤ (job.offsets count).filter (· < job.size) := by
  have fetched : Account job state.stat state.workers state.sent →
      ∃ count, sentOffsets state.sent ≤ (job.offsets count).filter (· < job.size) := by
    intro account
    refine ⟨state.stat.blockOffset, ?_⟩
    rw [account.offsets]
    exact Multiset.le_add_right _ _
  cases inv.life with
  | fresh fresh => exact fetched fresh.account
  | claimed io claimed => exact fetched claimed.account
  | closing id closing => exact fetched closing.account
  | wiped id wiped =>
      refine ⟨job.blocks, ?_⟩
      rw [Job.data_offsets Job.size_le, wiped.whole]

/-- The workers are through with a file that has been claimed. -/
theorem Inv.finished (inv : Inv job state) (claimed : state.stat.state ≠ fsInit)
    (through : ∀ id, (state.workers id).role ≠ .on ∧ (state.workers id).role ≠ .closing) :
    Finished job state := by
  cases inv.life with
  | fresh fresh => exact absurd fresh.word claimed
  | claimed io claimed =>
      obtain ⟨id, mem⟩ := claimed.attached
      exact absurd (mem_ids.mp mem) (through id).1
  | closing id closing =>
      obtain ⟨_, _, _, at_stage, was⟩ := closing.closed
      refine absurd ?_ (through id).2
      rw [at_stage]
      exact was.role
  | wiped id wiped =>
      constructor
      · exact ⟨id, wiped.completes, wiped.closed, wiped.wiped⟩
      · exact wiped.pushed
      · exact Multiset.coe_eq_coe.mp wiped.whole

/-- A block that has been sent is one of the blocks of the file. -/
theorem Inv.block_of_sent (inv : Inv job state) {block : Sent} (mem : block ∈ state.sent) :
    block.fileNo = job.fileNo ∧ block.bytes = job.pread block.offset ∧
      ∃ index, index * job.block < job.size ∧ block.offset = index * job.block := by
  obtain ⟨count, le⟩ := inv.sent_le
  have offset_mem : block.offset ∈ (job.offsets count).filter (· < job.size) :=
    Multiset.mem_of_le le (Multiset.mem_coe.mpr (List.mem_map_of_mem mem))
  obtain ⟨fetched, data⟩ := Multiset.mem_filter.mp offset_mem
  obtain ⟨index, -, offset_eq⟩ := Job.mem_offsets.mp fetched
  obtain ⟨fileNo_eq, bytes_eq⟩ := inv.sents block mem
  exact ⟨fileNo_eq, bytes_eq, index, offset_eq ▸ data, offset_eq.symm⟩

/-- Every interleaving of the workers keeps to the life of the file. -/
theorem lifeCycle_of_reached (reached : (machine job).Reached state) : LifeCycle job state := by
  have inv := inv_reached reached
  obtain ⟨count, le⟩ := inv.sent_le
  constructor
  · intro block mem
    have offset_mem : block.offset ∈ (job.offsets count).filter (· < job.size) :=
      Multiset.mem_of_le le (Multiset.mem_coe.mpr (List.mem_map.mpr ⟨block, mem, rfl⟩))
    obtain ⟨fetched, data⟩ := Multiset.mem_filter.mp offset_mem
    obtain ⟨index, -, offset_eq⟩ := Job.mem_offsets.mp fetched
    obtain ⟨fileNo_eq, bytes_eq⟩ := inv.sents block mem
    exact ⟨fileNo_eq, bytes_eq, index, offset_eq ▸ data, offset_eq.symm⟩
  · have nodup := Multiset.nodup_of_le le ((Job.nodup_offsets count).filter _)
    exact Multiset.coe_nodup.mp nodup
  · cases inv.life with
    | fresh fresh => simp [fresh.untouched.1]
    | claimed io claimed => simp [claimed.untouched.1]
    | closing id closing => simp [closing.completes]
    | wiped id wiped => simp [wiped.completes]
  · cases inv.life with
    | fresh fresh => simp [fresh.untouched.2.1]
    | claimed io claimed => simp [claimed.untouched.2.1]
    | closing id closing =>
        rw [closing.completes]
        obtain ⟨_, _, stage, -, was⟩ := closing.closed
        cases stage with
        | close => simp [was.1]
        | copy | push | wipe => simp [was.1]
        | fetch | submit | hash | send | size | count | remove | unwind => exact was.elim
    | wiped id wiped => rw [wiped.completes, wiped.closed]
  · cases inv.life with
    | fresh fresh => simp [fresh.untouched.2.2.1]
    | claimed io claimed => simp [claimed.untouched.2.2.1]
    | closing id closing =>
        obtain ⟨_, _, stage, -, was⟩ := closing.closed
        cases stage with
        | close | copy => simp [was.2]
        | push => simp [was.2.1]
        | wipe => rw [was.2]
        | fetch | submit | hash | send | size | count | remove | unwind => exact was.elim
    | wiped id wiped => rw [wiped.pushed]
  · cases inv.life with
    | fresh fresh => simp [fresh.untouched.2.2.2]
    | claimed io claimed => simp [claimed.untouched.2.2.2]
    | closing id closing => simp [closing.wiped]
    | wiped id wiped => rw [wiped.completes, wiped.wiped]
  · exact inv.finished
  · exact fun _ => inv.moves
  · exact fun _ _ => rank_next inv

/-! ## Two workers send three blocks -/

/-- A file of five bytes in blocks of two. -/
def fiveBytes : Job where
  fileNo := 7
  fd := 4
  slot := 9
  content := [1, 2, 3, 4, 5]
  block := 2
  depth := 2
  doHash := true
  fileHash bytes := bytes
  fd_ne := by decide
  block_pos := by decide
  depth_pos := by decide

/-- Both workers have the file; each engine returns its last read first. -/
def fiveSteps : List Label :=
  [.find 0, .work 0, .copy 1, .work 1, .work 0, .work 1, .work 0, .work 0, .submit 0 4, .work 0,
    .work 0, .work 0, .work 0, .work 0, .work 1, .work 1, .submit 1 8, .submit 1 2, .work 1,
    .work 1, .work 1, .work 1, .work 1, .work 1, .work 1, .work 0, .submit 0 6,
    .submit 0 0, .work 0, .work 0, .work 0, .work 0, .work 0, .work 0, .work 0, .work 0, .work 0,
    .work 0, .work 0]

/-- Worker 0 reports the file with the exclusive or of the words of its three blocks. -/
theorem lifeCycle_of_fiveSteps :
    ∃ state, LifeCycle fiveBytes state ∧
      state.pushed = [⟨7, 5, 3, 0x201 ^^^ 0x403 ^^^ 0x5⟩] := by
  have ran : ((machine fiveBytes).run (State.init fiveBytes) fiveSteps).map State.pushed =
      some [⟨7, 5, 3, 0x201 ^^^ 0x403 ^^^ 0x5⟩] := by decide +kernel
  obtain ⟨state, taken, pushed⟩ := Option.map_eq_some_iff.mp ran
  exact ⟨state, lifeCycle_of_reached (Machine.reached_of_run rfl fiveSteps taken), pushed⟩

end SendFile
end EScp
