import EScp.ReceiveFilesLife

/-!
# Only complete files are closed

In every interleaving a file is closed with what its spec entry says, after all its blocks are
written and counted, and when everything has arrived and the main loop has nothing left to do each
file has been closed once.
-/

namespace EScp
namespace ReceiveFiles

open StateWord FileTable

variable {File : Type*} {Thread : Type*} {transfer : Transfer File}

section Step

variable [DecidableEq File]

/-- The entry of a file with the progress of one of its blocks. -/
theorem check_update (stat : FileStat) (progress : transfer.Block → Progress) {file : File}
    (index : Fin (transfer.blocks file)) (later : Progress) :
    transfer.check file stat (Function.update progress ⟨file, index⟩ later) =
      ⟨stat, Function.update (fun index => (progress ⟨file, index⟩).stage) index later.stage⟩ := by
  refine congrArg (FileChecksum.State.mk stat) (funext fun other => ?_)
  by_cases same : other = index
  · rw [same, Function.update_self, Function.update_self]
  · have ne : (⟨file, other⟩ : transfer.Block) ≠ ⟨file, index⟩ := by
      intro equal
      cases equal
      exact same rfl
    rw [Function.update_of_ne same, Function.update_of_ne ne]

variable {state : State transfer Thread} {phase : File → Phase} {thread : Thread}
  {block : transfer.Block}

omit [DecidableEq File] in
/-- A thread that has found the file of its block has the slot and the descriptor of the file. -/
theorem Inv.found (inv : Inv state phase)
    (own : (state.workers thread).stage.block = some block)
    (not_waiting : ¬(state.workers thread).stage.Waiting)
    (cur : (state.workers thread).fileCur = transfer.fino block.1) :
    phase block.1 = .added (state.workers thread).fsPtr ∧
      (state.workers thread).fs.fd = (state.fileStat (state.workers thread).fsPtr).fd := by
  have ok := inv.blocks.threads thread
  rcases ok.cache not_waiting block.1 cur with closed | found
  · exact absurd (inv.blocks.late block closed) (ok.under_way own).2
  · exact found

variable [DecidableEq Thread]

omit [DecidableEq File] in
/-- A thread goes on with its block. -/
theorem Inv.step (inv : Inv state phase)
    (own : (state.workers thread).stage.block = some block) {fileStat : Nat → FileStat}
    {progress : transfer.Block → Progress} {writes : List (Write transfer.Block)}
    {worker : RxWorker transfer.Block}
    (fds : ∀ slot, (fileStat slot).fd = (state.fileStat slot).fd)
    (others : ∀ other ≠ block, progress other = state.progress other)
    (table : Table transfer fileStat state.opened progress phase)
    (ok : WorkerOk transfer fileStat progress phase worker)
    (keeps : worker.stage.block = some block ∨
      worker.stage.block = none ∧ progress block = .counted)
    (early : phase block.1 = .unannounced ∨ phase block.1 = .queued →
      (progress block).stage = .arrived)
    (written : Written transfer writes progress) :
    Inv { state with
      fileStat := fileStat
      progress := progress
      writes := writes
      workers := Function.update state.workers thread worker } phase := by
  constructor
  · exact inv.books.keep fds
  · exact table
  · exact inv.blocks.step own fds others ok keeps early
  · exact written
  · exact inv.closed
  · have main := inv.main
    cases at_main : state.main with
    | idle => trivial
    | closing fino slot =>
        rw [at_main] at main
        obtain ⟨file, rest, rfl, at_list, added, counted⟩ := main
        refine ⟨file, rest, rfl, at_list, added, fun index => ?_⟩
        have ne : (⟨file, index⟩ : transfer.Block) ≠ block := by
          rintro rfl
          exact ((inv.blocks.threads thread).under_way own).2 (counted index)
        exact (others _ ne).trans (counted index)

omit [DecidableEq File] in
/-- A thread that waits for its file tries again. -/
theorem Inv.retry (inv : Inv state phase)
    (own : (state.workers thread).stage.block = some block)
    (received : state.progress block = .received) (fs : FileStat) (index : Nat) :
    Inv (state.setWorker thread
      { state.workers thread with fs := fs, stage := .wait block index }) phase := by
  refine inv.step own (fun _ => rfl) (fun _ _ => rfl) inv.table ⟨received, absurd trivial⟩
    (.inl rfl) (fun _ => ?_) inv.written
  rw [received]
  rfl

/-- A thread updates the entry of the file of its block. -/
theorem Inv.store (inv : Inv state phase)
    (own : (state.workers thread).stage.block = some block)
    (not_waiting : ¬(state.workers thread).stage.Waiting)
    (cur : (state.workers thread).fileCur = transfer.fino block.1) {stat : FileStat}
    {later : Progress} {stage : Stage transfer.Block} (sz : Nat)
    (fileNo : stat.fileNo = (state.fileStat (state.workers thread).fsPtr).fileNo)
    (same_fd : stat.fd = (state.fileStat (state.workers thread).fsPtr).fd)
    (same_state : stat.state = (state.fileStat (state.workers thread).fsPtr).state)
    (taken : (transfer.check block.1 (state.fileStat (state.workers thread).fsPtr)
      state.progress).work transfer.fileHash (transfer.content block.1) block.2 sz =
        some (transfer.check block.1 stat (Function.update state.progress block later)))
    (ok : stage.Ok transfer
      (Function.update state.fileStat (state.workers thread).fsPtr stat)
      (Function.update state.progress block later) phase (state.workers thread).fileCur
        (state.workers thread).fs)
    (stage_block : stage.block = some block ∨ stage.block = none ∧ later = .counted)
    (written : Written transfer state.writes (Function.update state.progress block later)) :
    Inv (((state.setStat (state.workers thread).fsPtr stat).setProgress block later).setStage
      thread stage) phase := by
  obtain ⟨added, fd⟩ := inv.found own not_waiting cur
  have held := inv.table.held _ _ added
  have fds : ∀ slot, (Function.update state.fileStat (state.workers thread).fsPtr stat slot).fd =
      (state.fileStat slot).fd := by
    intro slot
    by_cases same : slot = (state.workers thread).fsPtr
    · rw [same, Function.update_self, same_fd]
    · rw [Function.update_of_ne same]
  refine inv.step own fds (fun other ne => Function.update_of_ne ne ..) ?_ ⟨ok, ?_⟩ ?_ ?_ written
  · refine inv.table.store added fileNo same_fd ?_ ?_ (held.check.work taken)
    · rw [same_state]
      exact held.used
    · intro other ne
      exact congrArg Progress.stage
        (Function.update_of_ne (fun same => ne (congrArg Sigma.fst same)) ..)
  · intro _ file file_cur
    obtain rfl := Transfer.fino_inj (cur.symm.trans file_cur)
    exact .inr ⟨added, fd.trans (fds _).symm⟩
  · exact stage_block.imp_right (And.imp_right fun counted =>
      (Function.update_self ..).trans counted)
  · rintro (waits | waits)
    · rw [added] at waits
      cases waits
    · rw [added] at waits
      cases waits

/-- What is written does not change when a block moves on without being written. -/
theorem Written.keep {writes : List (Write transfer.Block)} {progress : transfer.Block → Progress}
    (written : Written transfer writes progress) {later : Progress}
    (same : later ∈ [Progress.written, .sized, .counted] ↔
      progress block ∈ [Progress.written, .sized, .counted]) :
    Written transfer writes (Function.update progress block later) := by
  refine { written with mem := fun other => (written.mem other).trans ?_ }
  by_cases own : other = block
  · rw [own, Function.update_self, same]
  · rw [Function.update_of_ne own]

/-- A thread writes its block. -/
theorem Written.write {writes : List (Write transfer.Block)}
    {progress : transfer.Block → Progress} (written : Written transfer writes progress)
    (hashed : progress block = .hashed) {opened : Option Opened}
    (own : opened = some (transfer.opened block.1)) :
    Written transfer (writes ++ [Write.mk block opened])
      (Function.update progress block .written) := by
  have fresh : block ∉ writes.map Write.block := by
    rw [written.mem, hashed]
    decide
  constructor
  · rw [List.map_append]
    refine List.nodup_append.mpr ⟨written.nodup, List.nodup_singleton _, ?_⟩
    rintro other mem _ mem' rfl
    obtain rfl := List.mem_singleton.mp mem'
    exact fresh mem
  · intro other
    rw [List.map_append, List.mem_append, written.mem]
    by_cases same : other = block
    · subst same
      rw [Function.update_self]
      exact iff_of_true (.inr List.mem_cons_self) List.mem_cons_self
    · rw [Function.update_of_ne same, or_iff_left]
      exact fun mem => same (List.mem_singleton.mp mem)
  · intro write mem
    rcases List.mem_append.mp mem with earlier | this
    · exact written.opened write earlier
    · obtain rfl := List.mem_singleton.mp this
      exact own

omit [DecidableEq File] in
/-- `file_wait` returns the slot of the file. -/
theorem Inv.find (inv : Inv state phase)
    (own : (state.workers thread).stage.block = some block)
    (received : state.progress block = .received) {slot : Nat} {testFs : FileStat}
    {fileStat : Nat → FileStat} (added : phase block.1 = .added slot)
    (fd : testFs.fd = (state.fileStat slot).fd)
    (fds : ∀ slot, (fileStat slot).fd = (state.fileStat slot).fd)
    (table : Table transfer fileStat state.opened state.progress phase) :
    Inv ({ state with fileStat := fileStat }.found thread block slot testFs) phase := by
  refine inv.step own fds (fun _ _ => rfl) table ⟨⟨received, rfl⟩, ?_⟩ (.inl rfl) ?_ inv.written
  · intro _ file cur
    obtain rfl := Transfer.fino_inj cur
    exact .inr ⟨added, fd.trans (fds slot).symm⟩
  · intro _
    rw [received]
    rfl

/-- A thread takes its next step. -/
theorem Inv.work (inv : Inv state phase) {after : State transfer Thread}
    (taken : state.work thread = some after) : Inv after phase := by
  have ok := (inv.blocks.threads thread).stage
  rw [State.work] at taken
  cases at_stage : (state.workers thread).stage with
  | idle =>
      simp only [at_stage] at taken
      cases taken
  | wait block index =>
      have own : (state.workers thread).stage.block = some block := by rw [at_stage]; rfl
      rw [at_stage] at ok
      simp only [at_stage] at taken
      split at taken
      · obtain rfl := Option.some.inj taken
        split
        · exact inv.retry own ok _ _
        · rename_i fileNo
          rw [ne_eq, not_not] at fileNo
          have added := inv.table.phase_of_fileNo fileNo
          split
          · refine inv.step own (fun _ => rfl) (fun _ _ => rfl) inv.table
              ⟨⟨ok, added, rfl⟩, absurd trivial⟩ (.inl rfl) (fun _ => ?_) inv.written
            rw [ok]
            rfl
          · split
            · exact inv.find own ok added rfl (fun _ => rfl) inv.table
            · exact inv.retry own ok _ _
      · obtain rfl := Option.some.inj taken
        exact inv.retry own ok _ _
  | compare block index =>
      have own : (state.workers thread).stage.block = some block := by rw [at_stage]; rfl
      rw [at_stage] at ok
      obtain ⟨received, added, fd⟩ := ok
      simp only [at_stage] at taken
      split at taken
      · obtain rfl := Option.some.inj taken
        have held := inv.table.held _ _ added
        refine inv.find own received added fd (fun slot => ?_) ?_
        · by_cases same : slot = probe (transfer.fino block.1) index
          · rw [same, Function.update_self]
          · rw [Function.update_of_ne same]
        · exact inv.table.store added rfl rfl (by decide : fsComplete ||| fsIo ≠ 0)
            (fun _ _ => rfl) (held.check.attach _)
      · obtain rfl := Option.some.inj taken
        exact inv.retry own received _ _
  | hash block =>
      have own : (state.workers thread).stage.block = some block := by rw [at_stage]; rfl
      have not_waiting : ¬(state.workers thread).stage.Waiting := by rw [at_stage]; exact id
      rw [at_stage] at ok
      obtain ⟨received, cur⟩ := ok
      simp only [at_stage] at taken
      obtain rfl := Option.some.inj taken
      refine inv.store own not_waiting cur 0 rfl rfl rfl ?_
        ⟨Function.update_self .., cur⟩ (.inl rfl) (inv.written.keep (by simp [received]))
      obtain ⟨file, index⟩ := block
      rw [check_update]
      exact FileChecksum.State.work_arrived (congrArg Progress.stage received) _
  | write block =>
      have own : (state.workers thread).stage.block = some block := by rw [at_stage]; rfl
      have not_waiting : ¬(state.workers thread).stage.Waiting := by rw [at_stage]; exact id
      rw [at_stage] at ok
      obtain ⟨hashed, cur⟩ := ok
      simp only [at_stage] at taken
      obtain rfl := Option.some.inj taken
      obtain ⟨added, fd⟩ := inv.found own not_waiting cur
      have others : ∀ other ≠ block,
          Function.update state.progress block .written other = state.progress other :=
        fun other ne => Function.update_of_ne ne ..
      have table : Table transfer state.fileStat state.opened
          (Function.update state.progress block .written) phase := by
        refine inv.table.unseen fun other => ?_
        by_cases same : other = block
        · rw [same, Function.update_self, hashed]
          rfl
        · rw [others other same]
      have ok : WorkerOk transfer state.fileStat (Function.update state.progress block .written)
          phase { state.workers thread with stage := .size block } := by
        refine ⟨⟨Function.update_self .., cur⟩, fun _ file file_cur => ?_⟩
        obtain rfl := Transfer.fino_inj (cur.symm.trans file_cur)
        exact .inr ⟨added, fd⟩
      refine inv.step own (fun _ => rfl) others table ok (.inl rfl) ?_
        (inv.written.write hashed ?_)
      · rintro (waits | waits)
        · rw [added] at waits
          cases waits
        · rw [added] at waits
          cases waits
      · rw [fd]
        exact (inv.table.held _ _ added).opened
  | size block =>
      have own : (state.workers thread).stage.block = some block := by rw [at_stage]; rfl
      have not_waiting : ¬(state.workers thread).stage.Waiting := by rw [at_stage]; exact id
      rw [at_stage] at ok
      obtain ⟨written, cur⟩ := ok
      simp only [at_stage] at taken
      obtain rfl := Option.some.inj taken
      refine inv.store own not_waiting cur
        (BlockWrites.rxSize
          (BitVec.ofNat 32 (transfer.content block.1 block.2).length)).toNat rfl rfl rfl ?_
        ⟨Function.update_self .., cur⟩ (.inl rfl) (inv.written.keep (by simp [written]))
      obtain ⟨file, index⟩ := block
      rw [check_update]
      exact FileChecksum.State.work_hashed (congrArg Progress.stage written) _
  | count block =>
      have own : (state.workers thread).stage.block = some block := by rw [at_stage]; rfl
      have not_waiting : ¬(state.workers thread).stage.Waiting := by rw [at_stage]; exact id
      rw [at_stage] at ok
      obtain ⟨sized, cur⟩ := ok
      simp only [at_stage] at taken
      obtain rfl := Option.some.inj taken
      refine inv.store own not_waiting cur 0 rfl rfl rfl ?_ trivial (.inr ⟨rfl, rfl⟩)
        (inv.written.keep (by simp [sized]))
      obtain ⟨file, index⟩ := block
      rw [check_update]
      exact FileChecksum.State.work_sized (congrArg Progress.stage sized) _

/-- A thread receives a block. -/
theorem Inv.receive (inv : Inv state phase) {after : State transfer Thread}
    (taken : state.receive thread block = some after) : Inv after phase := by
  rw [State.receive] at taken
  split at taken
  · rename_i idle sent
    obtain rfl := Option.some.inj taken
    have others : ∀ other ≠ block,
        Function.update state.progress block .received other = state.progress other :=
      fun other ne => Function.update_of_ne ne ..
    have same_stage : ∀ other,
        (Function.update state.progress block .received other).stage =
          (state.progress other).stage := by
      intro other
      by_cases same : other = block
      · rw [same, Function.update_self, sent]
        rfl
      · rw [others other same]
    have ok : WorkerOk transfer state.fileStat (Function.update state.progress block .received)
        phase { state.workers thread with
          stage := if (state.workers thread).fileCur = transfer.fino block.1 then .hash block
            else .wait block 0 } := by
      have cache := (inv.blocks.threads thread).cache (by rw [idle]; exact id)
      by_cases cur : (state.workers thread).fileCur = transfer.fino block.1
      · rw [if_pos cur]
        exact ⟨⟨Function.update_self .., cur⟩, fun _ => cache⟩
      · rw [if_neg cur]
        exact ⟨Function.update_self (f := state.progress) .., absurd trivial⟩
    constructor
    · exact inv.books
    · exact inv.table.unseen same_stage
    · refine inv.blocks.receive idle sent others (Function.update_self ..) ok ?_
      change (ite _ _ _ : Stage transfer.Block).block = some block
      split <;> rfl
    · exact inv.written.keep (by simp [sent])
    · exact inv.closed
    · have main := inv.main
      change MainOk _ _ _ _ state.main
      cases at_main : state.main with
      | idle => trivial
      | closing fino slot =>
          rw [at_main] at main
          obtain ⟨file, rest, rfl, at_list, added, counted⟩ := main
          refine ⟨file, rest, rfl, at_list, added, fun index => ?_⟩
          have ne : (⟨file, index⟩ : transfer.Block) ≠ block := by
            rintro rfl
            rw [counted index] at sent
            cases sent
          exact (others _ ne).trans (counted index)
  · cases taken

/-! ## The machine -/

/-- The invariant is kept. -/
theorem Inv.next (inv : Inv state phase) {after : State transfer Thread}
    {label : Label transfer Thread} (taken : next state label = some after) :
    ∃ phase', Inv after phase' := by
  cases label with
  | spec file =>
      obtain ⟨⟨idle, fresh⟩, stored⟩ := Option.ite_none_right_eq_some.mp taken
      obtain rfl := Option.some.inj stored
      exact ⟨_, inv.spec idle fresh⟩
  | completion file =>
      obtain ⟨⟨idle, fresh⟩, stored⟩ := Option.ite_none_right_eq_some.mp taken
      obtain rfl := Option.some.inj stored
      exact ⟨_, inv.completion idle fresh⟩
  | add fd =>
      obtain ⟨idle, added⟩ := Option.ite_none_right_eq_some.mp taken
      exact inv.add idle added
  | check =>
      obtain ⟨idle, checked⟩ := Option.ite_none_right_eq_some.mp taken
      exact ⟨_, inv.check checked⟩
  | close =>
      rw [ReceiveFiles.next] at taken
      split at taken
      · cases taken
      · rename_i fino slot at_main
        exact inv.close at_main taken
  | receive thread block => exact ⟨_, inv.receive taken⟩
  | work thread => exact ⟨_, inv.work taken⟩
  | spurious thread =>
      rw [ReceiveFiles.next] at taken
      split at taken
      · rename_i block index at_stage
        obtain rfl := Option.some.inj taken
        have own : (state.workers thread).stage.block = some block := by rw [at_stage]; rfl
        have ok := (inv.blocks.threads thread).stage
        rw [at_stage] at ok
        exact ⟨_, inv.retry own ok.1 _ _⟩
      · cases taken

omit [DecidableEq File] [DecidableEq Thread] in
theorem inv_init (transfer : Transfer File) :
    Inv (State.init transfer Thread) fun _ => .unannounced := by
  constructor
  · constructor
    · exact fun file => iff_of_true rfl rfl
    · exact List.nodup_nil
    · intro fino
      exact iff_of_false List.not_mem_nil (by simp)
    · exact List.nodup_nil
    · intro fino
      exact iff_of_false List.not_mem_nil (by simp [State.init])
    · exact fun file _ => rfl
    · intro file closed
      cases closed
  · constructor
    · intro file slot added
      cases added
    · exact fun slot used => absurd rfl used
    · exact fun slot _ => rfl
  · constructor
    · exact fun block _ => rfl
    · intro block closed
      cases closed
    · refine fun thread => ⟨trivial, fun _ file cur => ?_⟩
      exact absurd cur.symm (transfer.fino_ne file)
    · intro thread other block own
      cases own
    · exact fun block => .inl rfl
  · refine ⟨List.nodup_nil, fun block => ?_, fun write mem => absurd mem List.not_mem_nil⟩
    exact iff_of_false List.not_mem_nil (by simp [State.init])
  · refine ⟨List.nodup_nil, fun file => ?_, fun record mem => absurd mem List.not_mem_nil⟩
    exact iff_of_false Phase.noConfusion List.not_mem_nil
  · trivial

theorem inv_reached (reached : (machine transfer Thread).Reached state) :
    ∃ phase, Inv state phase := by
  refine reached.invariant (fun state => ∃ phase, Inv state phase) ?_ ?_
  · rintro _ rfl
    exact ⟨_, inv_init transfer⟩
  · rintro before label after ⟨phase, inv⟩ _ taken
    exact inv.next taken

end Step

/-! ## When everything has arrived -/

/-- All messages and all blocks have arrived, and the threads are done with them. -/
structure Consumed (state : State transfer Thread) : Prop where
  specs : ∀ file, state.specs file = true
  completions : ∀ file, state.completions file = true
  blocks : ∀ block, state.progress block ≠ .sent
  threads : ∀ thread, (state.workers thread).stage = .idle

/-- `add_file` and `close_file` change nothing. -/
structure Quiet (state : State transfer Thread) : Prop where
  main : state.main = .idle
  add : ∀ fd, state.addFile fd = none
  check : state.checkFile = none

/-- A call of `open` returns a descriptor, and `file_addfile` finds a slot for the next file. -/
structure Succeeds (state : State transfer Thread) : Prop where
  opened : ∃ fd, 1 ≤ fd ∧ state.opened fd = none
  slot : ∀ fino, state.filesAdd.head? = some fino →
    ∃ slot ∈ probes fino, (state.fileStat slot).state = 0

/-- Files are closed once, when they are complete, and all of them in the end. -/
structure ClosesComplete (state : State transfer Thread) : Prop where
  complete : ∀ record ∈ state.closed, ∃ file, Complete transfer file record ∧
    ∀ index, ∃ write ∈ state.writes, write.block = ⟨file, index⟩
  once : (state.closed.map fun record => record.info.fino).Nodup
  writesOnce : (state.writes.map Write.block).Nodup
  writes : ∀ write ∈ state.writes, write.opened = some (transfer.opened write.block.1)
  all : Consumed state → Quiet state → Succeeds state →
    ∀ file, ∃ record ∈ state.closed, Complete transfer file record

section Close

variable {state : State transfer Thread} {phase : File → Phase} {file : File}

/-- The record of a closed file. -/
theorem AllClosed.record {closed : List Closed} (ok : AllClosed transfer closed phase)
    (at_phase : phase file = .closed) : ∃ record ∈ closed, Complete transfer file record := by
  obtain ⟨record, mem, fino⟩ := List.mem_map.mp ((ok.mem file).mp at_phase)
  obtain ⟨other, complete⟩ := ok.complete record mem
  have other_fino : record.info.fino = transfer.fino other := by
    rw [complete.info]
    rfl
  obtain rfl := Transfer.fino_inj (other_fino.symm.trans fino)
  exact ⟨record, mem, complete⟩

/-- A file that waits in `files_add` can be opened. -/
theorem Inv.not_queued (inv : Inv state phase) (quiet : Quiet state) (succeeds : Succeeds state) :
    phase file ≠ .queued := by
  intro queued
  have waits := (inv.books.mem_adding _).mpr ⟨file, rfl, queued⟩
  cases at_list : state.filesAdd with
  | nil =>
      rw [at_list] at waits
      exact List.not_mem_nil waits
  | cons fino rest =>
      obtain ⟨first, rfl, first_queued⟩ :=
        (inv.books.mem_adding fino).mp (at_list ▸ List.mem_cons_self)
      obtain ⟨fd, positive, unused⟩ := succeeds.opened
      obtain ⟨slot, tried, free⟩ := succeeds.slot _ (at_list ▸ List.head?_cons)
      have announced : state.specs first = true := by
        by_contra unannounced
        rw [Bool.not_eq_true, inv.books.announced, first_queued] at unannounced
        cases unannounced
      have hash := inv.books.hash first (by simp [first_queued])
      rw [announced, Bool.true_or, if_pos rfl] at hash
      have found : ((probes (transfer.fino first)).find?
          fun slot => (state.fileStat slot).state = 0).isSome := by
        rw [List.find?_isSome]
        exact ⟨slot, tried, decide_eq_true free⟩
      obtain ⟨place, at_place⟩ := Option.isSome_iff_exists.mp found
      have blocked := quiet.add fd
      rw [State.addFile, at_list] at blocked
      simp only [positive, unused, and_self, if_true, hash, Option.bind_some] at blocked
      rw [Option.map_eq_none_iff, fileAddfile, Option.map_eq_none_iff] at blocked
      exact absurd (at_place.symm.trans blocked) (by simp)

/-- A complete file at the head of `files_close` can be closed, so none is left. -/
theorem Inv.all_closed (inv : Inv state phase) (consumed : Consumed state) (quiet : Quiet state)
    (succeeds : Succeeds state) : phase file = .closed := by
  have added_or_closed : ∀ other, phase other = .closed ∨ ∃ slot, phase other = .added slot := by
    intro other
    cases at_phase : phase other with
    | unannounced =>
        have unannounced := (inv.books.announced other).mpr at_phase
        rw [consumed.specs other] at unannounced
        cases unannounced
    | queued => exact absurd at_phase (inv.not_queued quiet succeeds)
    | added slot => exact .inr ⟨slot, rfl⟩
    | closed => exact .inl rfl
  have counted : ∀ block, state.progress block = .counted := by
    intro block
    rcases inv.blocks.busy block with sent | counted | ⟨thread, own⟩
    · exact absurd sent (consumed.blocks block)
    · exact counted
    · rw [consumed.threads thread] at own
      cases own
  by_contra open_phase
  have waits := (inv.books.mem_closing _).mpr ⟨file, rfl, consumed.completions file, open_phase⟩
  cases at_list : state.filesClose with
  | nil =>
      rw [at_list] at waits
      exact List.not_mem_nil waits
  | cons fino rest =>
      obtain ⟨first, rfl, arrived, first_open⟩ :=
        (inv.books.mem_closing fino).mp (at_list ▸ List.mem_cons_self)
      obtain ⟨slot, added⟩ := (added_or_closed first).resolve_left first_open
      have held := inv.table.held first slot added
      have hash := inv.books.hash first first_open
      rw [arrived, Bool.or_true, if_pos rfl] at hash
      obtain ⟨-, blockTotal⟩ := held.check.settled fun index =>
        congrArg Progress.stage (counted ⟨first, index⟩)
      rw [Fintype.card_fin] at blockTotal
      have blocks : (transfer.info first (state.specs first) true
          ((phase first).fd state.fileStat)).blocks = transfer.blocks first := by
        cases state.specs first <;> rfl
      have blocked := quiet.check
      rw [State.checkFile, at_list] at blocked
      simp only [inv.table.fileGetstats_eq.mpr added, hash, Option.bind_some, blocks,
        toInt_blockTotal held.check] at blocked
      rw [if_neg (by omega), if_neg] at blocked
      · cases blocked
      · have same : (transfer.check first (state.fileStat slot) state.progress).stat.blockTotal =
            (state.fileStat slot).blockTotal := rfl
        omega

/-- A closed file is complete, and each of its blocks has been written. -/
theorem Inv.written_of_closed (inv : Inv state phase) {record : Closed}
    (mem : record ∈ state.closed) : ∃ file, Complete transfer file record ∧
      ∀ index, ∃ write ∈ state.writes, write.block = ⟨file, index⟩ ∧
        write.opened = some (transfer.opened file) := by
  obtain ⟨file, complete⟩ := inv.closed.complete record mem
  have fino : record.info.fino = transfer.fino file := by
    rw [complete.info]
    rfl
  have closed : phase file = .closed :=
    (inv.closed.mem file).mpr (List.mem_map.mpr ⟨record, mem, fino⟩)
  refine ⟨file, complete, fun index => ?_⟩
  have counted := inv.blocks.late ⟨file, index⟩ closed
  have written := (inv.written.mem ⟨file, index⟩).mpr (by simp [counted])
  obtain ⟨write, listed, at_block⟩ := List.mem_map.mp written
  exact ⟨write, listed, at_block, (inv.written.opened write listed).trans (by rw [at_block])⟩

variable [DecidableEq File] [DecidableEq Thread]

/-- In every interleaving, files are closed once, when they are complete, and all of them in the
end. -/
theorem closesComplete_of_reached (reached : (machine transfer Thread).Reached state) :
    ClosesComplete state := by
  obtain ⟨phase, inv⟩ := inv_reached reached
  constructor
  · intro record mem
    obtain ⟨file, complete⟩ := inv.closed.complete record mem
    have fino : record.info.fino = transfer.fino file := by
      rw [complete.info]
      rfl
    have closed : phase file = .closed :=
      (inv.closed.mem file).mpr (List.mem_map.mpr ⟨record, mem, fino⟩)
    refine ⟨file, complete, fun index => ?_⟩
    have counted := inv.blocks.late ⟨file, index⟩ closed
    have written := (inv.written.mem ⟨file, index⟩).mpr (by simp [counted])
    exact List.mem_map.mp written
  · exact inv.closed.nodup
  · exact inv.written.nodup
  · exact inv.written.opened
  · intro consumed quiet succeeds file
    exact inv.closed.record (inv.all_closed consumed quiet succeeds)

end Close

/-! ## Two files -/

/-- A file of one block, and an empty one. -/
def twoFiles : Transfer Bool where
  root _ := "dst"
  entry file := if file then { name := "empty", fino := 2, mode := 0o600 }
    else { name := "abc", fino := 1, sz := 3, mode := 0o644, mtimSec := 5 }
  blocks file := if file then 0 else 1
  content _ _ := [97, 98, 99]
  fileHash := FileChecksum.abcHash
  fino_injective := by decide
  fino_ne := by decide
  blocks_lt := by decide

scoped instance oneBlock_neZero : NeZero 1 := ⟨by decide⟩

/-- The completion entry of the first file arrives before its spec entry, and its block before it is
opened. -/
def twoFilesRun : List (Label twoFiles Unit) :=
  [.completion false, .spec true, .add 3, .receive () ⟨false, (0 : Fin 1)⟩, .work (), .spec false,
    .add 4] ++ List.replicate 28 (.work ()) ++ [.check, .close, .completion true, .check, .close]

/-- What is reported of the two files. -/
def twoFilesClosed : List FileInformation :=
  [{ path := "dst/abc", fino := 1, sz := 3, blocks := 1, fd := 4, mode := 0o644, mtimSec := 5 },
    { path := "dst/empty", fino := 2, sz := 0, blocks := 0, fd := 3, mode := 0o600 }]

/-- Both files are closed. -/
theorem closesComplete_of_twoFilesRun : ∃ state : State twoFiles Unit,
    (machine twoFiles Unit).Reached state ∧ Consumed state ∧ Quiet state ∧ Succeeds state ∧
      ClosesComplete state ∧ state.closed.map Closed.info = twoFilesClosed := by
  have ran : ∃ state ∈ (machine twoFiles Unit).run (State.init twoFiles Unit) twoFilesRun,
      state.closed.map Closed.info = twoFilesClosed ∧ state.filesAdd = [] ∧ state.filesClose = [] ∧
        state.main = .idle ∧ (∀ file, state.specs file = true) ∧
          (∀ file, state.completions file = true) ∧
            state.progress ⟨false, (0 : Fin 1)⟩ = .counted ∧
              (state.workers ()).stage.block = none ∧ state.opened 5 = none := by
    decide +kernel
  obtain ⟨state, run, closed, filesAdd, filesClose, main, specs, completions, counted, stage,
    unused⟩ := ran
  have reached : (machine twoFiles Unit).Reached state := Machine.reached_of_run rfl twoFilesRun run
  have consumed : Consumed state := by
    refine ⟨specs, completions, ?_, ?_⟩
    · rintro ⟨file, index⟩
      cases file with
      | false =>
          obtain rfl : index = (0 : Fin 1) := Fin.eq_zero index
          rw [counted]
          decide
      | true => exact absurd index.isLt (Nat.not_lt_zero _)
    · intro thread
      cases at_stage : (state.workers thread).stage with
      | idle => rfl
      | wait _ _ | compare _ _ | hash _ | write _ | size _ | count _ =>
          rw [at_stage] at stage
          cases stage
  have quiet : Quiet state := by
    refine ⟨main, fun fd => ?_, ?_⟩
    · rw [State.addFile, filesAdd]
    · rw [State.checkFile, filesClose]
  have succeeds : Succeeds state := by
    refine ⟨⟨5, by decide, unused⟩, fun fino at_head => ?_⟩
    rw [filesAdd] at at_head
    cases at_head
  exact ⟨state, reached, consumed, quiet, succeeds, closesComplete_of_reached reached, closed⟩

end ReceiveFiles
end EScp
