import EScp.ReceiveFilesInvariant

/-!
# The blocks of the receiver

A thread that has a block of a file keeps the file from being closed, so the slot and the descriptor
that it has found for the file stay those of the file.
-/

namespace EScp
namespace ReceiveFiles

open StateWord FileTable

variable {File : Type*} {Thread : Type*} {transfer : Transfer File}

/-- The block that a thread has. -/
def Stage.block {Block : Type*} : Stage Block → Option Block
  | .idle => none
  | .wait block _ | .compare block _ | .hash block | .write block | .size block | .count block =>
      some block

/-- The thread is in `file_wait`. -/
def Stage.Waiting {Block : Type*} : Stage Block → Prop
  | .wait _ _ | .compare _ _ => True
  | _ => False

/-- How far the block of a thread is, and where its file is. -/
def Stage.Ok (transfer : Transfer File) (fileStat : Nat → FileStat)
    (progress : transfer.Block → Progress) (phase : File → Phase) (fileCur : Nat) (fs : FileStat) :
    Stage transfer.Block → Prop
  | .idle => True
  | .wait block _ => progress block = .received
  | .compare block index => progress block = .received ∧
      phase block.1 = .added (probe (transfer.fino block.1) index) ∧
        fs.fd = (fileStat (probe (transfer.fino block.1) index)).fd
  | .hash block => progress block = .received ∧ fileCur = transfer.fino block.1
  | .write block => progress block = .hashed ∧ fileCur = transfer.fino block.1
  | .size block => progress block = .written ∧ fileCur = transfer.fino block.1
  | .count block => progress block = .sized ∧ fileCur = transfer.fino block.1

/-- What holds of a thread. -/
structure WorkerOk (transfer : Transfer File) (fileStat : Nat → FileStat)
    (progress : transfer.Block → Progress) (phase : File → Phase)
    (worker : RxWorker transfer.Block) : Prop where
  stage : worker.stage.Ok transfer fileStat progress phase worker.fileCur worker.fs
  cache : ¬worker.stage.Waiting → ∀ file, worker.fileCur = transfer.fino file →
    phase file = .closed ∨
      phase file = .added worker.fsPtr ∧ worker.fs.fd = (fileStat worker.fsPtr).fd

/-- The blocks and the threads. -/
structure Blocks (transfer : Transfer File) (fileStat : Nat → FileStat)
    (progress : transfer.Block → Progress) (phase : File → Phase)
    (workers : Thread → RxWorker transfer.Block) : Prop where
  early : ∀ block : transfer.Block, phase block.1 = .unannounced ∨ phase block.1 = .queued →
    (progress block).stage = .arrived
  late : ∀ block : transfer.Block, phase block.1 = .closed → progress block = .counted
  threads : ∀ thread, WorkerOk transfer fileStat progress phase (workers thread)
  apart : ∀ thread other block, (workers thread).stage.block = some block →
    (workers other).stage.block = some block → thread = other
  busy : ∀ block, progress block = .sent ∨ progress block = .counted ∨
    ∃ thread, (workers thread).stage.block = some block

/-- What is written. -/
structure Written (transfer : Transfer File) (writes : List (Write transfer.Block))
    (progress : transfer.Block → Progress) : Prop where
  nodup : (writes.map Write.block).Nodup
  mem : ∀ block, block ∈ writes.map Write.block ↔
    progress block ∈ [Progress.written, .sized, .counted]
  opened : ∀ write ∈ writes, write.opened = some (transfer.opened write.block.1)

/-- A file is reported as its spec entry says, with the number of blocks that its completion entry
says, and its entry has all blocks and the checksum. -/
structure Complete (transfer : Transfer File) (file : File) (record : Closed) : Prop where
  info : record.info = transfer.info file true true record.info.fd
  opened : record.opened = some (transfer.opened file)
  blockTotal : record.stat.blockTotal = transfer.blocks file
  crc : record.stat.crc = FileChecksum.checksum transfer.fileHash (transfer.content file)

/-- What is closed. -/
structure AllClosed (transfer : Transfer File) (closed : List Closed) (phase : File → Phase) :
    Prop where
  nodup : (closed.map fun record => record.info.fino).Nodup
  mem : ∀ file, phase file = .closed ↔
    transfer.fino file ∈ closed.map fun record => record.info.fino
  complete : ∀ record ∈ closed, ∃ file, Complete transfer file record

/-- The file that the main loop is about to close. -/
def MainOk (transfer : Transfer File) (progress : transfer.Block → Progress)
    (phase : File → Phase) (filesClose : List Nat) : Main → Prop
  | .idle => True
  | .closing fino slot => ∃ file rest, fino = transfer.fino file ∧ filesClose = fino :: rest ∧
      phase file = .added slot ∧ ∀ index, progress ⟨file, index⟩ = .counted

/-- The invariant. -/
structure Inv (state : State transfer Thread) (phase : File → Phase) : Prop where
  books : Books transfer state.specs state.completions state.filesHash state.filesAdd
    state.filesClose state.fileStat phase
  table : Table transfer state.fileStat state.opened state.progress phase
  blocks : Blocks transfer state.fileStat state.progress phase state.workers
  written : Written transfer state.writes state.progress
  closed : AllClosed transfer state.closed phase
  main : MainOk transfer state.progress phase state.filesClose state.main

/-! ## The main loop -/

section Main

variable {fileStat later : Nat → FileStat} {progress : transfer.Block → Progress}
  {phase after : File → Phase} {workers : Thread → RxWorker transfer.Block}

/-- Files move on, and those whose blocks are on the way keep their slots. -/
theorem Blocks.advance (blocks : Blocks transfer fileStat progress phase workers)
    (early : ∀ block : transfer.Block, after block.1 = .unannounced ∨ after block.1 = .queued →
      (progress block).stage = .arrived)
    (late : ∀ block : transfer.Block, after block.1 = .closed → progress block = .counted)
    (closed : ∀ file, phase file = .closed → after file = .closed)
    (added : ∀ file slot, phase file = .added slot →
      after file = .closed ∨ after file = .added slot ∧ (later slot).fd = (fileStat slot).fd) :
    Blocks transfer later progress after workers := by
  refine ⟨early, late, fun thread => ?_, blocks.apart, blocks.busy⟩
  obtain ⟨stage, cache⟩ := blocks.threads thread
  constructor
  · cases at_stage : (workers thread).stage with
    | compare block index =>
        rw [at_stage] at stage
        obtain ⟨received, at_slot, fd⟩ := stage
        rcases added block.1 _ at_slot with gone | ⟨kept, same⟩
        · rw [late block gone] at received
          cases received
        · exact ⟨received, kept, fd.trans same.symm⟩
    | idle | wait | hash | write | size | count =>
        rw [at_stage] at stage
        exact stage
  · intro not_waiting file cur
    rcases cache not_waiting file cur with gone | ⟨at_slot, fd⟩
    · exact .inl (closed file gone)
    · rcases added file _ at_slot with gone | ⟨kept, same⟩
      · exact .inl gone
      · exact .inr ⟨kept, fd.trans same.symm⟩

/-- Only files that have a slot matter to the table. -/
theorem Table.rephase {opened : Int → Option Opened}
    (table : Table transfer fileStat opened progress phase)
    (same : ∀ file slot, after file = .added slot ↔ phase file = .added slot) :
    Table transfer fileStat opened progress after := by
  constructor
  · exact fun file slot added => table.held file slot ((same file slot).mp added)
  · intro slot used
    obtain ⟨file, added⟩ := table.slots slot used
    exact ⟨file, (same file slot).mpr added⟩
  · exact table.free

end Main

section Main

variable {state : State transfer Thread} {file : File}

/-- The spec entry completes what is known of a file. -/
theorem fileSpec_eq (state : State transfer Thread) {completion : Bool}
    (hash : (state.filesHash (transfer.fino file)).getD {} =
      transfer.info file false completion 0) :
    state.fileSpec (transfer.root file) (transfer.entry file) =
      { state.insertHash (transfer.fino file) (transfer.info file true completion 0) with
        filesAdd := state.filesAdd ++ [transfer.fino file] } := by
  have hash_entry : (state.filesHash (transfer.entry file).fino).getD {} =
      transfer.info file false completion 0 := hash
  rw [State.fileSpec, hash_entry]
  cases completion <;> rfl

/-- The completion entry tells the number of blocks. -/
theorem fileCompletion_eq (state : State transfer Thread) {spec completion : Bool} {fd : Int}
    (hash : (state.filesHash (transfer.fino file)).getD {} =
      transfer.info file spec completion fd) :
    state.fileCompletion (transfer.completion file) =
      { state.insertHash (transfer.fino file) (transfer.info file spec true fd) with
        filesClose := state.filesClose ++ [transfer.fino file] } := by
  have hash_entry : (state.filesHash (transfer.completion file).fino).getD {} =
      transfer.info file spec completion fd := hash
  rw [State.fileCompletion, hash_entry]
  cases spec <;> rfl

variable [DecidableEq File] {phase : File → Phase}

/-- A file is announced. -/
theorem Inv.spec (inv : Inv state phase) (idle : state.main = .idle)
    (fresh : state.specs file = false) :
    Inv ({ state with specs := Function.update state.specs file true }.fileSpec
      (transfer.root file) (transfer.entry file)) (Function.update phase file .queued) := by
  have unannounced := (inv.books.announced file).mp fresh
  have open_phase : phase file ≠ .closed := by simp [unannounced]
  have hash := inv.books.getD_hash open_phase
  rw [fresh, unannounced] at hash
  have early : ∀ index, (state.progress ⟨file, index⟩).stage = .arrived :=
    fun index => inv.blocks.early ⟨file, index⟩ (.inl unannounced)
  have others := update_phase_iff unannounced .queued
  rw [fileSpec_eq { state with specs := Function.update state.specs file true } hash]
  constructor
  · exact inv.books.spec fresh
  · exact inv.table.rephase fun other slot => others other (.added slot) (by simp) (by simp)
  · refine inv.blocks.advance ?_ ?_ ?_ ?_
    · rintro ⟨other, index⟩ waits
      by_cases same : other = file
      · subst same
        exact early index
      · rw [Function.update_of_ne same] at waits
        exact inv.blocks.early ⟨other, index⟩ waits
    · exact fun block closed =>
        inv.blocks.late block ((others block.1 .closed (by simp) (by simp)).mp closed)
    · exact fun other closed => (others other .closed (by simp) (by simp)).mpr closed
    · exact fun other slot added =>
        .inr ⟨(others other (.added slot) (by simp) (by simp)).mpr added, rfl⟩
  · exact inv.written
  · refine { inv.closed with mem := fun other => ?_ }
    rw [others other .closed (by simp) (by simp)]
    exact inv.closed.mem other
  · change MainOk _ _ _ _ state.main
    rw [idle]
    trivial

/-- The completion entry of a file arrives. -/
theorem Inv.completion (inv : Inv state phase) (idle : state.main = .idle)
    (fresh : state.completions file = false) :
    Inv ({ state with completions := Function.update state.completions file true }.fileCompletion
      (transfer.completion file)) phase := by
  have open_phase : phase file ≠ .closed := by
    intro closed
    rw [inv.books.done file closed] at fresh
    cases fresh
  have hash := inv.books.getD_hash open_phase
  rw [fileCompletion_eq { state with
    completions := Function.update state.completions file true } hash]
  constructor
  · exact inv.books.completion fresh
  · exact inv.table
  · exact inv.blocks
  · exact inv.written
  · exact inv.closed
  · change MainOk _ _ _ _ state.main
    rw [idle]
    trivial

/-- A file is opened and put in the table. -/
theorem Inv.add (inv : Inv state phase) (idle : state.main = .idle) {fd : Int}
    {after : State transfer Thread} (taken : state.addFile fd = some after) :
    ∃ phase', Inv after phase' := by
  rw [State.addFile] at taken
  split at taken
  · cases taken
  · rename_i fino rest at_list
    obtain ⟨⟨-, unused⟩, opened⟩ := Option.ite_none_right_eq_some.mp taken
    obtain ⟨fi, hash, stored⟩ := Option.bind_eq_some_iff.mp opened
    obtain ⟨fileStat, slot_taken, rfl⟩ := Option.map_eq_some_iff.mp stored
    obtain ⟨file, rfl, queued⟩ := (inv.books.mem_adding fino).mp (at_list ▸ List.mem_cons_self)
    have announced : state.specs file = true := by
      by_contra unannounced
      rw [Bool.not_eq_true, inv.books.announced, queued] at unannounced
      cases unannounced
    have fi_eq : fi = transfer.info file true (state.completions file) 0 := by
      have known := inv.books.hash file (by simp [queued])
      rw [hash, announced, Bool.true_or, if_pos rfl, queued] at known
      exact Option.some.inj known
    subst fi_eq
    obtain ⟨slot, rfl, table⟩ := inv.table.add queued unused
      (fun index => inv.blocks.early ⟨file, index⟩ (.inr queued)) slot_taken
    have none_there : ∀ other, phase other ≠ .added slot := by
      intro other added
      have held := table.held file slot (Function.update_self ..)
      have ne : other ≠ file := by
        rintro rfl
        rw [queued] at added
        cases added
      have other_held := table.held other slot ((Function.update_of_ne ne ..).trans added)
      exact ne (Transfer.fino_inj (other_held.fileNo.symm.trans held.fileNo))
    refine ⟨Function.update phase file (.added slot), ?_⟩
    constructor
    · have books := inv.books
      rw [at_list] at books
      exact books.add (newStat (transfer.fino file) fd slot) none_there
    · exact table
    · refine inv.blocks.advance ?_ ?_ ?_ ?_
      · rintro ⟨other, index⟩ waits
        by_cases same : other = file
        · subst same
          simp at waits
        · rw [Function.update_of_ne same] at waits
          exact inv.blocks.early ⟨other, index⟩ waits
      · rintro ⟨other, index⟩ closed
        by_cases same : other = file
        · subst same
          simp at closed
        · rw [Function.update_of_ne same] at closed
          exact inv.blocks.late ⟨other, index⟩ closed
      · intro other closed
        have ne : other ≠ file := by
          rintro rfl
          rw [queued] at closed
          cases closed
        exact (Function.update_of_ne ne ..).trans closed
      · intro other place added
        have ne : other ≠ file := by
          rintro rfl
          rw [queued] at added
          cases added
        have place_ne : place ≠ slot := by
          rintro rfl
          exact none_there other added
        exact .inr ⟨(Function.update_of_ne ne ..).trans added,
          congrArg FileStat.fd (Function.update_of_ne place_ne ..)⟩
    · exact inv.written
    · refine { inv.closed with mem := fun other => Iff.trans ?_ (inv.closed.mem other) }
      by_cases same : other = file
      · rw [same, Function.update_self, queued]
        simp
      · rw [Function.update_of_ne same]
    · change MainOk _ _ _ _ state.main
      rw [idle]
      trivial

omit [DecidableEq File] in
/-- An entry that counts as many blocks as the file has counts all of them. -/
theorem all_counted {stat : FileStat} {progress : transfer.Block → Progress}
    (check : FileChecksum.Inv transfer.fileHash (transfer.content file)
      (transfer.check file stat progress))
    (enough : transfer.blocks file ≤ stat.blockTotal) (index : Fin (transfer.blocks file)) :
    progress ⟨file, index⟩ = .counted := by
  have full : (transfer.check file stat progress).past [.counted] = Finset.univ := by
    refine Finset.eq_univ_of_card _ (le_antisymm (Finset.card_le_univ _) ?_)
    rw [← check.blockTotal, Fintype.card_fin]
    exact enough
  have mem : index ∈ (transfer.check file stat progress).past [.counted] := by
    rw [full]
    exact Finset.mem_univ index
  have stage := List.mem_singleton.mp (FileChecksum.mem_past.mp mem)
  change (progress ⟨file, index⟩).stage = .counted at stage
  cases at_progress : progress ⟨file, index⟩ with
  | counted => rfl
  | sent | received | hashed | written | sized =>
      rw [at_progress] at stage
      cases stage

omit [DecidableEq File] in
/-- `block_total` reads as the number that it is. -/
theorem toInt_blockTotal {stat : FileStat} {progress : transfer.Block → Progress}
    (check : FileChecksum.Inv transfer.fileHash (transfer.content file)
      (transfer.check file stat progress)) :
    (BitVec.ofNat 64 (stat.rustValue .blockTotal)).toInt = stat.blockTotal := by
  have few : stat.blockTotal ≤ transfer.blocks file := by
    have card := Finset.card_le_univ ((transfer.check file stat progress).past [.counted])
    rwa [← check.blockTotal, Fintype.card_fin] at card
  have small : stat.blockTotal < 2 ^ 63 := few.trans_lt (transfer.blocks_lt file)
  have value : stat.rustValue .blockTotal = stat.blockTotal := by
    rw [FileStat.rustValue_eq stat (by decide)]
    exact Nat.mod_eq_of_lt (small.trans_le (by decide))
  rw [value, BitVec.toInt_eq_toNat_of_lt, BitVec.toNat_ofNat, Nat.mod_eq_of_lt (by omega)]
  rw [BitVec.toNat_ofNat]
  omega

omit [DecidableEq File] in
/-- The file at the head of `files_close` has been found complete. -/
theorem Inv.check (inv : Inv state phase) {after : State transfer Thread}
    (taken : state.checkFile = some after) : Inv after phase := by
  rw [State.checkFile] at taken
  split at taken
  · cases taken
  · rename_i fino rest at_list
    obtain ⟨slot, found, with_hash⟩ := Option.bind_eq_some_iff.mp taken
    obtain ⟨fi, hash, tested⟩ := Option.bind_eq_some_iff.mp with_hash
    obtain ⟨file, rfl, arrived, open_phase⟩ :=
      (inv.books.mem_closing fino).mp (at_list ▸ List.mem_cons_self)
    have added := inv.table.fileGetstats_eq.mp found
    have held := inv.table.held file slot added
    have known := inv.books.hash file open_phase
    rw [hash, arrived, Bool.or_true, if_pos rfl] at known
    have blocks_eq : fi.blocks = transfer.blocks file := by
      rw [Option.some.inj known]
      cases state.specs file <;> rfl
    split at tested
    · cases tested
    · split at tested
      · cases tested
      · rename_i enough
        obtain rfl := Option.some.inj tested
        rw [toInt_blockTotal held.check, blocks_eq, not_lt, Int.ofNat_le] at enough
        exact { inv with
          main := ⟨file, rest, rfl, at_list, added, all_counted held.check enough⟩ }

/-- The main loop closes the file. -/
theorem Inv.close (inv : Inv state phase) {fino slot : Nat}
    (at_main : state.main = .closing fino slot) {after : State transfer Thread}
    (taken : state.closeFile fino slot = some after) : ∃ phase', Inv after phase' := by
  have main := inv.main
  rw [at_main] at main
  obtain ⟨file, rest, rfl, at_list, added, counted⟩ := main
  obtain ⟨fi, hash, rfl⟩ := Option.map_eq_some_iff.mp taken
  have held := inv.table.held file slot added
  have open_phase : phase file ≠ .closed := by simp [added]
  have announced : state.specs file = true := by
    by_contra unannounced
    rw [Bool.not_eq_true, inv.books.announced, added] at unannounced
    cases unannounced
  have arrived : state.completions file = true := by
    obtain ⟨other, same, arrived, -⟩ :=
      (inv.books.mem_closing _).mp (at_list ▸ List.mem_cons_self)
    rwa [← Transfer.fino_inj same] at arrived
  have fi_eq : fi = transfer.info file true true (state.fileStat slot).fd := by
    have known := inv.books.hash file open_phase
    rw [hash, announced, arrived, Bool.true_or, if_pos rfl, added] at known
    exact Option.some.inj known
  subst fi_eq
  have alone : ∀ other ≠ file, phase other ≠ .added slot := by
    intro other ne at_slot
    exact ne (Transfer.fino_inj ((inv.table.held other slot at_slot).fileNo.symm.trans held.fileNo))
  have others := update_phase_iff added .closed
  obtain ⟨crc, blockTotal⟩ := held.check.settled fun index => by
    change (state.progress ⟨file, index⟩).stage = .counted
    rw [counted index]
    rfl
  have rust_crc : (state.fileStat slot).rustValue .crc = 0 := by
    have readLimit : (state.fileStat slot).readLimit = 0 := held.check.readLimit
    rw [FileStat.rustValue_crc, readLimit, Nat.zero_mod]
  refine ⟨Function.update phase file .closed, ?_⟩
  constructor
  · have books := inv.books
    rw [at_list] at books
    have closed := books.close FileStat.zero added alone
    change Books transfer _ _ _ _ state.filesClose.tail _ _
    rw [at_list]
    exact closed
  · exact inv.table.close added
  · refine inv.blocks.advance ?_ ?_ ?_ ?_
    · rintro block (waits | waits)
      · exact inv.blocks.early block (.inl ((others _ _ (by simp) (by simp)).mp waits))
      · exact inv.blocks.early block (.inr ((others _ _ (by simp) (by simp)).mp waits))
    · rintro ⟨other, index⟩ closed
      by_cases same : other = file
      · subst same
        exact counted index
      · rw [Function.update_of_ne same] at closed
        exact inv.blocks.late ⟨other, index⟩ closed
    · intro other closed
      by_cases same : other = file
      · rw [same, Function.update_self]
      · rwa [Function.update_of_ne same]
    · intro other place at_place
      by_cases same : other = file
      · exact .inl (same ▸ Function.update_self ..)
      · have place_ne : place ≠ slot := by
          rintro rfl
          exact alone other same at_place
        exact .inr ⟨(Function.update_of_ne same ..).trans at_place,
          congrArg FileStat.fd (Function.update_of_ne place_ne ..)⟩
  · exact inv.written
  · have fresh := (inv.closed.mem file).not.mp open_phase
    constructor
    · change ((state.closed ++ [_]).map _).Nodup
      rw [List.map_append]
      refine List.nodup_append.mpr ⟨inv.closed.nodup, List.nodup_singleton _, ?_⟩
      rintro fino mem _ mem' rfl
      have same : fino = transfer.fino file := List.mem_singleton.mp mem'
      exact fresh (same ▸ mem)
    · intro other
      change _ ↔ _ ∈ (state.closed ++ [_]).map _
      rw [List.map_append, List.mem_append, ← inv.closed.mem other]
      by_cases same : other = file
      · subst same
        exact iff_of_true (Function.update_self ..) (.inr (List.mem_singleton.mpr rfl))
      · rw [Function.update_of_ne same, or_iff_left]
        intro mem
        exact same (Transfer.fino_inj (List.mem_singleton.mp mem))
    · intro record mem
      rcases List.mem_append.mp mem with earlier | this
      · exact inv.closed.complete record earlier
      · obtain rfl := List.mem_singleton.mp this
        refine ⟨file, ?_⟩
        constructor
        · change ({ transfer.info file true true (state.fileStat slot).fd with
            crc := (state.fileStat slot).rustValue .crc } : FileInformation) = _
          rw [rust_crc]
          rfl
        · exact held.opened
        · exact blockTotal.trans (Fintype.card_fin _)
        · exact crc
  · trivial

end Main
/-! ## The threads -/

section Threads

variable {fileStat later : Nat → FileStat} {progress after : transfer.Block → Progress}
  {phase : File → Phase} {workers : Thread → RxWorker transfer.Block}
  {worker : RxWorker transfer.Block} {thread : Thread} {block : transfer.Block}

/-- A block that a thread has is neither on the way nor counted. -/
theorem WorkerOk.under_way (ok : WorkerOk transfer fileStat progress phase worker)
    (own : worker.stage.block = some block) :
    progress block ≠ .sent ∧ progress block ≠ .counted := by
  have stage := ok.stage
  cases at_stage : worker.stage with
  | idle =>
      rw [at_stage] at own
      cases own
  | wait _ _ | compare _ _ | hash _ | write _ | size _ | count _ =>
      rw [at_stage] at own stage
      obtain rfl := Option.some.inj own
      simp [Stage.Ok] at stage
      simp [stage]

/-- A thread does not notice what happens to other blocks. -/
theorem WorkerOk.keep (ok : WorkerOk transfer fileStat progress phase worker)
    (fds : ∀ slot, (later slot).fd = (fileStat slot).fd)
    (same : ∀ block, worker.stage.block = some block → after block = progress block) :
    WorkerOk transfer later after phase worker := by
  constructor
  · have stage := ok.stage
    cases at_stage : worker.stage with
    | idle => trivial
    | compare block index =>
        rw [at_stage] at stage same
        refine ⟨(same block rfl).trans stage.1, stage.2.1, ?_⟩
        rw [fds]
        exact stage.2.2
    | wait block index =>
        rw [at_stage] at stage same
        exact (same block rfl).trans stage
    | hash block | write block | size block | count block =>
        rw [at_stage] at stage same
        exact ⟨(same block rfl).trans stage.1, stage.2⟩
  · intro not_waiting file cur
    rw [fds]
    exact ok.cache not_waiting file cur

variable [DecidableEq Thread]

/-- A thread goes on with its block. -/
theorem Blocks.step (blocks : Blocks transfer fileStat progress phase workers)
    (own : (workers thread).stage.block = some block)
    (fds : ∀ slot, (later slot).fd = (fileStat slot).fd)
    (others : ∀ other ≠ block, after other = progress other)
    (ok : WorkerOk transfer later after phase worker)
    (keeps : worker.stage.block = some block ∨
      worker.stage.block = none ∧ after block = .counted)
    (early : phase block.1 = .unannounced ∨ phase block.1 = .queued →
      (after block).stage = .arrived) :
    Blocks transfer later after phase (Function.update workers thread worker) := by
  have under_way := (blocks.threads thread).under_way own
  constructor
  · intro other waits
    by_cases same : other = block
    · rw [same] at waits ⊢
      exact early waits
    · rw [others other same]
      exact blocks.early other waits
  · intro other closed
    have counted := blocks.late other closed
    by_cases same : other = block
    · exact absurd (same ▸ counted) under_way.2
    · rwa [others other same]
  · intro other
    by_cases same : other = thread
    · rwa [same, Function.update_self]
    · rw [Function.update_of_ne same]
      refine (blocks.threads other).keep fds fun third has => others third ?_
      rintro rfl
      exact same (blocks.apart other thread third has own)
  · intro first second third first_has second_has
    have has : ∀ one, (Function.update workers thread worker one).stage.block = some third →
        (workers one).stage.block = some third := by
      intro one one_has
      by_cases same : one = thread
      · rw [same, Function.update_self] at one_has
        rcases keeps with kept | ⟨gone, -⟩
        · rw [same, own, ← kept]
          exact one_has
        · rw [gone] at one_has
          cases one_has
      · rwa [Function.update_of_ne same] at one_has
    exact blocks.apart first second third (has first first_has) (has second second_has)
  · intro other
    by_cases same : other = block
    · rcases keeps with kept | ⟨-, counted⟩
      · refine .inr (.inr ⟨thread, ?_⟩)
        rw [Function.update_self, same]
        exact kept
      · exact .inr (.inl (same ▸ counted))
    · rw [others other same]
      refine (blocks.busy other).imp_right (Or.imp_right ?_)
      rintro ⟨one, has⟩
      refine ⟨one, ?_⟩
      have ne : one ≠ thread := by
        rintro rfl
        exact same (Option.some.inj (has.symm.trans own))
      rwa [Function.update_of_ne ne]

/-- An idle thread receives a block. -/
theorem Blocks.receive (blocks : Blocks transfer fileStat progress phase workers)
    (idle : (workers thread).stage = .idle) (sent : progress block = .sent)
    (others : ∀ other ≠ block, after other = progress other) (received : after block = .received)
    (ok : WorkerOk transfer fileStat after phase worker)
    (has : worker.stage.block = some block) :
    Blocks transfer fileStat after phase (Function.update workers thread worker) := by
  have free : ∀ other, (workers other).stage.block ≠ some block := fun other own =>
    ((blocks.threads other).under_way own).1 sent
  constructor
  · intro other waits
    by_cases same : other = block
    · rw [same, received]
      rfl
    · rw [others other same]
      exact blocks.early other waits
  · intro other closed
    have counted := blocks.late other closed
    by_cases same : other = block
    · rw [same, sent] at counted
      cases counted
    · rwa [others other same]
  · intro other
    by_cases same : other = thread
    · rwa [same, Function.update_self]
    · rw [Function.update_of_ne same]
      refine (blocks.threads other).keep (fun _ => rfl) fun third third_has => others third ?_
      rintro rfl
      exact free other third_has
  · have only : ∀ one third, (Function.update workers thread worker one).stage.block = some third →
        one = thread ∧ third = block ∨
          one ≠ thread ∧ third ≠ block ∧ (workers one).stage.block = some third := by
      intro one third one_has
      by_cases same : one = thread
      · rw [same, Function.update_self, has] at one_has
        exact .inl ⟨same, (Option.some.inj one_has).symm⟩
      · rw [Function.update_of_ne same] at one_has
        refine .inr ⟨same, ?_, one_has⟩
        rintro rfl
        exact free one one_has
    intro first second third first_has second_has
    rcases only first third first_has with ⟨rfl, rfl⟩ | ⟨-, ne, first_had⟩
    · rcases only second third second_has with ⟨rfl, -⟩ | ⟨-, ne, -⟩
      · rfl
      · exact absurd rfl ne
    · rcases only second third second_has with ⟨-, rfl⟩ | ⟨-, -, second_had⟩
      · exact absurd rfl ne
      · exact blocks.apart first second third first_had second_had
  · intro other
    by_cases same : other = block
    · refine .inr (.inr ⟨thread, ?_⟩)
      rw [Function.update_self, same]
      exact has
    · rw [others other same]
      refine (blocks.busy other).imp_right (Or.imp_right ?_)
      rintro ⟨one, one_has⟩
      refine ⟨one, ?_⟩
      have ne : one ≠ thread := by
        rintro rfl
        rw [idle] at one_has
        cases one_has
      rwa [Function.update_of_ne ne]

end Threads
end ReceiveFiles
end EScp
