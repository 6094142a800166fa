import EScp.ReceiveFiles

/-!
# What a thread of the receiver keeps of a file

`rx_worker` looks a file up when a frame has another file number than the one before.  It keeps the
number, a copy of the entry and a pointer to it from frame to frame, while the main loop adds files
to the table and wipes the entries of those it closes.  The frames are arbitrary, and so is what the
main loop and the other threads do in between.
-/

namespace EScp
namespace WorkerCache

open StateWord FileTable ReceiveFiles

/-! ## One thread and the table -/

/-- A `FIHDR_SHORT` frame, with the first word of the hash of its block. -/
structure Frame where
  fileNo : Nat
  offset : BitVec 64
  sz : BitVec 32
  hash : BitVec 32
deriving DecidableEq

/-- What is left to do with a frame whose file has been found. -/
inductive Job where
  | flush
  | hash
  | submit
  /-- About to update `bytes_total`. -/
  | size (sz : BitVec 32)
  /-- About to update `block_total`. -/
  | count
deriving DecidableEq

/-- Where the thread is in `rx_worker`. -/
inductive Stage where
  | idle
  /-- In `file_wait`, about to copy the entry of the slot that is tried after `index` others. -/
  | wait (frame : Frame) (index : Nat)
  /-- In `file_wait`, about to compare and swap its state. -/
  | compare (frame : Frame) (index : Nat)
  | busy (frame : Frame) (job : Job)
  | exited
deriving DecidableEq

structure RxWorker where
  fileCur : Nat
  /-- The slot that `fs_ptr` points to, if it is not null. -/
  fsPtr : Option Nat
  fs : FileStat
  stage : Stage
  /-- The slots wiped since an entry was copied to `fs`. -/
  wiped : List Nat

inductive Kind where
  | write
  | crc
  | bytesTotal
  | blockTotal
deriving DecidableEq

/-- What has been done with a frame: the descriptor in `fs`, and what `file_addfile` has put at
`fs_ptr`, if it is still there. -/
structure Access where
  kind : Kind
  frame : Frame
  fd : Int
  registered : Option (Nat × Int)
deriving DecidableEq

structure State where
  fileStat : Nat → FileStat
  /-- The number and the descriptor that `file_addfile` has been called with for a slot. -/
  registered : Nat → Option (Nat × Int)
  worker : RxWorker
  accesses : List Access

/-- What does not change during a transfer. -/
structure Config where
  doHash : Bool
  /-- The engine starts to write in `flush`. -/
  early : Bool

/-- What another thread adds to the counters of an entry. -/
structure Totals where
  bytesTotal : Nat
  blockTotal : Nat
  crc : BitVec 32

inductive Label where
  | frame (frame : Frame)
  /-- The next step of the thread; `result` is what `submit` leaves in `sz`. -/
  | work (result : BitVec 32)
  /-- A weak compare and swap fails without reason. -/
  | spurious
  /-- The main loop calls `file_addfile`. -/
  | add (fileno : Nat) (fd : Int)
  /-- The main loop closes a file of so many blocks. -/
  | close (fileno : Nat) (blocks : Int)
  /-- Another thread is the first to find the file in a slot. -/
  | claim (slot : Nat)
  /-- Another thread counts something in a slot. -/
  | count (slot : Nat) (totals : Totals)

namespace State

def setStat (state : State) (slot : Nat) (stat : FileStat) : State :=
  { state with fileStat := Function.update state.fileStat slot stat }

def goto (state : State) (stage : Stage) : State :=
  { state with worker := { state.worker with stage := stage } }

/-- An entry is copied to `fs`. -/
def copy (state : State) (testFs : FileStat) (stage : Stage) : State :=
  { state with worker := { state.worker with fs := testFs, stage := stage, wiped := [] } }

def log (state : State) (kind : Kind) (frame : Frame) : State :=
  { state with accesses := state.accesses ++
      [⟨kind, frame, state.worker.fs.fd, state.worker.fsPtr.bind state.registered⟩] }

/-- `file_wait` returns. -/
def found (state : State) (frame : Frame) (slot : Nat) : State :=
  { state with worker := { state.worker with
      fileCur := frame.fileNo, fsPtr := some slot, stage := .busy frame .flush } }

/-- A frame has been received: `file_wait` is called unless the file is the one before. -/
def receive (state : State) (frame : Frame) : State :=
  if state.worker.fileCur = frame.fileNo then state.goto (.busy frame .flush)
  else if frame.fileNo = 0 then state.goto .exited
  else state.goto (.wait frame 0)

/-- A member of the entry at `fs_ptr` is updated; the process ends if that is null. -/
def update (state : State) (kind : Kind) (frame : Frame) (change : FileStat → FileStat)
    (stage : Stage) : State :=
  match state.worker.fsPtr with
  | none => state.goto .exited
  | some slot =>
      ((state.log kind frame).setStat slot (change (state.fileStat slot))).goto stage

/-- The rest of the round in `rx_worker`. -/
def busy (config : Config) (state : State) (frame : Frame) (result : BitVec 32) : Job → State
  | .flush =>
      (if config.early then state.log .write frame else state).goto
        (.busy frame (if config.doHash then .hash else .submit))
  | .hash =>
      state.update .crc frame (fun stat => { stat with crc := stat.crc ^^^ frame.hash })
        (.busy frame .submit)
  | .submit =>
      (if config.early then state else state.log .write frame).goto
        (if 0 < result.toInt then .busy frame (.size result) else .exited)
  | .size sz =>
      state.update .bytesTotal frame
        (fun stat => { stat with bytesTotal := stat.bytesTotal + sz.toNat }) (.busy frame .count)
  | .count =>
      state.update .blockTotal frame
        (fun stat => { stat with blockTotal := stat.blockTotal + 1 }) .idle

/-- One step of the thread. -/
def work (config : Config) (state : State) (result : BitVec 32) : Option State :=
  match state.worker.stage with
  | .idle | .exited => none
  | .wait frame index =>
      if index < fileStatCountCc then
        let slot := probe frame.fileNo index
        let testFs := state.fileStat slot
        some (
          if testFs.fileNo ≠ frame.fileNo then state.copy testFs (.wait frame (index + 1))
          else if testFs.state = fsInit then state.copy testFs (.compare frame index)
          else if testFs.state &&& fsIo ≠ 0 then
            (state.copy testFs (.wait frame index)).found frame slot
          else state.copy testFs (.wait frame (index + 1)))
      else some (state.goto (.wait frame 0))
  | .compare frame index =>
      let slot := probe frame.fileNo index
      let stat := state.fileStat slot
      if stat.state = fsInit then
        some ((state.setStat slot { stat with state := fsComplete ||| fsIo }).found frame slot)
      else some (state.goto (.wait frame (index + 1)))
  | .busy frame job => some (state.busy config frame result job)

/-- `file_addfile`, which may find no slot. -/
def add (state : State) (fileno : Nat) (fd : Int) : State :=
  match (probes fileno).find? fun slot => (state.fileStat slot).state = 0 with
  | none => state
  | some slot =>
      { state.setStat slot (newStat fileno fd slot) with
        registered := Function.update state.registered slot (some (fileno, fd)) }

/-- A round of `close_file` in which the file has all its blocks. -/
def close (state : State) (fileno : Nat) (blocks : Int) : Option State :=
  match fileGetstats state.fileStat fileno with
  | none => none
  | some slot =>
      if 0 ≤ blocks ∧ blocks ≤ (state.fileStat slot).blockTotal then
        some { state.setStat slot FileStat.zero with
          registered := Function.update state.registered slot none
          worker := { state.worker with wiped := slot :: state.worker.wiped } }
      else none

/-- One step. -/
def next (config : Config) (state : State) : Label → Option State
  | .frame frame => if state.worker.stage = .idle then some (state.receive frame) else none
  | .work result => state.work config result
  | .spurious =>
      match state.worker.stage with
      | .compare frame index => some (state.goto (.wait frame (index + 1)))
      | _ => none
  | .add fileno fd => some (state.add fileno fd)
  | .close fileno blocks => state.close fileno blocks
  | .claim slot =>
      if (state.fileStat slot).state = fsInit then
        some (state.setStat slot
          { state.fileStat slot with state := fsComplete ||| fsIo })
      else none
  | .count slot totals =>
      some (state.setStat slot { state.fileStat slot with
        bytesTotal := totals.bytesTotal
        blockTotal := totals.blockTotal
        crc := totals.crc })

/-- Before the first frame; nothing has been written to `fs`. -/
def init (fs : FileStat) : State where
  fileStat _ := FileStat.zero
  registered _ := none
  worker := ⟨0, none, fs, .idle, []⟩
  accesses := []

end State

/-- A thread of `rx_worker` next to the main loop and the other threads. -/
def machine (config : Config) : Machine State Label where
  initial state := ∃ fs, state = .init fs
  next state label := state.next config label

/-! ## What a frame should reach -/

/-- The frame has the number of a file, and this is the file that is still registered where the
thread has found it, with the descriptor that the thread has copied. -/
def Access.Own (access : Access) : Prop :=
  access.frame.fileNo ≠ 0 ∧ access.registered = some (access.frame.fileNo, access.fd)

instance (access : Access) : Decidable access.Own := by
  unfold Access.Own
  infer_instance

/-- Every block is written to its own file and counted there. -/
def State.Sound (state : State) : Prop := ∀ access ∈ state.accesses, access.Own

/-- The slot of the file that the thread works on. -/
def RxWorker.slot (worker : RxWorker) : Option Nat :=
  match worker.stage with
  | .compare frame index => some (probe frame.fileNo index)
  | .busy _ _ => worker.fsPtr
  | _ => none

/-- A frame with the number that the thread has kept is one of a file that it has looked up and that
has not been closed since; no file is closed that the thread has a frame for. -/
def State.Spared (state : State) : Label → Prop
  | .frame frame => state.worker.fileCur = frame.fileNo →
      frame.fileNo ≠ 0 ∧ ∀ slot ∈ state.worker.fsPtr, slot ∉ state.worker.wiped
  | .close fileno _ => ∀ slot ∈ fileGetstats state.fileStat fileno, state.worker.slot ≠ some slot
  | _ => True

instance (state : State) (label : Label) : Decidable (state.Spared label) := by
  unfold State.Spared
  split <;> infer_instance

/-! ## The invariants -/

/-- The entries of the table are those that have been registered. -/
structure Table (state : State) : Prop where
  held : ∀ slot fileno fd, state.registered slot = some (fileno, fd) →
    (state.fileStat slot).fileNo = fileno ∧ (state.fileStat slot).fd = fd ∧
      (state.fileStat slot).state ≠ 0
  free : ∀ slot, state.registered slot = none →
    (state.fileStat slot).state = 0 ∧ (state.fileStat slot).fileNo = 0

/-- The file of a frame is registered in a slot with the descriptor in `fs`. -/
def State.Holds (state : State) (frame : Frame) (slot : Nat) : Prop :=
  frame.fileNo ≠ 0 ∧ state.registered slot = some (frame.fileNo, state.worker.fs.fd)

/-- What the thread keeps is true. -/
def State.Coherent (state : State) : Prop :=
  match state.worker.stage with
  | .idle => state.worker.fileCur ≠ 0 → ∃ slot, state.worker.fsPtr = some slot ∧
      (slot ∉ state.worker.wiped →
        state.registered slot = some (state.worker.fileCur, state.worker.fs.fd))
  | .wait frame _ => frame.fileNo ≠ 0
  | .compare frame index => state.Holds frame (probe frame.fileNo index)
  | .busy frame _ => state.worker.fileCur = frame.fileNo ∧
      ∃ slot, state.worker.fsPtr = some slot ∧ state.Holds frame slot
  | .exited => True

structure Inv (state : State) : Prop where
  table : Table state
  coherent : state.Coherent
  sound : state.Sound

section Steps

variable {state : State} {frame : Frame} {slot : Nat}

/-- A registered entry keeps its number and descriptor while its other members change. -/
theorem Table.setStat (table : Table state) {stat : FileStat}
    (fileNo : stat.fileNo = (state.fileStat slot).fileNo)
    (fd : stat.fd = (state.fileStat slot).fd)
    (word : stat.state = 0 ↔ (state.fileStat slot).state = 0) :
    Table (state.setStat slot stat) := by
  constructor
  · intro other fileno descriptor registered
    have held := table.held other fileno descriptor registered
    change (Function.update state.fileStat slot stat other).fileNo = fileno ∧
      (Function.update state.fileStat slot stat other).fd = descriptor ∧
        (Function.update state.fileStat slot stat other).state ≠ 0
    by_cases same : other = slot
    · subst same
      rw [Function.update_self]
      exact ⟨fileNo.trans held.1, fd.trans held.2.1, fun zero => held.2.2 (word.mp zero)⟩
    · rw [Function.update_of_ne same]
      exact held
  · intro other registered
    have free := table.free other registered
    change (Function.update state.fileStat slot stat other).state = 0 ∧
      (Function.update state.fileStat slot stat other).fileNo = 0
    by_cases same : other = slot
    · subst same
      rw [Function.update_self]
      exact ⟨word.mpr free.1, fileNo.trans free.2⟩
    · rw [Function.update_of_ne same]
      exact free

/-- An entry is registered where its number is found. -/
theorem Table.registered_of_fileNo (table : Table state) {fileno : Nat} (nonzero : fileno ≠ 0)
    (fileNo : (state.fileStat slot).fileNo = fileno) :
    state.registered slot = some (fileno, (state.fileStat slot).fd) := by
  cases registered : state.registered slot with
  | none => exact absurd ((table.free slot registered).2.symm.trans fileNo).symm nonzero
  | some entry =>
      obtain ⟨number, fd⟩ := entry
      obtain ⟨same, descriptor, -⟩ := table.held slot number fd registered
      rw [← fileNo, ← descriptor, same]

theorem Table.state_ne_zero (table : Table state) {entry : Nat × Int}
    (registered : state.registered slot = some entry) : (state.fileStat slot).state ≠ 0 :=
  (table.held slot entry.1 entry.2 registered).2.2

/-- The thread goes on with the frame, whose file is still there. -/
theorem Inv.busy_of_holds (inv : Inv state) (same : state.worker.fileCur = frame.fileNo)
    (points : state.worker.fsPtr = some slot) (holds : state.Holds frame slot) (job : Job) :
    Inv (state.goto (.busy frame job)) :=
  ⟨⟨inv.table.held, inv.table.free⟩, ⟨same, slot, points, holds⟩, inv.sound⟩

theorem Inv.exit (inv : Inv state) : Inv (state.goto .exited) :=
  ⟨⟨inv.table.held, inv.table.free⟩, trivial, inv.sound⟩

theorem Inv.waits (inv : Inv state) (nonzero : frame.fileNo ≠ 0) (index : Nat) :
    Inv (state.goto (.wait frame index)) :=
  ⟨⟨inv.table.held, inv.table.free⟩, nonzero, inv.sound⟩

theorem Inv.receive (inv : Inv state) (idle : state.worker.stage = .idle)
    (spared : state.Spared (.frame frame)) : Inv (state.receive frame) := by
  have coherent := inv.coherent
  rw [State.Coherent, idle] at coherent
  rw [State.receive]
  split
  · rename_i same
    obtain ⟨nonzero, current⟩ := spared same
    obtain ⟨slot, points, registered⟩ := coherent (same ▸ nonzero)
    exact inv.busy_of_holds same points ⟨nonzero, same ▸ registered (current slot points)⟩ .flush
  · split
    · exact inv.exit
    · rename_i nonzero
      exact inv.waits nonzero 0

/-- An entry is copied, and the search goes on. -/
theorem Inv.copy (inv : Inv state) (nonzero : frame.fileNo ≠ 0) (testFs : FileStat) (index : Nat) :
    Inv (state.copy testFs (.wait frame index)) :=
  ⟨⟨inv.table.held, inv.table.free⟩, nonzero, inv.sound⟩

theorem Inv.found (inv : Inv state) (holds : state.Holds frame slot) :
    Inv (state.found frame slot) :=
  ⟨⟨inv.table.held, inv.table.free⟩, ⟨rfl, slot, rfl, holds⟩, inv.sound⟩

/-- What is logged is done to the file of the frame. -/
theorem Inv.log (inv : Inv state) (points : state.worker.fsPtr = some slot)
    (holds : state.Holds frame slot) (kind : Kind) : Inv (state.log kind frame) := by
  refine ⟨⟨inv.table.held, inv.table.free⟩, inv.coherent, ?_⟩
  intro access mem
  rcases List.mem_append.mp mem with before | last
  · exact inv.sound access before
  · rw [List.mem_singleton.mp last]
    refine ⟨holds.1, ?_⟩
    rw [points]
    exact holds.2

/-- An entry that is counted in stays the same file's. -/
theorem Inv.setStat (inv : Inv state) {stat : FileStat}
    (fileNo : stat.fileNo = (state.fileStat slot).fileNo)
    (fd : stat.fd = (state.fileStat slot).fd)
    (word : stat.state = 0 ↔ (state.fileStat slot).state = 0) : Inv (state.setStat slot stat) :=
  ⟨inv.table.setStat fileNo fd word, inv.coherent, inv.sound⟩

theorem Inv.update (inv : Inv state) (same : state.worker.fileCur = frame.fileNo)
    (points : state.worker.fsPtr = some slot) (holds : state.Holds frame slot) (kind : Kind)
    {change : FileStat → FileStat} (frames : ∀ stat, (change stat).fileNo = stat.fileNo ∧
      (change stat).fd = stat.fd ∧ (change stat).state = stat.state) {stage : Stage}
    (after : stage = .idle ∨ ∃ job, stage = .busy frame job) :
    Inv (state.update kind frame change stage) := by
  have logged := inv.log points holds kind
  obtain ⟨fileNo, fd, word⟩ := frames (state.fileStat slot)
  have changed : Inv ((state.log kind frame).setStat slot (change (state.fileStat slot))) :=
    logged.setStat fileNo fd (by rw [word]; rfl)
  rw [State.update, points]
  dsimp only
  rcases after with rfl | ⟨job, rfl⟩
  · refine ⟨⟨changed.table.held, changed.table.free⟩, fun _ => ⟨slot, points, fun _ => ?_⟩,
      changed.sound⟩
    exact same ▸ holds.2
  · exact changed.busy_of_holds same points holds job

theorem Inv.busy (inv : Inv state) (config : Config) {job : Job}
    (at_busy : state.worker.stage = .busy frame job) (result : BitVec 32) :
    Inv (state.busy config frame result job) := by
  have coherent := inv.coherent
  rw [State.Coherent, at_busy] at coherent
  obtain ⟨same, slot, points, holds⟩ := coherent
  cases job with
  | flush =>
      rw [State.busy]
      split
      · exact (inv.log points holds .write).busy_of_holds same points holds _
      · exact inv.busy_of_holds same points holds _
  | hash =>
      unfold State.busy
      dsimp only
      refine inv.update same points holds .crc ?_ (.inr ⟨_, rfl⟩)
      exact fun _ => ⟨rfl, rfl, rfl⟩
  | submit =>
      have written : Inv (if config.early then state else state.log .write frame) := by
        split
        · exact inv
        · exact inv.log points holds .write
      rw [State.busy]
      by_cases positive : 0 < result.toInt
      · rw [if_pos positive]
        have written_holds : (if config.early then state else state.log .write frame).Holds
            frame slot := by
          split <;> exact holds
        refine written.busy_of_holds ?_ ?_ written_holds _
        · split <;> exact same
        · split <;> exact points
      · rw [if_neg positive]
        exact written.exit
  | size sz =>
      unfold State.busy
      dsimp only
      refine inv.update same points holds .bytesTotal ?_ (.inr ⟨_, rfl⟩)
      exact fun _ => ⟨rfl, rfl, rfl⟩
  | count =>
      unfold State.busy
      dsimp only
      refine inv.update same points holds .blockTotal ?_ (.inl rfl)
      exact fun _ => ⟨rfl, rfl, rfl⟩

theorem fsInit_ne_zero : fsInit ≠ 0 := by decide

/-- A thread is the first to find the file in a slot. -/
theorem Inv.claim (inv : Inv state) (ready : (state.fileStat slot).state = fsInit) :
    Inv (state.setStat slot { state.fileStat slot with state := fsComplete ||| fsIo }) := by
  have claimed : fsComplete ||| fsIo ≠ 0 := by decide
  exact inv.setStat rfl rfl (iff_of_false claimed (ready ▸ fsInit_ne_zero))

theorem Inv.work (inv : Inv state) (config : Config) {result : BitVec 32} {after : State}
    (taken : state.work config result = some after) : Inv after := by
  have coherent := inv.coherent
  rw [State.work] at taken
  split at taken
  · cases taken
  · cases taken
  · rename_i frame index at_wait
    rw [State.Coherent, at_wait] at coherent
    dsimp only at coherent
    split at taken
    · obtain rfl := Option.some.inj taken
      split
      · exact inv.copy coherent _ _
      · rename_i fileNo
        rw [ne_eq, not_not] at fileNo
        have registered := inv.table.registered_of_fileNo coherent fileNo
        split
        · exact ⟨⟨inv.table.held, inv.table.free⟩, ⟨coherent, registered⟩, inv.sound⟩
        · split
          · exact (inv.copy coherent _ _).found ⟨coherent, registered⟩
          · exact inv.copy coherent _ _
    · obtain rfl := Option.some.inj taken
      exact inv.waits coherent 0
  · rename_i frame index at_compare
    rw [State.Coherent, at_compare] at coherent
    dsimp only at taken
    split at taken
    · rename_i ready
      obtain rfl := Option.some.inj taken
      exact (inv.claim ready).found coherent
    · obtain rfl := Option.some.inj taken
      exact inv.waits coherent.1 (index + 1)
  · rename_i frame job at_busy
    obtain rfl := Option.some.inj taken
    exact inv.busy config at_busy result

/-! ## The main loop -/

/-- What the thread keeps of a file stays true as long as the file is registered, and the slots that
are wiped are known. -/
theorem State.Coherent.mono {after : State} (coherent : state.Coherent)
    (stage : after.worker.stage = state.worker.stage)
    (fileCur : after.worker.fileCur = state.worker.fileCur)
    (fsPtr : after.worker.fsPtr = state.worker.fsPtr) (fs : after.worker.fs = state.worker.fs)
    (kept : ∀ slot entry, state.registered slot = some entry → slot ∉ after.worker.wiped ∨
      state.worker.slot = some slot → after.registered slot = some entry)
    (wiped : ∀ slot ∈ state.worker.wiped, slot ∈ after.worker.wiped) : after.Coherent := by
  rw [State.Coherent] at coherent ⊢
  rw [stage]
  split
  · rename_i idle
    rw [idle] at coherent
    intro nonzero
    rw [fileCur] at nonzero
    obtain ⟨slot, points, registered⟩ := coherent nonzero
    refine ⟨slot, fsPtr.trans points, fun current => ?_⟩
    rw [fileCur, fs]
    exact kept slot _ (registered fun mem => current (wiped slot mem)) (.inl current)
  · rename_i frame index at_wait
    rw [at_wait] at coherent
    exact coherent
  · rename_i frame index at_compare
    rw [at_compare] at coherent
    refine ⟨coherent.1, ?_⟩
    rw [fs]
    exact kept _ _ coherent.2 (.inr (by rw [RxWorker.slot, at_compare]))
  · rename_i frame job at_busy
    rw [at_busy] at coherent
    obtain ⟨same, slot, points, nonzero, registered⟩ := coherent
    refine ⟨fileCur.trans same, slot, fsPtr.trans points, nonzero, ?_⟩
    rw [fs]
    exact kept _ _ registered (.inr (by rw [RxWorker.slot, at_busy, points]))
  · trivial

theorem Inv.add (inv : Inv state) (fileno : Nat) (fd : Int) : Inv (state.add fileno fd) := by
  rw [State.add]
  split
  · exact inv
  · rename_i slot vacant
    have free := List.find?_some vacant
    rw [decide_eq_true_eq] at free
    have unused : ∀ other entry, state.registered other = some entry → other ≠ slot := by
      rintro other entry registered rfl
      exact inv.table.state_ne_zero registered free
    refine ⟨⟨?_, ?_⟩, ?_, inv.sound⟩
    · intro other number descriptor registered
      dsimp only at registered
      by_cases same : other = slot
      · subst same
        rw [Function.update_self] at registered
        obtain ⟨rfl, rfl⟩ := Prod.mk.inj (Option.some.inj registered)
        simp only [State.setStat, Function.update_self]
        exact ⟨rfl, rfl, fsInit_ne_zero⟩
      · rw [Function.update_of_ne same] at registered
        simp only [State.setStat, Function.update_of_ne same]
        exact inv.table.held other number descriptor registered
    · intro other registered
      dsimp only at registered
      by_cases same : other = slot
      · rw [same, Function.update_self] at registered
        cases registered
      · rw [Function.update_of_ne same] at registered
        simp only [State.setStat, Function.update_of_ne same]
        exact inv.table.free other registered
    · refine inv.coherent.mono rfl rfl rfl rfl ?_ fun _ mem => mem
      intro other entry registered _
      exact (Function.update_of_ne (unused other entry registered) _ _).trans registered

theorem Inv.close (inv : Inv state) {fileno : Nat} {blocks : Int} {after : State}
    (taken : state.close fileno blocks = some after)
    (spared : state.Spared (.close fileno blocks)) : Inv after := by
  rw [State.close] at taken
  split at taken
  · cases taken
  · rename_i slot found
    split at taken
    · obtain rfl := Option.some.inj taken
      have other_file := spared slot found
      refine ⟨⟨?_, ?_⟩, ?_, inv.sound⟩
      · intro other number descriptor registered
        dsimp only at registered
        by_cases same : other = slot
        · rw [same, Function.update_self] at registered
          cases registered
        · rw [Function.update_of_ne same] at registered
          simp only [State.setStat, Function.update_of_ne same]
          exact inv.table.held other number descriptor registered
      · intro other registered
        dsimp only at registered
        by_cases same : other = slot
        · subst same
          simp only [State.setStat, Function.update_self]
          exact ⟨rfl, rfl⟩
        · rw [Function.update_of_ne same] at registered
          simp only [State.setStat, Function.update_of_ne same]
          exact inv.table.free other registered
      · refine inv.coherent.mono rfl rfl rfl rfl ?_ fun _ mem => List.mem_cons_of_mem _ mem
        rintro other entry registered kept
        have ne : other ≠ slot := by
          rintro rfl
          rcases kept with current | mine
          · exact current List.mem_cons_self
          · exact other_file mine
        exact (Function.update_of_ne ne _ _).trans registered
    · cases taken

/-- Spared steps keep what the thread knows true. -/
theorem Inv.step (inv : Inv state) (config : Config) {label : Label} {after : State}
    (spared : state.Spared label) (taken : state.next config label = some after) : Inv after := by
  cases label with
  | frame frame =>
      unfold State.next at taken
      dsimp only at taken
      split at taken
      · rename_i idle
        obtain rfl := Option.some.inj taken
        exact inv.receive idle spared
      · cases taken
  | work result => exact inv.work config taken
  | spurious =>
      unfold State.next at taken
      dsimp only at taken
      split at taken
      · rename_i frame index at_compare
        have coherent := inv.coherent
        rw [State.Coherent, at_compare] at coherent
        obtain rfl := Option.some.inj taken
        exact inv.waits coherent.1 (index + 1)
      · cases taken
  | add fileno fd =>
      obtain rfl := Option.some.inj taken
      exact inv.add fileno fd
  | close fileno blocks => exact inv.close taken spared
  | claim slot =>
      rw [State.next] at taken
      dsimp only at taken
      split at taken
      · rename_i ready
        obtain rfl := Option.some.inj taken
        exact inv.claim ready
      · cases taken
  | count slot totals =>
      obtain rfl := Option.some.inj taken
      exact inv.setStat rfl rfl Iff.rfl

end Steps

/-- In every run whose steps are spared each block is written to its own file and counted there. -/
theorem sound_of_spared {config : Config} {state : State}
    (reached : (machine config).ReachedUnder State.Spared state) : state.Sound := by
  refine (reached.invariant Inv ?_ ?_).sound
  · rintro state ⟨fs, rfl⟩
    exact ⟨⟨nofun, fun _ _ => ⟨rfl, rfl⟩⟩, fun nonzero => absurd rfl nonzero, nofun⟩
  · exact fun before label after inv spared taken => inv.step config spared taken

/-! ## Three short runs -/

/-- The engine writes in `submit`, and nothing is hashed. -/
def plain : Config := ⟨false, false⟩

/-- The steps of a thread that finds its file at once, with a block of 4096 bytes. -/
def block (fileno : Nat) : List Label :=
  [.frame ⟨fileno, 0, 4096, 0⟩, .work 0, .work 0, .work 0, .work 4096, .work 0, .work 0]

/-- A file is added, a block of it is written, and the file is closed. -/
theorem sound_of_block : ∃ state, (machine plain).ReachedUnder State.Spared state ∧
    state.accesses.length = 3 ∧ state.Sound := by
  have ran : (((machine plain).restrict State.Spared).run (.init FileStat.zero)
      (.add 1 5 :: block 1 ++ [.close 1 1])).map (fun state => state.accesses.length) =
        some 3 := by
    decide +kernel
  obtain ⟨state, reaches, length⟩ := Option.map_eq_some_iff.mp ran
  have restricted : ((machine plain).restrict State.Spared).Reached state :=
    Machine.reached_of_run ⟨_, rfl⟩ _ reaches
  have reached := restricted.of_restrict
  exact ⟨state, reached, length, sound_of_spared reached⟩

/-- The first frame has file number 0, and the block is written to what happens to be in `fs`. -/
def zeroFirst : List Label := [.frame ⟨0, 0, 4096, 0⟩, .work 0, .work 4096]

/-- A file is closed, and a further block of it comes. -/
def lateBlock : List Label :=
  .add 1 5 :: block 1 ++ [.close 1 1, .frame ⟨1, 4096, 4096, 0⟩, .work 0, .work 4096]

/-- What has been done last in a run. -/
def lastAccess (fs : FileStat) (labels : List Label) : Option Access :=
  ((machine plain).run (.init fs) labels).bind fun state => state.accesses.getLast?

/-- A block is written to a descriptor that is no file's, and another one to a descriptor that has
been closed. -/
theorem not_sound_of_runs :
    lastAccess { FileStat.zero with fd := 7 } zeroFirst =
      some ⟨.write, ⟨0, 0, 4096, 0⟩, 7, none⟩ ∧
    lastAccess FileStat.zero lateBlock = some ⟨.write, ⟨1, 4096, 4096, 0⟩, 5, none⟩ ∧
    ¬∀ config state, (machine config).Reached state → state.Sound := by
  have zero : lastAccess { FileStat.zero with fd := 7 } zeroFirst =
      some ⟨.write, ⟨0, 0, 4096, 0⟩, 7, none⟩ := by
    decide +kernel
  refine ⟨zero, by decide +kernel, fun always => ?_⟩
  obtain ⟨state, ran, last⟩ := Option.bind_eq_some_iff.mp zero
  have reached : (machine plain).Reached state := Machine.reached_of_run ⟨_, rfl⟩ _ ran
  exact (always plain state reached _ (List.mem_of_getLast? last)).1 rfl

end WorkerCache
end EScp
