import EScp.FileClaims
import EScp.FileTableInvariant

/-!
# The copy of an entry that a worker works from

A worker reads with the descriptor of its own copy of the entry and labels blocks with the file
number of that copy.  To attach to a file it copies the entry first and compares the state word
afterwards.
-/

namespace EScp
namespace FileTable

open StateWord

variable {Thread : Type*}

/-- The slot that `file_next` has returned to a worker, and the copy it has filled. -/
def Worker.worksOn : Worker → Option (Nat × FileStat)
  | .attached slot testFs | .stopped slot testFs => some (slot, testFs)
  | _ => none

/-- An entry has the file number and the descriptor of a copy. -/
def SameFile (stat testFs : FileStat) : Prop := stat.fileNo = testFs.fileNo ∧ stat.fd = testFs.fd

/-- Until a worker calls `file_iow_remove`, its copy is of the file that is in the slot. -/
def Consistent (state : State Thread) : Prop :=
  ∀ id slot testFs, (state.workers id).worksOn = some (slot, testFs) →
    SameFile (state.fileStat slot) testFs

/-- A slot whose word equals that of the copy has not been wiped since it was copied. -/
def Unwiped (state : State Thread) : Label Thread → Prop
  | .work id =>
      match state.workers id with
      | .casAttach _ slot testFs wipes =>
          (state.fileStat slot).state = testFs.state → state.wipes slot = wipes
      | _ => True
  | _ => True

instance (state : State Thread) : (label : Label Thread) → Decidable (Unwiped state label)
  | .work id => by
      dsimp only [Unwiped]
      generalize state.workers id = worker
      exact match worker with
        | .casAttach .. => inferInstance
        | .loadCount | .loadHead _ | .addHead | .casHead _ | .scan _ | .copy .. | .find ..
        | .casClaim .. | .activate .. | .attached .. | .stopped .. | .last _ | .wipe _ | .exited =>
            inferInstanceAs (Decidable True)
  | .take .. | .add .. | .spurious .. | .update .. | .completeTransfer =>
      inferInstanceAs (Decidable True)

/-- The slot and the copy of a worker whose bit is set. -/
def Worker.holding : Worker → Option (Nat × FileStat)
  | .activate slot testFs | .attached slot testFs | .stopped slot testFs => some (slot, testFs)
  | _ => none

theorem Worker.on_of_holding {worker : Worker} {slot : Nat} {testFs : FileStat}
    (holding : worker.holding = some (slot, testFs)) : worker.on = some slot := by
  cases worker with
  | activate _ _ | attached _ _ | stopped _ _ =>
      cases holding
      rfl
  | _ => cases holding

theorem Worker.holding_of_worksOn {worker : Worker} {slot : Nat} {testFs : FileStat}
    (works : worker.worksOn = some (slot, testFs)) : worker.holding = some (slot, testFs) := by
  cases worker with
  | attached _ _ | stopped _ _ => exact works
  | _ => cases works

/-- The copies that workers hold, and those they have not compared yet, are right. -/
structure Copies (state : State Thread) : Prop where
  held : ∀ id slot testFs, (state.workers id).holding = some (slot, testFs) →
    SameFile (state.fileStat slot) testFs
  compared : ∀ id index slot testFs wipes, state.workers id = .casAttach index slot testFs wipes →
    wipes ≤ state.wipes slot ∧ (state.wipes slot = wipes →
      ¬Unclaimed (state.fileStat slot).state ∧ SameFile (state.fileStat slot) testFs)

/-- A claimed slot keeps its file, unless it is wiped. -/
structure Kept (before after : State Thread) (slot : Nat) : Prop where
  grows : before.wipes slot ≤ after.wipes slot
  stays : after.wipes slot = before.wipes slot → ¬Unclaimed (before.fileStat slot).state →
    ¬Unclaimed (after.fileStat slot).state ∧ SameFile (after.fileStat slot) (before.fileStat slot)

variable {state after : State Thread}

/-- A step that leaves the table alone. -/
theorem Kept.of_eq (stats : after.fileStat = state.fileStat) (wipes : after.wipes = state.wipes)
    (slot : Nat) : Kept state after slot := by
  refine ⟨by rw [wipes], fun _ claimed => ?_⟩
  rw [stats]
  exact ⟨claimed, rfl, rfl⟩

/-- Only the slot that is written has to be looked at. -/
theorem Kept.of_store {written : Nat} {stat : FileStat}
    (stats : after.fileStat = Function.update state.fileStat written stat)
    (wipes : after.wipes = state.wipes) (here : ¬Unclaimed (state.fileStat written).state →
      ¬Unclaimed stat.state ∧ SameFile stat (state.fileStat written)) (slot : Nat) :
    Kept state after slot := by
  refine ⟨by rw [wipes], fun _ claimed => ?_⟩
  rw [stats]
  by_cases same : slot = written
  · subst same
    rw [Function.update_self]
    exact here claimed
  · rw [Function.update_of_ne same]
    exact ⟨claimed, rfl, rfl⟩

theorem Kept.of_word (written : Nat) (word : BitVec 64)
    (stats : after.fileStat = Function.update state.fileStat written
      { state.fileStat written with state := word })
    (wipes : after.wipes = state.wipes)
    (here : ¬Unclaimed (state.fileStat written).state → ¬Unclaimed word) (slot : Nat) :
    Kept state after slot :=
  .of_store stats wipes (fun claimed => ⟨here claimed, rfl, rfl⟩) slot

theorem kept_failing {id : Id} (fails : Failing state id after) (slot : Nat) :
    Kept state after slot := by
  cases fails with
  | casHead _ | casAttach _ | casClaim _ => exact .of_eq (by rfl) (by rfl) slot

theorem Inv.kept_work (inv : Inv state) {id : Id} (taken : state.work id = some after)
    (slot : Nat) : Kept state after slot := by
  cases working taken with
  | @attach _ other _ testFs at_worker same =>
      refine .of_word other (testFs.state ||| idBit id) (by rfl) (by rfl) (fun claimed => ?_) slot
      obtain ⟨io, marks⟩ := (inv.words other).marks claimed
      rw [same] at marks
      exact Marks.not_unclaimed (marks.attach id)
  | @claim fh index testFs at_worker ready =>
      exact .of_word (probe fh index) (fsComplete ||| fsIo ||| idBit id) (by rfl) (by rfl)
        (fun claimed => absurd (.inr (.inr ready)) claimed) slot
  | @remove other testFs at_worker =>
      have on : (state.workers id).on = some other := by rw [at_worker]; rfl
      obtain ⟨io, marks⟩ := inv.marks_of_on on
      exact .of_word other _ (by rfl) (by rfl)
        (fun _ => Marks.not_unclaimed (marks.remove id)) slot
  | @wipe other at_worker =>
      by_cases same : slot = other
      · subst same
        refine ⟨?_, fun wipes => ?_⟩
        · change state.wipes slot ≤ Function.update state.wipes slot (state.wipes slot + 1) slot
          rw [Function.update_self]
          exact Nat.le_succ _
        · change Function.update state.wipes slot (state.wipes slot + 1) slot = _ at wipes
          rw [Function.update_self] at wipes
          omega
      · refine ⟨(Nat.le_of_eq (Function.update_of_ne same ..).symm), fun _ claimed => ?_⟩
        have stat_eq : Function.update state.fileStat other FileStat.zero slot =
            state.fileStat slot := Function.update_of_ne same ..
        change ¬Unclaimed (Function.update state.fileStat other FileStat.zero slot).state ∧
          SameFile (Function.update state.fileStat other FileStat.zero slot) _
        rw [stat_eq]
        exact ⟨claimed, rfl, rfl⟩
  | fails fails => exact kept_failing fails slot
  | _ => exact .of_eq (by rfl) (by rfl) slot

/-! ## Steps of a worker -/

/-- A worker goes on to a place where its copy is right. -/
theorem Copies.step (copies : Copies state) (inv : Inv state) (id : Id)
    (kept : ∀ slot, Kept state after slot)
    (others : ∀ other, other ≠ id → after.workers other = state.workers other)
    (stays : ∀ other slot, other ≠ id → (state.workers other).on = some slot →
      after.wipes slot = state.wipes slot)
    (held : ∀ slot testFs, (after.workers id).holding = some (slot, testFs) →
      SameFile (after.fileStat slot) testFs)
    (compared : ∀ index slot testFs wipes, after.workers id = .casAttach index slot testFs wipes →
      wipes ≤ after.wipes slot ∧ (after.wipes slot = wipes →
        ¬Unclaimed (after.fileStat slot).state ∧ SameFile (after.fileStat slot) testFs)) :
    Copies after := by
  refine ⟨fun other slot testFs holds => ?_, fun other index slot testFs wipes at_cas => ?_⟩
  · by_cases moved : other = id
    · subst moved
      exact held slot testFs holds
    · rw [others other moved] at holds
      have on := Worker.on_of_holding holds
      obtain ⟨io, marks⟩ := inv.marks_of_on on
      obtain ⟨-, number, descriptor⟩ :=
        (kept slot).stays (stays other slot moved on) (Marks.not_unclaimed marks)
      obtain ⟨held_number, held_descriptor⟩ := copies.held other slot testFs holds
      exact ⟨number.trans held_number, descriptor.trans held_descriptor⟩
  · by_cases moved : other = id
    · subst moved
      exact compared index slot testFs wipes at_cas
    · rw [others other moved] at at_cas
      obtain ⟨earlier, right⟩ := copies.compared other index slot testFs wipes at_cas
      refine ⟨earlier.trans (kept slot).grows, fun unwiped => ?_⟩
      have grows := (kept slot).grows
      have unwiped_before : state.wipes slot = wipes := by omega
      obtain ⟨claimed, right_number, right_descriptor⟩ := right unwiped_before
      obtain ⟨still_claimed, number, descriptor⟩ := (kept slot).stays (by omega) claimed
      exact ⟨still_claimed, number.trans right_number, descriptor.trans right_descriptor⟩

/-- A worker goes on to a place where it holds and compares nothing. -/
theorem Copies.leave (copies : Copies state) (inv : Inv state) {id : Id} {worker : Worker}
    (at_worker : after.workers = Function.update state.workers id worker)
    (kept : ∀ slot, Kept state after slot) (wipes : after.wipes = state.wipes)
    (holding : worker.holding = none) (compares : worker.compares = none) : Copies after := by
  have moved : after.workers id = worker := by rw [at_worker, Function.update_self]
  refine copies.step inv id kept (fun other ne => ?_) (fun _ _ _ _ => by rw [wipes]) ?_ ?_
  · rw [at_worker, Function.update_of_ne ne]
  · intro slot testFs holds
    rw [moved, holding] at holds
    cases holds
  · intro index slot testFs wiped at_cas
    rw [moved] at at_cas
    rw [at_cas] at compares
    cases compares

/-- A worker goes on to a place where it holds a copy. -/
theorem Copies.hold (copies : Copies state) (inv : Inv state) {id : Id} {worker : Worker}
    {slot : Nat} {testFs : FileStat}
    (at_worker : after.workers = Function.update state.workers id worker)
    (kept : ∀ slot, Kept state after slot) (wipes : after.wipes = state.wipes)
    (holding : worker.holding = some (slot, testFs))
    (right : SameFile (after.fileStat slot) testFs) : Copies after := by
  have moved : after.workers id = worker := by rw [at_worker, Function.update_self]
  refine copies.step inv id kept (fun other ne => ?_) (fun _ _ _ _ => by rw [wipes]) ?_ ?_
  · rw [at_worker, Function.update_of_ne ne]
  · intro other otherFs holds
    rw [moved, holding] at holds
    cases holds
    exact right
  · intro index other otherFs wiped at_cas
    rw [moved] at at_cas
    rw [at_cas] at holding
    cases holding

theorem returned_holding (slot : Nat) (testFs : FileStat) :
    (returned slot testFs).holding = some (slot, testFs) := by
  rw [returned]
  split <;> rfl

theorem decideNext_holding (fc fh : Nat) : (decideNext fc fh).holding = none := by
  rw [decideNext]
  split
  · rfl
  · split <;> rfl

theorem Copies.failing (copies : Copies state) (inv : Inv state) {id : Id}
    (fails : Failing state id after) : Copies after := by
  have kept := kept_failing fails
  cases fails with
  | casHead _ | casAttach _ | casClaim _ => exact copies.leave inv (by rfl) kept (by rfl) rfl rfl

theorem Copies.work (copies : Copies state) (inv : Inv state) {id : Id}
    (unwiped : Unwiped state (.work id)) (taken : state.work id = some after) : Copies after := by
  have kept := inv.kept_work taken
  cases working taken with
  | loadCount _ | addHead _ | casHead _ _ | scanned _ | skipped _ | ranOut _ | anew _ | passed _
  | found _ _ _ | search _ _ | last _ => exact copies.leave inv (by rfl) kept (by rfl) rfl rfl
  | loadHead _ =>
      exact copies.leave inv (by rfl) kept (by rfl) (decideNext_holding ..)
        (decideNext_views ..).2.2.2
  | copied _ io =>
      refine copies.step inv id kept (fun other ne => setWorker_of_ne _ ne)
        (fun _ _ _ _ => rfl) ?_ ?_
      · intro other otherFs holds
        rw [setWorker_self] at holds
        cases holds
      · intro index' other otherFs wiped at_cas
        rw [setWorker_self] at at_cas
        cases at_cas
        exact ⟨Nat.le_refl _, fun _ => ⟨claimed_of_io io, rfl, rfl⟩⟩
  | @attach index slot wipes testFs at_worker same =>
      have same_wipes : state.wipes slot = wipes := by
        simp only [Unwiped, at_worker] at unwiped
        exact unwiped same
      obtain ⟨-, right⟩ := (copies.compared id index slot testFs wipes at_worker).2 same_wipes
      refine copies.hold inv (by rfl) kept (by rfl) (returned_holding slot testFs) ?_
      rw [SameFile] at right ⊢
      simpa [State.setWord, State.setStat, State.setWorker] using right
  | @claim fh index testFs at_worker _ =>
      obtain ⟨-, number, own_number, descriptor⟩ := inv.candidate id fh index testFs at_worker
      refine copies.hold inv (by rfl) kept (by rfl) rfl ?_
      have right : SameFile (state.fileStat (probe fh index)) testFs :=
        ⟨number.trans own_number.symm, descriptor⟩
      rw [SameFile] at right ⊢
      simpa [State.setWord, State.setStat, State.setWorker] using right
  | @activate slot testFs at_worker =>
      exact copies.hold inv (by rfl) kept (by rfl) (returned_holding slot testFs)
        (copies.held id slot testFs (by rw [at_worker]; rfl))
  | remove _ => refine copies.leave inv (by rfl) kept (by rfl) ?_ ?_ <;> split <;> rfl
  | @wipe slot at_worker =>
      have closing : (state.workers id).closing = some slot := by rw [at_worker]; rfl
      refine copies.step inv id kept (fun other ne => setWorker_of_ne _ ne) ?_ ?_ ?_
      · intro other otherSlot ne on
        refine Function.update_of_ne ?_ _ _
        rintro rfl
        have mem : other ∈ state.ids otherSlot := mem_ids.mpr on
        rw [inv.ids_of_closing closing] at mem
        exact absurd mem (Finset.notMem_empty other)
      · intro other otherFs holds
        rw [setWorker_self] at holds
        cases holds
      · intro index other otherFs wiped at_cas
        rw [setWorker_self] at at_cas
        cases at_cas
  | fails fails => exact copies.failing inv fails

/-- A step in which no worker moves. -/
theorem Copies.frame (copies : Copies state) (inv : Inv state)
    (workers : after.workers = state.workers) (wipes : after.wipes = state.wipes)
    (kept : ∀ slot, Kept state after slot) : Copies after := by
  refine ⟨fun id slot testFs holds => ?_, fun id index slot testFs wiped at_cas => ?_⟩
  · rw [workers] at holds
    obtain ⟨io, marks⟩ := inv.marks_of_on (Worker.on_of_holding holds)
    obtain ⟨-, number, descriptor⟩ :=
      (kept slot).stays (by rw [wipes]) (Marks.not_unclaimed marks)
    obtain ⟨held_number, held_descriptor⟩ := copies.held id slot testFs holds
    exact ⟨number.trans held_number, descriptor.trans held_descriptor⟩
  · rw [workers] at at_cas
    obtain ⟨earlier, right⟩ := copies.compared id index slot testFs wiped at_cas
    rw [wipes]
    refine ⟨earlier, fun unwiped => ?_⟩
    obtain ⟨claimed, right_number, right_descriptor⟩ := right unwiped
    obtain ⟨still_claimed, number, descriptor⟩ := (kept slot).stays (by rw [wipes]) claimed
    exact ⟨still_claimed, number.trans right_number, descriptor.trans right_descriptor⟩

theorem copies_init : Copies (State.init : State Thread) where
  held := by simp [State.init, Worker.holding]
  compared := by simp [State.init]

variable [DecidableEq Thread]

theorem Inv.kept_add (inv : Inv state) {thread : Thread} (taken : state.add thread = some after)
    (slot : Nat) : Kept state after slot := by
  cases adding taken with
  | @reserve fileno index fd at_adder small free =>
      exact .of_word (probe fileno index) reserved (by rfl) (by rfl)
        (fun claimed => absurd (.inl free) claimed) slot
  | search later at_adder => exact .of_eq (by rfl) (by rfl) slot
  | @fill fileno other fd at_adder =>
      have reserved_eq := (inv.filling thread fileno other (by rw [at_adder]; rfl)).1
      exact .of_store (by rfl) (by rfl)
        (fun claimed => absurd (.inr (.inl reserved_eq)) claimed) slot
  | count at_adder => exact .of_eq (by rfl) (by rfl) slot

theorem shared_add {thread : Thread} (taken : state.add thread = some after) :
    after.workers = state.workers ∧ after.wipes = state.wipes := by
  cases adding taken with
  | reserve _ _ _ | search _ _ | fill _ | count _ => exact ⟨rfl, rfl⟩

theorem Copies.next (copies : Copies state) (inv : Inv state) {label : Label Thread}
    (unwiped : Unwiped state label) (taken : FileTable.next state label = some after) :
    Copies after := by
  cases label with
  | take thread fd =>
      simp only [FileTable.next] at taken
      split at taken
      · obtain rfl := Option.some.inj taken
        exact ⟨copies.held, copies.compared⟩
      · cases taken
  | add thread =>
      obtain ⟨workers, wipes⟩ := shared_add taken
      exact copies.frame inv workers wipes (inv.kept_add taken)
  | work id => exact copies.work inv unwiped taken
  | spurious id => exact copies.failing inv (failing_of_spurious taken)
  | update id totals =>
      simp only [FileTable.next, State.update] at taken
      split at taken
      · rename_i slot testFs at_worker
        obtain rfl := Option.some.inj taken
        refine copies.frame inv (by rfl) (by rfl) fun other => ?_
        refine .of_store (by rfl) (by rfl) (fun claimed => ?_) other
        exact ⟨claimed, rfl, rfl⟩
      · cases taken
  | completeTransfer =>
      obtain rfl := Option.some.inj taken
      exact ⟨copies.held, copies.compared⟩

/-- The copy of a worker is of the file in its slot, when no slot is wiped between the copy and the
comparison that succeeds. -/
theorem consistent_of_unwiped (reached : (machine Thread).ReachedUnder Unwiped state) :
    Consistent state := by
  have both : Inv state ∧ Copies state := by
    refine reached.invariant (fun state => Inv state ∧ Copies state) ?_ ?_
    · rintro _ rfl
      exact ⟨inv_init, copies_init⟩
    · rintro _ label _ ⟨inv, copies⟩ unwiped taken
      exact ⟨inv.next taken, copies.next inv unwiped taken⟩
  intro id slot testFs works
  exact both.2.held id slot testFs (Worker.holding_of_worksOn works)

/-! ## Two workers -/

/-- Worker 1 claims a file and worker 0 attaches to it. -/
def attachTwo : List (Label (Fin 1)) :=
  addFile 5 ++ List.replicate 6 (.work 1) ++ List.replicate 6 (.work 0)

/-- Two workers on one file. -/
theorem consistent_after_two : ∃ state, (machine (Fin 1)).run State.init attachTwo = some state ∧
    ((state.workers 0).worksOn.map fun works => works.2.fileNo) = some 1 ∧ Consistent state := by
  refine ⟨_, rfl, by decide +kernel, consistent_of_unwiped (.of_restrict
    (Machine.reached_of_run rfl attachTwo rfl))⟩

/-- A state in which worker 1 works, worker 0 stands still and at most one slot is in use. -/
def lone (count head slot : Nat) (stat : FileStat) (parked worker : Worker) (active : FileStat)
    (wipes : Nat → Nat) (claimed : List (Nat × Id)) : State (Fin 1) where
  fileStat := Function.update (fun _ => FileStat.zero) slot stat
  fileCount := count
  fileHead := head
  transferComplete := false
  fileActivefile := Function.update (fun _ => FileStat.zero) 1 active
  globalFino := count
  adders _ := .idle
  workers := Function.update (Function.update (fun _ => .loadCount) 0 parked) 1 worker
  wipes := wipes
  claimed := claimed

section Lone

variable (count head slot : Nat) (stat testFs : FileStat) (parked worker : Worker)
  (active : FileStat) (wipes : Nat → Nat) (claimed : List (Nat × Id))

theorem decideNext_one : decideNext (head + 1) head = .casHead head := by
  rw [decideNext, threadCount]
  rw [if_neg (by push_cast; omega), if_pos (by push_cast; omega)]

theorem decideNext_none : decideNext head head = .scan 0 := by
  rw [decideNext, threadCount]
  rw [if_neg (by omega), if_neg (by omega)]

theorem setWorker_zero (moved : Worker) :
    (lone count head slot stat parked worker active wipes claimed).setWorker 0 moved =
      lone count head slot stat moved worker active wipes claimed := by
  have workers_eq : Function.update (Function.update (Function.update (fun _ => Worker.loadCount) 0
      parked) (1 : Id) worker) 0 moved =
        Function.update (Function.update (fun _ => Worker.loadCount) 0 moved) 1 worker := by
    rw [Function.update_comm (by decide : (0 : Id) ≠ 1), Function.update_idem,
      Function.update_comm (by decide : (1 : Id) ≠ 0)]
  simp only [State.setWorker, lone, workers_eq]

theorem workers_zero : (lone count head slot stat parked worker active wipes claimed).workers 0 =
    parked := by
  simp [lone]

/-- An empty slot is as good as another. -/
theorem lone_zero (other : Nat) :
    lone count head slot FileStat.zero parked worker active wipes claimed =
      lone count head other FileStat.zero parked worker active wipes claimed := by
  have unused : ∀ index : Nat, Function.update (fun _ : Nat => FileStat.zero) index FileStat.zero =
      fun _ => FileStat.zero := fun index => Function.update_eq_self index fun _ => FileStat.zero
  simp only [lone, unused]

/-- A file is added to the table. -/
theorem add_lone : (machine (Fin 1)).run
    (lone count head slot FileStat.zero parked worker active wipes claimed) (addFile 5) =
      some (lone (count + 1) head (probe (count + 1) 0)
        (newStat (count + 1) 5 (probe (count + 1) 0)) parked worker active wipes claimed) := by
  rw [lone_zero count head slot parked worker active wipes claimed (probe (count + 1) 0)]
  simp [addFile, machine, next, State.add, State.setAdder, State.setWord, State.setStat, lone,
    fileStatCountCc, Nat.add_comm 1 count]

theorem run_work {before middle after : State (Fin 1)} {id : Id} {labels : List (Label (Fin 1))}
    (first : before.work id = some middle)
    (rest : (machine (Fin 1)).run middle labels = some after) :
    (machine (Fin 1)).run before (.work id :: labels) = some after := by
  rw [Machine.run_cons]
  change (before.work id).bind _ = _
  rw [first]
  exact rest

/-- Worker 1 claims the file that has been added. -/
theorem claim_lone (slot_eq : probe (head + 1) 0 = slot) : (machine (Fin 1)).run
    (lone (head + 1) head slot (newStat (head + 1) 5 slot) parked .loadCount active wipes claimed)
      (List.replicate 6 (.work 1)) =
      some (lone (head + 1) (head + 1) slot
        { newStat (head + 1) 5 slot with state := fsComplete ||| fsIo ||| idBit 1 } parked
        (.attached slot (newStat (head + 1) 5 slot)) (newStat (head + 1) 5 slot) wipes
        (claimed ++ [(head + 1, 1)])) := by
  let stat := newStat (head + 1) 5 slot
  have loadCount : (lone (head + 1) head slot stat parked .loadCount active wipes claimed).work 1 =
      some (lone (head + 1) head slot stat parked (.loadHead (head + 1)) active wipes claimed) := by
    rw [State.work]
    simp [lone, State.setWorker]
  have loadHead : (lone (head + 1) head slot stat parked (.loadHead (head + 1)) active wipes
      claimed).work 1 =
        some (lone (head + 1) head slot stat parked (.casHead head) active wipes claimed) := by
    rw [State.work]
    simp [lone, State.setWorker, decideNext_one]
  have casHead : (lone (head + 1) head slot stat parked (.casHead head) active wipes
      claimed).work 1 = some (lone (head + 1) (head + 1) slot stat parked (.find (head + 1) 0)
        active wipes (claimed ++ [(head + 1, 1)])) := by
    rw [State.work]
    simp [lone, State.setWorker, State.claimHead]
  have find : (lone (head + 1) (head + 1) slot stat parked (.find (head + 1) 0) active wipes
      (claimed ++ [(head + 1, 1)])).work 1 = some (lone (head + 1) (head + 1) slot stat parked
        (.casClaim (head + 1) 0 stat) active wipes (claimed ++ [(head + 1, 1)])) := by
    rw [State.work]
    simp [lone, State.setWorker, slot_eq, stat, newStat, fileStatCountCc]
  have casClaim : (lone (head + 1) (head + 1) slot stat parked (.casClaim (head + 1) 0 stat) active
      wipes (claimed ++ [(head + 1, 1)])).work 1 = some (lone (head + 1) (head + 1) slot
        { stat with state := fsComplete ||| fsIo ||| idBit 1 } parked (.activate slot stat) active
        wipes (claimed ++ [(head + 1, 1)])) := by
    rw [State.work]
    simp [lone, State.setWorker, State.setWord, State.setStat, slot_eq, stat, newStat]
  have activate : (lone (head + 1) (head + 1) slot
      { stat with state := fsComplete ||| fsIo ||| idBit 1 } parked (.activate slot stat) active
      wipes (claimed ++ [(head + 1, 1)])).work 1 = some (lone (head + 1) (head + 1) slot
        { stat with state := fsComplete ||| fsIo ||| idBit 1 } parked (.attached slot stat) stat
        wipes (claimed ++ [(head + 1, 1)])) := by
    rw [State.work]
    simp [lone, State.setWorker, returned, stat, newStat]
  exact run_work loadCount (run_work loadHead (run_work casHead (run_work find
    (run_work casClaim (run_work activate rfl)))))

/-- Worker 1 leaves its file and wipes the slot. -/
theorem wipe_lone (word_eq : stat.state = fsComplete ||| fsIo ||| idBit 1) :
    (machine (Fin 1)).run
      (lone count head slot stat parked (.attached slot testFs) active wipes claimed)
      (List.replicate 3 (.work 1)) =
      some (lone count head slot FileStat.zero parked .loadCount active
        (Function.update wipes slot (wipes slot + 1)) claimed) := by
  have cleared : (fsComplete ||| fsIo ||| idBit 1) &&& ~~~(idBit 1 ||| fsIo) = fsComplete := by
    decide
  have attached : (lone count head slot stat parked (.attached slot testFs) active wipes
      claimed).work 1 = some (lone count head slot { stat with state := fsComplete } parked
        (.last slot) active wipes claimed) := by
    rw [State.work]
    simp [lone, State.setWorker, State.iowRemove, State.setWord, State.setStat, word_eq, cleared]
  have last : (lone count head slot { stat with state := fsComplete } parked (.last slot) active
      wipes claimed).work 1 = some (lone count head slot { stat with state := fsComplete } parked
        (.wipe slot) active wipes claimed) := by
    rw [State.work]
    simp [lone, State.setWorker]
  have wipe : (lone count head slot { stat with state := fsComplete } parked (.wipe slot) active
      wipes claimed).work 1 = some (lone count head slot FileStat.zero parked .loadCount active
        (Function.update wipes slot (wipes slot + 1)) claimed) := by
    rw [State.work]
    simp [lone, State.setWorker, State.setStat]
  exact run_work attached (run_work last (run_work wipe rfl))

/-- Worker 0 copies the entry of the file that worker 1 has published. -/
theorem copy_lone (published : active.position = slot) (used : slot ≠ 0)
    (io : stat.state &&& fsIo ≠ 0) : (machine (Fin 1)).run
      (lone head head slot stat .loadCount worker active wipes claimed)
      (List.replicate 5 (.work 0)) =
      some (lone head head slot stat (.casAttach 1 slot stat (wipes slot)) worker active wipes
        claimed) := by
  have loadCount : (lone head head slot stat .loadCount worker active wipes claimed).work 0 =
      some (lone head head slot stat (.loadHead head) worker active wipes claimed) := by
    simp only [State.work, workers_zero, setWorker_zero]
    rfl
  have loadHead : (lone head head slot stat (.loadHead head) worker active wipes claimed).work 0 =
      some (lone head head slot stat (.scan 0) worker active wipes claimed) := by
    simp only [State.work, workers_zero, setWorker_zero]
    rw [← decideNext_none head]
    rfl
  have scanOwn : (lone head head slot stat (.scan 0) worker active wipes claimed).work 0 =
      some (lone head head slot stat (.scan 1) worker active wipes claimed) := by
    simp only [State.work, workers_zero, setWorker_zero]
    rfl
  have scan : (lone head head slot stat (.scan 1) worker active wipes claimed).work 0 =
      some (lone head head slot stat (.copy 1 slot) worker active wipes claimed) := by
    have position : ((lone head head slot stat (.scan 1) worker active wipes
        claimed).fileActivefile 1).position = slot := by
      simp [lone, published]
    simp only [State.work, workers_zero, setWorker_zero, position, if_pos used]
    rfl
  have copy : (lone head head slot stat (.copy 1 slot) worker active wipes claimed).work 0 =
      some (lone head head slot stat (.casAttach 1 slot stat (wipes slot)) worker active wipes
        claimed) := by
    have read : (lone head head slot stat (.copy 1 slot) worker active wipes
        claimed).fileStat slot = stat := by
      simp [lone]
    simp only [State.work, workers_zero, setWorker_zero, read, if_pos io]
    rfl
  exact run_work loadCount (run_work loadHead (run_work scanOwn (run_work scan
    (run_work copy rfl))))

/-- Worker 0 compares its copy with the slot. -/
theorem reached_attach {index wiped : Nat} (reached : (machine (Fin 1)).Reached
      (lone count head slot stat (.casAttach index slot testFs wiped) worker active wipes claimed))
    (word_eq : stat.state = testFs.state) (descriptor : testFs.fd ≠ 0) : ∃ after,
      (machine (Fin 1)).Reached after ∧ after.workers 0 = .attached slot testFs ∧
        (after.fileStat slot).fileNo = stat.fileNo := by
  let before := lone count head slot stat (.casAttach index slot testFs wiped) worker active wipes
    claimed
  have read : before.fileStat slot = stat := by simp [before, lone]
  have attached : before.work 0 = some ((before.setWord slot (testFs.state ||| idBit 0)).setWorker 0
      (returned slot testFs)) := by
    simp only [before, State.work, workers_zero]
    rw [read, if_pos word_eq]
  have taken : (machine (Fin 1)).next before (.work 0) = some _ := attached
  refine ⟨_, .step reached trivial taken, ?_, ?_⟩
  · rw [setWorker_self, returned, if_neg descriptor]
  · have stat_eq : (before.setWord slot (testFs.state ||| idBit 0)).fileStat slot =
        { stat with state := testFs.state ||| idBit 0 } := by
      rw [State.setWord, setStat_self, read]
    exact (congrArg FileStat.fileNo stat_eq).trans rfl

/-- Worker 1 sends the next file while worker 0 stands still. -/
theorem reached_send (reached : (machine (Fin 1)).Reached
    (lone head head slot FileStat.zero parked .loadCount active wipes claimed)) :
    ∃ slot active wipes claimed, (machine (Fin 1)).Reached
      (lone (head + 1) (head + 1) slot FileStat.zero parked .loadCount active wipes claimed) := by
  have added := reached.run (add_lone head head slot parked .loadCount active wipes claimed)
  have claimed_file := added.run (claim_lone head _ parked active wipes claimed rfl)
  exact ⟨_, _, _, _, claimed_file.run (wipe_lone _ _ _ _ _ _ _ _ _ rfl)⟩

/-- Worker 1 sends any number of files while worker 0 stands still. -/
theorem reached_sends (files : Nat) (reached : (machine (Fin 1)).Reached
    (lone head head slot FileStat.zero parked .loadCount active wipes claimed)) :
    ∃ slot active wipes claimed, (machine (Fin 1)).Reached (lone (head + files) (head + files) slot
      FileStat.zero parked .loadCount active wipes claimed) := by
  induction files generalizing head slot active wipes claimed with
  | zero => exact ⟨slot, active, wipes, claimed, reached⟩
  | succ files ih =>
      obtain ⟨_, _, _, _, sent⟩ := reached_send head slot parked active wipes claimed reached
      obtain ⟨_, _, _, _, all_sent⟩ := ih _ _ _ _ _ sent
      rw [Nat.add_right_comm] at all_sent
      exact ⟨_, _, _, _, all_sent⟩

end Lone

theorem init_lone : (State.init : State (Fin 1)) =
    lone 0 0 0 FileStat.zero .loadCount .loadCount FileStat.zero (fun _ => 0) [] := by
  have unused : ∀ {Key Value : Type} [DecidableEq Key] (key : Key) (value : Value),
      Function.update (fun _ => value) key value = fun _ => value :=
    fun key value => Function.update_eq_self key fun _ => value
  simp only [lone, unused]
  rfl

/-- The slot of file 682 is the first that is tried for file 2048. -/
theorem probe_again : probe 682 0 = 512 ∧ probe 2048 0 = 512 := by
  decide +kernel

/-- Worker 0 copies the entry of file 682; its slot is wiped and goes to file 2048, whose word is
the same when worker 0 compares it. -/
theorem attached_to_other : ∃ state : State (Fin 1), (machine (Fin 1)).Reached state ∧
    ∃ testFs, state.workers 0 = .attached 512 testFs ∧ testFs.fileNo = 682 ∧
      (state.fileStat 512).fileNo = 2048 := by
  obtain ⟨slot_eq, again_eq⟩ := probe_again
  have start : (machine (Fin 1)).Reached
      (lone 0 0 0 FileStat.zero .loadCount .loadCount FileStat.zero (fun _ => 0) []) :=
    .start init_lone.symm
  obtain ⟨slot, active, wipes, claimed, before⟩ := reached_sends 0 _ _ _ _ _ 681 start
  have added := before.run (add_lone 681 681 slot .loadCount .loadCount active wipes claimed)
  rw [slot_eq] at added
  have taken := added.run (claim_lone 681 512 .loadCount active wipes claimed slot_eq)
  have copied := taken.run (copy_lone 682 512 _ _ _ wipes _ rfl (by decide) (by decide))
  have wiped := copied.run (wipe_lone 682 682 512 _ _ _ _ _ _ rfl)
  obtain ⟨slot, active, wipes', claimed', later⟩ := reached_sends 682 _ _ _ _ _ 1365 wiped
  have added_again := later.run (add_lone 2047 2047 slot _ .loadCount active wipes' claimed')
  rw [again_eq] at added_again
  have taken_again := added_again.run (claim_lone 2047 512 _ active wipes' claimed' again_eq)
  obtain ⟨after, reached, at_attached, fileno_eq⟩ :=
    reached_attach 2048 2048 512 _ _ _ _ _ _ taken_again rfl (by decide)
  exact ⟨after, reached, _, at_attached, rfl, fileno_eq⟩

/-- Arbitrary interleavings let a worker read another file than the one in its slot. -/
theorem not_consistent_of_reached :
    ¬∀ state : State (Fin 1), (machine (Fin 1)).Reached state → Consistent state := by
  intro consistent
  obtain ⟨state, reached, testFs, at_attached, fileno_eq, other_eq⟩ := attached_to_other
  have same := (consistent state reached 0 512 testFs (by rw [at_attached]; rfl)).1
  rw [fileno_eq, other_eq] at same
  exact absurd same (by decide)

end FileTable
end EScp
