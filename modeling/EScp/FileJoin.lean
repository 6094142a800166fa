import EScp.FileAttach

/-!
# Joining a file in progress

A worker that finds no new file looks for one with `FS_IO` in the slots that the workers have
published in `file_activefile`.  While a file has `FS_IO` the worker that claimed it has not left it
and its slot stays published.  A published slot 0 is taken for none at all.
-/

namespace EScp
namespace FileTable

open StateWord

variable {Thread : Type*}

/-- The file in a slot may be joined. -/
def State.Io (state : State Thread) (slot : Nat) : Prop := (state.fileStat slot).state &&& fsIo ≠ 0

instance (state : State Thread) (slot : Nat) : Decidable (state.Io slot) :=
  inferInstanceAs (Decidable (_ ≠ _))

/-- A worker is inside `file_next`. -/
def Worker.inside : Worker → Bool
  | .loadCount | .attached _ _ | .stopped _ _ | .last _ | .wipe _ | .exited => false
  | _ => true

/-- A worker that calls `file_next` and is not interrupted joins a file in progress: it gets the
slot and the copy of its entry, and its bit is all that changes in the table. -/
def State.Joins [DecidableEq Thread] (state : State Thread) (id : Id) : Prop :=
  ∃ steps slot after,
    (machine Thread).run state (List.replicate steps (.work id)) = some after ∧
      state.Io slot ∧ after.workers id = returned slot (state.fileStat slot) ∧
        after.fileStat = Function.update state.fileStat slot
          { state.fileStat slot with state := (state.fileStat slot).state ||| idBit id }

/-! ## Published slots -/

/-- The worker has claimed the file of a slot, and has published the slot or is about to. -/
def State.Publishes (state : State Thread) (id : Id) (slot : Nat) : Prop :=
  match state.workers id with
  | .activate place testFs => place = slot ∧ testFs.position = slot
  | .attached place _ | .stopped place _ =>
      place = slot ∧ (state.fileActivefile id).position = slot
  | _ => False

/-- Entries know their slots, and a file that may be joined is published. -/
structure Located (state : State Thread) : Prop where
  placed : ∀ slot, (state.fileStat slot).state = 0 ∨ (state.fileStat slot).state = reserved ∨
    (state.fileStat slot).position = slot
  copied : ∀ id fh index testFs, state.workers id = .casClaim fh index testFs →
    testFs.position = probe fh index
  published : ∀ slot, state.Io slot → ∃ id, state.Publishes id slot

theorem located_init : Located (State.init : State Thread) where
  placed _ := .inl rfl
  copied _ _ _ _ at_cas := nomatch at_cas
  published _ io := absurd (by decide : (0 : BitVec 64) &&& fsIo = 0) io

variable {state after : State Thread}

/-- A worker moves, and the published slots of the others stay. -/
theorem Located.frame (located : Located state) (id : Id)
    (others : ∀ other, other ≠ id → after.workers other = state.workers other ∧
      after.fileActivefile other = state.fileActivefile other)
    (placed : ∀ slot, after.fileStat slot = state.fileStat slot ∨
      (after.fileStat slot).state = 0 ∨ (after.fileStat slot).position = slot)
    (copied : ∀ fh index testFs, after.workers id = .casClaim fh index testFs →
      testFs.position = probe fh index)
    (io : ∀ slot, after.Io slot →
      after.Publishes id slot ∨ state.Io slot ∧ ¬state.Publishes id slot) : Located after := by
  constructor
  · intro slot
    rcases placed slot with same | zero | position
    · rw [same]
      exact located.placed slot
    · exact .inl zero
    · exact .inr (.inr position)
  · intro other fh index testFs at_cas
    by_cases same : other = id
    · subst same
      exact copied fh index testFs at_cas
    · rw [(others other same).1] at at_cas
      exact located.copied other fh index testFs at_cas
  · intro slot flag
    rcases io slot flag with publishes | ⟨before, not_own⟩
    · exact ⟨id, publishes⟩
    · obtain ⟨other, publishes⟩ := located.published slot before
      have apart : other ≠ id := by
        rintro rfl
        exact not_own publishes
      obtain ⟨worker, active⟩ := others other apart
      refine ⟨other, ?_⟩
      rw [State.Publishes, worker, active]
      exact publishes

/-- A worker that publishes nothing moves without touching the table. -/
theorem Located.pass (located : Located state) {id : Id} {worker : Worker}
    (none : ∀ slot, ¬state.Publishes id slot)
    (copied : ∀ fh index testFs, worker = .casClaim fh index testFs →
      testFs.position = probe fh index) : Located (state.setWorker id worker) := by
  refine located.frame id ?_ (fun _ => .inl rfl) ?_ fun slot flag => .inr ⟨flag, none slot⟩
  · intro other apart
    exact ⟨setWorker_of_ne worker apart, rfl⟩
  · intro fh index testFs at_cas
    rw [setWorker_self] at at_cas
    exact copied fh index testFs at_cas

/-- A worker that publishes nothing sets the word of an entry and moves. -/
theorem Located.word (located : Located state) {id : Id} {worker : Worker} {slot : Nat}
    {word : BitVec 64} (none : ∀ place, place ≠ slot → ¬state.Publishes id place)
    (used : (state.fileStat slot).position = slot)
    (not_cas : ∀ fh index testFs, worker ≠ .casClaim fh index testFs)
    (io : word &&& fsIo ≠ 0 → ((state.setWord slot word).setWorker id worker).Publishes id slot ∨
      state.Io slot ∧ ¬state.Publishes id slot) :
    Located ((state.setWord slot word).setWorker id worker) := by
  have stat_self : ((state.setWord slot word).setWorker id worker).fileStat slot =
      { state.fileStat slot with state := word } := setStat_self ..
  have stat_of_ne : ∀ place, place ≠ slot →
      ((state.setWord slot word).setWorker id worker).fileStat place = state.fileStat place :=
    fun place apart => setStat_of_ne _ apart
  refine located.frame id ?_ ?_ ?_ ?_
  · intro other apart
    exact ⟨setWorker_of_ne worker apart, rfl⟩
  · intro place
    by_cases same : place = slot
    · subst same
      right
      right
      rw [stat_self]
      exact used
    · exact .inl (stat_of_ne place same)
  · intro fh index testFs at_cas
    rw [setWorker_self] at at_cas
    exact absurd at_cas (not_cas fh index testFs)
  · intro place flag
    by_cases same : place = slot
    · subst same
      rw [State.Io, stat_self] at flag
      exact io flag
    · rw [State.Io, stat_of_ne place same] at flag
      exact .inr ⟨flag, none place same⟩

theorem publishes_of_on {id : Id} {slot : Nat} (publishes : state.Publishes id slot) :
    (state.workers id).on = some slot := by
  cases at_worker : state.workers id with
  | activate place _ | attached place _ | stopped place _ =>
      rw [State.Publishes, at_worker] at publishes
      exact congrArg some publishes.1
  | _ =>
      rw [State.Publishes, at_worker] at publishes
      exact publishes.elim

theorem not_publishes {id : Id} (off : (state.workers id).on = none) (slot : Nat) :
    ¬state.Publishes id slot := by
  intro publishes
  have on := publishes_of_on publishes
  rw [off] at on
  cases on

theorem returned_ne_casClaim (slot : Nat) (testFs : FileStat) (fh index : Nat) (copy : FileStat) :
    returned slot testFs ≠ .casClaim fh index copy := by
  rw [returned]
  split <;> simp

theorem decideNext_ne_casClaim (fc fh number index : Nat) (copy : FileStat) :
    decideNext fc fh ≠ .casClaim number index copy := by
  rw [decideNext]
  split
  · simp
  · split <;> simp

/-- A worker that has just published its file. -/
theorem publishes_returned {id : Id} {slot : Nat} {testFs : FileStat}
    (position : (state.fileActivefile id).position = slot) :
    (state.setWorker id (returned slot testFs)).Publishes id slot := by
  by_cases zero : testFs.fd = 0
  · rw [returned, if_pos zero, State.Publishes, setWorker_self]
    exact ⟨rfl, position⟩
  · rw [returned, if_neg zero, State.Publishes, setWorker_self]
    exact ⟨rfl, position⟩

/-- A word that still has bits is not free or reserved. -/
theorem Located.position (located : Located state) {slot : Nat}
    (claimed : ¬Unclaimed (state.fileStat slot).state) :
    (state.fileStat slot).position = slot := by
  rcases located.placed slot with zero | taken | position
  · exact absurd (.inl zero) claimed
  · exact absurd (.inr (.inl taken)) claimed
  · exact position

theorem Located.ready (located : Located state) {slot : Nat}
    (ready : (state.fileStat slot).state = fsInit) : (state.fileStat slot).position = slot := by
  rcases located.placed slot with zero | taken | position
  · exact absurd (ready.symm.trans zero) (by decide)
  · exact absurd (ready.symm.trans taken) (by decide)
  · exact position

theorem not_io_remove (word : BitVec 64) (id : Id) :
    ¬(word &&& ~~~(idBit id ||| fsIo)) &&& fsIo ≠ 0 := by
  rw [not_not, BitVec.and_assoc]
  have none : ~~~(idBit id ||| fsIo) &&& fsIo = 0 := by
    apply BitVec.eq_of_getLsbD_eq
    intro bit small
    rw [BitVec.getLsbD_and, BitVec.getLsbD_not, BitVec.getLsbD_or]
    cases fsIo.getLsbD bit <;> simp
  rw [none]
  exact BitVec.and_zero

theorem Located.failing (located : Located state) {id : Id} (fails : Failing state id after) :
    Located after := by
  cases fails with
  | casHead at_worker | casAttach at_worker | casClaim at_worker =>
      exact located.pass (not_publishes (by rw [at_worker]; rfl)) (by simp)

theorem Located.work (located : Located state) (inv : Inv state) {id : Id}
    (taken : state.work id = some after) : Located after := by
  cases working taken with
  | loadCount at_worker | scanned at_worker | skipped at_worker | ranOut at_worker | anew at_worker
  | copied at_worker _ | passed at_worker | search _ at_worker | last at_worker =>
      exact located.pass (not_publishes (by rw [at_worker]; rfl)) (by simp)
  | loadHead at_worker =>
      exact located.pass (not_publishes (by rw [at_worker]; rfl))
        fun _ _ _ at_cas => (decideNext_ne_casClaim _ _ _ _ _ at_cas).elim
  | addHead at_worker | casHead at_worker _ =>
      have moved : Located (state.setWorker id (.find (state.fileHead + 1) 0)) :=
        located.pass (not_publishes (by rw [at_worker]; rfl)) (by simp)
      exact { moved with }
  | @attach _ slot _ testFs at_worker same =>
      have io : (state.fileStat slot).state &&& fsIo ≠ 0 := by
        rw [same]
        exact inv.comparing id testFs (by rw [at_worker]; rfl)
      have none : ∀ place, ¬state.Publishes id place :=
        not_publishes (by rw [at_worker]; rfl)
      exact located.word (fun place _ => none place) (located.position (claimed_of_io io))
        (returned_ne_casClaim slot testFs) fun _ => .inr ⟨io, none slot⟩
  | found at_worker _ ready =>
      refine located.pass (not_publishes (by rw [at_worker]; rfl)) ?_
      intro number other testFs at_cas
      cases at_cas
      exact located.ready ready
  | @claim fh index testFs at_worker ready =>
      have none : ∀ place, ¬state.Publishes id place :=
        not_publishes (by rw [at_worker]; rfl)
      refine located.word (fun place _ => none place) (located.ready ready) (by simp) fun _ => ?_
      left
      rw [State.Publishes, setWorker_self]
      exact ⟨rfl, located.copied id fh index testFs at_worker⟩
  | activate at_worker =>
      refine located.frame id ?_ (fun _ => .inl rfl) ?_ ?_
      · intro other apart
        refine ⟨setWorker_of_ne _ apart, Function.update_of_ne ?_ ..⟩
        exact fun same => apart (Fin.ext same)
      · intro fh index copy at_cas
        rw [setWorker_self] at at_cas
        exact absurd at_cas (returned_ne_casClaim _ _ _ _ _)
      · intro place flag
        by_cases publishes : state.Publishes id place
        · rw [State.Publishes, at_worker] at publishes
          obtain ⟨rfl, position⟩ := publishes
          left
          apply publishes_returned
          exact (congrArg FileStat.position (Function.update_self ..)).trans position
        · exact .inr ⟨flag, publishes⟩
  | @remove slot _ at_worker =>
      obtain ⟨_, marks⟩ : ∃ io, Marks (state.fileStat slot).state io (state.ids slot) :=
        inv.marks_of_on (by rw [at_worker]; rfl)
      refine located.word ?_ (located.position (Marks.not_unclaimed marks)) ?_ ?_
      · intro place apart publishes
        rw [State.Publishes, at_worker] at publishes
        exact apart publishes.1.symm
      · split <;> simp
      · exact fun io => absurd io (not_io_remove _ id)
  | @wipe slot at_worker =>
      have none : ∀ place, ¬state.Publishes id place :=
          not_publishes (by rw [at_worker]; rfl)
      refine located.frame id ?_ ?_ ?_ ?_
      · intro other apart
        exact ⟨setWorker_of_ne _ apart, rfl⟩
      · intro place
        by_cases same : place = slot
        · subst same
          right
          left
          exact congrArg FileStat.state (setStat_self place FileStat.zero)
        · exact .inl (setStat_of_ne _ same)
      · intro fh index copy at_cas
        rw [setWorker_self] at at_cas
        cases at_cas
      · intro place flag
        refine .inr ⟨?_, none place⟩
        by_cases same : place = slot
        · subst same
          have zero : ((state.setStat place FileStat.zero).fileStat place).state =
              FileStat.zero.state := congrArg FileStat.state (setStat_self ..)
          exact absurd (congrArg (· &&& fsIo) zero) flag
        · have kept : (state.setStat slot FileStat.zero).fileStat place = state.fileStat place :=
            setStat_of_ne _ same
          exact fun none => flag ((congrArg (·.state &&& fsIo) kept).trans none)
  | fails fails => exact located.failing fails

/-- An entry is written while no worker moves. -/
theorem Located.store (located : Located state) (slot : Nat) (stat : FileStat)
    (workers : after.workers = state.workers)
    (active : after.fileActivefile = state.fileActivefile)
    (stats : after.fileStat = Function.update state.fileStat slot stat)
    (placed : stat.state = reserved ∨ stat.position = slot)
    (io : stat.state &&& fsIo ≠ 0 → state.Io slot) : Located after := by
  constructor
  · intro place
    by_cases same : place = slot
    · subst same
      rw [stats, Function.update_self]
      exact .inr placed
    · rw [stats, Function.update_of_ne same]
      exact located.placed place
  · intro id fh index testFs at_cas
    rw [workers] at at_cas
    exact located.copied id fh index testFs at_cas
  · intro place flag
    have before : state.Io place := by
      rw [State.Io, stats] at flag
      by_cases same : place = slot
      · subst same
        rw [Function.update_self] at flag
        exact io flag
      · rwa [Function.update_of_ne same] at flag
    obtain ⟨id, publishes⟩ := located.published place before
    refine ⟨id, ?_⟩
    rw [State.Publishes, workers, active]
    exact publishes

variable [DecidableEq Thread]

theorem Located.add (located : Located state) {thread : Thread}
    (taken : state.add thread = some after) : Located after := by
  cases adding taken with
  | @reserve fileno index fd at_adder small free =>
      exact located.store (probe fileno index) _ (by rfl) (by rfl) (by rfl) (.inl rfl)
        fun io => absurd (by decide : reserved &&& fsIo = 0) io
  | search later at_adder => exact { located with }
  | @fill fileno slot fd at_adder =>
      exact located.store slot (newStat fileno fd slot) (by rfl) (by rfl) (by rfl) (.inr rfl)
        fun io => absurd (by decide : fsInit &&& fsIo = 0) io
  | count at_adder => exact { located with }

theorem Located.next (located : Located state) (inv : Inv state) {label : Label Thread}
    (taken : FileTable.next state label = some after) : Located after := by
  cases label with
  | take thread fd =>
      simp only [FileTable.next] at taken
      split at taken
      · obtain rfl := Option.some.inj taken
        exact { located with }
      · cases taken
  | add thread => exact located.add taken
  | work id => exact located.work inv taken
  | spurious id => exact located.failing (failing_of_spurious taken)
  | update id totals =>
      simp only [FileTable.next, State.update] at taken
      split at taken
      · rename_i slot testFs at_worker
        obtain rfl := Option.some.inj taken
        obtain ⟨_, marks⟩ : ∃ io, Marks (state.fileStat slot).state io (state.ids slot) :=
        inv.marks_of_on (by rw [at_worker]; rfl)
        refine located.store slot { state.fileStat slot with
          blockOffset := totals.blockOffset
          blockTotal := totals.blockTotal
          bytesTotal := totals.bytesTotal
          crc := totals.crc } (by rfl) (by rfl) (by rfl) (.inr ?_) fun io => io
        exact located.position (Marks.not_unclaimed marks)
      · cases taken
  | completeTransfer =>
      obtain rfl := Option.some.inj taken
      exact { located with }

theorem located_reached (reached : (machine Thread).Reached state) : Located state := by
  have both : Inv state ∧ Located state := by
    refine reached.invariant (fun state => Inv state ∧ Located state) ?_ ?_
    · rintro _ rfl
      exact ⟨inv_init, located_init⟩
    · rintro _ label _ ⟨inv, located⟩ _ taken
      exact ⟨inv.next taken, located.next inv taken⟩
  exact both.2

/-! ## The scan -/

omit [DecidableEq Thread] in
/-- A file that may be joined is in the scan, when no other worker is inside `file_next`. -/
theorem Located.active (located : Located state) {id : Id} {slot : Nat}
    (entering : state.workers id = .loadCount)
    (quiet : ∀ other, other ≠ id → (state.workers other).inside = false) (io : state.Io slot) :
    ∃ index < threadCount, (state.fileActivefile index).position = slot := by
  obtain ⟨other, publishes⟩ := located.published slot io
  have small : other.val < threadCount := other.isLt.trans (by decide)
  refine ⟨other, small, ?_⟩
  cases at_other : state.workers other with
  | activate place testFs =>
      have apart : other ≠ id := by
        rintro rfl
        rw [entering] at at_other
        cases at_other
      have outside := quiet other apart
      rw [at_other] at outside
      cases outside
  | attached place testFs | stopped place testFs =>
      rw [State.Publishes, at_other] at publishes
      exact publishes.2
  | _ =>
      rw [State.Publishes, at_other] at publishes
      exact publishes.elim

section Scan

variable {id : Id} {worker moved : Worker}

omit [DecidableEq Thread] in
theorem setWorker_setWorker (moved : Worker) :
    (state.setWorker id worker).setWorker id moved = state.setWorker id moved := by
  simp [State.setWorker]

omit [DecidableEq Thread] in
theorem setWorker_eq (at_worker : state.workers id = worker) :
    state.setWorker id worker = state := by
  rw [← at_worker, State.setWorker, Function.update_eq_self]

omit [DecidableEq Thread] in
theorem work_loadCount : (state.setWorker id .loadCount).work id =
    some (state.setWorker id (.loadHead state.fileCount)) := by
  simp only [State.work, setWorker_self, setWorker_setWorker]
  rfl

omit [DecidableEq Thread] in
/-- Without a new file the scan begins. -/
theorem work_loadHead (settled : state.fileCount ≤ state.fileHead) :
    (state.setWorker id (.loadHead state.fileCount)).work id =
      some (state.setWorker id (.scan 0)) := by
  have decided : decideNext state.fileCount state.fileHead = .scan 0 := by
    rw [decideNext, threadCount]
    rw [if_neg (by omega), if_neg (by omega)]
  rw [← decided]
  simp only [State.work, setWorker_self, setWorker_setWorker]
  rfl

omit [DecidableEq Thread] in
theorem work_scan (state : State Thread) (id : Id) {index : Nat} (small : index < threadCount) :
    (state.setWorker id (.scan index)).work id = some (state.setWorker id
      (if (state.fileActivefile index).position ≠ 0 then
        .copy index (state.fileActivefile index).position
      else .scan (index + 1))) := by
  simp only [State.work, setWorker_self, setWorker_setWorker, if_pos small]
  rfl

omit [DecidableEq Thread] in
theorem work_scan_last {index : Nat} (large : ¬index < threadCount) :
    (state.setWorker id (.scan index)).work id = some (state.setWorker id
      (if state.transferComplete then .exited else .loadCount)) := by
  simp only [State.work, setWorker_self, setWorker_setWorker, if_neg large]
  rfl

omit [DecidableEq Thread] in
theorem work_copy (state : State Thread) (id : Id) (index slot : Nat) :
    (state.setWorker id (.copy index slot)).work id = some (state.setWorker id
      (if state.Io slot then .casAttach index slot (state.fileStat slot) (state.wipes slot)
      else .scan (index + 1))) := by
  simp only [State.work, setWorker_self, setWorker_setWorker]
  rfl

omit [DecidableEq Thread] in
theorem work_casAttach (index slot : Nat) :
    (state.setWorker id
      (.casAttach index slot (state.fileStat slot) (state.wipes slot))).work id =
      some ((state.setWord slot ((state.fileStat slot).state ||| idBit id)).setWorker id
        (returned slot (state.fileStat slot))) := by
  simp only [State.work, setWorker_self]
  rw [if_pos (by rfl)]
  simp [State.setWord, State.setStat, State.setWorker]

/-- A worker that is left alone joins a file in progress. -/
def JoinsFrom (state : State Thread) (id : Id) (worker : Worker) : Prop :=
  ∃ steps slot after,
    (machine Thread).run (state.setWorker id worker) (List.replicate steps (.work id)) =
      some after ∧
      state.Io slot ∧ after.workers id = returned slot (state.fileStat slot) ∧
        after.fileStat = Function.update state.fileStat slot
          { state.fileStat slot with state := (state.fileStat slot).state ||| idBit id }

theorem JoinsFrom.step
    (first : (state.setWorker id worker).work id = some (state.setWorker id moved))
    (joins : JoinsFrom state id moved) : JoinsFrom state id worker := by
  obtain ⟨steps, slot, after, rest, joined⟩ := joins
  refine ⟨steps + 1, slot, after, ?_, joined⟩
  rw [List.replicate_succ, Machine.run_cons]
  change ((state.setWorker id worker).work id).bind _ = _
  rw [first]
  exact rest

theorem joinsFrom_casAttach (index : Nat) {slot : Nat} (io : state.Io slot) :
    JoinsFrom state id (.casAttach index slot (state.fileStat slot) (state.wipes slot)) := by
  refine ⟨1, slot, (state.setWord slot ((state.fileStat slot).state ||| idBit id)).setWorker id
    (returned slot (state.fileStat slot)), ?_, io, setWorker_self .., rfl⟩
  rw [List.replicate_one, Machine.run_cons]
  change ((state.setWorker id _).work id).bind _ = _
  rw [work_casAttach]
  rfl

/-- The scan stops at a published file that may be joined, or before. -/
theorem joinsFrom_scan {slot last : Nat} (io : state.Io slot) (nonzero : slot ≠ 0)
    (small : last < threadCount) (published : (state.fileActivefile last).position = slot)
    (left index : Nat) (apart : index + left = last) : JoinsFrom state id (.scan index) := by
  induction left generalizing index with
  | zero =>
      obtain rfl : index = last := apart
      have scanned := work_scan state id small
      rw [published, if_pos nonzero] at scanned
      have copied := work_copy state id index slot
      rw [if_pos io] at copied
      exact .step scanned (.step copied (joinsFrom_casAttach index io))
  | succ left ih =>
      have rest := ih (index + 1) (by omega)
      have within : index < threadCount := by omega
      have scanned := work_scan state id within
      split at scanned
      · have copied := work_copy state id index
          (state.fileActivefile index).position
        split at copied
        · rename_i active
          exact .step scanned (.step copied (joinsFrom_casAttach index active))
        · exact .step scanned (.step copied rest)
      · exact .step scanned rest

/-- Where a worker is that joins nothing. -/
def Scanning (state : State Thread) : Worker → Prop
  | .loadCount | .scan _ | .exited => True
  | .loadHead fc => fc = state.fileCount
  | .copy _ slot => slot ≠ 0
  | _ => False

omit [DecidableEq Thread] in
/-- When only slot 0 could be joined, the scan goes on. -/
theorem Scanning.work (scanning : Scanning state worker)
    (settled : state.fileCount ≤ state.fileHead) (only : ∀ slot, state.Io slot → slot = 0)
    (taken : (state.setWorker id worker).work id = some after) :
    ∃ moved, Scanning state moved ∧ after = state.setWorker id moved := by
  cases worker with
  | loadCount =>
      rw [work_loadCount] at taken
      refine ⟨_, ?_, (Option.some.inj taken).symm⟩
      rfl
  | loadHead fc =>
      obtain rfl : fc = state.fileCount := scanning
      rw [work_loadHead settled] at taken
      refine ⟨_, ?_, (Option.some.inj taken).symm⟩
      trivial
  | scan index =>
      by_cases small : index < threadCount
      · rw [work_scan _ _ small] at taken
        refine ⟨_, ?_, (Option.some.inj taken).symm⟩
        split
        · assumption
        · trivial
      · rw [work_scan_last small] at taken
        refine ⟨_, ?_, (Option.some.inj taken).symm⟩
        split
        · trivial
        · trivial
  | copy index slot =>
      have none : ¬state.Io slot := fun io => scanning (only slot io)
      rw [work_copy, if_neg none] at taken
      refine ⟨_, ?_, (Option.some.inj taken).symm⟩
      trivial
  | exited => simp [State.work] at taken
  | _ => exact scanning.elim

theorem Scanning.run (scanning : Scanning state worker)
    (settled : state.fileCount ≤ state.fileHead) (only : ∀ slot, state.Io slot → slot = 0)
    (steps : Nat) (taken : (machine Thread).run (state.setWorker id worker)
      (List.replicate steps (.work id)) = some after) :
    ∃ moved, Scanning state moved ∧ after = state.setWorker id moved := by
  induction steps generalizing worker with
  | zero => exact ⟨worker, scanning, (Option.some.inj taken).symm⟩
  | succ steps ih =>
      rw [List.replicate_succ, Machine.run_cons, Option.bind_eq_some_iff] at taken
      obtain ⟨middle, first, rest⟩ := taken
      obtain ⟨moved, still, rfl⟩ := scanning.work settled only first
      exact ih still rest

end Scan

section Joins

variable {id : Id}

theorem Located.joins (located : Located state) (settled : state.fileCount ≤ state.fileHead)
    (quiet : ∀ other, other ≠ id → (state.workers other).inside = false)
    (entering : state.workers id = .loadCount) {slot : Nat} (io : state.Io slot)
    (nonzero : slot ≠ 0) : state.Joins id := by
  obtain ⟨last, small, published⟩ := located.active entering quiet io
  have joins : JoinsFrom state id .loadCount :=
    .step work_loadCount (.step (work_loadHead settled)
      (joinsFrom_scan io nonzero small published last 0 (Nat.zero_add last)))
  rw [JoinsFrom, setWorker_eq entering] at joins
  exact joins

/-- A file in slot 0 is never joined. -/
theorem not_joins (settled : state.fileCount ≤ state.fileHead)
    (entering : state.workers id = .loadCount) (only : ∀ slot, state.Io slot → slot = 0) :
    ¬state.Joins id := by
  rintro ⟨steps, slot, after, taken, -, joined, -⟩
  rw [← setWorker_eq entering] at taken
  have start : Scanning state .loadCount := trivial
  obtain ⟨moved, scanning, rfl⟩ := start.run settled only steps taken
  rw [setWorker_self, returned] at joined
  split at joined
  · rw [joined] at scanning
    exact scanning
  · rw [joined] at scanning
    exact scanning

/-- A worker joins a file in progress exactly if one of them is not in slot 0. -/
theorem joins_iff_slot_ne_zero (reached : (machine Thread).Reached state)
    (settled : state.fileCount ≤ state.fileHead)
    (quiet : ∀ other, other ≠ id → (state.workers other).inside = false)
    (entering : state.workers id = .loadCount) :
    state.Joins id ↔ ∃ slot, state.Io slot ∧ slot ≠ 0 := by
  constructor
  · intro joins
    by_contra none
    refine not_joins settled entering (fun slot io => ?_) joins
    by_contra nonzero
    exact none ⟨slot, io, nonzero⟩
  · rintro ⟨slot, io, nonzero⟩
    exact (located_reached reached).joins settled quiet entering io nonzero

end Joins

/-- Worker 1 claims file 1, which worker 0 can join. -/
def claimOne : List (Label (Fin 1)) := addFile 5 ++ List.replicate 6 (.work 1)

theorem joins_after_claimOne : ∃ state, (machine (Fin 1)).run State.init claimOne = some state ∧
    state.Joins 0 := by
  refine ⟨_, rfl, (joins_iff_slot_ne_zero (Machine.reached_of_run rfl claimOne rfl)
    (by decide +kernel) (by decide +kernel) (by decide +kernel)).mpr
    ⟨probe 1 0, by decide +kernel, by decide +kernel⟩⟩

/-- File 2730 goes to slot 0. -/
theorem probe_zero : probe 2730 0 = 0 := by decide +kernel

/-- Worker 1 sends 2729 files and claims the next one, which worker 0 cannot join. -/
theorem reached_slot_zero : ∃ state : State (Fin 1), (machine (Fin 1)).Reached state ∧
    state.fileCount ≤ state.fileHead ∧
      (∀ other, other ≠ (0 : Id) → (state.workers other).inside = false) ∧
        state.workers 0 = .loadCount ∧ state.Io 0 ∧ ∀ slot, state.Io slot → slot = 0 := by
  have start : (machine (Fin 1)).Reached
      (lone 0 0 0 FileStat.zero .loadCount .loadCount FileStat.zero (fun _ => 0) []) :=
    .start init_lone.symm
  obtain ⟨slot, active, wipes, claimed, before⟩ := reached_sends 0 _ _ _ _ _ 2729 start
  have added := before.run (add_lone 2729 2729 slot .loadCount .loadCount active wipes claimed)
  rw [probe_zero] at added
  have taken := added.run (claim_lone 2729 0 .loadCount active wipes claimed probe_zero)
  refine ⟨_, taken, Nat.le_refl _, ?_, workers_zero .., ?_, ?_⟩
  · intro other apart
    by_cases same : other = 1
    · subst same
      simp [lone, Worker.inside]
    · simp [lone, same, Worker.inside]
  · rw [State.Io]
    simp only [lone, Function.update_self]
    decide
  · intro slot io
    by_contra nonzero
    rw [State.Io] at io
    simp only [lone, Function.update_of_ne nonzero] at io
    exact io (by decide)

/-- Not every file in progress can be joined. -/
theorem not_joins_of_slot_zero :
    ¬∀ (state : State (Fin 1)) (id : Id), (machine (Fin 1)).Reached state →
      state.fileCount ≤ state.fileHead →
        (∀ other, other ≠ id → (state.workers other).inside = false) →
          state.workers id = .loadCount → (∃ slot, state.Io slot) → state.Joins id := by
  intro joins
  obtain ⟨state, reached, settled, quiet, entering, io, only⟩ := reached_slot_zero
  exact not_joins settled entering only (joins state 0 reached settled quiet entering ⟨0, io⟩)

end FileTable
end EScp
