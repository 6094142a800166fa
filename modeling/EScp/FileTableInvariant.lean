import EScp.FileTable

/-!
# The words of the file table

In every interleaving the word of a claimed slot has the bits of the workers that are attached to
it, one worker wipes it, and a file that has been added stays ready in one of its slots until the
worker that was given its number claims it.
-/

namespace EScp
namespace FileTable

open StateWord

variable {Thread : Type*}

/-- The slot that has the bit of a worker. -/
def Worker.on : Worker → Option Nat
  | .activate slot _ | .attached slot _ | .stopped slot _ => some slot
  | _ => none

/-- The slot that a worker is the last to leave. -/
def Worker.closing : Worker → Option Nat
  | .last slot | .wipe slot => some slot
  | _ => none

/-- The number a worker looks for in the second loop of `file_next`. -/
def Worker.waits : Worker → Option Nat
  | .find fh _ | .casClaim fh _ _ => some fh
  | _ => none

/-- The copy of an entry that a worker compares with its slot to attach to it. -/
def Worker.compares : Worker → Option FileStat
  | .casAttach _ _ testFs _ => some testFs
  | _ => none

/-- A file number and the slot reserved for it. -/
def Adder.filling : Adder → Option (Nat × Nat)
  | .fill fileno _ slot => some (fileno, slot)
  | _ => none

/-- The number of a file that is not in the table yet. -/
def Adder.pending : Adder → Option Nat
  | .reserve fileno _ _ | .fill fileno _ _ => some fileno
  | _ => none

/-- The number of a file that `file_count` does not count yet. -/
def Adder.holds : Adder → Option Nat
  | .reserve fileno _ _ | .fill fileno _ _ | .count fileno => some fileno
  | .idle => none

/-- The workers whose bits are set in a slot. -/
def State.ids (state : State Thread) (slot : Nat) : Finset Id :=
  Finset.univ.filter fun id => (state.workers id).on = some slot

/-- The word of an unclaimed slot. -/
def Unclaimed (word : BitVec 64) : Prop := word = 0 ∨ word = reserved ∨ word = fsInit

/-- A word has the bits of the workers of the slot. -/
def Tracks (word : BitVec 64) (ids : Finset Id) : Prop :=
  (∃ io, Marks word io ids) ∨ ids = ∅ ∧ Unclaimed word

/-- A file is ready to be claimed in one of its slots. -/
def State.Ready (state : State Thread) (fileno : Nat) : Prop :=
  ∃ index < fileStatCountCc, (state.fileStat (probe fileno index)).fileNo = fileno ∧
    (state.fileStat (probe fileno index)).state = fsInit

/-- The invariant of the file table. -/
structure Inv (state : State Thread) : Prop where
  words : ∀ slot, Tracks (state.fileStat slot).state (state.ids slot)
  closing : ∀ id slot, (state.workers id).closing = some slot →
    (state.fileStat slot).state = fsComplete ∧
      ∀ other, (state.workers other).closing = some slot → other = id
  filling : ∀ thread fileno slot, (state.adders thread).filling = some (fileno, slot) →
    (state.fileStat slot).state = reserved ∧
      (∃ index < fileStatCountCc, slot = probe fileno index) ∧
      ∀ other otherFileno, (state.adders other).filling = some (otherFileno, slot) → other = thread
  heads : state.claimed.map Prod.fst = (List.range state.fileHead).map (· + 1)
  waiting : ∀ id fh, (state.workers id).waits = some fh → (fh, id) ∈ state.claimed
  candidate : ∀ id fh index testFs, state.workers id = .casClaim fh index testFs →
    (state.fileStat (probe fh index)).state = fsInit ∧
      (state.fileStat (probe fh index)).fileNo = fh ∧ testFs.fileNo = fh ∧
        (state.fileStat (probe fh index)).fd = testFs.fd
  comparing : ∀ id testFs, (state.workers id).compares = some testFs → testFs.state &&& fsIo ≠ 0
  numbers : ∀ thread fileno, (state.adders thread).holds = some fileno →
    1 ≤ fileno ∧ fileno ≤ state.globalFino ∧
      ∀ other, (state.adders other).holds = some fileno → other = thread
  ready : ∀ fileno, 1 ≤ fileno → fileno ≤ state.globalFino →
    (∀ thread, (state.adders thread).pending ≠ some fileno) →
      (state.fileHead < fileno ∨ ∃ id, (state.workers id).waits = some fileno) →
        state.Ready fileno

variable {state after : State Thread}

@[simp] theorem mem_ids {id : Id} {slot : Nat} :
    id ∈ state.ids slot ↔ (state.workers id).on = some slot := by
  simp [State.ids]

@[simp] theorem setWorker_self (id : Id) (worker : Worker) :
    (state.setWorker id worker).workers id = worker := Function.update_self ..

theorem setWorker_of_ne {id other : Id} (worker : Worker) (ne : other ≠ id) :
    (state.setWorker id worker).workers other = state.workers other := Function.update_of_ne ne ..

/-- What is seen of all workers is the same as before when it is the same of the one that moves. -/
theorem view_setWorker {Result : Type} (view : Worker → Result) {id : Id} {worker : Worker}
    (kept : view worker = view (state.workers id)) (other : Id) :
    view ((state.setWorker id worker).workers other) = view (state.workers other) := by
  rcases eq_or_ne other id with rfl | ne
  · rw [setWorker_self, kept]
  · rw [setWorker_of_ne worker ne]

@[simp] theorem setStat_self (slot : Nat) (stat : FileStat) :
    (state.setStat slot stat).fileStat slot = stat := Function.update_self ..

theorem setStat_of_ne {slot other : Nat} (stat : FileStat) (ne : other ≠ slot) :
    (state.setStat slot stat).fileStat other = state.fileStat other := Function.update_of_ne ne ..

/-- The workers of a slot after one has moved. -/
theorem ids_setWorker (state : State Thread) (id : Id) (worker : Worker) (slot : Nat) :
    (state.setWorker id worker).ids slot =
      if worker.on = some slot then insert id (state.ids slot) else (state.ids slot).erase id := by
  ext other
  by_cases same : other = id
  · subst same
    split <;> simp [*]
  · rw [mem_ids, setWorker_of_ne worker same]
    split <;> simp [same]

theorem Tracks.marks {word : BitVec 64} {ids : Finset Id} (tracks : Tracks word ids)
    (claimed : ¬Unclaimed word) : ∃ io, Marks word io ids :=
  tracks.resolve_right fun idle => claimed idle.2

theorem Marks.not_unclaimed {word : BitVec 64} {io : Bool} {ids : Finset Id}
    (marks : Marks word io ids) : ¬Unclaimed word := by
  obtain ⟨not_free, not_reserved, not_ready⟩ := marks.claimed
  rintro (free | taken | ready)
  · exact not_free free
  · exact not_reserved taken
  · exact not_ready ready

/-- The word of a slot to which a worker is attached. -/
theorem Inv.marks_of_on (inv : Inv state) {id : Id} {slot : Nat}
    (on : (state.workers id).on = some slot) :
    ∃ io, Marks (state.fileStat slot).state io (state.ids slot) := by
  refine (inv.words slot).resolve_right ?_
  rintro ⟨none, -⟩
  have mem : id ∈ state.ids slot := mem_ids.mpr on
  rw [none] at mem
  exact absurd mem (Finset.notMem_empty id)

theorem Inv.marks_of_closing (inv : Inv state) {id : Id} {slot : Nat}
    (closing : (state.workers id).closing = some slot) :
    ∃ io, Marks (state.fileStat slot).state io (state.ids slot) := by
  refine (inv.words slot).marks ?_
  rw [(inv.closing id slot closing).1]
  exact Marks.not_unclaimed marks_fsComplete

/-- Nobody is attached to a slot that is being closed. -/
theorem Inv.ids_of_closing (inv : Inv state) {id : Id} {slot : Nat}
    (closing : (state.workers id).closing = some slot) : state.ids slot = ∅ := by
  obtain ⟨io, marks⟩ := inv.marks_of_closing closing
  exact (marks.eq_fsComplete_iff.mp (inv.closing id slot closing).1).2

/-- Nobody is attached to an unclaimed slot. -/
theorem Inv.ids_of_unclaimed (inv : Inv state) {slot : Nat}
    (unclaimed : Unclaimed (state.fileStat slot).state) : state.ids slot = ∅ := by
  rcases inv.words slot with ⟨io, marks⟩ | ⟨none, -⟩
  · exact absurd unclaimed (Marks.not_unclaimed marks)
  · exact none

/-- A number is claimed by one worker. -/
theorem Inv.claimant (inv : Inv state) {fileno : Nat} {left right : Id}
    (left_mem : (fileno, left) ∈ state.claimed) (right_mem : (fileno, right) ∈ state.claimed) :
    left = right := by
  have nodup : (state.claimed.map Prod.fst).Nodup := by
    rw [inv.heads]
    exact List.nodup_range.map fun _ _ same => Nat.succ.inj same
  exact congrArg Prod.snd (List.inj_on_of_nodup_map nodup left_mem right_mem rfl)

theorem Inv.le_head (inv : Inv state) {fileno : Nat} {id : Id}
    (mem : (fileno, id) ∈ state.claimed) : fileno ≤ state.fileHead := by
  have mem_map := List.mem_map_of_mem (f := Prod.fst) mem
  rw [inv.heads] at mem_map
  obtain ⟨index, index_mem, rfl⟩ := List.mem_map.mp mem_map
  exact List.mem_range.mp index_mem

theorem inv_init : Inv (State.init : State Thread) where
  words slot := .inr ⟨by simp [State.ids, State.init, Worker.on], .inl rfl⟩
  closing := by simp [State.init, Worker.closing]
  filling := by simp [State.init, Adder.filling]
  heads := rfl
  waiting := by simp [State.init, Worker.waits]
  candidate := by simp [State.init]
  comparing := by simp [State.init, Worker.compares]
  numbers := by simp [State.init, Adder.holds]
  ready fileno positive bounded := by
    change fileno ≤ 0 at bounded
    omega

/-! ## Steps of a worker -/

/-- A worker moves on without touching the table. -/
theorem Inv.move (inv : Inv state) {id : Id} {worker old : Worker}
    (at_worker : state.workers id = old) (on : worker.on = old.on)
    (closing : worker.closing = old.closing) (waits : worker.waits = old.waits)
    (candidate : ∀ fh index testFs, worker = .casClaim fh index testFs →
      (state.fileStat (probe fh index)).state = fsInit ∧
        (state.fileStat (probe fh index)).fileNo = fh ∧ testFs.fileNo = fh ∧
          (state.fileStat (probe fh index)).fd = testFs.fd)
    (compares : ∀ testFs, worker.compares = some testFs → testFs.state &&& fsIo ≠ 0) :
    Inv (state.setWorker id worker) := by
  subst at_worker
  refine { inv with
    words := ?_
    closing := ?_
    waiting := ?_
    candidate := ?_
    comparing := ?_
    ready := ?_ }
  · intro slot
    have ids_eq : (state.setWorker id worker).ids slot = state.ids slot := by
      ext other
      rw [mem_ids, mem_ids, view_setWorker Worker.on on]
    rw [ids_eq]
    exact inv.words slot
  · intro other slot closes
    rw [view_setWorker Worker.closing closing] at closes
    refine (inv.closing other slot closes).imp_right fun unique another closes => ?_
    rw [view_setWorker Worker.closing closing] at closes
    exact unique another closes
  · intro other fh at_find
    rw [view_setWorker Worker.waits waits] at at_find
    exact inv.waiting other fh at_find
  · intro other fh index testFs at_cas
    by_cases moved : other = id
    · rw [moved, setWorker_self] at at_cas
      exact candidate fh index testFs at_cas
    · rw [setWorker_of_ne worker moved] at at_cas
      exact inv.candidate other fh index testFs at_cas
  · intro other testFs at_cas
    by_cases moved : other = id
    · rw [moved, setWorker_self] at at_cas
      exact compares testFs at_cas
    · rw [setWorker_of_ne worker moved] at at_cas
      exact inv.comparing other testFs at_cas
  · intro fileno positive bounded present unclaimed
    refine inv.ready fileno positive bounded present (unclaimed.imp_right ?_)
    rintro ⟨other, at_find⟩
    rw [view_setWorker Worker.waits waits] at at_find
    exact ⟨other, at_find⟩

/-- `file_head` gives out its next number. -/
theorem Inv.claimHead (inv : Inv state) {id : Id} {old : Worker}
    (at_worker : state.workers id = old) (on : old.on = none) (closing : old.closing = none)
    (waits : old.waits = none) :
    Inv (state.claimHead id) := by
  subst at_worker
  have same {Result : Type} (view : Worker → Result)
      (kept : view (.find (state.fileHead + 1) 0) = view (state.workers id)) (other : Id) :
      view ((state.claimHead id).workers other) = view (state.workers other) :=
    view_setWorker view kept other
  refine { inv with
    words := ?_
    closing := ?_
    heads := ?_
    waiting := ?_
    candidate := ?_
    comparing := ?_
    ready := ?_ }
  · intro slot
    have ids_eq : (state.claimHead id).ids slot = state.ids slot := by
      ext other
      rw [mem_ids, mem_ids, same Worker.on on.symm]
    rw [ids_eq]
    exact inv.words slot
  · intro other slot closes
    rw [same Worker.closing closing.symm] at closes
    refine (inv.closing other slot closes).imp_right fun unique another closes => ?_
    rw [same Worker.closing closing.symm] at closes
    exact unique another closes
  · change (state.claimed ++ [(state.fileHead + 1, id)]).map Prod.fst =
      (List.range (state.fileHead + 1)).map (· + 1)
    rw [List.map_append, inv.heads, List.range_succ, List.map_append]
    rfl
  · intro other fh at_find
    by_cases moved : other = id
    · have fh_eq : state.fileHead + 1 = fh := by
        rw [moved] at at_find
        exact Option.some.inj ((congrArg Worker.waits (setWorker_self ..)).symm.trans at_find)
      rw [moved, ← fh_eq]
      exact List.mem_append_right _ List.mem_cons_self
    · refine List.mem_append_left _ (inv.waiting other fh ?_)
      exact (congrArg Worker.waits (setWorker_of_ne _ moved)).symm.trans at_find
  · intro other fh index testFs at_cas
    by_cases moved : other = id
    · rw [moved] at at_cas
      cases (setWorker_self ..).symm.trans at_cas
    · exact inv.candidate other fh index testFs ((setWorker_of_ne _ moved).symm.trans at_cas)
  · intro other testFs at_cas
    by_cases moved : other = id
    · rw [moved] at at_cas
      cases (congrArg Worker.compares (setWorker_self ..)).symm.trans at_cas
    · refine inv.comparing other testFs ?_
      exact (congrArg Worker.compares (setWorker_of_ne _ moved)).symm.trans at_cas
  · intro fileno positive bounded present unclaimed
    refine inv.ready fileno positive bounded present ?_
    rcases unclaimed with later | ⟨other, at_find⟩
    · exact .inl (Nat.lt_of_succ_lt later)
    · by_cases moved : other = id
      · have fh_eq : state.fileHead + 1 = fileno := by
          rw [moved] at at_find
          exact Option.some.inj ((congrArg Worker.waits (setWorker_self ..)).symm.trans at_find)
        exact .inl (by omega)
      · exact .inr ⟨other, (congrArg Worker.waits (setWorker_of_ne _ moved)).symm.trans at_find⟩

/-- A worker writes to a slot that is not reserved, and that it has found ready if it is. -/
theorem Inv.store (inv : Inv state) {id : Id} {worker : Worker} {slot : Nat} {stat : FileStat}
    (before : ∀ other, (state.workers id).on = some other → other = slot)
    (later : ∀ other, worker.on = some other → other = slot)
    (tracks : Tracks stat.state ((state.setWorker id worker).ids slot))
    (closes : ∀ other, worker.closing = some other → other = slot ∧ stat.state = fsComplete)
    (closed : ∀ other, (state.workers other).closing = some slot → other = id)
    (waits : worker.waits = none) (compares : worker.compares = none)
    (not_reserved : (state.fileStat slot).state ≠ reserved)
    (found : (state.fileStat slot).state = fsInit →
      (state.workers id).waits = some (state.fileStat slot).fileNo) :
    Inv ((state.setStat slot stat).setWorker id worker) := by
  refine { inv with
    words := ?_
    closing := ?_
    filling := ?_
    waiting := ?_
    candidate := ?_
    comparing := ?_
    ready := ?_ }
  · intro other
    by_cases here : other = slot
    · rw [here]
      have stat_eq : ((state.setStat slot stat).setWorker id worker).fileStat slot = stat :=
        setStat_self ..
      rw [stat_eq]
      exact tracks
    · have stat_eq : ((state.setStat slot stat).setWorker id worker).fileStat other =
          state.fileStat other := setStat_of_ne _ here
      have ids_eq :
          ((state.setStat slot stat).setWorker id worker).ids other = state.ids other := by
        refine (ids_setWorker _ id worker other).trans ?_
        rw [if_neg fun on => here (later other on)]
        refine Finset.erase_eq_of_notMem fun mem => ?_
        exact here (before other (mem_ids.mp mem))
      rw [stat_eq, ids_eq]
      exact inv.words other
  · intro closer other closes_other
    by_cases moved : closer = id
    · rw [moved, setWorker_self] at closes_other
      obtain ⟨rfl, complete⟩ := closes other closes_other
      refine ⟨(congrArg FileStat.state (setStat_self ..)).trans complete, ?_⟩
      intro another closes_another
      by_contra ne
      rw [moved] at ne
      rw [setWorker_of_ne worker ne] at closes_another
      exact ne (closed another closes_another)
    · rw [setWorker_of_ne worker moved] at closes_other
      have elsewhere : other ≠ slot := by
        rintro rfl
        exact moved (closed closer closes_other)
      obtain ⟨complete, unique⟩ := inv.closing closer other closes_other
      refine ⟨(congrArg FileStat.state (setStat_of_ne _ elsewhere)).trans complete, ?_⟩
      intro another closes_another
      by_cases also_moved : another = id
      · rw [also_moved, setWorker_self] at closes_another
        exact absurd (closes other closes_another).1 elsewhere
      · rw [setWorker_of_ne worker also_moved] at closes_another
        exact unique another closes_another
  · intro thread fileno other fills
    obtain ⟨taken, rest⟩ := inv.filling thread fileno other fills
    have elsewhere : other ≠ slot := by
      rintro rfl
      exact not_reserved taken
    exact ⟨(congrArg FileStat.state (setStat_of_ne _ elsewhere)).trans taken, rest⟩
  · intro other fh at_find
    by_cases moved : other = id
    · rw [moved, setWorker_self, waits] at at_find
      cases at_find
    · rw [setWorker_of_ne worker moved] at at_find
      exact inv.waiting other fh at_find
  · intro other fh index testFs at_cas
    by_cases moved : other = id
    · rw [moved, setWorker_self] at at_cas
      rw [at_cas] at waits
      cases waits
    · rw [setWorker_of_ne worker moved] at at_cas
      obtain ⟨ready, fileno_eq, rest⟩ := inv.candidate other fh index testFs at_cas
      have elsewhere : probe fh index ≠ slot := by
        intro here
        rw [here] at ready fileno_eq
        have own := inv.waiting id _ (found ready)
        have others := inv.waiting other fh (congrArg Worker.waits at_cas)
        rw [fileno_eq] at own
        exact moved (inv.claimant others own)
      have stat_eq : ((state.setStat slot stat).setWorker id worker).fileStat (probe fh index) =
          state.fileStat (probe fh index) := setStat_of_ne _ elsewhere
      rw [stat_eq]
      exact ⟨ready, fileno_eq, rest⟩
  · intro other testFs at_cas
    by_cases moved : other = id
    · rw [moved, setWorker_self, compares] at at_cas
      cases at_cas
    · rw [setWorker_of_ne worker moved] at at_cas
      exact inv.comparing other testFs at_cas
  · intro fileno positive bounded present unclaimed
    have unclaimed_before : state.fileHead < fileno ∨
        ∃ other, other ≠ id ∧ (state.workers other).waits = some fileno := by
      refine unclaimed.imp_right ?_
      rintro ⟨other, at_find⟩
      by_cases moved : other = id
      · rw [moved, setWorker_self, waits] at at_find
        cases at_find
      · rw [setWorker_of_ne worker moved] at at_find
        exact ⟨other, moved, at_find⟩
    obtain ⟨index, small, fileno_eq, ready⟩ := inv.ready fileno positive bounded present
      (unclaimed_before.imp_right fun ⟨other, _, at_find⟩ => ⟨other, at_find⟩)
    have elsewhere : probe fileno index ≠ slot := by
      intro here
      rw [here] at fileno_eq ready
      have own := inv.waiting id _ (found ready)
      rw [fileno_eq] at own
      rcases unclaimed_before with later | ⟨other, ne, at_find⟩
      · exact absurd (inv.le_head own) (by omega)
      · exact ne (inv.claimant (inv.waiting other fileno at_find) own)
    refine ⟨index, small, ?_⟩
    have stat_eq : ((state.setStat slot stat).setWorker id worker).fileStat (probe fileno index) =
        state.fileStat (probe fileno index) := setStat_of_ne _ elsewhere
    rw [stat_eq]
    exact ⟨fileno_eq, ready⟩

/-! ## Steps that claim, attach, leave and wipe -/

theorem returned_on (slot : Nat) (testFs : FileStat) : (returned slot testFs).on = some slot := by
  rw [returned]
  split <;> rfl

theorem returned_closing (slot : Nat) (testFs : FileStat) :
    (returned slot testFs).closing = none := by
  rw [returned]
  split <;> rfl

theorem returned_waits (slot : Nat) (testFs : FileStat) : (returned slot testFs).waits = none := by
  rw [returned]
  split <;> rfl

theorem returned_compares (slot : Nat) (testFs : FileStat) :
    (returned slot testFs).compares = none := by
  rw [returned]
  split <;> rfl

/-- Nobody closes a slot that is not complete. -/
theorem Inv.not_closing (inv : Inv state) {slot : Nat}
    (going : (state.fileStat slot).state ≠ fsComplete) (id : Id) :
    (state.workers id).closing ≠ some slot := fun closes =>
  going (inv.closing id slot closes).1

theorem claimed_of_io {word : BitVec 64} (io : word &&& fsIo ≠ 0) : ¬Unclaimed word := by
  rintro (word_eq | word_eq | word_eq) <;>
  · rw [word_eq] at io
    exact absurd io (by decide)

theorem Inv.attach (inv : Inv state) {id : Id} {index slot wipes : Nat} {testFs : FileStat}
    (at_cas : state.workers id = .casAttach index slot testFs wipes)
    (io : testFs.state &&& fsIo ≠ 0) (same : (state.fileStat slot).state = testFs.state) :
    Inv ((state.setWord slot (testFs.state ||| idBit id)).setWorker id (returned slot testFs)) := by
  have claimed : ¬Unclaimed (state.fileStat slot).state := by
    rw [same]
    exact claimed_of_io io
  obtain ⟨flag, marks⟩ := (inv.words slot).marks claimed
  have flag_eq : flag = true := by
    rw [same] at marks
    exact marks.and_fsIo.mp io
  refine inv.store (by simp [at_cas, Worker.on]) ?_ ?_ (by simp [returned_closing]) ?_
    (returned_waits ..) (returned_compares ..) (fun taken => claimed (.inr (.inl taken)))
    fun ready => absurd (.inr (.inr ready)) claimed
  · intro other on
    rw [returned_on] at on
    exact (Option.some.inj on).symm
  · rw [ids_setWorker, if_pos (returned_on ..), ← same]
    exact .inl ⟨flag, marks.attach id⟩
  · intro other closes
    have complete := (inv.closing other slot closes).1
    rw [(marks.eq_fsComplete_iff.mp complete).1] at flag_eq
    cases flag_eq

theorem Inv.claim (inv : Inv state) {id : Id} {fh index : Nat} {testFs : FileStat}
    (at_cas : state.workers id = .casClaim fh index testFs) :
    Inv ((state.setWord (probe fh index) (fsComplete ||| fsIo ||| idBit id)).setWorker id
      (.activate (probe fh index) testFs)) := by
  obtain ⟨ready, fileno_eq, -⟩ := inv.candidate id fh index testFs at_cas
  refine inv.store (by simp [at_cas, Worker.on]) ?_ ?_ (by simp [Worker.closing]) ?_ rfl rfl
    (by rw [ready]; decide) fun _ => by rw [at_cas, fileno_eq]; rfl
  · intro other on
    exact (Option.some.inj on).symm
  · have on : (Worker.activate (probe fh index) testFs).on = some (probe fh index) := rfl
    rw [ids_setWorker, if_pos on, inv.ids_of_unclaimed (.inr (.inr ready))]
    exact .inl ⟨true, marks_claim id⟩
  · intro other closes
    exact absurd closes (inv.not_closing (by rw [ready]; decide) other)

theorem Inv.iowRemove (inv : Inv state) {id : Id} {slot : Nat} {testFs : FileStat}
    (at_attached : state.workers id = .attached slot testFs) : Inv (state.iowRemove id slot) := by
  have on : (state.workers id).on = some slot := by rw [at_attached]; rfl
  obtain ⟨io, marks⟩ := inv.marks_of_on on
  have removed := marks.remove id
  have not_closing : ∀ other, (state.workers other).closing ≠ some slot := by
    intro other closes
    have mem : id ∈ state.ids slot := mem_ids.mpr on
    rw [inv.ids_of_closing closes] at mem
    exact absurd mem (Finset.notMem_empty id)
  unfold State.iowRemove
  dsimp only
  by_cases last : (state.fileStat slot).state &&& ~~~(idBit id ||| fsIo) = fsComplete
  · rw [if_pos last]
    refine inv.store (by simp [at_attached, Worker.on]) (by simp [Worker.on]) ?_ ?_
      (fun other closes => absurd closes (not_closing other)) rfl rfl marks.claimed.2.1
      fun ready => absurd ready marks.claimed.2.2
    · rw [ids_setWorker, if_neg (by simp [Worker.on])]
      exact .inl ⟨false, removed⟩
    · intro other closes
      exact ⟨(Option.some.inj closes).symm, last⟩
  · rw [if_neg last]
    refine inv.store (by simp [at_attached, Worker.on]) (by simp [Worker.on]) ?_
      (by simp [Worker.closing]) (fun other closes => absurd closes (not_closing other)) rfl rfl
      marks.claimed.2.1 fun ready => absurd ready marks.claimed.2.2
    rw [ids_setWorker, if_neg (by simp [Worker.on])]
    exact .inl ⟨false, removed⟩

theorem Inv.wipe (inv : Inv state) {id : Id} {slot : Nat}
    (at_wipe : state.workers id = .wipe slot) :
    Inv ((state.setStat slot FileStat.zero).setWorker id .loadCount) := by
  have closing : (state.workers id).closing = some slot := by rw [at_wipe]; rfl
  obtain ⟨complete, unique⟩ := inv.closing id slot closing
  refine inv.store (by simp [at_wipe, Worker.on]) (by simp [Worker.on]) ?_
    (by simp [Worker.closing]) unique rfl rfl (by rw [complete]; decide) fun ready => ?_
  · rw [ids_setWorker, if_neg (by simp [Worker.on]), inv.ids_of_closing closing]
    exact .inr ⟨Finset.erase_empty id, .inl rfl⟩
  · rw [complete] at ready
    exact absurd ready (by decide)

theorem Inv.update (inv : Inv state) {id : Id} {slot : Nat} {testFs : FileStat}
    (at_attached : state.workers id = .attached slot testFs) {stat : FileStat}
    (same : stat.state = (state.fileStat slot).state) : Inv (state.setStat slot stat) := by
  have on : (state.workers id).on = some slot := by rw [at_attached]; rfl
  obtain ⟨io, marks⟩ := inv.marks_of_on on
  have kept : (state.setStat slot stat).setWorker id (.attached slot testFs) =
      state.setStat slot stat := by
    have workers_eq : Function.update state.workers id (.attached slot testFs) = state.workers := by
      rw [← at_attached, Function.update_eq_self]
    exact congrArg (fun workers => { state.setStat slot stat with workers }) workers_eq
  rw [← kept]
  refine inv.store (by simp [at_attached, Worker.on]) (by simp [Worker.on]) ?_
    (by simp [Worker.closing]) ?_ rfl rfl marks.claimed.2.1
    fun ready => absurd ready marks.claimed.2.2
  · have later : (Worker.attached slot testFs).on = some slot := rfl
    rw [ids_setWorker, if_pos later, Finset.insert_eq_of_mem (mem_ids.mpr on), same]
    exact .inl ⟨io, marks⟩
  · intro other closes
    have mem : id ∈ state.ids slot := mem_ids.mpr on
    rw [inv.ids_of_closing closes] at mem
    exact absurd mem (Finset.notMem_empty id)

/-- The decision of `file_next` leads to no slot. -/
theorem decideNext_views (fc fh : Nat) : (decideNext fc fh).on = none ∧
    (decideNext fc fh).closing = none ∧ (decideNext fc fh).waits = none ∧
      (decideNext fc fh).compares = none := by
  rw [decideNext]
  split
  · exact ⟨rfl, rfl, rfl, rfl⟩
  · split <;> exact ⟨rfl, rfl, rfl, rfl⟩

/-- A worker moves on to a place where it compares nothing. -/
theorem Inv.pass (inv : Inv state) {id : Id} {worker old : Worker}
    (at_worker : state.workers id = old) (on : worker.on = old.on)
    (closing : worker.closing = old.closing) (waits : worker.waits = old.waits)
    (no_claim : ∀ fh index testFs, worker ≠ .casClaim fh index testFs)
    (compares : worker.compares = none) : Inv (state.setWorker id worker) := by
  refine inv.move at_worker on closing waits
    (fun fh index testFs eq => absurd eq (no_claim fh index testFs)) ?_
  intro testFs compared
  rw [compares] at compared
  cases compared

/-- A compare and swap fails. -/
inductive Failing (state : State Thread) (id : Id) : State Thread → Prop
  | casHead {fh : Nat} : state.workers id = .casHead fh →
      Failing state id (state.setWorker id .loadCount)
  | casAttach {index slot wipes : Nat} {testFs : FileStat} :
      state.workers id = .casAttach index slot testFs wipes →
      Failing state id (state.setWorker id (.scan (index + 1)))
  | casClaim {fh index : Nat} {testFs : FileStat} :
      state.workers id = .casClaim fh index testFs →
      Failing state id (state.setWorker id (.find fh (index + 1)))

theorem failing_of_spurious {id : Id} (taken : state.spurious id = some after) :
    Failing state id after := by
  rw [State.spurious] at taken
  cases at_worker : state.workers id with
  | casHead fh =>
      simp only [at_worker, Option.some.injEq] at taken
      exact taken ▸ .casHead at_worker
  | casAttach index slot testFs wipes =>
      simp only [at_worker, Option.some.injEq] at taken
      exact taken ▸ .casAttach at_worker
  | casClaim fh index testFs =>
      simp only [at_worker, Option.some.injEq] at taken
      exact taken ▸ .casClaim at_worker
  | _ => simp [at_worker] at taken

/-- What a step of a worker does. -/
inductive Working (state : State Thread) (id : Id) : State Thread → Prop
  | loadCount : state.workers id = .loadCount →
      Working state id (state.setWorker id (.loadHead state.fileCount))
  | loadHead {fc : Nat} : state.workers id = .loadHead fc →
      Working state id (state.setWorker id (decideNext fc state.fileHead))
  | addHead : state.workers id = .addHead → Working state id (state.claimHead id)
  | casHead {fh : Nat} : state.workers id = .casHead fh → state.fileHead = fh →
      Working state id (state.claimHead id)
  | scanned {index slot : Nat} : state.workers id = .scan index →
      Working state id (state.setWorker id (.copy index slot))
  | skipped {index : Nat} : state.workers id = .scan index →
      Working state id (state.setWorker id (.scan (index + 1)))
  | ranOut {index : Nat} : state.workers id = .scan index →
      Working state id (state.setWorker id .exited)
  | anew {index : Nat} : state.workers id = .scan index →
      Working state id (state.setWorker id .loadCount)
  | copied {index slot : Nat} : state.workers id = .copy index slot →
      (state.fileStat slot).state &&& fsIo ≠ 0 →
      Working state id
        (state.setWorker id (.casAttach index slot (state.fileStat slot) (state.wipes slot)))
  | passed {index slot : Nat} : state.workers id = .copy index slot →
      Working state id (state.setWorker id (.scan (index + 1)))
  | attach {index slot wipes : Nat} {testFs : FileStat} :
      state.workers id = .casAttach index slot testFs wipes →
      (state.fileStat slot).state = testFs.state →
      Working state id
        ((state.setWord slot (testFs.state ||| idBit id)).setWorker id (returned slot testFs))
  | found {fh index : Nat} : state.workers id = .find fh index →
      (state.fileStat (probe fh index)).fileNo = fh →
      (state.fileStat (probe fh index)).state = fsInit →
      Working state id
        (state.setWorker id (.casClaim fh index (state.fileStat (probe fh index))))
  | search {fh index : Nat} (later : Nat) : state.workers id = .find fh index →
      Working state id (state.setWorker id (.find fh later))
  | claim {fh index : Nat} {testFs : FileStat} : state.workers id = .casClaim fh index testFs →
      (state.fileStat (probe fh index)).state = fsInit →
      Working state id
        ((state.setWord (probe fh index) (fsComplete ||| fsIo ||| idBit id)).setWorker id
          (.activate (probe fh index) testFs))
  | activate {slot : Nat} {testFs : FileStat} : state.workers id = .activate slot testFs →
      Working state id
        ({ state with
          fileActivefile := Function.update state.fileActivefile id testFs }.setWorker id
            (returned slot testFs))
  | remove {slot : Nat} {testFs : FileStat} : state.workers id = .attached slot testFs →
      Working state id (state.iowRemove id slot)
  | last {slot : Nat} : state.workers id = .last slot →
      Working state id (state.setWorker id (.wipe slot))
  | wipe {slot : Nat} : state.workers id = .wipe slot →
      Working state id
        ({ state.setStat slot FileStat.zero with
          wipes := Function.update state.wipes slot (state.wipes slot + 1) }.setWorker id
            .loadCount)
  | fails {after : State Thread} : Failing state id after → Working state id after

theorem working {id : Id} (taken : state.work id = some after) : Working state id after := by
  rw [State.work] at taken
  cases at_worker : state.workers id with
  | loadCount =>
      simp only [at_worker, Option.some.injEq] at taken
      exact taken ▸ .loadCount at_worker
  | loadHead fc =>
      simp only [at_worker, Option.some.injEq] at taken
      exact taken ▸ .loadHead at_worker
  | addHead =>
      simp only [at_worker, Option.some.injEq] at taken
      exact taken ▸ .addHead at_worker
  | casHead fh =>
      simp only [at_worker] at taken
      split at taken <;> obtain rfl := Option.some.inj taken
      · exact .casHead at_worker ‹_›
      · exact .fails (.casHead at_worker)
  | scan index =>
      simp only [at_worker] at taken
      split at taken <;> obtain rfl := Option.some.inj taken <;> split
      · exact .scanned at_worker
      · exact .skipped at_worker
      · exact .ranOut at_worker
      · exact .anew at_worker
  | copy index slot =>
      simp only [at_worker, Option.some.injEq] at taken
      subst taken
      split
      · exact .copied at_worker ‹_›
      · exact .passed at_worker
  | casAttach index slot testFs wipes =>
      simp only [at_worker] at taken
      split at taken <;> obtain rfl := Option.some.inj taken
      · exact .attach at_worker ‹_›
      · exact .fails (.casAttach at_worker)
  | find fh index =>
      simp only [at_worker] at taken
      split at taken <;> obtain rfl := Option.some.inj taken
      · split
        · rename_i matching
          exact .found at_worker matching.1 matching.2
        · exact .search _ at_worker
      · exact .search _ at_worker
  | casClaim fh index testFs =>
      simp only [at_worker] at taken
      split at taken <;> obtain rfl := Option.some.inj taken
      · exact .claim at_worker ‹_›
      · exact .fails (.casClaim at_worker)
  | activate slot testFs =>
      simp only [at_worker, Option.some.injEq] at taken
      exact taken ▸ .activate at_worker
  | attached slot testFs =>
      simp only [at_worker, Option.some.injEq] at taken
      exact taken ▸ .remove at_worker
  | last slot =>
      simp only [at_worker, Option.some.injEq] at taken
      exact taken ▸ .last at_worker
  | wipe slot =>
      simp only [at_worker, Option.some.injEq] at taken
      exact taken ▸ .wipe at_worker
  | stopped slot testFs | exited => simp [at_worker] at taken

theorem Inv.failing (inv : Inv state) {id : Id} (fails : Failing state id after) : Inv after := by
  cases fails with
  | casHead at_worker | casAttach at_worker | casClaim at_worker =>
      exact inv.pass at_worker rfl rfl rfl (by simp) rfl

theorem Inv.work (inv : Inv state) {id : Id} (taken : state.work id = some after) : Inv after := by
  cases working taken with
  | loadCount at_worker | scanned at_worker | skipped at_worker | ranOut at_worker | anew at_worker
  | passed at_worker | search _ at_worker | last at_worker =>
      exact inv.pass at_worker rfl rfl rfl (by simp) rfl
  | @loadHead fc at_worker =>
      obtain ⟨on, closing, waits, compares⟩ := decideNext_views fc state.fileHead
      refine inv.pass at_worker on closing waits ?_ compares
      intro fh index testFs eq
      rw [eq] at waits
      cases waits
  | addHead at_worker | casHead at_worker _ => exact inv.claimHead at_worker rfl rfl rfl
  | copied at_worker io =>
      refine inv.move at_worker rfl rfl rfl (by simp) ?_
      intro testFs compared
      obtain rfl := Option.some.inj compared
      exact io
  | @attach _ _ _ testFs at_worker same =>
      exact inv.attach at_worker (inv.comparing id testFs (by rw [at_worker]; rfl)) same
  | found at_worker number ready =>
      refine inv.move at_worker rfl rfl rfl ?_ (by simp [Worker.compares])
      intro fh' index' testFs eq
      cases eq
      exact ⟨ready, number, number, rfl⟩
  | claim at_worker _ => exact inv.claim at_worker
  | @activate slot testFs at_worker =>
      have moved : Inv (state.setWorker id (returned slot testFs)) := by
        refine inv.pass at_worker (returned_on ..) (returned_closing ..) (returned_waits ..) ?_
          (returned_compares ..)
        intro fh index testFs' eq
        have waits := returned_waits slot testFs
        rw [eq] at waits
        cases waits
      exact { moved with }
  | remove at_worker => exact inv.iowRemove at_worker
  | wipe at_worker => exact { inv.wipe at_worker with }
  | fails fails => exact inv.failing fails

/-! ## Steps of a thread that adds files -/

variable [DecidableEq Thread]

@[simp] theorem setAdder_self (thread : Thread) (adder : Adder) :
    (state.setAdder thread adder).adders thread = adder := Function.update_self ..

theorem setAdder_of_ne {thread other : Thread} (adder : Adder) (ne : other ≠ thread) :
    (state.setAdder thread adder).adders other = state.adders other := Function.update_of_ne ne ..

/-- What is seen of all threads is the same as before when it is the same of the one that moves. -/
theorem view_setAdder {Result : Type} (view : Adder → Result) {thread : Thread} {adder : Adder}
    (kept : view adder = view (state.adders thread)) (other : Thread) :
    view ((state.setAdder thread adder).adders other) = view (state.adders other) := by
  rcases eq_or_ne other thread with rfl | ne
  · rw [setAdder_self, kept]
  · rw [setAdder_of_ne adder ne]

/-- What a step of `file_addfile` does. -/
inductive Adding (state : State Thread) (thread : Thread) : State Thread → Prop
  | reserve {fileno index : Nat} {fd : Int} :
      state.adders thread = .reserve fileno fd index → index < fileStatCountCc →
      (state.fileStat (probe fileno index)).state = 0 →
      Adding state thread ((state.setWord (probe fileno index) reserved).setAdder thread
        (.fill fileno fd (probe fileno index)))
  | search {fileno index : Nat} {fd : Int} (later : Nat) :
      state.adders thread = .reserve fileno fd index →
      Adding state thread (state.setAdder thread (.reserve fileno fd later))
  | fill {fileno slot : Nat} {fd : Int} : state.adders thread = .fill fileno fd slot →
      Adding state thread ((state.setStat slot (newStat fileno fd slot)).setAdder thread
        (.count fileno))
  | count {fileno : Nat} : state.adders thread = .count fileno →
      Adding state thread ({ state with fileCount := state.fileCount + 1 }.setAdder thread .idle)

theorem adding {thread : Thread} (taken : state.add thread = some after) :
    Adding state thread after := by
  rw [State.add] at taken
  cases at_adder : state.adders thread with
  | idle => simp [at_adder] at taken
  | reserve fileno fd index =>
      simp only [at_adder] at taken
      split at taken
      · rename_i small
        split at taken <;> obtain rfl := Option.some.inj taken
        · rename_i free
          exact .reserve at_adder small free
        · exact .search _ at_adder
      · obtain rfl := Option.some.inj taken
        exact .search _ at_adder
  | fill fileno fd slot =>
      simp only [at_adder, Option.some.injEq] at taken
      subst taken
      exact .fill at_adder
  | count fileno =>
      simp only [at_adder, Option.some.injEq] at taken
      subst taken
      exact .count at_adder

/-- A thread moves on without touching the table. -/
theorem Inv.moveAdder (inv : Inv state) {thread : Thread} {adder old : Adder}
    (at_adder : state.adders thread = old) (filling : adder.filling = none)
    (holds : ∀ fileno, adder.holds = some fileno → old.holds = some fileno)
    (pending : adder.pending = old.pending) : Inv (state.setAdder thread adder) := by
  refine { inv with filling := ?_, numbers := ?_, ready := ?_ }
  · intro other fileno slot fills
    by_cases moved : other = thread
    · rw [moved, setAdder_self, filling] at fills
      cases fills
    · rw [setAdder_of_ne adder moved] at fills
      obtain ⟨taken, probed, unique⟩ := inv.filling other fileno slot fills
      refine ⟨taken, probed, fun another otherFileno also_fills => ?_⟩
      by_cases also_moved : another = thread
      · rw [also_moved, setAdder_self, filling] at also_fills
        cases also_fills
      · rw [setAdder_of_ne adder also_moved] at also_fills
        exact unique another otherFileno also_fills
  · have before : ∀ other fileno, ((state.setAdder thread adder).adders other).holds = some fileno →
        (state.adders other).holds = some fileno := by
      intro other fileno held
      by_cases moved : other = thread
      · rw [moved, setAdder_self] at held
        rw [moved, at_adder]
        exact holds fileno held
      · rwa [setAdder_of_ne adder moved] at held
    intro other fileno held
    obtain ⟨positive, bounded, unique⟩ := inv.numbers other fileno (before other fileno held)
    exact ⟨positive, bounded, fun another also_held =>
      unique another (before another fileno also_held)⟩
  · intro fileno positive bounded present
    refine inv.ready fileno positive bounded fun other => ?_
    have absent := present other
    rwa [view_setAdder Adder.pending (by rw [pending, at_adder])] at absent

theorem Inv.take (inv : Inv state) {thread : Thread} (at_idle : state.adders thread = .idle)
    (fd : Int) : Inv ({ state with globalFino := state.globalFino + 1 }.setAdder thread
      (.reserve (1 + state.globalFino) fd 0)) := by
  have others : ∀ other, other ≠ thread →
      ({ state with globalFino := state.globalFino + 1 }.setAdder thread
        (.reserve (1 + state.globalFino) fd 0)).adders other = state.adders other :=
    fun other ne => setAdder_of_ne _ ne
  refine { inv with filling := ?_, numbers := ?_, ready := ?_ }
  · intro other fileno slot fills
    by_cases moved : other = thread
    · rw [moved, setAdder_self] at fills
      cases fills
    · rw [others other moved] at fills
      obtain ⟨taken, probed, unique⟩ := inv.filling other fileno slot fills
      refine ⟨taken, probed, fun another otherFileno also_fills => ?_⟩
      by_cases also_moved : another = thread
      · rw [also_moved, setAdder_self] at also_fills
        cases also_fills
      · rw [others another also_moved] at also_fills
        exact unique another otherFileno also_fills
  · intro other fileno held
    by_cases moved : other = thread
    · rw [moved, setAdder_self] at held
      obtain rfl := Option.some.inj held
      refine ⟨by omega, Nat.le_of_eq (Nat.add_comm ..), fun another also_held => ?_⟩
      by_contra ne
      rw [moved] at ne
      rw [others another ne] at also_held
      have bounded := (inv.numbers another _ also_held).2.1
      omega
    · rw [others other moved] at held
      obtain ⟨positive, bounded, unique⟩ := inv.numbers other fileno held
      refine ⟨positive, Nat.le_succ_of_le bounded, fun another also_held => ?_⟩
      by_cases also_moved : another = thread
      · rw [also_moved, setAdder_self] at also_held
        have fileno_eq := Option.some.inj also_held
        omega
      · rw [others another also_moved] at also_held
        exact unique another also_held
  · intro fileno positive bounded present
    have bounded_before : fileno ≤ state.globalFino := by
      have absent := present thread
      rw [setAdder_self] at absent
      have ne : 1 + state.globalFino ≠ fileno := fun same => absent (congrArg some same)
      change fileno ≤ state.globalFino + 1 at bounded
      omega
    refine inv.ready fileno positive bounded_before fun other => ?_
    by_cases moved : other = thread
    · rw [moved, at_idle]
      simp [Adder.pending]
    · have absent := present other
      rwa [others other moved] at absent

/-- A thread writes to a slot that is free, or that it has reserved. -/
theorem Inv.put (inv : Inv state) {thread : Thread} {adder old : Adder} {slot : Nat}
    {stat : FileStat} (at_adder : state.adders thread = old)
    (was : (state.fileStat slot).state = 0 ∨ (state.fileStat slot).state = reserved)
    (unclaimed : Unclaimed stat.state)
    (filling : ∀ fileno other, adder.filling = some (fileno, other) →
      other = slot ∧ stat.state = reserved ∧ ∃ index < fileStatCountCc, slot = probe fileno index)
    (alone : ∀ other fileno, (state.adders other).filling = some (fileno, slot) → other = thread)
    (holds : adder.holds = old.holds)
    (added : ∀ fileno, old.pending = some fileno → adder.pending ≠ some fileno →
      ∃ index < fileStatCountCc, slot = probe fileno index ∧ stat.fileNo = fileno ∧
        stat.state = fsInit) :
    Inv ((state.setStat slot stat).setAdder thread adder) := by
  have not_complete : (state.fileStat slot).state ≠ fsComplete := by
    rcases was with free | taken
    · rw [free]
      decide
    · rw [taken]
      decide
  have not_ready : (state.fileStat slot).state ≠ fsInit := by
    rcases was with free | taken
    · rw [free]
      decide
    · rw [taken]
      decide
  have here : ((state.setStat slot stat).setAdder thread adder).fileStat slot = stat :=
    setStat_self ..
  have elsewhere : ∀ other, other ≠ slot →
      ((state.setStat slot stat).setAdder thread adder).fileStat other = state.fileStat other :=
    fun other ne => setStat_of_ne _ ne
  have others : ∀ other, other ≠ thread →
      ((state.setStat slot stat).setAdder thread adder).adders other = state.adders other :=
    fun other ne => setAdder_of_ne _ ne
  refine { inv with
    words := ?_
    closing := ?_
    filling := ?_
    candidate := ?_
    numbers := ?_
    ready := ?_ }
  · intro other
    by_cases same : other = slot
    · rw [same, here]
      have none : state.ids slot = ∅ :=
        inv.ids_of_unclaimed (was.imp_right .inl)
      exact .inr ⟨none, unclaimed⟩
    · rw [elsewhere other same]
      exact inv.words other
  · intro id other closes
    have ne : other ≠ slot := by
      rintro rfl
      exact not_complete (inv.closing id other closes).1
    rw [elsewhere other ne]
    exact inv.closing id other closes
  · intro other fileno otherSlot fills
    by_cases moved : other = thread
    · rw [moved, setAdder_self] at fills
      obtain ⟨rfl, taken, probed⟩ := filling fileno otherSlot fills
      rw [here]
      refine ⟨taken, probed, fun another otherFileno also_fills => ?_⟩
      by_contra ne
      rw [moved] at ne
      rw [others another ne] at also_fills
      exact ne (alone another otherFileno also_fills)
    · rw [others other moved] at fills
      obtain ⟨taken, probed, unique⟩ := inv.filling other fileno otherSlot fills
      have ne : otherSlot ≠ slot := by
        rintro rfl
        exact moved (alone other fileno fills)
      rw [elsewhere otherSlot ne]
      refine ⟨taken, probed, fun another otherFileno also_fills => ?_⟩
      by_cases also_moved : another = thread
      · rw [also_moved, setAdder_self] at also_fills
        exact absurd (filling otherFileno otherSlot also_fills).1 ne
      · rw [others another also_moved] at also_fills
        exact unique another otherFileno also_fills
  · intro id fh index testFs at_cas
    obtain ⟨ready, rest⟩ := inv.candidate id fh index testFs at_cas
    have ne : probe fh index ≠ slot := by
      intro same
      rw [same] at ready
      exact not_ready ready
    rw [elsewhere _ ne]
    exact ⟨ready, rest⟩
  · have same_held (other : Thread) :
        (((state.setStat slot stat).setAdder thread adder).adders other).holds =
          (state.adders other).holds :=
      view_setAdder Adder.holds (by rw [holds, ← at_adder]; rfl) other
    intro other fileno held
    rw [same_held] at held
    refine (inv.numbers other fileno held).imp_right (And.imp_right fun unique another held => ?_)
    rw [same_held] at held
    exact unique another held
  · intro fileno positive bounded present unclaimed_number
    by_cases was_pending : old.pending = some fileno
    · have absent := present thread
      rw [setAdder_self] at absent
      obtain ⟨index, small, rfl, fileno_eq, ready⟩ := added fileno was_pending absent
      refine ⟨index, small, ?_⟩
      rw [here]
      exact ⟨fileno_eq, ready⟩
    · obtain ⟨index, small, fileno_eq, ready⟩ := inv.ready fileno positive bounded (by
        intro other
        by_cases moved : other = thread
        · rwa [moved, at_adder]
        · have absent := present other
          rwa [others other moved] at absent) unclaimed_number
      have ne : probe fileno index ≠ slot := by
        intro same
        rw [same] at ready
        exact not_ready ready
      refine ⟨index, small, ?_⟩
      rw [elsewhere _ ne]
      exact ⟨fileno_eq, ready⟩

theorem Inv.add (inv : Inv state) {thread : Thread} (taken : state.add thread = some after) :
    Inv after := by
  cases adding taken with
  | @reserve fileno index fd at_adder small free =>
      refine inv.put at_adder (.inl free) (.inr (.inl rfl)) ?_ ?_ rfl ?_
      · intro other otherSlot fills
        cases fills
        exact ⟨rfl, rfl, index, small, rfl⟩
      · intro other otherFileno fills
        have reserved_eq := (inv.filling other otherFileno _ fills).1
        rw [free] at reserved_eq
        exact absurd reserved_eq (by decide)
      · intro other was_pending absent
        exact absurd was_pending absent
  | search later at_adder => exact inv.moveAdder at_adder rfl (fun _ held => held) rfl
  | @fill fileno slot fd at_adder =>
      obtain ⟨reserved_eq, ⟨index, small, slot_eq⟩, unique⟩ :=
        inv.filling thread fileno slot (by rw [at_adder]; rfl)
      refine inv.put at_adder (.inr reserved_eq) (.inr (.inr rfl)) (by simp [Adder.filling])
        unique rfl ?_
      intro other pending _
      obtain rfl := Option.some.inj pending
      exact ⟨index, small, slot_eq, rfl, rfl⟩
  | count at_adder =>
      have moved : Inv (state.setAdder thread .idle) :=
        inv.moveAdder at_adder rfl (by simp [Adder.holds]) rfl
      exact { moved with }

theorem Inv.next (inv : Inv state) {label : Label Thread}
    (taken : FileTable.next state label = some after) : Inv after := by
  cases label with
  | take thread fd =>
      simp only [FileTable.next] at taken
      split at taken
      · rename_i at_idle
        obtain rfl := Option.some.inj taken
        exact inv.take at_idle fd
      · cases taken
  | add thread => exact inv.add taken
  | work id => exact inv.work taken
  | spurious id => exact inv.failing (failing_of_spurious taken)
  | update id totals =>
      simp only [FileTable.next, State.update] at taken
      split at taken
      · rename_i slot testFs at_worker
        obtain rfl := Option.some.inj taken
        exact inv.update at_worker rfl
      · cases taken
  | completeTransfer =>
      obtain rfl := Option.some.inj taken
      exact { inv with }

theorem inv_reached (reached : (machine Thread).Reached state) : Inv state := by
  refine reached.invariant Inv ?_ fun _ _ _ inv _ taken => inv.next taken
  rintro _ rfl
  exact inv_init

end FileTable
end EScp
