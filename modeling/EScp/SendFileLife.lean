import EScp.SendFileInvariant

/-!
# The phases of a file on the sender

The entry is unclaimed, then workers attach and leave, then the last of them closes the file, and
then the entry is wiped.  The word of the entry tells these phases apart.
-/

namespace EScp
namespace SendFile

open StateWord FileTable FileChecksum

/-- What a worker has to do with the entry. -/
inductive Role where
  | off
  /-- Its bit is set. -/
  | on
  /-- It is the last to leave. -/
  | closing
  /-- It has left, inside `submit_work`. -/
  | unwinding
deriving DecidableEq

def Stage.role : Stage → Role
  | .fetch | .submit _ | .hash _ _ | .send _ _ | .size _ _ | .count _ _ | .remove _ => .on
  | .close _ | .copy _ | .push _ | .wipe _ => .closing
  | .unwind _ => .unwinding

def Place.role : Place → Role
  | .run _ _ stage => stage.role
  | _ => .off

/-- The workers whose bits are set. -/
def State.ids (state : State) : Finset Id :=
  Finset.univ.filter fun id => (state.workers id).role = .on

/-- The workers to which `file_iow_remove` has returned `FS_COMPLETE`. -/
def State.completes (state : State) : List Id :=
  (state.removed.filter fun entry => entry.2 = fsComplete).map Prod.fst

/-- What holds of the queue and the block of a worker. -/
def Stage.Ok (job : Job) (queue : List Nat) : Stage → Prop
  | .fetch => True
  | .submit frames => frames = 0 → queue ≠ []
  | .hash _ offset => offset < job.size ∧ job.doHash = true
  | .send _ offset | .size _ offset | .count _ offset => offset < job.size
  | .remove _ | .close _ | .copy _ | .push _ | .wipe _ | .unwind _ => queue = []

/-- What holds of a worker and the copies that it has. -/
def Place.Ok (job : Job) : Place → Prop
  | .away => True
  | .casClaim testFs => testFs.fileNo = job.fileNo ∧ testFs.fd = job.fd
  | .casAttach testFs =>
      testFs.fileNo = job.fileNo ∧ testFs.fd = job.fd ∧ testFs.state &&& fsIo ≠ 0
  | .stopped => False
  | .run fsLcl queue stage => fsLcl.fileNo = job.fileNo ∧ stage.Ok job queue

/-- Nobody has been the last to leave. -/
def State.Untouched (state : State) : Prop :=
  state.completes = [] ∧ state.closed = [] ∧ state.pushed = [] ∧ state.wiped = []

structure Fresh (job : Job) (state : State) : Prop where
  account : Account job state.stat state.workers state.sent
  word : state.stat.state = fsInit
  idle : ∀ id, (state.workers id).role = .off
  untouched : state.Untouched

/-- Workers have the file; `io` while no worker has left. -/
structure Claimed (job : Job) (io : Bool) (state : State) : Prop where
  account : Account job state.stat state.workers state.sent
  marks : Marks state.stat.state io state.ids
  attached : state.ids.Nonempty
  none_closing : ∀ id, (state.workers id).role ≠ .closing
  none_left : io = true → ∀ id, (state.workers id).role ≠ .unwinding
  ended : io = false → job.size ≤ state.stat.blockOffset * job.block
  untouched : state.Untouched

/-- What the last worker has done with the file, and with which copy of the entry. -/
def Closed (job : Job) (state : State) (id : Id) (fsLcl : FileStat) : Stage → Prop
  | .close _ => state.closed = [] ∧ state.pushed = []
  | .copy _ => state.closed = [id] ∧ state.pushed = []
  | .push _ => state.closed = [id] ∧ state.pushed = [] ∧ fsLcl = state.stat
  | .wipe _ => state.closed = [id] ∧ state.pushed = [job.record]
  | _ => False

/-- The last worker has left the entry and has it for itself. -/
structure Closing (job : Job) (id : Id) (state : State) : Prop where
  account : Account job state.stat state.workers state.sent
  word : state.stat.state = fsComplete
  alone : ∀ other ≠ id, (state.workers other).role ≠ .on ∧ (state.workers other).role ≠ .closing
  closed : ∃ fsLcl queue stage, state.workers id = .run fsLcl queue stage ∧
    Closed job state id fsLcl stage
  ended : job.size ≤ state.stat.blockOffset * job.block
  completes : state.completes = [id]
  wiped : state.wiped = []

/-- The entry is wiped. -/
structure Wiped (job : Job) (id : Id) (state : State) : Prop where
  stat : state.stat = FileStat.zero
  idle : ∀ other, (state.workers other).role ≠ .on ∧ (state.workers other).role ≠ .closing
  whole : sentOffsets state.sent = job.offsets job.blocks
  completes : state.completes = [id]
  closed : state.closed = [id]
  pushed : state.pushed = [job.record]
  wiped : state.wiped = [id]

/-- The phases of the entry. -/
inductive Life (job : Job) (state : State) : Prop where
  | fresh (fresh : Fresh job state)
  | claimed (io : Bool) (claimed : Claimed job io state)
  | closing (id : Id) (closing : Closing job id state)
  | wiped (id : Id) (wiped : Wiped job id state)

/-- The invariant. -/
structure Inv (job : Job) (state : State) : Prop where
  places : ∀ id, (state.workers id).Ok job
  sents : ∀ block ∈ state.sent, block.fileNo = job.fileNo ∧ block.bytes = job.pread block.offset
  life : Life job state

variable {job : Job} {state : State} {id : Id} {place : Place}

@[simp] theorem mem_ids {id : Id} : id ∈ state.ids ↔ (state.workers id).role = .on := by
  simp [State.ids]

theorem Closed.role {fsLcl : FileStat} {stage : Stage} (closed : Closed job state id fsLcl stage) :
    stage.role = .closing := by
  cases stage with
  | close | copy | push | wipe => rfl
  | fetch | submit | hash | send | size | count | remove | unwind => exact closed.elim

/-- A worker that has left the entry with an empty queue owes nothing. -/
theorem shares_left (fsLcl : FileStat) {stage : Stage} (left : stage.role ≠ .on) :
    (Place.run fsLcl [] stage).shares job = 0 := by
  cases stage with
  | fetch | submit | hash | send | size | count | remove => exact absurd rfl left
  | close | copy | push | wipe | unwind => rfl

theorem not_ended_left (fsLcl : FileStat) (queue : List Nat) {stage : Stage}
    (left : stage.role ≠ .on) : ¬(Place.run fsLcl queue stage).Ended := by
  cases stage with
  | fetch | submit | hash | send | size | count | remove => exact absurd rfl left
  | close | copy | push | wipe | unwind => exact id

/-- A worker that has nothing to do with the entry, or has left it, owes nothing. -/
theorem Place.Ok.settled (ok : place.Ok job) (off : place.role ≠ .on) :
    place.shares job = 0 ∧ place.queue = [] ∧ ¬place.Ended := by
  cases place with
  | away | casClaim | casAttach | stopped => exact ⟨rfl, rfl, id⟩
  | run fsLcl queue stage =>
      cases stage with
      | fetch | submit | hash | send | size | count | remove => exact absurd rfl off
      | close | copy | push | wipe | unwind =>
          obtain ⟨-, rfl⟩ := ok
          exact ⟨shares_left fsLcl off, rfl, not_ended_left fsLcl [] off⟩

/-- When no worker owes anything and the end of the file has been met, all blocks are sent. -/
theorem Account.whole {stat : FileStat} {workers : Id → Place} {sent : List Sent}
    (account : Account job stat workers sent) (places : ∀ id, (workers id).Ok job)
    (off : ∀ id, (workers id).role ≠ .on) (ended : job.size ≤ stat.blockOffset * job.block) :
    sentOffsets sent = job.offsets job.blocks ∧
      (⟨stat.fileNo, stat.bytesTotal, stat.blockTotal, stat.crc⟩ : Record) = job.record := by
  have settled : ∀ id, (workers id).shares job = 0 := fun id => ((places id).settled (off id)).1
  have owed : tally (Place.owed job) workers = 0 :=
    tally_zero fun id => congrArg Prod.fst (settled id)
  have hashed : tally Place.hashed workers = 0 :=
    tally_zero fun id => congrArg (·.2.1) (settled id)
  have unsized : tally (Place.unsized job) workers = 0 :=
    tally_zero fun id => congrArg (·.2.2.1) (settled id)
  have uncounted : tally Place.uncounted workers = 0 :=
    tally_zero fun id => congrArg (·.2.2.2) (settled id)
  have all : sentOffsets sent = job.offsets job.blocks := by
    rw [← Job.data_offsets ended, account.offsets, owed, add_zero]
  have bytes_eq : stat.bytesTotal = job.size := by
    have sum := account.bytesTotal
    rwa [unsized, all, Job.sum_length_blocks] at sum
  have blocks_eq : stat.blockTotal = job.blocks := by
    have card := account.blockTotal
    rwa [uncounted, all, Job.offsets, Multiset.card_map, Multiset.card_range] at card
  refine ⟨all, ?_⟩
  rw [account.fileNo, bytes_eq, blocks_eq, account.crc, hashed, all, add_zero]
  rfl

/-- The entry as it is before it is wiped. -/
theorem Life.account (life : Life job state) (word : state.stat.state ≠ 0) :
    Account job state.stat state.workers state.sent := by
  cases life with
  | fresh fresh => exact fresh.account
  | claimed io claimed => exact claimed.account
  | closing id closing => exact closing.account
  | wiped id wiped => exact absurd (congrArg FileStat.state wiped.stat) word

/-- A worker whose bit is set finds the entry claimed. -/
theorem Life.claimed_of_on (life : Life job state) (on : (state.workers id).role = .on) :
    ∃ io, Claimed job io state := by
  cases life with
  | fresh fresh => exact absurd ((fresh.idle id).symm.trans on) (by decide)
  | claimed io claimed => exact ⟨io, claimed⟩
  | closing last closing =>
      by_cases same : id = last
      · obtain ⟨fsLcl, queue, stage, at_stage, closed⟩ := closing.closed
        rw [same, at_stage] at on
        exact absurd (closed.role.symm.trans on) (by decide)
      · exact absurd on (closing.alone id same).1
  | wiped last wiped => exact absurd on (wiped.idle id).1

/-- Only an unclaimed entry has `FS_INIT`. -/
theorem Life.fresh_of_word (life : Life job state) (word : state.stat.state = fsInit) :
    Fresh job state := by
  cases life with
  | fresh fresh => exact fresh
  | claimed io claimed => exact absurd word claimed.marks.claimed.2.2
  | closing id closing => exact absurd (closing.word.symm.trans word) (by decide)
  | wiped id wiped =>
      exact absurd ((congrArg FileStat.state wiped.stat).symm.trans word) (by decide)

/-- Only an entry that no worker has left has `FS_IO`. -/
theorem Life.claimed_of_word (life : Life job state) (word : state.stat.state &&& fsIo ≠ 0) :
    Claimed job true state := by
  cases life with
  | fresh fresh =>
      rw [fresh.word] at word
      exact absurd (by decide) word
  | claimed io claimed =>
      obtain rfl := claimed.marks.and_fsIo.mp word
      exact claimed
  | closing id closing =>
      rw [closing.word] at word
      exact absurd (by decide) word
  | wiped id wiped =>
      rw [wiped.stat] at word
      exact absurd (by decide) word

/-! ## Steps -/

@[simp] theorem setWorker_self (place : Place) : (state.setWorker id place).workers id = place :=
  Function.update_self ..

theorem setWorker_of_ne {other : Id} (place : Place) (ne : other ≠ id) :
    (state.setWorker id place).workers other = state.workers other := Function.update_of_ne ne ..

/-- A worker moves and keeps its bit or its lack of one. -/
theorem ids_move {after : State} (workers : after.workers = Function.update state.workers id place)
    (on : place.role = .on ↔ (state.workers id).role = .on) : after.ids = state.ids := by
  ext other
  rw [mem_ids, mem_ids, workers]
  by_cases same : other = id
  · rw [same, Function.update_self, on]
  · rw [Function.update_of_ne same]

/-- A worker whose bit is set works on the entry. -/
theorem Claimed.work {io : Bool} (claimed : Claimed job io state)
    (on : (state.workers id).role = .on) (place_on : place.role = .on) {stat : FileStat}
    {sent : List Sent} (word : stat.state = state.stat.state)
    (fetched : state.stat.blockOffset ≤ stat.blockOffset)
    (account : Account job stat (Function.update state.workers id place) sent) :
    Claimed job io ({ state with stat := stat, sent := sent }.setWorker id place) := by
  have ids : ({ state with stat := stat, sent := sent }.setWorker id place).ids = state.ids :=
    ids_move rfl (iff_of_true place_on on)
  constructor
  · exact account
  · rw [ids]
    exact word ▸ claimed.marks
  · rw [ids]
    exact claimed.attached
  · exact all_update (fun place => place.role ≠ .closing) claimed.none_closing (by simp [place_on])
  · intro open_io
    exact all_update (fun place => place.role ≠ .unwinding) (claimed.none_left open_io)
      (by simp [place_on])
  · intro left
    exact (claimed.ended left).trans (Nat.mul_le_mul_right _ fetched)
  · exact claimed.untouched

/-- A worker without a bit, that is not the last, moves on. -/
theorem Life.move (life : Life job state)
    (account : Account job state.stat state.workers state.sent →
      Account job state.stat (Function.update state.workers id place) state.sent)
    (off : (state.workers id).role ≠ .on ∧ (state.workers id).role ≠ .closing)
    (place_off : place.role = .off ∨
      place.role = .unwinding ∧ (state.workers id).role = .unwinding) :
    Life job (state.setWorker id place) := by
  have not_on : place.role ≠ .on := by
    rcases place_off with role | ⟨role, -⟩ <;> simp [role]
  have not_closing : place.role ≠ .closing := by
    rcases place_off with role | ⟨role, -⟩ <;> simp [role]
  have ids : (state.setWorker id place).ids = state.ids :=
    ids_move rfl (iff_of_false not_on off.1)
  cases life with
  | fresh fresh =>
      refine .fresh ⟨account fresh.account, fresh.word, ?_, fresh.untouched⟩
      refine all_update (fun place => place.role = .off) fresh.idle ?_
      exact place_off.resolve_right fun left =>
        absurd ((fresh.idle id).symm.trans left.2) (by decide)
  | claimed io claimed =>
      refine .claimed io ?_
      constructor
      · exact account claimed.account
      · rw [ids]
        exact claimed.marks
      · rw [ids]
        exact claimed.attached
      · exact all_update (fun place => place.role ≠ .closing) claimed.none_closing not_closing
      · intro open_io
        refine all_update (fun place => place.role ≠ .unwinding) (claimed.none_left open_io) ?_
        rcases place_off with role | ⟨-, left⟩
        · simp [role]
        · exact absurd left (claimed.none_left open_io id)
      · exact claimed.ended
      · exact claimed.untouched
  | closing last closing =>
      obtain ⟨fsLcl, queue, stage, at_stage, closed⟩ := closing.closed
      have other : last ≠ id := by
        rintro rfl
        rw [at_stage] at off
        exact off.2 closed.role
      refine .closing last ?_
      constructor
      · exact account closing.account
      · exact closing.word
      · intro third ne
        by_cases same : third = id
        · rw [same, setWorker_self]
          exact ⟨not_on, not_closing⟩
        · rw [setWorker_of_ne place same]
          exact closing.alone third ne
      · exact ⟨fsLcl, queue, stage, (setWorker_of_ne place other).trans at_stage, by
          cases stage <;> exact closed⟩
      · exact closing.ended
      · exact closing.completes
      · exact closing.wiped
  | wiped last wiped =>
      refine .wiped last { wiped with idle := ?_ }
      exact all_update (fun place => place.role ≠ .on ∧ place.role ≠ .closing) wiped.idle
        ⟨not_on, not_closing⟩

/-- The first worker claims the file. -/
theorem Fresh.claim (fresh : Fresh job state) (ok : (state.workers id).Ok job)
    {fsLcl : FileStat} :
    Claimed job true ({ state with stat := { state.stat with
      state := fsComplete ||| fsIo ||| idBit id } }.setWorker id (.run fsLcl [] .fetch)) := by
  obtain ⟨shares, queue, -⟩ := ok.settled (by simp [fresh.idle id])
  constructor
  · exact fresh.account.move _ (shares.symm ▸ rfl) (by simp [Place.queue]) False.elim
  · have ids : ({ state with stat := { state.stat with
        state := fsComplete ||| fsIo ||| idBit id } }.setWorker id
          (.run fsLcl [] .fetch)).ids = {id} := by
      ext other
      rw [mem_ids, Finset.mem_singleton]
      by_cases same : other = id
      · simp [same, Place.role, Stage.role]
      · rw [setWorker_of_ne _ same, iff_false_right same]
        simp [fresh.idle other]
    rw [ids]
    exact marks_claim id
  · exact ⟨id, by simp [Place.role, Stage.role]⟩
  · exact all_update (fun place => place.role ≠ .closing) (fun other => by simp [fresh.idle other])
      (by simp [Place.role, Stage.role])
  · intro _
    exact all_update (fun place => place.role ≠ .unwinding)
      (fun other => by simp [fresh.idle other]) (by simp [Place.role, Stage.role])
  · exact fun left => absurd left (by decide)
  · exact fresh.untouched

/-- A further worker attaches. -/
theorem Claimed.attach (claimed : Claimed job true state) (ok : (state.workers id).Ok job)
    (off : (state.workers id).role = .off) {fsLcl : FileStat} :
    Claimed job true ({ state with stat := { state.stat with
      state := state.stat.state ||| idBit id } }.setWorker id (.run fsLcl [] .fetch)) := by
  obtain ⟨shares, queue, -⟩ := ok.settled (by simp [off])
  constructor
  · exact claimed.account.move _ (shares.symm ▸ rfl) (by simp [Place.queue]) False.elim
  · have ids : ({ state with stat := { state.stat with
        state := state.stat.state ||| idBit id } }.setWorker id
          (.run fsLcl [] .fetch)).ids = insert id state.ids := by
      ext other
      rw [mem_ids, Finset.mem_insert, mem_ids]
      by_cases same : other = id
      · simp [same, Place.role, Stage.role]
      · rw [setWorker_of_ne _ same, or_iff_right same]
    rw [ids]
    exact claimed.marks.attach id
  · exact ⟨id, by simp [Place.role, Stage.role]⟩
  · exact all_update (fun place => place.role ≠ .closing) claimed.none_closing
      (by simp [Place.role, Stage.role])
  · intro _
    exact all_update (fun place => place.role ≠ .unwinding) (claimed.none_left rfl)
      (by simp [Place.role, Stage.role])
  · exact fun left => absurd left (by decide)
  · exact claimed.untouched

variable {fsLcl : FileStat} {frames : Nat}

theorem completes_append (entry : Id × BitVec 64) :
    ({ state with removed := state.removed ++ [entry] } : State).completes =
      state.completes ++ if entry.2 = fsComplete then [entry.1] else [] := by
  rw [State.completes, State.completes, List.filter_append, List.map_append]
  by_cases complete : entry.2 = fsComplete <;> simp [complete]

/-- A worker leaves. -/
theorem Claimed.remove {io : Bool} (claimed : Claimed job io state)
    (at_stage : state.workers id = .run fsLcl [] (.remove frames)) {res : BitVec 64}
    (res_eq : res = state.stat.state &&& ~~~(idBit id ||| fsIo)) :
    Life job ({ state with
      stat := { state.stat with state := res }
      removed := state.removed ++ [(id, res)] }.setWorker id
        (.run fsLcl [] (if res = fsComplete then .close frames else .unwind frames))) := by
  have marks : Marks res false (state.ids.erase id) := res_eq ▸ claimed.marks.remove id
  have ended : job.size ≤ state.stat.blockOffset * job.block := by
    refine claimed.account.ended id ?_
    rw [at_stage]
    trivial
  have account : ∀ stage : Stage, stage.role ≠ .on →
      Account job { state.stat with state := res }
        (Function.update state.workers id (.run fsLcl [] stage)) state.sent := by
    intro stage left
    refine claimed.account.move res ?_ (by simp [Place.queue])
      (absurd · (not_ended_left fsLcl [] left))
    rw [at_stage, shares_left fsLcl left]
    rfl
  by_cases last : res = fsComplete
  · rw [if_pos last]
    have none_on : ∀ other ≠ id, (state.workers other).role ≠ .on := by
      intro other ne on
      have mem : other ∈ state.ids.erase id := Finset.mem_erase.mpr ⟨ne, mem_ids.mpr on⟩
      rw [(marks.eq_fsComplete_iff.mp last).2] at mem
      cases mem
    refine .closing id ?_
    constructor
    · exact account _ (by simp [Stage.role])
    · exact last
    · intro other ne
      rw [setWorker_of_ne _ ne]
      exact ⟨none_on other ne, claimed.none_closing other⟩
    · exact ⟨fsLcl, [], _, setWorker_self _, claimed.untouched.2.1, claimed.untouched.2.2.1⟩
    · exact ended
    · refine (completes_append (id, res)).trans ?_
      rw [if_pos last, claimed.untouched.1]
      rfl
    · exact claimed.untouched.2.2.2
  · rw [if_neg last]
    refine .claimed false ?_
    have ids : ({ state with
        stat := { state.stat with state := res }
        removed := state.removed ++ [(id, res)] }.setWorker id
          (.run fsLcl [] (.unwind frames))).ids = state.ids.erase id := by
      ext other
      rw [mem_ids, Finset.mem_erase, mem_ids]
      by_cases same : other = id
      · simp [same, Place.role, Stage.role]
      · rw [setWorker_of_ne _ same, and_iff_right same]
    constructor
    · exact account _ (by simp [Stage.role])
    · rw [ids]
      exact marks
    · rw [ids, Finset.nonempty_iff_ne_empty]
      exact fun none => last (marks.eq_fsComplete_iff.mpr ⟨rfl, none⟩)
    · exact all_update (fun place => place.role ≠ .closing) claimed.none_closing
        (by simp [Place.role, Stage.role])
    · exact fun open_io => absurd open_io (by decide)
    · exact fun _ => ended
    · refine ⟨(completes_append (id, res)).trans ?_, claimed.untouched.2⟩
      rw [if_neg last, claimed.untouched.1]
      rfl

/-- The worker that a closing worker is. -/
theorem Life.closing_of_role (life : Life job state) (role : (state.workers id).role = .closing) :
    Closing job id state := by
  cases life with
  | fresh fresh => exact absurd ((fresh.idle id).symm.trans role) (by decide)
  | claimed io claimed => exact absurd role (claimed.none_closing id)
  | closing last closing =>
      by_cases same : id = last
      · rwa [same]
      · exact absurd role (closing.alone id same).2
  | wiped last wiped => exact absurd role (wiped.idle id).2

theorem Closing.none_on (closing : Closing job id state) (other : Id) :
    (state.workers other).role ≠ .on := by
  by_cases same : other = id
  · obtain ⟨_, _, _, at_stage, was⟩ := closing.closed
    rw [same, at_stage, Place.role, was.role]
    decide
  · exact (closing.alone other same).1

/-- The last worker goes on. -/
theorem Closing.work (closing : Closing job id state) {stage : Stage} (before : Stage)
    (lcl : FileStat) (at_stage : state.workers id = .run lcl [] before) {closed : List Id}
    {pushed : List Record}
    (done : Closed job ({ state with closed := closed, pushed := pushed }.setWorker id
      (.run fsLcl [] stage)) id fsLcl stage) :
    Closing job id ({ state with closed := closed, pushed := pushed }.setWorker id
      (.run fsLcl [] stage)) := by
  obtain ⟨_, _, _, at_closed, was⟩ := closing.closed
  obtain ⟨rfl, rfl, rfl⟩ := Place.run.inj (at_stage.symm.trans at_closed)
  have left : before.role ≠ .on := by simp [was.role]
  have left_after : stage.role ≠ .on := by simp [done.role]
  constructor
  · refine closing.account.move state.stat.state ?_ (by simp [Place.queue])
      (absurd · (not_ended_left fsLcl [] left_after))
    rw [at_stage, shares_left lcl left, shares_left fsLcl left_after]
  · exact closing.word
  · intro other ne
    rw [setWorker_of_ne _ ne]
    exact closing.alone other ne
  · exact ⟨fsLcl, [], stage, setWorker_self _, done⟩
  · exact closing.ended
  · exact closing.completes
  · exact closing.wiped

/-- The last worker wipes the entry. -/
theorem Closing.wipe (closing : Closing job id state) (places : ∀ id, (state.workers id).Ok job)
    (at_stage : state.workers id = .run fsLcl [] (.wipe frames)) :
    Wiped job id ({ state with
      stat := FileStat.zero, wiped := state.wiped ++ [id] }.setWorker id
        (.run fsLcl [] (.unwind frames))) := by
  obtain ⟨_, _, _, at_closed, was⟩ := closing.closed
  obtain ⟨rfl, rfl, rfl⟩ := Place.run.inj (at_stage.symm.trans at_closed)
  constructor
  · rfl
  · intro other
    by_cases same : other = id
    · rw [same, setWorker_self]
      simp [Place.role, Stage.role]
    · rw [setWorker_of_ne _ same]
      exact closing.alone other same
  · exact (closing.account.whole places closing.none_on closing.ended).1
  · exact closing.completes
  · exact was.1
  · exact was.2
  · exact congrArg (· ++ [id]) closing.wiped

/-! ## The invariant in every interleaving -/

theorem inv_init (job : Job) : Inv job (State.init job) := by
  refine ⟨fun _ => trivial, fun _ mem => absurd mem List.not_mem_nil, .fresh ?_⟩
  have none : ∀ {Amount : Type} [AddCommMonoid Amount] (share : Place → Amount),
      share .away = 0 → tally share (State.init job).workers = 0 :=
    fun _ zero => tally_zero fun _ => zero
  constructor
  · constructor
    · rfl
    · rfl
    · rw [none _ rfl]
      rfl
    · rw [none _ rfl]
      exact Job.crcOf_zero.symm
    · rw [none _ rfl]
      rfl
    · rw [none _ rfl]
      rfl
    · exact fun _ _ mem => absurd mem List.not_mem_nil
    · exact fun _ ended => ended.elim
  · rfl
  · exact fun _ => rfl
  · exact ⟨rfl, rfl, rfl, rfl⟩

namespace Inv

/-- A worker outside the file stays outside. -/
theorem off (inv : Inv job state) (role : (state.workers id).role = .off) (ok : place.Ok job)
    (place_role : place.role = .off) : Inv job (state.setWorker id place) := by
  obtain ⟨shares, -, -⟩ := (inv.places id).settled (by simp [role])
  obtain ⟨shares_after, queue_after, not_ended⟩ := ok.settled (by simp [place_role])
  refine ⟨all_update (Place.Ok job) inv.places ok, inv.sents, ?_⟩
  refine inv.life.move (fun account => ?_) (by simp [role]) (.inl place_role)
  refine account.move state.stat.state (shares_after.trans shares.symm) ?_ (absurd · not_ended)
  simp [queue_after]

/-- A worker whose bit is set works on the entry. -/
theorem on {stat : FileStat} {sent : List Sent} (inv : Inv job state)
    (role : (state.workers id).role = .on) (ok : place.Ok job) (place_role : place.role = .on)
    (word : stat.state = state.stat.state)
    (fetched : state.stat.blockOffset ≤ stat.blockOffset)
    (sents : ∀ block ∈ sent, block.fileNo = job.fileNo ∧ block.bytes = job.pread block.offset)
    (account : Account job state.stat state.workers state.sent →
      Account job stat (Function.update state.workers id place) sent) :
    Inv job ({ state with stat := stat, sent := sent }.setWorker id place) := by
  obtain ⟨io, claimed⟩ := inv.life.claimed_of_on role
  exact ⟨all_update (Place.Ok job) inv.places ok, sents,
    .claimed io (claimed.work role place_role word fetched (account claimed.account))⟩

/-- A worker that has the file takes its next step. -/
theorem run (inv : Inv job state) {fsLcl : FileStat} {queue : List Nat} {stage : Stage}
    {after : State} (at_stage : state.workers id = .run fsLcl queue stage)
    (taken : state.run job id fsLcl queue stage = some after) : Inv job after := by
  have ok := inv.places id
  rw [at_stage] at ok
  obtain ⟨fileNo_eq, stage_ok⟩ := ok
  have role : (state.workers id).role = stage.role := by rw [at_stage]; rfl
  cases stage with
  | fetch =>
      rw [State.run, State.runWith] at taken
      split at taken
      · obtain rfl := Option.some.inj taken
        exact inv.on role ⟨fileNo_eq, trivial⟩ rfl rfl (Nat.le_succ _) inv.sents
          fun account => account.fetch at_stage
      · rename_i full
        obtain rfl := Option.some.inj taken
        have ok : (Stage.submit 0).Ok job queue := by
          rintro - rfl
          exact full job.depth_pos
        refine inv.on role ⟨fileNo_eq, ok⟩ rfl rfl le_rfl inv.sents fun account => ?_
        exact account.move state.stat.state (by rw [at_stage]; rfl)
          (by rw [at_stage]; exact fun _ mem => mem) (absurd rfl)
  | submit frames =>
      rw [State.run, State.runWith] at taken
      split at taken
      · rename_i none
        obtain rfl := Option.some.inj taken
        have deep : frames ≠ 0 := fun zero => stage_ok zero none
        rw [if_neg deep]
        refine inv.on role ⟨fileNo_eq, none⟩ rfl rfl le_rfl inv.sents fun account => ?_
        refine account.move state.stat.state (by rw [at_stage]; rfl)
          (by rw [at_stage]; exact fun _ mem => mem) fun _ => account.ended id ?_
        rw [at_stage]
        exact deep
      · cases taken
  | hash frames offset =>
      obtain rfl := Option.some.inj taken
      exact inv.on role ⟨fileNo_eq, stage_ok.1⟩ rfl rfl le_rfl inv.sents
        fun account => account.hash at_stage stage_ok.2
  | send frames offset =>
      obtain rfl := Option.some.inj taken
      refine inv.on role ⟨fileNo_eq, stage_ok⟩ rfl rfl le_rfl ?_
        fun account => account.send at_stage
      intro block mem
      rcases List.mem_append.mp mem with earlier | this
      · exact inv.sents block earlier
      · rw [List.mem_singleton.mp this]
        exact ⟨fileNo_eq, rfl⟩
  | size frames offset =>
      obtain rfl := Option.some.inj taken
      exact inv.on role ⟨fileNo_eq, stage_ok⟩ rfl rfl le_rfl inv.sents
        fun account => account.size at_stage
  | count frames offset =>
      obtain rfl := Option.some.inj taken
      have resumed : (resume frames).Ok job queue ∧ (resume frames).role = .on := by
        rw [resume]
        split
        · exact ⟨trivial, rfl⟩
        · rename_i deep
          exact ⟨fun zero => absurd zero deep, rfl⟩
      exact inv.on role ⟨fileNo_eq, resumed.1⟩ resumed.2 rfl le_rfl inv.sents
        fun account => account.count at_stage
  | remove frames =>
      obtain rfl := Option.some.inj taken
      obtain rfl : queue = [] := stage_ok
      obtain ⟨io, claimed⟩ := inv.life.claimed_of_on role
      refine ⟨all_update (Place.Ok job) inv.places ⟨fileNo_eq, ?_⟩, inv.sents,
        claimed.remove at_stage rfl⟩
      split <;> rfl
  | close frames =>
      obtain rfl := Option.some.inj taken
      obtain rfl : queue = [] := stage_ok
      have closing := inv.life.closing_of_role role
      obtain ⟨_, _, _, at_closed, was⟩ := closing.closed
      obtain ⟨rfl, rfl, rfl⟩ := Place.run.inj (at_stage.symm.trans at_closed)
      refine ⟨all_update (Place.Ok job) inv.places ⟨fileNo_eq, rfl⟩, inv.sents, .closing id ?_⟩
      exact closing.work _ _ at_stage ⟨congrArg (· ++ [id]) was.1, was.2⟩
  | copy frames =>
      obtain rfl := Option.some.inj taken
      obtain rfl : queue = [] := stage_ok
      have closing := inv.life.closing_of_role role
      obtain ⟨_, _, _, at_closed, was⟩ := closing.closed
      obtain ⟨rfl, rfl, rfl⟩ := Place.run.inj (at_stage.symm.trans at_closed)
      refine ⟨all_update (Place.Ok job) inv.places ⟨closing.account.fileNo, rfl⟩, inv.sents,
        .closing id ?_⟩
      exact closing.work _ _ at_stage ⟨was.1, was.2, rfl⟩
  | push frames =>
      obtain rfl := Option.some.inj taken
      obtain rfl : queue = [] := stage_ok
      have closing := inv.life.closing_of_role role
      obtain ⟨_, _, _, at_closed, was⟩ := closing.closed
      obtain ⟨rfl, rfl, rfl⟩ := Place.run.inj (at_stage.symm.trans at_closed)
      obtain ⟨closed, pushed, rfl⟩ := was
      refine ⟨all_update (Place.Ok job) inv.places ⟨fileNo_eq, rfl⟩, inv.sents, .closing id ?_⟩
      refine closing.work _ _ at_stage ⟨closed, ?_⟩
      exact congrArg₂ (fun earlier record => earlier ++ [record]) pushed
        (closing.account.whole inv.places closing.none_on closing.ended).2
  | wipe frames =>
      obtain rfl := Option.some.inj taken
      obtain rfl : queue = [] := stage_ok
      refine ⟨all_update (Place.Ok job) inv.places ⟨fileNo_eq, rfl⟩, inv.sents, .wiped id ?_⟩
      exact (inv.life.closing_of_role role).wipe inv.places at_stage
  | unwind frames =>
      rw [State.run, State.runWith] at taken
      split at taken
      · obtain rfl := Option.some.inj taken
        obtain rfl : queue = [] := stage_ok
        have left : (state.workers id).role ≠ .on ∧ (state.workers id).role ≠ .closing := by
          simp [role, Stage.role]
        obtain ⟨shares, -, -⟩ := (inv.places id).settled left.1
        split
        · refine ⟨all_update (Place.Ok job) inv.places trivial, inv.sents,
            inv.life.move (fun account => ?_) left (.inl rfl)⟩
          exact account.move state.stat.state shares.symm (by simp [Place.queue]) False.elim
        · refine ⟨all_update (Place.Ok job) inv.places ⟨fileNo_eq, rfl⟩, inv.sents,
            inv.life.move (fun account => ?_) left (.inr ⟨rfl, role⟩)⟩
          exact account.move state.stat.state shares.symm (by simp [Place.queue]) False.elim
      · cases taken

theorem returned_eq {testFs : FileStat} (fd_eq : testFs.fd = job.fd) :
    returned testFs = .run testFs [] .fetch := by
  rw [returned, if_neg (fd_eq ▸ job.fd_ne)]

/-- A worker takes its next step. -/
theorem work (inv : Inv job state) {after : State} (taken : state.work job id = some after) :
    Inv job after := by
  have ok := inv.places id
  cases at_place : state.workers id with
  | away | stopped => simp [State.work, State.workWith, at_place] at taken
  | casClaim testFs =>
      rw [at_place] at ok
      obtain ⟨fileNo_eq, fd_eq⟩ := ok
      simp only [State.work, State.workWith, at_place] at taken
      split at taken
      · rename_i word
        obtain rfl := Option.some.inj taken
        rw [returned_eq fd_eq]
        exact ⟨all_update (Place.Ok job) inv.places ⟨fileNo_eq, trivial⟩, inv.sents,
          .claimed true ((inv.life.fresh_of_word word).claim (inv.places id))⟩
      · obtain rfl := Option.some.inj taken
        exact inv.off (by rw [at_place]; rfl) trivial rfl
  | casAttach testFs =>
      rw [at_place] at ok
      obtain ⟨fileNo_eq, fd_eq, io⟩ := ok
      simp only [State.work, State.workWith, at_place] at taken
      split at taken
      · rename_i word
        obtain rfl := Option.some.inj taken
        rw [returned_eq fd_eq, ← word]
        rw [← word] at io
        exact ⟨all_update (Place.Ok job) inv.places ⟨fileNo_eq, trivial⟩, inv.sents,
          .claimed true ((inv.life.claimed_of_word io).attach (inv.places id)
            (by rw [at_place]; rfl))⟩
      · obtain rfl := Option.some.inj taken
        exact inv.off (by rw [at_place]; rfl) trivial rfl
  | run fsLcl queue stage =>
      simp only [State.work, State.workWith, at_place] at taken
      exact inv.run at_place taken

/-- The engine returns an operation. -/
theorem submit (inv : Inv job state) {offset : Nat} {after : State}
    (taken : state.submit job id offset = some after) : Inv job after := by
  have ok := inv.places id
  obtain ⟨fsLcl, queue, frames, at_stage, mem, rfl⟩ := State.submit_eq_some taken
  rw [at_stage] at ok
  have role : (state.workers id).role = .on := by rw [at_stage]; rfl
  by_cases past : job.size ≤ offset
  · rw [if_pos (Job.pread_eq_nil.mpr past)]
    refine inv.on role ⟨ok.1, fun zero => absurd zero (Nat.succ_ne_zero _)⟩ rfl rfl le_rfl
      inv.sents fun account => account.atEnd at_stage mem past
  · have data := not_le.mp past
    rw [if_neg (Job.pread_eq_nil.not.mpr past)]
    have stage : (if job.doHash then Stage.hash frames offset else .send frames offset).Ok job
        (queue.erase offset) ∧
          (if job.doHash then Stage.hash frames offset
            else .send frames offset).role = .on := by
      split
      · rename_i hashing
        exact ⟨⟨data, hashing⟩, rfl⟩
      · exact ⟨data, rfl⟩
    exact inv.on role ⟨ok.1, stage.1⟩ stage.2 rfl le_rfl inv.sents
      fun account => account.take at_stage mem data

theorem next (inv : Inv job state) {label : Label} {after : State}
    (taken : SendFile.next job state label = some after) : Inv job after := by
  cases label with
  | find id =>
      obtain ⟨⟨at_place, fileNo_eq, word⟩, rfl⟩ := Option.ite_none_right_eq_some.mp taken
        |>.imp_right Option.some.inj
      have account := inv.life.account (by rw [word]; decide)
      exact inv.off (by rw [at_place]; rfl) ⟨fileNo_eq, account.fd⟩ rfl
  | copy id =>
      obtain ⟨⟨at_place, io⟩, rfl⟩ := Option.ite_none_right_eq_some.mp taken
        |>.imp_right Option.some.inj
      have account := inv.life.account (by rintro zero; rw [zero] at io; exact io (by decide))
      exact inv.off (by rw [at_place]; rfl) ⟨account.fileNo, account.fd, io⟩ rfl
  | spurious id =>
      simp only [SendFile.next, nextWith] at taken
      split at taken
      · rename_i at_place
        obtain rfl := Option.some.inj taken
        exact inv.off (by rw [at_place]; rfl) trivial rfl
      · rename_i at_place
        obtain rfl := Option.some.inj taken
        exact inv.off (by rw [at_place]; rfl) trivial rfl
      · cases taken
  | work id => exact inv.work taken
  | submit id offset => exact inv.submit taken

end Inv

theorem inv_reached (reached : (machine job).Reached state) : Inv job state := by
  refine reached.invariant (Inv job) ?_ fun before label after inv _ taken => inv.next taken
  rintro _ rfl
  exact inv_init job

end SendFile
end EScp
