import EScp.Engines

/-!
# The engines as block queues

What the functions of an engine do is said once, between two rounds of its worker: the queue that
the user sees holds the operation of the posix and dummy engines, or the requests that the kernel of
the uring engine works on.  The calls of every run whose steps are spared are then those of a block
queue.
-/

namespace EScp
namespace Engines

/-! ## Between two rounds -/

/-- The queue holds the operation of a posix or dummy engine. -/
structure Single (fob : FileObject) (places : Nat → Option (UInt64 × UInt32))
    (completed : Option UInt32) : Prop where
  room : fob.head = fob.tail ∨ fob.head = fob.tail + 1
  held : fob.tail < fob.head → places 0 = some ((fob.pvdr 0).offset, (fob.pvdr 0).fd)
  released : fob.head = fob.tail → ∀ fd, completed = some fd → (fob.pvdr 0).fd = fd

/-- The queue holds the requests of a uring engine, each with an operation of its own. -/
structure Rings (fob : FileObject) (places : Nat → Option (UInt64 × UInt32)) : Prop where
  cq : fob.ring.cq = []
  pending : fob.ring.pending = []
  nodup : (fob.ring.inFlight.map Sqe.userData).Nodup
  held : ∀ sqe ∈ fob.ring.inFlight, places sqe.userData = some (sqe.off, sqe.fd)
  offset : ∀ sqe ∈ fob.ring.inFlight, (fob.pvdr sqe.userData).offset = sqe.off
  buffered : ∀ sqe ∈ fob.ring.inFlight, (fob.pvdr sqe.userData).buf ≠ none
  assigned : ∀ place, (fob.ring.sqes place).userData ≠ 0 →
    (fob.pvdr (fob.ring.sqes place).userData).buf ≠ none

def Agrees (engine : Engine) (fob : FileObject) (places : Nat → Option (UInt64 × UInt32))
    (completed : Option UInt32) : Prop :=
  match engine with
  | .posix | .dummy => Single fob places completed
  | .uring => Rings fob places

/-! ## Rounds -/

section Rounds

variable {engine : Engine} {worker : Worker} {fob after : FileObject} {answer : Answer}
  {places : Nat → Option (UInt64 × UInt32)} {completed : Option UInt32} {offset : UInt64}
  {token : Nat} {done : Submitted}

theorem fetch_none (fetched : engine.fetch answer fob = some (none, after)) : after = fob := by
  have posix : some (filePosixfetch fob) = some (none, after) → after = fob := by
    intro fetched
    rw [filePosixfetch] at fetched
    split at fetched
    · exact (Prod.mk.inj (Option.some.inj fetched)).2.symm
    · cases fetched
  cases engine with
  | posix => exact posix fetched
  | dummy => exact posix fetched
  | uring =>
      change fileUringfetch answer fob = some (none, after) at fetched
      rw [fileUringfetch] at fetched
      split at fetched
      · exact (Prod.mk.inj (Option.some.inj fetched)).2.symm
      · split at fetched
        · exact (Prod.mk.inj (Option.some.inj fetched)).2.symm
        · dsimp only at fetched
          split at fetched
          · split at fetched <;> cases fetched
          · cases fetched

/-- The operation of a posix or dummy engine has taken place, and `offset` is reported. -/
structure Took (fob : FileObject) (offset : UInt64) (done : Submitted) (after : FileObject) :
    Prop where
  waiting : fob.tail < fob.head
  token : done.token = 0
  place : done.place = ((fob.pvdr 0).offset, (fob.pvdr 0).fd)
  reported : done.offset = offset
  head : after.head = fob.head
  tail : after.tail = fob.tail + 1
  fd : (after.pvdr 0).fd = (fob.pvdr 0).fd

/-- What `submit` of a posix engine does. -/
theorem filePosixsubmit_cases {result : Option Submitted}
    (taken : filePosixsubmit answer fob = some (result, after)) :
    (result = none ∧ after = fob ∧ fob.head ≤ fob.tail) ∨
      ∃ done, result = some done ∧ Took fob (fob.pvdr 0).offset done after := by
  rw [filePosixsubmit] at taken
  dsimp only at taken
  generalize (if fob.wronly ∧ fob.sparse ∧ answer.zero then (fob.pvdr 0).sz.toUInt32.toInt32
    else answer.res) = sz at taken
  generalize written_eq : (if fob.wronly then fob.pvdr 0
    else filePosixread answer fob sz (fob.pvdr 0)) = written at taken
  have fd : written.fd = (fob.pvdr 0).fd := by
    rw [← written_eq]
    split
    · rfl
    · rw [filePosixread]
      split <;> rfl
  have kept : (Function.update fob.pvdr 0 written 0).fd = (fob.pvdr 0).fd := by
    rw [Function.update_self, fd]
  split at taken
  · rename_i waiting
    right
    split at taken
    · split at taken
      · obtain ⟨rfl, rfl⟩ := Prod.mk.inj (Option.some.inj taken)
        exact ⟨_, rfl, waiting, rfl, rfl, rfl, rfl, rfl, kept⟩
      · cases taken
    · obtain ⟨rfl, rfl⟩ := Prod.mk.inj (Option.some.inj taken)
      exact ⟨_, rfl, waiting, rfl, rfl, rfl, rfl, rfl, kept⟩
  · rename_i none_left
    obtain ⟨rfl, rfl⟩ := Prod.mk.inj (Option.some.inj taken)
    exact .inl ⟨rfl, rfl, by omega⟩

/-- What `submit` of a dummy engine does: it reports what it has been passed. -/
theorem fileDummysubmit_cases {result : Option Submitted}
    (taken : fileDummysubmit answer offset fob = some (result, after)) :
    (result = none ∧ after = fob ∧ fob.head ≤ fob.tail) ∨
      ∃ done, result = some done ∧ Took fob offset done after := by
  have kept : ∀ hash, (Function.update fob.pvdr 0 { fob.pvdr 0 with hash := hash } 0).fd =
      (fob.pvdr 0).fd := by
    intro hash
    rw [Function.update_self]
  rw [fileDummysubmit] at taken
  dsimp only at taken
  split at taken
  · rename_i none_left
    obtain ⟨rfl, rfl⟩ := Prod.mk.inj (Option.some.inj taken)
    exact .inl ⟨rfl, rfl, none_left⟩
  · rename_i waiting
    have waiting : fob.tail < fob.head := by omega
    right
    split at taken
    · cases taken
    · split at taken
      · obtain ⟨rfl, rfl⟩ := Prod.mk.inj (Option.some.inj taken)
        exact ⟨_, rfl, waiting, rfl, rfl, rfl, rfl, rfl, rfl⟩
      · obtain ⟨rfl, rfl⟩ := Prod.mk.inj (Option.some.inj taken)
        exact ⟨_, rfl, waiting, rfl, rfl, rfl, rfl, rfl, kept _⟩

/-- A request of a uring engine has ended. -/
structure Ended (fob : FileObject) (done : Submitted) (after : FileObject) : Prop where
  sqe : ∃ sqe rest op, (sqe :: rest).Perm fob.ring.inFlight ∧ done.token = sqe.userData ∧
    done.place = (sqe.off, sqe.fd) ∧ done.offset = (fob.pvdr sqe.userData).offset ∧
      (op.offset = (fob.pvdr sqe.userData).offset ∧ op.buf = (fob.pvdr sqe.userData).buf) ∧
        after.pvdr = Function.update fob.pvdr sqe.userData op ∧ after.ring.inFlight = rest
  cq : after.ring.cq.tail = []
  pending : after.ring.pending = fob.ring.pending
  sqes : after.ring.sqes = fob.ring.sqes

/-- What `submit` of a uring engine does. -/
theorem fileUringsubmit_cases {result : Option Submitted} (none_seen : fob.ring.cq = [])
    (taken : fileUringsubmit answer fob = some (result, after)) :
    (result = none ∧ after = fob ∧ fob.head ≤ fob.tail) ∨
      ∃ done, result = some done ∧ Ended fob done after := by
  rw [fileUringsubmit] at taken
  split at taken
  · right
    rw [Option.map_eq_some_iff] at taken
    obtain ⟨⟨cqe, ring⟩, waited, same⟩ := taken
    rw [Ring.wait] at waited
    rw [none_seen] at waited
    dsimp only at waited
    rw [Option.map_eq_some_iff] at waited
    obtain ⟨sqe, at_place, ended⟩ := waited
    obtain ⟨rfl, rfl⟩ := Prod.mk.inj ended
    obtain ⟨rfl, rfl⟩ := Prod.mk.inj same
    obtain ⟨small, rfl⟩ := List.getElem?_eq_some_iff.mp at_place
    refine ⟨_, rfl, ⟨_, _, _, List.getElem_cons_eraseIdx_perm small, rfl, rfl, rfl, ⟨?_, ?_⟩, rfl,
      rfl⟩, rfl, rfl, rfl⟩
    · rfl
    · rfl
  · rename_i none_left
    obtain ⟨rfl, rfl⟩ := Prod.mk.inj (Option.some.inj taken)
    exact .inl ⟨rfl, rfl, by omega⟩

/-- The fetched operation of a posix or dummy engine. -/
theorem Single.issue (single : Single fob places completed)
    (fetched : filePosixfetch fob = (some token, after)) (fd : Int32) (sz : UInt64) :
    token = 0 ∧ Single (((after.set token .offset offset).set token .sz sz).set token .fd
        fd.toInt64.toUInt64)
      (Function.update places token (some (offset, fd.toInt64.toUInt64.toUInt32))) completed := by
  rw [filePosixfetch] at fetched
  split at fetched
  · cases fetched
  · rename_i empty
    obtain ⟨same_token, same⟩ := Prod.mk.inj fetched
    obtain rfl := Option.some.inj same_token
    subst same
    have room := single.room
    refine ⟨rfl, ⟨?_, ?_, ?_⟩⟩
    · change fob.head + 1 = fob.tail ∨ fob.head + 1 = fob.tail + 1
      omega
    · intro _
      simp [FileObject.set, filePosixset]
    · intro level
      change fob.head + 1 = fob.tail at level
      omega

/-- The fetched operation of a uring engine is one without a buffer, or that of the SQE. -/
theorem fileUringfetch_cases (fetched : fileUringfetch answer fob = some (some token, after)) :
    fob.head - fob.tail < fob.QD ∧ ∃ place op, answer.sqe = some place ∧
      after = useSqe fob place token op ∧
        ((fob.pvdr token).buf = none ∧ op.buf ≠ none ∨
          token = (fob.ring.sqes place).userData ∧ token ≠ 0 ∧ op = fob.pvdr token) := by
  rw [fileUringfetch] at fetched
  split at fetched
  · cases fetched
  · rename_i room
    refine ⟨by omega, ?_⟩
    split at fetched
    · cases fetched
    · rename_i place next
      dsimp only at fetched
      split at fetched
      · split at fetched
        · cases fetched
        · rename_i found
          obtain ⟨same, rfl⟩ := Prod.mk.inj (Option.some.inj fetched)
          obtain rfl := Option.some.inj same
          have without := List.find?_some found
          rw [decide_eq_true_eq] at without
          exact ⟨place, _, next, rfl, .inl ⟨without, nofun⟩⟩
      · rename_i named
        obtain ⟨same, rfl⟩ := Prod.mk.inj (Option.some.inj fetched)
        obtain rfl := Option.some.inj same
        exact ⟨place, _, next, rfl, .inr ⟨rfl, named, rfl⟩⟩

/-- The state after an operation has been fetched, told where to take place and flushed. -/
theorem flush_useSqe (none_pending : fob.ring.pending = []) (place token : Nat) (op : PosixOp)
    (offset sz value : UInt64) :
    fileUringflush token ((((useSqe fob place token op).set token .offset offset).set token .sz
      sz).set token .fd value) =
        { fob with
          head := fob.head + 1
          pvdr := Function.update fob.pvdr token
            { op with ptr2 := place, offset := offset, sz := sz, fd := value.toUInt32 }
          ring := { fob.ring with
            sqes := Function.update fob.ring.sqes place ⟨token, value.toUInt32, offset⟩
            inFlight := fob.ring.inFlight ++ [⟨token, value.toUInt32, offset⟩] } } := by
  simp [fileUringflush, FileObject.set, filePosixset, useSqe, none_pending]

/-- A round in which an operation is fetched and told where to take place. -/
theorem Rings.issue (rings : Rings fob places)
    (fetched : fileUringfetch answer fob = some (some token, after))
    (unused : fob.head - fob.tail < fob.QD → ∀ place, answer.sqe = some place →
      (fob.ring.sqes place).userData ∉ fob.ring.inFlight.map Sqe.userData) (fd : Int32)
    (sz : UInt64) :
    Rings (fileUringflush token (((after.set token .offset offset).set token .sz sz).set token .fd
        fd.toInt64.toUInt64))
      (Function.update places token (some (offset, fd.toInt64.toUInt64.toUInt32))) := by
  obtain ⟨room, place, op, next, rfl, source⟩ := fileUringfetch_cases fetched
  have buffer : op.buf ≠ none := by
    rcases source with ⟨-, buffer⟩ | ⟨rfl, nonzero, rfl⟩
    · exact buffer
    · exact rings.assigned place nonzero
  have fresh : ∀ sqe ∈ fob.ring.inFlight, sqe.userData ≠ token := by
    intro sqe member same
    rcases source with ⟨without, -⟩ | ⟨named, -⟩
    · exact rings.buffered sqe member (same ▸ without)
    · exact unused room place next (named ▸ same ▸ List.mem_map_of_mem member)
  rw [flush_useSqe rings.pending]
  constructor
  · exact rings.cq
  · exact rings.pending
  · simp only [List.map_append, List.map_cons, List.map_nil]
    rw [List.nodup_append]
    refine ⟨rings.nodup, List.pairwise_singleton _ _, ?_⟩
    intro left member right same
    obtain ⟨sqe, flying, rfl⟩ := List.mem_map.mp member
    rw [List.mem_singleton.mp same]
    exact fresh sqe flying
  · intro sqe member
    rcases List.mem_append.mp member with flying | last
    · rw [Function.update_of_ne (fresh sqe flying)]
      exact rings.held sqe flying
    · rw [List.mem_singleton.mp last, Function.update_self]
  · intro sqe member
    rcases List.mem_append.mp member with flying | last
    · dsimp only
      rw [Function.update_of_ne (fresh sqe flying)]
      exact rings.offset sqe flying
    · rw [List.mem_singleton.mp last]
      dsimp only
      rw [Function.update_self]
  · intro sqe member
    rcases List.mem_append.mp member with flying | last
    · dsimp only
      rw [Function.update_of_ne (fresh sqe flying)]
      exact rings.buffered sqe flying
    · rw [List.mem_singleton.mp last]
      dsimp only
      rw [Function.update_self]
      exact buffer
  · intro other
    dsimp only
    by_cases same : other = place
    · subst same
      rw [Function.update_self]
      intro _
      dsimp only
      rw [Function.update_self]
      exact buffer
    · rw [Function.update_of_ne same]
      intro named
      by_cases mine : (fob.ring.sqes other).userData = token
      · rw [mine, Function.update_self]
        exact buffer
      · rw [Function.update_of_ne mine]
        exact rings.assigned other named

/-- A round in which an operation is fetched and told where to take place. -/
theorem Agrees.issue (agrees : Agrees engine worker.fob places completed)
    (fetched : engine.fetch answer worker.fob = some (some token, after))
    (unused : engine = .uring → worker.Unused answer) (fd : Int32) (sz : UInt64) :
    Agrees engine (worker.issue engine after token fd offset sz).fob
      (Function.update places token (some (offset, fd.toInt64.toUInt64.toUInt32))) completed := by
  cases engine with
  | posix => exact (Single.issue agrees (Option.some.inj fetched) fd sz).2
  | dummy => exact (Single.issue agrees (Option.some.inj fetched) fd sz).2
  | uring => exact Rings.issue agrees fetched (unused rfl) fd sz

theorem Took.place_held (took : Took fob offset done after)
    (single : Single fob places completed) : places done.token = some done.place := by
  rw [took.token, took.place]
  exact single.held took.waiting

theorem Took.kept (took : Took fob offset done after) (single : Single fob places completed) :
    Single after (Function.update places done.token none) (some done.place.2) := by
  have room := single.room
  have waiting := took.waiting
  have head := took.head
  have tail := took.tail
  constructor
  · omega
  · intro more
    omega
  · intro _ fd same
    rw [took.fd]
    rw [took.place] at same
    exact Option.some.inj same

theorem Ended.place_held (ended : Ended fob done after) (rings : Rings fob places) :
    places done.token = some done.place ∧ done.offset = done.place.1 := by
  obtain ⟨sqe, rest, op, perm, token, place, offset, -⟩ := ended.sqe
  have flying : sqe ∈ fob.ring.inFlight := perm.mem_iff.mp List.mem_cons_self
  rw [token, place, offset]
  exact ⟨rings.held sqe flying, rings.offset sqe flying⟩

theorem Ended.kept (ended : Ended fob done after) (rings : Rings fob places) :
    Rings (fileUringcomplete after) (Function.update places done.token none) := by
  obtain ⟨sqe, rest, op, perm, token, -, -, ⟨offset, buf⟩, pvdr, inFlight⟩ := ended.sqe
  have nodup := (perm.map Sqe.userData).nodup_iff.mpr rings.nodup
  rw [List.map_cons, List.nodup_cons] at nodup
  have flying : ∀ other ∈ rest, other ∈ fob.ring.inFlight := by
    intro other member
    exact perm.mem_iff.mp (List.mem_cons_of_mem _ member)
  have apart : ∀ other ∈ rest, other.userData ≠ sqe.userData := by
    intro other member same
    exact nodup.1 (same ▸ List.mem_map_of_mem member)
  have buffer : ∀ place, (fob.pvdr place).buf ≠ none → (after.pvdr place).buf ≠ none := by
    intro place some_buffer
    rw [pvdr]
    by_cases same : place = sqe.userData
    · rw [same, Function.update_self, buf, ← same]
      exact some_buffer
    · rwa [Function.update_of_ne same]
  constructor
  · exact ended.cq
  · exact ended.pending.trans rings.pending
  · change (after.ring.inFlight.map Sqe.userData).Nodup
    rw [inFlight]
    exact nodup.2
  · change ∀ other ∈ after.ring.inFlight, _
    rw [inFlight]
    intro other member
    rw [token, Function.update_of_ne (apart other member)]
    exact rings.held other (flying other member)
  · change ∀ other ∈ after.ring.inFlight, (after.pvdr other.userData).offset = _
    rw [inFlight, pvdr]
    intro other member
    rw [Function.update_of_ne (apart other member)]
    exact rings.offset other (flying other member)
  · change ∀ other ∈ after.ring.inFlight, (after.pvdr other.userData).buf ≠ none
    rw [inFlight]
    intro other member
    exact buffer _ (rings.buffered other (flying other member))
  · change ∀ place, (after.ring.sqes place).userData ≠ 0 →
      (after.pvdr (after.ring.sqes place).userData).buf ≠ none
    rw [ended.sqes]
    intro place named
    exact buffer _ (rings.assigned place named)

/-- A round in which `submit` has something or nothing to return. -/
theorem Agrees.submit (agrees : Agrees engine worker.fob places completed)
    (foretold : engine = .dummy → worker.Foretold offset) {result : Option Submitted}
    (taken : engine.submit answer offset worker.fob = some (result, after)) :
    (result = none ∧ after = worker.fob ∧ worker.fob.head ≤ worker.fob.tail) ∨
      ∃ done, result = some done ∧ places done.token = some done.place ∧
        done.offset = done.place.1 ∧
          Agrees engine (engine.complete after) (Function.update places done.token none)
            (some done.place.2) := by
  cases engine with
  | posix =>
      rcases filePosixsubmit_cases taken with ⟨rfl, rfl, level⟩ | ⟨done, rfl, took⟩
      · exact .inl ⟨rfl, rfl, level⟩
      · refine .inr ⟨done, rfl, took.place_held agrees, ?_, took.kept agrees⟩
        rw [took.reported, took.place]
  | dummy =>
      rcases fileDummysubmit_cases taken with ⟨rfl, rfl, level⟩ | ⟨done, rfl, took⟩
      · exact .inl ⟨rfl, rfl, level⟩
      · refine .inr ⟨done, rfl, took.place_held agrees, ?_, took.kept agrees⟩
        rw [took.reported, took.place]
        exact foretold rfl took.waiting
  | uring =>
      rcases fileUringsubmit_cases agrees.cq taken with ⟨rfl, rfl, level⟩ | ⟨done, rfl, ended⟩
      · exact .inl ⟨rfl, rfl, level⟩
      · obtain ⟨held, reported⟩ := ended.place_held agrees
        exact .inr ⟨done, rfl, held, reported, ended.kept agrees⟩

/-- A posix or dummy engine without operations closes the descriptor of the last one. -/
theorem Agrees.close {fd : UInt32} (agrees : Agrees engine fob places (some fd))
    (other : engine ≠ .uring) (empty : fob.head ≤ fob.tail) : engine.close fob = fd := by
  have closes : Single fob places (some fd) → (fob.pvdr 0).fd = fd := by
    intro single
    have room := single.room
    exact single.released (by omega) fd rfl
  cases engine with
  | posix => exact closes agrees
  | dummy => exact closes agrees
  | uring => exact absurd rfl other

end Rounds

/-! ## Runs -/

section Runs

variable {engine : Engine} {worker after : Worker}
  {places : Nat → Option (UInt64 × UInt32)} {completed : Option UInt32}

/-- The calls so far have left a queue that agrees with the engine. -/
structure Told (engine : Engine) (worker : Worker) (places : Nat → Option (UInt64 × UInt32))
    (completed : Option UInt32) : Prop where
  calls : BlockQueue.empty.calls worker.calls = some (.holding places completed)
  agrees : worker.pc ≠ .exited → Agrees engine worker.fob places completed
  drained : ∀ depth, worker.pc = .submitWork (depth + 1) → completed.isSome = true

theorem Told.agrees_at (told : Told engine worker places completed) {pc : Pc}
    (at_pc : worker.pc = pc) (running : pc ≠ .exited) :
    Agrees engine worker.fob places completed :=
  told.agrees (at_pc ▸ running)

/-- Calls that the queue accepts are appended. -/
theorem Told.append (told : Told engine worker places completed) {more : List Call}
    {next : Nat → Option (UInt64 × UInt32)} {done : Option UInt32}
    (accepted : (BlockQueue.holding places completed).calls more = some (.holding next done)) :
    BlockQueue.empty.calls (worker.calls ++ more) = some (.holding next done) := by
  rw [BlockQueue.calls_append, told.calls]
  exact accepted

theorem told_of_initial (initial : (machine engine).initial worker) :
    Told engine worker (fun _ => none) none := by
  have single : ∀ options, Single (Engine.posix.init options) (fun _ => none) none :=
    fun options => ⟨.inl rfl, nofun, nofun⟩
  have rings : ∀ options, Rings (Engine.uring.init options) fun _ => none :=
    fun options => ⟨rfl, rfl, List.nodup_nil, nofun, nofun, nofun, fun _ named => absurd rfl named⟩
  have agrees : ∀ options, Agrees engine (engine.init options) (fun _ => none) none := by
    intro options
    cases engine with
    | posix => exact single options
    | dummy => exact single options
    | uring => exact rings options
  obtain ⟨options, rfl | rfl⟩ := initial
  · exact ⟨rfl, fun _ => agrees options, nofun⟩
  · exact ⟨rfl, fun _ => agrees options, nofun⟩

/-- An operation is fetched and told where to take place. -/
theorem Told.issue (told : Told engine worker places completed)
    (agrees : Agrees engine worker.fob places completed) {answer : Answer} {token : Nat}
    {fob : FileObject}
    (fetched : engine.fetch answer worker.fob = some (some token, fob))
    (unused : engine = .uring → worker.Unused answer) (fd : Int32) (offset sz : UInt64) :
    ∃ places, BlockQueue.empty.calls (worker.issue engine fob token fd offset sz).calls =
        some (.holding places completed) ∧
      Agrees engine (worker.issue engine fob token fd offset sz).fob places completed :=
  ⟨_, told.append (BlockQueue.calls_issue offset _), agrees.issue fetched unused fd sz⟩

/-- An operation has taken place. -/
theorem Told.submitted (told : Told engine worker places completed) {done : Submitted}
    (held : places done.token = some done.place) (reported : done.offset = done.place.1)
    (fob : FileObject) :
    BlockQueue.empty.calls (worker.submitted fob done).calls =
      some (.holding places completed) := by
  refine told.append ?_
  rw [reported]
  exact BlockQueue.call_submit held

/-- It is completed. -/
theorem Told.complete (told : Told engine worker places completed) {done : Submitted}
    (held : places done.token = some done.place) (reported : done.offset = done.place.1)
    (fob : FileObject) :
    BlockQueue.empty.calls ((worker.submitted fob done).complete engine done).calls =
      some (.holding (Function.update places done.token none) (some done.place.2)) := by
  have both : ((worker.submitted fob done).complete engine done).calls =
      worker.calls ++ [.submit done.token done.place done.offset, .complete done.token] :=
    List.append_assoc ..
  rw [both, reported]
  exact told.append (BlockQueue.calls_take held)

@[simp] theorem Worker.returned_fob (depth : Nat) : (worker.returned depth).fob = worker.fob := by
  cases depth <;> rfl

@[simp] theorem Worker.returned_calls (depth : Nat) :
    (worker.returned depth).calls = worker.calls := by
  cases depth <;> rfl

/-- The end of a file, at which the descriptor may be closed. -/
theorem Told.finish (told : Told engine worker places completed) {depth : Nat}
    (at_loop : worker.pc = .submitWork (depth + 1)) (empty : worker.fob.head ≤ worker.fob.tail)
    {last : Bool} (spared : engine = .uring → worker.AtEnd → last = false) :
    Told engine ((worker.finish engine last).returned depth) places completed := by
  have agrees := told.agrees_at at_loop nofun
  have drained := told.drained depth at_loop
  obtain ⟨fd, rfl⟩ := Option.isSome_iff_exists.mp drained
  constructor
  · rw [Worker.returned_calls, Worker.finish]
    split
    · rename_i own
      split
      · rename_i closes
        have other : engine ≠ .uring := by
          intro uring
          rw [spared uring ⟨own, empty, depth, at_loop⟩] at closes
          cases closes
        rw [agrees.close other empty]
        exact told.append (BlockQueue.call_close fd)
      · exact told.calls
    · exact told.calls
  · intro _
    rw [Worker.returned_fob, Worker.finish]
    split
    · split <;> exact agrees
    · exact agrees
  · exact fun _ _ => rfl

/-- `submit_work`. -/
theorem Told.submitWork (told : Told engine worker places completed) {depth : Nat}
    (at_work : worker.pc = .submitWork depth) {answer : Answer} {offset : UInt64} {last : Bool}
    (foretold : engine = .dummy → worker.Foretold offset)
    (spared : engine = .uring → worker.AtEnd → last = false)
    (taken : worker.submitWork engine depth answer offset last = some after) :
    ∃ places completed, Told engine after places completed := by
  have before := told.agrees_at at_work nofun
  rw [Worker.submitWork, Option.map_eq_some_iff] at taken
  obtain ⟨⟨result, fob⟩, submitted, rfl⟩ := taken
  rcases before.submit foretold submitted with
    ⟨rfl, rfl, empty⟩ | ⟨done, rfl, held, reported, agrees⟩
  · cases depth with
    | zero =>
        refine ⟨places, completed, told.calls, fun _ => before, ?_⟩
        intro depth at_loop
        change (if worker.fs then Pc.fill else Pc.next) = _ at at_loop
        split at at_loop <;> cases at_loop
    | succ depth => exact ⟨_, _, told.finish at_work empty spared⟩
  · dsimp only
    have submitted := told.submitted held reported fob
    have complete := told.complete held reported fob
    split
    · exact ⟨_, _, submitted, fun running => absurd rfl running, nofun⟩
    · split
      · exact ⟨_, _, complete, fun _ => agrees, fun _ _ => rfl⟩
      · split
        · refine ⟨Function.update places done.token none, some done.place.2, ?_, fun _ => ?_,
            fun _ _ => rfl⟩
          · rw [Worker.returned_calls]
            exact complete
          · rw [Worker.returned_fob]
            exact agrees
        · exact ⟨_, _, submitted, fun running => absurd rfl running, nofun⟩

/-- A spared step is that of a block queue. -/
theorem Told.step (told : Told engine worker places completed) {input : Input}
    (spared : worker.Spared engine input) (taken : worker.step engine input = some after) :
    ∃ places completed, Told engine after places completed := by
  cases input with
  | file fd =>
      unfold Worker.step at taken
      dsimp only at taken
      split at taken
      · rename_i at_next
        have agrees := told.agrees_at at_next nofun
        split at taken
        · cases taken
          exact ⟨_, _, told.calls, fun running => absurd rfl running, nofun⟩
        · cases taken
          exact ⟨_, _, told.calls, fun _ => agrees, nofun⟩
      · cases taken
        exact ⟨_, _, told.calls, fun running => absurd rfl running, nofun⟩
      · cases taken
  | fill answer blockOffset =>
      rw [Worker.step] at taken
      dsimp only at taken
      split at taken
      · rename_i at_fill
        have before := told.agrees_at at_fill nofun
        rw [Option.map_eq_some_iff] at taken
        obtain ⟨⟨result, fob⟩, fetched, rfl⟩ := taken
        cases result with
        | some token =>
            obtain ⟨places, calls, agrees⟩ := told.issue before fetched spared worker.fd
              (blockOffset * worker.fob.blkSz.toUInt64) worker.fob.blkSz.toUInt64
            refine ⟨_, _, calls, fun _ => agrees, ?_⟩
            intro depth at_loop
            exact absurd (at_fill.symm.trans at_loop) nofun
        | none =>
            obtain rfl := fetch_none fetched
            exact ⟨_, _, told.calls, fun _ => before, nofun⟩
      · cases taken
  | submitWork answer offset last =>
      unfold Worker.step at taken
      dsimp only at taken
      split at taken
      · rename_i at_work
        exact told.submitWork at_work spared.1 spared.2 taken
      · cases taken
  | message answer offset sz fd =>
      rw [Worker.step] at taken
      dsimp only at taken
      split at taken
      · rename_i at_receive
        have before := told.agrees_at at_receive nofun
        rw [Option.map_eq_some_iff] at taken
        obtain ⟨⟨result, fob⟩, fetched, rfl⟩ := taken
        cases result with
        | some token =>
            obtain ⟨places, calls, agrees⟩ := told.issue before fetched spared fd offset
              ((sz + 4095) &&& ~~~4095).toInt64.toUInt64
            exact ⟨_, _, calls, fun _ => agrees, nofun⟩
        | none => exact ⟨_, _, told.calls, fun running => absurd rfl running, nofun⟩
      · cases taken
  | drain answer =>
      rw [Worker.step] at taken
      dsimp only at taken
      split at taken
      · rename_i res at_write
        have before := told.agrees_at at_write nofun
        rw [Option.map_eq_some_iff] at taken
        obtain ⟨⟨result, fob⟩, submitted, rfl⟩ := taken
        rcases before.submit (fun dummy => spared dummy res at_write) submitted with
          ⟨rfl, rfl, empty⟩ | ⟨done, rfl, held, reported, agrees⟩
        · exact ⟨_, _, told.calls, fun _ => before, nofun⟩
        · dsimp only
          split
          · exact ⟨_, _, told.submitted held reported fob, fun running => absurd rfl running,
              nofun⟩
          · exact ⟨_, _, told.complete held reported fob, fun _ => agrees, nofun⟩
      · cases taken

theorem told_of_spared (reached : (machine engine).ReachedUnder (Worker.Spared engine) worker) :
    ∃ places completed, Told engine worker places completed := by
  refine reached.invariant (fun worker => ∃ places completed, Told engine worker places completed)
    ?_ ?_
  · exact fun state initial => ⟨_, _, told_of_initial initial⟩
  · rintro before input after ⟨places, completed, told⟩ spared taken
    exact told.step spared taken

theorem Told.contract (told : Told engine worker places completed) : worker.Contract := by
  rw [Worker.Contract, told.calls]
  rfl

/-- The calls of every run whose steps are spared are those of a block queue. -/
theorem contract_of_spared (engine : Engine) {worker : Worker}
    (reached : (machine engine).ReachedUnder (Worker.Spared engine) worker) : worker.Contract := by
  obtain ⟨places, completed, told⟩ := told_of_spared reached
  exact told.contract

end Runs

/-! ## Three short runs -/

/-- A sender with blocks of 65536 bytes. -/
def sender (engine : Engine) (QD : Nat) : Worker := .tx (engine.init { QD := QD, blkSz := 65536 })

/-- Both blocks of a file are read ahead and the first one is sent. -/
def twoBlocks (ended : Nat) : List Input :=
  [.file (some 5), .fill { sqe := some 0 } 0, .fill { sqe := some 1 } 1, .fill {} 2,
    .submitWork { res := 65536, ended := ended } 0 false]

/-- When the first block ends first, all is as expected. -/
theorem contract_of_twoBlocks : ∃ worker,
    (machine .uring).run (sender .uring 2) (twoBlocks 0) = some worker ∧
      worker.calls.length = 8 ∧ worker.Contract := by
  have step : ∀ {before after : Worker} (input : Input),
      (machine .uring).ReachedUnder (Worker.Spared .uring) before →
        before.Spared .uring input → before.step .uring input = some after →
          (machine .uring).ReachedUnder (Worker.Spared .uring) after :=
    fun _ reached spared taken => reached.step spared taken
  have started : (machine .uring).ReachedUnder (Worker.Spared .uring) (sender .uring 2) :=
    .start ⟨_, .inl rfl⟩
  have named := step (.file (some 5)) started trivial rfl
  have first := step (.fill { sqe := some 0 } 0) named (by rintro - - place ⟨⟩; decide) rfl
  have second := step (.fill { sqe := some 1 } 1) first (by rintro - - place ⟨⟩; decide) rfl
  have full := step (.fill {} 2) second (by rintro - - place ⟨⟩) rfl
  have sent := step (.submitWork { res := 65536, ended := 0 } 0 false) full
    ⟨nofun, fun _ _ => rfl⟩ rfl
  exact ⟨_, rfl, rfl, contract_of_spared .uring sent⟩

/-- A short file is read with a dummy engine, the variable `offset` of `submit_work` being 7. -/
def shortFile : List Input :=
  [.file (some 5), .fill {} 0, .fill {} 1, .submitWork { fileSz := 10 } 7 false]

/-- An empty file is read and closed with a uring engine. -/
def emptyFile : List Input :=
  [.file (some 5), .fill { sqe := some 0 } 0, .fill {} 1, .submitWork { res := 0 } 0 false,
    .submitWork {} 0 true]

/-- The second block ends first, and the SQE of the first one comes round again. -/
def outOfOrder : List Input :=
  twoBlocks 1 ++ [.fill { sqe := some 0 } 2, .fill {} 3, .submitWork { res := 65536 } 0 false]

/-- The dummy engine reports the offset it has been passed. -/
theorem shortFile_broken : ∃ worker,
    (machine .dummy).run (sender .dummy 2) shortFile = some worker ∧ ¬worker.Contract :=
  ⟨_, rfl, by decide⟩

/-- The uring engine closes descriptor 0. -/
theorem emptyFile_broken : ∃ worker,
    (machine .uring).run (sender .uring 2) emptyFile = some worker ∧ ¬worker.Contract :=
  ⟨_, rfl, by decide⟩

/-- The uring engine reports the offset of a block that is still to be read. -/
theorem outOfOrder_broken : ∃ worker,
    (machine .uring).run (sender .uring 2) outOfOrder = some worker ∧ ¬worker.Contract :=
  ⟨_, rfl, by decide⟩

/-- Only the posix engine is a block queue in every run. -/
theorem always_contract_iff (engine : Engine) :
    (∀ worker, (machine engine).Reached worker → worker.Contract) ↔ engine = .posix := by
  have started : ∀ QD, (machine engine).initial (sender engine QD) := fun _ => ⟨_, .inl rfl⟩
  constructor
  · intro always
    cases engine with
    | posix => rfl
    | dummy =>
        obtain ⟨worker, ran, broken⟩ := shortFile_broken
        exact absurd (always worker (Machine.reached_of_run (started 2) shortFile ran)) broken
    | uring =>
        obtain ⟨worker, ran, broken⟩ := emptyFile_broken
        exact absurd (always worker (Machine.reached_of_run (started 2) emptyFile ran)) broken
  · rintro rfl worker reached
    have spared : ∀ (worker : Worker) input, worker.Spared .posix input := by
      intro worker input
      cases input with
      | file fd => trivial
      | fill answer blockOffset => exact nofun
      | submitWork answer offset last => exact ⟨nofun, nofun⟩
      | message answer offset sz fd => exact nofun
      | drain answer => exact nofun
    obtain ⟨places, completed, told⟩ :=
      told_of_spared (reached.mono fun worker input _ => spared worker input)
    exact told.contract

/-- Two engines are not block queues, one of them in two ways. -/
theorem not_contract_of_runs :
    (∃ worker, (machine .dummy).run (sender .dummy 2) shortFile = some worker ∧
      ¬worker.Contract) ∧
    (∃ worker, (machine .uring).run (sender .uring 2) emptyFile = some worker ∧
      ¬worker.Contract) ∧
    (∃ worker, (machine .uring).run (sender .uring 2) outOfOrder = some worker ∧
      ¬worker.Contract) ∧
    ¬∀ engine worker, (machine engine).Reached worker → worker.Contract := by
  refine ⟨shortFile_broken, emptyFile_broken, outOfOrder_broken, ?_⟩
  intro always
  cases (always_contract_iff .dummy).mp (always .dummy)

end Engines
end EScp
