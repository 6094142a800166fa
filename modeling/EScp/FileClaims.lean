import EScp.FileTableInvariant

/-!
# File numbers and `file_head`

`file_next` claims the next file number when `file_count` was ahead of `file_head` at two earlier
loads.  With few files ahead it compares and swaps the value it has loaded; with many it increments
whatever is there.
-/

namespace EScp
namespace FileTable

open StateWord

variable {Thread : Type*}

/-- No more numbers are claimed than files are counted. -/
structure Bounded (state : State Thread) : Prop where
  head_le : state.fileHead ≤ state.fileCount
  /-- The numbers from 1 on are given out, each once. -/
  in_turn : state.claimed.map Prod.fst = (List.range state.fileHead).map (· + 1)
  /-- When no file is being added, a worker that waits for a number finds the file. -/
  found : (∀ thread, state.adders thread = .idle) → ∀ id fh,
    (state.workers id).waits = some fh → state.Ready fh

/-- `file_head` is below `file_count` when a worker increments it without a comparison. -/
def BelowCount (state : State Thread) : Label Thread → Prop
  | .work id => state.workers id = .addHead → state.fileHead < state.fileCount
  | _ => True

instance (state : State Thread) (label : Label Thread) : Decidable (BelowCount state label) := by
  unfold BelowCount
  split <;> infer_instance

/-- The share of a thread in the numbers that are not counted yet. -/
def Adder.held (adder : Adder) : Nat := if adder.holds = none then 0 else 1

/-- What the counters and the values loaded from them satisfy. -/
structure Counters (state : State Thread) : Prop where
  head_le : state.fileHead ≤ state.fileCount
  loaded : ∀ id fc, state.workers id = .loadHead fc → fc ≤ state.fileCount
  ahead : ∀ id fh, state.workers id = .casHead fh → fh < state.fileCount

variable {state after : State Thread}

/-- A worker moves on and leaves the counters alone. -/
theorem Counters.pass (counters : Counters state) {id : Id} {worker : Worker}
    (loaded : ∀ fc, worker = .loadHead fc → fc ≤ state.fileCount)
    (ahead : ∀ fh, worker = .casHead fh → fh < state.fileCount) :
    Counters (state.setWorker id worker) where
  head_le := counters.head_le
  loaded other fc at_load := by
    by_cases moved : other = id
    · rw [moved, setWorker_self] at at_load
      exact loaded fc at_load
    · rw [setWorker_of_ne worker moved] at at_load
      exact counters.loaded other fc at_load
  ahead other fh at_cas := by
    by_cases moved : other = id
    · rw [moved, setWorker_self] at at_cas
      exact ahead fh at_cas
    · rw [setWorker_of_ne worker moved] at at_cas
      exact counters.ahead other fh at_cas

theorem Counters.claimHead (counters : Counters state) (id : Id)
    (below : state.fileHead < state.fileCount) : Counters (state.claimHead id) := by
  have moved : Counters (state.setWorker id (.find (state.fileHead + 1) 0)) :=
    counters.pass (by simp) (by simp)
  exact { moved with head_le := below }

theorem decideNext_ahead {fc fh ahead : Nat} (decided : decideNext fc fh = .casHead ahead) :
    ahead = fh ∧ fh < fc := by
  rw [decideNext] at decided
  split at decided
  · cases decided
  · split at decided
    · cases decided
      omega
    · cases decided

theorem decideNext_ne_loadHead (fc fh loaded : Nat) : decideNext fc fh ≠ .loadHead loaded := by
  rw [decideNext]
  split
  · simp
  · split <;> simp

theorem returned_ne (slot : Nat) (testFs : FileStat) :
    (∀ fc, returned slot testFs ≠ .loadHead fc) ∧ ∀ fh, returned slot testFs ≠ .casHead fh := by
  rw [returned]
  split <;> simp

theorem Counters.failing (counters : Counters state) {id : Id} (fails : Failing state id after) :
    Counters after := by
  cases fails with
  | casHead _ | casAttach _ | casClaim _ => exact counters.pass (by simp) (by simp)

theorem Counters.work (counters : Counters state) {id : Id}
    (below : BelowCount state (.work id)) (taken : state.work id = some after) :
    Counters after := by
  -- a worker that returns a slot has loaded neither counter
  have returns (slot : Nat) (testFs : FileStat) :
      Counters (state.setWorker id (returned slot testFs)) := by
    obtain ⟨no_load, no_cas⟩ := returned_ne slot testFs
    exact counters.pass (fun fc eq => absurd eq (no_load fc)) fun fh eq => absurd eq (no_cas fh)
  cases working taken with
  | loadCount _ =>
      refine counters.pass (fun fc eq => ?_) (by simp)
      cases eq
      exact Nat.le_refl _
  | @loadHead fc at_worker =>
      refine counters.pass (fun loaded eq => absurd eq (decideNext_ne_loadHead _ _ _)) ?_
      intro fh eq
      obtain ⟨rfl, less⟩ := decideNext_ahead eq
      exact less.trans_le (counters.loaded id fc at_worker)
  | addHead at_worker => exact counters.claimHead id (below at_worker)
  | @casHead fh at_worker same =>
      exact counters.claimHead id (same ▸ counters.ahead id fh at_worker)
  | scanned _ | skipped _ | ranOut _ | anew _ | copied _ _ | passed _ | found _ _ _ | search _ _
  | last _ => exact counters.pass (by simp) (by simp)
  | attach _ _ => exact { returns _ _ with }
  | @claim fh index testFs _ _ =>
      have moved : Counters (state.setWorker id (.activate (probe fh index) testFs)) :=
        counters.pass (by simp) (by simp)
      exact { moved with }
  | activate _ => exact { returns _ _ with }
  | @remove slot _ _ =>
      rw [State.iowRemove]
      split
      · have moved : Counters (state.setWorker id (.last slot)) :=
          counters.pass (by simp) (by simp)
        exact { moved with }
      · have moved : Counters (state.setWorker id .loadCount) := counters.pass (by simp) (by simp)
        exact { moved with }
  | wipe _ =>
      have moved : Counters (state.setWorker id .loadCount) := counters.pass (by simp) (by simp)
      exact { moved with }
  | fails fails => exact counters.failing fails

theorem counters_init : Counters (State.init : State Thread) where
  head_le := Nat.le_refl _
  loaded := by simp [State.init]
  ahead := by simp [State.init]

/-- A worker does not add files. -/
def Shared (before after : State Thread) : Prop :=
  after.fileCount = before.fileCount ∧ after.globalFino = before.globalFino ∧
    after.adders = before.adders

theorem shared_failing {id : Id} (fails : Failing state id after) : Shared state after := by
  cases fails with
  | casHead _ | casAttach _ | casClaim _ => exact ⟨rfl, rfl, rfl⟩

theorem shared_work {id : Id} (taken : state.work id = some after) : Shared state after := by
  cases working taken with
  | fails fails => exact shared_failing fails
  | _ => exact ⟨rfl, rfl, rfl⟩

variable [DecidableEq Thread]

/-- A file is counted. -/
theorem Counters.add (counters : Counters state) {thread : Thread}
    (taken : state.add thread = some after) : Counters after := by
  cases adding taken with
  | reserve _ _ _ | search _ _ | fill _ => exact { counters with }
  | count at_adder =>
      exact ⟨Nat.le_succ_of_le counters.head_le,
        fun id fc at_load => Nat.le_succ_of_le (counters.loaded id fc at_load),
        fun id fh at_cas => Nat.lt_succ_of_lt (counters.ahead id fh at_cas)⟩

theorem Counters.next (counters : Counters state) {label : Label Thread}
    (below : BelowCount state label) (taken : FileTable.next state label = some after) :
    Counters after := by
  cases label with
  | take thread fd =>
      simp only [FileTable.next] at taken
      split at taken
      · obtain rfl := Option.some.inj taken
        exact { counters with }
      · cases taken
  | add thread => exact counters.add taken
  | work id => exact counters.work below taken
  | spurious id => exact counters.failing (failing_of_spurious taken)
  | update id totals =>
      simp only [FileTable.next, State.update] at taken
      split at taken
      · obtain rfl := Option.some.inj taken
        exact { counters with }
      · cases taken
  | completeTransfer =>
      obtain rfl := Option.some.inj taken
      exact { counters with }

/-! ## Every number is counted or held by a thread -/

variable [Fintype Thread]

/-- The numbers given out are those counted and those held by threads. -/
def Totalled (state : State Thread) : Prop :=
  state.fileCount + tally Adder.held state.adders = state.globalFino

omit [DecidableEq Thread] in
theorem Totalled.shared (totalled : Totalled state)
    (shared : Shared state after) : Totalled after := by
  obtain ⟨count_eq, fino_eq, adders_eq⟩ := shared
  rw [Totalled, count_eq, fino_eq, adders_eq]
  exact totalled

theorem totalled_setAdder {thread : Thread} {adder : Adder} (totalled : Totalled state)
    (held : adder.held = (state.adders thread).held) : Totalled (state.setAdder thread adder) := by
  rw [Totalled, State.setAdder]
  rw [tally_update_same held]
  exact totalled

theorem Totalled.add (totalled : Totalled state) {thread : Thread}
    (taken : state.add thread = some after) : Totalled after := by
  cases adding taken with
  | reserve at_adder _ _ | search _ at_adder | fill at_adder =>
      have held : (state.adders thread).held = 1 := by rw [at_adder]; rfl
      exact totalled_setAdder totalled held.symm
  | count at_adder =>
      have held : (state.adders thread).held = 1 := by rw [at_adder]; rfl
      have given : tally Adder.held (Function.update state.adders thread .idle) + 1 =
          tally Adder.held state.adders := by
        rw [← held]
        exact tally_update_give rfl
      change state.fileCount + 1 + tally Adder.held (Function.update state.adders thread .idle) =
        state.globalFino
      rw [Totalled] at totalled
      omega

theorem Totalled.next (totalled : Totalled state) {label : Label Thread}
    (taken : FileTable.next state label = some after) : Totalled after := by
  cases label with
  | take thread fd =>
      simp only [FileTable.next] at taken
      split at taken
      · rename_i at_idle
        obtain rfl := Option.some.inj taken
        have grown : tally Adder.held (Function.update state.adders thread
            (.reserve (1 + state.globalFino) fd 0)) = tally Adder.held state.adders + 1 :=
          tally_update_take (by rw [at_idle]; rfl)
        change state.fileCount + tally Adder.held (Function.update state.adders thread
          (.reserve (1 + state.globalFino) fd 0)) = state.globalFino + 1
        rw [Totalled] at totalled
        omega
      · cases taken
  | add thread => exact totalled.add taken
  | work id => exact totalled.shared (shared_work taken)
  | spurious id => exact totalled.shared (shared_failing (failing_of_spurious taken))
  | update id totals =>
      simp only [FileTable.next, State.update] at taken
      split at taken
      · obtain rfl := Option.some.inj taken
        exact totalled
      · cases taken
  | completeTransfer =>
      obtain rfl := Option.some.inj taken
      exact totalled

theorem totalled_reached (reached : (machine Thread).Reached state) : Totalled state := by
  refine reached.invariant Totalled ?_ fun _ _ _ totalled _ taken => totalled.next taken
  rintro _ rfl
  exact (Nat.zero_add _).trans (tally_zero fun _ => rfl)

/-- When no worker increments `file_head` past `file_count`, no number is claimed that is not
counted, and no worker waits for a file that will never be there. -/
theorem bounded_of_belowCount (reached : (machine Thread).ReachedUnder BelowCount state) :
    Bounded state := by
  have inv := inv_reached reached.reached
  have totalled := totalled_reached reached.reached
  have counters : Counters state := by
    refine reached.invariant Counters ?_ fun _ _ _ counters below taken => counters.next below taken
    rintro _ rfl
    exact counters_init
  refine ⟨counters.head_le, inv.heads, fun idle id fh waits => ?_⟩
  have mem := inv.waiting id fh waits
  have none_held : tally Adder.held state.adders = 0 :=
    tally_zero fun thread => by rw [idle thread]; rfl
  have positive : 1 ≤ fh := by
    have mem_map : fh ∈ state.claimed.map Prod.fst := List.mem_map_of_mem mem
    rw [inv.heads] at mem_map
    obtain ⟨index, -, rfl⟩ := List.mem_map.mp mem_map
    exact Nat.le_add_left 1 index
  have bounded : fh ≤ state.globalFino := by
    have claimed := inv.le_head mem
    have counted := counters.head_le
    rw [Totalled] at totalled
    omega
  refine inv.ready fh positive bounded (fun thread => ?_) (.inr ⟨id, waits⟩)
  rw [idle thread]
  simp [Adder.pending]

/-! ## One thread that adds files -/

/-- A file is opened and added to a free slot. -/
def addFile (fd : Int) : List (Label (Fin 1)) := .take 0 fd :: List.replicate 3 (.add 0)

/-- A worker claims the next file and leaves it. -/
def sendFile (id : Id) : List (Label (Fin 1)) := List.replicate 9 (.work id)

/-- Two files are sent by two workers. -/
theorem bounded_after_two : ∃ state, (machine (Fin 1)).run State.init
    (addFile 5 ++ addFile 6 ++ sendFile 0 ++ sendFile 1) = some state ∧
      state.fileHead = 2 ∧ Bounded state := by
  refine ⟨_, rfl, rfl, bounded_of_belowCount (.of_restrict (Machine.reached_of_run rfl
    (addFile 5 ++ addFile 6 ++ sendFile 0 ++ sendFile 1) rfl))⟩

/-- Worker 0 has seen 33 files ahead when it stops before its increment; worker 1 sends them all. -/
def overtaken : List (Label (Fin 1)) :=
  (List.replicate 33 (addFile 5)).flatten ++ [.work 0, .work 0] ++
    (List.replicate 33 (sendFile 1)).flatten ++ [.work 0]

theorem head_passes_count : ((machine (Fin 1)).run State.init overtaken).map
    (fun state => (state.fileHead, state.fileCount)) = some (34, 33) := by
  decide +kernel

/-- Arbitrary interleavings claim a number that no file has. -/
theorem not_bounded_of_reached :
    ¬∀ state : State (Fin 1), (machine (Fin 1)).Reached state → Bounded state := by
  intro bounded
  obtain ⟨state, taken, counters_eq⟩ := Option.map_eq_some_iff.mp head_passes_count
  have head_le := (bounded state (Machine.reached_of_run rfl overtaken taken)).head_le
  have head_eq : state.fileHead = 34 := congrArg Prod.fst counters_eq
  have count_eq : state.fileCount = 33 := congrArg Prod.snd counters_eq
  omega

end FileTable
end EScp
