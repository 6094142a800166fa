import EScp.ReceiveFiles
import Mathlib.Data.List.Sort

/-!
# The file lists of `iterate_files`

`iterate_files` reads the message channel until it has nothing for a moment, or enough, and then
sends the files whose turn it is: those that continue the numbers sent so far without a gap.  The
rest waits in a queue.  A step is one result of `recv_timeout` with what follows it up to the next
one.  Whether a list fits in a message is another matter.
-/

namespace EScp
namespace IterateFiles

open ReceiveFiles (FileEntry)

/-! ## The code -/

/-- What `fstat` has said about a file. -/
structure Stat where
  size : Int
  mode : Nat
  uid : Nat
  gid : Nat
  atimSec : Int
  atimNano : Int
  mtimSec : Int
  mtimNano : Int

/-- An entry of the message channel, as it waits in `vec`. -/
structure Queued where
  fino : Nat
  name : String
  st : Stat

/-- A file list that is sent. -/
structure FileList where
  root : String
  files : List FileEntry
  complete : Bool

/-- The arguments that decide what is sent. -/
structure Args where
  destPath : String
  preserve : Bool

/-- The entry of a file in a list. -/
def Args.entry (args : Args) (file : Queued) : FileEntry :=
  let entry : FileEntry := { name := file.name, fino := file.fino, sz := file.st.size }
  if args.preserve then
    { entry with
      mode := file.st.mode
      uid := file.st.uid
      gid := file.st.gid
      atimSec := file.st.atimSec
      atimNano := file.st.atimNano
      mtimSec := file.st.mtimSec
      mtimNano := file.st.mtimNano }
  else
    entry

structure State where
  vec : List Queued
  counter : Int
  counterMax : Int
  filesSent : Nat
  filesTotal : Nat
  /-- An `i64`. -/
  bytesTotal : BitVec 64
  didInit : Bool
  /-- `builder` has finished a buffer. -/
  finished : Bool
  /-- The lists given to `meta_send`. -/
  sent : List FileList

/-- How a step of `iterate_files` ends. -/
inductive Outcome where
  /-- At the head of a loop. -/
  | running (state : State)
  | returned (state : State)
  /-- A file did not verify. -/
  | exited
  /-- `builder` is used after it has finished. -/
  | panicked

/-- What `recv_timeout` returns. -/
inductive Event where
  | message (file : Queued)
  /-- A time-out, upon which `file_check` returns `checked`. -/
  | timeout (checked : Int)
  | disconnected

/-- `sort_by_key` with the number of a file. -/
def sortByFino (vec : List Queued) : List Queued :=
  vec.insertionSort fun left right => left.fino ≤ right.fino

/-- The loop over `vec`: the files to send and `files_sent` afterwards. -/
def takeBatch (filesSent : Nat) : List Queued → List Queued × Nat
  | [] => ([], filesSent)
  | file :: rest =>
      if 0 < file.fino ∧ file.fino ≠ filesSent + 1 then ([], filesSent)
      else
        let (batch, last) := takeBatch (if 0 < file.fino then filesSent + 1 else filesSent) rest
        (file :: batch, last)

/-- `do_break` ends the loop. -/
def State.finish (state : State) (doBreak : Bool) : Outcome :=
  if doBreak then .returned state else .running state

/-- The rest of a round, after the loop that receives. -/
def State.flush (args : Args) (state : State) (doBreak : Bool) : Outcome :=
  if 0 < state.counter then
    let vec := sortByFino state.vec
    let (batch, filesSent) := takeBatch state.filesSent vec
    if batch = [] then .running { state with vec := vec }
    else if state.finished then .panicked
    else
      State.finish { state with
        vec := vec.drop batch.length
        filesSent := filesSent
        didInit := false
        finished := true
        sent := state.sent ++ [⟨args.destPath, batch.map args.entry, doBreak⟩]
        counter := state.counter - batch.length } doBreak
  else
    state.finish doBreak

/-- A round of the loop that receives begins with a builder. -/
def State.begin (state : State) : State :=
  if state.didInit then state else { state with finished := false, didInit := true }

/-- One step. -/
def State.step (args : Args) (state : State) : Event → Outcome
  | .message file =>
      let state := state.begin
      let state := { state with
        vec := state.vec ++ [file]
        filesTotal := state.filesTotal + 1
        bytesTotal := state.bytesTotal + BitVec.ofInt 64 file.st.size
        counter := state.counter + 1 }
      if state.counterMax < state.counter then
        { state with counterMax := 300 }.flush args false
      else
        .running state
  | .timeout checked => if checked = 1 then state.begin.flush args false else .exited
  | .disconnected => state.begin.flush args true

/-- The loops of `iterate_files`. -/
def State.run (args : Args) : State → List Event → Outcome
  | state, [] => .running state
  | state, event :: events =>
      match state.step args event with
      | .running after => after.run args events
      | ended => ended

/-- The state before the loops. -/
def State.init : State where
  vec := []
  counter := 0
  counterMax := 8
  filesSent := 0
  filesTotal := 0
  bytesTotal := 0
  didInit := false
  finished := false
  sent := []

/-! ## What is sent -/

/-- The entries that have come from the message channel. -/
def arrivals (events : List Event) : List Queued :=
  events.filterMap fun event =>
    match event with
    | .message file => some file
    | _ => none

/-- All the files sent. -/
def State.files (state : State) : List FileEntry := state.sent.flatMap FileList.files

/-- The sum of the sizes, in an `i64`. -/
def totalSize (files : List Queued) : BitVec 64 :=
  BitVec.ofInt 64 (files.map fun file => file.st.size).sum

/-- Batches are what continues the numbers without a gap. -/
theorem takeBatch_eq (filesSent : Nat) {vec : List Queued}
    (numbered : ∀ file ∈ vec, 0 < file.fino) :
    (takeBatch filesSent vec).1 <+: vec ∧
      (takeBatch filesSent vec).1.map Queued.fino =
        List.range' (filesSent + 1) (takeBatch filesSent vec).1.length ∧
      (takeBatch filesSent vec).2 = filesSent + (takeBatch filesSent vec).1.length := by
  induction vec generalizing filesSent with
  | nil => exact ⟨List.prefix_rfl, rfl, rfl⟩
  | cons file rest ih =>
      rw [takeBatch]
      split
      · exact ⟨List.nil_prefix, rfl, rfl⟩
      · rename_i turn
        have positive := numbered file List.mem_cons_self
        have next : file.fino = filesSent + 1 := by omega
        obtain ⟨front, numbers, last⟩ :=
          ih (filesSent + 1) fun other mem => numbered other (List.mem_cons_of_mem _ mem)
        rw [if_pos positive]
        refine ⟨List.cons_prefix_cons.mpr ⟨rfl, front⟩, ?_, ?_⟩
        · rw [List.map_cons, numbers, next, List.length_cons, List.range'_succ]
        · rw [last, List.length_cons]
          omega

/-- A queue without a gap is sent as a whole. -/
theorem takeBatch_whole (filesSent : Nat) {vec : List Queued}
    (numbers : vec.map Queued.fino = List.range' (filesSent + 1) vec.length) :
    (takeBatch filesSent vec).1 = vec := by
  induction vec generalizing filesSent with
  | nil => rfl
  | cons file rest ih =>
      rw [List.map_cons, List.length_cons, List.range'_succ] at numbers
      obtain ⟨next, numbers⟩ := List.cons.inj numbers
      have positive : 0 < file.fino := by omega
      rw [takeBatch, if_neg (by omega), if_pos positive]
      exact congrArg (file :: ·) (ih (filesSent + 1) numbers)

/-- What has been sent, what waits, and the counters. -/
structure Inv (args : Args) (got : List Queued) (state : State) : Prop where
  sent : ∃ done : List Queued, state.files = done.map args.entry ∧
    done.map Queued.fino = List.range' 1 state.filesSent ∧ (done ++ state.vec).Perm got
  counter : state.counter = state.vec.length
  filesTotal : state.filesTotal = got.length
  bytesTotal : state.bytesTotal = totalSize got
  builder : state.didInit = true → state.finished = false

section Steps

variable {args : Args} {got : List Queued} {state : State}

theorem totalSize_concat (files : List Queued) (file : Queued) :
    totalSize (files ++ [file]) = totalSize files + BitVec.ofInt 64 file.st.size := by
  rw [totalSize, List.map_append, List.sum_append, BitVec.ofInt_add]
  simp [totalSize]

theorem Inv.begin (inv : Inv args got state) :
    Inv args got state.begin ∧ state.begin.finished = false := by
  rw [State.begin]
  split
  · rename_i ready
    exact ⟨inv, inv.builder ready⟩
  · exact ⟨{ inv with builder := fun _ => rfl }, rfl⟩

theorem Inv.message (inv : Inv args got state) (file : Queued) (counterMax : Int) :
    Inv args (got ++ [file]) { state with
      vec := state.vec ++ [file]
      filesTotal := state.filesTotal + 1
      bytesTotal := state.bytesTotal + BitVec.ofInt 64 file.st.size
      counter := state.counter + 1
      counterMax := counterMax } := by
  obtain ⟨done, files, numbers, perm⟩ := inv.sent
  constructor
  · refine ⟨done, files, numbers, ?_⟩
    rw [← List.append_assoc]
    exact perm.append_right [file]
  · simp [inv.counter]
  · simp [inv.filesTotal]
  · rw [totalSize_concat, ← inv.bytesTotal]
  · exact inv.builder

/-- What waits is numbered as it has come. -/
theorem Inv.numbered (inv : Inv args got state) (numbered : ∀ file ∈ got, 0 < file.fino) :
    ∀ file ∈ sortByFino state.vec, 0 < file.fino := by
  obtain ⟨done, -, -, perm⟩ := inv.sent
  intro file mem
  have waits := (List.perm_insertionSort _ state.vec).mem_iff.mp mem
  exact numbered file (perm.mem_iff.mp (List.mem_append_right _ waits))

/-- A batch is sent. -/
theorem Inv.batch (inv : Inv args got state) (numbered : ∀ file ∈ got, 0 < file.fino)
    (doBreak : Bool) :
    Inv args got { state with
      vec := (sortByFino state.vec).drop (takeBatch state.filesSent (sortByFino state.vec)).1.length
      filesSent := (takeBatch state.filesSent (sortByFino state.vec)).2
      didInit := false
      finished := true
      sent := state.sent ++ [⟨args.destPath,
        (takeBatch state.filesSent (sortByFino state.vec)).1.map args.entry, doBreak⟩]
      counter := state.counter -
        (takeBatch state.filesSent (sortByFino state.vec)).1.length } := by
  obtain ⟨done, files, numbers, perm⟩ := inv.sent
  obtain ⟨front, batch_numbers, last⟩ := takeBatch_eq state.filesSent (inv.numbered numbered)
  have sorted := List.perm_insertionSort
    (fun left right : Queued => left.fino ≤ right.fino) state.vec
  have split_vec := List.prefix_iff_eq_append.mp front
  constructor
  · refine ⟨done ++ (takeBatch state.filesSent (sortByFino state.vec)).1, ?_, ?_, ?_⟩
    · rw [List.map_append, ← files]
      simp [State.files]
    · rw [List.map_append, numbers, batch_numbers, last, Nat.add_comm state.filesSent 1]
      exact List.range'_append_1
    · rw [List.append_assoc, split_vec]
      exact (sorted.append_left done).trans perm
  · have length := congrArg List.length split_vec
    rw [List.length_append] at length
    have same : (sortByFino state.vec).length = state.vec.length := sorted.length_eq
    change state.counter - _ = (List.drop _ _).length
    rw [inv.counter]
    omega
  · exact inv.filesTotal
  · exact inv.bytesTotal
  · intro ready
    cases ready

/-- The rest of a round that goes on. -/
theorem Inv.flush (inv : Inv args got state) (fresh : state.finished = false)
    (numbered : ∀ file ∈ got, 0 < file.fino) :
    ∃ after, state.flush args false = .running after ∧ Inv args got after := by
  rw [State.flush]
  split
  · dsimp only
    split
    · obtain ⟨done, files, numbers, perm⟩ := inv.sent
      have sorted := List.perm_insertionSort
        (fun left right : Queued => left.fino ≤ right.fino) state.vec
      refine ⟨_, rfl, { inv with
        sent := ⟨done, files, numbers, (sorted.append_left done).trans perm⟩
        counter := inv.counter.trans (congrArg Nat.cast sorted.length_eq.symm) }⟩
    · rw [fresh, if_neg Bool.false_ne_true]
      exact ⟨_, rfl, inv.batch numbered false⟩
  · exact ⟨state, rfl, inv⟩

/-- When all files have come, the queue continues what has been sent. -/
theorem Inv.whole (inv : Inv args got state) {count : Nat}
    (numbers : (got.map Queued.fino).Perm (List.range' 1 count)) :
    (sortByFino state.vec).map Queued.fino =
        List.range' (state.filesSent + 1) (sortByFino state.vec).length ∧
      state.filesSent + (sortByFino state.vec).length = count := by
  obtain ⟨done, -, done_numbers, perm⟩ := inv.sent
  have all := (perm.map Queued.fino).trans numbers
  rw [List.map_append, done_numbers] at all
  have lengths : state.filesSent + state.vec.length = count := by
    have same := all.length_eq
    rwa [List.length_append, List.length_range', List.length_map, List.length_range'] at same
  have continues : (state.vec.map Queued.fino).Perm
      (List.range' (1 + state.filesSent) state.vec.length) := by
    rw [← lengths, ← List.range'_append_1] at all
    exact (List.perm_append_left_iff _).mp all
  have sorted_length : (sortByFino state.vec).length = state.vec.length :=
    List.length_insertionSort _ _
  have in_order : (sortByFino state.vec).map Queued.fino =
      (state.vec.map Queued.fino).insertionSort (· ≤ ·) :=
    List.map_insertionSort _ _ _ _ fun _ _ _ _ => Iff.rfl
  refine ⟨?_, by rw [sorted_length, lengths]⟩
  rw [in_order, sorted_length, Nat.add_comm state.filesSent 1]
  refine ((List.perm_insertionSort _ _).trans continues).eq_of_pairwise'
    (List.pairwise_insertionSort _ _) ?_
  exact List.pairwise_le_range' 1

/-- The last round. -/
theorem Inv.flush_last (inv : Inv args got state) (fresh : state.finished = false) {count : Nat}
    (numbers : (got.map Queued.fino).Perm (List.range' 1 count)) :
    ∃ after, state.flush args true = .returned after ∧ Inv args got after ∧ after.vec = [] := by
  have numbered : ∀ file ∈ got, 0 < file.fino := by
    intro file mem
    have listed := numbers.mem_iff.mp (List.mem_map_of_mem mem)
    rw [List.mem_range'_1] at listed
    omega
  have whole := takeBatch_whole state.filesSent (inv.whole numbers).1
  have sorted_length : (sortByFino state.vec).length = state.vec.length :=
    List.length_insertionSort _ _
  rw [State.flush]
  split
  · rename_i waiting
    have some_left : sortByFino state.vec ≠ [] := by
      intro nil
      rw [nil, List.length_nil] at sorted_length
      rw [inv.counter, ← sorted_length] at waiting
      cases waiting
    dsimp only
    rw [if_neg fun nil => some_left (whole.symm.trans nil), fresh, if_neg Bool.false_ne_true]
    refine ⟨_, rfl, inv.batch numbered true, ?_⟩
    change List.drop _ _ = []
    rw [whole, List.drop_length]
  · rename_i none_waiting
    refine ⟨state, rfl, inv, ?_⟩
    rw [inv.counter] at none_waiting
    exact List.length_eq_zero_iff.mp (by omega)

theorem inv_init (args : Args) : Inv args [] State.init :=
  ⟨⟨[], rfl, rfl, List.Perm.refl _⟩, rfl, rfl, rfl, nofun⟩

/-- A message or a time-out. -/
theorem Inv.step (inv : Inv args got state) {event : Event}
    (numbered : ∀ file ∈ got ++ arrivals [event], 0 < file.fino)
    (open_channel : event ≠ .disconnected)
    (checked : ∀ result, event = .timeout result → result = 1) :
    ∃ after, state.step args event = .running after ∧ Inv args (got ++ arrivals [event]) after := by
  obtain ⟨begun, fresh⟩ := inv.begin
  cases event with
  | disconnected => exact absurd rfl open_channel
  | timeout result =>
      rw [checked result rfl, State.step, if_pos rfl]
      have same : got ++ arrivals [.timeout 1] = got := List.append_nil got
      rw [same]
      rw [checked result rfl, same] at numbered
      exact begun.flush fresh numbered
  | message file =>
      rw [State.step]
      dsimp only
      split
      · exact (begun.message file 300).flush fresh numbered
      · exact ⟨_, rfl, begun.message file state.begin.counterMax⟩

theorem run_append {events : List Event} {after : State} (others : List Event)
    (ran : state.run args events = .running after) :
    state.run args (events ++ others) = after.run args others := by
  induction events generalizing state with
  | nil =>
      rw [State.run] at ran
      cases ran
      rfl
  | cons event events ih =>
      rw [State.run] at ran
      rw [List.cons_append, State.run]
      split at ran
      · exact ih ran
      · rename_i ended
        exact absurd ran (ended after)

/-- What comes from the channel while it is open, with no file that fails to verify. -/
structure Open (events : List Event) : Prop where
  connected : .disconnected ∉ events
  checked : ∀ result, .timeout result ∈ events → result = 1

theorem Inv.run (inv : Inv args got state) {events : List Event} (live : Open events)
    (numbered : ∀ file ∈ got ++ arrivals events, 0 < file.fino) :
    ∃ after, state.run args events = .running after ∧ Inv args (got ++ arrivals events) after := by
  induction events generalizing got state with
  | nil => exact ⟨state, rfl, (List.append_nil got).symm ▸ inv⟩
  | cons event events ih =>
      have split_arrivals : arrivals (event :: events) = arrivals [event] ++ arrivals events :=
        List.filterMap_append (l := [event])
      rw [split_arrivals, ← List.append_assoc] at numbered ⊢
      obtain ⟨middle, stepped, middle_inv⟩ := inv.step
        (fun file mem => numbered file (List.mem_append_left _ mem))
        (fun same => live.connected (same ▸ List.mem_cons_self))
        (fun result same => live.checked result (same ▸ List.mem_cons_self))
      obtain ⟨after, ran, after_inv⟩ := ih middle_inv
        ⟨fun mem => live.connected (List.mem_cons_of_mem _ mem),
          fun result mem => live.checked result (List.mem_cons_of_mem _ mem)⟩ numbered
      refine ⟨after, ?_, after_inv⟩
      rw [State.run, stepped]
      exact ran

end Steps

/-! ## A burst of files -/

section Burst

variable {args : Args} {state : State}

theorem begin_eq (builder : state.didInit = true → state.finished = false) :
    state.begin = { state with finished := false, didInit := true } := by
  rw [State.begin]
  split
  · rename_i begun
    rw [← begun, ← builder begun]
  · rfl

/-- Files wait while there is room in a round. -/
theorem run_messages (files : List Queued)
    (room : state.counter + files.length ≤ state.counterMax)
    (builder : state.didInit = true → state.finished = false) :
    ∃ after, state.run args (files.map .message) = .running after ∧
      after.vec = state.vec ++ files ∧ after.counter = state.counter + files.length ∧
        after.filesSent = state.filesSent ∧ after.sent = state.sent ∧
          (after.didInit = true → after.finished = false) := by
  induction files generalizing state with
  | nil =>
      refine ⟨state, rfl, (List.append_nil _).symm, ?_, rfl, rfl, builder⟩
      exact (Int.add_zero _).symm
  | cons file files ih =>
      rw [List.length_cons] at room
      have stepped : state.step args (.message file) = .running { state with
          vec := state.vec ++ [file]
          filesTotal := state.filesTotal + 1
          bytesTotal := state.bytesTotal + BitVec.ofInt 64 file.st.size
          counter := state.counter + 1
          finished := false
          didInit := true } := by
        rw [State.step, begin_eq builder]
        dsimp only
        rw [if_neg (by omega)]
      obtain ⟨after, ran, vec, counter, others⟩ :=
        @ih { state with
          vec := state.vec ++ [file]
          filesTotal := state.filesTotal + 1
          bytesTotal := state.bytesTotal + BitVec.ofInt 64 file.st.size
          counter := state.counter + 1
          finished := false
          didInit := true } (by dsimp only; omega) fun _ => rfl
      refine ⟨after, ?_, ?_, ?_, others⟩
      · rw [List.map_cons, State.run, stepped]
        exact ran
      · rw [vec, List.append_assoc]
        rfl
      · rw [counter, List.length_cons]
        dsimp only
        omega

/-- Files that continue the numbers in order are sent in one list when nothing comes for a
moment. -/
theorem step_timeout_of_whole (waiting : 0 < state.counter) (some_file : state.vec ≠ [])
    (numbers : state.vec.map Queued.fino = List.range' (state.filesSent + 1) state.vec.length)
    (builder : state.didInit = true → state.finished = false) :
    ∃ after, state.step args (.timeout 1) = .running after ∧
      after.sent = state.sent ++ [⟨args.destPath, state.vec.map args.entry, false⟩] := by
  have in_order : sortByFino state.vec = state.vec := by
    apply List.Pairwise.insertionSort_eq
    have ascending : (state.vec.map Queued.fino).Pairwise (· ≤ ·) := by
      rw [numbers]
      exact List.pairwise_le_range' 1
    exact List.pairwise_map.mp ascending
  have whole := takeBatch_whole state.filesSent numbers
  rw [State.step, begin_eq builder, if_pos rfl, State.flush, if_pos waiting]
  dsimp only
  rw [in_order, whole, if_neg some_file]
  exact ⟨_, rfl, rfl⟩

end Burst

/-! ## The whole run -/

/-- The lists sent are the files from 1 on in order, each once, and the counters agree. -/
structure Complete (args : Args) (count : Nat) (files : List Queued) (state : State) : Prop where
  sent : ∃ ordered : List Queued, ordered.Perm files ∧
    ordered.map Queued.fino = List.range' 1 count ∧ state.files = ordered.map args.entry
  vec : state.vec = []
  filesTotal : state.filesTotal = count
  bytesTotal : state.bytesTotal = totalSize files

/-- When the channel is disconnected after all files have come, they have all been sent in order. -/
theorem complete_of_disconnected (args : Args) {events : List Event} (live : Open events)
    {count : Nat}
    (numbers : ((arrivals events).map Queued.fino).Perm (List.range' 1 count)) :
    ∃ state, State.init.run args (events ++ [.disconnected]) = .returned state ∧
      Complete args count (arrivals events) state := by
  have numbered : ∀ file ∈ arrivals events, 0 < file.fino := by
    intro file mem
    have listed := numbers.mem_iff.mp (List.mem_map_of_mem mem)
    rw [List.mem_range'_1] at listed
    omega
  obtain ⟨state, ran, inv⟩ := (inv_init args).run live numbered
  obtain ⟨begun, fresh⟩ := inv.begin
  obtain ⟨after, last, after_inv, empty⟩ := begun.flush_last fresh numbers
  have returned : State.init.run args (events ++ [.disconnected]) = .returned after := by
    rw [run_append _ ran, State.run, State.step, last]
  obtain ⟨done, files, done_numbers, perm⟩ := after_inv.sent
  rw [empty, List.append_nil, List.nil_append] at perm
  have length : (arrivals events).length = count := by
    have same := numbers.length_eq
    rwa [List.length_map, List.length_range'] at same
  have all_sent : after.filesSent = count := by
    have listed := congrArg List.length done_numbers
    rw [List.length_map, List.length_range', perm.length_eq, length] at listed
    exact listed.symm
  rw [all_sent] at done_numbers
  exact ⟨after, returned, ⟨done, perm, done_numbers, files⟩, empty,
    after_inv.filesTotal.trans length, after_inv.bytesTotal⟩

/-- Whatever the order of arrival and the time-outs, the counter is the length of the queue at each
loop head, and when the channel is disconnected after all files have come the function returns
with all of them sent in order. -/
theorem run_complete (args : Args) {events : List Event} (live : Open events) {count : Nat}
    (numbers : ((arrivals events).map Queued.fino).Perm (List.range' 1 count)) :
    (∀ front, front <+: events → ∃ state, State.init.run args front = .running state ∧
      state.counter = state.vec.length) ∧
      ∃ state, State.init.run args (events ++ [.disconnected]) = .returned state ∧
        Complete args count (arrivals events) state := by
  have numbered : ∀ file ∈ arrivals events, 0 < file.fino := by
    intro file mem
    have listed := numbers.mem_iff.mp (List.mem_map_of_mem mem)
    rw [List.mem_range'_1] at listed
    omega
  constructor
  · rintro front ⟨back, rfl⟩
    have front_numbered : ∀ file ∈ arrivals front, 0 < file.fino := by
      intro file mem
      refine numbered file ?_
      rw [arrivals, List.filterMap_append]
      exact List.mem_append_left _ mem
    obtain ⟨state, ran, inv⟩ := (inv_init args).run
      ⟨fun mem => live.connected (List.mem_append_left _ mem),
        fun result mem => live.checked result (List.mem_append_left _ mem)⟩ front_numbered
    exact ⟨state, ran, inv.counter⟩
  · obtain ⟨state, ran, inv⟩ := (inv_init args).run live numbered
    obtain ⟨begun, fresh⟩ := inv.begin
    obtain ⟨after, last, after_inv, empty⟩ := begun.flush_last fresh numbers
    refine ⟨after, ?_, ?_⟩
    · rw [run_append _ ran, State.run, State.step, last]
    · obtain ⟨done, files, done_numbers, perm⟩ := after_inv.sent
      rw [empty, List.append_nil, List.nil_append] at perm
      have length : (arrivals events).length = count := by
        have same := numbers.length_eq
        rwa [List.length_map, List.length_range'] at same
      have all_sent : after.filesSent = count := by
        have listed := congrArg List.length done_numbers
        rw [List.length_map, List.length_range', perm.length_eq, length] at listed
        exact listed.symm
      rw [all_sent] at done_numbers
      exact ⟨⟨done, perm, done_numbers, files⟩, empty, after_inv.filesTotal.trans length,
        after_inv.bytesTotal⟩

/-! ## Two files that come in the wrong order -/

/-- A file of some size that nothing else is known of. -/
def plainFile (fino : Nat) (name : String) (size : Int) : Queued :=
  ⟨fino, name, ⟨size, 0o644, 0, 0, 0, 0, 0, 0⟩⟩

/-- The second file comes first, and a time-out between them. -/
def swapped : List Event :=
  [.message (plainFile 2 "b" 5), .timeout 1, .message (plainFile 1 "a" 3)]

theorem run_complete_of_swapped :
    ∃ state, State.init.run ⟨"dst", false⟩ (swapped ++ [.disconnected]) = .returned state ∧
      Complete ⟨"dst", false⟩ 2 [plainFile 2 "b" 5, plainFile 1 "a" 3] state := by
  have live : Open swapped := ⟨by simp [swapped], by simp [swapped]⟩
  have numbers : ((arrivals swapped).map Queued.fino).Perm (List.range' 1 2) :=
    List.Perm.swap 1 2 []
  exact (run_complete ⟨"dst", false⟩ live numbers).2

end IterateFiles
end EScp
