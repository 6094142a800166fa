import EScp.Transition
import Mathlib.Data.List.Sort
import Mathlib.Data.List.Perm.Subperm
import Mathlib.Tactic

/-!
# Confirmations on the sender

`fc_worker` passes the checksum of a finished file to the main thread through `fc_out`, and the
number of its blocks, for the completion message, through `fc2_out`.  The main thread puts names and
checksums in one map while it lists files, sends completions and handles the confirmations of the
receiver, and it leaves when it has counted as many matches as it has announced files.
-/

namespace EScp
namespace Confirmation

/-- The fields of an entry of a `msg_file_stat` message that decide how it is handled. -/
structure Entry where
  fino : UInt64
  crc : UInt32
  errno : Int
deriving DecidableEq

/-- An entry without error confirms a file. -/
def Entry.Confirms (entry : Entry) : Prop := entry.errno ≤ 0

instance (entry : Entry) : Decidable entry.Confirms := by
  unfold Entry.Confirms
  infer_instance

/-- A message of the receiver. -/
inductive Message where
  /-- `msg_file_stat` with its entries. -/
  | fileStat (files : List Entry)
  | keepalive
  /-- `msg_message`, an error of the receiver. -/
  | failure
  | unexpected

/-- The entries of a message. -/
def Message.entries : Message → List Entry
  | .fileStat files => files
  | _ => []

/-- Where `fc_worker` stands. -/
inductive FcWorker where
  /-- About to call `fc_pop`. -/
  | pop
  /-- Between the two sends. -/
  | sendBlocks (fino blocks : UInt64)
  /-- The channels are closed. -/
  | returned

/-- Which loop of the main thread calls `file_check`. -/
inductive Stage where
  | iterateFiles
  | progress
  | final
deriving DecidableEq

/-- Where the main thread stands. -/
inductive Main where
  | loop
  /-- In `handle_msg_from_receiver` with these entries to go. -/
  | handle (files : List Entry)
  /-- In `send_file_complete` with the records it has taken. -/
  | complete (vec : List (UInt64 × UInt64))
  /-- `handle_msg_from_receiver` has returned -1: all callers exit. -/
  | failed
  /-- After `process::exit` for an error of the receiver. -/
  | exited
  /-- The final loop has been left. -/
  | left
deriving DecidableEq

/-- `fc_worker`, the main thread of the sender and the messages of the receiver. -/
structure State where
  worker : FcWorker
  fcOut : List (UInt64 × UInt32)
  fc2Out : List (UInt64 × UInt64)
  hm : UInt64 → Option (Int × String)
  filesOk : Nat
  filesTotal : Nat
  stage : Stage
  main : Main
  /-- The messages of the receiver that `meta_recv` has not returned. -/
  inbox : List Message
  /-- The files of every completion message sent. -/
  completed : List (UInt64 × UInt64)
  /-- The file numbers that `iterate_files` has put in the map. -/
  announced : List UInt64
  /-- The checksum that `fc_worker` has sent for a file. -/
  delivered : UInt64 → Option UInt32
  /-- Every confirmation that the receiver has sent. -/
  confirmed : List Entry
  /-- Every confirmation that has been compared. -/
  checked : List Entry

/-- One step. -/
inductive Label where
  /-- `fc_worker` takes a record and sends its checksum. -/
  | pop (fino : UInt64) (crc : UInt32) (blocks : UInt64)
  | sendBlocks
  /-- `fc_worker` takes a record without file number. -/
  | stop
  /-- `iterate_files` takes a file from `msg_out`. -/
  | announce (fino : UInt64) (name : String)
  /-- The main thread enters its next loop. -/
  | advance
  /-- The receiver sends a message. -/
  | receive (message : Message)
  /-- The main thread calls `file_check`. -/
  | check
  /-- The main thread goes on in `file_check`. -/
  | work
  /-- The main thread compares `files_ok` with `files_total` in its final loop. -/
  | leave

/-- `fc_worker` sends the checksum of a file. -/
def State.deliver (state : State) (fino : UInt64) (crc : UInt32) (blocks : UInt64) : State :=
  { state with
    worker := .sendBlocks fino blocks
    fcOut := state.fcOut ++ [(fino, crc)]
    delivered := Function.update state.delivered fino (some crc) }

/-- The insertion of a name, which keeps a checksum that is there. -/
def State.insertName (state : State) (fino : UInt64) (name : String) : State :=
  let crc := match state.hm fino with
    | some (crc, _) => crc
    | none => -1
  { state with hm := Function.update state.hm fino (some (crc, name)) }

/-- The insertion of a checksum, which keeps a name that is there. -/
def State.insertCrc (state : State) (fino : UInt64) (crc : UInt32) : State :=
  let name := match state.hm fino with
    | some (_, name) => name
    | none => ""
  { state with hm := Function.update state.hm fino (some (crc.toNat, name)) }

/-- The comparison of a confirmation with the checksum in the map; `unwrap` ends the process when
there is none. -/
def State.compare (state : State) (entry : Entry) (files : List Entry) : State :=
  match state.hm entry.fino with
  | none => { state with main := .exited }
  | some (crc, _) =>
      if UInt32.ofInt crc ≠ entry.crc then
        { state with main := .failed, checked := state.checked ++ [entry] }
      else
        { state with
          filesOk := state.filesOk + 1
          hm := Function.update state.hm entry.fino none
          main := .handle files
          checked := state.checked ++ [entry] }

/-- One turn of the loop that looks for the checksum of a confirmed file. -/
def State.search (state : State) (entry : Entry) (files : List Entry) : State :=
  match state.fcOut with
  | [] =>
      match state.worker with
      | .returned => { state with main := .failed }
      | _ => state
  | (txFino, crc) :: rest =>
      let inserted := { state with fcOut := rest }.insertCrc txFino crc
      if entry.fino = txFino then inserted.compare entry files else inserted

/-- One step for an entry in `handle_msg_from_receiver`. -/
def State.handle (state : State) (entry : Entry) (files : List Entry) : State :=
  if 0 < entry.errno then
    { state with main := .exited }
  else if entry.fino = 0 ∧ entry.crc = 0 then
    { state with
      filesOk := state.filesOk + 1
      main := .handle files
      checked := state.checked ++ [entry] }
  else
    match state.hm entry.fino with
    | some (crc, _) => if crc ≠ -1 then state.compare entry files else state.search entry files
    | none => state.search entry files

/-- The completion message of `send_file_complete`. -/
def State.sendComplete (state : State) (vec : List (UInt64 × UInt64)) : State :=
  { state with
    main := .loop
    completed := state.completed ++ vec.insertionSort fun left right => left.1 ≤ right.1 }

/-- One turn of the loop of `send_file_complete`; what it has taken is dropped when the channel is
closed. -/
def State.complete (state : State) (vec : List (UInt64 × UInt64)) : State :=
  match state.fc2Out with
  | [] =>
      match state.worker with
      | .returned => { state with main := .loop }
      | _ => state.sendComplete vec
  | record :: rest =>
      let taken := { state with fc2Out := rest }
      if 2600 < (vec ++ [record]).length then
        taken.sendComplete (vec ++ [record])
      else
        { taken with main := .complete (vec ++ [record]) }

/-- The begin of `file_check`: a message is handled, and completions are sent when there is
none. -/
def State.check (state : State) : State :=
  match state.inbox with
  | [] => { state with main := .complete [] }
  | .fileStat files :: rest => { state with inbox := rest, main := .handle files }
  | .failure :: rest => { state with inbox := rest, main := .exited }
  | _ :: rest => { state with inbox := rest }

/-- The main thread goes on in `file_check`. -/
def State.work (state : State) : Option State :=
  match state.main with
  | .handle [] => some { state with main := .loop }
  | .handle (entry :: files) => some (state.handle entry files)
  | .complete vec => some (state.complete vec)
  | _ => none

/-- The confirmations of a message. -/
def Message.confirmations (message : Message) : List Entry :=
  message.entries.filter fun entry => entry.Confirms

/-- The receiver confirms announced files, each once, after it was sent the completion. -/
def State.MayReceive (state : State) (message : Message) : Prop :=
  ((state.confirmed ++ message.confirmations).map Entry.fino).Nodup ∧
    ∀ entry ∈ message.confirmations,
      entry.fino ∈ state.announced ∧ entry.fino ∈ state.completed.map Prod.fst

instance (state : State) (message : Message) : Decidable (state.MayReceive message) := by
  unfold State.MayReceive
  infer_instance

/-- One step; file numbers are not zero, and each belongs to one file, which is finished once. -/
def next (state : State) : Label → Option State
  | .pop fino crc blocks =>
      match state.worker with
      | .pop =>
          if fino ≠ 0 ∧ state.delivered fino = none then
            some (state.deliver fino crc blocks)
          else
            none
      | _ => none
  | .sendBlocks =>
      match state.worker with
      | .sendBlocks fino blocks =>
          some { state with worker := .pop, fc2Out := state.fc2Out ++ [(fino, blocks)] }
      | _ => none
  | .stop =>
      match state.worker with
      | .pop => some { state with worker := .returned }
      | _ => none
  | .announce fino name =>
      if state.main = .loop ∧ state.stage = .iterateFiles ∧ fino ≠ 0 ∧
          fino ∉ state.announced then
        some { state.insertName fino name with
          filesTotal := state.filesTotal + 1
          announced := state.announced ++ [fino] }
      else
        none
  | .advance =>
      if state.main = .loop then
        some { state with
          stage := match state.stage with
            | .iterateFiles => .progress
            | _ => .final }
      else
        none
  | .receive message =>
      if state.MayReceive message then
        some { state with
          inbox := state.inbox ++ [message]
          confirmed := state.confirmed ++ message.confirmations }
      else
        none
  | .check => if state.main = .loop then some state.check else none
  | .work => state.work
  | .leave =>
      if state.main = .loop ∧ state.stage = .final ∧ state.filesTotal ≤ state.filesOk then
        some { state with main := .left }
      else
        none

/-- The state when `iterate_files` is called. -/
def State.init : State where
  worker := .pop
  fcOut := []
  fc2Out := []
  hm _ := none
  filesOk := 0
  filesTotal := 0
  stage := .iterateFiles
  main := .loop
  inbox := []
  completed := []
  announced := []
  delivered _ := none
  confirmed := []
  checked := []

/-- The interleavings of `fc_worker`, the main thread and the receiver. -/
def machine : Machine State Label where
  initial state := state = State.init
  next := next

/-- A confirmation has the checksum that `fc_worker` has delivered. -/
def State.Agrees (state : State) (entry : Entry) : Prop :=
  state.delivered entry.fino = some entry.crc

instance (state : State) (entry : Entry) : Decidable (state.Agrees entry) := by
  unfold State.Agrees
  infer_instance

/-- The checksum of a file can be had without waiting. -/
def State.Available (state : State) (fino : UInt64) : Prop :=
  fino ∈ state.fcOut.map Prod.fst ∨ ∃ crc name, state.hm fino = some (crc, name) ∧ crc ≠ -1

/-- The confirmations that the main thread is handling. -/
def Main.pending : Main → List Entry
  | .handle files => files.filter fun entry => entry.Confirms
  | _ => []

/-- The records that `send_file_complete` has taken. -/
def Main.taken : Main → List (UInt64 × UInt64)
  | .complete vec => vec
  | _ => []

/-- The file number between the two sends. -/
def FcWorker.between : FcWorker → List UInt64
  | .sendBlocks fino _ => [fino]
  | _ => []

/-- The main thread has given up. -/
def Main.Aborted (main : Main) : Prop := main = .failed ∨ main = .exited

/-- The accounts of the sender are right. -/
structure Sound (state : State) : Prop where
  /-- `files_ok` counts the confirmations that agree, which are of distinct files. -/
  counts : state.filesOk = (state.checked.filter fun entry => state.Agrees entry).length
  distinct : (state.checked.map Entry.fino).Nodup
  /-- The confirmations of the receiver are compared in order. -/
  handled : state.checked <+: state.confirmed
  accounted : ¬state.main.Aborted → state.confirmed =
    state.checked ++ (state.main.pending ++ state.inbox.flatMap Message.confirmations)
  /-- -1 is returned for a checksum that differs, and for nothing else. -/
  fails : state.main = .failed ↔ ∃ entry ∈ state.checked, ¬state.Agrees entry
  /-- The checksum of the file that is being confirmed is there. -/
  never_waits : ∀ entry files, state.main = .handle (entry :: files) → entry.Confirms →
    state.Available entry.fino
  /-- All announced files have been confirmed when the final loop has been left. -/
  complete : state.main = .left → state.announced.length = state.filesTotal ∧
    (state.checked.map Entry.fino).Perm state.announced ∧
      ∀ entry ∈ state.checked, state.Agrees entry

/-- The file numbers on their way to a completion message. -/
def State.finished (state : State) : List UInt64 :=
  state.completed.map Prod.fst ++ (state.main.taken.map Prod.fst ++
    (state.fc2Out.map Prod.fst ++ state.worker.between))

/-- The invariant of the sender. -/
structure Inv (state : State) : Prop where
  counts : state.filesOk = (state.checked.filter fun entry => state.Agrees entry).length
  distinct : (state.confirmed.map Entry.fino).Nodup
  known : ∀ entry ∈ state.confirmed,
    entry.fino ∈ state.announced ∧ state.delivered entry.fino ≠ none
  named : ∀ fino ∈ state.announced, fino ≠ 0
  total : state.announced.length = state.filesTotal
  handled : state.checked <+: state.confirmed
  accounted : ¬state.main.Aborted → state.confirmed =
    state.checked ++ (state.main.pending ++ state.inbox.flatMap Message.confirmations)
  fails : state.main = .failed ↔ ∃ entry ∈ state.checked, ¬state.Agrees entry
  finished : ∀ fino ∈ state.finished, state.delivered fino ≠ none
  queued : ∀ record ∈ state.fcOut, state.delivered record.1 = some record.2
  stored : ∀ fino crc name, state.hm fino = some (crc, name) → crc ≠ -1 →
    ∃ value : UInt32, crc = value.toNat ∧ state.delivered fino = some value
  available : ∀ fino, state.delivered fino ≠ none →
    state.Available fino ∨ fino ∈ state.checked.map Entry.fino
  gone : state.main = .left → state.filesTotal ≤ state.filesOk

variable {state after : State}

theorem inv_init : Inv State.init where
  counts := rfl
  distinct := List.nodup_nil
  known := by simp [State.init]
  named := by simp [State.init]
  total := rfl
  handled := List.nil_prefix
  accounted _ := rfl
  fails := by simp [State.init]
  finished := by simp [State.init, State.finished, Main.taken, FcWorker.between]
  queued := by simp [State.init]
  stored := by simp [State.init]
  available := by simp [State.init]
  gone := by simp [State.init]

/-- A confirmation that is being handled is one of the receiver, and has not been compared. -/
theorem Inv.pending (inv : Inv state) {entry : Entry} {files : List Entry}
    (at_handle : state.main = .handle (entry :: files)) (confirms : entry.Confirms) :
    entry ∈ state.confirmed ∧ entry.fino ∉ state.checked.map Entry.fino ∧
      state.checked ++ [entry] <+: state.confirmed := by
  have accounted := inv.accounted (by simp [Main.Aborted, at_handle])
  rw [at_handle, Main.pending, List.filter_cons_of_pos (by simpa using confirms)] at accounted
  refine ⟨by simp [accounted], fun mem => ?_, ?_⟩
  · have distinct := inv.distinct
    rw [accounted, List.map_append, List.nodup_append] at distinct
    exact distinct.2.2 _ mem _ (by simp) rfl
  · refine ⟨files.filter (fun entry => entry.Confirms) ++
      state.inbox.flatMap Message.confirmations, ?_⟩
    rw [accounted]
    simp

/-- The checksum of a file that is being confirmed is there. -/
theorem Inv.never_waits (inv : Inv state) {entry : Entry} {files : List Entry}
    (at_handle : state.main = .handle (entry :: files)) (confirms : entry.Confirms) :
    state.Available entry.fino := by
  obtain ⟨mem, fresh, -⟩ := inv.pending at_handle confirms
  exact (inv.available _ (inv.known entry mem).2).resolve_right fresh

theorem Inv.sound (inv : Inv state) : Sound state where
  counts := inv.counts
  distinct := inv.distinct.sublist (inv.handled.sublist.map _)
  handled := inv.handled
  accounted := inv.accounted
  fails := inv.fails
  never_waits _ _ := inv.never_waits
  complete at_left := by
    have enough := inv.gone at_left
    have agree : ∀ entry ∈ state.checked, state.Agrees entry := by
      intro entry mem
      by_contra differs
      have failed := inv.fails.mpr ⟨entry, mem, differs⟩
      rw [at_left] at failed
      cases failed
    have all : (state.checked.filter fun entry => state.Agrees entry) = state.checked :=
      List.filter_eq_self.mpr fun entry mem => by simpa using agree entry mem
    have counts := inv.counts
    have total := inv.total
    rw [all] at counts
    have distinct := inv.distinct.sublist (inv.handled.sublist.map Entry.fino)
    have subset : state.checked.map Entry.fino ⊆ state.announced := by
      intro fino mem
      obtain ⟨entry, checked, rfl⟩ := List.mem_map.mp mem
      exact (inv.known entry (inv.handled.subset checked)).1
    have perm := (List.subperm_of_subset distinct subset).perm_of_length_le
      (by rw [List.length_map]; omega)
    exact ⟨total, perm, agree⟩

/-! ## The steps of `fc_worker`, `iterate_files` and the receiver -/

/-- What has been delivered before keeps its checksum. -/
theorem State.deliver_known {fino : UInt64} (fresh : state.delivered fino = none) (crc : UInt32)
    (blocks : UInt64) {other : UInt64} (known : state.delivered other ≠ none) :
    (state.deliver fino crc blocks).delivered other = state.delivered other := by
  refine Function.update_of_ne ?_ _ _
  rintro rfl
  exact known fresh

@[simp] theorem State.deliver_self (fino : UInt64) (crc : UInt32) (blocks : UInt64) :
    (state.deliver fino crc blocks).delivered fino = some crc := Function.update_self ..

theorem Inv.deliver (inv : Inv state) {fino : UInt64} (at_pop : state.worker = .pop)
    (fresh : state.delivered fino = none) (crc : UInt32) (blocks : UInt64) :
    Inv (state.deliver fino crc blocks) := by
  have agrees_iff : ∀ entry ∈ state.checked,
      (state.deliver fino crc blocks).Agrees entry ↔ state.Agrees entry := by
    intro entry mem
    have known := (inv.known entry (inv.handled.subset mem)).2
    rw [State.Agrees, state.deliver_known fresh crc blocks known, State.Agrees]
  refine { inv with
    counts := ?_
    known := ?_
    fails := ?_
    finished := ?_
    queued := ?_
    stored := ?_
    available := ?_ }
  · refine inv.counts.trans (congrArg List.length (List.filter_congr fun entry mem => ?_))
    exact decide_eq_decide.mpr (agrees_iff entry mem).symm
  · intro entry mem
    obtain ⟨announced, known⟩ := inv.known entry mem
    exact ⟨announced, (state.deliver_known fresh crc blocks known).trans_ne known⟩
  · refine inv.fails.trans (exists_congr fun entry => and_congr_right fun mem => ?_)
    exact not_congr (agrees_iff entry mem).symm
  · intro other mem
    by_cases same : other = fino
    · simp [same]
    · have known : state.delivered other ≠ none := by
        refine inv.finished other ?_
        simpa [State.finished, State.deliver, FcWorker.between, at_pop, same] using mem
      exact (state.deliver_known fresh crc blocks known).trans_ne known
  · intro record mem
    rcases List.mem_append.mp mem with earlier | last
    · have delivered := inv.queued record earlier
      exact (state.deliver_known fresh crc blocks (by simp [delivered])).trans delivered
    · simp [List.mem_singleton.mp last]
  · intro other value name stored real
    obtain ⟨word, value_eq, delivered⟩ := inv.stored other value name stored real
    exact ⟨word, value_eq,
      (state.deliver_known fresh crc blocks (by simp [delivered])).trans delivered⟩
  · intro other known
    by_cases same : other = fino
    · exact .inl (.inl (by simp [State.deliver, same]))
    · have earlier : state.delivered other ≠ none := by
        have untouched : (state.deliver fino crc blocks).delivered other = state.delivered other :=
          Function.update_of_ne same ..
        rwa [untouched] at known
      refine (inv.available other earlier).imp_left fun available => available.imp_left ?_
      intro queued
      simp only [State.deliver, List.map_append, List.mem_append]
      exact .inl queued

theorem Inv.sendBlocks (inv : Inv state) {fino blocks : UInt64}
    (at_send : state.worker = .sendBlocks fino blocks) :
    Inv { state with worker := .pop, fc2Out := state.fc2Out ++ [(fino, blocks)] } := by
  refine { inv with finished := fun other mem => inv.finished other ?_ }
  rw [State.finished, at_send]
  simpa [State.finished, FcWorker.between] using mem

theorem Inv.stop (inv : Inv state) (at_pop : state.worker = .pop) :
    Inv { state with worker := .returned } := by
  refine { inv with finished := fun other mem => inv.finished other ?_ }
  rw [State.finished, at_pop]
  exact mem

theorem State.insertName_other (state : State) {fino other : UInt64} (name : String)
    (ne : other ≠ fino) : (state.insertName fino name).hm other = state.hm other :=
  Function.update_of_ne ne ..

theorem State.insertName_self (state : State) (fino : UInt64) (name : String) :
    (state.insertName fino name).hm fino =
      some (((state.hm fino).map Prod.fst).getD (-1), name) := by
  rw [State.insertName]
  cases state.hm fino with
  | none => exact Function.update_self ..
  | some _ => exact Function.update_self ..

theorem Inv.announce (inv : Inv state) {fino : UInt64} (name : String)
    (at_loop : state.main = .loop) (named : fino ≠ 0) :
    Inv { state.insertName fino name with
      filesTotal := state.filesTotal + 1
      announced := state.announced ++ [fino] } := by
  refine { inv with
    known := ?_
    named := ?_
    total := ?_
    stored := ?_
    available := ?_
    gone := ?_ }
  · intro entry mem
    obtain ⟨announced, known⟩ := inv.known entry mem
    exact ⟨List.mem_append_left _ announced, known⟩
  · intro other mem
    rcases List.mem_append.mp mem with earlier | last
    · exact inv.named other earlier
    · rwa [List.mem_singleton.mp last]
  · simp [inv.total]
  · intro other value kept_name stored real
    change (state.insertName fino name).hm other = _ at stored
    by_cases same : other = fino
    · subst same
      rw [state.insertName_self] at stored
      cases entry_eq : state.hm other with
      | none => simp [entry_eq, real.symm] at stored
      | some entry =>
          obtain ⟨crc, old⟩ := entry
          have value_eq : crc = value := by
            rw [entry_eq] at stored
            simpa using congrArg (Option.map Prod.fst) stored
          exact inv.stored other value old (by rw [entry_eq, value_eq]) real
    · rw [state.insertName_other name same] at stored
      exact inv.stored other value kept_name stored real
  · intro other known
    rcases inv.available other known with (queued | ⟨crc, old, stored, real⟩) | checked
    · exact .inl (.inl queued)
    · refine .inl (.inr ?_)
      by_cases same : other = fino
      · subst same
        exact ⟨crc, name, by simp [state.insertName_self, stored], real⟩
      · exact ⟨crc, old, (state.insertName_other name same).trans stored, real⟩
    · exact .inr checked
  · intro at_left
    change state.main = .left at at_left
    rw [at_loop] at at_left
    cases at_left

theorem Inv.receive (inv : Inv state) {message : Message} (may : state.MayReceive message) :
    Inv { state with
      inbox := state.inbox ++ [message]
      confirmed := state.confirmed ++ message.confirmations } := by
  obtain ⟨distinct, admitted⟩ := may
  refine { inv with distinct, known := ?_, handled := ?_, accounted := ?_ }
  · intro entry mem
    rcases List.mem_append.mp mem with earlier | new
    · exact inv.known entry earlier
    · obtain ⟨announced, completed⟩ := admitted entry new
      exact ⟨announced, inv.finished _ (List.mem_append_left _ completed)⟩
  · exact inv.handled.trans (List.prefix_append _ _)
  · intro going
    rw [inv.accounted going]
    simp

/-! ## The steps of the main thread -/

/-- The main thread moves on, and has neither failed before nor fails now. -/
theorem Inv.move (inv : Inv state) (going : state.main ≠ .failed) {main : Main}
    {inbox : List Message} (goes : main ≠ .failed)
    (accounted : ¬main.Aborted → state.confirmed =
      state.checked ++ (main.pending ++ inbox.flatMap Message.confirmations))
    (taken : ∀ fino ∈ main.taken.map Prod.fst, state.delivered fino ≠ none)
    (gone : main = .left → state.filesTotal ≤ state.filesOk) :
    Inv { state with main, inbox } := by
  have fine : ¬∃ entry ∈ state.checked, ¬state.Agrees entry := by
    rwa [← inv.fails]
  refine { inv with accounted, fails := iff_of_false goes fine, finished := ?_, gone }
  intro fino mem
  rcases List.mem_append.mp mem with completed | mem
  · exact inv.finished fino (List.mem_append_left _ completed)
  · rcases List.mem_append.mp mem with held | waiting
    · exact taken fino held
    · exact inv.finished fino (List.mem_append_right _ (List.mem_append_right _ waiting))

theorem Inv.check (inv : Inv state) (at_loop : state.main = .loop) : Inv state.check := by
  have accounted := inv.accounted (by simp [Main.Aborted, at_loop])
  have going : state.main ≠ .failed := by simp [at_loop]
  simp only [at_loop, Main.pending, List.nil_append] at accounted
  rw [State.check]
  cases inbox_eq : state.inbox with
  | nil =>
      rw [inbox_eq] at accounted
      exact inv.move going (by simp) (fun _ => accounted) (by simp [Main.taken]) (by simp)
  | cons message rest =>
      rw [inbox_eq, List.flatMap_cons] at accounted
      cases message with
      | fileStat files =>
          exact inv.move going (by simp) (fun _ => accounted) (by simp [Main.taken]) (by simp)
      | failure =>
          exact inv.move going (by simp) (by simp [Main.Aborted]) (by simp [Main.taken]) (by simp)
      | keepalive | unexpected =>
          exact inv.move going going (fun _ => by rw [at_loop]; exact accounted)
            (by simp [at_loop, Main.taken]) (by simp [at_loop])

/-- The main thread has not met a checksum that differs. -/
theorem Inv.fine (inv : Inv state) (going : state.main ≠ .failed) :
    ∀ entry ∈ state.checked, state.Agrees entry := by
  intro entry mem
  by_contra differs
  exact going (inv.fails.mpr ⟨entry, mem, differs⟩)

theorem ofInt_toNat (crc : UInt32) : UInt32.ofInt crc.toNat = crc := by
  have bound := crc.toNat_lt
  have residue : ((crc.toNat : Int) % 2 ^ 32).toNat = crc.toNat := by omega
  rw [UInt32.ofInt, residue, UInt32.ofNat_toNat]

/-- The comparison with a checksum that is in the map. -/
theorem Inv.compare (inv : Inv state) {entry : Entry} {files : List Entry}
    (at_handle : state.main = .handle (entry :: files)) (confirms : entry.Confirms)
    {crc : Int} {name : String} (found : state.hm entry.fino = some (crc, name))
    (real : crc ≠ -1) : Inv (state.compare entry files) := by
  obtain ⟨mem, fresh, handled⟩ := inv.pending at_handle confirms
  obtain ⟨value, rfl, delivered⟩ := inv.stored _ _ _ found real
  have accounted := inv.accounted (by simp [Main.Aborted, at_handle])
  have going : state.main ≠ .failed := by simp [at_handle]
  have fine := inv.fine going
  have counts := inv.counts
  have finished : ∀ fino ∈ { state with main := .loop }.finished,
      state.delivered fino ≠ none := by
    intro fino mem
    refine inv.finished fino ?_
    simpa [State.finished, Main.taken, at_handle] using mem
  rw [State.compare]
  rw [found]
  simp only [ofInt_toNat]
  by_cases same : value = entry.crc
  · have agrees : state.Agrees entry := by rw [State.Agrees, delivered, same]
    rw [if_neg (by simpa using same)]
    refine { inv with
      counts := ?_
      handled
      accounted := fun _ => ?_
      fails := ?_
      finished
      stored := ?_
      available := ?_
      gone := by simp }
    · simpa [List.filter_append, State.Agrees, delivered, same] using counts
    · rw [accounted, at_handle, Main.pending, List.filter_cons_of_pos (by simpa using confirms)]
      simp [Main.pending]
    · refine iff_of_false (by simp) ?_
      rintro ⟨other, mem, differs⟩
      rcases List.mem_append.mp mem with earlier | last
      · exact differs (fine other earlier)
      · rw [List.mem_singleton.mp last] at differs
        exact differs agrees
    · intro fino other other_name stored other_real
      by_cases removed : fino = entry.fino
      · simp [removed] at stored
      · refine inv.stored fino other other_name ?_ other_real
        simpa [removed] using stored
    · intro fino known
      by_cases removed : fino = entry.fino
      · exact .inr (by simp [removed])
      · rcases inv.available fino known with (queued | ⟨other, other_name, held⟩) | checked
        · exact .inl (.inl queued)
        · exact .inl (.inr ⟨other, other_name, by simpa [removed] using held⟩)
        · exact .inr (by simp [List.mem_map.mp checked])
  · have differs : ¬state.Agrees entry := by
      rw [State.Agrees, delivered]
      simpa using same
    rw [if_pos same]
    refine { inv with
      counts := ?_
      handled
      accounted := by simp [Main.Aborted]
      fails := ?_
      finished
      available := ?_
      gone := by simp }
    · simpa [List.filter_append, State.Agrees, delivered, same] using counts
    · exact iff_of_true rfl ⟨entry, by simp, differs⟩
    · intro fino known
      exact (inv.available fino known).imp_right fun checked => by simp [List.mem_map.mp checked]

theorem State.insertCrc_other (state : State) {fino other : UInt64} (crc : UInt32)
    (ne : other ≠ fino) : (state.insertCrc fino crc).hm other = state.hm other :=
  Function.update_of_ne ne ..

theorem State.insertCrc_self (state : State) (fino : UInt64) (crc : UInt32) :
    ∃ name, (state.insertCrc fino crc).hm fino = some ((crc.toNat : Int), name) :=
  ⟨_, Function.update_self ..⟩

/-- A checksum goes from `fc_out` to the map. -/
theorem Inv.insertCrc (inv : Inv state) {fino : UInt64} {crc : UInt32}
    {rest : List (UInt64 × UInt32)} (fcOut_eq : state.fcOut = (fino, crc) :: rest) :
    Inv ({ state with fcOut := rest }.insertCrc fino crc) := by
  have queued := inv.queued
  rw [fcOut_eq] at queued
  obtain ⟨name, inserted⟩ := { state with fcOut := rest }.insertCrc_self fino crc
  refine { inv with queued := ?_, stored := ?_, available := ?_ }
  · exact fun record mem => queued record (List.mem_cons_of_mem _ mem)
  · intro other value other_name stored real
    by_cases same : other = fino
    · rw [same, inserted] at stored
      have value_eq : (crc.toNat : Int) = value := by
        simpa using congrArg (Option.map Prod.fst) stored
      exact ⟨crc, value_eq.symm, by rw [same]; exact queued _ List.mem_cons_self⟩
    · rw [State.insertCrc_other _ crc same] at stored
      exact inv.stored other value other_name stored real
  · intro other known
    by_cases same : other = fino
    · exact .inl (.inr ⟨crc.toNat, name, by rw [same, inserted], by omega⟩)
    · rcases inv.available other known with (waiting | ⟨value, other_name, stored, real⟩) | checked
      · refine .inl (.inl ?_)
        rw [fcOut_eq, List.map_cons, List.mem_cons] at waiting
        exact waiting.resolve_left same
      · refine .inl (.inr ⟨value, other_name, ?_, real⟩)
        exact (State.insertCrc_other _ crc same).trans stored
      · exact .inr checked

/-- The search never finds `fc_out` empty. -/
theorem Inv.search (inv : Inv state) {entry : Entry} {files : List Entry}
    (at_handle : state.main = .handle (entry :: files)) (confirms : entry.Confirms)
    (absent : ∀ crc name, state.hm entry.fino = some (crc, name) → crc = -1) :
    Inv (state.search entry files) := by
  have queued : entry.fino ∈ state.fcOut.map Prod.fst := by
    refine (inv.never_waits at_handle confirms).resolve_right ?_
    rintro ⟨crc, name, stored, real⟩
    exact real (absent crc name stored)
  rw [State.search]
  cases fcOut_eq : state.fcOut with
  | nil => simp [fcOut_eq] at queued
  | cons record rest =>
      obtain ⟨txFino, crc⟩ := record
      have inserted := inv.insertCrc fcOut_eq
      obtain ⟨name, found⟩ := { state with fcOut := rest }.insertCrc_self txFino crc
      dsimp only
      by_cases same : entry.fino = txFino
      · rw [if_pos same]
        exact inserted.compare at_handle confirms (by rw [same]; exact found) (by omega)
      · rw [if_neg same]
        exact inserted

theorem Inv.handle (inv : Inv state) {entry : Entry} {files : List Entry}
    (at_handle : state.main = .handle (entry :: files)) : Inv (state.handle entry files) := by
  have going : state.main ≠ .failed := by simp [at_handle]
  rw [State.handle]
  by_cases failed : 0 < entry.errno
  · rw [if_pos failed]
    exact inv.move going (by simp) (by simp [Main.Aborted]) (by simp [Main.taken]) (by simp)
  · have confirms : entry.Confirms := not_lt.mp failed
    have announced := (inv.known entry (inv.pending at_handle confirms).1).1
    have named := inv.named entry.fino announced
    rw [if_neg failed, if_neg (by simp [named])]
    cases found : state.hm entry.fino with
    | none => exact inv.search at_handle confirms (by simp [found])
    | some stored =>
        obtain ⟨crc, name⟩ := stored
        dsimp only
        by_cases real : crc = -1
        · rw [if_neg (by simpa using real)]
          refine inv.search at_handle confirms fun other other_name other_found => ?_
          rw [found] at other_found
          cases other_found
          exact real
        · rw [if_pos real]
          exact inv.compare at_handle confirms found real

theorem Inv.sendComplete (inv : Inv state) {vec : List (UInt64 × UInt64)}
    (at_complete : ∃ earlier, state.main = .complete earlier)
    (taken : ∀ record ∈ vec, state.delivered record.1 ≠ none) : Inv (state.sendComplete vec) := by
  obtain ⟨earlier, at_complete⟩ := at_complete
  have accounted := inv.accounted (by simp [Main.Aborted, at_complete])
  have fine := inv.fine (by simp [at_complete])
  rw [at_complete] at accounted
  refine { inv with
    accounted := fun _ => accounted
    fails := iff_of_false (by simp [State.sendComplete]) (by push Not; exact fine)
    finished := ?_
    gone := by simp [State.sendComplete] }
  intro fino mem
  simp only [State.finished, State.sendComplete, List.map_append, List.mem_append,
    Main.taken, List.map_nil, List.not_mem_nil, false_or] at mem
  rcases mem with (completed | sent) | waiting
  · exact inv.finished fino (List.mem_append_left _ completed)
  · obtain ⟨record, mem, rfl⟩ := List.mem_map.mp sent
    exact taken record ((List.mem_insertionSort _).mp mem)
  · refine inv.finished fino (List.mem_append_right _ (List.mem_append_right _ ?_))
    exact List.mem_append.mpr waiting

theorem Inv.complete (inv : Inv state) {vec : List (UInt64 × UInt64)}
    (at_complete : state.main = .complete vec) : Inv (state.complete vec) := by
  have going : state.main ≠ .failed := by simp [at_complete]
  have accounted := inv.accounted (by simp [Main.Aborted, at_complete])
  have taken : ∀ record ∈ vec, state.delivered record.1 ≠ none := by
    intro record mem
    refine inv.finished record.1 (List.mem_append_right _ (List.mem_append_left _ ?_))
    rw [at_complete]
    exact List.mem_map_of_mem mem
  simp only [at_complete, Main.pending, List.nil_append] at accounted
  rw [State.complete]
  split
  · split
    · exact inv.move going (by simp) (fun _ => accounted) (by simp [Main.taken]) (by simp)
    · exact inv.sendComplete ⟨vec, at_complete⟩ taken
  · rename_i record rest fc2Out_eq
    have record_delivered : state.delivered record.1 ≠ none := by
      refine inv.finished record.1 ?_
      simp [State.finished, fc2Out_eq]
    have shortened : Inv { state with fc2Out := rest } := by
      refine { inv with finished := fun fino mem => inv.finished fino ?_ }
      simp only [State.finished, fc2Out_eq, List.map_cons, List.mem_append, List.mem_cons] at mem ⊢
      tauto
    have all_taken : ∀ other ∈ vec ++ [record], state.delivered other.1 ≠ none := by
      intro other mem
      rcases List.mem_append.mp mem with earlier | last
      · exact taken other earlier
      · rwa [List.mem_singleton.mp last]
    dsimp only
    by_cases enough : 2600 < (vec ++ [record]).length
    · rw [if_pos enough]
      exact shortened.sendComplete ⟨vec, at_complete⟩ all_taken
    · rw [if_neg enough]
      refine shortened.move going (by simp) (fun _ => accounted) ?_ (by simp)
      intro fino mem
      obtain ⟨other, held, rfl⟩ := List.mem_map.mp mem
      exact all_taken other held

theorem Inv.work (inv : Inv state) (taken : state.work = some after) : Inv after := by
  rw [State.work] at taken
  cases at_main : state.main with
  | handle files =>
      cases files with
      | nil =>
          have accounted := inv.accounted (by simp [Main.Aborted, at_main])
          simp only [at_main, Option.some.injEq] at taken
          subst taken
          rw [at_main] at accounted
          exact inv.move (by simp [at_main]) (by simp) (fun _ => accounted) (by simp [Main.taken])
            (by simp)
      | cons entry files =>
          simp only [at_main, Option.some.injEq] at taken
          subst taken
          exact inv.handle at_main
  | complete vec =>
      simp only [at_main, Option.some.injEq] at taken
      subst taken
      exact inv.complete at_main
  | loop | failed | exited | left => simp [at_main] at taken

theorem Inv.next (inv : Inv state) {label : Label}
    (taken : Confirmation.next state label = some after) : Inv after := by
  cases label with
  | pop fino crc blocks =>
      simp only [Confirmation.next] at taken
      split at taken
      · rename_i at_pop
        obtain ⟨⟨-, fresh⟩, taken⟩ := Option.ite_none_right_eq_some.mp taken
        obtain rfl := Option.some.inj taken
        exact inv.deliver at_pop fresh crc blocks
      · cases taken
  | sendBlocks =>
      simp only [Confirmation.next] at taken
      split at taken
      · rename_i at_send
        obtain rfl := Option.some.inj taken
        exact inv.sendBlocks at_send
      · cases taken
  | stop =>
      simp only [Confirmation.next] at taken
      split at taken
      · rename_i at_pop
        obtain rfl := Option.some.inj taken
        exact inv.stop at_pop
      · cases taken
  | announce fino name =>
      obtain ⟨⟨at_loop, -, named, -⟩, taken⟩ := Option.ite_none_right_eq_some.mp taken
      obtain rfl := Option.some.inj taken
      exact inv.announce name at_loop named
  | advance =>
      obtain ⟨-, taken⟩ := Option.ite_none_right_eq_some.mp taken
      obtain rfl := Option.some.inj taken
      exact { inv with }
  | receive message =>
      obtain ⟨may, taken⟩ := Option.ite_none_right_eq_some.mp taken
      obtain rfl := Option.some.inj taken
      exact inv.receive may
  | check =>
      obtain ⟨at_loop, taken⟩ := Option.ite_none_right_eq_some.mp taken
      obtain rfl := Option.some.inj taken
      exact inv.check at_loop
  | work => exact inv.work taken
  | leave =>
      obtain ⟨⟨at_loop, -, enough⟩, taken⟩ := Option.ite_none_right_eq_some.mp taken
      obtain rfl := Option.some.inj taken
      have accounted := inv.accounted (by simp [Main.Aborted, at_loop])
      rw [at_loop] at accounted
      exact inv.move (by simp [at_loop]) (by simp) (fun _ => accounted) (by simp [Main.taken])
        fun _ => enough

theorem inv_reached (reached : machine.Reached state) : Inv state := by
  refine reached.invariant Inv ?_ fun _ _ _ inv _ taken => inv.next taken
  rintro _ rfl
  exact inv_init

/-- The accounts are right in every interleaving. -/
theorem accounts_of_reached (reached : machine.Reached state) : Sound state := by
  refine (reached.invariant Inv ?_ fun _ _ _ inv _ taken => inv.next taken).sound
  rintro _ rfl
  exact inv_init

/-! ## Two files -/

/-- The checksums arrive before the first name and the confirmations in one batch, the last one
first. -/
def twoFiles : List Label :=
  [.pop 2 0xacb33764 1, .sendBlocks, .check, .work, .work, .announce 2 "b", .announce 1 "a",
    .pop 1 7 3, .sendBlocks, .check, .work, .work, .advance, .advance,
    .receive (.fileStat [⟨1, 7, 0⟩, ⟨2, 0xacb33764, 0⟩]), .receive .keepalive, .check,
    .work, .work, .work, .work, .check, .leave]

/-- A run with two files that ends. -/
theorem accounts_after_two : ∃ state, machine.run State.init twoFiles = some state ∧
    state.main = .left ∧ state.filesOk = 2 ∧ Sound state := by
  refine ⟨_, rfl, rfl, rfl, accounts_of_reached (Machine.reached_of_run rfl twoFiles rfl)⟩

end Confirmation
end EScp
