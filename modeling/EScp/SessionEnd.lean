import EScp.SessionInvariant

/-!
# How a session ends

The sender leaves its final loop when the receiver has closed every file with all its blocks, and
the receiver meets its transfer-complete condition after that.  As long as the checksums are zero on
both sides, somebody can always go on until then.
-/

namespace EScp
namespace Session

open ReceiveFiles (FileEntry FileInformation Complete)

variable {total : Nat} {plan : Plan total} {Thread : Type*}

/-- The receiver has closed a file with all its blocks. -/
def State.Transferred (state : State plan Thread) (index : Fin total) : Prop :=
  (∃ record ∈ state.receiver.closed, Complete plan.transfer index record) ∧
    ∀ block, ∃ write ∈ state.receiver.writes, write.block = ⟨index, block⟩ ∧
      write.opened = some (plan.transfer.opened index)

/-- What the ends can rely on. -/
structure Sound (state : State plan Thread) : Prop where
  /-- A confirmed file is closed and has all its blocks. -/
  confirmed : ∀ entry ∈ state.sender.confirmed, ∃ index, entry.fino = fino index ∧
    state.Transferred index
  /-- No file is confirmed twice. -/
  once : (state.sender.confirmed.map Confirmation.Entry.fino).Nodup
  exits : state.sender.main ≠ .exited
  /-- The sender gives up only for a file whose checksum is not zero. -/
  failed : state.sender.main = .failed → ∃ index, plan.crc index ≠ 0 ∧ state.Transferred index
  /-- The final loop is left when all files have been transferred. -/
  left : state.sender.main = .left → ∀ index, plan.crc index = 0 ∧ state.Transferred index
  /-- The receiver ends after the sender, with nothing left to do. -/
  met : state.met = true → state.sender.main = .left ∧ state.filesComplete = [] ∧
    state.receiver.filesAdd = [] ∧ state.receiver.filesClose = []

section Sound

variable [DecidableEq Thread] {state : State plan Thread}

theorem Inv.transferred (inv : Inv state) {index : Fin total}
    (closed : ∃ record ∈ state.receiver.closed, Complete plan.transfer index record) :
    state.Transferred index := by
  refine ⟨closed, fun block => ?_⟩
  obtain ⟨record, mem, complete⟩ := closed
  obtain ⟨phase, books⟩ := ReceiveFiles.inv_reached inv.receiver
  obtain ⟨other, other_complete, written⟩ := books.written_of_closed mem
  have same : plan.transfer.fino index = plan.transfer.fino other :=
    congrArg FileInformation.fino (complete.info.symm.trans other_complete.info)
  obtain rfl := ReceiveFiles.Transfer.fino_inj same
  exact written block

/-- What has been confirmed, and what waits to be. -/
theorem Inv.confirmations (inv : Inv state) : ∃ order : List (Fin total), order.Nodup ∧
    (state.sender.confirmed ++ state.filesComplete.map confirmation).Perm
      (order.map fun index => ⟨fino index, 0, 0⟩) ∧
    (∀ index ∈ order, state.Transferred index ∧ state.sender.delivered (fino index) ≠ none) ∧
      order.length = state.receiver.closed.length := by
  obtain ⟨order, distinct, closed, known, transferred⟩ := inv.closed
  refine ⟨order, distinct, closed ▸ inv.confirmed, fun index mem => ⟨?_, ?_⟩, ?_⟩
  · exact inv.transferred ((transferred index).mp mem)
  · obtain ⟨record, listed, same⟩ := List.mem_map.mp (known index mem).2
    obtain ⟨other, rfl, delivered⟩ := inv.finished.known record (List.mem_append_left _ listed)
    exact same ▸ delivered
  · have lengths := congrArg List.length closed
    rw [List.length_map, List.length_map] at lengths
    exact lengths.symm

/-- A checksum that agrees is zero. -/
theorem Inv.confirmed_iff (inv : Inv state) {index : Fin total}
    (delivered : state.sender.delivered (fino index) ≠ none) :
    state.sender.Agrees ⟨fino index, 0, 0⟩ ↔ plan.crc index = 0 := by
  obtain ⟨value, at_value⟩ := Option.ne_none_iff_exists'.mp delivered
  rw [Confirmation.State.Agrees, at_value, inv.finished.crc index value at_value]
  exact Option.some_inj

/-- All files have been confirmed when the final loop has been left. -/
theorem Inv.all_confirmed (inv : Inv state) (at_left : state.sender.main = .left) :
    (∀ index, plan.crc index = 0 ∧ state.Transferred index) ∧ state.filesComplete = [] ∧
      state.receiver.closed.length = total := by
  have sound := (Confirmation.inv_reached inv.sender).sound
  obtain ⟨-, checked, agree⟩ := sound.complete at_left
  obtain ⟨all, -⟩ := inv.listed (inv.left at_left)
  obtain ⟨order, distinct, perm, known, closed⟩ := inv.confirmations
  have few : order.length ≤ total := by
    simpa using distinct.length_le_card
  have announced : total ≤ state.sender.announced.length := by
    have listed : ((List.finRange total).map fino).Subperm state.sender.announced := by
      refine List.subperm_of_subset ?_ fun fino mem => ?_
      · exact (List.nodup_finRange total).map fun _ _ => fino_inj plan.total_lt
      · obtain ⟨index, -, rfl⟩ := List.mem_map.mp mem
        exact all index
    simpa using listed.length_le
  have lengths := perm.length_eq
  have checked_length := checked.length_eq
  have checked_le := sound.handled.length_le
  rw [List.length_append, List.length_map, List.length_map] at lengths
  rw [List.length_map] at checked_length
  have none_waits : state.filesComplete = [] := List.length_eq_zero_iff.mp (by omega)
  have all_checked := sound.handled.eq_of_length_le (by omega)
  rw [none_waits, List.map_nil, List.append_nil] at perm
  refine ⟨fun index => ?_, none_waits, by omega⟩
  have mem : index ∈ order := by
    have full := List.subperm_of_subset distinct fun other _ => List.mem_finRange other
    exact (full.perm_of_length_le (by simp; omega)).mem_iff.mpr (List.mem_finRange index)
  obtain ⟨transferred, delivered⟩ := known index mem
  refine ⟨(inv.confirmed_iff delivered).mp (agree _ ?_), transferred⟩
  rw [all_checked]
  exact perm.mem_iff.mpr (List.mem_map_of_mem mem)

omit [DecidableEq Thread] in
/-- The receiver has no file left. -/
theorem emptied (all : ∀ index, plan.crc index = 0 ∧ state.Transferred index)
    {phase : Fin total → ReceiveFiles.Phase} (books : ReceiveFiles.Inv state.receiver phase) :
    (∀ index, phase index = .closed) ∧ state.receiver.filesAdd = [] ∧
      state.receiver.filesClose = [] := by
  have closed : ∀ index, phase index = .closed := by
    intro index
    obtain ⟨⟨record, mem, complete⟩, -⟩ := (all index).2
    refine (books.closed.mem index).mpr (List.mem_map.mpr ⟨record, mem, ?_⟩)
    rw [complete.info]
    rfl
  refine ⟨closed, List.eq_nil_iff_forall_not_mem.mpr fun number mem => ?_,
    List.eq_nil_iff_forall_not_mem.mpr fun number mem => ?_⟩
  · obtain ⟨index, -, queued⟩ := (books.books.mem_adding number).mp mem
    rw [closed index] at queued
    cases queued
  · obtain ⟨index, -, -, open_phase⟩ := (books.books.mem_closing number).mp mem
    exact open_phase (closed index)

theorem Inv.sound (inv : Inv state) : Sound state := by
  have accounts := (Confirmation.inv_reached inv.sender).sound
  obtain ⟨order, distinct, perm, known, -⟩ := inv.confirmations
  have entry_known : ∀ entry ∈ state.sender.confirmed,
      ∃ index ∈ order, ⟨fino index, 0, 0⟩ = entry :=
    fun entry mem => List.mem_map.mp (perm.mem_iff.mp (List.mem_append_left _ mem))
  constructor
  · intro entry mem
    obtain ⟨index, listed, rfl⟩ := entry_known entry mem
    exact ⟨index, rfl, (known index listed).1⟩
  · have numbers := perm.map Confirmation.Entry.fino
    have once : (order.map fino).Nodup := distinct.map fun _ _ => fino_inj plan.total_lt
    have same : (order.map fun index => (⟨fino index, 0, 0⟩ : Confirmation.Entry)).map
        Confirmation.Entry.fino = order.map fino := List.map_map
    rw [same, List.map_append] at numbers
    exact (List.nodup_append.mp (numbers.nodup_iff.mpr once)).1
  · exact inv.healthy.main
  · intro failed
    obtain ⟨entry, checked, differs⟩ := accounts.fails.mp failed
    obtain ⟨index, listed, rfl⟩ := entry_known entry (accounts.handled.subset checked)
    obtain ⟨transferred, delivered⟩ := known index listed
    exact ⟨index, fun zero => differs ((inv.confirmed_iff delivered).mpr zero), transferred⟩
  · exact fun at_left => (inv.all_confirmed at_left).1
  · intro met
    have at_left := inv.completeSent (inv.transferComplete (inv.met met))
    obtain ⟨all, none_waits, -⟩ := inv.all_confirmed at_left
    obtain ⟨phase, books⟩ := ReceiveFiles.inv_reached inv.receiver
    exact ⟨at_left, none_waits, (emptied all books).2⟩

end Sound

/-! ## Somebody can go on -/

/-- A step that finds nothing to do: a time-out, a repeated BYE, a keepalive, a compare and swap
that fails without reason, a `file_check` without messages and completions, and a turn of
`file_wait` for a file that is not in the table. -/
def State.Polls (state : State plan Thread) : Label plan Thread → Prop
  | .timeout | .bye | .keepalive | .receiver (.spurious _) => True
  | .check => state.sender.inbox = [] ∧ state.sender.fc2Out = []
  | .receiver (.work thread) => ∃ block index,
      (state.receiver.workers thread).stage = .wait block index ∧
        ReceiveFiles.fileGetstats state.receiver.fileStat (plan.transfer.fino block.1) = none
  | _ => False

/-- Nobody can do anything but look. -/
def State.Stuck [DecidableEq Thread] (state : State plan Thread) : Prop :=
  ∀ label, ¬state.Polls label → next plan state label = none

section Stuck

variable [DecidableEq Thread] {state : State plan Thread} {phase : Fin total → ReceiveFiles.Phase}

/-! ### The receiver -/

theorem State.Stuck.entries (stuck : state.Stuck) : state.entries = [] := by
  have blocked := stuck .entry not_false
  rw [next] at blocked
  cases entries : state.entries with
  | nil => rfl
  | cons entry rest =>
      rw [entries] at blocked
      cases blocked

/-- The main loop of the receiver and its threads have no step of their own. -/
theorem State.Stuck.receiver (stuck : state.Stuck) (unmet : state.met = false)
    (label : ReceiveFiles.Label plan.transfer Thread) (reads : readsEntry plan label = false)
    (polls : ¬state.Polls (.receiver label)) : ReceiveFiles.next state.receiver label = none := by
  have blocked := stuck (.receiver label) polls
  rw [next, if_neg (by simp [reads]), if_neg (by simp [stuck.entries, unmet])] at blocked
  exact Option.map_eq_none_iff.mp blocked

/-- A file that is being closed is closed. -/
theorem State.Stuck.idle (stuck : state.Stuck) (unmet : state.met = false)
    (books : ReceiveFiles.Inv state.receiver phase) : state.receiver.main = .idle := by
  have blocked := stuck.receiver unmet .close rfl not_false
  have main := books.main
  cases at_main : state.receiver.main with
  | idle => rfl
  | closing fino slot =>
      rw [at_main] at main
      obtain ⟨index, rest, rfl, -, added, -⟩ := main
      have announced : state.receiver.specs index = true := by
        by_contra unannounced
        rw [Bool.not_eq_true, books.books.announced, added] at unannounced
        cases unannounced
      have hash := books.books.hash index (by simp [added])
      rw [announced, Bool.true_or, if_pos rfl] at hash
      rw [ReceiveFiles.next, at_main] at blocked
      dsimp only at blocked
      rw [ReceiveFiles.State.closeFile, hash] at blocked
      cases blocked

theorem State.Stuck.atTop (stuck : state.Stuck) (unmet : state.met = false)
    (books : ReceiveFiles.Inv state.receiver phase) : state.AtTop :=
  ⟨stuck.entries, stuck.idle unmet books, unmet⟩

/-- All messages have been read, and what is closed has been confirmed. -/
theorem State.Stuck.queues (stuck : state.Stuck) (top : state.AtTop) :
    state.toReceiver = [] ∧ state.filesComplete = [] := by
  constructor
  · have blocked := stuck .read not_false
    rw [next, if_pos top] at blocked
    cases queue : state.toReceiver with
    | nil => rfl
    | cons message rest =>
        rw [queue] at blocked
        cases message <;> cases blocked
  · by_contra some_file
    have blocked := stuck .confirm not_false
    rw [next, if_pos ⟨top, some_file⟩] at blocked
    cases blocked

theorem State.Stuck.quiet (stuck : state.Stuck) (unmet : state.met = false)
    (idle : state.receiver.main = .idle) : ReceiveFiles.Quiet state.receiver := by
  refine ⟨idle, fun fd => ?_, ?_⟩
  · have blocked := stuck.receiver unmet (.add fd) rfl not_false
    rwa [ReceiveFiles.next, if_pos idle] at blocked
  · have blocked := stuck.receiver unmet .check rfl not_false
    rwa [ReceiveFiles.next, if_pos idle] at blocked

/-- A thread that can go on does. -/
theorem work_isSome {receiver : ReceiveFiles.State plan.transfer Thread} {thread : Thread}
    (busy : (receiver.workers thread).stage ≠ .idle) :
    ReceiveFiles.next receiver (.work thread) ≠ none := by
  rw [ReceiveFiles.next, ReceiveFiles.State.work]
  dsimp only
  cases at_stage : (receiver.workers thread).stage with
  | idle => exact absurd at_stage busy
  | wait _ _ | compare _ _ => dsimp only; split <;> exact Option.some_ne_none _
  | hash _ | write _ | size _ | count _ => exact Option.some_ne_none _

/-- When all files have been announced, no thread waits and all blocks have been received. -/
theorem State.Stuck.consumed [Nonempty Thread] (stuck : state.Stuck) (unmet : state.met = false)
    (books : ReceiveFiles.Inv state.receiver phase)
    (succeeds : ReceiveFiles.Succeeds state.receiver)
    (specs : ∀ index, state.receiver.specs index = true)
    (completions : ∀ index, state.receiver.completions index = true) :
    ReceiveFiles.Consumed state.receiver := by
  have quiet := stuck.quiet unmet (stuck.idle unmet books)
  have threads : ∀ thread, (state.receiver.workers thread).stage = .idle := by
    intro thread
    by_contra busy
    refine work_isSome busy (stuck.receiver unmet (.work thread) rfl ?_)
    rintro ⟨block, index, at_wait, unknown⟩
    have received := (books.blocks.threads thread).stage
    rw [at_wait] at received
    cases at_phase : phase block.1 with
    | unannounced =>
        have unannounced := (books.books.announced _).mpr at_phase
        rw [specs] at unannounced
        cases unannounced
    | queued => exact books.not_queued quiet succeeds at_phase
    | added slot =>
        rw [books.table.fileGetstats_eq.mpr at_phase] at unknown
        cases unknown
    | closed =>
        have counted := books.blocks.late block at_phase
        rw [ReceiveFiles.Stage.Ok, counted] at received
        cases received
  refine ⟨specs, completions, fun block sent => ?_, threads⟩
  obtain ⟨thread⟩ := ‹Nonempty Thread›
  have blocked := stuck.receiver unmet (.receive thread block) rfl not_false
  rw [ReceiveFiles.next, ReceiveFiles.State.receive, threads thread, sent] at blocked
  cases blocked

/-! ### The sender -/

/-- `fc_worker` waits, and has had all files. -/
theorem State.Stuck.worker (stuck : state.Stuck) (inv : Inv state) :
    state.sender.worker = .pop ∧
      ∀ index : Fin total, state.sender.delivered (fino index) ≠ none := by
  have at_pop : state.sender.worker = .pop := by
    have blocked := stuck .sendBlocks not_false
    rw [next, Option.map_eq_none_iff, Confirmation.next] at blocked
    cases worker : state.sender.worker with
    | pop => rfl
    | sendBlocks fino blocks =>
        rw [worker] at blocked
        cases blocked
    | returned => exact absurd worker inv.healthy.worker
  refine ⟨at_pop, fun index fresh => ?_⟩
  have blocked := stuck (.pop index) not_false
  rw [next, Option.map_eq_none_iff, Confirmation.next, at_pop] at blocked
  dsimp only at blocked
  rw [if_pos ⟨fino_ne_zero plan.total_lt index, fresh⟩] at blocked
  cases blocked

/-- The main thread of the sender is in a loop or has left it. -/
theorem State.Stuck.main (stuck : state.Stuck) (sound : Sound state)
    (agree : ∀ index, plan.crc index = 0) :
    state.sender.main = .loop ∨ state.sender.main = .left := by
  have blocked := stuck .work not_false
  rw [next, Option.map_eq_none_iff, Confirmation.next, Confirmation.State.work] at blocked
  cases main : state.sender.main with
  | loop => exact .inl rfl
  | left => exact .inr rfl
  | exited => exact absurd main sound.exits
  | failed =>
      obtain ⟨index, differs, -⟩ := sound.failed main
      exact absurd (agree index) differs
  | handle files =>
      rw [main] at blocked
      cases files <;> cases blocked
  | complete vec =>
      rw [main] at blocked
      cases blocked

/-- `iterate_files` takes what it has not announced. -/
theorem announce_isSome (inv : Inv state) {index : Fin total}
    (at_loop : state.sender.main = .loop) (at_stage : state.sender.stage = .iterateFiles)
    (fresh : fino index ∉ state.sender.announced) :
    next plan state (.announce index) ≠ none := by
  obtain ⟨got, -, -, listing⟩ := inv.listing
  have numbered : ∀ file ∈ got.map plan.file ++ IterateFiles.arrivals [.message (plan.file index)],
      0 < file.fino := by
    have listed := numbered_map plan (got ++ [index])
    rwa [List.map_append] at listed
  obtain ⟨later, stepped, -⟩ := listing.step numbered nofun nofun
  rw [next, Confirmation.next,
    if_pos ⟨at_loop, at_stage, fino_ne_zero plan.total_lt index, fresh⟩, Option.bind_some,
    State.list, stepped]
  exact Option.some_ne_none _

/-- All files are listed, and `escp_sender` is in its final loop. -/
theorem State.Stuck.final (stuck : state.Stuck) (inv : Inv state)
    (at_loop : state.sender.main = .loop) : state.sender.stage = .final := by
  cases at_stage : state.sender.stage with
  | final => rfl
  | progress =>
      have blocked := stuck .advance not_false
      rw [next, if_pos at_stage, Confirmation.next, if_pos at_loop] at blocked
      cases blocked
  | iterateFiles =>
      have all : ∀ index : Fin total, fino index ∈ state.sender.announced := by
        intro index
        by_contra fresh
        exact announce_isSome inv at_loop at_stage fresh (stuck (.announce index) not_false)
      obtain ⟨got, announced_eq, distinct, listing⟩ := inv.listing
      have listed : ∀ index, index ∈ got := by
        intro index
        rw [← List.mem_map_of_injective fun _ _ => fino_inj plan.total_lt, ← announced_eq]
        exact all index
      obtain ⟨begun, fresh⟩ := listing.begin
      obtain ⟨later, stepped, -⟩ :=
        begun.flush_last fresh (perm_range_of_all distinct listed)
      have blocked := stuck .disconnected not_false
      rw [next, if_pos ⟨at_loop, at_stage, all⟩, State.list, IterateFiles.State.step,
        stepped] at blocked
      cases blocked

/-! ### The end -/

/-- All files have been completed when no record is on its way. -/
theorem State.Stuck.completed (stuck : state.Stuck) (inv : Inv state)
    (at_loop : state.sender.main = .loop) (index : Fin total) :
    plan.record index ∈ state.sender.completed := by
  have fc2Out : state.sender.fc2Out = [] := by
    by_contra waiting
    have blocked := stuck .check fun polls => waiting polls.2
    rw [next, Confirmation.next, if_pos at_loop] at blocked
    cases blocked
  obtain ⟨worker, delivered⟩ := stuck.worker inv
  have listed := inv.finished.all index (delivered index)
  simpa [records, at_loop, fc2Out, worker, Confirmation.Main.taken, betweenSends] using listed

/-- The receiver has closed all files. -/
theorem State.Stuck.all_closed [Nonempty Thread] (stuck : state.Stuck) (inv : Inv state)
    (unmet : state.met = false) (succeeds : ReceiveFiles.Succeeds state.receiver)
    (at_loop : state.sender.main = .loop) (books : ReceiveFiles.Inv state.receiver phase)
    (index : Fin total) : phase index = .closed := by
  have idle := stuck.idle unmet books
  obtain ⟨queue, -⟩ := stuck.queues (stuck.atTop unmet books)
  obtain ⟨all, empty⟩ := inv.listed (by simp [stuck.final inv at_loop])
  have specs := inv.specs
  have completions := inv.completions
  rw [State.specsLeft, queue, stuck.entries] at specs
  rw [State.completionsLeft, queue, stuck.entries] at completions
  have no_specs : (Message.fileSpec state.root []).specs = [] := by cases state.root <;> rfl
  have no_completions : (Message.fileSpec state.root []).completions = [] := by
    cases state.root <;> rfl
  rw [no_specs] at specs
  rw [no_completions] at completions
  obtain ⟨order, -, files, -, sent⟩ := inv.listing.files
  have specs_heard : ∀ other, state.receiver.specs other = true := by
    refine fun other => specs.heard plan.entry_injective ?_
    rw [files]
    exact List.mem_map_of_mem (sent empty other (all other))
  have completions_heard : ∀ other, state.receiver.completions other = true := by
    refine fun other => completions.heard plan.completion_injective ?_
    rw [← plan.completionEntry_record]
    exact List.mem_map_of_mem (stuck.completed inv at_loop other)
  have consumed := stuck.consumed unmet books succeeds specs_heard completions_heard
  exact books.all_closed consumed (stuck.quiet unmet idle) succeeds

/-- The final loop can be left when all files are closed. -/
theorem State.Stuck.not_loop [Nonempty Thread] (stuck : state.Stuck) (inv : Inv state)
    (unmet : state.met = false) (succeeds : ReceiveFiles.Succeeds state.receiver)
    (agree : ∀ index, plan.crc index = 0) : state.sender.main ≠ .loop := by
  intro at_loop
  obtain ⟨phase, books⟩ := ReceiveFiles.inv_reached inv.receiver
  have accounts := confirmation_inv inv.sender
  obtain ⟨order, distinct, perm, known, closed⟩ := inv.confirmations
  have inbox : state.sender.inbox = [] := by
    by_contra waiting
    have blocked := stuck .check fun polls => waiting polls.1
    rw [next, Confirmation.next, if_pos at_loop] at blocked
    cases blocked
  have all_checked : state.sender.confirmed = state.sender.checked := by
    have accounted := accounts.accounted (by simp [Confirmation.Main.Aborted, at_loop])
    simpa [at_loop, inbox, Confirmation.Main.pending] using accounted
  have agreed : (state.sender.checked.filter fun entry => state.sender.Agrees entry) =
      state.sender.checked := by
    refine List.filter_eq_self.mpr fun entry mem => decide_eq_true ?_
    rw [← all_checked] at mem
    obtain ⟨index, listed, rfl⟩ := List.mem_map.mp (perm.mem_iff.mp (List.mem_append_left _ mem))
    exact (inv.confirmed_iff (known index listed).2).mpr (agree index)
  have announced : state.sender.announced.length ≤ total := by
    obtain ⟨got, announced_eq, once, -⟩ := inv.listing
    rw [announced_eq, List.length_map]
    simpa using once.length_le_card
  have all_closed : total ≤ state.receiver.closed.length := by
    have listed : ((List.finRange total).map plan.transfer.fino).Subperm
        (state.receiver.closed.map fun record => record.info.fino) := by
      refine List.subperm_of_subset ?_ fun number mem => ?_
      · exact (List.nodup_finRange total).map fun _ _ => ReceiveFiles.Transfer.fino_inj
      · obtain ⟨index, -, rfl⟩ := List.mem_map.mp mem
        exact (books.closed.mem index).mp
          (stuck.all_closed inv unmet succeeds at_loop books index)
    simpa using listed.length_le
  obtain ⟨-, none_waits⟩ := stuck.queues (stuck.atTop unmet books)
  have lengths := perm.length_eq
  rw [none_waits, List.map_nil, List.append_nil, all_checked, List.length_map] at lengths
  have enough : state.sender.filesTotal ≤ state.sender.filesOk := by
    rw [accounts.counts, agreed, ← accounts.total]
    omega
  have blocked := stuck .leave not_false
  rw [next, Confirmation.next, if_pos ⟨at_loop, stuck.final inv at_loop, enough⟩] at blocked
  cases blocked

/-- The end of the sender leads to the end of the receiver. -/
theorem State.Stuck.not_left (stuck : state.Stuck) (inv : Inv state) (unmet : state.met = false) :
    state.sender.main ≠ .left := by
  intro at_left
  obtain ⟨phase, books⟩ := ReceiveFiles.inv_reached inv.receiver
  have top := stuck.atTop unmet books
  obtain ⟨all, -, closed⟩ := inv.all_confirmed at_left
  have sent : state.completeSent = true := by
    by_contra unsent
    have blocked := stuck .sessionComplete not_false
    rw [next, if_pos ⟨at_left, Bool.not_eq_true _ ▸ unsent⟩] at blocked
    cases blocked
  have complete : state.transferComplete = true := by
    refine (inv.heard sent).resolve_right ?_
    rintro ⟨message, mem, -⟩
    rw [(stuck.queues top).1] at mem
    cases mem
  have counts : state.fileCountIn = state.fileCountOut := by
    have countIn := inv.countIn
    have specs : (Finset.univ.filter fun index => state.receiver.specs index) = Finset.univ := by
      refine Finset.filter_true_of_mem fun index _ => ?_
      by_contra unannounced
      rw [Bool.not_eq_true, books.books.announced, (emptied all books).1 index] at unannounced
      cases unannounced
    rw [specs, Finset.card_univ, Fintype.card_fin, (emptied all books).2.1] at countIn
    rw [inv.countOut, closed]
    exact countIn
  have blocked := stuck .exit not_false
  rw [next, if_pos ⟨top, complete, counts⟩] at blocked
  cases blocked

/-- Without hashes the checksums are zero. -/
theorem Plan.checksum_eq_zero (plan : Plan total) (off : ∀ bytes, plan.fileHash bytes = [])
    (index : Fin total) : FileChecksum.checksum plan.fileHash (plan.content index) = 0 := by
  have words : FileChecksum.word plan.fileHash (plan.content index) = fun _ => 0 := by
    funext block
    rw [FileChecksum.word, off]
    rfl
  rw [FileChecksum.checksum, words, Finset.fold_const 0 rfl]
  split <;> rfl

theorem Plan.crc_eq_zero (plan : Plan total) (off : ∀ bytes, plan.fileHash bytes = [])
    (index : Fin total) : plan.crc index = 0 := by
  rw [Plan.crc, plan.checksum_eq_zero off]
  rfl

end Stuck


/-! ## A session with one file -/

theorem one_lt_two_pow : 1 < 2 ^ 64 := by decide

/-- A file of one block, with hashing off. -/
def onePlan : Plan 1 where
  args := ⟨"dst", false⟩
  file _ := IterateFiles.plainFile 1 "abc" 3
  blocks _ := 1
  content _ _ := [97, 98, 99]
  fileHash _ := []
  numbered := by decide
  blocks_lt := by decide
  total_lt := one_lt_two_pow
  total_pos := Nat.one_pos

/-- The only file of a session. -/
def oneFile : Fin 1 := ⟨0, Nat.one_pos⟩

/-- The only block arrives before its file has been announced, and its thread waits through a whole
round of the table. -/
def transferRun (plan : Plan 1) (block : plan.transfer.Block) : List (Label plan Unit) :=
  [.announce oneFile, .timeout, .receiver (.receive () block)] ++
    List.replicate 3 (.receiver (.work ())) ++
      [.disconnected, .read, .entry, .receiver (.add 3)] ++
        List.replicate 26 (.receiver (.work ())) ++
          [.pop oneFile, .sendBlocks, .advance, .check, .work, .work, .read, .entry,
            .receiver .check, .receiver .close]

/-- The file is confirmed, and the session ends. -/
def closingRun (plan : Plan 1) : List (Label plan Unit) :=
  [.confirm, .keepalive, .check, .work, .work, .check, .leave, .sessionComplete, .bye, .read, .exit]

/-- The block of the file. -/
def oneBlock : onePlan.transfer.Block := ⟨oneFile, ⟨0, Nat.one_pos⟩⟩

end Session
end EScp
