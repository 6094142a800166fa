import EScp.SessionQueues

/-!
# Both ends of a session agree

A step of a session is a step of the sender, of the receiver, or a message: the receiver never hears
of a file twice, and it confirms a file only after the sender has announced and completed it.  These
are the guards of the two ends, so what is known of each alone holds in the session.
-/

namespace EScp
namespace Session

open ReceiveFiles (FileEntry FileInformation)

variable {total : Nat} {plan : Plan total}

/-! ## The invariant -/

/-- The specs of a message are under the root. -/
def Message.Rooted (root : String) : Message → Prop
  | .fileSpec (some other) _ => other = root
  | _ => True

/-- The message comes after everything else that the sender has to say. -/
def Message.Ends : Message → Prop
  | .fileSpec _ _ => False
  | .sessionComplete | .bye => True

variable {Thread : Type*} [DecidableEq Thread]

/-- How the ends stand to each other. -/
structure Inv (state : State plan Thread) : Prop where
  sender : Confirmation.machine.Reached state.sender
  receiver : (ReceiveFiles.machine plan.transfer Thread).Reached state.receiver
  healthy : Healthy state.sender
  finished : Finished plan state.sender
  listing : Listed plan state.sender.announced state.listing
  specs : Told plan.transfer.entry state.listing.files state.specsLeft state.receiver.specs
  completions : Told plan.transfer.completion (state.sender.completed.map completionEntry)
    state.completionsLeft state.receiver.completions
  rooted : ∀ message ∈ state.toReceiver, message.Rooted plan.args.destPath
  root : (Message.fileSpec state.root state.entries).Rooted plan.args.destPath
  reading : state.entries = [] ∨ state.receiver.main = .idle
  /-- What is closed is confirmed, or waits in `files_complete`. -/
  confirmed : (state.sender.confirmed ++ state.filesComplete.map confirmation).Perm
    (state.receiver.closed.map fun record => confirmation record.info)
  countIn : state.fileCountIn + state.receiver.filesAdd.length =
    (Finset.univ.filter fun index => state.receiver.specs index).card
  countOut : state.fileCountOut = state.receiver.closed.length
  listed : state.sender.stage ≠ .iterateFiles →
    (∀ index : Fin total, fino index ∈ state.sender.announced) ∧ state.listing.vec = []
  left : state.sender.main = .left → state.sender.stage ≠ .iterateFiles
  completeSent : state.completeSent = true → state.sender.main = .left
  ended : ∀ message ∈ state.toReceiver, message.Ends → state.completeSent = true
  heard : state.completeSent = true →
    state.transferComplete = true ∨ ∃ message ∈ state.toReceiver, message.Ends
  transferComplete : state.transferComplete = true → state.completeSent = true
  met : state.met = true → state.transferComplete = true

theorem inv_init : Inv (State.init plan Thread) where
  sender := .start rfl
  receiver := .start rfl
  healthy := ⟨nofun, nofun, nofun, nofun⟩
  finished := ⟨List.nodup_nil, nofun, fun _ known => absurd rfl known, nofun⟩
  listing := ⟨[], rfl, List.nodup_nil, IterateFiles.inv_init _⟩
  specs := .init
  completions := .init
  rooted := nofun
  root := trivial
  reading := .inl rfl
  confirmed := List.Perm.refl _
  countIn := by simp [State.init, ReceiveFiles.State.init]
  countOut := rfl
  listed at_stage := absurd rfl at_stage
  left := nofun
  completeSent := nofun
  ended := nofun
  heard := nofun
  transferComplete := nofun
  met := nofun

section Step

variable {state : State plan Thread}

/-! ## The sender -/

/-- The sender goes on in `file_check` or `fc_worker`. -/
theorem Inv.send (inv : Inv state) {label : Confirmation.Label} {after : Confirmation.State}
    (taken : Confirmation.next state.sender label = some after) (kept : Kept state.sender after)
    (finished : Finished plan after) : Inv (state.send after) := by
  obtain ⟨more, completed⟩ := kept.completed
  have listing := inv.listing
  have grown := inv.completions
  obtain ⟨order, distinct, order_eq⟩ := finished.completed
  rw [← kept.announced] at listing
  refine { inv with
    sender := reached_next inv.sender taken
    healthy := kept.healthy
    finished
    listing
    specs := ?_
    completions := ?_
    rooted := ?_
    confirmed := ?_
    listed := ?_
    left := ?_
    completeSent := fun sent => kept.left (inv.completeSent sent)
    ended := ?_
    heard := fun sent => (inv.heard sent).imp_right fun ⟨message, mem, ends⟩ =>
      ⟨message, List.mem_append_left _ mem, ends⟩ }
  · rw [State.specsLeft, State.send, List.flatMap_append, specs_completionMessages, List.append_nil]
    exact inv.specs
  · have told : state.sender.completed.map completionEntry ++ more.map completionEntry =
        order.map plan.transfer.completion := by
      rw [← List.map_append, completed, order_eq, map_completionEntry]
    have account := grown.grow plan.completion_injective distinct told
    rw [← List.map_append, completed, State.completionsLeft, List.append_assoc] at account
    rw [State.completionsLeft, State.send, List.flatMap_append, ← completed,
      completions_completionMessages, completed]
    exact account
  · intro message mem
    rcases List.mem_append.mp mem with earlier | last
    · exact inv.rooted message earlier
    · obtain ⟨files, rfl⟩ := of_mem_completionMessages last
      trivial
  · rw [State.send, kept.confirmed]
    exact inv.confirmed
  · intro at_stage
    rw [State.send, kept.announced]
    refine inv.listed fun listing => ?_
    rcases kept.stage with same | ⟨later, -⟩
    · exact at_stage (same.trans listing)
    · exact later listing
  · intro at_left
    have later : state.sender.stage ≠ .iterateFiles := by
      rcases kept.gone at_left with earlier | at_final
      · exact inv.left earlier
      · simp [at_final]
    rcases kept.stage with same | ⟨-, at_final⟩
    · exact fun listing => later (same.symm.trans listing)
    · exact fun listing => by simp [State.send, at_final] at listing
  · intro message mem ends
    rcases List.mem_append.mp mem with earlier | last
    · exact inv.ended message earlier ends
    · obtain ⟨files, rfl⟩ := of_mem_completionMessages last
      exact ends.elim

/-- `iterate_files` goes on. -/
theorem Inv.list (inv : Inv state) {sender : Confirmation.State} {listing : IterateFiles.State}
    (reached : Confirmation.machine.Reached sender) (healthy : Healthy sender)
    (finished : Finished plan sender) (listed : Listed plan sender.announced listing)
    (sends : Sends plan.args state.listing listing)
    (confirmed : sender.confirmed = state.sender.confirmed)
    (completed : sender.completed = state.sender.completed)
    (looping : state.sender.main = .loop) (main : sender.main = state.sender.main)
    (all : sender.stage ≠ .iterateFiles →
      (∀ index : Fin total, fino index ∈ sender.announced) ∧ listing.vec = []) :
    Inv { state with
      sender := sender
      listing := listing
      toReceiver := state.toReceiver ++ State.specMessages state.listing.sent listing.sent } := by
  obtain ⟨more, sent, roots⟩ := sends
  obtain ⟨order, distinct, files, -⟩ := listed.files
  have going : sender.main ≠ .left := by simp [main, looping]
  refine { inv with
    sender := reached
    healthy
    finished
    listing := listed
    specs := ?_
    completions := ?_
    rooted := ?_
    confirmed := ?_
    listed := all
    left := fun at_left => absurd at_left going
    completeSent := ?_
    ended := ?_
    heard := fun sent => (inv.heard sent).imp_right fun ⟨message, mem, ends⟩ =>
      ⟨message, List.mem_append_left _ mem, ends⟩ }
  · have told : state.listing.files ++ more.flatMap IterateFiles.FileList.files =
        listing.files := by
      rw [IterateFiles.State.files, IterateFiles.State.files, sent, List.flatMap_append]
    have account := inv.specs.grow plan.entry_injective distinct (told.trans files)
    rw [told, State.specsLeft, List.append_assoc] at account
    rw [State.specsLeft, List.flatMap_append, sent, specs_specMessages]
    exact account
  · rw [State.completionsLeft, List.flatMap_append, completions_specMessages, List.append_nil,
      completed]
    exact inv.completions
  · intro message mem
    rcases List.mem_append.mp mem with earlier | last
    · exact inv.rooted message earlier
    · rw [sent, specMessages_append] at last
      obtain ⟨list, listed, rfl⟩ := List.mem_map.mp last
      exact roots list listed
  · rw [confirmed]
    exact inv.confirmed
  · intro complete
    have at_left := inv.completeSent complete
    rw [looping] at at_left
    cases at_left
  · intro message mem ends
    rcases List.mem_append.mp mem with earlier | last
    · exact inv.ended message earlier ends
    · rw [sent, specMessages_append] at last
      obtain ⟨list, -, rfl⟩ := List.mem_map.mp last
      exact ends.elim

/-- A number for each file from one on. -/
theorem perm_range_of_all {got : List (Fin total)} (distinct : got.Nodup)
    (all : ∀ index, index ∈ got) :
    ((got.map plan.file).map IterateFiles.Queued.fino).Perm (List.range' 1 total) := by
  have perm : got.Perm (List.finRange total) :=
    (List.perm_ext_iff_of_nodup distinct (List.nodup_finRange total)).mpr fun index =>
      iff_of_true (all index) (List.mem_finRange index)
  have numbers : (List.finRange total).map (fun index => (plan.file index).fino) =
      List.range' 1 total := by
    rw [List.range'_eq_map_range, ← List.map_coe_finRange_eq_range, List.map_map]
    exact List.map_congr_left fun index _ => (plan.numbered index).trans (Nat.add_comm _ _)
  rw [List.map_map, ← numbers]
  exact perm.map _

theorem numbered_map (plan : Plan total) (got : List (Fin total)) :
    ∀ file ∈ got.map plan.file, 0 < file.fino := by
  intro file mem
  obtain ⟨index, -, rfl⟩ := List.mem_map.mp mem
  rw [plan.numbered]
  exact Nat.succ_pos _

theorem Inv.announce (inv : Inv state) {index : Fin total} {after : State plan Thread}
    (taken : next plan state (.announce index) = some after) : Inv after := by
  obtain ⟨sender, announced, taken⟩ := Option.bind_eq_some_iff.mp taken
  have reached := reached_next inv.sender announced
  obtain ⟨⟨at_loop, at_stage, -, fresh⟩, announced⟩ := Option.ite_none_right_eq_some.mp announced
  obtain rfl := Option.some.inj announced
  obtain ⟨got, announced_eq, distinct, listing⟩ := inv.listing
  have numbered : ∀ file ∈ got.map plan.file ++ IterateFiles.arrivals [.message (plan.file index)],
      0 < file.fino := by
    have listed := numbered_map plan (got ++ [index])
    rwa [List.map_append] at listed
  obtain ⟨later, stepped, later_inv⟩ := listing.step numbered nofun nofun
  have sends := step_sends plan.args state.listing (.message (plan.file index))
  rw [stepped] at sends
  rw [State.list, stepped] at taken
  obtain rfl := Option.some.inj taken
  refine inv.list reached
    ⟨inv.healthy.worker, inv.healthy.main, inv.healthy.inbox, inv.healthy.handled⟩
    ⟨inv.finished.distinct, inv.finished.known, inv.finished.all, inv.finished.crc⟩
    ⟨got ++ [index], ?_, ?_, ?_⟩ sends rfl rfl at_loop rfl (absurd at_stage)
  · rw [List.map_append, ← announced_eq]
    rfl
  · rw [List.nodup_append]
    refine ⟨distinct, List.nodup_singleton _, fun other mem last is_last same => fresh ?_⟩
    rw [announced_eq]
    exact List.mem_map_of_mem (List.mem_singleton.mp is_last ▸ same ▸ mem)
  · rw [List.map_append]
    exact later_inv

theorem Inv.timeout (inv : Inv state) {after : State plan Thread}
    (taken : next plan state .timeout = some after) : Inv after := by
  obtain ⟨⟨at_loop, at_stage⟩, taken⟩ := Option.ite_none_right_eq_some.mp taken
  obtain ⟨got, announced_eq, distinct, listing⟩ := inv.listing
  have same : got.map plan.file ++ IterateFiles.arrivals [.timeout 1] = got.map plan.file :=
    List.append_nil _
  have numbered : ∀ file ∈ got.map plan.file ++ IterateFiles.arrivals [.timeout 1],
      0 < file.fino := same.symm ▸ numbered_map plan got
  obtain ⟨later, stepped, later_inv⟩ := listing.step numbered nofun
    fun _ event => (IterateFiles.Event.timeout.inj event).symm
  rw [same] at later_inv
  have sends := step_sends plan.args state.listing (.timeout 1)
  rw [stepped] at sends
  rw [State.list, stepped] at taken
  obtain rfl := Option.some.inj taken
  exact inv.list inv.sender inv.healthy inv.finished ⟨got, announced_eq, distinct, later_inv⟩ sends
    rfl rfl at_loop rfl (absurd at_stage)

theorem Inv.disconnected (inv : Inv state) {after : State plan Thread}
    (taken : next plan state .disconnected = some after) : Inv after := by
  obtain ⟨⟨at_loop, at_stage, all⟩, taken⟩ := Option.ite_none_right_eq_some.mp taken
  have advanced : Confirmation.next state.sender .advance =
      some { state.sender with stage := .progress } := by
    simp [Confirmation.next, at_loop, at_stage]
  have reached := reached_next inv.sender advanced
  obtain ⟨got, announced_eq, distinct, listing⟩ := inv.listing
  have listed : ∀ index, index ∈ got := by
    intro index
    rw [← List.mem_map_of_injective fun _ _ => fino_inj plan.total_lt, ← announced_eq]
    exact all index
  obtain ⟨begun, fresh⟩ := listing.begin
  obtain ⟨later, stepped, later_inv, empty⟩ :=
    begun.flush_last fresh (perm_range_of_all distinct listed)
  have sends := step_sends plan.args state.listing .disconnected
  rw [IterateFiles.State.step, stepped] at sends
  rw [State.list, IterateFiles.State.step, stepped] at taken
  obtain rfl := Option.some.inj taken
  exact inv.list reached
    ⟨inv.healthy.worker, inv.healthy.main, inv.healthy.inbox, inv.healthy.handled⟩
    ⟨inv.finished.distinct, inv.finished.known, inv.finished.all, inv.finished.crc⟩
    ⟨got, announced_eq, distinct, later_inv⟩ sends rfl rfl at_loop rfl fun _ => ⟨all, empty⟩

/-! ## The receiver -/

/-- What a step of the receiver keeps that reads no entry of a message. -/
structure Went (before after : ReceiveFiles.State plan.transfer Thread) : Prop where
  specs : after.specs = before.specs
  completions : after.completions = before.completions
  filesAdd : after.filesAdd <:+ before.filesAdd
  closed : before.closed <+: after.closed

omit [DecidableEq Thread] in
theorem Went.of_same {before after : ReceiveFiles.State plan.transfer Thread}
    (specs : after.specs = before.specs) (completions : after.completions = before.completions)
    (filesAdd : after.filesAdd = before.filesAdd) (closed : after.closed = before.closed) :
    Went before after :=
  ⟨specs, completions, filesAdd ▸ List.suffix_rfl, closed ▸ List.prefix_rfl⟩

section Receiver

variable {before after : ReceiveFiles.State plan.transfer Thread}

/-- A round of the main loop of the receiver. -/
theorem went_main {label : ReceiveFiles.Label plan.transfer Thread} (main : isMain plan label)
    (taken : ReceiveFiles.next before label = some after) : Went before after := by
  cases label with
  | spec _ | completion _ | receive _ _ | work _ | spurious _ => cases main
  | add fd =>
      obtain ⟨-, taken⟩ := Option.ite_none_right_eq_some.mp taken
      rw [ReceiveFiles.State.addFile] at taken
      cases list : before.filesAdd with
      | nil =>
          rw [list] at taken
          cases taken
      | cons fino rest =>
          rw [list] at taken
          obtain ⟨-, taken⟩ := Option.ite_none_right_eq_some.mp taken
          obtain ⟨fi, -, taken⟩ := Option.bind_eq_some_iff.mp taken
          obtain ⟨fileStat, -, rfl⟩ := Option.map_eq_some_iff.mp taken
          exact ⟨rfl, rfl, list ▸ List.suffix_cons fino rest, List.prefix_rfl⟩
  | check =>
      obtain ⟨-, taken⟩ := Option.ite_none_right_eq_some.mp taken
      rw [ReceiveFiles.State.checkFile] at taken
      cases list : before.filesClose with
      | nil =>
          rw [list] at taken
          cases taken
      | cons fino rest =>
          rw [list] at taken
          obtain ⟨slot, -, taken⟩ := Option.bind_eq_some_iff.mp taken
          obtain ⟨fi, -, taken⟩ := Option.bind_eq_some_iff.mp taken
          obtain ⟨-, taken⟩ := Option.ite_none_left_eq_some.mp taken
          obtain ⟨-, taken⟩ := Option.ite_none_left_eq_some.mp taken
          obtain rfl := Option.some.inj taken
          exact .of_same rfl rfl rfl rfl
  | close =>
      cases at_main : before.main with
      | idle =>
          rw [ReceiveFiles.next, at_main] at taken
          cases taken
      | closing fino slot =>
          rw [ReceiveFiles.next, at_main] at taken
          obtain ⟨fi, -, rfl⟩ := Option.map_eq_some_iff.mp taken
          exact ⟨rfl, rfl, List.suffix_rfl, List.prefix_append _ _⟩

/-- A thread leaves the main loop of the receiver where it is. -/
theorem went_thread {label : ReceiveFiles.Label plan.transfer Thread}
    (thread : isMain plan label = false) (reads : readsEntry plan label = false)
    (taken : ReceiveFiles.next before label = some after) :
    Went before after ∧ after.main = before.main := by
  cases label with
  | spec _ | completion _ => cases reads
  | add _ | check | close => cases thread
  | receive thread block =>
      rw [ReceiveFiles.next, ReceiveFiles.State.receive] at taken
      split at taken
      · obtain rfl := Option.some.inj taken
        exact ⟨.of_same rfl rfl rfl rfl, rfl⟩
      · cases taken
  | spurious thread =>
      rw [ReceiveFiles.next] at taken
      split at taken
      · obtain rfl := Option.some.inj taken
        exact ⟨.of_same rfl rfl rfl rfl, rfl⟩
      · cases taken
  | work thread =>
      rw [ReceiveFiles.next, ReceiveFiles.State.work] at taken
      dsimp only at taken
      split at taken
      · cases taken
      · split at taken
        · obtain rfl := Option.some.inj taken
          repeat' split
          all_goals exact ⟨.of_same rfl rfl rfl rfl, rfl⟩
        · obtain rfl := Option.some.inj taken
          exact ⟨.of_same rfl rfl rfl rfl, rfl⟩
      · split at taken
        all_goals
          obtain rfl := Option.some.inj taken
          exact ⟨.of_same rfl rfl rfl rfl, rfl⟩
      all_goals
        obtain rfl := Option.some.inj taken
        exact ⟨.of_same rfl rfl rfl rfl, rfl⟩

end Receiver

theorem Inv.receives (inv : Inv state) {label : ReceiveFiles.Label plan.transfer Thread}
    {receiver : ReceiveFiles.State plan.transfer Thread}
    (stepped : ReceiveFiles.next state.receiver label = some receiver) :
    (ReceiveFiles.machine plan.transfer Thread).Reached receiver :=
  .step inv.receiver trivial stepped

theorem Inv.receiverStep (inv : Inv state) {label : ReceiveFiles.Label plan.transfer Thread}
    {after : State plan Thread} (taken : next plan state (.receiver label) = some after) :
    Inv after := by
  obtain ⟨reads, taken⟩ := Option.ite_none_left_eq_some.mp taken
  obtain ⟨free, taken⟩ := Option.ite_none_left_eq_some.mp taken
  obtain ⟨receiver, stepped, rfl⟩ := Option.map_eq_some_iff.mp taken
  obtain ⟨went, reading⟩ : Went state.receiver receiver ∧
      (state.entries = [] ∨ receiver.main = .idle) := by
    cases main : isMain plan label with
    | true => exact ⟨went_main main stepped, .inl (by simp_all)⟩
    | false =>
        obtain ⟨went, same⟩ := went_thread main (by simpa using reads) stepped
        exact ⟨went, same.symm ▸ inv.reading⟩
  obtain ⟨new, closed⟩ := went.closed
  have countIn := inv.countIn
  have countOut := inv.countOut
  have fewer := went.filesAdd.length_le
  refine { inv with
    receiver := inv.receives stepped
    specs := ?_
    completions := ?_
    reading
    confirmed := ?_
    countIn := ?_
    countOut := ?_ }
  · rw [State.tally, went.specs]
    exact inv.specs
  · rw [State.tally, went.completions]
    exact inv.completions
  · have confirmed := inv.confirmed.append_right (new.map fun record => confirmation record.info)
    rw [List.append_assoc, ← List.map_append, closed] at confirmed
    rw [State.tally, ← closed, List.drop_left, List.map_append, List.map_map, closed]
    exact confirmed
  · rw [State.tally, went.specs]
    dsimp only
    omega
  · have lengths := congrArg List.length closed
    rw [List.length_append] at lengths
    rw [State.tally]
    dsimp only
    omega

/-! ## Messages of the sender -/

theorem Inv.read (inv : Inv state) {after : State plan Thread}
    (taken : next plan state .read = some after) : Inv after := by
  obtain ⟨⟨no_entries, idle, -⟩, taken⟩ := Option.ite_none_right_eq_some.mp taken
  have rooted := inv.rooted
  have ended := inv.ended
  have specs := inv.specs
  have completions := inv.completions
  rw [State.specsLeft, no_entries] at specs
  rw [State.completionsLeft, no_entries] at completions
  have no_specs : (Message.fileSpec state.root []).specs = [] := by cases state.root <;> rfl
  have no_completions : (Message.fileSpec state.root []).completions = [] := by
    cases state.root <;> rfl
  rw [no_specs, List.nil_append] at specs
  rw [no_completions, List.nil_append] at completions
  cases queue : state.toReceiver with
  | nil =>
      rw [queue] at taken
      cases taken
  | cons message rest =>
      rw [queue] at taken rooted ended specs completions
      have rest_rooted := fun other mem => rooted other (List.mem_cons_of_mem message mem)
      have rest_ended := fun other mem => ended other (List.mem_cons_of_mem message mem)
      cases message with
      | fileSpec root files =>
          obtain rfl := Option.some.inj taken
          exact { inv with
            specs := specs
            completions := completions
            rooted := rest_rooted
            root := rooted _ List.mem_cons_self
            reading := .inr idle
            ended := rest_ended
            heard := fun sent => (inv.heard sent).imp_right fun ⟨other, mem, ends⟩ => by
              rw [queue] at mem
              exact ⟨other, (List.mem_cons.mp mem).resolve_left (by rintro rfl; exact ends), ends⟩ }
      | sessionComplete | bye =>
          obtain rfl := Option.some.inj taken
          refine { inv with
            specs := ?_
            completions := ?_
            rooted := rest_rooted
            ended := rest_ended
            heard := fun _ => .inl rfl
            transferComplete := fun _ => ended _ List.mem_cons_self trivial
            met := fun _ => rfl }
          · rw [State.specsLeft, no_entries, no_specs]
            exact specs
          · rw [State.completionsLeft, no_entries, no_completions]
            exact completions

/-- A file is marked when the receiver has its entry. -/
theorem mark_fino (flags : Fin total → Bool) (index : Fin total) :
    State.mark plan flags (plan.transfer.fino index) = Function.update flags index true := by
  funext other
  by_cases same : other = index
  · simp [State.mark, same]
  · have ne : (other : Nat) ≠ index := fun equal => same (Fin.ext equal)
    simp [State.mark, same, ne]

/-- The receiver hears of one more file. -/
theorem card_update {flags : Fin total → Bool} {index : Fin total} (fresh : flags index = false) :
    (Finset.univ.filter fun other => Function.update flags index true other).card =
      (Finset.univ.filter fun other => flags other).card + 1 := by
  have inserted : (Finset.univ.filter fun other => Function.update flags index true other) =
      insert index (Finset.univ.filter fun other => flags other) := by
    ext other
    by_cases same : other = index <;> simp [same]
  rw [inserted, Finset.card_insert_of_notMem (by simp [fresh])]

theorem Inv.entry (inv : Inv state) {after : State plan Thread}
    (taken : next plan state .entry = some after) : Inv after := by
  have specs := inv.specs
  have completions := inv.completions
  have root := inv.root
  rw [next] at taken
  cases entries : state.entries with
  | nil =>
      rw [entries] at taken
      cases taken
  | cons first rest =>
      have idle := inv.reading.resolve_left (by simp [entries])
      rw [entries] at taken
      obtain rfl := Option.some.inj taken
      rw [State.specsLeft, entries] at specs
      rw [State.completionsLeft, entries] at completions
      rw [State.takeEntry]
      cases at_root : state.root with
      | some root_name =>
          rw [at_root] at specs completions root
          obtain rfl : root_name = plan.args.destPath := root
          obtain ⟨index, rfl, fresh, heard⟩ := specs.hear
          have flags : State.mark plan state.receiver.specs (plan.transfer.entry index).fino =
              Function.update state.receiver.specs index true := mark_fino _ index
          have stepped : ReceiveFiles.next state.receiver (.spec index) =
              some ({ state.receiver with
                specs := Function.update state.receiver.specs index true }.fileSpec
                  plan.args.destPath (plan.transfer.entry index)) := by
            rw [ReceiveFiles.next, if_pos ⟨idle, fresh⟩]
            rfl
          dsimp only
          rw [flags]
          refine { inv with
            receiver := inv.receives stepped
            specs := heard
            completions := completions
            root := rfl
            reading := .inr idle
            countIn := ?_ }
          have countIn := inv.countIn
          have one_more := card_update fresh
          change state.fileCountIn + (state.receiver.filesAdd ++ [_]).length =
            (Finset.univ.filter fun other =>
              Function.update state.receiver.specs index true other).card
          rw [one_more, List.length_append, List.length_singleton]
          omega
      | none =>
          rw [at_root] at specs completions
          obtain ⟨index, rfl, fresh, heard⟩ := completions.hear
          have flags : State.mark plan state.receiver.completions
              (plan.transfer.completion index).fino =
                Function.update state.receiver.completions index true := mark_fino _ index
          have stepped : ReceiveFiles.next state.receiver (.completion index) =
              some ({ state.receiver with
                completions := Function.update state.receiver.completions index
                  true }.fileCompletion (plan.transfer.completion index)) := by
            rw [ReceiveFiles.next, if_pos ⟨idle, fresh⟩]
          dsimp only
          rw [flags]
          exact { inv with
            receiver := inv.receives stepped
            specs := specs
            completions := heard
            root := trivial
            reading := .inr idle }

/-! ## Messages of the receiver -/

/-- What is closed has been announced and completed. -/
theorem Inv.closed (inv : Inv state) : ∃ order : List (Fin total), order.Nodup ∧
    (state.receiver.closed.map fun record => confirmation record.info) =
      (order.map fun index => ⟨fino index, 0, 0⟩) ∧
    (∀ index ∈ order, fino index ∈ state.sender.announced ∧
      fino index ∈ state.sender.completed.map Prod.fst) ∧
    ∀ index, index ∈ order ↔
      ∃ record ∈ state.receiver.closed, ReceiveFiles.Complete plan.transfer index record := by
  obtain ⟨phase, books⟩ := ReceiveFiles.inv_reached inv.receiver
  have known : ∀ number ∈ state.receiver.closed.map fun record => record.info.fino,
      ∃ index, plan.transfer.fino index = number := by
    intro number mem
    obtain ⟨record, listed, rfl⟩ := List.mem_map.mp mem
    obtain ⟨index, complete⟩ := books.closed.complete record listed
    refine ⟨index, ?_⟩
    rw [complete.info]
    rfl
  obtain ⟨order, numbers⟩ := exists_map_eq known
  have at_closed : ∀ index, index ∈ order ↔ phase index = .closed := by
    intro index
    rw [books.closed.mem, ← numbers, List.mem_map_of_injective]
    exact fun _ _ => ReceiveFiles.Transfer.fino_inj
  refine ⟨order, ?_, ?_, ?_, ?_⟩
  · have once := books.closed.nodup
    rw [← numbers] at once
    exact once.of_map
  · have same : order.map (fun index => (⟨fino index, 0, 0⟩ : Confirmation.Entry)) =
        (state.receiver.closed.map fun record => record.info.fino).map
          fun number => ⟨UInt64.ofNat number, 0, 0⟩ := by
      rw [← numbers, List.map_map]
      exact List.map_congr_left fun index _ => by rw [Function.comp_apply, plan.ofNat_fino]
    rw [same, List.map_map]
    refine List.map_congr_left fun record mem => ?_
    obtain ⟨index, complete⟩ := books.closed.complete record mem
    have crc : record.info.crc = 0 := by
      rw [complete.info]
      rfl
    rw [confirmation, crc]
    rfl
  · intro index mem
    have closed := (at_closed index).mp mem
    have announced : state.receiver.specs index = true := by
      by_contra unannounced
      rw [Bool.not_eq_true, books.books.announced, closed] at unannounced
      cases unannounced
    obtain ⟨sent, -, files, named, -⟩ := inv.listing.files
    have listed := inv.specs.mem announced
    rw [files, List.mem_map_of_injective plan.entry_injective] at listed
    refine ⟨named index listed, ?_⟩
    obtain ⟨done, -, completed⟩ := inv.finished.completed
    have told := inv.completions.mem (books.books.done index closed)
    rw [completed, map_completionEntry, List.mem_map_of_injective plan.completion_injective] at told
    rw [completed, List.map_map]
    exact List.mem_map_of_mem told
  · intro index
    rw [at_closed]
    refine ⟨books.closed.record, ?_⟩
    rintro ⟨record, mem, complete⟩
    refine (books.closed.mem index).mpr (List.mem_map.mpr ⟨record, mem, ?_⟩)
    rw [complete.info]
    rfl

/-- The receiver may confirm what waits in `files_complete`. -/
theorem Inv.mayReceive (inv : Inv state) {message : Confirmation.Message}
    {left : List FileInformation}
    (perm : (message.confirmations ++ left.map confirmation).Perm
      (state.filesComplete.map confirmation)) : state.sender.MayReceive message := by
  obtain ⟨order, distinct, closed, known, -⟩ := inv.closed
  have confirmed := inv.confirmed
  rw [closed] at confirmed
  have all := (perm.append_left state.sender.confirmed).trans confirmed
  rw [← List.append_assoc] at all
  constructor
  · have numbers := all.map Confirmation.Entry.fino
    have once : (order.map fino).Nodup := distinct.map fun _ _ => fino_inj plan.total_lt
    have same : (order.map fun index => (⟨fino index, 0, 0⟩ : Confirmation.Entry)).map
        Confirmation.Entry.fino = order.map fino := List.map_map
    rw [same, List.map_append] at numbers
    exact (List.nodup_append.mp (numbers.nodup_iff.mpr once)).1
  · intro entry mem
    have listed := all.mem_iff.mp (List.mem_append_left _ (List.mem_append_right _ mem))
    obtain ⟨index, closed_index, rfl⟩ := List.mem_map.mp listed
    exact known index closed_index

/-- A message of the receiver. -/
theorem Inv.reply (inv : Inv state) {message : Confirmation.Message} {left : List FileInformation}
    (perm : (message.confirmations ++ left.map confirmation).Perm
      (state.filesComplete.map confirmation))
    (fine : message ≠ .failure ∧ ∀ entry ∈ message.entries, entry.errno = 0) :
    Inv { state.reply message with filesComplete := left } := by
  have received : Confirmation.next state.sender (.receive message) =
      some { state.sender with
        inbox := state.sender.inbox ++ [message]
        confirmed := state.sender.confirmed ++ message.confirmations } := by
    rw [Confirmation.next, if_pos (inv.mayReceive perm)]
  refine { inv with
    sender := reached_next inv.sender received
    healthy := { inv.healthy with inbox := ?_ }
    finished := ⟨inv.finished.distinct, inv.finished.known, inv.finished.all, inv.finished.crc⟩
    confirmed := ?_ }
  · intro other mem
    rcases List.mem_append.mp mem with earlier | last
    · exact inv.healthy.inbox other earlier
    · rw [List.mem_singleton.mp last]
      exact fine
  · have all := (perm.append_left state.sender.confirmed).trans inv.confirmed
    rw [← List.append_assoc] at all
    exact all

theorem Inv.confirm (inv : Inv state) {after : State plan Thread}
    (taken : next plan state .confirm = some after) : Inv after := by
  obtain ⟨-, taken⟩ := Option.ite_none_right_eq_some.mp taken
  obtain rfl := Option.some.inj taken
  refine inv.reply ?_ ⟨nofun, fun entry mem => ?_⟩
  · have all : Confirmation.Message.confirmations (.fileStat
        ((state.filesComplete.reverse.take maxConfirmed).map confirmation)) =
          (state.filesComplete.reverse.take maxConfirmed).map confirmation := by
      refine List.filter_eq_self.mpr fun entry mem => ?_
      obtain ⟨info, -, rfl⟩ := List.mem_map.mp mem
      rfl
    rw [all, ← List.map_append, List.take_reverse]
    refine List.Perm.map _ ?_
    have halves := ((state.filesComplete.drop
      (state.filesComplete.length - maxConfirmed)).reverse_perm.append_right
        (state.filesComplete.take (state.filesComplete.length - maxConfirmed))).trans
          List.perm_append_comm
    rwa [List.take_append_drop] at halves
  · obtain ⟨info, -, rfl⟩ := List.mem_map.mp mem
    rfl

theorem Inv.keepalive (inv : Inv state) {after : State plan Thread}
    (taken : next plan state .keepalive = some after) : Inv after := by
  obtain ⟨-, taken⟩ := Option.ite_none_right_eq_some.mp taken
  obtain rfl := Option.some.inj taken
  exact inv.reply (List.Perm.refl _) ⟨nofun, nofun⟩

/-! ## Every step -/

/-- The sender or a connection says that there is nothing more. -/
theorem Inv.last (inv : Inv state) {message : Message} {completeSent : Bool} (ends : message.Ends)
    (sent : completeSent = true) (at_left : state.sender.main = .left) :
    Inv { state with completeSent, toReceiver := state.toReceiver ++ [message] } := by
  have specs : [message].flatMap Message.specs = [] := by
    cases message with
    | fileSpec _ _ => exact ends.elim
    | sessionComplete | bye => rfl
  have completions : [message].flatMap Message.completions = [] := by
    cases message with
    | fileSpec _ _ => exact ends.elim
    | sessionComplete | bye => rfl
  refine { inv with
    specs := ?_
    completions := ?_
    rooted := ?_
    completeSent := fun _ => at_left
    ended := fun _ _ _ => sent
    heard := fun _ => .inr ⟨message, List.mem_append_right _ List.mem_cons_self, ends⟩
    transferComplete := fun _ => sent }
  · rw [State.specsLeft, List.flatMap_append, specs, List.append_nil]
    exact inv.specs
  · rw [State.completionsLeft, List.flatMap_append, completions, List.append_nil]
    exact inv.completions
  · intro other mem
    rcases List.mem_append.mp mem with earlier | last
    · exact inv.rooted other earlier
    · rw [List.mem_singleton.mp last]
      cases message with
      | fileSpec _ _ => exact ends.elim
      | sessionComplete | bye => trivial

theorem Inv.next (inv : Inv state) {label : Label plan Thread} {after : State plan Thread}
    (taken : next plan state label = some after) : Inv after := by
  have alone : ∀ label, Alone label → (Confirmation.next state.sender label).map state.send =
      some after → Inv after := by
    intro label alone taken
    obtain ⟨sender, stepped, rfl⟩ := Option.map_eq_some_iff.mp taken
    have moved := inv.healthy.next alone stepped
    exact inv.send stepped moved.toKept (inv.finished.moved moved)
  cases label with
  | announce index => exact inv.announce taken
  | timeout => exact inv.timeout taken
  | disconnected => exact inv.disconnected taken
  | advance =>
      obtain ⟨at_progress, taken⟩ := Option.ite_none_right_eq_some.mp taken
      obtain ⟨sender, stepped, rfl⟩ := Option.map_eq_some_iff.mp taken
      have moved := inv.healthy.advance at_progress stepped
      exact inv.send stepped moved.toKept (inv.finished.moved moved)
  | pop index =>
      obtain ⟨sender, stepped, rfl⟩ := Option.map_eq_some_iff.mp taken
      obtain ⟨kept, finished⟩ := inv.finished.pop inv.healthy stepped
      exact inv.send stepped kept finished
  | sendBlocks => exact alone _ .sendBlocks taken
  | check => exact alone _ .check taken
  | work => exact alone _ .work taken
  | leave => exact alone _ .leave taken
  | sessionComplete =>
      obtain ⟨⟨at_left, -⟩, taken⟩ := Option.ite_none_right_eq_some.mp taken
      obtain rfl := Option.some.inj taken
      exact inv.last trivial rfl at_left
  | bye =>
      obtain ⟨sent, taken⟩ := Option.ite_none_right_eq_some.mp taken
      obtain rfl := Option.some.inj taken
      exact inv.last trivial sent (inv.completeSent sent)
  | read => exact inv.read taken
  | entry => exact inv.entry taken
  | receiver label => exact inv.receiverStep taken
  | confirm => exact inv.confirm taken
  | keepalive => exact inv.keepalive taken
  | exit =>
      obtain ⟨⟨-, complete, -⟩, taken⟩ := Option.ite_none_right_eq_some.mp taken
      obtain rfl := Option.some.inj taken
      exact { inv with met := fun _ => complete }

theorem inv_reached (reached : (machine plan Thread).Reached state) : Inv state := by
  refine reached.invariant Inv ?_ fun _ _ _ inv _ taken => inv.next taken
  rintro _ rfl
  exact inv_init

end Step

end Session
end EScp
