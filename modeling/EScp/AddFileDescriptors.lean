import EScp.AddFile

/-!
# The descriptors of the receiver

Each descriptor of an open file is that of one entry of the file table, and `close_file` closes it
with the entry.  A descriptor that `add_file` gets without making an entry for it is not closed:
the next round opens the file again and stores another one in its place.
-/

namespace EScp
namespace AddFile

open ReceiveFiles (FileEntry FileInformation)

/-! ## The table and the queue -/

/-- What holds of the table, the queue and the records in every run. -/
structure Consistent (state : State) : Prop where
  distinct : state.opened.Nodup
  opened : ∀ entry ∈ state.entries, entry.2 ∈ state.opened
  recorded : ∀ entry ∈ state.entries, ∃ fi, state.filesHash entry.1 = some fi ∧ fi.fd = entry.2
  numbers : (state.entries.map Prod.fst).Nodup
  descriptors : (state.entries.map Prod.snd).Nodup
  queue : state.filesAdd.Nodup
  named : ∀ fino ∈ state.filesAdd, ∃ fi, state.filesHash fino = some fi ∧ fi.fino = fino
  waiting : ∀ entry ∈ state.entries, entry.1 ∉ state.filesAdd
  entered : ∀ entry ∈ state.entries, entry.1 ∈ state.announced
  announced : ∀ fino ∈ state.filesAdd, fino ∈ state.announced

section Steps

variable {state after : State} {answers : List Answer} {fino : Nat} {fi : FileInformation}
  {ending : Ending} {nodirect : Bool}

theorem consistent_init (direct : Bool) : Consistent (.init direct) := by
  constructor <;> simp [State.init]

theorem Consistent.announce (consistent : Consistent state) {root : String} {entry : FileEntry}
    (fresh : entry.fino ∉ state.announced) : Consistent (state.announce root entry) := by
  have not_queued : entry.fino ∉ state.filesAdd := fun queued =>
    fresh (consistent.announced _ queued)
  have not_entered : ∀ live ∈ state.entries, live.1 ≠ entry.fino := by
    intro live mem same
    exact fresh (same ▸ consistent.entered live mem)
  refine { consistent with
    recorded := ?_, queue := ?_, named := ?_, waiting := ?_, entered := ?_, announced := ?_ }
  · intro live mem
    obtain ⟨fi, found, same⟩ := consistent.recorded live mem
    refine ⟨fi, ?_, same⟩
    change Function.update state.filesHash _ _ live.1 = some fi
    rw [Function.update_of_ne (not_entered live mem)]
    exact found
  · refine List.nodup_append.mpr ⟨consistent.queue, List.nodup_singleton _, ?_⟩
    rintro old queued _ new rfl
    exact not_queued (List.mem_singleton.mp new ▸ queued)
  · intro number mem
    change ∃ fi, Function.update state.filesHash _ _ number = some fi ∧ _
    rcases List.mem_append.mp mem with old | new
    · have other : number ≠ entry.fino := fun same => not_queued (same ▸ old)
      rw [Function.update_of_ne other]
      exact consistent.named number old
    · obtain rfl := List.mem_singleton.mp new
      exact ⟨_, Function.update_self _ _ _, rfl⟩
  · intro live mem queued
    rcases List.mem_append.mp queued with old | new
    · exact consistent.waiting live mem old
    · exact not_entered live mem (List.mem_singleton.mp new)
  · intro live mem
    exact List.mem_cons_of_mem _ (consistent.entered live mem)
  · intro number mem
    rcases List.mem_append.mp mem with old | new
    · exact List.mem_cons_of_mem _ (consistent.announced number old)
    · exact List.mem_cons.mpr (.inl (List.mem_singleton.mp new))

theorem Consistent.completion (consistent : Consistent state) (entry : FileEntry) :
    Consistent (state.completion entry) := by
  -- the number and the descriptor of a record stay
  have kept : ∀ number fi, state.filesHash number = some fi →
      ∃ later, (state.completion entry).filesHash number = some later ∧
        later.fd = fi.fd ∧ later.fino = fi.fino := by
    intro number fi found
    change ∃ later, Function.update state.filesHash _ _ number = some later ∧ _
    rcases eq_or_ne number entry.fino with rfl | other
    · exact ⟨_, Function.update_self _ _ _, by rw [found]; exact ⟨rfl, rfl⟩⟩
    · rw [Function.update_of_ne other]
      exact ⟨fi, found, rfl, rfl⟩
  refine { consistent with recorded := ?_, named := ?_ }
  · intro live mem
    obtain ⟨fi, found, same⟩ := consistent.recorded live mem
    obtain ⟨later, there, fd, -⟩ := kept _ _ found
    exact ⟨later, there, fd.trans same⟩
  · intro number mem
    obtain ⟨fi, found, same⟩ := consistent.named number mem
    obtain ⟨later, there, -, number_eq⟩ := kept _ _ found
    exact ⟨later, there, number_eq.trans same⟩

theorem mem_registered {entry : Nat × Int} (mem : entry ∈ State.registered fino ending) :
    ∃ fd, ending = .added fd ∧ entry = (fino, fd) := by
  cases ending with
  | added fd => exact ⟨fd, rfl, List.mem_singleton.mp mem⟩
  | _ => cases mem

/-- The descriptor that is stored at the end of a round is one that it has got. -/
theorem stored_mem_descriptors {path : List Char} {direct : Bool} {fd : Int}
    (ends : round path direct answers = some (ending, nodirect))
    (stored : ending = .added fd ∨ ∃ aborted, ending = .full fd aborted) :
    fd ∈ State.descriptors answers := by
  have others : ending ≠ .exhausted := by
    rintro rfl
    rcases stored with added | ⟨aborted, full⟩
    · cases added
    · cases full
  obtain ⟨last, at_end, ends⟩ := ends_of_attempts ends others
  have positive : 1 ≤ last.fd ∧ fd = last.fd := by
    rcases stored with rfl | ⟨aborted, rfl⟩
    · exact ⟨ends.1, ends.2.2⟩
    · exact ⟨ends.1, ends.2.2⟩
  obtain ⟨positive, rfl⟩ := positive
  refine List.mem_map_of_mem (List.mem_filter.mpr ⟨List.mem_of_getLast? at_end, ?_⟩)
  exact decide_eq_true (le_trans (by decide) positive)

theorem finish_filesAdd_sublist :
    (state.finish fino fi answers ending nodirect).filesAdd.Sublist state.filesAdd := by
  change (if State.popped ending then state.filesAdd.tail else state.filesAdd).Sublist _
  split
  · exact List.tail_sublist _
  · exact List.Sublist.refl _

theorem Consistent.finish (consistent : Consistent state)
    (front : state.filesAdd.head? = some fino) (found : state.filesHash fino = some fi)
    (fresh : (state.opened ++ State.descriptors answers).Nodup)
    (ends : round fi.path.toList state.nodirect answers = some (ending, nodirect)) :
    Consistent (state.finish fino fi answers ending nodirect) := by
  have queued : fino ∈ state.filesAdd := List.mem_of_mem_head? front
  have number : fi.fino = fino := by
    obtain ⟨record, there, same⟩ := consistent.named fino queued
    obtain rfl := Option.some.inj (there.symm.trans found)
    exact same
  have others : ∀ live ∈ state.entries, live.1 ≠ fino := by
    intro live mem same
    exact consistent.waiting live mem (same ▸ queued)
  -- the entry that is made has this number and a new descriptor
  have made : ∀ live ∈ State.registered fi.fino ending,
      ∃ fd, ending = .added fd ∧ live = (fino, fd) ∧ fd ∈ State.descriptors answers := by
    intro live mem
    obtain ⟨fd, added, same⟩ := mem_registered mem
    exact ⟨fd, added, number ▸ same, stored_mem_descriptors ends (.inl added)⟩
  have shorter : (state.finish fino fi answers ending nodirect).filesAdd.Sublist state.filesAdd :=
    finish_filesAdd_sublist
  constructor
  case distinct => exact fresh
  case opened =>
    intro live mem
    rcases List.mem_append.mp mem with old | new
    · exact List.mem_append_left _ (consistent.opened live old)
    · obtain ⟨fd, -, rfl, got⟩ := made live new
      exact List.mem_append_right _ got
  case recorded =>
    intro live mem
    change ∃ later, Function.update state.filesHash _ _ live.1 = some later ∧ _
    rcases List.mem_append.mp mem with old | new
    · rw [Function.update_of_ne (others live old)]
      exact consistent.recorded live old
    · obtain ⟨fd, rfl, rfl, -⟩ := made live new
      exact ⟨_, Function.update_self _ _ _, rfl⟩
  case numbers =>
    change ((state.entries ++ State.registered fi.fino ending).map Prod.fst).Nodup
    rw [List.map_append]
    refine List.nodup_append.mpr ⟨consistent.numbers, ?_, ?_⟩
    · cases ending <;> simp [State.registered]
    · rintro _ old _ new rfl
      obtain ⟨live, there, same⟩ := List.mem_map.mp old
      obtain ⟨entry, mem, rfl⟩ := List.mem_map.mp new
      obtain ⟨fd, -, rfl, -⟩ := made entry mem
      exact others live there same
  case descriptors =>
    change ((state.entries ++ State.registered fi.fino ending).map Prod.snd).Nodup
    rw [List.map_append]
    refine List.nodup_append.mpr ⟨consistent.descriptors, ?_, ?_⟩
    · cases ending <;> simp [State.registered]
    · rintro _ old _ new rfl
      obtain ⟨live, there, same⟩ := List.mem_map.mp old
      obtain ⟨entry, mem, rfl⟩ := List.mem_map.mp new
      obtain ⟨fd, -, rfl, got⟩ := made entry mem
      exact (List.nodup_append.mp fresh).2.2 _ (consistent.opened live there) _ got same
  case queue => exact shorter.nodup consistent.queue
  case named =>
    intro waiting mem
    obtain ⟨record, there, same⟩ := consistent.named waiting (shorter.subset mem)
    change ∃ later, Function.update state.filesHash _ _ waiting = some later ∧ _
    rcases eq_or_ne waiting fino with rfl | other
    · exact ⟨_, Function.update_self _ _ _, number⟩
    · rw [Function.update_of_ne other]
      exact ⟨record, there, same⟩
  case waiting =>
    intro live mem waits
    rcases List.mem_append.mp mem with old | new
    · exact consistent.waiting live old (shorter.subset waits)
    · obtain ⟨fd, rfl, rfl, -⟩ := made live new
      change fino ∈ state.filesAdd.tail at waits
      obtain ⟨rest, queue⟩ := List.head?_eq_some_iff.mp front
      rw [queue] at waits
      exact (List.nodup_cons.mp (queue ▸ consistent.queue)).1 waits
  case entered =>
    intro live mem
    rcases List.mem_append.mp mem with old | new
    · exact consistent.entered live old
    · obtain ⟨fd, -, rfl, -⟩ := made live new
      exact consistent.announced fino queued
  case announced =>
    intro waiting mem
    exact consistent.announced waiting (shorter.subset mem)

/-- The record of a file that is closed names the descriptor of its entry. -/
theorem Consistent.closed (consistent : Consistent state) {entry : Nat × Int}
    (live : (state.entries.find? fun entry => entry.1 = fino) = some entry)
    (found : state.filesHash fino = some fi) :
    entry ∈ state.entries ∧ entry.1 = fino ∧ fi.fd = entry.2 := by
  have mem := List.mem_of_find?_eq_some live
  have number : entry.1 = fino := by simpa using List.find?_some live
  obtain ⟨record, there, same⟩ := consistent.recorded entry mem
  rw [number, found] at there
  obtain rfl := Option.some.inj there
  exact ⟨mem, number, same⟩

theorem Consistent.retire (consistent : Consistent state) {entry : Nat × Int}
    (live : (state.entries.find? fun entry => entry.1 = fino) = some entry)
    (found : state.filesHash fino = some fi) : Consistent (state.retire fino fi entry) := by
  obtain ⟨mem, number, stored⟩ := consistent.closed live found
  -- what stays has another number and another descriptor
  have stays : ∀ other ∈ state.entries.erase entry,
      other ∈ state.entries ∧ other.1 ≠ fino ∧ other.2 ≠ fi.fd := by
    intro other left
    obtain ⟨different, there⟩ :=
      (List.Nodup.mem_erase_iff (List.Nodup.of_map _ consistent.numbers)).mp left
    refine ⟨there, fun same => different ?_, fun same => different ?_⟩
    · exact List.inj_on_of_nodup_map consistent.numbers there mem (same.trans number.symm)
    · exact List.inj_on_of_nodup_map consistent.descriptors there mem (same.trans stored)
  have shorter : (state.entries.erase entry).Sublist state.entries := List.erase_sublist
  refine { consistent with
    distinct := consistent.distinct.erase _
    opened := ?_
    recorded := ?_
    numbers := (shorter.map _).nodup consistent.numbers
    descriptors := (shorter.map _).nodup consistent.descriptors
    named := ?_
    waiting := fun other left => consistent.waiting other (stays other left).1
    entered := fun other left => consistent.entered other (stays other left).1 }
  · intro other left
    obtain ⟨there, -, different⟩ := stays other left
    exact (List.Nodup.mem_erase_iff consistent.distinct).mpr
      ⟨different, consistent.opened other there⟩
  · intro other left
    obtain ⟨there, different, -⟩ := stays other left
    change ∃ record, Function.update state.filesHash _ _ other.1 = some record ∧ _
    rw [Function.update_of_ne different]
    exact consistent.recorded other there
  · intro waiting queued
    have different : waiting ≠ fino := by
      rintro rfl
      exact consistent.waiting entry mem (number.symm ▸ queued)
    change ∃ record, Function.update state.filesHash _ _ waiting = some record ∧ _
    rw [Function.update_of_ne different]
    exact consistent.named waiting queued

/-- The table, the queue and the records are consistent in every run. -/
theorem consistent_of_reached (reached : machine.Reached state) : Consistent state := by
  refine reached.invariant Consistent ?_ ?_
  · rintro _ ⟨direct, rfl⟩
    exact consistent_init direct
  · intro before label after consistent _ taken
    cases step_of_next taken with
    | spec fresh => exact consistent.announce fresh
    | completion entry => exact consistent.completion entry
    | add front found _ fresh ends => exact consistent.finish front found fresh ends
    | close _ live found => exact consistent.retire live found

end Steps

/-! ## Accounting -/

/-- Each open descriptor is that of exactly one entry and of the record of its file. -/
def State.Accounts (state : State) : Prop :=
  ∀ fd ∈ state.opened, ∃ fino,
    (state.entries.filter fun entry => entry.2 = fd) = [(fino, fd)] ∧
      ∃ fi, state.filesHash fino = some fi ∧ fi.fd = fd

/-- Every descriptor that `open` returns is positive and gets an entry. -/
def Registers : State → Label → Prop
  | _, .add answers => ∀ answer ∈ answers, 0 ≤ answer.fd → 1 ≤ answer.fd ∧ answer.added = true
  | _, _ => True

/-- Each open descriptor has an entry. -/
def State.Covered (state : State) : Prop := ∀ fd ∈ state.opened, fd ∈ state.entries.map Prod.snd

section Accounting

variable {state : State} {answers : List Answer} {fino : Nat} {fi : FileInformation}
  {ending : Ending} {nodirect : Bool}

theorem Consistent.accounts_iff (consistent : Consistent state) :
    state.Accounts ↔ state.Covered := by
  refine forall₂_congr fun fd _ => ⟨?_, ?_⟩
  · rintro ⟨fino, only, -⟩
    have mem : (fino, fd) ∈ state.entries.filter fun entry => entry.2 = fd := by
      rw [only]
      exact List.mem_singleton_self _
    exact List.mem_map_of_mem (List.mem_filter.mp mem).1
  · intro covered
    obtain ⟨live, mem, rfl⟩ := List.mem_map.mp covered
    refine ⟨live.1, ?_, consistent.recorded live mem⟩
    have distinct : state.entries.Nodup := List.Nodup.of_map _ consistent.numbers
    have only : ∀ entry ∈ state.entries, entry.2 = live.2 ↔ entry = live := by
      refine fun entry there => ⟨fun same => ?_, congrArg Prod.snd⟩
      exact List.inj_on_of_nodup_map consistent.descriptors there mem same
    rw [List.filter_congr fun entry there => decide_eq_decide.mpr (only entry there),
      List.filter_eq, List.count_eq_one_of_mem distinct mem]
    rfl

theorem mem_descriptors_iff {fd : Int} :
    fd ∈ State.descriptors answers ↔ ∃ answer ∈ answers, 0 ≤ answer.fd ∧ answer.fd = fd := by
  simp [State.descriptors, and_assoc]

theorem covered_finish_iff (consistent : Consistent state)
    (fresh : (state.opened ++ State.descriptors answers).Nodup)
    (ends : round fi.path.toList state.nodirect answers = some (ending, nodirect)) :
    (state.finish fino fi answers ending nodirect).Covered ↔
      state.Covered ∧ Registers state (.add answers) := by
  obtain ⟨-, distinct, apart⟩ := List.nodup_append.mp fresh
  change (∀ fd ∈ state.opened ++ State.descriptors answers,
    fd ∈ (state.entries ++ State.registered fi.fino ending).map Prod.snd) ↔ _
  rw [List.map_append]
  constructor
  · intro covered
    refine ⟨fun fd old => ?_, fun answer mem real => ?_⟩
    · rcases List.mem_append.mp (covered fd (List.mem_append_left _ old)) with entered | new
      · exact entered
      · obtain ⟨entry, there, rfl⟩ := List.mem_map.mp new
        obtain ⟨fd, added, rfl⟩ := mem_registered there
        exact absurd rfl (apart fd old fd (stored_mem_descriptors ends (.inl added)))
    · have got : answer.fd ∈ State.descriptors answers :=
        mem_descriptors_iff.mpr ⟨answer, mem, real, rfl⟩
      rcases List.mem_append.mp (covered _ (List.mem_append_right _ got)) with entered | new
      · obtain ⟨entry, there, same⟩ := List.mem_map.mp entered
        exact absurd same (apart _ (consistent.opened entry there) _ got)
      · obtain ⟨entry, there, same⟩ := List.mem_map.mp new
        obtain ⟨fd, rfl, rfl⟩ := mem_registered there
        obtain ⟨last, at_end, positive, added, fd_eq⟩ := ends_of_attempts ends (by simp)
        have from_last : last = answer := by
          refine List.inj_on_of_nodup_map distinct ?_ ?_ (fd_eq.symm.trans same)
          · refine List.mem_filter.mpr ⟨List.mem_of_getLast? at_end, ?_⟩
            exact decide_eq_true (le_trans (by decide) positive)
          · exact List.mem_filter.mpr ⟨mem, decide_eq_true real⟩
        exact from_last ▸ ⟨positive, added⟩
  · rintro ⟨covered, registers⟩ fd mem
    refine List.mem_append.mpr ?_
    rcases List.mem_append.mp mem with old | new
    · exact .inl (covered fd old)
    · obtain ⟨answer, there, real, rfl⟩ := mem_descriptors_iff.mp new
      obtain ⟨positive, added⟩ := registers answer there real
      have ended := ends_of_mem ends there positive
      cases ending with
      | added fd => exact .inr (by simp [State.registered, ended.2.2])
      | full fd aborted => exact absurd (added.symm.trans ended.2.1) (by decide)
      | failed errno => exact absurd ended.1 (not_lt.mpr positive)
      | shortage fd => exact absurd ended.1 (not_lt.mpr positive)
      | exhausted => exact ended.elim
      | panicked => exact absurd ended.1 (not_lt.mpr positive)

/-- Closing a file neither loses a descriptor nor finds one that has been lost. -/
theorem covered_retire_iff (consistent : Consistent state) {entry : Nat × Int}
    (live : (state.entries.find? fun entry => entry.1 = fino) = some entry)
    (found : state.filesHash fino = some fi) :
    (state.retire fino fi entry).Covered ↔ state.Covered := by
  obtain ⟨mem, -, stored⟩ := consistent.closed live found
  have distinct : state.entries.Nodup := List.Nodup.of_map _ consistent.numbers
  change (∀ fd ∈ state.opened.erase fi.fd, fd ∈ (state.entries.erase entry).map Prod.snd) ↔ _
  constructor
  · intro covered fd opened
    rcases eq_or_ne fd fi.fd with rfl | other
    · exact stored ▸ List.mem_map_of_mem mem
    · have left := covered fd ((List.Nodup.mem_erase_iff consistent.distinct).mpr ⟨other, opened⟩)
      exact (List.erase_sublist.map _).subset left
  · intro covered fd left
    obtain ⟨other, opened⟩ := (List.Nodup.mem_erase_iff consistent.distinct).mp left
    obtain ⟨kept, there, rfl⟩ := List.mem_map.mp (covered fd opened)
    refine List.mem_map_of_mem ((List.Nodup.mem_erase_iff distinct).mpr ⟨?_, there⟩)
    rintro rfl
    exact other stored.symm

/-- Exactly the runs in which every descriptor gets an entry account for them all. -/
theorem accounts_iff_registers (reached : machine.Reached state) :
    state.Accounts ↔ machine.ReachedUnder Registers state := by
  refine reached.holds_iff State.Accounts ?_ ?_
  · rintro _ ⟨direct, rfl⟩ fd mem
    cases mem
  · intro before label after earlier taken
    have consistent := consistent_of_reached earlier
    have later := consistent_of_reached (.step earlier trivial taken)
    rw [consistent.accounts_iff, later.accounts_iff]
    cases step_of_next taken with
    | spec _ | completion _ => exact (and_iff_left trivial).symm
    | add _ _ _ fresh ends => exact covered_finish_iff consistent fresh ends
    | close _ live found =>
        rw [covered_retire_iff consistent live found]
        exact (and_iff_left trivial).symm

end Accounting

/-- The file table is full for once, and the file is opened again. -/
def openedTwice : List Label :=
  [.spec "d" { fino := 1, name := "f" }, .add [⟨3, 0, false, 0⟩], .add [⟨4, 0, true, 0⟩]]

/-- The first descriptor is lost. -/
theorem not_accounts_of_openedTwice :
    ¬ ∀ state, machine.Reached state → state.Accounts := by
  intro every
  have kept : ((machine.run (.init false) openedTwice).map fun state =>
      (state.opened, state.entries)) = some ([3, 4], [(1, 4)]) := by decide +kernel
  obtain ⟨state, taken, kept⟩ := Option.map_eq_some_iff.mp kept
  obtain ⟨opened, entries⟩ := Prod.mk.inj kept
  obtain ⟨fino, only, -⟩ := every state (Machine.reached_of_run ⟨false, rfl⟩ openedTwice taken) 3
    (by simp [opened])
  simp [entries] at only

/-- A file is opened and closed. -/
def openedOnce : List Label :=
  [.spec "d" { fino := 1, name := "f" }, .add [⟨-1, eMFILE, true, 0⟩], .add [⟨3, 0, true, 0⟩],
    .completion { fino := 1, blocks := 1 }, .close]

theorem accounts_iff_registers_of_openedOnce :
    ∃ state, machine.run (.init false) openedOnce = some state ∧
      (state.Accounts ↔ machine.ReachedUnder Registers state) ∧ state.opened = [] := by
  have opened : ((machine.run (.init false) openedOnce).map State.opened) = some [] := by
    decide +kernel
  obtain ⟨state, taken, last⟩ := Option.map_eq_some_iff.mp opened
  exact ⟨state, taken,
    accounts_iff_registers (Machine.reached_of_run ⟨false, rfl⟩ openedOnce taken), last⟩

end AddFile
end EScp
