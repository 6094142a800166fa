import EScp.ReceiveFiles

/-!
# The table and the books of the receiver

A file is not announced yet, waits to be opened, has a slot of the file table, or is closed.  While
it has a slot its entry tells how far its blocks are, and what the main loop keeps of it depends on
which of its two entries have arrived, not on their order.
-/

namespace EScp
namespace ReceiveFiles

open StateWord FileTable

variable {File : Type*} {transfer : Transfer File}

/-- What the main loop has done with a file. -/
inductive Phase where
  | unannounced
  /-- In `files_add`. -/
  | queued
  | added (slot : Nat)
  | closed
deriving DecidableEq

/-- How far a block is, as its entry tells. -/
def Progress.stage : Progress → FileChecksum.Stage
  | .sent | .received => .arrived
  | .hashed | .written => .hashed
  | .sized => .sized
  | .counted => .counted

namespace Transfer

variable (transfer)

def path (file : File) : String := State.fullPath (transfer.root file) (transfer.entry file).name

/-- What the descriptor of a file is open on. -/
def opened (file : File) : Opened := ⟨transfer.fino file, State.openPath (transfer.path file)⟩

/-- What `files_hash` has of a file when its spec entry, its completion entry or both have
arrived. -/
def info (file : File) (spec completion : Bool) (fd : Int) : FileInformation :=
  let blank : FileInformation := {}
  let blank := { blank with
    fd := fd
    blocks := if completion then transfer.blocks file else -1 }
  let entry := transfer.entry file
  if spec then
    { blank with
      path := transfer.path file
      fino := transfer.fino file
      sz := entry.sz
      mode := entry.mode
      uid := entry.uid
      gid := entry.gid
      atimSec := entry.atimSec
      atimNano := entry.atimNano
      mtimSec := entry.mtimSec
      mtimNano := entry.mtimNano }
  else blank

/-- The entry of a file with the progress of its blocks. -/
def check (file : File) (stat : FileStat) (progress : transfer.Block → Progress) :
    FileChecksum.State (Fin (transfer.blocks file)) :=
  ⟨stat, fun index => (progress ⟨file, index⟩).stage⟩

variable {transfer}

theorem fino_inj {file other : File} (same : transfer.fino file = transfer.fino other) :
    file = other :=
  transfer.fino_injective same

theorem check_congr {file : File} {stat : FileStat} {progress after : transfer.Block → Progress}
    (same : ∀ index, (after ⟨file, index⟩).stage = (progress ⟨file, index⟩).stage) :
    transfer.check file stat after = transfer.check file stat progress :=
  congrArg (FileChecksum.State.mk stat) (funext same)

end Transfer

/-! ## The table -/

/-- The entry of a file that has a slot. -/
structure Held (transfer : Transfer File) (stat : FileStat) (opened : Int → Option Opened)
    (progress : transfer.Block → Progress) (file : File) (slot : Nat) : Prop where
  probe : slot ∈ probes (transfer.fino file)
  fileNo : stat.fileNo = transfer.fino file
  used : stat.state ≠ 0
  opened : opened stat.fd = some (transfer.opened file)
  check : FileChecksum.Inv transfer.fileHash (transfer.content file)
    (transfer.check file stat progress)

/-- The file table. -/
structure Table (transfer : Transfer File) (fileStat : Nat → FileStat)
    (opened : Int → Option Opened) (progress : transfer.Block → Progress)
    (phase : File → Phase) : Prop where
  held : ∀ file slot, phase file = .added slot →
    Held transfer (fileStat slot) opened progress file slot
  slots : ∀ slot, (fileStat slot).fileNo ≠ 0 → ∃ file, phase file = .added slot
  free : ∀ slot, (fileStat slot).state = 0 → (fileStat slot).fileNo = 0

section Table

variable {fileStat : Nat → FileStat} {opened : Int → Option Opened}
  {progress : transfer.Block → Progress} {phase : File → Phase} {file : File} {slot : Nat}

/-- A slot with the number of a file is the slot of the file. -/
theorem Table.phase_of_fileNo (table : Table transfer fileStat opened progress phase)
    (fileNo : (fileStat slot).fileNo = transfer.fino file) : phase file = .added slot := by
  obtain ⟨other, added⟩ := table.slots slot (fileNo ▸ transfer.fino_ne file)
  have same := (table.held other slot added).fileNo.symm.trans fileNo
  rwa [Transfer.fino_inj same] at added

/-- `file_getstats` finds a file exactly if it has a slot. -/
theorem Table.fileGetstats_eq (table : Table transfer fileStat opened progress phase) :
    fileGetstats fileStat (transfer.fino file) = some slot ↔ phase file = .added slot := by
  constructor
  · intro found
    have fileNo := List.find?_some found
    exact table.phase_of_fileNo (of_decide_eq_true fileNo).symm
  · intro added
    have held := table.held file slot added
    have found : (fileGetstats fileStat (transfer.fino file)).isSome := by
      rw [fileGetstats, List.find?_isSome]
      exact ⟨slot, held.probe, decide_eq_true held.fileNo.symm⟩
    obtain ⟨other, at_other⟩ := Option.isSome_iff_exists.mp found
    have fileNo := List.find?_some at_other
    have same := (table.phase_of_fileNo (of_decide_eq_true fileNo).symm).symm.trans added
    rw [at_other, Phase.added.inj same]

/-- Blocks make progress that the table does not see. -/
theorem Table.unseen (table : Table transfer fileStat opened progress phase)
    {after : transfer.Block → Progress}
    (same : ∀ block, (after block).stage = (progress block).stage) :
    Table transfer fileStat opened after phase := by
  refine { table with held := fun file slot added => ?_ }
  have held := table.held file slot added
  refine { held with check := ?_ }
  rw [Transfer.check_congr fun index => same ⟨file, index⟩]
  exact held.check

/-- One entry is replaced by another. -/
theorem Table.free_update (table : Table transfer fileStat opened progress phase) {stat : FileStat}
    (free : stat.state = 0 → stat.fileNo = 0) (other : Nat) :
    (Function.update fileStat slot stat other).state = 0 →
      (Function.update fileStat slot stat other).fileNo = 0 := by
  revert other
  rw [Function.forall_update_iff fileStat fun _ entry => entry.state = 0 → entry.fileNo = 0]
  exact ⟨free, fun other _ => table.free other⟩

/-- A thread updates the entry of a file. -/
theorem Table.store (table : Table transfer fileStat opened progress phase)
    (added : phase file = .added slot) {stat : FileStat} {after : transfer.Block → Progress}
    (fileNo : stat.fileNo = (fileStat slot).fileNo) (fd : stat.fd = (fileStat slot).fd)
    (used : stat.state ≠ 0)
    (others : ∀ block, block.1 ≠ file → (after block).stage = (progress block).stage)
    (check : FileChecksum.Inv transfer.fileHash (transfer.content file)
      (transfer.check file stat after)) :
    Table transfer (Function.update fileStat slot stat) opened after phase := by
  constructor
  · intro other place at_place
    have held := table.held other place at_place
    by_cases same : other = file
    · subst same
      obtain rfl := Phase.added.inj (at_place.symm.trans added)
      rw [Function.update_self]
      exact ⟨held.probe, fileNo.trans held.fileNo, used, fd ▸ held.opened, check⟩
    · have apart : place ≠ slot := by
        rintro rfl
        exact same (Transfer.fino_inj (held.fileNo.symm.trans (table.held file place added).fileNo))
      rw [Function.update_of_ne apart]
      refine { held with check := ?_ }
      rw [Transfer.check_congr fun index => others ⟨other, index⟩ same]
      exact held.check
  · intro place used_place
    by_cases same : place = slot
    · exact ⟨file, same ▸ added⟩
    · rw [Function.update_of_ne same] at used_place
      exact table.slots place used_place
  · exact table.free_update fun zero => absurd zero used

variable [DecidableEq File]

/-- `file_addfile` gives a file a slot. -/
theorem Table.add (table : Table transfer fileStat opened progress phase)
    (queued : phase file = .queued) {fd : Int} (unused : opened fd = none)
    (early : ∀ index, (progress ⟨file, index⟩).stage = .arrived) {after : Nat → FileStat}
    (taken : fileAddfile fileStat (transfer.fino file) fd = some after) :
    ∃ slot, after = Function.update fileStat slot (newStat (transfer.fino file) fd slot) ∧
      Table transfer after (Function.update opened fd (some (transfer.opened file))) progress
        (Function.update phase file (.added slot)) := by
  obtain ⟨slot, found, rfl⟩ := Option.map_eq_some_iff.mp taken
  have tried := List.find?_some found
  have zero : (fileStat slot).state = 0 := of_decide_eq_true tried
  have none_there : ∀ other, phase other ≠ .added slot := by
    intro other added
    exact (table.held other slot added).used zero
  refine ⟨slot, rfl, ?_⟩
  constructor
  · intro other place at_place
    by_cases same : other = file
    · subst same
      rw [Function.update_self] at at_place
      obtain rfl := Phase.added.inj at_place
      rw [Function.update_self]
      constructor
      · exact List.mem_of_find?_eq_some found
      · rfl
      · exact (by decide : fsInit ≠ 0)
      · exact Function.update_self ..
      · have start : transfer.check other (newStat (transfer.fino other) fd slot) progress =
            ⟨newStat (transfer.fino other) fd slot, fun _ => .arrived⟩ :=
          congrArg (FileChecksum.State.mk _) (funext early)
        rw [start]
        exact FileChecksum.inv_newStat _ _ _
    · rw [Function.update_of_ne same] at at_place
      have apart : place ≠ slot := by
        rintro rfl
        exact none_there other at_place
      have held := table.held other place at_place
      rw [Function.update_of_ne apart]
      refine { held with opened := ?_ }
      have other_fd : (fileStat place).fd ≠ fd := by
        intro same_fd
        have opened := held.opened
        rw [same_fd, unused] at opened
        cases opened
      rw [Function.update_of_ne other_fd]
      exact held.opened
  · intro place used_place
    by_cases same : place = slot
    · exact ⟨file, same ▸ Function.update_self ..⟩
    · rw [Function.update_of_ne same] at used_place
      obtain ⟨other, added⟩ := table.slots place used_place
      have ne : other ≠ file := by
        rintro rfl
        exact absurd (queued.symm.trans added) (by simp)
      exact ⟨other, (Function.update_of_ne ne ..).trans added⟩
  · exact table.free_update fun zero_after => absurd zero_after (by decide : fsInit ≠ 0)

/-- `close_file` closes a file and wipes its slot. -/
theorem Table.close (table : Table transfer fileStat opened progress phase)
    (added : phase file = .added slot) :
    Table transfer (Function.update fileStat slot FileStat.zero)
      (Function.update opened (fileStat slot).fd none) progress
        (Function.update phase file .closed) := by
  have own := table.held file slot added
  constructor
  · intro other place at_place
    have ne : other ≠ file := by
      rintro rfl
      rw [Function.update_self] at at_place
      cases at_place
    rw [Function.update_of_ne ne] at at_place
    have held := table.held other place at_place
    have apart : place ≠ slot := by
      rintro rfl
      exact ne (Transfer.fino_inj (held.fileNo.symm.trans own.fileNo))
    have other_fd : (fileStat place).fd ≠ (fileStat slot).fd := by
      intro same_fd
      have opened := held.opened
      rw [same_fd, own.opened] at opened
      have same := congrArg Opened.fino (Option.some.inj opened)
      exact ne (Transfer.fino_inj same.symm)
    rw [Function.update_of_ne apart]
    refine { held with opened := ?_ }
    rw [Function.update_of_ne other_fd]
    exact held.opened
  · intro place used_place
    by_cases same : place = slot
    · rw [same, Function.update_self] at used_place
      exact absurd rfl used_place
    · rw [Function.update_of_ne same] at used_place
      obtain ⟨other, at_place⟩ := table.slots place used_place
      have ne : other ≠ file := by
        rintro rfl
        exact same (Phase.added.inj (at_place.symm.trans added))
      exact ⟨other, (Function.update_of_ne ne ..).trans at_place⟩
  · exact table.free_update fun _ => rfl

end Table

/-! ## The books -/

/-- The descriptor that `files_hash` has for a file. -/
def Phase.fd (fileStat : Nat → FileStat) : Phase → Int
  | .added slot => (fileStat slot).fd
  | _ => 0

/-- What the main loop keeps. -/
structure Books (transfer : Transfer File) (specs completions : File → Bool)
    (filesHash : Nat → Option FileInformation) (filesAdd filesClose : List Nat)
    (fileStat : Nat → FileStat) (phase : File → Phase) : Prop where
  announced : ∀ file, specs file = false ↔ phase file = .unannounced
  adding : filesAdd.Nodup
  mem_adding : ∀ fino, fino ∈ filesAdd ↔
    ∃ file, fino = transfer.fino file ∧ phase file = .queued
  closing : filesClose.Nodup
  mem_closing : ∀ fino, fino ∈ filesClose ↔
    ∃ file, fino = transfer.fino file ∧ completions file = true ∧ phase file ≠ .closed
  hash : ∀ file, phase file ≠ .closed → filesHash (transfer.fino file) =
    if specs file || completions file then
      some (transfer.info file (specs file) (completions file) ((phase file).fd fileStat))
    else none
  done : ∀ file, phase file = .closed → completions file = true

section Books

variable {specs completions : File → Bool} {filesHash : Nat → Option FileInformation}
  {filesAdd filesClose : List Nat} {fileStat : Nat → FileStat} {phase : File → Phase} {file : File}

/-- What `files_hash` has of a file, or the default. -/
theorem Books.getD_hash
    (books : Books transfer specs completions filesHash filesAdd filesClose fileStat phase)
    (open_phase : phase file ≠ .closed) : (filesHash (transfer.fino file)).getD {} =
      transfer.info file (specs file) (completions file) ((phase file).fd fileStat) := by
  rw [books.hash file open_phase]
  cases spec : specs file with
  | true => rfl
  | false =>
      cases completions file with
      | true => rfl
      | false =>
          rw [(books.announced file).mp spec]
          rfl

/-- The threads do not touch descriptors. -/
theorem Books.keep
    (books : Books transfer specs completions filesHash filesAdd filesClose fileStat phase)
    {after : Nat → FileStat} (same : ∀ slot, (after slot).fd = (fileStat slot).fd) :
    Books transfer specs completions filesHash filesAdd filesClose after phase := by
  refine { books with hash := fun file open_phase => ?_ }
  have fd : (phase file).fd after = (phase file).fd fileStat := by
    cases phase file with
    | added slot => exact same slot
    | unannounced | queued | closed => rfl
  rw [fd]
  exact books.hash file open_phase

variable [DecidableEq File]

/-- Which files are in a phase that a file neither leaves nor enters. -/
theorem update_phase_iff {before : Phase} (at_phase : phase file = before) (later : Phase)
    (other : File) (target : Phase) (not_later : target ≠ later) (not_before : target ≠ before) :
    Function.update phase file later other = target ↔ phase other = target := by
  by_cases same : other = file
  · rw [same, Function.update_self, at_phase]
    exact iff_of_false not_later.symm not_before.symm
  · rw [Function.update_of_ne same]

/-- The book of one file changes. -/
theorem hash_update {after : File → Phase} {later : Nat → FileStat}
    {specs' completions' : File → Bool}
    (books : Books transfer specs completions filesHash filesAdd filesClose fileStat phase)
    (others : ∀ other ≠ file, specs' other = specs other ∧ completions' other = completions other ∧
      after other = phase other ∧ (phase other).fd later = (phase other).fd fileStat)
    {entry : Option FileInformation}
    (own : after file ≠ .closed → entry = if specs' file || completions' file then
      some (transfer.info file (specs' file) (completions' file) ((after file).fd later)) else none)
    (other : File) (open_phase : after other ≠ .closed) :
    Function.update filesHash (transfer.fino file) entry (transfer.fino other) =
      if specs' other || completions' other then
        some (transfer.info other (specs' other) (completions' other) ((after other).fd later))
      else none := by
  by_cases same : other = file
  · subst same
    rw [Function.update_self]
    exact own open_phase
  · obtain ⟨spec, completion, kept, fd⟩ := others other same
    rw [Function.update_of_ne fun same_fino => same (Transfer.fino_inj same_fino), spec, completion,
      kept, fd]
    exact books.hash other (kept ▸ open_phase)

/-- A file is announced. -/
theorem Books.spec
    (books : Books transfer specs completions filesHash filesAdd filesClose fileStat phase)
    (fresh : specs file = false) :
    Books transfer (Function.update specs file true) completions
      (Function.update filesHash (transfer.fino file)
        (some (transfer.info file true (completions file) 0)))
      (filesAdd ++ [transfer.fino file]) filesClose fileStat
      (Function.update phase file .queued) := by
  have unannounced := (books.announced file).mp fresh
  have mem_phase := update_phase_iff unannounced .queued
  constructor
  · intro other
    by_cases same : other = file
    · rw [same, Function.update_self, Function.update_self]
      simp
    · rw [Function.update_of_ne same, Function.update_of_ne same]
      exact books.announced other
  · refine List.nodup_append.mpr ⟨books.adding, List.nodup_singleton _, ?_⟩
    rintro fino mem _ mem' rfl
    obtain ⟨other, fino_eq, queued⟩ := (books.mem_adding fino).mp mem
    rw [List.mem_singleton.mp mem'] at fino_eq
    rw [← Transfer.fino_inj fino_eq, unannounced] at queued
    cases queued
  · intro fino
    rw [List.mem_append, List.mem_singleton, books.mem_adding]
    constructor
    · rintro (⟨other, fino_eq, queued⟩ | rfl)
      · have ne : other ≠ file := by
          rintro rfl
          rw [unannounced] at queued
          cases queued
        exact ⟨other, fino_eq, (Function.update_of_ne ne ..).trans queued⟩
      · exact ⟨file, rfl, Function.update_self ..⟩
    · rintro ⟨other, fino_eq, queued⟩
      by_cases same : other = file
      · exact .inr (same ▸ fino_eq)
      · rw [Function.update_of_ne same] at queued
        exact .inl ⟨other, fino_eq, queued⟩
  · exact books.closing
  · intro fino
    rw [books.mem_closing]
    simp only [ne_eq, mem_phase _ .closed (by simp) (by simp)]
  · refine hash_update books (fun other ne => ?_) fun _ => ?_
    · exact ⟨Function.update_of_ne ne .., rfl, Function.update_of_ne ne .., rfl⟩
    · rw [Function.update_self, Function.update_self]
      rfl
  · intro other done
    exact books.done other ((mem_phase other .closed (by simp) (by simp)).mp done)

/-- The completion entry of a file arrives. -/
theorem Books.completion
    (books : Books transfer specs completions filesHash filesAdd filesClose fileStat phase)
    (fresh : completions file = false) :
    Books transfer specs (Function.update completions file true)
      (Function.update filesHash (transfer.fino file)
        (some (transfer.info file (specs file) true ((phase file).fd fileStat))))
      filesAdd (filesClose ++ [transfer.fino file]) fileStat phase := by
  have open_phase : phase file ≠ .closed := by
    intro closed
    rw [books.done file closed] at fresh
    cases fresh
  constructor
  · exact books.announced
  · exact books.adding
  · exact books.mem_adding
  · refine List.nodup_append.mpr ⟨books.closing, List.nodup_singleton _, ?_⟩
    rintro fino mem _ mem' rfl
    obtain ⟨other, fino_eq, arrived, -⟩ := (books.mem_closing fino).mp mem
    rw [List.mem_singleton.mp mem'] at fino_eq
    rw [← Transfer.fino_inj fino_eq, fresh] at arrived
    cases arrived
  · intro fino
    rw [List.mem_append, List.mem_singleton, books.mem_closing]
    constructor
    · rintro (⟨other, fino_eq, arrived, open_other⟩ | rfl)
      · have ne : other ≠ file := by
          rintro rfl
          rw [fresh] at arrived
          cases arrived
        exact ⟨other, fino_eq, (Function.update_of_ne ne ..).trans arrived, open_other⟩
      · exact ⟨file, rfl, Function.update_self .., open_phase⟩
    · rintro ⟨other, fino_eq, arrived, open_other⟩
      by_cases same : other = file
      · exact .inr (same ▸ fino_eq)
      · rw [Function.update_of_ne same] at arrived
        exact .inl ⟨other, fino_eq, arrived, open_other⟩
  · refine hash_update books (fun other ne => ?_) fun _ => ?_
    · exact ⟨rfl, Function.update_of_ne ne .., rfl, rfl⟩
    · rw [Function.update_self, Bool.or_true]
      rfl
  · intro other closed
    by_cases same : other = file
    · rw [same, Function.update_self]
    · rw [Function.update_of_ne same]
      exact books.done other closed

variable {slot : Nat} {rest : List Nat}

/-- A file gets a slot that no file has. -/
theorem Books.add (stat : FileStat)
    (books : Books transfer specs completions filesHash (transfer.fino file :: rest) filesClose
      fileStat phase)
    (apart : ∀ other, phase other ≠ .added slot) :
    Books transfer specs completions
      (Function.update filesHash (transfer.fino file)
        (some (transfer.info file true (completions file) stat.fd)))
      rest filesClose (Function.update fileStat slot stat)
      (Function.update phase file (.added slot)) := by
  obtain ⟨other, same_fino, queued⟩ := (books.mem_adding _).mp List.mem_cons_self
  obtain rfl := Transfer.fino_inj same_fino
  have announced : specs file = true := by
    by_contra unannounced
    rw [Bool.not_eq_true, books.announced, queued] at unannounced
    cases unannounced
  obtain ⟨fresh, adding⟩ := List.nodup_cons.mp books.adding
  have mem_phase := update_phase_iff queued (.added slot)
  constructor
  · intro other
    rw [books.announced, mem_phase _ .unannounced (by simp) (by simp)]
  · exact adding
  · intro fino
    constructor
    · intro mem
      obtain ⟨other, fino_eq, queued⟩ := (books.mem_adding fino).mp (List.mem_cons_of_mem _ mem)
      have ne : other ≠ file := by
        rintro rfl
        rw [fino_eq] at mem
        exact fresh mem
      exact ⟨other, fino_eq, (Function.update_of_ne ne ..).trans queued⟩
    · rintro ⟨other, rfl, queued⟩
      have ne : other ≠ file := by
        rintro rfl
        rw [Function.update_self] at queued
        cases queued
      rw [Function.update_of_ne ne] at queued
      have mem := (books.mem_adding _).mpr ⟨other, rfl, queued⟩
      exact (List.mem_cons.mp mem).resolve_left fun same => ne (Transfer.fino_inj same)
  · exact books.closing
  · intro fino
    rw [books.mem_closing]
    simp only [ne_eq, mem_phase _ .closed (by simp) (by simp)]
  · refine hash_update books (fun other ne => ?_) fun _ => ?_
    · refine ⟨rfl, rfl, Function.update_of_ne ne .., ?_⟩
      cases at_phase : phase other with
      | added place =>
          have place_ne : place ≠ slot := by
            rintro rfl
            exact apart other at_phase
          exact congrArg FileStat.fd (Function.update_of_ne place_ne ..)
      | unannounced | queued | closed => rfl
    · rw [Function.update_self, announced, Bool.true_or, if_pos rfl, Phase.fd, Function.update_self]
  · intro other done
    exact books.done other ((mem_phase other .closed (by simp) (by simp)).mp done)

/-- A file is closed. -/
theorem Books.close (stat : FileStat)
    (books : Books transfer specs completions filesHash filesAdd (transfer.fino file :: rest)
      fileStat phase)
    (added : phase file = .added slot) (apart : ∀ other ≠ file, phase other ≠ .added slot) :
    Books transfer specs completions (Function.update filesHash (transfer.fino file) none)
      filesAdd rest (Function.update fileStat slot stat) (Function.update phase file .closed) := by
  obtain ⟨other, same_fino, arrived, -⟩ := (books.mem_closing _).mp List.mem_cons_self
  obtain rfl := Transfer.fino_inj same_fino
  obtain ⟨fresh, closing⟩ := List.nodup_cons.mp books.closing
  have mem_phase := update_phase_iff added .closed
  constructor
  · intro other
    rw [books.announced, mem_phase _ .unannounced (by simp) (by simp)]
  · exact books.adding
  · intro fino
    rw [books.mem_adding]
    simp only [mem_phase _ .queued (by simp) (by simp)]
  · exact closing
  · intro fino
    constructor
    · intro mem
      obtain ⟨other, fino_eq, arrived, open_other⟩ :=
        (books.mem_closing fino).mp (List.mem_cons_of_mem _ mem)
      have ne : other ≠ file := by
        rintro rfl
        rw [fino_eq] at mem
        exact fresh mem
      refine ⟨other, fino_eq, arrived, ?_⟩
      rwa [Function.update_of_ne ne]
    · rintro ⟨other, rfl, arrived, open_other⟩
      have ne : other ≠ file := by
        rintro rfl
        exact open_other (Function.update_self ..)
      rw [Function.update_of_ne ne] at open_other
      have mem := (books.mem_closing _).mpr ⟨other, rfl, arrived, open_other⟩
      exact (List.mem_cons.mp mem).resolve_left fun same => ne (Transfer.fino_inj same)
  · refine hash_update books (fun other ne => ?_) fun open_own => ?_
    · refine ⟨rfl, rfl, Function.update_of_ne ne .., ?_⟩
      cases at_phase : phase other with
      | added place =>
          have place_ne : place ≠ slot := by
            rintro rfl
            exact apart other ne at_phase
          exact congrArg FileStat.fd (Function.update_of_ne place_ne ..)
      | unannounced | queued | closed => rfl
    · exact absurd (Function.update_self ..) open_own
  · intro other closed
    by_cases same : other = file
    · rwa [same]
    · rw [Function.update_of_ne same] at closed
      exact books.done other closed

end Books
end ReceiveFiles
end EScp
