import EScp.ReceiveFiles
import EScp.UnixPath

/-!
# Opening files on the receiver

`add_file` opens the files of `files_add` in turn and puts them in the file table; for each it makes
up to four attempts, after which the file stays at the front.  When it returns an error,
`escp_receiver` reports the file and drops it.  What `open` and `file_addfile` return is an input of
the round in which they are called; what `create_dir_all` returns is not looked at.
-/

namespace EScp
namespace AddFile

open ReceiveFiles (FileEntry FileInformation)

/-! ## One file -/

/-- What an attempt meets. -/
structure Answer where
  /-- What `open` returns. -/
  fd : Int
  /-- `errno` after it, whatever has set it. -/
  errno : Nat
  /-- `file_addfile` returns an entry. -/
  added : Bool := true
  threadsFinished : Nat := 0
deriving DecidableEq

/-- `errno` is set when `open` returns -1. -/
def Answer.Valid (answer : Answer) : Prop :=
  -1 ≤ answer.fd ∧ (answer.fd = -1 → answer.errno ≠ 0)

instance (answer : Answer) : Decidable answer.Valid := by
  unfold Answer.Valid
  infer_instance

def eNOENT : Nat := 2
def eISDIR : Nat := 21
def eINVAL : Nat := 22
def eMFILE : Nat := 24

/-- How a round of `add_file` ends. -/
inductive Ending where
  | added (fd : Int)
  /-- `add_file` returns this error. -/
  | failed (errno : Nat)
  /-- There are too many open files. -/
  | shortage (fd : Int)
  /-- `file_addfile` returns nothing for a descriptor, and the threads have ended or not. -/
  | full (fd : Int) (aborted : Bool)
  /-- There are no attempts left. -/
  | exhausted
  /-- The path has no parent to be created. -/
  | panicked
deriving DecidableEq

/-- The variables of the loop over the attempts. -/
structure Opening where
  fp : List Char
  altFp : Option (List Char)
  nodirect : Bool
deriving DecidableEq

/-- `fp` and `alt_fp` before the first attempt: a path may hold two names. -/
def opening (path : List Char) (nodirect : Bool) : Opening :=
  match path.splitOn '\x00' with
  | first :: second :: _ => ⟨first, some (UnixPath.join first second), nodirect⟩
  | _ => ⟨path, none, nodirect⟩

inductive Attempt where
  | again (opening : Opening)
  | ended (ending : Ending)
deriving DecidableEq

/-- The name to try when `fp` is a directory. -/
def Opening.other (opening : Opening) : Option (List Char) :=
  opening.altFp.filter fun name => name ≠ opening.fp

/-- One attempt. -/
def attempt (path : List Char) (opening : Opening) (answer : Answer) : Attempt :=
  if opening.nodirect = false ∧ answer.fd = -1 ∧ answer.errno = eINVAL then
    .again { opening with nodirect := true }
  else
    match if answer.fd = -1 ∧ answer.errno = eISDIR then opening.other else none with
    | some name => .again { opening with fp := name }
    | none =>
        if answer.fd < 1 then
          if answer.errno = eNOENT then
            match UnixPath.parent (UnixPath.components path) with
            | none => .ended .panicked
            | some _ => .again opening
          else if answer.errno ≠ eMFILE then .ended (.failed answer.errno)
          else .ended (.shortage answer.fd)
        else if answer.added then .ended (.added answer.fd)
        else .ended (.full answer.fd (0 < answer.threadsFinished))

/-- The loop with so many attempts left, for the answers that it meets: how it ends, and
`nodirect`. -/
def attempts (path : List Char) : Nat → Opening → List Answer → Option (Ending × Bool)
  | 0, opening, [] => some (.exhausted, opening.nodirect)
  | budget + 1, opening, answer :: answers =>
      match attempt path opening answer with
      | .again opening => attempts path budget opening answers
      | .ended ending => if answers = [] then some (ending, opening.nodirect) else none
  | _, _, _ => none

/-- A round for a path. -/
def round (path : List Char) (nodirect : Bool) (answers : List Answer) : Option (Ending × Bool) :=
  attempts path 4 (opening path nodirect) answers

/-! ## The receiver -/

/-- A round, as it is remembered. -/
structure Round where
  fino : Nat
  ending : Ending
  /-- The file is still at the front of `files_add`. -/
  left : Bool
deriving DecidableEq

structure State where
  filesHash : Nat → Option FileInformation
  filesAdd : List Nat
  filesClose : List Nat
  nodirect : Bool
  /-- The live entries of the file table: number and descriptor. -/
  entries : List (Nat × Int)
  /-- The descriptors that `open` has returned and that have not been closed. -/
  opened : List Int
  /-- What has been given to `send_file_error`. -/
  errors : List (Nat × Nat)
  rounds : List Round
  /-- The numbers that have been announced. -/
  announced : List Nat

inductive Label where
  /-- An entry of a message with a root. -/
  | spec (root : String) (entry : FileEntry)
  /-- An entry of a message without one. -/
  | completion (entry : FileEntry)
  /-- A round of `add_file`, with what `escp_receiver` does about an error. -/
  | add (answers : List Answer)
  /-- A round of `close_file` for a file whose blocks have all been counted. -/
  | close

namespace State

def insertHash (state : State) (fino : Nat) (info : FileInformation) : State :=
  { state with filesHash := Function.update state.filesHash fino (some info) }

/-- A file is announced. -/
def announce (state : State) (root : String) (entry : FileEntry) : State :=
  let fi := (state.filesHash entry.fino).getD {}
  let fi := { fi with
    path := ReceiveFiles.State.fullPath root entry.name
    sz := if fi.sz = 0 then entry.sz else fi.sz
    fino := entry.fino
    mode := entry.mode
    uid := entry.uid
    gid := entry.gid
    atimSec := entry.atimSec
    atimNano := entry.atimNano
    mtimSec := entry.mtimSec
    mtimNano := entry.mtimNano }
  { state.insertHash entry.fino fi with
    filesAdd := state.filesAdd ++ [entry.fino]
    announced := entry.fino :: state.announced }

/-- The sender uses each number once. -/
def spec (state : State) (root : String) (entry : FileEntry) : Option State :=
  if entry.fino ∈ state.announced then none else some (state.announce root entry)

def completion (state : State) (entry : FileEntry) : State :=
  let fi := (state.filesHash entry.fino).getD {}
  let fi := { fi with
    blocks := entry.blocks
    sz := if entry.sz > 0 then entry.sz else fi.sz }
  { state.insertHash entry.fino fi with filesClose := state.filesClose ++ [entry.fino] }

/-- The descriptors that `open` has returned. -/
def descriptors (answers : List Answer) : List Int :=
  (answers.filter fun answer => 0 ≤ answer.fd).map Answer.fd

/-- The descriptor stored in `i.fd`. -/
def storedFd (fd : Int) : Ending → Int
  | .added new | .full new _ => new
  | _ => fd

/-- The entry that `file_addfile` makes. -/
def registered (fino : Nat) : Ending → List (Nat × Int)
  | .added fd => [(fino, fd)]
  | _ => []

/-- What `escp_receiver` gives to `send_file_error`. -/
def reported (fino : Nat) : Ending → List (Nat × Nat)
  | .failed errno => if 0 < errno then [(fino, errno)] else []
  | _ => []

/-- The file is taken from the front of `files_add`, by `add_file` or after an error. -/
def popped : Ending → Bool
  | .added _ => true
  | .failed errno => 0 < errno
  | _ => false

/-- What a round that ends so does for the file at the front. -/
def finish (state : State) (fino : Nat) (fi : FileInformation) (answers : List Answer)
    (ending : Ending) (nodirect : Bool) : State :=
  { state.insertHash fino { fi with fd := storedFd fi.fd ending } with
    filesAdd := if popped ending then state.filesAdd.tail else state.filesAdd
    nodirect := nodirect
    entries := state.entries ++ registered fi.fino ending
    opened := state.opened ++ descriptors answers
    errors := state.errors ++ reported fino ending
    rounds := state.rounds ++ [⟨fino, ending, !popped ending⟩] }

/-- A round of `add_file`, and what `escp_receiver` does when it returns an error. -/
def add (state : State) (answers : List Answer) : Option State :=
  state.filesAdd.head?.bind fun fino =>
    (state.filesHash fino).bind fun fi =>
      if (∀ answer ∈ answers, answer.Valid) ∧ (state.opened ++ descriptors answers).Nodup then
        (round fi.path.toList state.nodirect answers).map fun (ending, nodirect) =>
          state.finish fino fi answers ending nodirect
      else none

/-- A file is closed, and its entry in the table is cleared. -/
def retire (state : State) (fino : Nat) (fi : FileInformation) (entry : Nat × Int) : State :=
  { state with
    filesHash := Function.update state.filesHash fino none
    filesClose := state.filesClose.tail
    entries := state.entries.erase entry
    opened := state.opened.erase fi.fd }

/-- A round of `close_file`. -/
def close (state : State) : Option State :=
  state.filesClose.head?.bind fun fino =>
    (state.entries.find? fun entry => entry.1 = fino).bind fun entry =>
      (state.filesHash fino).bind fun fi =>
        if fi.blocks < 0 then none else some (state.retire fino fi entry)

/-- One step; nothing more happens after a panic. -/
def next (state : State) (label : Label) : Option State :=
  if ∃ round ∈ state.rounds, round.ending = .panicked then none
  else
    match label with
    | .spec root entry => state.spec root entry
    | .completion entry => some (state.completion entry)
    | .add answers => state.add answers
    | .close => state.close

def init (nodirect : Bool) : State where
  filesHash _ := none
  filesAdd := []
  filesClose := []
  nodirect := nodirect
  entries := []
  opened := []
  errors := []
  rounds := []
  announced := []

end State

/-- The main loop of the receiver, as far as it opens and closes files. -/
def machine : Machine State Label where
  initial state := ∃ nodirect, state = .init nodirect
  next := State.next

/-! ## How the attempts end -/

section Attempts

variable {path : List Char} {opening later : Opening} {answer : Answer} {ending : Ending}

/-- After these answers there may be another attempt. -/
def Recovered (path : List Char) (answer : Answer) : Prop :=
  answer.fd < 1 ∧ answer.errno = eNOENT ∧ UnixPath.parent (UnixPath.components path) ≠ none ∨
    answer.fd = -1 ∧ (answer.errno = eINVAL ∨ answer.errno = eISDIR)

/-- All the attempts are used up: direct mode is given up at most once, and so is the first name. -/
def Retried (path : List Char) (budget : Nat) (opening : Opening) (answers : List Answer) : Prop :=
  answers.length = budget ∧ (∀ answer ∈ answers, Recovered path answer) ∧
    (answers.countP fun answer => answer.errno = eINVAL) ≤ (if opening.nodirect then 0 else 1) ∧
    (answers.countP fun answer => answer.errno = eISDIR) ≤
      (if opening.other = none then 0 else 1)

/-- What leads to another attempt. -/
inductive Again (path : List Char) (opening : Opening) (answer : Answer) : Opening → Prop
  | direct (enabled : opening.nodirect = false) (fails : answer.fd = -1)
      (invalid : answer.errno = eINVAL) :
      Again path opening answer { opening with nodirect := true }
  | name {name : List Char} (fails : answer.fd = -1) (directory : answer.errno = eISDIR)
      (other : opening.other = some name) : Again path opening answer { opening with fp := name }
  | parent (fails : answer.fd < 1) (missing : answer.errno = eNOENT)
      (parent : UnixPath.parent (UnixPath.components path) ≠ none) :
      Again path opening answer opening

/-- What an answer is when it ends the loop so. -/
def Ends (path : List Char) (answer : Answer) : Ending → Prop
  | .added fd => 1 ≤ answer.fd ∧ answer.added = true ∧ fd = answer.fd
  | .failed errno => answer.fd < 1 ∧ answer.errno ≠ eNOENT ∧ answer.errno ≠ eMFILE ∧
      errno = answer.errno
  | .shortage fd => answer.fd < 1 ∧ answer.errno = eMFILE ∧ fd = answer.fd
  | .full fd _ => 1 ≤ answer.fd ∧ answer.added = false ∧ fd = answer.fd
  | .exhausted => False
  | .panicked => answer.fd < 1 ∧ answer.errno = eNOENT ∧
      UnixPath.parent (UnixPath.components path) = none

/-- What an attempt leads to. -/
def Leads (path : List Char) (opening : Opening) (answer : Answer) : Attempt → Prop
  | .again later => Again path opening answer later
  | .ended ending => Ends path answer ending

theorem leads_attempt : Leads path opening answer (attempt path opening answer) := by
  rw [attempt]
  split
  · rename_i direct
    exact .direct direct.1 direct.2.1 direct.2.2
  · split
    · rename_i name other
      split at other
      · rename_i directory
        exact .name directory.1 directory.2 other
      · cases other
    · split
      · rename_i fails
        split
        · rename_i missing
          split
          · rename_i orphan
            exact ⟨fails, missing, orphan⟩
          · rename_i parent found
            exact .parent fails missing (by rw [found]; exact Option.some_ne_none _)
        · rename_i present
          split
          · rename_i other
            exact ⟨fails, present, other, rfl⟩
          · rename_i shortage
            exact ⟨fails, not_not.mp shortage, rfl⟩
      · rename_i opens
        split
        · rename_i added
          exact ⟨not_lt.mp opens, added, rfl⟩
        · rename_i full
          exact ⟨not_lt.mp opens, Bool.eq_false_of_not_eq_true full, rfl⟩

theorem again_of_attempt (taken : attempt path opening answer = .again later) :
    Again path opening answer later := by
  have leads : Leads path opening answer (attempt path opening answer) := leads_attempt
  rw [taken] at leads
  exact leads

theorem ends_of_attempt (taken : attempt path opening answer = .ended ending) :
    Ends path answer ending := by
  have leads : Leads path opening answer (attempt path opening answer) := leads_attempt
  rw [taken] at leads
  exact leads

theorem attempt_of_again (again : Again path opening answer later) :
    attempt path opening answer = .again later := by
  cases again with
  | direct enabled fails invalid => rw [attempt, if_pos ⟨enabled, fails, invalid⟩]
  | name fails directory other =>
      have valid : answer.errno ≠ eINVAL := by
        rw [directory]
        decide
      rw [attempt, if_neg fun direct => valid direct.2.2, if_pos ⟨fails, directory⟩, other]
  | parent fails missing parent =>
      have valid : answer.errno ≠ eINVAL := by
        rw [missing]
        decide
      have file : answer.errno ≠ eISDIR := by
        rw [missing]
        decide
      obtain ⟨directory, found⟩ := Option.ne_none_iff_exists'.mp parent
      rw [attempt, if_neg fun direct => valid direct.2.2, if_neg fun name => file name.2]
      simp only [fails, missing, found, if_true]

/-- Once the other name has been taken there is none left. -/
theorem other_of_other {name : List Char} (other : opening.other = some name) :
    ({ opening with fp := name } : Opening).other = none := by
  obtain ⟨alternative, -⟩ := Option.filter_eq_some_iff.mp other
  simp [Opening.other, alternative]

section Budget

variable {budget : Nat} {answers : List Answer}

theorem retried_cons (again : Again path opening answer later) :
    Retried path (budget + 1) opening (answer :: answers) ↔
      Retried path budget later answers := by
  unfold Retried
  cases again with
  | direct enabled fails invalid =>
      have recovered : Recovered path answer := .inr ⟨fails, .inl invalid⟩
      have distinct : eINVAL ≠ eISDIR := by decide
      simp [Opening.other, enabled, invalid, distinct, recovered]
  | name fails directory other =>
      have recovered : Recovered path answer := .inr ⟨fails, .inr directory⟩
      have distinct : eISDIR ≠ eINVAL := by decide
      have exhausted := other_of_other other
      simp [other, exhausted, directory, distinct, recovered]
  | parent fails missing parent =>
      have recovered : Recovered path answer := .inl ⟨fails, missing, parent⟩
      have valid : answer.errno ≠ eINVAL := by
        rw [missing]
        decide
      have file : answer.errno ≠ eISDIR := by
        rw [missing]
        decide
      simp [valid, file, recovered]

/-- After an answer that ends the loop nothing is retried. -/
theorem not_retried_cons (ends : attempt path opening answer = .ended ending) :
    ¬ Retried path (budget + 1) opening (answer :: answers) := by
  have last : ∀ later, ¬ Again path opening answer later := by
    intro later again
    rw [attempt_of_again again] at ends
    cases ends
  rintro ⟨-, recovered, invalid, directory⟩
  rcases recovered answer List.mem_cons_self with ⟨fails, missing, parent⟩ | ⟨fails, kind⟩
  · exact last _ (.parent fails missing parent)
  · rcases kind with kind | kind
    · rw [List.countP_cons_of_pos (by simpa using kind)] at invalid
      cases enabled : opening.nodirect with
      | false => exact last _ (.direct enabled fails kind)
      | true => simp [enabled] at invalid
    · rw [List.countP_cons_of_pos (by simpa using kind)] at directory
      cases other : opening.other with
      | some name => exact last _ (.name fails kind other)
      | none => simp [other] at directory

variable {nodirect : Bool}

/-- Induction on the attempts of a loop that ends: it has none left, or the last answer ends it, or
there is another attempt. -/
@[elab_as_elim]
theorem attempts_induction {motive : Nat → Opening → List Answer → Prop}
    (ends : attempts path budget opening answers = some (ending, nodirect))
    (exhausted : ∀ opening, ending = .exhausted → motive 0 opening [])
    (last : ∀ budget opening answer, attempt path opening answer = .ended ending →
      motive (budget + 1) opening [answer])
    (again : ∀ budget opening later answer answers, attempt path opening answer = .again later →
      motive budget later answers → motive (budget + 1) opening (answer :: answers)) :
    motive budget opening answers := by
  induction budget generalizing opening answers with
  | zero =>
      cases answers with
      | nil => exact exhausted opening (Prod.mk.inj (Option.some.inj ends)).1.symm
      | cons answer answers => cases ends
  | succ budget ih =>
      cases answers with
      | nil => cases ends
      | cons answer answers =>
          rw [attempts] at ends
          split at ends
          · rename_i later taken
            exact again budget opening later answer answers taken (ih ends)
          · rename_i reached taken
            split at ends
            · rename_i single
              obtain ⟨rfl, -⟩ := Prod.mk.inj (Option.some.inj ends)
              exact single ▸ last budget opening answer taken
            · cases ends

/-- The loop runs out of attempts exactly if all of them are retried. -/
theorem exhausted_iff (ends : attempts path budget opening answers = some (ending, nodirect)) :
    ending = .exhausted ↔ Retried path budget opening answers := by
  refine attempts_induction ends ?_ ?_ ?_
  · intro opening exhausted
    exact iff_of_true exhausted (by simp [Retried])
  · intro budget opening answer taken
    refine iff_of_false ?_ (not_retried_cons taken)
    rintro rfl
    exact ends_of_attempt taken
  · intro budget opening later answer answers taken ih
    rw [retried_cons (again_of_attempt taken)]
    exact ih

/-- Otherwise the last answer tells how it ends. -/
theorem ends_of_attempts
    (ends : attempts path budget opening answers = some (ending, nodirect))
    (others : ending ≠ .exhausted) :
    ∃ last, answers.getLast? = some last ∧ Ends path last ending := by
  refine attempts_induction ends ?_ ?_ ?_
  · intro opening exhausted
    exact absurd exhausted others
  · intro budget opening answer taken
    exact ⟨answer, rfl, ends_of_attempt taken⟩
  · rintro budget opening later answer answers _ ⟨last, at_end, ending_of⟩
    refine ⟨last, ?_, ending_of⟩
    rw [List.getLast?_cons, at_end]
    rfl

/-- A descriptor ends the loop. -/
theorem ends_of_mem (ends : attempts path budget opening answers = some (ending, nodirect))
    (mem : answer ∈ answers) (positive : 1 ≤ answer.fd) : Ends path answer ending := by
  revert mem
  refine attempts_induction ends ?_ ?_ ?_
  · exact fun opening _ mem => absurd mem List.not_mem_nil
  · intro budget opening first taken mem
    exact List.mem_singleton.mp mem ▸ ends_of_attempt taken
  · intro budget opening later first answers taken ih mem
    have other : answer ≠ first := by
      rintro rfl
      cases again_of_attempt taken with
      | direct _ fails _ | name fails _ _ | parent fails _ _ => omega
    exact ih (List.mem_of_ne_of_mem other mem)

end Budget

end Attempts

/-! ## What is reported -/

/-- The file is left for want of a descriptor or of a place in the file table. -/
def Transient : Ending → Prop
  | .shortage fd => fd = -1
  | .full _ _ => True
  | _ => False

/-- The file is left for a transient reason, or it has been opened, or its error has been sent. -/
def Settled (errors : List (Nat × Nat)) (round : Round) : Prop :=
  Transient round.ending ∨
    round.left = false ∧
      ((∃ fd, round.ending = .added fd) ∨
        ∃ errno, 0 < errno ∧ round.ending = .failed errno ∧ (round.fino, errno) ∈ errors)

/-- The property of `add_file` and `escp_receiver`. -/
def State.Reports (state : State) : Prop :=
  ∀ round ∈ state.rounds, Settled state.errors round

/-- If the last descriptor is no descriptor, or zero, then `errno` names an error for it, and if it
is that there is no such file, the path has a parent. -/
def Decisive (path : List Char) (last : Answer) : Prop :=
  last.fd < 1 →
    (last.errno = eNOENT → UnixPath.parent (UnixPath.components path) ≠ none) ∧
      (last.fd = 0 → last.errno ≠ 0 ∧ last.errno ≠ eMFILE)

/-- The attempts are not used up, and the last answer is decisive. -/
def Conclusive (state : State) : Label → Prop
  | .add answers => ∀ fi, state.filesAdd.head?.bind state.filesHash = some fi →
      ¬ Retried fi.path.toList 4 (opening fi.path.toList state.nodirect) answers ∧
        ∀ last, answers.getLast? = some last → Decisive fi.path.toList last
  | _ => True

section Reports

variable {state after : State} {answers : List Answer} {path : List Char} {ending : Ending}
  {nodirect direct : Bool}

theorem round_settled_iff (valid : ∀ answer ∈ answers, answer.Valid)
    (ends : round path direct answers = some (ending, nodirect)) :
    (Transient ending ∨ (∃ fd, ending = .added fd) ∨ ∃ errno, 0 < errno ∧ ending = .failed errno) ↔
      ¬ Retried path 4 (opening path direct) answers ∧
        ∀ last, answers.getLast? = some last → Decisive path last := by
  rw [← exhausted_iff ends]
  constructor
  · intro settled
    have others : ending ≠ .exhausted := by
      rintro rfl
      rcases settled with transient | ⟨fd, added⟩ | ⟨errno, -, failed⟩
      · exact transient
      · cases added
      · cases failed
    refine ⟨others, fun last at_end fails => ?_⟩
    obtain ⟨reached, there, ends⟩ := ends_of_attempts ends others
    obtain rfl := Option.some.inj (there.symm.trans at_end)
    rcases settled with transient | ⟨fd, rfl⟩ | ⟨errno, error, rfl⟩
    · cases ending with
      | shortage fd =>
          obtain ⟨-, shortage, rfl⟩ := ends
          refine ⟨fun missing => ?_, fun zero => ?_⟩
          · rw [shortage] at missing
            exact absurd missing (by decide)
          · exact absurd (transient.symm.trans zero) (by decide)
      | full fd aborted => exact absurd fails (not_lt.mpr ends.1)
      | added fd => exact absurd fails (not_lt.mpr ends.1)
      | failed errno => exact transient.elim
      | exhausted => exact absurd rfl others
      | panicked => exact transient.elim
    · exact absurd fails (not_lt.mpr ends.1)
    · obtain ⟨-, present, other, rfl⟩ := ends
      exact ⟨fun missing => absurd missing present, fun _ => ⟨error.ne', other⟩⟩
  · rintro ⟨others, decisive⟩
    obtain ⟨last, at_end, ends⟩ := ends_of_attempts ends others
    have decisive := decisive last at_end
    obtain ⟨low, error⟩ := valid last (List.mem_of_getLast? at_end)
    cases ending with
    | added fd => exact .inr (.inl ⟨fd, rfl⟩)
    | failed errno =>
        obtain ⟨fails, -, -, rfl⟩ := ends
        refine .inr (.inr ⟨_, Nat.pos_of_ne_zero ?_, rfl⟩)
        rcases lt_or_ge last.fd 0 with negative | nonnegative
        · exact error (by omega)
        · exact ((decisive fails).2 (by omega)).1
    | shortage fd =>
        obtain ⟨fails, shortage, rfl⟩ := ends
        have nonzero : last.fd ≠ 0 := fun zero => ((decisive fails).2 zero).2 shortage
        exact .inl (by
          change last.fd = -1
          omega)
    | full fd aborted => exact .inl trivial
    | exhausted => exact absurd rfl others
    | panicked => exact absurd ends.2.2 ((decisive ends.1).1 ends.2.1)

/-- What a step does. -/
inductive Step (state : State) : Label → State → Prop
  | spec {root : String} {entry : FileEntry} (fresh : entry.fino ∉ state.announced) :
      Step state (.spec root entry) (state.announce root entry)
  | completion (entry : FileEntry) : Step state (.completion entry) (state.completion entry)
  | add {answers : List Answer} {fino : Nat} {fi : FileInformation} {ending : Ending}
      {nodirect : Bool} (front : state.filesAdd.head? = some fino)
      (found : state.filesHash fino = some fi) (valid : ∀ answer ∈ answers, answer.Valid)
      (fresh : (state.opened ++ State.descriptors answers).Nodup)
      (ends : round fi.path.toList state.nodirect answers = some (ending, nodirect)) :
      Step state (.add answers) (state.finish fino fi answers ending nodirect)
  | close {fino : Nat} {fi : FileInformation} {entry : Nat × Int}
      (front : state.filesClose.head? = some fino)
      (live : (state.entries.find? fun entry => entry.1 = fino) = some entry)
      (found : state.filesHash fino = some fi) : Step state .close (state.retire fino fi entry)

theorem step_of_next {label : Label} (taken : machine.next state label = some after) :
    Step state label after := by
  change state.next label = some after at taken
  unfold State.next at taken
  split at taken
  · cases taken
  · cases label with
    | spec root entry =>
        simp only [State.spec] at taken
        split at taken
        · cases taken
        · rename_i fresh
          obtain rfl := Option.some.inj taken
          exact .spec fresh
    | completion entry =>
        obtain rfl := Option.some.inj taken
        exact .completion entry
    | add answers =>
        simp only [State.add, Option.bind_eq_some_iff] at taken
        obtain ⟨fino, front, fi, found, taken⟩ := taken
        split at taken
        · rename_i meets
          rw [Option.map_eq_some_iff] at taken
          obtain ⟨⟨ending, nodirect⟩, ends, rfl⟩ := taken
          exact .add front found meets.1 meets.2 ends
        · cases taken
    | close =>
        simp only [State.close, Option.bind_eq_some_iff] at taken
        obtain ⟨fino, front, entry, live, fi, found, taken⟩ := taken
        split at taken
        · cases taken
        · obtain rfl := Option.some.inj taken
          exact .close front live found

/-- Every error that has been returned has been sent. -/
def State.Sent (state : State) : Prop :=
  ∀ round ∈ state.rounds, ∀ errno, 0 < errno → round.ending = .failed errno →
    (round.fino, errno) ∈ state.errors

theorem sent_of_reached (reached : machine.Reached state) : state.Sent := by
  refine reached.invariant State.Sent ?_ ?_
  · rintro _ ⟨nodirect, rfl⟩ round mem
    cases mem
  · intro before label after sent _ taken
    cases step_of_next taken with
    | spec _ | completion _ | close _ _ _ => exact sent
    | @add answers fino fi ending nodirect =>
        intro round mem errno error failed
        refine List.mem_append.mpr ?_
        rcases List.mem_append.mp mem with old | new
        · exact .inl (sent round old errno error failed)
        · obtain rfl := List.mem_singleton.mp new
          obtain rfl : ending = .failed errno := failed
          exact .inr (by simp [State.reported, error])

/-- What has been settled stays so, and nothing else becomes settled. -/
theorem settled_append_iff {errors more : List (Nat × Nat)} {round : Round}
    (sent : ∀ errno, 0 < errno → round.ending = .failed errno → (round.fino, errno) ∈ errors) :
    Settled (errors ++ more) round ↔ Settled errors round := by
  refine or_congr_right (and_congr_right fun _ => or_congr_right ?_)
  refine exists_congr fun errno => and_congr_right fun error => and_congr_right fun failed => ?_
  have there := sent errno error failed
  exact iff_of_true (List.mem_append_left _ there) there

theorem settled_last_iff (fino : Nat) (errors : List (Nat × Nat)) :
    Settled (errors ++ State.reported fino ending) ⟨fino, ending, !State.popped ending⟩ ↔
      Transient ending ∨ (∃ fd, ending = .added fd) ∨
        ∃ errno, 0 < errno ∧ ending = .failed errno := by
  refine or_congr_right ⟨fun settled => ?_, fun settled => ?_⟩
  · rcases settled with ⟨-, added | ⟨errno, error, failed, -⟩⟩
    · exact .inl added
    · exact .inr ⟨errno, error, failed⟩
  · rcases settled with ⟨fd, rfl⟩ | ⟨errno, error, rfl⟩
    · exact ⟨rfl, .inl ⟨fd, rfl⟩⟩
    · refine ⟨by simp [State.popped, error], .inr ⟨errno, error, rfl, ?_⟩⟩
      exact List.mem_append_right _ (by simp [State.reported, error])

/-- A round keeps the property exactly if its answers are conclusive. -/
theorem reports_finish_iff {fino : Nat} {fi : FileInformation} (sent : state.Sent)
    (front : state.filesAdd.head? = some fino) (found : state.filesHash fino = some fi)
    (valid : ∀ answer ∈ answers, answer.Valid)
    (ends : round fi.path.toList state.nodirect answers = some (ending, nodirect)) :
    (state.finish fino fi answers ending nodirect).Reports ↔
      state.Reports ∧ Conclusive state (.add answers) := by
  have there : state.filesAdd.head?.bind state.filesHash = some fi := by rw [front]; exact found
  have conclusive : Conclusive state (.add answers) ↔
      ¬ Retried fi.path.toList 4 (opening fi.path.toList state.nodirect) answers ∧
        ∀ last, answers.getLast? = some last → Decisive fi.path.toList last := by
    constructor
    · intro every
      exact every fi there
    · intro meets other at_front
      obtain rfl := Option.some.inj (there.symm.trans at_front)
      exact meets
  rw [conclusive, ← round_settled_iff valid ends, ← settled_last_iff fino state.errors]
  rw [State.Reports]
  simp only [State.finish, List.forall_mem_append, List.forall_mem_singleton]
  exact and_congr_left fun _ => forall₂_congr fun round mem => settled_append_iff (sent round mem)

/-- Exactly the runs whose answers are all conclusive report every permanent failure. -/
theorem reports_iff_conclusive (reached : machine.Reached state) :
    state.Reports ↔ machine.ReachedUnder Conclusive state := by
  refine reached.holds_iff State.Reports ?_ ?_
  · rintro _ ⟨nodirect, rfl⟩ round mem
    cases mem
  · intro before label after earlier taken
    cases step_of_next taken with
    | spec _ | completion _ | close _ _ _ => exact (and_iff_left trivial).symm
    | add front found valid _ ends =>
        exact reports_finish_iff (sent_of_reached earlier) front found valid ends

/-- The directory cannot be made, and the file is not there each time. -/
def noDirectory : List Label :=
  [.spec "d" { fino := 1, name := "f" }, .add (.replicate 4 ⟨-1, eNOENT, true, 0⟩)]

/-- The file is left without an error after four attempts. -/
theorem not_reports_of_noDirectory :
    ¬ ∀ state, machine.Reached state → state.Reports := by
  intro every
  have rounds : ((machine.run (.init false) noDirectory).map State.rounds) =
      some [⟨1, .exhausted, true⟩] := by decide +kernel
  obtain ⟨state, taken, last⟩ := Option.map_eq_some_iff.mp rounds
  have settled := every state (Machine.reached_of_run ⟨false, rfl⟩ noDirectory taken)
    ⟨1, .exhausted, true⟩ (by rw [last]; exact List.mem_singleton_self _)
  rcases settled with transient | ⟨left, -⟩
  · exact transient
  · cases left

/-- Direct mode is given up, the parent is made, there are too many open files for a while, and then
the file is opened. -/
def recovers : List Label :=
  [.spec "d" { fino := 1, name := "f" },
    .add [⟨-1, eINVAL, true, 0⟩, ⟨-1, eNOENT, true, 0⟩, ⟨-1, eMFILE, true, 0⟩],
    .add [⟨3, 0, true, 0⟩]]

theorem reports_iff_conclusive_of_recovers :
    ∃ state, machine.run (.init false) recovers = some state ∧
      (state.Reports ↔ machine.ReachedUnder Conclusive state) ∧ state.entries = [(1, 3)] := by
  have entries : ((machine.run (.init false) recovers).map State.entries) = some [(1, 3)] := by
    decide +kernel
  obtain ⟨state, taken, last⟩ := Option.map_eq_some_iff.mp entries
  exact ⟨state, taken,
    reports_iff_conclusive (Machine.reached_of_run ⟨false, rfl⟩ recovers taken), last⟩

end Reports

end AddFile
end EScp
