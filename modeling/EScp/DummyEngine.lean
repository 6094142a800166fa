import EScp.IterateFiles
import EScp.Transition

/-!
# The descriptors of the dummy engine

Instead of descriptors the dummy engine hands out the numbers of a table that all threads share.
The threads that set up the engine allocate the table once: one of them wins a compare and swap and
fills a stack with the numbers, and the others wait until the table is there.  To open a file is to
take a number from the stack and to note what `stat` has said; to close it is to put the number
back.  The pushes and pops of the stack are atomic.
-/

namespace EScp
namespace DummyEngine

open IterateFiles (Stat)

/-! ## The code -/

/-- `MAX_FDS`. -/
def maxFds : Nat := 1200

/-- An `item_t`, which is also its entry on the stack. -/
structure Item where
  size : BitVec 64
  sb : Stat
  fd : Nat

/-- The word `items`. -/
inductive Items where
  | zero
  | one
  | array
  deriving DecidableEq

/-- Where a thread is. -/
inductive Place where
  /-- In `file_dummyinit`, about to load `items`. -/
  | start
  | cas
  | alloc
  /-- About to push the number `j`; behind the last one, to publish the table. -/
  | fill (j : Nat)
  | wait
  /-- Not in a call. -/
  | ready
  /-- In `file_dummyopen`, behind `stat`. -/
  | pop (sb : Stat)
  | copySb (entry : Nat) (sb : Stat)
  | copySize (entry : Nat) (sb : Stat)

structure State (Thread : Type*) where
  items : Items
  stack : List Nat
  item : Nat → Item
  places : Thread → Place
  /-- How often the table has been allocated. -/
  allocated : Nat
  /-- The numbers that have been taken from the stack and not been put back. -/
  held : List Nat
  /-- The open descriptors that `file_dummyopen` has returned, with what `stat` said. -/
  files : Nat → Option Stat

inductive Label (Thread : Type*) where
  /-- The next step of `file_dummyinit`. -/
  | init (thread : Thread)
  /-- A thread calls `file_dummyopen`, and `stat` answers or fails. -/
  | stat (thread : Thread) (answer : Option Stat)
  /-- The next step of `file_dummyopen`. -/
  | opens (thread : Thread)
  /-- `file_dummyclose`, or `file_dummyclosefd`. -/
  | close (thread : Thread) (fd : Nat)

section Updates

variable {Thread : Type*} (state : State Thread)

/-- An item is written. -/
def State.setItem (number : Nat) (item : Item) : State Thread :=
  { state with item := Function.update state.item number item }

@[simp] theorem State.setItem_places (number : Nat) (item : Item) :
    (state.setItem number item).places = state.places := rfl

@[simp] theorem State.setItem_files (number : Nat) (item : Item) :
    (state.setItem number item).files = state.files := rfl

@[simp] theorem State.setItem_self (number : Nat) (item : Item) :
    (state.setItem number item).item number = item := Function.update_self ..

theorem State.setItem_of_ne {number other : Nat} (item : Item) (apart : other ≠ number) :
    (state.setItem number item).item other = state.item other := Function.update_of_ne apart ..

/-- A descriptor is opened or closed. -/
def State.setFile (fd : Nat) (answer : Option Stat) : State Thread :=
  { state with files := Function.update state.files fd answer }

@[simp] theorem State.setFile_places (fd : Nat) (answer : Option Stat) :
    (state.setFile fd answer).places = state.places := rfl

@[simp] theorem State.setFile_item (fd : Nat) (answer : Option Stat) :
    (state.setFile fd answer).item = state.item := rfl

@[simp] theorem State.setFile_self (fd : Nat) (answer : Option Stat) :
    (state.setFile fd answer).files fd = answer := Function.update_self ..

theorem State.setFile_of_ne {fd other : Nat} (answer : Option Stat) (apart : other ≠ fd) :
    (state.setFile fd answer).files other = state.files other := Function.update_of_ne apart ..

/-- `file_dummyclose` and `file_dummyclosefd`. -/
def State.fileDummyclosefd (fd : Nat) : State Thread :=
  { state with stack := fd :: state.stack, held := state.held.erase fd }.setFile fd none

/-- `file_dummystat`. -/
def State.fileDummystat (fd : Nat) : Stat := (state.item fd).sb

variable [DecidableEq Thread] (thread : Thread) (place : Place)

/-- A thread goes on. -/
def State.go : State Thread :=
  { state with places := Function.update state.places thread place }

@[simp] theorem State.go_items : (state.go thread place).items = state.items := rfl

@[simp] theorem State.go_stack : (state.go thread place).stack = state.stack := rfl

@[simp] theorem State.go_item : (state.go thread place).item = state.item := rfl

@[simp] theorem State.go_allocated : (state.go thread place).allocated = state.allocated := rfl

@[simp] theorem State.go_held : (state.go thread place).held = state.held := rfl

@[simp] theorem State.go_files : (state.go thread place).files = state.files := rfl

@[simp] theorem State.go_self : (state.go thread place).places thread = place :=
  Function.update_self ..

theorem State.go_of_ne {thread other : Thread} (apart : other ≠ thread) :
    (state.go thread place).places other = state.places other := Function.update_of_ne apart ..

end Updates

section Code

variable {Thread : Type*} [DecidableEq Thread]

/-- `file_dummyinit`; there is no step as long as `items` has to be waited for. -/
def State.fileDummyinit (state : State Thread) (thread : Thread) : Option (State Thread) :=
  match state.places thread with
  | .start => some (state.go thread (if state.items = .zero then .cas else .wait))
  | .cas =>
      if state.items = .zero then some ({ state with items := .one }.go thread .alloc)
      else some (state.go thread .wait)
  | .alloc =>
      some ({ state with allocated := state.allocated + 1, stack := [] }.go thread
        (.fill (maxFds - 1)))
  | .fill 0 => some ({ state with items := .array }.go thread .wait)
  | .fill (j + 1) =>
      some (({ state with stack := (j + 1) :: state.stack }.setItem (j + 1)
        { state.item (j + 1) with fd := j + 1 }).go thread (.fill j))
  | .wait => if state.items = .array then some (state.go thread .ready) else none
  | _ => none

/-- `file_dummyopen` behind `stat`, without `O_WRONLY`.  It returns -1 when there is no number. -/
def State.fileDummyopen (state : State Thread) (thread : Thread) : Option (State Thread) :=
  match state.places thread with
  | .pop sb =>
      match state.stack with
      | [] => some (state.go thread .ready)
      | entry :: stack =>
          some ({ state with stack := stack, held := entry :: state.held }.go thread
            (.copySb entry sb))
  | .copySb entry sb =>
      some ((state.setItem entry { state.item entry with sb := sb }).go thread
        (.copySize entry sb))
  | .copySize entry sb =>
      some (((state.setItem entry { state.item entry with size := BitVec.ofInt 64 sb.size }).setFile
        (state.item entry).fd (some sb)).go thread .ready)
  | _ => none

/-- One step. -/
def next (state : State Thread) : Label Thread → Option (State Thread)
  | .init thread => state.fileDummyinit thread
  | .stat thread answer =>
      match state.places thread, answer with
      | .ready, some sb => some (state.go thread (.pop sb))
      | .ready, none => some state
      | _, _ => none
  | .opens thread => state.fileDummyopen thread
  | .close thread fd =>
      match state.places thread with
      | .ready => some (state.fileDummyclosefd fd)
      | _ => none

/-- Before the first call, with any memory. -/
def State.init (item : Nat → Item) : State Thread where
  items := .zero
  stack := []
  item := item
  places _ := .start
  allocated := 0
  held := []
  files _ := none

def machine (Thread : Type*) [DecidableEq Thread] : Machine (State Thread) (Label Thread) where
  initial state := ∃ item, state = .init item
  next := next

/-- What `file_dummysubmit` reports for a read of so large a block at an offset. -/
def readSize (size offset : BitVec 64) (blkSz : BitVec 32) : Int :=
  let szRet := (size - offset).toInt
  let szRet := if (blkSz.toNat : Int) < szRet then (blkSz.toNat : Int) else szRet
  (BitVec.ofInt 32 (if size ≤ offset then 0 else szRet)).toInt

/-- A descriptor is closed when it is open. -/
def ClosesOpen (state : State Thread) : Label Thread → Prop
  | .close _ fd => state.files fd ≠ none
  | _ => True

end Code

/-! ## The life of the table -/

/-- A thread is through `file_dummyinit`. -/
def Place.Through : Place → Prop
  | .ready | .pop _ | .copySb _ _ | .copySize _ _ => True
  | _ => False

/-- A thread has won the compare and swap and has not published the table. -/
def Place.Builds : Place → Prop
  | .alloc | .fill _ => True
  | _ => False

/-- The number that a thread has taken and not returned. -/
def Place.entry : Place → Option Nat
  | .copySb entry _ | .copySize entry _ => some entry
  | _ => none

/-- The numbers from 1 on. -/
def numbers : List Nat := List.range' 1 (maxFds - 1)

section Life

variable {Thread : Type*} {state : State Thread}

/-- Nobody has come to `file_dummyopen`. -/
structure Quiet (state : State Thread) : Prop where
  held : state.held = []
  files : ∀ fd, state.files fd = none
  places : ∀ thread, ¬(state.places thread).Through

/-- Each number is on the stack or held, and what is held is open or about to be. -/
structure Pool (state : State Thread) : Prop where
  perm : (state.stack ++ state.held).Perm numbers
  fd : ∀ number ∈ numbers, (state.item number).fd = number
  taken : ∀ thread entry, (state.places thread).entry = some entry →
    entry ∈ state.held ∧ state.files entry = none
  distinct : ∀ thread other entry, (state.places thread).entry = some entry →
    (state.places other).entry = some entry → thread = other
  opened : ∀ fd sb, state.files fd = some sb → fd ∈ state.held ∧
    (state.item fd).sb = sb ∧ (state.item fd).size = BitVec.ofInt 64 sb.size
  holder : ∀ number ∈ state.held, state.files number ≠ none ∨
    ∃ thread, (state.places thread).entry = some number
  copied : ∀ thread entry sb, state.places thread = .copySize entry sb →
    (state.item entry).sb = sb

/-- The table is allocated once, by one thread, before anybody uses it. -/
inductive Life (state : State Thread) : Prop where
  | before (items : state.items = .zero) (allocated : state.allocated = 0) (quiet : Quiet state)
      (early : ∀ thread, state.places thread = .start ∨ state.places thread = .cas)
  | alloc (thread : Thread) (items : state.items = .one) (allocated : state.allocated = 0)
      (quiet : Quiet state) (place : state.places thread = .alloc)
      (alone : ∀ other, (state.places other).Builds → other = thread)
  | fill (thread : Thread) (j : Nat) (items : state.items = .one) (allocated : state.allocated = 1)
      (quiet : Quiet state) (place : state.places thread = .fill j)
      (alone : ∀ other, (state.places other).Builds → other = thread)
      (below : j < maxFds) (stack : state.stack = List.range' (j + 1) (maxFds - 1 - j))
      (fd : ∀ number ∈ state.stack, (state.item number).fd = number)
  | built (items : state.items = .array) (allocated : state.allocated = 1) (pool : Pool state)
      (idle : ∀ thread, ¬(state.places thread).Builds)

/-- When the table has been published, all numbers are there. -/
theorem Life.pool_of_array (life : Life state) (items : state.items = .array) :
    Pool state ∧ state.allocated = 1 ∧ ∀ thread, ¬(state.places thread).Builds := by
  cases life with
  | built _ allocated pool idle => exact ⟨pool, allocated, idle⟩
  | before found | alloc _ found | fill _ _ found =>
      rw [items] at found
      cases found

theorem Pool.nodup (pool : Pool state) : (state.stack ++ state.held).Nodup :=
  pool.perm.nodup_iff.mpr List.nodup_range'

theorem Pool.mem_numbers (pool : Pool state) {number : Nat} (mem : number ∈ state.held) :
    number ∈ numbers :=
  pool.perm.mem_iff.mp (List.mem_append_right _ mem)

/-- A number that is held is not on the stack. -/
theorem Pool.apart (pool : Pool state) {number : Nat} (mem : number ∈ state.held) :
    number ∉ state.stack :=
  fun listed => (List.nodup_append.mp pool.nodup).2.2 number listed number mem rfl

/-- Another thread has taken another number. -/
theorem Pool.ne_entry (pool : Pool state) {thread other : Thread} {entry number : Nat}
    (at_entry : (state.places thread).entry = some entry) (apart : other ≠ thread)
    (at_number : (state.places other).entry = some number) : number ≠ entry := by
  rintro rfl
  exact apart (pool.distinct other thread number at_number at_entry)

/-- An item keeps its number when something is copied into it. -/
theorem Pool.fd_setItem (pool : Pool state) {entry : Nat} {item : Item}
    (same_fd : item.fd = (state.item entry).fd) :
    ∀ number ∈ numbers, ((state.setItem entry item).item number).fd = number := by
  intro number mem
  by_cases same : number = entry
  · rw [same] at mem ⊢
    rw [State.setItem_self, same_fd]
    exact pool.fd entry mem
  · rw [State.setItem_of_ne _ _ same]
    exact pool.fd number mem

end Life

section Steps

variable {Thread : Type*} [DecidableEq Thread] {state after : State Thread} {thread : Thread}

/-- What the threads have taken and not returned does not change. -/
theorem State.entry_go {place : Place} (same : (state.places thread).entry = place.entry)
    (other : Thread) :
    ((state.go thread place).places other).entry = (state.places other).entry := by
  by_cases self : other = thread
  · rw [self, State.go_self, same]
  · rw [State.go_of_ne _ _ self]

/-- A step outside `file_dummyopen`. -/
theorem Pool.go (pool : Pool state) {place : Place} (was : (state.places thread).entry = none)
    (is : place.entry = none) : Pool (state.go thread place) := by
  have entry_eq := State.entry_go (was.trans is.symm)
  refine ⟨pool.perm, pool.fd, fun other entry at_entry => ?_, ?_, pool.opened, ?_, ?_⟩
  · exact pool.taken other entry (entry_eq other ▸ at_entry)
  · intro first second entry at_first at_second
    exact pool.distinct first second entry (entry_eq first ▸ at_first) (entry_eq second ▸ at_second)
  · intro number mem
    refine (pool.holder number mem).imp_right ?_
    rintro ⟨other, at_entry⟩
    exact ⟨other, (entry_eq other).trans at_entry⟩
  · intro other entry sb at_copy
    have apart : other ≠ thread := by
      rintro rfl
      rw [State.go_self] at at_copy
      rw [at_copy] at is
      cases is
    rw [State.go_of_ne _ _ apart] at at_copy
    exact pool.copied other entry sb at_copy

/-- A number is taken from the stack. -/
theorem Pool.pop (pool : Pool state) {entry : Nat} {stack : List Nat} {sb : Stat}
    (was : (state.places thread).entry = none) (top : state.stack = entry :: stack) :
    Pool ({ state with stack := stack, held := entry :: state.held }.go thread
      (.copySb entry sb)) := by
  have unheld : entry ∉ state.held := by
    intro mem
    exact pool.apart mem (top ▸ List.mem_cons_self)
  have closed : state.files entry = none := by
    by_contra opened
    obtain ⟨known, at_files⟩ := Option.ne_none_iff_exists'.mp opened
    exact unheld (pool.opened entry known at_files).1
  have other_entry {other : Thread} (apart : other ≠ thread) {number : Nat}
      (at_entry : (state.places other).entry = some number) : number ≠ entry := by
    rintro rfl
    exact unheld (pool.taken other number at_entry).1
  constructor
  case perm =>
    have moved : (entry :: (stack ++ state.held)).Perm (state.stack ++ state.held) := by
      rw [top]
      rfl
    exact List.perm_middle.trans (moved.trans pool.perm)
  case fd => exact pool.fd
  case taken =>
    intro other number at_entry
    by_cases self : other = thread
    · rw [self, State.go_self] at at_entry
      obtain rfl := Option.some.inj at_entry
      exact ⟨List.mem_cons_self, closed⟩
    · rw [State.go_of_ne _ _ self] at at_entry
      obtain ⟨mem, unopened⟩ := pool.taken other number at_entry
      exact ⟨List.mem_cons_of_mem _ mem, unopened⟩
  case distinct =>
    intro first second number at_first at_second
    by_cases self_first : first = thread <;> by_cases self_second : second = thread
    · exact self_first.trans self_second.symm
    · rw [self_first, State.go_self] at at_first
      rw [State.go_of_ne _ _ self_second] at at_second
      exact absurd (Option.some.inj at_first).symm (other_entry self_second at_second)
    · rw [self_second, State.go_self] at at_second
      rw [State.go_of_ne _ _ self_first] at at_first
      exact absurd (Option.some.inj at_second).symm (other_entry self_first at_first)
    · rw [State.go_of_ne _ _ self_first] at at_first
      rw [State.go_of_ne _ _ self_second] at at_second
      exact pool.distinct first second number at_first at_second
  case opened =>
    intro fd known at_files
    obtain ⟨mem, same⟩ := pool.opened fd known at_files
    exact ⟨List.mem_cons_of_mem _ mem, same⟩
  case holder =>
    intro number mem
    rcases List.mem_cons.mp mem with rfl | mem
    · exact .inr ⟨thread, by rw [State.go_self]; rfl⟩
    · refine (pool.holder number mem).imp_right ?_
      rintro ⟨other, at_entry⟩
      have apart : other ≠ thread := by
        rintro rfl
        rw [was] at at_entry
        cases at_entry
      exact ⟨other, by rw [State.go_of_ne _ _ apart]; exact at_entry⟩
  case copied =>
    intro other number known at_copy
    by_cases self : other = thread
    · rw [self, State.go_self] at at_copy
      cases at_copy
    · rw [State.go_of_ne _ _ self] at at_copy
      exact pool.copied other number known at_copy

/-- `sb` is copied. -/
theorem Pool.copySb (pool : Pool state) {entry : Nat} {sb : Stat}
    (was : state.places thread = .copySb entry sb) :
    Pool ((state.setItem entry { state.item entry with sb := sb }).go thread
      (.copySize entry sb)) := by
  have at_entry : (state.places thread).entry = some entry := by
    rw [was]
    rfl
  obtain ⟨-, closed⟩ := pool.taken thread entry at_entry
  have entry_eq := @State.entry_go Thread _ state thread (.copySize entry sb) (by rw [was]; rfl)
  constructor
  case perm => exact pool.perm
  case fd => exact pool.fd_setItem rfl
  case taken =>
    exact fun other number at_number => pool.taken other number (entry_eq other ▸ at_number)
  case distinct =>
    intro first second number at_first at_second
    exact pool.distinct first second number (entry_eq first ▸ at_first)
      (entry_eq second ▸ at_second)
  case opened =>
    intro fd known at_files
    have apart : fd ≠ entry := by
      rintro rfl
      rw [State.go_files, State.setItem_files, closed] at at_files
      cases at_files
    rw [State.go_item, State.setItem_of_ne _ _ apart]
    exact pool.opened fd known at_files
  case holder =>
    intro number mem
    refine (pool.holder number mem).imp_right ?_
    rintro ⟨other, at_number⟩
    exact ⟨other, (entry_eq other).trans at_number⟩
  case copied =>
    intro other number known at_copy
    by_cases self : other = thread
    · rw [self, State.go_self] at at_copy
      obtain ⟨rfl, rfl⟩ := Place.copySize.inj at_copy
      rw [State.go_item, State.setItem_self]
    · rw [State.go_of_ne _ _ self, State.setItem_places] at at_copy
      have at_number : (state.places other).entry = some number := by
        rw [at_copy]
        rfl
      rw [State.go_item, State.setItem_of_ne _ _ (pool.ne_entry at_entry self at_number)]
      exact pool.copied other number known at_copy

/-- The size is copied, and the number is returned. -/
theorem Pool.copySize (pool : Pool state) {entry : Nat} {sb : Stat}
    (was : state.places thread = .copySize entry sb) :
    Pool (((state.setItem entry { state.item entry with size := BitVec.ofInt 64 sb.size }).setFile
      (state.item entry).fd (some sb)).go thread .ready) := by
  have at_entry : (state.places thread).entry = some entry := by
    rw [was]
    rfl
  obtain ⟨mem_entry, closed⟩ := pool.taken thread entry at_entry
  have fd_eq := pool.fd entry (pool.mem_numbers mem_entry)
  rw [fd_eq]
  constructor
  case perm => exact pool.perm
  case fd => exact pool.fd_setItem rfl
  case taken =>
    intro other number at_number
    by_cases self : other = thread
    · rw [self, State.go_self] at at_number
      cases at_number
    · rw [State.go_of_ne _ _ self, State.setFile_places, State.setItem_places] at at_number
      rw [State.go_files, State.setFile_of_ne _ _ (pool.ne_entry at_entry self at_number),
        State.setItem_files]
      exact pool.taken other number at_number
  case distinct =>
    intro first second number at_first at_second
    by_cases self_first : first = thread
    · rw [self_first, State.go_self] at at_first
      cases at_first
    · by_cases self_second : second = thread
      · rw [self_second, State.go_self] at at_second
        cases at_second
      · rw [State.go_of_ne _ _ self_first, State.setFile_places, State.setItem_places] at at_first
        rw [State.go_of_ne _ _ self_second, State.setFile_places, State.setItem_places] at at_second
        exact pool.distinct first second number at_first at_second
  case opened =>
    intro fd known at_files
    by_cases same : fd = entry
    · rw [same, State.go_files, State.setFile_self] at at_files
      obtain rfl := Option.some.inj at_files
      rw [same, State.go_item, State.setFile_item, State.setItem_self]
      exact ⟨mem_entry, pool.copied thread entry sb was, rfl⟩
    · rw [State.go_files, State.setFile_of_ne _ _ same, State.setItem_files] at at_files
      rw [State.go_item, State.setFile_item, State.setItem_of_ne _ _ same]
      exact pool.opened fd known at_files
  case holder =>
    intro number mem
    by_cases same : number = entry
    · rw [same, State.go_files, State.setFile_self]
      exact .inl (by simp)
    · rw [State.go_files, State.setFile_of_ne _ _ same, State.setItem_files]
      refine (pool.holder number mem).imp_right ?_
      rintro ⟨other, at_number⟩
      have apart : other ≠ thread := by
        rintro rfl
        exact same (Option.some.inj (at_number.symm.trans at_entry))
      exact ⟨other, by rw [State.go_of_ne _ _ apart]; exact at_number⟩
  case copied =>
    intro other number known at_copy
    by_cases self : other = thread
    · rw [self, State.go_self] at at_copy
      cases at_copy
    · rw [State.go_of_ne _ _ self, State.setFile_places, State.setItem_places] at at_copy
      have at_number : (state.places other).entry = some number := by
        rw [at_copy]
        rfl
      rw [State.go_item, State.setFile_item,
        State.setItem_of_ne _ _ (pool.ne_entry at_entry self at_number)]
      exact pool.copied other number known at_copy

omit [DecidableEq Thread] in
/-- An open descriptor is closed. -/
theorem Pool.close (pool : Pool state) {fd : Nat} (opened : state.files fd ≠ none) :
    Pool (state.fileDummyclosefd fd) := by
  obtain ⟨sb, at_fd⟩ := Option.ne_none_iff_exists'.mp opened
  obtain ⟨mem_fd, -⟩ := pool.opened fd sb at_fd
  have held_nodup := (List.nodup_append.mp pool.nodup).2.1
  constructor
  case perm =>
    have back : (fd :: (state.stack ++ state.held.erase fd)).Perm (state.stack ++ state.held) :=
      List.perm_middle.symm.trans ((List.perm_cons_erase mem_fd).symm.append_left state.stack)
    exact back.trans pool.perm
  case fd => exact pool.fd
  case taken =>
    intro thread entry at_entry
    obtain ⟨mem, closed⟩ := pool.taken thread entry at_entry
    have apart : entry ≠ fd := by
      rintro rfl
      exact opened closed
    exact ⟨(List.mem_erase_of_ne apart).mpr mem, (State.setFile_of_ne _ _ apart).trans closed⟩
  case distinct => exact pool.distinct
  case opened =>
    intro other known at_files
    have apart : other ≠ fd := by
      rintro rfl
      rw [State.fileDummyclosefd, State.setFile_self] at at_files
      cases at_files
    obtain ⟨mem, same⟩ := pool.opened other known
      ((State.setFile_of_ne _ _ apart).symm.trans at_files)
    exact ⟨(List.mem_erase_of_ne apart).mpr mem, same⟩
  case holder =>
    intro number mem
    have apart : number ≠ fd := (held_nodup.mem_erase_iff.mp mem).1
    refine (pool.holder number (List.mem_of_mem_erase mem)).imp_left fun still => ?_
    exact (State.setFile_of_ne _ _ apart).trans_ne still
  case copied => exact pool.copied

/-- As long as nobody has come to `file_dummyopen`, all are in `file_dummyinit`. -/
theorem Quiet.label (quiet : Quiet state) {label : Label Thread}
    (taken : next state label = some after) : ∃ thread, label = .init thread := by
  cases label with
  | init thread => exact ⟨thread, rfl⟩
  | stat thread answer =>
      have outside := quiet.places thread
      simp only [next] at taken
      split at taken
      case h_3 => cases taken
      all_goals
        rename_i at_place
        exact absurd (by rw [at_place]; trivial) outside
  | opens thread =>
      have outside := quiet.places thread
      simp only [next, State.fileDummyopen] at taken
      split at taken
      case h_4 => cases taken
      all_goals
        rename_i at_place
        exact absurd (by rw [at_place]; trivial) outside
  | close thread fd =>
      have outside := quiet.places thread
      simp only [next] at taken
      split at taken
      case h_2 => cases taken
      rename_i at_place
      exact absurd (by rw [at_place]; trivial) outside

theorem Quiet.go (quiet : Quiet state) {place : Place} (outside : ¬place.Through) :
    Quiet (state.go thread place) := by
  refine ⟨quiet.held, quiet.files, fun other => ?_⟩
  by_cases self : other = thread
  · rwa [self, State.go_self]
  · rw [State.go_of_ne _ _ self]
    exact quiet.places other

omit [DecidableEq Thread] in
theorem Quiet.entry (quiet : Quiet state) (thread : Thread) :
    (state.places thread).entry = none := by
  have outside := quiet.places thread
  cases at_place : state.places thread with
  | copySb entry sb => exact absurd (by rw [at_place]; trivial) outside
  | copySize entry sb => exact absurd (by rw [at_place]; trivial) outside
  | _ => rfl

omit [DecidableEq Thread] in
/-- The stack has been filled. -/
theorem Pool.of_quiet (quiet : Quiet state) (stack : state.stack = numbers)
    (fd : ∀ number ∈ numbers, (state.item number).fd = number) : Pool state where
  perm := by rw [stack, quiet.held, List.append_nil]
  fd := fd
  taken thread entry at_entry := by
    rw [quiet.entry thread] at at_entry
    cases at_entry
  distinct first second entry at_first := by
    rw [quiet.entry first] at at_first
    cases at_first
  opened number sb at_files := by
    rw [quiet.files] at at_files
    cases at_files
  holder number mem := by
    rw [quiet.held] at mem
    cases mem
  copied thread entry sb at_copy := by
    have at_entry := quiet.entry thread
    rw [at_copy] at at_entry
    cases at_entry

/-- Who does not begin to build the table has built it before. -/
theorem State.builds_go {place : Place} (idle : ¬place.Builds) {other : Thread}
    (builds : ((state.go thread place).places other).Builds) :
    other ≠ thread ∧ (state.places other).Builds := by
  have apart : other ≠ thread := by
    rintro rfl
    rw [State.go_self] at builds
    exact idle builds
  rw [State.go_of_ne _ _ apart] at builds
  exact ⟨apart, builds⟩

/-- While one thread builds the table, the others come to wait for it. -/
theorem go_wait_of_one (items : state.items = .one) (idle : ¬(state.places thread).Builds)
    (taken : state.fileDummyinit thread = some after) :
    after = state.go thread .wait := by
  rw [State.fileDummyinit] at taken
  simp only [items, reduceCtorEq, if_false] at taken
  split at taken
  · exact (Option.some.inj taken).symm
  · exact (Option.some.inj taken).symm
  · rename_i at_place
    exact absurd (by rw [at_place]; trivial) idle
  · rename_i at_place
    exact absurd (by rw [at_place]; trivial) idle
  · rename_i at_place
    exact absurd (by rw [at_place]; trivial) idle
  · cases taken
  · cases taken

/-- The first step of all is to load `items`, and the next to win the compare and swap. -/
theorem Life.next_before (items : state.items = .zero) (allocated : state.allocated = 0)
    (quiet : Quiet state)
    (early : ∀ thread, state.places thread = .start ∨ state.places thread = .cas)
    (taken : state.fileDummyinit thread = some after) : Life after := by
  rcases early thread with at_start | at_cas
  · simp only [State.fileDummyinit, at_start, items, if_true, Option.some.injEq] at taken
    subst taken
    refine .before items allocated (quiet.go id) fun other => ?_
    by_cases self : other = thread
    · exact .inr (self ▸ State.go_self ..)
    · rw [State.go_of_ne _ _ self]
      exact early other
  · simp only [State.fileDummyinit, at_cas, items, if_true, Option.some.injEq] at taken
    subst taken
    have quiet_one : Quiet { state with items := .one } := ⟨quiet.held, quiet.files, quiet.places⟩
    refine .alloc thread rfl allocated (quiet_one.go id) (State.go_self ..) fun other builds => ?_
    by_contra apart
    rw [State.go_of_ne _ _ apart] at builds
    rcases early other with at_other | at_other
    · exact (at_other ▸ builds : Place.start.Builds)
    · exact (at_other ▸ builds : Place.cas.Builds)

/-- The table is allocated. -/
theorem Life.next_alloc {builder : Thread} (items : state.items = .one)
    (allocated : state.allocated = 0) (quiet : Quiet state) (place : state.places builder = .alloc)
    (alone : ∀ other, (state.places other).Builds → other = builder)
    (taken : state.fileDummyinit thread = some after) : Life after := by
  by_cases self : thread = builder
  · subst self
    simp only [State.fileDummyinit, place, Option.some.injEq] at taken
    subst taken
    have quiet_table : Quiet { state with allocated := state.allocated + 1, stack := [] } :=
      ⟨quiet.held, quiet.files, quiet.places⟩
    refine .fill thread (maxFds - 1) items (congrArg (· + 1) allocated) (quiet_table.go id)
      (State.go_self ..) (fun other builds => ?_) (Nat.lt_succ_self _) rfl ?_
    · by_contra apart
      rw [State.go_of_ne _ _ apart] at builds
      exact apart (alone other builds)
    · simp
  · obtain rfl := go_wait_of_one items (fun builds => self (alone thread builds)) taken
    refine .alloc builder items allocated (quiet.go id) ?_ fun other builds =>
      alone other (State.builds_go id builds).2
    rw [State.go_of_ne _ _ (Ne.symm self)]
    exact place

/-- The stack is filled, and the table published. -/
theorem Life.next_fill {builder : Thread} {j : Nat} (items : state.items = .one)
    (allocated : state.allocated = 1) (quiet : Quiet state) (place : state.places builder = .fill j)
    (alone : ∀ other, (state.places other).Builds → other = builder) (below : j < maxFds)
    (stack : state.stack = List.range' (j + 1) (maxFds - 1 - j))
    (fd : ∀ number ∈ state.stack, (state.item number).fd = number)
    (taken : state.fileDummyinit thread = some after) : Life after := by
  by_cases self : thread = builder
  · subst self
    cases j with
    | zero =>
        simp only [State.fileDummyinit, place, Option.some.injEq] at taken
        subst taken
        have full : Pool state := by
          refine .of_quiet quiet ?_ fun number mem => fd number (stack ▸ mem)
          rw [stack]
          rfl
        have published : Pool { state with items := .array } :=
          ⟨full.perm, full.fd, full.taken, full.distinct, full.opened, full.holder, full.copied⟩
        refine .built rfl allocated (published.go (quiet.entry thread) rfl) fun other builds => ?_
        obtain ⟨apart, builds⟩ := State.builds_go id builds
        exact apart (alone other builds)
    | succ j =>
        simp only [State.fileDummyinit, place, Option.some.injEq] at taken
        subst taken
        have quiet_push : Quiet ({ state with stack := (j + 1) :: state.stack }.setItem (j + 1)
            { state.item (j + 1) with fd := j + 1 }) :=
          ⟨quiet.held, quiet.files, quiet.places⟩
        refine .fill thread j items allocated (quiet_push.go id) (State.go_self ..)
          (fun other builds => ?_) (by omega) ?_ fun number mem => ?_
        · by_contra apart
          rw [State.go_of_ne _ _ apart] at builds
          exact apart (alone other builds)
        · change (j + 1) :: state.stack = _
          have more : maxFds - 1 - j = maxFds - 1 - (j + 1) + 1 := by omega
          rw [stack, more, List.range'_succ]
        · rw [State.go_item]
          by_cases same : number = j + 1
          · rw [same, State.setItem_self]
          · rw [State.setItem_of_ne _ _ same]
            exact fd number ((List.mem_cons.mp mem).resolve_left same)
  · obtain rfl := go_wait_of_one items (fun builds => self (alone thread builds)) taken
    refine .fill builder j items allocated (quiet.go id) ?_ (fun other builds =>
      alone other (State.builds_go id builds).2) below stack fd
    rw [State.go_of_ne _ _ (Ne.symm self)]
    exact place

/-- From then on everybody uses the table. -/
theorem Life.next_built (items : state.items = .array) (allocated : state.allocated = 1)
    (pool : Pool state) (idle : ∀ thread, ¬(state.places thread).Builds) {label : Label Thread}
    (guarded : ClosesOpen state label) (taken : next state label = some after) : Life after := by
  have still {thread : Thread} {place : Place} (calm : ¬place.Builds) (other : Thread) :
      ¬((state.go thread place).places other).Builds :=
    fun builds => idle other (State.builds_go calm builds).2
  cases label with
  | init thread =>
      simp only [next, State.fileDummyinit, items, reduceCtorEq, if_false, if_true] at taken
      have calm := idle thread
      cases at_place : state.places thread with
      | start | cas | wait =>
          simp only [at_place, Option.some.injEq] at taken
          subst taken
          exact .built items allocated (pool.go (by rw [at_place]; rfl) rfl) (still id)
      | alloc => exact absurd (by rw [at_place]; trivial) calm
      | fill j => exact absurd (by rw [at_place]; trivial) calm
      | _ => simp [at_place] at taken
  | stat thread answer =>
      simp only [next] at taken
      split at taken
      · rename_i sb at_place
        obtain rfl := Option.some.inj taken
        exact .built items allocated (pool.go (by rw [at_place]; rfl) rfl) (still id)
      · obtain rfl := Option.some.inj taken
        exact .built items allocated pool idle
      · cases taken
  | opens thread =>
      simp only [next, State.fileDummyopen] at taken
      split at taken
      · rename_i sb at_place
        have was : (state.places thread).entry = none := by
          rw [at_place]
          rfl
        split at taken
        · obtain rfl := Option.some.inj taken
          exact .built items allocated (pool.go was rfl) (still id)
        · rename_i entry stack top
          obtain rfl := Option.some.inj taken
          exact .built items allocated (pool.pop was top) (still id)
      · rename_i entry sb at_place
        obtain rfl := Option.some.inj taken
        exact .built items allocated (pool.copySb at_place) (still id)
      · rename_i entry sb at_place
        obtain rfl := Option.some.inj taken
        exact .built items allocated (pool.copySize at_place) (still id)
      · cases taken
  | close thread fd =>
      simp only [next] at taken
      split at taken
      · obtain rfl := Option.some.inj taken
        exact .built items allocated (pool.close guarded) idle
      · cases taken

theorem Life.next (life : Life state) {label : Label Thread} (guarded : ClosesOpen state label)
    (taken : DummyEngine.next state label = some after) : Life after := by
  cases life with
  | before items allocated quiet early =>
      obtain ⟨thread, rfl⟩ := quiet.label taken
      exact next_before items allocated quiet early taken
  | alloc builder items allocated quiet place alone =>
      obtain ⟨thread, rfl⟩ := quiet.label taken
      exact next_alloc items allocated quiet place alone taken
  | fill builder j items allocated quiet place alone below stack fd =>
      obtain ⟨thread, rfl⟩ := quiet.label taken
      exact next_fill items allocated quiet place alone below stack fd taken
  | built items allocated pool idle => exact next_built items allocated pool idle guarded taken

theorem life_reached (reached : (machine Thread).ReachedUnder ClosesOpen state) : Life state := by
  refine reached.invariant Life ?_ fun _ _ _ life guarded taken => life.next guarded taken
  rintro _ ⟨item, rfl⟩
  exact .before rfl rfl ⟨rfl, fun _ => rfl, fun _ => id⟩ fun _ => .inl rfl

/-! ## Everybody gets through -/

/-- A step of `file_dummyinit`. -/
def Begins (label : Label Thread) : Prop := ∃ thread, label = .init thread

/-- The table is published on some path of such steps. -/
def State.Publishes (state : State Thread) : Prop :=
  ∃ after, (machine Thread).PathBy Begins state after ∧ Life after ∧ after.items = .array

theorem Life.publishes_step (life : Life state) (taken : state.fileDummyinit thread = some after)
    (then_publishes : Life after → after.Publishes) : state.Publishes := by
  obtain ⟨last, path, rest⟩ := then_publishes (@Life.next _ _ _ _ life (.init thread) trivial taken)
  exact ⟨last, .head ⟨.init thread, ⟨thread, rfl⟩, taken⟩ path, rest⟩

theorem Life.publishes_fill {j : Nat} (life : Life state) (place : state.places thread = .fill j) :
    state.Publishes := by
  induction j generalizing state with
  | zero =>
      have taken : state.fileDummyinit thread =
          some ({ state with items := .array }.go thread .wait) := by
        rw [State.fileDummyinit, place]
      exact life.publishes_step taken fun after => ⟨_, .refl, after, rfl⟩
  | succ j ih =>
      have taken : state.fileDummyinit thread =
          some (({ state with stack := (j + 1) :: state.stack }.setItem (j + 1)
            { state.item (j + 1) with fd := j + 1 }).go thread (.fill j)) := by
        rw [State.fileDummyinit, place]
      exact life.publishes_step taken fun after => ih after (State.go_self ..)

theorem Life.publishes_alloc (life : Life state) (place : state.places thread = .alloc) :
    state.Publishes := by
  have taken : state.fileDummyinit thread =
      some ({ state with allocated := state.allocated + 1, stack := [] }.go thread
        (.fill (maxFds - 1))) := by
    rw [State.fileDummyinit, place]
  exact life.publishes_step taken fun after => after.publishes_fill (State.go_self ..)

theorem Life.publishes_cas (life : Life state) (items : state.items = .zero)
    (place : state.places thread = .cas) : state.Publishes := by
  have taken : state.fileDummyinit thread =
      some ({ state with items := .one }.go thread .alloc) := by
    rw [State.fileDummyinit, place]
    exact if_pos items
  exact life.publishes_step taken fun after => after.publishes_alloc (State.go_self ..)

theorem Life.publishes (life : Life state) (thread : Thread) : state.Publishes := by
  cases id life with
  | before items allocated quiet early =>
      rcases early thread with place | place
      · have taken : state.fileDummyinit thread = some (state.go thread .cas) := by
          simp [State.fileDummyinit, place, items]
        exact life.publishes_step taken fun after => after.publishes_cas items (State.go_self ..)
      · exact life.publishes_cas items place
  | alloc builder items allocated quiet place alone => exact life.publishes_alloc place
  | fill builder j items allocated quiet place alone below stack fd =>
      exact life.publishes_fill place
  | built items allocated pool idle => exact ⟨state, .refl, life, items⟩

/-- A thread that waits for the table finds it. -/
theorem exists_ready_of_wait (items : state.items = .array) (place : state.places thread = .wait) :
    ∃ after, (machine Thread).PathBy Begins state after ∧ (after.places thread).Through := by
  have taken : state.fileDummyinit thread = some (state.go thread .ready) := by
    rw [State.fileDummyinit, place]
    exact if_pos items
  refine ⟨state.go thread .ready, Machine.PathBy.single (.init thread) ⟨thread, rfl⟩ taken, ?_⟩
  rw [State.go_self]
  trivial

theorem Life.exists_through (life : Life state) (thread : Thread) :
    ∃ after, (machine Thread).PathBy Begins state after ∧ (after.places thread).Through := by
  obtain ⟨table, path, built, items⟩ := life.publishes thread
  have enters (go : table.fileDummyinit thread = some (table.go thread .wait)) :
      ∃ after, (machine Thread).PathBy Begins state after ∧ (after.places thread).Through := by
    obtain ⟨after, last, through⟩ :=
      @exists_ready_of_wait _ _ (table.go thread .wait) thread items (State.go_self ..)
    exact ⟨after, path.trans (.head ⟨.init thread, ⟨thread, rfl⟩, go⟩ last), through⟩
  obtain ⟨-, -, idle⟩ := built.pool_of_array items
  cases at_place : table.places thread with
  | start => exact enters (by simp [State.fileDummyinit, at_place, items])
  | cas => exact enters (by simp [State.fileDummyinit, at_place, items])
  | wait =>
      obtain ⟨after, last, through⟩ := exists_ready_of_wait items at_place
      exact ⟨after, path.trans last, through⟩
  | alloc => exact absurd (by rw [at_place]; trivial) (idle thread)
  | fill j => exact absurd (by rw [at_place]; trivial) (idle thread)
  | ready | pop | copySb | copySize => exact ⟨table, path, by rw [at_place]; trivial⟩

end Steps

/-! ## What the threads can rely on -/

/-- The bytes that a read reports are those that the file has from the offset on, or a block. -/
theorem readSize_eq {size : Int} (least : 0 ≤ size) (fits : size < 2 ^ 63) (offset : BitVec 64)
    {blkSz : BitVec 32} (small : blkSz.toNat < 2 ^ 31) :
    readSize (BitVec.ofInt 64 size) offset blkSz =
      (min blkSz.toNat (size.toNat - offset.toNat) : Nat) := by
  have whole : (BitVec.ofInt 64 size).toNat = size.toNat := by
    rw [BitVec.toNat_ofInt]
    omega
  have exact_value {value : Nat} (bound : value < 2 ^ 31) :
      (BitVec.ofInt 32 value).toInt = value := by
    rw [BitVec.toInt_ofInt]
    exact Int.bmod_eq_of_le (by omega) (by omega)
  rw [readSize]
  by_cases past : BitVec.ofInt 64 size ≤ offset
  · have none_left : size.toNat - offset.toNat = 0 := by
      rw [BitVec.le_def, whole] at past
      omega
    rw [if_pos past, none_left, Nat.min_zero]
    rfl
  · rw [if_neg past]
    rw [BitVec.le_def, whole, not_le] at past
    have rest : (BitVec.ofInt 64 size - offset).toNat = size.toNat - offset.toNat := by
      rw [BitVec.toNat_sub_of_le (by rw [BitVec.le_def, whole]; omega), whole]
    have rest_int : (BitVec.ofInt 64 size - offset).toInt = (size.toNat - offset.toNat : Nat) := by
      rw [BitVec.toInt_eq_toNat_of_lt (by rw [rest]; omega), rest]
    rw [rest_int]
    split
    · rw [exact_value small]
      omega
    · rw [exact_value (by omega)]
      omega

variable {Thread : Type*} {state : State Thread}

/-- What the threads can rely on. -/
structure Sound [DecidableEq Thread] (state : State Thread) : Prop where
  once : state.allocated ≤ 1
  /-- Who is through `file_dummyinit` finds each number on the stack or held, once. -/
  filled : ∀ thread, (state.places thread).Through → (state.stack ++ state.held).Perm numbers
  /-- An open descriptor is a number of the table, and it is not on the stack. -/
  opened : ∀ fd, state.files fd ≠ none → fd ∈ numbers ∧ fd ∉ state.stack
  /-- What `file_dummyopen` is about to return is not open, and nobody else has it. -/
  fresh : ∀ thread entry, (state.places thread).entry = some entry →
    (state.item entry).fd = entry ∧ state.files entry = none ∧
      ∀ other, (state.places other).entry = some entry → other = thread
  /-- It fails for want of numbers only when all are open or about to be. -/
  exhausted : ∀ thread sb, state.places thread = .pop sb → state.stack = [] → ∀ fd ∈ numbers,
    state.files fd ≠ none ∨ ∃ other, (state.places other).entry = some fd
  stat : ∀ fd sb, state.files fd = some sb → state.fileDummystat fd = sb
  /-- A read reports the bytes of the file that has been opened. -/
  read : ∀ fd sb, state.files fd = some sb → 0 ≤ sb.size → sb.size < 2 ^ 63 →
    ∀ (offset : BitVec 64) (blkSz : BitVec 32), blkSz.toNat < 2 ^ 31 →
      readSize (state.item fd).size offset blkSz =
        (min blkSz.toNat (sb.size.toNat - offset.toNat) : Nat)
  /-- Everybody gets through `file_dummyinit`. -/
  through : ∀ thread, ∃ after, (machine Thread).PathBy Begins state after ∧
    (after.places thread).Through

theorem Life.through_array (life : Life state) {thread : Thread}
    (through : (state.places thread).Through) : state.items = .array := by
  cases life with
  | before _ _ quiet | alloc _ _ _ quiet | fill _ _ _ _ quiet =>
      exact absurd through (quiet.places thread)
  | built items => exact items

/-- A closing thread can be seen to have an open descriptor. -/
instance {Thread : Type*} (state : State Thread) (label : Label Thread) :
    Decidable (ClosesOpen state label) :=
  match label with
  | .close _ fd => inferInstanceAs (Decidable (state.files fd ≠ none))
  | .init _ | .stat _ _ | .opens _ => .isTrue trivial

/-- A file of some size. -/
def sized (size : Int) : Stat := ⟨size, 0o644, 0, 0, 0, 0, 0, 0⟩

/-- Both threads find no table, and the first one wins.  Then each opens a file, the second one
while the first one has its number and has not written it, and the first file is closed. -/
def twoOpens : List (Label Bool) :=
  [.init false, .init true, .init false, .init true] ++ List.replicate 1202 (.init false) ++
    [.init true, .stat false (some (sized 3)), .stat true (some (sized 5)), .opens false,
      .opens true, .opens false, .opens true, .opens true, .opens false, .close true 1]

end DummyEngine
end EScp
