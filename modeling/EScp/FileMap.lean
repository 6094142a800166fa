import EScp.Probing
import EScp.ReceiveFiles

/-!
# The file table as a map

`file_addfile` puts a file in the first free slot that the hash of its number leads to.
`file_getstats`, `file_wait` and `file_next` follow the same hash to find it again, and an entry is
removed by clearing its slot.  Calls follow each other here, so that each is one step.
-/

namespace EScp
namespace FileMap

open StateWord FileTable ReceiveFiles

/-! ## The loops over the hash -/

/-- `FS_MASK`. -/
def fsMask (hash : BitVec 64) : Nat := hash.toNat % fileStatCountHsz

section Loops

variable {Result : Type*} (visit : Nat → Option Result)

/-- The loop of `file_addfile`, `file_getstats` and `file_wait`, with `rounds` left: it visits the
slot of the next hash and ends when a visit gives a result. -/
def probeLoop : (rounds : Nat) → (hash : BitVec 64) → Option Result
  | 0, _ => none
  | rounds + 1, hash =>
      let hash := xorshift64s hash
      match visit (fsMask hash) with
      | some result => some result
      | none => probeLoop rounds hash

/-- The loop of `file_next`, which keeps the hash in an `int64_t`. -/
def probeLoopSigned : (rounds : Nat) → (slot : Int) → Option Result
  | 0, _ => none
  | rounds + 1, slot =>
      let slot := (xorshift64s (BitVec.ofInt 64 slot)).toInt
      match visit (fsMask (BitVec.ofInt 64 slot)) with
      | some result => some result
      | none => probeLoopSigned rounds slot

end Loops

/-! ## The functions -/

/-- `file_stat`, `file_claim` and `file_count`. -/
structure Files where
  fileStat : Nat → FileStat
  fileClaim : BitVec 64
  fileCount : BitVec 64

/-- A slot that `file_wait` or `file_next` returns, the copy of its entry, and the table after. -/
structure Found where
  slot : Nat
  testFs : FileStat
  fileStat : Nat → FileStat

namespace Files

variable (files : Files)

/-- A free slot. -/
def tryReserve (slot : Nat) : Option Nat :=
  if (files.fileStat slot).state = 0 then some slot else none

/-- `file_addfile`. -/
def fileAddfile (fileno : BitVec 64) (fd : Int) (offset : BitVec 64) (readLimit : BitVec 32) :
    Files × Option Nat :=
  match probeLoop files.tryReserve fileStatCountCc fileno with
  | none => (files, none)
  | some slot =>
      let fs := { newStat fileno.toNat fd slot with
        blockOffset := offset.toNat
        readLimit := readLimit.toNat }
      ({ fileStat := Function.update files.fileStat slot fs
         fileClaim := files.fileClaim + 1
         fileCount := files.fileCount + 1 }, some slot)

def tryGetstats (fileno : BitVec 64) (slot : Nat) : Option Nat :=
  if fileno.toNat ≠ (files.fileStat slot).fileNo then none else some slot

/-- `file_getstats`. -/
def fileGetstats (fileno : BitVec 64) : Option Nat :=
  probeLoop (files.tryGetstats fileno) fileStatCountCc fileno

/-- The table after the state of `slot` is set. -/
def setWord (slot : Nat) (word : BitVec 64) : Nat → FileStat :=
  Function.update files.fileStat slot { files.fileStat slot with state := word }

/-- The weak compare and swap fails without reason at the slots in `fails`. -/
def tryWait (fileno : BitVec 64) (fails : Nat → Bool) (slot : Nat) : Option Found :=
  let testFs := files.fileStat slot
  if testFs.fileNo ≠ fileno.toNat then none
  else if testFs.state = fsInit ∧ fails slot = false then
    some ⟨slot, testFs, files.setWord slot (fsComplete ||| fsIo)⟩
  else if testFs.state &&& fsIo ≠ 0 then some ⟨slot, testFs, files.fileStat⟩
  else none

/-- A round of `file_wait`, which starts another when there is no result. -/
def fileWait (fileno : BitVec 64) (fails : Nat → Bool) : Option Found :=
  probeLoop (files.tryWait fileno fails) fileStatCountCc fileno

def tryNext (fh : Int) (id : Id) (fails : Nat → Bool) (slot : Nat) : Option Found :=
  let testFs := files.fileStat slot
  if testFs.fileNo ≠ (BitVec.ofInt 64 fh).toNat then none
  else if testFs.state = fsInit ∧ fails slot = false then
    some ⟨slot, testFs, files.setWord slot (fsComplete ||| fsIo ||| idBit id)⟩
  else none

/-- A round of `file_next` for the number `fh` that it has claimed. -/
def fileNext (fh : Int) (id : Id) (fails : Nat → Bool) : Option Found :=
  probeLoopSigned (files.tryNext fh id fails) fileStatCountCc fh

/-- `memset_avx` on a slot. -/
def memsetAvx (slot : Nat) : Files :=
  { files with fileStat := Function.update files.fileStat slot FileStat.zero }

/-- The table after a call that may have found a slot. -/
def settle (found : Option Found) : Files :=
  match found with
  | none => files
  | some found => { files with fileStat := found.fileStat }

end Files

/-! ## Sequences of calls -/

/-- A file that `file_addfile` has given a slot. -/
structure Added where
  fileno : BitVec 64
  fd : Int
  slot : Nat
deriving DecidableEq

/-- The table, and the files that have been added and whose slots have not been cleared since. -/
structure State where
  files : Files
  live : List Added

/-- One call. -/
inductive Label where
  | add (fileno : BitVec 64) (fd : Int) (offset : BitVec 64) (readLimit : BitVec 32)
  | wait (fileno : BitVec 64) (fails : Nat → Bool)
  | next (fileno : BitVec 64) (id : Id) (fails : Nat → Bool)
  | clear (slot : Nat)

namespace State

/-- A file is added. -/
def add (state : State) (fileno : BitVec 64) (fd : Int) (offset : BitVec 64)
    (readLimit : BitVec 32) : State :=
  let call := state.files.fileAddfile fileno fd offset readLimit
  { files := call.1
    live := state.live ++ (call.2.map fun slot => ⟨fileno, fd, slot⟩).toList }

/-- One call.  The numbers of the files that are in the table are different and not zero. -/
def next (state : State) : Label → Option State
  | .add fileno fd offset readLimit =>
      if fileno ≠ 0 ∧ ∀ added ∈ state.live, added.fileno ≠ fileno then
        some (state.add fileno fd offset readLimit)
      else
        none
  | .wait fileno fails =>
      some { state with files := state.files.settle (state.files.fileWait fileno fails) }
  | .next fileno id fails =>
      some { state with files := state.files.settle (state.files.fileNext fileno.toInt id fails) }
  | .clear slot =>
      some { files := state.files.memsetAvx slot
             live := state.live.filter fun added => added.slot ≠ slot }

/-- The state before the first call. -/
def init : State := ⟨⟨fun _ => FileStat.zero, 0, 0⟩, []⟩

end State

/-- Sequences of calls. -/
def machine : Machine State Label where
  initial state := state = State.init
  next := State.next

/-- The four functions visit the slots of `probes` in their order until a visit gives a result. -/
structure SameProbes (files : Files) (fileno : BitVec 64) : Prop where
  addfile : ∀ fd offset readLimit, (files.fileAddfile fileno fd offset readLimit).2 =
    (probes fileno.toNat).findSome? files.tryReserve
  getstats : files.fileGetstats fileno =
    (probes fileno.toNat).findSome? (files.tryGetstats fileno)
  wait : ∀ fails, files.fileWait fileno fails =
    (probes fileno.toNat).findSome? (files.tryWait fileno fails)
  next : ∀ id fails, files.fileNext fileno.toInt id fails =
    (probes fileno.toNat).findSome? (files.tryNext fileno.toInt id fails)

/-- The table maps the numbers of the files in it to their slots. -/
structure IsMap (state : State) : Prop where
  getstats : ∀ fileno slot, fileno ≠ 0 →
    (state.files.fileGetstats fileno = some slot ↔ ∃ fd, ⟨fileno, fd, slot⟩ ∈ state.live)
  entry : ∀ added ∈ state.live,
    (state.files.fileStat added.slot).fileNo = added.fileno.toNat ∧
      (state.files.fileStat added.slot).fd = added.fd ∧
      (state.files.fileStat added.slot).position = added.slot
  apart : ∀ left ∈ state.live, ∀ right ∈ state.live, left.slot = right.slot → left = right
  sameProbes : ∀ fileno, SameProbes state.files fileno
  full : ∀ fileno fd offset readLimit,
    (state.files.fileAddfile fileno fd offset readLimit).2 = none →
      (∀ slot ∈ probes fileno.toNat, (state.files.fileStat slot).state ≠ 0 ∧
        ∃ added ∈ state.live, added.slot = slot) ∧
        (state.files.fileAddfile fileno fd offset readLimit).1 = state.files

/-! ## The loops visit one chain -/

section Loops

variable {Result : Type*} (visit : Nat → Option Result)

theorem map_range_iterate {Value Image : Type*} (step : Value → Value) (image : Value → Image)
    (rounds : Nat) (start : Value) :
    (List.range (rounds + 1)).map (fun index => image (step^[index + 1] start)) =
      image (step start) ::
        (List.range rounds).map fun index => image (step^[index + 1] (step start)) := by
  rw [List.range_succ_eq_map, List.map_cons, List.map_map]
  rfl

theorem probeLoop_eq (rounds : Nat) (hash : BitVec 64) :
    probeLoop visit rounds hash =
      ((List.range rounds).map fun index => fsMask (xorshift64s^[index + 1] hash)).findSome?
        visit := by
  induction rounds generalizing hash with
  | zero => rfl
  | succ rounds ih =>
      rw [map_range_iterate, List.findSome?_cons, probeLoop, ih]
      cases visit (fsMask (xorshift64s hash)) with
      | some result => rfl
      | none => rfl

/-- The sign of the variable makes no difference. -/
theorem probeLoopSigned_eq (rounds : Nat) (slot : Int) :
    probeLoopSigned visit rounds slot = probeLoop visit rounds (BitVec.ofInt 64 slot) := by
  induction rounds generalizing slot with
  | zero => rfl
  | succ rounds ih =>
      simp only [probeLoop, probeLoopSigned, ih, BitVec.ofInt_toInt]

theorem probeLoop_probes (fileno : BitVec 64) :
    probeLoop visit fileStatCountCc fileno = (probes fileno.toNat).findSome? visit := by
  rw [probeLoop_eq]
  unfold probes probe fsMask
  rw [BitVec.ofNat_toNat, BitVec.setWidth_eq]

end Loops

theorem Files.fileAddfile_snd (files : Files) (fileno : BitVec 64) (fd : Int)
    (offset : BitVec 64) (readLimit : BitVec 32) :
    (files.fileAddfile fileno fd offset readLimit).2 =
      (probes fileno.toNat).findSome? files.tryReserve := by
  rw [fileAddfile, ← probeLoop_probes]
  cases probeLoop files.tryReserve fileStatCountCc fileno with
  | none => rfl
  | some slot => rfl

theorem sameProbes (files : Files) (fileno : BitVec 64) : SameProbes files fileno where
  addfile fd offset readLimit := files.fileAddfile_snd fileno fd offset readLimit
  getstats := probeLoop_probes _ fileno
  wait fails := probeLoop_probes _ fileno
  next id fails := by
    rw [Files.fileNext, probeLoopSigned_eq, BitVec.ofInt_toInt]
    exact probeLoop_probes _ fileno

/-- The loop of `file_getstats` computes what the main loop of the receiver relies on. -/
theorem Files.fileGetstats_eq (files : Files) (fileno : BitVec 64) :
    files.fileGetstats fileno = ReceiveFiles.fileGetstats files.fileStat fileno.toNat := by
  rw [fileGetstats, probeLoop_probes, ReceiveFiles.fileGetstats, List.find?_eq_findSome?_guard]
  congr 1
  funext slot
  by_cases same : fileno.toNat = (files.fileStat slot).fileNo
  · simp [tryGetstats, Option.guard, same]
  · simp [tryGetstats, Option.guard, same]

/-- So does the loop of `file_addfile`. -/
theorem Files.fileAddfile_eq (files : Files) (fileno : BitVec 64) (fd : Int) :
    (files.fileAddfile fileno fd 0 0).1.fileStat =
      (ReceiveFiles.fileAddfile files.fileStat fileno.toNat fd).getD files.fileStat := by
  have reserve : (probes fileno.toNat).findSome? files.tryReserve =
      (probes fileno.toNat).find? fun slot => (files.fileStat slot).state = 0 := by
    rw [List.find?_eq_findSome?_guard]
    congr 1
    funext slot
    simp [tryReserve, Option.guard]
  rw [fileAddfile, probeLoop_probes, reserve, ReceiveFiles.fileAddfile]
  cases (probes fileno.toNat).find? fun slot => (files.fileStat slot).state = 0 with
  | none => rfl
  | some slot => rfl

/-! ## The table as an open addressed one -/

/-- The entries of the slots that are not free. -/
def view (fileStat : Nat → FileStat) : Probing.Table FileStat Nat := fun slot =>
  if (fileStat slot).state = 0 then none else some (fileStat slot)

section View

variable {fileStat : Nat → FileStat} {slot : Nat} {stat : FileStat}

theorem view_free (zero : (fileStat slot).state = 0) : view fileStat slot = none := if_pos zero

theorem view_used (used : (fileStat slot).state ≠ 0) :
    view fileStat slot = some (fileStat slot) := if_neg used

theorem view_eq_some_iff : view fileStat slot = some stat ↔
    (fileStat slot).state ≠ 0 ∧ fileStat slot = stat := by
  by_cases zero : (fileStat slot).state = 0
  · rw [view_free zero]
    exact ⟨fun none => (nomatch none), fun held => absurd zero held.1⟩
  · rw [view_used zero, Option.some_inj]
    exact ⟨fun same => ⟨zero, same⟩, fun held => held.2⟩

theorem view_update_used (used : stat.state ≠ 0) :
    view (Function.update fileStat slot stat) =
      Function.update (view fileStat) slot (some stat) := by
  funext place
  by_cases same : place = slot
  · subst same
    have changed : Function.update fileStat place stat place = stat := Function.update_self ..
    rw [view_used (by rwa [changed]), changed, Function.update_self]
  · simp [view, same]

theorem view_update_zero :
    view (Function.update fileStat slot FileStat.zero) =
      Function.update (view fileStat) slot none := by
  funext place
  by_cases same : place = slot
  · subst same
    simp [view]
  · simp [view, same]

end View

/-- The first free slot is the first vacant one. -/
theorem Files.findSome?_tryReserve (files : Files) (fileno : Nat) :
    (probes fileno).findSome? files.tryReserve =
      Probing.vacancy probes (view files.fileStat) fileno := by
  rw [Probing.vacancy, List.find?_eq_findSome?_guard]
  congr 1
  funext slot
  by_cases zero : (files.fileStat slot).state = 0
  · rw [tryReserve, if_pos zero, Option.guard, view_free zero]
    rfl
  · rw [tryReserve, if_neg zero, Option.guard, view_used zero]
    rfl

theorem Files.findSome?_tryGetstats (files : Files)
    (free : ∀ slot, (files.fileStat slot).state = 0 → (files.fileStat slot).fileNo = 0)
    {fileno : BitVec 64} (nonzero : fileno ≠ 0) :
    (probes fileno.toNat).findSome? (files.tryGetstats fileno) =
      Probing.lookup FileStat.fileNo probes (view files.fileStat) fileno.toNat := by
  have positive : fileno.toNat ≠ 0 := by
    intro zero
    exact nonzero (BitVec.eq_of_toNat_eq zero)
  rw [Probing.lookup, List.find?_eq_findSome?_guard]
  congr 1
  funext slot
  by_cases zero : (files.fileStat slot).state = 0
  · simp [tryGetstats, Option.guard, view_free zero, free slot zero, positive]
  · by_cases same : fileno.toNat = (files.fileStat slot).fileNo
    · simp [tryGetstats, Option.guard, view_used zero, same]
    · simp [tryGetstats, Option.guard, view_used zero, same, Ne.symm same]

/-! ## Invariant -/

/-- What an entry says of itself. -/
structure Entry (slot : Nat) (stat : FileStat) : Prop where
  free : stat.state = 0 → stat.fileNo = 0
  number : stat.fileNo < 2 ^ 64
  position : stat.state ≠ 0 → stat.position = slot

theorem entry_zero (slot : Nat) : Entry slot FileStat.zero where
  free _ := rfl
  number := Nat.two_pow_pos 64
  position used := absurd rfl used

/-- The files in the table are the live ones. -/
structure Inv (fileStat : Nat → FileStat) (live : List Added) : Prop where
  wellFormed : Probing.WellFormed FileStat.fileNo probes (view fileStat)
  entry : ∀ slot, Entry slot (fileStat slot)
  live : ∀ added, added ∈ live ↔
    (fileStat added.slot).state ≠ 0 ∧ (fileStat added.slot).fileNo = added.fileno.toNat ∧
      (fileStat added.slot).fd = added.fd

theorem inv_init : Inv State.init.files.fileStat State.init.live where
  wellFormed := Probing.wellFormed_empty
  entry := entry_zero
  live added := by simp [State.init]

section Steps

variable {fileStat : Nat → FileStat} {live : List Added}

/-- A number that is not live is in no entry. -/
theorem Inv.absent (inv : Inv fileStat live) {fileno : BitVec 64}
    (fresh : ∀ added ∈ live, added.fileno ≠ fileno) (slot : Nat) (stat : FileStat)
    (held : view fileStat slot = some stat) : stat.fileNo ≠ fileno.toNat := by
  obtain ⟨used, rfl⟩ := view_eq_some_iff.mp held
  intro same
  have member := (inv.live ⟨fileno, (fileStat slot).fd, slot⟩).mpr ⟨used, same, rfl⟩
  exact fresh _ member rfl

/-- One entry changes. -/
theorem Inv.entry_update (inv : Inv fileStat live) {slot : Nat} {stat : FileStat}
    (entry : Entry slot stat) (place : Nat) :
    Entry place (Function.update fileStat slot stat place) := by
  by_cases same : place = slot
  · subst same
    rw [Function.update_self]
    exact entry
  · rw [Function.update_of_ne same]
    exact inv.entry place

/-- A file is given a slot. -/
theorem Inv.put (inv : Inv fileStat live) {fileno : BitVec 64} {slot : Nat} {stat : FileStat}
    (fresh : ∀ added ∈ live, added.fileno ≠ fileno)
    (vacant : Probing.vacancy probes (view fileStat) fileno.toNat = some slot)
    (used : stat.state ≠ 0) (fileNo : stat.fileNo = fileno.toNat)
    (position : stat.position = slot) :
    Inv (Function.update fileStat slot stat) (live ++ [⟨fileno, stat.fd, slot⟩]) := by
  constructor
  · rw [view_update_used used]
    exact inv.wellFormed.insert (fileNo ▸ vacant)
      fun place other held => fileNo ▸ inv.absent fresh place other held
  · apply inv.entry_update
    exact ⟨fun zero => absurd zero used, fileNo ▸ fileno.isLt, fun _ => position⟩
  · intro added
    rw [List.mem_append, List.mem_singleton, inv.live added]
    have zero : (fileStat slot).state = 0 := by
      by_contra nonzero
      have held := Probing.none_of_vacancy vacant
      rw [view_used nonzero] at held
      cases held
    by_cases same : added.slot = slot
    · rw [same, Function.update_self, fileNo]
      constructor
      · rintro (⟨nonzero, -⟩ | rfl)
        · exact absurd zero nonzero
        · exact ⟨used, rfl, rfl⟩
      · rintro ⟨-, same_number, same_fd⟩
        right
        obtain ⟨number, fd, place⟩ := added
        obtain rfl : fileno = number := BitVec.eq_of_toNat_eq same_number
        obtain rfl : stat.fd = fd := same_fd
        obtain rfl : place = slot := same
        rfl
    · rw [Function.update_of_ne same]
      have other : added ≠ ⟨fileno, stat.fd, slot⟩ := by
        rintro rfl
        exact same rfl
      simp [other]

/-- A state that is not zero is replaced by another. -/
theorem Inv.setWord (inv : Inv fileStat live) {slot : Nat} {word : BitVec 64}
    (used : (fileStat slot).state ≠ 0) (nonzero : word ≠ 0) :
    Inv (Function.update fileStat slot { fileStat slot with state := word }) live := by
  constructor
  · rw [view_update_used nonzero]
    exact inv.wellFormed.replace (view_used used) rfl
  · apply inv.entry_update
    have before := inv.entry slot
    exact ⟨fun zero => absurd zero nonzero, before.number, fun _ => before.position used⟩
  · intro added
    rw [inv.live added]
    by_cases same : added.slot = slot
    · rw [same, Function.update_self]
      exact and_congr_left fun _ => iff_of_true used nonzero
    · rw [Function.update_of_ne same]

/-- A worker marks a file that nobody has claimed. -/
theorem Inv.mark (inv : Inv fileStat live) {slot : Nat} {word : BitVec 64}
    (unclaimed : (fileStat slot).state = fsInit) (nonzero : word ≠ 0) :
    Inv (Function.update fileStat slot { fileStat slot with state := word }) live := by
  refine inv.setWord ?_ nonzero
  rw [unclaimed]
  decide

/-- A slot is cleared. -/
theorem Inv.clear (inv : Inv fileStat live) (slot : Nat) :
    Inv (Function.update fileStat slot FileStat.zero)
      (live.filter fun added => added.slot ≠ slot) := by
  constructor
  · rw [view_update_zero]
    exact inv.wellFormed.erase slot
  · exact inv.entry_update (entry_zero slot)
  · intro added
    rw [List.mem_filter, inv.live added, decide_eq_true_iff]
    by_cases same : added.slot = slot
    · rw [same, Function.update_self]
      simp
    · rw [Function.update_of_ne same]
      exact and_iff_left same

end Steps

section Calls

variable {files : Files} {live : List Added}

theorem Inv.wait (inv : Inv files.fileStat live) (fileno : BitVec 64) (fails : Nat → Bool) :
    Inv (files.settle (files.fileWait fileno fails)).fileStat live := by
  cases result : files.fileWait fileno fails with
  | none => exact inv
  | some found =>
      rw [Files.fileWait, probeLoop_probes] at result
      obtain ⟨slot, -, visited⟩ := List.exists_of_findSome?_eq_some result
      simp only [Files.tryWait] at visited
      split at visited
      · cases visited
      · split at visited
        · rename_i fresh
          obtain rfl := Option.some.inj visited
          exact inv.mark fresh.1 (by decide : fsComplete ||| fsIo ≠ 0)
        · split at visited
          · obtain rfl := Option.some.inj visited
            exact inv
          · cases visited

theorem claimWord_ne_zero (id : Id) : fsComplete ||| fsIo ||| idBit id ≠ 0 := by
  have complete := (marks_claim id).getLsbD_complete
  intro zero
  rw [zero] at complete
  exact absurd complete (by decide)

theorem Inv.next (inv : Inv files.fileStat live) (fh : Int) (id : Id) (fails : Nat → Bool) :
    Inv (files.settle (files.fileNext fh id fails)).fileStat live := by
  cases result : files.fileNext fh id fails with
  | none => exact inv
  | some found =>
      rw [Files.fileNext, probeLoopSigned_eq, probeLoop_probes] at result
      obtain ⟨slot, -, visited⟩ := List.exists_of_findSome?_eq_some result
      simp only [Files.tryNext] at visited
      split at visited
      · cases visited
      · split at visited
        · rename_i fresh
          obtain rfl := Option.some.inj visited
          exact inv.mark fresh.1 (claimWord_ne_zero id)
        · cases visited

theorem Inv.add (inv : Inv files.fileStat live) {fileno : BitVec 64} (fd : Int)
    (offset : BitVec 64) (readLimit : BitVec 32)
    (fresh : ∀ added ∈ live, added.fileno ≠ fileno) :
    Inv ((State.mk files live).add fileno fd offset readLimit).files.fileStat
      ((State.mk files live).add fileno fd offset readLimit).live := by
  have reserve := probeLoop_probes files.tryReserve fileno
  rw [Files.findSome?_tryReserve] at reserve
  rw [State.add, Files.fileAddfile, reserve]
  cases vacant : Probing.vacancy probes (view files.fileStat) fileno.toNat with
  | none =>
      simp only [Option.map_none, Option.toList_none, List.append_nil]
      exact inv
  | some slot =>
      exact inv.put fresh vacant (by decide : fsInit ≠ 0) rfl rfl

end Calls

theorem inv_reached {state : State} (reached : machine.Reached state) :
    Inv state.files.fileStat state.live := by
  refine reached.invariant (fun state => Inv state.files.fileStat state.live) ?_ ?_
  · rintro state rfl
    exact inv_init
  · intro before label after inv _ taken
    cases label with
    | add fileno fd offset readLimit =>
        simp only [machine, State.next] at taken
        split at taken
        · rename_i fresh
          obtain rfl := Option.some.inj taken
          exact inv.add fd offset readLimit fresh.2
        · cases taken
    | wait fileno fails =>
        obtain rfl := Option.some.inj taken
        exact inv.wait fileno fails
    | next fileno id fails =>
        obtain rfl := Option.some.inj taken
        exact inv.next fileno.toInt id fails
    | clear slot =>
        obtain rfl := Option.some.inj taken
        exact inv.clear slot

/-! ## The map -/

section Map

variable {files : Files} {live : List Added}

/-- Two live files in one slot are the same file. -/
theorem Inv.apart (inv : Inv files.fileStat live) {left right : Added} (left_live : left ∈ live)
    (right_live : right ∈ live) (same : left.slot = right.slot) : left = right := by
  obtain ⟨-, left_number, left_fd⟩ := (inv.live left).mp left_live
  obtain ⟨-, right_number, right_fd⟩ := (inv.live right).mp right_live
  obtain ⟨fileno, fd, slot⟩ := left
  obtain ⟨other, otherFd, place⟩ := right
  obtain rfl : slot = place := same
  obtain rfl : fileno = other := BitVec.eq_of_toNat_eq (left_number.symm.trans right_number)
  obtain rfl : fd = otherFd := left_fd.symm.trans right_fd
  rfl

theorem Inv.fileGetstats_iff (inv : Inv files.fileStat live) {fileno : BitVec 64}
    (nonzero : fileno ≠ 0) (slot : Nat) :
    files.fileGetstats fileno = some slot ↔ ∃ fd, ⟨fileno, fd, slot⟩ ∈ live := by
  have free : ∀ slot, (files.fileStat slot).state = 0 → (files.fileStat slot).fileNo = 0 :=
    fun slot => (inv.entry slot).free
  rw [Files.fileGetstats, probeLoop_probes, files.findSome?_tryGetstats free nonzero,
    inv.wellFormed.lookup_eq_some_iff]
  constructor
  · rintro ⟨stat, held, fileNo⟩
    obtain ⟨used, rfl⟩ := view_eq_some_iff.mp held
    exact ⟨_, (inv.live ⟨fileno, (files.fileStat slot).fd, slot⟩).mpr ⟨used, fileNo, rfl⟩⟩
  · rintro ⟨fd, member⟩
    obtain ⟨used, fileNo, -⟩ := (inv.live _).mp member
    exact ⟨_, view_used used, fileNo⟩

/-- `file_addfile` fails only when all its slots are in use, and then changes nothing. -/
theorem Inv.full (inv : Inv files.fileStat live) {fileno : BitVec 64} {fd : Int}
    {offset : BitVec 64} {readLimit : BitVec 32}
    (refused : (files.fileAddfile fileno fd offset readLimit).2 = none) :
    (∀ slot ∈ probes fileno.toNat, (files.fileStat slot).state ≠ 0 ∧
      ∃ added ∈ live, added.slot = slot) ∧
      (files.fileAddfile fileno fd offset readLimit).1 = files := by
  rw [Files.fileAddfile_snd] at refused
  constructor
  · intro slot member
    rw [Files.findSome?_tryReserve, Probing.vacancy_eq_none_iff] at refused
    obtain ⟨stat, held⟩ := refused slot member
    obtain ⟨used, rfl⟩ := view_eq_some_iff.mp held
    let stat := files.fileStat slot
    refine ⟨used, ⟨BitVec.ofNat 64 stat.fileNo, stat.fd, slot⟩, ?_, rfl⟩
    refine (inv.live _).mpr ⟨used, ?_, rfl⟩
    rw [BitVec.toNat_ofNat, Nat.mod_eq_of_lt (inv.entry slot).number]
  · rw [Files.fileAddfile, probeLoop_probes, refused]

/-- After every sequence of calls the table is a map from the numbers of the files in it. -/
theorem isMap_of_reached {state : State} (reached : machine.Reached state) : IsMap state := by
  have inv := inv_reached reached
  constructor
  · intro fileno slot nonzero
    exact inv.fileGetstats_iff nonzero slot
  · intro added member
    obtain ⟨used, fileNo, fd⟩ := (inv.live added).mp member
    exact ⟨fileNo, fd, (inv.entry added.slot).position used⟩
  · intro left left_live right right_live same
    exact inv.apart left_live right_live same
  · intro fileno
    exact sameProbes state.files fileno
  · intro fileno fd offset readLimit refused
    exact inv.full refused

end Map

/-- Two files are added, one is joined and one claimed, and the first is removed. -/
def fiveCalls : List Label :=
  [.add 1 5 0 0, .wait 1 fun _ => false, .add 2 6 0 0, .next 2 3 fun _ => false,
    .clear (probe 1 0)]

theorem isMap_after_fiveCalls : ∃ state, machine.run State.init fiveCalls = some state ∧
    state.live = [⟨2, 6, probe 2 0⟩] ∧ IsMap state := by
  have steps : ∃ state, machine.run State.init fiveCalls = some state ∧
      state.live = [⟨2, 6, probe 2 0⟩] := by decide +kernel
  obtain ⟨state, taken, live⟩ := steps
  exact ⟨state, taken, live, isMap_of_reached (Machine.reached_of_run rfl fiveCalls taken)⟩

end FileMap
end EScp
