import EScp.BlockWrites
import EScp.Transition
import Mathlib.Data.Finset.Card
import Mathlib.Data.Finset.Range

/-!
# Short writes on the receiver

`rx_worker` hands a block to the engine once, tests that `pwrite` has returned something positive,
and counts the block.  The workers take the blocks of a file in any order; each atomic operation is
one step.
-/

namespace EScp
namespace ShortWrite

open BlockWrites

/-- A file that is received, and how it is written. -/
structure Job where
  block : BitVec 32
  size : Nat
  content : Nat → UInt8
  /-- `fob->sparse`. -/
  sparse : Bool
  positive : 0 < block.toNat
  small : block.toNat < 2 ^ 31
  fits : size < 2 ^ 63

variable (job : Job)

/-- The number of blocks. -/
def Job.blocks : Nat := blockCount job.block job.size

/-- The length of a block, as it arrives. -/
def Job.length (index : Nat) : Nat := blockLength job.block job.size index

/-- What the engine is given to write for a block. -/
def Job.write (index : Nat) (stale : Nat → UInt8) : Layout.Write :=
  (Arrival.mk index stale).write job.block job.size job.content

/-- What the engine has done with a block. -/
inductive Submitted where
  /-- It has called `pwrite`, which has returned `result`. -/
  | pwrite (offset requested : Nat) (result : Int)
  /-- It has left a hole. -/
  | hole
deriving DecidableEq

/-- How far a block is. -/
inductive Progress where
  | sent
  /-- About to be submitted, in a buffer with `stale` bytes. -/
  | submit (stale : Nat → UInt8)
  /-- About to update `bytes_total`. -/
  | size (sz : BitVec 32)
  /-- About to update `block_total`. -/
  | count
  | counted

structure State where
  progress : Nat → Progress
  submitted : Nat → Option Submitted
  bytesTotal : Int
  blockTotal : Nat
  /-- `VRFY` has ended the process. -/
  exited : Bool

/-- One step of the worker that has a block. -/
inductive Label where
  | receive (index : Nat) (stale : Nat → UInt8)
  /-- `fob->submit`; `result` is what `pwrite` returns if it is called. -/
  | submit (index : Nat) (result : Int)
  | work (index : Nat)

def State.setProgress (state : State) (index : Nat) (progress : Progress) : State :=
  { state with progress := Function.update state.progress index progress }

/-- `memcmp_zero` finds nothing. -/
def AllZero (write : Layout.Write) : Prop := ∀ position < write.size, write.data position = 0

instance (write : Layout.Write) : Decidable (AllZero write) := by
  unfold AllZero
  infer_instance

/-- `fob->submit` returns to `rx_worker`, which tests `sz`. -/
def State.verify (state : State) (index : Nat) (submitted : Submitted) (sz : BitVec 32) : State :=
  let state := { state with
    submitted := Function.update state.submitted index (some submitted) }
  if 0 < sz.toInt then state.setProgress index (.size sz) else { state with exited := true }

/-- `file_posixsubmit` on the receiver. -/
def State.submit (state : State) (index : Nat) (result : Int) : Option State :=
  match state.progress index with
  | .submit stale =>
      let write := job.write index stale
      if job.sparse = true ∧ AllZero write then
        some (state.verify index .hole (BitVec.ofNat 32 write.size))
      else if result = -1 ∨ 1 ≤ result ∧ result ≤ write.size then
        some (state.verify index (.pwrite write.offset write.size result) (BitVec.ofInt 32 result))
      else
        none
  | _ => none

/-- One step. -/
def next (state : State) (label : Label) : Option State :=
  if state.exited then none
  else
    match label with
    | .receive index stale =>
        match state.progress index with
        | .sent =>
            if index < job.blocks then some (state.setProgress index (.submit stale)) else none
        | _ => none
    | .submit index result => state.submit job index result
    | .work index =>
        match state.progress index with
        | .size sz =>
            some ({ state with bytesTotal := state.bytesTotal + sz.toInt }.setProgress index .count)
        | .count =>
            some ({ state with blockTotal := state.blockTotal + 1 }.setProgress index .counted)
        | _ => none

/-- The state after `file_addfile`. -/
def State.init : State where
  progress _ := .sent
  submitted _ := none
  bytesTotal := 0
  blockTotal := 0
  exited := false

/-- The interleavings of the workers with the blocks of one file. -/
def machine : Machine State Label where
  initial state := state = State.init
  next := next job

/-! ## What is written -/

variable {job}

/-- A byte has been accepted at its place, or has been left as a hole because it is zero. -/
def Submitted.Takes (job : Job) (address : Nat) : Submitted → Prop
  | .pwrite offset _ result => offset ≤ address ∧ (address : Int) < offset + result
  | .hole => job.content address = 0

/-- A byte of the file has been written with its block. -/
def Written (job : Job) (state : State) (address : Nat) : Prop :=
  ∃ done, state.submitted (address / job.block.toNat) = some done ∧ done.Takes job address

/-- A block is counted only when all its bytes are written, and a file that `close_file` finds
complete has no byte missing. -/
structure Sound (job : Job) (state : State) : Prop where
  counted : ∀ index, state.progress index = .counted → ∀ position < job.length index,
    Written job state (index * job.block.toNat + position)
  closed : job.blocks ≤ state.blockTotal → ∀ address < job.size, Written job state address

/-- The calls of `pwrite` for the blocks that are counted have taken the whole block. -/
def Full (job : Job) (state : State) : Prop :=
  ∀ index, state.progress index = .counted → ∀ offset requested result,
    state.submitted index = some (.pwrite offset requested result) → job.length index ≤ result

/-! ## The invariant -/

/-- What the engine has done with a block that is going to be counted. -/
def Submitted.Ok (job : Job) (index : Nat) : Submitted → Prop
  | .pwrite offset _ result => offset = index * job.block.toNat ∧ 1 ≤ result
  | .hole => ∀ position < job.length index, job.content (index * job.block.toNat + position) = 0

/-- What the engine has done with a block that has come this far. -/
def Progress.Ok (job : Job) (index : Nat) (submitted : Option Submitted) : Progress → Prop
  | .sent => True
  | .submit _ => index < job.blocks
  | .size _ | .count | .counted =>
      index < job.blocks ∧ ∃ done, submitted = some done ∧ done.Ok job index

instance : DecidablePred fun progress : Progress => progress = .counted := fun progress =>
  match progress with
  | .counted => isTrue rfl
  | .sent => isFalse nofun
  | .submit _ => isFalse nofun
  | .size _ => isFalse nofun
  | .count => isFalse nofun

/-- The blocks that are counted. -/
def countedBlocks (job : Job) (state : State) : Finset Nat :=
  (Finset.range job.blocks).filter fun index => state.progress index = .counted

/-- Only blocks that have been submitted are counted. -/
structure Inv (job : Job) (state : State) : Prop where
  blocks : ∀ index, (state.progress index).Ok job index (state.submitted index)
  total : state.blockTotal = (countedBlocks job state).card

section Steps

variable {state after : State} {index : Nat}

theorem mem_countedBlocks :
    index ∈ countedBlocks job state ↔ index < job.blocks ∧ state.progress index = .counted := by
  rw [countedBlocks, Finset.mem_filter, Finset.mem_range]

theorem mul_block_lt (inside : index < job.blocks) : index * job.block.toNat < job.size := by
  have positive := job.positive
  rw [Job.blocks, blockCount, ← Nat.succ_le_iff, Nat.le_div_iff_mul_le positive,
    Nat.succ_mul] at inside
  omega

theorem length_pos (inside : index < job.blocks) : 0 < job.length index := by
  have begins := mul_block_lt inside
  have positive := job.positive
  rw [Job.length, blockLength]
  omega

theorem write_offset (inside : index < job.blocks) (stale : Nat → UInt8) :
    (job.write index stale).offset = index * job.block.toNat := by
  have begins := mul_block_lt inside
  have fits := job.fits
  exact txOffset_toNat job.positive job.small (begins.trans fits)

theorem length_le_size (stale : Nat → UInt8) :
    job.length index ≤ (job.write index stale).size := by
  have short : job.length index ≤ job.block.toNat := Nat.min_le_left _ _
  have small := job.small
  have size : (job.write index stale).size =
      (rxSize (BitVec.ofNat 32 (job.length index))).toNat := rfl
  rw [size, rxSize_toNat (by omega)]
  omega

/-- A block of zeros may be left out. -/
theorem zero_of_allZero {stale : Nat → UInt8} (zeros : AllZero (job.write index stale)) :
    Submitted.Ok job index .hole := by
  intro position inside
  have zero := zeros position (inside.trans_le (length_le_size stale))
  exact (if_pos inside).symm.trans zero

/-- A block moves on without being counted. -/
theorem Inv.move (inv : Inv job state) {later : Progress} {submitted : Option Submitted}
    (bytesTotal : Int) (exited : Bool) (fresh : state.progress index ≠ .counted)
    (uncounted : later ≠ .counted) (ok : later.Ok job index submitted) :
    Inv job ⟨Function.update state.progress index later,
      Function.update state.submitted index submitted, bytesTotal, state.blockTotal, exited⟩ := by
  constructor
  · intro other
    by_cases same : other = index
    · rw [same]
      change (Function.update state.progress index later index).Ok job index
        (Function.update state.submitted index submitted index)
      rwa [Function.update_self, Function.update_self]
    · change (Function.update state.progress index later other).Ok job other
        (Function.update state.submitted index submitted other)
      rw [Function.update_of_ne same, Function.update_of_ne same]
      exact inv.blocks other
  · refine inv.total.trans (congrArg Finset.card (Finset.filter_congr fun other _ => ?_))
    by_cases same : other = index
    · rw [same]
      change _ ↔ Function.update state.progress index later index = _
      rw [Function.update_self]
      exact iff_of_false fresh uncounted
    · change _ ↔ Function.update state.progress index later other = _
      rw [Function.update_of_ne same]

/-- A block moves on, and the engine has done nothing more with it. -/
theorem Inv.advance (inv : Inv job state) {later : Progress} (bytesTotal : Int)
    (fresh : state.progress index ≠ .counted) (uncounted : later ≠ .counted)
    (ok : later.Ok job index (state.submitted index)) :
    Inv job ⟨Function.update state.progress index later, state.submitted, bytesTotal,
      state.blockTotal, state.exited⟩ := by
  have moved := inv.move bytesTotal state.exited fresh uncounted ok
  rwa [Function.update_eq_self] at moved

/-- The engine returns to `rx_worker`. -/
theorem Inv.verify (inv : Inv job state) {stale : Nat → UInt8} {done : Submitted} {sz : BitVec 32}
    (at_submit : state.progress index = .submit stale)
    (ok : 0 < sz.toInt → done.Ok job index) : Inv job (state.verify index done sz) := by
  have inside : index < job.blocks := by
    have block := inv.blocks index
    rwa [at_submit] at block
  have fresh : state.progress index ≠ .counted := by simp [at_submit]
  rw [State.verify]
  dsimp only
  split
  · rename_i positive
    exact inv.move _ _ fresh Progress.noConfusion ⟨inside, done, rfl, ok positive⟩
  · have stopped : Inv job ⟨Function.update state.progress index (.submit stale),
        Function.update state.submitted index (some done), state.bytesTotal, state.blockTotal,
        true⟩ := inv.move _ _ fresh Progress.noConfusion inside
    rwa [← at_submit, Function.update_eq_self] at stopped

/-- A block is counted. -/
theorem Inv.count (inv : Inv job state) (at_count : state.progress index = .count) :
    Inv job ({ state with blockTotal := state.blockTotal + 1 }.setProgress index .counted) := by
  have block := inv.blocks index
  rw [at_count] at block
  have fresh : index ∉ countedBlocks job state := by
    rw [mem_countedBlocks, at_count]
    exact fun counted => Progress.noConfusion counted.2
  have counted : countedBlocks job
      ({ state with blockTotal := state.blockTotal + 1 }.setProgress index .counted) =
        insert index (countedBlocks job state) := by
    ext other
    rw [Finset.mem_insert, mem_countedBlocks, mem_countedBlocks]
    change _ ∧ Function.update state.progress index .counted other = _ ↔ _
    by_cases same : other = index
    · subst same
      rw [Function.update_self]
      exact iff_of_true ⟨block.1, rfl⟩ (.inl rfl)
    · rw [Function.update_of_ne same, or_iff_right same]
  constructor
  · intro other
    by_cases same : other = index
    · subst same
      change (Function.update state.progress other .counted other).Ok job other _
      rw [Function.update_self]
      exact block
    · change (Function.update state.progress index .counted other).Ok job other _
      rw [Function.update_of_ne same]
      exact inv.blocks other
  · rw [counted, Finset.card_insert_of_notMem fresh, ← inv.total]
    rfl

theorem Inv.submit (inv : Inv job state) {result : Int}
    (taken : state.submit job index result = some after) : Inv job after := by
  rw [State.submit] at taken
  split at taken
  · rename_i stale at_submit
    have inside : index < job.blocks := by
      have block := inv.blocks index
      rwa [at_submit] at block
    dsimp only at taken
    split at taken
    · rename_i zeros
      obtain rfl := Option.some.inj taken
      exact inv.verify at_submit fun _ => zero_of_allZero zeros.2
    · obtain ⟨legal, wrote⟩ := Option.ite_none_right_eq_some.mp taken
      obtain rfl := Option.some.inj wrote
      refine inv.verify at_submit fun positive => ⟨write_offset inside stale, ?_⟩
      rcases legal with failed | ⟨some_bytes, -⟩
      · rw [failed] at positive
        exact absurd positive (by decide)
      · exact some_bytes
  · cases taken

theorem Inv.next (inv : Inv job state) {label : Label}
    (taken : ShortWrite.next job state label = some after) : Inv job after := by
  obtain ⟨-, step⟩ := Option.ite_none_left_eq_some.mp taken
  cases label with
  | receive index stale =>
      dsimp only at step
      split at step
      · rename_i at_sent
        obtain ⟨inside, received⟩ := Option.ite_none_right_eq_some.mp step
        obtain rfl := Option.some.inj received
        exact inv.advance _ (by simp [at_sent]) Progress.noConfusion inside
      · cases step
  | submit index result => exact inv.submit step
  | work index =>
      dsimp only at step
      split at step
      · rename_i sz at_size
        obtain rfl := Option.some.inj step
        have block := inv.blocks index
        rw [at_size] at block
        exact inv.advance _ (by simp [at_size]) Progress.noConfusion block
      · rename_i at_count
        obtain rfl := Option.some.inj step
        exact inv.count at_count
      · cases step

theorem inv_reached (reached : (machine job).Reached state) : Inv job state := by
  refine reached.invariant (Inv job) ?_ fun before label after inv _ taken => inv.next taken
  rintro _ rfl
  refine ⟨fun index => trivial, ?_⟩
  simp [countedBlocks, State.init]

end Steps

/-! ## Whole blocks -/

section Whole

variable {state : State}

/-- The place of a byte of a block. -/
theorem address_block {index position : Nat} (inside : position < job.length index) :
    (index * job.block.toNat + position) / job.block.toNat = index := by
  have short : position < job.block.toNat := inside.trans_le (Nat.min_le_left _ _)
  rw [Nat.mul_comm, Nat.mul_add_div job.positive, Nat.div_eq_of_lt short, Nat.add_zero]

/-- A counted block is written exactly as far as `pwrite` has taken it. -/
theorem Inv.written_iff (inv : Inv job state) {index : Nat}
    (counted : state.progress index = .counted) :
    (∀ position < job.length index, Written job state (index * job.block.toNat + position)) ↔
      ∀ offset requested result,
        state.submitted index = some (.pwrite offset requested result) →
          job.length index ≤ result := by
  have block := inv.blocks index
  rw [counted] at block
  obtain ⟨inside, done, submitted, ok⟩ := block
  have written : ∀ position < job.length index,
      (Written job state (index * job.block.toNat + position) ↔
        done.Takes job (index * job.block.toNat + position)) := by
    intro position within
    rw [Written, address_block within]
    simp only [submitted, Option.some.injEq, exists_eq_left']
  have positive := length_pos inside
  cases done with
  | hole =>
      refine iff_of_true
        (fun position within => (written position within).mpr (ok position within)) ?_
      intro offset requested result other
      rw [submitted] at other
      cases other
  | pwrite offset requested result =>
      obtain ⟨offset_eq, some_bytes⟩ := ok
      constructor
      · intro all offset' requested' result' same
        rw [submitted] at same
        cases same
        obtain ⟨-, last⟩ := (written (job.length index - 1) (by omega)).mp (all _ (by omega))
        omega
      · intro whole position within
        have long := whole offset requested result submitted
        exact (written position within).mpr ⟨by omega, by omega⟩

/-- A file that is found complete has all its blocks counted. -/
theorem Inv.all_counted (inv : Inv job state) (complete : job.blocks ≤ state.blockTotal)
    {index : Nat} (inside : index < job.blocks) : state.progress index = .counted := by
  have subset : countedBlocks job state ⊆ Finset.range job.blocks := Finset.filter_subset _ _
  have all : countedBlocks job state = Finset.range job.blocks := by
    refine Finset.eq_of_subset_of_card_le subset ?_
    rw [Finset.card_range, ← inv.total]
    exact complete
  exact (mem_countedBlocks.mp (all ▸ Finset.mem_range.mpr inside)).2

/-- A block of the file is counted with all its bytes exactly if `pwrite` has taken them all. -/
theorem sound_iff_full (reached : (machine job).Reached state) :
    Sound job state ↔ Full job state := by
  have inv := inv_reached reached
  constructor
  · intro sound index counted
    exact (inv.written_iff counted).mp (sound.counted index counted)
  · intro full
    have blocks : ∀ index, state.progress index = .counted → ∀ position < job.length index,
        Written job state (index * job.block.toNat + position) :=
      fun index counted => (inv.written_iff counted).mpr (full index counted)
    refine ⟨blocks, fun complete address inside => ?_⟩
    have split_address := Nat.div_add_mod' address job.block.toNat
    have rest := Nat.mod_lt address job.positive
    have index_inside : address / job.block.toNat < job.blocks := by
      rw [Job.blocks, blockCount, ← Nat.succ_le_iff, Nat.le_div_iff_mul_le job.positive,
        Nat.succ_mul]
      omega
    have within : address % job.block.toNat < job.length (address / job.block.toNat) := by
      rw [Job.length, blockLength]
      omega
    have written := blocks _ (inv.all_counted complete index_inside) _ within
    rwa [split_address] at written

end Whole

/-! ## A file of three bytes -/

/-- A file "abc", which is smaller than a block. -/
def abcJob : Job where
  block := 262144
  size := 3
  content address := if address = 0 then 97 else if address = 1 then 98 else 99
  sparse := false
  positive := by decide
  small := by decide
  fits := by decide

/-- The block of the file, of which `pwrite` takes some bytes. -/
def abcSteps (result : Int) : List Label :=
  [.receive 0 fun _ => 0, .submit 0 result, .work 0, .work 0]

theorem abc_reached (result : Int)
    (ran : ∃ state ∈ (machine abcJob).run State.init (abcSteps result), state.blockTotal = 1 ∧
      state.submitted 0 = some (.pwrite 0 4096 result)) :
    ∃ state, (machine abcJob).Reached state ∧ state.blockTotal = 1 ∧
      state.submitted 0 = some (.pwrite 0 4096 result) := by
  obtain ⟨state, taken, total, submitted⟩ := ran
  exact ⟨state, Machine.reached_of_run rfl _ taken, total, submitted⟩

/-- A whole write is sound. -/
theorem sound_of_whole : ∃ state, (machine abcJob).Reached state ∧ state.blockTotal = 1 ∧
    Sound abcJob state := by
  obtain ⟨state, reached, total, submitted⟩ := abc_reached 4096 (by decide +kernel)
  refine ⟨state, reached, total, (sound_iff_full reached).mpr ?_⟩
  intro index counted offset requested result at_submitted
  have block := (inv_reached reached).blocks index
  rw [counted] at block
  have inside : index < 1 := block.1
  obtain rfl : index = 0 := by omega
  rw [submitted] at at_submitted
  cases at_submitted
  decide

/-- A write of two of the three bytes is counted. -/
theorem not_sound_of_short :
    ¬∀ (job : Job) (state : State), (machine job).Reached state → Sound job state := by
  intro sound
  obtain ⟨state, reached, total, submitted⟩ := abc_reached 2 (by decide +kernel)
  have complete : abcJob.blocks ≤ state.blockTotal := by
    rw [total]
    decide
  obtain ⟨done, at_submitted, takes⟩ := (sound _ _ reached).closed complete 2 (by decide)
  change state.submitted 0 = some done at at_submitted
  obtain rfl := Option.some.inj (submitted.symm.trans at_submitted)
  exact absurd takes.2 (by decide)

end ShortWrite
end EScp
