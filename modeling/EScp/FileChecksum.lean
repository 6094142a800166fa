import EScp.FileTable
import Mathlib.Data.Finset.Fold

/-!
# The checksum of a file

On both ends the workers fold the first word of the hash of each block into `crc` of the entry.  The
sender passes that member on with `fc_push`.  The receiver reads it on the Rust side, in
`close_file`.
-/

namespace EScp
namespace FileChecksum

open Layout FileTable

/-- How far a worker is with a block, in `rx_worker` as in `submit_work`. -/
inductive Stage where
  | arrived
  /-- The hash is folded into `crc`. -/
  | hashed
  /-- `bytes_total` is updated. -/
  | sized
  /-- `block_total` is updated. -/
  | counted
deriving DecidableEq

variable {Block : Type*}

/-- The entry of a file, and its blocks. -/
structure State (Block : Type*) where
  stat : FileStat
  stages : Block → Stage

/-- One step. -/
inductive Label (Block : Type*) where
  /-- A worker finds the file, in `file_wait` or `file_next`. -/
  | attach (word : BitVec 64)
  /-- The worker that has a block takes its next step. -/
  | work (block : Block) (sz : Nat)

/-- `((uint32_t*) hash)[0]`. -/
def firstWord (digest : List UInt8) : BitVec 32 :=
  BitVec.ofNat 32 (load (fun index => digest.getD index 0) 0 4)

/-- The exclusive or of words. -/
def xorWord (left right : BitVec 32) : BitVec 32 := left ^^^ right

instance : Std.Commutative xorWord := ⟨BitVec.xor_comm⟩

instance : Std.Associative xorWord := ⟨BitVec.xor_assoc⟩

variable [DecidableEq Block] (fileHash : List UInt8 → List UInt8) (content : Block → List UInt8)

/-- The word that a block contributes. -/
def word (block : Block) : BitVec 32 := firstWord (fileHash (content block))

/-- One step of the worker that has a block, with `do_hash` set. -/
def State.work (state : State Block) (block : Block) (sz : Nat) : Option (State Block) :=
  match state.stages block with
  | .arrived =>
      some ⟨{ state.stat with crc := state.stat.crc ^^^ word fileHash content block },
        Function.update state.stages block .hashed⟩
  | .hashed =>
      some ⟨{ state.stat with bytesTotal := state.stat.bytesTotal + sz },
        Function.update state.stages block .sized⟩
  | .sized =>
      some ⟨{ state.stat with blockTotal := state.stat.blockTotal + 1 },
        Function.update state.stages block .counted⟩
  | .counted => none

section Work

variable {fileHash content} {state : State Block} {block : Block}

theorem State.work_arrived (arrived : state.stages block = .arrived) (sz : Nat) :
    state.work fileHash content block sz =
      some ⟨{ state.stat with crc := state.stat.crc ^^^ word fileHash content block },
        Function.update state.stages block .hashed⟩ := by
  rw [State.work, arrived]

theorem State.work_hashed (hashed : state.stages block = .hashed) (sz : Nat) :
    state.work fileHash content block sz =
      some ⟨{ state.stat with bytesTotal := state.stat.bytesTotal + sz },
        Function.update state.stages block .sized⟩ := by
  rw [State.work, hashed]

theorem State.work_sized (sized : state.stages block = .sized) (sz : Nat) :
    state.work fileHash content block sz =
      some ⟨{ state.stat with blockTotal := state.stat.blockTotal + 1 },
        Function.update state.stages block .counted⟩ := by
  rw [State.work, sized]

end Work

/-- One step. -/
def next (state : State Block) : Label Block → Option (State Block)
  | .attach word => some { state with stat := { state.stat with state := word } }
  | .work block sz => state.work fileHash content block sz

/-- The workers of one end, from `file_addfile` with offset and read limit 0 on. -/
def machine : Machine (State Block) (Label Block) where
  initial state := ∃ fileno fd slot, state = ⟨newStat fileno fd slot, fun _ => .arrived⟩
  next := next fileHash content

/-- The crc that `close_file` reports for a file of `blocks` blocks, when it is complete. -/
def State.closeFile (state : State Block) (blocks : Nat) : Option Nat :=
  if state.stat.rustValue .blockTotal < blocks then none else some (state.stat.rustValue .crc)

/-- The crc that `submit_work` gives to `fc_push`. -/
def State.fcPush (state : State Block) : Nat := load state.stat.image (workerOffset .crc) 4

variable [Fintype Block]

/-- The exclusive or of the words of all blocks. -/
def checksum : BitVec 32 :=
  Finset.univ.fold xorWord 0 (word fileHash content)

/-- The blocks that are past a stage. -/
def State.past (state : State Block) (stages : List Stage) : Finset Block :=
  Finset.univ.filter fun block => state.stages block ∈ stages

/-- The entry tells how far the blocks are. -/
structure Inv (state : State Block) : Prop where
  crc : state.stat.crc =
    (state.past [.hashed, .sized, .counted]).fold xorWord 0 (word fileHash content)
  blockTotal : state.stat.blockTotal = (state.past [.counted]).card
  readLimit : state.stat.readLimit = 0

variable {fileHash content} {state after : State Block}

omit [DecidableEq Block] in
theorem mem_past {stages : List Stage} {block : Block} :
    block ∈ state.past stages ↔ state.stages block ∈ stages := by
  simp [State.past]

theorem past_update (stat : FileStat) (block : Block) (stage : Stage) (stages : List Stage) :
    (⟨stat, Function.update state.stages block stage⟩ : State Block).past stages =
      if stage ∈ stages then insert block (state.past stages)
      else (state.past stages).erase block := by
  ext other
  by_cases same : other = block
  · subst same
    split <;> simp [mem_past, *]
  · split <;> simp [mem_past, same]

omit [DecidableEq Block] in
theorem notMem_past {stage : Stage} {stages : List Stage} {block : Block}
    (at_stage : state.stages block = stage) (absent : stage ∉ stages) :
    block ∉ state.past stages := by
  rwa [mem_past, at_stage]

/-- A block moves between two stages that are both counted or both not. -/
theorem past_update_same {old stage : Stage} {stages : List Stage} {block : Block}
    (stat : FileStat) (at_stage : state.stages block = old) (same : stage ∈ stages ↔ old ∈ stages) :
    (⟨stat, Function.update state.stages block stage⟩ : State Block).past stages =
      state.past stages := by
  rw [past_update]
  split
  · rename_i counted
    exact Finset.insert_eq_of_mem (mem_past.mpr (at_stage ▸ same.mp counted))
  · rename_i absent
    exact Finset.erase_eq_of_notMem (notMem_past at_stage fun mem => absent (same.mpr mem))

theorem Inv.work (inv : Inv fileHash content state) {block : Block} {sz : Nat}
    (taken : state.work fileHash content block sz = some after) : Inv fileHash content after := by
  cases at_stage : state.stages block with
  | arrived =>
      rw [State.work_arrived at_stage] at taken
      obtain rfl := Option.some.inj taken
      have fresh : block ∉ state.past [.hashed, .sized, .counted] :=
        notMem_past at_stage (by decide)
      refine ⟨?_, ?_, inv.readLimit⟩
      · rw [past_update, if_pos (by decide), Finset.fold_insert fresh, inv.crc]
        exact BitVec.xor_comm _ _
      · rw [past_update_same _ at_stage (by decide)]
        exact inv.blockTotal
  | hashed =>
      rw [State.work_hashed at_stage] at taken
      obtain rfl := Option.some.inj taken
      refine ⟨?_, ?_, inv.readLimit⟩
      · rw [past_update_same _ at_stage (by decide)]
        exact inv.crc
      · rw [past_update_same _ at_stage (by decide)]
        exact inv.blockTotal
  | sized =>
      rw [State.work_sized at_stage] at taken
      obtain rfl := Option.some.inj taken
      have fresh : block ∉ state.past [.counted] := notMem_past at_stage (by decide)
      refine ⟨?_, ?_, inv.readLimit⟩
      · rw [past_update_same _ at_stage (by decide)]
        exact inv.crc
      · rw [past_update, if_pos (by decide), Finset.card_insert_of_notMem fresh, ← inv.blockTotal]
  | counted => simp [State.work, at_stage] at taken

omit [DecidableEq Block] in
theorem Inv.attach (inv : Inv fileHash content state) (word : BitVec 64) :
    Inv fileHash content { state with stat := { state.stat with state := word } } :=
  ⟨inv.crc, inv.blockTotal, inv.readLimit⟩

omit [DecidableEq Block] in
theorem inv_newStat (fileno : Nat) (fd : Int) (slot : Nat) :
    Inv fileHash content ⟨newStat fileno fd slot, fun _ => .arrived⟩ := by
  have none : ∀ stages : List Stage, .arrived ∉ stages →
      (⟨newStat fileno fd slot, fun _ => .arrived⟩ : State Block).past stages = ∅ := by
    intro stages absent
    refine Finset.eq_empty_of_forall_notMem fun block mem => ?_
    rw [mem_past] at mem
    exact absent mem
  refine ⟨?_, ?_, rfl⟩
  · rw [none _ (by decide)]
    rfl
  · rw [none _ (by decide)]
    rfl

omit [DecidableEq Block] in
/-- When all blocks are counted, the entry has their checksum and their number. -/
theorem Inv.settled (inv : Inv fileHash content state)
    (counted : ∀ block, state.stages block = .counted) :
    state.stat.crc = checksum fileHash content ∧ state.stat.blockTotal = Fintype.card Block := by
  have all : ∀ stages : List Stage, .counted ∈ stages → state.past stages = Finset.univ := by
    intro stages mem
    refine Finset.eq_univ_iff_forall.mpr fun block => ?_
    rwa [mem_past, counted block]
  constructor
  · rw [inv.crc, all _ (by decide), checksum]
  · rw [inv.blockTotal, all _ (by decide), Finset.card_univ]

theorem inv_reached (reached : (machine fileHash content).Reached state) :
    Inv fileHash content state := by
  refine reached.invariant (Inv fileHash content) ?_ fun before label _ inv _ taken => ?_
  · rintro _ ⟨fileno, fd, slot, rfl⟩
    exact inv_newStat fileno fd slot
  · cases label with
    | attach word =>
        obtain rfl := Option.some.inj taken
        exact inv.attach word
    | work block sz => exact inv.work taken

/-- What the sender reports when all blocks are hashed is the checksum. -/
theorem fcPush_eq (reached : (machine fileHash content).Reached state)
    (sent : ∀ block, state.stages block = .counted) :
    state.fcPush = (checksum fileHash content).toNat := by
  have stored := state.stat.load_image .crc
  rw [State.fcPush]
  refine stored.trans ?_
  rw [FileStat.value, ((inv_reached reached).settled sent).1]
  exact Nat.mod_eq_of_lt (checksum fileHash content).isLt

/-- `close_file` reports 0. -/
theorem closeFile_eq (reached : (machine fileHash content).Reached state) {blocks crc : Nat}
    (closed : state.closeFile blocks = some crc) : crc = 0 := by
  obtain ⟨-, crc_eq⟩ := Option.ite_none_left_eq_some.mp closed
  rw [FileStat.rustValue_crc, (inv_reached reached).readLimit] at crc_eq
  exact (Option.some.inj crc_eq).symm

/-- The crc that the receiver reports is the one the sender compares it with, exactly if the words
of all blocks cancel. -/
theorem agrees_iff {sender : State Block} {crc : Nat}
    (reached : (machine fileHash content).Reached state)
    (closed : state.closeFile (Fintype.card Block) = some crc)
    (sender_reached : (machine fileHash content).Reached sender)
    (sent : ∀ block, sender.stages block = .counted) :
    (crc = (checksum fileHash content).toNat ∧ crc = sender.fcPush) ↔
      checksum fileHash content = 0 := by
  rw [fcPush_eq sender_reached sent, and_self, closeFile_eq reached closed]
  constructor
  · intro zero
    exact BitVec.eq_of_toNat_eq zero.symm
  · intro zero
    rw [zero]
    rfl

/-! ## A file of one block -/

/-- The hash of the block "abc", and zeros for any other block. -/
def abcHash (block : List UInt8) : List UInt8 :=
  if block = [97, 98, 99] then
    [100, 55, 179, 172, 56, 70, 81, 51, 255, 182, 59, 117, 39, 58, 141, 181, 72, 197, 88, 70, 93,
      121, 219, 3, 253, 53, 156, 108, 213, 189, 157, 133]
  else List.replicate 32 0

/-- The blocks of a file that has one. -/
def oneBlock (block : List UInt8) : Unit → List UInt8 := fun _ => block

/-- The entry of the file when its block, whose hash begins with `crc`, is done. -/
def doneStat (fd : Int) (block : List UInt8) (crc : BitVec 32) : FileStat :=
  { newStat 1 fd 1 with crc := crc, bytesTotal := block.length, blockTotal := 1 }

theorem done_reached (fd : Int) (block : List UInt8) :
    (machine abcHash (oneBlock block)).Reached
      ⟨doneStat fd block (word abcHash (oneBlock block) ()), fun _ => .counted⟩ := by
  refine Machine.reached_of_run ⟨1, fd, 1, rfl⟩
    [.work () block.length, .work () block.length, .work () block.length] ?_
  have last : Function.update (fun _ : Unit => Stage.arrived) () .counted = fun _ => .counted :=
    funext fun _ => Function.update_self () _ _
  simp [machine, next, State.work, doneStat, newStat, FileStat.zero, last]

theorem checksum_oneBlock (block : List UInt8) :
    checksum abcHash (oneBlock block) = word abcHash (oneBlock block) () := by
  rw [checksum, Finset.univ_unique, Finset.fold_singleton]
  exact BitVec.xor_zero

/-- The block "abc" is reported with 0 by the receiver. -/
theorem agrees_iff_abc :
    (0 = (checksum abcHash (oneBlock [97, 98, 99])).toNat ∧
      0 = (⟨doneStat 4 [97, 98, 99] 0xacb33764, fun _ => .counted⟩ : State Unit).fcPush) ↔
      checksum abcHash (oneBlock [97, 98, 99]) = 0 :=
  agrees_iff (done_reached 3 [97, 98, 99]) rfl (done_reached 4 [97, 98, 99]) fun _ => rfl

/-- The receiver's crc is not what the sender has. -/
theorem not_agrees_of_reached :
    ¬∀ (state sender : State Unit) (crc : Nat),
      (machine abcHash (oneBlock [97, 98, 99])).Reached state →
      state.closeFile 1 = some crc →
      (machine abcHash (oneBlock [97, 98, 99])).Reached sender →
      (∀ block, sender.stages block = .counted) →
      crc = (checksum abcHash (oneBlock [97, 98, 99])).toNat ∧ crc = sender.fcPush := by
  intro agrees
  have closed : (⟨doneStat 3 [97, 98, 99] (word abcHash (oneBlock [97, 98, 99]) ()),
      fun _ => .counted⟩ : State Unit).closeFile 1 = some 0 := rfl
  obtain ⟨zero, -⟩ := agrees _ _ 0 (done_reached 3 [97, 98, 99]) closed
    (done_reached 4 [97, 98, 99]) fun _ => rfl
  rw [checksum_oneBlock] at zero
  exact absurd zero (by decide)

end FileChecksum
end EScp
