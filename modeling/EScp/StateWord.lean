import Mathlib.Data.Finset.Basic
import Mathlib.Data.Fintype.Basic
import Mathlib.Tactic

/-!
# The state word of a file table entry

An entry is free, reserved, ready to be claimed, or claimed.  The word of a claimed entry has
`FS_COMPLETE`, a bit for each worker that is attached, and `FS_IO` while further workers may attach.
-/

namespace EScp
namespace StateWord

/-- `FS_INIT`. -/
def fsInit : BitVec 64 := 0xBAEBEE

/-- `FS_IO`, bit 31. -/
def fsIo : BitVec 64 := 1#64 <<< 31

/-- `FS_COMPLETE`, bit 30. -/
def fsComplete : BitVec 64 := 1#64 <<< 30

/-- The word of an entry that `file_addfile` has reserved. -/
def reserved : BitVec 64 := 0xBedFace

/-- Worker numbers stay below the two flags. -/
abbrev Id := Fin 30

instance id_neZero : NeZero 30 := ⟨by decide⟩

/-- `1UL << id`. -/
def idBit (id : Id) : BitVec 64 := 1#64 <<< id.val

/-- The word of a claimed entry: `FS_COMPLETE`, the attached workers, and `FS_IO` if `io`. -/
def Marks (word : BitVec 64) (io : Bool) (ids : Finset Id) : Prop :=
  ∀ bit < 64, word.getLsbD bit =
    (decide (bit = 30) || (decide (bit = 31) && io) || decide (∃ id ∈ ids, bit = id.val))

theorem getLsbD_fsIo (bit : Nat) :
    fsIo.getLsbD bit = decide (bit = 31) := by
  rw [fsIo, ← BitVec.twoPow_eq, BitVec.getLsbD_twoPow]
  simp [eq_comm]

theorem getLsbD_fsComplete (bit : Nat) :
    fsComplete.getLsbD bit = decide (bit = 30) := by
  rw [fsComplete, ← BitVec.twoPow_eq, BitVec.getLsbD_twoPow]
  simp [eq_comm]

theorem getLsbD_idBit (id : Id) (bit : Nat) :
    (idBit id).getLsbD bit = decide (bit = id.val) := by
  have below : id.val < 64 := id.isLt.trans (by decide)
  rw [idBit, ← BitVec.twoPow_eq, BitVec.getLsbD_twoPow]
  simp [eq_comm, below]

variable {word : BitVec 64} {io : Bool} {ids : Finset Id}

/-- The word that the first worker installs. -/
theorem marks_claim (id : Id) : Marks (fsComplete ||| fsIo ||| idBit id) true {id} := by
  intro bit small
  rw [BitVec.getLsbD_or, BitVec.getLsbD_or, getLsbD_fsComplete, getLsbD_fsIo,
    getLsbD_idBit id]
  simp

/-- A worker attaches. -/
theorem Marks.attach (marks : Marks word io ids) (id : Id) :
    Marks (word ||| idBit id) io (insert id ids) := by
  intro bit small
  rw [BitVec.getLsbD_or, marks bit small, getLsbD_idBit id]
  simp only [Finset.mem_insert, exists_eq_or_imp, Bool.decide_or]
  ac_rfl

/-- A worker leaves, and nobody may attach afterwards. -/
theorem Marks.remove (marks : Marks word io ids) (id : Id) :
    Marks (word &&& ~~~(idBit id ||| fsIo)) false (ids.erase id) := by
  intro bit small
  rw [BitVec.getLsbD_and, BitVec.getLsbD_not, BitVec.getLsbD_or, marks bit small,
    getLsbD_idBit id, getLsbD_fsIo]
  have below : ∀ other : Id, other.val ≠ 30 ∧ other.val ≠ 31 := fun other => by omega
  by_cases flag : bit = 30 ∨ bit = 31
  · rcases flag with rfl | rfl
    · simp [(below id).1.symm]
    · have absent : ¬∃ other ∈ ids.erase id, 31 = other.val := by
        rintro ⟨other, -, same⟩
        exact (below other).2 same.symm
      rw [decide_eq_false absent]
      simp
  · obtain ⟨not_complete, not_io⟩ := not_or.mp flag
    by_cases own : bit = id.val
    · have absent : ¬∃ other ∈ ids.erase id, bit = other.val := by
        rintro ⟨other, mem, same⟩
        exact Finset.ne_of_mem_erase mem (Fin.ext (same.symm.trans own))
      rw [decide_eq_false absent, decide_eq_true own]
      simp [not_complete, not_io]
    · have same_ids : (∃ other ∈ ids.erase id, bit = other.val) ↔
          ∃ other ∈ ids, bit = other.val := by
        constructor
        · rintro ⟨other, mem, same⟩
          exact ⟨other, Finset.mem_of_mem_erase mem, same⟩
        · rintro ⟨other, mem, same⟩
          refine ⟨other, Finset.mem_erase.mpr ⟨?_, mem⟩, same⟩
          rintro rfl
          exact own same
      have same_bit : decide (∃ other ∈ ids.erase id, bit = other.val) =
          decide (∃ other ∈ ids, bit = other.val) := decide_eq_decide.mpr same_ids
      rw [same_bit]
      simp [not_complete, not_io, own, small]

theorem Marks.getLsbD_complete (marks : Marks word io ids) : word.getLsbD 30 = true := by
  rw [marks 30 (by decide)]
  simp

theorem Marks.getLsbD_io (marks : Marks word io ids) : word.getLsbD 31 = io := by
  have absent : ¬∃ id ∈ ids, 31 = id.val := by
    rintro ⟨id, -, same⟩
    omega
  rw [marks 31 (by decide)]
  simp [absent]

theorem Marks.getLsbD_id (marks : Marks word io ids) (id : Id) :
    word.getLsbD id.val = decide (id ∈ ids) := by
  have below : id.val < 64 := id.isLt.trans (by decide)
  have own : (∃ other ∈ ids, id.val = other.val) ↔ id ∈ ids := by
    constructor
    · rintro ⟨other, mem, same⟩
      rwa [Fin.ext same]
    · exact fun mem => ⟨id, mem, rfl⟩
  rw [marks id.val below]
  simp [own, show id.val ≠ 30 by omega, show id.val ≠ 31 by omega]

/-- The test of `FS_IO`. -/
theorem and_fsIo (word : BitVec 64) : word &&& fsIo ≠ 0 ↔ word.getLsbD 31 = true := by
  constructor
  · intro nonzero
    by_contra clear
    refine nonzero (BitVec.eq_of_getLsbD_eq fun bit small => ?_)
    rw [BitVec.getLsbD_and, getLsbD_fsIo]
    by_cases same : bit = 31
    · rw [same, Bool.eq_false_of_not_eq_true clear]
      rfl
    · simp [same]
  · intro set none
    have zero : (word &&& fsIo).getLsbD 31 = false := by rw [none]; rfl
    rw [BitVec.getLsbD_and, getLsbD_fsIo, set] at zero
    simp at zero

theorem Marks.and_fsIo (marks : Marks word io ids) : word &&& fsIo ≠ 0 ↔ io = true := by
  rw [StateWord.and_fsIo, marks.getLsbD_io]

/-- The word is `FS_COMPLETE` when the last worker has left. -/
theorem Marks.eq_fsComplete_iff (marks : Marks word io ids) :
    word = fsComplete ↔ io = false ∧ ids = ∅ := by
  constructor
  · rintro rfl
    refine ⟨marks.getLsbD_io.symm.trans (by decide), Finset.eq_empty_of_forall_notMem ?_⟩
    intro id mem
    have set := marks.getLsbD_id id
    rw [getLsbD_fsComplete, decide_eq_true mem] at set
    have same := of_decide_eq_true set
    omega
  · rintro ⟨rfl, rfl⟩
    refine BitVec.eq_of_getLsbD_eq fun bit small => ?_
    rw [marks bit small, getLsbD_fsComplete]
    simp

theorem marks_fsComplete : Marks fsComplete false ∅ := by
  intro bit small
  rw [getLsbD_fsComplete]
  simp

/-- A claimed entry is not free, reserved or ready. -/
theorem Marks.claimed (marks : Marks word io ids) :
    word ≠ 0 ∧ word ≠ reserved ∧ word ≠ fsInit := by
  have set := marks.getLsbD_complete
  refine ⟨?_, ?_, ?_⟩ <;>
  · rintro rfl
    revert set
    decide

end StateWord
end EScp
