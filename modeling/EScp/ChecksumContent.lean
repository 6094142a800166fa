import EScp.FileChecksum

/-!
# What equal checksums tell

`crc` is the exclusive or of one word for each block.  It forgets offsets and the order of the
blocks, and equal contents cancel.  What is left is the set of contents that occur an odd number of
times, and the sender counts a file when the words of that set cancel.
-/

namespace EScp
namespace ChecksumContent

open FileChecksum

/-- A block that one of the two ends has hashed. -/
structure FileBlock where
  offset : Nat
  content : List UInt8
deriving DecidableEq

variable (fileHash : List UInt8 → List UInt8)

/-- `atomic_fetch_xor` of the first word of the hash. -/
def fetchXor (crc : BitVec 32) (block : FileBlock) : BitVec 32 :=
  crc ^^^ word fileHash FileBlock.content block

/-- The member `crc` of an entry when the blocks are hashed. -/
def accumulated (blocks : List FileBlock) : BitVec 32 := blocks.foldl (fetchXor fileHash) 0

/-- `handle_msg_from_receiver` counts the file. -/
def Counted (sent received : List FileBlock) : Prop :=
  accumulated fileHash sent = accumulated fileHash received

/-- The word of a content. -/
def contentWord (content : List UInt8) : BitVec 32 := firstWord (fileHash content)

/-- The contents that occur an odd number of times. -/
def oddContents : List FileBlock → Finset (List UInt8)
  | [] => ∅
  | block :: blocks =>
      if block.content ∈ oddContents blocks then (oddContents blocks).erase block.content
      else insert block.content (oddContents blocks)

/-- The contents of the blocks of two lists. -/
def contents (sent received : List FileBlock) : Set (List UInt8) :=
  { content | ∃ block ∈ sent ++ received, block.content = content }

variable {fileHash}

/-! ## The fold -/

theorem zero_xor (crc : BitVec 32) : 0 ^^^ crc = crc := BitVec.zero_xor

theorem foldl_fetchXor (crc : BitVec 32) (blocks : List FileBlock) :
    blocks.foldl (fetchXor fileHash) crc = crc ^^^ accumulated fileHash blocks := by
  induction blocks generalizing crc with
  | nil => exact (BitVec.xor_zero).symm
  | cons block blocks ih =>
      rw [accumulated, List.foldl_cons, List.foldl_cons, ih, ih (fetchXor fileHash 0 block)]
      rw [fetchXor, fetchXor, zero_xor, BitVec.xor_assoc]

theorem accumulated_cons (block : FileBlock) (blocks : List FileBlock) :
    accumulated fileHash (block :: blocks) =
      contentWord fileHash block.content ^^^ accumulated fileHash blocks := by
  rw [accumulated, List.foldl_cons, foldl_fetchXor, fetchXor, zero_xor]
  rfl

theorem accumulated_append (sent received : List FileBlock) :
    accumulated fileHash (sent ++ received) =
      accumulated fileHash sent ^^^ accumulated fileHash received := by
  rw [accumulated, List.foldl_append, foldl_fetchXor]
  rfl

/-- The order of the blocks and their offsets do not matter. -/
theorem accumulated_perm {blocks : List FileBlock} {others : List (List UInt8)}
    (perm : (blocks.map FileBlock.content).Perm others) :
    accumulated fileHash blocks =
      others.foldr (fun content crc => contentWord fileHash content ^^^ crc) 0 := by
  have in_order : accumulated fileHash blocks = (blocks.map FileBlock.content).foldr
      (fun content crc => contentWord fileHash content ^^^ crc) 0 := by
    clear perm
    induction blocks with
    | nil => rfl
    | cons block blocks ih => rw [accumulated_cons, ih, List.map_cons, List.foldr_cons]
  rw [in_order]
  refine perm.foldr_eq' (fun first _ second _ crc => ?_) 0
  rw [← BitVec.xor_assoc, ← BitVec.xor_assoc, BitVec.xor_comm (contentWord fileHash second)]

/-- Contents that occur twice cancel. -/
theorem accumulated_eq_fold (blocks : List FileBlock) : accumulated fileHash blocks =
    (oddContents blocks).fold xorWord 0 (contentWord fileHash) := by
  induction blocks with
  | nil => rfl
  | cons block blocks ih =>
      rw [accumulated_cons, ih, oddContents]
      split
      · rename_i odd
        have taken_out : (oddContents blocks).fold xorWord 0 (contentWord fileHash) =
            contentWord fileHash block.content ^^^
              ((oddContents blocks).erase block.content).fold xorWord 0 (contentWord fileHash) := by
          refine Eq.trans ?_ (Finset.fold_insert (Finset.notMem_erase block.content _))
          rw [Finset.insert_erase odd]
        rw [taken_out, ← BitVec.xor_assoc, BitVec.xor_self]
        exact zero_xor _
      · rename_i even
        exact (Finset.fold_insert even).symm

theorem counted_iff_accumulated (sent received : List FileBlock) :
    Counted fileHash sent received ↔ accumulated fileHash (sent ++ received) = 0 := by
  rw [Counted, accumulated_append]
  exact BitVec.xor_eq_zero_iff.symm

/-- `oddContents` is the set of contents with an odd number of occurrences. -/
theorem mem_oddContents {blocks : List FileBlock} {content : List UInt8} :
    content ∈ oddContents blocks ↔ Odd ((blocks.map FileBlock.content).count content) := by
  induction blocks with
  | nil => simp [oddContents]
  | cons block blocks ih =>
      rw [oddContents, List.map_cons, List.count_cons]
      by_cases same : block.content = content
      · subst same
        rw [beq_self_eq_true, if_pos rfl, Nat.odd_add_one, ← ih]
        split
        · rename_i odd
          exact iff_of_false (Finset.notMem_erase _ _) (not_not.mpr odd)
        · rename_i even
          exact iff_of_true (Finset.mem_insert_self _ _) even
      · rw [beq_false_of_ne same, if_neg Bool.false_ne_true, Nat.add_zero, ← ih]
        split
        · rw [Finset.mem_erase, and_iff_right (Ne.symm same)]
        · rw [Finset.mem_insert, or_iff_right (Ne.symm same)]

theorem contents_of_odd {sent received : List FileBlock} {content : List UInt8}
    (odd : content ∈ oddContents (sent ++ received)) : content ∈ contents sent received := by
  have occurs := List.count_pos_iff.mp (mem_oddContents.mp odd).pos
  exact List.mem_map.mp occurs

section Entry

variable {Block : Type*} [DecidableEq Block] {content : Block → List UInt8}

omit [DecidableEq Block] in
/-- Hashing a set of blocks, in any order. -/
theorem accumulated_toList (offset : Block → Nat) (blocks : Finset Block) :
    accumulated fileHash (blocks.toList.map fun block => ⟨offset block, content block⟩) =
      blocks.fold xorWord 0 (word fileHash content) := by
  have words : (blocks.val.map (word fileHash content)).fold xorWord 0 =
      (blocks.toList.map (word fileHash content)).foldr xorWord 0 := by
    rw [← Finset.coe_toList, Multiset.map_coe, Multiset.coe_fold_r]
  rw [Finset.fold, words, accumulated_perm (List.Perm.refl _), List.map_map, List.foldr_map,
    List.foldr_map]
  rfl

/-- The entry of a file has what its hashed blocks accumulate. -/
theorem crc_of_reached [Fintype Block] {state : FileChecksum.State Block}
    (reached : (machine fileHash content).Reached state) (offset : Block → Nat) :
    state.stat.crc = accumulated fileHash
      ((state.past [.hashed, .sized, .counted]).toList.map fun block =>
        ⟨offset block, content block⟩) := by
  rw [accumulated_toList]
  exact (inv_reached reached).crc

end Entry

/-! ## What is told -/

/-- What the comparison of the two values of `crc` tells about the two lists. -/
structure Tells (fileHash : List UInt8 → List UInt8) (sent received : List FileBlock) : Prop where
  /-- The file is counted exactly if the words of the odd contents cancel. -/
  cancel : Counted fileHash sent received ↔
    (oddContents (sent ++ received)).fold xorWord 0 (contentWord fileHash) = 0
  /-- A single odd content is missed only if its word is 0. -/
  one : ∀ content, Counted fileHash sent received →
    oddContents (sent ++ received) = {content} → contentWord fileHash content = 0
  /-- Two odd contents do not cancel. -/
  two : Counted fileHash sent received → (oddContents (sent ++ received)).card ≠ 2
  /-- A block that is changed is seen. -/
  changed : ∀ (shared : List (List UInt8)) (first second : List UInt8),
    (sent.map FileBlock.content).Perm (first :: shared) →
    (received.map FileBlock.content).Perm (second :: shared) →
    (Counted fileHash sent received ↔ first = second)

/-- The comparison sees what does not cancel. -/
theorem tells_of_injOn {sent received : List FileBlock}
    (injective : Set.InjOn (contentWord fileHash) (contents sent received)) :
    Tells fileHash sent received := by
  have cancel : Counted fileHash sent received ↔
      (oddContents (sent ++ received)).fold xorWord 0 (contentWord fileHash) = 0 := by
    rw [counted_iff_accumulated, accumulated_eq_fold]
  constructor
  · exact cancel
  · intro content counted single
    rw [cancel, single, Finset.fold_singleton] at counted
    exact (BitVec.xor_zero).symm.trans counted
  · intro counted pair
    obtain ⟨first, second, ne, both⟩ := Finset.card_eq_two.mp pair
    rw [cancel, both, Finset.fold_insert (Finset.notMem_singleton.mpr ne),
      Finset.fold_singleton] at counted
    have words : contentWord fileHash first = contentWord fileHash second :=
      (BitVec.xor_eq_zero_iff.mp counted).trans BitVec.xor_zero
    refine ne (injective (contents_of_odd ?_) (contents_of_odd ?_) words)
    · exact both ▸ Finset.mem_insert_self ..
    · exact both ▸ Finset.mem_insert_of_mem (Finset.mem_singleton_self _)
  · intro shared first second sent_perm received_perm
    have first_mem : first ∈ contents sent received := by
      obtain ⟨block, mem, content⟩ :=
        List.mem_map.mp (sent_perm.mem_iff.mpr List.mem_cons_self)
      exact ⟨block, List.mem_append_left _ mem, content⟩
    have second_mem : second ∈ contents sent received := by
      obtain ⟨block, mem, content⟩ :=
        List.mem_map.mp (received_perm.mem_iff.mpr List.mem_cons_self)
      exact ⟨block, List.mem_append_right _ mem, content⟩
    rw [Counted, accumulated_perm sent_perm, accumulated_perm received_perm, List.foldr_cons,
      List.foldr_cons, BitVec.xor_left_inj]
    exact injective.eq_iff first_mem second_mem

/-! ## A file of two equal blocks -/

/-- Both blocks of a file are "abc". -/
def twiceAbc : List FileBlock := [⟨0, [97, 98, 99]⟩, ⟨3, [97, 98, 99]⟩]

/-- The receiver has put the second block over the first. -/
def misplacedAbc : List FileBlock := [⟨0, [97, 98, 99]⟩, ⟨0, [97, 98, 99]⟩]

theorem abc_of_mem {content : List UInt8} (mem : content ∈ contents twiceAbc misplacedAbc) :
    content = [97, 98, 99] := by
  obtain ⟨block, among, rfl⟩ := mem
  have all : ∀ block ∈ twiceAbc ++ misplacedAbc, block.content = [97, 98, 99] := by decide
  exact all block among

theorem injOn_abc : Set.InjOn (contentWord abcHash) (contents twiceAbc misplacedAbc) :=
  fun _ first _ second _ => (abc_of_mem first).trans (abc_of_mem second).symm

theorem tells_abc : Tells abcHash twiceAbc misplacedAbc := tells_of_injOn injOn_abc

/-- Equal values of `crc` do not make the two sets of blocks equal. -/
theorem not_same_of_counted :
    ¬∀ (fileHash : List UInt8 → List UInt8) (sent received : List FileBlock),
      Set.InjOn (contentWord fileHash) (contents sent received) →
      Counted fileHash sent received → ∀ block, block ∈ sent ↔ block ∈ received := by
  intro same
  have counted : accumulated abcHash twiceAbc = accumulated abcHash misplacedAbc := by decide
  have misplaced := (same abcHash twiceAbc misplacedAbc injOn_abc counted ⟨3, [97, 98, 99]⟩).mp
    (by decide)
  exact absurd misplaced (by decide)

end ChecksumContent
end EScp
