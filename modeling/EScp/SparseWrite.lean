import EScp.BlockWrites

/-!
# Sparse writing

With `fob->sparse` set `file_posixsubmit` does not write a block in which `memcmp_zero` finds
nothing, padding included, and a hole is left where the block would be.  `memcmp_zero` as it is
compiled for AVX tests four vectors of 16 bytes at a time.
-/

namespace EScp
namespace SparseWrite

open Layout BlockWrites

/-! ## The code -/

/-- `_mm_load_si128`. -/
def loadSi128 (buffer : Memory) (address : Nat) : BitVec 128 :=
  BitVec.ofNat 128 (load buffer address 16)

/-- `_mm_test_all_ones`: the complement has no bit in common with a vector of ones. -/
def testAllOnes (vector : BitVec 128) : Bool := decide (~~~vector &&& BitVec.allOnes 128 = 0)

/-- `memcmp_zero`, in its loop at `offset`. -/
def memcmpZero (dst : Memory) (sz offset : Nat) : Nat :=
  if offset < sz then
    let a := loadSi128 dst offset
    let b := loadSi128 dst (offset + 16)
    let c := loadSi128 dst (offset + 32)
    let d := loadSi128 dst (offset + 48)
    let res := testAllOnes (~~~a)
    let res := res && testAllOnes (~~~b)
    let res := res && testAllOnes (~~~c)
    let res := res && testAllOnes (~~~d)
    if !res then 1 else memcmpZero dst sz (offset + 64)
  else 0
termination_by sz - offset

/-- `file_posixsubmit` on the receiver, when `pwrite` takes all it is given: what is reported as
written, and the file. -/
def filePosixsubmit (sparse : Bool) (op : Write) (file : File) : Nat × File :=
  if sparse ∧ memcmpZero op.data op.size 0 = 0 then (op.size, file) else (op.size, file.pwrite op)

/-- The file after one operation after another. -/
def submitAll (sparse : Bool) (ops : List Write) : File :=
  ops.foldl (fun file op => (filePosixsubmit sparse op file).2) File.empty

/-- The file after all arrivals, closed by `close_file`. -/
def received (sparse : Bool) (block : BitVec 32) (size : Nat) (content : Nat → UInt8)
    (arrivals : List Arrival) : File :=
  (submitAll sparse (arrivals.map fun arrival => arrival.write block size content)).truncate size

/-! ## The test for zeros -/

theorem testAllOnes_not (vector : BitVec 128) : testAllOnes (~~~vector) = true ↔ vector = 0 := by
  rw [testAllOnes, decide_eq_true_eq, BitVec.not_not, BitVec.and_allOnes]

theorem loadSi128_eq_zero_iff (buffer : Memory) (address : Nat) :
    loadSi128 buffer address = 0 ↔
      ∀ position, address ≤ position → position < address + 16 → buffer position = 0 := by
  have fits := load_lt buffer address 16
  have zeros := load_eq_iff buffer (fun _ => 0) address 16
  rw [load_zero] at zeros
  rw [← zeros, loadSi128, ← BitVec.toNat_inj, BitVec.toNat_ofNat, Nat.mod_eq_of_lt (by omega)]
  rfl

/-- A round of the loop tests 64 bytes. -/
theorem memcmpZero_round (dst : Memory) (offset : Nat) :
    (testAllOnes (~~~loadSi128 dst offset) && testAllOnes (~~~loadSi128 dst (offset + 16)) &&
      testAllOnes (~~~loadSi128 dst (offset + 32)) &&
        testAllOnes (~~~loadSi128 dst (offset + 48))) = true ↔
      ∀ position, offset ≤ position → position < offset + 64 → dst position = 0 := by
  simp only [Bool.and_eq_true, testAllOnes_not, loadSi128_eq_zero_iff]
  constructor
  · rintro ⟨⟨⟨first, second⟩, third⟩, fourth⟩ position low high
    rcases Nat.lt_or_ge position (offset + 16) with in_first | past_first
    · exact first position low in_first
    · rcases Nat.lt_or_ge position (offset + 32) with in_second | past_second
      · exact second position past_first in_second
      · rcases Nat.lt_or_ge position (offset + 48) with in_third | past_third
        · exact third position past_second in_third
        · exact fourth position past_third (by omega)
  · intro zeros
    refine ⟨⟨⟨?_, ?_⟩, ?_⟩, ?_⟩ <;>
      exact fun position low high => zeros position (by omega) (by omega)

/-- `memcmp_zero` is exact on whole rounds. -/
theorem memcmpZero_eq_zero_iff (dst : Memory) {sz offset : Nat} (rounds : 64 ∣ sz - offset) :
    memcmpZero dst sz offset = 0 ↔
      ∀ position, offset ≤ position → position < sz → dst position = 0 := by
  fun_induction memcmpZero dst sz offset with
  | case1 offset more a b c d res₁ res₂ res₃ res₄ found =>
      have round := memcmpZero_round dst offset
      refine iff_of_false Nat.one_ne_zero fun zeros => ?_
      have clear := round.mpr fun position low high => zeros position low (by omega)
      rw [Bool.not_eq_true'] at found
      exact absurd (clear.symm.trans found) (by decide)
  | case2 offset more a b c d res₁ res₂ res₃ res₄ clear ih =>
      have round := memcmpZero_round dst offset
      rw [Bool.not_eq_true', Bool.not_eq_false] at clear
      rw [ih (by omega)]
      constructor
      · intro zeros position low high
        rcases Nat.lt_or_ge position (offset + 64) with here | past
        · exact round.mp clear position low here
        · exact zeros position past high
      · exact fun zeros position low high => zeros position (by omega) high
  | case3 offset done =>
      exact iff_of_true rfl fun position low high => by omega

/-! ## Holes -/

section Holes

variable (sparse : Bool) {op : Write} {file : File} {address : Nat}

theorem bytes_of_not_covers (outside : ¬op.Covers address) :
    (filePosixsubmit sparse op file).2.bytes address = file.bytes address := by
  rw [filePosixsubmit]
  split
  · rfl
  · exact if_neg outside

/-- A block may be left out only where the file is still empty. -/
theorem bytes_of_covers (rounds : 64 ∣ op.size) (covers : op.Covers address)
    (empty : op.data (address - op.offset) = 0 → file.bytes address = 0) :
    (filePosixsubmit sparse op file).2.bytes address = op.data (address - op.offset) := by
  rw [filePosixsubmit]
  split
  · rename_i hole
    have zeros := (memcmpZero_eq_zero_iff op.data rounds).mp hole.2
    obtain ⟨low, high⟩ := covers
    have zero := zeros (address - op.offset) (Nat.zero_le _) (by omega)
    exact (empty zero).trans zero.symm
  · exact if_pos covers

/-- An address holds the byte on which all operations that cover it agree, or else nothing. -/
theorem bytes_submitAll {ops : List Write} {value : UInt8} (rounds : ∀ op ∈ ops, 64 ∣ op.size)
    (agree : ∀ op ∈ ops, op.Covers address → op.data (address - op.offset) = value) :
    (submitAll sparse ops).bytes address = if ∃ op ∈ ops, op.Covers address then value else 0 := by
  induction ops using List.reverseRecOn with
  | nil => simp [submitAll, File.empty]
  | append_singleton ops last ih =>
      have earlier := ih (fun op mem => rounds op (List.mem_append_left _ mem))
        fun op mem => agree op (List.mem_append_left _ mem)
      have last_rounds := rounds last (List.mem_append_right _ List.mem_cons_self)
      have last_agrees := agree last (List.mem_append_right _ List.mem_cons_self)
      rw [submitAll, List.foldl_append]
      change (filePosixsubmit sparse last (submitAll sparse ops)).2.bytes address = _
      simp only [List.mem_append, List.mem_singleton, or_and_right, exists_or, exists_eq_left]
      by_cases covers : last.Covers address
      · rw [if_pos (Or.inr covers), bytes_of_covers sparse last_rounds covers, last_agrees covers]
        intro zero
        rw [← last_agrees covers, zero, ite_self] at earlier
        exact earlier
      · simp only [covers, or_false]
        rw [bytes_of_not_covers sparse covers, earlier]

/-- Without the option every block is written. -/
theorem received_false (block : BitVec 32) (size : Nat) (content : Nat → UInt8)
    (arrivals : List Arrival) :
    received false block size content arrivals = BlockWrites.received block size content arrivals :=
  rfl

end Holes

/-- Each byte of the file is where it belongs, with and without holes. -/
theorem bytes_of_whole (sparse : Bool) {block : BitVec 32} (positive : 0 < block.toNat)
    (small : block.toNat < 2 ^ 31) (multiple : 4096 ∣ block.toNat) {size : Nat}
    (size_fits : size < 2 ^ 63) (content : Nat → UInt8) {arrivals : List Arrival}
    (whole : Whole block size arrivals) {address : Nat} (inside : address < size) :
    (submitAll sparse (arrivals.map fun arrival => arrival.write block size content)).bytes
      address = content address := by
  have agree : ∀ op ∈ arrivals.map (fun arrival => arrival.write block size content),
      op.Covers address → op.data (address - op.offset) = content address := by
    intro op mem covers
    obtain ⟨arrival, arrived, rfl⟩ := List.mem_map.mp mem
    exact data_of_covers positive small multiple size_fits content whole arrived inside covers
  have rounds : ∀ op ∈ arrivals.map (fun arrival => arrival.write block size content),
      64 ∣ op.size := by
    intro op mem
    obtain ⟨arrival, -, rfl⟩ := List.mem_map.mp mem
    have short : blockLength block size arrival.index ≤ block.toNat := Nat.min_le_left _ _
    obtain ⟨pages, block_eq⟩ := multiple
    have size_eq := rxSize_toNat (show blockLength block size arrival.index < 2 ^ 31 by omega)
    rw [if_pos (by omega)] at size_eq
    change 64 ∣ (rxSize (BitVec.ofNat 32 (blockLength block size arrival.index))).toNat
    omega
  have plain := BlockWrites.received_bytes positive small multiple size_fits content whole inside
  exact (bytes_submitAll sparse rounds agree).trans
    ((bytes_submitAll false rounds agree).symm.trans plain)

/-- What is received is the same with and without holes. -/
theorem received_sparse_eq {block : BitVec 32} (positive : 0 < block.toNat)
    (small : block.toNat < 2 ^ 31) (multiple : 4096 ∣ block.toNat) {size : Nat}
    (size_fits : size < 2 ^ 63) (content : Nat → UInt8) {arrivals : List Arrival}
    (whole : Whole block size arrivals) :
    received true block size content arrivals = received false block size content arrivals := by
  apply File.truncate_congr
  intro address inside
  have agree : ∀ op ∈ arrivals.map (fun arrival => arrival.write block size content),
      op.Covers address → op.data (address - op.offset) = content address := by
    intro op mem covers
    obtain ⟨arrival, arrived, rfl⟩ := List.mem_map.mp mem
    exact data_of_covers positive small multiple size_fits content whole arrived inside covers
  have rounds : ∀ op ∈ arrivals.map (fun arrival => arrival.write block size content),
      64 ∣ op.size := by
    intro op mem
    obtain ⟨arrival, -, rfl⟩ := List.mem_map.mp mem
    have short : blockLength block size arrival.index ≤ block.toNat := Nat.min_le_left _ _
    obtain ⟨pages, block_eq⟩ := multiple
    have size_eq := rxSize_toNat (show blockLength block size arrival.index < 2 ^ 31 by omega)
    rw [if_pos (by omega)] at size_eq
    change 64 ∣ (rxSize (BitVec.ofNat 32 (blockLength block size arrival.index))).toNat
    omega
  rw [bytes_submitAll true rounds agree, bytes_submitAll false rounds agree]

/-- The last block of a file of 5000 bytes arrives first, with sevens behind it. -/
theorem received_sparse_eq_of_two :
    received true 4096 5000 (fun _ => 0) [⟨1, fun _ => 7⟩, ⟨0, fun _ => 0⟩] =
      received false 4096 5000 (fun _ => 0) [⟨1, fun _ => 7⟩, ⟨0, fun _ => 0⟩] :=
  received_sparse_eq (by decide) (by decide) (by decide) (by decide) _ (List.Perm.swap 0 1 [])

end SparseWrite
end EScp
