import Mathlib.Data.Nat.ModEq
import Mathlib.Tactic

/-!
# Struct layout and little-endian memory

The offsets that a C compiler gives to the members of a struct, natural or packed, and byte memory
holding little-endian integers.  Two declarations of one struct name the same bytes only where
their offsets agree; a read at an offset returns what was last written to exactly those bytes.
-/

namespace EScp
namespace Layout

/-! ## Offsets -/

/-- A member of a struct: its name, its size and its natural alignment in bytes. -/
structure Member (Name : Type*) where
  name : Name
  size : Nat
  align : Nat

/-- The least multiple of `align` that is not below `offset`. -/
def alignUp (align offset : Nat) : Nat := (offset + align - 1) / align * align

/-- Members with their offsets, the first one placed at or after `cursor`. -/
def place {Name : Type*} (packed : Bool) : Nat → List (Member Name) → List (Name × Nat)
  | _, [] => []
  | cursor, member :: members =>
      let offset := alignUp (if packed then 1 else member.align) cursor
      (member.name, offset) :: place packed (offset + member.size) members

/-- The offset of the member called `name`, zero when there is none. -/
def offsetOf {Name : Type*} [DecidableEq Name] (packed : Bool) (members : List (Member Name))
    (name : Name) : Nat :=
  ((place packed 0 members).find? fun placed => placed.1 = name).elim 0 Prod.snd

/-! ## Memory -/

/-- Byte memory. -/
abbrev Memory := Nat → UInt8

/-- Byte `index` of the little-endian representation of `value`. -/
def leByte (value index : Nat) : UInt8 := UInt8.ofNat (value / 256 ^ index)

/-- Store the `size` low bytes of `value` at `offset`. -/
def store (memory : Memory) (offset size value : Nat) : Memory := fun address =>
  if offset ≤ address ∧ address < offset + size then leByte value (address - offset)
  else memory address

/-- Load the little-endian number of `size` bytes at `offset`. -/
def load (memory : Memory) : Nat → Nat → Nat
  | _, 0 => 0
  | offset, size + 1 => (memory offset).toNat + 256 * load memory (offset + 1) size

theorem load_congr {before after : Memory} {offset size : Nat}
    (same : ∀ address, offset ≤ address → address < offset + size →
      after address = before address) : load after offset size = load before offset size := by
  induction size generalizing offset with
  | zero => rfl
  | succ size ih =>
      rw [load, load, same offset le_rfl (by omega),
        ih fun address low high => same address (by omega) (by omega)]

@[simp] theorem load_zero (offset size : Nat) : load (fun _ => 0) offset size = 0 := by
  induction size generalizing offset with
  | zero => rfl
  | succ size ih => simp [load, ih]

/-- A store changes no load of other bytes. -/
theorem load_store_disjoint (memory : Memory) {offset size value other width : Nat}
    (apart : other + width ≤ offset ∨ offset + size ≤ other) :
    load (store memory offset size value) other width = load memory other width := by
  apply load_congr
  intro address low high
  exact if_neg (by omega)

theorem load_store_from (memory : Memory) (offset total value start size : Nat)
    (inside : start + size ≤ total) :
    load (store memory offset total value) (offset + start) size =
      value / 256 ^ start % 256 ^ size := by
  induction size generalizing start with
  | zero => simp [load, Nat.mod_one]
  | succ size ih =>
      have first : store memory offset total value (offset + start) = leByte value start := by
        rw [store, if_pos (by omega), Nat.add_sub_cancel_left]
      rw [load, first, Nat.add_assoc, ih (start + 1) (by omega), pow_succ, ← Nat.div_div_eq_div_mul,
        pow_succ, Nat.mul_comm (256 ^ size), Nat.mod_mul]
      rfl

/-- A load returns the stored number, cut to the stored bytes. -/
theorem load_store (memory : Memory) (offset size value : Nat) :
    load (store memory offset size value) offset size = value % 256 ^ size := by
  simpa using load_store_from memory offset size value 0 size (by omega)

/-- A store of the first `size` bytes of `data`. -/
structure Write where
  offset : Nat
  size : Nat
  data : Nat → UInt8

namespace Write

/-- The address lies in the range of the write. -/
def Covers (write : Write) (address : Nat) : Prop :=
  write.offset ≤ address ∧ address < write.offset + write.size

instance (write : Write) (address : Nat) : Decidable (write.Covers address) := by
  unfold Covers
  infer_instance

/-- The memory after the store. -/
def apply (write : Write) (memory : Memory) : Memory := fun address =>
  if write.Covers address then write.data (address - write.offset) else memory address

/-- A store of a list of bytes. -/
def ofBytes (offset : Nat) (bytes : List UInt8) : Write :=
  ⟨offset, bytes.length, fun index => bytes.getD index 0⟩

@[simp] theorem ofBytes_offset (offset : Nat) (bytes : List UInt8) :
    (ofBytes offset bytes).offset = offset := rfl

@[simp] theorem ofBytes_size (offset : Nat) (bytes : List UInt8) :
    (ofBytes offset bytes).size = bytes.length := rfl

theorem apply_of_not_covers {write : Write} {memory : Memory} {address : Nat}
    (outside : ¬write.Covers address) : write.apply memory address = memory address :=
  if_neg outside

end Write

/-- Memory holding each listed number at its offset, with its size. -/
def storeAll (stores : List (Nat × Nat × Nat)) : Memory :=
  stores.foldr (fun entry memory => store memory entry.1 entry.2.1 entry.2.2) fun _ => 0

/-- Among stores to disjoint ranges, each range holds what was stored to it. -/
theorem load_storeAll {stores : List (Nat × Nat × Nat)}
    (apart : stores.Pairwise fun left right =>
      left.1 + left.2.1 ≤ right.1 ∨ right.1 + right.2.1 ≤ left.1)
    {offset size value : Nat} (mem : (offset, size, value) ∈ stores) :
    load (storeAll stores) offset size = value % 256 ^ size := by
  induction stores with
  | nil => cases mem
  | cons entry stores ih =>
      rw [List.pairwise_cons] at apart
      rcases List.mem_cons.mp mem with rfl | later
      · exact load_store _ _ _ _
      · have disjoint := apart.1 _ later
        exact (load_store_disjoint _ (by simpa [or_comm] using disjoint)).trans
          (ih apart.2 later)

theorem load_lt (memory : Memory) (offset size : Nat) : load memory offset size < 256 ^ size := by
  induction size generalizing offset with
  | zero => simp [load]
  | succ size ih =>
      have byte := (memory offset).toNat_lt
      have rest := ih (offset + 1)
      rw [load, pow_succ]
      omega

/-- The low bytes of a number are the number cut to their width. -/
theorem load_prefix (memory : Memory) (offset : Nat) {size width : Nat} (shorter : size ≤ width) :
    load memory offset size = load memory offset width % 256 ^ size := by
  induction size generalizing offset width with
  | zero => simp [load, Nat.mod_one]
  | succ size ih =>
      obtain ⟨width, rfl⟩ := Nat.exists_eq_add_of_le' (Nat.one_le_of_lt shorter)
      have byte := (memory offset).toNat_lt
      rw [load, load, ih (offset + 1) (Nat.le_of_succ_le_succ shorter), pow_succ,
        Nat.mul_comm (256 ^ size), Nat.mod_mul, Nat.add_mul_mod_self_left,
        Nat.mod_eq_of_lt byte, Nat.add_mul_div_left _ _ (by decide), Nat.div_eq_of_lt byte,
        Nat.zero_add]

/-- The `size` bytes at `offset`, in order. -/
def bytesAt (memory : Memory) (offset size : Nat) : List UInt8 :=
  (List.range size).map fun index => memory (offset + index)

/-- Two byte ranges are equal exactly when they hold the same number. -/
theorem load_eq_iff (left right : Memory) (offset size : Nat) :
    load left offset size = load right offset size ↔
      ∀ address, offset ≤ address → address < offset + size → left address = right address := by
  constructor
  · induction size generalizing offset with
    | zero => omega
    | succ size ih =>
        intro same address low high
        have left_byte := (left offset).toNat_lt
        have right_byte := (right offset).toNat_lt
        rw [load, load] at same
        by_cases first : address = offset
        · subst first
          exact UInt8.toNat_inj.mp (by omega)
        · exact ih (offset + 1) (by omega) address (by omega) (by omega)
  · intro same
    exact (load_congr fun address low high => (same address low high).symm).symm

/-- The little-endian representation of `value` in `size` bytes. -/
def bytesOf (size value : Nat) : List UInt8 := (List.range size).map (leByte value)

theorem leByte_load (memory : Memory) (offset : Nat) {size index : Nat} (inside : index < size) :
    leByte (load memory offset size) index = memory (offset + index) := by
  induction size generalizing offset index with
  | zero => omega
  | succ size ih =>
      cases index with
      | zero =>
          apply UInt8.toNat_inj.mp
          have byte := (memory offset).toNat_lt
          simp only [leByte, load, pow_zero, Nat.div_one, UInt8.toNat_ofNat', Nat.add_zero]
          omega
      | succ index =>
          have byte := (memory offset).toNat_lt
          have rest : ((memory offset).toNat + 256 * load memory (offset + 1) size) / 256 =
              load memory (offset + 1) size := by omega
          rw [leByte, load, pow_succ', ← Nat.div_div_eq_div_mul, rest]
          simpa only [leByte, Nat.add_assoc, Nat.add_comm 1] using
            ih (offset + 1) (Nat.lt_of_succ_lt_succ inside)

/-- A byte range is the representation of the number it holds. -/
theorem bytesAt_eq (memory : Memory) (offset size : Nat) :
    bytesAt memory offset size = bytesOf size (load memory offset size) := by
  apply List.map_congr_left
  intro index mem
  exact (leByte_load memory offset (List.mem_range.mp mem)).symm

/-- Numbers that fit are determined by their representation. -/
theorem bytesOf_inj {size left right : Nat} (left_fits : left < 256 ^ size)
    (right_fits : right < 256 ^ size) (same : bytesOf size left = bytesOf size right) :
    left = right := by
  have hold : ∀ value < 256 ^ size,
      load (store (fun _ => 0) 0 size value) 0 size = value := by
    intro value fits
    rw [load_store, Nat.mod_eq_of_lt fits]
  rw [← hold left left_fits, ← hold right right_fits, load_eq_iff]
  intro address _ high
  have same_byte := List.map_inj_left.mp same address (List.mem_range.mpr (by omega))
  rw [store, store, if_pos (by omega), if_pos (by omega), Nat.sub_zero, same_byte]

/-- Adjacent ranges hold one number. -/
theorem load_add (memory : Memory) (offset size width : Nat) :
    load memory offset (size + width) =
      load memory offset size + 256 ^ size * load memory (offset + size) width := by
  induction size generalizing offset with
  | zero => simp [load]
  | succ size ih =>
      rw [Nat.succ_add, load, load, ih (offset + 1), Nat.add_right_comm offset 1 size, pow_succ]
      ring_nf

@[simp] theorem length_bytesAt (memory : Memory) (offset size : Nat) :
    (bytesAt memory offset size).length = size := by
  simp [bytesAt]

theorem bytesAt_congr {before after : Memory} {offset size : Nat}
    (same : ∀ address, offset ≤ address → address < offset + size →
      after address = before address) : bytesAt after offset size = bytesAt before offset size := by
  apply List.map_congr_left
  intro index mem
  have low := List.mem_range.mp mem
  exact same _ (by omega) (by omega)

/-- Stored bytes are read back. -/
theorem bytesAt_ofBytes (memory : Memory) (offset : Nat) (bytes : List UInt8) :
    bytesAt ((Write.ofBytes offset bytes).apply memory) offset bytes.length = bytes := by
  apply List.ext_getElem (by simp)
  intro index low high
  simp [bytesAt, Write.apply, Write.Covers, Write.ofBytes, high]

theorem bytesAt_append (memory : Memory) (offset size width : Nat) :
    bytesAt memory offset (size + width) =
      bytesAt memory offset size ++ bytesAt memory (offset + size) width := by
  simp [bytesAt, List.range_add, Nat.add_assoc, Function.comp_def]

end Layout
end EScp
