import EScp.Layout

/-!
# Positional writes to a file

A file is its size and its bytes; bytes past the end are zero, as a hole or an extension reads.
What a sequence of positional writes leaves at an address depends on their order only where two of
them put different bytes at that address.
-/

namespace EScp

open Layout

/-- The content of a regular file. -/
structure File where
  size : Nat
  bytes : Nat → UInt8
  beyond : ∀ address, size ≤ address → bytes address = 0

namespace File

/-- A file after `O_TRUNC`. -/
def empty : File := ⟨0, fun _ => 0, fun _ _ => rfl⟩

/-- The file with some bytes. -/
def ofBytes (bytes : List UInt8) : File where
  size := bytes.length
  bytes address := bytes.getD address 0
  beyond address past := by rw [List.getD_eq_getElem?_getD, List.getElem?_eq_none past]; rfl

/-- A complete `pwrite`. -/
def pwrite (file : File) (write : Write) : File where
  size := max file.size (write.offset + write.size)
  bytes address :=
    if write.Covers address then write.data (address - write.offset) else file.bytes address
  beyond := by
    intro address past
    rw [if_neg fun covers => by have := covers.2; omega]
    exact file.beyond address (by omega)

/-- `ftruncate`. -/
def truncate (file : File) (size : Nat) : File where
  size := size
  bytes address := if address < size then file.bytes address else 0
  beyond _ past := if_neg (Nat.not_lt.mpr past)

/-- Writes in the order given. -/
def writeAll (file : File) (writes : List Write) : File := writes.foldl pwrite file

theorem writeAll_concat (file : File) (writes : List Write) (last : Write) :
    file.writeAll (writes ++ [last]) = (file.writeAll writes).pwrite last := by
  simp [writeAll]

/-- An address holds the byte on which all writes that cover it agree. -/
theorem bytes_writeAll (file : File) {writes : List Write} {address : Nat} {value : UInt8}
    (covered : ∃ write ∈ writes, write.Covers address)
    (agree : ∀ write ∈ writes, write.Covers address →
      write.data (address - write.offset) = value) :
    (file.writeAll writes).bytes address = value := by
  induction writes using List.reverseRecOn with
  | nil => simp at covered
  | append_singleton writes last ih =>
      rw [writeAll_concat]
      by_cases covers : last.Covers address
      · exact (if_pos covers).trans (agree last (by simp) covers)
      · have earlier : ∃ write ∈ writes, write.Covers address := by
          obtain ⟨write, mem, write_covers⟩ := covered
          rcases List.mem_append.mp mem with mem | mem
          · exact ⟨write, mem, write_covers⟩
          · obtain rfl := List.mem_singleton.mp mem
            exact (covers write_covers).elim
        exact (if_neg covers).trans
          (ih earlier fun write mem => agree write (List.mem_append_left _ mem))

/-- Truncated files of one size are equal when their bytes below it are. -/
theorem truncate_congr {left right : File} {size : Nat}
    (same : ∀ address < size, left.bytes address = right.bytes address) :
    left.truncate size = right.truncate size := by
  have bytes_eq : (left.truncate size).bytes = (right.truncate size).bytes := by
    funext address
    by_cases inside : address < size
    · simpa [truncate, inside] using same address inside
    · simp [truncate, inside]
  simp only [truncate, mk.injEq, true_and]
  exact bytes_eq

/-- A file may be truncated to the size that it has. -/
theorem truncate_self (file : File) : file.truncate file.size = file := by
  have bytes_eq : (file.truncate file.size).bytes = file.bytes := by
    funext address
    by_cases inside : address < file.size
    · exact if_pos inside
    · exact (if_neg inside).trans (file.beyond address (not_lt.mp inside)).symm
  obtain ⟨size, bytes, beyond⟩ := file
  simp only [truncate, mk.injEq, true_and]
  exact bytes_eq

end File
end EScp
