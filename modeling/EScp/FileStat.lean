import EScp.Layout

/-!
# The file table entry

`struct file_stat_type` is declared twice: `file_io.h` gives it to the C workers, packed and with a
`read_limit` before `crc`; `dtn.h` gives it to the Rust side without `read_limit`.  Both are 64
bytes long.  An entry is kept here with the fields of the C declaration, and the Rust side reads
its bytes at its own offsets.
-/

namespace EScp

open Layout

/-- The members of `struct file_stat_type`. -/
inductive StatField where
  | state | fileNo | bytes | blockOffset | blockTotal | bytesTotal | fd | position | readLimit | crc
  deriving DecidableEq

/-- The size of a member in bytes. -/
def StatField.size : StatField → Nat
  | .state | .fileNo | .bytes | .blockOffset | .blockTotal | .bytesTotal => 8
  | .fd | .position | .readLimit | .crc => 4

/-- A member with the natural alignment of its integer type. -/
def StatField.member (field : StatField) : Member StatField := ⟨field, field.size, field.size⟩

/-- The declaration of `file_io.h`, in order. -/
def workerFields : List StatField :=
  [.state, .fileNo, .bytes, .blockOffset, .blockTotal, .bytesTotal, .fd, .position, .readLimit,
    .crc]

/-- The declaration of `dtn.h`, in order. -/
def rustFields : List StatField :=
  [.state, .fileNo, .bytes, .blockOffset, .blockTotal, .bytesTotal, .fd, .position, .crc]

/-- The offset of a member for the C workers (`packed, aligned(64)`). -/
def workerOffset (field : StatField) : Nat :=
  offsetOf true (workerFields.map StatField.member) field

/-- The offset of a member for the Rust side (`aligned(64)`). -/
def rustOffset (field : StatField) : Nat :=
  offsetOf false (rustFields.map StatField.member) field

/-- An entry of the file table, `struct file_stat_type` of `file_io.h`. -/
structure FileStat where
  state : BitVec 64
  fileNo : Nat
  bytes : Nat
  blockOffset : Nat
  blockTotal : Nat
  bytesTotal : Nat
  fd : Int
  position : Nat
  readLimit : Nat
  crc : BitVec 32
  deriving DecidableEq

namespace FileStat

/-- An entry after `memset_avx`. -/
def zero : FileStat := ⟨0, 0, 0, 0, 0, 0, 0, 0, 0, 0⟩

@[simp] theorem zero_state : zero.state = 0 := rfl

@[simp] theorem zero_fileNo : zero.fileNo = 0 := rfl

/-- The number a member holds, as an unsigned integer. -/
def value (stat : FileStat) : StatField → Nat
  | .state => stat.state.toNat
  | .fileNo => stat.fileNo
  | .bytes => stat.bytes
  | .blockOffset => stat.blockOffset
  | .blockTotal => stat.blockTotal
  | .bytesTotal => stat.bytesTotal
  | .fd => (stat.fd % 2 ^ 32).toNat
  | .position => stat.position
  | .readLimit => stat.readLimit
  | .crc => stat.crc.toNat

/-- The 64 bytes of an entry, as the C workers write them. -/
def image (stat : FileStat) : Memory :=
  storeAll (workerFields.map fun field => (workerOffset field, field.size, stat.value field))

/-- The number the Rust side reads from a member. -/
def rustValue (stat : FileStat) (field : StatField) : Nat :=
  load stat.image (rustOffset field) field.size

theorem load_image (stat : FileStat) (field : StatField) :
    load stat.image (workerOffset field) field.size = stat.value field % 256 ^ field.size := by
  apply load_storeAll
  · rw [List.pairwise_map]
    have apart : workerFields.Pairwise fun left right =>
        workerOffset left + left.size ≤ workerOffset right ∨
          workerOffset right + right.size ≤ workerOffset left := by decide
    exact apart
  · exact List.mem_map.mpr ⟨field, by cases field <;> decide, rfl⟩

/-- Up to `position` both declarations agree. -/
theorem rustOffset_eq {field : StatField} (shared : field ≠ .readLimit ∧ field ≠ .crc) :
    rustOffset field = workerOffset field := by
  obtain ⟨not_limit, not_crc⟩ := shared
  cases field <;> first | contradiction | decide

theorem rustValue_eq (stat : FileStat) {field : StatField}
    (shared : field ≠ .readLimit ∧ field ≠ .crc) :
    stat.rustValue field = stat.value field % 256 ^ field.size := by
  rw [rustValue, rustOffset_eq shared, load_image]

/-- Where the Rust side expects `crc`, the C workers keep `read_limit`. -/
theorem rustOffset_crc : rustOffset .crc = workerOffset .readLimit := by decide

/-- The Rust side reads `read_limit` when it asks for `crc`. -/
theorem rustValue_crc (stat : FileStat) :
    stat.rustValue .crc = stat.readLimit % 256 ^ 4 := by
  rw [rustValue, rustOffset_crc]
  exact stat.load_image .readLimit

end FileStat
end EScp
