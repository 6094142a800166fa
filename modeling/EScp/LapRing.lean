import EScp.Residue

/-!
# Rings of records that do not cross the end

Records of several slots each are placed in a ring at the residue of an unbounded index.  A record
never crosses the end of the ring: when it would, a marker is left in the next slot and the record
is placed at the beginning of the next lap.  The producer waits while the record would reach the
oldest live slot.
-/

namespace EScp
namespace LapRing

/-- How records appear in memory. -/
structure Format (Memory Frame : Type*) where
  /-- The number of slots. -/
  slots : Nat
  slots_pos : 0 < slots
  /-- The number of slots of a record. -/
  span : Frame → Nat
  span_pos : ∀ frame, 0 < span frame
  /-- Two memories agree on a slot. -/
  Same : Memory → Memory → Nat → Prop
  /-- The slot holds a marker. -/
  Marked : Memory → Nat → Prop
  marked_congr : ∀ {before after slot}, Same before after slot → Marked before slot →
    Marked after slot
  /-- The record is found from the slot on. -/
  Shows : Memory → Nat → Frame → Prop
  shows_congr : ∀ {before after start frame},
    (∀ slot, start ≤ slot → slot < start + span frame → Same before after slot) →
    Shows before start frame → Shows after start frame

/-- A record, and whether a marker comes before it. -/
structure Record (Frame : Type*) where
  wrapped : Bool
  frame : Frame

namespace Format

variable {Memory Frame : Type*} (format : Format Memory Frame)

/-- The first index of the next lap. -/
def nextLap (index : Nat) : Nat := index + (format.slots - index % format.slots)

/-- The index at which a record is placed when `tail` is the next one. -/
def start (record : Record Frame) (tail : Nat) : Nat :=
  if record.wrapped then format.nextLap tail else tail

/-- The record does not reach the end of the ring. -/
def Fits (index : Nat) (frame : Frame) : Prop :=
  index % format.slots + format.span frame < format.slots

/-- The producer waits: the record at `head` would reach the slot of `tail`. -/
def Blocked (head tail : Nat) (frame : Frame) : Prop :=
  tail + format.slots ≤ head ∨
    (head % format.slots < tail % format.slots ∧
      tail % format.slots ≤ head % format.slots + format.span frame)

instance (head tail : Nat) (frame : Frame) : Decidable (format.Blocked head tail frame) := by
  unfold Blocked
  infer_instance

/-- The memory holds the listed records between the indexes `tail` and `head`. -/
def Holds (memory : Memory) : Nat → List (Record Frame) → Nat → Prop
  | tail, [], head => tail = head
  | tail, record :: records, head =>
      (record.wrapped = true → format.Marked memory (tail % format.slots)) ∧
        format.Fits (format.start record tail) record.frame ∧
        format.Shows memory (format.start record tail % format.slots) record.frame ∧
        Holds memory (format.start record tail + format.span record.frame) records head

variable {format}

theorem lt_nextLap (index : Nat) : index < format.nextLap index := by
  have low := Nat.mod_lt index format.slots_pos
  rw [nextLap]
  omega

@[simp] theorem nextLap_mod (index : Nat) : format.nextLap index % format.slots = 0 := by
  have low := Nat.mod_lt index format.slots_pos
  have split := Nat.div_add_mod index format.slots
  rw [nextLap, show index + (format.slots - index % format.slots) =
    format.slots * (index / format.slots) + format.slots by omega, Nat.add_mod_right,
    Nat.mul_mod_right]

theorem le_start (record : Record Frame) (tail : Nat) : tail ≤ format.start record tail := by
  rw [start]
  split
  · exact (lt_nextLap tail).le
  · exact le_rfl

theorem Holds.le {memory : Memory} {tail head : Nat} {records : List (Record Frame)}
    (holds : format.Holds memory tail records head) : tail ≤ head := by
  induction records generalizing tail with
  | nil => exact le_of_eq holds
  | cons record records ih =>
      have rest := ih holds.2.2.2
      have begins := format.le_start record tail
      omega

theorem Holds.lt {memory : Memory} {tail head : Nat} {record : Record Frame}
    {records : List (Record Frame)} (holds : format.Holds memory tail (record :: records) head) :
    tail < head := by
  have rest := Holds.le holds.2.2.2
  have begins := format.le_start record tail
  have positive := format.span_pos record.frame
  omega

theorem holds_append {memory : Memory} {tail head : Nat} {left right : List (Record Frame)} :
    format.Holds memory tail (left ++ right) head ↔
      ∃ middle, format.Holds memory tail left middle ∧ format.Holds memory middle right head := by
  induction left generalizing tail with
  | nil => simp [Holds]
  | cons record left ih => simp only [List.cons_append, Holds, ih, exists_and_left, and_assoc]

/-- Inside a record that fits, slots follow indexes. -/
theorem add_mod_of_fits {start offset : Nat}
    (inside : start % format.slots + offset < format.slots) :
    (start + offset) % format.slots = start % format.slots + offset := by
  rw [Nat.add_mod, Nat.mod_eq_of_lt (show offset < format.slots by omega),
    Nat.mod_eq_of_lt inside]

/-- Records depend on the slots of their own indexes only. -/
theorem Holds.congr {before after : Memory} {tail head : Nat} {records : List (Record Frame)}
    (same : ∀ index, tail ≤ index → index < head →
      format.Same before after (index % format.slots))
    (holds : format.Holds before tail records head) :
    format.Holds after tail records head := by
  induction records generalizing tail with
  | nil => exact holds
  | cons record records ih =>
      have begins := format.le_start record tail
      have ends := Holds.le holds.2.2.2
      have positive := format.span_pos record.frame
      obtain ⟨marked, fits, shows, rest⟩ := holds
      refine ⟨fun wrapped => format.marked_congr (same tail le_rfl (by omega)) (marked wrapped),
        fits, format.shows_congr ?_ shows, ih ?_ rest⟩
      · intro slot low high
        obtain ⟨offset, rfl⟩ := Nat.exists_eq_add_of_le low
        rw [Fits] at fits
        rw [← add_mod_of_fits (by omega)]
        exact same _ (by omega) (by omega)
      · intro index low high
        exact same index (by omega) high

/-- Live records do not feel a change of the slots from `head` on, within one lap of `tail`. -/
theorem Holds.of_store {before after : Memory} {tail head : Nat}
    {records : List (Record Frame)} (holds : format.Holds before tail records head) (reach : Nat)
    (room : reach ≤ tail + format.slots)
    (same : ∀ slot, (∀ index, head ≤ index → index < reach → index % format.slots ≠ slot) →
      format.Same before after slot) : format.Holds after tail records head := by
  refine holds.congr fun index low high => same _ fun other other_low other_high => ?_
  exact mod_ne_of_window (by have := holds.le; omega) (by omega) low (by omega) (by omega)

/-- A producer that does not wait keeps the last slot of the lap free. -/
theorem room_of_not_blocked {head tail : Nat} {frame : Frame}
    (fits : format.Fits head frame) (free : ¬format.Blocked head tail frame) :
    head + format.span frame < tail + format.slots := by
  simp only [Blocked, not_or, not_and_or, Nat.not_le, Nat.not_lt] at free
  obtain ⟨near, same_lap | short⟩ := free
  · -- `head` lies in the lap of `tail`.
    have head_split := Nat.div_add_mod head format.slots
    have tail_split := Nat.div_add_mod tail format.slots
    have tail_low := Nat.mod_lt tail format.slots_pos
    rw [Fits] at fits
    have laps : format.slots * (head / format.slots) ≤ format.slots * (tail / format.slots) := by
      apply Nat.mul_le_mul_left
      by_contra later
      have := Nat.mul_le_mul_left format.slots (Nat.succ_le_of_lt (Nat.lt_of_not_le later))
      rw [Nat.mul_succ] at this
      omega
    omega
  · -- `head` lies at most one lap after `tail`.
    have head_split := Nat.div_add_mod head format.slots
    have tail_split := Nat.div_add_mod tail format.slots
    have laps : format.slots * (head / format.slots) ≤
        format.slots * (tail / format.slots) + format.slots := by
      rw [← Nat.mul_succ]
      apply Nat.mul_le_mul_left
      by_contra later
      have := Nat.mul_le_mul_left format.slots (Nat.succ_le_of_lt (Nat.lt_of_not_le later))
      have tail_low := Nat.mod_lt tail format.slots_pos
      rw [Nat.mul_succ, Nat.mul_succ] at this
      omega
    omega

/-- On a drained ring a record of less than half the ring is never blocked. -/
theorem not_blocked_of_drained {tail : Nat} {frame : Frame}
    (small : 2 * format.span frame < format.slots) :
    (format.Fits tail frame → ¬format.Blocked tail tail frame) ∧
      (¬format.Fits tail frame → ¬format.Blocked (format.nextLap tail) tail frame) := by
  have positive := format.slots_pos
  constructor
  · intro _
    simp only [Blocked, not_or, not_and_or]
    omega
  · intro crosses
    have low := Nat.mod_lt tail format.slots_pos
    simp only [Fits, Nat.not_lt] at crosses
    simp only [Blocked, nextLap_mod, not_or, not_and_or]
    rw [nextLap]
    omega

end Format
end LapRing
end EScp
