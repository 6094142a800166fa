import EScp.MetaRing

/-!
# The producer on a drained ring

Before it copies a frame, `network_recv` waits for room in the metadata ring.  Its peer decides on
the size of the frame, within the limit that `network_recv` checks.  The counters are words of 64
bits here, so that they may overflow.
-/

namespace EScp
namespace MetaStarvation

open MetaRing (metabufSz metaSlots Frame)

/-! ## The code -/

/-- `METABUF_SZ/64`. -/
def slots : UInt64 := UInt64.ofNat metaSlots

/-- The slots of a frame, `(sz+16+63) / 64`. -/
def increment (sz : UInt32) : Nat := ((sz + 16 + 63) / 64).toNat

/-- `sz < (METABUF_SZ/2)`. -/
def admits (sz : UInt32) : Bool := sz.toNat < metabufSz / 2

/-- `head` and `h` behind the wrap marker, if there is one. -/
def place (metahead : UInt64) (sz : UInt32) : UInt64 × Nat :=
  let h := metahead % slots
  if metabufSz ≤ (h.toNat + increment sz) * 64 then (metahead + (slots - h), 0)
  else (metahead, h.toNat)

/-- The condition of the wait loop. -/
def waits (placed : UInt64 × Nat) (sz : UInt32) (tail : UInt64) : Bool :=
  let (head, h) := placed
  let t := (tail % slots).toNat
  tail + slots ≤ head ∨ (h < t ∧ t ≤ h + increment sz)

/-- The wait loop ends when it finds these values in `metatail`, one in each round. -/
def Ends (metahead : UInt64) (sz : UInt32) (tails : Nat → UInt64) : Prop :=
  ∃ round, waits (place metahead sz) sz (tails round) = false

/-- The producer does not wait once everything published is consumed, and its loop ends whenever
the consumer comes that far. -/
def Served (metahead : UInt64) (sz : UInt32) : Prop :=
  waits (place metahead sz) sz metahead = false ∧
    ∀ tails : Nat → UInt64, (∃ round, tails round = metahead) → Ends metahead sz tails

/-- A frame that ends before the ring does finds room in all laps but the last; a frame that has to
go to the start of the ring finds it if it ends before the slot of `metahead`. -/
def Roomy (metahead : UInt64) (sz : UInt32) : Prop :=
  let h := metahead.toNat % metaSlots
  if h + increment sz < metaSlots then metahead.toNat < 2 ^ 64 - metaSlots else increment sz < h

/-! ## Room -/

section Room

variable {metahead tail : UInt64} {sz : UInt32}

theorem metaSlots_eq : metaSlots = 65536 := rfl

theorem metabufSz_eq : metabufSz = 4194304 := rfl

theorem slots_toNat : slots.toNat = metaSlots := rfl

/-- The slot of a counter. -/
theorem mod_slots_toNat (index : UInt64) : (index % slots).toNat = index.toNat % metaSlots := by
  rw [UInt64.toNat_mod, slots_toNat]

theorem admits_iff : admits sz ↔ sz.toNat < 2097152 := decide_eq_true_iff

/-- The size of an admitted frame is rounded up without overflow. -/
theorem increment_eq (admitted : admits sz) : increment sz = MetaRing.increment sz.toNat := by
  have small := admits_iff.mp admitted
  have sum : (sz + 16 + 63).toNat = sz.toNat + 16 + 63 := by
    rw [UInt32.toNat_add, UInt32.toNat_add, show (16 : UInt32).toNat = 16 from rfl,
      show (63 : UInt32).toNat = 63 from rfl]
    omega
  rw [increment, UInt32.toNat_div, sum]
  rfl

theorem increment_bounds (admitted : admits sz) : 0 < increment sz ∧ increment sz ≤ 32769 := by
  have small := admits_iff.mp admitted
  rw [increment_eq admitted, MetaRing.increment]
  omega

theorem place_of_inside (inside : metahead.toNat % metaSlots + increment sz < metaSlots) :
    place metahead sz = (metahead, metahead.toNat % metaSlots) := by
  rw [place, mod_slots_toNat, if_neg]
  rw [metaSlots_eq] at inside ⊢
  rw [metabufSz_eq]
  omega

theorem place_of_crossing (crossing : ¬metahead.toNat % metaSlots + increment sz < metaSlots) :
    place metahead sz = (metahead + (slots - metahead % slots), 0) := by
  rw [place, mod_slots_toNat, if_pos]
  rw [metaSlots_eq] at crossing ⊢
  rw [metabufSz_eq]
  omega

theorem waits_iff {head : UInt64} {h : Nat} : waits (head, h) sz tail ↔
    (tail.toNat + metaSlots) % 2 ^ 64 ≤ head.toNat ∨
      (h < tail.toNat % metaSlots ∧ tail.toNat % metaSlots ≤ h + increment sz) := by
  rw [waits, mod_slots_toNat, decide_eq_true_iff, UInt64.le_iff_toNat_le, UInt64.toNat_add,
    slots_toNat]

/-- The first index of the next lap. -/
theorem nextLap_toNat (metahead : UInt64) : (metahead + (slots - metahead % slots)).toNat =
    (metahead.toNat + (metaSlots - metahead.toNat % metaSlots)) % 2 ^ 64 := by
  have low := Nat.mod_lt metahead.toNat (show 0 < metaSlots by decide)
  have below : metahead % slots ≤ slots := by
    rw [UInt64.le_iff_toNat_le, mod_slots_toNat, slots_toNat]
    exact low.le
  rw [UInt64.toNat_add, UInt64.toNat_sub_of_le _ _ below, mod_slots_toNat, slots_toNat]

/-- Once everything published is consumed, the producer waits exactly if there is no room. -/
theorem waits_drained_iff (admitted : admits sz) :
    waits (place metahead sz) sz metahead = false ↔ Roomy metahead sz := by
  obtain ⟨positive, short⟩ := increment_bounds admitted
  have word := metahead.toNat_lt
  have low := Nat.mod_lt metahead.toNat (show 0 < metaSlots by decide)
  rw [← Bool.not_eq_true, Roomy]
  split
  · rename_i inside
    rw [place_of_inside inside, waits_iff]
    rw [metaSlots_eq] at low inside ⊢
    omega
  · rename_i crossing
    rw [place_of_crossing crossing, waits_iff, nextLap_toNat]
    rw [metaSlots_eq] at low crossing ⊢
    omega

/-- The loop ends as soon as it loads a tail at which it does not wait. -/
theorem served_of_free (free : waits (place metahead sz) sz metahead = false) :
    Served metahead sz := by
  refine ⟨free, ?_⟩
  rintro tails ⟨round, drained⟩
  refine ⟨round, ?_⟩
  rw [drained]
  exact free

/-- The producer is served exactly if there is room for its frame on a drained ring. -/
theorem served_iff_roomy (metahead : UInt64) (sz : UInt32) (admitted : admits sz) :
    Served metahead sz ↔ Roomy metahead sz := by
  rw [← waits_drained_iff admitted]
  exact ⟨fun served => served.1, served_of_free⟩

/-- A frame of the largest size at the start of the ring. -/
theorem served_largest : admits 2097151 ∧ (Served 0 2097151 ↔ Roomy 0 2097151) :=
  ⟨by decide, served_iff_roomy 0 2097151 (by decide)⟩

/-- In the middle of the ring the largest frame waits forever, although the ring is drained. -/
theorem not_served_of_half : admits 2097151 ∧ ¬Served 32768 2097151 ∧
    ¬∀ metahead sz, admits sz → Served metahead sz := by
  have starved : ¬Served 32768 2097151 := fun served => absurd served.1 (by decide)
  exact ⟨by decide, starved, fun always => starved (always _ _ (by decide))⟩

/-- The frames of `meta_send` are served in all laps but the last. -/
theorem served_of_short (short : sz.toNat ≤ 1024 * 1024)
    (lap : metahead.toNat < 2 ^ 64 - metaSlots) : Served metahead sz := by
  have admitted : admits sz := admits_iff.mpr (by omega)
  apply served_of_free
  rw [waits_drained_iff admitted, Roomy, increment_eq admitted, MetaRing.increment]
  split
  · exact lap
  · rename_i crossing
    rw [metaSlots_eq] at crossing ⊢
    omega

end Room

/-! ## Unbounded counters -/

section Unbounded

variable {metahead tail : UInt64} {frame : Frame} {sz : UInt32}

/-- In all laps but the last, frames are placed as they are with unbounded counters. -/
theorem place_eq (size : frame.sz = sz.toNat) (admitted : admits sz)
    (lap : metahead.toNat < 2 ^ 64 - metaSlots) :
    let head := if MetaRing.crosses metahead.toNat frame then MetaRing.nextLap metahead.toNat
      else metahead.toNat
    ((place metahead sz).1.toNat, (place metahead sz).2) = (head, head % metaSlots) := by
  intro head
  have low := Nat.mod_lt metahead.toNat (show 0 < metaSlots by decide)
  have same : frame.increment = increment sz := by
    rw [increment_eq admitted, Frame.increment, size]
  have crosses_iff : MetaRing.crosses metahead.toNat frame ↔
      ¬metahead.toNat % metaSlots + increment sz < metaSlots := by
    rw [MetaRing.crosses, decide_eq_true_iff, same, metabufSz_eq, metaSlots_eq]
    omega
  by_cases inside : metahead.toNat % metaSlots + increment sz < metaSlots
  · have stays : head = metahead.toNat := if_neg fun crosses => crosses_iff.mp crosses inside
    rw [place_of_inside inside, stays]
  · have moves : head = MetaRing.nextLap metahead.toNat := if_pos (crosses_iff.mpr inside)
    rw [place_of_crossing inside, moves, nextLap_toNat, MetaRing.nextLap]
    rw [metaSlots_eq] at low lap ⊢
    rw [Prod.mk.injEq]
    omega

/-- The producer waits as it does with unbounded counters, unless those would overflow. -/
theorem waits_eq (size : frame.sz = sz.toNat) (admitted : admits sz) (head : UInt64)
    (lap : tail.toNat < 2 ^ 64 - metaSlots) :
    waits (head, head.toNat % metaSlots) sz tail =
      MetaRing.blocked head.toNat tail.toNat frame := by
  have same : frame.increment = increment sz := by
    rw [increment_eq admitted, Frame.increment, size]
  rw [Bool.eq_iff_iff, waits_iff, MetaRing.blocked, decide_eq_true_iff, same,
    Nat.mod_eq_of_lt (by rw [metaSlots_eq] at lap ⊢; omega)]

end Unbounded

end MetaStarvation
end EScp
