import Mathlib.Algebra.Order.Floor.Ring
import Mathlib.Algebra.Order.Group.Basic
import Mathlib.Data.Rat.Floor
import Mathlib.Logic.Function.Iterate
import Mathlib.Tactic.Linarith
import Mathlib.Tactic.NormNum

/-!
# Delays between attempts

`file_wait` and `file_next` sleep between two attempts, each time somewhat longer.  The delays are
exact rationals here.  Signed overflow is undefined, so that a value which an `int` cannot hold is
none.
-/

namespace EScp
namespace BackOff

/-! ## The code -/

/-- A value that an `int` can hold. -/
def int (value : ℤ) : Option ℤ :=
  if -2 ^ 31 ≤ value ∧ value < 2 ^ 31 then some value else none

/-- `(int) delay`, which rounds towards zero. -/
def truncate (delay : ℚ) : Option ℤ := int (if 0 ≤ delay then ⌊delay⌋ else ⌈delay⌉)

/-- `tv_nsec` in `ESCP_DELAY`. -/
def escpDelay (x : ℤ) : Option ℤ := (int (x * 1000)).bind fun micros => int (micros * 1000)

/-- A loop that passes its delay to `ESCP_DELAY` in each round, and then changes it. -/
def delays (next : ℚ → ℚ) : ℕ → ℚ → List ℚ
  | 0, _ => []
  | rounds + 1, delay => delay :: delays next rounds (next delay)

/-- `file_wait`, which finds its file after so many rounds. -/
def fileWait (rounds : ℕ) : List ℚ := delays (· * 1.121743) rounds 3

/-- A round of the first loop of `file_next` that does not leave the loop. -/
inductive Round where
  /-- A new file was taken by another worker, or the exchange failed: `continue`. -/
  | raced
  /-- There is no work. -/
  | idle

/-- The delay after an idle round. -/
def lengthen (delay : ℚ) : ℚ :=
  let delay := delay * 1.057329
  if 150 < delay then delay / 2 else delay

/-- The delays of the first loop of `file_next`, and the one it leaves behind. -/
def firstLoop (delay : ℚ) : List Round → List ℚ × ℚ
  | [] => ([], delay)
  | .raced :: rounds => firstLoop delay rounds
  | .idle :: rounds =>
      let (slept, last) := firstLoop (lengthen delay) rounds
      (delay :: slept, last)

/-- The delays of the second loop of `file_next`, which goes on with the delay of the first. -/
def secondLoop (rounds : ℕ) (delay : ℚ) : List ℚ := delays (· * 1.057329) rounds delay

/-- `file_next`. -/
def fileNext (first : List Round) (second : ℕ) : List ℚ :=
  let (slept, delay) := firstLoop 1 first
  slept ++ secondLoop second delay

/-- The product does not overflow, `nanosleep` accepts it, and the thread sleeps. -/
def Sleeps (delay : ℚ) : Prop :=
  ∃ nsec, (truncate delay).bind escpDelay = some nsec ∧ 0 < nsec ∧ nsec < 10 ^ 9

/-! ## A single delay -/

section Single

variable {delay : ℚ} {value : ℤ}

theorem int_of_fits (low : 0 ≤ value) (high : value < 2 ^ 31) : int value = some value :=
  if_pos ⟨by omega, high⟩

theorem eq_of_int {result : ℤ} (held : int value = some result) : value = result := by
  rw [int] at held
  split at held
  · exact Option.some.inj held
  · cases held

theorem escpDelay_of_lt (low : 0 ≤ value) (high : value < 1000) :
    escpDelay value = some (value * 1000 * 1000) := by
  rw [escpDelay, int_of_fits (by omega) (by omega), Option.bind_some,
    int_of_fits (by omega) (by omega)]

theorem eq_of_escpDelay {nsec : ℤ} (held : escpDelay value = some nsec) :
    nsec = value * 1000 * 1000 := by
  obtain ⟨micros, first, second⟩ := Option.bind_eq_some_iff.mp held
  rw [eq_of_int first, eq_of_int second]

/-- A delay of a millisecond or more is slept exactly if it is shorter than a second. -/
theorem sleeps_iff (low : 1 ≤ delay) : Sleeps delay ↔ delay < 1000 := by
  have positive : 0 ≤ delay := by linarith
  have floor_low : 1 ≤ ⌊delay⌋ := Int.le_floor.mpr (by exact_mod_cast low)
  have floor_lt : ⌊delay⌋ < 1000 ↔ delay < 1000 := by
    rw [Int.floor_lt]
    norm_num
  constructor
  · rintro ⟨nsec, held, -, short⟩
    obtain ⟨x, cut, slept⟩ := Option.bind_eq_some_iff.mp held
    rw [truncate, if_pos positive] at cut
    have same := eq_of_int cut
    have product := eq_of_escpDelay slept
    apply floor_lt.mp
    omega
  · intro short
    have below := floor_lt.mpr short
    have cut : truncate delay = some ⌊delay⌋ := by
      rw [truncate, if_pos positive, int_of_fits (by omega) (by omega)]
    refine ⟨⌊delay⌋ * 1000 * 1000, ?_, by omega, by omega⟩
    rw [cut, Option.bind_some, escpDelay_of_lt (by omega) below]

end Single

/-! ## Loops -/

theorem forall_delays_iff {Holds : ℚ → Prop} {next : ℚ → ℚ} {rounds : ℕ} {delay : ℚ} :
    (∀ slept ∈ delays next rounds delay, Holds slept) ↔
      ∀ round < rounds, Holds (next^[round] delay) := by
  induction rounds generalizing delay with
  | zero => simp [delays]
  | succ rounds ih =>
      rw [delays, List.forall_mem_cons, ih, Nat.forall_lt_succ_left]
      rfl

/-- A loop that multiplies its delay sleeps as long as the delay is below a second. -/
theorem forall_sleeps_iff {factor delay : ℚ} (grows : 1 ≤ factor) (low : 1 ≤ delay) {rounds : ℕ} :
    (∀ slept ∈ delays (· * factor) rounds delay, Sleeps slept) ↔
      ∀ round < rounds, delay * factor ^ round < 1000 := by
  rw [forall_delays_iff]
  apply forall₂_congr
  intro round _
  rw [mul_right_iterate]
  apply sleeps_iff
  exact one_le_mul_of_one_le_of_one_le low (one_le_pow₀ grows)

theorem lengthen_bounds {delay : ℚ} (low : 1 ≤ delay) (high : delay ≤ 150) :
    1 ≤ lengthen delay ∧ lengthen delay ≤ 150 := by
  simp only [lengthen]
  split
  · constructor <;> linarith
  · constructor <;> linarith

/-- The first loop of `file_next` keeps its delay between a millisecond and 150. -/
theorem firstLoop_bounds (rounds : List Round) {delay : ℚ} (low : 1 ≤ delay)
    (high : delay ≤ 150) :
    (∀ slept ∈ (firstLoop delay rounds).1, 1 ≤ slept ∧ slept ≤ 150) ∧
      1 ≤ (firstLoop delay rounds).2 ∧ (firstLoop delay rounds).2 ≤ 150 := by
  induction rounds generalizing delay with
  | nil => exact ⟨by simp [firstLoop], low, high⟩
  | cons round rounds ih =>
      cases round with
      | raced => exact ih low high
      | idle =>
          obtain ⟨next_low, next_high⟩ := lengthen_bounds low high
          obtain ⟨slept, last⟩ := ih next_low next_high
          refine ⟨?_, last⟩
          simp only [firstLoop, List.forall_mem_cons]
          exact ⟨⟨low, high⟩, slept⟩

/-- The delays of `file_wait` stay below a second for 51 rounds. -/
theorem fileWait_iff (rounds : ℕ) : (∀ slept ∈ fileWait rounds, Sleeps slept) ↔ rounds ≤ 51 := by
  have below : (3 : ℚ) * 1.121743 ^ 50 < 1000 := by norm_num
  have above : (1000 : ℚ) ≤ 3 * 1.121743 ^ 51 := by norm_num
  rw [fileWait, forall_sleeps_iff (by norm_num) (by norm_num)]
  constructor
  · intro short
    by_contra many
    exact absurd (short 51 (by omega)) (not_lt.mpr above)
  · intro few round inside
    calc
      (3 : ℚ) * 1.121743 ^ round ≤ 3 * 1.121743 ^ 50 := by
        have earlier : round ≤ 50 := by omega
        have grows : (1 : ℚ) ≤ 1.121743 := by norm_num
        linarith [pow_le_pow_right₀ grows earlier]
      _ < 1000 := below

/-- Every delay is slept exactly if `file_wait` makes at most 51 rounds and the second loop of
`file_next` ends before its delay comes to a second.  The first loop always sleeps. -/
theorem sleeps_iff_short (waits : ℕ) (first : List Round) (second : ℕ) :
    (∀ delay ∈ fileWait waits ++ fileNext first second, Sleeps delay) ↔
      waits ≤ 51 ∧ ∀ round < second, (firstLoop 1 first).2 * 1.057329 ^ round < 1000 := by
  obtain ⟨slept, low, -⟩ := firstLoop_bounds first (le_refl 1) (by norm_num)
  have first_sleeps : ∀ delay ∈ (firstLoop 1 first).1, Sleeps delay := by
    intro delay mem
    obtain ⟨long, short⟩ := slept delay mem
    exact (sleeps_iff long).mpr (by linarith)
  have second_sleeps := @forall_sleeps_iff 1.057329 _ (by norm_num) low second
  rw [List.forall_mem_append, fileWait_iff, fileNext, List.forall_mem_append,
    and_iff_right first_sleeps, secondLoop, second_sleeps]

/-- In the 52nd round of `file_wait`, `nanosleep` is asked for more than a second. -/
theorem not_sleeps_of_waits :
    (truncate (3 * 1.121743 ^ 51)).bind escpDelay = some 1051000000 ∧
      ¬∀ waits first second, ∀ delay ∈ fileWait waits ++ fileNext first second, Sleeps delay := by
  constructor
  · have positive : (0 : ℚ) ≤ 3 * 1.121743 ^ 51 := by positivity
    have floor : ⌊(3 : ℚ) * 1.121743 ^ 51⌋ = 1051 := by
      rw [Int.floor_eq_iff]
      norm_num
    rw [truncate, if_pos positive, floor]
    rfl
  · intro sleeps
    have short := (fileWait_iff 52).mp fun delay mem =>
      sleeps 52 [] 0 delay (List.mem_append_left _ mem)
    omega

end BackOff
end EScp
