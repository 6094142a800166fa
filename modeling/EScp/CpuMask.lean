import EScp.Numeral
import Mathlib.Algebra.Order.Sub.Basic
import Mathlib.Data.Nat.Bitwise
import Mathlib.Data.Finset.Union
import Mathlib.Data.Nat.Digits.Lemmas
import Mathlib.Data.Nat.Log
import Mathlib.Order.Lattice.Nat
import Mathlib.Order.Interval.Finset.Nat

/-!
# The CPU mask

`config_tool.py` makes a hexadecimal mask of the list of CPUs that are close to an interface.
`start_escp` decodes the mask that it finds in the configuration file, and `affinity_set` pins its
thread to the CPUs of the mask.  The three do not agree on the order of the bytes, nor on the number
of digits.
-/

namespace EScp
namespace CpuMask

open Numeral

/-! ## The configuration tool -/

/-- `int` of a string of digits. -/
def int (text : List Char) : Option Nat :=
  if text ≠ [] ∧ text.all Char.isDigit then some (Nat.ofDigitChars 10 text 0) else none

/-- The first and the last CPU of an item of `cpulist`. -/
def cpurange (item : List Char) : Option (Nat × Nat) :=
  match item.splitOn '-' with
  | [lo, hi] => (int lo).bind fun lo => (int hi).map fun hi => (lo, hi)
  | lo :: _ => (int lo).map fun lo => (lo, lo)
  | [] => none

/-- `mask | 1 << i` for each CPU of a range. -/
def setRange (mask : Nat) (range : Nat × Nat) : Nat :=
  (List.range' range.1 (range.2 + 1 - range.1)).foldl (fun mask i => mask ||| 1 <<< i) mask

/-- `"%X" % mask`. -/
def percentX (mask : Nat) : List Char := (Nat.toDigits 16 mask).map Char.toUpper

/-- The mask that `config_tool.py` prints for a list of CPUs, unless it fails. -/
def configTool (cpulist : List Char) : Option (List Char) :=
  ((cpulist.splitOn ',').mapM cpurange).map fun ranges => percentX (ranges.foldl setRange 0)

/-! ## The program -/

/-- The value of a hexadecimal digit. -/
def hexVal (c : Char) : Option Nat :=
  if 'A' ≤ c ∧ c ≤ 'F' then some (c.toNat - 'A'.toNat + 10)
  else if 'a' ≤ c ∧ c ≤ 'f' then some (c.toNat - 'a'.toNat + 10)
  else if '0' ≤ c ∧ c ≤ '9' then some (c.toNat - '0'.toNat)
  else none

/-- `hex::decode`, which wants an even number of digits. -/
def decode : List Char → Option (List UInt8)
  | [] => some []
  | [_] => none
  | high :: low :: rest =>
      (hexVal high).bind fun high => (hexVal low).bind fun low =>
        (decode rest).map fun bytes => UInt8.ofNat (high * 16 + low) :: bytes

/-- The fields of `struct dtn_args` for the CPUs. -/
structure Args where
  doAffinity : Bool
  cpumaskLen : Nat
  cpumaskBytes : List UInt8

/-- `start_escp` with the `cpumask` of the configuration file; `expect` panics on a bad one. -/
def startEscp (cpumask : Option (List Char)) : Option Args :=
  match cpumask with
  | none => some ⟨false, 0, List.replicate 32 0⟩
  | some cpumask => (decode cpumask).map fun res =>
      let len := if 31 < res.length then 32 else res.length
      ⟨true, len, res.take len ++ List.replicate (32 - len) 0⟩

/-- What `affinity_set` comes to. -/
inductive Affinity where
  /-- It returns at once. -/
  | unpinned
  /-- `VRFY` fails. -/
  | exited
  /-- It hands a set to `sched_setaffinity`. -/
  | pinned (cpus : Finset Nat)
deriving DecidableEq

/-- `affinity_set`, with what the call of `set_mempolicy` returns.  Zero is success. -/
def affinitySet (setMempolicy : Int) (args : Args) : Affinity :=
  if ¬args.doAffinity then .unpinned
  else
    let set := (Finset.range (args.cpumaskLen * 8)).filter fun i =>
      (args.cpumaskBytes.getD (i / 8) 0).toNat &&& 1 <<< (i &&& 7) ≠ 0
    if setMempolicy = 0 then .exited else .pinned set

/-- The thread of a program that was started with the output of the tool. -/
def configured (cpulist : List Char) (setMempolicy : Int) : Option Affinity :=
  (configTool cpulist).bind fun cpumask =>
    (startEscp (some cpumask)).map (affinitySet setMempolicy)

/-! ## Lists of CPUs -/

/-- A list of CPUs as the kernel prints it. -/
structure CpuList where
  ranges : List (Nat × Nat)
  nonempty : ranges ≠ []
  ordered : ∀ range ∈ ranges, range.1 ≤ range.2 ∧ range.2 < 256

namespace CpuList

/-- A range, which is a single number when it can be. -/
def item (range : Nat × Nat) : List Char :=
  if range.1 = range.2 then Nat.toDigits 10 range.1
  else Nat.toDigits 10 range.1 ++ '-' :: Nat.toDigits 10 range.2

def text (list : CpuList) : List Char := [','].intercalate (list.ranges.map item)

def cpus (list : CpuList) : Finset Nat :=
  list.ranges.toFinset.biUnion fun range => Finset.Icc range.1 range.2

end CpuList

/-- The highest CPU of a set. -/
def top (cpus : Finset Nat) : Nat := cpus.sup id

/-- The CPUs whose bits a mask has when its bytes are read in the other order. -/
def reversed (cpus : Finset Nat) : Finset Nat :=
  (Finset.range (8 * (top cpus / 8 + 1))).filter fun cpu =>
    8 * (top cpus / 8 - cpu / 8) + cpu % 8 ∈ cpus

/-- The bytes of the mask are the same in either order. -/
def Mirrored (cpus : Finset Nat) : Prop :=
  ∀ cpu < 8 * (top cpus / 8 + 1),
    cpu ∈ cpus ↔ 8 * (top cpus / 8 - cpu / 8) + cpu % 8 ∈ cpus

/-! ## The tool reads a list -/

section Tool

variable {number cpu mask : Nat} {range : Nat × Nat}

theorem int_toDigits (number : Nat) : int (Nat.toDigits 10 number) = some number := by
  obtain ⟨nonempty, digits, same⟩ := decimal_toDigits number
  rw [int, if_pos ⟨nonempty, List.all_eq_true.mpr digits⟩, same]

theorem not_mem_toDigits {c : Char} (no_digit : c.isDigit = false) :
    c ∉ Nat.toDigits 10 number := by
  intro mem
  have digit := (decimal_toDigits number).2.1 c mem
  rw [no_digit] at digit
  cases digit

/-- An item of the list is read as its range. -/
theorem cpurange_item (range : Nat × Nat) : cpurange (CpuList.item range) = some range := by
  obtain ⟨lo, hi⟩ := range
  have no_dash : ∀ number, '-' ∉ Nat.toDigits 10 number := fun _ => not_mem_toDigits (by decide)
  rw [cpurange, CpuList.item]
  split_ifs with single
  · obtain rfl : lo = hi := single
    rw [List.splitOn_eq_singleton (no_dash lo)]
    simp only [int_toDigits, Option.map_some]
  · rw [List.splitOn_append_cons_self_of_not_mem (no_dash lo),
      List.splitOn_eq_singleton (no_dash hi)]
    simp only [int_toDigits, Option.bind_some, Option.map_some]

theorem comma_not_mem_item (range : Nat × Nat) : ',' ∉ CpuList.item range := by
  have no_comma : ∀ number, ',' ∉ Nat.toDigits 10 number := fun _ => not_mem_toDigits (by decide)
  rw [CpuList.item]
  split
  · exact no_comma _
  · rw [List.mem_append, List.mem_cons]
    rintro (first | dash | last)
    · exact no_comma _ first
    · cases dash
    · exact no_comma _ last

/-- The mask that the tool prints. -/
theorem configTool_text (list : CpuList) :
    configTool list.text = some (percentX (list.ranges.foldl setRange 0)) := by
  have items : list.text.splitOn ',' = list.ranges.map CpuList.item := by
    apply List.splitOn_intercalate
    · intro item mem
      obtain ⟨range, -, rfl⟩ := List.mem_map.mp mem
      exact comma_not_mem_item range
    · simpa using list.nonempty
  have read : (list.ranges.map CpuList.item).mapM cpurange = some list.ranges := by
    induction list.ranges with
    | nil => rfl
    | cons range ranges ih => simp [cpurange_item, ih]
  rw [configTool, items, read, Option.map_some]

theorem testBit_setRange (mask : Nat) (range : Nat × Nat) (cpu : Nat) :
    (setRange mask range).testBit cpu ↔ mask.testBit cpu ∨ (range.1 ≤ cpu ∧ cpu ≤ range.2) := by
  have general : ∀ (cpus : List Nat) (mask : Nat),
      (cpus.foldl (fun mask i => mask ||| 1 <<< i) mask).testBit cpu ↔
        mask.testBit cpu ∨ cpu ∈ cpus := by
    intro cpus
    induction cpus with
    | nil => simp
    | cons first cpus ih =>
        intro mask
        rw [List.foldl_cons, ih, Nat.testBit_or, Nat.one_shiftLeft, Nat.testBit_two_pow]
        rw [Bool.or_eq_true, decide_eq_true_eq, List.mem_cons, or_assoc, @eq_comm _ cpu first]
  rw [setRange, general, List.mem_range'_1]
  apply or_congr_right
  omega

/-- The bits of the mask are the CPUs of the list. -/
theorem testBit_mask (list : CpuList) (cpu : Nat) :
    (list.ranges.foldl setRange 0).testBit cpu ↔ cpu ∈ list.cpus := by
  have general : ∀ (ranges : List (Nat × Nat)) (mask : Nat),
      (ranges.foldl setRange mask).testBit cpu ↔
        mask.testBit cpu ∨ ∃ range ∈ ranges, range.1 ≤ cpu ∧ cpu ≤ range.2 := by
    intro ranges
    induction ranges with
    | nil => simp
    | cons range ranges ih =>
        intro mask
        rw [List.foldl_cons, ih, testBit_setRange, or_assoc, List.exists_mem_cons_iff]
  rw [general]
  simp [CpuList.cpus]

theorem lt_of_mem_cpus {list : CpuList} (mem : cpu ∈ list.cpus) : cpu < 256 := by
  rw [CpuList.cpus, Finset.mem_biUnion] at mem
  obtain ⟨range, member, within⟩ := mem
  have ordered := list.ordered range (List.mem_toFinset.mp member)
  have last := (Finset.mem_Icc.mp within).2
  omega

theorem le_top {cpus : Finset Nat} (mem : cpu ∈ cpus) : cpu ≤ top cpus :=
  Finset.le_sup (f := id) mem

theorem top_mem (list : CpuList) : top list.cpus ∈ list.cpus := by
  obtain ⟨range, mem⟩ := List.exists_mem_of_ne_nil _ list.nonempty
  have some_cpu : range.1 ∈ list.cpus := by
    rw [CpuList.cpus, Finset.mem_biUnion]
    refine ⟨range, List.mem_toFinset.mpr mem, ?_⟩
    rw [Finset.mem_Icc]
    exact ⟨le_rfl, (list.ordered range mem).1⟩
  obtain ⟨highest, member, same⟩ := Finset.exists_mem_eq_sup list.cpus ⟨_, some_cpu⟩ id
  rw [top, same]
  exact member

/-- The highest bit is the highest CPU. -/
theorem log_mask (list : CpuList) :
    list.ranges.foldl setRange 0 ≠ 0 ∧
      Nat.log 2 (list.ranges.foldl setRange 0) = top list.cpus := by
  have low := Nat.ge_two_pow_of_testBit ((testBit_mask list _).mpr (top_mem list))
  have high : list.ranges.foldl setRange 0 < 2 ^ (top list.cpus + 1) := by
    apply Nat.lt_pow_two_of_testBit
    intro cpu above
    rw [Bool.eq_false_iff]
    intro set
    have below := le_top ((testBit_mask list cpu).mp set)
    omega
  refine ⟨?_, Nat.log_eq_of_pow_le_of_lt_pow low high⟩
  have positive := Nat.two_pow_pos (top list.cpus)
  omega

end Tool

/-! ## The program decodes a mask -/

section Decoding

variable {mask : Nat}

theorem hexVal_digitChar {digit : Nat} (small : digit < 16) :
    hexVal digit.digitChar.toUpper = some digit := by
  have all : ∀ digit : Fin 16, hexVal digit.val.digitChar.toUpper = some digit.val := by decide
  exact all ⟨digit, small⟩

/-- Two more digits are one more byte. -/
theorem decode_append {high low : Nat} (high_small : high < 16) (low_small : low < 16)
    (digits : List Char) :
    decode (digits ++ [high.digitChar.toUpper, low.digitChar.toUpper]) =
      (decode digits).map fun bytes => bytes ++ [UInt8.ofNat (high * 16 + low)] := by
  fun_induction decode digits with
  | case1 => simp [decode, hexVal_digitChar high_small, hexVal_digitChar low_small]
  | case2 digit => simp [decode, hexVal_digitChar high_small]
  | case3 first second rest ih =>
      simp only [List.cons_append, decode, ih]
      cases hexVal first <;> cases hexVal second <;> cases decode rest <;> rfl

theorem percentX_of_ge (large : 16 ≤ mask) :
    percentX mask = percentX (mask / 16) ++ [(mask % 16).digitChar.toUpper] := by
  rw [percentX, Nat.toDigits_of_base_le (by decide) large, List.map_append]
  rfl

/-- A mask of more than a byte ends with the digits of its lowest byte. -/
theorem percentX_byte (large : 256 ≤ mask) :
    percentX mask = percentX (mask / 256) ++
      [(mask / 16 % 16).digitChar.toUpper, (mask % 16).digitChar.toUpper] := by
  have upper : 16 ≤ mask / 16 := by omega
  rw [percentX_of_ge (by omega), percentX_of_ge upper, Nat.div_div_eq_div_mul, List.append_assoc]
  rfl

theorem log_byte (large : 256 ≤ mask) : Nat.log 2 mask = Nat.log 2 (mask / 256) + 8 := by
  have eight : 8 ≤ Nat.log 2 mask := Nat.le_log_of_pow_le (by decide) large
  have shifted := Nat.log_div_base_pow 2 mask 8
  norm_num at shifted
  omega

/-- The mask is decoded if its highest bit is in the upper half of a byte; the bytes come from the
highest to the lowest. -/
theorem decode_percentX (positive : mask ≠ 0) :
    decode (percentX mask) = if 4 ≤ Nat.log 2 mask % 8 then
      some ((Nat.digits 256 mask).reverse.map UInt8.ofNat) else none := by
  induction mask using Nat.strong_induction_on with
  | _ mask ih =>
    have digits := Nat.digits_def' (by decide : 1 < 256) (Nat.pos_of_ne_zero positive)
    rcases lt_or_ge mask 16 with nibble | two_digits
    · have low : Nat.log 2 mask < 4 := Nat.log_lt_of_lt_pow positive nibble
      rw [percentX, Nat.toDigits_of_lt_base nibble, if_neg (by omega)]
      rfl
    rcases lt_or_ge mask 256 with byte | more
    · have low : Nat.log 2 mask < 8 := Nat.log_lt_of_lt_pow positive byte
      have high : 4 ≤ Nat.log 2 mask := Nat.le_log_of_pow_le (by decide) two_digits
      have upper : mask / 16 < 16 := by omega
      have value : mask / 16 * 16 + mask % 16 = mask := by omega
      have last := decode_append upper (Nat.mod_lt mask (by decide : 0 < 16)) []
      rw [percentX_of_ge two_digits, percentX, Nat.toDigits_of_lt_base upper, digits,
        Nat.div_eq_of_lt byte, Nat.digits_zero, Nat.mod_eq_of_lt byte, if_pos (by omega)]
      rw [value] at last
      exact last
    · have smaller : mask / 256 < mask := by omega
      have value : mask / 16 % 16 * 16 + mask % 16 = mask % 256 := by omega
      rw [percentX_byte more, decode_append (Nat.mod_lt _ (by decide)) (Nat.mod_lt _ (by decide)),
        ih _ smaller (by omega), value, digits, log_byte more, Nat.add_mod_right]
      split <;> simp

theorem length_digits (positive : mask ≠ 0) :
    (Nat.digits 256 mask).length = Nat.log 2 mask / 8 + 1 := by
  have bytes : ∀ count, 256 ^ count = 2 ^ (8 * count) := fun count => pow_mul 2 8 count ▸ rfl
  rw [Nat.length_digits 256 mask (by decide) positive, Nat.add_left_inj]
  apply Nat.log_eq_of_pow_le_of_lt_pow
  · rw [bytes]
    calc 2 ^ (8 * (Nat.log 2 mask / 8)) ≤ 2 ^ Nat.log 2 mask :=
          Nat.pow_le_pow_right (by decide) (Nat.mul_div_le _ 8)
      _ ≤ mask := Nat.pow_log_le_self 2 positive
  · rw [bytes]
    calc mask < 2 ^ (Nat.log 2 mask + 1) := Nat.lt_pow_succ_log_self (by decide) mask
      _ ≤ 2 ^ (8 * (Nat.log 2 mask / 8 + 1)) := Nat.pow_le_pow_right (by decide) (by omega)

end Decoding

/-! ## The CPUs of the thread -/

section Pinning

variable {mask : Nat}

/-- A bit of a byte of the mask. -/
theorem testBit_digit (mask : Nat) {index cpu : Nat} :
    (UInt8.ofNat ((Nat.digits 256 mask).getD index 0)).toNat &&& 1 <<< (cpu &&& 7) ≠ 0 ↔
      mask.testBit (8 * index + cpu % 8) := by
  have bit : cpu &&& 7 = cpu % 8 := Nat.and_two_pow_sub_one_eq_mod cpu 3
  have byte : (UInt8.ofNat ((Nat.digits 256 mask).getD index 0)).toNat =
      mask / 2 ^ (8 * index) % 2 ^ 8 := by
    rw [Nat.getD_digits mask index (by decide), UInt8.toNat_ofNat', pow_mul]
    exact Nat.mod_mod _ _
  rw [bit, byte, Nat.one_shiftLeft, Nat.and_two_pow, Nat.testBit_mod_two_pow,
    Nat.testBit_div_two_pow]
  have small : cpu % 8 < 8 := Nat.mod_lt cpu (by decide)
  simp [small, Nat.add_comm]

/-- The bytes that the program keeps of a mask of 256 bits. -/
theorem startEscp_percentX (positive : mask ≠ 0) (small : Nat.log 2 mask < 256) :
    startEscp (some (percentX mask)) = if 4 ≤ Nat.log 2 mask % 8 then
      some ⟨true, Nat.log 2 mask / 8 + 1, (Nat.digits 256 mask).reverse.map UInt8.ofNat ++
        List.replicate (32 - (Nat.log 2 mask / 8 + 1)) 0⟩ else none := by
  have length : ((Nat.digits 256 mask).reverse.map UInt8.ofNat).length =
      Nat.log 2 mask / 8 + 1 := by
    rw [List.length_map, List.length_reverse, length_digits positive]
  have kept : (if 31 < Nat.log 2 mask / 8 + 1 then 32 else Nat.log 2 mask / 8 + 1) =
      Nat.log 2 mask / 8 + 1 := by
    split_ifs <;> omega
  rw [startEscp]
  simp only [decode_percentX positive]
  split_ifs with even
  · rw [Option.map_some]
    simp only [length, kept]
    rw [List.take_of_length_le (by rw [length])]
  · rfl

/-- The bits of the bytes that the program keeps. -/
theorem testBit_kept (positive : mask ≠ 0) {cpu : Nat} (zeros : List UInt8)
    (within : cpu < (Nat.log 2 mask / 8 + 1) * 8) :
    (((Nat.digits 256 mask).reverse.map UInt8.ofNat ++ zeros).getD (cpu / 8) 0).toNat &&&
        1 <<< (cpu &&& 7) ≠ 0 ↔
      mask.testBit (8 * (Nat.log 2 mask / 8 - cpu / 8) + cpu % 8) := by
  have length := length_digits positive
  have inside : cpu / 8 < (Nat.digits 256 mask).length := by omega
  have place : (Nat.digits 256 mask).length - 1 - cpu / 8 = Nat.log 2 mask / 8 - cpu / 8 := by omega
  have zero : (0 : UInt8) = UInt8.ofNat 0 := rfl
  have byte : ((Nat.digits 256 mask).reverse.map UInt8.ofNat ++ zeros).getD (cpu / 8) 0 =
      UInt8.ofNat ((Nat.digits 256 mask).getD (Nat.log 2 mask / 8 - cpu / 8) 0) := by
    rw [List.getD_append _ _ _ _ (by simpa using inside), zero, List.getD_map,
      List.getD_reverse _ inside, place]
  rw [byte, testBit_digit]

/-- The thread's CPUs are those of the reversed mask, if the mask has an even number of digits. -/
theorem configured_text (list : CpuList) (setMempolicy : Int) :
    configured list.text setMempolicy =
      if 4 ≤ top list.cpus % 8 then
        some (if setMempolicy = 0 then .exited else .pinned (reversed list.cpus))
      else none := by
  obtain ⟨positive, log⟩ := log_mask list
  have small : Nat.log 2 (list.ranges.foldl setRange 0) < 256 := by
    rw [log]
    exact lt_of_mem_cpus (top_mem list)
  rw [configured, configTool_text, Option.bind_some, startEscp_percentX positive small]
  rw [← log]
  by_cases even : 4 ≤ Nat.log 2 (list.ranges.foldl setRange 0) % 8
  · rw [if_pos even, if_pos even, Option.map_some, affinitySet]
    have same : reversed list.cpus = (Finset.range
        ((Nat.log 2 (list.ranges.foldl setRange 0) / 8 + 1) * 8)).filter fun i =>
          (((Nat.digits 256 (list.ranges.foldl setRange 0)).reverse.map UInt8.ofNat ++
            List.replicate (32 - (Nat.log 2 (list.ranges.foldl setRange 0) / 8 + 1)) 0).getD
              (i / 8) 0).toNat &&& 1 <<< (i &&& 7) ≠ 0 := by
      rw [reversed, ← log, Nat.mul_comm]
      apply Finset.filter_congr
      intro cpu mem
      rw [testBit_kept positive _ (Finset.mem_range.mp mem), testBit_mask]
    rw [same]
    simp
  · rw [if_neg even, if_neg even]
    rfl

theorem reversed_eq_iff {cpus : Finset Nat} : reversed cpus = cpus ↔ Mirrored cpus := by
  have within : ∀ cpu ∈ cpus, cpu < 8 * (top cpus / 8 + 1) := by
    intro cpu mem
    have below := le_top mem
    omega
  rw [Finset.ext_iff]
  constructor
  · intro same cpu inside
    rw [← same cpu, reversed, Finset.mem_filter, Finset.mem_range]
    exact and_iff_right inside
  · intro mirrored cpu
    rw [reversed, Finset.mem_filter, Finset.mem_range]
    constructor
    · intro both
      exact (mirrored cpu both.1).mpr both.2
    · intro mem
      exact ⟨within cpu mem, (mirrored cpu (within cpu mem)).mp mem⟩

/-- Every set of CPUs that the kernel may name has a list. -/
theorem exists_cpuList {cpus : Finset Nat} (nonempty : cpus.Nonempty)
    (small : ∀ cpu ∈ cpus, cpu < 256) : ∃ list : CpuList, list.cpus = cpus := by
  refine ⟨⟨cpus.toList.map fun cpu => (cpu, cpu), ?_, ?_⟩, ?_⟩
  · simpa using nonempty.ne_empty
  · simpa using small
  · ext cpu
    have single : ∀ a, (a ≤ cpu ∧ cpu ≤ a) ↔ a = cpu := fun _ => le_antisymm_iff.symm
    simp [CpuList.cpus, single]

/-- **The mask of the tool.**  The thread is pinned to the CPUs of the list exactly when the call of
`set_mempolicy` fails, the highest CPU is in the upper half of a byte, so that the tool prints an
even number of digits, and the bytes of the mask are the same in either order. -/
theorem selects_iff (list : CpuList) (setMempolicy : Int) :
    configured list.text setMempolicy = some (.pinned list.cpus) ↔
      setMempolicy ≠ 0 ∧ 4 ≤ top list.cpus % 8 ∧ Mirrored list.cpus := by
  rw [configured_text, ← reversed_eq_iff]
  split_ifs with even success
  · simp [success]
  · simp [success, even]
  · simp [even]

/-- The CPUs `8-15`. -/
def upperByte : CpuList := ⟨[(8, 15)], by decide, by decide⟩

/-- The CPUs `0-8`. -/
def nineCpus : CpuList := ⟨[(0, 8)], by decide, by decide⟩

/-- For `8-15` the tool prints `FF00`, and the thread runs on the first eight CPUs.  For `0-8` it
prints `1FF`, and the program panics. -/
theorem not_selects_of_bytes :
    configTool upperByte.text = some ['F', 'F', '0', '0'] ∧
      configured upperByte.text (-1) = some (.pinned (Finset.range 8)) ∧
      configTool nineCpus.text = some ['1', 'F', 'F'] ∧
      configured nineCpus.text (-1) = none ∧
      ¬∀ (list : CpuList) (setMempolicy : Int),
        configured list.text setMempolicy = some (.pinned list.cpus) := by
  have lower : configured upperByte.text (-1) = some (.pinned (Finset.range 8)) := by
    decide +kernel
  refine ⟨by decide +kernel, lower, by decide +kernel, by decide +kernel, ?_⟩
  intro all
  have upper := all upperByte (-1)
  rw [lower] at upper
  revert upper
  decide +kernel

end Pinning

end CpuMask
end EScp
