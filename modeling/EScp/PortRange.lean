import EScp.Numeral
import Mathlib.Data.List.TakeWhile
import Mathlib.Tactic.SplitIfs

/-!
# The port of the receiver

A session begins with a range of ports.  `rx_start` tries one port after another until it can bind
one, and `initialize_receiver` compares the port with the range and announces it.  The search goes
over 101 ports, whatever the length of the range, and the comparison does not see the range.
-/

namespace EScp
namespace PortRange

open Numeral

/-! ## The code -/

/-- The fields of `Session_Init` for the port. -/
structure SessionInit where
  portStart : Int32
  portEnd : Int32
  bindInterface : List Char

/-- What `socket` and `bind` come to for a port. -/
inductive Try where
  | bound
  /-- `bind` returns -1. -/
  | refused
  /-- `socket` returns -1. -/
  | noSocket
deriving DecidableEq

/-- The answers of the kernel. -/
structure Kernel where
  tryPort : UInt16 → Try
  /-- `listen`, `setsockopt` and the exchange of `active_port` succeed. -/
  listens : Bool
  /-- A connection comes within the five seconds of `poll`. -/
  connected : Bool

/-- `getaddrinfo` for a host and a port; the port in the address that it finds.  A decimal number
that is a port is the port. -/
structure Resolver where
  getaddrinfo : List Char → List Char → Option UInt16
  numeric : ∀ host number port, number < 65536 →
    getaddrinfo host (Nat.toDigits 10 number) = some port → port.toNat = number

/-- Why the receiver exits. -/
inductive Failure where
  /-- `CString::new` does not take a zero byte. -/
  | interface
  | lookup
  | socket
  | binding (first last : Nat)
  | listening
  | timedOut
  /-- `"Couldn't assign a port between {} and {}. Got {}"`. -/
  | range (first last got : Int)
deriving DecidableEq

/-- What `initialize_receiver` comes to. -/
inductive Outcome where
  | exited (failure : Failure)
  /-- It sends a session init with the port. -/
  | announced (port : Int)
  /-- It waits for ever. -/
  | silent
deriving DecidableEq

def isspace (c : Char) : Bool := c = ' ' || ('\t' ≤ c && c ≤ '\r')

/-- `strtol` in base ten, unless it sets `errno`. -/
def strtol (text : List Char) : Option Int :=
  let text := text.dropWhile isspace
  let number (digits : List Char) : Int := Nat.ofDigitChars 10 (digits.takeWhile Char.isDigit) 0
  let value := match text with
    | '-' :: digits => -number digits
    | '+' :: digits => number digits
    | digits => number digits
  if -2 ^ 63 ≤ value ∧ value < 2 ^ 63 then some value else none

/-- The port that `dns_lookup` stores in the address. -/
def dnsLookup (resolver : Resolver) (host port : List Char) : Option UInt16 :=
  if host.length < 1 then (strtol port).map UInt16.ofInt else resolver.getaddrinfo host port

/-- The loop of `rx_start` with so many tries left after the next. -/
def bindLoop (kernel : Kernel) : Nat → Nat → Except Failure Nat
  | tries, port =>
      match kernel.tryPort (UInt16.ofNat port) with
      | .noSocket => .error .socket
      | .bound => .ok port
      | .refused =>
          match tries with
          | 0 => .error (.binding (port - 100) port)
          | tries + 1 => bindLoop kernel tries (port + 1)

/-- `rx_start` up to the store of `active_port`. -/
def rxStart (kernel : Kernel) (addr : UInt16) : Except Failure UInt16 :=
  match bindLoop kernel 100 addr.toNat with
  | .error failure => .error failure
  | .ok port => if kernel.listens then .ok (UInt16.ofNat port) else .error .listening

/-- The first port of the range. -/
def SessionInit.first (init : SessionInit) : Int32 :=
  if 0 < init.portStart then init.portStart else 1232

/-- The length of the range. -/
def SessionInit.count (init : SessionInit) : Int32 :=
  if 0 < init.portEnd then init.portEnd else 10

/-- `port_start.to_string()`; the port is positive. -/
def SessionInit.portText (init : SessionInit) : List Char :=
  Nat.toDigits 10 init.first.toInt.toNat

/-- `initialize_receiver`, and the thread of `rx_start`.  As long as `active_port` is zero,
`file_get_activeport` waits, and `rx_start` waits for a connection. -/
def initializeReceiver (resolver : Resolver) (kernel : Kernel) (init : SessionInit) : Outcome :=
  if Char.ofNat 0 ∈ init.bindInterface then .exited .interface
  else
    match dnsLookup resolver init.bindInterface init.portText with
    | none => .exited .lookup
    | some addr =>
        match rxStart kernel addr with
        | .error failure => .exited failure
        | .ok activePort =>
            if activePort = 0 then
              if kernel.connected then .silent else .exited .timedOut
            else
              let port : Int := activePort.toNat
              if port > port + init.count.toInt then
                .exited (.range init.first.toInt (init.first.toInt + init.count.toInt) port)
              else .announced port

/-! ## The range -/

/-- A port of the range. -/
def SessionInit.Contains (init : SessionInit) (port : Int) : Prop :=
  init.first.toInt ≤ port ∧ port ≤ init.first.toInt + init.count.toInt

/-- An announced port is in the range, and without a free port in the range the receiver exits. -/
def Outcome.Keeps (kernel : Kernel) (init : SessionInit) (outcome : Outcome) : Prop :=
  (∀ port, outcome = .announced port → init.Contains port) ∧
    ((∀ port : UInt16, init.Contains port.toNat → kernel.tryPort port ≠ .bound) →
      ∃ failure, outcome = .exited failure)

/-- The address that the receiver binds first. -/
def address (resolver : Resolver) (init : SessionInit) : Option UInt16 :=
  if Char.ofNat 0 ∈ init.bindInterface then none
  else dnsLookup resolver init.bindInterface init.portText

/-- From a port the loop goes so many ports on and finds that one free. -/
def Finds (kernel : Kernel) (port tries : Nat) : Prop :=
  (∀ before < tries, kernel.tryPort (UInt16.ofNat (port + before)) = .refused) ∧
    kernel.tryPort (UInt16.ofNat (port + tries)) = .bound

/-- One of the first 101 ports of the range is not refused. -/
def Open (kernel : Kernel) (init : SessionInit) : Prop :=
  ∃ port : UInt16, init.Contains port.toNat ∧ (port.toNat : Int) ≤ init.first.toInt + 100 ∧
    kernel.tryPort port ≠ .refused

/-- The loop finds no port, or port zero, to which nobody connects. -/
def Closed (kernel : Kernel) (addr : UInt16) : Prop :=
  ∀ tries ≤ 100, Finds kernel addr.toNat tries →
    UInt16.ofNat (addr.toNat + tries) = 0 ∧ kernel.connected = false

/-- Some port of the range is there to be found, or none is found outside. -/
def Kept (resolver : Resolver) (kernel : Kernel) (init : SessionInit) : Prop :=
  ∀ addr, address resolver init = some addr → kernel.listens = true →
    Open kernel init ∨ Closed kernel addr

/-! ## The search -/

section Search

variable {kernel : Kernel} {tries port result : Nat}

theorem finds_zero : Finds kernel port 0 ↔ kernel.tryPort (UInt16.ofNat port) = .bound := by
  rw [Finds, Nat.add_zero]
  exact and_iff_right fun before none_before => absurd none_before (Nat.not_lt_zero before)

theorem finds_succ : Finds kernel port (tries + 1) ↔
    kernel.tryPort (UInt16.ofNat port) = .refused ∧ Finds kernel (port + 1) tries := by
  rw [Finds, Finds, Nat.forall_lt_succ_left, Nat.add_zero, and_assoc]
  simp only [Nat.add_assoc, Nat.add_comm 1]

/-- The loop leaves with the port that it finds. -/
theorem bindLoop_eq_ok_iff :
    bindLoop kernel tries port = .ok result ↔
      ∃ count ≤ tries, Finds kernel port count ∧ result = port + count := by
  induction tries generalizing port with
  | zero =>
      simp only [Nat.le_zero, exists_eq_left, finds_zero, Nat.add_zero]
      rw [bindLoop.eq_def]
      cases answer : kernel.tryPort (UInt16.ofNat port) <;> simp [answer, eq_comm]
  | succ tries ih =>
      rw [bindLoop.eq_def]
      constructor
      · intro left
        cases answer : kernel.tryPort (UInt16.ofNat port) with
        | noSocket => simp [answer] at left
        | bound =>
            simp only [answer, Except.ok.injEq] at left
            exact ⟨0, Nat.zero_le _, finds_zero.mpr answer, left.symm⟩
        | refused =>
            simp only [answer] at left
            obtain ⟨count, within, finds, same⟩ := ih.mp left
            exact ⟨count + 1, by omega, finds_succ.mpr ⟨answer, finds⟩, by omega⟩
      · rintro ⟨count, within, finds, same⟩
        cases count with
        | zero =>
            rw [finds_zero] at finds
            simp [finds, same]
        | succ count =>
            rw [finds_succ] at finds
            simp only [finds.1]
            exact ih.mpr ⟨count, by omega, finds.2, by omega⟩

theorem rxStart_eq_ok_iff {addr activePort : UInt16} :
    rxStart kernel addr = .ok activePort ↔
      kernel.listens = true ∧ ∃ count ≤ 100, Finds kernel addr.toNat count ∧
        activePort = UInt16.ofNat (addr.toNat + count) := by
  rw [rxStart]
  constructor
  · intro started
    split at started
    · cases started
    · rename_i port left
      obtain ⟨count, within, finds, same⟩ := bindLoop_eq_ok_iff.mp left
      split_ifs at started with listens
      obtain rfl : UInt16.ofNat port = activePort := by simpa using started
      exact ⟨listens, count, within, finds, by rw [same]⟩
  · rintro ⟨listens, count, within, finds, rfl⟩
    rw [bindLoop_eq_ok_iff.mpr ⟨count, within, finds, rfl⟩]
    simp [listens]

end Search

/-! ## The announcement -/

section Announcement

variable {resolver : Resolver} {kernel : Kernel} {init : SessionInit}

theorem SessionInit.first_pos (init : SessionInit) : 0 < init.first.toInt := by
  rw [SessionInit.first]
  split_ifs with given
  · exact Int32.lt_iff_toInt_lt.mp given
  · decide

theorem SessionInit.count_pos (init : SessionInit) : 0 < init.count.toInt := by
  rw [SessionInit.count]
  split_ifs with given
  · exact Int32.lt_iff_toInt_lt.mp given
  · decide

/-- The comparison of the port with the range never fails. -/
theorem initializeReceiver_of_bound {addr activePort : UInt16}
    (at_addr : address resolver init = some addr) (started : rxStart kernel addr = .ok activePort) :
    initializeReceiver resolver kernel init =
      if activePort = 0 then if kernel.connected then .silent else .exited .timedOut
      else .announced activePort.toNat := by
  have count_pos := init.count_pos
  rw [address] at at_addr
  split_ifs at at_addr with interface
  rw [initializeReceiver, if_neg interface, at_addr]
  simp only [started]
  split
  · rfl
  · rw [if_neg (by omega)]

theorem initializeReceiver_of_failure
    (no_port : ∀ addr activePort, address resolver init = some addr →
      rxStart kernel addr ≠ .ok activePort) :
    ∃ failure, initializeReceiver resolver kernel init = .exited failure := by
  rw [initializeReceiver]
  split
  · exact ⟨_, rfl⟩
  · rename_i interface
    split
    · exact ⟨_, rfl⟩
    · rename_i addr at_addr
      split
      · exact ⟨_, rfl⟩
      · rename_i activePort started
        refine absurd started (no_port addr activePort ?_)
        rw [address, if_neg interface, at_addr]

theorem isspace_of_isDigit {c : Char} (digit : c.isDigit) : isspace c = false := by
  have least : '0' ≤ c := by
    simp only [Char.isDigit, Bool.and_eq_true, decide_eq_true_eq] at digit
    exact digit.1
  have no_blank : c ≠ ' ' := by
    rintro rfl
    exact absurd least (by decide)
  have no_control : ¬c ≤ '\r' := fun control => absurd (Char.le_trans least control) (by decide)
  simp [isspace, no_blank, no_control]

theorem strtol_decimal {text : List Char} {number : Nat} (decimal : Decimal text number)
    (small : number < 2 ^ 63) : strtol text = some (number : Int) := by
  have minus := decimal.head_ne (show '-'.isDigit = false by decide)
  have plus := decimal.head_ne (show '+'.isDigit = false by decide)
  obtain ⟨nonempty, digits, same⟩ := decimal
  have no_space : text.dropWhile isspace = text := by
    cases text with
    | nil => rfl
    | cons first text =>
        have no_space := isspace_of_isDigit (digits first List.mem_cons_self)
        rw [List.dropWhile_cons_of_neg (by simp [no_space])]
  have all : text.takeWhile Char.isDigit = text := List.takeWhile_eq_self_iff.mpr digits
  rw [strtol]
  simp only [no_space]
  split
  · exact absurd rfl minus
  · exact absurd rfl plus
  · rw [all, same, if_pos (by omega)]

/-- The port of the message, if it is a port. -/
theorem toNat_address {addr : UInt16} (at_addr : address resolver init = some addr)
    (small : init.first.toInt < 65536) : (addr.toNat : Int) = init.first.toInt := by
  have positive := init.first_pos
  rw [address, dnsLookup, SessionInit.portText] at at_addr
  split_ifs at at_addr with interface host
  · rw [strtol_decimal (decimal_toDigits _) (by omega), Option.map_some,
      Option.some.injEq] at at_addr
    rw [← at_addr, Int.toNat_of_nonneg (Int.le_of_lt positive), UInt16.ofInt, UInt16.toNat_ofNat']
    omega
  · have same := resolver.numeric _ _ _ (by omega) at_addr
    omega

theorem Outcome.Keeps.of_exited {outcome : Outcome}
    (exits : ∃ failure, outcome = .exited failure) : outcome.Keeps kernel init := by
  refine ⟨?_, fun _ => exits⟩
  obtain ⟨failure, rfl⟩ := exits
  intro port announced
  cases announced

/-- A port of the range that the loop does not pass by is announced, or one before it. -/
theorem keeps_of_open {addr activePort : UInt16} (at_addr : address resolver init = some addr)
    (started : rxStart kernel addr = .ok activePort) (found : Open kernel init) :
    (initializeReceiver resolver kernel init).Keeps kernel init := by
  obtain ⟨port, ⟨above, below⟩, near, stops⟩ := found
  have positive := init.first_pos
  have port_small := port.toNat_lt
  have at_first := toNat_address at_addr (by omega)
  obtain ⟨-, count, within, finds, rfl⟩ := rxStart_eq_ok_iff.mp started
  have no_later : count ≤ port.toNat - addr.toNat := by
    by_contra later
    have refused := finds.1 (port.toNat - addr.toNat) (by omega)
    rw [Nat.add_sub_cancel' (by omega), UInt16.ofNat_toNat] at refused
    exact stops refused
  have value : (UInt16.ofNat (addr.toNat + count)).toNat = addr.toNat + count := by
    rw [UInt16.toNat_ofNat', Nat.mod_eq_of_lt (by omega)]
  have contained : init.Contains (addr.toNat + count : Nat) := by
    rw [SessionInit.Contains]
    omega
  have nonzero : UInt16.ofNat (addr.toNat + count) ≠ 0 := by
    intro zero
    rw [zero] at value
    have nothing : (0 : UInt16).toNat = 0 := rfl
    omega
  rw [initializeReceiver_of_bound at_addr started, if_neg nonzero, value]
  constructor
  · intro announced same
    cases same
    exact contained
  · intro none_free
    refine absurd finds.2 (none_free _ ?_)
    rwa [value]

/-- A port that is found when none of the range is open lies outside. -/
theorem not_contains_of_finds {addr : UInt16} (at_addr : address resolver init = some addr)
    (closed : ¬Open kernel init) {count : Nat} (within : count ≤ 100)
    (finds : Finds kernel addr.toNat count) :
    ¬init.Contains (UInt16.ofNat (addr.toNat + count)).toNat := by
  rintro ⟨above, below⟩
  have small := (UInt16.ofNat (addr.toNat + count)).toNat_lt
  have at_first := toNat_address at_addr (by omega)
  refine closed ⟨UInt16.ofNat (addr.toNat + count), ⟨above, below⟩, ?_, ?_⟩
  · rw [UInt16.toNat_ofNat']
    have less := Nat.mod_le (addr.toNat + count) (2 ^ 16)
    omega
  · rw [finds.2]
    decide

/-- If the search comes to port zero, then all ports of the range are among the first 101. -/
theorem open_of_zero {addr port : UInt16} (at_addr : address resolver init = some addr)
    {count : Nat} (within : count ≤ 100) (zero : UInt16.ofNat (addr.toNat + count) = 0)
    (contained : init.Contains port.toNat) (free : kernel.tryPort port = .bound) :
    Open kernel init := by
  have positive := init.first_pos
  have above := contained.1
  have addr_small := addr.toNat_lt
  have small := port.toNat_lt
  have at_first := toNat_address at_addr (by omega)
  have wrapped : (addr.toNat + count) % 2 ^ 16 = 0 := by
    rw [← UInt16.toNat_ofNat', zero]
    rfl
  refine ⟨port, contained, by omega, ?_⟩
  rw [free]
  decide

/-- **The port of the receiver.**  The receiver announces a port of the range only, and exits when
no port of the range is free, exactly when its search does not begin or its socket does not listen,
one of the first 101 ports of the range is not refused, or the search finds no port at all, or port
zero when nobody connects. -/
theorem keeps_iff (resolver : Resolver) (kernel : Kernel) (init : SessionInit) :
    (initializeReceiver resolver kernel init).Keeps kernel init ↔ Kept resolver kernel init := by
  constructor
  · intro keeps addr at_addr listens
    by_cases closed : Open kernel init
    · exact .inl closed
    right
    intro count within finds
    have outside := not_contains_of_finds at_addr closed within finds
    have outcome := initializeReceiver_of_bound at_addr
      (rxStart_eq_ok_iff.mpr ⟨listens, count, within, finds, rfl⟩)
    by_cases zero : UInt16.ofNat (addr.toNat + count) = 0
    · refine ⟨zero, ?_⟩
      rw [if_pos zero] at outcome
      by_contra connected
      rw [Bool.not_eq_false] at connected
      have silent : initializeReceiver resolver kernel init = .silent := by
        rw [outcome, if_pos connected]
      obtain ⟨failure, exits⟩ := keeps.2 fun port contained free =>
        closed (open_of_zero at_addr within zero contained free)
      rw [silent] at exits
      cases exits
    · rw [if_neg zero] at outcome
      exact absurd (keeps.1 _ outcome) outside
  · intro kept
    by_cases started : ∃ addr activePort, address resolver init = some addr ∧
        rxStart kernel addr = .ok activePort
    · obtain ⟨addr, activePort, at_addr, started⟩ := started
      obtain ⟨listens, count, within, finds, rfl⟩ := rxStart_eq_ok_iff.mp started
      obtain found | closed := kept addr at_addr listens
      · exact keeps_of_open at_addr started found
      · obtain ⟨zero, alone⟩ := closed count within finds
        apply Outcome.Keeps.of_exited
        rw [initializeReceiver_of_bound at_addr started, if_pos zero, alone]
        exact ⟨_, rfl⟩
    · apply Outcome.Keeps.of_exited
      apply initializeReceiver_of_failure
      intro addr activePort at_addr found
      exact started ⟨addr, activePort, at_addr, found⟩

/-- A resolver that finds an address for every host. -/
def Resolver.everyHost : Resolver where
  getaddrinfo _ text := (parseUnsigned 65536 text).map UInt16.ofNat
  numeric host number port small found := by
    rw [parseUnsigned_decimal (decimal_toDigits number) (by decide), if_pos small,
      Option.map_some, Option.some.injEq] at found
    rw [← found, UInt16.toNat_ofNat', Nat.mod_eq_of_lt small]

/-- A kernel with the ports from 1232 to 1242 in use. -/
def busyKernel : Kernel where
  tryPort port := if 1232 ≤ port ∧ port ≤ 1242 then .refused else .bound
  listens := true
  connected := false

/-- A session whose range is from 1232 to 1242. -/
def elevenPorts : SessionInit := ⟨1232, 10, []⟩

/-- No port of the range is free, and the receiver announces the next one. -/
theorem not_keeps_of_busy :
    initializeReceiver .everyHost busyKernel elevenPorts = .announced 1243 ∧
      (∀ port : UInt16, elevenPorts.Contains port.toNat → busyKernel.tryPort port ≠ .bound) ∧
      ¬∀ (resolver : Resolver) (kernel : Kernel) (init : SessionInit),
        (initializeReceiver resolver kernel init).Keeps kernel init := by
  have announced : initializeReceiver .everyHost busyKernel elevenPorts = .announced 1243 := by
    decide +kernel
  refine ⟨announced, ?_, ?_⟩
  · rintro port ⟨above, below⟩
    have first : elevenPorts.first.toInt = 1232 := by decide
    have count : elevenPorts.count.toInt = 10 := by decide
    have inside : 1232 ≤ port ∧ port ≤ 1242 := by
      rw [UInt16.le_iff_toNat_le, UInt16.le_iff_toNat_le]
      change 1232 ≤ port.toNat ∧ port.toNat ≤ 1242
      omega
    simp [busyKernel, inside]
  · intro all
    have contained := (all .everyHost busyKernel elevenPorts).1 1243 announced
    exact absurd contained.2 (by decide)

end Announcement

end PortRange
end EScp
