import EScp.NetworkObj

/-!
# What a positive result of `network_send` says

`network_send` adds up what up to three calls of `write_fixed` return, errors included, in unsigned
variables.  The sum is positive when everything has been written, but also when one call has failed
and another has not.
-/

namespace EScp
namespace Network

/-! ## `write_fixed` -/

/-- How a call of `write_fixed` ends. -/
structure Fixed where
  /-- What it returns. -/
  value : Int
  /-- The bytes that the socket has accepted. -/
  accepted : Nat
  /-- The results of `write` that are left. -/
  rest : List Int
deriving DecidableEq

/-- The loop of `io_fixed`, given what the calls of `write` return: at most what they are asked to
write, 0 or -1.  It fails when a result is missing or is none of these. -/
def ioFixed (sz bytesTotal : Nat) : List Int → Option Fixed
  | [] => if bytesTotal < sz then none else some ⟨bytesTotal, bytesTotal, []⟩
  | result :: results =>
      if bytesTotal < sz then
        if result < -1 ∨ sz - bytesTotal < result then none
        else if result < 1 then some ⟨result, bytesTotal, results⟩
        else ioFixed sz (bytesTotal + result.toNat) results
      else
        some ⟨bytesTotal, bytesTotal, result :: results⟩

/-- `write_fixed`. -/
def writeFixed (sz : Nat) (results : List Int) : Option Fixed := ioFixed sz 0 results

/-- A call of `write_fixed` writes everything or returns 0 or -1. -/
def Fixed.Ok (sz : Nat) (out : Fixed) : Prop :=
  out.value = sz ∧ out.accepted = sz ∨
    out.accepted < sz ∧ (out.value = 0 ∨ out.value = -1)

theorem ioFixed_ok {sz bytesTotal : Nat} {results : List Int} {out : Fixed}
    (inside : bytesTotal ≤ sz) (taken : ioFixed sz bytesTotal results = some out) : out.Ok sz := by
  induction results generalizing bytesTotal with
  | nil =>
      obtain ⟨full, done⟩ := Option.ite_none_left_eq_some.mp taken
      obtain rfl := Option.some.inj done
      have all : bytesTotal = sz := by omega
      exact .inl ⟨congrArg Nat.cast all, all⟩
  | cons result results ih =>
      rw [ioFixed] at taken
      split at taken
      · rename_i room
        obtain ⟨legal, more⟩ := Option.ite_none_left_eq_some.mp taken
        split at more
        · obtain rfl := Option.some.inj more
          refine .inr ⟨room, ?_⟩
          change result = 0 ∨ result = -1
          omega
        · exact ih (by omega) more
      · obtain rfl := Option.some.inj taken
        have all : bytesTotal = sz := by omega
        exact .inl ⟨congrArg Nat.cast all, all⟩

theorem writeFixed_ok {sz : Nat} {results : List Int} {out : Fixed}
    (taken : writeFixed sz results = some out) : out.Ok sz :=
  ioFixed_ok (Nat.zero_le _) taken

/-! ## `network_send` -/

/-- The calls of `write_fixed` in a call of `network_send`; one that is not made writes nothing. -/
structure Emission where
  header : Fixed
  payload : Fixed
  tag : Fixed
deriving DecidableEq

/-- No call. -/
def Fixed.unused (rest : List Int) : Fixed := ⟨0, 0, rest⟩

/-- The call would begin a frame whose counter is used up, and ends the process. -/
def Exceeds (knob : NetworkObj) (didHeader : Bool) (args : SendArgs) : Prop :=
  didHeader = false ∧ (knob.count args.subheader).ivIncr.getLsbD 61 = true

instance (knob : NetworkObj) (didHeader : Bool) (args : SendArgs) :
    Decidable (Exceeds knob didHeader args) := by
  unfold Exceeds
  infer_instance

/-- The calls of `write_fixed` of a call on an encrypted connection that returns. -/
def emit (knob : NetworkObj) (didHeader : Bool) (args : SendArgs) (sz : Nat)
    (results : List Int) : Option Emission :=
  if Exceeds knob didHeader args then none
  else
    (if didHeader then some (Fixed.unused results) else writeFixed 8 results).bind fun header =>
      if didHeader = false ∧ BitVec.ofInt 64 header.value < 8 then
        some ⟨header, Fixed.unused header.rest, Fixed.unused header.rest⟩
      else
        (writeFixed sz header.rest).bind fun payload =>
          if args.isPartial = true ∨ BitVec.ofInt 64 payload.value < 1 then
            some ⟨header, payload, Fixed.unused payload.rest⟩
          else
            (writeFixed 16 payload.rest).map fun tag => ⟨header, payload, tag⟩

/-- How `network_send` ends when these are its calls. -/
def Emission.sent (emission : Emission) (knob : NetworkObj) (didHeader : Bool) (args : SendArgs) :
    Sent :=
  networkSend knob didHeader args
    ⟨emission.header.value, emission.payload.value, emission.tag.value⟩

/-- What a call returns, unless it ends the process. -/
def Sent.value : Sent → Option Int
  | .exit => none
  | .refused _ => some (-1)
  | .done _ _ value _ => some value.toInt

/-- The socket has accepted all that the call had to emit. -/
structure Emission.Whole (emission : Emission) (didHeader : Bool) (args : SendArgs) (sz : Nat) :
    Prop where
  header : didHeader = false → emission.header.accepted = 8
  payload : emission.payload.accepted = sz
  tag : args.isPartial = false → emission.tag.accepted = 16

/-- A positive result says that everything has been written. -/
def Emission.Sound (emission : Emission) (knob : NetworkObj) (didHeader : Bool) (args : SendArgs)
    (sz : Nat) : Prop :=
  ∀ value, (emission.sent knob didHeader args).value = some value → 0 < value →
    emission.Whole didHeader args sz

/-- The payload is not written and nothing else is, or it is written and so is everything else, or
it is one byte and the last call fails. -/
def Emission.Told (emission : Emission) (didHeader : Bool) (args : SendArgs) (sz : Nat) : Prop :=
  if emission.payload.value = 0 then
    True
  else if emission.payload.value = -1 then
    (didHeader = false → emission.header.value ≠ 8) ∧
      (args.isPartial = false → emission.tag.value ≠ 16)
  else
    (didHeader = false → emission.header.value = 8) ∧
        (args.isPartial = false → emission.tag.value = 16) ∨
      sz = 1 ∧ (args.isPartial = false → emission.tag.value = -1)

section Values

/-- Small numbers keep their sign. -/
theorem toInt_ofInt_small {value : Int} (low : -2 ^ 40 < value) (high : value < 2 ^ 40) :
    (BitVec.ofInt 64 value).toInt = value := by
  rw [BitVec.toInt_ofInt, Int.bmod_eq_of_le]
  · omega
  · omega

/-- What is less than 1 without a sign is 0. -/
theorem ofInt_lt_one {value : Int} (low : -2 ^ 40 < value) (high : value < 2 ^ 40) :
    BitVec.ofInt 64 value < 1 ↔ value = 0 := by
  constructor
  · intro less
    have zero : BitVec.ofInt 64 value = 0 := BitVec.eq_of_toNat_eq (Nat.lt_one_iff.mp less)
    rw [← toInt_ofInt_small low high, zero]
    rfl
  · rintro rfl
    decide

theorem ofInt_lt_eight {value : Int} (ok : value = 8 ∨ value = 0 ∨ value = -1) :
    BitVec.ofInt 64 value < 8 ↔ value = 0 := by
  rcases ok with rfl | rfl | rfl <;> decide

/-- What `network_send` returns after its header, without words. -/
def payloadValue (isPartial : Bool) (sent payload tag : Int) : Int :=
  if payload = 0 then 0
  else if isPartial then sent + payload
  else if payload + tag = 0 then 0
  else sent + payload + (payload + tag)

theorem sendPayload_value (args : SendArgs) (header : Int) {payload tag sent : Int}
    (sent_small : -1 ≤ sent ∧ sent ≤ 8) (payload_small : -1 ≤ payload ∧ payload < 2 ^ 31)
    (tag_small : -1 ≤ tag ∧ tag ≤ 16) :
    (sendPayload args ⟨header, payload, tag⟩ (BitVec.ofInt 64 sent)).1.toInt =
      payloadValue args.isPartial sent payload tag := by
  have payload_zero : BitVec.ofInt 64 payload < 1 ↔ payload = 0 :=
    ofInt_lt_one (by omega) (by omega)
  have both_zero : BitVec.ofInt 64 payload + BitVec.ofInt 64 tag < 1 ↔ payload + tag = 0 := by
    rw [← BitVec.ofInt_add]
    exact ofInt_lt_one (by omega) (by omega)
  rw [sendPayload, payloadValue]
  dsimp only
  simp only [payload_zero, both_zero]
  split
  · rename_i zero
    rw [zero]
    rfl
  · split
    · rw [← BitVec.ofInt_add]
      exact toInt_ofInt_small (by omega) (by omega)
    · split
      · rename_i cancel
        rw [← BitVec.ofInt_add, cancel]
        rfl
      · rw [← BitVec.ofInt_add, ← BitVec.ofInt_add, ← BitVec.ofInt_add]
        exact toInt_ofInt_small (by omega) (by omega)

end Values

section Emit

variable {knob : NetworkObj} {didHeader : Bool} {args : SendArgs} {sz : Nat}
  {results : List Int} {emission : Emission}

/-- What the calls of `write_fixed` return. -/
structure Emission.Legal (emission : Emission) (didHeader : Bool) (args : SendArgs) (sz : Nat) :
    Prop where
  skipped : didHeader = true → emission.header.value = 0
  header : didHeader = false → emission.header.Ok 8
  refused : didHeader = false → emission.header.value = 0 → emission.payload.value = 0
  payload : emission.payload.value ≠ 0 → emission.payload.Ok sz
  tag : args.isPartial = false → emission.payload.value ≠ 0 → emission.tag.Ok 16
  noTag : args.isPartial = true ∨ emission.payload.value = 0 → emission.tag.value = 0

theorem Fixed.Ok.small {out : Fixed} (ok : out.Ok sz) (bound : sz < 2 ^ 31) :
    -1 ≤ out.value ∧ out.value < 2 ^ 31 := by
  rcases ok with ⟨value, -⟩ | ⟨-, value | value⟩
  · omega
  · omega
  · omega

theorem emit_legal (bound : sz < 2 ^ 31)
    (taken : emit knob didHeader args sz results = some emission) :
    emission.Legal didHeader args sz := by
  obtain ⟨-, begun⟩ := Option.ite_none_left_eq_some.mp taken
  obtain ⟨header, header_taken, more⟩ := Option.bind_eq_some_iff.mp begun
  have skipped : didHeader = true → header.value = 0 := by
    rintro rfl
    rw [← Option.some.inj header_taken]
    rfl
  have header_ok : didHeader = false → header.Ok 8 := by
    rintro rfl
    exact writeFixed_ok header_taken
  split at more
  · obtain rfl := Option.some.inj more
    exact ⟨skipped, header_ok, fun _ _ => rfl, fun written => absurd rfl written,
      fun _ written => absurd rfl written, fun _ => rfl⟩
  · rename_i went_on
    have refused : didHeader = false → header.value ≠ 0 := by
      rintro lowered zero
      exact went_on ⟨lowered, by rw [zero]; decide⟩
    obtain ⟨payload, payload_taken, last⟩ := Option.bind_eq_some_iff.mp more
    have payload_ok := writeFixed_ok payload_taken
    have small := payload_ok.small bound
    have zero_iff : BitVec.ofInt 64 payload.value < 1 ↔ payload.value = 0 :=
      ofInt_lt_one (by omega) (by omega)
    split at last
    · rename_i stops
      obtain rfl := Option.some.inj last
      refine ⟨skipped, header_ok, fun lowered zero => absurd zero (refused lowered),
        fun _ => payload_ok, fun final written => ?_, fun _ => rfl⟩
      rcases stops with stops | stops
      · rw [final] at stops
        cases stops
      · exact absurd (zero_iff.mp stops) written
    · rename_i goes_on
      obtain ⟨tag, tag_taken, rfl⟩ := Option.map_eq_some_iff.mp last
      exact ⟨skipped, header_ok, fun lowered zero => absurd zero (refused lowered),
        fun _ => payload_ok, fun _ _ => writeFixed_ok tag_taken,
        fun stops => absurd (stops.imp_right zero_iff.mpr) goes_on⟩

/-- What the call returns. -/
theorem Emission.Legal.sent_value (legal : emission.Legal didHeader args sz)
    (bound : sz < 2 ^ 31) (crypto : knob.doCrypto = true) (fits : ¬Exceeds knob didHeader args) :
    (emission.sent knob didHeader args).value =
      some (if didHeader = false ∧ emission.header.value = 0 then -1
        else payloadValue args.isPartial emission.header.value emission.payload.value
          emission.tag.value) := by
  have header_ok : emission.header.value = 8 ∨ emission.header.value = 0 ∨
      emission.header.value = -1 := by
    cases didHeader with
    | true => exact .inr (.inl (legal.skipped rfl))
    | false => exact (legal.header rfl).imp And.left And.right
  have payload_small : -1 ≤ emission.payload.value ∧ emission.payload.value < 2 ^ 31 := by
    by_cases zero : emission.payload.value = 0
    · omega
    · exact (legal.payload zero).small bound
  have tag_small : -1 ≤ emission.tag.value ∧ emission.tag.value ≤ 16 := by
    by_cases unused : args.isPartial = true ∨ emission.payload.value = 0
    · rw [legal.noTag unused]
      omega
    · rw [not_or, Bool.not_eq_true] at unused
      rcases legal.tag unused.1 unused.2 with ⟨value, -⟩ | ⟨-, value | value⟩
      · omega
      · omega
      · omega
  have header_small : -1 ≤ emission.header.value ∧ emission.header.value ≤ 8 := by omega
  have value := sendPayload_value args emission.header.value header_small payload_small tag_small
  rw [Emission.sent, networkSend, if_pos crypto]
  cases didHeader with
  | true =>
      rw [legal.skipped rfl] at value
      rw [if_pos rfl, if_neg (by simp), legal.skipped rfl, ← value]
      rfl
  | false =>
      have short := ofInt_lt_eight header_ok
      have room : (knob.count args.subheader).ivIncr.getLsbD 61 = false := by
        rw [Exceeds, not_and, Bool.not_eq_true] at fits
        exact fits rfl
      rw [if_neg Bool.false_ne_true]
      dsimp only
      rw [room, if_neg Bool.false_ne_true]
      by_cases zero : emission.header.value = 0
      · rw [if_pos (short.mpr zero), if_pos ⟨rfl, zero⟩]
        rfl
      · rw [if_neg (short.not.mpr zero), if_neg (fun refused => zero refused.2), ← value]
        rfl

theorem Fixed.Ok.whole_iff {out : Fixed} (ok : out.Ok sz) : out.accepted = sz ↔ out.value = sz := by
  rcases ok with ⟨value, accepted⟩ | ⟨short, value | value⟩
  · exact iff_of_true accepted value
  · exact iff_of_false short.ne (by omega)
  · exact iff_of_false short.ne (by omega)

/-- Once a payload has been begun, what is written shows in what is returned. -/
theorem Emission.Legal.whole_iff (legal : emission.Legal didHeader args sz)
    (written : emission.payload.value ≠ 0) :
    emission.Whole didHeader args sz ↔
      (didHeader = false → emission.header.value = 8) ∧ emission.payload.value = sz ∧
        (args.isPartial = false → emission.tag.value = 16) := by
  have header : didHeader = false → (emission.header.accepted = 8 ↔ emission.header.value = 8) :=
    fun lowered => (legal.header lowered).whole_iff
  have tag : args.isPartial = false → (emission.tag.accepted = 16 ↔ emission.tag.value = 16) :=
    fun final => (legal.tag final written).whole_iff
  have payload := (legal.payload written).whole_iff
  constructor
  · rintro ⟨header_all, payload_all, tag_all⟩
    exact ⟨fun lowered => (header lowered).mp (header_all lowered), payload.mp payload_all,
      fun final => (tag final).mp (tag_all final)⟩
  · rintro ⟨header_all, payload_all, tag_all⟩
    exact ⟨fun lowered => (header lowered).mpr (header_all lowered), payload.mpr payload_all,
      fun final => (tag final).mpr (tag_all final)⟩

/-- `network_send` on an encrypted connection returns something positive only if everything is
written, exactly under this condition on its writes. -/
theorem sound_iff_told (crypto : knob.doCrypto = true) (bound : sz < 2 ^ 31)
    (taken : emit knob didHeader args sz results = some emission) :
    emission.Sound knob didHeader args sz ↔ emission.Told didHeader args sz := by
  have legal := emit_legal bound taken
  have returned := legal.sent_value bound crypto (Option.ite_none_left_eq_some.mp taken).1
  have sound_iff : emission.Sound knob didHeader args sz ↔
      (0 < (if didHeader = false ∧ emission.header.value = 0 then -1
        else payloadValue args.isPartial emission.header.value emission.payload.value
          emission.tag.value) → emission.Whole didHeader args sz) := by
    rw [Emission.Sound, returned]
    simp
  rw [sound_iff]
  by_cases zero : emission.payload.value = 0
  · -- Nothing positive is returned.
    rw [Emission.Told, if_pos zero, payloadValue, if_pos zero]
    refine iff_true_intro fun positive => ?_
    split at positive
    · cases positive
    · cases positive
  · have payload : emission.payload.value = sz ∨ emission.payload.value = -1 := by
      rcases legal.payload zero with ⟨value, -⟩ | ⟨-, value | value⟩
      · exact .inl value
      · exact absurd value zero
      · exact .inr value
    have header : didHeader = false → emission.header.value = 8 ∨ emission.header.value = -1 := by
      intro lowered
      rcases legal.header lowered with ⟨value, -⟩ | ⟨-, value | value⟩
      · exact .inl value
      · exact absurd (legal.refused lowered value) zero
      · exact .inr value
    have tag : args.isPartial = false → emission.tag.value = 16 ∨ emission.tag.value = 0 ∨
        emission.tag.value = -1 := fun final =>
      (legal.tag final zero).imp And.left And.right
    have complete : emission.payload.value = sz → ¬emission.payload.value = -1 := by omega
    rw [legal.whole_iff zero, Emission.Told, if_neg zero, payloadValue, if_neg zero]
    cases didHeader with
    | true =>
        have skipped := legal.skipped rfl
        cases last : args.isPartial with
        | true =>
            simp only [Bool.true_eq_false, false_and, if_false, if_true, false_imp_iff, true_and]
            rcases payload with value | value
            · rw [if_neg (complete value)]
              simp [value]
            · rw [if_pos value]
              simp only [iff_true]
              omega
        | false =>
            have tag := tag last
            simp only [Bool.true_eq_false, Bool.false_eq_true, false_and, if_false, false_imp_iff,
              true_and, forall_const]
            rcases payload with value | value
            · rw [if_neg (complete value)]
              split <;> omega
            · rw [if_pos value]
              split <;> omega
    | false =>
        have header := header rfl
        have refused : ¬emission.header.value = 0 := by omega
        cases last : args.isPartial with
        | true =>
            simp only [refused, Bool.true_eq_false, and_false, if_false, if_true, false_imp_iff,
              and_true, forall_const]
            rcases payload with value | value
            · rw [if_neg (complete value)]
              omega
            · rw [if_pos value]
              omega
        | false =>
            have tag := tag last
            simp only [refused, Bool.false_eq_true, and_false, if_false, forall_const]
            rcases payload with value | value
            · rw [if_neg (complete value)]
              split <;> omega
            · rw [if_pos value]
              split <;> omega

end Emit

/-! ## The first part of a data frame -/

/-- The writes of the first call of `submit_work` when the socket takes all. -/
def shortHead : Emission := ⟨⟨8, 8, [20]⟩, ⟨20, 20, []⟩, ⟨0, 0, []⟩⟩

theorem sound_iff_told_shortHead :
    shortHead.Sound (networkInitTx 7) false ⟨true, fihdrShort⟩ 20 ↔
      shortHead.Told false ⟨true, fihdrShort⟩ 20 :=
  sound_iff_told rfl (by decide)
    (by decide +kernel :
      emit (networkInitTx 7) false ⟨true, fihdrShort⟩ 20 [8, 20] = some shortHead)

/-- The header is written and the payload is not, and the call returns 7. -/
theorem not_sound_of_emit :
    ¬∀ (knob : NetworkObj) (didHeader : Bool) (args : SendArgs) (sz : Nat) (results : List Int)
      (emission : Emission), knob.doCrypto = true → sz < 2 ^ 31 →
        emit knob didHeader args sz results = some emission →
          emission.Sound knob didHeader args sz := by
  intro sound
  have calls : emit (networkInitTx 7) false ⟨true, fihdrShort⟩ 20 [8, -1] =
      some ⟨⟨8, 8, [-1]⟩, ⟨-1, 0, []⟩, ⟨0, 0, []⟩⟩ := by
    decide +kernel
  have returned : (Emission.sent ⟨⟨8, 8, [-1]⟩, ⟨-1, 0, []⟩, ⟨0, 0, []⟩⟩ (networkInitTx 7) false
      ⟨true, fihdrShort⟩).value = some 7 := by
    decide +kernel
  have whole := sound _ _ _ _ _ _ rfl (by decide) calls 7 returned (by decide)
  exact absurd whole.payload (by decide)

end Network
end EScp
