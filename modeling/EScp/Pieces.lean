import Mathlib.Data.List.Basic

/-!
# Reading a stream that comes in pieces

The bytes of a connection reach `read` in pieces.  A read takes the next piece, or as much of it as
was asked for; a read that finds no piece, or an empty one, has come to the end.  `io_fixed` reads
on until it has what it was asked for, so what it returns does not depend on the pieces.
-/

namespace EScp

/-- `read_fixed` of `size` bytes: the bytes and the pieces that are left, or nothing when a read
returns 0. -/
def readFixed : Nat → List (List UInt8) → Option (List UInt8 × List (List UInt8))
  | 0, pieces => some ([], pieces)
  | _ + 1, [] => none
  | _ + 1, [] :: _ => none
  | size + 1, piece :: pieces =>
      if piece.length ≤ size + 1 then
        (readFixed (size + 1 - piece.length) pieces).map fun read => (piece ++ read.1, read.2)
      else
        some (piece.take (size + 1), piece.drop (size + 1) :: pieces)

/-- What is read comes first in the stream, has the length asked for and leaves the rest. -/
theorem readFixed_sound {size : Nat} {pieces later : List (List UInt8)} {data : List UInt8}
    (read : readFixed size pieces = some (data, later)) :
    data.length = size ∧ pieces.flatten = data ++ later.flatten := by
  fun_induction readFixed size pieces generalizing data with
  | case1 pieces =>
      obtain ⟨rfl, rfl⟩ := Prod.mk.inj (Option.some.inj read)
      exact ⟨rfl, rfl⟩
  | case2 => cases read
  | case3 => cases read
  | case4 size piece pieces _ fits ih =>
      obtain ⟨⟨rest, left⟩, found, made⟩ := Option.map_eq_some_iff.mp read
      obtain ⟨rfl, rfl⟩ := Prod.mk.inj made
      obtain ⟨length_eq, flatten_eq⟩ := ih found
      refine ⟨?_, ?_⟩
      · rw [List.length_append, length_eq]
        omega
      · rw [List.flatten_cons, flatten_eq, List.append_assoc]
  | case5 size piece pieces _ longer =>
      obtain ⟨rfl, rfl⟩ := Prod.mk.inj (Option.some.inj read)
      refine ⟨?_, ?_⟩
      · rw [List.length_take]
        omega
      · rw [List.flatten_cons, List.flatten_cons, ← List.append_assoc, List.take_append_drop]

/-- Whatever the pieces are, the first bytes of the stream are read, and the rest is left in
pieces again. -/
theorem readFixed_of_flatten {pieces : List (List UInt8)} {data rest : List UInt8}
    (positive : ∀ piece ∈ pieces, piece ≠ []) (whole : pieces.flatten = data ++ rest) :
    ∃ later, readFixed data.length pieces = some (data, later) ∧ later.flatten = rest ∧
      ∀ piece ∈ later, piece ≠ [] := by
  induction pieces generalizing data with
  | nil =>
      obtain ⟨rfl, rfl⟩ := List.append_eq_nil_iff.mp whole.symm
      exact ⟨[], rfl, rfl, positive⟩
  | cons piece pieces ih =>
      cases data with
      | nil => exact ⟨piece :: pieces, by simp [readFixed], whole, positive⟩
      | cons byte data =>
          have some_piece := positive piece (List.mem_cons_self ..)
          have later_positive : ∀ other ∈ pieces, other ≠ [] :=
            fun other mem => positive other (List.mem_cons_of_mem _ mem)
          rw [List.flatten_cons] at whole
          have unfolded : readFixed (byte :: data).length (piece :: pieces) =
              if piece.length ≤ data.length + 1 then
                (readFixed (data.length + 1 - piece.length) pieces).map
                  fun read => (piece ++ read.1, read.2)
              else
                some (piece.take (data.length + 1), piece.drop (data.length + 1) :: pieces) := by
            cases piece with
            | nil => exact (some_piece rfl).elim
            | cons first piece => rfl
          have data_first : byte :: data <+: piece ++ pieces.flatten := by
            rw [whole]
            exact List.prefix_append _ _
          rw [unfolded]
          split
          · rename_i fits
            -- The piece is the first part of what is asked for.
            obtain ⟨tail, data_eq⟩ : piece <+: byte :: data :=
              List.prefix_of_prefix_length_le (List.prefix_append _ _) data_first fits
            rw [← data_eq, List.append_assoc] at whole
            obtain ⟨later, found, flatten_eq, left⟩ :=
              ih later_positive (List.append_cancel_left whole)
            have length_eq : data.length + 1 - piece.length = tail.length := by
              have lengths := congrArg List.length data_eq
              rw [List.length_append, List.length_cons] at lengths
              omega
            rw [length_eq, found, ← data_eq]
            exact ⟨later, rfl, flatten_eq, left⟩
          · rename_i longer
            obtain ⟨tail, rfl⟩ : byte :: data <+: piece :=
              List.prefix_of_prefix_length_le data_first (List.prefix_append _ _)
                (by rw [List.length_cons]; omega)
            have taken : (byte :: data ++ tail).take (data.length + 1) = byte :: data :=
              List.take_left' rfl
            have dropped : (byte :: data ++ tail).drop (data.length + 1) = tail :=
              List.drop_left' rfl
            rw [taken, dropped]
            rw [List.append_assoc] at whole
            refine ⟨_, rfl, List.append_cancel_left whole, ?_⟩
            intro other mem
            rcases List.mem_cons.mp mem with rfl | mem
            · rintro rfl
              rw [List.append_nil] at longer
              exact longer (Nat.le_refl _)
            · exact later_positive other mem

end EScp
