import Mathlib.Logic.Function.Basic

/-!
# Block queues

A queue of operations on blocks as its user sees it.  An operation is known by the token that it was
fetched under; the user says where it is to take place, hears that it has taken place, and gives the
token back.  What is observed is the list of calls with what they returned, and a queue accepts them
or not.
-/

namespace EScp

/-- An operation and what has been set on it. -/
structure Operation (Offset Descriptor : Type*) where
  offset : Option Offset
  fd : Option Descriptor
deriving DecidableEq

/-- An operation that takes place somewhere. -/
def Operation.ofPlace {Offset Descriptor : Type*} (place : Offset × Descriptor) :
    Operation Offset Descriptor := ⟨some place.1, some place.2⟩

/-- A call with its arguments and what it has returned. -/
inductive BlockCall (Token Offset Descriptor : Type*) where
  | fetch (token : Token)
  | setOffset (token : Token) (offset : Offset)
  | setFd (token : Token) (fd : Descriptor)
  /-- A token is returned and `offset` with it, after something has been done at `place`. -/
  | submit (token : Token) (place : Offset × Descriptor) (offset : Offset)
  | complete (token : Token)
  /-- A descriptor is released. -/
  | close (fd : Descriptor)

/-- The operations fetched and not completed, and the descriptor of the one completed last. -/
structure BlockQueue (Token Offset Descriptor : Type*) where
  operations : Token → Option (Operation Offset Descriptor)
  completed : Option Descriptor

namespace BlockQueue

variable {Token Offset Descriptor : Type*} [DecidableEq Token] [DecidableEq Offset]
  [DecidableEq Descriptor]

def empty : BlockQueue Token Offset Descriptor := ⟨fun _ => none, none⟩

/-- Change an operation that has been fetched and not been completed. -/
def change (queue : BlockQueue Token Offset Descriptor) (token : Token)
    (set : Operation Offset Descriptor → Operation Offset Descriptor) :
    Option (BlockQueue Token Offset Descriptor) :=
  (queue.operations token).map fun operation =>
    { queue with operations := Function.update queue.operations token (some (set operation)) }

/-- A call is accepted if it does what is expected of the queue. -/
def call (queue : BlockQueue Token Offset Descriptor) :
    BlockCall Token Offset Descriptor → Option (BlockQueue Token Offset Descriptor)
  | .fetch token =>
      some { queue with operations := Function.update queue.operations token (some ⟨none, none⟩) }
  | .setOffset token offset =>
      queue.change token fun operation => { operation with offset := offset }
  | .setFd token fd => queue.change token fun operation => { operation with fd := fd }
  | .submit token place offset =>
      if queue.operations token = some (.ofPlace place) ∧ offset = place.1 then some queue else none
  | .complete token =>
      (queue.operations token).map fun operation =>
        ⟨Function.update queue.operations token none, operation.fd⟩
  | .close fd => if queue.completed = some fd then some queue else none

/-- The calls are accepted one after another. -/
def calls : BlockQueue Token Offset Descriptor → List (BlockCall Token Offset Descriptor) →
    Option (BlockQueue Token Offset Descriptor)
  | queue, [] => some queue
  | queue, first :: rest => (queue.call first).bind fun after => after.calls rest

theorem calls_append (queue : BlockQueue Token Offset Descriptor)
    (left right : List (BlockCall Token Offset Descriptor)) :
    queue.calls (left ++ right) = (queue.calls left).bind fun middle => middle.calls right := by
  induction left generalizing queue with
  | nil => rfl
  | cons first left ih =>
      simp only [List.cons_append, calls]
      cases queue.call first with
      | none => rfl
      | some after => exact ih after

/-- A queue of operations on which everything has been set. -/
def holding (places : Token → Option (Offset × Descriptor)) (completed : Option Descriptor) :
    BlockQueue Token Offset Descriptor where
  operations token := (places token).map Operation.ofPlace
  completed := completed

section Rounds

variable {places : Token → Option (Offset × Descriptor)} {completed : Option Descriptor}
  {token : Token}

omit [DecidableEq Offset] [DecidableEq Descriptor] in
/-- Setting what an operation holds in full. -/
theorem holding_update (place : Option (Offset × Descriptor)) (completed : Option Descriptor) :
    holding (Function.update places token place) completed =
      ⟨Function.update (holding places completed).operations token
        (place.map Operation.ofPlace), completed⟩ := by
  have operations : (holding (Function.update places token place) completed).operations =
      Function.update (holding places completed).operations token
        (place.map Operation.ofPlace) := by
    funext other
    exact Function.apply_update (fun _ => Option.map Operation.ofPlace) places token place other
  exact congrArg (fun operations => BlockQueue.mk operations completed) operations

/-- An operation is fetched and told where to take place. -/
theorem calls_issue (offset : Offset) (fd : Descriptor) :
    (holding places completed).calls [.fetch token, .setOffset token offset, .setFd token fd] =
      some (holding (Function.update places token (some (offset, fd))) completed) := by
  rw [holding_update]
  simp only [calls, call, change, Option.bind_some, Function.update_self, Function.update_idem,
    Option.map_some]
  rfl

/-- An operation takes place and is completed. -/
theorem calls_take {place : Offset × Descriptor} (held : places token = some place) :
    (holding places completed).calls [.submit token place place.1, .complete token] =
      some (holding (Function.update places token none) (some place.2)) := by
  have operation : (holding places completed).operations token = some (.ofPlace place) :=
    congrArg (Option.map Operation.ofPlace) held
  rw [holding_update]
  simp only [calls, call, operation, and_self, if_true, Option.bind_some, Option.map_some]
  rfl

/-- The first half of it. -/
theorem call_submit {place : Offset × Descriptor} (held : places token = some place) :
    (holding places completed).calls [.submit token place place.1] =
      some (holding places completed) := by
  have operation : (holding places completed).operations token = some (.ofPlace place) :=
    congrArg (Option.map Operation.ofPlace) held
  simp [calls, call, operation]

theorem call_close (fd : Descriptor) :
    (holding places (some fd)).calls [.close fd] = some (holding places (some fd)) := by
  simp [calls, call, holding]

end Rounds

end BlockQueue
end EScp
