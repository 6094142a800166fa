import EScp.Engines
import Mathlib.Data.List.Nodup
import Mathlib.Data.Nat.ModEq

/-!
# The entries of the uring engine

The uring engine has an entry with a buffer for each operation that it can hold.  `file_uringfetch`
hands out the entry that stands in the SQE it gets from `io_uring_get_sqe`, SQEs come in turn, and
what is counted is how many operations are under way.  A client calls the four functions in any
order; the kernel ends what it works on in any order.
-/

namespace EScp
namespace Engines
namespace UringTokens

/-! ## A client -/

/-- An operation that has been fetched and not been passed to `file_uringcomplete`. -/
structure Taken where
  /-- How many have been fetched before it. -/
  number : Nat
  token : Nat
  /-- Where it is to take place, once it has been flushed. -/
  place : Option (UInt64 × UInt32)
deriving DecidableEq

structure Client where
  fob : FileObject
  /-- How many SQEs have been handed out. -/
  turn : Nat
  taken : List Taken
  /-- Each entry that has been returned by `file_uringfetch`, with those that were in use then. -/
  fetched : List (Nat × List Nat)

/-- A call; the client sets offset, size and descriptor before it calls `file_uringflush`. -/
inductive Label where
  | fetch
  | flush (token : Nat) (offset sz fd : UInt64)
  | submit (answer : Answer)
  | complete (token : Nat)

namespace Client

def tokens (client : Client) : List Nat := client.taken.map Taken.token

/-- `io_uring_get_sqe` on a ring with so many entries: the next one, unless all have been handed out
since the last submission. -/
def getSqe (entries : Nat) (client : Client) : Option Nat :=
  if client.fob.ring.pending.length < entries then some (client.turn % entries) else none

/-- `file_uringfetch` returns an entry. -/
def take (client : Client) (fob : FileObject) (token : Nat) : Client where
  fob := fob
  turn := client.turn + 1
  taken := client.taken ++ [⟨client.turn, token, none⟩]
  fetched := client.fetched ++ [(token, client.tokens)]

/-- The operation is told where to take place. -/
def tell (token : Nat) (place : UInt64 × UInt32) (op : Taken) : Taken :=
  if op.token = token ∧ op.place = none then { op with place := some place } else op

/-- One call: an entry is flushed once, and what is completed is what `submit` has returned. -/
def call (entries : Nat) (client : Client) : Label → Option Client
  | .fetch =>
      (fileUringfetch { sqe := client.getSqe entries } client.fob).map fun (token, fob) =>
        match token with
        | none => { client with fob := fob }
        | some token => client.take fob token
  | .flush token offset sz fd =>
      if ∃ op ∈ client.taken, op.token = token ∧ op.place = none then
        let fob := ((client.fob.set token .offset offset).set token .sz sz).set token .fd fd
        some { client with
          fob := fileUringflush token fob
          taken := client.taken.map (tell token (offset, fd.toUInt32)) }
      else none
  | .submit answer =>
      (fileUringsubmit answer client.fob).map fun (_, fob) => { client with fob := fob }
  | .complete token =>
      match client.fob.ring.cq with
      | [] => none
      | (sqe, _) :: _ =>
          if sqe.userData = token then
            some { client with
              fob := fileUringcomplete client.fob
              taken := client.taken.filter fun op => op.token ≠ token }
          else none

/-- Every entry that has been handed out was free. -/
def Fresh (client : Client) : Prop := ∀ hand ∈ client.fetched, hand.1 ∉ hand.2

/-- Whatever ends next, `file_uringsubmit` reports the operation it belongs to with its offset, and
the buffer is that of no other request. -/
def Reports (client : Client) : Prop :=
  ∀ answer done after, fileUringsubmit answer client.fob = some (some done, after) →
    (∃ op ∈ client.taken, op.token = done.token ∧ op.place = some done.place) ∧
      done.offset = done.place.1 ∧ done.token ∉ after.ring.inFlight.map Sqe.userData

/-- There is room. -/
def Room (client : Client) : Prop := client.fob.head - client.fob.tail < client.fob.QD

/-- When there is room for an operation, the one that was fetched `QD` calls ago has been
completed. -/
def Returned (client : Client) : Label → Prop
  | .fetch => client.Room → ∀ op ∈ client.taken, op.number + client.fob.QD ≠ client.turn
  | _ => True

/-- Entries are flushed before the next one is fetched. -/
def Flushed (client : Client) : Label → Prop
  | .fetch => client.fob.ring.pending = []
  | _ => True

end Client

/-- A client of a uring engine whose ring has so many entries. -/
def machine (entries : Nat) (options : Options) : Machine Client Label where
  initial client := client = ⟨Engine.uring.init options, 0, [], []⟩
  next client label := client.call entries label

/-! ## The SQEs come in turn -/

section Turns

variable {entries QD : Nat} {client after : Client} {options : Options}

/-- The entry in each SQE, the entries with a buffer, and the numbers of the operations. -/
structure Slots (entries QD : Nat) (client : Client) : Prop where
  depth : client.fob.QD = QD
  count : client.fob.head - client.fob.tail = client.fob.ring.pending.length +
    client.fob.ring.inFlight.length + client.fob.ring.cq.length
  named : ∀ place < entries,
    (client.fob.ring.sqes place).userData = if place < client.turn then place + 1 else 0
  buffers : ∀ token, 1 ≤ token → token ≤ QD →
    ((client.fob.pvdr token).buf = none ↔ client.turn < token)
  again : client.turn ≤ QD ∨ entries = QD
  numbers : ∀ op ∈ client.taken, op.number < client.turn ∧ op.token = op.number % QD + 1

/-- The first entry without a buffer is the one whose turn it is. -/
theorem find_unassigned {pvdr : Nat → PosixOp} {turn : Nat}
    (buffers : ∀ token, 1 ≤ token → token ≤ QD → ((pvdr token).buf = none ↔ turn < token)) :
    (List.range' 1 QD).find? (fun token => (pvdr token).buf = none) =
      if turn < QD then some (turn + 1) else none := by
  split
  · rename_i below
    rw [List.find?_range'_eq_some]
    refine ⟨?_, ?_, ?_⟩
    · simpa using (buffers (turn + 1) (by omega) (by omega)).mpr (by omega)
    · rw [List.mem_range'_1]
      omega
    · intro token low high
      have assigned := buffers token low (by omega)
      simp only [Bool.not_eq_eq_eq_not, Bool.not_true, decide_eq_false_iff_not, assigned]
      omega
  · rw [List.find?_eq_none]
    intro token mem
    rw [List.mem_range'_1] at mem
    have assigned := buffers token (by omega) (by omega)
    simp only [decide_eq_true_eq, assigned]
    omega

/-- What `file_uringfetch` does: nothing when there is no room, and else it hands out the entry
whose turn it is. -/
theorem Slots.fetch_cases (slots : Slots entries QD client) (roomy : QD ≤ entries)
    (called : client.call entries .fetch = some after) :
    (¬client.Room ∧ after = client) ∨
      (client.Room ∧ (client.turn < QD ∨ entries = QD) ∧ ∃ op, op.buf ≠ none ∧
        after = client.take (useSqe client.fob (client.turn % entries) (client.turn % QD + 1) op)
          (client.turn % QD + 1)) := by
  have depth := slots.depth
  rw [Client.call, Option.map_eq_some_iff] at called
  obtain ⟨⟨token, fob⟩, fetched, rfl⟩ := called
  rw [fileUringfetch] at fetched
  split at fetched
  · rename_i full
    obtain ⟨rfl, rfl⟩ := Prod.mk.inj (Option.some.inj fetched)
    exact .inl ⟨by rw [Client.Room]; omega, rfl⟩
  · rename_i room
    have room : client.Room := by
      rw [Client.Room]
      omega
    have count := slots.count
    have positive : 0 < QD := by
      rw [Client.Room, depth] at room
      omega
    have next : client.getSqe entries = some (client.turn % entries) := by
      rw [Client.getSqe, if_pos]
      rw [Client.Room, depth] at room
      omega
    have inside : client.turn % entries < entries := Nat.mod_lt _ (by omega)
    have named := slots.named _ inside
    right
    refine ⟨room, ?_⟩
    simp only [next] at fetched
    by_cases first : client.turn < QD
    · -- The SQE is new, and so is the entry.
      have place : client.turn % entries = client.turn := Nat.mod_eq_of_lt (by omega)
      have turn : client.turn % QD = client.turn := Nat.mod_eq_of_lt first
      rw [place, if_neg (Nat.lt_irrefl _)] at named
      rw [place, named, depth, find_unassigned slots.buffers, if_pos first] at fetched
      obtain ⟨rfl, rfl⟩ := Prod.mk.inj (Option.some.inj fetched)
      refine ⟨.inl first, { client.fob.pvdr (client.turn + 1) with buf := some client.turn },
        Option.some_ne_none _, ?_⟩
      rw [place, turn]
      rfl
    · by_cases new : client.turn % entries < client.turn
      · have same : entries = QD := by
          by_contra other
          have early := slots.again
          have place : client.turn % entries = client.turn := Nat.mod_eq_of_lt (by omega)
          omega
        subst same
        rw [if_pos new] at named
        rw [named, if_neg (Nat.succ_ne_zero _)] at fetched
        obtain ⟨rfl, rfl⟩ := Prod.mk.inj (Option.some.inj fetched)
        refine ⟨.inr rfl, _, ?_, rfl⟩
        have assigned := slots.buffers (client.turn % entries + 1) (by omega) (by omega)
        rw [Ne, assigned]
        omega
      · rw [if_neg new] at named
        rw [named, if_pos rfl, depth, find_unassigned slots.buffers, if_neg first] at fetched
        cases fetched

/-- What `file_uringflush` does after the client has told the operation where to take place. -/
theorem flush_set (fob : FileObject) (token : Nat) (offset sz fd : UInt64) :
    fileUringflush token (((fob.set token .offset offset).set token .sz sz).set token .fd fd) =
      let op := fob.pvdr token
      let sqes := Function.update fob.ring.sqes op.ptr2
        { fob.ring.sqes op.ptr2 with fd := fd.toUInt32, off := offset }
      { fob with
        pvdr := Function.update fob.pvdr token
          { op with offset := offset, sz := sz, fd := fd.toUInt32 }
        ring := { fob.ring with
          sqes := sqes
          pending := []
          inFlight := fob.ring.inFlight ++ fob.ring.pending.map sqes } } := by
  simp [fileUringflush, FileObject.set, filePosixset]

/-- The requests that have been submitted and not been completed. -/
def Client.requests (client : Client) : List Sqe :=
  client.fob.ring.cq.map Prod.fst ++ client.fob.ring.inFlight

/-- A request has ended. -/
structure Waited (fob : FileObject) (done : Submitted) (after : FileObject) : Prop where
  sqe : ∃ sqe rest op, after.ring.cq.map Prod.fst ++ after.ring.inFlight = sqe :: rest ∧
    (sqe :: rest).Perm (fob.ring.cq.map Prod.fst ++ fob.ring.inFlight) ∧
      after.ring.inFlight.Sublist rest ∧ done.token = sqe.userData ∧
        done.place = (sqe.off, sqe.fd) ∧ done.offset = (fob.pvdr sqe.userData).offset ∧
          after.pvdr = Function.update fob.pvdr sqe.userData op ∧
            (op.buf = (fob.pvdr sqe.userData).buf ∧
              op.offset = (fob.pvdr sqe.userData).offset ∧
                op.ptr2 = (fob.pvdr sqe.userData).ptr2)
  length : after.ring.inFlight.length + after.ring.cq.length =
    fob.ring.inFlight.length + fob.ring.cq.length
  pending : after.ring.pending = fob.ring.pending
  sqes : after.ring.sqes = fob.ring.sqes
  depth : after.QD = fob.QD
  head : after.head = fob.head
  tail : after.tail = fob.tail

/-- What `file_uringsubmit` does. -/
theorem fileUringsubmit_waited {answer : Answer} {fob after : FileObject}
    {result : Option Submitted} (submitted : fileUringsubmit answer fob = some (result, after)) :
    (result = none ∧ after = fob) ∨ ∃ done, result = some done ∧ Waited fob done after := by
  rw [fileUringsubmit] at submitted
  split at submitted
  · right
    rw [Option.map_eq_some_iff] at submitted
    obtain ⟨⟨cqe, ring⟩, waited, same⟩ := submitted
    obtain ⟨rfl, rfl⟩ := Prod.mk.inj same
    rw [Ring.wait] at waited
    split at waited
    · rename_i cqe rest cq
      obtain ⟨rfl, rfl⟩ := Prod.mk.inj (Option.some.inj waited)
      refine ⟨_, rfl, ⟨cqe.1, rest.map Prod.fst ++ fob.ring.inFlight, _, ?_, ?_, ?_, rfl, rfl,
        rfl, rfl, rfl, rfl, rfl⟩, rfl, rfl, rfl, rfl, rfl, rfl⟩
      · simp [cq]
      · simp [cq]
      · exact List.sublist_append_right _ _
    · rename_i cq
      rw [Option.map_eq_some_iff] at waited
      obtain ⟨sqe, at_place, ended⟩ := waited
      obtain ⟨rfl, rfl⟩ := Prod.mk.inj ended
      obtain ⟨small, rfl⟩ := List.getElem?_eq_some_iff.mp at_place
      refine ⟨_, rfl, ⟨_, _, _, rfl, ?_, List.Sublist.refl _, rfl, rfl, rfl, rfl, rfl, rfl, rfl⟩,
        ?_, rfl, rfl, rfl, rfl, rfl⟩
      · rw [cq]
        exact List.getElem_cons_eraseIdx_perm small
      · simp only [List.length_eraseIdx, small, if_true, List.length_cons, List.length_nil, cq]
        omega
  · obtain ⟨rfl, rfl⟩ := Prod.mk.inj (Option.some.inj submitted)
    exact .inl ⟨rfl, rfl⟩

theorem Slots.flush (slots : Slots entries QD client) (token : Nat) (offset sz fd : UInt64) :
    Slots entries QD { client with
      fob := fileUringflush token
        (((client.fob.set token .offset offset).set token .sz sz).set token .fd fd)
      taken := client.taken.map (Client.tell token (offset, fd.toUInt32)) } := by
  rw [flush_set]
  constructor
  · exact slots.depth
  · have count := slots.count
    simp only [List.length_nil, List.length_append, List.length_map]
    omega
  · intro place inside
    rw [← slots.named place inside]
    dsimp only
    by_cases mine : place = (client.fob.pvdr token).ptr2
    · rw [mine, Function.update_self]
    · rw [Function.update_of_ne mine]
  · intro other low high
    rw [← slots.buffers other low high]
    dsimp only
    by_cases mine : other = token
    · rw [mine, Function.update_self]
    · rw [Function.update_of_ne mine]
  · exact slots.again
  · intro op mem
    obtain ⟨before, was, rfl⟩ := List.mem_map.mp mem
    have numbers := slots.numbers before was
    rw [Client.tell]
    split <;> exact numbers

theorem Slots.submit (slots : Slots entries QD client) {done : Submitted} {fob : FileObject}
    (waited : Waited client.fob done fob) : Slots entries QD { client with fob := fob } := by
  obtain ⟨sqe, rest, op, -, -, -, -, -, -, pvdr, buf, -⟩ := waited.sqe
  constructor
  · exact waited.depth.trans slots.depth
  · have count := slots.count
    have length := waited.length
    dsimp only
    rw [waited.head, waited.tail, waited.pending]
    omega
  · intro place inside
    dsimp only
    rw [waited.sqes]
    exact slots.named place inside
  · intro other low high
    rw [← slots.buffers other low high]
    dsimp only
    rw [pvdr]
    by_cases mine : other = sqe.userData
    · rw [mine, Function.update_self, buf]
    · rw [Function.update_of_ne mine]
  · exact slots.again
  · exact slots.numbers

theorem Slots.take (slots : Slots entries QD client) (roomy : QD ≤ entries) (room : client.Room)
    (again : client.turn < QD ∨ entries = QD) {op : PosixOp} (buffer : op.buf ≠ none) :
    Slots entries QD (client.take
      (useSqe client.fob (client.turn % entries) (client.turn % QD + 1) op)
      (client.turn % QD + 1)) := by
  have count := slots.count
  have positive : 0 < QD := by
    rw [Client.Room, slots.depth] at room
    omega
  have below : client.turn % QD < QD := Nat.mod_lt _ positive
  constructor
  · exact slots.depth
  · simp only [Client.take, useSqe, List.length_append, List.length_singleton]
    omega
  · intro place inside
    change (Function.update client.fob.ring.sqes (client.turn % entries) _ place).userData =
      if place < client.turn + 1 then place + 1 else 0
    by_cases mine : place = client.turn % entries
    · have le : client.turn % entries ≤ client.turn := Nat.mod_le _ _
      rw [mine, Function.update_self, if_pos (by omega)]
      rcases again with first | same
      · rw [Nat.mod_eq_of_lt first, Nat.mod_eq_of_lt (by omega)]
      · rw [same]
    · rw [Function.update_of_ne mine, slots.named place inside]
      by_cases last : place = client.turn
      · exact absurd (last ▸ (Nat.mod_eq_of_lt inside).symm) mine
      · have same : place < client.turn + 1 ↔ place < client.turn := by omega
        simp only [same]
  · intro token low high
    change (Function.update client.fob.pvdr (client.turn % QD + 1) _ token).buf = none ↔
      client.turn + 1 < token
    by_cases mine : token = client.turn % QD + 1
    · rw [mine, Function.update_self]
      have le : client.turn % QD ≤ client.turn := Nat.mod_le _ _
      exact iff_of_false buffer (by omega)
    · rw [Function.update_of_ne mine, slots.buffers token low high]
      have other : token ≠ client.turn + 1 := by
        rintro rfl
        exact mine (congrArg (· + 1) (Nat.mod_eq_of_lt (by omega)).symm)
      omega
  · rcases again with first | same
    · exact .inl first
    · exact .inr same
  · intro op mem
    rcases List.mem_append.mp mem with before | new
    · have numbers := slots.numbers op before
      exact ⟨Nat.lt_succ_of_lt numbers.1, numbers.2⟩
    · rw [List.mem_singleton.mp new]
      exact ⟨Nat.lt_succ_self _, rfl⟩

theorem Slots.complete (slots : Slots entries QD client) {sqe : Sqe} {res : Int32}
    {rest : List (Sqe × Int32)} (cq : client.fob.ring.cq = (sqe, res) :: rest) (token : Nat) :
    Slots entries QD { client with
      fob := fileUringcomplete client.fob
      taken := client.taken.filter fun op => op.token ≠ token } := by
  refine ⟨slots.depth, ?_, slots.named, slots.buffers, slots.again, ?_⟩
  · have count := slots.count
    rw [cq, List.length_cons] at count
    simp only [fileUringcomplete, cq, List.tail_cons]
    omega
  · intro op mem
    exact slots.numbers op (List.mem_of_mem_filter mem)

/-- The calls, with what each one needs to be made and what it leaves. -/
inductive Called (entries QD : Nat) (client : Client) : Label → Client → Prop
  | full : ¬client.Room → Called entries QD client .fetch client
  | take {op : PosixOp} : client.Room → client.turn < QD ∨ entries = QD → op.buf ≠ none →
      Called entries QD client .fetch
        (client.take (useSqe client.fob (client.turn % entries) (client.turn % QD + 1) op)
          (client.turn % QD + 1))
  | flush {op : Taken} (token : Nat) (offset sz fd : UInt64) : op ∈ client.taken →
      op.token = token → op.place = none → Called entries QD client (.flush token offset sz fd)
        { client with
          fob := fileUringflush token
            (((client.fob.set token .offset offset).set token .sz sz).set token .fd fd)
          taken := client.taken.map (Client.tell token (offset, fd.toUInt32)) }
  | idle (answer : Answer) : Called entries QD client (.submit answer) client
  | submit (answer : Answer) {done : Submitted} {fob : FileObject} :
      Waited client.fob done fob →
        Called entries QD client (.submit answer) { client with fob := fob }
  | complete {sqe : Sqe} {res : Int32} {rest : List (Sqe × Int32)} :
      client.fob.ring.cq = (sqe, res) :: rest →
        Called entries QD client (.complete sqe.userData) { client with
          fob := fileUringcomplete client.fob
          taken := client.taken.filter fun op => op.token ≠ sqe.userData }

theorem Slots.called (slots : Slots entries QD client) (roomy : QD ≤ entries) {label : Label}
    (taken : client.call entries label = some after) : Called entries QD client label after := by
  cases label with
  | fetch =>
      rcases slots.fetch_cases roomy taken with ⟨full, rfl⟩ | ⟨room, again, op, buffer, rfl⟩
      · exact .full full
      · exact .take room again buffer
  | flush token offset sz fd =>
      rw [Client.call] at taken
      split at taken
      · rename_i held
        obtain ⟨op, mem, same, unplaced⟩ := held
        obtain rfl := Option.some.inj taken
        exact .flush token offset sz fd mem same unplaced
      · cases taken
  | submit answer =>
      rw [Client.call, Option.map_eq_some_iff] at taken
      obtain ⟨⟨result, fob⟩, submitted, rfl⟩ := taken
      rcases fileUringsubmit_waited submitted with ⟨-, rfl⟩ | ⟨done, -, waited⟩
      · exact .idle answer
      · exact .submit answer waited
  | complete token =>
      rw [Client.call] at taken
      split at taken
      · cases taken
      · rename_i sqe res rest cq
        split at taken
        · rename_i same
          obtain rfl := Option.some.inj taken
          subst same
          exact .complete cq
        · cases taken

/-- Every call keeps the order of the SQEs. -/
theorem Slots.step (slots : Slots entries QD client) (roomy : QD ≤ entries) {label : Label}
    (called : Called entries QD client label after) : Slots entries QD after := by
  cases called with
  | full => exact slots
  | take room again buffer => exact slots.take roomy room again buffer
  | flush token offset sz fd => exact slots.flush token offset sz fd
  | idle => exact slots
  | submit answer waited => exact slots.submit waited
  | complete cq => exact slots.complete cq _

theorem slots_of_initial {options : Options} (initial : (machine entries options).initial client) :
    Slots entries options.QD client := by
  cases initial
  refine ⟨rfl, rfl, fun _ _ => rfl, ?_, .inl (Nat.zero_le _), nofun⟩
  intro token low _
  exact iff_of_true rfl low

theorem slots_of_reached {options : Options} (roomy : options.QD ≤ entries)
    {guard : Client → Label → Prop}
    (reached : (machine entries options).ReachedUnder guard client) :
    Slots entries options.QD client := by
  refine reached.invariant (Slots entries options.QD) (fun _ => slots_of_initial) ?_
  intro before label after slots _ taken
  exact slots.step roomy (slots.called roomy taken)

/-! ## Fresh entries -/

/-- Operations under way are among the last that have been fetched. -/
def Recent (QD : Nat) (client : Client) : Prop :=
  ∀ op ∈ client.taken, client.turn ≤ op.number + QD

theorem mod_eq_iff_of_recent {number turn : Nat} (before : number < turn)
    (recent : turn ≤ number + QD) : number % QD = turn % QD ↔ number + QD = turn := by
  constructor
  · intro same
    have divides : QD ∣ turn - number := (Nat.modEq_iff_dvd' before.le).mp same
    have le := Nat.le_of_dvd (by omega) divides
    omega
  · rintro rfl
    exact (Nat.add_mod_right number QD).symm

/-- The entry whose turn it is belongs to the operation that was fetched a whole round ago. -/
theorem Slots.mem_tokens_iff (slots : Slots entries QD client) (recent : Recent QD client) :
    client.turn % QD + 1 ∈ client.tokens ↔ ∃ op ∈ client.taken, op.number + QD = client.turn := by
  rw [Client.tokens, List.mem_map]
  refine exists_congr fun op => and_congr_right fun mem => ?_
  obtain ⟨before, token⟩ := slots.numbers op mem
  rw [token, Nat.add_right_cancel_iff]
  exact mod_eq_iff_of_recent before (recent op mem)

theorem fresh_take_iff (client : Client) (fob : FileObject) (token : Nat) :
    (client.take fob token).Fresh ↔ client.Fresh ∧ token ∉ client.tokens := by
  simp only [Client.Fresh, Client.take, List.forall_mem_append, List.forall_mem_singleton]

/-- A call keeps the entries fresh exactly if the one whose turn it is has come back. -/
theorem Slots.fresh_step (slots : Slots entries QD client)
    (recent : client.Fresh → Recent QD client) {label : Label}
    (called : Called entries QD client label after) :
    (after.Fresh ↔ client.Fresh ∧ client.Returned label) ∧ (after.Fresh → Recent QD after) := by
  cases called with
  | full full => exact ⟨(and_iff_left fun room => absurd room full).symm, recent⟩
  | take room again buffer =>
      have returned : client.Fresh →
          (client.turn % QD + 1 ∉ client.tokens ↔ client.Returned .fetch) := by
        intro fresh
        rw [slots.mem_tokens_iff (recent fresh), Client.Returned, slots.depth]
        push Not
        exact ⟨fun free _ => free, fun free => free room⟩
      rw [fresh_take_iff]
      refine ⟨and_congr_right returned, ?_⟩
      rintro ⟨fresh, free⟩ op mem
      rcases List.mem_append.mp mem with before | new
      · have le := recent fresh op before
        have came_back := (returned fresh).mp free room op before
        rw [slots.depth] at came_back
        change client.turn + 1 ≤ op.number + QD
        omega
      · rw [List.mem_singleton.mp new]
        rw [Client.Room, slots.depth] at room
        have count := slots.count
        change client.turn + 1 ≤ client.turn + QD
        omega
  | flush token offset sz fd =>
      refine ⟨(and_iff_left trivial).symm, fun fresh op mem => ?_⟩
      obtain ⟨before, was, rfl⟩ := List.mem_map.mp mem
      have le := recent fresh before was
      rw [Client.tell]
      split <;> exact le
  | idle => exact ⟨(and_iff_left trivial).symm, recent⟩
  | submit => exact ⟨(and_iff_left trivial).symm, recent⟩
  | complete =>
      exact ⟨(and_iff_left trivial).symm, fun fresh op mem =>
        recent fresh op (List.mem_of_mem_filter mem)⟩

/-- The entries handed out have been fresh exactly when each had come back by its turn. -/
theorem fresh_iff {options : Options} (roomy : options.QD ≤ entries)
    (reached : (machine entries options).Reached client) :
    client.Fresh ↔ (machine entries options).ReachedUnder Client.Returned client := by
  have recent : ∀ {client}, (machine entries options).Reached client →
      client.Fresh → Recent options.QD client := by
    intro client reached
    refine (reached.invariant (fun client => Slots entries options.QD client ∧
      (client.Fresh → Recent options.QD client)) ?_ ?_).2
    · intro client initial
      refine ⟨slots_of_initial initial, ?_⟩
      cases initial
      exact nofun
    · rintro before label after ⟨slots, recent⟩ _ taken
      have called := slots.called roomy taken
      exact ⟨slots.step roomy called, (slots.fresh_step recent called).2⟩
  refine reached.holds_iff Client.Fresh ?_ ?_
  · rintro client rfl
    exact nofun
  · intro before label after earlier taken
    have slots := slots_of_reached roomy earlier
    exact (slots.fresh_step (recent earlier) (slots.called roomy taken)).1

/-! ## Reports -/

/-- An entry has been fetched and waits to be flushed, in the SQE that it names, or none does. -/
def Pending (client : Client) : Prop :=
  (client.fob.ring.pending = [] ∧ ∀ op ∈ client.taken, op.place ≠ none) ∨
    ∃ last ∈ client.taken, last.place = none ∧
      (∀ op ∈ client.taken, op.place = none → op = last) ∧
        client.fob.ring.pending = [(client.fob.pvdr last.token).ptr2] ∧
          (client.fob.ring.sqes (client.fob.pvdr last.token).ptr2).userData = last.token

/-- Each request belongs to an operation of its own, and stands in the entry of that. -/
structure Requests (client : Client) : Prop where
  tokens : client.tokens.Nodup
  nodup : (client.requests.map Sqe.userData).Nodup
  held : ∀ sqe ∈ client.requests,
    ∃ op ∈ client.taken, op.token = sqe.userData ∧ op.place = some (sqe.off, sqe.fd)
  offset : ∀ sqe ∈ client.requests, (client.fob.pvdr sqe.userData).offset = sqe.off
  pending : Pending client

theorem Requests.eq_of_token (requests : Requests client) {left right : Taken}
    (left_mem : left ∈ client.taken) (right_mem : right ∈ client.taken)
    (same : left.token = right.token) : left = right :=
  List.inj_on_of_nodup_map requests.tokens left_mem right_mem same

/-- A request is not one of an entry that has not been flushed. -/
theorem Requests.ne_token (requests : Requests client) {sqe : Sqe} (mem : sqe ∈ client.requests)
    {op : Taken} (taken : op ∈ client.taken) (unplaced : op.place = none) :
    sqe.userData ≠ op.token := by
  intro same
  obtain ⟨other, held, token, place⟩ := requests.held sqe mem
  obtain rfl := requests.eq_of_token held taken (token.trans same)
  rw [unplaced] at place
  cases place

theorem Requests.take (requests : Requests client) (none_pending : client.fob.ring.pending = [])
    {token : Nat} (free : token ∉ client.tokens) (place : Nat) (op : PosixOp) :
    Requests (client.take (useSqe client.fob place token op) token) := by
  have other : ∀ sqe ∈ client.requests, sqe.userData ≠ token := by
    rintro sqe mem rfl
    obtain ⟨op, taken, same, -⟩ := requests.held sqe mem
    exact free (List.mem_map.mpr ⟨op, taken, same⟩)
  constructor
  · have tokens : (client.take (useSqe client.fob place token op) token).tokens =
        client.tokens ++ [token] := by
      simp [Client.tokens, Client.take]
    rw [tokens]
    exact List.nodup_append.mpr ⟨requests.tokens, List.nodup_singleton _, fun left mem right last =>
      fun same => free (List.mem_singleton.mp last ▸ same ▸ mem)⟩
  · exact requests.nodup
  · intro sqe mem
    obtain ⟨op, taken, held⟩ := requests.held sqe mem
    exact ⟨op, List.mem_append_left _ taken, held⟩
  · intro sqe mem
    change (Function.update client.fob.pvdr token _ sqe.userData).offset = sqe.off
    rw [Function.update_of_ne (other sqe mem)]
    exact requests.offset sqe mem
  · have placed : ∀ op ∈ client.taken, op.place ≠ none := by
      rcases requests.pending with ⟨-, placed⟩ | ⟨last, -, -, -, pending, -⟩
      · exact placed
      · rw [none_pending] at pending
        cases pending
    refine .inr ⟨⟨client.turn, token, none⟩, List.mem_append_right _ List.mem_cons_self, rfl, ?_,
      ?_, ?_⟩
    · intro op mem unplaced
      rcases List.mem_append.mp mem with before | new
      · exact absurd unplaced (placed op before)
      · exact List.mem_singleton.mp new
    · change client.fob.ring.pending ++ [place] =
        [(Function.update client.fob.pvdr token { op with ptr2 := place } token).ptr2]
      rw [none_pending, Function.update_self]
      rfl
    · change (Function.update client.fob.ring.sqes place _
        (Function.update client.fob.pvdr token { op with ptr2 := place } token).ptr2).userData =
          token
      rw [Function.update_self, Function.update_self]

theorem tell_of_ne {token : Nat} {place : UInt64 × UInt32} {op : Taken}
    (other : op.token ≠ token) : Client.tell token place op = op :=
  if_neg fun same => other same.1

@[simp] theorem tell_token (token : Nat) (place : UInt64 × UInt32) (op : Taken) :
    (Client.tell token place op).token = op.token := by
  rw [Client.tell]
  split <;> rfl

theorem Requests.flush (requests : Requests client) {op : Taken} (taken : op ∈ client.taken)
    (unplaced : op.place = none) (offset sz fd : UInt64) :
    Requests { client with
      fob := fileUringflush op.token
        (((client.fob.set op.token .offset offset).set op.token .sz sz).set op.token .fd fd)
      taken := client.taken.map (Client.tell op.token (offset, fd.toUInt32)) } := by
  obtain ⟨-, placed⟩ | ⟨last, last_mem, last_unplaced, only, pending, named⟩ := requests.pending
  · exact absurd unplaced (placed op taken)
  obtain rfl := only op taken unplaced
  have told : Client.tell op.token (offset, fd.toUInt32) op =
      { op with place := some (offset, fd.toUInt32) } := if_pos ⟨rfl, unplaced⟩
  rw [flush_set, pending]
  dsimp only
  rw [List.map_singleton, Function.update_self, named]
  constructor
  · simpa [Client.tokens, Function.comp_def] using requests.tokens
  · change ((client.fob.ring.cq.map Prod.fst ++ (client.fob.ring.inFlight ++ [_])).map
      Sqe.userData).Nodup
    rw [← List.append_assoc, List.map_append, List.nodup_append]
    refine ⟨requests.nodup, List.nodup_singleton _, ?_⟩
    intro left mem right last same
    obtain ⟨sqe, member, rfl⟩ := List.mem_map.mp mem
    exact requests.ne_token member taken unplaced (same.trans (List.mem_singleton.mp last))
  · intro sqe mem
    change sqe ∈ client.fob.ring.cq.map Prod.fst ++ (client.fob.ring.inFlight ++ [_]) at mem
    rw [← List.append_assoc] at mem
    rcases List.mem_append.mp mem with before | new
    · obtain ⟨other, held, token, place⟩ := requests.held sqe before
      have ne := requests.ne_token before taken unplaced
      refine ⟨other, ?_, token, place⟩
      exact List.mem_map.mpr ⟨other, held, tell_of_ne fun same => ne (token.symm.trans same)⟩
    · rw [List.mem_singleton.mp new]
      exact ⟨_, List.mem_map_of_mem taken, tell_token _ _ _, by rw [told]⟩
  · intro sqe mem
    change sqe ∈ client.fob.ring.cq.map Prod.fst ++ (client.fob.ring.inFlight ++ [_]) at mem
    rw [← List.append_assoc] at mem
    rcases List.mem_append.mp mem with before | new
    · have ne := requests.ne_token before taken unplaced
      dsimp only
      rw [Function.update_of_ne ne]
      exact requests.offset sqe before
    · rw [List.mem_singleton.mp new]
      dsimp only
      rw [Function.update_self]
  · refine .inl ⟨rfl, ?_⟩
    intro other mem
    obtain ⟨before, was, rfl⟩ := List.mem_map.mp mem
    by_cases same : before = op
    · subst same
      rw [told]
      exact Option.some_ne_none _
    · have ne : before.token ≠ op.token := fun token =>
        same (requests.eq_of_token was taken token)
      rw [tell_of_ne ne]
      exact fun none => same (only before was none)

theorem Requests.submit (requests : Requests client) {done : Submitted} {fob : FileObject}
    (waited : Waited client.fob done fob) : Requests { client with fob := fob } := by
  obtain ⟨sqe, rest, op, left, perm, -, -, -, -, pvdr, -, offset, ptr2⟩ := waited.sqe
  have all : (fob.ring.cq.map Prod.fst ++ fob.ring.inFlight).Perm client.requests := by
    rw [left]
    exact perm
  have kept : ∀ token, (fob.pvdr token).offset = (client.fob.pvdr token).offset ∧
      (fob.pvdr token).ptr2 = (client.fob.pvdr token).ptr2 := by
    intro token
    rw [pvdr]
    by_cases mine : token = sqe.userData
    · rw [mine, Function.update_self]
      exact ⟨offset, ptr2⟩
    · rw [Function.update_of_ne mine]
      exact ⟨rfl, rfl⟩
  constructor
  · exact requests.tokens
  · exact (all.map Sqe.userData).nodup_iff.mpr requests.nodup
  · intro other mem
    exact requests.held other (all.mem_iff.mp mem)
  · intro other mem
    exact (kept _).1.trans (requests.offset other (all.mem_iff.mp mem))
  · rcases requests.pending with
      ⟨none_pending, placed⟩ | ⟨last, mem, unplaced, only, pending, named⟩
    · exact .inl ⟨waited.pending.trans none_pending, placed⟩
    · refine .inr ⟨last, mem, unplaced, only, ?_, ?_⟩
      · rw [(kept _).2]
        exact waited.pending.trans pending
      · rw [(kept _).2]
        dsimp only
        rw [waited.sqes]
        exact named

theorem Requests.complete (requests : Requests client) {sqe : Sqe} {res : Int32}
    {rest : List (Sqe × Int32)} (cq : client.fob.ring.cq = (sqe, res) :: rest) :
    Requests { client with
      fob := fileUringcomplete client.fob
      taken := client.taken.filter fun op => op.token ≠ sqe.userData } := by
  have all : client.requests = sqe :: (rest.map Prod.fst ++ client.fob.ring.inFlight) := by
    simp [Client.requests, cq]
  have nodup := requests.nodup
  rw [all, List.map_cons, List.nodup_cons] at nodup
  have later : ∀ other ∈ rest.map Prod.fst ++ client.fob.ring.inFlight,
      other ∈ client.requests ∧ other.userData ≠ sqe.userData := by
    intro other mem
    refine ⟨all ▸ List.mem_cons_of_mem _ mem, fun same => ?_⟩
    exact nodup.1 (List.mem_map.mpr ⟨other, mem, same⟩)
  have remaining : (fileUringcomplete client.fob).ring.cq = rest := by
    simp [fileUringcomplete, cq]
  constructor
  · exact requests.tokens.sublist (List.filter_sublist.map _)
  · rw [Client.requests, remaining]
    exact nodup.2
  · intro other mem
    rw [Client.requests, remaining] at mem
    obtain ⟨held, ne⟩ := later other mem
    obtain ⟨op, taken, token, place⟩ := requests.held other held
    exact ⟨op, List.mem_filter.mpr ⟨taken, by simpa [token] using ne⟩, token, place⟩
  · intro other mem
    rw [Client.requests, remaining] at mem
    exact requests.offset other (later other mem).1
  · rcases requests.pending with
      ⟨none_pending, placed⟩ | ⟨last, mem, unplaced, only, pending, named⟩
    · exact .inl ⟨none_pending, fun op member => placed op (List.mem_of_mem_filter member)⟩
    · have ne := requests.ne_token (all ▸ List.mem_cons_self) mem unplaced
      refine .inr ⟨last, List.mem_filter.mpr ⟨mem, by simpa using ne.symm⟩, unplaced, ?_, pending,
        named⟩
      exact fun op member => only op (List.mem_of_mem_filter member)

/-- Entries that come back by their turn and are flushed at once are never used twice at a time. -/
theorem requests_of_reached {options : Options} (roomy : options.QD ≤ entries)
    (reached : (machine entries options).ReachedUnder
      (fun client label => client.Returned label ∧ client.Flushed label) client) :
    Requests client := by
  refine (reached.invariant (fun client => Slots entries options.QD client ∧
    (client.Fresh ∧ Recent options.QD client) ∧ Requests client) ?_ ?_).2.2
  · intro client initial
    refine ⟨slots_of_initial initial, ?_⟩
    cases initial
    exact ⟨⟨nofun, nofun⟩, List.nodup_nil, List.nodup_nil, nofun, nofun, .inl ⟨rfl, nofun⟩⟩
  · rintro before label after ⟨slots, ⟨fresh, recent⟩, requests⟩ ⟨returned, flushed⟩ taken
    have called := slots.called roomy taken
    obtain ⟨fresh_iff, recent_after⟩ := slots.fresh_step (fun _ => recent) called
    have fresh_after := fresh_iff.mpr ⟨fresh, returned⟩
    refine ⟨slots.step roomy called, ⟨fresh_after, recent_after fresh_after⟩, ?_⟩
    cases called with
    | full => exact requests
    | take room again buffer =>
        exact requests.take flushed ((fresh_take_iff _ _ _).mp fresh_after).2 _ _
    | flush token offset sz fd mem same unplaced =>
        subst same
        exact requests.flush mem unplaced offset sz fd
    | idle => exact requests
    | submit answer waited => exact requests.submit waited
    | complete cq => exact requests.complete cq

/-- The next report is right. -/
theorem Requests.reports (requests : Requests client) : client.Reports := by
  intro answer done after submitted
  rcases fileUringsubmit_waited submitted with ⟨none, -⟩ | ⟨_, same, waited⟩
  · cases none
  obtain rfl := Option.some.inj same
  obtain ⟨sqe, rest, op, -, perm, sublist, token, place, offset, -⟩ := waited.sqe
  have mem : sqe ∈ client.requests := perm.mem_iff.mp List.mem_cons_self
  have nodup := (perm.map Sqe.userData).nodup_iff.mpr requests.nodup
  rw [List.map_cons, List.nodup_cons] at nodup
  rw [token, place, offset]
  refine ⟨requests.held sqe mem, requests.offset sqe mem, fun flying => ?_⟩
  exact nodup.1 ((sublist.map Sqe.userData).subset flying)

/-- An entry is handed out twice exactly when an operation is still under way after all the others
have had their turn; if that never happens, and every entry is flushed before the next one is
fetched, all reports are right. -/
theorem fresh_iff_returned {options : Options} (roomy : options.QD ≤ entries)
    (reached : (machine entries options).Reached client) :
    (client.Fresh ↔ (machine entries options).ReachedUnder Client.Returned client) ∧
      ((machine entries options).ReachedUnder
        (fun client label => client.Returned label ∧ client.Flushed label) client →
          client.Fresh ∧ client.Reports) := by
  refine ⟨fresh_iff roomy reached, fun guarded => ⟨?_, ?_⟩⟩
  · exact (fresh_iff roomy reached).mpr (guarded.mono fun _ _ both => both.1)
  · exact (requests_of_reached roomy guarded).reports

end Turns

/-! ## Two runs -/

/-- A sender with two entries. -/
def twoEntries : Options := { QD := 2, blkSz := 65536 }

/-- Two blocks are read, and the request that ends first is completed. -/
def twoReads (ended : Nat) : List Label :=
  [.fetch, .flush 1 0 65536 5, .fetch, .flush 2 65536 65536 5,
    .submit { res := 65536, ended := ended }, .complete (ended + 1), .fetch]

/-- The blocks end in order, and the entry of the first one is handed out again. -/
theorem fresh_of_twoReads : ∃ client,
    (machine 2 twoEntries).run ⟨Engine.uring.init twoEntries, 0, [], []⟩ (twoReads 0) =
      some client ∧ client.fetched = [(1, []), (2, [1]), (1, [2])] ∧
        (client.Fresh ↔ (machine 2 twoEntries).ReachedUnder Client.Returned client) :=
  ⟨_, rfl, rfl, (fresh_iff_returned (by decide)
    (@Machine.reached_of_run _ _ (machine 2 twoEntries) _ _ rfl (twoReads 0) rfl)).1⟩

/-- The second block ends first: the entry of the first one is handed out while the kernel reads
into its buffer, and the first block is then reported with the offset of the third. -/
theorem not_fresh_of_disorder :
    (∃ client, (machine 2 twoEntries).run ⟨Engine.uring.init twoEntries, 0, [], []⟩ (twoReads 1) =
      some client ∧ ¬client.Fresh) ∧
    (∃ client, (machine 2 twoEntries).run ⟨Engine.uring.init twoEntries, 0, [], []⟩
      (twoReads 1 ++ [.flush 1 131072 65536 5]) = some client ∧ ¬client.Reports) ∧
    ¬∀ entries (options : Options) client, options.QD ≤ entries →
      (machine entries options).Reached client → client.Fresh ∧ client.Reports := by
  have broken : ∃ client,
      (machine 2 twoEntries).run ⟨Engine.uring.init twoEntries, 0, [], []⟩ (twoReads 1) =
        some client ∧ ¬client.Fresh :=
    ⟨_, rfl, fun fresh => fresh (1, [1]) (by decide) (by decide)⟩
  refine ⟨broken, ⟨_, rfl, ?_⟩, fun always => ?_⟩
  · intro reports
    obtain ⟨-, offset, -⟩ := reports { res := 65536 } _ _ rfl
    exact absurd offset (by decide)
  · obtain ⟨client, ran, stale⟩ := broken
    have reached : (machine 2 twoEntries).Reached client :=
      Machine.reached_of_run rfl (twoReads 1) ran
    exact stale (always 2 twoEntries client (by decide) reached).1

end UringTokens
end Engines
end EScp
