import EScp.Residue
import EScp.Transition
import Mathlib.Logic.Function.Basic

/-!
# The file completion ring

`fc_push` and `fc_pop` of `dtn.c` share a ring of 16384 slots.  A pusher takes an index from
`fc_info_head`, waits until the tail is less than a lap behind and the slot is clear, then copies
its record.  The popper takes its index from `fc_info_tail` before it consumes anything.  Each
atomic operation, each slot copy and each slot clear is one step.

The counters are unbounded: 2^64 completions are out of reach of a session.
-/

namespace EScp
namespace CompletionRing

/-- Number of slots, `fc_info_cnt`. -/
def fcInfoCnt : Nat := 16384

/-- `struct fc_info_struct`, less its padding. -/
structure FcInfo where
  /-- The slot flag: zero when the slot is clear. -/
  state : UInt64
  fileNo : UInt64
  bytes : UInt64
  crc : UInt32
  completion : UInt32
  blocks : UInt64
  deriving DecidableEq

/-- A slot after `memset_avx`. -/
def FcInfo.cleared : FcInfo := ⟨0, 0, 0, 0, 0, 0⟩

/-- The arguments of one `fc_push` call. -/
structure FcArgs where
  fileNo : UInt64
  bytes : UInt64
  blocks : UInt64
  crc : UInt32
  deriving DecidableEq

/-- The local record that `fc_push` fills before it copies it to the slot. -/
def FcArgs.info (args : FcArgs) : FcInfo where
  state := 1
  fileNo := args.fileNo
  bytes := args.bytes
  crc := args.crc
  completion := 4
  blocks := args.blocks

@[simp] theorem FcArgs.info_state (args : FcArgs) : args.info.state = 1 := rfl

@[simp] theorem FcInfo.cleared_state : FcInfo.cleared.state = 0 := rfl

/-- Where a thread stands in `fc_push`. -/
inductive Pusher where
  /-- Outside the function. -/
  | idle
  /-- About to load `fc_info_tail`. -/
  | waitTail (args : FcArgs) (head : Nat)
  /-- About to load the flag of the slot. -/
  | waitSlot (args : FcArgs) (head : Nat)
  /-- About to copy the record to the slot. -/
  | copy (args : FcArgs) (head : Nat)

/-- The arguments and the index of a call that has not copied its record yet. -/
def Pusher.claim? : Pusher → Option (FcArgs × Nat)
  | .idle => none
  | .waitTail args head => some (args, head)
  | .waitSlot args head => some (args, head)
  | .copy args head => some (args, head)

/-- Where the popping thread stands in `fc_pop`. -/
inductive Popper where
  /-- Outside the function. -/
  | idle
  /-- About to load `fc_info_head`. -/
  | waitHead (tail : Nat)
  /-- About to load the flag of the slot. -/
  | waitSlot (tail : Nat)
  /-- About to copy the slot out. -/
  | copy (tail : Nat)
  /-- About to clear the slot and return the copy. -/
  | clear (tail : Nat) (fc : FcInfo)

/-- The ring, its threads, and the history of both functions. -/
structure State where
  fcInfo : Nat → FcInfo
  fcInfoHead : Nat
  fcInfoTail : Nat
  pushers : Nat → Pusher
  popper : Popper
  /-- The arguments of all calls of `fc_push`, in the order of the head values they obtained. -/
  pushed : List FcArgs
  /-- What the completed calls of `fc_pop` returned, oldest first. -/
  returned : List FcInfo

/-- One step of one thread. -/
inductive Label where
  /-- `thread` calls `fc_push` and takes an index. -/
  | push (thread : Nat) (args : FcArgs)
  /-- `thread` goes on inside `fc_push`. -/
  | pushStep (thread : Nat)
  /-- The popping thread calls `fc_pop` or goes on inside it. -/
  | popStep

/-- The state in which `thread` stands at `pusher`. -/
def State.setPusher (state : State) (thread : Nat) (pusher : Pusher) : State :=
  { state with pushers := Function.update state.pushers thread pusher }

/-- `fc_push`, one step. -/
def fcPush (state : State) (thread : Nat) : Option State :=
  match state.pushers thread with
  | .idle => none
  | .waitTail args head =>
      if state.fcInfoTail + fcInfoCnt ≤ head then
        some state
      else
        some (state.setPusher thread (.waitSlot args head))
  | .waitSlot args head =>
      if (state.fcInfo (head % fcInfoCnt)).state = 0 then
        some (state.setPusher thread (.copy args head))
      else
        some state
  | .copy args head =>
      some { state.setPusher thread .idle with
        fcInfo := Function.update state.fcInfo (head % fcInfoCnt) args.info }

/-- `fc_pop`, one step. -/
def fcPop (state : State) : State :=
  match state.popper with
  | .idle =>
      { state with
        fcInfoTail := state.fcInfoTail + 1
        popper := .waitHead state.fcInfoTail }
  | .waitHead tail =>
      if state.fcInfoHead ≤ tail then
        state
      else
        { state with popper := .waitSlot tail }
  | .waitSlot tail =>
      if (state.fcInfo (tail % fcInfoCnt)).state = 0 then
        state
      else
        { state with popper := .copy tail }
  | .copy tail =>
      { state with popper := .clear tail (state.fcInfo (tail % fcInfoCnt)) }
  | .clear tail fc =>
      { state with
        fcInfo := Function.update state.fcInfo (tail % fcInfoCnt) FcInfo.cleared
        popper := .idle
        returned := state.returned ++ [fc] }

/-- One step of any thread. -/
def next (state : State) : Label → Option State
  | .push thread args =>
      match state.pushers thread with
      | .idle =>
          some { state.setPusher thread (.waitTail args state.fcInfoHead) with
            fcInfoHead := state.fcInfoHead + 1
            pushed := state.pushed ++ [args] }
      | _ => none
  | .pushStep thread => fcPush state thread
  | .popStep => some (fcPop state)

/-- The ring as `dtn_init` leaves it. -/
def State.init : State where
  fcInfo _ := FcInfo.cleared
  fcInfoHead := 0
  fcInfoTail := 0
  pushers _ := .idle
  popper := .idle
  pushed := []
  returned := []

/-- The completion ring with any number of pushing threads and one popping thread. -/
def machine : Machine State Label where
  initial state := state = State.init
  next := next

/-! ## What a step can do -/

/-- The steps of the ring, with the tests that let them happen. -/
inductive Move (state : State) : Label → State → Prop
  | claim (thread : Nat) (args : FcArgs) (free : state.pushers thread = .idle) :
      Move state (.push thread args)
        { state.setPusher thread (.waitTail args state.fcInfoHead) with
          fcInfoHead := state.fcInfoHead + 1
          pushed := state.pushed ++ [args] }
  | stay (label : Label) : Move state label state
  | tailNear (thread : Nat) (args : FcArgs) (head : Nat)
      (at_tail : state.pushers thread = .waitTail args head)
      (near : head < state.fcInfoTail + fcInfoCnt) :
      Move state (.pushStep thread) (state.setPusher thread (.waitSlot args head))
  | slotClear (thread : Nat) (args : FcArgs) (head : Nat)
      (at_slot : state.pushers thread = .waitSlot args head)
      (clear : (state.fcInfo (head % fcInfoCnt)).state = 0) :
      Move state (.pushStep thread) (state.setPusher thread (.copy args head))
  | store (thread : Nat) (args : FcArgs) (head : Nat)
      (at_copy : state.pushers thread = .copy args head) :
      Move state (.pushStep thread)
        { state.setPusher thread .idle with
          fcInfo := Function.update state.fcInfo (head % fcInfoCnt) args.info }
  | popClaim (idle : state.popper = .idle) :
      Move state .popStep
        { state with
          fcInfoTail := state.fcInfoTail + 1
          popper := .waitHead state.fcInfoTail }
  | popHead (tail : Nat) (at_head : state.popper = .waitHead tail)
      (behind : tail < state.fcInfoHead) :
      Move state .popStep { state with popper := .waitSlot tail }
  | popSlot (tail : Nat) (at_slot : state.popper = .waitSlot tail)
      (full : (state.fcInfo (tail % fcInfoCnt)).state ≠ 0) :
      Move state .popStep { state with popper := .copy tail }
  | popCopy (tail : Nat) (at_copy : state.popper = .copy tail) :
      Move state .popStep
        { state with popper := .clear tail (state.fcInfo (tail % fcInfoCnt)) }
  | popClear (tail : Nat) (fc : FcInfo) (at_clear : state.popper = .clear tail fc) :
      Move state .popStep
        { state with
          fcInfo := Function.update state.fcInfo (tail % fcInfoCnt) FcInfo.cleared
          popper := .idle
          returned := state.returned ++ [fc] }

theorem move_of_next {state after : State} {label : Label}
    (taken : next state label = some after) : Move state label after := by
  cases label with
  | push thread args =>
      simp only [next] at taken
      split at taken
      · rename_i free
        obtain rfl := Option.some.inj taken
        exact .claim thread args free
      · cases taken
  | pushStep thread =>
      simp only [next, fcPush] at taken
      split at taken
      · cases taken
      · rename_i args head at_tail
        split at taken <;> obtain rfl := Option.some.inj taken
        · exact .stay _
        · exact .tailNear thread args head at_tail (by omega)
      · rename_i args head at_slot
        split at taken <;> obtain rfl := Option.some.inj taken
        · exact .slotClear thread args head at_slot ‹_›
        · exact .stay _
      · rename_i args head at_copy
        obtain rfl := Option.some.inj taken
        exact .store thread args head at_copy
  | popStep =>
      simp only [next, fcPop] at taken
      split at taken
      · rename_i idle
        obtain rfl := Option.some.inj taken
        exact .popClaim idle
      · rename_i tail at_head
        split at taken <;> obtain rfl := Option.some.inj taken
        · exact .stay _
        · exact .popHead tail at_head (by omega)
      · rename_i tail at_slot
        split at taken <;> obtain rfl := Option.some.inj taken
        · exact .stay _
        · exact .popSlot tail at_slot ‹_›
      · rename_i tail at_copy
        obtain rfl := Option.some.inj taken
        exact .popCopy tail at_copy
      · rename_i tail fc at_clear
        obtain rfl := Option.some.inj taken
        exact .popClear tail fc at_clear

/-! ## The ring under stores in their turn -/

/-- A call of `fc_push` copies its record only when the record of the same slot one lap before it
has been returned and its slot cleared. -/
def InTurn (state : State) : Label → Prop
  | .pushStep thread =>
      match state.pushers thread with
      | .copy _ head => head < state.returned.length + fcInfoCnt
      | _ => True
  | _ => True

instance (state : State) (label : Label) : Decidable (InTurn state label) := by
  unfold InTurn
  split
  · split <;> infer_instance
  · infer_instance

/-- Some call still has to copy the record of `index`. -/
def State.Pending (state : State) (index : Nat) : Prop :=
  ∃ thread args, (state.pushers thread).claim? = some (args, index)

/-- The record of `index` has been copied to its slot. -/
def State.Stored (state : State) (index : Nat) : Prop :=
  index < state.fcInfoHead ∧ ¬state.Pending index

/-- What the popper knows at each point of `fc_pop`. -/
def State.PopperAgrees (state : State) : Prop :=
  match state.popper with
  | .idle => state.fcInfoTail = state.returned.length
  | .waitHead tail =>
      tail = state.returned.length ∧ state.fcInfoTail = state.returned.length + 1
  | .waitSlot tail =>
      tail = state.returned.length ∧ state.fcInfoTail = state.returned.length + 1
  | .copy tail =>
      tail = state.returned.length ∧ state.fcInfoTail = state.returned.length + 1 ∧
        state.Stored tail
  | .clear tail fc =>
      tail = state.returned.length ∧ state.fcInfoTail = state.returned.length + 1 ∧
        state.Stored tail ∧ ∃ args, state.pushed[tail]? = some args ∧ fc = args.info

/-- The invariant of the ring while records are stored in their turn. -/
structure Inv (state : State) : Prop where
  head_eq : state.fcInfoHead = state.pushed.length
  /-- An index still to be stored belongs to its record and has not been popped. -/
  claimed : ∀ thread args index, (state.pushers thread).claim? = some (args, index) →
    state.pushed[index]? = some args ∧ state.returned.length ≤ index
  /-- Two calls never hold one index. -/
  distinct : ∀ thread other args others index,
    (state.pushers thread).claim? = some (args, index) →
    (state.pushers other).claim? = some (others, index) → thread = other
  /-- A stored record waits in its slot until it is popped. -/
  full_slot : ∀ index, state.returned.length ≤ index → state.Stored index →
    index < state.returned.length + fcInfoCnt ∧
      ∃ args, state.pushed[index]? = some args ∧ state.fcInfo (index % fcInfoCnt) = args.info
  /-- The slots of the other indexes of the current lap are clear. -/
  clear_slot : ∀ index, state.returned.length ≤ index →
    index < state.returned.length + fcInfoCnt → ¬state.Stored index →
    state.fcInfo (index % fcInfoCnt) = FcInfo.cleared
  /-- Everything returned was stored. -/
  returned_stored : ∀ index, index < state.returned.length → state.Stored index
  in_order : state.returned = (state.pushed.take state.returned.length).map FcArgs.info
  popper : state.PopperAgrees

theorem State.setPusher_claim (state : State) (thread other : Nat) (pusher : Pusher) :
    ((state.setPusher thread pusher).pushers other).claim? =
      if other = thread then pusher.claim? else (state.pushers other).claim? := by
  by_cases same : other = thread
  · subst same
    simp [State.setPusher]
  · simp [State.setPusher, same]

/-- A step inside `fc_push` that keeps its claim changes no claim. -/
theorem State.setPusher_claim_eq {state : State} {thread : Nat} {pusher : Pusher}
    (same : pusher.claim? = (state.pushers thread).claim?) (other : Nat) :
    ((state.setPusher thread pusher).pushers other).claim? = (state.pushers other).claim? := by
  rw [State.setPusher_claim]
  split
  · rename_i eq
    rw [eq, same]
  · rfl

/-- The popper's knowledge survives a step of a pusher. -/
theorem State.PopperAgrees.mono {before after : State} (agrees : before.PopperAgrees)
    (popper_eq : after.popper = before.popper) (tail_eq : after.fcInfoTail = before.fcInfoTail)
    (returned_eq : after.returned = before.returned)
    (stored : ∀ index, before.Stored index → after.Stored index)
    (pushed : ∀ (index : Nat) (args : FcArgs), before.pushed[index]? = some args →
      after.pushed[index]? = some args) : after.PopperAgrees := by
  rw [State.PopperAgrees] at agrees ⊢
  rw [popper_eq, tail_eq, returned_eq]
  cases at_popper : before.popper with
  | idle | waitHead | waitSlot =>
      simp only [at_popper] at agrees ⊢
      exact agrees
  | copy tail =>
      simp only [at_popper] at agrees ⊢
      exact ⟨agrees.1, agrees.2.1, stored tail agrees.2.2⟩
  | clear tail fc =>
      simp only [at_popper] at agrees ⊢
      obtain ⟨tail_is, count, full, record, found, copied⟩ := agrees
      exact ⟨tail_is, count, stored tail full, record, pushed tail record found, copied⟩

theorem Inv.init : Inv State.init where
  head_eq := rfl
  claimed := by simp [State.init, Pusher.claim?]
  distinct := by simp [State.init, Pusher.claim?]
  full_slot := by simp [State.init, State.Stored]
  clear_slot := by simp [State.init]
  returned_stored := by simp [State.init]
  in_order := rfl
  popper := rfl

/-- The invariant reads the pushers only through their claims. -/
theorem Inv.setPusher {state : State} (inv : Inv state) {thread : Nat} {pusher : Pusher}
    (same : pusher.claim? = (state.pushers thread).claim?) :
    Inv (state.setPusher thread pusher) := by
  have claims := State.setPusher_claim_eq same
  have pending : ∀ index, (state.setPusher thread pusher).Pending index ↔ state.Pending index := by
    intro index
    simp only [State.Pending, claims]
  have stored : ∀ index, (state.setPusher thread pusher).Stored index ↔ state.Stored index := by
    intro index
    simp only [State.Stored, pending]
    rfl
  refine ⟨inv.head_eq, ?_, ?_, ?_, ?_, ?_, inv.in_order, ?_⟩
  · intro other args index claim
    rw [claims] at claim
    exact inv.claimed other args index claim
  · intro one two args others index first second
    rw [claims] at first second
    exact inv.distinct one two args others index first second
  · intro index low full
    exact inv.full_slot index low ((stored index).mp full)
  · intro index low high clear
    exact inv.clear_slot index low high (fun full => clear ((stored index).mpr full))
  · intro index low
    exact (stored index).mpr (inv.returned_stored index low)
  · exact State.PopperAgrees.mono inv.popper rfl rfl rfl (fun index => (stored index).mpr)
      (fun _ _ found => found)

/-- Taking an index keeps the invariant. -/
theorem Inv.claim {state : State} (inv : Inv state) {thread : Nat} (args : FcArgs)
    (free : state.pushers thread = .idle) :
    Inv { state.setPusher thread (.waitTail args state.fcInfoHead) with
      fcInfoHead := state.fcInfoHead + 1
      pushed := state.pushed ++ [args] } := by
  set after : State := { state.setPusher thread (.waitTail args state.fcInfoHead) with
    fcInfoHead := state.fcInfoHead + 1
    pushed := state.pushed ++ [args] } with after_eq
  have claims : ∀ other, (after.pushers other).claim? =
      if other = thread then some (args, state.fcInfoHead)
      else (state.pushers other).claim? :=
    fun other => state.setPusher_claim thread other _
  have below : ∀ {index : Nat} {record : FcArgs}, state.pushed[index]? = some record →
      index < state.fcInfoHead := by
    intro index record found
    rw [inv.head_eq]
    exact (List.getElem?_eq_some_iff.mp found).1
  have pushed_old : ∀ index, index < state.fcInfoHead →
      after.pushed[index]? = state.pushed[index]? := by
    intro index low
    exact List.getElem?_append_left (inv.head_eq ▸ low)
  -- the new index is pending, the older ones are as they were
  have stored : ∀ index, after.Stored index ↔ state.Stored index := by
    intro index
    constructor
    · rintro ⟨low, unclaimed⟩
      have ne : index ≠ state.fcInfoHead := by
        rintro rfl
        exact unclaimed ⟨thread, args, by rw [claims, if_pos rfl]⟩
      refine ⟨by simp only [after_eq] at low; omega, ?_⟩
      rintro ⟨other, record, claim⟩
      refine unclaimed ⟨other, record, ?_⟩
      rw [claims, if_neg, claim]
      rintro rfl
      simp [free, Pusher.claim?] at claim
    · rintro ⟨low, unclaimed⟩
      refine ⟨Nat.lt_succ_of_lt low, ?_⟩
      rintro ⟨other, record, claim⟩
      rw [claims] at claim
      split at claim
      · simp only [Option.some.injEq, Prod.mk.injEq] at claim
        omega
      · exact unclaimed ⟨other, record, claim⟩
  refine ⟨by simp [after_eq, inv.head_eq], ?_, ?_, ?_, ?_, ?_, ?_, ?_⟩
  · intro other record index claim
    rw [claims] at claim
    split at claim
    · simp only [Option.some.injEq, Prod.mk.injEq] at claim
      obtain ⟨rfl, rfl⟩ := claim
      refine ⟨by simp [after_eq, inv.head_eq], ?_⟩
      have fewer := congrArg List.length inv.in_order
      rw [List.length_map, List.length_take] at fewer
      change state.returned.length ≤ state.fcInfoHead
      rw [inv.head_eq]
      omega
    · obtain ⟨found, unpopped⟩ := inv.claimed other record index claim
      exact ⟨(pushed_old index (below found)).trans found, unpopped⟩
  · intro one two record records index first second
    rw [claims] at first second
    split at first <;> split at second
    · simp_all
    · simp only [Option.some.injEq, Prod.mk.injEq] at first
      have low := below (inv.claimed two records index second).1
      omega
    · simp only [Option.some.injEq, Prod.mk.injEq] at second
      have low := below (inv.claimed one record index first).1
      omega
    · exact inv.distinct one two record records index first second
  · intro index low full
    obtain ⟨near, record, found, slot⟩ := inv.full_slot index low ((stored index).mp full)
    exact ⟨near, record, (pushed_old index (below found)).trans found, slot⟩
  · intro index low high clear
    exact inv.clear_slot index low high (fun full => clear ((stored index).mpr full))
  · intro index low
    exact (stored index).mpr (inv.returned_stored index low)
  · have fewer := congrArg List.length inv.in_order
    rw [List.length_map, List.length_take] at fewer
    change state.returned = ((state.pushed ++ [args]).take state.returned.length).map FcArgs.info
    rw [List.take_append_of_le_length (by omega)]
    exact inv.in_order
  · exact State.PopperAgrees.mono inv.popper rfl rfl rfl (fun index => (stored index).mpr)
      (fun index record found => (pushed_old index (below found)).trans found)

/-- Copying a record in its turn keeps the invariant. -/
theorem Inv.store {state : State} (inv : Inv state) {thread head : Nat} {args : FcArgs}
    (at_copy : state.pushers thread = .copy args head)
    (in_turn : head < state.returned.length + fcInfoCnt) :
    Inv { state.setPusher thread .idle with
      fcInfo := Function.update state.fcInfo (head % fcInfoCnt) args.info } := by
  set after : State := { state.setPusher thread .idle with
    fcInfo := Function.update state.fcInfo (head % fcInfoCnt) args.info } with after_eq
  have claims : ∀ other, (after.pushers other).claim? =
      if other = thread then none else (state.pushers other).claim? :=
    fun other => state.setPusher_claim thread other _
  have held : (state.pushers thread).claim? = some (args, head) := by
    rw [at_copy]
    rfl
  obtain ⟨found, unpopped⟩ := inv.claimed thread args head held
  have head_low : head < state.fcInfoHead := by
    rw [inv.head_eq]
    exact (List.getElem?_eq_some_iff.mp found).1
  -- `head` is the only index whose record this step stores
  have stored : ∀ index, after.Stored index ↔ index = head ∨ state.Stored index := by
    intro index
    constructor
    · rintro ⟨low, unclaimed⟩
      by_cases eq : index = head
      · exact Or.inl eq
      · refine Or.inr ⟨low, ?_⟩
        rintro ⟨other, record, claim⟩
        refine unclaimed ⟨other, record, ?_⟩
        rw [claims, if_neg, claim]
        rintro rfl
        rw [held] at claim
        simp only [Option.some.injEq, Prod.mk.injEq] at claim
        exact eq claim.2.symm
    · rintro (rfl | ⟨low, unclaimed⟩)
      · refine ⟨head_low, ?_⟩
        rintro ⟨other, record, claim⟩
        rw [claims] at claim
        split at claim
        · cases claim
        · rename_i ne
          exact ne (inv.distinct other thread record args index claim held)
      · refine ⟨low, ?_⟩
        rintro ⟨other, record, claim⟩
        rw [claims] at claim
        split at claim
        · cases claim
        · exact unclaimed ⟨other, record, claim⟩
  have slot_self : after.fcInfo (head % fcInfoCnt) = args.info := Function.update_self ..
  have slot_other : ∀ index, state.returned.length ≤ index →
      index < state.returned.length + fcInfoCnt → index ≠ head →
      after.fcInfo (index % fcInfoCnt) = state.fcInfo (index % fcInfoCnt) := by
    intro index low high ne
    exact Function.update_of_ne (mod_ne_of_window low high unpopped in_turn ne) _ _
  refine ⟨inv.head_eq, ?_, ?_, ?_, ?_, ?_, inv.in_order, ?_⟩
  · intro other record index claim
    rw [claims] at claim
    split at claim
    · cases claim
    · exact inv.claimed other record index claim
  · intro one two record records index first second
    rw [claims] at first second
    split at first <;> split at second
    · cases first
    · cases first
    · cases second
    · exact inv.distinct one two record records index first second
  · intro index low full
    by_cases eq : index = head
    · subst eq
      exact ⟨in_turn, args, found, slot_self⟩
    · have old : state.Stored index := ((stored index).mp full).resolve_left eq
      obtain ⟨near, record, present, slot⟩ := inv.full_slot index low old
      exact ⟨near, record, present, (slot_other index low near eq).trans slot⟩
  · intro index low high clear
    have ne : index ≠ head := fun eq => clear ((stored index).mpr (Or.inl eq))
    rw [slot_other index low high ne]
    exact inv.clear_slot index low high (fun full => clear ((stored index).mpr (Or.inr full)))
  · intro index low
    exact (stored index).mpr (Or.inr (inv.returned_stored index low))
  · exact State.PopperAgrees.mono inv.popper rfl rfl rfl
      (fun index full => (stored index).mpr (Or.inr full))
      (fun _ _ found => found)

/-- The invariant reads the popper only through what it knows. -/
theorem Inv.setPopper {state : State} (inv : Inv state) {tail : Nat} {popper : Popper}
    (agrees : { state with fcInfoTail := tail, popper := popper : State }.PopperAgrees) :
    Inv { state with fcInfoTail := tail, popper := popper } :=
  ⟨inv.head_eq, inv.claimed, inv.distinct, inv.full_slot, inv.clear_slot, inv.returned_stored,
    inv.in_order, agrees⟩

/-- Clearing the slot of a copied record and returning the copy keeps the invariant. -/
theorem Inv.popClear {state : State} (inv : Inv state) {tail : Nat} {fc : FcInfo}
    (at_clear : state.popper = .clear tail fc) :
    Inv { state with
      fcInfo := Function.update state.fcInfo (tail % fcInfoCnt) FcInfo.cleared
      popper := .idle
      returned := state.returned ++ [fc] } := by
  have agrees := inv.popper
  simp only [State.PopperAgrees, at_clear] at agrees
  obtain ⟨rfl, count, full, args, found, rfl⟩ := agrees
  set tail := state.returned.length
  -- `Stored` reads neither the slots nor the popper, so it is the same before and after
  refine ⟨inv.head_eq, ?_, inv.distinct, ?_, ?_, ?_, ?_, ?_⟩
  · intro thread record index claim
    obtain ⟨present, unpopped⟩ := inv.claimed thread record index claim
    refine ⟨present, ?_⟩
    have ne : index ≠ tail := by
      rintro rfl
      exact full.2 ⟨thread, record, claim⟩
    simp only [List.length_append, List.length_singleton]
    omega
  · intro index low stored
    simp only [List.length_append, List.length_singleton] at low ⊢
    obtain ⟨near, record, present, slot⟩ := inv.full_slot index (by omega) stored
    refine ⟨by omega, record, present, ?_⟩
    have lap : tail < tail + fcInfoCnt := Nat.lt_add_of_pos_right (by decide)
    have ne : index % fcInfoCnt ≠ tail % fcInfoCnt :=
      mod_ne_of_window (Nat.le_of_lt low) near le_rfl lap (by omega)
    exact (Function.update_of_ne ne _ _).trans slot
  · intro index low high unstored
    simp only [List.length_append, List.length_singleton] at low high
    by_cases same : index % fcInfoCnt = tail % fcInfoCnt
    · change Function.update _ _ _ (index % fcInfoCnt) = _
      rw [same, Function.update_self]
    · have near : index < tail + fcInfoCnt := by
        by_contra far
        have lap : index = tail + fcInfoCnt := by omega
        exact same (by rw [lap, Nat.add_mod_right])
      exact (Function.update_of_ne same _ _).trans
        (inv.clear_slot index (by omega) near unstored)
  · intro index low
    simp only [List.length_append, List.length_singleton] at low
    by_cases last : index = tail
    · rw [last]
      exact full
    · exact inv.returned_stored index (by omega)
  · change state.returned ++ [args.info] = _
    rw [List.length_append, List.length_singleton, List.take_add_one, found, List.map_append,
      ← inv.in_order]
    rfl
  · simp only [State.PopperAgrees, List.length_append, List.length_singleton]
    exact count

/-- Every step keeps the invariant when records are stored in their turn. -/
theorem Inv.step {state after : State} {label : Label} (inv : Inv state)
    (in_turn : InTurn state label) (taken : next state label = some after) : Inv after := by
  have agrees := inv.popper
  cases move_of_next taken with
  | stay => exact inv
  | claim thread args free => exact inv.claim args free
  | tailNear thread args head at_tail near =>
      exact inv.setPusher (by rw [at_tail]; rfl)
  | slotClear thread args head at_slot clear =>
      exact inv.setPusher (by rw [at_slot]; rfl)
  | store thread args head at_copy =>
      exact inv.store at_copy (by simpa only [InTurn, at_copy] using in_turn)
  | popClaim idle =>
      apply inv.setPopper
      simp only [State.PopperAgrees, idle] at agrees ⊢
      exact ⟨agrees, by rw [agrees]⟩
  | popHead tail at_head behind =>
      apply inv.setPopper
      simpa only [State.PopperAgrees, at_head] using agrees
  | popSlot tail at_slot full =>
      apply inv.setPopper
      simp only [State.PopperAgrees, at_slot] at agrees ⊢
      refine ⟨agrees.1, agrees.2, ?_⟩
      by_contra unstored
      have clear := inv.clear_slot tail agrees.1.ge (by simp [agrees.1, fcInfoCnt]) unstored
      exact full (by rw [clear]; rfl)
  | popCopy tail at_copy =>
      apply inv.setPopper
      simp only [State.PopperAgrees, at_copy] at agrees ⊢
      obtain ⟨-, args, found, slot⟩ := inv.full_slot tail agrees.1.ge agrees.2.2
      exact ⟨agrees.1, agrees.2.1, agrees.2.2, args, found, slot⟩
  | popClear tail fc at_clear => exact inv.popClear at_clear

/-- The invariant holds in every state reached by storing records in their turn. -/
theorem inv_reached {state : State} (reached : machine.ReachedUnder InTurn state) : Inv state := by
  refine reached.invariant Inv ?_ fun _ _ _ inv in_turn taken => inv.step in_turn taken
  rintro _ rfl
  exact Inv.init

/-! ## Delivery -/

/-- The steps of calls already begun, and the steps of the popper. -/
def GoesOn : Label → Prop
  | .push _ _ => False
  | _ => True

/-- Steps still to take inside `fc_push` before the record is copied. -/
def Pusher.rank : Pusher → Nat
  | .idle => 0
  | .copy _ _ => 1
  | .waitSlot _ _ => 2
  | .waitTail _ _ => 3

/-- Steps still to take until `fc_pop` returns. -/
def Popper.rank : Popper → Nat
  | .clear _ _ => 0
  | .copy _ => 1
  | .waitSlot _ => 2
  | .waitHead _ => 3
  | .idle => 4

theorem Inv.tail_ge {state : State} (inv : Inv state) :
    state.returned.length ≤ state.fcInfoTail := by
  have agrees := inv.popper
  rw [State.PopperAgrees] at agrees
  cases at_popper : state.popper <;> simp only [at_popper] at agrees <;> omega

/-- The call that holds the oldest undelivered index is never blocked. -/
theorem Inv.push_progress {state : State} (inv : Inv state) {thread : Nat} {args : FcArgs}
    (held : (state.pushers thread).claim? = some (args, state.returned.length)) :
    ∃ after, next state (.pushStep thread) = some after ∧ Inv after ∧
      after.pushed = state.pushed ∧ after.returned = state.returned ∧
      (after.Stored state.returned.length ∨
        ((after.pushers thread).claim? = some (args, state.returned.length) ∧
          (after.pushers thread).rank < (state.pushers thread).rank)) := by
  have lap : 0 < fcInfoCnt := by decide
  have found := (inv.claimed thread args _ held).1
  have head_low : state.returned.length < state.fcInfoHead := by
    rw [inv.head_eq]
    exact (List.getElem?_eq_some_iff.mp found).1
  cases at_pusher : state.pushers thread with
  | idle => simp [at_pusher, Pusher.claim?] at held
  | waitTail record head =>
      simp only [at_pusher, Pusher.claim?, Option.some.injEq, Prod.mk.injEq] at held
      obtain ⟨rfl, rfl⟩ := held
      have near : ¬state.fcInfoTail + fcInfoCnt ≤ state.returned.length := by
        have tail_ge := inv.tail_ge
        omega
      refine ⟨state.setPusher thread (.waitSlot record state.returned.length), ?_,
        inv.setPusher (by rw [at_pusher]; rfl), rfl, rfl, Or.inr ?_⟩
      · simp [next, fcPush, at_pusher, near]
      · simp [State.setPusher, Pusher.claim?, Pusher.rank]
  | waitSlot record head =>
      simp only [at_pusher, Pusher.claim?, Option.some.injEq, Prod.mk.injEq] at held
      obtain ⟨rfl, rfl⟩ := held
      have unstored : ¬state.Stored state.returned.length := fun full =>
        full.2 ⟨thread, record, by rw [at_pusher]; rfl⟩
      have clear := inv.clear_slot _ le_rfl (by omega) unstored
      refine ⟨state.setPusher thread (.copy record state.returned.length), ?_,
        inv.setPusher (by rw [at_pusher]; rfl), rfl, rfl, Or.inr ?_⟩
      · simp [next, fcPush, at_pusher, clear]
      · simp [State.setPusher, Pusher.claim?, Pusher.rank]
  | copy record head =>
      simp only [at_pusher, Pusher.claim?, Option.some.injEq, Prod.mk.injEq] at held
      obtain ⟨rfl, rfl⟩ := held
      refine ⟨_, by simp only [next, fcPush, at_pusher],
        inv.store at_pusher (Nat.lt_add_of_pos_right lap), rfl, rfl, Or.inl ⟨head_low, ?_⟩⟩
      rintro ⟨other, records, claim⟩
      have claim := (state.setPusher_claim thread other .idle).symm.trans claim
      split at claim
      · cases claim
      · rename_i ne
        exact ne (inv.distinct other thread records record _ claim (by rw [at_pusher]; rfl))

/-- The popper is never blocked once the oldest undelivered record is stored. -/
theorem Inv.pop_progress {state : State} (inv : Inv state)
    (full : state.Stored state.returned.length) :
    ∃ after, next state .popStep = some after ∧ Inv after ∧ after.pushed = state.pushed ∧
      (after.returned.length = state.returned.length + 1 ∨
        (after.returned = state.returned ∧ after.Stored state.returned.length ∧
          after.popper.rank < state.popper.rank)) := by
  have agrees := inv.popper
  have kept : ∀ {after : State}, next state .popStep = some after → Inv after :=
    fun taken => @Inv.step _ _ .popStep inv trivial taken
  refine ⟨fcPop state, rfl, kept rfl, ?_⟩
  cases at_popper : state.popper with
  | idle =>
      simp only [fcPop, at_popper, true_and]
      exact Or.inr ⟨full, by simp [Popper.rank]⟩
  | waitHead tail =>
      simp only [State.PopperAgrees, at_popper] at agrees
      have behind : ¬state.fcInfoHead ≤ tail := by
        have := full.1
        omega
      simp only [fcPop, at_popper, if_neg behind, true_and]
      exact Or.inr ⟨full, by simp [Popper.rank]⟩
  | waitSlot tail =>
      simp only [State.PopperAgrees, at_popper] at agrees
      obtain ⟨-, args, -, slot⟩ := inv.full_slot _ le_rfl full
      have flag : ¬(state.fcInfo (tail % fcInfoCnt)).state = 0 := by
        rw [agrees.1, slot, FcArgs.info_state]
        decide
      simp only [fcPop, at_popper, if_neg flag, true_and]
      exact Or.inr ⟨full, by simp [Popper.rank]⟩
  | copy tail =>
      simp only [fcPop, at_popper, true_and]
      exact Or.inr ⟨full, by simp [Popper.rank]⟩
  | clear tail fc =>
      simp [fcPop, at_popper]

theorem Inv.deliver_stored {state : State} (inv : Inv state)
    (full : state.Stored state.returned.length) :
    ∃ after, machine.PathBy GoesOn state after ∧ Inv after ∧ after.pushed = state.pushed ∧
      after.returned.length = state.returned.length + 1 := by
  induction rank_eq : state.popper.rank using Nat.strong_induction_on generalizing state with
  | _ rank ih =>
      obtain ⟨middle, taken, inv_middle, pushed_eq, returned | ⟨same, stored, less⟩⟩ :=
        inv.pop_progress full
      · exact ⟨middle, .single .popStep trivial taken, inv_middle, pushed_eq, returned⟩
      · rw [← same] at stored
        obtain ⟨after, path, inv_after, pushed_after, returned⟩ :=
          ih _ (rank_eq ▸ less) inv_middle stored rfl
        exact ⟨after, .head ⟨.popStep, trivial, taken⟩ path, inv_after,
          pushed_after.trans pushed_eq, by rw [returned, same]⟩

theorem Inv.store_pending {state : State} (inv : Inv state) {thread : Nat} {args : FcArgs}
    (held : (state.pushers thread).claim? = some (args, state.returned.length)) :
    ∃ after, machine.PathBy GoesOn state after ∧ Inv after ∧ after.pushed = state.pushed ∧
      after.returned = state.returned ∧ after.Stored state.returned.length := by
  induction rank_eq : (state.pushers thread).rank using Nat.strong_induction_on
    generalizing state with
  | _ rank ih =>
      obtain ⟨middle, taken, inv_middle, pushed_eq, returned_eq, stored | ⟨claim, less⟩⟩ :=
        inv.push_progress held
      · exact ⟨middle, .single (.pushStep thread) trivial taken, inv_middle, pushed_eq,
          returned_eq, stored⟩
      · rw [← returned_eq] at claim
        obtain ⟨after, path, inv_after, pushed_after, returned_after, stored⟩ :=
          ih _ (rank_eq ▸ less) inv_middle claim rfl
        exact ⟨after, .head ⟨.pushStep thread, trivial, taken⟩ path, inv_after,
          pushed_after.trans pushed_eq, returned_after.trans returned_eq, returned_eq ▸ stored⟩

/-- The oldest undelivered record can be delivered by the threads that are already running. -/
theorem Inv.deliver_one {state : State} (inv : Inv state)
    (undelivered : state.returned.length < state.pushed.length) :
    ∃ after, machine.PathBy GoesOn state after ∧ Inv after ∧ after.pushed = state.pushed ∧
      after.returned.length = state.returned.length + 1 := by
  by_cases pending : state.Pending state.returned.length
  · obtain ⟨thread, args, held⟩ := pending
    obtain ⟨middle, path, inv_middle, pushed_eq, returned_eq, stored⟩ := inv.store_pending held
    rw [← returned_eq] at stored
    obtain ⟨after, rest, inv_after, pushed_after, returned⟩ := inv_middle.deliver_stored stored
    exact ⟨after, path.trans rest, inv_after, pushed_after.trans pushed_eq,
      by rw [returned, returned_eq]⟩
  · exact inv.deliver_stored ⟨inv.head_eq ▸ undelivered, pending⟩

theorem Inv.returned_le {state : State} (inv : Inv state) :
    state.returned.length ≤ state.pushed.length := by
  have fewer := congrArg List.length inv.in_order
  rw [List.length_map, List.length_take] at fewer
  omega

/-- Every record pushed so far can be delivered by the threads that are already running. -/
theorem Inv.deliver_all {state : State} (inv : Inv state) :
    ∃ after, machine.PathBy GoesOn state after ∧ after.pushed = state.pushed ∧
      after.returned = state.pushed.map FcArgs.info := by
  induction left_eq : state.pushed.length - state.returned.length generalizing state with
  | zero =>
      refine ⟨state, .refl, rfl, ?_⟩
      rw [inv.in_order, List.take_of_length_le (by omega)]
  | succ left ih =>
      obtain ⟨middle, path, inv_middle, pushed_eq, returned⟩ := inv.deliver_one (by omega)
      obtain ⟨after, rest, pushed_after, delivered⟩ :=
        ih inv_middle (by rw [pushed_eq, returned]; omega)
      exact ⟨after, path.trans rest, pushed_after.trans pushed_eq, by rw [delivered, pushed_eq]⟩

/-! ## The ring as a queue -/

/-- A state of a lossless queue: calls of `fc_pop` return the records in the order of the head
values, and the calls already running can deliver every record pushed so far, each once. -/
structure Faithful (state : State) : Prop where
  in_order : ∀ (index : Nat) (fc : FcInfo), state.returned[index]? = some fc →
    ∃ args : FcArgs, state.pushed[index]? = some args ∧ fc = args.info
  delivers : ∃ after, machine.PathBy GoesOn state after ∧ after.pushed = state.pushed ∧
    after.returned = state.pushed.map FcArgs.info

theorem Inv.faithful {state : State} (inv : Inv state) : Faithful state where
  in_order := by
    intro index fc popped
    have low : index < state.returned.length := (List.getElem?_eq_some_iff.mp popped).1
    rw [inv.in_order, List.getElem?_map, List.getElem?_take_of_lt low] at popped
    obtain ⟨args, found, rfl⟩ := Option.map_eq_some_iff.mp popped
    exact ⟨args, found, rfl⟩
  delivers := inv.deliver_all

/-- The ring is a lossless queue in every run that copies each record in its turn. -/
theorem faithful_of_inTurn {state : State} (reached : machine.ReachedUnder InTurn state) :
    Faithful state :=
  (inv_reached reached).faithful

/-- One record is pushed and popped in turn. -/
theorem faithful_after_one : ∃ state,
    machine.run State.init
        (.push 0 ⟨1, 10, 1, 7⟩ :: (List.replicate 3 (.pushStep 0) ++ List.replicate 5 .popStep)) =
      some state ∧ state.returned = [(⟨1, 10, 1, 7⟩ : FcArgs).info] ∧ Faithful state := by
  refine ⟨_, rfl, rfl, faithful_of_inTurn (.of_restrict (Machine.reached_of_run rfl
    (.push 0 ⟨1, 10, 1, 7⟩ :: (List.replicate 3 (.pushStep 0) ++ List.replicate 5 .popStep)) rfl))⟩

/-! ## A pusher delayed for a lap -/

/-- The record pushed with head value `index`. -/
def lapRecord (index : Nat) : FcArgs := ⟨UInt64.ofNat (index + 1), 0, 0, 0⟩

/-- Thread 0 has taken index 0 and sleeps, the popper waits for index 0, and thread 1 has pushed
the next `count` records. -/
def lapState (count : Nat) : State where
  fcInfo slot := if 1 ≤ slot ∧ slot ≤ count then (lapRecord slot).info else FcInfo.cleared
  fcInfoHead := count + 1
  fcInfoTail := 1
  pushers := Function.update (fun _ => .idle) 0 (.waitTail (lapRecord 0) 0)
  popper := .waitHead 0
  pushed := (List.range (count + 1)).map lapRecord
  returned := []

theorem lapState_zero :
    machine.run State.init [.push 0 (lapRecord 0), .popStep] = some (lapState 0) := by
  have empty : (fun _ : Nat => FcInfo.cleared) =
      fun slot => if 1 ≤ slot ∧ slot = 0 then (lapRecord slot).info else FcInfo.cleared := by
    funext slot
    rw [if_neg (by omega)]
  simpa [machine, next, fcPop, State.init, State.setPusher, lapState] using empty

/-- The four steps of one whole call of `fc_push` by thread 1. -/
def pushLabels (index : Nat) : List Label :=
  [.push 1 (lapRecord index), .pushStep 1, .pushStep 1, .pushStep 1]

theorem lapState_succ {count : Nat} (room : count + 1 < fcInfoCnt) :
    machine.run (lapState count) (pushLabels (count + 1)) = some (lapState (count + 1)) := by
  have near : ¬1 + fcInfoCnt ≤ count + 1 := by omega
  have slot_eq : (count + 1) % fcInfoCnt = count + 1 := Nat.mod_eq_of_lt room
  have filled : Function.update
      (fun slot => if 1 ≤ slot ∧ slot ≤ count then (lapRecord slot).info else FcInfo.cleared)
      (count + 1) (lapRecord (count + 1)).info =
      fun slot => if 1 ≤ slot ∧ slot ≤ count + 1 then (lapRecord slot).info
        else FcInfo.cleared := by
    funext slot
    by_cases last : slot = count + 1
    · subst last
      simp
    · rw [Function.update_of_ne last]
      congr 1
      simp only [eq_iff_iff]
      omega
  simp [pushLabels, machine, next, fcPush, State.setPusher, lapState, near, slot_eq, filled,
    List.range_succ]

theorem lapState_reached {count : Nat} (room : count < fcInfoCnt) :
    machine.Reached (lapState count) := by
  induction count with
  | zero => exact Machine.reached_of_run rfl _ lapState_zero
  | succ count ih => exact Machine.Reached.run (ih (by omega)) (lapState_succ room)

/-- After a whole lap thread 1 stores its record in the slot that thread 0 was given, and the
first call of `fc_pop` returns it. -/
theorem lap_overtakes {count : Nat} (full_lap : count + 1 = fcInfoCnt) : ∃ after,
    machine.run (lapState count) (pushLabels (count + 1) ++ List.replicate 4 .popStep) =
        some after ∧
      after.pushed[0]? = some (lapRecord 0) ∧
      after.returned = [(lapRecord (count + 1)).info] := by
  have near : ¬1 + fcInfoCnt ≤ count + 1 := by omega
  have slot_eq : (count + 1) % fcInfoCnt = 0 := by rw [full_lap, Nat.mod_self]
  simp [pushLabels, machine, next, fcPush, fcPop, State.setPusher, lapState, near, slot_eq,
    List.replicate_succ]

/-- Arbitrary interleavings do not make the ring a queue. -/
theorem not_faithful_of_reached : ¬∀ state, machine.Reached state → Faithful state := by
  intro faithful
  obtain ⟨after, taken, first_pushed, first_returned⟩ := @lap_overtakes 16383 rfl
  have reached : machine.Reached after :=
    Machine.Reached.run (lapState_reached (by decide)) taken
  obtain ⟨args, pushed, returned⟩ :=
    (faithful after reached).in_order 0 (lapRecord 16384).info (by rw [first_returned]; rfl)
  obtain rfl : lapRecord 0 = args := Option.some.inj (first_pushed.symm.trans pushed)
  exact absurd (congrArg FcInfo.fileNo returned) (by decide)

end CompletionRing
end EScp
