import EScp.CounterWindow
import EScp.NetworkObj
import EScp.Transition

/-!
# Nonces of one connection

Both ends of a connection encrypt under one key and one salt.  Each end sends frames with the
object its init function returned and with the copy that its first `meta_send` takes.  A run is any
sequence of calls of `network_send` and `network_recv` by both ends, with `meta_send` taken apart
into the calls it makes under `meta_lock`.

The counters of the four objects hand out windows of 32-bit numbers, since the flags of the
64-bit counter and its upper half do not reach the nonce.  The nonces of a run are all different
exactly when each new frame keeps its window clear of the others.
-/

namespace EScp
namespace Connection

open Network Layout

/-- The ends of the connection. -/
inductive Side where
  | sender | receiver
  deriving DecidableEq

/-- The objects of one end. -/
inductive Holder where
  /-- The object that the init function returned. -/
  | own
  /-- The copy that `meta_send` keeps. -/
  | metaCopy
  deriving DecidableEq

abbrev Source := Side × Holder

def sources : List Source :=
  [(.sender, .own), (.sender, .metaCopy), (.receiver, .own), (.receiver, .metaCopy)]

theorem mem_sources (source : Source) : source ∈ sources := by
  obtain ⟨side, holder⟩ := source
  cases side <;> cases holder <;> decide

theorem nodup_sources : sources.Nodup := by decide

/-- A call of `meta_send` that holds `meta_lock`, with the frames parts it has still to send. -/
structure MetaCall where
  thread : Nat
  sends : List SendArgs

/-- What one end keeps besides its objects. -/
structure Endpoint where
  /-- `metaknob` points to the object of this connection, and `metabuf` is set. -/
  metaknob : Bool
  metaCall : Option MetaCall
  /-- The thread-local `did_header` of `network_send`. -/
  didHeader : Nat → Bool
  exited : Bool

/-- Both ends, with the nonces given to frames and the windows they were taken from. -/
structure State where
  objects : Source → Option NetworkObj
  ends : Side → Endpoint
  /-- The nonces given to frames, oldest first. -/
  nonces : List (List UInt8)
  ledger : Ledger Source (2 ^ 32)

/-- One call. -/
inductive Label where
  /-- `do_meta` of the sender calls `meta_init`. -/
  | doMeta
  /-- `thread` calls `network_send` with the object of its end. -/
  | networkSend (side : Side) (thread : Nat) (args : SendArgs) (writes : Writes)
  /-- `network_recv` reads the header `aad`. -/
  | networkRecv (side : Side) (aad : BitVec 64)
  /-- `thread` takes `meta_lock` in `meta_send`, with a payload of the given length if any. -/
  | metaEnter (side : Side) (thread : Nat) (payload : Option Nat)
  /-- The call that holds `meta_lock` calls `network_send` once more. -/
  | metaSend (side : Side) (writes : Writes)

/-- The calls of `network_send` that `meta_send` makes. -/
def metaSends : Option Nat → List SendArgs
  | some _ => [⟨true, fihdrMeta⟩, ⟨false, fihdrMeta⟩]
  | none => [⟨false, fihdrMeta⟩]

namespace State

def setEnd (state : State) (side : Side) (endpoint : Endpoint) : State :=
  { state with ends := Function.update state.ends side endpoint }

/-- `VRFY` fails on one end. -/
def exit (state : State) (side : Side) : State :=
  state.setEnd side { state.ends side with exited := true }

def setObject (state : State) (source : Source) (knob : NetworkObj) : State :=
  { state with objects := Function.update state.objects source (some knob) }

/-- The counter of `source` is set, by giving it the object `knob`. -/
def install (state : State) (source : Source) (knob : NetworkObj) : State :=
  { state.setObject source knob with
    ledger := state.ledger.restart source ⟨knob.low, 0, knob.low_lt⟩ }

/-- A frame begins with the object `knob`, whose counter has moved by one. -/
def beginFrame (state : State) (source : Source) (knob : NetworkObj) : State :=
  { state.setObject source knob with
    nonces := state.nonces ++ [knob.nonce]
    ledger := state.ledger.extend source }

/-- `network_send` with the object `knob` of `source`: the state and the value returned, or none
when `VRFY` fails inside. -/
def send (state : State) (source : Source) (thread : Nat) (knob : NetworkObj) (args : SendArgs)
    (writes : Writes) : State × Option (BitVec 64) :=
  let endpoint := state.ends source.1
  let raise := fun raised =>
    { endpoint with didHeader := Function.update endpoint.didHeader thread raised }
  match Network.networkSend knob (endpoint.didHeader thread) args writes with
  | .exit => (state.exit source.1, none)
  | .refused counted => ((state.install source counted).setEnd source.1 (raise true), some (-1))
  | .done _ raised value none => (state.setEnd source.1 (raise raised), some value)
  | .done counted raised value (some _) =>
      ((state.beginFrame source counted).setEnd source.1 (raise raised), some value)

end State

/-- One call; a call that has to wait is not taken. -/
def next (state : State) : Label → Option State
  | .doMeta =>
      let endpoint := state.ends .sender
      match state.objects (.sender, .own) with
      | none => none
      | some knob =>
          if endpoint.exited then
            none
          else if endpoint.metaknob then
            some (state.exit .sender)
          else
            some ((state.setObject (.sender, .own) knob.metaInit).setEnd .sender
              { endpoint with metaknob := true })
  | .networkSend side thread args writes =>
      match state.objects (side, .own) with
      | none => none
      | some knob =>
          if (state.ends side).exited ∨
              (state.ends side).metaCall.any (fun call => call.thread = thread) then
            none
          else
            some (state.send (side, .own) thread knob args writes).1
  | .networkRecv side aad =>
      match state.objects (side, .own) with
      | none => none
      | some knob =>
          if (state.ends side).exited then
            none
          else
            let (received, inited) := Network.networkRecv knob aad
            some ((state.install (side, .own) received).setEnd side
              { state.ends side with metaknob := (state.ends side).metaknob || inited })
  | .metaEnter side thread payload =>
      let endpoint := state.ends side
      let entered := { endpoint with metaCall := some ⟨thread, metaSends payload⟩ }
      if endpoint.exited ∨ endpoint.metaCall.isSome then
        none
      else if payload.any (fun len => 1024 * 1024 < len) then
        some (state.exit side)
      else
        match state.objects (side, .metaCopy), state.objects (side, .own) with
        | some _, _ => some (state.setEnd side entered)
        | none, some knob =>
            if endpoint.metaknob then
              some ((state.install (side, .metaCopy) knob).setEnd side entered)
            else
              none
        | none, none => none
  | .metaSend side writes =>
      match (state.ends side).metaCall, state.objects (side, .metaCopy) with
      | some ⟨thread, args :: rest⟩, some knob =>
          if (state.ends side).exited then
            none
          else
            match state.send (side, .metaCopy) thread knob args writes with
            | (after, none) => some after
            | (after, some value) =>
                if value.toInt ≤ 0 then
                  some (after.exit side)
                else
                  some (after.setEnd side { after.ends side with
                    metaCall := if rest = [] then none else some ⟨thread, rest⟩ })
      | _, _ => none

/-- A connection whose ends hold the same key and salt. -/
def State.init (salt : BitVec 32) (block : UInt32) : State where
  objects
    | (.sender, .own) => some (networkInitTx salt)
    | (.receiver, .own) => some (networkInitRx salt ⟨true, block⟩)
    | (_, .metaCopy) => none
  ends _ := ⟨false, none, fun _ => false, false⟩
  nonces := []
  ledger := ⟨fun _ => ⟨0, 0, by decide⟩, []⟩

/-- One connection with any salt and any block size. -/
def machine : Machine State Label where
  initial state := ∃ salt block, state = State.init salt block
  next := next

/-! ## What a call does to the nonces -/

/-- The source with which a call begins a frame, if it begins one. -/
def begins (state : State) : Label → Option Source
  | .networkSend side thread args writes =>
      match state.objects (side, .own) with
      | some knob =>
          if Begins knob ((state.ends side).didHeader thread) args writes then
            some (side, .own)
          else
            none
      | none => none
  | .metaSend side writes =>
      match (state.ends side).metaCall, state.objects (side, .metaCopy) with
      | some ⟨thread, args :: _⟩, some knob =>
          if Begins knob ((state.ends side).didHeader thread) args writes then
            some (side, .metaCopy)
          else
            none
      | _, _ => none
  | _ => none

/-- Objects that give their next frame the same nonce. -/
def Alike (left right : NetworkObj) : Prop := left.lead = right.lead ∧ left.low = right.low

/-- The effects of a call on the objects, the ledger and the nonces. -/
inductive Effect (before after : State) : Option Source → Prop
  /-- No frame begins and no counter is set. -/
  | keep (objects : ∀ source knob, after.objects source = some knob →
      ∃ earlier, before.objects source = some earlier ∧ Alike knob earlier)
      (ledger : after.ledger = before.ledger) (nonces : after.nonces = before.nonces) :
      Effect before after none
  /-- The counter of `source` is set. -/
  | install (source from_source : Source) (knob earlier : NetworkObj)
      (found : before.objects from_source = some earlier) (lead : knob.lead = earlier.lead)
      (objects : after.objects = (before.install source knob).objects)
      (ledger : after.ledger = (before.install source knob).ledger)
      (nonces : after.nonces = before.nonces) : Effect before after none
  /-- A frame begins with the object of `source`. -/
  | beginFrame (source : Source) (knob : NetworkObj) (subheader : UInt16)
      (found : before.objects source = some knob)
      (objects : after.objects = (before.beginFrame source (knob.count subheader)).objects)
      (ledger : after.ledger = (before.beginFrame source (knob.count subheader)).ledger)
      (nonces : after.nonces = (before.beginFrame source (knob.count subheader)).nonces) :
      Effect before after (some source)

/-- Effects do not depend on what an end keeps besides its objects. -/
theorem Effect.setEnd {before after : State} {begun : Option Source}
    (effect : Effect before after begun) (side : Side) (endpoint : Endpoint) :
    Effect before (after.setEnd side endpoint) begun := by
  cases effect with
  | keep objects ledger nonces => exact .keep objects ledger nonces
  | install source from_source knob earlier found lead objects ledger nonces =>
      exact .install source from_source knob earlier found lead objects ledger nonces
  | beginFrame source knob subheader found objects ledger nonces =>
      exact .beginFrame source knob subheader found objects ledger nonces

theorem Effect.refl (state : State) : Effect state state none :=
  .keep (fun _ knob found => ⟨knob, found, rfl, rfl⟩) rfl rfl

theorem effect_send (state : State) (source : Source) (thread : Nat) {knob : NetworkObj}
    (found : state.objects source = some knob) (args : SendArgs) (writes : Writes) :
    Effect state (state.send source thread knob args writes).1
      (if Begins knob ((state.ends source.1).didHeader thread) args writes then some source
        else none) := by
  rw [State.send]
  dsimp only
  rcases networkSend_cases knob ((state.ends source.1).didHeader thread) args writes with
    ⟨plain, exit | refused | ⟨raised, value, done⟩⟩ | ⟨begun, raised, value, done⟩
  · rw [if_neg plain, exit]
    exact (Effect.refl state).setEnd _ _
  · rw [if_neg plain, refused]
    exact .install source source _ knob found (NetworkObj.count_lead _ _) rfl rfl rfl
  · rw [if_neg plain, done]
    exact (Effect.refl state).setEnd _ _
  · rw [if_pos begun, done]
    exact .beginFrame source knob args.subheader found rfl rfl rfl

theorem effect_of_next {before after : State} {label : Label}
    (taken : next before label = some after) : Effect before after (begins before label) := by
  cases label with
  | doMeta =>
      simp only [next] at taken
      split at taken
      · cases taken
      · rename_i knob found
        split at taken
        · cases taken
        · split at taken <;> obtain rfl := Option.some.inj taken
          · exact (Effect.refl before).setEnd _ _
          · have effect : Effect before (before.setObject (.sender, .own) knob.metaInit) none := by
              refine .keep ?_ rfl rfl
              intro source object set
              by_cases same : source = (.sender, .own)
              · subst same
                obtain rfl : knob.metaInit = object := by simpa [State.setObject] using set
                exact ⟨knob, found, rfl, rfl⟩
              · exact ⟨object, by simpa [State.setObject, same] using set, rfl, rfl⟩
            exact effect.setEnd _ _
  | networkSend side thread args writes =>
      simp only [next] at taken
      split at taken
      · cases taken
      · rename_i knob found
        split at taken
        · cases taken
        · obtain rfl := Option.some.inj taken
          simpa only [begins, found] using
            effect_send before (side, .own) thread found args writes
  | networkRecv side aad =>
      simp only [next] at taken
      split at taken
      · cases taken
      · rename_i knob found
        split at taken
        · cases taken
        · obtain rfl := Option.some.inj taken
          refine Effect.setEnd (.install (side, .own) (side, .own) _ knob found ?_ rfl rfl rfl) _ _
          rw [NetworkObj.lead, networkRecv_iv]
          exact NetworkObj.setIvIncr_lead _ _
  | metaEnter side thread payload =>
      simp only [next] at taken
      split at taken
      · cases taken
      · split at taken
        · obtain rfl := Option.some.inj taken
          exact (Effect.refl before).setEnd _ _
        · split at taken
          · obtain rfl := Option.some.inj taken
            exact (Effect.refl before).setEnd _ _
          · rename_i knob missing found
            split at taken
            · obtain rfl := Option.some.inj taken
              exact Effect.setEnd
                (.install (side, .metaCopy) (side, .own) knob knob found rfl rfl rfl rfl) _ _
            · cases taken
          · cases taken
  | metaSend side writes =>
      simp only [next] at taken
      split at taken
      · rename_i thread args rest knob call found
        have effect := effect_send before (side, .metaCopy) thread found args writes
        simp only [begins, call, found]
        split at taken
        · cases taken
        · split at taken
          · rename_i sent exited
            obtain rfl := Option.some.inj taken
            simpa only [exited] using effect
          · rename_i sent value returned
            rw [returned] at effect
            split at taken <;> obtain rfl := Option.some.inj taken
            · exact effect.setEnd _ _
            · exact effect.setEnd _ _
      · cases taken

/-! ## Windows and nonces -/

/-- The nonce made of the bytes before the counter and the low half of the counter. -/
def nonceOf (lead low : Nat) : List UInt8 := bytesOf 12 (lead + 256 ^ 8 * low)

theorem nonceOf_inj {lead left right : Nat} (lead_fits : lead < 256 ^ 8)
    (left_fits : left < 2 ^ 32) (right_fits : right < 2 ^ 32)
    (same : nonceOf lead left = nonceOf lead right) : left = right := by
  have numbers := bytesOf_inj (by omega) (by omega) same
  omega

/-- The objects of a connection share the bytes before the counter, and the ledger knows their
counters and all nonces. -/
structure Inv (lead : Nat) (state : State) : Prop where
  lead_eq : ∀ source knob, state.objects source = some knob → knob.lead = lead
  low_eq : ∀ source knob, state.objects source = some knob →
    knob.low = (state.ledger.current source).last
  nonces : state.nonces.Perm ((state.ledger.values sources).map (nonceOf lead))

theorem Inv.init (salt : BitVec 32) (block : UInt32) :
    Inv salt.toNat (State.init salt block) := by
  have objects : ∀ source knob, (State.init salt block).objects source = some knob →
      knob.lead = salt.toNat ∧ knob.low = 0 := by
    rintro ⟨side, holder⟩ knob found
    cases holder with
    | own =>
        cases side with
        | sender =>
            obtain rfl : networkInitTx salt = knob := Option.some.inj found
            exact ⟨NetworkObj.ofSalt_lead _ _, NetworkObj.ofSalt_low _ _⟩
        | receiver =>
            obtain rfl : networkInitRx salt ⟨true, block⟩ = knob := Option.some.inj found
            exact ⟨(NetworkObj.setIvOne_lead _).trans (NetworkObj.ofSalt_lead _ _),
              (NetworkObj.setIvOne_low _).trans (NetworkObj.ofSalt_low _ _)⟩
    | metaCopy => cases side <;> cases found
  exact ⟨fun source knob found => (objects source knob found).1,
    fun source knob found => (objects source knob found).2,
    by simp [State.init, Ledger.values, Ledger.windows, sources, Window.values]⟩

theorem Inv.effect {lead : Nat} {before after : State} {begun : Option Source}
    (inv : Inv lead before) (effect : Effect before after begun) : Inv lead after := by
  cases effect with
  | keep objects ledger nonces =>
      refine ⟨?_, ?_, by rw [nonces, ledger]; exact inv.nonces⟩
      · intro source knob found
        obtain ⟨earlier, found_before, alike⟩ := objects source knob found
        exact alike.1.trans (inv.lead_eq source earlier found_before)
      · intro source knob found
        obtain ⟨earlier, found_before, alike⟩ := objects source knob found
        rw [ledger, alike.2, inv.low_eq source earlier found_before]
  | install source from_source knob earlier found lead_eq objects ledger nonces =>
      refine ⟨?_, ?_, ?_⟩
      · intro other object found_after
        rw [objects] at found_after
        by_cases same : other = source
        · subst same
          obtain rfl : knob = object := by
            simpa [State.install, State.setObject] using found_after
          exact lead_eq.trans (inv.lead_eq from_source earlier found)
        · exact inv.lead_eq other object
            (by simpa [State.install, State.setObject, same] using found_after)
      · intro other object found_after
        rw [objects] at found_after
        rw [ledger]
        by_cases same : other = source
        · subst same
          obtain rfl : knob = object := by
            simpa [State.install, State.setObject] using found_after
          simp [State.install, Ledger.restart, Window.last_of_unused]
        · rw [inv.low_eq other object
            (by simpa [State.install, State.setObject, same] using found_after)]
          simp [State.install, Ledger.restart, same]
      · rw [nonces, ledger]
        have values := Ledger.values_restart nodup_sources before.ledger (mem_sources source)
          ⟨knob.low, 0, knob.low_lt⟩ rfl
        exact inv.nonces.trans (values.symm.map _)
  | beginFrame source knob subheader found objects ledger nonces =>
      have lead_eq : (knob.count subheader).lead = lead :=
        (NetworkObj.count_lead _ _).trans (inv.lead_eq source knob found)
      have low_eq : (knob.count subheader).low = (before.ledger.current source).extend.last := by
        rw [NetworkObj.count_low, inv.low_eq source knob found, Window.last_extend]
      refine ⟨?_, ?_, ?_⟩
      · intro other object found_after
        rw [objects] at found_after
        by_cases same : other = source
        · subst same
          obtain rfl : knob.count subheader = object := by
            simpa [State.beginFrame, State.setObject] using found_after
          exact lead_eq
        · exact inv.lead_eq other object
            (by simpa [State.beginFrame, State.setObject, same] using found_after)
      · intro other object found_after
        rw [objects] at found_after
        rw [ledger]
        by_cases same : other = source
        · subst same
          obtain rfl : knob.count subheader = object := by
            simpa [State.beginFrame, State.setObject] using found_after
          simpa [State.beginFrame, Ledger.extend] using low_eq
        · rw [inv.low_eq other object
            (by simpa [State.beginFrame, State.setObject, same] using found_after)]
          simp [State.beginFrame, Ledger.extend, same]
      · rw [nonces, ledger]
        have values := (Ledger.values_extend nodup_sources before.ledger (mem_sources source)).map
          (nonceOf lead)
        rw [List.map_append, List.map_singleton, ← low_eq, ← lead_eq, nonceOf,
          ← NetworkObj.nonce_eq, lead_eq] at values
        exact (inv.nonces.append_right _).trans values.symm

/-- The nonces are different exactly when the numbers handed out by the windows are. -/
theorem Inv.nodup_iff {lead : Nat} (lead_fits : lead < 256 ^ 8) {state : State}
    (inv : Inv lead state) : state.nonces.Nodup ↔ (state.ledger.values sources).Nodup := by
  rw [inv.nonces.nodup_iff]
  refine ⟨List.Nodup.of_map _, fun nodup => nodup.map_on ?_⟩
  intro left left_mem right right_mem same
  obtain ⟨window, -, left_in⟩ := List.mem_flatMap.mp left_mem
  obtain ⟨other, -, right_in⟩ := List.mem_flatMap.mp right_mem
  exact nonceOf_inj lead_fits (Window.lt_of_mem_values left_in)
    (Window.lt_of_mem_values right_in) same

/-- A call keeps the nonces different exactly when the frame it begins, if any, fits. -/
theorem Inv.nodup_effect {lead : Nat} (lead_fits : lead < 256 ^ 8) {before after : State}
    {begun : Option Source} (inv : Inv lead before) (effect : Effect before after begun) :
    after.nonces.Nodup ↔ before.nonces.Nodup ∧
      ∀ source, begun = some source → before.ledger.Fits sources source := by
  have inv_after := inv.effect effect
  rw [inv_after.nodup_iff lead_fits, inv.nodup_iff lead_fits]
  cases effect with
  | keep objects ledger nonces => simp [ledger]
  | install source from_source knob earlier found lead_eq objects ledger nonces =>
      have values := Ledger.values_restart nodup_sources before.ledger (mem_sources source)
        ⟨knob.low, 0, knob.low_lt⟩ rfl
      rw [ledger, State.install, values.nodup_iff]
      simp
  | beginFrame source knob subheader found objects ledger nonces =>
      rw [ledger, State.beginFrame,
        Ledger.nodup_extend_iff nodup_sources before.ledger (mem_sources source)]
      simp

/-! ## Every run -/

/-- The frame that a call begins, if any, keeps the window of its counter within 2^32 numbers and
clear of all other windows of the connection. -/
def FrameFits (state : State) (label : Label) : Prop :=
  ∀ source, begins state label = some source → state.ledger.Fits sources source

/-- The objects of a reached state share salt and padding. -/
theorem inv_reached {state : State} (reached : machine.Reached state) :
    ∃ lead < 256 ^ 8, Inv lead state := by
  induction reached with
  | start initial =>
      obtain ⟨salt, block, rfl⟩ := initial
      exact ⟨salt.toNat, salt.isLt.trans (by decide), Inv.init salt block⟩
  | step _ _ taken ih =>
      obtain ⟨lead, fits, inv⟩ := ih
      exact ⟨lead, fits, inv.effect (effect_of_next taken)⟩

/-- The nonces given to the frames of a connection are all different exactly when every frame
fitted when it began. -/
theorem nonces_nodup_iff {state : State} (reached : machine.Reached state) :
    state.nonces.Nodup ↔ machine.ReachedUnder FrameFits state := by
  refine Machine.ReachedUnder.holds_iff (fun state => state.nonces.Nodup) ?_ ?_ reached
  · rintro state ⟨salt, block, rfl⟩
    exact List.nodup_nil
  · intro before label after earlier taken
    obtain ⟨lead, fits, inv⟩ := inv_reached earlier
    exact inv.nodup_effect fits (effect_of_next taken)

/-- A call whose writes all succeed, for a frame without payload. -/
def wholeFrame : Writes := ⟨8, 16, 16⟩

/-- The sender sends one block and the receiver reads its header. -/
def dataLabels : List Label :=
  [.networkSend .sender 0 ⟨true, fihdrShort⟩ ⟨8, 20, 0⟩,
    .networkSend .sender 0 ⟨false, fihdrShort⟩ ⟨0, 512, 16⟩,
    .networkRecv .receiver (isFihdrShort ||| 1)]

/-- The frame of one block fits. -/
theorem nonces_nodup_block : ∃ state,
    machine.run (State.init 0x5eed 262144) dataLabels = some state ∧
      state.nonces = [[0xed, 0x5e, 0, 0, 0, 0, 0, 0, 1, 0, 0, 0]] ∧
      (state.nonces.Nodup ↔ machine.ReachedUnder FrameFits state) :=
  ⟨_, rfl, by decide +kernel,
    nonces_nodup_iff (Machine.reached_of_run ⟨0x5eed, 262144, rfl⟩ dataLabels rfl)⟩

/-- Two metadata frames of the sender, with one of the receiver after the first has arrived. -/
def metaLabels : List Label :=
  [.doMeta, .metaEnter .sender 0 none, .metaSend .sender wholeFrame,
    .networkRecv .receiver 1, .metaEnter .receiver 0 none, .metaSend .receiver wholeFrame,
    .metaEnter .sender 0 none, .metaSend .sender wholeFrame]

/-- The receiver goes on from the counter it has received, and its frame gets the nonce of the
sender's next frame. -/
theorem not_nodup_of_reached : ¬∀ state, machine.Reached state → state.nonces.Nodup := by
  intro different
  have taken : ∃ state, machine.run (State.init 0x5eed 262144) metaLabels = some state ∧
      state.nonces = [[0xed, 0x5e, 0, 0, 0, 0, 0, 0, 1, 0, 0, 0],
        [0xed, 0x5e, 0, 0, 0, 0, 0, 0, 2, 0, 0, 0],
        [0xed, 0x5e, 0, 0, 0, 0, 0, 0, 2, 0, 0, 0]] := ⟨_, rfl, by decide +kernel⟩
  obtain ⟨state, run, nonces⟩ := taken
  have nodup := different state (Machine.reached_of_run ⟨0x5eed, 262144, rfl⟩ metaLabels run)
  rw [nonces] at nodup
  exact absurd nodup (by decide)

end Connection
end EScp
