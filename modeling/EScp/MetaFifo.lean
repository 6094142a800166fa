import EScp.MetaRingInvariant

/-!
# One producer and one consumer

A session has one metadata connection.  Its `network_recv` is the only producer of the ring, so the
buffer is installed before anything is published and the ring is a queue: the consumer receives the
authenticated frames in order and unchanged.
-/

namespace EScp
namespace MetaRing

open Layout LapRing

/-! ## The only connection -/

/-- Outside the branch the block size tells whether the buffer is installed; inside it is. -/
def State.BranchAgrees (state : State Unit) : Phase → Prop
  | .idle => True
  | .metaInit _ => state.block () ≠ Network.metaBlock
  | .metaZero _ => state.block () ≠ Network.metaBlock ∧ state.metabuf ≠ none
  | _ => state.block () = Network.metaBlock

/-- Nothing is published before the buffer is installed. -/
structure Fresh (state : State Unit) : Prop where
  untouched : state.block () ≠ Network.metaBlock → state.metahead = 0
  branch : state.BranchAgrees (state.phases ())

/-- The frame whose tag has been checked and which is not published yet. -/
def Phase.checked : Phase → List Frame
  | .publish frame _ _ => [frame.frame]
  | _ => []

/-- What is published or about to be is what has been authenticated. -/
def Accounted (state : State Unit) : Prop :=
  state.authenticated = state.published.map (·.frame) ++ (state.phases ()).checked

/-- Steps a frame has still to take inside the branch; a stale tail costs one more. -/
def Phase.rank : Phase → Nat
  | .idle => 0
  | .metaInit _ => 13
  | .metaZero _ => 12
  | .loadHead _ => 11
  | .loadTail _ _ => 10
  | .loadBuf _ _ _ => 9
  | .wrap _ _ _ _ => 8
  | .wait frame head tail _ => if blocked head tail frame.frame then 7 else 6
  | .copyHdr _ _ _ => 5
  | .readPayload _ _ _ => 4
  | .decrypt _ _ _ => 3
  | .checkTag _ _ _ => 2
  | .publish _ _ _ => 1

@[simp] theorem setPhase_phases (state : State Unit) (phase : Phase) :
    (state.setPhase () phase).phases () = phase := by
  simp [State.setPhase]

/-- A store changes the buffers only. -/
theorem commit_eq (state : State Unit) (store : Option (Nat × Write)) :
    ∃ buffers, state.commit store = { state with buffers := buffers } := by
  cases store with
  | none => exact ⟨state.buffers, rfl⟩
  | some store => exact ⟨_, rfl⟩

/-- Steps that keep the block size, the buffer and `metahead`. -/
theorem Fresh.keep {before after : State Unit} (fresh : Fresh before)
    (block_eq : after.block = before.block) (buf_eq : after.metabuf = before.metabuf)
    (head_eq : after.metahead = before.metahead)
    (branch : before.BranchAgrees (after.phases ())) : Fresh after where
  untouched := by
    rw [block_eq, head_eq]
    exact fresh.untouched
  branch := by
    unfold State.BranchAgrees at branch ⊢
    rw [block_eq, buf_eq]
    exact branch

theorem Fresh.setPhase {state : State Unit} (fresh : Fresh state) {phase : Phase}
    (branch : state.BranchAgrees phase) : Fresh (state.setPhase () phase) := by
  refine fresh.keep rfl rfl rfl ?_
  rw [setPhase_phases]
  exact branch

theorem Fresh.exit {state : State Unit} (fresh : Fresh state) : Fresh state.exit :=
  fresh.keep rfl rfl rfl fresh.branch

theorem Fresh.advance {before after : State Unit} (fresh : Fresh before)
    (taken : before.advance () = some after) : Fresh after := by
  have branch := fresh.branch
  cases at_phase : before.phases () with
  | idle => simp [State.advance, at_phase] at taken
  | metaInit frame =>
      rw [at_phase] at branch
      simp only [State.advance, at_phase, Option.some.injEq] at taken
      subst taken
      exact
        { untouched := fresh.untouched
          branch := by
            rw [show _ = Phase.metaZero frame from setPhase_phases before _]
            exact ⟨branch, Option.some_ne_none _⟩ }
  | metaZero frame =>
      rw [at_phase] at branch
      have present : before.metabuf.isNone = false :=
        Option.isNone_eq_false_iff.mpr (Option.isSome_iff_ne_none.mpr branch.2)
      simp only [State.advance, at_phase, present, Bool.false_eq_true, if_false,
        Option.some.injEq] at taken
      subst taken
      have marked : Function.update before.block () Network.metaBlock () = Network.metaBlock :=
        Function.update_self ..
      exact
        { untouched := fun other => (other marked).elim
          branch := by
            rw [show _ = Phase.loadHead frame from setPhase_phases before _]
            exact marked }
  | loadHead | loadTail | loadBuf | copyHdr | readPayload | decrypt =>
      rw [at_phase] at branch
      simp only [State.advance, at_phase, Option.some.injEq] at taken
      subst taken
      exact fresh.setPhase branch
  | wrap frame head tail buf =>
      rw [at_phase] at branch
      cases buf with
      | none =>
          simp only [State.advance, at_phase, Option.some.injEq] at taken
          subst taken
          exact fresh.exit
      | some buf =>
          simp only [State.advance, at_phase] at taken
          split_ifs at taken <;> obtain rfl := Option.some.inj taken
          · exact fresh.setPhase branch
          · exact fresh.setPhase branch
          · exact fresh.exit
  | wait frame head tail buf =>
      rw [at_phase] at branch
      simp only [State.advance, at_phase] at taken
      split_ifs at taken <;> obtain rfl := Option.some.inj taken
      · exact fresh.setPhase branch
      · exact fresh.setPhase branch
  | checkTag frame head buf =>
      rw [at_phase] at branch
      simp only [State.advance, at_phase] at taken
      split_ifs at taken <;> obtain rfl := Option.some.inj taken
      · have moved : Fresh (before.setPhase () (.publish frame head buf)) := fresh.setPhase branch
        exact moved.keep rfl rfl rfl moved.branch
      · exact fresh.exit
  | publish frame head buf =>
      rw [at_phase] at branch
      simp only [State.advance, at_phase, Option.some.injEq] at taken
      have block_eq : before.block () = Network.metaBlock := branch
      obtain ⟨index, index_eq⟩ : ∃ index, index = head + frame.frame.increment := ⟨_, rfl⟩
      rw [← index_eq] at taken
      subst taken
      exact
        { untouched := fun other => (other block_eq).elim
          branch := by
            have at_idle := setPhase_phases before .idle
            unfold State.BranchAgrees State.storeHead
            rw [at_idle]
            trivial }

theorem Accounted.advance {before after : State Unit} (accounted : Accounted before)
    (taken : before.advance () = some after) : Accounted after := by
  rw [Accounted] at accounted ⊢
  cases at_phase : before.phases () with
  | idle => simp [State.advance, at_phase] at taken
  | metaInit | loadHead | loadTail | loadBuf | copyHdr | readPayload | decrypt =>
      rw [at_phase] at accounted
      simp only [State.advance, at_phase, Option.some.injEq] at taken
      subst taken
      simpa [State.setPhase, Phase.checked] using accounted
  | metaZero | wait =>
      rw [at_phase] at accounted
      simp only [State.advance, at_phase] at taken
      split_ifs at taken <;> obtain rfl := Option.some.inj taken <;>
        simpa [State.setPhase, State.exit, at_phase, Phase.checked] using accounted
  | wrap frame head tail buf =>
      rw [at_phase] at accounted
      cases buf with
      | none =>
          simp only [State.advance, at_phase, Option.some.injEq] at taken
          subst taken
          simpa [State.exit, at_phase] using accounted
      | some buf =>
          simp only [State.advance, at_phase] at taken
          split_ifs at taken <;> obtain rfl := Option.some.inj taken <;>
            simpa [State.setPhase, State.exit, at_phase, Phase.checked] using accounted
  | checkTag frame head buf =>
      rw [at_phase] at accounted
      simp only [State.advance, at_phase] at taken
      split_ifs at taken <;> obtain rfl := Option.some.inj taken <;>
        simpa [State.setPhase, State.exit, at_phase, Phase.checked] using accounted
  | publish frame head buf =>
      rw [at_phase] at accounted
      simp only [State.advance, at_phase, Option.some.injEq] at taken
      subst taken
      simpa [State.setPhase, State.storeHead, Phase.checked] using accounted

/-- What every state of the only connection meets. -/
structure Inv (state : State Unit) : Prop where
  fresh : Fresh state
  accounted : Accounted state
  undisturbed : (machine Unit).ReachedUnder Undisturbed state

theorem Fresh.undisturbed {state : State Unit} (fresh : Fresh state)
    {pending : List (Record Frame)} (ring : Ring state pending) (label : Label Unit) :
    Undisturbed state label := by
  have alone : ∀ other, other ≠ () → (state.phases other).busy = false :=
    fun other ne => (ne rfl).elim
  have branch := fresh.branch
  have le := ring.holds.le
  cases label with
  | recv | consume => trivial
  | produce connection =>
      simp only [Undisturbed]
      cases at_phase : state.phases connection with
      | metaInit frame =>
          rw [at_phase] at branch
          have empty := fresh.untouched branch
          exact ⟨by omega, alone⟩
      | metaZero frame =>
          rw [at_phase] at branch
          have empty := fresh.untouched branch.1
          exact ⟨by omega, alone⟩
      | loadHead frame => exact alone
      | idle | loadTail | loadBuf | wrap | wait | copyHdr | readPayload | decrypt | checkTag
      | publish => trivial

theorem Inv.next {before after : State Unit} (inv : Inv before) {label : Label Unit}
    (taken : MetaRing.next before label = some after) : Inv after := by
  obtain ⟨pending, ring⟩ := ring_reached inv.undisturbed
  have undisturbed : (machine Unit).ReachedUnder Undisturbed after :=
    .step inv.undisturbed (inv.fresh.undisturbed ring label) taken
  have fresh := inv.fresh
  have accounted := inv.accounted
  unfold MetaRing.next at taken
  split at taken
  · cases taken
  · cases label with
    | recv connection frame =>
        dsimp only at taken
        split at taken
        · rename_i outside
          obtain rfl := Option.some.inj taken
          refine ⟨fresh.setPhase ?_, ?_, undisturbed⟩
          · split <;> assumption
          · rw [Accounted] at accounted ⊢
            rw [setPhase_phases, State.setPhase_published]
            rw [outside] at accounted
            split <;> exact accounted
        · cases taken
    | produce connection =>
        obtain ⟨middle, advanced, rfl⟩ := Option.map_eq_some_iff.mp taken
        have middle_fresh := fresh.advance advanced
        have middle_accounted := accounted.advance advanced
        obtain ⟨buffers, after_eq⟩ := commit_eq middle (before.stores connection)
        rw [after_eq] at undisturbed ⊢
        exact ⟨middle_fresh.keep rfl rfl rfl middle_fresh.branch, middle_accounted, undisturbed⟩
    | consume =>
        obtain rfl := Option.some.inj taken
        obtain ⟨phases_eq, head_eq, published_eq, authenticated_eq, block_eq, buf_eq⟩ :=
          before.consume_keeps
        refine ⟨fresh.keep block_eq buf_eq head_eq ?_, ?_, undisturbed⟩
        · rw [phases_eq]
          exact fresh.branch
        · rw [Accounted]
          rw [phases_eq, published_eq, authenticated_eq]
          exact accounted

theorem inv_reached {state : State Unit} (reached : (machine Unit).Reached state) :
    Inv state := by
  refine reached.invariant Inv ?_ fun _ _ _ inv _ taken => inv.next taken
  intro state initial
  refine ⟨?_, ?_, .start initial⟩ <;> obtain ⟨block, buffers, rfl⟩ := initial
  · exact ⟨fun _ => rfl, trivial⟩
  · rfl

/-! ## Stores -/

/-- A store goes to the current buffer, stays inside it and touches no slot between `metatail` and
`metahead`. -/
structure SafeStore (state : State Unit) (buf : Nat) (write : Write) : Prop where
  current : state.metabuf = some buf
  inside : write.offset + write.size ≤ metabufSz
  apart : ∀ index, state.metatail ≤ index → index < state.metahead → ∀ address,
    write.Covers address → address / 64 ≠ index % metaSlots

/-- A store inside the free slots of a frame. -/
theorem SafeStore.ofFrame {state : State Unit} {frame : Frame} {head buf : Nat}
    (places : state.Places frame head buf) (room : state.Room frame head) {offset : Nat}
    {bytes : List UInt8} (low : head % metaSlots * 64 ≤ offset)
    (high : offset + bytes.length ≤ head % metaSlots * 64 + (16 + frame.payload.length)) :
    SafeStore state buf (Write.ofBytes offset bytes) where
  current := places.buf_eq
  inside := by
    have fits : head % metaSlots + frame.increment < metaSlots := places.fits
    have length_le := frame.length_le
    have size : metabufSz = metaSlots * 64 := by decide
    rw [Write.ofBytes_offset, Write.ofBytes_size]
    omega
  apart := by
    intro index tail_le head_gt address covers
    have fits : head % metaSlots + frame.increment < metaSlots := places.fits
    have length_le := frame.length_le
    have head_le := places.head_le
    obtain ⟨from_offset, below⟩ := covers
    rw [Write.ofBytes_offset] at from_offset below
    rw [Write.ofBytes_size] at below
    obtain ⟨slot, slot_eq⟩ : ∃ slot, address / 64 = head % metaSlots + slot :=
      Nat.exists_eq_add_of_le (by omega)
    have index_eq : (head + slot) % metaSlots = head % metaSlots + slot :=
      @Format.add_mod_of_fits _ _ ringFormat head slot (by rw [ringFormat_slots]; omega)
    rw [State.Room] at room
    rw [slot_eq, ← index_eq]
    exact @mod_ne_of_window metaSlots state.metatail _ _ (by omega) (by omega) tail_le
      (by omega) (by omega)

theorem Ring.safeStore {state : State Unit} {pending : List (Record Frame)}
    (ring : Ring state pending) (fresh : Fresh state) {buf : Nat} {write : Write}
    (stored : state.stores () = some (buf, write)) : SafeStore state buf write := by
  have agrees := ring.phases ()
  have branch := fresh.branch
  have tail_le := ring.holds.le
  have size : metabufSz = metaSlots * 64 := by decide
  rw [State.stores] at stored
  cases at_phase : state.phases () with
  | idle | metaInit | loadHead | loadTail | loadBuf | wait | checkTag | publish =>
      rw [at_phase] at stored
      cases stored
  | metaZero frame =>
      simp only [at_phase, Option.map_eq_some_iff, Prod.mk.injEq] at stored
      obtain ⟨_, current, rfl, rfl⟩ := stored
      rw [at_phase] at branch
      have empty := fresh.untouched branch.1
      exact ⟨current, by simp, fun index low high => by omega⟩
  | wrap frame head tail buf =>
      cases buf with
      | none => simp [at_phase] at stored
      | some buf =>
          simp only [at_phase] at stored agrees
          split_ifs at stored with crossing
          obtain ⟨rfl, rfl⟩ := Prod.mk.inj (Option.some.inj stored)
          obtain ⟨rfl, -, current⟩ := agrees
          have in_ring := Nat.mod_lt state.metahead (show 0 < metaSlots by decide)
          refine ⟨current.symm, ?_, ?_⟩
          · rw [Write.ofBytes_offset, Write.ofBytes_size, List.length_replicate]
            omega
          · intro index low high address covers
            obtain ⟨from_offset, below⟩ := covers
            rw [Write.ofBytes_offset] at from_offset below
            rw [Write.ofBytes_size, List.length_replicate] at below
            have span := ring.span
            rw [show address / 64 = state.metahead % metaSlots by omega]
            exact @mod_ne_of_window metaSlots state.metatail _ _ (by omega) (by omega) low
              (by omega) (by omega)
  | copyHdr frame head buf =>
      simp only [at_phase] at stored agrees
      obtain ⟨rfl, rfl⟩ := Prod.mk.inj (Option.some.inj stored)
      have hdr_length := frame.frame.hdr_length
      exact .ofFrame agrees.1 agrees.2 le_rfl (by omega)
  | readPayload frame head buf =>
      simp only [at_phase] at stored agrees
      obtain ⟨rfl, rfl⟩ := Prod.mk.inj (Option.some.inj stored)
      exact .ofFrame agrees.1 agrees.2.1 (by omega) (by rw [frame.cipher_length]; omega)
  | decrypt frame head buf =>
      simp only [at_phase] at stored agrees
      obtain ⟨rfl, rfl⟩ := Prod.mk.inj (Option.some.inj stored)
      exact .ofFrame agrees.1 agrees.2.1 (by omega) (by omega)

/-! ## The producer comes to an end -/

/-- The next check fails and ends the session: there is no buffer, or the tag is wrong. -/
def Phase.Refused : Phase → Prop
  | .wrap _ _ _ none => True
  | .checkTag frame _ _ => frame.authentic = false
  | _ => False

/-- A step that brings the frame closer to the ring. -/
structure Progress (before after : State Unit) : Prop where
  runs : after.exited = false
  nearer : (after.phases ()).rank < (before.phases ()).rank
  more : before.authenticated <+: after.authenticated

theorem Progress.setPhase {state : State Unit} (running : state.exited = false) {phase : Phase}
    (nearer : phase.rank < (state.phases ()).rank) :
    Progress state (state.setPhase () phase) where
  runs := running
  nearer := by rwa [setPhase_phases]
  more := List.prefix_rfl

theorem advance_isSome {state : State Unit} (inside : state.phases () ≠ .idle) :
    ∃ after, state.advance () = some after := by
  rw [State.advance]
  split
  case h_1 at_phase => exact (inside at_phase).elim
  all_goals first | exact ⟨_, rfl⟩ | (split <;> first | exact ⟨_, rfl⟩ | (split <;> exact ⟨_, rfl⟩))

/-- On a drained ring a frame that is not refused comes closer to the ring. -/
theorem Ring.progress {state after : State Unit} (ring : Ring state []) (fresh : Fresh state)
    (running : state.exited = false)
    (good : ¬(state.phases ()).Refused) (taken : state.advance () = some after) :
    Progress state after := by
  have agrees := ring.phases ()
  have branch := fresh.branch
  cases at_phase : state.phases () with
  | idle => simp [State.advance, at_phase] at taken
  | metaInit frame =>
      simp only [State.advance, at_phase, Option.some.injEq] at taken
      subst taken
      have moved : Progress state (state.setPhase () (.metaZero frame)) :=
        .setPhase running (by simp [at_phase, Phase.rank])
      exact ⟨moved.runs, moved.nearer, moved.more⟩
  | metaZero frame =>
      rw [at_phase] at branch
      have present : state.metabuf.isNone = false :=
        Option.isNone_eq_false_iff.mpr (Option.isSome_iff_ne_none.mpr branch.2)
      simp only [State.advance, at_phase, present, Bool.false_eq_true, if_false,
        Option.some.injEq] at taken
      subst taken
      have moved : Progress state (state.setPhase () (.loadHead frame)) :=
        .setPhase running (by simp [at_phase, Phase.rank])
      exact ⟨moved.runs, moved.nearer, moved.more⟩
  | loadHead | loadTail | loadBuf | copyHdr | readPayload | decrypt =>
      simp only [State.advance, at_phase, Option.some.injEq] at taken
      subst taken
      exact .setPhase running (by simp [at_phase, Phase.rank])
  | wrap frame head tail buf =>
      rw [at_phase] at good
      cases buf with
      | none => exact (good trivial).elim
      | some buf =>
          have small : frame.frame.sz < metabufSz / 2 :=
            frame.frame.sz_le.trans_lt (by decide)
          have nearer (next : Nat) : (Phase.wait frame next tail buf).rank <
              (state.phases ()).rank := by
            simp only [at_phase, Phase.rank]
            split <;> omega
          simp only [State.advance, at_phase, small, not_true_eq_false, if_false] at taken
          split at taken <;> obtain rfl := Option.some.inj taken
          · exact .setPhase running (nearer _)
          · exact .setPhase running (nearer _)
  | wait frame head tail buf =>
      rw [at_phase] at agrees
      have free : ¬blocked head state.metatail frame.frame = true := by
        have drained : state.metatail = state.metahead := ring.holds
        have enough := @Format.not_blocked_of_drained _ _ ringFormat state.metahead frame.frame
          frame.frame.increment_small
        rw [blocked_iff, drained]
        rcases agrees.1.head_eq with same | ⟨lap, crossing, -⟩
        · have fits := agrees.1.fits
          rw [same] at fits ⊢
          exact enough.1 fits
        · rw [lap]
          exact enough.2 crossing
      simp only [State.advance, at_phase] at taken
      split at taken <;> obtain rfl := Option.some.inj taken
      · rename_i stale
        refine .setPhase running ?_
        simp [at_phase, Phase.rank, stale, free]
      · rename_i fits
        refine .setPhase running ?_
        simp [at_phase, Phase.rank, fits]
  | checkTag frame head buf =>
      rw [at_phase] at good
      have authentic : frame.authentic = true := by simpa [Phase.Refused] using good
      simp only [State.advance, at_phase, authentic, if_true, Option.some.injEq] at taken
      subst taken
      have moved : Progress state (state.setPhase () (.publish frame head buf)) :=
        .setPhase running (by simp [at_phase, Phase.rank])
      exact ⟨moved.runs, moved.nearer, List.prefix_append _ _⟩
  | publish frame head buf =>
      obtain ⟨index, index_eq⟩ : ∃ index, index = head + frame.frame.increment := ⟨_, rfl⟩
      simp only [State.advance, at_phase, ← index_eq, Option.some.injEq] at taken
      subst taken
      have moved : Progress state (state.setPhase () .idle) :=
        .setPhase running (by simp [at_phase, Phase.rank])
      exact ⟨moved.runs, moved.nearer, moved.more⟩

/-- Everything but the arrival of a new frame. -/
def Label.Goes : Label Unit → Prop
  | .recv _ _ => False
  | _ => True

/-- Producer and consumer together bring the frame to the consumer, unless it is refused. -/
theorem Inv.delivers {state : State Unit} (inv : Inv state) (running : state.exited = false) :
    ∃ after, (machine Unit).PathBy Label.Goes state after ∧ after.exited = false ∧
      after.received = after.authenticated.map Frame.message ∧
      state.authenticated <+: after.authenticated ∧
      (after.phases () = .idle ∨ (after.phases ()).Refused) := by
  induction rank_eq : (state.phases ()).rank using Nat.strong_induction_on
    generalizing state with
  | _ rank ih =>
      obtain ⟨pending, ring⟩ := ring_reached inv.undisturbed
      obtain ⟨drained, consumed, empty, drained_runs, phases_eq, published_eq, authenticated_eq⟩ :=
        ring.drain running
      have drained_inv : Inv drained :=
        inv_reached (consumed.reached inv.undisturbed.reached)
      have path : (machine Unit).PathBy Label.Goes state drained :=
        consumed.mono fun label is_consume => by rw [is_consume]; trivial
      by_cases ends : drained.phases () = .idle ∨ (drained.phases ()).Refused
      · have unchecked : (drained.phases ()).checked = [] := by
          rcases ends with outside | refused
          · rw [outside]
            rfl
          · cases at_phase : drained.phases () <;> rw [at_phase] at refused <;>
              first | rfl | cases refused
        refine ⟨drained, path, drained_runs, ?_, ?_, ends⟩
        · rw [empty.received_of_drained, drained_inv.accounted, unchecked, List.append_nil,
            List.map_map]
          rfl
        · rw [authenticated_eq]
      · obtain ⟨inside, good⟩ := not_or.mp ends
        obtain ⟨middle, advanced⟩ := advance_isSome inside
        have moved := empty.progress drained_inv.fresh drained_runs good advanced
        obtain ⟨buffers, stored⟩ := commit_eq middle (drained.stores ())
        have taken : MetaRing.next drained (.produce ()) =
            some { middle with buffers := buffers } := by
          simp [MetaRing.next, drained_runs, advanced, stored]
        have nearer : (middle.phases ()).rank < rank := by
          rw [← rank_eq, ← phases_eq]
          exact moved.nearer
        obtain ⟨after, onward, after_runs, received_eq, more, last⟩ :=
          @ih _ nearer { middle with buffers := buffers } (drained_inv.next taken) moved.runs rfl
        refine ⟨after, path.trans (.head ⟨.produce (), trivial, taken⟩ onward), after_runs,
          received_eq, ?_, last⟩
        rw [← authenticated_eq]
        exact moved.more.trans more

/-! ## The queue -/

/-- The ring is a queue of the authenticated frames. -/
structure Faithful (state : State Unit) : Prop where
  /-- Nothing but the authenticated frames is received, each once, in order and unchanged. -/
  in_order : state.received <+: state.authenticated.map Frame.message
  /-- From every state on, everything authenticated is received. -/
  delivers : state.exited = false → ∃ after, (machine Unit).PathBy Label.Goes state after ∧
    after.exited = false ∧ after.received = after.authenticated.map Frame.message ∧
      state.authenticated <+: after.authenticated ∧
      (after.phases () = .idle ∨ (after.phases ()).Refused)
  tail_le : state.metatail ≤ state.metahead
  span : state.metahead < state.metatail + metaSlots
  stores : ∀ buf write, state.stores () = some (buf, write) → SafeStore state buf write
  /-- The word that `meta_recv` tests is a marker exactly when the producer left one there. -/
  marker : ∀ tail, state.consumer = .loadWord tail → ∃ record : Record Frame,
    state.published[state.received.length]? = some record ∧
      (load state.memory (tail % metaSlots * 64) 4 = wrapMarker ↔ record.wrapped = true)

/-- What is received has been authenticated before, in this order. -/
theorem received_prefix_of_reached {state : State Unit} (reached : (machine Unit).Reached state) :
    state.received <+: state.authenticated.map Frame.message := by
  have inv := inv_reached reached
  obtain ⟨pending, ring⟩ := ring_reached inv.undisturbed
  rw [inv.accounted, List.map_append, List.map_map]
  exact ring.received_prefix.trans (List.prefix_append _ _)

/-- With one producer and one consumer the metadata ring is a faithful queue. -/
theorem faithful_of_reached {state : State Unit} (reached : (machine Unit).Reached state) :
    Faithful state := by
  have inv := inv_reached reached
  obtain ⟨pending, ring⟩ := ring_reached inv.undisturbed
  refine ⟨?_, inv.delivers, ring.holds.le, ring.span, fun _ _ => ring.safeStore inv.fresh, ?_⟩
  · rw [inv.accounted, List.map_append, List.map_map]
    exact ring.received_prefix.trans (List.prefix_append _ _)
  · intro tail at_word
    have agrees := ring.consumer
    rw [State.ConsumerAgrees] at agrees
    rw [at_word] at agrees
    obtain ⟨⟨done, split, read⟩, rfl, nonempty⟩ := agrees
    obtain ⟨record, rest, rfl⟩ := List.exists_cons_of_ne_nil nonempty
    refine ⟨record, ?_, ring.marker_iff⟩
    rw [split, read, messages, List.length_map]
    simp

/-- A frame with three payload bytes. -/
def logFrame : Incoming where
  frame := ⟨[0, 0, 0, 3, 0, 5, 0, 0, 0, 0, 0, 0, 0, 0, 0, 0], [7, 8, 9], rfl, by decide, by decide⟩
  cipher := [70, 80, 90]
  cipher_length := rfl
  authentic := true

/-- The frame passes through the ring while the consumer polls. -/
theorem faithful_after_frame : ∃ state,
    (machine Unit).run (State.init (fun _ => 0) fun _ _ => 0)
        (.recv () logFrame :: (List.replicate 12 (.produce ()) ++ List.replicate 7 .consume)) =
      some state ∧
    state.received = [logFrame.frame.message] ∧ Faithful state :=
  ⟨_, rfl, rfl, faithful_of_reached (Machine.reached_of_run ⟨fun _ => 0, fun _ _ => 0, rfl⟩
    (.recv () logFrame :: (List.replicate 12 (.produce ()) ++ List.replicate 7 .consume)) rfl)⟩

end MetaRing
end EScp
