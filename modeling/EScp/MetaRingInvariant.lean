import EScp.MetaRing

/-!
# The invariant of the metadata ring

While no two connections fill the ring at once and buffers are exchanged only on a drained ring,
the ring holds the published messages that are not completed yet, and the consumer gets all of
them in order.
-/

namespace EScp
namespace MetaRing

open Layout LapRing

/-! ## Frames in memory -/

theorem load_shift (memory : Memory) (offset size : Nat) :
    load memory offset size = load (fun index => memory (offset + index)) 0 size := by
  induction size generalizing memory offset with
  | zero => rfl
  | succ size ih =>
      rw [load, load, ih memory, ih (fun index => memory (offset + index)) (0 + 1)]
      simp [Nat.add_assoc]

theorem load_eq_firstWord {memory : Memory} {offset : Nat} {hdr : List UInt8}
    (stored : bytesAt memory offset 16 = hdr) : load memory offset 4 = firstWord hdr := by
  rw [load_shift, firstWord]
  apply load_congr
  intro address _ low
  subst stored
  simp [bytesAt, show address < 16 by omega]

/-- A header is never taken for a marker. -/
theorem Frame.firstWord_ne (frame : Frame) : firstWord frame.hdr ≠ wrapMarker := by
  intro marker
  have sz_eq := frame.sz_eq
  have short := frame.short
  rw [marker, show ntohl wrapMarker = 2 ^ 32 - 1 by decide] at sz_eq
  omega

theorem Frame.sz_le (frame : Frame) : frame.sz ≤ 1024 * 1024 :=
  frame.sz_eq.trans_le frame.short

/-- The slots of a frame hold its header and its payload. -/
theorem Frame.length_le (frame : Frame) : 16 + frame.payload.length ≤ frame.increment * 64 := by
  have sz_eq : frame.sz = frame.payload.length := frame.sz_eq
  rw [Frame.increment, MetaRing.increment]
  omega

/-- A frame takes less than half of the ring. -/
theorem Frame.increment_small (frame : Frame) : 2 * frame.increment < metaSlots := by
  have short := frame.sz_le
  rw [show metaSlots = 65536 by rfl]
  rw [Frame.increment, MetaRing.increment]
  omega

/-- Messages in the ring: a marker is a word of ones, a frame is its header and its payload. -/
def ringFormat : Format Memory Frame where
  slots := metaSlots
  slots_pos := by decide
  span := Frame.increment
  span_pos frame := by
    rw [Frame.increment, MetaRing.increment]
    omega
  Same before after slot := ∀ address, address / 64 = slot → after address = before address
  Marked memory slot := load memory (slot * 64) 4 = wrapMarker
  marked_congr := by
    intro before after slot same marked
    rw [← marked]
    exact load_congr fun address low high => same address (by omega)
  Shows memory slot frame :=
    bytesAt memory (slot * 64) (16 + frame.payload.length) = frame.hdr ++ frame.payload
  shows_congr := by
    intro before after start frame same shows
    have length_le := frame.length_le
    rw [← shows]
    exact bytesAt_congr fun address low high => same (address / 64) (by omega) (by omega) _ rfl

@[simp] theorem ringFormat_slots : ringFormat.slots = metaSlots := rfl

@[simp] theorem ringFormat_span (frame : Frame) : ringFormat.span frame = frame.increment := rfl

theorem blocked_iff (head tail : Nat) (frame : Frame) :
    blocked head tail frame = true ↔ ringFormat.Blocked head tail frame := by
  simp [blocked, Format.Blocked]

theorem crosses_iff (head : Nat) (frame : Frame) :
    crosses head frame = true ↔ ¬ringFormat.Fits head frame := by
  have size : metabufSz = metaSlots * 64 := by decide
  simp only [crosses, Format.Fits, ringFormat_slots, ringFormat_span, decide_eq_true_eq, size]
  omega

theorem nextLap_eq (index : Nat) : ringFormat.nextLap index = nextLap index := rfl

theorem lt_nextLap (index : Nat) : index < nextLap index := by
  rw [← nextLap_eq]
  exact Format.lt_nextLap index

theorem shows_iff {memory : Memory} {slot : Nat} {frame : Frame} :
    ringFormat.Shows memory slot frame ↔
      bytesAt memory (slot * 64) 16 = frame.hdr ∧
        bytesAt memory (slot * 64 + 16) frame.payload.length = frame.payload := by
  change bytesAt memory (slot * 64) (16 + frame.payload.length) = _ ↔ _
  rw [bytesAt_append]
  constructor
  · intro shows
    exact List.append_inj shows (by rw [length_bytesAt, frame.hdr_length])
  · rintro ⟨hdr, payload⟩
    rw [hdr, payload]

/-- A store inside the slots of a frame touches no other slot. -/
theorem same_of_store {memory : Memory} {write : Write} {head : Nat} {frame : Frame}
    (fits : ringFormat.Fits head frame) (low : head % metaSlots * 64 ≤ write.offset)
    (high : write.offset + write.size ≤ (head % metaSlots + frame.increment) * 64) (slot : Nat)
    (other : ∀ index, head ≤ index → index < head + frame.increment → index % metaSlots ≠ slot) :
    ringFormat.Same memory (write.apply memory) slot := by
  intro address in_slot
  apply Write.apply_of_not_covers
  rintro ⟨from_offset, below⟩
  have fits' : head % metaSlots + frame.increment < metaSlots := fits
  obtain ⟨offset, slot_eq⟩ : ∃ offset, slot = head % metaSlots + offset :=
    Nat.exists_eq_add_of_le (by omega)
  refine other (head + offset) (by omega) (by omega) ?_
  have inside : head % ringFormat.slots + offset < ringFormat.slots := by
    rw [ringFormat_slots]
    omega
  rw [slot_eq]
  exact Format.add_mod_of_fits inside

theorem bytesAt_before {memory : Memory} {offset size start : Nat} {bytes : List UInt8}
    (before : offset + size ≤ start) :
    bytesAt ((Write.ofBytes start bytes).apply memory) offset size = bytesAt memory offset size :=
  bytesAt_congr fun _ _ high => Write.apply_of_not_covers fun covers => by
    have low := covers.1
    rw [Write.ofBytes_offset] at low
    omega

/-- The word left by a marker. -/
theorem load_marker (memory : Memory) (offset : Nat) :
    load ((Write.ofBytes offset (List.replicate 4 0xff)).apply memory) offset 4 = wrapMarker := by
  have byte (index : Nat) (low : index < 4) :
      (Write.ofBytes offset (List.replicate 4 0xff)).apply memory (offset + index) = 0xff := by
    simp only [Write.apply, Write.Covers, Write.ofBytes, List.length_replicate]
    rw [if_pos (by omega), Nat.add_sub_cancel_left, List.getD_eq_getElem?_getD,
      List.getElem?_replicate, if_pos low, Option.getD_some]
  rw [load_shift]
  calc load (fun index => (Write.ofBytes offset (List.replicate 4 0xff)).apply memory
        (offset + index)) 0 4
      = load (fun _ => 0xff) 0 4 := load_congr fun index _ low => byte index (by omega)
    _ = wrapMarker := by decide

/-! ## The invariant -/

variable {Connection : Type*}

/-- The connection has loaded `metahead` and has not published yet. -/
def Phase.busy : Phase → Bool
  | .idle | .metaInit _ | .metaZero _ | .loadHead _ => false
  | _ => true

/-- A new buffer is installed and cleared on a drained ring only, and a connection loads
`metahead` only when no other one is about to publish. -/
def Undisturbed (state : State Connection) : Label Connection → Prop
  | .produce connection =>
      match state.phases connection with
      | .metaInit _ | .metaZero _ =>
          state.metahead = state.metatail ∧
            ∀ other, other ≠ connection → (state.phases other).busy = false
      | .loadHead _ => ∀ other, other ≠ connection → (state.phases other).busy = false
      | _ => True
  | _ => True

/-- The frame has its place in the current buffer, after a marker if it begins a lap. -/
structure State.Places (state : State Connection) (frame : Frame) (head buf : Nat) : Prop where
  buf_eq : state.metabuf = some buf
  fits : ringFormat.Fits head frame
  head_eq : head = state.metahead ∨
    (head = nextLap state.metahead ∧ ¬ringFormat.Fits state.metahead frame ∧
      ringFormat.Marked state.memory (state.metahead % metaSlots))

/-- The slots of the frame are free. -/
def State.Room (state : State Connection) (frame : Frame) (head : Nat) : Prop :=
  head + frame.increment < state.metatail + metaSlots

/-- What a connection knows at each point of the branch. -/
def State.PhaseAgrees (state : State Connection) : Phase → Prop
  | .idle | .metaInit _ | .metaZero _ | .loadHead _ => True
  | .loadTail _ head => head = state.metahead
  | .loadBuf _ head tail => head = state.metahead ∧ tail ≤ state.metatail
  | .wrap _ head tail buf =>
      head = state.metahead ∧ tail ≤ state.metatail ∧ buf = state.metabuf
  | .wait frame head tail buf => state.Places frame.frame head buf ∧ tail ≤ state.metatail
  | .copyHdr frame head buf => state.Places frame.frame head buf ∧ state.Room frame.frame head
  | .readPayload frame head buf | .decrypt frame head buf =>
      state.Places frame.frame head buf ∧ state.Room frame.frame head ∧
        bytesAt state.memory (head % metaSlots * 64) 16 = frame.frame.hdr
  | .checkTag frame head buf | .publish frame head buf =>
      state.Places frame.frame head buf ∧ state.Room frame.frame head ∧
        ringFormat.Shows state.memory (head % metaSlots) frame.frame

/-- The records are the published ones that have not been read. -/
def State.Unread (state : State Connection) (pending : List (Record Frame)) : Prop :=
  ∃ done, state.published = done ++ pending ∧ state.received = messages done

/-- What the consumer knows at each point. -/
def State.ConsumerAgrees (state : State Connection) (pending : List (Record Frame)) : Prop :=
  match state.consumer with
  | .idle => state.Unread pending
  | .loadTail head => state.Unread pending ∧ head ≤ state.metahead
  | .loadWord tail => state.Unread pending ∧ tail = state.metatail ∧ pending ≠ []
  | .storeTail tail => state.Unread pending ∧
      ∃ frame rest, pending = ⟨true, frame⟩ :: rest ∧ tail = nextLap state.metatail
  | .point t => ∃ wrapped frame rest, pending = ⟨false, frame⟩ :: rest ∧
      state.Unread (⟨wrapped, frame⟩ :: rest) ∧ t = state.metatail % metaSlots
  | .holding buf offset => ∃ wrapped frame rest, pending = ⟨false, frame⟩ :: rest ∧
      state.Unread (⟨wrapped, frame⟩ :: rest) ∧ state.metabuf = some buf ∧
        offset = state.metatail % metaSlots * 64
  | .complete => ∃ frame rest, pending = ⟨false, frame⟩ :: rest ∧ state.Unread rest
  | .storeComplete tail => ∃ frame rest, pending = ⟨false, frame⟩ :: rest ∧
      state.Unread rest ∧ tail = state.metatail + frame.increment

/-- The ring holds the messages published and not completed. -/
structure Ring (state : State Connection) (pending : List (Record Frame)) : Prop where
  span : state.metahead < state.metatail + metaSlots
  holds : ringFormat.Holds state.memory state.metatail pending state.metahead
  absent : state.metabuf = none → pending = []
  lone : ∀ one other, (state.phases one).busy = true → (state.phases other).busy = true →
    one = other
  phases : ∀ connection, state.PhaseAgrees (state.phases connection)
  consumer : state.ConsumerAgrees pending

namespace State

/-- A store into the current buffer changes the memory as written. -/
theorem commit_memory {state : State Connection} {buf : Nat} (current : state.metabuf = some buf)
    (write : Write) : (state.commit (some (buf, write))).memory = write.apply state.memory := by
  simp [memory, commit, current]

theorem PhaseAgrees.of_not_busy {phase : Phase} (state : State Connection)
    (outside : phase.busy = false) : state.PhaseAgrees phase := by
  cases phase with
  | idle | metaInit | metaZero | loadHead => trivial
  | loadTail | loadBuf | wrap | wait | copyHdr | readPayload | decrypt | checkTag | publish =>
      cases outside

theorem Places.mono {before after : State Connection} {frame : Frame} {head buf : Nat}
    (places : before.Places frame head buf) (head_eq : after.metahead = before.metahead)
    (buf_eq : after.metabuf = before.metabuf) (memory_eq : after.memory = before.memory) :
    after.Places frame head buf where
  buf_eq := buf_eq.trans places.buf_eq
  fits := places.fits
  head_eq := by
    rw [head_eq, memory_eq]
    exact places.head_eq

theorem Places.head_le {state : State Connection} {frame : Frame} {head buf : Nat}
    (places : state.Places frame head buf) : state.metahead ≤ head := by
  rcases places.head_eq with same | ⟨lap, -⟩
  · exact same.ge
  · rw [lap]
    exact (lt_nextLap _).le

/-- What a connection knows survives progress of the tail. -/
theorem PhaseAgrees.mono {before after : State Connection} {phase : Phase}
    (agrees : before.PhaseAgrees phase) (head_eq : after.metahead = before.metahead)
    (tail_le : before.metatail ≤ after.metatail) (buf_eq : after.metabuf = before.metabuf)
    (memory_eq : after.memory = before.memory) : after.PhaseAgrees phase := by
  have room {frame : Frame} {head : Nat} (free : before.Room frame head) :
      after.Room frame head := by
    rw [Room] at free ⊢
    omega
  cases phase with
  | idle | metaInit | metaZero | loadHead => trivial
  | loadTail frame head => exact Eq.trans agrees head_eq.symm
  | loadBuf frame head tail => exact ⟨agrees.1.trans head_eq.symm, agrees.2.trans tail_le⟩
  | wrap frame head tail buf =>
      exact ⟨agrees.1.trans head_eq.symm, agrees.2.1.trans tail_le,
        agrees.2.2.trans buf_eq.symm⟩
  | wait frame head tail buf =>
      exact ⟨agrees.1.mono head_eq buf_eq memory_eq, agrees.2.trans tail_le⟩
  | copyHdr frame head buf =>
      exact ⟨agrees.1.mono head_eq buf_eq memory_eq, room agrees.2⟩
  | readPayload frame head buf | decrypt frame head buf =>
      exact ⟨agrees.1.mono head_eq buf_eq memory_eq, room agrees.2.1, memory_eq ▸ agrees.2.2⟩
  | checkTag frame head buf | publish frame head buf =>
      exact ⟨agrees.1.mono head_eq buf_eq memory_eq, room agrees.2.1, memory_eq ▸ agrees.2.2⟩

theorem Unread.publish {before after : State Connection} {pending extra : List (Record Frame)}
    (unread : before.Unread pending) (received_eq : after.received = before.received)
    (published_eq : after.published = before.published ++ extra) :
    after.Unread (pending ++ extra) := by
  obtain ⟨done, split, read⟩ := unread
  exact ⟨done, by rw [published_eq, split, List.append_assoc], received_eq.trans read⟩

/-- The consumer's knowledge survives the steps of the connections. -/
theorem ConsumerAgrees.publish {before after : State Connection} {pending : List (Record Frame)}
    (agrees : before.ConsumerAgrees pending) (extra : List (Record Frame))
    (consumer_eq : after.consumer = before.consumer)
    (tail_eq : after.metatail = before.metatail) (head_le : before.metahead ≤ after.metahead)
    (buf_eq : pending ≠ [] → after.metabuf = before.metabuf)
    (received_eq : after.received = before.received)
    (published_eq : after.published = before.published ++ extra) :
    after.ConsumerAgrees (pending ++ extra) := by
  rw [ConsumerAgrees] at agrees ⊢
  rw [consumer_eq]
  have unread {records : List (Record Frame)} (earlier : before.Unread records) :
      after.Unread (records ++ extra) := earlier.publish received_eq published_eq
  cases at_consumer : before.consumer with
  | idle =>
      rw [at_consumer] at agrees
      exact unread agrees
  | loadTail head =>
      rw [at_consumer] at agrees
      exact ⟨unread agrees.1, agrees.2.trans head_le⟩
  | loadWord tail =>
      rw [at_consumer] at agrees
      obtain ⟨accounted, tail_is, nonempty⟩ := agrees
      exact ⟨unread accounted, by rw [tail_eq]; exact tail_is, by simp [nonempty]⟩
  | storeTail tail =>
      rw [at_consumer] at agrees
      obtain ⟨accounted, frame, rest, rfl, tail_is⟩ := agrees
      exact ⟨unread accounted, frame, rest ++ extra, rfl, by rw [tail_eq]; exact tail_is⟩
  | point t =>
      rw [at_consumer] at agrees
      obtain ⟨wrapped, frame, rest, rfl, accounted, slot_is⟩ := agrees
      exact ⟨wrapped, frame, rest ++ extra, rfl, unread accounted, by rw [tail_eq]; exact slot_is⟩
  | holding buf offset =>
      rw [at_consumer] at agrees
      obtain ⟨wrapped, frame, rest, rfl, accounted, current, offset_is⟩ := agrees
      exact ⟨wrapped, frame, rest ++ extra, rfl, unread accounted,
        (buf_eq (by simp)).trans current, by rw [tail_eq]; exact offset_is⟩
  | complete =>
      rw [at_consumer] at agrees
      obtain ⟨frame, rest, rfl, accounted⟩ := agrees
      exact ⟨frame, rest ++ extra, rfl, unread accounted⟩
  | storeComplete tail =>
      rw [at_consumer] at agrees
      obtain ⟨frame, rest, rfl, accounted, tail_is⟩ := agrees
      exact ⟨frame, rest ++ extra, rfl, unread accounted, by rw [tail_eq]; exact tail_is⟩

/-- The consumer's knowledge does not depend on what the connections keep. -/
theorem ConsumerAgrees.keep {before after : State Connection} {pending : List (Record Frame)}
    (agrees : before.ConsumerAgrees pending) (consumer_eq : after.consumer = before.consumer)
    (tail_eq : after.metatail = before.metatail) (head_eq : after.metahead = before.metahead)
    (buf_eq : pending ≠ [] → after.metabuf = before.metabuf)
    (received_eq : after.received = before.received)
    (published_eq : after.published = before.published) : after.ConsumerAgrees pending := by
  have kept := agrees.publish [] consumer_eq tail_eq head_eq.ge buf_eq received_eq
    (by simpa using published_eq)
  rwa [List.append_nil] at kept

end State

variable {state : State Connection} {pending : List (Record Frame)} {connection : Connection}

theorem Ring.alone (ring : Ring state pending) (busy : (state.phases connection).busy = true) :
    ∀ other, other ≠ connection → (state.phases other).busy = false := by
  intro other ne
  by_contra also
  exact ne (ring.lone other connection (by simpa using also) busy)

theorem Ring.exit (ring : Ring state pending) : Ring state.exit pending where
  span := ring.span
  holds := ring.holds
  absent := ring.absent
  lone := ring.lone
  phases connection := (ring.phases connection).mono rfl le_rfl rfl rfl
  consumer := ring.consumer.keep rfl rfl rfl (fun _ => rfl) rfl rfl

/-- A drained ring holds nothing, so its buffer may be exchanged while no connection is busy. -/
theorem Ring.authenticate (ring : Ring state pending) (frames : List Frame) :
    Ring { state with authenticated := frames } pending where
  span := ring.span
  holds := ring.holds
  absent := ring.absent
  lone := ring.lone
  phases connection := (ring.phases connection).mono rfl le_rfl rfl rfl
  consumer := ring.consumer.keep rfl rfl rfl (fun _ => rfl) rfl rfl

theorem Ring.of_drained (ring : Ring state pending) (drained : state.metahead = state.metatail)
    {after : State Connection} (quiet : ∀ other, (after.phases other).busy = false)
    (consumer_eq : after.consumer = state.consumer) (tail_eq : after.metatail = state.metatail)
    (head_eq : after.metahead = state.metahead) (received_eq : after.received = state.received)
    (published_eq : after.published = state.published) : Ring after [] := by
  have nothing : pending = [] := by
    cases pending with
    | nil => rfl
    | cons record rest =>
        have := ring.holds.lt
        omega
  subst nothing
  exact
    { span := by rw [head_eq, tail_eq]; exact ring.span
      holds := by rw [head_eq, tail_eq]; exact drained.symm
      absent := fun _ => rfl
      lone := fun one _ busy => by rw [quiet one] at busy; cases busy
      phases := fun other => State.PhaseAgrees.of_not_busy _ (quiet other)
      consumer := ring.consumer.keep consumer_eq tail_eq head_eq (fun some => (some rfl).elim)
        received_eq published_eq }

/-! ## Steps of the consumer -/

/-- A step of the consumer keeps what the connections know. -/
theorem Ring.of_consumer (ring : Ring state pending) {after : State Connection}
    {records : List (Record Frame)} (head_eq : after.metahead = state.metahead)
    (tail_le : state.metatail ≤ after.metatail) (buf_eq : after.metabuf = state.metabuf)
    (memory_eq : after.memory = state.memory) (phases_eq : after.phases = state.phases)
    (holds : ringFormat.Holds state.memory after.metatail records state.metahead)
    (absent : pending = [] → records = []) (consumer : after.ConsumerAgrees records) :
    Ring after records where
  span := by
    have span := ring.span
    omega
  holds := by
    rw [memory_eq, head_eq]
    exact holds
  absent missing := absent (ring.absent (buf_eq.symm.trans missing))
  lone := by
    rw [phases_eq]
    exact ring.lone
  phases connection := by
    rw [phases_eq]
    exact (ring.phases connection).mono head_eq tail_le buf_eq memory_eq
  consumer := consumer

/-- The oldest record, once its marker has been passed. -/
theorem Ring.oldest {frame : Frame} {rest : List (Record Frame)}
    (ring : Ring state (⟨false, frame⟩ :: rest)) :
    ringFormat.Shows state.memory (state.metatail % metaSlots) frame ∧
      ringFormat.Holds state.memory (state.metatail + frame.increment) rest state.metahead := by
  obtain ⟨-, -, shows, following⟩ := ring.holds
  exact ⟨shows, following⟩

theorem Ring.installed (ring : Ring state pending) (nonempty : pending ≠ []) :
    state.metabuf.isNone = false := by
  cases current : state.metabuf with
  | none => exact (nonempty (ring.absent current)).elim
  | some buf => rfl

/-- The first word of the oldest slot tells a marker from a message. -/
theorem Ring.marker_iff {record : Record Frame} {rest : List (Record Frame)}
    (ring : Ring state (record :: rest)) :
    load state.memory (state.metatail % metaSlots * 64) 4 = wrapMarker ↔
      record.wrapped = true := by
  obtain ⟨wrapped, frame⟩ := record
  cases wrapped with
  | true => exact ⟨fun _ => rfl, fun _ => ring.holds.1 rfl⟩
  | false =>
      have word := load_eq_firstWord (shows_iff.mp ring.oldest.1).1
      refine ⟨fun marker => ?_, fun wrapped => by cases wrapped⟩
      exact (frame.firstWord_ne (word.symm.trans marker)).elim

/-- Steps the consumer has still to take for the oldest record; a stale head costs two more. -/
def State.consumerRank (state : State Connection) : Nat :=
  match state.consumer with
  | .idle => 8
  | .loadTail head => if head ≤ state.metatail then 9 else 7
  | .loadWord _ => 6
  | .storeTail _ => 5
  | .point _ => 4
  | .holding _ _ => 3
  | .complete => 2
  | .storeComplete _ => 1

/-- Steps the consumer has still to take for all pending records, at most. -/
def State.backlog (state : State Connection) (pending : List (Record Frame)) : Nat :=
  pending.length * 10 + state.consumerRank

theorem Ring.tail_lt (ring : Ring state pending) (nonempty : pending ≠ []) :
    state.metatail < state.metahead := by
  obtain ⟨record, rest, rfl⟩ := List.exists_cons_of_ne_nil nonempty
  exact ring.holds.lt

/-- One step of the consumer keeps the ring, and brings it closer to the next message. -/
theorem Ring.consume (ring : Ring state pending) :
    ∃ records, Ring state.consume records ∧ state.consume.exited = state.exited ∧
      (pending ≠ [] → state.consume.backlog records < state.backlog pending) := by
  have agrees := ring.consumer
  rw [State.ConsumerAgrees] at agrees
  cases at_consumer : state.consumer with
  | idle =>
      simp only [at_consumer] at agrees
      simp only [State.consume, at_consumer]
      refine ⟨pending, ring.of_consumer rfl le_rfl rfl rfl rfl ring.holds id ⟨agrees, le_rfl⟩,
        by trivial, fun nonempty => ?_⟩
      have behind := Nat.not_le.mpr (ring.tail_lt nonempty)
      simp [State.backlog, State.consumerRank, at_consumer, behind]
  | loadTail head =>
      simp only [at_consumer] at agrees
      simp only [State.consume, at_consumer]
      split
      · rename_i stale
        refine ⟨pending, ring.of_consumer rfl le_rfl rfl rfl rfl ring.holds id agrees.1, rfl,
          fun _ => ?_⟩
        simp [State.backlog, State.consumerRank, at_consumer, stale]
      · rename_i fresh
        refine ⟨pending, ring.of_consumer rfl le_rfl rfl rfl rfl ring.holds id
          ⟨agrees.1, rfl, ?_⟩, rfl, fun _ => ?_⟩
        · rintro rfl
          have drained : state.metatail = state.metahead := ring.holds
          have head_le := agrees.2
          omega
        · simp [State.backlog, State.consumerRank, at_consumer, fresh]
  | loadWord tail =>
      simp only [at_consumer] at agrees
      obtain ⟨unread, rfl, nonempty⟩ := agrees
      have installed := ring.installed nonempty
      simp only [State.consume, at_consumer, installed, Bool.false_eq_true, if_false]
      obtain ⟨⟨wrapped, frame⟩, rest, rfl⟩ := List.exists_cons_of_ne_nil nonempty
      cases wrapped with
      | true =>
          rw [if_pos (ring.marker_iff.mpr rfl)]
          refine ⟨_, ring.of_consumer rfl le_rfl rfl rfl rfl ring.holds id
            ⟨unread, frame, rest, rfl, rfl⟩, rfl, fun _ => ?_⟩
          simp [State.backlog, State.consumerRank, at_consumer]
      | false =>
          rw [if_neg (mt ring.marker_iff.mp (by simp))]
          refine ⟨_, ring.of_consumer rfl le_rfl rfl rfl rfl ring.holds id
            ⟨false, frame, rest, rfl, unread, rfl⟩, rfl, fun _ => ?_⟩
          simp [State.backlog, State.consumerRank, at_consumer]
  | storeTail tail =>
      simp only [at_consumer] at agrees
      obtain ⟨unread, frame, rest, rfl, tail_is⟩ := agrees
      simp only [State.consume, at_consumer]
      have later := lt_nextLap state.metatail
      obtain ⟨-, fits, shows, following⟩ := ring.holds
      have start_eq : ringFormat.start ⟨true, frame⟩ state.metatail = tail := by
        rw [tail_is, ← nextLap_eq]
        rfl
      rw [start_eq] at fits shows following
      refine ⟨⟨false, frame⟩ :: rest, ring.of_consumer rfl (by rw [tail_is]; exact later.le) rfl
        rfl rfl ⟨fun wrapped => (by cases wrapped), fits, shows, following⟩ (by simp)
        ⟨true, frame, rest, rfl, unread, ?_⟩, by trivial, fun _ => ?_⟩
      · rw [tail_is, ← nextLap_eq, ← ringFormat_slots, Format.nextLap_mod]
      · simp [State.backlog, State.consumerRank, at_consumer]
  | point t =>
      simp only [at_consumer] at agrees
      obtain ⟨wrapped, frame, rest, rfl, unread, slot_is⟩ := agrees
      simp only [State.consume, at_consumer]
      split
      · rename_i buf current
        refine ⟨_, ring.of_consumer rfl le_rfl rfl rfl rfl ring.holds id
          ⟨wrapped, frame, rest, rfl, unread, current, by rw [slot_is]⟩, rfl, fun _ => ?_⟩
        simp [State.backlog, State.consumerRank, at_consumer]
      · rename_i missing
        exact (List.cons_ne_nil _ _ (ring.absent missing)).elim
  | holding buf offset =>
      simp only [at_consumer] at agrees
      obtain ⟨wrapped, frame, rest, rfl, ⟨done, split, read⟩, current, rfl⟩ := agrees
      obtain ⟨hdr, payload⟩ := shows_iff.mp ring.oldest.1
      have memory_eq : state.memory = state.buffers buf := by simp [State.memory, current]
      rw [memory_eq] at hdr payload
      have sz_eq : ntohl (firstWord frame.hdr) = frame.payload.length := frame.sz_eq
      simp only [State.consume, at_consumer, hdr, sz_eq, payload]
      refine ⟨_, ring.of_consumer rfl le_rfl rfl rfl rfl ring.holds id ⟨frame, rest, rfl, ?_⟩,
        by trivial, fun _ => ?_⟩
      · exact ⟨done ++ [⟨wrapped, frame⟩], by simpa using split,
          by simp [read, messages, Frame.message]⟩
      · simp [State.backlog, State.consumerRank, at_consumer]
  | complete =>
      simp only [at_consumer] at agrees
      obtain ⟨frame, rest, rfl, unread⟩ := agrees
      have installed := ring.installed (by simp)
      have word := load_eq_firstWord (shows_iff.mp ring.oldest.1).1
      have size : (frame.sz + 63 + 16) % 2 ^ 32 / 64 = frame.increment := by
        have short := frame.sz_le
        rw [Frame.increment, MetaRing.increment]
        omega
      simp only [State.consume, at_consumer, installed, Bool.false_eq_true, if_false, word]
      refine ⟨_, ring.of_consumer rfl le_rfl rfl rfl rfl ring.holds id
        ⟨frame, rest, rfl, unread, ?_⟩, by trivial, fun _ => ?_⟩
      · rw [← size]
        rfl
      · simp [State.backlog, State.consumerRank, at_consumer]
  | storeComplete tail =>
      simp only [at_consumer] at agrees
      obtain ⟨frame, rest, rfl, unread, tail_is⟩ := agrees
      simp only [State.consume, at_consumer]
      refine ⟨rest, ring.of_consumer rfl (by rw [tail_is]; exact Nat.le_add_right _ _) rfl rfl rfl
        (by rw [tail_is]; exact ring.oldest.2) (by simp) unread, by trivial, fun _ => ?_⟩
      simp [State.backlog, State.consumerRank, at_consumer]
      omega

/-- The consumer changes neither the connections nor what they have published. -/
theorem State.consume_keeps (state : State Connection) :
    state.consume.phases = state.phases ∧ state.consume.metahead = state.metahead ∧
      state.consume.published = state.published ∧
      state.consume.authenticated = state.authenticated ∧ state.consume.block = state.block ∧
      state.consume.metabuf = state.metabuf := by
  rw [consume]
  split
  · exact ⟨rfl, rfl, rfl, rfl, rfl, rfl⟩
  · split <;> exact ⟨rfl, rfl, rfl, rfl, rfl, rfl⟩
  · split
    · exact ⟨rfl, rfl, rfl, rfl, rfl, rfl⟩
    · split <;> exact ⟨rfl, rfl, rfl, rfl, rfl, rfl⟩
  · exact ⟨rfl, rfl, rfl, rfl, rfl, rfl⟩
  · split <;> exact ⟨rfl, rfl, rfl, rfl, rfl, rfl⟩
  · exact ⟨rfl, rfl, rfl, rfl, rfl, rfl⟩
  · split <;> exact ⟨rfl, rfl, rfl, rfl, rfl, rfl⟩
  · exact ⟨rfl, rfl, rfl, rfl, rfl, rfl⟩

/-- The consumer has read the first published messages. -/
theorem Ring.unread (ring : Ring state pending) : ∃ records, state.Unread records := by
  have agrees := ring.consumer
  rw [State.ConsumerAgrees] at agrees
  cases at_consumer : state.consumer <;> simp only [at_consumer] at agrees
  · exact ⟨_, agrees⟩
  · exact ⟨_, agrees.1⟩
  · exact ⟨_, agrees.1⟩
  · exact ⟨_, agrees.1⟩
  · obtain ⟨wrapped, frame, rest, -, accounted, -⟩ := agrees
    exact ⟨_, accounted⟩
  · obtain ⟨wrapped, frame, rest, -, accounted, -⟩ := agrees
    exact ⟨_, accounted⟩
  · obtain ⟨frame, rest, -, accounted⟩ := agrees
    exact ⟨rest, accounted⟩
  · obtain ⟨frame, rest, -, accounted, -⟩ := agrees
    exact ⟨rest, accounted⟩

/-- The messages received are the first published ones. -/
theorem Ring.received_prefix (ring : Ring state pending) :
    state.received <+: messages state.published := by
  obtain ⟨records, done, split, read⟩ := ring.unread
  rw [split, read]
  exact ⟨messages records, by simp [messages]⟩

/-- On a drained ring everything published has been received. -/
theorem Ring.received_of_drained (ring : Ring state []) :
    state.received = messages state.published := by
  have agrees := ring.consumer
  rw [State.ConsumerAgrees] at agrees
  have read : state.Unread [] := by
    cases at_consumer : state.consumer <;> simp [at_consumer] at agrees
    · exact agrees
    · exact agrees.1
  obtain ⟨done, split, received_eq⟩ := read
  rw [received_eq, split, List.append_nil]

theorem Ring.init (block : Connection → UInt32) (buffers : Nat → Memory) :
    Ring (State.init block buffers) [] where
  span := show 0 < 0 + metaSlots by decide
  holds := rfl
  absent _ := rfl
  lone _ _ busy := by cases busy
  phases _ := trivial
  consumer := ⟨[], rfl, rfl⟩

/-! ## Steps of the connections -/

variable [DecidableEq Connection]

@[simp] theorem State.setPhase_self (state : State Connection) (connection : Connection)
    (phase : Phase) : (state.setPhase connection phase).phases connection = phase := by
  simp [setPhase]

theorem State.setPhase_of_ne (state : State Connection) {connection other : Connection}
    (ne : other ≠ connection) (phase : Phase) :
    (state.setPhase connection phase).phases other = state.phases other := by
  simp [setPhase, ne]

namespace Ring

/-- When no connection is busy, one may become so. -/
theorem lone_setPhase {phase : Phase}
    (alone : ∀ other, other ≠ connection → (state.phases other).busy = false) :
    ∀ one other, ((state.setPhase connection phase).phases one).busy = true →
      ((state.setPhase connection phase).phases other).busy = true → one = other := by
  have only : ∀ other, ((state.setPhase connection phase).phases other).busy = true →
      other = connection := by
    intro other busy
    by_contra ne
    rw [state.setPhase_of_ne ne, alone other ne] at busy
    cases busy
  intro one other one_busy other_busy
  rw [only one one_busy, only other other_busy]

/-- A step that only moves a connection on. -/
theorem setPhase (ring : Ring state pending) {phase : Phase} (agrees : state.PhaseAgrees phase)
    (outside : phase.busy = false ∨
      ∀ other, other ≠ connection → (state.phases other).busy = false) :
    Ring (state.setPhase connection phase) pending where
  span := ring.span
  holds := ring.holds
  absent := ring.absent
  lone := by
    rcases outside with outside | alone
    · intro one other one_busy other_busy
      by_cases one_is : one = connection
      · subst one_is
        rw [state.setPhase_self, outside] at one_busy
        cases one_busy
      · by_cases other_is : other = connection
        · subst other_is
          rw [state.setPhase_self, outside] at other_busy
          cases other_busy
        · rw [state.setPhase_of_ne one_is] at one_busy
          rw [state.setPhase_of_ne other_is] at other_busy
          exact ring.lone one other one_busy other_busy
    · exact lone_setPhase alone
  phases := by
    intro other
    by_cases same : other = connection
    · subst same
      rw [state.setPhase_self]
      exact agrees.mono rfl le_rfl rfl rfl
    · rw [state.setPhase_of_ne same]
      exact (ring.phases other).mono rfl le_rfl rfl rfl
  consumer := ring.consumer

/-- A step of a busy connection that stores into the current buffer. -/
theorem store (ring : Ring state pending) (busy : (state.phases connection).busy = true)
    {buf : Nat} (current : state.metabuf = some buf) {write : Write} {phase : Phase}
    (holds : ringFormat.Holds (write.apply state.memory) state.metatail pending state.metahead)
    (agrees : (state.commit (some (buf, write))).PhaseAgrees phase) :
    Ring ((state.setPhase connection phase).commit (some (buf, write))) pending where
  span := ring.span
  holds := by
    have memory_eq : ((state.setPhase connection phase).commit (some (buf, write))).memory =
        write.apply state.memory :=
      @State.commit_memory _ (state.setPhase connection phase) buf current write
    rw [memory_eq]
    exact holds
  absent := ring.absent
  lone := lone_setPhase (ring.alone busy)
  phases := by
    intro other
    by_cases same : other = connection
    · subst same
      change State.PhaseAgrees _ ((state.setPhase other phase).phases other)
      rw [state.setPhase_self]
      exact agrees.mono rfl le_rfl rfl rfl
    · change State.PhaseAgrees _ ((state.setPhase connection phase).phases other)
      rw [state.setPhase_of_ne same]
      exact State.PhaseAgrees.of_not_busy _ (ring.alone busy other same)
  consumer := ring.consumer

/-- A busy connection writes its frame without touching live slots. -/
theorem storeFrame (ring : Ring state pending) (busy : (state.phases connection).busy = true)
    {frame : Frame} {head buf : Nat} (places : state.Places frame head buf)
    (room : state.Room frame head) {offset : Nat} {bytes : List UInt8} {phase : Phase}
    (low : head % metaSlots * 64 ≤ offset)
    (high : offset + bytes.length ≤ head % metaSlots * 64 + (16 + frame.payload.length))
    (agrees : ∀ after : State Connection, after.Places frame head buf → after.Room frame head →
      after.memory = (Write.ofBytes offset bytes).apply state.memory → after.PhaseAgrees phase) :
    Ring ((state.setPhase connection phase).commit (some (buf, Write.ofBytes offset bytes)))
      pending := by
  have length_le := frame.length_le
  have memory_eq := State.commit_memory places.buf_eq (Write.ofBytes offset bytes)
  have head_le := places.head_le
  have tail_le : state.metatail ≤ state.metahead := ring.holds.le
  have untouched (slot : Nat) (other : ∀ index, head ≤ index → index < head + frame.increment →
      index % metaSlots ≠ slot) :
      ringFormat.Same state.memory ((Write.ofBytes offset bytes).apply state.memory) slot :=
    same_of_store places.fits low (by rw [Write.ofBytes_offset, Write.ofBytes_size]; omega)
      slot other
  rw [State.Room] at room
  refine ring.store busy places.buf_eq ?_ (agrees _ ⟨places.buf_eq, places.fits, ?_⟩ room memory_eq)
  · refine ring.holds.of_store (head + frame.increment) (by rw [ringFormat_slots]; omega)
      fun slot other => ?_
    exact untouched slot fun index low_index high_index =>
      other index (head_le.trans low_index) high_index
  · rw [memory_eq]
    refine places.head_eq.imp_right fun ⟨lap, crosses, marked⟩ => ⟨lap, crosses, ?_⟩
    -- The marker lies in the slot of `metahead`, before the slots of the frame.
    have before_lap := lt_nextLap state.metahead
    refine ringFormat.marked_congr (untouched _ fun index low_index high_index => ?_) marked
    exact @mod_ne_of_window metaSlots state.metatail index state.metahead (by omega) (by omega)
      tail_le ring.span (by omega)

theorem quiet_setPhase {phase : Phase} (outside : phase.busy = false)
    (alone : ∀ other, other ≠ connection → (state.phases other).busy = false) (other : Connection) :
    ((state.setPhase connection phase).phases other).busy = false := by
  by_cases same : other = connection
  · subst same
    rw [state.setPhase_self, outside]
  · rw [state.setPhase_of_ne same, alone other same]

/-- A marker is left in the slot of `metahead`, which is not live. -/
theorem storeMarker (ring : Ring state pending) (busy : (state.phases connection).busy = true)
    {buf : Nat} (current : state.metabuf = some buf) {frame : Incoming} {tail : Nat}
    (tail_le : tail ≤ state.metatail) (crosses : ¬ringFormat.Fits state.metahead frame.frame) :
    Ring ((state.setPhase connection (.wait frame (nextLap state.metahead) tail buf)).commit
      (some (buf, Write.ofBytes (state.metahead % metaSlots * 64) (List.replicate 4 0xff))))
      pending := by
  have memory_eq := State.commit_memory current
    (Write.ofBytes (state.metahead % metaSlots * 64) (List.replicate 4 0xff))
  refine ring.store busy current ?_ ⟨⟨current, ?_, Or.inr ⟨rfl, crosses, ?_⟩⟩, tail_le⟩
  · refine ring.holds.of_store (state.metahead + 1) ring.span fun slot other => ?_
    intro address in_slot
    apply Write.apply_of_not_covers
    rintro ⟨low, high⟩
    rw [Write.ofBytes_offset] at low high
    rw [Write.ofBytes_size, List.length_replicate] at high
    exact other state.metahead le_rfl (Nat.lt_succ_self _) (by rw [ringFormat_slots]; omega)
  · have small := frame.frame.increment_small
    rw [Format.Fits, ← nextLap_eq, Format.nextLap_mod, ringFormat_slots, ringFormat_span]
    omega
  · rw [memory_eq]
    exact load_marker _ _

/-- The store of `metahead` adds the frame to the ring. -/
theorem publish (ring : Ring state pending) (busy : (state.phases connection).busy = true)
    {frame : Frame} {head buf next : Nat} (places : state.Places frame head buf)
    (room : state.Room frame head)
    (shows : ringFormat.Shows state.memory (head % metaSlots) frame)
    (next_eq : next = head + frame.increment) :
    Ring ((state.setPhase connection .idle).storeHead
      ⟨decide (head ≠ state.metahead), frame⟩ next)
      (pending ++ [⟨decide (head ≠ state.metahead), frame⟩]) := by
  have quiet := quiet_setPhase (show Phase.idle.busy = false from rfl) (ring.alone busy)
  have start_eq : ringFormat.start ⟨decide (head ≠ state.metahead), frame⟩ state.metahead =
      head := by
    rcases places.head_eq with same | ⟨lap, -⟩
    · simp [Format.start, same]
    · have before_lap := lt_nextLap state.metahead
      have wrapped : decide (head ≠ state.metahead) = true := decide_eq_true (by omega)
      rw [Format.start, wrapped, if_pos rfl, nextLap_eq, lap]
  have last : ringFormat.Holds state.memory state.metahead
      [⟨decide (head ≠ state.metahead), frame⟩] next := by
    rw [Format.Holds, start_eq, ringFormat_slots, ringFormat_span, Format.Holds]
    refine ⟨fun wrapped => ?_, places.fits, shows, next_eq.symm⟩
    rcases places.head_eq with same | ⟨-, -, marked⟩
    · simp [same] at wrapped
    · exact marked
  exact
    { span := next_eq.trans_lt room
      holds := Format.holds_append.mpr ⟨state.metahead, ring.holds, last⟩
      absent := fun missing => by
        have current : state.metabuf = none := missing
        rw [places.buf_eq] at current
        cases current
      lone := fun one _ one_busy => absurd (one_busy.symm.trans (quiet one)) (by decide)
      phases := fun other => State.PhaseAgrees.of_not_busy _ (quiet other)
      consumer := by
        refine ring.consumer.publish _ rfl rfl ?_ (fun _ => rfl) rfl rfl
        exact places.head_le.trans (Nat.le.intro next_eq.symm) }

/-- One step of a connection keeps the ring. -/
theorem produce (ring : Ring state pending) (allowed : Undisturbed state (.produce connection))
    {after : State Connection} (taken : state.advance connection = some after) :
    ∃ records, Ring (after.commit (state.stores connection)) records := by
  have agrees := ring.phases connection
  have alone : (state.phases connection).busy = true →
      ∀ other, other ≠ connection → (state.phases other).busy = false := ring.alone
  cases at_phase : state.phases connection with
  | idle => simp [State.advance, at_phase] at taken
  | metaInit frame =>
      simp only [State.advance, at_phase, Option.some.injEq] at taken
      simp only [Undisturbed, at_phase] at allowed
      simp only [State.stores, at_phase, State.commit]
      subst taken
      exact ⟨[], ring.of_drained allowed.1 (quiet_setPhase rfl allowed.2) rfl rfl rfl rfl rfl⟩
  | metaZero frame =>
      simp only [State.advance, at_phase] at taken
      simp only [Undisturbed, at_phase] at allowed
      simp only [State.stores, at_phase]
      cases current : state.metabuf with
      | none =>
          simp only [current, Option.isNone_none, if_true, Option.some.injEq] at taken
          subst taken
          exact ⟨pending, ring.exit⟩
      | some buf =>
          simp only [current, Option.isNone_some, Bool.false_eq_true, if_false,
            Option.some.injEq] at taken
          subst taken
          exact ⟨[], ring.of_drained allowed.1 (quiet_setPhase rfl allowed.2) rfl rfl rfl rfl rfl⟩
  | loadHead frame =>
      simp only [State.advance, at_phase, Option.some.injEq] at taken
      simp only [Undisturbed, at_phase] at allowed
      simp only [State.stores, at_phase, State.commit]
      subst taken
      exact ⟨pending, ring.setPhase rfl (Or.inr allowed)⟩
  | loadTail frame head =>
      rw [at_phase] at agrees alone
      simp only [State.advance, at_phase, Option.some.injEq] at taken
      simp only [State.stores, at_phase, State.commit]
      subst taken
      exact ⟨pending, ring.setPhase ⟨agrees, le_rfl⟩ (Or.inr (alone rfl))⟩
  | loadBuf frame head tail =>
      rw [at_phase] at agrees alone
      simp only [State.advance, at_phase, Option.some.injEq] at taken
      simp only [State.stores, at_phase, State.commit]
      subst taken
      exact ⟨pending, ring.setPhase ⟨agrees.1, agrees.2, rfl⟩ (Or.inr (alone rfl))⟩
  | wrap frame head tail buf =>
      rw [at_phase] at agrees alone
      obtain ⟨rfl, tail_le, current⟩ := agrees
      cases buf with
      | none =>
          simp only [State.advance, at_phase, Option.some.injEq] at taken
          simp only [State.stores, at_phase, State.commit]
          subst taken
          exact ⟨pending, ring.exit⟩
      | some buf =>
          simp only [State.advance, at_phase] at taken
          simp only [State.stores, at_phase]
          by_cases small : frame.frame.sz < metabufSz / 2
          · by_cases cross : crosses state.metahead frame.frame = true
            · -- A marker is left in the slot of `metahead`, which is not live.
              simp only [small, cross, not_true_eq_false, if_false, if_true, and_self,
                Option.some.injEq] at taken ⊢
              subst taken
              exact ⟨pending, ring.storeMarker (by rw [at_phase]; rfl) current.symm tail_le
                ((crosses_iff _ _).mp cross)⟩
            · simp only [small, cross, not_true_eq_false, Bool.false_eq_true, if_false, and_false,
                Option.some.injEq] at taken ⊢
              subst taken
              have fits : ringFormat.Fits state.metahead frame.frame := by
                by_contra crossing
                exact cross ((crosses_iff _ _).mpr crossing)
              exact ⟨pending, ring.setPhase ⟨⟨current.symm, fits, Or.inl rfl⟩, tail_le⟩
                (Or.inr (alone rfl))⟩
          · simp only [small, not_false_eq_true, if_true, false_and, if_false,
              Option.some.injEq] at taken ⊢
            subst taken
            exact ⟨pending, ring.exit⟩
  | wait frame head tail buf =>
      rw [at_phase] at agrees alone
      simp only [State.advance, at_phase] at taken
      simp only [State.stores, at_phase, State.commit]
      by_cases full : blocked head tail frame.frame = true
      · simp only [full, if_true, Option.some.injEq] at taken
        subst taken
        exact ⟨pending, ring.setPhase ⟨agrees.1, le_rfl⟩ (Or.inr (alone rfl))⟩
      · simp only [full, Bool.false_eq_true, if_false, Option.some.injEq] at taken
        subst taken
        have free := mt (blocked_iff head tail frame.frame).mpr full
        have room := Format.room_of_not_blocked agrees.1.fits free
        simp only [ringFormat_span, ringFormat_slots] at room
        refine ⟨pending, ring.setPhase ⟨agrees.1, ?_⟩ (Or.inr (alone rfl))⟩
        rw [State.Room]
        have tail_le := agrees.2
        omega
  | copyHdr frame head buf =>
      rw [at_phase] at agrees
      simp only [State.advance, at_phase, Option.some.injEq] at taken
      simp only [State.stores, at_phase]
      subst taken
      have hdr_length := frame.frame.hdr_length
      refine ⟨pending, ring.storeFrame (by rw [at_phase]; rfl) agrees.1 agrees.2 le_rfl (by omega)
        fun after places room memory_eq => ⟨places, room, ?_⟩⟩
      rw [memory_eq, ← hdr_length]
      exact bytesAt_ofBytes _ _ _
  | readPayload frame head buf =>
      rw [at_phase] at agrees
      simp only [State.advance, at_phase, Option.some.injEq] at taken
      simp only [State.stores, at_phase]
      subst taken
      refine ⟨pending, ring.storeFrame (by rw [at_phase]; rfl) agrees.1 agrees.2.1 (by omega)
        (by rw [frame.cipher_length]; omega) fun after places room memory_eq =>
          ⟨places, room, ?_⟩⟩
      rw [memory_eq, bytesAt_before le_rfl]
      exact agrees.2.2
  | decrypt frame head buf =>
      rw [at_phase] at agrees
      simp only [State.advance, at_phase, Option.some.injEq] at taken
      simp only [State.stores, at_phase]
      subst taken
      refine ⟨pending, ring.storeFrame (by rw [at_phase]; rfl) agrees.1 agrees.2.1 (by omega)
        (by omega) fun after places room memory_eq => ⟨places, room, ?_⟩⟩
      rw [memory_eq]
      refine shows_iff.mpr ⟨?_, bytesAt_ofBytes _ _ _⟩
      rw [bytesAt_before le_rfl]
      exact agrees.2.2
  | checkTag frame head buf =>
      rw [at_phase] at agrees alone
      simp only [State.advance, at_phase] at taken
      simp only [State.stores, at_phase, State.commit]
      split at taken <;> obtain rfl := Option.some.inj taken
      · have moved : Ring (state.setPhase connection (.publish frame head buf)) pending :=
          ring.setPhase agrees (Or.inr (alone rfl))
        exact ⟨pending, moved.authenticate _⟩
      · exact ⟨pending, ring.exit⟩
  | publish frame head buf =>
      rw [at_phase] at agrees
      simp only [State.advance, at_phase, Option.some.injEq] at taken
      simp only [State.stores, at_phase, State.commit]
      subst taken
      exact ⟨_, ring.publish (by rw [at_phase]; rfl) agrees.1 agrees.2.1 agrees.2.2 rfl⟩

/-- One step keeps the ring while connections do not disturb each other. -/
theorem next (ring : Ring state pending) {label : Label Connection}
    (allowed : Undisturbed state label) {after : State Connection}
    (taken : MetaRing.next state label = some after) : ∃ records, Ring after records := by
  unfold MetaRing.next at taken
  split at taken
  · cases taken
  · cases label with
    | recv connection frame =>
        dsimp only at taken
        split at taken
        · obtain rfl := Option.some.inj taken
          refine ⟨pending, ring.setPhase ?_ (Or.inl ?_)⟩ <;> split <;> trivial
        · cases taken
    | produce connection =>
        obtain ⟨middle, advanced, rfl⟩ := Option.map_eq_some_iff.mp taken
        exact ring.produce allowed advanced
    | consume =>
        obtain rfl := Option.some.inj taken
        obtain ⟨records, kept, -⟩ := ring.consume
        exact ⟨records, kept⟩

/-- The consumer alone drains the ring. -/
theorem drain (ring : Ring state pending) (running : state.exited = false) :
    ∃ after, (machine Connection).PathBy (· = .consume) state after ∧ Ring after [] ∧
      after.exited = false ∧ after.phases = state.phases ∧ after.published = state.published ∧
      after.authenticated = state.authenticated := by
  induction measure_eq : state.backlog pending using Nat.strong_induction_on
    generalizing state pending with
  | _ measure ih =>
      by_cases empty : pending = []
      · subst empty
        exact ⟨state, .refl, ring, running, rfl, rfl, rfl⟩
      · obtain ⟨records, kept, exited_eq, less⟩ := ring.consume
        obtain ⟨phases_eq, -, published_eq, authenticated_eq, -, -⟩ := state.consume_keeps
        obtain ⟨after, path, drained, after_runs, after_phases, after_published,
          after_authenticated⟩ :=
          ih _ (measure_eq ▸ less empty) kept (exited_eq.trans running) rfl
        have taken : (machine Connection).next state .consume = some state.consume := by
          simp [machine, MetaRing.next, running]
        exact ⟨after, .head ⟨.consume, rfl, taken⟩ path, drained, after_runs,
          after_phases.trans phases_eq, after_published.trans published_eq,
          after_authenticated.trans authenticated_eq⟩

end Ring

/-- The ring of every state reached without disturbance. -/
theorem ring_reached {state : State Connection}
    (reached : (machine Connection).ReachedUnder Undisturbed state) :
    ∃ pending, Ring state pending := by
  refine reached.invariant (fun state => ∃ pending, Ring state pending) ?_ ?_
  · rintro _ ⟨block, buffers, rfl⟩
    exact ⟨[], Ring.init block buffers⟩
  · rintro before label after ⟨pending, ring⟩ allowed taken
    exact ring.next allowed taken

end MetaRing
end EScp
