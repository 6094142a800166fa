import EScp.ConnectionStart
import Mathlib.Data.Fintype.Fin

/-!
# What holds while the connections begin

The workers of the sender are those that `tx_start` has created; the connections that stand are
those that wait to be accepted and those that have been accepted, each once; and whoever waits,
waits for something that another thread will do.
-/

namespace EScp
namespace ConnectionStart

/-! ## The invariant -/

/-- The sender is in `tx_start` or has returned from it. -/
def Sender.Past : Sender → Prop
  | .spawn _ | .meminit | .started => True
  | .init | .reply | .exited => False

/-- The workers of the sender. -/
structure Tx (threadCount : Int) (sender : Sender) (senderCount : Int) (threadId meminit : Nat)
    (txWorkers : Thread → TxWorker) : Prop where
  tickets : Tickets (fun thread => (txWorkers thread).id) threadId
  meminit_eq : meminit = tally TxWorker.initialized txWorkers
  early : sender = .init ∨ sender = .reply →
    senderCount = threadCount ∧ ∀ thread, txWorkers thread = .absent
  past : sender.Past → senderCount = (if threadCount = 0 then 1 else threadCount) ∧ senderCount < 30
  spawn : ∀ i, sender = .spawn i →
    i ≤ senderCount.toNat ∧ ∀ thread, txWorkers thread ≠ .absent ↔ thread.val < i
  all : sender = .meminit ∨ sender = .started →
    ∀ thread, txWorkers thread ≠ .absent ↔ thread.val < senderCount.toNat + 1
  started : sender = .started → 0 ≤ senderCount + 1
  bounded : ∀ thread, txWorkers thread ≠ .absent →
    thread.val < (if threadCount = 0 then 1 else threadCount).toNat + 1

/-- The connections and the workers of the receiver. -/
structure Links (txWorkers : Thread → TxWorker) (framed : Thread → Bool) (slot : Nat)
    (backlog accepted : List Thread) (rxThreadId : Nat) (rxWorkers : Thread → RxWorker)
    (fob : Bool) : Prop where
  tickets : Tickets (fun thread => (rxWorkers thread).id) rxThreadId
  connects : ∀ thread, thread ∈ accepted ++ backlog ↔ (txWorkers thread).Connects
  nodup : (accepted ++ backlog).Nodup
  present : ∀ thread, rxWorkers thread ≠ .absent ↔ thread ∈ accepted
  slot_eq : slot = accepted.length
  live : ∀ thread id, rxWorkers thread = .live id → fob = true
  frame : fob = true → ∃ thread, framed thread = true

/-- Where the two ends stand. -/
structure Phase (threadCount : Int) (sender : Sender) (framed : Thread → Bool)
    (sessionInit : Option Int) (reply : Bool) (receiver : Receiver) (receiverCount : Int)
    (rxStart : RxStart) (activePort : Bool) (accepted : List Thread) (fob : Bool) : Prop where
  init : sender = .init → sessionInit = none ∧ receiver = .init
  sent : ∀ count, sessionInit = some count →
    count = threadCount ∧ sender = .reply ∧ receiver = .init
  unread : sender = .reply → receiver = .init → sessionInit = some threadCount
  replied : reply = true → sender = .reply ∧ activePort = true ∧ receiver ≠ .activePort
  asked : receiver = .activePort → sender = .reply
  answered : sender = .reply → receiver = .ready → reply = true
  counted : receiver ≠ .init → receiverCount = threadCount
  absent : rxStart = .absent ↔ receiver = .init
  published : activePort = true ↔ rxStart = .accept ∨ rxStart = .returned
  past : sender.Past ∨ receiver = .ready ∨ receiver = .started → activePort = true
  empty : accepted ≠ [] → activePort = true
  accepting : rxStart = .accept → accepted = [] ∨ receiverCount = 0 ∨
    (accepted.length : Int) ≤ receiverCount
  returned : rxStart = .returned → receiverCount ≠ 0 ∧ receiverCount < accepted.length ∧
    (accepted.length = 1 ∨ (accepted.length : Int) ≤ receiverCount + 1)
  framed : ∀ thread, framed thread = true → sender = .started ∨ sender = .exited
  started : receiver = .started → fob = true
  refused : sender = .exited → 30 ≤ threadCount ∨ receiver = .exited

structure Inv (threadCount : Int) (state : State) : Prop where
  tx : Tx threadCount state.sender state.senderCount state.threadId state.meminit state.txWorkers
  links : Links state.txWorkers state.framed state.slot state.backlog state.accepted
    state.rxThreadId state.rxWorkers state.fob
  phase : Phase threadCount state.sender state.framed state.sessionInit state.reply state.receiver
    state.receiverCount state.rxStart state.activePort state.accepted state.fob

variable {threadCount : Int} {state after : State}

theorem inv_init (threadCount : Int) : Inv threadCount (State.init threadCount) where
  tx := by
    refine ⟨.init, (tally_zero fun _ => rfl).symm, fun _ => ⟨rfl, fun _ => rfl⟩, ?_, ?_, ?_, ?_,
      ?_⟩ <;>
      simp [State.init, Sender.Past]
  links := by
    refine ⟨.init, ?_, ?_, ?_, rfl, ?_, ?_⟩ <;> simp [State.init, TxWorker.Connects]
  phase := by
    constructor <;> simp [State.init, Sender.Past]

/-! ## The workers of the sender -/

section Tx

variable {sender : Sender} {senderCount : Int} {threadId meminit : Nat}
  {txWorkers : Thread → TxWorker}

/-- A worker that has been created goes on. -/
theorem Tx.move (tx : Tx threadCount sender senderCount threadId meminit txWorkers)
    {thread : Thread} {worker : TxWorker} {threadId' meminit' : Nat}
    (before : txWorkers thread ≠ .absent) (now : worker ≠ .absent)
    (tickets : Tickets (fun other => (Function.update txWorkers thread worker other).id) threadId')
    (meminit_eq : meminit' =
      tally TxWorker.initialized (Function.update txWorkers thread worker)) :
    Tx threadCount sender senderCount threadId' meminit'
      (Function.update txWorkers thread worker) := by
  have kept (other : Thread) : Function.update txWorkers thread worker other ≠ .absent ↔
      txWorkers other ≠ .absent := by
    by_cases own : other = thread
    · rw [own, Function.update_self]
      exact ⟨fun _ => before, fun _ => now⟩
    · rw [Function.update_of_ne own]
  refine ⟨tickets, meminit_eq, ?_, tx.past, ?_, ?_, tx.started,
    fun other present => tx.bounded other ((kept other).mp present)⟩
  · intro at_early
    exact absurd ((tx.early at_early).2 thread) before
  · intro i at_spawn
    obtain ⟨le, created⟩ := tx.spawn i at_spawn
    exact ⟨le, fun other => (kept other).trans (created other)⟩
  · intro at_all other
    exact (kept other).trans (tx.all at_all other)

/-- A worker keeps its number. -/
theorem Tx.keep (tx : Tx threadCount sender senderCount threadId meminit txWorkers)
    {thread : Thread} {worker : TxWorker} (same : worker.id = (txWorkers thread).id) :
    Tickets (fun other => (Function.update txWorkers thread worker other).id) threadId := by
  have all : (fun other => (Function.update txWorkers thread worker other).id) =
      fun other => (txWorkers other).id := by
    funext other
    by_cases own : other = thread
    · rw [own, Function.update_self, same]
    · rw [Function.update_of_ne own]
  rw [all]
  exact tx.tickets

/-- The process of the sender ends. -/
theorem Tx.exit (tx : Tx threadCount sender senderCount threadId meminit txWorkers)
    (senderCount' : Int) : Tx threadCount .exited senderCount' threadId meminit txWorkers :=
  ⟨tx.tickets, tx.meminit_eq, by simp, by simp [Sender.Past], by simp, by simp, by simp, tx.bounded⟩

end Tx

/-! ## The connections -/

section Links

variable {txWorkers : Thread → TxWorker} {framed : Thread → Bool} {slot : Nat}
  {backlog accepted : List Thread} {rxThreadId : Nat} {rxWorkers : Thread → RxWorker} {fob : Bool}

/-- A worker goes on without connecting. -/
theorem Links.move (links : Links txWorkers framed slot backlog accepted rxThreadId rxWorkers fob)
    {thread : Thread} {worker : TxWorker} (same : worker.Connects ↔ (txWorkers thread).Connects) :
    Links (Function.update txWorkers thread worker) framed slot backlog accepted rxThreadId
      rxWorkers fob := by
  refine ⟨links.tickets, fun other => ?_, links.nodup, links.present, links.slot_eq, links.live,
    links.frame⟩
  rw [links.connects]
  by_cases own : other = thread
  · rw [own, Function.update_self]
    exact same.symm
  · rw [Function.update_of_ne own]

/-- A worker connects. -/
theorem Links.connect
    (links : Links txWorkers framed slot backlog accepted rxThreadId rxWorkers fob)
    {thread : Thread} {worker : TxWorker} (before : ¬(txWorkers thread).Connects)
    (now : worker.Connects) :
    Links (Function.update txWorkers thread worker) framed slot (backlog ++ [thread]) accepted
      rxThreadId rxWorkers fob := by
  have absent : thread ∉ accepted ++ backlog := fun mem => before ((links.connects thread).mp mem)
  refine ⟨links.tickets, fun other => ?_, ?_, links.present, links.slot_eq, links.live,
    links.frame⟩
  · rw [← List.append_assoc, List.mem_append, links.connects, List.mem_singleton]
    by_cases own : other = thread
    · rw [own, Function.update_self]
      exact ⟨fun _ => now, fun _ => .inr rfl⟩
    · rw [Function.update_of_ne own]
      exact or_iff_left own
  · rw [← List.append_assoc]
    refine List.nodup_append.mpr ⟨links.nodup, List.nodup_singleton thread, ?_⟩
    rintro other mem last single rfl
    exact absent (List.mem_singleton.mp single ▸ mem)

/-- No connection is lost in the queue of `listen`. -/
theorem Links.length_le
    (links : Links txWorkers framed slot backlog accepted rxThreadId rxWorkers fob) :
    accepted.length + backlog.length ≤ 30 := by
  have few := links.nodup.length_le_card
  rwa [List.length_append, Fintype.card_fin] at few

end Links

/-! ## The two ends -/

section Phase

variable {sender : Sender} {framed : Thread → Bool} {sessionInit : Option Int} {reply : Bool}
  {receiver : Receiver} {receiverCount : Int} {rxStart : RxStart} {activePort : Bool}
  {accepted : List Thread} {fob : Bool}

/-- The process of the sender ends. -/
theorem Phase.exit
    (phase : Phase threadCount sender framed sessionInit reply receiver receiverCount rxStart
      activePort accepted fob)
    (late : sender.Past ∨ sender = .reply ∧ receiver ≠ .init ∧ receiver ≠ .activePort)
    (refused : 30 ≤ threadCount ∨ receiver = .exited) {unread : Bool} (read : unread = false) :
    Phase threadCount .exited framed sessionInit unread receiver receiverCount rxStart
      activePort accepted fob := by
  have unsent : sessionInit = none := by
    by_contra some_sent
    obtain ⟨count, sent⟩ := Option.ne_none_iff_exists'.mp some_sent
    obtain ⟨-, at_reply, at_init⟩ := phase.sent count sent
    rcases late with past | ⟨-, other, -⟩
    · rw [at_reply] at past
      exact past
    · exact other at_init
  have answered : receiver ≠ .activePort := by
    intro at_port
    rcases late with past | ⟨-, -, other⟩
    · rw [phase.asked at_port] at past
      exact past
    · exact other at_port
  refine ⟨by simp, by simp [unsent], by simp, by simp [read],
    fun at_port => absurd at_port answered, by simp, phase.counted, phase.absent,
    phase.published, ?_, phase.empty, phase.accepting, phase.returned, ?_, phase.started,
    fun _ => refused⟩
  · rintro (past | later)
    · exact past.elim
    · exact phase.past (.inr later)
  · exact fun _ _ => .inr rfl

/-- `tx_start` goes on. -/
theorem Phase.advance
    (phase : Phase threadCount sender framed sessionInit reply receiver receiverCount rxStart
      activePort accepted fob)
    (past : sender.Past) (unstarted : sender ≠ .started) {later : Sender} (still : later.Past) :
    Phase threadCount later framed sessionInit reply receiver receiverCount rxStart activePort
      accepted fob := by
  have apart : ∀ other : Sender, ¬other.Past → sender ≠ other ∧ later ≠ other :=
    fun other early => ⟨fun same => early (same ▸ past), fun same => early (same ▸ still)⟩
  have reply := apart .reply not_false
  have init := apart .init not_false
  have exited := apart .exited not_false
  refine ⟨fun at_init => absurd at_init init.2, fun count sent =>
      absurd (phase.sent count sent).2.1 reply.1, fun at_reply => absurd at_reply reply.2,
    fun replied => absurd (phase.replied replied).1 reply.1,
    fun at_port => absurd (phase.asked at_port) reply.1, fun at_reply => absurd at_reply reply.2,
    phase.counted, phase.absent, phase.published, fun _ => phase.past (.inl past), phase.empty,
    phase.accepting, phase.returned, fun thread framed => ?_, phase.started,
    fun at_exit => absurd at_exit exited.2⟩
  rcases phase.framed thread framed with at_started | at_exit
  · exact absurd at_started unstarted
  · exact absurd at_exit exited.1

/-- The process of the receiver ends. -/
theorem Phase.gone
    (phase : Phase threadCount sender framed sessionInit reply receiver receiverCount rxStart
      activePort accepted fob)
    (begun : receiver ≠ .init) :
    Phase threadCount sender framed sessionInit reply .exited receiverCount rxStart activePort
      accepted fob where
  init at_init := absurd (phase.init at_init).2 begun
  sent count sent := absurd (phase.sent count sent).2.2 begun
  unread := by simp
  replied replied := ⟨(phase.replied replied).1, (phase.replied replied).2.1, by simp⟩
  asked := by simp
  answered := by simp
  counted _ := phase.counted begun
  absent := iff_of_false (fun absent => begun (phase.absent.mp absent)) (by simp)
  published := phase.published
  past late := by
    rcases late with past | later
    · exact phase.past (.inl past)
    · simp at later
  empty := phase.empty
  accepting := phase.accepting
  returned := phase.returned
  framed := phase.framed
  started := by simp
  refused _ := .inr rfl

/-- `rx_start` accepts a connection. -/
theorem Phase.accept
    (phase : Phase threadCount sender framed sessionInit reply receiver receiverCount .accept
      activePort accepted fob)
    (thread : Thread) {slot : Nat} (slot_eq : slot = accepted.length + 1) :
    Phase threadCount sender framed sessionInit reply receiver receiverCount
      (if receiverCount ≠ 0 ∧ receiverCount < slot then .returned else .accept) activePort
      (accepted ++ [thread]) fob := by
  have port := phase.published.mpr (.inl rfl)
  have begun : receiver ≠ .init := fun at_init => by
    have absent := phase.absent.mpr at_init
    cases absent
  have length_eq : ((accepted ++ [thread]).length : Int) = accepted.length + 1 := by simp
  refine ⟨phase.init, phase.sent, phase.unread, phase.replied, phase.asked, phase.answered,
    phase.counted, ?_, ?_, phase.past, fun _ => port, ?_, ?_, phase.framed, phase.started,
    phase.refused⟩
  · refine iff_of_false ?_ begun
    split <;> simp
  · refine iff_of_true port ?_
    split <;> simp
  · split
    · exact fun differ => by cases differ
    · rename_i room
      intro _
      rw [length_eq]
      by_cases zero : receiverCount = 0
      · exact .inr (.inl zero)
      · refine .inr (.inr ?_)
        have le := not_lt.mp fun less => room ⟨zero, less⟩
        omega
  · split
    · rename_i full
      intro _
      refine ⟨full.1, by omega, ?_⟩
      rcases phase.accepting rfl with rfl | zero | le
      · exact .inl rfl
      · exact absurd zero full.1
      · exact .inr (by omega)
    · exact fun differ => by cases differ

end Phase

/-! ## One step -/

/-- There are workers only when `tx_start` has begun. -/
theorem Inv.past_of_present (inv : Inv threadCount state) (alive : state.sender ≠ .exited)
    {thread : Thread} (present : state.txWorkers thread ≠ .absent) : state.sender.Past := by
  cases at_sender : state.sender with
  | spawn | meminit | started => trivial
  | exited => exact alive at_sender
  | init | reply => exact present ((inv.tx.early (by simp [at_sender])).2 thread)

theorem Inv.txStep (inv : Inv threadCount state) {thread : Thread} (alive : state.sender ≠ .exited)
    (taken : state.tx thread = some after) : Inv threadCount after := by
  rw [State.tx] at taken
  cases at_worker : state.txWorkers thread with
  | absent | opened => simp [at_worker] at taken
  | starting =>
      simp only [at_worker] at taken
      obtain rfl := Option.some.inj taken
      have present : state.txWorkers thread ≠ .absent := by simp [at_worker]
      have tickets : Tickets (fun other => (Function.update state.txWorkers thread
          (.numbered state.threadId) other).id) (state.threadId + 1) := by
        refine inv.tx.tickets.take thread ?_ ?_ ?_
        · rw [at_worker]
          rfl
        · rw [Function.update_self]
          rfl
        · intro other own
          rw [Function.update_of_ne own]
      refine ⟨inv.tx.move present (by simp) tickets ?_, inv.links.move ?_, inv.phase⟩
      · exact inv.tx.meminit_eq.trans (tally_update_same (by rw [at_worker]; rfl)).symm
      · rw [at_worker]
        rfl
  | numbered id =>
      simp only [at_worker] at taken
      obtain rfl := Option.some.inj taken
      have present : state.txWorkers thread ≠ .absent := by simp [at_worker]
      refine ⟨inv.tx.move present (by simp) (inv.tx.keep (by rw [at_worker]; rfl)) ?_,
        inv.links.move ?_, inv.phase⟩
      · have more : TxWorker.initialized (.counted id) =
            (state.txWorkers thread).initialized + 1 := by
          rw [at_worker]
          rfl
        exact (congrArg (· + 1) inv.tx.meminit_eq).trans (tally_update_more more).symm
      · rw [at_worker]
        rfl
  | counted id =>
      simp only [at_worker] at taken
      have present : state.txWorkers thread ≠ .absent := by simp [at_worker]
      split at taken
      · split at taken
        · obtain rfl := Option.some.inj taken
          refine ⟨inv.tx.move present (by simp) (inv.tx.keep (by rw [at_worker]; rfl)) ?_,
            inv.links.connect ?_ trivial, inv.phase⟩
          · exact inv.tx.meminit_eq.trans (tally_update_same (by rw [at_worker]; rfl)).symm
          · rw [at_worker]
            exact not_false
        · cases taken
      · rename_i refused
        obtain rfl := Option.some.inj taken
        have past := inv.past_of_present alive present
        have port := inv.phase.published.mp (inv.phase.past (.inl past))
        have gone : state.receiver = .exited := by
          by_contra there
          refine refused ⟨there, ?_⟩
          rcases port with at_accept | at_return <;> simp [*]
        have read : state.reply = false := by
          by_contra unread
          have at_reply := (inv.phase.replied (by simpa using unread)).1
          rw [at_reply] at past
          exact past
        exact ⟨inv.tx.exit _, inv.links, inv.phase.exit (.inl past) (.inr gone) read⟩
  | connected id =>
      simp only [at_worker] at taken
      obtain rfl := Option.some.inj taken
      have present : state.txWorkers thread ≠ .absent := by simp [at_worker]
      refine ⟨inv.tx.move present (by simp) (inv.tx.keep (by rw [at_worker]; rfl)) ?_,
        inv.links.move ?_, inv.phase⟩
      · exact inv.tx.meminit_eq.trans (tally_update_same (by rw [at_worker]; rfl)).symm
      · rw [at_worker]
        rfl

theorem Inv.rxStep (inv : Inv threadCount state) {thread : Thread}
    (taken : state.rx thread = some after) : Inv threadCount after := by
  rw [State.rx] at taken
  have moved {worker : RxWorker} (present : state.rxWorkers thread ≠ .absent)
      (now : worker ≠ .absent) (other : Thread) :
      Function.update state.rxWorkers thread worker other ≠ .absent ↔ other ∈ state.accepted := by
    by_cases own : other = thread
    · rw [own, Function.update_self]
      exact ⟨fun _ => (inv.links.present thread).mp present, fun _ => now⟩
    · rw [Function.update_of_ne own]
      exact inv.links.present other
  have kept {worker : RxWorker} (same : worker.id = (state.rxWorkers thread).id) :
      Tickets (fun other => (Function.update state.rxWorkers thread worker other).id)
        state.rxThreadId := by
    have all : (fun other => (Function.update state.rxWorkers thread worker other).id) =
        fun other => (state.rxWorkers other).id := by
      funext other
      by_cases own : other = thread
      · rw [own, Function.update_self, same]
      · rw [Function.update_of_ne own]
    rw [all]
    exact inv.links.tickets
  have lives {worker : RxWorker} (waiting : ∀ id, worker ≠ .live id) (other : Thread) (id : Nat)
      (live : Function.update state.rxWorkers thread worker other = .live id) :
      state.fob = true := by
    by_cases own : other = thread
    · rw [own, Function.update_self] at live
      exact absurd live (waiting id)
    · rw [Function.update_of_ne own] at live
      exact inv.links.live other id live
  cases at_worker : state.rxWorkers thread with
  | absent | live => simp [at_worker] at taken
  | starting =>
      simp only [at_worker] at taken
      obtain rfl := Option.some.inj taken
      have present : state.rxWorkers thread ≠ .absent := by simp [at_worker]
      have tickets : Tickets (fun other => (Function.update state.rxWorkers thread
          (.numbered state.rxThreadId) other).id) (state.rxThreadId + 1) := by
        refine inv.links.tickets.take thread ?_ ?_ ?_
        · rw [at_worker]
          rfl
        · rw [Function.update_self]
          rfl
        · intro other own
          rw [Function.update_of_ne own]
      exact ⟨inv.tx, ⟨tickets, inv.links.connects, inv.links.nodup, moved present (by simp),
        inv.links.slot_eq, lives (by simp), inv.links.frame⟩, inv.phase⟩
  | numbered id =>
      simp only [at_worker] at taken
      obtain ⟨-, moving⟩ := Option.ite_none_right_eq_some.mp taken
      obtain rfl := Option.some.inj moving
      have present : state.rxWorkers thread ≠ .absent := by simp [at_worker]
      exact ⟨inv.tx, ⟨kept (by rw [at_worker]; rfl), inv.links.connects, inv.links.nodup,
        moved present (by simp), inv.links.slot_eq, lives (by simp), inv.links.frame⟩, inv.phase⟩
  | ready id =>
      simp only [at_worker] at taken
      obtain ⟨framed, moving⟩ := Option.ite_none_right_eq_some.mp taken
      obtain rfl := Option.some.inj moving
      have present : state.rxWorkers thread ≠ .absent := by simp [at_worker]
      refine ⟨inv.tx, ⟨kept (by rw [at_worker]; rfl), inv.links.connects, inv.links.nodup,
        moved present (by simp), inv.links.slot_eq, fun _ _ _ => rfl, fun _ => ⟨thread, framed⟩⟩,
        ?_⟩
      exact { inv.phase with started := fun _ => rfl }

theorem Inv.acceptStep (inv : Inv threadCount state) {thread : Thread} {rest : List Thread}
    (waiting : state.backlog = thread :: rest) (at_accept : state.rxStart = .accept) :
    Inv threadCount (state.accept thread rest) := by
  have few := inv.links.length_le
  have nodup := inv.links.nodup
  rw [waiting] at few nodup
  rw [List.length_cons] at few
  have fresh : thread ∉ state.accepted := by
    intro mem
    exact (List.nodup_append.mp nodup).2.2 thread mem thread List.mem_cons_self rfl
  have absent : state.rxWorkers thread = .absent := by
    by_contra present
    exact fresh ((inv.links.present thread).mp present)
  have slot_eq : (state.slot + 1) % 32 = (state.accepted ++ [thread]).length := by
    rw [inv.links.slot_eq, List.length_append, List.length_singleton]
    omega
  have tickets : Tickets (fun other =>
      (Function.update state.rxWorkers thread .starting other).id) state.rxThreadId := by
    have all : (fun other => (Function.update state.rxWorkers thread .starting other).id) =
        fun other => (state.rxWorkers other).id := by
      funext other
      by_cases own : other = thread
      · rw [own, Function.update_self, absent]
        rfl
      · rw [Function.update_of_ne own]
    rw [all]
    exact inv.links.tickets
  refine ⟨inv.tx, ⟨tickets, ?_, ?_, ?_, slot_eq, ?_, inv.links.frame⟩, ?_⟩
  · intro other
    have before := inv.links.connects other
    rw [waiting] at before
    change other ∈ (state.accepted ++ [thread]) ++ rest ↔ _
    rw [List.append_assoc]
    exact before
  · change ((state.accepted ++ [thread]) ++ rest).Nodup
    rw [List.append_assoc]
    exact nodup
  · intro other
    change Function.update state.rxWorkers thread .starting other ≠ .absent ↔
      other ∈ state.accepted ++ [thread]
    rw [List.mem_append, List.mem_singleton]
    by_cases own : other = thread
    · rw [own, Function.update_self]
      simp
    · rw [Function.update_of_ne own, inv.links.present other]
      exact (or_iff_left own).symm
  · intro other id live
    change Function.update state.rxWorkers thread .starting other = .live id at live
    by_cases own : other = thread
    · rw [own, Function.update_self] at live
      cases live
    · rw [Function.update_of_ne own] at live
      exact inv.links.live other id live
  · have phase := inv.phase
    rw [at_accept] at phase
    exact phase.accept thread (slot_eq.trans (by simp))

/-- `tx_start` begins. -/
theorem Inv.txStart (inv : Inv threadCount state) (at_reply : state.sender = .reply)
    (replied : state.reply = true) : Inv threadCount state.txStart := by
  obtain ⟨count_eq, absent⟩ := inv.tx.early (.inr at_reply)
  obtain ⟨-, port, answered⟩ := inv.phase.replied replied
  have begun : state.receiver ≠ .init := by
    intro waiting
    rcases inv.phase.published.mp port with at_accept | at_return
    · simpa [at_accept] using inv.phase.absent.mpr waiting
    · simpa [at_return] using inv.phase.absent.mpr waiting
  have unsent (count : Int) : state.sessionInit ≠ some count :=
    fun sent => begun (inv.phase.sent count sent).2.2
  have unframed (thread : Thread) : state.framed thread ≠ true := fun framed => by
    simpa [at_reply] using inv.phase.framed thread framed
  obtain ⟨count, count_now⟩ : ∃ count, count =
      if state.senderCount = 0 then 1 else state.senderCount := ⟨_, rfl⟩
  rw [State.txStart, ← count_now]
  rw [count_eq] at count_now
  by_cases few : count < 30
  · simp only [few, if_true]
    refine ⟨⟨inv.tx.tickets, inv.tx.meminit_eq, by simp, fun _ => ⟨count_now, few⟩, ?_, by simp,
      by simp, inv.tx.bounded⟩, inv.links, ?_⟩
    · intro i at_spawn
      obtain rfl := Sender.spawn.inj at_spawn
      refine ⟨Nat.zero_le _, fun thread => ?_⟩
      exact iff_of_false (not_not.mpr (absent thread)) (Nat.not_lt_zero _)
    · exact { inv.phase with
        init := by simp, sent := fun count sent => absurd sent (unsent count), unread := by simp,
        replied := by simp, asked := fun at_port => absurd at_port answered, answered := by simp,
        past := fun _ => port, framed := fun thread framed => absurd framed (unframed thread),
        refused := by simp }
  · simp only [few, if_false]
    have large : 30 ≤ threadCount := by
      split at count_now <;> omega
    exact ⟨inv.tx.exit count, inv.links,
      inv.phase.exit (.inr ⟨at_reply, begun, answered⟩) (.inl large) rfl⟩

/-- `tx_start` creates a worker. -/
theorem Inv.spawnStep (inv : Inv threadCount state) {i : Nat} (at_spawn : state.sender = .spawn i)
    (taken : state.spawn i = some after) : Inv threadCount after := by
  rw [State.spawn] at taken
  split at taken
  · rename_i inside
    obtain rfl := Option.some.inj taken
    obtain ⟨le, created⟩ := inv.tx.spawn i at_spawn
    have past : state.sender.Past := by
      rw [at_spawn]
      trivial
    have absent : state.txWorkers ⟨i, inside⟩ = .absent := by
      by_contra present
      exact absurd ((created ⟨i, inside⟩).mp present) (lt_irrefl i)
    have created_now (thread : Thread) :
        Function.update state.txWorkers ⟨i, inside⟩ .starting thread ≠ .absent ↔
          thread.val < i + 1 := by
      by_cases own : thread = ⟨i, inside⟩
      · rw [own, Function.update_self]
        simp
      · rw [Function.update_of_ne own, created thread]
        have other : thread.val ≠ i := fun same => own (Fin.ext same)
        omega
    have still : (if (i : Int) < state.senderCount then Sender.spawn (i + 1)
        else .meminit).Past := by
      split <;> trivial
    refine ⟨⟨inv.tx.keep (by rw [absent]; rfl), ?_, ?_, fun _ => inv.tx.past past, ?_, ?_, ?_, ?_⟩,
      inv.links.move (by rw [absent]; rfl), inv.phase.advance past (by simp [at_spawn]) still⟩
    · exact inv.tx.meminit_eq.trans (tally_update_same (by rw [absent]; rfl)).symm
    · intro early
      dsimp only [State.setTx] at early
      split at early <;> simp at early
    · intro j at_next
      dsimp only [State.setTx] at at_next
      split at at_next
      · rename_i less
        obtain rfl := Sender.spawn.inj at_next
        refine ⟨?_, created_now⟩
        change i + 1 ≤ state.senderCount.toNat
        omega
      · cases at_next
    · intro at_all thread
      dsimp only [State.setTx] at at_all
      split at at_all
      · simp at at_all
      · rename_i last
        have i_eq : i = state.senderCount.toNat := by omega
        refine (created_now thread).trans ?_
        change thread.val < i + 1 ↔ thread.val < state.senderCount.toNat + 1
        rw [← i_eq]
    · intro at_started
      dsimp only [State.setTx] at at_started
      split at at_started <;> cases at_started
    · intro thread present
      have below := (created_now thread).mp present
      rw [← (inv.tx.past past).1]
      omega
  · cases taken

theorem Inv.next (inv : Inv threadCount state) {label : Label}
    (taken : ConnectionStart.next state label = some after) : Inv threadCount after := by
  cases label with
  | sessionInit =>
      obtain ⟨at_init, moving⟩ := Option.ite_none_right_eq_some.mp taken
      obtain rfl := Option.some.inj moving
      obtain ⟨count_eq, absent⟩ := inv.tx.early (.inl at_init)
      obtain ⟨-, waiting⟩ := inv.phase.init at_init
      have unframed (thread : Thread) : state.framed thread ≠ true := fun framed => by
        simpa [at_init] using inv.phase.framed thread framed
      refine ⟨⟨inv.tx.tickets, inv.tx.meminit_eq, fun _ => ⟨count_eq, absent⟩, ?_, ?_, ?_, ?_,
          inv.tx.bounded⟩,
        inv.links, { inv.phase with
          init := ?_, sent := ?_, unread := ?_, replied := ?_, asked := fun _ => rfl,
          answered := ?_, past := ?_,
          framed := fun thread framed => absurd framed (unframed thread), refused := ?_ }⟩
      · simp [Sender.Past]
      · simp
      · simp
      · simp
      · simp
      · rintro count sent
        exact ⟨(Option.some.inj sent).symm.trans count_eq, rfl, waiting⟩
      · exact fun _ _ => congrArg some count_eq
      · intro replied
        simpa [at_init] using inv.phase.replied replied
      · intro _ at_ready
        rw [waiting] at at_ready
        cases at_ready
      · rintro (past | later)
        · exact past.elim
        · exact inv.phase.past (.inr later)
      · simp
  | readInit =>
      rw [ConnectionStart.next] at taken
      split at taken
      · cases taken
      · rename_i count sent
        obtain ⟨waiting, moving⟩ := Option.ite_none_right_eq_some.mp taken
        obtain rfl := Option.some.inj moving
        obtain ⟨rfl, at_reply, -⟩ := inv.phase.sent count sent
        have absent := inv.phase.absent.mpr waiting
        have unpublished : state.activePort ≠ true := fun port => by
          simpa [absent] using inv.phase.published.mp port
        refine ⟨inv.tx, inv.links, { inv.phase with
          init := ?_, sent := ?_, unread := ?_, replied := ?_, asked := fun _ => at_reply,
          answered := ?_, counted := fun _ => rfl, absent := ?_, published := ?_, past := ?_,
          accepting := ?_, returned := ?_, started := ?_, refused := ?_ }⟩
        · simp [at_reply]
        · simp
        · simp
        · exact fun replied => absurd (inv.phase.replied replied).2.1 unpublished
        · simp
        · simp
        · exact iff_of_false unpublished (by simp)
        · simp [at_reply, Sender.Past]
        · simp
        · simp
        · simp
        · simp [at_reply]
  | bind =>
      obtain ⟨⟨alive, at_bind⟩, moving⟩ := Option.ite_none_right_eq_some.mp taken
      obtain rfl := Option.some.inj moving
      have begun : state.receiver ≠ .init := fun waiting => by
        simpa [at_bind] using inv.phase.absent.mpr waiting
      have unpublished : state.activePort ≠ true := fun port => by
        simpa [at_bind] using inv.phase.published.mp port
      exact ⟨inv.tx, inv.links, { inv.phase with
        absent := iff_of_false (by simp) begun, published := iff_of_false unpublished (by simp),
        accepting := by simp, returned := by simp }⟩
  | publish =>
      obtain ⟨⟨alive, at_publish⟩, moving⟩ := Option.ite_none_right_eq_some.mp taken
      obtain rfl := Option.some.inj moving
      have begun : state.receiver ≠ .init := fun waiting => by
        simpa [at_publish] using inv.phase.absent.mpr waiting
      have unpublished : state.activePort ≠ true := fun port => by
        simpa [at_publish] using inv.phase.published.mp port
      have none_accepted : state.accepted = [] := by
        by_contra some_accepted
        exact unpublished (inv.phase.empty some_accepted)
      refine ⟨inv.tx, inv.links, { inv.phase with
        replied := ?_, absent := iff_of_false (by simp) begun,
        published := iff_of_true rfl (.inl rfl), past := fun _ => rfl, empty := fun _ => rfl,
        accepting := fun _ => .inl none_accepted, returned := by simp }⟩
      exact fun replied => absurd (inv.phase.replied replied).2.1 unpublished
  | reply =>
      obtain ⟨⟨at_port, port⟩, moving⟩ := Option.ite_none_right_eq_some.mp taken
      obtain rfl := Option.some.inj moving
      have at_reply := inv.phase.asked at_port
      refine ⟨inv.tx, inv.links, { inv.phase with
        init := ?_, sent := ?_, unread := ?_, replied := fun _ => ⟨at_reply, port, by simp⟩,
        asked := ?_, answered := fun _ _ => rfl, counted := ?_, absent := ?_, past := fun _ => port,
        started := ?_, refused := ?_ }⟩
      · simp [at_reply]
      · intro count sent
        simpa [at_port] using inv.phase.sent count sent
      · simp
      · simp
      · exact fun _ => inv.phase.counted (by simp [at_port])
      · exact iff_of_false (fun absent => by simpa [at_port] using inv.phase.absent.mp absent)
          (by simp)
      · simp
      · simp [at_reply]
  | readReply =>
      obtain ⟨⟨at_reply, replied⟩, moving⟩ := Option.ite_none_right_eq_some.mp taken
      obtain rfl := Option.some.inj moving
      exact inv.txStart at_reply replied
  | readNothing =>
      obtain ⟨⟨at_reply, read, gone⟩, moving⟩ := Option.ite_none_right_eq_some.mp taken
      obtain rfl := Option.some.inj moving
      exact ⟨inv.tx.exit _, inv.links,
        inv.phase.exit (.inr ⟨at_reply, by simp [gone], by simp [gone]⟩) (.inr gone) read⟩
  | spawn =>
      rw [ConnectionStart.next] at taken
      split at taken
      · rename_i i at_spawn
        exact inv.spawnStep at_spawn taken
      · cases taken
  | meminit =>
      obtain ⟨⟨at_meminit, full⟩, moving⟩ := Option.ite_none_right_eq_some.mp taken
      obtain rfl := Option.some.inj moving
      have past : state.sender.Past := by
        rw [at_meminit]
        trivial
      refine ⟨⟨inv.tx.tickets, inv.tx.meminit_eq, by simp, fun _ => inv.tx.past past, by simp,
        fun _ => inv.tx.all (.inl at_meminit), fun _ => ?_, inv.tx.bounded⟩, inv.links,
        inv.phase.advance past (by simp [at_meminit]) trivial⟩
      change 0 ≤ state.senderCount + 1
      omega
  | tx thread =>
      obtain ⟨alive, moving⟩ := Option.ite_none_left_eq_some.mp taken
      exact inv.txStep alive moving
  | frame thread =>
      obtain ⟨⟨at_started, -⟩, moving⟩ := Option.ite_none_right_eq_some.mp taken
      obtain rfl := Option.some.inj moving
      refine ⟨inv.tx, { inv.links with frame := fun fob => ?_ },
        { inv.phase with framed := fun _ _ => .inl at_started }⟩
      obtain ⟨other, framed⟩ := inv.links.frame fob
      refine ⟨other, ?_⟩
      change Function.update state.framed thread true other = true
      by_cases own : other = thread
      · rw [own, Function.update_self]
      · rw [Function.update_of_ne own, framed]
  | accept =>
      rw [ConnectionStart.next] at taken
      split at taken
      · cases taken
      · rename_i thread rest waiting
        obtain ⟨⟨-, at_accept⟩, moving⟩ := Option.ite_none_right_eq_some.mp taken
        obtain rfl := Option.some.inj moving
        exact inv.acceptStep waiting at_accept
  | rx thread =>
      obtain ⟨-, moving⟩ := Option.ite_none_left_eq_some.mp taken
      exact inv.rxStep moving
  | ready =>
      obtain ⟨⟨at_ready, fob⟩, moving⟩ := Option.ite_none_right_eq_some.mp taken
      obtain rfl := Option.some.inj moving
      have port := inv.phase.past (.inr (.inl at_ready))
      refine ⟨inv.tx, inv.links, { inv.phase with
        init := ?_, sent := ?_, unread := ?_, replied := ?_, asked := ?_, answered := ?_,
        counted := ?_, absent := ?_, past := fun _ => port, started := fun _ => fob,
        refused := ?_ }⟩
      · intro at_init
        simpa [at_ready] using (inv.phase.init at_init).2
      · intro count sent
        simpa [at_ready] using (inv.phase.sent count sent).2.2
      · simp
      · exact fun replied => ⟨(inv.phase.replied replied).1, port, by simp⟩
      · simp
      · simp
      · exact fun _ => inv.phase.counted (by simp [at_ready])
      · exact iff_of_false (fun absent => by simpa [at_ready] using inv.phase.absent.mp absent)
          (by simp)
      · intro at_exit
        simpa [at_ready] using inv.phase.refused at_exit
  | timeout =>
      obtain ⟨⟨-, at_accept, -⟩, moving⟩ := Option.ite_none_right_eq_some.mp taken
      obtain rfl := Option.some.inj moving
      have begun : state.receiver ≠ .init := fun waiting => by
        simpa [at_accept] using inv.phase.absent.mpr waiting
      exact ⟨inv.tx, inv.links, inv.phase.gone begun⟩
  | giveUp =>
      obtain ⟨⟨at_ready, -⟩, moving⟩ := Option.ite_none_right_eq_some.mp taken
      obtain rfl := Option.some.inj moving
      exact ⟨inv.tx, inv.links, inv.phase.gone (by simp [at_ready])⟩

theorem inv_reached (reached : (machine threadCount).Reached state) : Inv threadCount state := by
  refine reached.invariant _ ?_ ?_
  · rintro _ rfl
    exact inv_init threadCount
  · intro before label after inv _ taken
    exact inv.next taken

/-! ## What the ends can rely on -/

structure Sound (threadCount : Int) (state : State) : Prop where
  /-- While the receiver lives no connection is refused. -/
  exited : state.sender = .exited → 30 ≤ threadCount ∨ state.receiver = .exited
  /-- The numbers of the workers name different bits of the word of a file. -/
  txId : ∀ thread id, (state.txWorkers thread).id = some id → id < 30
  txDistinct : ∀ left right id, (state.txWorkers left).id = some id →
    (state.txWorkers right).id = some id → left = right
  rxId : ∀ thread id, (state.rxWorkers thread).id = some id → id < 30
  rxDistinct : ∀ left right id, (state.rxWorkers left).id = some id →
    (state.rxWorkers right).id = some id → left = right
  /-- The queue of `listen` has room for all connections, and each is accepted once. -/
  queue : state.accepted.length + state.backlog.length ≤ 30
  once : state.accepted.Nodup
  /-- `i` does not wrap around. -/
  slot : state.slot = state.accepted.length
  /-- `rx_start` returns when it has accepted the connections of all workers, and of no others. -/
  returned : 0 < threadCount → state.rxStart = .returned →
    ∀ thread, thread ∈ state.accepted ↔ (thread.val : Int) ≤ threadCount
  /-- The main loop of the receiver begins when a first frame has come. -/
  ready : state.receiver = .started → ∃ thread, state.framed thread = true

/-- Different threads below a bound. -/
theorem mem_of_length {threads : List Thread} (nodup : threads.Nodup) {bound : Nat}
    (below : ∀ thread ∈ threads, thread.val < bound) (length_eq : threads.length = bound)
    {thread : Thread} (less : thread.val < bound) : thread ∈ threads := by
  have subset :
      threads.toFinset ⊆ Finset.univ.filter fun thread : Thread => thread.val < bound := by
    intro other mem
    exact Finset.mem_filter.mpr ⟨Finset.mem_univ _, below other (List.mem_toFinset.mp mem)⟩
  have few : (Finset.univ.filter fun thread : Thread => thread.val < bound).card ≤ bound := by
    rw [Fin.card_filter_val_lt]
    exact Nat.min_le_right 30 bound
  have card_eq : threads.toFinset.card = bound :=
    (List.toFinset_card_of_nodup nodup).trans length_eq
  have same := Finset.eq_of_subset_of_card_le subset (few.trans card_eq.ge)
  refine List.mem_toFinset.mp (same ▸ ?_)
  exact Finset.mem_filter.mpr ⟨Finset.mem_univ _, less⟩

theorem Inv.present_of_accepted (inv : Inv threadCount state) {thread : Thread}
    (mem : thread ∈ state.accepted) : state.txWorkers thread ≠ .absent := by
  have connects := (inv.links.connects thread).mp (List.mem_append_left _ mem)
  intro absent
  rw [absent] at connects
  exact connects

/-- `rx_start` has returned. -/
theorem Inv.accepted_all (inv : Inv threadCount state) (positive : 0 < threadCount)
    (at_return : state.rxStart = .returned) (thread : Thread) :
    thread ∈ state.accepted ↔ (thread.val : Int) ≤ threadCount := by
  have begun : state.receiver ≠ .init := fun waiting => by
    simpa [at_return] using inv.phase.absent.mpr waiting
  obtain ⟨-, full, least⟩ := inv.phase.returned at_return
  rw [inv.phase.counted begun] at full least
  have bounded : ∀ other ∈ state.accepted, other.val < threadCount.toNat + 1 := by
    intro other mem
    have below := inv.tx.bounded other (inv.present_of_accepted mem)
    rwa [if_neg (by omega)] at below
  have length_eq : state.accepted.length = threadCount.toNat + 1 := by
    rcases least with one | le <;> omega
  constructor
  · intro mem
    have below := bounded thread mem
    omega
  · intro le
    exact mem_of_length (List.nodup_append.mp inv.links.nodup).1 bounded length_eq (by omega)

/-- Whatever the number of threads and whoever waits for too long, the workers of both ends have
different numbers that fit the word of a file, no connection is refused, lost or accepted twice, and
`rx_start` returns with the connections of all workers. -/
theorem connections_of_reached (reached : (machine threadCount).Reached state) :
    Sound threadCount state := by
  have inv := inv_reached reached
  have thirty : Fintype.card Thread = 30 := Fintype.card_fin 30
  refine ⟨inv.phase.refused, fun thread id taken => ?_, inv.tx.tickets.distinct,
    fun thread id taken => ?_, inv.links.tickets.distinct, inv.links.length_le,
    (List.nodup_append.mp inv.links.nodup).1, inv.links.slot_eq, inv.accepted_all,
    fun at_started => inv.links.frame (inv.phase.started at_started)⟩
  · exact thirty ▸ inv.tx.tickets.lt_card taken
  · exact thirty ▸ inv.links.tickets.lt_card taken

/-- One worker for data and one for metadata; the second one connects first. -/
def twoConnections : List Label :=
  [.sessionInit, .readInit, .bind, .publish, .reply, .readReply, .spawn, .spawn, .tx 1, .tx 1,
    .tx 0, .tx 1, .tx 0, .tx 0, .accept, .accept]

theorem connections_of_two : ∃ state, (machine 1).Reached state ∧ state.rxStart = .returned ∧
    state.accepted = [1, 0] ∧ (state.txWorkers 1).id = some 0 ∧ Sound 1 state := by
  have ran : ∃ state ∈ (machine 1).run (State.init 1) twoConnections,
      state.rxStart = .returned ∧ state.accepted = [1, 0] ∧
        (state.txWorkers 1).id = some 0 := by
    decide +kernel
  obtain ⟨state, run, returned, accepted, id_eq⟩ := ran
  have reached : (machine 1).Reached state := Machine.reached_of_run rfl _ run
  exact ⟨state, reached, returned, accepted, id_eq, connections_of_reached reached⟩

end ConnectionStart
end EScp
