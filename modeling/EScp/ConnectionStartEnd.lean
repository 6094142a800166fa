import EScp.ConnectionStartInvariant

/-!
# For which numbers of threads the connections begin

Each step leaves less to do, so a start in which nobody waits for too long comes to an end.  From 1
to 29 threads it ends with both ends ready; with any other number it can end with one that waits for
ever.
-/

namespace EScp
namespace ConnectionStart

/-- Nobody has waited for too long. -/
def Timely : State → Label → Prop
  | _, .timeout | _, .giveUp => False
  | _, _ => True

/-- Nobody can go on. -/
def Stuck (state : State) : Prop :=
  ∀ label after, Timely state label → next state label ≠ some after

/-- Both ends are ready, with all connections. -/
structure Done (threadCount : Int) (state : State) : Prop where
  sender : state.sender = .started
  receiver : state.receiver = .started
  rxStart : state.rxStart = .returned
  workers : ∀ thread : Thread, (thread.val : Int) ≤ threadCount →
    (state.txWorkers thread).Opens ∧ ∃ id, state.rxWorkers thread = .live id

/-! ## What is left to do -/

def Sender.rank : Sender → Nat
  | .init => 35
  | .reply => 34
  | .spawn i => 3 + (30 - i)
  | .meminit => 2
  | .started => 1
  | .exited => 0

def Receiver.rank : Receiver → Nat
  | .init => 4
  | .activePort => 3
  | .ready => 2
  | .started => 1
  | .exited => 0

def RxStart.rank : RxStart → Nat
  | .absent => 4
  | .bind => 3
  | .publish => 2
  | .accept => 1
  | .returned => 0

def TxWorker.rank : TxWorker → Nat
  | .absent => 5
  | .starting => 4
  | .numbered _ => 3
  | .counted _ => 2
  | .connected _ => 1
  | .opened _ => 0

def RxWorker.rank : RxWorker → Nat
  | .absent => 4
  | .starting => 3
  | .numbered _ => 2
  | .ready _ => 1
  | .live _ => 0

/-- A frame that has still to be sent. -/
def unframed (framed : Bool) : Nat := if framed then 0 else 1

/-- What is left to do. -/
def State.rank (state : State) : Nat :=
  state.sender.rank + state.receiver.rank + state.rxStart.rank +
    tally TxWorker.rank state.txWorkers + tally unframed state.framed +
      tally RxWorker.rank state.rxWorkers

variable {threadCount : Int} {state after : State}

theorem Sender.rank_pos {sender : Sender} (alive : sender ≠ .exited) : 0 < sender.rank := by
  cases sender with
  | exited => exact absurd rfl alive
  | spawn i => exact Nat.lt_of_lt_of_le (by decide) (Nat.le_add_right 3 _)
  | init | reply | meminit | started => decide

theorem Receiver.rank_pos {receiver : Receiver} (alive : receiver ≠ .exited) :
    0 < receiver.rank := by
  cases receiver with
  | exited => exact absurd rfl alive
  | init | activePort | ready | started => decide

theorem rank_tx {thread : Thread} (alive : state.sender ≠ .exited)
    (taken : state.tx thread = some after) : after.rank < state.rank := by
  have moved (worker : TxWorker) := tally_update TxWorker.rank state.txWorkers thread worker
  rw [State.tx] at taken
  cases at_worker : state.txWorkers thread with
  | absent | opened => simp [at_worker] at taken
  | starting =>
      simp only [at_worker] at taken
      obtain rfl := Option.some.inj taken
      have less := moved (.numbered state.threadId)
      rw [at_worker] at less
      simp only [State.rank, State.setTx, TxWorker.rank] at less ⊢
      omega
  | numbered id =>
      simp only [at_worker] at taken
      obtain rfl := Option.some.inj taken
      have less := moved (.counted id)
      rw [at_worker] at less
      simp only [State.rank, State.setTx, TxWorker.rank] at less ⊢
      omega
  | counted id =>
      simp only [at_worker] at taken
      split at taken
      · split at taken
        · obtain rfl := Option.some.inj taken
          have less := moved (.connected id)
          rw [at_worker] at less
          simp only [State.rank, State.setTx, TxWorker.rank] at less ⊢
          omega
        · cases taken
      · obtain rfl := Option.some.inj taken
        have positive := Sender.rank_pos alive
        have zero : Sender.exited.rank = 0 := rfl
        simp only [State.rank, zero]
        omega
  | connected id =>
      simp only [at_worker] at taken
      obtain rfl := Option.some.inj taken
      have less := moved (.opened id)
      rw [at_worker] at less
      simp only [State.rank, State.setTx, TxWorker.rank] at less ⊢
      omega

theorem rank_rx {thread : Thread} (taken : state.rx thread = some after) :
    after.rank < state.rank := by
  have moved (worker : RxWorker) := tally_update RxWorker.rank state.rxWorkers thread worker
  rw [State.rx] at taken
  cases at_worker : state.rxWorkers thread with
  | absent | live => simp [at_worker] at taken
  | starting =>
      simp only [at_worker] at taken
      obtain rfl := Option.some.inj taken
      have less := moved (.numbered state.rxThreadId)
      rw [at_worker] at less
      simp only [State.rank, State.setRx, RxWorker.rank] at less ⊢
      omega
  | numbered id =>
      simp only [at_worker] at taken
      obtain ⟨-, moving⟩ := Option.ite_none_right_eq_some.mp taken
      obtain rfl := Option.some.inj moving
      have less := moved (.ready id)
      rw [at_worker] at less
      simp only [State.rank, State.setRx, RxWorker.rank] at less ⊢
      omega
  | ready id =>
      simp only [at_worker] at taken
      obtain ⟨-, moving⟩ := Option.ite_none_right_eq_some.mp taken
      obtain rfl := Option.some.inj moving
      have less := moved (.live id)
      rw [at_worker] at less
      simp only [State.rank, State.setRx, RxWorker.rank] at less ⊢
      omega

theorem rank_accept (inv : Inv threadCount state) {thread : Thread} {rest : List Thread}
    (waiting : state.backlog = thread :: rest) (at_accept : state.rxStart = .accept) :
    (state.accept thread rest).rank < state.rank := by
  have absent : state.rxWorkers thread = .absent := by
    by_contra present
    have nodup := inv.links.nodup
    rw [waiting] at nodup
    exact (List.nodup_append.mp nodup).2.2 thread ((inv.links.present thread).mp present) thread
      List.mem_cons_self rfl
  have less := tally_update RxWorker.rank state.rxWorkers thread .starting
  have rx_le : (if state.receiverCount ≠ 0 ∧ state.receiverCount < ((state.slot + 1) % 32 : Nat)
      then RxStart.returned else .accept).rank ≤ state.rxStart.rank := by
    rw [at_accept]
    split <;> decide
  rw [absent] at less
  simp only [State.rank, State.accept, State.setRx, RxWorker.rank] at less ⊢
  omega

theorem rank_spawn (inv : Inv threadCount state) {i : Nat} (at_spawn : state.sender = .spawn i)
    (taken : state.spawn i = some after) : after.rank < state.rank := by
  rw [State.spawn] at taken
  split at taken
  · rename_i inside
    obtain rfl := Option.some.inj taken
    have absent : state.txWorkers ⟨i, inside⟩ = .absent := by
      by_contra present
      exact absurd (((inv.tx.spawn i at_spawn).2 ⟨i, inside⟩).mp present) (lt_irrefl i)
    have less := tally_update TxWorker.rank state.txWorkers ⟨i, inside⟩ .starting
    have sender_le : (if (i : Int) < state.senderCount then Sender.spawn (i + 1)
        else .meminit).rank ≤ state.sender.rank := by
      rw [at_spawn]
      split
      · change 3 + (30 - (i + 1)) ≤ 3 + (30 - i)
        omega
      · change 2 ≤ 3 + (30 - i)
        omega
    rw [absent] at less
    simp only [State.rank, State.setTx, TxWorker.rank] at less ⊢
    omega
  · cases taken

/-- Each step leaves less to do. -/
theorem rank_next (inv : Inv threadCount state) {label : Label}
    (taken : next state label = some after) : after.rank < state.rank := by
  cases label with
  | sessionInit =>
      obtain ⟨at_init, moving⟩ := Option.ite_none_right_eq_some.mp taken
      obtain rfl := Option.some.inj moving
      simp only [State.rank, at_init, Sender.rank]
      omega
  | readInit =>
      rw [next] at taken
      split at taken
      · cases taken
      · obtain ⟨waiting, moving⟩ := Option.ite_none_right_eq_some.mp taken
        obtain rfl := Option.some.inj moving
        simp only [State.rank, waiting, inv.phase.absent.mpr waiting, Receiver.rank, RxStart.rank]
        omega
  | bind =>
      obtain ⟨⟨-, at_bind⟩, moving⟩ := Option.ite_none_right_eq_some.mp taken
      obtain rfl := Option.some.inj moving
      simp only [State.rank, at_bind, RxStart.rank]
      omega
  | publish =>
      obtain ⟨⟨-, at_publish⟩, moving⟩ := Option.ite_none_right_eq_some.mp taken
      obtain rfl := Option.some.inj moving
      simp only [State.rank, at_publish, RxStart.rank]
      omega
  | reply =>
      obtain ⟨⟨at_port, -⟩, moving⟩ := Option.ite_none_right_eq_some.mp taken
      obtain rfl := Option.some.inj moving
      simp only [State.rank, at_port, Receiver.rank]
      omega
  | readReply =>
      obtain ⟨⟨at_reply, -⟩, moving⟩ := Option.ite_none_right_eq_some.mp taken
      obtain rfl := Option.some.inj moving
      have sender_lt : (if (if state.senderCount = 0 then 1 else state.senderCount) < 30
          then Sender.spawn 0 else .exited).rank < state.sender.rank := by
        rw [at_reply]
        generalize (if state.senderCount = 0 then 1 else state.senderCount) = count
        split <;> decide
      simp only [State.rank, State.txStart] at sender_lt ⊢
      omega
  | readNothing =>
      obtain ⟨⟨at_reply, -⟩, moving⟩ := Option.ite_none_right_eq_some.mp taken
      obtain rfl := Option.some.inj moving
      simp only [State.rank, at_reply, Sender.rank]
      omega
  | spawn =>
      rw [next] at taken
      split at taken
      · rename_i i at_spawn
        exact rank_spawn inv at_spawn taken
      · cases taken
  | meminit =>
      obtain ⟨⟨at_meminit, -⟩, moving⟩ := Option.ite_none_right_eq_some.mp taken
      obtain rfl := Option.some.inj moving
      simp only [State.rank, at_meminit, Sender.rank]
      omega
  | tx thread =>
      obtain ⟨alive, moving⟩ := Option.ite_none_left_eq_some.mp taken
      exact rank_tx alive moving
  | frame thread =>
      obtain ⟨⟨-, -, waiting⟩, moving⟩ := Option.ite_none_right_eq_some.mp taken
      obtain rfl := Option.some.inj moving
      have less := tally_update unframed state.framed thread true
      rw [waiting] at less
      simp only [State.rank, unframed, if_true, Bool.false_eq_true, if_false] at less ⊢
      omega
  | accept =>
      rw [next] at taken
      split at taken
      · cases taken
      · rename_i thread rest waiting
        obtain ⟨⟨-, at_accept⟩, moving⟩ := Option.ite_none_right_eq_some.mp taken
        obtain rfl := Option.some.inj moving
        exact rank_accept inv waiting at_accept
  | rx thread =>
      obtain ⟨-, moving⟩ := Option.ite_none_left_eq_some.mp taken
      exact rank_rx moving
  | ready =>
      obtain ⟨⟨at_ready, -⟩, moving⟩ := Option.ite_none_right_eq_some.mp taken
      obtain rfl := Option.some.inj moving
      simp only [State.rank, at_ready, Receiver.rank]
      omega
  | timeout =>
      obtain ⟨⟨alive, -⟩, moving⟩ := Option.ite_none_right_eq_some.mp taken
      obtain rfl := Option.some.inj moving
      have positive := Receiver.rank_pos alive
      have zero : Receiver.exited.rank = 0 := rfl
      simp only [State.rank, zero]
      omega
  | giveUp =>
      obtain ⟨⟨at_ready, -⟩, moving⟩ := Option.ite_none_right_eq_some.mp taken
      obtain rfl := Option.some.inj moving
      simp only [State.rank, at_ready, Receiver.rank]
      omega

/-! ## Who can go on -/

theorem sum_below {bound : Nat} (le : bound ≤ 30) :
    ∑ thread : Thread, (if thread.val < bound then 1 else 0) = bound := by
  rw [← Finset.card_filter, Fin.card_filter_val_lt, Nat.min_eq_right le]

section Stuck

variable (inv : Inv threadCount state) (stuck : Stuck state)

include inv stuck

/-- A worker that has been created has connected and written its first message. -/
theorem Inv.opens_of_stuck (alive : state.receiver ≠ .exited) (sender : state.sender ≠ .exited)
    {thread : Thread} (present : state.txWorkers thread ≠ .absent) :
    (state.txWorkers thread).Opens := by
  have blocked (after : State) := stuck (.tx thread) after trivial
  simp only [ConnectionStart.next, if_neg sender, State.tx] at blocked
  cases at_worker : state.txWorkers thread with
  | absent => exact absurd at_worker present
  | opened => trivial
  | starting | numbered | connected =>
      simp only [at_worker] at blocked
      exact absurd rfl (blocked _)
  | counted id =>
      have port := inv.phase.published.mp
        (inv.phase.past (.inl (inv.past_of_present sender present)))
      have listens : state.Listens := by
        refine ⟨alive, ?_⟩
        rcases port with at_accept | at_return <;> simp [*]
      have few := inv.links.length_le
      have room : state.backlog.length < 32 := by omega
      simp only [at_worker, if_pos listens, if_pos room] at blocked
      exact absurd rfl (blocked _)

/-- When nobody can go on, the sender has returned from `tx_start`. -/
theorem Inv.started_of_stuck (alive : state.receiver ≠ .exited) (low : 1 ≤ threadCount)
    (high : threadCount ≤ 29) : state.sender = .started := by
  have sender : state.sender ≠ .exited := fun at_exit => by
    rcases inv.phase.refused at_exit with large | gone
    · omega
    · exact alive gone
  cases at_sender : state.sender with
  | started => rfl
  | exited => exact absurd at_sender sender
  | init =>
      have blocked (after : State) := stuck .sessionInit after trivial
      simp only [ConnectionStart.next, if_pos at_sender] at blocked
      exact absurd rfl (blocked _)
  | reply =>
      cases at_receiver : state.receiver with
      | exited => exact absurd at_receiver alive
      | started =>
          obtain ⟨thread, framed⟩ := inv.links.frame (inv.phase.started at_receiver)
          rcases inv.phase.framed thread framed with at_started | at_exit
          · rw [at_started] at at_sender
            cases at_sender
          · exact absurd at_exit sender
      | init =>
          have sent := inv.phase.unread at_sender at_receiver
          have blocked (after : State) := stuck .readInit after trivial
          simp only [ConnectionStart.next, sent, if_pos at_receiver] at blocked
          exact absurd rfl (blocked _)
      | ready =>
          have replied := inv.phase.answered at_sender at_receiver
          have blocked (after : State) := stuck .readReply after trivial
          simp only [ConnectionStart.next, if_pos (And.intro at_sender replied)] at blocked
          exact absurd rfl (blocked _)
      | activePort =>
          cases at_start : state.rxStart with
          | absent => simpa [at_receiver] using inv.phase.absent.mp at_start
          | bind =>
              have blocked (after : State) := stuck .bind after trivial
              simp only [ConnectionStart.next, if_pos (And.intro alive at_start)] at blocked
              exact absurd rfl (blocked _)
          | publish =>
              have blocked (after : State) := stuck .publish after trivial
              simp only [ConnectionStart.next, if_pos (And.intro alive at_start)] at blocked
              exact absurd rfl (blocked _)
          | accept | returned =>
              have port := inv.phase.published.mpr (by simp [at_start])
              have blocked (after : State) := stuck .reply after trivial
              simp only [ConnectionStart.next, if_pos (And.intro at_receiver port)] at blocked
              exact absurd rfl (blocked _)
  | spawn i =>
      obtain ⟨le, -⟩ := inv.tx.spawn i at_sender
      have past : state.sender.Past := by
        rw [at_sender]
        trivial
      have few := (inv.tx.past past).2
      have blocked (after : State) := stuck .spawn after trivial
      have inside : i < 30 := by omega
      simp only [ConnectionStart.next, at_sender, State.spawn, dif_pos inside] at blocked
      exact absurd rfl (blocked _)
  | meminit =>
      have past : state.sender.Past := by
        rw [at_sender]
        trivial
      have count_eq := (inv.tx.past past).1
      rw [if_neg (by omega)] at count_eq
      have full : state.meminit = threadCount.toNat + 1 := by
        rw [inv.tx.meminit_eq]
        refine (Finset.sum_congr rfl fun thread _ => ?_).trans (sum_below (by omega))
        have created := inv.tx.all (.inl at_sender) thread
        rw [count_eq] at created
        split
        · rename_i below
          have opens := inv.opens_of_stuck stuck alive sender (created.mpr below)
          cases at_worker : state.txWorkers thread with
          | opened => rfl
          | absent | starting | numbered | counted | connected =>
              rw [at_worker] at opens
              exact opens.elim
        · rename_i above
          have absent := not_not.mp fun present => above (created.mp present)
          rw [absent]
          rfl
      have blocked (after : State) := stuck .meminit after trivial
      have counted : (state.meminit : Int) = state.senderCount + 1 := by omega
      simp only [ConnectionStart.next, if_pos (And.intro at_sender counted)] at blocked
      exact absurd rfl (blocked _)

/-- When nobody can go on, `rx_start` has returned. -/
theorem Inv.returned_of_stuck (alive : state.receiver ≠ .exited) (low : 1 ≤ threadCount)
    (opens : ∀ thread : Thread, (thread.val : Int) ≤ threadCount →
      (state.txWorkers thread).Opens) (high : threadCount ≤ 29)
    (port : state.activePort = true) : state.rxStart = .returned := by
  refine (inv.phase.published.mp port).resolve_left fun at_accept => ?_
  have empty : state.backlog = [] := by
    cases waiting : state.backlog with
    | nil => rfl
    | cons thread rest =>
        have blocked (after : State) := stuck .accept after trivial
        simp only [ConnectionStart.next, waiting, if_pos (And.intro alive at_accept)] at blocked
        exact absurd rfl (blocked _)
  have accepted (thread : Thread) (below : thread.val < threadCount.toNat + 1) :
      thread ∈ state.accepted := by
    have stands : (state.txWorkers thread).Connects := by
      have opened := opens thread (by omega)
      cases at_worker : state.txWorkers thread with
      | connected | opened => trivial
      | absent | starting | numbered | counted =>
          rw [at_worker] at opened
          exact opened.elim
    have listed := (inv.links.connects thread).mpr stands
    rwa [empty, List.append_nil] at listed
  have many : threadCount.toNat + 1 ≤ state.accepted.length := by
    have subset : (Finset.univ.filter fun thread : Thread => thread.val < threadCount.toNat + 1) ⊆
        state.accepted.toFinset := fun thread mem =>
      List.mem_toFinset.mpr (accepted thread (Finset.mem_filter.mp mem).2)
    have le := (Finset.card_le_card subset).trans (List.toFinset_card_le _)
    rwa [Fin.card_filter_val_lt, Nat.min_eq_right (by omega)] at le
  have counted := inv.phase.counted fun waiting => by
    simpa [at_accept] using inv.phase.absent.mpr waiting
  rcases inv.phase.accepting at_accept with none_accepted | zero | le
  · rw [none_accepted, List.length_nil] at many
    omega
  · omega
  · omega

/-- When nobody can go on, everything is ready. -/
theorem Inv.done_of_stuck (alive : state.receiver ≠ .exited) (low : 1 ≤ threadCount)
    (high : threadCount ≤ 29) : Done threadCount state := by
  have at_started := inv.started_of_stuck stuck alive low high
  have past : state.sender.Past := by
    rw [at_started]
    trivial
  have living : state.sender ≠ .exited := by simp [at_started]
  have port := inv.phase.past (.inl past)
  have count_eq := (inv.tx.past past).1
  rw [if_neg (by omega)] at count_eq
  have opens (thread : Thread) (le : (thread.val : Int) ≤ threadCount) :
      (state.txWorkers thread).Opens := by
    refine inv.opens_of_stuck stuck alive living ((inv.tx.all (.inr at_started) thread).mpr ?_)
    omega
  have framed (thread : Thread) (le : (thread.val : Int) ≤ threadCount) :
      state.framed thread = true := by
    by_contra waiting
    have blocked (after : State) := stuck (.frame thread) after trivial
    simp only [ConnectionStart.next,
      if_pos (And.intro at_started (And.intro (opens thread le) (Bool.eq_false_iff.mpr waiting)))]
      at blocked
    exact absurd rfl (blocked _)
  have at_return := inv.returned_of_stuck stuck alive low opens high port
  have lives (thread : Thread) (le : (thread.val : Int) ≤ threadCount) :
      ∃ id, state.rxWorkers thread = .live id := by
    have present := (inv.links.present thread).mpr
      ((inv.accepted_all low at_return thread).mpr le)
    have blocked (after : State) := stuck (.rx thread) after trivial
    simp only [ConnectionStart.next, if_neg alive, State.rx] at blocked
    cases at_worker : state.rxWorkers thread with
    | absent => exact absurd at_worker present
    | live id => exact ⟨id, rfl⟩
    | starting =>
        simp only [at_worker] at blocked
        exact absurd rfl (blocked _)
    | numbered id =>
        simp only [at_worker, if_pos (opens thread le)] at blocked
        exact absurd rfl (blocked _)
    | ready id =>
        simp only [at_worker, if_pos (framed thread le)] at blocked
        exact absurd rfl (blocked _)
  refine ⟨at_started, ?_, at_return, fun thread le => ⟨opens thread le, lives thread le⟩⟩
  obtain ⟨id, live⟩ := lives ⟨0, by decide⟩ (by simp; omega)
  cases at_receiver : state.receiver with
  | started => rfl
  | exited => exact absurd at_receiver alive
  | init => simpa [at_return] using inv.phase.absent.mpr at_receiver
  | activePort => simpa [at_started] using inv.phase.asked at_receiver
  | ready =>
      have fob := inv.links.live _ id live
      have blocked (after : State) := stuck .ready after trivial
      simp only [ConnectionStart.next, if_pos (And.intro at_receiver fob)] at blocked
      exact absurd rfl (blocked _)

end Stuck

/-! ## Runs in which nobody waits for too long -/

theorem receiver_tx {thread : Thread} (taken : state.tx thread = some after) :
    after.receiver = state.receiver := by
  rw [State.tx] at taken
  cases at_worker : state.txWorkers thread with
  | absent | opened => simp [at_worker] at taken
  | starting | numbered | connected =>
      simp only [at_worker] at taken
      obtain rfl := Option.some.inj taken
      rfl
  | counted =>
      simp only [at_worker] at taken
      split_ifs at taken <;> (obtain rfl := Option.some.inj taken; rfl)

theorem receiver_rx {thread : Thread} (taken : state.rx thread = some after) :
    after.receiver = state.receiver := by
  rw [State.rx] at taken
  cases at_worker : state.rxWorkers thread with
  | absent | live => simp [at_worker] at taken
  | starting =>
      simp only [at_worker] at taken
      obtain rfl := Option.some.inj taken
      rfl
  | numbered | ready =>
      simp only [at_worker] at taken
      obtain ⟨-, moving⟩ := Option.ite_none_right_eq_some.mp taken
      obtain rfl := Option.some.inj moving
      rfl

/-- Only a thread that has waited for too long ends the receiver. -/
theorem alive_next {label : Label} (alive : state.receiver ≠ .exited) (timely : Timely state label)
    (taken : next state label = some after) : after.receiver ≠ .exited := by
  cases label with
  | timeout | giveUp => exact timely.elim
  | sessionInit | readReply | readNothing | meminit | bind | publish | frame =>
      obtain ⟨-, moving⟩ := Option.ite_none_right_eq_some.mp taken
      obtain rfl := Option.some.inj moving
      exact alive
  | reply | ready =>
      obtain ⟨-, moving⟩ := Option.ite_none_right_eq_some.mp taken
      obtain rfl := Option.some.inj moving
      simp
  | readInit =>
      rw [next] at taken
      split at taken
      · cases taken
      · obtain ⟨-, moving⟩ := Option.ite_none_right_eq_some.mp taken
        obtain rfl := Option.some.inj moving
        simp
  | spawn =>
      rw [next] at taken
      split at taken
      · rw [State.spawn] at taken
        split at taken
        · obtain rfl := Option.some.inj taken
          exact alive
        · cases taken
      · cases taken
  | tx thread =>
      obtain ⟨-, moving⟩ := Option.ite_none_left_eq_some.mp taken
      rw [receiver_tx moving]
      exact alive
  | accept =>
      rw [next] at taken
      split at taken
      · cases taken
      · obtain ⟨-, moving⟩ := Option.ite_none_right_eq_some.mp taken
        obtain rfl := Option.some.inj moving
        exact alive
  | rx thread =>
      obtain ⟨-, moving⟩ := Option.ite_none_left_eq_some.mp taken
      rw [receiver_rx moving]
      exact alive

theorem alive_of_timely (reached : (machine threadCount).ReachedUnder Timely state) :
    state.receiver ≠ .exited := by
  refine reached.invariant (fun state => state.receiver ≠ .exited) ?_ ?_
  · rintro _ rfl
    simp [State.init]
  · intro before label after alive timely taken
    exact alive_next alive timely taken

/-- A run that keeps a property ends where nobody can go on. -/
theorem exists_stuck {Keep : State → Prop}
    (keep : ∀ before label after, Keep before → next before label = some after → Keep after)
    (reached : (machine threadCount).ReachedUnder Timely state) (kept : Keep state) :
    ∃ final, (machine threadCount).ReachedUnder Timely final ∧ Keep final ∧ Stuck final := by
  induction left : state.rank using Nat.strong_induction_on generalizing state with
  | _ rank ih =>
      by_cases stuck : Stuck state
      · exact ⟨state, reached, kept, stuck⟩
      · simp only [Stuck, not_forall, not_not] at stuck
        obtain ⟨label, after, timely, taken⟩ := stuck
        have less := rank_next (inv_reached reached.reached) taken
        exact ih after.rank (left ▸ less) (.step reached timely taken)
          (keep state label after kept taken) rfl

/-- A run is no longer than what there is to do. -/
theorem length_le_of_run {labels : List Label} (reached : (machine threadCount).Reached state)
    (ran : (machine threadCount).run state labels = some after) :
    labels.length + after.rank ≤ state.rank := by
  induction labels generalizing state with
  | nil =>
      obtain rfl := Option.some.inj ran
      exact (Nat.zero_add _).le
  | cons label labels ih =>
      rw [Machine.run_cons] at ran
      obtain ⟨middle, taken, rest⟩ := Option.bind_eq_some_iff.mp ran
      have less := rank_next (inv_reached reached) taken
      have shorter := ih (.step reached trivial taken) rest
      rw [List.length_cons]
      omega

theorem rank_init (threadCount : Int) : (State.init threadCount).rank = 343 := by
  simp [State.rank, State.init, tally, Sender.rank, Receiver.rank, RxStart.rank, TxWorker.rank,
    RxWorker.rank, unframed]

/-! ## Numbers of threads with which a start does not complete -/

instance (state : State) (label : Label) : Decidable (Timely state label) := by
  cases label <;> first | exact instDecidableFalse | exact instDecidableTrue

/-- `tx_start` waits for more workers than there will be. -/
def Overshot (state : State) : Prop :=
  (state.sender = .meminit ∨ state.sender = .exited) ∧ 0 < state.meminit ∧ state.senderCount = -1

theorem overshot_tx {thread : Thread} (overshot : Overshot state)
    (taken : state.tx thread = some after) : Overshot after := by
  obtain ⟨sender, positive, count_eq⟩ := overshot
  rw [State.tx] at taken
  cases at_worker : state.txWorkers thread with
  | absent | opened => simp [at_worker] at taken
  | starting | connected =>
      simp only [at_worker] at taken
      obtain rfl := Option.some.inj taken
      exact ⟨sender, positive, count_eq⟩
  | numbered =>
      simp only [at_worker] at taken
      obtain rfl := Option.some.inj taken
      exact ⟨sender, Nat.succ_pos _, count_eq⟩
  | counted =>
      simp only [at_worker] at taken
      split_ifs at taken
      · obtain rfl := Option.some.inj taken
        exact ⟨sender, positive, count_eq⟩
      · obtain rfl := Option.some.inj taken
        exact ⟨.inr rfl, positive, count_eq⟩

theorem overshot_rx {thread : Thread} (overshot : Overshot state)
    (taken : state.rx thread = some after) : Overshot after := by
  rw [State.rx] at taken
  cases at_worker : state.rxWorkers thread with
  | absent | live => simp [at_worker] at taken
  | starting =>
      simp only [at_worker] at taken
      obtain rfl := Option.some.inj taken
      exact overshot
  | numbered | ready =>
      simp only [at_worker] at taken
      obtain ⟨-, moving⟩ := Option.ite_none_right_eq_some.mp taken
      obtain rfl := Option.some.inj moving
      exact overshot

theorem overshot_next {label : Label} (overshot : Overshot state)
    (taken : next state label = some after) : Overshot after := by
  obtain ⟨sender, positive, count_eq⟩ := id overshot
  cases label with
  | sessionInit | readReply | readNothing | frame =>
      obtain ⟨guard, -⟩ := Option.ite_none_right_eq_some.mp taken
      rcases sender with at_meminit | at_exit
      · simp [at_meminit] at guard
      · simp [at_exit] at guard
  | meminit =>
      obtain ⟨⟨-, full⟩, -⟩ := Option.ite_none_right_eq_some.mp taken
      omega
  | spawn =>
      rw [next] at taken
      split at taken
      · rename_i at_spawn
        rcases sender with at_meminit | at_exit
        · simp [at_meminit] at at_spawn
        · simp [at_exit] at at_spawn
      · cases taken
  | bind | publish | reply | ready | timeout | giveUp =>
      obtain ⟨-, moving⟩ := Option.ite_none_right_eq_some.mp taken
      obtain rfl := Option.some.inj moving
      exact overshot
  | readInit | accept =>
      rw [next] at taken
      split at taken
      · cases taken
      · obtain ⟨-, moving⟩ := Option.ite_none_right_eq_some.mp taken
        obtain rfl := Option.some.inj moving
        exact overshot
  | tx thread =>
      obtain ⟨-, moving⟩ := Option.ite_none_left_eq_some.mp taken
      exact overshot_tx overshot moving
  | rx thread =>
      obtain ⟨-, moving⟩ := Option.ite_none_left_eq_some.mp taken
      exact overshot_rx overshot moving

/-- The one worker of a start with -1 threads has its memory before `tx_start` looks. -/
def overshooting : List Label :=
  [.sessionInit, .readInit, .bind, .publish, .reply, .readReply, .spawn, .tx 0, .tx 0]

theorem overshot_of_run : ∃ state, (machine (-1)).ReachedUnder Timely state ∧ Overshot state := by
  have ran : ∃ state ∈ ((machine (-1)).restrict Timely).run (State.init (-1)) overshooting,
      state.sender = .meminit ∧ 0 < state.meminit ∧ state.senderCount = -1 := by
    decide +kernel
  obtain ⟨state, run, sender, positive, count_eq⟩ := ran
  exact ⟨state, .of_restrict (Machine.reached_of_run rfl _ run), .inl sender, positive, count_eq⟩

theorem Done.threadCount_bounds (reached : (machine threadCount).ReachedUnder Timely state)
    (finished : Done threadCount state) :
    (1 ≤ threadCount ∧ threadCount ≤ 29) ∨ threadCount = -1 := by
  have inv := inv_reached reached.reached
  have past : state.sender.Past := by
    rw [finished.sender]
    trivial
  obtain ⟨count_eq, few⟩ := inv.tx.past past
  have zero := (inv.phase.returned finished.rxStart).1
  rw [inv.phase.counted (by simp [finished.receiver])] at zero
  rw [if_neg zero] at count_eq
  have room := inv.tx.started finished.sender
  omega

/-- A start takes at most 343 steps, and when nobody waits for too long it always ends with both
ends ready exactly if there are 1 to 29 threads. -/
theorem start_completes_iff (threadCount : Int) :
    (∀ labels state, (machine threadCount).run (State.init threadCount) labels = some state →
      labels.length ≤ 343) ∧
    ((∀ state, (machine threadCount).ReachedUnder Timely state → Stuck state →
      Done threadCount state) ↔ 1 ≤ threadCount ∧ threadCount ≤ 29) := by
  refine ⟨fun labels state ran => ?_, fun completes => ?_,
    fun ⟨low, high⟩ state reached stuck => ?_⟩
  · have within := length_le_of_run (.start rfl) ran
    rw [rank_init] at within
    omega
  · have initial : (machine threadCount).ReachedUnder Timely (State.init threadCount) := .start rfl
    obtain ⟨state, reached, -, stuck⟩ := exists_stuck (fun _ _ _ _ _ => trivial) initial trivial
    rcases (completes state reached stuck).threadCount_bounds reached with bounds | rfl
    · exact bounds
    · obtain ⟨early, early_reached, overshot⟩ := overshot_of_run
      obtain ⟨final, final_reached, kept, final_stuck⟩ :=
        exists_stuck (fun _ _ _ overshot taken => overshot_next overshot taken) early_reached
          overshot
      have at_started := (completes final final_reached final_stuck).sender
      rcases kept.1 with at_meminit | at_exit
      · rw [at_started] at at_meminit
        cases at_meminit
      · rw [at_started] at at_exit
        cases at_exit
  · exact (inv_reached reached.reached).done_of_stuck stuck (alive_of_timely reached) low high

end ConnectionStart
end EScp
