import EScp.Residue
import EScp.Session

/-!
# The sender in a session

In a session every file is finished once, `fc_worker` goes on, and the receiver reports no errors.
What the sender does between two messages is then said once: it handles confirmations, and the
records of finished files go through `fc2_out` into completion messages, none of them twice.
-/

namespace EScp
namespace Session

open Confirmation (Entry FcWorker Main)

/-! ## The records of finished files -/

/-- The record between the two sends of `fc_worker`. -/
def betweenSends : FcWorker → List (UInt64 × UInt64)
  | .sendBlocks fino blocks => [(fino, blocks)]
  | _ => []

/-- The records in completion messages and on their way there. -/
def records (sender : Confirmation.State) : List (UInt64 × UInt64) :=
  sender.completed ++ (sender.main.taken ++ (sender.fc2Out ++ betweenSends sender.worker))

/-- Nothing has ended the sender but a checksum that differs, and nothing will. -/
structure Healthy (sender : Confirmation.State) : Prop where
  worker : sender.worker ≠ .returned
  main : sender.main ≠ .exited
  inbox : ∀ message ∈ sender.inbox, message ≠ .failure ∧
    ∀ entry ∈ message.entries, entry.errno = 0
  handled : ∀ files, sender.main = .handle files → ∀ entry ∈ files, entry.errno = 0

variable {total : Nat} (plan : Plan total)

/-- What is finished, each file once and with its own record. -/
structure Finished (sender : Confirmation.State) : Prop where
  distinct : ((records sender).map Prod.fst).Nodup
  known : ∀ record ∈ records sender, ∃ index, record = plan.record index ∧
    sender.delivered (fino index) ≠ none
  all : ∀ index : Fin total, sender.delivered (fino index) ≠ none →
    plan.record index ∈ records sender
  crc : ∀ index value, sender.delivered (fino index) = some value → value = plan.crc index

/-- What a step of the sender keeps that neither takes a file from the lister nor a message. -/
structure Kept (before after : Confirmation.State) : Prop where
  announced : after.announced = before.announced
  confirmed : after.confirmed = before.confirmed
  completed : before.completed <+: after.completed
  stage : after.stage = before.stage ∨ before.stage ≠ .iterateFiles ∧ after.stage = .final
  left : before.main = .left → after.main = .left
  gone : after.main = .left → before.main = .left ∨ before.stage = .final
  healthy : Healthy after

/-- What it keeps when no file is finished. -/
structure Moved (before after : Confirmation.State) : Prop extends Kept before after where
  delivered : after.delivered = before.delivered
  records : (records after).Perm (records before)

variable {plan} {sender after : Confirmation.State}

/-! ## Numbers -/

theorem toNat_fino (small : total < 2 ^ 64) (index : Fin total) :
    (fino index).toNat = index + 1 := by
  have inside := index.isLt
  rw [fino, UInt64.toNat_ofNat']
  exact Nat.mod_eq_of_lt (by omega)

theorem fino_ne_zero (small : total < 2 ^ 64) (index : Fin total) : fino index ≠ 0 := by
  intro zero
  have number := toNat_fino small index
  rw [zero] at number
  exact absurd number.symm (Nat.succ_ne_zero _)

theorem fino_inj (small : total < 2 ^ 64) {left right : Fin total} (same : fino left = fino right) :
    left = right := by
  have numbers := congrArg UInt64.toNat same
  rw [toNat_fino small, toNat_fino small] at numbers
  exact Fin.ext (by omega)

namespace Plan

theorem record_inj (small : total < 2 ^ 64) {left right : Fin total}
    (same : (plan.record left).1 = (plan.record right).1) : left = right :=
  fino_inj small same

@[simp] theorem transfer_fino (index : Fin total) : plan.transfer.fino index = index + 1 := by
  have numbers := plan.numbered index
  simp only [ReceiveFiles.Transfer.fino, transfer, IterateFiles.Args.entry]
  split <;> exact numbers

theorem ofNat_fino (index : Fin total) : UInt64.ofNat (plan.transfer.fino index) = fino index := by
  rw [transfer_fino, fino]

/-- The entry for a record is the completion entry of its file. -/
theorem completionEntry_record (index : Fin total) :
    completionEntry (plan.record index) = plan.transfer.completion index := by
  have number := toNat_fino plan.total_lt index
  have small := plan.blocks_lt index
  have blocks : (UInt64.ofNat (plan.blocks index)).toNat = plan.blocks index := by
    rw [UInt64.toNat_ofNat']
    exact Nat.mod_eq_of_lt (by omega)
  have signed : (UInt64.ofNat (plan.blocks index)).toInt64.toInt = plan.blocks index := by
    rw [toInt_toInt64_of_lt (by omega), blocks]
  rw [completionEntry, ReceiveFiles.Transfer.completion, transfer_fino]
  simp only [record, number, signed]
  rfl

end Plan

/-! ## The steps of `handle_msg_from_receiver` -/

/-- The comparison with a checksum that is in the map. -/
theorem compare_cases {entry : Entry} (files : List Entry) {stored : Int × String}
    (found : sender.hm entry.fino = some stored) :
    ∃ hm filesOk checked main, sender.compare entry files =
        { sender with hm := hm, filesOk := filesOk, checked := checked, main := main } ∧
      (main = .failed ∨ main = .handle files) := by
  obtain ⟨crc, name⟩ := stored
  rw [Confirmation.State.compare, found]
  dsimp only
  split
  · exact ⟨sender.hm, sender.filesOk, _, .failed, rfl, .inl rfl⟩
  · exact ⟨_, _, _, .handle files, rfl, .inr rfl⟩

/-- The search goes on while `fc_worker` does. -/
theorem search_nil (worker : sender.worker ≠ .returned) (empty : sender.fcOut = [])
    (entry : Entry) (files : List Entry) : sender.search entry files = sender := by
  rw [Confirmation.State.search, empty]
  dsimp only
  cases at_worker : sender.worker with
  | returned => exact absurd at_worker worker
  | pop | sendBlocks _ _ => rfl

/-- A turn for an entry without error, while `fc_worker` goes on. -/
theorem handle_cases (worker : sender.worker ≠ .returned) {entry : Entry} {files : List Entry}
    (at_handle : sender.main = .handle (entry :: files)) (no_error : entry.errno = 0) :
    ∃ fcOut hm filesOk checked main, sender.handle entry files =
        { sender with
          fcOut := fcOut, hm := hm, filesOk := filesOk, checked := checked, main := main } ∧
      (main = .failed ∨ main = .handle files ∨ main = .handle (entry :: files)) := by
  have searches : ∃ fcOut hm filesOk checked main, sender.search entry files =
      { sender with
        fcOut := fcOut, hm := hm, filesOk := filesOk, checked := checked, main := main } ∧
      (main = .failed ∨ main = .handle files ∨ main = .handle (entry :: files)) := by
    cases fcOut_eq : sender.fcOut with
    | nil =>
        exact ⟨sender.fcOut, sender.hm, sender.filesOk, sender.checked, sender.main,
          search_nil worker fcOut_eq entry files, .inr (.inr at_handle)⟩
    | cons record rest =>
        obtain ⟨txFino, crc⟩ := record
        rw [Confirmation.State.search, fcOut_eq]
        dsimp only
        split
        · rename_i same
          obtain ⟨name, found⟩ :=
            Confirmation.State.insertCrc_self { sender with fcOut := rest } txFino crc
          rw [← same] at found
          obtain ⟨hm, filesOk, checked, main, compared, ended⟩ :=
            compare_cases files found
          rw [← same, compared]
          exact ⟨rest, hm, filesOk, checked, main, rfl, ended.imp_right .inl⟩
        · exact ⟨rest, _, sender.filesOk, sender.checked, sender.main, rfl,
            .inr (.inr at_handle)⟩
  rw [Confirmation.State.handle, if_neg (by omega)]
  split
  · exact ⟨sender.fcOut, sender.hm, _, _, .handle files, rfl, .inr (.inl rfl)⟩
  · cases found : sender.hm entry.fino with
    | none => exact searches
    | some stored =>
        dsimp only
        split
        · obtain ⟨hm, filesOk, checked, main, compared, ended⟩ :=
            compare_cases files found
          exact ⟨sender.fcOut, hm, filesOk, checked, main, compared, ended.imp_right .inl⟩
        · exact searches

/-- `send_file_complete` sends what it has when there is nothing more. -/
theorem complete_nil (worker : sender.worker ≠ .returned) (empty : sender.fc2Out = [])
    (vec : List (UInt64 × UInt64)) : sender.complete vec = sender.sendComplete vec := by
  rw [Confirmation.State.complete, empty]
  dsimp only
  cases at_worker : sender.worker with
  | returned => exact absurd at_worker worker
  | pop | sendBlocks _ _ => rfl

/-- What the main thread does when it goes on in `file_check`. -/
theorem work_cases (healthy : Healthy sender) (taken : sender.work = some after) :
    (∃ files fcOut hm filesOk checked main, sender.main = .handle files ∧
      after = { sender with
        fcOut := fcOut, hm := hm, filesOk := filesOk, checked := checked, main := main } ∧
      (main = .failed ∨ main = .loop ∨ ∃ rest, main = .handle rest ∧ rest ⊆ files)) ∨
    (∃ vec record rest, sender.main = .complete vec ∧ sender.fc2Out = record :: rest ∧
      after = { sender with fc2Out := rest, main := .complete (vec ++ [record]) }) ∨
    ∃ vec more rest, sender.main = .complete vec ∧ sender.fc2Out = more ++ rest ∧
      after = { sender with
        fc2Out := rest
        main := .loop
        completed := sender.completed ++
          (vec ++ more).insertionSort fun left right => left.1 ≤ right.1 } := by
  rw [Confirmation.State.work] at taken
  cases at_main : sender.main with
  | handle files =>
      refine .inl ?_
      rw [at_main] at taken
      cases files with
      | nil =>
          obtain rfl := Option.some.inj taken
          exact ⟨[], sender.fcOut, sender.hm, sender.filesOk, sender.checked, .loop, rfl, rfl,
            .inr (.inl rfl)⟩
      | cons entry files =>
          obtain rfl := Option.some.inj taken
          have no_error := healthy.handled _ at_main entry List.mem_cons_self
          obtain ⟨fcOut, hm, filesOk, checked, main, handled, ended⟩ :=
            handle_cases healthy.worker at_main no_error
          refine ⟨entry :: files, fcOut, hm, filesOk, checked, main, rfl, handled, ?_⟩
          rcases ended with failed | rfl | rfl
          · exact .inl failed
          · exact .inr (.inr ⟨files, rfl, List.subset_cons_self entry files⟩)
          · exact .inr (.inr ⟨entry :: files, rfl, List.Subset.refl _⟩)
  | complete vec =>
      refine .inr ?_
      rw [at_main] at taken
      obtain rfl := Option.some.inj taken
      cases fc2Out_eq : sender.fc2Out with
      | nil =>
          refine .inr ⟨vec, [], [], rfl, rfl, ?_⟩
          rw [complete_nil healthy.worker fc2Out_eq, List.append_nil, ← fc2Out_eq]
          rfl
      | cons record rest =>
          rw [Confirmation.State.complete, fc2Out_eq]
          dsimp only
          split
          · exact .inr ⟨vec, [record], rest, rfl, rfl, rfl⟩
          · exact .inl ⟨vec, record, rest, rfl, rfl, rfl⟩
  | loop | failed | exited | left =>
      rw [at_main] at taken
      cases taken

/-! ## What the sender keeps -/

theorem reached_next {label : Confirmation.Label} (reached : Confirmation.machine.Reached sender)
    (taken : Confirmation.next sender label = some after) : Confirmation.machine.Reached after :=
  .step reached trivial taken

theorem confirmation_inv (reached : Confirmation.machine.Reached sender) :
    Confirmation.Inv sender := by
  refine reached.invariant Confirmation.Inv ?_ fun _ _ _ inv _ taken => inv.next taken
  rintro _ rfl
  exact Confirmation.inv_init

/-- The main thread moves on, and what is on its way to a completion message stays. -/
theorem Healthy.move (healthy : Healthy sender) {main : Main} {inbox : List Confirmation.Message}
    (at_work : sender.main ≠ .left) (going : main ≠ .exited) (staying : main ≠ .left)
    (same : main.taken = sender.main.taken) (fewer : inbox ⊆ sender.inbox)
    (handled : ∀ files, main = .handle files → ∀ entry ∈ files, entry.errno = 0)
    (fcOut : List (UInt64 × UInt32)) (hm : UInt64 → Option (Int × String)) (filesOk : Nat)
    (checked : List Entry) :
    Moved sender { sender with main, inbox, fcOut, hm, filesOk, checked } where
  announced := rfl
  confirmed := rfl
  completed := List.prefix_rfl
  stage := .inl rfl
  left at_left := absurd at_left at_work
  gone at_left := absurd at_left staying
  healthy := ⟨healthy.worker, going, fun message mem => healthy.inbox message (fewer mem), handled⟩
  delivered := rfl
  records := by
    rw [records, same]
    exact List.Perm.refl _

theorem Healthy.work (healthy : Healthy sender) (taken : sender.work = some after) :
    Moved sender after := by
  rcases work_cases healthy taken with
    ⟨files, fcOut, hm, filesOk, checked, main, at_main, rfl, ended⟩ |
    ⟨vec, record, rest, at_main, fc2Out_eq, rfl⟩ |
    ⟨vec, more, rest, at_main, fc2Out_eq, rfl⟩
  · have handled : ∀ others, main = .handle others → ∀ entry ∈ others, entry.errno = 0 := by
      rintro others rfl entry mem
      rcases ended with failed | looping | ⟨rest, at_rest, subset⟩
      · cases failed
      · cases looping
      · obtain rfl := Main.handle.inj at_rest
        exact healthy.handled files at_main entry (subset mem)
    have shape : main ≠ .exited ∧ main ≠ .left ∧ main.taken = sender.main.taken := by
      rw [at_main]
      rcases ended with rfl | rfl | ⟨rest, rfl, -⟩ <;> simp [Main.taken]
    exact healthy.move (by simp [at_main]) shape.1 shape.2.1 shape.2.2 (List.Subset.refl _) handled
      fcOut hm filesOk checked
  · refine ⟨⟨rfl, rfl, List.prefix_rfl, .inl rfl, ?_, by simp,
      ⟨healthy.worker, by simp, healthy.inbox, by simp⟩⟩, rfl, ?_⟩
    · simp [at_main]
    · simp [records, at_main, fc2Out_eq, Main.taken]
  · refine ⟨⟨rfl, rfl, List.prefix_append _ _, .inl rfl, ?_, by simp,
      ⟨healthy.worker, by simp, healthy.inbox, by simp⟩⟩, rfl, ?_⟩
    · simp [at_main]
    · have sorted := List.perm_insertionSort
        (fun left right : UInt64 × UInt64 => left.1 ≤ right.1) (vec ++ more)
      simp only [records, at_main, fc2Out_eq, Main.taken, List.append_assoc, List.nil_append]
      refine ((sorted.append_right (rest ++ betweenSends sender.worker)).append_left _).trans ?_
      rw [List.append_assoc]

theorem Healthy.check (healthy : Healthy sender) (at_loop : sender.main = .loop) :
    Moved sender sender.check := by
  have at_work : sender.main ≠ .left := by simp [at_loop]
  have no_files : ∀ files, sender.main ≠ .handle files := by simp [at_loop]
  have taken : sender.main.taken = [] := by rw [at_loop]; rfl
  rw [Confirmation.State.check]
  cases inbox_eq : sender.inbox with
  | nil =>
      have going : Main.complete [] ≠ .exited ∧ Main.complete [] ≠ .left := by simp
      have unhandled : ∀ files, Main.complete [] = .handle files →
          ∀ entry ∈ files, entry.errno = 0 := by simp
      exact healthy.move at_work going.1 going.2 taken.symm (List.nil_subset _) unhandled
        sender.fcOut sender.hm sender.filesOk sender.checked
  | cons message rest =>
      have fewer : rest ⊆ sender.inbox := by
        rw [inbox_eq]
        exact List.subset_cons_self message rest
      have first := healthy.inbox message (inbox_eq ▸ List.mem_cons_self)
      cases message with
      | failure => exact absurd rfl first.1
      | fileStat files =>
          have handled : ∀ others, Main.handle files = .handle others →
              ∀ entry ∈ others, entry.errno = 0 := by
            intro others at_handle
            obtain rfl := Main.handle.inj at_handle
            exact first.2
          have going : Main.handle files ≠ .exited ∧ Main.handle files ≠ .left := by simp
          exact healthy.move at_work going.1 going.2 taken.symm fewer handled sender.fcOut
            sender.hm sender.filesOk sender.checked
      | keepalive | unexpected =>
          exact healthy.move at_work healthy.main at_work rfl fewer
            (fun files at_handle => absurd at_handle (no_files files)) sender.fcOut sender.hm
            sender.filesOk sender.checked

/-- A step of the sender on its own, other than `fc_pop`. -/
inductive Alone : Confirmation.Label → Prop
  | sendBlocks : Alone .sendBlocks
  | check : Alone .check
  | work : Alone .work
  | leave : Alone .leave

theorem Healthy.next (healthy : Healthy sender) {label : Confirmation.Label} (alone : Alone label)
    (taken : Confirmation.next sender label = some after) : Moved sender after := by
  cases alone with
  | sendBlocks =>
      simp only [Confirmation.next] at taken
      split at taken
      · rename_i fino blocks at_send
        obtain rfl := Option.some.inj taken
        refine ⟨⟨rfl, rfl, List.prefix_rfl, .inl rfl, id, .inl,
          ⟨by simp, healthy.main, healthy.inbox, healthy.handled⟩⟩, rfl, ?_⟩
        simp [records, at_send, betweenSends]
      · cases taken
  | check =>
      obtain ⟨at_loop, taken⟩ := Option.ite_none_right_eq_some.mp taken
      obtain rfl := Option.some.inj taken
      exact healthy.check at_loop
  | work => exact healthy.work taken
  | leave =>
      obtain ⟨⟨at_loop, at_final, -⟩, taken⟩ := Option.ite_none_right_eq_some.mp taken
      obtain rfl := Option.some.inj taken
      refine ⟨⟨rfl, rfl, List.prefix_rfl, .inl rfl, fun _ => rfl, fun _ => .inr at_final,
        ⟨healthy.worker, by simp, healthy.inbox, by simp⟩⟩, rfl, ?_⟩
      rw [records, records, at_loop]
      exact List.Perm.refl _

theorem Healthy.advance (healthy : Healthy sender) (at_progress : sender.stage = .progress)
    (taken : Confirmation.next sender .advance = some after) : Moved sender after := by
  obtain ⟨at_loop, taken⟩ := Option.ite_none_right_eq_some.mp taken
  obtain rfl := Option.some.inj taken
  refine ⟨⟨rfl, rfl, List.prefix_rfl, .inr ⟨by simp [at_progress], ?_⟩, id, .inl,
    ⟨healthy.worker, healthy.main, healthy.inbox, healthy.handled⟩⟩, rfl, List.Perm.refl _⟩
  rw [at_progress]

theorem Finished.moved (finished : Finished plan sender) (moved : Moved sender after) :
    Finished plan after where
  distinct := (moved.records.map Prod.fst).nodup_iff.mpr finished.distinct
  known record mem := by
    rw [moved.delivered]
    exact finished.known record (moved.records.mem_iff.mp mem)
  all index known := by
    rw [moved.delivered] at known
    exact moved.records.mem_iff.mpr (finished.all index known)
  crc index value known := finished.crc index value (moved.delivered ▸ known)

/-- A file is finished. -/
theorem Finished.pop (finished : Finished plan sender) (healthy : Healthy sender)
    {index : Fin total}
    (taken : Confirmation.next sender
      (.pop (fino index) (plan.crc index) (plan.record index).2) = some after) :
    Kept sender after ∧ Finished plan after := by
  simp only [Confirmation.next] at taken
  split at taken
  · rename_i at_pop
    obtain ⟨⟨-, fresh⟩, taken⟩ := Option.ite_none_right_eq_some.mp taken
    obtain rfl := Option.some.inj taken
    have records_eq : records (sender.deliver (fino index) (plan.crc index) (plan.record index).2) =
        records sender ++ [plan.record index] := by
      simp [records, Confirmation.State.deliver, at_pop, betweenSends, Plan.record]
    have known_before : ∀ other : Fin total, sender.delivered (fino other) ≠ none →
        (sender.deliver (fino index) (plan.crc index) (plan.record index).2).delivered
          (fino other) = sender.delivered (fino other) :=
      fun other known => sender.deliver_known fresh _ _ known
    have going : (sender.deliver (fino index) (plan.crc index) (plan.record index).2).worker ≠
        .returned := by simp [Confirmation.State.deliver]
    refine ⟨⟨rfl, rfl, List.prefix_rfl, .inl rfl, id, .inl,
      ⟨going, healthy.main, healthy.inbox, healthy.handled⟩⟩, ?_, ?_, ?_, ?_⟩
    · rw [records_eq, List.map_append, List.nodup_append]
      refine ⟨finished.distinct, List.nodup_singleton _, ?_⟩
      rintro number mem other last rfl
      obtain ⟨record, listed, rfl⟩ := List.mem_map.mp mem
      obtain ⟨earlier, rfl, known⟩ := finished.known record listed
      have same : fino earlier = fino index := List.mem_singleton.mp last
      exact known (same ▸ fresh)
    · intro record mem
      rw [records_eq] at mem
      rcases List.mem_append.mp mem with earlier | last
      · obtain ⟨other, rfl, known⟩ := finished.known record earlier
        exact ⟨other, rfl, (known_before other known).trans_ne known⟩
      · exact ⟨index, List.mem_singleton.mp last, by simp⟩
    · intro other known
      rw [records_eq]
      by_cases same : other = index
      · exact List.mem_append_right _ (by simp [same])
      · refine List.mem_append_left _ (finished.all other fun unknown => known ?_)
        have ne : fino other ≠ fino index := fun equal => same (fino_inj plan.total_lt equal)
        exact (Function.update_of_ne ne ..).trans unknown
    · intro other value known
      by_cases same : other = index
      · subst same
        rw [sender.deliver_self] at known
        exact (Option.some.inj known).symm
      · have ne : fino other ≠ fino index := fun equal => same (fino_inj plan.total_lt equal)
        exact finished.crc other value ((Function.update_of_ne ne ..).symm.trans known)
  · cases taken

end Session
end EScp
