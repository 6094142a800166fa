import EScp.SessionSender
import Mathlib.Data.Set.List

/-!
# What the sender has told

The sender tells of a file twice, with a spec and with a completion, and each direction of the
metadata connection keeps the order.  So what the receiver has heard is an initial part of what the
sender has told, and the rest is on its way.
-/

namespace EScp
namespace Session

open ReceiveFiles (FileEntry FileInformation)

/-! ## What is told and what is heard -/

/-- The specs of a message. -/
def Message.specs : Message → List FileEntry
  | .fileSpec (some _) files => files
  | _ => []

/-- The completions of a message. -/
def Message.completions : Message → List FileEntry
  | .fileSpec none files => files
  | _ => []

variable {total : Nat}

/-- Entries of distinct files are told in an order; the flags are of those heard, and the others are
on their way. -/
def Told (entry : Fin total → FileEntry) (told pending : List FileEntry)
    (flags : Fin total → Bool) : Prop :=
  ∃ heard waiting : List (Fin total), (heard ++ waiting).Nodup ∧
    told = (heard ++ waiting).map entry ∧ pending = waiting.map entry ∧
      ∀ index, flags index = true ↔ index ∈ heard

section Told

variable {entry : Fin total → FileEntry} {told pending : List FileEntry} {flags : Fin total → Bool}

theorem Told.init : Told entry [] [] fun _ => false :=
  ⟨[], [], List.nodup_nil, rfl, rfl, by simp⟩

/-- More is told. -/
theorem Told.grow (account : Told entry told pending flags) (injective : Function.Injective entry)
    {more : List FileEntry} {order : List (Fin total)} (distinct : order.Nodup)
    (grown : told ++ more = order.map entry) :
    Told entry (told ++ more) (pending ++ more) flags := by
  obtain ⟨heard, waiting, -, rfl, rfl, flagged⟩ := account
  obtain ⟨front, last, rfl, front_eq, rfl⟩ := List.map_eq_append_iff.mp grown.symm
  obtain rfl : front = heard ++ waiting := injective.list_map front_eq
  refine ⟨heard, waiting ++ last, ?_, ?_, ?_, flagged⟩
  · rwa [← List.append_assoc]
  · rw [grown, List.append_assoc]
  · rw [List.map_append]

/-- The next entry is heard. -/
theorem Told.hear {first : FileEntry} {rest : List FileEntry}
    (account : Told entry told (first :: rest) flags) :
    ∃ index, first = entry index ∧ flags index = false ∧
      Told entry told rest (Function.update flags index true) := by
  obtain ⟨heard, waiting, distinct, told_eq, pending_eq, flagged⟩ := account
  obtain ⟨index, waiting, rfl, rfl, rfl⟩ := List.map_eq_cons_iff.mp pending_eq.symm
  refine ⟨index, rfl, ?_, heard ++ [index], waiting, ?_, ?_, rfl, fun other => ?_⟩
  · rw [← Bool.not_eq_true, flagged]
    exact fun mem => (List.nodup_append.mp distinct).2.2 _ mem _ List.mem_cons_self rfl
  · rwa [List.append_assoc]
  · rw [told_eq, List.append_assoc]
    rfl
  · by_cases same : other = index
    · simp [same]
    · simp [same, flagged]

/-- What has been heard was told. -/
theorem Told.mem (account : Told entry told pending flags) {index : Fin total}
    (heard : flags index = true) : entry index ∈ told := by
  obtain ⟨before, waiting, -, rfl, -, flagged⟩ := account
  exact List.mem_map_of_mem (List.mem_append_left _ ((flagged index).mp heard))

/-- When nothing is on its way, what was told has been heard. -/
theorem Told.heard (account : Told entry told [] flags) (injective : Function.Injective entry)
    {index : Fin total} (mem : entry index ∈ told) : flags index = true := by
  obtain ⟨heard, waiting, -, rfl, pending_eq, flagged⟩ := account
  obtain rfl := List.map_eq_nil_iff.mp pending_eq.symm
  rw [List.append_nil, List.mem_map] at mem
  obtain ⟨other, listed, same⟩ := mem
  exact (flagged index).mpr (injective same ▸ listed)

end Told

namespace State

variable {plan : Plan total} {Thread : Type*}

/-- The specs that the receiver has not handled. -/
def specsLeft (state : State plan Thread) : List FileEntry :=
  (Message.fileSpec state.root state.entries).specs ++ state.toReceiver.flatMap Message.specs

/-- The completions that the receiver has not handled. -/
def completionsLeft (state : State plan Thread) : List FileEntry :=
  (Message.fileSpec state.root state.entries).completions ++
    state.toReceiver.flatMap Message.completions

end State

/-! ## The messages of a step -/

section Messages

variable {before after more : List IterateFiles.FileList}

theorem specMessages_append :
    State.specMessages before (before ++ more) =
      more.map fun list => .fileSpec (some list.root) list.files := by
  rw [State.specMessages, List.drop_left]

theorem specs_specMessages :
    (State.specMessages before (before ++ more)).flatMap Message.specs =
      more.flatMap IterateFiles.FileList.files := by
  rw [specMessages_append, List.flatMap_map]
  rfl

theorem completions_specMessages :
    (State.specMessages before after).flatMap Message.completions = [] := by
  rw [State.specMessages, List.flatMap_map, List.flatMap_eq_nil_iff]
  exact fun list _ => rfl

variable {done all : List (UInt64 × UInt64)}

theorem specs_completionMessages :
    (State.completionMessages done all).flatMap Message.specs = [] := by
  rw [State.completionMessages]
  split <;> rfl

theorem completions_completionMessages {rest : List (UInt64 × UInt64)} :
    (State.completionMessages done (done ++ rest)).flatMap Message.completions =
      rest.map completionEntry := by
  rw [State.completionMessages, List.drop_left]
  cases rest with
  | nil => rfl
  | cons record rest => simp [Message.completions]

/-- A completion message has no root, and ends nothing. -/
theorem of_mem_completionMessages {message : Message}
    (mem : message ∈ State.completionMessages done all) :
    ∃ files, message = .fileSpec none files := by
  rw [State.completionMessages] at mem
  split at mem
  · cases mem
  · exact ⟨_, List.mem_singleton.mp mem⟩

end Messages

/-! ## The listing -/

section Listing

variable {args : IterateFiles.Args} {state after : IterateFiles.State}

/-- The lists that a step sends have the root of the arguments. -/
def Sends (args : IterateFiles.Args) (before after : IterateFiles.State) : Prop :=
  ∃ more, after.sent = before.sent ++ more ∧ ∀ list ∈ more, list.root = args.destPath

/-- What an outcome has sent. -/
def SendsIn (args : IterateFiles.Args) (before : IterateFiles.State) :
    IterateFiles.Outcome → Prop
  | .running after | .returned after => Sends args before after
  | .exited | .panicked => True

theorem Sends.refl_of_eq (same : after.sent = state.sent) : Sends args state after :=
  ⟨[], by rw [same, List.append_nil], nofun⟩

theorem begin_sent : state.begin.sent = state.sent := by
  rw [IterateFiles.State.begin]
  split <;> rfl

theorem flush_sends (doBreak : Bool) : SendsIn args state (state.flush args doBreak) := by
  have finish : ∀ state after : IterateFiles.State, Sends args state after →
      SendsIn args state (after.finish doBreak) := by
    intro state after sends
    rw [IterateFiles.State.finish]
    split <;> exact sends
  rw [IterateFiles.State.flush]
  split
  · dsimp only
    split
    · exact .refl_of_eq rfl
    · split
      · trivial
      · refine finish _ _ ⟨_, rfl, fun list mem => ?_⟩
        rw [List.mem_singleton.mp mem]
  · exact finish _ _ (.refl_of_eq rfl)

theorem SendsIn.of_sent {outcome : IterateFiles.Outcome} (sends : SendsIn args after outcome)
    (same : after.sent = state.sent) : SendsIn args state outcome := by
  cases outcome with
  | running last | returned last =>
      obtain ⟨more, sent, roots⟩ := sends
      exact ⟨more, same ▸ sent, roots⟩
  | exited | panicked => trivial

theorem step_sends (args : IterateFiles.Args) (state : IterateFiles.State)
    (event : IterateFiles.Event) : SendsIn args state (state.step args event) := by
  rw [IterateFiles.State.step.eq_def]
  cases event with
  | message file =>
      dsimp only
      split
      · exact (flush_sends false).of_sent begin_sent
      · exact .refl_of_eq begin_sent
  | timeout checked =>
      dsimp only
      split
      · exact (flush_sends false).of_sent begin_sent
      · trivial
  | disconnected => exact (flush_sends true).of_sent begin_sent

end Listing

variable (plan : Plan total)

/-- What `iterate_files` has announced, and what it does with it. -/
def Listed (announced : List UInt64) (listing : IterateFiles.State) : Prop :=
  ∃ got : List (Fin total), announced = got.map fino ∧ got.Nodup ∧
    IterateFiles.Inv plan.args (got.map plan.file) listing

variable {plan}

theorem Plan.file_injective : Function.Injective plan.file := by
  intro left right same
  have numbers := congrArg IterateFiles.Queued.fino same
  rw [plan.numbered, plan.numbered] at numbers
  exact Fin.ext (by omega)

theorem Plan.entry_injective : Function.Injective plan.transfer.entry := fun _ _ same =>
  plan.transfer.fino_injective (congrArg FileEntry.fino same)

theorem Plan.completion_injective : Function.Injective plan.transfer.completion := by
  intro left right same
  have numbers := congrArg FileEntry.fino same
  exact ReceiveFiles.Transfer.fino_inj numbers

/-- A list of values of a function is the image of a list. -/
theorem exists_map_eq {Value : Type*} {entry : Fin total → Value} {values : List Value}
    (known : ∀ value ∈ values, ∃ index, entry index = value) :
    ∃ order : List (Fin total), order.map entry = values := by
  have listed : values ∈ Set.range (List.map entry) := by
    rw [Set.range_list_map]
    exact known
  exact listed

/-- The entries sent are those of distinct files, which have been announced. -/
theorem Listed.files {announced : List UInt64} {listing : IterateFiles.State}
    (listed : Listed plan announced listing) : ∃ order : List (Fin total), order.Nodup ∧
      listing.files = order.map plan.transfer.entry ∧
        (∀ index ∈ order, fino index ∈ announced) ∧
          (listing.vec = [] → ∀ index, fino index ∈ announced → index ∈ order) := by
  obtain ⟨got, rfl, distinct, inv⟩ := listed
  obtain ⟨done, files, numbers, perm⟩ := inv.sent
  have named : ∀ file ∈ done, ∃ index, plan.file index = file := by
    intro file mem
    obtain ⟨index, -, same⟩ := List.mem_map.mp (perm.mem_iff.mp (List.mem_append_left _ mem))
    exact ⟨index, same⟩
  obtain ⟨order, rfl⟩ := exists_map_eq named
  have sent_once : (order.map plan.file ++ listing.vec).Nodup :=
    perm.nodup_iff.mpr (distinct.map plan.file_injective)
  have listed : ∀ index, fino index ∈ got.map fino ↔ plan.file index ∈ got.map plan.file :=
    fun index => by
      rw [List.mem_map_of_injective fun _ _ => fino_inj plan.total_lt,
        List.mem_map_of_injective plan.file_injective]
  refine ⟨order, (List.nodup_append.mp sent_once).1.of_map, ?_, ?_, ?_⟩
  · rw [files, List.map_map]
    rfl
  · intro index mem
    rw [listed, ← perm.mem_iff]
    exact List.mem_append_left _ (List.mem_map_of_mem mem)
  · intro empty index mem
    rw [listed, ← perm.mem_iff, empty, List.append_nil] at mem
    exact (List.mem_map_of_injective plan.file_injective).mp mem

/-- The completions sent are those of distinct files. -/
theorem Finished.completed {sender : Confirmation.State} (finished : Finished plan sender) :
    ∃ order : List (Fin total), order.Nodup ∧ sender.completed = order.map plan.record := by
  have named : ∀ record ∈ sender.completed, ∃ index, plan.record index = record := by
    intro record mem
    obtain ⟨index, same, -⟩ := finished.known record (List.mem_append_left _ mem)
    exact ⟨index, same.symm⟩
  obtain ⟨order, same⟩ := exists_map_eq named
  have distinct := finished.distinct
  rw [records, List.map_append, ← same, List.map_map] at distinct
  exact ⟨order, (List.nodup_append.mp distinct).1.of_map, same.symm⟩

theorem map_completionEntry (order : List (Fin total)) :
    (order.map plan.record).map completionEntry = order.map plan.transfer.completion := by
  rw [List.map_map]
  exact List.map_congr_left fun index _ => plan.completionEntry_record index

end Session
end EScp
