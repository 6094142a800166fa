import Mathlib.Logic.Relation

/-!
# Machines with guarded runs

A machine is an executable partial step on states.  The states reached by runs whose every step
meets a guard are the subject of safety statements, and the unguarded case is the guard that holds
of everything.  An invariant is proved once for each step and holds of every reached state.
-/

namespace EScp

/-- A labelled machine: its initial states and its executable step. -/
structure Machine (State Label : Type*) where
  /-- The states in which a run may begin. -/
  initial : State → Prop
  /-- The state after one labelled step, when the step can be taken. -/
  next : State → Label → Option State

namespace Machine

variable {State Label : Type*} (machine : Machine State Label)

/-- The states reached by runs whose every step meets `guard` in the state it is taken from. -/
inductive ReachedUnder (guard : State → Label → Prop) : State → Prop
  | start {state : State} : machine.initial state → ReachedUnder guard state
  | step {before after : State} {label : Label} :
      ReachedUnder guard before → guard before label →
      machine.next before label = some after → ReachedUnder guard after

/-- The states reached by arbitrary runs. -/
abbrev Reached : State → Prop := machine.ReachedUnder fun _ _ => True

/-- Execute a list of labelled steps, failing when one of them cannot be taken. -/
def run : State → List Label → Option State
  | state, [] => some state
  | state, label :: labels => (machine.next state label).bind fun middle => run middle labels

/-- One step with a label that `allowed` admits. -/
def StepBy (allowed : Label → Prop) (before after : State) : Prop :=
  ∃ label, allowed label ∧ machine.next before label = some after

/-- Any number of steps with labels that `allowed` admits. -/
abbrev PathBy (allowed : Label → Prop) : State → State → Prop :=
  Relation.ReflTransGen (machine.StepBy allowed)

variable {machine}

/-- The invariant rule: what holds initially and is kept by guarded steps holds when reached. -/
theorem ReachedUnder.invariant {guard : State → Label → Prop} (Inv : State → Prop)
    (init : ∀ state, machine.initial state → Inv state)
    (kept : ∀ before label after, Inv before → guard before label →
      machine.next before label = some after → Inv after)
    {state : State} (reached : machine.ReachedUnder guard state) : Inv state := by
  induction reached with
  | start initial => exact init _ initial
  | step _ allowed taken ih => exact kept _ _ _ ih allowed taken

/-- A stronger guard reaches fewer states. -/
theorem ReachedUnder.mono {guard weaker : State → Label → Prop}
    (weaken : ∀ state label, guard state label → weaker state label)
    {state : State} (reached : machine.ReachedUnder guard state) :
    machine.ReachedUnder weaker state := by
  induction reached with
  | start initial => exact .start initial
  | step _ allowed taken ih => exact .step ih (weaken _ _ allowed) taken

/-- Forget which guard a run met. -/
theorem ReachedUnder.reached {guard : State → Label → Prop} {state : State}
    (reached : machine.ReachedUnder guard state) : machine.Reached state :=
  reached.mono fun _ _ _ => trivial

/-- When each step keeps a property exactly if it meets a guard, the property holds in a reached
state exactly if every step met the guard. -/
theorem ReachedUnder.holds_iff {guard : State → Label → Prop} (Holds : State → Prop)
    (init : ∀ state, machine.initial state → Holds state)
    (step : ∀ before label after, machine.Reached before →
      machine.next before label = some after →
      (Holds after ↔ Holds before ∧ guard before label))
    {state : State} (reached : machine.Reached state) :
    Holds state ↔ machine.ReachedUnder guard state := by
  constructor
  · intro holds
    induction reached with
    | start initial => exact .start initial
    | step earlier _ taken ih =>
        obtain ⟨before, allowed⟩ := (step _ _ _ earlier taken).mp holds
        exact .step (ih before) allowed taken
  · intro guarded
    clear reached
    induction guarded with
    | start initial => exact init _ initial
    | step earlier allowed taken ih =>
        exact (step _ _ _ earlier.reached taken).mpr ⟨ih, allowed⟩

@[simp] theorem run_nil (state : State) : machine.run state [] = some state := rfl

@[simp] theorem run_cons (state : State) (label : Label) (labels : List Label) :
    machine.run state (label :: labels) =
      (machine.next state label).bind fun middle => machine.run middle labels := rfl

theorem run_append (state : State) (left right : List Label) :
    machine.run state (left ++ right) =
      (machine.run state left).bind fun middle => machine.run middle right := by
  induction left generalizing state with
  | nil => rfl
  | cons label left ih =>
      simp only [List.cons_append, run_cons]
      cases machine.next state label with
      | none => rfl
      | some middle => exact ih middle

/-- Executing labels from a reached state stays inside the reached states. -/
theorem Reached.run {before after : State} (reached : machine.Reached before)
    {labels : List Label} (taken : machine.run before labels = some after) :
    machine.Reached after := by
  induction labels generalizing before with
  | nil =>
      obtain rfl : before = after := by simpa using taken
      exact reached
  | cons label labels ih =>
      rw [run_cons, Option.bind_eq_some_iff] at taken
      obtain ⟨middle, first, rest⟩ := taken
      exact ih (.step reached trivial first) rest

theorem reached_of_run {before after : State} (initial : machine.initial before)
    (labels : List Label) (taken : machine.run before labels = some after) :
    machine.Reached after :=
  Reached.run (.start initial) taken

theorem PathBy.single {allowed : Label → Prop} {before after : State} (label : Label)
    (admitted : allowed label) (taken : machine.next before label = some after) :
    machine.PathBy allowed before after :=
  Relation.ReflTransGen.single ⟨label, admitted, taken⟩

/-- Executing admitted labels is a path. -/
theorem PathBy.of_run {allowed : Label → Prop} {before after : State} {labels : List Label}
    (admitted : ∀ label ∈ labels, allowed label)
    (taken : machine.run before labels = some after) : machine.PathBy allowed before after := by
  induction labels generalizing before with
  | nil =>
      obtain rfl : before = after := by simpa using taken
      exact .refl
  | cons label labels ih =>
      rw [run_cons, Option.bind_eq_some_iff] at taken
      obtain ⟨middle, first, rest⟩ := taken
      exact .head ⟨label, admitted label (by simp), first⟩
        (ih (fun other mem => admitted other (by simp [mem])) rest)

theorem PathBy.mono {allowed weaker : Label → Prop} (weaken : ∀ label, allowed label → weaker label)
    {before after : State} (path : machine.PathBy allowed before after) :
    machine.PathBy weaker before after := by
  induction path with
  | refl => exact .refl
  | tail _ last ih =>
      obtain ⟨label, admitted, taken⟩ := last
      exact ih.tail ⟨label, weaken label admitted, taken⟩

/-- What is reached from a reached state by a path is reached. -/
theorem PathBy.reached {allowed : Label → Prop} {before after : State}
    (path : machine.PathBy allowed before after) (reached : machine.Reached before) :
    machine.Reached after := by
  induction path with
  | refl => exact reached
  | tail _ last ih =>
      obtain ⟨label, -, taken⟩ := last
      exact .step ih trivial taken

variable (machine)

/-- The machine that refuses the steps which miss a decidable guard. -/
def restrict (guard : State → Label → Prop) [∀ state label, Decidable (guard state label)] :
    Machine State Label where
  initial := machine.initial
  next state label := if guard state label then machine.next state label else none

variable {machine}

/-- Runs of the restricted machine are the guarded runs of the machine. -/
theorem ReachedUnder.of_restrict {guard : State → Label → Prop}
    [∀ state label, Decidable (guard state label)] {state : State}
    (reached : (machine.restrict guard).Reached state) : machine.ReachedUnder guard state := by
  induction reached with
  | start initial => exact .start initial
  | @step before after label _ _ taken ih =>
      simp only [restrict] at taken
      split at taken
      · rename_i allowed
        exact .step ih allowed taken
      · cases taken

end Machine
end EScp
