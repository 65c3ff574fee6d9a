import Mathlib.Data.List.Basic

namespace EduDevices.Refinement

variable {State Spec Input Output Fault : Type*}

@[simp] theorem ok_bind {Fault Before After : Type} (value : Before)
    (onward : Before → Except Fault After) : (Except.ok value >>= onward) = onward value := rfl

/-- A server answers its inputs in order, unless one of them makes it fault. -/
def serve (step : State → Input → Except Fault (Output × State)) :
    State → List Input → Except Fault (List Output × State)
  | state, [] => .ok ([], state)
  | state, input :: rest =>
      (step state input).bind fun answered =>
        (serve step answered.2 rest).map fun later => (answered.1 :: later.1, later.2)

/-- A server whose steps all answer and keep an invariant answers every run and keeps it. -/
theorem serve_invariant {step : State → Input → Except Fault (Output × State)} {Inv : State → Prop}
    (keeps : ∀ state input, Inv state → ∃ output next, step state input = .ok (output, next) ∧ Inv next)
    (inputs : List Input) {state : State} (start : Inv state) :
    ∃ outputs final, serve step state inputs = .ok (outputs, final) ∧ Inv final := by
  induction inputs generalizing state with
  | nil => exact ⟨[], state, rfl, start⟩
  | cons input rest ih =>
      obtain ⟨output, next, answered, kept⟩ := keeps state input start
      obtain ⟨outputs, final, served, last⟩ := ih kept
      refine ⟨output :: outputs, final, ?_, last⟩
      rw [serve, answered]
      simp [Except.bind, Except.map, served]

/-- A specification answers every input. -/
def perform (spec : Spec → Input → Output × Spec) : Spec → List Input → List Output × Spec
  | abstract, [] => ([], abstract)
  | abstract, input :: rest =>
      let answered := spec abstract input
      let later := perform spec answered.2 rest
      (answered.1 :: later.1, later.2)

section Specification

variable (spec : Spec → Input → Output × Spec)

@[simp] theorem perform_nil (abstract : Spec) : perform spec abstract [] = ([], abstract) := rfl

@[simp] theorem perform_cons (abstract : Spec) (input : Input) (rest : List Input) :
    perform spec abstract (input :: rest) =
      ((spec abstract input).1 :: (perform spec (spec abstract input).2 rest).1,
        (perform spec (spec abstract input).2 rest).2) := rfl

theorem perform_append (abstract : Spec) (first second : List Input) :
    perform spec abstract (first ++ second) =
      ((perform spec abstract first).1 ++ (perform spec (perform spec abstract first).2 second).1,
        (perform spec (perform spec abstract first).2 second).2) := by
  induction first generalizing abstract with
  | nil => rfl
  | cons input rest ih => simp [ih]

/-- What every answer keeps, every run keeps. -/
theorem perform_invariant (Inv : Spec → Prop) {inputs : List Input}
    (keeps : ∀ abstract, ∀ input ∈ inputs, Inv abstract → Inv (spec abstract input).2)
    {abstract : Spec} (start : Inv abstract) : Inv (perform spec abstract inputs).2 := by
  induction inputs generalizing abstract with
  | nil => exact start
  | cons input rest ih =>
      exact ih (fun other later member => keeps other later (List.mem_cons_of_mem input member))
        (keeps abstract input List.mem_cons_self start)

end Specification

/-- The guard holds of each input at the state of the specification that it meets. -/
def Guarded (guard : Spec → Input → Prop) (spec : Spec → Input → Output × Spec) :
    Spec → List Input → Prop
  | _, [] => True
  | abstract, input :: rest => guard abstract input ∧ Guarded guard spec (spec abstract input).2 rest

theorem Guarded.of_forall {guard : Spec → Input → Prop} {spec : Spec → Input → Output × Spec}
    {inputs : List Input} (meets : ∀ input ∈ inputs, ∀ abstract, guard abstract input)
    (abstract : Spec) : Guarded guard spec abstract inputs := by
  induction inputs generalizing abstract with
  | nil => trivial
  | cons input rest ih =>
      exact ⟨meets input List.mem_cons_self abstract,
        ih (fun later member => meets later (List.mem_cons_of_mem input member)) _⟩

theorem guarded_append {guard : Spec → Input → Prop} {spec : Spec → Input → Output × Spec}
    {abstract : Spec} {first second : List Input} :
    Guarded guard spec abstract (first ++ second) ↔
      Guarded guard spec abstract first ∧
        Guarded guard spec (perform spec abstract first).2 second := by
  induction first generalizing abstract with
  | nil => simp [Guarded]
  | cons input rest ih => simp [Guarded, ih, and_assoc]

/-- A server refines a specification when related states answer alike and stay related. -/
def Refines (relation : State → Spec → Prop) (guard : Spec → Input → Prop)
    (step : State → Input → Except Fault (Output × State)) (spec : Spec → Input → Output × Spec) :
    Prop :=
  ∀ state abstract input, relation state abstract → guard abstract input →
    ∃ next, step state input = .ok ((spec abstract input).1, next) ∧
      relation next (spec abstract input).2

/-- A server that refines a specification answers every guarded run as the specification does. -/
theorem Refines.serve {relation : State → Spec → Prop} {guard : Spec → Input → Prop}
    {step : State → Input → Except Fault (Output × State)} {spec : Spec → Input → Output × Spec}
    (refines : Refines relation guard step spec) {state : State} {abstract : Spec}
    {inputs : List Input} (related : relation state abstract)
    (guarded : Guarded guard spec abstract inputs) :
    ∃ final, Refinement.serve step state inputs = .ok ((perform spec abstract inputs).1, final) ∧
      relation final (perform spec abstract inputs).2 := by
  induction inputs generalizing state abstract with
  | nil => exact ⟨state, rfl, related⟩
  | cons input rest ih =>
      obtain ⟨next, answered, still⟩ := refines state abstract input related guarded.1
      obtain ⟨final, served, last⟩ := ih still guarded.2
      refine ⟨final, ?_, last⟩
      rw [Refinement.serve, answered]
      simp [Except.bind, Except.map, served]

end EduDevices.Refinement
