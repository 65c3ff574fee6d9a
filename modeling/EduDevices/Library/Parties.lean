import EduDevices.Library.Execution
import EduDevices.Library.Footprint
import Mathlib.Logic.Function.Basic

namespace EduDevices

open Execution (run run_cons_of_ok run_cons_ok_iff)

/-- Two memories hold the same bytes in an area. -/
def AgreeIn (area : Address → Prop) (memory other : Memory) : Prop :=
  ∀ address, area address → other address = memory address

/-- A party looks at an area of the memory and changes only what is its own. -/
structure Territory where
  area : Address → Prop
  own : Address → Prop

/-- The transfers of these events stay in the territory. -/
structure Territory.Holds {Mark : Type} (territory : Territory) (events : List (Event Mark)) :
    Prop where
  reads : ∀ address, Covered (readRanges events) address → territory.area address
  writes : ∀ address, Covered (writeRanges events) address → territory.own address

/-- What the host does to its memory between two inputs stays in the territory as well. -/
structure Territory.Keeps (territory : Territory) (host : Memory → Memory) : Prop where
  alike : ∀ memory other, AgreeIn territory.area memory other →
    AgreeIn territory.area (host memory) (host other)
  apart : ∀ memory address, ¬ territory.own address → host memory address = memory address

section One

variable {Mark Result State Input : Type} {territory : Territory}
  {step : State × Guest Mark → Input → Except Fault (State × Guest Mark)}

/-- On every memory that agrees in the area with the given one, the action has the same result and
records the same events. It changes only what is its own. -/
def Settles (territory : Territory) (action : Guest Mark → Except Fault (Result × Guest Mark))
    (memory : Memory) (result : Result) (later : List (Event Mark)) (after : Memory) : Prop :=
  ∀ h : Guest Mark, AgreeIn territory.area memory h.memory → ∃ next : Memory,
    action h = .ok (result, ⟨next, h.trace ++ later⟩) ∧ AgreeIn territory.area after next ∧
    ∀ address, ¬ territory.own address → next address = h.memory address

/-- A party takes its inputs in its territory. -/
inductive Lives (territory : Territory)
    (step : State × Guest Mark → Input → Except Fault (State × Guest Mark)) :
    State → Memory → List Input → State → List (Event Mark) → Memory → Prop
  | done (s : State) (memory : Memory) : Lives territory step s memory [] s [] memory
  | next {s middle final : State} {memory after last : Memory} {input : Input} {rest : List Input}
      {later events : List (Event Mark)}
      (settles : Settles territory (fun g => step (s, g) input) memory middle later after)
      (lives : Lives territory step middle after rest final events last) :
      Lives territory step s memory (input :: rest) final (later ++ events) last

theorem Lives.nil_eq {s final : State} {memory last : Memory} {events : List (Event Mark)}
    (lives : Lives territory step s memory [] final events last) :
    final = s ∧ events = [] ∧ last = memory := by
  cases lives
  exact ⟨rfl, rfl, rfl⟩

theorem Lives.cons_inv {s final : State} {memory last : Memory} {input : Input}
    {rest : List Input} {events : List (Event Mark)}
    (lives : Lives territory step s memory (input :: rest) final events last) :
    ∃ middle later after remaining, events = later ++ remaining ∧
      Settles territory (fun g => step (s, g) input) memory middle later after ∧
      Lives territory step middle after rest final remaining last := by
  cases lives with
  | next settles lives => exact ⟨_, _, _, _, rfl, settles, lives⟩

/-- A step settles as soon as its transfers stay in the territory. -/
def Tame (territory : Territory)
    (step : State × Guest Mark → Input → Except Fault (State × Guest Mark)) (input : Input) :
    Prop :=
  ∀ s g next, step (s, g) input = .ok next → ∃ later, next.2.trace = g.trace ++ later ∧
    (territory.Holds later →
      Settles territory (fun h => step (s, h) input) g.memory next.1 later next.2.memory)

theorem Territory.holds_append {first second : List (Event Mark)} :
    territory.Holds (first ++ second) ↔ territory.Holds first ∧ territory.Holds second := by
  constructor
  · rintro ⟨reads, writes⟩
    simp only [readRanges_append, writeRanges_append, covered_append] at reads writes
    exact ⟨⟨fun address read => reads address (.inl read),
        fun address written => writes address (.inl written)⟩,
      ⟨fun address read => reads address (.inr read),
        fun address written => writes address (.inr written)⟩⟩
  · rintro ⟨one, other⟩
    constructor
    · intro address covered
      rw [readRanges_append, covered_append] at covered
      exact covered.elim (one.reads address) (other.reads address)
    · intro address covered
      rw [writeRanges_append, covered_append] at covered
      exact covered.elim (one.writes address) (other.writes address)

/-- A run whose transfers stay in the territory is one that lives there. -/
theorem lives_of_run {s : State} {g : Guest Mark} {final : State × Guest Mark}
    {inputs : List Input} (tame : ∀ input ∈ inputs, Tame territory step input)
    (finished : run step (s, g) inputs = .ok final) :
    ∃ events, final.2.trace = g.trace ++ events ∧ (territory.Holds events →
      Lives territory step s g.memory inputs final.1 events final.2.memory) := by
  induction inputs generalizing s g with
  | nil =>
      obtain rfl := Except.ok.inj finished
      exact ⟨[], (List.append_nil _).symm, fun _ => .done s g.memory⟩
  | cons input rest ih =>
      obtain ⟨⟨middle, between⟩, taken, ran⟩ := (run_cons_ok_iff _ _ _ _ _).mp finished
      obtain ⟨later, grown, settles⟩ := tame input List.mem_cons_self s g _ taken
      obtain ⟨events, longer, lives⟩ :=
        ih (fun other member => tame other (List.mem_cons_of_mem input member)) ran
      refine ⟨later ++ events, ?_, ?_⟩
      · rw [longer, grown, List.append_assoc]
      · intro holds
        obtain ⟨first, second⟩ := Territory.holds_append.mp holds
        exact .next (settles first) (lives second)

/-- A framed handler that runs after its host has rewritten the memory is tame. -/
theorem Framed.tame {pattern : DmaPattern} {input : Input} {host : Memory → Memory}
    {handler : State → Guest Mark → Except Fault (State × Guest Mark)}
    (framed : ∀ s, Framed pattern (handler s)) (keeps : territory.Keeps host)
    (handles : ∀ s g, step (s, g) input = handler s (g.rewrite host)) :
    Tame territory step input := by
  intro s g next taken
  rw [handles] at taken
  obtain ⟨later, follows⟩ := framed s (g.rewrite host) next.1 next.2 taken
  have ended : next = (next.1, (g.rewrite host).after pattern later) :=
    Except.ok.inj (taken.symm.trans (follows _ fun _ _ => rfl))
  rw [ended]
  refine ⟨later, rfl, ?_⟩
  intro holds h agree
  have alike : AgreeIn territory.area (host g.memory) (host h.memory) := keeps.alike _ _ agree
  refine ⟨pattern.replay (host h.memory) later, ?_, ?_, ?_⟩
  · exact (handles s h).trans (follows (h.rewrite host) fun address read =>
      alike address (holds.reads address read))
  · exact fun address inside => pattern.replay_congr (alike address inside) later
  · intro address outside
    have untouched : ¬ Covered (writeRanges later) address := mt (holds.writes address) outside
    exact (pattern.replay_outside (host h.memory) untouched).trans
      (keeps.apart h.memory address outside)

end One

section Many

variable {ι Mark : Type} [DecidableEq ι] {State Input : ι → Type}
  (step : ∀ i, State i × Guest Mark → Input i → Except Fault (State i × Guest Mark))

/-- Every party has a state of its own, and they all share the guest. -/
def sharedStep (machine : (∀ i, State i) × Guest Mark) (input : Σ i, Input i) :
    Except Fault ((∀ i, State i) × Guest Mark) :=
  (step input.1 (machine.1 input.1, machine.2) input.2).bind fun next =>
    .ok (Function.update machine.1 input.1 next.1, next.2)

/-- The inputs of one party. -/
def inputsOf (i : ι) : List (Σ i, Input i) → List (Input i)
  | [] => []
  | ⟨other, input⟩ :: rest =>
      if same : other = i then (same ▸ input) :: inputsOf i rest else inputsOf i rest

/-- The events of one party. -/
def eventsOf (i : ι) (labelled : List (ι × Event Mark)) : List (Event Mark) :=
  (labelled.filter fun event => event.1 = i).map Prod.snd

@[simp] theorem inputsOf_same (i : ι) (input : Input i) (rest : List (Σ i, Input i)) :
    inputsOf i (⟨i, input⟩ :: rest) = input :: inputsOf i rest := by
  simp [inputsOf]

theorem inputsOf_other {i other : ι} (different : other ≠ i) (input : Input other)
    (rest : List (Σ i, Input i)) : inputsOf i (⟨other, input⟩ :: rest) = inputsOf i rest := by
  simp [inputsOf, different]

theorem mem_inputsOf {i : ι} {input : Input i} {schedule : List (Σ i, Input i)}
    (member : input ∈ inputsOf i schedule) : ⟨i, input⟩ ∈ schedule := by
  induction schedule with
  | nil => exact absurd member List.not_mem_nil
  | cons first rest ih =>
      obtain ⟨other, given⟩ := first
      by_cases same : other = i
      · subst same
        rw [inputsOf_same] at member
        rcases List.mem_cons.mp member with rfl | later
        · exact List.mem_cons_self
        · exact List.mem_cons_of_mem _ (ih later)
      · rw [inputsOf_other same] at member
        exact List.mem_cons_of_mem _ (ih member)

theorem eventsOf_same (i : ι) (later : List (Event Mark)) (labelled : List (ι × Event Mark)) :
    eventsOf i (later.map (Prod.mk i) ++ labelled) = later ++ eventsOf i labelled := by
  simp [eventsOf, List.filter_map, Function.comp_def]

theorem eventsOf_other {i other : ι} (different : other ≠ i) (later : List (Event Mark))
    (labelled : List (ι × Event Mark)) :
    eventsOf i (later.map (Prod.mk other) ++ labelled) = eventsOf i labelled := by
  simp [eventsOf, List.filter_map, Function.comp_def, different]

variable {step} {territory : ι → Territory}

/-- Parties that change nothing in the areas of the others end, in any order of their inputs, as
each of them ends alone. The induction is on the order. -/
theorem sharedStep_run
    (apart : ∀ i other, i ≠ other → ∀ address, (territory i).own address →
      ¬ (territory other).area address)
    {states final : ∀ i, State i} {memories lasts : ι → Memory}
    {events : ι → List (Event Mark)} {schedule : List (Σ i, Input i)}
    (lives : ∀ i, Lives (territory i) (step i) (states i) (memories i) (inputsOf i schedule)
      (final i) (events i) (lasts i))
    (g : Guest Mark) (agree : ∀ i, AgreeIn (territory i).area (memories i) g.memory) :
    ∃ (next : Memory) (labelled : List (ι × Event Mark)),
      run (sharedStep step) (states, g) schedule =
        .ok (final, ⟨next, g.trace ++ labelled.map Prod.snd⟩) ∧
      (∀ i, eventsOf i labelled = events i) ∧
      (∀ i, AgreeIn (territory i).area (lasts i) next) ∧
      ∀ address, (∀ i, ¬ (territory i).own address) → next address = g.memory address := by
  induction schedule generalizing states memories events g with
  | nil =>
      have same : final = states := funext fun i => (lives i).nil_eq.1
      refine ⟨g.memory, [], ?_, fun i => ((lives i).nil_eq.2.1).symm, ?_, fun _ _ => rfl⟩
      · simp [same]
      · intro i
        rw [(lives i).nil_eq.2.2]
        exact agree i
  | cons access rest ih =>
      obtain ⟨i, input⟩ := access
      have first := lives i
      rw [inputsOf_same] at first
      obtain ⟨middle, later, after, remaining, split, settles, lived⟩ := first.cons_inv
      obtain ⟨between, taken, agrees, kept⟩ := settles g (agree i)
      have onward : ∀ k, Lives (territory k) (step k) (Function.update states i middle k)
          (Function.update memories i after k) (inputsOf k rest) (final k)
          (Function.update events i remaining k) (lasts k) := by
        intro k
        by_cases same : k = i
        · subst same
          simpa using lived
        · have stays := lives k
          rw [inputsOf_other (Ne.symm same)] at stays
          simpa [Function.update_of_ne same] using stays
      have still : ∀ k, AgreeIn (territory k).area (Function.update memories i after k)
          between := by
        intro k
        by_cases same : k = i
        · subst same
          simpa using agrees
        · rw [Function.update_of_ne same]
          intro address inside
          have foreign : ¬ (territory i).own address := fun own =>
            apart i k (Ne.symm same) address own inside
          exact (kept address foreign).trans (agree k address inside)
      obtain ⟨next, labelled, finished, each, ends, outside⟩ :=
        ih onward ⟨between, g.trace ++ later⟩ still
      have moved : sharedStep step (states, g) ⟨i, input⟩ =
          .ok (Function.update states i middle, ⟨between, g.trace ++ later⟩) := by
        dsimp only at taken
        simp only [sharedStep, taken]
        rfl
      refine ⟨next, later.map (Prod.mk i) ++ labelled, ?_, ?_, ends, ?_⟩
      · rw [run_cons_of_ok rest moved, finished]
        simp [Function.comp_def]
      · intro k
        by_cases same : k = i
        · subst same
          rw [eventsOf_same, each, Function.update_self, split]
        · rw [eventsOf_other (Ne.symm same), each, Function.update_of_ne same]
      · intro address free
        exact (outside address free).trans (kept address (free i))

end Many

end EduDevices
