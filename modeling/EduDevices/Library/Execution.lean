import Mathlib.Data.List.Basic

namespace EduDevices.Execution

variable {State Input Fault : Type*}

/-- A run feeds its inputs, in order, to a step that may fault. -/
def run (step : State → Input → Except Fault State) : State → List Input → Except Fault State
  | state, [] => .ok state
  | state, input :: rest => (step state input).bind fun next => run step next rest

@[simp] theorem run_nil (step : State → Input → Except Fault State) (state : State) :
    run step state [] = .ok state := rfl

theorem run_cons (step : State → Input → Except Fault State) (state : State)
    (input : Input) (rest : List Input) :
    run step state (input :: rest) = (step state input).bind fun next => run step next rest := rfl

theorem run_cons_of_ok {step : State → Input → Except Fault State} {state next : State}
    {input : Input} (rest : List Input) (taken : step state input = .ok next) :
    run step state (input :: rest) = run step next rest := by
  rw [run_cons, taken]
  rfl

theorem run_cons_ok_iff (step : State → Input → Except Fault State) (state final : State)
    (input : Input) (rest : List Input) :
    run step state (input :: rest) = .ok final ↔
      ∃ next, step state input = .ok next ∧ run step next rest = .ok final := by
  rw [run_cons]
  cases step state input with
  | error fault => simp [Except.bind]
  | ok next => simp [Except.bind]

theorem run_append (step : State → Input → Except Fault State) (state : State)
    (first second : List Input) :
    run step state (first ++ second) =
      (run step state first).bind fun next => run step next second := by
  induction first generalizing state with
  | nil => rfl
  | cons input rest ih =>
      simp only [List.cons_append, run_cons]
      cases step state input with
      | error fault => rfl
      | ok next => exact ih next

/-- A run over inputs that never fault is a fold. -/
theorem run_map_of_total {Other : Type*} {step : State → Input → Except Fault State}
    {embed : Other → Input} {next : State → Other → State}
    (total : ∀ state other, step state (embed other) = .ok (next state other)) (state : State)
    (others : List Other) :
    run step state (others.map embed) = .ok (others.foldl next state) := by
  induction others generalizing state with
  | nil => rfl
  | cons other rest ih =>
      rw [List.map_cons, run_cons_of_ok _ (total state other), ih, List.foldl_cons]

/-- What every completed step keeps, every completed run keeps. -/
theorem run_invariant {step : State → Input → Except Fault State} (Inv : State → Prop)
    (keeps : ∀ state input next, Inv state → step state input = .ok next → Inv next)
    {state final : State} (inputs : List Input) (start : Inv state)
    (finished : run step state inputs = .ok final) : Inv final := by
  induction inputs generalizing state with
  | nil =>
      obtain rfl := Except.ok.inj finished
      exact start
  | cons input rest ih =>
      obtain ⟨next, taken, finished⟩ := (run_cons_ok_iff step state final input rest).mp finished
      exact ih (keeps state input next start taken) finished

/-- A completed run had no input that its steps refuse. -/
theorem run_accepts {step : State → Input → Except Fault State} (accepted : Input → Prop)
    (accepts : ∀ state input next, step state input = .ok next → accepted input)
    {state final : State} {inputs : List Input} (finished : run step state inputs = .ok final) :
    ∀ input ∈ inputs, accepted input := by
  induction inputs generalizing state with
  | nil => exact fun input member => absurd member List.not_mem_nil
  | cons first rest ih =>
      obtain ⟨next, taken, finished⟩ := (run_cons_ok_iff step state final first rest).mp finished
      intro input member
      rcases List.mem_cons.mp member with rfl | later
      · exact accepts state input next taken
      · exact ih finished input later

/-- A legal run meets the guard at each state that it reaches. -/
def Legal (guard : State → Input → Prop) (step : State → Input → Except Fault State) :
    State → List Input → Prop
  | _, [] => True
  | state, input :: rest =>
      guard state input ∧ ∀ next, step state input = .ok next → Legal guard step next rest

/-- The start of a legal run is legal. -/
theorem Legal.prefix {guard : State → Input → Prop} {step : State → Input → Except Fault State}
    {state : State} {first second : List Input}
    (legal : Legal guard step state (first ++ second)) : Legal guard step state first := by
  induction first generalizing state with
  | nil => trivial
  | cons input rest ih => exact ⟨legal.1, fun next taken => ih (legal.2 next taken)⟩

/-- A guarded step that always answers makes every legal run answer. -/
theorem run_legal {guard : State → Input → Prop} {step : State → Input → Except Fault State}
    (Inv : State → Prop)
    (keeps : ∀ state input, Inv state → guard state input →
      ∃ next, step state input = .ok next ∧ Inv next)
    {state : State} (inputs : List Input) (start : Inv state)
    (legal : Legal guard step state inputs) :
    ∃ final, run step state inputs = .ok final ∧ Inv final := by
  induction inputs generalizing state with
  | nil => exact ⟨state, rfl, start⟩
  | cons input rest ih =>
      obtain ⟨guarded, later⟩ := legal
      obtain ⟨next, taken, kept⟩ := keeps state input start guarded
      obtain ⟨final, finished, holds⟩ := ih kept (later next taken)
      exact ⟨final, (run_cons_of_ok rest taken).trans finished, holds⟩

theorem Legal.congr {guard other : State → Input → Prop} {step : State → Input → Except Fault State}
    (same : ∀ state input, guard state input ↔ other state input) {state : State}
    {inputs : List Input} : Legal guard step state inputs ↔ Legal other step state inputs := by
  induction inputs generalizing state with
  | nil => exact Iff.rfl
  | cons input rest ih => exact and_congr (same state input) (forall₂_congr fun _ _ => ih)

/-- Inputs that meet the guard at every state make a legal run. -/
theorem Legal.of_forall {guard : State → Input → Prop} {step : State → Input → Except Fault State}
    {inputs : List Input} (meets : ∀ input ∈ inputs, ∀ state, guard state input) (state : State) :
    Legal guard step state inputs := by
  induction inputs generalizing state with
  | nil => trivial
  | cons input rest ih =>
      exact ⟨meets input List.mem_cons_self state, fun next _ =>
        ih (fun later mem => meets later (List.mem_cons_of_mem input mem)) next⟩

/-- A run whose every state has a property, the last one included. -/
def Always (Inv : State → Prop) (step : State → Input → Except Fault State) :
    State → List Input → Prop
  | state, [] => Inv state
  | state, input :: rest => Inv state ∧ ∀ next, step state input = .ok next → Always Inv step next rest

theorem Always.start {Inv : State → Prop} {step : State → Input → Except Fault State} {state : State}
    {inputs : List Input} (always : Always Inv step state inputs) : Inv state := by
  cases inputs with
  | nil => exact always
  | cons input rest => exact always.1

theorem Always.final {Inv : State → Prop} {step : State → Input → Except Fault State}
    {state final : State} {inputs : List Input} (always : Always Inv step state inputs)
    (finished : run step state inputs = .ok final) : Inv final := by
  induction inputs generalizing state with
  | nil =>
      obtain rfl := Except.ok.inj finished
      exact always
  | cons input rest ih =>
      obtain ⟨next, taken, finished⟩ := (run_cons_ok_iff step state final input rest).mp finished
      exact ih (always.2 next taken) finished

/-- A run that always has a property meets every guard that the property gives. -/
theorem Always.legal {Inv : State → Prop} {guard : State → Input → Prop}
    {step : State → Input → Except Fault State}
    (gives : ∀ state input, Inv state → (∀ next, step state input = .ok next → Inv next) →
      guard state input)
    {state : State} {inputs : List Input} (always : Always Inv step state inputs) :
    Legal guard step state inputs := by
  induction inputs generalizing state with
  | nil => trivial
  | cons input rest ih =>
      obtain ⟨holds, later⟩ := always
      exact ⟨gives state input holds fun next taken => (later next taken).start,
        fun next taken => ih (later next taken)⟩

/-- A legal run always has a property that its guard keeps. -/
theorem Legal.always {Inv : State → Prop} {guard : State → Input → Prop}
    {step : State → Input → Except Fault State}
    (keeps : ∀ state input next, Inv state → guard state input → step state input = .ok next →
      Inv next)
    {state : State} {inputs : List Input} (start : Inv state)
    (legal : Legal guard step state inputs) : Always Inv step state inputs := by
  induction inputs generalizing state with
  | nil => exact start
  | cons input rest ih =>
      obtain ⟨guarded, later⟩ := legal
      exact ⟨start, fun next taken => ih (keeps state input next start guarded taken) (later next taken)⟩

/-- Two lists of inputs in one order that keeps the order of each. -/
inductive Interleaving : List Input → List Input → List Input → Prop where
  | done : Interleaving [] [] []
  | first {one other both : List Input} (input : Input) (rest : Interleaving one other both) :
      Interleaving (input :: one) other (input :: both)
  | second {one other both : List Input} (input : Input) (rest : Interleaving one other both) :
      Interleaving one (input :: other) (input :: both)

/-- One after the other is an order of the two. -/
theorem Interleaving.append (one other : List Input) : Interleaving one other (one ++ other) := by
  induction one with
  | nil =>
      induction other with
      | nil => exact .done
      | cons input rest ih => exact .second input ih
  | cons input rest ih => exact .first input ih

theorem Interleaving.symm {one other both : List Input} (order : Interleaving one other both) :
    Interleaving other one both := by
  induction order with
  | done => exact .done
  | first input _ ih => exact .second input ih
  | second input _ ih => exact .first input ih

/-- What the steps of a run show, in order. -/
def observations {Output : Type*} (step : State → Input → State × Option Output) :
    State → List Input → List Output
  | _, [] => []
  | state, input :: rest =>
      (step state input).2.toList ++ observations step (step state input).1 rest

/-- Two runs show the same when every two steps from alike states show the same and stay alike. -/
theorem observations_unwinding {Output : Type*} {first second : State → Input → State × Option Output}
    {alike : State → State → Prop} {related : Input → Input → Prop}
    (shows : ∀ s t a b, alike s t → related a b → (first s a).2 = (second t b).2)
    (stays : ∀ s t a b, alike s t → related a b → alike (first s a).1 (second t b).1)
    {s t : State} (start : alike s t) {inputs others : List Input}
    (matched : List.Forall₂ related inputs others) :
    observations first s inputs = observations second t others := by
  induction matched generalizing s t with
  | nil => rfl
  | @cons input other rest later pair _ ih =>
      rw [observations, observations, shows s t input other start pair,
        ih (stays s t input other start pair)]

/-- A counted loop keeps an invariant that its body carries from one count to the next. -/
theorem fold_invariant {Value : Type*} (Inv : Nat → Value → Prop) (count : Nat)
    (body : (index : Nat) → index < count → Value → Value) (initial : Value)
    (start : Inv 0 initial)
    (keeps : ∀ index (inside : index < count) value,
      Inv index value → Inv (index + 1) (body index inside value)) :
    Inv count (Nat.fold count body initial) := by
  induction count with
  | zero => exact start
  | succ count ih =>
      rw [Nat.fold_succ]
      exact keeps count _ _ (ih (fun index inside => body index (by omega))
        fun index inside value => keeps index (by omega) value)

/-- A downward loop undoes an upward loop whose bodies it cancels one by one. -/
theorem foldRev_fold {Value Seen : Type*} (view : Value → Seen) (count : Nat)
    (body : (index : Nat) → index < count → Value → Value)
    (undo : (index : Nat) → index < count → Seen → Seen)
    (cancels : ∀ index inside value, undo index inside (view (body index inside value)) = view value)
    (initial : Value) :
    Nat.foldRev count undo (view (Nat.fold count body initial)) = view initial := by
  induction count with
  | zero => rfl
  | succ count ih =>
      rw [Nat.fold_succ, Nat.foldRev_succ, cancels]
      exact ih _ _ fun index inside value => cancels index (by omega) value

/-- An upward loop undoes a downward loop whose bodies it cancels one by one. -/
theorem fold_foldRev {Value Seen : Type*} (view : Value → Seen) (count : Nat)
    (body : (index : Nat) → index < count → Value → Value)
    (redo : (index : Nat) → index < count → Seen → Seen)
    (cancels : ∀ index inside value, redo index inside (view (body index inside value)) = view value)
    (initial : Value) :
    Nat.fold count redo (view (Nat.foldRev count body initial)) = view initial := by
  induction count generalizing initial with
  | zero => rfl
  | succ count ih =>
      rw [Nat.foldRev_succ, Nat.fold_succ,
        ih _ _ fun index inside value => cancels index (by omega) value]
      exact cancels count _ initial

/-- Consecutive positions of a queue are served, each one from the state that the last one left. -/
inductive Chained (serve : Nat → State → State → Prop) : Nat → Nat → State → State → Prop where
  | done (position : Nat) (state : State) : Chained serve position 0 state state
  | next {position count : Nat} {state middle final : State}
      (one : serve position state middle) (rest : Chained serve (position + 1) count middle final) :
      Chained serve position (count + 1) state final

end EduDevices.Execution
