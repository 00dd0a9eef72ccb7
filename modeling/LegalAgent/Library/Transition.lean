import Mathlib.Logic.Relation

/-
  Transition systems with conditions on their steps.

  `Execution step allowed` relates the first and the last
  state of a run all of whose steps satisfy a condition on the state
  before the step and on the action.  An invariant of every
  allowed step is an invariant of every such run.

  Key definitions include:
    * `Execution`
    * `execute`

  Key theorems include:
    * `Execution.invariant`
    * `Execution.mono`
    * `run_of_execute`
    * `execution_of_execute`
-/

------------------------------------------------------------
-- Runs
------------------------------------------------------------

namespace LegalAgent

namespace Library

variable {State Action : Type}

/- One step that satisfies the condition. -/
def Step
    (step : State → Action → Option State)
    (allowed : State → Action → Prop)
    (state next : State) :
    Prop :=
  ∃ action,
    allowed state action ∧ step state action = some next

/- Any number of steps that satisfy the condition. -/
def Execution
    (step : State → Action → Option State)
    (allowed : State → Action → Prop) :
    State → State → Prop :=
  Relation.ReflTransGen (Step step allowed)

variable {step : State → Action → Option State}
variable {allowed : State → Action → Prop}

/- What holds at first and after each step always holds. -/
theorem Execution.invariant
    {holds : State → Prop}
    {first last : State}
    (hRun : Execution step allowed first last)
    (hFirst : holds first)
    (hStep :
      ∀ state action next,
        holds state →
          allowed state action →
            step state action = some next → holds next) :
    holds last := by
  induction hRun with
  | refl => exact hFirst
  | tail _ hNext ih =>
      rcases hNext with ⟨action, hAllowed, hEq⟩
      exact hStep _ action _ ih hAllowed hEq

/- A run under a condition is a run under a weaker one. -/
theorem Execution.mono
    {allowed' : State → Action → Prop}
    {first last : State}
    (hRun : Execution step allowed first last)
    (hAllowed :
      ∀ state action,
        allowed state action → allowed' state action) :
    Execution step allowed' first last := by
  refine Relation.ReflTransGen.mono ?_ _ _ hRun
  rintro state next ⟨action, hHolds, hEq⟩
  exact ⟨action, hAllowed state action hHolds, hEq⟩

/- Runs can be put one behind the other. -/
theorem Execution.trans
    {first middle last : State}
    (hFirst : Execution step allowed first middle)
    (hLast : Execution step allowed middle last) :
    Execution step allowed first last :=
  Relation.ReflTransGen.trans hFirst hLast

------------------------------------------------------------
-- Execution
------------------------------------------------------------

/- Execute actions one after the other. -/
def execute
    (step : State → Action → Option State) :
    List Action → State → Option State
| [], state => some state
| action :: actions, state =>
    match step state action with
    | none => none
    | some next => execute step actions next

/- Executions can be put one behind the other. -/
theorem execute_append
    (step : State → Action → Option State)
    (actions more : List Action)
    (state : State) :
    execute step (actions ++ more) state =
      (execute step actions state).bind (execute step more) := by
  induction actions generalizing state with
  | nil => rfl
  | cons action actions ih =>
      simp only [List.cons_append, execute]
      cases step state action with
      | none => rfl
      | some next => exact ih next

/- Whether every action of an execution satisfies a test. -/
def passes
    (step : State → Action → Option State)
    (test : State → Action → Bool) :
    List Action → State → Bool
| [], _ => true
| action :: actions, state =>
    test state action &&
      match step state action with
      | none => true
      | some next => passes step test actions next

/- What each of the executed actions keeps holds behind them. -/
theorem holds_of_execute
    {holds : State → Prop}
    {actions : List Action}
    {first last : State}
    (hKeeps :
      ∀ action ∈ actions,
        ∀ state next,
          holds state →
            step state action = some next → holds next)
    (hFirst : holds first)
    (hExecute : execute step actions first = some last) :
    holds last := by
  induction actions generalizing first with
  | nil =>
      cases hExecute
      exact hFirst
  | cons action actions ih =>
      simp only [execute] at hExecute
      cases hStep : step first action with
      | none => simp [hStep] at hExecute
      | some next =>
          simp only [hStep] at hExecute
          refine ih ?_ ?_ hExecute
          · intro other hOther
            exact hKeeps other (List.mem_cons_of_mem _ hOther)
          · exact
              hKeeps action List.mem_cons_self first next hFirst
                hStep

/- A test may rely on what each executed action keeps. -/
theorem run_of_execute_within
    {holds : State → Prop}
    {test : State → Action → Bool}
    {actions : List Action}
    {first last : State}
    (hKeeps :
      ∀ action ∈ actions,
        ∀ state next,
          holds state →
            step state action = some next → holds next)
    (hFirst : holds first)
    (hExecute : execute step actions first = some last)
    (hPasses : passes step test actions first = true)
    (hTest :
      ∀ state action,
        holds state →
          test state action = true → allowed state action) :
    Execution step allowed first last := by
  induction actions generalizing first with
  | nil =>
      cases hExecute
      exact Relation.ReflTransGen.refl
  | cons action actions ih =>
      simp only [passes, Bool.and_eq_true] at hPasses
      simp only [execute] at hExecute
      cases hStep : step first action with
      | none => simp [hStep] at hExecute
      | some next =>
          simp only [hStep] at hExecute hPasses
          have hNext :=
            hKeeps action List.mem_cons_self first next hFirst
              hStep
          refine
            Relation.ReflTransGen.head
              ⟨action, hTest _ _ hFirst hPasses.1, hStep⟩
              (ih ?_ hNext hExecute hPasses.2)
          intro other hOther
          exact hKeeps other (List.mem_cons_of_mem _ hOther)

/- Executed actions that pass a test are a run. -/
theorem run_of_execute
    {test : State → Action → Bool}
    {actions : List Action}
    {first last : State}
    (hExecute : execute step actions first = some last)
    (hPasses : passes step test actions first = true)
    (hTest :
      ∀ state action,
        test state action = true → allowed state action) :
    Execution step allowed first last :=
  run_of_execute_within (fun _ _ _ _ _ _ => trivial) trivial
    hExecute hPasses fun state action _ => hTest state action

/- Executed actions are a run without conditions. -/
theorem execution_of_execute
    {actions : List Action}
    {first last : State}
    (hExecute : execute step actions first = some last) :
    Execution step (fun _ _ => True) first last := by
  induction actions generalizing first with
  | nil =>
      cases hExecute
      exact Relation.ReflTransGen.refl
  | cons action actions ih =>
      simp only [execute] at hExecute
      cases hStep : step first action with
      | none => simp [hStep] at hExecute
      | some next =>
          rw [hStep] at hExecute
          exact
            Relation.ReflTransGen.head ⟨action, trivial, hStep⟩
              (ih hExecute)

/- An execution can be read off at its end. -/
theorem exists_of_execute
    {Value : Type}
    {actions : List Action}
    {first : State}
    {view : State → Value}
    {value : Value}
    (hView : (execute step actions first).map view = some value) :
    ∃ last,
      execute step actions first = some last ∧
        view last = value :=
  Option.map_eq_some_iff.mp hView

end Library

end LegalAgent
