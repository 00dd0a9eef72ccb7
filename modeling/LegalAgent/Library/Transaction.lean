import Mathlib.Data.List.Basic

/-
  Transactions of statements under a constraint.

  The statements of a transaction are executed in order.  Each
  of them may fail for reasons of its own, and it fails when
  it leaves the constraint violated.  A transaction whose
  statements do not all succeed has no effect.

  Key definitions include:
    * `behind`
    * `attempt`
    * `transact`

  Key theorems include:
    * `transact_of_valid`
    * `transact_of_fault`
-/

------------------------------------------------------------
-- Statements
------------------------------------------------------------

namespace LegalAgent

namespace Library

variable {State : Type}

/- The state behind a number of statements. -/
def behind
    (statements : List (State → State))
    (number : Nat)
    (state : State) :
    State :=
  (statements.take number).foldl
    (fun state statement => statement state) state

/-
  Execute statements while they leave the constraint intact.
  A fault is the number of the statements before one that
  fails for reasons of its own.
-/
def attempt
    (valid : State → Bool) :
    List (State → State) → Option Nat → State → Option State
| [], _, state => some state
| _ :: _, some 0, _ => none
| statement :: statements, fault, state =>
    if valid (statement state) then
      attempt valid statements (fault.map Nat.pred)
        (statement state)
    else
      none

/- A transaction has the effect of all statements or none. -/
def transact
    (valid : State → Bool)
    (statements : List (State → State))
    (fault : Option Nat)
    (state : State) :
    Bool × State :=
  match attempt valid statements fault state with
  | some next => (true, next)
  | none => (false, state)

variable {valid : State → Bool}
variable {statements : List (State → State)} {state : State}

/- Statements one of which fails are not completed. -/
theorem attempt_of_fault
    {number : Nat}
    (hNumber : number < statements.length) :
    attempt valid statements (some number) state = none := by
  induction statements generalizing number state with
  | nil => cases hNumber
  | cons statement statements ih =>
      cases number with
      | zero => rfl
      | succ number =>
          rw [attempt]
          · split
            · exact ih (Nat.lt_of_succ_lt_succ hNumber)
            · rfl
          · rintro ⟨⟩

/- Statements that keep the constraint are completed. -/
theorem attempt_of_valid
    (hValid :
      ∀ number ≤ statements.length,
        valid (behind statements number state) = true) :
    attempt valid statements none state =
      some (behind statements statements.length state) := by
  induction statements generalizing state with
  | nil => rfl
  | cons statement statements ih =>
      have hFirst : valid (statement state) = true :=
        hValid 1 (Nat.le_add_left 1 statements.length)
      have hRest :
          ∀ number ≤ statements.length,
            valid
                (behind statements number (statement state)) =
              true :=
        fun number hNumber =>
          hValid (number + 1) (Nat.succ_le_succ hNumber)
      rw [attempt, if_pos hFirst, Option.map_none, ih hRest]
      · rfl
      · rintro ⟨⟩

/- Statements that are completed were all executed. -/
theorem attempt_eq_some
    {fault : Option Nat}
    {next : State}
    (hAttempt :
      attempt valid statements fault state = some next) :
    next = behind statements statements.length state := by
  induction statements generalizing fault state with
  | nil =>
      cases hAttempt
      rfl
  | cons statement statements ih =>
      rw [attempt.eq_def] at hAttempt
      split at hAttempt
      · rename_i hEq
        cases hEq
      · cases hAttempt
      · rename_i hEq _
        cases hEq
        split at hAttempt
        · exact ih hAttempt
        · cases hAttempt

/- A transaction that fails leaves the state. -/
theorem transact_of_false
    {fault : Option Nat}
    {next : State}
    (hFailed :
      transact valid statements fault state = (false, next)) :
    next = state := by
  unfold transact at hFailed
  split at hFailed
  · cases hFailed
  · exact (Prod.mk.inj hFailed).2.symm

/- A transaction that succeeds executed its statements. -/
theorem transact_of_true
    {fault : Option Nat}
    {next : State}
    (hDone :
      transact valid statements fault state = (true, next)) :
    next = behind statements statements.length state := by
  unfold transact at hDone
  split at hDone
  · rename_i hAttempt
    cases hDone
    exact attempt_eq_some hAttempt
  · cases hDone

/- A transaction fails when one of its statements does. -/
theorem transact_of_fault
    {number : Nat}
    (hNumber : number < statements.length) :
    transact valid statements (some number) state =
      (false, state) := by
  rw [transact, attempt_of_fault hNumber]

/- A transaction that keeps the constraint is completed. -/
theorem transact_of_valid
    (hValid :
      ∀ number ≤ statements.length,
        valid (behind statements number state) = true) :
    transact valid statements none state =
      (true, behind statements statements.length state) := by
  rw [transact, attempt_of_valid hValid]

end Library

end LegalAgent
