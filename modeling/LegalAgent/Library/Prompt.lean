import LegalAgent.Library.Generator

/-
  Programs that answer for their calls at once.

  The reply of a call may leave a debt, which the very next
  step of the program has to pay, as a call or as an event.
  Calls that are sure to succeed are not followed beyond a
  failure.

  Key definitions include:
    * `Debts`
    * `Gen.Begins`
    * `Gen.Prompt`

  Key theorems include:
    * `prompt_andThen`
    * `prompt_bind`
    * `prompt_tryCatch`
    * `prompt_tryFinally`
-/

------------------------------------------------------------
-- Debts
------------------------------------------------------------

namespace LegalAgent

namespace Library

/- Which replies leave which debts, and what pays them. -/
structure Debts
    (Op : Type)
    (Reply : Op → Type)
    (Ev Key : Type) where
  owes : (op : Op) → Reply op → Option Key
  pays : Key → Op → Prop
  shows : Key → Ev → Prop
  sure : Op → Prop

namespace Gen

variable {Op : Type} {Reply : Op → Type}
variable {Exn Ev Key α β : Type}
variable {debts : Debts Op Reply Ev Key}

/- The next step of a program pays a debt. -/
def Begins
    (debts : Debts Op Reply Ev Key)
    (key : Key) :
    Gen Op Reply Exn Ev α → Prop
| .ret _ => False
| .call op _ => debts.pays key op
| .yield event _ => debts.shows key event

/- Every debt of a program is paid by its next step. -/
def Prompt
    (debts : Debts Op Reply Ev Key) :
    Gen Op Reply Exn Ev α → Prop
| .ret _ => True
| .call op next =>
    (∀ value key,
        debts.owes op value = some key →
          (next (.ok value)).Begins debts key) ∧
      (∀ value, (next (.ok value)).Prompt debts) ∧
        (¬debts.sure op →
          ∀ exn, (next (.error exn)).Prompt debts)
| .yield _ next => (next (.ok ())).Prompt debts

------------------------------------------------------------
-- Rules
------------------------------------------------------------

/- What pays first pays first before more. -/
theorem begins_andThen
    {key : Key}
    {program : Gen Op Reply Exn Ev α}
    {next : Except Exn α → Gen Op Reply Exn Ev β}
    (hBegins : program.Begins debts key) :
    (program.andThen next).Begins debts key := by
  cases program with
  | ret result => cases hBegins
  | call op k => exact hBegins
  | yield event k => exact hBegins

/- A prompt program before prompt ones. -/
theorem prompt_andThen
    {program : Gen Op Reply Exn Ev α}
    {next : Except Exn α → Gen Op Reply Exn Ev β}
    (hProgram : program.Prompt debts)
    (hNext : ∀ result, (next result).Prompt debts) :
    (program.andThen next).Prompt debts := by
  induction program with
  | ret result => exact hNext result
  | call op k ih =>
      rcases hProgram with ⟨hPays, hOk, hError⟩
      refine ⟨?_, ?_, ?_⟩
      · intro value key hOwes
        exact begins_andThen (hPays value key hOwes)
      · intro value
        exact ih _ (hOk value)
      · intro hSure exn
        exact ih _ (hError hSure exn)
  | yield event k ih => exact ih _ hProgram

/- The rule of `do` blocks. -/
theorem prompt_bind
    {program : Gen Op Reply Exn Ev α}
    {next : α → Gen Op Reply Exn Ev β}
    (hProgram : program.Prompt debts)
    (hNext : ∀ value, (next value).Prompt debts) :
    (program >>= next).Prompt debts := by
  apply prompt_andThen hProgram
  intro result
  cases result with
  | ok value => exact hNext value
  | error exn => exact trivial

/- The rule of handlers. -/
theorem prompt_tryCatch
    {program : Gen Op Reply Exn Ev α}
    {handler : Exn → Gen Op Reply Exn Ev α}
    (hProgram : program.Prompt debts)
    (hHandler : ∀ exn, (handler exn).Prompt debts) :
    (program.tryCatch handler).Prompt debts := by
  apply prompt_andThen hProgram
  intro result
  cases result with
  | ok value => exact trivial
  | error exn => exact hHandler exn

/- The rule of last steps. -/
theorem prompt_tryFinally
    {program : Gen Op Reply Exn Ev α}
    {last : Gen Op Reply Exn Ev Unit}
    (hProgram : program.Prompt debts)
    (hLast : last.Prompt debts) :
    (program.tryFinally last).Prompt debts := by
  apply prompt_andThen hProgram
  intro result
  apply prompt_andThen hLast
  intro ended
  rcases ended with exn | _
  · exact trivial
  · exact trivial

/- A call without debts. -/
theorem prompt_perform
    {op : Op}
    (hOwes : ∀ value, debts.owes op value = none) :
    (perform op : Gen Op Reply Exn Ev (Reply op)).Prompt
      debts := by
  refine ⟨?_, fun _ => trivial, fun _ _ => trivial⟩
  intro value key hKey
  rw [hOwes value] at hKey
  cases hKey

/- A call without debts in a `do` block. -/
theorem prompt_call
    {op : Op}
    {next : Reply op → Gen Op Reply Exn Ev α}
    (hOwes : ∀ value, debts.owes op value = none)
    (hNext : ∀ value, (next value).Prompt debts) :
    (perform op >>= next).Prompt debts :=
  prompt_bind (prompt_perform hOwes) hNext

/- A call with a debt that the `do` block pays at once. -/
theorem prompt_debt
    {op : Op}
    {next : Reply op → Gen Op Reply Exn Ev α}
    (hPays :
      ∀ value key,
        debts.owes op value = some key →
          (next value).Begins debts key)
    (hNext : ∀ value, (next value).Prompt debts) :
    (perform op >>= next).Prompt debts :=
  ⟨hPays, hNext, fun _ _ => trivial⟩

/- An event in a `do` block. -/
theorem prompt_yield
    {event : Ev}
    {next : Unit → Gen Op Reply Exn Ev α}
    (hNext : (next ()).Prompt debts) :
    (emit event >>= next).Prompt debts :=
  hNext

/- An event at the end of a `do` block. -/
theorem prompt_emit (event : Ev) :
    (emit event : Gen Op Reply Exn Ev Unit).Prompt debts :=
  trivial

end Gen

end Library

end LegalAgent
