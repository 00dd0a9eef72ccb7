import LegalAgent.Library.Faults

/-
  Calls that a program is bound to make.

  A program surely makes a call of a kind when it does so on
  every way to its end, and it ends behind a reply of a kind
  when there is one on every way to such an end.  A program is
  pledged when each call that takes something on is followed by
  one that lays it down, as long as the state that its calls
  lead through is live.

  Key definitions include:
    * `Gen.Surely`
    * `Gen.Behind`
    * `Gen.Pledged`

  Key theorems include:
    * `surely_andThen`
    * `pledged_of_dead`
    * `pledged_of_only`
-/

------------------------------------------------------------
-- Sure Calls
------------------------------------------------------------

namespace LegalAgent

namespace Library

namespace Gen

variable {Op : Type} {Reply : Op → Type}
variable {Exn Ev State α β : Type}

/- On every way to its end a program makes a good call. -/
def Surely
    (good : Op → Prop) :
    Gen Op Reply Exn Ev α → Prop
| .ret _ => False
| .call op next => good op ∨ ∀ reply, (next reply).Surely good
| .yield _ next => ∀ reply, (next reply).Surely good

/- What a program surely does it also does before more. -/
theorem surely_andThen
    {good : Op → Prop}
    {program : Gen Op Reply Exn Ev α}
    {next : Except Exn α → Gen Op Reply Exn Ev β}
    (hSurely : program.Surely good) :
    (program.andThen next).Surely good := by
  induction program with
  | ret result => cases hSurely
  | call op k ih =>
      rcases hSurely with hGood | hRest
      · exact Or.inl hGood
      · exact Or.inr fun reply => ih reply (hRest reply)
  | yield event k ih =>
      exact fun reply => ih reply (hSurely reply)

/-
  A program ends in a way only behind a reply of a kind: on
  every way to such an end there is one.
-/
def Behind
    (acts : (op : Op) → Except Exn (Reply op) → Prop)
    (ends : Except Exn α → Prop) :
    Gen Op Reply Exn Ev α → Prop
| .ret result => ¬ends result
| .call op next =>
    ∀ reply, acts op reply ∨ (next reply).Behind acts ends
| .yield _ next => ∀ reply, (next reply).Behind acts ends

------------------------------------------------------------
-- Pledges
------------------------------------------------------------

/-
  While the state is live, a program that takes something on
  surely lays it down again.
-/
def Pledged
    (after :
      State → (op : Op) → Except Exn (Reply op) → State)
    (live : State → Prop)
    (takes lays : Op → Prop)
    (state : State) :
    Gen Op Reply Exn Ev α → Prop
| .ret _ => True
| .call op next =>
    live state →
      (takes op →
          ∀ value, (next (.ok value)).Surely lays) ∧
        ∀ reply,
          (next reply).Pledged after live takes lays
            (after state op reply)
| .yield _ next =>
    ∀ reply, (next reply).Pledged after live takes lays state

variable {takes lays : Op → Prop} {live : State → Prop}
variable
  {after : State → (op : Op) → Except Exn (Reply op) → State}

/- Where the state is not live nothing is owed. -/
theorem pledged_of_dead
    {state : State}
    {program : Gen Op Reply Exn Ev α}
    (hDead : ¬live state) :
    program.Pledged after live takes lays state := by
  induction program with
  | ret result => exact trivial
  | call op next ih => exact fun hLive => absurd hLive hDead
  | yield event next ih => exact fun reply => ih reply

/- A call that takes nothing on. -/
theorem pledged_call
    {state : State}
    {op : Op}
    {next :
      Except Exn (Reply op) → Gen Op Reply Exn Ev α}
    (hTakes : ¬takes op)
    (hNext :
      ∀ reply,
        (next reply).Pledged after live takes lays
          (after state op reply)) :
    (Gen.call op next).Pledged after live takes lays state :=
  fun _ => ⟨fun hTaken => absurd hTaken hTakes, hNext⟩

/- A program that takes nothing on owes nothing. -/
theorem pledged_of_only
    {events : Ev → Prop}
    {done : α → Prop}
    {program : Gen Op Reply Exn Ev α}
    (hOnly : program.Only (fun op => ¬takes op) events done)
    (state : State) :
    program.Pledged after live takes lays state := by
  induction program generalizing state with
  | ret result => exact trivial
  | call op next ih =>
      exact
        pledged_call hOnly.1 fun reply =>
          ih reply (hOnly.2 reply) _
  | yield event next ih =>
      exact fun reply => ih reply (hOnly.2 reply) state

end Gen

end Library

end LegalAgent
