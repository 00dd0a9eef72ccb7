/-
  Programs that call operations, raise exceptions and yield
  events, as a generator function does.

  A `Gen` is the tree of everything that a generator can do:
  it calls an operation and goes on with the reply or with the
  exception that the call raised, it yields an event and goes
  on when its consumer asks for the next one (or closes it),
  and it ends with a result or an exception.  Programs are
  written in `do` notation; an exception leaves the `do` block.

  Key definitions include:
    * `Gen`
    * `Gen.andThen`
    * `Gen.tryCatch`
    * `Gen.tryFinally`
    * `Gen.close`
    * `Gen.run`

  Key theorems include:
    * `Gen.run_andThen`
    * `Gen.run_bind_ok`
    * `Gen.run_bind_pure`
    * `Gen.bind_assoc`
-/

------------------------------------------------------------
-- Generator Programs
------------------------------------------------------------

namespace LegalAgent

namespace Library

/-
  A program over the operations `Op`, where a call of `op`
  replies with a `Reply op` or raises an `Exn`, that yields
  events in `Ev` and ends with a value in `α`.
-/
inductive Gen
    (Op : Type)
    (Reply : Op → Type)
    (Exn Ev α : Type) :
    Type where
  | ret (result : Except Exn α)
  | call (op : Op)
      (next :
        Except Exn (Reply op) → Gen Op Reply Exn Ev α)
  | yield (event : Ev)
      (next : Except Exn Unit → Gen Op Reply Exn Ev α)

namespace Gen

variable {Op : Type} {Reply : Op → Type}
variable {Exn Ev α β : Type}

/- Go on with the result or the exception of a program. -/
def andThen
    (program : Gen Op Reply Exn Ev α)
    (next : Except Exn α → Gen Op Reply Exn Ev β) :
    Gen Op Reply Exn Ev β :=
  match program with
  | .ret result => next result
  | .call op k => .call op fun reply => (k reply).andThen next
  | .yield event k =>
      .yield event fun reply => (k reply).andThen next

/- Raise an exception. -/
def raise (exn : Exn) : Gen Op Reply Exn Ev α :=
  .ret (.error exn)

/- Go on with the value of a program; exceptions pass. -/
def bind
    (program : Gen Op Reply Exn Ev α)
    (next : α → Gen Op Reply Exn Ev β) :
    Gen Op Reply Exn Ev β :=
  program.andThen fun
    | .ok value => next value
    | .error exn => raise exn

instance : Monad (Gen Op Reply Exn Ev) where
  pure value := .ret (.ok value)
  bind := bind

/- Call one operation. -/
def perform (op : Op) : Gen Op Reply Exn Ev (Reply op) :=
  .call op .ret

/- Yield one event. -/
def emit (event : Ev) : Gen Op Reply Exn Ev Unit :=
  .yield event .ret

/- Handle the exceptions of a program. -/
def tryCatch
    (program : Gen Op Reply Exn Ev α)
    (handler : Exn → Gen Op Reply Exn Ev α) :
    Gen Op Reply Exn Ev α :=
  program.andThen fun
    | .ok value => .ret (.ok value)
    | .error exn => handler exn

/-
  Run a last step after a program, whether it ended or
  raised.  An exception of the last step replaces the result.
-/
def tryFinally
    (program : Gen Op Reply Exn Ev α)
    (last : Gen Op Reply Exn Ev Unit) :
    Gen Op Reply Exn Ev α :=
  program.andThen fun result =>
    last.andThen fun
      | .ok () => .ret result
      | .error exn => raise exn

/-
  What a program still does after its consumer closed it: it
  may call operations but no longer yields.
-/
def close
    {Ev' : Type}
    (stop : Exn) :
    Gen Op Reply Exn Ev Unit → Gen Op Reply Exn Ev' Unit
| .ret result => .ret result
| .call op k => .call op fun reply => (k reply).close stop
| .yield _ _ => raise stop

------------------------------------------------------------
-- Sequential Runs
------------------------------------------------------------

/-
  Run a program alone: every call is executed at once and
  every yield is followed by the next request.
-/
def run
    {World : Type}
    (exec :
      (op : Op) → World → Except Exn (Reply op) × World) :
    Gen Op Reply Exn Ev α → World →
      Except Exn α × World × List Ev
| .ret result, world => (result, world, [])
| .call op k, world =>
    let (reply, world) := exec op world
    (k reply).run exec world
| .yield event k, world =>
    let (result, world, events) := (k (.ok ())).run exec world
    (result, world, event :: events)

variable {World : Type}
variable
  {exec : (op : Op) → World → Except Exn (Reply op) × World}

/- A run of two programs in sequence. -/
theorem run_andThen
    (program : Gen Op Reply Exn Ev α)
    (next : Except Exn α → Gen Op Reply Exn Ev β)
    (world : World) :
    (program.andThen next).run exec world =
      let (result, middle, events) := program.run exec world
      let (last, final, more) :=
        (next result).run exec middle
      (last, final, events ++ more) := by
  induction program generalizing world with
  | ret result => rfl
  | call op k ih =>
      simp only [andThen, run]
      exact ih _ _
  | yield event k ih =>
      simp only [andThen, run, ih, List.cons_append]

/- A call that replies is followed by the rest. -/
theorem run_perform_ok
    {op : Op}
    {value : Reply op}
    {world world' : World}
    (hExec : exec op world = (.ok value, world'))
    (next : Reply op → Gen Op Reply Exn Ev β) :
    (perform op >>= next).run exec world =
      (next value).run exec world' := by
  change (Gen.call op _).run exec world = _
  rw [run, hExec]
  rfl

/- A yielded event is followed by the rest. -/
theorem run_emit
    {event : Ev}
    {next : Unit → Gen Op Reply Exn Ev β}
    {world final : World}
    {result : Except Exn β}
    {events : List Ev}
    (hNext : (next ()).run exec world = (result, final, events)) :
    (emit event >>= next).run exec world =
      (result, final, event :: events) := by
  change (Gen.yield event _).run exec world = _
  rw [run]
  change
    (((next ()).run exec world).1,
        ((next ()).run exec world).2.1,
        event :: ((next ()).run exec world).2.2) = _
  rw [hNext]

/- A program that ends with a value is followed by the rest. -/
theorem run_bind_ok
    {program : Gen Op Reply Exn Ev α}
    {value : α}
    {world middle final : World}
    {result : Except Exn β}
    {events more : List Ev}
    {next : α → Gen Op Reply Exn Ev β}
    (hProgram :
      program.run exec world = (.ok value, middle, events))
    (hNext :
      (next value).run exec middle = (result, final, more)) :
    (program >>= next).run exec world =
      (result, final, events ++ more) := by
  change (program.andThen _).run exec world = _
  rw [run_andThen, hProgram]
  change
    (((next value).run exec middle).1,
        ((next value).run exec middle).2.1,
        events ++ ((next value).run exec middle).2.2) = _
  rw [hNext]

/- A program that raises is not followed by the rest. -/
theorem run_bind_error
    {program : Gen Op Reply Exn Ev α}
    {exn : Exn}
    {world final : World}
    {events : List Ev}
    (hProgram :
      program.run exec world = (.error exn, final, events))
    (next : α → Gen Op Reply Exn Ev β) :
    (program >>= next).run exec world =
      (.error exn, final, events) := by
  change (program.andThen _).run exec world = _
  rw [run_andThen, hProgram]
  change (Except.error exn, final, events ++ []) = _
  rw [List.append_nil]

/- A program that ends with a value may end with another. -/
theorem run_bind_pure
    {program : Gen Op Reply Exn Ev α}
    {value : α}
    {world final : World}
    {events : List Ev}
    (hProgram :
      program.run exec world = (.ok value, final, events))
    (change : α → β) :
    (program >>= fun value => pure (change value)).run exec
        world =
      (.ok (change value), final, events) := by
  change (program.andThen _).run exec world = _
  rw [run_andThen, hProgram]
  change (Except.ok (change value), final, events ++ []) = _
  rw [List.append_nil]

------------------------------------------------------------
-- Programs In Sequence
------------------------------------------------------------

/- Three programs in sequence. -/
theorem andThen_assoc
    {γ : Type}
    (program : Gen Op Reply Exn Ev α)
    (next : Except Exn α → Gen Op Reply Exn Ev β)
    (last : Except Exn β → Gen Op Reply Exn Ev γ) :
    (program.andThen next).andThen last =
      program.andThen fun result => (next result).andThen last := by
  induction program with
  | ret result => rfl
  | call op k ih =>
      simp only [andThen]
      congr 1
      funext reply
      exact ih reply
  | yield event k ih =>
      simp only [andThen]
      congr 1
      funext reply
      exact ih reply

/- A program with its rest goes on with another. -/
theorem bind_assoc
    {γ : Type}
    (program : Gen Op Reply Exn Ev α)
    (next : α → Gen Op Reply Exn Ev β)
    (last : β → Gen Op Reply Exn Ev γ) :
    (program >>= next >>= last) =
      program >>= fun value => next value >>= last := by
  change (program.andThen _).andThen _ = program.andThen _
  rw [andThen_assoc]
  congr 1
  funext result
  cases result with
  | ok value => rfl
  | error exn => rfl

/- A value is passed to the rest. -/
theorem pure_bind
    (value : α)
    (next : α → Gen Op Reply Exn Ev β) :
    ((pure value : Gen Op Reply Exn Ev α) >>= next) =
      next value :=
  rfl

/- A program that gives its value back is the program. -/
theorem bind_pure (program : Gen Op Reply Exn Ev α) :
    (program >>= fun value => pure value) = program := by
  change program.andThen _ = program
  induction program with
  | ret result =>
      cases result with
      | ok value => rfl
      | error exn => rfl
  | call op k ih =>
      rw [andThen]
      congr 1
      funext reply
      exact ih reply
  | yield event k ih =>
      rw [andThen]
      congr 1
      funext reply
      exact ih reply

end Gen

end Library

end LegalAgent
