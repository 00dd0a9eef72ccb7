import LegalAgent.Library.Faults

/-
  What is gathered along a program.

  A tracker keeps a record of the calls of a program and of
  their replies, and says which calls are allowed behind a
  record.  Unlike a phase of a protocol the record does not
  depend on what is yielded, and it outlives the closing of
  the program.

  Key definitions include:
    * `Tracker`
    * `Gen.Tracked`

  Key theorems include:
    * `Gen.tracked_andThen`
    * `Gen.tracked_of_only`
    * `Gen.tracked_close`
-/

------------------------------------------------------------
-- Trackers
------------------------------------------------------------

namespace LegalAgent

namespace Library

/- A record of calls, and the calls that it allows. -/
structure Tracker
    (Op : Type)
    (Reply : Op → Type)
    (Exn Record : Type) :
    Type where
  allows : Record → Op → Prop
  after : Record → (op : Op) → Except Exn (Reply op) → Record

namespace Gen

variable {Op : Type} {Reply : Op → Type}
variable {Exn Ev Record α β : Type}

/-
  Every call of a program is allowed behind what was recorded
  before it, and the program ends as the postcondition says.
-/
def Tracked
    (tracker : Tracker Op Reply Exn Record)
    (program : Gen Op Reply Exn Ev α)
    (record : Record)
    (post : Except Exn α → Record → Prop) :
    Prop :=
  match program with
  | .ret result => post result record
  | .call op next =>
      tracker.allows record op ∧
        ∀ reply,
          (next reply).Tracked tracker
            (tracker.after record op reply) post
  | .yield _ next =>
      ∀ reply, (next reply).Tracked tracker record post

variable {tracker : Tracker Op Reply Exn Record}
variable {record : Record}
variable {post : Except Exn α → Record → Prop}

/- A weaker postcondition is easier to reach. -/
theorem tracked_mono
    {post' : Except Exn α → Record → Prop}
    {program : Gen Op Reply Exn Ev α}
    (hTracked : program.Tracked tracker record post)
    (hPost :
      ∀ result record,
        post result record → post' result record) :
    program.Tracked tracker record post' := by
  induction program generalizing record with
  | ret result => exact hPost result record hTracked
  | call op next ih =>
      exact
        ⟨hTracked.1, fun reply => ih reply (hTracked.2 reply)⟩
  | yield event next ih =>
      exact fun reply => ih reply (hTracked reply)

/- A program before what goes on with its result. -/
theorem tracked_andThen
    {program : Gen Op Reply Exn Ev α}
    {next : Except Exn α → Gen Op Reply Exn Ev β}
    {final : Except Exn β → Record → Prop}
    (hTracked :
      program.Tracked tracker record fun result record =>
        (next result).Tracked tracker record final) :
    (program.andThen next).Tracked tracker record final := by
  induction program generalizing record with
  | ret result => exact hTracked
  | call op k ih =>
      exact
        ⟨hTracked.1, fun reply => ih reply (hTracked.2 reply)⟩
  | yield event k ih =>
      exact fun reply => ih reply (hTracked reply)

/- The rule of `do` blocks, where exceptions pass. -/
theorem tracked_bind
    {program : Gen Op Reply Exn Ev α}
    {next : α → Gen Op Reply Exn Ev β}
    {final : Except Exn β → Record → Prop}
    (hTracked : program.Tracked tracker record post)
    (hOk :
      ∀ value record,
        post (.ok value) record →
          (next value).Tracked tracker record final)
    (hError :
      ∀ exn record,
        post (.error exn) record → final (.error exn) record) :
    (program >>= next).Tracked tracker record final := by
  refine tracked_andThen (tracked_mono hTracked ?_)
  intro result record hPost
  cases result with
  | ok value => exact hOk value record hPost
  | error exn => exact hError exn record hPost

/- The rule of calls in `do` blocks. -/
theorem tracked_perform_bind
    {op : Op}
    {next : Reply op → Gen Op Reply Exn Ev β}
    {final : Except Exn β → Record → Prop}
    (hAllows : tracker.allows record op)
    (hOk :
      ∀ value,
        (next value).Tracked tracker
          (tracker.after record op (.ok value)) final)
    (hError :
      ∀ exn,
        final (.error exn)
          (tracker.after record op (.error exn))) :
    (perform op >>= next).Tracked tracker record final := by
  refine ⟨hAllows, ?_⟩
  intro reply
  cases reply with
  | ok value => exact hOk value
  | error exn => exact hError exn

/- The rule of yields in `do` blocks. -/
theorem tracked_emit_bind
    {event : Ev}
    {next : Unit → Gen Op Reply Exn Ev β}
    {final : Except Exn β → Record → Prop}
    (hNext : (next ()).Tracked tracker record final)
    (hError : ∀ exn, final (.error exn) record) :
    (emit event >>= next).Tracked tracker record final := by
  intro reply
  cases reply with
  | ok value => exact hNext
  | error exn => exact hError exn

/- The rule of exception handlers. -/
theorem tracked_tryCatch
    {program : Gen Op Reply Exn Ev α}
    {handler : Exn → Gen Op Reply Exn Ev α}
    (hTracked : program.Tracked tracker record post)
    (hHandler :
      ∀ exn record,
        post (.error exn) record →
          (handler exn).Tracked tracker record post) :
    (program.tryCatch handler).Tracked tracker record post := by
  refine tracked_andThen (tracked_mono hTracked ?_)
  intro result record hPost
  cases result with
  | ok value => exact hPost
  | error exn => exact hHandler exn record hPost

/- The rule of last steps, for a program that ends anyhow. -/
theorem tracked_tryFinally
    {program : Gen Op Reply Exn Ev α}
    {last : Gen Op Reply Exn Ev Unit}
    (hTracked : program.Tracked tracker record post)
    (hLast :
      ∀ record, last.Tracked tracker record fun _ _ => True) :
    (program.tryFinally last).Tracked tracker record
      fun _ _ => True := by
  refine tracked_andThen (tracked_mono hTracked ?_)
  intro result record _
  refine tracked_andThen (tracked_mono (hLast record) ?_)
  intro ended record _
  cases ended <;> exact trivial

/- A program of calls that leave the record as it is. -/
theorem tracked_of_only
    {calls : Op → Prop}
    {events : Ev → Prop}
    {done : α → Prop}
    {program : Gen Op Reply Exn Ev α}
    (hOnly : program.Only calls events done)
    (hCalls :
      ∀ op,
        calls op →
          tracker.allows record op ∧
            ∀ reply, tracker.after record op reply = record) :
    program.Tracked tracker record fun result record' =>
      record' = record ∧
        ∀ value, result = .ok value → done value := by
  induction program with
  | ret result =>
      refine ⟨rfl, ?_⟩
      rintro value rfl
      exact hOnly
  | call op next ih =>
      rcases hCalls op hOnly.1 with ⟨hAllows, hAfter⟩
      refine ⟨hAllows, ?_⟩
      intro reply
      rw [hAfter reply]
      exact ih reply (hOnly.2 reply)
  | yield event next ih =>
      exact fun reply => ih reply (hOnly.2 reply)

/- A closed program makes some calls of the program. -/
theorem tracked_close
    {Ev' : Type}
    {program : Gen Op Reply Exn Ev Unit}
    {stop : Exn}
    (hTracked :
      program.Tracked tracker record fun _ _ => True) :
    (program.close stop : Gen Op Reply Exn Ev' Unit).Tracked
      tracker record fun _ _ => True := by
  induction program generalizing record with
  | ret result => exact trivial
  | call op next ih =>
      exact
        ⟨hTracked.1, fun reply => ih reply (hTracked.2 reply)⟩
  | yield event next ih => exact trivial

end Gen

end Library

end LegalAgent
