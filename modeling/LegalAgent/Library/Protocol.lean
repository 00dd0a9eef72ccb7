import LegalAgent.Library.Generator

/-
  Protocols that programs follow.

  A `Protocol` is an automaton over phases: it says which
  operations a program may call in a phase, which replies are
  possible, and the phase after each reply.  A program follows
  a protocol when every path through its tree stays within it
  and ends in an accepted phase.  Since the next phase depends
  only on what happened, a phase is a history variable of the
  program.

  Key definitions include:
    * `Protocol`
    * `Gen.follows`

  Key theorems include:
    * `Gen.follows_andThen`
    * `Gen.follows_bind`
    * `Gen.follows_tryCatch`
    * `Gen.follows_tryFinally`
    * `Gen.follows_close`
-/

------------------------------------------------------------
-- Protocols
------------------------------------------------------------

namespace LegalAgent

namespace Library

/-
  A protocol for programs over `Op`.  The consumer of a
  yielded event may ask for the next one, which leads to
  `taken`, or close the program by raising `stop` in it, which
  leads to `closed`.
-/
structure Protocol
    (Op : Type)
    (Reply : Op → Type)
    (Exn Ev Phase : Type) :
    Type where
  allows : Phase → Op → Prop
  possible : (op : Op) → Except Exn (Reply op) → Prop
  after :
    Phase → (op : Op) → Except Exn (Reply op) → Phase
  yields : Phase → Ev → Prop
  taken : Phase → Ev → Phase
  closed : Phase → Ev → Phase
  stop : Exn

namespace Gen

variable {Op : Type} {Reply : Op → Type}
variable {Exn Ev Phase α β : Type}

/-
  A program follows a protocol from a phase and ends as the
  postcondition accepts.  A quiet program does not yield, and
  a program is quiet from where its consumer closed it.
-/
def follows
    (protocol : Protocol Op Reply Exn Ev Phase)
    (program : Gen Op Reply Exn Ev α)
    (quiet : Bool)
    (phase : Phase)
    (post : Bool → Except Exn α → Phase → Prop) :
    Prop :=
  match program with
  | .ret result => post quiet result phase
  | .call op next =>
      protocol.allows phase op ∧
        ∀ reply, protocol.possible op reply →
          (next reply).follows protocol quiet
            (protocol.after phase op reply) post
  | .yield event next =>
      quiet = false ∧
        protocol.yields phase event ∧
        (next (.ok ())).follows protocol false
          (protocol.taken phase event) post ∧
        (next (.error protocol.stop)).follows protocol true
          (protocol.closed phase event) post

variable {protocol : Protocol Op Reply Exn Ev Phase}
variable {quiet : Bool} {phase : Phase}
variable {post : Bool → Except Exn α → Phase → Prop}

------------------------------------------------------------
-- Rules
------------------------------------------------------------

@[simp] theorem follows_ret
    (result : Except Exn α) :
    (Gen.ret result : Gen Op Reply Exn Ev α).follows protocol
        quiet phase post ↔
      post quiet result phase :=
  Iff.rfl

@[simp] theorem follows_pure
    (value : α) :
    (pure value : Gen Op Reply Exn Ev α).follows protocol
        quiet phase post ↔
      post quiet (.ok value) phase :=
  Iff.rfl

@[simp] theorem follows_raise
    (exn : Exn) :
    (raise exn : Gen Op Reply Exn Ev α).follows protocol
        quiet phase post ↔
      post quiet (.error exn) phase :=
  Iff.rfl

/- A weaker postcondition is easier to reach. -/
theorem follows_mono
    {post' : Bool → Except Exn α → Phase → Prop}
    {program : Gen Op Reply Exn Ev α}
    (hFollows : program.follows protocol quiet phase post)
    (hPost :
      ∀ quiet result phase,
        post quiet result phase →
          post' quiet result phase) :
    program.follows protocol quiet phase post' := by
  induction program generalizing quiet phase with
  | ret result => exact hPost quiet result phase hFollows
  | call op next ih =>
      refine ⟨hFollows.1, ?_⟩
      intro reply hPossible
      exact ih reply (hFollows.2 reply hPossible)
  | yield event next ih =>
      rcases hFollows with ⟨hQuiet, hYields, hTaken, hClosed⟩
      exact ⟨hQuiet, hYields, ih _ hTaken, ih _ hClosed⟩

/- The rule of sequential composition. -/
theorem follows_andThen
    {program : Gen Op Reply Exn Ev α}
    {next : Except Exn α → Gen Op Reply Exn Ev β}
    {final : Bool → Except Exn β → Phase → Prop}
    (hFollows :
      program.follows protocol quiet phase
        fun quiet result phase =>
          (next result).follows protocol quiet phase final) :
    (program.andThen next).follows protocol quiet phase
      final := by
  induction program generalizing quiet phase with
  | ret result => exact hFollows
  | call op k ih =>
      refine ⟨hFollows.1, ?_⟩
      intro reply hPossible
      exact ih reply (hFollows.2 reply hPossible)
  | yield event k ih =>
      rcases hFollows with ⟨hQuiet, hYields, hTaken, hClosed⟩
      exact ⟨hQuiet, hYields, ih _ hTaken, ih _ hClosed⟩

/-
  The postcondition of a program that another one continues
  with its value, while exceptions pass.
-/
def thenPost
    (final : Bool → Except Exn β → Phase → Prop)
    (next : Bool → α → Phase → Prop) :
    Bool → Except Exn α → Phase → Prop
| quiet, .ok value, phase => next quiet value phase
| quiet, .error exn, phase => final quiet (.error exn) phase

/- The rule of `do` blocks. -/
theorem follows_bind
    {program : Gen Op Reply Exn Ev α}
    {next : α → Gen Op Reply Exn Ev β}
    {final : Bool → Except Exn β → Phase → Prop}
    (hFollows :
      program.follows protocol quiet phase
        (thenPost final fun quiet value phase =>
          (next value).follows protocol quiet phase final)) :
    (program >>= next).follows protocol quiet phase final := by
  apply follows_andThen
  apply follows_mono hFollows
  intro quiet result phase hPost
  cases result with
  | ok value => exact hPost
  | error exn => exact hPost

/-
  The rule of `do` blocks whose first program does not end
  with a value once it was closed.
-/
theorem follows_bind_of_loud
    {program : Gen Op Reply Exn Ev α}
    {next : α → Gen Op Reply Exn Ev β}
    {final : Bool → Except Exn β → Phase → Prop}
    (hFirst : program.follows protocol quiet phase post)
    (hNext :
      ∀ value phase,
        post false (.ok value) phase →
          (next value).follows protocol false phase final)
    (hError :
      ∀ quiet exn phase,
        post quiet (.error exn) phase →
          final quiet (.error exn) phase)
    (hLoud : ∀ value phase, ¬ post true (.ok value) phase) :
    (program >>= next).follows protocol quiet phase final := by
  apply follows_bind
  apply follows_mono hFirst
  intro quiet result phase hPost
  cases result with
  | error exn => exact hError quiet exn phase hPost
  | ok value =>
      cases quiet with
      | false => exact hNext value phase hPost
      | true => exact absurd hPost (hLoud value phase)

/- The rule of a single call. -/
theorem follows_perform_bind
    {op : Op}
    {next : Reply op → Gen Op Reply Exn Ev β}
    {final : Bool → Except Exn β → Phase → Prop}
    (hAllows : protocol.allows phase op)
    (hOk :
      ∀ value,
        protocol.possible op (.ok value) →
          (next value).follows protocol quiet
            (protocol.after phase op (.ok value)) final)
    (hError :
      ∀ exn,
        protocol.possible op (.error exn) →
          final quiet (.error exn)
            (protocol.after phase op (.error exn))) :
    (perform op >>= next).follows protocol quiet phase
      final := by
  refine ⟨hAllows, ?_⟩
  intro reply hPossible
  cases reply with
  | ok value => exact hOk value hPossible
  | error exn => exact hError exn hPossible

/- The rule of a single yield. -/
theorem follows_emit_bind
    {event : Ev}
    {next : Unit → Gen Op Reply Exn Ev β}
    {final : Bool → Except Exn β → Phase → Prop}
    (hYields : protocol.yields phase event)
    (hTaken :
      (next ()).follows protocol false
        (protocol.taken phase event) final)
    (hClosed :
      final true (.error protocol.stop)
        (protocol.closed phase event)) :
    (emit event >>= next).follows protocol false phase
      final :=
  ⟨rfl, hYields, hTaken, hClosed⟩

/- The rule of exception handlers. -/
theorem follows_tryCatch
    {program : Gen Op Reply Exn Ev α}
    {handler : Exn → Gen Op Reply Exn Ev α}
    (hFollows :
      program.follows protocol quiet phase
        fun quiet result phase =>
          match result with
          | .ok value => post quiet (.ok value) phase
          | .error exn =>
              (handler exn).follows protocol quiet phase
                post) :
    (program.tryCatch handler).follows protocol quiet phase
      post := by
  apply follows_andThen
  apply follows_mono hFollows
  intro quiet result phase hPost
  cases result with
  | ok value => exact hPost
  | error exn => exact hPost

/- The rule of last steps. -/
theorem follows_tryFinally
    {program : Gen Op Reply Exn Ev α}
    {last : Gen Op Reply Exn Ev Unit}
    (hFollows :
      program.follows protocol quiet phase
        fun quiet result phase =>
          last.follows protocol quiet phase
            fun quiet ended phase =>
              match ended with
              | .ok () => post quiet result phase
              | .error exn => post quiet (.error exn) phase) :
    (program.tryFinally last).follows protocol quiet phase
      post := by
  apply follows_andThen
  apply follows_mono hFollows
  intro quiet result phase hLast
  apply follows_andThen
  apply follows_mono hLast
  intro quiet ended phase hPost
  cases ended with
  | ok value => exact hPost
  | error exn => exact hPost

/- A quiet program is not changed by being closed. -/
theorem follows_close
    {program : Gen Op Reply Exn Ev Unit}
    {stop : Exn}
    {post : Bool → Except Exn Unit → Phase → Prop}
    (hFollows : program.follows protocol true phase post) :
    (program.close stop :
        Gen Op Reply Exn Ev Unit).follows protocol true phase
      post := by
  induction program generalizing phase with
  | ret result => exact hFollows
  | call op next ih =>
      refine ⟨hFollows.1, ?_⟩
      intro reply hPossible
      exact ih reply (hFollows.2 reply hPossible)
  | yield event next ih => exact absurd hFollows.1 (by simp)

end Gen

end Library

end LegalAgent
