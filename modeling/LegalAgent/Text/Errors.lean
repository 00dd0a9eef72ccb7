import LegalAgent.Text.Marker

/-
  What Python code raises.

  An exception is known by its class and its text.  All these
  classes are caught by `except Exception`.

  Key definitions include:
    * `ErrorClass`
    * `Raised`
-/

------------------------------------------------------------
-- Exceptions
------------------------------------------------------------

namespace LegalAgent

/- Classes of exceptions; `other` is one of a library. -/
inductive ErrorClass where
  | valueError
  | runtimeError
  | indexError
  | notImplementedError
  | keyError
  | zeroDivisionError
  | overflowError
  | other
deriving DecidableEq, Repr

/-
  An exception with its text.  A text that ends in the `repr`
  of a value (`!r`) keeps the value apart.
-/
structure Raised where
  cls : ErrorClass
  message : Text
  shown : Option Text
deriving DecidableEq

/- An exception whose text shows no value. -/
def Raised.plain (cls : ErrorClass) (message : Text) : Raised where
  cls := cls
  message := message
  shown := none

/- An exception whose text ends in a value. -/
def Raised.about
    (cls : ErrorClass)
    (message value : Text) :
    Raised where
  cls := cls
  message := message
  shown := some value

/- A `do` block goes on behind a value. -/
@[simp] theorem ok_bind
    {E α β : Type}
    (value : α)
    (next : α → Except E β) :
    (Except.ok value >>= next) = next value :=
  rfl

/- A `do` block ends at an exception. -/
@[simp] theorem error_bind
    {E α β : Type}
    (exn : E)
    (next : α → Except E β) :
    (Except.error exn >>= next) = .error exn :=
  rfl

end LegalAgent
