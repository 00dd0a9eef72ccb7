import Mathlib.Data.List.Induction

/-
  Registers that writers update in part.

  A write carries values for some of the fields and says
  nothing about the others.  Behind any sequence of writes a
  field has the value of the last write that carried it.

  Key definitions include:
    * `Write`
    * `Write.apply`
    * `lastCarried?`

  Key theorems include:
    * `writeAll_apply`
    * `apply_comm`
-/

------------------------------------------------------------
-- Writes
------------------------------------------------------------

namespace LegalAgent

namespace Library

/- What a write carries for each field, if anything. -/
abbrev Write (Field Value : Type) : Type :=
  Field → Option Value

section Write

variable {Field Value : Type}

/- The registers after a write. -/
def Write.apply
    (write : Write Field Value)
    (state : Field → Value) :
    Field → Value :=
  fun field => (write field).getD (state field)

/- The registers after a sequence of writes. -/
def writeAll
    (writes : List (Write Field Value))
    (state : Field → Value) :
    Field → Value :=
  writes.foldl (fun state write => write.apply state) state

/- What the last write that carries a field carries for it. -/
def lastCarried?
    (writes : List (Write Field Value))
    (field : Field) :
    Option Value :=
  writes.reverse.findSome? fun write => write field

@[simp] theorem lastCarried?_nil
    (field : Field) :
    lastCarried? ([] : List (Write Field Value)) field = none :=
  rfl

/- The last write comes first. -/
theorem lastCarried?_concat
    (writes : List (Write Field Value))
    (write : Write Field Value)
    (field : Field) :
    lastCarried? (writes ++ [write]) field =
      (write field).or (lastCarried? writes field) := by
  rw [lastCarried?, List.reverse_append, List.reverse_singleton,
    List.singleton_append, List.findSome?_cons, lastCarried?]
  cases write field <;> rfl

/- The last writer of a field wins. -/
theorem writeAll_apply
    (writes : List (Write Field Value))
    (state : Field → Value)
    (field : Field) :
    writeAll writes state field =
      (lastCarried? writes field).getD (state field) := by
  induction writes using List.reverseRecOn with
  | nil => rfl
  | append_singleton writes write ih =>
      rw [writeAll, List.foldl_append, List.foldl_cons,
        List.foldl_nil, lastCarried?_concat, Write.apply]
      rw [writeAll] at ih
      rw [ih]
      cases write field <;> rfl

/- Writes of different fields commute. -/
theorem apply_comm
    {write other : Write Field Value}
    (hDisjoint :
      ∀ field, write field = none ∨ other field = none)
    (state : Field → Value) :
    write.apply (other.apply state) =
      other.apply (write.apply state) := by
  funext field
  simp only [Write.apply]
  rcases hDisjoint field with hNone | hNone
  · rw [hNone]
    rfl
  · rw [hNone]
    rfl

end Write

end Library

end LegalAgent
