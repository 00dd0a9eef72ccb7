import Mathlib.Algebra.BigOperators.Group.List.Basic
import Mathlib.Algebra.Ring.Nat

/-
  Batches within a budget.

  Items are put in a batch one by one.  An item that would
  take the batch over the budget begins the next one, so every
  batch is within the budget or is one item, and the batches
  in a row are the items again.

  Key definitions include:
    * `batchesFrom`
    * `Batched`

  Key theorems include:
    * `batched_batches`
-/

------------------------------------------------------------
-- Batches
------------------------------------------------------------

namespace LegalAgent

namespace Library

variable {α : Type} {size : α → Nat} {budget : Int}

/- The batches of a pending one, of a size, and more items. -/
def batchesFrom
    (size : α → Nat)
    (budget : Int) :
    List α → Nat → List α → List (List α)
| [], _, [] => []
| item :: pending, _, [] => [item :: pending]
| [], total, item :: items =>
    batchesFrom size budget [item] (total + size item) items
| first :: pending, total, item :: items =>
    if budget < (total + size item : Nat) then
      (first :: pending) ::
        batchesFrom size budget [item] (size item) items
    else
      batchesFrom size budget (first :: (pending ++ [item]))
        (total + size item) items

/- The batches of a list. -/
def batches
    (size : α → Nat)
    (budget : Int)
    (items : List α) :
    List (List α) :=
  batchesFrom size budget [] 0 items

/- A batch is within the budget, or it is one item. -/
def Fits
    (size : α → Nat)
    (budget : Int)
    (batch : List α) :
    Prop :=
  ((batch.map size).sum : Int) ≤ budget ∨
    ∃ item, batch = [item]

/- The batches of a list: not empty, in order, and fitting. -/
structure Batched
    (size : α → Nat)
    (budget : Int)
    (items : List α)
    (found : List (List α)) :
    Prop where
  nonempty : ∀ batch ∈ found, batch ≠ []
  flatten : found.flatten = items
  fits : ∀ batch ∈ found, Fits size budget batch

/- A batch is put in front of others. -/
theorem Batched.cons
    {items batch : List α}
    {found : List (List α)}
    (hFound : Batched size budget items found)
    (hBatch : batch ≠ [])
    (hFits : Fits size budget batch) :
    Batched size budget (batch ++ items) (batch :: found) := by
  constructor
  · intro other hMem
    rcases List.mem_cons.mp hMem with rfl | hMem
    · exact hBatch
    · exact hFound.nonempty other hMem
  · rw [List.flatten_cons, hFound.flatten]
  · intro other hMem
    rcases List.mem_cons.mp hMem with rfl | hMem
    · exact hFits
    · exact hFound.fits other hMem

theorem batched_nil :
    Batched size budget ([] : List α) [] := by
  constructor
  · intro batch hMem
    cases hMem
  · rfl
  · intro batch hMem
    cases hMem

/- The pending batch and the items are put in batches. -/
theorem batched_batchesFrom
    {pending : List α}
    {total : Nat}
    (items : List α)
    (hTotal : total = (pending.map size).sum)
    (hFits : pending ≠ [] → Fits size budget pending) :
    Batched size budget (pending ++ items)
      (batchesFrom size budget pending total items) := by
  induction items generalizing pending total with
  | nil =>
      cases pending with
      | nil => exact batched_nil
      | cons first pending =>
          rw [batchesFrom]
          exact
            batched_nil.cons (List.cons_ne_nil _ _)
              (hFits (List.cons_ne_nil _ _))
  | cons item items ih =>
      cases pending with
      | nil =>
          rw [batchesFrom]
          have hMore :
              Batched size budget ([item] ++ items)
                (batchesFrom size budget [item]
                  (total + size item) items) := by
            apply ih
            · simp [hTotal]
            · intro _
              exact Or.inr ⟨item, rfl⟩
          exact hMore
      | cons first pending =>
          rw [batchesFrom]
          split
          · -- the item begins the next batch
            have hNext :
                Batched size budget ([item] ++ items)
                  (batchesFrom size budget [item] (size item)
                    items) := by
              apply ih
              · simp
              · intro _
                exact Or.inr ⟨item, rfl⟩
            exact
              hNext.cons (List.cons_ne_nil _ _)
                (hFits (List.cons_ne_nil _ _))
          · rename_i hWithin
            have hSum :
                total + size item =
                  ((first :: (pending ++ [item])).map
                    size).sum := by
              rw [hTotal]
              simp [Nat.add_assoc]
            have hMore := ih hSum ?_
            · simpa using hMore
            · intro _
              left
              rw [← hSum]
              omega

/- The batches of a list are fitting and in order. -/
theorem batched_batches (items : List α) :
    Batched size budget items (batches size budget items) := by
  have hAll :
      Batched size budget ([] ++ items)
        (batchesFrom size budget [] 0 items) := by
    apply batched_batchesFrom items
    · rfl
    · intro hNil
      exact absurd rfl hNil
  exact hAll

end Library

end LegalAgent
