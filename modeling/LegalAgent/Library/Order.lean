import Mathlib.Data.List.Sort

/-
  Lists in the order of a number.

  Items with different numbers have one order, so lists with
  the same items in that order are equal, and selecting items
  commutes with ordering them.

  Key definitions include:
    * `sortBy`

  Key theorems include:
    * `sorted_sortBy`
    * `eq_of_mem_iff`
    * `sortBy_filter`
-/

------------------------------------------------------------
-- Sorting
------------------------------------------------------------

namespace LegalAgent

namespace Library

variable {α : Type} {key : α → Nat}

/- Items by their numbers. -/
def sortBy (key : α → Nat) (items : List α) : List α :=
  items.insertionSort fun item other => key item ≤ key other

/- The order has the items that it was given. -/
theorem mem_sortBy
    {items : List α}
    {item : α} :
    item ∈ sortBy key items ↔ item ∈ items :=
  List.mem_insertionSort _

/- Items with different numbers are put in strict order. -/
theorem sorted_sortBy
    {items : List α}
    (hKeys : items.Pairwise fun item other => key item ≠ key other) :
    (sortBy key items).Pairwise fun item other =>
      key item < key other := by
  have hLe :
      (sortBy key items).Pairwise fun item other =>
        key item ≤ key other := by
    have hTotal :
        Std.Total fun item other : α => key item ≤ key other :=
      ⟨fun item other => Nat.le_total (key item) (key other)⟩
    have hTrans :
        IsTrans α fun item other => key item ≤ key other :=
      ⟨fun _ _ _ hFirst hSecond => Nat.le_trans hFirst hSecond⟩
    exact List.pairwise_insertionSort _ items
  have hNe :
      (sortBy key items).Pairwise fun item other =>
        key item ≠ key other :=
    (List.perm_insertionSort _ items).symm.pairwise hKeys
      fun hNe => hNe.symm
  exact
    (List.pairwise_and_iff.mpr ⟨hLe, hNe⟩).imp
      fun hBoth => Nat.lt_of_le_of_ne hBoth.1 hBoth.2

/- Lists of the same items in strict order are equal. -/
theorem eq_of_mem_iff
    {items more : List α}
    (hItems :
      items.Pairwise fun item other => key item < key other)
    (hMore :
      more.Pairwise fun item other => key item < key other)
    (hMem : ∀ item, item ∈ items ↔ item ∈ more) :
    items = more := by
  have hNodup :
      ∀ {list : List α},
        (list.Pairwise fun item other => key item < key other) →
          list.Nodup := by
    intro list hSorted
    apply hSorted.imp
    rintro item other hLt rfl
    exact Nat.lt_irrefl _ hLt
  have hPerm : items.Perm more :=
    (List.perm_ext_iff_of_nodup (hNodup hItems)
      (hNodup hMore)).mpr hMem
  refine List.Perm.eq_of_pairwise ?_ hItems hMore hPerm
  intro item other _ _ hLt hLt'
  exact absurd hLt' (Nat.lt_asymm hLt)

/- Ordered items stay where they are. -/
theorem sortBy_of_sorted
    {items : List α}
    (hSorted :
      items.Pairwise fun item other => key item < key other) :
    sortBy key items = items :=
  List.Pairwise.insertionSort_eq
    (hSorted.imp fun hLt => Nat.le_of_lt hLt)

/- Selected items are in the order of all. -/
theorem sortBy_filter
    {items : List α}
    (hKeys : items.Pairwise fun item other => key item ≠ key other)
    (selects : α → Bool) :
    sortBy key (items.filter selects) =
      (sortBy key items).filter selects := by
  apply
    eq_of_mem_iff
      (sorted_sortBy (hKeys.sublist List.filter_sublist))
      ((sorted_sortBy hKeys).sublist List.filter_sublist)
  intro item
  rw [mem_sortBy, List.mem_filter, List.mem_filter, mem_sortBy]

end Library

end LegalAgent
