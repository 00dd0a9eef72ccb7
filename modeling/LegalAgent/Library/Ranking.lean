import Mathlib.Data.Finset.Card
import Mathlib.Data.List.Sort
import Mathlib.Order.Defs.LinearOrder

/-
  The best items of a list, at most one for each key.

  For each key the first item with the highest score is kept.
  The kept items are put in descending order and the first of
  them are taken.  No item that is left out beats one that is
  taken, unless one with its key is taken.

  Key definitions include:
    * `keep`
    * `topItems`
    * `FirstBest`
    * `IsTop`

  Key theorems include:
    * `kept_keep`
    * `isTop_topItems`
-/

------------------------------------------------------------
-- Kept Items
------------------------------------------------------------

namespace LegalAgent

namespace Library

section Ranking

variable {α K S : Type} [DecidableEq K] [LinearOrder S]
variable (key : α → K) (score : α → S)

/-
  Keep an item if it is the first of its key, and put it in
  the place of the one of its key if its score is higher.
-/
def keep (kept : List α) (item : α) : List α :=
  if key item ∈ kept.map key then
    kept.map fun other =>
      if key other = key item ∧ score other < score item then
        item
      else other
  else
    kept ++ [item]

/- The best items, in the order of the first of their keys. -/
def bestItems (items : List α) : List α :=
  items.foldl (keep key score) []

/- Items in descending order; equal ones keep their order. -/
def descending (items : List α) : List α :=
  items.insertionSort fun item other =>
    score other ≤ score item

/- The best items of the list, at most a number of them. -/
def topItems (k : Nat) (items : List α) : List α :=
  (descending score (bestItems key score items)).take k

/- The first item of its key with the highest score. -/
def FirstBest (items : List α) (item : α) : Prop :=
  ∃ front back,
    items = front ++ item :: back ∧
      (∀ other ∈ front,
        key other = key item → score other < score item) ∧
        ∀ other ∈ back,
          key other = key item → score other ≤ score item

/- The items that are kept of a list. -/
structure Kept (items kept : List α) : Prop where
  nodup : (kept.map key).Nodup
  keys : ∀ k, k ∈ kept.map key ↔ k ∈ items.map key
  best : ∀ item ∈ kept, FirstBest key score items item

/-
  The top of a list: as many items as there are keys, but no
  more than the number, with different keys, in descending
  order, each the first best of its key, and none beaten by an
  item whose key is left out.
-/
structure IsTop
    (items : List α)
    (k : Nat)
    (found : List α) :
    Prop where
  count :
    found.length = min k (items.map key).toFinset.card
  distinct : (found.map key).Nodup
  descends :
    found.Pairwise fun item other => score other ≤ score item
  best : ∀ item ∈ found, FirstBest key score items item
  optimal :
    ∀ other ∈ items,
      key other ∉ found.map key →
        ∀ item ∈ found, score other ≤ score item

------------------------------------------------------------
-- One More Item
------------------------------------------------------------

variable {key score}

/- A best item is a highest one of its key. -/
omit [DecidableEq K] in
theorem FirstBest.le
    {items : List α}
    {item other : α}
    (hBest : FirstBest key score items item)
    (hMem : other ∈ items)
    (hKey : key other = key item) :
    score other ≤ score item := by
  rcases hBest with ⟨front, back, rfl, hFront, hBack⟩
  rcases List.mem_append.mp hMem with hMem | hMem
  · exact le_of_lt (hFront other hMem hKey)
  · rcases List.mem_cons.mp hMem with rfl | hMem
    · exact le_refl _
    · exact hBack other hMem hKey

/- A best item stays so behind an item that is not better. -/
omit [DecidableEq K] in
theorem FirstBest.concat
    {items : List α}
    {item last : α}
    (hBest : FirstBest key score items item)
    (hLast : key last = key item → score last ≤ score item) :
    FirstBest key score (items ++ [last]) item := by
  rcases hBest with ⟨front, back, rfl, hFront, hBack⟩
  refine ⟨front, back ++ [last], by simp, hFront, ?_⟩
  intro other hMem
  rcases List.mem_append.mp hMem with hMem | hMem
  · exact hBack other hMem
  · rw [List.mem_singleton] at hMem
    rw [hMem]
    exact hLast

/- An item that beats all of its key is the best. -/
omit [DecidableEq K] in
theorem firstBest_last
    {items : List α}
    {last : α}
    (hBeats :
      ∀ other ∈ items,
        key other = key last → score other < score last) :
    FirstBest key score (items ++ [last]) last := by
  refine ⟨items, [], rfl, hBeats, ?_⟩
  intro other hMem
  cases hMem

/- The keys behind an item are the old ones and its own. -/
theorem keys_keep (kept : List α) (item : α) :
    (keep key score kept item).map key =
      if key item ∈ kept.map key then kept.map key
      else kept.map key ++ [key item] := by
  unfold keep
  by_cases hKey : key item ∈ kept.map key
  · rw [if_pos hKey, if_pos hKey, List.map_map]
    apply List.map_congr_left
    intro other _
    rw [Function.comp_apply]
    split
    · rename_i hSame
      exact hSame.1.symm
    · rfl
  · rw [if_neg hKey, if_neg hKey, List.map_append,
      List.map_singleton]

/- One more item is kept or not, as it should be. -/
theorem kept_keep
    {items kept : List α}
    (hKept : Kept key score items kept)
    (item : α) :
    Kept key score (items ++ [item])
      (keep key score kept item) := by
  constructor
  · rw [keys_keep]
    split
    · exact hKept.nodup
    · rename_i hNew
      rw [List.nodup_append]
      refine ⟨hKept.nodup, List.nodup_singleton _, ?_⟩
      intro k hMem other hOther hEq
      rw [List.mem_singleton] at hOther
      rw [hEq, hOther] at hMem
      exact hNew hMem
  · intro k
    rw [keys_keep, List.map_append, List.mem_append,
      List.map_singleton, List.mem_singleton, ← hKept.keys k]
    split
    · rename_i hOld
      constructor
      · exact Or.inl
      · rintro (hMem | rfl)
        · exact hMem
        · exact hOld
    · rw [List.mem_append, List.mem_singleton]
  · intro found hMem
    unfold keep at hMem
    split at hMem
    · rcases List.mem_map.mp hMem with ⟨other, hOther, hEq⟩
      have hBest := hKept.best other hOther
      split at hEq
      · -- the item beats the one of its key
        rename_i hBeats
        rw [← hEq]
        apply firstBest_last
        intro before hBefore hKey
        have hLe :=
          hBest.le hBefore (hKey.trans hBeats.1.symm)
        exact lt_of_le_of_lt hLe hBeats.2
      · rename_i hNot
        rw [← hEq]
        apply hBest.concat
        intro hKey
        apply le_of_not_gt
        intro hLt
        exact hNot ⟨hKey.symm, hLt⟩
    · -- the item is the first of its key
      rename_i hNew
      rcases List.mem_append.mp hMem with hOld | hLast
      · apply (hKept.best found hOld).concat
        intro hKey
        apply absurd _ hNew
        rw [hKey]
        exact List.mem_map_of_mem hOld
      · rw [List.mem_singleton] at hLast
        rw [hLast]
        apply firstBest_last
        intro before hBefore hKey
        apply absurd _ hNew
        rw [hKept.keys, ← hKey]
        exact List.mem_map_of_mem hBefore

/- The best items are those that are kept of the list. -/
theorem kept_bestItems (items : List α) :
    Kept key score items (bestItems key score items) := by
  induction items using List.reverseRecOn with
  | nil =>
      constructor
      · exact List.nodup_nil
      · intro k
        rfl
      · intro item hMem
        cases hMem
  | append_singleton items item ih =>
      have hKeep := kept_keep ih item
      rwa [bestItems, List.foldl_append]

------------------------------------------------------------
-- The Top
------------------------------------------------------------

/- The descending order has the items that it was given. -/
theorem perm_descending (items : List α) :
    (descending score items).Perm items :=
  List.perm_insertionSort _ items

theorem pairwise_descending (items : List α) :
    (descending score items).Pairwise fun item other =>
      score other ≤ score item := by
  have hTotal :
      Std.Total fun item other : α =>
        score other ≤ score item :=
    ⟨fun item other => le_total (score other) (score item)⟩
  have hTrans :
      IsTrans α fun item other => score other ≤ score item :=
    ⟨fun _ _ _ hFirst hSecond => le_trans hSecond hFirst⟩
  exact List.pairwise_insertionSort _ items

/- There is one kept item for every key. -/
theorem Kept.length_eq
    {items kept : List α}
    (hKept : Kept key score items kept) :
    kept.length = (items.map key).toFinset.card := by
  have hSame :
      (kept.map key).toFinset = (items.map key).toFinset := by
    ext k
    rw [List.mem_toFinset, List.mem_toFinset]
    exact hKept.keys k
  rw [← hSame, List.toFinset_card_of_nodup hKept.nodup,
    List.length_map]

/- The first of the best items are the top of the list. -/
theorem isTop_topItems (k : Nat) (items : List α) :
    IsTop key score items k (topItems key score k items) := by
  have hKept :
      Kept key score items (bestItems key score items) :=
    kept_bestItems items
  have hPerm :
      (descending score (bestItems key score items)).Perm
        (bestItems key score items) :=
    perm_descending _
  have hDescends :
      (descending score (bestItems key score items)).Pairwise
        fun item other => score other ≤ score item :=
    pairwise_descending _
  have hSublist :=
    List.take_sublist k
      (descending score (bestItems key score items))
  constructor
  · rw [topItems, List.length_take, hPerm.length_eq,
      hKept.length_eq]
  · exact
      ((hPerm.map key).nodup_iff.mpr hKept.nodup).sublist
        (hSublist.map key)
  · exact hDescends.sublist hSublist
  · intro item hMem
    exact hKept.best item (hPerm.mem_iff.mp (hSublist.mem hMem))
  · intro other hOther hLeft item hItem
    -- the best item of the key is behind the cut
    have hKey : key other ∈ (bestItems key score items).map key :=
      (hKept.keys _).mpr (List.mem_map_of_mem hOther)
    rcases List.mem_map.mp hKey with ⟨best, hBest, hSame⟩
    have hLe :=
      (hKept.best best hBest).le hOther hSame.symm
    have hMem := hPerm.mem_iff.mpr hBest
    rw [← List.take_append_drop k
      (descending score (bestItems key score items))]
      at hMem hDescends
    rcases List.mem_append.mp hMem with hTaken | hCut
    · apply absurd _ hLeft
      rw [← hSame]
      exact List.mem_map_of_mem hTaken
    · have hBelow :=
        (List.pairwise_append.mp hDescends).2.2 item hItem best
          hCut
      exact le_trans hLe hBelow

end Ranking

end Library

end LegalAgent
