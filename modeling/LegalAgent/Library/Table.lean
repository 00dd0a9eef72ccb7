import Mathlib.Data.List.Nodup

/-
  Tables with a primary key.

  A `Table` lists its rows in the order of their insertion and
  carries the proof that no two rows share a key.  `update`
  is an `UPDATE` statement with its `WHERE` clause, `insert`
  is an `INSERT` that the primary key may refuse.

  Key definitions include:
    * `Table`
    * `Table.get?`
    * `Table.insert`
    * `Table.update`
    * `Table.remove`
    * `Table.any`

  Key theorems include:
    * `Table.get?_insert`
    * `Table.get?_update`
    * `Table.any_eq_true_iff`
-/

------------------------------------------------------------
-- Keyed Tables
------------------------------------------------------------

namespace LegalAgent

namespace Library

/- Rows with pairwise distinct keys. -/
structure Table (K V : Type) where
  rows : List (K × V)
  keysNodup : (rows.map Prod.fst).Nodup

namespace Table

variable {K V : Type} [DecidableEq K]

/- The table without rows. -/
def empty : Table K V where
  rows := []
  keysNodup := List.nodup_nil

/- The row with a key. -/
def get? (table : Table K V) (key : K) : Option V :=
  table.rows.lookup key

/- A missing key is the key of no row. -/
theorem get?_eq_none_iff
    {table : Table K V}
    {key : K} :
    table.get? key = none ↔
      key ∉ table.rows.map Prod.fst := by
  rw [get?, List.lookup_eq_none_iff]
  constructor
  · intro hNone hMem
    rcases List.mem_map.mp hMem with ⟨row, hRow, rfl⟩
    exact absurd (beq_self_eq_true row.1)
      (by simpa using hNone row hRow)
  · intro hNone row hRow
    have hNe : key ≠ row.1 := fun hEq =>
      hNone (List.mem_map.mpr ⟨row, hRow, hEq.symm⟩)
    simpa using hNe

/-
  Insert a row; the primary key refuses a key that the table
  already has.
-/
def insert
    (table : Table K V)
    (key : K)
    (value : V) :
    Table K V :=
  if hKey : key ∈ table.rows.map Prod.fst then
    table
  else
    { rows := table.rows ++ [(key, value)]
      keysNodup := by
        rw [List.map_append, List.map_singleton,
          List.nodup_append]
        refine ⟨table.keysNodup, List.nodup_singleton _, ?_⟩
        intro key' hMem new hNew hEq
        rw [List.mem_singleton] at hNew
        rw [hEq, hNew] at hMem
        exact hKey hMem }

/- Change the rows that a condition selects. -/
def update
    (table : Table K V)
    (selects : K → V → Bool)
    (change : V → V) :
    Table K V where
  rows := table.rows.map fun row =>
    (row.1,
      if selects row.1 row.2 then change row.2 else row.2)
  keysNodup := by
    rw [List.map_map]
    exact table.keysNodup

/- Remove the rows that a condition selects. -/
def remove
    (table : Table K V)
    (selects : K → V → Bool) :
    Table K V where
  rows := table.rows.filter fun row => !selects row.1 row.2
  keysNodup :=
    table.keysNodup.sublist (List.filter_sublist.map Prod.fst)

/- Whether a condition selects some row. -/
def any
    (table : Table K V)
    (selects : K → V → Bool) :
    Bool :=
  table.rows.any fun row => selects row.1 row.2

------------------------------------------------------------
-- Reading Changed Tables
------------------------------------------------------------

@[simp] theorem get?_empty
    (key : K) :
    (empty : Table K V).get? key = none := rfl

/- An inserted row is read back, every other row stays. -/
theorem get?_insert
    {table : Table K V}
    {key : K}
    (hFresh : table.get? key = none)
    (value : V)
    (other : K) :
    (table.insert key value).get? other =
      if other = key then some value
      else table.get? other := by
  have hKey := get?_eq_none_iff.mp hFresh
  rw [insert, dif_neg hKey, get?, List.lookup_append,
    ← get?]
  by_cases hEq : other = key
  · subst hEq
    rw [hFresh, if_pos rfl]
    simp
  · have hSingle : [(key, value)].lookup other = none := by
      have hBeq : (other == key) = false := by
        simpa using hEq
      simp only [List.lookup_cons, hBeq, List.lookup_nil]
    rw [if_neg hEq, hSingle, Option.or_none]

/- A key that the table has is not inserted again. -/
theorem insert_of_get?
    {table : Table K V}
    {key : K}
    {old : V}
    (hKey : table.get? key = some old)
    (value : V) :
    table.insert key value = table := by
  rw [insert, dif_pos]
  by_contra hFresh
  rw [get?_eq_none_iff.mpr hFresh] at hKey
  cases hKey

/- An update changes exactly the selected rows. -/
theorem get?_update
    (table : Table K V)
    (selects : K → V → Bool)
    (change : V → V)
    (key : K) :
    (table.update selects change).get? key =
      (table.get? key).map fun value =>
        if selects key value then change value
        else value := by
  simp only [get?, update]
  induction table.rows with
  | nil => rfl
  | cons row rows ih =>
      rcases row with ⟨other, value⟩
      simp only [List.map_cons, List.lookup_cons]
      by_cases hEq : key = other
      · subst hEq
        simp
      · have hBeq : (key == other) = false := by
          simpa using hEq
        simp only [hBeq]
        exact ih

/- A listed row is the row with its key. -/
theorem get?_of_mem
    {table : Table K V}
    {row : K × V}
    (hMem : row ∈ table.rows) :
    table.get? row.1 = some row.2 := by
  have hNodup := table.keysNodup
  rw [get?, List.lookup_eq_some_iff]
  rcases List.append_of_mem hMem with ⟨front, back, hRows⟩
  refine ⟨front, back, hRows, ?_⟩
  intro other hOther
  rw [hRows, List.map_append, List.nodup_append] at hNodup
  have hNe : other.1 ≠ row.1 :=
    hNodup.2.2 other.1 (List.mem_map_of_mem hOther) row.1
      (by simp)
  simpa using Ne.symm hNe

/- A row that is read is listed. -/
theorem mem_of_get?
    {table : Table K V}
    {key : K}
    {value : V}
    (hGet : table.get? key = some value) :
    (key, value) ∈ table.rows := by
  rcases List.lookup_eq_some_iff.mp hGet with
    ⟨front, back, hRows, -⟩
  rw [hRows]
  exact List.mem_append_right _ List.mem_cons_self

/- The rows that are left are those not selected. -/
theorem get?_remove
    (table : Table K V)
    (selects : K → V → Bool)
    (key : K) :
    (table.remove selects).get? key =
      (table.get? key).filter fun value =>
        !selects key value := by
  cases hGet : table.get? key with
  | none =>
      rw [get?_eq_none_iff] at hGet
      rw [Option.filter_none, get?_eq_none_iff]
      intro hMem
      rcases List.mem_map.mp hMem with ⟨row, hRow, hKey⟩
      exact
        hGet
          (List.mem_map.mpr
            ⟨row, (List.mem_filter.mp hRow).1, hKey⟩)
  | some value =>
      cases hSelects : selects key value with
      | true =>
          rw [Option.filter_some, hSelects, Bool.not_true,
            if_neg Bool.false_ne_true, get?_eq_none_iff]
          intro hMem
          rcases List.mem_map.mp hMem with ⟨row, hRow, rfl⟩
          rcases List.mem_filter.mp hRow with ⟨hRow, hKept⟩
          rw [get?_of_mem hRow, Option.some_inj] at hGet
          rw [hGet, hSelects] at hKept
          cases hKept
      | false =>
          rw [Option.filter_some, hSelects, Bool.not_false,
            if_pos rfl]
          rcases List.lookup_eq_some_iff.mp hGet with
            ⟨front, back, hRows, -⟩
          have hMem : (key, value) ∈ (table.remove selects).rows := by
            refine List.mem_filter.mpr ⟨?_, ?_⟩
            · rw [hRows]
              simp
            · rw [hSelects]
              rfl
          exact get?_of_mem hMem

/- A condition selects some row exactly when a key has one. -/
theorem any_eq_true_iff
    {table : Table K V}
    {selects : K → V → Bool} :
    table.any selects = true ↔
      ∃ key value,
        table.get? key = some value ∧
          selects key value = true := by
  simp only [any, List.any_eq_true]
  constructor
  · rintro ⟨row, hMem, hSelects⟩
    exact ⟨row.1, row.2, get?_of_mem hMem, hSelects⟩
  · rintro ⟨key, value, hGet, hSelects⟩
    exact ⟨(key, value), mem_of_get? hGet, hSelects⟩

end Table

end Library

end LegalAgent
