import Mathlib.Data.List.Basic

/-
  Windows that slide over a list.

  A window of a size begins at each multiple of a step.  When
  the step is at most the size, neighbours share what the step
  leaves of the size, and the windows without what they share
  with the window before them are the list again.

  Key definitions include:
    * `window`
    * `joinWindows`
    * `Covers`

  Key theorems include:
    * `joinWindows_windows`
    * `covers_of_count`
-/

------------------------------------------------------------
-- Windows
------------------------------------------------------------

namespace LegalAgent

namespace Library

variable {α : Type} {size step : Nat} {items : List α}

/- The window with a number. -/
def window
    (size step : Nat)
    (items : List α)
    (i : Nat) :
    List α :=
  (items.drop (i * step)).take size

/- The first windows. -/
def windows
    (size step : Nat)
    (items : List α)
    (count : Nat) :
    List (List α) :=
  (List.range count).map (window size step items)

/- Windows in a row, each without what it shares. -/
def joinWindows (shared : Nat) : List (List α) → List α
| [] => []
| first :: rest =>
    first ++ (rest.map (List.drop shared)).flatten

/-
  Windows of a size that begin at the multiples of a step and
  cover a list: no window is empty or too long, the list can
  be read off them, and only the last one reaches its end.
-/
structure Covers
    (size step : Nat)
    (items : List α)
    (found : List (List α)) :
    Prop where
  empty : found = [] ↔ items = []
  bounded :
    ∀ window ∈ found, window ≠ [] ∧ window.length ≤ size
  offset :
    ∀ i window,
      found[i]? = some window →
        window = (items.drop (i * step)).take size
  lossless : joinWindows (size - step) found = items
  last :
    ∀ i window,
      found[i]? = some window →
        (i * step + window.length = items.length ↔
          i + 1 = found.length)

@[simp] theorem length_window (i : Nat) :
    (window size step items i).length =
      min size (items.length - i * step) := by
  simp [window]

@[simp] theorem length_windows (count : Nat) :
    (windows size step items count).length = count := by
  simp [windows]

/- There is a window for every number below the count. -/
theorem getElem?_windows
    {count i : Nat}
    {found : List α}
    (hFound :
      (windows size step items count)[i]? = some found) :
    i < count ∧ found = window size step items i := by
  have hLt : i < count := by
    have hLength :=
      (List.getElem?_eq_some_iff.mp hFound).1
    rwa [length_windows] at hLength
  refine ⟨hLt, ?_⟩
  simp only [windows, List.getElem?_map,
    List.getElem?_range hLt, Option.map_some,
    Option.some_inj] at hFound
  exact hFound.symm

theorem windows_succ (count : Nat) :
    windows size step items (count + 1) =
      windows size step items count ++
        [window size step items count] := by
  simp [windows, List.range_succ]

/- The windows behind the first are those of the rest. -/
theorem windows_cons (count : Nat) :
    windows size step items (count + 1) =
      items.take size ::
        windows size step (items.drop step) count := by
  have hShift :
      ∀ i,
        window size step items (i + 1) =
          window size step (items.drop step) i := by
    intro i
    have hStart : (i + 1) * step = step + i * step := by
      rw [Nat.add_mul]
      omega
    rw [window, window, List.drop_drop, hStart]
  rw [windows, List.range_succ_eq_map, List.map_cons,
    List.map_map]
  refine congrArg₂ List.cons ?_ ?_
  · simp [window]
  · exact List.map_congr_left fun i _ => hShift i

/- One more window is joined behind the others. -/
theorem joinWindows_concat
    {shared : Nat}
    {found : List (List α)}
    (hFound : found ≠ [])
    (last : List α) :
    joinWindows shared (found ++ [last]) =
      joinWindows shared found ++ last.drop shared := by
  cases found with
  | nil => exact absurd rfl hFound
  | cons first rest => simp [joinWindows]

/- What a window adds to the one before it. -/
theorem drop_window
    (hStep : step ≤ size)
    (i : Nat) :
    (window size step items (i + 1)).drop (size - step) =
      (items.drop (i * step + size)).take step := by
  have hSize : size - (size - step) = step := by omega
  have hStart :
      (i + 1) * step + (size - step) = i * step + size := by
    rw [Nat.add_mul]
    omega
  rw [window, List.drop_take, List.drop_drop, hSize, hStart]

/- The first windows are the front of the list. -/
theorem joinWindows_windows
    (hStep : step ≤ size)
    (count : Nat) :
    joinWindows (size - step)
        (windows size step items (count + 1)) =
      items.take (count * step + size) := by
  induction count with
  | zero => simp [windows, window, joinWindows]
  | succ count ih =>
      have hSome :
          windows size step items (count + 1) ≠ [] := by
        rw [windows_succ]
        simp
      have hEnd :
          (count + 1) * step + size =
            count * step + size + step := by
        rw [Nat.add_mul]
        omega
      rw [windows_succ, joinWindows_concat hSome, ih,
        drop_window hStep, hEnd]
      exact List.take_add.symm

/-
  Windows cover a list when the last one is the first that
  reaches its end.
-/
theorem covers_of_count
    {count : Nat}
    (hPositive : 1 ≤ step)
    (hStep : step ≤ size)
    (hItems : items ≠ [])
    (hReaches : items.length ≤ count * step + size)
    (hBefore :
      ∀ i < count, i * step + size < items.length) :
    Covers size step items
      (windows size step items (count + 1)) := by
  have hPositiveLength := List.length_pos_iff.mpr hItems
  -- every window begins inside the list
  have hInside :
      ∀ i < count + 1, i * step < items.length := by
    intro i hLt
    cases i with
    | zero => omega
    | succ i =>
        have hPrevious := hBefore i (by omega)
        rw [Nat.add_mul]
        omega
  constructor
  · refine iff_of_false ?_ hItems
    intro hNil
    have hLength := congrArg List.length hNil
    rw [length_windows] at hLength
    cases hLength
  · intro found hMem
    rcases List.getElem?_of_mem hMem with ⟨i, hFound⟩
    rcases getElem?_windows hFound with ⟨hLt, rfl⟩
    have hStart := hInside i hLt
    constructor
    · apply List.ne_nil_of_length_pos
      rw [length_window]
      omega
    · rw [length_window]
      omega
  · intro i found hFound
    exact (getElem?_windows hFound).2
  · rw [joinWindows_windows hStep,
      List.take_of_length_le hReaches]
  · intro i found hFound
    rcases getElem?_windows hFound with ⟨hLt, rfl⟩
    have hStart := hInside i hLt
    rw [length_window, length_windows]
    by_cases hLast : i = count
    · subst hLast
      omega
    · have hEarly := hBefore i (by omega)
      omega

/- No window covers the empty list. -/
theorem covers_nil :
    Covers size step ([] : List α) [] := by
  constructor
  · exact iff_of_true rfl rfl
  · intro found hMem
    cases hMem
  · intro i found hFound
    cases hFound
  · rfl
  · intro i found hFound
    cases hFound

end Library

end LegalAgent
