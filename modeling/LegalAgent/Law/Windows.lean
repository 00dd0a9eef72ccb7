import LegalAgent.Law.Ingest
import LegalAgent.Library.Windows

/-
  The windows of `legal_core/text.py`.

  A text is embedded in windows that overlap.  The loop of
  `split_windows` stops at the first window that reaches the
  end of the text, so no window is redundant, and the text can
  be read off its windows.

  Key theorems include:
    * `windowsFrom_eq`
    * `splitWindows_covers`
-/

------------------------------------------------------------
-- Loop
------------------------------------------------------------

namespace LegalAgent

namespace Law

open Library

variable {text : Text} {size step : Nat}

/-
  The loop from an offset inside the text makes the windows up
  to the first that reaches the end.
-/
theorem windowsFrom_eq
    (hPositive : 1 ≤ step)
    (hStep : step ≤ size)
    {fuel start : Nat}
    (hStart : start < text.length)
    (hFuel : text.length ≤ start + fuel) :
    ∃ count,
      windowsFrom text size step fuel start =
          windows size step (text.drop start) (count + 1) ∧
        text.length ≤ start + (count * step + size) ∧
          ∀ i < count,
            start + (i * step + size) < text.length := by
  induction fuel generalizing start with
  | zero => omega
  | succ fuel ih =>
      rw [windowsFrom, if_pos hStart]
      by_cases hEnd : text.length ≤ start + size
      · refine ⟨0, ?_, by omega, by omega⟩
        rw [if_pos hEnd]
        simp [windows, window]
      · rw [if_neg hEnd]
        have hNext : start + step < text.length := by omega
        rcases ih hNext (by omega) with
          ⟨count, hWindows, hReaches, hBefore⟩
        have hShift :
            ∀ i, (i + 1) * step = step + i * step := by
          intro i
          rw [Nat.add_mul]
          omega
        refine ⟨count + 1, ?_, ?_, ?_⟩
        · rw [hWindows, ← List.drop_drop, ← windows_cons]
        · rw [hShift]
          omega
        · intro i hLt
          cases i with
          | zero => omega
          | succ i =>
              have hEarly := hBefore i (by omega)
              rw [hShift]
              omega

------------------------------------------------------------
-- Split Texts
------------------------------------------------------------

/-
  The windows of a text cover what remains of it without the
  white space at its ends.
-/
theorem splitWindows_covers
    {size : Nat}
    (text : Text)
    (shared : Nat)
    (hSize : 1 ≤ size) :
    Library.Covers size (max 1 (size - shared)) text.strip
      (splitWindows text size shared) := by
  have hPositive : 1 ≤ max 1 (size - shared) :=
    le_max_left 1 (size - shared)
  have hStep : max 1 (size - shared) ≤ size := by omega
  unfold splitWindows
  dsimp only
  by_cases hText : text.strip = []
  · rw [hText]
    exact covers_nil
  by_cases hShort : text.strip.length ≤ size
  · have hSingle :
        windows size (max 1 (size - shared)) text.strip (0 + 1) =
          [text.strip] := by
      simp [windows, window, hShort]
    rw [if_pos hShort, if_neg (by simpa using hText),
      ← hSingle]
    exact
      covers_of_count hPositive hStep hText (by omega)
        (by omega)
  · have hStart := List.length_pos_iff.mpr hText
    have hFuel :
        text.strip.length ≤ 0 + text.strip.length := by omega
    rcases windowsFrom_eq hPositive hStep hStart hFuel with
      ⟨count, hWindows, hReaches, hBefore⟩
    rw [if_neg hShort, hWindows, List.drop_zero]
    apply covers_of_count hPositive hStep hText
    · omega
    · intro i hLt
      have hEarly := hBefore i hLt
      omega

/- Four characters in windows of three that share two. -/
theorem splitWindows_covers_four :
    Library.Covers 3 (max 1 (3 - 2)) (Text.strip " 법률조문 ".toList)
      (splitWindows " 법률조문 ".toList 3 2) :=
  splitWindows_covers _ 2 (by decide)

end Law

end LegalAgent
