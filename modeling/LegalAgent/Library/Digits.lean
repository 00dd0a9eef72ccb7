import Mathlib.Algebra.Ring.Nat

/-
  The number of digits of a number.

  The digits of a sum, a product and a power are bounded by
  those of the operands, in any base.

  Key definitions include:
    * `digitCount`

  Key theorems include:
    * `digitCount_le_iff`
    * `digitCount_add_le`
    * `digitCount_mul_le`
    * `digitCount_pow_le`
-/

------------------------------------------------------------
-- Digits
------------------------------------------------------------

namespace LegalAgent

namespace Library

variable {base : Nat}

/- The number of digits that a number is written with. -/
def digitCount (base n : Nat) : Nat :=
  (Nat.toDigits base n).length

/- A number has a digit. -/
theorem digitCount_pos (base n : Nat) : 0 < digitCount base n :=
  Nat.length_toDigits_pos

/- Digits are bounded as the number is by a power. -/
theorem digitCount_le_iff
    {n k : Nat}
    (hBase : 1 < base)
    (hSome : 0 < k) :
    digitCount base n ≤ k ↔ n < base ^ k :=
  Nat.length_toDigits_le_iff hBase hSome

/- A number is below the power of the base by its digits. -/
theorem lt_pow_digitCount
    (hBase : 1 < base)
    (n : Nat) :
    n < base ^ digitCount base n :=
  (digitCount_le_iff hBase (digitCount_pos base n)).mp
    (Nat.le_refl _)

/- A smaller number has no more digits. -/
theorem digitCount_mono
    {m n : Nat}
    (hBase : 1 < base)
    (hLe : m ≤ n) :
    digitCount base m ≤ digitCount base n := by
  rw [digitCount_le_iff hBase (digitCount_pos base n)]
  exact Nat.lt_of_le_of_lt hLe (lt_pow_digitCount hBase n)

/- A sum has one digit more than the longer number. -/
theorem digitCount_add_le
    (hBase : 1 < base)
    (m n : Nat) :
    digitCount base (m + n) ≤
      max (digitCount base m) (digitCount base n) + 1 := by
  let k := max (digitCount base m) (digitCount base n)
  have hFirst : m < base ^ k :=
    Nat.lt_of_lt_of_le (lt_pow_digitCount hBase m)
      (Nat.pow_le_pow_right (Nat.lt_of_succ_lt hBase)
        (Nat.le_max_left _ _))
  have hSecond : n < base ^ k :=
    Nat.lt_of_lt_of_le (lt_pow_digitCount hBase n)
      (Nat.pow_le_pow_right (Nat.lt_of_succ_lt hBase)
        (Nat.le_max_right _ _))
  rw [digitCount_le_iff hBase (Nat.succ_pos k)]
  calc
    m + n
    _ < base ^ k + base ^ k := Nat.add_lt_add hFirst hSecond
    _ = base ^ k * 2 := (Nat.mul_two _).symm
    _ ≤ base ^ k * base := Nat.mul_le_mul_left _ hBase
    _ = base ^ (k + 1) := (Nat.pow_succ base k).symm

/- A product has no more digits than both numbers. -/
theorem digitCount_mul_le
    (hBase : 1 < base)
    (m n : Nat) :
    digitCount base (m * n) ≤
      digitCount base m + digitCount base n := by
  have hSome : 0 < digitCount base m + digitCount base n :=
    Nat.add_pos_left (digitCount_pos base m) _
  rw [digitCount_le_iff hBase hSome, Nat.pow_add]
  exact
    Nat.mul_lt_mul'' (lt_pow_digitCount hBase m)
      (lt_pow_digitCount hBase n)

/- The digits of a power of a bounded number. -/
theorem digitCount_pow_le
    {n k : Nat}
    (hBase : 1 < base)
    (hBound : n ≤ base ^ k)
    (e : Nat) :
    digitCount base (n ^ e) ≤ k * e + 1 := by
  rw [digitCount_le_iff hBase (Nat.succ_pos _)]
  calc
    n ^ e
    _ ≤ (base ^ k) ^ e := Nat.pow_le_pow_left hBound e
    _ = base ^ (k * e) := (Nat.pow_mul base k e).symm
    _ < base ^ (k * e + 1) :=
        Nat.pow_lt_pow_right hBase (Nat.lt_succ_self _)

/- A remainder is smaller than the divisor. -/
theorem natAbs_fmod_lt
    (a : Int)
    {b : Int}
    (hDivisor : b ≠ 0) :
    (a.fmod b).natAbs < b.natAbs := by
  rcases Int.lt_or_gt_of_ne hDivisor with hNeg | hPos
  · have hOpposite : (-a).fmod (-b) = -a.fmod b :=
      Int.neg_fmod_neg a b
    have hNonneg :=
      Int.fmod_nonneg_of_pos (-a) (Int.neg_pos_of_neg hNeg)
    have hLt :=
      Int.fmod_lt_of_pos (-a) (Int.neg_pos_of_neg hNeg)
    omega
  · have hNonneg := Int.fmod_nonneg_of_pos a hPos
    have hLt := Int.fmod_lt_of_pos a hPos
    omega

end Library

end LegalAgent
