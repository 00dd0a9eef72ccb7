import Mathlib.Algebra.Ring.Int.Defs
import LegalAgent.Library.Digits
import LegalAgent.Text.Errors

/-
  The calculator of `agent_app/tools/sample.py`.

  `_safe_eval` evaluates a syntax tree with the operators of
  `_OPS` only.  It refuses a power whose base or exponent is
  large, and that guard bounds every integer that it builds.

  Key definitions include:
    * `Expr`
    * `safeEval`
    * `Expr.budget`

  Key theorems include:
    * `digits_applyBinOp`
    * `digits_applyPow`
    * `digits_safeEval`
    * `safeEval_digits_bounded`
-/

------------------------------------------------------------
-- Syntax Trees
------------------------------------------------------------

namespace LegalAgent

namespace Calculator

open Library

/- Binary operators; `other` is one that `_OPS` lacks. -/
inductive BinOp where
  | add
  | sub
  | mult
  | div
  | floorDiv
  | mod
  | pow
  | other
deriving DecidableEq

/- Unary operators; `other` is one that `_OPS` lacks. -/
inductive UnaryOp where
  | uSub
  | uAdd
  | other
deriving DecidableEq

/-
  Numbers: integers, with a Boolean as its number, and numbers
  in `R` that are none (floating-point and complex ones).
-/
inductive Value (R : Type) where
  | int (n : Int)
  | inexact (r : R)
deriving DecidableEq

/- Syntax trees; `other` is a node of another kind. -/
inductive Expr (R : Type) where
  | constant (value : Value R)
  | binOp (left : Expr R) (op : BinOp) (right : Expr R)
  | unaryOp (op : UnaryOp) (operand : Expr R)
  | other
deriving DecidableEq

variable {R : Type}

------------------------------------------------------------
-- Evaluation
------------------------------------------------------------

/-
  The arithmetic of the numbers that are no integers, and of
  integers where the result is none.
-/
structure Inexact (R : Type) where
  binary : BinOp → Value R → Value R → Except Raised R
  unary : UnaryOp → R → Except Raised R
  absExceeds : R → Nat → Except Raised Bool

/- The refusal of a power. -/
def tooLarge : Raised :=
  .plain .valueError "거듭제곱이 너무 큽니다.".toList

/- The refusal of another node or operator. -/
def notAllowed : Raised :=
  .plain .valueError "허용되지 않은 식입니다.".toList

/- Comparison of an absolute value with a bound. -/
def absExceeds
    (inexact : Inexact R) :
    Value R → Nat → Except Raised Bool
| .int n, bound => .ok (decide (bound < n.natAbs))
| .inexact r, bound => inexact.absExceeds r bound

/- The guard of a power: the exponent first, then the base. -/
def powTooLarge
    (inexact : Inexact R)
    (left right : Value R) :
    Except Raised Bool := do
  let large ← absExceeds inexact right 1000
  if large then
    return true
  else
    absExceeds inexact left 1000000

/- A binary operation whose result is no integer. -/
def inexactBinOp
    (inexact : Inexact R)
    (op : BinOp)
    (left right : Value R) :
    Except Raised (Value R) := do
  let r ← inexact.binary op left right
  return .inexact r

/- The functions of `_OPS` for two operands. -/
def applyBinOp
    (inexact : Inexact R) :
    BinOp → Value R → Value R → Except Raised (Value R)
| .add, .int a, .int b => .ok (.int (a + b))
| .sub, .int a, .int b => .ok (.int (a - b))
| .mult, .int a, .int b => .ok (.int (a * b))
| .floorDiv, .int a, .int b =>
    if b = 0 then
      .error
        (.plain .zeroDivisionError
          "integer division or modulo by zero".toList)
    else
      .ok (.int (a.fdiv b))
| .mod, .int a, .int b =>
    if b = 0 then
      .error
        (.plain .zeroDivisionError
          "integer modulo by zero".toList)
    else
      .ok (.int (a.fmod b))
| .pow, .int a, .int b =>
    -- a negative exponent gives a floating-point number
    if 0 ≤ b then .ok (.int (a ^ b.toNat))
    else inexactBinOp inexact .pow (.int a) (.int b)
| op, left, right => inexactBinOp inexact op left right

/- The functions of `_OPS` for one operand. -/
def applyUnaryOp
    (inexact : Inexact R) :
    UnaryOp → Value R → Except Raised (Value R)
| .uSub, .int n => .ok (.int (-n))
| _, .int n => .ok (.int n)
| op, .inexact r => do
    let r ← inexact.unary op r
    return .inexact r

/- `_safe_eval`. -/
def safeEval
    (inexact : Inexact R) :
    Expr R → Except Raised (Value R)
| .constant value => .ok value
| .binOp left op right =>
    if op = .other then
      .error notAllowed
    else do
      let left ← safeEval inexact left
      let right ← safeEval inexact right
      if op = .pow then
        let large ← powTooLarge inexact left right
        if large then
          .error tooLarge
        else
          applyBinOp inexact op left right
      else
        applyBinOp inexact op left right
| .unaryOp op operand =>
    if op = .other then
      .error notAllowed
    else do
      let value ← safeEval inexact operand
      applyUnaryOp inexact op value
| .other => .error notAllowed

------------------------------------------------------------
-- Size Of An Expression
------------------------------------------------------------

/- The number of decimal digits of an integer. -/
def digits (n : Int) : Nat :=
  digitCount 10 n.natAbs

namespace Expr

/- The number of powers. -/
def powers : Expr R → Nat
| .constant _ => 0
| .binOp left op right =>
    left.powers + right.powers + if op = .pow then 1 else 0
| .unaryOp _ operand => operand.powers
| .other => 0

/- The digits of all integers that are written. -/
def literalDigits : Expr R → Nat
| .constant (.int n) => digits n
| .constant (.inexact _) => 0
| .binOp left _ right =>
    left.literalDigits + right.literalDigits
| .unaryOp _ operand => operand.literalDigits
| .other => 0

/- The number of operators. -/
def operators : Expr R → Nat
| .constant _ => 0
| .binOp left _ right => left.operators + right.operators + 1
| .unaryOp _ operand => operand.operators + 1
| .other => 0

/- The digits that the value of an expression may have. -/
def budget (e : Expr R) : Nat :=
  6001 * e.powers + e.literalDigits + e.operators

/- An expression and all expressions in it. -/
def parts : Expr R → List (Expr R)
| .binOp left op right =>
    .binOp left op right :: (left.parts ++ right.parts)
| .unaryOp op operand => .unaryOp op operand :: operand.parts
| e => [e]

/- A part has no larger budget. -/
theorem budget_le_of_mem_parts
    {part e : Expr R}
    (hMem : part ∈ e.parts) :
    part.budget ≤ e.budget := by
  induction e with
  | constant value =>
      rw [List.mem_singleton.mp hMem]
  | binOp left op right ihLeft ihRight =>
      rcases List.mem_cons.mp hMem with rfl | hMem
      · exact Nat.le_refl _
      · rcases List.mem_append.mp hMem with hMem | hMem
        · have hLeft := ihLeft hMem
          simp only [budget, powers, literalDigits, operators]
            at hLeft ⊢
          omega
        · have hRight := ihRight hMem
          simp only [budget, powers, literalDigits, operators]
            at hRight ⊢
          omega
  | unaryOp op operand ih =>
      rcases List.mem_cons.mp hMem with rfl | hMem
      · exact Nat.le_refl _
      · have hOperand := ih hMem
        simp only [budget, powers, literalDigits, operators]
          at hOperand ⊢
        omega
  | other =>
      rw [List.mem_singleton.mp hMem]

end Expr

------------------------------------------------------------
-- One Operation
------------------------------------------------------------

section Operations

variable {inexact : Inexact R}

/- An inexact operation does not give an integer. -/
theorem inexactBinOp_ne_int
    {op : BinOp}
    {left right : Value R}
    {v : Int} :
    inexactBinOp inexact op left right ≠ .ok (.int v) := by
  intro hInt
  unfold inexactBinOp at hInt
  cases hBinary : inexact.binary op left right with
  | ok r =>
      rw [hBinary] at hInt
      cases hInt
  | error raised =>
      rw [hBinary] at hInt
      cases hInt

/- What gives an integer: an operation of two integers. -/
theorem applyBinOp_eq_int
    {op : BinOp}
    {left right : Value R}
    {v : Int}
    (hApply : applyBinOp inexact op left right = .ok (.int v)) :
    ∃ a b : Int,
      left = .int a ∧ right = .int b ∧
        (op = .add ∧ v = a + b ∨
          op = .sub ∧ v = a - b ∨
          op = .mult ∧ v = a * b ∨
          op = .floorDiv ∧ v = a.fdiv b ∨
          op = .mod ∧ b ≠ 0 ∧ v = a.fmod b ∨
          op = .pow ∧ v = a ^ b.toNat) := by
  unfold applyBinOp at hApply
  split at hApply
  · cases hApply
    exact ⟨_, _, rfl, rfl, by simp⟩
  · cases hApply
    exact ⟨_, _, rfl, rfl, by simp⟩
  · cases hApply
    exact ⟨_, _, rfl, rfl, by simp⟩
  · split at hApply
    · cases hApply
    · cases hApply
      exact ⟨_, _, rfl, rfl, by simp⟩
  · split at hApply
    · cases hApply
    · rename_i hDivisor
      cases hApply
      exact ⟨_, _, rfl, rfl, by simp [hDivisor]⟩
  · split at hApply
    · cases hApply
      exact ⟨_, _, rfl, rfl, by simp⟩
    · exact absurd hApply inexactBinOp_ne_int
  · exact absurd hApply inexactBinOp_ne_int

/- A sign does not change the digits. -/
theorem digits_neg (n : Int) : digits (-n) = digits n := by
  rw [digits, Int.natAbs_neg, digits]

/- A smaller absolute value has no more digits. -/
theorem digits_mono
    {m n : Int}
    (hLe : m.natAbs ≤ n.natAbs) :
    digits m ≤ digits n :=
  digitCount_mono (by decide) hLe

/- The digits of a sum. -/
theorem digits_add_le (a b : Int) :
    digits (a + b) ≤ digits a + digits b + 1 := by
  have hAbs : (a + b).natAbs ≤ a.natAbs + b.natAbs :=
    Int.natAbs_add_le a b
  have hMono :
      digitCount 10 (a + b).natAbs ≤
        digitCount 10 (a.natAbs + b.natAbs) :=
    digitCount_mono (by decide) hAbs
  have hAdd :
      digitCount 10 (a.natAbs + b.natAbs) ≤
        max (digits a) (digits b) + 1 :=
    digitCount_add_le (by decide) a.natAbs b.natAbs
  unfold digits at *
  omega

/-
  An operation that is no power: the result has the digits of
  both operands and one more at most.
-/
theorem digits_applyBinOp
    {op : BinOp}
    {left right : Value R}
    {v : Int}
    (hOp : op ≠ .pow)
    (hApply : applyBinOp inexact op left right = .ok (.int v)) :
    ∃ a b : Int,
      left = .int a ∧ right = .int b ∧
        digits v ≤ digits a + digits b + 1 := by
  rcases applyBinOp_eq_int hApply with
    ⟨a, b, hLeft, hRight, hCases⟩
  refine ⟨a, b, hLeft, hRight, ?_⟩
  rcases hCases with
    ⟨-, rfl⟩ | ⟨-, rfl⟩ | ⟨-, rfl⟩ | ⟨-, rfl⟩ | ⟨-, hDivisor, rfl⟩ |
      ⟨hPow, -⟩
  · exact digits_add_le a b
  · have hAdd := digits_add_le a (-b)
    rw [digits_neg] at hAdd
    exact hAdd
  · have hMul :
        digitCount 10 (a.natAbs * b.natAbs) ≤
          digits a + digits b :=
      digitCount_mul_le (by decide) a.natAbs b.natAbs
    rw [digits, Int.natAbs_mul]
    exact Nat.le_succ_of_le hMul
  · have hDiv : digits (a.fdiv b) ≤ digits a :=
      digits_mono (Int.natAbs_fdiv_le_natAbs a b)
    omega
  · have hMod : digits (a.fmod b) ≤ digits b :=
      digits_mono (Nat.le_of_lt (natAbs_fmod_lt a hDivisor))
    omega
  · exact absurd hPow hOp

/- The guard of a power of integers bounds both. -/
theorem powTooLarge_int
    {a b : Int}
    (hGuard :
      powTooLarge inexact (.int a) (.int b) = .ok false) :
    b.natAbs ≤ 1000 ∧ a.natAbs ≤ 1000000 := by
  unfold powTooLarge absExceeds at hGuard
  rw [ok_bind] at hGuard
  split at hGuard
  · cases hGuard
  · rename_i hExponent
    have hBase :
        decide (1000000 < a.natAbs) = false :=
      Except.ok.inj hGuard
    rw [decide_eq_false_iff_not] at hBase
    rw [decide_eq_true_iff] at hExponent
    omega

/- A power that the guard allows has at most 6001 digits. -/
theorem digits_applyPow
    {left right : Value R}
    {v : Int}
    (hGuard : powTooLarge inexact left right = .ok false)
    (hApply :
      applyBinOp inexact .pow left right = .ok (.int v)) :
    digits v ≤ 6001 := by
  rcases applyBinOp_eq_int hApply with
    ⟨a, b, rfl, rfl, hCases⟩
  have hPower : v = a ^ b.toNat := by
    simpa using hCases
  rcases powTooLarge_int hGuard with ⟨hExponent, hBase⟩
  have hDigits :
      digitCount 10 (a.natAbs ^ b.toNat) ≤ 6 * b.toNat + 1 :=
    digitCount_pow_le (by decide) hBase b.toNat
  rw [hPower, digits, Int.natAbs_pow]
  omega

/- A sign gives an integer of an integer only. -/
theorem applyUnaryOp_eq_int
    {op : UnaryOp}
    {value : Value R}
    {v : Int}
    (hApply : applyUnaryOp inexact op value = .ok (.int v)) :
    ∃ n : Int, value = .int n ∧ digits v = digits n := by
  cases value with
  | int n =>
      refine ⟨n, rfl, ?_⟩
      cases op with
      | uSub =>
          cases hApply
          exact digits_neg n
      | uAdd =>
          cases hApply
          rfl
      | other =>
          cases hApply
          rfl
  | inexact r =>
      cases hUnary : inexact.unary op r with
      | ok r' =>
          cases op <;>
            · rw [applyUnaryOp, hUnary] at hApply
              cases hApply
      | error raised =>
          cases op <;>
            · rw [applyUnaryOp, hUnary] at hApply
              cases hApply

end Operations

------------------------------------------------------------
-- Whole Expressions
------------------------------------------------------------

section Expressions

variable {inexact : Inexact R}

/- What an evaluated operation has gone through. -/
theorem safeEval_binOp
    {left right : Expr R}
    {op : BinOp}
    {value : Value R}
    (hEval :
      safeEval inexact (.binOp left op right) = .ok value) :
    ∃ first second,
      safeEval inexact left = .ok first ∧
        safeEval inexact right = .ok second ∧
          (op = .pow →
            powTooLarge inexact first second = .ok false) ∧
            applyBinOp inexact op first second = .ok value := by
  rw [safeEval] at hEval
  split at hEval
  · cases hEval
  · cases hLeft : safeEval inexact left with
    | error raised =>
        rw [hLeft] at hEval
        cases hEval
    | ok first =>
        cases hRight : safeEval inexact right with
        | error raised =>
            rw [hLeft, ok_bind, hRight] at hEval
            cases hEval
        | ok second =>
            rw [hLeft, ok_bind, hRight, ok_bind] at hEval
            refine ⟨first, second, rfl, rfl, ?_⟩
            by_cases hPow : op = .pow
            · rw [if_pos hPow] at hEval
              cases hGuard :
                  powTooLarge inexact first second with
              | error raised =>
                  rw [hGuard] at hEval
                  cases hEval
              | ok large =>
                  rw [hGuard, ok_bind] at hEval
                  cases large with
                  | true => cases hEval
                  | false => exact ⟨fun _ => rfl, hEval⟩
            · rw [if_neg hPow] at hEval
              exact ⟨fun hOp => absurd hOp hPow, hEval⟩

/- What an evaluated sign has gone through. -/
theorem safeEval_unaryOp
    {operand : Expr R}
    {op : UnaryOp}
    {value : Value R}
    (hEval :
      safeEval inexact (.unaryOp op operand) = .ok value) :
    ∃ first,
      safeEval inexact operand = .ok first ∧
        applyUnaryOp inexact op first = .ok value := by
  rw [safeEval] at hEval
  split at hEval
  · cases hEval
  · cases hOperand : safeEval inexact operand with
    | error raised =>
        rw [hOperand] at hEval
        cases hEval
    | ok first =>
        rw [hOperand, ok_bind] at hEval
        exact ⟨first, rfl, hEval⟩

/- The digits of an integer are within the budget. -/
theorem digits_safeEval
    {e : Expr R}
    {v : Int}
    (hEval : safeEval inexact e = .ok (.int v)) :
    digits v ≤ e.budget := by
  induction e generalizing v with
  | constant value =>
      cases hEval
      exact Nat.le_add_left _ _
  | binOp left op right ihLeft ihRight =>
      rcases safeEval_binOp hEval with
        ⟨first, second, hLeft, hRight, hGuard, hApply⟩
      by_cases hPow : op = .pow
      · subst hPow
        have hDigits := digits_applyPow (hGuard rfl) hApply
        simp only [Expr.budget, Expr.powers, if_true]
        omega
      · rcases digits_applyBinOp hPow hApply with
          ⟨a, b, rfl, rfl, hDigits⟩
        have hFirst := ihLeft hLeft
        have hSecond := ihRight hRight
        simp only [Expr.budget, Expr.powers, Expr.literalDigits,
          Expr.operators] at hFirst hSecond ⊢
        omega
  | unaryOp op operand ih =>
      rcases safeEval_unaryOp hEval with ⟨first, hFirst, hApply⟩
      rcases applyUnaryOp_eq_int hApply with ⟨n, rfl, hDigits⟩
      have hOperand := ih hFirst
      simp only [Expr.budget, Expr.powers, Expr.literalDigits,
        Expr.operators] at hOperand ⊢
      omega
  | other => cases hEval

/-
  An expression builds no huge integers: the integer that any
  of its parts evaluates to has at most 6001 digits for each
  power, one for each operator, and those that are written.
-/
theorem safeEval_digits_bounded
    (inexact : Inexact R)
    (e part : Expr R)
    (hPart : part ∈ e.parts)
    (v : Int)
    (hEval : safeEval inexact part = .ok (.int v)) :
    digits v ≤
      6001 * e.powers + e.literalDigits + e.operators :=
  Nat.le_trans (digits_safeEval hEval)
    (Expr.budget_le_of_mem_parts hPart)

/- No numbers but integers. -/
def integersOnly : Inexact Empty where
  binary _ _ _ := .error notAllowed
  unary _ r := nomatch r
  absExceeds r _ := nomatch r

/- The expression `2 * (3 + 4) ** 2`. -/
def squareTwice : Expr Empty :=
  .binOp (.constant (.int 2)) .mult
    (.binOp
      (.binOp (.constant (.int 3)) .add (.constant (.int 4)))
      .pow (.constant (.int 2)))

/- Its value has two digits, within what is allowed. -/
theorem safeEval_digits_bounded_square :
    safeEval integersOnly squareTwice = .ok (.int 98) ∧
      digits 98 = 2 ∧ digits 98 ≤ 6001 * 1 + 4 + 3 :=
  ⟨rfl, rfl,
    safeEval_digits_bounded integersOnly squareTwice squareTwice
      List.mem_cons_self 98 rfl⟩

/- The tower `9 ** 9 ** 9` is refused. -/
example :
    safeEval integersOnly
        (.binOp (.constant (.int 9)) .pow
          (.binOp (.constant (.int 9)) .pow
            (.constant (.int 9)))) =
      .error tooLarge :=
  rfl

end Expressions

end Calculator

end LegalAgent
