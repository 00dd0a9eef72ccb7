import LegalAgent.Library.Scan
import Mathlib.Data.List.Infix

/-
  Replacing the occurrences of a word.

  A word is replaced from left to right, without overlap.  A
  text is left alone by a replacement exactly when no
  occurrence of the word starts in it.

  Key definitions include:
    * `Matcher.word`
    * `replaceWord`
    * `Clear`

  Key theorems include:
    * `replaceWord_append`
    * `replaceWord_append_iff`
-/

------------------------------------------------------------
-- Occurrences
------------------------------------------------------------

namespace LegalAgent

namespace Library

namespace Matcher

variable {α : Type}

/-
  No occurrence of a word starts in a text that stands in
  front of another.
-/
def Clear (word text behind : List α) : Prop :=
  ∀ front rest,
    text = front ++ rest → rest ≠ [] → ¬ word <+: rest ++ behind

/- Nothing starts in an empty text. -/
theorem clear_nil (word behind : List α) :
    Clear word [] behind := by
  intro front rest hSplit hRest
  exact absurd (List.append_eq_nil_iff.mp hSplit.symm).2 hRest

/- In a longer text nothing starts at its head or behind it. -/
theorem clear_cons_iff
    {word text behind : List α}
    {x : α} :
    Clear word (x :: text) behind ↔
      ¬ word <+: x :: (text ++ behind) ∧
        Clear word text behind := by
  constructor
  · intro hClear
    refine ⟨hClear [] (x :: text) rfl (List.cons_ne_nil _ _), ?_⟩
    intro front rest hSplit hRest
    exact hClear (x :: front) rest (by rw [hSplit]; rfl) hRest
  · rintro ⟨hHead, hClear⟩ front rest hSplit hRest
    cases front with
    | nil =>
        rw [List.nil_append] at hSplit
        rw [← hSplit]
        exact hHead
    | cons y front =>
        exact hClear front rest (List.cons.inj hSplit).2 hRest

------------------------------------------------------------
-- Replacement
------------------------------------------------------------

variable [DecidableEq α]

/- A word that is not empty, read literally. -/
def word (head : α) (tail : List α) : Matcher α Unit where
  read input :=
    if head :: tail <+: input then
      some ((), input.drop (head :: tail).length)
    else
      none
  consumes := by
    intro input value rest hRead
    split at hRead
    · rename_i hPrefix
      rcases hPrefix with ⟨more, rfl⟩
      rw [List.drop_left] at hRead
      cases hRead
      exact ⟨head :: tail, List.cons_ne_nil _ _, rfl⟩
    · cases hRead

/- Replace every occurrence of a word (`str.replace`). -/
def replaceWord
    (head : α)
    (tail : List α)
    (value input : List α) :
    List α :=
  (word head tail).replace (fun _ => value) input

/- A word in front of an input is replaced. -/
theorem replaceWord_append
    (head : α)
    (tail value input : List α) :
    replaceWord head tail value (head :: tail ++ input) =
      value ++ replaceWord head tail value input := by
  have hRead :
      (word head tail).read (head :: (tail ++ input)) =
        some ((), input) := by
    have hPrefix : head :: tail <+: head :: (tail ++ input) :=
      List.prefix_append (head :: tail) input
    change (if _ then _ else _) = _
    rw [if_pos hPrefix, ← List.cons_append, List.drop_left]
  exact replace_of_read_some _ hRead

/- An element where the word does not start is kept. -/
theorem replaceWord_cons
    {head : α}
    {tail : List α}
    {x : α}
    {input : List α}
    (hApart : ¬ head :: tail <+: x :: input)
    (value : List α) :
    replaceWord head tail value (x :: input) =
      x :: replaceWord head tail value input := by
  have hRead : (word head tail).read (x :: input) = none :=
    if_neg hApart
  exact replace_of_read_none _ hRead

/-
  A text is left alone, and what stands behind it is replaced
  as wanted, exactly when no occurrence starts in the text;
  the value must not start like the word.
-/
theorem replaceWord_append_iff
    {head : α}
    {tail value : List α}
    (hValue : value.head? ≠ some head)
    (hNil : value ≠ [])
    (text behind wanted : List α) :
    replaceWord head tail value (text ++ behind) =
        text ++ wanted ↔
      Clear (head :: tail) text behind ∧
        replaceWord head tail value behind = wanted := by
  induction text with
  | nil =>
      simp only [List.nil_append]
      exact (and_iff_right (clear_nil _ _)).symm
  | cons x text ih =>
      rw [clear_cons_iff]
      by_cases hHead : head :: tail <+: x :: (text ++ behind)
      · refine iff_of_false ?_ (fun hClear => hClear.1.1 hHead)
        rcases hHead with ⟨more, hMore⟩
        rcases List.exists_cons_of_ne_nil hNil with
          ⟨c, rest, rfl⟩
        have hText :
            x :: text ++ behind = head :: tail ++ more :=
          hMore.symm
        rw [hText, replaceWord_append]
        intro hEq
        have hFirst := (List.cons.inj hMore).1
        have hSame := (List.cons.inj hEq).1
        rw [hFirst, ← hSame] at hValue
        exact hValue rfl
      · rw [List.cons_append, replaceWord_cons hHead,
          List.cons_append, List.cons.injEq, ih]
        constructor
        · rintro ⟨-, hClear, hWanted⟩
          exact ⟨⟨hHead, hClear⟩, hWanted⟩
        · rintro ⟨⟨-, hClear⟩, hWanted⟩
          exact ⟨rfl, hClear, hWanted⟩

end Matcher

end Library

end LegalAgent
