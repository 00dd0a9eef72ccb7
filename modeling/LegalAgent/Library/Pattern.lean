import LegalAgent.Library.Scan
import Mathlib.Data.List.Forall2

/-
  Readers for the fixed parts of a pattern.

  A word is a list of character classes, one class for each
  element it reads.  A phrase is a list of words with optional
  blanks between them.  When no word of a phrase starts with a
  blank, reading the longest run of blanks loses no match, so
  the readers need no backtracking.

  Key definitions include:
    * `readWord`
    * `readPhrase`
    * `exactly`

  Key theorems include:
    * `readWord_eq_some_iff`
    * `readPhrase_suffix`
    * `readPhrase_append`
    * `readPhrase_of_stop`
-/

------------------------------------------------------------
-- Words
------------------------------------------------------------

namespace LegalAgent

namespace Library

variable {α : Type}

/- Read one element of each class and return the rest. -/
def readWord :
    List (α → Bool) → List α → Option (List α)
| [], input => some input
| _ :: _, [] => none
| p :: classes, x :: xs =>
    if p x then
      readWord classes xs
    else
      none

/- The classes of a word that is read literally. -/
def exactly
    [DecidableEq α]
    (word : List α) :
    List (α → Bool) :=
  word.map fun expected x => decide (x = expected)

/- A word is read exactly when the input starts with it. -/
theorem readWord_eq_some_iff
    {classes : List (α → Bool)}
    {input rest : List α} :
    readWord classes input = some rest ↔
      ∃ word,
        List.Forall₂ (fun p x => p x = true) classes word ∧
          input = word ++ rest := by
  induction classes generalizing input with
  | nil =>
      simp only [readWord, Option.some.injEq,
        List.forall₂_nil_left_iff, exists_eq_left,
        List.nil_append]
  | cons p classes ih =>
      cases input with
      | nil => simp [readWord, List.forall₂_cons_left_iff]
      | cons x xs =>
          by_cases hClass : p x = true
          · simp only [readWord, hClass, if_true, ih]
            constructor
            · rintro ⟨word, hWord, rfl⟩
              exact ⟨x :: word, .cons hClass hWord, rfl⟩
            · rintro ⟨_, hWord, hSplit⟩
              cases hWord with
              | @cons _ y _ word _ hWord =>
                  rcases List.cons.inj hSplit with ⟨-, rfl⟩
                  exact ⟨word, hWord, rfl⟩
          · simp only [readWord, hClass,
              Bool.false_eq_true, if_false, reduceCtorEq,
              false_iff]
            rintro ⟨_, hWord, hSplit⟩
            cases hWord with
            | @cons _ y _ word hHead _ =>
                rcases List.cons.inj hSplit with ⟨rfl, -⟩
                exact hClass hHead

/- The rest after a word is a suffix of the input. -/
theorem readWord_suffix
    {classes : List (α → Bool)}
    {input rest : List α}
    (hRead : readWord classes input = some rest) :
    rest <:+ input := by
  rcases readWord_eq_some_iff.mp hRead with ⟨word, _, hSplit⟩
  exact ⟨word, hSplit.symm⟩

/- A word with classes reads at least one element. -/
theorem readWord_shorter
    {p : α → Bool}
    {classes : List (α → Bool)}
    {input rest : List α}
    (hRead : readWord (p :: classes) input = some rest) :
    rest.length < input.length := by
  rcases readWord_eq_some_iff.mp hRead with ⟨word, hWord, rfl⟩
  have hLength := hWord.length_eq
  simp only [List.length_cons] at hLength
  rw [List.length_append]
  omega

------------------------------------------------------------
-- Phrases
------------------------------------------------------------

/- Read further words, each after optional blanks. -/
def readWords
    (blank : α → Bool) :
    List (List (α → Bool)) → List α → Option (List α)
| [], input => some input
| word :: words, input =>
    (readWord word (input.dropWhile blank)).bind
      (readWords blank words)

/- Read a word and further words after optional blanks. -/
def readPhrase
    (blank : α → Bool)
    (first : List (α → Bool))
    (words : List (List (α → Bool)))
    (input : List α) :
    Option (List α) :=
  (readWord first input).bind (readWords blank words)

/- The rest after further words is a suffix of the input. -/
theorem readWords_suffix
    {blank : α → Bool}
    {words : List (List (α → Bool))}
    {input rest : List α}
    (hRead : readWords blank words input = some rest) :
    rest <:+ input := by
  induction words generalizing input with
  | nil =>
      simp only [readWords, Option.some.injEq] at hRead
      exact hRead ▸ List.suffix_refl input
  | cons word words ih =>
      rcases Option.bind_eq_some_iff.mp hRead with
        ⟨middle, hWord, hTail⟩
      exact (ih hTail).trans
        ((readWord_suffix hWord).trans
          (List.dropWhile_suffix blank))

/- A phrase that starts with a class reads an element. -/
theorem readPhrase_shorter
    {blank : α → Bool}
    {first : List (α → Bool)}
    {words : List (List (α → Bool))}
    {input rest : List α}
    (hFirst : first ≠ [])
    (hRead :
      readPhrase blank first words input = some rest) :
    rest.length < input.length := by
  rcases List.exists_cons_of_ne_nil hFirst with ⟨p, others, rfl⟩
  rcases Option.bind_eq_some_iff.mp hRead with
    ⟨middle, hWord, hTail⟩
  exact Nat.lt_of_le_of_lt
    (readWords_suffix hTail).length_le
    (readWord_shorter hWord)

/- The rest after a phrase is a suffix of the input. -/
theorem readPhrase_suffix
    {blank : α → Bool}
    {first : List (α → Bool)}
    {words : List (List (α → Bool))}
    {input rest : List α}
    (hRead :
      readPhrase blank first words input = some rest) :
    rest <:+ input := by
  rcases Option.bind_eq_some_iff.mp hRead with
    ⟨middle, hWord, hTail⟩
  exact (readWords_suffix hTail).trans
    (readWord_suffix hWord)

------------------------------------------------------------
-- Reading In A Longer Input
------------------------------------------------------------

/- A word that is read is read in any longer input. -/
theorem readWord_append
    {classes : List (α → Bool)}
    {input rest : List α}
    (hRead : readWord classes input = some rest)
    (more : List α) :
    readWord classes (input ++ more) = some (rest ++ more) := by
  rcases readWord_eq_some_iff.mp hRead with ⟨word, hWord, rfl⟩
  exact readWord_eq_some_iff.mpr
    ⟨word, hWord, List.append_assoc word rest more⟩

/- Further words are read in any longer input. -/
theorem readWords_append
    {blank : α → Bool}
    {words : List (List (α → Bool))}
    (hWords : ∀ word ∈ words, word ≠ [])
    {input rest : List α}
    (hRead : readWords blank words input = some rest)
    (more : List α) :
    readWords blank words (input ++ more) =
      some (rest ++ more) := by
  induction words generalizing input with
  | nil =>
      simp only [readWords, Option.some.injEq] at hRead ⊢
      rw [hRead]
  | cons word words ih =>
      rcases Option.bind_eq_some_iff.mp hRead with
        ⟨middle, hWord, hTail⟩
      -- a word is not empty, so the blanks end in the input
      have hBlanks :
          (input ++ more).dropWhile blank =
            input.dropWhile blank ++ more := by
        rw [List.dropWhile_append, if_neg]
        rw [List.isEmpty_iff]
        intro hEmpty
        rw [hEmpty] at hWord
        rcases
            List.exists_cons_of_ne_nil
              (hWords word List.mem_cons_self) with
          ⟨p, others, rfl⟩
        cases hWord
      rw [readWords, hBlanks, readWord_append hWord more]
      exact ih
        (fun other hOther =>
          hWords other (List.mem_cons_of_mem _ hOther))
        hTail

/- A phrase that is read is read in any longer input. -/
theorem readPhrase_append
    {blank : α → Bool}
    {first : List (α → Bool)}
    {words : List (List (α → Bool))}
    (hWords : ∀ word ∈ words, word ≠ [])
    {input rest : List α}
    (hRead :
      readPhrase blank first words input = some rest)
    (more : List α) :
    readPhrase blank first words (input ++ more) =
      some (rest ++ more) := by
  rcases Option.bind_eq_some_iff.mp hRead with
    ⟨middle, hFirst, hTail⟩
  rw [readPhrase, readWord_append hFirst more]
  exact readWords_append hWords hTail more

/-
  An element that no class accepts ends a word: what is read
  in front of it is read without it.
-/
theorem readWord_of_stop
    {classes : List (α → Bool)}
    {stop : α}
    (hStop : ∀ p ∈ classes, p stop = false)
    {input more rest : List α}
    (hRead :
      readWord classes (input ++ stop :: more) = some rest) :
    ∃ before,
      readWord classes input = some before ∧
        rest = before ++ stop :: more := by
  induction classes generalizing input with
  | nil =>
      simp only [readWord, Option.some.injEq] at hRead ⊢
      exact ⟨input, rfl, hRead.symm⟩
  | cons p classes ih =>
      cases input with
      | nil =>
          rw [List.nil_append, readWord,
            hStop p List.mem_cons_self] at hRead
          cases hRead
      | cons x input =>
          rw [List.cons_append, readWord] at hRead
          rw [readWord]
          split at hRead
          · rename_i hClass
            rw [if_pos hClass]
            exact ih
              (fun q hMem =>
                hStop q (List.mem_cons_of_mem p hMem))
              hRead
          · cases hRead

/- Such an element ends further words as well. -/
theorem readWords_of_stop
    {blank : α → Bool}
    {words : List (List (α → Bool))}
    {stop : α}
    (hBlank : blank stop = false)
    (hStop : ∀ word ∈ words, ∀ p ∈ word, p stop = false)
    {input more rest : List α}
    (hRead :
      readWords blank words (input ++ stop :: more) =
        some rest) :
    ∃ before,
      readWords blank words input = some before ∧
        rest = before ++ stop :: more := by
  induction words generalizing input with
  | nil =>
      simp only [readWords, Option.some.injEq] at hRead ⊢
      exact ⟨input, rfl, hRead.symm⟩
  | cons word words ih =>
      rcases Option.bind_eq_some_iff.mp hRead with
        ⟨middle, hWord, hTail⟩
      have hBlanks :
          (input ++ stop :: more).dropWhile blank =
            input.dropWhile blank ++ stop :: more := by
        rw [List.dropWhile_append]
        split
        · rename_i hEmpty
          rw [List.isEmpty_iff.mp hEmpty,
            List.dropWhile_cons_of_neg (by simp [hBlank])]
          rfl
        · rfl
      rw [hBlanks] at hWord
      rcases
          readWord_of_stop
            (hStop word List.mem_cons_self) hWord with
        ⟨before, hBefore, rfl⟩
      rcases
          ih
            (fun other hOther =>
              hStop other (List.mem_cons_of_mem word hOther))
            hTail with
        ⟨last, hLast, rfl⟩
      refine ⟨last, ?_, rfl⟩
      rw [readWords, hBefore]
      exact hLast

/- Such an element ends a phrase. -/
theorem readPhrase_of_stop
    {blank : α → Bool}
    {first : List (α → Bool)}
    {words : List (List (α → Bool))}
    {stop : α}
    (hBlank : blank stop = false)
    (hStop :
      ∀ word ∈ first :: words, ∀ p ∈ word, p stop = false)
    {input more rest : List α}
    (hRead :
      readPhrase blank first words (input ++ stop :: more) =
        some rest) :
    ∃ before,
      readPhrase blank first words input = some before ∧
        rest = before ++ stop :: more := by
  rcases Option.bind_eq_some_iff.mp hRead with
    ⟨middle, hFirst, hTail⟩
  rcases
      readWord_of_stop (hStop first List.mem_cons_self) hFirst with
    ⟨before, hBefore, rfl⟩
  rcases
      readWords_of_stop hBlank
        (fun word hWord =>
          hStop word (List.mem_cons_of_mem first hWord))
        hTail with
    ⟨last, hLast, rfl⟩
  refine ⟨last, ?_, rfl⟩
  rw [readPhrase, hBefore]
  exact hLast

end Library

end LegalAgent
