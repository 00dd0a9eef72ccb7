import Mathlib.Data.List.Basic
import Mathlib.Data.List.TakeDrop

/-
  Leftmost scanning of a list by a matcher.

  A `Matcher` reads one match at the head of its input.  The
  scan of an input is the list of its tokens: the matches
  found from left to right without overlap, and every element
  that no match covers.  This is the order in which a regular
  expression library finds and replaces matches.

  Key definitions include:
    * `Matcher`
    * `Matcher.scan`
    * `Matcher.hits`
    * `Matcher.replace`

  Key theorems include:
    * `Matcher.scan_cons`
    * `Matcher.scanInduction`
    * `Matcher.replace_nil_sublist`
    * `Matcher.hits_append_of_no_start`
    * `Matcher.hits_append_of_no_finish`
    * `Matcher.hit_at_suffix`
-/

------------------------------------------------------------
-- Matchers And Tokens
------------------------------------------------------------

namespace LegalAgent

namespace Library

/-
  A matcher reads one match at the head of its input and
  returns it with the rest of the input.  A match is never
  empty.
-/
structure Matcher (α β : Type) where
  read : List α → Option (β × List α)
  consumes :
    ∀ {input : List α} {value : β} {rest : List α},
      read input = some (value, rest) →
        ∃ front, front ≠ [] ∧ input = front ++ rest

/- A scanned input is made of plain elements and matches. -/
inductive Token (α β : Type) where
  | plain (element : α)
  | hit (value : β)

namespace Matcher

variable {α β : Type}

/- The rest after a match is shorter than the input. -/
theorem shorter
    (m : Matcher α β)
    {input rest : List α}
    {value : β}
    (hRead : m.read input = some (value, rest)) :
    rest.length < input.length := by
  rcases m.consumes hRead with ⟨front, hFront, hSplit⟩
  have hPositive : 0 < front.length :=
    List.length_pos_iff.mpr hFront
  rw [hSplit, List.length_append]
  omega

/- No match is read from an empty input. -/
theorem read_nil
    (m : Matcher α β) :
    m.read [] = none := by
  cases hRead : m.read [] with
  | none => rfl
  | some found =>
      have hShorter := m.shorter hRead
      simp at hShorter

/- Scan with an explicit bound on the number of tokens. -/
def scanWithin
    (m : Matcher α β) :
    Nat → List α → List (Token α β)
| 0, _ => []
| _ + 1, [] => []
| fuel + 1, x :: xs =>
    match m.read (x :: xs) with
    | some (value, rest) =>
        .hit value :: m.scanWithin fuel rest
    | none => .plain x :: m.scanWithin fuel xs

/- The tokens of an input. -/
def scan
    (m : Matcher α β)
    (input : List α) :
    List (Token α β) :=
  m.scanWithin input.length input

/- The matches of an input, in order. -/
def hits
    (m : Matcher α β)
    (input : List α) :
    List β :=
  (m.scan input).filterMap fun
    | .plain _ => none
    | .hit value => some value

/- Replace every match and keep every other element. -/
def replace
    (m : Matcher α β)
    (render : β → List α)
    (input : List α) :
    List α :=
  (m.scan input).flatMap fun
    | .plain x => [x]
    | .hit value => render value

------------------------------------------------------------
-- Scanning Equations
------------------------------------------------------------

/- A bound that covers the input does not change the scan. -/
theorem scanWithin_eq_scan
    (m : Matcher α β)
    {fuel : Nat}
    {input : List α}
    (hFuel : input.length ≤ fuel) :
    m.scanWithin fuel input = m.scan input := by
  suffices hAgree :
      ∀ (first second : Nat) (input : List α),
        input.length ≤ first →
          input.length ≤ second →
            m.scanWithin first input =
              m.scanWithin second input from
    hAgree fuel input.length input hFuel (Nat.le_refl _)
  intro first
  induction first with
  | zero =>
      intro second input hFirst _
      have hEmpty : input = [] :=
        List.eq_nil_of_length_eq_zero
          (Nat.le_zero.mp hFirst)
      subst hEmpty
      cases second <;> rfl
  | succ first ih =>
      intro second input hFirst hSecond
      cases input with
      | nil => cases second <;> rfl
      | cons x xs =>
          cases second with
          | zero => simp at hSecond
          | succ second =>
              simp only [List.length_cons,
                Nat.add_le_add_iff_right] at hFirst hSecond
              cases hRead : m.read (x :: xs) with
              | none =>
                  simp only [scanWithin, hRead]
                  rw [ih second xs hFirst hSecond]
              | some found =>
                  have hShorter := m.shorter hRead
                  simp only [List.length_cons] at hShorter
                  simp only [scanWithin, hRead]
                  rw [ih second found.2 (by omega)
                    (by omega)]

@[simp] theorem scan_nil
    (m : Matcher α β) :
    m.scan [] = [] := rfl

/- One step of a scan. -/
theorem scan_cons
    (m : Matcher α β)
    (x : α)
    (xs : List α) :
    m.scan (x :: xs) =
      match m.read (x :: xs) with
      | some (value, rest) => .hit value :: m.scan rest
      | none => .plain x :: m.scan xs := by
  unfold scan
  cases hRead : m.read (x :: xs) with
  | none => simp only [List.length_cons, scanWithin, hRead]
  | some found =>
      have hShorter := m.shorter hRead
      simp only [List.length_cons] at hShorter
      simp only [List.length_cons, scanWithin, hRead]
      rw [scanWithin_eq_scan m (by omega)]
      rfl

/- Induction that follows the scan of an input. -/
theorem scanInduction
    (m : Matcher α β)
    {motive : List α → Prop}
    (nil : motive [])
    (hit :
      ∀ (x : α) (xs : List α) (value : β) (rest : List α),
        m.read (x :: xs) = some (value, rest) →
          motive rest → motive (x :: xs))
    (plain :
      ∀ (x : α) (xs : List α),
        m.read (x :: xs) = none →
          motive xs → motive (x :: xs))
    (input : List α) :
    motive input := by
  suffices hBound :
      ∀ (bound : Nat) (input : List α),
        input.length ≤ bound → motive input from
    hBound input.length input (Nat.le_refl _)
  intro bound
  induction bound with
  | zero =>
      intro input hLength
      have hEmpty : input = [] :=
        List.eq_nil_of_length_eq_zero
          (Nat.le_zero.mp hLength)
      subst hEmpty
      exact nil
  | succ bound ih =>
      intro input hLength
      cases input with
      | nil => exact nil
      | cons x xs =>
          simp only [List.length_cons,
            Nat.add_le_add_iff_right] at hLength
          cases hRead : m.read (x :: xs) with
          | none => exact plain x xs hRead (ih xs hLength)
          | some found =>
              have hShorter := m.shorter hRead
              simp only [List.length_cons] at hShorter
              exact hit x xs found.1 found.2 hRead
                (ih found.2 (by omega))

------------------------------------------------------------
-- Matches Of An Input
------------------------------------------------------------

@[simp] theorem hits_nil
    (m : Matcher α β) :
    m.hits [] = [] := rfl

/- A match at the head is the first match. -/
theorem hits_of_read_some
    (m : Matcher α β)
    {x : α}
    {xs rest : List α}
    {value : β}
    (hRead : m.read (x :: xs) = some (value, rest)) :
    m.hits (x :: xs) = value :: m.hits rest := by
  simp only [hits, scan_cons, hRead, List.filterMap_cons]

/- An element where no match starts is skipped. -/
theorem hits_of_read_none
    (m : Matcher α β)
    {x : α}
    {xs : List α}
    (hRead : m.read (x :: xs) = none) :
    m.hits (x :: xs) = m.hits xs := by
  simp only [hits, scan_cons, hRead, List.filterMap_cons]

@[simp] theorem replace_nil
    (m : Matcher α β)
    (render : β → List α) :
    m.replace render [] = [] := rfl

/- A match at the head is replaced. -/
theorem replace_of_read_some
    (m : Matcher α β)
    {render : β → List α}
    {x : α}
    {xs rest : List α}
    {value : β}
    (hRead : m.read (x :: xs) = some (value, rest)) :
    m.replace render (x :: xs) =
      render value ++ m.replace render rest := by
  simp only [replace, scan_cons, hRead, List.flatMap_cons]

/- An element where no match starts is kept. -/
theorem replace_of_read_none
    (m : Matcher α β)
    {render : β → List α}
    {x : α}
    {xs : List α}
    (hRead : m.read (x :: xs) = none) :
    m.replace render (x :: xs) =
      x :: m.replace render xs := by
  simp only [replace, scan_cons, hRead, List.flatMap_cons,
    List.singleton_append]

/- Deleting the matches leaves a sublist of the input. -/
theorem replace_nil_sublist
    (m : Matcher α β)
    (input : List α) :
    (m.replace (fun _ => []) input).Sublist input := by
  induction input using m.scanInduction with
  | nil => exact List.Sublist.refl _
  | hit x xs value rest hRead ih =>
      rcases m.consumes hRead with ⟨front, -, hSplit⟩
      rw [replace_of_read_some m hRead, List.nil_append,
        hSplit]
      exact ih.trans (List.sublist_append_right front rest)
  | plain x xs hRead ih =>
      rw [replace_of_read_none m hRead]
      exact ih.cons_cons x

/-
  Elements at which no match can start contribute no match
  in front of an input.
-/
theorem hits_append_of_no_start
    (m : Matcher α β)
    {front : List α}
    (hFront :
      ∀ x ∈ front, ∀ xs : List α,
        m.read (x :: xs) = none)
    (input : List α) :
    m.hits (front ++ input) = m.hits input := by
  induction front with
  | nil => rfl
  | cons x xs ih =>
      have hHead : m.read (x :: (xs ++ input)) = none :=
        hFront x List.mem_cons_self (xs ++ input)
      rw [List.cons_append, hits_of_read_none m hHead]
      exact ih fun y hMem =>
        hFront y (List.mem_cons_of_mem x hMem)

/-
  When no match reaches into a back part and none lies in
  it, appending that part changes no match.
-/
theorem hits_append_of_no_finish
    (m : Matcher α β)
    {back : List α}
    (hBack : m.hits back = [])
    (hExtend :
      ∀ input : List α, input ≠ [] →
        m.read (input ++ back) =
          (m.read input).map fun found =>
            (found.1, found.2 ++ back))
    (input : List α) :
    m.hits (input ++ back) = m.hits input := by
  induction input using m.scanInduction with
  | nil => exact hBack
  | hit x xs value rest hRead ih =>
      have hWhole :
          m.read (x :: (xs ++ back)) =
            some (value, rest ++ back) := by
        have hStep :=
          hExtend (x :: xs) (List.cons_ne_nil x xs)
        rwa [hRead] at hStep
      rw [List.cons_append, hits_of_read_some m hWhole,
        hits_of_read_some m hRead, ih]
  | plain x xs hRead ih =>
      have hWhole : m.read (x :: (xs ++ back)) = none := by
        have hStep :=
          hExtend (x :: xs) (List.cons_ne_nil x xs)
        rwa [hRead] at hStep
      rw [List.cons_append, hits_of_read_none m hWhole,
        hits_of_read_none m hRead, ih]

/-
  A match that starts anywhere in an input is one of its
  matches, unless it starts strictly inside another match.
-/
theorem hit_at_suffix
    (m : Matcher α β)
    {input tail rest : List α}
    {value : β}
    (hSuffix : tail <:+ input)
    (hRead : m.read tail = some (value, rest)) :
    value ∈ m.hits input ∨
      ∃ outer ∈ m.hits input,
        ∃ whole after : List α,
          m.read whole = some (outer, after) ∧
            tail <:+ whole ∧ tail ≠ whole ∧
              after <:+ tail ∧ after ≠ tail := by
  induction input using m.scanInduction with
  | nil =>
      rw [List.suffix_nil.mp hSuffix, m.read_nil] at hRead
      cases hRead
  | hit x xs outer after hOuter ih =>
      rw [hits_of_read_some m hOuter]
      by_cases hWhole : tail = x :: xs
      · rw [hWhole, hOuter] at hRead
        cases hRead
        exact Or.inl List.mem_cons_self
      · rcases m.consumes hOuter with ⟨front, _, hSplit⟩
        have hAfter : after <:+ x :: xs :=
          ⟨front, hSplit.symm⟩
        by_cases hInner : tail <:+ after
        · rcases ih hInner with hMem | hMem
          · exact Or.inl (List.mem_cons_of_mem _ hMem)
          · rcases hMem with ⟨inner, hInnerMem, hRest⟩
            exact Or.inr
              ⟨inner, List.mem_cons_of_mem _ hInnerMem,
                hRest⟩
        · have hInside : after <:+ tail :=
            (List.suffix_or_suffix_of_suffix
              hSuffix hAfter).resolve_left hInner
          refine Or.inr
            ⟨outer, List.mem_cons_self, x :: xs, after,
              hOuter, hSuffix, hWhole, hInside, ?_⟩
          intro hEq
          exact hInner (hEq ▸ List.suffix_refl after)
  | plain x xs hPlain ih =>
      rw [hits_of_read_none m hPlain]
      rcases List.suffix_cons_iff.mp hSuffix with
        hWhole | hTail
      · rw [hWhole, hPlain] at hRead
        cases hRead
      · exact ih hTail

end Matcher

end Library

end LegalAgent
