import LegalAgent.Library.Pattern
import Mathlib.Data.List.TakeWhile

/-
  Citation markers in an answer.

  The backend recognises `[[cite:id]]` without regard to case
  (`_CITE` of `run_service.py`); the front end recognises it in
  lower case and without white space (`markdown.ts`).  A text
  is the list of its code points.

  Key definitions include:
    * `strip`
    * `cite`
    * `citeFindall`
    * `normaliseMarkers`
    * `inlineCite`

  Key theorems include:
    * `readCite_eq_some_iff`
    * `citeFindall_append_left`
    * `citeFindall_append_right`
    * `citeFindall_strip`
    * `mem_citeFindall_of_inside`
    * `exists_inlineCite_iff`
    * `marker_inside_strip`
-/

------------------------------------------------------------
-- Texts And White Space
------------------------------------------------------------

namespace LegalAgent

open Library

/- A text is a list of code points. -/
abbrev Text :=
  List Char

namespace Text

/- The characters that `str.strip` removes. -/
def isSpace (c : Char) : Bool :=
  let n := c.toNat
  (9 ≤ n && n ≤ 13) || (28 ≤ n && n ≤ 32) ||
    n == 0x85 || n == 0xA0 || n == 0x1680 ||
    (0x2000 ≤ n && n ≤ 0x200A) || n == 0x2028 ||
    n == 0x2029 || n == 0x202F || n == 0x205F ||
    n == 0x3000

/- White space of a regular expression in the front end. -/
def isScriptSpace (c : Char) : Bool :=
  let n := c.toNat
  (9 ≤ n && n ≤ 13) || n == 0x20 || n == 0xA0 ||
    n == 0x1680 || (0x2000 ≤ n && n ≤ 0x200A) ||
    n == 0x2028 || n == 0x2029 || n == 0x202F ||
    n == 0x205F || n == 0x3000 || n == 0xFEFF

/- Remove white space at both ends (`str.strip`). -/
def strip (text : Text) : Text :=
  ((text.dropWhile isSpace).reverse.dropWhile
    isSpace).reverse

/- Stripping cuts white space off both ends. -/
theorem strip_spec (text : Text) :
    ∃ front back : Text,
      (∀ c ∈ front, isSpace c = true) ∧
        (∀ c ∈ back, isSpace c = true) ∧
          text = front ++ strip text ++ back := by
  let middle := text.dropWhile isSpace
  refine
    ⟨text.takeWhile isSpace,
      (middle.reverse.takeWhile isSpace).reverse,
      fun c hMem => List.mem_takeWhile_imp hMem, ?_, ?_⟩
  · intro c hMem
    exact List.mem_takeWhile_imp (List.mem_reverse.mp hMem)
  · have hMiddle :
        middle = strip text ++
          (middle.reverse.takeWhile isSpace).reverse := by
      have hSplit := congrArg List.reverse
        (List.takeWhile_append_dropWhile
          (p := isSpace) (l := middle.reverse))
      rw [List.reverse_append, List.reverse_reverse]
        at hSplit
      exact hSplit.symm
    rw [List.append_assoc, ← hMiddle]
    exact (List.takeWhile_append_dropWhile
      (p := isSpace) (l := text)).symm

/- A stripped text is a part of the text. -/
theorem mem_of_mem_strip
    {text : Text}
    {c : Char}
    (hMem : c ∈ strip text) :
    c ∈ text := by
  rcases strip_spec text with ⟨front, back, -, -, hSplit⟩
  rw [hSplit]
  exact List.mem_append_left back
    (List.mem_append_right front hMem)

end Text

------------------------------------------------------------
-- The Backend's Marker Pattern
------------------------------------------------------------

/- Whether a character does not close a marker. -/
def notClose (c : Char) : Bool :=
  decide (c ≠ ']')

/-
  The opening of a marker, with the case folding of a
  pattern compiled with `re.IGNORECASE`: besides its two
  cases, `i` also matches the dotted capital and the dotless
  small letter.
-/
def citeOpen : List (Char → Bool) :=
  [fun c => c = '[', fun c => c = '[',
    fun c => c = 'c' || c = 'C',
    fun c => c = 'i' || c = 'I' || c = 'İ' || c = 'ı',
    fun c => c = 't' || c = 'T',
    fun c => c = 'e' || c = 'E',
    fun c => c = ':']

/- The end of a marker. -/
def citeClose : List (Char → Bool) :=
  exactly [']', ']']

/- Read one marker and return the id it captures. -/
def readCite (input : Text) : Option (Text × Text) :=
  (readWord citeOpen input).bind fun rest =>
    if rest.takeWhile notClose = [] then
      none
    else
      (readWord citeClose (rest.dropWhile notClose)).map
        fun tail => (rest.takeWhile notClose, tail)

/- The words that close a marker. -/
theorem readWord_citeClose_eq_some_iff
    {input tail : Text} :
    readWord citeClose input = some tail ↔
      input = ']' :: ']' :: tail := by
  rw [readWord_eq_some_iff]
  constructor
  · rintro ⟨_, hWord, rfl⟩
    simp only [citeClose, exactly, List.map_cons,
      List.map_nil, List.forall₂_cons_left_iff,
      List.forall₂_nil_left_iff,
      decide_eq_true_eq] at hWord
    rcases hWord with ⟨_, _, rfl, ⟨_, _, rfl, rfl, rfl⟩, rfl⟩
    rfl
  · rintro rfl
    exact ⟨[']', ']'], by simp [citeClose, exactly], rfl⟩

/- A marker is an opening, an id without `]`, and `]]`. -/
theorem readCite_eq_some_iff
    {input id tail : Text} :
    readCite input = some (id, tail) ↔
      ∃ opening,
        List.Forall₂ (fun p c => p c = true)
            citeOpen opening ∧
          id ≠ [] ∧ ']' ∉ id ∧
            input =
              opening ++ id ++ ']' :: ']' :: tail := by
  constructor
  · intro hRead
    rcases Option.bind_eq_some_iff.mp hRead with
      ⟨rest, hOpen, hRest⟩
    rcases readWord_eq_some_iff.mp hOpen with
      ⟨opening, hOpening, rfl⟩
    split at hRest
    · cases hRest
    · rename_i hId
      rcases Option.map_eq_some_iff.mp hRest with
        ⟨tail', hClose, hEq⟩
      rcases Prod.mk.inj hEq with ⟨rfl, rfl⟩
      rw [readWord_citeClose_eq_some_iff] at hClose
      refine ⟨opening, hOpening, hId, ?_, ?_⟩
      · intro hMem
        have hKept := List.mem_takeWhile_imp hMem
        simp [notClose] at hKept
      · rw [← hClose, List.append_assoc,
          List.takeWhile_append_dropWhile]
  · rintro ⟨opening, hOpening, hId, hClosed, rfl⟩
    have hKept : ∀ c ∈ id, notClose c = true := by
      intro c hMem
      have hNe : c ≠ ']' := fun hEq => hClosed (hEq ▸ hMem)
      simpa [notClose] using hNe
    have hOpen :
        readWord citeOpen
            (opening ++ id ++ ']' :: ']' :: tail) =
          some (id ++ ']' :: ']' :: tail) :=
      readWord_eq_some_iff.mpr
        ⟨opening, hOpening, by rw [List.append_assoc]⟩
    have hTake :
        (id ++ ']' :: ']' :: tail).takeWhile notClose =
          id := by
      rw [List.takeWhile_append_of_pos hKept]
      simp [notClose]
    have hDrop :
        (id ++ ']' :: ']' :: tail).dropWhile notClose =
          ']' :: ']' :: tail := by
      rw [List.dropWhile_append_of_pos hKept]
      simp [notClose]
    have hClose :
        readWord citeClose (']' :: ']' :: tail) =
          some tail :=
      readWord_citeClose_eq_some_iff.mpr rfl
    simp only [readCite, hOpen, Option.bind_some, hTake,
      hDrop, hClose, Option.map_some, if_neg hId]

/- The backend's pattern as a matcher. -/
def cite : Matcher Char Text where
  read := readCite
  consumes := by
    intro input id tail hRead
    rcases readCite_eq_some_iff.mp hRead with
      ⟨opening, _, hId, _, rfl⟩
    refine ⟨opening ++ id ++ [']', ']'], ?_, ?_⟩
    · simp
    · simp

/- The ids of the markers of a text (`_CITE.findall`). -/
def citeFindall (text : Text) : List Text :=
  cite.hits text

/- A marker with an id as the front end writes it. -/
def marker (id : Text) : Text :=
  ['[', '[', 'c', 'i', 't', 'e', ':'] ++ id ++ [']', ']']

/-
  Rewrite every marker in lower case and without white space
  around its id (`_CITE.sub` of `_finalize`).
-/
def normaliseMarkers (body : Text) : Text :=
  cite.replace (fun id => marker (Text.strip id)) body

------------------------------------------------------------
-- Markers Of Composed Texts
------------------------------------------------------------

/- A marker starts with an opening bracket. -/
theorem readCite_eq_none_of_ne
    {c : Char}
    {rest : Text}
    (hStart : c ≠ '[') :
    readCite (c :: rest) = none := by
  have hOpen : readWord citeOpen (c :: rest) = none := by
    simp [citeOpen, readWord, hStart]
  simp only [readCite, hOpen, Option.bind_none]

/- Text without `[` in front adds no marker. -/
theorem citeFindall_append_left
    {front : Text}
    (hFront : '[' ∉ front)
    (body : Text) :
    citeFindall (front ++ body) = citeFindall body := by
  apply cite.hits_append_of_no_start
  intro c hMem rest
  exact readCite_eq_none_of_ne
    fun hEq => hFront (hEq ▸ hMem)

/- A text without `]` has no marker. -/
theorem readCite_eq_none_of_not_mem
    {input : Text}
    (hClose : ']' ∉ input) :
    readCite input = none := by
  cases hRead : readCite input with
  | none => rfl
  | some found =>
      rcases found with ⟨id, tail⟩
      rcases readCite_eq_some_iff.mp hRead with
        ⟨opening, _, _, _, rfl⟩
      exact absurd (by simp) hClose

/- A text without `]` has no marker anywhere. -/
theorem citeFindall_eq_nil
    {text : Text}
    (hClose : ']' ∉ text) :
    citeFindall text = [] := by
  induction text with
  | nil => rfl
  | cons c rest ih =>
      have hHead : cite.read (c :: rest) = none :=
        readCite_eq_none_of_not_mem hClose
      rw [citeFindall, cite.hits_of_read_none hHead]
      exact ih fun hMem =>
        hClose (List.mem_cons_of_mem c hMem)

/- A marker of a text followed by text without `]`. -/
theorem readCite_append
    {back : Text}
    (hBack : ']' ∉ back)
    (input : Text) :
    readCite (input ++ back) =
      (readCite input).map fun found =>
        (found.1, found.2 ++ back) := by
  cases hRead : readCite input with
  | some found =>
      rcases found with ⟨id, tail⟩
      rcases readCite_eq_some_iff.mp hRead with
        ⟨opening, hOpening, hId, hClosed, rfl⟩
      exact readCite_eq_some_iff.mpr
        ⟨opening, hOpening, hId, hClosed, by simp⟩
  | none =>
      cases hWhole : readCite (input ++ back) with
      | none => rfl
      | some found =>
          rcases found with ⟨id, tail⟩
          rcases readCite_eq_some_iff.mp hWhole with
            ⟨opening, hOpening, hId, hClosed, hSplit⟩
          have hSplit' :
              input ++ back =
                (opening ++ id ++ [']', ']']) ++ tail := by
            rw [hSplit]
            simp
          -- the closing brackets cannot lie in the back part
          rcases List.append_eq_append_iff.mp hSplit' with
            ⟨rest, hMarker, hTail⟩ | ⟨rest, hInput, _⟩
          · have hRest : rest = [] := by
              by_contra hNe
              have hLast : rest.getLast hNe = ']' := by
                have hEq :=
                  congrArg List.getLast? hMarker
                rw [List.getLast?_append_of_ne_nil _ hNe,
                  List.getLast?_eq_some_getLast hNe] at hEq
                simpa using hEq.symm
              apply hBack
              rw [hTail, List.mem_append]
              exact Or.inl
                (hLast ▸ List.getLast_mem hNe)
            rw [hRest, List.append_nil] at hMarker
            have hFound :
                readCite input = some (id, []) :=
              readCite_eq_some_iff.mpr
                ⟨opening, hOpening, hId, hClosed,
                  by rw [← hMarker]⟩
            rw [hRead] at hFound
            cases hFound
          · have hFound :
                readCite input = some (id, rest) :=
              readCite_eq_some_iff.mpr
                ⟨opening, hOpening, hId, hClosed,
                  by rw [hInput]; simp⟩
            rw [hRead] at hFound
            cases hFound

/- Text without `]` behind adds no marker. -/
theorem citeFindall_append_right
    {back : Text}
    (hBack : ']' ∉ back)
    (body : Text) :
    citeFindall (body ++ back) = citeFindall body :=
  cite.hits_append_of_no_finish
    (citeFindall_eq_nil hBack)
    (fun input _ => readCite_append hBack input) body

/- What stripping cuts off has no bracket. -/
theorem strip_brackets (text : Text) :
    ∃ front back : Text,
      '[' ∉ front ∧ ']' ∉ back ∧
        text = front ++ Text.strip text ++ back := by
  rcases Text.strip_spec text with
    ⟨front, back, hFront, hBack, hSplit⟩
  refine ⟨front, back, ?_, ?_, hSplit⟩
  · intro hMem
    have hSpace := hFront _ hMem
    simp [Text.isSpace] at hSpace
  · intro hMem
    have hSpace := hBack _ hMem
    simp [Text.isSpace] at hSpace

/- Stripping keeps every marker. -/
theorem citeFindall_strip (text : Text) :
    citeFindall (Text.strip text) = citeFindall text := by
  rcases strip_brackets text with
    ⟨front, back, hNoOpen, hNoClose, hSplit⟩
  calc
    citeFindall (Text.strip text)
    _ = citeFindall (front ++ Text.strip text) :=
      (citeFindall_append_left hNoOpen _).symm
    _ = citeFindall (front ++ Text.strip text ++ back) :=
      (citeFindall_append_right hNoClose _).symm
    _ = citeFindall text := by rw [← hSplit]

------------------------------------------------------------
-- The Front End's Marker Rule
------------------------------------------------------------

/- Whether a character may stand in the id of a marker. -/
def inlineIdChar (c : Char) : Bool :=
  notClose c && !Text.isScriptSpace c

/-
  The inline rule of the front end at one position: the id
  of the marker that starts there.
-/
def inlineCite (input : Text) : Option Text :=
  (readWord (exactly ['[', '[', 'c', 'i', 't', 'e', ':'])
      input).bind fun rest =>
    if rest.takeWhile inlineIdChar = [] then
      none
    else
      (readWord citeClose
          (rest.dropWhile inlineIdChar)).map
        fun _ => rest.takeWhile inlineIdChar

/- A marker of the front end is a marker of the backend. -/
theorem readCite_of_inlineCite
    {input id : Text}
    (hInline : inlineCite input = some id) :
    ∃ tail,
      input = marker id ++ tail ∧
        readCite input = some (id, tail) := by
  rcases Option.bind_eq_some_iff.mp hInline with
    ⟨rest, hOpen, hRest⟩
  rcases readWord_eq_some_iff.mp hOpen with
    ⟨opening, hOpening, rfl⟩
  split at hRest
  · cases hRest
  · rename_i hId
    rcases Option.map_eq_some_iff.mp hRest with
      ⟨tail, hClose, rfl⟩
    rw [readWord_citeClose_eq_some_iff] at hClose
    have hWord :
        opening = ['[', '[', 'c', 'i', 't', 'e', ':'] := by
      simp only [exactly, List.map_cons, List.map_nil,
        List.forall₂_cons_left_iff,
        List.forall₂_nil_left_iff,
        decide_eq_true_eq] at hOpening
      rcases hOpening with
        ⟨_, _, rfl, ⟨_, _, rfl, ⟨_, _, rfl,
          ⟨_, _, rfl, ⟨_, _, rfl, ⟨_, _, rfl, ⟨_, _, rfl,
          rfl, rfl⟩, rfl⟩, rfl⟩, rfl⟩, rfl⟩, rfl⟩, rfl⟩
      rfl
    have hSplit :
        rest = rest.takeWhile inlineIdChar ++
          ']' :: ']' :: tail := by
      rw [← hClose, List.takeWhile_append_dropWhile]
    have hClosed : ']' ∉ rest.takeWhile inlineIdChar := by
      intro hMem
      have hKept := List.mem_takeWhile_imp hMem
      simp [inlineIdChar, notClose] at hKept
    refine ⟨tail, ?_, readCite_eq_some_iff.mpr
      ⟨opening, ?_, hId, hClosed, ?_⟩⟩
    · conv_lhs => rw [hSplit]
      simp [marker, hWord]
    · rw [hWord]
      simp [citeOpen]
    · conv_lhs => rw [hSplit]
      simp

/- A suffix that starts inside a front part. -/
theorem mem_or_suffix_of_suffix_append
    {c : Char}
    {tail front back : Text}
    (hSuffix : c :: tail <:+ front ++ back) :
    c ∈ front ∨ c :: tail <:+ back := by
  induction front with
  | nil => exact Or.inr hSuffix
  | cons x xs ih =>
      rcases List.suffix_cons_iff.mp hSuffix with
        hHead | hTail
      · rcases List.cons.inj hHead with ⟨rfl, -⟩
        exact Or.inl List.mem_cons_self
      · rcases ih hTail with hMem | hBack
        · exact Or.inl (List.mem_cons_of_mem x hMem)
        · exact Or.inr hBack

/- An opening inside another marker lies in its id. -/
theorem mem_of_opening_inside
    {inside whole outer after : Text}
    (hOuter : readCite whole = some (outer, after))
    (hInside : '[' :: '[' :: inside <:+ whole)
    (hNe : '[' :: '[' :: inside ≠ whole)
    (hAfter : ¬ '[' :: '[' :: inside <:+ after) :
    '[' ∈ outer := by
  rcases readCite_eq_some_iff.mp hOuter with
    ⟨opening, hOpening, _, _, rfl⟩
  simp only [citeOpen, List.forall₂_cons_left_iff,
    List.forall₂_nil_left_iff, decide_eq_true_eq,
    Bool.or_eq_true] at hOpening
  rcases hOpening with
    ⟨_, _, rfl, ⟨_, _, rfl, ⟨c, _, hc, ⟨i, _, hi,
      ⟨t, _, ht, ⟨e, _, he, ⟨_, _, rfl, rfl, rfl⟩,
      rfl⟩, rfl⟩, rfl⟩, rfl⟩, rfl⟩, rfl⟩
  have hPast :
      '[' :: '[' :: inside <:+
        outer ++ (']' :: ']' :: after) := by
    simp only [List.cons_append, List.nil_append,
      List.suffix_cons_iff, List.cons.injEq] at hInside
    rcases hInside with hEq | hEq | hEq | hEq | hEq | hEq |
      hEq | hEq
    · exact absurd (by simpa using hEq) hNe
    · rcases hEq with ⟨-, rfl, -⟩
      simp at hc
    · rcases hEq with ⟨rfl, -⟩
      simp at hc
    · rcases hEq with ⟨rfl, -⟩
      simp at hi
    · rcases hEq with ⟨rfl, -⟩
      simp at ht
    · rcases hEq with ⟨rfl, -⟩
      simp at he
    · rcases hEq with ⟨hColon, -⟩
      simp at hColon
    · exact hEq
  rcases mem_or_suffix_of_suffix_append hPast with
    hMem | hClose
  · exact hMem
  · exfalso
    rcases List.suffix_cons_iff.mp hClose with hEq | hClose
    · simp at hEq
    · rcases List.suffix_cons_iff.mp hClose with
        hEq | hClose
      · simp at hEq
      · exact hAfter hClose

/-
  A marker anywhere in a text is found when no id that is
  found contains a bracket.
-/
theorem mem_citeFindall_of_inside
    {text whole id : Text}
    (hPlain : ∀ found ∈ citeFindall text, '[' ∉ found)
    (hInfix : whole <:+: text)
    (hRead : readCite whole = some (id, [])) :
    id ∈ citeFindall text := by
  rcases hInfix with ⟨front, back, rfl⟩
  have hTail :
      cite.read (whole ++ back) = some (id, back) := by
    rcases readCite_eq_some_iff.mp hRead with
      ⟨opening, hOpening, hId, hClosed, rfl⟩
    exact
      readCite_eq_some_iff.mpr
        ⟨opening, hOpening, hId, hClosed, by simp⟩
  have hSuffix : whole ++ back <:+ front ++ whole ++ back :=
    ⟨front, (List.append_assoc front whole back).symm⟩
  rcases cite.hit_at_suffix hSuffix hTail with
    hMem | ⟨outer, hMem, around, after, hOuter, hInside, hNe,
      hAfter, hNeAfter⟩
  · exact hMem
  · exfalso
    have hOpens :
        ∃ inside, whole ++ back = '[' :: '[' :: inside := by
      rcases readCite_eq_some_iff.mp hRead with
        ⟨opening, hOpening, _, _, rfl⟩
      simp only [citeOpen, List.forall₂_cons_left_iff,
        decide_eq_true_eq] at hOpening
      rcases hOpening with
        ⟨_, _, rfl, ⟨_, _, rfl, _, rfl⟩, rfl⟩
      exact ⟨_, rfl⟩
    rcases hOpens with ⟨inside, hOpens⟩
    rw [hOpens] at hInside hNe hAfter hNeAfter
    refine
      hPlain outer hMem
        (mem_of_opening_inside hOuter hInside hNe ?_)
    intro hBack
    exact hNeAfter (hAfter.eq_of_length_le hBack.length_le)

/- The marker of an id is read as one. -/
theorem readCite_marker
    {id : Text}
    (hId : id ≠ [])
    (hClosed : ']' ∉ id)
    (rest : Text) :
    readCite (marker id ++ rest) = some (id, rest) :=
  readCite_eq_some_iff.mpr
    ⟨['[', '[', 'c', 'i', 't', 'e', ':'], by simp [citeOpen],
      hId, hClosed, by simp [marker]⟩

/- So is the marker of an id of the front end. -/
theorem readCite_marker_of_inline
    {id : Text}
    (hId : id ≠ [])
    (hChars : ∀ c ∈ id, inlineIdChar c = true) :
    readCite (marker id) = some (id, []) := by
  have hClosed : ']' ∉ id := by
    intro hMem
    have hChar := hChars ']' hMem
    revert hChar
    decide
  have hRead := readCite_marker hId hClosed []
  rwa [List.append_nil] at hRead

/- A marker of the front end is the marker of its id. -/
theorem inlineCite_marker_iff
    {tail id : Text} :
    inlineCite tail = some id ↔
      marker id <+: tail ∧
        id ≠ [] ∧ ∀ c ∈ id, inlineIdChar c = true := by
  constructor
  · intro hInline
    rcases readCite_of_inlineCite hInline with
      ⟨rest, rfl, hRead⟩
    rcases readCite_eq_some_iff.mp hRead with
      ⟨_, _, hId, _, _⟩
    refine ⟨List.prefix_append _ _, hId, ?_⟩
    rcases Option.bind_eq_some_iff.mp hInline with
      ⟨behind, -, hBehind⟩
    split at hBehind
    · cases hBehind
    · rcases Option.map_eq_some_iff.mp hBehind with
        ⟨_, -, rfl⟩
      exact fun c hMem => List.mem_takeWhile_imp hMem
  · rintro ⟨⟨rest, rfl⟩, hId, hChars⟩
    have hClose : inlineIdChar ']' = false := by decide
    have hOpen :
        readWord (exactly ['[', '[', 'c', 'i', 't', 'e', ':'])
            (marker id ++ rest) =
          some (id ++ ']' :: ']' :: rest) := by
      rw [readWord_eq_some_iff]
      exact
        ⟨['[', '[', 'c', 'i', 't', 'e', ':'],
          by simp [exactly], by simp [marker]⟩
    have hTake :
        (id ++ ']' :: ']' :: rest).takeWhile inlineIdChar =
          id := by
      rw [List.takeWhile_append_of_pos hChars]
      simp [hClose]
    have hDrop :
        (id ++ ']' :: ']' :: rest).dropWhile inlineIdChar =
          ']' :: ']' :: rest := by
      rw [List.dropWhile_append_of_pos hChars]
      simp [hClose]
    have hEnd :
        readWord citeClose (']' :: ']' :: rest) = some rest :=
      readWord_citeClose_eq_some_iff.mpr rfl
    simp only [inlineCite, hOpen, Option.bind_some, hTake,
      hDrop, hEnd, Option.map_some, if_neg hId]

/- The front end finds the markers that stand in a text. -/
theorem exists_inlineCite_iff
    {text id : Text} :
    (∃ tail, tail <:+ text ∧ inlineCite tail = some id) ↔
      marker id <:+: text ∧
        id ≠ [] ∧ ∀ c ∈ id, inlineIdChar c = true := by
  simp only [inlineCite_marker_iff]
  constructor
  · rintro ⟨tail, hSuffix, hMarker, hId⟩
    exact ⟨hMarker.isInfix.trans hSuffix.isInfix, hId⟩
  · rintro ⟨⟨front, back, rfl⟩, hId⟩
    refine
      ⟨marker id ++ back,
        ⟨front, (List.append_assoc _ _ _).symm⟩,
        List.prefix_append _ _, hId⟩

/- A marker that is found stands in the text. -/
theorem exists_inside_of_mem
    {text id : Text}
    (hMem : id ∈ citeFindall text) :
    ∃ whole, whole <:+: text ∧ readCite whole = some (id, []) := by
  induction text using cite.scanInduction with
  | nil => cases hMem
  | hit c text found rest hRead ih =>
      rw [citeFindall, cite.hits_of_read_some hRead] at hMem
      rcases readCite_eq_some_iff.mp hRead with
        ⟨opening, hOpening, hId, hClosed, hText⟩
      have hSplit :
          c :: text = (opening ++ found ++ [']', ']']) ++ rest := by
        rw [hText]
        simp
      rw [hSplit]
      rcases List.mem_cons.mp hMem with rfl | hRest
      · refine
          ⟨_, (List.prefix_append _ _).isInfix,
            readCite_eq_some_iff.mpr
              ⟨opening, hOpening, hId, hClosed, rfl⟩⟩
      · rcases ih hRest with ⟨whole, hInfix, hWhole⟩
        exact
          ⟨whole,
            hInfix.trans (List.suffix_append _ _).isInfix,
            hWhole⟩
  | plain c text hRead ih =>
      rw [citeFindall, cite.hits_of_read_none hRead] at hMem
      rcases ih hMem with ⟨whole, hInfix, hWhole⟩
      exact
        ⟨whole, hInfix.trans (List.suffix_cons _ _).isInfix,
          hWhole⟩

------------------------------------------------------------
-- Text Around A Marker
------------------------------------------------------------

/- A marker does not start in text without `[` in front. -/
theorem marker_inside_append_left
    {front body id : Text}
    (hFront : '[' ∉ front) :
    marker id <:+: front ++ body ↔ marker id <:+: body := by
  constructor
  · rintro ⟨lead, back, hSplit⟩
    have hSuffix : marker id ++ back <:+ front ++ body :=
      ⟨lead, by rw [← hSplit, List.append_assoc]⟩
    rcases mem_or_suffix_of_suffix_append hSuffix with
      hMem | hBody
    · exact absurd hMem hFront
    · exact (List.prefix_append _ _).isInfix.trans hBody.isInfix
  · intro hBody
    exact hBody.trans (List.suffix_append _ _).isInfix

/- A marker does not end in text without `]` behind. -/
theorem marker_inside_append_right
    {back body id : Text}
    (hBack : ']' ∉ back) :
    marker id <:+: body ++ back ↔ marker id <:+: body := by
  constructor
  · intro hWhole
    rw [← List.reverse_infix, List.reverse_append] at hWhole
    rcases hWhole with ⟨lead, rest, hSplit⟩
    have hReverse :
        (marker id).reverse =
          ']' :: ']' :: id.reverse ++
            [':', 'e', 't', 'i', 'c', '[', '['] := by
      simp [marker]
    have hSuffix :
        (marker id).reverse ++ rest <:+
          back.reverse ++ body.reverse :=
      ⟨lead, by rw [← hSplit, List.append_assoc]⟩
    rw [hReverse] at hSuffix
    rcases mem_or_suffix_of_suffix_append hSuffix with
      hMem | hBody
    · exact absurd (List.mem_reverse.mp hMem) hBack
    · rw [← List.reverse_infix, hReverse]
      exact (List.prefix_append _ _).isInfix.trans hBody.isInfix
  · intro hBody
    exact hBody.trans (List.prefix_append _ _).isInfix

/- A text without `]` has no marker in it. -/
theorem marker_not_inside
    {text id : Text}
    (hClose : ']' ∉ text) :
    ¬ marker id <:+: text := by
  intro hInfix
  exact hClose (hInfix.mem (by simp [marker]))

/- Stripping keeps every marker in its form. -/
theorem marker_inside_strip (text id : Text) :
    marker id <:+: Text.strip text ↔ marker id <:+: text := by
  rcases strip_brackets text with
    ⟨front, back, hNoOpen, hNoClose, hSplit⟩
  calc
    marker id <:+: Text.strip text
    _ ↔ marker id <:+: front ++ Text.strip text :=
      (marker_inside_append_left hNoOpen).symm
    _ ↔ marker id <:+: front ++ Text.strip text ++ back :=
      (marker_inside_append_right hNoClose).symm
    _ ↔ marker id <:+: text := by rw [← hSplit]

end LegalAgent
