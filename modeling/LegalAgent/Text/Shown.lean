import LegalAgent.Text.Authority
import LegalAgent.Text.NormalForm
import Mathlib.Data.List.DropRight

/-
  What is left of a draft in its answer.

  The body of an answer is the draft without its zero-width
  characters and without what stands in a line from the head
  of an authority line on.  Whether a character is left can be
  told at its place in the draft, so what is left of a draft
  falls apart into what is left of its parts.

  Key definitions include:
    * `behindHead`
    * `shown`
    * `shownOf`
    * `SplitMarker`
    * `BuriedMarker`

  Key theorems include:
    * `shownOf_whole`
    * `exists_part_of_shown`
    * `behindHead_of_buried`
    * `faithful_of_plain`
-/

------------------------------------------------------------
-- Places In A Draft
------------------------------------------------------------

namespace LegalAgent

open Library

/- The last line of a text, without a line break. -/
def lastLine (text : Text) : Text :=
  text.rtakeWhile fun c => c ≠ '\n'

/-
  Whether the place between two parts of a draft is behind the
  start of an authority line: a head is read that starts in
  the same line, at this place or in front of it.
-/
def behindHead (front rest : Text) : Bool :=
  (lastLine front).tails.any fun line =>
    (readAuthorityHead
      (translateZeroWidth (line ++ rest))).isSome

/- Whether a character is left at its place in a draft. -/
def shown (front : Text) (c : Char) (rest : Text) : Bool :=
  c == '\n' ||
    !isZeroWidth c && !behindHead front (c :: rest)

/- What is left of a part between two others. -/
def shownOf (front : Text) : Text → Text → Text
| [], _ => []
| c :: part, back =>
    if shown front c (part ++ back) then
      c :: shownOf (front ++ [c]) part back
    else
      shownOf (front ++ [c]) part back

------------------------------------------------------------
-- Heads
------------------------------------------------------------

theorem behindHead_iff
    {front rest : Text} :
    behindHead front rest = true ↔
      ∃ line,
        line <:+ lastLine front ∧
          (readAuthorityHead
            (translateZeroWidth (line ++ rest))).isSome =
            true := by
  simp only [behindHead, List.any_eq_true, List.mem_tails]

/- The last line behind one more character. -/
theorem lastLine_append
    (front : Text)
    (c : Char) :
    lastLine (front ++ [c]) =
      if c = '\n' then [] else lastLine front ++ [c] := by
  unfold lastLine
  by_cases hBreak : c = '\n'
  · rw [if_pos hBreak, List.rtakeWhile_concat_neg]
    simpa using hBreak
  · rw [if_neg hBreak, List.rtakeWhile_concat_pos]
    simpa using hBreak

/-
  Behind a character of the same line the place is behind a
  head if it was so, or if a head starts there.
-/
theorem behindHead_append
    {front rest : Text}
    {c : Char}
    (hLine : c ≠ '\n') :
    behindHead (front ++ [c]) rest = true ↔
      behindHead front (c :: rest) = true ∨
        (readAuthorityHead (translateZeroWidth rest)).isSome =
          true := by
  rw [behindHead_iff, behindHead_iff, lastLine_append,
    if_neg hLine]
  simp only [List.suffix_concat_iff]
  constructor
  · rintro ⟨line, rfl | ⟨start, rfl, hSuffix⟩, hRead⟩
    · exact Or.inr hRead
    · left
      refine ⟨start, hSuffix, ?_⟩
      rwa [List.append_assoc] at hRead
  · rintro (⟨line, hSuffix, hRead⟩ | hRead)
    · refine ⟨line ++ [c], Or.inr ⟨line, rfl, hSuffix⟩, ?_⟩
      rwa [List.append_assoc]
    · exact ⟨[], Or.inl rfl, hRead⟩

/- A line break is not a part of a head. -/
theorem behindHead_break
    (front rest : Text) :
    behindHead (front ++ ['\n']) rest = true ↔
      (readAuthorityHead (translateZeroWidth rest)).isSome =
        true := by
  rw [behindHead_iff, lastLine_append, if_pos rfl]
  simp

/- At the start of a draft only a head can start. -/
theorem behindHead_nil (rest : Text) :
    behindHead [] rest = true ↔
      (readAuthorityHead (translateZeroWidth rest)).isSome =
        true := by
  rw [behindHead_iff, show lastLine [] = [] from rfl]
  simp

/- A place is behind a head that starts there. -/
theorem behindHead_of_head
    {front rest : Text}
    (hRead :
      (readAuthorityHead (translateZeroWidth rest)).isSome =
        true) :
    behindHead front rest = true :=
  behindHead_iff.mpr ⟨[], List.nil_suffix, hRead⟩

------------------------------------------------------------
-- Deleted Lines
------------------------------------------------------------

theorem restOfLine_break (text : Text) :
    restOfLine ('\n' :: text) = '\n' :: text := by
  simp [restOfLine]

theorem restOfLine_cons
    {c : Char}
    (hLine : c ≠ '\n')
    (text : Text) :
    restOfLine (c :: text) = restOfLine text := by
  simp [restOfLine, hLine]

/- The rest of a line behind a part of the line. -/
theorem restOfLine_append
    {line : Text}
    (hLine : '\n' ∉ line)
    (more : Text) :
    restOfLine (line ++ '\n' :: more) = '\n' :: more := by
  induction line with
  | nil => exact restOfLine_break more
  | cons c line ih =>
      rw [List.mem_cons, not_or] at hLine
      rw [List.cons_append,
        restOfLine_cons (Ne.symm hLine.1), ih hLine.2]

/- A text without a line break is one line. -/
theorem restOfLine_eq_nil
    {text : Text}
    (hLine : '\n' ∉ text) :
    restOfLine text = [] := by
  induction text with
  | nil => rfl
  | cons c text ih =>
      rw [List.mem_cons, not_or] at hLine
      rw [restOfLine_cons (Ne.symm hLine.1), ih hLine.2]

/- Zero-width characters are not line breaks. -/
theorem restOfLine_translate (text : Text) :
    translateZeroWidth (restOfLine text) =
      restOfLine (translateZeroWidth text) := by
  induction text with
  | nil => rfl
  | cons c text ih =>
      by_cases hLine : c = '\n'
      · subst hLine
        rw [restOfLine_break]
        exact (restOfLine_break (translateZeroWidth text)).symm
      · rw [restOfLine_cons hLine, ih]
        unfold translateZeroWidth
        rw [List.filter_cons]
        split
        · rw [restOfLine_cons hLine]
        · rfl

/- What is read behind a head in a text with a line break. -/
theorem readAuthorityHead_break
    {line more rest : Text}
    (hRead :
      readAuthorityHead (line ++ '\n' :: more) = some rest) :
    ∃ before, before <:+ line ∧ rest = before ++ '\n' :: more := by
  have hBlank : isAuthBlank '\n' = false := by decide
  rcases Option.or_eq_some_iff.mp hRead with
    hVersion | ⟨-, hNotice⟩
  · rcases readPhrase_of_stop hBlank (by simp [exactly])
        hVersion with
      ⟨before, hBefore, rfl⟩
    exact ⟨before, readPhrase_suffix hBefore, rfl⟩
  · rcases readPhrase_of_stop hBlank (by simp [exactly])
        hNotice with
      ⟨before, hBefore, rfl⟩
    exact ⟨before, readPhrase_suffix hBefore, rfl⟩

/- A head and what is behind it are in one line. -/
theorem restOfLine_of_head
    {text rest : Text}
    (hRead : readAuthorityHead text = some rest) :
    restOfLine rest = restOfLine text := by
  by_cases hLine : '\n' ∈ text
  · rcases List.eq_append_cons_of_mem hLine with
      ⟨line, more, rfl, hFirst⟩
    rcases readAuthorityHead_break hRead with
      ⟨before, hBefore, rfl⟩
    rw [restOfLine_append hFirst, restOfLine_append]
    exact fun hMem => hFirst (hBefore.mem hMem)
  · rw [restOfLine_eq_nil hLine, restOfLine_eq_nil]
    intro hMem
    exact hLine ((readAuthorityHead_suffix hRead).1.mem hMem)

/- A line from a head on is deleted. -/
theorem replace_of_head
    {text : Text}
    (hRead : (readAuthorityHead text).isSome = true) :
    authorityLine.replace (fun _ => []) (restOfLine text) =
      authorityLine.replace (fun _ => []) text := by
  rcases Option.isSome_iff_exists.mp hRead with ⟨rest, hRest⟩
  cases text with
  | nil => exact absurd hRead (by decide)
  | cons c text =>
      have hLine :
          authorityLine.read (c :: text) =
            some ((), restOfLine rest) :=
        congrArg (Option.map fun rest => ((), restOfLine rest))
          hRest
      rw [authorityLine.replace_of_read_some hLine,
        restOfLine_of_head hRest, List.nil_append]

------------------------------------------------------------
-- What Is Left
------------------------------------------------------------

/- The draft without what is left out of it. -/
def cleaned (text : Text) : Text :=
  authorityLine.replace (fun _ => []) (translateZeroWidth text)

/- A head at the start of a text hides the first line. -/
theorem cleaned_of_head
    {text : Text}
    (hRead :
      (readAuthorityHead (translateZeroWidth text)).isSome =
        true) :
    cleaned (restOfLine text) = cleaned text := by
  rw [cleaned, restOfLine_translate, replace_of_head hRead,
    cleaned]

/- Line breaks are left. -/
theorem cleaned_break (text : Text) :
    cleaned ('\n' :: text) = '\n' :: cleaned text := by
  have hNone :
      authorityLine.read ('\n' :: translateZeroWidth text) =
        none := by
    change
      readAuthorityLine ('\n' :: translateZeroWidth text) = none
    rw [readAuthorityLine,
      readAuthorityHead_cons_of_ne (by decide) (by decide)]
    rfl
  exact authorityLine.replace_of_read_none hNone

/- Zero-width characters are left out. -/
theorem cleaned_zeroWidth
    {c : Char}
    (hWidth : isZeroWidth c = true)
    (text : Text) :
    cleaned (c :: text) = cleaned text := by
  simp [cleaned, translateZeroWidth, hWidth]

/- Any other character is left unless a head starts there. -/
theorem cleaned_cons
    {c : Char}
    {text : Text}
    (hWidth : isZeroWidth c = false)
    (hRead :
      (readAuthorityHead (translateZeroWidth (c :: text))).isSome =
        false) :
    cleaned (c :: text) = c :: cleaned text := by
  have hFilter :
      translateZeroWidth (c :: text) =
        c :: translateZeroWidth text := by
    simp [translateZeroWidth, hWidth]
  rw [hFilter] at hRead
  have hNone :
      authorityLine.read (c :: translateZeroWidth text) =
        none := by
    change
      readAuthorityLine (c :: translateZeroWidth text) = none
    rw [readAuthorityLine, Option.map_eq_none_iff]
    simpa using hRead
  rw [cleaned, hFilter,
    authorityLine.replace_of_read_none hNone, cleaned]

/-
  What is left of the end of a draft.  The induction is on the
  end; the place in front of it decides whether the rest of
  the first line is hidden.
-/
theorem shownOf_rest (front text : Text) :
    shownOf front text [] =
      if behindHead front text then
        cleaned (restOfLine text)
      else
        cleaned text := by
  induction text generalizing front with
  | nil => split <;> rfl
  | cons c text ih =>
      rw [shownOf, List.append_nil, ih]
      by_cases hLine : c = '\n'
      · subst hLine
        have hShown : shown front '\n' text = true := rfl
        have hRest :
            (if behindHead (front ++ ['\n']) text = true then
                cleaned (restOfLine text)
              else cleaned text) =
              cleaned text := by
          split
          · rename_i hHead
            exact
              cleaned_of_head
                ((behindHead_break front text).mp hHead)
          · rfl
        rw [if_pos hShown, hRest, restOfLine_break,
          cleaned_break, ite_self]
      · rw [restOfLine_cons hLine]
        by_cases hBehind : behindHead front (c :: text) = true
        · -- the place behind the character is hidden as well
          have hNext :=
            (behindHead_append hLine).mpr (Or.inl hBehind)
          have hHidden : shown front c text = false := by
            simp [shown, hLine, hBehind]
          rw [if_pos hBehind, if_pos hNext, hHidden]
          rfl
        · have hNone :
              (readAuthorityHead
                (translateZeroWidth (c :: text))).isSome =
                false := by
            rw [← Bool.not_eq_true]
            exact fun hRead => hBehind (behindHead_of_head hRead)
          have hRest :
              (if behindHead (front ++ [c]) text = true then
                  cleaned (restOfLine text)
                else cleaned text) =
                cleaned text := by
            split
            · rename_i hHead
              rcases (behindHead_append hLine).mp hHead with
                hSame | hRead
              · exact absurd hSame hBehind
              · exact cleaned_of_head hRead
            · rfl
          rw [hRest, if_neg hBehind]
          cases hWidth : isZeroWidth c with
          | true =>
              have hHidden : shown front c text = false := by
                simp [shown, hLine, hWidth]
              rw [hHidden, cleaned_zeroWidth hWidth]
              rfl
          | false =>
              have hShown : shown front c text = true := by
                simp [shown, hWidth, hBehind]
              rw [if_pos hShown, cleaned_cons hWidth hNone]

/- What is left of a draft is its body before it is stripped. -/
theorem shownOf_whole (body : Text) :
    shownOf [] body [] = cleaned body := by
  rw [shownOf_rest]
  split
  · rename_i hHead
    exact cleaned_of_head ((behindHead_nil body).mp hHead)
  · rfl

------------------------------------------------------------
-- Parts
------------------------------------------------------------

/- What is left of two parts is left of each. -/
theorem shownOf_append (front part more back : Text) :
    shownOf front (part ++ more) back =
      shownOf front part (more ++ back) ++
        shownOf (front ++ part) more back := by
  induction part generalizing front with
  | nil => rw [List.nil_append, shownOf, List.append_nil]; rfl
  | cons c part ih =>
      rw [List.cons_append, shownOf, shownOf, ih,
        List.append_assoc, List.append_assoc,
        List.singleton_append]
      split <;> rfl

/- What is left can be split as the text was. -/
theorem exists_of_shownOf_append
    {front text back kept more : Text}
    (hShown : shownOf front text back = kept ++ more) :
    ∃ part rest,
      text = part ++ rest ∧
        shownOf front part (rest ++ back) = kept ∧
          shownOf (front ++ part) rest back = more := by
  induction text generalizing front kept with
  | nil =>
      rcases List.append_eq_nil_iff.mp hShown.symm with
        ⟨rfl, rfl⟩
      exact ⟨[], [], rfl, rfl, rfl⟩
  | cons c text ih =>
      by_cases hKept : shown front c (text ++ back) = true
      · cases kept with
        | nil =>
            refine ⟨[], c :: text, rfl, rfl, ?_⟩
            rw [List.append_nil]
            exact hShown
        | cons d kept =>
            rw [shownOf, if_pos hKept, List.cons_append,
              List.cons.injEq] at hShown
            rcases hShown with ⟨rfl, hShown⟩
            rcases ih hShown with
              ⟨part, rest, rfl, hPart, hRest⟩
            refine ⟨c :: part, rest, rfl, ?_, ?_⟩
            · rw [List.append_assoc] at hKept
              rw [shownOf, if_pos hKept, hPart]
            · rw [← hRest, List.append_assoc]
              rfl
      · rw [shownOf, if_neg hKept] at hShown
        rcases ih hShown with ⟨part, rest, rfl, hPart, hRest⟩
        refine ⟨c :: part, rest, rfl, ?_, ?_⟩
        · rw [List.append_assoc] at hKept
          rw [shownOf, if_neg hKept, hPart]
        · rw [← hRest, List.append_assoc]
          rfl

/- A part of what is left is left of a part. -/
theorem exists_part_of_shown
    {body found : Text}
    (hFound : found <:+: cleaned body) :
    ∃ front part back,
      body = front ++ part ++ back ∧
        shownOf front part back = found := by
  rcases hFound with ⟨kept, more, hSplit⟩
  rw [← shownOf_whole] at hSplit
  rcases exists_of_shownOf_append hSplit.symm with
    ⟨whole, back, rfl, hWhole, -⟩
  rcases exists_of_shownOf_append hWhole with
    ⟨front, part, rfl, -, hPart⟩
  rw [List.append_nil, List.nil_append] at hPart
  exact ⟨front, part, back, rfl, hPart⟩

/- What is left of a part is a part of what is left. -/
theorem shownOf_inside
    {body front part back : Text}
    (hBody : body = front ++ part ++ back) :
    shownOf front part back <:+: cleaned body := by
  rw [hBody, ← shownOf_whole, shownOf_append, shownOf_append,
    List.append_nil, List.nil_append]
  exact ⟨_, _, rfl⟩

------------------------------------------------------------
-- Plain Parts
------------------------------------------------------------

/- A character that neither is left out nor starts a head. -/
def isPlain (c : Char) : Bool :=
  !isZeroWidth c && c != '⚖' && c != '※'

/- No head starts with a plain character. -/
theorem not_head_of_plain
    {c : Char}
    (hPlain : isPlain c = true)
    (text : Text) :
    (readAuthorityHead (translateZeroWidth (c :: text))).isSome =
      false := by
  simp only [isPlain, Bool.and_eq_true, bne_iff_ne,
    Bool.not_eq_true'] at hPlain
  rcases hPlain with ⟨⟨hWidth, hScale⟩, hMark⟩
  have hFilter :
      translateZeroWidth (c :: text) =
        c :: translateZeroWidth text := by
    simp [translateZeroWidth, hWidth]
  rw [hFilter, readAuthorityHead_cons_of_ne hScale hMark]
  rfl

/- No head starts in a plain text. -/
theorem not_head_of_all
    {text : Text}
    (hPlain : ∀ c ∈ text, isPlain c = true) :
    (readAuthorityHead (translateZeroWidth text)).isSome =
      false := by
  cases text with
  | nil => decide
  | cons c text =>
      exact not_head_of_plain (hPlain c List.mem_cons_self) text

/- No place of a plain text is behind a head. -/
theorem not_behindHead_of_all
    {front rest : Text}
    (hPlain : ∀ c ∈ front ++ rest, isPlain c = true) :
    behindHead front rest = false := by
  rw [← Bool.not_eq_true, behindHead_iff]
  rintro ⟨line, hLine, hRead⟩
  have hNone :
      (readAuthorityHead
        (translateZeroWidth (line ++ rest))).isSome = false := by
    apply not_head_of_all
    intro c hMem
    apply hPlain
    rcases List.mem_append.mp hMem with hIn | hRest
    · exact
        List.mem_append_left _
          ((List.rtakeWhile_suffix _ _).mem (hLine.mem hIn))
    · exact List.mem_append_right _ hRest
  rw [hRead] at hNone
  cases hNone

/-
  A plain part of one line is left as it is unless its place
  is behind a head.
-/
theorem shownOf_of_free
    {front part back : Text}
    (hPlain : ∀ c ∈ part, isPlain c = true)
    (hLine : '\n' ∉ part)
    (hFree : part ≠ [] → behindHead front (part ++ back) = false) :
    shownOf front part back = part := by
  induction part generalizing front with
  | nil => rfl
  | cons c part ih =>
      have hChar := hPlain c List.mem_cons_self
      have hBehind := hFree (List.cons_ne_nil _ _)
      rw [List.cons_append] at hBehind
      rw [List.mem_cons, not_or] at hLine
      have hShown : shown front c (part ++ back) = true := by
        simp only [isPlain, Bool.and_eq_true] at hChar
        simp [shown, hBehind, hChar.1.1]
      rw [shownOf, if_pos hShown]
      congr 1
      apply ih (fun d hMem => hPlain d (List.mem_cons_of_mem c hMem))
        hLine.2
      intro hNe
      rw [← Bool.not_eq_true,
        behindHead_append (Ne.symm hLine.1), not_or, hBehind]
      refine ⟨Bool.false_ne_true, ?_⟩
      rcases List.exists_cons_of_ne_nil hNe with
        ⟨d, more, rfl⟩
      rw [List.cons_append,
        not_head_of_plain
          (hPlain d
            (List.mem_cons_of_mem c List.mem_cons_self))]
      exact Bool.false_ne_true

/- A part of a plain text is left as it is. -/
theorem shownOf_of_all
    {front part back : Text}
    (hPlain : ∀ c ∈ front ++ part ++ back, isPlain c = true) :
    shownOf front part back = part := by
  induction part generalizing front with
  | nil => rfl
  | cons c part ih =>
      have hBehind :
          behindHead front (c :: (part ++ back)) = false := by
        apply not_behindHead_of_all
        intro d hMem
        apply hPlain
        simpa using hMem
      have hChar : isPlain c = true := by
        apply hPlain
        simp
      have hShown : shown front c (part ++ back) = true := by
        simp only [isPlain, Bool.and_eq_true] at hChar
        simp [shown, hBehind, hChar.1.1]
      rw [shownOf, if_pos hShown]
      congr 1
      apply ih
      intro d hMem
      apply hPlain
      simpa using hMem

/- What is left out of a part is hidden at its place. -/
theorem exists_hidden
    {front part back : Text}
    (hNe : shownOf front part back ≠ part) :
    ∃ before c after,
      part = before ++ c :: after ∧
        (isZeroWidth c = true ∨
          behindHead (front ++ before) (c :: (after ++ back)) =
            true) := by
  induction part generalizing front with
  | nil => exact absurd rfl hNe
  | cons c part ih =>
      by_cases hShown : shown front c (part ++ back) = true
      · rw [shownOf, if_pos hShown] at hNe
        have hRest : shownOf (front ++ [c]) part back ≠ part :=
          fun hEq => hNe (congrArg (List.cons c) hEq)
        rcases ih hRest with ⟨before, d, after, rfl, hHidden⟩
        refine ⟨c :: before, d, after, rfl, ?_⟩
        rwa [List.append_assoc, List.singleton_append]
          at hHidden
      · refine ⟨[], c, part, rfl, ?_⟩
        rw [List.append_nil]
        simp only [shown, Bool.or_eq_true, Bool.and_eq_true,
          Bool.not_eq_true', not_or, not_and_or,
          Bool.not_eq_false] at hShown
        exact hShown.2

------------------------------------------------------------
-- Markers That Are Made Or Lost
------------------------------------------------------------

/-
  A marker that is made: a part of the draft becomes a marker
  as what stands in it is left out, and the draft has no
  marker with its id.
-/
def SplitMarker (body id : Text) : Prop :=
  ∃ front part back,
    body = front ++ part ++ back ∧
      shownOf front part back ≠ part ∧
        readCite (shownOf front part back) = some (id, []) ∧
          id ∉ citeFindall body

/-
  A marker that is lost: the draft has markers with this id,
  and no part of the draft is left as one.
-/
def BuriedMarker (body id : Text) : Prop :=
  id ∈ citeFindall body ∧
    ∀ front part back,
      body = front ++ part ++ back →
        shownOf front part back ≠ marker id

/- A marker that is made has a hidden character in it. -/
theorem hidden_of_split
    {body id : Text}
    (hSplit : SplitMarker body id) :
    ∃ front c back,
      body = front ++ c :: back ∧
        (isZeroWidth c = true ∨
          behindHead front (c :: back) = true) := by
  rcases hSplit with ⟨front, part, back, rfl, hNe, -⟩
  rcases exists_hidden hNe with ⟨before, c, after, rfl, hHidden⟩
  exact ⟨front ++ before, c, after ++ back, by simp, hHidden⟩

/- The characters of an id are plain. -/
theorem plain_of_isUuidText
    {id : Text}
    (hId : isUuidText id = true)
    {c : Char}
    (hMem : c ∈ id) :
    isPlain c = true ∧ c ≠ '\n' := by
  have hRange := toNat_of_isUuidText hId hMem
  have hNe : ∀ d : Char, c.toNat ≠ d.toNat → c ≠ d := by
    rintro d hNe rfl
    exact hNe rfl
  have hWidth : isZeroWidth c = false := by
    simp only [isZeroWidth, List.mem_cons, List.not_mem_nil,
      or_false, decide_eq_false_iff_not]
    omega
  have hScale : c ≠ '⚖' := by
    apply hNe
    change c.toNat ≠ 0x2696
    omega
  have hMark : c ≠ '※' := by
    apply hNe
    change c.toNat ≠ 0x203B
    omega
  have hBreak : c ≠ '\n' := by
    apply hNe
    change c.toNat ≠ 10
    omega
  exact ⟨by simp [isPlain, hWidth, hScale, hMark], hBreak⟩

/-
  Wherever the marker of a lost citation stands, a head starts
  in front of it in the same line.
-/
theorem behindHead_of_buried
    {body id front back : Text}
    (hBuried : BuriedMarker body id)
    (hId : isUuidText id = true)
    (hBody : body = front ++ marker id ++ back) :
    behindHead front (marker id ++ back) = true := by
  have hMarker :
      ∀ c ∈ marker [], isPlain c = true ∧ c ≠ '\n' := by
    have hAll :
        (marker []).all (fun c => isPlain c && c != '\n') =
          true := by
      decide
    simpa using hAll
  have hChars :
      ∀ c ∈ marker id, isPlain c = true ∧ c ≠ '\n' := by
    intro c hMem
    simp only [marker, List.mem_append] at hMem
    rcases hMem with (hOpen | hIn) | hClose
    · apply hMarker
      simp only [marker, List.append_nil, List.mem_append]
      exact Or.inl hOpen
    · exact plain_of_isUuidText hId hIn
    · apply hMarker
      simp only [marker, List.append_nil, List.mem_append]
      exact Or.inr hClose
  by_contra hFree
  refine
    hBuried.2 front (marker id) back hBody
      (shownOf_of_free (fun c hMem => (hChars c hMem).1) ?_ ?_)
  · exact fun hMem => (hChars _ hMem).2 rfl
  · exact fun _ => Bool.eq_false_iff.mpr hFree

/- A plain draft makes and loses no marker. -/
theorem faithful_of_plain
    {draft : Text}
    (hPlain : ∀ c ∈ draft, isPlain c = true)
    (id : Text) :
    ¬ SplitMarker (normaliseMarkers draft) id ∧
      ¬ BuriedMarker (normaliseMarkers draft) id := by
  have hMarkers : ∀ c ∈ marker [], isPlain c = true :=
    List.all_eq_true.mp
      (show (marker []).all isPlain = true by decide)
  have hBody : ∀ c ∈ normaliseMarkers draft, isPlain c = true := by
    intro c hMem
    rcases mem_of_mem_normalise hMem with hDraft | hMarker
    · exact hPlain c hDraft
    · exact hMarkers c hMarker
  constructor
  · intro hSplit
    rcases hidden_of_split hSplit with
      ⟨front, c, back, hEq, hWidth | hHead⟩
    · have hChar := hBody c (by rw [hEq]; simp)
      simp [isPlain, hWidth] at hChar
    · rw [hEq] at hBody
      rw [not_behindHead_of_all hBody] at hHead
      cases hHead
  · rintro ⟨hMem, hLost⟩
    rcases marker_inside_of_mem hMem with ⟨front, back, hInfix⟩
    apply hLost front (marker id) back hInfix.symm
    apply shownOf_of_all
    rw [hInfix]
    exact hBody

end LegalAgent
