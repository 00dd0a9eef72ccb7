import LegalAgent.Text.Compose
import Mathlib.Data.List.Infix

/-
  Who may write the server's authority lines.

  A draft may contain any text, and the dates of the articles
  may be any texts.  The body that `_compose` makes of a draft
  has no authority line: a match ends at the end of its line,
  so what a deletion brings together meets at a line break,
  and no head of an authority line reaches over one.

  Key definitions include:
    * `AuthorityFree`
    * `composeTexts`

  Key theorems include:
    * `authorityFree_scrub`
    * `disclaimer_only_at_end`
    * `compose_not_spoofed`
-/

------------------------------------------------------------
-- Composition With Arbitrary Dates
------------------------------------------------------------

namespace LegalAgent

open Library

/- The dates of the cited articles, whatever texts they are. -/
def effDateTexts
    (cited : List Text)
    (citedEff : List (Text × Text)) :
    List Text :=
  (cited.filterMap fun id =>
    List.lookup id citedEff).dedup.insertionSort (· ≤ ·)

/- The version header, when there is a date to show. -/
def versionHeader (dates : List Text) : List Text :=
  if dates = [] then
    []
  else
    [versionHead ++ joinWith [',', ' '] dates]

/- The final text (`_compose`) for any texts as dates. -/
def composeTexts
    (body : Text)
    (cited : List Text)
    (citedEff : List (Text × Text)) :
    Text :=
  joinWith ['\n', '\n']
    ((versionHeader (effDateTexts cited citedEff) ++
        [composedBody body, disclaimer]).filter
      fun part => decide (part ≠ []))

/- Reading a key of a list whose values are mapped. -/
theorem lookup_map_value
    {α β : Type}
    (f : α → β)
    (id : Text)
    (entries : List (Text × α)) :
    (entries.map fun entry => (entry.1, f entry.2)).lookup id =
      (entries.lookup id).map f := by
  induction entries with
  | nil => rfl
  | cons entry entries ih =>
      rw [List.map_cons, List.lookup_cons, List.lookup_cons, ih]
      split <;> rfl

/- Effective dates of cited articles are such texts. -/
theorem effDateTexts_dates
    (cited : List Text)
    (citedEff : List (Text × EffDate)) :
    effDateTexts cited
        (citedEff.map fun entry => (entry.1, entry.2.text)) =
      effDates cited citedEff := by
  simp only [effDateTexts, effDates, lookup_map_value,
    List.map_filterMap]

/- The composed answers of the agent's runs are such texts. -/
theorem compose_eq_composeTexts
    (body : Text)
    (cited : List Text)
    (citedEff : List (Text × EffDate)) :
    compose body cited citedEff =
      composeTexts body cited
        (citedEff.map fun entry =>
          (entry.1, entry.2.text)) := by
  rw [composeTexts, effDateTexts_dates]
  rfl

/- The parts of a composed text. -/
theorem composeTexts_eq
    (body : Text)
    (cited : List Text)
    (citedEff : List (Text × Text)) :
    composeTexts body cited citedEff =
      joinWith ['\n', '\n']
        (versionHeader (effDateTexts cited citedEff) ++
          [composedBody body, disclaimer]) := by
  have hDisclaimer : disclaimer ≠ [] := by decide
  have hHead : versionHead ≠ [] := by decide
  rw [composeTexts, List.filter_eq_self.mpr]
  intro part hPart
  rw [decide_eq_true_eq]
  unfold versionHeader at hPart
  rcases List.mem_append.mp hPart with hLine | hRest
  · split at hLine
    · cases hLine
    · rw [List.mem_singleton.mp hLine]
      exact List.append_ne_nil_of_left_ne_nil hHead _
  · rcases List.mem_cons.mp hRest with rfl | hLast
    · exact composedBody_ne_nil body
    · rw [List.mem_singleton.mp hLast]
      exact hDisclaimer

------------------------------------------------------------
-- Heads Of Authority Lines
------------------------------------------------------------

/- Whether no part of a text is an authority line. -/
def AuthorityFree (text : Text) : Prop :=
  ∀ part, part <:+: text → readAuthorityLine part = none

/- A head that is read is read in any longer text. -/
theorem readAuthorityHead_append
    {text : Text}
    (hRead : (readAuthorityHead text).isSome = true)
    (more : Text) :
    (readAuthorityHead (text ++ more)).isSome = true := by
  unfold readAuthorityHead at hRead ⊢
  rw [Option.isSome_or, Bool.or_eq_true] at hRead ⊢
  cases hRead with
  | inl hVersion =>
      rcases Option.isSome_iff_exists.mp hVersion with
        ⟨rest, hRest⟩
      left
      rw [readPhrase_append (by simp [exactly]) hRest]
      rfl
  | inr hNotice =>
      rcases Option.isSome_iff_exists.mp hNotice with
        ⟨rest, hRest⟩
      right
      rw [readPhrase_append (by simp [exactly]) hRest]
      rfl

/- No head of an authority line reaches over a stop. -/
theorem readAuthorityHead_of_stop
    {stop : Char}
    (hStop : stop = '\n' ∨ stop = ',')
    {text more : Text}
    (hRead :
      (readAuthorityHead (text ++ stop :: more)).isSome =
        true) :
    (readAuthorityHead text).isSome = true := by
  have hBlank : isAuthBlank stop = false := by
    rcases hStop with rfl | rfl <;> decide
  unfold readAuthorityHead at hRead ⊢
  rw [Option.isSome_or, Bool.or_eq_true] at hRead ⊢
  cases hRead with
  | inl hVersion =>
      rcases Option.isSome_iff_exists.mp hVersion with
        ⟨rest, hRest⟩
      obtain ⟨before, hBefore, -⟩ :=
        readPhrase_of_stop hBlank
          (by rcases hStop with rfl | rfl <;> simp [exactly])
          hRest
      left
      rw [hBefore]
      rfl
  | inr hNotice =>
      rcases Option.isSome_iff_exists.mp hNotice with
        ⟨rest, hRest⟩
      obtain ⟨before, hBefore, -⟩ :=
        readPhrase_of_stop hBlank
          (by rcases hStop with rfl | rfl <;> simp [exactly])
          hRest
      right
      rw [hBefore]
      rfl

/- A head starts with one of two signs. -/
theorem readAuthorityHead_cons_of_ne
    {c : Char}
    (hScale : c ≠ '⚖')
    (hMark : c ≠ '※')
    (text : Text) :
    readAuthorityHead (c :: text) = none := by
  simp [readAuthorityHead, readPhrase, exactly, readWord,
    hScale, hMark]

/- A text is free when no head is read at any place of it. -/
theorem authorityFree_iff_tails
    {text : Text} :
    AuthorityFree text ↔
      ∀ tail, tail <:+ text →
        (readAuthorityHead tail).isSome = false := by
  have hLine : ∀ part : Text,
      readAuthorityLine part = none ↔
        (readAuthorityHead part).isSome = false := by
    intro part
    rw [readAuthorityLine, Option.map_eq_none_iff,
      Option.isSome_eq_false_iff, Option.isNone_iff_eq_none]
  constructor
  · intro hFree tail hTail
    exact (hLine tail).mp (hFree tail hTail.isInfix)
  · rintro hTails part ⟨front, back, rfl⟩
    rw [hLine]
    have hTail := hTails (part ++ back)
      ⟨front, (List.append_assoc front part back).symm⟩
    cases hPart : (readAuthorityHead part).isSome with
    | false => rfl
    | true =>
        rw [readAuthorityHead_append hPart back] at hTail
        cases hTail

/- A part of a free text is free. -/
theorem AuthorityFree.part
    {text part : Text}
    (hFree : AuthorityFree text)
    (hPart : part <:+: text) :
    AuthorityFree part :=
  fun inner hInner => hFree inner (hInner.trans hPart)

/-
  A head that is read in a text with a stop in it is read on
  one side of the stop.
-/
theorem tail_of_stop
    {stop : Char}
    (hStop : stop = '\n' ∨ stop = ',')
    {text more tail : Text}
    (hTail : tail <:+ text ++ stop :: more)
    (hRead : (readAuthorityHead tail).isSome = true) :
    ¬ AuthorityFree text ∨ tail <:+ more := by
  have hMore : stop :: more <:+ text ++ stop :: more :=
    List.suffix_append text (stop :: more)
  rcases List.suffix_or_suffix_of_suffix hTail hMore with
    hBehind | hBefore
  · rcases List.suffix_cons_iff.mp hBehind with rfl | hTail
    · have hEmpty : (readAuthorityHead []).isSome = true :=
        readAuthorityHead_of_stop hStop hRead
      exact absurd hEmpty (by decide)
    · exact Or.inr hTail
  · rcases hBefore with ⟨front, rfl⟩
    rcases hTail with ⟨lead, hLead⟩
    rw [← List.append_assoc] at hLead
    have hFront : lead ++ front = text :=
      List.append_cancel_right hLead
    left
    intro hFree
    have hNone :=
      authorityFree_iff_tails.mp hFree front ⟨lead, hFront⟩
    rw [readAuthorityHead_of_stop hStop hRead] at hNone
    cases hNone

/- Free texts with a stop between them are a free text. -/
theorem AuthorityFree.append_stop
    {stop : Char}
    (hStop : stop = '\n' ∨ stop = ',')
    {text more : Text}
    (hText : AuthorityFree text)
    (hMore : AuthorityFree more) :
    AuthorityFree (text ++ stop :: more) := by
  rw [authorityFree_iff_tails]
  intro tail hTail
  by_contra hRead
  rw [Bool.not_eq_false] at hRead
  cases tail_of_stop hStop hTail hRead with
  | inl hNot => exact hNot hText
  | inr hBehind =>
      exact absurd hRead (by
        rw [authorityFree_iff_tails.mp hMore tail hBehind]
        exact Bool.false_ne_true)

------------------------------------------------------------
-- The Body
------------------------------------------------------------

/- The rest of a line is empty or starts with a line break. -/
theorem restOfLine_cases (text : Text) :
    restOfLine text = [] ∨
      ∃ more, restOfLine text = '\n' :: more := by
  cases hRest : restOfLine text with
  | nil => exact Or.inl rfl
  | cons c more =>
      right
      refine ⟨more, ?_⟩
      have hHead :=
        List.head?_dropWhile_not (fun c => decide (c ≠ '\n')) text
      rw [← restOfLine, hRest] at hHead
      simp only [List.head?_cons, ne_eq, decide_not,
        Bool.not_eq_false', decide_eq_true_eq] at hHead
      rw [hHead]

/-
  Deletion keeps a text up to the first authority line in it;
  what follows then is the end or a line break.
-/
theorem replace_authorityLine_cases (text : Text) :
    ∃ before cut kept,
      text = before ++ cut ∧
        authorityLine.replace (fun _ => []) text =
          before ++ kept ∧
            (kept = [] ∨ ∃ more, kept = '\n' :: more) := by
  induction text using authorityLine.scanInduction with
  | nil => exact ⟨[], [], [], rfl, rfl, Or.inl rfl⟩
  | hit c text value rest hRead ih =>
      refine
        ⟨[], c :: text,
          authorityLine.replace (fun _ => []) rest, rfl, ?_, ?_⟩
      · rw [authorityLine.replace_of_read_some hRead]
      · rcases Option.map_eq_some_iff.mp hRead with
          ⟨behind, -, hRest⟩
        rcases Prod.mk.inj hRest with ⟨-, rfl⟩
        rcases restOfLine_cases behind with hEnd | ⟨more, hBreak⟩
        · rw [hEnd]
          exact Or.inl rfl
        · have hNone : authorityLine.read ('\n' :: more) = none := by
            change readAuthorityLine ('\n' :: more) = none
            rw [readAuthorityLine,
              readAuthorityHead_cons_of_ne (by decide)
                (by decide)]
            rfl
          rw [hBreak, authorityLine.replace_of_read_none hNone]
          exact Or.inr ⟨_, rfl⟩
  | plain c text hRead ih =>
      rcases ih with ⟨before, cut, kept, hText, hKept, hCases⟩
      refine ⟨c :: before, cut, kept, ?_, ?_, hCases⟩
      · rw [hText]
        rfl
      · rw [authorityLine.replace_of_read_none hRead, hKept]
        rfl

/- Deleting the authority lines makes no new one. -/
theorem authorityFree_replace (text : Text) :
    AuthorityFree
      (authorityLine.replace (fun _ => []) text) := by
  rw [authorityFree_iff_tails]
  induction text using authorityLine.scanInduction with
  | nil =>
      intro tail hTail
      rw [List.suffix_nil.mp hTail]
      rfl
  | hit c text value rest hRead ih =>
      rw [authorityLine.replace_of_read_some hRead]
      exact ih
  | plain c text hRead ih =>
      intro tail hTail
      rw [authorityLine.replace_of_read_none hRead] at hTail
      rcases List.suffix_cons_iff.mp hTail with rfl | hBehind
      · rcases replace_authorityLine_cases text with
          ⟨before, cut, kept, hText, hKept, hCases⟩
        by_contra hSome
        rw [Bool.not_eq_false, hKept] at hSome
        -- the head lies in what the deletion kept in one piece
        have hHead :
            (readAuthorityHead (c :: before)).isSome = true := by
          rcases hCases with rfl | ⟨more, rfl⟩
          · rwa [List.append_nil] at hSome
          · exact readAuthorityHead_of_stop (Or.inl rfl) hSome
        have hWhole := readAuthorityHead_append hHead cut
        rw [List.cons_append, ← hText] at hWhole
        have hNone : readAuthorityHead (c :: text) = none :=
          Option.map_eq_none_iff.mp hRead
        rw [hNone] at hWhole
        cases hWhole
      · exact ih tail hBehind

/- A scrubbed draft has no authority line. -/
theorem authorityFree_scrub (body : Text) :
    AuthorityFree (scrub body) := by
  rcases
      Text.strip_spec
        (authorityLine.replace (fun _ => [])
          (translateZeroWidth body)) with
    ⟨front, back, -, -, hSplit⟩
  exact (authorityFree_replace _).part
    ⟨front, back, hSplit.symm⟩

/- The notice that no answer was found is not one either. -/
theorem authorityFree_noAnswer : AuthorityFree noAnswer := by
  rw [authorityFree_iff_tails]
  intro tail hTail
  have hTails :
      ∀ tail ∈ noAnswer.tails,
        (readAuthorityHead tail).isSome = false := by
    decide +kernel
  exact hTails tail ((List.mem_tails tail noAnswer).mpr hTail)

/- The body of an answer has no authority line. -/
theorem authorityFree_composedBody (body : Text) :
    AuthorityFree (composedBody body) := by
  unfold composedBody
  split
  · exact authorityFree_noAnswer
  · exact authorityFree_scrub body

/- The body of an answer has no zero-width character. -/
theorem isZeroWidth_of_mem_composedBody
    {body : Text}
    {c : Char}
    (hMem : c ∈ composedBody body) :
    isZeroWidth c = false := by
  unfold composedBody at hMem
  split at hMem
  · have hNotice :
        noAnswer.all (fun c => !isZeroWidth c) = true := by
      decide +kernel
    have hPlain := List.all_eq_true.mp hNotice c hMem
    rwa [Bool.not_eq_true'] at hPlain
  · have hKept : c ∈ translateZeroWidth body :=
      (authorityLine.replace_nil_sublist _).subset
        (Text.mem_of_mem_strip hMem)
    have hPlain := (List.mem_filter.mp hKept).2
    rwa [Bool.not_eq_true'] at hPlain

/- A text of white space is stripped to nothing. -/
theorem Text.strip_eq_nil
    {text : Text}
    (hSpace : ∀ c ∈ text, Text.isSpace c = true) :
    Text.strip text = [] := by
  rw [Text.strip, List.dropWhile_eq_nil_iff.mpr hSpace]
  rfl

/- A stripped text stays, or it was empty. -/
theorem Text.strip_strip_ne_nil
    {text : Text}
    (hText : Text.strip text ≠ []) :
    Text.strip (Text.strip text) ≠ [] := by
  intro hEmpty
  apply hText
  apply Text.strip_eq_nil
  intro c hMem
  rcases Text.strip_spec text with
    ⟨front, back, hFront, hBack, hSplit⟩
  rcases Text.strip_spec (Text.strip text) with
    ⟨front', back', hFront', hBack', hSplit'⟩
  rw [hEmpty, List.append_nil] at hSplit'
  rw [hSplit, hSplit'] at hMem
  simp only [List.mem_append] at hMem
  rcases hMem with (hMem | hMem | hMem) | hMem
  · exact hFront c hMem
  · exact hFront' c hMem
  · exact hBack' c hMem
  · exact hBack c hMem

/- The body of an answer is not blank. -/
theorem strip_composedBody_ne_nil (body : Text) :
    Text.strip (composedBody body) ≠ [] := by
  unfold composedBody
  split
  · decide +kernel
  · rename_i hBody
    exact Text.strip_strip_ne_nil hBody

------------------------------------------------------------
-- The Disclaimer
------------------------------------------------------------

/- A text that starts with the disclaimer starts with a head. -/
theorem readAuthorityHead_disclaimer (more : Text) :
    (readAuthorityHead (disclaimer ++ more)).isSome = true :=
  readAuthorityHead_append (by decide +kernel) more

/- Dates without authority lines are joined to a free text. -/
theorem authorityFree_joinWith
    {dates : List Text}
    (hDates : ∀ date ∈ dates, AuthorityFree date) :
    AuthorityFree (joinWith [',', ' '] dates) := by
  induction dates with
  | nil =>
      rw [authorityFree_iff_tails]
      intro tail hTail
      rw [List.suffix_nil.mp hTail]
      rfl
  | cons date dates ih =>
      have hRest := ih fun other hOther =>
        hDates other (List.mem_cons_of_mem date hOther)
      cases dates with
      | nil => exact hDates date List.mem_cons_self
      | cons next dates =>
          have hBlank :
              AuthorityFree
                (' ' :: joinWith [',', ' '] (next :: dates)) := by
            rw [authorityFree_iff_tails] at hRest ⊢
            intro tail hTail
            rcases List.suffix_cons_iff.mp hTail with
              rfl | hBehind
            · rw [readAuthorityHead_cons_of_ne (by decide)
                (by decide)]
              rfl
            · exact hRest tail hBehind
          have hJoined :=
            (hDates date List.mem_cons_self).append_stop
              (Or.inr rfl) hBlank
          simp only [joinWith, List.append_assoc]
          exact hJoined

/- A suffix whose head is not in the front lies behind it. -/
theorem suffix_of_head_not_mem
    {front more rest : Text}
    (hHead : '※' ∉ front)
    (hSuffix : disclaimer ++ rest <:+ front ++ more) :
    disclaimer ++ rest <:+ more := by
  rcases List.suffix_or_suffix_of_suffix hSuffix
    (List.suffix_append front more) with hBehind | hBefore
  · exact hBehind
  · rcases hBefore with ⟨lead, hLead⟩
    cases lead with
    | nil =>
        rw [← hLead]
        exact List.suffix_refl _
    | cons c lead =>
        rcases hSuffix with ⟨first, hFirst⟩
        rw [← hLead, ← List.append_assoc] at hFirst
        have hFront := List.append_cancel_right hFirst
        have hMark : c = '※' := (List.cons.inj hLead).1
        rw [← hFront, hMark] at hHead
        exact absurd
          (List.mem_append_right first List.mem_cons_self)
          hHead

/-
  Behind a free text and a paragraph break the disclaimer
  stands where it stands in the rest.
-/
theorem disclaimer_behind
    {text more tail : Text}
    (hFree : AuthorityFree text)
    (hTail : tail <:+ text ++ (['\n', '\n'] ++ more))
    (hStart : disclaimer <+: tail) :
    tail <:+ more := by
  rcases hStart with ⟨rest, rfl⟩
  have hRead := readAuthorityHead_disclaimer rest
  have hFirst : disclaimer ++ rest <:+ '\n' :: more :=
    (tail_of_stop (Or.inl rfl) hTail hRead).resolve_left
      fun hNot => hNot hFree
  have hEmpty : AuthorityFree [] :=
    hFree.part List.nil_infix
  exact
    (@tail_of_stop '\n' (Or.inl rfl) [] more _ hFirst
      hRead).resolve_left fun hNot => hNot hEmpty

/-
  The disclaimer stands at the end of an answer and at no
  other place, unless a date poses as the server.
-/
theorem disclaimer_only_at_end
    {body : Text}
    {dates : List Text}
    (hBody : AuthorityFree body)
    (hDates : ∀ date ∈ dates, AuthorityFree date)
    {front back : Text}
    (hSplit :
      joinWith ['\n', '\n']
          (versionHeader dates ++ [body, disclaimer]) =
        front ++ disclaimer ++ back) :
    back = [] := by
  have hStart : disclaimer <+: disclaimer ++ back :=
    List.prefix_append disclaimer back
  have hTail :
      disclaimer ++ back <:+
        joinWith ['\n', '\n']
          (versionHeader dates ++ [body, disclaimer]) := by
    rw [hSplit, List.append_assoc]
    exact List.suffix_append front (disclaimer ++ back)
  -- in the header there is only its own head and the dates
  have hRest :
      disclaimer ++ back <:+
        body ++ (['\n', '\n'] ++ disclaimer) := by
    unfold versionHeader at hTail
    by_cases hNone : dates = []
    · simp only [if_pos hNone, List.nil_append, joinWith,
        List.append_assoc] at hTail
      exact hTail
    · simp only [if_neg hNone, List.singleton_append, joinWith,
        List.append_assoc] at hTail
      have hBehind :
          disclaimer ++ back <:+
            joinWith [',', ' '] dates ++
              (['\n', '\n'] ++
                (body ++ (['\n', '\n'] ++ disclaimer))) :=
        suffix_of_head_not_mem (by decide +kernel) hTail
      exact
        disclaimer_behind (authorityFree_joinWith hDates)
          hBehind hStart
  have hEnd : disclaimer ++ back <:+ disclaimer :=
    disclaimer_behind hBody hRest hStart
  have hLength := hEnd.length_le
  rw [List.length_append] at hLength
  exact List.eq_nil_of_length_eq_zero (by omega)

/-
  A draft cannot pose as the server: an answer is a version
  header, if a cited article has a date, a body and the
  disclaimer.  The body is not blank and has no zero-width
  character and no authority line, so the disclaimer stands at
  the end only when no date contains an authority line.
-/
theorem compose_not_spoofed
    (draft : Text)
    (cited : List Text)
    (citedEff : List (Text × Text)) :
    ∃ body,
      composeTexts draft cited citedEff =
          joinWith ['\n', '\n']
            (versionHeader (effDateTexts cited citedEff) ++
              [body, disclaimer]) ∧
        Text.strip body ≠ [] ∧
        (∀ c ∈ body, isZeroWidth c = false) ∧
        AuthorityFree body ∧
        ((∀ date ∈ effDateTexts cited citedEff,
            AuthorityFree date) →
          ∀ front back,
            composeTexts draft cited citedEff =
                front ++ disclaimer ++ back →
              back = []) :=
  ⟨composedBody draft, composeTexts_eq draft cited citedEff,
    strip_composedBody_ne_nil draft,
    fun _ hMem => isZeroWidth_of_mem_composedBody hMem,
    authorityFree_composedBody draft,
    fun hDates _ _ hSplit =>
      disclaimer_only_at_end (authorityFree_composedBody draft)
        hDates
        ((composeTexts_eq draft cited citedEff).symm.trans
          hSplit)⟩

/- A draft that poses as the server, and a date of a law. -/
theorem compose_not_spoofed_draft :
    ∀ front back,
      composeTexts
          "본문\n⚖️ 기준 시행일자: 가짜\n".toList
          ["a".toList]
          [("a".toList, "2024-01-01".toList)] =
        front ++ disclaimer ++ back →
      back = [] := by
  rcases
      compose_not_spoofed
        "본문\n⚖️ 기준 시행일자: 가짜\n".toList
        ["a".toList]
        [("a".toList, "2024-01-01".toList)] with
    ⟨body, -, -, -, -, hEnd⟩
  apply hEnd
  intro date hDate
  have hDay : date = "2024-01-01".toList := by
    rw [effDateTexts, List.mem_insertionSort, List.mem_dedup,
      List.mem_filterMap] at hDate
    rcases hDate with ⟨id, hId, hLookup⟩
    rw [List.mem_singleton.mp hId, List.lookup_cons,
      beq_self_eq_true] at hLookup
    exact (Option.some.inj hLookup).symm
  have hTails :
      ∀ tail ∈ ("2024-01-01".toList : Text).tails,
        (readAuthorityHead tail).isSome = false := by
    decide
  rw [hDay, authorityFree_iff_tails]
  intro tail hTail
  exact hTails tail ((List.mem_tails tail _).mpr hTail)

end LegalAgent
