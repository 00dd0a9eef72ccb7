import LegalAgent.Text.Marker
import Mathlib.Data.Char
import Mathlib.Data.List.Lex
import Mathlib.Data.List.Sort
import Mathlib.Data.List.Dedup

/-
  Composition of the text of a final answer.

  `compose` models `_compose` of `run_service.py`: it deletes
  zero-width characters and lines in which a draft poses as
  the server, and joins the version header, the body and the
  disclaimer.

  Key definitions include:
    * `CitationId`
    * `EffDate`
    * `authorityLine`
    * `scrub`
    * `compose`

  Key theorems include:
    * `citeFindall_compose`
-/

------------------------------------------------------------
-- Identifiers And Dates
------------------------------------------------------------

namespace LegalAgent

open Library

/- Whether a text has the characters of a UUID. -/
def isUuidText (text : Text) : Bool :=
  text != [] &&
    text.all fun c => c.isAlphanum || c == '-'

/- The id of a citation, a UUID as `str` prints it. -/
structure CitationId where
  text : Text
  uuid : isUuidText text = true
deriving DecidableEq

/- The effective date of an article, digits and dashes. -/
structure EffDate where
  text : Text
  dated :
    text.all (fun c => c.isDigit || c == '-') = true
deriving DecidableEq

/- Ids are equal when their texts are. -/
theorem CitationId.text_inj
    {key other : CitationId} :
    key.text = other.text ↔ key = other := by
  constructor
  · intro hEq
    cases key
    cases other
    cases hEq
    rfl
  · rintro rfl
    rfl

/- Dates are equal when their texts are. -/
theorem EffDate.text_inj
    {date other : EffDate} :
    date.text = other.text ↔ date = other := by
  constructor
  · intro hEq
    cases date
    cases other
    cases hEq
    rfl
  · rintro rfl
    rfl

/- A citation id has no bracket. -/
theorem CitationId.bracket_not_mem
    (id : CitationId) :
    '[' ∉ id.text := by
  intro hMem
  have hChars := id.uuid
  simp only [isUuidText, Bool.and_eq_true,
    List.all_eq_true] at hChars
  have hBracket := hChars.2 '[' hMem
  simp at hBracket

/- The characters of an id are letters, digits and dashes. -/
theorem toNat_of_isUuidText
    {id : Text}
    (hId : isUuidText id = true)
    {c : Char}
    (hMem : c ∈ id) :
    c.toNat = 0x2D ∨
      0x30 ≤ c.toNat ∧ c.toNat ≤ 0x39 ∨
        0x41 ≤ c.toNat ∧ c.toNat ≤ 0x5A ∨
          0x61 ≤ c.toNat ∧ c.toNat ≤ 0x7A := by
  simp only [isUuidText, Bool.and_eq_true, List.all_eq_true,
    Bool.or_eq_true, beq_iff_eq] at hId
  rcases hId.2 c hMem with hAlnum | rfl
  · change
      (decide (65 ≤ c.val ∧ c.val ≤ 90) ||
            (decide (97 ≤ c.val) && decide (c.val ≤ 122)) ||
          (decide (48 ≤ c.val) && decide (c.val ≤ 57))) =
        true
      at hAlnum
    simp only [Bool.or_eq_true, Bool.and_eq_true,
      decide_eq_true_eq, UInt32.le_iff_toNat_le] at hAlnum
    rcases hAlnum with (⟨hLow, hHigh⟩ | ⟨hLow, hHigh⟩) |
      ⟨hLow, hHigh⟩
    · exact Or.inr (Or.inr (Or.inl ⟨hLow, hHigh⟩))
    · exact Or.inr (Or.inr (Or.inr ⟨hLow, hHigh⟩))
    · exact Or.inr (Or.inl ⟨hLow, hHigh⟩)
  · exact Or.inl rfl

/- The front end reads every citation id. -/
theorem CitationId.inline
    (id : CitationId) :
    id.text ≠ [] ∧ ∀ c ∈ id.text, inlineIdChar c = true := by
  constructor
  · intro hEmpty
    have hId := id.uuid
    rw [hEmpty] at hId
    cases hId
  · intro c hMem
    have hRange := toNat_of_isUuidText id.uuid hMem
    have hClose : c ≠ ']' := by
      rintro rfl
      change
        93 = 0x2D ∨ 0x30 ≤ 93 ∧ 93 ≤ 0x39 ∨
          0x41 ≤ 93 ∧ 93 ≤ 0x5A ∨ 0x61 ≤ 93 ∧ 93 ≤ 0x7A
        at hRange
      omega
    simp only [inlineIdChar, notClose, Text.isScriptSpace,
      hClose, Bool.and_eq_true, Bool.not_eq_true',
      Bool.or_eq_false_iff, Bool.and_eq_false_iff,
      decide_eq_false_iff_not, beq_eq_false_iff_ne, ne_eq,
      not_false_eq_true, decide_true, true_and]
    omega

/- An effective date has no bracket. -/
theorem EffDate.bracket_not_mem
    (date : EffDate) :
    '[' ∉ date.text := by
  intro hMem
  have hBracket :=
    List.all_eq_true.mp date.dated '[' hMem
  simp at hBracket

------------------------------------------------------------
-- Server Authority Lines
------------------------------------------------------------

/- The disclaimer at the end of every answer. -/
def disclaimer : Text :=
  "※ 본 답변은 법률자문이 아니며, 정확한 판단은 전문가 확인이 필요합니다.".toList

/- The body of an answer whose draft is empty (`_NO_ANSWER`). -/
def noAnswer : Text :=
  "요청하신 내용에 대한 근거를 찾지 못해 답변을 생성하지 못했습니다. 질문을 구체화해 다시 시도해 주세요.".toList

/- The head of the version header. -/
def versionHead : Text :=
  "⚖️ 기준 시행일자: ".toList

/- Whether a character is one of `_ZERO_WIDTH`. -/
def isZeroWidth (c : Char) : Bool :=
  c.toNat ∈ [0x200B, 0x200C, 0x200D, 0x2060, 0xFEFF]

/- Delete zero-width characters (`str.translate`). -/
def translateZeroWidth (body : Text) : Text :=
  body.filter fun c => !isZeroWidth c

/- Blanks between the words of an authority line (`_AUTH_WS`). -/
def isAuthBlank (c : Char) : Bool :=
  c.toNat ∈ [0x20, 0x09, 0x3000]

/- Read the head of a version line or of a disclaimer. -/
def readAuthorityHead (input : Text) : Option Text :=
  (readPhrase isAuthBlank (exactly ['⚖', '\uFE0F'])
      [exactly ['기', '준'], exactly ['시', '행', '일', '자'],
        [fun c => c == ':' || c == '：']] input).or
    (readPhrase isAuthBlank (exactly ['※'])
      [exactly ['본'], exactly ['답', '변', '은'],
        exactly ['법', '률', '자', '문']] input)

/- The rest of an input from the end of its first line. -/
def restOfLine (input : Text) : Text :=
  input.dropWhile fun c => decide (c ≠ '\n')

/- Read an authority head and the line behind it. -/
def readAuthorityLine
    (input : Text) :
    Option (Unit × Text) :=
  (readAuthorityHead input).map fun rest =>
    ((), restOfLine rest)

/- The rest after an authority head is a proper suffix. -/
theorem readAuthorityHead_suffix
    {input rest : Text}
    (hRead : readAuthorityHead input = some rest) :
    rest <:+ input ∧ rest.length < input.length := by
  rcases Option.or_eq_some_iff.mp hRead with
    hVersion | ⟨_, hDisclaimer⟩
  · exact ⟨readPhrase_suffix hVersion,
      readPhrase_shorter (List.cons_ne_nil _ _) hVersion⟩
  · exact ⟨readPhrase_suffix hDisclaimer,
      readPhrase_shorter (List.cons_ne_nil _ _) hDisclaimer⟩

/- Authority lines as a matcher (`_AUTHORITY_LINE`). -/
def authorityLine : Matcher Char Unit where
  read := readAuthorityLine
  consumes := by
    intro input value tail hRead
    rcases Option.map_eq_some_iff.mp hRead with
      ⟨rest, hHead, hEq⟩
    rcases Prod.mk.inj hEq with ⟨-, rfl⟩
    rcases readAuthorityHead_suffix hHead with
      ⟨hSuffix, hShorter⟩
    have hTail : restOfLine rest <:+ input :=
      (List.dropWhile_suffix _).trans hSuffix
    rcases hTail with ⟨front, hFront⟩
    refine ⟨front, ?_, hFront.symm⟩
    rintro rfl
    have hLength :=
      (List.dropWhile_suffix (l := rest)
        fun c => decide (c ≠ '\n')).length_le
    rw [List.nil_append] at hFront
    rw [← hFront] at hShorter
    exact absurd hLength (Nat.not_le.mpr hShorter)

/-
  The body of an answer: without zero-width characters,
  without authority lines and without white space around it.
-/
def scrub (body : Text) : Text :=
  Text.strip
    (authorityLine.replace (fun _ => [])
      (translateZeroWidth body))

------------------------------------------------------------
-- Composition
------------------------------------------------------------

/- Join texts with a separator (`str.join`). -/
def joinWith (separator : Text) : List Text → Text
| [] => []
| [text] => text
| text :: texts =>
    text ++ separator ++ joinWith separator texts

/-
  The effective dates of the cited articles that this driver
  froze, sorted and without duplicates.
-/
def effDates
    (cited : List Text)
    (citedEff : List (Text × EffDate)) :
    List Text :=
  ((cited.filterMap fun id => List.lookup id citedEff).map
      EffDate.text).dedup.insertionSort (· ≤ ·)

/-
  The body of a composed answer: the scrubbed draft, or the
  notice that no answer was found.
-/
def composedBody (body : Text) : Text :=
  if scrub body = [] then noAnswer else scrub body

/-
  The final text: version header, body and disclaimer
  (`_compose`).
-/
def compose
    (body : Text)
    (cited : List Text)
    (citedEff : List (Text × EffDate)) :
    Text :=
  let header :=
    if effDates cited citedEff = [] then
      []
    else
      [versionHead ++
        joinWith [',', ' '] (effDates cited citedEff)]
  joinWith ['\n', '\n']
    ((header ++ [composedBody body, disclaimer]).filter
      fun part => decide (part ≠ []))

/- A character of a joined text comes from a part of it. -/
theorem mem_joinWith
    {separator : Text}
    {texts : List Text}
    {c : Char}
    (hMem : c ∈ joinWith separator texts) :
    c ∈ separator ∨ ∃ text ∈ texts, c ∈ text := by
  induction texts with
  | nil => simp [joinWith] at hMem
  | cons text texts ih =>
      cases texts with
      | nil =>
          exact Or.inr
            ⟨text, List.mem_cons_self, by
              simpa [joinWith] using hMem⟩
      | cons next texts =>
          simp only [joinWith, List.mem_append] at hMem
          rcases hMem with (hText | hSep) | hRest
          · exact Or.inr
              ⟨text, List.mem_cons_self, hText⟩
          · exact Or.inl hSep
          · rcases ih hRest with hSep | ⟨other, hOther, hc⟩
            · exact Or.inl hSep
            · exact Or.inr
                ⟨other, List.mem_cons_of_mem _ hOther, hc⟩

/- Every date of the header is an effective date. -/
theorem exists_of_mem_effDates
    {cited : List Text}
    {citedEff : List (Text × EffDate)}
    {text : Text}
    (hMem : text ∈ effDates cited citedEff) :
    ∃ date : EffDate, date.text = text := by
  rw [effDates, List.mem_insertionSort, List.mem_dedup,
    List.mem_map] at hMem
  rcases hMem with ⟨date, _, hText⟩
  exact ⟨date, hText⟩

/- The version header has no bracket. -/
theorem bracket_not_mem_header
    (cited : List Text)
    (citedEff : List (Text × EffDate)) :
    '[' ∉ versionHead ++
      joinWith [',', ' '] (effDates cited citedEff) := by
  intro hMem
  rcases List.mem_append.mp hMem with hHead | hDates
  · exact absurd hHead (by decide)
  · rcases mem_joinWith hDates with
      hSep | ⟨text, hText, hChar⟩
    · exact absurd hSep (by decide)
    · rcases exists_of_mem_effDates hText with ⟨date, rfl⟩
      exact date.bracket_not_mem hChar

/- The disclaimer has no bracket. -/
theorem close_not_mem_ending :
    ']' ∉ ['\n', '\n'] ++ disclaimer := by
  decide +kernel

/- The server's own texts have no marker. -/
theorem close_not_mem_noAnswer :
    ']' ∉ noAnswer := by
  decide +kernel

/- The body of a composed answer is never empty. -/
theorem composedBody_ne_nil (body : Text) :
    composedBody body ≠ [] := by
  unfold composedBody
  split
  · decide +kernel
  · assumption

/- The notice has no marker, like an empty body. -/
theorem citeFindall_composedBody (body : Text) :
    citeFindall (composedBody body) =
      citeFindall (scrub body) := by
  unfold composedBody
  split
  · rename_i hEmpty
    rw [hEmpty, citeFindall_eq_nil close_not_mem_noAnswer]
    rfl
  · rfl

/- A composed answer is a header, a body and the disclaimer. -/
theorem compose_eq
    (body : Text)
    (cited : List Text)
    (citedEff : List (Text × EffDate)) :
    ∃ header,
      '[' ∉ header ∧
        compose body cited citedEff =
          header ++ composedBody body ++
            (['\n', '\n'] ++ disclaimer) := by
  have hBody := composedBody_ne_nil body
  have hDisclaimer : disclaimer ≠ [] := by decide
  by_cases hDates : effDates cited citedEff = []
  · refine ⟨[], List.not_mem_nil, ?_⟩
    simp [compose, hDates, hBody, hDisclaimer, joinWith]
  · have hHead : versionHead ≠ [] := by decide
    refine
      ⟨versionHead ++
          joinWith [',', ' '] (effDates cited citedEff) ++
            ['\n', '\n'], ?_, ?_⟩
    · intro hMem
      rcases List.mem_append.mp hMem with hLine | hBreak
      · exact bracket_not_mem_header cited citedEff hLine
      · exact absurd hBreak (by decide)
    · simp [compose, hDates, hBody, hDisclaimer, hHead,
        joinWith]

/-
  The markers of a composed answer are the markers of its
  scrubbed body.
-/
theorem citeFindall_compose
    (body : Text)
    (cited : List Text)
    (citedEff : List (Text × EffDate)) :
    citeFindall (compose body cited citedEff) =
      citeFindall (scrub body) := by
  rcases compose_eq body cited citedEff with
    ⟨header, hHeader, hCompose⟩
  rw [hCompose,
    citeFindall_append_right close_not_mem_ending,
    citeFindall_append_left hHeader,
    citeFindall_composedBody]

end LegalAgent
