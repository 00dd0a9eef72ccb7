import LegalAgent.Law.Ingest
import LegalAgent.Text.Json

/-
  The articles of a law service (`parse_law_service` of
  `lawgo.py`).

  A payload lists units; those marked as articles become
  records with a number, the number of a branch, a key and the
  flattened text.  `none` is an exception.

  Key definitions include:
    * `flattenArticle`
    * `branch?`
    * `articleOf?`
    * `parseLawService`

  Key theorems include:
    * `articles_of_parseLawService`
-/

------------------------------------------------------------
-- Texts Of Articles
------------------------------------------------------------

namespace LegalAgent

namespace Law

/- A value as a list (`_as_list`). -/
def asList : Option Json → List Json
| none => []
| some .null => []
| some (.str []) => []
| some (.arr items) => items
| some value => [value]

/- The stripped text of an entry, if it is a text with any. -/
def line? (node : Json) (key : Text) : Option Text :=
  match node.get? key with
  | some (.str text) =>
      if text.strip = [] then none else some text.strip
  | _ => none

/- The lines of an item of a clause (`목`). -/
def mokLines (mok : Json) : List Text :=
  match mok with
  | .obj _ => (line? mok "목내용".toList).toList
  | _ => []

/- The lines of a clause (`호`). -/
def hoLines (ho : Json) : List Text :=
  match ho with
  | .obj _ =>
      (line? ho "호내용".toList).toList ++
        (asList (ho.get? "목".toList)).flatMap mokLines
  | _ => []

/- The lines of a paragraph (`항`). -/
def hangLines (hang : Json) : List Text :=
  match hang with
  | .obj _ =>
      (line? hang "항내용".toList).toList ++
        (asList (hang.get? "호".toList)).flatMap hoLines
  | _ => []

/- The text of a unit with its parts (`flatten_article`). -/
def flattenArticle (unit : Json) : Text :=
  joinWith ['\n']
    ((line? unit "조문내용".toList).toList ++
      (asList (unit.get? "항".toList)).flatMap hangLines)

------------------------------------------------------------
-- Records
------------------------------------------------------------

section Parse

variable (repr : Json → Text)

/- The stripped text of a value (`str(..).strip()`). -/
def strippedText (value : Json) : Text :=
  Text.strip (value.text repr)

/-
  The number of the branch of a unit (`_branch`): an empty
  text and the text of zero are no branch.
-/
def branch? (unit : Json) : Option (Option Int) :=
  let text :=
    strippedText repr
      ((unit.get? "조문가지번호".toList).getD (.str []))
  if text ≠ [] ∧ text ≠ ['0'] then
    (int? text).map some
  else
    some none

/- The number of the article of a unit, if it has one. -/
def articleNo? (unit : Json) : Option Int :=
  (unit.get? "조문번호".toList).bind fun value =>
    int? (strippedText repr value)

/- Whether a unit is marked as an article (`조문여부`). -/
def isArticle (unit : Json) : Bool :=
  match unit.get? "조문여부".toList with
  | some (.str mark) => decide (mark = "조문".toList)
  | _ => false

/-
  The record of a unit: `some none` is a unit that is passed
  over.
-/
def articleOf? (unit : Json) : Option (Option ArticleRec) :=
  match unit with
  | .obj _ =>
      if isArticle unit then
        match articleNo? repr unit with
        | none => some none
        | some number =>
            (branch? repr unit).map fun branch =>
              some
                { articleNo := number
                  branchNo := branch
                  articleKey :=
                    strippedText repr
                      ((unit.get? "조문키".toList).getD (.str []))
                  text := flattenArticle unit }
      else
        some none
  | _ => none

/- The records of units, up to the first exception. -/
def articlesOf? : List Json → Option (List ArticleRec)
| [] => some []
| unit :: units =>
    (articleOf? repr unit).bind fun article? =>
      (articlesOf? units).map fun articles =>
        article?.toList ++ articles

/- The ministry of a law, as text (`소관부처`). -/
def ministryOf (basic : Json) : Text :=
  match basic.get? "소관부처".toList with
  | some (.obj fields) =>
      ((fields.lookup "content".toList).getD (.str [])).text
        repr
  | some value => if value.falsy then [] else value.text repr
  | none => []

/- What a payload says of the law itself. -/
def lawMeta? (law : Json) : Option LawMeta :=
  (law.get? "기본정보".toList).bind fun basic =>
    (basic.get? "법령ID".toList).bind fun lawId =>
      ((basic.get? "법령명_한글".toList).bind
          Json.str?).bind fun statute =>
        (basic.get? "시행일자".toList).map fun effDate =>
          { lawId := strippedText repr lawId
            statute := statute.strip
            effDate := strippedText repr effDate
            ministry := ministryOf repr basic }

/- The units of a law; a missing key is an empty object. -/
def unitsOf? (law : Json) : Option (List Json) :=
  match law.get? "조문".toList with
  | none => some []
  | some (.obj fields) =>
      some (asList (fields.lookup "조문단위".toList))
  | some _ => none

/- The law of a payload and its articles. -/
def parseLawService
    (payload : Json) :
    Option (LawMeta × List ArticleRec) :=
  (payload.get? "법령".toList).bind fun law =>
    (lawMeta? repr law).bind fun lawMeta =>
      (unitsOf? law).bind fun units =>
        (articlesOf? repr units).map fun articles =>
          (lawMeta, articles)

/- The records are those of the units that are articles. -/
theorem articlesOf?_eq
    {units : List Json}
    {articles : List ArticleRec}
    (hArticles : articlesOf? repr units = some articles) :
    articles =
      units.filterMap fun unit =>
        (articleOf? repr unit).join := by
  induction units generalizing articles with
  | nil =>
      cases hArticles
      rfl
  | cons unit units ih =>
      rcases Option.bind_eq_some_iff.mp hArticles with
        ⟨article?, hUnit, hRest⟩
      rcases Option.map_eq_some_iff.mp hRest with
        ⟨rest, hUnits, rfl⟩
      rw [List.filterMap_cons, hUnit, ← ih hUnits]
      cases article? <;> rfl

/- The units of a payload (`조문단위`). -/
def lawUnits (payload : Json) : List Json :=
  (((payload.get? "법령".toList).bind unitsOf?).getD [])

/- The articles of a payload are those of its units. -/
theorem articles_of_parseLawService
    {payload : Json}
    {law : LawMeta}
    {articles : List ArticleRec}
    (hParse :
      parseLawService repr payload = some (law, articles)) :
    articles =
      (lawUnits payload).filterMap fun unit =>
        (articleOf? repr unit).join := by
  rcases Option.bind_eq_some_iff.mp hParse with
    ⟨lawJson, hLaw, hRest⟩
  rcases Option.bind_eq_some_iff.mp hRest with
    ⟨lawMeta, -, hRest⟩
  rcases Option.bind_eq_some_iff.mp hRest with
    ⟨units, hUnits, hRest⟩
  rcases Option.map_eq_some_iff.mp hRest with
    ⟨records, hRecords, hEq⟩
  rcases Prod.mk.inj hEq with ⟨-, rfl⟩
  rw [lawUnits, hLaw, Option.bind_some, hUnits,
    Option.getD_some]
  exact articlesOf?_eq repr hRecords

end Parse

end Law

end LegalAgent
